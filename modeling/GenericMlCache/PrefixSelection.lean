import Mathlib.Data.List.Sort
import Mathlib.Algebra.BigOperators.Group.List.Basic
import Mathlib.Algebra.Ring.Nat

/-!
# The shortest prefix to give up

Elements with a size are given up from the front of a list until those left
fit a bound. How many is determined by the list. A stable sort of the list by
one measure orders it by that measure first and by its former order next.
-/

namespace GenericMlCache.PrefixSelection

variable {α : Type}

/-- By the first measure, and by the second where that ties. -/
def Before (epoch : α → ℤ) (rank : α → ℕ) (a b : α) : Prop :=
  epoch a < epoch b ∨ epoch a=epoch b ∧ rank a < rank b

/-- Inserting an element that ranks before all others. -/
theorem orderedInsert_before {epoch : α → ℤ} {rank : α → ℕ} {a : α} {l : List α}
    (hl : l.Pairwise (Before epoch rank)) (ha : ∀ b∈l,rank a < rank b) :
    (l.orderedInsert (fun a b => epoch a ≤ epoch b) a).Pairwise (Before epoch rank) := by
  induction l with
  | nil => exact List.pairwise_singleton _ _
  | cons b rest ih =>
    obtain ⟨hb,hrest⟩ := List.pairwise_cons.mp hl
    have harest : ∀ c∈rest,rank a < rank c := fun c hc => ha c (List.mem_cons_of_mem _ hc)
    by_cases hle : epoch a ≤ epoch b
    · rw [List.orderedInsert_cons,if_pos hle]
      refine List.pairwise_cons.mpr ⟨fun c hc => ?_,hl⟩
      have hrank := ha c hc
      have hepoch : epoch a ≤ epoch c := by
        rcases List.mem_cons.mp hc with rfl | hc
        · exact hle
        · rcases hb c hc with hlt | ⟨heq,_⟩
          · omega
          · omega
      unfold Before
      omega
    · rw [List.orderedInsert_cons,if_neg hle]
      refine List.pairwise_cons.mpr ⟨fun c hc => ?_,ih hrest harest⟩
      rcases List.mem_orderedInsert _ |>.mp hc with rfl | hc
      · exact Or.inl (by omega)
      · exact hb c hc

/-- Sorting by the first measure a list in the order of the second. -/
theorem insertionSort_before (epoch : α → ℤ) {rank : α → ℕ} {l : List α}
    (hl : l.Pairwise fun a b => rank a < rank b) :
    (l.insertionSort fun a b => epoch a ≤ epoch b).Pairwise (Before epoch rank) := by
  induction l with
  | nil => exact .nil
  | cons a rest ih =>
    obtain ⟨ha,hrest⟩ := List.pairwise_cons.mp hl
    exact orderedInsert_before (ih hrest) fun b hb => ha b ((List.mem_insertionSort _).mp hb)

/-- The sizes together. -/
def total (size : α → ℕ) (l : List α) : ℕ := (l.map size).sum

/-- Without its first n elements the list fits the bound, and without fewer it does not. -/
structure ShortestPrefix (size : α → ℕ) (bound : ℕ) (l : List α) (n : ℕ) : Prop where
  /-- There are as many elements. -/
  le : n ≤ l.length
  /-- What is left fits. -/
  fits : total size (l.drop n) ≤ bound
  /-- With fewer elements gone it does not. -/
  least : ∀ m < n,bound < total size (l.drop m)

/-- How many elements are given up from the front. -/
def surplus (size : α → ℕ) (bound : ℕ) : List α → ℕ
  | [] => 0
  | a::rest => if total size (a::rest) ≤ bound then 0 else surplus size bound rest+1

section Prefix
variable {size : α → ℕ} {bound : ℕ} {l : List α} {n : ℕ}

@[simp] theorem total_nil : total size []=0 := rfl

@[simp] theorem total_cons (a : α) (l : List α) : total size (a::l)=size a+total size l := by
  simp [total]

/-- The order of the elements does not matter. -/
theorem total_perm {l' : List α} (h : l.Perm l') : total size l=total size l' :=
  (h.map size).sum_eq

/-- The elements given up are the shortest prefix. -/
theorem surplus_shortest (size : α → ℕ) (bound : ℕ) (l : List α) :
    ShortestPrefix size bound l (surplus size bound l) := by
  induction l with
  | nil => exact ⟨le_refl _,Nat.zero_le _,fun m hm => nomatch hm⟩
  | cons a rest ih =>
    unfold surplus
    by_cases hfits : total size (a::rest) ≤ bound
    · rw [if_pos hfits]
      exact ⟨Nat.zero_le _,hfits,fun m hm => nomatch hm⟩
    · rw [if_neg hfits]
      refine ⟨Nat.succ_le_succ ih.le,ih.fits,fun m hm => ?_⟩
      cases m with
      | zero => exact Nat.lt_of_not_le hfits
      | succ m => exact ih.least m (Nat.lt_of_succ_lt_succ hm)

/-- Nothing is given up of what fits. -/
theorem ShortestPrefix.eq_zero (h : ShortestPrefix size bound l n) (hfits : total size l ≤ bound) : n=0 := by
  by_contra hne
  have hover : bound < total size (l.drop 0) := h.least 0 (Nat.pos_of_ne_zero hne)
  rw [List.drop_zero] at hover
  omega

end Prefix

end GenericMlCache.PrefixSelection
