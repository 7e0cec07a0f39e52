import Mathlib.Data.List.Basic

/-!
# Length-prefixed record framing

A stream of records over any alphabet. A record is its key, the separator, the
length of its value in digits, the separator, the value and a stop symbol. Only
values are length-prefixed, so a stream parses uniquely as long as no key
imitates the head of another record: its key, the separator and its length.
-/

namespace GenericMlCache.LengthFraming

/-- The symbols of a framing, and how it writes a length. -/
structure Framing (α : Type) where
  /-- Ends a key and ends a length. -/
  sep : α
  /-- Ends a record. -/
  stop : α
  /-- A length in symbols. -/
  digits : ℕ → List α
  /-- No two lengths are written the same. -/
  digits_injective : Function.Injective digits
  /-- The separator is no digit. -/
  sep_notMem_digits : ∀ n,sep ∉ digits n

variable {α : Type}

/-- A key and its value. -/
abbrev Record (α : Type) := List α × List α

namespace Framing
variable (F : Framing α)

/-- What stands in front of a record's value. -/
def head (r : Record α) : List α := r.1 ++ F.sep::F.digits r.2.length ++ [F.sep]

/-- One framed record. -/
def frame (r : Record α) : List α := F.head r ++ r.2 ++ [F.stop]

/-- The framed records, one after the other. -/
def stream (rs : List (Record α)) : List α := rs.flatMap F.frame

/-- The second record's key begins as the first record does, up to its value. -/
def Imitates (r s : Record α) : Prop := F.head r <+: s.1 ++ [F.sep]

instance [DecidableEq α] (r s : Record α) : Decidable (F.Imitates r s) :=
  inferInstanceAs (Decidable (_ <+: _))

@[simp] theorem stream_nil : F.stream []=[] := rfl

@[simp] theorem stream_cons (r : Record α) (rs : List (Record α)) :
    F.stream (r::rs)=F.frame r ++ F.stream rs := rfl

/-- A framed record, opened up behind its key. -/
theorem frame_append (r : Record α) (u : List α) :
    F.frame r ++ u=r.1 ++ F.sep::(F.digits r.2.length ++ F.sep::(r.2 ++ F.stop::u)) := by
  simp [frame,head]

/-- A framed record is never empty. -/
theorem frame_append_ne_nil (r : Record α) (u : List α) : F.frame r ++ u≠[] := by
  rw [frame_append]
  simp

end Framing

/-- Text in front of the first separator is determined. -/
theorem append_sep_cancel {a : α} {x y u v : List α} (hx : a∉x) (hy : a∉y)
    (h : x ++ a::u=y ++ a::v) : x=y ∧ u=v := by
  induction x generalizing y with
  | nil =>
    cases y with
    | nil => exact ⟨rfl,(List.cons.inj h).2⟩
    | cons b y =>
      have hb : a=b := (List.cons.inj h).1
      have hmem : a∈b::y := hb ▸ List.mem_cons_self
      exact absurd hmem hy
  | cons b x ih =>
    cases y with
    | nil =>
      have hb : b=a := (List.cons.inj h).1
      have hmem : a∈b::x := hb ▸ List.mem_cons_self
      exact absurd hmem hx
    | cons c y =>
      obtain ⟨rfl,htail⟩ := List.cons.inj h
      have hx' : a∉x := fun hmem => hx (List.mem_cons_of_mem _ hmem)
      have hy' : a∉y := fun hmem => hy (List.mem_cons_of_mem _ hmem)
      obtain ⟨rfl,rfl⟩ := ih hx' hy' htail
      exact ⟨rfl,rfl⟩

namespace Framing
variable {F : Framing α}

/-- Behind one key, the length and the value are determined. -/
theorem value_cancel {v w t u : List α}
    (h : F.digits v.length ++ F.sep::(v ++ F.stop::t)=F.digits w.length ++ F.sep::(w ++ F.stop::u)) :
    v=w ∧ t=u := by
  have hdigits := append_sep_cancel (F.sep_notMem_digits _) (F.sep_notMem_digits _) h
  have hlength : v.length=w.length := F.digits_injective hdigits.1
  obtain ⟨hvalue,hrest⟩ := List.append_inj hdigits.2 hlength
  exact ⟨hvalue,(List.cons.inj hrest).2⟩

/-- A record whose key runs on past the first one's key imitates it. -/
theorem imitates_of_longer {r s : Record α} {c t u : List α} (hkey : s.1=r.1 ++ F.sep::c)
    (h : F.digits r.2.length ++ F.sep::t=c ++ F.sep::u) : F.Imitates r s := by
  have hprefix : F.digits r.2.length ++ [F.sep] <+: c ++ [F.sep] := by
    rcases List.append_eq_append_iff.mp h with ⟨d,hc,hd⟩ | ⟨d,hdigits,hd⟩
    · rw [hc]
      cases d with
      | nil => simp
      | cons b d =>
        obtain ⟨rfl,-⟩ := List.cons.inj hd
        exact ⟨d ++ [F.sep],by simp⟩
    · cases d with
      | nil =>
        rw [hdigits]
        simp
      | cons b d =>
        obtain ⟨rfl,-⟩ := List.cons.inj hd
        have hmem : F.sep∈F.digits r.2.length := by
          rw [hdigits]
          simp
        exact absurd hmem (F.sep_notMem_digits _)
  obtain ⟨d,hd⟩ := hprefix
  refine ⟨d,?_⟩
  rw [hkey]
  simpa [head] using hd

/-- Two streams that begin with a record agree on it, or one key imitates the other record. -/
theorem frame_cancel {r s : Record α} {t u : List α} (h : F.frame r ++ t=F.frame s ++ u) :
    (r=s ∧ t=u) ∨ F.Imitates r s ∨ F.Imitates s r := by
  rw [frame_append,frame_append] at h
  rcases List.append_eq_append_iff.mp h with ⟨c,hkey,hc⟩ | ⟨c,hkey,hc⟩
  · cases c with
    | nil =>
      have hkeys : r.1=s.1 := by simpa using hkey.symm
      obtain ⟨hvalue,hrest⟩ := value_cancel (List.cons.inj hc).2
      exact Or.inl ⟨Prod.ext hkeys hvalue,hrest⟩
    | cons b c =>
      obtain ⟨rfl,hrest⟩ := List.cons.inj hc
      exact Or.inr (Or.inl (imitates_of_longer hkey hrest))
  · cases c with
    | nil =>
      have hkeys : r.1=s.1 := by simpa using hkey
      obtain ⟨hvalue,hrest⟩ := value_cancel (List.cons.inj hc).2
      exact Or.inl ⟨Prod.ext hkeys hvalue.symm,hrest.symm⟩
    | cons b c =>
      obtain ⟨rfl,hrest⟩ := List.cons.inj hc
      exact Or.inr (Or.inr (imitates_of_longer hkey hrest))

/-- What imitates a record begins with its key. -/
theorem Imitates.key_prefix {r s : Record α} (h : F.Imitates r s) : r.1 ++ [F.sep] <+: s.1 := by
  obtain ⟨d,hd⟩ := h
  have hsplit : r.1 ++ F.sep::(F.digits r.2.length ++ F.sep::d)=s.1 ++ F.sep::[] := by
    simpa [head] using hd
  rcases List.append_eq_append_iff.mp hsplit with ⟨c,hkey,hc⟩ | ⟨c,-,hc⟩
  · cases c with
    | nil => simp at hc
    | cons b c =>
      obtain ⟨rfl,-⟩ := List.cons.inj hc
      exact ⟨c,by simp [hkey]⟩
  · cases c with
    | nil => simp at hc
    | cons b c => simp at hc

/-- A key without the separator imitates no record. -/
theorem not_imitates_of_notMem {r s : Record α} (h : F.sep∉s.1) : ¬F.Imitates r s := by
  intro himitates
  have hmem : F.sep∈r.1 ++ [F.sep] := by simp
  exact h (himitates.key_prefix.subset hmem)

/-- Streams without imitation parse uniquely. -/
theorem stream_injective {rs ss : List (Record α)}
    (hapart : ∀ r∈rs,∀ s∈ss,¬F.Imitates r s ∧ ¬F.Imitates s r)
    (h : F.stream rs=F.stream ss) : rs=ss := by
  induction rs generalizing ss with
  | nil =>
    cases ss with
    | nil => rfl
    | cons s ss => exact absurd h.symm (F.frame_append_ne_nil s (F.stream ss))
  | cons r rs ih =>
    cases ss with
    | nil => exact absurd h (F.frame_append_ne_nil r (F.stream rs))
    | cons s ss =>
      have hhead := hapart r List.mem_cons_self s List.mem_cons_self
      rcases frame_cancel h with ⟨rfl,hrest⟩ | himitates | himitates
      · have htail : rs=ss := ih (fun r' hr s' hs =>
          hapart r' (List.mem_cons_of_mem _ hr) s' (List.mem_cons_of_mem _ hs)) hrest
        rw [htail]
      · exact absurd himitates hhead.1
      · exact absurd himitates hhead.2

end Framing

end GenericMlCache.LengthFraming
