import Mathlib.Logic.Relation
import Mathlib.Order.Basic

/-!
# Waiting for locks in a fixed order

Parties hold exclusive locks and wait for others without bound. A deadlock is
a cycle of parties that wait for each other. Where the locks are ranked, and
nobody waits for a lock unless it is above all that party holds or is held by
it already, no cycle exists: along a chain of waiting parties the ranks rise.
-/

namespace GenericMlCache.LockOrder

variable {ι L α : Type}

/-- Party `i` awaits a lock that another party `j` holds. -/
def WaitsFor (holds awaits : ι → L → Prop) (i j : ι) : Prop := i≠j ∧ ∃ l,awaits i l ∧ holds j l

/-- Some party waits for itself through a cycle of others. -/
def Deadlocked (holds awaits : ι → L → Prop) : Prop :=
  ∃ i,Relation.TransGen (WaitsFor holds awaits) i i

/-- No lock is held by two parties. -/
def Exclusive (holds : ι → L → Prop) : Prop := ∀ i j l,holds i l → holds j l → i=j

/-- An awaited lock is held by the party already, or ranks above all it holds. -/
def Ascending [Preorder α] (rank : L → α) (holds awaits : ι → L → Prop) : Prop :=
  ∀ i l,awaits i l → holds i l ∨ ∀ l',holds i l' → rank l' < rank l

section Cycles
variable {holds awaits : ι → L → Prop}

/-- Two parties that wait for each other are deadlocked. -/
theorem Deadlocked.of_pair {i j : ι} (h : WaitsFor holds awaits i j)
    (h' : WaitsFor holds awaits j i) : Deadlocked holds awaits :=
  ⟨i,.tail (.single h) h'⟩

/-- A party that waits for a lock of another does not hold it itself, so the
lock ranks above all that the party holds. -/
theorem Ascending.lt [Preorder α] {rank : L → α} (h : Ascending rank holds awaits)
    (hx : Exclusive holds) {i j : ι} {l l' : L} (hij : i≠j) (ha : awaits i l) (hj : holds j l)
    (hi : holds i l') : rank l' < rank l := by
  rcases h i l ha with hheld | habove
  · exact absurd (hx i j l hheld hj) hij
  · exact habove l' hi

/-- A chain of waiting parties ends at one that holds a lock ranked at least
as high as the lock that the first party awaits. -/
theorem Ascending.chain [Preorder α] {rank : L → α} (h : Ascending rank holds awaits)
    (hx : Exclusive holds) {i j : ι} (hchain : Relation.TransGen (WaitsFor holds awaits) i j) :
    ∃ k l l',i≠k ∧ awaits i l ∧ holds k l ∧ holds j l' ∧ rank l ≤ rank l' := by
  induction hchain with
  | single hwait =>
    obtain ⟨hne,l,ha,hh⟩ := hwait
    exact ⟨_,l,l,hne,ha,hh,hh,le_refl _⟩
  | tail _ hwait ih =>
    obtain ⟨k,l,l',hne,ha,hk,hj,hle⟩ := ih
    obtain ⟨hne',m,hm,hlast⟩ := hwait
    have hlt : rank l' < rank m := h.lt hx hne' hm hlast hj
    exact ⟨k,l,m,hne,ha,hk,hlast,hle.trans hlt.le⟩

/-- Where locks are awaited in a fixed order, nobody waits for itself. -/
theorem Ascending.not_deadlocked [Preorder α] {rank : L → α} (h : Ascending rank holds awaits)
    (hx : Exclusive holds) : ¬Deadlocked holds awaits := by
  rintro ⟨i,hcycle⟩
  obtain ⟨k,l,l',hne,ha,hk,hi,hle⟩ := h.chain hx hcycle
  have hlt : rank l' < rank l := h.lt hx hne ha hk hi
  exact absurd (hle.trans_lt hlt) (lt_irrefl _)

end Cycles

end GenericMlCache.LockOrder
