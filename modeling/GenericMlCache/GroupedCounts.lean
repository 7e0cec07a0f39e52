import Mathlib.Data.List.Induction
import Mathlib.Data.List.Sort
import Mathlib.Algebra.BigOperators.Group.List.Basic
import Mathlib.Algebra.Ring.Nat
import Mathlib.Algebra.Ring.Int.Defs

/-!
# Grouped counts

A dictionary of counters in insertion order, updated item by item with a
default for a new key. What the loop leaves is known in closed form: the keys
in order of first appearance, each with the updates of its own items.
-/

namespace GenericMlCache.GroupedCounts

variable {ι κ β : Type} [DecidableEq κ]

/-- `setdefault(key,zero)`, then an update in place. -/
def bump (zero : β) (key : κ) (f : β → β) : List (κ × β) → List (κ × β)
  | [] => [(key,f zero)]
  | entry::rest =>
    if entry.1=key then (entry.1,f entry.2)::rest else entry::bump zero key f rest

/-- The dictionary after a loop over the items. -/
def tally (zero : β) (key : ι → κ) (f : ι → β → β) (items : List ι) : List (κ × β) :=
  items.foldl (fun d item => bump zero (key item) (f item) d) []

/-- The keys of the items, in order of first appearance. -/
def groupKeys (key : ι → κ) (items : List ι) : List κ := (items.map key).eraseDups

/-- Every item's key, and no other, is a group's. -/
theorem mem_groupKeys {key : ι → κ} {items : List ι} {k : κ} :
    k∈groupKeys key items ↔ ∃ item∈items,key item=k := by
  rw [groupKeys,List.mem_eraseDups,List.mem_map]

/-- What the items of one key make of its counter. -/
def groupOf (zero : β) (key : ι → κ) (f : ι → β → β) (items : List ι) (k : κ) : β :=
  (items.filter fun item => decide (key item=k)).foldl (fun b item => f item b) zero

/-- A bump of a tabulated dictionary changes its key's entry, or adds it. -/
theorem bump_map (zero : β) (key : κ) (f : β → β) (v : κ → β) (keys : List κ)
    (hnew : key∉keys → v key=zero) (hnodup : keys.Nodup) :
    bump zero key f (keys.map fun k => (k,v k))=
      (if key∈keys then keys else keys ++ [key]).map
        fun k => (k,if k=key then f (v k) else v k) := by
  induction keys with
  | nil =>
    have hv := hnew List.not_mem_nil
    simp [bump,hv]
  | cons k keys ih =>
    obtain ⟨hk,hrest⟩ := List.nodup_cons.mp hnodup
    by_cases h : k=key
    · subst h
      have hsame : keys.map (fun k' => (k',v k'))=
          keys.map fun k' => (k',if k'=k then f (v k') else v k') := by
        refine List.map_congr_left fun k' hk' => ?_
        have hne : k'≠k := fun he => hk (by rw [← he]; exact hk')
        rw [if_neg hne]
      simp only [List.map_cons,bump,if_true,List.mem_cons_self,hsame]
    · have hne : key≠k := fun he => h he.symm
      have hnew' : key∉keys → v key=zero := fun hn => hnew (by simp [hne,hn])
      have htail := ih hnew' hrest
      simp only [List.map_cons,bump,if_neg h,htail]
      by_cases hmem : key∈keys
      · simp [hmem,h]
      · simp [hmem,hne,h]

/-- The keys of a longer loop: the last item's key is new or not. -/
theorem eraseDups_concat (keys : List κ) (key : κ) :
    (keys ++ [key]).eraseDups=
      if key∈keys.eraseDups then keys.eraseDups else keys.eraseDups ++ [key] := by
  rw [List.eraseDups_append]
  by_cases h : key∈keys
  · simp [h,List.removeAll]
  · simp [h,List.removeAll,List.eraseDups_cons]

/-- Every key once. -/
theorem nodup_eraseDups (keys : List κ) : keys.eraseDups.Nodup := by
  induction keys using List.reverseRecOn with
  | nil => exact List.nodup_nil
  | append_singleton keys key ih =>
    rw [eraseDups_concat]
    split
    · exact ih
    next h =>
      rw [List.nodup_append]
      refine ⟨ih,List.nodup_singleton key,fun k hk k' hk' he => h ?_⟩
      rw [List.mem_singleton] at hk'
      rw [← hk',← he]
      exact hk

/-- The counter of a key that no item has. -/
theorem groupOf_absent (zero : β) (key : ι → κ) (f : ι → β → β) {items : List ι} {k : κ}
    (h : k∉items.map key) : groupOf zero key f items k=zero := by
  have hnone : items.filter (fun item => decide (key item=k))=[] := by
    rw [List.filter_eq_nil_iff]
    intro item hitem hk
    exact h (List.mem_map.mpr ⟨item,hitem,by simpa using hk⟩)
  rw [groupOf,hnone]
  rfl

/-- One item more updates the counter of its own key. -/
theorem groupOf_concat (zero : β) (key : ι → κ) (f : ι → β → β) (items : List ι) (item : ι) (k : κ) :
    groupOf zero key f (items ++ [item]) k=
      if k=key item then f item (groupOf zero key f items k) else groupOf zero key f items k := by
  unfold groupOf
  rw [List.filter_append,List.foldl_append]
  by_cases h : key item=k
  · simp [h]
  · have hne : ¬ k=key item := fun he => h he.symm
    simp [h,hne]

/-- The loop in closed form. -/
theorem tally_eq (zero : β) (key : ι → κ) (f : ι → β → β) (items : List ι) :
    tally zero key f items=
      (groupKeys key items).map fun k => (k,groupOf zero key f items k) := by
  unfold groupKeys
  induction items using List.reverseRecOn with
  | nil => rfl
  | append_singleton items item ih =>
    have hstep : tally zero key f (items ++ [item])=
        bump zero (key item) (f item) (tally zero key f items) := by
      simp [tally,List.foldl_append]
    have hnew : key item∉(items.map key).eraseDups → groupOf zero key f items (key item)=zero := by
      intro hn
      refine groupOf_absent zero key f fun hmem => hn ?_
      exact List.mem_eraseDups.mpr hmem
    rw [hstep,ih,bump_map zero _ _ _ _ hnew (nodup_eraseDups _)]
    rw [List.map_append,List.map_singleton,eraseDups_concat]
    refine List.map_congr_left fun k _ => ?_
    rw [groupOf_concat]

omit [DecidableEq κ] in
/-- Sorting two tabulations of the same keys gives the same list exactly where
they agree on every key. -/
theorem sort_map_eq_iff {γ : Type} (r : κ → κ → Prop) [DecidableRel r] (keys : List κ) (v v' : κ → γ) :
    (keys.map fun k => (k,v k)).insertionSort (fun a b => r a.1 b.1)=
        (keys.map fun k => (k,v' k)).insertionSort (fun a b => r a.1 b.1) ↔
      ∀ k∈keys,v k=v' k := by
  constructor
  · intro h k hk
    have hmem : (k,v k)∈keys.map fun k => (k,v' k) := by
      rw [← List.mem_insertionSort fun a b : κ × γ => r a.1 b.1,← h,List.mem_insertionSort]
      exact List.mem_map.mpr ⟨k,hk,rfl⟩
    obtain ⟨k',_,heq⟩ := List.mem_map.mp hmem
    obtain ⟨rfl,hv⟩ := Prod.mk.inj heq
    exact hv.symm
  · intro h
    rw [List.map_congr_left fun k hk => by rw [h k hk]]

/-- What a loop of additions adds to one component is the sum of what each
item adds to it. -/
theorem foldl_component {α : Type} [AddMonoid α] (f : ι → β → β) (component : β → α) (added : ι → α)
    (h : ∀ item b,component (f item b)=component b+added item) (items : List ι) (b : β) :
    component (items.foldl (fun b item => f item b) b)=component b+(items.map added).sum := by
  induction items generalizing b with
  | nil => simp
  | cons item items ih => rw [List.foldl_cons,ih,h,List.map_cons,List.sum_cons,add_assoc]

/-- A sum over the items of a kind, as a sum over all of them. -/
theorem sum_filter_map {α : Type} [AddMonoid α] (p : ι → Bool) (f : ι → α) (items : List ι) :
    ((items.filter p).map f).sum=(items.map fun item => if p item=true then f item else 0).sum := by
  induction items with
  | nil => rfl
  | cons item items ih =>
    by_cases h : p item=true
    · simp [h,ih]
    · simp [h,ih]

/-- Counting the items of a kind, as a sum over all of them. -/
theorem countP_eq_sum (p : ι → Bool) (items : List ι) :
    (items.countP p : ℤ)=(items.map fun item => if p item=true then (1 : ℤ) else 0).sum := by
  induction items with
  | nil => rfl
  | cons item items ih =>
    by_cases h : p item=true
    · simp [h,ih,add_comm]
    · simp [h,ih]

/-- Counting fewer items counts the same exactly where none was lost. -/
theorem countP_eq_iff {p q : ι → Bool} {items : List ι} (h : ∀ item∈items,p item=true → q item=true) :
    items.countP p=items.countP q ↔ ∀ item∈items,q item=true → p item=true := by
  induction items with
  | nil => simp
  | cons item items ih =>
    have hrest : ∀ item'∈items,p item'=true → q item'=true :=
      fun item' hmem => h item' (List.mem_cons_of_mem _ hmem)
    have hle : items.countP p ≤ items.countP q := List.countP_mono_left hrest
    have htail := ih hrest
    by_cases hp : p item=true
    · have hq := h item List.mem_cons_self hp
      simp [hp,hq,htail]
    · by_cases hq : q item=true
      · have hne : ¬ items.countP p=items.countP q+1 := by omega
        simp [hp,hq,hne]
      · simp [hp,hq,htail]

/-- The groups do not depend on the order of the items. -/
theorem groupKeys_perm {key : ι → κ} {items items' : List ι} (h : items.Perm items') :
    (groupKeys key items).Perm (groupKeys key items') := by
  refine (List.perm_ext_iff_of_nodup (nodup_eraseDups _) (nodup_eraseDups _)).mpr fun k => ?_
  show k∈groupKeys key items ↔ k∈groupKeys key items'
  rw [mem_groupKeys,mem_groupKeys]
  exact ⟨fun ⟨item,hmem,hk⟩ => ⟨item,h.mem_iff.mp hmem,hk⟩,fun ⟨item,hmem,hk⟩ => ⟨item,h.mem_iff.mpr hmem,hk⟩⟩

/-- The groups of a concatenation are the groups of its parts. -/
theorem groupKeys_append (key : ι → κ) (items items' : List ι) :
    (groupKeys key (items ++ items')).Perm (groupKeys key items ++ groupKeys key items').eraseDups := by
  refine (List.perm_ext_iff_of_nodup (nodup_eraseDups _) (nodup_eraseDups _)).mpr fun k => ?_
  show k∈groupKeys key (items ++ items') ↔ _
  rw [List.mem_eraseDups,List.mem_append,mem_groupKeys,mem_groupKeys,mem_groupKeys]
  simp only [List.mem_append,or_and_right,exists_or]

/-- The sums over the groups of a list add up to the sum over the list. -/
theorem sum_over_groups {α : Type} [AddCommMonoid α] (key : ι → κ) (f : ι → α) {keys : List κ} (hnodup : keys.Nodup)
    {items : List ι} (h : ∀ item∈items,key item∈keys) :
    (keys.map fun k => ((items.filter fun item => decide (key item=k)).map f).sum).sum=(items.map f).sum := by
  induction items with
  | nil => simp
  | cons item items ih =>
    have hrest := ih fun item' hmem => h item' (List.mem_cons_of_mem _ hmem)
    have hkey := h item List.mem_cons_self
    have hsplit : ∀ k,(((item::items).filter fun item => decide (key item=k)).map f).sum=
        (if k=key item then f item else 0)+((items.filter fun item => decide (key item=k)).map f).sum := by
      intro k
      by_cases hk : key item=k
      · simp [hk]
      · have hne : ¬k=key item := fun heq => hk heq.symm
        simp [hk,hne]
    have hone : (keys.map fun k => if k=key item then f item else 0).sum=f item := by
      clear hrest hsplit ih h
      induction keys with
      | nil => exact nomatch hkey
      | cons k keys ih =>
        obtain ⟨hk,hnodup⟩ := List.nodup_cons.mp hnodup
        rw [List.map_cons,List.sum_cons]
        by_cases heq : k=key item
        · have hzero : (keys.map fun k => if k=key item then f item else 0)=keys.map fun _ => 0 := by
            refine List.map_congr_left fun k' hk' => if_neg fun heq' => hk ?_
            rw [heq,← heq']
            exact hk'
          rw [if_pos heq,hzero]
          simp
        · rw [if_neg heq,zero_add]
          refine ih hnodup ?_
          exact (List.mem_cons.mp hkey).resolve_left fun he => heq he.symm
    simp only [hsplit]
    rw [List.sum_map_add,hone,hrest,List.map_cons,List.sum_cons]

section Sorting
variable {γ : Type} (r : κ → κ → Prop) [DecidableRel r]

omit [DecidableEq κ] in
/-- Sorting a tabulation sorts its keys. -/
theorem sort_tabulated (keys : List κ) (v : κ → γ) :
    (keys.map fun k => (k,v k)).insertionSort (fun a b => r a.1 b.1)=
      (keys.insertionSort r).map fun k => (k,v k) :=
  (List.map_insertionSort r _ (fun k => (k,v k)) keys fun _ _ _ _ => Iff.rfl).symm

variable [Std.Total r] [IsTrans κ r] [Std.Antisymm r]

omit [DecidableEq κ] in
/-- Sorting does not depend on the order of the keys. -/
theorem sort_perm {keys keys' : List κ} (h : keys.Perm keys') : keys.insertionSort r=keys'.insertionSort r := by
  refine List.Perm.eq_of_pairwise' (List.pairwise_insertionSort r _) (List.pairwise_insertionSort r _) ?_
  exact (List.perm_insertionSort r keys).trans (h.trans (List.perm_insertionSort r keys').symm)

end Sorting

section Ends
variable (r : κ → κ → Prop)

/-- The member that comes first in the order, if there is one. -/
def IsFirst (keys : List κ) : Option κ → Prop
  | none => keys=[]
  | some m => m∈keys ∧ ∀ k∈keys,r m k

/-- That of two which comes first in the order, if there is one. -/
def pick [DecidableRel r] : Option κ → Option κ → Option κ
  | some a,some b => if r a b then some a else some b
  | a,none => a
  | none,b => b

omit [DecidableEq κ] in
/-- There is one first member. -/
theorem isFirst_unique [Std.Antisymm r] {keys : List κ} {o o' : Option κ} (h : IsFirst r keys o) (h' : IsFirst r keys o') :
    o=o' := by
  cases o with
  | none =>
    cases o' with
    | none => rfl
    | some m =>
      have hempty : keys=[] := h
      rw [hempty] at h'
      exact nomatch h'.1
  | some m =>
    cases o' with
    | none =>
      have hempty : keys=[] := h'
      rw [hempty] at h
      exact nomatch h.1
    | some m' => rw [Std.Antisymm.antisymm m m' (h.2 m' h'.1) (h'.2 m h.1)]

omit [DecidableEq κ] in
/-- The first member of two lists is the first of their first ones. -/
theorem isFirst_pick [DecidableRel r] [Std.Total r] [IsTrans κ r] {keys keys' all : List κ} {o o' : Option κ}
    (h : IsFirst r keys o) (h' : IsFirst r keys' o') (hall : ∀ k,k∈all ↔ k∈keys ∨ k∈keys') :
    IsFirst r all (pick r o o') := by
  cases o with
  | none =>
    have hempty : keys=[] := h
    have hsame : ∀ k,k∈all ↔ k∈keys' := by simpa [hempty] using hall
    cases o' with
    | none =>
      have hempty' : keys'=[] := h'
      exact List.eq_nil_iff_forall_not_mem.mpr fun k hk => by simpa [hempty'] using (hsame k).mp hk
    | some m' => exact ⟨(hsame m').mpr h'.1,fun k hk => h'.2 k ((hsame k).mp hk)⟩
  | some m =>
    cases o' with
    | none =>
      have hempty' : keys'=[] := h'
      have hsame : ∀ k,k∈all ↔ k∈keys := by simpa [hempty'] using hall
      exact ⟨(hsame m).mpr h.1,fun k hk => h.2 k ((hsame k).mp hk)⟩
    | some m' =>
      show IsFirst r all (if r m m' then some m else some m')
      by_cases hr : r m m'
      · rw [if_pos hr]
        refine ⟨(hall m).mpr (Or.inl h.1),fun k hk => ?_⟩
        rcases (hall k).mp hk with hk | hk
        · exact h.2 k hk
        · exact IsTrans.trans m m' k hr (h'.2 k hk)
      · rw [if_neg hr]
        have hr' : r m' m := (Std.Total.total m m').resolve_left hr
        refine ⟨(hall m').mpr (Or.inr h'.1),fun k hk => ?_⟩
        rcases (hall k).mp hk with hk | hk
        · exact IsTrans.trans m' m k hr' (h.2 k hk)
        · exact h'.2 k hk

omit [DecidableEq κ] in
/-- A sorted list begins with the first member. -/
theorem isFirst_head [DecidableRel r] [Std.Total r] [IsTrans κ r] (keys : List κ) :
    IsFirst r keys (keys.insertionSort r).head? := by
  have hsorted := List.pairwise_insertionSort r keys
  have hmem : ∀ k,k∈keys.insertionSort r ↔ k∈keys := fun k => List.mem_insertionSort r
  cases hkeys : keys.insertionSort r with
  | nil =>
    rw [hkeys] at hmem
    exact List.eq_nil_iff_forall_not_mem.mpr fun k hk => nomatch (hmem k).mpr hk
  | cons m rest =>
    rw [hkeys] at hsorted hmem
    refine ⟨(hmem m).mp List.mem_cons_self,fun k hk => ?_⟩
    rcases List.mem_cons.mp ((hmem k).mpr hk) with rfl | hk
    · exact (Std.Total.total k k).elim (fun h => h) fun h => h
    · exact (List.pairwise_cons.mp hsorted).1 k hk

omit [DecidableEq κ] in
/-- A sorted list ends with the first member of the opposite order. -/
theorem isFirst_last [DecidableRel r] [Std.Total r] [IsTrans κ r] (keys : List κ) :
    IsFirst (fun a b => r b a) keys (keys.insertionSort r).getLast? := by
  have hsorted := List.pairwise_insertionSort r keys
  have hmem : ∀ k,k∈keys.insertionSort r ↔ k∈keys := fun k => List.mem_insertionSort r
  rcases List.eq_nil_or_concat (keys.insertionSort r) with hkeys | ⟨rest,m,hkeys⟩
  · rw [hkeys] at hmem ⊢
    exact List.eq_nil_iff_forall_not_mem.mpr fun k hk => nomatch (hmem k).mpr hk
  · rw [hkeys,List.concat_eq_append] at hsorted hmem ⊢
    rw [List.getLast?_concat]
    refine ⟨(hmem m).mp (by simp),fun k hk => ?_⟩
    rcases List.mem_append.mp ((hmem k).mpr hk) with hk | hk
    · exact (List.pairwise_append.mp hsorted).2.2 k hk m (List.mem_singleton.mpr rfl)
    · rw [List.mem_singleton.mp hk]
      exact (Std.Total.total m m).elim (fun h => h) fun h => h

end Ends

section Tables
variable {β : Type} [AddCommMonoid β] (r : κ → κ → Prop) [DecidableRel r]

/-- What the items of one group add up to. -/
def groupSum (key : ι → κ) (added : ι → β) (items : List ι) (k : κ) : β :=
  ((items.filter fun item => decide (key item=k)).map added).sum

/-- The groups in order, each with what its items add up to. -/
def table (key : ι → κ) (added : ι → β) (items : List ι) : List (κ × β) :=
  ((groupKeys key items).insertionSort r).map fun k => (k,groupSum key added items k)

/-- The sum at a key of a table, nothing for a key that it does not have. -/
def sumAt (entries : List (κ × β)) (k : κ) : β :=
  ((entries.find? fun entry => decide (entry.1=k)).map (·.2)).getD 0

/-- The keys of two tables in order, each with the sum of what they have there. -/
def mergeTables (entries entries' : List (κ × β)) : List (κ × β) :=
  ((entries ++ entries').map (·.1)).eraseDups.insertionSort r |>.map fun k => (k,sumAt entries k+sumAt entries' k)

/-- A sorted dictionary of counters that only ever add up is a table. -/
theorem sort_tally (key : ι → κ) {f : ι → β → β} {added : ι → β} (hf : ∀ item b,f item b=b+added item) (items : List ι) :
    (tally 0 key f items).insertionSort (fun a b => r a.1 b.1)=table r key added items := by
  rw [tally_eq,sort_tabulated]
  refine List.map_congr_left fun k _ => ?_
  have hsum : groupOf 0 key f items k=0+groupSum key added items k :=
    foldl_component f id added hf (items.filter fun item => decide (key item=k)) 0
  rw [hsum,zero_add]

/-- A table has its groups' sums, and nothing elsewhere. -/
theorem sumAt_table (key : ι → κ) (added : ι → β) (items : List ι) (k : κ) :
    sumAt (table r key added items) k=groupSum key added items k := by
  have hfind : ∀ keys : List κ,(k∉keys → groupSum key added items k=0) →
      sumAt (keys.map fun k => (k,groupSum key added items k)) k=groupSum key added items k := by
    intro keys hnot
    induction keys with
    | nil => exact (hnot List.not_mem_nil).symm
    | cons k' keys ih =>
      by_cases hk : k'=k
      · simp [sumAt,hk]
      · have hne : ¬k=k' := fun heq => hk heq.symm
        have hrest := ih fun hmem => hnot (by simp [hne,hmem])
        rw [List.map_cons,← hrest]
        simp [sumAt,hk]
  refine hfind _ fun hk => ?_
  have hnone : items.filter (fun item => decide (key item=k))=[] := by
    rw [List.filter_eq_nil_iff]
    intro item hitem heq
    refine hk ((List.mem_insertionSort r).mpr (mem_groupKeys.mpr ⟨item,hitem,?_⟩))
    simpa using heq
  rw [groupSum,hnone]
  rfl

/-- A component of a table's sums adds up to what the items add to it. -/
theorem sum_table {α : Type} [AddCommMonoid α] (key : ι → κ) (added : ι → β) (component : β →+ α) (items : List ι) :
    ((table r key added items).map fun entry => component entry.2).sum=(items.map fun item => component (added item)).sum := by
  have hperm := List.perm_insertionSort r (groupKeys key items)
  have hnodup : ((groupKeys key items).insertionSort r).Nodup := hperm.nodup_iff.mpr (nodup_eraseDups _)
  have hmem : ∀ item∈items,key item∈(groupKeys key items).insertionSort r :=
    fun item hitem => hperm.mem_iff.mpr (mem_groupKeys.mpr ⟨item,hitem,rfl⟩)
  rw [← sum_over_groups key (fun item => component (added item)) hnodup hmem]
  unfold table
  rw [List.map_map]
  refine congrArg List.sum (List.map_congr_left fun k _ => ?_)
  show component (groupSum key added items k)=_
  unfold groupSum
  rw [map_list_sum,List.map_map]
  rfl

variable [Std.Total r] [IsTrans κ r] [Std.Antisymm r]

/-- A table does not depend on the order of the items. -/
theorem table_perm (key : ι → κ) (added : ι → β) {items items' : List ι} (h : items.Perm items') :
    table r key added items=table r key added items' := by
  unfold table
  rw [sort_perm r (groupKeys_perm h)]
  refine List.map_congr_left fun k _ => ?_
  exact congrArg (Prod.mk k) ((h.filter _).map added).sum_eq

/-- The table of a concatenation is the sum of the tables of its parts. -/
theorem table_append (key : ι → κ) (added : ι → β) (items items' : List ι) :
    table r key added (items ++ items')=mergeTables r (table r key added items) (table r key added items') := by
  have hkeys : ∀ items : List ι,(table r key added items).map (·.1)=(groupKeys key items).insertionSort r := by
    intro items
    unfold table
    rw [List.map_map]
    exact List.map_id _
  have hperm : (groupKeys key (items ++ items')).Perm
      ((table r key added items ++ table r key added items').map (·.1)).eraseDups := by
    refine (groupKeys_append key items items').trans ?_
    refine (List.perm_ext_iff_of_nodup (nodup_eraseDups _) (nodup_eraseDups _)).mpr fun k => ?_
    rw [List.mem_eraseDups,List.mem_eraseDups,List.map_append,hkeys,hkeys,List.mem_append,List.mem_append,
      List.mem_insertionSort,List.mem_insertionSort]
  unfold mergeTables
  rw [table,sort_perm r hperm]
  refine List.map_congr_left fun k _ => ?_
  rw [sumAt_table,sumAt_table]
  unfold groupSum
  rw [List.filter_append,List.map_append,List.sum_append]

end Tables

end GenericMlCache.GroupedCounts
