import Mathlib.Data.List.Nodup
import Mathlib.Data.List.Forall2

/-!
# Insertion-ordered dictionaries

Entries in the order their keys were first set, each key once. A value is set in
place where its key is there. Beside them stands what groups of a list by a key
have in common with the list.
-/

namespace GenericMlCache.OrderedDict

variable {κ α β : Type} [DecidableEq κ]

/-- A dictionary in insertion order. -/
structure Dict (κ α : Type) where
  /-- Its items, oldest key first. -/
  items : List (κ × α)
  /-- No key occurs twice. -/
  keysUnique : (items.map Prod.fst).Nodup

/-- The empty dictionary. -/
def Dict.empty : Dict κ α := ⟨[],List.nodup_nil⟩

/-- The keys, in order. -/
def Dict.keys (d : Dict κ α) : List κ := d.items.map Prod.fst

/-- The first value under a key among items. -/
def find? (key : κ) : List (κ × α) → Option α
  | [] => none
  | item::items => if item.1=key then some item.2 else find? key items

/-- The value under a key. -/
def Dict.get? (d : Dict κ α) (key : κ) : Option α := find? key d.items

/-- The items with the value of one key replaced. -/
def replaced (key : κ) (value : α) (items : List (κ × α)) : List (κ × α) :=
  items.map fun item => if item.1=key then (item.1,value) else item

/-- A replacement leaves the keys. -/
@[simp] theorem map_fst_replaced (key : κ) (value : α) (items : List (κ × α)) :
    (replaced key value items).map Prod.fst=items.map Prod.fst := by
  rw [replaced,List.map_map]
  refine List.map_congr_left fun item _ => ?_
  dsimp only [Function.comp]
  split <;> rfl

/-- Set the value under a key: in place, or behind the others. -/
def Dict.set (d : Dict κ α) (key : κ) (value : α) : Dict κ α :=
  if h : key∈d.keys then
    { items := replaced key value d.items
      keysUnique := by
        rw [map_fst_replaced]
        exact d.keysUnique }
  else
    { items := d.items ++ [(key,value)]
      keysUnique := by
        rw [List.map_append]
        refine List.nodup_append.mpr ⟨d.keysUnique,List.nodup_singleton _,fun k hk k' hk' he => ?_⟩
        have hkey : k=key := he.trans (List.mem_singleton.mp hk')
        exact h (hkey ▸ hk) }

/-- Drop a key. -/
def Dict.pop (d : Dict κ α) (key : κ) : Dict κ α where
  items := d.items.filter fun item => !decide (item.1=key)
  keysUnique := List.filter_sublist.map _ |>.nodup d.keysUnique

/-- Nothing is found where the key does not occur. -/
theorem find?_eq_none {key : κ} {items : List (κ × α)} :
    find? key items=none ↔ key∉items.map Prod.fst := by
  induction items with
  | nil => simp [find?]
  | cons item items ih =>
    by_cases h : item.1=key
    · simp [find?,h]
    · simp [find?,h,ih,Ne.symm h]

/-- What is found is an item, and the only one of its key. -/
theorem find?_eq_some {key : κ} {value : α} {items : List (κ × α)} (hunique : (items.map Prod.fst).Nodup) :
    find? key items=some value ↔ (key,value)∈items := by
  induction items with
  | nil => simp [find?]
  | cons item items ih =>
    obtain ⟨hnew,hrest⟩ := List.nodup_cons.mp hunique
    by_cases hkey : item.1=key
    · subst hkey
      rw [find?,if_pos rfl,Option.some_inj]
      constructor
      · rintro rfl
        exact List.mem_cons_self
      · intro h
        rcases List.mem_cons.mp h with h | h
        · rw [← h]
        · exact absurd (List.mem_map_of_mem h) hnew
    · rw [find?,if_neg hkey,ih hrest]
      constructor
      · exact List.mem_cons_of_mem _
      · intro h
        rcases List.mem_cons.mp h with h | h
        · exact absurd (by rw [← h]) hkey
        · exact h

/-- A replaced value is found, and the others are as they were. -/
theorem find?_replaced (key key' : κ) (value : α) (items : List (κ × α)) :
    find? key' (replaced key value items)=
      if key'=key then (find? key items).map fun _ => value else find? key' items := by
  induction items with
  | nil => simp [replaced,find?]
  | cons item items ih =>
    rw [replaced,List.map_cons,← replaced]
    by_cases hkey : item.1=key
    · by_cases hsame : key'=key
      · simp [find?,hkey,hsame]
      · simp [find?,hkey,Ne.symm hsame,ih,hsame]
    · by_cases hsame : key'=key
      · subst hsame
        simp [find?,hkey,ih]
      · by_cases hhere : item.1=key'
        · simp [find?,hhere,hsame]
        · simp [find?,hkey,hhere,ih,hsame]

/-- Items behind the others are found last. -/
theorem find?_append (key : κ) (items more : List (κ × α)) :
    find? key (items ++ more)=(find? key items).or (find? key more) := by
  induction items with
  | nil => simp [find?]
  | cons item items ih =>
    by_cases h : item.1=key <;> simp [find?,h,ih]

/-- A dropped key is not found, and the others are. -/
theorem find?_filter (key key' : κ) (items : List (κ × α)) :
    find? key' (items.filter fun item => !decide (item.1=key))=
      if key'=key then none else find? key' items := by
  induction items with
  | nil => simp [find?]
  | cons item items ih =>
    by_cases hkey : item.1=key
    · rw [List.filter_cons_of_neg (by simp [hkey]),ih]
      by_cases hsame : key'=key
      · simp [hsame]
      · simp [find?,hkey,hsame,Ne.symm hsame]
    · rw [List.filter_cons_of_pos (by simp [hkey]),find?,ih]
      by_cases hsame : key'=key
      · simp [hsame,hkey]
      · simp [find?,hsame]

@[simp] theorem Dict.get?_empty (key : κ) : (Dict.empty : Dict κ α).get? key=none := rfl

/-- A key has a value exactly when it is among the keys. -/
theorem Dict.get?_eq_none {d : Dict κ α} {key : κ} : d.get? key=none ↔ key∉d.keys := find?_eq_none

/-- The items are the keys with their values. -/
theorem Dict.mem_items {d : Dict κ α} {key : κ} {value : α} :
    (key,value)∈d.items ↔ d.get? key=some value := (find?_eq_some d.keysUnique).symm

/-- A value is found under the key it was set to, and the other keys are as they were. -/
theorem Dict.get?_set (d : Dict κ α) (key key' : κ) (value : α) :
    (d.set key value).get? key'=if key'=key then some value else d.get? key' := by
  unfold set get?
  split
  next hmem =>
    dsimp only
    rw [find?_replaced]
    cases hfound : find? key d.items with
    | none => exact absurd hmem (find?_eq_none.mp hfound)
    | some old => rfl
  next hnew =>
    dsimp only
    rw [find?_append]
    by_cases hsame : key'=key
    · subst hsame
      rw [find?_eq_none.mpr hnew,if_pos rfl]
      simp [find?]
    · simp [find?,hsame,Ne.symm hsame]

/-- A dropped key has no value, and the others are as they were. -/
theorem Dict.get?_pop (d : Dict κ α) (key key' : κ) :
    (d.pop key).get? key'=if key'=key then none else d.get? key' := find?_filter key key' d.items

/-- A key that is set is behind the others, unless it is there. -/
theorem Dict.keys_set (d : Dict κ α) (key : κ) (value : α) :
    (d.set key value).keys=if key∈d.keys then d.keys else d.keys ++ [key] := by
  unfold Dict.set
  split
  · exact map_fst_replaced key value d.items
  · exact List.map_append

/-- The keys after a value is set. -/
theorem Dict.mem_keys_set {d : Dict κ α} {key key' : κ} {value : α} :
    key'∈(d.set key value).keys ↔ key'=key ∨ key'∈d.keys := by
  have h : ∀ d : Dict κ α,key'∈d.keys ↔ d.get? key'≠none := fun d => by
    rw [ne_eq,Dict.get?_eq_none,not_not]
  rw [h,h,Dict.get?_set]
  by_cases hsame : key'=key <;> simp [hsame]

/-- The keys after one is dropped. -/
theorem Dict.mem_keys_pop {d : Dict κ α} {key key' : κ} :
    key'∈(d.pop key).keys ↔ key'≠key ∧ key'∈d.keys := by
  have h : ∀ d : Dict κ α,key'∈d.keys ↔ d.get? key'≠none := fun d => by
    rw [ne_eq,Dict.get?_eq_none,not_not]
  rw [h,h,Dict.get?_pop]
  by_cases hsame : key'=key <;> simp [hsame]

/-- A list is its groups by a key, where every key that occurs has its group. -/
theorem perm_groups {key : α → κ} {keys : List κ} {l : List α} (hkeys : keys.Nodup)
    (hall : ∀ x∈l,key x∈keys) :
    (keys.flatMap fun k => l.filter fun x => decide (key x=k)).Perm l := by
  induction keys generalizing l with
  | nil =>
    cases l with
    | nil => exact .nil
    | cons x l => exact nomatch hall x List.mem_cons_self
  | cons k keys ih =>
    obtain ⟨hnew,hrest⟩ := List.nodup_cons.mp hkeys
    rw [List.flatMap_cons]
    have hothers : (keys.flatMap fun k' => l.filter fun x => decide (key x=k'))=
        keys.flatMap fun k' => (l.filter fun x => !decide (key x=k)).filter fun x => decide (key x=k') := by
      refine List.flatMap_congr fun k' hk' => ?_
      rw [List.filter_filter]
      refine List.filter_congr fun x _ => ?_
      by_cases hx : key x=k'
      · have hne : key x≠k := fun he => hnew (he ▸ hx ▸ hk')
        simp [hx,hx ▸ hne]
      · simp [hx]
    have hsplit := ih hrest (l := l.filter fun x => !decide (key x=k)) fun x hx => by
      obtain ⟨hmem,hne⟩ := List.mem_filter.mp hx
      rcases List.mem_cons.mp (hall x hmem) with he | hin
      · simp [he] at hne
      · exact hin
    rw [hothers]
    exact (hsplit.append_left _).trans (List.filter_append_perm (fun x => decide (key x=k)) l)

/-- Corresponding groups make corresponding lists. -/
theorem forall₂_flatMap {γ : Type} {R : α → β → Prop} {f : γ → List α} {g : γ → List β}
    {l : List γ} (h : ∀ x∈l,List.Forall₂ R (f x) (g x)) :
    List.Forall₂ R (l.flatMap f) (l.flatMap g) := by
  induction l with
  | nil => exact .nil
  | cons x l ih =>
    rw [List.flatMap_cons,List.flatMap_cons]
    exact List.rel_append (h x List.mem_cons_self) (ih fun y hy => h y (List.mem_cons_of_mem _ hy))

end GenericMlCache.OrderedDict
