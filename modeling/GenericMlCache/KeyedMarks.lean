import Mathlib.Data.List.Basic

/-!
# Marks addressed by key

Entries are added one by one under a first status, and a mark may follow each.
A mark reaches every entry of its key, the earlier ones too. What each entry
ends with is the last mark of its key from its own on, so it is its own mark
exactly where no later mark of the key says otherwise.
-/

namespace GenericMlCache.KeyedMarks

variable {κ ρ : Type} [DecidableEq κ]

/-- A mark: every entry of the key takes the status. -/
def markKey (key : κ) (status : ρ) (entries : List (κ × ρ)) : List (κ × ρ) :=
  entries.map fun entry => if entry.1=key then (entry.1,status) else entry

/-- An entry is added under the first status, and its mark follows if there is one. -/
def addMarked (first : ρ) (entries : List (κ × ρ)) (item : κ × Option ρ) : List (κ × ρ) :=
  match item.2 with
  | none => entries ++ [(item.1,first)]
  | some status => markKey item.1 status (entries ++ [(item.1,first)])

/-- What later items make of an entry's status. -/
def settled (key : κ) (status : ρ) (later : List (κ × Option ρ)) : ρ :=
  later.foldl (fun s item => if item.1=key then item.2.getD s else s) status

/-- The entries that the items leave of themselves. -/
def settledItems (first : ρ) : List (κ × Option ρ) → List (κ × ρ)
  | [] => []
  | item::later => (item.1,settled item.1 (item.2.getD first) later)::settledItems first later

/-- The items change the entries before them, and leave their own. -/
theorem foldl_addMarked (first : ρ) (items : List (κ × Option ρ)) (entries : List (κ × ρ)) :
    items.foldl (addMarked first) entries=
      entries.map (fun entry => (entry.1,settled entry.1 entry.2 items)) ++ settledItems first items := by
  induction items generalizing entries with
  | nil => simp [settled,settledItems]
  | cons item later ih =>
    rw [List.foldl_cons,ih]
    obtain ⟨key,mark⟩ := item
    cases mark with
    | none => simp [addMarked,settled,settledItems]
    | some status =>
      have hentry : ∀ entry : κ × ρ,
          (fun entry : κ × ρ => (entry.1,settled entry.1 entry.2 later))
            (if entry.1=key then (entry.1,status) else entry)=
          (entry.1,settled entry.1 entry.2 ((key,some status)::later)) := by
        intro entry
        by_cases h : entry.1=key
        · simp [settled,h]
        · have hne : ¬key=entry.1 := fun heq => h heq.symm
          simp [settled,h,hne]
      have hown : markKey key status [(key,first)]=[(key,status)] := by simp [markKey]
      have hadd : addMarked first entries (key,some status)=markKey key status entries ++ [(key,status)] := by
        rw [← hown]
        exact List.map_append
      rw [hadd,List.map_append,List.append_assoc]
      refine congrArg₂ (· ++ ·) ?_ rfl
      unfold markKey
      rw [List.map_map]
      exact List.map_congr_left fun entry _ => hentry entry

/-- The later item's mark, if it has the earlier one's key, is the earlier one's own. -/
def Agree (earlier later : κ × Option ρ) : Prop :=
  earlier.1=later.1 → ∀ status,later.2=some status → earlier.2=some status

omit [DecidableEq κ] in
/-- Items that agree have one mark for each key, which is then the last one. -/
theorem Agree.mark_eq {items : List (κ × Option ρ)} (h : items.Pairwise Agree) {item last : κ × Option ρ}
    {status status' : ρ} (hitem : item∈items) (hlast : last∈items) (hkey : item.1=last.1)
    (hmark : item.2=some status) (hmark' : last.2=some status') : status=status' := by
  induction items with
  | nil => exact nomatch hitem
  | cons first later ih =>
    obtain ⟨hfirst,hlater⟩ := List.pairwise_cons.mp h
    rcases List.mem_cons.mp hitem with rfl | hitem'
    · rcases List.mem_cons.mp hlast with rfl | hlast'
      · exact Option.some.inj (hmark.symm.trans hmark')
      · exact Option.some.inj (hmark.symm.trans (hfirst last hlast' hkey status' hmark'))
    · rcases List.mem_cons.mp hlast with rfl | hlast'
      · exact Option.some.inj ((hfirst item hitem' hkey.symm status hmark).symm.trans hmark')
      · exact ih hlater hitem' hlast'

/-- Where every later mark of the key is one status, an entry that has it or is marked so ends with it. -/
theorem settled_eq {key : κ} {before status : ρ} {later : List (κ × Option ρ)}
    (h : ∀ item∈later,item.1=key → ∀ s,item.2=some s → s=status)
    (hany : before=status ∨ ∃ item∈later,item.1=key ∧ item.2=some status) : settled key before later=status := by
  induction later generalizing before with
  | nil =>
    rcases hany with hbefore | ⟨item,hitem,_⟩
    · exact hbefore
    · exact nomatch hitem
  | cons item later ih =>
    have hrest : ∀ other∈later,other.1=key → ∀ s,other.2=some s → s=status :=
      fun other hmem => h other (List.mem_cons_of_mem _ hmem)
    show settled key (if item.1=key then item.2.getD before else before) later=status
    refine ih hrest ?_
    by_cases hkey : item.1=key
    · rw [if_pos hkey]
      cases hmark : item.2 with
      | some s => exact Or.inl (h item List.mem_cons_self hkey s hmark)
      | none =>
        rcases hany with hbefore | ⟨other,hother,hkey',hmark'⟩
        · exact Or.inl hbefore
        · rcases List.mem_cons.mp hother with rfl | hother'
          · rw [hmark] at hmark'
            exact nomatch hmark'
          · exact Or.inr ⟨other,hother',hkey',hmark'⟩
    · rw [if_neg hkey]
      rcases hany with hbefore | ⟨other,hother,hkey',hmark'⟩
      · exact Or.inl hbefore
      · rcases List.mem_cons.mp hother with rfl | hother'
        · exact absurd hkey' hkey
        · exact Or.inr ⟨other,hother',hkey',hmark'⟩

/-- Every item ends with its own mark, or the first status without one, exactly where the items agree. -/
theorem settledItems_eq_iff {first : ρ} {items : List (κ × Option ρ)} (hfirst : ∀ item∈items,item.2≠some first) :
    (settledItems first items).map (·.2)=items.map (fun item => item.2.getD first) ↔ items.Pairwise Agree := by
  induction items with
  | nil => simp [settledItems]
  | cons item later ih =>
    have htail := ih fun item' hmem => hfirst item' (List.mem_cons_of_mem _ hmem)
    rw [settledItems,List.map_cons,List.map_cons,List.cons.injEq,List.pairwise_cons,htail]
    refine and_congr_left fun hlater => ?_
    constructor
    · intro hown item' hmem hkey status hmark
      have hmarks : ∀ other∈later,other.1=item.1 → ∀ s,other.2=some s → s=status :=
        fun other hother hkey' s hs =>
          Agree.mark_eq hlater hother hmem (hkey'.trans hkey) hs hmark
      have hlast : settled item.1 (item.2.getD first) later=status :=
        settled_eq hmarks (Or.inr ⟨item',hmem,hkey.symm,hmark⟩)
      have hsame : item.2.getD first=status := hown.symm.trans hlast
      cases hitem : item.2 with
      | none =>
        rw [hitem] at hsame
        have hmem' := List.mem_cons_of_mem item hmem
        exact absurd (hmark.trans (congrArg some hsame.symm)) (hfirst item' hmem')
      | some s =>
        rw [hitem] at hsame
        exact congrArg some hsame
    · intro hagree
      have hmarks : ∀ other∈later,other.1=item.1 → ∀ s,other.2=some s → s=item.2.getD first := by
        intro other hother hkey s hs
        rw [hagree other hother hkey.symm s hs]
        rfl
      exact settled_eq hmarks (Or.inl rfl)

end GenericMlCache.KeyedMarks
