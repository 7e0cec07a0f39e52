import GenericMlCache.Currency

/-!
# Finalizing a run more than once

The recorder, its retry and a repair pass may each finalize the same run. A
finalize supersedes whatever is current for the key before it promotes its own
row, and it takes its own row not to be current yet. So the first one promotes
the row, and every later one supersedes what the first one promoted.
-/

namespace GenericMlCache.FinalizedRuns

open PythonText ExecutionModel SqliteStore ExecutionRepository Currency

/-- A success with every artifact stored, which a finalize accepts. -/
structure Finalizable (row : ExecutionRow) : Prop where
  /-- It is a success. -/
  success : row.state=.value .success
  /-- Every artifact of it is stored. -/
  stored : ∀ a∈row.artifacts,a.status=.value .stored

/-- What a finalize makes of its own row: superseded if it was current, then promoted. -/
def finalizedColumns (now : Timestamp) (c : MutableColumns) : MutableColumns :=
  { c with
    supersededAt := if c.servable=true then some (.value now) else c.supersededAt
    outputPersisted := true }

/-- The row can be finalized once more. -/
theorem Finalizable.again {row : ExecutionRow} (h : Finalizable row) (now : Timestamp) :
    Finalizable (row.update (finalizedColumns now)) :=
  ⟨h.success,h.stored⟩

/-- A finalize of a row changes the rows of its key only, and leaves none current but perhaps its own. -/
structure Finalized (row : ExecutionRow) (db db' : Db) : Prop where
  /-- No other row of the key is current. -/
  alone : ∀ r∈db'.executions,isCurrent row.executionKey r=true → r.executionId=row.executionId
  /-- The rows of the other keys are as they were. -/
  others : ∀ key,key≠row.executionKey → db'.executions.filter (hasKey key)=db.executions.filter (hasKey key)
  /-- So are the identities. -/
  identities : db'.callIdentities=db.callIdentities

section Step
variable {db : Db} {row : ExecutionRow}

/-- A finalize succeeds, and says what it left of its own row and of the others. -/
theorem finalize_step (hmem : row∈db.executions) (h : Finalizable row) (now : Timestamp) :
    ∃ db',finalizeOutputPersisted row.executionId now db=.ok db' ∧
      row.update (finalizedColumns now)∈db'.executions ∧ Finalized row db db' := by
  have hrun := finalizeOutputPersisted_of now hmem rfl h.stored
  rw [if_pos h.success] at hrun
  refine ⟨_,hrun,?_,?_,?_,rfl⟩
  · have hsup : (if isCurrent row.executionKey row=true then
        row.update (fun c => { c with supersededAt := some (.value now) }) else row)∈
          (supersedePriorCurrent db row.executionKey now).executions :=
      Db.mem_updateWhere.mpr ⟨row,hmem,rfl⟩
    by_cases hs : row.servable=true
    · rw [if_pos (by simpa using hs)] at hsup
      have hpromoted := Db.mem_updateWhere_of (p := hasId row.executionId)
        (f := fun c => { c with outputPersisted := true }) hsup (by simp)
      have hrow : row.update (finalizedColumns now)=
          (row.update fun c => { c with supersededAt := some (.value now) }).update
            fun c => { c with outputPersisted := true } := by
        simp [ExecutionRow.update,finalizedColumns,hs]
      rw [hrow]
      exact hpromoted
    · rw [if_neg (by simpa using hs)] at hsup
      have hpromoted := Db.mem_updateWhere_of (p := hasId row.executionId)
        (f := fun c => { c with outputPersisted := true }) hsup (by simp)
      have hrow : row.update (finalizedColumns now)=
          row.update fun c => { c with outputPersisted := true } := by
        simp [ExecutionRow.update,finalizedColumns,hs]
      rw [hrow]
      exact hpromoted
  · intro r hr hcurrent
    obtain ⟨r',hr',rfl⟩ := Db.mem_updateWhere.mp hr
    by_cases hid : hasId row.executionId r'=true
    · rw [if_pos hid]
      simpa using hid
    · rw [if_neg hid] at hcurrent
      obtain ⟨hkey,hs⟩ := (isCurrent_iff _ _).mp hcurrent
      rw [not_servable_of_superseded hr' hkey] at hs
      exact absurd hs (by simp)
  · intro key hkey
    have hpromote : ∀ r∈(supersedePriorCurrent db row.executionKey now).executions,
        hasId row.executionId r=true → r.executionKey≠key := by
      intro r hr hid
      obtain ⟨r',hr',rfl⟩ := Db.mem_updateWhere.mp hr
      have hsame : r'.executionId=row.executionId := by
        split at hid <;> simpa using hid
      have hrow : r'=row := db.row_unique hr' hmem hsame
      split
      · simpa [hrow] using fun heq => hkey heq.symm
      · simpa [hrow] using fun heq => hkey heq.symm
    have hsupersede : ∀ r∈db.executions,isCurrent row.executionKey r=true → r.executionKey≠key := by
      intro r _ hcurrent heq
      exact hkey (heq.symm.trans ((isCurrent_iff _ _).mp hcurrent).1)
    rw [filter_updateWhere_of_ne hpromote]
    exact filter_updateWhere_of_ne hsupersede

end Step

/-- `finalize_output_persisted` called at each of the given times in turn. -/
def finalizeAgain (executionId : ExecutionId) : List Timestamp → Db → Except PyExc Db
  | [],db => .ok db
  | now::later,db => do
    let db ← finalizeOutputPersisted executionId now db
    finalizeAgain executionId later db

/-- The row after the calls. -/
def finalizedRow (nows : List Timestamp) (row : ExecutionRow) : ExecutionRow :=
  nows.foldl (fun r now => r.update (finalizedColumns now)) row

/-- A finalized row keeps its ids. -/
theorem finalizedRow_executionId (nows : List Timestamp) (row : ExecutionRow) :
    (finalizedRow nows row).executionId=row.executionId ∧
      (finalizedRow nows row).executionKey=row.executionKey := by
  induction nows generalizing row with
  | nil => exact ⟨rfl,rfl⟩
  | cons now nows ih => exact ih (row.update (finalizedColumns now))

/-- A superseded row stays superseded. -/
theorem finalizedRow_superseded (nows : List Timestamp) {row : ExecutionRow} (h : row.supersededAt≠none) :
    (finalizedRow nows row).supersededAt≠none := by
  induction nows generalizing row with
  | nil => exact h
  | cons now nows ih =>
    refine ih ?_
    show (if row.servable=true then some (Column.value now) else row.supersededAt)≠none
    split
    · exact Option.some_ne_none _
    · exact h

/-- All calls succeed, and each leaves the rows of the other keys. -/
theorem finalizeAgain_run (nows : List Timestamp) {db : Db} {row : ExecutionRow} (hmem : row∈db.executions)
    (h : Finalizable row) :
    ∃ db',finalizeAgain row.executionId nows db=.ok db' ∧ finalizedRow nows row∈db'.executions ∧
      (nows≠[] → Finalized row db db') := by
  induction nows generalizing db row with
  | nil => exact ⟨db,rfl,hmem,fun hne => absurd rfl hne⟩
  | cons now nows ih =>
    obtain ⟨db₁,hstep,hmem₁,hfinal₁⟩ := finalize_step hmem h now
    obtain ⟨db',hrest,hmem',hfinal'⟩ := ih hmem₁ (h.again now)
    have hrun : finalizeAgain row.executionId (now::nows) db=.ok db' := by
      simp only [finalizeAgain,hstep]
      exact hrest
    refine ⟨db',hrun,hmem',fun _ => ?_⟩
    by_cases hnil : nows=[]
    · subst hnil
      cases Except.ok.inj hrest
      exact hfinal₁
    · have hlast := hfinal' hnil
      exact ⟨hlast.alone,fun key hkey => (hlast.others key hkey).trans (hfinal₁.others key hkey),
        hlast.identities.trans hfinal₁.identities⟩

/-- The row is current after its calls exactly where it was not promoted before and is finalized once. -/
theorem finalizedRow_current_iff {row : ExecutionRow} (h : Finalizable row) (hopen : row.supersededAt=none)
    (now : Timestamp) (later : List Timestamp) :
    (finalizedRow (now::later) row).servable=true ↔ row.outputPersisted=false ∧ later=[] := by
  have hfirst : row.servable=row.outputPersisted := by
    simp [MutableColumns.servable,h.success,hopen]
  constructor
  · intro hs
    have hnone := ((MutableColumns.servable_iff _).mp hs).2.2
    cases hpersisted : row.outputPersisted with
    | true =>
      -- The first call supersedes the row it is to promote.
      refine absurd hnone (finalizedRow_superseded later ?_)
      show (if row.servable=true then some (Column.value now) else row.supersededAt)≠none
      simp [hfirst,hpersisted]
    | false =>
      refine ⟨rfl,?_⟩
      cases later with
      | nil => rfl
      | cons next later =>
        -- The second call supersedes what the first one promoted.
        refine absurd hnone (finalizedRow_superseded later ?_)
        have hservable : (row.update (finalizedColumns now)).servable=true := by
          simp [MutableColumns.servable,finalizedColumns,h.success,hopen,hpersisted]
        show (if (row.update (finalizedColumns now)).servable=true then some (Column.value next)
          else (row.update (finalizedColumns now)).supersededAt)≠none
        rw [if_pos hservable]
        exact Option.some_ne_none _
  · rintro ⟨hpersisted,rfl⟩
    show (row.update (finalizedColumns now)).servable=true
    simp [MutableColumns.servable,finalizedColumns,h.success,hopen,hpersisted]

/-- The run is promoted: the one current execution of its key, with the other keys as they were. -/
structure Promoted (row : ExecutionRow) (db db' : Db) : Prop where
  /-- The run is current. -/
  current : ∃ r∈db'.executions,r.executionId=row.executionId ∧ isCurrent row.executionKey r=true
  /-- No other row of its key is current. -/
  unique : ∀ r∈db'.executions,isCurrent row.executionKey r=true → r.executionId=row.executionId
  /-- The rows of the other keys are as they were. -/
  others : ∀ key,key≠row.executionKey → db'.executions.filter (hasKey key)=db.executions.filter (hasKey key)
  /-- So are the identities. -/
  identities : db'.callIdentities=db.callIdentities

/-- A finalized run is promoted and stays so exactly where it was not promoted before and is finalized once. -/
theorem finalize_promotes_iff (db : Db) (row : ExecutionRow) (now : Timestamp) (later : List Timestamp)
    (hmem : row∈db.executions) (hstate : row.state=.value .success) (hopen : row.supersededAt=none)
    (hstored : ∀ a∈row.artifacts,a.status=.value .stored) :
    (∃ db',finalizeAgain row.executionId (now::later) db=.ok db' ∧ Promoted row db db') ↔
      row.outputPersisted=false ∧ later=[] := by
  have hfinal : Finalizable row := ⟨hstate,hstored⟩
  obtain ⟨db',hrun,hmem',hdone⟩ := finalizeAgain_run (now::later) hmem hfinal
  have hfinalized := hdone (List.cons_ne_nil _ _)
  obtain ⟨hid,hkey⟩ := finalizedRow_executionId (now::later) row
  rw [← finalizedRow_current_iff hfinal hopen now later]
  constructor
  · rintro ⟨db'',hrun',hpromoted⟩
    cases Except.ok.inj (hrun.symm.trans hrun')
    obtain ⟨r,hr,hrid,hcurrent⟩ := hpromoted.current
    rw [← db'.row_unique hr hmem' (hrid.trans hid.symm)]
    exact ((isCurrent_iff _ _).mp hcurrent).2
  · intro hs
    refine ⟨db',hrun,⟨_,hmem',hid,?_⟩,hfinalized.alone,hfinalized.others,hfinalized.identities⟩
    exact (isCurrent_iff _ _).mpr ⟨hkey,hs⟩

/-- A success whose one artifact is stored, not promoted yet. -/
def storedRun : ExecutionRow where
  state := .value .success
  outputPersisted := false
  supersededAt := none
  failureReason := none
  failureMessage := none
  failureExitCode := none
  artifacts := [⟨.value .stdout,none,.utf8,.value (.forExecution ⟨1⟩ 5),.bytes 3,.value .stored,some 0,none⟩]
  tokenUsage := none
  tags := []
  id := 1
  executionKey := ⟨7⟩
  kind := .value .localManaged
  createdAt := 0
  executionId := ⟨1⟩

/-- The store of that run alone. -/
def storedRunDb : Db :=
  ⟨[storedRun],[],List.pairwise_singleton _ _,List.pairwise_singleton _ _,Db.empty.identityKeysUnique⟩

/-- Its artifact is stored. -/
theorem storedRun_stored : ∀ a∈storedRun.artifacts,a.status=.value .stored := by
  intro a ha
  cases List.mem_singleton.mp ha
  rfl

/-- The first finalize promotes the run. -/
theorem finalize_promotes_once :
    ∃ db',finalizeAgain ⟨1⟩ [10] storedRunDb=.ok db' ∧ Promoted storedRun storedRunDb db' :=
  (finalize_promotes_iff storedRunDb storedRun 10 [] (List.mem_singleton_self _) rfl rfl storedRun_stored).mpr
    ⟨rfl,rfl⟩

/-- The second finalize leaves the key with no current execution. -/
theorem finalize_promotes_fails :
    storedRun∈storedRunDb.executions ∧ storedRun.state=.value .success ∧ storedRun.supersededAt=none ∧
    (∀ a∈storedRun.artifacts,a.status=.value .stored) ∧
    ¬ ∃ db',finalizeAgain ⟨1⟩ [10,20] storedRunDb=.ok db' ∧ Promoted storedRun storedRunDb db' := by
  refine ⟨List.mem_singleton_self _,rfl,rfl,storedRun_stored,?_⟩
  rintro ⟨db',hrun,hpromoted⟩
  obtain ⟨r,hr,_,hcurrent⟩ := hpromoted.current
  have hnone : (finalizeAgain ⟨1⟩ [10,20] storedRunDb).toOption.all
      (fun db => db.executions.all fun r => !isCurrent ⟨7⟩ r)=true := by decide +kernel
  rw [hrun] at hnone
  have hnot := List.all_eq_true.mp hnone r hr
  have hcurrent' : isCurrent ⟨7⟩ r=true := hcurrent
  rw [hcurrent'] at hnot
  exact nomatch hnot

end GenericMlCache.FinalizedRuns
