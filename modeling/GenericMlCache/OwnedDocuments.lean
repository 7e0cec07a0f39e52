import GenericMlCache.BareRows
import GenericMlCache.FaithfulReplay
import GenericMlCache.ReturnedRuns

/-!
# Documents of their executions

Callers side by side write documents of the executions whose ids were generated
for them, and of no others: whatever the locks do, a put holds the content its
blob key is derived from, and a document row is inserted by its run alone.
-/

namespace GenericMlCache.OwnedDocuments

open CallProgram CallAutomaton PythonText ExecutionModel SqliteStore ExecutionRepository ExecutionQueries
  RepositoryCalls ServicePorts StorePurge CachedExecution ServiceAutomaton ServiceConformance
  StoreSoundness FaithfulReplay BareRows ReturnedRuns

section Tasks
variable (fingerprint : Bytes → Digest)

/-- The documents that a task is still to write are its execution's. -/
def TaskDocuments : Task → Prop
  | .filling _ target todo => ∀ a∈todo,IsDocument fingerprint target a
  | .fillMarking _ target _ todo | .fillFailing _ target _ todo => ∀ a∈todo,IsDocument fingerprint target a
  | .persisting execution _ _ todo _ => ∀ a∈todo,IsDocument fingerprint execution.executionId a
  | .putting execution _ _ document todo _ => ∀ a∈document::todo,IsDocument fingerprint execution.executionId a
  | .marking execution _ _ _ todo _ | .failing execution _ _ _ todo =>
    ∀ a∈todo,IsDocument fingerprint execution.executionId a
  | _ => True

variable {fingerprint}

/-- A document's content is what its blob key is derived from. -/
theorem isDocument_addressed {executionId : ExecutionId} {a : Artifact} (h : IsDocument fingerprint executionId a) :
    ∃ content,a.content=some content ∧ a.blobKey=.forExecution executionId (fingerprint content) := by
  obtain ⟨artifactType,name,content,rfl⟩ := h
  exact ⟨content,rfl,rfl⟩

/-- What a document's put writes is what its key is derived from. -/
theorem isDocument_put {executionId : ExecutionId} {a : Artifact} (h : IsDocument fingerprint executionId a) :
    ∀ id digest,a.blobKey=.forExecution id digest → fingerprint (a.content.getD [])=digest := by
  obtain ⟨content,hcontent,hkey⟩ := isDocument_addressed h
  intro id digest heq
  rw [hkey] at heq
  rw [hcontent]
  exact (BlobKey.forExecution.inj heq).2

/-- The documents of a recording are its execution's. -/
theorem isDocument_of_recording {executionId : ExecutionId} {result : ClientRunResult} {documents : List Artifact}
    (h : IsRecordingOf fingerprint executionId result documents) :
    ∀ a∈documents,IsDocument fingerprint executionId a := by
  obtain ⟨outputs,inputs,hout,hin,rfl⟩ := h
  intro a hmem
  rcases List.mem_append.mp hmem with hmem | hmem
  swap
  · exact (hin a hmem).2
  obtain ⟨stdout,_,h⟩ := ok_of_bind hout
  obtain ⟨stderr,_,h⟩ := ok_of_bind h
  cases Except.ok.inj h
  rcases List.mem_cons.mp hmem with rfl | hmem
  · exact ⟨_,_,_,rfl⟩
  rcases List.mem_cons.mp hmem with rfl | hmem
  · exact ⟨_,_,_,rfl⟩
  obtain ⟨file,_,rfl⟩ := List.mem_map.mp hmem
  exact ⟨_,_,_,rfl⟩

/-- An error that goes on leaves nothing to write. -/
theorem taskDocuments_raised (task : Task) (e : PyExc) : TaskDocuments fingerprint (task.raised e) := by
  cases task <;> simp only [Task.raised] <;> first | trivial | (split <;> trivial)

/-- Releasing a lock leaves at most what was to be written. -/
theorem taskDocuments_released {task : Task} (h : TaskDocuments fingerprint task) :
    TaskDocuments fingerprint task.released := by
  cases task with
  | filling hit target todo =>
    cases todo with
    | nil => trivial
    | cons => exact h
  | fillMarking | fillFailing => exact h
  | _ => trivial

/-- A repair writes no document. -/
theorem taskDocuments_nextRun (runs : List UnpersistedRun) : TaskDocuments fingerprint (.nextRun runs) := by
  cases runs <;> trivial

/-- A repair writes no document. -/
theorem taskDocuments_reconciled (run : UnpersistedRun) (todo : List BlobKey) (complete : Bool)
    (rest : List UnpersistedRun) : TaskDocuments fingerprint (.reconciled run todo complete rest) := by
  unfold Task.reconciled
  split
  · exact taskDocuments_nextRun rest
  · trivial

end Tasks

section Turns
variable {Command : Type} {scope : Scope} {fingerprint : Bytes → Digest} {locks : LockMode}
variable {faults : Faults Command} {thread : ThreadId} {φ φ' : Phase} {w w' : World} {call : Call Command}
variable {r : Except PyExc call.Ret}

/-- Leaving a lock does not raise. -/
theorem release_answered {e : PyExc} (hrelease : isRelease call=true)
    (h : Answers locks faults thread call w (.error e) w') : False := by
  cases h with
  | fault hcall => exact absurd hrelease (by simp [hcall])
  | reject => exact nomatch hrelease
  | runClient => exact nomatch hrelease

/-- The next task has documents of its execution to write. -/
theorem turn_documents (h : Turn scope fingerprint φ call r φ') (hans : Answers locks faults thread call w r w')
    (hdocs : TaskDocuments fingerprint φ.task) : TaskDocuments fingerprint φ'.task := by
  cases h with
  | quiet | acquire => exact hdocs
  | raise => exact taskDocuments_raised _ _
  | release => exact taskDocuments_released hdocs
  | releaseRaised hrelease => exact (release_answered hrelease hans).elim
  | attach hkey hdocuments => exact fun a hmem => (hdocuments a hmem).2
  | fillPut | fillPutFailed | put | putFailed => exact fun a hmem => hdocs a (List.mem_cons_of_mem _ hmem)
  | fillMark | fillFail | persist | mark | markFailed | fail => exact hdocs
  | beginDocuments hdocuments => exact isDocument_of_recording hdocuments
  | list => exact taskDocuments_nextRun _
  | repairFinalize => exact taskDocuments_nextRun _
  | repairMark | repairFail => exact taskDocuments_reconciled _ _ _ _
  | _ => trivial

/-- What a call that succeeds writes is in order: a put holds what its key is
derived from, a saved row is bare, and only the execution's own run inserts its
documents and finalizes it. -/
def Orderly (fingerprint : Bytes → Digest) (task : Task) : (call : Call Command) → Except PyExc call.Ret → Prop
  | .blobPut key content,.ok _ => ∀ id digest,key=.forExecution id digest → fingerprint content=digest
  | .store (.save execution),.ok _ => IsInProgress execution ∧ recorded task=some execution.executionId
  | .store (.persistArtifact id artifact),.ok _ => recorded task=some id ∧ IsDocument fingerprint id artifact
  | .store (.finalizeOutputPersisted id),.ok _ => recorded task=some id
  | .store (.addInputArtifacts _ documents),.ok _ => ∀ a∈documents,a.artifactType.isInput=true
  | _,_ => True

/-- Every turn is in order, unless it is a repair's. -/
theorem turn_orderly (h : Turn scope fingerprint φ call r φ') (hdocs : TaskDocuments fingerprint φ.task)
    (hlisted : listed φ.task=[]) : Orderly fingerprint φ.task call r := by
  cases r with
  | error e =>
    cases call with
    | store storeCall => cases storeCall <;> trivial
    | _ => trivial
  | ok a =>
    cases h with
    | quiet hquiet =>
      cases call with
      | store storeCall => cases storeCall <;> trivial
      | _ => trivial
    | gate hgate =>
      rcases hgate with rfl | rfl | ⟨key,rfl⟩ <;> trivial
    | attach hkey hdocuments => exact fun a hmem => (hdocuments a hmem).1
    | fillPut => exact isDocument_put (hdocs _ List.mem_cons_self)
    | put => exact isDocument_put (hdocs _ List.mem_cons_self)
    | save hkey hprogress => exact ⟨hprogress,rfl⟩
    | persist => exact ⟨rfl,hdocs _ List.mem_cons_self⟩
    | finalize => rfl
    | repairFinalize => exact nomatch hlisted
    | _ => trivial

/-- An error that goes on ends a recording. -/
theorem recorded_raised (task : Task) (e : PyExc) : recorded (task.raised e)=none := by
  cases task <;> simp only [Task.raised] <;> first | rfl | (split <;> rfl)

/-- A released lock ends a recording. -/
theorem recorded_released (task : Task) : recorded task.released=none := by
  cases task with
  | filling hit target todo => cases todo <;> rfl
  | _ => rfl

/-- A repair records nothing. -/
theorem recorded_nextRun (runs : List UnpersistedRun) : recorded (.nextRun runs)=none := by
  cases runs <;> rfl

/-- A repair records nothing. -/
theorem recorded_reconciled (run : UnpersistedRun) (todo : List BlobKey) (complete : Bool)
    (rest : List UnpersistedRun) : recorded (.reconciled run todo complete rest)=none := by
  unfold Task.reconciled
  split
  · exact recorded_nextRun rest
  · rfl

/-- No quiet call finalizes anything. -/
theorem gainOf_of_quiet (h : isQuiet call=true) (r : Except PyExc call.Ret) (id : ExecutionId) :
    gainOf call r≠some (.finalized id) := by
  intro hgain
  cases call with
  | store storeCall =>
    cases storeCall with
    | findCurrent =>
      cases r with
      | error e => exact nomatch hgain
      | ok found => cases found <;> exact nomatch hgain
    | finalizeOutputPersisted => exact nomatch h
    | _ => cases r <;> exact nomatch hgain
  | newExecutionId => cases r <;> exact nomatch hgain
  | blobGet => exact nomatch h
  | _ => cases r <;> exact nomatch hgain

/-- A recording is of the id that was generated, or goes on until it is finalized. -/
theorem turn_recorded (h : Turn scope fingerprint φ call r φ') (hans : Answers locks faults thread call w r w')
    {id : ExecutionId} (hid : recorded φ'.task=some id) :
    gainOf call r=some (.minted id) ∨ (recorded φ.task=some id ∧ gainOf call r≠some (.finalized id)) := by
  cases h with
  | quiet hquiet => exact Or.inr ⟨hid,gainOf_of_quiet hquiet _ id⟩
  | acquire => exact Or.inr ⟨hid,fun hgain => nomatch hgain⟩
  | raise =>
    rw [recorded_raised] at hid
    exact nomatch hid
  | release =>
    rw [recorded_released] at hid
    exact nomatch hid
  | releaseRaised hrelease => exact (release_answered hrelease hans).elim
  | mint hscope executionId =>
    rw [← Option.some.inj hid]
    exact Or.inl rfl
  | save | answer | interrupt | clientRaise | outcome | beginDocuments | persist | put | putFailed | mark
  | markFailed | fail => exact Or.inr ⟨hid,fun hgain => nomatch hgain⟩
  | list | repairFinalize =>
    rw [recorded_nextRun] at hid
    exact nomatch hid
  | repairMark | repairFail =>
    rw [recorded_reconciled] at hid
    exact nomatch hid
  | _ => exact nomatch hid

/-- Where nobody repairs, no task has a run to repair. -/
theorem turn_listed (hscope : scope.repairs=false) (h : Turn scope fingerprint φ call r φ')
    (hans : Answers locks faults thread call w r w') (hlisted : listed φ.task=[]) : listed φ'.task=[] := by
  cases h with
  | quiet | acquire => exact hlisted
  | raise =>
    cases φ with
    | mk held task ran => cases task <;> simp only [Task.raised] <;> first | rfl | (split <;> rfl)
  | release =>
    cases φ with
    | mk held task ran =>
      cases task with
      | filling hit target todo => cases todo <;> rfl
      | _ => rfl
  | releaseRaised hrelease => exact (release_answered hrelease hans).elim
  | list hrepairs =>
    rw [hscope] at hrepairs
    cases hrepairs
  | find | lose | repairMark | repairFail | repairFinalize => cases hlisted
  | _ => rfl

end Turns

/-- The row is one that was there, not finalized since, and its output documents are those it had
if it is finalized. -/
structure Descends (row' row : ExecutionRow) : Prop where
  /-- It is the same execution's. -/
  id : row'.executionId=row.executionId
  /-- What is finalized was, with the same output. -/
  finalized : row'.outputPersisted=true → row.outputPersisted=true ∧
    List.Forall₂ SameDocument (outputRows row'.artifacts) (outputRows row.artifacts)

section Rows
variable {db db' : Db}

/-- A row that did not change. -/
theorem Descends.refl (row : ExecutionRow) : Descends row row := ⟨rfl,fun h => ⟨h,sameDocuments_refl _⟩⟩

/-- Every row descends from one that was there. -/
abbrev AllDescend (db db' : Db) : Prop := ∀ row'∈db'.executions,∃ row∈db.executions,Descends row' row

/-- Rows that were there descend from themselves. -/
theorem allDescend_subset (h : ∀ row∈db'.executions,row∈db.executions) : AllDescend db db' :=
  fun row hrow => ⟨row,h row hrow,.refl row⟩

/-- An update that finalizes nothing and keeps the output of what it leaves finalized. -/
theorem allDescend_update {p : ExecutionRow → Bool} {f : MutableColumns → MutableColumns}
    (hf : ∀ row∈db.executions,p row=true → (f row.toMutableColumns).outputPersisted=true →
      row.outputPersisted=true ∧
        List.Forall₂ SameDocument (outputRows (f row.toMutableColumns).artifacts) (outputRows row.artifacts)) :
    AllDescend db (db.updateWhere p f) := by
  intro row' hrow'
  obtain ⟨row,hrow,rfl⟩ := Db.mem_updateWhere.mp hrow'
  refine ⟨row,hrow,?_⟩
  by_cases hp : p row=true
  · rw [if_pos hp]
    exact ⟨rfl,fun h => hf row hrow hp h⟩
  · rw [if_neg hp]
    exact .refl row

/-- Marked rows have the output they had. -/
theorem outputRows_mark {blobKey : BlobKey} {mark : ArtifactRow → ArtifactRow} (hmark : KeepsDocument mark)
    (c : MutableColumns) :
    List.Forall₂ SameDocument (outputRows (markColumns blobKey mark c).artifacts) (outputRows c.artifacts) :=
  List.rel_filter (fun a b hab => by simp only [ArtifactRow.isInput,hab.1]) (sameDocuments_mark hmark c)

/-- The call neither saves, inserts an output document nor finalizes. -/
def isUnwriting : StoreCall → Bool
  | .save _ | .persistArtifact _ _ | .finalizeOutputPersisted _ => false
  | _ => true

/-- A transaction that inserts no output document and finalizes nothing. -/
theorem transact_descends {now : Timestamp} {call : StoreCall} {a : call.Ret} (hcall : isUnwriting call=true)
    (hinput : ∀ key documents,call=.addInputArtifacts key documents → ∀ a∈documents,a.artifactType.isInput=true)
    (h : transact now db call=.ok (a,db')) : AllDescend db db' := by
  have hmark : ∀ {executionId : ExecutionId} {blobKey : BlobKey} {mark : ArtifactRow → ArtifactRow},
      KeepsDocument mark → markArtifacts executionId blobKey mark db=.ok db' → AllDescend db db' := by
    intro executionId blobKey mark hkeeps hm
    rw [(markArtifacts_ok hm).2]
    exact allDescend_update fun row _ _ hfinal => ⟨hfinal,outputRows_mark hkeeps _⟩
  cases call with
  | save | persistArtifact | finalizeOutputPersisted => cases hcall
  | findCurrent | findAll | runsAwaitingPersistence | totalStoredBytes | currentExecutionsWithSizes
  | executionsByTag | allExecutionKeys =>
    rw [transact_read rfl h]
    exact allDescend_subset fun _ hrow => hrow
  | recordOutcome execution =>
    obtain ⟨_,_,_,_,_,rfl⟩ := recordOutcome_ok (commit_ok.mp h)
    exact allDescend_update fun row _ _ hfinal => ⟨hfinal,sameDocuments_refl _⟩
  | markArtifactsStored => exact hmark (keepsDocument_storedMark now) (commit_ok.mp h)
  | markArtifactsFailed _ _ detail =>
    obtain ⟨_,_,hm⟩ := ok_of_bind (commit_ok.mp h)
    exact hmark (keepsDocument_failedMark _) hm
  | removeExecution removed =>
    rw [← Except.ok.inj (commit_ok.mp h)]
    exact allDescend_subset fun row hrow => (mem_removeExecution.mp hrow).1
  | addTags key tags =>
    rcases addTags_ok (commit_ok.mp h) with rfl | ⟨_,rfl⟩
    · exact allDescend_subset fun _ hrow => hrow
    · exact allDescend_update fun row _ _ hfinal => ⟨hfinal,sameDocuments_refl _⟩
  | addInputArtifacts key documents =>
    rcases addInputArtifacts_ok (commit_ok.mp h) with rfl | ⟨row,_,_,rfl⟩
    · exact allDescend_subset fun _ hrow => hrow
    · refine allDescend_update fun row _ _ hfinal => ⟨hfinal,?_⟩
      have hnone : outputRows (documents.map artifactRow)=[] := by
        refine List.filter_eq_nil_iff.mpr fun b hb => ?_
        obtain ⟨a,ha,rfl⟩ := List.mem_map.mp hb
        simp [ArtifactRow.isInput,artifactRow,hinput key documents rfl a ha]
      have hsame : outputRows (withArtifacts (documents.map artifactRow) row.toMutableColumns).artifacts=
          outputRows row.artifacts := by
        show outputRows (row.artifacts ++ documents.map artifactRow)=outputRows row.artifacts
        unfold outputRows at hnone ⊢
        rw [List.filter_append,hnone,List.append_nil]
      rw [hsame]
      exact sameDocuments_refl _
  | softPurgeExecution key =>
    rw [← Except.ok.inj (commit_ok.mp h)]
    exact allDescend_update fun _ _ _ hfinal => (by cases hfinal)
  | hardDeleteExecution key =>
    rw [← Except.ok.inj (commit_ok.mp h)]
    exact allDescend_subset fun row hrow => (mem_hardDeleteExecution.mp hrow).1

end Rows

section Steps
variable {Command : Type} {fingerprint : Bytes → Digest} {locks : LockMode} {faults : Faults Command}
variable {thread : ThreadId} {w w' : World} {task : Task} {call : Call Command} {r : Except PyExc call.Ret}

/-- What a row is, after a call, of the rows that were there. -/
inductive Stems (task : Task) (call : Call Command) (r : Except PyExc call.Ret) (db : Db)
    (row' : ExecutionRow) : Prop where
  | kept {row : ExecutionRow} (hrow : row∈db.executions) (h : Descends row' row)
  | saved (hid : recorded task=some row'.executionId) (h : row'.outputPersisted=false)
  | extended {row : ExecutionRow} (hrow : row∈db.executions) (hid : row'.executionId=row.executionId)
      (hrecorded : recorded task=some row.executionId) (h : row'.outputPersisted=row.outputPersisted)
  | finalized {row : ExecutionRow} (hrow : row∈db.executions) (hid : row'.executionId=row.executionId)
      (hartifacts : row'.artifacts=row.artifacts) (hgain : gainOf call r=some (.finalized row.executionId))

/-- A saved row is new, and every other one stays as it was. -/
theorem stems_save {execution : MlExecution} {now : Timestamp} {db db' : Db} (hprogress : IsInProgress execution)
    (hrecorded : recorded task=some execution.executionId) (h : save execution now db=.ok db') :
    ∀ row∈db'.executions,Stems task call r db row := by
  obtain ⟨rowId,_,_,hrows,_⟩ := save_ok h
  have hnot : ¬isServable execution=true := by
    simp [isServable,hprogress.state,hprogress.outputPersisted]
  rw [if_neg hnot] at hrows
  intro row hrow
  rw [hrows,List.mem_append,List.mem_singleton] at hrow
  rcases hrow with hrow | rfl
  · exact .kept hrow (.refl row)
  · exact .saved hrecorded hprogress.outputPersisted

/-- A persisted document's row has one artifact row more. -/
theorem stems_persistArtifact {id : ExecutionId} {artifact : Artifact} {db db' : Db}
    (hrecorded : recorded task=some id) (h : persistArtifact id artifact db=.ok db') :
    ∀ row∈db'.executions,Stems task call r db row := by
  obtain ⟨_,rfl⟩ := persistArtifact_ok h
  intro row' hrow'
  obtain ⟨row,hrow,rfl⟩ := Db.mem_updateWhere.mp hrow'
  by_cases hp : hasId id row=true
  · rw [if_pos hp]
    have hid : row.executionId=id := (hasId_iff _ _).mp hp
    exact .extended hrow rfl (hid ▸ hrecorded) rfl
  · rw [if_neg hp]
    exact .kept hrow (.refl row)

/-- A finalized row has the artifacts it had, and the rows it supersedes have theirs. -/
theorem stems_finalize {id : ExecutionId} {now : Timestamp} {db db' : Db}
    (hgain : gainOf call r=some (.finalized id)) (h : finalizeOutputPersisted id now db=.ok db') :
    ∀ row∈db'.executions,Stems task call r db row := by
  obtain ⟨target,_,_,_,rfl⟩ := finalizeOutputPersisted_ok h
  intro row' hrow'
  obtain ⟨superseded,hsuperseded,rfl⟩ := Db.mem_updateWhere.mp hrow'
  have hbefore : ∃ row∈db.executions,superseded.executionId=row.executionId ∧
      superseded.artifacts=row.artifacts ∧ superseded.outputPersisted=row.outputPersisted := by
    split at hsuperseded
    · obtain ⟨row,hrow,rfl⟩ := Db.mem_updateWhere.mp hsuperseded
      refine ⟨row,hrow,?_⟩
      split <;> exact ⟨rfl,rfl,rfl⟩
    · exact ⟨superseded,hsuperseded,rfl,rfl,rfl⟩
  obtain ⟨row,hrow,hid,hartifacts,hpersisted⟩ := hbefore
  by_cases hp : hasId id superseded=true
  · rw [if_pos hp]
    have hrowId : row.executionId=id := hid.symm.trans ((hasId_iff _ _).mp hp)
    exact .finalized hrow hid hartifacts (hrowId ▸ hgain)
  · rw [if_neg hp]
    refine .kept hrow ⟨hid,fun hfinal => ⟨hpersisted ▸ hfinal,?_⟩⟩
    rw [hartifacts]
    exact sameDocuments_refl _

/-- Every row after a call that is in order stems from it. -/
theorem answers_stems (hans : Answers locks faults thread call w r w') (horderly : Orderly fingerprint task call r) :
    ∀ row∈w'.db.executions,Stems task call r w.db row := by
  have hkept : w'.db=w.db → ∀ row∈w'.db.executions,Stems task call r w.db row :=
    fun heq row hrow => .kept (heq ▸ hrow) (.refl row)
  cases hans with
  | @commit _ storeCall a db now h =>
    have hdescend : isUnwriting storeCall=true →
        (∀ key documents,storeCall=.addInputArtifacts key documents → ∀ a∈documents,a.artifactType.isInput=true) →
        ∀ row∈db.executions,Stems task (.store storeCall : Call Command) (.ok a) w.db row := by
      intro hcall hinput row hrow
      obtain ⟨before,hbefore,hdescends⟩ := transact_descends hcall hinput h row hrow
      exact .kept hbefore hdescends
    cases storeCall with
    | save execution => exact stems_save horderly.1 horderly.2 (commit_ok.mp h)
    | persistArtifact id artifact => exact stems_persistArtifact horderly.1 (commit_ok.mp h)
    | finalizeOutputPersisted id => exact stems_finalize rfl (commit_ok.mp h)
    | addInputArtifacts key documents =>
      refine hdescend rfl fun key' documents' heq => ?_
      cases heq
      exact horderly
    | _ => exact hdescend rfl fun _ _ heq => nomatch heq
  | _ => exact hkept rfl

/-- What the answer to a call tells is so. -/
theorem answers_gain (hans : Answers locks faults thread call w r w') :
    (∀ id,gainOf call r=some (.minted id) → id∉w.minted) ∧
      (∀ id,id∈w'.minted ↔ id∈w.minted ∨ gainOf call r=some (.minted id)) ∧
      (∀ key content,gainOf call r=some (.got key content) → w.blobs.get key=some content) ∧
      ∀ loaded,gainOf call r=some (.loaded loaded) → ∃ key,findCurrent key w.db=.ok (some loaded) := by
  have hnone : gainOf call r=none → w'.minted=w.minted →
      (∀ id,gainOf call r=some (.minted id) → id∉w.minted) ∧
      (∀ id,id∈w'.minted ↔ id∈w.minted ∨ gainOf call r=some (.minted id)) ∧
      (∀ key content,gainOf call r=some (.got key content) → w.blobs.get key=some content) ∧
      ∀ loaded,gainOf call r=some (.loaded loaded) → ∃ key,findCurrent key w.db=.ok (some loaded) := by
    intro hgain hminted
    rw [hgain,hminted]
    simp
  have herror : ∀ e,gainOf call (.error e)=none := by
    intro e
    cases call with
    | store storeCall => cases storeCall <;> rfl
    | _ => rfl
  cases hans with
  | fault => exact hnone (herror _) rfl
  | reject => exact hnone (herror _) rfl
  | @commit _ storeCall a db now h =>
    cases storeCall with
    | findCurrent key =>
      cases a with
      | none => exact hnone rfl rfl
      | some loaded =>
        refine ⟨fun _ hgain => (by cases hgain),fun id => ?_,fun _ _ hgain => (by cases hgain),fun loaded' hgain => ?_⟩
        · simp [gainOf]
        · cases hgain
          exact ⟨key,(reading_ok.mp h).1⟩
    | persistArtifact | finalizeOutputPersisted => simp [gainOf]
    | _ => exact hnone rfl rfl
  | @blobGet _ key =>
    cases hget : w.blobs.get key with
    | none => simp [gainOf]
    | some content =>
      refine ⟨fun _ hgain => (by cases hgain),fun id => by simp [gainOf],fun key' content' hgain => ?_,
        fun _ hgain => (by cases hgain)⟩
      cases hgain
      exact hget
  | newExecutionId id hfresh =>
    refine ⟨fun id' hgain => ?_,fun id' => ?_,fun _ _ hgain => (by cases hgain),fun _ hgain => (by cases hgain)⟩
    · cases hgain
      exact hfresh
    · simp [gainOf,eq_comm,or_comm]
  | runClient result => cases result <;> exact hnone rfl rfl
  | _ => exact hnone rfl rfl

/-- The content is what a key that an execution owns is derived from. -/
def Addressed (fingerprint : Bytes → Digest) (key : BlobKey) (content : Bytes) : Prop :=
  ∀ id digest,key=.forExecution id digest → fingerprint content=digest

/-- A put that is in order keeps every blob what its key is derived from. -/
theorem answers_addressed (hans : Answers locks faults thread call w r w') (horderly : Orderly fingerprint task call r)
    (h : ∀ key content,w.blobs.get key=some content → Addressed fingerprint key content) :
    ∀ key content,w'.blobs.get key=some content → Addressed fingerprint key content := by
  cases hans with
  | @blobPut _ key content =>
    intro key' content' hget
    rw [BlobStore.get_put] at hget
    by_cases heq : key'=key
    · rw [if_pos heq] at hget
      cases hget
      exact heq ▸ horderly
    · rw [if_neg heq] at hget
      exact h key' content' hget
  | @blobRemove _ key =>
    intro key' content' hget
    rw [BlobStore.get_remove] at hget
    split at hget
    next => cases hget
    next => exact h key' content' hget
  | _ => exact h

end Steps

section Owners
variable {ι : Type}

/-- The run is finalized, with these output documents. -/
def Finished (g : ι → Gathered) (id : ExecutionId) (documents : List Artifact) : Prop :=
  ∃ k,id∈(g k).minted ∧ id∈(g k).finalized ∧ (g k).documents id=documents

/-- The artifact row of a loaded artifact, which is one of a document. -/
def IsLoadedOf (document a : Artifact) : Prop := IsRowOf document (artifactRow a) ∧ a.content=none

/-- What callers side by side have gathered, and what they hold, is of the runs
whose ids were generated for them. -/
structure Owned (fingerprint : Bytes → Digest) (tasks : ι → Task) (g : ι → Gathered) (w : World) : Prop where
  /-- Every blob is under a key of its content. -/
  addressed : ∀ key content,w.blobs.get key=some content → Addressed fingerprint key content
  /-- What a caller minted is minted. -/
  mintedIn : ∀ i,∀ id∈(g i).minted,id∈w.minted
  /-- No two callers minted one id. -/
  mintedOnce : ∀ i j,∀ id∈(g i).minted,id∈(g j).minted → i=j
  /-- Each task holds documents of its execution. -/
  documents : ∀ i,TaskDocuments fingerprint (tasks i)
  /-- No caller repairs. -/
  unlisted : ∀ i,listed (tasks i)=[]
  /-- A caller records what it minted and did not finalize. -/
  recording : ∀ i id,recorded (tasks i)=some id → id∈(g i).minted ∧ id∉(g i).finalized
  /-- It finalized only what it minted. -/
  finalizedIn : ∀ i,∀ id∈(g i).finalized,id∈(g i).minted
  /-- It wrote only documents of what it minted. -/
  written : ∀ i,∀ entry∈(g i).written,entry.1∈(g i).minted ∧ IsDocument fingerprint entry.1 entry.2
  /-- What it got is under a key of its content. -/
  got : ∀ i,∀ entry∈(g i).got,Addressed fingerprint entry.1 entry.2
  /-- A finalized row holds the output of a finished run. -/
  rows : ∀ row∈w.db.executions,row.outputPersisted=true →
    ∃ documents,Finished g row.executionId documents ∧ List.Forall₂ IsRowOf documents (outputRows row.artifacts)
  /-- So does what a caller loaded. -/
  loaded : ∀ i,∀ e∈(g i).loaded,∃ documents,Finished g e.executionId documents ∧
    List.Forall₂ IsLoadedOf documents (outputs e)

variable {fingerprint : Bytes → Digest} {tasks : ι → Task} {g : ι → Gathered} {w : World}

/-- What was loaded is of a finished run with its documents. -/
theorem Owned.found (h : Owned fingerprint tasks g w) {key : ExecutionKey} {e : MlExecution}
    (hfind : findCurrent key w.db=.ok (some e)) :
    ∃ documents,Finished g e.executionId documents ∧ List.Forall₂ IsLoadedOf documents (outputs e) := by
  obtain ⟨row,hcurrent,hload⟩ := findCurrent_some hfind
  obtain ⟨hrow,hkey,hservable⟩ := Db.currentRow_mem hcurrent
  obtain ⟨hid,hartifacts,hcontent,_⟩ := loadExecution_ok hload
  obtain ⟨documents,hfinished,hrows⟩ := h.rows row hrow ((MutableColumns.servable_iff _).mp hservable).2.1
  refine ⟨documents,hid ▸ hfinished,?_⟩
  have houtputs : outputRows row.artifacts=(outputs e).map artifactRow := by
    rw [hartifacts,outputRows,List.filter_map]
    rfl
  rw [houtputs,List.forall₂_map_right_iff] at hrows
  refine List.forall₂_iff_get.mpr ⟨hrows.length_eq,fun n hn hn' => ⟨hrows.get hn hn',?_⟩⟩
  exact hcontent _ (List.mem_filter.mp (List.get_mem _ _)).1

/-- The artifact is the document, with its content. -/
def Delivers (document a : Artifact) : Prop :=
  a.artifactType=document.artifactType ∧ a.name=document.name ∧ a.content=document.content

/-- The output documents of a finished run are its documents. -/
theorem Owned.finished_documents (h : Owned fingerprint tasks g w) {id : ExecutionId} {documents : List Artifact}
    (hf : Finished g id documents) : ∀ d∈documents,IsDocument fingerprint id d := by
  obtain ⟨k,_,_,rfl⟩ := hf
  intro d hd
  obtain ⟨entry,hentry,rfl⟩ := List.mem_map.mp hd
  obtain ⟨hmem,hkeep⟩ := List.mem_filter.mp hentry
  have hid : entry.1=id := by
    simp only [Bool.and_eq_true,decide_eq_true_eq] at hkeep
    exact hkeep.1
  exact hid ▸ (h.written k entry hmem).2

/-- A run is finished with one list of documents. -/
theorem Owned.finished_unique (h : Owned fingerprint tasks g w) {id : ExecutionId} {documents documents' : List Artifact}
    (hf : Finished g id documents) (hf' : Finished g id documents') : documents=documents' := by
  obtain ⟨k,hminted,_,rfl⟩ := hf
  obtain ⟨k',hminted',_,rfl⟩ := hf'
  rw [h.mintedOnce k k' id hminted hminted']

/-- What was read of a document's blob is its content, where the fingerprint does not collide. -/
theorem content_of_read (hinj : Function.Injective fingerprint) {id : ExecutionId} {d a : Artifact}
    (hd : IsDocument fingerprint id d) (hrow : IsRowOf d (artifactRow a)) {content : Bytes}
    (hread : Addressed fingerprint a.blobKey content) : d.content=some content := by
  obtain ⟨bytes,hcontent,hkey⟩ := isDocument_addressed hd
  have hsame : a.blobKey=d.blobKey := Column.value.inj hrow.2.2
  have hdigest := hread id (fingerprint bytes) (hsame.trans hkey)
  rw [hcontent,hinj hdigest]

/-- What a worker returned of a finished run has the run's documents. -/
theorem Owned.delivers (h : Owned fingerprint tasks g w) (hinj : Function.Injective fingerprint) {job : ι}
    {E : MlExecution} (hreturned : Returned (g job) E) {documents : List Artifact}
    (hf : Finished g E.executionId documents) : List.Forall₂ Delivers documents (outputs E) := by
  cases hreturned with
  | @hit loaded hmem hid hartifacts =>
    obtain ⟨documents',hf',hrows⟩ := h.loaded job loaded hmem
    have hdocs := h.finished_documents hf'
    rw [hid] at hf
    rw [h.finished_unique hf hf']
    have hread : List.Forall₂ (ReadFrom (g job).got) (outputs loaded) (outputs E) :=
      List.rel_filter (fun a b hab => by obtain ⟨_,_,rfl⟩ := hab; exact Iff.rfl) hartifacts
    have hmembers : List.Forall₂ (fun d a => d∈documents' ∧ IsLoadedOf d a) documents' (outputs loaded) :=
      (List.forall₂_and_left _ _).mpr ⟨fun _ hd => hd,hrows⟩
    refine forall₂_trans (fun d a b hda hab => ?_) hmembers hread
    obtain ⟨hd,hrow,_⟩ := hda
    obtain ⟨content,hgot,rfl⟩ := hab
    refine ⟨Column.value.inj hrow.1,hrow.2.1,?_⟩
    exact (content_of_read hinj (hdocs d hd) hrow (h.got job _ hgot)).symm
  | run hminted hdocuments =>
    obtain ⟨k,hk,_,rfl⟩ := hf
    rw [h.mintedOnce k job _ hk hminted]
    exact hdocuments.imp fun d a hda => ⟨hda.1,hda.2.1,hda.2.2.2⟩
  | bare hminted hnot =>
    obtain ⟨k,hk,hfinal,_⟩ := hf
    rw [h.mintedOnce k job _ hk hminted] at hfinal
    exact absurd hfinal hnot

end Owners

section Watching
variable {Command : Type} {call : Call Command} {r : Except PyExc call.Ret} {g : Gathered} {id : ExecutionId}

/-- The ids that were generated. -/
theorem mem_watch_minted : id∈(watchGathered call r g).minted ↔ gainOf call r=some (.minted id) ∨ id∈g.minted := by
  unfold watchGathered
  cases gainOf call r with
  | none => simp
  | some gain => cases gain <;> simp [Gathered.add,eq_comm]

/-- The executions that were finalized. -/
theorem mem_watch_finalized :
    id∈(watchGathered call r g).finalized ↔ gainOf call r=some (.finalized id) ∨ id∈g.finalized := by
  unfold watchGathered
  cases gainOf call r with
  | none => simp
  | some gain => cases gain <;> simp [Gathered.add,eq_comm]

/-- The executions that were loaded. -/
theorem mem_watch_loaded {e : MlExecution} :
    e∈(watchGathered call r g).loaded ↔ gainOf call r=some (.loaded e) ∨ e∈g.loaded := by
  unfold watchGathered
  cases gainOf call r with
  | none => simp
  | some gain => cases gain <;> simp [Gathered.add,eq_comm]

/-- The blobs that were read. -/
theorem mem_watch_got {key : BlobKey} {content : Bytes} :
    (key,content)∈(watchGathered call r g).got ↔ gainOf call r=some (.got key content) ∨ (key,content)∈g.got := by
  unfold watchGathered
  cases gainOf call r with
  | none => simp
  | some gain => cases gain <;> simp [Gathered.add,eq_comm]

/-- The documents that were persisted. -/
theorem mem_watch_written {document : Artifact} : (id,document)∈(watchGathered call r g).written ↔
    gainOf call r=some (.written id document) ∨ (id,document)∈g.written := by
  unfold watchGathered
  cases gainOf call r with
  | none => simp
  | some gain => cases gain <;> simp [Gathered.add,eq_comm,or_comm]

/-- The documents of an execution for which none was persisted. -/
theorem watch_documents (h : ∀ document,gainOf call r≠some (.written id document)) :
    (watchGathered call r g).documents id=g.documents id := by
  unfold watchGathered
  cases hgain : gainOf call r with
  | none => rfl
  | some gain =>
    cases gain with
    | written id' document =>
      have hne : id'≠id := by
        rintro rfl
        exact h document hgain
      simp [Gathered.add,Gathered.documents,documentsOf,hne]
    | _ => rfl

/-- A call that is in order writes for the caller's own run. -/
theorem orderly_gain {fingerprint : Bytes → Digest} {task : Task} (h : Orderly fingerprint task call r) :
    (∀ id document,gainOf call r=some (.written id document) →
      recorded task=some id ∧ IsDocument fingerprint id document) ∧
    ∀ id,gainOf call r=some (.finalized id) → recorded task=some id := by
  have hnone : (∀ id document,gainOf call r≠some (.written id document)) →
      (∀ id,gainOf call r≠some (.finalized id)) → (∀ id document,gainOf call r=some (.written id document) →
      recorded task=some id ∧ IsDocument fingerprint id document) ∧
      ∀ id,gainOf call r=some (.finalized id) → recorded task=some id :=
    fun hwritten hfinalized => ⟨fun id document hgain => absurd hgain (hwritten id document),
      fun id hgain => absurd hgain (hfinalized id)⟩
  cases r with
  | error e =>
    cases call with
    | store storeCall => cases storeCall <;> exact hnone (fun _ _ hgain => nomatch hgain) fun _ hgain => nomatch hgain
    | _ => exact hnone (fun _ _ hgain => nomatch hgain) fun _ hgain => nomatch hgain
  | ok a =>
    cases call with
    | store storeCall =>
      cases storeCall with
      | persistArtifact id' artifact =>
        refine ⟨fun id document hgain => ?_,fun _ hgain => nomatch hgain⟩
        cases hgain
        exact h
      | finalizeOutputPersisted id' =>
        refine ⟨fun _ _ hgain => (nomatch hgain),fun id hgain => ?_⟩
        cases hgain
        exact h
      | findCurrent key => cases a <;> exact hnone (fun _ _ hgain => nomatch hgain) fun _ hgain => nomatch hgain
      | _ => exact hnone (fun _ _ hgain => nomatch hgain) fun _ hgain => nomatch hgain
    | blobGet key => cases a <;> exact hnone (fun _ _ hgain => nomatch hgain) fun _ hgain => nomatch hgain
    | _ => exact hnone (fun _ _ hgain => nomatch hgain) fun _ hgain => nomatch hgain

end Watching

section Owning
variable {Command ι : Type} [DecidableEq ι] {fingerprint : Bytes → Digest} {locks : LockMode}
variable {faults : Faults Command} {thread : ThreadId} {tasks : ι → Task} {g : ι → Gathered} {w w' : World}
variable {i : ι} {task' : Task} {call : Call Command} {r : Except PyExc call.Ret}

/-- What all callers gathered, after one of them made a call. -/
abbrev gatheredAfter (g : ι → Gathered) (i : ι) (call : Call Command) (r : Except PyExc call.Ret) : ι → Gathered :=
  Function.update g i (watchGathered call r (g i))

/-- What each caller gathered after the call. -/
theorem gatheredAfter_cases {P : ι → Gathered → Prop} (hself : P i (watchGathered call r (g i)))
    (hother : ∀ k,k≠i → P k (g k)) (k : ι) : P k (gatheredAfter g i call r k) := by
  by_cases hk : k=i
  · subst hk
    rw [gatheredAfter,Function.update_self]
    exact hself
  · rw [gatheredAfter,Function.update_of_ne hk]
    exact hother k hk

/-- Ids that were generated stay so. -/
theorem minted_gatheredAfter {k : ι} {id : ExecutionId} (h : id∈(g k).minted) :
    id∈(gatheredAfter g i call r k).minted := by
  by_cases hk : k=i
  · subst hk
    rw [gatheredAfter,Function.update_self]
    exact mem_watch_minted.mpr (Or.inr h)
  · rwa [gatheredAfter,Function.update_of_ne hk]

/-- A finished run has the documents it had. -/
theorem Owned.finished (h : Owned fingerprint tasks g w) (horderly : Orderly fingerprint (tasks i) call r)
    {id : ExecutionId} {documents : List Artifact} (hf : Finished g id documents) :
    Finished (gatheredAfter g i call r) id documents := by
  obtain ⟨k,hminted,hfinalized,hdocuments⟩ := hf
  refine ⟨k,minted_gatheredAfter hminted,?_⟩
  by_cases hk : k=i
  · subst hk
    rw [gatheredAfter,Function.update_self]
    refine ⟨mem_watch_finalized.mpr (Or.inr hfinalized),?_⟩
    rw [watch_documents fun document hgain => ?_]
    · exact hdocuments
    · exact (h.recording k id ((orderly_gain horderly).1 id document hgain).1).2 hfinalized
  · rw [gatheredAfter,Function.update_of_ne hk]
    exact ⟨hfinalized,hdocuments⟩

/-- An id that is generated is nobody's. -/
theorem Owned.mintedOnce_after (h : Owned fingerprint tasks g w) (hans : Answers locks faults thread call w r w') :
    ∀ j k,∀ id∈(gatheredAfter g i call r j).minted,id∈(gatheredAfter g i call r k).minted → j=k := by
  have hfresh : ∀ id,gainOf call r=some (.minted id) → ∀ k,id∉(g k).minted :=
    fun id hgain k hmem => (answers_gain hans).1 id hgain (h.mintedIn k id hmem)
  have hself : ∀ id,id∈(gatheredAfter g i call r i).minted → gainOf call r=some (.minted id) ∨ id∈(g i).minted := by
    intro id hmem
    rw [gatheredAfter,Function.update_self] at hmem
    exact mem_watch_minted.mp hmem
  have hother : ∀ k,k≠i → ∀ id,id∈(gatheredAfter g i call r k).minted → id∈(g k).minted := by
    intro k hk id hmem
    rwa [gatheredAfter,Function.update_of_ne hk] at hmem
  intro j k id hj hk
  by_cases hji : j=i <;> by_cases hki : k=i
  · rw [hji,hki]
  · rw [hji] at hj ⊢
    rcases hself id hj with hgain | hmem
    · exact absurd (hother k hki id hk) (hfresh id hgain k)
    · exact h.mintedOnce i k id hmem (hother k hki id hk)
  · rw [hki] at hk ⊢
    rcases hself id hk with hgain | hmem
    · exact absurd (hother j hji id hj) (hfresh id hgain j)
    · exact h.mintedOnce j i id (hother j hji id hj) hmem
  · exact h.mintedOnce j k id (hother j hji id hj) (hother k hki id hk)

/-- Every persisted row is of a finished run with its documents, where a run is
finalized with all of its documents. -/
theorem Owned.rows_after (h : Owned fingerprint tasks g w) (hans : Answers locks faults thread call w r w')
    (horderly : Orderly fingerprint (tasks i) call r)
    (hcomplete : ∀ id,gainOf call r=some (.finalized id) → ∀ row∈w.db.executions,row.executionId=id →
      List.Forall₂ IsRowOf ((g i).documents id) (outputRows row.artifacts)) :
    ∀ row∈w'.db.executions,row.outputPersisted=true → ∃ documents,
      Finished (gatheredAfter g i call r) row.executionId documents ∧
        List.Forall₂ IsRowOf documents (outputRows row.artifacts) := by
  intro row' hrow' hpersisted
  cases answers_stems hans horderly row' hrow' with
  | @kept row hrow hdescends =>
    obtain ⟨hbefore,hsame⟩ := hdescends.finalized hpersisted
    obtain ⟨documents,hfinished,hrows⟩ := h.rows row hrow hbefore
    refine ⟨documents,?_,?_⟩
    · rw [hdescends.id]
      exact h.finished horderly hfinished
    · exact forall₂_trans (fun document a b hda hab =>
        ⟨hab.1.trans hda.1,hab.2.1.trans hda.2.1,hab.2.2.trans hda.2.2⟩) hrows hsame.flip
  | saved hid hnot => exact absurd hpersisted (by simp [hnot])
  | @extended row hrow hid hrecorded hsame =>
    obtain ⟨documents,⟨k,hminted,hfinalized,_⟩,_⟩ := h.rows row hrow (hsame ▸ hpersisted)
    obtain ⟨hown,hopen⟩ := h.recording i _ hrecorded
    rw [h.mintedOnce k i _ hminted hown] at hfinalized
    exact absurd hfinalized hopen
  | @finalized row hrow hid hartifacts hgain =>
    obtain ⟨hown,hopen⟩ := h.recording i _ ((orderly_gain horderly).2 _ hgain)
    refine ⟨(g i).documents row.executionId,⟨i,?_,?_,?_⟩,?_⟩
    · rw [hid]
      exact minted_gatheredAfter hown
    · rw [gatheredAfter,Function.update_self,hid]
      exact mem_watch_finalized.mpr (Or.inl hgain)
    · rw [gatheredAfter,Function.update_self,hid]
      refine watch_documents fun document hwritten => ?_
      rw [hgain] at hwritten
      exact nomatch hwritten
    · rw [hartifacts]
      exact hcomplete _ hgain row hrow rfl

/-- A call in order keeps what callers hold of their own runs. -/
theorem Owned.step (h : Owned fingerprint tasks g w) (hans : Answers locks faults thread call w r w')
    (horderly : Orderly fingerprint (tasks i) call r) (hdocuments : TaskDocuments fingerprint task')
    (hunlisted : listed task'=[])
    (hrecorded : ∀ id,recorded task'=some id →
      gainOf call r=some (.minted id) ∨ (recorded (tasks i)=some id ∧ gainOf call r≠some (.finalized id)))
    (hcomplete : ∀ id,gainOf call r=some (.finalized id) → ∀ row∈w.db.executions,row.executionId=id →
      List.Forall₂ IsRowOf ((g i).documents id) (outputRows row.artifacts)) :
    Owned fingerprint (Function.update tasks i task') (gatheredAfter g i call r) w' := by
  obtain ⟨hfresh,hminted,hread,hloaded⟩ := answers_gain hans
  have htasks : ∀ {P : ι → Task → Prop},P i task' → (∀ k,k≠i → P k (tasks k)) → ∀ k,P k (Function.update tasks i task' k) := by
    intro P hself hother k
    by_cases hk : k=i
    · subst hk
      rwa [Function.update_self]
    · rw [Function.update_of_ne hk]
      exact hother k hk
  refine
    { addressed := answers_addressed hans horderly h.addressed
      mintedIn := ?_
      mintedOnce := h.mintedOnce_after hans
      documents := htasks (P := fun _ task => TaskDocuments fingerprint task) hdocuments fun k _ => h.documents k
      unlisted := htasks (P := fun _ task => listed task=[]) hunlisted fun k _ => h.unlisted k
      recording := ?_
      finalizedIn := ?_
      written := ?_
      got := ?_
      rows := h.rows_after hans horderly hcomplete
      loaded := ?_ }
  · intro k
    refine gatheredAfter_cases (P := fun _ g' => ∀ id∈g'.minted,id∈w'.minted) (fun id hmem => ?_) (fun k _ id hmem => ?_) k
    · rcases mem_watch_minted.mp hmem with hgain | hmem
      · exact (hminted id).mpr (Or.inr hgain)
      · exact (hminted id).mpr (Or.inl (h.mintedIn i id hmem))
    · exact (hminted id).mpr (Or.inl (h.mintedIn k id hmem))
  · intro k id hid
    by_cases hk : k=i
    · subst hk
      rw [Function.update_self] at hid
      rw [gatheredAfter,Function.update_self,mem_watch_minted,mem_watch_finalized]
      rcases hrecorded id hid with hgain | ⟨hbefore,hnot⟩
      · refine ⟨Or.inl hgain,fun hfinal => ?_⟩
        rcases hfinal with hfinal | hfinal
        · rw [hgain] at hfinal
          exact nomatch hfinal
        · exact hfresh id hgain (h.mintedIn k id (h.finalizedIn k id hfinal))
      · obtain ⟨hown,hopen⟩ := h.recording k id hbefore
        exact ⟨Or.inr hown,fun hfinal => hfinal.elim hnot hopen⟩
    · rw [Function.update_of_ne hk] at hid
      rw [gatheredAfter,Function.update_of_ne hk]
      exact h.recording k id hid
  · intro k
    refine gatheredAfter_cases (P := fun _ g' => ∀ id∈g'.finalized,id∈g'.minted) (fun id hmem => ?_)
      (fun k _ => h.finalizedIn k) k
    refine mem_watch_minted.mpr (Or.inr ?_)
    rcases mem_watch_finalized.mp hmem with hgain | hmem
    · exact (h.recording i id ((orderly_gain horderly).2 id hgain)).1
    · exact h.finalizedIn i id hmem
  · intro k
    refine gatheredAfter_cases (P := fun _ g' => ∀ entry∈g'.written,
      entry.1∈g'.minted ∧ IsDocument fingerprint entry.1 entry.2) (fun entry hmem => ?_) (fun k _ => h.written k) k
    rcases mem_watch_written.mp hmem with hgain | hmem
    · obtain ⟨hown,hdocument⟩ := (orderly_gain horderly).1 _ _ hgain
      exact ⟨mem_watch_minted.mpr (Or.inr (h.recording i _ hown).1),hdocument⟩
    · exact ⟨mem_watch_minted.mpr (Or.inr (h.written i entry hmem).1),(h.written i entry hmem).2⟩
  · intro k
    refine gatheredAfter_cases (P := fun _ g' => ∀ entry∈g'.got,Addressed fingerprint entry.1 entry.2)
      (fun entry hmem => ?_) (fun k _ => h.got k) k
    rcases mem_watch_got.mp hmem with hgain | hmem
    · exact h.addressed _ _ (hread _ _ hgain)
    · exact h.got i entry hmem
  · intro k
    have hkeep : ∀ e : MlExecution,(∃ documents,Finished g e.executionId documents ∧
        List.Forall₂ IsLoadedOf documents (outputs e)) → ∃ documents,
        Finished (gatheredAfter g i call r) e.executionId documents ∧ List.Forall₂ IsLoadedOf documents (outputs e) := by
      intro e hbefore
      obtain ⟨documents,hfinished,hrows⟩ := hbefore
      exact ⟨documents,h.finished horderly hfinished,hrows⟩
    refine gatheredAfter_cases (P := fun _ g' => ∀ e∈g'.loaded,∃ documents,
      Finished (gatheredAfter g i call r) e.executionId documents ∧ List.Forall₂ IsLoadedOf documents (outputs e))
      (fun e hmem => hkeep e ?_) (fun k _ e hmem => hkeep e (h.loaded k e hmem)) k
    rcases mem_watch_loaded.mp hmem with hgain | hmem
    · obtain ⟨key,hfind⟩ := hloaded e hgain
      exact h.found hfind
    · exact h.loaded i e hmem

end Owning

end GenericMlCache.OwnedDocuments
