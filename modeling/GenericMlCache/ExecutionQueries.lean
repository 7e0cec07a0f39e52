import GenericMlCache.ExecutionRepository
import Mathlib.Data.List.Lex

/-!
# Queries of the execution repository

Reconstruction of executions from their rows, and the reports that purge,
eviction and repair read. A row whose stored text does not decode raises
StoreCorrupt; every row the repository itself writes decodes.
-/

namespace GenericMlCache.ExecutionQueries

open PythonText ExecutionModel SqliteStore ExecutionRepository

/-- The order of texts is transitive. -/
instance textTrans : IsTrans PyStr (· ≤ ·) := inferInstance

/-- It is antisymmetric. -/
instance textAntisymm : Std.Antisymm fun a b : PyStr => a ≤ b := inferInstance

/-- It is total. -/
instance textTotal : Std.Total fun a b : PyStr => a ≤ b := inferInstance

/-- One artifact of `_load_artifacts`, without its content. -/
def loadArtifact (a : ArtifactRow) : Except PyStr Artifact := do
  let artifactType ← a.artifactType.decode
  let blobKey ← a.blobKey.decode
  let status ← a.status.decode
  return { artifactType := artifactType, blobKey := blobKey, sizeBytes := a.sizeBytes, name := a.name,
           encoding := a.encoding, content := none, status := status, persistedAt := a.persistedAt,
           statusDetail := a.statusDetail }

/-- `_load_artifacts`. -/
def loadArtifacts (row : ExecutionRow) : Except PyExc (List Artifact) :=
  match row.artifacts.mapM loadArtifact with
  | .ok artifacts => .ok artifacts
  | .error detail => .error (.storeCorrupt (pyStr "corrupt artifact row for execution " ++
      pyStr (toString row.id) ++ pyStr ": " ++ detail))

/-- `_load_identity`; a missing row cannot be unpacked. -/
def loadIdentity (db : Db) (key : ExecutionKey) : Except PyStr CallIdentity :=
  match db.callIdentities.find? fun i => decide (i.executionKey=key) with
  | none => .error (pyStr "cannot unpack non-iterable NoneType object")
  | some i => i.identity.decode

/-- `_load_token_usage`. -/
def loadTokenUsage : Option UsageRow → Except PyStr (Option TokenUsage)
  | none => .ok none
  | some row => do
    let raw ← row.rawJson.decode
    return some { inputTokens := row.inputTokens, outputTokens := row.outputTokens,
                  cacheReadTokens := row.cacheReadTokens, cacheWriteTokens := row.cacheWriteTokens,
                  reasoningTokens := row.reasoningTokens, costUsd := row.costUsd, raw := raw }

/-- The failure of a row: none without a reason. -/
def loadFailure (row : ExecutionRow) : Except PyStr (Option ExecutionFailure) :=
  match row.failureReason with
  | none => .ok none
  | some reason => do
    let reason ← reason.decode
    return some { reason := reason, message := row.failureMessage.getD [],
                  exitCode := row.failureExitCode }

/-- The supersession stamp of a row. -/
def loadSupersededAt (row : ExecutionRow) : Except PyStr (Option Timestamp) :=
  match row.supersededAt with
  | none => .ok none
  | some stamp => do
    let stamp ← stamp.decode
    return some stamp

/-- The execution of a row whose artifacts are loaded. -/
def loadColumns (db : Db) (row : ExecutionRow) (artifacts : List Artifact) :
    Except PyStr MlExecution := do
  let callIdentity ← loadIdentity db row.executionKey
  let executionState ← row.state.decode
  let executionKind ← row.kind.decode
  let tokenUsage ← loadTokenUsage row.tokenUsage
  let failure ← loadFailure row
  let supersededAt ← loadSupersededAt row
  return { callIdentity := callIdentity, executionState := executionState, executionKind := executionKind,
           outputPersisted := row.outputPersisted, executionId := row.executionId,
           inputPersisted := artifacts.any fun a => a.artifactType.isInput,
           artifacts := artifacts, tokenUsage := tokenUsage, failure := failure,
           supersededAt := supersededAt }

/-- `_load_execution`. -/
def loadExecution (db : Db) (row : ExecutionRow) : Except PyExc MlExecution := do
  let artifacts ← loadArtifacts row
  match loadColumns db row artifacts with
  | .ok execution => return execution
  | .error detail => .error (.storeCorrupt (pyStr "corrupt execution row for key " ++
      pyStr (toString row.executionKey.digest) ++ pyStr ": " ++ detail))

/-- `find_current`. -/
def findCurrent (key : ExecutionKey) (db : Db) : Except PyExc (Option MlExecution) :=
  match db.currentRow key with
  | none => .ok none
  | some row => do
    let execution ← loadExecution db row
    return some execution

/-- `find_all`. -/
def findAll (key : ExecutionKey) (db : Db) : Except PyExc (List MlExecution) :=
  (db.executions.filter (hasKey key)).mapM (loadExecution db)

/-- The results of a successful traversal correspond to its inputs, in order. -/
theorem forall₂_of_mapM {ε α β : Type} {f : α → Except ε β} {as : List α} {bs : List β}
    (h : as.mapM f=.ok bs) : List.Forall₂ (fun a b => f a=.ok b) as bs := by
  induction as generalizing bs with
  | nil =>
    cases Except.ok.inj h
    exact .nil
  | cons a as ih =>
    rw [List.mapM_cons] at h
    obtain ⟨b,hb,h⟩ := ok_of_bind h
    obtain ⟨bs',hbs,h⟩ := ok_of_bind h
    cases Except.ok.inj h
    exact .cons hb (ih hbs)

/-- Corresponding lists have corresponding members on both sides. -/
theorem mem_of_forall₂ {α β : Type} {R : α → β → Prop} {as : List α} {bs : List β}
    (h : List.Forall₂ R as bs) : (∀ b∈bs,∃ a∈as,R a b) ∧ ∀ a∈as,∃ b∈bs,R a b := by
  induction h with
  | nil => simp
  | cons hd _ ih =>
    simp only [List.mem_cons,exists_eq_or_imp,forall_eq_or_imp]
    exact ⟨⟨Or.inl hd,fun b hb => Or.inr (ih.1 b hb)⟩,⟨Or.inl hd,fun a ha => Or.inr (ih.2 a ha)⟩⟩

/-- A traversal whose every element succeeds succeeds. -/
theorem mapM_total {ε α β : Type} {f : α → Except ε β} {as : List α}
    (h : ∀ a∈as,∃ b,f a=.ok b) : ∃ bs,as.mapM f=.ok bs := by
  induction as with
  | nil => exact ⟨[],rfl⟩
  | cons a as ih =>
    obtain ⟨b,hb⟩ := h a List.mem_cons_self
    obtain ⟨bs,hbs⟩ := ih fun a' ha' => h a' (List.mem_cons_of_mem _ ha')
    exact ⟨b::bs,by rw [List.mapM_cons,hb,hbs]; rfl⟩

/-- A loaded artifact is dehydrated, and inserting it gives the row back. -/
theorem loadArtifact_ok {a : ArtifactRow} {artifact : Artifact} (h : loadArtifact a=.ok artifact) :
    a=artifactRow artifact ∧ artifact.content=none := by
  obtain ⟨artifactType,name,encoding,blobKey,sizeBytes,status,persistedAt,statusDetail⟩ := a
  obtain ⟨t,ht,h⟩ := ok_of_bind h
  obtain ⟨k,hk,h⟩ := ok_of_bind h
  obtain ⟨s,hs,h⟩ := ok_of_bind h
  cases artifactType <;> cases ht
  cases blobKey <;> cases hk
  cases status <;> cases hs
  cases Except.ok.inj h
  exact ⟨rfl,rfl⟩

/-- An inserted artifact loads as itself without its content. -/
@[simp] theorem loadArtifact_artifactRow (artifact : Artifact) :
    loadArtifact (artifactRow artifact)=.ok { artifact with content := none } := rfl

/-- The rows of loaded artifacts are the rows they were loaded from. -/
theorem loadArtifacts_ok {row : ExecutionRow} {artifacts : List Artifact}
    (h : loadArtifacts row=.ok artifacts) :
    row.artifacts=artifacts.map artifactRow ∧ ∀ a∈artifacts,a.content=none := by
  unfold loadArtifacts at h
  split at h
  next loaded hl =>
    cases Except.ok.inj h
    have hall := forall₂_of_mapM hl
    clear hl h
    generalize row.artifacts=rows at hall
    induction hall with
    | nil => exact ⟨rfl,fun _ h => nomatch h⟩
    | cons hd _ ih =>
      obtain ⟨rfl,hcontent⟩ := loadArtifact_ok hd
      refine ⟨by rw [ih.1]; rfl,fun a ha => ?_⟩
      rcases List.mem_cons.mp ha with rfl | ha
      · exact hcontent
      · exact ih.2 a ha
  next => exact nomatch h

/-- A loaded execution carries its row's id, and its artifacts are the row's. -/
theorem loadExecution_ok {db : Db} {row : ExecutionRow} {execution : MlExecution}
    (h : loadExecution db row=.ok execution) :
    execution.executionId=row.executionId ∧ row.artifacts=execution.artifacts.map artifactRow ∧
      (∀ a∈execution.artifacts,a.content=none) ∧
      execution.inputPersisted=execution.artifacts.any (fun a => a.artifactType.isInput) := by
  obtain ⟨artifacts,ha,h⟩ := ok_of_bind h
  obtain ⟨hrows,hcontent⟩ := loadArtifacts_ok ha
  split at h
  next loaded hl =>
    cases Except.ok.inj h
    obtain ⟨_,_,hl⟩ := ok_of_bind hl
    obtain ⟨_,_,hl⟩ := ok_of_bind hl
    obtain ⟨_,_,hl⟩ := ok_of_bind hl
    obtain ⟨_,_,hl⟩ := ok_of_bind hl
    obtain ⟨_,_,hl⟩ := ok_of_bind hl
    obtain ⟨_,_,hl⟩ := ok_of_bind hl
    cases Except.ok.inj hl
    exact ⟨rfl,hrows,hcontent,rfl⟩
  next => exact nomatch h

/-- A loaded execution is in the state of its row. -/
theorem loadExecution_state {db : Db} {row : ExecutionRow} {execution : MlExecution} {state : ExecutionState}
    (h : loadExecution db row=.ok execution) (hstate : row.state=.value state) : execution.executionState=state := by
  obtain ⟨artifacts,_,h⟩ := ok_of_bind h
  split at h
  next loaded hl =>
    cases Except.ok.inj h
    obtain ⟨_,_,hl⟩ := ok_of_bind hl
    obtain ⟨loadedState,hdecode,hl⟩ := ok_of_bind hl
    obtain ⟨_,_,hl⟩ := ok_of_bind hl
    obtain ⟨_,_,hl⟩ := ok_of_bind hl
    obtain ⟨_,_,hl⟩ := ok_of_bind hl
    obtain ⟨_,_,hl⟩ := ok_of_bind hl
    cases Except.ok.inj hl
    rw [hstate] at hdecode
    exact (Except.ok.inj hdecode).symm
  next => exact nomatch h

/-- A loaded execution carries the usage that its row loads as. -/
theorem loadExecution_tokenUsage {db : Db} {row : ExecutionRow} {execution : MlExecution}
    (h : loadExecution db row=.ok execution) : loadTokenUsage row.tokenUsage=.ok execution.tokenUsage := by
  obtain ⟨artifacts,_,h⟩ := ok_of_bind h
  split at h
  next loaded hl =>
    cases Except.ok.inj h
    obtain ⟨_,_,hl⟩ := ok_of_bind hl
    obtain ⟨_,_,hl⟩ := ok_of_bind hl
    obtain ⟨_,_,hl⟩ := ok_of_bind hl
    obtain ⟨usage,husage,hl⟩ := ok_of_bind hl
    obtain ⟨_,_,hl⟩ := ok_of_bind hl
    obtain ⟨_,_,hl⟩ := ok_of_bind hl
    cases Except.ok.inj hl
    exact husage
  next => exact nomatch h

/-- A found current execution is loaded from the key's current row. -/
theorem findCurrent_some {db : Db} {key : ExecutionKey} {execution : MlExecution}
    (h : findCurrent key db=.ok (some execution)) :
    ∃ row,db.currentRow key=some row ∧ loadExecution db row=.ok execution := by
  unfold findCurrent at h
  split at h
  next => exact nomatch h
  next row hrow =>
    obtain ⟨loaded,hl,h⟩ := ok_of_bind h
    cases Except.ok.inj h
    exact ⟨row,hrow,hl⟩

/-- The column holds a text of its vocabulary. -/
def Column.isValue {α : Type} : Column α → Bool
  | .value _ => true
  | .malformed _ => false

/-- A well-formed column decodes. -/
theorem Column.decode_of_isValue {α : Type} {c : Column α} (h : Column.isValue c=true) :
    ∃ a,c.decode=.ok a := by
  cases c with
  | value a => exact ⟨a,rfl⟩
  | malformed text => exact nomatch h

/-- An artifact row that decodes. -/
def ArtifactRow.wellFormed (a : ArtifactRow) : Bool :=
  Column.isValue a.artifactType && Column.isValue a.blobKey && Column.isValue a.status

/-- Columns and child rows that decode. -/
def MutableColumns.wellFormed (c : MutableColumns) : Bool :=
  Column.isValue c.state && c.supersededAt.all Column.isValue &&
    c.failureReason.all Column.isValue && c.artifacts.all ArtifactRow.wellFormed &&
    c.tokenUsage.all fun u => Column.isValue u.rawJson

/-- Every row of the database can be reconstructed. -/
structure WellFormed (db : Db) : Prop where
  /-- The columns that an UPDATE may change decode. -/
  columns : ∀ row∈db.executions,MutableColumns.wellFormed row.toMutableColumns=true
  /-- So does every kind. -/
  kinds : ∀ row∈db.executions,Column.isValue row.kind=true
  /-- Every execution's key has its identity row. -/
  identified : ∀ row∈db.executions,∃ i∈db.callIdentities,i.executionKey=row.executionKey
  /-- Every identity decodes. -/
  identities : ∀ i∈db.callIdentities,Column.isValue i.identity=true

/-- A new store is well formed. -/
theorem WellFormed.empty : WellFormed Db.empty := by
  constructor <;> exact fun _ h => nomatch h

@[simp] theorem wellFormed_artifactRow (artifact : Artifact) :
    ArtifactRow.wellFormed (artifactRow artifact)=true := rfl

/-- The identity of a well-formed database's row loads. -/
theorem loadIdentity_total {db : Db} {row : ExecutionRow} (h : WellFormed db)
    (hmem : row∈db.executions) : ∃ identity,loadIdentity db row.executionKey=.ok identity := by
  obtain ⟨i,hi,hk⟩ := h.identified row hmem
  unfold loadIdentity
  cases hf : db.callIdentities.find? fun i' => decide (i'.executionKey=row.executionKey) with
  | none =>
    have := List.find?_eq_none.mp hf i hi
    simp [hk] at this
  | some i' => exact Column.decode_of_isValue (h.identities i' (List.mem_of_find?_eq_some hf))

/-- Well-formed artifact rows load. -/
theorem loadArtifacts_total {row : ExecutionRow}
    (h : row.artifacts.all ArtifactRow.wellFormed=true) :
    ∃ artifacts,loadArtifacts row=.ok artifacts := by
  have hone : ∀ a∈row.artifacts,∃ artifact,loadArtifact a=.ok artifact := by
    intro a ha
    have hwa := List.all_eq_true.mp h a ha
    simp only [ArtifactRow.wellFormed,Bool.and_eq_true] at hwa
    obtain ⟨t,ht⟩ := Column.decode_of_isValue hwa.1.1
    obtain ⟨k,hk⟩ := Column.decode_of_isValue hwa.1.2
    obtain ⟨s,hs⟩ := Column.decode_of_isValue hwa.2
    exact ⟨_,by simp only [loadArtifact,ht,hk,hs]; rfl⟩
  obtain ⟨artifacts,ha⟩ := mapM_total hone
  exact ⟨artifacts,by simp only [loadArtifacts,ha]⟩

/-- A well-formed usage row loads. -/
theorem loadTokenUsage_total {usage : Option UsageRow}
    (h : usage.all (fun u => Column.isValue u.rawJson)=true) :
    ∃ loaded,loadTokenUsage usage=.ok loaded := by
  cases usage with
  | none => exact ⟨none,rfl⟩
  | some u =>
    obtain ⟨raw,hraw⟩ := Column.decode_of_isValue (by simpa using h)
    exact ⟨_,by simp only [loadTokenUsage,hraw]; rfl⟩

/-- A well-formed failure reason loads. -/
theorem loadFailure_total {row : ExecutionRow}
    (h : row.failureReason.all Column.isValue=true) : ∃ failure,loadFailure row=.ok failure := by
  unfold loadFailure
  cases hr : row.failureReason with
  | none => exact ⟨none,rfl⟩
  | some reason =>
    rw [hr] at h
    obtain ⟨reason',hreason⟩ := Column.decode_of_isValue (by simpa using h)
    exact ⟨_,by simp only [hreason]; rfl⟩

/-- A well-formed supersession stamp loads. -/
theorem loadSupersededAt_total {row : ExecutionRow}
    (h : row.supersededAt.all Column.isValue=true) : ∃ stamp,loadSupersededAt row=.ok stamp := by
  unfold loadSupersededAt
  cases hr : row.supersededAt with
  | none => exact ⟨none,rfl⟩
  | some stamp =>
    rw [hr] at h
    obtain ⟨stamp',hstamp⟩ := Column.decode_of_isValue (by simpa using h)
    exact ⟨_,by simp only [hstamp]; rfl⟩

/-- A row that is well formed loads. -/
theorem loadExecution_total {db : Db} {row : ExecutionRow} (h : WellFormed db)
    (hmem : row∈db.executions) : ∃ execution,loadExecution db row=.ok execution := by
  have hwf := h.columns row hmem
  simp only [MutableColumns.wellFormed,Bool.and_eq_true] at hwf
  obtain ⟨⟨⟨⟨hstate,hsup⟩,hfail⟩,hart⟩,husage⟩ := hwf
  obtain ⟨artifacts,ha⟩ := loadArtifacts_total hart
  obtain ⟨identity,hi⟩ := loadIdentity_total h hmem
  obtain ⟨state,hst⟩ := Column.decode_of_isValue hstate
  obtain ⟨kind,hk⟩ := Column.decode_of_isValue (h.kinds row hmem)
  obtain ⟨usage,hu⟩ := loadTokenUsage_total husage
  obtain ⟨failure,hf⟩ := loadFailure_total hfail
  obtain ⟨stamp,hs⟩ := loadSupersededAt_total hsup
  exact ⟨_,by simp only [loadExecution,ha,loadColumns,hi,hst,hk,hu,hf,hs]; rfl⟩

/-- In a well-formed database the current execution is found. -/
theorem findCurrent_of_row {db : Db} {key : ExecutionKey} {row : ExecutionRow} (h : WellFormed db)
    (hrow : db.currentRow key=some row) :
    ∃ execution,loadExecution db row=.ok execution ∧ findCurrent key db=.ok (some execution) := by
  obtain ⟨execution,hl⟩ := loadExecution_total h (Db.currentRow_mem hrow).1
  refine ⟨execution,hl,?_⟩
  simp only [findCurrent,hrow,hl]
  rfl

/-- A key without a current row has no current execution. -/
theorem findCurrent_of_none {db : Db} {key : ExecutionKey} (h : db.currentRow key=none) :
    findCurrent key db=.ok none := by
  simp only [findCurrent,h]

/-- One entry of `runs_awaiting_persistence`. -/
structure UnpersistedRun where
  /-- The key of the run. -/
  executionKey : ExecutionKey
  /-- The run. -/
  executionId : ExecutionId
  /-- The blobs not known to be stored. -/
  blobKeys : List BlobKey
deriving DecidableEq

/-- The row is the latest of its key. -/
def isLatest (db : Db) (row : ExecutionRow) : Bool :=
  db.executions.all fun r => decide (r.executionKey≠row.executionKey) || decide (r.id ≤ row.id)

/-- The WHERE clause of `runs_awaiting_persistence`. -/
def isAwaiting (db : Db) (row : ExecutionRow) : Bool :=
  !row.outputPersisted && row.artifacts.any notStored && isLatest db row

/-- The entry of one awaiting row: its un-stored keys, each once. -/
def unpersistedRun (row : ExecutionRow) : Except PyExc UnpersistedRun :=
  match (row.artifacts.filter notStored).mapM fun a => a.blobKey.decode with
  | .ok blobKeys => .ok ⟨row.executionKey,row.executionId,blobKeys.eraseDups⟩
  | .error detail => .error (.other true detail)

/-- `runs_awaiting_persistence`, in key order. A key has one latest row. -/
def runsAwaitingPersistence (db : Db) : Except PyExc (List UnpersistedRun) :=
  ((db.executions.filter (isAwaiting db)).insertionSort fun r r' =>
    r.executionKey.digest ≤ r'.executionKey.digest).mapM unpersistedRun

/-- One entry of `current_executions_with_sizes`. -/
structure ExecutionSizeEntry where
  /-- The key of the current execution. -/
  executionKey : ExecutionKey
  /-- The sizes of its artifacts together. -/
  totalSizeBytes : ℕ
  /-- When it was inserted. -/
  createdAt : Timestamp
deriving DecidableEq

/-- The servable rows, in id order. -/
def currentRows (db : Db) : List ExecutionRow := db.executions.filter fun row => row.servable

/-- The sizes of a row's artifacts together. -/
def artifactBytes (row : ExecutionRow) : ℕ := (row.artifacts.map (·.sizeBytes.summed)).sum

/-- `total_stored_bytes`. -/
def totalStoredBytes (db : Db) : ℕ := ((currentRows db).map artifactBytes).sum

/-- `current_executions_with_sizes`: grouped by key and creation time. -/
def currentExecutionsWithSizes (db : Db) : List ExecutionSizeEntry :=
  ((currentRows db).map fun row => (row.executionKey,row.createdAt)).eraseDups.map fun group =>
    ⟨group.1,(((currentRows db).filter fun row =>
      decide ((row.executionKey,row.createdAt)=group)).map artifactBytes).sum,group.2⟩

/-- `executions_by_tag`. -/
def executionsByTag (tag : PyStr) (db : Db) : List ExecutionKey :=
  ((currentRows db).filter fun row => decide (tag∈row.tags)).map (·.executionKey) |>.eraseDups

/-- `all_execution_keys`. -/
def allExecutionKeys (db : Db) : List ExecutionKey :=
  (db.callIdentities.map (·.executionKey)).insertionSort fun k k' => k.digest ≤ k'.digest

/-- `tags_for`: `ORDER BY tag`, which for UTF-8 is the order of the code points. -/
def tagsFor (key : ExecutionKey) (db : Db) : List PyStr :=
  match db.currentRow key with
  | none => []
  | some row => row.tags.insertionSort (· ≤ ·)

/-- `blob_keys_for_execution`; a malformed key raises ValueError. -/
def blobKeysForExecution (key : ExecutionKey) (db : Db) : Except PyStr (List BlobKey) :=
  (((db.executions.filter (hasKey key)).flatMap (·.artifacts)).map (·.blobKey)).eraseDups.mapM Column.decode

/-- An awaiting row, clause by clause. -/
theorem isAwaiting_iff {db : Db} {row : ExecutionRow} :
    isAwaiting db row=true ↔ row.outputPersisted=false ∧
      (∃ a∈row.artifacts,a.status≠.value .stored) ∧
      ∀ r∈db.executions,r.executionKey=row.executionKey → r.id ≤ row.id := by
  simp [isAwaiting,isLatest,notStored,and_assoc,or_iff_not_imp_left]

/-- The blob keys listed for a row are those of its un-stored artifacts. -/
theorem unpersistedRun_ok {row : ExecutionRow} {run : UnpersistedRun}
    (h : unpersistedRun row=.ok run) :
    run.executionKey=row.executionKey ∧ run.executionId=row.executionId ∧
      ∀ k,k∈run.blobKeys ↔ ∃ a∈row.artifacts,a.status≠.value .stored ∧ a.blobKey=.value k := by
  unfold unpersistedRun at h
  split at h
  next keys hkeys =>
    cases Except.ok.inj h
    refine ⟨rfl,rfl,fun k => ?_⟩
    have hall := forall₂_of_mapM hkeys
    have hmem : k∈keys ↔ ∃ a∈row.artifacts.filter notStored,a.blobKey=.value k := by
      clear h hkeys
      generalize row.artifacts.filter notStored=rows at hall
      induction hall with
      | nil => simp
      | cons hd _ ih =>
        rename_i a b as bs _
        have hb : a.blobKey=.value b := by
          cases hc : a.blobKey with
          | value b' =>
            rw [hc] at hd
            rw [Except.ok.inj hd]
          | malformed text =>
            rw [hc] at hd
            exact nomatch hd
        simp only [List.mem_cons,exists_eq_or_imp,hb,Column.value.injEq,ih,eq_comm (a := k)]
    simp only [List.mem_eraseDups,hmem,List.mem_filter,notStored,decide_eq_true_eq,and_assoc]
  next => exact nomatch h

/-- The runs listed for repair are the awaiting rows. -/
theorem runsAwaitingPersistence_ok {db : Db} {runs : List UnpersistedRun}
    (h : runsAwaitingPersistence db=.ok runs) :
    (∀ run∈runs,∃ row∈db.executions,isAwaiting db row=true ∧ unpersistedRun row=.ok run) ∧
      ∀ row∈db.executions,isAwaiting db row=true → ∃ run∈runs,unpersistedRun row=.ok run := by
  obtain ⟨hlisted,hall⟩ := mem_of_forall₂ (forall₂_of_mapM h)
  constructor
  · intro run hrun
    obtain ⟨row,hrow,hu⟩ := hlisted run hrun
    have hmem := List.mem_filter.mp ((List.mem_insertionSort _).mp hrow)
    exact ⟨row,hmem.1,hmem.2,hu⟩
  · intro row hrow haw
    exact hall row ((List.mem_insertionSort _).mpr (List.mem_filter.mpr ⟨hrow,haw⟩))

end GenericMlCache.ExecutionQueries
