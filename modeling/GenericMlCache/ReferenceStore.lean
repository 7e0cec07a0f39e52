import GenericMlCache.RepositoryCalls
import GenericMlCache.OrderedDict
import Mathlib.Data.Finset.Sort

/-!
# The in-memory reference store

The ephemeral repository: histories of executions in a dictionary by key, changed in
place, with the tags of each execution beside them. Every method is written down as
its source has it, over the same calls as the transactions of the SQLite store.
-/

namespace GenericMlCache.ReferenceStore

open PythonText ExecutionModel SqliteStore ExecutionRepository ExecutionQueries RepositoryCalls OrderedDict

/-- The in-memory store. -/
structure Memory where
  /-- `_by_key`: the executions of each key, oldest first. -/
  byKey : Dict ExecutionKey (List MlExecution)
  /-- `_tags_by_execution_id`, read with the empty set as default. -/
  tagsByExecutionId : ExecutionId → Finset PyStr

/-- A new store. -/
def Memory.empty : Memory := ⟨.empty,fun _ => ∅⟩

/-- `_by_key.get(execution_key,[])`. -/
def Memory.history (m : Memory) (key : ExecutionKey) : List MlExecution := (m.byKey.get? key).getD []

/-- Every execution, key by key. -/
def Memory.executions (m : Memory) : List MlExecution := m.byKey.items.flatMap Prod.snd

/-- `_dehydrate`. -/
def dehydrate (execution : MlExecution) : MlExecution :=
  { execution with artifacts := execution.artifacts.map fun a => { a with content := none } }

/-- `execution.execution_id == execution_id`. -/
def isExecution (executionId : ExecutionId) (execution : MlExecution) : Bool :=
  decide (execution.executionId=executionId)

/-- `_locate_by_id`: the first execution under the id, with its key. -/
def Memory.locate (m : Memory) (executionId : ExecutionId) : Option (ExecutionKey × MlExecution) :=
  m.byKey.items.findSome? fun item =>
    (item.2.find? (isExecution executionId)).map fun execution => (item.1,execution)

/-- `_require_by_id`. -/
def Memory.require (m : Memory) (executionId : ExecutionId) : Except PyExc (ExecutionKey × MlExecution) :=
  match m.locate executionId with
  | none => .error (.storeConsistency (.noExecutionRow executionId))
  | some located => .ok located

/-- An attribute of the first execution under the id is changed. -/
def changeFirst (executionId : ExecutionId) (f : MlExecution → MlExecution) :
    List MlExecution → List MlExecution
  | [] => []
  | execution::rest =>
    if isExecution executionId execution=true then f execution::rest
    else execution::changeFirst executionId f rest

/-- The located execution is changed in place. -/
def Memory.change (m : Memory) (key : ExecutionKey) (executionId : ExecutionId)
    (f : MlExecution → MlExecution) : Memory :=
  { m with byKey := m.byKey.set key (changeFirst executionId f (m.history key)) }

/-- The stamp that takes a servable execution out of currency. -/
def supersede (now : Timestamp) (prior : MlExecution) : MlExecution :=
  if isServable prior=true then { prior with supersededAt := some now } else prior

/-- `save`. -/
def Memory.save (execution : MlExecution) (now : Timestamp) (m : Memory) : Memory :=
  let key := execution.callIdentity.generateKey
  let stored := dehydrate execution
  let history := m.history key
  let history := if isServable stored=true then history.map (supersede now) else history
  { m with byKey := m.byKey.set key (history ++ [stored]) }

/-- `record_outcome`. -/
def Memory.recordOutcome (execution : MlExecution) (m : Memory) : Except PyExc Memory := do
  let (key,_) ← m.require execution.executionId
  return m.change key execution.executionId fun stored =>
    { stored with
      executionState := execution.executionState
      failure := execution.failure
      tokenUsage := execution.tokenUsage }

/-- `persist_artifact`. -/
def Memory.persistArtifact (executionId : ExecutionId) (artifact : Artifact) (m : Memory) :
    Except PyExc Memory := do
  let (key,_) ← m.require executionId
  return m.change key executionId fun stored =>
    { stored with artifacts := stored.artifacts ++ [{ artifact with content := none }] }

/-- `_resolve_artifacts`: the artifacts under the blob key are resolved. -/
def resolveArtifacts (blobKey : BlobKey) (resolve : Artifact → Artifact) (execution : MlExecution) :
    MlExecution :=
  { execution with artifacts := execution.artifacts.map fun a =>
      if a.blobKey=blobKey then resolve a else a }

/-- A mark resolves the artifacts of the located execution, and raises where none matched
(`_require_artifact_update`). -/
def Memory.markArtifacts (executionId : ExecutionId) (blobKey : BlobKey) (resolve : Artifact → Artifact)
    (m : Memory) : Except PyExc Memory := do
  let (key,execution) ← m.require executionId
  if execution.artifacts.countP (fun a => decide (a.blobKey=blobKey))=0 then
    .error (.storeConsistency (.noArtifactRow executionId blobKey))
  else return m.change key executionId (resolveArtifacts blobKey resolve)

/-- What `mark_artifacts_stored` makes of an artifact. -/
def resolveStored (now : Timestamp) (a : Artifact) : Artifact :=
  { a with status := .stored, persistedAt := some now, statusDetail := none }

/-- What `mark_artifacts_failed` makes of an artifact; its time of persistence stays. -/
def resolveFailed (detail : PyStr) (a : Artifact) : Artifact :=
  { a with status := .failed, statusDetail := some detail }

/-- `finalize_output_persisted`: the servable executions of the key are superseded before
this one is promoted. -/
def Memory.finalizeOutputPersisted (executionId : ExecutionId) (now : Timestamp) (m : Memory) :
    Except PyExc Memory := do
  let (key,execution) ← m.require executionId
  let unfinished := execution.artifacts.countP fun a => decide (a.status≠.stored)
  if unfinished≠0 then
    .error (.storeConsistency (.finalizeNotStored executionId unfinished))
  else
    let m := if execution.executionState=.success then
      { m with byKey := m.byKey.set key ((m.history key).map (supersede now)) } else m
    return m.change key executionId fun stored => { stored with outputPersisted := true }

/-- `remove_execution`. The first execution equal to the located one is that one, since
equality of executions compares their ids. -/
def Memory.removeExecution (executionId : ExecutionId) (m : Memory) : Memory :=
  match m.locate executionId with
  | none => m
  | some (key,_) =>
    let history := (m.history key).eraseP (isExecution executionId)
    { byKey := if history=[] then m.byKey.pop key else m.byKey.set key history
      tagsByExecutionId := fun id => if id=executionId then ∅ else m.tagsByExecutionId id }

/-- `find_current`: the first servable execution of the key. -/
def Memory.findCurrent (key : ExecutionKey) (m : Memory) : Option MlExecution :=
  (m.history key).find? isServable

/-- `add_tags`, to the current execution. -/
def Memory.addTags (key : ExecutionKey) (tags : List PyStr) (m : Memory) : Memory :=
  if tags=[] then m
  else match m.findCurrent key with
  | none => m
  | some current =>
    { m with tagsByExecutionId := fun id =>
        if id=current.executionId then m.tagsByExecutionId id ∪ tags.toFinset
        else m.tagsByExecutionId id }

/-- The loop of `add_input_artifacts`: the first servable execution takes the artifacts,
unless it has input. -/
def addInput (artifacts : List Artifact) : List MlExecution → List MlExecution
  | [] => []
  | execution::rest =>
    if isServable execution=false then execution::addInput artifacts rest
    else if (execution.artifacts.any fun a => a.artifactType.isInput)=true then execution::rest
    else { execution with
           artifacts := execution.artifacts ++ artifacts.map fun a => { a with content := none }
           inputPersisted := true }::rest

/-- `add_input_artifacts`. -/
def Memory.addInputArtifacts (key : ExecutionKey) (artifacts : List Artifact) (m : Memory) : Memory :=
  if artifacts.isEmpty=true then m
  else match m.byKey.get? key with
  | none => m
  | some history => { m with byKey := m.byKey.set key (addInput artifacts history) }

/-- What `soft_purge_execution` leaves of an execution. -/
def purged (execution : MlExecution) : MlExecution :=
  { execution with artifacts := [], outputPersisted := false, inputPersisted := false }

/-- `soft_purge_execution`. -/
def Memory.softPurgeExecution (key : ExecutionKey) (m : Memory) : Memory :=
  match m.byKey.get? key with
  | none => m
  | some history => { m with byKey := m.byKey.set key (history.map purged) }

/-- `hard_delete_execution`: the key, and the tags of each of its executions. -/
def Memory.hardDeleteExecution (key : ExecutionKey) (m : Memory) : Memory where
  byKey := m.byKey.pop key
  tagsByExecutionId id := if (m.history key).any (isExecution id)=true then ∅ else m.tagsByExecutionId id

/-- The un-stored blob keys of an execution, each once. -/
def unstoredKeys (execution : MlExecution) : List BlobKey :=
  ((execution.artifacts.filter fun a => decide (a.status≠.stored)).map (·.blobKey)).eraseDups

/-- The entry of `runs_awaiting_persistence` for one key. -/
def awaitingRun (item : ExecutionKey × List MlExecution) : Option UnpersistedRun :=
  match item.2.getLast? with
  | none => none
  | some latest =>
    if latest.outputPersisted=true ∨ unstoredKeys latest=[] then none
    else some ⟨item.1,latest.executionId,unstoredKeys latest⟩

/-- `runs_awaiting_persistence`. -/
def Memory.runsAwaitingPersistence (m : Memory) : List UnpersistedRun := m.byKey.items.filterMap awaitingRun

/-- The sizes of an execution's artifacts together, where they are numbers. -/
def storedBytes (execution : MlExecution) : ℕ := (execution.artifacts.map (·.sizeBytes.summed)).sum

/-- `total_stored_bytes`. -/
def Memory.totalStoredBytes (m : Memory) : ℕ := ((m.executions.filter isServable).map storedBytes).sum

/-- `current_executions_with_sizes`: key and size; the creation time is the empty text. -/
def Memory.currentExecutionsWithSizes (m : Memory) : List (ExecutionKey × ℕ) :=
  m.byKey.items.flatMap fun item =>
    (item.2.filter isServable).map fun execution => (item.1,storedBytes execution)

/-- `executions_by_tag`. -/
def Memory.executionsByTag (tag : PyStr) (m : Memory) : List ExecutionKey :=
  m.byKey.keys.filter fun key => match m.findCurrent key with
    | none => false
    | some current => decide (tag∈m.tagsByExecutionId current.executionId)

/-- `tags_for`: the tags of the current execution, sorted. -/
def Memory.tagsFor (key : ExecutionKey) (m : Memory) : List PyStr :=
  match m.findCurrent key with
  | none => []
  | some current => (m.tagsByExecutionId current.executionId).sort (· ≤ ·)

/-- `blob_keys_for_execution`: the keys of all executions of the key, each once. -/
def Memory.blobKeysForExecution (key : ExecutionKey) (m : Memory) : List BlobKey :=
  (((m.history key).flatMap (·.artifacts)).map (·.blobKey)).eraseDups

/-- What each method of the reference store returns. -/
def MemoryRet : StoreCall → Type
  | .currentExecutionsWithSizes => List (ExecutionKey × ℕ)
  | call => call.Ret

/-- A call of the reference store, with the clock's reading. -/
def Memory.perform (now : Timestamp) (m : Memory) : (call : StoreCall) → Except PyExc (MemoryRet call × Memory)
  | .findCurrent key => .ok (m.findCurrent key,m)
  | .findAll key => .ok (m.history key,m)
  | .save execution => .ok ((),m.save execution now)
  | .recordOutcome execution => (m.recordOutcome execution).map fun m => ((),m)
  | .persistArtifact id artifact => (m.persistArtifact id artifact).map fun m => ((),m)
  | .markArtifactsStored id blobKey => (m.markArtifacts id blobKey (resolveStored now)).map fun m => ((),m)
  | .markArtifactsFailed id blobKey detail =>
    (m.markArtifacts id blobKey (resolveFailed detail)).map fun m => ((),m)
  | .finalizeOutputPersisted id => (m.finalizeOutputPersisted id now).map fun m => ((),m)
  | .removeExecution id => .ok ((),m.removeExecution id)
  | .addTags key tags => .ok ((),m.addTags key tags)
  | .addInputArtifacts key artifacts => .ok ((),m.addInputArtifacts key artifacts)
  | .runsAwaitingPersistence => .ok (m.runsAwaitingPersistence,m)
  | .softPurgeExecution key => .ok ((),m.softPurgeExecution key)
  | .hardDeleteExecution key => .ok ((),m.hardDeleteExecution key)
  | .totalStoredBytes => .ok (m.totalStoredBytes,m)
  | .currentExecutionsWithSizes => .ok (m.currentExecutionsWithSizes,m)
  | .executionsByTag tag => .ok (m.executionsByTag tag,m)
  | .allExecutionKeys => .ok (m.byKey.keys,m)

end GenericMlCache.ReferenceStore
