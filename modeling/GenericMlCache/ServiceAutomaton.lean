import GenericMlCache.CachedExecution
import GenericMlCache.StoreRepair

/-!
# The call automaton of the services

Which calls a caller of the store makes, in which order, and what it knows at
each point. Serving, back-filling, healing, recording, purging and repairing
are paths through one automaton. Each program follows it, so an invariant over
its turns holds in every run of every program, alone or side by side.
-/

namespace GenericMlCache.ServiceAutomaton

open CallProgram CallAutomaton PythonText ExecutionModel ExecutionQueries RepositoryCalls
  ServicePorts StorePurge CachedExecution

/-- A hit under way: its key, the execution loaded for it, and the artifacts
hydrated so far. -/
structure Hit where
  /-- Its key. -/
  key : ExecutionKey
  /-- The execution loaded for it. -/
  loaded : MlExecution
  /-- The artifacts hydrated so far. -/
  got : List Artifact

/-- What a caller is in the middle of, with what it has read so far. -/
inductive Task where
  /-- Nothing that touches rows or blobs. -/
  | idle
  /-- A hit, with the artifacts still to hydrate. -/
  | hydrating (hit : Hit) (todo : List Artifact)
  /-- A corrupt hit: the blobs still to remove before the row. -/
  | healing (loaded : MlExecution) (todo : List Artifact)
  /-- A back-fill, after the current execution was read again under the lock. -/
  | refetched (hit : Hit) (key : ExecutionKey) (fresh : MlExecution)
  /-- A back-fill with its rows attached, and the documents still to store. -/
  | filling (hit : Hit) (target : ExecutionId) (todo : List Artifact)
  /-- A back-fill whose document is in the blob store. -/
  | fillMarking (hit : Hit) (target : ExecutionId) (document : Artifact) (todo : List Artifact)
  /-- A back-fill whose document could not be put. -/
  | fillFailing (hit : Hit) (target : ExecutionId) (document : Artifact) (todo : List Artifact)
  /-- A hit whose back-fill is over. -/
  | served (hit : Hit)
  /-- A recording with its id minted. -/
  | minted (executionId : ExecutionId)
  /-- A recording with its row in progress. -/
  | running (execution : MlExecution)
  /-- A recording whose client was interrupted. -/
  | interrupted (execution : MlExecution)
  /-- A recording whose client raised. -/
  | clientFailed (execution : MlExecution)
  /-- A recording with the client's result in hand. -/
  | answered (execution : MlExecution) (result : ClientRunResult)
  /-- A recording whose outcome is in its row. -/
  | recorded (execution : MlExecution) (result : ClientRunResult)
  /-- A recording in its document loop: those done, those to do, and whether
  every one done is stored. -/
  | persisting (execution : MlExecution) (result : ClientRunResult) (done todo : List Artifact)
      (allStored : Bool)
  /-- A document whose row is inserted. -/
  | putting (execution : MlExecution) (result : ClientRunResult) (done : List Artifact)
      (document : Artifact) (todo : List Artifact) (allStored : Bool)
  /-- A document in the blob store. -/
  | marking (execution : MlExecution) (result : ClientRunResult) (done : List Artifact)
      (document : Artifact) (todo : List Artifact) (allStored : Bool)
  /-- A document that could not be put. -/
  | failing (execution : MlExecution) (result : ClientRunResult) (done : List Artifact)
      (document : Artifact) (todo : List Artifact)
  /-- A purge with its key's blobs listed. -/
  | sized (key : ExecutionKey) (executions : List MlExecution)
  /-- A purge with its key's rows dropped, and the blobs still to remove. -/
  | dropping (key : ExecutionKey) (todo : List BlobKey)
  /-- A repair of one run: the blobs to check and whether none was missing. -/
  | reconciling (run : UnpersistedRun) (todo : List BlobKey) (complete : Bool)
      (rest : List UnpersistedRun)
  /-- A repair that found a blob. -/
  | blobFound (run : UnpersistedRun) (blobKey : BlobKey) (todo : List BlobKey) (complete : Bool)
      (rest : List UnpersistedRun)
  /-- A repair that missed a blob. -/
  | blobMissed (run : UnpersistedRun) (blobKey : BlobKey) (todo : List BlobKey)
      (rest : List UnpersistedRun)

/-- A caller's phase: the key locks it is in, its task, and whether it has
called the client. -/
structure Phase where
  /-- The key locks it is in. -/
  held : List ExecutionKey
  /-- Its task. -/
  task : Task
  /-- Whether it has called the client. -/
  ran : Bool

/-- A caller before its first call. -/
def Phase.start : Phase := ⟨[],.idle,false⟩

/-- The task after an error that no local handler catches. Corruption during a
hit turns it into a heal; everything else ends the task. -/
def Task.raised (e : PyExc) : Task → Task
  | .hydrating hit _ | .refetched hit _ _ | .filling hit _ _ | .fillMarking hit _ _ _
  | .fillFailing hit _ _ _ =>
    if e.isCorruption=true then .healing hit.loaded hit.loaded.artifacts else .idle
  | _ => .idle

/-- The task after a key lock is released: a back-fill that is done is over,
and so is what needs the lock. -/
def Task.released : Task → Task
  | .hydrating hit todo => .hydrating hit todo
  | .healing loaded todo => .healing loaded todo
  | .refetched hit _ _ => .hydrating hit []
  | .filling hit _ [] | .served hit => .served hit
  | .filling hit target todo => .filling hit target todo
  | .fillMarking hit target document todo => .fillMarking hit target document todo
  | .fillFailing hit target document todo => .fillFailing hit target document todo
  | _ => .idle

/-- No back-fill is under way. -/
def Task.settled : Task → Bool
  | .filling _ _ _ | .fillMarking _ _ _ _ | .fillFailing _ _ _ _ => false
  | _ => true

/-- An error that goes on settles the task. -/
theorem Task.settled_raised (task : Task) (e : PyExc) : (task.raised e).settled=true := by
  cases task <;> simp only [Task.raised] <;> first | rfl | (split <;> rfl)

/-- A settled task is settled after a release. -/
theorem Task.settled_released {task : Task} (h : task.settled=true) :
    task.released.settled=true := by
  cases task <;> first | rfl | exact nomatch h

/-- The task after one run of a repair. -/
def Task.nextRun : List UnpersistedRun → Task
  | [] => .idle
  | run::rest => .reconciling run run.blobKeys true rest

/-- The task after one blob of a repair: a run with a blob missing is not
finalized. -/
def Task.reconciled (run : UnpersistedRun) (todo : List BlobKey) (complete : Bool)
    (rest : List UnpersistedRun) : Task :=
  if todo=[] ∧ complete=false then .nextRun rest else .reconciling run todo complete rest

/-- What becomes of an error of a call. -/
inductive Guard where
  /-- It goes on. -/
  | passes
  /-- A local handler catches it if it is an exception. -/
  | caught
  /-- The call is not made there. -/
  | absent
deriving DecidableEq

/-- The guard of a call: a back-fill and a recording catch every exception of a
put and of a stored mark, and a recording its client's. -/
def guardOf {Command : Type} : Task → Call Command → Guard
  | .hydrating _ _,.runClient _ | .refetched _ _ _,.runClient _ => .absent
  | .filling _ _ _,.acquireShared => .passes
  | .filling _ _ _,.blobPut _ _ => .caught
  | .filling _ _ _,_ => .absent
  | .fillMarking _ _ _ _,.store (.markArtifactsStored _ _) => .caught
  | .fillMarking _ _ _ _,_ => .absent
  | .fillFailing _ _ _ _,.store (.markArtifactsFailed _ _ _) => .passes
  | .fillFailing _ _ _ _,_ => .absent
  | .putting _ _ _ _ _ _,.blobPut _ _ => .caught
  | .marking _ _ _ _ _ _,.store (.markArtifactsStored _ _) => .caught
  | .running _,.runClient _ => .caught
  | _,_ => .passes

/-- The call's error goes on from the task. -/
def Escapes {Command : Type} (task : Task) (call : Call Command) (e : PyExc) : Prop :=
  guardOf task call≠.absent ∧ (guardOf task call=.caught → e.isException=false)

/-- An unguarded error goes on. -/
theorem Escapes.of_passes {Command : Type} {task : Task} {call : Call Command} {e : PyExc}
    (h : guardOf task call=.passes) : Escapes task call e :=
  ⟨by simp [h],fun hc => by simp [h] at hc⟩

/-- What is not an exception goes on past a handler. -/
theorem Escapes.of_caught {Command : Type} {task : Task} {call : Call Command} {e : PyExc}
    (h : guardOf task call=.caught) (he : ¬ e.isException=true) : Escapes task call e :=
  ⟨by simp [h],fun _ => by simpa using he⟩

/-- Calls whose success leaves rows' documents, blobs and locks as they are. -/
def isQuiet {Command : Type} : Call Command → Bool
  | .store (.addTags _ _) => true
  | .store (.findAll _) => false
  | .store call => call.isRead
  | .acquireShared | .releaseShared | .recordEvent _ | .deleteEventsForKey _ | .lastAccess
  | .executionKeysForSession _ | .sessionIdsForTag _ | .newExecutionId | .currentTime => true
  | _ => false

/-- The kinds of work that a caller does. -/
structure Scope where
  /-- It serves hits. -/
  serves : Bool
  /-- It records what its client answers. -/
  records : Bool
  /-- It purges keys. -/
  purges : Bool
  /-- It repairs runs. -/
  repairs : Bool

/-- Every kind of work. -/
def Scope.full : Scope := ⟨true,true,true,true⟩

section Documents
variable (fingerprint : Bytes → Digest)

/-- A document of an execution, built for recording. -/
def IsDocument (executionId : ExecutionId) (a : Artifact) : Prop :=
  ∃ artifactType name content,
    a=makeArtifact fingerprint executionId artifactType name content .pending

/-- An input document of an execution. -/
def IsInputDocument (executionId : ExecutionId) (a : Artifact) : Prop :=
  a.artifactType.isInput=true ∧ IsDocument fingerprint executionId a

/-- The documents that recording a result persists: its output, then input. -/
def IsRecordingOf (executionId : ExecutionId) (result : ClientRunResult) (documents : List Artifact) :
    Prop :=
  ∃ outputs inputs,buildArtifacts fingerprint executionId result .pending=.ok outputs ∧
    (∀ a∈inputs,IsInputDocument fingerprint executionId a) ∧ documents=outputs ++ inputs

end Documents

/-- An execution as a recorder saves it. -/
structure IsInProgress (execution : MlExecution) : Prop where
  /-- It is in progress. -/
  state : execution.executionState=.inProgress
  /-- Nothing is persisted. -/
  outputPersisted : execution.outputPersisted=false
  /-- It has no artifacts. -/
  artifacts : execution.artifacts=[]
  /-- It has no usage. -/
  tokenUsage : execution.tokenUsage=none
  /-- It has no failure. -/
  failure : execution.failure=none
  /-- It is not superseded. -/
  supersededAt : execution.supersededAt=none

section Turns
variable {Command : Type} (scope : Scope) (fingerprint : Bytes → Digest)

/-- The turns of the automaton, for callers that do the given kinds of work. -/
inductive Turn : Turns (Call Command) Call.Ret PyExc Phase where
  /-- A call without effect on rows, blobs and locks. -/
  | quiet {φ : Phase} {call : Call Command} (h : isQuiet call=true) (a : call.Ret) :
      Turn φ call (.ok a) φ
  /-- An error that no local handler catches. -/
  | raise {φ : Phase} {call : Call Command} {e : PyExc}
      (h : Escapes φ.task call e) :
      Turn φ call (.error e) { φ with task := φ.task.raised e }
  /-- Leaving a lock does not raise: what would follow is left open. -/
  | releaseRaised {φ φ' : Phase} {call : Call Command} {e : PyExc} (h : isRelease call=true) :
      Turn φ call (.error e) φ'
  /-- A caller asks something before it does anything: whether the blob store
  is usable, or whether the key it is to purge is there. -/
  | gate {held : List ExecutionKey} {ran : Bool} {call : Call Command}
      (h : call=.blobIsHealthy ∨ call=.ensureAvailableForContent ∨
        ∃ key,call=.store (.findAll key)) (a : call.Ret) :
      Turn ⟨held,.idle,ran⟩ call (.ok a) ⟨held,.idle,ran⟩
  | acquire {φ : Phase} {key : ExecutionKey} :
      Turn φ (.acquireKey key) (.ok ()) { φ with held := key::φ.held }
  | release {φ : Phase} {key : ExecutionKey} :
      Turn φ (.releaseKey key) (.ok ())
        { φ with held := φ.held.erase key, task := φ.task.released }
  /-- A client call outside a recording. -/
  | runUnrecorded {held : List ExecutionKey} {ran : Bool} {command : Command}
      (result : ClientRunResult) :
      Turn ⟨held,.idle,ran⟩ (.runClient command) (.ok result) ⟨held,.idle,true⟩
  /-- A hit is loaded. -/
  | load {held : List ExecutionKey} {ran : Bool} {key : ExecutionKey} (hscope : scope.serves=true)
      (loaded : MlExecution) :
      Turn ⟨held,.idle,ran⟩ (.store (.findCurrent key)) (.ok (some loaded))
        ⟨held,.hydrating ⟨key,loaded,[]⟩ loaded.artifacts,ran⟩
  /-- One artifact of the hit is hydrated. -/
  | hydrate {held : List ExecutionKey} {ran : Bool} {hit : Hit} {artifact : Artifact}
      {todo : List Artifact} (content : Bytes) :
      Turn ⟨held,.hydrating hit (artifact::todo),ran⟩ (.blobGet artifact.blobKey) (.ok (some content))
        ⟨held,.hydrating { hit with got := hit.got ++ [{ artifact with content := some content }] } todo,
          ran⟩
  /-- A blob of the hit is missing. -/
  | miss {held : List ExecutionKey} {ran : Bool} {hit : Hit} {artifact : Artifact}
      {todo : List Artifact} :
      Turn ⟨held,.hydrating hit (artifact::todo),ran⟩ (.blobGet artifact.blobKey) (.ok none)
        ⟨held,.healing hit.loaded hit.loaded.artifacts,ran⟩
  /-- A heal removes one blob. -/
  | healBlob {held : List ExecutionKey} {ran : Bool} {loaded : MlExecution} {artifact : Artifact}
      {todo : List Artifact} :
      Turn ⟨held,.healing loaded (artifact::todo),ran⟩ (.blobRemove artifact.blobKey) (.ok ())
        ⟨held,.healing loaded todo,ran⟩
  /-- A heal removes the row, last. -/
  | healRow {held : List ExecutionKey} {ran : Bool} {loaded : MlExecution} :
      Turn ⟨held,.healing loaded [],ran⟩ (.store (.removeExecution loaded.executionId)) (.ok ())
        ⟨held,.idle,ran⟩
  /-- A back-fill reads the current execution again, under the lock. -/
  | refetch {held : List ExecutionKey} {ran : Bool} {hit : Hit} {key : ExecutionKey}
      (hkey : key∈held) (fresh : MlExecution) (hfresh : fresh.inputPersisted=false) :
      Turn ⟨held,.hydrating hit [],ran⟩ (.store (.findCurrent key)) (.ok (some fresh))
        ⟨held,.refetched hit key fresh,ran⟩
  /-- A back-fill attaches its pending rows. -/
  | attach {held : List ExecutionKey} {ran : Bool} {hit : Hit} {fresh : MlExecution}
      {key : ExecutionKey} (hkey : key∈held) {documents : List Artifact}
      (hdocuments : ∀ a∈documents,IsInputDocument fingerprint fresh.executionId a) :
      Turn ⟨held,.refetched hit key fresh,ran⟩ (.store (.addInputArtifacts key documents)) (.ok ())
        ⟨held,.filling hit fresh.executionId documents,ran⟩
  | fillPut {held : List ExecutionKey} {ran : Bool} {hit : Hit} {target : ExecutionId}
      {document : Artifact} {todo : List Artifact} :
      Turn ⟨held,.filling hit target (document::todo),ran⟩
        (.blobPut document.blobKey (document.content.getD [])) (.ok ())
        ⟨held,.fillMarking hit target document todo,ran⟩
  | fillPutFailed {held : List ExecutionKey} {ran : Bool} {hit : Hit} {target : ExecutionId}
      {document : Artifact} {todo : List Artifact} (e : PyExc) (he : e.isException=true) :
      Turn ⟨held,.filling hit target (document::todo),ran⟩
        (.blobPut document.blobKey (document.content.getD [])) (.error e)
        ⟨held,.fillFailing hit target document todo,ran⟩
  /-- A back-filled document is marked stored, or left pending. -/
  | fillMark {held : List ExecutionKey} {ran : Bool} {hit : Hit} {target : ExecutionId}
      {document : Artifact} {todo : List Artifact} (r : Except PyExc Unit)
      (hr : ∀ e,r=.error e → e.isException=true) :
      Turn ⟨held,.fillMarking hit target document todo,ran⟩
        (.store (.markArtifactsStored target document.blobKey)) r ⟨held,.filling hit target todo,ran⟩
  | fillFail {held : List ExecutionKey} {ran : Bool} {hit : Hit} {target : ExecutionId}
      {document : Artifact} {todo : List Artifact} {detail : PyStr} :
      Turn ⟨held,.fillFailing hit target document todo,ran⟩
        (.store (.markArtifactsFailed target document.blobKey detail)) (.ok ())
        ⟨held,.filling hit target todo,ran⟩
  /-- A recording mints its id. -/
  | mint {held : List ExecutionKey} {ran : Bool} (hscope : scope.records=true)
      (executionId : ExecutionId) :
      Turn ⟨held,.idle,ran⟩ .newExecutionId (.ok executionId) ⟨held,.minted executionId,ran⟩
  /-- A recording saves its row in progress, under the key lock. -/
  | save {held : List ExecutionKey} {ran : Bool} {execution : MlExecution}
      (hkey : execution.callIdentity.generateKey∈held) (hprogress : IsInProgress execution) :
      Turn ⟨held,.minted execution.executionId,ran⟩ (.store (.save execution)) (.ok ())
        ⟨held,.running execution,ran⟩
  | answer {held : List ExecutionKey} {ran : Bool} {execution : MlExecution} {command : Command}
      (result : ClientRunResult) :
      Turn ⟨held,.running execution,ran⟩ (.runClient command) (.ok result)
        ⟨held,.answered execution result,true⟩
  | interrupt {held : List ExecutionKey} {ran : Bool} {execution : MlExecution} {command : Command}
      (e : PyExc) (he : e.isInterrupt=true) :
      Turn ⟨held,.running execution,ran⟩ (.runClient command) (.error e)
        ⟨held,.interrupted execution,true⟩
  | clientRaise {held : List ExecutionKey} {ran : Bool} {execution : MlExecution} {command : Command}
      (e : PyExc) (he : e.isException=true) :
      Turn ⟨held,.running execution,ran⟩ (.runClient command) (.error e)
        ⟨held,.clientFailed execution,true⟩
  /-- An interrupted run leaves no row. -/
  | discard {held : List ExecutionKey} {ran : Bool} {execution : MlExecution} :
      Turn ⟨held,.interrupted execution,ran⟩ (.store (.removeExecution execution.executionId))
        (.ok ()) ⟨held,.idle,ran⟩
  /-- A run whose client raised leaves a failed row. -/
  | abandon {held : List ExecutionKey} {ran : Bool} {execution : MlExecution} (message : PyStr) :
      Turn ⟨held,.clientFailed execution,ran⟩
        (.store (.recordOutcome { execution with
          executionState := .failed, failure := some { reason := .clientError, message := message } }))
        (.ok ()) ⟨held,.idle,ran⟩
  | outcome {held : List ExecutionKey} {ran : Bool} {execution : MlExecution}
      {result : ClientRunResult} :
      Turn ⟨held,.answered execution result,ran⟩
        (.store (.recordOutcome (withOutcome execution result))) (.ok ())
        ⟨held,.recorded execution result,ran⟩
  /-- The document loop begins, under the shared store lock. -/
  | beginDocuments {held : List ExecutionKey} {ran : Bool} {execution : MlExecution}
      {result : ClientRunResult} {documents : List Artifact}
      (hdocuments : IsRecordingOf fingerprint execution.executionId result documents) :
      Turn ⟨held,.recorded execution result,ran⟩ .acquireShared (.ok ())
        ⟨held,.persisting execution result [] documents true,ran⟩
  | persist {held : List ExecutionKey} {ran : Bool} {execution : MlExecution}
      {result : ClientRunResult} {done : List Artifact} {document : Artifact} {todo : List Artifact}
      {allStored : Bool} :
      Turn ⟨held,.persisting execution result done (document::todo) allStored,ran⟩
        (.store (.persistArtifact execution.executionId document)) (.ok ())
        ⟨held,.putting execution result done document todo allStored,ran⟩
  | put {held : List ExecutionKey} {ran : Bool} {execution : MlExecution}
      {result : ClientRunResult} {done : List Artifact} {document : Artifact} {todo : List Artifact}
      {allStored : Bool} :
      Turn ⟨held,.putting execution result done document todo allStored,ran⟩
        (.blobPut document.blobKey (document.content.getD [])) (.ok ())
        ⟨held,.marking execution result done document todo allStored,ran⟩
  | putFailed {held : List ExecutionKey} {ran : Bool} {execution : MlExecution}
      {result : ClientRunResult} {done : List Artifact} {document : Artifact} {todo : List Artifact}
      {allStored : Bool} (e : PyExc) (he : e.isException=true) :
      Turn ⟨held,.putting execution result done document todo allStored,ran⟩
        (.blobPut document.blobKey (document.content.getD [])) (.error e)
        ⟨held,.failing execution result done document todo,ran⟩
  | mark {held : List ExecutionKey} {ran : Bool} {execution : MlExecution}
      {result : ClientRunResult} {done : List Artifact} {document : Artifact} {todo : List Artifact}
      {allStored : Bool} :
      Turn ⟨held,.marking execution result done document todo allStored,ran⟩
        (.store (.markArtifactsStored execution.executionId document.blobKey)) (.ok ())
        ⟨held,.persisting execution result (done ++ [document]) todo allStored,ran⟩
  /-- A document whose mark failed stays pending. -/
  | markFailed {held : List ExecutionKey} {ran : Bool} {execution : MlExecution}
      {result : ClientRunResult} {done : List Artifact} {document : Artifact} {todo : List Artifact}
      {allStored : Bool} (e : PyExc) (he : e.isException=true) :
      Turn ⟨held,.marking execution result done document todo allStored,ran⟩
        (.store (.markArtifactsStored execution.executionId document.blobKey)) (.error e)
        ⟨held,.persisting execution result (done ++ [document]) todo false,ran⟩
  | fail {held : List ExecutionKey} {ran : Bool} {execution : MlExecution}
      {result : ClientRunResult} {done : List Artifact} {document : Artifact} {todo : List Artifact}
      {detail : PyStr} :
      Turn ⟨held,.failing execution result done document todo,ran⟩
        (.store (.markArtifactsFailed execution.executionId document.blobKey detail)) (.ok ())
        ⟨held,.persisting execution result (done ++ [document]) todo false,ran⟩
  /-- A run with every document stored is finalized. -/
  | finalize {held : List ExecutionKey} {ran : Bool} {execution : MlExecution}
      {result : ClientRunResult} {done : List Artifact} :
      Turn ⟨held,.persisting execution result done [] true,ran⟩
        (.store (.finalizeOutputPersisted execution.executionId)) (.ok ()) ⟨held,.idle,ran⟩
  /-- A purge lists its key's blobs, under the key lock. -/
  | size {held : List ExecutionKey} {ran : Bool} {key : ExecutionKey}
      (hscope : scope.purges=true) (hkey : key∈held)
      (executions : List MlExecution) :
      Turn ⟨held,.idle,ran⟩ (.store (.findAll key)) (.ok executions) ⟨held,.sized key executions,ran⟩
  | softDrop {held : List ExecutionKey} {ran : Bool} {key : ExecutionKey}
      {executions : List MlExecution} :
      Turn ⟨held,.sized key executions,ran⟩ (.store (.softPurgeExecution key)) (.ok ())
        ⟨held,.dropping key ((blobSizes executions).map (·.1)),ran⟩
  | hardDrop {held : List ExecutionKey} {ran : Bool} {key : ExecutionKey}
      {executions : List MlExecution} :
      Turn ⟨held,.sized key executions,ran⟩ (.store (.hardDeleteExecution key)) (.ok ())
        ⟨held,.dropping key ((blobSizes executions).map (·.1)),ran⟩
  | dropBlob {held : List ExecutionKey} {ran : Bool} {key : ExecutionKey} {blobKey : BlobKey}
      {todo : List BlobKey} :
      Turn ⟨held,.dropping key (blobKey::todo),ran⟩ (.blobRemove blobKey) (.ok ())
        ⟨held,.dropping key todo,ran⟩
  /-- A repair lists the runs awaiting persistence. -/
  | list {held : List ExecutionKey} {ran : Bool} (hscope : scope.repairs=true)
      (runs : List UnpersistedRun) :
      Turn ⟨held,.idle,ran⟩ (.store .runsAwaitingPersistence) (.ok runs) ⟨held,.nextRun runs,ran⟩
  | find {held : List ExecutionKey} {ran : Bool} {run : UnpersistedRun} {blobKey : BlobKey}
      {todo : List BlobKey} {complete : Bool} {rest : List UnpersistedRun} (content : Bytes) :
      Turn ⟨held,.reconciling run (blobKey::todo) complete rest,ran⟩ (.blobGet blobKey)
        (.ok (some content)) ⟨held,.blobFound run blobKey todo complete rest,ran⟩
  | lose {held : List ExecutionKey} {ran : Bool} {run : UnpersistedRun} {blobKey : BlobKey}
      {todo : List BlobKey} {complete : Bool} {rest : List UnpersistedRun} :
      Turn ⟨held,.reconciling run (blobKey::todo) complete rest,ran⟩ (.blobGet blobKey) (.ok none)
        ⟨held,.blobMissed run blobKey todo rest,ran⟩
  | repairMark {held : List ExecutionKey} {ran : Bool} {run : UnpersistedRun} {blobKey : BlobKey}
      {todo : List BlobKey} {complete : Bool} {rest : List UnpersistedRun} :
      Turn ⟨held,.blobFound run blobKey todo complete rest,ran⟩
        (.store (.markArtifactsStored run.executionId blobKey)) (.ok ())
        ⟨held,.reconciled run todo complete rest,ran⟩
  | repairFail {held : List ExecutionKey} {ran : Bool} {run : UnpersistedRun} {blobKey : BlobKey}
      {todo : List BlobKey} {rest : List UnpersistedRun} {detail : PyStr} :
      Turn ⟨held,.blobMissed run blobKey todo rest,ran⟩
        (.store (.markArtifactsFailed run.executionId blobKey detail)) (.ok ())
        ⟨held,.reconciled run todo false rest,ran⟩
  /-- A repair finalizes a run with no blob missing. -/
  | repairFinalize {held : List ExecutionKey} {ran : Bool} {run : UnpersistedRun}
      {rest : List UnpersistedRun} :
      Turn ⟨held,.reconciling run [] true rest,ran⟩
        (.store (.finalizeOutputPersisted run.executionId)) (.ok ()) ⟨held,.nextRun rest,ran⟩

end Turns

end GenericMlCache.ServiceAutomaton
