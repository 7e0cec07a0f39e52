import GenericMlCache.StorePurge

/-!
# The record-or-replay service

The flow shared by every cached ML execution, as programs over the ports. What
differs between kinds of execution is the record of hooks; the flow is written
once. Diagnostics and timing have no effect on it and are left out.
-/

namespace GenericMlCache.CachedExecution

open CallProgram PythonText ExecutionModel RepositoryCalls ServicePorts StorePurge

/-- One input document that a kind of execution records. -/
structure InputPart where
  /-- The kind of document it becomes. -/
  artifactType : ArtifactType
  /-- A file name, for a declared file. -/
  name : Option PyStr
  /-- Its bytes. -/
  content : Bytes
  /-- Its type is one of `INPUT_ARTIFACT_TYPES`. -/
  isInput : artifactType.isInput=true

/-- The hooks of a service and what the flow reads of its commands. -/
structure CachedMlExecutionService (Command : Type) where
  /-- Whether it may replay, and whether it must. -/
  cacheMode : Command → CacheMode
  /-- What of a run is kept. -/
  persistenceDepth : Command → PersistenceDepth
  /-- The session it is accounted to. -/
  sessionId : Command → Option PyStr
  /-- `should_persist`, given whether the run succeeded. -/
  shouldPersist : Command → Bool → Bool
  /-- `_build_identity`, which may read declared files. -/
  buildIdentity : Command → Except PyExc CallIdentity
  /-- The kind of its execution. -/
  executionKind : Command → ExecutionKind
  /-- `_journal_fields`: client, model, effort. -/
  journalFields : Command → PyStr × PyStr × PyStr
  /-- Whether it bypasses the cache. -/
  isUncacheable : Command → Bool
  /-- The tags its execution gets. -/
  executionTags : Command → List PyStr
  /-- `_input_parts`, which may fail to encode. -/
  inputParts : Command → Except PyExc (List InputPart)
  /-- Building the input reads no store, so it never reports one as corrupt. -/
  inputParts_error : ∀ command e,inputParts command=.error e → e.isCorruption=false
  /-- The quota of `_after_record`, when one is configured. -/
  maxSize : Option ℕ

section Artifacts
variable (fingerprint : Bytes → Digest)

/-- `BlobKey.for_execution`. -/
def blobKeyFor (executionId : ExecutionId) (content : Bytes) : BlobKey :=
  .forExecution executionId (fingerprint content)

/-- `_make_artifact`. -/
def makeArtifact (executionId : ExecutionId) (artifactType : ArtifactType) (name : Option PyStr)
    (content : Bytes) (status : ArtifactStatus) : Artifact :=
  Artifact.fromContent artifactType (blobKeyFor fingerprint executionId content) content name status

/-- `str.encode("utf-8")`. -/
def encodeText (s : PyStr) : Except PyExc Bytes :=
  match encodeUtf8 s with
  | some content => .ok content
  | none => .error .unicodeEncodeError

/-- `_build_artifacts`: stdout, stderr, then the produced files. -/
def buildArtifacts (executionId : ExecutionId) (result : ClientRunResult) (status : ArtifactStatus) :
    Except PyExc (List Artifact) := do
  let stdout ← encodeText result.stdout
  let stderr ← encodeText result.stderr
  return makeArtifact fingerprint executionId .stdout none stdout status::
    makeArtifact fingerprint executionId .stderr none stderr status::
    result.files.map fun file =>
      makeArtifact fingerprint executionId .outputFile (some file.name) file.content status

end Artifacts

section Flow
variable {Command : Type} (service : CachedMlExecutionService Command)
  (fingerprint : Bytes → Digest)

/-- `_build_input_artifacts`. -/
def buildInputArtifacts (executionId : ExecutionId) (command : Command) (status : ArtifactStatus) :
    Except PyExc (List Artifact) := do
  let parts ← service.inputParts command
  return parts.map fun part =>
    makeArtifact fingerprint executionId part.artifactType part.name part.content status

/-- `_content_write_lock`. -/
def withContentWriteLock {α : Type} (body : ServiceM Command α) : ServiceM Command α := do
  ask .acquireShared
  ensure body (ask .releaseShared)

/-- `_store_blob`: the blob, then its mark. A failed put marks the document
failed; a failed mark leaves it pending. -/
def storeBlob (executionId : ExecutionId) (artifact : Artifact) : ServiceM Command Artifact := do
  match ← attempt (ask (.blobPut artifact.blobKey (artifact.content.getD []))) with
  | .error e =>
    if e.isException=true then
      let _ ← store (.markArtifactsFailed executionId artifact.blobKey e.str)
      return { artifact with status := .failed, statusDetail := some e.str }
    else raise e
  | .ok _ =>
    match ← attempt (store (.markArtifactsStored executionId artifact.blobKey)) with
    | .error e =>
      if e.isException=true then
        return { artifact with status := .pending, statusDetail := some e.str }
      else raise e
    | .ok _ => return { artifact with status := .stored }

/-- `_persist_documents`: each row, then its blob. The resolved artifacts and
whether every one is stored. -/
def persistDocuments (executionId : ExecutionId) :
    List Artifact → ServiceM Command (List Artifact × Bool)
  | [] => return ([],true)
  | artifact::rest => do
    let _ ← store (.persistArtifact executionId artifact)
    let stored ← storeBlob executionId artifact
    let (resolved,allStored) ← persistDocuments executionId rest
    return (stored::resolved,decide (stored.status=.stored) && allStored)

/-- Store the blobs of documents whose rows are attached already. -/
def storeBlobs (executionId : ExecutionId) : List Artifact → ServiceM Command Unit
  | [] => return ()
  | artifact::rest => do
    let _ ← storeBlob executionId artifact
    storeBlobs executionId rest

/-- The message of a missing blob. -/
def blobMissingMessage (artifact : Artifact) : PyStr :=
  pyStr "blob " ++ artifact.blobKey.text ++ pyStr " for a " ++ artifact.artifactType.text ++
    pyStr " artifact is missing from the blob store"

/-- `_hydrate_artifact`. -/
def hydrateArtifact (artifact : Artifact) : ServiceM Command Artifact := do
  let content ← ask (.blobGet artifact.blobKey)
  match content with
  | none => raise (.artifactBlobMissing (blobMissingMessage artifact))
  | some content => return { artifact with content := some content }

/-- The artifacts of an execution with their contents, whatever their status. -/
def hydrateArtifacts : List Artifact → ServiceM Command (List Artifact)
  | [] => return []
  | artifact::rest => do
    let hydrated ← hydrateArtifact artifact
    let others ← hydrateArtifacts rest
    return hydrated::others

/-- `_hydrate`. -/
def hydrate (execution : MlExecution) : ServiceM Command MlExecution := do
  let artifacts ← hydrateArtifacts execution.artifacts
  return { execution with artifacts := artifacts }

/-- `_record_event`. -/
def recordEvent (event : JournalEvent) (key : ExecutionKey) (command : Command) :
    ServiceM Command Unit :=
  ask (.recordEvent
    { event := event, executionKey := key, client := (service.journalFields command).1,
      model := (service.journalFields command).2.1, effort := (service.journalFields command).2.2,
      sessionId := service.sessionId command })

/-- `_apply_tags`. -/
def applyTags (key : ExecutionKey) (command : Command) : ServiceM Command Unit :=
  if (service.executionTags command).isEmpty=true then return ()
  else store (.addTags key (service.executionTags command))

/-- `_after_record`: the quota eviction. -/
def afterRecord : ServiceM Command Unit :=
  match service.maxSize with
  | none => return ()
  | some maxBytes => do
    let _ ← evictToQuota maxBytes
    return ()

/-- The writes of a back-fill: the pending rows first, then each blob. -/
def attachInput (key : ExecutionKey) (command : Command) (executionId : ExecutionId) :
    ServiceM Command Unit := do
  let inputArtifacts ← ofExcept
    (buildInputArtifacts service fingerprint executionId command .pending)
  if inputArtifacts.isEmpty=true then return ()
  else do
    let _ ← store (.addInputArtifacts key inputArtifacts)
    withContentWriteLock (storeBlobs executionId inputArtifacts)

/-- The part of `_accumulate_input` under the key lock. -/
def backFillInput (key : ExecutionKey) (command : Command) : ServiceM Command Unit := do
  let found ← store (.findCurrent key)
  match found with
  | none => return ()
  | some fresh =>
    if fresh.inputPersisted=true then return ()
    else attachInput service fingerprint key command fresh.executionId

/-- `_accumulate_input`. -/
def accumulateInput (key : ExecutionKey) (command : Command) (current : MlExecution) :
    ServiceM Command Unit :=
  if (!(service.persistenceDepth command).storesInput || current.inputPersisted)=true then return ()
  else withKeyLock key (backFillInput service fingerprint key command)

/-- `_serve_hit`. -/
def serveHit (key : ExecutionKey) (command : Command) (current : MlExecution) :
    ServiceM Command MlExecution := do
  let hydrated ← hydrate current
  recordEvent service .hit key command
  applyTags service key command
  accumulateInput service fingerprint key command current
  return hydrated

/-- The loop of `_remove_execution_and_blobs`. -/
def removeArtifactBlobs : List Artifact → ServiceM Command Unit
  | [] => return ()
  | artifact::rest => do
    ask (.blobRemove artifact.blobKey)
    removeArtifactBlobs rest

/-- `_remove_execution_and_blobs`: the blobs first. -/
def removeExecutionAndBlobs (execution : MlExecution) : ServiceM Command Unit := do
  removeArtifactBlobs execution.artifacts
  store (.removeExecution execution.executionId)

/-- `_serve_current_if_healthy`: a hit that cannot be loaded or hydrated is
healed away and becomes a miss. -/
def serveCurrentIfHealthy (key : ExecutionKey) (command : Command) :
    ServiceM Command (Option MlExecution) := do
  match ← attempt (store (.findCurrent key)) with
  | .error (.storeCorrupt _) => return none
  | .error e => raise e
  | .ok none => return none
  | .ok (some current) =>
    match ← attempt (serveHit service fingerprint key command current) with
    | .ok served => return some served
    | .error e =>
      if e.isCorruption=true then
        removeExecutionAndBlobs current
        return none
      else raise e

/-- The guarded part of `_serve_offline`: none when nothing is current. -/
def serveStored (key : ExecutionKey) (command : Command) :
    ServiceM Command (Option MlExecution) := do
  let found ← store (.findCurrent key)
  match found with
  | none => return none
  | some current => do
    let served ← serveHit service fingerprint key command current
    return some served

/-- `_serve_offline`: a corrupt entry is a clean miss. -/
def serveOffline (key : ExecutionKey) (command : Command) : ServiceM Command MlExecution := do
  match ← attempt (serveStored service fingerprint key command) with
  | .ok (some served) => return served
  | .ok none =>
    recordEvent service .miss key command
    raise (.cacheMiss (pyStr "offline miss: no stored execution for key " ++
      pyStr (toString key.digest)))
  | .error e =>
    if e.isCorruption=true then
      recordEvent service .miss key command
      raise (.cacheMiss (pyStr "offline miss: corrupt stored execution for key " ++
        pyStr (toString key.digest)))
    else raise e

/-- The row of a run in progress. -/
def inProgressExecution (identity : CallIdentity) (executionId : ExecutionId) (command : Command) :
    MlExecution where
  callIdentity := identity
  executionState := .inProgress
  executionKind := service.executionKind command
  outputPersisted := false
  executionId := executionId

/-- A run with its outcome. -/
def withOutcome (inProgress : MlExecution) (result : ClientRunResult) : MlExecution :=
  { inProgress with
    executionState := result.outcome
    tokenUsage := result.tokenUsage
    failure := result.failure }

/-- `_abandon_in_progress_as_failed`. -/
def abandonInProgressAsFailed (inProgress : MlExecution) (e : PyExc) : ServiceM Command Unit :=
  store (.recordOutcome { inProgress with
    executionState := .failed
    failure := some { reason := .clientError, message := e.str } })

/-- `_record_unstored`. -/
def recordUnstored (key : ExecutionKey) (command : Command) (inProgress : MlExecution)
    (result : ClientRunResult) : ServiceM Command MlExecution := do
  let execution := withOutcome inProgress result
  let _ ← store (.recordOutcome execution)
  recordEvent service .run key command
  let artifacts ← ofExcept (buildArtifacts fingerprint execution.executionId result .stored)
  return { execution with artifacts := artifacts }

/-- The input documents of a recorded run: none below DATASET depth. -/
def recordedInput (executionId : ExecutionId) (command : Command) : Except PyExc (List Artifact) :=
  if (service.persistenceDepth command).storesInput=true then
    buildInputArtifacts service fingerprint executionId command .pending
  else .ok []

/-- The end of `_record_stored`: finalize, or leave the run unservable. -/
def concludeRecording (key : ExecutionKey) (command : Command) (executionId : ExecutionId)
    (allStored : Bool) : ServiceM Command Unit :=
  if allStored=true then do
    let _ ← store (.finalizeOutputPersisted executionId)
    recordEvent service .record key command
    applyTags service key command
    afterRecord service
  else recordEvent service .run key command

/-- `_record_stored`: the outcome, then each document, then finalize. -/
def recordStored (key : ExecutionKey) (command : Command) (inProgress : MlExecution)
    (result : ClientRunResult) : ServiceM Command MlExecution := do
  let execution := withOutcome inProgress result
  let _ ← store (.recordOutcome execution)
  let outputArtifacts ← ofExcept
    (buildArtifacts fingerprint execution.executionId result .pending)
  let inputArtifacts ← ofExcept
    (recordedInput service fingerprint execution.executionId command)
  let (resolved,allStored) ← withContentWriteLock
    (persistDocuments execution.executionId (outputArtifacts ++ inputArtifacts))
  concludeRecording service key command execution.executionId allStored
  return { execution with
    outputPersisted := allStored
    inputPersisted := !inputArtifacts.isEmpty
    artifacts := resolved }

/-- What a fresh run does when its client raised: an interrupted run leaves no
row, any other exception leaves a failed one, and the error goes on. -/
def clientRaised (inProgress : MlExecution) (e : PyExc) : ServiceM Command ClientRunResult :=
  if e.isInterrupt=true then do
    let _ ← store (.removeExecution inProgress.executionId)
    raise e
  else if e.isException=true then do
    abandonInProgressAsFailed inProgress e
    raise e
  else raise e

/-- The client call of a fresh run. -/
def runRecordedClient (command : Command) (inProgress : MlExecution) :
    ServiceM Command ClientRunResult := do
  match ← attempt (ask (.runClient command)) with
  | .ok result => return result
  | .error e => clientRaised inProgress e

/-- Whether a DATASET run may write blobs; other runs do not ask. -/
def blobHealthGate (command : Command) : ServiceM Command Bool :=
  if (service.persistenceDepth command).storesInput=true then ask .blobIsHealthy else return true

/-- The part of `_run_fresh_locked` after the re-check: the health gate of a
DATASET run, the row in progress, the client, and the recording. -/
def runAndRecord (identity : CallIdentity) (command : Command) : ServiceM Command MlExecution := do
  let key := identity.generateKey
  let healthy ← blobHealthGate service command
  if healthy=true then
    let executionId ← ask .newExecutionId
    let inProgress := inProgressExecution service identity executionId command
    let _ ← store (.save inProgress)
    let result ← runRecordedClient command inProgress
    if service.shouldPersist command result.succeeded=true then
      recordStored service fingerprint key command inProgress result
    else recordUnstored service fingerprint key command inProgress result
  else raise (.storeUnavailable (pyStr ("blob storage is unavailable; a DATASET run must persist " ++
    "input and output, so it fails fast before the client call (S1.1)")))

/-- `_run_fresh_locked`. -/
def runFreshLocked (identity : CallIdentity) (command : Command) : ServiceM Command MlExecution :=
  withKeyLock identity.generateKey do
    if service.cacheMode command=.cache then
      match ← serveCurrentIfHealthy service fingerprint identity.generateKey command with
      | some served => return served
      | none => runAndRecord service fingerprint identity command
    else runAndRecord service fingerprint identity command

/-- What was served, or else a recorded run. -/
def servedOrRun (identity : CallIdentity) (command : Command) (found : Option MlExecution) :
    ServiceM Command MlExecution :=
  match found with
  | some served => return served
  | none => runAndRecord service fingerprint identity command

/-- A run that is not recorded, with its artifacts for display. -/
def displayedRun (identity : CallIdentity) (executionId : ExecutionId) (command : Command)
    (result : ClientRunResult) (artifacts : List Artifact) : MlExecution :=
  { withOutcome (inProgressExecution service identity executionId command) result with
    artifacts := artifacts }

/-- `_run_fresh` without storing: no lock and no row. -/
def runUnstored (identity : CallIdentity) (command : Command) : ServiceM Command MlExecution := do
  let result ← ask (.runClient command)
  let executionId ← ask .newExecutionId
  let artifacts ← ofExcept (buildArtifacts fingerprint executionId result .stored)
  recordEvent service .run identity.generateKey command
  return displayedRun service identity executionId command result artifacts

/-- `_run_uncacheable`. -/
def runUncacheable (identity : CallIdentity) (command : Command) : ServiceM Command MlExecution :=
  if service.cacheMode command=.offline then do
    recordEvent service .miss identity.generateKey command
    raise (.cacheMiss
      (pyStr "offline: this call is not cacheable, so it cannot be served offline"))
  else runUnstored service fingerprint identity command

/-- `_run_metered`. -/
def runMetered (identity : CallIdentity) (command : Command) : ServiceM Command MlExecution := do
  let found : Option MlExecution ← store (.findCurrent identity.generateKey)
  let result ← ask (.runClient command)
  let executionId ← ask .newExecutionId
  let artifacts ← ofExcept (buildArtifacts fingerprint executionId result .stored)
  recordEvent service (if found.isSome=true then .wouldHit else .wouldMiss)
    identity.generateKey command
  return displayedRun service identity executionId command result artifacts

/-- The replay-or-run part of `execute` for a cacheable CACHE command. -/
def replayOrRun (identity : CallIdentity) (command : Command) : ServiceM Command MlExecution := do
  match ← serveCurrentIfHealthy service fingerprint identity.generateKey command with
  | some served => return served
  | none => runFreshLocked service fingerprint identity command

/-- The cacheable part of `execute`, past the token gate. -/
def executeCacheable (identity : CallIdentity) (command : Command) : ServiceM Command MlExecution :=
  match service.cacheMode command with
  | .offline => serveOffline service fingerprint identity.generateKey command
  | .cache =>
    if (service.persistenceDepth command).storesOutput=true then
      replayOrRun service fingerprint identity command
    else runMetered service fingerprint identity command
  | .refresh =>
    if (service.persistenceDepth command).storesOutput=true then
      runFreshLocked service fingerprint identity command
    else runMetered service fingerprint identity command

/-- The up-front encryption-token gate of a content operation. -/
def tokenGate (command : Command) : ServiceM Command Unit :=
  if (service.persistenceDepth command).storesOutput=true then ask .ensureAvailableForContent
  else return ()

/-- `execute`. -/
def execute (command : Command) : ServiceM Command MlExecution := do
  let identity ← ofExcept (service.buildIdentity command)
  if service.isUncacheable command=true then runUncacheable service fingerprint identity command
  else do
    tokenGate service command
    executeCacheable service fingerprint identity command

end Flow

end GenericMlCache.CachedExecution
