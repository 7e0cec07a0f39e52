import GenericMlCache.CallIdentityKeys
import GenericMlCache.CachedExecution
import GenericMlCache.JsonText

/-!
# Commands of a run and of a probe

How the two front doors turn what a caller passes into a call identity: the
checksums of its texts, arguments and files, the four kinds of identity a run
dispatches over, and the one a probe builds. The run's hooks complete the
record-or-replay service.
-/

namespace GenericMlCache.MlExecutionCommands

open CallProgram PythonText ExecutionModel RepositoryCalls ServicePorts StorePurge CachedExecution
  CallIdentityKeys JsonText

/-- `hexdigest()`: at least 64 hexadecimal digits. -/
def hexdigest (digest : Digest) : PyStr :=
  let digits := pyStr (String.ofList (Nat.toDigits 16 digest))
  List.replicate (64-digits.length) 0x30 ++ digits

/-- A file port without files. -/
def noFiles (_ : PyStr) : Except PyExc PyStr := .error (.other true [])

section Checksums
variable (sha256 : Bytes → Digest)

/-- `text_checksum`. -/
def textChecksum (text : PyStr) : Except PyExc PyStr := do
  let content ← encodeText text
  return hexdigest (sha256 content)

/-- `file_content_fingerprint`. -/
def fileContentFingerprint (data : Bytes) : PyStr := hexdigest (sha256 data)

/-- `fingerprint_arguments`: the arguments joined by `_ARGUMENT_SEP`. -/
def fingerprintArguments (arguments : List PyStr) : Except PyExc PyStr :=
  textChecksum sha256 (joinText [0] arguments)

end Checksums

/-- The key-determining inputs that any command exposes. -/
structure KeyedCallInputs where
  /-- The client's name. -/
  client : PyStr
  /-- The model's name. -/
  model : PyStr
  /-- The effort asked for. -/
  effort : PyStr := []
  /-- The context. -/
  context : PyStr := []
  /-- The prompt. -/
  prompt : PyStr := []
  /-- The caller's system prompt. -/
  userSystemPrompt : Option PyStr := none
  /-- The input files. -/
  inputFilePaths : List PyStr := []
  /-- The folders allowed. -/
  allowPaths : List PyStr := []
  /-- The client's arguments. -/
  clientArgs : List PyStr := []
  /-- The permissions granted. -/
  grants : List PyStr := []

/-- `is_call_uncacheable`. -/
def isCallUncacheable (allowPaths : List PyStr) (scanTrust : Bool) : Bool :=
  !allowPaths.isEmpty && !scanTrust

/-- The input of a probe: keyed inputs, and no run policy. -/
structure ProbeCommand extends KeyedCallInputs where
  /-- Whether a scan of the folders is trusted. -/
  scanTrust : Bool := false

/-- `ProbeCommand.is_uncacheable`. -/
def ProbeCommand.isUncacheable (command : ProbeCommand) : Bool :=
  isCallUncacheable command.allowPaths command.scanTrust

/-- The input of a run of any kind. -/
structure RunMlExecutionCommand extends KeyedCallInputs where
  /-- The kind of the run. -/
  executionKind : ExecutionKind
  /-- Whether a scan of the folders is trusted. -/
  scanTrust : Bool := false
  /-- The arguments of a passthrough call. -/
  nativeArgs : List PyStr := []
  /-- The body of a relayed request. -/
  rawBody : Bytes := []
  /-- Whether the run may replay, and whether it must. -/
  cacheMode : CacheMode := .cache
  /-- What of the run is kept. -/
  persistenceDepth : PersistenceDepth := .cache
  /-- Whether a failure is recorded too. -/
  recordOnError : Bool := false
  /-- The tags its execution gets. -/
  tags : List PyStr := []
  /-- The session it is accounted to. -/
  sessionId : Option PyStr := none

/-- `RunMlExecutionCommand.is_uncacheable`. -/
def RunMlExecutionCommand.isUncacheable (command : RunMlExecutionCommand) : Bool :=
  match command.executionKind with
  | .api | .localPassthrough | .apiPassthrough => false
  | .localManaged => isCallUncacheable command.allowPaths command.scanTrust

/-- `RunMlExecutionCommand.should_persist`. -/
def RunMlExecutionCommand.shouldPersist (command : RunMlExecutionCommand) (succeeded : Bool) : Bool :=
  if command.persistenceDepth.storesOutput=true then succeeded || command.recordOnError else false

/-- The probe of a run's inputs. -/
def RunMlExecutionCommand.probeCommand (command : RunMlExecutionCommand) : ProbeCommand :=
  { command.toKeyedCallInputs with scanTrust := command.scanTrust }

section Identities
variable (sha256 : Bytes → Digest) (fileFingerprint : PyStr → Except PyExc PyStr)

/-- The checksum of a text that is present and not empty. -/
def checksumPresent (text : Option PyStr) : Except PyExc (Option PyStr) :=
  match truthy text with
  | none => .ok none
  | some text => do
    let checksum ← textChecksum sha256 text
    return some checksum

/-- The fingerprints of the declared files, read in order. -/
def fileItems : List PyStr → Except PyExc (List (PyStr × PyStr))
  | [] => .ok []
  | path::rest => do
    let fingerprint ← fileFingerprint path
    let items ← fileItems rest
    return (path,fingerprint)::items

/-- `ManagedCallIdentity.from_keyed_inputs`. -/
def fromKeyedInputs (inputs : KeyedCallInputs) (inputFileFingerprints : PyDict) :
    Except PyExc ManagedCallIdentity := do
  let clientArgsFingerprint ←
    if inputs.clientArgs.isEmpty=true then .ok none
    else (fingerprintArguments sha256 inputs.clientArgs).map some
  let systemFingerprint ← checksumPresent sha256 inputs.userSystemPrompt
  let contextFingerprint ← textChecksum sha256 inputs.context
  let promptFingerprint ← textChecksum sha256 inputs.prompt
  return { client := inputs.client, model := inputs.model, effort := inputs.effort,
           contextFingerprint := contextFingerprint, promptFingerprint := promptFingerprint,
           inputFileFingerprints := inputFileFingerprints,
           clientArgsFingerprint := clientArgsFingerprint, systemFingerprint := systemFingerprint,
           grants := inputs.grants.toFinset, allowPaths := inputs.allowPaths.toFinset }

/-- `build_call_identity`. -/
def buildCallIdentity (inputs : KeyedCallInputs) : Except PyExc ManagedCallIdentity := do
  let items ← fileItems fileFingerprint inputs.inputFilePaths
  fromKeyedInputs sha256 inputs (PyDict.empty.setItems items)

/-- The identity `RunMlExecutionService._build_identity` builds for each kind. -/
def keyedIdentity (command : RunMlExecutionCommand) : Except PyExc KeyedIdentity :=
  match command.executionKind with
  | .localManaged => (buildCallIdentity sha256 fileFingerprint command.toKeyedCallInputs).map .managed
  | .localPassthrough => do
    let nativeArgsFingerprint ← fingerprintArguments sha256 command.nativeArgs
    return .passthrough ⟨command.client,nativeArgsFingerprint⟩
  | .apiPassthrough =>
    .ok (.apiPassthrough ⟨command.client,fileContentFingerprint sha256 command.rawBody⟩)
  | .api => do
    let contextFingerprint ← textChecksum sha256 command.context
    let promptFingerprint ← textChecksum sha256 command.prompt
    let systemFingerprint ← checksumPresent sha256 command.userSystemPrompt
    return .api ⟨command.client,command.model,contextFingerprint,promptFingerprint,systemFingerprint,
      command.effort⟩

/-- `summary_client` and `summary_model` of each kind. -/
def summaries : KeyedIdentity → PyStr × PyStr
  | .managed i => (i.client,i.model)
  | .passthrough i => (i.client,[])
  | .api i => (i.provider,i.model)
  | .apiPassthrough i => (i.client,[])

/-- An identity with its key. `generate_key` encodes every field. -/
def withKey (identity : KeyedIdentity) : Except PyExc CallIdentity :=
  match identity.generateKey sha256 with
  | some key => .ok ⟨key,(summaries identity).1,(summaries identity).2⟩
  | none => .error .unicodeEncodeError

/-- `_build_identity` and the key of what it returns. -/
def runIdentity (command : RunMlExecutionCommand) : Except PyExc CallIdentity := do
  let identity ← keyedIdentity sha256 fileFingerprint command
  withKey sha256 identity

/-- The identity of a probe, of the managed kind whatever the call's, and its key. -/
def probeIdentity (command : ProbeCommand) : Except PyExc CallIdentity := do
  let identity ← buildCallIdentity sha256 fileFingerprint command.toKeyedCallInputs
  withKey sha256 (.managed identity)

end Identities

/-- What `str.strip` removes. -/
def isSpace (c : Fin 0x110000) : Bool :=
  (0x09 ≤ c.val && c.val ≤ 0x0D) || (0x1C ≤ c.val && c.val ≤ 0x20) || (0x2000 ≤ c.val && c.val ≤ 0x200A) ||
    [0x85,0xA0,0x1680,0x2028,0x2029,0x202F,0x205F,0x3000].contains c.val

/-- `str.strip()`. -/
def strip (text : PyStr) : PyStr := ((text.dropWhile isSpace).reverse.dropWhile isSpace).reverse

/-- `normalize_tags`. -/
def normalizeTags (rawTags : List PyStr) : List PyStr :=
  ((rawTags.map strip).filter fun tag => decide (tag≠[])).toFinset.sort (· ≤ ·)

/-- One encoded input part. -/
def textPart (artifactType : ArtifactType) (h : artifactType.isInput=true) (text : PyStr) :
    Except PyExc InputPart := do
  let content ← encodeText text
  return ⟨artifactType,none,content,h⟩

/-- `_input_parts`: what the call passed, by kind. -/
def inputParts (command : RunMlExecutionCommand) : Except PyExc (List InputPart) :=
  match command.executionKind with
  | .localPassthrough => do
    let part ← textPart .inputArgs rfl (dumpsTexts command.nativeArgs)
    return [part]
  | .apiPassthrough => .ok [⟨.inputMessages,none,command.rawBody,rfl⟩]
  | .localManaged | .api => do
    let context ← (truthy (some command.context)).toList.mapM (textPart .inputContext rfl)
    let prompt ← textPart .inputPrompt rfl command.prompt
    let system ← (truthy command.userSystemPrompt).toList.mapM (textPart .inputSystem rfl)
    return context ++ prompt::system

/-- `_journal_fields`. -/
def journalFields (command : RunMlExecutionCommand) : PyStr × PyStr × PyStr :=
  match command.executionKind with
  | .localPassthrough | .apiPassthrough => (command.client,[],[])
  | .localManaged | .api => (command.client,command.model,command.effort)

/-- Encoding a part raises nothing that reports a corrupt store. -/
theorem textPart_error {artifactType : ArtifactType} {h : artifactType.isInput=true} {text : PyStr}
    {e : PyExc} (he : textPart artifactType h text=.error e) : e=.unicodeEncodeError := by
  unfold textPart encodeText at he
  cases henc : encodeUtf8 text with
  | none =>
    rw [henc] at he
    exact (Except.error.inj he).symm
  | some content =>
    rw [henc] at he
    exact nomatch he

/-- Encoding the parts present raises nothing else. -/
theorem mapM_textPart_error {artifactType : ArtifactType} {h : artifactType.isInput=true}
    {text : Option PyStr} {e : PyExc} (he : text.toList.mapM (textPart artifactType h)=.error e) :
    e=.unicodeEncodeError := by
  cases text with
  | none => exact nomatch he
  | some text =>
    rw [Option.toList_some,List.mapM_cons] at he
    cases hpart : textPart artifactType h text with
    | error e' =>
      rw [hpart] at he
      cases he
      exact textPart_error hpart
    | ok part =>
      rw [hpart] at he
      exact nomatch he

/-- Reading the input of a call raises encoding errors only. -/
theorem inputParts_error {command : RunMlExecutionCommand} {e : PyExc}
    (he : inputParts command=.error e) : e=.unicodeEncodeError := by
  unfold inputParts at he
  split at he
  next =>
    cases hpart : textPart .inputArgs rfl (dumpsTexts command.nativeArgs) with
    | error e' =>
      rw [hpart] at he
      cases he
      exact textPart_error hpart
    | ok part =>
      rw [hpart] at he
      exact nomatch he
  next => exact nomatch he
  all_goals
    cases hcontext : (truthy (some command.context)).toList.mapM (textPart .inputContext rfl) with
    | error e' =>
      rw [hcontext] at he
      cases he
      exact mapM_textPart_error hcontext
    | ok context =>
      cases hprompt : textPart .inputPrompt rfl command.prompt with
      | error e' =>
        rw [hcontext,hprompt] at he
        cases he
        exact textPart_error hprompt
      | ok prompt =>
        cases hsystem : (truthy command.userSystemPrompt).toList.mapM (textPart .inputSystem rfl) with
        | error e' =>
          rw [hcontext,hprompt,hsystem] at he
          cases he
          exact mapM_textPart_error hsystem
        | ok system =>
          rw [hcontext,hprompt,hsystem] at he
          exact nomatch he

/-- `RunMlExecutionService`, with its quota if it has one. -/
def runMlExecutionService (sha256 : Bytes → Digest) (fileFingerprint : PyStr → Except PyExc PyStr)
    (maxSize : Option ℕ) : CachedMlExecutionService RunMlExecutionCommand where
  cacheMode := (·.cacheMode)
  persistenceDepth := (·.persistenceDepth)
  sessionId := (·.sessionId)
  shouldPersist := RunMlExecutionCommand.shouldPersist
  buildIdentity := runIdentity sha256 fileFingerprint
  executionKind := (·.executionKind)
  journalFields := journalFields
  isUncacheable := RunMlExecutionCommand.isUncacheable
  executionTags command := normalizeTags command.tags
  inputParts := inputParts
  inputParts_error _ _ h := by rw [inputParts_error h]; rfl
  maxSize := maxSize

/-- What a probe forecasts. -/
inductive ProbeStatus where
  | hit | miss | nonCacheable
deriving DecidableEq,Repr

/-- The report of a probe: the key for every verdict, the execution on a hit. -/
structure ProbeReport where
  /-- The verdict. -/
  status : ProbeStatus
  /-- The key. -/
  executionKey : ExecutionKey
  /-- The execution found, on a hit. -/
  execution : Option MlExecution := none

/-- `ProbeService.execute`. -/
def probe (sha256 : Bytes → Digest) (fileFingerprint : PyStr → Except PyExc PyStr)
    (command : ProbeCommand) : ServiceM RunMlExecutionCommand ProbeReport := do
  let identity ← ofExcept (probeIdentity sha256 fileFingerprint command)
  if command.isUncacheable=true then
    return { status := .nonCacheable, executionKey := identity.generateKey }
  else do
    let found : Option MlExecution ← store (.findCurrent identity.generateKey)
    match found with
    | none => return { status := .miss, executionKey := identity.generateKey }
    | some current =>
      return { status := .hit, executionKey := identity.generateKey, execution := some current }

end GenericMlCache.MlExecutionCommands
