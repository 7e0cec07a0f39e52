import GenericMlCache.PaidAnswers
import GenericMlCache.MlExecutionCommands
import GenericMlCache.CallProbe

/-!
# What the daemon reports as a hit

`POST /run` derives its flag from the execution that it returns: a success with
a stdout document is called a hit. A watch of the calls tells whether the client
was invoked, what it returned and which entry was found last.
-/

namespace GenericMlCache.ReportedHits

open CallProgram CallAutomaton PythonText ExecutionModel SqliteStore ExecutionRepository ExecutionQueries
  RepositoryCalls ServicePorts StorePurge StoreSoundness CachedExecution ExecuteCalls MlExecutionCommands
  ServiceOperations CallProbe

/-- The body of `POST /run`. -/
structure RunBody where
  /-- The client's name. -/
  client : PyStr
  /-- The model. -/
  model : PyStr
  /-- The effort. -/
  effort : PyStr := []
  /-- The prompt. -/
  prompt : PyStr := []
  /-- The context. -/
  context : PyStr := []
  /-- The tags to add. -/
  tags : List PyStr := []
  /-- The session. -/
  sessionId : Option PyStr := none

/-- What `POST /run` tells of an execution. -/
structure RunResponse where
  /-- The execution's key. -/
  executionKey : ExecutionKey
  /-- Its state. -/
  state : ExecutionState
  /-- Whether it was served from the cache. -/
  cacheHit : Bool
  /-- The text of its standard output. -/
  stdout : Option PyStr
  /-- The text of its standard error. -/
  stderr : Option PyStr

/-- What `POST /run` answers with, by the `Accept` header. -/
inductive RunReply where
  | json (response : RunResponse)
  /-- The `complete` event behind the `accepted` one. -/
  | complete (response : RunResponse)

/-- The response in either form. -/
def RunReply.response : RunReply → RunResponse
  | .json response | .complete response => response

/-- `build_command`. The kind of a client is looked up in the whitelisted catalog. -/
def buildCommand (executionKindFor : PyStr → Except PyExc ExecutionKind) (body : RunBody) :
    Except PyExc RunMlExecutionCommand := do
  let kind ← executionKindFor body.client
  return {
    executionKind := kind, client := body.client, model := body.model, effort := body.effort
    prompt := body.prompt, context := body.context, tags := body.tags, sessionId := body.sessionId }

/-- `extract_artifact`. -/
def extractArtifact (decodeReplace : Bytes → PyStr) (execution : MlExecution) (artifactType : ArtifactType) :
    Option PyStr :=
  execution.artifacts.findSome? fun a =>
    if a.artifactType=artifactType then a.content.map decodeReplace else none

/-- Whether there is a stdout document. -/
def hasStdout (artifacts : List Artifact) : Bool := artifacts.any fun a => decide (a.artifactType=.stdout)

/-- `_was_cache_hit`. -/
def wasCacheHit (execution : MlExecution) : Bool :=
  decide (execution.executionState=.success) && hasStdout execution.artifacts

/-- `_to_response`. -/
def toResponse (decodeReplace : Bytes → PyStr) (execution : MlExecution) (cacheHit : Bool) : RunResponse where
  executionKey := execution.callIdentity.generateKey
  state := execution.executionState
  cacheHit := cacheHit
  stdout := extractArtifact decodeReplace execution .stdout
  stderr := extractArtifact decodeReplace execution .stderr

section Route
variable (service : CachedMlExecutionService RunMlExecutionCommand) (fingerprint : Bytes → Digest)
  (executionKindFor : PyStr → Except PyExc ExecutionKind) (decodeReplace : Bytes → PyStr)

/-- `run`, up to its last message. -/
def run (body : RunBody) (eventStream : Bool) : ServiceM RunMlExecutionCommand RunReply := do
  let command ← ofExcept (buildCommand executionKindFor body)
  let execution ← execute service fingerprint command
  let response := toResponse decodeReplace execution (wasCacheHit execution)
  return if eventStream=true then .complete response else .json response

end Route

/-- What is watched of the calls of a request. -/
structure HitWatch where
  /-- The client was invoked. -/
  invoked : Bool
  /-- What it returned. -/
  result : Option ClientRunResult
  /-- The entry that was found last. -/
  found : Option MlExecution

/-- Before the first call. -/
def HitWatch.blank : HitWatch := ⟨false,none,none⟩

/-- Watch the client's calls and the entries found. -/
def watchHit {Command : Type} : (call : Call Command) → Except PyExc call.Ret → HitWatch → HitWatch
  | .runClient _,.ok result,m => { m with invoked := true, result := some result }
  | .runClient _,.error _,m => { m with invoked := true }
  | .store (.findCurrent _),.ok found,m => { m with found := found }
  | _,_,m => m

/-- A call that is not watched. -/
def isUnwatched {Command : Type} : Call Command → Bool
  | .runClient _ | .store (.findCurrent _) => false
  | _ => true

section Watching
variable {Command α β : Type} {m : HitWatch}

/-- What is not watched changes nothing. -/
theorem watchHit_unwatched {call : Call Command} (h : isUnwatched call=true) (r : Except PyExc call.Ret) (m : HitWatch) :
    watchHit call r m=m := by
  cases call with
  | runClient command => exact nomatch h
  | store call =>
    cases call with
    | findCurrent key => exact nomatch h
    | _ => rfl
  | _ => rfl

/-- Only the client's call is taken for one. -/
theorem watchHit_client {call : Call Command} (h : isClient call=false) (r : Except PyExc call.Ret) (m : HitWatch) :
    (watchHit call r m).invoked=m.invoked ∧ (watchHit call r m).result=m.result := by
  cases call with
  | runClient command => exact nomatch h
  | store call =>
    cases call with
    | findCurrent key => cases r <;> exact ⟨rfl,rfl⟩
    | _ => exact ⟨rfl,rfl⟩
  | _ => exact ⟨rfl,rfl⟩

/-- The client's part of two watches is the same. -/
def SameClient (m m' : HitWatch) : Prop := m'.invoked=m.invoked ∧ m'.result=m.result

theorem SameClient.refl (m : HitWatch) : SameClient m m := ⟨rfl,rfl⟩

theorem SameClient.trans {m₁ m₂ m₃ : HitWatch} (h : SameClient m₁ m₂) (h' : SameClient m₂ m₃) : SameClient m₁ m₃ :=
  ⟨h'.1.trans h.1,h'.2.trans h.2⟩

/-- A part that does not call the client. -/
theorem follows_clientless {p : ServiceM Command α} (h : Uses (fun call => isClient call=false) p) (m : HitWatch) :
    Follows (monitored watchHit) (fun _ m' => SameClient m m') p m :=
  Follows.of_uses h (fun _ r m₁ hcall hm => hm.trans (watchHit_client hcall r m₁)) (SameClient.refl m)

/-- A part that is not watched. -/
theorem follows_unwatched {p : ServiceM Command α} (h : Uses (fun call => isUnwatched call=true) p) (m : HitWatch) :
    Follows (monitored watchHit) (fun _ m' => m'=m) p m :=
  Follows.of_uses h (fun _ r m₁ hcall hm => (watchHit_unwatched hcall r m₁).trans hm) rfl

/-- Documents of the same types. -/
def SameTypes (documents artifacts : List Artifact) : Prop :=
  artifacts.map Artifact.artifactType=documents.map Artifact.artifactType

/-- The types tell whether there is a stdout document. -/
theorem SameTypes.hasStdout {documents artifacts : List Artifact} (h : SameTypes documents artifacts) :
    hasStdout artifacts=hasStdout documents := by
  have htypes (xs : List Artifact) :
      ReportedHits.hasStdout xs=(xs.map Artifact.artifactType).any fun t => decide (t=.stdout) := by
    rw [ReportedHits.hasStdout,List.any_map]
    rfl
  rw [htypes,htypes,h]

/-- Hydration keeps the types. -/
theorem follows_hydrateArtifacts (artifacts : List Artifact) (m : HitWatch) :
    Follows (monitored watchHit) (fun r m' => m'=m ∧ ∀ hydrated,r=.ok hydrated → SameTypes artifacts hydrated)
      (hydrateArtifacts artifacts : ServiceM Command (List Artifact)) m := by
  induction artifacts with
  | nil =>
    refine ⟨rfl,fun hydrated h => ?_⟩
    rw [← Except.ok.inj h]
    rfl
  | cons artifact rest ih =>
    have hone : Follows (monitored watchHit) (fun r m' => m'=m ∧ ∀ a,r=.ok a → a.artifactType=artifact.artifactType)
        (hydrateArtifact artifact : ServiceM Command Artifact) m := by
      refine Follows.watch_bind (fun content => ?_) fun e => ⟨rfl,fun a h => nomatch h⟩
      cases content with
      | none => exact ⟨rfl,fun a h => nomatch h⟩
      | some content =>
        refine ⟨rfl,fun a h => ?_⟩
        rw [← Except.ok.inj h]
    refine Follows.seq hone (fun a m' ha => ?_) fun e m' he => ⟨he.1,fun hydrated h => nomatch h⟩
    obtain ⟨rfl,htype⟩ := ha
    refine Follows.seq ih (fun hydrated m' hrest => ?_) fun e m' he => ⟨he.1,fun hydrated h => nomatch h⟩
    obtain ⟨rfl,htypes⟩ := hrest
    refine ⟨rfl,fun all h => ?_⟩
    rw [← Except.ok.inj h,SameTypes,List.map_cons,List.map_cons,htype a rfl,htypes hydrated rfl]

/-- Storing a document keeps its type. -/
theorem follows_storeBlob (executionId : ExecutionId) (artifact : Artifact) (m : HitWatch) :
    Follows (monitored watchHit) (fun r m' => m'=m ∧ ∀ a,r=.ok a → a.artifactType=artifact.artifactType)
      (storeBlob executionId artifact : ServiceM Command Artifact) m := by
  have hreturn : ∀ (a : Artifact),a.artifactType=artifact.artifactType →
      Follows (monitored watchHit) (fun r m' => m'=m ∧ ∀ a,r=.ok a → a.artifactType=artifact.artifactType)
        (pure a : ServiceM Command Artifact) m := by
    intro a ha
    refine ⟨rfl,fun b h => ?_⟩
    rw [← Except.ok.inj h]
    exact ha
  have hraise : ∀ e : PyExc,Follows (monitored watchHit)
      (fun r m' => m'=m ∧ ∀ a,r=.ok a → a.artifactType=artifact.artifactType)
      (raise e : ServiceM Command Artifact) m := fun e => ⟨rfl,fun a h => nomatch h⟩
  have hput : Follows (monitored watchHit) (fun _ m' => m'=m)
      (ask (.blobPut artifact.blobKey (artifact.content.getD [])) : ServiceM Command Unit) m :=
    Follows.watch_perform fun r => rfl
  have hmark : Follows (monitored watchHit) (fun _ m' => m'=m)
      (store (.markArtifactsStored executionId artifact.blobKey) : ServiceM Command _) m :=
    Follows.watch_perform fun r => rfl
  refine Follows.attempt_seq hput fun r m' hm => ?_
  subst hm
  cases r with
  | error e =>
    refine Follows.ite (fun _ => ?_) fun _ => hraise e
    exact Follows.watch_bind (fun _ => hreturn _ rfl) fun e => ⟨rfl,fun a h => nomatch h⟩
  | ok _ =>
    refine Follows.attempt_seq hmark fun r m' hm => ?_
    subst hm
    cases r with
    | error e => exact Follows.ite (fun _ => hreturn _ rfl) fun _ => hraise e
    | ok _ => exact hreturn _ rfl

/-- Storing documents keeps their types. -/
theorem follows_persistDocuments (executionId : ExecutionId) (documents : List Artifact) (m : HitWatch) :
    Follows (monitored watchHit) (fun r m' => m'=m ∧ ∀ stored,r=.ok stored → SameTypes documents stored.1)
      (persistDocuments executionId documents : ServiceM Command (List Artifact × Bool)) m := by
  induction documents with
  | nil =>
    refine ⟨rfl,fun stored h => ?_⟩
    rw [← Except.ok.inj h]
    rfl
  | cons document rest ih =>
    refine Follows.watch_bind (fun _ => ?_) fun e => ⟨rfl,fun stored h => nomatch h⟩
    refine Follows.seq (follows_storeBlob executionId document m) (fun a m' ha => ?_) fun e m' he =>
      ⟨he.1,fun stored h => nomatch h⟩
    obtain ⟨rfl,htype⟩ := ha
    refine Follows.seq ih (fun stored m' hrest => ?_) fun e m' he => ⟨he.1,fun stored h => nomatch h⟩
    obtain ⟨rfl,htypes⟩ := hrest
    refine ⟨rfl,fun all h => ?_⟩
    rw [← Except.ok.inj h,SameTypes,List.map_cons,List.map_cons,htype a rfl,htypes stored rfl]

end Watching

/-- The execution is the entry that was found last, and the client was not called. -/
def Replayed (execution : MlExecution) (m : HitWatch) : Prop :=
  m.invoked=false ∧ m.result=none ∧ ∃ current,m.found=some current ∧
    execution.executionState=current.executionState ∧ hasStdout execution.artifacts=hasStdout current.artifacts

/-- The execution is what the client returned. -/
def Fresh (execution : MlExecution) (m : HitWatch) : Prop :=
  m.invoked=true ∧ ∃ result,m.result=some result ∧ execution.executionState=result.outcome ∧
    hasStdout execution.artifacts=true

/-- An execution that is returned was replayed or is fresh. -/
def Told (r : Except PyExc MlExecution) (m : HitWatch) : Prop :=
  ∀ execution,r=.ok execution → Replayed execution m ∨ Fresh execution m

section Flow
variable {Command : Type} (service : CachedMlExecutionService Command) (fingerprint : Bytes → Digest)
  {command : Command} {m : HitWatch}

theorem told_error (e : PyExc) (m : HitWatch) : Told (.error e) m := fun _ h => nomatch h

/-- What is built from a result has a stdout document. -/
theorem hasStdout_build {executionId : ExecutionId} {result : ClientRunResult} {status : ArtifactStatus}
    {artifacts : List Artifact} (h : buildArtifacts fingerprint executionId result status=.ok artifacts) :
    hasStdout artifacts=true := by
  obtain ⟨stdout,_,h⟩ := ok_of_bind h
  obtain ⟨stderr,_,h⟩ := ok_of_bind h
  rw [← Except.ok.inj h]
  rfl

/-- A part that is not watched, before another. -/
theorem follows_then {α β : Type} {Q : Except PyExc β → HitWatch → Prop} {p : ServiceM Command α} {f : α → ServiceM Command β}
    (hp : Uses (fun call => isUnwatched call=true) p) (hf : ∀ a,Follows (monitored watchHit) Q (f a) m)
    (herr : ∀ e,Q (.error e) m) : Follows (monitored watchHit) Q (p >>= f) m := by
  refine Follows.seq (follows_unwatched hp m) (fun a m' hm => ?_) fun e m' hm => ?_
  · rw [hm]
    exact hf a
  · rw [hm]
    exact herr e

/-- How serving an entry ends: the entry, with the watch as it was. -/
def ServedFrom (current : MlExecution) (m : HitWatch) (r : Except PyExc MlExecution) (m' : HitWatch) : Prop :=
  m'=m ∧ ∀ execution,r=.ok execution →
    execution.executionState=current.executionState ∧ hasStdout execution.artifacts=hasStdout current.artifacts

/-- A hit is the entry that was found. -/
theorem follows_serveHit (hdepth : (service.persistenceDepth command).storesInput=false) (key : ExecutionKey)
    (current : MlExecution) (m : HitWatch) :
    Follows (monitored watchHit) (ServedFrom current m) (serveHit service fingerprint key command current) m := by
  have herr : ∀ e : PyExc,ServedFrom current m (.error e) m := fun e => ⟨rfl,fun _ h => nomatch h⟩
  have hhydrate : Follows (monitored watchHit) (ServedFrom current m) (hydrate current : ServiceM Command MlExecution) m := by
    refine Follows.seq (follows_hydrateArtifacts current.artifacts m) (fun artifacts m' h => ?_) fun e m' h => ?_
    · obtain ⟨rfl,htypes⟩ := h
      refine ⟨rfl,fun execution heq => ?_⟩
      rw [← Except.ok.inj heq]
      exact ⟨rfl,(htypes artifacts rfl).hasStdout⟩
    · rw [h.1]
      exact herr e
  refine Follows.seq hhydrate (fun hydrated m' h => ?_) fun e m' h => h.1 ▸ herr e
  obtain ⟨rfl,hserved⟩ := h
  refine follows_then (Uses.perform rfl) (fun _ => ?_) herr
  refine follows_then (Uses.ite (fun _ => Uses.pure _) fun _ => Uses.perform rfl) (fun _ => ?_) herr
  have hnone : Uses (fun call => isUnwatched call=true)
      (accumulateInput service fingerprint key command current : ServiceM Command Unit) := by
    unfold accumulateInput
    rw [hdepth]
    exact Uses.pure _
  refine follows_then hnone (fun _ => ⟨rfl,fun execution heq => ?_⟩) herr
  rw [← Except.ok.inj heq]
  exact hserved hydrated rfl

/-- How looking for a healthy entry ends: the client was not called, and what is
served is what was found last. -/
def LookedFor (r : Except PyExc (Option MlExecution)) (m : HitWatch) : Prop :=
  m.invoked=false ∧ m.result=none ∧ ∀ execution,r=.ok (some execution) → Replayed execution m

/-- A look for a healthy entry. -/
theorem follows_serveCurrentIfHealthy (hdepth : (service.persistenceDepth command).storesInput=false)
    (key : ExecutionKey) (hinvoked : m.invoked=false) (hresult : m.result=none) :
    Follows (monitored watchHit) LookedFor (serveCurrentIfHealthy service fingerprint key command) m := by
  have hother : ∀ {r : Except PyExc (Option MlExecution)} {m' : HitWatch},SameClient m m' →
      (∀ execution,r≠.ok (some execution)) → LookedFor r m' := by
    intro r m' hsame hnone
    exact ⟨hsame.1.trans hinvoked,hsame.2.trans hresult,fun execution heq => absurd heq (hnone execution)⟩
  have hfind : Follows (monitored watchHit) (fun r m' => SameClient m m' ∧ ∀ found,r=.ok found → m'.found=found)
      (store (.findCurrent key) : ServiceM Command (Option MlExecution)) m := by
    refine Follows.watch_perform fun r => ?_
    cases r with
    | ok found => exact ⟨⟨rfl,rfl⟩,fun found' heq => Except.ok.inj heq⟩
    | error e => exact ⟨⟨rfl,rfl⟩,fun found' heq => nomatch heq⟩
  refine Follows.attempt_seq hfind fun r m' h => ?_
  obtain ⟨hsame,hfound⟩ := h
  cases r with
  | error e =>
    cases e with
    | storeCorrupt message => exact hother hsame fun execution heq => nomatch heq
    | _ => exact hother hsame fun execution heq => nomatch heq
  | ok found =>
    cases found with
    | none => exact hother hsame fun execution heq => nomatch heq
    | some current =>
      refine Follows.attempt_seq (follows_serveHit service fingerprint hdepth key current m') fun r m₂ h => ?_
      obtain ⟨rfl,hserved⟩ := h
      cases r with
      | ok served =>
        refine ⟨hsame.1.trans hinvoked,hsame.2.trans hresult,fun execution heq => ?_⟩
        cases heq
        obtain ⟨hstate,hstdout⟩ := hserved served rfl
        exact ⟨hsame.1.trans hinvoked,hsame.2.trans hresult,current,hfound _ rfl,hstate,hstdout⟩
      | error e =>
        refine Follows.ite (fun _ => ?_) fun _ => hother hsame fun execution heq => nomatch heq
        have hheal : Uses (fun call => isClient call=false) (removeExecutionAndBlobs current : ServiceM Command Unit) := by
          refine Uses.bind ?_ fun _ => Uses.perform rfl
          exact (untagged_of_straight (silent_removeArtifactBlobs current.artifacts)).mono fun call hc =>
            isClient_of_isServing (isServing_of_isRemoval (isRemoval_of_isPlain (isPlain_of_isUntagged hc)))
        refine Follows.seq (follows_clientless hheal m₂) (fun _ m₃ h => ?_) fun e m₃ h => ?_
        · exact hother (hsame.trans h) fun execution heq => nomatch heq
        · exact hother (hsame.trans h) fun execution heq => nomatch heq

/-- A part that does not call the client, before another. -/
theorem follows_after {α β : Type} {Q : Except PyExc β → HitWatch → Prop} {p : ServiceM Command α} {f : α → ServiceM Command β}
    (hp : Uses (fun call => isClient call=false) p)
    (hf : ∀ a m',SameClient m m' → Follows (monitored watchHit) Q (f a) m')
    (herr : ∀ e m',SameClient m m' → Q (.error e) m') : Follows (monitored watchHit) Q (p >>= f) m :=
  Follows.seq (follows_clientless hp m) hf herr

/-- After the client's return, what is returned is fresh. -/
def Returned (result : ClientRunResult) (m : HitWatch) : Prop := m.invoked=true ∧ m.result=some result

theorem Returned.same {result : ClientRunResult} {m m' : HitWatch} (h : Returned result m) (hsame : SameClient m m') :
    Returned result m' := ⟨hsame.1.trans h.1,hsame.2.trans h.2⟩

theorem Returned.told {result : ClientRunResult} {execution : MlExecution} (h : Returned result m)
    (hstate : execution.executionState=result.outcome) (hstdout : hasStdout execution.artifacts=true) :
    Told (.ok execution) m := by
  intro execution' heq
  rw [← Except.ok.inj heq]
  exact Or.inr ⟨h.1,result,h.2,hstate,hstdout⟩

/-- Persisting under the shared lock keeps the types. -/
theorem follows_persistLocked (executionId : ExecutionId) (documents : List Artifact) (m : HitWatch) :
    Follows (monitored watchHit) (fun r m' => m'=m ∧ ∀ stored,r=.ok stored → SameTypes documents stored.1)
      (withContentWriteLock (persistDocuments executionId documents) : ServiceM Command (List Artifact × Bool)) m := by
  refine follows_then (Uses.perform rfl) (fun _ => ?_) fun e => ⟨rfl,fun stored h => nomatch h⟩
  refine Follows.ensure ((follows_persistDocuments executionId documents m).weaken fun r m' h => ?_)
  obtain ⟨rfl,htypes⟩ := h
  refine Follows.watch_perform fun c => ?_
  cases c with
  | ok _ => exact ⟨rfl,htypes⟩
  | error e => exact ⟨rfl,fun stored h => nomatch h⟩

/-- The end of a recording does not call the client. -/
theorem clientless_concludeRecording (key : ExecutionKey) (executionId : ExecutionId) (allStored : Bool) :
    Uses (fun call => isClient call=false) (concludeRecording service key command executionId allStored) := by
  have hplain : ∀ {α : Type} {p : ServiceM Command α},UsesPlain p → Uses (fun call => isClient call=false) p :=
    fun h => h.mono fun call hc => isClient_of_isServing (isServing_of_isRemoval (isRemoval_of_isPlain hc))
  refine Uses.ite (fun _ => ?_) fun _ => Uses.perform rfl
  refine Uses.bind (Uses.perform rfl) fun _ => Uses.bind (Uses.perform rfl) fun _ => ?_
  exact Uses.bind (hplain (direct_applyTags service key command).plain) fun _ => hplain (plain_afterRecord service)

/-- A run that is recorded returns what the client returned. -/
theorem follows_recordStored {result : ClientRunResult} (h : Returned result m) (key : ExecutionKey) (inProgress : MlExecution) :
    Follows (monitored watchHit) Told (recordStored service fingerprint key command inProgress result) m := by
  refine follows_then (Uses.perform rfl) (fun _ => ?_) fun e => told_error e m
  cases houtput : buildArtifacts fingerprint (withOutcome inProgress result).executionId result .pending with
  | error e => exact told_error e m
  | ok outputs =>
    cases hinput : recordedInput service fingerprint (withOutcome inProgress result).executionId command with
    | error e => exact told_error e m
    | ok inputs =>
      have hstdout : hasStdout (outputs ++ inputs)=true := by
        rw [hasStdout,List.any_append,← hasStdout,hasStdout_build fingerprint houtput]
        rfl
      rw [ofExcept_ok_bind,ofExcept_ok_bind]
      refine Follows.seq (follows_persistLocked _ (outputs ++ inputs) m) (fun stored m' hstored => ?_) fun e m' _ =>
        told_error e m'
      obtain ⟨rfl,htypes⟩ := hstored
      refine follows_after (clientless_concludeRecording service key _ stored.2) (fun _ m₂ hsame => ?_) fun e m₂ _ =>
        told_error e m₂
      exact (h.same hsame).told rfl ((htypes stored rfl).hasStdout.trans hstdout)

/-- So does one that is not. -/
theorem follows_recordUnstored {result : ClientRunResult} (h : Returned result m) (key : ExecutionKey)
    (inProgress : MlExecution) :
    Follows (monitored watchHit) Told (recordUnstored service fingerprint key command inProgress result) m := by
  refine follows_then (Uses.perform rfl) (fun _ => ?_) fun e => told_error e m
  refine follows_then (Uses.perform rfl) (fun _ => ?_) fun e => told_error e m
  cases houtput : buildArtifacts fingerprint (withOutcome inProgress result).executionId result .stored with
  | error e => exact told_error e m
  | ok artifacts => exact h.told rfl (hasStdout_build fingerprint houtput)

/-- The client's call of a recorded run. -/
theorem follows_runRecordedClient (inProgress : MlExecution) (m : HitWatch) :
    Follows (monitored watchHit) (fun r m' => ∀ result,r=.ok result → Returned result m')
      (runRecordedClient command inProgress : ServiceM Command ClientRunResult) m := by
  have hclient : Follows (monitored watchHit) (fun r m' => ∀ result,r=.ok result → Returned result m')
      (ask (.runClient command) : ServiceM Command ClientRunResult) m := by
    refine Follows.watch_perform fun r => ?_
    cases r with
    | ok result =>
      intro result' heq
      rw [← Except.ok.inj heq]
      exact ⟨rfl,rfl⟩
    | error e => exact fun result heq => nomatch heq
  refine Follows.attempt_seq hclient fun r m' hm => ?_
  cases r with
  | ok result => exact hm
  | error e =>
    have hnone : ∀ {r : Except PyExc ClientRunResult} {m' : HitWatch} {e : PyExc},r=.error e →
        ∀ result,r=.ok result → Returned result m' := by
      rintro r m' e rfl result heq
      exact nomatch heq
    refine Follows.ite (fun _ => ?_) fun _ => Follows.ite (fun _ => ?_) fun _ => hnone rfl
    · exact Follows.watch_bind (fun _ => hnone rfl) fun e => hnone rfl
    · exact Follows.watch_bind (fun _ => hnone rfl) fun e => hnone rfl

/-- A run past the re-check returns what the client returned. -/
theorem follows_runAndRecord (identity : CallIdentity) (m : HitWatch) :
    Follows (monitored watchHit) Told (runAndRecord service fingerprint identity command) m := by
  have hgate : Uses (fun call => isUnwatched call=true) (blobHealthGate service command) :=
    Uses.ite (fun _ => Uses.perform rfl) fun _ => Uses.pure true
  refine follows_then hgate (fun healthy => ?_) fun e => told_error e m
  refine Follows.ite (fun _ => ?_) fun _ => told_error _ m
  refine follows_then (Uses.perform rfl) (fun executionId => ?_) fun e => told_error e m
  refine follows_then (Uses.perform rfl) (fun _ => ?_) fun e => told_error e m
  refine Follows.seq (follows_runRecordedClient _ m) (fun result m' h => ?_) fun e m' _ => told_error e m'
  have hreturned := h result rfl
  exact Follows.ite (fun _ => follows_recordStored service fingerprint hreturned _ _) fun _ =>
    follows_recordUnstored service fingerprint hreturned _ _

/-- Looking for a healthy entry, and else running. -/
theorem follows_orRun (hdepth : (service.persistenceDepth command).storesInput=false) (key : ExecutionKey)
    {fresh : ServiceM Command MlExecution}
    (hfresh : ∀ m : HitWatch,m.invoked=false → m.result=none → Follows (monitored watchHit) Told fresh m)
    (hinvoked : m.invoked=false) (hresult : m.result=none) :
    Follows (monitored watchHit) Told (serveCurrentIfHealthy service fingerprint key command >>= fun found =>
      match found with
      | some served => pure served
      | none => fresh) m := by
  refine Follows.seq (follows_serveCurrentIfHealthy service fingerprint hdepth key hinvoked hresult)
    (fun found m' h => ?_) fun e m' _ => told_error e m'
  cases found with
  | none => exact hfresh m' h.1 h.2.1
  | some served =>
    intro execution heq
    rw [← Except.ok.inj heq]
    exact Or.inl (h.2.2 served rfl)

/-- A fresh run under the key lock. -/
theorem follows_runFreshLocked (hdepth : (service.persistenceDepth command).storesInput=false) (identity : CallIdentity)
    (hinvoked : m.invoked=false) (hresult : m.result=none) :
    Follows (monitored watchHit) Told (runFreshLocked service fingerprint identity command) m := by
  refine follows_then (Uses.perform rfl) (fun _ => ?_) fun e => told_error e m
  have hbody : Follows (monitored watchHit) Told (if service.cacheMode command=.cache then
      serveCurrentIfHealthy service fingerprint identity.generateKey command >>= fun found =>
        match found with
        | some served => (pure served : ServiceM Command MlExecution)
        | none => runAndRecord service fingerprint identity command
    else runAndRecord service fingerprint identity command) m :=
    Follows.ite (fun _ => follows_orRun service fingerprint hdepth _
      (fun m _ _ => follows_runAndRecord service fingerprint identity m) hinvoked hresult)
      fun _ => follows_runAndRecord service fingerprint identity m
  refine Follows.ensure (hbody.weaken fun r m' h => Follows.watch_perform fun c => ?_)
  cases c with
  | ok _ => exact h
  | error e => exact told_error e m'

/-- An execute that keeps no input and may replay. -/
theorem follows_execute (hmode : service.cacheMode command=.cache)
    (hdepth : (service.persistenceDepth command).storesInput=false)
    (hstores : (service.persistenceDepth command).storesOutput=true) (hcacheable : service.isUncacheable command=false) :
    Follows (monitored watchHit) Told (execute service fingerprint command) HitWatch.blank := by
  cases hidentity : service.buildIdentity command with
  | error e =>
    unfold execute
    rw [hidentity]
    exact told_error e _
  | ok identity =>
    unfold execute
    rw [hidentity]
    refine Follows.ite (fun hun => ?_) fun _ => ?_
    · rw [hcacheable] at hun
      exact nomatch hun
    · have hgate : Uses (fun call => isUnwatched call=true) (tokenGate service command) :=
        Uses.ite (fun _ => Uses.perform rfl) fun _ => Uses.pure ()
      refine follows_then hgate (fun _ => ?_) fun e => told_error e _
      unfold executeCacheable
      rw [hmode]
      dsimp only
      rw [if_pos hstores]
      exact follows_orRun service fingerprint hdepth _
        (fun m hinvoked hresult => follows_runFreshLocked service fingerprint hdepth identity hinvoked hresult) rfl rfl

end Flow

/-- An entry that was found is a success. -/
def FoundSuccess (m : HitWatch) : Prop := ∀ current,m.found=some current → current.executionState=.success

/-- The lookup finds successes only. -/
theorem findCurrent_success {db : Db} {key : ExecutionKey} {current : MlExecution}
    (h : findCurrent key db=.ok (some current)) : current.executionState=.success := by
  obtain ⟨row,hrow,hload⟩ := findCurrent_some h
  have hservable := (Db.currentRow_mem hrow).2.2
  exact loadExecution_state hload ((MutableColumns.servable_iff _).mp hservable).1

section Schedules
variable {Command : Type} {locks : LockMode} {faults : Faults Command} {caller : ThreadId}

/-- The answers to a thread, those to the caller being watched. -/
def hitAnswers (locks : LockMode) (faults : Faults Command) (caller thread : ThreadId) :
    Sem (Call Command) Call.Ret PyExc (World × HitWatch) := fun call s r s' =>
  Answers locks faults thread call s.1 r s'.1 ∧ s'.2=if thread=caller then watchHit call r s.2 else s.2

/-- An answer keeps that what was found is a success. -/
theorem FoundSuccess.watch {thread : ThreadId} {call : Call Command} {r : Except PyExc call.Ret} {w w' : World} {m : HitWatch}
    (h : FoundSuccess m) (hcall : Answers locks faults thread call w r w') : FoundSuccess (watchHit call r m) := by
  have hquiet : (watchHit call r m).found=m.found → FoundSuccess (watchHit call r m) := by
    intro heq current hcurrent
    exact h current (heq ▸ hcurrent)
  cases call with
  | store call =>
    cases call with
    | findCurrent key =>
      cases r with
      | error e => exact hquiet rfl
      | ok found =>
        obtain ⟨now,db,ht,_⟩ := answers_store_ok hcall
        intro current hcurrent
        have hfound : found=some current := hcurrent
        rw [hfound] at ht
        exact findCurrent_success (reading_ok.mp ht).1
    | _ => exact hquiet rfl
  | runClient command => cases r <;> exact hquiet rfl
  | _ => exact hquiet rfl

/-- The caller's turns; the other threads do what they like. -/
def hitTurns (caller thread : ThreadId) : Turns (Call Command) Call.Ret PyExc HitWatch := fun m call r m' =>
  thread=caller → m'=watchHit call r m

/-- Every schedule keeps the caller's watch. -/
theorem keeps_hits : PoolKeeps (hitTurns caller) (hitAnswers locks faults caller)
    fun phases s => phases caller=s.2 ∧ FoundSuccess s.2 := by
  intro phases thread call r m' s s' hturn hsem h
  obtain ⟨hcall,hwatch⟩ := hsem
  obtain ⟨hphase,hfound⟩ := h
  by_cases hthread : thread=caller
  · subst hthread
    have hm : m'=watchHit call r s.2 := (hturn rfl).trans (congrArg _ hphase)
    rw [if_pos rfl] at hwatch
    rw [hwatch,Function.update_self]
    exact ⟨hm,hfound.watch hcall⟩
  · rw [if_neg hthread] at hwatch
    rw [hwatch,Function.update_of_ne (Ne.symm hthread)]
    exact ⟨hphase,hfound⟩

/-- Any program makes the turns of a thread that is not the caller. -/
theorem follows_other {α : Type} {thread : ThreadId} (h : thread≠caller) (p : ServiceM Command α) (m : HitWatch) :
    Follows (hitTurns caller thread) (fun _ _ => True) p m := by
  induction p generalizing m with
  | done r => exact trivial
  | call op next ih => exact fun r => ⟨m,fun heq => absurd heq h,ih r m⟩

end Schedules

section Flag
variable {sha256 : Bytes → Digest} {fileFingerprint : PyStr → Except PyExc PyStr} {maxSize : Option ℕ}
  {fingerprint : Bytes → Digest} {executionKindFor : PyStr → Except PyExc ExecutionKind} {decodeReplace : Bytes → PyStr}
  {body : RunBody} {eventStream : Bool}

/-- A reply tells of an execution that was replayed or is fresh. -/
def Reported (r : Except PyExc RunReply) (m : HitWatch) : Prop :=
  ∀ reply,r=.ok reply → ∃ execution,reply.response.cacheHit=wasCacheHit execution ∧
    (Replayed execution m ∨ Fresh execution m)

/-- The route builds a command that may replay and that keeps no input. -/
theorem follows_run :
    Follows (monitored watchHit) Reported
      (run (runMlExecutionService sha256 fileFingerprint maxSize) fingerprint executionKindFor decodeReplace body eventStream)
      HitWatch.blank := by
  have herr : ∀ (e : PyExc) (m : HitWatch),Reported (.error e) m := fun e m reply h => nomatch h
  unfold run
  cases hbuild : buildCommand executionKindFor body with
  | error e => exact herr e _
  | ok command =>
    obtain ⟨kind,_,hcommand⟩ := ok_of_bind hbuild
    cases Except.ok.inj hcommand
    rw [ofExcept_ok_bind]
    have hcacheable : ∀ command : RunMlExecutionCommand,command.allowPaths=[] → command.isUncacheable=false := by
      intro command hpaths
      unfold RunMlExecutionCommand.isUncacheable isCallUncacheable
      rw [hpaths]
      cases command.executionKind <;> rfl
    refine Follows.seq (follows_execute _ fingerprint rfl rfl rfl (hcacheable _ rfl)) (fun execution m h => ?_)
      fun e m _ => herr e m
    intro reply hreply
    have hcases := h execution rfl
    refine ⟨execution,?_,hcases⟩
    rw [← Except.ok.inj hreply]
    cases eventStream <;> rfl

/-- No client that was invoked ended in success, and an entry that was replayed has a stdout document. -/
def HitWatch.Truthful (m : HitWatch) : Prop :=
  (∀ result,m.result=some result → result.outcome≠.success) ∧
    (m.invoked=false → ∀ current,m.found=some current → hasStdout current.artifacts=true)

/-- The flag of a replay. -/
theorem Replayed.flag_iff {execution : MlExecution} {m : HitWatch} (h : Replayed execution m) (hfound : FoundSuccess m) :
    (wasCacheHit execution=true ↔ m.invoked=false) ↔ m.Truthful := by
  obtain ⟨hinvoked,hresult,current,hcurrent,hstate,hstdout⟩ := h
  have hflag : wasCacheHit execution=hasStdout current.artifacts := by
    rw [wasCacheHit,hstate,hfound current hcurrent,hstdout]
    rfl
  rw [hflag]
  constructor
  · intro hiff
    refine ⟨fun result heq => ?_,fun _ current' heq => ?_⟩
    · rw [hresult] at heq
      exact nomatch heq
    · have hsame : current=current' := Option.some.inj (hcurrent.symm.trans heq)
      exact hsame ▸ hiff.mpr hinvoked
  · intro htruthful
    exact iff_of_true (htruthful.2 hinvoked current hcurrent) hinvoked

/-- The flag of a fresh execution. -/
theorem Fresh.flag_iff {execution : MlExecution} {m : HitWatch} (h : Fresh execution m) :
    (wasCacheHit execution=true ↔ m.invoked=false) ↔ m.Truthful := by
  obtain ⟨hinvoked,result,hresult,hstate,hstdout⟩ := h
  have hflag : wasCacheHit execution=true ↔ result.outcome=.success := by
    rw [wasCacheHit,hstate,hstdout,Bool.and_true,decide_eq_true_iff]
  have hcalled : ¬ m.invoked=false := by
    rw [hinvoked]
    exact Bool.noConfusion
  rw [hflag]
  constructor
  · intro hiff
    refine ⟨fun result' heq hsuccess => ?_,fun hnone => absurd hnone hcalled⟩
    have hsame : result=result' := Option.some.inj (hresult.symm.trans heq)
    exact hcalled (hiff.mp (hsame ▸ hsuccess))
  · intro htruthful
    exact iff_of_false (htruthful.1 result hresult) hcalled

/-- In every schedule of a request among any other callers, from any store: where the request is
answered, the flag tells a replay from a fresh run exactly when no client that it invoked ended in
success and the entry it found has a stdout document. -/
theorem cache_hit_iff {locks : LockMode} {faults : Faults RunMlExecutionCommand} {caller : ThreadId} {w : World}
    {programs : ThreadId → ServiceM RunMlExecutionCommand RunReply}
    {c : Pool (Call RunMlExecutionCommand) Call.Ret PyExc (fun _ : ThreadId => RunReply) (World × HitWatch)}
    {reply : RunReply}
    (hrequest : programs caller=
      run (runMlExecutionService sha256 fileFingerprint maxSize) fingerprint executionKindFor decodeReplace body eventStream)
    (hrun : PoolReach (hitAnswers locks faults caller) (programs,(w,HitWatch.blank)) c)
    (hend : c.1 caller=.done (.ok reply)) :
    (reply.response.cacheHit=true ↔ c.2.2.invoked=false) ↔ c.2.2.Truthful := by
  have hfollows : PoolFollows (hitTurns caller) (fun thread r m => thread=caller → Reported r m)
      programs (fun _ => HitWatch.blank) := by
    intro thread
    by_cases hthread : thread=caller
    · subst hthread
      rw [hrequest]
      exact follows_run.mono (fun _ _ _ _ hturn _ => hturn) fun _ _ hpost _ => hpost
    · exact (follows_other hthread (programs thread) HitWatch.blank).weaken fun _ _ _ heq => absurd heq hthread
  have hblank : FoundSuccess HitWatch.blank := fun _ h => nomatch h
  obtain ⟨phases,⟨hphase,hfound⟩,hrest⟩ := keeps_hits.reach hfollows ⟨rfl,hblank⟩ hrun
  have hpost := hrest caller
  rw [hend,hphase] at hpost
  obtain ⟨execution,hflag,hcases⟩ := hpost rfl reply rfl
  rw [hflag]
  rcases hcases with hreplayed | hfresh
  · exact hreplayed.flag_iff hfound
  · exact hfresh.flag_iff

end Flag

/-- Decoding of octets below 128, and of no others here. -/
def decodeAscii (content : Bytes) : PyStr :=
  content.map fun octet => ⟨octet.toNat,lt_trans octet.toNat_lt (by decide)⟩

/-- The same request, from any thread. -/
def promptRequest (_ : ThreadId) : ServiceM RunMlExecutionCommand RunReply :=
  run promptService positional (fun _ => .ok .api) decodeAscii
    { client := pyStr "openai", model := pyStr "m", prompt := pyStr "p" } false

/-- Answer a call of the thread, with a client that succeeds, and watch those of the caller. -/
def watchedCall (caller thread : ThreadId) :
    ThreadId × Handler (Call RunMlExecutionCommand) Call.Ret PyExc (World × HitWatch) :=
  (thread,fun call s =>
    (answerWith .exclusive thread 0 (.ok { exitCode := 0, stdout := pyStr "o" }) ⟨thread⟩ call s.1).map fun answer =>
      (answer.1,answer.2,if thread=caller then watchHit call answer.1 s.2 else s.2))

/-- It answers as the ports may. -/
theorem watchedCall_respects (caller thread : ThreadId) : (watchedCall caller thread).2.Respects
    (hitAnswers .exclusive (noFaults : Faults RunMlExecutionCommand) caller thread) := by
  intro call s r s' h
  obtain ⟨answer,hanswer,heq⟩ := Option.map_eq_some_iff.mp h
  cases heq
  exact ⟨answerWith_respects _ _ _ call s.1 _ _ hanswer,rfl⟩

/-- A first request, and then a second one, the caller's being watched. -/
def twoRequests (caller : ThreadId) :
    Pool (Call RunMlExecutionCommand) Call.Ret PyExc (fun _ : ThreadId => RunReply) (World × HitWatch) :=
  drivePool (List.replicate 30 (watchedCall caller 0) ++ List.replicate 30 (watchedCall caller 1))
    (promptRequest,(World.empty,HitWatch.blank))

/-- It is a run. -/
theorem twoRequests_reach (caller : ThreadId) :
    PoolReach (hitAnswers .exclusive (noFaults : Faults RunMlExecutionCommand) caller)
      (promptRequest,(World.empty,HitWatch.blank)) (twoRequests caller) := by
  refine drivePool_reach _ (fun entry hentry => ?_) _
  rcases List.mem_append.mp hentry with hmem | hmem
  · rw [List.eq_of_mem_replicate hmem]
    exact watchedCall_respects caller 0
  · rw [List.eq_of_mem_replicate hmem]
    exact watchedCall_respects caller 1

/-- The second request is a replay, and it is reported as a hit. -/
theorem cache_hit_replay : ∃ reply,(twoRequests 1).1 1=.done (.ok reply) ∧ reply.response.cacheHit=true ∧
    (twoRequests 1).2.2.invoked=false ∧ (twoRequests 1).2.2.Truthful := by
  have hvalue : (((twoRequests 1).1 1).value.map (·.response.cacheHit),(twoRequests 1).2.2.invoked)=(some true,false) := by
    decide +kernel
  obtain ⟨hreply,hinvoked⟩ := Prod.mk.inj hvalue
  obtain ⟨reply,hreply,hhit⟩ := Option.map_eq_some_iff.mp hreply
  have hend := Prog.value_eq_some.mp hreply
  have hrequest : promptRequest 1=run promptService positional (fun _ => .ok .api) decodeAscii
      { client := pyStr "openai", model := pyStr "m", prompt := pyStr "p" } false := rfl
  have htruthful := (cache_hit_iff hrequest (twoRequests_reach 1) hend).mp (iff_of_true hhit hinvoked)
  exact ⟨reply,hend,hhit,hinvoked,htruthful⟩

/-- The first request invokes its client, and it is reported as a hit too. -/
theorem cache_hit_fails :
    ¬ ∀ (programs : ThreadId → ServiceM RunMlExecutionCommand RunReply)
      (c : Pool (Call RunMlExecutionCommand) Call.Ret PyExc (fun _ : ThreadId => RunReply) (World × HitWatch))
      (reply : RunReply),programs 0=promptRequest 0 →
      PoolReach (hitAnswers .exclusive (noFaults : Faults RunMlExecutionCommand) 0)
        (programs,(World.empty,HitWatch.blank)) c → c.1 0=.done (.ok reply) →
      (reply.response.cacheHit=true ↔ c.2.2.invoked=false) := by
  intro h
  have hvalue : (((twoRequests 0).1 0).value.map (·.response.cacheHit),(twoRequests 0).2.2.invoked)=(some true,true) := by
    decide +kernel
  obtain ⟨hreply,hinvoked⟩ := Prod.mk.inj hvalue
  obtain ⟨reply,hreply,hhit⟩ := Option.map_eq_some_iff.mp hreply
  have hquiet := (h promptRequest _ reply rfl (twoRequests_reach 0) (Prog.value_eq_some.mp hreply)).mp hhit
  exact Bool.noConfusion (hinvoked.symm.trans hquiet)

end GenericMlCache.ReportedHits
