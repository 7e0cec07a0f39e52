import GenericMlCache.ExecuteCalls
import GenericMlCache.FaithfulReplay

/-!
# Paid-for answers

What becomes of a result that the client returned, whatever the calls after it
answer. A watch remembers the result and whether a later call raised something
that the document loops do not catch.
-/

namespace GenericMlCache.PaidAnswers

open CallProgram CallAutomaton PythonText ExecutionModel RepositoryCalls ServicePorts StorePurge
  CachedExecution ExecuteCalls ServiceOperations FaithfulReplay

/-- A document as its reader sees it. -/
abbrev Document := ArtifactType × Option PyStr × Option Bytes

/-- The documents of a client result: stdout, stderr, then the produced files. -/
def documentsOf (result : ClientRunResult) : Except PyExc (List Document) := do
  let stdout ← encodeText result.stdout
  let stderr ← encodeText result.stderr
  return (.stdout,none,some stdout)::(.stderr,none,some stderr)::
    result.files.map fun file => (.outputFile,some file.name,some file.content)

/-- The execution's output is what the client returned. -/
def Carries (execution : MlExecution) (result : ClientRunResult) : Prop :=
  documentsOf result=.ok ((outputOf execution.artifacts).map document)

section Documents
variable {fingerprint : Bytes → Digest} {Command : Type} {service : CachedMlExecutionService Command}

/-- The output artifacts of a result hold its documents. -/
theorem documents_of_build {executionId : ExecutionId} {result : ClientRunResult} {status : ArtifactStatus}
    {artifacts : List Artifact} (h : buildArtifacts fingerprint executionId result status=.ok artifacts) :
    documentsOf result=.ok (artifacts.map document) := by
  unfold buildArtifacts at h
  unfold documentsOf
  cases hout : encodeText result.stdout with
  | error e =>
    rw [hout] at h
    cases h
  | ok stdout =>
    cases herr : encodeText result.stderr with
    | error e =>
      rw [hout,herr] at h
      cases h
    | ok stderr =>
      rw [hout,herr] at h
      cases h
      have hfiles : (result.files.map fun file => makeArtifact fingerprint executionId .outputFile
          (some file.name) file.content status).map document=
          result.files.map fun file => (.outputFile,some file.name,some file.content) := by
        rw [List.map_map]
        rfl
      show Except.ok _=Except.ok _
      rw [List.map_cons,List.map_cons,hfiles]
      rfl

/-- A result whose artifacts cannot be built has no documents to carry. -/
theorem documents_of_build_error {executionId : ExecutionId} {result : ClientRunResult}
    {status : ArtifactStatus} {e : PyExc} (h : buildArtifacts fingerprint executionId result status=.error e) :
    documentsOf result=.error e := by
  unfold buildArtifacts at h
  unfold documentsOf
  cases hout : encodeText result.stdout with
  | error e' =>
    rw [hout] at h
    cases h
    rfl
  | ok stdout =>
    cases herr : encodeText result.stderr with
    | error e' =>
      rw [hout,herr] at h
      cases h
      rfl
    | ok stderr =>
      rw [hout,herr] at h
      cases h

/-- The documents of the output. -/
theorem map_document_outputOf (artifacts : List Artifact) :
    (outputOf artifacts).map document=(artifacts.map document).filter fun d => !d.1.isInput := by
  unfold outputOf
  rw [List.filter_map]
  rfl

/-- The documents of a result are output. -/
theorem documentsOf_filter {result : ClientRunResult} {documents : List Document}
    (h : documentsOf result=.ok documents) :
    documents.filter (fun d => !d.1.isInput)=documents := by
  unfold documentsOf at h
  cases hout : encodeText result.stdout with
  | error e =>
    rw [hout] at h
    cases h
  | ok stdout =>
    cases herr : encodeText result.stderr with
    | error e =>
      rw [hout,herr] at h
      cases h
    | ok stderr =>
      rw [hout,herr] at h
      cases h
      refine List.filter_eq_self.mpr fun d hd => ?_
      rcases List.mem_cons.mp hd with rfl | hd
      · rfl
      · rcases List.mem_cons.mp hd with rfl | hd
        · rfl
        · obtain ⟨file,_,rfl⟩ := List.mem_map.mp hd
          rfl

/-- Input artifacts are input. -/
theorem input_of_build {executionId : ExecutionId} {command : Command} {status : ArtifactStatus}
    {artifacts : List Artifact}
    (h : buildInputArtifacts service fingerprint executionId command status=.ok artifacts) :
    ∀ artifact∈artifacts,artifact.artifactType.isInput=true := by
  unfold buildInputArtifacts at h
  cases hparts : service.inputParts command with
  | error e =>
    rw [hparts] at h
    cases h
  | ok parts =>
    rw [hparts] at h
    cases h
    intro artifact hmem
    obtain ⟨part,_,rfl⟩ := List.mem_map.mp hmem
    exact part.isInput

/-- An execution with the output of a result, and some input, carries it. -/
theorem carries_of_documents {execution : MlExecution} {result : ClientRunResult}
    {outputs inputs : List Artifact} (hout : documentsOf result=.ok (outputs.map document))
    (hin : ∀ artifact∈inputs,artifact.artifactType.isInput=true)
    (h : execution.artifacts.map document=(outputs ++ inputs).map document) : Carries execution result := by
  have hinputs : (inputs.map document).filter (fun d => !d.1.isInput)=[] := by
    refine List.filter_eq_nil_iff.mpr fun d hd => ?_
    obtain ⟨artifact,hmem,rfl⟩ := List.mem_map.mp hd
    simp [document,hin artifact hmem]
  unfold Carries
  rw [map_document_outputOf,h,List.map_append,List.filter_append,documentsOf_filter hout,hinputs,
    List.append_nil]
  exact hout

end Documents

/-- What became of the client's result. -/
structure AnswerWatch where
  /-- The result that the client returned. -/
  answer : Option ClientRunResult
  /-- After it a call raised, and no document loop caught it, or an eviction listed a size that is a text. -/
  lost : Bool

/-- Before the client ran. -/
def AnswerWatch.blank : AnswerWatch := ⟨none,false⟩

/-- Keep the watch. -/
def watchAnswer {Command : Type} :
    (call : Call Command) → Except PyExc call.Ret → AnswerWatch → AnswerWatch
  | .runClient _,.ok result,m => { m with answer := some result }
  | .store (.findAll _),.ok executions,m =>
    { m with lost := m.lost || (m.answer.isSome && !addable (blobSizes executions)) }
  | call,.error e,m =>
    { m with lost := m.lost || (m.answer.isSome && !(isGuarded call && e.isException)) }
  | _,.ok _,m => m

section Watching
variable {Command α β : Type} {result : ClientRunResult}

/-- A call that raised. -/
theorem watchAnswer_error {call : Call Command} (e : PyExc) (m : AnswerWatch) :
    watchAnswer call (.error e) m=
      { m with lost := m.lost || (m.answer.isSome && !(isGuarded call && e.isException)) } := by
  cases call with
  | store call => cases call <;> rfl
  | _ => rfl

/-- A call other than the client's and the query for sizes that succeeded. -/
theorem watchAnswer_ok {call : Call Command} (h : isClient call=false) (hsizing : isSizing call=false)
    (v : call.Ret) (m : AnswerWatch) : watchAnswer call (.ok v) m=m := by
  cases call with
  | runClient command => cases h
  | store call => cases call <;> first | rfl | cases hsizing
  | _ => rfl

/-- A call other than the client's, before its return. -/
theorem watchAnswer_blank {call : Call Command} (h : isClient call=false) (v : call.Ret) :
    watchAnswer call (.ok v) AnswerWatch.blank=AnswerWatch.blank := by
  cases call with
  | runClient command => cases h
  | store call => cases call <;> rfl
  | _ => rfl

/-- Without the client's call nothing is there to lose. -/
theorem blank_of_uses {p : ServiceM Command α} (h : Uses (fun call => isClient call=false) p) :
    Follows (monitored watchAnswer) (fun _ m => m=AnswerWatch.blank) p AnswerWatch.blank := by
  refine Follows.of_uses h (fun call r m hcall hm => ?_) rfl
  subst hm
  cases r with
  | ok v => exact watchAnswer_blank hcall v
  | error e => exact watchAnswer_error e _

/-- A part after the client's return: it has its value and nothing is lost, or
its error goes on and the answer is lost. -/
def Survived (result : ClientRunResult) (V : α → Prop) (r : Except PyExc α) (m : AnswerWatch) : Prop :=
  match r with
  | .ok v => m=⟨some result,false⟩ ∧ V v
  | .error _ => m=⟨some result,true⟩

/-- The part survives, with a value of `V`. -/
abbrev Survives (result : ClientRunResult) (V : α → Prop) (p : ServiceM Command α) : Prop :=
  Follows (monitored watchAnswer) (Survived result V) p ⟨some result,false⟩

/-- A call whose errors are not caught, other than the client's and the query for sizes. -/
def isLosing (call : Call Command) : Bool := !isGuarded call && !isClient call && !isSizing call

/-- A silent call that lists no sizes is one. -/
theorem isLosing_of_isSilent {call : Call Command} (h : isSilent call) (hsizing : isSizing call=false) :
    isLosing call=true := by
  cases call with
  | runClient command => cases h.1
  | _ => simp [isLosing,h.2,hsizing,isClient]

/-- What a losing call does after the client's return. -/
theorem watchAnswer_losing {call : Call Command} (h : isLosing call=true) (e : PyExc) (lost : Bool) :
    watchAnswer call (.error e) ⟨some result,lost⟩=⟨some result,true⟩ := by
  simp only [isLosing,Bool.and_eq_true,Bool.not_eq_true'] at h
  rw [watchAnswer_error,h.1.1]
  simp

/-- A losing call that succeeds. -/
theorem watchAnswer_kept {call : Call Command} (h : isLosing call=true) (v : call.Ret) (m : AnswerWatch) :
    watchAnswer call (.ok v) m=m := by
  simp only [isLosing,Bool.and_eq_true,Bool.not_eq_true'] at h
  exact watchAnswer_ok h.1.2 h.2 v m

/-- Once lost, the answer stays lost. -/
theorem watchAnswer_lost {call : Call Command} (h : isClient call=false) (r : Except PyExc call.Ret) :
    watchAnswer call r ⟨some result,true⟩=⟨some result,true⟩ := by
  cases r with
  | error e => exact watchAnswer_error e _
  | ok v =>
    cases call with
    | runClient command => cases h
    | store call => cases call <;> rfl
    | _ => rfl

/-- One losing call survives. -/
theorem survives_ask {call : Call Command} (h : isLosing call=true) :
    Survives result (fun _ => True) (ask call) := by
  refine Follows.watch_perform fun r => ?_
  cases r with
  | ok v => exact ⟨watchAnswer_kept h v _,trivial⟩
  | error e => exact watchAnswer_losing h e false

/-- A sequence of surviving parts survives. -/
theorem survives_bind {V : α → Prop} {W : β → Prop} {p : ServiceM Command α} {f : α → ServiceM Command β}
    (h : Survives result V p) (hf : ∀ v,V v → Survives result W (f v)) : Survives result W (p >>= f) := by
  refine Follows.seq h (fun v m hm => ?_) fun e m hm => hm
  obtain ⟨rfl,hv⟩ := hm
  exact hf v hv

/-- A value survives. -/
theorem survives_pure {V : α → Prop} {v : α} (h : V v) :
    Survives result V (pure v : ServiceM Command α) := ⟨rfl,h⟩

/-- A cleanup keeps what was lost, and loses the answer where it raises. -/
def Cleaned (result : ClientRunResult) (lost : Bool) : Except PyExc α → AnswerWatch → Prop
  | .ok _,m => m=⟨some result,lost⟩
  | .error _,m => m=⟨some result,true⟩

/-- A body survives with such a cleanup as it does alone. -/
theorem survives_ensure {V : α → Prop} {body : ServiceM Command α} {cleanup : ServiceM Command Unit}
    (h : Survives result V body)
    (hclean : ∀ lost,Follows (monitored watchAnswer) (Cleaned result lost) cleanup ⟨some result,lost⟩) :
    Survives result V (ensure body cleanup) := by
  refine Follows.ensure (h.weaken fun r m hm => ?_)
  cases r with
  | ok v =>
    obtain ⟨rfl,hv⟩ := hm
    refine (hclean false).weaken fun c m' hc => ?_
    cases c with
    | ok u => exact ⟨hc,hv⟩
    | error e => exact hc
  | error e =>
    obtain rfl : m=⟨some result,true⟩ := hm
    refine (hclean true).weaken fun c m' hc => ?_
    cases c <;> exact hc

/-- A losing call is such a cleanup. -/
theorem cleans_ask {call : Call Command} (h : isLosing call=true) (lost : Bool) :
    Follows (monitored watchAnswer) (Cleaned result lost) (ask call) ⟨some result,lost⟩ := by
  refine Follows.watch_perform fun r => ?_
  cases r with
  | ok v => exact watchAnswer_kept h v _
  | error e => exact watchAnswer_losing h e lost

/-- A body under the shared store lock survives as it does alone. -/
theorem survives_withContentWriteLock {V : α → Prop} {body : ServiceM Command α}
    (h : Survives result V body) : Survives result V (withContentWriteLock body) :=
  survives_bind (survives_ask rfl) fun _ _ => survives_ensure h (cleans_ask rfl)

/-- A guarded call, attempted: it succeeded or raised an exception, or what
it raised passes every handler. -/
def Guarded (result : ClientRunResult) (r : Except PyExc (Except PyExc α)) (m : AnswerWatch) : Prop :=
  match r with
  | .ok (.error e) => m=⟨some result,!e.isException⟩
  | .ok (.ok _) => m=⟨some result,false⟩
  | .error _ => False

/-- What an attempted guarded call leaves. -/
theorem survives_guarded {call : Call Command} (h : isGuarded call=true) (hclient : isClient call=false)
    (hsizing : isSizing call=false) :
    Follows (monitored watchAnswer) (Guarded result) (attempt (ask call)) ⟨some result,false⟩ := by
  refine Follows.attempt (Follows.watch_perform fun r => ?_)
  cases r with
  | ok v => exact watchAnswer_ok hclient hsizing v _
  | error e =>
    show watchAnswer call (.error e) _=_
    rw [watchAnswer_error,h]
    simp

/-- Storing one blob survives, and its document stays what it was. -/
theorem survives_storeBlob (executionId : ExecutionId) (artifact : Artifact) :
    Survives result (fun stored => document stored=document artifact)
      (storeBlob executionId artifact : ServiceM Command Artifact) := by
  have hraise : ∀ {e : PyExc} {m : AnswerWatch},¬e.isException=true → m=⟨some result,!e.isException⟩ →
      m=⟨some result,true⟩ := by
    intro e m he hm
    rw [hm]
    simp [he]
  have hcaught : ∀ {e : PyExc} {m : AnswerWatch},e.isException=true → m=⟨some result,!e.isException⟩ →
      m=⟨some result,false⟩ := by
    intro e m he hm
    rw [hm]
    simp [he]
  refine Follows.seq (survives_guarded rfl rfl rfl) (fun put m hm => ?_) fun e m hm => hm.elim
  cases put with
  | error e =>
    refine Follows.ite (fun he => ?_) fun he => hraise he hm
    rw [hcaught he hm]
    exact survives_bind (survives_ask rfl) fun _ _ => survives_pure rfl
  | ok _ =>
    rw [show m=⟨some result,false⟩ from hm]
    refine Follows.seq (survives_guarded rfl rfl rfl) (fun marked m hm => ?_) fun e m hm => hm.elim
    cases marked with
    | error e =>
      refine Follows.ite (fun he => ?_) fun he => hraise he hm
      rw [hcaught he hm]
      exact survives_pure rfl
    | ok _ =>
      rw [show m=⟨some result,false⟩ from hm]
      exact survives_pure rfl

/-- The document loop survives, and its documents stay what they were. -/
theorem survives_persistDocuments (executionId : ExecutionId) (artifacts : List Artifact) :
    Survives result (fun resolved => resolved.1.map document=artifacts.map document)
      (persistDocuments executionId artifacts : ServiceM Command (List Artifact × Bool)) := by
  induction artifacts with
  | nil => exact survives_pure rfl
  | cons artifact rest ih =>
    refine survives_bind (survives_ask rfl) fun _ _ => ?_
    refine survives_bind (survives_storeBlob executionId artifact) fun stored hstored => ?_
    refine survives_bind ih fun resolved hresolved => survives_pure ?_
    rw [List.map_cons,List.map_cons,hstored,hresolved]

end Watching

section Flow
variable {Command : Type} (service : CachedMlExecutionService Command) (fingerprint : Bytes → Digest)

/-- A run of the command with this result records its input. -/
def recordsInput (command : Command) (result : ClientRunResult) : Bool :=
  !service.isUncacheable command && (service.persistenceDepth command).storesInput &&
    service.shouldPersist command result.succeeded

/-- The result's text encodes, and so does the input that is recorded with it. -/
def Recordable (command : Command) (result : ClientRunResult) : Prop :=
  (∃ documents,documentsOf result=.ok documents) ∧
    (recordsInput service command result=true → ∃ parts,service.inputParts command=.ok parts)

/-- An execute carries its client's result, if and only if nothing was lost
after the client's return and the result can be recorded. -/
def Kept (command : Command) (r : Except PyExc MlExecution) (m : AnswerWatch) : Prop :=
  ∀ result,m.answer=some result → ((∃ execution,r=.ok execution ∧ Carries execution result) ↔
    m.lost=false ∧ Recordable service command result)

variable {service fingerprint} {command : Command} {result : ClientRunResult}

/-- Where the client did not run there is nothing to keep. -/
theorem kept_blank (r : Except PyExc MlExecution) : Kept service command r AnswerWatch.blank :=
  fun _ h => nomatch h

/-- A lost answer is not carried. -/
theorem kept_lost (e : PyExc) : Kept service command (.error e) ⟨some result,true⟩ := by
  intro result' _
  constructor
  · rintro ⟨_,h,_⟩
    cases h
  · rintro ⟨h,_⟩
    cases h

/-- An answer that cannot be recorded is not carried. -/
theorem kept_unrecordable (e : PyExc) (h : ¬Recordable service command result) :
    Kept service command (.error e) ⟨some result,false⟩ := by
  intro result' hresult
  cases hresult
  constructor
  · rintro ⟨_,hr,_⟩
    cases hr
  · exact fun hrec => absurd hrec.2 h

/-- A carried answer is kept. -/
theorem kept_carried {execution : MlExecution} (h : Recordable service command result)
    (hcarries : Carries execution result) : Kept service command (.ok execution) ⟨some result,false⟩ := by
  intro result' hresult
  cases hresult
  exact ⟨fun _ => ⟨rfl,h⟩,fun _ => ⟨execution,rfl,hcarries⟩⟩

/-- A surviving part, and what is done with its value. -/
theorem Survives.seq {β : Type} {V : β → Prop} {p : ServiceM Command β} {f : β → ServiceM Command MlExecution}
    (h : Survives result V p)
    (hf : ∀ v,V v → Follows (monitored watchAnswer) (Kept service command) (f v) ⟨some result,false⟩) :
    Follows (monitored watchAnswer) (Kept service command) (p >>= f) ⟨some result,false⟩ := by
  refine Follows.seq h (fun v m hm => ?_) fun e m hm => ?_
  · obtain ⟨rfl,hv⟩ := hm
    exact hf v hv
  · rw [show m=⟨some result,true⟩ from hm]
    exact kept_lost e

/-- A part before the client's call. -/
theorem follows_before {β : Type} {p : ServiceM Command β} {f : β → ServiceM Command MlExecution}
    (h : Uses (fun call => isClient call=false) p)
    (hf : ∀ v,Follows (monitored watchAnswer) (Kept service command) (f v) AnswerWatch.blank) :
    Follows (monitored watchAnswer) (Kept service command) (p >>= f) AnswerWatch.blank := by
  refine Follows.seq (blank_of_uses h) (fun v m hm => ?_) fun e m hm => ?_
  · rw [hm]
    exact hf v
  · rw [hm]
    exact kept_blank _

/-- The output artifacts of a run are built, or its text does not encode. -/
theorem follows_build (executionId : ExecutionId) (status : ArtifactStatus)
    {f : List Artifact → ServiceM Command MlExecution}
    (hf : ∀ artifacts,documentsOf result=.ok (artifacts.map document) →
      Follows (monitored watchAnswer) (Kept service command) (f artifacts) ⟨some result,false⟩) :
    Follows (monitored watchAnswer) (Kept service command)
      (ofExcept (buildArtifacts fingerprint executionId result status) >>= f) ⟨some result,false⟩ := by
  cases hbuild : buildArtifacts fingerprint executionId result status with
  | error e =>
    refine kept_unrecordable e fun hrec => ?_
    obtain ⟨⟨documents,hdocuments⟩,_⟩ := hrec
    rw [documents_of_build_error hbuild] at hdocuments
    cases hdocuments
  | ok artifacts => exact hf artifacts (documents_of_build hbuild)

/-- A run that records no input, and shows its artifacts, carries its answer. -/
theorem kept_displayed (hinput : recordsInput service command result=false) {artifacts : List Artifact}
    (hdocuments : documentsOf result=.ok (artifacts.map document)) {execution : MlExecution}
    (h : execution.artifacts=artifacts) : Kept service command (.ok execution) ⟨some result,false⟩ := by
  refine kept_carried ⟨⟨_,hdocuments⟩,fun hr => by simp [hinput] at hr⟩ ?_
  refine carries_of_documents hdocuments (fun _ hmem => List.not_mem_nil hmem |>.elim) ?_
  rw [h,List.append_nil]

/-- A run that is recorded without its output carries its answer. -/
theorem follows_recordUnstored (hinput : recordsInput service command result=false) (key : ExecutionKey)
    (inProgress : MlExecution) :
    Follows (monitored watchAnswer) (Kept service command)
      (recordUnstored service fingerprint key command inProgress result) ⟨some result,false⟩ := by
  refine (survives_ask rfl).seq fun _ _ => ?_
  refine (survives_ask rfl).seq fun _ _ => ?_
  exact follows_build _ _ fun artifacts hdocuments => kept_displayed hinput hdocuments rfl

/-- Sizes that can be added up are, and their blobs are removed. -/
theorem survives_removeEach {sizes : List (BlobKey × Size)} (h : addable sizes=true) :
    Survives result (fun _ => True) (removeEach sizes : ServiceM Command ℕ) := by
  induction sizes with
  | nil => exact survives_pure trivial
  | cons entry rest ih =>
    obtain ⟨blobKey,size⟩ := entry
    obtain ⟨hsize,hrest⟩ := addable_cons.mp h
    refine survives_bind (survives_ask rfl) fun _ _ => ?_
    cases size with
    | bytes n =>
      show Survives result (fun _ => True) (removeEach rest >>= fun freed => pure (n+freed) : ServiceM Command ℕ)
      exact survives_bind (ih hrest) fun _ _ => survives_pure trivial
    | text text summed => cases hsize

/-- A size that is a text ends the loop in an error, if no call does. -/
theorem lost_removeEach {sizes : List (BlobKey × Size)} (h : addable sizes=false) :
    Follows (monitored watchAnswer) (Survived result fun _ => True) (removeEach sizes : ServiceM Command ℕ)
      ⟨some result,true⟩ := by
  induction sizes with
  | nil => cases h
  | cons entry rest ih =>
    obtain ⟨blobKey,size⟩ := entry
    refine Follows.watch_bind (fun _ => ?_) fun e => watchAnswer_lost rfl _
    rw [watchAnswer_lost rfl]
    cases size with
    | bytes n =>
      show Follows _ _ (removeEach rest >>= fun freed => pure (n+freed) : ServiceM Command ℕ) _
      exact (ih h).seq (fun _ m hm => ⟨hm.1,trivial⟩) fun _ m hm => hm
    | text text summed => exact rfl

/-- One key of an eviction: what it listed tells whether its sizes end it. -/
theorem survives_purgeKey (key : ExecutionKey) :
    Survives result (fun _ => True) (purgeKey softDrop key : ServiceM Command (ℕ × ℕ)) := by
  refine survives_bind (survives_ask rfl) fun _ _ => survives_ensure ?_ (cleans_ask rfl)
  refine Follows.bind (Follows.watch_bind (fun executions => ?_) fun e => watchAnswer_error e _)
  cases hsizes : addable (blobSizes executions) with
  | true =>
    have hwatch : watchAnswer (.store (.findAll key) : Call Command) (.ok executions) ⟨some result,false⟩=
        ⟨some result,false⟩ := by
      simp [watchAnswer,hsizes]
    rw [hwatch]
    exact survives_bind (survives_ask rfl) fun _ _ => survives_bind (survives_removeEach hsizes) fun _ _ => survives_pure trivial
  | false =>
    have hwatch : watchAnswer (.store (.findAll key) : Call Command) (.ok executions) ⟨some result,false⟩=
        ⟨some result,true⟩ := by
      simp [watchAnswer,hsizes]
    rw [hwatch]
    refine Follows.watch_bind (fun _ => ?_) fun e => watchAnswer_lost rfl _
    rw [watchAnswer_lost rfl]
    exact (lost_removeEach hsizes).seq (fun _ m hm => ⟨hm.1,trivial⟩) fun _ m hm => hm

/-- The eviction after a recording survives. -/
theorem survives_afterRecord : Survives result (fun _ => True) (afterRecord service) :=
  afterRecord_of (S := fun _ p => Survives result (fun _ => True) p) (fun _ _ => survives_pure trivial)
    (fun _ _ _ _ hp hf => survives_bind hp fun a _ => hf a) survives_purgeKey
    (fun _ h hsizing => survives_ask (isLosing_of_isSilent h hsizing)) service

/-- The end of a recording survives. -/
theorem survives_concludeRecording (key : ExecutionKey) (executionId : ExecutionId) (allStored : Bool) :
    Survives result (fun _ => True) (concludeRecording service key command executionId allStored) := by
  refine Follows.ite (fun _ => ?_) fun _ => survives_ask rfl
  refine survives_bind (survives_ask rfl) fun _ _ => ?_
  refine survives_bind (survives_ask rfl) fun _ _ => ?_
  refine survives_bind (Follows.ite (fun _ => survives_pure trivial) fun _ => survives_ask rfl) fun _ _ => ?_
  exact survives_afterRecord

/-- What a recording records of its input. -/
theorem recordedInput_eq (hcacheable : service.isUncacheable command=false)
    (hpersist : service.shouldPersist command result.succeeded=true) (executionId : ExecutionId) :
    recordedInput service fingerprint executionId command=
      if recordsInput service command result=true then
        buildInputArtifacts service fingerprint executionId command .pending else .ok [] := by
  have hrecords : recordsInput service command result=(service.persistenceDepth command).storesInput := by
    simp [recordsInput,hcacheable,hpersist]
  rw [hrecords]
  rfl

/-- A recorded run carries its answer. -/
theorem follows_recordStored (hcacheable : service.isUncacheable command=false)
    (hpersist : service.shouldPersist command result.succeeded=true) (key : ExecutionKey)
    (inProgress : MlExecution) :
    Follows (monitored watchAnswer) (Kept service command)
      (recordStored service fingerprint key command inProgress result) ⟨some result,false⟩ := by
  refine (survives_ask rfl).seq fun _ _ => ?_
  refine follows_build _ _ fun outputs hdocuments => ?_
  rw [recordedInput_eq hcacheable hpersist]
  -- what is persisted after the output: the input parts, or nothing
  have hrest : ∀ inputs,(∀ artifact∈inputs,artifact.artifactType.isInput=true) →
      Recordable service command result → Follows (monitored watchAnswer) (Kept service command) (do
        let stored ← withContentWriteLock
          (persistDocuments (withOutcome inProgress result).executionId (outputs ++ inputs))
        concludeRecording service key command (withOutcome inProgress result).executionId stored.2
        return { withOutcome inProgress result with
          outputPersisted := stored.2
          inputPersisted := !inputs.isEmpty
          artifacts := stored.1 }) ⟨some result,false⟩ := by
    intro inputs hinputs hrecordable
    refine (survives_withContentWriteLock (survives_persistDocuments _ _)).seq fun stored hstored => ?_
    obtain ⟨resolved,allStored⟩ := stored
    refine (survives_concludeRecording _ _ _).seq fun _ _ => ?_
    exact kept_carried hrecordable (carries_of_documents hdocuments hinputs hstored)
  by_cases hrecords : recordsInput service command result=true
  · rw [if_pos hrecords]
    cases hparts : service.inputParts command with
    | error e =>
      have herror : buildInputArtifacts service fingerprint (withOutcome inProgress result).executionId
          command .pending=.error e := by
        unfold buildInputArtifacts
        rw [hparts]
        rfl
      rw [herror]
      refine kept_unrecordable e fun hrec => ?_
      obtain ⟨parts,hok⟩ := hrec.2 hrecords
      rw [hparts] at hok
      cases hok
    | ok parts =>
      cases hinputs : buildInputArtifacts service fingerprint
          (withOutcome inProgress result).executionId command .pending with
      | error e =>
        unfold buildInputArtifacts at hinputs
        rw [hparts] at hinputs
        cases hinputs
      | ok inputs => exact hrest inputs (input_of_build hinputs) ⟨⟨_,hdocuments⟩,fun _ => ⟨parts,hparts⟩⟩
  · rw [if_neg hrecords]
    exact hrest [] (fun _ hmem => (by cases hmem)) ⟨⟨_,hdocuments⟩,fun hr => absurd hr hrecords⟩

/-- The client's call: it returned, or there is no answer. -/
theorem follows_client {f : ClientRunResult → ServiceM Command MlExecution}
    (hf : ∀ result,Follows (monitored watchAnswer) (Kept service command) (f result) ⟨some result,false⟩) :
    Follows (monitored watchAnswer) (Kept service command) (ask (.runClient command) >>= f)
      AnswerWatch.blank := by
  refine Follows.watch_bind (fun result => hf result) fun e => ?_
  rw [watchAnswer_error]
  exact kept_blank _

/-- A client's outcome: an answer that is not lost, or none. -/
def ClientOutcome (r : Except PyExc ClientRunResult) (m : AnswerWatch) : Prop :=
  match r with
  | .ok result => m=⟨some result,false⟩
  | .error _ => m=AnswerWatch.blank

/-- The recorded client's outcome. -/
theorem follows_runRecordedClient (inProgress : MlExecution) :
    Follows (monitored watchAnswer) ClientOutcome (runRecordedClient command inProgress)
      AnswerWatch.blank := by
  have hclient : Follows (monitored watchAnswer)
      (fun r m => m=watchAnswer (.runClient command) r AnswerWatch.blank)
      (ask (.runClient command) : ServiceM Command ClientRunResult) AnswerWatch.blank :=
    Follows.watch_perform fun _ => rfl
  refine Follows.attempt_seq hclient fun r m hm => ?_
  subst hm
  cases r with
  | ok result => exact rfl
  | error e =>
    rw [watchAnswer_error]
    have hresolve : ∀ {p : ServiceM Command Unit},Uses (fun call => isClient call=false) p →
        Follows (monitored watchAnswer) ClientOutcome (p >>= fun _ => raise e) AnswerWatch.blank :=
      fun hp => Follows.seq (blank_of_uses hp) (fun _ _ hm => hm) fun _ _ hm => hm
    refine Follows.ite (fun _ => hresolve (Uses.perform rfl)) fun _ => ?_
    exact Follows.ite (fun _ => hresolve (Uses.perform rfl)) fun _ => rfl

/-- A recorded client: it returned, or there is no answer. -/
theorem follows_recordedClient (inProgress : MlExecution) {f : ClientRunResult → ServiceM Command MlExecution}
    (hf : ∀ result,Follows (monitored watchAnswer) (Kept service command) (f result) ⟨some result,false⟩) :
    Follows (monitored watchAnswer) (Kept service command) (runRecordedClient command inProgress >>= f)
      AnswerWatch.blank := by
  refine Follows.seq (follows_runRecordedClient inProgress) (fun result m hm => ?_) fun e m hm => ?_
  · rw [show m=⟨some result,false⟩ from hm]
    exact hf result
  · rw [show m=AnswerWatch.blank from hm]
    exact kept_blank _

/-- A fresh run past its re-check. -/
theorem follows_runAndRecord (hcacheable : service.isUncacheable command=false) (identity : CallIdentity) :
    Follows (monitored watchAnswer) (Kept service command)
      (runAndRecord service fingerprint identity command) AnswerWatch.blank := by
  have hgate : Uses (fun call => isClient call=false) (blobHealthGate service command) :=
    (direct_blobHealthGate service command).plain.mono fun _ hc => isClient_of_isServing
      (isServing_of_isRemoval (isRemoval_of_isPlain hc))
  refine follows_before hgate fun healthy => ?_
  refine Follows.ite (fun _ => ?_) fun _ => kept_blank _
  refine follows_before (Uses.perform rfl) fun executionId => ?_
  refine follows_before (Uses.perform rfl) fun _ => ?_
  refine follows_recordedClient _ fun result => ?_
  refine Follows.ite (fun hpersist => follows_recordStored hcacheable hpersist _ _) fun hpersist => ?_
  exact follows_recordUnstored (by simp [recordsInput,hpersist]) _ _

/-- A key lock around a run. -/
theorem follows_withKeyLock (key : ExecutionKey) {body : ServiceM Command MlExecution}
    (h : Follows (monitored watchAnswer) (Kept service command) body AnswerWatch.blank) :
    Follows (monitored watchAnswer) (Kept service command) (withKeyLock key body) AnswerWatch.blank := by
  refine follows_before (Uses.perform rfl) fun _ => ?_
  refine Follows.ensure (h.weaken fun r m hm => Follows.watch_perform fun released => ?_)
  cases released with
  | ok u => exact hm
  | error e =>
    intro result hresult
    rw [watchAnswer_error] at hresult ⊢
    have hanswer : m.answer=some result := hresult
    constructor
    · rintro ⟨_,hr,_⟩
      cases hr
    · rintro ⟨hlost,_⟩
      simp [hanswer,isGuarded] at hlost

/-- A fresh run. -/
theorem follows_runFreshLocked (hcacheable : service.isUncacheable command=false) (identity : CallIdentity) :
    Follows (monitored watchAnswer) (Kept service command)
      (runFreshLocked service fingerprint identity command) AnswerWatch.blank := by
  refine follows_withKeyLock _ (Follows.ite (fun _ => ?_) fun _ => follows_runAndRecord hcacheable identity)
  refine follows_before ((serving_serveCurrentIfHealthy service fingerprint _ command).mono
    fun _ hc => isClient_of_isServing hc) fun served => ?_
  cases served with
  | some served => exact kept_blank _
  | none => exact follows_runAndRecord hcacheable identity

/-- The end of a run that stores nothing. -/
theorem follows_unstored (hinput : ∀ result,recordsInput service command result=false)
    (identity : CallIdentity) (event : JournalEvent) (key : ExecutionKey) :
    Follows (monitored watchAnswer) (Kept service command) (do
      let result ← ask (.runClient command)
      let executionId ← ask .newExecutionId
      let artifacts ← ofExcept (buildArtifacts fingerprint executionId result .stored)
      recordEvent service event key command
      return displayedRun service identity executionId command result artifacts) AnswerWatch.blank := by
  refine follows_client fun result => ?_
  refine (survives_ask rfl).seq fun executionId _ => ?_
  refine follows_build _ _ fun artifacts hdocuments => ?_
  exact (survives_ask rfl).seq fun _ _ => kept_displayed (hinput result) hdocuments rfl

/-- A METER run. -/
theorem follows_runMetered (hdepth : ¬(service.persistenceDepth command).storesOutput=true)
    (identity : CallIdentity) :
    Follows (monitored watchAnswer) (Kept service command)
      (runMetered service fingerprint identity command) AnswerWatch.blank := by
  have hinput : ∀ result,recordsInput service command result=false := by
    intro result
    cases hd : service.persistenceDepth command with
    | meter => simp [recordsInput,hd,PersistenceDepth.storesInput]
    | cache | dataset => simp [hd,PersistenceDepth.storesOutput] at hdepth
  refine follows_before (Uses.perform rfl) fun found => ?_
  exact follows_unstored hinput identity _ _

/-- A cacheable run. -/
theorem follows_executeCacheable (hcacheable : service.isUncacheable command=false)
    (identity : CallIdentity) :
    Follows (monitored watchAnswer) (Kept service command)
      (executeCacheable service fingerprint identity command) AnswerWatch.blank := by
  unfold executeCacheable
  cases service.cacheMode command with
  | offline =>
    refine (blank_of_uses ?_).weaken fun r m hm => ?_
    · exact (serving_serveOffline service fingerprint _ command).mono fun _ hc => isClient_of_isServing hc
    · rw [hm]
      exact kept_blank r
  | cache =>
    refine Follows.ite (fun _ => ?_) fun hdepth => follows_runMetered hdepth identity
    refine follows_before ((serving_serveCurrentIfHealthy service fingerprint _ command).mono
      fun _ hc => isClient_of_isServing hc) fun served => ?_
    cases served with
    | some served => exact kept_blank _
    | none => exact follows_runFreshLocked hcacheable identity
  | refresh =>
    exact Follows.ite (fun _ => follows_runFreshLocked hcacheable identity)
      fun hdepth => follows_runMetered hdepth identity

/-- Every execute. -/
theorem follows_execute : Follows (monitored watchAnswer) (Kept service command)
    (execute service fingerprint command) AnswerWatch.blank := by
  refine follows_before (Uses.ofExcept _) fun identity => ?_
  refine Follows.ite (fun huncacheable => ?_) fun hcacheable => ?_
  · refine Follows.ite (fun _ => ?_) fun _ => ?_
    · exact follows_before (Uses.perform rfl) fun _ => kept_blank _
    · exact follows_unstored (fun result => by simp [recordsInput,huncacheable]) identity _ _
  · have hgate : Uses (fun call => isClient call=false) (tokenGate service command) :=
      (direct_tokenGate service command).plain.mono fun _ hc => isClient_of_isServing
        (isServing_of_isRemoval (isRemoval_of_isPlain hc))
    refine follows_before hgate fun _ => ?_
    exact follows_executeCacheable (by simpa using hcacheable) identity

end Flow

section Runs
variable {Command : Type} {locks : LockMode} {faults : Faults Command} {thread : ThreadId}

/-- An execute whose client returned a result ends with an execution carrying
that result, if and only if no call after it raised something the document loops
do not catch and the result and its recorded input can be encoded. -/
theorem answer_carried_iff (service : CachedMlExecutionService Command) (fingerprint : Bytes → Digest)
    {command : Command} {w : World} {r : Except PyExc MlExecution} {s' : World × AnswerWatch}
    (hend : Ends (observed (Answers locks faults thread) watchAnswer)
      (execute service fingerprint command) (w,AnswerWatch.blank) r s')
    {result : ClientRunResult} (hanswer : s'.2.answer=some result) :
    (∃ execution,r=.ok execution ∧ Carries execution result) ↔
      s'.2.lost=false ∧ Recordable service command result := by
  have hfollows : Follows (monitored watchAnswer) (Kept service command)
      (execute service fingerprint command) AnswerWatch.blank := follows_execute
  exact hfollows.watched hend result hanswer

/-- Any port may raise anything. -/
def anyFault : Faults SmallestCommand := fun _ _ => True

/-- A call of the smallest service on a new store, whose `n`-th call raises. -/
def faultedRun (depth : PersistenceDepth) (n : ℕ) (e : PyExc) :
    ServiceM SmallestCommand MlExecution × (World × AnswerWatch) :=
  drive ((answersWithFault n 7 e 60 8).map fun handler => handler.watched watchAnswer)
    (execute smallestService positional ⟨.cache,depth⟩) (World.empty,AnswerWatch.blank)

/-- A faulted run is a run. -/
theorem faultedRun_reach (depth : PersistenceDepth) (n : ℕ) (e : PyExc) :
    Reach (observed (Answers .exclusive anyFault 0) watchAnswer)
      (execute smallestService positional ⟨.cache,depth⟩) (World.empty,AnswerWatch.blank)
      (faultedRun depth n e).1 (faultedRun depth n e).2 :=
  drive_watched _ (answersWithFault_respect n 7 (fun _ _ => trivial) 60 8) watchAnswer _ _

/-- A DATASET run whose first blob put raises still returns its answer. -/
theorem answer_carried_iff_failedPut : ∃ execution result,
    (faultedRun .dataset 11 (.other true [])).1.value=some execution ∧
      (faultedRun .dataset 11 (.other true [])).2.2.answer=some result ∧ Carries execution result := by
  have hvalue : (faultedRun .dataset 11 (.other true [])).1.value.isSome=true := by decide +kernel
  have hanswered : (faultedRun .dataset 11 (.other true [])).2.2.answer.isSome=true := by decide +kernel
  obtain ⟨execution,hexecution⟩ := Option.isSome_iff_exists.mp hvalue
  obtain ⟨result,hresult⟩ := Option.isSome_iff_exists.mp hanswered
  have hend := faultedRun_reach .dataset 11 (.other true [])
  rw [Prog.value_eq_some.mp hexecution] at hend
  have hout : (faultedRun .dataset 11 (.other true [])).2.2.answer.map (·.stdout)=some (pyStr "o") := by
    decide +kernel
  have herr : (faultedRun .dataset 11 (.other true [])).2.2.answer.map (·.stderr)=some [] := by
    decide +kernel
  rw [hresult] at hout herr
  have hstdout : result.stdout=pyStr "o" := Option.some.inj hout
  have hstderr : result.stderr=[] := Option.some.inj herr
  have hdocuments : ∃ documents,documentsOf result=.ok documents := by
    unfold documentsOf
    rw [hstdout,hstderr]
    exact ⟨_,rfl⟩
  have hiff := answer_carried_iff smallestService positional hend hresult
  obtain ⟨execution',heq,hcarries⟩ := hiff.mpr ⟨by decide +kernel,hdocuments,fun _ => ⟨_,rfl⟩⟩
  cases heq
  exact ⟨execution,result,hexecution,hresult,hcarries⟩

/-- A locked store when the outcome is recorded loses the answer. -/
theorem answer_carried_fails : ¬ ∀ (w : World) (r : Except PyExc MlExecution) (s' : World × AnswerWatch),
    Ends (observed (Answers .exclusive anyFault 0) watchAnswer)
      (execute smallestService positional ⟨.cache,.cache⟩) (w,AnswerWatch.blank) r s' →
    ∀ result,s'.2.answer=some result → ∃ execution,r=.ok execution ∧ Carries execution result := by
  intro hall
  have hraised : (faultedRun .cache 7 (.storeLocked [])).1.raised=some (.storeLocked []) := by
    decide +kernel
  have hanswered : (faultedRun .cache 7 (.storeLocked [])).2.2.answer.isSome=true := by decide +kernel
  obtain ⟨result,hresult⟩ := Option.isSome_iff_exists.mp hanswered
  have hend := faultedRun_reach .cache 7 (.storeLocked [])
  rw [Prog.raised_eq_some.mp hraised] at hend
  obtain ⟨_,heq,_⟩ := hall _ _ _ hend result hresult
  cases heq

end Runs

end GenericMlCache.PaidAnswers
