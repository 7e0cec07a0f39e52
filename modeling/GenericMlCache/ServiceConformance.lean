import GenericMlCache.ServiceAutomaton

/-!
# The services follow the automaton

One lemma for each program of the services: from the phase it is called in,
its calls are turns of the automaton, and where it ends is stated.
-/

namespace GenericMlCache.ServiceConformance

open CallProgram CallAutomaton PythonText ExecutionModel ExecutionQueries RepositoryCalls
  ServicePorts StorePurge CachedExecution StoreRepair ServiceAutomaton

variable {Command : Type} {scope : Scope} {fingerprint : Bytes → Digest} {α β : Type}

/-- How a program called in phase `φ` ends: it is in the locks it was in, has
called the client if it had, and meets `post` on a value. An error leaves no
back-fill under way, and corruption stands where the phase puts it. -/
def Lands (φ : Phase) (post : α → Phase → Prop) (r : Except PyExc α) (φ' : Phase) : Prop :=
  List.Subperm φ.held φ'.held ∧ (φ.ran=true → φ'.ran=true) ∧
    match r with
    | .ok a => post a φ'
    | .error e => φ'.task.settled=true ∧ (e.isCorruption=true → φ'.task=φ.task.raised e)

/-- A program run in a phase, with how it ends. -/
abbrev Conforms (scope : Scope) (fingerprint : Bytes → Digest) (φ : Phase) (post : α → Phase → Prop)
    (p : ServiceM Command α) : Prop := Follows (Turn scope fingerprint) (Lands φ post) p φ

/-- The phase stands where the task says. -/
abbrev AtTask (task : Task) : α → Phase → Prop := fun _ φ => φ.task=task

/-- A returned value ends where it is returned. -/
theorem conforms_pure {φ : Phase} {post : α → Phase → Prop} {a : α} (h : post a φ) :
    Conforms scope fingerprint φ post (pure a : ServiceM Command α) :=
  Follows.pure ⟨List.Subperm.refl _,fun hr => hr,h⟩

/-- An error ends where the raise leads. -/
theorem lands_raised {φ φ' : Phase} {post : α → Phase → Prop} {e : PyExc}
    (hheld : List.Subperm φ.held φ'.held) (hran : φ.ran=true → φ'.ran=true)
    (htask : φ'.task=φ.task.raised e) : Lands φ post (.error e) φ' :=
  ⟨hheld,hran,by rw [htask]; exact Task.settled_raised _ _,fun _ => htask⟩

/-- An error raised outside corruption ends anywhere but in a back-fill. -/
theorem conforms_raise {φ : Phase} {post : α → Phase → Prop} {e : PyExc} (h : e.isCorruption=false)
    (hs : φ.task.settled=true) : Conforms scope fingerprint φ post (raise e : ServiceM Command α) :=
  Follows.raise ⟨List.Subperm.refl _,fun hr => hr,hs,fun hc => by simp [h] at hc⟩

/-- Corruption raised in the phase the raise leads to. -/
theorem conforms_raise_at {φ : Phase} {post : α → Phase → Prop} {e : PyExc}
    (h : φ.task=φ.task.raised e) : Conforms scope fingerprint φ post (raise e : ServiceM Command α) :=
  Follows.raise (lands_raised (List.Subperm.refl _) (fun hr => hr) h)

/-- Weaken what is said of the value. -/
theorem conforms_weaken {φ : Phase} {post post' : α → Phase → Prop} {p : ServiceM Command α}
    (h : Conforms scope fingerprint φ post p) (hp : ∀ a φ',post a φ' → post' a φ') :
    Conforms scope fingerprint φ post' p := by
  refine Follows.weaken h fun r φ' hr => ⟨hr.1,hr.2.1,?_⟩
  cases r with
  | ok a => exact hp a φ' hr.2.2
  | error e => exact hr.2.2

/-- Sequencing, where the second program is called in a phase that raises to
where the first one would have raised. -/
theorem conforms_seq {φ : Phase} {mid : α → Phase → Prop} {post : β → Phase → Prop}
    {p : ServiceM Command α} {f : α → ServiceM Command β} (h : Conforms scope fingerprint φ mid p)
    (hf : ∀ a φ',mid a φ' → List.Subperm φ.held φ'.held → (φ.ran=true → φ'.ran=true) →
      (∀ e,φ'.task.raised e=φ.task.raised e) ∧ Conforms scope fingerprint φ' post (f a)) :
    Conforms scope fingerprint φ post (p >>= f) := by
  refine Follows.seq h (fun a φ' hr => ?_) (fun e φ' hr => hr)
  obtain ⟨hraise,hrest⟩ := hf a φ' hr.2.2 hr.1 hr.2.1
  refine Follows.weaken hrest fun r φ'' hr' => ⟨hr.1.trans hr'.1,fun h => hr'.2.1 (hr.2.1 h),?_⟩
  cases r with
  | ok b => exact hr'.2.2
  | error e => exact ⟨hr'.2.2.1,fun hc => (hr'.2.2.2 hc).trans (hraise e)⟩

/-- One call whose answers are turns, with the turn of each answer given. -/
theorem conforms_call {φ : Phase} {call : Call Command} {post : call.Ret → Phase → Prop}
    (hc : guardOf φ.task call=.passes)
    (hok : ∀ a,∃ φ',Turn scope fingerprint φ call (.ok a) φ' ∧ List.Subperm φ.held φ'.held ∧
      (φ.ran=true → φ'.ran=true) ∧ post a φ') :
    Conforms scope fingerprint φ post (ask call) := by
  refine Follows.perform fun r => ?_
  cases r with
  | ok a =>
    obtain ⟨φ',ht,hheld,hran,hpost⟩ := hok a
    exact ⟨φ',ht,hheld,hran,hpost⟩
  | error e =>
    exact ⟨_,.raise (Escapes.of_passes hc),lands_raised (List.Subperm.refl _) (fun hr => hr) rfl⟩

/-- A quiet call leaves the phase as it is. -/
theorem conforms_quiet (φ : Phase) {call : Call Command} (h : isQuiet call=true)
    (hc : guardOf φ.task call=.passes) :
    Conforms scope fingerprint φ (fun _ φ' => φ'=φ) (ask call) :=
  conforms_call hc fun a => ⟨φ,.quiet h a,List.Subperm.refl _,fun hr => hr,rfl⟩

/-- A quiet call before the rest of a program. -/
theorem conforms_quiet_seq {φ : Phase} {call : Call Command} {post : β → Phase → Prop}
    {f : call.Ret → ServiceM Command β} (h : isQuiet call=true) (hc : guardOf φ.task call=.passes)
    (hf : ∀ a,Conforms scope fingerprint φ post (f a)) :
    Conforms scope fingerprint φ post (ask call >>= f) := by
  refine conforms_seq (conforms_quiet φ h hc) fun a φ' hφ _ _ => ?_
  subst hφ
  exact ⟨fun _ => rfl,hf a⟩

/-- A computation that may raise, but never corruption. -/
theorem conforms_ofExcept {φ : Phase} {r : Except PyExc α} {post : β → Phase → Prop}
    {f : α → ServiceM Command β} (hs : φ.task.settled=true)
    (herr : ∀ e,r=.error e → e.isCorruption=false)
    (hf : ∀ a,r=.ok a → Conforms scope fingerprint φ post (f a)) :
    Conforms scope fingerprint φ post (ofExcept r >>= f) := by
  cases r with
  | ok a => exact hf a rfl
  | error e => exact conforms_raise (herr e rfl) hs

/-- A task that corruption would turn into a heal stays one after a release. -/
theorem released_raised (task : Task) (e : PyExc) : (task.raised e).released=task.raised e := by
  cases task <;> simp only [Task.raised] <;> first | rfl | (split <;> rfl)

/-- A body under a key lock. -/
theorem conforms_withKeyLock {φ : Phase} {key : ExecutionKey} {body : ServiceM Command α}
    {mid post : α → Phase → Prop} (hc : guardOf φ.task (.acquireKey key : Call Command)=.passes)
    (h : Conforms scope fingerprint { φ with held := key::φ.held } mid body)
    (hpost : ∀ a φ',mid a φ' →
      post a { φ' with held := φ'.held.erase key, task := φ'.task.released }) :
    Conforms scope fingerprint φ post (withKeyLock key body) := by
  refine Follows.perform_bind (fun _ => ⟨_,.acquire,?_⟩) fun e =>
    ⟨_,.raise (Escapes.of_passes hc),lands_raised (List.Subperm.refl _) (fun hr => hr) rfl⟩
  refine Follows.ensure (Follows.weaken h fun r φ' hr => ?_)
  obtain ⟨hheld,hran,hend⟩ := hr
  have hback : List.Subperm φ.held (φ'.held.erase key) := by
    have := hheld.erase key
    simpa using this
  refine Follows.perform fun c => ?_
  cases c with
  | ok u =>
    refine ⟨_,.release,hback,hran,?_⟩
    cases r with
    | ok a => exact hpost a φ' hend
    | error e =>
      refine ⟨Task.settled_released hend.1,fun hc => ?_⟩
      simp only [hend.2 hc]
      exact released_raised φ.task e
  | error e =>
    exact ⟨{ φ with task := φ.task.raised e, ran := φ'.ran },.releaseRaised rfl,
      lands_raised (List.Subperm.refl _) hran rfl⟩

/-- A body under the shared store lock. -/
theorem conforms_withContentWriteLock {φ start : Phase} {body : ServiceM Command α}
    {mid post : α → Phase → Prop} (hc : guardOf φ.task (.acquireShared : Call Command)=.passes)
    (hbegin : Turn scope fingerprint φ (.acquireShared : Call Command) (.ok ()) start)
    (hheld : start.held=φ.held) (hran : start.ran=φ.ran)
    (hraise : ∀ e,start.task.raised e=φ.task.raised e)
    (h : Conforms scope fingerprint start mid body) (hpost : ∀ a φ',mid a φ' → post a φ') :
    Conforms scope fingerprint φ post (withContentWriteLock body) := by
  refine Follows.perform_bind (fun _ => ⟨_,hbegin,?_⟩) fun e =>
    ⟨_,.raise (Escapes.of_passes hc),lands_raised (List.Subperm.refl _) (fun hr => hr) rfl⟩
  refine Follows.ensure (Follows.weaken h fun r φ' hr => ?_)
  obtain ⟨hheld',hran',hend⟩ := hr
  rw [hheld] at hheld'
  rw [hran] at hran'
  refine Follows.perform fun c => ?_
  cases c with
  | ok u =>
    refine ⟨φ',.quiet rfl u,hheld',hran',?_⟩
    cases r with
    | ok a => exact hpost a φ' hend
    | error e => exact ⟨hend.1,fun hc => (hend.2 hc).trans (hraise e)⟩
  | error e =>
    exact ⟨{ φ with task := φ.task.raised e, ran := φ'.ran },.releaseRaised rfl,
      lands_raised (List.Subperm.refl _) hran' rfl⟩

/-- The phases around one document's blob: before its put, with the blob in the
store, with the put failed, and after, by the status the document ends with. -/
structure StorePhases (scope : Scope) (fingerprint : Bytes → Digest) (Command : Type) (executionId : ExecutionId)
    (artifact : Artifact) where
  /-- Before the put. -/
  before : Phase
  /-- With the blob in the store. -/
  marking : Phase
  /-- With the put failed. -/
  failing : Phase
  /-- With the status that the document ends with. -/
  after : ArtifactStatus → Phase
  /-- A put that succeeds leads to marking. -/
  put : Turn scope fingerprint before
    (.blobPut artifact.blobKey (artifact.content.getD []) : Call Command) (.ok ()) marking
  /-- A put that raises leads to failing. -/
  putFailed : ∀ e,e.isException=true → Turn scope fingerprint before
    (.blobPut artifact.blobKey (artifact.content.getD []) : Call Command) (.error e) failing
  /-- A document that is marked stored ends so. -/
  mark : Turn scope fingerprint marking
    (.store (.markArtifactsStored executionId artifact.blobKey) : Call Command) (.ok ()) (after .stored)
  /-- One whose mark raises stays pending. -/
  markFailed : ∀ e,e.isException=true → Turn scope fingerprint marking
    (.store (.markArtifactsStored executionId artifact.blobKey) : Call Command) (.error e)
    (after .pending)
  /-- A document that is marked failed ends so. -/
  fail : ∀ detail,Turn scope fingerprint failing
    (.store (.markArtifactsFailed executionId artifact.blobKey detail) : Call Command) (.ok ())
    (after .failed)
  /-- All of them are in the same locks and raise to the same task. -/
  same : ∀ φ,(φ=marking ∨ φ=failing ∨ ∃ status,φ=after status) →
    φ.held=before.held ∧ φ.ran=before.ran ∧ ∀ e,φ.task.raised e=before.task.raised e
  /-- What the put raises is caught. -/
  before_caught : guardOf before.task
    (.blobPut artifact.blobKey (artifact.content.getD []) : Call Command)=.caught
  /-- What the mark raises is caught. -/
  marking_caught : guardOf marking.task
    (.store (.markArtifactsStored executionId artifact.blobKey) : Call Command)=.caught
  /-- What the mark of a failure raises is not. -/
  failing_passes : ∀ detail,guardOf failing.task
    (.store (.markArtifactsFailed executionId artifact.blobKey detail) : Call Command)=.passes

/-- Storing a blob moves from before the document to after it. -/
theorem conforms_storeBlob {executionId : ExecutionId} {artifact : Artifact}
    (P : StorePhases scope fingerprint Command executionId artifact) :
    Conforms scope fingerprint P.before (fun stored φ' => φ'=P.after stored.status)
      (storeBlob executionId artifact : ServiceM Command Artifact) := by
  have hlands : ∀ (status : ArtifactStatus) (stored : Artifact),stored.status=status →
      Lands P.before (fun stored φ' => φ'=P.after stored.status) (.ok stored) (P.after status) := by
    intro status stored hs
    obtain ⟨hheld,hran,_⟩ := P.same (P.after status) (Or.inr (Or.inr ⟨status,rfl⟩))
    exact ⟨hheld ▸ List.Subperm.refl _,fun hr => hran ▸ hr,hs ▸ rfl⟩
  have hraised : ∀ φ e,(φ=P.before ∨ φ=P.marking ∨ φ=P.failing) →
      Lands P.before (fun (stored : Artifact) φ' => φ'=P.after stored.status) (.error e)
        { φ with task := φ.task.raised e } := by
    intro φ e hφ
    rcases hφ with rfl | rfl | rfl
    · exact lands_raised (List.Subperm.refl _) (fun hr => hr) rfl
    · obtain ⟨hheld,hran,hraise⟩ := P.same _ (Or.inl rfl)
      exact lands_raised (hheld ▸ List.Subperm.refl _) (fun hr => hran ▸ hr) (hraise e)
    · obtain ⟨hheld,hran,hraise⟩ := P.same _ (Or.inr (Or.inl rfl))
      exact lands_raised (hheld ▸ List.Subperm.refl _) (fun hr => hran ▸ hr) (hraise e)
  refine Follows.bind (Follows.attempt (Follows.perform fun r => ?_))
  cases r with
  | error e =>
    by_cases he : e.isException=true
    · refine ⟨_,P.putFailed e he,?_⟩
      simp only [he,if_true]
      exact Follows.perform_bind (fun _ => ⟨_,P.fail e.str,hlands .failed _ rfl⟩) fun e' =>
        ⟨_,.raise (Escapes.of_passes (P.failing_passes e.str)),hraised _ e' (Or.inr (Or.inr rfl))⟩
    · refine ⟨_,.raise (Escapes.of_caught P.before_caught he),?_⟩
      simp only [he]
      exact hraised _ e (Or.inl rfl)
  | ok u =>
    refine ⟨_,P.put,Follows.bind (Follows.attempt (Follows.perform fun r => ?_))⟩
    cases r with
    | error e =>
      by_cases he : e.isException=true
      · refine ⟨_,P.markFailed e he,?_⟩
        simp only [he,if_true]
        exact hlands .pending _ rfl
      · refine ⟨_,.raise (Escapes.of_caught P.marking_caught he),?_⟩
        simp only [he]
        exact hraised _ e (Or.inr (Or.inl rfl))
    | ok u => exact ⟨_,P.mark,hlands .stored _ rfl⟩

/-- The phases of one document of a back-fill. -/
def fillPhases (held : List ExecutionKey) (ran : Bool) (hit : Hit) (target : ExecutionId)
    (document : Artifact) (todo : List Artifact) :
    StorePhases scope fingerprint Command target document where
  before := ⟨held,.filling hit target (document::todo),ran⟩
  marking := ⟨held,.fillMarking hit target document todo,ran⟩
  failing := ⟨held,.fillFailing hit target document todo,ran⟩
  after _ := ⟨held,.filling hit target todo,ran⟩
  put := .fillPut
  putFailed := .fillPutFailed
  mark := .fillMark (.ok ()) fun _ h => nomatch h
  markFailed e he := .fillMark (.error e) fun _ h => (Except.error.inj h) ▸ he
  fail _ := .fillFail
  same φ hφ := by
    rcases hφ with rfl | rfl | ⟨_,rfl⟩ <;> exact ⟨rfl,rfl,fun _ => rfl⟩
  before_caught := rfl
  marking_caught := rfl
  failing_passes _ := rfl

/-- The phases of one document of a recording. -/
def recordPhases (held : List ExecutionKey) (ran : Bool) (execution : MlExecution)
    (result : ClientRunResult) (done : List Artifact) (document : Artifact) (todo : List Artifact)
    (allStored : Bool) :
    StorePhases scope fingerprint Command execution.executionId document where
  before := ⟨held,.putting execution result done document todo allStored,ran⟩
  marking := ⟨held,.marking execution result done document todo allStored,ran⟩
  failing := ⟨held,.failing execution result done document todo,ran⟩
  after status :=
    ⟨held,.persisting execution result (done ++ [document]) todo
      (decide (status=.stored) && allStored),ran⟩
  put := .put
  putFailed := .putFailed
  mark := .mark
  markFailed := .markFailed
  fail _ := .fail
  same φ hφ := by
    rcases hφ with rfl | rfl | ⟨_,rfl⟩ <;> exact ⟨rfl,rfl,fun _ => rfl⟩
  before_caught := rfl
  marking_caught := rfl
  failing_passes _ := rfl

/-- Storing back-filled blobs empties the list of documents to store. -/
theorem conforms_storeBlobs (held : List ExecutionKey) (ran : Bool) (hit : Hit)
    (target : ExecutionId) (todo : List Artifact) :
    Conforms scope fingerprint ⟨held,.filling hit target todo,ran⟩ (AtTask (.filling hit target []))
      (storeBlobs target todo : ServiceM Command Unit) := by
  induction todo with
  | nil => exact conforms_pure rfl
  | cons document todo ih =>
    refine conforms_seq (conforms_storeBlob (fillPhases held ran hit target document todo)) ?_
    rintro stored φ' rfl _ _
    exact ⟨fun _ => rfl,ih⟩

/-- The document loop of a recording ends with every document done. -/
theorem conforms_persistDocuments (held : List ExecutionKey) (ran : Bool) (execution : MlExecution)
    (result : ClientRunResult) (done todo : List Artifact) (allStored : Bool) :
    Conforms scope fingerprint ⟨held,.persisting execution result done todo allStored,ran⟩
      (fun r φ' => φ'=⟨held,.persisting execution result (done ++ todo) [] (r.2 && allStored),ran⟩)
      (persistDocuments execution.executionId todo : ServiceM Command (List Artifact × Bool)) := by
  induction todo generalizing done allStored with
  | nil => exact conforms_pure (by simp)
  | cons document todo ih =>
    have hrow : Conforms scope fingerprint
        ⟨held,.persisting execution result done (document::todo) allStored,ran⟩
        (fun _ φ' => φ'=⟨held,.putting execution result done document todo allStored,ran⟩)
        (store (.persistArtifact execution.executionId document) : ServiceM Command Unit) :=
      conforms_call rfl fun _ => ⟨_,.persist,List.Subperm.refl _,fun hr => hr,rfl⟩
    refine conforms_seq hrow ?_
    rintro _ φ' rfl _ _
    refine ⟨fun _ => rfl,conforms_seq (conforms_storeBlob
      (recordPhases held ran execution result done document todo allStored)) ?_⟩
    rintro stored φ' rfl _ _
    refine ⟨fun _ => rfl,conforms_seq (ih (done ++ [document])
      (decide (stored.status=.stored) && allStored)) ?_⟩
    rintro ⟨resolved,restStored⟩ φ' rfl _ _
    refine ⟨fun _ => rfl,conforms_pure ?_⟩
    simp only [List.append_assoc,List.singleton_append,Bool.and_comm,Bool.and_left_comm]

/-- Hydrating takes the artifacts in order, each with the content it had. -/
theorem conforms_hydrateArtifacts (held : List ExecutionKey) (ran : Bool) (key : ExecutionKey)
    (loaded : MlExecution) (got todo : List Artifact) :
    Conforms scope fingerprint ⟨held,.hydrating ⟨key,loaded,got⟩ todo,ran⟩
      (fun artifacts φ' => φ'=⟨held,.hydrating ⟨key,loaded,got ++ artifacts⟩ [],ran⟩)
      (hydrateArtifacts todo : ServiceM Command (List Artifact)) := by
  induction todo generalizing got with
  | nil => exact conforms_pure (by simp)
  | cons artifact todo ih =>
    have hone : Conforms scope fingerprint ⟨held,.hydrating ⟨key,loaded,got⟩ (artifact::todo),ran⟩
        (fun hydrated φ' => φ'=⟨held,.hydrating ⟨key,loaded,got ++ [hydrated]⟩ todo,ran⟩)
        (hydrateArtifact artifact : ServiceM Command Artifact) := by
      refine Follows.perform_bind (fun content => ?_) fun e =>
        ⟨_,.raise (Escapes.of_passes rfl),lands_raised (List.Subperm.refl _) (fun hr => hr) rfl⟩
      cases content with
      | none => exact ⟨_,.miss,lands_raised (List.Subperm.refl _) (fun hr => hr) rfl⟩
      | some content =>
        exact ⟨_,.hydrate content,List.Subperm.refl _,fun hr => hr,rfl⟩
    refine conforms_seq hone ?_
    rintro hydrated φ' rfl _ _
    refine ⟨fun _ => rfl,conforms_seq (ih (got ++ [hydrated])) ?_⟩
    rintro others φ' rfl _ _
    exact ⟨fun _ => rfl,conforms_pure (by simp)⟩

section Serving
variable (service : CachedMlExecutionService Command)

/-- The task is a hit that is over, with or without a back-fill. -/
def HitOver (hit : Hit) (task : Task) : Prop := task=.hydrating hit [] ∨ task=.served hit

/-- The served execution is the one loaded for the key with its artifacts hydrated. -/
def Served (key : ExecutionKey) (served : MlExecution) (φ : Phase) : Prop :=
  ∃ loaded got,HitOver ⟨key,loaded,got⟩ φ.task ∧ served={ loaded with artifacts := got }

/-- A hit that is over stays over when a lock is released. -/
theorem HitOver.released {hit : Hit} {task : Task} (h : HitOver hit task) :
    HitOver hit task.released := by
  rcases h with h | h
  · exact Or.inl (by rw [h]; rfl)
  · exact Or.inr (by rw [h]; rfl)

/-- A served hit is settled. -/
theorem Served.settled {key : ExecutionKey} {served : MlExecution} {φ : Phase}
    (h : Served key served φ) : φ.task.settled=true := by
  obtain ⟨loaded,got,hover | hover,_⟩ := h <;> rw [hover] <;> rfl

/-- Adding the command's tags leaves the phase as it is. -/
theorem conforms_applyTags (φ : Phase) (key : ExecutionKey) (command : Command)
    (hc : guardOf φ.task (.store (.addTags key (service.executionTags command)) : Call Command)=.passes) :
    Conforms scope fingerprint φ (fun _ φ' => φ'=φ) (applyTags service key command) := by
  unfold applyTags
  by_cases h : (service.executionTags command).isEmpty=true
  · simp only [h]
    exact conforms_pure rfl
  · simp only [h]
    exact conforms_quiet φ rfl hc

/-- The input documents of a command are input documents. -/
theorem buildInputArtifacts_ok {executionId : ExecutionId} {command : Command}
    {documents : List Artifact}
    (h : buildInputArtifacts service fingerprint executionId command .pending=.ok documents) :
    ∀ a∈documents,IsInputDocument fingerprint executionId a := by
  unfold buildInputArtifacts at h
  cases hp : service.inputParts command with
  | error e =>
    rw [hp] at h
    exact nomatch h
  | ok parts =>
    rw [hp] at h
    cases Except.ok.inj h
    intro a ha
    obtain ⟨part,_,rfl⟩ := List.mem_map.mp ha
    exact ⟨part.isInput,part.artifactType,part.name,part.content,rfl⟩

/-- Failing to build the input documents is not corruption. -/
theorem buildInputArtifacts_error {executionId : ExecutionId} {command : Command} {e : PyExc}
    (h : buildInputArtifacts service fingerprint executionId command .pending=.error e) :
    e.isCorruption=false := by
  unfold buildInputArtifacts at h
  cases hp : service.inputParts command with
  | error e' =>
    rw [hp] at h
    cases Except.error.inj h
    exact service.inputParts_error command e hp
  | ok parts =>
    rw [hp] at h
    exact nomatch h

/-- A back-fill that attaches its rows stores their blobs. -/
theorem conforms_attachInput {held : List ExecutionKey} {ran : Bool} {hit : Hit}
    {fresh : MlExecution} {key : ExecutionKey} (hkey : key∈held) (command : Command) :
    Conforms scope fingerprint ⟨held,.refetched hit key fresh,ran⟩
      (fun _ φ' => HitOver hit φ'.task.released)
      (attachInput service fingerprint key command fresh.executionId) := by
  refine conforms_ofExcept rfl (fun e he => buildInputArtifacts_error service he) fun documents hdocs => ?_
  by_cases hempty : documents.isEmpty=true
  · simp only [hempty,if_true]
    exact conforms_pure (Or.inl rfl)
  · simp only [hempty]
    have hattach : Conforms scope fingerprint ⟨held,.refetched hit key fresh,ran⟩
        (fun _ φ' => φ'=⟨held,.filling hit fresh.executionId documents,ran⟩)
        (store (.addInputArtifacts key documents) : ServiceM Command Unit) :=
      conforms_call rfl fun _ => ⟨_,.attach hkey (buildInputArtifacts_ok service hdocs),
        List.Subperm.refl _,fun hr => hr,rfl⟩
    refine conforms_seq hattach ?_
    rintro _ φ' rfl _ _
    refine ⟨fun _ => rfl,conforms_withContentWriteLock rfl (.quiet rfl _) rfl rfl (fun _ => rfl)
      (conforms_storeBlobs held ran hit fresh.executionId documents) ?_⟩
    intro _ φ' hφ
    exact Or.inr (by rw [hφ]; rfl)

/-- A back-fill under the key lock is over when the lock is released. -/
theorem conforms_backFillInput {held : List ExecutionKey} {ran : Bool} {hit : Hit}
    {key : ExecutionKey} (hkey : key∈held) (command : Command) :
    Conforms scope fingerprint ⟨held,.hydrating hit [],ran⟩
      (fun _ φ' => HitOver hit φ'.task.released)
      (backFillInput service fingerprint key command) := by
  refine Follows.perform_bind (fun found => ?_) fun e =>
    ⟨_,.raise (Escapes.of_passes rfl),lands_raised (List.Subperm.refl _) (fun hr => hr) rfl⟩
  cases found with
  | none => exact ⟨_,.quiet rfl _,conforms_pure (Or.inl rfl)⟩
  | some fresh =>
    by_cases hin : fresh.inputPersisted=true
    · refine ⟨_,.quiet rfl _,?_⟩
      simp only [hin,if_true]
      exact conforms_pure (Or.inl rfl)
    · refine ⟨_,.refetch hkey fresh (by simpa using hin),?_⟩
      simp only [hin]
      exact conforms_attachInput service hkey command

/-- A hit that may back-fill is over afterwards. -/
theorem conforms_accumulateInput {held : List ExecutionKey} {ran : Bool} {hit : Hit}
    (key : ExecutionKey) (command : Command) (current : MlExecution) :
    Conforms scope fingerprint ⟨held,.hydrating hit [],ran⟩ (fun _ φ' => HitOver hit φ'.task)
      (accumulateInput service fingerprint key command current) := by
  unfold accumulateInput
  split
  · exact conforms_pure (Or.inl rfl)
  · exact conforms_withKeyLock rfl (conforms_backFillInput service List.mem_cons_self command)
      fun _ _ hφ => hφ

/-- A hit serves what it loaded, hydrated. -/
theorem conforms_serveHit {held : List ExecutionKey} {ran : Bool} (key : ExecutionKey)
    (command : Command) (current : MlExecution) :
    Conforms scope fingerprint ⟨held,.hydrating ⟨key,current,[]⟩ current.artifacts,ran⟩ (Served key)
      (serveHit service fingerprint key command current) := by
  have hhydrate : Conforms scope fingerprint ⟨held,.hydrating ⟨key,current,[]⟩ current.artifacts,ran⟩
      (fun hydrated φ' => φ'=⟨held,.hydrating ⟨key,current,hydrated.artifacts⟩ [],ran⟩ ∧
        hydrated={ current with artifacts := hydrated.artifacts })
      (hydrate current : ServiceM Command MlExecution) := by
    refine conforms_seq (conforms_hydrateArtifacts held ran key current [] current.artifacts) ?_
    rintro artifacts φ' rfl _ _
    exact ⟨fun _ => rfl,conforms_pure ⟨rfl,rfl⟩⟩
  refine conforms_seq hhydrate ?_
  rintro hydrated φ' ⟨rfl,hserved⟩ _ _
  refine ⟨fun _ => rfl,conforms_quiet_seq rfl rfl fun _ => ?_⟩
  refine conforms_seq (conforms_applyTags service _ key command rfl) ?_
  rintro _ φ' rfl _ _
  refine ⟨fun _ => rfl,Follows.seq (conforms_accumulateInput service key command current) ?_ ?_⟩
  · rintro _ φ' ⟨hheld,hran,hover⟩
    exact Follows.pure ⟨hheld,hran,current,hydrated.artifacts,hover,hserved⟩
  · exact fun e φ' h => ⟨h.1,h.2.1,h.2.2⟩

/-- Healing removes the blobs in order. -/
theorem conforms_removeArtifactBlobs (held : List ExecutionKey) (ran : Bool) (loaded : MlExecution)
    (todo : List Artifact) :
    Conforms scope fingerprint ⟨held,.healing loaded todo,ran⟩
      (fun _ φ' => φ'=⟨held,.healing loaded [],ran⟩)
      (removeArtifactBlobs todo : ServiceM Command Unit) := by
  induction todo with
  | nil => exact conforms_pure rfl
  | cons artifact todo ih =>
    have hone : Conforms scope fingerprint ⟨held,.healing loaded (artifact::todo),ran⟩
        (fun _ φ' => φ'=⟨held,.healing loaded todo,ran⟩)
        (ask (.blobRemove artifact.blobKey) : ServiceM Command Unit) :=
      conforms_call rfl fun _ => ⟨_,.healBlob,List.Subperm.refl _,fun hr => hr,rfl⟩
    refine conforms_seq hone ?_
    rintro _ φ' rfl _ _
    exact ⟨fun _ => rfl,ih⟩

/-- Healing ends with the row removed. -/
theorem conforms_removeExecutionAndBlobs (held : List ExecutionKey) (ran : Bool)
    (loaded : MlExecution) :
    Conforms scope fingerprint ⟨held,.healing loaded loaded.artifacts,ran⟩ (AtTask .idle)
      (removeExecutionAndBlobs loaded : ServiceM Command Unit) := by
  refine conforms_seq (conforms_removeArtifactBlobs held ran loaded loaded.artifacts) ?_
  rintro _ φ' rfl _ _
  exact ⟨fun _ => rfl,conforms_call rfl fun _ =>
    ⟨_,.healRow,List.Subperm.refl _,fun hr => hr,rfl⟩⟩

/-- What `_serve_current_if_healthy` returns, and where. -/
def ServedOrMissed (key : ExecutionKey) (r : Option MlExecution) (φ : Phase) : Prop :=
  match r with
  | none => φ.task=.idle
  | some served => Served key served φ

/-- A hit is served from the store, or healed away into a miss. -/
theorem conforms_serveCurrentIfHealthy (hscope : scope.serves=true) (held : List ExecutionKey) (ran : Bool) (key : ExecutionKey)
    (command : Command) :
    Conforms scope fingerprint ⟨held,.idle,ran⟩ (ServedOrMissed key)
      (serveCurrentIfHealthy service fingerprint key command) := by
  refine Follows.bind (Follows.attempt (Follows.perform fun r => ?_))
  cases r with
  | error e =>
    refine ⟨_,.raise (Escapes.of_passes rfl),?_⟩
    cases e <;> first | exact conforms_pure rfl | exact conforms_raise_at rfl
  | ok found =>
    cases found with
    | none => exact ⟨_,.quiet rfl _,conforms_pure rfl⟩
    | some current =>
      refine ⟨_,.load hscope current,Follows.attempt_seq (conforms_serveHit service key command current) ?_⟩
      intro r φ' hr
      obtain ⟨hheld,hran,hend⟩ := hr
      have hlift : ∀ p : ServiceM Command (Option MlExecution),
          Follows (Turn scope fingerprint) (Lands { φ' with task := .idle } (ServedOrMissed key)) p φ' →
          Follows (Turn scope fingerprint) (Lands ⟨held,.idle,ran⟩ (ServedOrMissed key)) p φ' := by
        intro p hp
        exact hp.weaken fun r φ'' h => ⟨hheld.trans h.1,fun hr => h.2.1 (hran hr),h.2.2⟩
      refine hlift _ ?_
      cases r with
      | ok served => exact Follows.pure ⟨List.Subperm.refl _,fun h => h,hend⟩
      | error e =>
        by_cases he : e.isCorruption=true
        · simp only [he,if_true]
          have htask : φ'.task=.healing current current.artifacts := by
            rw [hend.2 he]
            simp [Task.raised,he]
          obtain ⟨held',task',ran'⟩ := φ'
          cases htask
          refine Follows.seq (conforms_removeExecutionAndBlobs held' ran' current) ?_ ?_
          · intro _ φ'' h
            exact Follows.pure ⟨h.1,h.2.1,h.2.2⟩
          · exact fun e φ'' h => h
        · simp only [he]
          exact Follows.raise ⟨List.Subperm.refl _,fun h => h,hend.1,fun hc => absurd hc he⟩

/-- Where serving a stored entry ends. -/
def Offered (key : ExecutionKey) (φ : Phase) : Except PyExc (Option MlExecution) → Prop
  | .ok (some served) => Served key served φ
  | .ok none => φ.task=.idle
  | .error e => φ.task.settled=true ∧ (e.isCorruption=true → φ.task=.idle ∨ ∃ loaded todo,φ.task=.healing loaded todo)

/-- An offline hit serves what it loaded; everything else raises. -/
theorem conforms_serveOffline (hscope : scope.serves=true) (held : List ExecutionKey) (ran : Bool)
    (key : ExecutionKey) (command : Command) :
    Conforms scope fingerprint ⟨held,.idle,ran⟩ (Served key)
      (serveOffline service fingerprint key command) := by
  -- A miss of any cause stands idle, or where corruption would heal.
  have hstored : Follows (Turn scope fingerprint) (fun r φ' => List.Subperm held φ'.held ∧
      (ran=true → φ'.ran=true) ∧ Offered key φ' r)
      (serveStored service fingerprint key command) ⟨held,.idle,ran⟩ := by
    refine Follows.perform_bind (fun found => ?_) fun e =>
      ⟨_,.raise (Escapes.of_passes rfl),List.Subperm.refl _,fun hr => hr,rfl,fun _ => Or.inl rfl⟩
    cases found with
    | none => exact ⟨_,.quiet rfl _,Follows.pure ⟨List.Subperm.refl _,fun hr => hr,rfl⟩⟩
    | some current =>
      refine ⟨_,.load hscope current,Follows.seq (conforms_serveHit service key command current) ?_ ?_⟩
      · rintro served φ' ⟨hheld,hran,hserved⟩
        exact Follows.pure ⟨hheld,hran,hserved⟩
      · rintro e φ' ⟨hheld,hran,hend⟩
        refine ⟨hheld,hran,hend.1,fun hc => Or.inr ⟨current,current.artifacts,?_⟩⟩
        rw [hend.2 hc]
        simp [Task.raised,hc]
  have hmiss : ∀ (message : PyStr) (φ' : Phase),List.Subperm held φ'.held → (ran=true → φ'.ran=true) →
      (φ'.task=.idle ∨ ∃ loaded todo,φ'.task=.healing loaded todo) →
      Follows (Turn scope fingerprint) (Lands ⟨held,.idle,ran⟩ (Served key))
        (do
          recordEvent service .miss key command
          raise (.cacheMiss message) : ServiceM Command MlExecution) φ' := by
    intro message φ' hheld hran htask
    have hpasses : ∀ call : Call Command,guardOf φ'.task call=.passes := by
      rcases htask with htask | ⟨loaded,todo,htask⟩ <;> exact fun call => by rw [htask]; rfl
    have hidle : ∀ e,φ'.task.raised e=.idle := by
      rcases htask with htask | ⟨loaded,todo,htask⟩ <;> exact fun e => by rw [htask]; rfl
    have hevent : Conforms scope fingerprint φ' (fun _ φ'' => φ''=φ')
        (recordEvent service .miss key command) := conforms_quiet φ' rfl (hpasses _)
    refine Follows.seq hevent ?_ ?_
    · rintro _ φ'' ⟨hheld',hran',rfl⟩
      refine Follows.raise ⟨hheld,hran,?_,fun hc => (by cases hc)⟩
      rcases htask with htask | ⟨loaded,todo,htask⟩ <;> rw [htask] <;> rfl
    · rintro e φ'' ⟨hheld',hran',hend⟩
      exact ⟨hheld.trans hheld',fun hr => hran' (hran hr),hend.1,fun hc => (hend.2 hc).trans (hidle e)⟩
  refine Follows.attempt_seq hstored ?_
  rintro r φ' ⟨hheld,hran,hend⟩
  cases r with
  | ok found =>
    cases found with
    | none => exact hmiss _ φ' hheld hran (Or.inl hend)
    | some served => exact Follows.pure ⟨hheld,hran,hend⟩
  | error e =>
    by_cases he : e.isCorruption=true
    · simp only [he,if_true]
      exact hmiss _ φ' hheld hran (hend.2 he)
    · simp only [he]
      exact Follows.raise ⟨hheld,hran,hend.1,fun hc => absurd hc he⟩

end Serving

/-- Removing a purged key's blobs in order. -/
theorem conforms_removeEach (held : List ExecutionKey) (ran : Bool) (key : ExecutionKey)
    (sizes : List (BlobKey × Size)) :
    Conforms scope fingerprint ⟨held,.dropping key (sizes.map (·.1)),ran⟩
      (fun _ φ' => φ'=⟨held,.dropping key [],ran⟩) (removeEach sizes : ServiceM Command ℕ) := by
  induction sizes with
  | nil => exact conforms_pure rfl
  | cons entry sizes ih =>
    obtain ⟨blobKey,size⟩ := entry
    have hone : Conforms scope fingerprint ⟨held,.dropping key (blobKey::sizes.map (·.1)),ran⟩
        (fun _ φ' => φ'=⟨held,.dropping key (sizes.map (·.1)),ran⟩)
        (ask (.blobRemove blobKey) : ServiceM Command Unit) :=
      conforms_call rfl fun _ => ⟨_,.dropBlob,List.Subperm.refl _,fun hr => hr,rfl⟩
    refine conforms_seq hone ?_
    rintro _ φ' rfl _ _
    refine ⟨fun _ => rfl,?_⟩
    cases size with
    | text => exact conforms_raise rfl rfl
    | bytes n =>
      show Conforms scope fingerprint _ _ (removeEach sizes >>= fun freed => pure (n+freed) : ServiceM Command ℕ)
      refine conforms_seq ih ?_
      rintro _ φ' rfl _ _
      exact ⟨fun _ => rfl,conforms_pure rfl⟩

/-- What a purge drops of a key: one call that is a soft or a hard drop. -/
def DropsRows (scope : Scope) (fingerprint : Bytes → Digest) (dropRows : ExecutionKey → ServiceM Command Unit) :
    Prop :=
  ∀ (held : List ExecutionKey) (ran : Bool) (key : ExecutionKey) (executions : List MlExecution),
    Conforms scope fingerprint ⟨held,.sized key executions,ran⟩
      (fun _ φ' => φ'=⟨held,.dropping key ((blobSizes executions).map (·.1)),ran⟩) (dropRows key)

/-- A soft purge drops rows. -/
theorem dropsRows_softDrop :
    DropsRows scope fingerprint (softDrop : ExecutionKey → ServiceM Command Unit) :=
  fun _ _ _ _ => conforms_call rfl fun _ => ⟨_,.softDrop,List.Subperm.refl _,fun hr => hr,rfl⟩

/-- A hard delete drops rows, then the key's events. -/
theorem dropsRows_hardDrop :
    DropsRows scope fingerprint (hardDrop : ExecutionKey → ServiceM Command Unit) := by
  intro held ran key executions
  have hrows : Conforms scope fingerprint ⟨held,.sized key executions,ran⟩
      (fun _ φ' => φ'=⟨held,.dropping key ((blobSizes executions).map (·.1)),ran⟩)
      (store (.hardDeleteExecution key) : ServiceM Command Unit) :=
    conforms_call rfl fun _ => ⟨_,.hardDrop,List.Subperm.refl _,fun hr => hr,rfl⟩
  refine conforms_seq hrows ?_
  rintro _ φ' rfl _ _
  exact ⟨fun _ => rfl,conforms_quiet _ rfl rfl⟩

/-- Purging one key under its lock ends idle. -/
theorem conforms_purgeKey (hscope : scope.purges=true) {dropRows : ExecutionKey → ServiceM Command Unit}
    (hdrop : DropsRows scope fingerprint dropRows) (held : List ExecutionKey) (ran : Bool)
    (key : ExecutionKey) :
    Conforms scope fingerprint ⟨held,.idle,ran⟩ (AtTask .idle) (purgeKey dropRows key) := by
  refine conforms_withKeyLock rfl
    (?_ : Conforms scope fingerprint ⟨key::held,.idle,ran⟩ (AtTask (.dropping key [])) _) ?_
  · have hsizes : Conforms scope fingerprint ⟨key::held,.idle,ran⟩
        (fun sizes φ' => ∃ executions,sizes=blobSizes executions ∧
          φ'=⟨key::held,.sized key executions,ran⟩)
        (blobSizesFor key : ServiceM Command (List (BlobKey × Size))) := by
      refine conforms_seq (?_ : Conforms scope fingerprint _
        (fun executions φ' => φ'=⟨key::held,.sized key executions,ran⟩) _) ?_
      · exact conforms_call rfl fun executions => ⟨_,.size hscope List.mem_cons_self executions,
          List.Subperm.refl _,fun hr => hr,rfl⟩
      rintro executions φ' rfl _ _
      exact ⟨fun _ => rfl,conforms_pure ⟨executions,rfl,rfl⟩⟩
    refine conforms_seq hsizes ?_
    rintro sizes φ' ⟨executions,rfl,rfl⟩ _ _
    refine ⟨fun _ => rfl,conforms_seq (hdrop _ _ key executions) ?_⟩
    rintro _ φ' rfl _ _
    refine ⟨fun _ => rfl,conforms_seq (conforms_removeEach _ ran key (blobSizes executions)) ?_⟩
    rintro _ φ' rfl _ _
    exact ⟨fun _ => rfl,conforms_pure rfl⟩
  · intro _ φ' hφ
    simp only [hφ]
    rfl

/-- A program that starts and ends idle. -/
abbrev IdleToIdle (scope : Scope) (fingerprint : Bytes → Digest) (p : ServiceM Command α) : Prop :=
  ∀ (held : List ExecutionKey) (ran : Bool),Conforms scope fingerprint ⟨held,.idle,ran⟩ (AtTask .idle) p

/-- Idle programs in sequence. -/
theorem idle_seq {p : ServiceM Command α} {f : α → ServiceM Command β}
    (hp : IdleToIdle scope fingerprint p) (hf : ∀ a,IdleToIdle scope fingerprint (f a)) :
    IdleToIdle scope fingerprint (p >>= f) := by
  intro held ran
  refine conforms_seq (hp held ran) fun a φ' hφ _ _ => ?_
  obtain ⟨held',task',ran'⟩ := φ'
  cases hφ
  exact ⟨fun _ => rfl,hf a held' ran'⟩

/-- A returned value is idle. -/
theorem idle_pure (a : α) : IdleToIdle scope fingerprint (pure a : ServiceM Command α) :=
  fun _ _ => conforms_pure rfl

/-- A quiet call is idle. -/
theorem idle_quiet {call : Call Command} (h : isQuiet call=true) :
    IdleToIdle scope fingerprint (ask call) :=
  fun held ran => conforms_weaken (conforms_quiet ⟨held,.idle,ran⟩ h rfl) fun _ _ hφ => by rw [hφ]

/-- The purge loop is idle between keys. -/
theorem idle_purgeEach (hscope : scope.purges=true) {dropRows : ExecutionKey → ServiceM Command Unit}
    (hdrop : DropsRows scope fingerprint dropRows) (keys : List ExecutionKey) :
    IdleToIdle scope fingerprint (purgeEach dropRows keys) := by
  induction keys with
  | nil => exact idle_pure _
  | cons key keys ih =>
    exact idle_seq (fun held ran => conforms_purgeKey hscope hdrop held ran key) fun _ =>
      idle_seq ih fun _ => idle_pure _

/-- Every purge of a list of keys is idle between them. -/
theorem idle_purgeKeys (hscope : scope.purges=true) {dropRows : ExecutionKey → ServiceM Command Unit}
    (hdrop : DropsRows scope fingerprint dropRows) (keys : List ExecutionKey) :
    IdleToIdle scope fingerprint (purgeKeys dropRows keys) := by
  unfold purgeKeys
  split
  · exact idle_pure _
  · exact idle_seq (idle_purgeEach hscope hdrop keys) fun _ => idle_pure _

/-- Soft and hard purges start and end idle. -/
theorem idle_purge (hscope : scope.purges=true) (keys : List ExecutionKey) (hard : Bool) :
    IdleToIdle scope fingerprint (purge keys hard : ServiceM Command PurgeReport) := by
  unfold purge
  split
  · exact idle_purgeKeys hscope dropsRows_hardDrop keys
  · exact idle_purgeKeys hscope dropsRows_softDrop keys

/-- `purge_by_key` starts and ends idle. -/
theorem idle_purgeByKey (hscope : scope.purges=true) (key : ExecutionKey) (hard : Bool) :
    IdleToIdle scope fingerprint (purgeByKey key hard : ServiceM Command PurgeReport) := by
  have hfind : IdleToIdle scope fingerprint
      (store (.findAll key) : ServiceM Command (List MlExecution)) := fun held ran =>
    conforms_call rfl fun executions =>
      ⟨_,.gate (Or.inr (Or.inr ⟨key,rfl⟩)) executions,List.Subperm.refl _,fun hr => hr,rfl⟩
  refine idle_seq hfind fun executions => ?_
  split
  · exact idle_pure _
  · exact idle_purge hscope _ _

/-- `purge_by_tag` starts and ends idle. -/
theorem idle_purgeByTag (hscope : scope.purges=true) (tag : PyStr) (hard : Bool) :
    IdleToIdle scope fingerprint (purgeByTag tag hard : ServiceM Command PurgeReport) :=
  idle_seq (idle_quiet rfl) fun _ => idle_purge hscope _ _

/-- `purge_by_session` starts and ends idle. -/
theorem idle_purgeBySession (hscope : scope.purges=true) (sessionId : PyStr) (hard : Bool) :
    IdleToIdle scope fingerprint (purgeBySession sessionId hard : ServiceM Command PurgeReport) :=
  idle_seq (idle_quiet rfl) fun _ => idle_purge hscope _ _

/-- Collecting the sessions' keys reads only the journal. -/
theorem idle_keysForSessions (sessionIds : List PyStr) (keys : List ExecutionKey) :
    IdleToIdle scope fingerprint (keysForSessions sessionIds keys : ServiceM Command (List ExecutionKey)) := by
  induction sessionIds generalizing keys with
  | nil => exact idle_pure _
  | cons sessionId rest ih => exact idle_seq (idle_quiet rfl) fun _ => ih _

/-- `purge_by_session_tag` starts and ends idle. -/
theorem idle_purgeBySessionTag (hscope : scope.purges=true) (tag : PyStr) (hard : Bool) :
    IdleToIdle scope fingerprint (purgeBySessionTag tag hard : ServiceM Command PurgeReport) :=
  idle_seq (idle_quiet rfl) fun _ => idle_seq (idle_keysForSessions _ _) fun _ => idle_purge hscope _ _

/-- `purge_all` starts and ends idle. -/
theorem idle_purgeAll (hscope : scope.purges=true) (hard : Bool) :
    IdleToIdle scope fingerprint (purgeAll hard : ServiceM Command PurgeReport) := by
  unfold purgeAll
  split
  · exact idle_seq (idle_quiet rfl) fun _ => idle_purge hscope _ _
  · exact idle_seq (idle_quiet rfl) fun _ => idle_purge hscope _ _

/-- Reading the access order is idle. -/
theorem idle_accessOrdering : IdleToIdle scope fingerprint
    (accessOrdering : ServiceM Command (List (ExecutionKey × Timestamp))) :=
  idle_seq (idle_quiet rfl) fun _ => idle_pure _

/-- `evict_stale` starts and ends idle. -/
theorem idle_evictStale (hscope : scope.purges=true) (maxAge : ℤ) :
    IdleToIdle scope fingerprint (evictStale maxAge : ServiceM Command PurgeReport) := by
  unfold evictStale
  split
  · exact idle_pure _
  · exact idle_seq (idle_quiet rfl) fun _ => idle_seq (idle_quiet rfl) fun _ =>
      idle_seq idle_accessOrdering fun _ => idle_purgeKeys hscope dropsRows_softDrop _

/-- `evict_to_quota` starts and ends idle. -/
theorem idle_evictToQuota (hscope : scope.purges=true) (maxBytes : ℕ) :
    IdleToIdle scope fingerprint (evictToQuota maxBytes : ServiceM Command PurgeReport) := by
  refine idle_seq (idle_quiet rfl) fun current => ?_
  split
  · exact idle_pure _
  · exact idle_seq (idle_quiet rfl) fun _ =>
      idle_seq idle_accessOrdering fun _ => idle_purgeKeys hscope dropsRows_softDrop _

/-- An error ends a repair. -/
theorem raised_reconciled (run : UnpersistedRun) (todo : List BlobKey) (complete : Bool)
    (rest : List UnpersistedRun) (e : PyExc) :
    (Task.reconciled run todo complete rest).raised e=.idle := by
  unfold Task.reconciled
  split
  · cases rest <;> rfl
  · rfl

/-- Reconciling one run's blobs ends at the next step of the repair: the run is
complete when no blob was missing, now or before. -/
theorem conforms_reconcileBlobs (held : List ExecutionKey) (ran : Bool) (run : UnpersistedRun)
    (todo : List BlobKey) (complete : Bool) (rest : List UnpersistedRun) :
    Conforms scope fingerprint ⟨held,.reconciled run todo complete rest,ran⟩
      (fun counts φ' =>
        φ'=⟨held,.reconciled run [] (complete && decide (counts.2=0)) rest,ran⟩)
      (reconcileBlobs run.executionId todo : ServiceM Command (ℕ × ℕ)) := by
  induction todo generalizing complete with
  | nil => exact conforms_pure (by simp)
  | cons blobKey todo ih =>
    have hhead : Task.reconciled run (blobKey::todo) complete rest=
        .reconciling run (blobKey::todo) complete rest := by simp [Task.reconciled]
    rw [hhead]
    refine Follows.perform_bind (fun content => ?_) fun e =>
      ⟨_,.raise (Escapes.of_passes rfl),lands_raised (List.Subperm.refl _) (fun hr => hr) rfl⟩
    cases content with
    | some content =>
      refine ⟨_,.find content,?_⟩
      have hmark : Conforms scope fingerprint ⟨held,.blobFound run blobKey todo complete rest,ran⟩
          (fun _ φ' => φ'=⟨held,.reconciled run todo complete rest,ran⟩)
          (store (.markArtifactsStored run.executionId blobKey) : ServiceM Command Unit) :=
        conforms_call rfl fun _ => ⟨_,.repairMark,List.Subperm.refl _,fun hr => hr,rfl⟩
      refine conforms_seq hmark ?_
      rintro _ φ' rfl _ _
      refine ⟨raised_reconciled run todo complete rest,conforms_seq (ih complete) ?_⟩
      rintro counts φ' rfl _ _
      refine ⟨fun e => ?_,conforms_pure rfl⟩
      rw [raised_reconciled,raised_reconciled]
    | none =>
      refine ⟨_,.lose,?_⟩
      have hmark : Conforms scope fingerprint ⟨held,.blobMissed run blobKey todo rest,ran⟩
          (fun _ φ' => φ'=⟨held,.reconciled run todo false rest,ran⟩)
          (store (.markArtifactsFailed run.executionId blobKey missingDetail) : ServiceM Command Unit) :=
        conforms_call rfl fun _ => ⟨_,.repairFail,List.Subperm.refl _,fun hr => hr,rfl⟩
      refine conforms_seq hmark ?_
      rintro _ φ' rfl _ _
      refine ⟨raised_reconciled run todo false rest,conforms_seq (ih false) ?_⟩
      rintro counts φ' rfl _ _
      refine ⟨fun e => ?_,conforms_pure (by simp)⟩
      rw [raised_reconciled,raised_reconciled]

/-- An error between two runs ends a repair. -/
theorem raised_nextRun (runs : List UnpersistedRun) (e : PyExc) :
    (Task.nextRun runs).raised e=.idle := by cases runs <;> rfl

/-- Repairing one run moves on to the next. -/
theorem conforms_repairRun (held : List ExecutionKey) (ran : Bool) (run : UnpersistedRun)
    (rest : List UnpersistedRun) (report : RepairReport) :
    Conforms scope fingerprint ⟨held,.nextRun (run::rest),ran⟩
      (fun _ φ' => φ'=⟨held,.nextRun rest,ran⟩)
      (repairRun run report : ServiceM Command RepairReport) := by
  have hstart : Task.nextRun (run::rest)=.reconciled run run.blobKeys true rest := by
    simp [Task.nextRun,Task.reconciled]
  rw [hstart]
  refine conforms_seq (conforms_reconcileBlobs held ran run run.blobKeys true rest) ?_
  rintro ⟨reconciled,missing⟩ φ' rfl _ _
  refine ⟨fun e => ?_,?_⟩
  · rw [raised_reconciled,raised_reconciled]
  · by_cases hm : missing=0
    · have hdone : Task.reconciled run [] (true && decide (missing=0)) rest=
          .reconciling run [] true rest := by simp [Task.reconciled,hm]
      rw [hdone]
      simp only [hm,if_true]
      have hfin : Conforms scope fingerprint ⟨held,.reconciling run [] true rest,ran⟩
          (fun _ φ' => φ'=⟨held,.nextRun rest,ran⟩)
          (store (.finalizeOutputPersisted run.executionId) : ServiceM Command Unit) :=
        conforms_call rfl fun _ => ⟨_,.repairFinalize,List.Subperm.refl _,fun hr => hr,rfl⟩
      refine conforms_seq hfin ?_
      rintro _ φ' rfl _ _
      exact ⟨raised_nextRun rest,conforms_pure rfl⟩
    · have hdone : Task.reconciled run [] (true && decide (missing=0)) rest=.nextRun rest := by
        simp [Task.reconciled,hm]
      rw [hdone]
      simp only [hm,if_false]
      exact conforms_pure rfl

/-- Repairing the listed runs ends idle. -/
theorem conforms_repairRuns (held : List ExecutionKey) (ran : Bool) (runs : List UnpersistedRun)
    (report : RepairReport) :
    Conforms scope fingerprint ⟨held,.nextRun runs,ran⟩ (AtTask .idle)
      (repairRuns runs report : ServiceM Command RepairReport) := by
  induction runs generalizing report with
  | nil => exact conforms_pure rfl
  | cons run rest ih =>
    refine conforms_seq (conforms_repairRun held ran run rest report) ?_
    rintro report' φ' rfl _ _
    refine ⟨fun e => ?_,ih report'⟩
    rw [raised_nextRun,raised_nextRun]

/-- `repair` starts and ends idle. -/
theorem idle_repair (hscope : scope.repairs=true) :
    IdleToIdle scope fingerprint (repair : ServiceM Command RepairReport) := by
  intro held ran
  have hlist : Conforms scope fingerprint ⟨held,.idle,ran⟩
      (fun runs φ' => φ'=⟨held,.nextRun runs,ran⟩)
      (store .runsAwaitingPersistence : ServiceM Command (List UnpersistedRun)) :=
    conforms_call rfl fun runs => ⟨_,.list hscope runs,List.Subperm.refl _,fun hr => hr,rfl⟩
  refine conforms_seq hlist ?_
  rintro runs φ' rfl _ _
  exact ⟨raised_nextRun runs,conforms_repairRuns held ran runs _⟩

section Recording
variable (service : CachedMlExecutionService Command)

/-- Text that does not encode is not corruption. -/
theorem encodeText_error {s : PyStr} {e : PyExc} (h : encodeText s=.error e) :
    e.isCorruption=false := by
  unfold encodeText at h
  split at h
  · exact nomatch h
  · cases h
    rfl

/-- Failing to build the output documents is not corruption. -/
theorem buildArtifacts_error {executionId : ExecutionId} {result : ClientRunResult}
    {status : ArtifactStatus} {e : PyExc}
    (h : buildArtifacts fingerprint executionId result status=.error e) : e.isCorruption=false := by
  unfold buildArtifacts at h
  cases hout : encodeText result.stdout with
  | error e' =>
    rw [hout] at h
    cases Except.error.inj h
    exact encodeText_error hout
  | ok stdout =>
    cases herr : encodeText result.stderr with
    | error e' =>
      rw [hout,herr] at h
      cases Except.error.inj h
      exact encodeText_error herr
    | ok stderr =>
      rw [hout,herr] at h
      exact nomatch h

/-- A program that ends with the client called and no back-fill under way. -/
abbrev RanAfter : α → Phase → Prop := fun _ φ => φ.ran=true ∧ φ.task.settled=true

/-- The end of a recording, from any task that errors end. -/
theorem conforms_concludeRecording (hquota : service.maxSize=none ∨ scope.purges=true)
    {held : List ExecutionKey} (key : ExecutionKey) (command : Command)
    {execution : MlExecution} {result : ClientRunResult} {done : List Artifact} (allStored : Bool) :
    Conforms scope fingerprint ⟨held,.persisting execution result done [] allStored,true⟩
      (fun _ φ => φ.task.settled=true)
      (concludeRecording service key command execution.executionId allStored) := by
  cases allStored with
  | false => exact conforms_weaken (conforms_quiet _ rfl rfl) fun _ _ hφ => by rw [hφ]; rfl
  | true =>
    have hfin : Conforms scope fingerprint ⟨held,.persisting execution result done [] true,true⟩
        (fun _ φ' => φ'=⟨held,.idle,true⟩)
        (store (.finalizeOutputPersisted execution.executionId) : ServiceM Command Unit) :=
      conforms_call rfl fun _ => ⟨_,.finalize,List.Subperm.refl _,fun hr => hr,rfl⟩
    refine conforms_seq hfin ?_
    rintro _ φ' rfl _ _
    refine ⟨fun _ => rfl,conforms_quiet_seq rfl rfl fun _ => ?_⟩
    refine conforms_seq (conforms_applyTags service _ key command rfl) ?_
    rintro _ φ' rfl _ _
    refine ⟨fun _ => rfl,?_⟩
    unfold afterRecord
    cases hsize : service.maxSize with
    | none => exact conforms_pure rfl
    | some maxBytes =>
      have hpurges : scope.purges=true := hquota.resolve_left (by simp [hsize])
      refine conforms_seq (idle_evictToQuota hpurges maxBytes held true) fun _ φ' hφ _ _ => ?_
      exact ⟨fun e => by rw [hφ],conforms_pure (by rw [hφ]; rfl)⟩

/-- Recording a stored run. -/
theorem conforms_recordStored (hquota : service.maxSize=none ∨ scope.purges=true) {held : List ExecutionKey} (key : ExecutionKey) (command : Command)
    {execution : MlExecution} {result : ClientRunResult} :
    Conforms scope fingerprint ⟨held,.answered execution result,true⟩ RanAfter
      (recordStored service fingerprint key command execution result) := by
  have hout : Conforms scope fingerprint ⟨held,.answered execution result,true⟩
      (fun _ φ' => φ'=⟨held,.recorded execution result,true⟩)
      (store (.recordOutcome (withOutcome execution result)) : ServiceM Command Unit) :=
    conforms_call rfl fun _ => ⟨_,.outcome,List.Subperm.refl _,fun hr => hr,rfl⟩
  refine conforms_seq hout ?_
  rintro _ φ' rfl _ _
  refine ⟨fun _ => rfl,conforms_ofExcept rfl (fun e he => buildArtifacts_error he) fun outputs hout =>
    conforms_ofExcept rfl (fun e he => ?_) fun inputs hin => ?_⟩
  · unfold recordedInput at he
    split at he
    · exact buildInputArtifacts_error service he
    · exact nomatch he
  · have hdocs : IsRecordingOf fingerprint execution.executionId result (outputs ++ inputs) := by
      refine ⟨outputs,inputs,hout,?_,rfl⟩
      unfold recordedInput at hin
      split at hin
      · exact buildInputArtifacts_ok service hin
      · cases Except.ok.inj hin
        exact fun _ ha => (List.not_mem_nil ha).elim
    refine conforms_seq (conforms_withContentWriteLock rfl (.beginDocuments hdocs) rfl rfl (fun _ => rfl)
      (conforms_persistDocuments held true execution result [] (outputs ++ inputs) true)
      fun _ _ h => h) ?_
    rintro ⟨resolved,allStored⟩ φ' rfl _ _
    refine ⟨fun _ => rfl,?_⟩
    simp only [Bool.and_true]
    have hconclude : Conforms scope fingerprint
        ⟨held,.persisting execution result ([] ++ (outputs ++ inputs)) [] allStored,true⟩
        (fun _ φ => φ.task.settled=true) (concludeRecording service key command
          (withOutcome execution result).executionId allStored) :=
      conforms_concludeRecording service hquota key command allStored
    refine Follows.seq hconclude ?_ ?_
    · exact fun _ φ' h => Follows.pure ⟨h.1,h.2.1,h.2.1 rfl,h.2.2⟩
    · exact fun _ φ' h => ⟨h.1,h.2.1,h.2.2⟩

/-- Recording a run that is not stored. -/
theorem conforms_recordUnstored {held : List ExecutionKey} (key : ExecutionKey) (command : Command)
    {execution : MlExecution} {result : ClientRunResult} :
    Conforms scope fingerprint ⟨held,.answered execution result,true⟩ RanAfter
      (recordUnstored service fingerprint key command execution result) := by
  have hout : Conforms scope fingerprint ⟨held,.answered execution result,true⟩
      (fun _ φ' => φ'=⟨held,.recorded execution result,true⟩)
      (store (.recordOutcome (withOutcome execution result)) : ServiceM Command Unit) :=
    conforms_call rfl fun _ => ⟨_,.outcome,List.Subperm.refl _,fun hr => hr,rfl⟩
  refine conforms_seq hout ?_
  rintro _ φ' rfl _ _
  refine ⟨fun _ => rfl,conforms_quiet_seq rfl rfl fun _ => ?_⟩
  exact conforms_ofExcept rfl (fun e he => buildArtifacts_error he) fun _ _ => conforms_pure ⟨rfl,rfl⟩

/-- The client call of a fresh run ends with the client's result in hand. -/
theorem conforms_runRecordedClient {held : List ExecutionKey} {ran : Bool} (command : Command)
    (execution : MlExecution) :
    Conforms scope fingerprint ⟨held,.running execution,ran⟩
      (fun result φ' => φ'=⟨held,.answered execution result,true⟩)
      (runRecordedClient command execution) := by
  refine Follows.bind (Follows.attempt (Follows.perform fun r => ?_))
  -- Every error ends a recording idle.
  have hraised : ∀ (φ : Phase) (e : PyExc),List.Subperm held φ.held → (ran=true → φ.ran=true) →
      φ.task.raised e=.idle →
      Lands ⟨held,.running execution,ran⟩ (fun (result : ClientRunResult) φ' =>
        φ'=⟨held,.answered execution result,true⟩) (.error e) { φ with task := φ.task.raised e } :=
    fun φ e hheld hran htask => lands_raised hheld hran htask
  have hend : ∀ e,Lands ⟨held,.running execution,ran⟩ (fun (result : ClientRunResult) φ' =>
      φ'=⟨held,.answered execution result,true⟩) (.error e) ⟨held,.idle,true⟩ :=
    fun e => lands_raised (List.Subperm.refl _) (fun _ => rfl) rfl
  cases r with
  | ok result =>
    exact ⟨_,.answer result,Follows.pure ⟨List.Subperm.refl _,fun _ => rfl,rfl⟩⟩
  | error e =>
    simp only [clientRaised]
    by_cases hint : e.isInterrupt=true
    · refine ⟨_,.interrupt e hint,?_⟩
      simp only [hint,if_true]
      refine Follows.perform_bind (fun _ => ⟨_,.discard,hend _⟩) fun e' => ?_
      exact ⟨_,.raise (Escapes.of_passes rfl),hraised _ e' (List.Subperm.refl _) (fun _ => rfl) rfl⟩
    · by_cases he : e.isException=true
      · refine ⟨_,.clientRaise e he,?_⟩
        simp only [hint,he,if_true]
        refine Follows.perform_bind (fun _ => ⟨_,.abandon e.str,hend _⟩) fun e' => ?_
        exact ⟨_,.raise (Escapes.of_passes rfl),hraised _ e' (List.Subperm.refl _) (fun _ => rfl) rfl⟩
      · refine ⟨_,.raise (Escapes.of_caught rfl he),?_⟩
        simp only [hint,he]
        exact hraised ⟨held,.running execution,ran⟩ e (List.Subperm.refl _) (fun h => h) rfl

/-- The scope has the work that executing the command may need. -/
structure Covers (scope : Scope) (service : CachedMlExecutionService Command) (command : Command) :
    Prop where
  /-- It serves, unless the command refreshes. -/
  serves : service.cacheMode command≠.refresh → scope.serves=true
  /-- It records. -/
  records : scope.records=true
  /-- It purges where there is a quota. -/
  purges : service.maxSize=none ∨ scope.purges=true

/-- A fresh run under the key lock, whatever it records. -/
theorem conforms_runAndRecord {held : List ExecutionKey} {ran : Bool} {identity : CallIdentity}
    (hkey : identity.generateKey∈held) {command : Command} (hcovers : Covers scope service command) :
    Conforms scope fingerprint ⟨held,.idle,ran⟩ RanAfter
      (runAndRecord service fingerprint identity command) := by
  have hgate : Conforms scope fingerprint ⟨held,.idle,ran⟩ (fun _ φ' => φ'=⟨held,.idle,ran⟩)
      (blobHealthGate service command) := by
    unfold blobHealthGate
    by_cases h : (service.persistenceDepth command).storesInput=true
    · simp only [h]
      exact conforms_call rfl fun healthy =>
        ⟨_,.gate (Or.inl rfl) healthy,List.Subperm.refl _,fun hr => hr,rfl⟩
    · simp only [h]
      exact conforms_pure rfl
  refine conforms_seq hgate ?_
  rintro healthy φ' rfl _ _
  refine ⟨fun _ => rfl,?_⟩
  cases healthy with
  | false => exact conforms_raise rfl rfl
  | true =>
    simp only [if_true]
    have hmint : Conforms scope fingerprint ⟨held,.idle,ran⟩
        (fun executionId φ' => φ'=⟨held,.minted executionId,ran⟩)
        (ask .newExecutionId : ServiceM Command ExecutionId) :=
      conforms_call rfl fun executionId =>
        ⟨_,.mint hcovers.records executionId,List.Subperm.refl _,fun hr => hr,rfl⟩
    refine conforms_seq hmint ?_
    rintro executionId φ' rfl _ _
    have hsave : Conforms scope fingerprint ⟨held,.minted executionId,ran⟩
        (fun _ φ' => φ'=⟨held,.running (inProgressExecution service identity executionId command),ran⟩)
        (store (.save (inProgressExecution service identity executionId command)) :
          ServiceM Command Unit) :=
      conforms_call rfl fun _ =>
        ⟨⟨held,.running (inProgressExecution service identity executionId command),ran⟩,
          @Turn.save Command scope fingerprint held ran
            (inProgressExecution service identity executionId command) hkey
            ⟨rfl,rfl,rfl,rfl,rfl,rfl⟩,List.Subperm.refl _,fun hr => hr,rfl⟩
    refine ⟨fun _ => rfl,conforms_seq hsave ?_⟩
    rintro _ φ' rfl _ _
    refine ⟨fun _ => rfl,conforms_seq (conforms_runRecordedClient command _) ?_⟩
    rintro result φ' rfl _ _
    refine ⟨fun _ => rfl,?_⟩
    by_cases hpersist : service.shouldPersist command result.succeeded=true
    · simp only [hpersist,if_true]
      exact conforms_recordStored service hcovers.purges _ command
    · simp only [hpersist]
      exact conforms_recordUnstored service _ command

/-- How `execute` answers: from a hit on the key, or after calling the client. -/
def Answered (key : ExecutionKey) (result : MlExecution) (φ : Phase) : Prop :=
  Served key result φ ∨ φ.ran=true ∧ φ.task.settled=true

/-- A replay that falls through to a run when it is a miss. -/
theorem conforms_orElse (hscope : scope.serves=true) {held : List ExecutionKey} {ran : Bool} {key : ExecutionKey}
    {command : Command} {otherwise : ServiceM Command MlExecution}
    (h : ∀ held' ran',List.Subperm held held' →
      Conforms scope fingerprint ⟨held',.idle,ran'⟩ (Answered key) otherwise) :
    Conforms scope fingerprint ⟨held,.idle,ran⟩ (Answered key)
      (serveCurrentIfHealthy service fingerprint key command >>= fun r => match r with
        | some served => pure served
        | none => otherwise) := by
  refine Follows.seq (conforms_serveCurrentIfHealthy service hscope held ran key command) ?_ ?_
  · rintro r φ' ⟨hheld,hran,hend⟩
    cases r with
    | some served => exact Follows.pure ⟨hheld,hran,Or.inl hend⟩
    | none =>
      obtain ⟨held',task',ran'⟩ := φ'
      cases hend
      exact (h held' ran' hheld).weaken fun r φ'' h' =>
        ⟨hheld.trans h'.1,fun hr => h'.2.1 (hran hr),h'.2.2⟩
  · exact fun e φ' h' => ⟨h'.1,h'.2.1,h'.2.2⟩

/-- A locked fresh run. -/
theorem conforms_runFreshLocked (held : List ExecutionKey) (ran : Bool) (identity : CallIdentity)
    {command : Command} (hcovers : Covers scope service command) :
    Conforms scope fingerprint ⟨held,.idle,ran⟩ (Answered identity.generateKey)
      (runFreshLocked service fingerprint identity command) := by
  refine conforms_withKeyLock rfl
    (?_ : Conforms scope fingerprint ⟨identity.generateKey::held,.idle,ran⟩ (Answered identity.generateKey) _) ?_
  · have hrun : ∀ held' ran',List.Subperm (identity.generateKey::held) held' →
        Conforms scope fingerprint ⟨held',.idle,ran'⟩ (Answered identity.generateKey)
          (runAndRecord service fingerprint identity command) := by
      intro held' ran' hheld
      exact conforms_weaken (conforms_runAndRecord service (hheld.subset List.mem_cons_self) hcovers)
        fun _ _ h => Or.inr h
    by_cases hmode : service.cacheMode command=.cache
    · simp only [hmode,if_true]
      exact conforms_orElse service (hcovers.serves (by simp [hmode])) hrun
    · simp only [hmode,if_false]
      exact hrun _ ran (List.Subperm.refl _)
  · rintro result φ' (⟨loaded,got,hover,hres⟩ | hran)
    · exact Or.inl ⟨loaded,got,hover.released,hres⟩
    · exact Or.inr ⟨hran.1,Task.settled_released hran.2⟩

/-- A client call that nothing records. -/
theorem conforms_runClient (held : List ExecutionKey) (ran : Bool) (command : Command) :
    Conforms scope fingerprint ⟨held,.idle,ran⟩ (fun _ φ' => φ'=⟨held,.idle,true⟩)
      (ask (.runClient command) : ServiceM Command ClientRunResult) :=
  conforms_call rfl fun result =>
    ⟨_,.runUnrecorded result,List.Subperm.refl _,fun _ => rfl,rfl⟩

/-- A run that stores nothing. -/
theorem conforms_runUnstored (held : List ExecutionKey) (ran : Bool) (identity : CallIdentity)
    (command : Command) :
    Conforms scope fingerprint ⟨held,.idle,ran⟩ RanAfter
      (runUnstored service fingerprint identity command) := by
  refine conforms_seq (conforms_runClient held ran command) ?_
  rintro result φ' rfl _ _
  refine ⟨fun _ => rfl,conforms_quiet_seq rfl rfl fun executionId => ?_⟩
  exact conforms_ofExcept rfl (fun e he => buildArtifacts_error he) fun artifacts _ =>
    conforms_quiet_seq rfl rfl fun _ => conforms_pure ⟨rfl,rfl⟩

/-- An uncacheable command. -/
theorem conforms_runUncacheable (held : List ExecutionKey) (ran : Bool) (identity : CallIdentity)
    (command : Command) :
    Conforms scope fingerprint ⟨held,.idle,ran⟩ (Answered identity.generateKey)
      (runUncacheable service fingerprint identity command) := by
  unfold runUncacheable
  by_cases hmode : service.cacheMode command=.offline
  · simp only [hmode,if_true]
    exact conforms_quiet_seq rfl rfl fun _ => conforms_raise rfl rfl
  · simp only [hmode,if_false]
    exact conforms_weaken (conforms_runUnstored service held ran identity command)
      fun _ _ h => Or.inr h

/-- A METER command. -/
theorem conforms_runMetered (held : List ExecutionKey) (ran : Bool) (identity : CallIdentity)
    (command : Command) :
    Conforms scope fingerprint ⟨held,.idle,ran⟩ (Answered identity.generateKey)
      (runMetered service fingerprint identity command) := by
  refine conforms_quiet_seq rfl rfl fun found => ?_
  refine conforms_seq (conforms_runClient held ran command) ?_
  rintro result φ' rfl _ _
  refine ⟨fun _ => rfl,conforms_quiet_seq rfl rfl fun executionId => ?_⟩
  exact conforms_ofExcept rfl (fun e he => buildArtifacts_error he) fun artifacts _ =>
    conforms_quiet_seq rfl rfl fun _ => conforms_pure (Or.inr ⟨rfl,rfl⟩)

/-- The cacheable part of an execute. -/
theorem conforms_executeCacheable (held : List ExecutionKey) (ran : Bool) (identity : CallIdentity)
    {command : Command} (hcovers : Covers scope service command) :
    Conforms scope fingerprint ⟨held,.idle,ran⟩ (Answered identity.generateKey)
      (executeCacheable service fingerprint identity command) := by
  unfold executeCacheable
  cases hmode : service.cacheMode command with
  | offline =>
    have hscope : scope.serves=true := hcovers.serves (by simp [hmode])
    exact conforms_weaken (conforms_serveOffline service hscope held ran _ command)
      fun _ _ h => Or.inl h
  | cache =>
    by_cases hdepth : (service.persistenceDepth command).storesOutput=true
    · simp only [hdepth,if_true]
      exact conforms_orElse service (hcovers.serves (by simp [hmode])) fun held' ran' _ =>
        conforms_runFreshLocked service held' ran' identity hcovers
    · simp only [hdepth]
      exact conforms_runMetered service held ran identity command
  | refresh =>
    by_cases hdepth : (service.persistenceDepth command).storesOutput=true
    · simp only [hdepth,if_true]
      exact conforms_runFreshLocked service held ran identity hcovers
    · simp only [hdepth]
      exact conforms_runMetered service held ran identity command

/-- What an answer of `execute` is: a hit on the identity's key, or a result
obtained after calling the client. -/
def ExecuteAnswered (service : CachedMlExecutionService Command) (command : Command)
    (result : MlExecution) (φ : Phase) : Prop :=
  ∃ identity,service.buildIdentity command=.ok identity ∧ Answered identity.generateKey result φ

/-- An operation that answered is settled. -/
theorem ExecuteAnswered.settled {service : CachedMlExecutionService Command} {command : Command}
    {result : MlExecution} {φ : Phase} (h : ExecuteAnswered service command result φ) :
    φ.task.settled=true := by
  obtain ⟨_,_,hserved | hran⟩ := h
  · exact hserved.settled
  · exact hran.2

/-- `execute` follows the automaton: an answer it gives without calling the
client is a loaded current execution with its artifacts hydrated. -/
theorem conforms_execute (held : List ExecutionKey) (ran : Bool) {command : Command}
    (hcovers : Covers scope service command) :
    Conforms scope fingerprint ⟨held,.idle,ran⟩ (ExecuteAnswered service command)
      (execute service fingerprint command) := by
  unfold execute
  cases hidentity : service.buildIdentity command with
  | error e => exact conforms_raise_at rfl
  | ok identity =>
    rw [ofExcept_ok_bind]
    have hlift : ∀ p : ServiceM Command MlExecution,
        Conforms scope fingerprint ⟨held,.idle,ran⟩ (Answered identity.generateKey) p →
        Conforms scope fingerprint ⟨held,.idle,ran⟩ (ExecuteAnswered service command) p :=
      fun p hp => conforms_weaken hp fun _ _ h => ⟨identity,hidentity,h⟩
    refine hlift _ ?_
    by_cases hcache : service.isUncacheable command=true
    · simp only [hcache,if_true]
      exact conforms_runUncacheable service held ran identity command
    · simp only [hcache]
      have hgate : Conforms scope fingerprint ⟨held,.idle,ran⟩ (fun _ φ' => φ'=⟨held,.idle,ran⟩)
          (tokenGate service command) := by
        unfold tokenGate
        by_cases h : (service.persistenceDepth command).storesOutput=true
        · simp only [h]
          exact conforms_call rfl fun u =>
            ⟨_,.gate (Or.inr (Or.inl rfl)) u,List.Subperm.refl _,fun hr => hr,rfl⟩
        · simp only [h]
          exact conforms_pure rfl
      refine conforms_seq hgate ?_
      rintro _ φ' rfl _ _
      exact ⟨fun _ => rfl,conforms_executeCacheable service held ran identity hcovers⟩

end Recording

end GenericMlCache.ServiceConformance
