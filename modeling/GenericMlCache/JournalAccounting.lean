import GenericMlCache.ExecuteCalls
import GenericMlCache.ServiceOperations

/-!
# Journal accounting

Which events an execute appends to the call journal, whatever its calls answer.
An account is kept beside the run: the events written, whether the client ran
and its result was finalized, and whether a hit that was already written down
turned out corrupt afterwards.
-/

namespace GenericMlCache.JournalAccounting

open CallProgram CallAutomaton PythonText ExecutionModel SqliteStore RepositoryCalls ServicePorts
  StorePurge CachedExecution ExecuteCalls ServiceOperations

/-- Whether it is a `CacheMiss`. -/
def isCacheMiss : PyExc → Bool
  | .cacheMiss _ => true
  | _ => false

/-- What a run has done so far, as far as its journal is concerned. -/
structure Account where
  /-- The events written. -/
  entries : List JournalEntry
  /-- The client returned a result. -/
  ran : Bool
  /-- A run was finalized. -/
  finalized : Bool
  /-- The last lookup found a current execution. -/
  found : Bool
  /-- After a HIT event a call of its hit path raised corruption. -/
  spoiled : Bool
  /-- A port raised CacheMiss, which none of them declares. -/
  undeclared : Bool
  /-- Events were erased. -/
  erased : Bool

/-- The account of a run that has done nothing. -/
def Account.blank : Account := ⟨[],false,false,false,false,false,false⟩

/-- A HIT event was written. -/
def Account.hitWritten (a : Account) : Bool := a.entries.any fun entry => decide (entry.event=.hit)

/-- An account after a call raised. -/
def Account.raised (a : Account) (guarded : Bool) (e : PyExc) : Account :=
  { a with
    spoiled := a.spoiled || (e.isCorruption && a.hitWritten && !guarded)
    undeclared := a.undeclared || isCacheMiss e }

/-- Keep the account. -/
def watchJournal {Command : Type} :
    (call : Call Command) → Except PyExc call.Ret → Account → Account
  | .recordEvent entry,.ok _,a => { a with entries := a.entries ++ [entry] }
  | .deleteEventsForKey _,.ok _,a => { a with erased := true }
  | .runClient _,.ok _,a => { a with ran := true }
  | .store (.finalizeOutputPersisted _),.ok _,a => { a with finalized := true }
  | .store (.findCurrent _),.ok found,a => { a with found := Option.isSome found }
  | call,.error e,a => a.raised (isGuarded call) e
  | _,.ok _,a => a

section Accounts
variable {Command : Type}

/-- What a raised error does to the account. -/
theorem watchJournal_error {call : Call Command} (e : PyExc) (a : Account) :
    watchJournal call (.error e) a=a.raised (isGuarded call) e := by
  cases call with
  | store call => cases call <;> rfl
  | _ => rfl

/-- Nothing was written since, and nothing is taken back. -/
structure Frame (a a' : Account) : Prop where
  /-- No event was written. -/
  entries : a'.entries=a.entries
  /-- The client was not called. -/
  ran : a'.ran=a.ran
  /-- Nothing was finalized. -/
  finalized : a'.finalized=a.finalized
  /-- No event was erased. -/
  erased : a'.erased=a.erased
  /-- What was spoiled stays spoiled. -/
  spoiled : a.spoiled=true → a'.spoiled=true
  /-- An undeclared error stays one. -/
  undeclared : a.undeclared=true → a'.undeclared=true
  /-- Nothing is spoiled before a HIT event. -/
  unwritten : a.hitWritten=false → a'.spoiled=a.spoiled

/-- Nothing happened. -/
theorem Frame.refl (a : Account) : Frame a a := ⟨rfl,rfl,rfl,rfl,id,id,fun _ => rfl⟩

/-- The same events, the same HIT among them. -/
theorem Frame.hitWritten {a a' : Account} (h : Frame a a') : a'.hitWritten=a.hitWritten := by
  unfold Account.hitWritten
  rw [h.entries]

/-- One stretch after the other. -/
theorem Frame.trans {a b c : Account} (h : Frame a b) (h' : Frame b c) : Frame a c where
  entries := h'.entries.trans h.entries
  ran := h'.ran.trans h.ran
  finalized := h'.finalized.trans h.finalized
  erased := h'.erased.trans h.erased
  spoiled hs := h'.spoiled (h.spoiled hs)
  undeclared hu := h'.undeclared (h.undeclared hu)
  unwritten hw := by
    have hb : b.hitWritten=false := h.hitWritten.trans hw
    rw [h'.unwritten hb,h.unwritten hw]

/-- A raised error writes nothing. -/
theorem frame_raised (a : Account) (guarded : Bool) (e : PyExc) :
    Frame a (a.raised guarded e) where
  entries := rfl
  ran := rfl
  finalized := rfl
  erased := rfl
  spoiled hs := by simp [Account.raised,hs]
  undeclared hu := by simp [Account.raised,hu]
  unwritten hw := by simp [Account.raised,hw]

/-- A plain call, or a removal, writes nothing. -/
theorem frame_removal {call : Call Command} (h : isRemoval call=true) (r : Except PyExc call.Ret)
    (a : Account) : Frame a (watchJournal call r a) := by
  cases r with
  | error e =>
    rw [watchJournal_error]
    exact frame_raised a _ e
  | ok v =>
    cases call with
    | store call =>
      cases call with
      | findCurrent key => exact ⟨rfl,rfl,rfl,rfl,id,id,fun _ => rfl⟩
      | save | recordOutcome | finalizeOutputPersisted | hardDeleteExecution => exact nomatch h
      | _ => exact Frame.refl a
    | recordEvent | deleteEventsForKey | runClient | newExecutionId => exact nomatch h
    | _ => exact Frame.refl a

end Accounts

section Parts
variable {Command α β : Type}

/-- Nothing was written, and a CacheMiss came from a port. -/
structure Quiet (a : Account) (r : Except PyExc α) (a' : Account) : Prop where
  /-- Nothing was written. -/
  frame : Frame a a'
  /-- A CacheMiss came from a port. -/
  miss : ∀ e,r=.error e → isCacheMiss e=true → a'.undeclared=true

/-- Besides, corruption goes on exactly when it spoils a HIT that was written. -/
structure Told (a : Account) (r : Except PyExc α) (a' : Account) : Prop extends Quiet a r a' where
  /-- A value spoils nothing. -/
  ok : ∀ v,r=.ok v → a'.spoiled=a.spoiled
  /-- Corruption after a HIT spoils it. -/
  corrupt : ∀ e,r=.error e → e.isCorruption=true → a.hitWritten=true → a'.spoiled=true

/-- The program is told from any account. -/
abbrev Tells (p : ServiceM Command α) : Prop :=
  ∀ a,Follows (monitored watchJournal) (Told a) p a

/-- A returned value is told. -/
theorem told_ok (a : Account) (v : α) : Told a (.ok v) a where
  frame := .refl a
  miss _ h := nomatch h
  ok _ _ := rfl
  corrupt _ h := nomatch h

/-- An error that is neither corruption nor a miss is told. -/
theorem told_error (a : Account) {e : PyExc} (hcorrupt : e.isCorruption=false)
    (hmiss : isCacheMiss e=false) : Told a (.error e : Except PyExc α) a where
  frame := .refl a
  miss e' h hm := by
    cases h
    simp [hmiss] at hm
  ok _ h := nomatch h
  corrupt e' h hc := by
    cases h
    simp [hcorrupt] at hc

/-- A raised error of an unguarded call is told. -/
theorem told_raised (a : Account) (e : PyExc) :
    Told a (.error e : Except PyExc α) (a.raised false e) where
  frame := frame_raised a false e
  miss e' h hm := by
    cases h
    simp [Account.raised,hm]
  ok _ h := nomatch h
  corrupt e' h hc hw := by
    cases h
    simp [Account.raised,hc,hw]

/-- What follows a told part is told of the whole. -/
theorem Told.after {a b c : Account} {r : Except PyExc β} (h : Frame a b) (hs : b.spoiled=a.spoiled)
    (h' : Told b r c) : Told a r c where
  frame := h.trans h'.frame
  miss := h'.miss
  ok v hr := (h'.ok v hr).trans hs
  corrupt e hr hc hw := h'.corrupt e hr hc (h.hitWritten.trans hw)

/-- An error of a told part is an error of the whole. -/
theorem Told.error {a b : Account} {e : PyExc} (h : Told a (.error e : Except PyExc α) b) :
    Told a (.error e : Except PyExc β) b where
  frame := h.frame
  miss e' he hm := by
    cases he
    exact h.miss e rfl hm
  ok _ he := nomatch he
  corrupt e' he hc hw := by
    cases he
    exact h.corrupt e rfl hc hw

/-- A returned value is told. -/
theorem tells_pure (v : α) : Tells (pure v : ServiceM Command α) := fun a => told_ok a v

/-- A sequence of told parts is told. -/
theorem tells_bind {p : ServiceM Command α} {f : α → ServiceM Command β} (h : Tells p)
    (hf : ∀ v,Tells (f v)) : Tells (p >>= f) := by
  intro a
  refine Follows.seq (h a) (fun v b hb => ?_) fun e b hb => hb.error
  exact (hf v b).weaken fun r c hc => hc.after hb.frame (hb.ok v rfl)

/-- A plain call that succeeds spoils nothing. -/
theorem spoiled_ok {call : Call Command} (h : isPlain call=true) (v : call.Ret) (a : Account) :
    (watchJournal call (.ok v) a).spoiled=a.spoiled := by
  cases call with
  | store call => cases call <;> rfl
  | _ => rfl

/-- A plain call whose errors are not guarded is told. -/
theorem tells_ask {call : Call Command} (hplain : isPlain call=true)
    (hguarded : isGuarded call=false) : Tells (ask call) := by
  intro a
  refine Follows.watch_perform fun r => ?_
  have hframe := frame_removal (isRemoval_of_isPlain hplain) r a
  cases r with
  | error e =>
    rw [watchJournal_error,hguarded]
    exact told_raised a e
  | ok v =>
    exact ⟨⟨hframe,fun _ h => nomatch h⟩,fun _ _ => spoiled_ok hplain v a,fun _ h => nomatch h⟩

/-- A body with a cleanup after it is told. -/
theorem tells_ensure {body : ServiceM Command α} {cleanup : ServiceM Command Unit} (h : Tells body)
    (hc : Tells cleanup) : Tells (ensure body cleanup) := by
  intro a
  refine Follows.ensure ((h a).weaken fun r b hb => (hc b).weaken fun rc c hcb => ?_)
  have hframe : Frame a c := hb.frame.trans hcb.frame
  cases rc with
  | error e =>
    exact {
      frame := hframe
      miss := fun e' he hm => hcb.error.miss e' he hm
      ok := fun _ he => nomatch he
      corrupt := fun e' he hcor hw => hcb.error.corrupt e' he hcor (hb.frame.hitWritten.trans hw) }
  | ok u =>
    exact {
      frame := hframe
      miss := fun e he hm => hcb.frame.undeclared (hb.miss e he hm)
      ok := fun v hv => (hcb.ok u rfl).trans (hb.ok v hv)
      corrupt := fun e he hcor hw => hcb.frame.spoiled (hb.corrupt e he hcor hw) }

/-- A branch is told where the side taken is. -/
theorem tells_ite {c : Prop} [Decidable c] {p q : ServiceM Command α} (hp : Tells p) (hq : Tells q) :
    Tells (if c then p else q) :=
  fun a => Follows.ite (fun _ => hp a) fun _ => hq a

/-- A computed error that is neither corruption nor a miss is told. -/
theorem tells_ofExcept {r : Except PyExc α}
    (h : ∀ e,r=.error e → e.isCorruption=false ∧ isCacheMiss e=false) :
    Tells (ofExcept r : ServiceM Command α) := by
  intro a
  cases r with
  | ok v => exact told_ok a v
  | error e => exact told_error a (h e rfl).1 (h e rfl).2

/-- A key lock is told. -/
theorem tells_withKeyLock (key : ExecutionKey) {body : ServiceM Command α} (h : Tells body) :
    Tells (withKeyLock key body) :=
  tells_bind (tells_ask rfl rfl) fun _ => tells_ensure h (tells_ask rfl rfl)

/-- The shared store lock is told. -/
theorem tells_withContentWriteLock {body : ServiceM Command α} (h : Tells body) :
    Tells (withContentWriteLock body) :=
  tells_bind (tells_ask rfl rfl) fun _ => tells_ensure h (tells_ask rfl rfl)

/-- A guarded call spoils nothing. -/
theorem spoiled_guarded {call : Call Command} (h : isGuarded call=true) (r : Except PyExc call.Ret)
    (a : Account) : (watchJournal call r a).spoiled=a.spoiled := by
  cases r with
  | error e =>
    rw [watchJournal_error,h]
    simp [Account.raised]
  | ok v =>
    cases call with
    | store call =>
      cases call with
      | markArtifactsStored => rfl
      | _ => exact nomatch h
    | blobPut key content => rfl
    | _ => exact nomatch h

/-- A guarded call, attempted, is told: what it raises is handed over. -/
theorem tells_guarded {call : Call Command} (hplain : isPlain call=true)
    (h : isGuarded call=true) : Tells (attempt (ask call)) := by
  intro a
  refine Follows.attempt (Follows.watch_perform fun r => ?_)
  exact ⟨⟨frame_removal (isRemoval_of_isPlain hplain) r a,fun _ he => nomatch he⟩,
    fun _ _ => spoiled_guarded h r a,fun _ he => nomatch he⟩

/-- Leaving a lock leaves the account. -/
theorem watchJournal_release {call : Call Command} (h : isRelease call=true) (v : call.Ret)
    (a : Account) : watchJournal call (.ok v) a=a := by
  cases call with
  | releaseKey key => rfl
  | releaseShared => rfl
  | _ => exact nomatch h

/-- An error of a part that wrote nothing, raised last. -/
theorem told_last {a b : Account} (h : Frame a b) (e : PyExc) :
    Told a (.error e : Except PyExc α) (b.raised false e) := by
  have hlast := told_raised (α := α) b e
  exact {
    frame := h.trans hlast.frame
    miss := hlast.miss
    ok := fun _ he => nomatch he
    corrupt := fun e' he hc hw => hlast.corrupt e' he hc (h.hitWritten.trans hw) }

/-- A program whose errors nothing catches is told, when its own are no corruption and no miss. -/
theorem tells_straight {L : PyExc → Prop} {p : ServiceM Command α}
    (h : Straight (fun call => isPlain call=true ∧ isGuarded call=false) (fun call => isRelease call=true) L p)
    (hown : ∀ e,L e → isCacheMiss e=false ∧ e.isCorruption=false) : Tells p := by
  intro a
  have hgood : ∀ {call : Call Command} (v : call.Ret) (b : Account),isPlain call=true →
      Frame a b ∧ b.spoiled=a.spoiled →
      Frame a (watchJournal call (.ok v) b) ∧ (watchJournal call (.ok v) b).spoiled=a.spoiled := by
    intro call v b hplain hb
    have hframe := frame_removal (isRemoval_of_isPlain hplain) (.ok v) b
    exact ⟨hb.1.trans hframe,(spoiled_ok hplain v b).trans hb.2⟩
  refine (Follows.of_straight (G := fun b => Frame a b ∧ b.spoiled=a.spoiled)
    (B := fun e b => Told a (.error e : Except PyExc α) b) h ?_ ?_ ?_ ?_ ?_ ⟨.refl a,rfl⟩).weaken ?_
  · exact fun call v b hcall hb => hgood v b hcall.1 hb
  · intro call e b hcall hb
    rw [watchJournal_error,hcall.2]
    exact told_last hb.1 e
  · intro call v e b hrelease hb
    rw [watchJournal_release hrelease]
    exact hb
  · intro call e e' b hrelease hb
    rw [watchJournal_error,(plain_of_isRelease hrelease).2]
    exact told_last hb.frame e'
  · intro e b he hb
    obtain ⟨hmiss,hcorrupt⟩ := hown e he
    refine ⟨⟨hb.1,fun e' heq hm => ?_⟩,fun v heq => (by cases heq),fun e' heq hc => ?_⟩
    · cases heq
      rw [hmiss] at hm
      cases hm
    · cases heq
      rw [hcorrupt] at hc
      cases hc
  · rintro r b (⟨v,rfl,hframe,hspoiled⟩ | ⟨e,rfl,hb⟩)
    · exact ⟨⟨hframe,fun _ he => nomatch he⟩,fun _ _ => hspoiled,fun _ he => nomatch he⟩
    · exact hb

/-- A program that raises nothing of its own is told. -/
theorem tells_direct {p : ServiceM Command α} (h : Direct p) : Tells p := tells_straight h fun _ he => he.elim

/-- The eviction after a recording is told. -/
theorem tells_afterRecord (service : CachedMlExecutionService Command) : Tells (afterRecord service) := by
  refine tells_straight ((adding_afterRecord service).mono (fun _ hc => ⟨isPlain_of_isUntagged hc.1,hc.2⟩)
    fun _ he => he) fun e he => ?_
  rw [he]
  exact ⟨rfl,rfl⟩

/-- The program is quiet from any account. -/
abbrev Quiets (p : ServiceM Command α) : Prop :=
  ∀ a,Follows (monitored watchJournal) (Quiet a) p a

/-- A told program is quiet. -/
theorem Tells.quiets {p : ServiceM Command α} (h : Tells p) : Quiets p :=
  fun a => (h a).weaken fun _ _ hb => hb.toQuiet

/-- An error of a part that wrote nothing, raised last, is quiet. -/
theorem quiet_last {a b : Account} (h : Frame a b) (guarded : Bool) (e : PyExc) :
    Quiet a (.error e : Except PyExc α) (b.raised guarded e) where
  frame := h.trans (frame_raised b guarded e)
  miss e' he hm := by
    cases he
    simp [Account.raised,hm]

/-- A call whose success leaves the account is quiet. -/
theorem quiets_call {call : Call Command} (h : ∀ v b,watchJournal call (.ok v) b=b) :
    Quiets (ask call) := by
  intro a
  refine Follows.watch_perform fun r => ?_
  cases r with
  | ok v =>
    rw [h]
    exact ⟨.refl a,fun _ he => nomatch he⟩
  | error e =>
    rw [watchJournal_error]
    exact quiet_last (.refl a) _ e

/-- A program whose errors nothing catches is quiet, when none of its own is a miss. -/
theorem quiets_straight {L : PyExc → Prop} {p : ServiceM Command α}
    (h : Straight (fun call => isDirect call=true) (fun call => isRelease call=true) L p)
    (hown : ∀ e,L e → isCacheMiss e=false) : Quiets p := by
  intro a
  have hremoval : ∀ {call : Call Command},isDirect call=true → isRemoval call=true := by
    intro call hcall
    simp only [isDirect,Bool.and_eq_true] at hcall
    exact hcall.1
  refine (Follows.of_straight (G := fun b => Frame a b)
    (B := fun e b => Quiet a (.error e : Except PyExc α) b) h ?_ ?_ ?_ ?_ ?_ (.refl a)).weaken ?_
  · exact fun call v b hcall hb => hb.trans (frame_removal (hremoval hcall) (.ok v) b)
  · intro call e b hcall hb
    rw [watchJournal_error]
    exact quiet_last hb _ e
  · intro call v e b hrelease hb
    rw [watchJournal_release hrelease]
    exact hb
  · intro call e e' b hrelease hb
    rw [watchJournal_error]
    exact quiet_last hb.frame _ e'
  · intro e b he hb
    refine ⟨hb,fun e' heq hm => ?_⟩
    cases heq
    simp [hown e he] at hm
  · rintro r b (⟨v,rfl,hframe⟩ | ⟨e,rfl,hb⟩)
    · exact ⟨hframe,fun _ he => (by cases he)⟩
    · exact hb

/-- An exception is what a handler of exceptions catches: what passes it is
neither corruption nor a miss. -/
theorem not_exception {e : PyExc} (h : ¬e.isException=true) :
    e.isCorruption=false ∧ isCacheMiss e=false := by
  cases e <;> first | exact ⟨rfl,rfl⟩ | exact absurd rfl h

/-- Storing one blob is told. -/
theorem tells_storeBlob (executionId : ExecutionId) (artifact : Artifact) :
    Tells (storeBlob executionId artifact : ServiceM Command Artifact) := by
  refine tells_bind (tells_guarded rfl rfl) fun r => ?_
  cases r with
  | error e =>
    intro a
    refine Follows.ite (fun _ => ?_) fun he => ?_
    · exact tells_bind (tells_ask rfl rfl) (fun _ => tells_pure _) a
    · exact told_error a (not_exception he).1 (not_exception he).2
  | ok _ =>
    refine tells_bind (tells_guarded rfl rfl) fun r => ?_
    cases r with
    | error e =>
      intro a
      refine Follows.ite (fun _ => told_ok a _) fun he => ?_
      exact told_error a (not_exception he).1 (not_exception he).2
    | ok _ => exact tells_pure _

/-- Storing the blobs of attached documents is told. -/
theorem tells_storeBlobs (executionId : ExecutionId) (artifacts : List Artifact) :
    Tells (storeBlobs executionId artifacts : ServiceM Command Unit) := by
  induction artifacts with
  | nil => exact tells_pure ()
  | cons artifact rest ih => exact tells_bind (tells_storeBlob executionId artifact) fun _ => ih

/-- The document loop is told. -/
theorem tells_persistDocuments (executionId : ExecutionId) (artifacts : List Artifact) :
    Tells (persistDocuments executionId artifacts : ServiceM Command (List Artifact × Bool)) := by
  induction artifacts with
  | nil => exact tells_pure _
  | cons artifact rest ih =>
    refine tells_bind (tells_ask rfl rfl) fun _ => ?_
    refine tells_bind (tells_storeBlob executionId artifact) fun _ => ?_
    exact tells_bind ih fun _ => tells_pure _

variable {service : CachedMlExecutionService Command} {fingerprint : Bytes → Digest}

/-- The hooks of a service raise no CacheMiss: building an identity and an input
reads files and encodes text. -/
structure HooksRaiseNoMiss (service : CachedMlExecutionService Command) : Prop where
  /-- Building an identity raises none. -/
  buildIdentity : ∀ command e,service.buildIdentity command=.error e → isCacheMiss e=false
  /-- Building an input raises none. -/
  inputParts : ∀ command e,service.inputParts command=.error e → isCacheMiss e=false

/-- Building the input artifacts fails as the hook does. -/
theorem buildInputArtifacts_error (hhooks : HooksRaiseNoMiss service) {executionId : ExecutionId}
    {command : Command} {status : ArtifactStatus} {e : PyExc}
    (h : buildInputArtifacts service fingerprint executionId command status=.error e) :
    e.isCorruption=false ∧ isCacheMiss e=false := by
  unfold buildInputArtifacts at h
  cases hparts : service.inputParts command with
  | ok parts =>
    rw [hparts] at h
    cases h
  | error e' =>
    rw [hparts] at h
    cases h
    exact ⟨service.inputParts_error command _ hparts,hhooks.inputParts command _ hparts⟩

/-- A back-fill is told. -/
theorem tells_accumulateInput (hhooks : HooksRaiseNoMiss service) (key : ExecutionKey)
    (command : Command) (current : MlExecution) :
    Tells (accumulateInput service fingerprint key command current) := by
  refine tells_ite (tells_pure ()) (tells_withKeyLock key (tells_bind (tells_ask rfl rfl) ?_))
  intro found
  cases found with
  | none => exact tells_pure ()
  | some fresh =>
    refine tells_ite (tells_pure ()) (tells_bind (tells_ofExcept fun _ => buildInputArtifacts_error hhooks) fun artifacts => ?_)
    refine tells_ite (tells_pure ()) (tells_bind (tells_ask rfl rfl) fun _ => ?_)
    exact tells_withContentWriteLock (tells_storeBlobs _ _)

end Parts

section Flow
variable {Command : Type} (service : CachedMlExecutionService Command) (fingerprint : Bytes → Digest)

/-- The journal entry of one event of a command. -/
def journalEntry (event : JournalEvent) (key : ExecutionKey) (command : Command) : JournalEntry :=
  { event := event, executionKey := key, client := (service.journalFields command).1,
    model := (service.journalFields command).2.1, effort := (service.journalFields command).2.2,
    sessionId := service.sessionId command }

/-- A METER run of a cacheable command. -/
def isMetered (command : Command) : Bool :=
  !service.isUncacheable command && !(service.persistenceDepth command).storesOutput

/-- The event that matches what a run did: MISS for a CacheMiss, HIT where the
client did not run, WOULD_HIT or WOULD_MISS for a metered run, RECORD for a
finalized result and RUN for any other. -/
def happened {α : Type} (command : Command) (r : Except PyExc α) (a : Account) : JournalEvent :=
  match r with
  | .error _ => .miss
  | .ok _ =>
    if a.ran=false then .hit
    else if isMetered service command=true then if a.found=true then .wouldHit else .wouldMiss
    else if a.finalized=true then .record
    else .run

/-- The run returned a result or raised CacheMiss. -/
def Answered {α : Type} : Except PyExc α → Prop
  | .ok _ => True
  | .error e => isCacheMiss e=true

/-- The journal of an answered run: its one matching event, or a HIT that was
spoiled and at least one event more. -/
structure Closed {α : Type} (key : ExecutionKey) (command : Command) (r : Except PyExc α) (a : Account) :
    Prop where
  /-- No event was erased. -/
  erased : a.erased=false
  /-- Without corruption after a HIT there is the matching event alone. -/
  matching : a.undeclared=false → Answered r → a.spoiled=false →
    a.entries=[journalEntry service (happened service command r a) key command]
  /-- With it there is one more. -/
  twice : a.undeclared=false → Answered r → a.spoiled=true → 2 ≤ a.entries.length

/-- Before a run's own event is written: nothing is, or a HIT is and is spoiled. -/
structure Ready (ran finalized : Bool) (a : Account) : Prop where
  /-- No event was erased. -/
  erased : a.erased=false
  /-- Whether the client was called. -/
  ran : a.ran=ran
  /-- Whether the run was finalized. -/
  finalized : a.finalized=finalized
  /-- Without a spoiled HIT nothing is written. -/
  unwritten : a.spoiled=false → a.entries=[]
  /-- With one it is. -/
  written : a.spoiled=true → a.entries≠[]

variable {service fingerprint} {α : Type} {key : ExecutionKey} {command : Command} {ran finalized : Bool}

/-- A stretch that writes nothing leaves a run ready. -/
theorem Ready.frame {a b : Account} (h : Ready ran finalized a) (hb : Frame a b) :
    Ready ran finalized b where
  erased := hb.erased.trans h.erased
  ran := hb.ran.trans h.ran
  finalized := hb.finalized.trans h.finalized
  unwritten hs := by
    have ha : a.spoiled=false := by
      cases ha : a.spoiled with
      | false => rfl
      | true => exact absurd (hb.spoiled ha) (by simp [hs])
    rw [hb.entries]
    exact h.unwritten ha
  written hs := by
    rw [hb.entries]
    cases ha : a.spoiled with
    | true => exact h.written ha
    | false =>
      have hw : a.hitWritten=false := by simp [Account.hitWritten,h.unwritten ha]
      rw [hb.unwritten hw,ha] at hs
      cases hs

/-- An error that is no miss closes any account. -/
theorem closed_error {a : Account} {e : PyExc} (herased : a.erased=false)
    (hmiss : isCacheMiss e=true → a.undeclared=true) :
    Closed service key command (.error e : Except PyExc α) a where
  erased := herased
  matching hu hanswered := by simp [hmiss hanswered] at hu
  twice hu hanswered := by simp [hmiss hanswered] at hu

/-- The error of a quiet part closes a ready run. -/
theorem Ready.closed {a b : Account} {β : Type} {e : PyExc} (h : Ready ran finalized a)
    (hb : Quiet a (.error e : Except PyExc β) b) :
    Closed service key command (.error e : Except PyExc α) b :=
  closed_error (hb.frame.erased.trans h.erased) fun hm => hb.miss e rfl hm

/-- One matching event closes a ready run, whether it is its first or not. -/
theorem Ready.write {a b : Account} {r : Except PyExc α} (h : Ready ran finalized a)
    (herased : b.erased=false) (hspoiled : b.spoiled=a.spoiled)
    (hentries : b.entries=a.entries ++ [journalEntry service (happened service command r b) key command]) :
    Closed service key command r b where
  erased := herased
  matching _ _ hs := by
    rw [hentries,h.unwritten (hspoiled.symm.trans hs)]
    rfl
  twice _ _ hs := by
    have hne := h.written (hspoiled.symm.trans hs)
    have hpos := List.length_pos_iff.mpr hne
    rw [hentries,List.length_append,List.length_singleton]
    omega

/-- An event is written, or its error closes the run. -/
theorem follows_recordEvent {a : Account} {β : Type} {Q : Except PyExc β → Account → Prop}
    {event : JournalEvent} {f : Unit → ServiceM Command β}
    (hok : Follows (monitored watchJournal) Q (f ())
      { a with entries := a.entries ++ [journalEntry service event key command] })
    (herr : ∀ e,Q (.error e) (a.raised false e)) :
    Follows (monitored watchJournal) Q (recordEvent service event key command >>= f) a :=
  Follows.watch_bind (fun _ => hok) fun e => herr e

/-- What a served hit has done to a ready run. -/
def HitServed (service : CachedMlExecutionService Command) (key : ExecutionKey) (command : Command)
    (a : Account) : Except PyExc MlExecution → Account → Prop
  | .ok _,b => b.erased=false ∧ b.ran=false ∧ b.spoiled=a.spoiled ∧
      b.entries=a.entries ++ [journalEntry service .hit key command]
  | .error e,b => b.erased=false ∧ (isCacheMiss e=true → b.undeclared=true) ∧
      (e.isCorruption=true → Ready false false b)

/-- The error of a quiet part before the HIT event leaves the run ready. -/
theorem hitServed_before {a b : Account} {β : Type} {e : PyExc} (h : Ready false false a)
    (hb : Quiet a (.error e : Except PyExc β) b) : HitServed service key command a (.error e) b := by
  have hready := h.frame hb.frame
  exact ⟨hready.erased,fun hm => hb.miss e rfl hm,fun _ => hready⟩

/-- Corruption after the HIT event leaves the run ready, and the HIT spoiled. -/
theorem hitServed_after {a b : Account} {β : Type} {e : PyExc} (h : Ready false false a)
    (hb : Told { a with entries := a.entries ++ [journalEntry service .hit key command] }
      (.error e : Except PyExc β) b) : HitServed service key command a (.error e) b := by
  have herased : b.erased=false := hb.frame.erased.trans h.erased
  refine ⟨herased,fun hm => hb.miss e rfl hm,fun hc => ?_⟩
  have hwritten : Account.hitWritten
      { a with entries := a.entries ++ [journalEntry service .hit key command] }=true := by
    simp [Account.hitWritten,journalEntry]
  have hspoiled : b.spoiled=true := hb.corrupt e rfl hc hwritten
  have hentries : b.entries≠[] := by
    rw [hb.frame.entries]
    simp
  exact ⟨herased,hb.frame.ran.trans h.ran,hb.frame.finalized.trans h.finalized,
    fun hs => by simp [hspoiled] at hs,fun _ => hentries⟩

/-- What writes nothing spoils nothing in a ready run. -/
theorem Ready.spoiled {a b : Account} (h : Ready ran finalized a) (hb : Frame a b) : b.spoiled=a.spoiled := by
  cases ha : a.spoiled with
  | true => exact hb.spoiled ha
  | false =>
    have hw : a.hitWritten=false := by simp [Account.hitWritten,h.unwritten ha]
    rw [hb.unwritten hw,ha]

/-- A hit hydrates, writes its event, tags and back-fills. -/
theorem follows_serveHit (hhooks : HooksRaiseNoMiss service) {a : Account} (h : Ready false false a)
    (current : MlExecution) :
    Follows (monitored watchJournal) (HitServed service key command a)
      (serveHit service fingerprint key command current) a := by
  have hhydrate : Quiets (hydrate current : ServiceM Command MlExecution) := by
    refine quiets_straight ((straight_hydrate current).mono (fun _ hc => isDirect_of_plain hc)
      fun _ he => he) fun e he => ?_
    obtain ⟨message,rfl⟩ := he
    rfl
  have htags := tells_direct (direct_applyTags service key command)
  have hfill : Tells (accumulateInput service fingerprint key command current) :=
    tells_accumulateInput hhooks key command current
  refine Follows.seq (hhydrate a) (fun hydrated b hb => ?_) fun e b hb => hitServed_before h hb
  have hready := h.frame hb.frame
  have hspoiled := h.spoiled hb.frame
  refine follows_recordEvent ?_ fun e => ?_
  · rw [hb.frame.entries]
    refine (tells_bind htags fun _ => tells_bind hfill fun _ => tells_pure hydrated)
      { b with entries := a.entries ++ [journalEntry service .hit key command] } |>.weaken ?_
    intro r c hc
    cases r with
    | ok served =>
      exact ⟨hc.frame.erased.trans hready.erased,hc.frame.ran.trans hready.ran,
        (hc.ok served rfl).trans hspoiled,hc.frame.entries⟩
    | error e =>
      rw [← hb.frame.entries] at hc
      have hout : HitServed service key command b (.error e) c := hitServed_after hready hc
      exact hout
  · have hraised := frame_raised b false e
    have hmiss : isCacheMiss e=true → (b.raised false e).undeclared=true := by
      intro hm
      simp [Account.raised,hm]
    exact ⟨(hready.frame hraised).erased,hmiss,fun _ => hready.frame hraised⟩

/-- A healthy current execution is served, or the run is ready for a fresh one. -/
def ServedOrReady (service : CachedMlExecutionService Command) (key : ExecutionKey)
    (command : Command) (r : Except PyExc (Option MlExecution)) (a : Account) : Prop :=
  match r with
  | .ok (some served) => Closed service key command (.ok served : Except PyExc MlExecution) a
  | .ok none => Ready false false a
  | .error e => Closed service key command (.error e : Except PyExc MlExecution) a

/-- A served hit closes a ready run. -/
theorem HitServed.closed {a b : Account} (h : Ready false false a) {served : MlExecution}
    (hb : HitServed service key command a (.ok served) b) :
    Closed service key command (.ok served : Except PyExc MlExecution) b := by
  obtain ⟨herased,hran,hspoiled,hentries⟩ := hb
  refine h.write herased hspoiled ?_
  have hhit : happened service command (.ok served : Except PyExc MlExecution) b=.hit := by
    simp [happened,hran]
  rw [hentries,hhit]

/-- Serving the current execution closes a ready run or leaves it ready. -/
theorem follows_serveCurrentIfHealthy (hhooks : HooksRaiseNoMiss service) {a : Account} (h : Ready false false a) :
    Follows (monitored watchJournal) (ServedOrReady service key command)
      (serveCurrentIfHealthy service fingerprint key command) a := by
  have hfind : Quiets (ask (.store (.findCurrent key)) : ServiceM Command (Option MlExecution)) :=
    Tells.quiets (tells_ask rfl rfl)
  refine Follows.attempt_seq (hfind a) fun r b hb => ?_
  have hready := h.frame hb.frame
  cases r with
  | error e =>
    cases e with
    | storeCorrupt message => exact hready
    | _ => exact h.closed hb
  | ok found =>
    cases found with
    | none => exact hready
    | some current =>
      refine Follows.attempt_seq (follows_serveHit hhooks hready current) fun r c hc => ?_
      cases r with
      | ok served => exact hc.closed hready
      | error e =>
        obtain ⟨herased,hmiss,hcorrupt⟩ := hc
        refine Follows.ite (fun he => ?_) fun _ => closed_error herased hmiss
        have hheal : Quiets (removeExecutionAndBlobs current : ServiceM Command Unit) :=
          quiets_straight (straight_removeExecutionAndBlobs current) fun _ hf => absurd hf id
        refine Follows.seq (hheal c) (fun _ d hd => ?_) fun e' d hd => ?_
        · exact (hcorrupt he).frame hd.frame
        · exact (hcorrupt he).closed hd

/-- Serving offline closes a ready run: a miss is written where nothing is served. -/
theorem follows_serveOffline (hhooks : HooksRaiseNoMiss service) {a : Account}
    (h : Ready false false a) :
    Follows (monitored watchJournal) (Closed service key command)
      (serveOffline service fingerprint key command) a := by
  have hfind : Quiets (ask (.store (.findCurrent key)) : ServiceM Command (Option MlExecution)) :=
    Tells.quiets (tells_ask rfl rfl)
  have hstored : Follows (monitored watchJournal) (fun r b => match r with
      | .ok (some served) => Closed service key command (.ok served : Except PyExc MlExecution) b
      | .ok none => Ready false false b
      | .error e => b.erased=false ∧ (isCacheMiss e=true → b.undeclared=true) ∧
          (e.isCorruption=true → Ready false false b))
      (serveStored service fingerprint key command) a := by
    refine Follows.seq (hfind a) (fun found b hb => ?_) fun e b hb => ?_
    · have hready := h.frame hb.frame
      cases found with
      | none => exact hready
      | some current =>
        refine Follows.seq (follows_serveHit hhooks hready current) (fun served c hc => ?_)
          fun e c hc => hc
        exact hc.closed hready
    · have hready := h.frame hb.frame
      exact ⟨hready.erased,fun hm => hb.miss e rfl hm,fun _ => hready⟩
  have hmissed : ∀ {b : Account} (message : PyStr),Ready false false b →
      Follows (monitored watchJournal) (Closed service key command)
        (recordEvent service .miss key command >>= fun _ =>
          (raise (.cacheMiss message) : ServiceM Command MlExecution)) b := by
    intro b message hready
    refine follows_recordEvent ?_ fun e => ?_
    · exact hready.write hready.erased rfl rfl
    · exact hready.closed (quiet_last (α := Unit) (.refl b) false e)
  refine Follows.attempt_seq hstored fun r b hb => ?_
  cases r with
  | ok served =>
    cases served with
    | some served => exact hb
    | none => exact hmissed _ hb
  | error e =>
    refine Follows.ite (fun he => hmissed _ (hb.2.2 he)) fun _ => ?_
    exact closed_error hb.1 hb.2.1

/-- Running the recorded client: it returned, or its error goes on. -/
theorem follows_runRecordedClient {a : Account} (h : Ready false false a) (inProgress : MlExecution) :
    Follows (monitored watchJournal) (fun r b => match r with
      | .ok _ => Ready true false b ∧ b.spoiled=a.spoiled
      | .error e => b.erased=false ∧ (isCacheMiss e=true → b.undeclared=true))
      (runRecordedClient command inProgress) a := by
  have hclient : Follows (monitored watchJournal) (fun r b => b=watchJournal (.runClient command) r a)
      (ask (.runClient command) : ServiceM Command ClientRunResult) a := Follows.watch_perform fun _ => rfl
  refine Follows.attempt_seq hclient fun r b hb => ?_
  subst hb
  cases r with
  | ok result => exact ⟨⟨h.erased,rfl,h.finalized,h.unwritten,h.written⟩,rfl⟩
  | error e =>
    have hraised := frame_raised a false e
    have hmiss : isCacheMiss e=true → (a.raised false e).undeclared=true := by
      intro hm
      simp [Account.raised,hm]
    have hresolve : ∀ {p : ServiceM Command Unit},Quiets p →
        Follows (monitored watchJournal) (fun (r : Except PyExc ClientRunResult) b => match r with
          | .ok _ => Ready true false b ∧ b.spoiled=a.spoiled
          | .error e => b.erased=false ∧ (isCacheMiss e=true → b.undeclared=true))
          (p >>= fun _ => raise e) (a.raised false e) := by
      intro p hp
      refine Follows.seq (hp _) (fun _ b hb => ?_) fun e' b hb => ?_
      · have hframe := hraised.trans hb.frame
        exact ⟨hframe.erased.trans h.erased,fun hm => hb.frame.undeclared (hmiss hm)⟩
      · have hframe := hraised.trans hb.frame
        exact ⟨hframe.erased.trans h.erased,fun hm => hb.miss e' rfl hm⟩
    refine Follows.ite (fun _ => hresolve (quiets_call fun _ _ => rfl)) fun _ => ?_
    refine Follows.ite (fun _ => hresolve (quiets_call fun _ _ => rfl)) fun _ => ?_
    exact ⟨h.erased,hmiss⟩

/-- An error before any event of a ready run closes it, when it is no miss. -/
theorem Ready.closed_own {a : Account} {e : PyExc} (h : Ready ran finalized a) (hmiss : isCacheMiss e=false) :
    Closed service key command (.error e : Except PyExc α) a :=
  closed_error h.erased fun hm => by simp [hmiss] at hm

/-- A quiet part before a ready run's event leaves it ready or closes it. -/
theorem Ready.seq {a : Account} {β : Type} {p : ServiceM Command β} {f : β → ServiceM Command α}
    (h : Ready ran finalized a) (hp : Quiets p)
    (hf : ∀ v b,Ready ran finalized b →
      Follows (monitored watchJournal) (Closed service key command) (f v) b) :
    Follows (monitored watchJournal) (Closed service key command) (p >>= f) a :=
  Follows.seq (hp a) (fun v b hb => hf v b (h.frame hb.frame)) fun _ _ hb => h.closed hb

/-- A closed account of one returned value is closed of any. -/
theorem Closed.value {β : Type} {a : Account} {v : α} (h : Closed service key command (.ok v : Except PyExc α) a)
    (v' : β) : Closed service key command (.ok v' : Except PyExc β) a :=
  ⟨h.erased,fun hu _ hs => h.matching hu trivial hs,fun hu _ hs => h.twice hu trivial hs⟩

/-- A closed account of an error is closed of it at any type. -/
theorem Closed.error {β : Type} {a : Account} {e : PyExc}
    (h : Closed service key command (.error e : Except PyExc α) a) :
    Closed service key command (.error e : Except PyExc β) a :=
  ⟨h.erased,fun hu hm hs => h.matching hu hm hs,fun hu hm hs => h.twice hu hm hs⟩

/-- A run that writes the event of what happened, and nothing after it, is closed. -/
theorem Ready.event {a : Account} {p : ServiceM Command α} {event : JournalEvent}
    (h : Ready ran finalized a) (hp : Quiets p) (hne : event≠.hit)
    (hhappened : ∀ (v : α) b,b.ran=ran → b.finalized=finalized →
      happened service command (.ok v : Except PyExc α) b=event) :
    Follows (monitored watchJournal) (Closed service key command)
      (recordEvent service event key command >>= fun _ => p) a := by
  refine follows_recordEvent ?_ fun e => h.closed (quiet_last (α := Unit) (.refl a) false e)
  refine (hp _).weaken fun r b hb => ?_
  have herased : b.erased=false := hb.frame.erased.trans h.erased
  cases r with
  | error e => exact closed_error herased fun hm => hb.miss e rfl hm
  | ok v =>
    have hran : b.ran=ran := hb.frame.ran.trans h.ran
    have hfinalized : b.finalized=finalized := hb.frame.finalized.trans h.finalized
    refine h.write herased ?_ (by rw [hhappened v b hran hfinalized,hb.frame.entries])
    -- the event is no HIT, so what follows it spoils nothing that was sound
    cases ha : a.spoiled with
    | true => exact hb.frame.spoiled ha
    | false =>
      have hwritten : Account.hitWritten
          { a with entries := a.entries ++ [journalEntry service event key command] }=false := by
        simp [Account.hitWritten,h.unwritten ha,journalEntry,hne]
      exact (hb.frame.unwritten hwritten).trans ha

/-- What a storing run that called its client has done. -/
theorem happened_ran {a : Account} {v : α} (hmetered : isMetered service command=false)
    (hran : a.ran=true) : happened service command (.ok v : Except PyExc α) a=
      if a.finalized=true then .record else .run := by
  simp [happened,hran,hmetered]

/-- Building the output artifacts fails to encode, or does not fail. -/
theorem buildArtifacts_error {executionId : ExecutionId} {result : ClientRunResult} {status : ArtifactStatus}
    {e : PyExc} (h : buildArtifacts fingerprint executionId result status=.error e) :
    e=.unicodeEncodeError := by
  have hencode : ∀ {text : PyStr} {e : PyExc},encodeText text=.error e → e=.unicodeEncodeError := by
    intro text e he
    unfold encodeText at he
    split at he
    · cases he
    · cases he
      rfl
  unfold buildArtifacts at h
  cases hout : encodeText result.stdout with
  | error e' =>
    rw [hout] at h
    cases h
    exact hencode hout
  | ok stdout =>
    cases herr : encodeText result.stderr with
    | error e' =>
      rw [hout,herr] at h
      cases h
      exact hencode herr
    | ok stderr =>
      rw [hout,herr] at h
      cases h

/-- Building the output artifacts is quiet. -/
theorem quiets_buildArtifacts (executionId : ExecutionId) (result : ClientRunResult)
    (status : ArtifactStatus) :
    Quiets (ofExcept (buildArtifacts fingerprint executionId result status) :
      ServiceM Command (List Artifact)) := by
  refine (tells_ofExcept fun e he => ?_).quiets
  rw [buildArtifacts_error he]
  exact ⟨rfl,rfl⟩

/-- Building the input artifacts is quiet. -/
theorem quiets_recordedInput (hhooks : HooksRaiseNoMiss service) (executionId : ExecutionId) :
    Quiets (ofExcept (recordedInput service fingerprint executionId command) :
      ServiceM Command (List Artifact)) := by
  refine (tells_ofExcept fun e he => ?_).quiets
  unfold recordedInput at he
  split at he
  · exact buildInputArtifacts_error hhooks he
  · cases he

/-- Recording a run that keeps no output closes it with a RUN. -/
theorem follows_recordUnstored {a : Account} (h : Ready true false a)
    (hmetered : isMetered service command=false) (inProgress : MlExecution) (result : ClientRunResult) :
    Follows (monitored watchJournal) (Closed service key command)
      (recordUnstored service fingerprint key command inProgress result) a := by
  refine h.seq (quiets_call fun _ _ => rfl) fun _ b hb => ?_
  refine hb.event ?_ (by decide) fun v c hran hfinalized => ?_
  · intro c
    exact Follows.seq (quiets_buildArtifacts _ _ _ c) (fun _ d hd => ⟨hd.frame,fun _ he => nomatch he⟩)
      fun e d hd => ⟨hd.frame,fun e' he hm => hd.miss e' (by cases he; rfl) hm⟩
  · rw [happened_ran hmetered hran,hfinalized]
    rfl

/-- The end of a recording closes it with a RECORD, or a RUN. -/
theorem follows_concludeRecording {a : Account} (h : Ready true false a)
    (hmetered : isMetered service command=false) (executionId : ExecutionId) (allStored : Bool) :
    Follows (monitored watchJournal) (Closed service key command)
      (concludeRecording service key command executionId allStored) a := by
  refine Follows.ite (fun _ => ?_) fun _ => ?_
  · refine Follows.watch_bind (fun _ => ?_) fun e => h.closed (quiet_last (α := Unit) (.refl a) false e)
    have hready : Ready true true { a with finalized := true } :=
      ⟨h.erased,h.ran,rfl,h.unwritten,h.written⟩
    have htail : Quiets (applyTags service key command >>= fun _ => afterRecord service) :=
      (tells_bind (tells_direct (direct_applyTags service key command)) fun _ =>
        tells_afterRecord service).quiets
    refine hready.event htail (by decide) fun v b hran hfinalized => ?_
    rw [happened_ran hmetered hran,hfinalized]
    rfl
  · have hrun : Follows (monitored watchJournal) (Closed service key command)
        (recordEvent service .run key command >>= fun _ => pure ()) a := by
      refine h.event (tells_pure ()).quiets (by decide) fun v b hran hfinalized => ?_
      rw [happened_ran hmetered hran,hfinalized]
      rfl
    rwa [bind_pure] at hrun

/-- Recording a run that keeps its output closes it. -/
theorem follows_recordStored (hhooks : HooksRaiseNoMiss service) {a : Account} (h : Ready true false a)
    (hmetered : isMetered service command=false) (inProgress : MlExecution) (result : ClientRunResult) :
    Follows (monitored watchJournal) (Closed service key command)
      (recordStored service fingerprint key command inProgress result) a := by
  refine h.seq (quiets_call fun _ _ => rfl) fun _ b hb => ?_
  refine hb.seq (quiets_buildArtifacts _ _ _) fun outputs c hc => ?_
  refine hc.seq (quiets_recordedInput hhooks _) fun inputs d hd => ?_
  refine hd.seq (tells_withContentWriteLock (tells_persistDocuments _ _)).quiets fun stored e he => ?_
  obtain ⟨resolved,allStored⟩ := stored
  refine Follows.seq (follows_concludeRecording he hmetered _ allStored) (fun _ b hb => ?_)
    fun _ b hb => hb.error
  exact hb.value _

/-- A fresh run past its re-check closes a ready run. -/
theorem follows_runAndRecord (hhooks : HooksRaiseNoMiss service) {a : Account} (h : Ready false false a)
    (hmetered : isMetered service command=false) (identity : CallIdentity) :
    Follows (monitored watchJournal) (Closed service identity.generateKey command)
      (runAndRecord service fingerprint identity command) a := by
  refine h.seq (tells_direct (direct_blobHealthGate service command)).quiets fun healthy b hb => ?_
  refine Follows.ite (fun _ => ?_) fun _ => hb.closed_own rfl
  refine hb.seq (quiets_call fun _ _ => rfl) fun executionId c hc => ?_
  refine hc.seq (quiets_call fun _ _ => rfl) fun _ d hd => ?_
  refine Follows.seq (follows_runRecordedClient hd _) (fun result e he => ?_) fun e b hb => ?_
  · refine Follows.ite (fun _ => ?_) fun _ => ?_
    · exact follows_recordStored hhooks he.1 hmetered _ result
    · exact follows_recordUnstored he.1 hmetered _ result
  · exact closed_error hb.1 hb.2

/-- A key lock around the rest of a ready run closes it as the rest does. -/
theorem follows_withKeyLock {a : Account} (h : Ready ran finalized a) (lock : ExecutionKey)
    {body : ServiceM Command α}
    (hbody : ∀ b,Ready ran finalized b → Follows (monitored watchJournal) (Closed service key command) body b) :
    Follows (monitored watchJournal) (Closed service key command) (withKeyLock lock body) a := by
  refine h.seq (tells_ask rfl rfl).quiets fun _ b hb => ?_
  refine Follows.ensure ((hbody b hb).weaken fun r c hc => Follows.watch_perform fun released => ?_)
  cases released with
  | ok u => exact hc
  | error e =>
    have hraised := frame_raised c false e
    refine closed_error (hraised.erased.trans hc.erased) fun hm => ?_
    show (c.undeclared || isCacheMiss e)=true
    simp [hm]

/-- A fresh run closes a ready run. -/
theorem follows_runFreshLocked (hhooks : HooksRaiseNoMiss service) {a : Account}
    (h : Ready false false a) (hmetered : isMetered service command=false) (identity : CallIdentity) :
    Follows (monitored watchJournal) (Closed service identity.generateKey command)
      (runFreshLocked service fingerprint identity command) a := by
  refine follows_withKeyLock h _ fun b hb => ?_
  refine Follows.ite (fun _ => ?_) fun _ => follows_runAndRecord hhooks hb hmetered identity
  refine Follows.seq (follows_serveCurrentIfHealthy hhooks hb) (fun served c hc => ?_) fun e c hc => hc
  cases served with
  | some served => exact hc
  | none => exact follows_runAndRecord hhooks hc hmetered identity

/-- A CACHE run of a cacheable command closes. -/
theorem follows_replayOrRun (hhooks : HooksRaiseNoMiss service) {a : Account} (h : Ready false false a)
    (hmetered : isMetered service command=false) (identity : CallIdentity) :
    Follows (monitored watchJournal) (Closed service identity.generateKey command)
      (replayOrRun service fingerprint identity command) a := by
  refine Follows.seq (follows_serveCurrentIfHealthy hhooks h) (fun served c hc => ?_) fun e c hc => hc
  cases served with
  | some served => exact hc
  | none => exact follows_runFreshLocked hhooks hc hmetered identity

/-- The client's call alone: it ran, or its error goes on. -/
theorem follows_clientThen {a : Account} (h : Ready false false a)
    {f : ClientRunResult → ServiceM Command α}
    (hf : ∀ result b,Ready true false b → b.found=a.found →
      Follows (monitored watchJournal) (Closed service key command) (f result) b) :
    Follows (monitored watchJournal) (Closed service key command) (ask (.runClient command) >>= f) a := by
  refine Follows.watch_bind (fun result => hf result _ ?_ rfl) fun e => ?_
  · exact ⟨h.erased,rfl,h.finalized,h.unwritten,h.written⟩
  · exact h.closed (quiet_last (α := Unit) (.refl a) false e)

/-- A run that is not recorded, for an uncacheable command, closes with a RUN. -/
theorem follows_runUnstored {a : Account} (h : Ready false false a)
    (hmetered : isMetered service command=false) (identity : CallIdentity) :
    Follows (monitored watchJournal) (Closed service identity.generateKey command)
      (runUnstored service fingerprint identity command) a := by
  refine follows_clientThen h fun result b hb _ => ?_
  refine hb.seq (quiets_call fun _ _ => rfl) fun executionId c hc => ?_
  refine hc.seq (quiets_buildArtifacts _ _ _) fun artifacts d hd => ?_
  refine hd.event (tells_pure _).quiets (by decide) fun v e hran hfinalized => ?_
  rw [happened_ran hmetered hran,hfinalized]
  rfl

/-- An uncacheable command closes: with a MISS offline, else with a RUN. -/
theorem follows_runUncacheable {a : Account} (h : Ready false false a)
    (hmetered : isMetered service command=false) (identity : CallIdentity) :
    Follows (monitored watchJournal) (Closed service identity.generateKey command)
      (runUncacheable service fingerprint identity command) a := by
  refine Follows.ite (fun _ => ?_) fun _ => follows_runUnstored h hmetered identity
  refine follows_recordEvent ?_ fun e => h.closed (quiet_last (α := Unit) (.refl a) false e)
  exact h.write h.erased rfl rfl

/-- A METER run closes: with a WOULD_HIT where its lookup found a current execution. -/
theorem follows_runMetered {a : Account} (h : Ready false false a)
    (hmetered : isMetered service command=true) (identity : CallIdentity) :
    Follows (monitored watchJournal) (Closed service identity.generateKey command)
      (runMetered service fingerprint identity command) a := by
  refine Follows.watch_bind (fun found => ?_) fun e => h.closed (quiet_last (α := Unit) (.refl a) false e)
  have hfound : Ready false false (watchJournal (.store (.findCurrent identity.generateKey) : Call Command)
      (.ok found) a) := ⟨h.erased,h.ran,h.finalized,h.unwritten,h.written⟩
  refine follows_clientThen hfound fun result b hb hsame => ?_
  refine Follows.watch_bind (fun executionId => ?_) fun e => hb.closed (quiet_last (α := Unit) (.refl b) false e)
  cases hbuild : buildArtifacts fingerprint executionId result .stored with
  | error e =>
    have hmiss : isCacheMiss e=false := by
      rw [buildArtifacts_error hbuild]
      rfl
    exact hb.closed_own hmiss
  | ok artifacts =>
    refine follows_recordEvent ?_ fun e => hb.closed (quiet_last (α := Unit) (.refl b) false e)
    refine hb.write hb.erased rfl ?_
    have hevent : ∀ c : Account,c.ran=true → c.found=found.isSome →
        happened service command (.ok (displayedRun service identity executionId command result artifacts) :
          Except PyExc MlExecution) c=if found.isSome=true then .wouldHit else .wouldMiss := by
      intro c hran hc
      simp [happened,hran,hmetered,hc]
    exact congrArg (fun event => b.entries ++ [journalEntry service event identity.generateKey command])
      (hevent _ hb.ran hsame).symm

/-- A cacheable run closes. -/
theorem follows_executeCacheable (hhooks : HooksRaiseNoMiss service) {a : Account}
    (h : Ready false false a) (hcacheable : service.isUncacheable command=false) (identity : CallIdentity) :
    Follows (monitored watchJournal) (Closed service identity.generateKey command)
      (executeCacheable service fingerprint identity command) a := by
  have hmetered : isMetered service command=!(service.persistenceDepth command).storesOutput := by
    simp [isMetered,hcacheable]
  have hunmetered : (service.persistenceDepth command).storesOutput=true →
      isMetered service command=false := fun hs => by rw [hmetered,hs]; rfl
  have hmeters : ¬(service.persistenceDepth command).storesOutput=true →
      isMetered service command=true := fun hs => by rw [hmetered]; simpa using hs
  unfold executeCacheable
  cases service.cacheMode command with
  | offline => exact follows_serveOffline hhooks h
  | cache =>
    exact Follows.ite (fun hs => follows_replayOrRun hhooks h (hunmetered hs) identity)
      fun hs => follows_runMetered h (hmeters hs) identity
  | refresh =>
    exact Follows.ite (fun hs => follows_runFreshLocked hhooks h (hunmetered hs) identity)
      fun hs => follows_runMetered h (hmeters hs) identity

/-- An execute that has an identity closes under its key; one that has none ends in no answer. -/
theorem follows_execute (hhooks : HooksRaiseNoMiss service) :
    Follows (monitored watchJournal) (fun r a => a.erased=false ∧
        (Answered r → ∃ identity,service.buildIdentity command=.ok identity ∧
          Closed service identity.generateKey command r a))
      (execute service fingerprint command) Account.blank := by
  have hblank : Ready false false Account.blank := ⟨rfl,rfl,rfl,fun _ => rfl,fun hs => nomatch hs⟩
  cases hidentity : service.buildIdentity command with
  | error e =>
    unfold execute
    rw [hidentity]
    refine ⟨rfl,fun hanswered => ?_⟩
    have hmiss := hhooks.buildIdentity command e hidentity
    rw [show isCacheMiss e=true from hanswered] at hmiss
    cases hmiss
  | ok identity =>
    have hclosed : Follows (monitored watchJournal) (Closed service identity.generateKey command)
        (execute service fingerprint command) Account.blank := by
      unfold execute
      rw [hidentity]
      refine Follows.ite (fun hu => ?_) fun hu => ?_
      · exact follows_runUncacheable hblank (by simp [isMetered,hu]) identity
      · refine hblank.seq (tells_direct (direct_tokenGate service command)).quiets fun _ b hb => ?_
        exact follows_executeCacheable hhooks hb (by simpa using hu) identity
    exact hclosed.weaken fun r a ha => ⟨ha.erased,fun _ => ⟨identity,rfl,ha⟩⟩

end Flow

section Runs
variable {Command : Type} {locks : LockMode} {faults : Faults Command} {thread : ThreadId}

/-- Unless events are erased, the journal is what it was and the events written. -/
def Accounted (start : List JournalEntry) (s : World × Account) : Prop :=
  s.2.erased=false → s.1.journal=start ++ s.2.entries

/-- A raised error keeps the account. -/
theorem Accounted.error {start : List JournalEntry} {w : World} {a : Account}
    (h : Accounted start (w,a)) (call : Call Command) (e : PyExc) :
    Accounted start (w,watchJournal call (.error e) a) := by
  rw [watchJournal_error]
  exact h

/-- Every answer keeps the account. -/
theorem accounted_step {start : List JournalEntry} (call : Call Command) (s : World × Account)
    (r : Except PyExc call.Ret) (s' : World × Account)
    (h : observed (Answers locks faults thread) watchJournal call s r s') (hs : Accounted start s) :
    Accounted start s' := by
  obtain ⟨w,a⟩ := s
  obtain ⟨w',a'⟩ := s'
  obtain ⟨hanswer,rfl⟩ := h
  cases hanswer with
  | fault => exact hs.error _ _
  | reject => exact hs.error _ _
  | runClient result =>
    cases result with
    | ok result => exact hs
    | error e => exact hs.error _ _
  | @commit w call =>
    cases call <;> exact hs
  | @recordEvent w entry =>
    intro herased
    have hjournal : w.journal=start ++ a.entries := hs herased
    show w.journal ++ [entry]=start ++ (a.entries ++ [entry])
    rw [hjournal,List.append_assoc]
  | deleteEventsForKey => exact fun herased => nomatch herased
  | _ => exact hs

variable (service : CachedMlExecutionService Command) (fingerprint : Bytes → Digest)

/-- The smallest service's hooks raise nothing. -/
theorem smallestService_hooks : HooksRaiseNoMiss smallestService :=
  ⟨fun _ _ h => (by cases h),fun _ _ h => (by cases h)⟩

/-- The errors that ports declare: any but a miss. -/
def declared : Faults SmallestCommand := fun _ e => isCacheMiss e=false

/-- The store after one recording without its input. -/
def recordedOnce : World :=
  World.released (drive (answers 40 7) (execute smallestService positional ⟨.cache,.cache⟩) World.empty).2

/-- A DATASET call of the recorded key, whose `n`-th call raises. -/
def faultedHit (n : ℕ) (e : PyExc) : ServiceM SmallestCommand MlExecution × (World × Account) :=
  drive ((answersWithFault n 8 e 60 9).map fun handler => handler.watched watchJournal)
    (execute smallestService positional ⟨.cache,.dataset⟩) (recordedOnce,Account.blank)

/-- A faulted hit is a run. -/
theorem faultedHit_reach (n : ℕ) {e : PyExc} (he : isCacheMiss e=false) :
    Reach (observed (Answers .exclusive declared 0) watchJournal)
      (execute smallestService positional ⟨.cache,.dataset⟩) (recordedOnce,Account.blank)
      (faultedHit n e).1 (faultedHit n e).2 :=
  drive_watched _ (answersWithFault_respect n 8 (fun _ _ => he) 60 9) watchJournal _ _

end Runs

end GenericMlCache.JournalAccounting
