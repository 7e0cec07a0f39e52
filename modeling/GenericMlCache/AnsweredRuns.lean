import GenericMlCache.ExecuteCalls
import GenericMlCache.UndisturbedRuns

/-!
# Answered runs

Whether an execute is answered from the store, calls the client, or bypasses
the cache. A watch remembers whether the client and the repository were called.
Without faults the store it starts from decides which it is.
-/

namespace GenericMlCache.AnsweredRuns

open CallProgram CallAutomaton PythonText ExecutionModel SqliteStore ExecutionRepository ExecutionQueries
  RepositoryCalls ServicePorts StorePurge CachedExecution ExecuteCalls UndisturbedRuns

/-- What an execute called. -/
structure RunTrace where
  /-- The client was called. -/
  calledClient : Bool
  /-- The store, or a lock of it, was. -/
  usedStore : Bool
deriving DecidableEq

/-- Before the first call. -/
def RunTrace.blank : RunTrace := ⟨false,false⟩

/-- Watch the calls of the client and of the repository, whatever they answer. -/
def watchRun {Command : Type} : (call : Call Command) → Except PyExc call.Ret → RunTrace → RunTrace
  | .runClient _,_,t => { t with calledClient := true }
  | .store _,_,t => { t with usedStore := true }
  | _,_,t => t

/-- The run returned an execution without calling the client. -/
def Answered {α : Type} (r : Except PyExc α) (t : RunTrace) : Prop :=
  (∃ a,r=.ok a) ∧ t.calledClient=false

/-- The run called the client and left the store alone. -/
def Bypassed (t : RunTrace) : Prop := t.calledClient=true ∧ t.usedStore=false

section Traces
variable {Command α β : Type}

/-- What was called stays called. -/
theorem watchRun_mono (call : Call Command) (r : Except PyExc call.Ret) (t : RunTrace) :
    (t.calledClient=true → (watchRun call r t).calledClient=true) ∧
      (t.usedStore=true → (watchRun call r t).usedStore=true) := by
  cases call with
  | runClient => exact ⟨fun _ => rfl,id⟩
  | store => exact ⟨id,fun _ => rfl⟩
  | _ => exact ⟨id,id⟩

/-- Only the client's call is remembered as one. -/
theorem watchRun_client {call : Call Command} (h : isClient call=false) (r : Except PyExc call.Ret)
    (t : RunTrace) : (watchRun call r t).calledClient=t.calledClient := by
  cases call with
  | runClient => exact nomatch h
  | _ => rfl

/-- What was called stays called over any program. -/
theorem follows_mono (p : ServiceM Command α) (t : RunTrace) :
    Follows (monitored watchRun) (fun _ t' => (t.calledClient=true → t'.calledClient=true) ∧
      (t.usedStore=true → t'.usedStore=true)) p t := by
  induction p generalizing t with
  | done r => exact ⟨id,id⟩
  | call op next ih =>
    refine Follows.watch_call fun r => (ih r (watchRun op r t)).weaken fun r' t' hr => ?_
    obtain ⟨hclient,hstore⟩ := watchRun_mono op r t
    exact ⟨fun h => hr.1 (hclient h),fun h => hr.2 (hstore h)⟩

/-- The program returns only after it called the client. -/
def Calls (p : ServiceM Command α) : Prop :=
  ∀ t,Follows (monitored watchRun) (fun r t' => ∀ a,r=.ok a → t'.calledClient=true) p t

/-- A program that called the client has called it at its end. -/
theorem follows_called (p : ServiceM Command α) {t : RunTrace} (h : t.calledClient=true) :
    Follows (monitored watchRun) (fun r t' => ∀ a,r=.ok a → t'.calledClient=true) p t :=
  (follows_mono p t).weaken fun _ _ hr _ _ => hr.1 h

/-- What comes before does not matter. -/
theorem calls_after (p : ServiceM Command α) {f : α → ServiceM Command β} (h : ∀ a,Calls (f a)) :
    Calls (p >>= f) := fun t =>
  Follows.seq (follows_mono p t) (fun a _ _ => h a _) fun _ _ _ _ ha => nomatch ha

/-- What comes after does not matter. -/
theorem calls_before {p : ServiceM Command α} (h : Calls p) (f : α → ServiceM Command β) :
    Calls (p >>= f) := fun t =>
  Follows.seq (h t) (fun a _ hr => follows_called (f a) (hr a rfl)) fun _ _ _ _ ha => nomatch ha

/-- A raised error returns nothing. -/
theorem calls_raise (e : PyExc) : Calls (raise e : ServiceM Command α) :=
  fun _ => Follows.raise fun _ ha => nomatch ha

/-- The client's call. -/
theorem calls_client (command : Command) : Calls (ask (.runClient command)) :=
  fun _ => Follows.watch_perform fun _ _ _ => rfl

/-- A branch. -/
theorem calls_ite {c : Prop} [Decidable c] {p q : ServiceM Command α} (hp : c → Calls p)
    (hq : ¬c → Calls q) : Calls (if c then p else q) :=
  fun t => Follows.ite (fun h => hp h t) fun h => hq h t

/-- A run that returns only after it called the client is not answered from the store. -/
theorem not_answered_of_called {r : Except PyExc α} {t : RunTrace}
    (h : ∀ a,r=.ok a → t.calledClient=true) : ¬Answered r t := by
  rintro ⟨⟨a,ha⟩,hcalled⟩
  rw [h a ha] at hcalled
  exact nomatch hcalled

variable (service : CachedMlExecutionService Command) (fingerprint : Bytes → Digest)

/-- A recorded run returns only after it called the client. -/
theorem calls_runAndRecord (identity : CallIdentity) (command : Command) :
    Calls (runAndRecord service fingerprint identity command) := by
  refine calls_after _ fun healthy => calls_ite (fun _ => ?_) fun _ => calls_raise _
  refine calls_after _ fun executionId => calls_after _ fun _ => calls_before (fun t => ?_) _
  have hcalls : Follows (monitored watchRun) (fun _ t' => t'.calledClient=true)
      (ask (.runClient command) : ServiceM Command ClientRunResult) t :=
    Follows.watch_perform fun _ => rfl
  exact Follows.attempt_seq hcalls fun r t' hcalled => follows_called _ hcalled

/-- So does a metered run. -/
theorem calls_runMetered (identity : CallIdentity) (command : Command) :
    Calls (runMetered service fingerprint identity command) :=
  calls_after _ fun _ => calls_before (calls_client command) _

/-- A run that is not recorded calls the client and leaves the store alone. -/
theorem follows_runUnstored (identity : CallIdentity) (command : Command) :
    Follows (monitored watchRun) (fun _ t => Bypassed t)
      (runUnstored service fingerprint identity command) RunTrace.blank := by
  have hkeeps : ∀ call r (t : RunTrace),(∀ storeCall,call≠(.store storeCall : Call Command)) →
      Bypassed t → Bypassed (watchRun call r t) := by
    intro call r t hstore ht
    cases call with
    | store => exact absurd rfl (hstore _)
    | runClient => exact ⟨rfl,ht.2⟩
    | _ => exact ht
  refine Follows.watch_bind (fun result => ?_) fun e => ⟨rfl,rfl⟩
  have huses : Uses (fun call : Call Command => ∀ storeCall,call≠.store storeCall)
      (ask .newExecutionId >>= fun executionId =>
        ofExcept (buildArtifacts fingerprint executionId result .stored) >>= fun artifacts =>
          recordEvent service .run identity.generateKey command >>= fun _ =>
            (pure (displayedRun service identity executionId command result artifacts) :
              ServiceM Command MlExecution)) :=
    Uses.bind (Uses.perform fun _ hc => nomatch hc) fun _ => Uses.bind (Uses.ofExcept _) fun _ =>
      Uses.bind (Uses.perform fun _ hc => nomatch hc) fun _ => Uses.pure _
  exact Follows.of_uses huses (fun call r t hc ht => hkeeps call r t hc ht) ⟨rfl,rfl⟩

/-- A cacheable CACHE run asks the store before it calls the client. -/
theorem follows_cacheable {command : Command} (hmode : service.cacheMode command=.cache)
    (identity : CallIdentity) :
    Follows (monitored watchRun) (fun _ t => ¬Bypassed t)
      (tokenGate service command >>= fun _ => executeCacheable service fingerprint identity command)
      RunTrace.blank := by
  have hused : ∀ {α : Type} (p : ServiceM Command α) (t : RunTrace),t.usedStore=true →
      Follows (monitored watchRun) (fun _ t => ¬Bypassed t) p t := fun p t ht =>
    (follows_mono p t).weaken fun _ t' hr hb => by
      have := hr.2 ht
      rw [hb.2] at this
      exact nomatch this
  have hblank : ¬Bypassed RunTrace.blank := fun h => nomatch h.1
  have hgate : Follows (monitored watchRun) (fun _ t => t=RunTrace.blank) (tokenGate service command)
      RunTrace.blank :=
    Follows.ite (fun _ => Follows.watch_perform fun _ => rfl) fun _ => Follows.pure rfl
  refine Follows.seq hgate (fun _ t ht => ?_) fun _ t ht => by rw [ht]; exact hblank
  subst ht
  unfold executeCacheable
  rw [hmode]
  refine Follows.ite (fun _ => ?_) fun _ => ?_
  · exact Follows.watch_call fun r => hused _ _ rfl
  · exact Follows.watch_call fun r => hused _ _ rfl

/-- Serving does not call the client. -/
theorem follows_serving {p : ServiceM Command α} (h : Uses (fun call => isServing call=true) p)
    {t : RunTrace} (ht : t.calledClient=false) :
    Follows (monitored watchRun) (fun _ t' => t'.calledClient=false) p t :=
  Follows.of_uses h (fun call r t hcall ht => by
    rw [watchRun_client (isClient_of_isServing hcall)]
    exact ht) ht

end Traces

section Runs
variable {Command : Type} {locks : LockMode} {thread : ThreadId}
  {service : CachedMlExecutionService Command} {fingerprint : Bytes → Digest} {command : Command}
  {identity : CallIdentity} {w : World}

/-- The meaning of an undisturbed caller, watched. -/
abbrev watchedRun (Command : Type) (locks : LockMode) (thread : ThreadId) :
    Sem (Call Command) Call.Ret PyExc (World × RunTrace) :=
  observed (Answers locks noFaults thread) watchRun

/-- A program that returns only after it called the client, watched. -/
theorem Calls.safe {α : Type} {p : ServiceM Command α} (h : Calls p) (s : World × RunTrace) :
    Safe (watchedRun Command locks thread) (fun _ => True) (fun r s => ∀ a,r=.ok a → s.2.calledClient=true)
      p s :=
  Follows.safe (Q := fun r (t : RunTrace) => ∀ a,r=.ok a → t.calledClient=true) _ (h s.2)

/-- Where nothing is current, a fresh run returns only after it called the client. -/
theorem safe_runFreshLocked_absent (h : w.db.currentRow identity.generateKey=none) (t : RunTrace) :
    Safe (watchedRun Command locks thread) (fun _ => True) (fun r s => ∀ a,r=.ok a → s.2.calledClient=true)
      (runFreshLocked service fingerprint identity command) (w,t) := by
  refine Safe.perform_bind trivial (fun _ s hans => ?_) fun e s hans => ⟨trivial,fun a ha => (by cases ha)⟩
  obtain ⟨w',t'⟩ := s
  have hdb : w'.db=w.db := (noFaults_answer hans.1 (fun _ hc => (by cases hc)) fun _ hc => (by cases hc)).2
  have hbody : Safe (watchedRun Command locks thread) (fun _ => True)
      (fun r s => ∀ a,r=.ok a → s.2.calledClient=true)
      (if service.cacheMode command=.cache then
        serveCurrentIfHealthy service fingerprint identity.generateKey command >>=
          servedOrRun service fingerprint identity command
      else runAndRecord service fingerprint identity command) (w',t') := by
    refine Safe.ite (fun _ => ?_) fun _ => (calls_runAndRecord service fingerprint identity command).safe (w',t')
    have hrow : w'.db.currentRow identity.generateKey=none := by rw [hdb]; exact h
    have habsent : Safe (Answers locks noFaults thread) (fun w₂ => w₂=w') (fun r _ => r=.ok none)
        (serveCurrentIfHealthy service fingerprint identity.generateKey command) w' := safe_serve_absent hrow
    have habsent := habsent.observed watchRun (s := (w',t'))
    refine Safe.seq (habsent.crash fun _ _ => trivial) (fun found s _ hr => ?_) fun e s _ hr => ?_
    · obtain ⟨_,hfound⟩ := hr
      cases Except.ok.inj hfound
      exact (calls_runAndRecord service fingerprint identity command).safe s
    · cases hr.2
  refine Safe.ensure (hbody.mono fun r s _ hr => ?_)
  refine Safe.mono (Follows.safe _ (follows_mono (ask (.releaseKey identity.generateKey)) s.2))
    fun c s' _ hmono => ?_
  cases c with
  | ok _ => exact fun a ha => hmono.1 (hr a ha)
  | error e => exact fun a ha => (by cases ha)

/-- What a cacheable CACHE run that may replay does is decided by serving its key. -/
theorem safe_execute {sem : Sem (Call Command) Call.Ret PyExc (World × RunTrace)}
    {Q : Except PyExc MlExecution → World × RunTrace → Prop}
    (hsem : ∀ call s r s',sem call s r s' → watchedRun Command locks thread call s r s')
    (hidentity : service.buildIdentity command=.ok identity)
    (hcacheable : service.isUncacheable command=false) (hmode : service.cacheMode command=.cache)
    (hdepth : (service.persistenceDepth command).storesOutput=true)
    (h : Safe sem (fun _ => True) Q (replayOrRun service fingerprint identity command) (w,RunTrace.blank)) :
    Safe sem (fun _ => True) Q (execute service fingerprint command) (w,RunTrace.blank) := by
  unfold execute
  rw [hidentity]
  refine Safe.ite (fun hun => ?_) fun _ => ?_
  · rw [hcacheable] at hun
    exact nomatch hun
  · unfold tokenGate executeCacheable
    rw [hmode]
    simp only [hdepth,if_true]
    refine Safe.perform_bind (C := fun _ => True) trivial (fun _ s hans => ?_) fun e s hans => ?_
    · obtain ⟨w',t'⟩ := s
      obtain ⟨hans,rfl⟩ := hsem _ _ _ _ hans
      cases hans with
      | ensureAvailableForContent => exact h
    · obtain ⟨w',t'⟩ := s
      obtain ⟨hans,_⟩ := hsem _ _ _ _ hans
      cases hans with
      | fault _ hf => exact hf.elim

/-- A run of a key without a current row is not answered from the store. -/
theorem safe_run_absent (h : w.db.currentRow identity.generateKey=none) :
    Safe (watchedRun Command locks thread) (fun _ => True) (fun r s => ¬Answered r s.2)
      (replayOrRun service fingerprint identity command) (w,RunTrace.blank) := by
  have habsent : Safe (Answers locks noFaults thread) (fun w' => w'=w) (fun r _ => r=.ok none)
      (serveCurrentIfHealthy service fingerprint identity.generateKey command) w := safe_serve_absent h
  have habsent := habsent.observed watchRun (s := (w,RunTrace.blank))
  refine Safe.seq (habsent.crash fun _ _ => trivial) (fun found s _ hr => ?_) fun e s _ hr => nomatch hr.2
  obtain ⟨w',t'⟩ := s
  obtain ⟨hw,hfound⟩ := hr
  cases Except.ok.inj hfound
  cases hw
  exact (safe_runFreshLocked_absent h t').mono fun r s _ hr hanswered =>
    not_answered_of_called hr hanswered

/-- A run of a key whose current execution loads, with its blobs there, is
answered from the store. -/
theorem safe_run_healthy {current : MlExecution}
    (hfound : findCurrent identity.generateKey w.db=.ok (some current))
    (hread : Readable identity.generateKey w.db)
    (hblobs : ∀ a∈current.artifacts,(w.blobs.get a.blobKey).isSome=true)
    (htags : TagsBind service command)
    (hinput : (service.persistenceDepth command).storesInput=true → current.inputPersisted=false →
      InputBinds service command) :
    Safe (watchedRun Command locks thread) (fun _ => True)
      (fun r s => (∃ served,r=.ok { current with artifacts := served } ∧
        Hydrated w.blobs current.artifacts served) ∧ s.2.calledClient=false)
      (replayOrRun service fingerprint identity command) (w,RunTrace.blank) := by
  have hserved : Safe (Answers locks noFaults thread) (fun w' => Readable identity.generateKey w'.db)
      (fun r _ => ∃ served,r=.ok (some { current with artifacts := served }) ∧
        Hydrated w.blobs current.artifacts served)
      (serveCurrentIfHealthy service fingerprint identity.generateKey command) w :=
    safe_serve_healthy hfound hread hblobs htags hinput
  have hserved := hserved.observed watchRun (s := (w,RunTrace.blank))
  have hquiet := Follows.safe (Answers locks noFaults thread) (follows_serving
    (serving_serveCurrentIfHealthy service fingerprint identity.generateKey command)
    (t := RunTrace.blank) rfl) (s := (w,RunTrace.blank))
  refine Safe.seq ((hserved.and hquiet).crash fun _ _ => trivial) (fun found s _ hr => ?_) fun e s _ hr => ?_
  · obtain ⟨_,⟨served,hsome,hall⟩,hcalled⟩ := hr
    cases Except.ok.inj hsome
    exact Safe.pure trivial ⟨⟨served,rfl,hall⟩,hcalled⟩
  · obtain ⟨_,⟨served,hsome,_⟩,_⟩ := hr
    exact nomatch hsome

/-- A run of a key whose current execution lacks a blob is not answered from the store. -/
theorem safe_run_missing {current : MlExecution} (hone : w.db.AtMostOneCurrent)
    (hfound : findCurrent identity.generateKey w.db=.ok (some current))
    (hblobs : ∃ a∈current.artifacts,w.blobs.get a.blobKey=none) :
    Safe (watchedRun Command locks thread) (fun _ => True) (fun r s => ¬Answered r s.2)
      (replayOrRun service fingerprint identity command) (w,RunTrace.blank) := by
  have hhealed : Safe (Answers locks noFaults thread) (fun _ => True)
      (fun r w' => r=.ok none ∧ w'.db=removeExecution current.executionId w.db)
      (serveCurrentIfHealthy service fingerprint identity.generateKey command) w :=
    safe_serve_missing hfound hblobs
  have hhealed := hhealed.observed watchRun (s := (w,RunTrace.blank))
  refine Safe.seq (hhealed.crash fun _ _ => trivial) (fun found s _ hr => ?_) fun e s _ hr => nomatch hr.2.1
  obtain ⟨w',t'⟩ := s
  obtain ⟨_,hnone,hdb⟩ := hr
  cases Except.ok.inj hnone
  have habsent : w'.db.currentRow identity.generateKey=none := by
    obtain ⟨row,hrow,hload⟩ := findCurrent_some hfound
    obtain ⟨hmem,hkey,hserv⟩ := Db.currentRow_mem hrow
    rw [hdb]
    refine Db.currentRow_eq_none.mpr fun r hr hrkey => ?_
    obtain ⟨hrmem,hrid⟩ := mem_removeExecution.mp hr
    by_contra hrserv
    have hsame := hone r hrmem row hmem (hrkey.trans hkey.symm) (by simpa using hrserv) hserv
    exact hrid (by rw [hsame,(loadExecution_ok hload).1])
  exact (safe_runFreshLocked_absent habsent t').mono fun r s _ hr hanswered =>
    not_answered_of_called hr hanswered

/-- A run that would write what cannot be bound onto the current execution is not answered. -/
theorem safe_run_refused {current : MlExecution} {row : ExecutionRow}
    (hrow : w.db.currentRow identity.generateKey=some row) (hload : loadExecution w.db row=.ok current)
    (hblobs : ∀ a∈current.artifacts,(w.blobs.get a.blobKey).isSome=true)
    (hrefused : ¬TagsBind service command ∨ ((service.persistenceDepth command).storesInput=true ∧
      current.inputPersisted=false ∧ ¬InputBinds service command)) :
    Safe (watchedRun Command locks thread) (fun _ => True) (fun r s => ¬Answered r s.2)
      (replayOrRun service fingerprint identity command) (w,RunTrace.blank) := by
  have hraised : Safe (Answers locks noFaults thread) (fun _ => True) (fun r _ => ∃ e : PyExc,r=.error e)
      (serveCurrentIfHealthy service fingerprint identity.generateKey command) w :=
    safe_serve_refused hrow hload hblobs hrefused
  have hraised := hraised.observed watchRun (s := (w,RunTrace.blank))
  refine Safe.seq (hraised.crash fun _ _ => trivial) (fun found s _ hr => ?_) fun e s _ _ hanswered => ?_
  · obtain ⟨_,e,he⟩ := hr
    exact nomatch he
  · obtain ⟨⟨a,ha⟩,_⟩ := hanswered
    exact nomatch ha

/-- A metered run is not answered from the store. -/
theorem follows_metered (hdepth : ¬(service.persistenceDepth command).storesOutput=true)
    (hmode : service.cacheMode command=.cache) :
    Calls (tokenGate service command >>= fun _ => executeCacheable service fingerprint identity command) := by
  refine calls_after _ fun _ => ?_
  unfold executeCacheable
  rw [hmode]
  exact calls_ite (fun h => absurd h hdepth) fun _ => calls_runMetered service fingerprint identity command

end Runs

end GenericMlCache.AnsweredRuns
