import GenericMlCache.StoredBytes

/-!
# Executes under a quota

An execute that records ends with an eviction. Along any sequence of executes
under one quota, whatever faults and wherever they are stopped, the store is
within the quota after each that recorded and returned, as long as every
eviction finds no blob outside the current executions.
-/

namespace GenericMlCache.QuotaRuns

open CallProgram CallAutomaton PythonText ExecutionModel SqliteStore ExecutionRepository ExecutionQueries
  RepositoryCalls ServicePorts StorePurge CachedExecution ExecuteCalls ServiceAutomaton ServiceConformance
  ServiceOperations StoreSoundness PurgeRuns DocumentSizes FreedBlobs StoredBytes

/-- The call that ends a recording. -/
def isFinal {Command : Type} : Call Command → Bool
  | .store (.finalizeOutputPersisted _) => true
  | _ => false

/-- Whether a recording was finalized. -/
def watchRecorded {Command : Type} (call : Call Command) (r : Except PyExc call.Ret) (recorded : Bool) : Bool :=
  recorded || (isFinal call && r.isOk)

/-- What is known of the store before a call is known after it. -/
def Grounded {Command : Type} (locks : LockMode) (faults : Faults Command) (thread : ThreadId)
    (fingerprint : Bytes → Digest) : Sem (Call Command) Call.Ret PyExc (World × Bool) :=
  fun call s r s' => observed (Measured locks faults thread) watchRecorded call s r s' ∧
    Known fingerprint s.1 ∧ Known fingerprint s'.1

/-- After a recording that returns, the store is within its quota. -/
def Bounded {α : Type} (maxBytes : ℕ) (r : Except PyExc α) (s : World × Bool) : Prop :=
  s.2=true → r.isOk=true → Within maxBytes s.1

section Flow
variable {Command : Type} {locks : LockMode} {faults : Faults Command} {thread : ThreadId}
variable {fingerprint : Bytes → Digest} {maxBytes : ℕ} {α β : Type}

/-- A program that finalizes nothing records nothing. -/
theorem safe_unrecorded {p : ServiceM Command α} (h : Uses (fun call => isFinal call=false) p) {s : World × Bool}
    (hs : s.2=false) : Safe (Grounded locks faults thread fingerprint) (fun _ => True) (fun _ s' => s'.2=false) p s := by
  have hsafe : Safe (Grounded locks faults thread fingerprint) (fun s => s.2=false) (fun _ _ => True) p s := by
    refine Safe.of_uses h (fun call s r s' hcall hans hs => ?_) hs
    obtain ⟨⟨_,hwatch⟩,_⟩ := hans
    rw [hwatch]
    simp [watchRecorded,hs,hcall]
  exact (hsafe.crash fun _ _ => trivial).mono fun _ _ _ hr => hr.1

/-- Nothing recorded, nothing to bound. -/
theorem bounded_of_unrecorded {r : Except PyExc α} {s : World × Bool} (h : s.2=false) : Bounded maxBytes r s := by
  intro hrecorded
  rw [h] at hrecorded
  exact nomatch hrecorded

/-- A program that finalizes nothing is bounded. -/
theorem safe_of_uses {p : ServiceM Command α} (h : Uses (fun call => isFinal call=false) p) {s : World × Bool}
    (hs : s.2=false) : Safe (Grounded locks faults thread fingerprint) (fun _ => True) (Bounded maxBytes) p s :=
  (safe_unrecorded h hs).mono fun _ _ _ hr => bounded_of_unrecorded hr

/-- What comes before a recording finalizes nothing. -/
theorem safe_before {p : ServiceM Command α} {f : α → ServiceM Command β}
    (h : Uses (fun call => isFinal call=false) p) {s : World × Bool} (hs : s.2=false)
    (hf : ∀ a s',s'.2=false → Safe (Grounded locks faults thread fingerprint) (fun _ => True) (Bounded maxBytes) (f a) s') :
    Safe (Grounded locks faults thread fingerprint) (fun _ => True) (Bounded maxBytes) (p >>= f) s :=
  Safe.seq (safe_unrecorded h hs) (fun a s' _ hr => hf a s' hr) fun _ _ _ hr => bounded_of_unrecorded hr

/-- Plain calls finalize nothing. -/
theorem unfinal_of_isRemoval {call : Call Command} (h : isRemoval call=true) : isFinal call=false := by
  cases call with
  | store call => cases call <;> first | rfl | exact nomatch h
  | _ => rfl

/-- So do programs that make them. -/
theorem unfinal_of_plain {p : ServiceM Command α} (h : UsesPlain p) : Uses (fun call => isFinal call=false) p :=
  h.mono fun _ hc => unfinal_of_isRemoval (isRemoval_of_isPlain hc)

variable (service : CachedMlExecutionService Command)

/-- Serving a hit finalizes nothing. -/
theorem unfinal_serveCurrentIfHealthy (key : ExecutionKey) (command : Command) :
    Uses (fun call => isFinal call=false) (serveCurrentIfHealthy service fingerprint key command) :=
  uses_serveCurrentIfHealthy service fingerprint (fun _ hc => unfinal_of_isRemoval hc) (fun _ _ => rfl) key command

/-- A run that is not recorded finalizes nothing. -/
theorem unfinal_runUnstored (identity : CallIdentity) (command : Command) :
    Uses (fun call => isFinal call=false) (runUnstored service fingerprint identity command) :=
  Uses.bind (Uses.perform rfl) fun _ => Uses.bind (Uses.perform rfl) fun _ => Uses.bind (Uses.ofExcept _) fun _ =>
    Uses.bind (Uses.perform rfl) fun _ => Uses.pure _

/-- A metered run finalizes nothing. -/
theorem unfinal_runMetered (identity : CallIdentity) (command : Command) :
    Uses (fun call => isFinal call=false) (runMetered service fingerprint identity command) :=
  Uses.bind (Uses.perform rfl) fun _ => Uses.bind (Uses.perform rfl) fun _ => Uses.bind (Uses.perform rfl) fun _ =>
    Uses.bind (Uses.ofExcept _) fun _ => Uses.bind (Uses.perform rfl) fun _ => Uses.pure _

/-- The client's call finalizes nothing. -/
theorem unfinal_runRecordedClient (command : Command) (inProgress : MlExecution) :
    Uses (fun call => isFinal call=false) (runRecordedClient command inProgress : ServiceM Command ClientRunResult) := by
  refine Uses.bind (Uses.attempt (Uses.perform rfl)) fun r => ?_
  cases r with
  | ok result => exact Uses.pure result
  | error e =>
    refine Uses.ite (fun _ => Uses.bind (Uses.perform rfl) fun _ => Uses.raise e) fun _ => ?_
    exact Uses.ite (fun _ => Uses.bind (Uses.perform rfl) fun _ => Uses.raise e) fun _ => Uses.raise e

/-- An unstored outcome finalizes nothing. -/
theorem unfinal_recordUnstored (key : ExecutionKey) (command : Command) (inProgress : MlExecution)
    (result : ClientRunResult) :
    Uses (fun call => isFinal call=false) (recordUnstored service fingerprint key command inProgress result) :=
  Uses.bind (Uses.perform rfl) fun _ => Uses.bind (Uses.perform rfl) fun _ => Uses.bind (Uses.ofExcept _) fun _ =>
    Uses.pure _

/-- What follows the finalize ends with the eviction. -/
theorem safe_concludeRecording (hquota : service.maxSize=some maxBytes) (key : ExecutionKey) (command : Command)
    (id : ExecutionId) (allStored : Bool) {s : World × Bool} (hs : s.2=false) :
    Safe (Grounded locks faults thread fingerprint) (fun _ => True) (Bounded maxBytes)
      (concludeRecording service key command id allStored) s := by
  have hraise : ∀ {α : Type} (e : PyExc) (s' : World × Bool),
      True ∧ Bounded maxBytes (Except.error e : Except PyExc α) s' := fun e s' => ⟨trivial,fun _ h => nomatch h⟩
  refine Safe.ite (fun _ => ?_) fun _ => safe_of_uses (Uses.perform rfl) hs
  refine Safe.perform_bind trivial (fun _ s₁ _ => ?_) fun e s' _ => hraise e s'
  refine Safe.perform_bind trivial (fun _ s₂ hans => ?_) fun e s' _ => hraise e s'
  have htags : Safe (Grounded locks faults thread fingerprint) (fun s => Known fingerprint s.1) (fun _ _ => True)
      (applyTags service key command) s₂ :=
    Safe.of_uses (direct_applyTags service key command).plain (fun _ _ _ _ _ hans _ => hans.2.2) hans.2.2
  refine Safe.seq (htags.crash fun _ _ => trivial) (fun _ s₃ _ hr => ?_) fun e s' _ _ => (hraise e s').2
  have hevict : Safe (Grounded locks faults thread fingerprint) (fun _ => True)
      (fun r s' => r.isOk=true → Within maxBytes s'.1) (evictToQuota maxBytes : ServiceM Command PurgeReport) s₃ :=
    Safe.narrow (fun _ _ _ _ hans => hans.1)
      ((safe_evictToQuota maxBytes hr.1.1.oneCurrent).observed watchRecorded)
  unfold afterRecord
  rw [hquota]
  exact Safe.seq hevict (fun report s₄ _ hr => Safe.pure trivial fun _ _ => hr rfl) fun e s' _ _ => (hraise e s').2

/-- A stored recording ends with the eviction. -/
theorem safe_recordStored (hquota : service.maxSize=some maxBytes) (key : ExecutionKey) (command : Command)
    (inProgress : MlExecution) (result : ClientRunResult) {s : World × Bool} (hs : s.2=false) :
    Safe (Grounded locks faults thread fingerprint) (fun _ => True) (Bounded maxBytes)
      (recordStored service fingerprint key command inProgress result) s := by
  refine safe_before (Uses.perform rfl) hs fun _ s₁ hs₁ => ?_
  refine safe_before (Uses.ofExcept _) hs₁ fun outputs s₂ hs₂ => ?_
  refine safe_before (Uses.ofExcept _) hs₂ fun inputs s₃ hs₃ => ?_
  refine safe_before (unfinal_of_plain (plain_withContentWriteLock (plain_persistDocuments _ _))) hs₃
    fun stored s₄ hs₄ => ?_
  exact Safe.seq (safe_concludeRecording service hquota key command _ _ hs₄)
    (fun _ s₅ _ hr => Safe.pure trivial fun hrecorded _ => hr hrecorded rfl) fun e s' _ _ _ h => nomatch h

/-- So does a fresh run. -/
theorem safe_runAndRecord (hquota : service.maxSize=some maxBytes) (identity : CallIdentity) (command : Command)
    {s : World × Bool} (hs : s.2=false) :
    Safe (Grounded locks faults thread fingerprint) (fun _ => True) (Bounded maxBytes)
      (runAndRecord service fingerprint identity command) s := by
  refine safe_before (unfinal_of_plain (direct_blobHealthGate service command).plain) hs fun healthy s₁ hs₁ => ?_
  refine Safe.ite (fun _ => ?_) fun _ => Safe.raise trivial (bounded_of_unrecorded hs₁)
  refine safe_before (Uses.perform rfl) hs₁ fun executionId s₂ hs₂ => ?_
  refine safe_before (Uses.perform rfl) hs₂ fun _ s₃ hs₃ => ?_
  refine safe_before (unfinal_runRecordedClient _ _) hs₃ fun result s₄ hs₄ => ?_
  refine Safe.ite (fun _ => ?_) fun _ => safe_of_uses (unfinal_recordUnstored service _ _ _ _) hs₄
  exact safe_recordStored service hquota _ _ _ _ hs₄

/-- Leaving the key lock keeps the store within its quota. -/
theorem Bounded.released {r : Except PyExc α} {s s' : World × Bool} {key : ExecutionKey} {u : Unit}
    (h : Bounded maxBytes r s) (hans : Grounded locks faults thread fingerprint (.releaseKey key) s (.ok u) s') :
    Bounded maxBytes r s' := by
  obtain ⟨⟨⟨hans,_⟩,hwatch⟩,_⟩ := hans
  have hsame : s'.1.db=s.1.db ∧ s'.1.blobs=s.1.blobs := by
    generalize s'.1=w' at hans
    cases hans
    exact ⟨rfl,rfl⟩
  intro hrecorded hok
  rw [hwatch] at hrecorded
  have hbefore : s.2=true := by simpa [watchRecorded,isFinal] using hrecorded
  obtain ⟨hcounted,htotal⟩ := h hbefore hok
  unfold Within Counted
  rw [hsame.1,hsame.2]
  exact ⟨hcounted,htotal⟩

/-- The locked part of a fresh run. -/
theorem safe_runFreshLocked (hquota : service.maxSize=some maxBytes) (identity : CallIdentity) (command : Command)
    {s : World × Bool} (hs : s.2=false) :
    Safe (Grounded locks faults thread fingerprint) (fun _ => True) (Bounded maxBytes)
      (runFreshLocked service fingerprint identity command) s := by
  refine safe_before (Uses.perform rfl) hs fun _ s₁ hs₁ => ?_
  have hbody : Safe (Grounded locks faults thread fingerprint) (fun _ => True) (Bounded maxBytes)
      (if service.cacheMode command=.cache then
        serveCurrentIfHealthy service fingerprint identity.generateKey command >>=
          servedOrRun service fingerprint identity command
      else runAndRecord service fingerprint identity command) s₁ := by
    refine Safe.ite (fun _ => ?_) fun _ => safe_runAndRecord service hquota identity command hs₁
    refine safe_before (unfinal_serveCurrentIfHealthy service _ _) hs₁ fun served s₂ hs₂ => ?_
    cases served with
    | some served => exact Safe.pure trivial (bounded_of_unrecorded hs₂)
    | none => exact safe_runAndRecord service hquota identity command hs₂
  refine Safe.ensure (hbody.mono fun r s₂ _ hr => Safe.perform trivial fun c s₃ hans => ⟨trivial,?_⟩)
  cases c with
  | error e => exact fun _ h => (by cases h)
  | ok u => exact hr.released hans

/-- Every execute. -/
theorem safe_execute (hquota : service.maxSize=some maxBytes) (command : Command) {s : World × Bool} (hs : s.2=false) :
    Safe (Grounded locks faults thread fingerprint) (fun _ => True) (Bounded maxBytes)
      (execute service fingerprint command) s := by
  refine safe_before (Uses.ofExcept _) hs fun identity s₁ hs₁ => ?_
  refine Safe.ite (fun _ => safe_of_uses ?_ hs₁) fun _ => ?_
  · refine Uses.ite (fun _ => Uses.bind (Uses.perform rfl) fun _ => Uses.raise _) fun _ => ?_
    exact unfinal_runUnstored service identity command
  refine safe_before (unfinal_of_plain (direct_tokenGate service command).plain) hs₁ fun _ s₂ hs₂ => ?_
  have hfresh : ∀ s : World × Bool,s.2=false → Safe (Grounded locks faults thread fingerprint) (fun _ => True)
      (Bounded maxBytes) (runFreshLocked service fingerprint identity command) s :=
    fun s hs => safe_runFreshLocked service hquota identity command hs
  unfold executeCacheable
  cases service.cacheMode command with
  | offline =>
    exact safe_of_uses (uses_serveOffline service fingerprint (fun _ hc => unfinal_of_isRemoval hc)
      (fun _ _ => rfl) _ _) hs₂
  | cache =>
    refine Safe.ite (fun _ => ?_) fun _ => safe_of_uses (unfinal_runMetered service identity command) hs₂
    refine safe_before (unfinal_serveCurrentIfHealthy service _ _) hs₂ fun served s₃ hs₃ => ?_
    cases served with
    | some served => exact Safe.pure trivial (bounded_of_unrecorded hs₃)
    | none => exact hfresh s₃ hs₃
  | refresh =>
    refine Safe.ite (fun _ => hfresh s₂ hs₂) fun _ => ?_
    exact safe_of_uses (unfinal_runMetered service identity command) hs₂

end Flow

/-- The stores that executes under one quota lead to, one after another from an
empty store. Each may be stopped at any of its calls. -/
abbrev QuotaHistory {Command : Type} (sem : Sem (Call Command) Call.Ret PyExc World)
    (fingerprint : Bytes → Digest) (maxBytes : ℕ) : World → Prop :=
  History sem (fun p => ∃ (service : CachedMlExecutionService Command) (command : Command),
    service.maxSize=some maxBytes ∧ p=program fingerprint (.execute service command))
    (fun _ _ => True) World.released World.empty

section Histories
variable {Command : Type} {faults : Faults Command} {fingerprint : Bytes → Digest} {maxBytes : ℕ} {w : World}

/-- Such a store is reachable. -/
theorem QuotaHistory.reachable (h : QuotaHistory (Measured .exclusive faults 0) fingerprint maxBytes w) :
    Reachable faults fingerprint w := by
  induction h with
  | start => exact .start
  | run _ hp hrun _ ih =>
    obtain ⟨service,command,_,rfl⟩ := hp
    exact .run ih ⟨.execute service command,rfl⟩ (hrun.mono fun _ _ _ _ hans => hans.1) trivial

/-- Every store that a run of an execute passes through is known. -/
theorem known_of_reach (hreach : Reachable faults fingerprint w) (service : CachedMlExecutionService Command)
    (command : Command) {q : ServiceM Command MlExecution} {s : World × Bool}
    (hrun : Reach (observed (Measured .exclusive faults 0) watchRecorded) (execute service fingerprint command)
      (w,false) q s) : Known fingerprint s.1 := by
  have hcovers : Covers Scope.full service command := ⟨fun _ => rfl,rfl,Or.inr rfl⟩
  have hanswers : Reach (Answers .exclusive faults 0) (execute service fingerprint command) w q s.1 :=
    (Reach.of_observed hrun).mono fun _ _ _ _ hans => hans.1
  have hstart : CallerSound fingerprint Phase.start w ∧ SizedRows fingerprint w.db :=
    ⟨⟨reachable_sound hreach,trivial⟩,reachable_sized hreach⟩
  obtain ⟨φ,hknown,_⟩ := keeps_sized.reach (conforms_execute service [] false hcovers) hstart hanswers
  exact ⟨hknown.1.1,hknown.2⟩

/-- Along executes under one quota whose evictions all find every blob counted, each that records and
returns leaves a store whose blobs are together within the quota. -/
theorem quota_bounds_store (hinj : Function.Injective fingerprint)
    (hreach : QuotaHistory (Measured .exclusive faults 0) fingerprint maxBytes w)
    (service : CachedMlExecutionService Command) (hquota : service.maxSize=some maxBytes) (command : Command)
    {execution : MlExecution} {s : World × Bool}
    (hrun : Ends (observed (Measured .exclusive faults 0) watchRecorded) (execute service fingerprint command)
      (w,false) (.ok execution) s) (hrecorded : s.2=true) : blobTotal s.1 ≤ maxBytes := by
  have hknown := Safe.of_reach fun q t => known_of_reach (q := q) (s := t) hreach.reachable service command
  have hbounded := (hknown.within (safe_execute service hquota command rfl)).result hrun
  obtain ⟨hcounted,htotal⟩ := hbounded hrecorded rfl
  exact le_trans (blobTotal_le hinj (known_of_reach hreach.reachable service command hrun) hcounted) htotal

end Histories

instance (w : World) : Decidable (Counted w) := by
  unfold Counted
  infer_instance

/-- The smallest service under a quota of one byte. -/
def quotaService : CachedMlExecutionService SmallestCommand := { smallestService with maxSize := some 1 }

/-- Answer as the ports do, as long as every eviction finds every blob counted. -/
def whereCounted (handler : Handler (Call SmallestCommand) Call.Ret PyExc World) :
    Handler (Call SmallestCommand) Call.Ret PyExc World :=
  fun call w => if isMeasure call=true → Counted w then handler call w else none

/-- Then the condition is met. -/
theorem whereCounted_respects {locks : LockMode} {faults : Faults SmallestCommand} {thread : ThreadId}
    {handler : Handler (Call SmallestCommand) Call.Ret PyExc World}
    (h : handler.Respects (Answers locks faults thread)) :
    (whereCounted handler).Respects (Measured locks faults thread) := by
  intro call w r w' hanswer
  unfold whereCounted at hanswer
  split at hanswer
  next hcounted => exact ⟨h call w r w' hanswer,hcounted⟩
  next => exact nomatch hanswer

/-- The first recording, under the condition. -/
def countedRun : ServiceM SmallestCommand MlExecution × (World × Bool) :=
  drive (((answers 60 7).map whereCounted).map fun handler => handler.watched watchRecorded)
    (execute quotaService positional ⟨.cache,.cache⟩) (World.empty,false)

/-- It is a run. -/
theorem countedRun_reach : Reach (observed (Measured .exclusive noFaults 0) watchRecorded)
    (execute quotaService positional ⟨.cache,.cache⟩) (World.empty,false) countedRun.1 countedRun.2 := by
  refine drive_watched _ (fun handler hmem => ?_) watchRecorded _ _
  obtain ⟨plain,hplain,rfl⟩ := List.mem_map.mp hmem
  exact whereCounted_respects (answers_respect 60 7 plain hplain)

/-- After the first recording the store is within its quota. -/
theorem quota_bounds_store_first : ∃ execution,countedRun.1.value=some execution ∧ countedRun.2.2=true ∧
    blobTotal countedRun.2.1 ≤ 1 := by
  have hvalue : countedRun.1.value.isSome=true := by decide +kernel
  obtain ⟨execution,hexecution⟩ := Option.isSome_iff_exists.mp hvalue
  have hrecorded : countedRun.2.2=true := by decide +kernel
  have hend := countedRun_reach
  rw [Prog.value_eq_some.mp hexecution] at hend
  exact ⟨execution,hexecution,hrecorded,quota_bounds_store positional_injective .start quotaService rfl
    ⟨.cache,.cache⟩ hend hrecorded⟩

/-- A recording of the quota service, without a fault. -/
def quotaRun (mode : CacheMode) (fresh : ℕ) (w : World) : ServiceM SmallestCommand MlExecution × (World × Bool) :=
  drive ((answers 60 fresh).map fun handler => handler.watched watchRecorded)
    (execute quotaService positional ⟨mode,.cache⟩) (w,false)

/-- The store after the first recording. -/
def quotaRecorded : World :=
  World.released (drive (answers 60 7) (program positional (.execute quotaService ⟨.cache,.cache⟩)) World.empty).2

/-- A refresh keeps the superseded run's blob, which the eviction does not measure. -/
theorem quota_bounds_store_fails :
    QuotaHistory (Answers .exclusive (noFaults : Faults SmallestCommand) 0) positional 1 quotaRecorded ∧
    ∃ execution s,Ends (observed (Answers .exclusive noFaults 0) watchRecorded)
      (execute quotaService positional ⟨.refresh,.cache⟩) (quotaRecorded,false) (.ok execution) s ∧
      execution.executionState=.success ∧ s.2=true ∧ 1 < blobTotal s.1 := by
  refine ⟨.run .start ⟨quotaService,⟨.cache,.cache⟩,rfl,rfl⟩ (drive_reach _ (answers_respect 60 7) _ _) trivial,?_⟩
  have hvalue : (quotaRun .refresh 8 quotaRecorded).1.value.isSome=true := by decide +kernel
  obtain ⟨execution,hexecution⟩ := Option.isSome_iff_exists.mp hvalue
  have hend : Reach (observed (Answers .exclusive (noFaults : Faults SmallestCommand) 0) watchRecorded)
      (execute quotaService positional ⟨.refresh,.cache⟩) (quotaRecorded,false)
      (quotaRun .refresh 8 quotaRecorded).1 (quotaRun .refresh 8 quotaRecorded).2 :=
    drive_watched _ (answers_respect 60 8) watchRecorded _ _
  rw [Prog.value_eq_some.mp hexecution] at hend
  have hstate : ((quotaRun .refresh 8 quotaRecorded).1.value.map fun e => decide (e.executionState=.success))=
      some true := by decide +kernel
  rw [hexecution] at hstate
  exact ⟨execution,_,hend,of_decide_eq_true (Option.some.inj hstate),by decide +kernel,by decide +kernel⟩

end GenericMlCache.QuotaRuns
