import GenericMlCache.ServiceOperations

/-!
# The key locks that a caller is in

A caller asks for a key lock while it is in others at two places only. A
back-fill under the lock of the miss path asks for the same key again, and a
recording that evicts to a quota asks for the keys of its victims, one at a
time. Every other lock is asked for by a caller that is in none.
-/

namespace GenericMlCache.NestedLocks

open CallProgram CallAutomaton PythonText ExecutionModel RepositoryCalls ServicePorts StorePurge
  StoreRepair CachedExecution ServiceOperations

/-- The key locks that a caller is in after a call. Leaving one never fails. -/
def watchHeld {Command : Type} (call : Call Command) (r : Except PyExc call.Ret)
    (held : List ExecutionKey) : List ExecutionKey :=
  match call,r with
  | .acquireKey key,.ok _ => key::held
  | .releaseKey key,_ => held.erase key
  | _,_ => held

/-- A caller in these locks may ask for the key: all are locks of that key, or
it evicts and all are locks of the key that it recorded. -/
def MayNest (evicts : Prop) (key : ExecutionKey) (held : List ExecutionKey) : Prop :=
  (∀ k∈held,k=key) ∨ (evicts ∧ ∃ recorded, ∀ k∈held,k=recorded)

/-- The turns of a caller that nests its key locks so. -/
def nesting {Command : Type} (evicts : Prop) : Turns (Call Command) Call.Ret PyExc (List ExecutionKey) :=
  fun held call r held' => held'=watchHeld call r held ∧
    ∀ key,call=.acquireKey key → MayNest evicts key held

/-- The program nests its locks so, and leaves every lock that it enters. -/
abbrev Nested {Command α : Type} (evicts : Prop) (held : List ExecutionKey) (p : ServiceM Command α) :
    Prop := Follows (nesting evicts) (fun _ held' => held'=held) p held

/-- A call that neither enters nor leaves a key lock. -/
def isKeyLock {Command : Type} : Call Command → Bool
  | .acquireKey _ | .releaseKey _ => true
  | _ => false

section Rules
variable {Command α β : Type} {evicts : Prop} {held : List ExecutionKey}

/-- A caller in no lock may ask for any key. -/
theorem mayNest_nil (key : ExecutionKey) : MayNest evicts key [] := Or.inl fun _ h => nomatch h

/-- A caller may ask again for the one key that it is in. -/
theorem mayNest_again (key : ExecutionKey) : MayNest evicts key [key] :=
  Or.inl fun _ h => List.mem_singleton.mp h

/-- A returned value takes no lock. -/
theorem Nested.pure (a : α) : Nested evicts held (pure a : ServiceM Command α) := rfl

/-- A raised error takes no lock. -/
theorem Nested.raise (e : PyExc) : Nested evicts held (raise e : ServiceM Command α) := rfl

/-- A computed value takes no lock. -/
theorem Nested.ofExcept (r : Except PyExc α) : Nested evicts held (ofExcept r : ServiceM Command α) := rfl

/-- A call of another kind takes no lock. -/
theorem Nested.ask {call : Call Command} (h : isKeyLock call=false) : Nested evicts held (ask call) := by
  refine Follows.perform fun r => ⟨held,⟨?_,fun key hkey => ?_⟩,rfl⟩
  · cases call with
    | acquireKey key => exact nomatch h
    | releaseKey key => exact nomatch h
    | _ => rfl
  · rw [hkey] at h
    exact nomatch h

/-- A method of the repository takes no lock. -/
theorem Nested.store (call : StoreCall) :
    Nested evicts held (store call : ServiceM Command call.Ret) := Nested.ask rfl

/-- Sequencing. -/
theorem Nested.bind {p : ServiceM Command α} {f : α → ServiceM Command β} (h : Nested evicts held p)
    (hf : ∀ a, Nested evicts held (f a)) : Nested evicts held (p >>= f) := by
  refine Follows.seq h (fun a held' heq => ?_) fun e held' heq => heq
  rw [heq]
  exact hf a

/-- An attempted program and what follows on its outcome. -/
theorem Nested.attempt {p : ServiceM Command α} {f : Except PyExc α → ServiceM Command β}
    (h : Nested evicts held p) (hf : ∀ r, Nested evicts held (f r)) :
    Nested evicts held (attempt p >>= f) := by
  refine Follows.attempt_seq h fun r held' heq => ?_
  rw [heq]
  exact hf r

/-- A branch. -/
theorem Nested.ite {c : Prop} [Decidable c] {p q : ServiceM Command α} (hp : c → Nested evicts held p)
    (hq : ¬c → Nested evicts held q) : Nested evicts held (if c then p else q) := Follows.ite hp hq

/-- A body under the lock of a key that the caller may ask for. -/
theorem Nested.withKeyLock {key : ExecutionKey} {body : ServiceM Command α}
    (hkey : MayNest evicts key held) (h : Nested evicts (key::held) body) :
    Nested evicts held (withKeyLock key body) := by
  have hmay : ∀ k,(Call.acquireKey key : Call Command)=.acquireKey k → MayNest evicts k held := by
    intro k hk
    cases hk
    exact hkey
  refine Follows.perform_bind (fun a => ⟨key::held,⟨rfl,hmay⟩,?_⟩) fun e => ⟨held,⟨rfl,hmay⟩,rfl⟩
  refine Follows.ensure (h.weaken fun r held' heq => ?_)
  refine Follows.perform fun c => ⟨held,⟨?_,fun k hk => nomatch hk⟩,?_⟩
  · rw [heq]
    cases c <;> simp [watchHeld]
  · cases c <;> rfl

/-- The shared store lock is no key lock. -/
theorem Nested.withContentWriteLock {body : ServiceM Command α} (h : Nested evicts held body) :
    Nested evicts held (withContentWriteLock body) :=
  Nested.bind (Nested.ask rfl) fun _ => Nested.attempt h fun r =>
    Nested.bind (Nested.ask rfl) fun _ => Nested.ofExcept r

end Rules

section Purges
variable {Command : Type} {evicts : Prop} {held : List ExecutionKey}

/-- A purge takes the lock of one key at a time. -/
theorem nested_purgeKeys {dropRows : ExecutionKey → ServiceM Command Unit}
    (hdrop : ∀ held key, Nested evicts held (dropRows key)) (hmay : ∀ key, MayNest evicts key held)
    (keys : List ExecutionKey) : Nested evicts held (purgeKeys dropRows keys) := by
  have hremove : ∀ held' sizes, Nested evicts held' (removeEach sizes : ServiceM Command ℕ) := by
    intro held' sizes
    induction sizes with
    | nil => exact Nested.pure _
    | cons size rest ih =>
      exact Nested.bind (Nested.ask rfl) fun _ => Nested.bind (Nested.ofExcept _) fun _ =>
        Nested.bind ih fun _ => Nested.pure _
  have hone : ∀ key, Nested evicts held (purgeKey dropRows key) := fun key =>
    Nested.withKeyLock (hmay key) (Nested.bind (Nested.bind (Nested.store _) fun _ => Nested.pure _)
      fun sizes => Nested.bind (hdrop _ key) fun _ => Nested.bind (hremove _ sizes) fun _ => Nested.pure _)
  have heach : Nested evicts held (purgeEach dropRows keys) := by
    induction keys with
    | nil => exact Nested.pure _
    | cons key rest ih =>
      exact Nested.bind (hone key) fun _ => Nested.bind ih fun _ => Nested.pure _
  exact Nested.ite (fun _ => Nested.pure _) fun _ => Nested.bind heach fun _ => Nested.pure _

/-- A soft purge. -/
theorem nested_softPurgeKeys (hmay : ∀ key, MayNest evicts key held) (keys : List ExecutionKey) :
    Nested evicts held (softPurgeKeys keys : ServiceM Command PurgeReport) :=
  nested_purgeKeys (fun _ _ => Nested.store _) hmay keys

/-- Both kinds of purge. -/
theorem nested_purge (hmay : ∀ key, MayNest evicts key held) (keys : List ExecutionKey) (hard : Bool) :
    Nested evicts held (purge keys hard : ServiceM Command PurgeReport) := by
  refine Nested.ite (fun _ => nested_purgeKeys (fun _ _ => ?_) hmay keys)
    fun _ => nested_softPurgeKeys hmay keys
  exact Nested.bind (Nested.store _) fun _ => Nested.ask rfl

/-- The access order takes no lock. -/
theorem nested_accessOrdering :
    Nested evicts held (accessOrdering : ServiceM Command (List (ExecutionKey × Timestamp))) :=
  Nested.bind (Nested.ask rfl) fun _ => Nested.pure _

/-- An eviction to a quota. -/
theorem nested_evictToQuota (hmay : ∀ key, MayNest evicts key held) (maxBytes : ℕ) :
    Nested evicts held (evictToQuota maxBytes : ServiceM Command PurgeReport) := by
  refine Nested.bind (Nested.store _) fun current => ?_
  refine Nested.ite (fun _ => Nested.pure _) fun _ => ?_
  refine Nested.bind (Nested.store _) fun entries => ?_
  exact Nested.bind nested_accessOrdering fun lastAccess => nested_softPurgeKeys hmay _

/-- An eviction by age. -/
theorem nested_evictStale (hmay : ∀ key, MayNest evicts key held) (maxAge : ℤ) :
    Nested evicts held (evictStale maxAge : ServiceM Command PurgeReport) := by
  refine Nested.ite (fun _ => Nested.pure _) fun _ => ?_
  refine Nested.bind (Nested.ask rfl) fun now => ?_
  refine Nested.bind (Nested.store _) fun entries => ?_
  exact Nested.bind nested_accessOrdering fun lastAccess => nested_softPurgeKeys hmay _

end Purges

section Executes
variable {Command : Type} {evicts : Prop} {held : List ExecutionKey}
  (service : CachedMlExecutionService Command) (fingerprint : Bytes → Digest)

/-- Storing a blob takes no lock. -/
theorem nested_storeBlob (executionId : ExecutionId) (artifact : Artifact) :
    Nested evicts held (storeBlob executionId artifact : ServiceM Command Artifact) := by
  refine Nested.attempt (Nested.ask rfl) fun r => ?_
  cases r with
  | error e =>
    exact Nested.ite (fun _ => Nested.bind (Nested.store _) fun _ => Nested.pure _) fun _ => Nested.raise e
  | ok _ =>
    refine Nested.attempt (Nested.store _) fun r => ?_
    cases r with
    | error e => exact Nested.ite (fun _ => Nested.pure _) fun _ => Nested.raise e
    | ok _ => exact Nested.pure _

/-- Nor does storing several. -/
theorem nested_storeBlobs (executionId : ExecutionId) (artifacts : List Artifact) :
    Nested evicts held (storeBlobs executionId artifacts : ServiceM Command Unit) := by
  induction artifacts with
  | nil => exact Nested.pure ()
  | cons artifact rest ih => exact Nested.bind (nested_storeBlob executionId artifact) fun _ => ih

/-- Nor does the document loop. -/
theorem nested_persistDocuments (executionId : ExecutionId) (artifacts : List Artifact) :
    Nested evicts held
      (persistDocuments executionId artifacts : ServiceM Command (List Artifact × Bool)) := by
  induction artifacts with
  | nil => exact Nested.pure _
  | cons artifact rest ih =>
    refine Nested.bind (Nested.store _) fun _ => ?_
    refine Nested.bind (nested_storeBlob executionId artifact) fun _ => ?_
    exact Nested.bind ih fun _ => Nested.pure _

/-- A back-fill takes the lock of its own key. -/
theorem nested_accumulateInput {key : ExecutionKey} (hmay : MayNest evicts key held) (command : Command)
    (current : MlExecution) :
    Nested evicts held (accumulateInput service fingerprint key command current) := by
  refine Nested.ite (fun _ => Nested.pure ()) fun _ => ?_
  refine Nested.withKeyLock hmay (Nested.bind (Nested.store _) fun found => ?_)
  cases found with
  | none => exact Nested.pure ()
  | some fresh =>
    refine Nested.ite (fun _ => Nested.pure ()) fun _ => ?_
    refine Nested.bind (Nested.ofExcept _) fun inputArtifacts => ?_
    exact Nested.ite (fun _ => Nested.pure ()) fun _ => Nested.bind (Nested.store _) fun _ =>
      Nested.withContentWriteLock (nested_storeBlobs _ _)

/-- Hydration takes no lock. -/
theorem nested_hydrate (execution : MlExecution) :
    Nested evicts held (hydrate execution : ServiceM Command MlExecution) := by
  have hall : ∀ artifacts, Nested evicts held
      (hydrateArtifacts artifacts : ServiceM Command (List Artifact)) := by
    intro artifacts
    induction artifacts with
    | nil => exact Nested.pure _
    | cons artifact rest ih =>
      refine Nested.bind (Nested.bind (Nested.ask rfl) fun content => ?_) fun _ =>
        Nested.bind ih fun _ => Nested.pure _
      cases content with
      | none => exact Nested.raise _
      | some content => exact Nested.pure _
  exact Nested.bind (hall execution.artifacts) fun _ => Nested.pure _

/-- Tagging takes no lock. -/
theorem nested_applyTags (key : ExecutionKey) (command : Command) :
    Nested evicts held (applyTags service key command) :=
  Nested.ite (fun _ => Nested.pure ()) fun _ => Nested.store _

/-- A hit takes the lock of its own key. -/
theorem nested_serveHit {key : ExecutionKey} (hmay : MayNest evicts key held) (command : Command)
    (current : MlExecution) : Nested evicts held (serveHit service fingerprint key command current) := by
  refine Nested.bind (nested_hydrate current) fun _ => ?_
  refine Nested.bind (Nested.ask rfl) fun _ => ?_
  refine Nested.bind (nested_applyTags service key command) fun _ => ?_
  exact Nested.bind (nested_accumulateInput service fingerprint hmay command current) fun _ => Nested.pure _

/-- So does a hit that may be healed away. -/
theorem nested_serveCurrentIfHealthy {key : ExecutionKey} (hmay : MayNest evicts key held)
    (command : Command) :
    Nested evicts held (serveCurrentIfHealthy service fingerprint key command) := by
  refine Nested.attempt (Nested.store _) fun found => ?_
  cases found with
  | error e =>
    cases e with
    | storeCorrupt message => exact Nested.pure none
    | _ => exact Nested.raise _
  | ok found =>
    cases found with
    | none => exact Nested.pure _
    | some current =>
      refine Nested.attempt (nested_serveHit service fingerprint hmay command current) fun r => ?_
      cases r with
      | ok served => exact Nested.pure _
      | error e =>
        have hblobs : ∀ artifacts, Nested evicts held
            (removeArtifactBlobs artifacts : ServiceM Command Unit) := by
          intro artifacts
          induction artifacts with
          | nil => exact Nested.pure ()
          | cons artifact rest ih => exact Nested.bind (Nested.ask rfl) fun _ => ih
        refine Nested.ite (fun _ => Nested.bind ?_ fun _ => Nested.pure _) fun _ => Nested.raise e
        exact Nested.bind (hblobs current.artifacts) fun _ => Nested.store _

/-- And an offline hit. -/
theorem nested_serveOffline {key : ExecutionKey} (hmay : MayNest evicts key held) (command : Command) :
    Nested evicts held (serveOffline service fingerprint key command) := by
  have hmiss : ∀ message, Nested evicts held (recordEvent service .miss key command >>= fun _ =>
      (raise (.cacheMiss message) : ServiceM Command MlExecution)) :=
    fun message => Nested.bind (Nested.ask rfl) fun _ => Nested.raise _
  refine Nested.attempt (Nested.bind (Nested.store _) fun found => ?_) fun r => ?_
  · cases found with
    | none => exact Nested.pure _
    | some current =>
      exact Nested.bind (nested_serveHit service fingerprint hmay command current) fun _ => Nested.pure _
  · cases r with
    | ok served =>
      cases served with
      | some served => exact Nested.pure _
      | none => exact hmiss _
    | error e => exact Nested.ite (fun _ => hmiss _) fun _ => Nested.raise e

/-- The end of a recording evicts where a quota is set. -/
theorem nested_concludeRecording {key : ExecutionKey}
    (hmay : service.maxSize.isSome=true → ∀ victim, MayNest evicts victim held) (command : Command)
    (executionId : ExecutionId) (allStored : Bool) :
    Nested evicts held (concludeRecording service key command executionId allStored) := by
  have hafter : Nested evicts held (afterRecord service) := by
    unfold afterRecord
    split
    · exact Nested.pure ()
    · next maxBytes hmax =>
      have hsome : service.maxSize.isSome=true := by rw [hmax]; rfl
      exact Nested.bind (nested_evictToQuota (hmay hsome) maxBytes) fun _ => Nested.pure ()
  refine Nested.ite (fun _ => ?_) fun _ => Nested.ask rfl
  refine Nested.bind (Nested.store _) fun _ => ?_
  refine Nested.bind (Nested.ask rfl) fun _ => ?_
  exact Nested.bind (nested_applyTags service key command) fun _ => hafter

/-- A fresh run asks for further keys where a quota is set. -/
theorem nested_runAndRecord
    (hmay : service.maxSize.isSome=true → ∀ victim, MayNest evicts victim held)
    (identity : CallIdentity) (command : Command) :
    Nested evicts held (runAndRecord service fingerprint identity command) := by
  have hgate : Nested evicts held (blobHealthGate service command) :=
    Nested.ite (fun _ => Nested.ask rfl) fun _ => Nested.pure true
  have hclient : ∀ inProgress, Nested evicts held (runRecordedClient command inProgress) := by
    intro inProgress
    refine Nested.attempt (Nested.ask rfl) fun r => ?_
    cases r with
    | ok result => exact Nested.pure result
    | error e =>
      refine Nested.ite (fun _ => Nested.bind (Nested.store _) fun _ => Nested.raise e) fun _ => ?_
      exact Nested.ite (fun _ => Nested.bind (Nested.store _) fun _ => Nested.raise e)
        fun _ => Nested.raise e
  refine Nested.bind hgate fun healthy => ?_
  refine Nested.ite (fun _ => ?_) fun _ => Nested.raise _
  refine Nested.bind (Nested.ask rfl) fun executionId => ?_
  refine Nested.bind (Nested.store _) fun _ => ?_
  refine Nested.bind (hclient _) fun result => ?_
  refine Nested.ite (fun _ => ?_) fun _ => ?_
  · refine Nested.bind (Nested.store _) fun _ => ?_
    refine Nested.bind (Nested.ofExcept _) fun outputs => ?_
    refine Nested.bind (Nested.ofExcept _) fun inputs => ?_
    refine Nested.bind (Nested.withContentWriteLock (nested_persistDocuments _ _)) fun resolved => ?_
    exact Nested.bind (nested_concludeRecording service hmay command _ _) fun _ => Nested.pure _
  · refine Nested.bind (Nested.store _) fun _ => ?_
    refine Nested.bind (Nested.ask rfl) fun _ => ?_
    exact Nested.bind (Nested.ofExcept _) fun _ => Nested.pure _

/-- A caller in the lock of one key may ask for others where it may evict. -/
theorem mayNest_victim (h : service.maxSize.isSome=true → evicts) (key : ExecutionKey)
    (hmax : service.maxSize.isSome=true) (victim : ExecutionKey) : MayNest evicts victim [key] :=
  Or.inr ⟨h hmax,key,fun _ hk => List.mem_singleton.mp hk⟩

/-- The locked part of a miss. -/
theorem nested_runFreshLocked (h : service.maxSize.isSome=true → evicts) (identity : CallIdentity)
    (command : Command) :
    Nested evicts [] (runFreshLocked service fingerprint identity command) := by
  have hrecord := nested_runAndRecord service fingerprint
    (mayNest_victim service h identity.generateKey) identity command
  refine Nested.withKeyLock (mayNest_nil _) (Nested.ite (fun _ => ?_) fun _ => hrecord)
  refine Nested.bind (nested_serveCurrentIfHealthy service fingerprint (mayNest_again _) command)
    fun served => ?_
  cases served with
  | some served => exact Nested.pure _
  | none => exact hrecord

/-- An execute asks for a second key only to evict. -/
theorem nested_execute (h : service.maxSize.isSome=true → evicts) (command : Command) :
    Nested evicts [] (execute service fingerprint command) := by
  have hunstored : ∀ identity, Nested evicts [] (runUnstored service fingerprint identity command) :=
    fun identity => Nested.bind (Nested.ask rfl) fun _ => Nested.bind (Nested.ask rfl) fun _ =>
      Nested.bind (Nested.ofExcept _) fun _ => Nested.bind (Nested.ask rfl) fun _ => Nested.pure _
  have hmetered : ∀ identity, Nested evicts [] (runMetered service fingerprint identity command) :=
    fun identity => Nested.bind (Nested.store _) fun _ => Nested.bind (Nested.ask rfl) fun _ =>
      Nested.bind (Nested.ask rfl) fun _ => Nested.bind (Nested.ofExcept _) fun _ =>
        Nested.bind (Nested.ask rfl) fun _ => Nested.pure _
  have hfresh := fun identity => nested_runFreshLocked service fingerprint h identity command
  refine Nested.bind (Nested.ofExcept _) fun identity => ?_
  refine Nested.ite (fun _ => ?_) fun _ => ?_
  · exact Nested.ite (fun _ => Nested.bind (Nested.ask rfl) fun _ => Nested.raise _)
      fun _ => hunstored identity
  · refine Nested.bind (Nested.ite (fun _ => Nested.ask rfl) fun _ => Nested.pure ()) fun _ => ?_
    unfold executeCacheable
    split
    · exact nested_serveOffline service fingerprint (mayNest_nil _) command
    · refine Nested.ite (fun _ => ?_) fun _ => hmetered identity
      refine Nested.bind (nested_serveCurrentIfHealthy service fingerprint (mayNest_nil _) command)
        fun served => ?_
      cases served with
      | some served => exact Nested.pure _
      | none => exact hfresh identity
    · exact Nested.ite (fun _ => hfresh identity) fun _ => hmetered identity

end Executes

section Sessions
variable {Command : Type} (fingerprint : Bytes → Digest)

/-- The operation may evict while it holds a key: its service has a quota. -/
def Operation.evicts : Operation Command → Bool
  | .execute service _ => service.maxSize.isSome
  | _ => false

/-- What a thread runs: one operation after another, whatever each one raises. -/
def session : List (Operation Command) → ServiceM Command Unit
  | [] => return ()
  | op::rest => do
    let _ ← attempt (program fingerprint op)
    session rest

/-- Every operation nests its locks so, and ends in none. -/
theorem nested_program {evicts : Prop} {op : Operation Command} (h : Operation.evicts op=true → evicts) :
    Nested evicts [] (program fingerprint op) := by
  have hdiscard : ∀ {α : Type} {p : ServiceM Command α}, Nested evicts [] p →
      Nested evicts [] (ServiceOperations.discard p) :=
    fun hp => Nested.bind hp fun _ => Nested.pure ()
  have hpurge : ∀ keys hard, Nested evicts [] (purge keys hard : ServiceM Command PurgeReport) :=
    fun keys hard => nested_purge mayNest_nil keys hard
  cases op with
  | execute service command => exact hdiscard (nested_execute service fingerprint h command)
  | purgeByKey key hard =>
    exact hdiscard (Nested.bind (Nested.store _) fun _ =>
      Nested.ite (fun _ => Nested.pure _) fun _ => hpurge _ hard)
  | purgeByTag tag hard => exact hdiscard (Nested.bind (Nested.store _) fun _ => hpurge _ hard)
  | purgeBySession sessionId hard =>
    exact hdiscard (Nested.bind (Nested.ask rfl) fun _ => hpurge _ hard)
  | purgeBySessionTag tag hard =>
    have hkeys : ∀ sessionIds keys, Nested evicts []
        (keysForSessions sessionIds keys : ServiceM Command (List ExecutionKey)) := by
      intro sessionIds
      induction sessionIds with
      | nil => exact fun keys => Nested.pure keys
      | cons sessionId rest ih => exact fun keys => Nested.bind (Nested.ask rfl) fun more => ih _
    exact hdiscard (Nested.bind (Nested.ask rfl) fun _ => Nested.bind (hkeys _ _) fun _ => hpurge _ hard)
  | purgeAll hard =>
    exact hdiscard (Nested.ite (fun _ => Nested.bind (Nested.store _) fun _ => hpurge _ hard)
      fun _ => Nested.bind (Nested.store _) fun _ => hpurge _ hard)
  | evictStale maxAge => exact hdiscard (nested_evictStale mayNest_nil maxAge)
  | evictToQuota maxBytes => exact hdiscard (nested_evictToQuota mayNest_nil maxBytes)
  | addTags key tags => exact Nested.store _
  | repair =>
    have hblobs : ∀ executionId blobKeys, Nested evicts []
        (reconcileBlobs executionId blobKeys : ServiceM Command (ℕ × ℕ)) := by
      intro executionId blobKeys
      induction blobKeys with
      | nil => exact Nested.pure _
      | cons blobKey rest ih =>
        refine Nested.bind (Nested.ask rfl) fun content => Nested.ite (fun _ => ?_) fun _ => ?_
        · exact Nested.bind (Nested.store _) fun _ => Nested.bind ih fun _ => Nested.pure _
        · exact Nested.bind (Nested.store _) fun _ => Nested.bind ih fun _ => Nested.pure _
    have hruns : ∀ runs report, Nested evicts []
        (repairRuns runs report : ServiceM Command RepairReport) := by
      intro runs
      induction runs with
      | nil => exact fun report => Nested.pure report
      | cons run rest ih =>
        intro report
        refine Nested.bind (Nested.bind (hblobs _ _) fun counts => ?_) fun report => ih report
        exact Nested.ite (fun _ => Nested.bind (Nested.store _) fun _ => Nested.pure _)
          fun _ => Nested.pure _
    exact hdiscard (Nested.bind (Nested.store _) fun runs => hruns runs _)

/-- So does a session of operations. -/
theorem nested_session {evicts : Prop} {ops : List (Operation Command)}
    (h : ∀ op∈ops,Operation.evicts op=true → evicts) : Nested evicts [] (session fingerprint ops) := by
  induction ops with
  | nil => exact Nested.pure ()
  | cons op rest ih =>
    refine Nested.attempt (nested_program fingerprint (h op List.mem_cons_self)) fun _ => ?_
    exact ih fun op hop => h op (List.mem_cons_of_mem _ hop)

end Sessions

end GenericMlCache.NestedLocks
