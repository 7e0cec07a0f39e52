import GenericMlCache.CachedExecution

/-!
# The calls of an execute

Most calls of an execute neither begin nor end anything a caller is told about:
they read, put, mark, tag, lock and evict. The parts of the flow that make only
such plain calls are listed here, so that an account of a run has to follow the
other calls alone.
-/

namespace GenericMlCache.ExecuteCalls

open CallProgram PythonText ExecutionModel ExecutionQueries RepositoryCalls ServicePorts StorePurge
  CachedExecution

/-- A call that inserts, resolves and removes no execution, writes no event, and
is neither the client's nor the mint's. -/
def isPlain {Command : Type} : Call Command → Bool
  | .store (.save _) | .store (.recordOutcome _) | .store (.finalizeOutputPersisted _)
  | .store (.removeExecution _) | .store (.hardDeleteExecution _) => false
  | .recordEvent _ | .deleteEventsForKey _ | .runClient _ | .newExecutionId => false
  | _ => true

/-- A plain call that adds no tag. -/
def isUntagged {Command : Type} : Call Command → Bool
  | .store (.addTags _ _) => false
  | call => isPlain call

/-- A plain call, or the removal of an execution. -/
def isRemoval {Command : Type} : Call Command → Bool
  | .store (.removeExecution _) => true
  | call => isPlain call

/-- A put and a stored mark: the document loops catch what they raise. -/
def isGuarded {Command : Type} : Call Command → Bool
  | .blobPut _ _ | .store (.markArtifactsStored _ _) => true
  | _ => false

/-- A plain call, or the removal of an execution, whose error nothing catches. -/
def isDirect {Command : Type} (call : Call Command) : Bool := isRemoval call && !isGuarded call

/-- A call made while a cached entry is served or healed: a plain call, a removal
or a journal event. -/
def isServing {Command : Type} : Call Command → Bool
  | .recordEvent _ => true
  | call => isRemoval call

/-- The client's call. -/
def isClient {Command : Type} : Call Command → Bool
  | .runClient _ => true
  | _ => false

/-- The query whose answer lists sizes for an eviction. -/
def isSizing {Command : Type} : Call Command → Bool
  | .store (.findAll _) => true
  | _ => false

/-- The program makes plain calls only. -/
abbrev UsesPlain {Command α : Type} (p : ServiceM Command α) : Prop :=
  Uses (fun call => isPlain call=true) p

/-- The program makes plain calls only, and adds no tag. -/
abbrev UsesUntagged {Command α : Type} (p : ServiceM Command α) : Prop :=
  Uses (fun call => isUntagged call=true) p

/-- A plain call that adds no tag, and whose error nothing catches. -/
abbrev isSilent {Command : Type} (call : Call Command) : Prop := isUntagged call=true ∧ isGuarded call=false

/-- The program makes silent calls, and raises nothing of its own. -/
abbrev Silent {Command α : Type} (p : ServiceM Command α) : Prop :=
  Straight isSilent (fun call => isRelease call=true) (fun _ => False) p

/-- The program makes silent calls, and raises nothing of its own but what adding a text to a size raises. -/
abbrev Adding {Command α : Type} (p : ServiceM Command α) : Prop :=
  Straight isSilent (fun call => isRelease call=true) (fun e => e=sizeError) p

/-- The program makes calls of `P` whose errors nothing catches, and raises
nothing of its own. -/
abbrev Direct {Command α : Type} (p : ServiceM Command α) : Prop :=
  Straight (fun call => isPlain call=true ∧ isGuarded call=false) (fun call => isRelease call=true)
    (fun _ => False) p

section Direct
variable {Command α : Type}

/-- Every plain call is a plain call or a removal. -/
theorem isRemoval_of_isPlain {call : Call Command} (h : isPlain call=true) : isRemoval call=true := by
  cases call with
  | store call => cases call <;> first | exact h | rfl
  | _ => exact h

/-- A plain call whose error nothing catches is direct. -/
theorem isDirect_of_plain {call : Call Command} (h : isPlain call=true ∧ isGuarded call=false) :
    isDirect call=true := by
  unfold isDirect
  rw [isRemoval_of_isPlain h.1,h.2]
  rfl

/-- A plain call that adds no tag is a plain call. -/
theorem isPlain_of_isUntagged {call : Call Command} (h : isUntagged call=true) : isPlain call=true := by
  cases call with
  | store call =>
    cases call with
    | addTags key tags => rfl
    | _ => exact h
  | _ => exact h

/-- Leaving a lock is a silent call. -/
theorem silent_of_isRelease {call : Call Command} (h : isRelease call=true) : isSilent call := by
  cases call with
  | releaseKey key => exact ⟨rfl,rfl⟩
  | releaseShared => exact ⟨rfl,rfl⟩
  | _ => exact nomatch h

/-- Leaving a lock is a plain call. -/
theorem plain_of_isRelease {call : Call Command} (h : isRelease call=true) :
    isPlain call=true ∧ isGuarded call=false :=
  ⟨isPlain_of_isUntagged (silent_of_isRelease h).1,(silent_of_isRelease h).2⟩

/-- A program of silent calls makes plain calls that add no tag. -/
theorem untagged_of_straight {L : PyExc → Prop} {p : ServiceM Command α}
    (h : Straight isSilent (fun call => isRelease call=true) L p) : UsesUntagged p :=
  (Straight.uses h fun _ hr => silent_of_isRelease hr).mono fun _ hc => hc.1

/-- A silent program is direct. -/
theorem Silent.direct {p : ServiceM Command α} (h : Silent p) : Direct p :=
  h.mono (fun _ hc => ⟨isPlain_of_isUntagged hc.1,hc.2⟩) fun _ he => he

/-- A direct program makes plain calls. -/
theorem Direct.plain {p : ServiceM Command α} (h : Direct p) : UsesPlain p :=
  (Straight.uses h fun _ hr => plain_of_isRelease hr).mono fun _ hc => hc.1

/-- Removing the blobs of a purged key raises nothing of its own where their sizes can be added up. -/
theorem silent_removeEach {sizes : List (BlobKey × Size)} (h : addable sizes=true) :
    Silent (removeEach sizes : ServiceM Command ℕ) := by
  induction sizes with
  | nil => exact Straight.pure _
  | cons entry rest ih =>
    obtain ⟨hsize,hrest⟩ := addable_cons.mp h
    refine Straight.bind (Straight.perform ⟨rfl,rfl⟩) fun _ => Straight.bind (Straight.ofExcept fun e he => ?_) fun _ =>
      Straight.bind (ih hrest) fun _ => Straight.pure _
    rw [he] at hsize
    cases hsize

/-- Otherwise it may raise what adding a text raises. -/
theorem adding_removeEach (sizes : List (BlobKey × Size)) : Adding (removeEach sizes : ServiceM Command ℕ) := by
  induction sizes with
  | nil => exact Straight.pure _
  | cons entry rest ih =>
    refine Straight.bind (Straight.perform ⟨rfl,rfl⟩) fun _ => Straight.bind (Straight.ofExcept fun e he => ?_) fun _ =>
      Straight.bind ih fun _ => Straight.pure _
    exact error_of_addedSize he

/-- One key of a soft purge. -/
theorem adding_purgeKey (key : ExecutionKey) : Adding (purgeKey softDrop key : ServiceM Command (ℕ × ℕ)) := by
  have hsizes : Adding (blobSizesFor key : ServiceM Command (List (BlobKey × Size))) :=
    Straight.bind (Straight.perform ⟨rfl,rfl⟩) fun _ => Straight.pure _
  refine Straight.bind (Straight.perform ⟨rfl,rfl⟩) fun _ =>
    Straight.ensure (Straight.perform rfl) (fun _ hr => silent_of_isRelease hr) ?_
  exact Straight.bind hsizes fun sizes => Straight.bind (Straight.perform ⟨rfl,rfl⟩) fun _ =>
    Straight.bind (adding_removeEach sizes) fun _ => Straight.pure _

section Evictions
variable {S : (β : Type) → ServiceM Command β → Prop}
variable (hpure : ∀ (β : Type) (a : β),S β (pure a))
variable (hbind : ∀ (β γ : Type) (p : ServiceM Command β) (f : β → ServiceM Command γ),
  S β p → (∀ a,S γ (f a)) → S γ (p >>= f))
variable (hkey : ∀ key,S (ℕ × ℕ) (purgeKey softDrop key))

include hpure hbind hkey

/-- What sequences keep and one key of a soft purge has, a soft purge has. -/
theorem softPurgeKeys_of (keys : List ExecutionKey) : S PurgeReport (softPurgeKeys keys) := by
  have heach : S (ℕ × ℕ) (purgeEach softDrop keys) := by
    induction keys with
    | nil => exact hpure _ _
    | cons key rest ih =>
      exact hbind _ _ _ _ (hkey key) fun _ => hbind _ _ _ _ ih fun _ => hpure _ _
  unfold softPurgeKeys purgeKeys
  split
  · exact hpure _ _
  · exact hbind _ _ _ _ heach fun _ => hpure _ _

/-- If the calls that measure a store have it too, so does the eviction after a recording. -/
theorem afterRecord_of (hask : ∀ call : Call Command,isSilent call → isSizing call=false → S call.Ret (ask call))
    (service : CachedMlExecutionService Command) : S Unit (afterRecord service) := by
  have hevict : ∀ maxBytes,S PurgeReport (evictToQuota maxBytes) := by
    intro maxBytes
    refine hbind _ _ _ _ (hask (.store .totalStoredBytes) ⟨rfl,rfl⟩ rfl) fun current => ?_
    split
    · exact hpure _ _
    refine hbind _ _ _ _ (hask (.store .currentExecutionsWithSizes) ⟨rfl,rfl⟩ rfl) fun entries => ?_
    refine hbind _ _ _ _ (hbind _ _ _ _ (hask .lastAccess ⟨rfl,rfl⟩ rfl) fun _ => hpure _ _) fun lastAccess => ?_
    exact softPurgeKeys_of hpure hbind hkey _
  unfold afterRecord
  split
  · exact hpure _ _
  · exact hbind _ _ _ _ (hevict _) fun _ => hpure _ _

end Evictions

/-- A soft purge of some keys. -/
theorem adding_softPurgeKeys (keys : List ExecutionKey) :
    Adding (softPurgeKeys keys : ServiceM Command PurgeReport) :=
  softPurgeKeys_of (S := fun _ p => Adding p) (fun _ _ => Straight.pure _)
    (fun _ _ _ _ hp hf => Straight.bind hp hf) adding_purgeKey keys

variable (service : CachedMlExecutionService Command)

/-- Tagging makes at most one call. -/
theorem direct_applyTags (key : ExecutionKey) (command : Command) :
    Direct (applyTags service key command) :=
  Straight.ite (fun _ => Straight.pure ()) fun _ => Straight.perform ⟨rfl,rfl⟩

/-- The quota eviction. -/
theorem adding_afterRecord : Adding (afterRecord service) :=
  afterRecord_of (S := fun _ p => Adding p) (fun _ _ => Straight.pure _)
    (fun _ _ _ _ hp hf => Straight.bind hp hf) adding_purgeKey (fun _ h _ => Straight.perform h) service

/-- The token gate asks at most once. -/
theorem silent_tokenGate (command : Command) : Silent (tokenGate service command) :=
  Straight.ite (fun _ => Straight.perform ⟨rfl,rfl⟩) fun _ => Straight.pure ()

/-- The health gate asks at most once. -/
theorem silent_blobHealthGate (command : Command) : Silent (blobHealthGate service command) :=
  Straight.ite (fun _ => Straight.perform ⟨rfl,rfl⟩) fun _ => Straight.pure true

/-- Hydration reads blobs and reports the first one missing. -/
theorem straight_hydrateArtifacts (artifacts : List Artifact) :
    Straight isSilent (fun call => isRelease call=true) (fun e => ∃ message,e=.artifactBlobMissing message)
      (hydrateArtifacts artifacts : ServiceM Command (List Artifact)) := by
  induction artifacts with
  | nil => exact Straight.pure _
  | cons artifact rest ih =>
    refine Straight.bind (Straight.bind (Straight.perform ⟨rfl,rfl⟩) fun content => ?_) fun _ =>
      Straight.bind ih fun _ => Straight.pure _
    cases content with
    | none => exact Straight.raise ⟨_,rfl⟩
    | some content => exact Straight.pure _

/-- A hydrated execution reads blobs and reports the first one missing. -/
theorem silent_hydrate (execution : MlExecution) :
    Straight isSilent (fun call => isRelease call=true) (fun e => ∃ message,e=.artifactBlobMissing message)
      (hydrate execution : ServiceM Command MlExecution) :=
  Straight.bind (straight_hydrateArtifacts execution.artifacts) fun _ => Straight.pure _

/-- Hydration makes plain calls. -/
theorem straight_hydrate (execution : MlExecution) :
    Straight (fun call => isPlain call=true ∧ isGuarded call=false) (fun call => isRelease call=true)
      (fun e => ∃ message,e=.artifactBlobMissing message)
      (hydrate execution : ServiceM Command MlExecution) :=
  (silent_hydrate execution).mono (fun _ hc => ⟨isPlain_of_isUntagged hc.1,hc.2⟩) fun _ he => he

/-- The quota eviction makes plain calls. -/
theorem plain_afterRecord : UsesPlain (afterRecord service) :=
  (untagged_of_straight (adding_afterRecord service)).mono fun _ hc => isPlain_of_isUntagged hc

/-- The token gate is direct. -/
theorem direct_tokenGate (command : Command) : Direct (tokenGate service command) :=
  (silent_tokenGate service command).direct

/-- So is the health gate. -/
theorem direct_blobHealthGate (command : Command) : Direct (blobHealthGate service command) :=
  (silent_blobHealthGate service command).direct

/-- Removing the blobs of an execution. -/
theorem silent_removeArtifactBlobs (artifacts : List Artifact) :
    Silent (removeArtifactBlobs artifacts : ServiceM Command Unit) := by
  induction artifacts with
  | nil => exact Straight.pure ()
  | cons artifact rest ih => exact Straight.bind (Straight.perform ⟨rfl,rfl⟩) fun _ => ih

/-- A heal removes blobs, then the execution. -/
theorem straight_removeExecutionAndBlobs (execution : MlExecution) :
    Straight (fun call => isDirect call=true) (fun call => isRelease call=true) (fun _ => False)
      (removeExecutionAndBlobs execution : ServiceM Command Unit) := by
  have hblobs : Straight (fun call => isDirect call=true) (fun call => isRelease call=true)
      (fun _ => False) (removeArtifactBlobs execution.artifacts : ServiceM Command Unit) :=
    (silent_removeArtifactBlobs execution.artifacts).mono
      (fun _ hc => isDirect_of_plain ⟨isPlain_of_isUntagged hc.1,hc.2⟩) fun _ he => he
  exact Straight.bind hblobs fun _ => Straight.perform rfl

end Direct

section Plain
variable {Command α : Type}

/-- One plain call without a tag. -/
theorem untagged_ask {call : Call Command} (h : isUntagged call=true) : UsesUntagged (ask call) :=
  Uses.perform h

/-- One such call of the repository. -/
theorem untagged_store {call : StoreCall} (h : isUntagged (.store call : Call Command)=true) :
    UsesUntagged (store call : ServiceM Command call.Ret) := Uses.perform h

/-- A key lock adds plain calls. -/
theorem untagged_withKeyLock (key : ExecutionKey) {body : ServiceM Command α} (h : UsesUntagged body) :
    UsesUntagged (withKeyLock key body) :=
  Uses.bind (untagged_ask rfl) fun _ => Uses.ensure h (untagged_ask rfl)

/-- The shared store lock adds plain calls. -/
theorem untagged_withContentWriteLock {body : ServiceM Command α} (h : UsesUntagged body) :
    UsesUntagged (withContentWriteLock body) :=
  Uses.bind (untagged_ask rfl) fun _ => Uses.ensure h (untagged_ask rfl)

/-- Storing one blob puts and marks. -/
theorem untagged_storeBlob (executionId : ExecutionId) (artifact : Artifact) :
    UsesUntagged (storeBlob executionId artifact : ServiceM Command Artifact) := by
  refine Uses.bind (Uses.attempt (untagged_ask rfl)) fun r => ?_
  cases r with
  | error e =>
    exact Uses.ite (fun _ => Uses.bind (untagged_store rfl) fun _ => Uses.pure _) fun _ => Uses.raise e
  | ok _ =>
    refine Uses.bind (Uses.attempt (untagged_store rfl)) fun r => ?_
    cases r with
    | error e => exact Uses.ite (fun _ => Uses.pure _) fun _ => Uses.raise e
    | ok _ => exact Uses.pure _

/-- So does storing the blobs of attached documents. -/
theorem untagged_storeBlobs (executionId : ExecutionId) (artifacts : List Artifact) :
    UsesUntagged (storeBlobs executionId artifacts : ServiceM Command Unit) := by
  induction artifacts with
  | nil => exact Uses.pure ()
  | cons artifact rest ih => exact Uses.bind (untagged_storeBlob executionId artifact) fun _ => ih

/-- The document loop inserts rows, puts and marks. -/
theorem untagged_persistDocuments (executionId : ExecutionId) (artifacts : List Artifact) :
    UsesUntagged (persistDocuments executionId artifacts : ServiceM Command (List Artifact × Bool)) := by
  induction artifacts with
  | nil => exact Uses.pure _
  | cons artifact rest ih =>
    refine Uses.bind (untagged_store rfl) fun _ => ?_
    refine Uses.bind (untagged_storeBlob executionId artifact) fun _ => ?_
    exact Uses.bind ih fun _ => Uses.pure _

variable (service : CachedMlExecutionService Command) (fingerprint : Bytes → Digest)

/-- A back-fill reads the current execution, attaches rows, puts and marks. -/
theorem untagged_accumulateInput (key : ExecutionKey) (command : Command) (current : MlExecution) :
    UsesUntagged (accumulateInput service fingerprint key command current) := by
  refine Uses.ite (fun _ => Uses.pure ()) fun _ => ?_
  refine untagged_withKeyLock key (Uses.bind (untagged_store rfl) fun found => ?_)
  cases found with
  | none => exact Uses.pure ()
  | some fresh =>
    refine Uses.ite (fun _ => Uses.pure ()) fun _ => ?_
    refine Uses.bind (Uses.ofExcept _) fun inputArtifacts => ?_
    exact Uses.ite (fun _ => Uses.pure ()) fun _ => Uses.bind (untagged_store rfl) fun _ =>
      untagged_withContentWriteLock (untagged_storeBlobs _ _)

/-- A program that adds no tag is plain. -/
theorem plain_of_untagged {p : ServiceM Command α} (h : UsesUntagged p) : UsesPlain p :=
  h.mono fun _ hc => isPlain_of_isUntagged hc

/-- The shared store lock adds plain calls. -/
theorem plain_withContentWriteLock {body : ServiceM Command α} (h : UsesPlain body) :
    UsesPlain (withContentWriteLock body) :=
  Uses.bind (Uses.perform rfl) fun _ => Uses.ensure h (Uses.perform rfl)

/-- The document loop makes plain calls. -/
theorem plain_persistDocuments (executionId : ExecutionId) (artifacts : List Artifact) :
    UsesPlain (persistDocuments executionId artifacts : ServiceM Command (List Artifact × Bool)) :=
  plain_of_untagged (untagged_persistDocuments executionId artifacts)

/-- A back-fill makes plain calls. -/
theorem plain_accumulateInput (key : ExecutionKey) (command : Command) (current : MlExecution) :
    UsesPlain (accumulateInput service fingerprint key command current) :=
  plain_of_untagged (untagged_accumulateInput service fingerprint key command current)

/-- Every removal is a serving call. -/
theorem isServing_of_isRemoval {call : Call Command} (h : isRemoval call=true) : isServing call=true := by
  cases call with
  | recordEvent entry => rfl
  | _ => exact h

/-- No serving call is the client's. -/
theorem isClient_of_isServing {call : Call Command} (h : isServing call=true) : isClient call=false := by
  cases call with
  | runClient command => exact nomatch h
  | _ => rfl

section Serving
variable {P : Call Command → Prop} (hremoval : ∀ call,isRemoval call=true → P call)
include hremoval

/-- Serving a hit makes plain calls and writes its HIT. -/
theorem uses_serveHit (hhit : ∀ entry : JournalEntry,entry.event=.hit → P (.recordEvent entry))
    (key : ExecutionKey) (command : Command) (current : MlExecution) :
    Uses P (serveHit service fingerprint key command current) := by
  have hplain : ∀ {β : Type} {p : ServiceM Command β},UsesPlain p → Uses P p :=
    fun h => h.mono fun call hc => hremoval call (isRemoval_of_isPlain hc)
  have hhydrate : UsesPlain (hydrate current : ServiceM Command MlExecution) :=
    (Straight.uses (straight_hydrate current) fun _ hr => plain_of_isRelease hr).mono fun _ hc => hc.1
  refine Uses.bind (hplain hhydrate) fun _ => ?_
  refine Uses.bind (Uses.perform (hhit _ rfl)) fun _ => ?_
  refine Uses.bind (hplain (direct_applyTags service key command).plain) fun _ => ?_
  exact Uses.bind (hplain (plain_accumulateInput service fingerprint key command current)) fun _ => Uses.pure _

/-- Serving the current execution, or healing it, makes plain calls and removals
and writes at most a HIT. -/
theorem uses_serveCurrentIfHealthy (hhit : ∀ entry : JournalEntry,entry.event=.hit → P (.recordEvent entry))
    (key : ExecutionKey) (command : Command) :
    Uses P (serveCurrentIfHealthy service fingerprint key command) := by
  refine Uses.bind (Uses.attempt (Uses.perform (hremoval _ rfl))) fun found => ?_
  cases found with
  | error e =>
    cases e with
    | storeCorrupt message => exact Uses.pure none
    | _ => exact Uses.raise _
  | ok found =>
    cases found with
    | none => exact Uses.pure _
    | some current =>
      refine Uses.bind (Uses.attempt
        (uses_serveHit service fingerprint hremoval hhit key command current)) fun r => ?_
      cases r with
      | ok served => exact Uses.pure _
      | error e =>
        refine Uses.ite (fun _ => Uses.bind ?_ fun _ => Uses.pure _) fun _ => Uses.raise e
        have hheal : Uses (fun call => isDirect call=true)
            (removeExecutionAndBlobs current : ServiceM Command Unit) :=
          Straight.uses (straight_removeExecutionAndBlobs current)
            fun _ hr => isDirect_of_plain (plain_of_isRelease hr)
        refine hheal.mono fun call hc => hremoval call ?_
        simp only [isDirect,Bool.and_eq_true] at hc
        exact hc.1

/-- Serving offline makes plain calls and writes a HIT or a MISS. -/
theorem uses_serveOffline
    (hevent : ∀ entry : JournalEntry,entry.event=.hit ∨ entry.event=.miss → P (.recordEvent entry))
    (key : ExecutionKey) (command : Command) :
    Uses P (serveOffline service fingerprint key command) := by
  have hmiss : ∀ message,Uses P (recordEvent service .miss key command >>= fun _ =>
      (raise (.cacheMiss message) : ServiceM Command MlExecution)) :=
    fun message => Uses.bind (Uses.perform (hevent _ (Or.inr rfl))) fun _ => Uses.raise _
  refine Uses.bind (Uses.attempt (Uses.bind (Uses.perform (hremoval _ rfl)) fun found => ?_)) fun r => ?_
  · cases found with
    | none => exact Uses.pure _
    | some current =>
      exact Uses.bind (uses_serveHit service fingerprint hremoval (fun _ he => hevent _ (Or.inl he)) key
        command current) fun _ => Uses.pure _
  · cases r with
    | ok served =>
      cases served with
      | some served => exact Uses.pure _
      | none => exact hmiss _
    | error e => exact Uses.ite (fun _ => hmiss _) fun _ => Uses.raise e

end Serving

/-- Serving the current execution, or healing it, makes serving calls. -/
theorem serving_serveCurrentIfHealthy (key : ExecutionKey) (command : Command) :
    Uses (fun call => isServing call=true) (serveCurrentIfHealthy service fingerprint key command) :=
  uses_serveCurrentIfHealthy service fingerprint (fun _ hc => isServing_of_isRemoval hc) (fun _ _ => rfl)
    key command

/-- Serving offline makes serving calls. -/
theorem serving_serveOffline (key : ExecutionKey) (command : Command) :
    Uses (fun call => isServing call=true) (serveOffline service fingerprint key command) :=
  uses_serveOffline service fingerprint (fun _ hc => isServing_of_isRemoval hc) (fun _ _ => rfl) key command

end Plain

end GenericMlCache.ExecuteCalls
