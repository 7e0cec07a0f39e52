import GenericMlCache.ExecuteCalls
import GenericMlCache.ServiceConformance

/-!
# What an execute returns

The execution that an execute returns is the current one it loaded, with what
it read of its blobs, or that of the run whose id it generated, with what it
persisted for it. A watch gathers what was loaded, read, persisted and
finalized, whatever the calls answer.
-/

namespace GenericMlCache.ReturnedRuns

open CallProgram CallAutomaton PythonText ExecutionModel RepositoryCalls ServicePorts StorePurge
  CachedExecution ServiceAutomaton ExecuteCalls

/-- What a caller gathered from the answers to its calls. -/
structure Gathered where
  /-- The ids that were generated for it. -/
  minted : List ExecutionId := []
  /-- The current executions it loaded. -/
  loaded : List MlExecution := []
  /-- The blobs it read. -/
  got : List (BlobKey × Bytes) := []
  /-- A blob it asked for was missing. -/
  missed : Bool := false
  /-- The documents it persisted, in order, each with the execution's id. -/
  written : List (ExecutionId × Artifact) := []
  /-- The ids it finalized. -/
  finalized : List ExecutionId := []

/-- What one answer tells a caller. -/
inductive Gain where
  | minted (id : ExecutionId)
  | loaded (execution : MlExecution)
  | got (key : BlobKey) (content : Bytes)
  | missed
  | written (id : ExecutionId) (document : Artifact)
  | finalized (id : ExecutionId)

/-- What the answer to a call tells. -/
def gainOf {Command : Type} : (call : Call Command) → Except PyExc call.Ret → Option Gain
  | .newExecutionId,.ok id => some (.minted id)
  | .store (.findCurrent _),.ok (some loaded) => some (.loaded loaded)
  | .blobGet key,.ok (some content) => some (.got key content)
  | .blobGet _,.ok none => some .missed
  | .store (.persistArtifact id artifact),.ok _ => some (.written id artifact)
  | .store (.finalizeOutputPersisted id),.ok _ => some (.finalized id)
  | _,_ => none

/-- Gather one thing more. -/
def Gathered.add (g : Gathered) : Gain → Gathered
  | .minted id => { g with minted := id::g.minted }
  | .loaded loaded => { g with loaded := loaded::g.loaded }
  | .got key content => { g with got := (key,content)::g.got }
  | .missed => { g with missed := true }
  | .written id document => { g with written := g.written ++ [(id,document)] }
  | .finalized id => { g with finalized := id::g.finalized }

/-- Gather what calls answer. -/
def watchGathered {Command : Type} (call : Call Command) (r : Except PyExc call.Ret) (g : Gathered) : Gathered :=
  match gainOf call r with
  | none => g
  | some gain => g.add gain

/-- The output documents of an execution among persisted ones. -/
def documentsOf (written : List (ExecutionId × Artifact)) (id : ExecutionId) : List Artifact :=
  (written.filter fun entry => decide (entry.1=id) && !entry.2.artifactType.isInput).map (·.2)

/-- The output documents that were persisted for an execution. -/
def Gathered.documents (g : Gathered) (id : ExecutionId) : List Artifact := documentsOf g.written id

/-- The output of an execution. -/
def outputs (execution : MlExecution) : List Artifact :=
  execution.artifacts.filter fun a => !a.artifactType.isInput

/-- A persisted document as a run returns it: only its status may differ. -/
def SameButStatus (document a : Artifact) : Prop :=
  a.artifactType=document.artifactType ∧ a.name=document.name ∧ a.blobKey=document.blobKey ∧
    a.content=document.content

/-- An artifact with the content that was read of its blob. -/
def ReadFrom (got : List (BlobKey × Bytes)) (a b : Artifact) : Prop :=
  ∃ content,(a.blobKey,content)∈got ∧ b={ a with content := some content }

/-- What a returned execution is made of. -/
inductive Returned (g : Gathered) (execution : MlExecution) : Prop where
  /-- A loaded execution, with what was read of its blobs. -/
  | hit {loaded : MlExecution} (hmem : loaded∈g.loaded) (hid : execution.executionId=loaded.executionId)
      (hartifacts : List.Forall₂ (ReadFrom g.got) loaded.artifacts execution.artifacts)
  /-- A run, with the documents that were persisted for it. -/
  | run (hminted : execution.executionId∈g.minted)
      (hdocuments : List.Forall₂ SameButStatus (g.documents execution.executionId) (outputs execution))
  /-- A run that was not finalized. -/
  | bare (hminted : execution.executionId∈g.minted) (hfinalized : execution.executionId∉g.finalized)

/-- The calls that persist no document and finalize nothing. -/
def isReading {Command : Type} : Call Command → Bool
  | .store (.persistArtifact _ _) | .store (.finalizeOutputPersisted _) => false
  | _ => true

/-- More was gathered, but nothing was persisted or finalized. -/
structure Extends (g g' : Gathered) : Prop where
  /-- No minted id is lost. -/
  minted : g.minted ⊆ g'.minted
  /-- No loaded execution is lost. -/
  loaded : g.loaded ⊆ g'.loaded
  /-- No blob that was read is lost. -/
  got : g.got ⊆ g'.got
  /-- Nothing more was persisted. -/
  written : g'.written=g.written
  /-- Nothing more was finalized. -/
  finalized : g'.finalized=g.finalized

section Gathering
variable {Command α β : Type} {g g' g'' : Gathered}

/-- Nothing more was gathered. -/
theorem Extends.refl (g : Gathered) : Extends g g := ⟨fun _ h => h,fun _ h => h,fun _ h => h,rfl,rfl⟩

/-- More and more was gathered. -/
theorem Extends.trans (h : Extends g g') (h' : Extends g' g'') : Extends g g'' where
  minted := fun _ hmem => h'.minted (h.minted hmem)
  loaded := fun _ hmem => h'.loaded (h.loaded hmem)
  got := fun _ hmem => h'.got (h.got hmem)
  written := h'.written.trans h.written
  finalized := h'.finalized.trans h.finalized

/-- A reading call persists and finalizes nothing. -/
theorem extends_watch {call : Call Command} (h : isReading call=true) (r : Except PyExc call.Ret) (g : Gathered) :
    Extends g (watchGathered call r g) := by
  have hself : watchGathered call r g=g → Extends g (watchGathered call r g) := by
    intro heq
    rw [heq]
    exact .refl g
  cases call with
  | newExecutionId =>
    cases r with
    | error e => exact hself rfl
    | ok id => exact ⟨List.subset_cons_self _ _,fun _ h => h,fun _ h => h,rfl,rfl⟩
  | blobGet key =>
    cases r with
    | error e => exact hself rfl
    | ok found =>
      cases found with
      | none => exact ⟨fun _ h => h,fun _ h => h,fun _ h => h,rfl,rfl⟩
      | some content => exact ⟨fun _ h => h,fun _ h => h,List.subset_cons_self _ _,rfl,rfl⟩
  | store storeCall =>
    cases storeCall with
    | findCurrent key =>
      cases r with
      | error e => exact hself rfl
      | ok found =>
        cases found with
        | none => exact hself rfl
        | some loaded => exact ⟨fun _ h => h,List.subset_cons_self _ _,fun _ h => h,rfl,rfl⟩
    | persistArtifact | finalizeOutputPersisted => exact nomatch h
    | _ => exact hself (by cases r <;> rfl)
  | _ => exact hself (by cases r <;> rfl)

/-- A program of reading calls persists and finalizes nothing. -/
theorem follows_extends {p : ServiceM Command α} (h : Uses (fun call => isReading call=true) p) (g : Gathered) :
    Follows (monitored watchGathered) (fun _ g' => Extends g g') p g :=
  Follows.of_uses h (fun _ r g' hcall hg => hg.trans (extends_watch hcall r g')) (.refl g)

/-- What was returned stays so while nothing is persisted or finalized. -/
theorem Returned.mono {execution : MlExecution} (h : Returned g execution) (hg : Extends g g') :
    Returned g' execution := by
  cases h with
  | hit hmem hid hartifacts =>
    refine .hit (hg.loaded hmem) hid (hartifacts.imp fun a b hread => ?_)
    obtain ⟨content,hgot,hb⟩ := hread
    exact ⟨content,hg.got hgot,hb⟩
  | run hminted hdocuments =>
    refine .run (hg.minted hminted) ?_
    unfold Gathered.documents at hdocuments ⊢
    rw [hg.written]
    exact hdocuments
  | bare hminted hfinalized => exact .bare (hg.minted hminted) (by rw [hg.finalized]; exact hfinalized)

end Gathering

section Reading
variable {Command α : Type}

/-- The program persists no document and finalizes nothing. -/
abbrev Reads (p : ServiceM Command α) : Prop := Uses (fun call => isReading call=true) p

/-- A key lock persists nothing. -/
theorem reads_withKeyLock (key : ExecutionKey) {body : ServiceM Command α} (h : Reads body) :
    Reads (withKeyLock key body) := Uses.bind (Uses.perform rfl) fun _ => Uses.ensure h (Uses.perform rfl)

/-- A soft purge persists nothing. -/
theorem reads_softPurgeKeys (keys : List ExecutionKey) : Reads (softPurgeKeys keys : ServiceM Command PurgeReport) := by
  have hremove : ∀ sizes,Reads (removeEach sizes : ServiceM Command ℕ) := by
    intro sizes
    induction sizes with
    | nil => exact Uses.pure _
    | cons size rest ih =>
      exact Uses.bind (Uses.perform rfl) fun _ => Uses.bind (Uses.ofExcept _) fun _ => Uses.bind ih fun _ => Uses.pure _
  have hone : ∀ key,Reads (purgeKey softDrop key : ServiceM Command (ℕ × ℕ)) := by
    intro key
    refine reads_withKeyLock key (Uses.bind (Uses.bind (Uses.perform rfl) fun _ => Uses.pure _) fun sizes => ?_)
    exact Uses.bind (Uses.perform rfl) fun _ => Uses.bind (hremove sizes) fun _ => Uses.pure _
  have heach : Reads (purgeEach softDrop keys : ServiceM Command (ℕ × ℕ)) := by
    induction keys with
    | nil => exact Uses.pure _
    | cons key rest ih => exact Uses.bind (hone key) fun _ => Uses.bind ih fun _ => Uses.pure _
  exact Uses.ite (fun _ => Uses.pure _) fun _ => Uses.bind heach fun _ => Uses.pure _

variable (service : CachedMlExecutionService Command) (fingerprint : Bytes → Digest)

/-- Neither does the quota eviction. -/
theorem reads_afterRecord : Reads (afterRecord service) := by
  have hevict : ∀ maxBytes,Reads (evictToQuota maxBytes : ServiceM Command PurgeReport) := by
    intro maxBytes
    refine Uses.bind (Uses.perform rfl) fun current => Uses.ite (fun _ => Uses.pure _) fun _ => ?_
    refine Uses.bind (Uses.perform rfl) fun entries => ?_
    exact Uses.bind (Uses.bind (Uses.perform rfl) fun _ => Uses.pure _) fun _ => reads_softPurgeKeys _
  unfold afterRecord
  split
  · exact Uses.pure ()
  · exact Uses.bind (hevict _) fun _ => Uses.pure ()

/-- Tagging persists nothing. -/
theorem reads_applyTags (key : ExecutionKey) (command : Command) : Reads (applyTags service key command) :=
  Uses.ite (fun _ => Uses.pure ()) fun _ => Uses.perform rfl

/-- Storing a blob puts and marks. -/
theorem reads_storeBlob (executionId : ExecutionId) (artifact : Artifact) :
    Reads (storeBlob executionId artifact : ServiceM Command Artifact) := by
  refine Uses.bind (Uses.attempt (Uses.perform rfl)) fun r => ?_
  cases r with
  | error e => exact Uses.ite (fun _ => Uses.bind (Uses.perform rfl) fun _ => Uses.pure _) fun _ => Uses.raise e
  | ok _ =>
    refine Uses.bind (Uses.attempt (Uses.perform rfl)) fun r => ?_
    cases r with
    | error e => exact Uses.ite (fun _ => Uses.pure _) fun _ => Uses.raise e
    | ok _ => exact Uses.pure _

/-- A back-fill attaches rows, puts and marks. -/
theorem reads_accumulateInput (key : ExecutionKey) (command : Command) (current : MlExecution) :
    Reads (accumulateInput service fingerprint key command current) := by
  have hblobs : ∀ (executionId : ExecutionId) (artifacts : List Artifact),
      Reads (storeBlobs executionId artifacts : ServiceM Command Unit) := by
    intro executionId artifacts
    induction artifacts with
    | nil => exact Uses.pure ()
    | cons artifact rest ih => exact Uses.bind (reads_storeBlob executionId artifact) fun _ => ih
  refine Uses.ite (fun _ => Uses.pure ()) fun _ => ?_
  refine reads_withKeyLock key (Uses.bind (Uses.perform rfl) fun found => ?_)
  cases found with
  | none => exact Uses.pure ()
  | some fresh =>
    refine Uses.ite (fun _ => Uses.pure ()) fun _ => ?_
    refine Uses.bind (Uses.ofExcept _) fun inputArtifacts => ?_
    refine Uses.ite (fun _ => Uses.pure ()) fun _ => Uses.bind (Uses.perform rfl) fun _ => ?_
    exact Uses.bind (Uses.perform rfl) fun _ => Uses.ensure (hblobs _ _) (Uses.perform rfl)

/-- A heal removes blobs, then the execution. -/
theorem reads_removeExecutionAndBlobs (execution : MlExecution) :
    Reads (removeExecutionAndBlobs execution : ServiceM Command Unit) := by
  have hblobs : ∀ artifacts,Reads (removeArtifactBlobs artifacts : ServiceM Command Unit) := by
    intro artifacts
    induction artifacts with
    | nil => exact Uses.pure ()
    | cons artifact rest ih => exact Uses.bind (Uses.perform rfl) fun _ => ih
  exact Uses.bind (hblobs execution.artifacts) fun _ => Uses.perform rfl

end Reading

section Service
variable {Command : Type} (service : CachedMlExecutionService Command) (fingerprint : Bytes → Digest)
variable {command : Command} {g : Gathered}

/-- The program gathers more and what it returns is as stated. -/
abbrev Gathers {α : Type} (Q : α → Gathered → Prop) (p : ServiceM Command α) (g : Gathered) : Prop :=
  Follows (monitored watchGathered) (fun r g' => Extends g g' ∧ ∀ a,r=.ok a → Q a g') p g

/-- A reading program after one that gathers. -/
theorem gathers_then {α β : Type} {Q : α → Gathered → Prop} {Q' : β → Gathered → Prop} {p : ServiceM Command α}
    {f : α → ServiceM Command β} (h : Gathers Q p g)
    (hf : ∀ a g',Extends g g' → Q a g' → Gathers Q' (f a) g') : Gathers Q' (p >>= f) g := by
  refine Follows.seq h (fun a g' hg => ?_) fun e g' hg => ⟨hg.1,fun _ hok => nomatch hok⟩
  exact (hf a g' hg.1 (hg.2 a rfl)).weaken fun r g'' hr => ⟨hg.1.trans hr.1,hr.2⟩

/-- What a reading program returns is not stated. -/
theorem gathers_reads {α : Type} {p : ServiceM Command α} (h : Reads p) (g : Gathered) :
    Gathers (fun _ _ => True) p g := (follows_extends h g).weaken fun _ _ hg => ⟨hg,fun _ _ => trivial⟩

/-- A value that is returned as it is. -/
theorem gathers_pure {α : Type} {Q : α → Gathered → Prop} {a : α} (h : Q a g) :
    Gathers Q (pure a : ServiceM Command α) g :=
  Follows.pure ⟨.refl g,fun a' hok => by rw [← Except.ok.inj hok]; exact h⟩

/-- A raised error returns nothing. -/
theorem gathers_raise {α : Type} {Q : α → Gathered → Prop} (e : PyExc) :
    Gathers Q (raise e : ServiceM Command α) g := Follows.raise ⟨.refl g,fun _ hok => nomatch hok⟩

/-- Hydration returns what it read. -/
theorem gathers_hydrateArtifacts (artifacts : List Artifact) (g : Gathered) :
    Gathers (fun served g' => List.Forall₂ (ReadFrom g'.got) artifacts served)
      (hydrateArtifacts artifacts : ServiceM Command (List Artifact)) g := by
  induction artifacts generalizing g with
  | nil => exact gathers_pure .nil
  | cons artifact rest ih =>
    have hone : Gathers (fun b g' => ReadFrom g'.got artifact b)
        (hydrateArtifact artifact : ServiceM Command Artifact) g := by
      refine Follows.watch_bind (fun found => ?_) fun e => ⟨extends_watch rfl _ g,fun _ hok => nomatch hok⟩
      have hextends : Extends g (watchGathered (.blobGet artifact.blobKey : Call Command) (.ok found) g) :=
        extends_watch rfl (.ok found) g
      cases found with
      | none => exact Follows.raise ⟨hextends,fun _ hok => nomatch hok⟩
      | some content =>
        refine Follows.pure ⟨hextends,fun b hok => ?_⟩
        cases Except.ok.inj hok
        exact ⟨content,List.mem_cons_self,rfl⟩
    refine gathers_then hone fun b g₁ _ hb => gathers_then (ih g₁) fun others g₂ hg₂ hothers => gathers_pure ?_
    refine .cons ?_ hothers
    obtain ⟨content,hgot,heq⟩ := hb
    exact ⟨content,hg₂.got hgot,heq⟩

/-- A served hit is a loaded execution, with what was read. -/
theorem gathers_serveHit {key : ExecutionKey} {current : MlExecution} (hmem : current∈g.loaded) :
    Gathers (fun served g' => Returned g' served) (serveHit service fingerprint key command current) g := by
  have hhydrate : Gathers (fun served g' => Returned g' served) (hydrate current : ServiceM Command MlExecution) g := by
    refine gathers_then (gathers_hydrateArtifacts current.artifacts g) fun served g' hg hserved => ?_
    exact gathers_pure (.hit (hg.loaded hmem) rfl hserved)
  refine gathers_then hhydrate fun hydrated g₁ _ hreturned => ?_
  have hevent : Reads (recordEvent service .hit key command) := Uses.perform rfl
  refine gathers_then (gathers_reads hevent g₁) fun _ g₂ hg₂ _ => ?_
  refine gathers_then (gathers_reads (reads_applyTags service key command) g₂) fun _ g₃ hg₃ _ => ?_
  refine gathers_then (gathers_reads (reads_accumulateInput service fingerprint key command current) g₃)
    fun _ g₄ hg₄ _ => gathers_pure ?_
  exact ((hreturned.mono hg₂).mono hg₃).mono hg₄

/-- The current execution is loaded. -/
theorem gathers_findCurrent (key : ExecutionKey) (g : Gathered) :
    Gathers (fun found g' => ∀ current,found=some current → current∈g'.loaded)
      (store (.findCurrent key) : ServiceM Command (Option MlExecution)) g := by
  refine Follows.watch_perform fun r => ⟨extends_watch rfl r g,fun found hok current hfound => ?_⟩
  subst hok hfound
  exact List.mem_cons_self

/-- An attempt that gathers. -/
theorem gathers_attempt {α β : Type} {Q : α → Gathered → Prop} {Q' : β → Gathered → Prop} {p : ServiceM Command α}
    {f : Except PyExc α → ServiceM Command β} (h : Gathers Q p g)
    (hf : ∀ r g',Extends g g' → (∀ a,r=.ok a → Q a g') → Gathers Q' (f r) g') : Gathers Q' (attempt p >>= f) g := by
  refine Follows.attempt_seq h fun r g' hg => ?_
  exact (hf r g' hg.1 hg.2).weaken fun r g'' hr => ⟨hg.1.trans hr.1,hr.2⟩

/-- What is served of the current execution was loaded and read. -/
theorem gathers_serveCurrentIfHealthy (key : ExecutionKey) (g : Gathered) :
    Gathers (fun found g' => ∀ served,found=some served → Returned g' served)
      (serveCurrentIfHealthy service fingerprint key command) g := by
  refine gathers_attempt (gathers_findCurrent key g) fun r g₁ _ hr => ?_
  match r with
  | .error e =>
    cases e with
    | storeCorrupt => exact gathers_pure fun _ hnone => nomatch hnone
    | _ => exact gathers_raise _
  | .ok none => exact gathers_pure fun _ hnone => nomatch hnone
  | .ok (some current) =>
    refine gathers_attempt (gathers_serveHit service fingerprint (hr _ rfl current rfl)) fun r g₂ _ hserved => ?_
    cases r with
    | ok served =>
      refine gathers_pure fun served' hsome => ?_
      cases hsome
      exact hserved served rfl
    | error e =>
      refine Follows.ite (fun _ => ?_) fun _ => gathers_raise e
      exact gathers_then (gathers_reads (reads_removeExecutionAndBlobs current) g₂) fun _ _ _ _ =>
        gathers_pure fun _ hnone => nomatch hnone

/-- What is served offline was loaded and read. -/
theorem gathers_serveOffline (key : ExecutionKey) (g : Gathered) :
    Gathers (fun served g' => Returned g' served) (serveOffline service fingerprint key command) g := by
  have hstored : Gathers (fun found g' => ∀ served,found=some served → Returned g' served)
      (serveStored service fingerprint key command) g := by
    refine gathers_then (gathers_findCurrent key g) fun found g₁ _ hfound => ?_
    match found with
    | none => exact gathers_pure fun _ hnone => nomatch hnone
    | some current =>
      refine gathers_then (gathers_serveHit service fingerprint (hfound current rfl)) fun served g₂ _ hserved => ?_
      refine gathers_pure fun served' hsome => ?_
      cases hsome
      exact hserved
  have hmissed : ∀ {e : PyExc} (g' : Gathered),Gathers (fun served g' => Returned g' served)
      (recordEvent service .miss key command >>= fun _ => (raise e : ServiceM Command MlExecution)) g' := by
    intro e g'
    have hevent : Reads (recordEvent service .miss key command) := Uses.perform rfl
    exact gathers_then (gathers_reads hevent g') fun _ _ _ _ => gathers_raise e
  refine gathers_attempt hstored fun r g₁ _ hserved => ?_
  match r with
  | .ok (some served) => exact gathers_pure (hserved _ rfl served rfl)
  | .ok none => exact hmissed g₁
  | .error e => exact Follows.ite (fun _ => hmissed g₁) fun _ => gathers_raise e

/-- A stored blob's artifact is the document, with its status. -/
theorem gathers_storeBlob (executionId : ExecutionId) (document : Artifact) (g : Gathered) :
    Gathers (fun a _ => SameButStatus document a) (storeBlob executionId document : ServiceM Command Artifact) g := by
  have hput : Reads (ask (.blobPut document.blobKey (document.content.getD [])) : ServiceM Command Unit) :=
    Uses.perform rfl
  have hmark : Reads (store (.markArtifactsStored executionId document.blobKey) : ServiceM Command Unit) :=
    Uses.perform rfl
  refine gathers_attempt (gathers_reads hput g) fun r g₁ _ _ => ?_
  cases r with
  | error e =>
    refine Follows.ite (fun _ => ?_) fun _ => gathers_raise e
    have hfail : Reads (store (.markArtifactsFailed executionId document.blobKey e.str) : ServiceM Command Unit) :=
      Uses.perform rfl
    exact gathers_then (gathers_reads hfail g₁) fun _ _ _ _ => gathers_pure ⟨rfl,rfl,rfl,rfl⟩
  | ok _ =>
    refine gathers_attempt (gathers_reads hmark g₁) fun r g₂ _ _ => ?_
    cases r with
    | error e => exact Follows.ite (fun _ => gathers_pure ⟨rfl,rfl,rfl,rfl⟩) fun _ => gathers_raise e
    | ok _ => exact gathers_pure ⟨rfl,rfl,rfl,rfl⟩

/-- The documents were persisted for the execution, one after the other. -/
structure Persisted (g : Gathered) (executionId : ExecutionId) (documents : List Artifact) (g' : Gathered) :
    Prop where
  /-- No minted id is lost. -/
  minted : g.minted ⊆ g'.minted
  /-- The documents come after those persisted before. -/
  written : g'.written=g.written ++ documents.map fun document => (executionId,document)
  /-- Nothing was finalized. -/
  finalized : g'.finalized=g.finalized

/-- The document loop persists each document, and returns it with its status. -/
theorem follows_persistDocuments (executionId : ExecutionId) (documents : List Artifact) (g : Gathered) :
    Follows (monitored watchGathered) (fun r g' => ∀ out,r=.ok out → Persisted g executionId documents g' ∧
      List.Forall₂ SameButStatus documents out.1)
      (persistDocuments executionId documents : ServiceM Command (List Artifact × Bool)) g := by
  induction documents generalizing g with
  | nil =>
    refine Follows.pure fun out hok => ?_
    cases Except.ok.inj hok
    exact ⟨⟨fun _ h => h,by simp,rfl⟩,.nil⟩
  | cons document rest ih =>
    refine Follows.watch_bind (fun _ => ?_) fun e out hok => nomatch hok
    refine Follows.seq (gathers_storeBlob executionId document _) (fun stored g₁ hg₁ => ?_) fun e _ _ out hok =>
      nomatch hok
    refine Follows.seq (ih g₁) (fun others g₂ hg₂ => ?_) fun e _ _ out hok => nomatch hok
    refine Follows.pure fun out hok => ?_
    cases Except.ok.inj hok
    obtain ⟨hpersisted,hsame⟩ := hg₂ others rfl
    refine ⟨⟨fun _ hmem => hpersisted.minted (hg₁.1.minted hmem),?_,?_⟩,.cons (hg₁.2 stored rfl) hsame⟩
    · rw [hpersisted.written,hg₁.1.written]
      simp [watchGathered,gainOf,Gathered.add]
    · rw [hpersisted.finalized,hg₁.1.finalized]
      rfl

/-- Every call but the document loop's. -/
def isPersist {Command : Type} : Call Command → Bool
  | .store (.persistArtifact _ _) => true
  | _ => false

/-- What was persisted stays so while nothing more is. -/
theorem persisted_watch {documents : List Artifact} {executionId : ExecutionId} {g g' : Gathered}
    {call : Call Command} (h : isPersist call=false) (r : Except PyExc call.Ret)
    (hg : executionId∈g'.minted ∧ g'.written=g.written ++ documents.map fun document => (executionId,document)) :
    executionId∈(watchGathered call r g').minted ∧
      (watchGathered call r g').written=g.written ++ documents.map fun document => (executionId,document) := by
  by_cases hreading : isReading call=true
  · have hextends := extends_watch hreading r g'
    exact ⟨hextends.minted hg.1,hextends.written.trans hg.2⟩
  · cases call with
    | store storeCall =>
      cases storeCall with
      | persistArtifact => exact nomatch h
      | finalizeOutputPersisted => cases r <;> exact hg
      | _ => exact absurd rfl hreading
    | _ => exact absurd rfl hreading

/-- The documents persisted for a fresh execution are its output documents. -/
theorem returned_run {g g' : Gathered} {execution : MlExecution} {documents : List Artifact} (hfresh : g.written=[])
    (hminted : execution.executionId∈g'.minted)
    (hwritten : g'.written=g.written ++ documents.map fun document => (execution.executionId,document))
    (hsame : List.Forall₂ SameButStatus documents execution.artifacts) : Returned g' execution := by
  refine .run hminted ?_
  have hdocuments : g'.documents execution.executionId=documents.filter fun a => !a.artifactType.isInput := by
    unfold Gathered.documents documentsOf
    rw [hwritten,hfresh,List.nil_append,List.filter_map,List.map_map]
    simp only [Function.comp_def,decide_true,Bool.true_and,List.map_id']
  rw [hdocuments]
  exact List.rel_filter (fun a b hab => by simp only [hab.1]) hsame

/-- What the program returns is made of what was gathered. -/
abbrev Returns (p : ServiceM Command MlExecution) (g : Gathered) : Prop :=
  Follows (monitored watchGathered) (fun r g' => ∀ execution,r=.ok execution → Returned g' execution) p g

/-- A gathering program first. -/
theorem returns_then {α : Type} {Q : α → Gathered → Prop} {p : ServiceM Command α}
    {f : α → ServiceM Command MlExecution} (h : Gathers Q p g)
    (hf : ∀ a g',Extends g g' → Q a g' → Returns (f a) g') : Returns (p >>= f) g :=
  Follows.seq h (fun a g' hg => hf a g' hg.1 (hg.2 a rfl)) fun _ _ _ _ hok => nomatch hok

/-- What gathers what it returns. -/
theorem returns_of_gathers {p : ServiceM Command MlExecution} (h : Gathers (fun served g' => Returned g' served) p g) :
    Returns p g := h.weaken fun _ _ hr => hr.2

/-- A raised error returns nothing. -/
theorem returns_raise (e : PyExc) : Returns (raise e : ServiceM Command MlExecution) g :=
  Follows.raise fun _ hok => nomatch hok

/-- A key lock around a run. -/
theorem returns_withKeyLock (key : ExecutionKey) {body : ServiceM Command MlExecution}
    (h : ∀ g',Extends g g' → Returns body g') : Returns (withKeyLock key body) g := by
  have hacquire : Reads (ask (.acquireKey key) : ServiceM Command Unit) := Uses.perform rfl
  have hrelease : Reads (ask (.releaseKey key) : ServiceM Command Unit) := Uses.perform rfl
  refine returns_then (gathers_reads hacquire g) fun _ g₁ hg₁ _ => Follows.ensure ?_
  refine (h g₁ hg₁).weaken fun r g₂ hr => (follows_extends hrelease g₂).weaken fun c g₃ hg₃ => ?_
  cases c with
  | ok _ => exact fun execution hok => (hr execution hok).mono hg₃
  | error e => exact fun execution hok => nomatch hok

/-- A recorded run returns what it persisted. -/
theorem returns_recordStored {key : ExecutionKey} {inProgress : MlExecution} {result : ClientRunResult}
    (hfresh : g.written=[]) (hminted : inProgress.executionId∈g.minted) :
    Returns (recordStored service fingerprint key command inProgress result) g := by
  have houtcome : Reads (store (.recordOutcome (withOutcome inProgress result)) : ServiceM Command Unit) :=
    Uses.perform rfl
  have hshared : Reads (ask .acquireShared : ServiceM Command Unit) := Uses.perform rfl
  have hrelease : Reads (ask .releaseShared : ServiceM Command Unit) := Uses.perform rfl
  refine returns_then (gathers_reads houtcome g) fun _ g₁ hg₁ _ => ?_
  refine returns_then (gathers_reads (Uses.ofExcept _) g₁) fun outputArtifacts g₂ hg₂ _ => ?_
  refine returns_then (gathers_reads (Uses.ofExcept _) g₂) fun inputArtifacts g₃ hg₃ _ => ?_
  have hg := (hg₁.trans hg₂).trans hg₃
  have hpersist : Follows (monitored watchGathered)
      (fun r g' => ∀ out,r=.ok out → Persisted g₃ inProgress.executionId (outputArtifacts ++ inputArtifacts) g' ∧
        List.Forall₂ SameButStatus (outputArtifacts ++ inputArtifacts) out.1)
      (withContentWriteLock (persistDocuments inProgress.executionId (outputArtifacts ++ inputArtifacts)) :
        ServiceM Command (List Artifact × Bool)) g₃ := by
    refine Follows.seq (gathers_reads hshared g₃) (fun _ g₄ hg₄ => Follows.ensure ?_) fun _ _ _ _ hok => nomatch hok
    refine (follows_persistDocuments _ _ g₄).weaken fun r g₅ hr => (follows_extends hrelease g₅).weaken
      fun c g₆ hg₆ => ?_
    cases c with
    | error e => exact fun out hok => nomatch hok
    | ok _ =>
      intro out hok
      obtain ⟨hpersisted,hsame⟩ := hr out hok
      refine ⟨⟨fun _ hmem => hg₆.minted (hpersisted.minted (hg₄.1.minted hmem)),?_,?_⟩,hsame⟩
      · rw [hg₆.written,hpersisted.written,hg₄.1.written]
      · rw [hg₆.finalized,hpersisted.finalized,hg₄.1.finalized]
  refine Follows.seq hpersist (fun out g₄ hr => ?_) fun _ _ _ _ hok => nomatch hok
  obtain ⟨hpersisted,hsame⟩ := hr out rfl
  have hconclude : Uses (fun call => isPersist call=false)
      (concludeRecording service key command inProgress.executionId out.2) := by
    have hreads : ∀ {p : ServiceM Command Unit},Reads p → Uses (fun call => isPersist call=false) p := by
      refine fun hp => hp.mono fun call hcall => ?_
      cases call with
      | store storeCall =>
        cases storeCall with
        | persistArtifact => exact nomatch hcall
        | _ => rfl
      | _ => rfl
    refine Uses.ite (fun _ => Uses.bind (Uses.perform rfl) fun _ => ?_) fun _ => Uses.perform rfl
    refine Uses.bind (Uses.perform rfl) fun _ => Uses.bind (hreads (reads_applyTags service key command)) fun _ => ?_
    exact hreads (reads_afterRecord service)
  have hstands : Follows (monitored watchGathered) (fun _ g' => inProgress.executionId∈g'.minted ∧
      g'.written=g₃.written ++ (outputArtifacts ++ inputArtifacts).map fun document => (inProgress.executionId,document))
      (concludeRecording service key command inProgress.executionId out.2) g₄ :=
    Follows.of_uses hconclude (fun _ r _ hcall hg' => persisted_watch hcall r hg')
      ⟨hpersisted.minted (hg.minted hminted),hpersisted.written⟩
  refine Follows.seq hstands (fun _ g₅ hstands => ?_) fun _ _ _ _ hok => nomatch hok
  refine Follows.pure fun execution hok => ?_
  cases Except.ok.inj hok
  exact returned_run (hg.written.trans hfresh) hstands.1 hstands.2 hsame

/-- A run whose answer is not stored returns a bare execution. -/
theorem returns_recordUnstored {key : ExecutionKey} {inProgress : MlExecution} {result : ClientRunResult}
    (hfresh : g.finalized=[]) (hminted : inProgress.executionId∈g.minted) :
    Returns (recordUnstored service fingerprint key command inProgress result) g := by
  have houtcome : Reads (store (.recordOutcome (withOutcome inProgress result)) : ServiceM Command Unit) :=
    Uses.perform rfl
  have hevent : Reads (recordEvent service .run key command) := Uses.perform rfl
  refine returns_then (gathers_reads houtcome g) fun _ g₁ hg₁ _ => ?_
  refine returns_then (gathers_reads hevent g₁) fun _ g₂ hg₂ _ => ?_
  refine returns_then (gathers_reads (Uses.ofExcept _) g₂) fun artifacts g₃ hg₃ _ => ?_
  have hg := (hg₁.trans hg₂).trans hg₃
  refine Follows.pure fun execution hok => ?_
  cases Except.ok.inj hok
  exact .bare (hg.minted hminted) (by rw [hg.finalized,hfresh]; exact List.not_mem_nil)

/-- A generated id is gathered. -/
theorem gathers_newExecutionId (g : Gathered) :
    Gathers (fun id g' => id∈g'.minted) (ask .newExecutionId : ServiceM Command ExecutionId) g := by
  refine Follows.watch_perform fun r => ⟨extends_watch rfl r g,fun id hok => ?_⟩
  subst hok
  exact List.mem_cons_self

/-- A fresh run returns what it persisted, if it is stored. -/
theorem returns_runAndRecord (identity : CallIdentity) (hwritten : g.written=[]) (hfinalized : g.finalized=[]) :
    Returns (runAndRecord service fingerprint identity command) g := by
  have hgate : Reads (blobHealthGate service command) := Uses.ite (fun _ => Uses.perform rfl) fun _ => Uses.pure true
  refine returns_then (gathers_reads hgate g) fun healthy g₁ hg₁ _ => Follows.ite (fun _ => ?_) fun _ => returns_raise _
  refine returns_then (gathers_newExecutionId g₁) fun executionId g₂ hg₂ hminted => ?_
  have hsave : Reads (store (.save (inProgressExecution service identity executionId command)) :
      ServiceM Command Unit) := Uses.perform rfl
  refine returns_then (gathers_reads hsave g₂) fun _ g₃ hg₃ _ => ?_
  have hclient : Reads (runRecordedClient command (inProgressExecution service identity executionId command)) := by
    refine Uses.bind (Uses.attempt (Uses.perform rfl)) fun r => ?_
    cases r with
    | ok result => exact Uses.pure _
    | error e =>
      refine Uses.ite (fun _ => Uses.bind (Uses.perform rfl) fun _ => Uses.raise e) fun _ => ?_
      exact Uses.ite (fun _ => Uses.bind (Uses.perform rfl) fun _ => Uses.raise e) fun _ => Uses.raise e
  refine returns_then (gathers_reads hclient g₃) fun result g₄ hg₄ _ => ?_
  have hg := (hg₁.trans hg₂).trans (hg₃.trans hg₄)
  have hid : (inProgressExecution service identity executionId command).executionId∈g₄.minted :=
    (hg₃.trans hg₄).minted hminted
  refine Follows.ite (fun _ => ?_) fun _ => ?_
  · exact returns_recordStored service fingerprint (hg.written.trans hwritten) hid
  · exact returns_recordUnstored service fingerprint (hg.finalized.trans hfinalized) hid

/-- A fresh run under the key lock. -/
theorem returns_runFreshLocked (identity : CallIdentity) (hwritten : g.written=[]) (hfinalized : g.finalized=[]) :
    Returns (runFreshLocked service fingerprint identity command) g := by
  refine returns_withKeyLock _ fun g₁ hg₁ => ?_
  have hrun : ∀ g₂,Extends g g₂ → Returns (runAndRecord service fingerprint identity command) g₂ := fun g₂ hg₂ =>
    returns_runAndRecord service fingerprint identity (hg₂.written.trans hwritten) (hg₂.finalized.trans hfinalized)
  refine Follows.ite (fun _ => ?_) fun _ => hrun g₁ hg₁
  refine returns_then (gathers_serveCurrentIfHealthy service fingerprint identity.generateKey g₁)
    fun found g₂ hg₂ hfound => ?_
  match found with
  | some served => exact Follows.pure fun execution hok => by rw [← Except.ok.inj hok]; exact hfound served rfl
  | none => exact hrun g₂ (hg₁.trans hg₂)

/-- A run that is not recorded returns a bare execution. -/
theorem returns_display {p : ServiceM Command ClientRunResult} (hp : Reads p) (identity : CallIdentity)
    (event : JournalEvent) (hfinalized : g.finalized=[]) :
    Returns (p >>= fun result => ask .newExecutionId >>= fun executionId =>
      ofExcept (buildArtifacts fingerprint executionId result .stored) >>= fun artifacts =>
        recordEvent service event identity.generateKey command >>= fun _ =>
          pure (displayedRun service identity executionId command result artifacts)) g := by
  have hevent : Reads (recordEvent service event identity.generateKey command) := Uses.perform rfl
  refine returns_then (gathers_reads hp g) fun result g₁ hg₁ _ => ?_
  refine returns_then (gathers_newExecutionId g₁) fun executionId g₂ hg₂ hminted => ?_
  refine returns_then (gathers_reads (Uses.ofExcept _) g₂) fun artifacts g₃ hg₃ _ => ?_
  refine returns_then (gathers_reads hevent g₃) fun _ g₄ hg₄ _ => ?_
  refine Follows.pure fun execution hok => ?_
  cases Except.ok.inj hok
  have hg := ((hg₁.trans hg₂).trans hg₃).trans hg₄
  refine .bare ((hg₃.trans hg₄).minted hminted) ?_
  rw [hg.finalized,hfinalized]
  exact List.not_mem_nil

/-- What an execute returns is made of what it gathered. -/
theorem returns_execute (hwritten : g.written=[]) (hfinalized : g.finalized=[]) :
    Returns (execute service fingerprint command) g := by
  unfold execute
  match service.buildIdentity command with
  | .error e => exact fun execution hok => nomatch hok
  | .ok identity =>
    have hclient : Reads (ask (.runClient command) : ServiceM Command ClientRunResult) := Uses.perform rfl
    have hgate : Reads (tokenGate service command) := Uses.ite (fun _ => Uses.perform rfl) fun _ => Uses.pure ()
    have hmissed : Reads (recordEvent service .miss identity.generateKey command) := Uses.perform rfl
    refine Follows.ite (fun _ => Follows.ite (fun _ => ?_) fun _ => ?_) fun _ => ?_
    · exact returns_then (gathers_reads hmissed g) fun _ _ _ _ => returns_raise _
    · exact returns_display service fingerprint hclient identity .run hfinalized
    refine returns_then (gathers_reads hgate g) fun _ g₁ hg₁ _ => ?_
    have hfresh : ∀ g₂,Extends g g₂ → Returns (runFreshLocked service fingerprint identity command) g₂ := fun g₂ hg₂ =>
      returns_runFreshLocked service fingerprint identity (hg₂.written.trans hwritten) (hg₂.finalized.trans hfinalized)
    have hmetered : Returns (runMetered service fingerprint identity command) g₁ := by
      have hfind : Reads (store (.findCurrent identity.generateKey) : ServiceM Command (Option MlExecution)) :=
        Uses.perform rfl
      refine returns_then (gathers_reads hfind g₁) fun found g₂ hg₂ _ => ?_
      exact returns_display service fingerprint hclient identity _
        (hg₂.finalized.trans (hg₁.finalized.trans hfinalized))
    unfold executeCacheable
    split
    · exact returns_of_gathers (gathers_serveOffline service fingerprint identity.generateKey g₁)
    · refine Follows.ite (fun _ => ?_) fun _ => hmetered
      refine returns_then (gathers_serveCurrentIfHealthy service fingerprint identity.generateKey g₁)
        fun found g₂ hg₂ hfound => ?_
      match found with
      | some served => exact Follows.pure fun execution hok => by rw [← Except.ok.inj hok]; exact hfound served rfl
      | none => exact hfresh g₂ (hg₁.trans hg₂)
    · exact Follows.ite (fun _ => hfresh g₁ hg₁) fun _ => hmetered

end Service

end GenericMlCache.ReturnedRuns
