import GenericMlCache.CallParties
import GenericMlCache.PurgedReports
import GenericMlCache.WiredStore

/-!
# Removals beside a migration

Purges, evictions and self-heals take the key lock, a migration the store lock,
so a blob may be removed while the migration holds a copy of it. The copy is
then moved back into place. Where no removal meets a copy, no blob that was
removed is ever in the store again.
-/

namespace GenericMlCache.RemovedBlobs

open CallProgram CallAutomaton CallParties PythonText ExecutionModel RepositoryCalls ServicePorts StorePurge
open CachedExecution ServiceOperations PurgedReports StoreEncryptor MigrationRecovery WiredStore

section Removals
variable {Command : Type}

/-- The programs that remove blobs. -/
inductive Removal : ServiceM Command Unit → Prop where
  | byKey (key : ExecutionKey) (hard : Bool) : Removal (do let _ ← purgeByKey key hard; return ())
  | byTag (tag : PyStr) (hard : Bool) : Removal (do let _ ← purgeByTag tag hard; return ())
  | bySession (sessionId : PyStr) (hard : Bool) : Removal (do let _ ← purgeBySession sessionId hard; return ())
  | bySessionTag (tag : PyStr) (hard : Bool) : Removal (do let _ ← purgeBySessionTag tag hard; return ())
  | all (hard : Bool) : Removal (do let _ ← purgeAll hard; return ())
  | stale (maxAge : ℤ) : Removal (do let _ ← evictStale maxAge; return ())
  | quota (maxBytes : ℕ) : Removal (do let _ ← evictToQuota maxBytes; return ())
  /-- The removal of a self-heal. -/
  | heal (execution : MlExecution) : Removal (removeExecutionAndBlobs execution)

/-- A removal writes no blob. -/
def writesNoBlob : Call Command → Bool
  | .blobPut _ _ => false
  | _ => true

/-- The program writes no blob. -/
abbrev Writeless {α : Type} (p : ServiceM Command α) : Prop := Uses (fun call => writesNoBlob call=true) p

/-- Blobs are removed one by one. -/
theorem writeless_removeEach (sizes : List (BlobKey × Size)) :
    Writeless (removeEach sizes : ServiceM Command ℕ) := by
  induction sizes with
  | nil => exact Uses.pure 0
  | cons entry rest ih =>
    exact Uses.bind (Uses.perform rfl) fun _ => Uses.bind (Uses.ofExcept _) fun _ => Uses.bind ih fun _ => Uses.pure _

/-- The loop of a purge. -/
theorem writeless_purgeKeys {dropRows : ExecutionKey → ServiceM Command Unit}
    (hdrop : ∀ key,Writeless (dropRows key)) (keys : List ExecutionKey) :
    Writeless (purgeKeys dropRows keys : ServiceM Command PurgeReport) := by
  have hone : ∀ key,Writeless (purgeKey dropRows key : ServiceM Command (ℕ × ℕ)) := by
    intro key
    refine Uses.bind (Uses.perform rfl) fun _ => Uses.ensure ?_ (Uses.perform rfl)
    refine Uses.bind (Uses.bind (Uses.perform rfl) fun _ => Uses.pure _) fun sizes => ?_
    refine Uses.bind (hdrop key) fun _ => ?_
    exact Uses.bind (writeless_removeEach sizes) fun _ => Uses.pure _
  have heach : ∀ keys,Writeless (purgeEach dropRows keys : ServiceM Command (ℕ × ℕ)) := by
    intro keys
    induction keys with
    | nil => exact Uses.pure _
    | cons key rest ih => exact Uses.bind (hone key) fun _ => Uses.bind ih fun _ => Uses.pure _
  exact Uses.ite (fun _ => Uses.pure _) fun _ => Uses.bind (heach keys) fun _ => Uses.pure _

/-- A purge of either kind. -/
theorem writeless_purge (keys : List ExecutionKey) (hard : Bool) :
    Writeless (purge keys hard : ServiceM Command PurgeReport) := by
  refine Uses.ite (fun _ => writeless_purgeKeys (fun key => ?_) keys) fun _ =>
    writeless_purgeKeys (fun key => Uses.perform (P := fun call => writesNoBlob call=true) rfl) keys
  exact Uses.bind (Uses.perform rfl) fun _ => Uses.perform rfl

/-- No program that removes blobs writes one. -/
theorem Removal.writeless {p : ServiceM Command Unit} (h : Removal p) : Writeless p := by
  have hsoft : ∀ keys,Writeless (softPurgeKeys keys : ServiceM Command PurgeReport) :=
    fun keys => writeless_purge keys false
  have horder : Writeless (accessOrdering : ServiceM Command (List (ExecutionKey × Timestamp))) :=
    Uses.bind (Uses.perform rfl) fun _ => Uses.pure _
  cases h with
  | byKey key hard =>
    refine Uses.bind ?_ fun _ => Uses.pure _
    exact Uses.bind (Uses.perform rfl) fun _ => Uses.ite (fun _ => Uses.pure _) fun _ => writeless_purge _ _
  | byTag tag hard =>
    exact Uses.bind (Uses.bind (Uses.perform rfl) fun _ => writeless_purge _ _) fun _ => Uses.pure _
  | bySession sessionId hard =>
    exact Uses.bind (Uses.bind (Uses.perform rfl) fun _ => writeless_purge _ _) fun _ => Uses.pure _
  | bySessionTag tag hard =>
    have hkeys : ∀ sessionIds keys,Writeless (keysForSessions sessionIds keys : ServiceM Command _) := by
      intro sessionIds
      induction sessionIds with
      | nil => exact fun keys => Uses.pure _
      | cons sessionId rest ih => exact fun keys => Uses.bind (Uses.perform rfl) fun _ => ih _
    refine Uses.bind (Uses.bind (Uses.perform rfl) fun sessionIds => ?_) fun _ => Uses.pure _
    exact Uses.bind (hkeys sessionIds []) fun _ => writeless_purge _ _
  | all hard =>
    refine Uses.bind (Uses.ite (fun _ => ?_) fun _ => ?_) fun _ => Uses.pure _
    · exact Uses.bind (Uses.perform rfl) fun _ => writeless_purge _ _
    · exact Uses.bind (Uses.perform rfl) fun _ => writeless_purge _ _
  | stale maxAge =>
    refine Uses.bind (Uses.ite (fun _ => Uses.pure _) fun _ => ?_) fun _ => Uses.pure _
    refine Uses.bind (Uses.perform rfl) fun _ => Uses.bind (Uses.perform rfl) fun _ => ?_
    exact Uses.bind horder fun _ => hsoft _
  | quota maxBytes =>
    refine Uses.bind (Uses.bind (Uses.perform rfl) fun _ => ?_) fun _ => Uses.pure _
    refine Uses.ite (fun _ => Uses.pure _) fun _ => Uses.bind (Uses.perform rfl) fun _ => ?_
    exact Uses.bind horder fun _ => hsoft _
  | heal execution =>
    refine Uses.bind ?_ fun _ => Uses.perform rfl
    generalize execution.artifacts=artifacts
    induction artifacts with
    | nil => exact Uses.pure ()
    | cons artifact rest ih => exact Uses.bind (Uses.perform rfl) fun _ => ih

end Removals

section Copies
variable {Name Manifest DataKey : Type}

/-- The blob that the migration has read and not yet staged, after a call's answer. -/
def watchHand : (call : FileCall Name Manifest DataKey) → Except FileExc call.Ret → Option Name → Option Name
  | .readBytes .blobs name,.ok _,_ => some name
  | .replaceStaged _ .staging _,_,_ => none
  | _,.ok _,hand => hand
  | _,.error _,_ => none

/-- The calls of a migration, by the blob it has in hand: it writes scratch files
only, stages the blob in hand, and moves a file into place under its own name. -/
def Moving (naming : ScratchNames Name) (hand : Option Name) : FileCall Name Manifest DataKey → Prop
  | .writeBytes dir name _ => dir=.staging ∧ naming.isScratch name=true
  | .replaceStaged _ .staging name' => hand=some name'
  | .replaceStaged name .blobs name' => name'=name ∧ naming.isScratch name=false
  | _ => True

/-- The turns of a migration. -/
def moveTurn (naming : ScratchNames Name) :
    Turns (FileCall Name Manifest DataKey) FileCall.Ret FileExc (Option Name) :=
  fun hand call r hand' => Moving naming hand call ∧ hand'=watchHand call r hand

variable {naming : ScratchNames Name}

/-- The program follows from any blob in hand. -/
abbrev Moves {α : Type} (naming : ScratchNames Name) (p : FileM Name Manifest DataKey α) : Prop :=
  ∀ hand,Follows (moveTurn naming) (fun _ _ => True) p hand

/-- Calls that may come at any time. -/
theorem moves_of_uses {α : Type} {p : FileM Name Manifest DataKey α}
    (h : Uses (fun call => ∀ hand,Moving naming hand call) p) : Moves naming p := by
  induction p with
  | done r => exact fun _ => trivial
  | call op next ih => exact fun hand r => ⟨_,⟨h.1 hand,rfl⟩,ih r (h.2 r) _⟩

/-- A sequence of such programs is one. -/
theorem moves_bind {α β : Type} {p : FileM Name Manifest DataKey α} {f : α → FileM Name Manifest DataKey β}
    (h : Moves naming p) (hf : ∀ a,Moves naming (f a)) : Moves naming (p >>= f) :=
  fun hand => Follows.seq (h hand) (fun a hand' _ => hf a hand') fun _ _ _ => trivial

/-- One call that may come at any time. -/
theorem moves_file {call : FileCall Name Manifest DataKey} (h : ∀ hand,Moving naming hand call) :
    Moves naming (file call) := moves_of_uses (Uses.perform h)

/-- A branch of such programs is one. -/
theorem moves_ite {α : Type} {c : Prop} [Decidable c] {p q : FileM Name Manifest DataKey α}
    (hp : c → Moves naming p) (hq : ¬c → Moves naming q) : Moves naming (if c then p else q) :=
  fun hand => Follows.ite (fun h => hp h hand) fun h => hq h hand

/-- `rmtree` removes what is there. -/
theorem moves_rmtree (dir : Dir) : Moves naming (rmtree dir : FileM Name Manifest DataKey Unit) := by
  have hloop : ∀ names,Uses (fun call => ∀ hand,Moving naming hand call)
      (unlinkEach dir names : FileM Name Manifest DataKey Unit) := by
    intro names
    induction names with
    | nil => exact Uses.pure ()
    | cons name rest ih => exact Uses.bind (Uses.perform fun _ => trivial).attempt fun _ => ih
  refine moves_of_uses (Uses.bind (Uses.perform fun _ => trivial).attempt fun r => ?_)
  cases r with
  | error e => exact Uses.pure ()
  | ok names =>
    refine Uses.bind (hloop names) fun _ => ?_
    exact Uses.bind (Uses.perform fun _ => trivial).attempt fun _ => Uses.pure ()

/-- The store lock. -/
theorem moves_withStoreLock {α : Type} {body : FileM Name Manifest DataKey α} (h : Moves naming body) :
    Moves naming (withStoreLock body) := by
  have hrelease : Moves naming (file .releaseExclusive : FileM Name Manifest DataKey Unit) :=
    moves_file fun _ => trivial
  refine moves_bind (moves_file fun _ => trivial) fun _ hand => Follows.ensure ?_
  refine (h hand).weaken fun r hand' _ => (hrelease hand').weaken fun c _ _ => ?_
  cases c <;> trivial

/-- A blob is read, staged under its scratch name and then under its own. -/
theorem moves_stageEach {transform : Bytes → FileM Name Manifest DataKey Bytes}
    (htransform : ∀ content hand,Follows (moveTurn naming) (fun r hand' => ∀ a,r=.ok a → hand'=hand)
      (transform content) hand) (names : List Name) : Moves naming (stageEach naming transform names) := by
  induction names with
  | nil => exact fun _ => trivial
  | cons blob rest ih =>
    refine fun hand => Follows.perform_bind (fun content => ⟨_,⟨trivial,rfl⟩,?_⟩) fun e => ⟨_,⟨trivial,rfl⟩,trivial⟩
    refine Follows.seq (htransform content (some blob)) (fun out hand' heq => ?_) fun _ _ _ => trivial
    rw [heq out rfl]
    refine Follows.perform_bind (fun _ => ⟨_,⟨⟨rfl,naming.isScratch_scratch blob⟩,rfl⟩,?_⟩)
      fun e => ⟨_,⟨⟨rfl,naming.isScratch_scratch blob⟩,rfl⟩,trivial⟩
    exact Follows.perform_bind (fun _ => ⟨_,⟨rfl,rfl⟩,ih _⟩) fun e => ⟨_,⟨rfl,rfl⟩,trivial⟩

/-- The staging of all blobs. -/
theorem moves_stage {transform : Bytes → FileM Name Manifest DataKey Bytes}
    (htransform : ∀ content hand,Follows (moveTurn naming) (fun r hand' => ∀ a,r=.ok a → hand'=hand)
      (transform content) hand) : Moves naming (stage naming transform) := by
  refine moves_bind (moves_rmtree .staging) fun _ => moves_bind (moves_file fun _ => trivial) fun _ => ?_
  refine moves_bind ?_ fun blobs => moves_stageEach htransform blobs
  refine moves_bind (moves_file fun _ => trivial) fun there => moves_ite (fun _ => ?_) fun _ _ => trivial
  exact moves_bind (moves_file fun _ => trivial) fun _ _ => trivial

/-- The end of a migration. -/
theorem moves_finishCommit (marker : Marker Manifest) :
    Moves naming (finishCommit naming marker : FileM Name Manifest DataKey Unit) := by
  have hmoves : ∀ names,Moves naming (moveEach naming names : FileM Name Manifest DataKey Unit) := by
    intro names
    induction names with
    | nil => exact fun _ => trivial
    | cons staged rest ih =>
      refine moves_ite (fun _ => ih) fun hplain => moves_bind (moves_file fun _ => ⟨rfl,?_⟩) fun _ => ih
      simpa using hplain
  refine moves_bind ?_ fun _ => moves_bind ?_ fun _ => moves_file fun _ => trivial
  · refine moves_bind (moves_file fun _ => trivial) fun there => moves_ite (fun _ => ?_) fun _ _ => trivial
    refine moves_bind (moves_file fun _ => trivial) fun _ => moves_bind (moves_file fun _ => trivial) fun names => ?_
    exact moves_bind (hmoves names) fun _ => moves_rmtree .staging
  · cases marker with
    | disable => exact moves_file fun _ => trivial
    | enable manifest =>
      refine moves_bind (moves_file fun _ => trivial) fun current => ?_
      cases current with
      | none => exact moves_file fun _ => trivial
      | some present => exact fun _ => trivial

/-- `_commit`. -/
theorem moves_commit (marker : Marker Manifest) :
    Moves naming (commit naming marker : FileM Name Manifest DataKey Unit) :=
  moves_bind (moves_file fun _ => trivial) fun _ => moves_bind (moves_file fun _ => trivial) fun _ =>
    moves_finishCommit marker

/-- `_recover_locked`. -/
theorem moves_recoverLocked : Moves naming (recoverLocked naming : FileM Name Manifest DataKey Unit) := by
  refine moves_bind (moves_file fun _ => trivial) fun committing => moves_ite (fun _ => ?_) fun _ => ?_
  · exact moves_bind (moves_file fun _ => trivial) fun marker => moves_finishCommit marker
  · refine moves_bind (moves_file fun _ => trivial) fun staged => moves_ite (fun _ => ?_) fun _ _ => trivial
    exact moves_rmtree .staging

/-- The programs of a migration. -/
inductive Migration (naming : ScratchNames Name) : FileM Name Manifest DataKey Unit → Prop where
  | enable : Migration naming (enable naming)
  | disable : Migration naming (disable naming)
  | recover : Migration naming (recover naming)

/-- Every program of a migration follows its turns. -/
theorem Migration.moves {q : FileM Name Manifest DataKey Unit} (h : Migration naming q) : Moves naming q := by
  have hcrypt : ∀ {call : FileCall Name Manifest DataKey},(∀ hand,Moving naming hand call) →
      (∀ a hand,watchHand call (.ok a) hand=hand) → ∀ hand,
      Follows (moveTurn naming) (fun r hand' => ∀ a,r=.ok a → hand'=hand) (file call) hand := by
    intro call hcall hkeeps hand
    refine Follows.perform fun r => ⟨_,⟨hcall hand,rfl⟩,fun a hok => ?_⟩
    rw [hok]
    exact hkeeps a hand
  cases h with
  | enable =>
    refine moves_withStoreLock (moves_bind moves_recoverLocked fun _ => ?_)
    refine moves_bind (moves_file fun _ => trivial) fun current => ?_
    cases current with
    | some present => exact fun _ => trivial
    | none =>
      refine moves_bind (moves_file fun _ => trivial) fun envelope => moves_bind ?_ fun _ => moves_commit _
      exact moves_stage fun content => hcrypt (fun _ => trivial) fun _ _ => rfl
  | disable =>
    refine moves_withStoreLock (moves_bind moves_recoverLocked fun _ => ?_)
    refine moves_bind (moves_file fun _ => trivial) fun current => ?_
    cases current with
    | none => exact fun _ => trivial
    | some manifest =>
      refine moves_bind (moves_file fun _ => trivial) fun key => moves_bind ?_ fun _ => moves_commit _
      exact moves_stage fun content => hcrypt (fun _ => trivial) fun _ _ => rfl
  | recover =>
    refine moves_bind (moves_file fun _ => trivial) fun committing => moves_ite (fun _ => ?_) fun _ => ?_
    · exact moves_withStoreLock moves_recoverLocked
    · refine moves_bind (moves_file fun _ => trivial) fun staged => moves_ite (fun _ => ?_) fun _ _ => trivial
      exact moves_withStoreLock moves_recoverLocked

end Copies

/-- A store, the blobs removed so far, and the blob that the migration has in hand. -/
structure Removing (Manifest : Type) where
  /-- The store. -/
  store : SharedStore Manifest
  /-- The blobs removed so far. -/
  removed : List PyStr
  /-- The blob that the migration has in hand. -/
  hand : Option PyStr

section Site
variable {ι Command Manifest DataKey : Type} [DecidableEq ι]

/-- The removed blobs, after a call's answer. -/
def watchRemoved : (call : Call Command) → Except PyExc call.Ret → List PyStr → List PyStr
  | .blobRemove key,.ok _,names => key.text::names
  | _,_,names => names

/-- The migration has a copy of the blob: in hand, or staged. -/
def Removing.Copied (s : Removing Manifest) (name : PyStr) : Prop :=
  s.hand=some name ∨ (s.store.files.at .staging name).isSome=true

/-- The call removes no blob of which the migration has a copy. -/
def MeetsNoCopy (s : Removing Manifest) : Call Command → Prop
  | .blobRemove key => ¬s.Copied key.text
  | _ => True

/-- Processes that remove blobs beside one that migrates, where only `allowed` calls are made. -/
def removalSite (cipher : Cipher Manifest DataKey) (locks : LockMode) (faults : Faults Command)
    (thread : ι → ThreadId) (wiring : ι → Wiring Manifest) (allowed : Removing Manifest → Call Command → Prop) :
    Rules (Call Command) Call.Ret PyExc (fun _ : ι => Unit) (FileCall PyStr Manifest DataKey) FileCall.Ret
      FileExc Unit (Removing Manifest) where
  callers i call s r s' := allowed s call ∧
    WiredAnswers cipher locks faults (thread i) (wiring i) call s.store r s'.store ∧
    s'.removed=watchRemoved call r s.removed ∧ s'.hand=s.hand
  party call s r s' := FileAnswers cipher call s.store.files r s'.store.files ∧
    s'.store.world=s.store.world ∧ s'.removed=s.removed ∧ s'.hand=watchHand call r s.hand
  begins _ := Removal
  restarts := Migration textScratch
  begin _ s := s
  restart s := { s with hand := none }

/-- No process has begun. -/
def idleAt (store : SharedStore Manifest) : Site (Call Command) Call.Ret PyExc (fun _ : ι => Unit)
    (FileCall PyStr Manifest DataKey) FileCall.Ret FileExc Unit (Removing Manifest) :=
  (fun _ => .done (.ok ()),.done (.ok ()),⟨store,[],none⟩)

/-- No removed blob is in the store, and the migration has no copy of one. -/
structure StaysRemoved (hand : Option PyStr) (s : Removing Manifest) : Prop where
  /-- The blob in hand is the migration's. -/
  inHand : s.hand=hand
  /-- No removed blob is in the store. -/
  gone : ∀ name∈s.removed,s.store.files.at .blobs name=none
  /-- The migration has no copy of one. -/
  uncopied : ∀ name∈s.removed,textScratch.isScratch name=false → ¬s.Copied name

/-- A removal where the migration has no copy. -/
theorem StaysRemoved.remove {hand : Option PyStr} {s s' : Removing Manifest} {name : PyStr}
    (h : StaysRemoved hand s) (hfree : ¬s.Copied name)
    (hfiles : s'.store.files=s.store.files.erase .blobs name) (hremoved : s'.removed=name::s.removed)
    (hhand : s'.hand=s.hand) : StaysRemoved hand s' := by
  refine ⟨hhand.trans h.inHand,fun name' hmem => ?_,fun name' hmem hplain => ?_⟩
  · rw [hfiles,StoreFiles.at_erase]
    by_cases heq : name'=name
    · simp [heq]
    · rw [hremoved] at hmem
      have hmem' := (List.mem_cons.mp hmem).resolve_left heq
      simp [h.gone name' hmem']
  · have hcopied : s'.Copied name' ↔ s.Copied name' := by
      simp [Removing.Copied,hhand,hfiles]
    rw [hcopied]
    rw [hremoved] at hmem
    rcases List.mem_cons.mp hmem with rfl | hmem'
    · exact hfree
    · exact h.uncopied name' hmem' hplain

/-- Calls that change neither files nor removals. -/
theorem StaysRemoved.same {hand : Option PyStr} {s s' : Removing Manifest} (h : StaysRemoved hand s)
    (hfiles : s'.store.files=s.store.files) (hremoved : s'.removed=s.removed) (hhand : s'.hand=s.hand) :
    StaysRemoved hand s' := by
  refine ⟨hhand.trans h.inHand,fun name hmem => ?_,fun name hmem hplain => ?_⟩
  · rw [hfiles]
    exact h.gone name (hremoved ▸ hmem)
  · have hnot := h.uncopied name (hremoved ▸ hmem) hplain
    simpa [Removing.Copied,hhand,hfiles] using hnot

/-- Files that are gone or what they were, and nothing new in hand. -/
theorem StaysRemoved.lessened {hand hand' : Option PyStr} {s s' : Removing Manifest}
    (h : StaysRemoved hand s)
    (hfiles : ∀ dir name,s'.store.files.at dir name=s.store.files.at dir name ∨
      s'.store.files.at dir name=none) (hremoved : s'.removed=s.removed) (hhand : s'.hand=hand')
    (hkept : hand'=hand ∨ hand'=none) : StaysRemoved hand' s' := by
  refine ⟨hhand,fun name hmem => ?_,fun name hmem hplain hcopied => ?_⟩
  · rcases hfiles .blobs name with hsame | hnone
    · exact hsame.trans (h.gone name (hremoved ▸ hmem))
    · exact hnone
  · refine h.uncopied name (hremoved ▸ hmem) hplain ?_
    rcases hcopied with hin | hstaged
    · left
      rcases hkept with hkept | hkept
      · rw [h.inHand,← hkept,← hhand,hin]
      · rw [hhand,hkept] at hin
        exact nomatch hin
    · right
      rcases hfiles .staging name with hsame | hnone
      · rwa [hsame] at hstaged
      · rw [hnone] at hstaged
        exact nomatch hstaged

/-- A scratch file is no copy. -/
theorem StaysRemoved.scratched {hand hand' : Option PyStr} {s s' : Removing Manifest} {name : PyStr}
    {content : Bytes} (h : StaysRemoved hand s) (hscratch : textScratch.isScratch name=true)
    (hfiles : s'.store.files=s.store.files.write .staging name content) (hremoved : s'.removed=s.removed)
    (hhand : s'.hand=hand') (hkept : hand'=hand ∨ hand'=none) : StaysRemoved hand' s' := by
  have hother : ∀ dir name',¬(dir=.staging ∧ name'=name) →
      s'.store.files.at dir name'=s.store.files.at dir name' := by
    intro dir name' hne
    rw [hfiles]
    exact StoreFiles.at_write_ne _ _ _ _ _ hne
  refine ⟨hhand,fun name' hmem => ?_,fun name' hmem hplain hcopied => ?_⟩
  · rw [hother .blobs name' (fun heq => (nomatch heq.1))]
    exact h.gone name' (hremoved ▸ hmem)
  · have hne : ¬(Dir.staging=.staging ∧ name'=name) := by
      rintro ⟨_,rfl⟩
      rw [hscratch] at hplain
      exact nomatch hplain
    refine h.uncopied name' (hremoved ▸ hmem) hplain ?_
    rcases hcopied with hin | hstaged
    · left
      rcases hkept with hkept | hkept
      · rw [h.inHand,← hkept,← hhand,hin]
      · rw [hhand,hkept] at hin
        exact nomatch hin
    · right
      rwa [hother .staging name' hne] at hstaged

/-- The blob in hand is staged. -/
theorem StaysRemoved.staged {hand : Option PyStr} {s s' : Removing Manifest} {name name' : PyStr}
    {content : Bytes} (h : StaysRemoved hand s) (hname : hand=some name')
    (hfiles : s'.store.files=(s.store.files.erase .staging name).write .staging name' content)
    (hremoved : s'.removed=s.removed) (hhand : s'.hand=none) : StaysRemoved none s' := by
  refine ⟨hhand,fun name₁ hmem => ?_,fun name₁ hmem hplain hcopied => ?_⟩
  · have hother : ¬(Dir.blobs=.staging ∧ name₁=name') := fun heq => (by cases heq.1)
    rw [hfiles,StoreFiles.at_write_ne _ _ _ _ _ hother,StoreFiles.at_erase]
    simpa using h.gone name₁ (hremoved ▸ hmem)
  · have hnot := h.uncopied name₁ (hremoved ▸ hmem) hplain
    have hne : name₁≠name' := by
      rintro rfl
      exact hnot (Or.inl (h.inHand.trans hname))
    rcases hcopied with hin | hstaged
    · rw [hhand] at hin
      cases hin
    · rw [hfiles,StoreFiles.at_write_ne _ _ _ _ _ (fun heq => hne heq.2),StoreFiles.at_erase] at hstaged
      split at hstaged
      next => cases hstaged
      next => exact hnot (Or.inr hstaged)

/-- A staged blob is moved into place. -/
theorem StaysRemoved.moved {hand : Option PyStr} {s s' : Removing Manifest} {name : PyStr} {content : Bytes}
    (h : StaysRemoved hand s) (hplain : textScratch.isScratch name=false)
    (hat : s.store.files.at .staging name=some content)
    (hfiles : s'.store.files=(s.store.files.erase .staging name).write .blobs name content)
    (hremoved : s'.removed=s.removed) (hhand : s'.hand=hand) : StaysRemoved hand s' := by
  refine ⟨hhand,fun name' hmem => ?_,fun name' hmem hplain' hcopied => ?_⟩
  · have hne : name'≠name := by
      rintro rfl
      have hnot := h.uncopied name' (hremoved ▸ hmem) hplain
      exact hnot (Or.inr (by rw [hat]; rfl))
    rw [hfiles,StoreFiles.at_write_ne _ _ _ _ _ (fun heq => hne heq.2),StoreFiles.at_erase]
    simpa using h.gone name' (hremoved ▸ hmem)
  · refine h.uncopied name' (hremoved ▸ hmem) hplain' ?_
    rcases hcopied with hin | hstaged
    · exact Or.inl (h.inHand.trans (hhand.symm.trans hin))
    · right
      have hother : ¬(Dir.staging=.blobs ∧ name'=name) := fun heq => (by cases heq.1)
      rw [hfiles,StoreFiles.at_write_ne _ _ _ _ _ hother,StoreFiles.at_erase] at hstaged
      split at hstaged
      next => cases hstaged
      next => exact hstaged

/-- Every turn of the migration keeps removed blobs removed. -/
theorem StaysRemoved.turn {cipher : Cipher Manifest DataKey} {hand hand' : Option PyStr}
    {s s' : Removing Manifest} {call : FileCall PyStr Manifest DataKey} {r : Except FileExc call.Ret}
    (h : StaysRemoved hand s) (hturn : moveTurn textScratch hand call r hand')
    (hcall : FileAnswers cipher call s.store.files r s'.store.files) (hremoved : s'.removed=s.removed)
    (hhand : s'.hand=watchHand call r s.hand) : StaysRemoved hand' s' := by
  obtain ⟨hmoving,hhand'⟩ := hturn
  rw [h.inHand,← hhand'] at hhand
  have herror : ∀ e,r=.error e → hand'=none := by
    rintro e rfl
    rw [hhand']
    cases call <;> try rfl
    case readBytes dir name => cases dir <;> rfl
    case replaceStaged name dir name' => cases dir <;> rfl
  have hsame : ∀ {fs : StoreFiles PyStr Manifest},s'.store.files=fs →
      (∀ dir name,fs.at dir name=s.store.files.at dir name) → (hand'=hand ∨ hand'=none) →
      StaysRemoved hand' s' := by
    intro fs hfs hat hkept
    refine h.lessened (fun dir name => Or.inl ?_) hremoved hhand hkept
    rw [hfs]
    exact hat dir name
  generalize hfs : s'.store.files=fs at hcall
  cases hcall with
  | fault => exact hsame hfs (fun _ _ => rfl) (Or.inr (herror _ rfl))
  | torn =>
    obtain ⟨rfl,hscratch⟩ := hmoving
    exact h.scratched hscratch hfs hremoved hhand (Or.inr (herror _ rfl))
  | writeBytes hdir =>
    obtain ⟨rfl,hscratch⟩ := hmoving
    exact h.scratched hscratch hfs hremoved hhand (Or.inl hhand')
  | mkdir => exact hsame hfs (fun dir' name => StoreFiles.at_mkdir _ _ _ _) (Or.inl hhand')
  | unlink =>
    refine h.lessened (fun dir' name' => ?_) hremoved hhand (Or.inl hhand')
    rw [hfs,StoreFiles.at_erase]
    split
    next => exact Or.inr rfl
    next => exact Or.inl rfl
  | rmdir hdir hempty =>
    refine h.lessened (fun dir' name' => ?_) hremoved hhand (Or.inl hhand')
    rw [hfs]
    simp only [StoreFiles.at,StoreFiles.setDir_dir]
    split
    next => exact Or.inr rfl
    next => exact Or.inl rfl
  | rmdirRaised hnot => exact hsame hfs (fun _ _ => rfl) (Or.inr (herror _ rfl))
  | scandirMissing hdir => exact hsame hfs (fun _ _ => rfl) (Or.inr (herror _ rfl))
  | @readBytes _ dir name content hat =>
    cases dir with
    | staging => exact hsame hfs (fun _ _ => rfl) (Or.inl hhand')
    | blobs =>
      have hread : hand'=some name := hhand'
      refine ⟨hhand,fun name' hmem => ?_,fun name' hmem hplain hcopied => ?_⟩
      · rw [hfs]
        exact h.gone name' (hremoved ▸ hmem)
      · rcases hcopied with hin | hstaged
        · rw [hhand,hread] at hin
          cases hin
          rw [h.gone _ (hremoved ▸ hmem)] at hat
          cases hat
        · rw [hfs] at hstaged
          exact h.uncopied name' (hremoved ▸ hmem) hplain (Or.inr hstaged)
  | @replaceStaged _ name name' dir content hat hdir =>
    cases dir with
    | staging =>
      have hnone : hand'=none := hhand'
      subst hnone
      exact h.staged hmoving hfs hremoved hhand
    | blobs =>
      obtain ⟨rfl,hplain⟩ := hmoving
      have hsame : hand'=hand := hhand'
      subst hsame
      exact h.moved hplain hat hfs hremoved hhand
  | _ => exact hsame hfs (fun _ _ => rfl) (Or.inl hhand')

/-- Removals that meet no copy, and the turns of the migration, keep removed blobs removed. -/
theorem staysRemoved_keeps {cipher : Cipher Manifest DataKey} {locks : LockMode} {faults : Faults Command}
    {thread : ι → ThreadId} {wiring : ι → Wiring Manifest} :
    SiteKeeps (removalSite cipher locks faults thread wiring MeetsNoCopy)
      (fun _ _ call _ _ => writesNoBlob call=true) (moveTurn textScratch) () none
      (fun _ hand s => StaysRemoved hand s) where
  caller := by
    intro _ hand i call r _ s s' hwrites ⟨hallowed,hcall,hremoved,hhand⟩ h
    generalize hs : s'.store=store at hcall
    cases hcall with
    | port hports hanswers =>
      have hsame : s'.removed=s.removed := by
        rw [hremoved]
        cases call with
        | blobRemove key => exact nomatch hports
        | _ => rfl
      exact h.same (by rw [hs]) hsame hhand
    | put => exact nomatch hwrites
    | remove => exact h.remove hallowed (by rw [hs]) hremoved hhand
    | fault =>
      have hsame : s'.removed=s.removed := by
        rw [hremoved]
        cases call <;> rfl
      exact h.same (by rw [hs]) hsame hhand
    | _ => exact h.same (by rw [hs]) hremoved hhand
  party := by
    intro _ hand call r hand' s s' hturn ⟨hcall,_,hremoved,hhand⟩ h
    exact h.turn hturn hcall hremoved hhand
  begin := fun _ _ _ _ h => h
  restart := fun _ hand s h => h.lessened (fun _ _ => Or.inl rfl) rfl rfl (Or.inr rfl)

end Site

instance {Command Manifest : Type} (s : Removing Manifest) (call : Call Command) :
    Decidable (MeetsNoCopy s call) := by
  cases call <;> unfold MeetsNoCopy <;> try infer_instance
  unfold Removing.Copied
  infer_instance

/-- The rules of one process that removes blobs of a plain store. -/
abbrev oneRemover (allowed : Removing UInt8 → Call SmallestCommand → Prop) :
    Rules (Call SmallestCommand) Call.Ret PyExc (fun _ : Unit => Unit) (FileCall PyStr UInt8 UInt8)
      FileCall.Ret FileExc Unit (Removing UInt8) :=
  removalSite prefixCipher .exclusive noFaults (fun _ => 0) (fun _ => .plain) allowed

section Runs
variable (allowed : Removing UInt8 → Call SmallestCommand → Prop) [∀ s call,Decidable (allowed s call)]

/-- A schedule's entry of the process that removes. -/
def removerCall : Handler (Call SmallestCommand) Call.Ret PyExc (Removing UInt8) := fun call s =>
  if allowed s call then
    (wiredAnswers prefixCipher (fun key blob => key::blob) .plain
      (answerWith .exclusive 0 0 (.ok { exitCode := 0, stdout := pyStr "o" }) ⟨8⟩) call s.store).map
      fun answer => (answer.1,{ s with store := answer.2, removed := watchRemoved call answer.1 s.removed })
  else none

/-- A schedule's entry of the migration. -/
def migrationCall : Handler (FileCall PyStr UInt8 UInt8) FileCall.Ret FileExc (Removing UInt8) := fun call s =>
  (prefixAnswers call s.store.files).map fun answer =>
    (answer.1,{ s with store := { s.store with files := answer.2 }, hand := watchHand call answer.1 s.hand })

/-- A purge between the migration's first `n` calls and the rest of them. -/
def purgeAfter (n : ℕ) : List (Move (Call SmallestCommand) Call.Ret PyExc (fun _ : Unit => Unit)
    (FileCall PyStr UInt8 UInt8) FileCall.Ret FileExc Unit (Removing UInt8)) :=
  [.restart (enable textScratch)] ++ List.replicate n (.party migrationCall) ++
    [.begin () (do let _ ← purgeByKey ⟨0⟩ false; return ())] ++
    List.replicate 40 (.caller () (removerCall allowed)) ++ List.replicate 60 (.party migrationCall)

/-- The purge and the migration are run as the rules allow. -/
theorem purgeAfter_respects (n : ℕ) : ∀ move∈purgeAfter allowed n,move.Respects (oneRemover allowed) := by
  have hremover : (removerCall allowed).Respects ((oneRemover allowed).callers ()) := by
    intro call s r s' h
    simp only [removerCall] at h
    split at h
    next hallowed =>
      obtain ⟨answer,hanswer,heq⟩ := Option.map_eq_some_iff.mp h
      cases heq
      exact ⟨hallowed,wiredAnswers_respects prefixCipher_opens (answerWith_respects 0 _ ⟨8⟩) _ _ _ _ hanswer,
        rfl,rfl⟩
    next => exact nomatch h
  have hmigration : migrationCall.Respects (oneRemover allowed).party := by
    intro call s r s' h
    obtain ⟨answer,hanswer,heq⟩ := Option.map_eq_some_iff.mp h
    cases heq
    exact ⟨fileAnswers_respects prefixCipher prefixCipher_opens _ _ _ _ hanswer,rfl,rfl,rfl⟩
  intro move hmem
  simp only [purgeAfter,List.mem_append,List.mem_singleton,List.mem_replicate] at hmem
  rcases hmem with (((rfl | ⟨_,rfl⟩) | rfl) | ⟨_,rfl⟩) | ⟨_,rfl⟩
  · exact .enable
  · exact hmigration
  · exact .byKey ⟨0⟩ false
  · exact hremover
  · exact hmigration

end Runs

/-- The store of one recorded answer, its blobs in files. -/
def recordedStore : SharedStore UInt8 where
  world := reportedOnce none
  files :=
    { blobs := some ((reportedOnce none).blobs.entries.map fun entry => ⟨entry.1.text,entry.2⟩).toAList
      staging := none
      marker := none
      markerScratch := none
      manifest := none
      executions := true
      registry := true }

/-- The site after the run. -/
def purgedAfter (allowed : Removing UInt8 → Call SmallestCommand → Prop)
    [∀ s call,Decidable (allowed s call)] (n : ℕ) : Site (Call SmallestCommand) Call.Ret PyExc
      (fun _ : Unit => Unit) (FileCall PyStr UInt8 UInt8) FileCall.Ret FileExc Unit (Removing UInt8) :=
  driveSite (oneRemover allowed) (purgeAfter allowed n) (idleAt recordedStore)

end GenericMlCache.RemovedBlobs
