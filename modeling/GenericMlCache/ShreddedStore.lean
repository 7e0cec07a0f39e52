import GenericMlCache.AnsweredRuns
import GenericMlCache.PurgedReports
import GenericMlCache.StoreSoundness
import GenericMlCache.WiredStore

/-!
# Stores whose invalidation stops

Invalidation deletes the manifest, then the blobs, then the databases, and may
stop between any two deletions. A store that lost its manifest only is reopened
as a plain one, and its ciphertext is served as content. When that happens, and
when it does not, depends on what is left at the stop.
-/

namespace GenericMlCache.ShreddedStore

open CallProgram CallAutomaton PythonText ExecutionModel SqliteStore ExecutionRepository ExecutionQueries
open RepositoryCalls ServicePorts CachedExecution ExecuteCalls AnsweredRuns StoreEncryptor MigrationRecovery
open WiredStore ServiceOperations StoreSoundness PurgedReports

section Files
variable {Manifest DataKey : Type}

/-- What a file call may do where a deletion may also fail silently. -/
inductive SilentAnswers (cipher : Cipher Manifest DataKey) :
    Sem (FileCall PyStr Manifest DataKey) FileCall.Ret FileExc (StoreFiles PyStr Manifest) where
  | answered {fs fs' : StoreFiles PyStr Manifest} {call : FileCall PyStr Manifest DataKey}
      {r : Except FileExc call.Ret} (h : FileAnswers cipher call fs r fs') : SilentAnswers cipher call fs r fs'
  | silent {fs : StoreFiles PyStr Manifest} {call : FileCall PyStr Manifest DataKey} {e : FileExc}
      (h : isRemoval call=true) : SilentAnswers cipher call fs (.error e) fs

/-- The calls that write no blob, no marker and no manifest. -/
def isWiping : FileCall PyStr Manifest DataKey → Bool
  | .replaceMarker | .saveManifest _ | .writeBytes _ _ _ | .replaceStaged _ _ _ => false
  | _ => true

/-- The calls of a recovery that finds no marker. -/
def isUnstaging : FileCall PyStr Manifest DataKey → Bool
  | .markerExists | .dirExists _ | .acquireExclusive | .releaseExclusive => true
  | .scandir dir | .unlink dir _ | .rmdir dir => decide (dir=.staging)
  | _ => false

/-- What is left of a store: blobs that were there, and its manifest or none. -/
structure Remains (fs fs' : StoreFiles PyStr Manifest) : Prop where
  /-- There is no marker. -/
  marker : fs'.marker=none
  /-- Each blob is as it was, or gone. -/
  blobs : ∀ name,fs'.at .blobs name=fs.at .blobs name ∨ fs'.at .blobs name=none
  /-- So is the manifest. -/
  manifest : fs'.manifest=fs.manifest ∨ fs'.manifest=none

/-- The same store but for its staging directory. -/
structure Unstaged (fs fs' : StoreFiles PyStr Manifest) : Prop where
  /-- There is no marker. -/
  marker : fs'.marker=none
  /-- The blobs are the same. -/
  blobs : ∀ name,fs'.at .blobs name=fs.at .blobs name
  /-- The manifest is the same. -/
  manifest : fs'.manifest=fs.manifest
  /-- The execution database is there or not, as before. -/
  executions : fs'.executions=fs.executions

variable {cipher : Cipher Manifest DataKey} {fs fs' fs'' : StoreFiles PyStr Manifest}

/-- A wiping call leaves blobs that were there, and the manifest or none. -/
theorem Remains.step {call : FileCall PyStr Manifest DataKey} {r : Except FileExc call.Ret}
    (hcall : isWiping call=true) (h : SilentAnswers cipher call fs' r fs'') (hfs : Remains fs fs') :
    Remains fs fs'' := by
  cases h with
  | silent => exact hfs
  | answered h =>
    cases h with
    | unlink =>
      refine ⟨by simpa using hfs.marker,fun name => ?_,by simpa using hfs.manifest⟩
      rw [StoreFiles.at_erase]
      split
      next => exact Or.inr rfl
      next => exact hfs.blobs name
    | mkdir =>
      refine ⟨by simpa using hfs.marker,fun name => ?_,by simpa using hfs.manifest⟩
      rw [StoreFiles.at_mkdir]
      exact hfs.blobs name
    | rmdir hdir hempty =>
      refine ⟨by simpa using hfs.marker,fun name => ?_,by simpa using hfs.manifest⟩
      simp only [StoreFiles.at,StoreFiles.setDir_dir]
      split
      next => exact Or.inr rfl
      next => exact hfs.blobs name
    | unlinkMarker => exact ⟨rfl,hfs.blobs,hfs.manifest⟩
    | deleteManifest => exact ⟨hfs.marker,hfs.blobs,Or.inr rfl⟩
    | replaceMarker | saveManifest | writeBytes | replaceStaged | torn => cases hcall
    | _ => exact ⟨hfs.marker,hfs.blobs,hfs.manifest⟩

/-- A removal of what was staged leaves the rest of the store. -/
theorem Unstaged.step {call : FileCall PyStr Manifest DataKey} {r : Except FileExc call.Ret}
    (hcall : isUnstaging call=true) (h : SilentAnswers cipher call fs' r fs'') (hfs : Unstaged fs fs') :
    Unstaged fs fs'' := by
  cases h with
  | silent => exact hfs
  | answered h =>
    cases h with
    | @unlink _ dir name =>
      have hdir : dir=.staging := by simpa [isUnstaging] using hcall
      subst hdir
      refine ⟨hfs.marker,fun name' => ?_,hfs.manifest,hfs.executions⟩
      rw [StoreFiles.at_erase]
      simpa using hfs.blobs name'
    | @rmdir _ dir _ hthere hempty =>
      have hdir : dir=.staging := by simpa [isUnstaging] using hcall
      subst hdir
      exact ⟨hfs.marker,hfs.blobs,hfs.manifest,hfs.executions⟩
    | fault | markerExists | dirExists | acquireExclusive | releaseExclusive | scandir | scandirMissing
    | rmdirRaised => exact hfs
    | _ => cases hcall

section Recovery
variable {C : StoreFiles PyStr Manifest → Prop}

/-- The loop of a directory's removal makes the calls of one. -/
theorem uses_rmtree {P : FileCall PyStr Manifest DataKey → Prop} {dir : Dir} (hscan : P (.scandir dir))
    (hunlink : ∀ name,P (.unlink dir name)) (hrmdir : P (.rmdir dir)) :
    Uses P (rmtree dir : FileM PyStr Manifest DataKey Unit) := by
  have hloop : ∀ names,Uses P (unlinkEach dir names : FileM PyStr Manifest DataKey Unit) := by
    intro names
    induction names with
    | nil => exact Uses.pure ()
    | cons name rest ih => exact Uses.bind (Uses.perform (hunlink name)).attempt fun _ => ih
  refine Uses.bind (Uses.perform hscan).attempt fun r => ?_
  cases r with
  | error e => exact Uses.pure ()
  | ok names =>
    refine Uses.bind (hloop names) fun _ => ?_
    exact Uses.bind (Uses.perform hrmdir).attempt fun _ => Uses.pure ()

/-- A recovery that finds no marker removes what was staged, at most. -/
theorem safe_recoverLocked_unmarked (hmarker : ∀ fs,C fs → fs.marker=none)
    (hkeep : ∀ call fs r fs',isUnstaging call=true → SilentAnswers cipher call fs r fs' → C fs → C fs')
    (hc : C fs) : Safe (SilentAnswers cipher) C (fun _ _ => True) (recoverLocked textScratch) fs := by
  have hunstage : ∀ {α : Type} {p : FileM PyStr Manifest DataKey α} {fs : StoreFiles PyStr Manifest},C fs →
      Uses (fun call => isUnstaging call=true) p → Safe (SilentAnswers cipher) C (fun _ _ => True) p fs :=
    fun hc hp => Safe.of_uses hp hkeep hc
  refine Safe.perform_bind hc (fun committing fs₁ hexists => ?_) fun e fs₁ hexists =>
    ⟨hkeep _ _ _ _ rfl hexists hc,trivial⟩
  have hc₁ := hkeep _ _ _ _ rfl hexists hc
  cases hexists with
  | answered h =>
    cases h with
    | markerExists =>
      refine Safe.ite (fun hyes => ?_) fun _ => hunstage hc₁ ?_
      · rw [hmarker fs hc] at hyes
        exact nomatch hyes
      · refine Uses.bind (Uses.perform rfl) fun staged => Uses.ite (fun _ => ?_) fun _ => Uses.pure ()
        exact uses_rmtree rfl (fun _ => rfl) rfl

/-- A recovery of a store without a marker leaves it but for what was staged. -/
theorem unstaged_recover {r : Except FileExc Unit} (hmarker : fs.marker=none)
    (h : Ends (SilentAnswers cipher) (recover textScratch) fs r fs') : Unstaged fs fs' := by
  have hkeep : ∀ call fs₁ r fs₂,isUnstaging call=true → SilentAnswers cipher call fs₁ r fs₂ →
      Unstaged fs fs₁ → Unstaged fs fs₂ := fun _ _ _ _ hcall hans hfs => hfs.step hcall hans
  have hlocked : ∀ {fs₁ : StoreFiles PyStr Manifest},Unstaged fs fs₁ → Safe (SilentAnswers cipher) (Unstaged fs)
      (fun _ _ => True) (withStoreLock (recoverLocked textScratch)) fs₁ := by
    intro fs₁ hfs₁
    refine Safe.perform_bind hfs₁ (fun _ fs₂ hans => ?_) fun e fs₂ hans => ⟨hkeep _ _ _ _ rfl hans hfs₁,trivial⟩
    have hlocked := safe_recoverLocked_unmarked (fun fs hfs => hfs.marker) hkeep (hkeep _ _ _ _ rfl hans hfs₁)
    refine Safe.ensure (hlocked.mono fun r fs₃ hfs₃ _ => Safe.perform hfs₃ fun c fs₄ hans => ?_)
    refine ⟨hkeep _ _ _ _ rfl hans hfs₃,?_⟩
    cases c <;> trivial
  have hstart : Unstaged fs fs := ⟨hmarker,fun _ => rfl,rfl,rfl⟩
  have hsafe : Safe (SilentAnswers cipher) (Unstaged fs) (fun _ _ => True) (recover textScratch) fs := by
    refine Safe.perform_bind hstart (fun (committing : Bool) fs₁ hans => ?_) fun e fs₁ hans =>
      ⟨hkeep _ _ _ _ rfl hans hstart,trivial⟩
    have hfs₁ := hkeep _ _ _ _ rfl hans hstart
    refine Safe.ite (fun _ => hlocked hfs₁) fun _ => ?_
    refine Safe.perform_bind hfs₁ (fun (staged : Bool) fs₂ hans => ?_) fun e fs₂ hans =>
      ⟨hkeep _ _ _ _ rfl hans hfs₁,trivial⟩
    have hfs₂ := hkeep _ _ _ _ rfl hans hfs₁
    exact Safe.ite (fun _ => hlocked hfs₂) fun _ => Safe.pure hfs₂ trivial
  exact hsafe.state h

/-- Wherever an invalidation stops, what is left was there. -/
theorem remains_invalidate {q : FileM PyStr Manifest DataKey Unit} (hmarker : fs.marker=none)
    (h : Reach (SilentAnswers cipher) (invalidate textScratch) fs q fs') : Remains fs fs' := by
  have hkeep : ∀ call fs₁ r fs₂,isWiping call=true → SilentAnswers cipher call fs₁ r fs₂ →
      Remains fs fs₁ → Remains fs fs₂ := fun _ _ _ _ hcall hans hfs => hfs.step hcall hans
  have hstart : Remains fs fs := ⟨hmarker,fun _ => Or.inl rfl,Or.inl rfl⟩
  have hrest : Uses (fun call => isWiping call=true) (do
      file .deleteManifest
      rmtree .blobs
      rmtree .staging
      file .unlinkMarker
      file .unlinkExecutions
      file .unlinkRegistry : FileM PyStr Manifest DataKey Unit) := by
    refine Uses.bind (Uses.perform rfl) fun _ => Uses.bind (uses_rmtree rfl (fun _ => rfl) rfl) fun _ => ?_
    refine Uses.bind (uses_rmtree rfl (fun _ => rfl) rfl) fun _ => Uses.bind (Uses.perform rfl) fun _ => ?_
    exact Uses.bind (Uses.perform rfl) fun _ => Uses.perform rfl
  have hsafe : Safe (SilentAnswers cipher) (Remains fs) (fun _ _ => True) (invalidate textScratch) fs := by
    refine Safe.perform_bind hstart (fun _ fs₁ hans => ?_) fun e fs₁ hans =>
      ⟨hkeep _ _ _ _ rfl hans hstart,trivial⟩
    have hunstage : ∀ call fs₁ r fs₂,isUnstaging call=true → SilentAnswers cipher call fs₁ r fs₂ →
        Remains fs fs₁ → Remains fs fs₂ := by
      intro call fs₁ r fs₂ hcall hans hfs
      refine hfs.step ?_ hans
      cases call <;> first | rfl | exact nomatch hcall
    have hrecovered := safe_recoverLocked_unmarked (fun fs hfs => hfs.marker) hunstage
      (hkeep _ _ _ _ rfl hans hstart)
    have hbody : Safe (SilentAnswers cipher) (Remains fs) (fun _ _ => True) (invalidateLocked textScratch) fs₁ :=
      Safe.seq hrecovered (fun _ fs₂ hfs₂ _ => Safe.of_uses hrest hkeep hfs₂) fun _ _ _ _ => trivial
    refine Safe.ensure (hbody.mono fun r fs₃ hfs₃ _ => Safe.perform hfs₃ fun c fs₄ hans => ?_)
    refine ⟨hkeep _ _ _ _ rfl hans hfs₃,?_⟩
    cases c <;> trivial
  exact hsafe.state h

end Recovery

end Files

/-- Every current row of the key is the execution's. -/
def OnlyCurrent (key : ExecutionKey) (id : ExecutionId) (db : Db) : Prop :=
  ∀ row∈db.executions,row.executionKey=key → row.servable=true → row.executionId=id

section Currency
variable {key : ExecutionKey} {id : ExecutionId} {db db' : Db}

/-- An update that makes no row servable. -/
theorem OnlyCurrent.update {p : ExecutionRow → Bool} {f : MutableColumns → MutableColumns}
    (h : OnlyCurrent key id db) (hf : ∀ row∈db.executions,p row=true →
      (f row.toMutableColumns).servable=true → row.servable=true) :
    OnlyCurrent key id (db.updateWhere p f) := by
  intro row hrow hkey hserv
  obtain ⟨r,hr,rfl⟩ := Db.mem_updateWhere.mp hrow
  by_cases hp : p r=true
  · simp only [if_pos hp] at hkey hserv ⊢
    exact h r hr hkey (hf r hr hp hserv)
  · simp only [if_neg hp] at hkey hserv ⊢
    exact h r hr hkey hserv

/-- No call that serving makes brings another current row. -/
theorem OnlyCurrent.transact {now : Timestamp} {call : StoreCall} {a : call.Ret} {Command : Type}
    (hcall : isServing (.store call : Call Command)=true) (ht : transact now db call=.ok (a,db'))
    (h : OnlyCurrent key id db) : OnlyCurrent key id db' := by
  have hmark : ∀ {markedId : ExecutionId} {blobKey : BlobKey} {mark : ArtifactRow → ArtifactRow},
      markArtifacts markedId blobKey mark db=.ok db' → OnlyCurrent key id db' := by
    intro markedId blobKey mark hm
    rw [(markArtifacts_ok hm).2]
    exact h.update fun _ _ _ hserv => hserv
  cases call with
  | save | recordOutcome | finalizeOutputPersisted | hardDeleteExecution => exact nomatch hcall
  | persistArtifact persistedId artifact =>
    rw [(persistArtifact_ok (commit_ok.mp ht)).2]
    exact h.update fun _ _ _ hserv => hserv
  | markArtifactsStored => exact hmark (commit_ok.mp ht)
  | markArtifactsFailed =>
    obtain ⟨_,_,hm⟩ := ok_of_bind (commit_ok.mp ht)
    exact hmark hm
  | removeExecution removed =>
    cases Except.ok.inj (commit_ok.mp ht)
    exact fun row hrow => h row (mem_removeExecution.mp hrow).1
  | addTags taggedKey tags =>
    rcases addTags_ok (commit_ok.mp ht) with rfl | ⟨taggedId,rfl⟩
    · exact h
    · exact h.update fun _ _ _ hserv => hserv
  | addInputArtifacts filledKey documents =>
    rcases addInputArtifacts_ok (commit_ok.mp ht) with rfl | ⟨row,_,_,rfl⟩
    · exact h
    · exact h.update fun _ _ _ hserv => hserv
  | softPurgeExecution purged =>
    cases Except.ok.inj (commit_ok.mp ht)
    refine h.update fun _ _ _ hserv => ?_
    exact nomatch ((MutableColumns.servable_iff _).mp hserv).2.1
  | _ =>
    rw [transact_read rfl ht]
    exact h

/-- Once the execution is removed, nothing is current. -/
theorem OnlyCurrent.removed (h : OnlyCurrent key id db) :
    (removeExecution id db).currentRow key=none := by
  refine Db.currentRow_eq_none.mpr fun row hrow hkey => ?_
  obtain ⟨hmem,hid⟩ := mem_removeExecution.mp hrow
  by_contra hserv
  exact hid (h row hmem hkey (by simpa using hserv))

end Currency

/-- Every artifact holds the content that was recorded for it. -/
def Genuine (recorded : BlobKey → Option Bytes) (artifacts : List Artifact) : Prop :=
  ∀ a∈artifacts,∀ content,a.content=some content → recorded a.blobKey=some content

section Serving
variable {Command Manifest DataKey : Type} {cipher : Cipher Manifest DataKey} {locks : LockMode}
variable {faults : Faults Command} {thread : ThreadId} {wiring : Wiring Manifest}

/-- The artifact with what a process reads of its blob's file. -/
def ReadsFile (cipher : Cipher Manifest DataKey) (wiring : Wiring Manifest) (s : SharedStore Manifest)
    (a b : Artifact) : Prop :=
  ∃ manifest content plain,wiring.manifest=some manifest ∧
    s.files.at .blobs a.blobKey.text=some content ∧ opened cipher manifest content=some plain ∧
    b={ a with content := some plain }

/-- A call that raised left the store as it was. -/
theorem wired_error {call : Call Command} {s s' : SharedStore Manifest} {e : PyExc}
    (h : WiredAnswers cipher locks faults thread wiring call s (.error e) s') : s'=s := by
  cases h with
  | port _ hanswers => rw [answers_error hanswers]
  | _ => rfl

/-- A repository call is answered by the database. -/
theorem wired_store {call : StoreCall} {s s' : SharedStore Manifest} {r : Except PyExc call.Ret}
    (h : WiredAnswers cipher locks faults thread wiring (.store call) s r s') :
    (∃ now a db,transact now s.world.db call=.ok (a,db) ∧ r=.ok a ∧
      s'={ s with world := { s.world with db := db } }) ∨ ∃ e,r=.error e ∧ s'=s := by
  cases h with
  | port _ hanswers =>
    rcases answers_store hanswers with ⟨now,a,db,ht,hr,rfl⟩ | ⟨e,hr,rfl,_⟩
    · exact Or.inl ⟨now,a,db,ht,hr,rfl⟩
    · exact Or.inr ⟨e,hr,rfl⟩
  | fault hcall => exact nomatch hcall

/-- No call that serving makes brings another current row. -/
theorem wired_onlyCurrent {key : ExecutionKey} {id : ExecutionId} (call : Call Command)
    (s : SharedStore Manifest) (r : Except PyExc call.Ret) (s' : SharedStore Manifest)
    (hcall : isServing call=true) (h : WiredAnswers cipher locks faults thread wiring call s r s')
    (hs : OnlyCurrent key id s.world.db) : OnlyCurrent key id s'.world.db := by
  cases call with
  | store call =>
    rcases wired_store h with ⟨now,a,db,ht,_,rfl⟩ | ⟨e,_,rfl⟩
    · exact hs.transact hcall ht
    · exact hs
  | _ =>
    cases h with
    | port _ hanswers =>
      cases hanswers with
      | _ => exact hs
    | _ => exact hs

/-- What hydration returns is read from the files, which it leaves. -/
theorem safe_hydrateArtifacts (artifacts : List Artifact) (s : SharedStore Manifest) :
    Safe (WiredAnswers cipher locks faults thread wiring) (fun s' => s'=s)
      (fun r _ => ∀ served,r=.ok served → List.Forall₂ (ReadsFile cipher wiring s) artifacts served)
      (hydrateArtifacts artifacts : ServiceM Command (List Artifact)) s := by
  induction artifacts with
  | nil =>
    refine Safe.pure (C := fun s' => s'=s) rfl fun served hok => ?_
    cases hok
    exact .nil
  | cons artifact rest ih =>
    have hone : Safe (WiredAnswers cipher locks faults thread wiring) (fun s' => s'=s)
        (fun r _ => ∀ b,r=.ok b → ReadsFile cipher wiring s artifact b)
        (hydrateArtifact artifact : ServiceM Command Artifact) s := by
      refine Safe.perform_bind (C := fun s' => s'=s) rfl (fun found s' hans => ?_) fun e s' hans =>
        ⟨wired_error hans,fun b hok => (nomatch hok)⟩
      cases hans with
      | port hcall => exact nomatch hcall
      | getMissing => exact Safe.raise (C := fun s' => s'=s) rfl fun b hok => (nomatch hok)
      | get hwiring hat hopens =>
        refine Safe.pure (C := fun s' => s'=s) rfl fun b hok => ?_
        cases hok
        exact ⟨_,_,_,hwiring,hat,hopens,rfl⟩
    refine Safe.seq hone (fun b s' hs hb => ?_) fun e s' _ _ => fun served hok => (nomatch hok)
    subst hs
    refine Safe.seq ih (fun others s' hs hothers => ?_) fun e s' _ _ => fun served hok => (nomatch hok)
    subst hs
    refine Safe.pure (C := fun s'' => s''=s') rfl fun served hok => ?_
    cases hok
    exact .cons (hb b rfl) (hothers others rfl)

/-- Whatever can be read of the key's current execution is what was recorded. -/
structure Unspoiled (recorded : BlobKey → Option Bytes) (cipher : Cipher Manifest DataKey) (wiring : Wiring Manifest)
    (key : ExecutionKey) (s : SharedStore Manifest) : Prop where
  /-- The key has one current execution. -/
  one : ∃ id,OnlyCurrent key id s.world.db
  /-- What is read of it is genuine. -/
  reads : ∀ current served,findCurrent key s.world.db=.ok (some current) →
    List.Forall₂ (ReadsFile cipher wiring s) current.artifacts served → Genuine recorded served

variable {recorded : BlobKey → Option Bytes} {fingerprint : Bytes → Digest} {key : ExecutionKey}
  {s : SharedStore Manifest} {service : CachedMlExecutionService Command} {command : Command}

/-- A key without a current row serves nothing. -/
theorem unspoiled_of_absent (h : s.world.db.currentRow key=none) :
    Unspoiled recorded cipher wiring key s := by
  refine ⟨⟨⟨0⟩,fun row hrow hkey hserv => ?_⟩,fun current served hfound => ?_⟩
  · rw [Db.currentRow_eq_none.mp h row hrow hkey] at hserv
    exact nomatch hserv
  · rw [findCurrent_of_none h] at hfound
    exact nomatch hfound

variable (locks faults thread fingerprint service command)

/-- A hit is served with what was recorded. Afterwards its row is the only current one, if any is. -/
theorem safe_serveHit {current : MlExecution} (hs : Unspoiled recorded cipher wiring key s)
    (hfound : findCurrent key s.world.db=.ok (some current)) :
    Safe (WiredAnswers cipher locks faults thread wiring)
      (fun s' => OnlyCurrent key current.executionId s'.world.db)
      (fun r _ => ∀ served,r=.ok served → Genuine recorded served.artifacts)
      (serveHit service fingerprint key command current) s := by
  have honly : OnlyCurrent key current.executionId s.world.db := by
    obtain ⟨row,hrow,hload⟩ := findCurrent_some hfound
    obtain ⟨hmem,hkey,hserv⟩ := Db.currentRow_mem hrow
    obtain ⟨id,hid⟩ := hs.one
    rw [(loadExecution_ok hload).1,hid row hmem hkey hserv]
    exact hid
  have hhydrate : Safe (WiredAnswers cipher locks faults thread wiring) (fun s' => s'=s)
      (fun r _ => ∀ hydrated,r=.ok hydrated → Genuine recorded hydrated.artifacts)
      (hydrate current : ServiceM Command MlExecution) s := by
    refine Safe.seq (safe_hydrateArtifacts current.artifacts s) (fun served s' hs' hserved => ?_)
      fun e s' _ _ => fun hydrated hok => (nomatch hok)
    refine Safe.pure hs' fun hydrated hok => ?_
    cases hok
    exact hs.reads current served hfound (hserved served rfl)
  refine Safe.seq (hhydrate.crash fun s' hs' => by rw [hs']; exact honly) (fun hydrated s' honly' hgenuine => ?_)
    fun e s' _ _ => fun served hok => (nomatch hok)
  have hserving : ∀ {p : ServiceM Command Unit} {s'' : SharedStore Manifest},
      Uses (fun call => isServing call=true) p → OnlyCurrent key current.executionId s''.world.db →
      Safe (WiredAnswers cipher locks faults thread wiring)
        (fun s' => OnlyCurrent key current.executionId s'.world.db) (fun _ _ => True) p s'' :=
    fun hp honly => Safe.of_uses hp wired_onlyCurrent honly
  have hplain : ∀ {p : ServiceM Command Unit},UsesPlain p → Uses (fun call => isServing call=true) p :=
    fun hp => hp.mono fun call hc => isServing_of_isRemoval (isRemoval_of_isPlain hc)
  have hevent : Uses (fun call => isServing call=true) (recordEvent service .hit key command) := Uses.perform rfl
  have htags := hplain (direct_applyTags service key command).plain
  have hinput := hplain (plain_accumulateInput service fingerprint key command current)
  refine Safe.seq (hserving hevent honly') (fun _ s₁ honly₁ _ => ?_) fun e s' _ _ => fun served hok => (nomatch hok)
  refine Safe.seq (hserving htags honly₁) (fun _ s₂ honly₂ _ => ?_) fun e s' _ _ => fun served hok => (nomatch hok)
  refine Safe.seq (hserving hinput honly₂) (fun _ s₃ honly₃ _ => ?_) fun e s' _ _ => fun served hok => (nomatch hok)
  exact Safe.pure honly₃ fun served hok => hgenuine.2 served (by rw [Except.ok.inj hok])

/-- Healing leaves the key without a current row. -/
theorem safe_removeExecutionAndBlobs {current : MlExecution} (h : OnlyCurrent key current.executionId s.world.db) :
    Safe (WiredAnswers cipher locks faults thread wiring) (fun _ => True)
      (fun r s' => ∀ a,r=.ok a → s'.world.db.currentRow key=none)
      (removeExecutionAndBlobs current : ServiceM Command Unit) s := by
  have huses : Uses (fun call : Call Command => isServing call=true) (removeArtifactBlobs current.artifacts) := by
    induction current.artifacts with
    | nil => exact Uses.pure ()
    | cons artifact rest ih => exact Uses.bind (Uses.perform rfl) fun _ => ih
  have hblobs : Safe (WiredAnswers cipher locks faults thread wiring)
      (fun s' => OnlyCurrent key current.executionId s'.world.db) (fun _ _ => True)
      (removeArtifactBlobs current.artifacts) s := Safe.of_uses huses wired_onlyCurrent h
  refine Safe.seq (hblobs.crash fun _ _ => trivial) (fun _ s₁ _ honly => ?_) fun e s' _ _ =>
    fun a hok => (nomatch hok)
  refine Safe.perform trivial fun r s₂ hans => ⟨trivial,fun a hok => ?_⟩
  rcases wired_store hans with ⟨now,a',db,ht,_,rfl⟩ | ⟨e,hr,_⟩
  · cases Except.ok.inj (commit_ok.mp ht)
    exact honly.1.removed
  · rw [hok] at hr
    exact nomatch hr

/-- The current execution is looked up in the database. -/
theorem safe_findCurrent :
    Safe (WiredAnswers cipher locks faults thread wiring) (fun _ => True)
      (fun r s' => s'=s ∧ ∀ a,r=.ok a → findCurrent key s.world.db=.ok a)
      (store (.findCurrent key) : ServiceM Command (Option MlExecution)) s := by
  refine Safe.perform trivial fun r s' hans => ⟨trivial,?_⟩
  rcases wired_store hans with ⟨now,a,db,ht,rfl,rfl⟩ | ⟨e,rfl,rfl⟩
  · obtain ⟨hread,rfl⟩ := reading_ok.mp ht
    exact ⟨rfl,fun a' hok => by rw [← Except.ok.inj hok]; exact hread⟩
  · exact ⟨rfl,fun a' hok => (nomatch hok)⟩

/-- The current execution is served with what was recorded. What is not served leaves the key unspoiled. -/
def ServedWell (recorded : BlobKey → Option Bytes) (cipher : Cipher Manifest DataKey) (wiring : Wiring Manifest)
    (key : ExecutionKey) (r : Except PyExc (Option MlExecution)) (s : SharedStore Manifest) : Prop :=
  (∀ served,r=.ok (some served) → Genuine recorded served.artifacts) ∧
    (r=.ok none → Unspoiled recorded cipher wiring key s)

/-- A hit is served with what was recorded, or healed away. -/
theorem safe_serveCurrentIfHealthy (hs : Unspoiled recorded cipher wiring key s) :
    Safe (WiredAnswers cipher locks faults thread wiring) (fun _ => True)
      (ServedWell recorded cipher wiring key) (serveCurrentIfHealthy service fingerprint key command) s := by
  have hraised : ∀ {e : PyExc} {s' : SharedStore Manifest},ServedWell recorded cipher wiring key (.error e) s' :=
    ⟨fun _ hok => (nomatch hok),fun hok => (nomatch hok)⟩
  have hmissed : ∀ {s' : SharedStore Manifest},Unspoiled recorded cipher wiring key s' →
      Safe (WiredAnswers cipher locks faults thread wiring) (fun _ => True)
        (ServedWell recorded cipher wiring key) (pure none : ServiceM Command (Option MlExecution)) s' :=
    fun hs' => Safe.pure trivial ⟨fun _ hok => (nomatch hok),fun _ => hs'⟩
  refine Safe.attempt_seq (safe_findCurrent locks faults thread) fun r s' _ hr => ?_
  obtain ⟨rfl,hfound⟩ := hr
  match r with
  | .error e =>
    cases e with
    | storeCorrupt => exact hmissed hs
    | _ => exact Safe.raise (C := fun _ => True) trivial hraised
  | .ok none => exact hmissed hs
  | .ok (some current) =>
    have hserved := safe_serveHit locks faults thread fingerprint service command hs (hfound _ rfl)
    refine Safe.attempt_seq (hserved.crash fun _ _ => trivial) fun r s₁ _ hr => ?_
    obtain ⟨honly,hserved⟩ := hr
    cases r with
    | ok served =>
      refine Safe.pure trivial ⟨fun served' hok => ?_,fun hok => (nomatch hok)⟩
      cases Except.ok.inj hok
      exact hserved served rfl
    | error e =>
      refine Safe.ite (fun _ => ?_) fun _ => Safe.raise trivial hraised
      refine Safe.seq (safe_removeExecutionAndBlobs locks faults thread honly) (fun _ s₂ _ hgone => ?_)
        fun e s₂ _ _ => hraised
      exact hmissed (unspoiled_of_absent (hgone () rfl))

/-- Serving offline returns what was recorded. -/
theorem safe_serveOffline (hs : Unspoiled recorded cipher wiring key s) :
    Safe (WiredAnswers cipher locks faults thread wiring) (fun _ => True)
      (fun r _ => ∀ served,r=.ok served → Genuine recorded served.artifacts)
      (serveOffline service fingerprint key command) s := by
  have hstored : Safe (WiredAnswers cipher locks faults thread wiring) (fun _ => True)
      (fun r _ => ∀ served,r=.ok (some served) → Genuine recorded served.artifacts)
      (serveStored service fingerprint key command) s := by
    refine Safe.seq (safe_findCurrent locks faults thread) (fun found s' _ hr => ?_) fun e s' _ _ =>
      fun served hok => (nomatch hok)
    obtain ⟨rfl,hfound⟩ := hr
    match found with
    | none => exact Safe.pure trivial fun served hok => (nomatch hok)
    | some current =>
      have hserved := safe_serveHit locks faults thread fingerprint service command hs (hfound _ rfl)
      refine Safe.seq (hserved.crash fun _ _ => trivial) (fun served s₁ _ hr => ?_)
        fun e s₁ _ _ => fun served hok => (nomatch hok)
      refine Safe.pure trivial fun served' hok => ?_
      cases Except.ok.inj hok
      exact hr.2 served rfl
  have hmissed : ∀ {e : PyExc} {s' : SharedStore Manifest},Safe (WiredAnswers cipher locks faults thread wiring)
      (fun _ => True) (fun r _ => ∀ served,r=.ok served → Genuine recorded served.artifacts)
      (recordEvent service .miss key command >>= fun _ => (raise e : ServiceM Command MlExecution)) s' := by
    intro e s'
    refine Safe.perform_bind trivial (fun _ s₁ _ => ?_) fun e s₁ _ => ⟨trivial,fun served hok => (nomatch hok)⟩
    exact Safe.raise trivial fun served hok => (nomatch hok)
  refine Safe.attempt_seq hstored fun r s' _ hserved => ?_
  match r with
  | .ok (some served) =>
    refine Safe.pure trivial fun served' hok => ?_
    cases Except.ok.inj hok
    exact hserved served rfl
  | .ok none => exact hmissed
  | .error e =>
    exact Safe.ite (fun _ => hmissed) fun _ => Safe.raise trivial fun served hok => (nomatch hok)

end Serving

section Runs
variable {Command Manifest DataKey : Type} {cipher : Cipher Manifest DataKey} {locks : LockMode}
variable {faults : Faults Command} {thread : ThreadId} {wiring : Wiring Manifest}
variable {recorded : BlobKey → Option Bytes} {fingerprint : Bytes → Digest} {key : ExecutionKey}
variable {s : SharedStore Manifest}
variable {service : CachedMlExecutionService Command} {command : Command} {identity : CallIdentity}

/-- The calls of one process, watched. -/
abbrev watchedProcess (cipher : Cipher Manifest DataKey) (locks : LockMode) (faults : Faults Command)
    (thread : ThreadId) (wiring : Wiring Manifest) :
    Sem (Call Command) Call.Ret PyExc (SharedStore Manifest × RunTrace) :=
  observed (WiredAnswers cipher locks faults thread wiring) watchRun

/-- What is answered from the store is what was recorded. -/
def AnsweredWell (recorded : BlobKey → Option Bytes) (r : Except PyExc MlExecution)
    (s : SharedStore Manifest × RunTrace) : Prop :=
  ∀ served,r=.ok served → s.2.calledClient=false → Genuine recorded served.artifacts

/-- A program that returns only after it called the client answers nothing from the store. -/
theorem answeredWell_of_calls {p : ServiceM Command MlExecution} (h : Calls p) (s : SharedStore Manifest × RunTrace) :
    Safe (watchedProcess cipher locks faults thread wiring) (fun _ => True) (AnsweredWell recorded) p s := by
  have hcalled : Safe (watchedProcess cipher locks faults thread wiring) (fun _ => True)
      (fun r s => ∀ a,r=.ok a → s.2.calledClient=true) p s :=
    Follows.safe (Q := fun r (t : RunTrace) => ∀ a,r=.ok a → t.calledClient=true) _ (h s.2)
  refine hcalled.mono fun r s _ hr served hok hclient => ?_
  rw [hr served hok] at hclient
  exact nomatch hclient

/-- An unspoiled key stays so while neither its rows nor the files change. -/
theorem Unspoiled.same {s' : SharedStore Manifest} (h : Unspoiled recorded cipher wiring key s)
    (hdb : s'.world.db=s.world.db) (hfiles : s'.files=s.files) : Unspoiled recorded cipher wiring key s' := by
  refine ⟨by rw [hdb]; exact h.one,fun current served hfound hserved => ?_⟩
  rw [hdb] at hfound
  refine h.reads current served hfound (hserved.imp fun a b hread => ?_)
  obtain ⟨manifest,content,plain,hwiring,hat,hopens,rfl⟩ := hread
  exact ⟨manifest,content,plain,hwiring,by rw [← hfiles]; exact hat,hopens,rfl⟩

variable (locks faults thread fingerprint service command)

/-- A fresh run that finds the key unspoiled. -/
theorem safe_runFreshLocked (hs : Unspoiled recorded cipher wiring identity.generateKey s) (t : RunTrace) :
    Safe (watchedProcess cipher locks faults thread wiring) (fun _ => True) (AnsweredWell recorded)
      (runFreshLocked service fingerprint identity command) (s,t) := by
  refine Safe.perform_bind trivial (fun _ s' hans => ?_) fun e s' _ => ⟨trivial,fun a hok => (by cases hok)⟩
  obtain ⟨s',t'⟩ := s'
  have hs' : Unspoiled recorded cipher wiring identity.generateKey s' := by
    cases hans.1 with
    | port _ hanswers =>
      cases hanswers with
      | acquireKey => exact hs.same rfl rfl
  have hbody : Safe (watchedProcess cipher locks faults thread wiring) (fun _ => True) (AnsweredWell recorded)
      (if service.cacheMode command=.cache then
        serveCurrentIfHealthy service fingerprint identity.generateKey command >>=
          servedOrRun service fingerprint identity command
      else runAndRecord service fingerprint identity command) (s',t') := by
    refine Safe.ite (fun _ => ?_) fun _ => answeredWell_of_calls (calls_runAndRecord service fingerprint identity
      command) _
    have hserved := safe_serveCurrentIfHealthy locks faults thread fingerprint service command hs'
    have hserved := hserved.observed watchRun (s := (s',t'))
    refine Safe.seq (hserved.crash fun _ _ => trivial) (fun found s₁ _ hr => ?_) fun e s₁ _ _ =>
      fun a hok => (by cases hok)
    cases found with
    | some served =>
      refine Safe.pure trivial fun served' hok _ => ?_
      cases Except.ok.inj hok
      exact hr.2.1 served rfl
    | none => exact answeredWell_of_calls (calls_runAndRecord service fingerprint identity command) s₁
  refine Safe.ensure (hbody.mono fun r s₁ _ hr => ?_)
  refine Safe.mono (Follows.safe _ (follows_mono (ask (.releaseKey identity.generateKey)) s₁.2))
    fun c s₂ _ hmono => ?_
  cases c with
  | ok _ => exact fun served hok hclient => hr served hok (by
      by_contra hcalled
      rw [hmono.1 (by simpa using hcalled)] at hclient
      cases hclient)
  | error e => exact fun a hok => (by cases hok)

/-- Every execute of a store whose keys are unspoiled answers what was recorded. -/
theorem safe_execute (hs : ∀ key,Unspoiled recorded cipher wiring key s) :
    Safe (watchedProcess cipher locks faults thread wiring) (fun _ => True) (AnsweredWell recorded)
      (execute service fingerprint command) (s,RunTrace.blank) := by
  have hraised : ∀ {e : PyExc} {s : SharedStore Manifest × RunTrace},AnsweredWell recorded (.error e) s :=
    fun served hok => (nomatch hok)
  unfold execute
  match service.buildIdentity command with
  | .error e => exact ⟨trivial,hraised⟩
  | .ok identity =>
    refine Safe.ite (fun _ => Safe.ite (fun _ => ?_) fun _ => ?_) fun _ => ?_
    · exact Safe.perform_bind trivial (fun _ s' _ => Safe.raise trivial hraised) fun e s' _ => ⟨trivial,hraised⟩
    · have hbypassed := Follows.safe (WiredAnswers cipher locks faults thread wiring)
        (follows_runUnstored service fingerprint identity command) (s := (s,RunTrace.blank))
      refine hbypassed.mono fun r s' _ hr served hok hclient => ?_
      rw [hr.1] at hclient
      exact nomatch hclient
    · have hgate : Safe (watchedProcess cipher locks faults thread wiring) (fun _ => True)
          (fun _ s' => s'=(s,RunTrace.blank)) (tokenGate service command) (s,RunTrace.blank) := by
        refine Safe.ite (fun _ => Safe.perform trivial fun r s' hans => ⟨trivial,?_⟩) fun _ => Safe.pure trivial rfl
        obtain ⟨s',t'⟩ := s'
        obtain ⟨hans,rfl⟩ := hans
        cases hans with
        | port hcall => exact nomatch hcall
        | _ => rfl
      refine Safe.seq hgate (fun _ s' _ hs' => ?_) fun e s' _ _ => hraised
      subst hs'
      have hmetered : ∀ s',Safe (watchedProcess cipher locks faults thread wiring) (fun _ => True)
          (AnsweredWell recorded) (runMetered service fingerprint identity command) s' :=
        answeredWell_of_calls (calls_runMetered service fingerprint identity command)
      unfold executeCacheable
      split
      · have hoffline := safe_serveOffline locks faults thread fingerprint service command (hs identity.generateKey)
        have hoffline := hoffline.observed watchRun (s := (s,RunTrace.blank))
        exact hoffline.mono fun r s' _ hr served hok _ => hr served hok
      · refine Safe.ite (fun _ => ?_) fun _ => hmetered _
        have hserved := safe_serveCurrentIfHealthy locks faults thread fingerprint service command (hs identity.generateKey)
        have hserved := hserved.observed watchRun (s := (s,RunTrace.blank))
        refine Safe.seq (hserved.crash fun _ _ => trivial) (fun found s₁ _ hr => ?_) fun e s₁ _ _ => hraised
        match found with
        | some served =>
          refine Safe.pure trivial fun served' hok _ => ?_
          cases Except.ok.inj hok
          exact hr.2.1 served rfl
        | none => exact safe_runFreshLocked locks faults thread fingerprint service command (hr.2.2 rfl) s₁.2
      · have hfresh := safe_runFreshLocked locks faults thread fingerprint service command (hs identity.generateKey)
        exact Safe.ite (fun _ => hfresh _) fun _ => hmetered _

end Runs

section Reopening
variable {Manifest DataKey : Type} {cipher : Cipher Manifest DataKey} {envelope : Manifest}
variable {fingerprint : Bytes → Digest} {w : World} {fs fs' : StoreFiles PyStr Manifest}

/-- The files of an encrypted store: every blob is sealed in its file, and looks different there. -/
structure EncryptedStore (cipher : Cipher Manifest DataKey) (envelope : Manifest) (w : World)
    (fs : StoreFiles PyStr Manifest) : Prop where
  /-- No change of the encryption is in progress. -/
  marker : fs.marker=none
  /-- The envelope is its manifest. -/
  manifest : fs.manifest=some envelope
  /-- The execution database is there. -/
  executions : fs.executions=true
  /-- A blob that is not stored has no file. -/
  missing : ∀ id digest,w.blobs.get (.forExecution id digest)=none →
    fs.at .blobs (BlobKey.forExecution id digest).text=none
  /-- A stored blob is sealed in its file. -/
  sealed : ∀ id digest content,w.blobs.get (.forExecution id digest)=some content →
    ∃ secret,fs.at .blobs (BlobKey.forExecution id digest).text=some secret ∧
      cipher.decrypt (cipher.unwrap envelope) secret=some content ∧ secret≠content

/-- The store that a new process opens. A database whose file is gone is a new one. -/
def reopened (w : World) (fs : StoreFiles PyStr Manifest) : SharedStore Manifest where
  world := { w with
    db := if fs.executions=true then w.db else Db.empty
    journal := if fs.registry=true then w.journal else []
    held := [] }
  files := fs

/-- Every execute of a process that recovers the store and wires itself by the
manifest it finds is answered with what was recorded, if it is from the store. -/
def ServesRecorded (cipher : Cipher Manifest DataKey) (fingerprint : Bytes → Digest) (w : World)
    (fs : StoreFiles PyStr Manifest) : Prop :=
  ∀ fs',Ends (SilentAnswers cipher) (recover textScratch) fs (.ok ()) fs' →
    ∀ (Command : Type) (service : CachedMlExecutionService Command) (command : Command) (locks : LockMode)
      (faults : Faults Command) (thread : ThreadId) (token : Bool) (r : Except PyExc MlExecution)
      (s : SharedStore Manifest × RunTrace),
    Ends (watchedProcess cipher locks faults thread (resolveBlobStore fs'.manifest token))
      (execute service fingerprint command) (reopened w fs',RunTrace.blank) r s →
    AnsweredWell w.blobs.get r s

/-- The key has a current execution with artifacts, and the file of each is there. -/
def LeftToServe (w : World) (fs : StoreFiles PyStr Manifest) : Prop :=
  ∃ key current,findCurrent key w.db=.ok (some current) ∧ current.artifacts≠[] ∧
    ∀ a∈current.artifacts,(fs.at .blobs a.blobKey.text).isSome=true

/-- What was served from missing files. -/
theorem not_forall₂_of_missing {wiring : Wiring Manifest} {s : SharedStore Manifest} {artifacts served : List Artifact}
    {a : Artifact} (hmem : a∈artifacts) (hmissing : s.files.at .blobs a.blobKey.text=none) :
    ¬List.Forall₂ (ReadsFile cipher wiring s) artifacts served := by
  intro hall
  induction hall with
  | nil => cases hmem
  | cons hread _ ih =>
    rcases List.mem_cons.mp hmem with rfl | hmem
    · obtain ⟨_,content,_,_,hat,_⟩ := hread
      rw [hmissing] at hat
      cases hat
    · exact ih hmem

/-- Where every file that is left opens to what was recorded, hydration gives what was recorded. -/
theorem genuine_of_reads {wiring : Wiring Manifest} {s : SharedStore Manifest} {artifacts served : List Artifact}
    (hopens : ∀ manifest,wiring.manifest=some manifest → ∀ a∈artifacts,∀ secret content,
      s.files.at .blobs a.blobKey.text=some secret → opened cipher manifest secret=some content →
      w.blobs.get a.blobKey=some content)
    (hall : List.Forall₂ (ReadsFile cipher wiring s) artifacts served) : Genuine w.blobs.get served := by
  induction hall with
  | nil => exact fun a hmem => nomatch hmem
  | cons hread _ ih =>
    obtain ⟨manifest,secret,plain,hwiring,hat,hplain,rfl⟩ := hread
    intro a hmem content hcontent
    rcases List.mem_cons.mp hmem with rfl | hmem
    · cases hcontent
      exact hopens manifest hwiring _ List.mem_cons_self _ _ hat hplain
    · exact ih (fun manifest hwiring a hmem => hopens manifest hwiring a (List.mem_cons_of_mem _ hmem)) a hmem
        content hcontent

/-- A current execution's artifacts have blob keys of its own. -/
theorem owned_current {key : ExecutionKey} {current : MlExecution} (hsound : Sound fingerprint w)
    (hfound : findCurrent key w.db=.ok (some current)) :
    ∀ a∈current.artifacts,∃ digest,a.blobKey=.forExecution current.executionId digest := by
  intro a hmem
  obtain ⟨row,hrow,hload⟩ := findCurrent_some hfound
  obtain ⟨hid,hartifacts,_⟩ := loadExecution_ok hload
  have harow : artifactRow a∈row.artifacts := by
    rw [hartifacts]
    exact List.mem_map_of_mem hmem
  obtain ⟨digest,howned⟩ := hsound.owned row (Db.currentRow_mem hrow).1 _ harow
  exact ⟨digest,by rw [hid]; exact Column.value.inj howned⟩

/-- A file that is left of an encrypted store holds the sealed blob. -/
theorem EncryptedStore.at_left (h : EncryptedStore cipher envelope w fs) (hleft : Remains fs fs') {id : ExecutionId}
    {digest : Digest} {secret : Bytes} (hat : fs'.at .blobs (BlobKey.forExecution id digest).text=some secret) :
    ∃ content,w.blobs.get (.forExecution id digest)=some content ∧
      cipher.decrypt (cipher.unwrap envelope) secret=some content ∧ secret≠content := by
  rcases hleft.blobs (BlobKey.forExecution id digest).text with hsame | hgone
  swap
  · rw [hgone] at hat
    cases hat
  rw [hsame] at hat
  cases hget : w.blobs.get (.forExecution id digest) with
  | none =>
    rw [h.missing id digest hget] at hat
    cases hat
  | some content =>
    obtain ⟨secret',hat',hopens,hne⟩ := h.sealed id digest content hget
    rw [hat] at hat'
    cases hat'
    exact ⟨content,rfl,hopens,hne⟩

/-- Without a current execution that is left to serve, every key is unspoiled. -/
theorem unspoiled_reopened (hsound : Sound fingerprint w) (hstore : EncryptedStore cipher envelope w fs)
    (hleft : Remains fs fs') (hsafe : fs'.manifest.isSome=true ∨ fs'.executions=false ∨ ¬LeftToServe w fs')
    (token : Bool) (key : ExecutionKey) :
    Unspoiled w.blobs.get cipher (resolveBlobStore fs'.manifest token) key (reopened w fs') := by
  by_cases hdb : fs'.executions=true
  swap
  · refine unspoiled_of_absent (Db.currentRow_eq_none.mpr fun row hrow => ?_)
    simp only [reopened,hdb] at hrow
    exact nomatch hrow
  have hsame : (reopened w fs').world.db=w.db := by simp [reopened,hdb]
  constructor
  · cases hcurrent : w.db.currentRow key with
    | none =>
      refine ⟨⟨0⟩,fun row hrow hkey hserv => ?_⟩
      rw [hsame] at hrow
      rw [Db.currentRow_eq_none.mp hcurrent row hrow hkey] at hserv
      exact nomatch hserv
    | some current =>
      obtain ⟨hmem,hkey,hserv⟩ := Db.currentRow_mem hcurrent
      refine ⟨current.executionId,fun row hrow hrkey hrserv => ?_⟩
      rw [hsame] at hrow
      rw [hsound.oneCurrent row hrow current hmem (hrkey.trans hkey.symm) hrserv hserv]
  · intro current served hfound hserved
    rw [hsame] at hfound
    rcases hsafe with hmanifest | hnone | hnothing
    · refine genuine_of_reads (fun m hwiring a hmem secret content hat hopens => ?_) hserved
      have hkept : fs'.manifest=some envelope := by
        rcases hleft.manifest with heq | hnone
        · rw [heq,hstore.manifest]
        · rw [hnone] at hmanifest
          exact nomatch hmanifest
      obtain ⟨digest,howned⟩ := owned_current hsound hfound a hmem
      rw [howned] at hat ⊢
      obtain ⟨recorded,hget,hdecrypt,_⟩ := hstore.at_left hleft hat
      rw [hkept] at hwiring
      cases token with
      | false => exact nomatch hwiring
      | true =>
        cases hwiring
        rw [hget,← hdecrypt]
        exact hopens
    · rw [hdb] at hnone
      exact nomatch hnone
    · cases hartifacts : current.artifacts with
      | nil =>
        rw [hartifacts] at hserved
        cases hserved
        exact fun a hmem => nomatch hmem
      | cons artifact rest =>
        have hmissing : ∃ a∈current.artifacts,fs'.at .blobs a.blobKey.text=none := by
          by_contra hall
          refine hnothing ⟨key,current,hfound,by rw [hartifacts]; simp,fun a hmem => ?_⟩
          rw [Option.isSome_iff_ne_none]
          exact fun hnone => hall ⟨a,hmem,hnone⟩
        obtain ⟨a,hmem,hat⟩ := hmissing
        exact absurd hserved (not_forall₂_of_missing hmem hat)

/-- A service whose command asks for one key offline and writes no document. -/
def offlineService (key : ExecutionKey) : CachedMlExecutionService Unit where
  cacheMode _ := .offline
  persistenceDepth _ := .cache
  sessionId _ := none
  shouldPersist _ succeeded := succeeded
  buildIdentity _ := .ok ⟨key,[],[]⟩
  executionKind _ := .api
  journalFields _ := ([],[],[])
  isUncacheable _ := false
  executionTags _ := []
  inputParts _ := .ok []
  inputParts_error := fun _ _ h => nomatch h
  maxSize := none

section Serving
variable {locks : LockMode} {faults : Faults Unit} {thread : ThreadId} {s : SharedStore Manifest}

/-- A call that neither calls the client nor the repository, answered. -/
theorem ends_ask {call : Call Unit} {r : Except PyExc call.Ret} {s' : SharedStore Manifest} {t : RunTrace}
    (h : WiredAnswers cipher locks faults thread .plain call s r s') :
    Ends (watchedProcess cipher locks faults thread .plain) (ask call) (s,t) r (s',watchRun call r t) :=
  Ends.perform ⟨h,rfl⟩

/-- Where every file is there, hydration returns them. -/
theorem ends_hydrateArtifacts {artifacts : List Artifact} {t : RunTrace}
    (h : ∀ a∈artifacts,(s.files.at .blobs a.blobKey.text).isSome=true) :
    ∃ served,List.Forall₂ (ReadsFile cipher .plain s) artifacts served ∧
      Ends (watchedProcess cipher locks faults thread .plain) (hydrateArtifacts artifacts) (s,t) (.ok served) (s,t) := by
  induction artifacts with
  | nil => exact ⟨[],.nil,.refl⟩
  | cons artifact rest ih =>
    obtain ⟨served,hserved,hends⟩ := ih fun a hmem => h a (List.mem_cons_of_mem _ hmem)
    obtain ⟨content,hat⟩ := Option.isSome_iff_exists.mp (h artifact List.mem_cons_self)
    refine ⟨{ artifact with content := some content }::served,.cons ⟨none,content,content,rfl,hat,rfl,rfl⟩ hserved,?_⟩
    have hget : Ends (watchedProcess cipher locks faults thread .plain) (hydrateArtifact artifact) (s,t)
        (.ok { artifact with content := some content }) (s,t) :=
      Ends.bind (ends_ask (.get rfl hat rfl)) .refl
    exact Ends.bind hget (Ends.bind hends .refl)

/-- Where a key has a current execution, and every file is there, it is served offline. -/
theorem ends_offline {key : ExecutionKey} {current : MlExecution}
    (hfound : findCurrent key s.world.db=.ok (some current))
    (hfiles : ∀ a∈current.artifacts,(s.files.at .blobs a.blobKey.text).isSome=true) :
    ∃ served s',List.Forall₂ (ReadsFile cipher .plain s) current.artifacts served ∧ s'.2.calledClient=false ∧
      Ends (watchedProcess cipher locks faults thread .plain) (execute (offlineService key) fingerprint ())
        (s,RunTrace.blank) (.ok { current with artifacts := served }) s' := by
  have hhydrated : ∃ served,List.Forall₂ (ReadsFile cipher .plain s) current.artifacts served ∧
      Ends (watchedProcess cipher locks faults thread .plain) (hydrateArtifacts current.artifacts) (s,⟨false,true⟩)
        (.ok served) (s,⟨false,true⟩) := ends_hydrateArtifacts hfiles
  obtain ⟨served,hserved,hhydrate⟩ := hhydrated
  have hgate : Ends (watchedProcess cipher locks faults thread .plain) (tokenGate (offlineService key) ())
      (s,RunTrace.blank) (.ok ()) (s,RunTrace.blank) := ends_ask (.available fun hf => (nomatch hf))
  have hfind : Ends (watchedProcess cipher locks faults thread .plain) (store (.findCurrent key))
      (s,RunTrace.blank) (.ok (some current)) (s,⟨false,true⟩) :=
    ends_ask (.port rfl (.commit 0 (reading_ok.mpr ⟨hfound,rfl⟩)))
  have hevent : ∃ w',Ends (watchedProcess cipher locks faults thread .plain)
      (recordEvent (offlineService key) .hit key ()) (s,⟨false,true⟩) (.ok ())
      ({ s with world := w' },⟨false,true⟩) := ⟨_,ends_ask (.port rfl .recordEvent)⟩
  obtain ⟨w',hevent⟩ := hevent
  have hhit : Ends (watchedProcess cipher locks faults thread .plain)
      (serveHit (offlineService key) fingerprint key () current) (s,⟨false,true⟩)
      (.ok { current with artifacts := served }) ({ s with world := w' },⟨false,true⟩) :=
    Ends.bind (Ends.bind hhydrate .refl) (Ends.bind hevent (Ends.bind .refl (Ends.bind .refl .refl)))
  have hstored : Ends (watchedProcess cipher locks faults thread .plain)
      (serveStored (offlineService key) fingerprint key ()) (s,RunTrace.blank)
      (.ok (some { current with artifacts := served })) ({ s with world := w' },⟨false,true⟩) :=
    Ends.bind hfind (Ends.bind hhit .refl)
  have hserve : Ends (watchedProcess cipher locks faults thread .plain)
      (serveOffline (offlineService key) fingerprint key ()) (s,RunTrace.blank)
      (.ok { current with artifacts := served }) ({ s with world := w' },⟨false,true⟩) :=
    Ends.bind (Ends.attempt hstored) .refl
  exact ⟨served,_,hserved,rfl,Ends.bind .refl (Ends.bind hgate hserve)⟩

/-- A process without a marker may leave the staging directory as it is. -/
theorem ends_recover (hmarker : fs.marker=none) :
    Ends (SilentAnswers cipher) (recover textScratch) fs (.ok ()) fs := by
  have hexists : Ends (SilentAnswers cipher) (file .markerExists) fs (.ok fs.marker.isSome) fs :=
    Ends.perform (.answered .markerExists)
  have hstaged : Ends (SilentAnswers cipher) (file (.dirExists .staging)) fs (.ok fs.staging.isSome) fs :=
    Ends.perform (.answered .dirExists)
  have hrmtree : Ends (SilentAnswers cipher) (rmtree .staging) fs (.ok ()) fs := by
    have hscan : Ends (SilentAnswers cipher) (file (.scandir .staging)) fs (.error .osError) fs :=
      Ends.perform (.silent rfl)
    exact Ends.bind (Ends.attempt hscan) .refl
  have hlocked : Ends (SilentAnswers cipher) (recoverLocked textScratch) fs (.ok ()) fs := by
    refine Ends.bind hexists ?_
    rw [hmarker]
    refine Ends.bind hstaged ?_
    cases fs.staging with
    | none => exact .refl
    | some files => exact hrmtree
  have hrelease : Ends (SilentAnswers cipher) (file .releaseExclusive) fs (.ok ()) fs :=
    Ends.perform (.answered .releaseExclusive)
  have hacquire : Ends (SilentAnswers cipher) (file .acquireExclusive) fs (.ok ()) fs :=
    Ends.perform (.answered .acquireExclusive)
  have hguarded : Ends (SilentAnswers cipher) (withStoreLock (recoverLocked textScratch)) fs (.ok ()) fs :=
    Ends.bind hacquire (Ends.bind (Ends.attempt hlocked) (Ends.bind hrelease .refl))
  refine Ends.bind hexists ?_
  rw [hmarker]
  refine Ends.bind hstaged ?_
  cases fs.staging with
  | none => exact .refl
  | some files => exact hguarded

end Serving

/-- However an invalidation stops, the store serves what was recorded exactly
where its manifest is left, or its executions are gone, or every current
execution lost a file. -/
theorem serves_recorded_iff {Command : Type} {faults : Faults Command} {q : FileM PyStr Manifest DataKey Unit}
    (hreach : Reachable faults fingerprint w) (hstore : EncryptedStore cipher envelope w fs)
    (hstop : Reach (SilentAnswers cipher) (invalidate textScratch) fs q fs') :
    ServesRecorded cipher fingerprint w fs' ↔
      fs'.manifest.isSome=true ∨ fs'.executions=false ∨ ¬LeftToServe w fs' := by
  have hleft := remains_invalidate hstore.marker hstop
  constructor
  · intro hserves
    by_contra hnot
    obtain ⟨hmanifest,hexecutions,hlefts⟩ : fs'.manifest=none ∧ fs'.executions=true ∧ LeftToServe w fs' := by
      simpa using hnot
    obtain ⟨key,current,hfound,hsome,hfiles⟩ := hlefts
    have hfound' : findCurrent key (reopened w fs').world.db=.ok (some current) := by
      simpa [reopened,hexecutions] using hfound
    have hrun : ∃ served s,List.Forall₂ (ReadsFile cipher .plain (reopened w fs')) current.artifacts served ∧
        s.2.calledClient=false ∧ Ends (watchedProcess cipher .exclusive noFaults 0 .plain)
          (execute (offlineService key) fingerprint ()) (reopened w fs',RunTrace.blank)
          (.ok { current with artifacts := served }) s := ends_offline hfound' hfiles
    obtain ⟨served,s,hserved,hclient,hends⟩ := hrun
    have hplain : resolveBlobStore fs'.manifest false=.plain := by rw [hmanifest]; rfl
    have hgenuine := hserves fs' (ends_recover hleft.marker) Unit (offlineService key) () .exclusive noFaults 0
      false _ s (by rw [hplain]; exact hends) _ rfl hclient
    obtain ⟨artifact,rest,hcons⟩ := List.exists_cons_of_ne_nil hsome
    rw [hcons] at hserved
    cases hserved with
    | cons hread _ =>
      obtain ⟨manifest,secret,plain,hwiring,hat,hopens,rfl⟩ := hread
      cases hwiring
      cases hopens
      have hmem : artifact∈current.artifacts := by rw [hcons]; exact List.mem_cons_self
      obtain ⟨digest,howned⟩ := owned_current (reachable_sound hreach) hfound artifact hmem
      have hsame := hgenuine _ List.mem_cons_self secret rfl
      have hat' : fs'.at .blobs artifact.blobKey.text=some secret := hat
      rw [howned] at hat'
      obtain ⟨content,hget,_,hne⟩ := hstore.at_left hleft hat'
      simp only [howned] at hsame
      rw [hget] at hsame
      exact hne (Option.some.inj hsame).symm
  · intro hsafe fs'' hrecover Command' service command locks faults' thread token r s hends
    have hunstaged := unstaged_recover hleft.marker hrecover
    have hleft' : Remains fs fs'' := by
      refine ⟨hunstaged.marker,fun name => ?_,?_⟩
      · rw [hunstaged.blobs name]
        exact hleft.blobs name
      · rw [hunstaged.manifest]
        exact hleft.manifest
    have hsafe' : fs''.manifest.isSome=true ∨ fs''.executions=false ∨ ¬LeftToServe w fs'' := by
      rw [hunstaged.manifest,hunstaged.executions]
      refine hsafe.imp id (Or.imp id fun hnot hlefts => hnot ?_)
      obtain ⟨key,current,hfound,hsome,hfiles⟩ := hlefts
      exact ⟨key,current,hfound,hsome,fun a hmem => by rw [← hunstaged.blobs]; exact hfiles a hmem⟩
    have hunspoiled := unspoiled_reopened (reachable_sound hreach) hstore hleft' hsafe' token
    exact (safe_execute locks faults' thread fingerprint service command hunspoiled).result hends

end Reopening

/-- The files of the store of one recorded answer, sealed under the key 7. -/
def encryptedOnce : StoreFiles PyStr UInt8 :=
  putBlob (putBlob
    { blobs := none
      staging := none
      marker := none
      markerScratch := none
      manifest := some 7
      executions := true
      registry := true }
    (BlobKey.forExecution ⟨7⟩ 112).text [7,111]) (BlobKey.forExecution ⟨7⟩ 0).text [7]

/-- They are an encrypted store's. -/
theorem encryptedOnce_encrypted : EncryptedStore prefixCipher 7 (reportedOnce none) encryptedOnce := by
  have hblobs : (reportedOnce none).blobs=
      BlobStore.put (BlobStore.put ∅ (.forExecution ⟨7⟩ 112) [111]) (.forExecution ⟨7⟩ 0) [] :=
    AList.ext (by decide +kernel)
  have hname : ∀ id digest digest',(BlobKey.forExecution id digest).text=(BlobKey.forExecution ⟨7⟩ digest').text →
      BlobKey.forExecution id digest=.forExecution ⟨7⟩ digest' := by
    intro id digest digest' htext
    obtain ⟨rfl,rfl⟩ := blobKey_text_inj htext
    rfl
  have hat : ∀ id digest,encryptedOnce.at .blobs (BlobKey.forExecution id digest).text=
      ((reportedOnce none).blobs.get (.forExecution id digest)).map fun content => 7::content := by
    intro id digest
    rw [hblobs]
    simp only [encryptedOnce,at_putBlob,BlobStore.get_put,BlobStore.get_empty,true_and]
    by_cases hempty : BlobKey.forExecution id digest=.forExecution ⟨7⟩ 0
    · rw [if_pos (congrArg BlobKey.text hempty),if_pos hempty]
      rfl
    rw [if_neg fun htext => hempty (hname id digest 0 htext),if_neg hempty]
    by_cases houtput : BlobKey.forExecution id digest=.forExecution ⟨7⟩ 112
    · rw [if_pos (congrArg BlobKey.text houtput),if_pos houtput]
      rfl
    rw [if_neg fun htext => houtput (hname id digest 112 htext),if_neg houtput]
    rfl
  refine ⟨rfl,rfl,rfl,fun id digest hget => ?_,fun id digest content hget => ⟨7::content,?_,?_,by simp⟩⟩
  · rw [hat,hget]
    rfl
  · rw [hat,hget]
    rfl
  · exact prefixCipher_opens 7 content

/-- The first `n` calls of its invalidation. -/
def shreddedAfter (n : ℕ) : FileM PyStr UInt8 UInt8 Unit × StoreFiles PyStr UInt8 :=
  drive (List.replicate n prefixAnswers) (invalidate textScratch) encryptedOnce

/-- They are a run of it. -/
theorem shreddedAfter_reach (n : ℕ) :
    Reach (SilentAnswers prefixCipher) (invalidate textScratch) encryptedOnce (shreddedAfter n).1
      (shreddedAfter n).2 := by
  refine Reach.mono (fun _ _ _ _ h => .answered h) (drive_reach _ (fun handler hmem => ?_) _ _)
  rw [List.eq_of_mem_replicate hmem]
  exact fileAnswers_respects prefixCipher prefixCipher_opens

/-- Stopped when the blobs are gone, the invalidation leaves nothing to serve. -/
theorem serves_recorded_without_blobs :
    ServesRecorded prefixCipher positional (reportedOnce none) (shreddedAfter 8).2 := by
  refine (serves_recorded_iff (reportedOnce_reachable none) encryptedOnce_encrypted (shreddedAfter_reach 8)).mpr ?_
  have hblobs : (shreddedAfter 8).2.blobs=none := by decide +kernel
  refine Or.inr (Or.inr ?_)
  rintro ⟨key,current,_,hsome,hfiles⟩
  obtain ⟨a,hmem⟩ := List.exists_mem_of_ne_nil _ hsome
  have hfile := hfiles a hmem
  simp [StoreFiles.at,StoreFiles.dir,hblobs] at hfile

/-- An offline execute of the store that is left without its manifest, reopened. -/
def servedAfter (n : ℕ) : ServiceM SmallestCommand MlExecution × (SharedStore UInt8 × RunTrace) :=
  drive ((List.replicate 20 (wiredAnswers prefixCipher (fun key blob => key::blob) .plain
      (answerWith .exclusive 0 0 (.ok { exitCode := 0 }) ⟨8⟩))).map fun handler => handler.watched watchRun)
    (execute smallestService positional ⟨.offline,.cache⟩)
    (reopened (reportedOnce none) (shreddedAfter n).2,RunTrace.blank)

/-- It is a run of the process that wires itself by the manifest, which is gone. -/
theorem servedAfter_reach (n : ℕ) :
    Reach (watchedProcess prefixCipher .exclusive noFaults 0 .plain)
      (execute smallestService positional ⟨.offline,.cache⟩)
      (reopened (reportedOnce none) (shreddedAfter n).2,RunTrace.blank) (servedAfter n).1 (servedAfter n).2 := by
  refine drive_watched _ (fun handler hmem => ?_) watchRun _ _
  rw [List.eq_of_mem_replicate hmem]
  exact wiredAnswers_respects prefixCipher_opens (answerWith_respects 0 _ ⟨8⟩)

/-- Stopped when only the manifest is gone, the invalidation leaves ciphertext that is served. -/
theorem serves_recorded_fails : ¬ ∀ (q : FileM PyStr UInt8 UInt8 Unit) (fs : StoreFiles PyStr UInt8),
    Reach (SilentAnswers prefixCipher) (invalidate textScratch) encryptedOnce q fs →
    ServesRecorded prefixCipher positional (reportedOnce none) fs := by
  intro hall
  have hserves := hall _ _ (shreddedAfter_reach 4)
  have hrecover : Ends (SilentAnswers prefixCipher) (recover textScratch) (shreddedAfter 4).2 (.ok ())
      (shreddedAfter 4).2 := ends_recover (by decide +kernel)
  have hplain : resolveBlobStore (shreddedAfter 4).2.manifest false=.plain := by decide +kernel
  have hvalue : ∃ served,(servedAfter 4).1.value=some served ∧
      ∃ a∈served.artifacts,a.content=some [7,111] ∧ (reportedOnce none).blobs.get a.blobKey=some [111] := by
    decide +kernel
  obtain ⟨served,hserved,a,hmem,hcontent,hrecorded⟩ := hvalue
  have hends := servedAfter_reach 4
  rw [Prog.value_eq_some.mp hserved,← hplain] at hends
  have hwell := hserves _ hrecover SmallestCommand smallestService ⟨.offline,.cache⟩ .exclusive noFaults 0 false _ _ hends
  have hsame := hwell served rfl (by decide +kernel) a hmem _ hcontent
  rw [hrecorded] at hsame
  cases hsame

end GenericMlCache.ShreddedStore
