import GenericMlCache.MigrationRecovery

/-!
# Encryption there and back

Enabling and then disabling the encryption of a store whose files raise no error of
their own: a call is answered wherever it can be, and a file's name fits the file
system or the write raises.
-/

namespace GenericMlCache.EncryptionRoundTrip

open CallProgram PythonText StoreEncryptor MigrationRecovery
open ExecutionModel (isBlobKey)

section Reliable
variable {Name Manifest DataKey : Type} [DecidableEq Name]
variable (cipher : Cipher Manifest DataKey) (tooLong : Name → Bool)

omit [DecidableEq Name] in
variable (Manifest DataKey) in
/-- Whether a call creates a file under a name that the file system does not take. -/
def overlong (tooLong : Name → Bool) : FileCall Name Manifest DataKey → Bool
  | .writeBytes _ name _ => tooLong name
  | _ => false

/-- What each call answers where nothing fails but what must: a call that has an answer
gives one, unless it creates a file under a name that is too long. -/
inductive ReliableAnswers :
    Sem (FileCall Name Manifest DataKey) FileCall.Ret FileExc (StoreFiles Name Manifest) where
  | answered {call : FileCall Name Manifest DataKey} {fs fs' : StoreFiles Name Manifest}
      {r : Except FileExc call.Ret} (hshort : overlong Manifest DataKey tooLong call=false)
      (h : FileAnswers cipher call fs r fs') (hok : (∃ a,r=.ok a) ∨ isRemoval call=true) :
      ReliableAnswers call fs r fs'
  | refused {call : FileCall Name Manifest DataKey} {fs : StoreFiles Name Manifest}
      (h : overlong Manifest DataKey tooLong call=true ∨ ∀ a fs',¬FileAnswers cipher call fs (.ok a) fs')
      (hremoval : isRemoval call=false) : ReliableAnswers call fs (.error .osError) fs

variable {cipher tooLong}

/-- They are answers that the calls may give. -/
theorem ReliableAnswers.possible {call : FileCall Name Manifest DataKey} {fs fs' : StoreFiles Name Manifest}
    {r : Except FileExc call.Ret} (h : ReliableAnswers cipher tooLong call fs r fs') :
    FileAnswers cipher call fs r fs' := by
  cases h with
  | answered _ h _ => exact h
  | refused _ hremoval => exact .fault hremoval

/-- Every call is answered. -/
theorem ReliableAnswers.total (call : FileCall Name Manifest DataKey) (fs : StoreFiles Name Manifest) :
    ∃ r fs',ReliableAnswers cipher tooLong call fs r fs' := by
  cases hremoval : isRemoval call with
  | true =>
    have hanswer : ∃ r fs',FileAnswers cipher call fs r fs' := by
      cases call with
      | scandir dir =>
        cases hdir : fs.dir dir with
        | none => exact ⟨_,_,.scandirMissing hdir⟩
        | some files => exact ⟨_,_,.scandir hdir (List.Perm.refl _)⟩
      | unlink dir name => exact ⟨_,_,.unlink⟩
      | rmdir dir =>
        by_cases hempty : ∃ files,fs.dir dir=some files ∧ files.keys=[]
        · obtain ⟨files,hdir,hnone⟩ := hempty
          exact ⟨_,_,.rmdir hdir hnone⟩
        · exact ⟨_,_,.rmdirRaised fun files hdir hnone => hempty ⟨files,hdir,hnone⟩⟩
      | _ => exact nomatch hremoval
    obtain ⟨r,fs',h⟩ := hanswer
    have hshort : overlong Manifest DataKey tooLong call=false := by
      cases call with
      | writeBytes => exact nomatch hremoval
      | _ => rfl
    exact ⟨r,fs',.answered hshort h (.inr hremoval)⟩
  | false =>
    by_cases hanswer : overlong Manifest DataKey tooLong call=false ∧ ∃ a fs',FileAnswers cipher call fs (.ok a) fs'
    · obtain ⟨hshort,a,fs',h⟩ := hanswer
      exact ⟨_,fs',.answered hshort h (.inl ⟨a,rfl⟩)⟩
    · refine ⟨_,fs,.refused ?_ hremoval⟩
      cases hshort : overlong Manifest DataKey tooLong call with
      | true => exact .inl rfl
      | false => exact .inr fun a fs' h => hanswer ⟨hshort,a,fs',h⟩

variable (cipher tooLong) in
/-- Every migration ends. -/
theorem ends_reliable {α : Type} (p : FileM Name Manifest DataKey α) (fs : StoreFiles Name Manifest) :
    ∃ r fs',Ends (ReliableAnswers cipher tooLong) p fs r fs' := by
  have hanswered : ∀ call fs,True → ∃ r fs',ReliableAnswers cipher tooLong call fs r fs' ∧ True := by
    intro call fs _
    obtain ⟨r,fs',h⟩ := ReliableAnswers.total call fs
    exact ⟨r,fs',h,trivial⟩
  exact Ends.exists hanswered p trivial

/-- A call that has an answer gives one. -/
theorem safe_answered {α : Type} {call : FileCall Name Manifest DataKey} {f : call.Ret → FileM Name Manifest DataKey α}
    {C : StoreFiles Name Manifest → Prop} {Q : Except FileExc α → StoreFiles Name Manifest → Prop}
    {fs : StoreFiles Name Manifest} (hc : C fs) (hshort : overlong Manifest DataKey tooLong call=false)
    (hremoval : isRemoval call=false) (hanswer : ∃ a fs',FileAnswers cipher call fs (.ok a) fs')
    (hnext : ∀ a fs',FileAnswers cipher call fs (.ok a) fs' →
      Safe (ReliableAnswers cipher tooLong) C Q (f a) fs') :
    Safe (ReliableAnswers cipher tooLong) C Q (file call >>= f) fs := by
  refine Safe.perform_bind hc (fun a fs' h => hnext a fs' h.possible) fun e fs' h => ?_
  cases h with
  | answered _ _ hok =>
    rcases hok with ⟨a,ha⟩ | hyes
    · exact nomatch ha
    · rw [hremoval] at hyes
      exact nomatch hyes
  | refused hnone _ =>
    rcases hnone with hlong | hnone
    · rw [hshort] at hlong
      exact nomatch hlong
    · obtain ⟨a,fs',h⟩ := hanswer
      exact absurd h (hnone a fs')

/-- So does a last call. -/
theorem safe_answered_last {call : FileCall Name Manifest DataKey} {C : StoreFiles Name Manifest → Prop}
    {Q : Except FileExc call.Ret → StoreFiles Name Manifest → Prop}
    {fs : StoreFiles Name Manifest} (hc : C fs) (hshort : overlong Manifest DataKey tooLong call=false)
    (hremoval : isRemoval call=false) (hanswer : ∃ a fs',FileAnswers cipher call fs (.ok a) fs')
    (hnext : ∀ a fs',FileAnswers cipher call fs (.ok a) fs' → C fs' ∧ Q (.ok a) fs') :
    Safe (ReliableAnswers cipher tooLong) C Q (file call) fs := by
  refine Safe.perform hc fun r fs' h => ?_
  cases r with
  | ok a => exact hnext a fs' h.possible
  | error e =>
    cases h with
    | answered _ _ hok =>
      rcases hok with ⟨a,ha⟩ | hyes
      · exact nomatch ha
      · rw [hremoval] at hyes
        exact nomatch hyes
    | refused hnone _ =>
      rcases hnone with hlong | hnone
      · rw [hshort] at hlong
        exact nomatch hlong
      · obtain ⟨a,fs',h⟩ := hanswer
        exact absurd h (hnone a fs')

section Calm
variable {naming : ScratchNames Name} {old : StoreFiles Name Manifest}

/-- Staging blobs that are there, each of which can be transformed, under names that fit. -/
theorem calm_stageEach {transform : Bytes → FileM Name Manifest DataKey Bytes}
    (htransform : ∀ name content,old.at .blobs name=some content → ∀ fs,
      Safe (ReliableAnswers cipher tooLong) (fun _ => True) (fun r fs' => fs'=fs ∧ ∃ out,r=.ok out)
        (transform content) fs) (names : List Name)
    (hnames : ∀ name ∈ names,(∃ content,old.at .blobs name=some content) ∧ tooLong (naming.scratch name)=false)
    {fs : StoreFiles Name Manifest} (hblobs : fs.blobs=old.blobs) (hdir : (fs.dir .staging).isSome=true) :
    Safe (ReliableAnswers cipher tooLong) (fun _ => True)
      (fun r fs' => r=.ok () ∧ (fs'.dir .staging).isSome=true) (stageEach naming transform names) fs := by
  induction names generalizing fs with
  | nil => exact Safe.pure trivial ⟨rfl,hdir⟩
  | cons name rest ih =>
    obtain ⟨⟨content,hold⟩,hshort⟩ := hnames name List.mem_cons_self
    have hat : fs.at .blobs name=some content := by
      simp only [StoreFiles.at,StoreFiles.dir,hblobs]
      exact hold
    refine safe_answered trivial rfl rfl ⟨_,_,.readBytes hat⟩ fun content₁ fs₁ hread => ?_
    cases hread with
    | readBytes hat₁ =>
      rw [hat] at hat₁
      cases hat₁
      refine Safe.seq (htransform name content hold fs) (fun out fs₂ _ hout => ?_) fun e fs₂ _ hout => ?_
      · obtain ⟨rfl,_⟩ := hout
        refine safe_answered trivial hshort rfl ⟨_,_,.writeBytes hdir⟩ fun _ fs₃ hwrite => ?_
        cases hwrite with
        | writeBytes _ =>
          have hdir' : ((fs₂.write .staging (naming.scratch name) out).dir .staging).isSome=true := by simpa using hdir
          have hscratch : (fs₂.write .staging (naming.scratch name) out).at .staging (naming.scratch name)=some out := by
            rw [StoreFiles.at_write _ _ _ _ _ hdir,if_pos ⟨rfl,rfl⟩]
          refine safe_answered trivial rfl rfl ⟨_,_,.replaceStaged hscratch hdir'⟩ fun _ fs₄ hreplace => ?_
          cases hreplace with
          | replaceStaged _ _ =>
            exact ih (fun name' hmem => hnames name' (List.mem_cons_of_mem name hmem)) hblobs (by simpa using hdir)
      · obtain ⟨_,out,hok⟩ := hout
        cases hok

/-- The blobs that are listed are the old store's. -/
theorem calm_blobFiles {fs : StoreFiles Name Manifest} (hblobs : fs.blobs=old.blobs) :
    Safe (ReliableAnswers cipher tooLong) (fun _ => True)
      (fun r fs' => fs'=fs ∧ ∃ names,r=.ok names ∧
        ∀ name ∈ names,(∃ content,old.at .blobs name=some content) ∧ naming.isScratch name=false)
      (blobFiles naming) fs := by
  refine safe_answered trivial rfl rfl ⟨_,_,.dirExists⟩ fun there fs₁ hthere => ?_
  cases hthere with
  | dirExists =>
    refine Safe.ite (fun hyes => ?_) fun _ => Safe.pure trivial ⟨rfl,[],rfl,fun _ hmem => (nomatch hmem)⟩
    obtain ⟨files,hfiles⟩ := Option.isSome_iff_exists.mp hyes
    refine safe_answered trivial rfl rfl ⟨_,_,.iterdir hfiles (List.Perm.refl _)⟩ fun names fs₂ hlist => ?_
    cases hlist with
    | iterdir hdir hnames =>
      refine Safe.pure trivial ⟨rfl,_,rfl,fun name hmem => ?_⟩
      obtain ⟨hlisted,hplain⟩ := List.mem_filter.mp hmem
      refine ⟨?_,by simpa using hplain⟩
      have hkey := hnames.mem_iff.mp hlisted
      have hlookup := AList.lookup_isSome.mpr hkey
      obtain ⟨content,hcontent⟩ := Option.isSome_iff_exists.mp hlookup
      refine ⟨content,?_⟩
      have hold : old.dir .blobs=some _ := (congrArg id hblobs.symm).trans hdir
      simp only [StoreFiles.at,hold,Option.bind_some]
      exact hcontent

variable (cipher tooLong) in
/-- Removing a directory raises nothing, and keeps what its erasures keep. -/
theorem calm_rmtree {C : StoreFiles Name Manifest → Prop} (dir : Dir)
    (herase : ∀ fs name,C fs → C (fs.erase dir name)) (hrmdir : ∀ fs,C fs → C (fs.setDir dir none))
    {fs : StoreFiles Name Manifest} (hc : C fs) :
    Safe (ReliableAnswers cipher tooLong) (fun _ => True) (fun r fs' => C fs' ∧ r=.ok () ∧ fs'.dir dir=none)
      (rmtree dir) fs := by
  have hremoved : Safe (FileAnswers cipher) C (fun r fs' => r=.ok () ∧ fs'.dir dir=none) (rmtree dir) fs :=
    safe_rmtree herase (fun fs hc _ => hrmdir fs hc) hc
  exact (hremoved.narrow fun _ _ _ _ h => h.possible).crash fun _ _ => trivial

/-- Whether every blob's scratch name fits. -/
def Fits (tooLong : Name → Bool) (naming : ScratchNames Name) (old : StoreFiles Name Manifest) : Prop :=
  ∀ name content,old.at .blobs name=some content → naming.isScratch name=false → tooLong (naming.scratch name)=false

/-- Staging raises nothing. -/
theorem calm_stage {transform : Bytes → FileM Name Manifest DataKey Bytes}
    (htransform : ∀ name content,old.at .blobs name=some content → ∀ fs,
      Safe (ReliableAnswers cipher tooLong) (fun _ => True) (fun r fs' => fs'=fs ∧ ∃ out,r=.ok out)
        (transform content) fs) (hfits : Fits tooLong naming old)
    {fs : StoreFiles Name Manifest} (hblobs : fs.blobs=old.blobs) :
    Safe (ReliableAnswers cipher tooLong) (fun _ => True)
      (fun r fs' => r=.ok () ∧ (fs'.dir .staging).isSome=true) (stage naming transform) fs := by
  have hremoved := calm_rmtree cipher tooLong (C := fun fs => fs.blobs=old.blobs) .staging
    (fun fs name h => h) (fun fs h => h) hblobs
  refine Safe.seq hremoved (fun _ fs₁ _ hgone => ?_) fun e fs₁ _ h => (nomatch h.2.1)
  refine safe_answered trivial rfl rfl ⟨_,_,.mkdir⟩ fun _ fs₂ hmkdir => ?_
  cases hmkdir with
  | mkdir =>
    have hblobs₁ : (fs₁.setDir .staging (some ((fs₁.dir .staging).getD ∅))).blobs=old.blobs := hgone.1
    refine Safe.seq (calm_blobFiles hblobs₁) (fun names fs₃ _ hlisted => ?_) fun e fs₃ _ h => ?_
    · obtain ⟨rfl,names',heq,hnames⟩ := hlisted
      cases heq
      refine calm_stageEach htransform names (fun name hmem => ?_) hblobs₁ (by simp)
      obtain ⟨⟨content,hold⟩,hplain⟩ := hnames name hmem
      exact ⟨⟨content,hold⟩,hfits name content hold hplain⟩
    · obtain ⟨_,names,hok,_⟩ := h
      exact nomatch hok

/-- Moving staged files that are there raises nothing. -/
theorem calm_moveEach (names : List Name) (hnodup : names.Nodup) {fs : StoreFiles Name Manifest}
    (hnames : ∀ name ∈ names,∃ content,fs.at .staging name=some content) (hdir : (fs.dir .blobs).isSome=true) :
    Safe (ReliableAnswers cipher tooLong) (fun _ => True) (fun r _ => r=.ok ()) (moveEach naming names) fs := by
  induction names generalizing fs with
  | nil => exact Safe.pure trivial rfl
  | cons name rest ih =>
    obtain ⟨hnot,hrest⟩ := List.nodup_cons.mp hnodup
    refine Safe.ite (fun _ => ih hrest (fun name' hmem => hnames name' (List.mem_cons_of_mem name hmem)) hdir) fun _ => ?_
    obtain ⟨content,hat⟩ := hnames name List.mem_cons_self
    refine safe_answered trivial rfl rfl ⟨_,_,.replaceStaged hat hdir⟩ fun _ fs₁ hreplace => ?_
    cases hreplace with
    | replaceStaged hat₁ hdir₁ =>
      have hblobs : ((fs.erase .staging name).dir .blobs).isSome=true := by simpa using hdir
      refine ih hrest (fun name' hmem => ?_) (by simpa using hdir)
      obtain ⟨content',hat'⟩ := hnames name' (List.mem_cons_of_mem name hmem)
      have hne : name'≠name := fun heq => hnot (heq ▸ hmem)
      refine ⟨content',?_⟩
      rw [StoreFiles.at_write _ _ _ _ _ hblobs,if_neg (by simp),StoreFiles.at_erase,if_neg (by simp [hne])]
      exact hat'

/-- So does the rest of a commit. -/
theorem calm_finishCommit (marker : Marker Manifest) {fs : StoreFiles Name Manifest}
    (hdir : (fs.dir .staging).isSome=true) :
    Safe (ReliableAnswers cipher tooLong) (fun _ => True) (fun r _ => r=.ok ())
      (finishCommit naming marker : FileM Name Manifest DataKey Unit) fs := by
  have hmoved : Safe (ReliableAnswers cipher tooLong) (fun _ => True) (fun r _ => r=.ok ())
      (moveStaged naming : FileM Name Manifest DataKey Unit) fs := by
    refine safe_answered trivial rfl rfl ⟨_,_,.dirExists⟩ fun there fs₁ hthere => ?_
    cases hthere with
    | dirExists =>
      refine Safe.ite (fun _ => ?_) fun hno => absurd hdir hno
      refine safe_answered trivial rfl rfl ⟨_,_,.mkdir⟩ fun _ fs₂ hmkdir => ?_
      cases hmkdir with
      | mkdir =>
        obtain ⟨files,hfiles⟩ := Option.isSome_iff_exists.mp hdir
        have hstaging : (fs.setDir .blobs (some ((fs.dir .blobs).getD ∅))).dir .staging=some files := by
          simpa using hfiles
        refine safe_answered trivial rfl rfl ⟨_,_,.iterdir hstaging (List.Perm.refl _)⟩ fun names fs₃ hlist => ?_
        cases hlist with
        | iterdir hdir₁ hnames =>
          refine Safe.seq (calm_moveEach names (hnames.nodup_iff.mpr (AList.keys_nodup _)) (fun name hmem => ?_)
            (by simp)) (fun _ fs₄ _ _ => ?_) fun e fs₄ _ h => (nomatch h)
          · obtain ⟨content,hcontent⟩ := Option.isSome_iff_exists.mp
              (AList.lookup_isSome.mpr (hnames.mem_iff.mp hmem))
            refine ⟨content,?_⟩
            simp only [StoreFiles.at,hdir₁,Option.bind_some]
            exact hcontent
          · exact (calm_rmtree cipher tooLong (C := fun _ => True) .staging (fun _ _ _ => trivial)
              (fun _ _ => trivial) trivial).mono fun r fs' _ h => h.2.1
  refine Safe.seq hmoved (fun _ fs₁ _ _ => ?_) fun e fs₁ _ h => (nomatch h)
  have hflipped : Safe (ReliableAnswers cipher tooLong) (fun _ => True) (fun r _ => r=.ok ())
      (flipManifest marker : FileM Name Manifest DataKey Unit) fs₁ := by
    cases marker with
    | enable manifest =>
      refine safe_answered trivial rfl rfl ⟨_,_,.loadManifest⟩ fun current fs₂ hload => ?_
      cases hload with
      | loadManifest =>
        cases fs₁.manifest with
        | some _ => exact Safe.pure trivial rfl
        | none => exact safe_answered_last trivial rfl rfl ⟨_,_,.saveManifest⟩ fun _ _ _ => ⟨trivial,rfl⟩
    | disable => exact safe_answered_last trivial rfl rfl ⟨_,_,.deleteManifest⟩ fun _ _ _ => ⟨trivial,rfl⟩
  refine Safe.seq hflipped (fun _ fs₂ _ _ => ?_) fun e fs₂ _ h => (nomatch h)
  exact safe_answered_last trivial rfl rfl ⟨_,_,.unlinkMarker⟩ fun _ _ _ => ⟨trivial,rfl⟩

/-- And a whole commit over a staging directory. -/
theorem calm_commit (marker : Marker Manifest) {fs : StoreFiles Name Manifest}
    (hdir : (fs.dir .staging).isSome=true) :
    Safe (ReliableAnswers cipher tooLong) (fun _ => True) (fun r _ => r=.ok ())
      (commit naming marker : FileM Name Manifest DataKey Unit) fs := by
  refine safe_answered trivial rfl rfl ⟨_,_,.writeMarkerScratch⟩ fun _ fs₁ hwrite => ?_
  cases hwrite with
  | writeMarkerScratch =>
    refine safe_answered trivial rfl rfl ⟨_,_,.replaceMarker rfl⟩ fun _ fs₂ hreplace => ?_
    cases hreplace with
    | replaceMarker _ => exact calm_finishCommit marker hdir

/-- Recovery of a store without a marker raises nothing, and touches no blob. -/
theorem calm_recoverLocked (hmarker : old.marker=none) :
    Safe (ReliableAnswers cipher tooLong) (fun _ => True)
      (fun r fs' => Untouched old fs' ∧ r=.ok ()) (recoverLocked naming : FileM Name Manifest DataKey Unit) old := by
  have hu : Untouched old old := ⟨hmarker,rfl,rfl⟩
  refine safe_answered trivial rfl rfl ⟨_,_,.markerExists⟩ fun committing fs₁ hexists => ?_
  cases hexists with
  | markerExists =>
    refine Safe.ite (fun hyes => ?_) fun _ => ?_
    · rw [hmarker] at hyes
      exact nomatch hyes
    · refine safe_answered trivial rfl rfl ⟨_,_,.dirExists⟩ fun staged fs₂ hstaged => ?_
      cases hstaged with
      | dirExists =>
        refine Safe.ite (fun _ => ?_) fun _ => Safe.pure trivial ⟨hu,rfl⟩
        exact (calm_rmtree cipher tooLong .staging (fun fs name h => h.staging _) (fun fs h => h.staging none) hu).mono
          fun r fs' _ h => ⟨h.1,h.2.1⟩

/-- The store lock raises nothing of its own. -/
theorem calm_withStoreLock {body : FileM Name Manifest DataKey Unit} {fs : StoreFiles Name Manifest}
    (h : Safe (ReliableAnswers cipher tooLong) (fun _ => True) (fun r _ => r=.ok ()) body fs) :
    Safe (ReliableAnswers cipher tooLong) (fun _ => True) (fun r _ => r=.ok ()) (withStoreLock body) fs := by
  refine safe_answered trivial rfl rfl ⟨_,_,.acquireExclusive⟩ fun _ fs₁ hacquire => ?_
  cases hacquire with
  | acquireExclusive =>
    refine Safe.ensure (h.mono fun r fs₂ _ hr => ?_)
    exact safe_answered_last trivial rfl rfl ⟨_,_,.releaseExclusive⟩ fun _ _ _ => ⟨trivial,hr⟩

/-- Enabling a plain store raises nothing. -/
theorem calm_enable [Inhabited Manifest] (hseals : ∀ key blob,∃ secret,cipher.decrypt key secret=some blob)
    (hfits : Fits tooLong naming old) (hmarker : old.marker=none) (hplain : old.manifest=none) :
    Safe (ReliableAnswers cipher tooLong) (fun _ => True) (fun r _ => r=.ok ())
      (enable naming : FileM Name Manifest DataKey Unit) old := by
  refine calm_withStoreLock (Safe.seq (calm_recoverLocked hmarker) (fun _ fs₁ _ hu => ?_)
    fun e fs₁ _ h => (nomatch h.2))
  refine safe_answered trivial rfl rfl ⟨_,_,.loadManifest⟩ fun current fs₂ hload => ?_
  cases hload with
  | loadManifest =>
    rw [hu.1.manifest,hplain]
    have hmade : FileAnswers cipher .createEnvelope fs₁ (.ok (default,cipher.unwrap default)) fs₁ := .createEnvelope rfl
    refine safe_answered trivial rfl rfl ⟨_,_,hmade⟩ fun envelope fs₃ henvelope => ?_
    cases henvelope with
    | createEnvelope _ =>
      refine Safe.seq (calm_stage (fun name content _ fs => ?_) hfits hu.1.blobs) (fun _ fs₄ _ hstaged => ?_)
        fun e fs₄ _ h => (nomatch h.1)
      · obtain ⟨secret,hopens⟩ := hseals _ content
        exact safe_answered_last trivial rfl rfl ⟨_,_,.encrypt hopens⟩ fun out fs' hencrypt => by
          cases hencrypt with
          | encrypt _ => exact ⟨trivial,rfl,out,rfl⟩
      · exact calm_commit _ hstaged.2

/-- Disabling a store whose blobs open raises nothing. -/
theorem calm_disable {manifest : Manifest} (hopens : ∀ name content,old.at .blobs name=some content →
      ∃ blob,cipher.decrypt (cipher.unwrap manifest) content=some blob)
    (hfits : Fits tooLong naming old) (hmarker : old.marker=none) (hsealed : old.manifest=some manifest) :
    Safe (ReliableAnswers cipher tooLong) (fun _ => True) (fun r _ => r=.ok ())
      (disable naming : FileM Name Manifest DataKey Unit) old := by
  refine calm_withStoreLock (Safe.seq (calm_recoverLocked hmarker) (fun _ fs₁ _ hu => ?_)
    fun e fs₁ _ h => (nomatch h.2))
  refine safe_answered trivial rfl rfl ⟨_,_,.loadManifest⟩ fun current fs₂ hload => ?_
  cases hload with
  | loadManifest =>
    rw [hu.1.manifest,hsealed]
    refine safe_answered trivial rfl rfl ⟨_,_,.openEnvelope⟩ fun key fs₃ hopen => ?_
    cases hopen with
    | openEnvelope =>
      refine Safe.seq (calm_stage (fun name content hold fs => ?_) hfits hu.1.blobs) (fun _ fs₄ _ hstaged => ?_)
        fun e fs₄ _ h => (nomatch h.1)
      · obtain ⟨blob,hblob⟩ := hopens name content hold
        exact safe_answered_last trivial rfl rfl ⟨_,_,.decrypt hblob⟩ fun out fs' hdecrypt => by
          cases hdecrypt with
          | decrypt _ => exact ⟨trivial,rfl,out,rfl⟩
      · exact calm_commit _ hstaged.2

end Calm

section Returned
variable {naming : ScratchNames Name} {old : StoreFiles Name Manifest}

/-- Nothing is asked of a program. -/
theorem safe_any {α : Type} (p : FileM Name Manifest DataKey α) (fs : StoreFiles Name Manifest) :
    Safe (ReliableAnswers cipher tooLong) (fun _ => True) (fun _ _ => True) p fs :=
  Safe.of_reach fun _ _ _ => trivial

/-- Staging that returns has written every scratch name. -/
theorem fits_stageEach {transform : Bytes → FileM Name Manifest DataKey Bytes} (names : List Name)
    (fs : StoreFiles Name Manifest) :
    Safe (ReliableAnswers cipher tooLong) (fun _ => True)
      (fun r _ => r=.ok () → ∀ name ∈ names,tooLong (naming.scratch name)=false)
      (stageEach naming transform names) fs := by
  induction names generalizing fs with
  | nil => exact Safe.pure trivial fun _ _ hmem => (nomatch hmem)
  | cons name rest ih =>
    refine Safe.perform_bind trivial (fun content fs₁ _ => ?_) fun e fs₁ _ => ⟨trivial,fun hok => (nomatch hok)⟩
    refine Safe.seq (safe_any (transform content) fs₁) (fun out fs₂ _ _ => ?_) fun e fs₂ _ _ hok => (nomatch hok)
    refine Safe.perform_bind trivial (fun _ fs₃ hwrite => ?_) fun e fs₃ _ => ⟨trivial,fun hok => (nomatch hok)⟩
    have hshort : tooLong (naming.scratch name)=false := by
      cases hwrite with
      | answered hshort _ _ => exact hshort
    refine Safe.perform_bind trivial (fun _ fs₄ _ => ?_) fun e fs₄ _ => ⟨trivial,fun hok => (nomatch hok)⟩
    refine (ih fs₄).mono fun r fs' _ hrest hok name' hmem => ?_
    rcases List.mem_cons.mp hmem with rfl | hmem
    · exact hshort
    · exact hrest hok name' hmem

/-- Every blob is listed whose name is no scratch name. -/
theorem all_blobFiles {fs : StoreFiles Name Manifest} (hblobs : fs.blobs=old.blobs) :
    Safe (ReliableAnswers cipher tooLong) (fun _ => True)
      (fun r _ => ∀ names,r=.ok names →
        ∀ name content,old.at .blobs name=some content → naming.isScratch name=false → name∈names)
      (blobFiles naming) fs := by
  have hat : ∀ name,fs.at .blobs name=old.at .blobs name := fun name => by
    simp only [StoreFiles.at,StoreFiles.dir,hblobs]
  refine Safe.perform_bind trivial (fun there fs₁ hthere => ?_) fun e fs₁ _ => ⟨trivial,fun _ hok => (by cases hok)⟩
  cases hthere.possible with
  | dirExists =>
    refine Safe.ite (fun _ => ?_) fun hno => ?_
    · refine Safe.perform_bind trivial (fun names fs₂ hlist => ?_) fun e fs₂ _ =>
        ⟨trivial,fun _ hok => (by cases hok)⟩
      cases hlist.possible with
      | iterdir hdir hnames =>
        refine Safe.pure trivial fun names' heq name content hold hplain => ?_
        cases heq
        have hkey := mem_keys hdir ((hat name).trans hold)
        exact List.mem_filter.mpr ⟨hnames.mem_iff.mpr hkey,by simp [hplain]⟩
    · refine Safe.pure trivial fun names' _ name content hold _ => ?_
      have hmissing : fs.dir .blobs=none := by simpa using hno
      rw [← hat name] at hold
      simp only [StoreFiles.at,hmissing,Option.bind_none] at hold
      cases hold

/-- Every name fits where staging returns. -/
theorem fits_stage {transform : Bytes → FileM Name Manifest DataKey Bytes} {fs : StoreFiles Name Manifest}
    (hblobs : fs.blobs=old.blobs) :
    Safe (ReliableAnswers cipher tooLong) (fun _ => True) (fun r _ => r=.ok () → Fits tooLong naming old)
      (stage naming transform) fs := by
  have hremoved := calm_rmtree cipher tooLong (C := fun fs => fs.blobs=old.blobs) .staging
    (fun fs name h => h) (fun fs h => h) hblobs
  refine Safe.seq hremoved (fun _ fs₁ _ hgone => ?_) fun e fs₁ _ h => (nomatch h.2.1)
  refine Safe.perform_bind trivial (fun _ fs₂ hmkdir => ?_) fun e fs₂ _ => ⟨trivial,fun hok => (nomatch hok)⟩
  cases hmkdir.possible with
  | mkdir =>
    have hblobs₁ : (fs₁.setDir .staging (some ((fs₁.dir .staging).getD ∅))).blobs=old.blobs := hgone.1
    refine Safe.seq (all_blobFiles hblobs₁) (fun names fs₃ _ hall => ?_) fun e fs₃ _ _ hok => (nomatch hok)
    exact (fits_stageEach names fs₃).mono fun r fs' _ hnames hok name content hold hplain =>
      hnames hok name (hall names rfl name content hold hplain)

/-- Every name fits where enabling a plain store returns. -/
theorem fits_of_enable {fs : StoreFiles Name Manifest} (hmarker : old.marker=none)
    (h : Ends (ReliableAnswers cipher tooLong) (enable naming) old (.ok ()) fs) : Fits tooLong naming old := by
  have hlocked : Safe (ReliableAnswers cipher tooLong) (fun _ => True)
      (fun r _ => r=.ok () → Fits tooLong naming old) (enableLocked naming) old := by
    refine Safe.seq (calm_recoverLocked hmarker) (fun _ fs₁ _ hu => ?_) fun e fs₁ _ h => (nomatch h.2)
    refine Safe.perform_bind trivial (fun current fs₂ hload => ?_) fun e fs₂ _ => ⟨trivial,fun hok => (nomatch hok)⟩
    cases hload.possible with
    | loadManifest =>
      cases fs₁.manifest with
      | some manifest => exact Safe.raise trivial fun hok => (nomatch hok)
      | none =>
        refine Safe.perform_bind trivial (fun envelope fs₃ henvelope => ?_) fun e fs₃ _ =>
          ⟨trivial,fun hok => (nomatch hok)⟩
        cases henvelope.possible with
        | createEnvelope _ =>
          exact Safe.seq (fits_stage hu.1.blobs) (fun _ fs₄ _ hfits => (safe_any _ fs₄).mono fun _ _ _ _ _ => hfits rfl)
            fun e fs₄ _ _ hok => (nomatch hok)
  have hsafe : Safe (ReliableAnswers cipher tooLong) (fun _ => True)
      (fun r _ => r=.ok () → Fits tooLong naming old) (enable naming) old := by
    refine Safe.perform_bind trivial (fun _ fs₁ hacquire => ?_) fun e fs₁ _ => ⟨trivial,fun hok => (nomatch hok)⟩
    cases hacquire.possible with
    | acquireExclusive =>
      refine Safe.ensure (hlocked.mono fun r fs₂ _ hfits => ?_)
      refine Safe.perform trivial fun c fs₃ _ => ⟨trivial,?_⟩
      cases c with
      | ok _ => exact hfits
      | error e => exact fun hok => (nomatch hok)
  exact hsafe.result h rfl

end Returned

section Passed
variable {naming : ScratchNames Name}

omit [DecidableEq Name] in
variable (Manifest DataKey) in
/-- A call that leaves the blobs under scratch names as they are. -/
def spares (naming : ScratchNames Name) : FileCall Name Manifest DataKey → Prop
  | .writeBytes dir _ _ | .unlink dir _ | .rmdir dir => dir=.staging
  | .replaceStaged _ dir name => dir=.staging ∨ naming.isScratch name=false
  | _ => True

omit [DecidableEq Name] in
/-- Removing the staging directory leaves them. -/
theorem spares_rmtree : Uses (spares Manifest DataKey naming) (rmtree .staging : FileM Name Manifest DataKey Unit) := by
  have heach : ∀ names : List Name,
      Uses (spares Manifest DataKey naming) (unlinkEach .staging names : FileM Name Manifest DataKey Unit) := by
    intro names
    induction names with
    | nil => exact Uses.pure ()
    | cons name rest ih =>
      exact Uses.bind (Uses.attempt (Uses.perform (P := spares Manifest DataKey naming) rfl)) fun _ => ih
  refine Uses.bind (Uses.attempt (Uses.perform (P := spares Manifest DataKey naming) trivial)) fun r => ?_
  have hlast : Uses (spares Manifest DataKey naming)
      (do let _ ← attempt (file (.rmdir .staging)); return () : FileM Name Manifest DataKey Unit) :=
    Uses.bind (Uses.attempt (Uses.perform (P := spares Manifest DataKey naming) rfl)) fun _ => Uses.pure ()
  cases r with
  | ok names => exact Uses.bind (heach names) fun _ => hlast
  | error e => exact Uses.pure ()

omit [DecidableEq Name] in
/-- So does staging. -/
theorem spares_stage {transform : Bytes → FileM Name Manifest DataKey Bytes}
    (htransform : ∀ blob,Uses (spares Manifest DataKey naming) (transform blob)) :
    Uses (spares Manifest DataKey naming) (stage naming transform) := by
  have heach : ∀ names : List Name,Uses (spares Manifest DataKey naming) (stageEach naming transform names) := by
    intro names
    induction names with
    | nil => exact Uses.pure ()
    | cons name rest ih =>
      refine Uses.bind (Uses.perform (P := spares Manifest DataKey naming) trivial) fun content => ?_
      refine Uses.bind (htransform content) fun out => ?_
      refine Uses.bind (Uses.perform (P := spares Manifest DataKey naming) rfl) fun _ => ?_
      exact Uses.bind (Uses.perform (P := spares Manifest DataKey naming) (.inl rfl)) fun _ => ih
  refine Uses.bind spares_rmtree fun _ => ?_
  refine Uses.bind (Uses.perform (P := spares Manifest DataKey naming) trivial) fun _ => ?_
  refine Uses.bind (Uses.bind (Uses.perform (P := spares Manifest DataKey naming) trivial) fun there => ?_) heach
  refine Uses.ite (fun _ => ?_) fun _ => Uses.pure _
  exact Uses.bind (Uses.perform (P := spares Manifest DataKey naming) trivial) fun _ => Uses.pure _

omit [DecidableEq Name] in
/-- So does a commit, which moves no scratch file. -/
theorem spares_finishCommit (marker : Marker Manifest) :
    Uses (spares Manifest DataKey naming) (finishCommit naming marker : FileM Name Manifest DataKey Unit) := by
  have heach : ∀ names : List Name,
      Uses (spares Manifest DataKey naming) (moveEach naming names : FileM Name Manifest DataKey Unit) := by
    intro names
    induction names with
    | nil => exact Uses.pure ()
    | cons name rest ih =>
      refine Uses.ite (fun _ => ih) fun hplain => ?_
      exact Uses.bind (Uses.perform (P := spares Manifest DataKey naming) (.inr (by simpa using hplain))) fun _ => ih
  refine Uses.bind (Uses.bind (Uses.perform (P := spares Manifest DataKey naming) trivial) fun there => ?_) fun _ => ?_
  · refine Uses.ite (fun _ => ?_) fun _ => Uses.pure ()
    refine Uses.bind (Uses.perform (P := spares Manifest DataKey naming) trivial) fun _ => ?_
    refine Uses.bind (Uses.perform (P := spares Manifest DataKey naming) trivial) fun names => ?_
    exact Uses.bind (heach names) fun _ => spares_rmtree
  · refine Uses.bind ?_ fun _ => Uses.perform (P := spares Manifest DataKey naming) trivial
    cases marker with
    | enable manifest =>
      refine Uses.bind (Uses.perform (P := spares Manifest DataKey naming) trivial) fun current => ?_
      cases current with
      | none => exact Uses.perform (P := spares Manifest DataKey naming) trivial
      | some _ => exact Uses.pure ()
    | disable => exact Uses.perform (P := spares Manifest DataKey naming) trivial

omit [DecidableEq Name] in
/-- So does enabling. -/
theorem spares_enable : Uses (spares Manifest DataKey naming) (enable naming : FileM Name Manifest DataKey Unit) := by
  have hcall : ∀ {call : FileCall Name Manifest DataKey},spares Manifest DataKey naming call →
      Uses (spares Manifest DataKey naming) (file call) := fun h => Uses.perform h
  refine Uses.bind (hcall trivial) fun _ => Uses.ensure ?_ (hcall trivial)
  refine Uses.bind (Uses.bind (hcall trivial) fun committing => Uses.ite (fun _ => ?_) fun _ => ?_) fun _ => ?_
  · exact Uses.bind (hcall trivial) fun marker => spares_finishCommit marker
  · exact Uses.bind (hcall trivial) fun staged => Uses.ite (fun _ => spares_rmtree) fun _ => Uses.pure ()
  · refine Uses.bind (hcall trivial) fun current => ?_
    cases current with
    | some _ => exact Uses.raise _
    | none =>
      refine Uses.bind (hcall trivial) fun envelope => ?_
      refine Uses.bind (spares_stage fun blob => hcall trivial) fun _ => ?_
      refine Uses.bind (hcall trivial) fun _ => ?_
      exact Uses.bind (hcall trivial) fun _ => spares_finishCommit _

/-- A call that spares the blobs under scratch names leaves them. -/
theorem at_scratch_of_spares {call : FileCall Name Manifest DataKey} {fs fs' : StoreFiles Name Manifest}
    {r : Except FileExc call.Ret} (hspares : spares Manifest DataKey naming call) (h : FileAnswers cipher call fs r fs')
    {name : Name} (hscratch : naming.isScratch name=true) : fs'.at .blobs name=fs.at .blobs name := by
  cases h with
  | torn =>
    cases hspares
    exact StoreFiles.at_write_ne _ _ _ _ _ (by simp)
  | writeBytes hdir =>
    cases hspares
    exact StoreFiles.at_write_ne _ _ _ _ _ (by simp)
  | unlink =>
    cases hspares
    simp
  | rmdir hdir hempty =>
    cases hspares
    rfl
  | mkdir => exact StoreFiles.at_mkdir _ _ _ _
  | @replaceStaged _ from' name' dir content hat hdir =>
    have hne : ¬((.blobs : Dir)=dir ∧ name=name') := by
      rintro ⟨rfl,rfl⟩
      rcases hspares with hdir | hplain
      · cases hdir
      · rw [hscratch] at hplain
        cases hplain
    rw [StoreFiles.at_write_ne _ _ _ _ _ hne]
    simp
  | _ => rfl

/-- A blob under a scratch name is what it was when the store is enabled. -/
theorem enable_scratch {old fs : StoreFiles Name Manifest} {r : Except FileExc Unit}
    (h : Ends (ReliableAnswers cipher tooLong) (enable naming) old r fs) {name : Name}
    (hscratch : naming.isScratch name=true) : fs.at .blobs name=old.at .blobs name :=
  spares_enable.reach (I := fun fs => fs.at .blobs name=old.at .blobs name)
    (fun _ _ _ _ hspares hcall hat => (at_scratch_of_spares hspares hcall.possible hscratch).trans hat) h rfl

end Passed

end Reliable

/-- An authenticated cipher: every content can be sealed, and what opens is longer than
its content by a nonce and a tag. -/
structure AeadCipher (Manifest DataKey : Type) extends Cipher Manifest DataKey where
  /-- Every content can be sealed. -/
  seals : ∀ key blob,∃ secret,decrypt key secret=some blob
  /-- What opens is longer than its content. -/
  longer : ∀ key secret blob,decrypt key secret=some blob → blob.length < secret.length

/-- Whether a name is longer than a file system takes. -/
def nameTooLong (name : PyStr) : Bool := 255 < name.length

section RoundTrip
variable {Manifest DataKey : Type}

/-- A plain store, no migration of it under way, whose blobs lie under keys that `BlobKey` accepts. -/
structure PlainStore (fs : StoreFiles PyStr Manifest) : Prop where
  /-- No migration is under way. -/
  marker : fs.marker=none
  /-- The store is not encrypted. -/
  manifest : fs.manifest=none
  /-- Every blob has a key that `BlobKey` accepts. -/
  keys : ∀ name content,fs.at .blobs name=some content → isBlobKey name=true

/-- Every blob file is ciphertext that opens to the old content under the same key. -/
def Sealed (cipher : Cipher Manifest DataKey) (old fs : StoreFiles PyStr Manifest) : Prop :=
  ∃ manifest,fs.manifest=some manifest ∧ ∀ name,
    (fs.at .blobs name).map (cipher.decrypt (cipher.unwrap manifest))=(old.at .blobs name).map some

/-- `enable` returns and leaves every blob sealed, and a `disable` after it returns and
leaves the blobs of the beginning, file by file. -/
def RoundTrips (cipher : Cipher Manifest DataKey) (old : StoreFiles PyStr Manifest) : Prop :=
  ∀ r fs,Ends (ReliableAnswers cipher nameTooLong) (enable textScratch) old r fs →
    r=.ok () ∧ Sealed cipher old fs ∧
      ∀ r' fs',Ends (ReliableAnswers cipher nameTooLong) (disable textScratch) fs r' fs' →
        r'=.ok () ∧ ∀ name,fs'.at .blobs name=old.at .blobs name

/-- What is carried into an encrypted store is sealed. -/
theorem sealed_of_migrated {cipher : Cipher Manifest DataKey} {old fs : StoreFiles PyStr Manifest}
    (hplain : old.manifest=none) (h : Migrated cipher old fs) : Sealed cipher old fs := by
  have hflipped := h.flipped
  rw [hplain] at hflipped
  obtain ⟨manifest,hmanifest⟩ := Option.isSome_iff_exists.mp hflipped
  refine ⟨manifest,hmanifest,fun name => ?_⟩
  rcases h.carried name with ⟨hold,hnew⟩ | ⟨content,content',hold,hnew,plain,hopened,hopened'⟩
  · rw [hold,hnew]
    rfl
  · rw [hplain] at hopened
    rw [hmanifest] at hopened'
    cases hopened
    rw [hold,hnew]
    exact congrArg some hopened'

/-- What is carried back out of a sealed store is the old content. -/
theorem same_of_migrated {cipher : Cipher Manifest DataKey} {old fs fs' : StoreFiles PyStr Manifest}
    (hsealed : Sealed cipher old fs) (h : Migrated cipher fs fs') (name : PyStr) :
    fs'.at .blobs name=old.at .blobs name := by
  obtain ⟨manifest,hmanifest,hopens⟩ := hsealed
  have hflipped := h.flipped
  rw [hmanifest] at hflipped
  have hopen := hopens name
  rcases h.carried name with ⟨hmid,hnew⟩ | ⟨content,content',hmid,hnew,plain,hopened,hopened'⟩
  · rw [hmid] at hopen
    cases hold : old.at .blobs name with
    | none => exact hnew
    | some _ =>
      rw [hold] at hopen
      exact nomatch hopen
  · rw [hmanifest] at hopened
    have hplain : fs'.manifest=none := by simpa using hflipped
    rw [hplain] at hopened'
    cases hopened'
    have hblob : cipher.decrypt (cipher.unwrap manifest) content=some content' := hopened
    rw [hmid,Option.map_some,hblob] at hopen
    cases hold : old.at .blobs name with
    | none =>
      rw [hold] at hopen
      exact nomatch hopen
    | some blob =>
      rw [hold] at hopen
      cases hopen
      exact hnew

/-- A blob under a scratch name stays what it is, and nothing opens to itself. -/
theorem not_roundTrips_of_scratch (cipher : AeadCipher Manifest DataKey) {old : StoreFiles PyStr Manifest}
    {name : PyStr} {content : Bytes} (hat : old.at .blobs name=some content)
    (hscratch : textScratch.isScratch name=true) : ¬RoundTrips cipher.toCipher old := by
  intro h
  obtain ⟨r,fs,hend⟩ := ends_reliable cipher.toCipher nameTooLong (enable textScratch) old
  obtain ⟨_,⟨manifest,_,hopens⟩,_⟩ := h r fs hend
  have hopen := hopens name
  rw [enable_scratch hend hscratch,hat] at hopen
  exact absurd (cipher.longer _ _ _ (Option.some.inj hopen)) (Nat.lt_irrefl _)

/-- A scratch name fits where the name leaves room for the suffix. -/
theorem nameTooLong_scratch (name : PyStr) : nameTooLong (textScratch.scratch name)=false ↔ name.length ≤ 251 := by
  have hlength : (textScratch.scratch name).length=name.length+4 := List.length_append
  simp only [nameTooLong,decide_eq_false_iff_not,hlength]
  omega

variable [Inhabited Manifest]

/-- A plain store goes through encryption and back exactly when no blob's key ends in
`.tmp` or is longer than 251 characters. -/
theorem round_trips_iff (cipher : AeadCipher Manifest DataKey) {old : StoreFiles PyStr Manifest}
    (hplain : PlainStore old) :
    RoundTrips cipher.toCipher old ↔ ∀ name content,old.at .blobs name=some content →
      ¬(pyStr ".tmp") <:+ name ∧ name.length ≤ 251 := by
  constructor
  · intro h
    have hminted : ∀ name content,old.at .blobs name=some content → textScratch.isScratch name=false := by
      intro name content hat
      cases hscratch : textScratch.isScratch name with
      | false => rfl
      | true => exact absurd h (not_roundTrips_of_scratch cipher hat hscratch)
    obtain ⟨r,fs,hend⟩ := ends_reliable cipher.toCipher nameTooLong (enable textScratch) old
    obtain ⟨rfl,_⟩ := h r fs hend
    have hfits := fits_of_enable hplain.marker hend
    intro name content hat
    refine ⟨fun hsuffix => ?_,(nameTooLong_scratch name).mp (hfits name content hat (hminted name content hat))⟩
    have hscratch : textScratch.isScratch name=true := List.isSuffixOf_iff_suffix.mpr hsuffix
    rw [hminted name content hat] at hscratch
    exact nomatch hscratch
  · intro h
    have hminted : ∀ name content,old.at .blobs name=some content → textScratch.isScratch name=false := by
      intro name content hat
      cases hscratch : textScratch.isScratch name with
      | false => rfl
      | true => exact absurd (List.isSuffixOf_iff_suffix.mp hscratch) (h name content hat).1
    have hfits : Fits nameTooLong textScratch old := fun name content hat _ =>
      (nameTooLong_scratch name).mpr (h name content hat).2
    intro r fs hend
    have hok : r=.ok () := (calm_enable cipher.seals hfits hplain.marker hplain.manifest).result hend
    have hmigrated : Migrated cipher.toCipher old fs :=
      ((safe_enable hminted hplain.marker).narrow fun _ _ _ _ h => h.possible).result hend ⟨(),hok⟩
    have hsealed := sealed_of_migrated hplain.manifest hmigrated
    refine ⟨hok,hsealed,fun r' fs' hend' => ?_⟩
    obtain ⟨manifest,hmanifest,hopens⟩ := hsealed
    have hnames : ∀ name content,fs.at .blobs name=some content → ∃ blob,old.at .blobs name=some blob ∧
        cipher.decrypt (cipher.unwrap manifest) content=some blob := by
      intro name content hat
      have hopen := hopens name
      rw [hat] at hopen
      cases hold : old.at .blobs name with
      | none =>
        rw [hold] at hopen
        exact nomatch hopen
      | some blob =>
        rw [hold] at hopen
        exact ⟨blob,rfl,Option.some.inj hopen⟩
    have hok' : r'=.ok () := by
      refine (calm_disable (fun name content hat => ?_) (fun name content hat hname => ?_) hmigrated.marker
        hmanifest).result hend'
      · obtain ⟨blob,_,hblob⟩ := hnames name content hat
        exact ⟨blob,hblob⟩
      · obtain ⟨blob,hold,_⟩ := hnames name content hat
        exact hfits name blob hold hname
    have hminted' : ∀ name content,fs.at .blobs name=some content → textScratch.isScratch name=false := by
      intro name content hat
      obtain ⟨blob,hold,_⟩ := hnames name content hat
      exact hminted name blob hold
    have hback : Migrated cipher.toCipher fs fs' :=
      ((safe_disable hminted' hmigrated.marker).narrow fun _ _ _ _ h => h.possible).result hend' ⟨(),hok'⟩
    exact ⟨hok',same_of_migrated ⟨manifest,hmanifest,hopens⟩ hback⟩

end RoundTrip

/-- The cipher that writes its key in front. -/
def prefixAead : AeadCipher UInt8 UInt8 where
  toCipher := prefixCipher
  seals key blob := ⟨key::blob,prefixCipher_opens key blob⟩
  longer key secret blob h := by
    cases secret with
    | nil => exact nomatch h
    | cons first rest =>
      simp only [prefixCipher] at h
      split at h
      · cases h
        exact Nat.lt_succ_self _
      · exact nomatch h

/-- A plain store of one blob. -/
def oneBlob (name : PyStr) : StoreFiles PyStr UInt8 where
  blobs := some (AList.singleton name [1])
  staging := none
  marker := none
  markerScratch := none
  manifest := none
  executions := true
  registry := true

/-- Its only blob. -/
theorem oneBlob_at {name name' : PyStr} {content : Bytes} (h : (oneBlob name).at .blobs name'=some content) :
    name'=name := by
  have hfiles : (oneBlob name).dir .blobs=some (AList.singleton name [1]) := rfl
  have hkey := mem_keys hfiles h
  simpa using hkey

/-- A store of one blob is a plain store. -/
theorem plain_oneBlob {name : PyStr} (hkey : isBlobKey name=true) : PlainStore (oneBlob name) :=
  ⟨rfl,rfl,fun _ _ hat => oneBlob_at hat ▸ hkey⟩

/-- A blob under a minted key goes there and back. -/
theorem round_trips_minted : RoundTrips prefixAead.toCipher (oneBlob (pyStr "7f_0a")) := by
  refine (round_trips_iff prefixAead (plain_oneBlob (by decide))).mpr fun name content hat => ?_
  rw [oneBlob_at hat]
  decide

/-- A blob under the key `a.tmp` stays in the clear. -/
theorem tmp_blob_stays_plain : PlainStore (oneBlob (pyStr "a.tmp")) ∧
    ¬RoundTrips prefixAead.toCipher (oneBlob (pyStr "a.tmp")) := by
  have hat : (oneBlob (pyStr "a.tmp")).at .blobs (pyStr "a.tmp")=some [1] := by decide
  exact ⟨plain_oneBlob (by decide),not_roundTrips_of_scratch prefixAead hat (by decide)⟩

end GenericMlCache.EncryptionRoundTrip
