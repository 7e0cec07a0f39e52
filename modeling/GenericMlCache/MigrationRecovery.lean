import GenericMlCache.StoreEncryptor
import GenericMlCache.ExecutionModel

/-!
# A migration that stops is finished or undone

A migration may stop before any of its calls, and so may each recovery after
it. Up to the marker the blobs and the manifest are those of the old store;
from the marker on every blob is either staged in its new form or in place.
Recovery that ends therefore leaves the old store or the new one.
-/

namespace GenericMlCache.MigrationRecovery

open CallProgram StoreEncryptor PythonText ExecutionModel

section Recovery
variable {Name Manifest DataKey : Type} [DecidableEq Name]
variable (cipher : Cipher Manifest DataKey) (naming : ScratchNames Name)

/-- What a blob holds under a manifest: itself in a plain store. -/
def opened : Option Manifest → Bytes → Option Bytes
  | none, content => some content
  | some manifest, content => cipher.decrypt (cipher.unwrap manifest) content

/-- Two blobs open to the same content, each under its own manifest. -/
def Carries (old new : Option Manifest) (content content' : Bytes) : Prop :=
  ∃ plain,opened cipher old content=some plain ∧ opened cipher new content'=some plain

/-- A blob of the old store is a blob of the new one that opens to the same content. -/
def Carried (old : StoreFiles Name Manifest) (fs : StoreFiles Name Manifest) (name : Name) : Prop :=
  (old.at .blobs name=none ∧ fs.at .blobs name=none) ∨
    ∃ content content',old.at .blobs name=some content ∧ fs.at .blobs name=some content' ∧
      Carries cipher old.manifest fs.manifest content content'

/-- Blobs and manifest are the old store's. -/
structure Untouched (old fs : StoreFiles Name Manifest) : Prop where
  /-- No commit is under way. -/
  marker : fs.marker=none
  /-- The blobs are the old ones. -/
  blobs : fs.blobs=old.blobs
  /-- So is the manifest. -/
  manifest : fs.manifest=old.manifest

/-- A blob during the commit: staged in its new form, or in place. -/
def InTransit (old : StoreFiles Name Manifest) (target : Option Manifest) (fs : StoreFiles Name Manifest)
    (name : Name) : Prop :=
  (old.at .blobs name=none ∧ fs.at .staging name=none ∧ fs.at .blobs name=none) ∨
    ∃ content content',old.at .blobs name=some content ∧
      Carries cipher old.manifest target content content' ∧
      (fs.at .staging name=some content' ∨ (fs.at .staging name=none ∧ fs.at .blobs name=some content'))

/-- The marker is written and the commit is under way. -/
structure Committed (old : StoreFiles Name Manifest) (marker : Marker Manifest)
    (fs : StoreFiles Name Manifest) : Prop where
  /-- The marker is written. -/
  written : fs.marker=some marker
  /-- It is of the other kind of store. -/
  flips : marker.target.isSome=!old.manifest.isSome
  /-- The manifest is flipped only after every staged file is in place. -/
  manifest : fs.manifest=old.manifest ∨ (fs.manifest=marker.target ∧ fs.staging=none)
  /-- Every blob is on its way. -/
  inTransit : ∀ name,naming.isScratch name=false → InTransit cipher old marker.target fs name
  /-- No scratch file is among the blobs. -/
  clean : ∀ name,naming.isScratch name=true → fs.at .blobs name=none

/-- Nothing of the migration is left and every blob is in its new form. -/
structure Migrated (old fs : StoreFiles Name Manifest) : Prop where
  /-- The marker is gone. -/
  marker : fs.marker=none
  /-- So is the staging directory. -/
  staging : fs.staging=none
  /-- The store is of the other kind. -/
  flipped : fs.manifest.isSome=!old.manifest.isSome
  /-- Every blob is in its new form. -/
  carried : ∀ name,Carried cipher old fs name

/-- The states that a migration may be stopped in. -/
inductive Recoverable (old fs : StoreFiles Name Manifest) : Prop where
  | untouched (h : Untouched old fs)
  | committed (marker : Marker Manifest) (h : Committed cipher naming old marker fs)
  | migrated (h : Migrated cipher old fs)

/-- The states that a recovery leaves. -/
inductive Settled (old fs : StoreFiles Name Manifest) : Prop where
  | untouched (h : Untouched old fs) (hstaging : fs.staging=none)
  | migrated (h : Migrated cipher old fs)

section Removal
variable {cipher} {C : StoreFiles Name Manifest → Prop} {dir : Dir}

/-- The loop of `rmtree` leaves no file of the directory. -/
theorem safe_unlinkEach (herase : ∀ fs name,C fs → C (fs.erase dir name)) (names : List Name)
    {fs : StoreFiles Name Manifest} (hc : C fs)
    (hall : ∀ name content,fs.at dir name=some content → name∈names) :
    Safe (FileAnswers cipher) C (fun r fs' => r=.ok () ∧ ∀ name,fs'.at dir name=none)
      (unlinkEach dir names) fs := by
  induction names generalizing fs with
  | nil =>
    refine Safe.pure hc ⟨rfl,fun name => ?_⟩
    cases hat : fs.at dir name with
    | none => rfl
    | some content => exact (nomatch hall name content hat)
  | cons name rest ih =>
    have hunlinked : Safe (FileAnswers cipher) C (fun _ fs' => fs'=fs.erase dir name)
        (file (.unlink dir name)) fs := by
      refine Safe.perform hc fun r fs' hr => ?_
      cases hr with
      | fault h => exact (nomatch h)
      | unlink => exact ⟨herase fs name hc,rfl⟩
    refine Safe.attempt_seq hunlinked fun r fs' hc' hfs' => ?_
    subst hfs'
    refine ih hc' fun name' content hat => ?_
    rw [StoreFiles.at_erase] at hat
    by_cases heq : name'=name
    · simp [heq] at hat
    · have hmem := hall name' content (by simpa [heq] using hat)
      exact (List.mem_cons.mp hmem).resolve_left heq

/-- A file with a content is listed. -/
theorem mem_keys {fs : StoreFiles Name Manifest} {files : Files Name} {name : Name} {content : Bytes}
    (h : fs.dir dir=some files) (hat : fs.at dir name=some content) : name∈files.keys := by
  have hlookup : files.lookup name=some content := by simpa [StoreFiles.at,h] using hat
  by_contra hnot
  rw [AList.lookup_eq_none.mpr hnot] at hlookup
  cases hlookup

/-- A directory none of whose files has a content lists none. -/
theorem keys_eq_nil {fs : StoreFiles Name Manifest} {files : Files Name} (h : fs.dir dir=some files)
    (hnone : ∀ name,fs.at dir name=none) : files.keys=[] := by
  refine List.eq_nil_iff_forall_not_mem.mpr fun name hmem => ?_
  have hlookup : files.lookup name=none := by simpa [StoreFiles.at,h] using hnone name
  exact AList.lookup_eq_none.mp hlookup hmem

/-- What a removal keeps holds during it and after it, and the directory is gone. -/
theorem safe_rmtree (herase : ∀ fs name,C fs → C (fs.erase dir name))
    (hrmdir : ∀ fs,C fs → (∀ name,fs.at dir name=none) → C (fs.setDir dir none))
    {fs : StoreFiles Name Manifest} (hc : C fs) :
    Safe (FileAnswers cipher) C (fun r fs' => r=.ok () ∧ fs'.dir dir=none) (rmtree dir) fs := by
  have hscanned : Safe (FileAnswers cipher) C (fun r fs' => match r with
      | .ok (names : List Name) => ∀ name content,fs'.at dir name=some content → name∈names
      | .error _ => fs'.dir dir=none) (file (.scandir dir)) fs := by
    refine Safe.perform hc fun r fs' hr => ?_
    cases hr with
    | fault h => exact (nomatch h)
    | scandir hdir hnames => exact ⟨hc,fun name content hat => hnames.mem_iff.mpr (mem_keys hdir hat)⟩
    | scandirMissing hdir => exact ⟨hc,hdir⟩
  refine Safe.attempt_seq hscanned fun r fs' hc' hr => ?_
  cases r with
  | error e => exact Safe.pure hc' ⟨rfl,hr⟩
  | ok names =>
    refine Safe.seq (safe_unlinkEach herase names hc' hr) (fun _ fs₁ hc₁ hgone => ?_)
      fun e fs₁ _ h => (nomatch h.1)
    have hremoved : Safe (FileAnswers cipher) C (fun _ fs₂ => fs₂.dir dir=none) (file (.rmdir dir)) fs₁ := by
      refine Safe.perform hc₁ fun r fs₂ hr => ?_
      cases hr with
      | fault h => exact (nomatch h)
      | rmdir hdir hempty => exact ⟨hrmdir fs₁ hc₁ hgone.2,by simp⟩
      | rmdirRaised hnot =>
        refine ⟨hc₁,?_⟩
        cases hdir : fs₁.dir dir with
        | none => rfl
        | some files => exact absurd (keys_eq_nil hdir hgone.2) (hnot files hdir)
    exact Safe.attempt_seq hremoved fun r fs₂ hc₂ hnone => Safe.pure hc₂ ⟨rfl,hnone⟩

end Removal

section Staging
variable {cipher} {naming} {old : StoreFiles Name Manifest} {target : Option Manifest}

omit [DecidableEq Name] in
/-- Blobs and manifest do not depend on the staging directory. -/
theorem Untouched.staging {fs : StoreFiles Name Manifest} (h : Untouched old fs)
    (files : Option (Files Name)) : Untouched old (fs.setDir .staging files) := ⟨h.marker,h.blobs,h.manifest⟩

/-- The blobs are the old store's. -/
theorem Untouched.at_blobs {fs : StoreFiles Name Manifest} (h : Untouched old fs) (name : Name) :
    fs.at .blobs name=old.at .blobs name := by
  simp only [StoreFiles.at,StoreFiles.dir,h.blobs]

variable (cipher naming old target) in
/-- Every staged file is a blob in its new form, and what is not staged is still to come. -/
structure Staged (rest : List Name) (fs : StoreFiles Name Manifest) : Prop where
  /-- The old store is untouched. -/
  untouched : Untouched old fs
  /-- A staged file is a blob in its new form. -/
  exact : ∀ name content',naming.isScratch name=false → fs.at .staging name=some content' →
    ∃ content,old.at .blobs name=some content ∧ Carries cipher old.manifest target content content'
  /-- A blob is staged or still to come. -/
  complete : ∀ name content,old.at .blobs name=some content →
    name∈rest ∨ ∃ content',fs.at .staging name=some content'

/-- A blob transformed and written under its scratch name. -/
theorem Staged.scratch {name : Name} {rest : List Name} {fs : StoreFiles Name Manifest} {content : Bytes}
    (hminted : ∀ name content,old.at .blobs name=some content → naming.isScratch name=false)
    (h : Staged cipher naming old target rest fs) (hdir : (fs.dir .staging).isSome=true) :
    Staged cipher naming old target rest (fs.write .staging (naming.scratch name) content) := by
  have hscratch := naming.isScratch_scratch name
  refine ⟨h.untouched.staging _,fun name' content' hplain hat => ?_,fun name' content₁ hat => ?_⟩
  · have hne : name'≠naming.scratch name := by
      rintro rfl
      rw [hscratch] at hplain
      cases hplain
    rw [fs.at_write _ _ _ _ hdir] at hat
    exact h.exact name' content' hplain (by simpa [hne] using hat)
  · have hne : name'≠naming.scratch name := by
      rintro rfl
      have hplain := hminted _ _ hat
      rw [hscratch] at hplain
      cases hplain
    refine (h.complete name' content₁ hat).imp_right fun hstaged => hstaged.imp fun content' hstaged => ?_
    rw [fs.at_write _ _ _ _ hdir]
    simpa [hne] using hstaged

/-- The scratch file takes the blob's name. -/
theorem Staged.renamed {name : Name} {rest : List Name} {fs : StoreFiles Name Manifest}
    {content content' : Bytes}
    (hminted : ∀ name content,old.at .blobs name=some content → naming.isScratch name=false)
    (h : Staged cipher naming old target (name::rest) fs) (hdir : (fs.dir .staging).isSome=true)
    (hold : old.at .blobs name=some content)
    (hcarries : Carries cipher old.manifest target content content') :
    Staged cipher naming old target rest
      ((fs.erase .staging (naming.scratch name)).write .staging name content') := by
  have hscratch := naming.isScratch_scratch name
  have hdir' : ((fs.erase .staging (naming.scratch name)).dir .staging).isSome=true := by simpa using hdir
  have hat' : ∀ name',naming.isScratch name'=false → name'≠name →
      ((fs.erase .staging (naming.scratch name)).write .staging name content').at .staging name'=
        fs.at .staging name' := by
    intro name' hplain hne
    have hne' : name'≠naming.scratch name := by
      rintro rfl
      rw [hscratch] at hplain
      exact nomatch hplain
    rw [StoreFiles.at_write _ _ _ _ _ hdir']
    simp [hne,hne']
  refine ⟨(h.untouched.staging _).staging _,fun name' staged hplain hat => ?_,fun name' content₁ hat => ?_⟩
  · by_cases hne : name'=name
    · subst hne
      rw [StoreFiles.at_write _ _ _ _ _ hdir'] at hat
      have heq : content'=staged := by simpa using hat
      subst heq
      exact ⟨content,hold,hcarries⟩
    · rw [hat' name' hplain hne] at hat
      exact h.exact name' staged hplain hat
  · by_cases hne : name'=name
    · subst hne
      refine Or.inr ⟨content',?_⟩
      rw [StoreFiles.at_write _ _ _ _ _ hdir']
      simp
    · rw [hat' name' (hminted _ _ hat) hne]
      have hcome := h.complete name' content₁ hat
      exact hcome.imp_left fun hmem => (List.mem_cons.mp hmem).resolve_left hne

variable {transform : Bytes → FileM Name Manifest DataKey Bytes}

/-- Staging one blob after another leaves blobs and manifest alone. -/
theorem safe_stageEach
    (hminted : ∀ name content,old.at .blobs name=some content → naming.isScratch name=false)
    (htransform : ∀ blob fs,Safe (FileAnswers cipher) (fun fs' => fs'=fs) (fun r _ => ∀ out,r=.ok out →
      Carries cipher old.manifest target blob out) (transform blob) fs)
    (names : List Name) {fs : StoreFiles Name Manifest} (h : Staged cipher naming old target names fs) :
    Safe (FileAnswers cipher) (Untouched old) (fun r fs' => r=.ok () → Staged cipher naming old target [] fs')
      (stageEach naming transform names) fs := by
  induction names generalizing fs with
  | nil => exact Safe.pure h.untouched fun _ => h
  | cons name rest ih =>
    refine Safe.perform_bind h.untouched (fun content fs₁ hread => ?_) fun e fs₁ hread => ?_
    · cases hread with
      | readBytes hat =>
        have hold : old.at .blobs name=some content := (h.untouched.at_blobs name).symm.trans hat
        have hsafe : Safe (FileAnswers cipher) (Untouched old) (fun r fs' => fs'=fs ∧ ∀ out,r=.ok out →
            Carries cipher old.manifest target content out) (transform content) fs :=
          (htransform content fs).crash fun fs' heq => heq ▸ h.untouched
        refine Safe.seq hsafe (fun out fs₂ _ hout => ?_) fun e fs₂ _ _ => fun hok => (nomatch hok)
        obtain ⟨rfl,hcarries⟩ := hout
        refine Safe.perform_bind h.untouched (fun _ fs₃ hwrite => ?_) fun e fs₃ hwrite => ?_
        · cases hwrite with
          | writeBytes hdir =>
            have hscratch : Staged cipher naming old target (name::rest)
                (fs₂.write .staging (naming.scratch name) out) := h.scratch hminted hdir
            refine Safe.perform_bind hscratch.untouched (fun _ fs₄ hreplace => ?_) fun e fs₄ hreplace => ?_
            · cases hreplace with
              | replaceStaged hat hdir' =>
                rw [StoreFiles.at_write _ _ _ _ _ hdir] at hat
                rw [if_pos ⟨rfl,rfl⟩] at hat
                cases hat
                exact ih (hscratch.renamed hminted hdir' hold (hcarries out rfl))
            · cases hreplace with
              | fault => exact ⟨hscratch.untouched,fun hok => (nomatch hok)⟩
        · cases hwrite with
          | fault => exact ⟨h.untouched,fun hok => (nomatch hok)⟩
          | torn => exact ⟨h.untouched.staging _,fun hok => (nomatch hok)⟩
    · cases hread with
      | fault => exact ⟨h.untouched,fun hok => (nomatch hok)⟩

/-- The blobs that a migration finds are the old store's. -/
theorem safe_blobFiles
    (hminted : ∀ name content,old.at .blobs name=some content → naming.isScratch name=false)
    {fs : StoreFiles Name Manifest} (h : Untouched old fs) (hempty : ∀ name,fs.at .staging name=none) :
    Safe (FileAnswers cipher) (Untouched old)
      (fun r fs' => ∀ names,r=.ok names → Staged cipher naming old target names fs') (blobFiles naming) fs := by
  have hstaged : ∀ names,(∀ name content,old.at .blobs name=some content → name∈names) →
      Staged cipher naming old target names fs := by
    intro names hall
    refine ⟨h,fun name content' _ hat => ?_,fun name content hat => Or.inl (hall name content hat)⟩
    rw [hempty name] at hat
    exact nomatch hat
  refine Safe.perform_bind h (fun there fs₁ hthere => ?_) fun e fs₁ hthere => ?_
  · cases hthere with
    | dirExists =>
      refine Safe.ite (fun hyes => ?_) fun hno => ?_
      · refine Safe.perform_bind h (fun names fs₂ hlist => ?_) fun e fs₂ hlist => ?_
        · cases hlist with
          | iterdir hdir hnames =>
            refine Safe.pure h fun names' heq => ?_
            cases heq
            refine hstaged _ fun name content hat => ?_
            have hkey := mem_keys hdir ((h.at_blobs name).trans hat)
            exact List.mem_filter.mpr ⟨hnames.mem_iff.mpr hkey,by simp [hminted name content hat]⟩
        · cases hlist with
          | fault => exact ⟨h,fun names hok => (nomatch hok)⟩
      · refine Safe.pure h fun names heq => hstaged names fun name content hat => ?_
        have hmissing : fs.dir .blobs=none := by simpa using hno
        rw [← h.at_blobs name] at hat
        simp only [StoreFiles.at,hmissing,Option.bind_none] at hat
        exact nomatch hat
  · cases hthere with
    | fault => exact ⟨h,fun names hok => (nomatch hok)⟩

/-- Staging leaves every blob of the old store staged in its new form. -/
theorem safe_stage
    (hminted : ∀ name content,old.at .blobs name=some content → naming.isScratch name=false)
    (htransform : ∀ blob fs,Safe (FileAnswers cipher) (fun fs' => fs'=fs) (fun r _ => ∀ out,r=.ok out →
      Carries cipher old.manifest target blob out) (transform blob) fs)
    {fs : StoreFiles Name Manifest} (h : Untouched old fs) :
    Safe (FileAnswers cipher) (Untouched old) (fun r fs' => r=.ok () → Staged cipher naming old target [] fs')
      (stage naming transform) fs := by
  have hremoved : Safe (FileAnswers cipher) (Untouched old)
      (fun r fs' => r=.ok () ∧ fs'.dir .staging=none) (rmtree .staging) fs :=
    safe_rmtree (fun fs name hu => hu.staging _) (fun fs hu _ => hu.staging none) h
  refine Safe.seq hremoved (fun _ fs₁ hu hnone => ?_) fun e fs₁ _ hr => (nomatch hr.1)
  refine Safe.perform_bind hu (fun _ fs₂ hmkdir => ?_) fun e fs₂ hmkdir => ?_
  · cases hmkdir with
    | mkdir =>
      have hempty : ∀ name,(fs₁.setDir .staging (some ((fs₁.dir .staging).getD ∅))).at .staging name=none := by
        intro name
        rw [StoreFiles.at_mkdir]
        simp only [StoreFiles.at,hnone.2,Option.bind_none]
      have hlisted : Safe (FileAnswers cipher) (Untouched old)
          (fun r fs' => ∀ names,r=.ok names → Staged cipher naming old target names fs') (blobFiles naming)
          (fs₁.setDir .staging (some ((fs₁.dir .staging).getD ∅))) :=
        safe_blobFiles hminted (hu.staging _) hempty
      refine Safe.seq hlisted (fun names fs₃ _ hstaged => ?_) fun e fs₃ _ _ => fun hok => (nomatch hok)
      exact safe_stageEach hminted htransform names (hstaged names rfl)
  · cases hmkdir with
    | fault => exact ⟨hu,fun hok => (nomatch hok)⟩

end Staging

section Committing
variable {cipher} {naming} {old : StoreFiles Name Manifest} {marker : Marker Manifest}

/-- The marker goes over a staging directory that holds every blob. -/
theorem Staged.commit {fs : StoreFiles Name Manifest}
    (hminted : ∀ name content,old.at .blobs name=some content → naming.isScratch name=false)
    (hflips : marker.target.isSome=!old.manifest.isSome)
    (h : Staged cipher naming old marker.target [] fs) :
    Committed cipher naming old marker { fs with marker := some marker, markerScratch := none } := by
  refine ⟨rfl,hflips,Or.inl h.untouched.manifest,fun name hplain => ?_,fun name hscratch => ?_⟩
  · cases hold : old.at .blobs name with
    | none =>
      refine Or.inl ⟨hold,?_,(h.untouched.at_blobs name).trans hold⟩
      cases hstaged : fs.at .staging name with
      | none => exact hstaged
      | some content' =>
        obtain ⟨content,hcontent,_⟩ := h.exact name content' hplain hstaged
        rw [hold] at hcontent
        exact nomatch hcontent
    | some content =>
      obtain ⟨content',hstaged⟩ := (h.complete name content hold).resolve_left (List.not_mem_nil)
      obtain ⟨content₁,hcontent,hcarries⟩ := h.exact name content' hplain hstaged
      rw [hold] at hcontent
      cases hcontent
      exact Or.inr ⟨content,content',hold,hcarries,Or.inl hstaged⟩
  · have hnone : old.at .blobs name=none := by
      cases hold : old.at .blobs name with
      | none => rfl
      | some content =>
        have hplain := hminted name content hold
        rw [hscratch] at hplain
        exact nomatch hplain
    exact (h.untouched.at_blobs name).trans hnone

/-- Every staged file is in place. -/
def Moved (naming : ScratchNames Name) (fs : StoreFiles Name Manifest) : Prop :=
  ∀ name,naming.isScratch name=false → fs.at .staging name=none

/-- A commit whose files have the same contents is one still. -/
theorem Committed.congr {fs fs' : StoreFiles Name Manifest} (h : Committed cipher naming old marker fs)
    (hmarker : fs'.marker=fs.marker) (hmanifest : fs'.manifest=fs.manifest)
    (hgone : fs.staging=none → fs'.staging=none) (hblobs : ∀ name,fs'.at .blobs name=fs.at .blobs name)
    (hstaging : ∀ name,naming.isScratch name=false → fs'.at .staging name=fs.at .staging name) :
    Committed cipher naming old marker fs' := by
  refine ⟨hmarker.trans h.written,h.flips,?_,fun name hplain => ?_,fun name hscratch => ?_⟩
  · rw [hmanifest]
    exact h.manifest.imp_right fun ⟨htarget,hnone⟩ => ⟨htarget,hgone hnone⟩
  · have hin := h.inTransit name hplain
    simp only [InTransit,hblobs,hstaging name hplain] at hin ⊢
    exact hin
  · rw [hblobs]
    exact h.clean name hscratch

variable (cipher naming old marker) in
/-- A commit with every staged file in place. -/
def Emptied (fs : StoreFiles Name Manifest) : Prop :=
  Committed cipher naming old marker fs ∧ Moved naming fs

/-- What is left of the staging directory may be removed once every file is in place. -/
theorem Emptied.erase {fs : StoreFiles Name Manifest} (h : Emptied cipher naming old marker fs)
    (name : Name) : Emptied cipher naming old marker (fs.erase .staging name) := by
  have hmoved : Moved naming (fs.erase .staging name) := by
    intro name' hplain
    simp [h.2 name' hplain]
  refine ⟨h.1.congr rfl rfl (fun hnone => ?_) (fun name' => by simp) fun name' hplain => ?_,hmoved⟩
  · simp [StoreFiles.erase,StoreFiles.dir,StoreFiles.setDir,hnone]
  · rw [hmoved name' hplain,h.2 name' hplain]

/-- The emptied staging directory may be removed. -/
theorem Emptied.rmdir {fs : StoreFiles Name Manifest} (h : Emptied cipher naming old marker fs) :
    Emptied cipher naming old marker (fs.setDir .staging none) := by
  have hmoved : Moved naming (fs.setDir .staging none) := by
    intro name _
    simp [StoreFiles.at]
  refine ⟨h.1.congr rfl rfl (fun _ => rfl) (fun name => ?_) fun name hplain => ?_,hmoved⟩
  · simp [StoreFiles.at]
  · rw [hmoved name hplain,h.2 name hplain]

/-- One staged file is moved into place. -/
theorem Committed.move {fs : StoreFiles Name Manifest} {name : Name} {content : Bytes}
    (h : Committed cipher naming old marker fs) (hplain : naming.isScratch name=false)
    (hstaged : fs.at .staging name=some content) (hdir : (fs.dir .blobs).isSome=true) :
    Committed cipher naming old marker ((fs.erase .staging name).write .blobs name content) := by
  have hdir' : ((fs.erase .staging name).dir .blobs).isSome=true := by simpa using hdir
  refine ⟨by simpa using h.written,h.flips,?_,fun name' hplain' => ?_,fun name' hscratch => ?_⟩
  · refine Or.inl ((h.manifest.resolve_right fun hgone => ?_))
    simp only [StoreFiles.at,StoreFiles.dir,hgone.2,Option.bind_none] at hstaged
    cases hstaged
  · have hin := h.inTransit name' hplain'
    simp only [InTransit,StoreFiles.at_write _ _ _ _ _ hdir',StoreFiles.at_erase] at hin ⊢
    by_cases hne : name'=name
    · subst hne
      rcases hin with ⟨_,hnone,_⟩ | ⟨content₁,content',hold,hcarries,hstands⟩
      · rw [hstaged] at hnone
        cases hnone
      · have heq : content=content' := by
          rcases hstands with hstands | ⟨hnone,_⟩
          · rw [hstaged] at hstands
            exact Option.some.inj hstands
          · rw [hstaged] at hnone
            cases hnone
        subst heq
        exact Or.inr ⟨content₁,content,hold,hcarries,Or.inr ⟨by simp,by simp⟩⟩
    · simpa [hne] using hin
  · have hne : name'≠name := by
      rintro rfl
      rw [hscratch] at hplain
      cases hplain
    rw [StoreFiles.at_write _ _ _ _ _ hdir']
    simpa [hne] using h.clean name' hscratch

/-- The moves put every listed file in place. -/
theorem safe_moveEach (names : List Name) {fs : StoreFiles Name Manifest}
    (h : Committed cipher naming old marker fs)
    (hall : ∀ name content,naming.isScratch name=false → fs.at .staging name=some content → name∈names) :
    Safe (FileAnswers cipher) (Committed cipher naming old marker)
      (fun r fs' => r=.ok () → Moved naming fs') (moveEach naming names) fs := by
  induction names generalizing fs with
  | nil =>
    refine Safe.pure h fun _ name hplain => ?_
    cases hstaged : fs.at .staging name with
    | none => rfl
    | some content => exact (by cases hall name content hplain hstaged)
  | cons staged rest ih =>
    refine Safe.ite (fun hscratch => ih h fun name content hplain hat => ?_) fun hplain => ?_
    · refine (List.mem_cons.mp (hall name content hplain hat)).resolve_left ?_
      rintro rfl
      rw [hscratch] at hplain
      cases hplain
    · refine Safe.perform_bind h (fun _ fs₁ hreplace => ?_) fun e fs₁ hreplace => ?_
      · cases hreplace with
        | replaceStaged hat hdir =>
          refine ih (h.move (by simpa using hplain) hat hdir) fun name content hplain' hat' => ?_
          rw [StoreFiles.at_write _ _ _ _ _ (by simpa using hdir)] at hat'
          by_cases hne : name=staged
          · simp [hne] at hat'
          · have hmem := hall name content hplain' (by simpa [hne] using hat')
            exact (List.mem_cons.mp hmem).resolve_left hne
      · cases hreplace with
        | fault => exact ⟨h,fun hok => (by cases hok)⟩

/-- The moves end with the staging directory gone. -/
theorem safe_moveStaged {fs : StoreFiles Name Manifest} (h : Committed cipher naming old marker fs) :
    Safe (FileAnswers cipher) (Committed cipher naming old marker)
      (fun r fs' => r=.ok () → fs'.staging=none) (moveStaged naming) fs := by
  refine Safe.perform_bind h (fun there fs₁ hthere => ?_) fun e fs₁ hthere => ?_
  · cases hthere with
    | dirExists =>
      refine Safe.ite (fun hyes => ?_) fun hno => ?_
      · refine Safe.perform_bind h (fun _ fs₂ hmkdir => ?_) fun e fs₂ hmkdir => ?_
        · cases hmkdir with
          | mkdir =>
            have h₂ : Committed cipher naming old marker (fs.setDir .blobs (some ((fs.dir .blobs).getD ∅))) :=
              h.congr rfl rfl id (fun name => fs.at_mkdir .blobs .blobs name)
                fun name _ => fs.at_mkdir .blobs .staging name
            refine Safe.perform_bind h₂ (fun names fs₃ hlist => ?_) fun e fs₃ hlist => ?_
            · cases hlist with
              | iterdir hdir hnames =>
                have hmoves := safe_moveEach names h₂ fun name content _ hat =>
                  hnames.mem_iff.mpr (mem_keys hdir hat)
                refine Safe.seq hmoves (fun _ fs₄ h₄ hmoved => ?_) fun e fs₄ _ _ => fun hok => (nomatch hok)
                have hremoved : Safe (FileAnswers cipher) (Emptied cipher naming old marker)
                    (fun r fs' => r=.ok () ∧ fs'.dir .staging=none) (rmtree .staging) fs₄ :=
                  safe_rmtree (fun fs name hfs => hfs.erase name) (fun fs hfs _ => hfs.rmdir) ⟨h₄,hmoved rfl⟩
                exact (hremoved.crash fun fs hfs => hfs.1).mono fun r fs' _ hr _ => hr.2.2
            · cases hlist with
              | fault => exact ⟨h₂,fun hok => (nomatch hok)⟩
        · cases hmkdir with
          | fault => exact ⟨h,fun hok => (nomatch hok)⟩
      · refine Safe.pure h fun _ => ?_
        simpa [StoreFiles.dir] using hno
  · cases hthere with
    | fault => exact ⟨h,fun hok => (nomatch hok)⟩

variable (cipher naming old marker) in
/-- A commit whose staging directory is gone. -/
def Placed (fs : StoreFiles Name Manifest) : Prop :=
  Committed cipher naming old marker fs ∧ fs.staging=none

/-- The flip ends with the marker's manifest. -/
theorem safe_flipManifest {fs : StoreFiles Name Manifest} (h : Placed cipher naming old marker fs) :
    Safe (FileAnswers cipher) (Placed cipher naming old marker)
      (fun r fs' => r=.ok () → fs'.manifest=marker.target) (flipManifest marker) fs := by
  have hflip : ∀ target,target=marker.target →
      Committed cipher naming old marker { fs with manifest := target } := by
    intro target htarget
    exact ⟨h.1.written,h.1.flips,Or.inr ⟨htarget,h.2⟩,h.1.inTransit,h.1.clean⟩
  cases marker with
  | disable =>
    refine Safe.perform h fun r fs' hr => ?_
    cases hr with
    | fault => exact ⟨h,fun hok => (nomatch hok)⟩
    | deleteManifest => exact ⟨⟨hflip none rfl,h.2⟩,fun _ => rfl⟩
  | enable manifest =>
    refine Safe.perform_bind h (fun current fs₁ hload => ?_) fun e fs₁ hload => ?_
    · cases hload with
      | loadManifest =>
        cases hcurrent : fs.manifest with
        | none =>
          refine Safe.perform h fun r fs' hr => ?_
          cases hr with
          | fault => exact ⟨h,fun hok => (nomatch hok)⟩
          | saveManifest => exact ⟨⟨hflip (some manifest) rfl,h.2⟩,fun _ => rfl⟩
        | some present =>
          -- an old store that had a manifest is not enabled, so this one is the marker's
          refine Safe.pure h fun _ => ?_
          rcases h.1.manifest with hold | htarget
          · have hflips := h.1.flips
            rw [← hold,hcurrent] at hflips
            exact nomatch hflips
          · exact htarget.1
    · cases hload with
      | fault => exact ⟨h,fun hok => (nomatch hok)⟩

/-- With the manifest flipped, the store without its marker is the new one. -/
theorem Committed.migrated {fs : StoreFiles Name Manifest}
    (hminted : ∀ name content,old.at .blobs name=some content → naming.isScratch name=false)
    (h : Committed cipher naming old marker fs) (hstaging : fs.staging=none)
    (hmanifest : fs.manifest=marker.target) : Migrated cipher old { fs with marker := none } := by
  refine ⟨rfl,hstaging,?_,fun name => ?_⟩
  · rw [hmanifest]
    exact h.flips
  · cases hscratch : naming.isScratch name with
    | true =>
      refine Or.inl ⟨?_,h.clean name hscratch⟩
      cases hold : old.at .blobs name with
      | none => rfl
      | some content =>
        have hplain := hminted name content hold
        rw [hscratch] at hplain
        cases hplain
    | false =>
      have hgone : fs.at .staging name=none := by
        simp only [StoreFiles.at,StoreFiles.dir,hstaging,Option.bind_none]
      rcases h.inTransit name hscratch with ⟨hold,_,hnone⟩ | ⟨content,content',hold,hcarries,hstands⟩
      · exact Or.inl ⟨hold,hnone⟩
      · rcases hstands with hstaged | ⟨_,hblob⟩
        · rw [hgone] at hstaged
          cases hstaged
        · refine Or.inr ⟨content,content',hold,hblob,?_⟩
          show Carries cipher old.manifest fs.manifest content content'
          rw [hmanifest]
          exact hcarries

/-- A commit ends in the new store. -/
theorem safe_finishCommit {fs : StoreFiles Name Manifest}
    (hminted : ∀ name content,old.at .blobs name=some content → naming.isScratch name=false)
    (h : Committed cipher naming old marker fs) :
    Safe (FileAnswers cipher) (Recoverable cipher naming old) (fun r fs' => r=.ok () → Migrated cipher old fs')
      (finishCommit naming marker) fs := by
  refine Safe.seq ((safe_moveStaged h).crash fun fs hfs => .committed marker hfs)
    (fun _ fs₁ _ hmoved => ?_) fun e fs₁ _ _ => fun hok => (nomatch hok)
  refine Safe.seq ((safe_flipManifest ⟨hmoved.1,hmoved.2 rfl⟩).crash fun fs hfs => .committed marker hfs.1)
    (fun _ fs₂ hrec hflipped => ?_) fun e fs₂ _ _ => fun hok => (nomatch hok)
  obtain ⟨⟨hcommitted,hstaging⟩,hmanifest⟩ := hflipped
  refine Safe.perform hrec fun r fs₃ hr => ?_
  cases hr with
  | fault => exact ⟨hrec,fun hok => (nomatch hok)⟩
  | unlinkMarker =>
    have hmigrated := hcommitted.migrated hminted hstaging (hmanifest rfl)
    exact ⟨.migrated hmigrated,fun _ => hmigrated⟩

/-- A commit over a full staging directory ends in the new store. -/
theorem safe_commit {fs : StoreFiles Name Manifest}
    (hminted : ∀ name content,old.at .blobs name=some content → naming.isScratch name=false)
    (hflips : marker.target.isSome=!old.manifest.isSome)
    (h : Staged cipher naming old marker.target [] fs) :
    Safe (FileAnswers cipher) (Recoverable cipher naming old) (fun r fs' => r=.ok () → Migrated cipher old fs')
      (commit naming marker) fs := by
  refine Safe.perform_bind (.untouched h.untouched) (fun _ fs₁ hwrite => ?_) fun e fs₁ hwrite => ?_
  · cases hwrite with
    | writeMarkerScratch =>
      have hu : Untouched old { fs with markerScratch := some marker } :=
        ⟨h.untouched.marker,h.untouched.blobs,h.untouched.manifest⟩
      refine Safe.perform_bind (.untouched hu) (fun _ fs₂ hreplace => ?_) fun e fs₂ hreplace => ?_
      · cases hreplace with
        | replaceMarker hscratch =>
          cases hscratch
          have h₁ : Staged cipher naming old marker.target [] { fs with markerScratch := some marker } :=
            ⟨hu,h.exact,h.complete⟩
          exact safe_finishCommit hminted (h₁.commit hminted hflips)
      · cases hreplace with
        | fault => exact ⟨.untouched hu,fun hok => (nomatch hok)⟩
  · cases hwrite with
    | fault => exact ⟨.untouched h.untouched,fun hok => (nomatch hok)⟩

end Committing

section Recovering
variable {cipher} {naming} {old : StoreFiles Name Manifest}

/-- The store lock changes no file. -/
theorem safe_withStoreLock {α : Type} {C P : StoreFiles Name Manifest → Prop}
    {body : FileM Name Manifest DataKey α} {fs : StoreFiles Name Manifest} (hc : C fs)
    (h : Safe (FileAnswers cipher) C (fun r fs' => (∃ a,r=.ok a) → P fs') body fs) :
    Safe (FileAnswers cipher) C (fun r fs' => (∃ a,r=.ok a) → P fs') (withStoreLock body) fs := by
  refine Safe.perform_bind hc (fun _ fs₁ hacquire => ?_) fun e fs₁ hacquire => ?_
  · cases hacquire with
    | acquireExclusive =>
      refine Safe.ensure (h.mono fun r fs₂ hc₂ hr => Safe.perform hc₂ fun c fs₃ hrelease => ?_)
      cases hrelease with
      | releaseExclusive => exact ⟨hc₂,hr⟩
      | fault => exact ⟨hc₂,fun ⟨_,hok⟩ => (nomatch hok)⟩
  · cases hacquire with
    | fault => exact ⟨hc,fun ⟨_,hok⟩ => (nomatch hok)⟩

/-- Without a marker, what was staged is dropped. -/
theorem safe_rollback {fs : StoreFiles Name Manifest} (h : Untouched old fs) :
    Safe (FileAnswers cipher) (Untouched old) (fun r fs' => r=.ok () → fs'.staging=none)
      (recoverLocked naming) fs := by
  refine Safe.perform_bind h (fun committing fs₁ hexists => ?_) fun e fs₁ hexists => ?_
  · cases hexists with
    | markerExists =>
      refine Safe.ite (fun hyes => ?_) fun _ => ?_
      · rw [h.marker] at hyes
        cases hyes
      · refine Safe.perform_bind h (fun staged fs₂ hstaged => ?_) fun e fs₂ hstaged => ?_
        · cases hstaged with
          | dirExists =>
            refine Safe.ite (fun _ => ?_) fun hno => Safe.pure h fun _ => ?_
            · have hremoved : Safe (FileAnswers cipher) (Untouched old)
                  (fun r fs' => r=.ok () ∧ fs'.dir .staging=none) (rmtree .staging) fs :=
                safe_rmtree (fun fs name hu => hu.staging _) (fun fs hu _ => hu.staging none) h
              exact hremoved.mono fun r fs' _ hr _ => hr.2
            · simpa [StoreFiles.dir] using hno
        · cases hstaged with
          | fault => exact ⟨h,fun hok => (by cases hok)⟩
  · cases hexists with
    | fault => exact ⟨h,fun hok => (by cases hok)⟩

/-- Recovery under the store lock settles every state a migration may be stopped in. -/
theorem safe_recoverLocked
    (hminted : ∀ name content,old.at .blobs name=some content → naming.isScratch name=false)
    {fs : StoreFiles Name Manifest} (h : Recoverable cipher naming old fs) :
    Safe (FileAnswers cipher) (Recoverable cipher naming old) (fun r fs' => r=.ok () → Settled cipher old fs')
      (recoverLocked naming) fs := by
  cases h with
  | untouched hu =>
    refine ((safe_rollback hu).crash fun fs' hfs' => .untouched hfs').mono fun r fs' _ hr hok => ?_
    exact .untouched hr.1 (hr.2 hok)
  | committed marker hcommitted =>
    have hc : Recoverable cipher naming old fs := .committed marker hcommitted
    refine Safe.perform_bind hc (fun committing fs₁ hexists => ?_) fun e fs₁ hexists => ?_
    · cases hexists with
      | markerExists =>
        refine Safe.ite (fun _ => ?_) fun hno => absurd ?_ hno
        · refine Safe.perform_bind hc (fun found fs₂ hread => ?_) fun e fs₂ hread => ?_
          · cases hread with
            | readMarker hmarker =>
              rw [hcommitted.written] at hmarker
              cases hmarker
              exact (safe_finishCommit hminted hcommitted).mono fun r fs' _ hr hok => .migrated (hr hok)
          · cases hread with
            | fault => exact ⟨hc,fun hok => (by cases hok)⟩
        · rw [hcommitted.written]
          rfl
    · cases hexists with
      | fault => exact ⟨hc,fun hok => (by cases hok)⟩
  | migrated hmigrated =>
    have hc : Recoverable cipher naming old fs := .migrated hmigrated
    refine Safe.perform_bind hc (fun committing fs₁ hexists => ?_) fun e fs₁ hexists => ?_
    · cases hexists with
      | markerExists =>
        refine Safe.ite (fun hyes => ?_) fun _ => ?_
        · rw [hmigrated.marker] at hyes
          cases hyes
        · refine Safe.perform_bind hc (fun staged fs₂ hstaged => ?_) fun e fs₂ hstaged => ?_
          · cases hstaged with
            | dirExists =>
              refine Safe.ite (fun hyes => ?_) fun _ => Safe.pure hc fun _ => .migrated hmigrated
              rw [StoreFiles.dir,hmigrated.staging] at hyes
              cases hyes
          · cases hstaged with
            | fault => exact ⟨hc,fun hok => (by cases hok)⟩
    · cases hexists with
      | fault => exact ⟨hc,fun hok => (by cases hok)⟩

/-- A recovery that ends without an error has settled the store. -/
theorem safe_recover
    (hminted : ∀ name content,old.at .blobs name=some content → naming.isScratch name=false)
    {fs : StoreFiles Name Manifest} (h : Recoverable cipher naming old fs) :
    Safe (FileAnswers cipher) (Recoverable cipher naming old)
      (fun r fs' => (∃ a,r=.ok a) → Settled cipher old fs') (recover naming) fs := by
  have hlocked : Safe (FileAnswers cipher) (Recoverable cipher naming old)
      (fun r fs' => (∃ a,r=.ok a) → Settled cipher old fs') (withStoreLock (recoverLocked naming)) fs :=
    safe_withStoreLock h ((safe_recoverLocked hminted h).mono fun r fs' _ hr hok =>
      hok.elim fun _ hok => hr hok)
  refine Safe.perform_bind h (fun committing fs₁ hexists => ?_) fun e fs₁ hexists => ?_
  · cases hexists with
    | markerExists =>
      refine Safe.ite (fun _ => hlocked) fun hmarker => ?_
      refine Safe.perform_bind h (fun staged fs₂ hstaged => ?_) fun e fs₂ hstaged => ?_
      · cases hstaged with
        | dirExists =>
          refine Safe.ite (fun _ => hlocked) fun hno => Safe.pure h fun _ => ?_
          have hstaging : fs.staging=none := by simpa [StoreFiles.dir] using hno
          cases h with
          | untouched hu => exact .untouched hu hstaging
          | committed marker hcommitted =>
            rw [hcommitted.written] at hmarker
            exact absurd rfl hmarker
          | migrated hmigrated => exact .migrated hmigrated
      · cases hstaged with
        | fault => exact ⟨h,fun hok => hok.elim fun _ hok => (by cases hok)⟩
  · cases hexists with
    | fault => exact ⟨h,fun hok => hok.elim fun _ hok => (by cases hok)⟩

/-- Recoveries that may stop anywhere keep a store recoverable. -/
theorem recoverable_recoveries
    (hminted : ∀ name content,old.at .blobs name=some content → naming.isScratch name=false)
    {fs fs' : StoreFiles Name Manifest} (h : Recoverable cipher naming old fs)
    (hrun : Relation.ReflTransGen
      (fun fs fs' => ∃ rest,Reach (FileAnswers cipher) (recover naming) fs rest fs') fs fs') :
    Recoverable cipher naming old fs' := by
  induction hrun with
  | refl => exact h
  | tail _ hrecovery ih =>
    obtain ⟨rest,hreach⟩ := hrecovery
    exact (safe_recover hminted ih).state hreach

end Recovering

section Migrating
variable {cipher} {naming} {old : StoreFiles Name Manifest}

/-- A blob is encrypted under the envelope's key. -/
theorem safe_encrypt {manifest : Manifest} (hplain : old.manifest=none) (blob : Bytes)
    (fs : StoreFiles Name Manifest) :
    Safe (FileAnswers cipher) (fun fs' => fs'=fs)
      (fun r _ => ∀ out,r=.ok out → Carries cipher old.manifest (some manifest) blob out)
      (file (.encrypt (cipher.unwrap manifest) blob)) fs := by
  refine Safe.perform (C := fun fs' => fs'=fs) rfl fun r fs' hr => ?_
  cases hr with
  | fault => exact ⟨rfl,fun out hok => (nomatch hok)⟩
  | encrypt hopens =>
    refine ⟨rfl,fun out hok => ?_⟩
    cases hok
    rw [hplain]
    exact ⟨blob,rfl,hopens⟩

/-- A blob is decrypted with the manifest's key. -/
theorem safe_decrypt {manifest : Manifest} (hsealed : old.manifest=some manifest) (blob : Bytes)
    (fs : StoreFiles Name Manifest) :
    Safe (FileAnswers cipher) (fun fs' => fs'=fs)
      (fun r _ => ∀ out,r=.ok out → Carries cipher old.manifest none blob out)
      (file (.decrypt (cipher.unwrap manifest) blob)) fs := by
  refine Safe.perform (C := fun fs' => fs'=fs) rfl fun r fs' hr => ?_
  cases hr with
  | fault => exact ⟨rfl,fun out hok => (nomatch hok)⟩
  | decrypt hopens =>
    refine ⟨rfl,fun out hok => ?_⟩
    cases hok
    rw [hsealed]
    exact ⟨_,hopens,rfl⟩

/-- Staging and commit, from the old store to the new one. -/
theorem safe_migrate {marker : Marker Manifest} {transform : Bytes → FileM Name Manifest DataKey Bytes}
    (hminted : ∀ name content,old.at .blobs name=some content → naming.isScratch name=false)
    (hflips : marker.target.isSome=!old.manifest.isSome)
    (htransform : ∀ blob fs,Safe (FileAnswers cipher) (fun fs' => fs'=fs) (fun r _ => ∀ out,r=.ok out →
      Carries cipher old.manifest marker.target blob out) (transform blob) fs)
    {fs : StoreFiles Name Manifest} (h : Untouched old fs) :
    Safe (FileAnswers cipher) (Recoverable cipher naming old) (fun r fs' => r=.ok () → Migrated cipher old fs')
      (do stage naming transform; commit naming marker) fs := by
  refine Safe.seq ((safe_stage hminted htransform h).crash fun fs hu => .untouched hu)
    (fun _ fs₁ _ hstaged => ?_) fun e fs₁ _ _ => fun hok => (nomatch hok)
  exact safe_commit hminted hflips (hstaged.2 rfl)

/-- `enable` keeps the store recoverable. -/
theorem safe_enable
    (hminted : ∀ name content,old.at .blobs name=some content → naming.isScratch name=false)
    (h : old.marker=none) :
    Safe (FileAnswers cipher) (Recoverable cipher naming old)
      (fun r fs' => (∃ a,r=.ok a) → Migrated cipher old fs') (enable naming) old := by
  have hu : Untouched old old := ⟨h,rfl,rfl⟩
  refine safe_withStoreLock (.untouched hu) ?_
  refine Safe.seq ((safe_rollback hu).crash fun fs hfs => .untouched hfs) (fun _ fs₁ _ hrolled => ?_)
    fun e fs₁ _ _ => fun ⟨_,hok⟩ => (nomatch hok)
  have hu₁ := hrolled.1
  refine Safe.perform_bind (.untouched hu₁) (fun current fs₂ hload => ?_) fun e fs₂ hload => ?_
  · cases hload with
    | loadManifest =>
      cases hmanifest : fs₁.manifest with
      | some manifest => exact Safe.raise (.untouched hu₁) fun ⟨_,hok⟩ => (nomatch hok)
      | none =>
        have hplain : old.manifest=none := hu₁.manifest.symm.trans hmanifest
        refine Safe.perform_bind (.untouched hu₁) (fun envelope fs₃ henvelope => ?_) fun e fs₃ henvelope => ?_
        · cases henvelope with
          | createEnvelope hkey =>
            cases hkey
            have hflips : ∀ manifest : Manifest,(Marker.enable manifest).target.isSome=!old.manifest.isSome := by
              intro manifest
              rw [hplain]
              rfl
            exact (safe_migrate hminted (hflips _) (fun blob fs => safe_encrypt hplain blob fs) hu₁).mono
              fun r fs' _ hr ⟨_,hok⟩ => hr hok
        · cases henvelope with
          | fault => exact ⟨.untouched hu₁,fun ⟨_,hok⟩ => (nomatch hok)⟩
  · cases hload with
    | fault => exact ⟨.untouched hu₁,fun ⟨_,hok⟩ => (nomatch hok)⟩

/-- `disable` keeps the store recoverable. -/
theorem safe_disable
    (hminted : ∀ name content,old.at .blobs name=some content → naming.isScratch name=false)
    (h : old.marker=none) :
    Safe (FileAnswers cipher) (Recoverable cipher naming old)
      (fun r fs' => (∃ a,r=.ok a) → Migrated cipher old fs') (disable naming) old := by
  have hu : Untouched old old := ⟨h,rfl,rfl⟩
  refine safe_withStoreLock (.untouched hu) ?_
  refine Safe.seq ((safe_rollback hu).crash fun fs hfs => .untouched hfs) (fun _ fs₁ _ hrolled => ?_)
    fun e fs₁ _ _ => fun ⟨_,hok⟩ => (nomatch hok)
  have hu₁ := hrolled.1
  refine Safe.perform_bind (.untouched hu₁) (fun current fs₂ hload => ?_) fun e fs₂ hload => ?_
  · cases hload with
    | loadManifest =>
      cases hmanifest : fs₁.manifest with
      | none => exact Safe.raise (.untouched hu₁) fun ⟨_,hok⟩ => (nomatch hok)
      | some manifest =>
        have hsealed : old.manifest=some manifest := hu₁.manifest.symm.trans hmanifest
        refine Safe.perform_bind (.untouched hu₁) (fun key fs₃ henvelope => ?_) fun e fs₃ henvelope => ?_
        · cases henvelope with
          | openEnvelope =>
            have hflips : (Marker.disable : Marker Manifest).target.isSome=!old.manifest.isSome := by
              rw [hsealed]
              rfl
            exact (safe_migrate hminted hflips (fun blob fs => safe_decrypt hsealed blob fs) hu₁).mono
              fun r fs' _ hr ⟨_,hok⟩ => hr hok
        · cases henvelope with
          | fault => exact ⟨.untouched hu₁,fun ⟨_,hok⟩ => (nomatch hok)⟩
  · cases hload with
    | fault => exact ⟨.untouched hu₁,fun ⟨_,hok⟩ => (nomatch hok)⟩

end Migrating

end Recovery

/-- `name + ".tmp"` and `name.endswith(".tmp")`. -/
def textScratch : ScratchNames PyStr where
  scratch name := name ++ pyStr ".tmp"
  isScratch name := (pyStr ".tmp").isSuffixOf name
  isScratch_scratch name := List.isSuffixOf_iff_suffix.mpr (List.suffix_append name _)

/-- A printed number is made of digits. -/
theorem digits_mem {c : Fin 0x110000} {n : ℕ} (h : c∈pyStr (toString n)) : 48 ≤ c.val ∧ c.val ≤ 57 := by
  obtain ⟨digit,hdigit,rfl⟩ := List.mem_map.mp h
  rw [show toString n=Nat.repr n from rfl,Nat.toList_repr] at hdigit
  exact digit_range hdigit

/-- A printed number is read back. -/
theorem pyStr_toString_inj {n m : ℕ} (h : pyStr (toString n)=pyStr (toString m)) : n=m := by
  have hencoded := congrArg (List.flatMap encodeCodePoint) h
  rw [encoded_toString,encoded_toString] at hencoded
  exact asciiDigits_injective hencoded

/-- The text of an execution's blob key tells its id and its fingerprint. -/
theorem blobKey_text_inj {id id' : ExecutionId} {fingerprint fingerprint' : Digest}
    (h : (BlobKey.forExecution id fingerprint).text=(BlobKey.forExecution id' fingerprint').text) :
    id=id' ∧ fingerprint=fingerprint' := by
  have hcut : ∀ (n : ℕ) (rest : PyStr),(pyStr (toString n) ++ (95::rest)).takeWhile (fun c => decide (c≠95))=
      pyStr (toString n) := by
    intro n rest
    have hdigits : ∀ c∈pyStr (toString n),decide (c≠95)=true := by
      intro c hmem
      have hrange := digits_mem hmem
      simp only [decide_eq_true_eq]
      rintro rfl
      exact absurd hrange.2 (by decide)
    rw [List.takeWhile_append_of_pos hdigits]
    simp
  have htext : ∀ (id : ExecutionId) (fingerprint : Digest),(BlobKey.forExecution id fingerprint).text=
      pyStr (toString id.uuid) ++ (95::pyStr (toString fingerprint)) := by
    intro id fingerprint
    simp only [BlobKey.text,ExecutionId.text,List.append_assoc]
    rfl
  rw [htext,htext] at h
  have hids := congrArg (List.takeWhile fun c => decide (c≠95)) h
  rw [hcut,hcut] at hids
  rw [hids] at h
  have hrests := List.append_cancel_left h
  have hid := pyStr_toString_inj hids
  have hfingerprint := pyStr_toString_inj (List.cons.inj hrests).2
  exact ⟨congrArg ExecutionId.mk hid,hfingerprint⟩

/-- The text of an execution's blob key does not end as a scratch file's name does. -/
theorem blobKey_plain (id : ExecutionId) (fingerprint : Digest) :
    textScratch.isScratch (BlobKey.forExecution id fingerprint).text=false := by
  cases hscratch : textScratch.isScratch (BlobKey.forExecution id fingerprint).text with
  | false => rfl
  | true =>
    have hsuffix : pyStr ".tmp" <:+ (BlobKey.forExecution id fingerprint).text :=
      List.isSuffixOf_iff_suffix.mp hscratch
    have hp : [(112 : Fin 0x110000)] <:+ pyStr ".tmp" := ⟨pyStr ".tm",by decide⟩
    have hdigits : pyStr (toString fingerprint)≠[] := by
      intro hnil
      have hlength := congrArg List.length hnil
      rw [pyStr,List.length_map,show toString fingerprint=Nat.repr fingerprint from rfl,
        Nat.toList_repr] at hlength
      exact Nat.toDigits_ne_nil (List.eq_nil_of_length_eq_zero hlength)
    have hlast : [(112 : Fin 0x110000)] <:+ pyStr (toString fingerprint) := by
      refine List.suffix_of_suffix_length_le (hp.trans hsuffix) (List.suffix_append _ _) ?_
      exact List.length_pos_iff.mpr hdigits
    have hrange := digits_mem (hlast.subset List.mem_cons_self)
    exact absurd hrange.2 (by decide)

/-- However often a migration and its recoveries are stopped, a recovery that ends leaves
the old store, or a store with the other manifest in which every blob opens to its old content. -/
theorem recovered_old_or_new {Manifest DataKey : Type} (cipher : Cipher Manifest DataKey)
    {migration rest : FileM PyStr Manifest DataKey Unit} {old fs fs' fs'' : StoreFiles PyStr Manifest}
    (hmigration : migration=enable textScratch ∨ migration=disable textScratch)
    (hmarker : old.marker=none)
    (hminted : ∀ name content,old.at .blobs name=some content →
      ∃ id fingerprint,name=(BlobKey.forExecution id fingerprint).text)
    (hstop : Reach (FileAnswers cipher) migration old rest fs)
    (hrecoveries : Relation.ReflTransGen
      (fun fs fs' => ∃ rest,Reach (FileAnswers cipher) (recover textScratch) fs rest fs') fs fs')
    (hend : Ends (FileAnswers cipher) (recover textScratch) fs' (.ok ()) fs'') :
    fs''.marker=none ∧ fs''.staging=none ∧
      ((fs''.blobs=old.blobs ∧ fs''.manifest=old.manifest) ∨
        (fs''.manifest.isSome=!old.manifest.isSome ∧ ∀ name,Carried cipher old fs'' name)) := by
  have hplain : ∀ name content,old.at .blobs name=some content → textScratch.isScratch name=false := by
    intro name content hat
    obtain ⟨id,fingerprint,rfl⟩ := hminted name content hat
    exact blobKey_plain id fingerprint
  have hstopped : Recoverable cipher textScratch old fs := by
    rcases hmigration with rfl | rfl
    · exact (safe_enable hplain hmarker).state hstop
    · exact (safe_disable hplain hmarker).state hstop
  have hrecovered := recoverable_recoveries hplain hstopped hrecoveries
  have hsettled := (safe_recover hplain hrecovered).result hend ⟨(),rfl⟩
  cases hsettled with
  | untouched hu hstaging => exact ⟨hu.marker,hstaging,Or.inl ⟨hu.blobs,hu.manifest⟩⟩
  | migrated hmigrated =>
    exact ⟨hmigrated.marker,hmigrated.staging,Or.inr ⟨hmigrated.flipped,hmigrated.carried⟩⟩

/-- A plain store of two blobs. -/
def twoBlobs : StoreFiles PyStr UInt8 where
  blobs := some ((AList.singleton (BlobKey.forExecution ⟨1⟩ 10).text [1]).insert
    (BlobKey.forExecution ⟨2⟩ 20).text [2])
  staging := none
  marker := none
  markerScratch := none
  manifest := none
  executions := true
  registry := true

/-- `enable` stopped with one of the two files moved, and a recovery stopped after four calls. -/
theorem recovered_between_moves :
    let stopped := (drive (List.replicate 23 prefixAnswers) (enable textScratch) twoBlobs).2
    let recovering := (drive (List.replicate 4 prefixAnswers) (recover textScratch) stopped).2
    let recovered := (drive (List.replicate 40 prefixAnswers) (recover textScratch) recovering).2
    recovered.marker=none ∧ recovered.staging=none ∧
      ((recovered.blobs=twoBlobs.blobs ∧ recovered.manifest=twoBlobs.manifest) ∨
        (recovered.manifest.isSome=!twoBlobs.manifest.isSome ∧
          ∀ name,Carried prefixCipher twoBlobs recovered name)) := by
  have hrespects : ∀ n,∀ handler : Handler (FileCall PyStr UInt8 UInt8) FileCall.Ret FileExc _,
      handler∈List.replicate n prefixAnswers → handler.Respects (FileAnswers prefixCipher) := by
    intro n handler hmem
    rw [(List.mem_replicate.mp hmem).2]
    exact fileAnswers_respects prefixCipher prefixCipher_opens
  have hminted : ∀ name content,twoBlobs.at .blobs name=some content →
      ∃ id fingerprint,name=(BlobKey.forExecution id fingerprint).text := by
    intro name content hat
    have hkeys : ∀ name∈(twoBlobs.blobs.getD ∅).keys,name=(BlobKey.forExecution ⟨2⟩ 20).text ∨
        name=(BlobKey.forExecution ⟨1⟩ 10).text := by decide
    have hfiles : twoBlobs.dir .blobs=some (twoBlobs.blobs.getD ∅) := rfl
    rcases hkeys name (mem_keys hfiles hat) with hname | hname
    · exact ⟨⟨2⟩,20,hname⟩
    · exact ⟨⟨1⟩,10,hname⟩
  have hend : (drive (List.replicate 40 prefixAnswers) (recover textScratch)
      (drive (List.replicate 4 prefixAnswers) (recover textScratch)
        (drive (List.replicate 23 prefixAnswers) (enable textScratch) twoBlobs).2).2).1.value=some () := by
    decide +kernel
  have hrun := drive_reach _ (hrespects 40) (recover textScratch)
    (drive (List.replicate 4 prefixAnswers) (recover textScratch)
      (drive (List.replicate 23 prefixAnswers) (enable textScratch) twoBlobs).2).2
  rw [Prog.value_eq_some.mp hend] at hrun
  exact recovered_old_or_new prefixCipher (Or.inl rfl) rfl hminted (drive_reach _ (hrespects 23) _ _)
    (.single ⟨_,drive_reach _ (hrespects 4) _ _⟩) hrun

end GenericMlCache.MigrationRecovery
