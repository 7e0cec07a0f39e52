import GenericMlCache.CallAutomaton
import GenericMlCache.PythonText
import Mathlib.Data.List.AList

/-!
# The encryption migration

Enabling, disabling, recovering and invalidating the encryption of a store, as
programs over its files. A migration stages every blob in a directory of its
own, writes a marker, moves the staged files into place and flips the manifest.
Recovery finishes what the marker says, or drops what was staged without one.
-/

namespace GenericMlCache.StoreEncryptor

open CallProgram CallAutomaton PythonText

/-- The files of a directory. -/
abbrev Files (Name : Type) := AList fun _ : Name => Bytes

/-- How scratch files are told from others: `name + ".tmp"` and `endswith(".tmp")`. -/
structure ScratchNames (Name : Type) where
  /-- The name of a file's scratch file. -/
  scratch : Name → Name
  /-- Whether a name is taken for a scratch file's. -/
  isScratch : Name → Bool
  /-- A scratch file's name is. -/
  isScratch_scratch : ∀ name,isScratch (scratch name)=true

/-- The directories of a migration. -/
inductive Dir where
  | blobs | staging
deriving DecidableEq

/-- The commit marker. -/
inductive Marker (Manifest : Type) where
  | enable (manifest : Manifest)
  | disable

/-- The manifest that a committed migration leaves. -/
def Marker.target {Manifest : Type} : Marker Manifest → Option Manifest
  | .enable manifest => some manifest
  | .disable => none

/-- The files of a store. A missing directory is none. -/
structure StoreFiles (Name Manifest : Type) where
  /-- The blobs. -/
  blobs : Option (Files Name)
  /-- The re-encrypted copies. -/
  staging : Option (Files Name)
  /-- The marker of a change in progress. -/
  marker : Option (Marker Manifest)
  /-- The marker's scratch file. -/
  markerScratch : Option (Marker Manifest)
  /-- The encryption manifest. -/
  manifest : Option Manifest
  /-- `executions.sqlite3` is there. -/
  executions : Bool
  /-- `registry.sqlite3` is there. -/
  registry : Bool

section Files
variable {Name Manifest : Type}

/-- A directory of the store. -/
def StoreFiles.dir (fs : StoreFiles Name Manifest) : Dir → Option (Files Name)
  | .blobs => fs.blobs
  | .staging => fs.staging

/-- Replace a directory. -/
def StoreFiles.setDir (fs : StoreFiles Name Manifest) (dir : Dir) (files : Option (Files Name)) :
    StoreFiles Name Manifest :=
  match dir with
  | .blobs => { fs with blobs := files }
  | .staging => { fs with staging := files }

section Fields
variable (fs : StoreFiles Name Manifest) (dir dir' : Dir) (files : Option (Files Name))

@[simp] theorem StoreFiles.setDir_marker : (fs.setDir dir files).marker=fs.marker := by cases dir <;> rfl
@[simp] theorem StoreFiles.setDir_manifest : (fs.setDir dir files).manifest=fs.manifest := by cases dir <;> rfl
@[simp] theorem StoreFiles.setDir_executions : (fs.setDir dir files).executions=fs.executions := by
  cases dir <;> rfl

@[simp] theorem StoreFiles.setDir_dir : (fs.setDir dir files).dir dir'=if dir'=dir then files else fs.dir dir' := by
  cases dir <;> cases dir' <;> rfl

end Fields

variable [DecidableEq Name]

/-- The content of a file. -/
def StoreFiles.at (fs : StoreFiles Name Manifest) (dir : Dir) (name : Name) : Option Bytes :=
  (fs.dir dir).bind fun files => files.lookup name

/-- Remove a file; a missing one is nothing to remove. -/
def StoreFiles.erase (fs : StoreFiles Name Manifest) (dir : Dir) (name : Name) : StoreFiles Name Manifest :=
  fs.setDir dir ((fs.dir dir).map fun files => files.erase name)

/-- Write a file of a directory that is there. -/
def StoreFiles.write (fs : StoreFiles Name Manifest) (dir : Dir) (name : Name) (content : Bytes) :
    StoreFiles Name Manifest :=
  fs.setDir dir ((fs.dir dir).map fun files => files.insert name content)

section Fields
variable (fs : StoreFiles Name Manifest) (dir dir' : Dir) (name : Name) (content : Bytes)

@[simp] theorem StoreFiles.erase_marker : (fs.erase dir name).marker=fs.marker := fs.setDir_marker dir _
@[simp] theorem StoreFiles.erase_manifest : (fs.erase dir name).manifest=fs.manifest := fs.setDir_manifest dir _
@[simp] theorem StoreFiles.write_marker : (fs.write dir name content).marker=fs.marker := fs.setDir_marker dir _
@[simp] theorem StoreFiles.write_manifest : (fs.write dir name content).manifest=fs.manifest :=
  fs.setDir_manifest dir _

@[simp] theorem StoreFiles.erase_isSome : ((fs.erase dir name).dir dir').isSome=(fs.dir dir').isSome := by
  simp only [StoreFiles.erase,StoreFiles.setDir_dir]
  split
  next h => rw [h,Option.isSome_map]
  next => rfl

@[simp] theorem StoreFiles.write_isSome :
    ((fs.write dir name content).dir dir').isSome=(fs.dir dir').isSome := by
  simp only [StoreFiles.write,StoreFiles.setDir_dir]
  split
  next h => rw [h,Option.isSome_map]
  next => rfl

/-- After a removal its file is gone and every other file is what it was. -/
@[simp] theorem StoreFiles.at_erase (name' : Name) : (fs.erase dir name).at dir' name'=
    if dir'=dir ∧ name'=name then none else fs.at dir' name' := by
  simp only [StoreFiles.at,StoreFiles.erase,StoreFiles.setDir_dir]
  by_cases hdir : dir'=dir
  · subst hdir
    cases fs.dir dir' with
    | none => simp
    | some files =>
      by_cases hname : name'=name
      · subst hname
        simp
      · simp [hname]
  · simp [hdir]

/-- After a write its file holds the content and every other file what it held. -/
theorem StoreFiles.at_write (h : (fs.dir dir).isSome=true) (name' : Name) :
    (fs.write dir name content).at dir' name'=
      if dir'=dir ∧ name'=name then some content else fs.at dir' name' := by
  obtain ⟨files,hfiles⟩ := Option.isSome_iff_exists.mp h
  simp only [StoreFiles.at,StoreFiles.write,StoreFiles.setDir_dir]
  by_cases hdir : dir'=dir
  · subst hdir
    by_cases hname : name'=name
    · subst hname
      simp [hfiles]
    · simp [hname,hfiles]
  · simp [hdir]

/-- A write leaves every other file what it was, whether or not the directory is there. -/
theorem StoreFiles.at_write_ne {name' : Name} (h : ¬(dir'=dir ∧ name'=name)) :
    (fs.write dir name content).at dir' name'=fs.at dir' name' := by
  cases hdir : fs.dir dir with
  | some files =>
    rw [fs.at_write dir dir' name content (by rw [hdir]; rfl),if_neg h]
  | none =>
    simp only [StoreFiles.at,StoreFiles.write,StoreFiles.setDir_dir,hdir,Option.map_none]
    split
    next heq => rw [heq,hdir]
    next => rfl

/-- Creating a directory that is there changes no file. -/
@[simp] theorem StoreFiles.at_mkdir (name' : Name) :
    (fs.setDir dir (some ((fs.dir dir).getD ∅))).at dir' name'=fs.at dir' name' := by
  simp only [StoreFiles.at,StoreFiles.setDir_dir]
  by_cases hdir : dir'=dir
  · subst hdir
    cases h : fs.dir dir' <;> simp
  · simp [hdir]

end Fields

end Files

/-- What a call may raise. -/
inductive FileExc where
  | osError
  /-- `WrongEncryptionToken`. -/
  | wrongEncryptionToken
  /-- `EncryptionStateError`. -/
  | encryptionState (message : PyStr)
  /-- `StoreLocked`. -/
  | storeLocked
deriving DecidableEq

/-- The calls of a migration on files, manifest, cipher and store lock. -/
inductive FileCall (Name Manifest DataKey : Type) where
  | markerExists
  | readMarker
  /-- The marker's scratch file, then `os.replace` of it. -/
  | writeMarkerScratch (marker : Marker Manifest)
  | replaceMarker
  | unlinkMarker
  | loadManifest
  | saveManifest (manifest : Manifest)
  | deleteManifest
  /-- `create_envelope` under the token. -/
  | createEnvelope
  /-- `open_envelope` with the token. -/
  | openEnvelope (manifest : Manifest)
  | encrypt (key : DataKey) (blob : Bytes)
  | decrypt (key : DataKey) (blob : Bytes)
  | dirExists (dir : Dir)
  | mkdir (dir : Dir)
  | iterdir (dir : Dir)
  /-- The calls of `shutil.rmtree`. -/
  | scandir (dir : Dir)
  | unlink (dir : Dir) (name : Name)
  | rmdir (dir : Dir)
  | readBytes (dir : Dir) (name : Name)
  | writeBytes (dir : Dir) (name : Name) (content : Bytes)
  /-- `os.replace` of a staged file, within the staging directory or into place. -/
  | replaceStaged (name : Name) (dir : Dir) (name' : Name)
  | unlinkExecutions
  | unlinkRegistry
  | acquireExclusive
  | releaseExclusive

/-- What each call returns. -/
def FileCall.Ret {Name Manifest DataKey : Type} : FileCall Name Manifest DataKey → Type
  | .markerExists | .dirExists _ => Bool
  | .readMarker => Marker Manifest
  | .loadManifest => Option Manifest
  | .createEnvelope => Manifest × DataKey
  | .openEnvelope _ => DataKey
  | .encrypt _ _ | .decrypt _ _ | .readBytes _ _ => Bytes
  | .iterdir _ | .scandir _ => List Name
  | _ => Unit

/-- Programs over the files of a store. -/
abbrev FileM (Name Manifest DataKey : Type) :=
  Prog (FileCall Name Manifest DataKey) FileCall.Ret FileExc

section Programs
variable {Name Manifest DataKey α : Type}

/-- Make one call. -/
abbrev file (call : FileCall Name Manifest DataKey) : FileM Name Manifest DataKey call.Ret := perform call

/-- `with self._lock.acquire()`. -/
def withStoreLock (body : FileM Name Manifest DataKey α) : FileM Name Manifest DataKey α := do
  file .acquireExclusive
  ensure body (file .releaseExclusive)

/-- The loop of `shutil.rmtree(ignore_errors=True)`. -/
def unlinkEach (dir : Dir) : List Name → FileM Name Manifest DataKey Unit
  | [] => return ()
  | name::rest => do
    let _ ← attempt (file (.unlink dir name))
    unlinkEach dir rest

/-- `shutil.rmtree(ignore_errors=True)`. -/
def rmtree (dir : Dir) : FileM Name Manifest DataKey Unit := do
  match ← attempt (file (.scandir dir)) with
  | .ok (names : List Name) => unlinkEach dir names
  | .error _ => return ()
  let _ ← attempt (file (.rmdir dir))
  return ()

variable (naming : ScratchNames Name)

/-- The loop of `_stage`. -/
def stageEach (transform : Bytes → FileM Name Manifest DataKey Bytes) :
    List Name → FileM Name Manifest DataKey Unit
  | [] => return ()
  | blob::rest => do
    let content ← file (.readBytes .blobs blob)
    let transformed ← transform content
    file (.writeBytes .staging (naming.scratch blob) transformed)
    file (.replaceStaged (naming.scratch blob) .staging blob)
    stageEach transform rest

/-- `_blob_files`. -/
def blobFiles : FileM Name Manifest DataKey (List Name) := do
  let there : Bool ← file (.dirExists .blobs)
  if there=true then do
    let names : List Name ← file (.iterdir .blobs)
    return names.filter fun name => !naming.isScratch name
  else return []

/-- `_stage`. -/
def stage (transform : Bytes → FileM Name Manifest DataKey Bytes) : FileM Name Manifest DataKey Unit := do
  rmtree .staging
  file (.mkdir .staging)
  let blobs ← blobFiles naming
  stageEach naming transform blobs

/-- The loop of `_finish_commit`. -/
def moveEach : List Name → FileM Name Manifest DataKey Unit
  | [] => return ()
  | staged::rest => do
    if naming.isScratch staged=true then moveEach rest
    else do
      file (.replaceStaged staged .blobs staged)
      moveEach rest

/-- The moves of `_finish_commit`. -/
def moveStaged : FileM Name Manifest DataKey Unit := do
  let there : Bool ← file (.dirExists .staging)
  if there=true then do
    file (.mkdir .blobs)
    let names : List Name ← file (.iterdir .staging)
    moveEach naming names
    rmtree .staging
  else return ()

/-- The manifest flip of `_finish_commit`. -/
def flipManifest : Marker Manifest → FileM Name Manifest DataKey Unit
  | .enable manifest => do
    let current : Option Manifest ← file .loadManifest
    match current with
    | none => file (.saveManifest manifest)
    | some _ => return ()
  | .disable => file .deleteManifest

/-- `_finish_commit`. -/
def finishCommit (marker : Marker Manifest) : FileM Name Manifest DataKey Unit := do
  moveStaged naming
  flipManifest marker
  file .unlinkMarker

/-- `_commit`, with `_write_marker`. -/
def commit (marker : Marker Manifest) : FileM Name Manifest DataKey Unit := do
  file (.writeMarkerScratch marker)
  file .replaceMarker
  finishCommit naming marker

/-- `_recover_locked`. -/
def recoverLocked : FileM Name Manifest DataKey Unit := do
  let committing : Bool ← file .markerExists
  if committing=true then do
    let marker : Marker Manifest ← file .readMarker
    finishCommit naming marker
  else do
    let staged : Bool ← file (.dirExists .staging)
    if staged=true then rmtree .staging else return ()

/-- `recover`. -/
def recover : FileM Name Manifest DataKey Unit := do
  let committing : Bool ← file .markerExists
  if committing=true then withStoreLock (recoverLocked naming)
  else do
    let staged : Bool ← file (.dirExists .staging)
    if staged=true then withStoreLock (recoverLocked naming) else return ()

/-- The part of `enable` under the store lock. -/
def enableLocked : FileM Name Manifest DataKey Unit := do
  recoverLocked naming
  let current : Option Manifest ← file .loadManifest
  match current with
  | some _ => raise (.encryptionState (pyStr "the store is already encrypted"))
  | none => do
    let envelope : Manifest × DataKey ← file .createEnvelope
    stage naming fun blob => file (.encrypt envelope.2 blob)
    commit naming (.enable envelope.1)

/-- `enable`. -/
def enable : FileM Name Manifest DataKey Unit := withStoreLock (enableLocked naming)

/-- The part of `disable` under the store lock. -/
def disableLocked : FileM Name Manifest DataKey Unit := do
  recoverLocked naming
  let current : Option Manifest ← file .loadManifest
  match current with
  | none => raise (.encryptionState (pyStr "the store is not encrypted"))
  | some manifest => do
    let key : DataKey ← file (.openEnvelope manifest)
    stage naming fun blob => file (.decrypt key blob)
    commit naming .disable

/-- `disable`. -/
def disable : FileM Name Manifest DataKey Unit := withStoreLock (disableLocked naming)

/-- The part of `invalidate` under the store lock. -/
def invalidateLocked : FileM Name Manifest DataKey Unit := do
  recoverLocked naming
  file .deleteManifest
  rmtree .blobs
  rmtree .staging
  file .unlinkMarker
  file .unlinkExecutions
  file .unlinkRegistry

/-- `invalidate`. -/
def invalidate : FileM Name Manifest DataKey Unit := withStoreLock (invalidateLocked naming)

end Programs

/-- A cipher: the data key that an envelope wraps, and what opens under a key. -/
structure Cipher (Manifest DataKey : Type) where
  /-- The data key in an envelope. -/
  unwrap : Manifest → DataKey
  /-- The content of a sealed blob; none where the key does not open it. -/
  decrypt : DataKey → Bytes → Option Bytes

section Meaning
variable {Name Manifest DataKey : Type} [DecidableEq Name]

/-- A call of `shutil.rmtree`. -/
def isRemoval : FileCall Name Manifest DataKey → Bool
  | .scandir _ | .unlink _ _ | .rmdir _ => true
  | _ => false

variable (cipher : Cipher Manifest DataKey)

/-- What each call may answer, and the files it leaves. Any call but those of a
directory's removal may raise, and a failing write may leave anything in its file. -/
inductive FileAnswers : Sem (FileCall Name Manifest DataKey) FileCall.Ret FileExc (StoreFiles Name Manifest) where
  /-- A call raises, without effect. -/
  | fault {fs : StoreFiles Name Manifest} {call : FileCall Name Manifest DataKey} {e : FileExc}
      (h : isRemoval call=false) : FileAnswers call fs (.error e) fs
  /-- A write breaks off. -/
  | torn {fs : StoreFiles Name Manifest} {dir : Dir} {name : Name} {content part : Bytes} {e : FileExc} :
      FileAnswers (.writeBytes dir name content) fs (.error e) (fs.write dir name part)
  | markerExists {fs : StoreFiles Name Manifest} :
      FileAnswers .markerExists fs (.ok fs.marker.isSome) fs
  | readMarker {fs : StoreFiles Name Manifest} {marker : Marker Manifest} (h : fs.marker=some marker) :
      FileAnswers .readMarker fs (.ok marker) fs
  | writeMarkerScratch {fs : StoreFiles Name Manifest} {marker : Marker Manifest} :
      FileAnswers (.writeMarkerScratch marker) fs (.ok ()) { fs with markerScratch := some marker }
  | replaceMarker {fs : StoreFiles Name Manifest} {marker : Marker Manifest}
      (h : fs.markerScratch=some marker) :
      FileAnswers .replaceMarker fs (.ok ()) { fs with marker := some marker, markerScratch := none }
  | unlinkMarker {fs : StoreFiles Name Manifest} :
      FileAnswers .unlinkMarker fs (.ok ()) { fs with marker := none }
  | loadManifest {fs : StoreFiles Name Manifest} : FileAnswers .loadManifest fs (.ok fs.manifest) fs
  | saveManifest {fs : StoreFiles Name Manifest} {manifest : Manifest} :
      FileAnswers (.saveManifest manifest) fs (.ok ()) { fs with manifest := some manifest }
  | deleteManifest {fs : StoreFiles Name Manifest} :
      FileAnswers .deleteManifest fs (.ok ()) { fs with manifest := none }
  | createEnvelope {fs : StoreFiles Name Manifest} {manifest : Manifest} {key : DataKey}
      (h : cipher.unwrap manifest=key) : FileAnswers .createEnvelope fs (.ok (manifest,key)) fs
  | openEnvelope {fs : StoreFiles Name Manifest} {manifest : Manifest} :
      FileAnswers (.openEnvelope manifest) fs (.ok (cipher.unwrap manifest)) fs
  /-- What is encrypted opens under its key. -/
  | encrypt {fs : StoreFiles Name Manifest} {key : DataKey} {blob secret : Bytes}
      (h : cipher.decrypt key secret=some blob) : FileAnswers (.encrypt key blob) fs (.ok secret) fs
  | decrypt {fs : StoreFiles Name Manifest} {key : DataKey} {secret blob : Bytes}
      (h : cipher.decrypt key secret=some blob) : FileAnswers (.decrypt key secret) fs (.ok blob) fs
  | dirExists {fs : StoreFiles Name Manifest} {dir : Dir} :
      FileAnswers (.dirExists dir) fs (.ok (fs.dir dir).isSome) fs
  /-- `mkdir(parents=True, exist_ok=True)`. -/
  | mkdir {fs : StoreFiles Name Manifest} {dir : Dir} :
      FileAnswers (.mkdir dir) fs (.ok ()) (fs.setDir dir (some ((fs.dir dir).getD ∅)))
  /-- A directory is listed in any order. -/
  | iterdir {fs : StoreFiles Name Manifest} {dir : Dir} {files : Files Name} {names : List Name}
      (h : fs.dir dir=some files) (hnames : names.Perm files.keys) :
      FileAnswers (.iterdir dir) fs (.ok names) fs
  | scandir {fs : StoreFiles Name Manifest} {dir : Dir} {files : Files Name} {names : List Name}
      (h : fs.dir dir=some files) (hnames : names.Perm files.keys) :
      FileAnswers (.scandir dir) fs (.ok names) fs
  | scandirMissing {fs : StoreFiles Name Manifest} {dir : Dir} (h : fs.dir dir=none) :
      FileAnswers (.scandir dir) fs (.error .osError) fs
  | unlink {fs : StoreFiles Name Manifest} {dir : Dir} {name : Name} :
      FileAnswers (.unlink dir name) fs (.ok ()) (fs.erase dir name)
  | rmdir {fs : StoreFiles Name Manifest} {dir : Dir} {files : Files Name} (h : fs.dir dir=some files)
      (hempty : files.keys=[]) : FileAnswers (.rmdir dir) fs (.ok ()) (fs.setDir dir none)
  /-- A directory that is missing or not empty is not removed. -/
  | rmdirRaised {fs : StoreFiles Name Manifest} {dir : Dir}
      (h : ∀ files,fs.dir dir=some files → files.keys≠[]) :
      FileAnswers (.rmdir dir) fs (.error .osError) fs
  | readBytes {fs : StoreFiles Name Manifest} {dir : Dir} {name : Name} {content : Bytes}
      (h : fs.at dir name=some content) : FileAnswers (.readBytes dir name) fs (.ok content) fs
  | writeBytes {fs : StoreFiles Name Manifest} {dir : Dir} {name : Name} {content : Bytes}
      (h : (fs.dir dir).isSome=true) :
      FileAnswers (.writeBytes dir name content) fs (.ok ()) (fs.write dir name content)
  | replaceStaged {fs : StoreFiles Name Manifest} {name name' : Name} {dir : Dir} {content : Bytes}
      (h : fs.at .staging name=some content) (hdir : (fs.dir dir).isSome=true) :
      FileAnswers (.replaceStaged name dir name') fs (.ok ())
        ((fs.erase .staging name).write dir name' content)
  | unlinkExecutions {fs : StoreFiles Name Manifest} :
      FileAnswers .unlinkExecutions fs (.ok ()) { fs with executions := false }
  | unlinkRegistry {fs : StoreFiles Name Manifest} :
      FileAnswers .unlinkRegistry fs (.ok ()) { fs with registry := false }
  | acquireExclusive {fs : StoreFiles Name Manifest} : FileAnswers .acquireExclusive fs (.ok ()) fs
  | releaseExclusive {fs : StoreFiles Name Manifest} : FileAnswers .releaseExclusive fs (.ok ()) fs

/-- Answers without a fault: new envelopes are `envelope`, and `encrypt` seals. -/
def fileAnswers (envelope : Manifest) (encrypt : DataKey → Bytes → Bytes) :
    Handler (FileCall Name Manifest DataKey) FileCall.Ret FileExc (StoreFiles Name Manifest)
  | .markerExists,fs => some (.ok fs.marker.isSome,fs)
  | .readMarker,fs => fs.marker.map fun marker => (.ok marker,fs)
  | .writeMarkerScratch marker,fs => some (.ok (),{ fs with markerScratch := some marker })
  | .replaceMarker,fs => fs.markerScratch.map fun marker =>
    (.ok (),{ fs with marker := some marker, markerScratch := none })
  | .unlinkMarker,fs => some (.ok (),{ fs with marker := none })
  | .loadManifest,fs => some (.ok fs.manifest,fs)
  | .saveManifest manifest,fs => some (.ok (),{ fs with manifest := some manifest })
  | .deleteManifest,fs => some (.ok (),{ fs with manifest := none })
  | .createEnvelope,fs => some (.ok (envelope,cipher.unwrap envelope),fs)
  | .openEnvelope manifest,fs => some (.ok (cipher.unwrap manifest),fs)
  | .encrypt key blob,fs => some (.ok (encrypt key blob),fs)
  | .decrypt key secret,fs => (cipher.decrypt key secret).map fun blob => (.ok blob,fs)
  | .dirExists dir,fs => some (.ok (fs.dir dir).isSome,fs)
  | .mkdir dir,fs => some (.ok (),fs.setDir dir (some ((fs.dir dir).getD ∅)))
  | .iterdir dir,fs => (fs.dir dir).map fun files => (.ok files.keys,fs)
  | .scandir dir,fs =>
    match fs.dir dir with
    | some files => some (.ok files.keys,fs)
    | none => some (.error .osError,fs)
  | .unlink dir name,fs => some (.ok (),fs.erase dir name)
  | .rmdir dir,fs =>
    match fs.dir dir with
    | some files => if files.keys=[] then some (.ok (),fs.setDir dir none) else some (.error .osError,fs)
    | none => some (.error .osError,fs)
  | .readBytes dir name,fs => (fs.at dir name).map fun content => (.ok content,fs)
  | .writeBytes dir name content,fs =>
    if (fs.dir dir).isSome=true then some (.ok (),fs.write dir name content) else none
  | .replaceStaged name dir name',fs =>
    if (fs.dir dir).isSome=true then
      (fs.at .staging name).map fun content => (.ok (),(fs.erase .staging name).write dir name' content)
    else none
  | .unlinkExecutions,fs => some (.ok (),{ fs with executions := false })
  | .unlinkRegistry,fs => some (.ok (),{ fs with registry := false })
  | .acquireExclusive,fs => some (.ok (),fs)
  | .releaseExclusive,fs => some (.ok (),fs)

/-- The answers are ones that the calls may give. -/
theorem fileAnswers_respects {envelope : Manifest} {encrypt : DataKey → Bytes → Bytes}
    (hopens : ∀ key blob,cipher.decrypt key (encrypt key blob)=some blob) :
    (fileAnswers cipher envelope encrypt).Respects (FileAnswers cipher : Sem (FileCall Name Manifest DataKey) _ _ _) := by
  intro call fs r fs' h
  cases call <;> simp only [fileAnswers,Option.map_eq_some_iff,Option.some.injEq,Prod.mk.injEq] at h
  case markerExists => obtain ⟨rfl,rfl⟩ := h; exact .markerExists
  case readMarker =>
    obtain ⟨marker,hm,heq⟩ := Option.map_eq_some_iff.mp h
    cases heq
    exact .readMarker hm
  case writeMarkerScratch => obtain ⟨rfl,rfl⟩ := h; exact .writeMarkerScratch
  case replaceMarker => obtain ⟨marker,hm,rfl,rfl⟩ := h; exact .replaceMarker hm
  case unlinkMarker => obtain ⟨rfl,rfl⟩ := h; exact .unlinkMarker
  case loadManifest => obtain ⟨rfl,rfl⟩ := h; exact .loadManifest
  case saveManifest => obtain ⟨rfl,rfl⟩ := h; exact .saveManifest
  case deleteManifest => obtain ⟨rfl,rfl⟩ := h; exact .deleteManifest
  case createEnvelope => obtain ⟨rfl,rfl⟩ := h; exact .createEnvelope rfl
  case openEnvelope => obtain ⟨rfl,rfl⟩ := h; exact .openEnvelope
  case encrypt key blob => obtain ⟨rfl,rfl⟩ := h; exact .encrypt (hopens key blob)
  case decrypt =>
    obtain ⟨blob,hb,heq⟩ := Option.map_eq_some_iff.mp h
    cases heq
    exact .decrypt hb
  case dirExists => obtain ⟨rfl,rfl⟩ := h; exact .dirExists
  case mkdir => obtain ⟨rfl,rfl⟩ := h; exact .mkdir
  case iterdir => obtain ⟨files,hf,rfl,rfl⟩ := h; exact .iterdir hf (List.Perm.refl _)
  case scandir dir =>
    cases hdir : fs.dir dir with
    | none =>
      rw [hdir] at h
      cases h
      exact .scandirMissing hdir
    | some files =>
      rw [hdir] at h
      cases h
      exact .scandir hdir (List.Perm.refl _)
  case unlink => obtain ⟨rfl,rfl⟩ := h; exact .unlink
  case rmdir dir =>
    cases hdir : fs.dir dir with
    | none =>
      rw [hdir] at h
      cases h
      refine .rmdirRaised fun files hfiles => ?_
      rw [hdir] at hfiles
      exact nomatch hfiles
    | some files =>
      rw [hdir] at h
      simp only at h
      split at h
      next hempty =>
        cases h
        exact .rmdir hdir hempty
      next hfull =>
        cases h
        refine .rmdirRaised fun files' hfiles => ?_
        rw [hdir] at hfiles
        cases hfiles
        exact hfull
  case readBytes =>
    obtain ⟨content,hc,heq⟩ := Option.map_eq_some_iff.mp h
    cases heq
    exact .readBytes hc
  case writeBytes =>
    split at h
    next hdir =>
      cases h
      exact .writeBytes hdir
    next => exact nomatch h
  case replaceStaged =>
    split at h
    next hdir =>
      obtain ⟨content,hc,heq⟩ := Option.map_eq_some_iff.mp h
      cases heq
      exact .replaceStaged hc hdir
    next => exact nomatch h
  case unlinkExecutions => obtain ⟨rfl,rfl⟩ := h; exact .unlinkExecutions
  case unlinkRegistry => obtain ⟨rfl,rfl⟩ := h; exact .unlinkRegistry
  case acquireExclusive => obtain ⟨rfl,rfl⟩ := h; exact .acquireExclusive
  case releaseExclusive => obtain ⟨rfl,rfl⟩ := h; exact .releaseExclusive

end Meaning

/-- A cipher that writes the key in front of the content. -/
def prefixCipher : Cipher UInt8 UInt8 where
  unwrap manifest := manifest
  decrypt key
    | first::blob => if first=key then some blob else none
    | [] => none

/-- What is written under a key opens under it. -/
theorem prefixCipher_opens (key : UInt8) (blob : Bytes) :
    prefixCipher.decrypt key (key::blob)=some blob := if_pos rfl

/-- Answers over the cipher that writes its key in front. -/
def prefixAnswers {Name : Type} [DecidableEq Name] :
    Handler (FileCall Name UInt8 UInt8) FileCall.Ret FileExc (StoreFiles Name UInt8) :=
  fileAnswers prefixCipher 7 fun key blob => key::blob

end GenericMlCache.StoreEncryptor
