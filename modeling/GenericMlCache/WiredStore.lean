import GenericMlCache.ServicePorts
import GenericMlCache.MigrationRecovery

/-!
# Processes over the files of one store

A process resolves its blob store once, from the manifest it finds: plain,
encrypting under that manifest, or refusing content without a token. From then
on its blob calls read and write the files of the store that way, whatever a
migration does to them.
-/

namespace GenericMlCache.WiredStore

open CallProgram PythonText ExecutionModel ServicePorts StoreEncryptor MigrationRecovery

/-- The blob store that `resolve_blob_store` returned. -/
inductive Wiring (Manifest : Type) where
  /-- `FilesystemBlobStore`. -/
  | plain
  /-- `TokenRequiredBlobStore`. -/
  | tokenRequired
  /-- `EncryptingBlobStore`, over the manifest whose key it opened. -/
  | encrypting (manifest : Manifest)
deriving DecidableEq

/-- `resolve_blob_store`. -/
def resolveBlobStore {Manifest : Type} (manifest : Option Manifest) (token : Bool) : Wiring Manifest :=
  match manifest with
  | none => .plain
  | some manifest => if token=true then .encrypting manifest else .tokenRequired

/-- The manifest that a content operation reads and writes under; none without a token. -/
def Wiring.manifest {Manifest : Type} : Wiring Manifest → Option (Option Manifest)
  | .plain => some none
  | .tokenRequired => none
  | .encrypting manifest => some (some manifest)

/-- The databases and the files of one store. The blobs are the files', not the world's. -/
structure SharedStore (Manifest : Type) where
  /-- The databases, the journal and the locks. -/
  world : World
  /-- The files. -/
  files : StoreFiles PyStr Manifest

/-- The blob calls that a wiring answers from the files. -/
def isWired {Command : Type} : Call Command → Bool
  | .blobGet _ | .blobPut _ _ | .blobRemove _ | .ensureAvailableForContent => true
  | _ => false

section Files
variable {Manifest : Type} (fs : StoreFiles PyStr Manifest) (name : PyStr) (content : Bytes)

/-- `FilesystemBlobStore.put`: the directory is made where it is missing, and
the file is replaced in one step. -/
def putBlob : StoreFiles PyStr Manifest :=
  (fs.setDir .blobs (some ((fs.dir .blobs).getD ∅))).write .blobs name content

@[simp] theorem putBlob_marker : (putBlob fs name content).marker=fs.marker := rfl
@[simp] theorem putBlob_manifest : (putBlob fs name content).manifest=fs.manifest := rfl
@[simp] theorem putBlob_executions : (putBlob fs name content).executions=fs.executions := rfl

/-- After a put its file holds the content and every other file what it held. -/
@[simp] theorem at_putBlob (dir : Dir) (name' : PyStr) : (putBlob fs name content).at dir name'=
    if dir=.blobs ∧ name'=name then some content else fs.at dir name' := by
  rw [putBlob,StoreFiles.at_write _ _ _ _ _ (by simp),StoreFiles.at_mkdir]

end Files

section Wired
variable {Command Manifest DataKey : Type}

/-- What a content operation without a token raises. -/
def tokenRequired (purpose : String) : PyExc :=
  .encryptionTokenRequired (pyStr "the store is encrypted — provide the token to " ++ pyStr purpose)

/-- What each call of a process may answer, with the blobs in the files of the store. -/
inductive WiredAnswers (cipher : Cipher Manifest DataKey) (locks : LockMode) (faults : Faults Command)
    (thread : ThreadId) (wiring : Wiring Manifest) :
    (call : Call Command) → SharedStore Manifest → Except PyExc call.Ret → SharedStore Manifest → Prop where
  /-- A call that no wiring answers. -/
  | port {call : Call Command} {s : SharedStore Manifest} {r : Except PyExc call.Ret} {w : World}
      (hcall : isWired call=false) (h : Answers locks faults thread call s.world r w) :
      WiredAnswers cipher locks faults thread wiring call s r { s with world := w }
  /-- The file system faults, without effect. -/
  | fault {call : Call Command} {s : SharedStore Manifest} {e : PyExc} (hcall : isWired call=true)
      (h : faults call e) : WiredAnswers cipher locks faults thread wiring call s (.error e) s
  | getMissing {key : BlobKey} {s : SharedStore Manifest} {manifest : Option Manifest}
      (hwiring : wiring.manifest=some manifest) (h : s.files.at .blobs key.text=none) :
      WiredAnswers cipher locks faults thread wiring (.blobGet key) s (.ok none) s
  | get {key : BlobKey} {s : SharedStore Manifest} {manifest : Option Manifest} {content plain : Bytes}
      (hwiring : wiring.manifest=some manifest) (h : s.files.at .blobs key.text=some content)
      (hopens : opened cipher manifest content=some plain) :
      WiredAnswers cipher locks faults thread wiring (.blobGet key) s (.ok (some plain)) s
  /-- Content that does not open is corrupt. -/
  | getSealed {key : BlobKey} {s : SharedStore Manifest} {manifest : Option Manifest} {content : Bytes}
      (hwiring : wiring.manifest=some manifest) (h : s.files.at .blobs key.text=some content)
      (hopens : opened cipher manifest content=none) :
      WiredAnswers cipher locks faults thread wiring (.blobGet key) s
        (.error (.storeCorrupt (pyStr "blob " ++ key.text ++ pyStr " failed to decrypt with a valid token"))) s
  | getRefused {key : BlobKey} {s : SharedStore Manifest} (hwiring : wiring=.tokenRequired) :
      WiredAnswers cipher locks faults thread wiring (.blobGet key) s
        (.error (tokenRequired "read it")) s
  | put {key : BlobKey} {plain content : Bytes} {s : SharedStore Manifest} {manifest : Option Manifest}
      (hwiring : wiring.manifest=some manifest) (hopens : opened cipher manifest content=some plain) :
      WiredAnswers cipher locks faults thread wiring (.blobPut key plain) s (.ok ())
        { s with files := putBlob s.files key.text content }
  | putRefused {key : BlobKey} {plain : Bytes} {s : SharedStore Manifest} (hwiring : wiring=.tokenRequired) :
      WiredAnswers cipher locks faults thread wiring (.blobPut key plain) s
        (.error (tokenRequired "record")) s
  | remove {key : BlobKey} {s : SharedStore Manifest} :
      WiredAnswers cipher locks faults thread wiring (.blobRemove key) s (.ok ())
        { s with files := s.files.erase .blobs key.text }
  | available {s : SharedStore Manifest} (hwiring : wiring≠.tokenRequired) :
      WiredAnswers cipher locks faults thread wiring .ensureAvailableForContent s (.ok ()) s
  | unavailable {s : SharedStore Manifest} (hwiring : wiring=.tokenRequired) :
      WiredAnswers cipher locks faults thread wiring .ensureAvailableForContent s
        (.error (tokenRequired "run a content operation")) s

/-- Answer the calls that no wiring answers as the ports do, and the others from
the files. `encrypt` seals what an encrypting process writes. -/
def wiredAnswers (cipher : Cipher Manifest DataKey) (encrypt : DataKey → Bytes → Bytes)
    (wiring : Wiring Manifest) (ports : Handler (Call Command) Call.Ret PyExc World) :
    Handler (Call Command) Call.Ret PyExc (SharedStore Manifest)
  | .blobGet key,s =>
    match wiring with
    | .tokenRequired => some (.error (tokenRequired "read it"),s)
    | .plain => some (.ok (s.files.at .blobs key.text),s)
    | .encrypting manifest =>
      match s.files.at .blobs key.text with
      | none => some (.ok none,s)
      | some content =>
        (cipher.decrypt (cipher.unwrap manifest) content).map fun plain => (.ok (some plain),s)
  | .blobPut key plain,s =>
    match wiring with
    | .tokenRequired => some (.error (tokenRequired "record"),s)
    | .plain => some (.ok (),{ s with files := putBlob s.files key.text plain })
    | .encrypting manifest =>
      some (.ok (),{ s with files := putBlob s.files key.text (encrypt (cipher.unwrap manifest) plain) })
  | .blobRemove key,s => some (.ok (),{ s with files := s.files.erase .blobs key.text })
  | .ensureAvailableForContent,s =>
    match wiring with
    | .tokenRequired => some (.error (tokenRequired "run a content operation"),s)
    | _ => some (.ok (),s)
  | call,s => (ports call s.world).map fun answer => (answer.1,{ s with world := answer.2 })

/-- The answers are ones that the calls may give. -/
theorem wiredAnswers_respects {cipher : Cipher Manifest DataKey} {encrypt : DataKey → Bytes → Bytes}
    {wiring : Wiring Manifest} {locks : LockMode} {faults : Faults Command} {thread : ThreadId}
    {ports : Handler (Call Command) Call.Ret PyExc World}
    (hopens : ∀ key blob,cipher.decrypt key (encrypt key blob)=some blob)
    (hports : ports.Respects (Answers locks faults thread)) :
    (wiredAnswers cipher encrypt wiring ports).Respects (WiredAnswers cipher locks faults thread wiring) := by
  intro call s r s' h
  have hport : isWired call=false → (ports call s.world).map
      (fun answer => (answer.1,({ s with world := answer.2 } : SharedStore Manifest)))=some (r,s') →
      WiredAnswers cipher locks faults thread wiring call s r s' := by
    intro hcall hmap
    obtain ⟨answer,hanswer,heq⟩ := Option.map_eq_some_iff.mp hmap
    cases heq
    exact .port hcall (hports call _ _ _ hanswer)
  cases call with
  | blobGet key =>
    cases hwiring : wiring with
    | tokenRequired =>
      subst hwiring
      cases h
      exact .getRefused rfl
    | plain =>
      subst hwiring
      simp only [wiredAnswers,Option.some.injEq,Prod.mk.injEq] at h
      obtain ⟨rfl,rfl⟩ := h
      cases hat : s.files.at .blobs key.text with
      | none => exact .getMissing rfl hat
      | some content => exact .get rfl hat rfl
    | encrypting manifest =>
      subst hwiring
      simp only [wiredAnswers] at h
      cases hat : s.files.at .blobs key.text with
      | none =>
        rw [hat] at h
        cases h
        exact .getMissing rfl hat
      | some content =>
        rw [hat] at h
        obtain ⟨plain,hplain,heq⟩ := Option.map_eq_some_iff.mp h
        cases heq
        exact .get rfl hat hplain
  | blobPut key plain =>
    cases hwiring : wiring with
    | tokenRequired =>
      subst hwiring
      cases h
      exact .putRefused rfl
    | plain =>
      subst hwiring
      cases h
      exact .put rfl rfl
    | encrypting manifest =>
      subst hwiring
      cases h
      exact .put rfl (hopens _ _)
  | blobRemove key =>
    cases h
    exact .remove
  | ensureAvailableForContent =>
    cases hwiring : wiring with
    | tokenRequired =>
      subst hwiring
      cases h
      exact .unavailable rfl
    | plain =>
      subst hwiring
      cases h
      exact .available (fun hf => (by cases hf))
    | encrypting manifest =>
      subst hwiring
      cases h
      exact .available (fun hf => (by cases hf))
  | _ => exact hport rfl h

end Wired

end GenericMlCache.WiredStore
