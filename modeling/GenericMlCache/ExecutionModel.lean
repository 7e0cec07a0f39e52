import GenericMlCache.PythonText

/-!
# The execution domain model

Executions, their artifacts and the raw result of a client run, with the
enumerations and errors the store and the services share. Surrogate ids and
digests are only ever compared and printed, so each is kept as a number.
-/

namespace GenericMlCache.ExecutionModel

open PythonText

/-- A SHA-256 digest as a number. It is left unbounded, so that an injective
fingerprint exists for results that assume no collision. -/
abbrev Digest := ℕ

/-- A fingerprint without collisions: the octets as digits of a number. -/
def positional : Bytes → ℕ
  | [] => 0
  | octet::rest => octet.toNat+1+257*positional rest

/-- Different contents have different numbers. -/
theorem positional_injective : Function.Injective positional := by
  intro content
  induction content with
  | nil =>
    intro content' h
    cases content' with
    | nil => rfl
    | cons octet rest =>
      simp only [positional] at h
      omega
  | cons octet rest ih =>
    intro content' h
    cases content' with
    | nil =>
      simp only [positional] at h
      omega
    | cons octet' rest' =>
      simp only [positional] at h
      have hlt := octet.toNat_lt
      have hlt' := octet'.toNat_lt
      have hoctet : octet=octet' := UInt8.toNat.inj (by omega)
      have hrest : rest=rest' := ih (by omega)
      rw [hoctet,hrest]

/-- Microseconds since the epoch. -/
abbrev Timestamp := ℤ

/-- The key of a call: the digest of its identity. -/
structure ExecutionKey where
  /-- Its digest; hex of fixed width sorts as the number does. -/
  digest : Digest
deriving DecidableEq,Repr

/-- The surrogate identity minted for one execution. -/
structure ExecutionId where
  /-- The UUID as a number. -/
  uuid : ℕ
deriving DecidableEq,Repr

/-- Printed form of an execution id. -/
def ExecutionId.text (id : ExecutionId) : PyStr := pyStr (toString id.uuid)

/-- A validated blob-store key. -/
inductive BlobKey where
  /-- The key an execution owns for one content: its id, then the fingerprint. -/
  | forExecution (executionId : ExecutionId) (fingerprint : Digest)
  /-- Any other text the key pattern admits. -/
  | other (key : PyStr)
deriving DecidableEq,Repr

/-- Printed form of a blob key. -/
def BlobKey.text : BlobKey → PyStr
  | .forExecution id fingerprint => id.text ++ pyStr "_" ++ pyStr (toString fingerprint)
  | .other key => key

/-- A character of `[A-Za-z0-9._-]`. -/
def isKeyCharacter (c : Fin 0x110000) : Bool :=
  (0x41 ≤ c.val && c.val ≤ 0x5A) || (0x61 ≤ c.val && c.val ≤ 0x7A) || (0x30 ≤ c.val && c.val ≤ 0x39) ||
    c.val==0x2E || c.val==0x5F || c.val==0x2D

/-- What the constructor of `BlobKey` admits. -/
def isBlobKey (key : PyStr) : Bool :=
  key.all isKeyCharacter && decide (1 ≤ key.length) && decide (key.length ≤ 255) &&
    decide (key≠pyStr ".") && decide (key≠pyStr "..")

/-- The persistence lifecycle of an artifact's blob. -/
inductive ArtifactStatus where
  | pending | stored | failed
deriving DecidableEq,Repr

/-- The kind of document an artifact holds. -/
inductive ArtifactType where
  | stdout | stderr | outputFile
  | inputContext | inputPrompt | inputSystem | inputMessages | inputArgs
deriving DecidableEq,Repr

/-- The stored value of each type. -/
def ArtifactType.text : ArtifactType → PyStr
  | .stdout => pyStr "stdout"
  | .stderr => pyStr "stderr"
  | .outputFile => pyStr "output_file"
  | .inputContext => pyStr "input_context"
  | .inputPrompt => pyStr "input_prompt"
  | .inputSystem => pyStr "input_system"
  | .inputMessages => pyStr "input_messages"
  | .inputArgs => pyStr "input_args"

/-- Membership in `INPUT_ARTIFACT_TYPES`; every other type is output. -/
def ArtifactType.isInput : ArtifactType → Bool
  | .stdout | .stderr | .outputFile => false
  | .inputContext | .inputPrompt | .inputSystem | .inputMessages | .inputArgs => true

/-- Whether content decodes as UTF-8 text. -/
inductive Encoding where
  | utf8 | binary
deriving DecidableEq,Repr

/-- The size of a document: a number, or a text that only a damaged row holds in
its place. -/
inductive Size where
  | bytes (n : ℕ)
  /-- The text is no number; SQL still takes it for one where it sums sizes. -/
  | text (text : PyStr) (summed : ℕ)
deriving DecidableEq

/-- What SQL's SUM takes a size for. -/
def Size.summed : Size → ℕ
  | .bytes n => n
  | .text _ summed => summed

/-- One document of an execution; its content is absent while dehydrated. -/
structure Artifact where
  /-- What the document is. -/
  artifactType : ArtifactType
  /-- The key its bytes are stored under. -/
  blobKey : BlobKey
  /-- Length of the content. -/
  sizeBytes : Size
  /-- File name, for a produced file. -/
  name : Option PyStr := none
  /-- Text or binary. -/
  encoding : Encoding := .utf8
  /-- The bytes, when hydrated. -/
  content : Option Bytes := none
  /-- Where its persistence stands. -/
  status : ArtifactStatus := .stored
  /-- When its blob was confirmed. -/
  persistedAt : Option Timestamp := none
  /-- Why its write failed. -/
  statusDetail : Option PyStr := none
deriving DecidableEq

/-- `Artifact._encoding_for`. -/
def encodingFor (content : Bytes) : Encoding := if isUtf8 content=true then .utf8 else .binary

/-- `Artifact.from_content`: a hydrated artifact with size and encoding derived. -/
def Artifact.fromContent (artifactType : ArtifactType) (blobKey : BlobKey) (content : Bytes)
    (name : Option PyStr) (status : ArtifactStatus) : Artifact :=
  { artifactType := artifactType, blobKey := blobKey, sizeBytes := .bytes content.length, name := name,
    encoding := encodingFor content, content := some content, status := status }

/-- The type of an execution. -/
inductive ExecutionKind where
  | localManaged | localPassthrough | api | apiPassthrough
deriving DecidableEq,Repr

/-- Lifecycle state of an execution. -/
inductive ExecutionState where
  | inProgress | success | failed
deriving DecidableEq,Repr

/-- Why a run failed. -/
inductive FailureReason where
  | nonzeroExit | clientError
deriving DecidableEq,Repr

/-- The interpreted cause of a failed run. -/
structure ExecutionFailure where
  /-- Its class. -/
  reason : FailureReason
  /-- Its text. -/
  message : PyStr
  /-- The client's exit code, when that is the cause. -/
  exitCode : Option ℤ := none
deriving DecidableEq

/-- A JSON value as Python holds it; a float is its IEEE 754 bit pattern. -/
inductive Json where
  | null
  | bool (b : Bool)
  | int (n : ℤ)
  | float (bits : UInt64)
  | str (s : PyStr)
  | arr (items : List Json)
  | obj (fields : List (PyStr × Json))

/-- Token accounting of one run. None is unknown, never zero. -/
structure TokenUsage where
  /-- The tokens read. -/
  inputTokens : Option ℤ := none
  /-- The tokens written. -/
  outputTokens : Option ℤ := none
  /-- Those read from the provider's cache. -/
  cacheReadTokens : Option ℤ := none
  /-- Those written to it. -/
  cacheWriteTokens : Option ℤ := none
  /-- Those spent on reasoning. -/
  reasoningTokens : Option ℤ := none
  /-- The client's advisory estimate, a float's bit pattern. -/
  costUsd : Option UInt64 := none
  /-- The client's verbatim usage block. -/
  raw : List (PyStr × Json) := []

/-- Whether every counter fits the INTEGER columns it is bound to. -/
def TokenUsage.storable (usage : TokenUsage) : Bool :=
  [usage.inputTokens,usage.outputTokens,usage.cacheReadTokens,usage.cacheWriteTokens,
    usage.reasoningTokens].all fun n => n.all sqliteInteger

/-- What store and services read of a call identity of any kind. -/
structure CallIdentity where
  /-- `generate_key()`. -/
  generateKey : ExecutionKey
  /-- `summary_client`. -/
  summaryClient : PyStr
  /-- `summary_model`. -/
  summaryModel : PyStr
deriving DecidableEq

/-- The aggregate root: a demand to run a client and what came back. -/
structure MlExecution where
  /-- The call it answers. -/
  callIdentity : CallIdentity
  /-- Where it stands. -/
  executionState : ExecutionState
  /-- How it is run. -/
  executionKind : ExecutionKind
  /-- Whether every output document is stored. -/
  outputPersisted : Bool
  /-- The surrogate id every write after the first targets. -/
  executionId : ExecutionId
  /-- Whether its input is recorded. -/
  inputPersisted : Bool := false
  /-- Its documents. -/
  artifacts : List Artifact := []
  /-- What it spent, where the client told. -/
  tokenUsage : Option TokenUsage := none
  /-- Why it failed, where it did. -/
  failure : Option ExecutionFailure := none
  /-- None while current; set once a newer success took its place. -/
  supersededAt : Option Timestamp := none

/-- One file the client produced. -/
structure GeneratedFile where
  /-- Its name. -/
  name : PyStr
  /-- Its bytes. -/
  content : Bytes
deriving DecidableEq

/-- The raw result of a client run. -/
structure ClientRunResult where
  /-- The exit code. -/
  exitCode : ℤ
  /-- The standard output. -/
  stdout : PyStr := []
  /-- The standard error. -/
  stderr : PyStr := []
  /-- The files produced. -/
  files : List GeneratedFile := []
  /-- What the run spent, where the client told. -/
  tokenUsage : Option TokenUsage := none

/-- A run succeeded when its exit code is zero. -/
def ClientRunResult.succeeded (result : ClientRunResult) : Bool := decide (result.exitCode=0)

/-- The execution state a result leads to. -/
def ClientRunResult.outcome (result : ClientRunResult) : ExecutionState :=
  if result.succeeded=true then .success else .failed

/-- The failure a result records, none for a success. -/
def ClientRunResult.failure (result : ClientRunResult) : Option ExecutionFailure :=
  if result.succeeded=true then none
  else some ⟨.nonzeroExit,pyStr s!"client exited with status {result.exitCode}",some result.exitCode⟩

/-- Cache resolution policy. -/
inductive CacheMode where
  | cache | offline | refresh
deriving DecidableEq,Repr

/-- How much of an execution is kept. -/
inductive PersistenceDepth where
  | meter | cache | dataset
deriving DecidableEq,Repr

/-- Whether the depth keeps the output. -/
def PersistenceDepth.storesOutput : PersistenceDepth → Bool
  | .meter => false
  | .cache | .dataset => true

/-- Whether the depth keeps the input. -/
def PersistenceDepth.storesInput : PersistenceDepth → Bool
  | .meter | .cache => false
  | .dataset => true

/-- Journal event names. -/
inductive JournalEvent where
  | hit | record | miss | run | wouldHit | wouldMiss
deriving DecidableEq,Repr

/-- The texts of a `StoreConsistencyError`. -/
inductive ConsistencyFault where
  | noExecutionRow (executionId : ExecutionId)
  | noArtifactRow (executionId : ExecutionId) (blobKey : BlobKey)
  | finalizeUnknown (executionId : ExecutionId)
  | finalizeNotStored (executionId : ExecutionId) (notStored : ℕ)
  | integrity (message : PyStr)
deriving DecidableEq

/-- The message of each consistency error. -/
def ConsistencyFault.text : ConsistencyFault → PyStr
  | .noExecutionRow id => pyStr "no execution row for execution_id " ++ id.text
  | .noArtifactRow id key => pyStr "no artifact row for execution " ++ id.text ++
      pyStr " / blob " ++ key.text ++ pyStr " to update"
  | .finalizeUnknown id => pyStr "finalize: no execution row for execution_id " ++ id.text
  | .finalizeNotStored id n => pyStr "finalize: execution " ++ id.text ++
      pyStr s!" still has {n} artifact(s) not STORED"
  | .integrity message => pyStr "store integrity violation: " ++ message

/-- Everything a call or a service may raise. -/
inductive PyExc where
  | storeConsistency (fault : ConsistencyFault)
  | storeCorrupt (message : PyStr)
  | storeLocked (message : PyStr)
  | storeUnavailable (message : PyStr)
  | artifactBlobMissing (message : PyStr)
  | cacheMiss (message : PyStr)
  | encryptionTokenRequired (message : PyStr)
  | unicodeEncodeError
  | overflowError
  | runInterrupted (message : PyStr)
  /-- Any other class; `isException` is false for KeyboardInterrupt, SystemExit
  and the other classes `except Exception` does not catch. -/
  | other (isException : Bool) (message : PyStr)
deriving DecidableEq

/-- Whether `except Exception` catches it. -/
def PyExc.isException : PyExc → Bool
  | .other isException _ => isException
  | _ => true

/-- Whether `except (StoreCorrupt, ArtifactBlobMissing)` catches it. -/
def PyExc.isCorruption : PyExc → Bool
  | .storeCorrupt _ | .artifactBlobMissing _ => true
  | _ => false

/-- Corruption is an exception like any other. -/
theorem PyExc.isException_of_isCorruption {e : PyExc} (h : e.isCorruption=true) :
    e.isException=true := by
  cases e <;> first | rfl | exact nomatch h

/-- Whether `except RunInterrupted` catches it. -/
def PyExc.isInterrupt : PyExc → Bool
  | .runInterrupted _ => true
  | _ => false

/-- `str(exc)`. -/
def PyExc.str : PyExc → PyStr
  | .storeConsistency fault => fault.text
  | .storeCorrupt message | .storeLocked message | .storeUnavailable message
  | .artifactBlobMissing message | .cacheMiss message | .encryptionTokenRequired message
  | .runInterrupted message | .other _ message => message
  | .unicodeEncodeError => pyStr "'utf-8' codec can't encode characters: surrogates not allowed"
  | .overflowError => pyStr "Python int too large to convert to SQLite INTEGER"

end GenericMlCache.ExecutionModel
