import GenericMlCache.ServicePorts
import GenericMlCache.LabelledRuns
import Mathlib.Logic.Function.Basic

/-!
# Blobs as files

The blob store keeps each blob as a file of one directory. A write fills a scratch file
of its own and then replaces the blob's file by it. Any number of threads and processes
work on the directory at once, one system call at a time, and each may fail, be
interrupted or die at any of them.
-/

namespace GenericMlCache.BlobFiles

open PythonText ExecutionModel LabelledRuns

/-- A character that `mkstemp` draws. -/
def isDrawnCharacter (c : Fin 0x110000) : Bool :=
  (0x61 ≤ c.val && c.val ≤ 0x7A) || (0x30 ≤ c.val && c.val ≤ 0x39) || c.val==0x5F

/-- A name that `mkstemp(suffix=".tmp")` may make: eight drawn characters between its prefix
and the suffix. -/
def isScratchName (name : PyStr) : Bool :=
  decide (name.length=15) && decide (name.take 3=pyStr "tmp") && decide (name.drop 11=pyStr ".tmp") &&
    ((name.drop 3).take 8).all isDrawnCharacter

/-- A file, whatever its name. -/
abbrev Inode := ℕ

/-- The directory of the blobs. -/
structure Directory where
  /-- The file under each name. -/
  entries : PyStr → Option Inode
  /-- What is in each file; a file without a name lives on while it is open. -/
  content : Inode → Bytes
  /-- The file made next. -/
  nextInode : Inode
  /-- The random names drawn so far; none is drawn twice. -/
  drawn : List PyStr

/-- An empty directory. -/
def Directory.empty : Directory := ⟨fun _ => none,fun _ => [],0,[]⟩

/-- `mkstemp`: a new empty file under a new name. -/
def Directory.create (d : Directory) (name : PyStr) : Directory where
  entries := Function.update d.entries name (some d.nextInode)
  content := Function.update d.content d.nextInode []
  nextInode := d.nextInode+1
  drawn := name::d.drawn

/-- Bytes written to the end of a file. -/
def Directory.append (d : Directory) (inode : Inode) (bytes : Bytes) : Directory :=
  { d with content := Function.update d.content inode (d.content inode ++ bytes) }

/-- `os.replace`: the file of one name is the file of the other, at once. -/
def Directory.replace (d : Directory) (scratch target : PyStr) : Directory :=
  { d with entries := Function.update (Function.update d.entries target (d.entries scratch)) scratch none }

/-- `unlink(missing_ok=True)`. -/
def Directory.unlink (d : Directory) (name : PyStr) : Directory :=
  { d with entries := Function.update d.entries name none }

section Directory
variable (d : Directory) (name target : PyStr) (inode : Inode) (bytes : Bytes)

@[simp] theorem Directory.create_entries :
    (d.create name).entries=Function.update d.entries name (some d.nextInode) := rfl
@[simp] theorem Directory.create_content :
    (d.create name).content=Function.update d.content d.nextInode [] := rfl
@[simp] theorem Directory.append_entries : (d.append inode bytes).entries=d.entries := rfl
@[simp] theorem Directory.append_content :
    (d.append inode bytes).content=Function.update d.content inode (d.content inode ++ bytes) := rfl
@[simp] theorem Directory.replace_entries : (d.replace name target).entries=
    Function.update (Function.update d.entries target (d.entries name)) name none := rfl
@[simp] theorem Directory.replace_content : (d.replace name target).content=d.content := rfl
@[simp] theorem Directory.unlink_entries : (d.unlink name).entries=Function.update d.entries name none := rfl
@[simp] theorem Directory.unlink_content : (d.unlink name).content=d.content := rfl

end Directory

/-- A call of the blob store. -/
inductive Op where
  | get (key : PyStr)
  | put (key : PyStr) (output : Bytes)
  | remove (key : PyStr)

/-- The key a call is about. -/
def Op.key : Op → PyStr
  | .get key | .put key _ | .remove key => key

/-- How a call ends. -/
inductive Result where
  | content (found : Option Bytes)
  | done
  | valueError
  | storeUnavailable
  /-- Any other exception, an interrupt among them. -/
  | raised

/-- A failure that a call reports; it is no ValueError. -/
def Result.isFailure : Result → Bool
  | .storeUnavailable | .raised => true
  | _ => false

/-- Where a thread stands in its call. -/
inductive Phase where
  | idle
  /-- Before `path.exists()`. -/
  | checking (key : PyStr)
  /-- Before the file is opened by `read_bytes`. -/
  | opening (key : PyStr)
  /-- In `read_bytes`, with what was read so far. -/
  | reading (key : PyStr) (inode : Inode) (got : Bytes)
  /-- Before `mkdir` and `mkstemp`. -/
  | making (key : PyStr) (output : Bytes)
  /-- In `write` and `close`, with what is still to be written. -/
  | writing (key : PyStr) (output : Bytes) (scratch : PyStr) (inode : Inode) (rest : Bytes)
  /-- Before `os.replace`. -/
  | replacing (key : PyStr) (output : Bytes) (scratch : PyStr) (inode : Inode)
  /-- In `except BaseException`, before the scratch file is unlinked. -/
  | cleaning (key : PyStr) (output : Bytes) (scratch : PyStr) (result : Result)
  /-- Before the blob's file is unlinked. -/
  | unlinking (key : PyStr)
  | returning (op : Op) (result : Result)

/-- The call of a phase before its return. -/
def Phase.op? : Phase → Option Op
  | .checking key | .opening key | .reading key _ _ => some (.get key)
  | .making key output | .writing key output _ _ _ | .replacing key output _ _ | .cleaning key output _ _ =>
    some (.put key output)
  | .unlinking key => some (.remove key)
  | .idle | .returning _ _ => none

/-- The scratch name of a phase, with its file while that is written or to be moved. -/
def Phase.scratch? : Phase → Option (PyStr × Option Inode)
  | .writing _ _ scratch inode _ | .replacing _ _ scratch inode => some (scratch,some inode)
  | .cleaning _ _ scratch _ => some (scratch,none)
  | _ => none

/-- The file that a phase reads. -/
def Phase.reads? : Phase → Option Inode
  | .reading _ inode _ => some inode
  | _ => none

/-- Where a call begins; the key is validated before anything else. -/
def Op.begin (op : Op) : Phase :=
  if isBlobKey op.key=true then match op with
    | .get key => .checking key
    | .put key output => .making key output
    | .remove key => .unlinking key
  else .returning op .valueError

/-- One system call of a thread, or its failure. -/
inductive Work (d : Directory) : Phase → Directory → Phase → Prop where
  | missing {key : PyStr} (h : d.entries key=none) :
      Work d (.checking key) d (.returning (.get key) (.content none))
  | present {key : PyStr} {inode : Inode} (h : d.entries key=some inode) : Work d (.checking key) d (.opening key)
  | opened {key : PyStr} {inode : Inode} (h : d.entries key=some inode) :
      Work d (.opening key) d (.reading key inode [])
  /-- The file went away since it was seen, or cannot be opened. -/
  | openFailed {key : PyStr} : Work d (.opening key) d (.returning (.get key) .storeUnavailable)
  | more {key : PyStr} {inode : Inode} {got : Bytes} (n : ℕ) :
      Work d (.reading key inode got) d (.reading key inode (got ++ ((d.content inode).drop got.length).take n))
  | whole {key : PyStr} {inode : Inode} {got : Bytes} (h : (d.content inode).length ≤ got.length) :
      Work d (.reading key inode got) d (.returning (.get key) (.content (some got)))
  | readFailed {key : PyStr} {inode : Inode} {got : Bytes} :
      Work d (.reading key inode got) d (.returning (.get key) .storeUnavailable)
  | made {key name : PyStr} {output : Bytes} (hname : isScratchName name=true) (hnew : name∉d.drawn)
      (hfree : d.entries name=none) :
      Work d (.making key output) (d.create name) (.writing key output name d.nextInode output)
  | makeFailed {key : PyStr} {output : Bytes} :
      Work d (.making key output) d (.returning (.put key output) .storeUnavailable)
  | wrote {key scratch : PyStr} {output rest : Bytes} {inode : Inode} (n : ℕ) :
      Work d (.writing key output scratch inode rest) (d.append inode (rest.take n))
        (.writing key output scratch inode (rest.drop n))
  | closed {key scratch : PyStr} {output : Bytes} {inode : Inode} :
      Work d (.writing key output scratch inode []) d (.replacing key output scratch inode)
  | writeFailed {key scratch : PyStr} {output rest : Bytes} {inode : Inode} {result : Result}
      (h : result.isFailure=true) :
      Work d (.writing key output scratch inode rest) d (.cleaning key output scratch result)
  /-- Interrupted between `mkstemp` and the guarded block. -/
  | abandoned {key scratch : PyStr} {output : Bytes} {inode : Inode} :
      Work d (.writing key output scratch inode output) d (.returning (.put key output) .raised)
  | replaced {key scratch : PyStr} {output : Bytes} {inode file : Inode} (h : d.entries scratch=some file) :
      Work d (.replacing key output scratch inode) (d.replace scratch key) (.returning (.put key output) .done)
  /-- Interrupted behind `os.replace`, still in the guarded block. -/
  | replacedLate {key scratch : PyStr} {output : Bytes} {inode file : Inode} (h : d.entries scratch=some file) :
      Work d (.replacing key output scratch inode) (d.replace scratch key) (.cleaning key output scratch .raised)
  | replaceFailed {key scratch : PyStr} {output : Bytes} {inode : Inode} {result : Result}
      (h : result.isFailure=true) :
      Work d (.replacing key output scratch inode) d (.cleaning key output scratch result)
  | cleaned {key scratch : PyStr} {output : Bytes} {result : Result} :
      Work d (.cleaning key output scratch result) (d.unlink scratch) (.returning (.put key output) result)
  | cleanFailed {key scratch : PyStr} {output : Bytes} {result : Result} :
      Work d (.cleaning key output scratch result) d (.returning (.put key output) .storeUnavailable)
  /-- Interrupted before the scratch file went away. -/
  | cleanInterrupted {key scratch : PyStr} {output : Bytes} {result : Result} :
      Work d (.cleaning key output scratch result) d (.returning (.put key output) .raised)
  /-- Interrupted when the scratch file was gone. -/
  | cleanedLate {key scratch : PyStr} {output : Bytes} {result : Result} :
      Work d (.cleaning key output scratch result) (d.unlink scratch) (.returning (.put key output) .raised)
  | removed {key : PyStr} : Work d (.unlinking key) (d.unlink key) (.returning (.remove key) .done)
  /-- Interrupted when the blob's file was gone. -/
  | removedLate {key : PyStr} : Work d (.unlinking key) (d.unlink key) (.returning (.remove key) .raised)
  | removeFailed {key : PyStr} : Work d (.unlinking key) d (.returning (.remove key) .storeUnavailable)
  /-- Interrupted outside the guarded block, or an error that is not translated. -/
  | interrupted {phase : Phase} {op : Op} (h : phase.op?=some op) (hscratch : phase.scratch?=none) :
      Work d phase d (.returning op .raised)

section Threads
variable {ι : Type} [DecidableEq ι]

/-- The directory and the threads at work on it. -/
structure Root (ι : Type) where
  /-- The directory. -/
  directory : Directory
  /-- Where each thread is in its work. -/
  phase : ι → Phase

/-- A new directory that nobody works on. -/
def Root.empty : Root ι := ⟨.empty,fun _ => .idle⟩

/-- What is seen from outside. -/
inductive Event (ι : Type) where
  | called (thread : ι) (op : Op)
  | returned (thread : ι) (result : Result)
  /-- The thread's process died in the call. -/
  | died (thread : ι)

/-- One step of one thread. -/
inductive Step : Steps (Root ι) (Event ι) where
  | call {s : Root ι} (thread : ι) (op : Op) (h : s.phase thread=.idle) :
      Step s (some (.called thread op)) ⟨s.directory,Function.update s.phase thread op.begin⟩
  | work {s : Root ι} (thread : ι) {directory : Directory} {phase : Phase}
      (h : Work s.directory (s.phase thread) directory phase) :
      Step s none ⟨directory,Function.update s.phase thread phase⟩
  | ret {s : Root ι} (thread : ι) {op : Op} {result : Result} (h : s.phase thread=.returning op result) :
      Step s (some (.returned thread result)) ⟨s.directory,Function.update s.phase thread .idle⟩
  | die {s : Root ι} (thread : ι) (h : s.phase thread≠.idle) :
      Step s (some (.died thread)) ⟨s.directory,Function.update s.phase thread .idle⟩

end Threads

end GenericMlCache.BlobFiles
