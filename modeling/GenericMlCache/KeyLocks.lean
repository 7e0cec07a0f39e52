import GenericMlCache.LockOrder
import Mathlib.Data.Fintype.Basic
import Mathlib.Algebra.Ring.Nat

/-!
# The key lock across threads and processes

A key lock is a re-entrant stripe of the process and, behind it, the lock of a file that
all processes share. A thread that is in the scope of a key enters it again without the
file. The scopes of a thread nest; threads of any number of processes take their steps in
any order.
-/

namespace GenericMlCache.KeyLocks

open LockOrder

/-- An open lock file: the thread that opened it, and a number of its own. -/
structure Descriptor (Thread : Type) where
  /-- The thread that opened the file. -/
  thread : Thread
  /-- A number of its own. -/
  number : ℕ
deriving DecidableEq

/-- How a scope holds its key. -/
inductive Grip (Thread : Type) where
  /-- An outer scope of the thread holds it. -/
  | nested
  /-- The file did not open, or the wait for its lock timed out. -/
  | unlocked (fd : Option (Descriptor Thread))
  | locked (fd : Descriptor Thread)
deriving DecidableEq

/-- A `with` block of `acquire` that a thread is in. -/
structure Scope (Thread Key : Type) where
  /-- The key acquired. -/
  key : Key
  /-- What the block holds for it. -/
  grip : Grip Thread
deriving DecidableEq

/-- Where a thread is in `acquire`. -/
inductive Phase (Thread Key : Type) where
  /-- In no part of it: in the innermost scope's body, or in no scope. -/
  | idle
  | entering (key : Key)
  | opening (key : Key)
  | locking (key : Key) (fd : Descriptor Thread)
  | closing (key : Key) (fd : Descriptor Thread)
  | leaving (key : Key)
deriving DecidableEq

/-- A thread: its `_held_by_thread.keys`, the scopes it is in, the innermost first, and
its place in `acquire`. -/
structure LockThread (Thread Key : Type) where
  /-- `_held_by_thread.keys`. -/
  held : List Key := []
  /-- The blocks it is in, the innermost first. -/
  scopes : List (Scope Thread Key) := []
  /-- Its place in `acquire`. -/
  phase : Phase Thread Key := .idle
deriving DecidableEq

/-- The process of each thread, the stripe of each key in each process (`hash` differs
from one to the other), and the file of each key. -/
structure Layout (Thread Process Key Path : Type) where
  /-- The process of a thread. -/
  process : Thread → Process
  /-- The stripe of a key in a process. -/
  stripe : Process → Key → Fin 64
  /-- The lock file of a key. -/
  lockPath : Key → Path

/-- The stripes of each process with owner and count, the lock of each file, and the threads. -/
structure Locks (Thread Process Key Path : Type) where
  /-- Owner and count of each stripe. -/
  stripes : Process → Fin 64 → Option (Thread × ℕ) := fun _ _ => none
  /-- The descriptor that has each file locked. -/
  files : Path → Option (Descriptor Thread) := fun _ => none
  /-- The number the next descriptor gets. -/
  opened : ℕ := 0
  /-- The threads. -/
  threads : Thread → LockThread Thread Key := fun _ => {}

/-- A step of a thread. -/
inductive LockStep (Key : Type) where
  | begins (key : Key)
  | enters
  | opens
  | openFails
  | tries
  | timesOut
  | exits
  | closes
  | leaves
deriving DecidableEq

section Steps
variable {Thread Process Key Path : Type}
variable [DecidableEq Thread] [DecidableEq Process] [DecidableEq Key] [DecidableEq Path]

/-- `RLock.acquire`: none while another thread owns it. -/
def acquireStripe (thread : Thread) : Option (Thread × ℕ) → Option (Option (Thread × ℕ))
  | none => some (some (thread,1))
  | some (owner,count) => if owner=thread then some (some (owner,count+1)) else none

/-- `RLock.release`: none, for a RuntimeError, where another thread owns it. -/
def releaseStripe (thread : Thread) : Option (Thread × ℕ) → Option (Option (Thread × ℕ))
  | none => none
  | some (owner,count) =>
    if owner=thread then some (if count ≤ 1 then none else some (owner,count-1)) else none

/-- Replace one stripe of a process. -/
def setStripe (stripes : Process → Fin 64 → Option (Thread × ℕ)) (process : Process) (stripe : Fin 64)
    (lock : Option (Thread × ℕ)) : Process → Fin 64 → Option (Thread × ℕ) :=
  Function.update stripes process (Function.update (stripes process) stripe lock)

/-- Unlock a file, which does nothing where another descriptor has its lock. -/
def unlockFile (files : Path → Option (Descriptor Thread)) (path : Path) (fd : Descriptor Thread) :
    Path → Option (Descriptor Thread) :=
  if files path=some fd then Function.update files path none else files

/-- The body of the scope begins. -/
def LockThread.push (thread : LockThread Thread Key) (key : Key) (grip : Grip Thread) : LockThread Thread Key where
  held := match grip with
    | .nested => thread.held
    | _ => key::thread.held
  scopes := ⟨key,grip⟩::thread.scopes
  phase := .idle

variable (layout : Layout Thread Process Key Path)

/-- Run a thread for one step. -/
def Locks.step (s : Locks Thread Process Key Path) (t : Thread) (a : LockStep Key) :
    Option (Locks Thread Process Key Path) :=
  let thread := s.threads t
  let process := layout.process t
  let put (thread : LockThread Thread Key) := Function.update s.threads t thread
  match a,thread.phase with
  | .begins key,.idle => some { s with threads := put { thread with phase := .entering key } }
  | .enters,.entering key =>
    (acquireStripe t (s.stripes process (layout.stripe process key))).map fun lock =>
      { s with
        stripes := setStripe s.stripes process (layout.stripe process key) lock
        threads := put (if key∈thread.held then thread.push key .nested else { thread with phase := .opening key }) }
  | .opens,.opening key =>
    some { s with opened := s.opened+1, threads := put { thread with phase := .locking key ⟨t,s.opened⟩ } }
  | .openFails,.opening key => some { s with threads := put (thread.push key (.unlocked none)) }
  | .tries,.locking key fd =>
    if s.files (layout.lockPath key)=none then
      some { s with
        files := Function.update s.files (layout.lockPath key) (some fd)
        threads := put (thread.push key (.locked fd)) }
    else some s
  | .timesOut,.locking key fd => some { s with threads := put (thread.push key (.unlocked (some fd))) }
  | .exits,.idle =>
    match thread.scopes with
    | [] => none
    | ⟨key,.nested⟩::rest => some { s with threads := put { thread with scopes := rest, phase := .leaving key } }
    | ⟨key,.unlocked none⟩::rest =>
      some { s with threads := put ⟨thread.held.erase key,rest,.leaving key⟩ }
    | ⟨key,.unlocked (some fd)⟩::rest =>
      some { s with threads := put ⟨thread.held.erase key,rest,.closing key fd⟩ }
    | ⟨key,.locked fd⟩::rest =>
      some { s with
        files := unlockFile s.files (layout.lockPath key) fd
        threads := put ⟨thread.held.erase key,rest,.closing key fd⟩ }
  | .closes,.closing key fd =>
    some { s with
      files := unlockFile s.files (layout.lockPath key) fd
      threads := put { thread with phase := .leaving key } }
  | .leaves,.leaving key =>
    (releaseStripe t (s.stripes process (layout.stripe process key))).map fun lock =>
      { s with
        stripes := setStripe s.stripes process (layout.stripe process key) lock
        threads := put { thread with phase := .idle } }
  | _,_ => none

/-- Whether a step is one of a lock that is granted: the file opens and no wait times out. -/
def granted : LockStep Key → Bool
  | .openFails => false
  | .timesOut => false
  | _ => true

/-- The states that the threads reach while every lock file opens and no wait times out. -/
def Reached : Locks Thread Process Key Path → Prop :=
  Relation.ReflTransGen (fun s s' => ∃ t a,granted a=true ∧ s.step layout t a=some s') {}

/-- What a granted step does to the locks. -/
inductive Moved (s : Locks Thread Process Key Path) (t : Thread) : Locks Thread Process Key Path → Prop where
  | begins (key : Key) (hphase : (s.threads t).phase=.idle) :
      Moved s t { s with threads := Function.update s.threads t { s.threads t with phase := .entering key } }
  | reenters {key : Key} {lock : Option (Thread × ℕ)} (hphase : (s.threads t).phase=.entering key)
      (hlock : acquireStripe t (s.stripes (layout.process t) (layout.stripe (layout.process t) key))=some lock)
      (hheld : key∈(s.threads t).held) :
      Moved s t { s with
        stripes := setStripe s.stripes (layout.process t) (layout.stripe (layout.process t) key) lock
        threads := Function.update s.threads t ((s.threads t).push key .nested) }
  | enters {key : Key} {lock : Option (Thread × ℕ)} (hphase : (s.threads t).phase=.entering key)
      (hlock : acquireStripe t (s.stripes (layout.process t) (layout.stripe (layout.process t) key))=some lock)
      (hheld : key∉(s.threads t).held) :
      Moved s t { s with
        stripes := setStripe s.stripes (layout.process t) (layout.stripe (layout.process t) key) lock
        threads := Function.update s.threads t { s.threads t with phase := .opening key } }
  | opens {key : Key} (hphase : (s.threads t).phase=.opening key) :
      Moved s t { s with
        opened := s.opened+1
        threads := Function.update s.threads t { s.threads t with phase := .locking key ⟨t,s.opened⟩ } }
  | locks {key : Key} {fd : Descriptor Thread} (hphase : (s.threads t).phase=.locking key fd)
      (hfree : s.files (layout.lockPath key)=none) :
      Moved s t { s with
        files := Function.update s.files (layout.lockPath key) (some fd)
        threads := Function.update s.threads t ((s.threads t).push key (.locked fd)) }
  | polls : Moved s t s
  | unnests {key : Key} {rest : List (Scope Thread Key)} (hphase : (s.threads t).phase=.idle)
      (hscopes : (s.threads t).scopes=⟨key,.nested⟩::rest) :
      Moved s t { s with
        threads := Function.update s.threads t { s.threads t with scopes := rest, phase := .leaving key } }
  | degraded {key : Key} {fd : Option (Descriptor Thread)} {rest : List (Scope Thread Key)}
      {s' : Locks Thread Process Key Path} (hscopes : (s.threads t).scopes=⟨key,.unlocked fd⟩::rest) : Moved s t s'
  | unlocks {key : Key} {fd : Descriptor Thread} {rest : List (Scope Thread Key)}
      (hphase : (s.threads t).phase=.idle) (hscopes : (s.threads t).scopes=⟨key,.locked fd⟩::rest) :
      Moved s t { s with
        files := unlockFile s.files (layout.lockPath key) fd
        threads := Function.update s.threads t ⟨(s.threads t).held.erase key,rest,.closing key fd⟩ }
  | closes {key : Key} {fd : Descriptor Thread} (hphase : (s.threads t).phase=.closing key fd) :
      Moved s t { s with
        files := unlockFile s.files (layout.lockPath key) fd
        threads := Function.update s.threads t { s.threads t with phase := .leaving key } }
  | leaves {key : Key} {lock : Option (Thread × ℕ)} (hphase : (s.threads t).phase=.leaving key)
      (hlock : releaseStripe t (s.stripes (layout.process t) (layout.stripe (layout.process t) key))=some lock) :
      Moved s t { s with
        stripes := setStripe s.stripes (layout.process t) (layout.stripe (layout.process t) key) lock
        threads := Function.update s.threads t { s.threads t with phase := .idle } }

variable {layout}

/-- A granted step is one of these. -/
theorem Moved.of_step {s s' : Locks Thread Process Key Path} {t : Thread} {a : LockStep Key}
    (hgranted : granted a=true) (h : s.step layout t a=some s') : Moved layout s t s' := by
  unfold Locks.step at h
  dsimp only at h
  split at h
  next key hphase =>
    cases h
    exact .begins key hphase
  next key hphase =>
    obtain ⟨lock,hlock,rfl⟩ := Option.map_eq_some_iff.mp h
    by_cases hheld : key∈(s.threads t).held
    · rw [if_pos hheld]
      exact .reenters hphase hlock hheld
    · rw [if_neg hheld]
      exact .enters hphase hlock hheld
  next key hphase =>
    cases h
    exact .opens hphase
  next => exact nomatch hgranted
  next key fd hphase =>
    split at h
    next hfree =>
      cases h
      exact .locks hphase hfree
    next =>
      cases h
      exact .polls
  next => exact nomatch hgranted
  next hphase =>
    split at h
    next => exact nomatch h
    next key rest hscopes =>
      cases h
      exact .unnests hphase hscopes
    next key rest hscopes => exact .degraded hscopes
    next key fd rest hscopes => exact .degraded hscopes
    next key fd rest hscopes =>
      cases h
      exact .unlocks hphase hscopes
  next key fd hphase =>
    cases h
    exact .closes hphase
  next key hphase =>
    obtain ⟨lock,hlock,rfl⟩ := Option.map_eq_some_iff.mp h
    exact .leaves hphase hlock
  next => exact nomatch h

end Steps

section Scopes
variable {Thread Key : Type}

/-- The keys that a thread holds by a scope of its own. -/
def outerKeys : List (Scope Thread Key) → List Key
  | [] => []
  | ⟨_,.nested⟩::rest => outerKeys rest
  | ⟨key,.unlocked _⟩::rest => key::outerKeys rest
  | ⟨key,.locked _⟩::rest => key::outerKeys rest

/-- A nested scope is inside one that holds its key, and no other scope is. -/
def WellNested : List (Scope Thread Key) → Prop
  | [] => True
  | ⟨key,.nested⟩::rest => key∈outerKeys rest ∧ WellNested rest
  | ⟨key,.unlocked _⟩::rest => key∉outerKeys rest ∧ WellNested rest
  | ⟨key,.locked _⟩::rest => key∉outerKeys rest ∧ WellNested rest

/-- The key of a scope that has its file's lock is held. -/
theorem mem_outerKeys {scopes : List (Scope Thread Key)} {key : Key} {fd : Descriptor Thread}
    (h : ⟨key,.locked fd⟩∈scopes) : key∈outerKeys scopes := by
  induction scopes with
  | nil => exact nomatch h
  | cons scope rest ih =>
    rcases List.mem_cons.mp h with rfl | hmem
    · exact List.mem_cons_self
    · obtain ⟨key',grip⟩ := scope
      cases grip with
      | nested => exact ih hmem
      | _ => exact List.mem_cons_of_mem _ (ih hmem)

/-- The key of any scope is held. -/
theorem WellNested.outer {scopes : List (Scope Thread Key)} (h : WellNested scopes) {key : Key}
    {grip : Grip Thread} (hmem : ⟨key,grip⟩∈scopes) : key∈outerKeys scopes := by
  induction scopes with
  | nil => exact nomatch hmem
  | cons scope rest ih =>
    obtain ⟨key',grip'⟩ := scope
    cases grip' with
    | nested =>
      rcases List.mem_cons.mp hmem with heq | hmem
      · cases heq
        exact h.1
      · exact ih h.2 hmem
    | _ =>
      rcases List.mem_cons.mp hmem with heq | hmem
      · cases heq
        exact List.mem_cons_self
      · exact List.mem_cons_of_mem _ (ih h.2 hmem)

/-- A held key is held by a scope that is not nested. -/
theorem exists_outer {scopes : List (Scope Thread Key)} {key : Key} (h : key∈outerKeys scopes) :
    ∃ grip,⟨key,grip⟩∈scopes ∧ grip≠.nested := by
  induction scopes with
  | nil => exact nomatch h
  | cons scope rest ih =>
    obtain ⟨key',grip'⟩ := scope
    cases grip' with
    | nested =>
      obtain ⟨grip,hmem,hgrip⟩ := ih h
      exact ⟨grip,List.mem_cons_of_mem _ hmem,hgrip⟩
    | _ =>
      rcases List.mem_cons.mp h with rfl | hrest
      · exact ⟨_,List.mem_cons_self,by simp⟩
      · obtain ⟨grip,hmem,hgrip⟩ := ih hrest
        exact ⟨grip,List.mem_cons_of_mem _ hmem,hgrip⟩

/-- What the place of a thread says about the keys it holds. -/
def PhaseSound (t : Thread) (held : List Key) : Phase Thread Key → Prop
  | .opening key => key∉held
  | .locking key fd => key∉held ∧ fd.thread=t
  | .closing key fd => key∉held ∧ fd.thread=t
  | _ => True

/-- The invariant of a thread whose locks are granted. -/
structure Sound (t : Thread) (thread : LockThread Thread Key) : Prop where
  /-- Its blocks are well nested. -/
  nested : WellNested thread.scopes
  /-- It remembers the keys of the outer ones. -/
  held : thread.held=outerKeys thread.scopes
  /-- A lock it has is by a descriptor of its own. -/
  mine : ∀ key grip,⟨key,grip⟩∈thread.scopes → grip=.nested ∨ ∃ fd : Descriptor Thread,fd.thread=t ∧ grip=.locked fd
  /-- Its place in `acquire` fits. -/
  phase : PhaseSound t thread.held thread.phase

/-- A thread is in a scope of the key. -/
def LockThread.Inside (thread : LockThread Thread Key) (key : Key) : Prop := ∃ grip,⟨key,grip⟩∈thread.scopes

/-- A thread that is in a scope of a key has the lock of its file. -/
theorem Sound.locked {t : Thread} {thread : LockThread Thread Key} (h : Sound t thread) {key : Key}
    (hinside : thread.Inside key) : ∃ fd : Descriptor Thread,fd.thread=t ∧ ⟨key,.locked fd⟩∈thread.scopes := by
  obtain ⟨grip,hmem⟩ := hinside
  obtain ⟨grip',hmem',hgrip⟩ := exists_outer (h.nested.outer hmem)
  rcases h.mine key grip' hmem' with rfl | ⟨fd,hfd,rfl⟩
  · exact absurd rfl hgrip
  · exact ⟨fd,hfd,hmem'⟩

end Scopes

section Invariant
variable {Thread Process Key Path : Type}
variable [DecidableEq Thread] [DecidableEq Process] [DecidableEq Key] [DecidableEq Path]
variable {layout : Layout Thread Process Key Path} {s s' : Locks Thread Process Key Path} {t : Thread}

/-- A thread that has moved is sound, and the others are what they were. -/
theorem Moved.sound (hmoved : Moved layout s t s') (h : ∀ u,Sound u (s.threads u)) (u : Thread) :
    Sound u (s'.threads u) := by
  have hput : ∀ thread,Sound t thread → Sound u (Function.update s.threads t thread u) := by
    intro thread hthread
    by_cases hu : u=t
    · subst hu
      rwa [Function.update_self]
    · rw [Function.update_of_ne hu]
      exact h u
  have ht := h t
  cases hmoved with
  | begins key _ => exact hput _ ⟨ht.nested,ht.held,ht.mine,trivial⟩
  | @reenters key _ _ _ hheld =>
    refine hput _ ⟨⟨ht.held ▸ hheld,ht.nested⟩,ht.held,fun key' grip hmem => ?_,trivial⟩
    rcases List.mem_cons.mp hmem with heq | hmem
    · cases heq
      exact .inl rfl
    · exact ht.mine key' grip hmem
  | enters _ _ hheld => exact hput _ ⟨ht.nested,ht.held,ht.mine,hheld⟩
  | opens hphase =>
    have hheld := ht.phase
    rw [hphase] at hheld
    exact hput _ ⟨ht.nested,ht.held,ht.mine,hheld,rfl⟩
  | locks hphase _ =>
    have hheld := ht.phase
    rw [hphase] at hheld
    refine hput _ ⟨⟨ht.held ▸ hheld.1,ht.nested⟩,congrArg _ ht.held,fun key' grip hmem => ?_,trivial⟩
    rcases List.mem_cons.mp hmem with heq | hmem
    · cases heq
      exact .inr ⟨_,hheld.2,rfl⟩
    · exact ht.mine key' grip hmem
  | polls => exact h u
  | unnests _ hscopes =>
    have hnested := ht.nested
    have hheld := ht.held
    rw [hscopes] at hnested hheld
    refine hput _ ⟨hnested.2,hheld,fun key' grip hmem => ?_,trivial⟩
    exact ht.mine key' grip (hscopes ▸ List.mem_cons_of_mem _ hmem)
  | degraded hscopes =>
    rcases ht.mine _ _ (hscopes ▸ List.mem_cons_self) with hno | ⟨_,_,hno⟩
    · exact nomatch hno
    · exact nomatch hno
  | @unlocks key fd rest _ hscopes =>
    have hnested := ht.nested
    have hheld : (s.threads t).held=key::outerKeys rest := by rw [ht.held,hscopes]; rfl
    rw [hscopes] at hnested
    have herase : (s.threads t).held.erase key=outerKeys rest := by rw [hheld,List.erase_cons_head]
    refine hput _ ⟨hnested.2,herase,fun key' grip hmem => ?_,?_⟩
    · exact ht.mine key' grip (hscopes ▸ List.mem_cons_of_mem _ hmem)
    · rcases ht.mine _ _ (hscopes ▸ List.mem_cons_self) with hno | ⟨fd',hfd,heq⟩
      · exact nomatch hno
      · cases heq
        exact ⟨fun hmem => hnested.1 (herase ▸ hmem),hfd⟩
  | closes _ => exact hput _ ⟨ht.nested,ht.held,ht.mine,trivial⟩
  | leaves _ _ => exact hput _ ⟨ht.nested,ht.held,ht.mine,trivial⟩

/-- The lock of a key's file is held by the descriptors of the scopes that locked it. -/
def FilesMatch (layout : Layout Thread Process Key Path) (s : Locks Thread Process Key Path) : Prop :=
  ∀ key fd,s.files (layout.lockPath key)=some fd ↔ ⟨key,.locked fd⟩∈(s.threads fd.thread).scopes

omit [DecidableEq Thread] [DecidableEq Process] [DecidableEq Key] [DecidableEq Path] in
/-- A step that locks and unlocks no file and keeps the scopes keeps it. -/
theorem FilesMatch.congr (h : FilesMatch layout s) (hfiles : s'.files=s.files)
    (hscopes : ∀ u key fd,⟨key,.locked fd⟩∈(s'.threads u).scopes ↔ ⟨key,.locked fd⟩∈(s.threads u).scopes) :
    FilesMatch layout s' := by
  intro key fd
  rw [hfiles,hscopes]
  exact h key fd

omit [DecidableEq Key] in
/-- The scopes of a thread that has moved. -/
theorem scopes_update {threads : Thread → LockThread Thread Key} {thread : LockThread Thread Key} {scope : Scope Thread Key}
    (hsame : scope∈thread.scopes ↔ scope∈(threads t).scopes) (u : Thread) :
    scope∈(Function.update threads t thread u).scopes ↔ scope∈(threads u).scopes := by
  by_cases hu : u=t
  · subst hu
    rw [Function.update_self]
    exact hsame
  · rw [Function.update_of_ne hu]

/-- Every granted step keeps it. -/
theorem Moved.files (hpath : Function.Injective layout.lockPath) (hmoved : Moved layout s t s')
    (hsound : ∀ u,Sound u (s.threads u)) (h : FilesMatch layout s) : FilesMatch layout s' := by
  have ht := hsound t
  cases hmoved with
  | begins key _ => exact h.congr rfl fun u _ _ => scopes_update (by rfl) u
  | reenters _ _ _ => exact h.congr rfl fun u _ _ => scopes_update (by simp [LockThread.push]) u
  | enters _ _ _ => exact h.congr rfl fun u _ _ => scopes_update (by rfl) u
  | opens _ => exact h.congr rfl fun u _ _ => scopes_update (by rfl) u
  | @locks key fd hphase hfree =>
    have hheld := ht.phase
    rw [hphase] at hheld
    intro key' fd'
    dsimp only
    by_cases hkey : key'=key
    · subst hkey
      rw [Function.update_self]
      by_cases hthread : fd'.thread=t
      · rw [hthread,Function.update_self]
        constructor
        · rintro ⟨rfl⟩
          exact List.mem_cons_self
        · intro hmem
          rcases List.mem_cons.mp hmem with heq | hmem
          · cases heq
            rfl
          · exact absurd (ht.held ▸ mem_outerKeys hmem) hheld.1
      · rw [Function.update_of_ne hthread]
        constructor
        · rintro ⟨rfl⟩
          exact absurd hheld.2 hthread
        · intro hmem
          have hlocked := (h key' fd').mpr hmem
          rw [hfree] at hlocked
          exact nomatch hlocked
    · rw [Function.update_of_ne (fun heq => hkey (hpath heq)),h key' fd']
      exact (scopes_update (by simp [LockThread.push,hkey]) _).symm
  | polls => exact h
  | unnests _ hscopes => exact h.congr rfl fun u _ _ => scopes_update (by simp [hscopes]) u
  | degraded hscopes =>
    rcases ht.mine _ _ (hscopes ▸ List.mem_cons_self) with hno | ⟨_,_,hno⟩
    · exact nomatch hno
    · exact nomatch hno
  | @unlocks key fd rest hphase hscopes =>
    have hmem : ⟨key,.locked fd⟩∈(s.threads t).scopes := hscopes ▸ List.mem_cons_self
    have hthread : fd.thread=t := by
      rcases ht.mine _ _ hmem with hno | ⟨fd',hfd,heq⟩
      · exact nomatch hno
      · cases heq
        exact hfd
    have hfile : s.files (layout.lockPath key)=some fd := (h key fd).mpr (hthread ▸ hmem)
    have hnested := ht.nested
    rw [hscopes] at hnested
    intro key' fd'
    dsimp only
    rw [unlockFile,if_pos hfile]
    by_cases hkey : key'=key
    · subst hkey
      rw [Function.update_self]
      constructor
      · exact fun hno => (nomatch hno)
      · intro hmem'
        by_cases hthread' : fd'.thread=t
        · rw [hthread',Function.update_self] at hmem'
          exact absurd (mem_outerKeys hmem') hnested.1
        · rw [Function.update_of_ne hthread'] at hmem'
          have hfile' := (h key' fd').mpr hmem'
          rw [hfile] at hfile'
          cases hfile'
          exact absurd hthread hthread'
    · rw [Function.update_of_ne (fun heq => hkey (hpath heq)),h key' fd']
      exact (scopes_update (by simp [hscopes,hkey]) _).symm
  | @closes key fd hphase =>
    have hheld := ht.phase
    rw [hphase] at hheld
    have hfree : s.files (layout.lockPath key)≠some fd := by
      intro hfile
      have hmem := (h key fd).mp hfile
      rw [hheld.2] at hmem
      exact hheld.1 (ht.held ▸ mem_outerKeys hmem)
    exact h.congr (if_neg hfree) fun u _ _ => scopes_update (by rfl) u
  | leaves _ _ => exact h.congr rfl fun u _ _ => scopes_update (by rfl) u

/-- The key whose stripe a thread is in while it is in no scope of that entry. -/
def Phase.taken : Phase Thread Key → Option Key
  | .idle => none
  | .entering _ => none
  | .opening key => some key
  | .locking key _ => some key
  | .closing key _ => some key
  | .leaving key => some key

/-- How often a thread has entered a stripe and not left it. -/
def LockThread.entries (stripe : Key → Fin 64) (thread : LockThread Thread Key) (σ : Fin 64) : ℕ :=
  thread.scopes.countP (fun scope => stripe scope.key=σ)+
    if thread.phase.taken.any (fun key => stripe key=σ)=true then 1 else 0

/-- How often a stripe is held by a thread. -/
def depth (lock : Option (Thread × ℕ)) (t : Thread) : ℕ :=
  match lock with
  | none => 0
  | some (owner,count) => if owner=t then count else 0

omit [DecidableEq Process] [DecidableEq Key] [DecidableEq Path] in
/-- Acquiring a stripe once more. -/
theorem depth_acquireStripe {lock lock' : Option (Thread × ℕ)} (h : acquireStripe t lock=some lock') (u : Thread) :
    depth lock' u=depth lock u+if u=t then 1 else 0 := by
  cases lock with
  | none =>
    cases h
    simp [depth,eq_comm]
  | some entry =>
    obtain ⟨owner,count⟩ := entry
    unfold acquireStripe at h
    dsimp only at h
    split at h
    next howner =>
      cases h
      subst howner
      by_cases hu : u=owner
      · subst hu
        simp [depth]
      · simp [depth,hu,Ne.symm hu]
    next => exact nomatch h

omit [DecidableEq Process] [DecidableEq Key] [DecidableEq Path] in
/-- Releasing it once. -/
theorem depth_releaseStripe {lock lock' : Option (Thread × ℕ)} (h : releaseStripe t lock=some lock')
    (hheld : 0 < depth lock t) (u : Thread) : depth lock' u+(if u=t then 1 else 0)=depth lock u := by
  cases lock with
  | none => exact nomatch h
  | some entry =>
    obtain ⟨owner,count⟩ := entry
    unfold releaseStripe at h
    dsimp only at h
    split at h
    next howner =>
      cases h
      subst howner
      have hcount : 0 < count := by simpa [depth] using hheld
      by_cases hu : u=owner
      · subst hu
        by_cases hone : count ≤ 1
        · simp only [if_pos hone,depth,if_true]
          omega
        · simp only [if_neg hone,depth,if_true]
          omega
      · have hne : owner≠u := Ne.symm hu
        by_cases hone : count ≤ 1
        · simp only [if_pos hone,depth,if_neg hne,if_neg hu]
        · simp only [if_neg hone,depth,if_neg hne,if_neg hu]
    next => exact nomatch h

/-- Every stripe is held as often as its owner has entered it, and by nobody else. -/
def StripesMatch (layout : Layout Thread Process Key Path) (s : Locks Thread Process Key Path) : Prop :=
  ∀ u σ,(s.threads u).entries (layout.stripe (layout.process u)) σ=depth (s.stripes (layout.process u) σ) u

omit [DecidableEq Process] [DecidableEq Key] [DecidableEq Path] in
/-- A step that enters and leaves no stripe. -/
theorem StripesMatch.congr (h : StripesMatch layout s) {thread : LockThread Thread Key}
    (hstripes : s'.stripes=s.stripes) (hthreads : s'.threads=Function.update s.threads t thread)
    (hentries : ∀ σ,thread.entries (layout.stripe (layout.process t)) σ=
      (s.threads t).entries (layout.stripe (layout.process t)) σ) : StripesMatch layout s' := by
  intro u σ
  rw [hstripes,hthreads]
  by_cases hu : u=t
  · subst hu
    rw [Function.update_self,hentries]
    exact h u σ
  · rw [Function.update_of_ne hu]
    exact h u σ

omit [DecidableEq Thread] [DecidableEq Key] [DecidableEq Path] in
/-- A stripe after its replacement. -/
theorem setStripe_apply (stripes : Process → Fin 64 → Option (Thread × ℕ)) (process process' : Process)
    (σ σ' : Fin 64) (lock : Option (Thread × ℕ)) : setStripe stripes process σ lock process' σ'=
      if process'=process ∧ σ'=σ then lock else stripes process' σ' := by
  unfold setStripe
  by_cases hprocess : process'=process
  · subst hprocess
    rw [Function.update_self]
    by_cases hσ : σ'=σ
    · subst hσ
      rw [Function.update_self,if_pos ⟨rfl,rfl⟩]
    · rw [Function.update_of_ne hσ,if_neg fun h => hσ h.2]
  · rw [Function.update_of_ne hprocess,if_neg fun h => hprocess h.1]

omit [DecidableEq Key] [DecidableEq Path] in
/-- A step that enters the stripe of a key. -/
theorem StripesMatch.enter (h : StripesMatch layout s) {key : Key} {lock : Option (Thread × ℕ)}
    {thread : LockThread Thread Key}
    (hlock : acquireStripe t (s.stripes (layout.process t) (layout.stripe (layout.process t) key))=some lock)
    (hentries : ∀ σ,thread.entries (layout.stripe (layout.process t)) σ=
      (s.threads t).entries (layout.stripe (layout.process t)) σ+
        if layout.stripe (layout.process t) key=σ then 1 else 0)
    (hstripes : s'.stripes=setStripe s.stripes (layout.process t) (layout.stripe (layout.process t) key) lock)
    (hthreads : s'.threads=Function.update s.threads t thread) : StripesMatch layout s' := by
  intro u σ
  have hdepth := depth_acquireStripe hlock u
  have hu' := h u σ
  rw [hstripes,hthreads,setStripe_apply]
  by_cases hu : u=t
  · subst hu
    rw [Function.update_self,hentries]
    by_cases hσ : σ=layout.stripe (layout.process u) key
    · subst hσ
      rw [if_pos rfl] at hdepth
      rw [if_pos rfl,if_pos ⟨rfl,rfl⟩,hdepth,hu']
    · rw [if_neg (Ne.symm hσ),if_neg fun hboth => hσ hboth.2,Nat.add_zero]
      exact hu'
  · rw [Function.update_of_ne hu]
    by_cases hboth : layout.process u=layout.process t ∧ σ=layout.stripe (layout.process t) key
    · rw [if_pos hboth,hdepth,if_neg hu,Nat.add_zero,hu',hboth.1,hboth.2]
    · rw [if_neg hboth]
      exact hu'

omit [DecidableEq Key] [DecidableEq Path] in
/-- A step that leaves the stripe of a key. -/
theorem StripesMatch.leave (h : StripesMatch layout s) {key : Key} {lock : Option (Thread × ℕ)}
    {thread : LockThread Thread Key}
    (hlock : releaseStripe t (s.stripes (layout.process t) (layout.stripe (layout.process t) key))=some lock)
    (hentries : ∀ σ,(s.threads t).entries (layout.stripe (layout.process t)) σ=
      thread.entries (layout.stripe (layout.process t)) σ+
        if layout.stripe (layout.process t) key=σ then 1 else 0)
    (hstripes : s'.stripes=setStripe s.stripes (layout.process t) (layout.stripe (layout.process t) key) lock)
    (hthreads : s'.threads=Function.update s.threads t thread) : StripesMatch layout s' := by
  intro u σ
  have hheld : 0 < depth (s.stripes (layout.process t) (layout.stripe (layout.process t) key)) t := by
    have hin := h t (layout.stripe (layout.process t) key)
    rw [hentries,if_pos rfl] at hin
    omega
  have hdepth := depth_releaseStripe hlock hheld u
  have hu' := h u σ
  rw [hstripes,hthreads,setStripe_apply]
  by_cases hu : u=t
  · subst hu
    rw [Function.update_self]
    have hbefore := hentries σ
    by_cases hσ : σ=layout.stripe (layout.process u) key
    · subst hσ
      rw [if_pos rfl] at hbefore hdepth
      rw [if_pos ⟨rfl,rfl⟩]
      omega
    · rw [if_neg (Ne.symm hσ)] at hbefore
      rw [if_neg fun hboth => hσ hboth.2]
      omega
  · rw [Function.update_of_ne hu]
    rw [if_neg hu,Nat.add_zero] at hdepth
    by_cases hboth : layout.process u=layout.process t ∧ σ=layout.stripe (layout.process t) key
    · rw [if_pos hboth,hdepth,hu',hboth.1,hboth.2]
    · rw [if_neg hboth]
      exact hu'

/-- Every granted step keeps them so. -/
theorem Moved.stripes (hmoved : Moved layout s t s') (hsound : ∀ u,Sound u (s.threads u))
    (h : StripesMatch layout s) : StripesMatch layout s' := by
  cases hmoved with
  | begins key hphase => exact h.congr rfl rfl fun σ => by simp [LockThread.entries,hphase,Phase.taken]
  | reenters hphase hlock _ =>
    refine h.enter hlock (fun σ => ?_) rfl rfl
    simp [LockThread.entries,LockThread.push,hphase,Phase.taken,List.countP_cons]
  | enters hphase hlock _ =>
    refine h.enter hlock (fun σ => ?_) rfl rfl
    simp [LockThread.entries,hphase,Phase.taken]
  | opens hphase => exact h.congr rfl rfl fun σ => by simp [LockThread.entries,hphase,Phase.taken]
  | locks hphase _ =>
    refine h.congr rfl rfl fun σ => ?_
    simp [LockThread.entries,LockThread.push,hphase,Phase.taken,List.countP_cons]
  | polls => exact h
  | unnests hphase hscopes =>
    refine h.congr rfl rfl fun σ => ?_
    simp [LockThread.entries,hphase,hscopes,Phase.taken,List.countP_cons]
  | degraded hscopes =>
    rcases (hsound t).mine _ _ (hscopes ▸ List.mem_cons_self) with hno | ⟨_,_,hno⟩
    · exact nomatch hno
    · exact nomatch hno
  | unlocks hphase hscopes =>
    refine h.congr rfl rfl fun σ => ?_
    simp [LockThread.entries,hphase,hscopes,Phase.taken,List.countP_cons]
  | closes hphase => exact h.congr rfl rfl fun σ => by simp [LockThread.entries,hphase,Phase.taken]
  | leaves hphase hlock =>
    refine h.leave hlock (fun σ => ?_) rfl rfl
    simp [LockThread.entries,hphase,Phase.taken]

variable (layout) in
/-- The invariant of all states. -/
structure Consistent (s : Locks Thread Process Key Path) : Prop where
  /-- Every thread is sound. -/
  sound : ∀ u,Sound u (s.threads u)
  /-- The locked files are those that blocks hold. -/
  files : FilesMatch layout s
  /-- So are the stripes. -/
  stripes : StripesMatch layout s

/-- Every state that is reached is consistent. -/
theorem Reached.consistent (hpath : Function.Injective layout.lockPath) (h : Reached layout s) :
    Consistent layout s := by
  induction h with
  | refl =>
    refine ⟨fun u => ⟨trivial,rfl,fun _ _ hmem => (nomatch hmem),trivial⟩,fun key fd => ?_,fun u σ => rfl⟩
    exact ⟨fun hno => (nomatch hno),fun hno => (nomatch hno)⟩
  | tail _ hstep ih =>
    obtain ⟨t,a,hgranted,hstep⟩ := hstep
    have hmoved := Moved.of_step hgranted hstep
    exact ⟨hmoved.sound ih.sound,hmoved.files hpath ih.sound ih.files,hmoved.stripes ih.sound ih.stripes⟩

variable (layout) in
/-- A thread waits for what another, or it itself, holds: a stripe that it may not enter
or the lock of a file. -/
def WaitsOn (s : Locks Thread Process Key Path) (t u : Thread) : Prop :=
  (∃ key,(s.threads t).phase=.entering key ∧
    acquireStripe t (s.stripes (layout.process t) (layout.stripe (layout.process t) key))=none ∧
    0 < depth (s.stripes (layout.process t) (layout.stripe (layout.process t) key)) u) ∨
  ∃ key fd fd',(s.threads t).phase=.locking key fd ∧ s.files (layout.lockPath key)=some fd' ∧ fd'.thread=u

variable (layout) in
/-- Re-entrant mutual exclusion by key. -/
structure Exclusion (s : Locks Thread Process Key Path) : Prop where
  /-- At most one thread is in the scope of a key. -/
  exclusive : Exclusive fun t key => (s.threads t).Inside key
  /-- No thread waits for itself. -/
  waits : ∀ t,¬WaitsOn layout s t t
  /-- A thread in the scope of a key enters it again in two steps of its own. -/
  again : ∀ t key,(s.threads t).phase=.idle → (s.threads t).Inside key →
    ∃ s',(s.step layout t (.begins key)).bind (fun s₁ => s₁.step layout t .enters)=some s' ∧ s'.files=s.files ∧
      (s'.threads t).scopes=⟨key,.nested⟩::(s.threads t).scopes
  /-- A thread has the lock of a key's file exactly while it is in a scope of the key, the
  outermost of which ends last. -/
  file : ∀ t key,(∃ fd,s.files (layout.lockPath key)=some fd ∧ fd.thread=t) ↔ (s.threads t).Inside key

omit [DecidableEq Process] [DecidableEq Key] [DecidableEq Path] in
/-- A thread in a scope of a key is in the key's stripe. -/
theorem Consistent.stripe (h : Consistent layout s) {key : Key} (hinside : (s.threads t).Inside key) :
    0 < depth (s.stripes (layout.process t) (layout.stripe (layout.process t) key)) t := by
  obtain ⟨grip,hmem⟩ := hinside
  rw [← h.stripes t (layout.stripe (layout.process t) key)]
  refine Nat.lt_of_lt_of_le (List.countP_pos_iff.mpr ⟨_,hmem,?_⟩) (Nat.le_add_right _ _)
  exact decide_eq_true rfl

omit [DecidableEq Process] [DecidableEq Key] [DecidableEq Path] in
/-- The owner of a stripe acquires it again. -/
theorem acquireStripe_again {lock : Option (Thread × ℕ)} (h : 0 < depth lock t) :
    ∃ lock',acquireStripe t lock=some lock' := by
  cases lock with
  | none => exact ⟨_,rfl⟩
  | some entry =>
    obtain ⟨owner,count⟩ := entry
    by_cases howner : owner=t
    · exact ⟨_,if_pos howner⟩
    · rw [depth,if_neg howner] at h
      exact absurd h (Nat.lt_irrefl 0)

omit [DecidableEq Process] [DecidableEq Key] [DecidableEq Path] in
/-- The lock of a key's file and the scopes of the key. -/
theorem Consistent.file_iff (h : Consistent layout s) (t : Thread) (key : Key) :
    (∃ fd,s.files (layout.lockPath key)=some fd ∧ fd.thread=t) ↔ (s.threads t).Inside key := by
  constructor
  · rintro ⟨fd,hfile,rfl⟩
    exact ⟨_,(h.files key fd).mp hfile⟩
  · intro hinside
    obtain ⟨fd,rfl,hmem⟩ := (h.sound t).locked hinside
    exact ⟨fd,(h.files key fd).mpr hmem,rfl⟩

/-- In every state that any number of threads of any number of processes reach, while every
lock file opens and no wait times out, the key lock is a re-entrant mutual exclusion. -/
theorem key_lock_excludes (hpath : Function.Injective layout.lockPath) (h : Reached layout s) :
    Exclusion layout s := by
  have hs := h.consistent hpath
  refine ⟨fun t u key ht hu => ?_,fun t hwaits => ?_,fun t key hidle hinside => ?_,hs.file_iff⟩
  · obtain ⟨fd,hfile,rfl⟩ := (hs.file_iff t key).mpr ht
    obtain ⟨fd',hfile',rfl⟩ := (hs.file_iff u key).mpr hu
    rw [hfile] at hfile'
    cases hfile'
    rfl
  · rcases hwaits with ⟨key,_,hrefused,hheld⟩ | ⟨key,fd,fd',hphase,hfile,hown⟩
    · obtain ⟨lock,hlock⟩ := acquireStripe_again hheld
      rw [hrefused] at hlock
      exact nomatch hlock
    · have hplace := (hs.sound t).phase
      rw [hphase] at hplace
      have hmem := (hs.files key fd').mp hfile
      rw [hown] at hmem
      exact hplace.1 ((hs.sound t).held ▸ mem_outerKeys hmem)
  · obtain ⟨lock,hlock⟩ := acquireStripe_again (hs.stripe hinside)
    obtain ⟨grip,hmem⟩ := hinside
    have hheld : key∈(s.threads t).held := (hs.sound t).held ▸ (hs.sound t).nested.outer hmem
    have hbegins : s.step layout t (.begins key)=some { s with
        threads := Function.update s.threads t { s.threads t with phase := .entering key } } := by
      simp only [Locks.step,hidle]
    rw [hbegins,Option.bind_some]
    simp only [Locks.step,Function.update_self]
    rw [hlock,Option.map_some,if_pos hheld]
    refine ⟨_,rfl,rfl,?_⟩
    dsimp only
    rw [Function.update_self]
    rfl

/-- Take steps one after another. -/
def runLocks (layout : Layout Thread Process Key Path) :
    List (Thread × LockStep Key) → Locks Thread Process Key Path → Option (Locks Thread Process Key Path)
  | [],s => some s
  | (t,a)::rest,s => (s.step layout t a).bind (runLocks layout rest)

/-- Granted steps lead to a state that is reached. -/
theorem reached_of_run {steps : List (Thread × LockStep Key)} (hgranted : ∀ step ∈ steps,granted step.2=true)
    (hs : Reached layout s) (h : runLocks layout steps s=some s') : Reached layout s' := by
  induction steps generalizing s with
  | nil =>
    cases h
    exact hs
  | cons step rest ih =>
    obtain ⟨t,a⟩ := step
    obtain ⟨s₁,hstep,hrest⟩ := Option.bind_eq_some_iff.mp h
    exact ih (fun b hb => hgranted b (List.mem_cons_of_mem _ hb))
      (hs.tail ⟨t,a,hgranted _ List.mem_cons_self,hstep⟩) hrest

end Invariant

/-- There are stripes. -/
local instance someStripes : NeZero 64 := ⟨by decide⟩

/-- Threads of two processes, whose keys are their own stripes and files. -/
def twoProcesses : Layout ℕ ℕ ℕ ℕ where
  process t := t%2
  stripe _ key := Fin.ofNat 64 key
  lockPath key := key

/-- Thread 0 enters key 1, key 65 on the same stripe and key 1 again, and leaves the last
two; thread 1 polls for the file of key 1. -/
def nestedSteps : List (ℕ × LockStep ℕ) :=
  [(0,.begins 1),(0,.enters),(0,.opens),(0,.tries),(0,.begins 65),(0,.enters),(0,.opens),(0,.tries),(0,.begins 1),
    (0,.enters),(1,.begins 1),(1,.enters),(1,.opens),(1,.tries),(0,.exits),(0,.leaves),(0,.exits),(0,.closes),
    (0,.leaves),(1,.tries)]

/-- Thread 0 is still in the outermost scope, and thread 1 waits. -/
theorem key_lock_excludes_nested : ∃ s,(s.threads 0).scopes=[⟨1,.locked ⟨0,0⟩⟩] ∧
    (s.threads 1).phase=.locking 1 ⟨1,2⟩ ∧ Exclusion twoProcesses s := by
  have hrun : (runLocks twoProcesses nestedSteps {}).map (fun s => ((s.threads 0).scopes,(s.threads 1).phase))=
      some ([⟨1,.locked ⟨0,0⟩⟩],.locking 1 ⟨1,2⟩) := by decide +kernel
  obtain ⟨s,hs,heq⟩ := Option.map_eq_some_iff.mp hrun
  obtain ⟨hscopes,hphase⟩ := Prod.mk.inj heq
  exact ⟨s,hscopes,hphase,key_lock_excludes (fun _ _ h => h) (reached_of_run (by decide) .refl hs)⟩

end GenericMlCache.KeyLocks
