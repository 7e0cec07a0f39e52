import GenericMlCache.CallAutomaton
import GenericMlCache.JsonText
import Mathlib.Data.List.Nodup

/-!
# Opening a store

`run_migrations` as a program over the calls that a process makes: the store
lock, the statements on its connection, the migration files. Each file and its
version bump are one transaction, but seeding the version, reading it and the
files' transactions are separate, and a process may stop between any two calls.
-/

namespace GenericMlCache.SchemaMigration

open CallProgram CallAutomaton PythonText JsonText

/-- What the calls raise. -/
inductive MigrationExc where
  /-- What the database driver raises. -/
  | operationalError
  | osError
  /-- Not an `Exception`. -/
  | keyboardInterrupt
  | storeLocked (message : PyStr)
  | migrationFailed (message : PyStr)
  | storeCorrupt (message : PyStr)
  | storeSchemaTooNew (message : PyStr)
deriving DecidableEq

/-- Whether `except Exception` catches it. -/
def MigrationExc.isException : MigrationExc → Bool
  | .keyboardInterrupt => false
  | _ => true

/-- Whether `except OSError` catches it. -/
def MigrationExc.isOSError : MigrationExc → Bool
  | .osError => true
  | _ => false

/-- The calls of a process on the store lock, on its connection and on the
migration files, and the system's. -/
inductive MigrationCall (ι : Type) where
  /-- Make the store's directory and open its lock file. -/
  | openLock
  | lock
  | unlock
  /-- Close the lock file, which gives back a lock that is held. -/
  | closeLock
  | connect
  | foreignKeysOff
  | createTable
  | selectVersions
  | userVersion
  | insertVersion (version : ℤ)
  | commit
  | selectVersion
  | migrationFile (target : ℤ)
  | readFile (target : ℤ)
  /-- The `BEGIN` of a migration script. -/
  | beginScript
  /-- The statements of a migration file. -/
  | runFile (target : ℤ)
  | updateVersion (target : ℤ)
  | rollback
  | close
  /-- The process dies. -/
  | kill (i : ι)

variable {ι : Type}

/-- What each call answers. -/
abbrev MigrationCall.Ret : MigrationCall ι → Type
  | .selectVersions => List ℤ
  | .userVersion => ℤ
  | .selectVersion => Option ℤ
  | _ => Unit

/-- Programs over these calls. -/
abbrev MigrationM (ι α : Type) := Prog (MigrationCall ι) MigrationCall.Ret MigrationExc α

/-- Make one call. -/
abbrev migration (call : MigrationCall ι) : MigrationM ι call.Ret := perform call

/-- `acquire_exclusive_blocking`. -/
def acquireExclusiveBlocking {α : Type} (body : MigrationM ι α) : MigrationM ι α := do
  migration .openLock
  match ← attempt (migration .lock) with
  | .error e =>
    if e.isOSError=true then
      migration .closeLock
      raise (.storeLocked (pyStr "the store is locked by another operation (a migration may be in progress)"))
    else raise e
  | .ok _ => ensure body (do migration .unlock; migration .closeLock)

/-- The legacy version, read once to seed the row. -/
def priorVersion : MigrationM ι ℤ := do
  match ← attempt (migration .userVersion) with
  | .ok version => return version
  | .error e => if e.isException=true then return 0 else raise e

/-- `_bootstrap_version`. -/
def bootstrapVersion : MigrationM ι ℤ := do
  migration .createTable
  match ← migration .selectVersions with
  | [version] => return version
  | [] =>
    let prior ← priorVersion
    migration (.insertVersion prior)
    migration .commit
    let row ← migration .selectVersion
    return row.getD prior
  | rows => raise (.storeCorrupt (pyStr "schema_version holds " ++ intText rows.length ++
      pyStr " rows; expected exactly one — the store is corrupt (a pre-singleton concurrent first-init may have double-seeded it); reset the store to recover"))

/-- `executescript` of a migration file and its version bump. -/
def executeScript (target : ℤ) : MigrationM ι Unit := do
  migration .beginScript
  migration (.runFile target)
  migration (.updateVersion target)
  migration .commit

/-- `_apply_migration`. -/
def applyMigration (target : ℤ) : MigrationM ι Unit := do
  migration (.migrationFile target)
  migration (.readFile target)
  match ← attempt (executeScript target) with
  | .ok _ => return ()
  | .error e =>
    if e.isException=true then
      migration .rollback
      raise (.migrationFailed (pyStr "schema migration to version " ++ intText target ++ pyStr " failed and was rolled back"))
    else raise e

/-- The loop over the versions behind `version`, as many as there are up to the current one. -/
def applyMigrations (version : ℤ) : ℕ → MigrationM ι Unit
  | 0 => return ()
  | count+1 => do
    applyMigration (version+1)
    applyMigrations (version+1) count

/-- `_run_migrations_locked`. -/
def runMigrationsLocked (current : ℤ) : MigrationM ι Unit := do
  migration .connect
  ensure (do
    migration .foreignKeysOff
    let version ← bootstrapVersion
    if current < version then
      raise (.storeSchemaTooNew (pyStr "store schema version " ++ intText version ++
        pyStr " is newer than this build supports (this build ships migrations up to version " ++ intText current ++
        pyStr "); upgrade gmlcache to open this store"))
    else if version=current then return ()
    else applyMigrations version (current-version).toNat)
    (migration .close)

/-- `run_migrations` with a store root. -/
def runMigrations (current : ℤ) : MigrationM ι Unit :=
  acquireExclusiveBlocking (runMigrationsLocked current)

/-- The processes that die, one after the other. -/
def killEach : List ι → MigrationM ι Unit
  | [] => return ()
  | i::rest => do
    migration (.kill i)
    killEach rest

/-- What the database file holds. -/
structure Database (Schema : Type) where
  /-- What an older runner recorded the version in. -/
  userVersion : ℤ
  /-- The rows of `schema_version`, where there is such a table. -/
  rows : Option (List ℤ)
  /-- Everything else. -/
  schema : Schema
deriving DecidableEq

/-- The version that a store is at: the recorded one, or else the legacy one. -/
def Database.version {Schema : Type} (db : Database Schema) : ℤ :=
  match db.rows with
  | some (version::_) => version
  | _ => db.userVersion

/-- What a build ships: the version it ends at, and the migration files by their
number. A file's statements succeed on a schema, or fail. -/
structure Shipped (Schema : Type) where
  /-- The version it ends at. -/
  current : ℤ
  /-- What the file of each number makes of a schema; none where it fails. -/
  file : ℤ → Option (Schema → Option Schema)

/-- An open transaction: the database as it sees it, and the files run in it. -/
structure Transaction (Schema : Type) where
  /-- The database as it sees it. -/
  db : Database Schema
  /-- The files run in it. -/
  files : List ℤ

/-- What the processes share, and each one's open transaction. -/
structure World (ι Schema : Type) where
  /-- The database as it was last committed. -/
  db : Database Schema
  /-- The files that were committed, each with the version that the store was at. -/
  committed : List (ℤ × ℤ)
  /-- Who has the store lock. -/
  holder : Option ι
  /-- Each process's open transaction. -/
  transaction : ι → Option (Transaction Schema)
  /-- The processes that were killed. -/
  dead : List ι

section Worlds
variable [DecidableEq ι] {Schema : Type}

/-- A store before anyone opens it. -/
def World.start (db : Database Schema) : World ι Schema := ⟨db,[],none,fun _ => none,[]⟩

/-- The database as a process sees it. -/
def World.view (w : World ι Schema) (i : ι) : Database Schema :=
  match w.transaction i with
  | some t => t.db
  | none => w.db

/-- What a process's open transaction becomes. -/
def World.run (w : World ι Schema) (i : ι) (t : Transaction Schema) : World ι Schema :=
  { w with transaction := Function.update w.transaction i (some t) }

/-- A statement. Outside a transaction it is committed at once. -/
def World.edit (w : World ι Schema) (i : ι) (f : Database Schema → Database Schema) : World ι Schema :=
  match w.transaction i with
  | some t => w.run i { t with db := f t.db }
  | none => { w with db := f w.db }

/-- A statement that opens a transaction where there is none. -/
def World.editWithin (w : World ι Schema) (i : ι) (f : Database Schema → Database Schema) : World ι Schema :=
  match w.transaction i with
  | some t => w.run i { t with db := f t.db }
  | none => w.run i ⟨f w.db,[]⟩

/-- The end of a transaction, where there is one. -/
def World.commit (w : World ι Schema) (i : ι) : World ι Schema :=
  match w.transaction i with
  | some t => { w with
      db := t.db
      committed := w.committed ++ t.files.map fun k => (k,w.db.version)
      transaction := Function.update w.transaction i none }
  | none => w

/-- A transaction is undone. -/
def World.discard (w : World ι Schema) (i : ι) : World ι Schema :=
  { w with transaction := Function.update w.transaction i none }

/-- The lock is given back. -/
def World.unlock (w : World ι Schema) (i : ι) : World ι Schema :=
  { w with holder := if w.holder=some i then none else w.holder }

/-- `CREATE TABLE IF NOT EXISTS schema_version`. -/
def Database.createTable (db : Database Schema) : Database Schema := { db with rows := some (db.rows.getD []) }

/-- `INSERT OR IGNORE` of the single row. -/
def Database.insertVersion (db : Database Schema) (version : ℤ) : Database Schema :=
  { db with rows := db.rows.map fun rows => if rows=[] then [version] else rows }

/-- `UPDATE schema_version`. -/
def Database.updateVersion (db : Database Schema) (version : ℤ) : Database Schema :=
  { db with rows := db.rows.map fun rows => rows.map fun _ => version }

variable (shipped : Shipped Schema)

/-- What each call of a live process may answer, and what it leaves. Any call may fail. -/
inductive ProcessAnswers (i : ι) : Sem (MigrationCall ι) MigrationCall.Ret MigrationExc (World ι Schema) where
  | fault {w : World ι Schema} {call : MigrationCall ι} (e : MigrationExc) (halive : i∉w.dead) :
      ProcessAnswers i call w (.error e) w
  | openLock {w : World ι Schema} (halive : i∉w.dead) : ProcessAnswers i .openLock w (.ok ()) w
  /-- The lock is waited for. -/
  | lock {w : World ι Schema} (halive : i∉w.dead) (hfree : w.holder=none) :
      ProcessAnswers i .lock w (.ok ()) { w with holder := some i }
  | unlock {w : World ι Schema} (halive : i∉w.dead) : ProcessAnswers i .unlock w (.ok ()) (w.unlock i)
  | closeLock {w : World ι Schema} (halive : i∉w.dead) : ProcessAnswers i .closeLock w (.ok ()) (w.unlock i)
  | connect {w : World ι Schema} (halive : i∉w.dead) : ProcessAnswers i .connect w (.ok ()) w
  | foreignKeysOff {w : World ι Schema} (halive : i∉w.dead) : ProcessAnswers i .foreignKeysOff w (.ok ()) w
  | createTable {w : World ι Schema} (halive : i∉w.dead) :
      ProcessAnswers i .createTable w (.ok ()) (w.edit i Database.createTable)
  | selectVersions {w : World ι Schema} {rows : List ℤ} (halive : i∉w.dead) (h : (w.view i).rows=some rows) :
      ProcessAnswers i .selectVersions w (.ok rows) w
  | userVersion {w : World ι Schema} (halive : i∉w.dead) :
      ProcessAnswers i .userVersion w (.ok (w.view i).userVersion) w
  | insertVersion {w : World ι Schema} {version : ℤ} (halive : i∉w.dead) :
      ProcessAnswers i (.insertVersion version) w (.ok ()) (w.editWithin i fun db => db.insertVersion version)
  | commit {w : World ι Schema} (halive : i∉w.dead) : ProcessAnswers i .commit w (.ok ()) (w.commit i)
  | selectVersion {w : World ι Schema} (halive : i∉w.dead) :
      ProcessAnswers i .selectVersion w (.ok ((w.view i).rows.bind List.head?)) w
  | migrationFile {w : World ι Schema} {target : ℤ} (halive : i∉w.dead) (h : (shipped.file target).isSome=true) :
      ProcessAnswers i (.migrationFile target) w (.ok ()) w
  | noMigrationFile {w : World ι Schema} {target : ℤ} (halive : i∉w.dead) (h : shipped.file target=none) :
      ProcessAnswers i (.migrationFile target) w
        (.error (.migrationFailed (pyStr "no migration file found for version " ++ intText target))) w
  | readFile {w : World ι Schema} {target : ℤ} (halive : i∉w.dead) : ProcessAnswers i (.readFile target) w (.ok ()) w
  /-- A script commits what is open, and opens its own transaction. -/
  | beginScript {w : World ι Schema} (halive : i∉w.dead) :
      ProcessAnswers i .beginScript w (.ok ()) ((w.commit i).editWithin i id)
  | runFile {w : World ι Schema} {target : ℤ} {t : Transaction Schema} {f : Schema → Option Schema} {schema : Schema}
      (halive : i∉w.dead) (ht : w.transaction i=some t) (hf : shipped.file target=some f)
      (hschema : f t.db.schema=some schema) :
      ProcessAnswers i (.runFile target) w (.ok ())
        (w.run i ⟨{ t.db with schema := schema },t.files ++ [target]⟩)
  | updateVersion {w : World ι Schema} {target : ℤ} (halive : i∉w.dead) :
      ProcessAnswers i (.updateVersion target) w (.ok ()) (w.edit i fun db => db.updateVersion target)
  | rollback {w : World ι Schema} (halive : i∉w.dead) : ProcessAnswers i .rollback w (.ok ()) (w.discard i)
  | close {w : World ι Schema} (halive : i∉w.dead) : ProcessAnswers i .close w (.ok ()) (w.discard i)

/-- Who makes calls. -/
inductive Party (ι : Type) where
  | process (i : ι)
  | system
deriving DecidableEq

/-- What each party's calls may answer. What dies loses its transaction and the lock. -/
inductive MigrationAnswers : Party ι → Sem (MigrationCall ι) MigrationCall.Ret MigrationExc (World ι Schema) where
  | process {i : ι} {call : MigrationCall ι} {w w' : World ι Schema} {r : Except MigrationExc call.Ret}
      (h : ProcessAnswers shipped i call w r w') : MigrationAnswers (.process i) call w r w'
  | kill {i : ι} {w : World ι Schema} :
      MigrationAnswers .system (.kill i) w (.ok ()) { (w.discard i).unlock i with dead := i::w.dead }

/-- A read of the legacy version that fails where there is one, and is taken for version 0. -/
def misread (w : World ι Schema) : (call : MigrationCall ι) → Except MigrationExc call.Ret → Bool
  | .userVersion,.error e => e.isException && w.db.userVersion≠0
  | _,_ => false

/-- The steps that do not misread the legacy version. -/
def ReadableAnswers (party : Party ι) : Sem (MigrationCall ι) MigrationCall.Ret MigrationExc (World ι Schema) :=
  fun call w r w' => MigrationAnswers shipped party call w r w' ∧ misread w call r=false

/-- Any number of processes that open the store, and the system. A process that
is restarted is another one. -/
def openings (current : ℤ) (killed : List ι) : (party : Party ι) → MigrationM ι Unit
  | .process _ => runMigrations current
  | .system => killEach killed

end Worlds

end GenericMlCache.SchemaMigration
