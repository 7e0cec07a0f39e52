import GenericMlCache.CallAutomaton
import GenericMlCache.ExecutionModel

/-!
# Detached jobs

A detached job is a worker process with its own status file and liveness lock.
The worker holds the lock for its whole run. A reader reads the status first
and probes the lock then, so a status that still says running under a free lock
is reported as interrupted.
-/

namespace GenericMlCache.DetachedJobs

open CallProgram CallAutomaton PythonText ExecutionModel

/-- The stored lifecycle states. -/
inductive JobState where
  | submitted | running | succeeded | failed
deriving DecidableEq

/-- `state in TERMINAL`. -/
def JobState.isTerminal : JobState → Bool
  | .succeeded | .failed => true
  | _ => false

/-- What a reader reports. -/
inductive Reported where
  | stored (state : JobState)
  /-- No status could be read, or it has no state. -/
  | unknown
  /-- `INTERRUPTED`, which is never stored. -/
  | interrupted
deriving DecidableEq

/-- `status.json`, by what the program reads of it. -/
structure JobStatus where
  /-- Where the job says it stands. -/
  state : Option JobState := none
  /-- The key of its execution. -/
  executionKey : Option ExecutionKey := none
  /-- The exit code of its client. -/
  exitCode : Option ℤ := none
  /-- What went wrong. -/
  error : Option PyStr := none
deriving DecidableEq

/-- `derived_state`. -/
def derivedState (status : Option JobStatus) (lockHeld : Bool) : Reported :=
  match status with
  | none => .unknown
  | some status =>
    match status.state with
    | none => .unknown
    | some state => if state=.running ∧ lockHeld=false then .interrupted else .stored state

/-- `run_exit_code`. -/
def runExitCode (execution : MlExecution) : ℤ :=
  match execution.failure.bind (·.exitCode) with
  | some code => code
  | none => if execution.executionState=.success then 0 else 1

/-- What a call of a job's program may raise. -/
inductive JobExc where
  | osError | valueError
  /-- `sqlite3.OperationalError`. -/
  | operationalError
  /-- Any other `sqlite3.Error`. -/
  | databaseError
  /-- What the run raises. -/
  | raised (e : PyExc)
deriving DecidableEq

/-- Whether `except Exception` catches it. -/
def JobExc.isException : JobExc → Bool
  | .raised e => e.isException
  | _ => true

/-- Whether `except (OSError, ValueError)` catches it. -/
def JobExc.isUnreadable : JobExc → Bool
  | .osError | .valueError => true
  | _ => false

/-- Whether `except sqlite3.Error` catches it. -/
def JobExc.isSqlite : JobExc → Bool
  | .operationalError | .databaseError => true
  | _ => false

/-- `str(exc)`. -/
def JobExc.str : JobExc → PyStr
  | .raised e => e.str
  | _ => []

/-- The processes around one job. -/
inductive Party where
  | worker
  /-- The operating system, which may kill a process. -/
  | system
  | reader (n : ℕ)
deriving DecidableEq

/-- The calls on a job's files and lock. -/
inductive JobCall where
  | readSpec
  /-- Reading and parsing `status.json`. -/
  | readStatusFile
  /-- `_write_json` of `status.json`, which replaces it at once. -/
  | replaceStatus (status : JobStatus)
  | appendEvent
  /-- Wiring and running the job's command. -/
  | execute
  /-- `lock_path.exists()`. -/
  | lockExists
  | connect
  /-- The first part of `BEGIN EXCLUSIVE`: the lock that all who begin may share. -/
  | beginShared
  /-- The rest of it: the lock that nobody shares. -/
  | beginExclusive
  | rollback
  | close
  /-- A reader prints what it derived. -/
  | report (state : Reported)
  | kill (party : Party)

/-- What each call answers. -/
abbrev JobCall.Ret : JobCall → Type
  | .readStatusFile => JobStatus
  | .execute => MlExecution
  | .lockExists => Bool
  | _ => Unit

/-- Programs over the calls of a job. -/
abbrev JobM (α : Type) := Prog JobCall JobCall.Ret JobExc α

/-- Make one call. -/
abbrev job (call : JobCall) : JobM call.Ret := perform call

/-- `read_status`. -/
def readStatus : JobM (Option JobStatus) := do
  match ← attempt (job .readStatusFile) with
  | .ok status => return some status
  | .error e => if e.isUnreadable=true then return none else raise e

/-- `update_status`: merge fields into what is stored. -/
def updateStatus (fields : JobStatus → JobStatus) : JobM Unit := do
  let status ← readStatus
  job (.replaceStatus (fields (status.getD {})))

/-- `connection.execute("BEGIN EXCLUSIVE")`, which takes more than one step. -/
def executeBegin : JobM Unit := do
  job .beginShared
  job .beginExclusive

/-- `hold_job_lock`. -/
def holdJobLock {α : Type} (body : JobM α) : JobM α := do
  job .connect
  match ← attempt executeBegin with
  | .error e =>
    if e=.operationalError then
      job .close
      raise (.raised (.storeLocked (pyStr "job is already owned by a running worker")))
    else raise e
  | .ok _ => ensure body (ensure (job .rollback) (job .close))

/-- The probe itself: the lock is taken and given back, or is held. -/
def probe : JobM Bool := do
  match ← attempt (do executeBegin; job .rollback) with
  | .ok _ => return false
  | .error e => if e=.operationalError then return true else raise e

/-- `job_lock_held`. -/
def jobLockHeld : JobM Bool := do
  let exists' ← job .lockExists
  if exists'=true then
    match ← attempt (job .connect) with
    | .error e => if e.isSqlite=true then return false else raise e
    | .ok _ => ensure probe (job .close)
  else return false

/-- `_job_state`. -/
def jobState : JobM (Option JobStatus × Reported) := do
  let status ← readStatus
  let held ← jobLockHeld
  return (status,derivedState status held)

/-- The part of `cmd_worker` under the liveness lock. -/
def runJob : JobM ℕ := do
  updateStatus fun s => { s with state := some .running }
  job .appendEvent
  match ← attempt (job .execute) with
  | .error e =>
    if e.isException=true then
      updateStatus fun s => { s with state := some .failed, error := some e.str }
      job .appendEvent
      return 1
    else raise e
  | .ok execution =>
    updateStatus fun s => { s with
      state := some .succeeded
      executionKey := some execution.callIdentity.generateKey
      exitCode := some (runExitCode execution) }
    job .appendEvent
    return 0

/-- Whether `except StoreLocked` catches it. -/
def JobExc.isStoreLocked : JobExc → Bool
  | .raised (.storeLocked _) => true
  | _ => false

/-- `cmd_worker`. -/
def cmdWorker : JobM ℕ := do
  match ← attempt (job .readSpec) with
  | .error e => if e.isUnreadable=true then return 1 else raise e
  | .ok _ =>
    match ← attempt (holdJobLock runJob) with
    | .ok code => return code
    | .error e => if e.isStoreLocked=true then return 1 else raise e

/-- A reader of the job, by what it does with the state: `status`, `result`,
`list` and `materialize` look once, `watch` again until the job is over. -/
def readJob : ℕ → JobM Unit
  | 0 => return ()
  | rounds+1 => do
    let (_,state) ← jobState
    job (.report state)
    match state with
    | .stored .succeeded | .stored .failed | .interrupted => return ()
    | _ => readJob rounds

/-- The processes that the operating system kills. -/
def killAll : List Party → JobM Unit
  | [] => return ()
  | party::rest => do
    job (.kill party)
    killAll rest

/-- What the processes of a job share. -/
structure JobWorld where
  /-- `status.json`. -/
  status : Option JobStatus
  /-- The lock's file is there. -/
  lockFile : Bool
  /-- Who is in the exclusive transaction. -/
  lock : Option Party
  /-- Who is within a `BEGIN EXCLUSIVE`, or was refused and has not closed yet: the
  processes that share the lock. -/
  trying : List Party
  /-- The killed processes. -/
  dead : List Party
  /-- What readers printed. -/
  reports : List (Party × Reported)

/-- A job before its worker is spawned. -/
def JobWorld.submitted : JobWorld := ⟨some { state := some .submitted },false,none,[],[],[]⟩

/-- The lock when a process lets go of it. -/
def JobWorld.unlock (w : JobWorld) (party : Party) : JobWorld :=
  { w with lock := if w.lock=some party then none else w.lock, trying := w.trying.filter (·≠party) }

/-- Nobody is in the lock, and nobody else shares it. -/
def JobWorld.Alone (w : JobWorld) (party : Party) : Prop := w.lock=none ∧ ∀ other ∈ w.trying,other=party

instance (w : JobWorld) (party : Party) : Decidable (w.Alone party) := inferInstanceAs (Decidable (_ ∧ _))

/-- What each call of a live process may answer, and what it leaves. Files may
fail to be read or written, and a run may return and raise anything. -/
inductive JobAnswers (party : Party) : Sem JobCall JobCall.Ret JobExc JobWorld where
  | readSpec {w : JobWorld} (halive : party∉w.dead) : JobAnswers party .readSpec w (.ok ()) w
  /-- A file operation raises, without effect. -/
  | fileFault {w : JobWorld} {call : JobCall} {e : JobExc} (halive : party∉w.dead)
      (hcall : call=.readSpec ∨ call=.readStatusFile ∨ (∃ s,call=.replaceStatus s) ∨ call=.appendEvent)
      (he : e.isUnreadable=true) :
      JobAnswers party call w (.error e) w
  | readStatusFile {w : JobWorld} {status : JobStatus} (halive : party∉w.dead) (h : w.status=some status) :
      JobAnswers party .readStatusFile w (.ok status) w
  | replaceStatus {w : JobWorld} {status : JobStatus} (halive : party∉w.dead) :
      JobAnswers party (.replaceStatus status) w (.ok ()) { w with status := some status }
  | appendEvent {w : JobWorld} (halive : party∉w.dead) : JobAnswers party .appendEvent w (.ok ()) w
  | execute {w : JobWorld} (halive : party∉w.dead) (execution : MlExecution) :
      JobAnswers party .execute w (.ok execution) w
  | executeRaised {w : JobWorld} (halive : party∉w.dead) (e : JobExc) :
      JobAnswers party .execute w (.error e) w
  | lockExists {w : JobWorld} (halive : party∉w.dead) :
      JobAnswers party .lockExists w (.ok w.lockFile) w
  /-- Connecting makes the lock's file. -/
  | connect {w : JobWorld} (halive : party∉w.dead) :
      JobAnswers party .connect w (.ok ()) { w with lockFile := true }
  | connectRaised {w : JobWorld} {e : JobExc} (halive : party∉w.dead) (he : e.isSqlite=true) :
      JobAnswers party .connect w (.error e) w
  | beginShared {w : JobWorld} (halive : party∉w.dead) (hfree : w.lock=none) :
      JobAnswers party .beginShared w (.ok ()) { w with lockFile := true, trying := party::w.trying }
  /-- The database is locked, and nobody waits. One that is within a begin may already
  have closed the lock to those that come. -/
  | sharedRaised {w : JobWorld} (halive : party∉w.dead) (hheld : ¬w.Alone party) :
      JobAnswers party .beginShared w (.error .operationalError) w
  | beginExclusive {w : JobWorld} (halive : party∉w.dead) (halone : w.Alone party) :
      JobAnswers party .beginExclusive w (.ok ()) { w with lockFile := true, lock := some party, trying := [] }
  /-- So it is where others share it: of two that begin at once on a free lock, both
  may be refused. -/
  | beginRaised {w : JobWorld} (halive : party∉w.dead) (hheld : ¬w.Alone party) :
      JobAnswers party .beginExclusive w (.error .operationalError) w
  | rollback {w : JobWorld} (halive : party∉w.dead) :
      JobAnswers party .rollback w (.ok ()) (w.unlock party)
  | close {w : JobWorld} (halive : party∉w.dead) :
      JobAnswers party .close w (.ok ()) (w.unlock party)
  | report {w : JobWorld} {state : Reported} (halive : party∉w.dead) :
      JobAnswers party (.report state) w (.ok ()) { w with reports := (party,state)::w.reports }
  /-- A killed process loses its lock. -/
  | kill {w : JobWorld} {killed : Party} (halive : party∉w.dead) :
      JobAnswers party (.kill killed) w (.ok ()) { w.unlock killed with dead := killed::w.dead }

/-- What a process returns. -/
abbrev Party.Result : Party → Type
  | .worker => ℕ
  | _ => Unit

/-- The programs around one job: its worker, readers with their rounds, and
the processes that are killed in between. -/
def jobPrograms (rounds : ℕ → ℕ) (killed : List Party) : (party : Party) → JobM party.Result
  | .worker => cmdWorker
  | .system => killAll killed
  | .reader n => readJob (rounds n)

end GenericMlCache.DetachedJobs
