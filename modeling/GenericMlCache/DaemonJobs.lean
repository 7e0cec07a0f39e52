import GenericMlCache.ReportedHits
import GenericMlCache.OrderedDict
import GenericMlCache.LabelledRuns
import Mathlib.Logic.Function.Basic

/-!
# Jobs of the daemon

`POST /jobs` registers a job and hands its execution to a pool of four threads. The job's
fields are plain attributes: the thread that runs it writes them one by one, and the routes
read them one by one, in any order of steps.
-/

namespace GenericMlCache.DaemonJobs

open PythonText ExecutionModel MlExecutionCommands ReportedHits OrderedDict LabelledRuns

/-- `JobState`. -/
inductive JobState where
  | pending
  | running
  | done
  | error
deriving DecidableEq

/-- `state in (JobState.DONE, JobState.ERROR)`. -/
def JobState.isOver : JobState → Bool
  | .done | .error => true
  | .pending | .running => false

/-- `Job`. -/
structure Job where
  /-- The id a client polls. -/
  jobId : PyStr
  /-- Where its run stands. -/
  state : JobState := .pending
  /-- What the run returned. -/
  execution : Option MlExecution := none
  /-- What it raised, as text. -/
  error : Option PyStr := none
  /-- Whether the job is over. -/
  doneEvent : Bool := false

/-- What `run_execution(*args)` comes to. -/
abbrev Outcome := Except PyExc MlExecution

/-- Whether `_run` goes on behind the call: with `mark_done`, or with `mark_error` in
`except Exception`. The pool keeps any other exception to itself. -/
def Outcome.isMarked : Outcome → Bool
  | .ok _ => true
  | .error exc => exc.isException

/-- `mark_running`. -/
def Job.markRunning (job : Job) : Job := { job with state := .running }

/-- The first statement of `mark_done` and of `mark_error`; `text` is `str(exc)`. -/
def Job.record (text : PyExc → PyStr) (job : Job) : Outcome → Job
  | .ok execution => { job with execution := some execution }
  | .error exc => { job with error := some (text exc) }

/-- The second statement of `mark_done` and of `mark_error`. -/
def Job.close (job : Job) : Outcome → Job
  | .ok _ => { job with state := .done }
  | .error _ => { job with state := .error }

/-- The last statement of `mark_done` and of `mark_error`. -/
def Job.signal (job : Job) : Job := { job with doneEvent := true }

/-- `JobResponse`. -/
structure JobResponse where
  /-- The id polled. -/
  jobId : PyStr
  /-- Where the run stands. -/
  state : JobState
  /-- The key of the execution, once there is one. -/
  executionKey : Option ExecutionKey := none
  /-- Its standard output. -/
  stdout : Option PyStr := none
  /-- Its standard error. -/
  stderr : Option PyStr := none
  /-- What the run raised, as text. -/
  error : Option PyStr := none

/-- What `_job_to_response` takes from the execution. -/
structure Shown where
  /-- The key. -/
  executionKey : Option ExecutionKey
  /-- The standard output. -/
  stdout : Option PyStr
  /-- The standard error. -/
  stderr : Option PyStr

/-- The values before the execution is looked at. -/
def Shown.nothing : Shown := ⟨none,none,none⟩

/-- Where `_job_to_response` stands, with what it read so far. -/
inductive Reading where
  /-- Before `job.execution is not None`. -/
  | testing
  /-- Before `job.execution.call_identity.generate_key()`. -/
  | keying
  | takingStdout (key : ExecutionKey)
  | takingStderr (key : ExecutionKey) (stdout : Option PyStr)
  /-- Before `job.state.value`. -/
  | stating (shown : Shown)
  /-- Before `job.error`. -/
  | failing (shown : Shown) (state : JobState)

/-- What comes of one read. -/
inductive Read where
  | more (reading : Reading)
  | response (response : JobResponse)
  /-- `None` has no attributes. -/
  | attributeError

/-- One attribute read of `_job_to_response`. -/
def Reading.read (decodeReplace : Bytes → PyStr) (job : Job) : Reading → Read
  | .testing => .more (if job.execution.isSome=true then .keying else .stating .nothing)
  | .keying => match job.execution with
    | some execution => .more (.takingStdout execution.callIdentity.generateKey)
    | none => .attributeError
  | .takingStdout key => match job.execution with
    | some execution => .more (.takingStderr key (extractArtifact decodeReplace execution .stdout))
    | none => .attributeError
  | .takingStderr key stdout => match job.execution with
    | some execution => .more (.stating ⟨some key,stdout,extractArtifact decodeReplace execution .stderr⟩)
    | none => .attributeError
  | .stating shown => .more (.failing shown job.state)
  | .failing shown state => .response {
      jobId := job.jobId, state := state, executionKey := shown.executionKey, stdout := shown.stdout
      stderr := shown.stderr, error := job.error }

/-- `JobSubmitBody`: field for field the body of `POST /run`. -/
abbrev JobSubmitBody := RunBody

/-- A request to `/jobs`. -/
inductive Request where
  | submit (body : JobSubmitBody)
  | list
  | get (jobId : PyStr)
  | stream (jobId : PyStr)

/-- A job, whatever its id. -/
abbrev JobRef := ℕ

/-- How a request is answered. -/
inductive Answer where
  /-- A response about a job. -/
  | response (job : JobRef) (response : JobResponse)
  | ids (jobIds : List PyStr)
  | notFound
  /-- Any exception out of the route. -/
  | raised

/-- A message of the stream. -/
inductive Message where
  | status (state : JobState)
  /-- The last message; its type is `complete` or `error`. -/
  | last (complete : Bool) (response : JobResponse)

/-- Where a request stands. -/
inductive Handler where
  | idle
  /-- Before `build_command`. -/
  | building (body : JobSubmitBody)
  /-- In `submit`, before the job is set in the dictionary. -/
  | registering (body : JobSubmitBody) (job : JobRef) (command : RunMlExecutionCommand)
  /-- In `submit`, before the pool gets the job. -/
  | queueing (body : JobSubmitBody) (job : JobRef) (command : RunMlExecutionCommand)
  | listing
  /-- Before `registry.get`. -/
  | finding (jobId : PyStr) (stream : Bool)
  /-- In `_job_to_response` of a request that is answered by it. -/
  | responding (request : Request) (job : JobRef) (reading : Reading)
  /-- In the generator, before the condition of its loop. -/
  | looping (jobId : PyStr) (job : JobRef)
  /-- Before a `status` message. -/
  | showing (jobId : PyStr) (job : JobRef)
  | sleeping (jobId : PyStr) (job : JobRef)
  /-- In `_job_to_response` behind the loop. -/
  | finishing (jobId : PyStr) (job : JobRef) (reading : Reading)
  /-- Before the type of the last message. -/
  | naming (jobId : PyStr) (job : JobRef) (response : JobResponse)

/-- `max_workers`. -/
def maxWorkers : ℕ := 4

/-- Where a thread of the pool stands. -/
inductive Work where
  | idle
  /-- Before `mark_running`. -/
  | starting (job : JobRef) (command : RunMlExecutionCommand)
  /-- Before `run_execution(*args)`. -/
  | calling (job : JobRef) (command : RunMlExecutionCommand)
  | inside (job : JobRef)
  /-- Before the first statement of `mark_done` or `mark_error`. -/
  | recording (job : JobRef) (outcome : Outcome)
  | closing (job : JobRef) (outcome : Outcome)
  | signalling (job : JobRef) (outcome : Outcome)

section Daemon
variable {ι : Type} [DecidableEq ι]

/-- The registry, its pool and the requests at work on it. -/
structure Daemon (ι : Type) where
  /-- Each job that was made. -/
  job : JobRef → Job
  /-- The job made next. -/
  nextJob : JobRef
  /-- `_jobs`. -/
  jobs : Dict PyStr JobRef
  /-- The work queue of the pool, oldest first. -/
  queue : List (JobRef × RunMlExecutionCommand)
  /-- What each thread of the pool does. -/
  worker : Fin maxWorkers → Work
  /-- Where each request stands. -/
  handler : ι → Handler

/-- A new daemon. -/
def Daemon.start : Daemon ι := ⟨fun _ => ⟨[],.pending,none,none,false⟩,0,.empty,[],fun _ => .idle,fun _ => .idle⟩

/-- A thread of the pool moves on. -/
def Daemon.work (d : Daemon ι) (w : Fin maxWorkers) (phase : Work) : Daemon ι :=
  { d with worker := Function.update d.worker w phase }

/-- A request moves on. -/
def Daemon.handle (d : Daemon ι) (h : ι) (phase : Handler) : Daemon ι :=
  { d with handler := Function.update d.handler h phase }

/-- A job's attributes are written. -/
def Daemon.write (d : Daemon ι) (ref : JobRef) (job : Job) : Daemon ι :=
  { d with job := Function.update d.job ref job }

/-- What is told of a run. -/
inductive Event (ι : Type) where
  | asked (handler : ι) (request : Request)
  /-- A request made a job under a drawn id. -/
  | made (handler : ι) (body : JobSubmitBody) (job : JobRef) (jobId : PyStr) (command : RunMlExecutionCommand)
  /-- A job was set in the dictionary. -/
  | registered (job : JobRef) (jobId : PyStr)
  | called (job : JobRef) (command : RunMlExecutionCommand)
  | returned (job : JobRef) (outcome : Outcome)
  | answered (handler : ι) (request : Request) (answer : Answer)
  | emitted (handler : ι) (jobId : PyStr) (job : JobRef) (message : Message)

variable (executionKindFor : PyStr → Except PyExc ExecutionKind) (decodeReplace : Bytes → PyStr)
  (text : PyExc → PyStr)

/-- One step of one thread. -/
inductive Step : Steps (Daemon ι) (Event ι) where
  | ask {d : Daemon ι} (h : ι) (request : Request) (phase : Handler) (hidle : d.handler h=.idle)
      (hphase : phase=match request with
        | .submit body => .building body
        | .list => .listing
        | .get jobId => .finding jobId false
        | .stream jobId => .finding jobId true) :
      Step d (some (.asked h request)) (d.handle h phase)
  /-- `build_command` raises. -/
  | refuse {d : Daemon ι} (h : ι) {body : JobSubmitBody} {exc : PyExc} (hphase : d.handler h=.building body)
      (hbuild : buildCommand executionKindFor body=.error exc) :
      Step d (some (.answered h (.submit body) .raised)) (d.handle h .idle)
  /-- `secrets.token_hex(8)` may draw anything, also an id it drew before. -/
  | make {d : Daemon ι} (h : ι) {body : JobSubmitBody} {command : RunMlExecutionCommand} (jobId : PyStr)
      (hphase : d.handler h=.building body) (hbuild : buildCommand executionKindFor body=.ok command) :
      Step d (some (.made h body d.nextJob jobId command))
        { (d.write d.nextJob { jobId := jobId }).handle h (.registering body d.nextJob command) with
          nextJob := d.nextJob+1 }
  | register {d : Daemon ι} (h : ι) {body : JobSubmitBody} {job : JobRef} {command : RunMlExecutionCommand}
      (hphase : d.handler h=.registering body job command) :
      Step d (some (.registered job (d.job job).jobId))
        { d.handle h (.queueing body job command) with jobs := d.jobs.set (d.job job).jobId job }
  | enqueue {d : Daemon ι} (h : ι) {body : JobSubmitBody} {job : JobRef} {command : RunMlExecutionCommand}
      (hphase : d.handler h=.queueing body job command) :
      Step d none { d.handle h (.responding (.submit body) job .testing) with queue := d.queue ++ [(job,command)] }
  /-- The pool is shut down. -/
  | enqueueFailed {d : Daemon ι} (h : ι) {body : JobSubmitBody} {job : JobRef} {command : RunMlExecutionCommand}
      (hphase : d.handler h=.queueing body job command) :
      Step d (some (.answered h (.submit body) .raised)) (d.handle h .idle)
  /-- The job is in the queue, but a new thread cannot be started. -/
  | enqueueHalf {d : Daemon ι} (h : ι) {body : JobSubmitBody} {job : JobRef} {command : RunMlExecutionCommand}
      (hphase : d.handler h=.queueing body job command) :
      Step d (some (.answered h (.submit body) .raised))
        { d.handle h .idle with queue := d.queue ++ [(job,command)] }
  | list {d : Daemon ι} (h : ι) (hphase : d.handler h=.listing) :
      Step d (some (.answered h .list (.ids d.jobs.keys))) (d.handle h .idle)
  | missing {d : Daemon ι} (h : ι) {jobId : PyStr} {stream : Bool} (hphase : d.handler h=.finding jobId stream)
      (hget : d.jobs.get? jobId=none) :
      Step d (some (.answered h (if stream=true then .stream jobId else .get jobId) .notFound)) (d.handle h .idle)
  | found {d : Daemon ι} (h : ι) {jobId : PyStr} {stream : Bool} {job : JobRef}
      (hphase : d.handler h=.finding jobId stream) (hget : d.jobs.get? jobId=some job) :
      Step d none (d.handle h (if stream=true then .looping jobId job else .responding (.get jobId) job .testing))
  | read {d : Daemon ι} (h : ι) {request : Request} {job : JobRef} {reading next : Reading}
      (hphase : d.handler h=.responding request job reading)
      (hread : reading.read decodeReplace (d.job job)=.more next) :
      Step d none (d.handle h (.responding request job next))
  | respond {d : Daemon ι} (h : ι) {request : Request} {job : JobRef} {reading : Reading} {response : JobResponse}
      (hphase : d.handler h=.responding request job reading)
      (hread : reading.read decodeReplace (d.job job)=.response response) :
      Step d (some (.answered h request (.response job response))) (d.handle h .idle)
  | respondFailed {d : Daemon ι} (h : ι) {request : Request} {job : JobRef} {reading : Reading}
      (hphase : d.handler h=.responding request job reading)
      (hread : reading.read decodeReplace (d.job job)=.attributeError) :
      Step d (some (.answered h request .raised)) (d.handle h .idle)
  | loop {d : Daemon ι} (h : ι) {jobId : PyStr} {job : JobRef} (hphase : d.handler h=.looping jobId job) :
      Step d none (d.handle h (if (d.job job).state.isOver=true then .finishing jobId job .testing
        else .showing jobId job))
  | status {d : Daemon ι} (h : ι) {jobId : PyStr} {job : JobRef} (hphase : d.handler h=.showing jobId job) :
      Step d (some (.emitted h jobId job (.status (d.job job).state))) (d.handle h (.sleeping jobId job))
  | wake {d : Daemon ι} (h : ι) {jobId : PyStr} {job : JobRef} (hphase : d.handler h=.sleeping jobId job) :
      Step d none (d.handle h (.looping jobId job))
  /-- The client is gone. -/
  | gone {d : Daemon ι} (h : ι) {jobId : PyStr} {job : JobRef} (hphase : d.handler h=.sleeping jobId job) :
      Step d none (d.handle h .idle)
  | readLast {d : Daemon ι} (h : ι) {jobId : PyStr} {job : JobRef} {reading next : Reading}
      (hphase : d.handler h=.finishing jobId job reading)
      (hread : reading.read decodeReplace (d.job job)=.more next) :
      Step d none (d.handle h (.finishing jobId job next))
  | finish {d : Daemon ι} (h : ι) {jobId : PyStr} {job : JobRef} {reading : Reading} {response : JobResponse}
      (hphase : d.handler h=.finishing jobId job reading)
      (hread : reading.read decodeReplace (d.job job)=.response response) :
      Step d none (d.handle h (.naming jobId job response))
  | finishFailed {d : Daemon ι} (h : ι) {jobId : PyStr} {job : JobRef} {reading : Reading}
      (hphase : d.handler h=.finishing jobId job reading)
      (hread : reading.read decodeReplace (d.job job)=.attributeError) :
      Step d (some (.answered h (.stream jobId) .raised)) (d.handle h .idle)
  | name {d : Daemon ι} (h : ι) {jobId : PyStr} {job : JobRef} {response : JobResponse}
      (hphase : d.handler h=.naming jobId job response) :
      Step d (some (.emitted h jobId job (.last (decide ((d.job job).state=.done)) response))) (d.handle h .idle)
  | take {d : Daemon ι} (w : Fin maxWorkers) {job : JobRef} {command : RunMlExecutionCommand}
      {rest : List (JobRef × RunMlExecutionCommand)} (hidle : d.worker w=.idle) (hqueue : d.queue=(job,command)::rest) :
      Step d none { d.work w (.starting job command) with queue := rest }
  | begin {d : Daemon ι} (w : Fin maxWorkers) {job : JobRef} {command : RunMlExecutionCommand}
      (hphase : d.worker w=.starting job command) :
      Step d none ((d.write job (d.job job).markRunning).work w (.calling job command))
  | call {d : Daemon ι} (w : Fin maxWorkers) {job : JobRef} {command : RunMlExecutionCommand}
      (hphase : d.worker w=.calling job command) :
      Step d (some (.called job command)) (d.work w (.inside job))
  | ret {d : Daemon ι} (w : Fin maxWorkers) {job : JobRef} (outcome : Outcome) (hphase : d.worker w=.inside job) :
      Step d (some (.returned job outcome))
        (d.work w (if outcome.isMarked=true then .recording job outcome else .idle))
  | record {d : Daemon ι} (w : Fin maxWorkers) {job : JobRef} {outcome : Outcome}
      (hphase : d.worker w=.recording job outcome) :
      Step d none ((d.write job ((d.job job).record text outcome)).work w (.closing job outcome))
  | close {d : Daemon ι} (w : Fin maxWorkers) {job : JobRef} {outcome : Outcome}
      (hphase : d.worker w=.closing job outcome) :
      Step d none ((d.write job ((d.job job).close outcome)).work w (.signalling job outcome))
  | signal {d : Daemon ι} (w : Fin maxWorkers) {job : JobRef} {outcome : Outcome}
      (hphase : d.worker w=.signalling job outcome) :
      Step d none ((d.write job (d.job job).signal).work w .idle)

/-- A step of a thread of the pool: the thread moves on, no other does and no request. -/
def PoolStep : Steps (Daemon ι) (Event ι) := fun d event d' =>
  Step executionKindFor decodeReplace text d event d' ∧ d'.handler=d.handler ∧
    ∃ w phase,phase≠d.worker w ∧ d'.worker=Function.update d.worker w phase

end Daemon

end GenericMlCache.DaemonJobs
