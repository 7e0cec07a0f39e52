import GenericMlCache.DetachedJobs
import GenericMlCache.OwnedDocuments
import GenericMlCache.ServiceOperations

/-!
# The results of detached jobs

A job's status keeps the key of what its worker returned and an exit code. Its
result is looked up by the key later, among whatever was recorded, refreshed
and purged since. Where the lookup finds the execution that the worker returned,
or none, what is printed and written is that execution's.
-/

namespace GenericMlCache.JobResults

open CallProgram CallAutomaton PythonText ExecutionModel SqliteStore ExecutionRepository ExecutionQueries
  RepositoryCalls ServicePorts CachedExecution ServiceAutomaton ServiceConformance ServiceOperations
  StoreSoundness BareRows DetachedJobs ReturnedRuns OwnedDocuments
open FaithfulReplay hiding Owned

/-- What a worker makes known of its job. -/
inductive Outcome where
  | running
  | failed (error : PyStr)
  | succeeded (execution : MlExecution)

/-- The fields that `update_status` merges into what is stored. -/
def Outcome.merge : Outcome → JobStatus → JobStatus
  | .running,s => { s with state := some .running }
  | .failed error,s => { s with state := some .failed, error := some error }
  | .succeeded execution,s => { s with
      state := some .succeeded
      executionKey := some execution.callIdentity.generateKey
      exitCode := some (runExitCode execution) }

/-- The calls on the files of jobs, each job under the name of its worker. -/
inductive JobFileCall (ι : Type) where
  | exists (job : ι)
  | readStatus (job : ι)
  | lockHeld (job : ι)
  | updateStatus (job : ι) (outcome : Outcome)
  | appendEvent (job : ι)
  | makeDirectory (name : Option PyStr)
  | writeFile (name : PyStr) (content : Bytes)

/-- What each call answers. -/
abbrev JobFileCall.Ret {ι : Type} : JobFileCall ι → Type
  | .exists _ | .lockHeld _ => Bool
  | .readStatus _ => Option JobStatus
  | _ => Unit

/-- The calls of a process: the services' and those on the files of jobs. -/
abbrev JobCall (Command ι : Type) := Call Command ⊕ JobFileCall ι

/-- What each call of a process answers. -/
abbrev JobCall.Ret {Command ι : Type} : JobCall Command ι → Type := Sum.elim Call.Ret JobFileCall.Ret

/-- The program of a process. -/
abbrev JobM (Command ι : Type) := Prog (JobCall Command ι) JobCall.Ret PyExc

section Programs
variable {Command ι : Type}

/-- One call of a port. -/
abbrev port (call : Call Command) : JobM Command ι call.Ret := perform (Sum.inl call : JobCall Command ι)

/-- One call on the files of jobs. -/
abbrev jobFile (call : JobFileCall ι) : JobM Command ι call.Ret := perform (Sum.inr call : JobCall Command ι)

/-- What a process shows when it ends. -/
inductive Shown where
  /-- A message at most, with an exit code. -/
  | told (code : ℤ)
  /-- Standard output and standard error, with an exit code. -/
  | printed (out err : PyStr) (code : ℤ)
  /-- Files, in the order they were written in. -/
  | wrote (files : List (PyStr × Bytes))
deriving DecidableEq

/-- The part of `cmd_worker` under the liveness lock. -/
def runJob (service : CachedMlExecutionService Command) (fingerprint : Bytes → Digest) (command : Command)
    (job : ι) : JobM Command ι Shown := do
  jobFile (.updateStatus job .running)
  jobFile (.appendEvent job)
  match ← attempt (embed (execute service fingerprint command)) with
  | .error e =>
    if e.isException=true then
      jobFile (.updateStatus job (.failed e.str))
      jobFile (.appendEvent job)
      return .told 1
    else raise e
  | .ok execution =>
    jobFile (.updateStatus job (.succeeded execution))
    jobFile (.appendEvent job)
    return .told 0

/-- The content that an artifact has, or else its blob's. -/
def readContent (artifact : Artifact) : JobM Command ι (Option Bytes) :=
  match artifact.content with
  | some content => return some content
  | none => port (.blobGet artifact.blobKey)

/-- The first artifact of a type. -/
def firstOf (artifacts : List Artifact) (artifactType : ArtifactType) : Option Artifact :=
  artifacts.find? fun a => decide (a.artifactType=artifactType)

variable (decode : Bytes → PyStr) (inside : PyStr → Bool)

/-- `stored_artifact_text`. -/
def storedArtifactText (execution : MlExecution) (artifactType : ArtifactType) : JobM Command ι PyStr :=
  match firstOf execution.artifacts artifactType with
  | none => return []
  | some artifact => do
    let content ← readContent artifact
    return decode (content.getD [])

/-- The artifact is a produced file with a name. -/
def isNamedFile (a : Artifact) : Bool := decide (a.artifactType=.outputFile) && a.name.isSome

/-- `_materialize_output_files`, over the artifacts that are left. -/
def materializeOutputFiles : List Artifact → JobM Command ι (List (PyStr × Bytes))
  | [] => return []
  | artifact::rest => do
    if isNamedFile artifact=true then
      let name := artifact.name.getD []
      if inside name=true then
        let content ← readContent artifact
        jobFile (.makeDirectory (some name))
        jobFile (.writeFile name (content.getD []))
        let files ← materializeOutputFiles rest
        return (name,content.getD [])::files
      else raise (.other true (pyStr "refusing to write outside output dir: '" ++ name ++ pyStr "'"))
    else materializeOutputFiles rest

/-- Whether `except (EncryptionTokenRequired, WrongEncryptionToken)` catches it. -/
def isTokenError : PyExc → Bool
  | .encryptionTokenRequired _ => true
  | _ => false

/-- The part of `cmd_execution_result` that reads the store. -/
def printResult (key : ExecutionKey) (code : ℤ) : JobM Command ι Shown := do
  match ← port (.store (.findCurrent key)) with
  | none => return .told 4
  | some execution =>
    let out ← storedArtifactText decode execution .stdout
    let err ← storedArtifactText decode execution .stderr
    return .printed out err code

/-- The part of `cmd_execution_materialize` that reads the store. -/
def writeResult (key : ExecutionKey) : JobM Command ι Shown := do
  match ← port (.store (.findCurrent key)) with
  | none => return .told 4
  | some execution =>
    jobFile (.makeDirectory none)
    let files ← materializeOutputFiles inside execution.artifacts
    return .wrote files

/-- A missing or wrong token is told. -/
def tellTokenError (body : JobM Command ι Shown) : JobM Command ι Shown := do
  match ← attempt body with
  | .ok shown => return shown
  | .error e => if isTokenError e=true then return .told 4 else raise e

/-- The part of both readers before they read the store: the job's status,
unless it is not succeeded. -/
def withSucceeded (job : ι) (pending interrupted failed : ℤ) (body : ExecutionKey → ℤ → JobM Command ι Shown) :
    JobM Command ι Shown := do
  let there ← jobFile (.exists job)
  if there=true then
    let status ← jobFile (.readStatus job)
    let held ← jobFile (.lockHeld job)
    match derivedState status held with
    | .stored .submitted | .stored .running => return .told pending
    | .interrupted => return .told interrupted
    | .stored .succeeded =>
      match status.bind (·.executionKey) with
      | none => return .told 4
      | some key => tellTokenError (body key ((status.bind (·.exitCode)).getD 0))
    | _ => return .told failed
  else return .told 4

/-- `cmd_execution_result`. -/
def cmdExecutionResult (job : ι) : JobM Command ι Shown := withSucceeded job 75 1 1 (printResult decode)

/-- `cmd_execution_materialize`. -/
def cmdExecutionMaterialize (job : ι) : JobM Command ι Shown :=
  withSucceeded job 4 4 4 fun key _ => writeResult inside key

end Programs

/-- A process: a job's worker, an operation other than a repair, or a reader of a job's result. -/
inductive Process (Command ι : Type) where
  | worker (service : CachedMlExecutionService Command) (command : Command)
  | operation (op : Operation Command) (hop : op.isRepair=false)
  | result (job : ι)
  | materialize (job : ι)

/-- The job that a process reads the result of. -/
def Process.reads {Command ι : Type} : Process Command ι → Option ι
  | .result job | .materialize job => some job
  | _ => none

/-- What the processes share, and what they were answered so far. -/
structure JobSite (ι : Type) where
  /-- The store and the ports. -/
  world : World
  /-- The stored status of each job. -/
  status : ι → Option JobStatus
  /-- What each process was answered. -/
  gathered : ι → Gathered
  /-- What each job's worker returned. -/
  returned : ι → Option MlExecution

/-- A new store, with every job submitted. -/
def JobSite.start {ι : Type} : JobSite ι :=
  ⟨World.empty,fun _ => some { state := some .submitted },fun _ => {},fun _ => none⟩

section Meaning
variable {Command ι : Type} [DecidableEq ι]

/-- The program of a process. -/
def jobProgram (fingerprint : Bytes → Digest) (decode : Bytes → PyStr) (inside : PyStr → Bool) (i : ι) :
    Process Command ι → JobM Command ι Shown
  | .worker service command => runJob service fingerprint command i
  | .operation op _ => do
    embed (program fingerprint op)
    return .told 0
  | .result job => cmdExecutionResult decode job
  | .materialize job => cmdExecutionMaterialize inside job

/-- What a worker returned, once it makes it known. -/
def Outcome.returned : Outcome → Option MlExecution → Option MlExecution
  | .succeeded execution,_ => some execution
  | _,before => before

variable (locks : LockMode) (faults : Faults Command) (thread : ι → ThreadId)
variable (allowed : ι → JobSite ι → Call Command → Prop)

/-- What each call of a process may answer, where the ports' calls meet a condition. A file
operation may raise, without effect, and a status that cannot be read is none. -/
inductive JobMeans (i : ι) : Sem (JobCall Command ι) JobCall.Ret PyExc (JobSite ι) where
  | port {s : JobSite ι} {call : Call Command} {r : Except PyExc call.Ret} {w' : World} (hallowed : allowed i s call)
      (h : Answers locks faults (thread i) call s.world r w') :
      JobMeans i (.inl call) s r { s with world := w', gathered := gatheredAfter s.gathered i call r }
  | fileFault {s : JobSite ι} {call : JobFileCall ι} {e : PyExc} : JobMeans i (.inr call) s (.error e) s
  | exists {s : JobSite ι} {job : ι} (there : Bool) : JobMeans i (.inr (.exists job)) s (.ok there) s
  | readStatus {s : JobSite ι} {job : ι} {status : Option JobStatus} (h : status=none ∨ status=s.status job) :
      JobMeans i (.inr (.readStatus job)) s (.ok status) s
  | lockHeld {s : JobSite ι} {job : ι} (held : Bool) : JobMeans i (.inr (.lockHeld job)) s (.ok held) s
  | updateStatus {s : JobSite ι} {job : ι} {outcome : Outcome} {status : Option JobStatus}
      (h : status=none ∨ status=s.status job) :
      JobMeans i (.inr (.updateStatus job outcome)) s (.ok ())
        { s with
          status := Function.update s.status job (some (outcome.merge (status.getD {})))
          returned := Function.update s.returned job (outcome.returned (s.returned job)) }
  | appendEvent {s : JobSite ι} {job : ι} : JobMeans i (.inr (.appendEvent job)) s (.ok ()) s
  | makeDirectory {s : JobSite ι} {name : Option PyStr} : JobMeans i (.inr (.makeDirectory name)) s (.ok ()) s
  | writeFile {s : JobSite ι} {name : PyStr} {content : Bytes} :
      JobMeans i (.inr (.writeFile name content)) s (.ok ()) s

end Meaning

/-- Where a process stands: its phase as a caller of the services, what it gathered,
the status it read, and whether its worker's run is over. -/
structure Stage where
  /-- Its phase as a caller. -/
  phase : Phase
  /-- What it gathered. -/
  gathered : Gathered
  /-- The status it read. -/
  status : Option JobStatus
  /-- Whether its worker's run is over. -/
  ended : Bool

/-- A process before its first call. -/
def Stage.start : Stage := ⟨Phase.start,{},none,false⟩

section Turns
variable {Command ι : Type} (fingerprint : Bytes → Digest) (i : ι)

/-- A call of a reader on the store. -/
def isLook : Call Command → Bool
  | .store (.findCurrent _) | .blobGet _ => true
  | _ => false

/-- The calls on files that no stage depends on. -/
def isAside : JobFileCall ι → Bool
  | .readStatus _ | .updateStatus _ _ => false
  | _ => true

/-- The turns of a process. -/
inductive JobTurn (process : Process Command ι) : Turns (JobCall Command ι) JobCall.Ret PyExc Stage where
  /-- A worker or an operation calls a port. -/
  | serve {φ φ' : Phase} {g : Gathered} {status : Option JobStatus} {call : Call Command}
      {r : Except PyExc call.Ret} (hp : process.reads=none) (h : Turn Scope.noRepair fingerprint φ call r φ') :
      JobTurn process ⟨φ,g,status,false⟩ (.inl call) r ⟨φ',watchGathered call r g,status,false⟩
  /-- A reader looks into the store. -/
  | look {φ : Phase} {g : Gathered} {status : Option JobStatus} {ended : Bool} {call : Call Command}
      {r : Except PyExc call.Ret} {job : ι} (hp : process.reads=some job) (h : isLook call=true) (hφ : φ.task=.idle) :
      JobTurn process ⟨φ,g,status,ended⟩ (.inl call) r ⟨φ,watchGathered call r g,status,ended⟩
  /-- A reader reads the status of its job. -/
  | readStatus {stage : Stage} {job : ι} (hp : process.reads=some job) (status : Option JobStatus) :
      JobTurn process stage (.inr (.readStatus job)) (.ok status) { stage with status := status }
  | readRaised {stage : Stage} {job : ι} {e : PyExc} :
      JobTurn process stage (.inr (.readStatus job)) (.error e) stage
  /-- A worker makes known that it runs, or that it failed. -/
  | update {stage : Stage} {outcome : Outcome} {r : Except PyExc Unit} (hended : stage.ended=false)
      (h : ∀ execution,outcome≠.succeeded execution) :
      JobTurn process stage (.inr (.updateStatus i outcome)) r stage
  /-- A worker makes known what it returned. -/
  | succeed {stage : Stage} {execution : MlExecution} {r : Except PyExc Unit} (hended : stage.ended=false)
      (h : Returned stage.gathered execution) :
      JobTurn process stage (.inr (.updateStatus i (.succeeded execution))) r { stage with ended := true }
  | aside {stage : Stage} {call : JobFileCall ι} {r : Except PyExc call.Ret} (h : isAside call=true) :
      JobTurn process stage (.inr call) r stage

end Turns

section Workers
variable {Command ι : Type} {fingerprint : Bytes → Digest} {i : ι} {process : Process Command ι}

/-- The stage of a process that has not read a status and whose run is not over. -/
def serving (φ : Phase × Gathered) : Stage := ⟨φ.1,φ.2,none,false⟩

/-- A program of the services, within a process that does not read. -/
theorem follows_serving {α : Type} {Q : Except PyExc α → Stage → Prop} {p : ServiceM Command α} {φ : Phase × Gathered}
    (hp : process.reads=none)
    (h : Follows ((Turn Scope.noRepair fingerprint).both (monitored watchGathered)) (fun r φ' => Q r (serving φ')) p φ) :
    Follows (JobTurn fingerprint i process) Q (embed p) (serving φ) := by
  refine Follows.embed (Follows.along serving (fun φ call r φ' hturn => ?_) h)
  obtain ⟨hturn,hwatch⟩ := hturn
  show JobTurn fingerprint i process _ _ _ ⟨φ'.1,φ'.2,none,false⟩
  rw [hwatch]
  exact .serve hp hturn

/-- A worker follows its turns: what it makes known is what its execute returned. -/
theorem follows_runJob (service : CachedMlExecutionService Command) (command : Command) :
    Follows (JobTurn fingerprint i (.worker service command)) (fun _ _ => True)
      (runJob service fingerprint command i) Stage.start := by
  have hcovers : Covers Scope.noRepair service command := ⟨fun _ => rfl,rfl,Or.inr rfl⟩
  have hrunning : ∀ execution,Outcome.running≠.succeeded execution := fun _ heq => nomatch heq
  refine Follows.perform_bind (fun _ => ⟨_,.update rfl hrunning,?_⟩) fun e => ⟨_,.update rfl hrunning,trivial⟩
  refine Follows.perform_bind (fun _ => ⟨_,.aside rfl,?_⟩) fun e => ⟨_,.aside rfl,trivial⟩
  have hconforms : Conforms Scope.noRepair fingerprint Phase.start (ExecuteAnswered service command)
      (execute service fingerprint command) := conforms_execute service [] false hcovers
  have hreturns : Returns (execute service fingerprint command) {} := returns_execute service fingerprint rfl rfl
  have hserves : Follows (JobTurn fingerprint i (.worker service command)) (fun r stage => stage.ended=false ∧
      ∀ execution,r=.ok execution → Returned stage.gathered execution)
      (embed (execute service fingerprint command)) Stage.start :=
    follows_serving rfl ((hconforms.both hreturns).weaken fun r φ hr => ⟨rfl,hr.2⟩)
  refine Follows.attempt_seq hserves fun r stage hr => ?_
  cases r with
  | error e =>
    have hfailed : ∀ execution,Outcome.failed e.str≠.succeeded execution := fun _ heq => nomatch heq
    refine Follows.ite (fun _ => ?_) fun _ => Follows.raise trivial
    refine Follows.perform_bind (fun _ => ⟨_,.update hr.1 hfailed,?_⟩) fun e => ⟨_,.update hr.1 hfailed,trivial⟩
    exact Follows.perform_bind (fun _ => ⟨_,.aside rfl,trivial⟩) fun e => ⟨_,.aside rfl,trivial⟩
  | ok execution =>
    have hreturned := hr.2 execution rfl
    refine Follows.perform_bind (fun _ => ⟨_,.succeed hr.1 hreturned,?_⟩) fun e => ⟨_,.succeed hr.1 hreturned,trivial⟩
    exact Follows.perform_bind (fun _ => ⟨_,.aside rfl,trivial⟩) fun e => ⟨_,.aside rfl,trivial⟩

/-- An operation follows its turns. -/
theorem follows_operation (op : Operation Command) (hop : op.isRepair=false) :
    Follows (JobTurn fingerprint i (.operation op hop)) (fun _ _ => True)
      ((embed (program fingerprint op) : JobM Command ι Unit) >>= fun _ => pure (Shown.told 0)) Stage.start := by
  have hrepairs : op.isRepair=true → Scope.noRepair.repairs=true := by
    rw [hop]
    exact fun h => nomatch h
  have hconforms : Conforms Scope.noRepair fingerprint Phase.start EndsSettled (program fingerprint op) :=
    conforms_program rfl rfl rfl op hrepairs
  have hanything : ∀ {α : Type} (p : ServiceM Command α) (g : Gathered),
      Follows (monitored watchGathered) (fun _ _ => True) p g := by
    intro α p
    induction p with
    | done r => exact fun _ => trivial
    | call op next ih => exact fun g => Follows.watch_call fun r => ih r _
  have hserves : Follows (JobTurn fingerprint i (.operation op hop)) (fun _ _ => True)
      (embed (program fingerprint op)) Stage.start :=
    follows_serving rfl ((hconforms.both (hanything _ {})).weaken fun _ _ _ => trivial)
  exact Follows.seq hserves (fun _ _ _ => trivial) fun _ _ _ => trivial

end Workers

section Readers
variable {Command ι : Type} {fingerprint : Bytes → Digest} {i job : ι} {process : Process Command ι}
variable {stage stage' stage'' : Stage}

/-- A reader looked more often. -/
structure Looked (stage stage' : Stage) : Prop where
  /-- It is between two looks. -/
  idle : stage'.phase.task=.idle
  /-- It read no other status. -/
  status : stage'.status=stage.status
  /-- No loaded execution is lost. -/
  loaded : stage.gathered.loaded ⊆ stage'.gathered.loaded
  /-- No blob that was read is lost. -/
  got : stage.gathered.got ⊆ stage'.gathered.got
  /-- What it missed it still misses. -/
  missed : stage'.gathered.missed=false → stage.gathered.missed=false

/-- A reader looked once more, and again. -/
theorem Looked.trans (h : Looked stage stage') (h' : Looked stage' stage'') : Looked stage stage'' where
  idle := h'.idle
  status := h'.status.trans h.status
  loaded := fun _ hmem => h'.loaded (h.loaded hmem)
  got := fun _ hmem => h'.got (h.got hmem)
  missed := fun hnot => h.missed (h'.missed hnot)

/-- A program of a reader: it looks, and what it returns is as stated. -/
abbrev Looks {α : Type} (fingerprint : Bytes → Digest) (i : ι) (process : Process Command ι) (Q : α → Stage → Prop)
    (p : JobM Command ι α) (stage : Stage) : Prop :=
  Follows (JobTurn fingerprint i process) (fun r stage' => Looked stage stage' ∧ ∀ a,r=.ok a → Q a stage') p stage

/-- One look after another. -/
theorem looks_then {α β : Type} {Q : α → Stage → Prop} {Q' : β → Stage → Prop} {p : JobM Command ι α}
    {f : α → JobM Command ι β} (h : Looks fingerprint i process Q p stage)
    (hf : ∀ a stage',Looked stage stage' → Q a stage' → Looks fingerprint i process Q' (f a) stage') :
    Looks fingerprint i process Q' (p >>= f) stage := by
  refine Follows.seq h (fun a stage' hr => ?_) fun e stage' hr => ⟨hr.1,fun _ hok => nomatch hok⟩
  exact (hf a stage' hr.1 (hr.2 a rfl)).weaken fun r stage'' hr' => ⟨hr.1.trans hr'.1,hr'.2⟩

/-- A value that is returned as it is. -/
theorem looks_pure {α : Type} {Q : α → Stage → Prop} {a : α} (hidle : stage.phase.task=.idle) (h : Q a stage) :
    Looks fingerprint i process Q (pure a : JobM Command ι α) stage :=
  Follows.pure ⟨⟨hidle,rfl,fun _ hmem => hmem,fun _ hmem => hmem,fun hnot => hnot⟩,fun _ hok => Except.ok.inj hok ▸ h⟩

/-- A call on files that no stage depends on. -/
theorem looks_aside {call : JobFileCall ι} (hidle : stage.phase.task=.idle) (h : isAside call=true) :
    Looks fingerprint i process (fun _ _ => True) (jobFile call : JobM Command ι call.Ret) stage :=
  Follows.perform fun _ => ⟨stage,.aside h,⟨hidle,rfl,fun _ hmem => hmem,fun _ hmem => hmem,fun hnot => hnot⟩,
    fun _ _ => trivial⟩

/-- A look into the store. -/
theorem looks_port {call : Call Command} {Q : call.Ret → Stage → Prop} (hp : process.reads=some job)
    (hidle : stage.phase.task=.idle) (h : isLook call=true)
    (hQ : ∀ a,Q a { stage with gathered := watchGathered call (.ok a) stage.gathered }) :
    Looks fingerprint i process Q (port call : JobM Command ι call.Ret) stage := by
  have hreading : isReading call=true := by
    cases call with
    | store storeCall => cases storeCall <;> first | rfl | exact nomatch h
    | _ => rfl
  refine Follows.perform fun r => ⟨_,.look hp h hidle,?_,fun a hok => hok ▸ hQ a⟩
  have hextends := extends_watch hreading r stage.gathered
  refine ⟨hidle,rfl,hextends.loaded,hextends.got,fun hnot => ?_⟩
  have hmissed : (watchGathered call r stage.gathered).missed=false := hnot
  unfold watchGathered at hmissed
  cases hgain : gainOf call r with
  | none =>
    rw [hgain] at hmissed
    exact hmissed
  | some gain =>
    rw [hgain] at hmissed
    cases gain with
    | missed => exact nomatch hmissed
    | _ => exact hmissed

/-- An artifact without content is read from its blob. -/
theorem looks_readContent (hp : process.reads=some job) (hidle : stage.phase.task=.idle) (a : Artifact) :
    Looks fingerprint i process (fun content stage' => stage'.gathered.missed=false → a.content=none →
      (a.blobKey,content.getD [])∈stage'.gathered.got) (readContent a : JobM Command ι (Option Bytes)) stage := by
  unfold readContent
  cases ha : a.content with
  | some content => exact looks_pure hidle fun _ hnone => nomatch hnone
  | none =>
    refine looks_port hp hidle rfl fun found hmissed _ => ?_
    cases found with
    | none => exact nomatch hmissed
    | some content => exact List.mem_cons_self

/-- The text is that of the first artifact of the type, as it was read. -/
def ReadsAs (decode : Bytes → PyStr) (got : List (BlobKey × Bytes)) (artifacts : List Artifact)
    (artifactType : ArtifactType) (text : PyStr) : Prop :=
  match firstOf artifacts artifactType with
  | none => text=[]
  | some a => a.content=none → ∃ content,(a.blobKey,content)∈got ∧ text=decode content

/-- What was read stays so. -/
theorem ReadsAs.mono {decode : Bytes → PyStr} {got got' : List (BlobKey × Bytes)} {artifacts : List Artifact}
    {artifactType : ArtifactType} {text : PyStr} (h : ReadsAs decode got artifacts artifactType text) (hsub : got ⊆ got') :
    ReadsAs decode got' artifacts artifactType text := by
  unfold ReadsAs at h ⊢
  split at h
  next => exact h
  next =>
    intro hnone
    obtain ⟨content,hmem,htext⟩ := h hnone
    exact ⟨content,hsub hmem,htext⟩

/-- `stored_artifact_text` reads the first artifact of the type. -/
theorem looks_storedArtifactText (hp : process.reads=some job) (hidle : stage.phase.task=.idle)
    (decode : Bytes → PyStr) (execution : MlExecution) (artifactType : ArtifactType) :
    Looks fingerprint i process (fun text stage' => stage'.gathered.missed=false →
      ReadsAs decode stage'.gathered.got execution.artifacts artifactType text)
      (storedArtifactText decode execution artifactType : JobM Command ι PyStr) stage := by
  unfold storedArtifactText ReadsAs
  cases firstOf execution.artifacts artifactType with
  | none => exact looks_pure hidle fun _ => rfl
  | some a =>
    refine looks_then (looks_readContent hp hidle a) fun content stage' hlooked hread => ?_
    exact looks_pure hlooked.idle fun hmissed hnone => ⟨_,hread hmissed hnone,rfl⟩

/-- A written file is the artifact's, with the content that was read. -/
def FileOf (got : List (BlobKey × Bytes)) (a : Artifact) (file : PyStr × Bytes) : Prop :=
  file.1=a.name.getD [] ∧ (a.content=none → (a.blobKey,file.2)∈got)

/-- `_materialize_output_files` writes every named file. -/
theorem looks_materializeOutputFiles (hp : process.reads=some job) (hidle : stage.phase.task=.idle)
    (inside : PyStr → Bool) (artifacts : List Artifact) :
    Looks fingerprint i process (fun files stage' => stage'.gathered.missed=false →
      List.Forall₂ (FileOf stage'.gathered.got) (artifacts.filter isNamedFile) files)
      (materializeOutputFiles inside artifacts : JobM Command ι (List (PyStr × Bytes))) stage := by
  induction artifacts generalizing stage with
  | nil => exact looks_pure hidle fun _ => .nil
  | cons a rest ih =>
    unfold materializeOutputFiles
    refine Follows.ite (fun hnamed => ?_) fun hnot => ?_
    swap
    · rw [List.filter_cons_of_neg hnot]
      exact ih hidle
    rw [List.filter_cons_of_pos hnamed]
    refine Follows.ite (fun _ => ?_) fun _ => Follows.raise ⟨⟨hidle,rfl,fun _ hmem => hmem,fun _ hmem => hmem,
      fun hnot => hnot⟩,fun _ hok => nomatch hok⟩
    refine looks_then (looks_readContent hp hidle a) fun content stage₁ hlooked hread => ?_
    refine looks_then (looks_aside hlooked.idle rfl) fun _ stage₂ hlooked₂ _ => ?_
    refine looks_then (looks_aside hlooked₂.idle rfl) fun _ stage₃ hlooked₃ _ => ?_
    refine looks_then (ih hlooked₃.idle) fun files stage₄ hlooked₄ hfiles => ?_
    have hlater := (hlooked₂.trans hlooked₃).trans hlooked₄
    refine looks_pure hlooked₄.idle fun hmissed => .cons ⟨rfl,fun hnone => ?_⟩ (hfiles hmissed)
    exact hlater.got (hread (hlater.missed hmissed) hnone)

/-- What a reader shows was read of an execution that it loaded under a succeeded status. -/
def Presents (decode : Bytes → PyStr) (stage : Stage) : Shown → Prop
  | .told _ => True
  | .printed out err code => ∃ e∈stage.gathered.loaded,∃ status,stage.status=some status ∧
      status.state=some .succeeded ∧ code=status.exitCode.getD 0 ∧ (stage.gathered.missed=false →
        ReadsAs decode stage.gathered.got e.artifacts .stdout out ∧
        ReadsAs decode stage.gathered.got e.artifacts .stderr err)
  | .wrote files => ∃ e∈stage.gathered.loaded,∃ status,stage.status=some status ∧
      status.state=some .succeeded ∧ (stage.gathered.missed=false →
        List.Forall₂ (FileOf stage.gathered.got) (e.artifacts.filter isNamedFile) files)

/-- A stored result is that of a status which says so. -/
theorem derivedState_succeeded {status : Option JobStatus} {held : Bool} (h : derivedState status held=.stored .succeeded) :
    ∃ s,status=some s ∧ s.state=some .succeeded := by
  unfold derivedState at h
  split at h
  next => exact nomatch h
  next s =>
    split at h
    next => exact nomatch h
    next state hstate =>
      split at h
      next => exact nomatch h
      next => exact ⟨s,rfl,hstate.trans (congrArg some (Reported.stored.inj h))⟩

/-- What a reader's body shows, where it is begun under the status that was read. -/
abbrev Shows (fingerprint : Bytes → Digest) (i : ι) (process : Process Command ι) (decode : Bytes → PyStr)
    (p : JobM Command ι Shown) (stage : Stage) : Prop :=
  Follows (JobTurn fingerprint i process) (fun r stage' => ∀ shown,r=.ok shown → Presents decode stage' shown) p stage

/-- A lookup of the key, and what is made of the execution it finds. -/
theorem looks_found {key : ExecutionKey} {decode : Bytes → PyStr} {body : MlExecution → JobM Command ι Shown}
    (hp : process.reads=some job) (hidle : stage.phase.task=.idle)
    (hbody : ∀ e stage',Looked stage stage' → e∈stage'.gathered.loaded →
      Looks fingerprint i process (fun shown stage' => Presents decode stage' shown) (body e) stage') :
    Looks fingerprint i process (fun shown stage' => Presents decode stage' shown)
      ((port (.store (.findCurrent key)) : JobM Command ι (Option MlExecution)) >>= fun found => match found with
        | none => pure (.told 4)
        | some e => body e) stage := by
  have hfind : Looks fingerprint i process (fun found stage' => ∀ e,found=some e → e∈stage'.gathered.loaded)
      (port (.store (.findCurrent key)) : JobM Command ι (Option MlExecution)) stage := by
    refine looks_port hp hidle rfl fun found e heq => ?_
    subst heq
    exact List.mem_cons_self
  refine looks_then hfind fun found stage' hlooked hloaded => ?_
  cases found with
  | none => exact looks_pure hlooked.idle trivial
  | some e => exact hbody e stage' hlooked (hloaded e rfl)

/-- `cmd_execution_result` prints what it read. -/
theorem looks_printResult (hp : process.reads=some job) (hidle : stage.phase.task=.idle) (decode : Bytes → PyStr)
    (key : ExecutionKey) {status : JobStatus} (hstatus : stage.status=some status)
    (hsucceeded : status.state=some .succeeded) :
    Looks fingerprint i process (fun shown stage' => Presents decode stage' shown)
      (printResult decode key (status.exitCode.getD 0) : JobM Command ι Shown) stage := by
  refine looks_found hp hidle fun e stage₁ hlooked hloaded => ?_
  refine looks_then (looks_storedArtifactText hp hlooked.idle decode e .stdout) fun out stage₂ hlooked₂ hout => ?_
  refine looks_then (looks_storedArtifactText hp hlooked₂.idle decode e .stderr) fun err stage₃ hlooked₃ herr => ?_
  have hlater := hlooked₂.trans hlooked₃
  refine looks_pure hlooked₃.idle ⟨e,hlater.loaded hloaded,status,?_,hsucceeded,rfl,fun hmissed => ⟨?_,herr hmissed⟩⟩
  · exact (hlooked.trans hlater).status.trans hstatus
  · exact (hout (hlooked₃.missed hmissed)).mono hlooked₃.got

/-- `cmd_execution_materialize` writes what it read. -/
theorem looks_writeResult (hp : process.reads=some job) (hidle : stage.phase.task=.idle) (decode : Bytes → PyStr)
    (inside : PyStr → Bool) (key : ExecutionKey) {status : JobStatus} (hstatus : stage.status=some status)
    (hsucceeded : status.state=some .succeeded) :
    Looks fingerprint i process (fun shown stage' => Presents decode stage' shown)
      (writeResult inside key : JobM Command ι Shown) stage := by
  refine looks_found hp hidle fun e stage₁ hlooked hloaded => ?_
  refine looks_then (looks_aside hlooked.idle rfl) fun _ stage₂ hlooked₂ _ => ?_
  refine looks_then (looks_materializeOutputFiles hp hlooked₂.idle inside e.artifacts) fun files stage₃ hlooked₃ hfiles => ?_
  have hlater := hlooked₂.trans hlooked₃
  refine looks_pure hlooked₃.idle ⟨e,hlater.loaded hloaded,status,?_,hsucceeded,hfiles⟩
  exact (hlooked.trans hlater).status.trans hstatus

/-- What both readers do before they read the store. -/
theorem shows_withSucceeded {decode : Bytes → PyStr} (hp : process.reads=some job) {pending interrupted failed : ℤ}
    {body : ExecutionKey → ℤ → JobM Command ι Shown}
    (hbody : ∀ key status stage,stage.phase.task=.idle → stage.status=some status → status.state=some .succeeded →
      Looks fingerprint i process (fun shown stage' => Presents decode stage' shown)
        (body key (status.exitCode.getD 0)) stage) (hidle : stage.phase.task=.idle) :
    Shows fingerprint i process decode (withSucceeded job pending interrupted failed body) stage := by
  have hraised : ∀ (e : PyExc) stage' shown,(.error e : Except PyExc Shown)=.ok shown → Presents decode stage' shown :=
    fun _ _ _ hok => nomatch hok
  have htold : ∀ {code : ℤ} {stage' : Stage},Shows fingerprint i process decode
      (pure (.told code) : JobM Command ι Shown) stage' :=
    fun {code stage'} => Follows.pure fun shown hok => by rw [← Except.ok.inj hok]; trivial
  refine Follows.perform_bind (fun there => ⟨stage,.aside rfl,?_⟩) fun e => ⟨stage,.aside rfl,hraised e stage⟩
  cases there with
  | false => exact htold
  | true => ?_
  refine Follows.perform_bind (fun status => ⟨{ stage with status := status },.readStatus hp status,?_⟩)
    fun e => ⟨stage,.readRaised,hraised e stage⟩
  refine Follows.perform_bind (fun held => ⟨_,.aside rfl,?_⟩) fun e => ⟨_,.aside rfl,hraised e _⟩
  cases hstate : derivedState status held with
  | interrupted | unknown => exact htold
  | stored state =>
    cases state with
    | submitted | running | failed => exact htold
    | succeeded =>
      obtain ⟨s,rfl,hs⟩ := derivedState_succeeded hstate
      cases hkey : s.executionKey with
      | none =>
        simp only [hkey,Option.bind_some]
        exact htold
      | some key =>
        simp only [hkey,Option.bind_some]
        refine Follows.attempt_seq (hbody key s { stage with status := some s } hidle rfl hs) fun r stage' hr => ?_
        cases r with
        | ok shown => exact Follows.pure fun shown' hok => by rw [← Except.ok.inj hok]; exact hr.2 shown rfl
        | error e => exact Follows.ite (fun _ => htold) fun _ => Follows.raise (hraised e stage')

end Readers

section Condition
variable {Command ι : Type}

/-- A reader's lookup finds what its job's worker returned, or nothing, and its blobs are there; a
run is finalized with all the documents that were persisted for it. -/
def FindsOwn (processes : ι → Process Command ι) (i : ι) (s : JobSite ι) : Call Command → Prop
  | .store (.findCurrent key) => ∀ job∈(processes i).reads,∀ row∈s.world.db.currentRow key,
      (s.returned job).map (·.executionId)=some row.executionId
  | .blobGet key => (processes i).reads.isSome=true → (s.world.blobs.get key).isSome=true
  | .store (.finalizeOutputPersisted id) => ∀ row∈s.world.db.executions,row.executionId=id →
      List.Forall₂ IsRowOf ((s.gathered i).documents id) (outputRows row.artifacts)
  | _ => True

/-- What holds of the jobs' statuses, of what workers returned and of what readers found. -/
structure JobsStand (fingerprint : Bytes → Digest) (processes : ι → Process Command ι) (stages : ι → Stage)
    (s : JobSite ι) : Prop where
  /-- The stages gathered what the processes were answered. -/
  gathered : ∀ i,(stages i).gathered=s.gathered i
  /-- What callers hold is of their own runs. -/
  owned : Owned fingerprint (fun i => (stages i).phase.task) s.gathered s.world
  /-- A worker's execution is returned once, at its end. -/
  returned : ∀ job E,s.returned job=some E → (stages job).ended=true ∧ Returned (s.gathered job) E
  /-- A job that succeeded has the exit code of what its worker returned. -/
  succeeded : ∀ job status,s.status job=some status → status.state=some .succeeded →
    ∃ E,s.returned job=some E ∧ status.exitCode=some (runExitCode E)
  /-- So has one that a reader read as succeeded. -/
  read : ∀ i job,(processes i).reads=some job → ∀ status,(stages i).status=some status →
    status.state=some .succeeded → ∃ E,s.returned job=some E ∧ status.exitCode=some (runExitCode E)
  /-- What a reader loaded is what some worker returned. -/
  found : ∀ i job,(processes i).reads=some job → ∀ e∈(s.gathered i).loaded,
    ∃ E,s.returned job=some E ∧ E.executionId=e.executionId
  /-- No reader missed a blob. -/
  there : ∀ i job,(processes i).reads=some job → (s.gathered i).missed=false

variable {fingerprint : Bytes → Digest} {locks : LockMode} {faults : Faults Command} {thread : ι → ThreadId}
variable {processes : ι → Process Command ι} {stages : ι → Stage} {s s' : JobSite ι} {i : ι} {stage' : Stage}

/-- What became known of a job is not of a worker whose run goes on. -/
theorem JobsStand.returned_ne (h : JobsStand fingerprint processes stages s) (hended : (stages i).ended=false) {job : ι}
    {E : MlExecution} (hE : s.returned job=some E) : job≠i := by
  rintro rfl
  rw [(h.returned job E hE).1] at hended
  exact nomatch hended

/-- A finalized run has all the documents that were persisted for it. -/
theorem findsOwn_finalized {call : Call Command} {r : Except PyExc call.Ret} (h : FindsOwn processes i s call)
    {id : ExecutionId} (hgain : gainOf call r=some (.finalized id)) :
    ∀ row∈s.world.db.executions,row.executionId=id →
      List.Forall₂ IsRowOf ((s.gathered i).documents id) (outputRows row.artifacts) := by
  cases call with
  | store storeCall =>
    cases storeCall with
    | finalizeOutputPersisted id' =>
      cases r with
      | error e => exact nomatch hgain
      | ok u =>
        cases hgain
        exact h
    | findCurrent =>
      cases r with
      | error e => exact nomatch hgain
      | ok found => cases found <;> exact nomatch hgain
    | _ => cases r <;> exact nomatch hgain
  | blobGet =>
    cases r with
    | error e => exact nomatch hgain
    | ok found => cases found <;> exact nomatch hgain
  | _ => cases r <;> exact nomatch hgain

/-- What a reader looks for is its job's, and is there. -/
theorem findsOwn_look {call : Call Command} {r : Except PyExc call.Ret} {w' : World} {thread : ThreadId}
    (h : FindsOwn processes i s call) (hans : Answers locks faults thread call s.world r w') {job : ι}
    (hp : (processes i).reads=some job) (hlook : isLook call=true) :
    (∀ e,gainOf call r=some (.loaded e) → ∃ E,s.returned job=some E ∧ E.executionId=e.executionId) ∧
      gainOf call r≠some .missed := by
  cases call with
  | store storeCall =>
    cases storeCall with
    | findCurrent key =>
      refine ⟨fun e hgain => ?_,fun hgain => ?_⟩
      · obtain ⟨key',hfind⟩ := (answers_gain hans).2.2.2 e hgain
        cases r with
        | error e => exact nomatch hgain
        | ok found =>
          cases found with
          | none => exact nomatch hgain
          | some loaded =>
            cases hgain
            rcases answers_store hans with ⟨now,a,db,htransact,hok,_⟩ | ⟨e,herror,_⟩
            · cases hok
              obtain ⟨row,hrow,hload⟩ := findCurrent_some (reading_ok.mp htransact).1
              have hown : (s.returned job).map (·.executionId)=some row.executionId := h job hp row hrow
              obtain ⟨E,hE,hid⟩ := Option.map_eq_some_iff.mp hown
              exact ⟨E,hE,hid.trans (loadExecution_ok hload).1.symm⟩
            · exact nomatch herror
      · cases r with
        | error e => exact nomatch hgain
        | ok found => cases found <;> exact nomatch hgain
    | _ => exact nomatch hlook
  | blobGet key =>
    have hthere : (s.world.blobs.get key).isSome=true := h (by rw [hp]; rfl)
    refine ⟨fun e hgain => ?_,fun hgain => ?_⟩
    · cases r with
      | error e => exact nomatch hgain
      | ok found => cases found <;> exact nomatch hgain
    · cases hans with
      | fault => exact nomatch hgain
      | blobGet =>
        obtain ⟨content,hcontent⟩ := Option.isSome_iff_exists.mp hthere
        rw [hcontent] at hgain
        exact nomatch hgain
  | _ => exact nomatch hlook

variable [DecidableEq ι]

/-- A property of every stage, after one process moved on. -/
theorem stages_cases {P : ι → Stage → Prop} (hself : P i stage') (hother : ∀ j,P j (stages j)) (j : ι) :
    P j (Function.update stages i stage' j) := by
  by_cases hj : j=i
  · subst hj
    rwa [Function.update_self]
  · rw [Function.update_of_ne hj]
    exact hother j

/-- A process moves on within its files, and nothing else changes. -/
theorem JobsStand.aside (h : JobsStand fingerprint processes stages s) (hphase : stage'.phase=(stages i).phase)
    (hgathered : stage'.gathered=(stages i).gathered) (hended : (stages i).ended=true → stage'.ended=true)
    (hread : ∀ job,(processes i).reads=some job → ∀ status,stage'.status=some status →
      status.state=some .succeeded → ∃ E,s.returned job=some E ∧ status.exitCode=some (runExitCode E)) :
    JobsStand fingerprint processes (Function.update stages i stage') s where
  gathered := stages_cases (P := fun j stage => stage.gathered=s.gathered j) (hgathered.trans (h.gathered i)) h.gathered
  owned := by
    have htasks : (fun j => (Function.update stages i stage' j).phase.task)=fun j => (stages j).phase.task := by
      funext j
      refine stages_cases (P := fun j stage => stage.phase.task=(stages j).phase.task) ?_ (fun _ => rfl) j
      rw [hphase]
    rw [htasks]
    exact h.owned
  returned := by
    intro job E hE
    obtain ⟨hbefore,hreturned⟩ := h.returned job E hE
    refine ⟨?_,hreturned⟩
    by_cases hj : job=i
    · subst hj
      rw [Function.update_self]
      exact hended hbefore
    · rwa [Function.update_of_ne hj]
  succeeded := h.succeeded
  read := stages_cases (P := fun j stage => ∀ job,(processes j).reads=some job → ∀ status,
    stage.status=some status → status.state=some .succeeded →
      ∃ E,s.returned job=some E ∧ status.exitCode=some (runExitCode E)) hread h.read
  found := h.found
  there := h.there

/-- A worker whose run goes on makes something known. -/
theorem JobsStand.update (h : JobsStand fingerprint processes stages s) (hended : (stages i).ended=false)
    {outcome : Outcome} {status : Option JobStatus}
    (hreturned : ∀ execution,outcome=.succeeded execution → Returned (stages i).gathered execution)
    (hstage : (∃ execution,outcome=.succeeded execution) → stage'.ended=true)
    (hphase : stage'.phase=(stages i).phase) (hgathered : stage'.gathered=(stages i).gathered)
    (hstatus : stage'.status=(stages i).status) :
    JobsStand fingerprint processes (Function.update stages i stage') { s with
      status := Function.update s.status i (some (outcome.merge (status.getD {})))
      returned := Function.update s.returned i (outcome.returned (s.returned i)) } := by
  have hmoved : JobsStand fingerprint processes (Function.update stages i stage') s :=
    h.aside hphase hgathered (fun htrue => by rw [hended] at htrue; exact nomatch htrue)
      fun job hp status hs => h.read i job hp status (hstatus.symm.trans hs)
  have hkept : ∀ {job : ι} {E : MlExecution},s.returned job=some E →
      Function.update s.returned i (outcome.returned (s.returned i)) job=some E := by
    intro job E hE
    rwa [Function.update_of_ne (h.returned_ne hended hE)]
  refine
    { gathered := hmoved.gathered
      owned := hmoved.owned
      returned := ?_
      succeeded := ?_
      read := ?_
      found := ?_
      there := hmoved.there }
  · intro job E hE
    by_cases hj : job=i
    · subst hj
      have hE' : outcome.returned (s.returned job)=some E := by simpa using hE
      cases outcome with
      | succeeded execution =>
        cases hE'
        rw [Function.update_self]
        exact ⟨hstage ⟨E,rfl⟩,h.gathered job ▸ hreturned E rfl⟩
      | running | failed => exact absurd rfl (h.returned_ne hended hE')
    · have hE' : s.returned job=some E := by simpa [hj] using hE
      exact hmoved.returned job E hE'
  · intro job status' hs hstate
    by_cases hj : job=i
    · subst hj
      have hs' : outcome.merge (status.getD {})=status' := by simpa using hs
      subst hs'
      cases outcome with
      | succeeded execution => exact ⟨execution,by simp [Outcome.returned],rfl⟩
      | running | failed => exact nomatch hstate
    · have hs' : s.status job=some status' := by simpa [hj] using hs
      obtain ⟨E,hE,hcode⟩ := h.succeeded job status' hs' hstate
      exact ⟨E,hkept hE,hcode⟩
  · intro j job hp status' hs hstate
    obtain ⟨E,hE,hcode⟩ := hmoved.read j job hp status' hs hstate
    exact ⟨E,hkept hE,hcode⟩
  · intro j job hp e hmem
    obtain ⟨E,hE,hid⟩ := h.found j job hp e hmem
    exact ⟨E,hkept hE,hid⟩

/-- A process calls a port. -/
theorem JobsStand.port (h : JobsStand fingerprint processes stages s) {call : Call Command}
    {r : Except PyExc call.Ret} {w' : World} {φ' : Phase}
    (howned : Owned fingerprint (Function.update (fun j => (stages j).phase.task) i φ'.task)
      (gatheredAfter s.gathered i call r) w')
    (hreturned : ∀ E,s.returned i=some E → Extends (s.gathered i) (watchGathered call r (s.gathered i)))
    (hfound : ∀ job,(processes i).reads=some job → ∀ e,gainOf call r=some (.loaded e) →
      ∃ E,s.returned job=some E ∧ E.executionId=e.executionId)
    (hthere : ∀ job,(processes i).reads=some job → gainOf call r≠some .missed) :
    JobsStand fingerprint processes
      (Function.update stages i ⟨φ',watchGathered call r (stages i).gathered,(stages i).status,(stages i).ended⟩)
      { s with world := w', gathered := gatheredAfter s.gathered i call r } where
  gathered := by
    intro j
    show _=gatheredAfter s.gathered i call r j
    by_cases hj : j=i
    · subst hj
      rw [Function.update_self,gatheredAfter,Function.update_self,h.gathered j]
    · rw [Function.update_of_ne hj,gatheredAfter,Function.update_of_ne hj]
      exact h.gathered j
  owned := by
    have htasks : (fun j => (Function.update stages i
        ⟨φ',watchGathered call r (stages i).gathered,(stages i).status,(stages i).ended⟩ j).phase.task)=
        Function.update (fun j => (stages j).phase.task) i φ'.task := by
      funext j
      by_cases hj : j=i
      · subst hj
        rw [Function.update_self,Function.update_self]
      · rw [Function.update_of_ne hj,Function.update_of_ne hj]
    rw [htasks]
    exact howned
  returned := by
    intro job E hE
    obtain ⟨hended,hbefore⟩ := h.returned job E hE
    show _ ∧ Returned (gatheredAfter s.gathered i call r job) E
    by_cases hj : job=i
    · subst hj
      rw [Function.update_self,gatheredAfter,Function.update_self]
      exact ⟨hended,hbefore.mono (hreturned E hE)⟩
    · rw [Function.update_of_ne hj,gatheredAfter,Function.update_of_ne hj]
      exact ⟨hended,hbefore⟩
  succeeded := h.succeeded
  read := stages_cases (P := fun j stage => ∀ job,(processes j).reads=some job → ∀ status,
    stage.status=some status → status.state=some .succeeded →
      ∃ E,s.returned job=some E ∧ status.exitCode=some (runExitCode E)) (h.read i) h.read
  found := by
    intro j job hp
    refine gatheredAfter_cases (P := fun j g => (processes j).reads=some job → ∀ e∈g.loaded,
      ∃ E,s.returned job=some E ∧ E.executionId=e.executionId) (fun hp e hmem => ?_) (fun k _ hp => h.found k job hp) j hp
    rcases mem_watch_loaded.mp hmem with hgain | hmem
    · exact hfound job hp e hgain
    · exact h.found i job hp e hmem
  there := by
    intro j job hp
    refine gatheredAfter_cases (P := fun j g => (processes j).reads=some job → g.missed=false) (fun hp => ?_)
      (fun k _ hp => h.there k job hp) j hp
    have hbefore := h.there i job hp
    unfold watchGathered
    cases hgain : gainOf call r with
    | none => exact hbefore
    | some gain =>
      cases gain with
      | missed => exact absurd hgain (hthere job hp)
      | _ => exact hbefore

/-- Every turn of a process keeps what holds of jobs, where the condition is met. -/
theorem keeps_jobs : PoolKeeps (fun i => JobTurn fingerprint i (processes i))
    (fun i => JobMeans locks faults thread (FindsOwn processes) i) (JobsStand fingerprint processes) := by
  intro stages i call r stage' s s' hturn hmeans h
  have hsame : (stages i).ended=true → (stages i).ended=true := fun hended => hended
  cases hmeans with
  | @port _ call r w' hallowed hans =>
    generalize hstage : stages i=stage at hturn
    cases hturn with
    | @serve φ φ' g status _ _ hp hturn =>
      have htask : φ.task=(stages i).phase.task := by rw [hstage]
      have hdocuments := h.owned.documents i
      have hunlisted := h.owned.unlisted i
      rw [← htask] at hdocuments hunlisted
      have howned : Owned fingerprint (Function.update (fun j => (stages j).phase.task) i φ'.task)
          (gatheredAfter s.gathered i call r) w' := by
        refine h.owned.step hans (htask ▸ turn_orderly hturn hdocuments hunlisted)
          (turn_documents hturn hans hdocuments) (turn_listed rfl hturn hans hunlisted) (fun id hid => ?_)
          fun id hgain => findsOwn_finalized hallowed hgain
        exact htask ▸ turn_recorded hturn hans hid
      have hport := h.port howned ?_ (fun job hread => ?_) fun job hread => ?_
      · rw [hstage] at hport
        exact hport
      · intro E hE
        have hended := (h.returned i E hE).1
        rw [hstage] at hended
        exact nomatch hended
      · rw [hp] at hread
        exact nomatch hread
      · rw [hp] at hread
        exact nomatch hread
    | @look φ g status ended _ _ job hp hlook hidle =>
      have htask : (stages i).phase.task=.idle := by rw [hstage]; exact hidle
      have horderly : Orderly fingerprint (stages i).phase.task call r := by
        cases r with
        | error e =>
          cases call with
          | store storeCall => cases storeCall <;> trivial
          | _ => trivial
        | ok a =>
          cases call with
          | store storeCall => cases storeCall <;> trivial
          | _ => trivial
      have hidle' : recorded φ.task=none := by rw [hidle]; rfl
      have howned : Owned fingerprint (Function.update (fun j => (stages j).phase.task) i φ.task)
          (gatheredAfter s.gathered i call r) w' := by
        refine h.owned.step hans horderly (by rw [hidle]; trivial) (by rw [hidle]; rfl) (fun id hid => ?_)
          fun id hgain => findsOwn_finalized hallowed hgain
        rw [hidle'] at hid
        exact nomatch hid
      have hreading : isReading call=true := by
        cases call with
        | store storeCall => cases storeCall <;> first | rfl | exact nomatch hlook
        | _ => rfl
      have hport := h.port howned (fun _ _ => extends_watch hreading r _) (fun job' hread => ?_) fun job' hread => ?_
      · rw [hstage] at hport
        exact hport
      · exact (findsOwn_look hallowed hans hread hlook).1
      · exact (findsOwn_look hallowed hans hread hlook).2
  | fileFault =>
    generalize hstage : stages i=stage at hturn
    cases hturn with
    | readRaised | aside | update =>
      subst hstage
      exact h.aside rfl rfl hsame fun job hp => h.read i job hp
    | succeed =>
      subst hstage
      exact h.aside rfl rfl (fun _ => rfl) fun job hp => h.read i job hp
  | readStatus hstatus =>
    generalize hstage : stages i=stage at hturn
    cases hturn with
    | readStatus hp =>
      subst hstage
      refine h.aside rfl rfl hsame fun job' hp' status hs hstate => ?_
      rw [hp] at hp'
      cases hp'
      rcases hstatus with rfl | rfl
      · exact nomatch hs
      · exact h.succeeded _ status hs hstate
    | aside haside => exact nomatch haside
  | updateStatus =>
    generalize hstage : stages i=stage at hturn
    cases hturn with
    | update hended hnot =>
      subst hstage
      exact h.update hended (fun execution heq => absurd heq (hnot execution))
        (fun hex => hex.elim fun execution heq => absurd heq (hnot execution)) rfl rfl rfl
    | succeed hended hreturned =>
      subst hstage
      refine h.update hended (fun execution heq => ?_) (fun _ => rfl) rfl rfl rfl
      cases heq
      exact hreturned
    | aside haside => exact nomatch haside
  | _ =>
    generalize hstage : stages i=stage at hturn
    cases hturn
    subst hstage
    exact h.aside rfl rfl hsame fun job hp => h.read i job hp

end Condition

section Showing
variable {decode : Bytes → PyStr}

/-- The text of the first artifact of a type. -/
def textOf (decode : Bytes → PyStr) (artifacts : List Artifact) (artifactType : ArtifactType) : PyStr :=
  match firstOf artifacts artifactType with
  | none => []
  | some a => decode (a.content.getD [])

/-- The named files among artifacts. -/
def filesOf (artifacts : List Artifact) : List (PyStr × Bytes) :=
  (artifacts.filter isNamedFile).map fun a => (a.name.getD [],a.content.getD [])

/-- What is shown is the output of what the worker returned, with its exit code. -/
def IsResultOf (decode : Bytes → PyStr) (returned : Option MlExecution) : Shown → Prop
  | .told _ => True
  | .printed out err code => ∃ E,returned=some E ∧ out=textOf decode E.artifacts .stdout ∧
      err=textOf decode E.artifacts .stderr ∧ code=runExitCode E
  | .wrote files => ∃ E,returned=some E ∧ files=filesOf E.artifacts

/-- Corresponding artifacts of the same types have corresponding first ones. -/
theorem firstOf_forall₂ {R : Artifact → Artifact → Prop} (hR : ∀ a b,R a b → b.artifactType=a.artifactType)
    {as bs : List Artifact} (h : List.Forall₂ R as bs) (artifactType : ArtifactType) :
    (firstOf as artifactType=none ∧ firstOf bs artifactType=none) ∨
      ∃ a b,firstOf as artifactType=some a ∧ firstOf bs artifactType=some b ∧ R a b := by
  induction h with
  | nil => exact Or.inl ⟨rfl,rfl⟩
  | @cons a b as bs hab _ ih =>
    by_cases ha : a.artifactType=artifactType
    · have hb : b.artifactType=artifactType := (hR a b hab).trans ha
      exact Or.inr ⟨a,b,by simp [firstOf,ha],by simp [firstOf,hb],hab⟩
    · have hb : b.artifactType≠artifactType := fun hb => ha ((hR a b hab).symm.trans hb)
      have hfirst : firstOf (a::as) artifactType=firstOf as artifactType := by simp [firstOf,ha]
      have hfirst' : firstOf (b::bs) artifactType=firstOf bs artifactType := by simp [firstOf,hb]
      rw [hfirst,hfirst']
      exact ih

/-- The first artifact of an output type is the first one of the output. -/
theorem firstOf_outputs {artifactType : ArtifactType} (h : artifactType.isInput=false) (e : MlExecution) :
    firstOf (outputs e) artifactType=firstOf e.artifacts artifactType := by
  unfold firstOf outputs
  rw [List.find?_filter]
  congr 1
  funext a
  by_cases ha : a.artifactType=artifactType
  · simp [ha,h]
  · simp [ha]

/-- The named files are output. -/
theorem namedFiles_outputs (e : MlExecution) : (outputs e).filter isNamedFile=e.artifacts.filter isNamedFile := by
  unfold outputs
  rw [List.filter_filter]
  congr 1
  funext a
  cases ha : a.artifactType <;> simp [isNamedFile,ha,ArtifactType.isInput]

/-- What a reader read of a finished run is the text of its documents. -/
theorem text_of_read {fingerprint : Bytes → Digest} (hinj : Function.Injective fingerprint) {id : ExecutionId}
    {documents : List Artifact} (hdocs : ∀ d∈documents,IsDocument fingerprint id d) {e : MlExecution}
    (hrows : List.Forall₂ IsLoadedOf documents (outputs e)) {got : List (BlobKey × Bytes)}
    (hgot : ∀ entry∈got,Addressed fingerprint entry.1 entry.2) {artifactType : ArtifactType}
    (htype : artifactType.isInput=false) {text : PyStr} (hread : ReadsAs decode got e.artifacts artifactType text) :
    text=textOf decode documents artifactType := by
  have hmembers : List.Forall₂ (fun d a => d∈documents ∧ IsLoadedOf d a) documents (outputs e) :=
    (List.forall₂_and_left _ _).mpr ⟨fun _ hd => hd,hrows⟩
  have htypes : ∀ d a,d∈documents ∧ IsLoadedOf d a → a.artifactType=d.artifactType :=
    fun _ _ hda => Column.value.inj hda.2.1.1
  unfold ReadsAs at hread
  rw [← firstOf_outputs htype] at hread
  unfold textOf
  rcases firstOf_forall₂ htypes hmembers artifactType with ⟨hd,ha⟩ | ⟨d,a,hd,ha,hda⟩
  · rw [ha] at hread
    rw [hd]
    exact hread
  · rw [ha] at hread
    obtain ⟨content,hmem,htext⟩ := hread hda.2.2
    have hcontent := content_of_read hinj (hdocs d hda.1) hda.2.1 (hgot _ hmem)
    rw [hd,htext]
    simp only [hcontent,Option.getD_some]

/-- What a worker returned has the text of its run's documents. -/
theorem textOf_delivered {documents : List Artifact} {E : MlExecution} (h : List.Forall₂ Delivers documents (outputs E))
    {artifactType : ArtifactType} (htype : artifactType.isInput=false) :
    textOf decode E.artifacts artifactType=textOf decode documents artifactType := by
  have htypes : ∀ d a,Delivers d a → a.artifactType=d.artifactType := fun _ _ hda => hda.1
  unfold textOf
  rw [← firstOf_outputs htype]
  rcases firstOf_forall₂ htypes h artifactType with ⟨hd,ha⟩ | ⟨d,a,hd,ha,hda⟩
  · rw [hd,ha]
  · rw [hd,ha]
    simp only [hda.2.2]

/-- Named documents are named files of what has them. -/
theorem namedFiles_forall₂ {R : Artifact → Artifact → Prop} {documents artifacts : List Artifact}
    (hR : ∀ d a,R d a → a.artifactType=d.artifactType ∧ a.name=d.name) (h : List.Forall₂ R documents artifacts) :
    List.Forall₂ R (documents.filter isNamedFile) (artifacts.filter isNamedFile) :=
  List.rel_filter (fun d a hda => by simp only [isNamedFile,(hR d a hda).1,(hR d a hda).2]) h

/-- What a reader wrote of a finished run are the files among its documents. -/
theorem files_of_read {fingerprint : Bytes → Digest} (hinj : Function.Injective fingerprint) {id : ExecutionId}
    {documents : List Artifact} (hdocs : ∀ d∈documents,IsDocument fingerprint id d) {e : MlExecution}
    (hrows : List.Forall₂ IsLoadedOf documents (outputs e)) {got : List (BlobKey × Bytes)}
    (hgot : ∀ entry∈got,Addressed fingerprint entry.1 entry.2) {files : List (PyStr × Bytes)}
    (hread : List.Forall₂ (FileOf got) (e.artifacts.filter isNamedFile) files) : files=filesOf documents := by
  have hnamed : List.Forall₂ IsLoadedOf (documents.filter isNamedFile) (e.artifacts.filter isNamedFile) := by
    rw [← namedFiles_outputs]
    exact namedFiles_forall₂ (fun _ _ hda => ⟨Column.value.inj hda.1.1,hda.1.2.1⟩) hrows
  have hmembers := (List.forall₂_and_left _ _).mpr ⟨fun d (hd : d∈documents.filter isNamedFile) => hd,hnamed⟩
  have hfiles : List.Forall₂ (fun d file => (d.name.getD [],d.content.getD [])=file)
      (documents.filter isNamedFile) files := by
    refine forall₂_trans (fun d a file hda hafile => ?_) hmembers hread
    obtain ⟨hd,hrow,hnone⟩ := hda
    have hcontent := content_of_read hinj (hdocs d (List.mem_filter.mp hd).1) hrow (hgot _ (hafile.2 hnone))
    have hname : a.name=d.name := hrow.2.1
    rw [hcontent,Option.getD_some,← hname,← hafile.1]
  have heq : List.Forall₂ Eq (filesOf documents) files := List.forall₂_map_left_iff.mpr hfiles
  rw [List.forall₂_eq_eq_eq] at heq
  exact heq.symm

/-- What a worker returned has the files of its run's documents. -/
theorem filesOf_delivered {documents : List Artifact} {E : MlExecution} (h : List.Forall₂ Delivers documents (outputs E)) :
    filesOf E.artifacts=filesOf documents := by
  have hnamed := namedFiles_forall₂ (fun _ _ hda => ⟨hda.1,hda.2.1⟩) h
  have heq : List.Forall₂ Eq (filesOf documents) (filesOf E.artifacts) := by
    unfold filesOf
    rw [← namedFiles_outputs,List.forall₂_map_left_iff,List.forall₂_map_right_iff]
    exact hnamed.imp fun d a hda => by rw [hda.2.1,hda.2.2]
  rw [List.forall₂_eq_eq_eq] at heq
  exact heq.symm

end Showing

section Runs
variable {Command ι : Type} {fingerprint : Bytes → Digest} {decode : Bytes → PyStr}
variable {inside : PyStr → Bool} {locks : LockMode} {faults : Faults Command} {thread : ι → ThreadId}
variable {processes : ι → Process Command ι}

/-- The processes before their first calls. -/
abbrev submitted (fingerprint : Bytes → Digest) (decode : Bytes → PyStr) (inside : PyStr → Bool)
    (processes : ι → Process Command ι) :
    Pool (JobCall Command ι) JobCall.Ret PyExc (fun _ : ι => Shown) (JobSite ι) :=
  (fun i => jobProgram fingerprint decode inside i (processes i),JobSite.start)

/-- Nothing is known of any job at first. -/
theorem jobsStand_start : JobsStand fingerprint processes (fun _ => Stage.start) JobSite.start where
  gathered _ := rfl
  owned :=
    { addressed := fun key _ hget => by
        rw [show JobSite.start.world.blobs.get key=none from BlobStore.get_empty key] at hget
        cases hget
      mintedIn := fun _ _ hmem => (by cases hmem)
      mintedOnce := fun _ _ _ hmem => (by cases hmem)
      documents := fun _ => trivial
      unlisted := fun _ => rfl
      recording := fun _ _ hid => (by cases hid)
      finalizedIn := fun _ _ hmem => (by cases hmem)
      written := fun _ _ hmem => (by cases hmem)
      got := fun _ _ hmem => (by cases hmem)
      rows := fun _ hrow => (by cases hrow)
      loaded := fun _ _ hmem => (by cases hmem)}
  returned := fun _ _ hE => (by cases hE)
  succeeded := by
    intro job status hs hstate
    cases hs
    cases hstate
  read := fun _ _ _ _ hs => (by cases hs)
  found := fun _ _ _ _ hmem => (by cases hmem)
  there := fun _ _ _ => rfl

/-- A reader shows what it loaded and read. -/
theorem follows_jobProgram (i : ι) (process : Process Command ι) :
    Follows (JobTurn fingerprint i process) (fun r stage => ∀ job,process.reads=some job →
      ∀ shown,r=.ok shown → Presents decode stage shown)
      (jobProgram fingerprint decode inside i process) Stage.start := by
  cases process with
  | worker service command => exact (follows_runJob service command).weaken fun _ _ _ _ hp => nomatch hp
  | operation op hop => exact (follows_operation op hop).weaken fun _ _ _ _ hp => nomatch hp
  | result job =>
    have hshows : Shows fingerprint i (.result job : Process Command ι) decode
        (cmdExecutionResult decode job) Stage.start :=
      shows_withSucceeded rfl (fun key status stage hidle hstatus hsucceeded =>
        looks_printResult rfl hidle decode key hstatus hsucceeded) rfl
    exact hshows.weaken fun _ _ hr _ _ => hr
  | materialize job =>
    have hshows : Shows fingerprint i (.materialize job : Process Command ι) decode
        (cmdExecutionMaterialize inside job) Stage.start :=
      shows_withSucceeded rfl (fun key status stage hidle hstatus hsucceeded =>
        looks_writeResult rfl hidle decode inside key hstatus hsucceeded) rfl
    exact hshows.weaken fun _ _ hr _ _ => hr

variable [DecidableEq ι]

end Runs

section Schedules
variable (allowed : ℕ → JobSite ℕ → Call SmallestCommand → Prop) [∀ i s call,Decidable (allowed i s call)]

/-- One octet for each code point. -/
def latin (content : Bytes) : PyStr := content.map fun octet => Fin.ofNat 0x110000 octet.toNat

/-- An answer is recorded, a job's worker runs the same call in the given mode, and its result is read. -/
def recordedAndJob (mode : CacheMode) : ℕ → Process SmallestCommand ℕ
  | 0 => .operation (.execute smallestService ⟨.cache,.cache⟩) rfl
  | 1 => .worker smallestService ⟨mode,.cache⟩
  | _ => .result 1

/-- A schedule's entry of one process, whose client returns the given result. -/
def jobHandler (i : ℕ) (result : ClientRunResult) : Handler (JobCall SmallestCommand ℕ) JobCall.Ret PyExc (JobSite ℕ)
  | .inl call,s =>
    if allowed i s call then
      (answerWith .exclusive i 0 (.ok result) ⟨i⟩ call s.world).map fun answer =>
        (answer.1,{ s with world := answer.2, gathered := gatheredAfter s.gathered i call answer.1 })
    else none
  | .inr (.exists _),s => some (.ok true,s)
  | .inr (.readStatus job),s => some (.ok (s.status job),s)
  | .inr (.lockHeld _),s => some (.ok false,s)
  | .inr (.updateStatus job outcome),s =>
    some (.ok (),{ s with
      status := Function.update s.status job (some (outcome.merge ((s.status job).getD {})))
      returned := Function.update s.returned job (outcome.returned (s.returned job)) })
  | .inr (.appendEvent _),s => some (.ok (),s)
  | .inr (.makeDirectory _),s => some (.ok (),s)
  | .inr (.writeFile _ _),s => some (.ok (),s)

/-- The entry answers as the calls of a process may. -/
theorem jobHandler_respects (i : ℕ) (result : ClientRunResult) : (jobHandler allowed i result).Respects
    (JobMeans .exclusive (noFaults : Faults SmallestCommand) id allowed i) := by
  intro call s r s' h
  cases call with
  | inl call =>
    simp only [jobHandler] at h
    split at h
    next hallowed =>
      obtain ⟨answer,hanswer,heq⟩ := Option.map_eq_some_iff.mp h
      cases heq
      exact .port hallowed (answerWith_respects 0 _ ⟨i⟩ _ _ _ _ hanswer)
    next => exact nomatch h
  | inr call =>
    cases call with
    | «exists» job =>
      cases h
      exact .exists true
    | readStatus job =>
      cases h
      exact .readStatus (Or.inr rfl)
    | lockHeld job =>
      cases h
      exact .lockHeld false
    | updateStatus job outcome =>
      cases h
      exact .updateStatus (Or.inr rfl)
    | appendEvent job =>
      cases h
      exact .appendEvent
    | makeDirectory name =>
      cases h
      exact .makeDirectory
    | writeFile name content =>
      cases h
      exact .writeFile

/-- The operation, the worker and the reader, one after another. -/
def oneByOne (result : ClientRunResult) :
    List (ℕ × Handler (JobCall SmallestCommand ℕ) JobCall.Ret PyExc (JobSite ℕ)) :=
  List.replicate 40 (0,jobHandler allowed 0 { exitCode := 0, stdout := pyStr "o" }) ++
    List.replicate 40 (1,jobHandler allowed 1 result) ++ List.replicate 10 (2,jobHandler allowed 2 result)

/-- The site after the run. -/
def afterJob (mode : CacheMode) (result : ClientRunResult) :
    Pool (JobCall SmallestCommand ℕ) JobCall.Ret PyExc (fun _ : ℕ => Shown) (JobSite ℕ) :=
  drivePool (oneByOne allowed result) (submitted positional latin (fun _ => true) (recordedAndJob mode))

/-- It is a run. -/
theorem afterJob_reach (mode : CacheMode) (result : ClientRunResult) :
    PoolReach (fun i => JobMeans .exclusive (noFaults : Faults SmallestCommand) id allowed i)
      (submitted positional latin (fun _ => true) (recordedAndJob mode)) (afterJob allowed mode result) := by
  refine drivePool_reach _ (fun entry hmem => ?_) _
  simp only [oneByOne,List.mem_append,List.mem_replicate] at hmem
  rcases hmem with (⟨_,rfl⟩ | ⟨_,rfl⟩) | ⟨_,rfl⟩ <;> exact jobHandler_respects allowed _ _

end Schedules

instance (document : Artifact) (a : ArtifactRow) : Decidable (IsRowOf document a) := by
  unfold IsRowOf
  infer_instance

instance (processes : ℕ → Process SmallestCommand ℕ) (i : ℕ) (s : JobSite ℕ) (call : Call SmallestCommand) :
    Decidable (FindsOwn processes i s call) := by
  unfold FindsOwn
  split <;> infer_instance

end GenericMlCache.JobResults
