import GenericMlCache.DaemonJobs
import GenericMlCache.GroupedCounts
import Mathlib.Data.Fintype.Option
import Mathlib.Data.Fintype.Card

/-!
# What the daemon tells of its jobs

A job goes through its stages once, in order, and each attribute it has follows from its
stage. A response is pieced together from reads at different stages; what its parts may
then say, and which responses are whole, holds whatever the order of the threads' steps.
-/

namespace GenericMlCache.DaemonJobRuns

open PythonText ExecutionModel MlExecutionCommands ReportedHits OrderedDict LabelledRuns DaemonJobs GroupedCounts

/-- The execution that `mark_done` stores. -/
def execution? : Outcome → Option MlExecution
  | .ok execution => some execution
  | .error _ => none

/-- The text that `mark_error` stores. -/
def errorText (text : PyExc → PyStr) : Outcome → Option PyStr
  | .ok _ => none
  | .error exc => some (text exc)

/-- The state that the job ends in. -/
def lastState : Outcome → JobState
  | .ok _ => .done
  | .error _ => .error

/-- What a response shows of the execution. -/
def shown (decodeReplace : Bytes → PyStr) : Outcome → Shown
  | .ok execution => ⟨some execution.callIdentity.generateKey,extractArtifact decodeReplace execution .stdout,
      extractArtifact decodeReplace execution .stderr⟩
  | .error _ => .nothing

/-- The whole response about a job that is over. -/
def wholeResponse (decodeReplace : Bytes → PyStr) (text : PyExc → PyStr) (jobId : PyStr) (outcome : Outcome) :
    JobResponse where
  jobId := jobId
  state := lastState outcome
  executionKey := (shown decodeReplace outcome).executionKey
  stdout := (shown decodeReplace outcome).stdout
  stderr := (shown decodeReplace outcome).stderr
  error := errorText text outcome

/-- What a response says of the execution. -/
def shownBy (response : JobResponse) : Shown := ⟨response.executionKey,response.stdout,response.stderr⟩

section Stages
variable {ι : Type}

/-- How far a job is. -/
inductive Stage (ι : Type) where
  | unmade
  /-- Made by a request that did not queue it yet. -/
  | made (handler : ι)
  | waiting
  | starting (w : Fin maxWorkers)
  | calling (w : Fin maxWorkers)
  | inside (w : Fin maxWorkers)
  | recording (w : Fin maxWorkers) (outcome : Outcome)
  | closing (w : Fin maxWorkers) (outcome : Outcome)
  | signalling (w : Fin maxWorkers) (outcome : Outcome)
  | ended (outcome : Outcome)
  /-- The call raised what `except Exception` does not catch. -/
  | lost (outcome : Outcome) (unmarked : outcome.isMarked=false)

/-- What the call of a job came to. -/
def Stage.outcome? : Stage ι → Option Outcome
  | .recording _ outcome | .closing _ outcome | .signalling _ outcome | .ended outcome | .lost outcome _ =>
    some outcome
  | _ => none

/-- The outcome whose execution or error is stored. -/
def Stage.recorded? : Stage ι → Option Outcome
  | .closing _ outcome | .signalling _ outcome | .ended outcome => some outcome
  | _ => none

/-- The outcome whose last state is stored. -/
def Stage.closed? : Stage ι → Option Outcome
  | .signalling _ outcome | .ended outcome => some outcome
  | _ => none

/-- The outcome of a job whose event is set. -/
def Stage.ended? : Stage ι → Option Outcome
  | .ended outcome => some outcome
  | _ => none

/-- The state of a job at a stage. -/
def Stage.state : Stage ι → JobState
  | .unmade | .made _ | .waiting | .starting _ => .pending
  | .calling _ | .inside _ | .recording _ _ | .closing _ _ | .lost _ _ => .running
  | .signalling _ outcome | .ended outcome => lastState outcome

/-- Whether the call was made. -/
def Stage.isCalled : Stage ι → Bool
  | .inside _ | .recording _ _ | .closing _ _ | .signalling _ _ | .ended _ | .lost _ _ => true
  | _ => false

/-- Whether the pool got the job. -/
def Stage.isQueued : Stage ι → Bool
  | .unmade | .made _ => false
  | _ => true

/-- The thread that works on the job. -/
def Stage.worker? : Stage ι → Option (Fin maxWorkers)
  | .starting w | .calling w | .inside w | .recording w _ | .closing w _ | .signalling w _ => some w
  | _ => none

/-- The job that a thread works on, and how far that is. -/
def stands? (w : Fin maxWorkers) : Work → Option (JobRef × Stage ι)
  | .idle => none
  | .starting job _ => some (job,.starting w)
  | .calling job _ => some (job,.calling w)
  | .inside job => some (job,.inside w)
  | .recording job outcome => some (job,.recording w outcome)
  | .closing job outcome => some (job,.closing w outcome)
  | .signalling job outcome => some (job,.signalling w outcome)

/-- The command that a thread has still to run. -/
def command? : Work → Option (JobRef × RunMlExecutionCommand)
  | .starting job command | .calling job command => some (job,command)
  | _ => none

/-- A thread stands at stages of its own. -/
theorem worker?_of_stands {w : Fin maxWorkers} {work : Work} {job : JobRef} {stage : Stage ι}
    (h : stands? w work=some (job,stage)) : stage.worker?=some w := by
  cases work with
  | idle => exact nomatch h
  | starting | calling | inside | recording | closing | signalling =>
    cases h
    rfl

/-- What is closed is recorded. -/
theorem Stage.recorded_of_closed {stage : Stage ι} {outcome : Outcome} (h : stage.closed?=some outcome) :
    stage.recorded?=some outcome := by
  cases stage <;> first | exact h | exact nomatch h

/-- What is recorded came of the call. -/
theorem Stage.outcome_of_recorded {stage : Stage ι} {outcome : Outcome} (h : stage.recorded?=some outcome) :
    stage.outcome?=some outcome := by
  cases stage <;> first | exact h | exact nomatch h

/-- A state that ends a loop is that of a closed job. -/
theorem Stage.closed_of_isOver {stage : Stage ι} (h : stage.state.isOver=true) :
    ∃ outcome,stage.closed?=some outcome ∧ stage.state=lastState outcome := by
  cases stage with
  | signalling w outcome => exact ⟨outcome,rfl,rfl⟩
  | ended outcome => exact ⟨outcome,rfl,rfl⟩
  | unmade | made | waiting | starting | calling | inside | recording | closing | lost => exact nomatch h

/-- A closed job is in the last state of its outcome. -/
theorem Stage.state_of_closed {stage : Stage ι} {outcome : Outcome} (h : stage.closed?=some outcome) :
    stage.state=lastState outcome := by
  cases stage with
  | signalling | ended =>
    cases h
    rfl
  | unmade | made | waiting | starting | calling | inside | recording | closing | lost => exact nomatch h

/-- A call that was made is not over exactly while its thread is inside. -/
theorem Stage.inside_of_called {stage : Stage ι} (h : stage.isCalled=true) (hout : stage.outcome?=none) :
    ∃ w,stage=.inside w := by
  cases stage with
  | inside w => exact ⟨w,rfl⟩
  | recording | closing | signalling | ended | lost => exact nomatch hout
  | unmade | made | waiting | starting | calling => exact nomatch h

/-- The attributes of a job are those of its stage. -/
structure Fits (text : PyExc → PyStr) (stage : Stage ι) (job : Job) : Prop where
  /-- Its state. -/
  state : job.state=stage.state
  /-- Its execution, where the run returned one. -/
  execution : job.execution=stage.recorded?.bind execution?
  /-- Its error, where the run raised. -/
  error : job.error=stage.recorded?.bind (errorText text)
  /-- Whether its event is set. -/
  doneEvent : job.doneEvent=stage.ended?.isSome

/-- A stage has everything an earlier one had. -/
structure Stage.Grows (a b : Stage ι) : Prop where
  /-- What was made stays made. -/
  made : a≠.unmade → b≠.unmade
  /-- What was queued stays queued. -/
  queued : a.isQueued=true → b.isQueued=true
  /-- A recorded outcome stays. -/
  recorded : ∀ outcome,a.recorded?=some outcome → b.recorded?=some outcome
  /-- So does the outcome of what is closed. -/
  closed : ∀ outcome,a.closed?=some outcome → b.closed?=some outcome

/-- A stage that stays has everything it had. -/
theorem Stage.Grows.refl (a : Stage ι) : a.Grows a := ⟨id,id,fun _ => id,fun _ => id⟩

/-- What a later stage has, a still later one has. -/
theorem Stage.Grows.trans {a b c : Stage ι} (h : a.Grows b) (h' : b.Grows c) : a.Grows c where
  made := h'.made ∘ h.made
  queued := h'.queued ∘ h.queued
  recorded outcome := h'.recorded outcome ∘ h.recorded outcome
  closed outcome := h'.closed outcome ∘ h.closed outcome

/-- Stages without a record may be followed by any that are made. -/
theorem Stage.Grows.of_unrecorded {a b : Stage ι} (ha : a.recorded?=none) (hb : b≠.unmade)
    (hqueued : a.isQueued=true → b.isQueued=true) : a.Grows b where
  made _ := hb
  queued := hqueued
  recorded outcome h := by
    rw [ha] at h
    exact nomatch h
  closed outcome h := by
    have hrecorded := Stage.recorded_of_closed h
    rw [ha] at hrecorded
    exact nomatch hrecorded

end Stages

section Readings
variable {ι : Type} {decodeReplace : Bytes → PyStr} {text : PyExc → PyStr}

/-- What a reading has is all there, of an outcome. -/
def Settled (decodeReplace : Bytes → PyStr) (outcome : Outcome) : Reading → Prop
  | .testing => True
  | .keying => ∃ execution,outcome=.ok execution
  | .takingStdout key => ∃ execution,outcome=.ok execution ∧ key=execution.callIdentity.generateKey
  | .takingStderr key stdout => ∃ execution,outcome=.ok execution ∧ key=execution.callIdentity.generateKey ∧
      stdout=extractArtifact decodeReplace execution .stdout
  | .stating seen => seen=shown decodeReplace outcome
  | .failing seen state => seen=shown decodeReplace outcome ∧ state=lastState outcome

/-- What a reading has of the execution is nothing, or all there. -/
def Mixed (decodeReplace : Bytes → PyStr) (recorded? : Option Outcome) (seen : Shown) : Prop :=
  seen=.nothing ∨ ∃ outcome,recorded?=some outcome ∧ seen=shown decodeReplace outcome

/-- What a reading may have of a job at a stage. -/
def Sound (decodeReplace : Bytes → PyStr) (stage : Stage ι) : Reading → Prop
  | .stating seen => Mixed decodeReplace stage.recorded? seen
  | .failing seen state => Mixed decodeReplace stage.recorded? seen ∧
      (state.isOver=true → ∃ outcome,stage.closed?=some outcome ∧ state=lastState outcome)
  | .testing => True
  | reading => ∃ outcome,stage.recorded?=some outcome ∧ Settled decodeReplace outcome reading

/-- What a response may say of a job whose outcome is among some. -/
structure Truthful (decodeReplace : Bytes → PyStr) (text : PyExc → PyStr) (IsOutcome : Outcome → Prop)
    (response : JobResponse) : Prop where
  /-- The key and the documents are those of the outcome, or not there. -/
  parts : shownBy response=.nothing ∨ ∃ outcome,IsOutcome outcome ∧ shownBy response=shown decodeReplace outcome
  /-- The error is that of the outcome, or not there. -/
  error : response.error=none ∨ ∃ outcome,IsOutcome outcome ∧ response.error=errorText text outcome
  /-- Where the state says that the job is over, it is the outcome's, and so is the error. -/
  state : response.state.isOver=true → ∃ outcome,IsOutcome outcome ∧ response.state=lastState outcome ∧
    response.error=errorText text outcome

/-- Reads of a closed job give the whole response. -/
theorem Settled.read {outcome : Outcome} {job : Job} {reading : Reading} (h : Settled decodeReplace outcome reading)
    (hstate : job.state=lastState outcome) (hexecution : job.execution=execution? outcome)
    (herror : job.error=errorText text outcome) :
    (∃ next,reading.read decodeReplace job=.more next ∧ Settled decodeReplace outcome next) ∨
      reading.read decodeReplace job=.response (wholeResponse decodeReplace text job.jobId outcome) := by
  cases reading with
  | testing =>
    refine .inl ⟨_,rfl,?_⟩
    rw [hexecution]
    cases outcome with
    | ok execution => exact ⟨execution,rfl⟩
    | error exc => exact rfl
  | keying =>
    obtain ⟨execution,rfl⟩ := h
    refine .inl ⟨.takingStdout execution.callIdentity.generateKey,?_,execution,rfl,rfl⟩
    dsimp only [Reading.read]
    rw [hexecution]
    rfl
  | takingStdout key =>
    obtain ⟨execution,rfl,rfl⟩ := h
    refine .inl ⟨.takingStderr _ (extractArtifact decodeReplace execution .stdout),?_,execution,rfl,rfl,rfl⟩
    dsimp only [Reading.read]
    rw [hexecution]
    rfl
  | takingStderr key stdout =>
    obtain ⟨execution,rfl,rfl,rfl⟩ := h
    refine .inl ⟨.stating (shown decodeReplace (.ok execution)),?_,rfl⟩
    dsimp only [Reading.read]
    rw [hexecution]
    rfl
  | stating seen =>
    refine .inl ⟨.failing seen job.state,rfl,?_⟩
    exact ⟨h,hstate⟩
  | failing seen state =>
    obtain ⟨rfl,rfl⟩ := h
    refine .inr ?_
    dsimp only [Reading.read]
    rw [herror]
    rfl

/-- Reads of a job at any stage give a sound reading or a truthful response. -/
theorem Sound.read {stage : Stage ι} {job : Job} {reading : Reading} (h : Sound decodeReplace stage reading)
    (hfits : Fits text stage job) :
    (∃ next,reading.read decodeReplace job=.more next ∧ Sound decodeReplace stage next) ∨
      ∃ response,reading.read decodeReplace job=.response response ∧ response.jobId=job.jobId ∧
        Truthful decodeReplace text (fun outcome => stage.recorded?=some outcome) response := by
  have hstored : ∀ {outcome : Outcome},stage.recorded?=some outcome → job.execution=execution? outcome :=
    fun h => by rw [hfits.execution,h]; rfl
  cases reading with
  | testing =>
    refine .inl ⟨_,rfl,?_⟩
    rw [hfits.execution]
    cases hrecorded : stage.recorded? with
    | none => exact .inl rfl
    | some outcome =>
      cases outcome with
      | ok execution => exact ⟨.ok execution,hrecorded,execution,rfl⟩
      | error exc => exact .inl rfl
  | keying =>
    obtain ⟨outcome,hrecorded,execution,rfl⟩ := h
    refine .inl ⟨.takingStdout execution.callIdentity.generateKey,?_,_,hrecorded,execution,rfl,rfl⟩
    dsimp only [Reading.read]
    rw [hstored hrecorded]
    rfl
  | takingStdout key =>
    obtain ⟨outcome,hrecorded,execution,rfl,rfl⟩ := h
    refine .inl ⟨.takingStderr _ (extractArtifact decodeReplace execution .stdout),?_,_,hrecorded,execution,rfl,rfl,
      rfl⟩
    dsimp only [Reading.read]
    rw [hstored hrecorded]
    rfl
  | takingStderr key stdout =>
    obtain ⟨outcome,hrecorded,execution,rfl,rfl,rfl⟩ := h
    refine .inl ⟨.stating (shown decodeReplace (.ok execution)),?_,.inr ⟨_,hrecorded,rfl⟩⟩
    dsimp only [Reading.read]
    rw [hstored hrecorded]
    rfl
  | stating seen =>
    refine .inl ⟨.failing seen job.state,rfl,h,?_⟩
    rw [hfits.state]
    exact Stage.closed_of_isOver
  | failing seen state =>
    obtain ⟨hseen,hstate⟩ := h
    refine .inr ⟨_,rfl,rfl,hseen,?_,fun hover => ?_⟩
    · dsimp only
      rw [hfits.error]
      cases hrecorded : stage.recorded? with
      | none => exact .inl rfl
      | some outcome => exact .inr ⟨outcome,rfl,rfl⟩
    · obtain ⟨outcome,hclosed,hlast⟩ := hstate hover
      have hrecorded := Stage.recorded_of_closed hclosed
      refine ⟨outcome,hrecorded,hlast,?_⟩
      dsimp only
      rw [hfits.error,hrecorded]
      rfl

/-- A sound reading stays sound while the job moves on. -/
theorem Sound.grows {stage stage' : Stage ι} {reading : Reading} (h : Sound decodeReplace stage reading)
    (hgrows : stage.Grows stage') : Sound decodeReplace stage' reading := by
  have hmixed : ∀ {seen : Shown},Mixed decodeReplace stage.recorded? seen →
      Mixed decodeReplace stage'.recorded? seen :=
    Or.imp id fun ⟨outcome,hrecorded,hseen⟩ => ⟨outcome,hgrows.recorded _ hrecorded,hseen⟩
  cases reading with
  | testing => trivial
  | stating seen => exact hmixed h
  | failing seen state =>
    exact ⟨hmixed h.1,fun hover => (h.2 hover).imp fun _ ⟨hclosed,hlast⟩ => ⟨hgrows.closed _ hclosed,hlast⟩⟩
  | keying | takingStdout | takingStderr =>
    obtain ⟨outcome,hrecorded,hsettled⟩ := h
    exact ⟨outcome,hgrows.recorded _ hrecorded,hsettled⟩

end Readings

section Standing
variable {ι : Type}

/-- The ids under which jobs were registered, in order. -/
def registeredIds (trace : List (Event ι)) : List PyStr :=
  trace.filterMap fun
    | .registered _ jobId => some jobId
    | _ => none

/-- Each key where it is first. -/
def firsts {κ : Type} [DecidableEq κ] (keys : List κ) : List κ := keys.eraseDups

/-- Every key is first somewhere. -/
theorem mem_firsts {κ : Type} [DecidableEq κ] {keys : List κ} {key : κ} : key∈firsts keys ↔ key∈keys :=
  List.mem_eraseDups

/-- The stages fit the jobs, the queue and the threads of the pool. -/
structure Placed (text : PyExc → PyStr) (d : Daemon ι) (stage : JobRef → Stage ι) : Prop where
  /-- A job that was made has the attributes of its stage. -/
  fits : ∀ ref,stage ref≠.unmade → Fits text (stage ref) (d.job ref)
  /-- The jobs not made are those from the next one on. -/
  unmade : ∀ ref,stage ref=.unmade ↔ d.nextJob ≤ ref
  /-- A job is queued once. -/
  queueOnce : (d.queue.map Prod.fst).Nodup
  /-- The jobs waiting are those in the queue. -/
  queued : ∀ ref,stage ref=.waiting ↔ ref∈d.queue.map Prod.fst
  /-- A thread's job is at the thread's stage. -/
  works : ∀ w ref st,stands? w (d.worker w)=some (ref,st) → stage ref=st
  /-- A stage held by a thread is that thread's. -/
  held : ∀ ref w,(stage ref).worker?=some w → stands? w (d.worker w)=some (ref,stage ref)

/-- The stages fit what was told. -/
structure Told (trace : List (Event ι)) (d : Daemon ι) (stage : JobRef → Stage ι) : Prop where
  /-- A job told as made has been, with its id. -/
  made : ∀ h body ref jobId command,.made h body ref jobId command∈trace →
    stage ref≠.unmade ∧ (d.job ref).jobId=jobId
  /-- So has one told as registered. -/
  registered : ∀ ref jobId,.registered ref jobId∈trace → stage ref≠.unmade ∧ (d.job ref).jobId=jobId
  /-- What is queued was made for its command. -/
  queue : ∀ item∈d.queue,∃ h body jobId,.made h body item.1 jobId item.2∈trace
  /-- So was what a thread works on. -/
  commands : ∀ w item,command? (d.worker w)=some item → ∃ h body jobId,.made h body item.1 jobId item.2∈trace
  /-- A run was called exactly where its stage says so. -/
  called : ∀ ref,(stage ref).isCalled=true ↔ ∃ command,.called ref command∈trace
  /-- It returned exactly what its stage says. -/
  returned : ∀ ref outcome,(stage ref).outcome?=some outcome ↔ .returned ref outcome∈trace

/-- The dictionary fits what was told. -/
structure Registered (trace : List (Event ι)) (jobs : Dict PyStr JobRef) : Prop where
  /-- The ids, in the order they were first registered. -/
  keys : jobs.keys=firsts (registeredIds trace)
  /-- A job found under an id was registered under it. -/
  values : ∀ jobId ref,jobs.get? jobId=some ref → .registered ref jobId∈trace

/-- What a request that is answered by a response has to do with the job. -/
def IsAbout (trace : List (Event ι)) (h : ι) (ref : JobRef) (jobId : PyStr) : Request → Prop
  | .submit body => ∃ command,.made h body ref jobId command∈trace
  | .get asked => asked=jobId ∧ .registered ref jobId∈trace
  | .list | .stream _ => False

/-- Where a request may stand. -/
def Handled (decodeReplace : Bytes → PyStr) (text : PyExc → PyStr) (trace : List (Event ι)) (d : Daemon ι)
    (stage : JobRef → Stage ι) (h : ι) : Handler → Prop
  | .idle | .listing | .finding _ _ => True
  | .building body => .asked h (.submit body)∈trace
  | .registering body ref command | .queueing body ref command =>
    stage ref=.made h ∧ .made h body ref (d.job ref).jobId command∈trace
  | .responding request ref reading =>
    stage ref≠.unmade ∧ Sound decodeReplace (stage ref) reading ∧ IsAbout trace h ref (d.job ref).jobId request ∧
      ∀ body,request=.submit body → (stage ref).isQueued=true
  | .looping jobId ref | .showing jobId ref | .sleeping jobId ref => .registered ref jobId∈trace
  | .finishing jobId ref reading => .registered ref jobId∈trace ∧
      ∃ outcome,(stage ref).closed?=some outcome ∧ Settled decodeReplace outcome reading
  | .naming jobId ref response => .registered ref jobId∈trace ∧
      ∃ outcome,(stage ref).closed?=some outcome ∧ response=wholeResponse decodeReplace text jobId outcome

/-- Everything is where it should be. -/
structure Stands (decodeReplace : Bytes → PyStr) (text : PyExc → PyStr) (trace : List (Event ι)) (d : Daemon ι)
    (stage : JobRef → Stage ι) : Prop where
  /-- The stages fit jobs, queue and threads. -/
  placed : Placed text d stage
  /-- They fit what was told. -/
  told : Told trace d stage
  /-- So does the dictionary. -/
  registered : Registered trace d.jobs
  /-- So does every request. -/
  handled : ∀ h,Handled decodeReplace text trace d stage h (d.handler h)

/-- A call that was made and did not come back. -/
def InFlight (trace : List (Event ι)) (ref : JobRef) : Prop :=
  (∃ command,.called ref command∈trace) ∧ ∀ outcome,.returned ref outcome∉trace

/-- What was told before makes an answer what it has to be. -/
def AnsweredAs (decodeReplace : Bytes → PyStr) (text : PyExc → PyStr) (before : List (Event ι)) (h : ι)
    (request : Request) : Answer → Prop
  | .response ref response => IsAbout before h ref response.jobId request ∧
      Truthful decodeReplace text (fun outcome => .returned ref outcome∈before) response
  | .ids jobIds => request=.list ∧ jobIds=firsts (registeredIds before)
  | .notFound => ∃ jobId,(request=.get jobId ∨ request=.stream jobId) ∧ jobId∉registeredIds before
  | .raised => ∃ body,request=.submit body

/-- What was told before makes a message what it has to be. The last one of a stream is the
whole response. -/
def EmittedAs (decodeReplace : Bytes → PyStr) (text : PyExc → PyStr) (before : List (Event ι)) (jobId : PyStr)
    (ref : JobRef) : Message → Prop
  | .status state => state.isOver=true → ∃ outcome,.returned ref outcome∈before ∧ state=lastState outcome
  | .last complete response => ∃ outcome,.returned ref outcome∈before ∧
      response=wholeResponse decodeReplace text jobId outcome ∧ complete=decide (lastState outcome=.done)

/-- What was told before makes an event what it has to be. -/
def Explained (executionKindFor : PyStr → Except PyExc ExecutionKind) (decodeReplace : Bytes → PyStr)
    (text : PyExc → PyStr) (before : List (Event ι)) : Event ι → Prop
  | .asked _ _ => True
  -- A job is made for a request with its command, once.
  | .made h body ref _ command => .asked h (.submit body)∈before ∧
      buildCommand executionKindFor body=.ok command ∧ ∀ h' body' jobId' command',
        .made h' body' ref jobId' command'∉before
  | .registered ref jobId => ∃ h body command,.made h body ref jobId command∈before
  -- A job is called once, with its command, beside at most three others.
  | .called ref command => (∃ h body jobId,.made h body ref jobId command∈before) ∧
      (∀ command',.called ref command'∉before) ∧
        ∀ refs : List JobRef,refs.Nodup → (∀ r∈refs,InFlight before r) → refs.length < maxWorkers
  | .returned ref _ => InFlight before ref
  | .answered h request answer => AnsweredAs decodeReplace text before h request answer
  | .emitted _ jobId ref message => .registered ref jobId∈before ∧
      EmittedAs decodeReplace text before jobId ref message

/-- Where everything stands at first. -/
theorem Stands.start (decodeReplace : Bytes → PyStr) (text : PyExc → PyStr) :
    Stands decodeReplace text [] (Daemon.start : Daemon ι) fun _ => .unmade where
  placed := {
    fits := fun _ h => absurd rfl h
    unmade := fun ref => ⟨fun _ => Nat.zero_le ref,fun _ => rfl⟩
    queueOnce := List.nodup_nil
    queued := fun _ => ⟨fun h => (nomatch h),fun h => absurd h List.not_mem_nil⟩
    works := fun _ _ _ h => nomatch h
    held := fun _ _ h => nomatch h }
  told := {
    made := fun _ _ _ _ _ h => absurd h List.not_mem_nil
    registered := fun _ _ h => absurd h List.not_mem_nil
    queue := fun _ h => absurd h List.not_mem_nil
    commands := fun _ _ h => nomatch h
    called := fun _ => ⟨fun h => (nomatch h),fun ⟨_,h⟩ => absurd h List.not_mem_nil⟩
    returned := fun _ _ => ⟨fun h => (nomatch h),fun h => absurd h List.not_mem_nil⟩ }
  registered := ⟨rfl,fun _ _ h => nomatch h⟩
  handled _ := trivial

end Standing

section Moves
variable {ι : Type} {decodeReplace : Bytes → PyStr} {text : PyExc → PyStr} {trace : List (Event ι)} {d d' : Daemon ι}
  {stage stage' : JobRef → Stage ι}

/-- The stages fit any daemon with the same jobs, queue and threads. -/
theorem Placed.frame (h : Placed text d stage) (hjob : d'.job=d.job) (hnext : d'.nextJob=d.nextJob)
    (hqueue : d'.queue=d.queue) (hworker : d'.worker=d.worker) : Placed text d' stage where
  fits := by rw [hjob]; exact h.fits
  unmade := by rw [hnext]; exact h.unmade
  queueOnce := by rw [hqueue]; exact h.queueOnce
  queued := by rw [hqueue]; exact h.queued
  works := by rw [hworker]; exact h.works
  held := by rw [hworker]; exact h.held

/-- A thread moves on with its job. -/
theorem Placed.advance {w : Fin maxWorkers} {ref : JobRef} {st st' : Stage ι} {job : Job} {phase : Work}
    (h : Placed text d stage) (hst : stands? w (d.worker w)=some (ref,st)) (hfits : Fits text st' job)
    (hmade : st'≠.unmade) (hwaiting : st'≠.waiting)
    (hphase : ∀ r s,stands? w phase=some (r,s) → r=ref ∧ s=st')
    (hheld : ∀ w',st'.worker?=some w' → w'=w ∧ stands? w phase=some (ref,st')) :
    Placed text ((d.write ref job).work w phase) (Function.update stage ref st') := by
  have hstage : stage ref=st := h.works w ref st hst
  have hworker : st.worker?=some w := worker?_of_stands hst
  have hother : ∀ {w' : Fin maxWorkers} {r : JobRef},w'≠w → (stage r).worker?=some w' → r≠ref := by
    rintro w' r hne hr rfl
    rw [hstage,hworker] at hr
    exact hne (Option.some.inj hr).symm
  refine ⟨fun r hr => ?_,fun r => ?_,h.queueOnce,fun r => ?_,fun w' r s hs => ?_,fun r w' hr => ?_⟩
  · by_cases hsame : r=ref
    · subst hsame
      simpa only [Daemon.work,Daemon.write,Function.update_self] using hfits
    · simp only [Daemon.work,Daemon.write,Function.update_of_ne hsame] at hr ⊢
      exact h.fits r hr
  · by_cases hsame : r=ref
    · subst hsame
      rw [Function.update_self]
      refine ⟨fun he => absurd he hmade,fun hle => ?_⟩
      rw [(h.unmade r).mpr hle] at hstage
      rw [← hstage] at hworker
      exact nomatch hworker
    · rw [Function.update_of_ne hsame]
      exact h.unmade r
  · by_cases hsame : r=ref
    · subst hsame
      rw [Function.update_self]
      refine ⟨fun he => absurd he hwaiting,fun hmem => ?_⟩
      rw [(h.queued r).mpr hmem] at hstage
      rw [← hstage] at hworker
      exact nomatch hworker
    · rw [Function.update_of_ne hsame]
      exact h.queued r
  · by_cases hsame : w'=w
    · subst hsame
      simp only [Daemon.work,Function.update_self] at hs
      obtain ⟨rfl,rfl⟩ := hphase r s hs
      exact Function.update_self _ _ _
    · simp only [Daemon.work,Daemon.write,Function.update_of_ne hsame] at hs
      have hr := h.works w' r s hs
      rw [Function.update_of_ne (hother hsame (by rw [hr]; exact worker?_of_stands hs))]
      exact hr
  · by_cases hsame : r=ref
    · subst hsame
      rw [Function.update_self] at hr ⊢
      obtain ⟨rfl,hs⟩ := hheld w' hr
      simpa only [Daemon.work,Function.update_self] using hs
    · rw [Function.update_of_ne hsame] at hr ⊢
      have hs := h.held r w' hr
      by_cases hw : w'=w
      · subst hw
        rw [hst] at hs
        exact absurd (congrArg Prod.fst (Option.some.inj hs)).symm hsame
      · simpa only [Daemon.work,Daemon.write,Function.update_of_ne hw] using hs

/-- What was told fits the next stages too. -/
theorem Told.step {event : Option (Event ι)} (h : Told trace d stage)
    (hmade : ∀ ref,stage ref≠.unmade → stage' ref≠.unmade ∧ (d'.job ref).jobId=(d.job ref).jobId)
    (hnew : ∀ g body ref jobId command,event=some (.made g body ref jobId command) →
      stage' ref≠.unmade ∧ (d'.job ref).jobId=jobId)
    (hregistered : ∀ ref jobId,event=some (.registered ref jobId) → stage' ref≠.unmade ∧ (d'.job ref).jobId=jobId)
    (hqueue : ∀ item∈d'.queue,item∈d.queue ∨ ∃ g body jobId,.made g body item.1 jobId item.2∈trace)
    (hcommands : ∀ w item,command? (d'.worker w)=some item → (∃ w',command? (d.worker w')=some item) ∨ item∈d.queue)
    (hcalled : ∀ ref,(stage' ref).isCalled=true ↔
      (stage ref).isCalled=true ∨ ∃ command,event=some (.called ref command))
    (hreturned : ∀ ref outcome,(stage' ref).outcome?=some outcome ↔
      (stage ref).outcome?=some outcome ∨ event=some (.returned ref outcome)) :
    Told (trace ++ event.toList) d' stage' := by
  have hmem : ∀ {e : Event ι},e∈trace ++ event.toList ↔ e∈trace ∨ event=some e := by
    intro e
    rw [List.mem_append,Option.mem_toList]
  have hkept : ∀ {item : JobRef × RunMlExecutionCommand},(∃ g body jobId,.made g body item.1 jobId item.2∈trace) →
      ∃ g body jobId,.made g body item.1 jobId item.2∈trace ++ event.toList :=
    fun ⟨g,body,jobId,he⟩ => ⟨g,body,jobId,List.mem_append_left _ he⟩
  refine ⟨fun g body ref jobId command he => ?_,fun ref jobId he => ?_,fun item hitem => ?_,fun w item hitem => ?_,
    fun ref => ?_,fun ref outcome => ?_⟩
  · rcases hmem.mp he with he | he
    · obtain ⟨hstage,rfl⟩ := h.made g body ref jobId command he
      exact hmade ref hstage
    · exact hnew g body ref jobId command he
  · rcases hmem.mp he with he | he
    · obtain ⟨hstage,rfl⟩ := h.registered ref jobId he
      exact hmade ref hstage
    · exact hregistered ref jobId he
  · rcases hqueue item hitem with hold | hmadeThen
    · exact hkept (h.queue item hold)
    · exact hkept hmadeThen
  · rcases hcommands w item hitem with ⟨w',hold⟩ | hold
    · exact hkept (h.commands w' item hold)
    · exact hkept (h.queue item hold)
  · rw [hcalled,h.called]
    constructor
    · rintro (⟨command,he⟩ | ⟨command,he⟩)
      · exact ⟨command,hmem.mpr (.inl he)⟩
      · exact ⟨command,hmem.mpr (.inr he)⟩
    · rintro ⟨command,he⟩
      exact (hmem.mp he).imp (fun he => ⟨command,he⟩) fun he => ⟨command,he⟩
  · rw [hreturned,h.returned,hmem]

/-- A request stands where it stood, when others move on. -/
theorem Handled.grows {h : ι} {phase : Handler} {trace' : List (Event ι)}
    (hh : Handled decodeReplace text trace d stage h phase) (htrace : trace ⊆ trace')
    (hgrows : ∀ ref,(stage ref).Grows (stage' ref))
    (hids : ∀ ref,stage ref≠.unmade → (d'.job ref).jobId=(d.job ref).jobId)
    (hmade : ∀ ref,stage ref=.made h → stage' ref=.made h) :
    Handled decodeReplace text trace' d' stage' h phase := by
  cases phase with
  | idle | listing | finding => trivial
  | building body => exact htrace hh
  | registering body ref command | queueing body ref command =>
    obtain ⟨hstage,he⟩ := hh
    refine ⟨hmade ref hstage,?_⟩
    rw [hids ref (by rw [hstage]; exact nofun)]
    exact htrace he
  | responding request ref reading =>
    obtain ⟨hstage,hsound,habout,hqueued⟩ := hh
    refine ⟨(hgrows ref).made hstage,hsound.grows (hgrows ref),?_,fun body hbody =>
      (hgrows ref).queued (hqueued body hbody)⟩
    rw [hids ref hstage]
    cases request with
    | submit body => exact habout.imp fun _ he => htrace he
    | get jobId => exact ⟨habout.1,htrace habout.2⟩
    | list | stream => exact habout
  | looping jobId ref | showing jobId ref | sleeping jobId ref => exact htrace hh
  | finishing jobId ref reading =>
    obtain ⟨he,outcome,hclosed,hsettled⟩ := hh
    exact ⟨htrace he,outcome,(hgrows ref).closed _ hclosed,hsettled⟩
  | naming jobId ref response =>
    obtain ⟨he,outcome,hclosed,hresponse⟩ := hh
    exact ⟨htrace he,outcome,(hgrows ref).closed _ hclosed,hresponse⟩

/-- The dictionary fits what was told while nothing is registered. -/
theorem Registered.step {event : Option (Event ι)} {jobs : Dict PyStr JobRef} (h : Registered trace jobs)
    (hevent : ∀ ref jobId,event≠some (.registered ref jobId)) : Registered (trace ++ event.toList) jobs where
  keys := by
    have hsame : registeredIds (trace ++ event.toList)=registeredIds trace := by
      rw [registeredIds,List.filterMap_append]
      cases event with
      | none => exact List.append_nil _
      | some e =>
        cases e with
        | registered ref jobId => exact absurd rfl (hevent ref jobId)
        | asked | made | called | returned | answered | emitted => exact List.append_nil _
    rw [hsame]
    exact h.keys
  values jobId ref hget := List.mem_append_left _ (h.values jobId ref hget)

/-- Whether an event is about requests only. -/
def isOuter : Event ι → Bool
  | .asked .. | .answered .. | .emitted .. => true
  | .made .. | .registered .. | .called .. | .returned .. => false

/-- What was told fits any daemon with the same jobs and commands, behind an outer event. -/
theorem Told.frame {event : Option (Event ι)} (h : Told trace d stage) (hevent : ∀ e,event=some e → isOuter e=true)
    (hjob : d'.job=d.job) (hqueue : d'.queue=d.queue) (hworker : d'.worker=d.worker) :
    Told (trace ++ event.toList) d' stage := by
  refine h.step (fun ref hstage => ⟨hstage,by rw [hjob]⟩) (fun g body ref jobId command he => ?_)
    (fun ref jobId he => ?_) (fun item hitem => .inl (by rwa [hqueue] at hitem))
    (fun w item hitem => .inl ⟨w,by rwa [hworker] at hitem⟩) (fun ref => ⟨.inl,?_⟩) fun ref outcome => ⟨.inl,?_⟩
  · exact nomatch hevent _ he
  · exact nomatch hevent _ he
  · rintro (hcalled | ⟨command,he⟩)
    · exact hcalled
    · exact nomatch hevent _ he
  · rintro (hreturned | he)
    · exact hreturned
    · exact nomatch hevent _ he

/-- A thread of the pool moves on with its job. -/
theorem Stands.advance {event : Option (Event ι)} {w : Fin maxWorkers} {ref : JobRef} {st st' : Stage ι} {job : Job}
    {phase : Work} (h : Stands decodeReplace text trace d stage) (hst : stands? w (d.worker w)=some (ref,st))
    (hfits : Fits text st' job) (hid : job.jobId=(d.job ref).jobId) (hgrows : st.Grows st') (hwaiting : st'≠.waiting)
    (hphase : ∀ r s,stands? w phase=some (r,s) → r=ref ∧ s=st')
    (hheld : ∀ w',st'.worker?=some w' → w'=w ∧ stands? w phase=some (ref,st'))
    (hcommand : ∀ item,command? phase=some item → command? (d.worker w)=some item)
    (hcalled : st'.isCalled=true ↔ st.isCalled=true ∨ ∃ command,event=some (.called ref command))
    (hreturned : ∀ outcome,st'.outcome?=some outcome ↔ st.outcome?=some outcome ∨ event=some (.returned ref outcome))
    (hown : ∀ e,event=some e → (∃ command,e=.called ref command) ∨ ∃ outcome,e=.returned ref outcome) :
    Stands decodeReplace text (trace ++ event.toList) ((d.write ref job).work w phase)
      (Function.update stage ref st') := by
  have hstage : stage ref=st := h.placed.works w ref st hst
  have hmade : st≠.unmade := by
    rintro rfl
    exact nomatch worker?_of_stands hst
  have hids : ∀ r,(((d.write ref job).work w phase).job r).jobId=(d.job r).jobId := by
    intro r
    by_cases hsame : r=ref
    · subst hsame
      simpa only [Daemon.work,Daemon.write,Function.update_self] using hid
    · simp only [Daemon.work,Daemon.write,Function.update_of_ne hsame]
  have hstages : ∀ r,(stage r).Grows (Function.update stage ref st' r) := by
    intro r
    by_cases hsame : r=ref
    · subst hsame
      rwa [Function.update_self,hstage]
    · rw [Function.update_of_ne hsame]
      exact .refl _
  refine ⟨h.placed.advance hst hfits (hgrows.made hmade) hwaiting hphase hheld,
    h.told.step (fun r hr => ⟨(hstages r).made hr,hids r⟩) (fun g body r jobId command he => ?_) (fun r jobId he => ?_)
      (fun item hitem => .inl hitem) (fun w' item hitem => .inl ⟨w',?_⟩) (fun r => ?_) fun r outcome => ?_,
    h.registered.step fun r jobId he => ?_,fun g => ?_⟩
  · rcases hown _ he with ⟨_,hno⟩ | ⟨_,hno⟩ <;> exact nomatch hno
  · rcases hown _ he with ⟨_,hno⟩ | ⟨_,hno⟩ <;> exact nomatch hno
  · by_cases hsame : w'=w
    · subst hsame
      simp only [Daemon.work,Function.update_self] at hitem
      exact hcommand item hitem
    · simpa only [Daemon.work,Daemon.write,Function.update_of_ne hsame] using hitem
  · by_cases hsame : r=ref
    · subst hsame
      rw [Function.update_self,hstage]
      exact hcalled
    · rw [Function.update_of_ne hsame]
      refine ⟨.inl,?_⟩
      rintro (hr | ⟨command,he⟩)
      · exact hr
      · rcases hown _ he with ⟨_,hno⟩ | ⟨_,hno⟩ <;> cases hno
        exact absurd rfl hsame
  · by_cases hsame : r=ref
    · subst hsame
      rw [Function.update_self,hstage]
      exact hreturned outcome
    · rw [Function.update_of_ne hsame]
      refine ⟨.inl,?_⟩
      rintro (hr | he)
      · exact hr
      · rcases hown _ he with ⟨_,hno⟩ | ⟨_,hno⟩ <;> cases hno
        exact absurd rfl hsame
  · rcases hown _ he with ⟨_,hno⟩ | ⟨_,hno⟩ <;> exact nomatch hno
  · refine (h.handled g).grows (List.subset_append_left _ _) hstages (fun r _ => hids r) fun r hr => ?_
    have hne : r≠ref := by
      rintro rfl
      have hworker := worker?_of_stands hst
      rw [← hstage,hr] at hworker
      exact nomatch hworker
    rw [Function.update_of_ne hne]
    exact hr

/-- A job that nobody works on changes its stage: its request queues it, or a thread takes it
from the queue. -/
theorem Stands.pass {event : Option (Event ι)} {ref : JobRef} {st : Stage ι} (h : Stands decodeReplace text trace d stage)
    (hevent : ∀ e,event=some e → isOuter e=true) (hplaced : Placed text d' (Function.update stage ref st))
    (hjob : d'.job=d.job) (hjobs : d'.jobs=d.jobs) (hmade : stage ref≠.unmade)
    (hbefore : (stage ref).isCalled=false ∧ (stage ref).outcome?=none) (hst : st.isCalled=false ∧ st.outcome?=none)
    (hunmade : st≠.unmade)
    (hqueue : ∀ item∈d'.queue,item∈d.queue ∨ ∃ g body jobId,.made g body item.1 jobId item.2∈trace)
    (hcommands : ∀ w item,command? (d'.worker w)=some item → (∃ w',command? (d.worker w')=some item) ∨ item∈d.queue)
    (hhandled : ∀ g,Handled decodeReplace text (trace ++ event.toList) d (Function.update stage ref st) g
      (d'.handler g)) :
    Stands decodeReplace text (trace ++ event.toList) d' (Function.update stage ref st) where
  placed := hplaced
  told := by
    refine h.told.step (fun r hr => ⟨?_,by rw [hjob]⟩) (fun g body r jobId command he => nomatch hevent _ he)
      (fun r jobId he => nomatch hevent _ he) hqueue hcommands (fun r => ?_) fun r outcome => ?_
    · by_cases hsame : r=ref
      · subst hsame
        rwa [Function.update_self]
      · rwa [Function.update_of_ne hsame]
    · by_cases hsame : r=ref
      · subst hsame
        rw [Function.update_self,hst.1,hbefore.1]
        refine ⟨.inl,?_⟩
        rintro (hno | ⟨command,he⟩)
        · exact hno
        · exact nomatch hevent _ he
      · rw [Function.update_of_ne hsame]
        refine ⟨.inl,?_⟩
        rintro (hr | ⟨command,he⟩)
        · exact hr
        · exact nomatch hevent _ he
    · by_cases hsame : r=ref
      · subst hsame
        rw [Function.update_self,hst.2,hbefore.2]
        refine ⟨.inl,?_⟩
        rintro (hno | he)
        · exact hno
        · exact nomatch hevent _ he
      · rw [Function.update_of_ne hsame]
        refine ⟨.inl,?_⟩
        rintro (hr | he)
        · exact hr
        · exact nomatch hevent _ he
  registered := by
    rw [hjobs]
    exact h.registered.step fun r jobId he => nomatch hevent _ he
  handled g := (hhandled g).grows (fun _ => id) (fun _ => .refl _) (fun r _ => by rw [hjob]) fun _ => id

/-- A job that is there is not the next one. -/
theorem Placed.ne_next (h : Placed text d stage) {ref : JobRef} (hr : stage ref≠.unmade) : ref≠d.nextJob := by
  rintro rfl
  exact hr ((h.unmade _).mpr le_rfl)

/-- The stages fit with a job queued. -/
theorem Placed.enqueue {ref : JobRef} {command : RunMlExecutionCommand} {g : ι} (h : Placed text d stage)
    (hstage : stage ref=.made g) (hjob : d'.job=d.job) (hnext : d'.nextJob=d.nextJob)
    (hqueue : d'.queue=d.queue ++ [(ref,command)]) (hworker : d'.worker=d.worker) :
    Placed text d' (Function.update stage ref .waiting) := by
  have hkeys : d'.queue.map Prod.fst=d.queue.map Prod.fst ++ [ref] := by
    rw [hqueue,List.map_append]
    rfl
  have hnot : ref∉d.queue.map Prod.fst := fun hmem => by
    rw [(h.queued ref).mpr hmem] at hstage
    exact nomatch hstage
  refine ⟨fun r hr => ?_,fun r => ?_,?_,fun r => ?_,fun w r s hs => ?_,fun r w hr => ?_⟩
  · rw [hjob]
    by_cases hsame : r=ref
    · subst hsame
      have hfits := h.fits r (by rw [hstage]; exact nofun)
      rw [hstage] at hfits
      rw [Function.update_self]
      exact ⟨hfits.state,hfits.execution,hfits.error,hfits.doneEvent⟩
    · rw [Function.update_of_ne hsame] at hr ⊢
      exact h.fits r hr
  · rw [hnext,← h.unmade]
    by_cases hsame : r=ref
    · subst hsame
      rw [Function.update_self,hstage]
      exact ⟨fun he => (nomatch he),fun he => (nomatch he)⟩
    · rw [Function.update_of_ne hsame]
  · rw [hkeys]
    refine List.nodup_append.mpr ⟨h.queueOnce,List.nodup_singleton _,fun r hr r' hr' he => hnot ?_⟩
    rwa [← List.mem_singleton.mp hr',← he]
  · rw [hkeys,List.mem_append,List.mem_singleton,← h.queued]
    by_cases hsame : r=ref
    · subst hsame
      rw [Function.update_self]
      exact ⟨fun _ => .inr rfl,fun _ => rfl⟩
    · rw [Function.update_of_ne hsame]
      exact (or_iff_left hsame).symm
  · rw [hworker] at hs
    have hr := h.works w r s hs
    rw [Function.update_of_ne]
    · exact hr
    · rintro rfl
      rw [← hr,hstage] at hs
      exact nomatch worker?_of_stands hs
  · rw [hworker]
    by_cases hsame : r=ref
    · subst hsame
      rw [Function.update_self] at hr
      exact nomatch hr
    · rw [Function.update_of_ne hsame] at hr ⊢
      exact h.held r w hr

/-- The stages fit with a job taken from the queue. -/
theorem Placed.take {w : Fin maxWorkers} {ref : JobRef} {command : RunMlExecutionCommand}
    {rest : List (JobRef × RunMlExecutionCommand)} (h : Placed text d stage) (hidle : d.worker w=.idle)
    (hqueue : d.queue=(ref,command)::rest) :
    Placed text { d.work w (.starting ref command) with queue := rest } (Function.update stage ref (.starting w)) := by
  have honce : (ref::rest.map Prod.fst).Nodup := by
    have hall := h.queueOnce
    rwa [hqueue] at hall
  have hqueued : ∀ r,stage r=.waiting ↔ r=ref ∨ r∈rest.map Prod.fst := fun r => by
    rw [h.queued,hqueue,List.map_cons,List.mem_cons]
  have hstage : stage ref=.waiting := (hqueued ref).mpr (.inl rfl)
  refine ⟨fun r hr => ?_,fun r => ?_,(List.nodup_cons.mp honce).2,fun r => ?_,fun w' r s hs => ?_,fun r w' hr => ?_⟩
  · by_cases hsame : r=ref
    · subst hsame
      have hfits := h.fits r (by rw [hstage]; exact nofun)
      rw [hstage] at hfits
      rw [Function.update_self]
      exact ⟨hfits.state,hfits.execution,hfits.error,hfits.doneEvent⟩
    · rw [Function.update_of_ne hsame] at hr ⊢
      exact h.fits r hr
  · refine Iff.trans ?_ (h.unmade r)
    by_cases hsame : r=ref
    · subst hsame
      rw [Function.update_self,hstage]
      exact ⟨fun he => (nomatch he),fun he => (nomatch he)⟩
    · rw [Function.update_of_ne hsame]
  · by_cases hsame : r=ref
    · subst hsame
      rw [Function.update_self]
      exact ⟨fun he => (nomatch he),fun hmem => absurd hmem (List.nodup_cons.mp honce).1⟩
    · rw [Function.update_of_ne hsame,hqueued]
      exact or_iff_right hsame
  · by_cases hsame : w'=w
    · subst hsame
      simp only [Daemon.work,Function.update_self] at hs
      cases hs
      exact Function.update_self _ _ _
    · simp only [Daemon.work,Function.update_of_ne hsame] at hs
      have hr := h.works w' r s hs
      rw [Function.update_of_ne]
      · exact hr
      · rintro rfl
        rw [← hr,hstage] at hs
        exact nomatch worker?_of_stands hs
  · by_cases hsame : r=ref
    · subst hsame
      rw [Function.update_self] at hr ⊢
      cases hr
      simp only [Daemon.work,Function.update_self]
      rfl
    · rw [Function.update_of_ne hsame] at hr ⊢
      have hs := h.held r w' hr
      by_cases hw : w'=w
      · subst hw
        rw [hidle] at hs
        exact nomatch hs
      · simpa only [Daemon.work,Function.update_of_ne hw] using hs

/-- The dictionary fits what was told with a job registered. -/
theorem Registered.set {jobs : Dict PyStr JobRef} {ref : JobRef} {jobId : PyStr} (h : Registered trace jobs) :
    Registered (trace ++ [.registered ref jobId]) (jobs.set jobId ref) where
  keys := by
    have hids : registeredIds (trace ++ [.registered ref jobId])=registeredIds trace ++ [jobId] := by
      rw [registeredIds,List.filterMap_append]
      rfl
    rw [hids,firsts,eraseDups_concat,← firsts,← h.keys,Dict.keys_set]
  values jobId' ref' hget := by
    rw [Dict.get?_set] at hget
    split at hget
    next hsame =>
      cases hget
      subst hsame
      exact List.mem_append_right _ (List.mem_singleton_self _)
    next => exact List.mem_append_left _ (h.values jobId' ref' hget)

/-- A job is registered. -/
theorem Told.register {ref : JobRef} {jobId : PyStr} (h : Told trace d stage) (hstage : stage ref≠.unmade)
    (hid : (d.job ref).jobId=jobId) (hjob : d'.job=d.job) (hqueue : d'.queue=d.queue) (hworker : d'.worker=d.worker) :
    Told (trace ++ [.registered ref jobId]) d' stage := by
  have hevent : ∀ e,some (Event.registered ref jobId : Event ι)=some e → e=.registered ref jobId :=
    fun e he => (Option.some.inj he).symm
  have hstep : Told (trace ++ (some (Event.registered ref jobId)).toList) d' stage := by
    refine h.step (fun r hr => ⟨hr,by rw [hjob]⟩) (fun g body r jobId' command he => nomatch hevent _ he)
      (fun r jobId' he => ?_) (fun item hitem => .inl (by rwa [hqueue] at hitem))
      (fun w item hitem => .inl ⟨w,by rwa [hworker] at hitem⟩)
      (fun r => (or_iff_left fun ⟨command,he⟩ => nomatch (hevent (.called r command) he)).symm)
      fun r outcome => (or_iff_left fun he => nomatch (hevent (.returned r outcome) he)).symm
    cases he
    rw [hjob]
    exact ⟨hstage,hid⟩
  exact hstep

/-- What is recorded of a job was returned. -/
theorem Told.returned_of_recorded {ref : JobRef} {outcome : Outcome} (h : Told trace d stage)
    (hrecorded : (stage ref).recorded?=some outcome) : .returned ref outcome∈trace :=
  (h.returned ref outcome).mp (Stage.outcome_of_recorded hrecorded)

/-- A thread's write that is no event. -/
theorem Stands.write {w : Fin maxWorkers} {ref : JobRef} {st st' : Stage ι} {job : Job} {phase : Work}
    (h : Stands decodeReplace text trace d stage) (hst : stands? w (d.worker w)=some (ref,st))
    (hfits : Fits text st' job) (hid : job.jobId=(d.job ref).jobId) (hgrows : st.Grows st') (hwaiting : st'≠.waiting)
    (hphase : ∀ r s,stands? w phase=some (r,s) → r=ref ∧ s=st')
    (hheld : ∀ w',st'.worker?=some w' → w'=w ∧ stands? w phase=some (ref,st'))
    (hcommand : ∀ item,command? phase=some item → command? (d.worker w)=some item)
    (hcalled : st'.isCalled=st.isCalled) (hreturned : st'.outcome?=st.outcome?) :
    Stands decodeReplace text trace ((d.write ref job).work w phase) (Function.update stage ref st') := by
  have hstands := @Stands.advance ι decodeReplace text trace d stage none w ref st st' job phase h hst hfits hid hgrows hwaiting hphase hheld hcommand
    (by rw [hcalled]; exact (or_iff_left fun ⟨_,he⟩ => nomatch he).symm)
    (fun outcome => by rw [hreturned]; exact (or_iff_left fun he => nomatch he).symm) fun e he => nomatch he
  rwa [Option.toList_none,List.append_nil] at hstands

/-- A thread's step that writes no attribute. -/
theorem Stands.tell {e : Event ι} {w : Fin maxWorkers} {ref : JobRef} {st st' : Stage ι} {phase : Work}
    (h : Stands decodeReplace text trace d stage) (hst : stands? w (d.worker w)=some (ref,st))
    (hfits : Fits text st' (d.job ref)) (hgrows : st.Grows st') (hwaiting : st'≠.waiting)
    (hphase : ∀ r s,stands? w phase=some (r,s) → r=ref ∧ s=st')
    (hheld : ∀ w',st'.worker?=some w' → w'=w ∧ stands? w phase=some (ref,st')) (hcommand : command? phase=none)
    (hcalled : st'.isCalled=true ↔ st.isCalled=true ∨ ∃ command,e=.called ref command)
    (hreturned : ∀ outcome,st'.outcome?=some outcome ↔ st.outcome?=some outcome ∨ e=.returned ref outcome)
    (hown : (∃ command,e=.called ref command) ∨ ∃ outcome,e=.returned ref outcome) :
    Stands decodeReplace text (trace ++ [e]) (d.work w phase) (Function.update stage ref st') := by
  have hwrite : d.write ref (d.job ref)=d := by rw [Daemon.write,Function.update_eq_self]
  have hstands := @Stands.advance ι decodeReplace text trace d stage (some e) w ref st st' (d.job ref) phase h hst hfits rfl hgrows hwaiting hphase hheld
    (fun item hitem => by rw [hcommand] at hitem; exact nomatch hitem)
    (by simpa only [Option.some.injEq] using hcalled) (by simpa only [Option.some.injEq] using hreturned)
    fun e' he => by cases he; exact hown
  rwa [hwrite] at hstands

variable [DecidableEq ι]

/-- A request moves on, and nothing else does. -/
theorem Stands.handle {event : Option (Event ι)} {g : ι} {phase : Handler} (h : Stands decodeReplace text trace d stage)
    (hevent : ∀ e,event=some e → isOuter e=true)
    (hphase : Handled decodeReplace text (trace ++ event.toList) d stage g phase) :
    Stands decodeReplace text (trace ++ event.toList) (d.handle g phase) stage where
  placed := h.placed.frame rfl rfl rfl rfl
  told := h.told.frame hevent rfl rfl rfl
  registered := h.registered.step fun ref jobId he => nomatch hevent _ he
  handled g' := by
    by_cases hsame : g'=g
    · subst hsame
      simp only [Daemon.handle,Function.update_self]
      exact hphase.grows (fun _ => id) (fun _ => Stage.Grows.refl _) (fun _ _ => rfl) fun _ => id
    · simp only [Daemon.handle,Function.update_of_ne hsame]
      exact (h.handled g').grows (List.subset_append_left _ _) (fun _ => Stage.Grows.refl _) (fun _ _ => rfl)
        fun _ => id

/-- The daemon with a job made by a request. -/
abbrev madeIn (d : Daemon ι) (g : ι) (body : JobSubmitBody) (jobId : PyStr) (command : RunMlExecutionCommand) :
    Daemon ι :=
  { (d.write d.nextJob { jobId := jobId }).handle g (.registering body d.nextJob command) with
    nextJob := d.nextJob+1 }

/-- The stages fit with a job made. -/
theorem Placed.make {g : ι} {body : JobSubmitBody} {command : RunMlExecutionCommand} (jobId : PyStr)
    (h : Placed text d stage) :
    Placed text (madeIn d g body jobId command) (Function.update stage d.nextJob (.made g)) := by
  have hnew : stage d.nextJob=.unmade := (h.unmade _).mpr le_rfl
  refine ⟨fun r hr => ?_,fun r => ?_,h.queueOnce,fun r => ?_,fun w r s hs => ?_,fun r w hr => ?_⟩
  · by_cases hsame : r=d.nextJob
    · subst hsame
      simp only [Daemon.write,Daemon.handle,Function.update_self]
      exact ⟨rfl,rfl,rfl,rfl⟩
    · simp only [Daemon.write,Daemon.handle,Function.update_of_ne hsame] at hr ⊢
      exact h.fits r hr
  · by_cases hsame : r=d.nextJob
    · subst hsame
      rw [Function.update_self]
      exact ⟨fun he => (nomatch he),fun hle => absurd hle (Nat.not_succ_le_self _)⟩
    · have hlt : d.nextJob+1 ≤ r ↔ d.nextJob ≤ r :=
        ⟨Nat.le_of_succ_le,fun hle => Nat.lt_of_le_of_ne hle (Ne.symm hsame)⟩
      rw [Function.update_of_ne hsame,h.unmade]
      exact hlt.symm
  · by_cases hsame : r=d.nextJob
    · subst hsame
      rw [Function.update_self]
      refine ⟨fun he => (nomatch he),fun hmem => ?_⟩
      have hwaiting := (h.queued d.nextJob).mpr hmem
      rw [hnew] at hwaiting
      exact nomatch hwaiting
    · rw [Function.update_of_ne hsame]
      exact h.queued r
  · have hr := h.works w r s hs
    have hmade : stage r≠.unmade := by
      intro he
      rw [← hr,he] at hs
      exact nomatch worker?_of_stands hs
    rw [Function.update_of_ne (h.ne_next hmade)]
    exact hr
  · by_cases hsame : r=d.nextJob
    · subst hsame
      rw [Function.update_self] at hr
      exact nomatch hr
    · rw [Function.update_of_ne hsame] at hr ⊢
      exact h.held r w hr

/-- A request makes a job. -/
theorem Stands.make {g : ι} {body : JobSubmitBody} {command : RunMlExecutionCommand} (jobId : PyStr)
    (h : Stands decodeReplace text trace d stage) :
    Stands decodeReplace text (trace ++ [.made g body d.nextJob jobId command]) (madeIn d g body jobId command)
      (Function.update stage d.nextJob (.made g)) := by
  have hnew : stage d.nextJob=.unmade := (h.placed.unmade _).mpr le_rfl
  have hjobs : ∀ {r : JobRef},stage r≠.unmade → Function.update d.job d.nextJob { jobId := jobId } r=d.job r :=
    fun hr => Function.update_of_ne (h.placed.ne_next hr) _ _
  have hstages : ∀ {r : JobRef},stage r≠.unmade → Function.update stage d.nextJob (.made g) r=stage r :=
    fun hr => Function.update_of_ne (h.placed.ne_next hr) _ _
  have hevent : ∀ e,some (Event.made g body d.nextJob jobId command)=some e →
      e=.made g body d.nextJob jobId command := fun e he => (Option.some.inj he).symm
  have htold : Told (trace ++ (some (Event.made g body d.nextJob jobId command)).toList)
      (madeIn d g body jobId command) (Function.update stage d.nextJob (.made g)) := by
    refine h.told.step (fun r hr => ⟨?_,congrArg Job.jobId (hjobs hr)⟩) (fun g' body' r jobId' command' he => ?_)
      (fun r jobId' he => nomatch hevent _ he) (fun item hitem => .inl hitem) (fun w item hitem => .inl ⟨w,hitem⟩)
      (fun r => ?_) fun r outcome => ?_
    · rwa [hstages hr]
    · cases he
      rw [Function.update_self]
      exact ⟨nofun,congrArg Job.jobId (Function.update_self d.nextJob _ d.job)⟩
    · refine Iff.trans ?_ (or_iff_left fun ⟨command',he⟩ => nomatch hevent _ he).symm
      by_cases hsame : r=d.nextJob
      · subst hsame
        rw [Function.update_self,hnew]
        exact Iff.rfl
      · rw [Function.update_of_ne hsame]
    · refine Iff.trans ?_ (or_iff_left fun he => nomatch (hevent (.returned r outcome) he)).symm
      by_cases hsame : r=d.nextJob
      · subst hsame
        rw [Function.update_self,hnew]
        exact Iff.rfl
      · rw [Function.update_of_ne hsame]
  have hregistered : Registered (trace ++ (some (Event.made g body d.nextJob jobId command)).toList) d.jobs :=
    h.registered.step fun r jobId' he => nomatch hevent _ he
  refine ⟨h.placed.make jobId,htold,hregistered,fun g' => ?_⟩
  by_cases hsame : g'=g
  · subst hsame
    simp only [Daemon.write,Daemon.handle,Function.update_self]
    refine ⟨Function.update_self _ _ _,List.mem_append_right _ (List.mem_singleton.mpr ?_)⟩
    rw [show (madeIn d g' body jobId command).job d.nextJob={ jobId := jobId } from Function.update_self _ _ _]
  · simp only [Daemon.write,Daemon.handle,Function.update_of_ne hsame]
    refine (h.handled g').grows (List.subset_append_left _ _) (fun r => ?_)
      (fun r hr => congrArg Job.jobId (hjobs hr)) fun r hr => ?_
    · by_cases hr : r=d.nextJob
      · subst hr
        rw [Function.update_self,hnew]
        exact .of_unrecorded rfl nofun id
      · rw [Function.update_of_ne hr]
        exact .refl _
    · rw [hstages (by rw [hr]; exact nofun)]
      exact hr

end Moves

section Step
variable {ι : Type} {executionKindFor : PyStr → Except PyExc ExecutionKind} {decodeReplace : Bytes → PyStr}
  {text : PyExc → PyStr} {trace : List (Event ι)} {d d' : Daemon ι} {stage : JobRef → Stage ι}

/-- The stages may move on so that everything is where it should be. -/
def Moves (decodeReplace : Bytes → PyStr) (text : PyExc → PyStr) (trace : List (Event ι)) (d : Daemon ι)
    (stage : JobRef → Stage ι) : Prop :=
  ∃ stage',(∀ ref,(stage ref).Grows (stage' ref)) ∧ Stands decodeReplace text trace d stage'

/-- The step may be taken: everything moves on to where it should be, and what it tells is explained. -/
def Accepts (executionKindFor : PyStr → Except PyExc ExecutionKind) (decodeReplace : Bytes → PyStr)
    (text : PyExc → PyStr) (trace : List (Event ι)) (stage : JobRef → Stage ι) (event : Option (Event ι))
    (d : Daemon ι) : Prop :=
  Moves decodeReplace text (trace ++ event.toList) d stage ∧
    ∀ e,event=some e → Explained executionKindFor decodeReplace text trace e

/-- One job moves on to a stage. -/
theorem grows_update {ref : JobRef} {st' : Stage ι} (h : (stage ref).Grows st') (r : JobRef) :
    (stage r).Grows (Function.update stage ref st' r) := by
  by_cases hsame : r=ref
  · subst hsame
    rwa [Function.update_self]
  · rw [Function.update_of_ne hsame]
    exact .refl _

/-- Beside a thread that is about to call, at most three calls are in flight. -/
theorem Stands.inFlight {w : Fin maxWorkers} {ref : JobRef} (h : Stands decodeReplace text trace d stage)
    (hw : stands? w (d.worker w)=some (ref,(.calling w : Stage ι))) {refs : List JobRef} (honce : refs.Nodup)
    (hall : ∀ r∈refs,InFlight trace r) : refs.length < maxWorkers := by
  have hinside : ∀ r∈refs,∃ w',stage r=.inside w' := by
    intro r hr
    obtain ⟨hcalled,hreturned⟩ := hall r hr
    refine Stage.inside_of_called ((h.told.called r).mpr hcalled) (Option.eq_none_iff_forall_ne_some.mpr ?_)
    intro outcome he
    exact hreturned outcome ((h.told.returned r outcome).mp he)
  have hthreads : (none::some w::refs.map fun r => (stage r).worker?).Nodup := by
    refine List.nodup_cons.mpr ⟨fun hmem => ?_,List.nodup_cons.mpr ⟨fun hmem => ?_,honce.map_on ?_⟩⟩
    · rcases List.mem_cons.mp hmem with he | hmem
      · exact nomatch he
      · obtain ⟨r,hr,he⟩ := List.mem_map.mp hmem
        obtain ⟨w',hw'⟩ := hinside r hr
        rw [hw'] at he
        exact nomatch he
    · obtain ⟨r,hr,he⟩ := List.mem_map.mp hmem
      obtain ⟨w',hw'⟩ := hinside r hr
      have hs := h.placed.held r w he
      rw [hw,hw'] at hs
      exact nomatch hs
    · intro r hr r' hr' he
      obtain ⟨w',hw'⟩ := hinside r hr
      have hworker : (stage r).worker?=some w' := by rw [hw']; rfl
      have hs := h.placed.held r w' hworker
      rw [h.placed.held r' w' (he.symm.trans hworker)] at hs
      exact (congrArg Prod.fst (Option.some.inj hs)).symm
  have hcard := hthreads.length_le_card
  rw [List.length_cons,List.length_cons,List.length_map,Fintype.card_option,Fintype.card_fin] at hcard
  omega

/-- A thread of the pool takes a step. -/
theorem Stands.takes {w : Fin maxWorkers} {ref : JobRef} {command : RunMlExecutionCommand}
    {rest : List (JobRef × RunMlExecutionCommand)} (h : Stands decodeReplace text trace d stage)
    (hidle : d.worker w=.idle) (hqueue : d.queue=(ref,command)::rest) :
    Moves decodeReplace text trace { d.work w (.starting ref command) with queue := rest } stage := by
  have hmem : (ref,command)∈d.queue := by
    rw [hqueue]
    exact List.mem_cons_self
  have hstage : stage ref=.waiting := (h.placed.queued ref).mpr (List.mem_map_of_mem hmem)
  refine ⟨Function.update stage ref (.starting w),fun r => ?_,?_⟩
  · exact grows_update (by rw [hstage]; exact .of_unrecorded rfl nofun fun _ => rfl) r
  have hquiet : ∀ e : Event ι,none=some e → isOuter e=true := fun e he => nomatch he
  have hstands := h.pass hquiet (h.placed.take hidle hqueue) rfl rfl (by rw [hstage]; exact nofun)
    (by rw [hstage]; exact ⟨rfl,rfl⟩) ⟨rfl,rfl⟩ nofun (fun item hitem => .inl ?_) (fun w' item hitem => ?_)
    fun g => (h.handled g).grows (List.subset_append_left _ _) (fun r => ?_) (fun _ _ => rfl) fun r hr => ?_
  · rwa [Option.toList_none,List.append_nil] at hstands
  · rw [hqueue]
    exact List.mem_cons_of_mem _ hitem
  · by_cases hsame : w'=w
    · subst hsame
      simp only [Daemon.work,Function.update_self] at hitem
      cases hitem
      exact .inr hmem
    · simp only [Daemon.work,Function.update_of_ne hsame] at hitem
      exact .inl ⟨w',hitem⟩
  · exact grows_update (by rw [hstage]; exact .of_unrecorded rfl nofun fun _ => rfl) r
  · rw [Function.update_of_ne]
    · exact hr
    · rintro rfl
      rw [hstage] at hr
      exact nomatch hr

/-- A request queues its job. -/
theorem Stands.enqueues [DecidableEq ι] {event : Option (Event ι)} {g : ι} {ref : JobRef} {body : JobSubmitBody}
    {command : RunMlExecutionCommand} {phase : Handler} (h : Stands decodeReplace text trace d stage)
    (hphase : d.handler g=.queueing body ref command) (hevent : ∀ e,event=some e → isOuter e=true)
    (hnext : phase=.idle ∨ phase=.responding (.submit body) ref .testing) :
    Moves decodeReplace text (trace ++ event.toList)
      { d.handle g phase with queue := d.queue ++ [(ref,command)] } stage := by
  obtain ⟨hstage,he⟩ : stage ref=.made g ∧ Event.made g body ref (d.job ref).jobId command∈trace := by
    have hg := h.handled g
    rwa [hphase] at hg
  have hgrows : ∀ r,(stage r).Grows (Function.update stage ref .waiting r) :=
    grows_update (by rw [hstage]; exact .of_unrecorded rfl nofun fun _ => rfl)
  refine ⟨Function.update stage ref .waiting,hgrows,h.pass hevent
    (h.placed.enqueue hstage rfl rfl rfl rfl) rfl rfl (by rw [hstage]; exact nofun)
    (by rw [hstage]; exact ⟨rfl,rfl⟩) ⟨rfl,rfl⟩ nofun (fun item hitem => ?_) (fun w item hitem => .inl ⟨w,hitem⟩)
    fun g' => ?_⟩
  · rcases List.mem_append.mp hitem with hold | hnew
    · exact .inl hold
    · rw [List.mem_singleton.mp hnew]
      exact .inr ⟨g,body,_,he⟩
  · by_cases hsame : g'=g
    · subst hsame
      simp only [Daemon.handle,Function.update_self]
      rcases hnext with rfl | rfl
      · trivial
      · refine ⟨?_,trivial,⟨command,List.mem_append_left _ he⟩,fun _ _ => ?_⟩
        · rw [Function.update_self]
          exact nofun
        · rw [Function.update_self]
          rfl
    · simp only [Daemon.handle,Function.update_of_ne hsame]
      refine (h.handled g').grows (List.subset_append_left _ _) hgrows (fun _ _ => rfl) fun r hr => ?_
      rw [Function.update_of_ne]
      · exact hr
      · rintro rfl
        rw [hstage] at hr
        cases hr
        exact hsame rfl

/-- A truthful response about a job at its stage is truthful about what was returned. -/
theorem Told.truthful {ref : JobRef} {response : JobResponse} (h : Told trace d stage)
    (hresponse : Truthful decodeReplace text (fun outcome => (stage ref).recorded?=some outcome) response) :
    Truthful decodeReplace text (fun outcome => .returned ref outcome∈trace) response where
  parts := hresponse.parts.imp id fun ⟨outcome,hrecorded,hparts⟩ => ⟨outcome,h.returned_of_recorded hrecorded,hparts⟩
  error := hresponse.error.imp id fun ⟨outcome,hrecorded,herror⟩ => ⟨outcome,h.returned_of_recorded hrecorded,herror⟩
  state hover := (hresponse.state hover).imp fun _ ⟨hrecorded,hstate⟩ => ⟨h.returned_of_recorded hrecorded,hstate⟩

/-- The attributes of a closed job. -/
theorem Placed.closed {ref : JobRef} {outcome : Outcome} (h : Placed text d stage)
    (hclosed : (stage ref).closed?=some outcome) : (d.job ref).state=lastState outcome ∧
      (d.job ref).execution=execution? outcome ∧ (d.job ref).error=errorText text outcome := by
  have hmade : stage ref≠.unmade := by
    intro he
    rw [he] at hclosed
    exact nomatch hclosed
  have hfits := h.fits ref hmade
  have hrecorded := Stage.recorded_of_closed hclosed
  refine ⟨hfits.state.trans (Stage.state_of_closed hclosed),?_,?_⟩
  · rw [hfits.execution,hrecorded]
    rfl
  · rw [hfits.error,hrecorded]
    rfl

/-- A thread's job is at the thread's stage. -/
theorem Placed.standing {w : Fin maxWorkers} {ref : JobRef} {st : Stage ι} {phase : Work} (h : Placed text d stage)
    (hphase : d.worker w=phase) (hst : stands? w phase=some (ref,st)) :
    stands? w (d.worker w)=some (ref,st) ∧ stage ref=st ∧ Fits text st (d.job ref) := by
  subst hphase
  have hstage := h.works w ref st hst
  refine ⟨hst,hstage,?_⟩
  rw [← hstage]
  refine h.fits ref fun he => ?_
  rw [← hstage,he] at hst
  exact nomatch worker?_of_stands hst

/-- A write of a thread, which is not seen. -/
theorem Stands.writeQuietly {w : Fin maxWorkers} {ref : JobRef} {st : Stage ι} (st' : Stage ι) {job : Job} {phase : Work}
    (h : Stands decodeReplace text trace d stage) (hst : stands? w (d.worker w)=some (ref,st))
    (hfits : Fits text st' job) (hid : job.jobId=(d.job ref).jobId) (hgrows : st.Grows st') (hwaiting : st'≠.waiting)
    (hphase : ∀ r s,stands? w phase=some (r,s) → r=ref ∧ s=st')
    (hheld : ∀ w',st'.worker?=some w' → w'=w ∧ stands? w phase=some (ref,st'))
    (hcommand : ∀ item,command? phase=some item → command? (d.worker w)=some item)
    (hcalled : st'.isCalled=st.isCalled) (hreturned : st'.outcome?=st.outcome?) :
    Accepts executionKindFor decodeReplace text trace stage none ((d.write ref job).work w phase) := by
  refine ⟨⟨Function.update stage ref st',grows_update ?_,?_⟩,fun e he => nomatch he⟩
  · rwa [h.placed.works w ref st hst]
  · rw [Option.toList_none,List.append_nil]
    exact h.write hst hfits hid hgrows hwaiting hphase hheld hcommand hcalled hreturned

/-- What a request is at is handled. -/
theorem Stands.handling {g : ι} {phase : Handler} (h : Stands decodeReplace text trace d stage)
    (hphase : d.handler g=phase) : Handled decodeReplace text trace d stage g phase := by
  subst hphase
  exact h.handled g

/-- A thread marks its job as running. -/
theorem Stands.begins {w : Fin maxWorkers} {ref : JobRef} {command : RunMlExecutionCommand}
    (h : Stands decodeReplace text trace d stage) (hphase : d.worker w=.starting ref command) :
    Accepts executionKindFor decodeReplace text trace stage none
      ((d.write ref (d.job ref).markRunning).work w (.calling ref command)) := by
  obtain ⟨hst,hstage,hfits⟩ := h.placed.standing hphase rfl
  refine h.writeQuietly (.calling w) hst ⟨rfl,hfits.execution,hfits.error,hfits.doneEvent⟩ rfl
    (.of_unrecorded rfl nofun fun _ => rfl) nofun ?_ ?_ ?_ rfl rfl
  · rintro r s ⟨⟩
    exact ⟨rfl,rfl⟩
  · rintro w' ⟨⟩
    exact ⟨rfl,rfl⟩
  · rw [hphase]
    exact fun item => id

/-- A thread calls the service for its job. -/
theorem Stands.calls {w : Fin maxWorkers} {ref : JobRef} {command : RunMlExecutionCommand}
    (h : Stands decodeReplace text trace d stage) (hphase : d.worker w=.calling ref command) :
    Accepts executionKindFor decodeReplace text trace stage (some (.called ref command)) (d.work w (.inside ref)) := by
  obtain ⟨hst,hstage,hfits⟩ := h.placed.standing hphase rfl
  refine ⟨⟨Function.update stage ref (.inside w),grows_update ?_,?_⟩,?_⟩
  · rw [hstage]
    exact .of_unrecorded rfl nofun fun _ => rfl
  · refine h.tell (e:=.called ref command) hst ⟨hfits.state,hfits.execution,hfits.error,hfits.doneEvent⟩
      (.of_unrecorded rfl nofun fun _ => rfl) nofun ?_ ?_ rfl ?_ ?_ (.inl ⟨command,rfl⟩)
    · rintro r s ⟨⟩
      exact ⟨rfl,rfl⟩
    · rintro w' ⟨⟩
      exact ⟨rfl,rfl⟩
    · exact ⟨fun _ => .inr ⟨command,rfl⟩,fun _ => rfl⟩
    · exact fun outcome => (or_iff_left fun he => nomatch he).symm
  · rintro e ⟨⟩
    refine ⟨h.told.commands w (ref,command) (congrArg command? hphase),fun command' he => ?_,fun refs honce hall =>
      h.inFlight hst honce hall⟩
    have hcalled := (h.told.called ref).mpr ⟨command',he⟩
    rw [hstage] at hcalled
    exact nomatch hcalled

/-- A call returns. -/
theorem Stands.returns {w : Fin maxWorkers} {ref : JobRef} (outcome : Outcome)
    (h : Stands decodeReplace text trace d stage) (hphase : d.worker w=.inside ref) :
    Accepts executionKindFor decodeReplace text trace stage (some (.returned ref outcome))
      (d.work w (if outcome.isMarked=true then .recording ref outcome else .idle)) := by
  obtain ⟨hst,hstage,hfits⟩ := h.placed.standing hphase rfl
  have returned_iff : ∀ outcome' : Outcome,some outcome=some outcome' ↔
      none=some outcome' ∨ (Event.returned ref outcome : Event ι)=.returned ref outcome' := by
    intro outcome'
    rw [or_iff_right (fun he => nomatch he),Event.returned.injEq,Option.some.injEq,and_iff_right rfl]
  refine ⟨?_,?_⟩
  · split
    · refine ⟨Function.update stage ref (.recording w outcome),grows_update ?_,?_⟩
      · rw [hstage]
        exact .of_unrecorded rfl nofun fun _ => rfl
      · refine h.tell (e:=.returned ref outcome) hst ⟨hfits.state,hfits.execution,hfits.error,hfits.doneEvent⟩
          (.of_unrecorded rfl nofun fun _ => rfl) nofun ?_ ?_ rfl ?_ ?_ (.inr ⟨outcome,rfl⟩)
        · rintro r s ⟨⟩
          exact ⟨rfl,rfl⟩
        · rintro w' ⟨⟩
          exact ⟨rfl,rfl⟩
        · exact ⟨fun _ => .inl rfl,fun _ => rfl⟩
        · exact returned_iff
    next hmarked =>
      refine ⟨Function.update stage ref (.lost outcome (Bool.eq_false_iff.mpr hmarked)),grows_update ?_,?_⟩
      · rw [hstage]
        exact .of_unrecorded rfl nofun fun _ => rfl
      · refine h.tell (e:=.returned ref outcome) hst ⟨hfits.state,hfits.execution,hfits.error,hfits.doneEvent⟩
          (.of_unrecorded rfl nofun fun _ => rfl) nofun ?_ ?_ rfl ?_ ?_ (.inr ⟨outcome,rfl⟩)
        · exact fun r s hs => nomatch hs
        · exact fun w' hw => nomatch hw
        · exact ⟨fun _ => .inl rfl,fun _ => rfl⟩
        · exact returned_iff
  · rintro e ⟨⟩
    refine ⟨(h.told.called ref).mp (by rw [hstage]; rfl),fun outcome' he => ?_⟩
    have hreturned := (h.told.returned ref outcome').mpr he
    rw [hstage] at hreturned
    exact nomatch hreturned

/-- A thread records the outcome. -/
theorem Stands.records {w : Fin maxWorkers} {ref : JobRef} {outcome : Outcome}
    (h : Stands decodeReplace text trace d stage) (hphase : d.worker w=.recording ref outcome) :
    Accepts executionKindFor decodeReplace text trace stage none
      ((d.write ref ((d.job ref).record text outcome)).work w (.closing ref outcome)) := by
  obtain ⟨hst,hstage,hfits⟩ := h.placed.standing hphase rfl
  refine h.writeQuietly (.closing w outcome) hst ?_ ?_ (.of_unrecorded rfl nofun fun _ => rfl) nofun ?_ ?_ ?_ rfl rfl
  · cases outcome with
    | ok execution => exact ⟨hfits.state,rfl,hfits.error,hfits.doneEvent⟩
    | error exc => exact ⟨hfits.state,hfits.execution,rfl,hfits.doneEvent⟩
  · cases outcome <;> rfl
  · rintro r s ⟨⟩
    exact ⟨rfl,rfl⟩
  · rintro w' ⟨⟩
    exact ⟨rfl,rfl⟩
  · exact fun item hitem => nomatch hitem

/-- A thread closes its job. -/
theorem Stands.closes {w : Fin maxWorkers} {ref : JobRef} {outcome : Outcome}
    (h : Stands decodeReplace text trace d stage) (hphase : d.worker w=.closing ref outcome) :
    Accepts executionKindFor decodeReplace text trace stage none
      ((d.write ref ((d.job ref).close outcome)).work w (.signalling ref outcome)) := by
  obtain ⟨hst,hstage,hfits⟩ := h.placed.standing hphase rfl
  refine h.writeQuietly (.signalling w outcome) hst ?_ ?_ ?_ nofun ?_ ?_ ?_ rfl rfl
  · cases outcome with
    | ok execution => exact ⟨rfl,hfits.execution,hfits.error,hfits.doneEvent⟩
    | error exc => exact ⟨rfl,hfits.execution,hfits.error,hfits.doneEvent⟩
  · cases outcome <;> rfl
  · exact ⟨fun _ => nofun,fun _ => rfl,fun _ => id,fun _ he => nomatch he⟩
  · rintro r s ⟨⟩
    exact ⟨rfl,rfl⟩
  · rintro w' ⟨⟩
    exact ⟨rfl,rfl⟩
  · exact fun item hitem => nomatch hitem

/-- A thread signals that its job is over. -/
theorem Stands.signals {w : Fin maxWorkers} {ref : JobRef} {outcome : Outcome}
    (h : Stands decodeReplace text trace d stage) (hphase : d.worker w=.signalling ref outcome) :
    Accepts executionKindFor decodeReplace text trace stage none
      ((d.write ref (d.job ref).signal).work w .idle) := by
  obtain ⟨hst,hstage,hfits⟩ := h.placed.standing hphase rfl
  refine h.writeQuietly (.ended outcome) hst ⟨hfits.state,hfits.execution,hfits.error,rfl⟩ rfl
    ⟨fun _ => nofun,fun _ => rfl,fun _ => id,fun _ => id⟩ nofun ?_ ?_ ?_ rfl rfl
  · exact fun r s hs => nomatch hs
  · exact fun w' hw => nomatch hw
  · exact fun item hitem => nomatch hitem

variable (executionKindFor) in
/-- What a request at a job reads next of it. -/
theorem Stands.reads {g : ι} {request : Request} {ref : JobRef} {reading : Reading}
    (h : Stands decodeReplace text trace d stage) (hphase : d.handler g=.responding request ref reading) :
    (∃ next,reading.read decodeReplace (d.job ref)=.more next ∧
        Handled decodeReplace text trace d stage g (.responding request ref next)) ∨
      ∃ response,reading.read decodeReplace (d.job ref)=.response response ∧
        Explained executionKindFor decodeReplace text trace (.answered g request (.response ref response)) := by
  obtain ⟨hmade,hsound,habout,hqueued⟩ := h.handling hphase
  rcases hsound.read (h.placed.fits ref hmade) with ⟨next,hnext,hsound'⟩ | ⟨response,hresponse,hid,htruthful⟩
  · exact .inl ⟨next,hnext,hmade,hsound',habout,hqueued⟩
  · refine .inr ⟨response,hresponse,?_,h.told.truthful htruthful⟩
    rw [hid]
    exact habout

/-- What a stream whose job is over reads next of it. -/
theorem Stands.readsLast {g : ι} {jobId : PyStr} {ref : JobRef} {reading : Reading}
    (h : Stands decodeReplace text trace d stage) (hphase : d.handler g=.finishing jobId ref reading) :
    (∃ next,reading.read decodeReplace (d.job ref)=.more next ∧
        Handled decodeReplace text trace d stage g (.finishing jobId ref next)) ∨
      ∃ response,reading.read decodeReplace (d.job ref)=.response response ∧
        Handled decodeReplace text trace d stage g (.naming jobId ref response) := by
  obtain ⟨he,outcome,hclosed,hsettled⟩ := h.handling hphase
  obtain ⟨hstate,hexecution,herror⟩ := h.placed.closed hclosed
  rcases hsettled.read hstate hexecution herror with ⟨next,hnext,hsettled'⟩ | hresponse
  · exact .inl ⟨next,hnext,he,outcome,hclosed,hsettled'⟩
  · rw [(h.told.registered ref jobId he).2] at hresponse
    exact .inr ⟨_,hresponse,he,outcome,hclosed,rfl⟩

variable [DecidableEq ι]

/-- A quiet step of a request. -/
theorem Stands.handleQuietly {g : ι} {phase : Handler} (h : Stands decodeReplace text trace d stage)
    (hphase : Handled decodeReplace text trace d stage g phase) :
    Accepts executionKindFor decodeReplace text trace stage none (d.handle g phase) := by
  refine ⟨⟨stage,fun _ => .refl _,h.handle (fun e he => nomatch he) ?_⟩,fun e he => nomatch he⟩
  rwa [Option.toList_none,List.append_nil]

/-- A request's step that is seen. -/
theorem Stands.handleOpenly {g : ι} {phase : Handler} {e : Event ι} (h : Stands decodeReplace text trace d stage)
    (he : isOuter e=true) (hphase : Handled decodeReplace text (trace ++ [e]) d stage g phase)
    (hexplained : Explained executionKindFor decodeReplace text trace e) :
    Accepts executionKindFor decodeReplace text trace stage (some e) (d.handle g phase) := by
  refine ⟨⟨stage,fun _ => .refl _,h.handle ?_ hphase⟩,?_⟩
  · rintro e' ⟨⟩
    exact he
  · rintro e' ⟨⟩
    exact hexplained

/-- A request makes its job. -/
theorem Stands.makes {g : ι} {body : JobSubmitBody} {command : RunMlExecutionCommand} (jobId : PyStr)
    (h : Stands decodeReplace text trace d stage) (hphase : d.handler g=.building body)
    (hbuild : buildCommand executionKindFor body=.ok command) :
    Accepts executionKindFor decodeReplace text trace stage (some (.made g body d.nextJob jobId command))
      (madeIn d g body jobId command) := by
  have hnew : stage d.nextJob=.unmade := (h.placed.unmade _).mpr le_rfl
  refine ⟨⟨_,grows_update ?_,h.make jobId⟩,?_⟩
  · rw [hnew]
    exact .of_unrecorded rfl nofun id
  · rintro e ⟨⟩
    refine ⟨h.handling hphase,hbuild,fun h' body' jobId' command' he => ?_⟩
    exact (h.told.made _ _ _ _ _ he).1 hnew

/-- A request registers its job. -/
theorem Stands.registers {g : ι} {body : JobSubmitBody} {ref : JobRef} {command : RunMlExecutionCommand}
    (h : Stands decodeReplace text trace d stage) (hphase : d.handler g=.registering body ref command) :
    Accepts executionKindFor decodeReplace text trace stage (some (.registered ref (d.job ref).jobId))
      { d.handle g (.queueing body ref command) with jobs := d.jobs.set (d.job ref).jobId ref } := by
  obtain ⟨hstage,he⟩ := h.handling hphase
  refine ⟨⟨stage,fun _ => .refl _,h.placed.frame rfl rfl rfl rfl,
    h.told.register (by rw [hstage]; exact nofun) rfl rfl rfl rfl,h.registered.set,fun g' => ?_⟩,?_⟩
  · by_cases hsame : g'=g
    · subst hsame
      simp only [Daemon.handle,Function.update_self]
      exact ⟨hstage,List.mem_append_left _ he⟩
    · simp only [Daemon.handle,Function.update_of_ne hsame]
      exact (h.handled g').grows (List.subset_append_left _ _) (fun _ => .refl _) (fun _ _ => rfl) fun _ => id
  · rintro e ⟨⟩
    exact ⟨g,body,command,he⟩

/-- A request does not find its job. -/
theorem Stands.misses {g : ι} {jobId : PyStr} {stream : Bool} (h : Stands decodeReplace text trace d stage)
    (hget : d.jobs.get? jobId=none) :
    Accepts executionKindFor decodeReplace text trace stage
      (some (.answered g (if stream=true then .stream jobId else .get jobId) .notFound)) (d.handle g .idle) := by
  refine h.handleOpenly rfl trivial ⟨jobId,?_,?_⟩
  · cases stream
    · exact .inl rfl
    · exact .inr rfl
  · rw [Dict.get?_eq_none,h.registered.keys] at hget
    exact fun hmem => hget (mem_firsts.mpr hmem)

/-- A request finds its job. -/
theorem Stands.finds {g : ι} {jobId : PyStr} {stream : Bool} {ref : JobRef}
    (h : Stands decodeReplace text trace d stage) (hget : d.jobs.get? jobId=some ref) :
    Accepts executionKindFor decodeReplace text trace stage none
      (d.handle g (if stream=true then .looping jobId ref else .responding (.get jobId) ref .testing)) := by
  have he := h.registered.values jobId ref hget
  obtain ⟨hmade,hid⟩ := h.told.registered ref jobId he
  refine h.handleQuietly ?_
  cases stream
  · refine ⟨hmade,trivial,?_,fun body hbody => nomatch hbody⟩
    rw [hid]
    exact ⟨rfl,he⟩
  · exact he

/-- A stream looks whether its job is over. -/
theorem Stands.loops {g : ι} {jobId : PyStr} {ref : JobRef} (h : Stands decodeReplace text trace d stage)
    (hphase : d.handler g=.looping jobId ref) :
    Accepts executionKindFor decodeReplace text trace stage none
      (d.handle g (if (d.job ref).state.isOver=true then .finishing jobId ref .testing else .showing jobId ref)) := by
  have he : Event.registered ref jobId∈trace := h.handling hphase
  refine h.handleQuietly ?_
  split
  next hover =>
    rw [(h.placed.fits ref (h.told.registered ref jobId he).1).state] at hover
    obtain ⟨outcome,hclosed,_⟩ := Stage.closed_of_isOver hover
    exact ⟨he,outcome,hclosed,trivial⟩
  next => exact he

/-- A stream shows the state of its job. -/
theorem Stands.shows {g : ι} {jobId : PyStr} {ref : JobRef} (h : Stands decodeReplace text trace d stage)
    (hphase : d.handler g=.showing jobId ref) :
    Accepts executionKindFor decodeReplace text trace stage
      (some (.emitted g jobId ref (.status (d.job ref).state))) (d.handle g (.sleeping jobId ref)) := by
  have he : Event.registered ref jobId∈trace := h.handling hphase
  refine h.handleOpenly rfl (List.mem_append_left _ he) ⟨he,fun hover => ?_⟩
  have hstate := (h.placed.fits ref (h.told.registered ref jobId he).1).state
  rw [hstate] at hover ⊢
  obtain ⟨outcome,hclosed,hlast⟩ := Stage.closed_of_isOver hover
  exact ⟨outcome,h.told.returned_of_recorded (Stage.recorded_of_closed hclosed),hlast⟩

/-- A stream ends with the response about its job. -/
theorem Stands.names {g : ι} {jobId : PyStr} {ref : JobRef} {response : JobResponse}
    (h : Stands decodeReplace text trace d stage) (hphase : d.handler g=.naming jobId ref response) :
    Accepts executionKindFor decodeReplace text trace stage
      (some (.emitted g jobId ref (.last (decide ((d.job ref).state=.done)) response))) (d.handle g .idle) := by
  obtain ⟨he,outcome,hclosed,hresponse⟩ := h.handling hphase
  refine h.handleOpenly rfl trivial ⟨he,outcome,h.told.returned_of_recorded (Stage.recorded_of_closed hclosed),
    hresponse,?_⟩
  rw [(h.placed.closed hclosed).1]

/-- One step keeps everything where it should be; what it tells is explained. -/
theorem Stands.step {event : Option (Event ι)} (h : Stands decodeReplace text trace d stage)
    (hstep : Step executionKindFor decodeReplace text d event d') :
    Accepts executionKindFor decodeReplace text trace stage event d' := by
  cases hstep with
  | ask g request phase hidle hphase =>
    refine h.handleOpenly rfl ?_ trivial
    subst hphase
    cases request with
    | submit body => exact List.mem_append_right _ (List.mem_singleton_self _)
    | list | get | stream => trivial
  | @refuse _ g body exc hphase hbuild => exact h.handleOpenly rfl trivial ⟨body,rfl⟩
  | make g jobId hphase hbuild => exact h.makes jobId hphase hbuild
  | register g hphase => exact h.registers hphase
  | enqueue g hphase => exact ⟨h.enqueues hphase (fun e he => nomatch he) (.inr rfl),fun e he => nomatch he⟩
  | @enqueueFailed _ g body ref command hphase => exact h.handleOpenly rfl trivial ⟨body,rfl⟩
  | @enqueueHalf _ g body ref command hphase =>
    refine ⟨h.enqueues hphase ?_ (.inl rfl),?_⟩
    · rintro e ⟨⟩
      rfl
    · rintro e ⟨⟩
      exact ⟨body,rfl⟩
  | list g hphase => exact h.handleOpenly rfl trivial ⟨rfl,h.registered.keys⟩
  | missing g hphase hget => exact h.misses hget
  | found g hphase hget => exact h.finds hget
  | read g hphase hread =>
    rcases h.reads executionKindFor hphase with ⟨next,hnext,hhandled⟩ | ⟨response,hresponse,_⟩
    · cases hread.symm.trans hnext
      exact h.handleQuietly hhandled
    · cases hread.symm.trans hresponse
  | respond g hphase hread =>
    rcases h.reads executionKindFor hphase with ⟨next,hnext,_⟩ | ⟨response,hresponse,hexplained⟩
    · cases hread.symm.trans hnext
    · cases hread.symm.trans hresponse
      exact h.handleOpenly rfl trivial hexplained
  | respondFailed g hphase hread =>
    rcases h.reads executionKindFor hphase with ⟨next,hnext,_⟩ | ⟨response,hresponse,_⟩
    · cases hread.symm.trans hnext
    · cases hread.symm.trans hresponse
  | loop g hphase => exact h.loops hphase
  | status g hphase => exact h.shows hphase
  | @wake _ g jobId ref hphase =>
    have he : Event.registered ref jobId∈trace := h.handling hphase
    exact h.handleQuietly he
  | gone g hphase => exact h.handleQuietly trivial
  | readLast g hphase hread =>
    rcases h.readsLast hphase with ⟨next,hnext,hhandled⟩ | ⟨response,hresponse,_⟩
    · cases hread.symm.trans hnext
      exact h.handleQuietly hhandled
    · cases hread.symm.trans hresponse
  | finish g hphase hread =>
    rcases h.readsLast hphase with ⟨next,hnext,_⟩ | ⟨response,hresponse,hhandled⟩
    · cases hread.symm.trans hnext
    · cases hread.symm.trans hresponse
      exact h.handleQuietly hhandled
  | finishFailed g hphase hread =>
    rcases h.readsLast hphase with ⟨next,hnext,_⟩ | ⟨response,hresponse,_⟩
    · cases hread.symm.trans hnext
    · cases hread.symm.trans hresponse
  | name g hphase => exact h.names hphase
  | take w hidle hqueue =>
    refine ⟨?_,fun e he => nomatch he⟩
    rw [Option.toList_none,List.append_nil]
    exact h.takes hidle hqueue
  | begin w hphase => exact h.begins hphase
  | call w hphase => exact h.calls hphase
  | ret w outcome hphase => exact h.returns outcome hphase
  | record w hphase => exact h.records hphase
  | close w hphase => exact h.closes hphase
  | signal w hphase => exact h.signals hphase

end Step

end GenericMlCache.DaemonJobRuns
