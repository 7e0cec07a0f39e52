import GenericMlCache.DetachedJobs

/-!
# Who is reported as interrupted

A reader combines a status that it read earlier with a lock that it probes
later. The lock says the truth about the worker, the status what was true then.
A report of an interrupted job is right unless the worker wrote its last state
and let go of the lock between the two looks.
-/

namespace GenericMlCache.JobLiveness

open CallProgram CallAutomaton PythonText ExecutionModel DetachedJobs

/-- A status that says running. -/
def saysRunning : Except JobExc JobStatus → Bool
  | .ok status => decide (status.state=some .running)
  | .error _ => false

/-- A status with a terminal state. -/
def isOver (status : JobStatus) : Bool := status.state.any JobState.isTerminal

/-- What is watched of a run of a job's processes. -/
structure JobWatch where
  /-- The reader's last status read said running. -/
  readRunning : ℕ → Bool
  /-- The worker wrote a terminal state. -/
  finished : Bool
  /-- A reader of a running status took the lock after the worker's last state, or could
  not connect to it. -/
  overtaken : Bool

/-- Nothing was read or written. -/
def JobWatch.start : JobWatch := ⟨fun _ => false,false,false⟩

/-- Watch the reads and writes of the status, and the probes that take the lock. -/
def watchJob : Party → (call : JobCall) → Except JobExc call.Ret → JobWatch → JobWatch
  | .worker,.replaceStatus status,.ok _,m => { m with finished := m.finished || isOver status }
  | .reader n,.readStatusFile,r,m => { m with readRunning := Function.update m.readRunning n (saysRunning r) }
  | .reader n,.connect,.error _,m => { m with overtaken := m.overtaken || m.readRunning n }
  | .reader n,.beginExclusive,.ok _,m => { m with overtaken := m.overtaken || (m.readRunning n && m.finished) }
  | _,_,_,m => m

/-- What each process may do, watched. -/
abbrev watchedJob (party : Party) : Sem JobCall JobCall.Ret JobExc (JobWorld × JobWatch) :=
  observed (JobAnswers party) (watchJob party)

/-- How far a process has come. -/
inductive JobPhase where
  /-- The worker before it has the lock. -/
  | outside
  /-- The worker with the lock, its job not yet running. -/
  | locked
  /-- The worker with its job running. -/
  | running
  /-- The worker wrote its last state. -/
  | finished
  /-- The worker let go of the lock without a last state. -/
  | left
  /-- A reader that knows nothing. -/
  | looking
  /-- A reader that read the status: it said running, or not. -/
  | read (running : Bool)
  /-- A reader in its probe, which took the lock. -/
  | took (running : Bool)
  /-- A reader that derived a state: interrupted, or not. -/
  | derived (interrupted : Bool)
  /-- The system. -/
  | killing
  /-- A process whose call raised what it cannot raise. -/
  | gone
deriving DecidableEq

/-- What a call does not raise. -/
def neverRaises : JobCall → JobExc → Bool
  | .lockExists,_ | .rollback,_ | .close,_ | .report _,_ | .kill _,_ => true
  | .connect,e => !e.isSqlite
  | .beginShared,e | .beginExclusive,e => decide (e≠.operationalError)
  | _,_ => false

/-- No answer raises it. -/
theorem raises_of_answer {party : Party} {call : JobCall} {e : JobExc} {w w' : JobWorld}
    (h : JobAnswers party call w (.error e) w') : neverRaises call e=false := by
  cases h with
  | fileFault _ hcall => rcases hcall with rfl | rfl | ⟨_,rfl⟩ | rfl <;> rfl
  | executeRaised => rfl
  | connectRaised _ he => simp only [neverRaises,he,Bool.not_true]
  | sharedRaised | beginRaised => rfl

/-- Calls of a worker that its phase does not depend on. -/
def isWorkerQuiet : JobCall → Bool
  | .readSpec | .readStatusFile | .appendEvent | .execute | .connect | .beginShared => true
  | _ => false

/-- Leaving the lock. -/
def isUnlock : JobCall → Bool
  | .rollback | .close => true
  | _ => false

/-- The phase of a worker that leaves the lock. -/
def JobPhase.unlocked : JobPhase → JobPhase
  | .locked | .running => .left
  | φ => φ

/-- The phases of a worker. -/
def JobPhase.isWorker : JobPhase → Bool
  | .outside | .locked | .running | .finished | .left => true
  | _ => false

/-- The turns of the processes around a job. -/
inductive JobTurn : Turns JobCall JobCall.Ret JobExc JobPhase where
  | gone {call : JobCall} {r : Except JobExc call.Ret} : JobTurn .gone call r .gone
  | lost {φ : JobPhase} {call : JobCall} {e : JobExc} (hφ : φ≠.left) (h : neverRaises call e=true) :
      JobTurn φ call (.error e) .gone
  -- The worker.
  | quiet {φ : JobPhase} {call : JobCall} {r : Except JobExc call.Ret} (hφ : φ.isWorker=true)
      (h : isWorkerQuiet call=true) : JobTurn φ call r φ
  | lock : JobTurn .outside .beginExclusive (.ok ()) .locked
  | lockHeld : JobTurn .outside .beginExclusive (.error .operationalError) .outside
  | run {status : JobStatus} (h : status.state=some .running) :
      JobTurn .locked (.replaceStatus status) (.ok ()) .running
  | finish {status : JobStatus} (h : isOver status=true) :
      JobTurn .running (.replaceStatus status) (.ok ()) .finished
  | writeRaised {φ : JobPhase} {status : JobStatus} {e : JobExc} (h : φ=.locked ∨ φ=.running) :
      JobTurn φ (.replaceStatus status) (.error e) φ
  | unlock {φ : JobPhase} {call : JobCall} {a : call.Ret} (hφ : φ.isWorker=true) (h : isUnlock call=true) :
      JobTurn φ call (.ok a) φ.unlocked
  | stayLeft {call : JobCall} {e : JobExc} (h : isUnlock call=true) :
      JobTurn .left call (.error e) .left
  -- A reader.
  | read (r : Except JobExc JobStatus) : JobTurn .looking .readStatusFile r (.read (saysRunning r))
  | found {running : Bool} : JobTurn (.read running) .lockExists (.ok true) (.read running)
  | missing {running : Bool} : JobTurn (.read running) .lockExists (.ok false) (.derived running)
  | open' {running : Bool} : JobTurn (.read running) .connect (.ok ()) (.read running)
  | shutOut {running : Bool} {e : JobExc} : JobTurn (.read running) .connect (.error e) (.derived running)
  | enter {running : Bool} : JobTurn (.read running) .beginShared (.ok ()) (.read running)
  | kept {running : Bool} : JobTurn (.read running) .beginShared (.error .operationalError) (.derived false)
  | take {running : Bool} : JobTurn (.read running) .beginExclusive (.ok ()) (.took running)
  | held {running : Bool} : JobTurn (.read running) .beginExclusive (.error .operationalError) (.derived false)
  | give {running : Bool} : JobTurn (.took running) .rollback (.ok ()) (.derived running)
  | shut {interrupted : Bool} : JobTurn (.derived interrupted) .close (.ok ()) (.derived interrupted)
  | report {interrupted : Bool} {state : Reported} (h : state=.interrupted → interrupted=true) :
      JobTurn (.derived interrupted) (.report state) (.ok ()) .looking
  -- The system.
  | kill {party : Party} : JobTurn .killing (.kill party) (.ok ()) .killing

section Following
variable {α β : Type}

/-- Programs that follow the phases, unless a call raised what it cannot raise. -/
abbrev Stands (post : Except JobExc α → JobPhase → Prop) (p : JobM α) (φ : JobPhase) : Prop :=
  Follows JobTurn (fun r φ => φ=.gone ∨ post r φ) p φ

/-- Every program follows once it is gone. -/
theorem stands_gone {post : Except JobExc α → JobPhase → Prop} (p : JobM α) : Stands post p .gone := by
  induction p with
  | done r => exact Or.inl rfl
  | call call next ih => exact fun r => ⟨.gone,.gone,ih r⟩

/-- Sequencing. -/
theorem Stands.bind {mid : Except JobExc α → JobPhase → Prop} {post : Except JobExc β → JobPhase → Prop}
    {p : JobM α} {f : α → JobM β} {φ : JobPhase} (h : Stands mid p φ)
    (hok : ∀ a φ',mid (.ok a) φ' → Stands post (f a) φ')
    (herr : ∀ e φ',mid (.error e) φ' → post (.error e) φ') : Stands post (p >>= f) φ := by
  refine Follows.seq h (fun a φ' hend => ?_) fun e φ' hend => hend.imp id (herr e φ')
  rcases hend with rfl | hmid
  · exact stands_gone (f a)
  · exact hok a φ' hmid

/-- An attempted program and what follows on its outcome. -/
theorem Stands.attempt {mid : Except JobExc α → JobPhase → Prop} {post : Except JobExc β → JobPhase → Prop}
    {p : JobM α} {f : Except JobExc α → JobM β} {φ : JobPhase} (h : Stands mid p φ)
    (hnext : ∀ r φ',mid r φ' → Stands post (f r) φ') : Stands post (attempt p >>= f) φ := by
  refine Follows.attempt_seq h fun r φ' hend => ?_
  rcases hend with rfl | hmid
  · exact stands_gone (f r)
  · exact hnext r φ' hmid

/-- A finished program stands where it is. -/
theorem stands_done {post : Except JobExc α → JobPhase → Prop} {r : Except JobExc α} {φ : JobPhase}
    (h : post r φ) : Stands post (.done r : JobM α) φ := Or.inr h

/-- Weaken how a program ends. -/
theorem Stands.weaken {post post' : Except JobExc α → JobPhase → Prop} {p : JobM α} {φ : JobPhase}
    (h : Stands post p φ) (hpost : ∀ r φ',post r φ' → post' r φ') : Stands post' p φ :=
  Follows.weaken h fun r φ' => Or.imp id (hpost r φ')

end Following

section Worker
variable {α : Type}

/-- A quiet call of a worker. -/
theorem stands_quiet {φ : JobPhase} {call : JobCall} (hφ : φ.isWorker=true) (h : isWorkerQuiet call=true) :
    Stands (fun _ φ' => φ'=φ) (job call) φ :=
  Follows.perform fun _ => ⟨φ,.quiet hφ h,Or.inr rfl⟩

/-- A worker reads the status. -/
theorem stands_readStatus {φ : JobPhase} (hφ : φ.isWorker=true) :
    Stands (fun _ φ' => φ'=φ) readStatus φ := by
  refine Stands.attempt (stands_quiet hφ rfl) fun r φ' hφ' => ?_
  subst hφ'
  cases r with
  | ok status => exact stands_done rfl
  | error e => exact Follows.ite (fun _ => stands_done rfl) fun _ => stands_done rfl

/-- A worker updates the status. -/
theorem stands_updateStatus {φ φ' : JobPhase} {fields : JobStatus → JobStatus} (hφ : φ=.locked ∨ φ=.running)
    (hturn : ∀ status,JobTurn φ (.replaceStatus (fields status)) (.ok ()) φ') :
    Stands (fun r φ₂ => (r=.ok () → φ₂=φ') ∧ (r≠.ok () → φ₂=φ)) (updateStatus fields) φ := by
  have hworker : φ.isWorker=true := by
    rcases hφ with rfl | rfl <;> rfl
  refine Stands.bind (stands_readStatus hworker) (fun status φ₂ heq => ?_) fun e φ₂ heq => ?_
  · subst heq
    refine Follows.perform fun r => ?_
    cases r with
    | ok _ => exact ⟨φ',hturn _,Or.inr ⟨fun _ => rfl,fun h => absurd rfl h⟩⟩
    | error e => exact ⟨φ₂,.writeRaised hφ,Or.inr ⟨fun h => (nomatch h),fun _ => rfl⟩⟩
  · exact ⟨fun h => (nomatch h),fun _ => heq⟩

/-- The end of a worker's program: it is not in the lock, or wrote its last state. -/
def IsEnded (φ : JobPhase) : Prop := φ=.outside ∨ φ=.left ∨ φ=.finished

/-- The job, in the lock. -/
theorem stands_runJob : Stands (fun _ φ => φ=.locked ∨ φ=.running ∨ φ=.finished) runJob .locked := by
  refine Stands.bind (stands_updateStatus (Or.inl rfl) fun status => .run rfl) (fun _ φ hφ => ?_) fun e φ hφ => ?_
  · rw [hφ.1 rfl]
    refine Stands.bind (stands_quiet rfl rfl) (fun _ φ hφ => ?_) fun e φ hφ => Or.inr (Or.inl hφ)
    subst hφ
    refine Stands.attempt (stands_quiet rfl rfl) fun r φ hφ => ?_
    subst hφ
    have hfinish : ∀ (code : ℕ) {fields : JobStatus → JobStatus},
        (∀ status,isOver (fields status)=true) →
        Stands (fun _ φ => φ=.locked ∨ φ=.running ∨ φ=.finished)
          (updateStatus fields >>= fun _ => job .appendEvent >>= fun _ => (pure code : JobM ℕ)) .running := by
      intro code fields hover
      refine Stands.bind (stands_updateStatus (Or.inr rfl) fun status => .finish (hover status))
        (fun _ φ hφ => ?_) fun e φ hφ => ?_
      · rw [hφ.1 rfl]
        refine Stands.bind (stands_quiet rfl rfl) (fun _ φ hφ => ?_) fun e φ hφ => Or.inr (Or.inr hφ)
        exact stands_done (Or.inr (Or.inr hφ))
      · exact Or.inr (Or.inl (hφ.2 fun h => nomatch h))
    cases r with
    | ok execution => exact hfinish 0 fun _ => rfl
    | error e =>
      exact Follows.ite (fun _ => hfinish 1 fun _ => rfl) fun _ => stands_done (Or.inr (Or.inl rfl))
  · exact Or.inl (hφ.2 fun h => nomatch h)

/-- The worker leaves the lock however its job ended. -/
theorem stands_leave {φ : JobPhase} (hφ : φ=.locked ∨ φ=.running ∨ φ=.finished) :
    Stands (fun _ φ' => φ'=.left ∨ φ'=.finished) (ensure (job .rollback) (job .close)) φ := by
  have hworker : φ.isWorker=true := by
    rcases hφ with rfl | rfl | rfl <;> rfl
  have hafter : φ.unlocked=.left ∨ φ.unlocked=.finished := by
    rcases hφ with rfl | rfl | rfl
    · exact Or.inl rfl
    · exact Or.inl rfl
    · exact Or.inr rfl
  have hnotLeft : φ≠.left := by
    rcases hφ with rfl | rfl | rfl <;> exact fun h => nomatch h
  have hclose : Stands (fun _ φ' => φ'=.left ∨ φ'=.finished) (job .close) φ.unlocked := by
    refine Follows.perform fun r => ?_
    cases r with
    | ok _ =>
      have hturn : JobTurn φ.unlocked .close (.ok ()) φ.unlocked.unlocked :=
        .unlock (by rcases hafter with h | h <;> rw [h] <;> rfl) rfl
      refine ⟨_,hturn,Or.inr ?_⟩
      rcases hafter with h | h <;> rw [h]
      · exact Or.inl rfl
      · exact Or.inr rfl
    | error e =>
      rcases hafter with h | h <;> rw [h]
      · exact ⟨.left,.stayLeft rfl,Or.inr (Or.inl rfl)⟩
      · exact ⟨.gone,.lost (fun h => nomatch h) rfl,Or.inl rfl⟩
  have hrollback : Stands (fun _ φ' => φ'=φ.unlocked) (job .rollback) φ := by
    refine Follows.perform fun r => ?_
    cases r with
    | ok _ => exact ⟨_,.unlock hworker rfl,Or.inr rfl⟩
    | error e => exact ⟨.gone,.lost hnotLeft rfl,Or.inl rfl⟩
  refine Stands.attempt hrollback fun _ φ' heq => ?_
  rw [heq]
  refine Stands.bind hclose (fun _ φ₂ h => stands_done h) fun e φ₂ h => h

/-- The worker's program. -/
theorem stands_cmdWorker : Stands (fun _ => IsEnded) cmdWorker .outside := by
  refine Stands.attempt (stands_quiet rfl rfl) fun r φ hφ => ?_
  subst hφ
  cases r with
  | error e => exact Follows.ite (fun _ => stands_done (Or.inl rfl)) fun _ => stands_done (Or.inl rfl)
  | ok _ =>
    have hheld : Stands (fun _ => IsEnded) (holdJobLock runJob) .outside := by
      refine Stands.bind (stands_quiet rfl rfl) (fun _ φ hφ => ?_) fun e φ hφ => Or.inl hφ
      subst hφ
      have hbegin : Stands (fun r φ => (r=.ok () → φ=.locked) ∧ (r≠.ok () → φ=.outside)) executeBegin .outside := by
        refine Stands.bind (stands_quiet rfl rfl) (fun _ φ hφ => ?_) fun e φ hφ => ⟨fun h => (nomatch h),fun _ => hφ⟩
        subst hφ
        refine Follows.perform fun r => ?_
        cases r with
        | ok _ => exact ⟨_,.lock,Or.inr ⟨fun _ => rfl,fun h => absurd rfl h⟩⟩
        | error e =>
          by_cases he : e=.operationalError
          · subst he
            exact ⟨_,.lockHeld,Or.inr ⟨fun h => (nomatch h),fun _ => rfl⟩⟩
          · exact ⟨_,.lost (fun h => nomatch h) (decide_eq_true he),Or.inl rfl⟩
      refine Stands.attempt hbegin fun r φ hφ => ?_
      cases r with
      | error e =>
        rw [hφ.2 (fun h => nomatch h)]
        refine Follows.ite (fun _ => ?_) fun _ => stands_done (Or.inl rfl)
        refine Follows.perform_bind (fun _ => ?_) fun e =>
          ⟨.gone,.lost (fun h => nomatch h) rfl,Or.inl rfl⟩
        exact ⟨.outside,.unlock rfl rfl,stands_done (Or.inl rfl)⟩
      | ok _ =>
        rw [hφ.1 rfl]
        refine Stands.attempt stands_runJob fun r φ hφ => ?_
        refine Stands.bind (stands_leave hφ) (fun _ φ' h => stands_done (Or.inr h)) fun e φ' h => Or.inr h
    refine Stands.attempt hheld fun r φ hφ => ?_
    cases r with
    | ok code => exact stands_done hφ
    | error e => exact Follows.ite (fun _ => stands_done hφ) fun _ => stands_done hφ

/-- A worker that left the lock without a last state writes none. -/
theorem uses_of_left {post : Except JobExc α → JobPhase → Prop} {p : JobM α} (h : Stands post p .left) :
    Uses (fun call => ∀ status,call≠.replaceStatus status) p := by
  induction p with
  | done r => trivial
  | call call next ih =>
    refine ⟨fun status hcall => ?_,fun r => ih r ?_⟩
    · subst hcall
      obtain ⟨φ',hturn,_⟩ := h (.ok ())
      cases hturn with
      | quiet _ hq => exact nomatch hq
      | unlock _ hu => exact nomatch hu
    · obtain ⟨φ',hturn,hrest⟩ := h r
      cases hturn with
      | lost hφ => exact absurd rfl hφ
      | quiet => exact hrest
      | writeRaised hφ => rcases hφ with h | h <;> exact nomatch h
      | unlock => exact hrest
      | stayLeft => exact hrest

end Worker

section Readers
variable {running : Bool}

/-- What a reader knows of the lock: it was free only where a running status
makes the job interrupted. -/
def Probed (running : Bool) (r : Except JobExc Bool) (φ : JobPhase) : Prop :=
  ∃ held,r=.ok held ∧ ∃ interrupted,φ=.derived interrupted ∧ (held=false → interrupted=running)

/-- A call that does not raise goes on in a known phase. -/
theorem stands_call {call : JobCall} {φ : JobPhase} {mid : call.Ret → JobPhase → Prop} (hφ : φ≠.left)
    (hcall : ∀ e,neverRaises call e=true) (hok : ∀ a,∃ φ',JobTurn φ call (.ok a) φ' ∧ mid a φ') :
    Stands (fun r φ' => ∃ a,r=.ok a ∧ mid a φ') (job call) φ := by
  refine Follows.perform fun r => ?_
  cases r with
  | ok a =>
    obtain ⟨φ',hturn,hmid⟩ := hok a
    exact ⟨φ',hturn,Or.inr ⟨a,rfl,hmid⟩⟩
  | error e => exact ⟨.gone,.lost hφ (hcall e),Or.inl rfl⟩

/-- A reader reads the status. -/
theorem stands_lookUp : Stands (fun r φ => ∀ status,r=.ok status → ∃ running,φ=.read running ∧
    (running=true ↔ ∃ s,status=some s ∧ s.state=some .running)) readStatus .looking := by
  have hfile : Stands (fun r φ => φ=.read (saysRunning r)) (job .readStatusFile) .looking :=
    Follows.perform fun r => ⟨_,.read r,Or.inr rfl⟩
  refine Stands.attempt hfile fun r φ hφ => ?_
  subst hφ
  cases r with
  | ok status =>
    refine stands_done fun found hfound => ⟨_,rfl,?_⟩
    cases Except.ok.inj hfound
    simp [saysRunning]
  | error e =>
    refine Follows.ite (fun _ => ?_) fun _ => stands_done fun _ h => nomatch h
    refine stands_done fun found hfound => ⟨_,rfl,?_⟩
    cases Except.ok.inj hfound
    simp [saysRunning]

/-- A probe takes the lock and gives it back, or finds it held. -/
theorem stands_probe : Stands (Probed running) probe (.read running) := by
  have htake : Stands (fun r φ => (r=.ok () ∧ φ=.derived running) ∨
      (r=.error .operationalError ∧ φ=.derived false))
      (do executeBegin; job .rollback) (.read running) := by
    have hbegin : Stands (fun r φ => (r=.ok () ∧ φ=.took running) ∨ (r=.error .operationalError ∧ φ=.derived false))
        executeBegin (.read running) := by
      refine Follows.perform_bind (fun _ => ⟨_,.enter,?_⟩) fun e => ?_
      · intro r
        cases r with
        | ok _ => exact ⟨_,.take,Or.inr (Or.inl ⟨rfl,rfl⟩)⟩
        | error e =>
          by_cases he : e=.operationalError
          · subst he
            exact ⟨_,.held,Or.inr (Or.inr ⟨rfl,rfl⟩)⟩
          · exact ⟨_,.lost (fun h => nomatch h) (decide_eq_true he),Or.inl rfl⟩
      · by_cases he : e=.operationalError
        · subst he
          exact ⟨_,.kept,Or.inr (Or.inr ⟨rfl,rfl⟩)⟩
        · exact ⟨_,.lost (fun h => nomatch h) (decide_eq_true he),Or.inl rfl⟩
    refine Stands.bind hbegin (fun _ φ hφ => ?_) fun e φ hφ => ?_
    · have htook : φ=.took running := by
        rcases hφ with ⟨_,h⟩ | ⟨h,_⟩
        · exact h
        · cases h
      subst htook
      have hgive := @stands_call .rollback (.took running) (fun _ φ => φ=.derived running)
        (fun h => nomatch h) (fun _ => rfl) fun _ => ⟨_,.give,rfl⟩
      exact hgive.weaken fun r φ ⟨_,hr,hφ⟩ => Or.inl ⟨hr,hφ⟩
    · rcases hφ with ⟨h,_⟩ | ⟨h,hφ⟩
      · cases h
      · cases Except.error.inj h
        exact Or.inr ⟨rfl,hφ⟩
  refine Stands.attempt htake fun r φ hφ => ?_
  rcases hφ with ⟨rfl,rfl⟩ | ⟨rfl,rfl⟩
  · exact stands_done ⟨false,rfl,running,rfl,fun _ => rfl⟩
  · refine Follows.ite (fun _ => stands_done ⟨true,rfl,false,rfl,fun h => nomatch h⟩) fun h => absurd rfl h

/-- A reader asks whether the lock is held. -/
theorem stands_jobLockHeld : Stands (Probed running) jobLockHeld (.read running) := by
  have hthere := @stands_call .lockExists (.read running)
    (fun there φ => if there=true then φ=.read running else φ=.derived running) (fun h => nomatch h)
    (fun _ => rfl) fun there => by
      cases there
      · exact ⟨_,.missing,rfl⟩
      · exact ⟨_,.found,rfl⟩
  refine Stands.bind hthere (fun there φ hφ => ?_) fun e φ ⟨_,h,_⟩ => nomatch h
  obtain ⟨_,heq,hφ⟩ := hφ
  cases Except.ok.inj heq
  cases there with
  | false => exact stands_done ⟨false,rfl,running,hφ,fun _ => rfl⟩
  | true =>
    have hopen : Stands (fun r φ => (r=.ok () ∧ φ=.read running) ∨
        ∃ e,r=.error e ∧ e.isSqlite=true ∧ φ=.derived running) (job .connect) (.read running) := by
      refine Follows.perform fun r => ?_
      cases r with
      | ok _ => exact ⟨_,.open',Or.inr (Or.inl ⟨rfl,rfl⟩)⟩
      | error e =>
        by_cases he : e.isSqlite=true
        · exact ⟨_,.shutOut,Or.inr (Or.inr ⟨e,rfl,he,rfl⟩)⟩
        · have hraises : neverRaises .connect e=true := by simp only [neverRaises,he,Bool.not_false]
          exact ⟨_,.lost (fun h => nomatch h) hraises,Or.inl rfl⟩
    obtain rfl : φ=.read running := hφ
    refine Stands.attempt hopen fun r φ hφ => ?_
    rcases hφ with ⟨rfl,rfl⟩ | ⟨e,rfl,he,rfl⟩
    swap
    · exact Follows.ite (fun _ => stands_done ⟨false,rfl,running,rfl,fun _ => rfl⟩) fun h => absurd he h
    refine Stands.attempt stands_probe fun r φ ⟨held,hr,interrupted,hφ,hheld⟩ => ?_
    subst hr hφ
    have hshut := @stands_call .close (.derived interrupted) (fun _ φ => φ=.derived interrupted)
      (fun h => nomatch h) (fun _ => rfl) fun _ => ⟨_,.shut,rfl⟩
    refine Stands.bind hshut (fun _ φ ⟨_,_,hφ⟩ => ?_) fun e φ ⟨_,h,_⟩ => nomatch h
    exact stands_done ⟨held,rfl,interrupted,hφ,hheld⟩

/-- Only a running status under a free lock is derived to be interrupted. -/
theorem derivedState_interrupted {status : Option JobStatus} {held : Bool}
    (h : derivedState status held=.interrupted) :
    held=false ∧ ∃ s,status=some s ∧ s.state=some .running := by
  unfold derivedState at h
  split at h
  next => exact nomatch h
  next s =>
    split at h
    next => exact nomatch h
    next state hstate =>
      split at h
      next hboth => exact ⟨hboth.2,s,rfl,by rw [hstate,hboth.1]⟩
      next => exact nomatch h

/-- A reader derives the job's state. -/
theorem stands_jobState : Stands (fun r φ => ∀ found,r=.ok found → ∃ interrupted,φ=.derived interrupted ∧
    (found.2=.interrupted → interrupted=true)) jobState .looking := by
  refine Stands.bind stands_lookUp (fun status φ hφ => ?_) fun e φ _ _ h => nomatch h
  obtain ⟨running,rfl,hrunning⟩ := hφ status rfl
  refine Stands.bind stands_jobLockHeld (fun held φ hφ => ?_) fun e φ ⟨_,h,_⟩ => nomatch h
  obtain ⟨_,heq,interrupted,rfl,hheld⟩ := hφ
  cases Except.ok.inj heq
  refine stands_done fun found hfound => ⟨interrupted,rfl,fun h => ?_⟩
  cases Except.ok.inj hfound
  obtain ⟨hfree,hstatus⟩ := derivedState_interrupted h
  rw [hheld hfree]
  exact hrunning.mpr hstatus

/-- A reader's program: after each report it knows nothing again. -/
theorem stands_readJob (rounds : ℕ) : Stands (fun _ _ => True) (readJob rounds) .looking := by
  induction rounds with
  | zero => exact stands_done trivial
  | succ rounds ih =>
    refine Stands.bind stands_jobState (fun found φ hφ => ?_) fun _ _ _ => trivial
    obtain ⟨status,state⟩ := found
    obtain ⟨interrupted,rfl,hstate⟩ := hφ _ rfl
    have hreport := @stands_call (.report state) (.derived interrupted) (fun _ φ => φ=.looking)
      (fun h => nomatch h) (fun _ => rfl) fun _ => ⟨_,.report hstate,rfl⟩
    refine Stands.bind hreport (fun _ φ ⟨_,_,hφ⟩ => ?_) fun _ _ _ => trivial
    subst hφ
    match state with
    | .stored .succeeded | .stored .failed | .interrupted => exact stands_done trivial
    | .stored .submitted | .stored .running | .unknown => exact ih

end Readers

/-- The stored status says running. -/
def Runs (w : JobWorld) : Prop := ∃ status,w.status=some status ∧ status.state=some .running

/-- The stored status has a terminal state. -/
def Over (w : JobWorld) : Prop := ∃ status,w.status=some status ∧ isOver status=true

/-- The worker went without writing a terminal state. -/
def Died (worker : JobPhase) (w : JobWorld) : Prop := ¬Over w ∧ (.worker∈w.dead ∨ worker=.left)

/-- A live worker is in the lock. -/
def Holds (w : JobWorld) : Prop := .worker∈w.dead ∨ w.lock=some .worker

/-- What a worker's phase says of the files and the lock. -/
def WorkerKnows (w : JobWorld) (m : JobWatch) : JobPhase → Prop
  | .outside => ¬Over w ∧ ¬Runs w ∧ ∀ n,m.readRunning n=false
  | .locked => ¬Over w ∧ ¬Runs w ∧ (∀ n,m.readRunning n=false) ∧ Holds w ∧ w.lockFile=true
  | .running => ¬Over w ∧ Holds w ∧ w.lockFile=true
  | .finished => m.finished=true ∧ w.lockFile=true
  | .left => ¬Over w ∧ w.lockFile=true
  | _ => False

/-- What a reader's phase says of its last read. -/
def ReaderKnows (worker : JobPhase) (w : JobWorld) (m : JobWatch) (n : ℕ) : JobPhase → Prop
  | .looking => True
  | .read running => m.readRunning n=running
  | .took interrupted | .derived interrupted => interrupted=true → m.overtaken=true ∨ Died worker w
  | _ => False

/-- What holds of the processes around a job wherever a run leads. -/
structure JobInvariant (phases : Party → JobPhase) (s : JobWorld × JobWatch) : Prop where
  /-- What the worker's phase says of the job. -/
  worker : WorkerKnows s.1 s.2 (phases .worker)
  /-- The system only kills. -/
  system : phases .system=.killing
  /-- What each reader's phase says of the job. -/
  reader : ∀ n,ReaderKnows (phases .worker) s.1 s.2 n (phases (.reader n))
  /-- Whoever read a running status read it after the lock was taken. -/
  file : ∀ n,s.2.readRunning n=true → s.1.lockFile=true
  /-- Who was told interrupted was overtaken, or the worker had died. -/
  reports : ∀ party,(party,.interrupted)∈s.1.reports → s.2.overtaken=true ∨ Died (phases .worker) s.1

section Steps
variable {phases : Party → JobPhase} {w w' : JobWorld} {m m' : JobWatch}

/-- A worker that took the lock and is neither dead nor over is in it. -/
theorem died_of_free {worker : JobPhase} {n : ℕ} (h : WorkerKnows w m worker) (hfree : w.lock=none)
    (hread : m.readRunning n=true) (hunfinished : m.finished=false) : Died worker w := by
  have hholds : Holds w → .worker∈w.dead := by
    rintro (hdead | hlock)
    · exact hdead
    · rw [hfree] at hlock
      exact nomatch hlock
  cases worker with
  | outside => exact absurd (h.2.2 n) (by simp [hread])
  | locked => exact absurd (h.2.2.1 n) (by simp [hread])
  | running => exact ⟨h.1,Or.inl (hholds h.2.1)⟩
  | finished => exact absurd h.1 (by simp [hunfinished])
  | left => exact ⟨h.1,Or.inr rfl⟩
  | _ => exact h.elim

/-- A step of a reader or of the system that keeps the status keeps what the worker knows. -/
theorem WorkerKnows.keep {worker : JobPhase} (h : WorkerKnows w m worker) (hstatus : w'.status=w.status)
    (hread : (∀ n,m.readRunning n=false) → ¬Runs w → ∀ n,m'.readRunning n=false)
    (hholds : Holds w → Holds w') (hfile : w.lockFile=true → w'.lockFile=true)
    (hfinished : m.finished=true → m'.finished=true) : WorkerKnows w' m' worker := by
  have hover : ¬Over w → ¬Over w' := by
    unfold Over
    rw [hstatus]
    exact id
  have hruns : ¬Runs w → ¬Runs w' := by
    unfold Runs
    rw [hstatus]
    exact id
  cases worker with
  | outside => exact ⟨hover h.1,hruns h.2.1,hread h.2.2 h.2.1⟩
  | locked =>
    obtain ⟨h₁,h₂,h₃,h₄,h₅⟩ := h
    exact ⟨hover h₁,hruns h₂,hread h₃ h₂,hholds h₄,hfile h₅⟩
  | running => exact ⟨hover h.1,hholds h.2.1,hfile h.2.2⟩
  | finished => exact ⟨hfinished h.1,hfile h.2⟩
  | left => exact ⟨hover h.1,hfile h.2⟩
  | _ => exact h

/-- A job that runs had its lock taken. -/
theorem file_of_runs {worker : JobPhase} (h : WorkerKnows w m worker) (hruns : Runs w) : w.lockFile=true := by
  cases worker with
  | outside => exact absurd hruns h.2.1
  | locked => exact h.2.2.2.2
  | running => exact h.2.2
  | finished | left => exact h.2
  | _ => exact h.elim

/-- What a reader's step leaves as it is. -/
structure ReaderStep (n : ℕ) (w w' : JobWorld) (m m' : JobWatch) : Prop where
  /-- The stored status stays. -/
  status : w'.status=w.status
  /-- The dead stay the same. -/
  dead : w'.dead=w.dead
  /-- A lock that the worker holds stays held. -/
  lock : w.lock=some .worker → w'.lock=some .worker
  /-- The lock's file stays. -/
  file : w.lockFile=true → w'.lockFile=true
  /-- The watch on the end of the worker's run stays. -/
  finished : m'.finished=m.finished
  /-- A reader that was overtaken stays so. -/
  overtaken : m.overtaken=true → m'.overtaken=true
  /-- What the other readers read stays. -/
  others : ∀ k,k≠n → m'.readRunning k=m.readRunning k
  /-- A reader reads running only where the job runs. -/
  own : m'.readRunning n=true → m.readRunning n=true ∨ Runs w

/-- A reader's step keeps the invariant where its phase and its report are right. -/
theorem JobInvariant.step_reader {n : ℕ} {φ' : JobPhase} (h : JobInvariant phases (w,m))
    (hstep : ReaderStep n w w' m m') (hknows : ReaderKnows (phases .worker) w' m' n φ')
    (hreports : ∀ party,(party,.interrupted)∈w'.reports → (party,.interrupted)∈w.reports ∨
      m'.overtaken=true ∨ Died (phases .worker) w') :
    JobInvariant (Function.update phases (.reader n) φ') (w',m') := by
  have hworker : Function.update phases (.reader n) φ' .worker=phases .worker :=
    Function.update_of_ne (fun h : Party.worker=.reader n => nomatch h) _ _
  have hdied : Died (phases .worker) w → Died (phases .worker) w' := by
    unfold Died Over
    rw [hstep.status,hstep.dead]
    exact id
  have hknown : m.overtaken=true ∨ Died (phases .worker) w → m'.overtaken=true ∨ Died (phases .worker) w' :=
    Or.imp hstep.overtaken hdied
  have hread : ∀ k,m'.readRunning k=true → m.readRunning k=true ∨ Runs w := by
    intro k hk
    by_cases hkn : k=n
    · exact hkn ▸ hstep.own (hkn ▸ hk)
    · rw [hstep.others k hkn] at hk
      exact Or.inl hk
  refine ⟨?_,?_,fun k => ?_,fun k hk => ?_,fun party hp => ?_⟩
  · rw [hworker]
    refine h.worker.keep hstep.status (fun hnone hno k => ?_) (fun hholds => ?_) hstep.file fun hf => ?_
    · by_contra hk
      rcases hread k (by simpa using hk) with hk | hruns
      · exact nomatch (hnone k).symm.trans hk
      · exact hno hruns
    · exact hholds.imp (fun hd => hstep.dead ▸ hd) hstep.lock
    · rw [hstep.finished]
      exact hf
  · exact (Function.update_of_ne (fun h : Party.system=.reader n => nomatch h) _ _).trans h.system
  · rw [hworker]
    by_cases hkn : k=n
    · subst hkn
      rw [Function.update_self]
      exact hknows
    · rw [Function.update_of_ne (fun h => hkn (Party.reader.inj h))]
      have hold := h.reader k
      cases hphase : phases (.reader k) with
      | looking => trivial
      | read running =>
        rw [hphase] at hold
        exact (hstep.others k hkn).trans hold
      | took running | derived running =>
        rw [hphase] at hold
        exact fun ht => hknown (hold ht)
      | _ =>
        rw [hphase] at hold
        exact hold.elim
  · rcases hread k hk with hk | hruns
    · exact hstep.file (h.file k hk)
    · exact hstep.file (file_of_runs h.worker hruns)
  · rw [hworker]
    rcases hreports party hp with hold | hnew
    · exact hknown (h.reports party hold)
    · exact hnew

/-- A reader's step that changes nothing that is watched. -/
theorem ReaderStep.same {n : ℕ} (hlock : w.lock=some .worker → w'.lock=some .worker)
    (hrest : w'.status=w.status ∧ w'.dead=w.dead ∧ (w.lockFile=true → w'.lockFile=true)) :
    ReaderStep n w w' m m :=
  ⟨hrest.1,hrest.2.1,hlock,hrest.2.2,rfl,id,fun _ _ => rfl,Or.inl⟩

/-- A process that lets go of the lock takes it from no other. -/
theorem unlock_other {party other : Party} (hne : other≠party) (h : w.lock=some other) :
    (w.unlock party).lock=some other := by
  have hno : ¬some other=some party := fun heq => hne (Option.some.inj heq)
  simp only [JobWorld.unlock,h,if_neg hno]

/-- Every turn of a reader keeps the invariant. -/
theorem JobInvariant.reader_turn {n : ℕ} {call : JobCall} {r : Except JobExc call.Ret} {φ' : JobPhase}
    (h : JobInvariant phases (w,m)) (hturn : JobTurn (phases (.reader n)) call r φ')
    (hans : JobAnswers (.reader n) call w r w') :
    JobInvariant (Function.update phases (.reader n) φ') (w',watchJob (.reader n) call r m) := by
  have hknows := h.reader n
  have hnone : (phases (.reader n)).isWorker=true → False := by
    intro hw
    cases hphase : phases (.reader n) <;> rw [hphase] at hw hknows <;>
      first | exact hknows | exact absurd hw (by simp [JobPhase.isWorker])
  generalize phases (.reader n)=φ at hturn hknows hnone
  cases hturn with
  | gone => exact hknows.elim
  | lost _ hnever => exact nomatch (raises_of_answer hans).symm.trans hnever
  | quiet hw => exact (hnone hw).elim
  | lock => exact hknows.elim
  | lockHeld => exact hknows.elim
  | run => exact hknows.elim
  | finish => exact hknows.elim
  | writeRaised hw => rcases hw with rfl | rfl <;> exact hknows.elim
  | unlock hw => exact (hnone hw).elim
  | stayLeft => exact hknows.elim
  | kill => exact hknows.elim
  | read r =>
    have hstep : ReaderStep n w w' m (watchJob (.reader n) .readStatusFile r m) := by
      refine ⟨?_,?_,?_,?_,rfl,id,fun k hk => Function.update_of_ne hk _ _,fun hread => Or.inr ?_⟩
      · cases hans <;> rfl
      · cases hans <;> rfl
      · cases hans <;> exact id
      · cases hans <;> exact id
      · have hsays : saysRunning r=true := by
          simpa only [watchJob,Function.update_self] using hread
        cases hans with
        | fileFault => exact nomatch hsays
        | readStatusFile _ hw => exact ⟨_,hw,of_decide_eq_true hsays⟩
    have hown : (watchJob (.reader n) .readStatusFile r m).readRunning n=saysRunning r := by
      simp [watchJob]
    refine h.step_reader hstep hown fun party hp => Or.inl ?_
    cases hans <;> exact hp
  | found =>
    generalize true=there at hans
    cases hans
    exact h.step_reader (.same id ⟨rfl,rfl,id⟩) hknows fun _ hp => Or.inl hp
  | missing =>
    rename_i running
    generalize hfile : false=there at hans
    cases hans with
    | lockExists =>
      refine h.step_reader (.same id ⟨rfl,rfl,id⟩) (fun hr => ?_) fun _ hp => Or.inl hp
      have hread : m.readRunning n=running := hknows
      exact absurd (h.file n (hread.trans hr)) (by simp [←hfile])
  | open' =>
    cases hans
    exact h.step_reader (.same id ⟨rfl,rfl,fun _ => rfl⟩) hknows fun _ hp => Or.inl hp
  | take =>
    rename_i running
    have hread : m.readRunning n=running := hknows
    cases hans with
    | beginExclusive _ halone =>
      have hfree := halone.1
      have hstep : ReaderStep n w { w with lockFile := true, lock := some (.reader n), trying := [] } m
          (watchJob (.reader n) .beginExclusive (.ok ()) m) := by
        refine ⟨rfl,rfl,fun hlock => ?_,fun _ => rfl,rfl,fun ho => ?_,fun _ _ => rfl,Or.inl⟩
        · rw [hfree] at hlock
          exact nomatch hlock
        · simp [watchJob,ho]
      refine h.step_reader hstep (fun hr => ?_) fun _ hp => Or.inl hp
      rw [hr] at hread
      by_cases hfinished : m.finished=true
      · exact Or.inl (by simp [watchJob,hread,hfinished])
      · have hdied : Died (phases .worker) w :=
          died_of_free h.worker hfree hread (by simpa using hfinished)
        exact Or.inr hdied
  | shutOut =>
    rename_i running e
    have hread : m.readRunning n=running := hknows
    cases hans with
    | fileFault _ hcall => rcases hcall with h | h | ⟨_,h⟩ | h <;> exact nomatch h
    | connectRaised =>
      have hstep : ReaderStep n w w m (watchJob (.reader n) .connect (.error e) m) :=
        ⟨rfl,rfl,id,id,rfl,fun ho => (by simp [watchJob,ho]),fun _ _ => rfl,Or.inl⟩
      exact h.step_reader hstep (fun hr => Or.inl (by simp [watchJob,hread,hr])) fun _ hp => Or.inl hp
  | enter =>
    cases hans
    exact h.step_reader (.same id ⟨rfl,rfl,fun _ => rfl⟩) hknows fun _ hp => Or.inl hp
  | kept =>
    cases hans with
    | fileFault _ hcall => rcases hcall with h | h | ⟨_,h⟩ | h <;> exact nomatch h
    | sharedRaised => exact h.step_reader (.same id ⟨rfl,rfl,id⟩) (fun h => nomatch h) fun _ hp => Or.inl hp
  | held =>
    cases hans with
    | fileFault _ hcall => rcases hcall with h | h | ⟨_,h⟩ | h <;> exact nomatch h
    | beginRaised => exact h.step_reader (.same id ⟨rfl,rfl,id⟩) (fun h => nomatch h) fun _ hp => Or.inl hp
  | give =>
    cases hans
    exact h.step_reader (.same (unlock_other fun h => nomatch h) ⟨rfl,rfl,id⟩) hknows fun _ hp => Or.inl hp
  | shut =>
    cases hans
    exact h.step_reader (.same (unlock_other fun h => nomatch h) ⟨rfl,rfl,id⟩) hknows fun _ hp => Or.inl hp
  | report hstate =>
    cases hans
    refine h.step_reader (.same id ⟨rfl,rfl,id⟩) trivial fun party hp => ?_
    rcases List.mem_cons.mp hp with heq | hp
    · exact Or.inr (hknows (hstate (congrArg Prod.snd heq).symm))
    · exact Or.inl hp

/-- A worker's step keeps the invariant where its phase is right. -/
theorem JobInvariant.step_worker {φ' : JobPhase} (h : JobInvariant phases (w,m))
    (hknows : WorkerKnows w' m' φ') (hdied : Died (phases .worker) w → Died φ' w')
    (hread : m'.readRunning=m.readRunning) (hovertaken : m'.overtaken=m.overtaken)
    (hfile : w.lockFile=true → w'.lockFile=true) (hreports : w'.reports=w.reports) :
    JobInvariant (Function.update phases .worker φ') (w',m') := by
  have hworker : Function.update phases .worker φ' .worker=φ' := Function.update_self _ _ _
  have hreader : ∀ n,Function.update phases .worker φ' (.reader n)=phases (.reader n) :=
    fun n => Function.update_of_ne (fun h : Party.reader n=.worker => nomatch h) _ _
  have hknown : m.overtaken=true ∨ Died (phases .worker) w → m'.overtaken=true ∨ Died φ' w' :=
    Or.imp (fun ht => hovertaken ▸ ht) hdied
  refine ⟨?_,?_,fun n => ?_,fun n hn => ?_,fun party hp => ?_⟩
  · rw [hworker]
    exact hknows
  · exact (Function.update_of_ne (fun h : Party.system=.worker => nomatch h) _ _).trans h.system
  · have hold := h.reader n
    rw [hworker,hreader]
    cases hphase : phases (.reader n) with
    | looking => trivial
    | read running =>
      rw [hphase] at hold
      exact (congrFun hread n).trans hold
    | took running | derived running =>
      rw [hphase] at hold
      exact fun ht => hknown (hold ht)
    | _ =>
      rw [hphase] at hold
      exact hold.elim
  · exact hfile (h.file n ((congrFun hread n).symm.trans hn))
  · rw [hworker]
    exact hknown (h.reports party (hreports ▸ hp))

/-- Every turn of the worker keeps the invariant. -/
theorem JobInvariant.worker_turn {call : JobCall} {r : Except JobExc call.Ret} {φ' : JobPhase}
    (h : JobInvariant phases (w,m)) (hturn : JobTurn (phases .worker) call r φ')
    (hans : JobAnswers .worker call w r w') :
    JobInvariant (Function.update phases .worker φ') (w',watchJob .worker call r m) := by
  have hknows := h.worker
  have hstep := fun w' m' φ' => @JobInvariant.step_worker phases w w' m m' φ' h
  generalize phases .worker=φ at hturn hknows hstep
  -- An error changes nothing.
  have hsame : w'=w → watchJob .worker call r m=m → φ'=φ →
      JobInvariant (Function.update phases .worker φ') (w',watchJob .worker call r m) := by
    rintro rfl hm rfl
    rw [hm]
    exact hstep _ _ _ hknows id rfl rfl id rfl
  cases hturn with
  | gone => exact hknows.elim
  | lost _ hnever => exact nomatch (raises_of_answer hans).symm.trans hnever
  | quiet hw hquiet =>
    cases hans with
    | connect | beginShared =>
      exact hstep _ _ _ (hknows.keep rfl (fun hr _ => hr) id (fun _ => rfl) id) id rfl rfl (fun _ => rfl) rfl
    | fileFault _ hcall => exact hsame rfl (by rcases hcall with rfl | rfl | ⟨_,rfl⟩ | rfl <;> rfl) rfl
    | readSpec | readStatusFile | appendEvent | execute | executeRaised | connectRaised | sharedRaised =>
      exact hsame rfl rfl rfl
    | _ => exact nomatch hquiet
  | lock =>
    cases hans with
    | beginExclusive =>
      obtain ⟨hover,hruns,hread⟩ := hknows
      refine hstep _ _ _ ⟨hover,hruns,hread,Or.inr rfl,rfl⟩ (fun hd => ?_) rfl rfl (fun _ => rfl) rfl
      exact ⟨hover,hd.2.imp id fun h => nomatch h⟩
  | lockHeld =>
    refine hsame ?_ rfl rfl
    cases hans <;> rfl
  | @run status hstatus =>
    cases hans with
    | replaceStatus halive =>
      obtain ⟨hover,_,_,hholds,hfile⟩ := hknows
      have hstill : isOver status=false := by simp [isOver,hstatus,JobState.isTerminal]
      have hnew : ¬Over { w with status := some status } := by
        rintro ⟨s,hs,ho⟩
        cases Option.some.inj hs
        exact nomatch hstill.symm.trans ho
      refine hstep _ _ _ ⟨hnew,hholds,hfile⟩ (fun hd => ⟨hnew,hd.2.imp id fun h => nomatch h⟩) rfl rfl id rfl
  | @finish status hstatus =>
    cases hans with
    | replaceStatus halive =>
      obtain ⟨hover,_,hfile⟩ := hknows
      refine hstep _ _ _ ⟨by simp [watchJob,hstatus],hfile⟩ (fun hd => ?_) rfl rfl id rfl
      rcases hd.2 with hdead | hleft
      · exact absurd hdead halive
      · exact nomatch hleft
  | writeRaised =>
    refine hsame ?_ rfl rfl
    cases hans
    rfl
  | unlock hw hunlock =>
    have hm : ∀ a,watchJob .worker call (.ok a) m=m := by
      intro a
      cases call <;> first | rfl | exact nomatch hunlock
    have hw' : w'=w.unlock .worker := by
      cases hans <;> first | rfl | exact nomatch hunlock
    subst hw'
    rw [hm]
    refine hstep _ _ _ ?_ (fun hd => ?_) rfl rfl id rfl
    · cases φ with
      | outside => exact hknows
      | locked => exact ⟨hknows.1,hknows.2.2.2.2⟩
      | running => exact ⟨hknows.1,hknows.2.2⟩
      | finished | left => exact hknows
      | _ => exact hknows.elim
    · refine ⟨hd.1,hd.2.imp id fun hleft => ?_⟩
      rw [hleft]
      rfl
  | stayLeft hunlock =>
    have hraises := raises_of_answer hans
    cases call with
    | rollback | close => cases hraises
    | _ => exact nomatch hunlock
  | _ => exact hknows.elim

/-- Every turn of the system keeps the invariant. -/
theorem JobInvariant.system_turn {call : JobCall} {r : Except JobExc call.Ret} {φ' : JobPhase}
    (h : JobInvariant phases (w,m)) (hturn : JobTurn (phases .system) call r φ')
    (hans : JobAnswers .system call w r w') :
    JobInvariant (Function.update phases .system φ') (w',watchJob .system call r m) := by
  rw [h.system] at hturn
  have hm : watchJob .system call r m=m := by
    unfold watchJob
    split <;> first | rfl | contradiction
  rw [hm]
  cases hturn with
  | lost _ hnever => exact nomatch (raises_of_answer hans).symm.trans hnever
  | quiet hw => exact nomatch hw
  | unlock hw => exact nomatch hw
  | writeRaised hw => rcases hw with h | h <;> exact nomatch h
  | @kill killed =>
    cases hans with
    | kill halive =>
      have hphases : Function.update phases .system .killing=phases := by
        rw [←h.system]
        exact Function.update_eq_self _ _
      rw [hphases]
      have hdied : Died (phases .worker) w → Died (phases .worker) { w.unlock killed with dead := killed::w.dead } :=
        fun hd => ⟨hd.1,hd.2.imp (List.mem_cons_of_mem _) id⟩
      have hholds : Holds w → Holds { w.unlock killed with dead := killed::w.dead } := by
        rintro (hdead | hlock)
        · exact Or.inl (List.mem_cons_of_mem _ hdead)
        · by_cases hk : killed=.worker
          · exact Or.inl (by rw [hk]; exact List.mem_cons_self)
          · exact Or.inr (unlock_other (fun heq => hk heq.symm) hlock)
      refine ⟨h.worker.keep rfl (fun hn _ => hn) hholds id id,h.system,fun n => ?_,h.file,fun party hp => ?_⟩
      · have hold := h.reader n
        cases hphase : phases (.reader n) with
        | took running | derived running =>
          rw [hphase] at hold
          exact fun ht => (hold ht).imp id hdied
        | _ =>
          rw [hphase] at hold
          exact hold
      · exact (h.reports party hp).imp id hdied

end Steps

/-- Every turn of every process keeps the invariant. -/
theorem keeps_job : PoolKeeps (fun _ => JobTurn) watchedJob JobInvariant := by
  rintro phases party call r φ' ⟨w,m⟩ ⟨w',m'⟩ hturn ⟨hans,hm⟩ h
  cases hm
  cases party with
  | worker => exact h.worker_turn hturn hans
  | system => exact h.system_turn hturn hans
  | reader n => exact h.reader_turn hturn hans

/-- Where each party stands at the start. -/
def startingPhase : Party → JobPhase
  | .worker => .outside
  | .system => .killing
  | .reader _ => .looking

/-- A job is reported as interrupted only if its worker died, or left by an
error, and wrote no terminal state, where no reader that read a running status
took the lock after the worker's terminal state was written or failed to connect to it. -/
theorem interrupted_only_if_died (rounds : ℕ → ℕ) (killed : List Party)
    {c : Pool JobCall JobCall.Ret JobExc Party.Result (JobWorld × JobWatch)}
    (hr : PoolReach watchedJob (jobPrograms rounds killed,(JobWorld.submitted,JobWatch.start)) c)
    (hno : c.2.2.overtaken=false) {party : Party} (h : (party,.interrupted)∈c.2.1.reports) :
    ¬Over c.2.1 ∧ (.worker∈c.2.1.dead ∨ Uses (fun call => ∀ status,call≠.replaceStatus status) (c.1 .worker)) := by
  have hover : ∀ status,JobWorld.submitted.status=some status → status.state=some .submitted := by
    intro status hs
    cases Option.some.inj hs
    rfl
  have hstart : JobInvariant startingPhase (JobWorld.submitted,JobWatch.start) := by
    refine ⟨⟨?_,?_,fun _ => rfl⟩,rfl,fun _ => trivial,fun _ h => (by cases h),fun _ h => (by cases h)⟩
    · rintro ⟨status,hs,ho⟩
      simp [isOver,hover status hs,JobState.isTerminal] at ho
    · rintro ⟨status,hs,hrun⟩
      cases (hover status hs).symm.trans hrun
  have hkills : ∀ killed,Stands (fun _ _ => True) (killAll killed) .killing := by
    intro killed
    induction killed with
    | nil => exact stands_done trivial
    | cons party rest ih =>
      have hkill := @stands_call (.kill party) .killing (fun _ φ => φ=.killing) (fun h => (by cases h)) (fun _ => rfl)
        fun _ => ⟨_,.kill,rfl⟩
      refine Stands.bind hkill (fun _ φ hφ => ?_) fun _ _ _ => trivial
      obtain ⟨_,_,hφ⟩ := hφ
      rw [hφ]
      exact ih
  have hfollows : PoolFollows (fun _ => JobTurn) (fun _ _ φ => φ=.gone ∨ True) (jobPrograms rounds killed)
      startingPhase := by
    intro party
    cases party with
    | worker => exact stands_cmdWorker.weaken fun _ _ _ => trivial
    | system => exact hkills killed
    | reader n => exact stands_readJob (rounds n)
  obtain ⟨phases,hinv,hrest⟩ := keeps_job.reach hfollows hstart hr
  rcases hinv.reports party h with hyes | ⟨hnot,hdied⟩
  · cases hno.symm.trans hyes
  · refine ⟨hnot,hdied.imp id fun hleft => ?_⟩
    have hworker := hrest .worker
    rw [hleft] at hworker
    exact uses_of_left hworker

/-- Answer every call without a fault. A killed process is not answered. -/
def answerJob (execution : MlExecution) (party : Party) : Handler JobCall JobCall.Ret JobExc JobWorld :=
  fun call w => if party∈w.dead then none else match call with
  | .readSpec | .appendEvent => some (.ok (),w)
  | .connect => some (.ok (),{ w with lockFile := true })
  | .readStatusFile => w.status.map fun status => (.ok status,w)
  | .replaceStatus status => some (.ok (),{ w with status := some status })
  | .execute => some (.ok execution,w)
  | .lockExists => some (.ok w.lockFile,w)
  | .beginShared =>
    if w.lock=none then some (.ok (),{ w with lockFile := true, trying := party::w.trying })
    else some (.error .operationalError,w)
  | .beginExclusive =>
    if w.Alone party then some (.ok (),{ w with lockFile := true, lock := some party, trying := [] })
    else some (.error .operationalError,w)
  | .rollback | .close => some (.ok (),w.unlock party)
  | .report state => some (.ok (),{ w with reports := (party,state)::w.reports })
  | .kill killed => some (.ok (),{ w.unlock killed with dead := killed::w.dead })

/-- The chosen answers are answers that a job's files may give. -/
theorem answerJob_respects (execution : MlExecution) (party : Party) :
    Handler.Respects (answerJob execution party) (JobAnswers party) := by
  intro call w r w' h
  unfold answerJob at h
  split at h
  next => exact nomatch h
  next halive =>
    cases call with
    | beginShared =>
      simp only at h
      split at h
      next hfree =>
        cases h
        exact .beginShared halive hfree
      next hheld =>
        cases h
        exact .sharedRaised halive fun halone => hheld halone.1
    | beginExclusive =>
      simp only at h
      split at h
      next halone =>
        cases h
        exact .beginExclusive halive halone
      next hheld =>
        cases h
        exact .beginRaised halive hheld
    | readStatusFile =>
      cases hs : w.status with
      | none =>
        rw [hs] at h
        exact nomatch h
      | some status =>
        rw [hs] at h
        cases h
        exact .readStatusFile halive hs
    | readSpec => cases h; exact .readSpec halive
    | replaceStatus => cases h; exact .replaceStatus halive
    | appendEvent => cases h; exact .appendEvent halive
    | execute => cases h; exact .execute halive execution
    | lockExists => cases h; exact .lockExists halive
    | connect => cases h; exact .connect halive
    | rollback => cases h; exact .rollback halive
    | close => cases h; exact .close halive
    | report => cases h; exact .report halive
    | kill => cases h; exact .kill halive

/-- A run that succeeded. -/
def finishedRun : MlExecution where
  callIdentity := ⟨⟨0⟩,[],[]⟩
  executionState := .success
  executionKind := .localManaged
  outputPersisted := true
  executionId := ⟨0⟩

/-- Where a schedule leads, with readers that look once and one process killed. -/
def jobRun (killed : Party) (schedule : List Party) :
    Pool JobCall JobCall.Ret JobExc Party.Result (JobWorld × JobWatch) :=
  drivePool (schedule.map fun party => (party,(answerJob finishedRun party).watched (watchJob party)))
    (jobPrograms (fun _ => 1) [killed],(JobWorld.submitted,JobWatch.start))

/-- A schedule's run is a run of the processes. -/
theorem jobRun_reach (killed : Party) (schedule : List Party) :
    PoolReach watchedJob (jobPrograms (fun _ => 1) [killed],(JobWorld.submitted,JobWatch.start))
      (jobRun killed schedule) := by
  refine drivePool_reach _ (fun entry hentry => ?_) _
  obtain ⟨party,_,rfl⟩ := List.mem_map.mp hentry
  exact (answerJob_respects finishedRun party).watched (watchJob party)

/-- The worker is killed while its job runs, and a reader looks. -/
def killedSchedule : List Party :=
  List.replicate 7 .worker ++ [.system] ++ List.replicate 8 (.reader 0)

/-- A killed worker's job is interrupted. -/
theorem interrupted_killedSchedule : ¬Over (jobRun .worker killedSchedule).2.1 ∧
    (.worker∈(jobRun .worker killedSchedule).2.1.dead ∨
      Uses (fun call => ∀ status,call≠.replaceStatus status) ((jobRun .worker killedSchedule).1 .worker)) :=
  @interrupted_only_if_died (fun _ => 1) [.worker] (jobRun .worker killedSchedule)
    (jobRun_reach .worker killedSchedule) (by decide +kernel) (.reader 0) (by decide +kernel)

/-- The worker starts its job, a reader reads the status, the worker finishes,
and the reader probes the lock. -/
def overtakenSchedule : List Party :=
  List.replicate 7 .worker ++ [.reader 0] ++ List.replicate 6 .worker ++ List.replicate 7 (.reader 0)

/-- A job that succeeded, and whose worker nobody killed, is reported as interrupted. -/
theorem interrupted_overtakenSchedule : ∃ c : Pool JobCall JobCall.Ret JobExc Party.Result (JobWorld × JobWatch),
    PoolReach watchedJob (jobPrograms (fun _ => 1) [.system],(JobWorld.submitted,JobWatch.start)) c ∧
      (.reader 0,.interrupted)∈c.2.1.reports ∧ .worker∉c.2.1.dead ∧
      c.2.1.status.map (·.state)=some (some .succeeded) :=
  ⟨jobRun .system overtakenSchedule,jobRun_reach .system overtakenSchedule,by decide +kernel,by decide +kernel,
    by decide +kernel⟩

end GenericMlCache.JobLiveness
