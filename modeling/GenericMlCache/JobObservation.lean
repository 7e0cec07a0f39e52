import GenericMlCache.JobLiveness

/-!
# What readers change by looking

A reader looks at a job's lock by taking it and giving it back, and a worker
takes the lock without waiting. A probe in the lock is therefore a worker in the
lock to everybody else: a worker that begins then leaves its job, and a reader
that probes then finds a worker that is not there. Two that begin at once on a
free lock may even both be refused. Where no begin that matters meets a probe or
another begin, the worker runs its job and a reported worker was one.
-/

namespace GenericMlCache.JobObservation

open CallProgram CallAutomaton PythonText ExecutionModel DetachedJobs JobLiveness

/-- What is watched of the worker and of the readers that report a live worker. -/
structure ProbeWatch where
  /-- Reading the worker's job, connecting to its lock or writing what it did raised. -/
  faulted : Bool
  /-- The worker got the lock. -/
  entered : Bool
  /-- The worker ran its job. -/
  ran : Bool
  /-- The reader's last status read said running. -/
  readRunning : ℕ → Bool
  /-- The reader's last probe met the live worker in the lock. -/
  met : ℕ → Bool
  /-- A reader reported a running job although its probe did not meet the worker. -/
  unfounded : Bool

/-- Nothing was done. -/
def ProbeWatch.start : ProbeWatch := ⟨false,false,false,fun _ => false,fun _ => false,false⟩

/-- A live worker is in the lock. -/
def workerInside (w : JobWorld) : Bool := decide (w.lock=some .worker ∧ .worker∉w.dead)

/-- Watch the worker's calls, and what readers read, probe and report. -/
def watchProbe (w : JobWorld) : Party → (call : JobCall) → Except JobExc call.Ret → ProbeWatch → ProbeWatch
  | .worker,.readSpec,.error _,m => { m with faulted := true }
  | .worker,.replaceStatus _,.error _,m => { m with faulted := true }
  | .worker,.appendEvent,.error _,m => { m with faulted := true }
  | .worker,.connect,.error _,m => { m with faulted := true }
  | .worker,.beginExclusive,.ok _,m => { m with entered := true }
  | .worker,.execute,_,m => { m with ran := true }
  | .reader n,.readStatusFile,r,m =>
    { m with readRunning := Function.update m.readRunning n (saysRunning r), met := Function.update m.met n false }
  | .reader n,.beginShared,.error _,m => { m with met := Function.update m.met n (workerInside w) }
  | .reader n,.beginExclusive,.error _,m => { m with met := Function.update m.met n (workerInside w) }
  | .reader n,.report (.stored .running),_,m => { m with unfounded := m.unfounded || !m.met n }
  | _,_,_,m => m

/-- What each process may do, watched. -/
def probedJob (party : Party) : Sem JobCall JobCall.Ret JobExc (JobWorld × ProbeWatch) :=
  fun call s r s' => JobAnswers party call s.1 r s'.1 ∧ s'.2=watchProbe s.1 party call r s.2

/-- A reader's probe is in the lock. -/
def probeInside (w : JobWorld) : Bool :=
  match w.lock with
  | some (.reader _) => true
  | _ => false

/-- No probe is in the lock, and nobody else is within a begin. -/
def Undisturbed (party : Party) (w : JobWorld) : Prop := probeInside w=false ∧ ∀ other ∈ w.trying,other=party

instance (party : Party) (w : JobWorld) : Decidable (Undisturbed party w) := inferInstanceAs (Decidable (_ ∧ _))

/-- The two parts of a begin. -/
def isBegin : JobCall → Bool
  | .beginShared | .beginExclusive => true
  | _ => false

/-- No begin that matters meets a probe or another begin: neither the worker's, nor
that of a reader whose status said running. -/
def Spaced (party : Party) (call : JobCall) (s : JobWorld × ProbeWatch) : Prop :=
  isBegin call=true → party=.worker ∨ (∃ n,party=.reader n ∧ s.2.readRunning n=true) → Undisturbed party s.1

/-- What each process may do where begins are spaced. -/
def spacedJob (party : Party) : Sem JobCall JobCall.Ret JobExc (JobWorld × ProbeWatch) :=
  fun call s r s' => probedJob party call s r s' ∧ Spaced party call s

/-- What a process saw since it began. -/
structure Seen where
  /-- A call raised what it cannot raise. -/
  lost : Bool
  /-- A call raised an error of the disk. -/
  faulted : Bool
  /-- The process took the lock. -/
  entered : Bool
  /-- It ran the command. -/
  ran : Bool
  /-- A begin was refused; a reader's since it last read the status. -/
  refused : Bool
  /-- The last status read said running. -/
  running : Bool

/-- Nothing was seen. -/
def Seen.start : Seen := ⟨false,false,false,false,false,false⟩

/-- What a worker sees of a call. -/
def seenByWorker : (call : JobCall) → Except JobExc call.Ret → Seen → Seen
  | .readSpec,.error _,φ => { φ with faulted := true }
  | .replaceStatus _,.error _,φ => { φ with faulted := true }
  | .appendEvent,.error _,φ => { φ with faulted := true }
  | .readStatusFile,.error e,φ => { φ with lost := φ.lost || !e.isUnreadable }
  | .connect,.error _,φ => { φ with faulted := true }
  | .beginShared,.error _,φ => { φ with refused := φ.refused || !φ.entered }
  | .beginExclusive,.ok _,φ => { φ with entered := true }
  | .beginExclusive,.error _,φ => { φ with refused := φ.refused || !φ.entered }
  | .execute,_,φ => { φ with ran := true }
  | _,_,φ => φ

/-- What a reader sees of a call. -/
def seenByReader : (call : JobCall) → Except JobExc call.Ret → Seen → Seen
  | .readStatusFile,r,φ => { φ with running := saysRunning r, refused := false }
  | .beginShared,.error _,φ => { φ with refused := true }
  | .beginExclusive,.error _,φ => { φ with refused := true }
  | .rollback,.error _,φ => { φ with lost := true }
  | _,_,φ => φ

/-- A reader reports a running job only where it read so and was refused the lock. -/
def Seen.Grounds (φ : Seen) (call : JobCall) : Prop :=
  call=.report (.stored .running) → φ.lost=true ∨ (φ.running=true ∧ φ.refused=true)

/-- The turns of the processes around a job. -/
def ProbeTurn : Party → Turns JobCall JobCall.Ret JobExc Seen
  | .worker,φ,call,r,φ' => φ'=seenByWorker call r φ
  | .reader _,φ,call,r,φ' => φ'=seenByReader call r φ ∧ φ.Grounds call
  | .system,φ,call,_,φ' => φ'=φ ∧ ∃ party,call=.kill party

section Worker
variable {α β : Type}

/-- How a worker's program may end: it ran its job in the lock, or could not. -/
def Seen.Ended (φ : Seen) : Prop :=
  φ.lost=true ∨ φ.refused=true ∨ φ.faulted=true ∨ (φ.entered=true ∧ φ.ran=true)

/-- What may end, may end after any further call. -/
theorem Seen.Ended.keep {φ : Seen} (h : φ.Ended) (call : JobCall) (r : Except JobExc call.Ret) :
    (seenByWorker call r φ).Ended := by
  unfold seenByWorker
  split
  case h_1 | h_2 | h_3 | h_5 => exact Or.inr (Or.inr (Or.inl rfl))
  case h_4 =>
    rcases h with hlost | hrest
    · exact Or.inl (by simp only [hlost,Bool.true_or])
    · exact Or.inr hrest
  case h_7 =>
    rcases h with h | h | h | h
    · exact Or.inl h
    · exact Or.inr (Or.inl h)
    · exact Or.inr (Or.inr (Or.inl h))
    · exact Or.inr (Or.inr (Or.inr ⟨rfl,h.2⟩))
  case h_6 | h_8 =>
    rcases h with h | h | h
    · exact Or.inl h
    · exact Or.inr (Or.inl (by simp only [h,Bool.true_or]))
    · exact Or.inr (Or.inr h)
  case h_9 =>
    rcases h with h | h | h | h
    · exact Or.inl h
    · exact Or.inr (Or.inl h)
    · exact Or.inr (Or.inr (Or.inl h))
    · exact Or.inr (Or.inr (Or.inr ⟨h.1,rfl⟩))
  case h_10 => exact h

/-- Whatever follows, it has ended so. -/
theorem follows_ended (p : JobM α) {φ : Seen} (h : φ.Ended) :
    Follows (ProbeTurn .worker) (fun _ φ => φ.Ended) p φ := by
  induction p generalizing φ with
  | done r => exact h
  | call call next ih => exact fun r => ⟨_,rfl,ih r (h.keep call r)⟩

/-- Unless a program ended so, it returned and the rest follows. -/
theorem follows_bind {p : JobM α} {f : α → JobM β} {φ φ' : Seen}
    (h : Follows (ProbeTurn .worker) (fun r φ₂ => φ₂.Ended ∨ (∃ a,r=.ok a) ∧ φ₂=φ') p φ)
    (hf : ∀ a,Follows (ProbeTurn .worker) (fun _ φ => φ.Ended) (f a) φ') :
    Follows (ProbeTurn .worker) (fun _ φ => φ.Ended) (p >>= f) φ := by
  refine Follows.seq h (fun a φ₂ hend => ?_) fun e φ₂ hend => ?_
  · rcases hend with hended | ⟨_,heq⟩
    · exact follows_ended (f a) hended
    · rw [heq]
      exact hf a
  · rcases hend with hended | ⟨⟨a,ha⟩,_⟩
    · exact hended
    · exact nomatch ha

/-- A call whose error ends the worker. -/
theorem follows_call {call : JobCall} {φ φ' : Seen} (hok : ∀ a,seenByWorker call (.ok a) φ=φ')
    (herr : ∀ e,(seenByWorker call (.error e) φ).Ended) :
    Follows (ProbeTurn .worker) (fun r φ₂ => φ₂.Ended ∨ (∃ a,r=.ok a) ∧ φ₂=φ') (job call) φ := by
  intro r
  refine ⟨_,rfl,?_⟩
  cases r with
  | ok a => exact Or.inr ⟨⟨a,rfl⟩,hok a⟩
  | error e => exact Or.inl (herr e)

/-- A worker updates the status, or cannot. -/
theorem follows_updateStatus {fields : JobStatus → JobStatus} {φ : Seen} :
    Follows (ProbeTurn .worker) (fun r φ₂ => φ₂.Ended ∨ (∃ a,r=.ok a) ∧ φ₂=φ) (updateStatus fields) φ := by
  have hread : Follows (ProbeTurn .worker) (fun r φ₂ => φ₂.Ended ∨ (∃ a,r=.ok a) ∧ φ₂=φ) readStatus φ := by
    intro r
    refine ⟨_,rfl,?_⟩
    cases r with
    | ok status => exact Or.inr ⟨⟨_,rfl⟩,rfl⟩
    | error e =>
      cases he : e.isUnreadable with
      | true =>
        have hsame : seenByWorker .readStatusFile (.error e) φ=φ := by
          simp only [seenByWorker,he,Bool.not_true,Bool.or_false]
        have hnone : (if e.isUnreadable=true then (pure none : JobM (Option JobStatus)) else raise e)=pure none :=
          if_pos he
        rw [hsame]
        change Follows _ _ (if e.isUnreadable=true then (pure none : JobM (Option JobStatus)) else raise e) φ
        rw [hnone]
        exact Or.inr ⟨⟨_,rfl⟩,rfl⟩
      | false =>
        refine (follows_ended _ (Or.inl ?_)).weaken fun _ _ h => Or.inl h
        simp only [seenByWorker,he,Bool.not_false,Bool.or_true]
  refine Follows.seq hread (fun status φ₂ hend => ?_) fun e φ₂ hend => ?_
  · rcases hend with hended | ⟨_,heq⟩
    · exact (follows_ended _ hended).weaken fun _ _ h => Or.inl h
    · rw [heq]
      exact follows_call (fun _ => rfl) fun _ => Or.inr (Or.inr (Or.inl rfl))
  · rcases hend with hended | ⟨⟨a,ha⟩,_⟩
    · exact Or.inl hended
    · exact nomatch ha

/-- The job, in the lock. -/
theorem follows_runJob {φ : Seen} (hentered : φ.entered=true) :
    Follows (ProbeTurn .worker) (fun _ φ => φ.Ended) runJob φ := by
  refine follows_bind follows_updateStatus fun _ => ?_
  refine follows_bind (follows_call (fun _ => rfl) fun _ => Or.inr (Or.inr (Or.inl rfl))) fun _ => ?_
  intro r
  exact ⟨_,rfl,follows_ended _ (Or.inr (Or.inr (Or.inr ⟨hentered,by cases r <;> rfl⟩)))⟩

/-- The worker's program. -/
theorem follows_cmdWorker : Follows (ProbeTurn .worker) (fun _ φ => φ.Ended) cmdWorker .start := by
  have hheld : Follows (ProbeTurn .worker) (fun _ φ => φ.Ended) (holdJobLock runJob) .start := by
    refine follows_bind (follows_call (fun _ => rfl) fun _ => Or.inr (Or.inr (Or.inl rfl))) fun _ => ?_
    have hbegin : Follows (ProbeTurn .worker) (fun r φ => φ.Ended ∨ (∃ a,r=.ok a) ∧ φ={ Seen.start with entered := true })
        executeBegin .start := by
      refine Follows.perform_bind (fun _ => ⟨_,rfl,?_⟩) fun e => ⟨_,rfl,Or.inl (Or.inr (Or.inl rfl))⟩
      exact follows_call (fun _ => rfl) fun _ => Or.inr (Or.inl rfl)
    refine Follows.attempt_seq hbegin fun r φ hφ => ?_
    rcases hφ with hended | ⟨⟨a,rfl⟩,rfl⟩
    · exact follows_ended _ hended
    · dsimp only
      refine Follows.ensure ((follows_runJob rfl).weaken fun r φ hφ => ?_)
      refine (follows_ended _ hφ).weaken fun c φ hφ => ?_
      cases c with
      | ok _ => exact hφ
      | error e => exact hφ
  have hspec := @follows_call .readSpec .start .start (fun _ => rfl) fun _ => Or.inr (Or.inr (Or.inl rfl))
  refine Follows.attempt_seq hspec fun r φ hφ => ?_
  rcases hφ with hended | ⟨⟨a,rfl⟩,rfl⟩
  · exact follows_ended _ hended
  · exact Follows.attempt_seq hheld fun r φ hφ => follows_ended _ hφ

end Worker

section Reader
variable {n : ℕ}

/-- What a reader's program keeps in its probe: what it read, and why it takes the lock to be held. -/
def Probed (running : Bool) (r : Except JobExc Bool) (φ : Seen) : Prop :=
  φ.running=running ∧ (r=.ok true → φ.lost=true ∨ φ.refused=true)

/-- A call of a reader other than a report. -/
theorem turn_reader {call : JobCall} (r : Except JobExc call.Ret) (φ : Seen)
    (hcall : call≠.report (.stored .running)) :
    ProbeTurn (.reader n) φ call r (seenByReader call r φ) :=
  ⟨rfl,fun h => absurd h hcall⟩

/-- A reader reads the status. -/
theorem follows_readStatus (φ : Seen) :
    Follows (ProbeTurn (.reader n))
      (fun r φ' => ∀ status,r=.ok (some status) → φ'.running=decide (status.state=some .running)) readStatus φ := by
  intro r
  refine ⟨_,turn_reader r φ (fun h => nomatch h),?_⟩
  cases r with
  | ok status =>
    intro status' heq
    cases heq
    rfl
  | error e =>
    refine Follows.ite (fun _ => ?_) fun _ => ?_
    · intro status heq
      exact nomatch heq
    · intro status heq
      exact nomatch heq

/-- A probe finds the lock held only where it was refused. -/
theorem follows_probe (φ : Seen) : Follows (ProbeTurn (.reader n)) (Probed φ.running) probe φ := by
  have htry : Follows (ProbeTurn (.reader n))
      (fun r φ' => φ'.running=φ.running ∧ (r=.ok () ∨ φ'.lost=true ∨ φ'.refused=true))
      (do executeBegin; job .rollback) φ := by
    have hbegin : Follows (ProbeTurn (.reader n))
        (fun r φ' => φ'.running=φ.running ∧ (r=.ok () ∨ φ'.refused=true)) executeBegin φ := by
      refine Follows.perform_bind (fun a => ⟨_,turn_reader _ φ (fun h => nomatch h),?_⟩) fun e =>
        ⟨_,turn_reader _ φ (fun h => nomatch h),rfl,Or.inr rfl⟩
      intro r
      refine ⟨_,turn_reader r _ (fun h => nomatch h),?_⟩
      cases r with
      | ok _ => exact ⟨rfl,Or.inl rfl⟩
      | error e => exact ⟨rfl,Or.inr rfl⟩
    refine Follows.seq hbegin (fun a φ₁ hφ r => ?_) fun e φ₁ hφ => ?_
    · refine ⟨_,turn_reader r φ₁ (fun h => nomatch h),?_⟩
      cases r with
      | ok _ => exact ⟨hφ.1,Or.inl rfl⟩
      | error e => exact ⟨hφ.1,Or.inr (Or.inl rfl)⟩
    · rcases hφ with ⟨hrunning,h | hrefused⟩
      · cases h
      · exact ⟨hrunning,Or.inr (Or.inr hrefused)⟩
  refine Follows.attempt_seq htry fun r φ' hφ => ?_
  obtain ⟨hrunning,hwhy⟩ := hφ
  cases r with
  | ok _ => exact ⟨hrunning,fun h => nomatch h⟩
  | error e =>
    have hrefused : φ'.lost=true ∨ φ'.refused=true := by
      rcases hwhy with h | h
      · exact nomatch h
      · exact h
    exact Follows.ite (fun _ => ⟨hrunning,fun _ => hrefused⟩) fun _ => ⟨hrunning,fun _ => hrefused⟩

/-- The lock is taken to be held only where a probe was refused. -/
theorem follows_jobLockHeld (φ : Seen) : Follows (ProbeTurn (.reader n)) (Probed φ.running) jobLockHeld φ := by
  have hnot : ∀ r : Except JobExc Bool,r≠.ok true → Probed φ.running r φ := fun r hr => ⟨rfl,fun h => absurd h hr⟩
  refine Follows.perform_bind (fun found => ⟨φ,turn_reader _ φ (fun h => nomatch h),?_⟩) fun e =>
    ⟨φ,turn_reader _ φ (fun h => nomatch h),hnot _ fun h => nomatch h⟩
  refine Follows.ite (fun _ => ?_) fun _ => hnot _ fun h => nomatch h
  have hconnect : Follows (ProbeTurn (.reader n)) (fun _ φ' => φ'=φ) (job .connect) φ :=
    fun r => ⟨_,turn_reader r φ (fun h => nomatch h),rfl⟩
  refine Follows.attempt_seq hconnect fun r φ' hφ => ?_
  subst hφ
  cases r with
  | error e => exact Follows.ite (fun _ => hnot _ fun h => nomatch h) fun _ => hnot _ fun h => nomatch h
  | ok _ =>
    refine Follows.ensure ((follows_probe φ').weaken fun r φ₂ hprobed => ?_)
    intro c
    refine ⟨φ₂,turn_reader c φ₂ (fun h => nomatch h),?_⟩
    cases c with
    | ok _ => exact hprobed
    | error e => exact ⟨hprobed.1,fun h => nomatch h⟩

/-- A reader derives a running job only where it read so and was refused the lock. -/
theorem follows_jobState (φ : Seen) :
    Follows (ProbeTurn (.reader n))
      (fun r φ' => ∀ status,r=.ok (status,.stored .running) → φ'.lost=true ∨ (φ'.running=true ∧ φ'.refused=true))
      jobState φ := by
  refine Follows.seq (follows_readStatus φ) (fun status φ' hread => ?_) fun e φ' _ status h => nomatch h
  refine Follows.seq (follows_jobLockHeld φ') (fun held φ₂ hprobed => ?_) fun e φ₂ _ status h => nomatch h
  intro status' heq
  obtain ⟨hrunning,hwhy⟩ := hprobed
  have hderived : derivedState status held=.stored .running := congrArg Prod.snd (Except.ok.inj heq)
  unfold derivedState at hderived
  split at hderived
  next => exact nomatch hderived
  next status₀ =>
    split at hderived
    next => exact nomatch hderived
    next state hstate =>
      split at hderived
      next => exact nomatch hderived
      next hnot =>
        have hrun : state=.running := Reported.stored.inj hderived
        have hheld : held=true := by
          by_contra hfree
          exact hnot ⟨hrun,Bool.eq_false_of_not_eq_true hfree⟩
        have hread₀ : φ'.running=true := by
          rw [hread status₀ rfl,hstate,hrun]
          rfl
        rcases hwhy (congrArg Except.ok hheld) with hlost | hrefused
        · exact Or.inl hlost
        · exact Or.inr ⟨hrunning.trans hread₀,hrefused⟩

/-- A reader's program. -/
theorem follows_readJob (rounds : ℕ) (φ : Seen) :
    Follows (ProbeTurn (.reader n)) (fun _ _ => True) (readJob rounds) φ := by
  induction rounds generalizing φ with
  | zero => exact trivial
  | succ rounds ih =>
    refine Follows.seq (follows_jobState φ) (fun entry φ' hstate => ?_) fun _ _ _ => trivial
    obtain ⟨status,state⟩ := entry
    have hturn : ∀ r,ProbeTurn (.reader n) φ' (.report state) r φ' := by
      intro r
      refine ⟨rfl,fun hcall => ?_⟩
      have hrun : state=.stored .running := JobCall.report.inj hcall
      exact hstate status (by rw [hrun])
    refine Follows.perform_bind (fun _ => ⟨φ',hturn _,?_⟩) fun _ => ⟨φ',hturn _,trivial⟩
    split
    case h_1 | h_2 | h_3 => exact trivial
    case h_4 => exact ih φ'

end Reader

/-- The system's program. -/
theorem follows_killAll (killed : List Party) (φ : Seen) :
    Follows (ProbeTurn .system) (fun _ _ => True) (killAll killed) φ := by
  induction killed with
  | nil => exact trivial
  | cons party rest ih =>
    exact Follows.perform_bind (fun _ => ⟨φ,⟨rfl,party,rfl⟩,ih⟩) fun _ => ⟨φ,⟨rfl,party,rfl⟩,trivial⟩

/-- Only the live worker or a reader is in the lock. -/
structure Inside (φ : Seen) (w : JobWorld) : Prop where
  /-- A worker in the lock entered it, and lives. -/
  worker : w.lock=some .worker → φ.entered=true ∧ .worker∉w.dead
  /-- The system is never in it. -/
  system : w.lock≠some .system

/-- Leaving the lock lets nobody in. -/
theorem lock_of_unlock {w : JobWorld} {party other : Party} (h : (w.unlock party).lock=some other) :
    w.lock=some other ∧ other≠party := by
  have hlock : (if w.lock=some party then none else w.lock)=some other := h
  split_ifs at hlock with hparty
  refine ⟨hlock,fun heq => hparty ?_⟩
  rw [hlock,heq]

/-- Whoever leaves the lock, the others stay. -/
theorem Inside.unlock {φ : Seen} {w : JobWorld} (h : Inside φ w) (party : Party) : Inside φ (w.unlock party) :=
  ⟨fun hlock => h.worker (lock_of_unlock hlock).1,fun hlock => h.system (lock_of_unlock hlock).1⟩

/-- A killed process is not in the lock. -/
theorem Inside.kill {φ : Seen} {w : JobWorld} (h : Inside φ w) (killed : Party) :
    Inside φ { w.unlock killed with dead := killed::w.dead } := by
  refine ⟨fun hlock => ?_,fun hlock => h.system (lock_of_unlock hlock).1⟩
  obtain ⟨hheld,hne⟩ := lock_of_unlock hlock
  obtain ⟨hentered,halive⟩ := h.worker hheld
  refine ⟨hentered,fun hdead => ?_⟩
  rcases List.mem_cons.mp hdead with heq | hold
  · exact hne heq
  · exact halive hold

/-- A refused begin found the worker in the lock, where it was not disturbed. -/
theorem Inside.refused {φ : Seen} {w : JobWorld} {party : Party} (h : Inside φ w) (hheld : ¬w.Alone party)
    (hspaced : Undisturbed party w) : w.lock=some .worker ∧ φ.entered=true ∧ .worker∉w.dead := by
  cases hlock : w.lock with
  | none => exact absurd ⟨hlock,hspaced.2⟩ hheld
  | some other =>
    cases other with
    | worker => exact ⟨rfl,h.worker hlock⟩
    | system => exact absurd hlock h.system
    | reader n =>
      have hprobe := hspaced.1
      unfold probeInside at hprobe
      rw [hlock] at hprobe
      cases hprobe

/-- The worker was not refused, and what was watched is what the processes saw. -/
structure Observed (phases : Party → Seen) (s : JobWorld × ProbeWatch) : Prop where
  /-- The worker was neither answered nor refused as it cannot be. -/
  accepted : (phases .worker).lost=false ∧ (phases .worker).refused=false
  /-- The watch knows of the worker's faults. -/
  faulted : s.2.faulted=(phases .worker).faulted
  /-- The watch knows of the worker's entry. -/
  entered : s.2.entered=(phases .worker).entered
  /-- The watch knows of the worker's run. -/
  ran : s.2.ran=(phases .worker).ran
  /-- Only the live worker or a reader is in the lock. -/
  inside : Inside (phases .worker) s.1
  /-- No reader was answered as it cannot be. -/
  kept : ∀ n,(phases (.reader n)).lost=false
  /-- The watch knows what each reader read. -/
  running : ∀ n,s.2.readRunning n=(phases (.reader n)).running
  /-- The watch knows whether the probe behind a reading was refused. -/
  met : ∀ n,(phases (.reader n)).running=true → (phases (.reader n)).refused=true → s.2.met n=true
  /-- No report of an interruption was unfounded. -/
  founded : s.2.unfounded=false

section Turns
variable {phases : Party → Seen} {w w' : JobWorld} {m m' : ProbeWatch}

/-- A step of the worker. -/
theorem Observed.step_worker {φ' : Seen} (h : Observed phases (w,m)) (haccepted : φ'.lost=false ∧ φ'.refused=false)
    (hfaulted : m'.faulted=φ'.faulted) (hentered : m'.entered=φ'.entered) (hran : m'.ran=φ'.ran)
    (hinside : Inside φ' w') (hrunning : m'.readRunning=m.readRunning) (hmet : m'.met=m.met)
    (hfounded : m'.unfounded=m.unfounded) : Observed (Function.update phases .worker φ') (w',m') := by
  have hworker : Function.update phases .worker φ' .worker=φ' := Function.update_self _ _ _
  have hreader : ∀ n,Function.update phases .worker φ' (.reader n)=phases (.reader n) :=
    fun n => Function.update_of_ne (fun h : Party.reader n=.worker => nomatch h) _ _
  refine ⟨?_,?_,?_,?_,?_,fun n => ?_,fun n => ?_,fun n => ?_,hfounded.trans h.founded⟩
  · rw [hworker]
    exact haccepted
  · rw [hworker]
    exact hfaulted
  · rw [hworker]
    exact hentered
  · rw [hworker]
    exact hran
  · rw [hworker]
    exact hinside
  · rw [hreader]
    exact h.kept n
  · rw [hreader]
    exact (congrFun hrunning n).trans (h.running n)
  · rw [hreader]
    intro hrun hrefused
    exact (congrFun hmet n).trans (h.met n hrun hrefused)

/-- A step of a reader. -/
theorem Observed.step_reader {φ' : Seen} {n : ℕ} (h : Observed phases (w,m)) (hkept : φ'.lost=false)
    (hworker : m'.faulted=m.faulted ∧ m'.entered=m.entered ∧ m'.ran=m.ran)
    (hinside : Inside (phases .worker) w') (hrunning : m'.readRunning=Function.update m.readRunning n φ'.running)
    (hmet : ∀ k,k≠n → m'.met k=m.met k) (hmine : φ'.running=true → φ'.refused=true → m'.met n=true)
    (hfounded : m'.unfounded=false) : Observed (Function.update phases (.reader n) φ') (w',m') := by
  have hown : Function.update phases (.reader n) φ' (.reader n)=φ' := Function.update_self _ _ _
  have hother : ∀ k,k≠n → Function.update phases (.reader n) φ' (.reader k)=phases (.reader k) :=
    fun k hk => Function.update_of_ne (fun h : Party.reader k=.reader n => hk (Party.reader.inj h)) _ _
  have hphase : Function.update phases (.reader n) φ' .worker=phases .worker :=
    Function.update_of_ne (fun h : Party.worker=.reader n => nomatch h) _ _
  refine ⟨?_,?_,?_,?_,?_,fun k => ?_,fun k => ?_,fun k => ?_,hfounded⟩
  · rw [hphase]
    exact h.accepted
  · rw [hphase]
    exact hworker.1.trans h.faulted
  · rw [hphase]
    exact hworker.2.1.trans h.entered
  · rw [hphase]
    exact hworker.2.2.trans h.ran
  · rw [hphase]
    exact hinside
  · by_cases hk : k=n
    · subst hk
      rw [hown]
      exact hkept
    · rw [hother k hk]
      exact h.kept k
  · have hvalue : m'.readRunning k=Function.update m.readRunning n φ'.running k := congrFun hrunning k
    by_cases hk : k=n
    · subst hk
      rw [hown]
      exact hvalue.trans (Function.update_self _ _ _)
    · rw [hother k hk]
      exact (hvalue.trans (Function.update_of_ne hk _ _)).trans (h.running k)
  · by_cases hk : k=n
    · subst hk
      rw [hown]
      exact hmine
    · rw [hother k hk]
      intro hrun hrefused
      exact (hmet k hk).trans (h.met k hrun hrefused)

/-- Every turn of the worker keeps the invariant where begins are spaced. -/
theorem Observed.worker_turn {call : JobCall} {r : Except JobExc call.Ret} (h : Observed phases (w,m))
    (hans : JobAnswers .worker call w r w') (hspaced : Spaced .worker call (w,m)) :
    Observed (Function.update phases .worker (seenByWorker call r (phases .worker)))
      (w',watchProbe w .worker call r m) := by
  have hinside := h.inside
  have hsame : ∀ w',Inside (phases .worker) w' →
      Observed (Function.update phases .worker (phases .worker)) (w',m) :=
    fun w' hw => h.step_worker h.accepted h.faulted h.entered h.ran hw rfl rfl rfl
  cases hans with
  | readSpec | readStatusFile | appendEvent | lockExists => exact hsame _ hinside
  | replaceStatus | connect | beginShared | report => exact hsame _ ⟨hinside.worker,hinside.system⟩
  | connectRaised => exact h.step_worker h.accepted rfl h.entered h.ran ⟨hinside.worker,hinside.system⟩ rfl rfl rfl
  | rollback | close => exact hsame _ (hinside.unlock .worker)
  | kill => exact hsame _ (hinside.kill _)
  | execute | executeRaised =>
    exact h.step_worker h.accepted h.faulted h.entered rfl ⟨hinside.worker,hinside.system⟩ rfl rfl rfl
  | fileFault _ hcall he =>
    rcases hcall with rfl | rfl | ⟨_,rfl⟩ | rfl
    · exact h.step_worker h.accepted rfl h.entered h.ran ⟨hinside.worker,hinside.system⟩ rfl rfl rfl
    · refine h.step_worker ⟨?_,h.accepted.2⟩ h.faulted h.entered h.ran ⟨hinside.worker,hinside.system⟩ rfl rfl rfl
      simp only [seenByWorker,he,h.accepted.1,Bool.not_true,Bool.or_false]
    · exact h.step_worker h.accepted rfl h.entered h.ran ⟨hinside.worker,hinside.system⟩ rfl rfl rfl
    · exact h.step_worker h.accepted rfl h.entered h.ran ⟨hinside.worker,hinside.system⟩ rfl rfl rfl
  | beginExclusive halive hfree =>
    exact h.step_worker h.accepted h.faulted rfl h.ran ⟨fun _ => ⟨rfl,halive⟩,fun h => nomatch h⟩ rfl rfl rfl
  | sharedRaised halive hheld | beginRaised halive hheld =>
    obtain ⟨_,hentered,_⟩ := hinside.refused hheld (hspaced rfl (Or.inl rfl))
    refine h.step_worker ⟨h.accepted.1,?_⟩ h.faulted h.entered h.ran ⟨hinside.worker,hinside.system⟩ rfl rfl rfl
    simp only [seenByWorker,h.accepted.2,hentered,Bool.not_true,Bool.or_false]

/-- Every turn of a reader keeps the invariant where begins are spaced. -/
theorem Observed.reader_turn {n : ℕ} {call : JobCall} {r : Except JobExc call.Ret} (h : Observed phases (w,m))
    (hgrounds : (phases (.reader n)).Grounds call) (hans : JobAnswers (.reader n) call w r w')
    (hspaced : Spaced (.reader n) call (w,m)) :
    Observed (Function.update phases (.reader n) (seenByReader call r (phases (.reader n))))
      (w',watchProbe w (.reader n) call r m) := by
  have hinside := h.inside
  have hreading : m.readRunning=Function.update m.readRunning n (phases (.reader n)).running := by
    rw [← h.running n]
    exact (Function.update_eq_self _ _).symm
  have hsame : ∀ w',Inside (phases .worker) w' →
      Observed (Function.update phases (.reader n) (phases (.reader n))) (w',m) :=
    fun w' hw => h.step_reader (h.kept n) ⟨rfl,rfl,rfl⟩ hw hreading (fun _ _ => rfl) (h.met n) h.founded
  have hread : ∀ r : Except JobExc JobStatus,
      Observed (Function.update phases (.reader n) (seenByReader .readStatusFile r (phases (.reader n))))
        (w,watchProbe w (.reader n) .readStatusFile r m) := by
    intro r
    exact h.step_reader (h.kept n) ⟨rfl,rfl,rfl⟩ hinside rfl (fun k hk => Function.update_of_ne hk _ _)
      (fun _ hr => nomatch hr) h.founded
  cases hans with
  | readSpec | appendEvent | lockExists | execute | executeRaised => exact hsame _ hinside
  | replaceStatus | connect | beginShared => exact hsame _ ⟨hinside.worker,hinside.system⟩
  | connectRaised => exact hsame _ hinside
  | rollback | close => exact hsame _ (hinside.unlock (.reader n))
  | kill => exact hsame _ (hinside.kill _)
  | readStatusFile => exact hread _
  | fileFault _ hcall he =>
    rcases hcall with rfl | rfl | ⟨_,rfl⟩ | rfl
    · exact hsame _ hinside
    · exact hread _
    · exact hsame _ hinside
    · exact hsame _ hinside
  | beginExclusive => exact hsame _ ⟨fun h => (nomatch h),fun h => nomatch h⟩
  | sharedRaised halive hheld | beginRaised halive hheld =>
    refine h.step_reader (h.kept n) ⟨rfl,rfl,rfl⟩ hinside hreading (fun k hk => Function.update_of_ne hk _ _)
      (fun hrun _ => ?_) h.founded
    have hrunning : m.readRunning n=true := (h.running n).trans hrun
    obtain ⟨hlock,_,hworker⟩ := hinside.refused hheld (hspaced rfl (Or.inr ⟨n,rfl,hrunning⟩))
    have hmet : Function.update m.met n (workerInside w) n=workerInside w := Function.update_self _ _ _
    exact hmet.trans (decide_eq_true ⟨hlock,hworker⟩)
  | @report _ state =>
    by_cases hstate : state=.stored .running
    · subst hstate
      have hmet : m.met n=true := by
        rcases hgrounds rfl with hlost | ⟨hrun,hrefused⟩
        · exact nomatch (h.kept n).symm.trans hlost
        · exact h.met n hrun hrefused
      refine h.step_reader (h.kept n) ⟨rfl,rfl,rfl⟩ ⟨hinside.worker,hinside.system⟩ hreading (fun _ _ => rfl)
        (h.met n) ?_
      have hunfounded : m.unfounded=false := h.founded
      simp only [watchProbe,hunfounded,hmet,Bool.not_true,Bool.or_false]
    · have hm : watchProbe w (.reader n) (.report state) (.ok ()) m=m := by
        cases state with
        | unknown | interrupted => rfl
        | stored state =>
          cases state with
          | running => exact absurd rfl hstate
          | submitted | succeeded | failed => rfl
      rw [hm]
      exact hsame _ ⟨hinside.worker,hinside.system⟩

/-- Every turn of the system keeps the invariant. -/
theorem Observed.system_turn {killed : Party} {r : Except JobExc Unit} (h : Observed phases (w,m))
    (hans : JobAnswers .system (.kill killed) w r w') :
    Observed (Function.update phases .system (phases .system)) (w',watchProbe w .system (.kill killed) r m) := by
  rw [Function.update_eq_self]
  cases hans with
  | kill =>
    have hinside := h.inside.kill killed
    exact ⟨h.accepted,h.faulted,h.entered,h.ran,hinside,h.kept,h.running,h.met,h.founded⟩
  | fileFault _ hcall => rcases hcall with h | h | ⟨_,h⟩ | h <;> exact nomatch h

end Turns

/-- Every turn of every process keeps the invariant where begins are spaced. -/
theorem keeps_observed : PoolKeeps ProbeTurn spacedJob Observed := by
  rintro phases party call r φ' ⟨w,m⟩ ⟨w',m'⟩ hturn ⟨⟨hans,hm⟩,hspaced⟩ h
  cases hm
  cases party with
  | worker =>
    have hφ : φ'=seenByWorker call r (phases .worker) := hturn
    rw [hφ]
    exact h.worker_turn hans hspaced
  | system =>
    obtain ⟨hφ,killed,rfl⟩ := hturn
    rw [hφ]
    exact h.system_turn hans
  | reader n =>
    obtain ⟨hφ,hgrounds⟩ := hturn
    rw [hφ]
    exact h.reader_turn hgrounds hans hspaced

/-- In every run where no begin that matters meets a probe or another begin, no reader
reports a running job without its probe having met the live worker, and a worker that
ended had the lock and ran its job, unless its own files failed it. -/
theorem probes_keep_job (rounds : ℕ → ℕ) (killed : List Party)
    {c : Pool JobCall JobCall.Ret JobExc Party.Result (JobWorld × ProbeWatch)}
    (hr : PoolReach spacedJob (jobPrograms rounds killed,(JobWorld.submitted,ProbeWatch.start)) c) :
    c.2.2.unfounded=false ∧
      ∀ r,c.1 .worker=.done r → c.2.2.faulted=true ∨ (c.2.2.entered=true ∧ c.2.2.ran=true) := by
  have hstart : Observed (fun _ => .start) (JobWorld.submitted,ProbeWatch.start) :=
    ⟨⟨rfl,rfl⟩,rfl,rfl,rfl,⟨fun h => (nomatch h),fun h => nomatch h⟩,fun _ => rfl,fun _ => rfl,
      fun _ h => (nomatch h),rfl⟩
  have hfollows : PoolFollows ProbeTurn (fun party _ φ => party=.worker → φ.Ended) (jobPrograms rounds killed)
      fun _ => .start := by
    intro party
    cases party with
    | worker => exact follows_cmdWorker.weaken fun _ _ h _ => h
    | system => exact (follows_killAll killed _).weaken fun _ _ _ h => nomatch h
    | reader n => exact (follows_readJob (rounds n) _).weaken fun _ _ _ h => nomatch h
  obtain ⟨phases,hobserved,hrest⟩ := keeps_observed.reach hfollows hstart hr
  refine ⟨hobserved.founded,fun r hdone => ?_⟩
  have hworker := hrest .worker
  rw [hdone] at hworker
  have hended : (phases .worker).Ended := hworker rfl
  rcases hended with hlost | hrefused | hfaulted | ⟨hentered,hran⟩
  · exact nomatch hobserved.accepted.1.symm.trans hlost
  · exact nomatch hobserved.accepted.2.symm.trans hrefused
  · exact Or.inl (hobserved.faulted.trans hfaulted)
  · exact Or.inr ⟨hobserved.entered.trans hentered,hobserved.ran.trans hran⟩

/-- Answer every call without a fault, watched. -/
def answerProbed (party : Party) : Handler JobCall JobCall.Ret JobExc (JobWorld × ProbeWatch) := fun call s =>
  (answerJob finishedRun party call s.1).map fun answer => (answer.1,(answer.2,watchProbe s.1 party call answer.1 s.2))

/-- The watched answers are answers that a job's files may give. -/
theorem answerProbed_respects (party : Party) : (answerProbed party).Respects (probedJob party) := by
  intro call s r s' h
  obtain ⟨answer,hanswer,heq⟩ := Option.map_eq_some_iff.mp h
  cases heq
  exact ⟨answerJob_respects finishedRun party call s.1 answer.1 answer.2 hanswer,rfl⟩

/-- Answer so, and hold back a begin that would be disturbed. -/
def answerSpaced (party : Party) : Handler JobCall JobCall.Ret JobExc (JobWorld × ProbeWatch) := fun call s =>
  if isBegin call=true ∧ ¬Undisturbed party s.1 then none else answerProbed party call s

/-- Held back, the begins are spaced. -/
theorem answerSpaced_respects (party : Party) : (answerSpaced party).Respects (spacedJob party) := by
  intro call s r s' h
  unfold answerSpaced at h
  split at h
  next => cases h
  next hfree =>
    refine ⟨answerProbed_respects party _ _ _ _ h,fun hbegin _ => ?_⟩
    by_contra hdisturbed
    exact hfree ⟨hbegin,hdisturbed⟩

/-- A reader looks while the worker runs its job. -/
def lookedSchedule : List Party :=
  List.replicate 7 .worker ++ List.replicate 6 (.reader 0) ++ List.replicate 6 .worker

/-- Where this schedule leads. -/
def lookedRun : Pool JobCall JobCall.Ret JobExc Party.Result (JobWorld × ProbeWatch) :=
  drivePool (lookedSchedule.map fun party => (party,answerSpaced party))
    (jobPrograms (fun _ => 1) [],(JobWorld.submitted,ProbeWatch.start))

/-- A worker that was looked at ran its job, and was reported by a reader that met it. -/
theorem probes_keep_job_looked :
    (lookedRun.2.2.unfounded=false ∧
      ∀ r,lookedRun.1 .worker=.done r → lookedRun.2.2.faulted=true ∨ (lookedRun.2.2.entered=true ∧ lookedRun.2.2.ran=true)) ∧
      (lookedRun.1 .worker).value=some 0 ∧ (.reader 0,.stored .running)∈lookedRun.2.1.reports := by
  refine ⟨probes_keep_job (fun _ => 1) [] (drivePool_reach _ (fun entry hentry => ?_) _),by decide +kernel,
    by decide +kernel⟩
  obtain ⟨party,_,rfl⟩ := List.mem_map.mp hentry
  exact answerSpaced_respects party

/-- Where a schedule leads, with readers that look once and one process killed. -/
def probedRun (killed : Party) (schedule : List Party) :
    Pool JobCall JobCall.Ret JobExc Party.Result (JobWorld × ProbeWatch) :=
  drivePool (schedule.map fun party => (party,answerProbed party))
    (jobPrograms (fun _ => 1) [killed],(JobWorld.submitted,ProbeWatch.start))

/-- A schedule's run is a run of the processes. -/
theorem probedRun_reach (killed : Party) (schedule : List Party) :
    PoolReach probedJob (jobPrograms (fun _ => 1) [killed],(JobWorld.submitted,ProbeWatch.start))
      (probedRun killed schedule) := by
  refine drivePool_reach _ (fun entry hentry => ?_) _
  obtain ⟨party,_,rfl⟩ := List.mem_map.mp hentry
  exact answerProbed_respects party

/-- The worker made the lock's file, a reader probes, and the worker begins while it does. -/
def refusedSchedule : List Party :=
  List.replicate 2 .worker ++ List.replicate 5 (.reader 0) ++ List.replicate 2 .worker ++ List.replicate 3 (.reader 0)

/-- The worker is killed while its job runs, and two readers probe at once. -/
def collidingSchedule : List Party :=
  List.replicate 7 .worker ++ [.system] ++ List.replicate 5 (.reader 0) ++ List.replicate 6 (.reader 1)

/-- The worker and a reader begin at once on the free lock. -/
def crossingSchedule : List Party :=
  List.replicate 2 .worker ++ List.replicate 3 (.reader 0) ++ [.worker,.reader 0,.worker,.reader 0] ++
    [.worker] ++ List.replicate 2 (.reader 0)

/-- A probe makes the only worker leave its job, which stays submitted: in the lock, or
beginning at once with the worker, both being refused. And two probes at once report
a killed worker as running. -/
theorem probes_change_job :
    (∃ c : Pool JobCall JobCall.Ret JobExc Party.Result (JobWorld × ProbeWatch),
      PoolReach probedJob (jobPrograms (fun _ => 1) [.system],(JobWorld.submitted,ProbeWatch.start)) c ∧
        c.1 .worker=.done (.ok 1) ∧ c.2.2.faulted=false ∧ c.2.2.entered=false ∧ c.2.2.ran=false ∧
        c.2.1.lock=none ∧ c.2.1.status=some { state := some .submitted }) ∧
    (∃ c : Pool JobCall JobCall.Ret JobExc Party.Result (JobWorld × ProbeWatch),
      PoolReach probedJob (jobPrograms (fun _ => 1) [.system],(JobWorld.submitted,ProbeWatch.start)) c ∧
        c.1 .worker=.done (.ok 1) ∧ c.2.2.faulted=false ∧ c.2.2.entered=false ∧ c.2.2.ran=false ∧
        c.2.1.lock=none ∧ (.reader 0,.stored .submitted)∈c.2.1.reports) ∧
    ∃ c : Pool JobCall JobCall.Ret JobExc Party.Result (JobWorld × ProbeWatch),
      PoolReach probedJob (jobPrograms (fun _ => 1) [.worker],(JobWorld.submitted,ProbeWatch.start)) c ∧
        .worker∈c.2.1.dead ∧ (.reader 1,.stored .running)∈c.2.1.reports ∧ c.2.2.unfounded=true :=
  ⟨⟨probedRun .system refusedSchedule,probedRun_reach .system refusedSchedule,
    Prog.value_eq_some.mp (by decide +kernel),by decide +kernel,by decide +kernel,by decide +kernel,
    by decide +kernel,by decide +kernel⟩,
   ⟨probedRun .system crossingSchedule,probedRun_reach .system crossingSchedule,
    Prog.value_eq_some.mp (by decide +kernel),by decide +kernel,by decide +kernel,by decide +kernel,
    by decide +kernel,by decide +kernel⟩,
   ⟨probedRun .worker collidingSchedule,probedRun_reach .worker collidingSchedule,by decide +kernel,
    by decide +kernel,by decide +kernel⟩⟩

end GenericMlCache.JobObservation
