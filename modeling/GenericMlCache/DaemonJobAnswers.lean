import GenericMlCache.DaemonJobRuns
import Mathlib.Algebra.BigOperators.Fin
import Mathlib.Algebra.Order.BigOperators.Group.Finset

/-!
# Answers about jobs

In every run of the daemon, whatever the order of the threads' steps, everything told of a
job follows from what was told before. Once a job was seen to be over, each later request
about it is answered in full. A job whose submission was answered is never lost.
-/

namespace GenericMlCache.DaemonJobAnswers

open PythonText ExecutionModel MlExecutionCommands ReportedHits OrderedDict LabelledRuns DaemonJobs DaemonJobRuns

section Runs
variable {ι : Type} {executionKindFor : PyStr → Except PyExc ExecutionKind}
  {decodeReplace : Bytes → PyStr} {text : PyExc → PyStr} {trace before after : List (Event ι)} {d d' : Daemon ι}
  {stage : JobRef → Stage ι} {event : Option (Event ι)}

/-- An event that shows a job to be over. -/
def ShowsOver (ref : JobRef) : Event ι → Prop
  | .answered _ _ (.response job response) => job=ref ∧ response.state.isOver=true
  | .emitted _ _ job (.status state) => job=ref ∧ state.isOver=true
  | .emitted _ _ job (.last _ _) => job=ref
  | _ => False

/-- The answer to the submission of a job. -/
def AnswersSubmit (ref : JobRef) : Event ι → Prop
  | .answered _ (.submit _) (.response job _) => job=ref
  | _ => False

/-- The stages fit what was seen from outside. -/
structure Seen (trace : List (Event ι)) (stage : JobRef → Stage ι) : Prop where
  /-- What was shown as over is closed. -/
  closed : ∀ e∈trace,∀ ref,ShowsOver ref e → ∃ outcome,(stage ref).closed?=some outcome
  /-- What was answered for a submission is queued. -/
  queued : ∀ e∈trace,∀ ref,AnswersSubmit ref e → (stage ref).isQueued=true

/-- A response whose state is over is read of a closed job. -/
theorem closed_of_response {st : Stage ι} {job : Job} {reading : Reading} {response : JobResponse}
    (h : Sound decodeReplace st reading) (hread : reading.read decodeReplace job=.response response)
    (hover : response.state.isOver=true) : ∃ outcome,st.closed?=some outcome := by
  cases reading with
  | failing seen state =>
    cases hread
    obtain ⟨outcome,hclosed,_⟩ := h.2 hover
    exact ⟨outcome,hclosed⟩
  | testing | stating => exact nomatch hread
  | keying | takingStdout | takingStderr =>
    simp only [Reading.read] at hread
    cases hexecution : job.execution with
    | none | some =>
      rw [hexecution] at hread
      exact nomatch hread

/-- The steps that a thread of the pool has still to take. -/
def weight : Work → ℕ
  | .idle => 0
  | .signalling _ _ => 1
  | .closing _ _ => 2
  | .recording _ _ => 3
  | .inside _ => 4
  | .calling _ _ => 5
  | .starting _ _ => 6

/-- The steps that the threads of the pool have still to take. -/
def remaining (d : Daemon ι) : ℕ := ∑ w,weight (d.worker w)

/-- A thread that moves on has less to do. -/
theorem remaining_lt {w : Fin maxWorkers} {phase : Work} (hworker : d'.worker=Function.update d.worker w phase)
    (h : weight phase < weight (d.worker w)) : remaining d' < remaining d := by
  refine Finset.sum_lt_sum (fun w' _ => ?_) ⟨w,Finset.mem_univ w,?_⟩
  · rw [hworker]
    by_cases hsame : w'=w
    · subst hsame
      rw [Function.update_self]
      exact h.le
    · rw [Function.update_of_ne hsame]
  · rw [hworker,Function.update_self]
    exact h

variable [DecidableEq ι]

/-- What a request does when it answers with a response. -/
theorem responds {g : ι} {request : Request} {ref : JobRef} {response : JobResponse}
    (h : Step executionKindFor decodeReplace text d (some (.answered g request (.response ref response))) d') :
    ∃ reading,d.handler g=.responding request ref reading ∧
      reading.read decodeReplace (d.job ref)=.response response := by
  cases h with
  | respond _ hphase hread => exact ⟨_,hphase,hread⟩

/-- A step shows only closed jobs to be over, and answers submissions of queued jobs only. -/
theorem shows {e : Event ι} (h : Stands decodeReplace text trace d stage)
    (hstep : Step executionKindFor decodeReplace text d (some e) d') (ref : JobRef) :
    (ShowsOver ref e → ∃ outcome,(stage ref).closed?=some outcome) ∧
      (AnswersSubmit ref e → (stage ref).isQueued=true) := by
  have hhandled : ∀ {g : ι} {phase : Handler},d.handler g=phase →
      Handled decodeReplace text trace d stage g phase := by
    rintro g phase rfl
    exact h.handled g
  cases e with
  | asked | made | registered | called | returned => exact ⟨False.elim,False.elim⟩
  | answered g request answer =>
    cases answer with
    | ids | notFound | raised => exact ⟨False.elim,by cases request <;> exact False.elim⟩
    | response job response =>
      obtain ⟨reading,hphase,hread⟩ := responds hstep
      obtain ⟨_,hsound,_,hqueued⟩ := hhandled hphase
      refine ⟨?_,fun hanswers => ?_⟩
      · rintro ⟨rfl,hover⟩
        exact closed_of_response hsound hread hover
      · cases request with
        | submit body =>
          cases hanswers
          exact hqueued body rfl
        | list | get | stream => exact hanswers.elim
  | emitted g jobId job message =>
    refine ⟨fun hshows => ?_,False.elim⟩
    cases hstep with
    | status _ hphase =>
      obtain ⟨rfl,hover⟩ := hshows
      have he : Event.registered job jobId∈trace := hhandled hphase
      rw [(h.placed.fits job (h.told.registered job jobId he).1).state] at hover
      exact (Stage.closed_of_isOver hover).imp fun _ h => h.1
    | name _ hphase =>
      cases hshows
      obtain ⟨_,outcome,hclosed,_⟩ := hhandled hphase
      exact ⟨outcome,hclosed⟩

/-- The stages fit what is seen of a step. -/
theorem Seen.step {stage' : JobRef → Stage ι} (hseen : Seen trace stage) (h : Stands decodeReplace text trace d stage)
    (hstep : Step executionKindFor decodeReplace text d event d') (hgrows : ∀ ref,(stage ref).Grows (stage' ref)) :
    Seen (trace ++ event.toList) stage' := by
  have hcases : ∀ {e : Event ι},e∈trace ++ event.toList →
      e∈trace ∨ Step executionKindFor decodeReplace text d (some e) d' := by
    intro e he
    refine (List.mem_append.mp he).imp id fun he => ?_
    rwa [← Option.mem_toList.mp he]
  refine ⟨fun e he ref hshows => ?_,fun e he ref hanswers => ?_⟩
  · have hclosed : ∃ outcome,(stage ref).closed?=some outcome :=
      (hcases he).elim (fun he => hseen.closed e he ref hshows) fun hstep => (shows h hstep ref).1 hshows
    exact hclosed.imp fun outcome => (hgrows ref).closed outcome
  · exact (hgrows ref).queued ((hcases he).elim (fun he => hseen.queued e he ref hanswers) fun hstep =>
      (shows h hstep ref).2 hanswers)

/-- Everything is where it should be, throughout a run, and what is told is explained. -/
theorem stands_run (hrun : Run (Step executionKindFor decodeReplace text) (Daemon.start : Daemon ι) trace d) :
    (∃ stage,Stands decodeReplace text trace d stage ∧ Seen trace stage) ∧
      ∀ before e after,trace=before ++ e::after → Explained executionKindFor decodeReplace text before e := by
  refine hrun.explained (I:=fun trace d => ∃ stage,Stands decodeReplace text trace d stage ∧ Seen trace stage)
    ⟨_,Stands.start decodeReplace text,⟨fun e he => absurd he List.not_mem_nil,
      fun e he => absurd he List.not_mem_nil⟩⟩ ?_
  rintro trace d event d' ⟨stage,h,hseen⟩ hstep
  obtain ⟨⟨stage',hgrows,h'⟩,hexplained⟩ := h.step hstep
  exact ⟨⟨stage',h',hseen.step h hstep hgrows⟩,hexplained⟩

/-- Whatever is told of the daemon's jobs follows from what was told before. -/
theorem jobs_explained {e : Event ι}
    (hrun : Run (Step executionKindFor decodeReplace text) (Daemon.start : Daemon ι) (before ++ e::after) d) :
    Explained executionKindFor decodeReplace text before e :=
  (stands_run hrun).2 before e after rfl

/-- What a request has read of a job that is over is all there. -/
def IsSettled (decodeReplace : Bytes → PyStr) (ref : JobRef) (outcome : Outcome) : Handler → Prop
  | .responding _ job reading => job=ref → Settled decodeReplace outcome reading
  | _ => True

/-- A request that moves on to respond begins to read, or goes on reading. -/
theorem handler_of_step (hstep : Step executionKindFor decodeReplace text d event d') (g : ι) :
    d'.handler g=d.handler g ∨ ∀ request ref reading,d'.handler g=.responding request ref reading →
      reading=.testing ∨ ∃ reading',d.handler g=.responding request ref reading' ∧
        reading'.read decodeReplace (d.job ref)=.more reading := by
  have hhandle : ∀ {h : ι} {phase : Handler},(g=h → ∀ request ref reading,phase=.responding request ref reading →
      reading=.testing ∨ ∃ reading',d.handler g=.responding request ref reading' ∧
        reading'.read decodeReplace (d.job ref)=.more reading) →
      Function.update d.handler h phase g=d.handler g ∨ ∀ request ref reading,
        Function.update d.handler h phase g=.responding request ref reading →
          reading=.testing ∨ ∃ reading',d.handler g=.responding request ref reading' ∧
            reading'.read decodeReplace (d.job ref)=.more reading := by
    intro h phase hphase
    by_cases hsame : g=h
    · subst hsame
      rw [Function.update_self]
      exact .inr (hphase rfl)
    · rw [Function.update_of_ne hsame]
      exact .inl rfl
  cases hstep with
  | ask h request phase hidle hphase =>
    refine hhandle fun _ request' ref reading he => ?_
    subst hphase
    cases request <;> exact nomatch he
  | enqueue =>
    refine hhandle fun _ request ref reading he => ?_
    cases he
    exact .inl rfl
  | enqueueHalf => exact hhandle fun _ request ref reading he => nomatch he
  | @found h jobId stream job hphase hget =>
    refine hhandle fun _ request ref reading he => ?_
    split at he
    · exact nomatch he
    · cases he
      exact .inl rfl
  | loop =>
    refine hhandle fun _ request ref reading he => ?_
    split at he <;> exact nomatch he
  | read h hphase hread =>
    refine hhandle fun hsame request ref reading he => ?_
    cases he
    exact .inr ⟨_,hsame ▸ hphase,hread⟩
  | take | begin | call | ret | record | close | signal => exact .inl rfl
  | refuse | make | register | enqueueFailed | list | missing | respond | respondFailed | status | wake | gone | readLast
      | finish | finishFailed | name =>
    exact hhandle fun _ request ref reading he => nomatch he

/-- From when a job is over, a request that starts then is answered in full. -/
theorem settled_step {g : ι} {ref : JobRef} {outcome : Outcome} (h : Stands decodeReplace text trace d stage)
    (hclosed : (stage ref).closed?=some outcome) (hsettled : IsSettled decodeReplace ref outcome (d.handler g))
    (hstep : Step executionKindFor decodeReplace text d event d') :
    IsSettled decodeReplace ref outcome (d'.handler g) ∧ ∀ request response,
      event=some (.answered g request (.response ref response)) →
        response=wholeResponse decodeReplace text response.jobId outcome := by
  obtain ⟨hstate,hexecution,herror⟩ := h.placed.closed hclosed
  have hread : ∀ {request : Request} {reading : Reading},d.handler g=.responding request ref reading →
      Settled decodeReplace outcome reading := by
    intro request reading hphase
    rw [hphase] at hsettled
    exact hsettled rfl
  constructor
  · rcases handler_of_step hstep g with hsame | hnext
    · rwa [hsame]
    · cases hphase : d'.handler g with
      | responding request job reading =>
        rintro rfl
        rcases hnext request job reading hphase with rfl | ⟨reading',hphase',hmore⟩
        · trivial
        · rcases (hread hphase').read hstate hexecution herror with ⟨next,hnext,hsettled'⟩ | hresponse
          · rw [hmore] at hnext
            cases hnext
            exact hsettled'
          · rw [hmore] at hresponse
            exact nomatch hresponse
      | idle | building | registering | queueing | listing | finding | looping | showing | sleeping | finishing
        | naming => trivial
  · rintro request response rfl
    obtain ⟨reading,hphase,hresponse⟩ := responds hstep
    rcases (hread hphase).read hstate hexecution herror with ⟨next,hnext,_⟩ | hwhole
    · rw [hresponse] at hnext
      exact nomatch hnext
    · rw [hresponse] at hwhole
      cases hwhole
      rfl

/-- Once an answer or a message showed a job to be over, each request that is made later and
answered about the job is answered in full, and always the same. -/
theorem answers_settled {g : ι} {ref : JobRef} {seen : Event ι}
    (hrun : Run (Step executionKindFor decodeReplace text) (Daemon.start : Daemon ι) before d)
    (hseen : seen∈before) (hover : ShowsOver ref seen) (hidle : d.handler g=.idle)
    (hlater : Run (Step executionKindFor decodeReplace text) d after d') :
    ∃ outcome,.returned ref outcome∈before ∧ ∀ request response,.answered g request (.response ref response)∈after →
      response=wholeResponse decodeReplace text response.jobId outcome := by
  obtain ⟨stage,h,hshown⟩ := (stands_run hrun).1
  obtain ⟨outcome,hclosed⟩ := hshown.closed seen hseen ref hover
  refine ⟨outcome,h.told.returned_of_recorded (Stage.recorded_of_closed hclosed),fun request response hanswer => ?_⟩
  have hstart : ∃ stage,Stands decodeReplace text (before ++ []) d stage ∧ (stage ref).closed?=some outcome ∧
      IsSettled decodeReplace ref outcome (d.handler g) := by
    rw [List.append_nil,hidle]
    exact ⟨stage,h,hclosed,trivial⟩
  have hevents := (hlater.explained
    (I:=fun trace d => ∃ stage,Stands decodeReplace text (before ++ trace) d stage ∧ (stage ref).closed?=some outcome ∧
      IsSettled decodeReplace ref outcome (d.handler g))
    (P:=fun _ e => ∀ request response,e=.answered g request (.response ref response) →
      response=wholeResponse decodeReplace text response.jobId outcome) hstart ?_).2
  · obtain ⟨trace,trace',rfl⟩ := List.mem_iff_append.mp hanswer
    exact hevents trace _ trace' rfl request response rfl
  · rintro trace d event d' ⟨stage,h,hclosed,hsettled⟩ hstep
    obtain ⟨⟨stage',hgrows,h'⟩,_⟩ := h.step hstep
    obtain ⟨hsettled',hresponse⟩ := settled_step h hclosed hsettled hstep
    rw [List.append_assoc] at h'
    refine ⟨⟨stage',h',(hgrows ref).closed outcome hclosed,hsettled'⟩,fun e he request response hanswer => ?_⟩
    exact hresponse request response (by rw [he,hanswer])

/-- A thread that is at work can move on, whatever its call comes to. -/
theorem worker_moves (comesTo : JobRef → Outcome) {w : Fin maxWorkers} (h : d.worker w≠.idle) :
    ∃ event d',PoolStep executionKindFor decodeReplace text d event d' ∧ d'.queue=d.queue ∧
      remaining d' < remaining d ∧ ∀ ref outcome,event=some (.returned ref outcome) → outcome=comesTo ref := by
  have hquiet : ∀ ref outcome,none=some (Event.returned ref outcome : Event ι) → outcome=comesTo ref :=
    fun _ _ he => nomatch he
  have hmoves : ∀ {phase next : Work},d.worker w=phase → next≠phase →
      ∃ v next',next'≠d.worker v ∧ Function.update d.worker w next=Function.update d.worker v next' :=
    fun {_ next} hphase hnext => ⟨w,next,by rwa [hphase],rfl⟩
  cases hphase : d.worker w with
  | idle => exact absurd hphase h
  | starting job command =>
    exact ⟨_,_,⟨.begin w hphase,rfl,hmoves hphase (fun he => by cases he)⟩,rfl,
      remaining_lt rfl (by rw [hphase]; exact Nat.lt_succ_self 5),hquiet⟩
  | calling job command =>
    exact ⟨_,_,⟨.call w hphase,rfl,hmoves hphase (fun he => by cases he)⟩,rfl,
      remaining_lt rfl (by rw [hphase]; exact Nat.lt_succ_self 4),fun _ _ he => nomatch he⟩
  | inside job =>
    refine ⟨_,_,⟨.ret w (comesTo job) hphase,rfl,hmoves hphase ?_⟩,rfl,remaining_lt rfl ?_,fun ref outcome he => ?_⟩
    · split
      · exact fun he => by cases he
      · exact fun he => by cases he
    · rw [hphase]
      split
      · exact Nat.lt_succ_self 3
      · exact Nat.zero_lt_succ 3
    · cases he
      rfl
  | recording job outcome =>
    exact ⟨_,_,⟨.record w hphase,rfl,hmoves hphase (fun he => by cases he)⟩,rfl,
      remaining_lt rfl (by rw [hphase]; exact Nat.lt_succ_self 2),hquiet⟩
  | closing job outcome =>
    exact ⟨_,_,⟨.close w hphase,rfl,hmoves hphase (fun he => by cases he)⟩,rfl,
      remaining_lt rfl (by rw [hphase]; exact Nat.lt_succ_self 1),hquiet⟩
  | signalling job outcome =>
    exact ⟨_,_,⟨.signal w hphase,rfl,hmoves hphase (fun he => by cases he)⟩,rfl,
      remaining_lt rfl (by rw [hphase]; exact Nat.lt_succ_self 0),hquiet⟩

/-- The pool can work off its queue, whatever the calls come to. -/
theorem drains (comesTo : JobRef → Outcome) {trace : List (Event ι)} {d : Daemon ι} {stage : JobRef → Stage ι}
    (h : Stands decodeReplace text trace d stage) :
    ∃ after d',Run (PoolStep executionKindFor decodeReplace text) d after d' ∧ d'.queue=[] ∧
      (∀ w,d'.worker w=.idle) ∧ (∀ ref outcome,.returned ref outcome∈after → outcome=comesTo ref) ∧
        ∃ stage',(∀ ref,(stage ref).Grows (stage' ref)) ∧ Stands decodeReplace text (trace ++ after) d' stage' := by
  by_cases hidle : ∀ w,d.worker w=.idle
  · cases hqueue : d.queue with
    | nil =>
      refine ⟨[],d,.start,hqueue,hidle,fun _ _ he => absurd he List.not_mem_nil,stage,fun _ => .refl _,?_⟩
      rwa [List.append_nil]
    | cons item rest =>
      have hfirst : 0 < maxWorkers := by decide
      have hstep : PoolStep executionKindFor decodeReplace text d none
          { d.work ⟨0,hfirst⟩ (.starting item.1 item.2) with queue := rest } :=
        ⟨.take ⟨0,hfirst⟩ (hidle _) hqueue,rfl,⟨0,hfirst⟩,.starting item.1 item.2,
          (by rw [hidle]; exact fun he => by cases he),rfl⟩
      obtain ⟨⟨stage',hgrows,h'⟩,_⟩ := h.step hstep.1
      have hless : rest.length < d.queue.length := by
        rw [hqueue]
        exact Nat.lt_succ_self _
      obtain ⟨after,d'',hrun,hdone,hidle',hcomes,stage'',hgrows',h''⟩ := drains comesTo h'
      refine ⟨after,d'',(Run.quiet hstep).append hrun,hdone,hidle',hcomes,stage'',fun ref =>
        (hgrows ref).trans (hgrows' ref),?_⟩
      rwa [Option.toList_none,List.append_nil] at h''
  · obtain ⟨w,hw⟩ := not_forall.mp hidle
    obtain ⟨event,d₁,hstep,hqueue,hless,hcomes⟩ := worker_moves comesTo hw
    obtain ⟨⟨stage',hgrows,h'⟩,_⟩ := h.step hstep.1
    obtain ⟨after,d'',hrun,hdone,hidle',hcomes',stage'',hgrows',h''⟩ := drains comesTo h'
    refine ⟨event.toList ++ after,d'',?_,hdone,hidle',fun ref outcome he => ?_,stage'',fun ref =>
      (hgrows ref).trans (hgrows' ref),?_⟩
    · have hfirst : Run (PoolStep executionKindFor decodeReplace text) d event.toList d₁ := Run.start.next hstep
      exact hfirst.append hrun
    · rcases List.mem_append.mp he with he | he
      · exact hcomes ref outcome (Option.mem_toList.mp he)
      · exact hcomes' ref outcome he
    · rwa [List.append_assoc] at h''
termination_by (d.queue.length,remaining d)
decreasing_by
  · exact Prod.Lex.left _ _ hless
  · rw [hqueue]
    exact Prod.Lex.right _ hless

/-- While only the pool moves, every request stays where it is. -/
theorem handler_of_poolRun {after : List (Event ι)} (h : Run (PoolStep executionKindFor decodeReplace text) d after d') :
    d'.handler=d.handler :=
  h.keeps (P:=fun s => s.handler=d.handler) rfl fun _ _ _ hs hstep => hstep.2.1.trans hs

/-- A job whose submission was answered is never lost: from wherever the daemon is, the threads
of the pool alone, while every request stays where it is, can work on until the job's call came
back and, unless it raised what nothing catches, the job is over with its event set. -/
theorem jobs_finish (comesTo : JobRef → Outcome)
    (hrun : Run (Step executionKindFor decodeReplace text) (Daemon.start : Daemon ι) before d) :
    ∃ after d',Run (PoolStep executionKindFor decodeReplace text) d after d' ∧ d'.handler=d.handler ∧
      (∀ ref outcome,.returned ref outcome∈after → outcome=comesTo ref) ∧
        ∀ ref,(∃ e∈before,AnswersSubmit ref e) → ∃ outcome,.returned ref outcome∈before ++ after ∧
          (outcome.isMarked=true → (d'.job ref).state=lastState outcome ∧ (d'.job ref).doneEvent=true) := by
  obtain ⟨stage,h,hseen⟩ := (stands_run hrun).1
  obtain ⟨after,d',hlater,hqueue,hidle,hcomes,stage',hgrows,h'⟩ :=
    @drains ι executionKindFor decodeReplace text _ comesTo before d stage h
  refine ⟨after,d',hlater,handler_of_poolRun hlater,hcomes,fun ref ⟨e,he,hanswers⟩ => ?_⟩
  have hqueued := (hgrows ref).queued (hseen.queued e he ref hanswers)
  have hworker : (stage' ref).worker?=none := by
    refine Option.eq_none_iff_forall_ne_some.mpr fun w hw => ?_
    have hs := h'.placed.held ref w hw
    rw [hidle w] at hs
    exact nomatch hs
  have hfits := h'.placed.fits ref fun he => by rw [he] at hqueued; exact nomatch hqueued
  have htold := h'.told.returned ref
  cases hstage : stage' ref with
  | unmade | made =>
    rw [hstage] at hqueued
    exact nomatch hqueued
  | waiting =>
    have hmem := (h'.placed.queued ref).mp hstage
    rw [hqueue] at hmem
    exact absurd hmem List.not_mem_nil
  | starting | calling | inside | recording | closing | signalling =>
    rw [hstage] at hworker
    exact nomatch hworker
  | ended outcome =>
    rw [hstage] at hfits htold
    exact ⟨outcome,(htold outcome).mp rfl,fun _ => ⟨hfits.state,hfits.doneEvent⟩⟩
  | lost outcome hunmarked =>
    rw [hstage] at htold
    refine ⟨outcome,(htold outcome).mp rfl,fun hmarked => ?_⟩
    rw [hunmarked] at hmarked
    exact nomatch hmarked

end Runs

/-- The body of a job's submission. -/
def submitted : JobSubmitBody where
  client := pyStr "claude"
  model := pyStr "opus"

/-- Every client is a managed one. -/
def managedKind (_ : PyStr) : Except PyExc ExecutionKind := .ok .localManaged

/-- The command of the job. -/
def submittedCommand : RunMlExecutionCommand where
  executionKind := .localManaged
  client := pyStr "claude"
  model := pyStr "opus"

/-- What the job's call comes to. -/
def failed : Outcome := .error (.cacheMiss (pyStr "no entry"))

/-- What the steps take the text of an exception for. -/
def missText (_ : PyExc) : PyStr := pyStr "no entry"

/-- What the steps take the text of bytes for. -/
def noText (_ : Bytes) : PyStr := []

/-- The response about the job. -/
def failedResponse : JobResponse := wholeResponse noText missText (pyStr "0a1b") failed

/-- A job is submitted and fails before its submission is answered. -/
def failedJob : List (Event Bool) :=
  [.asked true (.submit submitted),.made true submitted 0 (pyStr "0a1b") submittedCommand,
    .registered 0 (pyStr "0a1b"),.called 0 submittedCommand,.returned 0 failed,
    .answered true (.submit submitted) (.response 0 failedResponse)]

/-- Another request asks for it. -/
def askedLater : List (Event Bool) :=
  [.asked false (.get (pyStr "0a1b")),.answered false (.get (pyStr "0a1b")) (.response 0 failedResponse)]

/-- A request that asks for the job when it failed is answered in full. -/
theorem asked_later {d : Daemon Bool} (hidle : d.handler false=.idle) (hget : d.jobs.get? (pyStr "0a1b")=some 0)
    (hjob : d.job 0=⟨pyStr "0a1b",.error,none,some (pyStr "no entry"),true⟩) :
    ∃ d',Run (Step managedKind noText missText) d askedLater d' := by
  have hread : ∀ {reading : Reading},reading.read noText (d.job 0)=
      reading.read noText ⟨pyStr "0a1b",.error,none,some (pyStr "no entry"),true⟩ := fun {_} => by rw [hjob]
  have h1 : Run (Step managedKind noText missText) d _ _ :=
    Run.seen (.ask false (.get (pyStr "0a1b")) (.finding (pyStr "0a1b") false) hidle rfl)
  have h2 := h1.next (.found false rfl hget)
  have h3 := h2.next (.read false rfl (hread.trans rfl))
  have h4 := h3.next (.read false rfl (hread.trans rfl))
  have h5 := h4.next (.respond false rfl (hread.trans rfl))
  exact ⟨_,h5⟩

/-- The job may be run and asked for like that. -/
theorem failedJob_runs : ∃ d d' : Daemon Bool,
    Run (Step managedKind noText missText) Daemon.start failedJob d ∧ d.handler false=.idle ∧
      Run (Step managedKind noText missText) d askedLater d' := by
  have h1 : Run (Step managedKind noText missText) (Daemon.start : Daemon Bool) _ _ :=
    Run.seen (.ask true (.submit submitted) _ rfl rfl)
  have h2 := h1.next (.make true (pyStr "0a1b") rfl rfl)
  have h3 := h2.next (.register true rfl)
  have h4 := h3.next (.enqueue true rfl)
  have h5 := h4.next (.take ⟨0,by decide⟩ rfl rfl)
  have h6 := h5.next (.begin ⟨0,by decide⟩ rfl)
  have h7 := h6.next (.call ⟨0,by decide⟩ rfl)
  have h8 := h7.next (.ret ⟨0,by decide⟩ failed rfl)
  have h9 := h8.next (.record ⟨0,by decide⟩ rfl)
  have h10 := h9.next (.close ⟨0,by decide⟩ rfl)
  have h11 := h10.next (.signal ⟨0,by decide⟩ rfl)
  have h12 := h11.next (.read true rfl rfl)
  have h13 := h12.next (.read true rfl rfl)
  have h14 := h13.next (.respond true rfl rfl)
  obtain ⟨d,hfailed,hidle,hget,hjob⟩ : ∃ d : Daemon Bool,
      Run (Step managedKind noText missText) Daemon.start failedJob d ∧ d.handler false=.idle ∧
        d.jobs.get? (pyStr "0a1b")=some 0 ∧ d.job 0=⟨pyStr "0a1b",.error,none,some (pyStr "no entry"),true⟩ :=
    ⟨_,h14,rfl,rfl,rfl⟩
  obtain ⟨d',hlater⟩ := asked_later hidle hget hjob
  exact ⟨d,d',hfailed,hidle,hlater⟩

/-- The answer to the submission is what the failed call makes it. -/
theorem jobs_explained_failed : Explained managedKind noText missText
    [.asked true (.submit submitted),.made true submitted 0 (pyStr "0a1b") submittedCommand,
      .registered 0 (pyStr "0a1b"),.called 0 submittedCommand,.returned 0 failed]
    (.answered true (.submit submitted) (.response 0 failedResponse)) := by
  obtain ⟨d,_,hrun,_⟩ := failedJob_runs
  exact @jobs_explained Bool managedKind noText missText _ [] d _ _ hrun

/-- The later answer is the whole response. -/
theorem answers_settled_failed : ∃ outcome,.returned 0 outcome∈failedJob ∧ ∀ request response,
    .answered false request (.response 0 response)∈askedLater →
      response=wholeResponse noText missText response.jobId outcome := by
  obtain ⟨d,d',hrun,hidle,hlater⟩ := failedJob_runs
  have hseen : Event.answered true (.submit submitted) (.response 0 failedResponse)∈failedJob := by
    repeat first | exact List.mem_cons_self | apply List.mem_cons_of_mem
  exact answers_settled hrun hseen ⟨rfl,rfl⟩ hidle hlater

/-- The response about the job while no thread took it. -/
def pendingResponse : JobResponse := { jobId := pyStr "0a1b", state := .pending }

/-- A job is submitted and its submission is answered before any thread takes the job. -/
def queuedJob : List (Event Bool) :=
  [.asked true (.submit submitted),.made true submitted 0 (pyStr "0a1b") submittedCommand,
    .registered 0 (pyStr "0a1b"),.answered true (.submit submitted) (.response 0 pendingResponse)]

/-- The job may be queued like that. -/
theorem queuedJob_runs : ∃ d : Daemon Bool,Run (Step managedKind noText missText) Daemon.start queuedJob d ∧
    d.queue=[(0,submittedCommand)] ∧ (d.job 0).state=.pending := by
  have h1 : Run (Step managedKind noText missText) (Daemon.start : Daemon Bool) _ _ :=
    Run.seen (.ask true (.submit submitted) _ rfl rfl)
  have h2 := h1.next (.make true (pyStr "0a1b") rfl rfl)
  have h3 := h2.next (.register true rfl)
  have h4 := h3.next (.enqueue true rfl)
  have h5 := h4.next (.read true rfl rfl)
  have h6 := h5.next (.read true rfl rfl)
  have h7 := h6.next (.respond true rfl rfl)
  exact ⟨_,h7,rfl,rfl⟩

/-- A job that waits in the queue fails in the end, by the work of the pool alone. -/
theorem jobs_finish_queued : ∃ d : Daemon Bool,d.queue=[(0,submittedCommand)] ∧ (d.job 0).state=.pending ∧
    ∃ after d',Run (PoolStep managedKind noText missText) d after d' ∧ d'.handler=d.handler ∧
      (∀ ref outcome,.returned ref outcome∈after → outcome=failed) ∧
        .returned 0 failed∈after ∧ (d'.job 0).state=.error ∧ (d'.job 0).doneEvent=true := by
  obtain ⟨d,hrun,hqueue,hpending⟩ := queuedJob_runs
  obtain ⟨after,d',hlater,hhandler,hcomes,hends⟩ := jobs_finish (fun _ => failed) hrun
  have hanswered : Event.answered true (.submit submitted) (.response 0 pendingResponse)∈queuedJob := by
    repeat first | exact List.mem_cons_self | apply List.mem_cons_of_mem
  obtain ⟨outcome,hreturned,hover⟩ := hends 0 ⟨_,hanswered,rfl⟩
  have hmem : .returned 0 outcome∈after := by
    rcases List.mem_append.mp hreturned with hbefore | hafter
    · simp only [queuedJob,List.mem_cons,List.not_mem_nil,reduceCtorEq,or_self] at hbefore
    · exact hafter
  obtain rfl := hcomes 0 outcome hmem
  obtain ⟨hstate,hdone⟩ := hover rfl
  exact ⟨d,hqueue,hpending,after,d',hlater,hhandler,hcomes,hmem,hstate,hdone⟩

end GenericMlCache.DaemonJobAnswers
