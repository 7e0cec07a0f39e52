import GenericMlCache.TextReading
import Mathlib.Logic.Relation

/-!
# Collecting a child process's output

`CliProcessRunner.run` collects the output with `communicate`, or, when lines are to be
streamed, with reader threads that it joins after the process has exited. The child, the
threads and the waiting caller take their steps in any order.
-/

namespace GenericMlCache.ProcessStreams

open PythonText TextReading

/-- A pipe from the child. -/
inductive Channel where
  | stdout
  | stderr
deriving DecidableEq

/-- One value for each of the two pipes. -/
structure PerChannel (α : Type) where
  /-- That of the standard output. -/
  stdout : α
  /-- That of the standard error. -/
  stderr : α
deriving DecidableEq

/-- The value for a pipe. -/
def PerChannel.get {α : Type} (values : PerChannel α) : Channel → α
  | .stdout => values.stdout
  | .stderr => values.stderr

/-- Replace the value for a pipe. -/
def PerChannel.set {α : Type} (values : PerChannel α) (channel : Channel) (value : α) : PerChannel α :=
  match channel with
  | .stdout => { values with stdout := value }
  | .stderr => { values with stderr := value }

@[simp] theorem PerChannel.get_set {α : Type} (values : PerChannel α) (channel channel' : Channel) (value : α) :
    (values.set channel value).get channel'=if channel'=channel then value else values.get channel' := by
  cases channel <;> cases channel' <;> rfl

/-- What the child and the processes it has left behind do next. -/
inductive ChildEvent where
  | writes (channel : Channel) (bytes : Bytes)
  /-- The last process that holds the pipe closes it. -/
  | closes (channel : Channel)
  | exits (code : ℤ)
  | passes (microseconds : ℕ)

/-- The bytes written to a pipe before it is closed. -/
def written (channel : Channel) : List ChildEvent → Bytes
  | [] => []
  | .writes channel' bytes::rest => if channel=channel' then bytes++written channel rest else written channel rest
  | .closes channel'::rest => if channel=channel' then [] else written channel rest
  | .exits _::rest => written channel rest
  | .passes _::rest => written channel rest

/-- The code that the child exits with. -/
def exitCode : List ChildEvent → Option ℤ
  | [] => none
  | .exits code::_ => some code
  | .writes _ _::rest => exitCode rest
  | .closes _::rest => exitCode rest
  | .passes _::rest => exitCode rest

/-- The bytes in a pipe that are not read yet, and whether it is closed. -/
structure Pipe where
  /-- The bytes that are not read yet. -/
  pending : Bytes := []
  /-- Whether the child has closed its end. -/
  closed : Bool := false
deriving DecidableEq

/-- The child as its parent can see it, and what it is still to do. -/
structure Child where
  /-- What it is still to do. -/
  script : List ChildEvent
  /-- Its two pipes. -/
  pipes : PerChannel Pipe := ⟨{},{}⟩
  /-- Its exit code, once it has exited. -/
  returncode : Option ℤ := none
  /-- The microseconds since it was started. -/
  clock : ℕ := 0

/-- The next event of the script. -/
def Child.step (child : Child) : Option Child :=
  match child.script with
  | [] => none
  | .writes channel bytes::rest =>
    let pipe := child.pipes.get channel
    let pending := if pipe.closed=true then pipe.pending else pipe.pending++bytes
    some { child with script := rest, pipes := child.pipes.set channel { pipe with pending := pending } }
  | .closes channel::rest =>
    let pipe := child.pipes.get channel
    some { child with script := rest, pipes := child.pipes.set channel { pipe with closed := true } }
  | .exits code::rest => some { child with script := rest, returncode := child.returncode.or (some code) }
  | .passes microseconds::rest => some { child with script := rest, clock := child.clock+microseconds }

/-- The bytes that are still to be written to a pipe. -/
def Child.future (child : Child) (channel : Channel) : Bytes :=
  if (child.pipes.get channel).closed=true then [] else written channel child.script

/-- The bytes that a pipe still carries. -/
def Child.rest (child : Child) (channel : Channel) : Bytes :=
  (child.pipes.get channel).pending++child.future channel

/-- What a pipe carries does not depend on when it is written. -/
theorem Child.step_rest {child child' : Child} (h : child.step=some child') (channel : Channel) :
    child'.rest channel=child.rest channel := by
  unfold Child.step at h
  split at h
  next => exact nomatch h
  next channel' bytes rest hscript =>
    cases h
    simp only [Child.rest,Child.future,PerChannel.get_set,hscript,written]
    by_cases hchannel : channel=channel'
    · subst hchannel
      cases (child.pipes.get channel).closed <;> simp
    · simp only [if_neg hchannel]
  next channel' rest hscript =>
    cases h
    simp only [Child.rest,Child.future,PerChannel.get_set,hscript,written]
    by_cases hchannel : channel=channel'
    · subst hchannel
      simp
    · simp only [if_neg hchannel]
  next code rest hscript =>
    cases h
    simp only [Child.rest,Child.future,hscript,written]
  next microseconds rest hscript =>
    cases h
    simp only [Child.rest,Child.future,hscript,written]

/-- Nor does the exit code. -/
theorem Child.step_exitCode {child child' : Child} (h : child.step=some child') :
    child'.returncode.or (exitCode child'.script)=child.returncode.or (exitCode child.script) := by
  unfold Child.step at h
  split at h
  next => exact nomatch h
  next channel bytes rest hscript =>
    cases h
    simp only [hscript,exitCode]
  next channel rest hscript =>
    cases h
    simp only [hscript,exitCode]
  next code rest hscript =>
    cases h
    rw [hscript]
    cases child.returncode <;> rfl
  next microseconds rest hscript =>
    cases h
    simp only [hscript,exitCode]

/-- What a pipe carries when a chunk is taken from it, and that the other is left alone. -/
theorem Child.rest_set (child : Child) {channel : Channel} {pipe : Pipe}
    (hclosed : pipe.closed=(child.pipes.get channel).closed) (channel' : Channel) :
    ({ child with pipes := child.pipes.set channel pipe } : Child).rest channel'=
      if channel'=channel then pipe.pending++child.future channel else child.rest channel' := by
  simp only [Child.rest,Child.future,PerChannel.get_set]
  by_cases hchannel : channel'=channel
  · subst hchannel
    simp [hclosed]
  · simp only [if_neg hchannel]

/-- What `on_line` does with a line. -/
inductive Consumed where
  | returns
  /-- An `Exception`, which the thread catches. -/
  | raises
  /-- Any other `BaseException`, which ends the thread. -/
  | exits
  /-- It never returns. -/
  | hangs
deriving DecidableEq

/-- How far a thread is. -/
inductive ThreadStatus where
  | running
  | hanging
  | ended
deriving DecidableEq

/-- `_read_stdout` or `_read_stderr` on its way. -/
structure ReadingThread where
  /-- The text file it reads the pipe through. -/
  reader : LineReader := {}
  /-- The lines it has read. -/
  captured : List PyStr := []
  /-- Whether it still runs. -/
  status : ThreadStatus := .running
deriving DecidableEq

/-- A step of a reader thread. -/
inductive ThreadStep where
  /-- The stream reads a chunk of at most that many bytes. -/
  | fetches (n : ℕ)
  /-- The stream sees the end of the pipe. -/
  | finishes
  /-- The stream gives a line, which is captured and handed on. -/
  | gives
  /-- The stream has no more lines. -/
  | ends

/-- The chunk size of a text stream. -/
def chunkSize : ℕ := 8192

/-- How far a thread is after `on_line`. -/
def statusAfter : Consumed → ThreadStatus
  | .returns => .running
  | .raises => .running
  | .exits => .ended
  | .hangs => .hanging

/-- Run a reader thread for one step. UnicodeDecodeError is a `ValueError`, which ends the loop. -/
def ReadingThread.step (onLine : List PyStr → Consumed) (thread : ReadingThread) (pipe : Pipe) :
    ThreadStep → Option (ReadingThread × Pipe)
  | .fetches n =>
    if thread.status=.running ∧ thread.reader.next=none ∧ thread.reader.eof=false ∧ pipe.pending≠[] ∧ 0 < n ∧
        n ≤ chunkSize then
      match thread.reader.fetch (pipe.pending.take n) with
      | some reader => some ({ thread with reader := reader },{ pipe with pending := pipe.pending.drop n })
      | none => some ({ thread with status := .ended },{ pipe with pending := pipe.pending.drop n })
    else none
  | .finishes =>
    if thread.status=.running ∧ thread.reader.next=none ∧ thread.reader.eof=false ∧ pipe.pending=[] ∧
        pipe.closed=true then
      match thread.reader.finish with
      | some reader => some ({ thread with reader := reader },pipe)
      | none => some ({ thread with status := .ended },pipe)
    else none
  | .gives =>
    if thread.status=.running then
      match thread.reader.next with
      | some (line,reader) =>
        let captured := thread.captured++[line]
        some ({ reader := reader, captured := captured, status := statusAfter (onLine captured) },pipe)
      | none => none
    else none
  | .ends =>
    if thread.status=.running ∧ thread.reader.next=none ∧ thread.reader.eof=true then
      some ({ thread with status := .ended },pipe)
    else none

/-- What a thread has captured and what its pipe still carries make up a text. -/
def ReadingThread.Captures (thread : ReadingThread) (rest : Bytes) (whole : PyStr) : Prop :=
  thread.reader.Reads thread.captured.flatten rest whole ∧
    (thread.status=.ended → thread.captured.flatten=whole)

/-- A step of a thread over a text that decodes, whose `on_line` does not end the thread. -/
theorem ReadingThread.Captures.step {onLine : List PyStr → Consumed} {thread thread' : ReadingThread}
    {pipe pipe' : Pipe} {future : Bytes} {whole : PyStr} {a : ThreadStep}
    (h : thread.Captures (pipe.pending++future) whole) (hclosed : pipe.closed=true → future=[])
    (hconsumer : ∀ lines,onLine lines≠.exits) (hstep : thread.step onLine pipe a=some (thread',pipe')) :
    pipe'.closed=pipe.closed ∧ thread'.Captures (pipe'.pending++future) whole := by
  cases a with
  | fetches n =>
    unfold ReadingThread.step at hstep
    dsimp only at hstep
    split at hstep
    next hready =>
      obtain ⟨hrunning,_,heof,_⟩ := hready
      have hsplit : pipe.pending++future=pipe.pending.take n++(pipe.pending.drop n++future) := by
        rw [← List.append_assoc,List.take_append_drop]
      obtain ⟨reader,hfetch,_,hreads⟩ := (hsplit ▸ h.1).fetch heof
      rw [hfetch] at hstep
      cases hstep
      exact ⟨rfl,hreads,fun hended => absurd (hrunning.symm.trans hended) (by decide)⟩
    next => exact nomatch hstep
  | finishes =>
    unfold ReadingThread.step at hstep
    dsimp only at hstep
    split at hstep
    next hready =>
      obtain ⟨hrunning,_,_,hpending,hend⟩ := hready
      have hreads := h.1
      rw [hpending,hclosed hend,List.nil_append] at hreads
      obtain ⟨reader,hfinish,_,hreads'⟩ := hreads.finish
      rw [hfinish] at hstep
      cases hstep
      rw [hpending,hclosed hend]
      exact ⟨rfl,hreads',fun hended => absurd (hrunning.symm.trans hended) (by decide)⟩
    next => exact nomatch hstep
  | gives =>
    unfold ReadingThread.step at hstep
    dsimp only at hstep
    split at hstep
    next =>
      split at hstep
      next line reader hnext =>
        cases hstep
        have hreads := h.1.next hnext
        refine ⟨rfl,by simpa [ReadingThread.Captures] using hreads,fun hended => ?_⟩
        cases hconsumed : onLine (thread.captured++[line]) with
        | exits => exact absurd hconsumed (hconsumer _)
        | _ =>
          rw [hconsumed] at hended
          exact nomatch hended
      next => exact nomatch hstep
    next => exact nomatch hstep
  | ends =>
    unfold ReadingThread.step at hstep
    dsimp only at hstep
    split at hstep
    next hready =>
      obtain ⟨_,hnext,heof⟩ := hready
      cases hstep
      exact ⟨rfl,h.1,fun _ => h.1.all heof hnext⟩
    next => exact nomatch hstep

/-- What `run` raises. -/
inductive RunExc where
  | timeoutExpired
  | unicodeError
  | runInterrupted (signum : ℤ)
deriving DecidableEq

/-- Captured stdout and stderr and the exit code, or what is raised. -/
abbrev Outcome := Except RunExc (PyStr × PyStr × ℤ)

/-- One call of `run`: what the child does, the arguments, the signal that `_on_stop` has
noted by its end, and what `on_line` does with the last of the lines so far. -/
structure RunCall where
  /-- What the child does. -/
  script : List ChildEvent
  /-- The text written to its standard input. -/
  stdinPayload : Option PyStr
  /-- The microseconds it may take. -/
  timeout : Option ℕ
  /-- The signal that `_on_stop` has noted by the end. -/
  stopped : Option ℤ
  /-- What the callback does with the last of the lines so far. -/
  onLine : List PyStr → Consumed

/-- The end of `run`, after the output is collected. -/
def RunCall.outcome (call : RunCall) (out err : PyStr) (code : ℤ) : Outcome :=
  match call.stopped with
  | some signum => .error (.runInterrupted signum)
  | none => .ok (out,err,code)

/-- Whether a wait since the start has reached the timeout. -/
def RunCall.overdue (call : RunCall) (clock : ℕ) : Bool := call.timeout.any fun timeout => timeout ≤ clock

/-- The threads of `_communicate_streaming`. -/
inductive Worker where
  | feedStdin
  | reads (channel : Channel)
deriving DecidableEq

/-- Where the caller of the threads is. -/
inductive Caller where
  | waiting
  /-- Since when the first of the workers is joined. -/
  | joining (workers : List Worker) (since : ℕ)
  | ended (outcome : Outcome)
deriving DecidableEq

/-- `_communicate_streaming` on its way. -/
structure Streaming where
  /-- The child. -/
  child : Child
  /-- Whether the payload is still being written. -/
  feeding : Bool := true
  /-- The two reading threads. -/
  threads : PerChannel ReadingThread := ⟨{},{}⟩
  /-- Where the caller is. -/
  caller : Caller := .waiting

/-- A step of the child, of a thread or of the caller. -/
inductive StreamingStep where
  | child
  | fed
  | thread (channel : Channel) (step : ThreadStep)
  | waitReturns
  | waitTimesOut
  | joins
  | givesUp
  | returns

/-- `w.join(timeout=5)`. -/
def joinTimeout : ℕ := 5000000

/-- Whether a thread has ended. -/
def Streaming.workerEnded (s : Streaming) : Worker → Bool
  | .feedStdin => !s.feeding
  | .reads channel => (s.threads.get channel).status=.ended

/-- `on_line`, which only the lines of stdout are handed to. -/
def RunCall.consumer (call : RunCall) : Channel → List PyStr → Consumed
  | .stdout => call.onLine
  | .stderr => fun _ => .returns

/-- Run `_communicate_streaming` for one step. -/
def Streaming.step (call : RunCall) (s : Streaming) : StreamingStep → Option Streaming
  | .child => s.child.step.map fun child => { s with child := child }
  | .fed => some { s with feeding := false }
  | .thread channel a =>
    ((s.threads.get channel).step (call.consumer channel) (s.child.pipes.get channel) a).map fun (thread,pipe) =>
      { s with
        child := { s.child with pipes := s.child.pipes.set channel pipe }
        threads := s.threads.set channel thread }
  | .waitReturns =>
    if s.caller=.waiting ∧ s.child.returncode.isSome=true then
      some { s with caller := .joining [.feedStdin,.reads .stderr,.reads .stdout] s.child.clock }
    else none
  | .waitTimesOut =>
    if s.caller=.waiting ∧ s.child.returncode=none ∧ call.overdue s.child.clock=true then
      some { s with caller := .ended (.error .timeoutExpired) }
    else none
  | .joins =>
    match s.caller with
    | .joining (worker::workers) _ =>
      if s.workerEnded worker=true then some { s with caller := .joining workers s.child.clock } else none
    | _ => none
  | .givesUp =>
    match s.caller with
    | .joining (_::workers) since =>
      if since+joinTimeout ≤ s.child.clock then some { s with caller := .joining workers s.child.clock } else none
    | _ => none
  | .returns =>
    match s.caller,s.child.returncode with
    | .joining [] _,some code => some { s with
        caller := .ended (call.outcome s.threads.stdout.captured.flatten s.threads.stderr.captured.flatten code) }
    | _,_ => none

/-- `communicate` on its way. -/
structure Communicating where
  /-- The child. -/
  child : Child
  /-- Whether the payload is still being written. -/
  feeding : Bool := true
  /-- The bytes read from each pipe. -/
  collected : PerChannel Bytes := ⟨[],[]⟩
  /-- Whether each pipe was read to its end. -/
  closed : PerChannel Bool := ⟨false,false⟩
  /-- What the call came to. -/
  ended : Option Outcome := none

/-- A step of the child or of `communicate`. -/
inductive CommunicatingStep where
  | child
  | fed
  | reads (channel : Channel) (n : ℕ)
  | hangsUp (channel : Channel)
  | timesOut
  | returns

/-- The texts that `communicate` decodes after all is collected. -/
def RunCall.decoded (call : RunCall) (collected : PerChannel Bytes) (code : ℤ) : Outcome :=
  match decodeText collected.stdout with
  | none => .error .unicodeError
  | some out =>
    match decodeText collected.stderr with
    | none => .error .unicodeError
    | some err => call.outcome out err code

/-- Run `communicate` for one step. -/
def Communicating.step (call : RunCall) (p : Communicating) : CommunicatingStep → Option Communicating
  | .child => p.child.step.map fun child => { p with child := child }
  | .fed => some { p with feeding := false }
  | .reads channel n =>
    let pipe := p.child.pipes.get channel
    if p.ended=none ∧ pipe.pending≠[] ∧ 0 < n then
      some { p with
        child := { p.child with pipes := p.child.pipes.set channel { pipe with pending := pipe.pending.drop n } }
        collected := p.collected.set channel (p.collected.get channel++pipe.pending.take n) }
    else none
  | .hangsUp channel =>
    let pipe := p.child.pipes.get channel
    if pipe.pending=[] ∧ pipe.closed=true then some { p with closed := p.closed.set channel true } else none
  | .timesOut =>
    if p.ended=none ∧ call.overdue p.child.clock=true then some { p with ended := some (.error .timeoutExpired) }
    else none
  | .returns =>
    match p.child.returncode with
    | some code =>
      if p.ended=none ∧ p.feeding=false ∧ p.closed=⟨true,true⟩ then
        some { p with ended := some (call.decoded p.collected code) }
      else none
    | none => none

/-- `communicate` before its first step. It encodes its input first. -/
def Communicating.start (call : RunCall) : Communicating where
  child := { script := call.script }
  ended := if call.stdinPayload.all encodable=true then none else some (.error .unicodeError)

/-- `_communicate_streaming` before its first step. -/
def Streaming.start (call : RunCall) : Streaming where
  child := { script := call.script }

/-- A state that streaming reaches by steps that are allowed where they are taken. -/
def Streams (call : RunCall) (allowed : Streaming → StreamingStep → Prop) : Streaming → Prop :=
  Relation.ReflTransGen (fun s s' => ∃ a,allowed s a ∧ s.step call a=some s') (Streaming.start call)

/-- A state that `communicate` reaches by steps that are allowed where they are taken. -/
def Communicates (call : RunCall) (allowed : Communicating → CommunicatingStep → Prop) : Communicating → Prop :=
  Relation.ReflTransGen (fun p p' => ∃ a,allowed p a ∧ p.step call a=some p') (Communicating.start call)

/-- A join gives up on no reader thread. -/
def Patient (s : Streaming) : StreamingStep → Prop
  | .givesUp => ∃ workers since,s.caller=.joining (.feedStdin::workers) since
  | _ => True

/-- `communicate` does not run into its timeout. -/
def Timely (_ : Communicating) : CommunicatingStep → Prop
  | .timesOut => False
  | _ => True

section Collected
variable {call : RunCall} {whole : PerChannel PyStr}

/-- Only a running thread takes a step. -/
theorem running_of_step {onLine : List PyStr → Consumed} {thread : ReadingThread} {pipe : Pipe} {a : ThreadStep}
    {r : ReadingThread × Pipe} (h : thread.step onLine pipe a=some r) : thread.status=.running := by
  cases a with
  | gives =>
    unfold ReadingThread.step at h
    dsimp only at h
    split at h
    next hrunning => exact hrunning
    next => exact nomatch h
  | _ =>
    unfold ReadingThread.step at h
    dsimp only at h
    split at h
    next hready => exact hready.1
    next => exact nomatch h

variable (call whole) in
/-- What the caller has reached. -/
def CallerAt (s : Streaming) : Caller → Prop
  | .waiting => True
  | .joining workers _ => ∀ channel,.reads channel∈workers ∨ (s.threads.get channel).status=.ended
  | .ended r => r=.error .timeoutExpired ∨
      ∃ code,exitCode call.script=some code ∧ r=call.outcome whole.stdout whole.stderr code

variable (call whole) in
/-- The invariant of patient streaming over outputs that decode. -/
structure Streamed (s : Streaming) : Prop where
  /-- Each thread has captured what its pipe held so far. -/
  captures : ∀ channel,(s.threads.get channel).Captures (s.child.rest channel) (whole.get channel)
  /-- The child exits with the code of its script. -/
  code : s.child.returncode.or (exitCode s.child.script)=exitCode call.script
  /-- What the caller's place says. -/
  caller : CallerAt call whole s s.caller

/-- It holds at the start. -/
theorem Streamed.start (h : ∀ channel,decodeText (written channel call.script)=some (whole.get channel)) :
    Streamed call whole (Streaming.start call) := by
  refine ⟨fun channel => ⟨?_,?_⟩,rfl,trivial⟩
  · have hreads := reads_decodeText (h channel)
    cases channel <;> exact hreads
  · cases channel <;> exact fun hno => (nomatch hno)

/-- What the caller has reached stays reached where no thread that ended runs again. -/
theorem CallerAt.mono {s s' : Streaming} {caller : Caller}
    (hended : ∀ channel,(s.threads.get channel).status=.ended → (s'.threads.get channel).status=.ended)
    (h : CallerAt call whole s caller) : CallerAt call whole s' caller := by
  cases caller with
  | joining workers since => exact fun channel => (h channel).imp id (hended channel)
  | _ => exact h

/-- The child's steps keep it. -/
theorem Streamed.child {s : Streaming} {child : Child} (h : Streamed call whole s)
    (hchild : s.child.step=some child) : Streamed call whole { s with child := child } := by
  refine ⟨fun channel => ?_,(Child.step_exitCode hchild).trans h.code,h.caller.mono fun _ => id⟩
  rw [Child.step_rest hchild]
  exact h.captures channel

/-- The threads' steps keep it. -/
theorem Streamed.thread (hconsumer : ∀ lines,call.onLine lines≠.exits) {s : Streaming} (h : Streamed call whole s)
    {channel : Channel} {a : ThreadStep} {thread : ReadingThread} {pipe : Pipe}
    (hthread : (s.threads.get channel).step (call.consumer channel) (s.child.pipes.get channel) a=some (thread,pipe)) :
    Streamed call whole { s with
      threads := s.threads.set channel thread
      child := { s.child with pipes := s.child.pipes.set channel pipe } } := by
  have hno : ∀ lines,call.consumer channel lines≠.exits := by
    cases channel with
    | stdout => exact hconsumer
    | stderr => exact fun _ hno => (nomatch hno)
  obtain ⟨hclosed,hcaptures⟩ := (h.captures channel).step (fun hyes => by simp [Child.future,hyes]) hno hthread
  refine ⟨fun channel' => ?_,h.code,h.caller.mono fun channel' hended => ?_⟩
  · rw [Child.rest_set s.child hclosed,PerChannel.get_set]
    by_cases hchannel : channel'=channel
    · rw [if_pos hchannel,if_pos hchannel,hchannel]
      exact hcaptures
    · rw [if_neg hchannel,if_neg hchannel]
      exact h.captures channel'
  · by_cases hchannel : channel'=channel
    · subst hchannel
      rw [running_of_step hthread] at hended
      exact nomatch hended
    · rw [PerChannel.get_set,if_neg hchannel]
      exact hended

/-- A join that ends passes a worker that has ended. -/
theorem Streamed.joins {s : Streaming} {worker : Worker} {workers : List Worker} {since since' : ℕ}
    (h : Streamed call whole s) (hat : s.caller=.joining (worker::workers) since) (hended : s.workerEnded worker=true) :
    Streamed call whole { s with caller := .joining workers since' } := by
  have hcaller := h.caller
  rw [hat] at hcaller
  refine ⟨h.captures,h.code,fun channel => ?_⟩
  rcases hcaller channel with hmem | hdone
  · rcases List.mem_cons.mp hmem with rfl | hmem
    · exact .inr (by simpa [Streaming.workerEnded] using hended)
    · exact .inl hmem
  · exact .inr hdone

/-- A join that gives up on the feeding thread passes no reader. -/
theorem Streamed.givesUp {s : Streaming} {workers : List Worker} {since since' : ℕ} (h : Streamed call whole s)
    (hat : s.caller=.joining (.feedStdin::workers) since) :
    Streamed call whole { s with caller := .joining workers since' } := by
  have hcaller := h.caller
  rw [hat] at hcaller
  refine ⟨h.captures,h.code,fun channel => ?_⟩
  rcases hcaller channel with hmem | hdone
  · exact .inl ((List.mem_cons.mp hmem).resolve_left (by simp))
  · exact .inr hdone

/-- What the call returns after its joins is whole. -/
theorem Streamed.returns {s : Streaming} {since : ℕ} {code : ℤ} (h : Streamed call whole s)
    (hat : s.caller=.joining [] since) (hcode : s.child.returncode=some code) :
    Streamed call whole { s with
      caller := .ended (call.outcome s.threads.stdout.captured.flatten s.threads.stderr.captured.flatten code) } := by
  have hcaller := h.caller
  rw [hat] at hcaller
  have hdone : ∀ channel,(s.threads.get channel).captured.flatten=whole.get channel := by
    intro channel
    rcases hcaller channel with hmem | hended
    · exact nomatch hmem
    · exact (h.captures channel).2 hended
  have hexit := h.code
  rw [hcode] at hexit
  have hout := hdone .stdout
  have herr := hdone .stderr
  simp only [PerChannel.get] at hout herr
  rw [hout,herr]
  exact ⟨h.captures,h.code,.inr ⟨code,hexit.symm,rfl⟩⟩

/-- A patient step keeps it. -/
theorem Streamed.step (hconsumer : ∀ lines,call.onLine lines≠.exits) {s s' : Streaming} (h : Streamed call whole s)
    {a : StreamingStep} (hpatient : Patient s a) (hstep : s.step call a=some s') : Streamed call whole s' := by
  cases a with
  | child =>
    obtain ⟨child,hchild,rfl⟩ := Option.map_eq_some_iff.mp hstep
    exact h.child hchild
  | fed =>
    cases hstep
    exact ⟨h.captures,h.code,h.caller.mono fun _ => id⟩
  | thread channel a =>
    obtain ⟨⟨thread,pipe⟩,hthread,rfl⟩ := Option.map_eq_some_iff.mp hstep
    exact h.thread hconsumer hthread
  | waitReturns =>
    unfold Streaming.step at hstep
    dsimp only at hstep
    split at hstep
    next =>
      cases hstep
      refine ⟨h.captures,h.code,fun channel => .inl ?_⟩
      cases channel <;> simp
    next => exact nomatch hstep
  | waitTimesOut =>
    unfold Streaming.step at hstep
    dsimp only at hstep
    split at hstep
    next =>
      cases hstep
      exact ⟨h.captures,h.code,.inl rfl⟩
    next => exact nomatch hstep
  | joins =>
    unfold Streaming.step at hstep
    dsimp only at hstep
    split at hstep
    next worker workers since hat =>
      split at hstep
      next hended =>
        cases hstep
        exact h.joins hat hended
      next => exact nomatch hstep
    next => exact nomatch hstep
  | givesUp =>
    obtain ⟨workers,since,hat⟩ := hpatient
    unfold Streaming.step at hstep
    dsimp only at hstep
    rw [hat] at hstep
    dsimp only at hstep
    split at hstep
    next =>
      cases hstep
      exact h.givesUp hat
    next => exact nomatch hstep
  | returns =>
    unfold Streaming.step at hstep
    dsimp only at hstep
    split at hstep
    next since code hat hcode =>
      cases hstep
      exact h.returns hat hcode
    next => exact nomatch hstep

variable (call whole) in
/-- The invariant of `communicate` within its timeout over outputs that decode. -/
structure Communicated (p : Communicating) : Prop where
  /-- What was read and what is to come is what the child writes. -/
  collected : ∀ channel,p.collected.get channel++p.child.rest channel=written channel call.script
  /-- A pipe read to its end has nothing to come. -/
  closed : ∀ channel,p.closed.get channel=true → p.child.rest channel=[]
  /-- The child exits with the code of its script. -/
  code : p.child.returncode.or (exitCode p.child.script)=exitCode call.script
  /-- The call comes to the child's exit code and its whole outputs. -/
  ended : ∀ r,p.ended=some r →
    ∃ code,exitCode call.script=some code ∧ r=call.outcome whole.stdout whole.stderr code

/-- It holds at the start where the input can be encoded. -/
theorem Communicated.start (h : call.stdinPayload.all encodable=true) :
    Communicated call whole (Communicating.start call) := by
  refine ⟨fun channel => ?_,fun channel hno => ?_,rfl,fun r hno => ?_⟩
  · cases channel <;> rfl
  · cases channel <;> exact nomatch hno
  · simp only [Communicating.start,if_pos h] at hno
    exact nomatch hno

/-- A step within the timeout keeps it. -/
theorem Communicated.step (hdecodes : ∀ channel,decodeText (written channel call.script)=some (whole.get channel))
    {p p' : Communicating} (h : Communicated call whole p) {a : CommunicatingStep} (htimely : Timely p a)
    (hstep : p.step call a=some p') : Communicated call whole p' := by
  cases a with
  | child =>
    obtain ⟨child,hchild,rfl⟩ := Option.map_eq_some_iff.mp hstep
    refine ⟨fun channel => ?_,fun channel hclosed => ?_,(Child.step_exitCode hchild).trans h.code,h.ended⟩
    · rw [Child.step_rest hchild]
      exact h.collected channel
    · rw [Child.step_rest hchild]
      exact h.closed channel hclosed
  | fed =>
    cases hstep
    exact ⟨h.collected,h.closed,h.code,h.ended⟩
  | reads channel n =>
    unfold Communicating.step at hstep
    dsimp only at hstep
    split at hstep
    next hready =>
      cases hstep
      have hrest : (p.child.pipes.get channel).pending.take n++
          ((p.child.pipes.get channel).pending.drop n++p.child.future channel)=p.child.rest channel := by
        rw [← List.append_assoc,List.take_append_drop]
        rfl
      refine ⟨fun channel' => ?_,fun channel' hclosed => ?_,h.code,h.ended⟩
      · rw [Child.rest_set p.child (by rfl),PerChannel.get_set]
        by_cases hchannel : channel'=channel
        · subst hchannel
          rw [if_pos rfl,if_pos rfl,List.append_assoc,hrest]
          exact h.collected channel'
        · rw [if_neg hchannel,if_neg hchannel]
          exact h.collected channel'
      · rw [Child.rest_set p.child (by rfl)]
        have hempty := h.closed channel' hclosed
        by_cases hchannel : channel'=channel
        · subst hchannel
          exact absurd (List.append_eq_nil_iff.mp hempty).1 hready.2.1
        · rw [if_neg hchannel]
          exact hempty
    next => exact nomatch hstep
  | hangsUp channel =>
    unfold Communicating.step at hstep
    dsimp only at hstep
    split at hstep
    next hready =>
      cases hstep
      refine ⟨h.collected,fun channel' hclosed => ?_,h.code,h.ended⟩
      by_cases hchannel : channel'=channel
      · subst hchannel
        simp [Child.rest,Child.future,hready]
      · rw [PerChannel.get_set,if_neg hchannel] at hclosed
        exact h.closed channel' hclosed
    next => exact nomatch hstep
  | timesOut => exact htimely.elim
  | returns =>
    unfold Communicating.step at hstep
    dsimp only at hstep
    split at hstep
    next code hcode =>
      split at hstep
      next hready =>
        cases hstep
        have hall : ∀ channel,p.collected.get channel=written channel call.script := by
          intro channel
          have hclosed : p.closed.get channel=true := by
            rw [hready.2.2]
            cases channel <;> rfl
          have hcollected := h.collected channel
          rw [h.closed channel hclosed,List.append_nil] at hcollected
          exact hcollected
        refine ⟨h.collected,h.closed,h.code,fun r hr => ⟨code,?_,?_⟩⟩
        · have hexit := h.code
          rw [hcode] at hexit
          exact hexit.symm
        · cases hr
          have hout : decodeText p.collected.stdout=some whole.stdout :=
            (congrArg decodeText (hall .stdout)).trans (hdecodes .stdout)
          have herr : decodeText p.collected.stderr=some whole.stderr :=
            (congrArg decodeText (hall .stderr)).trans (hdecodes .stderr)
          simp only [RunCall.decoded,hout,herr]
      next => exact nomatch hstep
    next => exact nomatch hstep

end Collected

/-- What streaming has returned is the whole output, it is what `communicate` has returned,
and where `communicate` has raised streaming has raised too. -/
def SameRecord (call : RunCall) (s : Streaming) (p : Communicating) : Prop :=
  ∀ r,s.caller=.ended r →
    (∀ out err code,r=.ok (out,err,code) → decodeText (written .stdout call.script)=some out ∧
      decodeText (written .stderr call.script)=some err) ∧
    ∀ r',p.ended=some r' → (∀ x y,r=.ok x → r'=.ok y → x=y) ∧ ((∃ e,r'=.error e) → ∃ e,r=.error e)

/-- Streaming records what `communicate` records, in every run in which both outputs decode
and the input can be encoded, `on_line` ends no thread, no join gives up on a reader
thread and `communicate` is not timed out. -/
theorem streaming_records_the_same {call : RunCall}
    (hdecodes : ∀ channel,(decodeText (written channel call.script)).isSome=true)
    (hencodes : call.stdinPayload.all encodable=true) (hconsumer : ∀ lines,call.onLine lines≠.exits)
    {s : Streaming} (hs : Streams call Patient s) {p : Communicating} (hp : Communicates call Timely p) :
    SameRecord call s p := by
  obtain ⟨out,hout⟩ := Option.isSome_iff_exists.mp (hdecodes .stdout)
  obtain ⟨err,herr⟩ := Option.isSome_iff_exists.mp (hdecodes .stderr)
  have hwhole : ∀ channel,decodeText (written channel call.script)=some ((⟨out,err⟩ : PerChannel PyStr).get channel) := by
    intro channel
    cases channel with
    | stdout => exact hout
    | stderr => exact herr
  have hstreamed : Streamed call ⟨out,err⟩ s := by
    induction hs with
    | refl => exact Streamed.start hwhole
    | tail _ hstep ih =>
      obtain ⟨a,hpatient,hstep⟩ := hstep
      exact ih.step hconsumer hpatient hstep
  have hcommunicated : Communicated call ⟨out,err⟩ p := by
    induction hp with
    | refl => exact Communicated.start hencodes
    | tail _ hstep ih =>
      obtain ⟨a,htimely,hstep⟩ := hstep
      exact ih.step hwhole htimely hstep
  intro r hended
  have hcaller := hstreamed.caller
  rw [hended] at hcaller
  rcases hcaller with rfl | ⟨code,hcode,rfl⟩
  · exact ⟨fun _ _ _ hok => (nomatch hok),fun r' _ => ⟨fun _ _ hok => (nomatch hok),fun _ => ⟨_,rfl⟩⟩⟩
  · refine ⟨fun out' err' code' hok => ?_,fun r' hr' => ?_⟩
    · cases hstopped : call.stopped with
      | none =>
        simp only [RunCall.outcome,hstopped] at hok
        cases hok
        exact ⟨hout,herr⟩
      | some signum =>
        simp only [RunCall.outcome,hstopped] at hok
        exact nomatch hok
    · obtain ⟨code',hcode',rfl⟩ := hcommunicated.ended r' hr'
      rw [hcode] at hcode'
      cases hcode'
      exact ⟨fun x y hx hy => Except.ok.inj (hx.symm.trans hy),id⟩

/-- Take steps one after another. -/
def runStreaming (call : RunCall) : List StreamingStep → Streaming → Option Streaming
  | [],s => some s
  | a::rest,s => (s.step call a).bind (runStreaming call rest)

/-- Take steps one after another. -/
def runCommunicating (call : RunCall) : List CommunicatingStep → Communicating → Option Communicating
  | [],p => some p
  | a::rest,p => (p.step call a).bind (runCommunicating call rest)

/-- Steps that are allowed lead to a state that is reached. -/
theorem streams_of_run {call : RunCall} {allowed : Streaming → StreamingStep → Prop} {steps : List StreamingStep}
    (hallowed : ∀ a ∈ steps,∀ s,allowed s a) {s s' : Streaming} (hs : Streams call allowed s)
    (h : runStreaming call steps s=some s') : Streams call allowed s' := by
  induction steps generalizing s with
  | nil =>
    cases h
    exact hs
  | cons a rest ih =>
    obtain ⟨s₁,hstep,hrest⟩ := Option.bind_eq_some_iff.mp h
    have hone : Streams call allowed s₁ := hs.tail ⟨a,hallowed a List.mem_cons_self s,hstep⟩
    exact ih (fun b hb => hallowed b (List.mem_cons_of_mem a hb)) hone hrest

/-- Steps that are allowed lead to a state that is reached. -/
theorem communicates_of_run {call : RunCall} {allowed : Communicating → CommunicatingStep → Prop}
    {steps : List CommunicatingStep} (hallowed : ∀ a ∈ steps,∀ p,allowed p a) {p p' : Communicating}
    (hp : Communicates call allowed p) (h : runCommunicating call steps p=some p') :
    Communicates call allowed p' := by
  induction steps generalizing p with
  | nil =>
    cases h
    exact hp
  | cons a rest ih =>
    obtain ⟨p₁,hstep,hrest⟩ := Option.bind_eq_some_iff.mp h
    have hone : Communicates call allowed p₁ := hp.tail ⟨a,hallowed a List.mem_cons_self p,hstep⟩
    exact ih (fun b hb => hallowed b (List.mem_cons_of_mem a hb)) hone hrest

/-- A call without input, timeout or stop signal. -/
def plainCall (script : List ChildEvent) : RunCall where
  script := script
  stdinPayload := none
  timeout := none
  stopped := none
  onLine := fun _ => .returns

/-- A child that writes one line and exits. -/
def oneLine : RunCall := plainCall [.writes .stdout [0x61,0x0A],.closes .stdout,.closes .stderr,.exits 0]

/-- Streaming over it. -/
def oneLineStreamed : List StreamingStep :=
  [.child,.thread .stdout (.fetches 2),.thread .stdout .gives,.fed,.child,.child,.child,.waitReturns,
    .thread .stdout .finishes,.thread .stdout .ends,.thread .stderr .finishes,.thread .stderr .ends,.joins,.joins,
    .joins,.returns]

/-- `communicate` over it. -/
def oneLineCommunicated : List CommunicatingStep :=
  [.child,.fed,.child,.child,.child,.reads .stdout 2,.hangsUp .stdout,.hangsUp .stderr,.returns]

/-- The line is recorded either way. -/
theorem one_line_recorded : ∃ s p,s.caller=.ended (.ok (pyStr "a\n",[],0)) ∧
    p.ended=some (.ok (pyStr "a\n",[],0)) ∧ SameRecord oneLine s p := by
  have hcaller : (runStreaming oneLine oneLineStreamed (Streaming.start oneLine)).map (·.caller)=
      some (.ended (.ok (pyStr "a\n",[],0))) := by decide +kernel
  have hended : (runCommunicating oneLine oneLineCommunicated (Communicating.start oneLine)).map (·.ended)=
      some (some (.ok (pyStr "a\n",[],0))) := by decide +kernel
  obtain ⟨s,hs,hcaller⟩ := Option.map_eq_some_iff.mp hcaller
  obtain ⟨p,hp,hended⟩ := Option.map_eq_some_iff.mp hended
  have hdecodes : ∀ channel,(decodeText (written channel oneLine.script)).isSome=true := by
    intro channel
    cases channel <;> decide
  have hpatient : ∀ a ∈ oneLineStreamed,∀ s,Patient s a := by
    simp only [oneLineStreamed,List.forall_mem_cons,Patient,implies_true,List.not_mem_nil,false_implies,and_self]
  have htimely : ∀ a ∈ oneLineCommunicated,∀ p,Timely p a := by
    simp only [oneLineCommunicated,List.forall_mem_cons,Timely,implies_true,List.not_mem_nil,false_implies,and_self]
  exact ⟨s,p,hcaller,hended,streaming_records_the_same hdecodes rfl (fun _ hno => (by cases hno))
    (streams_of_run hpatient .refl hs) (communicates_of_run htimely .refl hp)⟩

/-- A child that writes a byte which does not decode. -/
def badByte : RunCall := plainCall [.writes .stdout [0xFF],.closes .stdout,.closes .stderr,.exits 0]

/-- A child that exits while a process it has left behind goes on writing. -/
def leftBehind : RunCall := plainCall [.writes .stdout [0x61,0x0A],.closes .stderr,.exits 0,.passes 5000000,
  .writes .stdout [0x62,0x0A],.closes .stdout]

/-- Two ended runs that differ. -/
theorem not_sameRecord {call : RunCall} {steps : List StreamingStep} {steps' : List CommunicatingStep}
    {r r' : Outcome} (hcaller : (runStreaming call steps (Streaming.start call)).map (·.caller)=some (.ended r))
    (hended : (runCommunicating call steps' (Communicating.start call)).map (·.ended)=some (some r'))
    (hok : ∃ x,r=.ok x) (hne : r≠r') :
    ¬∀ s p,Streams call (fun _ _ => True) s → Communicates call (fun _ _ => True) p → SameRecord call s p := by
  intro h
  obtain ⟨s,hs,hcaller⟩ := Option.map_eq_some_iff.mp hcaller
  obtain ⟨p,hp,hended⟩ := Option.map_eq_some_iff.mp hended
  obtain ⟨_,hsame⟩ := h s p (streams_of_run (fun _ _ _ => trivial) .refl hs)
    (communicates_of_run (fun _ _ _ => trivial) .refl hp) r hcaller
  obtain ⟨hvalues,herrors⟩ := hsame r' hended
  obtain ⟨x,rfl⟩ := hok
  cases r' with
  | ok y => exact hne (congrArg Except.ok (hvalues x y rfl rfl))
  | error e =>
    obtain ⟨e',he'⟩ := herrors ⟨e,rfl⟩
    exact nomatch he'

/-- Streaming returns an empty output where `communicate` raises, and the first line of two
where `communicate` returns both. -/
theorem streaming_loses_output :
    (¬∀ s p,Streams badByte (fun _ _ => True) s → Communicates badByte (fun _ _ => True) p →
      SameRecord badByte s p) ∧
    ¬∀ s p,Streams leftBehind (fun _ _ => True) s → Communicates leftBehind (fun _ _ => True) p →
      SameRecord leftBehind s p := by
  constructor
  · have hstreamed : (runStreaming badByte [.child,.child,.child,.child,.fed,.thread .stdout (.fetches 1),
        .thread .stderr .finishes,.thread .stderr .ends,.waitReturns,.joins,.joins,.joins,.returns]
        (Streaming.start badByte)).map (·.caller)=some (.ended (.ok ([],[],0))) := by decide +kernel
    have hcommunicated : (runCommunicating badByte [.child,.child,.child,.child,.fed,.reads .stdout 1,.hangsUp .stdout,
        .hangsUp .stderr,.returns] (Communicating.start badByte)).map (·.ended)=
        some (some (.error .unicodeError)) := by decide +kernel
    exact not_sameRecord hstreamed hcommunicated ⟨_,rfl⟩ (by decide)
  · have hstreamed : (runStreaming leftBehind [.child,.child,.child,.fed,.thread .stdout (.fetches 2),
        .thread .stdout .gives,.thread .stderr .finishes,.thread .stderr .ends,.waitReturns,.joins,.joins,.child,
        .givesUp,.returns] (Streaming.start leftBehind)).map (·.caller)=
        some (.ended (.ok (pyStr "a\n",[],0))) := by decide +kernel
    have hcommunicated : (runCommunicating leftBehind [.child,.child,.child,.child,.child,.child,.fed,.reads .stdout 4,
        .hangsUp .stdout,.hangsUp .stderr,.returns] (Communicating.start leftBehind)).map (·.ended)=
        some (some (.ok (pyStr "a\nb\n",[],0))) := by decide +kernel
    exact not_sameRecord hstreamed hcommunicated ⟨_,rfl⟩ (by decide)

end GenericMlCache.ProcessStreams
