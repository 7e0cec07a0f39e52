import GenericMlCache.LockOrder
import GenericMlCache.NestedLocks

/-!
# The stripes of the key lock

The threads of one process share a fixed pool of re-entrant stripes, and every
key falls on one by its hash. A thread waits for a stripe without bound, where
the lock file behind it is waited for with a timeout. A recorder evicts to its
quota while it is in its own key's stripe, so it waits for one stripe in another.
-/

namespace GenericMlCache.StripedLocks

open CallProgram CallAutomaton PythonText ExecutionModel RepositoryCalls ServicePorts
  CachedExecution ServiceOperations NestedLocks LockOrder

/-- `hash(execution_key) % _STRIPE_COUNT`, for the hash of one process. -/
abbrev Striping := ExecutionKey → Fin 64

/-- No other thread is in the key's stripe. The thread itself may enter again. -/
def mayEnter (stripe : Striping) (thread : ThreadId) (key : ExecutionKey) (w : World) : Prop :=
  ∀ holding∈w.held,stripe holding.2=stripe key → holding.1=thread

instance (stripe : Striping) (thread : ThreadId) (key : ExecutionKey) (w : World) :
    Decidable (mayEnter stripe thread key w) := by unfold mayEnter; infer_instance

/-- What a thread's calls answer: an acquire enters the key's stripe when it is
free, and then ends whether or not it got the lock file in time. -/
def StripedAnswers {Command : Type} (stripe : Striping) (faults : Faults Command) (thread : ThreadId) :
    Sem (Call Command) Call.Ret PyExc World := fun call w r w' =>
  Answers .unlocked faults thread call w r w' ∧
    (r.isOk=true → ∀ key,call=.acquireKey key → mayEnter stripe thread key w)

/-- The threads of a process, each with the rest of its session. -/
abbrev Threads (Command : Type) :=
  Pool (Call Command) Call.Ret PyExc (fun _ : ThreadId => Unit) World

/-- The key whose lock the program asks for next. -/
def awaitedKey {Command α : Type} : ServiceM Command α → Option ExecutionKey
  | .call (.acquireKey key) _ => some key
  | _ => none

/-- A thread is in a stripe. -/
def InStripe (stripe : Striping) (w : World) (i : ThreadId) (s : Fin 64) : Prop :=
  ∃ key,(i,key)∈w.held ∧ stripe key=s

/-- A thread asks for a stripe next. -/
def AsksStripe {Command : Type} (stripe : Striping) (threads : Threads Command) (i : ThreadId)
    (s : Fin 64) : Prop :=
  ∃ key,awaitedKey (threads.1 i)=some key ∧ stripe key=s

/-- Some threads wait in a cycle, each in a stripe that the one before it asks for. -/
def InDeadlock {Command : Type} (stripe : Striping) (threads : Threads Command) : Prop :=
  Deadlocked (InStripe stripe threads.2) (AsksStripe stripe threads)

section Invariant
variable {Command : Type} {stripe : Striping} {faults : Faults Command}

/-- No stripe has two threads in it. -/
def StripesExclude (stripe : Striping) (w : World) : Prop :=
  ∀ holding∈w.held, ∀ holding'∈w.held,stripe holding.2=stripe holding'.2 → holding.1=holding'.1

/-- Entering a free stripe and leaving one keep them exclusive. -/
theorem StripesExclude.answers {i : ThreadId} {call : Call Command} {r : Except PyExc call.Ret}
    {w w' : World} (h : StripesExclude stripe w) (hans : StripedAnswers stripe faults i call w r w') :
    StripesExclude stripe w' := by
  obtain ⟨hans,henter⟩ := hans
  cases hans with
  | acquireKey _ =>
    have hfree : mayEnter stripe i _ w := henter rfl _ rfl
    intro a ha b hb hab
    rcases List.mem_cons.mp ha with rfl | ha <;> rcases List.mem_cons.mp hb with rfl | hb
    · rfl
    · exact (hfree b hb hab.symm).symm
    · exact hfree a ha hab
    · exact h a ha b hb hab
  | releaseKey =>
    exact fun a ha b hb hab => h a (List.mem_of_mem_erase ha) b (List.mem_of_mem_erase hb) hab
  | _ => exact h

/-- The locks a thread is in are those that its own calls entered. -/
def HoldsPhases (held : ThreadId → List ExecutionKey) (w : World) : Prop :=
  ∀ i key,w.held.count (i,key)=(held i).count key

/-- Calls that enter and leave no lock keep them, and the others change them as
the caller's phase says. -/
theorem HoldsPhases.answers {held : ThreadId → List ExecutionKey} {i : ThreadId} {call : Call Command}
    {r : Except PyExc call.Ret} {w w' : World} (h : HoldsPhases held w)
    (hans : StripedAnswers stripe faults i call w r w') :
    HoldsPhases (Function.update held i (watchHeld call r (held i))) w' := by
  have hsame : ∀ {w'' : World},w''.held=w.held → HoldsPhases (Function.update held i (held i)) w'' := by
    intro w'' hw j key
    rw [Function.update_eq_self,hw]
    exact h j key
  cases hans.1 with
  | acquireKey _ =>
    intro j key
    have hcount := h j key
    by_cases hj : j=i
    · subst hj
      simpa [watchHeld,List.count_cons] using hcount
    · simpa [watchHeld,List.count_cons,Function.update_of_ne hj,Ne.symm hj] using hcount
  | releaseKey =>
    intro j key
    have hcount := h j key
    by_cases hj : j=i
    · subst hj
      simp [watchHeld,List.count_erase,hcount]
    · simpa [watchHeld,List.count_erase,Function.update_of_ne hj,Ne.symm hj] using hcount
  | fault hcall _ =>
    cases call with
    | releaseKey key => cases hcall
    | _ => exact hsame rfl
  | _ => exact hsame rfl

end Invariant

section Runs
variable {Command : Type} (stripe : Striping) (faults : Faults Command) (fingerprint : Bytes → Digest)
  (operations : ThreadId → List (Operation Command))

/-- The threads before their first calls, each with a session of operations. -/
def sessions (w : World) : Threads Command := (fun i => session fingerprint (operations i),w)

/-- Some operation of the thread's session may evict. -/
def mayEvict (i : ThreadId) : Bool := (operations i).any Operation.evicts

/-- Where a thread that evicts is in the lock of one key and asks for that of
another, its victim, the victim's stripe is the same or ranks above. -/
def VictimsAbove (rank : Fin 64 → ℕ) (threads : Threads Command) : Prop :=
  ∀ i,mayEvict operations i=true → ∀ victim,awaitedKey (threads.1 i)=some victim →
    ∀ recorded,(i,recorded)∈threads.2.held → recorded≠victim →
      stripe recorded=stripe victim ∨ rank (stripe recorded) < rank (stripe victim)

/-- The states that the threads reach, in any order of their calls, while every
one of these states has its victims above. -/
abbrev AscendingRun (rank : Fin 64 → ℕ) : Threads Command → Threads Command → Prop :=
  Relation.ReflTransGen fun threads threads' =>
    PoolStep (StripedAnswers stripe faults) threads threads' ∧
      VictimsAbove stripe operations rank threads'

variable {stripe faults fingerprint operations}

/-- Such a run is a run of the threads. -/
theorem AscendingRun.reach {rank : Fin 64 → ℕ} {threads threads' : Threads Command}
    (h : AscendingRun stripe faults operations rank threads threads') :
    PoolReach (StripedAnswers stripe faults) threads threads' :=
  Relation.ReflTransGen.mono (fun _ _ hstep => hstep.1) _ _ h

/-- Its last state has its victims above, where the first one has. -/
theorem AscendingRun.last {rank : Fin 64 → ℕ} {threads threads' : Threads Command}
    (h : AscendingRun stripe faults operations rank threads threads')
    (hstart : VictimsAbove stripe operations rank threads) :
    VictimsAbove stripe operations rank threads' := by
  induction h with
  | refl => exact hstart
  | tail _ hstep _ => exact hstep.2

/-- Where nobody is in a lock, no victim is asked for. -/
theorem VictimsAbove.of_unlocked {rank : Fin 64 → ℕ} {threads : Threads Command}
    (h : threads.2.held=[]) : VictimsAbove stripe operations rank threads := by
  intro i _ victim _ recorded hheld
  rw [h] at hheld
  exact nomatch hheld

/-- A schedule whose every state has its victims above is such a run. -/
theorem AscendingRun.drive {rank : Fin 64 → ℕ}
    (schedule : List (ThreadId × Handler (Call Command) Call.Ret PyExc World))
    (h : ∀ entry∈schedule,entry.2.Respects (StripedAnswers stripe faults entry.1))
    (threads : Threads Command)
    (habove : ∀ n,n ≤ schedule.length →
      VictimsAbove stripe operations rank (drivePool (schedule.take n) threads)) :
    AscendingRun stripe faults operations rank threads (drivePool schedule threads) := by
  induction schedule generalizing threads with
  | nil => exact .refl
  | cons entry schedule ih =>
    obtain ⟨threads',hstep,heq⟩ := drivePool_cons entry.1 (h entry List.mem_cons_self) threads
    have hafter : ∀ n,n ≤ schedule.length →
        VictimsAbove stripe operations rank (drivePool (schedule.take n) threads') := by
      intro n hn
      rw [← heq]
      exact habove (n+1) (Nat.succ_le_succ hn)
    have hrest := ih (fun k hk => h k (List.mem_cons_of_mem _ hk)) threads' hafter
    rw [heq schedule]
    rcases hstep with rfl | hstep
    · exact hrest
    · exact .head ⟨hstep,hafter 0 (Nat.zero_le _)⟩ hrest

/-- Wherever the threads stand, their stripes exclude, and each thread follows
the nesting of its session from the locks that it is in. -/
theorem sessions_reach {w : World} (hw : w.held=[]) {threads : Threads Command}
    (h : PoolReach (StripedAnswers stripe faults) (sessions fingerprint operations w) threads) :
    StripesExclude stripe threads.2 ∧ ∃ held,HoldsPhases held threads.2 ∧
      ∀ i,Follows (nesting (mayEvict operations i=true)) (fun _ _ => True) (threads.1 i) (held i) := by
  have hkeeps : PoolKeeps (fun i => nesting (mayEvict operations i=true))
      (fun i => (StripedAnswers stripe faults i : Sem (Call Command) Call.Ret PyExc World))
      fun held w => HoldsPhases held w ∧ StripesExclude stripe w := by
    intro held i call r held' w w' hturn hans hj
    rw [hturn.1]
    exact ⟨hj.1.answers hans,hj.2.answers hans⟩
  have hfollows : PoolFollows (fun i => nesting (mayEvict operations i=true)) (fun _ _ _ => True)
      (sessions fingerprint operations w).1 fun _ => [] := by
    intro i
    have hnested : Nested (mayEvict operations i=true) [] (session fingerprint (operations i)) :=
      nested_session fingerprint fun op hop hevicts => List.any_eq_true.mpr ⟨op,hop,hevicts⟩
    exact hnested.weaken fun _ _ _ => trivial
  have hstart : HoldsPhases (fun _ => []) w ∧ StripesExclude stripe w := by
    refine ⟨fun i key => ?_,fun a ha => ?_⟩
    · rw [hw]
      rfl
    · rw [hw] at ha
      exact nomatch ha
  obtain ⟨held,⟨hholds,hexclude⟩,hrest⟩ := hkeeps.reach hfollows hstart h
  exact ⟨hexclude,held,hholds,hrest⟩

/-- A thread that cannot evict asks for a key lock only in no other key's lock. -/
theorem asks_again {evicts : Prop} {held : ThreadId → List ExecutionKey} {threads : Threads Command}
    (hholds : HoldsPhases held threads.2) {i : ThreadId} {Q : Except PyExc Unit → List ExecutionKey → Prop}
    (hfollows : Follows (nesting evicts) Q (threads.1 i) (held i)) (hevicts : ¬evicts)
    {key k : ExecutionKey} (hasks : awaitedKey (threads.1 i)=some key) (hk : (i,k)∈threads.2.held) :
    k=key := by
  have hmem : k∈held i := by
    rw [← List.count_pos_iff,← hholds i k,List.count_pos_iff]
    exact hk
  cases hp : threads.1 i with
  | done r =>
    rw [hp] at hasks
    exact nomatch hasks
  | call call next =>
    rw [hp] at hasks hfollows
    cases call with
    | acquireKey key' =>
      cases hasks
      obtain ⟨_,⟨_,hnest⟩,_⟩ := hfollows (.ok ())
      rcases hnest _ rfl with hsame | ⟨hyes,_⟩
      · exact hsame k hmem
      · exact absurd hyes hevicts
    | _ => exact nomatch hasks

/-- In every run of any number of threads, each with a session of any operations,
in which every eviction inside a recording asks only for victims whose stripes
rank above the recorded key's, or are the same, no threads wait in a cycle. -/
theorem sessions_not_inDeadlock (rank : Fin 64 → ℕ) {w : World} (hw : w.held=[])
    {threads : Threads Command}
    (h : AscendingRun stripe faults operations rank (sessions fingerprint operations w) threads) :
    ¬InDeadlock stripe threads := by
  obtain ⟨hexclude,held,hholds,hrest⟩ := sessions_reach hw h.reach
  have hvictims := h.last (VictimsAbove.of_unlocked hw)
  have hexclusive : Exclusive (InStripe stripe threads.2) := by
    rintro i j s ⟨key,hkey,rfl⟩ ⟨key',hkey',hsame⟩
    exact hexclude _ hkey _ hkey' hsame.symm
  have hascending : Ascending rank (InStripe stripe threads.2) (AsksStripe stripe threads) := by
    rintro i s ⟨key,hasks,rfl⟩
    by_cases hown : InStripe stripe threads.2 i (stripe key)
    · exact Or.inl hown
    · refine Or.inr ?_
      rintro s' ⟨k,hk,rfl⟩
      have hne : stripe k≠stripe key := fun hsame => hown ⟨k,hk,hsame⟩
      have hkeys : k≠key := fun hsame => hne (by rw [hsame])
      by_cases hevicts : mayEvict operations i=true
      · exact (hvictims i hevicts key hasks k hk hkeys).resolve_left hne
      · exact absurd (asks_again hholds (hrest i) hevicts hasks hk) hkeys
  exact hascending.not_deadlocked hexclusive

end Runs

/-- The stripe of a key by its digest, where the hash is the digest itself. -/
def digestStripe : Striping := fun key => Fin.ofNat 64 key.digest

/-- The smallest service for the call of a number, with a quota. -/
def numberedService (number : ℕ) (maxSize : Option ℕ) : CachedMlExecutionService SmallestCommand :=
  { smallestService with
    buildIdentity := fun _ => .ok ⟨⟨number⟩,[],[]⟩
    maxSize := maxSize }

/-- A run of a numbered call whose output is kept. -/
def numberedCall (number : ℕ) (mode : CacheMode) (maxSize : Option ℕ) : Operation SmallestCommand :=
  .execute (numberedService number maxSize) ⟨mode,.cache⟩

/-- A client that returns one octet. -/
def oneOctet : Except PyExc ClientRunResult := .ok { exitCode := 0, stdout := pyStr "o" }

/-- Answer a thread's call without a fault, where its stripe is free. -/
def stripedAnswer (thread fresh : ℕ) : Handler (Call SmallestCommand) Call.Ret PyExc World :=
  fun call w =>
    match call with
    | .acquireKey key =>
      if mayEnter digestStripe thread key w then
        some (.ok (),{ w with held := (thread,key)::w.held })
      else none
    | call => answerWith .unlocked thread 0 oneOctet ⟨fresh⟩ call w

/-- Such answers are answers that the threads may get. -/
theorem stripedAnswer_respects (thread fresh : ℕ) :
    (stripedAnswer thread fresh).Respects (StripedAnswers digestStripe noFaults thread) := by
  intro call w r w' h
  cases call with
  | acquireKey key =>
    simp only [stripedAnswer] at h
    split at h
    · next hfree =>
      cases h
      refine ⟨.acquireKey (fun hexclusive => (nomatch hexclusive)),fun _ key' hkey => ?_⟩
      cases hkey
      exact hfree
    · exact nomatch h
  | _ => exact ⟨answerWith_respects 0 oneOctet ⟨fresh⟩ _ w r w' h,fun _ key hkey => (nomatch hkey)⟩

/-- One thread's turns: so many calls in a row, minting one id. -/
def turns (thread calls fresh : ℕ) : List (ThreadId × Handler (Call SmallestCommand) Call.Ret PyExc World) :=
  List.replicate calls (thread,stripedAnswer thread fresh)

/-- A recorder that evicts key 1 on the way, beside a refresh of key 1. -/
def upwardOperations : ThreadId → List (Operation SmallestCommand)
  | 0 => [numberedCall 1 .cache none,numberedCall 0 .cache (some 0)]
  | 1 => [numberedCall 1 .refresh none]
  | _ => []

/-- The first records key 1, the second enters its lock again, and the first
evicts in the lock of key 0. -/
def upwardTurns : List (ThreadId × Handler (Call SmallestCommand) Call.Ret PyExc World) :=
  turns 0 20 10 ++ turns 1 7 11 ++ turns 0 30 12

/-- The only thread that evicts has its victim's stripe above, in a state of the run. -/
def upwardAt (threads : Threads SmallestCommand) : Bool :=
  match awaitedKey (threads.1 0) with
  | none => true
  | some victim => threads.2.held.all fun holding =>
    decide (holding.1=0 → holding.2=victim ∨ (digestStripe holding.2).val < (digestStripe victim).val)

/-- Such a state has every victim above. -/
theorem victimsAbove_of_upwardAt {threads : Threads SmallestCommand} (h : upwardAt threads=true) :
    VictimsAbove digestStripe upwardOperations Fin.val threads := by
  intro i hevicts victim hasks recorded hheld hne
  have hi : i=0 := by
    match i with
    | 0 => rfl
    | 1 => exact nomatch hevicts
    | _+2 => exact nomatch hevicts
  subst hi
  unfold upwardAt at h
  rw [hasks] at h
  have hone := of_decide_eq_true (List.all_eq_true.mp h _ hheld) rfl
  exact Or.inr (hone.resolve_left hne)

/-- The schedule answers as the threads may be answered. -/
theorem turns_respect {thread calls fresh : ℕ} :
    ∀ entry∈turns thread calls fresh,entry.2.Respects (StripedAnswers digestStripe noFaults entry.1) := by
  intro entry hmem
  rw [List.eq_of_mem_replicate hmem]
  exact stripedAnswer_respects thread fresh

/-- Where that schedule leads, the first thread waits in the lock of key 0 for
the second one's key 1, and no threads wait in a cycle. -/
theorem sessions_not_inDeadlock_upward :
    awaitedKey ((drivePool upwardTurns (sessions positional upwardOperations World.empty)).1 0)=
        some ⟨1⟩ ∧
      ¬InDeadlock digestStripe (drivePool upwardTurns (sessions positional upwardOperations World.empty)) := by
  have hrespects : ∀ entry∈upwardTurns,
      entry.2.Respects (StripedAnswers digestStripe noFaults entry.1) := by
    intro entry hmem
    simp only [upwardTurns,List.mem_append] at hmem
    rcases hmem with (hmem | hmem) | hmem <;> exact turns_respect entry hmem
  have hupward : (List.range (upwardTurns.length+1)).all (fun n =>
      upwardAt (drivePool (upwardTurns.take n) (sessions positional upwardOperations World.empty)))=true := by
    decide +kernel
  have hrun := AscendingRun.drive upwardTurns hrespects (sessions positional upwardOperations World.empty)
    fun n hn => victimsAbove_of_upwardAt
      (List.all_eq_true.mp hupward n (List.mem_range.mpr (Nat.lt_succ_of_le hn)))
  exact ⟨by decide +kernel,sessions_not_inDeadlock Fin.val rfl hrun⟩

/-- Two recorders, each with a quota that keeps nothing. -/
def crossingOperations : ThreadId → List (Operation SmallestCommand)
  | 0 => [numberedCall 0 .cache (some 0)]
  | 1 => [numberedCall 1 .cache (some 0)]
  | _ => []

/-- The first finalizes, the second finalizes and lists both keys as victims,
and then each asks for the key of the other. -/
def crossingTurns : List (ThreadId × Handler (Call SmallestCommand) Call.Ret PyExc World) :=
  turns 0 18 10 ++ turns 1 21 11 ++ turns 0 10 12 ++ turns 1 1 13

/-- Where that schedule leads. -/
def crossed : Threads SmallestCommand :=
  drivePool crossingTurns (sessions positional crossingOperations World.empty)

/-- Two recorders of different keys that evict to a quota can wait for each
other's stripes for ever. -/
theorem sessions_not_inDeadlock_fails :
    ¬ ∀ (operations : ThreadId → List (Operation SmallestCommand)) (w : World)
      (threads : Threads SmallestCommand),w.held=[] →
        PoolReach (StripedAnswers digestStripe noFaults) (sessions positional operations w) threads →
          ¬InDeadlock digestStripe threads := by
  intro h
  have hrespects : ∀ entry∈crossingTurns,
      entry.2.Respects (StripedAnswers digestStripe noFaults entry.1) := by
    intro entry hmem
    simp only [crossingTurns,List.mem_append] at hmem
    rcases hmem with ((hmem | hmem) | hmem) | hmem <;> exact turns_respect entry hmem
  have hreach : PoolReach (StripedAnswers digestStripe noFaults)
      (sessions positional crossingOperations World.empty) crossed :=
    drivePool_reach crossingTurns hrespects _
  have hasks : awaitedKey (crossed.1 0)=some ⟨1⟩ ∧ awaitedKey (crossed.1 1)=some ⟨0⟩ := by
    decide +kernel
  have hheld : (0,⟨0⟩)∈crossed.2.held ∧ (1,⟨1⟩)∈crossed.2.held := by decide +kernel
  have hfirst : WaitsFor (InStripe digestStripe crossed.2) (AsksStripe digestStripe crossed) 0 1 :=
    ⟨Nat.zero_ne_one,_,⟨⟨1⟩,hasks.1,rfl⟩,⟨1⟩,hheld.2,rfl⟩
  have hsecond : WaitsFor (InStripe digestStripe crossed.2) (AsksStripe digestStripe crossed) 1 0 :=
    ⟨Nat.one_ne_zero,_,⟨⟨0⟩,hasks.2,rfl⟩,⟨0⟩,hheld.1,rfl⟩
  exact h crossingOperations World.empty crossed rfl hreach (.of_pair hfirst hsecond)

end GenericMlCache.StripedLocks
