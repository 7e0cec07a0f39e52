import GenericMlCache.ServiceConformance

/-!
# Operations and histories

What a caller may ask of the store, and the stores that operations lead to when
they run one after another. Each may be cut short at any call, and a process
that dies releases its locks.
-/

namespace GenericMlCache.ServiceOperations

open CallProgram CallAutomaton PythonText ExecutionModel RepositoryCalls ServicePorts StorePurge
  StoreRepair CachedExecution ServiceAutomaton ServiceConformance

/-- What a caller asks for: any service may execute any of its commands. -/
inductive Operation (Command : Type) where
  | execute (service : CachedMlExecutionService Command) (command : Command)
  | purgeByKey (key : ExecutionKey) (hard : Bool)
  | purgeByTag (tag : PyStr) (hard : Bool)
  | purgeBySession (sessionId : PyStr) (hard : Bool)
  | purgeBySessionTag (tag : PyStr) (hard : Bool)
  | purgeAll (hard : Bool)
  /-- Evict what was not accessed for the age in microseconds. -/
  | evictStale (maxAge : ℤ)
  | evictToQuota (maxBytes : ℕ)
  | addTags (key : ExecutionKey) (tags : List PyStr)
  | repair

section Programs
variable {Command : Type} (fingerprint : Bytes → Digest)

/-- Run for the effect alone. -/
def discard {α : Type} (p : ServiceM Command α) : ServiceM Command Unit := p >>= fun _ => pure ()

/-- The program of an operation. -/
def program : Operation Command → ServiceM Command Unit
  | .execute service command => discard (execute service fingerprint command)
  | .purgeByKey key hard => discard (purgeByKey key hard)
  | .purgeByTag tag hard => discard (purgeByTag tag hard)
  | .purgeBySession sessionId hard => discard (purgeBySession sessionId hard)
  | .purgeBySessionTag tag hard => discard (purgeBySessionTag tag hard)
  | .purgeAll hard => discard (purgeAll hard)
  | .evictStale maxAge => discard (evictStale maxAge)
  | .evictToQuota maxBytes => discard (evictToQuota maxBytes)
  | .addTags key tags => store (.addTags key tags)
  | .repair => discard repair

/-- The operation is a repair pass. -/
def Operation.isRepair : Operation Command → Bool
  | .repair => true
  | _ => false

variable {scope : Scope} {fingerprint}

/-- A program that ends with no back-fill under way. -/
abbrev EndsSettled {α : Type} : α → Phase → Prop := fun _ φ => φ.task.settled=true

/-- A program that ends settled may be run for its effect. -/
theorem conforms_discard {α : Type} {p : ServiceM Command α} {post : α → Phase → Prop}
    (h : Conforms scope fingerprint Phase.start post p)
    (hsettled : ∀ a φ,post a φ → φ.task.settled=true) :
    Conforms scope fingerprint Phase.start EndsSettled (discard p) := by
  refine Follows.seq h (fun a φ hr => ?_) fun e φ hr => hr
  exact Follows.pure ⟨hr.1,hr.2.1,hsettled a φ hr.2.2⟩

/-- A program that starts and ends idle may be run for its effect. -/
theorem conforms_discard_idle {α : Type} {p : ServiceM Command α} (h : IdleToIdle scope fingerprint p) :
    Conforms scope fingerprint Phase.start EndsSettled (discard p) :=
  conforms_discard (h [] false) fun _ φ hφ => by rw [hφ]; rfl

/-- Every operation follows the automaton from its start. -/
theorem conforms_program (hserves : scope.serves=true) (hrecords : scope.records=true)
    (hpurges : scope.purges=true) (op : Operation Command)
    (hrepairs : op.isRepair=true → scope.repairs=true) :
    Conforms scope fingerprint Phase.start EndsSettled (program fingerprint op) := by
  cases op with
  | execute service command =>
    have hcovers : Covers scope service command := ⟨fun _ => hserves,hrecords,Or.inr hpurges⟩
    exact conforms_discard (conforms_execute service [] false hcovers) fun _ _ h => h.settled
  | purgeByKey key hard => exact conforms_discard_idle (idle_purgeByKey hpurges key hard)
  | purgeByTag tag hard => exact conforms_discard_idle (idle_purgeByTag hpurges tag hard)
  | purgeBySession sessionId hard =>
    exact conforms_discard_idle (idle_purgeBySession hpurges sessionId hard)
  | purgeBySessionTag tag hard => exact conforms_discard_idle (idle_purgeBySessionTag hpurges tag hard)
  | purgeAll hard => exact conforms_discard_idle (idle_purgeAll hpurges hard)
  | evictStale maxAge => exact conforms_discard_idle (idle_evictStale hpurges maxAge)
  | evictToQuota maxBytes => exact conforms_discard_idle (idle_evictToQuota hpurges maxBytes)
  | addTags key tags =>
    exact conforms_weaken (conforms_quiet Phase.start rfl rfl) fun _ _ hφ => by rw [hφ]; rfl
  | repair => exact conforms_discard_idle (idle_repair (hrepairs rfl))

end Programs

/-- What the death of a process leaves: its locks are released. -/
def World.released (w : World) : World := { w with held := [] }

@[simp] theorem World.released_db (w : World) : (World.released w).db=w.db := rfl
@[simp] theorem World.released_blobs (w : World) : (World.released w).blobs=w.blobs := rfl
@[simp] theorem World.released_minted (w : World) : (World.released w).minted=w.minted := rfl
@[simp] theorem World.released_held (w : World) : (World.released w).held=[] := rfl

/-- The stores that operations lead to, one after another from an empty store.
Each may be stopped at any of its calls, and its ports may fault. -/
abbrev Reachable {Command : Type} (faults : Faults Command) (fingerprint : Bytes → Digest) :
    World → Prop :=
  History (Answers .exclusive faults 0) (fun p => ∃ op : Operation Command,p=program fingerprint op)
    (fun _ _ => True) World.released World.empty

/-- A reachable store has no lock held. -/
theorem Reachable.held {Command : Type} {faults : Faults Command} {fingerprint : Bytes → Digest}
    {w : World} (h : Reachable faults fingerprint w) : w.held=[] := by
  cases h with
  | start => rfl
  | run => rfl

/-- The commands of the smallest service: one call, resolved and kept as asked. -/
structure SmallestCommand where
  /-- Its cache mode. -/
  mode : CacheMode
  /-- How much of it is kept. -/
  depth : PersistenceDepth

/-- A prompt is input. -/
theorem inputPrompt_isInput : ArtifactType.inputPrompt.isInput=true := rfl

/-- A service of one call with one prompt, without tags or quota, that records
its successes. -/
def smallestService : CachedMlExecutionService SmallestCommand where
  cacheMode := (·.mode)
  persistenceDepth := (·.depth)
  sessionId _ := none
  shouldPersist _ succeeded := succeeded
  buildIdentity _ := .ok ⟨⟨0⟩,[],[]⟩
  executionKind _ := .localManaged
  journalFields _ := ([],[],[])
  isUncacheable _ := false
  executionTags _ := []
  inputParts _ := .ok [⟨.inputPrompt,none,[112],inputPrompt_isInput⟩]
  inputParts_error _ _ h := nomatch h
  maxSize := none

/-- Answer `n` calls without a fault: the key lock excludes, the clock stands
still, the client returns one octet, and one id is minted. -/
def answers (n : ℕ) (fresh : ℕ) : List (Handler (Call SmallestCommand) Call.Ret PyExc World) :=
  List.replicate n (answerWith .exclusive 0 0 (.ok { exitCode := 0, stdout := pyStr "o" }) ⟨fresh⟩)

/-- The handlers answer as the ports may. -/
theorem answers_respect {faults : Faults SmallestCommand} (n fresh : ℕ) :
    ∀ handler∈answers n fresh,handler.Respects
      (Answers .exclusive faults 0 : Sem (Call SmallestCommand) Call.Ret PyExc World) := by
  intro handler hmem
  rw [List.eq_of_mem_replicate hmem]
  exact answerWith_respects _ _ _

/-- Answer `n` calls, let the next one raise, and answer `m` more. -/
def answersWithFault (n fresh : ℕ) (e : PyExc) (m fresh' : ℕ) :
    List (Handler (Call SmallestCommand) Call.Ret PyExc World) :=
  answers n fresh ++ faultWith e::answers m fresh'

/-- The handlers answer as the ports may, where they may fault so. -/
theorem answersWithFault_respect {faults : Faults SmallestCommand} (n fresh : ℕ) {e : PyExc}
    (he : ∀ call,isRelease call=false → faults call e) (m fresh' : ℕ) :
    ∀ handler∈answersWithFault n fresh e m fresh',handler.Respects
      (Answers .exclusive faults 0 : Sem (Call SmallestCommand) Call.Ret PyExc World) := by
  intro handler hmem
  rcases List.mem_append.mp hmem with hmem | hmem
  · exact answers_respect n fresh handler hmem
  · rcases List.mem_cons.mp hmem with rfl | hmem
    · exact faultWith_respects he
    · exact answers_respect m fresh' handler hmem

end GenericMlCache.ServiceOperations
