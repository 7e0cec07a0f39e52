import GenericMlCache.NestedLocks

/-!
# The way to a record of one key

A cacheable CACHE execute looks for an answer, first without the key lock and
then again in it. Only in the lock, and only where nothing was current, does it
call its client and record. The gate says how far a caller has come. It is lost
once the store gives an answer that a healthy one does not give.
-/

namespace GenericMlCache.RecordGate

open CallProgram CallAutomaton PythonText ExecutionModel ExecutionRepository RepositoryCalls
  ServicePorts StorePurge CachedExecution NestedLocks

/-- How far a caller has come on its way to a record. -/
inductive Gate where
  /-- It looks for an answer, or it is done. -/
  | free
  /-- It is in the key's lock, where nothing was current. It may have inserted
  an input document, and it may have an answer that must be recorded. -/
  | clear (input paid : Bool)
  /-- Its row is in progress, and it calls its client next. -/
  | calling
  /-- The store was not healthy. -/
  | lost
deriving DecidableEq

/-- A caller's gate, with the key locks that it is in. -/
structure GatePhase where
  /-- The key locks that it is in. -/
  held : List ExecutionKey
  /-- Its gate. -/
  gate : Gate

/-- The calls of a caller that looks for an answer, but for the lock. -/
def isLooking {Command : Type} (key : ExecutionKey) : Call Command → Bool
  | .ensureAvailableForContent | .blobGet _ | .recordEvent _ | .store (.addTags _ _) => true
  | .store (.findCurrent k) => decide (k=key)
  | _ => false

/-- An answer that a healthy store does not give: a missing blob, corruption, or
for a command that back-fills an entry without its input. -/
def Unexpected {Command : Type} (fills : Prop) : (call : Call Command) → Except PyExc call.Ret → Prop
  | .blobGet _,.ok none => True
  | .store (.findCurrent _),.ok (some fresh) => fills ∧ fresh.inputPersisted=false
  | _,.error e => e.isCorruption=true
  | _,_ => False

/-- The calls of a recording before its answer must be recorded, but for saving its row. -/
def isWork {Command : Type} : Call Command → Bool
  | .blobIsHealthy | .newExecutionId | .acquireShared | .releaseShared | .blobPut _ _ | .recordEvent _ => true
  | .store (.recordOutcome _) | .store (.persistArtifact _ _)
  | .store (.markArtifactsStored _ _) | .store (.markArtifactsFailed _ _ _)
  | .store (.removeExecution _) => true
  | _ => false

/-- The calls of a recording whose answer must be recorded: its rows bind. -/
def PaidWork {Command : Type} : Call Command → Prop
  | .acquireShared | .releaseShared | .blobPut _ _ | .store (.markArtifactsStored _ _) => True
  | .store (.recordOutcome execution) => bindFailure execution.failure=.ok () ∧
      ∃ usage,insertTokenUsage none execution.tokenUsage=.ok usage
  | .store (.persistArtifact _ artifact) => ∃ rows,insertArtifacts [artifact]=.ok rows
  | _ => False

/-- The call inserts an input document. -/
def insertsInput {Command : Type} : Call Command → Bool
  | .store (.persistArtifact _ artifact) => artifact.artifactType.isInput
  | _ => false

section Turns
variable {Command : Type} (key : ExecutionKey) (fills : Prop) (must : ClientRunResult → Prop)

/-- The turns of the gate, for executes of one key. -/
inductive GateTurn : Turns (Call Command) Call.Ret PyExc GatePhase where
  /-- Anything may follow once the store was not healthy. -/
  | lost {held : List ExecutionKey} {φ : GatePhase} {call : Call Command} {r : Except PyExc call.Ret} :
      GateTurn ⟨held,.lost⟩ call r φ
  | look {held : List ExecutionKey} {call : Call Command} {r : Except PyExc call.Ret}
      (hcall : isLooking key call=true) (hr : ¬Unexpected fills call r) :
      GateTurn ⟨held,.free⟩ call r ⟨held,.free⟩
  | lose {held : List ExecutionKey} {call : Call Command} {r : Except PyExc call.Ret}
      (hcall : isLooking key call=true) (hr : Unexpected fills call r) :
      GateTurn ⟨held,.free⟩ call r ⟨held,.lost⟩
  | acquire {held : List ExecutionKey} :
      GateTurn ⟨held,.free⟩ (.acquireKey key) (.ok ()) ⟨key::held,.free⟩
  | release {held : List ExecutionKey} {gate : Gate}
      (h : gate=.free ∨ ∃ input,gate=.clear input false) :
      GateTurn ⟨held,gate⟩ (.releaseKey key) (.ok ()) ⟨held.erase key,.free⟩
  /-- Taking and leaving the lock does not raise. -/
  | lockRaised {φ : GatePhase} {call : Call Command} {e : PyExc} (hcall : isKeyLock call=true) :
      GateTurn φ call (.error e) ⟨φ.held,.lost⟩
  /-- Nothing is current in the lock. -/
  | clear {held : List ExecutionKey} (hkey : key∈held) :
      GateTurn ⟨held,.free⟩ (.store (.findCurrent key)) (.ok none) ⟨held,.clear false false⟩
  | work {held : List ExecutionKey} {input : Bool} {call : Call Command} {r : Except PyExc call.Ret}
      (hcall : isWork call=true) :
      GateTurn ⟨held,.clear input false⟩ call r ⟨held,.clear (input || insertsInput call) false⟩
  /-- The run's row is saved, under the key. -/
  | save {held : List ExecutionKey} {execution : MlExecution}
      (hkey : execution.callIdentity.generateKey=key) :
      GateTurn ⟨held,.clear false false⟩ (.store (.save execution)) (.ok ()) ⟨held,.calling⟩
  | saveRaised {held : List ExecutionKey} {execution : MlExecution} {e : PyExc} :
      GateTurn ⟨held,.clear false false⟩ (.store (.save execution)) (.error e) ⟨held,.clear false false⟩
  /-- The client is called. Some of its answers must be recorded. -/
  | client {held : List ExecutionKey} {paid : Bool} {command : Command}
      {r : Except PyExc ClientRunResult} (hpaid : paid=true ↔ ∃ result,r=.ok result ∧ must result) :
      GateTurn ⟨held,.calling⟩ (.runClient command) r ⟨held,.clear false paid⟩
  | paid {held : List ExecutionKey} {input : Bool} {call : Call Command} (hcall : PaidWork call)
      (a : call.Ret) :
      GateTurn ⟨held,.clear input true⟩ call (.ok a) ⟨held,.clear (input || insertsInput call) true⟩
  | paidRaised {held : List ExecutionKey} {input : Bool} {call : Call Command} {e : PyExc}
      (hcall : PaidWork call ∨ ∃ id,call=.store (.finalizeOutputPersisted id)) :
      GateTurn ⟨held,.clear input true⟩ call (.error e) ⟨held,.lost⟩
  /-- The record is finalized, with its input documents where it keeps any. -/
  | finalize {held : List ExecutionKey} {input paid : Bool} {id : ExecutionId} (hinput : fills → input=true) :
      GateTurn ⟨held,.clear input paid⟩ (.store (.finalizeOutputPersisted id)) (.ok ()) ⟨held,.free⟩
  | finalizeRaised {held : List ExecutionKey} {input : Bool} {id : ExecutionId} {e : PyExc} :
      GateTurn ⟨held,.clear input false⟩ (.store (.finalizeOutputPersisted id)) (.error e)
        ⟨held,.clear input false⟩

end Turns

/-- The end of a program in the gate: as `post` says, unless the store was not healthy. -/
def GateEnds {α : Type} (post : Except PyExc α → GatePhase → Prop) (r : Except PyExc α) (φ : GatePhase) :
    Prop := φ.gate=.lost ∨ post r φ

section Rules
variable {Command α β : Type} {key : ExecutionKey} {fills : Prop} {must : ClientRunResult → Prop}

/-- The programs that follow the gate from a phase. -/
abbrev Gated (key : ExecutionKey) (fills : Prop) (must : ClientRunResult → Prop)
    (post : Except PyExc α → GatePhase → Prop) (p : ServiceM Command α) (φ : GatePhase) : Prop :=
  Follows (GateTurn key fills must) (GateEnds post) p φ

/-- Once the store was not healthy every program follows. -/
theorem gated_lost {post : Except PyExc α → GatePhase → Prop} (p : ServiceM Command α) {φ : GatePhase}
    (h : φ.gate=.lost) : Gated key fills must post p φ := by
  induction p with
  | done r => exact Or.inl h
  | call call next ih =>
    intro r
    obtain ⟨held,gate⟩ := φ
    cases h
    exact ⟨⟨held,.lost⟩,.lost,ih r⟩

/-- Sequencing, where the store was healthy so far. -/
theorem Gated.bind {mid : Except PyExc α → GatePhase → Prop} {post : Except PyExc β → GatePhase → Prop}
    {p : ServiceM Command α} {f : α → ServiceM Command β} {φ : GatePhase}
    (h : Gated key fills must mid p φ) (hok : ∀ a φ',mid (.ok a) φ' → Gated key fills must post (f a) φ')
    (herr : ∀ e φ',mid (.error e) φ' → post (.error e) φ') :
    Gated key fills must post (p >>= f) φ := by
  refine Follows.seq h (fun a φ' hend => ?_) fun e φ' hend => hend.imp id (herr e φ')
  rcases hend with hlost | hmid
  · exact gated_lost (f a) hlost
  · exact hok a φ' hmid

/-- An attempted program and what follows on its outcome. -/
theorem Gated.attempt {mid : Except PyExc α → GatePhase → Prop} {post : Except PyExc β → GatePhase → Prop}
    {p : ServiceM Command α} {f : Except PyExc α → ServiceM Command β} {φ : GatePhase}
    (h : Gated key fills must mid p φ) (hnext : ∀ r φ',mid r φ' → Gated key fills must post (f r) φ') :
    Gated key fills must post (attempt p >>= f) φ := by
  refine Follows.attempt_seq h fun r φ' hend => ?_
  rcases hend with hlost | hmid
  · exact gated_lost (f r) hlost
  · exact hnext r φ' hmid

/-- Weaken how a program ends. -/
theorem Gated.weaken {post post' : Except PyExc α → GatePhase → Prop} {p : ServiceM Command α}
    {φ : GatePhase} (h : Gated key fills must post p φ) (hpost : ∀ r φ',post r φ' → post' r φ') :
    Gated key fills must post' p φ := Follows.weaken h fun r φ' => Or.imp id (hpost r φ')

/-- A program that is done ends where it stands. -/
theorem gated_done {post : Except PyExc α → GatePhase → Prop} {r : Except PyExc α} {φ : GatePhase}
    (h : post r φ) : Gated key fills must post (.done r : ServiceM Command α) φ := Or.inr h

/-- A caller that ends as it began, looking or done, in the locks that it was in. -/
abbrev Stays (held : List ExecutionKey) : Except PyExc α → GatePhase → Prop := fun _ φ => φ=⟨held,.free⟩

/-- One call of a caller that looks. -/
theorem gated_look {call : Call Command} (hcall : isLooking key call=true) (held : List ExecutionKey) :
    Gated key fills must (fun r φ => ¬Unexpected fills call r ∧ φ=⟨held,.free⟩) (ask call)
      ⟨held,.free⟩ := by
  refine Follows.perform fun r => ?_
  by_cases hr : Unexpected fills call r
  · exact ⟨⟨held,.lost⟩,.lose hcall hr,Or.inl rfl⟩
  · exact ⟨⟨held,.free⟩,.look hcall hr,Or.inr ⟨hr,rfl⟩⟩

/-- One call of a caller that looks, whatever it answers. -/
theorem gated_stays {call : Call Command} (hcall : isLooking key call=true) (held : List ExecutionKey) :
    Gated key fills must (Stays held) (ask call) ⟨held,.free⟩ :=
  (gated_look hcall held).weaken fun _ _ h => h.2

/-- A body in the key's lock that leaves the caller looking or done. -/
theorem gated_withKeyLock {post : Except PyExc α → Prop} {body : ServiceM Command α}
    {held : List ExecutionKey}
    (h : Gated key fills must (fun r φ => post r ∧ φ.held=key::held ∧
      (φ.gate=.free ∨ ∃ input,φ.gate=.clear input false)) body ⟨key::held,.free⟩) :
    Gated key fills must (fun r φ => post r ∧ φ=⟨held,.free⟩) (withKeyLock key body)
      ⟨held,.free⟩ := by
  refine Follows.perform_bind (fun _ => ⟨⟨key::held,.free⟩,.acquire,?_⟩) fun e =>
    ⟨⟨held,.lost⟩,.lockRaised rfl,Or.inl rfl⟩
  refine Gated.attempt h fun r φ hend => ?_
  obtain ⟨held',gate⟩ := φ
  obtain ⟨hpost,rfl,hgate⟩ := hend
  have hturn := @GateTurn.release Command key fills must (key::held) gate hgate
  rw [List.erase_cons_head] at hturn
  refine Follows.perform_bind (fun _ => ⟨⟨held,.free⟩,hturn,gated_done ⟨hpost,rfl⟩⟩) fun e =>
    ⟨⟨key::held,.lost⟩,.lockRaised rfl,Or.inl rfl⟩

end Rules

section Looking
variable {Command α β : Type} {key : ExecutionKey} {fills : Prop} {must : ClientRunResult → Prop}

/-- A caller that ends looking or done, and raises no corruption. -/
abbrev Looked (held : List ExecutionKey) : Except PyExc α → GatePhase → Prop :=
  fun r φ => φ=⟨held,.free⟩ ∧ ∀ e,r=.error e → e.isCorruption=false

/-- An expected error is no corruption. -/
theorem not_corrupt_of_expected {call : Call Command} {e : PyExc}
    (h : ¬Unexpected fills call (.error e)) : e.isCorruption=false := by
  have hiff : Unexpected fills call (.error e) ↔ e.isCorruption=true := by
    cases call with
    | store call => cases call <;> exact Iff.rfl
    | _ => exact Iff.rfl
  rw [hiff] at h
  simpa using h

/-- One call of a caller that looks raises no corruption. -/
theorem gated_looked {call : Call Command} (hcall : isLooking key call=true) (held : List ExecutionKey) :
    Gated key fills must (Looked held) (ask call) ⟨held,.free⟩ := by
  refine (gated_look hcall held).weaken fun r φ h => ⟨h.2,fun e he => ?_⟩
  subst he
  exact not_corrupt_of_expected h.1

/-- A value returned while looking. -/
theorem looked_pure (a : α) (held : List ExecutionKey) :
    Gated key fills must (Looked held) (pure a : ServiceM Command α) ⟨held,.free⟩ :=
  gated_done ⟨rfl,fun _ he => nomatch he⟩

/-- An error raised while looking that is no corruption. -/
theorem looked_raise {e : PyExc} (h : e.isCorruption=false) (held : List ExecutionKey) :
    Gated key fills must (Looked held) (raise e : ServiceM Command α) ⟨held,.free⟩ :=
  gated_done ⟨rfl,fun e' he => by cases he; exact h⟩

/-- Looking further. -/
theorem Looked.bind {held : List ExecutionKey} {p : ServiceM Command α} {f : α → ServiceM Command β}
    (h : Gated key fills must (Looked held) p ⟨held,.free⟩)
    (hf : ∀ a,Gated key fills must (Looked held) (f a) ⟨held,.free⟩) :
    Gated key fills must (Looked held) (p >>= f) ⟨held,.free⟩ := by
  refine Gated.bind h (fun a φ hφ => ?_) fun e φ hφ => ⟨hφ.1,fun e' he => ?_⟩
  · rw [hφ.1]
    exact hf a
  · cases he
    exact hφ.2 e rfl

/-- Hydration where every blob is found. -/
theorem looked_hydrate (execution : MlExecution) (held : List ExecutionKey) :
    Gated key fills must (Looked held) (hydrate execution : ServiceM Command MlExecution)
      ⟨held,.free⟩ := by
  have hone : ∀ artifact,Gated key fills must (Looked held)
      (hydrateArtifact artifact : ServiceM Command Artifact) ⟨held,.free⟩ := by
    intro artifact
    refine Gated.bind (gated_look rfl held) (fun content φ hφ => ?_) fun e φ hφ => ⟨hφ.2,fun e' he => ?_⟩
    · obtain ⟨hexpected,rfl⟩ := hφ
      cases content with
      | none => exact absurd trivial hexpected
      | some content => exact looked_pure _ held
    · cases he
      exact not_corrupt_of_expected hφ.1
  have hall : ∀ artifacts,Gated key fills must (Looked held)
      (hydrateArtifacts artifacts : ServiceM Command (List Artifact)) ⟨held,.free⟩ := by
    intro artifacts
    induction artifacts with
    | nil => exact looked_pure _ held
    | cons artifact rest ih =>
      exact Looked.bind (hone artifact) fun _ => Looked.bind ih fun _ => looked_pure _ held
  exact Looked.bind (hall execution.artifacts) fun _ => looked_pure _ held

variable (service : CachedMlExecutionService Command) (fingerprint : Bytes → Digest)

/-- The command has input documents that a hit back-fills. -/
def Fills (command : Command) : Prop :=
  (service.persistenceDepth command).storesInput=true ∧
    ∃ parts,service.inputParts command=.ok parts ∧ parts≠[]

/-- The answer must be recorded: a success that the service persists, whose
documents and counters bind. -/
structure Recordable (command : Command) (result : ClientRunResult) : Prop where
  /-- The client's run succeeded. -/
  succeeded : result.succeeded=true
  /-- The service persists its output. -/
  persists : service.shouldPersist command result.succeeded=true
  /-- Its counters bind. -/
  usage : ∃ usage,insertTokenUsage none result.tokenUsage=.ok usage
  /-- Its documents are built and bind. -/
  documents : ∀ executionId, ∃ outputs inputs rows,
    buildArtifacts fingerprint executionId result .pending=.ok outputs ∧
      recordedInput service fingerprint executionId command=.ok inputs ∧
      insertArtifacts (outputs ++ inputs)=.ok rows

/-- Tagging is looking. -/
theorem looked_applyTags (command : Command) (held : List ExecutionKey) :
    Gated key fills must (Looked held) (applyTags service key command) ⟨held,.free⟩ :=
  Follows.ite (fun _ => looked_pure () held) fun _ => gated_looked rfl held

/-- A back-fill with nothing to fill in. -/
theorem looked_attachInput {command : Command} (hdepth : (service.persistenceDepth command).storesInput=true)
    (hfills : ¬Fills service command) (executionId : ExecutionId) (held : List ExecutionKey) :
    Gated key fills must (Looked held) (attachInput service fingerprint key command executionId)
      ⟨held,.free⟩ := by
  unfold attachInput buildInputArtifacts
  cases hparts : service.inputParts command with
  | error e => exact looked_raise (service.inputParts_error command e hparts) held
  | ok parts =>
    cases parts with
    | nil => exact looked_pure () held
    | cons part rest => exact absurd ⟨hdepth,_,hparts,List.cons_ne_nil _ _⟩ hfills

/-- A back-fill of a healthy entry. -/
theorem looked_accumulateInput (command : Command) (current : MlExecution) (held : List ExecutionKey) :
    Gated key (Fills service command) must (Looked held)
      (accumulateInput service fingerprint key command current) ⟨held,.free⟩ := by
  refine Follows.ite (fun _ => looked_pure () held) fun hskip => ?_
  have hdepth : (service.persistenceDepth command).storesInput=true := by
    by_contra hno
    exact hskip (by simp [hno])
  have hbody : Gated key (Fills service command) must (Looked (key::held))
      (backFillInput service fingerprint key command) ⟨key::held,.free⟩ := by
    have hcall : isLooking key (.store (.findCurrent key) : Call Command)=true := decide_eq_true rfl
    refine Gated.bind (gated_look hcall _) (fun found φ hφ => ?_) fun e φ hφ => ⟨hφ.2,fun e' he => ?_⟩
    · obtain ⟨hexpected,rfl⟩ := hφ
      cases found with
      | none => exact looked_pure () _
      | some fresh =>
        refine Follows.ite (fun _ => looked_pure () _) fun hno => ?_
        have hfills : ¬Fills service command := fun hf => hexpected ⟨hf,by simpa using hno⟩
        exact looked_attachInput service fingerprint hdepth hfills _ _
    · cases he
      exact not_corrupt_of_expected hφ.1
  have hin : Gated key (Fills service command) must
      (fun r φ => (∀ e,r=.error e → e.isCorruption=false) ∧ φ.held=key::held ∧
        (φ.gate=.free ∨ ∃ input,φ.gate=.clear input false))
      (backFillInput service fingerprint key command) ⟨key::held,.free⟩ :=
    hbody.weaken fun r φ h => ⟨h.2,by rw [h.1],Or.inl (by rw [h.1])⟩
  exact (gated_withKeyLock hin).weaken fun r φ h => ⟨h.2,h.1⟩

/-- A hit on a healthy entry. -/
theorem looked_serveHit (command : Command) (current : MlExecution) (held : List ExecutionKey) :
    Gated key (Fills service command) must (Looked held)
      (serveHit service fingerprint key command current) ⟨held,.free⟩ := by
  refine Looked.bind (looked_hydrate current held) fun hydrated => ?_
  refine Looked.bind (gated_looked rfl held) fun _ => ?_
  refine Looked.bind (looked_applyTags service command held) fun _ => ?_
  exact Looked.bind (looked_accumulateInput service fingerprint command current held)
    fun _ => looked_pure _ held

/-- Looking the key up leads to a phase `clear` where nothing is current. -/
def FoundOr (held : List ExecutionKey) (clear : GatePhase) (r : Except PyExc (Option α)) (φ : GatePhase) :
    Prop := (r=.ok none → φ=clear) ∧ (r≠.ok none → φ=⟨held,.free⟩)

/-- Serving what is current, where it is healthy. -/
theorem gated_serveCurrentIfHealthy {held : List ExecutionKey} {clear : GatePhase}
    (hclear : clear=⟨held,.free⟩ ∨ key∈held ∧ clear=⟨held,.clear false false⟩) (command : Command) :
    Gated key (Fills service command) must (FoundOr held clear)
      (serveCurrentIfHealthy service fingerprint key command) ⟨held,.free⟩ := by
  have hcall : isLooking key (.store (.findCurrent key) : Call Command)=true := decide_eq_true rfl
  have hfind : Gated key (Fills service command) must
      (fun r φ => FoundOr held clear r φ ∧ ¬Unexpected (Fills service command) (.store (.findCurrent key) : Call Command) r)
      (store (.findCurrent key) : ServiceM Command (Option MlExecution)) ⟨held,.free⟩ := by
    refine Follows.perform fun r => ?_
    by_cases hr : Unexpected (Fills service command) (.store (.findCurrent key) : Call Command) r
    · exact ⟨⟨held,.lost⟩,.lose hcall hr,Or.inl rfl⟩
    · by_cases hnone : r=.ok none
      · subst hnone
        rcases hclear with rfl | ⟨hkey,rfl⟩
        · exact ⟨_,.look hcall hr,Or.inr ⟨⟨fun _ => rfl,fun _ => rfl⟩,hr⟩⟩
        · exact ⟨_,.clear hkey,Or.inr ⟨⟨fun _ => rfl,fun h => absurd rfl h⟩,hr⟩⟩
      · exact ⟨_,.look hcall hr,Or.inr ⟨⟨fun h => absurd h hnone,fun _ => rfl⟩,hr⟩⟩
  refine Gated.attempt hfind fun r φ hφ => ?_
  obtain ⟨⟨hnone,hsome⟩,hexpected⟩ := hφ
  cases r with
  | error e =>
    rw [hsome (fun h => nomatch h)]
    have hplain := not_corrupt_of_expected hexpected
    cases e with
    | storeCorrupt message => exact nomatch hplain
    | _ => exact gated_done ⟨fun h => (nomatch h),fun _ => rfl⟩
  | ok found =>
    cases found with
    | none => exact gated_done ⟨fun _ => hnone rfl,fun h => absurd rfl h⟩
    | some current =>
      rw [hsome (fun h => nomatch h)]
      refine Gated.attempt (looked_serveHit service fingerprint command current held) fun r φ hφ => ?_
      obtain ⟨rfl,hplain⟩ := hφ
      cases r with
      | ok served => exact gated_done ⟨fun h => (nomatch h),fun _ => rfl⟩
      | error e =>
        refine Follows.ite (fun hcorrupt => ?_) fun _ => gated_done ⟨fun h => (nomatch h),fun _ => rfl⟩
        rw [hplain e rfl] at hcorrupt
        exact nomatch hcorrupt

end Looking

section Recording
variable {Command α β : Type} {key : ExecutionKey} {fills : Prop} {must : ClientRunResult → Prop}
  {held : List ExecutionKey}

/-- A caller that is done with its work, or may leave it. -/
abbrev Worked (held : List ExecutionKey) : Except PyExc α → GatePhase → Prop :=
  fun _ φ => φ.held=held ∧ (φ.gate=.free ∨ ∃ input,φ.gate=.clear input false)

/-- A part of a recording that raises only where no answer must be recorded. -/
def Works (held : List ExecutionKey) (paid : Bool) (Q : α → Bool → Prop) (r : Except PyExc α)
    (φ : GatePhase) : Prop :=
  ∃ input,φ=⟨held,.clear input paid⟩ ∧ match r with
    | .ok a => Q a input
    | .error _ => paid=false

/-- One call of a recording. -/
theorem works_ask {call : Call Command} {input paid : Bool} (hwork : isWork call=true)
    (hpaid : paid=true → PaidWork call) :
    Gated key fills must (Works held paid fun _ input' => input'=(input || insertsInput call)) (ask call)
      ⟨held,.clear input paid⟩ := by
  refine Follows.perform fun r => ?_
  cases paid with
  | false =>
    refine ⟨_,.work hwork,Or.inr ⟨_,rfl,?_⟩⟩
    cases r <;> rfl
  | true =>
    cases r with
    | ok a => exact ⟨_,.paid (hpaid rfl) a,Or.inr ⟨_,rfl,rfl⟩⟩
    | error e => exact ⟨_,.paidRaised (Or.inl (hpaid rfl)),Or.inl rfl⟩

/-- Recording further. -/
theorem Works.bind {paid : Bool} {Q : α → Bool → Prop} {Q' : β → Bool → Prop} {p : ServiceM Command α}
    {f : α → ServiceM Command β} {φ : GatePhase} (h : Gated key fills must (Works held paid Q) p φ)
    (hf : ∀ a input,Q a input → Gated key fills must (Works held paid Q') (f a) ⟨held,.clear input paid⟩) :
    Gated key fills must (Works held paid Q') (p >>= f) φ := by
  refine Gated.bind h (fun a φ' hφ => ?_) fun e φ' hφ => hφ
  obtain ⟨input,rfl,hq⟩ := hφ
  exact hf a input hq

/-- A value returned while recording. -/
theorem works_pure {paid : Bool} {Q : α → Bool → Prop} {a : α} {input : Bool} (h : Q a input) :
    Gated key fills must (Works held paid Q) (pure a : ServiceM Command α) ⟨held,.clear input paid⟩ :=
  gated_done ⟨input,rfl,h⟩

/-- An error raised where no answer must be recorded. -/
theorem works_raise {Q : α → Bool → Prop} (e : PyExc) (input : Bool) :
    Gated key fills must (Works held false Q) (raise e : ServiceM Command α) ⟨held,.clear input false⟩ :=
  gated_done ⟨input,rfl,rfl⟩

/-- Storing a document: it is stored where an answer must be recorded. -/
theorem works_storeBlob {paid input : Bool} (executionId : ExecutionId) (artifact : Artifact) :
    Gated key fills must (Works held paid fun stored input' =>
        ((stored : Artifact).status=.stored → input'=input) ∧ (paid=true → stored.status=.stored))
      (storeBlob executionId artifact : ServiceM Command Artifact) ⟨held,.clear input paid⟩ := by
  refine Gated.attempt (works_ask rfl fun _ => trivial) fun r φ hφ => ?_
  obtain ⟨input',rfl,hr⟩ := hφ
  cases r with
  | error e =>
    cases hr
    refine Follows.ite (fun _ => ?_) fun _ => works_raise e input'
    exact Works.bind (works_ask rfl fun h => nomatch h) fun _ _ _ =>
      works_pure ⟨fun h => (nomatch h),fun h => (nomatch h)⟩
  | ok _ =>
    refine Gated.attempt (works_ask rfl fun _ => trivial) fun r φ hφ => ?_
    obtain ⟨input'',rfl,hr'⟩ := hφ
    cases r with
    | error e =>
      cases hr'
      exact Follows.ite (fun _ => works_pure ⟨fun h => (nomatch h),fun h => (nomatch h)⟩)
        fun _ => works_raise e input''
    | ok _ =>
      refine works_pure ⟨fun _ => ?_,fun _ => rfl⟩
      rw [hr',hr]
      simp [insertsInput]

/-- The document loop: it inserts every document, and stores every one where an
answer must be recorded. -/
theorem works_persistDocuments {paid : Bool} (executionId : ExecutionId) {documents : List Artifact}
    (hbinds : paid=true → ∀ a∈documents, ∃ rows,insertArtifacts [a]=.ok rows) (input : Bool) :
    Gated key fills must (Works held paid fun stored input' =>
        ((stored : List Artifact × Bool).2=true →
          input'=(input || documents.any fun a => a.artifactType.isInput)) ∧
        (paid=true → stored.2=true))
      (persistDocuments executionId documents : ServiceM Command (List Artifact × Bool))
      ⟨held,.clear input paid⟩ := by
  induction documents generalizing input with
  | nil => exact works_pure ⟨fun _ => by simp,fun _ => rfl⟩
  | cons artifact rest ih =>
    have hrest := ih fun hpaid a ha => hbinds hpaid a (List.mem_cons_of_mem _ ha)
    refine Works.bind (works_ask rfl fun hpaid => hbinds hpaid artifact List.mem_cons_self)
      fun _ inserted hinserted => ?_
    refine Works.bind (works_storeBlob executionId artifact) fun stored input' hstored => ?_
    refine Works.bind (hrest input') fun resolved input'' hresolved => works_pure ⟨fun hall => ?_,fun hpaid => ?_⟩
    · obtain ⟨hone,hothers⟩ := by simpa only [Bool.and_eq_true,decide_eq_true_eq] using hall
      rw [hresolved.1 hothers,hstored.1 hone,hinserted]
      simp [insertsInput,Bool.or_assoc]
    · simp [hstored.2 hpaid,hresolved.2 hpaid]

/-- A part of a recording under the shared store lock. -/
theorem works_withContentWriteLock {paid : Bool} {Q : α → Bool → Prop} {body : ServiceM Command α}
    {input : Bool} (h : Gated key fills must (Works held paid Q) body ⟨held,.clear input paid⟩) :
    Gated key fills must (Works held paid Q) (withContentWriteLock body) ⟨held,.clear input paid⟩ := by
  refine Works.bind (works_ask rfl fun _ => trivial) fun _ input' hin => ?_
  have hsame : input'=input := by simpa [insertsInput] using hin
  subst hsame
  refine Gated.attempt h fun r φ hφ => ?_
  obtain ⟨input'',rfl,hr⟩ := hφ
  refine Works.bind (works_ask rfl fun _ => trivial) fun _ input₃ hin => ?_
  have hsame : input₃=input'' := by simpa [insertsInput] using hin
  subst hsame
  exact gated_done ⟨_,rfl,hr⟩

/-- Work that may be left. -/
theorem worked_of_works {Q : α → Bool → Prop} {p : ServiceM Command α} {φ : GatePhase}
    (h : Gated key fills must (Works held false Q) p φ) :
    Gated key fills must (Worked held) p φ := by
  refine h.weaken fun r φ' hφ => ?_
  obtain ⟨input,rfl,_⟩ := hφ
  exact ⟨rfl,Or.inr ⟨input,rfl⟩⟩

/-- Looking is work that may be left. -/
theorem worked_of_looked {p : ServiceM Command α} {φ : GatePhase}
    (h : Gated key fills must (Looked held) p φ) : Gated key fills must (Worked held) p φ :=
  h.weaken fun _ _ hφ => ⟨by rw [hφ.1],Or.inl (by rw [hφ.1])⟩

variable (service : CachedMlExecutionService Command) (fingerprint : Bytes → Digest)

/-- The input documents of a command that has some. -/
theorem input_of_fills {command : Command} (hfills : Fills service command) {executionId : ExecutionId}
    {inputs : List Artifact} (h : recordedInput service fingerprint executionId command=.ok inputs) :
    inputs.any (fun a => a.artifactType.isInput)=true := by
  obtain ⟨hdepth,parts,hparts,hne⟩ := hfills
  simp only [recordedInput,if_pos hdepth,buildInputArtifacts,hparts] at h
  cases Except.ok.inj h
  obtain ⟨part,rest,rfl⟩ := List.exists_cons_of_ne_nil hne
  simp [makeArtifact,Artifact.fromContent,part.isInput]

/-- A check that passes on a list passes on its members. -/
theorem forM_ok {f : α → Except PyExc Unit} {as : List α} (h : as.forM f=.ok ()) : ∀ a∈as,f a=.ok () := by
  induction as with
  | nil => exact fun _ ha => nomatch ha
  | cons a as ih =>
    obtain ⟨_,hfirst,hrest⟩ := ok_of_bind h
    intro b hb
    rcases List.mem_cons.mp hb with rfl | hb
    · exact hfirst
    · exact ih hrest b hb

/-- Rows that insert together insert one by one. -/
theorem insertArtifacts_one {documents : List Artifact} {rows : List SqliteStore.ArtifactRow}
    (h : insertArtifacts documents=.ok rows) {a : Artifact} (ha : a∈documents) :
    ∃ rows,insertArtifacts [a]=.ok rows := by
  obtain ⟨_,hall,_⟩ := ok_of_bind h
  have hone := forM_ok hall a ha
  refine ⟨[artifactRow a],?_⟩
  simp only [insertArtifacts,List.forM_eq_forM,List.forM_cons,List.forM_nil] at hone ⊢
  rw [hone]
  rfl

/-- The end of a recording: it is finalized with its input where all was stored. -/
theorem worked_concludeRecording (hquota : service.maxSize=none) (command : Command)
    (executionId : ExecutionId) {input paid allStored : Bool}
    (hinput : allStored=true → Fills service command → input=true) (hpaid : paid=true → allStored=true) :
    Gated key (Fills service command) must (Worked held)
      (concludeRecording service key command executionId allStored) ⟨held,.clear input paid⟩ := by
  refine Follows.ite (fun hall => ?_) fun hall => ?_
  · have hafter : Gated key (Fills service command) must (Looked held) (afterRecord service)
        ⟨held,.free⟩ := by
      unfold afterRecord
      rw [hquota]
      exact looked_pure () held
    have hfinalize : Gated key (Fills service command) must
        (fun r φ => (r=.ok () → φ=⟨held,.free⟩) ∧ (r≠.ok () → φ=⟨held,.clear input false⟩))
        (store (.finalizeOutputPersisted executionId) : ServiceM Command Unit)
        ⟨held,.clear input paid⟩ := by
      refine Follows.perform fun r => ?_
      cases r with
      | ok u => exact ⟨_,.finalize (hinput hall),Or.inr ⟨fun _ => rfl,fun h => absurd rfl h⟩⟩
      | error e =>
        cases paid with
        | true => exact ⟨⟨held,.lost⟩,.paidRaised (Or.inr ⟨_,rfl⟩),Or.inl rfl⟩
        | false => exact ⟨_,.finalizeRaised,Or.inr ⟨fun h => (nomatch h),fun _ => rfl⟩⟩
    refine Gated.bind hfinalize (fun _ φ hφ => ?_) fun e φ hφ => ?_
    · rw [hφ.1 rfl]
      refine worked_of_looked (Looked.bind (gated_looked rfl held) fun _ => ?_)
      exact Looked.bind (looked_applyTags service command held) fun _ => hafter
    · rw [hφ.2 (fun h => nomatch h)]
      exact ⟨rfl,Or.inr ⟨input,rfl⟩⟩
  · cases paid with
    | true => exact absurd (hpaid rfl) hall
    | false => exact worked_of_works (works_ask rfl fun h => nomatch h)

/-- Recording a result whose output is kept. -/
theorem worked_recordStored (hquota : service.maxSize=none) (command : Command) (inProgress : MlExecution)
    (result : ClientRunResult) {paid : Bool} (hpaid : paid=true → Recordable service fingerprint command result) :
    Gated key (Fills service command) must (Worked held)
      (recordStored service fingerprint key command inProgress result) ⟨held,.clear false paid⟩ := by
  have hdone : ∀ {β : Type} {Q : β → Bool → Prop} {p : ServiceM Command β} {f : β → ServiceM Command MlExecution}
      {input : Bool},Gated key (Fills service command) must (Works held paid Q) p ⟨held,.clear input paid⟩ →
      (∀ a input',Q a input' →
        Gated key (Fills service command) must (Worked held) (f a) ⟨held,.clear input' paid⟩) →
      Gated key (Fills service command) must (Worked held) (p >>= f) ⟨held,.clear input paid⟩ := by
    intro β Q p f input hp hf
    refine Gated.bind hp (fun a φ hφ => ?_) fun e φ hφ => ?_
    · obtain ⟨input',rfl,hq⟩ := hφ
      exact hf a input' hq
    · obtain ⟨input',rfl,hfalse⟩ := hφ
      cases hfalse
      exact ⟨rfl,Or.inr ⟨input',rfl⟩⟩
  have hraise : ∀ {β : Type} (e : PyExc) (input : Bool),paid=false →
      Gated key (Fills service command) must (Worked held) (raise e : ServiceM Command β)
        ⟨held,.clear input paid⟩ := by
    intro β e input hp
    subst hp
    exact gated_done ⟨rfl,Or.inr ⟨input,rfl⟩⟩
  have hunpaid : ∀ {ε : Type} {e : PyExc} {x : Except PyExc ε},x=.error e →
      (Recordable service fingerprint command result → ∃ a,x=.ok a) → paid=false := by
    intro ε e x hx hok
    cases paid with
    | false => rfl
    | true =>
      obtain ⟨a,ha⟩ := hok (hpaid rfl)
      exact nomatch hx.symm.trans ha
  refine hdone (works_ask rfl fun hp => ?_) fun _ input hin => ?_
  · obtain ⟨hsucceeded,_,husage,_⟩ := hpaid hp
    have hfailure : result.failure=none := by simp [ClientRunResult.failure,hsucceeded]
    exact ⟨by rw [withOutcome,hfailure]; rfl,husage⟩
  have hnone : input=false := by simpa [insertsInput] using hin
  subst hnone
  cases houtputs : buildArtifacts fingerprint (withOutcome inProgress result).executionId result .pending with
  | error e =>
    refine hraise e _ (hunpaid houtputs fun hrec => ?_)
    obtain ⟨outputs,_,_,hok,_⟩ := hrec.documents (withOutcome inProgress result).executionId
    exact ⟨outputs,hok⟩
  | ok outputs =>
    rw [ofExcept_ok_bind]
    cases hinputs : recordedInput service fingerprint (withOutcome inProgress result).executionId command with
    | error e =>
      refine hraise e _ (hunpaid hinputs fun hrec => ?_)
      obtain ⟨_,inputs,_,_,hok,_⟩ := hrec.documents (withOutcome inProgress result).executionId
      exact ⟨inputs,hok⟩
    | ok inputs =>
      rw [ofExcept_ok_bind]
      have hbinds : paid=true → ∀ a∈outputs ++ inputs, ∃ rows,insertArtifacts [a]=.ok rows := by
        intro hp a ha
        obtain ⟨outputs',inputs',rows,hout,hin,hinsert⟩ :=
          (hpaid hp).documents (withOutcome inProgress result).executionId
        cases houtputs.symm.trans hout
        cases hinputs.symm.trans hin
        exact insertArtifacts_one hinsert ha
      refine hdone (works_withContentWriteLock (works_persistDocuments _ hbinds false))
        fun stored input hstored => ?_
      obtain ⟨resolved,allStored⟩ := stored
      refine Gated.bind (worked_concludeRecording service hquota command _ (fun hall hfills => ?_) hstored.2)
        (fun _ φ hφ => gated_done hφ) fun e φ hφ => hφ
      rw [hstored.1 hall,List.any_append,input_of_fills service fingerprint hfills hinputs]
      simp

/-- The client's run: an answer that must be recorded is not raised. -/
theorem gated_runRecordedClient (command : Command) (inProgress : MlExecution) :
    Gated key fills must (fun r φ => match r with
        | .ok result => ∃ paid,φ=⟨held,.clear false paid⟩ ∧ (paid=true ↔ must result)
        | .error _ => φ.held=held ∧ ∃ input,φ.gate=.clear input false)
      (runRecordedClient command inProgress) ⟨held,.calling⟩ := by
  have hclient : Gated key fills must (fun r φ => ∃ paid,φ=⟨held,.clear false paid⟩ ∧
        (paid=true ↔ ∃ result,r=.ok result ∧ must result))
      (ask (.runClient command) : ServiceM Command ClientRunResult) ⟨held,.calling⟩ := by
    refine Follows.perform fun r => ?_
    by_cases hr : ∃ result,r=.ok result ∧ must result
    · exact ⟨_,.client (iff_of_true rfl hr),Or.inr ⟨true,rfl,iff_of_true rfl hr⟩⟩
    · exact ⟨_,.client (iff_of_false Bool.false_ne_true hr),
        Or.inr ⟨false,rfl,iff_of_false Bool.false_ne_true hr⟩⟩
  refine Gated.attempt hclient fun r φ hφ => ?_
  obtain ⟨paid,rfl,hpaid⟩ := hφ
  cases r with
  | ok result =>
    refine gated_done ⟨paid,rfl,fun h => ?_,fun h => hpaid.mpr ⟨result,rfl,h⟩⟩
    obtain ⟨_,hr,hmust⟩ := hpaid.mp h
    cases hr
    exact hmust
  | error e =>
    have hno : paid=false := by
      by_contra h
      obtain ⟨_,hr,_⟩ := hpaid.mp (by simpa using h)
      exact nomatch hr
    subst hno
    have hafter : ∀ call : StoreCall,isWork (.store call : Call Command)=true →
        Gated key fills must (fun r φ => match r with
            | .ok result => ∃ paid,φ=⟨held,.clear false paid⟩ ∧ (paid=true ↔ must result)
            | .error _ => φ.held=held ∧ ∃ input,φ.gate=.clear input false)
          (store call >>= fun _ => (raise e : ServiceM Command ClientRunResult))
          ⟨held,.clear false false⟩ := by
      intro call hwork
      refine Gated.bind (works_ask hwork fun h => nomatch h) (fun _ φ hφ => ?_) fun _ φ hφ => ?_
      · obtain ⟨input,rfl,_⟩ := hφ
        exact gated_done ⟨rfl,input,rfl⟩
      · obtain ⟨input,rfl,_⟩ := hφ
        exact ⟨rfl,input,rfl⟩
    refine Follows.ite (fun _ => hafter _ rfl) fun _ => ?_
    exact Follows.ite (fun _ => hafter _ rfl) fun _ => gated_done ⟨rfl,false,rfl⟩

/-- The part of a fresh run after the re-check. -/
theorem worked_runAndRecord (hquota : service.maxSize=none) {identity : CallIdentity}
    (hkey : identity.generateKey=key) (command : Command) :
    Gated key (Fills service command) (Recordable service fingerprint command) (Worked held)
      (runAndRecord service fingerprint identity command) ⟨held,.clear false false⟩ := by
  subst hkey
  have hstep : ∀ {β : Type} {call : Call Command} {f : call.Ret → ServiceM Command β},isWork call=true →
      insertsInput call=false →
      (∀ a,Gated identity.generateKey (Fills service command) (Recordable service fingerprint command)
        (Worked held) (f a) ⟨held,.clear false false⟩) →
      Gated identity.generateKey (Fills service command) (Recordable service fingerprint command)
        (Worked held) (ask call >>= f) ⟨held,.clear false false⟩ := by
    intro β call f hwork hin hf
    refine Gated.bind (works_ask hwork fun h => nomatch h) (fun a φ hφ => ?_) fun e φ hφ => ?_
    · obtain ⟨input,rfl,hinput⟩ := hφ
      have hfalse : input=false := by simpa [hin] using hinput
      rw [hfalse]
      exact hf a
    · obtain ⟨input,rfl,_⟩ := hφ
      exact ⟨rfl,Or.inr ⟨input,rfl⟩⟩
  have hgate : Gated identity.generateKey (Fills service command) (Recordable service fingerprint command)
      (fun _ φ => φ=⟨held,.clear false false⟩) (blobHealthGate service command)
      ⟨held,.clear false false⟩ := by
    refine Follows.ite (fun _ => ?_) fun _ => gated_done rfl
    exact Follows.perform fun r => ⟨_,.work rfl,Or.inr rfl⟩
  refine Gated.bind hgate (fun healthy φ hφ => ?_) fun e φ hφ => ?_
  · subst hφ
    refine Follows.ite (fun _ => ?_) fun _ => gated_done ⟨rfl,Or.inr ⟨false,rfl⟩⟩
    refine hstep rfl rfl fun executionId => ?_
    refine Follows.perform_bind (fun _ => ⟨⟨held,.calling⟩,.save rfl,?_⟩) fun e =>
      ⟨⟨held,.clear false false⟩,.saveRaised,Or.inr ⟨rfl,Or.inr ⟨false,rfl⟩⟩⟩
    refine Gated.bind (gated_runRecordedClient command _) (fun result φ hφ => ?_) fun e φ hφ => ?_
    · obtain ⟨paid,rfl,hpaid⟩ := hφ
      refine Follows.ite (fun _ => ?_) fun hskip => ?_
      · exact worked_recordStored service fingerprint hquota command _ result hpaid.mp
      · have hfalse : paid=false := by
          by_contra h
          exact hskip (hpaid.mp (by simpa using h)).persists
        subst hfalse
        refine hstep rfl rfl fun _ => hstep rfl rfl fun _ => ?_
        cases buildArtifacts fingerprint (withOutcome (inProgressExecution service identity executionId command)
            result).executionId result .stored with
        | error e => exact gated_done ⟨rfl,Or.inr ⟨false,rfl⟩⟩
        | ok artifacts => exact gated_done ⟨rfl,Or.inr ⟨false,rfl⟩⟩
    · obtain ⟨hheld,input,hgate⟩ := hφ
      exact ⟨hheld,Or.inr ⟨input,hgate⟩⟩
  · subst hφ
    exact ⟨rfl,Or.inr ⟨false,rfl⟩⟩

/-- A cacheable CACHE execute that keeps its output, of a service without a quota. -/
structure Records (command : Command) : Prop where
  /-- It reads the cache first. -/
  mode : service.cacheMode command=.cache
  /-- It is not kept out of the cache. -/
  cacheable : service.isUncacheable command=false
  /-- Its output is stored. -/
  keeps : (service.persistenceDepth command).storesOutput=true
  /-- The store has no quota. -/
  quota : service.maxSize=none

/-- The locked part of a miss. -/
theorem stays_runFreshLocked {command : Command} (hrecords : Records service command)
    {identity : CallIdentity} (hkey : identity.generateKey=key) :
    Gated key (Fills service command) (Recordable service fingerprint command) (Stays [])
      (runFreshLocked service fingerprint identity command) ⟨[],.free⟩ := by
  have hbody : Gated key (Fills service command) (Recordable service fingerprint command) (Worked [key])
      (serveCurrentIfHealthy service fingerprint key command >>= servedOrRun service fingerprint identity command)
      ⟨[key],.free⟩ := by
    have hserve := @gated_serveCurrentIfHealthy Command key (Recordable service fingerprint command)
      service fingerprint [key] ⟨[key],.clear false false⟩ (Or.inr ⟨List.mem_singleton.mpr rfl,rfl⟩) command
    refine Gated.bind hserve (fun r φ hφ => ?_) fun e φ hφ => ?_
    · cases r with
      | some served =>
        rw [hφ.2 (fun h => (by cases h))]
        exact gated_done ⟨rfl,Or.inl rfl⟩
      | none =>
        rw [hφ.1 rfl]
        exact worked_runAndRecord service fingerprint hrecords.quota hkey command
    · rw [hφ.2 (fun h => (by cases h))]
      exact ⟨rfl,Or.inl rfl⟩
  unfold runFreshLocked
  simp only [hrecords.mode,if_true,hkey]
  exact (gated_withKeyLock (hbody.weaken fun _ _ hφ => ⟨trivial,hφ⟩)).weaken fun _ _ hφ => hφ.2

/-- The whole execute goes through the gate and ends out of every lock. -/
theorem stays_execute {command : Command} (hrecords : Records service command) {identity : CallIdentity}
    (hidentity : service.buildIdentity command=.ok identity) :
    Gated identity.generateKey (Fills service command) (Recordable service fingerprint command) (Stays [])
      (execute service fingerprint command) ⟨[],.free⟩ := by
  unfold execute
  rw [hidentity,ofExcept_ok_bind]
  simp only [hrecords.cacheable,tokenGate,hrecords.keeps,if_true,executeCacheable,hrecords.mode]
  refine Gated.bind (gated_stays rfl []) (fun _ φ hφ => ?_) fun e φ hφ => hφ
  subst hφ
  have hserve := @gated_serveCurrentIfHealthy Command identity.generateKey
    (Recordable service fingerprint command) service fingerprint [] ⟨[],.free⟩ (Or.inl rfl) command
  refine Gated.bind hserve (fun r φ hφ => ?_) fun e φ hφ => hφ.2 fun h => nomatch h
  cases r with
  | some served =>
    rw [hφ.2 (fun h => nomatch h)]
    exact gated_done rfl
  | none =>
    rw [hφ.1 rfl]
    exact stays_runFreshLocked service fingerprint hrecords rfl

end Recording

end GenericMlCache.RecordGate
