import GenericMlCache.ExecuteCalls
import GenericMlCache.PurgedReports

/-!
# Spent usage

What the client calls of a session reported, beside what its report adds up.
Every executed event of the journal is written after one client call of its own
run, so each is charged with what that call reported. The report charges it
with the usage of its key's current execution instead.
-/

namespace GenericMlCache.SpentUsage

open CallProgram CallAutomaton PythonText ExecutionModel SqliteStore ExecutionQueries RepositoryCalls
  ServicePorts StorePurge CachedExecution ExecuteCalls ServiceOperations StoreSoundness GroupedCounts
  SessionReports PurgedReports

/-- An executed event and what the client call before it reported. -/
structure Charge where
  /-- The event. -/
  entry : JournalEntry
  /-- The usage of the call, if there was one that no event was charged with yet. -/
  call : Option (Option TokenUsage)

/-- The usage a charge's call reported. -/
def Charge.usage (charge : Charge) : Option TokenUsage := charge.call.join

/-- What a history has charged. -/
structure Ledger where
  /-- The charges, in the order of their events. -/
  charges : List Charge
  /-- The last client call that returned, until an event is charged with it. -/
  pending : Option (Option TokenUsage)

/-- Nothing charged. -/
def Ledger.blank : Ledger := ⟨[],none⟩

/-- A run that is over owes no event. -/
def Ledger.settled (l : Ledger) : Ledger := { l with pending := none }

/-- Charge each executed event with the last client call. -/
def watchCharges {Command : Type} : (call : Call Command) → Except PyExc call.Ret → Ledger → Ledger
  | .runClient _,.ok result,l => { l with pending := some result.tokenUsage }
  | .recordEvent entry,.ok _,l =>
    if isExecuted entry.event=true then ⟨l.charges ++ [⟨entry,l.pending⟩],none⟩ else l
  | _,_,l => l

/-- A call that asks no client, writes no executed event and erases none. -/
def isBystander {Command : Type} : Call Command → Bool
  | .runClient _ | .deleteEventsForKey _ => false
  | .recordEvent entry => !isExecuted entry.event
  | _ => true

/-- The turns of an execute, as far as its charges are concerned: whether its
client has answered and no event was charged with the answer yet. -/
inductive ChargeTurn {Command : Type} : Turns (Call Command) Call.Ret PyExc Bool where
  | bystander {answered : Bool} {call : Call Command} {r : Except PyExc call.Ret}
      (h : isBystander call=true) : ChargeTurn answered call r answered
  | answered {before : Bool} {command : Command} {result : ClientRunResult} :
      ChargeTurn before (.runClient command) (.ok result) true
  | raised {answered : Bool} {command : Command} {e : PyExc} :
      ChargeTurn answered (.runClient command) (.error e) answered
  | charged {entry : JournalEntry} (h : isExecuted entry.event=true) :
      ChargeTurn true (.recordEvent entry) (.ok ()) false
  | unwritten {entry : JournalEntry} {e : PyExc} :
      ChargeTurn true (.recordEvent entry) (.error e) true

/-- Where a part ends that did not raise. -/
def Leaves {α : Type} (answered : Bool) : Except PyExc α → Bool → Prop
  | .ok _,after => after=answered
  | .error _,_ => True

section Turns
variable {Command α β : Type}

/-- The program takes such turns. -/
abbrev Charges (before after : Bool) (p : ServiceM Command α) : Prop :=
  Follows ChargeTurn (Leaves after) p before

/-- Calls that charge nothing. -/
theorem charges_bystander {p : ServiceM Command α} (h : Uses (fun call => isBystander call=true) p)
    (answered : Bool) : Charges answered answered p := by
  induction p with
  | done r => cases r <;> first | rfl | exact trivial
  | call op next ih => exact fun r => ⟨answered,.bystander h.1,ih r (h.2 r)⟩

/-- One part after the other. -/
theorem charges_seq {p : ServiceM Command α} {f : α → ServiceM Command β} {before middle after : Bool}
    (hp : Charges before middle p) (hf : ∀ a,Charges middle after (f a)) :
    Charges before after (p >>= f) := by
  refine Follows.seq hp (fun a φ hφ => ?_) fun e φ _ => trivial
  cases hφ
  exact hf a

/-- A returned value charges nothing. -/
theorem charges_pure (a : α) (answered : Bool) :
    Charges answered answered (pure a : ServiceM Command α) := rfl

/-- A raised error may end a part anywhere. -/
theorem charges_raise (e : PyExc) (before after : Bool) :
    Charges before after (raise e : ServiceM Command α) := trivial

/-- A key lock charges nothing. -/
theorem charges_withKeyLock (key : ExecutionKey) {body : ServiceM Command α} {before after : Bool}
    (h : Charges before after body) : Charges before after (withKeyLock key body) := by
  refine charges_seq (charges_bystander (Uses.perform rfl) before) fun _ => ?_
  refine Follows.ensure (h.weaken fun r φ hr => ?_)
  refine Follows.perform fun c => ⟨φ,.bystander rfl,?_⟩
  cases c with
  | ok _ => exact hr
  | error _ => exact trivial

/-- The client is asked. -/
theorem charges_runClient (command : Command) (before : Bool) :
    Charges before true (ask (.runClient command) : ServiceM Command ClientRunResult) := by
  refine Follows.perform fun r => ?_
  cases r with
  | ok result => exact ⟨true,.answered,rfl⟩
  | error e => exact ⟨before,.raised,trivial⟩

/-- A plain call charges nothing. -/
theorem bystander_of_isRemoval {call : Call Command} (h : isRemoval call=true) : isBystander call=true := by
  cases call with
  | runClient | deleteEventsForKey | recordEvent => exact nomatch h
  | _ => rfl

variable (service : CachedMlExecutionService Command) (fingerprint : Bytes → Digest)

/-- Plain calls charge nothing. -/
theorem charges_plain {p : ServiceM Command α} (h : UsesPlain p) (answered : Bool) :
    Charges answered answered p :=
  charges_bystander (h.mono fun _ hc => bystander_of_isRemoval (isRemoval_of_isPlain hc)) answered

/-- An executed event is charged. -/
theorem charges_recordEvent {event : JournalEvent} (h : isExecuted event=true) (key : ExecutionKey)
    (command : Command) : Charges true false (recordEvent service event key command) := by
  refine Follows.perform fun r => ?_
  cases r with
  | ok _ => exact ⟨false,.charged h,rfl⟩
  | error e => exact ⟨true,.unwritten,trivial⟩

/-- A run that is not kept is charged once. -/
theorem charges_recordUnstored (key : ExecutionKey) (command : Command) (inProgress : MlExecution)
    (result : ClientRunResult) :
    Charges true false (recordUnstored service fingerprint key command inProgress result) := by
  refine charges_seq (charges_bystander (Uses.perform rfl) true) fun _ => ?_
  refine charges_seq (charges_recordEvent service rfl key command) fun _ => ?_
  exact charges_seq (charges_bystander (Uses.ofExcept _) false) fun _ => charges_pure _ false

/-- The end of a recording is charged once. -/
theorem charges_concludeRecording (key : ExecutionKey) (command : Command) (executionId : ExecutionId)
    (allStored : Bool) :
    Charges true false (concludeRecording service key command executionId allStored) := by
  refine Follows.ite (fun _ => ?_) fun _ => charges_recordEvent service rfl key command
  refine charges_seq (charges_bystander (Uses.perform rfl) true) fun _ => ?_
  refine charges_seq (charges_recordEvent service rfl key command) fun _ => ?_
  refine charges_seq (charges_plain (direct_applyTags service key command).plain false) fun _ => ?_
  exact charges_plain (plain_afterRecord service) false

/-- A recording is charged once. -/
theorem charges_recordStored (key : ExecutionKey) (command : Command) (inProgress : MlExecution)
    (result : ClientRunResult) :
    Charges true false (recordStored service fingerprint key command inProgress result) := by
  refine charges_seq (charges_bystander (Uses.perform rfl) true) fun _ => ?_
  refine charges_seq (charges_bystander (Uses.ofExcept _) true) fun outputArtifacts => ?_
  refine charges_seq (charges_bystander (Uses.ofExcept _) true) fun inputArtifacts => ?_
  refine charges_seq (charges_plain (plain_withContentWriteLock
    (plain_persistDocuments _ _)) true) fun persisted => ?_
  exact charges_seq (charges_concludeRecording service key command _ _) fun _ => charges_pure _ false

/-- The client call of a fresh run. -/
theorem charges_runRecordedClient (command : Command) (inProgress : MlExecution) (before : Bool) :
    Charges before true (runRecordedClient command inProgress) := by
  refine Follows.attempt_seq (charges_runClient command before) fun r φ hφ => ?_
  cases r with
  | ok result =>
    cases hφ
    exact charges_pure result true
  | error e =>
    refine Follows.ite (fun _ => ?_) fun _ => Follows.ite (fun _ => ?_) fun _ => trivial
    · exact charges_seq (charges_bystander (Uses.perform rfl) φ) fun _ => charges_raise e φ true
    · exact charges_seq (charges_bystander (Uses.perform rfl) φ) fun _ => charges_raise e φ true

/-- A fresh run is charged once. -/
theorem charges_runAndRecord (identity : CallIdentity) (command : Command) :
    Charges false false (runAndRecord service fingerprint identity command) := by
  refine charges_seq (charges_plain (direct_blobHealthGate service command).plain false) fun healthy => ?_
  refine Follows.ite (fun _ => ?_) fun _ => charges_raise _ false false
  refine charges_seq (charges_bystander (Uses.perform rfl) false) fun executionId => ?_
  refine charges_seq (charges_bystander (Uses.perform rfl) false) fun _ => ?_
  refine charges_seq (charges_runRecordedClient command _ false) fun result => ?_
  exact Follows.ite (fun _ => charges_recordStored service fingerprint _ command _ result)
    fun _ => charges_recordUnstored service fingerprint _ command _ result

/-- Serving what is current charges nothing. -/
theorem charges_serveCurrentIfHealthy (key : ExecutionKey) (command : Command) (answered : Bool) :
    Charges answered answered (serveCurrentIfHealthy service fingerprint key command) := by
  refine charges_bystander (uses_serveCurrentIfHealthy service fingerprint
    (fun _ hc => bystander_of_isRemoval hc) (fun entry hhit => ?_) key command) answered
  simp only [isBystander,hhit]
  rfl

/-- A locked fresh run is charged at most once. -/
theorem charges_runFreshLocked (identity : CallIdentity) (command : Command) :
    Charges false false (runFreshLocked service fingerprint identity command) := by
  have hrun := charges_runAndRecord service fingerprint identity command
  refine charges_withKeyLock _ (Follows.ite (fun _ => ?_) fun _ => hrun)
  refine charges_seq (charges_serveCurrentIfHealthy service fingerprint _ command false) fun served => ?_
  cases served with
  | some served => exact charges_pure served false
  | none => exact hrun

/-- A run without storing is charged once. -/
theorem charges_runUncacheable (identity : CallIdentity) (command : Command) :
    Charges false false (runUncacheable service fingerprint identity command) := by
  refine Follows.ite (fun _ => ?_) fun _ => ?_
  · exact charges_seq (charges_bystander (Uses.perform rfl) false) fun _ => charges_raise _ false false
  · refine charges_seq (charges_runClient command false) fun result => ?_
    refine charges_seq (charges_bystander (Uses.perform rfl) true) fun executionId => ?_
    refine charges_seq (charges_bystander (Uses.ofExcept _) true) fun artifacts => ?_
    exact charges_seq (charges_recordEvent service rfl _ command) fun _ => charges_pure _ false

/-- A metered run is charged once. -/
theorem charges_runMetered (identity : CallIdentity) (command : Command) :
    Charges false false (runMetered service fingerprint identity command) := by
  refine charges_seq (charges_bystander (Uses.perform rfl) false) fun found => ?_
  refine charges_seq (charges_runClient command false) fun result => ?_
  refine charges_seq (charges_bystander (Uses.perform rfl) true) fun executionId => ?_
  refine charges_seq (charges_bystander (Uses.ofExcept _) true) fun artifacts => ?_
  have hevent : isExecuted (if Option.isSome found=true then .wouldHit else .wouldMiss)=true := by
    split <;> rfl
  exact charges_seq (charges_recordEvent service hevent _ command) fun _ => charges_pure _ false

/-- Every executed event of an execute is charged with a client call of its own. -/
theorem charges_execute (command : Command) :
    Charges false false (execute service fingerprint command) := by
  refine charges_seq (charges_bystander (Uses.ofExcept _) false) fun identity => ?_
  refine Follows.ite (fun _ => charges_runUncacheable service fingerprint identity command) fun _ => ?_
  refine charges_seq (charges_plain (direct_tokenGate service command).plain false) fun _ => ?_
  have hmetered := charges_runMetered service fingerprint identity command
  have hfresh := charges_runFreshLocked service fingerprint identity command
  unfold executeCacheable
  cases service.cacheMode command with
  | offline =>
    refine charges_bystander (uses_serveOffline service fingerprint
      (fun _ hc => bystander_of_isRemoval hc) (fun entry hevent => ?_) _ command) false
    rcases hevent with hevent | hevent <;> simp only [isBystander,hevent] <;> rfl
  | cache =>
    refine Follows.ite (fun _ => ?_) fun _ => hmetered
    refine charges_seq (charges_serveCurrentIfHealthy service fingerprint _ command false) fun served => ?_
    cases served with
    | some served => exact charges_pure served false
    | none => exact hfresh
  | refresh => exact Follows.ite (fun _ => hfresh) fun _ => hmetered

end Turns

/-- The journal's executed events, in order. -/
def executedEntries (journal : List JournalEntry) : List JournalEntry :=
  journal.filter fun entry => isExecuted entry.event

/-- Each executed event of the journal has its charge, with a call of its own. -/
structure Accounted (s : World × Ledger) : Prop where
  /-- The charges are those of the journal's executed events. -/
  entries : executedEntries s.1.journal=s.2.charges.map (·.entry)
  /-- Each has its call. -/
  called : ∀ charge∈s.2.charges,charge.call.isSome=true

/-- What holds while an execute runs. -/
def Running (answered : Bool) (s : World × Ledger) : Prop :=
  Accounted s ∧ (answered=true → s.2.pending.isSome=true)

section Histories
variable {Command : Type} {locks : LockMode} {faults : Faults Command} {thread : ThreadId}

/-- A bystander's answer leaves the executed events and the charges. -/
theorem bystander_keeps {call : Call Command} {w w' : World} {l : Ledger} {r : Except PyExc call.Ret}
    (h : isBystander call=true) (hanswer : Answers locks faults thread call w r w') :
    executedEntries w'.journal=executedEntries w.journal ∧ watchCharges call r l=l := by
  cases hanswer with
  | runClient | deleteEventsForKey => exact nomatch h
  | @recordEvent _ entry =>
    have hexec : isExecuted entry.event=false := by simpa [isBystander] using h
    constructor
    · show executedEntries (w.journal ++ [entry])=_
      simp [executedEntries,List.filter_append,hexec]
    · simp [watchCharges,hexec]
  | fault | reject => exact ⟨rfl,by simp only [watchCharges]⟩
  | _ => exact ⟨rfl,rfl⟩

/-- Every turn of an execute keeps the account. -/
theorem keeps_running : Keeps (ChargeTurn : Turns (Call Command) Call.Ret PyExc Bool)
    (observed (Answers locks faults thread) watchCharges) Running := by
  rintro answered call r answered' ⟨w,l⟩ ⟨w',l'⟩ hturn ⟨hanswer,hledger⟩ ⟨haccount,hpending⟩
  cases hturn with
  | bystander h =>
    obtain ⟨hjournal,hsame⟩ := bystander_keeps (l := l) h hanswer
    rw [hsame] at hledger
    cases hledger
    exact ⟨⟨hjournal.trans haccount.entries,haccount.called⟩,hpending⟩
  | answered =>
    cases hanswer
    cases hledger
    exact ⟨⟨haccount.entries,haccount.called⟩,fun _ => rfl⟩
  | raised =>
    have hworld : w'=w := answers_error hanswer
    subst hworld
    cases hledger
    exact ⟨⟨haccount.entries,haccount.called⟩,hpending⟩
  | @charged entry h =>
    cases hanswer
    have hnext : watchCharges (.recordEvent entry : Call Command) (.ok ()) l=
        ⟨l.charges ++ [⟨entry,l.pending⟩],none⟩ := by simp [watchCharges,h]
    rw [hnext] at hledger
    cases hledger
    refine ⟨⟨?_,fun charge hcharge => ?_⟩,fun hanswered => nomatch hanswered⟩
    · have hentries : executedEntries w.journal=l.charges.map (·.entry) := haccount.entries
      show executedEntries (w.journal ++ [entry])=_
      unfold executedEntries at hentries ⊢
      rw [List.filter_append,hentries,List.map_append]
      simp [h]
    · rcases List.mem_append.mp hcharge with hcharge | hcharge
      · exact haccount.called charge hcharge
      · cases List.mem_singleton.mp hcharge
        exact hpending rfl
  | unwritten =>
    have hworld : w'=w := answers_error hanswer
    subst hworld
    cases hledger
    exact ⟨⟨haccount.entries,haccount.called⟩,hpending⟩

/-- The histories of executes, of any services and commands, one after another
from an empty store. Each may be stopped at any of its calls. -/
abbrev ExecuteHistory {Command : Type} (faults : Faults Command) (fingerprint : Bytes → Digest) :
    World × Ledger → Prop :=
  History (observed (Answers .exclusive faults 0) watchCharges)
    (fun p => ∃ (service : CachedMlExecutionService Command) (command : Command),
      p=program fingerprint (.execute service command))
    (fun _ _ => True) (fun s => (World.released s.1,s.2.settled)) (World.empty,Ledger.blank)

variable {fingerprint : Bytes → Digest} {s : World × Ledger}

/-- Wherever executes lead, every executed event is charged with a call of its own. -/
theorem ExecuteHistory.accounted (h : ExecuteHistory faults fingerprint s) : Accounted s := by
  have hfollows : ∀ p,(∃ (service : CachedMlExecutionService Command) (command : Command),
      p=program fingerprint (.execute service command)) → Charges false false p := by
    rintro p ⟨service,command,rfl⟩
    exact charges_seq (charges_execute service fingerprint command) fun _ => charges_pure () false
  have hstart : Running false (World.empty,Ledger.blank) :=
    ⟨⟨rfl,fun _ hmem => nomatch hmem⟩,fun hf => nomatch hf⟩
  refine (keeps_running.history hfollows hstart ?_ h).1
  exact fun φ q s hs _ _ => ⟨⟨hs.1.entries,hs.1.called⟩,fun hf => nomatch hf⟩

/-- Such a history is one of operations. -/
theorem ExecuteHistory.reachable (h : ExecuteHistory faults fingerprint s) :
    Reachable faults fingerprint s.1 := by
  induction h with
  | start => exact .start
  | run _ hp hrun _ ih =>
    obtain ⟨service,command,rfl⟩ := hp
    exact .run ih ⟨.execute service command,rfl⟩ (Reach.of_observed hrun) trivial

end Histories

/-- The counters of a usage that the report adds up. -/
structure Counts where
  /-- Input tokens. -/
  input : ℤ
  /-- Output tokens. -/
  output : ℤ
  /-- Tokens read from the provider's cache. -/
  cacheRead : ℤ
  /-- Tokens written to it. -/
  cacheWrite : ℤ
  /-- Reasoning tokens. -/
  reasoning : ℤ
deriving DecidableEq

/-- No counts. -/
def Counts.zero : Counts := ⟨0,0,0,0,0⟩

/-- The counters of a usage; one that is not reported counts nothing. -/
def countsOf (usage : TokenUsage) : Counts where
  input := usage.inputTokens.getD 0
  output := usage.outputTokens.getD 0
  cacheRead := usage.cacheReadTokens.getD 0
  cacheWrite := usage.cacheWriteTokens.getD 0
  reasoning := usage.reasoningTokens.getD 0

/-- The call reported no counter at all. -/
def reportedNone : Option TokenUsage → Bool
  | none => true
  | some usage => usage.inputTokens.isNone && usage.outputTokens.isNone && usage.cacheReadTokens.isNone &&
      usage.cacheWriteTokens.isNone && usage.reasoningTokens.isNone

/-- What a call reported, none if it reported nothing. -/
def reported (usage : Option TokenUsage) : Option Counts :=
  if reportedNone usage=true then none else usage.map countsOf

/-- What the report counts of a usage, none if it takes it as unknown. -/
def counted (usage : Option TokenUsage) : Option Counts :=
  if (tokens usage).isNone=true then none else usage.map countsOf

/-- The charges of one session. -/
def sessionCharges (charges : List Charge) (sessionId : PyStr) : List Charge :=
  charges.filter fun charge => decide (charge.entry.sessionId=some sessionId)

/-- The sum of one counter over what the calls of a session's events of one
(client, model) reported. -/
def reportedSum (counter : Counts → ℤ) (charges : List Charge) (sessionId : PyStr)
    (axis : PyStr × PyStr) : ℤ :=
  (((sessionCharges charges sessionId).filter fun charge =>
    decide ((charge.entry.client,charge.entry.model)=axis)).map
      fun charge => ((reported charge.usage).map counter).getD 0).sum

/-- Usage is charged to the run that spent it: the report spends, for each
(client, model), what the calls of the session's events reported, and takes as
unknown exactly the calls that reported nothing. -/
structure SpentAsReported (report : SessionReport) (charges : List Charge) (sessionId : PyStr) : Prop where
  /-- The input tokens are those reported. -/
  input : ∀ usage∈report.byModel,
    usage.spentInput=reportedSum (·.input) charges sessionId (usage.client,usage.model)
  /-- The output tokens are those reported. -/
  output : ∀ usage∈report.byModel,
    usage.spentOutput=reportedSum (·.output) charges sessionId (usage.client,usage.model)
  /-- The tokens read from the provider's cache are those reported. -/
  cacheRead : ∀ usage∈report.byModel,
    usage.cacheReadTokens=reportedSum (·.cacheRead) charges sessionId (usage.client,usage.model)
  /-- The tokens written to the provider's cache are those reported. -/
  cacheWrite : ∀ usage∈report.byModel,
    usage.cacheWriteTokens=reportedSum (·.cacheWrite) charges sessionId (usage.client,usage.model)
  /-- The reasoning tokens are those reported. -/
  reasoning : ∀ usage∈report.byModel,
    usage.reasoningTokens=reportedSum (·.reasoning) charges sessionId (usage.client,usage.model)
  /-- No call of the session is left out. -/
  covered : ∀ charge∈sessionCharges charges sessionId,∃ usage∈report.byModel,
    (usage.client,usage.model)=(charge.entry.client,charge.entry.model)
  /-- The unknown calls are those that reported nothing. -/
  unknown : report.unknownUsage=
    (sessionCharges charges sessionId).countP fun charge => reportedNone charge.usage

section Report
variable (stamps : ℕ → PyStr)

/-- What depends on the entries alone, over the events of a session. -/
theorem sessionEvents_map {β : Type} {F : SessionEventRow → β} {G : JournalEntry → β}
    (h : ∀ ts entry,F (sessionEventRow ts entry)=G entry) (journal : List JournalEntry) (sessionId : PyStr) :
    (sessionEvents stamps journal sessionId).map F=
      (journal.filter fun entry => decide (entry.sessionId=some sessionId)).map G := by
  have hfst : (journal.zipIdx.filter fun e => decide (e.1.sessionId=some sessionId)).map Prod.fst=
      journal.filter fun entry => decide (entry.sessionId=some sessionId) := by
    have hmap := List.filter_map (f := Prod.fst) (l := journal.zipIdx)
      (p := fun entry : JournalEntry => decide (entry.sessionId=some sessionId))
    rw [List.zipIdx_map_fst] at hmap
    rw [hmap]
    rfl
  rw [← hfst,sessionEvents,List.map_map,List.map_map]
  exact List.map_congr_left fun e _ => h _ _

/-- A sum over the executed events of a session is one over its charges. -/
theorem sum_sessionEvents {s : World × Ledger} (h : Accounted s) (sessionId : PyStr)
    {F : SessionEventRow → ℤ} {G : JournalEntry → ℤ}
    (hF : ∀ ts entry,F (sessionEventRow ts entry)=if isExecuted entry.event=true then G entry else 0) :
    ((sessionEvents stamps s.1.journal sessionId).map F).sum=
      ((sessionCharges s.2.charges sessionId).map fun charge => G charge.entry).sum := by
  have hcharges : (sessionCharges s.2.charges sessionId).map (fun charge => G charge.entry)=
      ((s.2.charges.map (·.entry)).filter fun entry => decide (entry.sessionId=some sessionId)).map G := by
    rw [sessionCharges,List.filter_map,List.map_map]
    rfl
  rw [sessionEvents_map stamps hF,hcharges,← h.entries,executedEntries,List.filter_filter,
    ← sum_filter_map,List.filter_filter]
  congr 2
  exact List.filter_congr fun entry _ => Bool.and_comm _ _

/-- What an event spends of a counter is what the report counts of its usage. -/
theorem spentOf_eq {counter : TokenUsage → Option ℤ} {count : Counts → ℤ}
    (hcount : ∀ usage,count (countsOf usage)=(counter usage).getD 0)
    (usageOf : SessionEventRow → Option TokenUsage) (row : SessionEventRow) :
    spentOf counter usageOf row=
      if isExecuted row.event=true then ((counted (usageOf row)).map count).getD 0 else 0 := by
  unfold spentOf counted
  by_cases hexec : isExecuted row.event=true
  · rw [if_pos hexec,if_pos hexec]
    cases husage : usageOf row with
    | none => rfl
    | some usage =>
      cases htokens : tokens (some usage) with
      | none => simp
      | some n => simp [hcount]
  · rw [if_neg hexec,if_neg hexec]

/-- A call reported nothing exactly where it is reported as nothing. -/
theorem reported_isNone (usage : Option TokenUsage) : (reported usage).isNone=reportedNone usage := by
  cases usage with
  | none => rfl
  | some usage =>
    unfold reported
    cases h : reportedNone (some usage) <;> simp

/-- A usage is unknown exactly where nothing of it is counted. -/
theorem counted_isNone (usage : Option TokenUsage) : (counted usage).isNone=(tokens usage).isNone := by
  cases usage with
  | none => rfl
  | some usage =>
    unfold counted
    cases h : (tokens (some usage)).isNone <;> simp

/-- The current execution of the charge's key counts what the charge's call reported. -/
def ChargedRight (db : Db) (charge : Charge) : Prop :=
  counted (currentUsage db charge.entry.executionKey)=reported charge.usage

section Sums
variable {s : World × Ledger} {sessionId : PyStr}

/-- Where every charge of a session is right, a counter of the report is the sum
of what its calls reported. -/
theorem spent_eq_reportedSum (h : Accounted s)
    (hright : ∀ charge∈sessionCharges s.2.charges sessionId,ChargedRight s.1.db charge)
    {counter : TokenUsage → Option ℤ} {count : Counts → ℤ}
    (hcount : ∀ usage,count (countsOf usage)=(counter usage).getD 0) (axis : PyStr × PyStr) :
    ((axisEvents (sessionEvents stamps s.1.journal sessionId) axis).map
        (spentOf counter (joinedUsage s.1.db))).sum=
      reportedSum count s.2.charges sessionId axis := by
  rw [axisEvents,sum_filter_map,reportedSum,sum_filter_map]
  rw [sum_sessionEvents stamps h sessionId (G := fun entry =>
    if (entry.client,entry.model)=axis then
      ((counted (currentUsage s.1.db entry.executionKey)).map count).getD 0 else 0)]
  · congr 1
    refine List.map_congr_left fun charge hcharge => ?_
    simp only [decide_eq_true_eq]
    rw [hright charge hcharge]
  · intro ts entry
    rw [spentOf_eq hcount]
    by_cases haxis : (entry.client,entry.model)=axis
    · by_cases hexec : isExecuted entry.event=true
      · simp [SessionEventRow.axis,sessionEventRow,joinedUsage,haxis,hexec]
      · simp [SessionEventRow.axis,sessionEventRow,haxis,hexec]
    · simp [SessionEventRow.axis,sessionEventRow,haxis]

/-- Where every charge of a session is right, the unknown calls are those that
reported nothing. -/
theorem unknown_eq_reported (h : Accounted s)
    (hright : ∀ charge∈sessionCharges s.2.charges sessionId,ChargedRight s.1.db charge) :
    (sessionEvents stamps s.1.journal sessionId).countP (isUnknown (joinedUsage s.1.db))=
      (sessionCharges s.2.charges sessionId).countP fun charge => reportedNone charge.usage := by
  have hsum := sum_sessionEvents stamps h sessionId
    (F := fun row => if isUnknown (joinedUsage s.1.db) row=true then 1 else 0)
    (G := fun entry => if (counted (currentUsage s.1.db entry.executionKey)).isNone=true then 1 else 0)
    (fun ts entry => by
      cases hexec : isExecuted entry.event <;>
        simp [isUnknown,sessionEventRow,joinedUsage,counted_isNone,hexec])
  rw [← countP_eq_sum] at hsum
  have hcharges : ((sessionCharges s.2.charges sessionId).map fun charge =>
      if (counted (currentUsage s.1.db charge.entry.executionKey)).isNone=true then (1 : ℤ) else 0)=
      (sessionCharges s.2.charges sessionId).map fun charge =>
        if reportedNone charge.usage=true then 1 else 0 := by
    refine List.map_congr_left fun charge hcharge => ?_
    rw [hright charge hcharge,reported_isNone]
  rw [hcharges,← countP_eq_sum] at hsum
  exact Int.ofNat.inj hsum

/-- An entry of the report is a model's, with its counters. -/
theorem mem_byModel {usageOf : SessionEventRow → Option TokenUsage} {events : List SessionEventRow}
    {name : PyStr} {failed : ℕ} {usage : ModelUsage} :
    usage∈((rollup usageOf events).report name failed).byModel ↔
      ∃ row∈events,usage=modelUsage (row.axis,modelCounts usageOf events row.axis) := by
  have hmodels : (rollup usageOf events).models=
      (groupKeys SessionEventRow.axis events).map fun axis => (axis,modelCounts usageOf events axis) := by
    rw [rollup_eq]
    exact tally_eq _ _ _ _
  show usage∈(sortedModels (rollup usageOf events).models).map modelUsage ↔ _
  rw [hmodels,sortedModels,List.mem_map]
  constructor
  · rintro ⟨entry,hentry,rfl⟩
    obtain ⟨axis,haxis,rfl⟩ := List.mem_map.mp ((List.mem_insertionSort _).mp hentry)
    obtain ⟨row,hrow,rfl⟩ := mem_groupKeys.mp haxis
    exact ⟨row,hrow,rfl⟩
  · rintro ⟨row,hrow,rfl⟩
    refine ⟨_,(List.mem_insertionSort _).mpr (List.mem_map.mpr ⟨row.axis,?_,rfl⟩),rfl⟩
    exact mem_groupKeys.mpr ⟨row,hrow,rfl⟩

/-- Where every executed event of a session finds the usage that its own call
reported, the session's report spends what its calls reported. -/
theorem spent_as_reported {Command : Type} {faults : Faults Command} {fingerprint : Bytes → Digest}
    (h : ExecuteHistory faults fingerprint s)
    (hright : ∀ charge∈sessionCharges s.2.charges sessionId,ChargedRight s.1.db charge) :
    executedEntries s.1.journal=s.2.charges.map (·.entry) ∧
      (∀ charge∈s.2.charges,charge.call.isSome=true) ∧
      ∃ report,reportForSession stamps sessionId s.1=.ok report ∧
        SpentAsReported report s.2.charges sessionId := by
  have haccount := h.accounted
  have hwf := (reachable_sound h.reachable).wellFormed
  obtain ⟨failed,hreport⟩ := reportOn_ok hwf sessionId (sessionEvents stamps s.1.journal sessionId)
  refine ⟨haccount.entries,haccount.called,_,hreport,?_⟩
  have hsum : ∀ {counter : TokenUsage → Option ℤ} {count : Counts → ℤ} (component : ModelUsage → ℤ),
      (∀ usage,count (countsOf usage)=(counter usage).getD 0) →
      (∀ axis,component (modelUsage (axis,modelCounts (joinedUsage s.1.db)
          (sessionEvents stamps s.1.journal sessionId) axis))=
        ((axisEvents (sessionEvents stamps s.1.journal sessionId) axis).map
          (spentOf counter (joinedUsage s.1.db))).sum) →
      ∀ usage∈((rollup (joinedUsage s.1.db) (sessionEvents stamps s.1.journal sessionId)).report
          sessionId failed).byModel,
        component usage=reportedSum count s.2.charges sessionId (usage.client,usage.model) := by
    intro counter count component hcount hcomponent usage husage
    obtain ⟨row,_,rfl⟩ := mem_byModel.mp husage
    rw [hcomponent,spent_eq_reportedSum stamps haccount hright hcount]
    rfl
  constructor
  · exact hsum (·.spentInput) (fun _ => rfl) fun axis => congrArg (·.tokensIn) (modelCounts_eq _ axis)
  · exact hsum (·.spentOutput) (fun _ => rfl) fun axis => congrArg (·.tokensOut) (modelCounts_eq _ axis)
  · exact hsum (·.cacheReadTokens) (fun _ => rfl) fun axis => congrArg (·.cacheRead) (modelCounts_eq _ axis)
  · exact hsum (·.cacheWriteTokens) (fun _ => rfl) fun axis => congrArg (·.cacheWrite) (modelCounts_eq _ axis)
  · exact hsum (·.reasoningTokens) (fun _ => rfl) fun axis => congrArg (·.reasoning) (modelCounts_eq _ axis)
  · intro charge hcharge
    obtain ⟨hmem,hsession⟩ := List.mem_filter.mp hcharge
    have hentry : charge.entry∈executedEntries s.1.journal := by
      rw [haccount.entries]
      exact List.mem_map_of_mem hmem
    have hrow : charge.entry∈s.1.journal.filter fun entry => decide (entry.sessionId=some sessionId) :=
      List.mem_filter.mpr ⟨(List.mem_filter.mp hentry).1,hsession⟩
    have haxes := sessionEvents_map stamps (F := SessionEventRow.axis)
      (G := fun entry => (entry.client,entry.model)) (fun _ _ => rfl) s.1.journal sessionId
    have haxis : (charge.entry.client,charge.entry.model)∈
        (sessionEvents stamps s.1.journal sessionId).map SessionEventRow.axis := by
      rw [haxes]
      exact List.mem_map.mpr ⟨charge.entry,hrow,rfl⟩
    obtain ⟨row,hrow,heq⟩ := List.mem_map.mp haxis
    exact ⟨_,mem_byModel.mpr ⟨row,hrow,rfl⟩,heq⟩
  · have hunknown := unknown_eq_reported stamps haccount hright
    rw [← hunknown]
    show (rollup _ _).unknown=_
    rw [rollup_eq]

end Sums

end Report

instance (db : Db) (charge : Charge) : Decidable (ChargedRight db charge) := by
  unfold ChargedRight
  infer_instance

/-- One execute in the session, its client reporting five input tokens. -/
def chargedOnce (command : SmallestCommand) : World × Ledger :=
  (drive ((reportingAnswers 40 (some { inputTokens := some 5 })).map fun handler =>
    handler.watched watchCharges) (program positional (.execute sessionService command))
      (World.empty,Ledger.blank)).2

/-- The store and the charges it leaves. -/
def afterOne (command : SmallestCommand) : World × Ledger :=
  (World.released (chargedOnce command).1,(chargedOnce command).2.settled)

/-- It is a history. -/
theorem afterOne_history (command : SmallestCommand) :
    ExecuteHistory (noFaults : Faults SmallestCommand) positional (afterOne command) := by
  refine .run .start ⟨sessionService,command,rfl⟩ (drive_watched _ (fun handler hmem => ?_) _ _ _) trivial
  rw [List.eq_of_mem_replicate hmem]
  exact answerWith_respects _ _ _

/-- A recorded call is current, and its five tokens are spent. -/
theorem spent_as_reported_recorded :
    reportedSum (·.input) (afterOne ⟨.cache,.cache⟩).2.charges (pyStr "s") ([],[])=5 ∧
      ∃ report,reportForSession (fun _ => []) (pyStr "s") (afterOne ⟨.cache,.cache⟩).1=.ok report ∧
        SpentAsReported report (afterOne ⟨.cache,.cache⟩).2.charges (pyStr "s") := by
  refine ⟨by decide +kernel,?_⟩
  exact (spent_as_reported (fun _ => []) (afterOne_history ⟨.cache,.cache⟩) (by decide +kernel)).2.2

/-- A metered call stores no execution, so the tokens it reported are unknown. -/
theorem spent_as_reported_fails : ¬ ∀ s : World × Ledger,
    ExecuteHistory (noFaults : Faults SmallestCommand) positional s → ∀ sessionId report,
    reportForSession (fun _ => []) sessionId s.1=.ok report →
    SpentAsReported report s.2.charges sessionId := by
  intro h
  have hunknown : (reportForSession (fun _ => []) (pyStr "s")
      (afterOne ⟨.cache,.meter⟩).1).toOption.map (·.unknownUsage)=some 1 := by decide +kernel
  have hnone : (sessionCharges (afterOne ⟨.cache,.meter⟩).2.charges (pyStr "s")).countP
      (fun charge => reportedNone charge.usage)=0 := by decide +kernel
  cases hreport : reportForSession (fun _ => []) (pyStr "s") (afterOne ⟨.cache,.meter⟩).1 with
  | error e =>
    rw [hreport] at hunknown
    exact nomatch hunknown
  | ok report =>
    have hspent := (h _ (afterOne_history ⟨.cache,.meter⟩) _ report hreport).unknown
    rw [hreport] at hunknown
    have hone : report.unknownUsage=1 := Option.some.inj hunknown
    rw [hnone,hone] at hspent
    exact nomatch hspent

end GenericMlCache.SpentUsage
