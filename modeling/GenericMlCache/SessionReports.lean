import GenericMlCache.GroupedCounts
import GenericMlCache.StoreSoundness
import GenericMlCache.UndisturbedRuns

/-!
# Session reports

The roll-up of a session's journal events, each joined to the token usage of
its key's current execution, and what a soft purge does to it. Counts and days
come from the events alone. Tokens come from the join, so they are kept exactly
where no purged key had any to lose.
-/

namespace GenericMlCache.SessionReports

open CallProgram CallAutomaton PythonText ExecutionModel SqliteStore ExecutionRepository
  ExecutionQueries RepositoryCalls ServicePorts StorePurge CachedExecution ServiceOperations
  StoreSoundness UndisturbedRuns GroupedCounts

/-- One journal event in a session, with the fields a session report needs. -/
structure SessionEventRow where
  /-- When it was written. -/
  ts : PyStr
  /-- The event. -/
  event : JournalEvent
  /-- The client's name. -/
  client : PyStr
  /-- The model. -/
  model : PyStr
  /-- The key of the call. -/
  executionKey : Option ExecutionKey

/-- `EXECUTED_EVENTS`: a real client call ran. -/
def executedEvents : List JournalEvent := [.record,.run,.wouldHit,.wouldMiss]

/-- Whether a real client call ran. -/
def isExecuted (event : JournalEvent) : Bool := decide (event∈executedEvents)

@[simp] theorem isExecuted_hit : isExecuted .hit=false := rfl

/-- `_tokens`: total reported tokens, none if the call reported none. -/
def tokens : Option TokenUsage → Option ℤ
  | none => none
  | some usage =>
    if (usage.inputTokens.isNone && usage.outputTokens.isNone)=true then none
    else some (usage.inputTokens.getD 0+usage.outputTokens.getD 0)

/-- The counters of one (client, model). -/
structure ModelCounts where
  /-- Input tokens spent. -/
  tokensIn : ℤ
  /-- Output tokens spent. -/
  tokensOut : ℤ
  /-- Tokens read from the provider's cache. -/
  cacheRead : ℤ
  /-- Tokens written to it. -/
  cacheWrite : ℤ
  /-- Reasoning tokens. -/
  reasoning : ℤ
  /-- Tokens saved by hits. -/
  saved : ℤ
  /-- The executed events. -/
  executions : ℕ
  /-- The hits. -/
  hits : ℕ
deriving DecidableEq

/-- The counters of a model not seen yet. -/
def ModelCounts.zero : ModelCounts := ⟨0,0,0,0,0,0,0,0⟩

/-- The tokens of one executed call; a call that reported none adds nothing. -/
def ModelCounts.spend (usage : Option TokenUsage) (c : ModelCounts) : ModelCounts :=
  match usage,tokens usage with
  | some usage,some _ =>
    { c with
      tokensIn := c.tokensIn+usage.inputTokens.getD 0
      tokensOut := c.tokensOut+usage.outputTokens.getD 0
      cacheRead := c.cacheRead+usage.cacheReadTokens.getD 0
      cacheWrite := c.cacheWrite+usage.cacheWriteTokens.getD 0
      reasoning := c.reasoning+usage.reasoningTokens.getD 0 }
  | _,_ => c

/-- One event of a model, with the usage of its key. -/
def ModelCounts.count (usage : Option TokenUsage) (event : JournalEvent) (c : ModelCounts) : ModelCounts :=
  if event=.hit then { c with hits := c.hits+1, saved := c.saved+(tokens usage).getD 0 }
  else if isExecuted event=true then { c.spend usage with executions := c.executions+1 }
  else c

/-- The counters of one day. -/
structure DayCounts where
  /-- The events. -/
  invocations : ℕ
  /-- The executed ones. -/
  executions : ℕ
  /-- The hits. -/
  hits : ℕ
deriving DecidableEq

/-- The counters of a day not seen yet. -/
def DayCounts.zero : DayCounts := ⟨0,0,0⟩

/-- One event of a day. -/
def DayCounts.count (event : JournalEvent) (c : DayCounts) : DayCounts :=
  { invocations := c.invocations+1
    executions := c.executions+(isExecuted event).toNat
    hits := c.hits+(decide (event=.hit)).toNat }

/-- What the loop of the projection keeps. -/
structure Rollup where
  /-- The counters of each (client, model), in the order of first use. -/
  models : List ((PyStr × PyStr) × ModelCounts)
  /-- The counters of each day, in the order of first use. -/
  days : List (PyStr × DayCounts)
  /-- The events. -/
  invocations : ℕ
  /-- The executed ones. -/
  executions : ℕ
  /-- The hits. -/
  hits : ℕ
  /-- The executed ones without usage. -/
  unknown : ℕ

/-- Nothing counted. -/
def Rollup.empty : Rollup := ⟨[],[],0,0,0,0⟩

/-- The token axis of an event. -/
def SessionEventRow.axis (row : SessionEventRow) : PyStr × PyStr := (row.client,row.model)

/-- The day of an event. -/
def SessionEventRow.day (row : SessionEventRow) : PyStr := row.ts.take 10

/-- An executed call that reported no tokens. -/
def isUnknown (usageOf : SessionEventRow → Option TokenUsage) (row : SessionEventRow) : Bool :=
  isExecuted row.event && (tokens (usageOf row)).isNone

/-- One turn of the loop. -/
def Rollup.count (usageOf : SessionEventRow → Option TokenUsage) (r : Rollup) (row : SessionEventRow) :
    Rollup where
  models := bump ModelCounts.zero row.axis (ModelCounts.count (usageOf row) row.event) r.models
  days := bump DayCounts.zero row.day (DayCounts.count row.event) r.days
  invocations := r.invocations+1
  executions := r.executions+(isExecuted row.event).toNat
  hits := r.hits+(decide (row.event=.hit)).toNat
  unknown := r.unknown+(isUnknown usageOf row).toNat

/-- The loop of `build_session_report`. -/
def rollup (usageOf : SessionEventRow → Option TokenUsage) (events : List SessionEventRow) : Rollup :=
  events.foldl (Rollup.count usageOf) Rollup.empty

/-- Token usage of one (client, model) within a session. -/
structure ModelUsage where
  /-- The client's name. -/
  client : PyStr
  /-- The model. -/
  model : PyStr
  /-- Input tokens spent. -/
  spentInput : ℤ
  /-- Output tokens spent. -/
  spentOutput : ℤ
  /-- Tokens read from the provider's cache. -/
  cacheReadTokens : ℤ
  /-- Tokens written to it. -/
  cacheWriteTokens : ℤ
  /-- Reasoning tokens. -/
  reasoningTokens : ℤ
  /-- Tokens saved by hits. -/
  savedTokens : ℤ
  /-- The executed events. -/
  executions : ℕ
  /-- The hits. -/
  hits : ℕ
deriving DecidableEq

/-- Activity of one day of a session. -/
structure DayActivity where
  /-- The day. -/
  day : PyStr
  /-- The events. -/
  invocations : ℕ
  /-- The executed ones. -/
  executions : ℕ
  /-- The hits. -/
  hits : ℕ
deriving DecidableEq

/-- The roll-up of one session. -/
structure SessionReport where
  /-- The session. -/
  sessionId : PyStr
  /-- The events. -/
  invocations : ℕ
  /-- The executed ones. -/
  executions : ℕ
  /-- The hits. -/
  hits : ℕ
  /-- The executed ones without usage. -/
  unknownUsage : ℕ
  /-- When the first event was written. -/
  spanStart : Option PyStr
  /-- When the last event was written. -/
  spanEnd : Option PyStr
  /-- The usage of each (client, model). -/
  byModel : List ModelUsage
  /-- The activity of each day. -/
  byDay : List DayActivity
  /-- The runs with an artifact that failed. -/
  runsWithFailedPersistence : ℕ
deriving DecidableEq

/-- The entry of one model. -/
def modelUsage (entry : (PyStr × PyStr) × ModelCounts) : ModelUsage where
  client := entry.1.1
  model := entry.1.2
  spentInput := entry.2.tokensIn
  spentOutput := entry.2.tokensOut
  cacheReadTokens := entry.2.cacheRead
  cacheWriteTokens := entry.2.cacheWrite
  reasoningTokens := entry.2.reasoning
  savedTokens := entry.2.saved
  executions := entry.2.executions
  hits := entry.2.hits

/-- The entry of one day. -/
def dayActivity (entry : PyStr × DayCounts) : DayActivity where
  day := entry.1
  invocations := entry.2.invocations
  executions := entry.2.executions
  hits := entry.2.hits

/-- The order of Python tuples of two texts. -/
def axisLe (a b : PyStr × PyStr) : Prop := a.1 < b.1 ∨ a.1=b.1 ∧ a.2 ≤ b.2

instance : DecidableRel axisLe := fun a b => by unfold axisLe; infer_instance

/-- `sorted(models.items())`, its keys being distinct. -/
def sortedModels (models : List ((PyStr × PyStr) × ModelCounts)) : List ((PyStr × PyStr) × ModelCounts) :=
  models.insertionSort fun a b => axisLe a.1 b.1

/-- `sorted(days.items())`, its keys being distinct. -/
def sortedDays (days : List (PyStr × DayCounts)) : List (PyStr × DayCounts) :=
  days.insertionSort fun a b => a.1 ≤ b.1

/-- The report of a finished loop. -/
def Rollup.report (r : Rollup) (sessionId : PyStr) (failedPersistenceCount : ℕ) : SessionReport :=
  let byDay := (sortedDays r.days).map dayActivity
  { sessionId := sessionId
    invocations := r.invocations
    executions := r.executions
    hits := r.hits
    unknownUsage := r.unknown
    spanStart := byDay.head?.map (·.day)
    spanEnd := byDay.getLast?.map (·.day)
    byModel := (sortedModels r.models).map modelUsage
    byDay := byDay
    runsWithFailedPersistence := failedPersistenceCount }

/-- `usage_by_key.get(row.execution_key) if row.execution_key else None`. -/
def rowUsage (usageByKey : List (ExecutionKey × TokenUsage)) (row : SessionEventRow) : Option TokenUsage :=
  row.executionKey.bind fun key =>
    (usageByKey.find? fun entry => decide (entry.1=key)).map (·.2)

/-- `build_session_report`. -/
def buildSessionReport (sessionId : PyStr) (events : List SessionEventRow)
    (usageByKey : List (ExecutionKey × TokenUsage)) (failedPersistenceCount : ℕ) : SessionReport :=
  (rollup (rowUsage usageByKey) events).report sessionId failedPersistenceCount

/-- `{e.execution_key for e in events if e.execution_key}`. -/
def sessionKeys (events : List SessionEventRow) : List ExecutionKey :=
  (events.filterMap (·.executionKey)).eraseDups

/-- The loop of `_usage_by_key`. -/
def usageOfKeys (db : Db) : List ExecutionKey → Except PyExc (List (ExecutionKey × TokenUsage))
  | [] => .ok []
  | key::rest => do
    let execution ← findCurrent key db
    let others ← usageOfKeys db rest
    match execution.bind (·.tokenUsage) with
    | none => return others
    | some usage => return (key,usage)::others

/-- `_usage_by_key`. -/
def usageByKey (db : Db) (events : List SessionEventRow) : Except PyExc (List (ExecutionKey × TokenUsage)) :=
  usageOfKeys db (sessionKeys events)

/-- `_failed_persistence_count`. -/
def failedPersistenceCount (db : Db) (events : List SessionEventRow) : Except PyExc ℕ :=
  if (sessionKeys events).isEmpty=true then .ok 0
  else do
    let runs ← runsAwaitingPersistence db
    return (sessionKeys events).countP fun key => runs.any fun run => decide (run.executionKey=key)

/-- The row of one journal entry, with the time it was recorded at. -/
def sessionEventRow (ts : PyStr) (entry : JournalEntry) : SessionEventRow where
  ts := ts
  event := entry.event
  client := entry.client
  model := entry.model
  executionKey := some entry.executionKey

/-- `session_events`, oldest first. `stamps` are the times of the journal's rows. -/
def sessionEvents (stamps : ℕ → PyStr) (journal : List JournalEntry) (sessionId : PyStr) :
    List SessionEventRow :=
  (journal.zipIdx.filter fun e => decide (e.1.sessionId=some sessionId)).map
    fun e => sessionEventRow (stamps e.2) e.1

section Service
variable (stamps : ℕ → PyStr) (sessionIdsForTag : PyStr → List PyStr)

/-- The report on a list of events. -/
def reportOn (name : PyStr) (events : List SessionEventRow) (db : Db) : Except PyExc SessionReport := do
  let usage ← usageByKey db events
  let failed ← failedPersistenceCount db events
  return buildSessionReport name events usage failed

/-- `report_for_session`. -/
def reportForSession (sessionId : PyStr) (w : World) : Except PyExc SessionReport :=
  reportOn sessionId (sessionEvents stamps w.journal sessionId) w.db

/-- The events of every session carrying a tag. -/
def tagEvents (tag : PyStr) (journal : List JournalEntry) : List SessionEventRow :=
  (sessionIdsForTag tag).flatMap (sessionEvents stamps journal)

/-- `report_for_tag`: the report, and how many sessions it covers. -/
def reportForTag (tag : PyStr) (w : World) : Except PyExc (SessionReport × ℕ) := do
  let report ← reportOn tag (tagEvents stamps sessionIdsForTag tag w.journal) w.db
  return (report,(sessionIdsForTag tag).length)

end Service

section Loop
variable (usageOf : SessionEventRow → Option TokenUsage)

/-- The counters of one model after the loop. -/
def modelCounts (events : List SessionEventRow) (axis : PyStr × PyStr) : ModelCounts :=
  groupOf ModelCounts.zero SessionEventRow.axis
    (fun row => ModelCounts.count (usageOf row) row.event) events axis

/-- The loop, one component at a time. -/
theorem rollup_eq (events : List SessionEventRow) :
    rollup usageOf events=
      { models := tally ModelCounts.zero SessionEventRow.axis
          (fun row => ModelCounts.count (usageOf row) row.event) events
        days := tally DayCounts.zero SessionEventRow.day (fun row => DayCounts.count row.event) events
        invocations := events.length
        executions := events.countP fun row => isExecuted row.event
        hits := events.countP fun row => decide (row.event=.hit)
        unknown := events.countP (isUnknown usageOf) } := by
  induction events using List.reverseRecOn with
  | nil => rfl
  | append_singleton events row ih =>
    have hstep : rollup usageOf (events ++ [row])=(rollup usageOf events).count usageOf row := by
      simp [rollup,List.foldl_append]
    rw [hstep,ih]
    simp only [Rollup.count,tally,List.foldl_append,List.foldl_cons,List.foldl_nil,List.length_append,
      List.length_singleton,List.countP_append,List.countP_singleton]
    congr 1 <;> (split <;> simp_all)

variable {usageOf}

/-- The loop reads the usage of its own events only. -/
theorem rollup_congr {usageOf' : SessionEventRow → Option TokenUsage} {events : List SessionEventRow}
    (h : ∀ row∈events,usageOf row=usageOf' row) : rollup usageOf events=rollup usageOf' events := by
  induction events using List.reverseRecOn with
  | nil => rfl
  | append_singleton events row ih =>
    have hrow : usageOf row=usageOf' row := h row (by simp)
    have hrest := ih fun row' hmem => h row' (List.mem_append_left _ hmem)
    have hstep : (rollup usageOf' events).count usageOf row=(rollup usageOf' events).count usageOf' row := by
      simp only [Rollup.count,isUnknown,hrow]
    unfold rollup at hrest hstep ⊢
    rw [List.foldl_append,List.foldl_append,hrest]
    exact hstep

/-- What one event saves. -/
def savedOf (usageOf : SessionEventRow → Option TokenUsage) (row : SessionEventRow) : ℤ :=
  if row.event=.hit then (tokens (usageOf row)).getD 0 else 0

/-- What one event spends of a counter, where its usage is counted. -/
def spentOf (counter : TokenUsage → Option ℤ) (usageOf : SessionEventRow → Option TokenUsage)
    (row : SessionEventRow) : ℤ :=
  if isExecuted row.event=true then
    match usageOf row,tokens (usageOf row) with
    | some usage,some _ => (counter usage).getD 0
    | _,_ => 0
  else 0

/-- What one event adds to the counters of its model. -/
def addedCounts (usageOf : SessionEventRow → Option TokenUsage) (row : SessionEventRow) : ModelCounts where
  tokensIn := spentOf (·.inputTokens) usageOf row
  tokensOut := spentOf (·.outputTokens) usageOf row
  cacheRead := spentOf (·.cacheReadTokens) usageOf row
  cacheWrite := spentOf (·.cacheWriteTokens) usageOf row
  reasoning := spentOf (·.reasoningTokens) usageOf row
  saved := savedOf usageOf row
  executions := (isExecuted row.event).toNat
  hits := (decide (row.event=.hit)).toNat

/-- Counters added one by one. -/
def ModelCounts.plus (c d : ModelCounts) : ModelCounts where
  tokensIn := c.tokensIn+d.tokensIn
  tokensOut := c.tokensOut+d.tokensOut
  cacheRead := c.cacheRead+d.cacheRead
  cacheWrite := c.cacheWrite+d.cacheWrite
  reasoning := c.reasoning+d.reasoning
  saved := c.saved+d.saved
  executions := c.executions+d.executions
  hits := c.hits+d.hits

/-- Counting an event adds what it adds. -/
theorem count_eq_plus (row : SessionEventRow) (c : ModelCounts) :
    c.count (usageOf row) row.event=c.plus (addedCounts usageOf row) := by
  unfold ModelCounts.count addedCounts ModelCounts.plus savedOf spentOf
  by_cases hhit : row.event=.hit
  · simp [hhit]
  · by_cases hexec : isExecuted row.event=true
    · simp only [hhit,hexec,if_true,if_false]
      unfold ModelCounts.spend
      split <;> simp_all
    · simp [hhit,hexec]

/-- The events of one model. -/
def axisEvents (events : List SessionEventRow) (axis : PyStr × PyStr) : List SessionEventRow :=
  events.filter fun row => decide (row.axis=axis)

/-- The counters of a model are the sums of what its events add. -/
theorem modelCounts_eq (events : List SessionEventRow) (axis : PyStr × PyStr) :
    modelCounts usageOf events axis=
      { tokensIn := ((axisEvents events axis).map (spentOf (·.inputTokens) usageOf)).sum
        tokensOut := ((axisEvents events axis).map (spentOf (·.outputTokens) usageOf)).sum
        cacheRead := ((axisEvents events axis).map (spentOf (·.cacheReadTokens) usageOf)).sum
        cacheWrite := ((axisEvents events axis).map (spentOf (·.cacheWriteTokens) usageOf)).sum
        reasoning := ((axisEvents events axis).map (spentOf (·.reasoningTokens) usageOf)).sum
        saved := ((axisEvents events axis).map (savedOf usageOf)).sum
        executions := ((axisEvents events axis).map fun row => (isExecuted row.event).toNat).sum
        hits := ((axisEvents events axis).map fun row => (decide (row.event=.hit)).toNat).sum } := by
  have hsum : ∀ {α : Type} [AddMonoid α] (component : ModelCounts → α),
      (∀ c d : ModelCounts,component (c.plus d)=component c+component d) → component ModelCounts.zero=0 →
      component (modelCounts usageOf events axis)=
        ((axisEvents events axis).map fun row => component (addedCounts usageOf row)).sum := by
    intro α _ component hplus hzero
    have hfold := foldl_component (fun row c => ModelCounts.count (usageOf row) row.event c) component
      (fun row => component (addedCounts usageOf row))
      (fun row c => by rw [count_eq_plus,hplus]) (axisEvents events axis) ModelCounts.zero
    rw [hzero,zero_add] at hfold
    exact hfold
  have hcounts : ∀ c d : ModelCounts,c.tokensIn=d.tokensIn → c.tokensOut=d.tokensOut →
      c.cacheRead=d.cacheRead → c.cacheWrite=d.cacheWrite → c.reasoning=d.reasoning → c.saved=d.saved →
      c.executions=d.executions → c.hits=d.hits → c=d := by
    intro c d h1 h2 h3 h4 h5 h6 h7 h8
    cases c
    cases d
    simp_all
  refine hcounts _ _ ?_ ?_ ?_ ?_ ?_ ?_ ?_ ?_
  · exact hsum (·.tokensIn) (fun _ _ => rfl) rfl
  · exact hsum (·.tokensOut) (fun _ _ => rfl) rfl
  · exact hsum (·.cacheRead) (fun _ _ => rfl) rfl
  · exact hsum (·.cacheWrite) (fun _ _ => rfl) rfl
  · exact hsum (·.reasoning) (fun _ _ => rfl) rfl
  · exact hsum (·.saved) (fun _ _ => rfl) rfl
  · exact hsum (·.executions) (fun _ _ => rfl) rfl
  · exact hsum (·.hits) (fun _ _ => rfl) rfl

end Loop

/-- The usage that the report finds for a key. -/
def currentUsage (db : Db) (key : ExecutionKey) : Option TokenUsage :=
  match findCurrent key db with
  | .ok found => found.bind (·.tokenUsage)
  | .error _ => none

/-- The usage that the report joins to an event. -/
def joinedUsage (db : Db) (row : SessionEventRow) : Option TokenUsage :=
  row.executionKey.bind (currentUsage db)

/-- In a well-formed database every key is looked up, and only usages found are kept. -/
theorem usageOfKeys_ok {db : Db} (hwf : WellFormed db) (keys : List ExecutionKey) :
    ∃ usage,usageOfKeys db keys=.ok usage ∧
      (∀ entry∈usage,currentUsage db entry.1=some entry.2) ∧
      ∀ key∈keys,∀ u,currentUsage db key=some u → ∃ entry∈usage,entry.1=key := by
  induction keys with
  | nil => exact ⟨[],rfl,fun _ h => (nomatch h),fun _ h => (nomatch h)⟩
  | cons key keys ih =>
    obtain ⟨others,hothers,honly,hall⟩ := ih
    obtain ⟨found,hfound⟩ := (Readable.of_wellFormed hwf key).find
    have hcurrent : currentUsage db key=found.bind (·.tokenUsage) := by
      simp only [currentUsage,hfound]
    have hrun : usageOfKeys db (key::keys)=
        match found.bind (·.tokenUsage) with
        | none => .ok others
        | some usage => .ok ((key,usage)::others) := by
      simp only [usageOfKeys,hfound,hothers]
      show (match found.bind (·.tokenUsage) with
        | none => _
        | some usage => _)=_
      split <;> rfl
    cases husage : found.bind (·.tokenUsage) with
    | none =>
      refine ⟨others,by rw [hrun,husage],honly,fun key' hmem u hu => ?_⟩
      rcases List.mem_cons.mp hmem with rfl | hmem
      · rw [hcurrent,husage] at hu
        exact nomatch hu
      · exact hall key' hmem u hu
    | some usage =>
      refine ⟨(key,usage)::others,by rw [hrun,husage],fun entry hentry => ?_,fun key' hmem u hu => ?_⟩
      · rcases List.mem_cons.mp hentry with rfl | hentry
        · exact hcurrent.trans husage
        · exact honly entry hentry
      · rcases List.mem_cons.mp hmem with rfl | hmem
        · exact ⟨_,List.mem_cons_self,rfl⟩
        · obtain ⟨entry,hentry,hkey⟩ := hall key' hmem u hu
          exact ⟨entry,List.mem_cons_of_mem _ hentry,hkey⟩

/-- In a well-formed database the usage joined to each event is its key's current one. -/
theorem usageByKey_spec {db : Db} (hwf : WellFormed db) (events : List SessionEventRow) :
    ∃ usage,usageByKey db events=.ok usage ∧ ∀ row∈events,rowUsage usage row=joinedUsage db row := by
  obtain ⟨usage,hok,honly,hall⟩ := usageOfKeys_ok hwf (sessionKeys events)
  refine ⟨usage,hok,fun row hrow => ?_⟩
  unfold rowUsage joinedUsage
  cases hkey : row.executionKey with
  | none => rfl
  | some key =>
    have hmem : key∈sessionKeys events := by
      rw [sessionKeys,List.mem_eraseDups,List.mem_filterMap]
      exact ⟨row,hrow,hkey⟩
    rw [Option.bind_some,Option.bind_some]
    cases hfind : usage.find? fun entry => decide (entry.1=key) with
    | some entry =>
      have hentry : entry.1=key := by simpa using List.find?_some hfind
      rw [Option.map_some,← honly entry (List.mem_of_find?_eq_some hfind),hentry]
    | none =>
      cases hu : currentUsage db key with
      | none => rfl
      | some u =>
        obtain ⟨entry,hentry,heq⟩ := hall key hmem u hu
        have hnot := List.find?_eq_none.mp hfind entry hentry
        simp [heq] at hnot

/-- The awaiting runs of a well-formed database are listed. -/
theorem runsAwaitingPersistence_total {db : Db} (hwf : WellFormed db) :
    ∃ runs,runsAwaitingPersistence db=.ok runs := by
  refine mapM_total fun row hrow => ?_
  have hmem := (List.mem_filter.mp ((List.mem_insertionSort _).mp hrow)).1
  have harts := ((wellFormed_iff _).mp (hwf.columns row hmem)).2.2.2.1
  have hdecode : ∃ keys,((row.artifacts.filter notStored).mapM fun a => a.blobKey.decode)=.ok keys := by
    refine mapM_total fun a ha => ?_
    have hwa := harts a (List.mem_filter.mp ha).1
    simp only [ArtifactRow.wellFormed,Bool.and_eq_true] at hwa
    exact Column.decode_of_isValue hwa.1.2
  obtain ⟨keys,hkeys⟩ := hdecode
  exact ⟨⟨row.executionKey,row.executionId,keys.eraseDups⟩,by simp only [unpersistedRun,hkeys]⟩

/-- In a well-formed database the report is the loop over the joined events. -/
theorem reportOn_ok {db : Db} (hwf : WellFormed db) (name : PyStr) (events : List SessionEventRow) :
    ∃ failed,reportOn name events db=.ok ((rollup (joinedUsage db) events).report name failed) := by
  obtain ⟨usage,husage,hjoin⟩ := usageByKey_spec hwf events
  have hfailed : ∃ failed,failedPersistenceCount db events=.ok failed := by
    unfold failedPersistenceCount
    split
    · exact ⟨0,rfl⟩
    · obtain ⟨runs,hruns⟩ := runsAwaitingPersistence_total hwf
      exact ⟨_,by rw [hruns]; rfl⟩
  obtain ⟨failed,hfailed⟩ := hfailed
  refine ⟨failed,?_⟩
  simp only [reportOn,husage,hfailed]
  show Except.ok (buildSessionReport name events usage failed)=_
  rw [buildSessionReport,rollup_congr hjoin]

/-- The reports agree, but for the runs awaiting persistence. -/
def SameHistory (report report' : SessionReport) : Prop :=
  { report with runsWithFailedPersistence := 0 }={ report' with runsWithFailedPersistence := 0 }

/-- Reports of two joins over the same events agree where every counter does. -/
theorem sameHistory_iff (usageOf usageOf' : SessionEventRow → Option TokenUsage)
    (events : List SessionEventRow) (name : PyStr) (failed failed' : ℕ) :
    SameHistory ((rollup usageOf events).report name failed) ((rollup usageOf' events).report name failed') ↔
      events.countP (isUnknown usageOf)=events.countP (isUnknown usageOf') ∧
      ∀ row∈events,modelCounts usageOf events row.axis=modelCounts usageOf' events row.axis := by
  have hinjective : Function.Injective modelUsage := by
    rintro ⟨⟨client,model⟩,c⟩ ⟨⟨client',model'⟩,c'⟩ h
    cases c
    cases c'
    simp only [modelUsage,ModelUsage.mk.injEq] at h
    simp [h]
  have htabulated : ∀ u : SessionEventRow → Option TokenUsage,(rollup u events).models=
      (groupKeys SessionEventRow.axis events).map fun axis => (axis,modelCounts u events axis) := by
    intro u
    rw [rollup_eq]
    exact tally_eq _ _ _ _
  have hmodels : (sortedModels (rollup usageOf events).models).map modelUsage=
      (sortedModels (rollup usageOf' events).models).map modelUsage ↔
      ∀ row∈events,modelCounts usageOf events row.axis=modelCounts usageOf' events row.axis := by
    rw [(List.map_injective_iff.mpr hinjective).eq_iff,htabulated,htabulated]
    refine (sort_map_eq_iff axisLe _ _ _).trans ?_
    constructor
    · intro h row hrow
      exact h row.axis (mem_groupKeys.mpr ⟨row,hrow,rfl⟩)
    · intro h axis haxis
      obtain ⟨row,hrow,rfl⟩ := mem_groupKeys.mp haxis
      exact h row hrow
  rw [← hmodels]
  unfold SameHistory Rollup.report
  simp only [SessionReport.mk.injEq]
  rw [rollup_eq usageOf,rollup_eq usageOf']
  tauto

/-- The key of the event was purged. -/
def isPurged (purged : List ExecutionKey) (row : SessionEventRow) : Bool :=
  row.executionKey.any fun key => decide (key∈purged)

/-- A join that has lost the usage of the purged keys. -/
def lostUsage (usageOf : SessionEventRow → Option TokenUsage) (purged : List ExecutionKey)
    (row : SessionEventRow) : Option TokenUsage :=
  if isPurged purged row=true then none else usageOf row

/-- The HITs of one model on purged keys. -/
def purgedHits (purged : List ExecutionKey) (events : List SessionEventRow) (axis : PyStr × PyStr) :
    List SessionEventRow :=
  (axisEvents events axis).filter fun row => decide (row.event=.hit) && isPurged purged row

/-- Nothing is lost with the purged keys: none of them carried tokens of an
executed event, and what they saved comes to zero for each model. -/
structure NothingLost (usageOf : SessionEventRow → Option TokenUsage) (purged : List ExecutionKey)
    (events : List SessionEventRow) : Prop where
  /-- No executed event of a purged key carried tokens. -/
  spent : ∀ row∈events,isExecuted row.event=true → isPurged purged row=true → tokens (usageOf row)=none
  /-- What their hits saved comes to zero for each model. -/
  saved : ∀ axis,((purgedHits purged events axis).map fun row => (tokens (usageOf row)).getD 0).sum=0

section Lost
variable {usageOf : SessionEventRow → Option TokenUsage} {purged : List ExecutionKey}
  {events : List SessionEventRow}

/-- The calls counted as unknown stay the same exactly where no executed event lost tokens. -/
theorem unknown_lost_iff :
    events.countP (isUnknown usageOf)=events.countP (isUnknown (lostUsage usageOf purged)) ↔
      ∀ row∈events,isExecuted row.event=true → isPurged purged row=true → tokens (usageOf row)=none := by
  have hmore : ∀ row∈events,isUnknown usageOf row=true → isUnknown (lostUsage usageOf purged) row=true := by
    intro row _ h
    unfold isUnknown lostUsage at *
    split
    · simp only [Bool.and_eq_true] at h
      simp [h.1,tokens]
    · exact h
  refine (countP_eq_iff hmore).trans ⟨fun h row hrow hexec hpurged => ?_,fun h row hrow hunknown => ?_⟩
  · have hlost : isUnknown (lostUsage usageOf purged) row=true := by
      simp [isUnknown,lostUsage,hexec,hpurged,tokens]
    have hknown := h row hrow hlost
    simp only [isUnknown,Bool.and_eq_true,Option.isNone_iff_eq_none] at hknown
    exact hknown.2
  · simp only [isUnknown,Bool.and_eq_true,Option.isNone_iff_eq_none] at hunknown ⊢
    refine ⟨hunknown.1,?_⟩
    by_cases hpurged : isPurged purged row=true
    · exact h row hrow hunknown.1 hpurged
    · have hnone := hunknown.2
      rw [lostUsage,if_neg hpurged] at hnone
      exact hnone

/-- An executed event that lost nothing spends the same. -/
theorem spentOf_lost (counter : TokenUsage → Option ℤ) {row : SessionEventRow}
    (h : isExecuted row.event=true → isPurged purged row=true → tokens (usageOf row)=none) :
    spentOf counter (lostUsage usageOf purged) row=spentOf counter usageOf row := by
  unfold spentOf
  by_cases hexec : isExecuted row.event=true
  · rw [if_pos hexec,if_pos hexec]
    by_cases hpurged : isPurged purged row=true
    · have hnone := h hexec hpurged
      rw [lostUsage,if_pos hpurged,hnone]
      cases usageOf row <;> rfl
    · rw [lostUsage,if_neg hpurged]
  · rw [if_neg hexec,if_neg hexec]

/-- What a model saved is what it still does and what the purged HITs took along. -/
theorem saved_lost (axis : PyStr × PyStr) :
    ((axisEvents events axis).map (savedOf usageOf)).sum=
      ((axisEvents events axis).map (savedOf (lostUsage usageOf purged))).sum+
        ((purgedHits purged events axis).map fun row => (tokens (usageOf row)).getD 0).sum := by
  rw [purgedHits,sum_filter_map,← List.sum_map_add]
  congr 1
  refine List.map_congr_left fun row _ => ?_
  unfold savedOf lostUsage
  by_cases hhit : row.event=.hit
  · by_cases hpurged : isPurged purged row=true
    · simp [hhit,hpurged,tokens]
    · simp [hhit,hpurged]
  · simp [hhit]

/-- The reports agree exactly where nothing was lost. -/
theorem sameHistory_lost_iff (name : PyStr) (failed failed' : ℕ) :
    SameHistory ((rollup usageOf events).report name failed)
        ((rollup (lostUsage usageOf purged) events).report name failed') ↔
      NothingLost usageOf purged events := by
  rw [sameHistory_iff,unknown_lost_iff]
  have hsame : (∀ row∈events,isExecuted row.event=true → isPurged purged row=true →
      tokens (usageOf row)=none) → ∀ axis,
      (modelCounts usageOf events axis=modelCounts (lostUsage usageOf purged) events axis ↔
        ((purgedHits purged events axis).map fun row => (tokens (usageOf row)).getD 0).sum=0) := by
    intro hspent axis
    have hcounter : ∀ counter : TokenUsage → Option ℤ,
        (axisEvents events axis).map (spentOf counter (lostUsage usageOf purged))=
          (axisEvents events axis).map (spentOf counter usageOf) := by
      intro counter
      refine List.map_congr_left fun row hrow => spentOf_lost counter ?_
      exact hspent row (List.mem_filter.mp hrow).1
    have hsaved := @saved_lost usageOf purged events axis
    rw [modelCounts_eq,modelCounts_eq]
    simp only [ModelCounts.mk.injEq,hcounter,true_and,and_true]
    constructor
    · intro h
      omega
    · intro h
      omega
  constructor
  · rintro ⟨hspent,hmodels⟩
    refine ⟨hspent,fun axis => ?_⟩
    by_cases hany : ∃ row∈events,row.axis=axis
    · obtain ⟨row,hrow,rfl⟩ := hany
      exact (hsame hspent _).mp (hmodels row hrow)
    · have hnone : axisEvents events axis=[] := by
        rw [axisEvents,List.filter_eq_nil_iff]
        intro row hrow haxis
        exact hany ⟨row,hrow,by simpa using haxis⟩
      rw [purgedHits,hnone]
      rfl
  · rintro ⟨hspent,hsaved⟩
    exact ⟨hspent,fun row _ => (hsame hspent _).mpr (hsaved _)⟩

end Lost

end GenericMlCache.SessionReports
