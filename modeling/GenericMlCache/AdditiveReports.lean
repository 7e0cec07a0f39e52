import GenericMlCache.SessionReports

/-!
# Session reports add up

The report on a list of events is a sum over the events: it does not depend on
their order, the report on two lists is the sum of the two reports, and its
totals are those of its days and of its models.
-/

namespace GenericMlCache.AdditiveReports

open PythonText ExecutionModel GroupedCounts SessionReports

/-- A journal row as it is read. Its time may be missing and its event is any text. -/
structure JournalRow where
  /-- When it was written. -/
  ts : Option PyStr
  /-- The text of the event. -/
  event : PyStr
  /-- The client's name. -/
  client : PyStr
  /-- The model. -/
  model : PyStr
  /-- The key of the call. -/
  executionKey : Option ExecutionKey

/-- The event of a text. A text that names no event counts as a miss does: as an invocation only. -/
def eventOfText (text : PyStr) : JournalEvent :=
  if text=pyStr "hit" then .hit
  else if text=pyStr "record" then .record
  else if text=pyStr "run" then .run
  else if text=pyStr "would_hit" then .wouldHit
  else if text=pyStr "would_miss" then .wouldMiss
  else .miss

/-- The row, by what the projection reads of it. -/
def JournalRow.row (row : JournalRow) : SessionEventRow :=
  ⟨row.ts.getD [],eventOfText row.event,row.client,row.model,row.executionKey⟩

/-- `build_session_report`, over rows of any event. -/
def buildReport (sessionId : PyStr) (rows : List JournalRow) (usageByKey : List (ExecutionKey × TokenUsage))
    (failedPersistenceCount : ℕ) : SessionReport :=
  buildSessionReport sessionId (rows.map JournalRow.row) usageByKey failedPersistenceCount

instance : Zero ModelCounts := ⟨ModelCounts.zero⟩
instance : Add ModelCounts := ⟨ModelCounts.plus⟩

instance : AddCommMonoid ModelCounts where
  add_assoc a b c := by
    show (a.plus b).plus c=a.plus (b.plus c)
    simp [ModelCounts.plus,add_assoc]
  zero_add a := by
    show ModelCounts.zero.plus a=a
    simp [ModelCounts.plus,ModelCounts.zero]
  add_zero a := by
    show a.plus ModelCounts.zero=a
    simp [ModelCounts.plus,ModelCounts.zero]
  add_comm a b := by
    show a.plus b=b.plus a
    simp [ModelCounts.plus,add_comm]
  nsmul := nsmulRec

/-- Counters of a day added one by one. -/
def DayCounts.plus (c d : DayCounts) : DayCounts :=
  ⟨c.invocations+d.invocations,c.executions+d.executions,c.hits+d.hits⟩

instance : Zero DayCounts := ⟨DayCounts.zero⟩
instance : Add DayCounts := ⟨DayCounts.plus⟩

instance : AddCommMonoid DayCounts where
  add_assoc a b c := by
    show DayCounts.plus (DayCounts.plus a b) c=DayCounts.plus a (DayCounts.plus b c)
    simp [DayCounts.plus,add_assoc]
  zero_add a := by
    show DayCounts.plus DayCounts.zero a=a
    simp [DayCounts.plus,DayCounts.zero]
  add_zero a := by
    show DayCounts.plus a DayCounts.zero=a
    simp [DayCounts.plus,DayCounts.zero]
  add_comm a b := by
    show DayCounts.plus a b=DayCounts.plus b a
    simp [DayCounts.plus,add_comm]
  nsmul := nsmulRec

/-- What one event adds to the counters of its day. -/
def addedDay (row : SessionEventRow) : DayCounts :=
  ⟨1,(isExecuted row.event).toNat,(decide (row.event=.hit)).toNat⟩

instance : Std.Total axisLe where
  total a b := by
    unfold axisLe
    grind

instance : IsTrans (PyStr × PyStr) axisLe where
  trans a b c hab hbc := by
    unfold axisLe at hab hbc ⊢
    grind

instance : Std.Antisymm axisLe where
  antisymm a b hab hba := by
    unfold axisLe at hab hba
    have hfst : a.1=b.1 := by grind
    have hsnd : a.2=b.2 := by grind
    exact Prod.ext hfst hsnd

/-- The counters of an entry, under its model. -/
def modelEntry (usage : ModelUsage) : (PyStr × PyStr) × ModelCounts :=
  ((usage.client,usage.model),⟨usage.spentInput,usage.spentOutput,usage.cacheReadTokens,usage.cacheWriteTokens,
    usage.reasoningTokens,usage.savedTokens,usage.executions,usage.hits⟩)

/-- The counters of an entry, under its day. -/
def dayEntry (activity : DayActivity) : PyStr × DayCounts :=
  (activity.day,⟨activity.invocations,activity.executions,activity.hits⟩)

/-- The componentwise sum of two reports, merged by model and by day, over the span of both. -/
def SessionReport.plus (r s : SessionReport) : SessionReport where
  sessionId := r.sessionId
  invocations := r.invocations+s.invocations
  executions := r.executions+s.executions
  hits := r.hits+s.hits
  unknownUsage := r.unknownUsage+s.unknownUsage
  spanStart := pick (fun a b => a ≤ b) r.spanStart s.spanStart
  spanEnd := pick (fun a b => b ≤ a) r.spanEnd s.spanEnd
  byModel := (mergeTables axisLe (r.byModel.map modelEntry) (s.byModel.map modelEntry)).map modelUsage
  byDay := (mergeTables (fun a b => a ≤ b) (r.byDay.map dayEntry) (s.byDay.map dayEntry)).map dayActivity
  runsWithFailedPersistence := r.runsWithFailedPersistence+s.runsWithFailedPersistence

/-- The totals of a report are those of its days and of its models, and every execution's
usage is known or unknown. -/
structure Balanced (known : ℕ) (r : SessionReport) : Prop where
  /-- The days add up to the invocations. -/
  invocationsByDay : r.invocations=(r.byDay.map (·.invocations)).sum
  /-- The days add up to the executions. -/
  executionsByDay : r.executions=(r.byDay.map (·.executions)).sum
  /-- The days add up to the hits. -/
  hitsByDay : r.hits=(r.byDay.map (·.hits)).sum
  /-- The models add up to the executions. -/
  executionsByModel : r.executions=(r.byModel.map (·.executions)).sum
  /-- The models add up to the hits. -/
  hitsByModel : r.hits=(r.byModel.map (·.hits)).sum
  /-- Every execution's usage is known or unknown. -/
  usage : r.unknownUsage+known=r.executions

section Loop
variable (usageOf : SessionEventRow → Option TokenUsage) (events : List SessionEventRow)

/-- The models of a report, in order. -/
theorem models_eq : sortedModels (rollup usageOf events).models=
    table axisLe SessionEventRow.axis (addedCounts usageOf) events := by
  rw [rollup_eq]
  exact sort_tally axisLe _ (fun row c => count_eq_plus row c) events

/-- The days of a report, in order. -/
theorem days_eq : sortedDays (rollup usageOf events).days=
    table (fun a b => a ≤ b) SessionEventRow.day addedDay events := by
  rw [rollup_eq]
  have hcount : ∀ (row : SessionEventRow) (c : DayCounts),c.count row.event=c+addedDay row := fun _ _ => rfl
  exact sort_tally (fun a b : PyStr => a ≤ b) SessionEventRow.day hcount events

/-- The report by model, as a table. -/
theorem report_byModel (name : PyStr) (failed : ℕ) :
    ((rollup usageOf events).report name failed).byModel=
      (table axisLe SessionEventRow.axis (addedCounts usageOf) events).map modelUsage := by
  rw [← models_eq]
  rfl

/-- The report by day, as a table. -/
theorem report_byDay (name : PyStr) (failed : ℕ) :
    ((rollup usageOf events).report name failed).byDay=
      (table (fun a b => a ≤ b) SessionEventRow.day addedDay events).map dayActivity := by
  rw [← days_eq]
  rfl

/-- The days of a report are the days of its events, sorted. -/
theorem report_days (name : PyStr) (failed : ℕ) :
    ((rollup usageOf events).report name failed).byDay.map (·.day)=
      (groupKeys SessionEventRow.day events).insertionSort fun a b => a ≤ b := by
  rw [report_byDay,table,List.map_map,List.map_map]
  exact List.map_id _

/-- The span of a report starts on its events' first day. -/
theorem report_spanStart (name : PyStr) (failed : ℕ) :
    IsFirst (fun a b => a ≤ b) (groupKeys SessionEventRow.day events)
      ((rollup usageOf events).report name failed).spanStart := by
  have hstart : ((rollup usageOf events).report name failed).spanStart=
      (((rollup usageOf events).report name failed).byDay.map (·.day)).head? := by
    rw [List.head?_map]
    rfl
  rw [hstart,report_days]
  exact isFirst_head _ _

/-- The span of a report ends on its events' last day. -/
theorem report_spanEnd (name : PyStr) (failed : ℕ) :
    IsFirst (fun a b => b ≤ a) (groupKeys SessionEventRow.day events)
      ((rollup usageOf events).report name failed).spanEnd := by
  have hend : ((rollup usageOf events).report name failed).spanEnd=
      (((rollup usageOf events).report name failed).byDay.map (·.day)).getLast? := by
    rw [List.getLast?_map]
    rfl
  rw [hend,report_days]
  exact isFirst_last (fun a b : PyStr => a ≤ b) _

/-- An entry's table row comes back from the report. -/
theorem modelEntry_modelUsage (entry : (PyStr × PyStr) × ModelCounts) : modelEntry (modelUsage entry)=entry := rfl

/-- An entry's table row comes back from the report. -/
theorem dayEntry_dayActivity (entry : PyStr × DayCounts) : dayEntry (dayActivity entry)=entry := rfl

/-- The table behind the report by model. -/
theorem report_modelEntries (name : PyStr) (failed : ℕ) :
    ((rollup usageOf events).report name failed).byModel.map modelEntry=
      table axisLe SessionEventRow.axis (addedCounts usageOf) events := by
  rw [report_byModel,List.map_map]
  have hid : modelEntry ∘ modelUsage=id := funext modelEntry_modelUsage
  rw [hid,List.map_id]

/-- The table behind the report by day. -/
theorem report_dayEntries (name : PyStr) (failed : ℕ) :
    ((rollup usageOf events).report name failed).byDay.map dayEntry=
      table (fun a b => a ≤ b) SessionEventRow.day addedDay events := by
  rw [report_byDay,List.map_map]
  have hid : dayEntry ∘ dayActivity=id := funext dayEntry_dayActivity
  rw [hid,List.map_id]

/-- A counter that adds up over the models is the sum of what the events add to it. -/
theorem sum_byModel (name : PyStr) (failed : ℕ) (component : ModelCounts →+ ℕ) {read : ModelUsage → ℕ}
    (hread : ∀ entry,read (modelUsage entry)=component entry.2) :
    (((rollup usageOf events).report name failed).byModel.map read).sum=
      (events.map fun row => component (addedCounts usageOf row)).sum := by
  rw [report_byModel,List.map_map,← sum_table axisLe SessionEventRow.axis (addedCounts usageOf) component events]
  refine congrArg List.sum (List.map_congr_left fun entry _ => ?_)
  exact hread entry

/-- A counter that adds up over the days is the sum of what the events add to it. -/
theorem sum_byDay (name : PyStr) (failed : ℕ) (component : DayCounts →+ ℕ) {read : DayActivity → ℕ}
    (hread : ∀ entry,read (dayActivity entry)=component entry.2) :
    (((rollup usageOf events).report name failed).byDay.map read).sum=
      (events.map fun row => component (addedDay row)).sum := by
  rw [report_byDay,List.map_map,← sum_table (fun a b : PyStr => a ≤ b) SessionEventRow.day addedDay component events]
  refine congrArg List.sum (List.map_congr_left fun entry _ => ?_)
  exact hread entry

/-- Counting the events of a kind, as a sum over all of them. -/
theorem countP_eq_toNat (p : SessionEventRow → Bool) : events.countP p=(events.map fun row => (p row).toNat).sum := by
  induction events with
  | nil => rfl
  | cons row events ih =>
    rw [List.countP_cons,List.map_cons,List.sum_cons,ih]
    cases hp : p row <;> simp [add_comm]

/-- An executed call that reported tokens. -/
def isKnown (row : SessionEventRow) : Bool := isExecuted row.event && (tokens (usageOf row)).isSome

/-- Every executed call reported tokens or did not. -/
theorem unknown_add_known :
    events.countP (isUnknown usageOf)+events.countP (isKnown usageOf)=events.countP fun row => isExecuted row.event := by
  induction events with
  | nil => rfl
  | cons row events ih =>
    have hone : (isUnknown usageOf row).toNat+(isKnown usageOf row).toNat=(isExecuted row.event).toNat := by
      unfold isUnknown isKnown
      cases isExecuted row.event <;> cases tokens (usageOf row) <;> rfl
    rw [List.countP_cons,List.countP_cons,List.countP_cons,← ih]
    cases hu : isUnknown usageOf row <;> cases hk : isKnown usageOf row <;> cases he : isExecuted row.event <;>
      simp_all <;> omega

/-- The executions of a model. -/
def modelExecutions : ModelCounts →+ ℕ := ⟨⟨(·.executions),rfl⟩,fun _ _ => rfl⟩

/-- The hits of a model. -/
def modelHits : ModelCounts →+ ℕ := ⟨⟨(·.hits),rfl⟩,fun _ _ => rfl⟩

/-- The invocations of a day. -/
def dayInvocations : DayCounts →+ ℕ := ⟨⟨(·.invocations),rfl⟩,fun _ _ => rfl⟩

/-- The executions of a day. -/
def dayExecutions : DayCounts →+ ℕ := ⟨⟨(·.executions),rfl⟩,fun _ _ => rfl⟩

/-- The hits of a day. -/
def dayHits : DayCounts →+ ℕ := ⟨⟨(·.hits),rfl⟩,fun _ _ => rfl⟩

/-- The totals of a report are those of its days and of its models. -/
theorem report_balanced (name : PyStr) (failed : ℕ) :
    Balanced (events.countP (isKnown usageOf)) ((rollup usageOf events).report name failed) := by
  have hinvocations : (rollup usageOf events).invocations=events.length := by rw [rollup_eq]
  have hexecutions : (rollup usageOf events).executions=events.countP fun row => isExecuted row.event := by
    rw [rollup_eq]
  have hhits : (rollup usageOf events).hits=events.countP fun row => decide (row.event=.hit) := by rw [rollup_eq]
  have hunknown : (rollup usageOf events).unknown=events.countP (isUnknown usageOf) := by rw [rollup_eq]
  constructor
  · rw [sum_byDay usageOf events name failed dayInvocations fun _ => rfl]
    show (rollup usageOf events).invocations=(events.map fun _ => 1).sum
    simp [hinvocations]
  · rw [sum_byDay usageOf events name failed dayExecutions fun _ => rfl]
    exact hexecutions.trans (countP_eq_toNat events _)
  · rw [sum_byDay usageOf events name failed dayHits fun _ => rfl]
    exact hhits.trans (countP_eq_toNat events _)
  · rw [sum_byModel usageOf events name failed modelExecutions fun _ => rfl]
    exact hexecutions.trans (countP_eq_toNat events _)
  · rw [sum_byModel usageOf events name failed modelHits fun _ => rfl]
    exact hhits.trans (countP_eq_toNat events _)
  · show (rollup usageOf events).unknown+_=(rollup usageOf events).executions
    rw [hunknown,hexecutions]
    exact unknown_add_known usageOf events

variable {usageOf events}

/-- Reports are equal where their counters, tables and spans are. -/
theorem report_ext {r s : SessionReport} (hname : r.sessionId=s.sessionId) (hinvocations : r.invocations=s.invocations)
    (hexecutions : r.executions=s.executions) (hhits : r.hits=s.hits) (hunknown : r.unknownUsage=s.unknownUsage)
    (hstart : r.spanStart=s.spanStart) (hend : r.spanEnd=s.spanEnd) (hmodels : r.byModel=s.byModel)
    (hdays : r.byDay=s.byDay) (hfailed : r.runsWithFailedPersistence=s.runsWithFailedPersistence) : r=s := by
  cases r
  cases s
  simp_all

/-- The report does not depend on the order of the events. -/
theorem report_perm {events' : List SessionEventRow} (h : events.Perm events') (name : PyStr) (failed : ℕ) :
    (rollup usageOf events).report name failed=(rollup usageOf events').report name failed := by
  have hdays : ((rollup usageOf events).report name failed).byDay=
      ((rollup usageOf events').report name failed).byDay := by
    rw [report_byDay,report_byDay,table_perm _ _ _ h]
  refine report_ext rfl ?_ ?_ ?_ ?_ ?_ ?_ ?_ hdays rfl
  · show (rollup usageOf events).invocations=(rollup usageOf events').invocations
    rw [rollup_eq,rollup_eq]
    exact h.length_eq
  · show (rollup usageOf events).executions=(rollup usageOf events').executions
    rw [rollup_eq,rollup_eq]
    exact h.countP_eq _
  · show (rollup usageOf events).hits=(rollup usageOf events').hits
    rw [rollup_eq,rollup_eq]
    exact h.countP_eq _
  · show (rollup usageOf events).unknown=(rollup usageOf events').unknown
    rw [rollup_eq,rollup_eq]
    exact h.countP_eq _
  · exact congrArg (fun days : List DayActivity => days.head?.map (·.day)) hdays
  · exact congrArg (fun days : List DayActivity => days.getLast?.map (·.day)) hdays
  · rw [report_byModel,report_byModel,table_perm _ _ _ h]

/-- The report on two lists of events is the sum of their reports. -/
theorem report_append (events' : List SessionEventRow) (name : PyStr) (failed failed' : ℕ) :
    (rollup usageOf (events ++ events')).report name (failed+failed')=
      SessionReport.plus ((rollup usageOf events).report name failed) ((rollup usageOf events').report name failed') := by
  have hmem : ∀ day,day∈groupKeys SessionEventRow.day (events ++ events') ↔
      day∈groupKeys SessionEventRow.day events ∨ day∈groupKeys SessionEventRow.day events' := by
    intro day
    rw [mem_groupKeys,mem_groupKeys,mem_groupKeys]
    simp only [List.mem_append,or_and_right,exists_or]
  refine report_ext rfl ?_ ?_ ?_ ?_ ?_ ?_ ?_ ?_ rfl
  · show (rollup usageOf (events ++ events')).invocations=
      (rollup usageOf events).invocations+(rollup usageOf events').invocations
    rw [rollup_eq,rollup_eq,rollup_eq]
    exact List.length_append
  · show (rollup usageOf (events ++ events')).executions=
      (rollup usageOf events).executions+(rollup usageOf events').executions
    rw [rollup_eq,rollup_eq,rollup_eq]
    exact List.countP_append
  · show (rollup usageOf (events ++ events')).hits=(rollup usageOf events).hits+(rollup usageOf events').hits
    rw [rollup_eq,rollup_eq,rollup_eq]
    exact List.countP_append
  · show (rollup usageOf (events ++ events')).unknown=
      (rollup usageOf events).unknown+(rollup usageOf events').unknown
    rw [rollup_eq,rollup_eq,rollup_eq]
    exact List.countP_append
  · exact isFirst_unique _ (report_spanStart usageOf _ name _)
      (isFirst_pick _ (report_spanStart usageOf events name failed) (report_spanStart usageOf events' name failed') hmem)
  · exact isFirst_unique _ (report_spanEnd usageOf _ name _)
      (isFirst_pick _ (report_spanEnd usageOf events name failed) (report_spanEnd usageOf events' name failed') hmem)
  · show _=(mergeTables axisLe _ _).map modelUsage
    rw [report_modelEntries,report_modelEntries,← table_append,report_byModel]
  · show _=(mergeTables (fun a b => a ≤ b) _ _).map dayActivity
    rw [report_dayEntries,report_dayEntries,← table_append,report_byDay]

end Loop

/-- The executed rows whose key has reported tokens in the usage map. -/
def reportedRows (rows : List JournalRow) (usageByKey : List (ExecutionKey × TokenUsage)) : ℕ :=
  rows.countP fun row => isKnown (rowUsage usageByKey) row.row

/-- Session reports add up. -/
theorem report_adds_up (sessionId : PyStr) (usageByKey : List (ExecutionKey × TokenUsage)) (failed failed' : ℕ)
    (rows rows' : List JournalRow) :
    (∀ order : List JournalRow,order.Perm rows →
      buildReport sessionId order usageByKey failed=buildReport sessionId rows usageByKey failed) ∧
    buildReport sessionId (rows ++ rows') usageByKey (failed+failed')=
      SessionReport.plus (buildReport sessionId rows usageByKey failed) (buildReport sessionId rows' usageByKey failed') ∧
    Balanced (reportedRows rows usageByKey) (buildReport sessionId rows usageByKey failed) := by
  refine ⟨fun order horder => ?_,?_,?_⟩
  · exact report_perm (horder.map JournalRow.row) sessionId failed
  · unfold buildReport buildSessionReport
    rw [List.map_append]
    exact report_append _ sessionId failed failed'
  · have hcount : reportedRows rows usageByKey=
        (rows.map JournalRow.row).countP (isKnown (rowUsage usageByKey)) := by
      rw [List.countP_map]
      rfl
    rw [hcount]
    exact report_balanced _ _ sessionId failed

end GenericMlCache.AdditiveReports
