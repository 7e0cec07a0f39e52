import GenericMlCache.SessionReports

/-!
# Reports after a soft purge

A soft purge keeps the rows and the journal and clears what makes a row
current, so the join of the session report finds no usage for a purged key.
The reports before and after it agree exactly where that usage did not count.
-/

namespace GenericMlCache.PurgedReports

open CallProgram CallAutomaton PythonText ExecutionModel SqliteStore ExecutionRepository
  ExecutionQueries RepositoryCalls ServicePorts StorePurge CachedExecution ServiceOperations
  StoreSoundness SessionReports

section Purges
variable {Command : Type}

/-- The soft purges and the evictions. -/
inductive SoftPurge : ServiceM Command PurgeReport → Prop where
  | keys (keys : List ExecutionKey) : SoftPurge (softPurgeKeys keys)
  | byKey (key : ExecutionKey) : SoftPurge (purgeByKey key false)
  | byTag (tag : PyStr) : SoftPurge (purgeByTag tag false)
  | bySession (sessionId : PyStr) : SoftPurge (purgeBySession sessionId false)
  | bySessionTag (tag : PyStr) : SoftPurge (purgeBySessionTag tag false)
  | all : SoftPurge (purgeAll false)
  | stale (maxAge : ℤ) : SoftPurge (evictStale maxAge)
  | quota (maxBytes : ℕ) : SoftPurge (evictToQuota maxBytes)

/-- The calls of a soft purge: reads, the purge of a key's rows, and calls that
touch neither rows nor journal. -/
def isSoftPurging : Call Command → Bool
  | .store (.softPurgeExecution _) => true
  | .store call => call.isRead
  | .recordEvent _ | .deleteEventsForKey _ => false
  | _ => true

/-- The program makes calls of a soft purge only. -/
abbrev Softly {α : Type} (p : ServiceM Command α) : Prop :=
  Uses (fun call => isSoftPurging call=true) p

/-- Blobs are removed one by one. -/
theorem softly_removeEach (sizes : List (BlobKey × Size)) : Softly (removeEach sizes : ServiceM Command ℕ) := by
  induction sizes with
  | nil => exact Uses.pure 0
  | cons entry rest ih =>
    exact Uses.bind (Uses.perform rfl) fun _ => Uses.bind (Uses.ofExcept _) fun _ => Uses.bind ih fun _ => Uses.pure _

/-- One key is purged under its lock. -/
theorem softly_purgeKey (key : ExecutionKey) :
    Softly (purgeKey softDrop key : ServiceM Command (ℕ × ℕ)) := by
  refine Uses.bind (Uses.perform rfl) fun _ => Uses.ensure ?_ (Uses.perform rfl)
  refine Uses.bind (Uses.bind (Uses.perform rfl) fun _ => Uses.pure _) fun sizes => ?_
  refine Uses.bind (Uses.perform rfl) fun _ => ?_
  exact Uses.bind (softly_removeEach sizes) fun _ => Uses.pure _

/-- The loop over the keys. -/
theorem softly_softPurgeKeys (keys : List ExecutionKey) :
    Softly (softPurgeKeys keys : ServiceM Command PurgeReport) := by
  have heach : ∀ keys,Softly (purgeEach softDrop keys : ServiceM Command (ℕ × ℕ)) := by
    intro keys
    induction keys with
    | nil => exact Uses.pure _
    | cons key rest ih =>
      exact Uses.bind (softly_purgeKey key) fun _ => Uses.bind ih fun _ => Uses.pure _
  exact Uses.ite (fun _ => Uses.pure _) fun _ => Uses.bind (heach keys) fun _ => Uses.pure _

/-- The keys of several sessions are read. -/
theorem softly_keysForSessions (sessionIds : List PyStr) (keys : List ExecutionKey) :
    Softly (keysForSessions sessionIds keys : ServiceM Command (List ExecutionKey)) := by
  induction sessionIds generalizing keys with
  | nil => exact Uses.pure _
  | cons sessionId rest ih => exact Uses.bind (Uses.perform rfl) fun _ => ih _

/-- Every soft purge and every eviction makes calls of a soft purge only. -/
theorem SoftPurge.softly {p : ServiceM Command PurgeReport} (h : SoftPurge p) : Softly p := by
  have hpurge : ∀ keys,Softly (purge keys false : ServiceM Command PurgeReport) :=
    fun keys => softly_softPurgeKeys keys
  have horder : Softly (accessOrdering : ServiceM Command (List (ExecutionKey × Timestamp))) :=
    Uses.bind (Uses.perform rfl) fun _ => Uses.pure _
  cases h with
  | keys keys => exact softly_softPurgeKeys keys
  | byKey key =>
    exact Uses.bind (Uses.perform rfl) fun _ => Uses.ite (fun _ => Uses.pure _) fun _ => hpurge _
  | byTag tag => exact Uses.bind (Uses.perform rfl) fun _ => hpurge _
  | bySession sessionId => exact Uses.bind (Uses.perform rfl) fun _ => hpurge _
  | bySessionTag tag =>
    refine Uses.bind (Uses.perform rfl) fun sessionIds => ?_
    exact Uses.bind (softly_keysForSessions sessionIds []) fun _ => hpurge _
  | all => exact Uses.bind (Uses.perform rfl) fun _ => hpurge _
  | stale maxAge =>
    refine Uses.ite (fun _ => Uses.pure _) fun _ => Uses.bind (Uses.perform rfl) fun _ => ?_
    exact Uses.bind (Uses.perform rfl) fun _ => Uses.bind horder fun _ => softly_softPurgeKeys _
  | quota maxBytes =>
    refine Uses.bind (Uses.perform rfl) fun _ => Uses.ite (fun _ => Uses.pure _) fun _ => ?_
    exact Uses.bind (Uses.perform rfl) fun _ => Uses.bind horder fun _ => softly_softPurgeKeys _

/-- The keys whose rows a run has purged. -/
def watchKeys : (call : Call Command) → Except PyExc call.Ret → List ExecutionKey → List ExecutionKey
  | .store (.softPurgeExecution key),.ok _,purged => key::purged
  | _,_,purged => purged

/-- The purged key has no current row, and every other key its own. -/
theorem currentRow_softPurge (purged key : ExecutionKey) (db : Db) :
    (softPurgeExecution purged db).currentRow key=if key=purged then none else db.currentRow key := by
  by_cases h : key=purged
  · rw [if_pos h,Db.currentRow_eq_none]
    intro row hrow hkey
    obtain ⟨r,_,rfl⟩ := Db.mem_updateWhere.mp hrow
    have hp : hasKey purged r=true := by
      rw [hasKey_iff,← h,← hkey]
      split <;> rfl
    rw [if_pos hp]
    simp [purgedColumns,MutableColumns.servable]
  · rw [if_neg h]
    unfold Db.currentRow
    congr 1
    show List.filter (isCurrent key) (db.executions.map _)=_
    induction db.executions with
    | nil => rfl
    | cons r rest ih =>
      rw [List.map_cons,List.filter_cons,List.filter_cons,ih]
      by_cases hp : hasKey purged r=true
      · have hkey : r.executionKey≠key := fun hk => h (hk.symm.trans ((hasKey_iff _ _).mp hp))
        rw [if_pos hp]
        simp [isCurrent,hkey]
      · rw [if_neg hp]

/-- A purge of one key loses its current execution and no other. -/
theorem findCurrent_softPurge (purged key : ExecutionKey) (db : Db) :
    findCurrent key (softPurgeExecution purged db)=if key=purged then .ok none else findCurrent key db := by
  unfold findCurrent
  rw [currentRow_softPurge]
  by_cases h : key=purged
  · rw [if_pos h,if_pos h]
  · rw [if_neg h,if_neg h]
    rfl

/-- What a soft purge of the keys has made of a store. -/
structure PurgedFrom (w : World) (s : World × List ExecutionKey) : Prop where
  /-- The database is well formed. -/
  wellFormed : WellFormed s.1.db
  /-- The journal stays. -/
  journal : s.1.journal=w.journal
  /-- The keys have no current execution; the others have the one they had. -/
  find : ∀ key,findCurrent key s.1.db=if key∈s.2 then .ok none else findCurrent key w.db

/-- Every call of a soft purge keeps the journal and every execution but the purged keys'. -/
theorem purgedFrom_step {locks : LockMode} {faults : Faults Command} {thread : ThreadId} {w : World}
    (call : Call Command) (s : World × List ExecutionKey) (r : Except PyExc call.Ret)
    (s' : World × List ExecutionKey) (hcall : isSoftPurging call=true)
    (h : observed (Answers locks faults thread) watchKeys call s r s') (hs : PurgedFrom w s) :
    PurgedFrom w s' := by
  obtain ⟨u,purged⟩ := s
  obtain ⟨u',purged'⟩ := s'
  obtain ⟨hanswer,rfl⟩ := h
  have hkept : ∀ {v : World} {keys : List ExecutionKey},v.db=u.db → v.journal=u.journal → keys=purged →
      PurgedFrom w (v,keys) := by
    rintro v keys hdb hjournal rfl
    exact ⟨by rw [hdb]; exact hs.wellFormed,hjournal.trans hs.journal,fun key => by rw [hdb]; exact hs.find key⟩
  cases hanswer with
  | fault | reject => exact hkept rfl rfl (by simp only [watchKeys])
  | @commit _ call a db now ht =>
    have hwf : WellFormed db := transact_wellFormed hs.wellFormed ht
    by_cases hread : call.isRead=true
    · have hdb : db=u.db := transact_read hread ht
      refine hkept hdb rfl ?_
      cases call <;> first | rfl | exact nomatch hread
    · cases call with
      | softPurgeExecution purgedKey =>
        have hdb : db=softPurgeExecution purgedKey u.db := by
          cases Except.ok.inj (commit_ok.mp ht)
          rfl
        refine ⟨hwf,hs.journal,fun key => ?_⟩
        show findCurrent key db=if key∈purgedKey::purged then .ok none else findCurrent key w.db
        rw [hdb,findCurrent_softPurge,hs.find key]
        by_cases hk : key=purgedKey
        · simp [hk]
        · simp [hk]
      | _ => exact absurd hcall hread
  | recordEvent | deleteEventsForKey => exact nomatch hcall
  | _ => exact hkept rfl rfl rfl

/-- Wherever a soft purge stands, it has made of the store what its purged keys say. -/
theorem SoftPurge.purgedFrom {locks : LockMode} {faults : Faults Command} {thread : ThreadId} {w : World}
    {p q : ServiceM Command PurgeReport} {s : World × List ExecutionKey} (h : SoftPurge p)
    (hwf : WellFormed w.db) (hrun : Reach (observed (Answers locks faults thread) watchKeys) p (w,[]) q s) :
    PurgedFrom w s :=
  h.softly.reach (fun call s r s' hcall hstep hs => purgedFrom_step call s r s' hcall hstep hs) hrun
    ⟨hwf,rfl,fun _ => rfl⟩

/-- The join after a soft purge has lost the usage of the purged keys. -/
theorem PurgedFrom.joined {w : World} {s : World × List ExecutionKey} (h : PurgedFrom w s)
    (row : SessionEventRow) : joinedUsage s.1.db row=lostUsage (joinedUsage w.db) s.2 row := by
  have hcurrent : ∀ key,currentUsage s.1.db key=if key∈s.2 then none else currentUsage w.db key := by
    intro key
    unfold currentUsage
    rw [h.find key]
    by_cases hk : key∈s.2
    · rw [if_pos hk,if_pos hk]
      rfl
    · rw [if_neg hk,if_neg hk]
  unfold joinedUsage lostUsage isPurged
  cases hkey : row.executionKey with
  | none => simp [hkey]
  | some key => simp [hkey,hcurrent key]

/-- Both reports are given and agree, but for the runs awaiting persistence. -/
def ReportKept (before after : Except PyExc SessionReport) : Prop :=
  ∃ report report',before=.ok report ∧ after=.ok report' ∧ SameHistory report report'

/-- A report on the same events is kept exactly where nothing was lost. -/
theorem reportKept_iff {w : World} {s : World × List ExecutionKey} (h : PurgedFrom w s)
    (hwf : WellFormed w.db) (name : PyStr) (events : List SessionEventRow) :
    ReportKept (reportOn name events w.db) (reportOn name events s.1.db) ↔
      NothingLost (joinedUsage w.db) s.2 events := by
  obtain ⟨failed,hbefore⟩ := reportOn_ok hwf name events
  obtain ⟨failed',hafter⟩ := reportOn_ok h.wellFormed name events
  have hjoined : rollup (joinedUsage s.1.db) events=rollup (lostUsage (joinedUsage w.db) s.2) events :=
    rollup_congr fun row _ => h.joined row
  rw [hjoined] at hafter
  rw [← sameHistory_lost_iff name failed failed']
  constructor
  · rintro ⟨report,report',hreport,hreport',hsame⟩
    cases Except.ok.inj (hreport.symm.trans hbefore)
    cases Except.ok.inj (hreport'.symm.trans hafter)
    exact hsame
  · intro hsame
    exact ⟨_,_,hbefore,hafter,hsame⟩

/-- At every point of a soft purge or an eviction, from every reachable store,
the report on each session and on each session tag is the one before it,
exactly where nothing was lost with the keys purged so far. -/
theorem soft_purge_keeps_report_iff {faults : Faults Command} {fingerprint : Bytes → Digest} {w : World}
    {p q : ServiceM Command PurgeReport} {s : World × List ExecutionKey}
    (hreach : Reachable faults fingerprint w) (hpurge : SoftPurge p)
    (hrun : Reach (observed (Answers .exclusive faults 0) watchKeys) p (w,[]) q s)
    (stamps : ℕ → PyStr) (sessionIdsForTag : PyStr → List PyStr) :
    (∀ sessionId,
      ReportKept (reportForSession stamps sessionId w) (reportForSession stamps sessionId s.1) ↔
        NothingLost (joinedUsage w.db) s.2 (sessionEvents stamps w.journal sessionId)) ∧
    ∀ tag,
      ReportKept ((reportForTag stamps sessionIdsForTag tag w).map (·.1))
          ((reportForTag stamps sessionIdsForTag tag s.1).map (·.1)) ↔
        NothingLost (joinedUsage w.db) s.2 (tagEvents stamps sessionIdsForTag tag w.journal) := by
  have hwf := (reachable_sound hreach).wellFormed
  have hfrom := hpurge.purgedFrom hwf hrun
  have htag : ∀ (tag : PyStr) (u : World),(reportForTag stamps sessionIdsForTag tag u).map (·.1)=
      reportOn tag (tagEvents stamps sessionIdsForTag tag u.journal) u.db := by
    intro tag u
    unfold reportForTag
    cases reportOn tag (tagEvents stamps sessionIdsForTag tag u.journal) u.db <;> rfl
  constructor
  · intro sessionId
    unfold reportForSession
    rw [hfrom.journal]
    exact reportKept_iff hfrom hwf sessionId _
  · intro tag
    rw [htag,htag,hfrom.journal]
    exact reportKept_iff hfrom hwf tag _

end Purges

/-- The smallest service, in a session. -/
def sessionService : CachedMlExecutionService SmallestCommand :=
  { smallestService with sessionId := fun _ => some (pyStr "s") }

/-- Answer `n` calls as `answers` does, with the usage that the client reports. -/
def reportingAnswers (n : ℕ) (usage : Option TokenUsage) :
    List (Handler (Call SmallestCommand) Call.Ret PyExc World) :=
  List.replicate n (answerWith .exclusive 0 0
    (.ok { exitCode := 0, stdout := pyStr "o", tokenUsage := usage }) ⟨7⟩)

/-- The store after one recording in the session. -/
def reportedOnce (usage : Option TokenUsage) : World :=
  World.released (drive (reportingAnswers 40 usage)
    (program positional (.execute sessionService ⟨.cache,.cache⟩)) World.empty).2

/-- It is reachable. -/
theorem reportedOnce_reachable (usage : Option TokenUsage) :
    Reachable (noFaults : Faults SmallestCommand) positional (reportedOnce usage) := by
  refine .run .start ⟨.execute sessionService ⟨.cache,.cache⟩,rfl⟩ (drive_reach _ (fun handler hmem => ?_) _ _) trivial
  rw [List.eq_of_mem_replicate hmem]
  exact answerWith_respects _ _ _

/-- A soft purge of the recorded key. -/
def purgedOnce (usage : Option TokenUsage) : ServiceM SmallestCommand PurgeReport × (World × List ExecutionKey) :=
  drive ((answers 40 8).map fun handler => handler.watched watchKeys) (purgeByKey ⟨0⟩ false)
    (reportedOnce usage,[])

/-- It is a run. -/
theorem purgedOnce_reach (usage : Option TokenUsage) :
    Reach (observed (Answers .exclusive noFaults 0) watchKeys) (purgeByKey ⟨0⟩ false)
      (reportedOnce usage,[]) (purgedOnce usage).1 (purgedOnce usage).2 :=
  drive_watched _ (answers_respect 40 8) watchKeys _ _

/-- A purged call that reported no tokens was unknown before and is unknown after. -/
theorem soft_purge_keeps_report_unreported : (purgedOnce none).1.value.isSome=true ∧
    (purgedOnce none).2.2=[⟨0⟩] ∧
    ReportKept (reportForSession (fun _ => []) (pyStr "s") (reportedOnce none))
      (reportForSession (fun _ => []) (pyStr "s") (purgedOnce none).2.1) := by
  refine ⟨by decide +kernel,by decide +kernel,?_⟩
  refine ((soft_purge_keeps_report_iff (reportedOnce_reachable none) (.byKey ⟨0⟩) (purgedOnce_reach none)
    (fun _ => []) fun _ => []).1 (pyStr "s")).mpr ⟨?_,fun axis => ?_⟩
  · decide +kernel
  · have hno : ∀ row∈sessionEvents (fun _ => []) (reportedOnce none).journal (pyStr "s"),
        row.event≠.hit := by decide +kernel
    have hnone : purgedHits (purgedOnce none).2.2
        (sessionEvents (fun _ => []) (reportedOnce none).journal (pyStr "s")) axis=[] := by
      rw [purgedHits,List.filter_eq_nil_iff]
      intro row hrow
      simp [hno row (List.mem_filter.mp hrow).1]
    rw [hnone]
    rfl

/-- A purged call that reported tokens becomes unknown. -/
theorem soft_purge_keeps_report_fails : ¬ ∀ (w : World) (p q : ServiceM SmallestCommand PurgeReport)
    (s : World × List ExecutionKey),Reachable (noFaults : Faults SmallestCommand) positional w →
    SoftPurge p → Reach (observed (Answers .exclusive noFaults 0) watchKeys) p (w,[]) q s →
    ∀ sessionId,ReportKept (reportForSession (fun _ => []) sessionId w)
      (reportForSession (fun _ => []) sessionId s.1) := by
  intro h
  have hkept := h _ _ _ _ (reportedOnce_reachable (some { inputTokens := some 5 })) (.byKey ⟨0⟩)
    (purgedOnce_reach _) (pyStr "s")
  obtain ⟨report,report',hbefore,hafter,hsame⟩ := hkept
  have hunknown : report.unknownUsage=report'.unknownUsage := congrArg (·.unknownUsage) hsame
  have hzero : (reportForSession (fun _ => []) (pyStr "s")
      (reportedOnce (some { inputTokens := some 5 }))).toOption.map (·.unknownUsage)=some 0 := by
    decide +kernel
  have hone : (reportForSession (fun _ => []) (pyStr "s")
      (purgedOnce (some { inputTokens := some 5 })).2.1).toOption.map (·.unknownUsage)=some 1 := by
    decide +kernel
  rw [hbefore] at hzero
  rw [hafter] at hone
  have hzero' : report.unknownUsage=0 := Option.some.inj hzero
  have hone' : report'.unknownUsage=1 := Option.some.inj hone
  omega

end GenericMlCache.PurgedReports
