import GenericMlCache.StoreSoundness

/-!
# States and bare rows

What each transaction makes of the stored state of one execution, and which
transactions attach something to its row. A row that nothing was attached to
stays bare whatever anybody does later, so it is never servable.
-/

namespace GenericMlCache.BareRows

open CallProgram CallAutomaton PythonText ExecutionModel SqliteStore ExecutionRepository
  ExecutionQueries RepositoryCalls ServicePorts StorePurge CachedExecution
  ServiceAutomaton ServiceConformance ServiceOperations StoreSoundness

/-- The stored state of an execution, if it has a row. -/
def stateOf (db : Db) (id : ExecutionId) : Option (Column ExecutionState) :=
  (db.findRow id).map (·.state)

/-- What a committed call makes of a state. Only a hard delete is left out. -/
def stateAfter (id : ExecutionId) :
    StoreCall → Option (Column ExecutionState) → Option (Column ExecutionState)
  | .save execution,s | .recordOutcome execution,s =>
    if execution.executionId=id then some (.value execution.executionState) else s
  | .removeExecution removed,s => if removed=id then none else s
  | _,s => s

section States
variable {db db' : Db} {id : ExecutionId}

/-- A stored state is some row's. -/
theorem stateOf_eq_some {s : Column ExecutionState} :
    stateOf db id=some s ↔ ∃ row∈db.executions,row.executionId=id ∧ row.state=s := by
  simp only [stateOf,Option.map_eq_some_iff,Db.findRow_eq_some,and_assoc]

/-- Databases with the same states of one execution's rows store the same state. -/
theorem stateOf_congr (h : ∀ s,(∃ row∈db'.executions,row.executionId=id ∧ row.state=s) ↔
    ∃ row∈db.executions,row.executionId=id ∧ row.state=s) : stateOf db' id=stateOf db id := by
  refine Option.ext fun s => ?_
  rw [stateOf_eq_some,stateOf_eq_some]
  exact h s

/-- An update of other columns leaves every state. -/
theorem stateOf_updateWhere {p : ExecutionRow → Bool} {f : MutableColumns → MutableColumns}
    (hf : ∀ c,(f c).state=c.state) : stateOf (db.updateWhere p f) id=stateOf db id := by
  refine stateOf_congr fun s => ⟨?_,?_⟩
  · rintro ⟨row,hrow,hid,hs⟩
    obtain ⟨r,hr,rfl⟩ := Db.mem_updateWhere.mp hrow
    by_cases hp : p r=true
    · rw [if_pos hp] at hid hs
      exact ⟨r,hr,hid,(hf r.toMutableColumns).symm.trans hs⟩
    · rw [if_neg hp] at hid hs
      exact ⟨r,hr,hid,hs⟩
  · rintro ⟨row,hrow,hid,hs⟩
    refine ⟨if p row=true then row.update f else row,Db.mem_updateWhere.mpr ⟨row,hrow,rfl⟩,?_⟩
    by_cases hp : p row=true
    · rw [if_pos hp]
      exact ⟨hid,(hf row.toMutableColumns).trans hs⟩
    · rw [if_neg hp]
      exact ⟨hid,hs⟩

/-- A saved execution has its state, and every other row its own. -/
theorem stateOf_save {execution : MlExecution} {now : Timestamp} (h : save execution now db=.ok db') :
    stateOf db' id=if execution.executionId=id then some (.value execution.executionState)
      else stateOf db id := by
  obtain ⟨rowId,hnew,_,hrows,_⟩ := save_ok h
  have hstates : stateOf (if isServable execution=true then
      supersedePriorCurrent db execution.callIdentity.generateKey now else db) id=stateOf db id := by
    split
    · exact stateOf_updateWhere fun _ => rfl
    · rfl
  have hmem : ∀ row,row∈db'.executions ↔ row∈(if isServable execution=true then
      supersedePriorCurrent db execution.callIdentity.generateKey now else db).executions ∨
      row=insertedRow rowId execution.callIdentity.generateKey execution now
        (execution.artifacts.map artifactRow) (execution.tokenUsage.map usageRow) := by
    intro row
    rw [hrows,List.mem_append,List.mem_singleton]
  by_cases hid : execution.executionId=id
  · rw [if_pos hid]
    refine stateOf_eq_some.mpr ⟨_,(hmem _).mpr (Or.inr rfl),hid,rfl⟩
  · rw [if_neg hid,← hstates]
    refine stateOf_congr fun s => ⟨?_,?_⟩
    · rintro ⟨row,hrow,hrid,hs⟩
      rcases (hmem row).mp hrow with hold | rfl
      · exact ⟨row,hold,hrid,hs⟩
      · exact absurd hrid hid
    · rintro ⟨row,hrow,hrest⟩
      exact ⟨row,(hmem row).mpr (Or.inl hrow),hrest⟩

/-- A recorded outcome is the state of its row, and every other row keeps its own. -/
theorem stateOf_recordOutcome {execution : MlExecution} (h : recordOutcome execution db=.ok db') :
    stateOf db' id=if execution.executionId=id then some (.value execution.executionState)
      else stateOf db id := by
  obtain ⟨row,hrow,hrid,usage,_,rfl⟩ := recordOutcome_ok h
  by_cases hid : execution.executionId=id
  · rw [if_pos hid]
    have hupdated : row.update (outcomeColumns execution usage)∈
        (db.updateWhere (hasId execution.executionId) (outcomeColumns execution usage)).executions :=
      Db.mem_updateWhere_of hrow ((hasId_iff _ _).mpr hrid)
    exact stateOf_eq_some.mpr ⟨_,hupdated,hrid.trans hid,rfl⟩
  · rw [if_neg hid]
    have hother : ∀ r∈db.executions,r.executionId=id → hasId execution.executionId r=false :=
      fun r _ hr => (hasId_eq_false _ _).mpr fun he => hid (he.symm.trans hr)
    refine stateOf_congr fun s => ⟨?_,?_⟩
    · rintro ⟨r',hr',hrid',hs⟩
      obtain ⟨r,hr,rfl⟩ := Db.mem_updateWhere.mp hr'
      by_cases hp : hasId execution.executionId r=true
      · rw [if_pos hp] at hrid'
        rw [hother r hr hrid'] at hp
        cases hp
      · rw [if_neg hp] at hrid' hs
        exact ⟨r,hr,hrid',hs⟩
    · rintro ⟨r,hr,hrid',hs⟩
      exact ⟨r,Db.mem_updateWhere_of_not hr (hother r hr hrid'),hrid',hs⟩

/-- A removed execution has no row, and every other one its own. -/
theorem stateOf_removeExecution {removed : ExecutionId} :
    stateOf (removeExecution removed db) id=if removed=id then none else stateOf db id := by
  by_cases hid : removed=id
  · rw [if_pos hid]
    refine Option.eq_none_iff_forall_ne_some.mpr fun s hs => ?_
    obtain ⟨row,hrow,hrid,_⟩ := stateOf_eq_some.mp hs
    exact (mem_removeExecution.mp hrow).2 (hrid.trans hid.symm)
  · rw [if_neg hid]
    refine stateOf_congr fun s => ⟨?_,?_⟩
    · rintro ⟨row,hrow,hrest⟩
      exact ⟨row,(mem_removeExecution.mp hrow).1,hrest⟩
    · rintro ⟨row,hrow,hrid,hs⟩
      exact ⟨row,mem_removeExecution.mpr ⟨hrow,fun he => hid (he.symm.trans hrid)⟩,hrid,hs⟩

/-- What a transaction makes of the state of an execution. -/
theorem transact_stateOf {now : Timestamp} {call : StoreCall} {a : call.Ret}
    (hhard : ∀ key,call≠.hardDeleteExecution key) (h : transact now db call=.ok (a,db')) :
    stateOf db' id=stateAfter id call (stateOf db id) := by
  cases call with
  | findCurrent | findAll | runsAwaitingPersistence | totalStoredBytes | currentExecutionsWithSizes
  | executionsByTag | allExecutionKeys =>
    rw [transact_read rfl h]
    rfl
  | save execution => exact stateOf_save (commit_ok.mp h)
  | recordOutcome execution => exact stateOf_recordOutcome (commit_ok.mp h)
  | persistArtifact executionId artifact =>
    obtain ⟨_,rfl⟩ := persistArtifact_ok (commit_ok.mp h)
    exact stateOf_updateWhere fun _ => rfl
  | markArtifactsStored executionId blobKey =>
    obtain ⟨_,rfl⟩ := markArtifacts_ok (commit_ok.mp h)
    exact stateOf_updateWhere fun _ => rfl
  | markArtifactsFailed executionId blobKey detail =>
    obtain ⟨_,_,hmark⟩ := ok_of_bind (commit_ok.mp h)
    obtain ⟨_,rfl⟩ := markArtifacts_ok hmark
    exact stateOf_updateWhere fun _ => rfl
  | finalizeOutputPersisted executionId =>
    obtain ⟨row,_,_,_,rfl⟩ := finalizeOutputPersisted_ok (commit_ok.mp h)
    refine Eq.trans (stateOf_updateWhere fun _ => rfl) ?_
    show stateOf (if row.state=.value .success then supersedePriorCurrent db row.executionKey now
      else db) id=stateOf db id
    split
    · exact stateOf_updateWhere fun _ => rfl
    · rfl
  | removeExecution removed =>
    rw [← Except.ok.inj (commit_ok.mp h)]
    exact stateOf_removeExecution
  | addTags key tags =>
    rcases addTags_ok (commit_ok.mp h) with rfl | ⟨_,rfl⟩
    · rfl
    · exact stateOf_updateWhere fun _ => rfl
  | addInputArtifacts key artifacts =>
    rcases addInputArtifacts_ok (commit_ok.mp h) with rfl | ⟨_,_,_,rfl⟩
    · rfl
    · exact stateOf_updateWhere fun _ => rfl
  | softPurgeExecution key =>
    rw [← Except.ok.inj (commit_ok.mp h)]
    exact stateOf_updateWhere fun _ => rfl
  | hardDeleteExecution key => exact absurd rfl (hhard key)

end States

/-- Nothing is attached to the execution's row, and it is not finalized. -/
def Bare (id : ExecutionId) (db : Db) : Prop :=
  ∀ row∈db.executions,row.executionId=id → row.outputPersisted=false ∧ row.artifacts=[]

/-- The call may attach a document to the execution, or finalize it. -/
def fills (id : ExecutionId) : StoreCall → Bool
  | .save execution => decide (execution.executionId=id) &&
      (execution.outputPersisted || !execution.artifacts.isEmpty)
  | .persistArtifact executionId _ | .finalizeOutputPersisted executionId => decide (executionId=id)
  | _ => false

section Bares
variable {db db' : Db} {id : ExecutionId}

/-- A bare row is not servable. -/
theorem Bare.not_servable (h : Bare id db) {row : ExecutionRow} (hrow : row∈db.executions)
    (hid : row.executionId=id) : row.servable=false := by
  simp [MutableColumns.servable,(h row hrow hid).1]

/-- A bare row awaits nothing. -/
theorem Bare.not_awaiting (h : Bare id db) {row : ExecutionRow} (hrow : row∈db.executions)
    (hid : row.executionId=id) : isAwaiting db row=false := by
  simp [isAwaiting,(h row hrow hid).2]

/-- Fewer rows are bare. -/
theorem Bare.subset (h : Bare id db) (hsub : ∀ row∈db'.executions,row∈db.executions) : Bare id db' :=
  fun row hrow hid => h row (hsub row hrow) hid

/-- An update that attaches nothing keeps a row bare. -/
theorem Bare.update (h : Bare id db) {p : ExecutionRow → Bool} {f : MutableColumns → MutableColumns}
    (hf : ∀ row∈db.executions,row.executionId=id → p row=true →
      (f row.toMutableColumns).outputPersisted=false ∧ (f row.toMutableColumns).artifacts=[]) :
    Bare id (db.updateWhere p f) := by
  intro row hrow hid
  obtain ⟨r,hr,rfl⟩ := Db.mem_updateWhere.mp hrow
  by_cases hp : p r=true
  · rw [if_pos hp] at hid ⊢
    exact hf r hr hid hp
  · rw [if_neg hp] at hid ⊢
    exact h r hr hid

/-- An update of another execution keeps a row bare. -/
theorem Bare.update_other (h : Bare id db) {other : ExecutionId} (hne : other≠id)
    (f : MutableColumns → MutableColumns) : Bare id (db.updateWhere (hasId other) f) :=
  h.update fun _ _ hid hp => absurd (((hasId_iff _ _).mp hp).symm.trans hid) hne

/-- Superseding attaches nothing. -/
theorem Bare.supersede (h : Bare id db) (key : ExecutionKey) (now : Timestamp) :
    Bare id (supersedePriorCurrent db key now) :=
  h.update fun row hrow hid _ => h row hrow hid

/-- A transaction that attaches nothing to a bare row leaves it bare. -/
theorem transact_bare {now : Timestamp} {call : StoreCall} {a : call.Ret} (hb : Bare id db)
    (hfills : fills id call=false) (h : transact now db call=.ok (a,db')) : Bare id db' := by
  cases call with
  | findCurrent | findAll | runsAwaitingPersistence | totalStoredBytes | currentExecutionsWithSizes
  | executionsByTag | allExecutionKeys =>
    rw [transact_read rfl h]
    exact hb
  | save execution =>
    obtain ⟨rowId,_,_,hrows,_⟩ := save_ok (commit_ok.mp h)
    intro row hrow hid
    rw [hrows,List.mem_append,List.mem_singleton] at hrow
    rcases hrow with hrow | rfl
    · have hold : Bare id (if isServable execution=true then
          supersedePriorCurrent db execution.callIdentity.generateKey now else db) := by
        split
        · exact hb.supersede _ _
        · exact hb
      exact hold row hrow hid
    · have hexecution : execution.executionId=id := hid
      simp only [fills,hexecution,decide_true,Bool.true_and,Bool.or_eq_false_iff,Bool.not_eq_false',
        List.isEmpty_iff] at hfills
      exact ⟨hfills.1,by rw [show (insertedRow _ _ execution _ _ _).artifacts=
        execution.artifacts.map artifactRow from rfl,hfills.2]; rfl⟩
  | recordOutcome execution =>
    obtain ⟨_,_,_,_,_,rfl⟩ := recordOutcome_ok (commit_ok.mp h)
    exact hb.update fun row hrow hid _ => hb row hrow hid
  | persistArtifact executionId artifact =>
    obtain ⟨_,rfl⟩ := persistArtifact_ok (commit_ok.mp h)
    exact hb.update_other (by simpa [fills] using hfills) _
  | markArtifactsStored executionId blobKey =>
    obtain ⟨_,rfl⟩ := markArtifacts_ok (commit_ok.mp h)
    exact hb.update fun row hrow hid _ => ⟨(hb row hrow hid).1,by simp [markColumns,(hb row hrow hid).2]⟩
  | markArtifactsFailed executionId blobKey detail =>
    obtain ⟨_,_,hmark⟩ := ok_of_bind (commit_ok.mp h)
    obtain ⟨_,rfl⟩ := markArtifacts_ok hmark
    exact hb.update fun row hrow hid _ => ⟨(hb row hrow hid).1,by simp [markColumns,(hb row hrow hid).2]⟩
  | finalizeOutputPersisted executionId =>
    obtain ⟨row,_,_,_,rfl⟩ := finalizeOutputPersisted_ok (commit_ok.mp h)
    refine Bare.update_other ?_ (by simpa [fills] using hfills) _
    split
    · exact hb.supersede _ _
    · exact hb
  | removeExecution removed =>
    rw [← Except.ok.inj (commit_ok.mp h)]
    exact hb.subset fun row hrow => (mem_removeExecution.mp hrow).1
  | addTags key tags =>
    rcases addTags_ok (commit_ok.mp h) with rfl | ⟨_,rfl⟩
    · exact hb
    · exact hb.update fun row hrow hid _ => hb row hrow hid
  | addInputArtifacts key artifacts =>
    rcases addInputArtifacts_ok (commit_ok.mp h) with rfl | ⟨row,hcurrent,_,rfl⟩
    · exact hb
    · -- the current row is servable, so it is not the bare one
      obtain ⟨hrow,_,hservable⟩ := Db.currentRow_mem hcurrent
      refine hb.update_other (fun hid => ?_) _
      rw [hb.not_servable hrow hid] at hservable
      cases hservable
  | softPurgeExecution key =>
    rw [← Except.ok.inj (commit_ok.mp h)]
    exact hb.update fun _ _ _ _ => ⟨rfl,rfl⟩
  | hardDeleteExecution key =>
    rw [← Except.ok.inj (commit_ok.mp h)]
    exact hb.subset fun row hrow => (mem_hardDeleteExecution.mp hrow).1

end Bares

/-- The execution that a recording is about, once its id is minted. -/
def recorded : Task → Option ExecutionId
  | .minted executionId => some executionId
  | .running execution | .interrupted execution | .clientFailed execution | .answered execution _
  | .recorded execution _ | .persisting execution _ _ _ _ | .putting execution _ _ _ _ _
  | .marking execution _ _ _ _ _ | .failing execution _ _ _ _ => some execution.executionId
  | _ => none

/-- The executions that a repair has listed and not passed yet. -/
def listed : Task → List ExecutionId
  | .reconciling run _ _ rest | .blobFound run _ _ _ rest | .blobMissed run _ _ rest =>
    run.executionId::rest.map (·.executionId)
  | _ => []

/-- The task is not about the execution: it neither records nor repairs it. -/
structure Avoids (id : ExecutionId) (task : Task) : Prop where
  /-- It does not record it. -/
  recorded : recorded task≠some id
  /-- It does not list it for repair. -/
  listed : id∉listed task

/-- A task that records and repairs nothing avoids every execution. -/
theorem Avoids.of_nothing {id : ExecutionId} {task : Task} (hrecorded : BareRows.recorded task=none)
    (hlisted : BareRows.listed task=[]) : Avoids id task :=
  ⟨by rw [hrecorded]; exact (Option.some_ne_none id).symm,by rw [hlisted]; exact List.not_mem_nil⟩

/-- An error that goes on ends what a task is about. -/
theorem Avoids.raised (id : ExecutionId) (task : Task) (e : PyExc) : Avoids id (task.raised e) := by
  cases task <;> simp only [Task.raised] <;>
    first | exact .of_nothing rfl rfl | (split <;> exact .of_nothing rfl rfl)

/-- A released lock ends what a task is about. -/
theorem Avoids.released (id : ExecutionId) (task : Task) : Avoids id task.released := by
  cases task with
  | filling hit target todo => cases todo <;> exact .of_nothing rfl rfl
  | _ => exact .of_nothing rfl rfl

/-- The next run of a repair is one that it listed. -/
theorem Avoids.nextRun {id : ExecutionId} {runs : List UnpersistedRun}
    (h : id∉runs.map (·.executionId)) : Avoids id (.nextRun runs) := by
  cases runs with
  | nil => exact .of_nothing rfl rfl
  | cons run rest => exact ⟨(Option.some_ne_none id).symm,h⟩

/-- So it is after one of its blobs. -/
theorem Avoids.reconciled {id : ExecutionId} {run : UnpersistedRun} {rest : List UnpersistedRun}
    (h : id∉run.executionId::rest.map (·.executionId)) (todo : List BlobKey) (complete : Bool) :
    Avoids id (.reconciled run todo complete rest) := by
  unfold Task.reconciled
  split
  · exact .nextRun fun hmem => h (List.mem_cons_of_mem _ hmem)
  · exact ⟨(Option.some_ne_none id).symm,h⟩

section Steps
variable {Command : Type} {locks : LockMode} {faults : Faults Command} {thread : ThreadId}
  {scope : Scope} {fingerprint : Bytes → Digest} {id : ExecutionId}

/-- A generated id stays generated. -/
theorem answers_minted {call : Call Command} {w w' : World} {r : Except PyExc call.Ret}
    (h : Answers locks faults thread call w r w') (hid : id∈w.minted) : id∈w'.minted := by
  cases h with
  | newExecutionId fresh hfresh => exact List.mem_cons_of_mem _ hid
  | _ => exact hid

/-- No turn of a task that avoids an execution attaches anything to it. -/
theorem turn_fills {φ φ' : Phase} {call : StoreCall} {a : call.Ret}
    (h : Turn scope fingerprint φ (.store call : Call Command) (.ok a) φ') (hav : Avoids id φ.task) :
    fills id call=false := by
  cases h with
  | quiet hquiet =>
    cases call <;> first | rfl | exact nomatch hquiet
  | gate hgate =>
    rcases hgate with hc | hc | ⟨_,hc⟩
    · cases hc
    · cases hc
    · cases hc
      rfl
  | save hkey hprogress =>
    simp [fills,hprogress.outputPersisted,hprogress.artifacts]
  | persist => simpa [fills,BareRows.recorded] using hav.recorded
  | finalize => simpa [fills,BareRows.recorded] using hav.recorded
  | repairFinalize =>
    have hne := List.ne_of_not_mem_cons hav.listed
    simpa [fills] using hne.symm
  | _ => rfl

/-- A turn of a task that avoids a bare execution, whose id is not minted anew,
avoids it still. -/
theorem turn_avoids {φ φ' : Phase} {call : Call Command} {r : Except PyExc call.Ret} {w w' : World}
    (h : Turn scope fingerprint φ call r φ') (hans : Answers locks faults thread call w r w')
    (hminted : id∈w.minted) (hbare : Bare id w.db) (hav : Avoids id φ.task) : Avoids id φ'.task := by
  cases h with
  | raise => exact .raised _ _ _
  | release => exact .released _ _
  | releaseRaised hrelease =>
    cases hans with
    | fault hcall _ => exact absurd hrelease (by simp [hcall])
    | reject => exact nomatch hrelease
    | runClient => exact nomatch hrelease
  | mint hscope executionId =>
    cases hans with
    | newExecutionId fresh hfresh =>
      have hne : executionId≠id := fun he => hfresh (he ▸ hminted)
      exact ⟨fun he => hne (Option.some.inj he),List.not_mem_nil⟩
  | list hscope runs =>
    obtain ⟨now,db,ht,rfl⟩ := answers_store_ok hans
    obtain ⟨hlisted,_⟩ := runsAwaitingPersistence_ok (reading_ok.mp ht).1
    refine .nextRun fun hmem => ?_
    obtain ⟨run,hrun,rfl⟩ := List.mem_map.mp hmem
    obtain ⟨row,hrow,hawaiting,hu⟩ := hlisted run hrun
    rw [hbare.not_awaiting hrow (unpersistedRun_ok hu).2.1.symm] at hawaiting
    cases hawaiting
  | repairMark => exact .reconciled hav.listed _ _
  | repairFail => exact .reconciled hav.listed _ _
  | repairFinalize => exact .nextRun fun hmem => hav.listed (List.mem_cons_of_mem _ hmem)
  | _ => first | exact ⟨hav.recorded,hav.listed⟩ | exact .of_nothing rfl rfl

/-- A call that a caller makes while it avoids a bare execution leaves it bare. -/
theorem turn_bare {φ φ' : Phase} {call : Call Command} {r : Except PyExc call.Ret} {w w' : World}
    (h : Turn scope fingerprint φ call r φ') (hans : Answers locks faults thread call w r w')
    (hbare : Bare id w.db) (hav : Avoids id φ.task) : Bare id w'.db := by
  cases hans with
  | commit now ht => exact transact_bare hbare (turn_fills h hav) ht
  | _ => exact hbare

end Steps

/-- Whatever operations anybody starts on this store, in any number and any
order, with any faults, the execution is servable in no state they lead to. -/
def NeverServable (Command : Type) (fingerprint : Bytes → Digest) (w : World) (id : ExecutionId) : Prop :=
  ∀ (ι : Type) [DecidableEq ι] (ops : ι → Operation Command) (thread : ι → ThreadId) (locks : LockMode)
    (faults : Faults Command) (c : Pool (Call Command) Call.Ret PyExc (fun _ : ι => Unit) World),
    PoolReach (fun i => Answers locks faults (thread i)) (fun i => program fingerprint (ops i),w) c →
    ∀ row∈c.2.db.executions,row.executionId=id → row.servable=false

/-- A bare execution is never servable again. -/
theorem Bare.neverServable {Command : Type} {fingerprint : Bytes → Digest} {w : World} {id : ExecutionId}
    (hminted : id∈w.minted) (h : Bare id w.db) : NeverServable Command fingerprint w id := by
  intro ι _ ops thread locks faults c hreach
  have hkeeps : PoolKeeps (fun _ : ι => Turn Scope.full fingerprint)
      (fun i => (Answers locks faults (thread i) : Sem (Call Command) Call.Ret PyExc World))
      fun phases w => id∈w.minted ∧ Bare id w.db ∧ ∀ i,Avoids id (phases i).task := by
    intro phases i call r φ' w w' hturn hans hj
    obtain ⟨hm,hb,hav⟩ := hj
    refine ⟨answers_minted hans hm,turn_bare hturn hans hb (hav i),fun j => ?_⟩
    by_cases hj : j=i
    · subst hj
      rw [Function.update_self]
      exact turn_avoids hturn hans hm hb (hav j)
    · rw [Function.update_of_ne hj]
      exact hav j
  have hfollows : PoolFollows (fun _ : ι => Turn Scope.full fingerprint)
      (fun _ _ _ => True) (fun i => program fingerprint (ops i)) (fun _ => Phase.start) := by
    intro i
    exact Follows.weaken (conforms_program rfl rfl rfl (ops i) fun _ => rfl) fun _ _ _ => trivial
  obtain ⟨_,⟨_,hbare,_⟩,_⟩ := hkeeps.reach hfollows ⟨hminted,h,fun _ => .of_nothing rfl rfl⟩ hreach
  exact fun row hrow hid => hbare.not_servable hrow hid

end GenericMlCache.BareRows
