import GenericMlCache.AnsweredRuns
import GenericMlCache.KeptHistory

/-!
# Refreshes beside an answer

Any number of refreshes, of any keys, under any locks and with any faults. Until
one of them has recorded a new success for a key, the key's current execution
stays what it was, row, documents and blobs: a refresh whose client raises, whose
documents cannot be stored or that stops anywhere leaves the old answer.
-/

namespace GenericMlCache.RefreshRuns

open CallProgram CallAutomaton PythonText ExecutionModel SqliteStore ExecutionRepository
  ExecutionQueries RepositoryCalls ServicePorts StorePurge CachedExecution ServiceAutomaton
  ServiceConformance ServiceOperations StoreSoundness BareRows ReturnedRuns OwnedDocuments KeptHistory

/-- The second row is the first one with other tags, and current unless a row of
the recorded execution has taken its place. -/
structure Aged (own : Option ExecutionId) (db' : Db) (row row' : ExecutionRow) : Prop where
  /-- Only its tags and its supersession may differ. -/
  same : row'=row.update fun c => { c with tags := row'.tags, supersededAt := row'.supersededAt }
  /-- It is superseded by the recorded execution alone. -/
  current : row'.supersededAt=row.supersededAt ∨ row.servable=true ∧
    ∃ r∈db'.executions,r.executionKey=row.executionKey ∧ r.servable=true ∧ own=some r.executionId

/-- The rows outside one execution stay, and no others come. -/
structure Spared (own : Option ExecutionId) (db db' : Db) : Prop where
  /-- The other rows stay. -/
  rows : ∀ row∈db.executions,own≠some row.executionId → ∃ row'∈db'.executions,Aged own db' row row'
  /-- No others come. -/
  back : ∀ row'∈db'.executions,own≠some row'.executionId →
    ∃ row∈db.executions,row.executionId=row'.executionId

section Rows
variable {own : Option ExecutionId} {db db' : Db} {row row' : ExecutionRow}

/-- A row as it was. -/
theorem Aged.refl (own : Option ExecutionId) (db' : Db) (row : ExecutionRow) : Aged own db' row row :=
  ⟨rfl,Or.inl rfl⟩

/-- What ages keeps its ids. -/
theorem Aged.executionId (h : Aged own db' row row') : row'.executionId=row.executionId := by
  rw [h.same]
  rfl

/-- It keeps its key. -/
theorem Aged.executionKey (h : Aged own db' row row') : row'.executionKey=row.executionKey := by
  rw [h.same]
  rfl

/-- A row that stays current is servable still. -/
theorem Aged.servable (h : Aged own db' row row') (hcurrent : row'.supersededAt=row.supersededAt) :
    row'.servable=row.servable := by
  rw [h.same]
  simp [MutableColumns.servable,hcurrent]

/-- Nothing changed. -/
theorem Spared.refl (own : Option ExecutionId) (db : Db) : Spared own db db :=
  ⟨fun row hrow _ => ⟨row,hrow,.refl own db row⟩,fun row hrow _ => ⟨row,hrow,rfl⟩⟩

/-- Fewer rows of the execution itself. -/
theorem spared_remove (id : ExecutionId) (db : Db) : Spared (some id) db (removeExecution id db) :=
  ⟨fun row hrow hown => ⟨row,mem_removeExecution.mpr ⟨hrow,fun h => hown (by rw [h])⟩,.refl _ _ row⟩,
    fun row hrow _ => ⟨row,(mem_removeExecution.mp hrow).1,rfl⟩⟩

/-- An update of the execution itself. -/
theorem spared_own {id : ExecutionId} (f : MutableColumns → MutableColumns) (db : Db) :
    Spared (some id) db (db.updateWhere (hasId id) f) := by
  refine ⟨fun row hrow hown => ⟨row,Db.mem_updateWhere_of_not hrow ?_,.refl _ _ row⟩,fun row' hrow' _ => ?_⟩
  · exact (hasId_eq_false _ _).mpr fun h => hown (by rw [h])
  · obtain ⟨row,hrow,rfl⟩ := Db.mem_updateWhere.mp hrow'
    exact ⟨row,hrow,by split <;> rfl⟩

/-- New tags. -/
theorem spared_tags (own : Option ExecutionId) (p : ExecutionRow → Bool) (f : List PyStr → List PyStr) (db : Db) :
    Spared own db (db.updateWhere p fun c => { c with tags := f c.tags }) := by
  refine ⟨fun row hrow _ => ?_,fun row' hrow' _ => ?_⟩
  · by_cases hp : p row=true
    · exact ⟨_,Db.mem_updateWhere_of hrow hp,rfl,Or.inl rfl⟩
    · exact ⟨row,Db.mem_updateWhere_of_not hrow (by simpa using hp),.refl _ _ row⟩
  · obtain ⟨row,hrow,rfl⟩ := Db.mem_updateWhere.mp hrow'
    exact ⟨row,hrow,by split <;> rfl⟩

/-- A saved run in progress is one new row. -/
theorem spared_save {execution : MlExecution} {now : Timestamp} (hprogress : IsInProgress execution)
    (h : save execution now db=.ok db') : Spared (some execution.executionId) db db' := by
  obtain ⟨id,_,_,hrows⟩ := save_inProgress hprogress h
  refine ⟨fun row hrow _ => ⟨row,by rw [hrows]; exact List.mem_append_left _ hrow,.refl _ _ row⟩,?_⟩
  intro row' hrow' hown
  rw [hrows,List.mem_append,List.mem_singleton] at hrow'
  rcases hrow' with hrow' | rfl
  · exact ⟨row',hrow',rfl⟩
  · exact absurd rfl hown

/-- A finalized run takes the place of its key's current row, or changes no other row. -/
theorem spared_finalize {id : ExecutionId} {now : Timestamp}
    (hrow : ∃ row∈db.executions,row.executionId=id ∧ row.outputPersisted=false ∧ row.supersededAt=none)
    (h : finalizeOutputPersisted id now db=.ok db') : Spared (some id) db db' := by
  obtain ⟨run,hrun,hid,hunpersisted,hopen⟩ := hrow
  obtain ⟨target,htarget,htid,_,rfl⟩ := finalizeOutputPersisted_ok h
  cases db.row_unique htarget hrun (htid.trans hid.symm)
  by_cases hstate : run.state=.value .success
  swap
  · rw [if_neg hstate]
    exact spared_own _ db
  rw [if_pos hstate]
  have hkept : run∈(supersedePriorCurrent db run.executionKey now).executions := by
    refine Db.mem_updateWhere_of_not hrun ?_
    simp [isCurrent,MutableColumns.servable,hunpersisted]
  refine ⟨fun row hrow hown => ?_,fun row' hrow' _ => ?_⟩
  · have hne : hasId id row=false := (hasId_eq_false _ _).mpr fun h => hown (by rw [h])
    by_cases hcurrent : isCurrent run.executionKey row=true
    · obtain ⟨hkey,hservable⟩ := (isCurrent_iff _ _).mp hcurrent
      refine ⟨_,Db.mem_updateWhere_of_not (Db.mem_updateWhere_of hrow hcurrent) hne,rfl,Or.inr ⟨hservable,?_⟩⟩
      refine ⟨_,Db.mem_updateWhere_of hkept ((hasId_iff _ _).mpr hid),hkey.symm,?_,by rw [← hid]; rfl⟩
      exact (MutableColumns.servable_iff _).mpr ⟨hstate,rfl,hopen⟩
    · have hmem : row∈(supersedePriorCurrent db run.executionKey now).executions :=
        Db.mem_updateWhere_of_not hrow (by rw [Bool.not_eq_true] at hcurrent; exact hcurrent)
      exact ⟨row,Db.mem_updateWhere_of_not hmem hne,.refl _ _ row⟩
  · obtain ⟨between,hbetween,rfl⟩ := Db.mem_updateWhere.mp hrow'
    obtain ⟨row,hrow,rfl⟩ := Db.mem_updateWhere.mp hbetween
    exact ⟨row,hrow,by split <;> split <;> rfl⟩

/-- The calls that touch one execution's rows alone. -/
def Solely (own : Option ExecutionId) : StoreCall → Prop
  | .save execution => own=some execution.executionId ∧ IsInProgress execution
  | .recordOutcome execution => own=some execution.executionId
  | .persistArtifact id _ | .markArtifactsStored id _ | .markArtifactsFailed id _ _
  | .finalizeOutputPersisted id | .removeExecution id => own=some id
  | .addInputArtifacts _ _ | .softPurgeExecution _ | .hardDeleteExecution _ => False
  | _ => True

/-- A transaction of a recording spares the other rows. -/
theorem transact_spared {now : Timestamp} {call : StoreCall} {a : call.Ret} (hcall : Solely own call)
    (hfinal : ∀ id,call=.finalizeOutputPersisted id →
      ∃ row∈db.executions,row.executionId=id ∧ row.outputPersisted=false ∧ row.supersededAt=none)
    (h : transact now db call=.ok (a,db')) : Spared own db db' := by
  cases call with
  | findCurrent | findAll | runsAwaitingPersistence | totalStoredBytes | currentExecutionsWithSizes
  | executionsByTag | allExecutionKeys =>
    rw [transact_read rfl h]
    exact .refl own db
  | save execution =>
    obtain ⟨rfl,hprogress⟩ := hcall
    exact spared_save hprogress (commit_ok.mp h)
  | recordOutcome execution =>
    obtain ⟨_,_,_,_,_,rfl⟩ := recordOutcome_ok (commit_ok.mp h)
    cases hcall
    exact spared_own _ db
  | persistArtifact id artifact =>
    obtain ⟨_,rfl⟩ := persistArtifact_ok (commit_ok.mp h)
    cases hcall
    exact spared_own _ db
  | markArtifactsStored id blobKey =>
    obtain ⟨_,rfl⟩ := markArtifacts_ok (commit_ok.mp h)
    cases hcall
    exact spared_own _ db
  | markArtifactsFailed id blobKey detail =>
    obtain ⟨_,_,hmark⟩ := ok_of_bind (commit_ok.mp h)
    obtain ⟨_,rfl⟩ := markArtifacts_ok hmark
    cases hcall
    exact spared_own _ db
  | finalizeOutputPersisted id =>
    cases hcall
    exact spared_finalize (hfinal id rfl) (commit_ok.mp h)
  | removeExecution id =>
    rw [← Except.ok.inj (commit_ok.mp h)]
    cases hcall
    exact spared_remove id db
  | addTags key tags =>
    rcases addTags_ok (commit_ok.mp h) with rfl | ⟨id,rfl⟩
    · exact .refl own _
    · exact spared_tags own _ (fun old => tags.foldl insertTag old) db
  | addInputArtifacts | softPurgeExecution | hardDeleteExecution => exact hcall.elim

end Rows

/-- The work of a recorder, which serves, purges and repairs nothing. -/
def Scope.records : Scope := ⟨false,true,false,false⟩

/-- The task is idle or records a run. -/
def records : Task → Bool
  | .idle => true
  | task => (recorded task).isSome

section Turns
variable {Command : Type} {fingerprint : Bytes → Digest} {locks : LockMode} {faults : Faults Command}
variable {thread : ThreadId} {φ φ' : Phase} {w w' : World} {call : Call Command} {r : Except PyExc call.Ret}

/-- A recorder goes on recording, or is idle. -/
theorem turn_records (h : Turn Scope.records fingerprint φ call r φ') (hans : Answers locks faults thread call w r w')
    (hrecords : records φ.task=true) : records φ'.task=true := by
  cases h with
  | quiet | acquire => exact hrecords
  | raise =>
    obtain ⟨held,task,ran⟩ := φ
    cases task <;> first | rfl | exact nomatch hrecords
  | release =>
    obtain ⟨held,task,ran⟩ := φ
    cases task <;> first | rfl | exact nomatch hrecords
  | releaseRaised hrelease => exact (release_answered hrelease hans).elim
  | load hscope | size hscope | list hscope => exact nomatch hscope
  | _ => first | rfl | exact nomatch hrecords

/-- A repository call of a recorder touches the rows of its own run alone. -/
theorem turn_solely {call : StoreCall} {a : call.Ret}
    (h : Turn Scope.records fingerprint φ (.store call : Call Command) (.ok a) φ') (hrecords : records φ.task=true) :
    Solely (recorded φ.task) call := by
  cases h with
  | quiet hquiet => cases call <;> trivial
  | gate hgate =>
    rcases hgate with hc | hc | ⟨key,hc⟩ <;> cases hc
    trivial
  | save hkey hprogress => exact ⟨rfl,hprogress⟩
  | discard | abandon | outcome | persist | mark | fail | finalize => rfl
  | load hscope | size hscope | list hscope => exact nomatch hscope
  | healRow | refetch | attach | fillMark | fillFail | softDrop | hardDrop | repairMark | repairFail
  | repairFinalize => exact nomatch hrecords

/-- A finalized run's row was not promoted before. -/
theorem turn_finalizes {id : ExecutionId} {a : Unit} (hsound : CallerSound fingerprint φ w)
    (h : Turn Scope.records fingerprint φ (.store (.finalizeOutputPersisted id) : Call Command) (.ok a) φ')
    (hrecords : records φ.task=true) :
    ∃ row∈w.db.executions,row.executionId=id ∧ row.outputPersisted=false ∧ row.supersededAt=none := by
  cases h with
  | quiet hquiet => exact nomatch hquiet
  | gate hgate => rcases hgate with hc | hc | ⟨key,hc⟩ <;> cases hc
  | finalize =>
    obtain ⟨_,_,row,hrow,hrun⟩ := hsound.2
    exact ⟨row,hrow,hrun.id,hrun.unpersisted,hrun.current⟩
  | repairFinalize => exact nomatch hrecords

/-- A call of a recorder spares the rows of all other executions. -/
theorem turn_spared (h : Turn Scope.records fingerprint φ call r φ') (hans : Answers locks faults thread call w r w')
    (hsound : CallerSound fingerprint φ w) (hrecords : records φ.task=true) :
    Spared (recorded φ.task) w.db w'.db := by
  cases hans with
  | commit now ht =>
    refine transact_spared (turn_solely h hrecords) (fun id hcall => ?_) ht
    subst hcall
    exact turn_finalizes hsound h hrecords
  | _ => exact .refl _ _

/-- The identities of the rows outside a recorder's run stay. -/
theorem turn_identities (h : Turn Scope.records fingerprint φ call r φ')
    (hans : Answers locks faults thread call w r w') (hrecords : records φ.task=true) :
    Lasting (recorded φ.task) w.db w'.db := by
  cases hans with
  | @commit _ storeCall _ _ now ht =>
    have hsolely := turn_solely h hrecords
    refine transact_lasting ?_ ht
    cases storeCall <;> first | exact hsolely.1 | exact hsolely | trivial
  | _ => exact .refl _ _

/-- A recorder puts the blobs of its own run and removes none. -/
theorem turn_blobs (h : Turn Scope.records fingerprint φ call r φ') (hans : Answers locks faults thread call w r w')
    (hsound : CallerSound fingerprint φ w) (hrecords : records φ.task=true) {id : ExecutionId}
    (hid : recorded φ.task≠some id) (digest : Digest) :
    w'.blobs.get (.forExecution id digest)=w.blobs.get (.forExecution id digest) := by
  cases hans with
  | blobPut =>
    cases h with
    | quiet hquiet => exact nomatch hquiet
    | gate hgate => rcases hgate with hc | hc | ⟨key,hc⟩ <;> cases hc
    | fillPut => exact nomatch hrecords
    | put =>
      obtain ⟨key,hkey⟩ := blobKey_of_isDocument (Recording.document hsound.2)
      rw [BlobStore.get_put,hkey,if_neg]
      intro heq
      cases heq
      exact hid rfl
  | blobRemove =>
    cases h with
    | quiet hquiet => exact nomatch hquiet
    | gate hgate => rcases hgate with hc | hc | ⟨key,hc⟩ <;> cases hc
    | healBlob | dropBlob => exact nomatch hrecords
  | _ => rfl

/-- A run's row that is not promoted stays as it is. -/
theorem isRunRow_aged {own : Option ExecutionId} {db' : Db} {execution : MlExecution} {state : ExecutionState}
    {documents : List Artifact} {row row' : ExecutionRow} (h : IsRunRow execution state documents row)
    (haged : Aged own db' row row') : IsRunRow execution state documents row' := by
  have hcurrent : row'.supersededAt=row.supersededAt := by
    rcases haged.current with hsame | ⟨hservable,_⟩
    · exact hsame
    · simp [MutableColumns.servable,h.unpersisted] at hservable
  have hsame := haged.same
  exact ⟨by rw [haged.executionId,h.id],by rw [haged.executionKey,h.key],by rw [hsame]; exact h.state,
    by rw [hsame]; exact h.unpersisted,by rw [hcurrent,h.current],by rw [hsame]; exact h.artifacts⟩

/-- What a recorder knows of its run it knows after another recorder's call. -/
theorem taskSound_spared {own : Option ExecutionId} {task : Task} (hrecords : records task=true)
    (hown : ∀ id,recorded task=some id → own≠some id) (hspared : Spared own w.db w'.db)
    (hminted : ∀ id∈w.minted,id∈w'.minted) (h : TaskSound fingerprint w task) : TaskSound fingerprint w' task := by
  have hrow : ∀ {execution : MlExecution} {state : ExecutionState} {documents : List Artifact},
      recorded task=some execution.executionId → (∃ row∈w.db.executions,IsRunRow execution state documents row) →
      ∃ row∈w'.db.executions,IsRunRow execution state documents row := by
    rintro execution state documents hrecorded ⟨row,hmem,hrun⟩
    obtain ⟨row',hmem',haged⟩ := hspared.rows row hmem (by rw [hrun.id]; exact hown _ hrecorded)
    exact ⟨row',hmem',isRunRow_aged hrun haged⟩
  cases task with
  | idle => trivial
  | minted id =>
    refine ⟨hminted id h.1,fun row' hrow' hid => ?_⟩
    obtain ⟨row,hmem,heq⟩ := hspared.back row' hrow' (by rw [hid]; exact hown id rfl)
    exact h.2 row hmem (heq.trans hid)
  | running execution | interrupted execution | clientFailed execution | answered execution result =>
    exact ⟨h.1,hrow rfl h.2⟩
  | recorded execution result => exact ⟨h.1,hrow rfl h.2⟩
  | persisting | putting | marking | failing => exact ⟨h.1,h.2.1,hrow rfl h.2.2⟩
  | _ => exact nomatch hrecords

/-- The row is there as it was, with other tags at most, and it answers its key
unless a run recorded since does. -/
def Answering (w₀ w : World) (entry : ExecutionRow) : Prop :=
  ∃ row∈w.db.executions,(row=entry.update fun c => { c with tags := row.tags, supersededAt := row.supersededAt }) ∧
    (row.supersededAt=none ∨ ∃ r∈w.db.executions,r.executionKey=entry.executionKey ∧ r.servable=true ∧
      r.executionId∉w₀.minted)

/-- What recorders side by side keep of a first store. -/
structure Unharmed {ι : Type} (fingerprint : Bytes → Digest) (w₀ : World) (phases : ι → Phase) (w : World) : Prop where
  /-- The store is sound. -/
  sound : Sound fingerprint w
  /-- No minted id is forgotten. -/
  minted : ∀ id∈w₀.minted,id∈w.minted
  /-- Everyone only records. -/
  records : ∀ i,records (phases i).task=true
  /-- Each task holds what the store knows. -/
  tasks : ∀ i,TaskSound fingerprint w (phases i).task
  /-- Who records does so under an id minted since. -/
  own : ∀ i id,recorded (phases i).task=some id → id∈w.minted ∧ id∉w₀.minted
  /-- No two record under one id. -/
  apart : ∀ i j id,recorded (phases i).task=some id → recorded (phases j).task=some id → i=j
  /-- The call identities last. -/
  identities : Lasting none w₀.db w.db
  /-- The first store's current answers still answer. -/
  answers : ∀ entry∈w₀.db.executions,entry.servable=true → Answering w₀ w entry
  /-- The first store's blobs stay. -/
  blobs : ∀ id∈w₀.minted,∀ digest,w.blobs.get (.forExecution id digest)=w₀.blobs.get (.forExecution id digest)

/-- A servable row keeps answering after a recorder's call. -/
theorem answering_step {w₀ : World} {entry : ExecutionRow} {own : Option ExecutionId}
    (hspared : Spared own w.db w'.db) (hown : ∀ id,own=some id → id∉w₀.minted)
    (hrun : ∀ id,own=some id → ∀ row∈w.db.executions,row.executionId=id → row.servable=false)
    (hentry : entry.executionId∈w₀.minted) (h : Answering w₀ w entry) :
    Answering w₀ w' entry := by
  obtain ⟨row,hrow,hsame,hanswers⟩ := h
  have hid : row.executionId=entry.executionId := by rw [hsame]; rfl
  have hkey : row.executionKey=entry.executionKey := by rw [hsame]; rfl
  obtain ⟨row',hrow',haged⟩ := hspared.rows row hrow fun he => hown _ he (by rw [hid]; exact hentry)
  have hrow'' : row'=entry.update fun c => { c with tags := row'.tags, supersededAt := row'.supersededAt } := by
    have haged' := haged.same
    rw [hsame] at haged'
    exact haged'
  refine ⟨row',hrow',hrow'',?_⟩
  rcases hanswers with hopen | ⟨r,hr,hrkey,hrservable,hrfresh⟩
  · rcases haged.current with hcurrent | ⟨_,r,hr,hrkey,hrservable,hrown⟩
    · exact Or.inl (hcurrent.trans hopen)
    · exact Or.inr ⟨r,hr,hrkey.trans hkey,hrservable,hown _ hrown⟩
  · refine Or.inr ?_
    -- the run that answers is nobody's recording, since those are not promoted
    have hother : own≠some r.executionId := by
      intro he
      rw [hrun _ he r hr rfl] at hrservable
      exact nomatch hrservable
    obtain ⟨r',hr',hraged⟩ := hspared.rows r hr hother
    rcases hraged.current with hcurrent | ⟨_,s,hs,hskey,hsservable,hsown⟩
    · exact ⟨r',hr',hraged.executionKey.trans hrkey,(hraged.servable hcurrent).trans hrservable,
        by rw [hraged.executionId]; exact hrfresh⟩
    · exact ⟨s,hs,hskey.trans hrkey,hsservable,hown _ hsown⟩

/-- A recorder's own row is not servable. -/
theorem own_not_servable {task : Task} (h : TaskSound fingerprint w task) {id : ExecutionId}
    (hid : recorded task=some id) :
    ∀ row∈w.db.executions,row.executionId=id → row.servable=false := by
  have hrun : ∀ {execution : MlExecution} {state : ExecutionState} {documents : List Artifact},
      execution.executionId=id → (∃ row∈w.db.executions,IsRunRow execution state documents row) →
      ∀ row∈w.db.executions,row.executionId=id → row.servable=false := by
    rintro execution state documents heq ⟨own,hown,hisrun⟩ row hrow hrowid
    have hsame : row=own := w.db.row_unique hrow hown (hrowid.trans (heq.symm.trans hisrun.id.symm))
    rw [hsame]
    simp [MutableColumns.servable,hisrun.unpersisted]
  cases task with
  | minted minted =>
    cases hid
    exact fun row hrow hrowid => absurd hrowid (h.2 row hrow)
  | running | interrupted | clientFailed | answered | recorded => exact hrun (Option.some.inj hid) h.2
  | persisting | putting | marking | failing => exact hrun (Option.some.inj hid) h.2.2
  | _ => cases hid

end Turns

section Refreshes
variable {Command : Type} {fingerprint : Bytes → Digest} {locks : LockMode} {faults : Faults Command}

/-- Every call of recorders side by side leaves the first store unharmed. -/
theorem keeps_unharmed {ι : Type} [DecidableEq ι] {thread : ι → ThreadId} {w₀ : World}
    (hminted : ∀ row∈w₀.db.executions,row.executionId∈w₀.minted) :
    PoolKeeps (fun _ : ι => Turn Scope.records fingerprint)
      (fun i => (Answers locks faults (thread i) : Sem (Call Command) Call.Ret PyExc World))
      (Unharmed fingerprint w₀) := by
  intro phases i call r φ' w w' hturn hans h
  have hmover : CallerSound fingerprint (phases i) w := ⟨h.sound,h.tasks i⟩
  have hsound := keeps_callerSound _ _ _ _ _ _ hturn hans hmover
  have hspared := turn_spared hturn hans hmover (h.records i)
  have hfresh : ∀ id,recorded (phases i).task=some id → id∉w₀.minted := fun id hid => (h.own i id hid).2
  have hminted' : ∀ id∈w.minted,id∈w'.minted := fun id hid => answers_minted hans hid
  have hrecorded : ∀ id,recorded φ'.task=some id →
      (id∉w.minted ∧ id∈w'.minted) ∨ recorded (phases i).task=some id := by
    intro id hid
    rcases turn_recorded hturn hans hid with hgain | ⟨hbefore,_⟩
    · obtain ⟨hnew,hmem,_,_⟩ := answers_gain hans
      exact Or.inl ⟨hnew id hgain,(hmem id).mpr (Or.inr hgain)⟩
    · exact Or.inr hbefore
  have hothers : ∀ j,j≠i → ∀ id,recorded (phases j).task=some id → recorded (phases i).task≠some id :=
    fun j hj id hid hi => hj (h.apart j i id hid hi)
  refine ⟨hsound.1,fun id hid => hminted' id (h.minted id hid),fun j => ?_,fun j => ?_,fun j id hid => ?_,
    fun j k id hj hk => ?_,?_,fun entry hentry hservable => ?_,fun id hid digest => ?_⟩
  · by_cases hj : j=i
    · subst hj
      rw [Function.update_self]
      exact turn_records hturn hans (h.records j)
    · rw [Function.update_of_ne hj]
      exact h.records j
  · by_cases hj : j=i
    · subst hj
      rw [Function.update_self]
      exact hsound.2
    · rw [Function.update_of_ne hj]
      exact taskSound_spared (h.records j) (hothers j hj) hspared hminted' (h.tasks j)
  · by_cases hj : j=i
    · subst hj
      rw [Function.update_self] at hid
      rcases hrecorded id hid with ⟨hnew,hmem⟩ | hbefore
      · exact ⟨hmem,fun hold => hnew (h.minted id hold)⟩
      · exact ⟨hminted' id (h.own j id hbefore).1,(h.own j id hbefore).2⟩
    · rw [Function.update_of_ne hj] at hid
      exact ⟨hminted' id (h.own j id hid).1,(h.own j id hid).2⟩
  · -- an id minted in this step is nobody else's yet
    have hmine : ∀ j,j≠i → recorded φ'.task=some id → recorded (phases j).task≠some id := by
      intro j hji hid hjd
      rcases hrecorded id hid with ⟨hnew,_⟩ | hbefore
      · exact hnew (h.own j id hjd).1
      · exact hji (h.apart j i id hjd hbefore)
    by_cases hji : j=i
    · by_cases hki : k=i
      · rw [hji,hki]
      · subst hji
        rw [Function.update_self] at hj
        rw [Function.update_of_ne hki] at hk
        exact absurd hk (hmine k hki hj)
    · rw [Function.update_of_ne hji] at hj
      by_cases hki : k=i
      · subst hki
        rw [Function.update_self] at hk
        exact absurd hj (hmine j hji hk)
      · rw [Function.update_of_ne hki] at hk
        exact h.apart j k id hj hk
  · have hstep := turn_identities hturn hans (h.records i)
    refine ⟨fun row hrow hown => ?_,fun row hrow hown identity hidentity hkey => ?_⟩
    · obtain ⟨row',hrow',hlasts⟩ := h.identities.rows row hrow hown
      have hne : recorded (phases i).task≠some row'.executionId := by
        rw [hlasts.executionId]
        exact fun hid => hfresh _ hid (hminted row hrow)
      obtain ⟨row'',hrow'',hlasts'⟩ := hstep.rows row' hrow' hne
      exact ⟨row'',hrow'',hlasts.trans hlasts'⟩
    · obtain ⟨row',hrow',hlasts⟩ := h.identities.rows row hrow hown
      have hne : recorded (phases i).task≠some row'.executionId := by
        rw [hlasts.executionId]
        exact fun hid => hfresh _ hid (hminted row hrow)
      exact hstep.identities row' hrow' hne identity (h.identities.identities row hrow hown identity hidentity hkey)
        (by rw [hlasts.executionKey]; exact hkey)
  · exact answering_step hspared hfresh (fun id hid => own_not_servable (h.tasks i) hid) (hminted entry hentry)
      (h.answers entry hentry hservable)
  · have hne : recorded (phases i).task≠some id := fun he => hfresh id he hid
    rw [turn_blobs hturn hans hmover (h.records i) hne digest]
    exact h.blobs id hid digest

/-- A current execution loads as it did where its row and its identity are as they were. -/
theorem findCurrent_answering {w₀ w : World} {entry row : ExecutionRow} (hwell : WellFormed w₀.db)
    (hentry : entry∈w₀.db.executions) (hone₀ : w₀.db.AtMostOneCurrent) (hone : w.db.AtMostOneCurrent)
    (hservable : entry.servable=true) (hidentities : Lasting none w₀.db w.db) (hrow : row∈w.db.executions)
    (hsame : row=entry.update fun c => { c with tags := row.tags, supersededAt := row.supersededAt })
    (hopen : row.supersededAt=none) : findCurrent entry.executionKey w.db=findCurrent entry.executionKey w₀.db := by
  obtain ⟨hstate,hpersisted,hentryOpen⟩ := (MutableColumns.servable_iff _).mp hservable
  have hkey : row.executionKey=entry.executionKey := by rw [hsame]; rfl
  have hrowServable : row.servable=true := by
    rw [hsame]
    exact (MutableColumns.servable_iff _).mpr ⟨hstate,hpersisted,hopen⟩
  have hcurrent := hone.currentRow hrow hrowServable
  rw [hkey] at hcurrent
  obtain ⟨identity,hidentity,hidkey⟩ := hwell.identified entry hentry
  have hfound : ∀ db : Db,identity∈db.callIdentities → loadIdentity db entry.executionKey=identity.identity.decode := by
    intro db hmem
    have hfind : (db.callIdentities.find? fun i => decide (i.executionKey=entry.executionKey))=some identity := by
      cases hf : db.callIdentities.find? fun i => decide (i.executionKey=entry.executionKey) with
      | none => exact absurd (List.find?_eq_none.mp hf identity hmem) (by simp [hidkey])
      | some other =>
        have hother : other.executionKey=entry.executionKey := by simpa using List.find?_some hf
        have hunique := List.inj_on_of_nodup_map (List.pairwise_map.mpr db.identityKeysUnique)
          (List.mem_of_find?_eq_some hf) hmem (hother.trans hidkey.symm)
        rw [hunique]
    simp only [loadIdentity,hfind]
  have hload : loadExecution w.db row=loadExecution w₀.db entry := by
    have hkept := hidentities.identities entry hentry (fun h => nomatch h) identity hidentity hidkey
    rw [hsame]
    simp only [loadExecution,loadColumns,loadArtifacts,loadFailure,loadSupersededAt,ExecutionRow.update_columns,
      ExecutionRow.update_executionKey,ExecutionRow.update_kind,ExecutionRow.update_executionId,
      ExecutionRow.update_id,hopen,hentryOpen,hfound _ hidentity,hfound _ hkept]
  unfold findCurrent
  rw [hcurrent,hone₀.currentRow hentry hservable]
  simp only [hload]

/-- Refreshes of stores without a quota. -/
structure Refreshes {ι : Type} (service : ι → CachedMlExecutionService Command) (command : ι → Command) : Prop where
  /-- They refresh the cache. -/
  mode : ∀ i,(service i).cacheMode (command i)=.refresh
  /-- The store has no quota. -/
  quota : ∀ i,(service i).maxSize=none

/-- What a pool of refreshes keeps of a current execution, beside a sound store. -/
theorem refresh_keeps {ι : Type} [DecidableEq ι] (service : ι → CachedMlExecutionService Command)
    (command : ι → Command) (hrefreshes : Refreshes service command) (locks : LockMode) (faults : Faults Command) (thread : ι → ThreadId)
    (w₀ w : World) (progs : ι → ServiceM Command MlExecution) (hsound : Sound fingerprint w₀)
    (h : PoolReach (fun i => Answers locks faults (thread i))
      (fun i => execute (service i) fingerprint (command i),w₀) (progs,w)) (entry : ExecutionRow)
    (hentry : entry∈w₀.db.executions) (hservable : entry.servable=true) :
    (Sound fingerprint w ∧ (findCurrent entry.executionKey w.db=findCurrent entry.executionKey w₀.db ∨
      ∃ row,w.db.currentRow entry.executionKey=some row ∧ row.executionId∉w₀.minted)) ∧
    ∀ a∈entry.artifacts,∀ blobKey,a.blobKey=.value blobKey → w.blobs.get blobKey=w₀.blobs.get blobKey := by
  have hfollows : PoolFollows (fun _ : ι => Turn Scope.records fingerprint) (fun _ _ _ => True)
      (fun i => execute (service i) fingerprint (command i)) (fun _ => Phase.start) := by
    intro i
    have hcovers : Covers Scope.records (service i) (command i) :=
      ⟨fun hmode => absurd (hrefreshes.mode i) hmode,rfl,Or.inl (hrefreshes.quota i)⟩
    exact (conforms_execute (service i) [] false hcovers).weaken fun _ _ _ => trivial
  have hstart : Unharmed fingerprint w₀ (fun _ : ι => Phase.start) w₀ :=
    ⟨hsound,fun _ hid => hid,fun _ => rfl,fun _ => trivial,fun _ _ hid => (nomatch hid),
      fun _ _ _ hid => (nomatch hid),.refl none w₀.db,fun row hrow hrowServable =>
        ⟨row,hrow,rfl,Or.inl ((MutableColumns.servable_iff _).mp hrowServable).2.2⟩,fun _ _ _ => rfl⟩
  obtain ⟨_,hkept,_⟩ := (keeps_unharmed hsound.minted).reach hfollows hstart h
  refine ⟨⟨hkept.sound,?_⟩,fun a ha blobKey hkey => ?_⟩
  · obtain ⟨row,hrow,hsame,hopen | ⟨r,hr,hrkey,hrservable,hrfresh⟩⟩ := hkept.answers entry hentry hservable
    · exact Or.inl (findCurrent_answering hsound.wellFormed hentry hsound.oneCurrent hkept.sound.oneCurrent
        hservable hkept.identities hrow hsame hopen)
    · refine Or.inr ⟨r,?_,hrfresh⟩
      rw [← hrkey]
      exact hkept.sound.oneCurrent.currentRow hr hrservable
  · obtain ⟨digest,hdigest⟩ := hsound.owned entry hentry a ha
    cases hkey.symm.trans hdigest
    exact hkept.blobs entry.executionId (hsound.minted entry hentry) digest

/-- Any number of REFRESH executes side by side, of any services and commands, under any locks and with any
faults, each stopped anywhere: every execution that was current loads as it did, with the blobs
that it had, unless a new success of its key has been recorded since; and its blobs stay even then. -/
theorem refresh_keeps_answer {ι : Type} [DecidableEq ι] (service : ι → CachedMlExecutionService Command)
    (command : ι → Command) (hrefreshes : Refreshes service command) (locks : LockMode) (faults : Faults Command) (thread : ι → ThreadId)
    (w₀ w : World) (progs : ι → ServiceM Command MlExecution) (hsound : Sound fingerprint w₀)
    (h : PoolReach (fun i => Answers locks faults (thread i))
      (fun i => execute (service i) fingerprint (command i),w₀) (progs,w)) (entry : ExecutionRow)
    (hentry : entry∈w₀.db.executions) (hservable : entry.servable=true) :
    (findCurrent entry.executionKey w.db=findCurrent entry.executionKey w₀.db ∨
      ∃ row,w.db.currentRow entry.executionKey=some row ∧ row.executionId∉w₀.minted) ∧
    ∀ a∈entry.artifacts,∀ blobKey,a.blobKey=.value blobKey → w.blobs.get blobKey=w₀.blobs.get blobKey := by
  obtain ⟨⟨_,hanswer⟩,hblobs⟩ := refresh_keeps service command hrefreshes locks faults thread w₀ w progs hsound h
    entry hentry hservable
  exact ⟨hanswer,hblobs⟩

/-- The same blobs hydrate the same. -/
theorem hydrated_same {blobs blobs' : BlobStore} {loaded served : List Artifact}
    (hsame : ∀ a∈loaded,blobs.get a.blobKey=blobs'.get a.blobKey)
    (h : UndisturbedRuns.Hydrated blobs loaded served) : UndisturbedRuns.Hydrated blobs' loaded served := by
  induction h with
  | nil => exact .nil
  | @cons a b loaded served hab _ ih =>
    obtain ⟨content,hget,rfl⟩ := hab
    refine .cons ⟨content,?_,rfl⟩ (ih fun a' ha' => hsame a' (List.mem_cons_of_mem _ ha'))
    rw [← hsame a List.mem_cons_self]
    exact hget

/-- A refresh that ended without a new success, or was cut short, costs nothing: once its locks are released
the next undisturbed CACHE execute of the key is answered with the old bytes, and no client is called. -/
theorem refresh_then_replay {ι : Type} [DecidableEq ι] (service : ι → CachedMlExecutionService Command)
    (command : ι → Command) (hrefreshes : Refreshes service command) (locks : LockMode) (faults : Faults Command) (thread : ι → ThreadId)
    (w₀ w : World) (progs : ι → ServiceM Command MlExecution) (hsound : Sound fingerprint w₀)
    (h : PoolReach (fun i => Answers locks faults (thread i))
      (fun i => execute (service i) fingerprint (command i),w₀) (progs,w)) (entry : ExecutionRow)
    (hentry : entry∈w₀.db.executions) (hservable : entry.servable=true)
    (hhealthy : ∀ a∈entry.artifacts,∀ blobKey,a.blobKey=.value blobKey → (w₀.blobs.get blobKey).isSome=true)
    (hunrenewed : ∀ row,w.db.currentRow entry.executionKey=some row → row.executionId∈w₀.minted)
    (replayer : CachedMlExecutionService Command) (asked : Command) (identity : CallIdentity)
    (hidentity : replayer.buildIdentity asked=.ok identity) (hkey : identity.generateKey=entry.executionKey)
    (hcacheable : replayer.isUncacheable asked=false) (hmode : replayer.cacheMode asked=.cache)
    (hdepth : (replayer.persistenceDepth asked).storesOutput=true)
    (htags : UndisturbedRuns.TagsBind replayer asked) (hinput : UndisturbedRuns.InputBinds replayer asked)
    (caller : ThreadId) (r : Except PyExc MlExecution) (s : World × AnsweredRuns.RunTrace)
    (hrun : Ends (AnsweredRuns.watchedRun Command .exclusive caller) (execute replayer fingerprint asked)
      (World.released w,AnsweredRuns.RunTrace.blank) r s) :
    ∃ current served,findCurrent entry.executionKey w₀.db=.ok (some current) ∧
      r=.ok { current with artifacts := served } ∧
      UndisturbedRuns.Hydrated w₀.blobs current.artifacts served ∧ s.2.calledClient=false := by
  obtain ⟨hkept,hblobs⟩ := refresh_keeps service command hrefreshes locks faults thread w₀ w progs hsound h
    entry hentry hservable
  have hsame : findCurrent entry.executionKey w.db=findCurrent entry.executionKey w₀.db := by
    rcases hkept.2 with hsame | ⟨row,hrow,hfresh⟩
    · exact hsame
    · exact absurd (hunrenewed row hrow) hfresh
  have hcurrent := hsound.oneCurrent.currentRow hentry hservable
  obtain ⟨current,hload⟩ := loadExecution_total hsound.wellFormed hentry
  have hfound₀ : findCurrent entry.executionKey w₀.db=.ok (some current) := by
    simp only [findCurrent,hcurrent,hload]
    rfl
  have hfound : findCurrent identity.generateKey (World.released w).db=.ok (some current) := by
    rw [hkey,World.released_db,hsame,hfound₀]
  have hkeys : ∀ a∈current.artifacts,w.blobs.get a.blobKey=w₀.blobs.get a.blobKey ∧
      (w₀.blobs.get a.blobKey).isSome=true := by
    intro a ha
    have hrow : artifactRow a∈entry.artifacts := by
      rw [(loadExecution_ok hload).2.1]
      exact List.mem_map_of_mem ha
    exact ⟨hblobs _ hrow a.blobKey rfl,hhealthy _ hrow a.blobKey rfl⟩
  have hthere : ∀ a∈current.artifacts,((World.released w).blobs.get a.blobKey).isSome=true := by
    intro a ha
    rw [World.released_blobs,(hkeys a ha).1]
    exact (hkeys a ha).2
  have hsafe := @AnsweredRuns.safe_run_healthy Command .exclusive caller replayer fingerprint asked identity
    (World.released w) current hfound (UndisturbedRuns.Readable.of_wellFormed hkept.1.wellFormed _) hthere htags
    fun _ _ => hinput
  obtain ⟨⟨served,hanswer,hhydrated⟩,hcalled⟩ :=
    (AnsweredRuns.safe_execute (fun _ _ _ _ hans => hans) hidentity hcacheable hmode hdepth hsafe).result hrun
  exact ⟨current,served,hfound₀,hanswer,hydrated_same (fun a ha => (hkeys a ha).1) hhydrated,hcalled⟩

end Refreshes

/-- Two refreshes of the recorded call. -/
def refreshTwice : Fin 2 → ServiceM SmallestCommand MlExecution :=
  fun _ => execute smallestService positional ⟨.refresh,.cache⟩

/-- There are two of them. -/
local instance twoRefreshes : NeZero 2 := ⟨by decide⟩

/-- One client fails and the other one raises. -/
def failing : List (Fin 2 × Handler (Call SmallestCommand) Call.Ret PyExc World) :=
  [(0,answerWith .unlocked 0 1 (.ok { exitCode := 1 }) ⟨8⟩),
    (1,answerWith .unlocked 1 1 (.error (.other true [])) ⟨9⟩)]

/-- Both refreshes, call by call, over locks that do not exclude. -/
def refreshedTwice : Pool (Call SmallestCommand) Call.Ret PyExc (fun _ : Fin 2 => MlExecution) World :=
  drivePool (List.replicate 12 failing).flatten (refreshTwice,BlobOwners.recorded)

/-- They are a run. -/
theorem refreshedTwice_reach :
    PoolReach (fun i => Answers .unlocked noFaults (if i=0 then 0 else 1)) (refreshTwice,BlobOwners.recorded)
      (refreshedTwice.1,refreshedTwice.2) := by
  refine drivePool_reach (List.replicate 12 failing).flatten (fun entry hentry => ?_) (refreshTwice,BlobOwners.recorded)
  obtain ⟨entries,hentries,hmem⟩ := List.mem_flatten.mp hentry
  rw [List.eq_of_mem_replicate hentries] at hmem
  rcases List.mem_cons.mp hmem with rfl | hmem
  · exact answerWith_respects _ _ _
  · rw [List.mem_singleton.mp hmem]
    exact answerWith_respects _ _ _

/-- The store they run on is sound. -/
theorem sound_recorded : Sound positional BlobOwners.recorded := by
  have hreach : Reachable (blobFaults : Faults SmallestCommand) positional BlobOwners.recorded :=
    .run .start ⟨_,rfl⟩ (Reach.of_observed
      (BlobOwners.watched_reach 40 7 (.execute smallestService ⟨.cache,.cache⟩) World.empty)) trivial
  exact reachable_sound hreach

/-- The service refreshes without a quota. -/
theorem refreshes_smallest :
    Refreshes (fun _ : Fin 2 => smallestService) (fun _ => ⟨.refresh,.cache⟩) := ⟨fun _ => rfl,fun _ => rfl⟩

/-- The recorded run answers its key still. -/
theorem unrenewed_refreshedTwice (row : ExecutionRow) (h : refreshedTwice.2.db.currentRow ⟨0⟩=some row) :
    row.executionId∈BlobOwners.recorded.minted := by
  have hcurrent : (refreshedTwice.2.db.currentRow ⟨0⟩).map (·.executionId)=some ⟨7⟩ := by decide +kernel
  have hminted : (⟨7⟩ : ExecutionId)∈BlobOwners.recorded.minted := by decide +kernel
  rw [h] at hcurrent
  rw [show row.executionId=⟨7⟩ from Option.some.inj hcurrent]
  exact hminted

/-- Both runs ended, and the old execution loads as it did. -/
theorem refresh_keeps_answer_failing :
    refreshedTwice.2.db.executions.map (fun row => (row.executionId,row.servable))=
      [(⟨7⟩,true),(⟨8⟩,false),(⟨9⟩,false)] ∧
    findCurrent ⟨0⟩ refreshedTwice.2.db=findCurrent ⟨0⟩ BlobOwners.recorded.db := by
  obtain ⟨entry,hentry,hservable,hkey⟩ : ∃ entry∈BlobOwners.recorded.db.executions,entry.servable=true ∧
      entry.executionKey=⟨0⟩ := by decide +kernel
  have hkept := refresh_keeps_answer _ _ refreshes_smallest .unlocked noFaults _ BlobOwners.recorded
    refreshedTwice.2 refreshedTwice.1 sound_recorded refreshedTwice_reach entry hentry hservable
  rw [hkey] at hkept
  refine ⟨by decide +kernel,?_⟩
  rcases hkept.1 with hsame | ⟨row,hrow,hfresh⟩
  · exact hsame
  · exact absurd (unrenewed_refreshedTwice row hrow) hfresh

/-- The next CACHE execute, after both refreshes. -/
def replayedAfter : ServiceM SmallestCommand MlExecution × (World × AnsweredRuns.RunTrace) :=
  drive ((answers 20 10).map fun handler => handler.watched AnsweredRuns.watchRun)
    (execute smallestService positional ⟨.cache,.cache⟩)
    (World.released refreshedTwice.2,AnsweredRuns.RunTrace.blank)

/-- It is answered with the recorded bytes, without its client. -/
theorem refresh_then_replay_failing : ∃ current served,
    findCurrent ⟨0⟩ BlobOwners.recorded.db=.ok (some current) ∧
    replayedAfter.1=.done (.ok { current with artifacts := served }) ∧
    UndisturbedRuns.Hydrated BlobOwners.recorded.blobs current.artifacts served ∧
    replayedAfter.2.2.calledClient=false := by
  obtain ⟨entry,hentry,hservable,hkey,hhealthy⟩ : ∃ entry∈BlobOwners.recorded.db.executions,entry.servable=true ∧
      entry.executionKey=⟨0⟩ ∧ entry.artifacts.all (fun a => match a.blobKey with
        | .value blobKey => (BlobOwners.recorded.blobs.get blobKey).isSome
        | .malformed _ => true)=true := by decide +kernel
  obtain ⟨r,hend⟩ := Prog.of_value (by decide +kernel : replayedAfter.1.value.isSome=true)
  have hrespects : ∀ handler∈answers 20 10,handler.Respects (Answers .exclusive noFaults 0) :=
    answers_respect 20 10
  have hrun : Reach (AnsweredRuns.watchedRun SmallestCommand .exclusive 0)
      (execute smallestService positional ⟨.cache,.cache⟩)
      (World.released refreshedTwice.2,AnsweredRuns.RunTrace.blank) replayedAfter.1 replayedAfter.2 :=
    drive_watched (answers 20 10) hrespects AnsweredRuns.watchRun
      (execute smallestService positional ⟨.cache,.cache⟩)
      (World.released refreshedTwice.2,AnsweredRuns.RunTrace.blank)
  rw [hend] at hrun
  have hblobs : ∀ a∈entry.artifacts,∀ blobKey,a.blobKey=.value blobKey →
      (BlobOwners.recorded.blobs.get blobKey).isSome=true := by
    intro a ha blobKey hblob
    have hpresent := List.all_eq_true.mp hhealthy a ha
    rw [hblob] at hpresent
    exact hpresent
  have hunrenewed : ∀ row,refreshedTwice.2.db.currentRow entry.executionKey=some row →
      row.executionId∈BlobOwners.recorded.minted := by
    rw [hkey]
    exact unrenewed_refreshedTwice
  have hinput : UndisturbedRuns.InputBinds smallestService ⟨.cache,.cache⟩ := ⟨_,rfl,rfl⟩
  have hreplay := refresh_then_replay _ _ refreshes_smallest .unlocked noFaults _ BlobOwners.recorded
    refreshedTwice.2 refreshedTwice.1 sound_recorded refreshedTwice_reach entry hentry hservable hblobs hunrenewed
    smallestService ⟨.cache,.cache⟩ ⟨⟨0⟩,[],[]⟩ rfl hkey.symm rfl rfl rfl rfl hinput 0 r replayedAfter.2 hrun
  rw [hkey] at hreplay
  rw [hend]
  obtain ⟨current,served,hfound,hanswer,hall,hquiet⟩ := hreplay
  exact ⟨current,served,hfound,by rw [hanswer],hall,hquiet⟩

end GenericMlCache.RefreshRuns
