import GenericMlCache.ExecutionQueries

/-!
# Repository calls

The repository as one typed interface: each method is a call, answered by one
atomic transaction. What every transaction keeps is proved here once, over
the whole interface.
-/

namespace GenericMlCache.RepositoryCalls

open PythonText ExecutionModel SqliteStore ExecutionRepository ExecutionQueries

/-- The methods of the repository that the services call. -/
inductive StoreCall where
  | findCurrent (key : ExecutionKey)
  | findAll (key : ExecutionKey)
  | save (execution : MlExecution)
  | recordOutcome (execution : MlExecution)
  | persistArtifact (executionId : ExecutionId) (artifact : Artifact)
  | markArtifactsStored (executionId : ExecutionId) (blobKey : BlobKey)
  | markArtifactsFailed (executionId : ExecutionId) (blobKey : BlobKey) (detail : PyStr)
  | finalizeOutputPersisted (executionId : ExecutionId)
  | removeExecution (executionId : ExecutionId)
  | addTags (key : ExecutionKey) (tags : List PyStr)
  | addInputArtifacts (key : ExecutionKey) (artifacts : List Artifact)
  | runsAwaitingPersistence
  | softPurgeExecution (key : ExecutionKey)
  | hardDeleteExecution (key : ExecutionKey)
  | totalStoredBytes
  | currentExecutionsWithSizes
  | executionsByTag (tag : PyStr)
  | allExecutionKeys

/-- What each method returns. -/
def StoreCall.Ret : StoreCall → Type
  | .findCurrent _ => Option MlExecution
  | .findAll _ => List MlExecution
  | .runsAwaitingPersistence => List UnpersistedRun
  | .totalStoredBytes => ℕ
  | .currentExecutionsWithSizes => List ExecutionSizeEntry
  | .executionsByTag _ | .allExecutionKeys => List ExecutionKey
  | _ => Unit

/-- A committed write. -/
def commit (db : Except PyExc Db) : Except PyExc (Unit × Db) := db.map fun db => ((),db)

/-- A read, which leaves the database as it is. -/
def reading {α : Type} (db : Db) (answer : Except PyExc α) : Except PyExc (α × Db) :=
  answer.map fun a => (a,db)

/-- The transaction of a call, with the clock's reading. -/
def transact (now : Timestamp) (db : Db) : (call : StoreCall) → Except PyExc (call.Ret × Db)
  | .findCurrent key => reading db (findCurrent key db)
  | .findAll key => reading db (findAll key db)
  | .save execution => commit (save execution now db)
  | .recordOutcome execution => commit (recordOutcome execution db)
  | .persistArtifact id artifact => commit (persistArtifact id artifact db)
  | .markArtifactsStored id blobKey => commit (markArtifactsStored id blobKey now db)
  | .markArtifactsFailed id blobKey detail => commit (markArtifactsFailed id blobKey detail db)
  | .finalizeOutputPersisted id => commit (finalizeOutputPersisted id now db)
  | .removeExecution id => commit (.ok (removeExecution id db))
  | .addTags key tags => commit (addTags key tags db)
  | .addInputArtifacts key artifacts => commit (addInputArtifacts key artifacts db)
  | .runsAwaitingPersistence => reading db (runsAwaitingPersistence db)
  | .softPurgeExecution key => commit (.ok (softPurgeExecution key db))
  | .hardDeleteExecution key => commit (.ok (hardDeleteExecution key db))
  | .totalStoredBytes => reading db (.ok (totalStoredBytes db))
  | .currentExecutionsWithSizes => reading db (.ok (currentExecutionsWithSizes db))
  | .executionsByTag tag => reading db (.ok (executionsByTag tag db))
  | .allExecutionKeys => reading db (.ok (allExecutionKeys db))

/-- A committed write committed the database its transaction built. -/
@[simp] theorem commit_ok {db : Except PyExc Db} {u : Unit} {db' : Db} :
    commit db=.ok (u,db') ↔ db=.ok db' := by
  cases db with
  | error e => simp [commit,Except.map]
  | ok d => simp [commit,Except.map]

/-- A read returned its answer and changed nothing. -/
@[simp] theorem reading_ok {α : Type} {db db' : Db} {answer : Except PyExc α} {a : α} :
    reading db answer=.ok (a,db') ↔ answer=.ok a ∧ db'=db := by
  cases answer with
  | error e => simp [reading,Except.map]
  | ok b => simp [reading,Except.map,eq_comm]

/-- A call that only reads. -/
def StoreCall.isRead : StoreCall → Bool
  | .findCurrent _ | .findAll _ | .runsAwaitingPersistence | .totalStoredBytes
  | .currentExecutionsWithSizes | .executionsByTag _ | .allExecutionKeys => true
  | _ => false

/-- A read leaves the database as it is. -/
theorem transact_read {now : Timestamp} {db db' : Db} {call : StoreCall} {a : call.Ret}
    (hc : call.isRead=true) (h : transact now db call=.ok (a,db')) : db'=db := by
  cases call with
  | findCurrent | findAll | runsAwaitingPersistence | totalStoredBytes
  | currentExecutionsWithSizes | executionsByTag | allExecutionKeys => exact (reading_ok.mp h).2
  | _ => exact nomatch hc

/-- Well-formed columns, one by one. -/
theorem wellFormed_iff (c : MutableColumns) : MutableColumns.wellFormed c=true ↔
    Column.isValue c.state=true ∧ c.supersededAt.all Column.isValue=true ∧
      c.failureReason.all Column.isValue=true ∧ (∀ a∈c.artifacts,ArtifactRow.wellFormed a=true) ∧
      c.tokenUsage.all (fun u => Column.isValue u.rawJson)=true := by
  simp [MutableColumns.wellFormed,and_assoc]

/-- An update that keeps columns decodable keeps the database well formed. -/
theorem wellFormed_updateWhere {db : Db} {p : ExecutionRow → Bool}
    {f : MutableColumns → MutableColumns} (h : WellFormed db)
    (hf : ∀ row∈db.executions,p row=true → MutableColumns.wellFormed row.toMutableColumns=true →
      MutableColumns.wellFormed (f row.toMutableColumns)=true) : WellFormed (db.updateWhere p f) where
  columns row hrow := by
    obtain ⟨r,hr,rfl⟩ := Db.mem_updateWhere.mp hrow
    by_cases hp : p r=true
    · rw [if_pos hp]
      exact hf r hr hp (h.columns r hr)
    · rw [if_neg hp]
      exact h.columns r hr
  kinds row hrow := by
    obtain ⟨r,hr,rfl⟩ := Db.mem_updateWhere.mp hrow
    split <;> exact h.kinds r hr
  identified row hrow := by
    obtain ⟨r,hr,rfl⟩ := Db.mem_updateWhere.mp hrow
    split <;> exact h.identified r hr
  identities := h.identities

/-- Superseding keeps the database well formed. -/
theorem wellFormed_supersede {db : Db} (h : WellFormed db) (key : ExecutionKey) (now : Timestamp) :
    WellFormed (supersedePriorCurrent db key now) := by
  refine wellFormed_updateWhere h fun row _ _ hwf => ?_
  rw [wellFormed_iff] at hwf ⊢
  exact ⟨hwf.1,rfl,hwf.2.2⟩

/-- The columns an execution is inserted with decode. -/
theorem wellFormed_insertedColumns (execution : MlExecution) (artifacts : List Artifact)
    (usage : Option TokenUsage) : MutableColumns.wellFormed
      (insertedColumns execution (artifacts.map artifactRow) (usage.map usageRow))=true := by
  rw [wellFormed_iff]
  refine ⟨rfl,?_,?_,?_,?_⟩
  · cases h : execution.supersededAt <;> simp [insertedColumns,h,Column.isValue]
  · cases h : execution.failure <;> simp [insertedColumns,h,Column.isValue]
  · intro a ha
    obtain ⟨artifact,_,rfl⟩ := List.mem_map.mp ha
    rfl
  · cases usage <;> rfl

/-- Saving keeps the database well formed. -/
theorem wellFormed_save {execution : MlExecution} {now : Timestamp} {db db' : Db}
    (h : WellFormed db) (hsave : save execution now db=.ok db') : WellFormed db' := by
  obtain ⟨id,_,_,hrows,hident⟩ := save_ok hsave
  have hbase : WellFormed (if isServable execution=true then
      supersedePriorCurrent db execution.callIdentity.generateKey now else db) := by
    split
    · exact wellFormed_supersede h _ _
    · exact h
  have hsame : (if isServable execution=true then
      supersedePriorCurrent db execution.callIdentity.generateKey now
      else db).callIdentities=db.callIdentities := by split <;> rfl
  have hmem := @mem_insertIdentity db execution.callIdentity.generateKey execution.callIdentity
  constructor
  · intro row hrow
    rw [hrows,List.mem_append,List.mem_singleton] at hrow
    rcases hrow with hrow | rfl
    · exact hbase.columns row hrow
    · exact wellFormed_insertedColumns execution execution.artifacts execution.tokenUsage
  · intro row hrow
    rw [hrows,List.mem_append,List.mem_singleton] at hrow
    rcases hrow with hrow | rfl
    · exact hbase.kinds row hrow
    · rfl
  · intro row hrow
    rw [hrows,List.mem_append,List.mem_singleton] at hrow
    rw [hident]
    rcases hrow with hrow | rfl
    · obtain ⟨i,hi,hk⟩ := hbase.identified row hrow
      exact ⟨i,hmem.1 i (hsame ▸ hi),hk⟩
    · exact insertIdentity_has db _ _
  · intro i hi
    rw [hident] at hi
    rcases hmem.2 i hi with hi | rfl
    · exact h.identities i hi
    · rfl

/-- Recording an outcome keeps the database well formed. -/
theorem wellFormed_recordOutcome {execution : MlExecution} {db db' : Db} (h : WellFormed db)
    (hrec : recordOutcome execution db=.ok db') : WellFormed db' := by
  obtain ⟨row,hmem,hid,usage,hu,rfl⟩ := recordOutcome_ok hrec
  refine wellFormed_updateWhere h fun r hr hp hwf => ?_
  have hrow : r=row := db.row_unique hr hmem (((hasId_iff _ _).mp hp).trans hid.symm)
  subst hrow
  rw [wellFormed_iff] at hwf ⊢
  obtain ⟨_,hsup,_,harts,husage⟩ := hwf
  refine ⟨rfl,hsup,?_,harts,?_⟩
  · cases hf : execution.failure <;> simp [outcomeColumns,hf,Column.isValue]
  · rcases insertTokenUsage_ok hu with ⟨_,rfl⟩ | ⟨_,rfl⟩
    · exact husage
    · cases hx : execution.tokenUsage <;> simp [outcomeColumns,usageRow,Column.isValue]

/-- Rows of artifacts can be appended to well-formed columns. -/
theorem wellFormed_withArtifacts {c : MutableColumns} (artifacts : List Artifact)
    (h : MutableColumns.wellFormed c=true) :
    MutableColumns.wellFormed (withArtifacts (artifacts.map artifactRow) c)=true := by
  rw [wellFormed_iff] at h ⊢
  refine ⟨h.1,h.2.1,h.2.2.1,fun a ha => ?_,h.2.2.2.2⟩
  rcases List.mem_append.mp ha with ha | ha
  · exact h.2.2.2.1 a ha
  · obtain ⟨artifact,_,rfl⟩ := List.mem_map.mp ha
    rfl

/-- Marking keeps columns well formed where the mark keeps artifact rows so. -/
theorem wellFormed_markColumns {c : MutableColumns} {blobKey : BlobKey}
    {mark : ArtifactRow → ArtifactRow}
    (hm : ∀ a,ArtifactRow.wellFormed a=true → ArtifactRow.wellFormed (mark a)=true)
    (h : MutableColumns.wellFormed c=true) :
    MutableColumns.wellFormed (markColumns blobKey mark c)=true := by
  rw [wellFormed_iff] at h ⊢
  refine ⟨h.1,h.2.1,h.2.2.1,fun a ha => ?_,h.2.2.2.2⟩
  obtain ⟨a',ha',rfl⟩ := List.mem_map.mp ha
  split
  · exact hm a' (h.2.2.2.1 a' ha')
  · exact h.2.2.2.1 a' ha'

/-- Both marks keep an artifact row well formed. -/
theorem wellFormed_storedMark (now : Timestamp) (a : ArtifactRow)
    (h : ArtifactRow.wellFormed a=true) : ArtifactRow.wellFormed (storedMark now a)=true := by
  simp only [ArtifactRow.wellFormed,Bool.and_eq_true] at h ⊢
  exact ⟨h.1,rfl⟩

/-- A failed mark keeps an artifact row well formed. -/
theorem wellFormed_failedMark (detail : PyStr) (a : ArtifactRow)
    (h : ArtifactRow.wellFormed a=true) : ArtifactRow.wellFormed (failedMark detail a)=true := by
  simp only [ArtifactRow.wellFormed,Bool.and_eq_true] at h ⊢
  exact ⟨h.1,rfl⟩

/-- Marking keeps the database well formed. -/
theorem wellFormed_markArtifacts {id : ExecutionId} {blobKey : BlobKey}
    {mark : ArtifactRow → ArtifactRow} {db db' : Db} (h : WellFormed db)
    (hm : ∀ a,ArtifactRow.wellFormed a=true → ArtifactRow.wellFormed (mark a)=true)
    (hmark : markArtifacts id blobKey mark db=.ok db') : WellFormed db' := by
  obtain ⟨_,rfl⟩ := markArtifacts_ok hmark
  exact wellFormed_updateWhere h fun _ _ _ hwf => wellFormed_markColumns hm hwf

/-- Finalizing keeps the database well formed. -/
theorem wellFormed_finalize {id : ExecutionId} {now : Timestamp} {db db' : Db} (h : WellFormed db)
    (hf : finalizeOutputPersisted id now db=.ok db') : WellFormed db' := by
  obtain ⟨row,_,_,_,rfl⟩ := finalizeOutputPersisted_ok hf
  have hbase : WellFormed (if row.state=.value .success then
      supersedePriorCurrent db row.executionKey now else db) := by
    split
    · exact wellFormed_supersede h _ _
    · exact h
  refine wellFormed_updateWhere hbase fun r _ _ hwf => ?_
  rw [wellFormed_iff] at hwf ⊢
  exact hwf

/-- Removing an execution keeps the database well formed: its identity goes
only with the key's last execution. -/
theorem wellFormed_removeExecution {db : Db} (h : WellFormed db) (id : ExecutionId) :
    WellFormed (removeExecution id db) := by
  unfold removeExecution
  split
  next => exact h
  next gone _ =>
    have hmem : ∀ row∈(db.deleteWhere (hasId id)).executions,row∈db.executions :=
      fun row hrow => (Db.mem_deleteWhere.mp hrow).1
    have hdel : WellFormed (db.deleteWhere (hasId id)) :=
      ⟨fun row hrow => h.columns row (hmem row hrow),fun row hrow => h.kinds row (hmem row hrow),
        fun row hrow => h.identified row (hmem row hrow),h.identities⟩
    unfold dropOrphanIdentity
    split
    next hcount =>
      refine ⟨hdel.columns,hdel.kinds,fun row hrow => ?_,fun i hi => ?_⟩
      · obtain ⟨i,hi,hk⟩ := hdel.identified row hrow
        have hne := List.countP_eq_zero.mp hcount row hrow
        refine ⟨i,List.mem_filter.mpr ⟨hi,?_⟩,hk⟩
        simpa [hk] using hne
      · exact hdel.identities i (List.mem_filter.mp hi).1
    next => exact hdel

/-- A hard delete keeps the database well formed. -/
theorem wellFormed_hardDelete {db : Db} (h : WellFormed db) (key : ExecutionKey) :
    WellFormed (hardDeleteExecution key db) := by
  refine ⟨fun row hrow => ?_,fun row hrow => ?_,fun row hrow => ?_,fun i hi => ?_⟩
  · exact h.columns row (mem_hardDeleteExecution.mp hrow).1
  · exact h.kinds row (mem_hardDeleteExecution.mp hrow).1
  · obtain ⟨hmem,hne⟩ := mem_hardDeleteExecution.mp hrow
    obtain ⟨i,hi,hk⟩ := h.identified row hmem
    exact ⟨i,List.mem_filter.mpr ⟨hi,by simpa [hk] using hne⟩,hk⟩
  · exact h.identities i (List.mem_filter.mp hi).1

/-- Every committed transaction leaves a well-formed database well formed. -/
theorem transact_wellFormed {now : Timestamp} {db db' : Db} {call : StoreCall} {a : call.Ret}
    (hwf : WellFormed db) (h : transact now db call=.ok (a,db')) : WellFormed db' := by
  cases call with
  | findCurrent | findAll | runsAwaitingPersistence | totalStoredBytes
  | currentExecutionsWithSizes | executionsByTag | allExecutionKeys =>
    rw [(reading_ok.mp h).2]
    exact hwf
  | save execution => exact wellFormed_save hwf (commit_ok.mp h)
  | recordOutcome execution => exact wellFormed_recordOutcome hwf (commit_ok.mp h)
  | persistArtifact id artifact =>
    obtain ⟨_,rfl⟩ := persistArtifact_ok (commit_ok.mp h)
    exact wellFormed_updateWhere hwf fun _ _ _ hc => wellFormed_withArtifacts [artifact] hc
  | markArtifactsStored id blobKey =>
    exact wellFormed_markArtifacts hwf (wellFormed_storedMark now) (commit_ok.mp h)
  | markArtifactsFailed id blobKey detail =>
    obtain ⟨_,_,hmark⟩ := ok_of_bind (commit_ok.mp h)
    exact wellFormed_markArtifacts hwf (wellFormed_failedMark detail) hmark
  | finalizeOutputPersisted id => exact wellFormed_finalize hwf (commit_ok.mp h)
  | removeExecution id =>
    cases Except.ok.inj (commit_ok.mp h)
    exact wellFormed_removeExecution hwf id
  | addTags key tags =>
    rcases addTags_ok (commit_ok.mp h) with rfl | ⟨id,rfl⟩
    · exact hwf
    · exact wellFormed_updateWhere hwf fun _ _ _ hc => (wellFormed_iff _).mpr ((wellFormed_iff _).mp hc)
  | addInputArtifacts key artifacts =>
    rcases addInputArtifacts_ok (commit_ok.mp h) with rfl | ⟨row,_,_,rfl⟩
    · exact hwf
    · exact wellFormed_updateWhere hwf fun _ _ _ hc => wellFormed_withArtifacts artifacts hc
  | softPurgeExecution key =>
    cases Except.ok.inj (commit_ok.mp h)
    refine wellFormed_updateWhere hwf fun _ _ _ hc => ?_
    obtain ⟨hstate,hsup,hfail,_,husage⟩ := (wellFormed_iff _).mp hc
    exact (wellFormed_iff _).mpr ⟨hstate,hsup,hfail,fun _ ha => (List.not_mem_nil ha).elim,husage⟩
  | hardDeleteExecution key =>
    cases Except.ok.inj (commit_ok.mp h)
    exact wellFormed_hardDelete hwf key

/-- A computation whose errors are exceptions that report no corruption. -/
def Plain {α : Type} (r : Except PyExc α) : Prop :=
  ∀ e,r=.error e → e.isException=true ∧ e.isCorruption=false

/-- A computed value raises nothing. -/
theorem plain_ok {α : Type} (a : α) : Plain (.ok a : Except PyExc α) := fun _ h => nomatch h

/-- Plain computations in sequence. -/
theorem plain_bind {α β : Type} {x : Except PyExc α} {f : α → Except PyExc β} (hx : Plain x)
    (hf : ∀ a,x=.ok a → Plain (f a)) : Plain (x >>= f) := by
  cases x with
  | error e => exact fun e' h => hx e' (by cases h; rfl)
  | ok a => exact hf a rfl

/-- Plain computations over a list. -/
theorem plain_forM {α : Type} {f : α → Except PyExc Unit} (hf : ∀ a,Plain (f a)) (as : List α) :
    Plain (as.forM f) := by
  induction as with
  | nil => exact plain_ok ()
  | cons a as ih => exact plain_bind (hf a) fun _ _ => ih

/-- Binding text raises no corruption. -/
theorem plain_bindText (s : PyStr) : Plain (bindText s) := by
  unfold bindText
  split
  · exact plain_ok ()
  · intro e h
    cases h
    exact ⟨rfl,rfl⟩

/-- Binding an integer raises no corruption. -/
theorem plain_bindInteger (n : ℤ) : Plain (bindInteger n) := by
  unfold bindInteger
  split
  · exact plain_ok ()
  · intro e h
    cases h
    exact ⟨rfl,rfl⟩

/-- Binding a size raises no corruption. -/
theorem plain_bindSize (size : Size) : Plain (bindSize size) := by
  cases size with
  | bytes n => exact plain_bindInteger n
  | text text _ => exact plain_bindText text

/-- Binding a nullable value raises what binding the value does. -/
theorem plain_bindOptional {α : Type} {bind : α → Except PyExc Unit} (hb : ∀ a,Plain (bind a))
    (a : Option α) : Plain (bindOptional bind a) := by
  cases a with
  | none => exact plain_ok ()
  | some a => exact hb a

/-- Inserting artifacts raises no corruption. -/
theorem plain_insertArtifacts (artifacts : List Artifact) : Plain (insertArtifacts artifacts) := by
  refine plain_bind (plain_forM (fun artifact => ?_) artifacts) fun _ _ => plain_ok _
  exact plain_bind (plain_bindOptional plain_bindText _) fun _ _ =>
    plain_bind (plain_bindSize _) fun _ _ => plain_bindOptional plain_bindText _

/-- Inserting usage raises no corruption. -/
theorem plain_insertTokenUsage (existing : Option UsageRow) (usage : Option TokenUsage) :
    Plain (insertTokenUsage existing usage) := by
  have hint : ∀ n : Option ℤ,Plain (bindOptional bindInteger n) := plain_bindOptional plain_bindInteger
  cases usage with
  | none => exact plain_ok existing
  | some usage =>
    refine plain_bind (hint _) fun _ _ => plain_bind (hint _) fun _ _ => plain_bind (hint _) fun _ _ =>
      plain_bind (hint _) fun _ _ => plain_bind (hint _) fun _ _ => ?_
    split
    · intro e h
      cases h
      exact ⟨rfl,rfl⟩
    · exact plain_ok _

/-- Binding a failure raises no corruption. -/
theorem plain_bindFailure (failure : Option ExecutionFailure) : Plain (bindFailure failure) :=
  plain_bind (plain_bindOptional plain_bindText _) fun _ _ => plain_bindOptional plain_bindInteger _

/-- Saving raises no corruption. -/
theorem plain_save (execution : MlExecution) (now : Timestamp) (db : Db) :
    Plain (save execution now db) := by
  have hinsert : ∀ (db : Db) (key : ExecutionKey),Plain (insertExecution db key execution now) := by
    intro db key
    refine plain_bind (plain_bindFailure _) fun _ _ => ?_
    split
    · exact plain_bind (plain_insertArtifacts _) fun _ _ =>
        plain_bind (plain_insertTokenUsage _ _) fun _ _ => plain_ok _
    · intro e h
      cases h
      exact ⟨rfl,rfl⟩
  exact plain_bind (plain_bind (plain_bindText _) fun _ _ => plain_bind (plain_bindText _) fun _ _ =>
    plain_ok _) fun _ _ => hinsert _ _

/-- Recording an outcome raises no corruption. -/
theorem plain_recordOutcome (execution : MlExecution) (db : Db) :
    Plain (recordOutcome execution db) := by
  unfold recordOutcome
  split
  · intro e h
    cases h
    exact ⟨rfl,rfl⟩
  · exact plain_bind (plain_bindFailure _) fun _ _ =>
      plain_bind (plain_insertTokenUsage _ _) fun _ _ => plain_ok _

/-- Persisting a document's row raises no corruption. -/
theorem plain_persistArtifact (id : ExecutionId) (artifact : Artifact) (db : Db) :
    Plain (persistArtifact id artifact db) := by
  unfold persistArtifact
  split
  · intro e h
    cases h
    exact ⟨rfl,rfl⟩
  · exact plain_bind (plain_insertArtifacts _) fun _ _ => plain_ok _

/-- Marking raises no corruption. -/
theorem plain_markArtifacts (id : ExecutionId) (blobKey : BlobKey) (mark : ArtifactRow → ArtifactRow)
    (db : Db) : Plain (markArtifacts id blobKey mark db) := by
  intro e h
  unfold markArtifacts at h
  split at h
  · cases h
    exact ⟨rfl,rfl⟩
  · split at h
    · exact nomatch h
    · cases h
      exact ⟨rfl,rfl⟩

/-- Finalizing raises no corruption. -/
theorem plain_finalize (id : ExecutionId) (now : Timestamp) (db : Db) :
    Plain (finalizeOutputPersisted id now db) := by
  intro e h
  unfold finalizeOutputPersisted at h
  split at h
  · cases h
    exact ⟨rfl,rfl⟩
  · split at h
    · exact nomatch h
    · cases h
      exact ⟨rfl,rfl⟩

/-- Adding tags raises no corruption. -/
theorem plain_addTags (key : ExecutionKey) (tags : List PyStr) (db : Db) :
    Plain (addTags key tags db) := by
  unfold addTags
  split
  · exact plain_ok _
  · split
    · exact plain_ok _
    · exact plain_bind (plain_forM plain_bindText _) fun _ _ => plain_ok _

/-- Attaching input raises no corruption. -/
theorem plain_addInputArtifacts (key : ExecutionKey) (artifacts : List Artifact) (db : Db) :
    Plain (addInputArtifacts key artifacts db) := by
  unfold addInputArtifacts
  split
  · exact plain_ok _
  · split
    · exact plain_ok _
    · split
      · exact plain_ok _
      · exact plain_bind (plain_insertArtifacts _) fun _ _ => plain_ok _

/-- A committed write raises what its transaction raised. -/
theorem plain_commit {r : Except PyExc Db} (h : Plain r) : Plain (commit r) := by
  cases r with
  | ok db => exact plain_ok _
  | error e => exact fun e' he => h e' (by cases he; rfl)

/-- A read raises what its query raised. -/
theorem plain_reading {α : Type} {db : Db} {r : Except PyExc α} (h : Plain r) :
    Plain (reading db r) := by
  cases r with
  | ok a => exact plain_ok _
  | error e => exact fun e' he => h e' (by cases he; rfl)

/-- In a well-formed database no transaction reports corruption, and every
error is an exception that `except Exception` catches. -/
theorem transact_plain {now : Timestamp} {db : Db} {call : StoreCall} (hwf : WellFormed db) :
    Plain (transact now db call) := by
  cases call with
  | findCurrent key =>
    refine plain_reading fun e he => ?_
    cases hrow : db.currentRow key with
    | none => simp [findCurrent_of_none hrow] at he
    | some row =>
      obtain ⟨execution,_,hfind⟩ := findCurrent_of_row hwf hrow
      simp [hfind] at he
  | findAll key =>
    refine plain_reading fun e he => ?_
    have hload : ∀ row∈db.executions.filter (hasKey key),∃ execution,loadExecution db row=.ok execution :=
      fun row hrow => loadExecution_total hwf (List.mem_filter.mp hrow).1
    obtain ⟨executions,hall⟩ := mapM_total hload
    simp [findAll,hall] at he
  | runsAwaitingPersistence =>
    refine plain_reading fun e he => ?_
    have hrun : ∀ row,Plain (unpersistedRun row) := by
      intro row e h
      unfold unpersistedRun at h
      split at h
      · exact nomatch h
      · cases h
        exact ⟨rfl,rfl⟩
    have hmap : ∀ rows : List ExecutionRow,Plain (rows.mapM unpersistedRun) := by
      intro rows
      induction rows with
      | nil => exact plain_ok _
      | cons row rows ih =>
        rw [List.mapM_cons]
        exact plain_bind (hrun row) fun _ _ => plain_bind ih fun _ _ => plain_ok _
    exact hmap _ e he
  | save execution => exact plain_commit (plain_save execution now db)
  | recordOutcome execution => exact plain_commit (plain_recordOutcome execution db)
  | persistArtifact id artifact => exact plain_commit (plain_persistArtifact id artifact db)
  | markArtifactsStored id blobKey => exact plain_commit (plain_markArtifacts id blobKey _ db)
  | markArtifactsFailed id blobKey detail =>
    exact plain_commit (plain_bind (plain_bindText detail) fun _ _ => plain_markArtifacts id blobKey _ db)
  | finalizeOutputPersisted id => exact plain_commit (plain_finalize id now db)
  | addTags key tags => exact plain_commit (plain_addTags key tags db)
  | addInputArtifacts key artifacts => exact plain_commit (plain_addInputArtifacts key artifacts db)
  | removeExecution | softPurgeExecution | hardDeleteExecution => exact plain_commit (plain_ok _)
  | totalStoredBytes | currentExecutionsWithSizes | executionsByTag | allExecutionKeys =>
    exact plain_reading (plain_ok _)

end GenericMlCache.RepositoryCalls
