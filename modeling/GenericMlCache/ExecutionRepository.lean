import GenericMlCache.SqliteStore

/-!
# The execution repository

Every transaction of the SQLite repository as a function on the database. It
returns the committed database or the error raised, after which the database
is the one before. Each is followed by the lemma its callers reason with.
-/

namespace GenericMlCache.ExecutionRepository

open PythonText ExecutionModel SqliteStore

/-- Binding text: SQLite receives it as UTF-8. -/
def bindText (s : PyStr) : Except PyExc Unit :=
  if encodable s=true then .ok () else .error .unicodeEncodeError

/-- Binding an integer: it must fit eight bytes. -/
def bindInteger (n : ℤ) : Except PyExc Unit :=
  if sqliteInteger n=true then .ok () else .error .overflowError

/-- Binding a nullable value. -/
def bindOptional {α : Type} (bind : α → Except PyExc Unit) : Option α → Except PyExc Unit
  | none => .ok ()
  | some a => bind a

/-- Binding a REAL: a NaN becomes NULL. -/
def bindFloat (bits : UInt64) : Option UInt64 :=
  if bits.toNat%2^63>0x7FF0000000000000 then none else some bits

/-- A computation in `Except` succeeded only if both of its parts did. -/
theorem ok_of_bind {ε α β : Type} {x : Except ε α} {f : α → Except ε β} {b : β}
    (h : (x >>= f)=.ok b) : ∃ a,x=.ok a ∧ f a=.ok b := by
  cases x with
  | error e => exact nomatch h
  | ok a => exact ⟨a,rfl,h⟩

/-- It failed where one of them did. -/
theorem error_of_bind {ε α β : Type} {x : Except ε α} {f : α → Except ε β} {e : ε}
    (h : (x >>= f)=.error e) : x=.error e ∨ ∃ a,x=.ok a ∧ f a=.error e := by
  cases x with
  | error e' =>
    cases h
    exact Or.inl rfl
  | ok a => exact Or.inr ⟨a,rfl,h⟩

/-- The row `_insert_artifacts` writes for an artifact. -/
def artifactRow (artifact : Artifact) : ArtifactRow where
  artifactType := .value artifact.artifactType
  name := artifact.name
  encoding := artifact.encoding
  blobKey := .value artifact.blobKey
  sizeBytes := artifact.sizeBytes
  status := .value artifact.status
  persistedAt := artifact.persistedAt
  statusDetail := artifact.statusDetail

/-- Bind a size. -/
def bindSize : Size → Except PyExc Unit
  | .bytes n => bindInteger n
  | .text text _ => bindText text

/-- `_insert_artifacts`: the new rows, in the given order. -/
def insertArtifacts (artifacts : List Artifact) : Except PyExc (List ArtifactRow) := do
  artifacts.forM fun artifact => do
    bindOptional bindText artifact.name
    bindSize artifact.sizeBytes
    bindOptional bindText artifact.statusDetail
  return artifacts.map artifactRow

/-- The inserted rows are those of the given artifacts. -/
theorem insertArtifacts_ok {artifacts : List Artifact} {rows : List ArtifactRow}
    (h : insertArtifacts artifacts=.ok rows) : rows=artifacts.map artifactRow := by
  obtain ⟨_,_,h⟩ := ok_of_bind h
  exact (Except.ok.inj h).symm

/-- The row `_insert_token_usage` writes. -/
def usageRow (usage : TokenUsage) : UsageRow where
  inputTokens := usage.inputTokens
  outputTokens := usage.outputTokens
  cacheReadTokens := usage.cacheReadTokens
  cacheWriteTokens := usage.cacheWriteTokens
  reasoningTokens := usage.reasoningTokens
  costUsd := usage.costUsd.bind bindFloat
  rawJson := .value usage.raw

/-- `_insert_token_usage` beside the usage row already there, if any. A second
row for one execution violates the primary key. -/
def insertTokenUsage (existing : Option UsageRow) :
    Option TokenUsage → Except PyExc (Option UsageRow)
  | none => .ok existing
  | some usage => do
    bindOptional bindInteger usage.inputTokens
    bindOptional bindInteger usage.outputTokens
    bindOptional bindInteger usage.cacheReadTokens
    bindOptional bindInteger usage.cacheWriteTokens
    bindOptional bindInteger usage.reasoningTokens
    if existing.isSome=true then
      .error (.storeConsistency (.integrity
        (pyStr "UNIQUE constraint failed: token_usage.execution_id")))
    else return some (usageRow usage)

/-- Inserting usage keeps a row that is there, and writes the one given. -/
theorem insertTokenUsage_ok {existing : Option UsageRow} {usage : Option TokenUsage}
    {row : Option UsageRow} (h : insertTokenUsage existing usage=.ok row) :
    (usage=none ∧ row=existing) ∨ (existing=none ∧ row=usage.map usageRow) := by
  cases usage with
  | none => exact Or.inl ⟨rfl,(Except.ok.inj h).symm⟩
  | some usage =>
    obtain ⟨_,_,h⟩ := ok_of_bind h
    obtain ⟨_,_,h⟩ := ok_of_bind h
    obtain ⟨_,_,h⟩ := ok_of_bind h
    obtain ⟨_,_,h⟩ := ok_of_bind h
    obtain ⟨_,_,h⟩ := ok_of_bind h
    cases existing with
    | some row => exact nomatch h
    | none => exact Or.inr ⟨rfl,(Except.ok.inj h).symm⟩

/-- Usage that fits its columns is inserted beside no other. -/
theorem insertTokenUsage_none {usage : Option TokenUsage} (h : usage.all TokenUsage.storable=true) :
    ∃ row,insertTokenUsage none usage=.ok row := by
  cases usage with
  | none => exact ⟨none,rfl⟩
  | some usage =>
    have hone : ∀ n : Option ℤ,n.all sqliteInteger=true → bindOptional bindInteger n=.ok () := by
      intro n hn
      cases n with
      | none => rfl
      | some n =>
        have hfits : sqliteInteger n=true := hn
        simp only [bindOptional,bindInteger,hfits,if_true]
    have hall : usage.storable=true := h
    simp only [TokenUsage.storable,List.all_cons,List.all_nil,Bool.and_true,Bool.and_eq_true] at hall
    obtain ⟨hinput,houtput,hread,hwrite,hreasoning⟩ := hall
    refine ⟨some (usageRow usage),?_⟩
    unfold insertTokenUsage
    simp only [hone _ hinput,hone _ houtput,hone _ hread,hone _ hwrite,hone _ hreasoning]
    rfl

/-- `WHERE execution_id = ?`. -/
def hasId (executionId : ExecutionId) (row : ExecutionRow) : Bool :=
  decide (row.executionId=executionId)

@[simp] theorem hasId_iff (executionId : ExecutionId) (row : ExecutionRow) :
    hasId executionId row=true ↔ row.executionId=executionId := by simp [hasId]

@[simp] theorem hasId_eq_false (executionId : ExecutionId) (row : ExecutionRow) :
    hasId executionId row=false ↔ row.executionId≠executionId := by simp [hasId]

/-- `WHERE execution_key = ?`. -/
def hasKey (key : ExecutionKey) (row : ExecutionRow) : Bool := decide (row.executionKey=key)

@[simp] theorem hasKey_iff (key : ExecutionKey) (row : ExecutionRow) :
    hasKey key row=true ↔ row.executionKey=key := by simp [hasKey]

@[simp] theorem hasKey_eq_false (key : ExecutionKey) (row : ExecutionRow) :
    hasKey key row=false ↔ row.executionKey≠key := by simp [hasKey]

/-- An update within one key leaves the rows of the others. -/
theorem filter_updateWhere_of_ne {db : Db} {p : ExecutionRow → Bool} {f : MutableColumns → MutableColumns}
    {key : ExecutionKey} (h : ∀ r∈db.executions,p r=true → r.executionKey≠key) :
    (db.updateWhere p f).executions.filter (hasKey key)=db.executions.filter (hasKey key) := by
  have hrows : ∀ rows : List ExecutionRow,(∀ r∈rows,p r=true → r.executionKey≠key) →
      (rows.map fun r => if p r=true then r.update f else r).filter (hasKey key)=rows.filter (hasKey key) := by
    intro rows
    induction rows with
    | nil => exact fun _ => rfl
    | cons r rows ih =>
      intro hne
      have htail := ih fun r' hr' => hne r' (List.mem_cons_of_mem _ hr')
      by_cases hp : p r=true
      · have hkey : hasKey key r=false := by simpa using hne r List.mem_cons_self hp
        have hkey' : hasKey key (r.update f)=false := by simpa using hne r List.mem_cons_self hp
        simp [hp,hkey,hkey',htail]
      · simp [hp,List.filter_cons,htail]
  exact hrows db.executions h

/-- `INSERT INTO call_identities … WHERE NOT EXISTS`. -/
def insertIdentity (db : Db) (key : ExecutionKey) (identity : CallIdentity) : Db :=
  if h : ∀ i∈db.callIdentities,i.executionKey≠key then
    { db with
      callIdentities := db.callIdentities ++ [⟨key,.value identity⟩]
      identityKeysUnique := List.pairwise_append.mpr ⟨db.identityKeysUnique,
        List.pairwise_singleton _ _,fun i hi i' hi' => by
          rw [List.mem_singleton.mp hi']
          exact h i hi⟩ }
  else db

@[simp] theorem insertIdentity_executions (db : Db) (key : ExecutionKey)
    (identity : CallIdentity) : (insertIdentity db key identity).executions=db.executions := by
  unfold insertIdentity
  split <;> rfl

/-- `_upsert_identity`. -/
def upsertIdentity (db : Db) (key : ExecutionKey) (identity : CallIdentity) : Except PyExc Db := do
  bindText identity.summaryClient
  bindText identity.summaryModel
  return insertIdentity db key identity

/-- `_supersede_prior_current`. -/
def supersedePriorCurrent (db : Db) (key : ExecutionKey) (stampedAt : Timestamp) : Db :=
  db.updateWhere (isCurrent key) fun c => { c with supersededAt := some (.value stampedAt) }

/-- `_is_servable`. -/
def isServable (execution : MlExecution) : Bool :=
  decide (execution.executionState=.success) && execution.outputPersisted &&
    decide (execution.supersededAt=none)

/-- The three failure parameters of an execution. -/
def bindFailure (failure : Option ExecutionFailure) : Except PyExc Unit := do
  bindOptional bindText (failure.map (·.message))
  bindOptional bindInteger (failure.bind (·.exitCode))

/-- The columns an execution is inserted with. -/
def insertedColumns (execution : MlExecution) (artifacts : List ArtifactRow)
    (usage : Option UsageRow) : MutableColumns where
  state := .value execution.executionState
  outputPersisted := execution.outputPersisted
  supersededAt := execution.supersededAt.map .value
  failureReason := execution.failure.map fun f => .value f.reason
  failureMessage := execution.failure.map (·.message)
  failureExitCode := execution.failure.bind (·.exitCode)
  artifacts := artifacts
  tokenUsage := usage
  tags := []

/-- The inserted execution row under the id the table gives it. -/
def insertedRow (id : ℕ) (key : ExecutionKey) (execution : MlExecution) (stampedAt : Timestamp)
    (artifacts : List ArtifactRow) (usage : Option UsageRow) : ExecutionRow where
  toMutableColumns := insertedColumns execution artifacts usage
  id := id
  executionKey := key
  kind := .value execution.executionKind
  createdAt := stampedAt
  executionId := execution.executionId

/-- `_insert_execution` with the child rows of the same transaction. -/
def insertExecution (db : Db) (key : ExecutionKey) (execution : MlExecution)
    (stampedAt : Timestamp) : Except PyExc Db := do
  bindFailure execution.failure
  if hnew : ∀ r∈db.executions,r.executionId≠execution.executionId then
    let artifacts ← insertArtifacts execution.artifacts
    let usage ← insertTokenUsage none execution.tokenUsage
    return db.appendRow (insertedRow db.nextId key execution stampedAt artifacts usage) rfl hnew
  else
    .error (.storeConsistency (.integrity
      (pyStr "UNIQUE constraint failed: executions.execution_id")))

/-- `save`. -/
def save (execution : MlExecution) (stampedAt : Timestamp) (db : Db) : Except PyExc Db := do
  let key := execution.callIdentity.generateKey
  let db ← upsertIdentity db key execution.callIdentity
  let db := if isServable execution=true then supersedePriorCurrent db key stampedAt else db
  insertExecution db key execution stampedAt

/-- An inserted identity is there, whether it was inserted now or before. -/
theorem insertIdentity_has (db : Db) (key : ExecutionKey) (identity : CallIdentity) :
    ∃ i∈(insertIdentity db key identity).callIdentities,i.executionKey=key := by
  unfold insertIdentity
  split
  next => exact ⟨⟨key,.value identity⟩,List.mem_append_right _ (List.mem_singleton_self _),rfl⟩
  next h =>
    simp only [ne_eq,not_forall,not_not] at h
    obtain ⟨i,hi,hk⟩ := h
    exact ⟨i,hi,hk⟩

/-- The identities after an insertion are the old ones and at most the new one. -/
theorem mem_insertIdentity {db : Db} {key : ExecutionKey} {identity : CallIdentity} :
    (∀ i∈db.callIdentities,i∈(insertIdentity db key identity).callIdentities) ∧
      ∀ i∈(insertIdentity db key identity).callIdentities,
        i∈db.callIdentities ∨ i=⟨key,.value identity⟩ := by
  unfold insertIdentity
  split
  next => exact ⟨fun i hi => List.mem_append_left _ hi,fun i hi => by simpa using hi⟩
  next => exact ⟨fun i hi => hi,fun i hi => Or.inl hi⟩

/-- Superseding keeps every row's ids. -/
theorem exists_supersedePriorCurrent {db : Db} {key : ExecutionKey} {stampedAt : Timestamp}
    {r : ExecutionRow} (h : r∈db.executions) :
    ∃ r'∈(supersedePriorCurrent db key stampedAt).executions,
      r'.id=r.id ∧ r'.executionId=r.executionId := by
  refine ⟨_,Db.mem_updateWhere.mpr ⟨r,h,rfl⟩,?_⟩
  split <;> exact ⟨rfl,rfl⟩

/-- An inserted execution is one new row at the end, under ids no row had. -/
theorem insertExecution_ok {db db' : Db} {key : ExecutionKey} {execution : MlExecution}
    {stampedAt : Timestamp} (h : insertExecution db key execution stampedAt=.ok db') :
    ∃ id,(∀ r∈db.executions,r.executionId≠execution.executionId) ∧
      (∀ r∈db.executions,r.id < id) ∧
      db'.executions=db.executions ++ [insertedRow id key execution stampedAt
        (execution.artifacts.map artifactRow) (execution.tokenUsage.map usageRow)] ∧
      db'.callIdentities=db.callIdentities := by
  obtain ⟨_,_,h⟩ := ok_of_bind h
  split at h
  next hnew =>
    obtain ⟨artifacts,ha,h⟩ := ok_of_bind h
    obtain ⟨usage,hu,h⟩ := ok_of_bind h
    cases Except.ok.inj h
    have husage : usage=execution.tokenUsage.map usageRow := by
      rcases insertTokenUsage_ok hu with ⟨hn,rfl⟩ | ⟨_,rfl⟩
      · rw [hn]
        rfl
      · rfl
    have hrows := insertArtifacts_ok ha
    subst hrows husage
    exact ⟨_,hnew,fun r hr => Db.id_lt_nextId _ hr,rfl,rfl⟩
  next => exact nomatch h

/-- A saved execution is one new row at the end, under ids no row had. The
key's prior current row is superseded first if the execution is servable. -/
theorem save_ok {execution : MlExecution} {stampedAt : Timestamp} {db db' : Db}
    (h : save execution stampedAt db=.ok db') :
    ∃ id,(∀ r∈db.executions,r.executionId≠execution.executionId) ∧
      (∀ r∈db.executions,r.id < id) ∧
      db'.executions=
        (if isServable execution=true then
          supersedePriorCurrent db execution.callIdentity.generateKey stampedAt
        else db).executions ++ [insertedRow id execution.callIdentity.generateKey execution
          stampedAt (execution.artifacts.map artifactRow) (execution.tokenUsage.map usageRow)] ∧
      db'.callIdentities=
        (insertIdentity db execution.callIdentity.generateKey execution.callIdentity).callIdentities := by
  obtain ⟨d,hd,h⟩ := ok_of_bind h
  obtain ⟨_,_,hd⟩ := ok_of_bind hd
  obtain ⟨_,_,hd⟩ := ok_of_bind hd
  cases Except.ok.inj hd
  obtain ⟨id,hnew,hid,hrows,hident⟩ := insertExecution_ok h
  by_cases hs : isServable execution=true
  · simp only [hs,if_true] at hnew hid hrows hident ⊢
    rw [←insertIdentity_executions db execution.callIdentity.generateKey execution.callIdentity]
    refine ⟨id,fun r hr => ?_,fun r hr => ?_,?_,hident⟩
    · obtain ⟨r',hr',_,he⟩ := exists_supersedePriorCurrent hr
      rw [←he]
      exact hnew r' hr'
    · obtain ⟨r',hr',hi,_⟩ := exists_supersedePriorCurrent hr
      rw [←hi]
      exact hid r' hr'
    · rw [hrows]
      simp only [supersedePriorCurrent,Db.updateWhere,insertIdentity_executions]
  · simp only [hs] at hnew hid hrows hident ⊢
    simp only [Bool.false_eq_true,if_false,insertIdentity_executions] at hnew hid hrows hident ⊢
    exact ⟨id,hnew,hid,hrows,hident⟩

/-- The columns `record_outcome` writes. -/
def outcomeColumns (execution : MlExecution) (usage : Option UsageRow) (c : MutableColumns) :
    MutableColumns :=
  { c with
    state := .value execution.executionState
    failureReason := execution.failure.map fun f => .value f.reason
    failureMessage := execution.failure.map (·.message)
    failureExitCode := execution.failure.bind (·.exitCode)
    tokenUsage := usage }

/-- `record_outcome`. -/
def recordOutcome (execution : MlExecution) (db : Db) : Except PyExc Db :=
  match db.findRow execution.executionId with
  | none => .error (.storeConsistency (.noExecutionRow execution.executionId))
  | some row => do
    bindFailure execution.failure
    let usage ← insertTokenUsage row.tokenUsage execution.tokenUsage
    return db.updateWhere (hasId execution.executionId) (outcomeColumns execution usage)

/-- A recorded outcome rewrites the one row it targets. -/
theorem recordOutcome_ok {execution : MlExecution} {db db' : Db}
    (h : recordOutcome execution db=.ok db') :
    ∃ row∈db.executions,row.executionId=execution.executionId ∧
      ∃ usage,insertTokenUsage row.tokenUsage execution.tokenUsage=.ok usage ∧
        db'=db.updateWhere (hasId execution.executionId) (outcomeColumns execution usage) := by
  unfold recordOutcome at h
  split at h
  next => exact nomatch h
  next row hrow =>
    obtain ⟨_,_,h⟩ := ok_of_bind h
    obtain ⟨usage,hu,h⟩ := ok_of_bind h
    obtain ⟨hmem,hid⟩ := Db.findRow_eq_some.mp hrow
    exact ⟨row,hmem,hid,usage,hu,(Except.ok.inj h).symm⟩

/-- Append artifact rows to an execution. -/
def withArtifacts (rows : List ArtifactRow) (c : MutableColumns) : MutableColumns :=
  { c with artifacts := c.artifacts ++ rows }

/-- `persist_artifact`. -/
def persistArtifact (executionId : ExecutionId) (artifact : Artifact) (db : Db) : Except PyExc Db :=
  match db.findRow executionId with
  | none => .error (.storeConsistency (.noExecutionRow executionId))
  | some _ => do
    let rows ← insertArtifacts [artifact]
    return db.updateWhere (hasId executionId) (withArtifacts rows)

/-- A persisted artifact is one more row at the end of the execution's. -/
theorem persistArtifact_ok {executionId : ExecutionId} {artifact : Artifact} {db db' : Db}
    (h : persistArtifact executionId artifact db=.ok db') :
    (∃ row∈db.executions,row.executionId=executionId) ∧
      db'=db.updateWhere (hasId executionId) (withArtifacts [artifactRow artifact]) := by
  unfold persistArtifact at h
  split at h
  next => exact nomatch h
  next row hrow =>
    obtain ⟨rows,hr,h⟩ := ok_of_bind h
    rw [insertArtifacts_ok hr] at h
    exact ⟨⟨row,Db.findRow_eq_some.mp hrow⟩,(Except.ok.inj h).symm⟩

/-- Change the artifact rows under one blob key. -/
def markColumns (blobKey : BlobKey) (mark : ArtifactRow → ArtifactRow) (c : MutableColumns) :
    MutableColumns :=
  { c with artifacts := c.artifacts.map fun a => if a.blobKey=.value blobKey then mark a else a }

/-- `UPDATE artifacts … WHERE blob_key = ? AND execution_id = …`, which must
reach at least one row (`_require_artifact_update`). -/
def markArtifacts (executionId : ExecutionId) (blobKey : BlobKey)
    (mark : ArtifactRow → ArtifactRow) (db : Db) : Except PyExc Db :=
  match db.findRow executionId with
  | none => .error (.storeConsistency (.noArtifactRow executionId blobKey))
  | some row =>
    if row.artifacts.any (fun a => decide (a.blobKey=.value blobKey))=true then
      .ok (db.updateWhere (hasId executionId) (markColumns blobKey mark))
    else .error (.storeConsistency (.noArtifactRow executionId blobKey))

/-- A mark reached an artifact row of its execution. -/
theorem markArtifacts_ok {executionId : ExecutionId} {blobKey : BlobKey}
    {mark : ArtifactRow → ArtifactRow} {db db' : Db}
    (h : markArtifacts executionId blobKey mark db=.ok db') :
    (∃ row∈db.executions,row.executionId=executionId ∧
        ∃ a∈row.artifacts,a.blobKey=.value blobKey) ∧
      db'=db.updateWhere (hasId executionId) (markColumns blobKey mark) := by
  unfold markArtifacts at h
  split at h
  next => exact nomatch h
  next row hrow =>
    split at h
    next hany =>
      obtain ⟨hmem,hid⟩ := Db.findRow_eq_some.mp hrow
      exact ⟨⟨row,hmem,hid,by simpa using hany⟩,(Except.ok.inj h).symm⟩
    next => exact nomatch h

/-- A mark whose execution has a row under the blob key succeeds. -/
theorem markArtifacts_of {executionId : ExecutionId} {blobKey : BlobKey}
    (mark : ArtifactRow → ArtifactRow) {db : Db} {row : ExecutionRow} (hmem : row∈db.executions)
    (hid : row.executionId=executionId) (ha : ∃ a∈row.artifacts,a.blobKey=.value blobKey) :
    markArtifacts executionId blobKey mark db=
      .ok (db.updateWhere (hasId executionId) (markColumns blobKey mark)) := by
  have hany : row.artifacts.any (fun a => decide (a.blobKey=.value blobKey))=true := by simpa using ha
  simp only [markArtifacts,Db.findRow_eq_some.mpr ⟨hmem,hid⟩,hany,if_true]

/-- What `mark_artifacts_stored` sets. -/
def storedMark (now : Timestamp) (a : ArtifactRow) : ArtifactRow :=
  { a with status := .value .stored, persistedAt := some now, statusDetail := none }

/-- What `mark_artifacts_failed` sets. -/
def failedMark (detail : PyStr) (a : ArtifactRow) : ArtifactRow :=
  { a with status := .value .failed, statusDetail := some detail }

/-- `mark_artifacts_stored`. -/
def markArtifactsStored (executionId : ExecutionId) (blobKey : BlobKey) (now : Timestamp) (db : Db) :
    Except PyExc Db := markArtifacts executionId blobKey (storedMark now) db

/-- `mark_artifacts_failed`. -/
def markArtifactsFailed (executionId : ExecutionId) (blobKey : BlobKey) (detail : PyStr) (db : Db) :
    Except PyExc Db := do
  bindText detail
  markArtifacts executionId blobKey (failedMark detail) db

/-- The artifact rows `finalize` counts against a run. -/
def notStored (a : ArtifactRow) : Bool := decide (a.status≠.value .stored)

/-- `finalize_output_persisted`: the key's current rows are superseded before
this row is promoted. -/
def finalizeOutputPersisted (executionId : ExecutionId) (now : Timestamp) (db : Db) :
    Except PyExc Db :=
  match db.findRow executionId with
  | none => .error (.storeConsistency (.finalizeUnknown executionId))
  | some row =>
    if row.artifacts.countP notStored=0 then
      let db := if row.state=.value .success then supersedePriorCurrent db row.executionKey now else db
      .ok (db.updateWhere (hasId executionId) fun c => { c with outputPersisted := true })
    else .error (.storeConsistency (.finalizeNotStored executionId (row.artifacts.countP notStored)))

/-- A finalized run had every artifact row stored. -/
theorem finalizeOutputPersisted_ok {executionId : ExecutionId} {now : Timestamp} {db db' : Db}
    (h : finalizeOutputPersisted executionId now db=.ok db') :
    ∃ row∈db.executions,row.executionId=executionId ∧
      (∀ a∈row.artifacts,a.status=.value .stored) ∧
      db'=(if row.state=.value .success then supersedePriorCurrent db row.executionKey now
        else db).updateWhere (hasId executionId) fun c => { c with outputPersisted := true } := by
  unfold finalizeOutputPersisted at h
  split at h
  next => exact nomatch h
  next row hrow =>
    split at h
    next hcount =>
      obtain ⟨hmem,hid⟩ := Db.findRow_eq_some.mp hrow
      refine ⟨row,hmem,hid,fun a ha => ?_,(Except.ok.inj h).symm⟩
      have := List.countP_eq_zero.mp hcount a ha
      simpa [notStored] using this
    next => exact nomatch h

/-- Finalizing succeeds on a row whose artifact rows are all stored. -/
theorem finalizeOutputPersisted_of {executionId : ExecutionId} (now : Timestamp) {db : Db}
    {row : ExecutionRow} (hmem : row∈db.executions) (hid : row.executionId=executionId)
    (ha : ∀ a∈row.artifacts,a.status=.value .stored) :
    finalizeOutputPersisted executionId now db=
      .ok ((if row.state=.value .success then supersedePriorCurrent db row.executionKey now
        else db).updateWhere (hasId executionId) fun c => { c with outputPersisted := true }) := by
  have hcount : row.artifacts.countP notStored=0 :=
    List.countP_eq_zero.mpr fun a h => by simp [notStored,ha a h]
  simp only [finalizeOutputPersisted,Db.findRow_eq_some.mpr ⟨hmem,hid⟩,hcount,if_true]

/-- Drop the identity of a key without executions. -/
def dropOrphanIdentity (key : ExecutionKey) (db : Db) : Db :=
  if db.executions.countP (hasKey key)=0 then db.deleteIdentity key else db

@[simp] theorem dropOrphanIdentity_executions (key : ExecutionKey) (db : Db) :
    (dropOrphanIdentity key db).executions=db.executions := by
  unfold dropOrphanIdentity
  split <;> rfl

/-- `remove_execution`; a missing row is already gone. -/
def removeExecution (executionId : ExecutionId) (db : Db) : Db :=
  match db.findRow executionId with
  | none => db
  | some row => dropOrphanIdentity row.executionKey (db.deleteWhere (hasId executionId))

/-- A removal leaves exactly the rows of the other executions. -/
@[simp] theorem mem_removeExecution {executionId : ExecutionId} {db : Db} {row : ExecutionRow} :
    row∈(removeExecution executionId db).executions ↔
      row∈db.executions ∧ row.executionId≠executionId := by
  unfold removeExecution
  split
  next hnone =>
    constructor
    · exact fun h => ⟨h,Db.findRow_eq_none.mp hnone row h⟩
    · exact fun h => h.1
  next => simp

/-- `INSERT OR IGNORE INTO execution_tags`. -/
def insertTag (tags : List PyStr) (tag : PyStr) : List PyStr :=
  if tag∈tags then tags else tags ++ [tag]

/-- Tags are only added. -/
theorem subset_foldl_insertTag (new tags : List PyStr) : tags⊆new.foldl insertTag tags := by
  induction new generalizing tags with
  | nil => exact fun _ h => h
  | cons tag new ih =>
    intro t ht
    refine ih (insertTag tags tag) ?_
    unfold insertTag
    split
    · exact ht
    · exact List.mem_append_left _ ht

/-- `add_tags`. -/
def addTags (key : ExecutionKey) (tags : List PyStr) (db : Db) : Except PyExc Db :=
  if tags=[] then .ok db
  else match db.currentRow key with
  | none => .ok db
  | some row => do
    tags.forM bindText
    return db.updateWhere (hasId row.executionId) fun c =>
      { c with tags := tags.foldl insertTag c.tags }

/-- Adding tags changes at most the tags of one row. -/
theorem addTags_ok {key : ExecutionKey} {tags : List PyStr} {db db' : Db}
    (h : addTags key tags db=.ok db') :
    db'=db ∨ ∃ id,db'=db.updateWhere (hasId id) fun c =>
      { c with tags := tags.foldl insertTag c.tags } := by
  unfold addTags at h
  split at h
  next => exact Or.inl (Except.ok.inj h).symm
  next =>
    split at h
    next => exact Or.inl (Except.ok.inj h).symm
    next row _ =>
      obtain ⟨_,_,h⟩ := ok_of_bind h
      exact Or.inr ⟨row.executionId,(Except.ok.inj h).symm⟩

/-- An artifact row of one of `_INPUT_TYPE_VALUES`. -/
def ArtifactRow.isInput (a : ArtifactRow) : Bool :=
  match a.artifactType with
  | .value t => t.isInput
  | .malformed _ => false

/-- `add_input_artifacts`: onto the current execution, unless it has input. -/
def addInputArtifacts (key : ExecutionKey) (artifacts : List Artifact) (db : Db) :
    Except PyExc Db :=
  if artifacts.isEmpty=true then .ok db
  else match db.currentRow key with
  | none => .ok db
  | some row =>
    if row.artifacts.any ArtifactRow.isInput=true then .ok db
    else do
      let rows ← insertArtifacts artifacts
      return db.updateWhere (hasId row.executionId) (withArtifacts rows)

/-- Input is attached to the current execution, or nothing changes. -/
theorem addInputArtifacts_ok {key : ExecutionKey} {artifacts : List Artifact} {db db' : Db}
    (h : addInputArtifacts key artifacts db=.ok db') :
    db'=db ∨ ∃ row,db.currentRow key=some row ∧ row.artifacts.any ArtifactRow.isInput=false ∧
      db'=db.updateWhere (hasId row.executionId) (withArtifacts (artifacts.map artifactRow)) := by
  unfold addInputArtifacts at h
  split at h
  next => exact Or.inl (Except.ok.inj h).symm
  next =>
    split at h
    next => exact Or.inl (Except.ok.inj h).symm
    next row hrow =>
      split at h
      next => exact Or.inl (Except.ok.inj h).symm
      next hinput =>
        obtain ⟨rows,hr,h⟩ := ok_of_bind h
        rw [insertArtifacts_ok hr] at h
        exact Or.inr ⟨row,hrow,by simpa using hinput,(Except.ok.inj h).symm⟩

/-- What `soft_purge_execution` leaves of a row. -/
def purgedColumns (c : MutableColumns) : MutableColumns :=
  { c with artifacts := [], outputPersisted := false }

/-- `soft_purge_execution`. -/
def softPurgeExecution (key : ExecutionKey) (db : Db) : Db :=
  db.updateWhere (hasKey key) purgedColumns

/-- `hard_delete_execution`. -/
def hardDeleteExecution (key : ExecutionKey) (db : Db) : Db :=
  (db.deleteWhere (hasKey key)).deleteIdentity key

/-- A hard delete leaves exactly the rows of the other keys. -/
@[simp] theorem mem_hardDeleteExecution {key : ExecutionKey} {db : Db} {row : ExecutionRow} :
    row∈(hardDeleteExecution key db).executions ↔ row∈db.executions ∧ row.executionKey≠key := by
  simp [hardDeleteExecution]

end GenericMlCache.ExecutionRepository
