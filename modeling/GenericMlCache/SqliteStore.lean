import GenericMlCache.ExecutionModel
import Mathlib.Data.List.Sort
import Mathlib.Data.List.Lemmas

/-!
# The SQLite execution store

The tables of the execution subsystem and every transaction of the repository.
Child rows are kept inside the execution row their foreign key names, so a
cascade is a deletion of that row. Each transaction either commits a new
database or raises and leaves the old one.
-/

namespace GenericMlCache.SqliteStore

open PythonText ExecutionModel

/-- A TEXT column holding a closed vocabulary. Only a damaged row holds a text
outside it, and such a text does not decode. -/
inductive Column (α : Type) where
  | value (a : α)
  | malformed (text : PyStr)
deriving DecidableEq

/-- Decode a column; the raised ValueError is carried as its message. -/
def Column.decode {α : Type} : Column α → Except PyStr α
  | .value a => .ok a
  | .malformed text => .error (text ++ pyStr " is not valid")

/-- One `artifacts` row. -/
structure ArtifactRow where
  /-- What it is of. -/
  artifactType : Column ArtifactType
  /-- The file's name. -/
  name : Option PyStr
  /-- How its text is encoded. -/
  encoding : Encoding
  /-- The key of its blob. -/
  blobKey : Column BlobKey
  /-- The size that it was recorded with. -/
  sizeBytes : Size
  /-- How far its blob got. -/
  status : Column ArtifactStatus
  /-- When its blob was stored. -/
  persistedAt : Option Timestamp
  /-- Why it failed. -/
  statusDetail : Option PyStr
deriving DecidableEq

/-- One `token_usage` row. -/
structure UsageRow where
  /-- Input tokens. -/
  inputTokens : Option ℤ
  /-- Output tokens. -/
  outputTokens : Option ℤ
  /-- Tokens read from the provider's cache. -/
  cacheReadTokens : Option ℤ
  /-- Tokens written to it. -/
  cacheWriteTokens : Option ℤ
  /-- Reasoning tokens. -/
  reasoningTokens : Option ℤ
  /-- The bits of the cost in dollars. -/
  costUsd : Option UInt64
  /-- The provider's block. -/
  rawJson : Column (List (PyStr × Json))

/-- The columns and child rows of an execution that an UPDATE may change. -/
structure MutableColumns where
  /-- The state of the run. -/
  state : Column ExecutionState
  /-- Its output was persisted. -/
  outputPersisted : Bool
  /-- When it was superseded. -/
  supersededAt : Option (Column Timestamp)
  /-- Why it failed. -/
  failureReason : Option (Column FailureReason)
  /-- What it said then. -/
  failureMessage : Option PyStr
  /-- The exit code it failed with. -/
  failureExitCode : Option ℤ
  /-- Its artifact rows, in id order. -/
  artifacts : List ArtifactRow
  /-- At most one row: `execution_id` is the primary key of the table. -/
  tokenUsage : Option UsageRow
  /-- Its tags. -/
  tags : List PyStr

/-- One `executions` row with its child rows. No statement updates the columns
added here. -/
structure ExecutionRow extends MutableColumns where
  /-- The primary key. -/
  id : ℕ
  /-- The key of the call. -/
  executionKey : ExecutionKey
  /-- The kind of the call. -/
  kind : Column ExecutionKind
  /-- When it was begun. -/
  createdAt : Timestamp
  /-- Its id outside the database. -/
  executionId : ExecutionId

/-- One `call_identities` row. -/
structure IdentityRow where
  /-- The key. -/
  executionKey : ExecutionKey
  /-- The call that it is the key of. -/
  identity : Column CallIdentity
deriving DecidableEq

/-- The database. Its fields state the constraints of the schema, so that no
statement can build a database violating them. -/
structure Db where
  /-- The executions, in id order. -/
  executions : List ExecutionRow
  /-- The identities, one for each key. -/
  callIdentities : List IdentityRow
  /-- `id` is the primary key. -/
  idsSorted : executions.Pairwise fun r r' => r.id < r'.id
  /-- The unique index on `execution_id`. -/
  executionIdsUnique : executions.Pairwise fun r r' => r.executionId≠r'.executionId
  /-- `execution_key` is the primary key of the identities. -/
  identityKeysUnique : callIdentities.Pairwise fun i i' => i.executionKey≠i'.executionKey

/-- A freshly created store. -/
def Db.empty : Db := ⟨[],[],.nil,.nil,.nil⟩

@[simp] theorem Db.empty_executions : Db.empty.executions=[] := rfl

/-- Two rows of one database with the same surrogate id are the same row. -/
theorem Db.row_unique (db : Db) {r r' : ExecutionRow} (h : r∈db.executions)
    (h' : r'∈db.executions) (he : r.executionId=r'.executionId) : r=r' :=
  List.inj_on_of_nodup_map (List.pairwise_map.mpr db.executionIdsUnique) h h' he

/-- Two rows of one database with the same row id are the same row. -/
theorem Db.id_unique (db : Db) {r r' : ExecutionRow} (h : r∈db.executions)
    (h' : r'∈db.executions) (he : r.id=r'.id) : r=r' := by
  have hids : db.executions.Pairwise fun a b => a.id≠b.id :=
    db.idsSorted.imp fun hlt => Nat.ne_of_lt hlt
  exact List.inj_on_of_nodup_map (List.pairwise_map.mpr hids) h h' he

/-- The columns of a servable execution. -/
def MutableColumns.servable (c : MutableColumns) : Bool :=
  decide (c.state=.value .success) && c.outputPersisted && decide (c.supersededAt=none)

/-- The WHERE clause of every query for a key's current execution. -/
def isCurrent (key : ExecutionKey) (row : ExecutionRow) : Bool :=
  decide (row.executionKey=key) && row.servable

/-- Servability, column by column. -/
theorem MutableColumns.servable_iff (c : MutableColumns) :
    c.servable=true ↔ c.state=.value .success ∧ c.outputPersisted=true ∧ c.supersededAt=none := by
  simp [servable,and_assoc]

/-- Currency is servability under the key. -/
@[simp] theorem isCurrent_iff (key : ExecutionKey) (row : ExecutionRow) :
    isCurrent key row=true ↔ row.executionKey=key ∧ row.servable=true := by
  simp [isCurrent]

/-- `SELECT … WHERE execution_id = ?`. -/
def Db.findRow (db : Db) (executionId : ExecutionId) : Option ExecutionRow :=
  db.executions.find? fun row => decide (row.executionId=executionId)

/-- A row found by surrogate id is in the table under that id. -/
theorem Db.findRow_eq_some {db : Db} {executionId : ExecutionId} {row : ExecutionRow} :
    db.findRow executionId=some row ↔ row∈db.executions ∧ row.executionId=executionId := by
  constructor
  · intro h
    exact ⟨List.mem_of_find?_eq_some h,by simpa using List.find?_some h⟩
  · rintro ⟨hmem,rfl⟩
    cases hf : db.findRow row.executionId with
    | none =>
      have := List.find?_eq_none.mp hf row hmem
      simp at this
    | some row' =>
      have hid : row'.executionId=row.executionId := by simpa using List.find?_some hf
      rw [db.row_unique (List.mem_of_find?_eq_some hf) hmem hid]

/-- No row is found exactly when no row has the surrogate id. -/
theorem Db.findRow_eq_none {db : Db} {executionId : ExecutionId} :
    db.findRow executionId=none ↔ ∀ row∈db.executions,row.executionId≠executionId := by
  simp [findRow]

/-- `… AND superseded_at IS NULL ORDER BY id DESC LIMIT 1`. -/
def Db.currentRow (db : Db) (key : ExecutionKey) : Option ExecutionRow :=
  (db.executions.filter (isCurrent key)).getLast?

/-- The current row is a servable row of its key. -/
theorem Db.currentRow_mem {db : Db} {key : ExecutionKey} {row : ExecutionRow}
    (h : db.currentRow key=some row) :
    row∈db.executions ∧ row.executionKey=key ∧ row.servable=true := by
  have hmem := List.mem_of_getLast? h
  simpa [List.mem_filter] using hmem

/-- There is no current row exactly when no row of the key is servable. -/
theorem Db.currentRow_eq_none {db : Db} {key : ExecutionKey} :
    db.currentRow key=none ↔ ∀ row∈db.executions,row.executionKey=key → row.servable=false := by
  simp [currentRow]

/-- The law that currency is never split: one servable row for each key. -/
def Db.AtMostOneCurrent (db : Db) : Prop :=
  ∀ r∈db.executions,∀ r'∈db.executions,r.executionKey=r'.executionKey →
    r.servable=true → r'.servable=true → r=r'

/-- Where currency is not split, the query finds every servable row. -/
theorem Db.AtMostOneCurrent.currentRow {db : Db} (h : db.AtMostOneCurrent) {row : ExecutionRow}
    (hmem : row∈db.executions) (hs : row.servable=true) :
    db.currentRow row.executionKey=some row := by
  cases hc : db.currentRow row.executionKey with
  | none => simp [Db.currentRow_eq_none.mp hc row hmem rfl] at hs
  | some r =>
    obtain ⟨hr,hk,hserv⟩ := Db.currentRow_mem hc
    rw [h r hr row hmem hk hserv hs]

/-- Change the updatable columns of one row. -/
def ExecutionRow.update (f : MutableColumns → MutableColumns) (row : ExecutionRow) : ExecutionRow :=
  { row with toMutableColumns := f row.toMutableColumns }

section Update
variable (f : MutableColumns → MutableColumns) (row : ExecutionRow)

@[simp] theorem ExecutionRow.update_columns :
    (row.update f).toMutableColumns=f row.toMutableColumns := rfl
@[simp] theorem ExecutionRow.update_id : (row.update f).id=row.id := rfl
@[simp] theorem ExecutionRow.update_executionKey :
    (row.update f).executionKey=row.executionKey := rfl
@[simp] theorem ExecutionRow.update_kind : (row.update f).kind=row.kind := rfl
@[simp] theorem ExecutionRow.update_createdAt : (row.update f).createdAt=row.createdAt := rfl
@[simp] theorem ExecutionRow.update_executionId :
    (row.update f).executionId=row.executionId := rfl

end Update

/-- `UPDATE executions … WHERE …`, child rows included. -/
def Db.updateWhere (db : Db) (p : ExecutionRow → Bool) (f : MutableColumns → MutableColumns) : Db where
  executions := db.executions.map fun row => if p row=true then row.update f else row
  callIdentities := db.callIdentities
  idsSorted := by
    refine List.pairwise_map.mpr (db.idsSorted.imp fun h => ?_)
    split <;> split <;> exact h
  executionIdsUnique := by
    refine List.pairwise_map.mpr (db.executionIdsUnique.imp fun h => ?_)
    split <;> split <;> exact h
  identityKeysUnique := db.identityKeysUnique

/-- `DELETE FROM executions WHERE …`, with the cascade to the child rows. -/
def Db.deleteWhere (db : Db) (p : ExecutionRow → Bool) : Db where
  executions := db.executions.filter fun row => !p row
  callIdentities := db.callIdentities
  idsSorted := db.idsSorted.filter _
  executionIdsUnique := db.executionIdsUnique.filter _
  identityKeysUnique := db.identityKeysUnique

/-- `DELETE FROM call_identities WHERE execution_key = ?`. -/
def Db.deleteIdentity (db : Db) (key : ExecutionKey) : Db :=
  { db with
    callIdentities := db.callIdentities.filter fun i => !decide (i.executionKey=key)
    identityKeysUnique := db.identityKeysUnique.filter _ }

/-- The id SQLite gives the next inserted row: one above the largest. -/
def Db.nextId (db : Db) : ℕ := db.executions.foldr (fun row n => max row.id n) 0+1

/-- Every id in the table is below the next one. -/
theorem Db.id_lt_nextId (db : Db) {row : ExecutionRow} (h : row∈db.executions) :
    row.id < db.nextId := by
  have hle : ∀ rows : List ExecutionRow,row∈rows →
      row.id ≤ rows.foldr (fun r n => max r.id n) 0 := by
    intro rows
    induction rows with
    | nil => simp
    | cons r rows ih =>
      intro hmem
      rcases List.mem_cons.mp hmem with rfl | hmem
      · exact Nat.le_max_left _ _
      · exact (ih hmem).trans (Nat.le_max_right _ _)
  exact Nat.lt_succ_of_le (hle _ h)

/-- Append an inserted execution. Its surrogate id must be new. -/
def Db.appendRow (db : Db) (row : ExecutionRow) (hid : row.id=db.nextId)
    (hnew : ∀ r∈db.executions,r.executionId≠row.executionId) : Db where
  executions := db.executions ++ [row]
  callIdentities := db.callIdentities
  idsSorted := List.pairwise_append.mpr ⟨db.idsSorted,List.pairwise_singleton _ _,fun r hr r' hr' => by
    rw [List.mem_singleton.mp hr',hid]
    exact db.id_lt_nextId hr⟩
  executionIdsUnique := List.pairwise_append.mpr ⟨db.executionIdsUnique,List.pairwise_singleton _ _,
    fun r hr r' hr' => by
      rw [List.mem_singleton.mp hr']
      exact hnew r hr⟩
  identityKeysUnique := db.identityKeysUnique

/-- An updated table holds the selected rows changed and the others as they were. -/
theorem Db.mem_updateWhere {db : Db} {p : ExecutionRow → Bool} {f : MutableColumns → MutableColumns}
    {row : ExecutionRow} : row∈(db.updateWhere p f).executions ↔
      ∃ r∈db.executions,(if p r=true then r.update f else r)=row := by
  simp [updateWhere]

/-- A row that the WHERE clause does not select survives the update as it is. -/
theorem Db.mem_updateWhere_of_not {db : Db} {p : ExecutionRow → Bool}
    {f : MutableColumns → MutableColumns} {row : ExecutionRow} (h : row∈db.executions)
    (hp : p row=false) : row∈(db.updateWhere p f).executions :=
  Db.mem_updateWhere.mpr ⟨row,h,by simp [hp]⟩

/-- A selected row is in the updated table with its new columns. -/
theorem Db.mem_updateWhere_of {db : Db} {p : ExecutionRow → Bool}
    {f : MutableColumns → MutableColumns} {row : ExecutionRow} (h : row∈db.executions)
    (hp : p row=true) : row.update f∈(db.updateWhere p f).executions :=
  Db.mem_updateWhere.mpr ⟨row,h,by simp [hp]⟩

/-- A deletion leaves exactly the rows its WHERE clause does not select. -/
@[simp] theorem Db.mem_deleteWhere {db : Db} {p : ExecutionRow → Bool} {row : ExecutionRow} :
    row∈(db.deleteWhere p).executions ↔ row∈db.executions ∧ p row=false := by
  simp [deleteWhere,List.mem_filter]

@[simp] theorem Db.deleteIdentity_executions (db : Db) (key : ExecutionKey) :
    (db.deleteIdentity key).executions=db.executions := rfl

@[simp] theorem Db.updateWhere_callIdentities (db : Db) (p : ExecutionRow → Bool)
    (f : MutableColumns → MutableColumns) :
    (db.updateWhere p f).callIdentities=db.callIdentities := rfl

@[simp] theorem Db.deleteWhere_callIdentities (db : Db) (p : ExecutionRow → Bool) :
    (db.deleteWhere p).callIdentities=db.callIdentities := rfl

/-- An appended table holds the new row beside the old ones. -/
@[simp] theorem Db.mem_appendRow {db : Db} {new row : ExecutionRow} {hid hnew} :
    row∈(db.appendRow new hid hnew).executions ↔ row∈db.executions ∨ row=new := by
  simp [appendRow]

@[simp] theorem Db.appendRow_callIdentities {db : Db} {new : ExecutionRow} {hid hnew} :
    (db.appendRow new hid hnew).callIdentities=db.callIdentities := rfl

end GenericMlCache.SqliteStore
