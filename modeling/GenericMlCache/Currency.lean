import GenericMlCache.RepositoryCalls
import Mathlib.Logic.Function.Basic

/-!
# At most one current execution

Recorders, repair passes, back-fills, self-heals and purges act on one database
with no mutual exclusion. Currency is decided by three columns that six
different transactions write, and no index enforces it. It is never split:
only two transactions can make a row servable, finalize supersedes the key's
servable rows first, and a row whose outcome is still to be recorded is held
by one recorder alone.
-/

namespace GenericMlCache.Currency

open PythonText ExecutionModel SqliteStore ExecutionRepository ExecutionQueries RepositoryCalls

/-- An update that makes no row servable keeps currency unsplit. -/
theorem atMostOne_updateWhere {db : Db} {p : ExecutionRow → Bool}
    {f : MutableColumns → MutableColumns} (h : db.AtMostOneCurrent)
    (hf : ∀ row∈db.executions,p row=true → (f row.toMutableColumns).servable=true →
      row.servable=true) : (db.updateWhere p f).AtMostOneCurrent := by
  have hback : ∀ r∈db.executions,
      (if p r=true then r.update f else r).servable=true → r.servable=true := by
    intro r hr hs
    by_cases hp : p r=true
    · rw [if_pos hp] at hs
      exact hf r hr hp hs
    · rwa [if_neg hp] at hs
  intro a ha b hb hkey hsa hsb
  obtain ⟨r,hr,rfl⟩ := Db.mem_updateWhere.mp ha
  obtain ⟨r',hr',rfl⟩ := Db.mem_updateWhere.mp hb
  have hkeys : r.executionKey=r'.executionKey := by
    split at hkey <;> split at hkey <;> exact hkey
  rw [h r hr r' hr' hkeys (hback r hr hsa) (hback r' hr' hsb)]

/-- Fewer rows keep currency unsplit. -/
theorem atMostOne_of_subset {db db' : Db} (h : db.AtMostOneCurrent)
    (hsub : ∀ row∈db'.executions,row∈db.executions) : db'.AtMostOneCurrent :=
  fun r hr r' hr' => h r (hsub r hr) r' (hsub r' hr')

/-- No row of the key is servable once its current rows are superseded. -/
theorem not_servable_of_superseded {db : Db} {key : ExecutionKey} {now : Timestamp}
    {row : ExecutionRow} (h : row∈(supersedePriorCurrent db key now).executions)
    (hkey : row.executionKey=key) : row.servable=false := by
  obtain ⟨r,_,rfl⟩ := Db.mem_updateWhere.mp h
  by_cases hp : isCurrent key r=true
  · rw [if_pos hp]
    simp [MutableColumns.servable]
  · rw [if_neg hp] at hkey ⊢
    simpa [hkey] using hp

/-- Superseding makes no row servable. -/
theorem atMostOne_supersede {db : Db} (h : db.AtMostOneCurrent) (key : ExecutionKey)
    (now : Timestamp) : (supersedePriorCurrent db key now).AtMostOneCurrent :=
  atMostOne_updateWhere h fun row _ _ hs => by simp [MutableColumns.servable] at hs

/-- A finalized success takes the place of the key's current row, and a
finalized failure is not servable. -/
theorem atMostOne_finalize {id : ExecutionId} {now : Timestamp} {db db' : Db}
    (h : db.AtMostOneCurrent) (hf : finalizeOutputPersisted id now db=.ok db') :
    db'.AtMostOneCurrent := by
  obtain ⟨row,hmem,hid,_,rfl⟩ := finalizeOutputPersisted_ok hf
  by_cases hstate : row.state=.value .success
  · rw [if_pos hstate]
    -- A servable row afterwards is either the promoted one or of another key.
    have hservable : ∀ r∈(supersedePriorCurrent db row.executionKey now).executions,
        (if hasId id r=true then r.update fun c => { c with outputPersisted := true }
          else r).servable=true → r.executionKey=row.executionKey → r.executionId=id := by
      intro r hr hs hkey
      by_contra hne
      rw [if_neg (by simpa using hne)] at hs
      rw [not_servable_of_superseded hr hkey] at hs
      exact Bool.false_ne_true hs
    have hsup := atMostOne_supersede h row.executionKey now
    intro a ha b hb hkey hsa hsb
    obtain ⟨r,hr,rfl⟩ := Db.mem_updateWhere.mp ha
    obtain ⟨r',hr',rfl⟩ := Db.mem_updateWhere.mp hb
    have hkeys : r.executionKey=r'.executionKey := by
      split at hkey <;> split at hkey <;> exact hkey
    by_cases hk : r.executionKey=row.executionKey
    · have hr1 := hservable r hr hsa hk
      have hr2 := hservable r' hr' hsb (hkeys ▸ hk)
      rw [Db.row_unique _ hr hr' (hr1.trans hr2.symm)]
    · have hother : ∀ q∈(supersedePriorCurrent db row.executionKey now).executions,
          q.executionKey≠row.executionKey → hasId id q=false := by
        intro q hq hqk
        rw [hasId_eq_false]
        intro hqid
        obtain ⟨q',hq',rfl⟩ := Db.mem_updateWhere.mp hq
        have hsame : q'=row := by
          refine db.row_unique hq' hmem ?_
          rw [hid,←hqid]
          split <;> rfl
        subst hsame
        refine hqk ?_
        split <;> rfl
      rw [hother r hr hk] at hsa ⊢
      rw [hother r' hr' (hkeys ▸ hk)] at hsb ⊢
      exact congrArg _ (hsup r hr r' hr' hkeys hsa hsb)
  · rw [if_neg hstate]
    refine atMostOne_updateWhere h fun r hr hp hs => ?_
    have hsame : r=row := db.row_unique hr hmem (((hasId_iff _ _).mp hp).trans hid.symm)
    subst hsame
    exact absurd ((MutableColumns.servable_iff _).mp hs).1 hstate

/-- A saved execution that is not servable adds no servable row. -/
theorem atMostOne_save {execution : MlExecution} {now : Timestamp} {db db' : Db}
    (h : db.AtMostOneCurrent) (hs : isServable execution=false)
    (hsave : save execution now db=.ok db') : db'.AtMostOneCurrent := by
  obtain ⟨id,_,_,hrows,_⟩ := save_ok hsave
  simp only [hs,Bool.false_eq_true,if_false] at hrows
  have hnew : (insertedRow id execution.callIdentity.generateKey execution now
      (execution.artifacts.map artifactRow) (execution.tokenUsage.map usageRow)).servable=false := by
    rw [Bool.eq_false_iff]
    intro hserv
    obtain ⟨hstate,hpersisted,hsup⟩ := (MutableColumns.servable_iff _).mp hserv
    have hstate' : execution.executionState=.success := by
      simpa [insertedRow,insertedColumns] using hstate
    have hsup' : execution.supersededAt=none := by simpa [insertedRow,insertedColumns] using hsup
    simp only [insertedRow,insertedColumns] at hpersisted
    simp [isServable,hstate',hsup',hpersisted] at hs
  intro a ha b hb hkey hsa hsb
  rw [hrows,List.mem_append,List.mem_singleton] at ha hb
  rcases ha with ha | rfl
  · rcases hb with hb | rfl
    · exact h a ha b hb hkey hsa hsb
    · exact absurd hsb (by simp [hnew])
  · exact absurd hsa (by simp [hnew])

/-- Where one actor stands between two of its repository calls. -/
inductive Actor where
  /-- It has no run under way and may begin one in any role. -/
  | idle
  /-- A recorder whose row is saved and whose outcome is not recorded. -/
  | saved (executionId : ExecutionId)
  /-- A recorder between its outcome and its finalize. -/
  | recorded (executionId : ExecutionId)
  /-- A reader that found an execution, to back-fill it or to heal it away. -/
  | found (executionId : ExecutionId)
  /-- A repair pass over the runs it listed. -/
  | repairing (listed : List ExecutionId)
deriving DecidableEq

/-- One call an actor may make where it stands, and where the answer leaves it. -/
inductive Turn : Actor → (call : StoreCall) → call.Ret → Actor → Prop where
  /-- A recorder inserts its row: in progress, without documents. -/
  | save (execution : MlExecution) (hstate : execution.executionState=.inProgress)
      (hout : execution.outputPersisted=false) (hart : execution.artifacts=[]) :
      Turn .idle (.save execution) () (.saved execution.executionId)
  /-- A recorder drops the row of an interrupted run. -/
  | abandon (e : ExecutionId) : Turn (.saved e) (.removeExecution e) () .idle
  /-- A recorder records the outcome of its run, success or failure. -/
  | outcome (execution : MlExecution) :
      Turn (.saved execution.executionId) (.recordOutcome execution) ()
        (.recorded execution.executionId)
  /-- A recorder inserts one document's row. -/
  | persist (e : ExecutionId) (artifact : Artifact) :
      Turn (.recorded e) (.persistArtifact e artifact) () (.recorded e)
  /-- A recorder resolves a document's row to stored. -/
  | stored (e : ExecutionId) (blobKey : BlobKey) :
      Turn (.recorded e) (.markArtifactsStored e blobKey) () (.recorded e)
  /-- A recorder resolves a document's row to failed. -/
  | failed (e : ExecutionId) (blobKey : BlobKey) (detail : PyStr) :
      Turn (.recorded e) (.markArtifactsFailed e blobKey detail) () (.recorded e)
  /-- A recorder finalizes its own row, at most once. -/
  | finalize (e : ExecutionId) : Turn (.recorded e) (.finalizeOutputPersisted e) () .idle
  /-- A repair pass lists the runs awaiting persistence. -/
  | list (runs : List UnpersistedRun) :
      Turn .idle .runsAwaitingPersistence runs (.repairing (runs.map (·.executionId)))
  /-- A repair pass finds a listed run's blob. -/
  | repairStored (listed : List ExecutionId) (e : ExecutionId) (he : e∈listed) (blobKey : BlobKey) :
      Turn (.repairing listed) (.markArtifactsStored e blobKey) () (.repairing listed)
  /-- A repair pass misses a listed run's blob. -/
  | repairFailed (listed : List ExecutionId) (e : ExecutionId) (he : e∈listed) (blobKey : BlobKey)
      (detail : PyStr) :
      Turn (.repairing listed) (.markArtifactsFailed e blobKey detail) () (.repairing listed)
  /-- A repair pass finalizes a listed run. -/
  | repairFinalize (listed : List ExecutionId) (e : ExecutionId) (he : e∈listed) :
      Turn (.repairing listed) (.finalizeOutputPersisted e) () (.repairing listed)
  /-- A reader loads the key's current execution, on a hit or again under a lock. -/
  | find (a : Actor) (ha : a=.idle ∨ ∃ e,a=.found e) (key : ExecutionKey) (execution : MlExecution) :
      Turn a (.findCurrent key) (some execution) (.found execution.executionId)
  /-- A back-fill attaches input rows to the key's current execution. -/
  | backFill (e : ExecutionId) (key : ExecutionKey) (artifacts : List Artifact) :
      Turn (.found e) (.addInputArtifacts key artifacts) () (.found e)
  /-- A back-fill resolves an input row to stored. -/
  | backFillStored (e : ExecutionId) (blobKey : BlobKey) :
      Turn (.found e) (.markArtifactsStored e blobKey) () (.found e)
  /-- A back-fill resolves an input row to failed. -/
  | backFillFailed (e : ExecutionId) (blobKey : BlobKey) (detail : PyStr) :
      Turn (.found e) (.markArtifactsFailed e blobKey detail) () (.found e)
  /-- A self-heal removes the execution it could not serve. -/
  | heal (e : ExecutionId) : Turn (.found e) (.removeExecution e) () .idle
  /-- A purge drops the stored documents of a key. -/
  | softPurge (key : ExecutionKey) : Turn .idle (.softPurgeExecution key) () .idle
  /-- A purge deletes a key. -/
  | hardDelete (key : ExecutionKey) : Turn .idle (.hardDeleteExecution key) () .idle
  /-- Tags are added to the key's current execution. -/
  | tag (a : Actor) (key : ExecutionKey) (tags : List PyStr) : Turn a (.addTags key tags) () a
  /-- Any other read of the store. -/
  | read (a : Actor) (call : StoreCall) (answer : call.Ret) (h : call.isRead=true) :
      Turn a call answer a

/-- The database, every id ever minted, and where each actor stands. -/
structure Store (ι : Type) where
  /-- The database. -/
  db : Db
  /-- Every id minted so far. -/
  minted : List ExecutionId
  /-- Where each actor stands. -/
  actors : ι → Actor

/-- A new store with every actor idle. -/
def Store.start (ι : Type) : Store ι := ⟨Db.empty,[],fun _ => .idle⟩

/-- The ids a call brings into the store: a saved execution's is freshly minted. -/
def mintedBy : StoreCall → List ExecutionId
  | .save execution => [execution.executionId]
  | _ => []

section Steps
variable {ι : Type} [DecidableEq ι]

/-- One step: a transaction of one actor commits, or an actor stops its run.
A transaction that raises changes nothing, so its actor stops or goes on. -/
inductive Step : Store ι → Store ι → Prop where
  /-- Actor `i`'s call is answered by one committed transaction. -/
  | transact {s : Store ι} (i : ι) {call : StoreCall} {answer : call.Ret} {a : Actor}
      (now : Timestamp) {db : Db} (hturn : Turn (s.actors i) call answer a)
      (hfresh : ∀ e∈mintedBy call,e∉s.minted)
      (h : transact now s.db call=.ok (answer,db)) :
      Step s ⟨db,mintedBy call ++ s.minted,Function.update s.actors i a⟩
  /-- Actor `i` ends its run, wherever it stands. -/
  | stop {s : Store ι} (i : ι) : Step s { s with actors := Function.update s.actors i .idle }

/-- The states some interleaving reaches from an empty store. -/
abbrev Reachable (s : Store ι) : Prop := Relation.ReflTransGen Step (Store.start ι) s

/-- The columns of a row whose recorder has not recorded its outcome. -/
def Untouched (c : MutableColumns) : Prop := c.outputPersisted=false ∧ c.artifacts=[]

/-- What every reachable state satisfies. -/
structure Inv (s : Store ι) : Prop where
  /-- Currency is not split. -/
  oneCurrent : s.db.AtMostOneCurrent
  /-- Every stored id was minted. -/
  rowsMinted : ∀ row∈s.db.executions,row.executionId∈s.minted
  /-- Every id an actor writes to was minted. -/
  savedMinted : ∀ i e,s.actors i=.saved e → e∈s.minted
  /-- Every id whose outcome was recorded was minted. -/
  recordedMinted : ∀ i e,s.actors i=.recorded e → e∈s.minted
  /-- Every id that a repair listed was minted. -/
  listedMinted : ∀ i listed,s.actors i=.repairing listed → ∀ e∈listed,e∈s.minted
  /-- A row whose outcome is to come has no document and is not persisted. -/
  savedUntouched : ∀ i e,s.actors i=.saved e → ∀ row∈s.db.executions,row.executionId=e →
    Untouched row.toMutableColumns
  /-- A row whose outcome is to come is held by one recorder and no repair. -/
  savedAlone : ∀ i j e,s.actors i=.saved e → i≠j → s.actors j≠.saved e ∧ s.actors j≠.recorded e
  /-- No repair lists it. -/
  savedUnlisted : ∀ i j e listed,s.actors i=.saved e → s.actors j=.repairing listed → e∉listed

omit [DecidableEq ι] in
/-- A new store satisfies the invariant. -/
theorem Inv.start : Inv (Store.start ι) where
  oneCurrent _ h := nomatch h
  rowsMinted _ h := nomatch h
  savedMinted _ _ h := nomatch h
  recordedMinted _ _ h := nomatch h
  listedMinted _ _ h := nomatch h
  savedUntouched _ _ h := nomatch h
  savedAlone _ _ _ h := nomatch h
  savedUnlisted _ _ _ _ h := nomatch h

/-- Actor `i` may come to stand at `a` by a call that saves no row: it holds no
row it did not hold, and lists only minted rows that no recorder holds. -/
def Settles (s : Store ι) (i : ι) : Actor → Prop
  | .idle | .found _ => True
  | .saved e => s.actors i=.saved e
  | .recorded e => s.actors i=.recorded e ∨ s.actors i=.saved e
  | .repairing listed => s.actors i=.repairing listed ∨
      ∀ e∈listed,e∈s.minted ∧ ∀ j,s.actors j≠.saved e

omit [DecidableEq ι] in
/-- An actor may stay where it stands. -/
theorem Settles.same {s : Store ι} {i : ι} {a : Actor} (h : s.actors i=a) : Settles s i a := by
  cases a with
  | idle | found => trivial
  | saved => exact h
  | recorded | repairing => exact Or.inl h

/-- The rows of a new database come from rows of the old one, and those a
recorder still holds are as untouched as they were. -/
def RowsKept (s : Store ι) (i : ι) (a : Actor) (db : Db) : Prop :=
  ∀ row∈db.executions,∃ r∈s.db.executions,r.executionId=row.executionId ∧
    ((∃ j,Function.update s.actors i a j=.saved r.executionId) → Untouched r.toMutableColumns →
      Untouched row.toMutableColumns)

/-- A call that saves no row keeps the invariant if it keeps currency unsplit
and leaves alone the rows that recorders hold. -/
theorem Inv.of_rowsKept {s : Store ι} (h : Inv s) {i : ι} {a : Actor} {db : Db}
    (hone : db.AtMostOneCurrent) (hrows : RowsKept s i a db) (ha : Settles s i a) :
    Inv ⟨db,s.minted,Function.update s.actors i a⟩ := by
  have hsaved : ∀ j e,Function.update s.actors i a j=.saved e → s.actors j=.saved e := by
    intro j e hj
    by_cases hji : j=i
    · subst hji
      rw [Function.update_self] at hj
      subst hj
      exact ha
    · rwa [Function.update_of_ne hji] at hj
  have hrecorded : ∀ j e,Function.update s.actors i a j=.recorded e →
      s.actors j=.recorded e ∨ s.actors j=.saved e := by
    intro j e hj
    by_cases hji : j=i
    · subst hji
      rw [Function.update_self] at hj
      subst hj
      exact ha
    · rw [Function.update_of_ne hji] at hj
      exact Or.inl hj
  have hlisted : ∀ j listed,Function.update s.actors i a j=.repairing listed →
      s.actors j=.repairing listed ∨ ∀ e∈listed,e∈s.minted ∧ ∀ j,s.actors j≠.saved e := by
    intro j listed hj
    by_cases hji : j=i
    · subst hji
      rw [Function.update_self] at hj
      subst hj
      exact ha
    · rw [Function.update_of_ne hji] at hj
      exact Or.inl hj
  refine ⟨hone,fun row hrow => ?_,fun j e hj => ?_,fun j e hj => ?_,fun j listed hj e he => ?_,
    fun j e hj row hrow hid => ?_,fun j k e hj hjk => ?_,fun j k e listed hj hk he => ?_⟩
  · obtain ⟨r,hr,hid,_⟩ := hrows row hrow
    exact hid ▸ h.rowsMinted r hr
  · exact h.savedMinted j e (hsaved j e hj)
  · rcases hrecorded j e hj with hj | hj
    · exact h.recordedMinted j e hj
    · exact h.savedMinted j e hj
  · rcases hlisted j listed hj with hj | hj
    · exact h.listedMinted j listed hj e he
    · exact (hj e he).1
  · obtain ⟨r,hr,hrid,hkeep⟩ := hrows row hrow
    have hre : r.executionId=e := hrid.trans hid
    exact hkeep ⟨j,hre ▸ hj⟩ (h.savedUntouched j e (hsaved j e hj) r hr hre)
  · have halone := h.savedAlone j k e (hsaved j e hj) hjk
    refine ⟨fun hk => halone.1 (hsaved k e hk),fun hk => ?_⟩
    rcases hrecorded k e hk with hk | hk
    · exact halone.2 hk
    · exact halone.1 hk
  · rcases hlisted k listed hk with hk | hk
    · exact h.savedUnlisted j k e listed (hsaved j e hj) hk he
    · exact (hk e he).2 j (hsaved j e hj)

/-- The same database keeps its rows. -/
theorem RowsKept.refl (s : Store ι) (i : ι) (a : Actor) : RowsKept s i a s.db :=
  fun row hrow => ⟨row,hrow,rfl,fun _ hu => hu⟩

/-- Rows of the old database are kept. -/
theorem RowsKept.of_subset {s : Store ι} {i : ι} {a : Actor} {db : Db}
    (hsub : ∀ row∈db.executions,row∈s.db.executions) : RowsKept s i a db :=
  fun row hrow => ⟨row,hsub row hrow,rfl,fun _ hu => hu⟩

/-- An update keeps the rows if it leaves untouched those that recorders hold. -/
theorem RowsKept.updateWhere {s : Store ι} {i : ι} {a : Actor} {db : Db} {p : ExecutionRow → Bool}
    {f : MutableColumns → MutableColumns} (hrows : RowsKept s i a db)
    (hf : ∀ row∈db.executions,p row=true →
      (∃ j,Function.update s.actors i a j=.saved row.executionId) →
      Untouched row.toMutableColumns → Untouched (f row.toMutableColumns)) :
    RowsKept s i a (db.updateWhere p f) := by
  intro row hrow
  obtain ⟨r,hr,rfl⟩ := Db.mem_updateWhere.mp hrow
  obtain ⟨r',hr',hid,hkeep⟩ := hrows r hr
  refine ⟨r',hr',?_,fun hj hu => ?_⟩
  · split <;> exact hid
  · by_cases hp : p r=true
    · rw [if_pos hp]
      exact hf r hr hp (hid ▸ hj) (hkeep hj hu)
    · rw [if_neg hp]
      exact hkeep hj hu

/-- Marks change neither currency nor rows without documents. -/
theorem Inv.of_mark {s : Store ι} (h : Inv s) {i : ι} {a : Actor} {e : ExecutionId}
    {blobKey : BlobKey} {mark : ArtifactRow → ArtifactRow} {db : Db}
    (hmark : markArtifacts e blobKey mark s.db=.ok db) (ha : Settles s i a) :
    Inv ⟨db,s.minted,Function.update s.actors i a⟩ := by
  obtain ⟨_,rfl⟩ := markArtifacts_ok hmark
  refine h.of_rowsKept (atMostOne_updateWhere h.oneCurrent fun _ _ _ hs => hs)
    ((RowsKept.refl s i a).updateWhere fun row _ _ _ hu => ⟨hu.1,?_⟩) ha
  simp only [markColumns,hu.2,List.map_nil]

/-- A finalize of a row that no recorder holds keeps the invariant. -/
theorem Inv.of_finalize {s : Store ι} (h : Inv s) {i : ι} {a : Actor} {e : ExecutionId}
    {now : Timestamp} {db : Db} (hf : finalizeOutputPersisted e now s.db=.ok db)
    (hfree : ∀ j,s.actors j≠.saved e) (ha : Settles s i a) :
    Inv ⟨db,s.minted,Function.update s.actors i a⟩ := by
  have hone := atMostOne_finalize h.oneCurrent hf
  obtain ⟨row,_,_,_,rfl⟩ := finalizeOutputPersisted_ok hf
  refine h.of_rowsKept hone (RowsKept.updateWhere ?_ fun r _ hp hj hu => ?_) ha
  · split
    · exact (RowsKept.refl s i a).updateWhere fun _ _ _ _ hu => hu
    · exact RowsKept.refl s i a
  · obtain ⟨j,hj⟩ := hj
    rw [(hasId_iff _ _).mp hp] at hj
    by_cases hji : j=i
    · subst hji
      rw [Function.update_self] at hj
      subst hj
      exact absurd ha (hfree j)
    · rw [Function.update_of_ne hji] at hj
      exact absurd hj (hfree j)

/-- Removing rows keeps the invariant. -/
theorem Inv.of_subset {s : Store ι} (h : Inv s) {i : ι} {a : Actor} {db : Db}
    (hsub : ∀ row∈db.executions,row∈s.db.executions) (ha : Settles s i a) :
    Inv ⟨db,s.minted,Function.update s.actors i a⟩ :=
  h.of_rowsKept (atMostOne_of_subset h.oneCurrent hsub) (RowsKept.of_subset hsub) ha

/-- Saving a row under a fresh id keeps the invariant. -/
theorem Inv.of_save {s : Store ι} (h : Inv s) {i : ι} {execution : MlExecution} {now : Timestamp}
    {db : Db} (hstate : execution.executionState=.inProgress)
    (hout : execution.outputPersisted=false) (hart : execution.artifacts=[])
    (hfresh : execution.executionId∉s.minted) (hsave : save execution now s.db=.ok db) :
    Inv ⟨db,execution.executionId::s.minted,
      Function.update s.actors i (.saved execution.executionId)⟩ := by
  have hs : isServable execution=false := by simp [isServable,hstate]
  have hone := atMostOne_save h.oneCurrent hs hsave
  obtain ⟨id,_,_,hrows,_⟩ := save_ok hsave
  simp only [hs,Bool.false_eq_true,if_false,hart,List.map_nil] at hrows
  have hmem : ∀ row∈db.executions,row∈s.db.executions ∨ (row.executionId=execution.executionId ∧
      Untouched row.toMutableColumns) := by
    intro row hrow
    rw [hrows,List.mem_append,List.mem_singleton] at hrow
    rcases hrow with hrow | rfl
    · exact Or.inl hrow
    · exact Or.inr ⟨rfl,hout,rfl⟩
  -- Every other actor stands where it stood, on ids minted before.
  have hother : ∀ j,Function.update s.actors i (.saved execution.executionId) j=
      if j=i then .saved execution.executionId else s.actors j := by
    intro j
    by_cases hji : j=i
    · subst hji
      simp
    · simp [hji]
  refine ⟨hone,fun row hrow => ?_,fun j e hj => ?_,fun j e hj => ?_,fun j listed hj e he => ?_,
    fun j e hj row hrow hid => ?_,fun j k e hj hjk => ?_,fun j k e listed hj hk he => ?_⟩
  · rcases hmem row hrow with hrow | ⟨hid,_⟩
    · exact List.mem_cons_of_mem _ (h.rowsMinted row hrow)
    · exact hid ▸ List.mem_cons_self
  · simp only [hother] at hj
    split at hj
    · cases hj
      exact List.mem_cons_self
    · exact List.mem_cons_of_mem _ (h.savedMinted j e hj)
  · simp only [hother] at hj
    split at hj
    · exact nomatch hj
    · exact List.mem_cons_of_mem _ (h.recordedMinted j e hj)
  · simp only [hother] at hj
    split at hj
    · exact nomatch hj
    · exact List.mem_cons_of_mem _ (h.listedMinted j listed hj e he)
  · simp only [hother] at hj
    rcases hmem row hrow with hrow | ⟨_,hu⟩
    · split at hj
      · cases hj
        exact absurd (hid ▸ h.rowsMinted row hrow) hfresh
      · exact h.savedUntouched j e hj row hrow hid
    · exact hu
  · simp only [hother] at hj ⊢
    split at hj
    next hji =>
      cases hj
      have hki : ¬k=i := fun hk => hjk (hji.trans hk.symm)
      rw [if_neg hki]
      exact ⟨fun hk => hfresh (h.savedMinted k _ hk),fun hk => hfresh (h.recordedMinted k _ hk)⟩
    next =>
      split
      · refine ⟨fun hk => ?_,fun hk => nomatch hk⟩
        cases hk
        exact hfresh (h.savedMinted j _ hj)
      · exact h.savedAlone j k e hj hjk
  · simp only [hother] at hj hk
    split at hk
    · exact nomatch hk
    · split at hj
      · cases hj
        exact hfresh (h.listedMinted k listed hk _ he)
      · exact h.savedUnlisted j k e listed hj hk he

/-- Recording the outcome of a held row makes no row servable. -/
theorem Inv.of_outcome {s : Store ι} (h : Inv s) {i : ι} {execution : MlExecution} {db : Db}
    (hi : s.actors i=.saved execution.executionId) (hrec : recordOutcome execution s.db=.ok db) :
    Inv ⟨db,s.minted,Function.update s.actors i (.recorded execution.executionId)⟩ := by
  obtain ⟨row,_,_,usage,_,rfl⟩ := recordOutcome_ok hrec
  refine h.of_rowsKept (atMostOne_updateWhere h.oneCurrent fun r hr hp hs => ?_)
    ((RowsKept.refl s i _).updateWhere fun r _ hp hj _ => ?_) (Or.inr hi)
  · have hu := h.savedUntouched i _ hi r hr ((hasId_iff _ _).mp hp)
    have hpersisted : r.outputPersisted=true := ((MutableColumns.servable_iff _).mp hs).2.1
    exact absurd hpersisted (by simp [hu.1])
  · obtain ⟨j,hj⟩ := hj
    rw [(hasId_iff _ _).mp hp] at hj
    by_cases hji : j=i
    · subst hji
      rw [Function.update_self] at hj
      exact nomatch hj
    · rw [Function.update_of_ne hji] at hj
      exact absurd hj (h.savedAlone i j _ hi (Ne.symm hji)).1

/-- A recorder holding a recorded row shares it with no recorder still to record. -/
theorem Inv.recorded_free {s : Store ι} (h : Inv s) {i : ι} {e : ExecutionId}
    (hi : s.actors i=.recorded e) (j : ι) : s.actors j≠.saved e := by
  intro hj
  by_cases hji : j=i
  · subst hji
    rw [hi] at hj
    exact nomatch hj
  · exact (h.savedAlone j i e hj hji).2 hi

/-- Every step keeps the invariant. -/
theorem Inv.step {s s' : Store ι} (h : Inv s) (hstep : Step s s') : Inv s' := by
  cases hstep with
  | stop i => exact h.of_rowsKept h.oneCurrent (RowsKept.refl s i _) trivial
  | @transact i call answer a now db hturn hfresh htr =>
    generalize hat : s.actors i=at' at hturn
    cases hturn with
    | save execution hstate hout hart =>
      exact h.of_save hstate hout hart (hfresh _ (List.mem_singleton_self _)) (commit_ok.mp htr)
    | abandon e =>
      cases Except.ok.inj (commit_ok.mp htr)
      exact h.of_subset (fun row hrow => (mem_removeExecution.mp hrow).1) trivial
    | outcome execution => exact h.of_outcome hat (commit_ok.mp htr)
    | persist e artifact =>
      obtain ⟨_,rfl⟩ := persistArtifact_ok (commit_ok.mp htr)
      refine h.of_rowsKept (atMostOne_updateWhere h.oneCurrent fun _ _ _ hs => hs)
        ((RowsKept.refl s i _).updateWhere fun r _ hp hj _ => ?_) (Or.inl hat)
      obtain ⟨j,hj⟩ := hj
      rw [←hat,Function.update_eq_self,(hasId_iff _ _).mp hp] at hj
      exact absurd hj (h.recorded_free hat j)
    | stored e blobKey => exact h.of_mark (commit_ok.mp htr) (Or.inl hat)
    | failed e blobKey detail =>
      obtain ⟨_,_,hmark⟩ := ok_of_bind (commit_ok.mp htr)
      exact h.of_mark hmark (Or.inl hat)
    | finalize e => exact h.of_finalize (commit_ok.mp htr) (h.recorded_free hat) trivial
    | list runs =>
      obtain ⟨hruns,rfl⟩ := reading_ok.mp htr
      refine h.of_rowsKept h.oneCurrent (RowsKept.refl s i _) (Or.inr fun e he => ?_)
      obtain ⟨run,hrun,rfl⟩ := List.mem_map.mp he
      obtain ⟨row,hrow,hawait,hu⟩ := (runsAwaitingPersistence_ok hruns).1 run hrun
      rw [(unpersistedRun_ok hu).2.1]
      refine ⟨h.rowsMinted row hrow,fun j hj => ?_⟩
      obtain ⟨_,⟨a,ha,_⟩,_⟩ := isAwaiting_iff.mp hawait
      rw [(h.savedUntouched j _ hj row hrow rfl).2] at ha
      exact List.not_mem_nil ha
    | repairStored listed e he blobKey => exact h.of_mark (commit_ok.mp htr) (Or.inl hat)
    | repairFailed listed e he blobKey detail =>
      obtain ⟨_,_,hmark⟩ := ok_of_bind (commit_ok.mp htr)
      exact h.of_mark hmark (Or.inl hat)
    | repairFinalize listed e he =>
      exact h.of_finalize (commit_ok.mp htr)
        (fun j hj => h.savedUnlisted j i e listed hj hat he) (Or.inl hat)
    | find _ ha key execution =>
      obtain ⟨_,rfl⟩ := reading_ok.mp htr
      exact h.of_rowsKept h.oneCurrent (RowsKept.refl s i _) trivial
    | backFill e key artifacts =>
      rcases addInputArtifacts_ok (commit_ok.mp htr) with rfl | ⟨row,hrow,_,rfl⟩
      · exact h.of_rowsKept h.oneCurrent (RowsKept.refl s i _) trivial
      · refine h.of_rowsKept (atMostOne_updateWhere h.oneCurrent fun _ _ _ hs => hs)
          ((RowsKept.refl s i _).updateWhere fun r hr hp _ hu => ?_) trivial
        obtain ⟨hmem,_,hserv⟩ := Db.currentRow_mem hrow
        have hsame : r=row := s.db.row_unique hr hmem ((hasId_iff _ _).mp hp)
        subst hsame
        exact absurd ((MutableColumns.servable_iff _).mp hserv).2.1 (by simp [hu.1])
    | backFillStored e blobKey => exact h.of_mark (commit_ok.mp htr) trivial
    | backFillFailed e blobKey detail =>
      obtain ⟨_,_,hmark⟩ := ok_of_bind (commit_ok.mp htr)
      exact h.of_mark hmark trivial
    | heal e =>
      cases Except.ok.inj (commit_ok.mp htr)
      exact h.of_subset (fun row hrow => (mem_removeExecution.mp hrow).1) trivial
    | softPurge key =>
      cases Except.ok.inj (commit_ok.mp htr)
      exact h.of_rowsKept
        (atMostOne_updateWhere h.oneCurrent fun _ _ _ hs => by
          simp [MutableColumns.servable,purgedColumns] at hs)
        ((RowsKept.refl s i _).updateWhere fun _ _ _ _ _ => ⟨rfl,rfl⟩) trivial
    | hardDelete key =>
      cases Except.ok.inj (commit_ok.mp htr)
      exact h.of_subset (fun row hrow => (mem_hardDeleteExecution.mp hrow).1) trivial
    | tag _ key tags =>
      have hsettles := Settles.same hat
      rcases addTags_ok (commit_ok.mp htr) with rfl | ⟨id,rfl⟩
      · exact h.of_rowsKept h.oneCurrent (RowsKept.refl s i _) hsettles
      · exact h.of_rowsKept (atMostOne_updateWhere h.oneCurrent fun _ _ _ hs => hs)
          ((RowsKept.refl s i _).updateWhere fun _ _ _ _ hu => hu) hsettles
    | read _ _ _ hread =>
      have hsettles := Settles.same hat
      have hminted : mintedBy call=[] := by
        cases call <;> first | rfl | cases hread
      rw [hminted,transact_read hread htr]
      exact h.of_rowsKept h.oneCurrent (RowsKept.refl s i _) hsettles

/-- Every reachable state satisfies the invariant. -/
theorem Inv.reachable {s : Store ι} (h : Reachable s) : Inv s := by
  induction h with
  | refl => exact Inv.start
  | tail _ hstep ih => exact ih.step hstep

/-- In every state that any interleaving of the actors reaches, every key has
at most one current execution. -/
theorem reachable_atMostOneCurrent {s : Store ι} (h : Reachable s) : s.db.AtMostOneCurrent :=
  (Inv.reachable h).oneCurrent

/-- A run of the witness: its row as saved, under one key for every run. -/
def racer (uuid : ℕ) : MlExecution where
  callIdentity := ⟨⟨7⟩,[],[]⟩
  executionState := .inProgress
  executionKind := .api
  outputPersisted := false
  executionId := ⟨uuid⟩

/-- The outcome of a run of the witness. -/
def racerOutcome (uuid : ℕ) : MlExecution := { racer uuid with executionState := .success }

/-- Two recorders that race unlocked through the same key leave two successes
of which one is current. -/
theorem reachable_atMostOneCurrent_race : ∃ s : Store (Fin 2),Reachable s ∧
    s.db.executions.map (fun row => row.servable)=[false,true] ∧ s.db.AtMostOneCurrent := by
  have h0 : Reachable (Store.start (Fin 2)) := .refl
  have h1 := h0.tail (.transact 0 1 (.save (racer 1) rfl rfl rfl) (by decide) rfl)
  have h2 := h1.tail (.transact 1 2 (.save (racer 2) rfl rfl rfl) (by decide) rfl)
  have h3 := h2.tail (.transact 0 3 (.outcome (racerOutcome 1)) (by decide) rfl)
  have h4 := h3.tail (.transact 1 4 (.outcome (racerOutcome 2)) (by decide) rfl)
  have h5 := h4.tail (.transact 0 5 (.finalize ⟨1⟩) (by decide) rfl)
  have h6 := h5.tail (.transact 1 6 (.finalize ⟨2⟩) (by decide) rfl)
  exact ⟨_,h6,by decide,reachable_atMostOneCurrent h6⟩

end Steps

end GenericMlCache.Currency
