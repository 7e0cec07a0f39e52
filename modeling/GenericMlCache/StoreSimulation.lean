import GenericMlCache.ReferenceStore
import GenericMlCache.Currency

/-!
# The reference store simulates the SQLite store

Both stores run the same calls in lock step. An execution held in memory stands for a
row when inserting it would write that row, and a history stands for the rows of its
key, in order. Every admitted call keeps this, and from it every query of the one store
is answered as by the other.
-/

namespace GenericMlCache.StoreSimulation

open PythonText ExecutionModel SqliteStore ExecutionRepository ExecutionQueries RepositoryCalls Currency OrderedDict
  ReferenceStore

/-- The size is a number that fits its column. -/
def Size.storable : Size → Bool
  | .bytes n => sqliteInteger n
  | .text _ _ => false

/-- A storable size binds. -/
theorem bindSize_of {size : Size} (h : Size.storable size=true) : bindSize size=.ok () := by
  cases size with
  | bytes n =>
    show bindInteger n=.ok ()
    unfold bindInteger
    exact if_pos h
  | text text summed => cases h

/-- The texts and the size of the artifact fit their columns. -/
def Artifact.storable (a : Artifact) : Bool :=
  a.name.all encodable && Size.storable a.sizeBytes && a.statusDetail.all encodable

/-- The text and the exit code of the failure fit their columns. -/
def storableFailure (failure : Option ExecutionFailure) : Bool :=
  (failure.map (·.message)).all encodable && (failure.bind (·.exitCode)).all sqliteInteger

/-- Every value of the execution fits its column. -/
def storable (execution : MlExecution) : Bool :=
  encodable execution.callIdentity.summaryClient && encodable execution.callIdentity.summaryModel &&
    storableFailure execution.failure && execution.artifacts.all Artifact.storable &&
    execution.tokenUsage.all TokenUsage.storable

/-- Encodable text binds. -/
theorem bindText_of {s : PyStr} (h : encodable s=true) : bindText s=.ok () := if_pos h

/-- Absent or encodable text binds. -/
theorem bindOptional_text {s : Option PyStr} (h : s.all encodable=true) : bindOptional bindText s=.ok () := by
  cases s with
  | none => rfl
  | some s => exact bindText_of h

/-- An absent integer or one of eight bytes binds. -/
theorem bindOptional_integer {n : Option ℤ} (h : n.all sqliteInteger=true) :
    bindOptional bindInteger n=.ok () := by
  cases n with
  | none => rfl
  | some n => exact if_pos h

/-- A storable failure binds. -/
theorem bindFailure_of {failure : Option ExecutionFailure} (h : storableFailure failure=true) :
    bindFailure failure=.ok () := by
  obtain ⟨hmessage,hcode⟩ := (Bool.and_eq_true _ _).mp h
  unfold bindFailure
  rw [bindOptional_text hmessage]
  exact bindOptional_integer hcode

/-- Storable artifacts are inserted as their rows. -/
theorem insertArtifacts_of {artifacts : List Artifact} (h : artifacts.all Artifact.storable=true) :
    insertArtifacts artifacts=.ok (artifacts.map artifactRow) := by
  have hbind : (artifacts.forM fun artifact => do
      bindOptional bindText artifact.name
      bindSize artifact.sizeBytes
      bindOptional bindText artifact.statusDetail : Except PyExc Unit)=.ok () := by
    induction artifacts with
    | nil => rfl
    | cons a artifacts ih =>
      rw [List.all_cons,Bool.and_eq_true] at h
      obtain ⟨ha,hrest⟩ := h
      simp only [Artifact.storable,Bool.and_eq_true] at ha
      have hsize : bindSize a.sizeBytes=.ok () := bindSize_of ha.1.2
      rw [List.forM_eq_forM] at ih ⊢
      rw [List.forM_cons,bindOptional_text ha.1.1,hsize,bindOptional_text ha.2]
      exact ih hrest
  unfold insertArtifacts
  rw [hbind]
  rfl

/-- Storable usage is inserted where there is none. -/
theorem insertTokenUsage_of {usage : Option TokenUsage} (h : usage.all TokenUsage.storable=true) :
    insertTokenUsage none usage=.ok (usage.map usageRow) := by
  obtain ⟨row,hrow⟩ := insertTokenUsage_none h
  rcases insertTokenUsage_ok hrow with ⟨rfl,rfl⟩ | ⟨_,rfl⟩
  · exact hrow
  · exact hrow

/-- The identity that each key stands for. -/
abbrev Identities := ExecutionKey → CallIdentity

/-- The execution stands for the row: inserting it would write the row, its tags apart. -/
structure Stands (resolve : Identities) (e : MlExecution) (row : ExecutionRow) : Prop where
  /-- Its columns are those that would be written. -/
  columns : row.toMutableColumns=
    { insertedColumns e (e.artifacts.map artifactRow) (e.tokenUsage.map usageRow) with tags := row.tags }
  /-- The kinds agree. -/
  kind : row.kind=.value e.executionKind
  /-- The ids agree. -/
  executionId : row.executionId=e.executionId
  /-- The keys agree. -/
  executionKey : row.executionKey=e.callIdentity.generateKey
  /-- The identities agree. -/
  identity : e.callIdentity=resolve row.executionKey
  /-- Its artifacts hold no contents. -/
  dehydrated : ∀ a∈e.artifacts,a.content=none

section Stands
variable {resolve : Identities} {e : MlExecution} {row : ExecutionRow}

theorem Stands.state (h : Stands resolve e row) : row.state=.value e.executionState := by rw [h.columns]; rfl

theorem Stands.outputPersisted (h : Stands resolve e row) : row.outputPersisted=e.outputPersisted := by
  rw [h.columns]; rfl

theorem Stands.supersededAt (h : Stands resolve e row) : row.supersededAt=e.supersededAt.map .value := by
  rw [h.columns]; rfl

theorem Stands.artifacts (h : Stands resolve e row) : row.artifacts=e.artifacts.map artifactRow := by
  rw [h.columns]; rfl

theorem Stands.tokenUsage (h : Stands resolve e row) : row.tokenUsage=e.tokenUsage.map usageRow := by
  rw [h.columns]; rfl

/-- Both are servable or neither is. -/
theorem Stands.servable (h : Stands resolve e row) : row.servable=isServable e := by
  unfold MutableColumns.servable isServable
  rw [h.state,h.outputPersisted,h.supersededAt]
  cases e.supersededAt <;> simp

/-- Both are found by the same id. -/
theorem Stands.hasId (h : Stands resolve e row) (id : ExecutionId) :
    hasId id row=isExecution id e := by
  unfold ExecutionRepository.hasId isExecution
  rw [h.executionId]

/-- The execution is of the row's key. -/
theorem Stands.isCurrent (h : Stands resolve e row) (key : ExecutionKey) :
    isCurrent key row=(decide (e.callIdentity.generateKey=key) && isServable e) := by
  unfold SqliteStore.isCurrent
  rw [h.executionKey,h.servable]

/-- A change of both that agrees on the columns. -/
theorem Stands.change {f : MlExecution → MlExecution} {g : MutableColumns → MutableColumns}
    (h : Stands resolve e row)
    (hcolumns : g row.toMutableColumns={ insertedColumns (f e) ((f e).artifacts.map artifactRow)
      ((f e).tokenUsage.map usageRow) with tags := (g row.toMutableColumns).tags })
    (hkind : (f e).executionKind=e.executionKind) (hid : (f e).executionId=e.executionId)
    (hidentity : (f e).callIdentity=e.callIdentity) (hdehydrated : ∀ a∈(f e).artifacts,a.content=none) :
    Stands resolve (f e) (row.update g) where
  columns := hcolumns
  kind := by rw [hkind]; exact h.kind
  executionId := by rw [hid]; exact h.executionId
  executionKey := by rw [hidentity]; exact h.executionKey
  identity := by rw [hidentity]; exact h.identity
  dehydrated := hdehydrated

/-- Superseded, each stands for the other. -/
theorem Stands.supersede (h : Stands resolve e row) (now : Timestamp) :
    Stands resolve { e with supersededAt := some now }
      (row.update fun c => { c with supersededAt := some (.value now) }) := by
  refine h.change (f := fun e => { e with supersededAt := some now }) ?_ rfl rfl rfl h.dehydrated
  dsimp only
  rw [h.columns]
  rfl

/-- Finalized, each stands for the other. -/
theorem Stands.persisted (h : Stands resolve e row) : Stands resolve { e with outputPersisted := true }
    (row.update fun c => { c with outputPersisted := true }) := by
  refine h.change (f := fun e => { e with outputPersisted := true }) ?_ rfl rfl rfl h.dehydrated
  dsimp only
  rw [h.columns]
  rfl

/-- Purged, each stands for the other. -/
theorem Stands.purged (h : Stands resolve e row) : Stands resolve (purged e) (row.update purgedColumns) := by
  refine h.change ?_ rfl rfl rfl fun _ ha => nomatch ha
  unfold purgedColumns
  rw [h.columns]
  rfl

/-- With the same artifacts appended, each stands for the other. -/
theorem Stands.withArtifacts (h : Stands resolve e row) (artifacts : List Artifact) (inputPersisted : Bool) :
    Stands resolve
      { e with artifacts := e.artifacts ++ artifacts.map fun a => { a with content := none }
               inputPersisted := inputPersisted }
      (row.update (withArtifacts (artifacts.map artifactRow))) := by
  refine h.change (f := fun e => { e with
    artifacts := e.artifacts ++ artifacts.map fun a => { a with content := none }
    inputPersisted := inputPersisted }) ?_ rfl rfl rfl ?_
  · unfold ExecutionRepository.withArtifacts
    rw [h.columns]
    simp [insertedColumns,artifactRow]
  · intro a ha
    rcases List.mem_append.mp ha with ha | ha
    · exact h.dehydrated a ha
    · obtain ⟨b,_,rfl⟩ := List.mem_map.mp ha
      rfl

/-- With the same artifacts resolved alike, each stands for the other. -/
theorem Stands.resolved (h : Stands resolve e row) {blobKey : BlobKey} {f : Artifact → Artifact}
    {mark : ArtifactRow → ArtifactRow} (hmark : ∀ a,mark (artifactRow a)=artifactRow (f a))
    (hcontent : ∀ a,(f a).content=a.content) :
    Stands resolve (resolveArtifacts blobKey f e) (row.update (markColumns blobKey mark)) := by
  refine h.change ?_ rfl rfl rfl ?_
  · have hrows : (e.artifacts.map artifactRow).map (fun a => if a.blobKey=.value blobKey then mark a else a)=
        (e.artifacts.map fun a => if a.blobKey=blobKey then f a else a).map artifactRow := by
      rw [List.map_map,List.map_map]
      refine List.map_congr_left fun a _ => ?_
      dsimp only [Function.comp]
      by_cases hb : a.blobKey=blobKey
      · have hrow : (artifactRow a).blobKey=.value blobKey := congrArg Column.value hb
        rw [if_pos hrow,if_pos hb,hmark]
      · have hrow : (artifactRow a).blobKey≠.value blobKey := fun he => hb (Column.value.inj he)
        rw [if_neg hrow,if_neg hb]
    unfold markColumns resolveArtifacts
    dsimp only
    rw [h.artifacts,hrows]
    conv_lhs => rw [h.columns]
    rfl
  · intro a ha
    obtain ⟨b,hb,rfl⟩ := List.mem_map.mp ha
    have hnone := h.dehydrated b hb
    split
    · rw [hcontent]
      exact hnone
    · exact hnone

/-- With the same outcome on a run without usage, each stands for the other. -/
theorem Stands.outcome (h : Stands resolve e row) (execution : MlExecution) :
    Stands resolve { e with executionState := execution.executionState
                            failure := execution.failure
                            tokenUsage := execution.tokenUsage }
      (row.update (outcomeColumns execution (execution.tokenUsage.map usageRow))) := by
  refine h.change (f := fun e => { e with
    executionState := execution.executionState
    failure := execution.failure
    tokenUsage := execution.tokenUsage }) ?_ rfl rfl rfl h.dehydrated
  unfold outcomeColumns
  rw [h.columns]
  rfl

/-- A saved execution stands for the row it is inserted as. -/
theorem stands_inserted {execution : MlExecution} (id : ℕ) (now : Timestamp)
    (hidentity : execution.callIdentity=resolve execution.callIdentity.generateKey) :
    Stands resolve (dehydrate execution) (insertedRow id execution.callIdentity.generateKey execution now
      (execution.artifacts.map artifactRow) (execution.tokenUsage.map usageRow)) where
  columns := by
    simp [dehydrate,insertedRow,insertedColumns,artifactRow]
  kind := rfl
  executionId := rfl
  executionKey := rfl
  identity := hidentity
  dehydrated := fun a ha => by
    obtain ⟨b,_,rfl⟩ := List.mem_map.mp ha
    rfl

end Stands

/-- The stores hold the same: each history stands for the rows of its key. -/
structure Matches (resolve : Identities) (m : Memory) (db : Db) : Prop where
  /-- Each history stands for the rows of its key. -/
  histories : ∀ key,List.Forall₂ (Stands resolve) (m.history key) (db.executions.filter (hasKey key))
  /-- A key that is there has a history. -/
  nonempty : ∀ key∈m.byKey.keys,m.history key≠[]
  /-- The identities resolve. -/
  identities : ∀ i∈db.callIdentities,i.identity=.value (resolve i.executionKey)
  /-- A key that is there has an identity. -/
  identified : ∀ key,(∃ i∈db.callIdentities,i.executionKey=key) ↔ key∈m.byKey.keys
  /-- A row's tags are those of its execution. -/
  tagged : ∀ row∈db.executions,row.tags.Nodup ∧ m.tagsByExecutionId row.executionId=row.tags.toFinset
  /-- An id without a row has no tags. -/
  untagged : ∀ id,(∀ row∈db.executions,row.executionId≠id) → m.tagsByExecutionId id=∅
  /-- A key has at most one current row. -/
  current : db.AtMostOneCurrent

/-- New stores hold the same. -/
theorem Matches.empty (resolve : Identities) : Matches resolve Memory.empty Db.empty where
  histories _ := .nil
  nonempty _ h := nomatch h
  identities _ h := nomatch h
  identified _ := ⟨fun ⟨_,h,_⟩ => (nomatch h),fun h => nomatch h⟩
  tagged _ h := nomatch h
  untagged _ _ := rfl
  current _ h := nomatch h

section Matches
variable {resolve : Identities} {m : Memory} {db : Db} {key : ExecutionKey} {e : MlExecution} {row : ExecutionRow}

/-- A key without a history is not in the dictionary. -/
theorem Matches.mem_keys (h : Matches resolve m db) : key∈m.byKey.keys ↔ m.history key≠[] := by
  constructor
  · exact h.nonempty key
  · intro hne
    by_contra hnot
    refine hne ?_
    unfold Memory.history
    rw [Dict.get?_eq_none.mpr hnot]
    rfl

/-- An execution of a key's history stands for a row of the key. -/
theorem Matches.row_of (h : Matches resolve m db) (he : e∈m.history key) :
    ∃ row∈db.executions,row.executionKey=key ∧ Stands resolve e row := by
  obtain ⟨row,hrow,hstands⟩ := (mem_of_forall₂ (h.histories key)).2 e he
  obtain ⟨hmem,hkey⟩ := List.mem_filter.mp hrow
  exact ⟨row,hmem,by simpa using hkey,hstands⟩

/-- A row is stood for by an execution of its key's history. -/
theorem Matches.execution_of (h : Matches resolve m db) (hrow : row∈db.executions) :
    ∃ e∈m.history row.executionKey,Stands resolve e row :=
  (mem_of_forall₂ (h.histories row.executionKey)).1 row (List.mem_filter.mpr ⟨hrow,by simp⟩)

/-- An execution is in the history of its own key only. -/
theorem Matches.key_of (h : Matches resolve m db) (he : e∈m.history key) :
    e.callIdentity.generateKey=key := by
  obtain ⟨row,_,hkey,hstands⟩ := h.row_of he
  rw [← hstands.executionKey,hkey]

/-- Two executions under one id are in one history. -/
theorem Matches.same_key (h : Matches resolve m db) {e' : MlExecution} {key' : ExecutionKey}
    (he : e∈m.history key) (he' : e'∈m.history key') (hid : e.executionId=e'.executionId) : key=key' := by
  obtain ⟨row,hrow,rfl,hstands⟩ := h.row_of he
  obtain ⟨row',hrow',rfl,hstands'⟩ := h.row_of he'
  rw [db.row_unique hrow hrow' (by rw [hstands.executionId,hstands'.executionId,hid])]

/-- Corresponding executions and rows have the same ids. -/
theorem map_executionId {es : List MlExecution} {rows : List ExecutionRow}
    (h : List.Forall₂ (Stands resolve) es rows) :
    es.map (·.executionId)=rows.map fun row => row.executionId := by
  induction h with
  | nil => rfl
  | cons hd _ ih => rw [List.map_cons,List.map_cons,hd.executionId,ih]

/-- No two executions of a history have one id. -/
theorem Matches.ids_nodup (h : Matches resolve m db) (key : ExecutionKey) :
    ((m.history key).map (·.executionId)).Nodup := by
  rw [map_executionId (h.histories key)]
  exact (List.pairwise_map.mpr db.executionIdsUnique).sublist (List.filter_sublist.map _)

/-- Where no other has the id, the first change is the only one. -/
theorem changeFirst_eq_map {id : ExecutionId} {f : MlExecution → MlExecution} {es : List MlExecution}
    (h : (es.map (·.executionId)).Nodup) :
    changeFirst id f es=es.map fun e => if isExecution id e=true then f e else e := by
  induction es with
  | nil => rfl
  | cons e es ih =>
    obtain ⟨hnew,hrest⟩ := List.nodup_cons.mp h
    rw [changeFirst,List.map_cons]
    by_cases hid : isExecution id e=true
    · have hothers : es.map (fun e => if isExecution id e=true then f e else e)=es := by
        refine (List.map_congr_left fun e' he' => if_neg fun hid' => hnew ?_).trans (List.map_id es)
        simp only [isExecution,decide_eq_true_eq] at hid hid'
        have hsame : e'.executionId=e.executionId := hid'.trans hid.symm
        have hmem : e'.executionId∈es.map (·.executionId) := List.mem_map_of_mem he'
        rw [hsame] at hmem
        exact hmem
      rw [if_pos hid,if_pos hid,hothers]
    · rw [if_neg hid,if_neg hid,ih hrest]

/-- The located execution is in the history of its key. -/
theorem locate_some {id : ExecutionId} (h : m.locate id=some (key,e)) :
    key∈m.byKey.keys ∧ e∈m.history key ∧ e.executionId=id := by
  obtain ⟨item,hitem,hfound⟩ := List.exists_of_findSome?_eq_some h
  obtain ⟨e',he',hpair⟩ := Option.map_eq_some_iff.mp hfound
  cases hpair
  have hget : m.byKey.get? item.1=some item.2 := Dict.mem_items.mp hitem
  refine ⟨List.mem_map_of_mem hitem,?_,by simpa [isExecution] using List.find?_some he'⟩
  unfold Memory.history
  rw [hget]
  exact List.mem_of_find?_eq_some he'

/-- Nothing is located exactly when no history has the id. -/
theorem locate_none {id : ExecutionId} :
    m.locate id=none ↔ ∀ key,∀ e∈m.history key,e.executionId≠id := by
  unfold Memory.locate
  rw [List.findSome?_eq_none_iff]
  constructor
  · intro h key e he hid
    unfold Memory.history at he
    cases hget : m.byKey.get? key with
    | none =>
      rw [hget] at he
      exact nomatch he
    | some history =>
      rw [hget] at he
      have hnone := h (key,history) (Dict.mem_items.mpr hget)
      rw [Option.map_eq_none_iff,List.find?_eq_none] at hnone
      exact hnone e he (by simpa [isExecution] using hid)
  · intro h item hitem
    rw [Option.map_eq_none_iff,List.find?_eq_none]
    intro e he
    have hhistory : m.history item.1=item.2 := by
      unfold Memory.history
      rw [Dict.mem_items.mp hitem]
      rfl
    simpa [isExecution] using h item.1 e (by rw [hhistory]; exact he)

/-- Where nothing is located there is no row. -/
theorem Matches.findRow_none (h : Matches resolve m db) {id : ExecutionId} (hl : m.locate id=none) :
    db.findRow id=none := by
  refine Db.findRow_eq_none.mpr fun row hrow hid => ?_
  obtain ⟨e,he,hstands⟩ := h.execution_of hrow
  exact locate_none.mp hl _ e he (by rw [← hstands.executionId,hid])

/-- What is located stands for the row of its id. -/
theorem Matches.findRow_some (h : Matches resolve m db) {id : ExecutionId} (hl : m.locate id=some (key,e)) :
    ∃ row,db.findRow id=some row ∧ row.executionKey=key ∧ Stands resolve e row := by
  obtain ⟨_,he,hid⟩ := locate_some hl
  obtain ⟨row,hrow,hkey,hstands⟩ := h.row_of he
  exact ⟨row,Db.findRow_eq_some.mpr ⟨hrow,hstands.executionId.trans hid⟩,hkey,hstands⟩

/-- Changing the located execution changes every execution under its id. -/
theorem Matches.history_change (h : Matches resolve m db) {id : ExecutionId} (hl : m.locate id=some (key,e))
    (f : MlExecution → MlExecution) (key' : ExecutionKey) :
    (m.change key id f).history key'=
      (m.history key').map fun e => if isExecution id e=true then f e else e := by
  obtain ⟨_,he,hid⟩ := locate_some hl
  have hget : (m.change key id f).history key'=
      if key'=key then changeFirst id f (m.history key) else m.history key' := by
    unfold Memory.history Memory.change
    rw [Dict.get?_set]
    split <;> rfl
  rw [hget]
  split
  next hsame =>
    rw [hsame]
    exact changeFirst_eq_map (h.ids_nodup key)
  next hother =>
    refine ((List.map_congr_left fun e' he' => if_neg fun hid' => hother ?_).trans (List.map_id _)).symm
    refine h.same_key he' he ?_
    rw [hid]
    simpa [isExecution] using hid'

end Matches

section Changes
variable {resolve : Identities} {m m' : Memory} {db : Db} {key : ExecutionKey} {e : MlExecution}

/-- An update selects the rows of a key as before. -/
theorem filter_updateWhere (db : Db) (p : ExecutionRow → Bool) (f : MutableColumns → MutableColumns)
    (key : ExecutionKey) : (db.updateWhere p f).executions.filter (hasKey key)=
      (db.executions.filter (hasKey key)).map fun row => if p row=true then row.update f else row := by
  unfold Db.updateWhere
  dsimp only
  rw [List.filter_map]
  refine congrArg _ (List.filter_congr fun row _ => ?_)
  dsimp only [Function.comp]
  split <;> rfl

/-- A change of every execution and an update of every row that agree. -/
theorem Matches.updateWhere (h : Matches resolve m db) {F : MlExecution → MlExecution}
    {p : ExecutionRow → Bool} {f : MutableColumns → MutableColumns}
    (hkeys : ∀ key,key∈m'.byKey.keys ↔ key∈m.byKey.keys)
    (hhistory : ∀ key,m'.history key=(m.history key).map F)
    (hstands : ∀ e row,Stands resolve e row →
      Stands resolve (F e) (if p row=true then row.update f else row))
    (htags : ∀ row∈db.executions,(if p row=true then row.update f else row).tags.Nodup ∧
      m'.tagsByExecutionId row.executionId=(if p row=true then row.update f else row).tags.toFinset)
    (huntagged : ∀ id,(∀ row∈db.executions,row.executionId≠id) → m'.tagsByExecutionId id=∅)
    (hcurrent : (db.updateWhere p f).AtMostOneCurrent) : Matches resolve m' (db.updateWhere p f) where
  histories key := by
    rw [hhistory,filter_updateWhere]
    exact List.forall₂_map_left_iff.mpr (List.forall₂_map_right_iff.mpr ((h.histories key).imp hstands))
  nonempty key hkey := by
    rw [hhistory]
    simpa using h.nonempty key ((hkeys key).mp hkey)
  identities := h.identities
  identified key := (h.identified key).trans (hkeys key).symm
  tagged row hrow := by
    obtain ⟨r,hr,rfl⟩ := Db.mem_updateWhere.mp hrow
    have hid : (if p r=true then r.update f else r).executionId=r.executionId := by split <;> rfl
    rw [hid]
    exact htags r hr
  untagged id hid := by
    refine huntagged id fun row hrow => ?_
    have hnew := hid _ (Db.mem_updateWhere.mpr ⟨row,hrow,rfl⟩)
    split at hnew <;> exact hnew
  current := hcurrent

/-- The update leaves the tags, and so does the change. -/
theorem Matches.keeps_tags (h : Matches resolve m db) (m' : Memory) {p : ExecutionRow → Bool}
    {f : MutableColumns → MutableColumns} (htags : ∀ c,(f c).tags=c.tags)
    (hsame : m'.tagsByExecutionId=m.tagsByExecutionId) :
    (∀ row∈db.executions,(if p row=true then row.update f else row).tags.Nodup ∧
      m'.tagsByExecutionId row.executionId=(if p row=true then row.update f else row).tags.toFinset) ∧
      ∀ id,(∀ row∈db.executions,row.executionId≠id) → m'.tagsByExecutionId id=∅ := by
  rw [hsame]
  refine ⟨fun row hrow => ?_,h.untagged⟩
  have hrowTags : (if p row=true then row.update f else row).tags=row.tags := by
    split
    · exact htags row.toMutableColumns
    · rfl
  rw [hrowTags]
  exact h.tagged row hrow

/-- The located execution changed, and its row updated. -/
theorem Matches.change (h : Matches resolve m db) {id : ExecutionId} (hl : m.locate id=some (key,e))
    {F : MlExecution → MlExecution} {f : MutableColumns → MutableColumns} (htags : ∀ c,(f c).tags=c.tags)
    (hstands : ∀ e row,Stands resolve e row → Stands resolve (F e) (row.update f))
    (hcurrent : (db.updateWhere (hasId id) f).AtMostOneCurrent) :
    Matches resolve (m.change key id F) (db.updateWhere (hasId id) f) := by
  obtain ⟨hkey,he,hid⟩ := locate_some hl
  have hkept := h.keeps_tags (m.change key id F) (p := hasId id) htags rfl
  refine h.updateWhere (fun key' => ?_) (h.history_change hl F) (fun e' row hs => ?_) hkept.1 hkept.2
    hcurrent
  · unfold Memory.change
    rw [Dict.mem_keys_set]
    exact ⟨fun hor => hor.elim (fun hsame => hsame ▸ hkey) fun hmem => hmem,Or.inr⟩
  · rw [hs.hasId id]
    split
    next => exact hstands e' row hs
    next => exact hs

/-- A mark that makes no row servable keeps currency unsplit. -/
theorem unservable_update {f : MutableColumns → MutableColumns} {p : ExecutionRow → Bool}
    (h : Matches resolve m db) (hstate : ∀ c,(f c).state=c.state)
    (hpersisted : ∀ c,(f c).outputPersisted=c.outputPersisted)
    (hsup : ∀ c,(f c).supersededAt=c.supersededAt) : (db.updateWhere p f).AtMostOneCurrent := by
  refine atMostOne_updateWhere h.current fun row _ _ hs => ?_
  rw [MutableColumns.servable_iff] at hs ⊢
  rwa [hstate,hpersisted,hsup] at hs

/-- What superseding a key makes of an execution. -/
def supersededIn (key : ExecutionKey) (now : Timestamp) (e : MlExecution) : MlExecution :=
  if e.callIdentity.generateKey=key then supersede now e else e

/-- The superseded execution stands for the superseded row. -/
theorem stands_superseded {row : ExecutionRow} (hs : Stands resolve e row) (key : ExecutionKey)
    (now : Timestamp) : Stands resolve (supersededIn key now e)
      (if isCurrent key row=true then
        row.update fun c => { c with supersededAt := some (.value now) } else row) := by
  rw [hs.isCurrent key]
  unfold supersededIn supersede
  by_cases hkey : e.callIdentity.generateKey=key
  · by_cases hserv : isServable e=true
    · simpa [hkey,hserv] using hs.supersede now
    · simpa [hkey,hserv] using hs
  · simpa [hkey] using hs

/-- A history with its servable executions superseded, if it is the key's. -/
theorem Matches.map_superseded (h : Matches resolve m db) (key key' : ExecutionKey) (now : Timestamp) :
    (m.history key').map (supersededIn key now)=
      if key'=key then (m.history key).map (supersede now) else m.history key' := by
  by_cases hkey : key'=key
  · subst hkey
    rw [if_pos rfl]
    exact List.map_congr_left fun e he => if_pos (h.key_of he)
  · rw [if_neg hkey]
    refine (List.map_congr_left fun e he => if_neg ?_).trans (List.map_id _)
    rw [h.key_of he]
    exact hkey

/-- The key's servable executions are superseded in both stores. -/
theorem Matches.supersede (h : Matches resolve m db) (hkey : key∈m.byKey.keys) (now : Timestamp) :
    Matches resolve { m with byKey := m.byKey.set key ((m.history key).map (ReferenceStore.supersede now)) }
      (supersedePriorCurrent db key now) := by
  have hkept := h.keeps_tags
    { m with byKey := m.byKey.set key ((m.history key).map (ReferenceStore.supersede now)) }
    (p := isCurrent key) (f := fun c => { c with supersededAt := some (.value now) }) (fun _ => rfl) rfl
  refine h.updateWhere (fun key' => ?_) (fun key' => ?_) (fun _ _ hs => stands_superseded hs key now) hkept.1
    hkept.2 (atMostOne_supersede h.current key now)
  · rw [Dict.mem_keys_set]
    exact ⟨fun hor => hor.elim (fun hsame => hsame ▸ hkey) fun hmem => hmem,Or.inr⟩
  · rw [h.map_superseded]
    unfold Memory.history
    rw [Dict.get?_set]
    split <;> rfl

/-- Both transactions raise a StoreConsistencyError, or both go through and the stores hold
the same. -/
inductive Parallel (resolve : Identities) : Except PyExc Memory → Except PyExc Db → Prop where
  | raised (fault fault' : ConsistencyFault) :
      Parallel resolve (.error (.storeConsistency fault)) (.error (.storeConsistency fault'))
  | done {m : Memory} {db : Db} (h : Matches resolve m db) : Parallel resolve (.ok m) (.ok db)

/-- An execution of a history is located under its id, with its key. -/
theorem Matches.located_of_mem (h : Matches resolve m db) (he : e∈m.history key) :
    ∃ e',m.locate e.executionId=some (key,e') := by
  cases hl : m.locate e.executionId with
  | none => exact absurd rfl (locate_none.mp hl key e he)
  | some located =>
    obtain ⟨key',e'⟩ := located
    obtain ⟨_,he',hid⟩ := locate_some hl
    rw [h.same_key he he' hid.symm]
    exact ⟨e',rfl⟩

/-- Finalizing promotes the located execution in both stores, or raises in both. -/
theorem Matches.finalize (h : Matches resolve m db) (id : ExecutionId) (now : Timestamp) :
    Parallel resolve (m.finalizeOutputPersisted id now) (finalizeOutputPersisted id now db) := by
  unfold Memory.finalizeOutputPersisted finalizeOutputPersisted Memory.require
  cases hl : m.locate id with
  | none =>
    rw [h.findRow_none hl]
    exact .raised _ _
  | some located =>
    obtain ⟨key,e⟩ := located
    obtain ⟨row,hfind,hkey,hstands⟩ := h.findRow_some hl
    have hcount : row.artifacts.countP notStored=e.artifacts.countP fun a => decide (a.status≠.stored) := by
      rw [hstands.artifacts,List.countP_map]
      refine List.countP_congr fun a _ => ?_
      simp [notStored,artifactRow]
    have hstate : row.state=.value .success ↔ e.executionState=.success := by rw [hstands.state]; simp
    rw [hfind]
    change Parallel resolve (if e.artifacts.countP (fun a => decide (a.status≠.stored))≠0 then _ else _)
      (if row.artifacts.countP notStored=0 then _ else _)
    by_cases hstored : row.artifacts.countP notStored=0
    · rw [if_neg (not_not.mpr (hcount.symm.trans hstored)),if_pos hstored]
      refine .done ?_
      have hdb : finalizeOutputPersisted id now db=
          .ok ((if row.state=.value .success then supersedePriorCurrent db row.executionKey now
            else db).updateWhere (hasId id) fun c => { c with outputPersisted := true }) := by
        unfold finalizeOutputPersisted
        rw [hfind]
        exact if_pos hstored
      have hcurrent : (Db.updateWhere _ (hasId id) fun c =>
          { c with outputPersisted := true }).AtMostOneCurrent :=
        atMostOne_finalize h.current hdb
      by_cases hsuccess : e.executionState=.success
      · rw [if_pos (hstate.mpr hsuccess)] at hcurrent ⊢
        rw [if_pos hsuccess]
        rw [hkey] at hcurrent ⊢
        obtain ⟨hmem,he,hid⟩ := locate_some hl
        have hsup := h.supersede hmem now
        have hthere : ReferenceStore.supersede now e∈({ m with
            byKey := m.byKey.set key ((m.history key).map (ReferenceStore.supersede now)) } : Memory).history key := by
          unfold Memory.history
          rw [Dict.get?_set,if_pos rfl]
          exact List.mem_map_of_mem he
        obtain ⟨e',hl'⟩ := hsup.located_of_mem hthere
        have hsame : (ReferenceStore.supersede now e).executionId=id := by
          unfold ReferenceStore.supersede
          split <;> exact hid
        rw [hsame] at hl'
        exact hsup.change hl' (fun _ => rfl) (fun _ _ hs => hs.persisted) hcurrent
      · rw [if_neg fun hs => hsuccess (hstate.mp hs)] at hcurrent ⊢
        rw [if_neg hsuccess]
        exact h.change hl (fun _ => rfl) (fun _ _ hs => hs.persisted) hcurrent
    · rw [if_pos fun hzero => hstored (hcount.trans hzero),if_neg hstored]
      exact .raised _ _

/-- Marks resolve the artifacts alike, or raise in both. -/
theorem Matches.mark (h : Matches resolve m db) (id : ExecutionId) {blobKey : BlobKey} {f : Artifact → Artifact}
    {mark : ArtifactRow → ArtifactRow} (hmark : ∀ a,mark (artifactRow a)=artifactRow (f a))
    (hcontent : ∀ a,(f a).content=a.content) :
    Parallel resolve (m.markArtifacts id blobKey f) (markArtifacts id blobKey mark db) := by
  unfold Memory.markArtifacts markArtifacts Memory.require
  cases hl : m.locate id with
  | none =>
    rw [h.findRow_none hl]
    exact .raised _ _
  | some located =>
    obtain ⟨key,e⟩ := located
    obtain ⟨row,hfind,_,hstands⟩ := h.findRow_some hl
    have hany : row.artifacts.any (fun a => decide (a.blobKey=.value blobKey))=true ↔
        e.artifacts.countP (fun a => decide (a.blobKey=blobKey))≠0 := by
      rw [hstands.artifacts,List.any_map,ne_eq,List.countP_eq_zero,List.any_eq_true]
      simp [artifactRow]
    rw [hfind]
    change Parallel resolve (if e.artifacts.countP (fun a => decide (a.blobKey=blobKey))=0 then _ else _)
      (if row.artifacts.any (fun a => decide (a.blobKey=.value blobKey))=true then _ else _)
    by_cases hzero : e.artifacts.countP (fun a => decide (a.blobKey=blobKey))=0
    · rw [if_pos hzero,if_neg fun ha => hany.mp ha hzero]
      exact .raised _ _
    · rw [if_neg hzero,if_pos (hany.mpr hzero)]
      exact .done (h.change hl (fun _ => rfl) (fun _ _ hs => hs.resolved hmark hcontent)
        (unservable_update h (fun _ => rfl) (fun _ => rfl) fun _ => rfl))

/-- A storable artifact is appended in both stores, or both raise. -/
theorem Matches.persist (h : Matches resolve m db) (id : ExecutionId) {artifact : Artifact}
    (ha : Artifact.storable artifact=true) :
    Parallel resolve (m.persistArtifact id artifact) (persistArtifact id artifact db) := by
  unfold Memory.persistArtifact persistArtifact Memory.require
  cases hl : m.locate id with
  | none =>
    rw [h.findRow_none hl]
    exact .raised _ _
  | some located =>
    obtain ⟨key,e⟩ := located
    obtain ⟨row,hfind,_,_⟩ := h.findRow_some hl
    have hall : [artifact].all Artifact.storable=true := by simpa using ha
    rw [hfind,insertArtifacts_of hall]
    refine .done (h.change hl (fun _ => rfl) (fun e _ hs => ?_)
      (unservable_update h (fun _ => rfl) (fun _ => rfl) fun _ => rfl))
    exact hs.withArtifacts [artifact] e.inputPersisted

/-- An outcome is recorded in both stores, or both raise. -/
theorem Matches.outcome (h : Matches resolve m db) {execution : MlExecution}
    (hfailure : storableFailure execution.failure=true)
    (husage : execution.tokenUsage.all TokenUsage.storable=true)
    (hfree : ∀ key stored,m.locate execution.executionId=some (key,stored) → stored.tokenUsage=none ∧
      (isServable { stored with executionState := execution.executionState }=true →
        ∀ e∈m.history key,isServable e=true → e.executionId=execution.executionId)) :
    Parallel resolve (m.recordOutcome execution) (recordOutcome execution db) := by
  unfold Memory.recordOutcome recordOutcome Memory.require
  cases hl : m.locate execution.executionId with
  | none =>
    rw [h.findRow_none hl]
    exact .raised _ _
  | some located =>
    obtain ⟨key,e⟩ := located
    obtain ⟨row,hfind,hkey,hstands⟩ := h.findRow_some hl
    obtain ⟨hnone,hother⟩ := hfree key e hl
    have hrowUsage : row.tokenUsage=none := by rw [hstands.tokenUsage,hnone]; rfl
    rw [hfind,bindFailure_of hfailure]
    change Parallel resolve _ (insertTokenUsage row.tokenUsage execution.tokenUsage >>= fun usage => _)
    rw [hrowUsage,insertTokenUsage_of husage]
    refine .done (h.change hl (fun _ => rfl) (fun _ _ hs => hs.outcome execution) ?_)
    obtain ⟨hmem,hid⟩ := Db.findRow_eq_some.mp hfind
    -- Where the outcome makes the run servable, no other row of its key is.
    have halone : (row.update (outcomeColumns execution (execution.tokenUsage.map usageRow))).servable=true →
        ∀ r∈db.executions,r.executionKey=row.executionKey → r.servable=true → r=row := by
      intro hs r hr hrkey hrs
      have hnew := (hstands.outcome execution).servable.symm.trans hs
      obtain ⟨e',he',hstands'⟩ := h.execution_of hr
      rw [hrkey,hkey] at he'
      have hsame := hother hnew e' he' (hstands'.servable.symm.trans hrs)
      exact db.row_unique hr hmem ((hstands'.executionId.trans hsame).trans hid.symm)
    have hrow : ∀ r∈db.executions,hasId execution.executionId r=true → r=row := fun r hr hrid =>
      db.row_unique hr hmem (((hasId_iff _ _).mp hrid).trans hid.symm)
    intro a ha b hb hkeys hsa hsb
    obtain ⟨r,hr,rfl⟩ := Db.mem_updateWhere.mp ha
    obtain ⟨r',hr',rfl⟩ := Db.mem_updateWhere.mp hb
    have hsamekey : r.executionKey=r'.executionKey := by
      split at hkeys <;> split at hkeys <;> exact hkeys
    by_cases hp : hasId execution.executionId r=true
    · have hrrow := hrow r hr hp
      subst hrrow
      rw [if_pos hp] at hsa
      by_cases hp' : hasId execution.executionId r'=true
      · rw [hrow r' hr' hp']
      · rw [if_neg hp'] at hsb
        exact absurd hp (halone hsa r' hr' hsamekey.symm hsb ▸ hp')
    · rw [if_neg hp] at hsa
      by_cases hp' : hasId execution.executionId r'=true
      · have hrrow := hrow r' hr' hp'
        subst hrrow
        rw [if_pos hp'] at hsb
        exact absurd hp' (halone hsb r hr hsamekey hsa ▸ hp)
      · rw [if_neg hp'] at hsb
        rw [h.current r hr r' hr' hsamekey hsa hsb]

/-- Executions and rows deleted alike, with the identities of the keys left without rows. -/
theorem Matches.delete (h : Matches resolve m db) {db' : Db} {q : MlExecution → Bool} {p : ExecutionRow → Bool}
    (hpq : ∀ e row,Stands resolve e row → p row=q e)
    (hhistory : ∀ key,m'.history key=(m.history key).filter fun e => !q e)
    (hkeys : ∀ key,key∈m'.byKey.keys ↔ m'.history key≠[])
    (hrows : db'.executions=(db.deleteWhere p).executions)
    (hidentities : ∀ i,i∈db'.callIdentities ↔ i∈db.callIdentities ∧
      ∃ row∈db'.executions,row.executionKey=i.executionKey)
    (hgone : ∀ row∈db.executions,p row=true → m'.tagsByExecutionId row.executionId=∅)
    (hkept : ∀ row∈db.executions,p row=false →
      m'.tagsByExecutionId row.executionId=m.tagsByExecutionId row.executionId)
    (hnone : ∀ id,(∀ row∈db.executions,row.executionId≠id) → m'.tagsByExecutionId id=∅) :
    Matches resolve m' db' := by
  have hsub : ∀ row∈db'.executions,row∈db.executions ∧ p row=false := by
    intro row hrow
    rw [hrows] at hrow
    exact Db.mem_deleteWhere.mp hrow
  have hhistories : ∀ key,List.Forall₂ (Stands resolve) (m'.history key)
      (db'.executions.filter (hasKey key)) := by
    intro key
    rw [hhistory,hrows]
    have hcomm : (db.deleteWhere p).executions.filter (hasKey key)=
        (db.executions.filter (hasKey key)).filter fun row => !p row := by
      unfold Db.deleteWhere
      dsimp only
      rw [List.filter_comm]
    rw [hcomm]
    refine List.rel_filter (fun e row hs => ?_) (h.histories key)
    dsimp only
    rw [hpq e row hs]
  have hthere : ∀ key,m'.history key≠[] ↔ ∃ row∈db'.executions,row.executionKey=key := by
    intro key
    rw [ne_eq,← List.length_eq_zero_iff,(hhistories key).length_eq,List.length_eq_zero_iff,
      List.filter_eq_nil_iff]
    simp
  refine ⟨hhistories,fun key hkey => (hkeys key).mp hkey,?_,?_,?_,?_,
    atMostOne_of_subset h.current fun row hrow => (hsub row hrow).1⟩
  · exact fun i hi => h.identities i ((hidentities i).mp hi).1
  · intro key
    rw [hkeys,hthere]
    constructor
    · rintro ⟨i,hi,rfl⟩
      exact ((hidentities i).mp hi).2
    · rintro ⟨row,hrow,rfl⟩
      obtain ⟨e,he,_⟩ := h.execution_of (hsub row hrow).1
      obtain ⟨i,hi,hik⟩ := (h.identified row.executionKey).mpr (h.mem_keys.mpr (List.ne_nil_of_mem he))
      exact ⟨i,(hidentities i).mpr ⟨hi,row,hrow,hik.symm⟩,hik⟩
  · intro row hrow
    obtain ⟨hmem,hp⟩ := hsub row hrow
    rw [hkept row hmem hp]
    exact h.tagged row hmem
  · intro id hid
    by_cases hrow : ∃ row∈db.executions,row.executionId=id
    · obtain ⟨row,hmem,rfl⟩ := hrow
      cases hp : p row with
      | true => exact hgone row hmem hp
      | false =>
        refine absurd rfl (hid row ?_)
        rw [hrows]
        exact Db.mem_deleteWhere.mpr ⟨hmem,hp⟩
    · exact hnone id fun row hmem he => hrow ⟨row,hmem,he⟩

/-- Where no other has the id, the first is all there is to erase. -/
theorem eraseP_eq_filter (id : ExecutionId) {es : List MlExecution} (h : (es.map (·.executionId)).Nodup) :
    es.eraseP (isExecution id)=es.filter fun e => !isExecution id e := by
  induction es with
  | nil => rfl
  | cons e es ih =>
    obtain ⟨hnew,hrest⟩ := List.nodup_cons.mp h
    by_cases hid : isExecution id e=true
    · rw [List.eraseP_cons_of_pos hid,List.filter_cons_of_neg (by simp [hid])]
      refine (List.filter_eq_self.mpr fun e' he' => ?_).symm
      rw [Bool.not_eq_true',Bool.eq_false_iff]
      intro hid'
      simp only [isExecution,decide_eq_true_eq] at hid hid'
      have hmem : e'.executionId∈es.map (·.executionId) := List.mem_map_of_mem he'
      rw [hid'.trans hid.symm] at hmem
      exact hnew hmem
    · rw [List.eraseP_cons_of_neg hid,List.filter_cons_of_pos (by simp [hid]),ih hrest]

/-- Every identity has a row of its key. -/
theorem Matches.row_of_identity (h : Matches resolve m db) {i : IdentityRow} (hi : i∈db.callIdentities) :
    ∃ row∈db.executions,row.executionKey=i.executionKey := by
  have hne := h.mem_keys.mp ((h.identified i.executionKey).mp ⟨i,hi,rfl⟩)
  obtain ⟨e,he⟩ := List.exists_mem_of_ne_nil _ hne
  obtain ⟨row,hrow,hkey,_⟩ := h.row_of he
  exact ⟨row,hrow,hkey⟩

section Removing
variable {id : ExecutionId} {key : ExecutionKey} {e : MlExecution}

/-- The reference store after a removal. -/
theorem removeExecution_memory (hl : m.locate id=some (key,e)) : m.removeExecution id=
    { byKey := if (m.history key).eraseP (isExecution id)=[] then m.byKey.pop key
        else m.byKey.set key ((m.history key).eraseP (isExecution id))
      tagsByExecutionId := fun id' => if id'=id then ∅ else m.tagsByExecutionId id' } := by
  unfold Memory.removeExecution
  rw [hl]

/-- The other keys do not have the execution. -/
theorem Matches.history_of_ne (h : Matches resolve m db) (hl : m.locate id=some (key,e)) {key' : ExecutionKey}
    (hne : key'≠key) : (m.history key').filter (fun e => !isExecution id e)=m.history key' := by
  obtain ⟨_,he,heid⟩ := locate_some hl
  refine List.filter_eq_self.mpr fun e' he' => ?_
  rw [Bool.not_eq_true',Bool.eq_false_iff]
  intro hid'
  exact hne (h.same_key he' he ((by simpa [isExecution] using hid' : e'.executionId=id).trans heid.symm))

/-- The histories after a removal. -/
theorem Matches.history_removeExecution (h : Matches resolve m db) (hl : m.locate id=some (key,e))
    (key' : ExecutionKey) :
    (m.removeExecution id).history key'=(m.history key').filter fun e => !isExecution id e := by
  rw [removeExecution_memory hl,eraseP_eq_filter id (h.ids_nodup key)]
  unfold Memory.history
  dsimp only
  by_cases hsame : key'=key
  · subst hsame
    split
    next hnil =>
      rw [Dict.get?_pop,if_pos rfl]
      exact hnil.symm
    next =>
      rw [Dict.get?_set,if_pos rfl]
      rfl
  · have hkeep := h.history_of_ne hl hsame
    unfold Memory.history at hkeep
    rw [hkeep]
    split
    · rw [Dict.get?_pop,if_neg hsame]
    · rw [Dict.get?_set,if_neg hsame]

/-- The keys after a removal are those that have a history left. -/
theorem Matches.keys_removeExecution (h : Matches resolve m db) (hl : m.locate id=some (key,e)) (key' : ExecutionKey) :
    key'∈(m.removeExecution id).byKey.keys ↔ (m.removeExecution id).history key'≠[] := by
  rw [h.history_removeExecution hl]
  by_cases hsame : key'=key
  · subst hsame
    rw [removeExecution_memory hl,eraseP_eq_filter id (h.ids_nodup key')]
    dsimp only
    split
    next hnil => simp [Dict.mem_keys_pop,hnil]
    next hne => simp [Dict.mem_keys_set,hne]
  · rw [h.history_of_ne hl hsame,← h.mem_keys,removeExecution_memory hl]
    dsimp only
    split
    · simp [Dict.mem_keys_pop,hsame]
    · simp [Dict.mem_keys_set,hsame]

/-- An identity stays where a row of its key does. -/
theorem Matches.mem_dropOrphanIdentity (h : Matches resolve m db) {row : ExecutionRow} (hmem : row∈db.executions)
    (hid : row.executionId=id) (hkey : row.executionKey=key) (i : IdentityRow) :
    i∈(dropOrphanIdentity key (db.deleteWhere (hasId id))).callIdentities ↔ i∈db.callIdentities ∧
      ∃ row∈(db.deleteWhere (hasId id)).executions,row.executionKey=i.executionKey := by
  have hleft : i∈db.callIdentities → i.executionKey≠key →
      ∃ row∈(db.deleteWhere (hasId id)).executions,row.executionKey=i.executionKey := by
    intro hi hne
    obtain ⟨r,hr,hrkey⟩ := h.row_of_identity hi
    refine ⟨r,Db.mem_deleteWhere.mpr ⟨hr,(hasId_eq_false _ _).mpr fun hrid => hne ?_⟩,hrkey⟩
    rw [← hrkey,db.row_unique hr hmem (hrid.trans hid.symm),hkey]
  unfold dropOrphanIdentity
  split
  next hzero =>
    have hnone := List.countP_eq_zero.mp hzero
    constructor
    · intro hi
      obtain ⟨hi,hne⟩ := List.mem_filter.mp hi
      exact ⟨hi,hleft hi (by simpa using hne)⟩
    · rintro ⟨hi,r,hr,hrkey⟩
      refine List.mem_filter.mpr ⟨hi,?_⟩
      have hne := hnone r hr
      rw [hasKey_iff,hrkey] at hne
      simpa using hne
  next hsome =>
    obtain ⟨r,hr,hrkey⟩ := List.countP_pos_iff.mp (Nat.pos_of_ne_zero hsome)
    constructor
    · intro hi
      by_cases hsame : i.executionKey=key
      · exact ⟨hi,r,hr,((hasKey_iff _ _).mp hrkey).trans hsame.symm⟩
      · exact ⟨hi,hleft hi hsame⟩
    · exact fun hi => hi.1

end Removing

/-- A removal takes the execution out of both stores. -/
theorem Matches.remove (h : Matches resolve m db) (id : ExecutionId) :
    Matches resolve (m.removeExecution id) (removeExecution id db) := by
  cases hl : m.locate id with
  | none =>
    unfold Memory.removeExecution removeExecution
    rw [hl,h.findRow_none hl]
    exact h
  | some located =>
    obtain ⟨key,e⟩ := located
    obtain ⟨row,hfind,hkey,hstands⟩ := h.findRow_some hl
    obtain ⟨hmem,hid⟩ := Db.findRow_eq_some.mp hfind
    have hdb : removeExecution id db=dropOrphanIdentity key (db.deleteWhere (hasId id)) := by
      unfold removeExecution
      rw [hfind]
      dsimp only
      rw [hkey]
    refine h.delete (q := isExecution id) (p := hasId id) (fun e' row' hs => hs.hasId id)
      (h.history_removeExecution hl) (h.keys_removeExecution hl) ?_ ?_ ?_ ?_ ?_
    · rw [hdb,dropOrphanIdentity_executions]
    · intro i
      rw [hdb,dropOrphanIdentity_executions]
      exact h.mem_dropOrphanIdentity hmem hid hkey i
    · intro r hr hp
      rw [removeExecution_memory hl]
      exact if_pos ((hasId_iff _ _).mp hp)
    · intro r hr hp
      rw [removeExecution_memory hl]
      exact if_neg ((hasId_eq_false _ _).mp hp)
    · intro id' hnone
      rw [removeExecution_memory hl]
      dsimp only
      split
      · rfl
      · exact h.untagged id' hnone

/-- A hard delete takes the key out of both stores. -/
theorem Matches.hardDelete (h : Matches resolve m db) (key : ExecutionKey) :
    Matches resolve (m.hardDeleteExecution key) (hardDeleteExecution key db) := by
  have hhistory : ∀ key',(m.hardDeleteExecution key).history key'=
      (m.history key').filter fun e => !decide (e.callIdentity.generateKey=key) := by
    intro key'
    have hget : (m.hardDeleteExecution key).history key'=if key'=key then [] else m.history key' := by
      unfold Memory.history Memory.hardDeleteExecution
      dsimp only
      rw [Dict.get?_pop]
      split <;> rfl
    rw [hget]
    split
    next hsame =>
      refine (List.filter_eq_nil_iff.mpr fun e he => ?_).symm
      simp [h.key_of he,hsame]
    next hne =>
      refine (List.filter_eq_self.mpr fun e he => ?_).symm
      simp [h.key_of he,hne]
  have htags : ∀ id,(m.hardDeleteExecution key).tagsByExecutionId id=
      if (m.history key).any (isExecution id)=true then ∅ else m.tagsByExecutionId id := fun _ => rfl
  refine h.delete (q := fun e => decide (e.callIdentity.generateKey=key)) (p := hasKey key)
    (fun e row hs => ?_) hhistory (fun key' => ?_) rfl (fun i => ?_) ?_ ?_ ?_
  · unfold hasKey
    rw [hs.executionKey]
  · have hkeys : key'∈(m.hardDeleteExecution key).byKey.keys ↔ key'≠key ∧ key'∈m.byKey.keys :=
      Dict.mem_keys_pop
    rw [hkeys,h.mem_keys,hhistory]
    by_cases hsame : key'=key
    · have hnil : (m.history key').filter (fun e => !decide (e.callIdentity.generateKey=key))=[] :=
        List.filter_eq_nil_iff.mpr fun e he => by simp [h.key_of he,hsame]
      simp [hsame,hsame ▸ hnil]
    · have hall : (m.history key').filter (fun e => !decide (e.callIdentity.generateKey=key))=m.history key' :=
        List.filter_eq_self.mpr fun e he => by simp [h.key_of he,hsame]
      rw [hall]
      exact and_iff_right hsame
  · have hmem : i∈(hardDeleteExecution key db).callIdentities ↔
        i∈db.callIdentities ∧ i.executionKey≠key := by
      simp [hardDeleteExecution,Db.deleteIdentity]
    rw [hmem]
    constructor
    · rintro ⟨hi,hne⟩
      obtain ⟨r,hr,hrkey⟩ := h.row_of_identity hi
      exact ⟨hi,r,mem_hardDeleteExecution.mpr ⟨hr,hrkey ▸ hne⟩,hrkey⟩
    · rintro ⟨hi,r,hr,hrkey⟩
      exact ⟨hi,hrkey ▸ (mem_hardDeleteExecution.mp hr).2⟩
  · intro row hrow hp
    obtain ⟨e,he,hs⟩ := h.execution_of hrow
    rw [(hasKey_iff _ _).mp hp] at he
    rw [htags]
    refine if_pos (List.any_eq_true.mpr ⟨e,he,?_⟩)
    simp [isExecution,hs.executionId]
  · intro row hrow hp
    obtain ⟨e,he,hs⟩ := h.execution_of hrow
    rw [htags]
    refine if_neg fun hany => (hasKey_eq_false _ _).mp hp ?_
    obtain ⟨e',he',hid⟩ := List.any_eq_true.mp hany
    exact (h.same_key he' he (by simpa [isExecution,hs.executionId] using hid)).symm
  · intro id hnone
    rw [htags]
    split
    · rfl
    · exact h.untagged id hnone

/-- A soft purge purges the key's executions in both stores. -/
theorem Matches.softPurge (h : Matches resolve m db) (key : ExecutionKey) :
    Matches resolve (m.softPurgeExecution key) (softPurgeExecution key db) := by
  have hsame : (m.softPurgeExecution key).tagsByExecutionId=m.tagsByExecutionId := by
    unfold Memory.softPurgeExecution
    split <;> rfl
  have hkept := h.keeps_tags (m.softPurgeExecution key) (p := hasKey key) (f := purgedColumns)
    (fun _ => rfl) hsame
  refine h.updateWhere (F := fun e => if e.callIdentity.generateKey=key then ReferenceStore.purged e else e)
    (fun key' => ?_) (fun key' => ?_) (fun e row hs => ?_) hkept.1 hkept.2 ?_
  · unfold Memory.softPurgeExecution
    split
    next => exact Iff.rfl
    next history hget =>
      rw [Dict.mem_keys_set]
      have hkey : key∈m.byKey.keys := by
        by_contra hnot
        rw [Dict.get?_eq_none.mpr hnot] at hget
        exact nomatch hget
      exact ⟨fun hor => hor.elim (fun heq => heq ▸ hkey) fun hmem => hmem,Or.inr⟩
  · have hmap : (m.history key').map (fun e => if e.callIdentity.generateKey=key then ReferenceStore.purged e
        else e)=if key'=key then (m.history key').map ReferenceStore.purged else m.history key' := by
      split
      next heq => exact List.map_congr_left fun e he => if_pos ((h.key_of he).trans heq)
      next hne =>
        refine (List.map_congr_left fun e he => if_neg ?_).trans (List.map_id _)
        rw [h.key_of he]
        exact hne
    rw [hmap]
    unfold Memory.softPurgeExecution Memory.history
    cases hget : m.byKey.get? key with
    | none =>
      dsimp only
      split
      next heq =>
        rw [heq,hget]
        rfl
      next => rfl
    | some history =>
      dsimp only
      rw [Dict.get?_set]
      split
      next heq =>
        rw [heq,hget]
        rfl
      next => rfl
  · have hp : hasKey key row=true ↔ e.callIdentity.generateKey=key := by rw [hasKey_iff,hs.executionKey]
    by_cases heq : e.callIdentity.generateKey=key
    · rw [if_pos heq,if_pos (hp.mpr heq)]
      exact hs.purged
    · rw [if_neg heq,if_neg fun hk => heq (hp.mp hk)]
      exact hs
  · refine atMostOne_updateWhere h.current fun row _ _ hs => ?_
    simp [purgedColumns,MutableColumns.servable] at hs

/-- Where no execution of a history is servable, no row of its key is current. -/
theorem Matches.current_none (h : Matches resolve m db) (hf : m.findCurrent key=none) :
    db.currentRow key=none := by
  refine Db.currentRow_eq_none.mpr fun row hrow hkey => ?_
  obtain ⟨e,he,hs⟩ := h.execution_of hrow
  rw [hkey] at he
  rw [hs.servable]
  simpa using List.find?_eq_none.mp hf e he

/-- The first servable execution of a history stands for the current row of its key. -/
theorem Matches.current_some (h : Matches resolve m db) (hf : m.findCurrent key=some e) :
    e∈m.history key ∧ isServable e=true ∧ ∃ row,db.currentRow key=some row ∧ Stands resolve e row := by
  have he := List.mem_of_find?_eq_some hf
  have hserv := List.find?_some hf
  obtain ⟨row,hrow,rfl,hs⟩ := h.row_of he
  exact ⟨he,hserv,row,h.current.currentRow hrow (hs.servable.trans hserv),hs⟩

/-- Another memory that reads the same holds the same. -/
theorem Matches.of_same (h : Matches resolve m db) (hhistory : ∀ key,m'.history key=m.history key)
    (hkeys : ∀ key,key∈m'.byKey.keys ↔ key∈m.byKey.keys)
    (htags : m'.tagsByExecutionId=m.tagsByExecutionId) : Matches resolve m' db where
  histories key := by rw [hhistory]; exact h.histories key
  nonempty key hkey := by rw [hhistory]; exact h.nonempty key ((hkeys key).mp hkey)
  identities := h.identities
  identified key := (h.identified key).trans (hkeys key).symm
  tagged := by rw [htags]; exact h.tagged
  untagged := by rw [htags]; exact h.untagged
  current := h.current

/-- Inserted tags join the set. -/
theorem toFinset_insertTags (new tags : List PyStr) :
    (new.foldl insertTag tags).toFinset=tags.toFinset ∪ new.toFinset := by
  induction new generalizing tags with
  | nil => simp
  | cons tag new ih =>
    have hone : (insertTag tags tag).toFinset=insert tag tags.toFinset := by
      unfold insertTag
      split
      next hmem => rw [Finset.insert_eq_of_mem (List.mem_toFinset.mpr hmem)]
      next => rw [List.toFinset_append]; ext t; simp
    rw [List.foldl_cons,ih,hone,List.toFinset_cons]
    ext t
    simp only [Finset.mem_union,Finset.mem_insert]
    tauto

/-- No tag is inserted twice. -/
theorem nodup_insertTags (new : List PyStr) {tags : List PyStr} (h : tags.Nodup) :
    (new.foldl insertTag tags).Nodup := by
  induction new generalizing tags with
  | nil => exact h
  | cons tag new ih =>
    refine ih ?_
    unfold insertTag
    split
    · exact h
    · next hnew =>
      exact List.nodup_append.mpr ⟨h,List.nodup_singleton _,fun t ht t' ht' he => by
        rw [List.mem_singleton.mp ht'] at he
        exact hnew (he ▸ ht)⟩

/-- Encodable tags are added in both stores. -/
theorem Matches.addTags (h : Matches resolve m db) (key : ExecutionKey) {tags : List PyStr}
    (htags : tags.all encodable=true) :
    ∃ db',addTags key tags db=.ok db' ∧ Matches resolve (m.addTags key tags) db' := by
  unfold Memory.addTags ExecutionRepository.addTags
  by_cases hnil : tags=[]
  · rw [if_pos hnil,if_pos hnil]
    exact ⟨db,rfl,h⟩
  · rw [if_neg hnil,if_neg hnil]
    have hbind : tags.forM bindText=.ok () := by
      clear hnil
      induction tags with
      | nil => rfl
      | cons tag tags ih =>
        rw [List.all_cons,Bool.and_eq_true] at htags
        rw [List.forM_eq_forM] at ih ⊢
        rw [List.forM_cons,bindText_of htags.1]
        exact ih htags.2
    cases hf : m.findCurrent key with
    | none =>
      rw [h.current_none hf]
      exact ⟨db,rfl,h⟩
    | some e =>
      obtain ⟨he,_,row,hrow,hs⟩ := h.current_some hf
      rw [hrow]
      dsimp only
      rw [hbind]
      refine ⟨_,rfl,?_⟩
      refine h.updateWhere (F := fun e => e) (fun _ => Iff.rfl) (fun key' => (List.map_id' _).symm)
        (fun e' r hs' => ?_) (fun r hr => ?_) (fun id hid => ?_)
        (unservable_update h (fun _ => rfl) (fun _ => rfl) fun _ => rfl)
      · split
        · refine hs'.change (f := fun e => e) ?_ rfl rfl rfl hs'.dehydrated
          conv_lhs => rw [hs'.columns]
        · exact hs'
      · obtain ⟨hnodup,htagged⟩ := h.tagged r hr
        dsimp only
        by_cases hsame : r.executionId=e.executionId
        · have hp : hasId row.executionId r=true := (hasId_iff _ _).mpr (hsame.trans hs.executionId.symm)
          rw [if_pos hp,if_pos hsame]
          refine ⟨nodup_insertTags tags hnodup,?_⟩
          rw [htagged]
          exact (toFinset_insertTags tags r.tags).symm
        · have hp : ¬hasId row.executionId r=true := fun hp =>
            hsame (((hasId_iff _ _).mp hp).trans hs.executionId)
          rw [if_neg hp,if_neg hsame]
          exact ⟨hnodup,htagged⟩
      · have hne : id≠e.executionId := fun heq =>
          hid row (Db.currentRow_mem hrow).1 (hs.executionId.trans heq.symm)
        dsimp only
        rw [if_neg hne]
        exact h.untagged id hid

/-- What `add_input_artifacts` makes of the first servable execution. -/
def withInput (artifacts : List Artifact) (e : MlExecution) : MlExecution :=
  { e with artifacts := e.artifacts ++ artifacts.map fun a => { a with content := none }
           inputPersisted := true }

/-- The loop reaches the first servable execution, if there is one. -/
theorem addInput_of (artifacts : List Artifact) {es : List MlExecution}
    (hids : (es.map (·.executionId)).Nodup) :
    addInput artifacts es=match es.find? isServable with
      | none => es
      | some e => if (e.artifacts.any fun a => a.artifactType.isInput)=true then es
          else changeFirst e.executionId (withInput artifacts) es := by
  induction es with
  | nil => rfl
  | cons e es ih =>
    obtain ⟨hnew,hrest⟩ := List.nodup_cons.mp hids
    rw [addInput]
    by_cases hserv : isServable e=true
    · rw [if_neg (by simp [hserv]),List.find?_cons_of_pos hserv]
      dsimp only
      split
      · rfl
      · rw [changeFirst,if_pos (by simp [isExecution])]
        rfl
    · rw [if_pos (by simpa using hserv),List.find?_cons_of_neg hserv,ih hrest]
      cases hf : es.find? isServable with
      | none => rfl
      | some e' =>
        dsimp only
        split
        · rfl
        · have hne : ¬isExecution e'.executionId e=true := by
            intro heq
            simp only [isExecution,decide_eq_true_eq] at heq
            have hmem : e'.executionId∈es.map (·.executionId) :=
              List.mem_map_of_mem (List.mem_of_find?_eq_some hf)
            rw [← heq] at hmem
            exact hnew hmem
          rw [changeFirst,if_neg hne]

/-- Storable input is attached in both stores, or in neither. -/
theorem Matches.addInputArtifacts (h : Matches resolve m db) (key : ExecutionKey) {artifacts : List Artifact}
    (ha : artifacts.all Artifact.storable=true) :
    ∃ db',addInputArtifacts key artifacts db=.ok db' ∧
      Matches resolve (m.addInputArtifacts key artifacts) db' := by
  unfold Memory.addInputArtifacts ExecutionRepository.addInputArtifacts
  by_cases hnil : artifacts.isEmpty=true
  · rw [if_pos hnil,if_pos hnil]
    exact ⟨db,rfl,h⟩
  · rw [if_neg hnil,if_neg hnil]
    cases hget : m.byKey.get? key with
    | none =>
      have hnone : m.findCurrent key=none := by
        unfold Memory.findCurrent Memory.history
        rw [hget]
        rfl
      rw [h.current_none hnone]
      exact ⟨db,rfl,h⟩
    | some history =>
      have hhistory : m.history key=history := by
        unfold Memory.history
        rw [hget]
        rfl
      have hkey : key∈m.byKey.keys := by
        by_contra hnot
        rw [Dict.get?_eq_none.mpr hnot] at hget
        exact nomatch hget
      have hset : ∀ m' : Memory,m'={ m with byKey := m.byKey.set key history } → Matches resolve m' db := by
        rintro m' rfl
        refine h.of_same (fun key' => ?_) (fun key' => ?_) rfl
        · unfold Memory.history
          rw [Dict.get?_set]
          split
          next heq => rw [heq,hget]
          next => rfl
        · rw [Dict.mem_keys_set]
          exact ⟨fun hor => hor.elim (fun heq => heq ▸ hkey) fun hmem => hmem,Or.inr⟩
      dsimp only
      have hids := h.ids_nodup key
      rw [hhistory] at hids
      rw [addInput_of artifacts hids]
      have hcurrent : m.findCurrent key=history.find? isServable := by rw [Memory.findCurrent,hhistory]
      cases hf : history.find? isServable with
      | none =>
        rw [h.current_none (hcurrent.trans hf)]
        exact ⟨db,rfl,hset _ rfl⟩
      | some e =>
        obtain ⟨he,_,row,hrow,hs⟩ := h.current_some (hcurrent.trans hf)
        have hinput : row.artifacts.any ArtifactRow.isInput=e.artifacts.any fun a => a.artifactType.isInput := by
          rw [hs.artifacts,List.any_map]
          rfl
        rw [hrow]
        dsimp only
        rw [hinput]
        by_cases hhas : (e.artifacts.any fun a => a.artifactType.isInput)=true
        · rw [if_pos hhas,if_pos hhas]
          exact ⟨db,rfl,hset _ rfl⟩
        · rw [if_neg hhas,if_neg hhas,insertArtifacts_of ha]
          refine ⟨_,rfl,?_⟩
          obtain ⟨e',hl⟩ := h.located_of_mem he
          have hchange : (⟨m.byKey.set key (changeFirst e.executionId (withInput artifacts) history),
              m.tagsByExecutionId⟩ : Memory)=m.change key e.executionId (withInput artifacts) := by
            unfold Memory.change
            rw [hhistory]
          rw [hchange,hs.executionId]
          exact h.change hl (fun _ => rfl) (fun _ _ hs => hs.withArtifacts artifacts true)
            (unservable_update h (fun _ => rfl) (fun _ => rfl) fun _ => rfl)

/-- A storable execution under a new id is inserted. -/
theorem insertExecution_of {execution : MlExecution} (hs : storable execution=true)
    (hnew : ∀ r∈db.executions,r.executionId≠execution.executionId) (key : ExecutionKey) (now : Timestamp) :
    ∃ db',insertExecution db key execution now=.ok db' := by
  simp only [storable,Bool.and_eq_true] at hs
  obtain ⟨⟨⟨_,hfailure⟩,hartifacts⟩,husage⟩ := hs
  unfold insertExecution
  rw [bindFailure_of hfailure]
  change ∃ db',(if hnew : ∀ r∈db.executions,r.executionId≠execution.executionId then _ else _)=Except.ok db'
  rw [dif_pos hnew,insertArtifacts_of hartifacts,insertTokenUsage_of husage]
  exact ⟨_,rfl⟩

/-- A storable execution under a new id is saved. -/
theorem save_of {execution : MlExecution} (hs : storable execution=true)
    (hnew : ∀ r∈db.executions,r.executionId≠execution.executionId) (now : Timestamp) :
    ∃ db',save execution now db=.ok db' := by
  have htexts := hs
  simp only [storable,Bool.and_eq_true] at htexts
  unfold save upsertIdentity
  rw [bindText_of htexts.1.1.1.1,bindText_of htexts.1.1.1.2]
  refine insertExecution_of hs (fun r hr => ?_) _ now
  split at hr
  · obtain ⟨r',hr',rfl⟩ := Db.mem_updateWhere.mp hr
    rw [insertIdentity_executions] at hr'
    have hid := hnew r' hr'
    split <;> exact hid
  · rw [insertIdentity_executions] at hr
    exact hnew r hr

/-- A saved execution takes the place of the current one if it is servable. -/
theorem atMostOne_saved {execution : MlExecution} {now : Timestamp} {db' : Db}
    (h : db.AtMostOneCurrent) (hsave : save execution now db=.ok db') : db'.AtMostOneCurrent := by
  cases hs : isServable execution with
  | false => exact atMostOne_save h hs hsave
  | true =>
    obtain ⟨id,_,_,hrows,_⟩ := save_ok hsave
    rw [if_pos hs] at hrows
    have hsup := atMostOne_supersede h execution.callIdentity.generateKey now
    intro a ha b hb hkeys hsa hsb
    rw [hrows,List.mem_append,List.mem_singleton] at ha hb
    rcases ha with ha | rfl
    · rcases hb with hb | rfl
      · exact hsup a ha b hb hkeys hsa hsb
      · rw [not_servable_of_superseded ha hkeys] at hsa
        exact absurd hsa Bool.false_ne_true
    · rcases hb with hb | rfl
      · rw [not_servable_of_superseded hb hkeys.symm] at hsb
        exact absurd hsb Bool.false_ne_true
      · rfl

/-- The rows before a save, superseded where the saved execution is servable. -/
def rowsBefore (execution : MlExecution) (now : Timestamp) (db : Db) : List ExecutionRow :=
  (if isServable execution=true then supersedePriorCurrent db execution.callIdentity.generateKey now
    else db).executions

/-- They are the rows that were there, with their ids and tags. -/
theorem row_of_mem_rowsBefore {execution : MlExecution} {now : Timestamp} {r : ExecutionRow}
    (hr : r∈rowsBefore execution now db) :
    ∃ r₀∈db.executions,r.tags=r₀.tags ∧ r.executionId=r₀.executionId := by
  unfold rowsBefore at hr
  split at hr
  · obtain ⟨r₀,hr₀,rfl⟩ := Db.mem_updateWhere.mp hr
    exact ⟨r₀,hr₀,by split <;> rfl,by split <;> rfl⟩
  · exact ⟨r,hr,rfl,rfl⟩

/-- No row is missing among them. -/
theorem exists_rowsBefore (execution : MlExecution) (now : Timestamp) {r₀ : ExecutionRow}
    (hr₀ : r₀∈db.executions) : ∃ r∈rowsBefore execution now db,r.executionId=r₀.executionId := by
  unfold rowsBefore
  split
  · obtain ⟨r,hr,_,hid⟩ : ∃ r∈(supersedePriorCurrent db execution.callIdentity.generateKey now).executions,
        r.id=r₀.id ∧ r.executionId=r₀.executionId := exists_supersedePriorCurrent hr₀
    exact ⟨r,hr,hid⟩
  · exact ⟨r₀,hr₀,rfl⟩

/-- The histories after a save. -/
theorem Matches.history_save (h : Matches resolve m db) (execution : MlExecution) (now : Timestamp)
    (key' : ExecutionKey) : (m.save execution now).history key'=
      (if isServable execution=true then
        (m.history key').map (supersededIn execution.callIdentity.generateKey now) else m.history key') ++
        if key'=execution.callIdentity.generateKey then [dehydrate execution] else [] := by
  have hserv : isServable (dehydrate execution)=isServable execution := rfl
  rw [h.map_superseded]
  unfold Memory.save Memory.history
  dsimp only
  rw [hserv,Dict.get?_set]
  by_cases hsame : key'=execution.callIdentity.generateKey
  · subst hsame
    rw [if_pos rfl,if_pos rfl,if_pos rfl]
    rfl
  · rw [if_neg hsame,if_neg hsame,if_neg hsame,List.append_nil]
    split <;> rfl

/-- The rows of a key before a save stand for what was its history. -/
theorem Matches.histories_before (h : Matches resolve m db) (execution : MlExecution) (now : Timestamp)
    (key' : ExecutionKey) : List.Forall₂ (Stands resolve)
      (if isServable execution=true then
        (m.history key').map (supersededIn execution.callIdentity.generateKey now) else m.history key')
      ((rowsBefore execution now db).filter (hasKey key')) := by
  unfold rowsBefore
  split
  · unfold supersedePriorCurrent
    rw [filter_updateWhere]
    exact List.forall₂_map_left_iff.mpr (List.forall₂_map_right_iff.mpr
      ((h.histories key').imp fun _ _ hs => stands_superseded hs execution.callIdentity.generateKey now))
  · exact h.histories key'

/-- A storable execution under a new id is saved in both stores. -/
theorem Matches.save (h : Matches resolve m db) {execution : MlExecution}
    (hidentity : execution.callIdentity=resolve execution.callIdentity.generateKey)
    (hnew : m.locate execution.executionId=none) (hs : storable execution=true) (now : Timestamp) :
    ∃ db',save execution now db=.ok db' ∧ Matches resolve (m.save execution now) db' := by
  have hfresh := Db.findRow_eq_none.mp (h.findRow_none hnew)
  obtain ⟨db',hsave⟩ := save_of hs hfresh now
  refine ⟨db',hsave,?_⟩
  have hcurrent := atMostOne_saved h.current hsave
  obtain ⟨id,_,_,hrows,hidents⟩ := save_ok hsave
  generalize hrow : insertedRow id execution.callIdentity.generateKey execution now
    (execution.artifacts.map artifactRow) (execution.tokenUsage.map usageRow)=row at hrows
  have hrows : db'.executions=rowsBefore execution now db ++ [row] := hrows
  have hstands : Stands resolve (dehydrate execution) row := by
    rw [← hrow]
    exact stands_inserted id now hidentity
  have hrowKey : row.executionKey=execution.callIdentity.generateKey := by rw [← hrow]; rfl
  have hkeys : ∀ key',key'∈(m.save execution now).byKey.keys ↔
      key'=execution.callIdentity.generateKey ∨ key'∈m.byKey.keys := fun _ => Dict.mem_keys_set
  have htags : (m.save execution now).tagsByExecutionId=m.tagsByExecutionId := rfl
  refine ⟨fun key' => ?_,fun key' hmem => ?_,fun i hi => ?_,fun key' => ?_,fun r hr => ?_,fun id' hid' => ?_,
    hcurrent⟩
  · rw [h.history_save,hrows,List.filter_append]
    refine List.rel_append (h.histories_before execution now key') ?_
    by_cases hsame : key'=execution.callIdentity.generateKey
    · have hp : hasKey key' row=true := (hasKey_iff _ _).mpr (hrowKey.trans hsame.symm)
      rw [if_pos hsame,List.filter_cons_of_pos hp]
      exact .cons hstands .nil
    · have hp : ¬hasKey key' row=true := fun hp =>
        hsame (((hasKey_iff _ _).mp hp).symm.trans hrowKey)
      rw [if_neg hsame,List.filter_cons_of_neg hp]
      exact .nil
  · rw [h.history_save]
    by_cases hsame : key'=execution.callIdentity.generateKey
    · rw [if_pos hsame]
      simp
    · have hmem' := ((hkeys key').mp hmem).resolve_left hsame
      have hne := h.nonempty key' hmem'
      rw [if_neg hsame,List.append_nil]
      split
      · simpa using hne
      · exact hne
  · rw [hidents] at hi
    rcases mem_insertIdentity.2 i hi with hi | rfl
    · exact h.identities i hi
    · exact congrArg Column.value hidentity
  · rw [hidents,hkeys,← h.identified key']
    constructor
    · rintro ⟨i,hi,hik⟩
      rcases mem_insertIdentity.2 i hi with hi | rfl
      · exact .inr ⟨i,hi,hik⟩
      · exact .inl hik.symm
    · rintro (rfl | ⟨i,hi,hik⟩)
      · exact insertIdentity_has db _ _
      · exact ⟨i,mem_insertIdentity.1 i hi,hik⟩
  · rw [hrows,List.mem_append,List.mem_singleton] at hr
    rw [htags]
    rcases hr with hr | rfl
    · obtain ⟨r₀,hr₀,htags₀,hid₀⟩ := row_of_mem_rowsBefore hr
      rw [htags₀,hid₀]
      exact h.tagged r₀ hr₀
    · have hnone : r.tags=[] := by rw [← hrow]; rfl
      rw [hnone,hstands.executionId]
      exact ⟨List.nodup_nil,h.untagged _ fun r' hr' => hfresh r' hr'⟩
  · rw [htags]
    refine h.untagged id' fun r₀ hr₀ he => ?_
    obtain ⟨r,hr,hid⟩ := exists_rowsBefore execution now hr₀
    refine hid' r ?_ (hid.trans he)
    rw [hrows]
    exact List.mem_append_left _ hr

end Changes

end GenericMlCache.StoreSimulation
