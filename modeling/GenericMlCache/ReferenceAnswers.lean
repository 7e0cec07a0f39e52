import GenericMlCache.StoreSimulation
import GenericMlCache.EvictedQuota
import GenericMlCache.GroupedCounts

/-!
# Answers of the two stores

Stores that hold the same answer every query alike, up to times of creation, the order
of unordered results and what a column does not keep. With the writes this gives the
lock step of whole sequences of calls.
-/

namespace GenericMlCache.ReferenceAnswers

open PythonText ExecutionModel SqliteStore ExecutionRepository ExecutionQueries RepositoryCalls OrderedDict
  ReferenceStore StoreSimulation EvictedQuota

/-- What the SQLite store gives back of an execution: whether input is persisted is
derived, and a cost that is no number is not kept. -/
def asStored (e : MlExecution) : MlExecution :=
  { e with
    inputPersisted := e.artifacts.any fun a => a.artifactType.isInput
    tokenUsage := e.tokenUsage.map fun usage => { usage with costUsd := usage.costUsd.bind bindFloat } }

section Loading
variable {resolve : Identities} {m : Memory} {db : Db} {e : MlExecution} {row : ExecutionRow}

/-- Dehydrated artifacts load as themselves. -/
theorem mapM_loadArtifact {artifacts : List Artifact} (h : ∀ a∈artifacts,a.content=none) :
    (artifacts.map artifactRow).mapM loadArtifact=.ok artifacts := by
  induction artifacts with
  | nil => rfl
  | cons a artifacts ih =>
    have hsame : { a with content := none }=a := by rw [← h a List.mem_cons_self]
    rw [List.map_cons,List.mapM_cons,loadArtifact_artifactRow,hsame,
      ih fun a' ha' => h a' (List.mem_cons_of_mem _ ha')]
    rfl

/-- The row of an execution loads as the execution. -/
theorem load_matching (h : Matches resolve m db) (hrow : row∈db.executions) (hs : Stands resolve e row) :
    loadExecution db row=.ok (asStored e) := by
  have hartifacts : loadArtifacts row=.ok e.artifacts := by
    unfold loadArtifacts
    rw [hs.artifacts,mapM_loadArtifact hs.dehydrated]
  have hidentity : loadIdentity db row.executionKey=.ok e.callIdentity := by
    obtain ⟨e',he',_⟩ := h.execution_of hrow
    obtain ⟨i,hi,hik⟩ := (h.identified row.executionKey).mpr (h.mem_keys.mpr (List.ne_nil_of_mem he'))
    unfold loadIdentity
    cases hf : db.callIdentities.find? fun i => decide (i.executionKey=row.executionKey) with
    | none => exact absurd (decide_eq_true hik) (List.find?_eq_none.mp hf i hi)
    | some i' =>
      have hkey : i'.executionKey=row.executionKey := by simpa using List.find?_some hf
      dsimp only
      rw [h.identities i' (List.mem_of_find?_eq_some hf),hkey,hs.identity]
      rfl
  have husage : loadTokenUsage row.tokenUsage=.ok (asStored e).tokenUsage := by
    rw [hs.tokenUsage]
    unfold asStored
    cases e.tokenUsage <;> rfl
  have hfailure : loadFailure row=.ok e.failure := by
    unfold loadFailure
    have hreason : row.failureReason=e.failure.map fun f => .value f.reason := by rw [hs.columns]; rfl
    have hmessage : row.failureMessage=e.failure.map (·.message) := by rw [hs.columns]; rfl
    have hcode : row.failureExitCode=e.failure.bind (·.exitCode) := by rw [hs.columns]; rfl
    rw [hreason,hmessage,hcode]
    cases e.failure <;> rfl
  have hsup : loadSupersededAt row=.ok e.supersededAt := by
    unfold loadSupersededAt
    rw [hs.supersededAt]
    cases e.supersededAt <;> rfl
  have hcolumns : loadColumns db row e.artifacts=.ok (asStored e) := by
    unfold loadColumns
    rw [hidentity,hs.state,hs.kind,husage,hfailure,hsup,hs.outputPersisted,hs.executionId]
    rfl
  unfold loadExecution
  rw [hartifacts]
  simp only [bind,Except.bind,hcolumns]
  rfl

/-- The current execution is found alike. -/
theorem findCurrent_matching (h : Matches resolve m db) (key : ExecutionKey) :
    findCurrent key db=.ok ((m.findCurrent key).map asStored) := by
  unfold ExecutionQueries.findCurrent
  cases hf : m.findCurrent key with
  | none =>
    rw [h.current_none hf]
    rfl
  | some e =>
    obtain ⟨_,_,row,hrow,hs⟩ := h.current_some hf
    rw [hrow]
    dsimp only
    rw [load_matching h (Db.currentRow_mem hrow).1 hs]
    rfl

/-- All executions of a key are found alike, in order. -/
theorem findAll_matching (h : Matches resolve m db) (key : ExecutionKey) :
    findAll key db=.ok ((m.history key).map asStored) := by
  have hmem : ∀ row∈db.executions.filter (hasKey key),row∈db.executions := fun row hrow =>
    List.mem_of_mem_filter hrow
  have hall := h.histories key
  unfold ExecutionQueries.findAll
  generalize db.executions.filter (hasKey key)=rows at hmem hall
  generalize m.history key=es at hall
  induction hall with
  | nil => rfl
  | cons hs _ ih =>
    rw [List.mapM_cons,load_matching h (hmem _ List.mem_cons_self) hs,
      ih fun row hrow => hmem row (List.mem_cons_of_mem _ hrow)]
    rfl

end Loading

section Reports
variable {resolve : Identities} {m : Memory} {db : Db} {key : ExecutionKey} {e : MlExecution} {row : ExecutionRow}

/-- The executions of the dictionary, key by key, stand for the rows of the table in some order. -/
theorem rows_matching (h : Matches resolve m db) :
    ∃ rows,rows.Perm db.executions ∧ List.Forall₂ (Stands resolve) m.executions rows := by
  refine ⟨m.byKey.keys.flatMap fun key => db.executions.filter (hasKey key),?_,?_⟩
  · refine perm_groups m.byKey.keysUnique fun row hrow => ?_
    obtain ⟨e,he,_⟩ := h.execution_of hrow
    exact h.mem_keys.mpr (List.ne_nil_of_mem he)
  · unfold Memory.executions Dict.keys
    rw [List.flatMap_map]
    refine forall₂_flatMap fun item hitem => ?_
    have hhistory : m.history item.1=item.2 := by
      unfold Memory.history
      rw [Dict.mem_items.mp hitem]
      rfl
    rw [← hhistory]
    exact h.histories item.1

/-- Servable executions and rows correspond. -/
theorem servable_matching {es : List MlExecution} {rows : List ExecutionRow}
    (h : List.Forall₂ (Stands resolve) es rows) :
    List.Forall₂ (Stands resolve) (es.filter isServable) (rows.filter fun row => row.servable) :=
  List.rel_filter (fun _ _ hs => by dsimp only; rw [hs.servable]) h

/-- The artifacts of an execution and of its row have the same sizes. -/
theorem bytes_matching (hs : Stands resolve e row) : artifactBytes row=storedBytes e := by
  unfold artifactBytes storedBytes
  rw [hs.artifacts,List.map_map]
  rfl

/-- The servable executions list a measure as the current rows do, in some order. -/
theorem current_perm (h : Matches resolve m db) {β : Type} {f : MlExecution → β} {g : ExecutionRow → β}
    (hfg : ∀ e row,Stands resolve e row → g row=f e) :
    ((currentRows db).map g).Perm ((m.executions.filter isServable).map f) := by
  obtain ⟨rows,hperm,hrows⟩ := rows_matching h
  have hmap : ∀ {es : List MlExecution} {rows : List ExecutionRow},
      List.Forall₂ (Stands resolve) es rows → rows.map g=es.map f := by
    intro es rows hall
    induction hall with
    | nil => rfl
    | cons hs _ ih => rw [List.map_cons,List.map_cons,hfg _ _ hs,ih]
  rw [← hmap (servable_matching hrows)]
  exact (hperm.symm.filter _).map g

/-- The stored bytes are the same. -/
theorem totalStoredBytes_matching (h : Matches resolve m db) :
    totalStoredBytes db=m.totalStoredBytes :=
  (current_perm h fun _ _ hs => bytes_matching hs).sum_eq

/-- The sizes are the same, in some order. -/
theorem sizes_matching (h : Matches resolve m db) :
    ((currentExecutionsWithSizes db).map fun entry => (entry.executionKey,entry.totalSizeBytes)).Perm
      m.currentExecutionsWithSizes := by
  rw [currentExecutionsWithSizes_eq h.current,List.map_map]
  have hmemory : m.currentExecutionsWithSizes=
      (m.executions.filter isServable).map fun e => (e.callIdentity.generateKey,storedBytes e) := by
    unfold Memory.currentExecutionsWithSizes Memory.executions
    rw [List.filter_flatMap,List.map_flatMap]
    refine List.flatMap_congr fun item hitem => List.map_congr_left fun e he => ?_
    have hin : e∈m.history item.1 := by
      unfold Memory.history
      rw [Dict.mem_items.mp hitem]
      exact List.mem_of_mem_filter he
    rw [h.key_of hin]
  rw [hmemory]
  refine current_perm h fun e row hs => ?_
  dsimp only [Function.comp,entryOf]
  rw [hs.executionKey,bytes_matching hs]

/-- The keys are the same, in some order. -/
theorem keys_matching (h : Matches resolve m db) : (allExecutionKeys db).Perm m.byKey.keys := by
  refine (List.perm_insertionSort _ _).trans ?_
  refine (List.perm_ext_iff_of_nodup (List.pairwise_map.mpr db.identityKeysUnique)
    m.byKey.keysUnique).mpr fun key => ?_
  rw [List.mem_map]
  exact h.identified key

/-- The keys under a tag are the same, in some order. -/
theorem tagged_matching (h : Matches resolve m db) (tag : PyStr) :
    (executionsByTag tag db).Perm (m.executionsByTag tag) := by
  have hnodup : (((currentRows db).filter fun row => decide (tag∈row.tags)).map
      fun row => row.executionKey).Nodup := (currentRows_keys h.current).sublist (List.filter_sublist.map _)
  unfold executionsByTag Memory.executionsByTag
  rw [eraseDups_of_nodup hnodup]
  refine (List.perm_ext_iff_of_nodup hnodup (m.byKey.keysUnique.filter _)).mpr fun key => ?_
  rw [List.mem_filter,List.mem_map]
  constructor
  · rintro ⟨row,hrow,rfl⟩
    obtain ⟨hrow,htag⟩ := List.mem_filter.mp hrow
    obtain ⟨hmem,hserv⟩ := List.mem_filter.mp hrow
    obtain ⟨e,he,hs⟩ := h.execution_of hmem
    have hcurrent := h.current.currentRow hmem hserv
    refine ⟨h.mem_keys.mpr (List.ne_nil_of_mem he),?_⟩
    cases hf : m.findCurrent row.executionKey with
    | none =>
      rw [h.current_none hf] at hcurrent
      exact nomatch hcurrent
    | some e' =>
      obtain ⟨_,_,row',hrow',hs'⟩ := h.current_some hf
      rw [hcurrent] at hrow'
      cases hrow'
      dsimp only
      rw [← hs'.executionId,(h.tagged row hmem).2]
      simpa using htag
  · rintro ⟨_,htag⟩
    cases hf : m.findCurrent key with
    | none =>
      rw [hf] at htag
      exact nomatch htag
    | some e =>
      obtain ⟨_,_,row,hrow,hs⟩ := h.current_some hf
      obtain ⟨hmem,hkey,hserv⟩ := Db.currentRow_mem hrow
      rw [hf] at htag
      dsimp only at htag
      rw [← hs.executionId,(h.tagged row hmem).2] at htag
      exact ⟨row,List.mem_filter.mpr ⟨List.mem_filter.mpr ⟨hmem,hserv⟩,by simpa using htag⟩,hkey⟩

/-- The tags of a key's current execution are the same, sorted. -/
theorem tags_matching (h : Matches resolve m db) (key : ExecutionKey) : tagsFor key db=m.tagsFor key := by
  unfold tagsFor Memory.tagsFor
  cases hf : m.findCurrent key with
  | none => rw [h.current_none hf]
  | some e =>
    obtain ⟨_,_,row,hrow,hs⟩ := h.current_some hf
    obtain ⟨hnodup,htags⟩ := h.tagged row (Db.currentRow_mem hrow).1
    rw [hrow]
    dsimp only
    rw [← hs.executionId,htags]
    have hperm : (row.tags.toFinset.sort (· ≤ ·)).Perm (row.tags.insertionSort (· ≤ ·)) := by
      refine (List.perm_ext_iff_of_nodup (Finset.sort_nodup _ _)
        ((List.perm_insertionSort _ _).nodup_iff.mpr hnodup)).mpr fun tag => ?_
      simp
    exact (hperm.eq_of_pairwise' (Finset.pairwise_sort _ _) (List.pairwise_insertionSort _ _)).symm

/-- A column of texts of its vocabulary decodes. -/
theorem mapM_decode {α : Type} (l : List α) : (l.map Column.value).mapM Column.decode=.ok l := by
  induction l with
  | nil => rfl
  | cons a l ih =>
    rw [List.map_cons,List.mapM_cons,ih]
    rfl

/-- Equal columns are equal texts. -/
theorem eraseDups_value {α : Type} [DecidableEq α] (l : List α) :
    (l.map Column.value).eraseDups=l.eraseDups.map Column.value := by
  induction l using List.reverseRecOn with
  | nil => rfl
  | append_singleton l a ih =>
    rw [List.map_append,List.map_singleton,GroupedCounts.eraseDups_concat,GroupedCounts.eraseDups_concat,ih]
    by_cases hmem : a∈l.eraseDups
    · have hmem' : Column.value a∈l.eraseDups.map Column.value := List.mem_map_of_mem hmem
      rw [if_pos hmem,if_pos hmem']
    · have hmem' : Column.value a∉l.eraseDups.map Column.value := by
        intro hin
        obtain ⟨b,hb,heq⟩ := List.mem_map.mp hin
        cases heq
        exact hmem hb
      rw [if_neg hmem,if_neg hmem',List.map_append,List.map_singleton]

/-- The blob keys of a key are the same. -/
theorem blobKeys_matching (h : Matches resolve m db) (key : ExecutionKey) :
    blobKeysForExecution key db=.ok (m.blobKeysForExecution key) := by
  have hkeys : ∀ {es : List MlExecution} {rows : List ExecutionRow},List.Forall₂ (Stands resolve) es rows →
      (rows.flatMap fun row => row.artifacts).map (·.blobKey)=
        ((es.flatMap (·.artifacts)).map (·.blobKey)).map Column.value := by
    intro es rows hall
    induction hall with
    | nil => rfl
    | cons hs _ ih =>
      rw [List.flatMap_cons,List.flatMap_cons,List.map_append,List.map_append,List.map_append,ih,hs.artifacts]
      simp only [List.map_map]
      rfl
  unfold blobKeysForExecution Memory.blobKeysForExecution
  rw [hkeys (h.histories key),eraseDups_value,mapM_decode]

/-- The last of an increasing list is its largest. -/
theorem getLast?_eq_some_iff {α : Type} {f : α → ℕ} {l : List α} (hl : l.Pairwise fun a b => f a < f b) (a : α) :
    l.getLast?=some a ↔ a∈l ∧ ∀ b∈l,f b ≤ f a := by
  induction l using List.reverseRecOn with
  | nil => simp
  | append_singleton l x _ =>
    have hless : ∀ b∈l,f b < f x := fun b hb => (List.pairwise_append.mp hl).2.2 b hb x (List.mem_singleton_self x)
    rw [List.getLast?_append_of_ne_nil _ (List.cons_ne_nil x []),List.getLast?_singleton,Option.some_inj]
    constructor
    · rintro rfl
      refine ⟨List.mem_append_right _ (List.mem_singleton_self x),fun b hb => ?_⟩
      rcases List.mem_append.mp hb with hb | hb
      · exact (hless b hb).le
      · rw [List.mem_singleton.mp hb]
    · rintro ⟨ha,hmax⟩
      rcases List.mem_append.mp ha with ha | ha
      · exact absurd (hmax x (List.mem_append_right _ (List.mem_singleton_self x))) (not_le.mpr (hless a ha))
      · exact (List.mem_singleton.mp ha).symm

/-- The last elements of corresponding lists correspond. -/
theorem getLast?_matching {α β : Type} {R : α → β → Prop} {as : List α} {bs : List β}
    (h : List.Forall₂ R as bs) : Option.Rel R as.getLast? bs.getLast? := by
  induction h with
  | nil => exact .none
  | cons hd htl ih =>
    cases htl with
    | nil => exact .some hd
    | cons hd' htl' =>
      rw [List.getLast?_cons_cons,List.getLast?_cons_cons]
      exact ih

/-- The latest row of a key is the last one. -/
theorem latest_iff {db : Db} {row : ExecutionRow} :
    (row∈db.executions ∧ isLatest db row=true) ↔
      (db.executions.filter (hasKey row.executionKey)).getLast?=some row := by
  rw [getLast?_eq_some_iff (f := fun row : ExecutionRow => row.id) (db.idsSorted.filter _)]
  simp only [isLatest,List.mem_filter,hasKey_iff,and_true,List.all_eq_true,Bool.or_eq_true,decide_eq_true_eq,
    ne_eq]
  refine and_congr_right fun _ => ⟨fun hall r hr => (hall r hr.1).resolve_left (not_not.mpr hr.2),fun hall r hr => ?_⟩
  by_cases hkey : r.executionKey=row.executionKey
  · exact .inr (hall r ⟨hr,hkey⟩)
  · exact .inl hkey

/-- The entry of a row is that of its execution. -/
theorem unpersistedRun_matching (hs : Stands resolve e row) :
    unpersistedRun row=.ok ⟨row.executionKey,row.executionId,unstoredKeys e⟩ := by
  have hkeys : (row.artifacts.filter notStored).mapM (fun a => a.blobKey.decode)=
      .ok ((e.artifacts.filter fun a => decide (a.status≠.stored)).map (·.blobKey)) := by
    have hfilter : row.artifacts.filter notStored=
        (e.artifacts.filter fun a => decide (a.status≠.stored)).map artifactRow := by
      rw [hs.artifacts,List.filter_map]
      refine congrArg _ (List.filter_congr fun a _ => ?_)
      simp [notStored,artifactRow]
    rw [hfilter]
    generalize e.artifacts.filter (fun a => decide (a.status≠.stored))=artifacts
    induction artifacts with
    | nil => rfl
    | cons a artifacts ih =>
      rw [List.map_cons,List.mapM_cons,ih]
      rfl
  unfold unpersistedRun
  rw [hkeys]
  rfl

/-- An un-stored artifact has an un-stored key. -/
theorem unstored_matching (hs : Stands resolve e row) :
    row.artifacts.any notStored=true ↔ unstoredKeys e≠[] := by
  have hnil : unstoredKeys e=[] ↔ ∀ a∈e.artifacts,a.status=.stored := by
    rw [List.eq_nil_iff_forall_not_mem]
    simp only [unstoredKeys,List.mem_eraseDups,List.mem_map,List.mem_filter,decide_eq_true_eq]
    constructor
    · intro hnone a ha
      by_contra hne
      exact hnone a.blobKey ⟨a,⟨ha,hne⟩,rfl⟩
    · rintro hall _ ⟨a,⟨ha,hne⟩,rfl⟩
      exact hne (hall a ha)
  rw [ne_eq,hnil,hs.artifacts,List.any_map,List.any_eq_true]
  simp [notStored,artifactRow]

/-- The runs of the reference store are those of the awaiting rows. -/
theorem mem_runs_matching (h : Matches resolve m db) {run : UnpersistedRun} :
    run∈m.runsAwaitingPersistence ↔
      ∃ row∈db.executions,isAwaiting db row=true ∧ unpersistedRun row=.ok run := by
  have hlast : ∀ key,Option.Rel (Stands resolve) (m.history key).getLast?
      (db.executions.filter (hasKey key)).getLast? := fun key => getLast?_matching (h.histories key)
  constructor
  · intro hrun
    obtain ⟨item,hitem,hsome⟩ := List.mem_filterMap.mp hrun
    have hhistory : m.history item.1=item.2 := by
      unfold Memory.history
      rw [Dict.mem_items.mp hitem]
      rfl
    have hrel := hlast item.1
    rw [hhistory] at hrel
    unfold awaitingRun at hsome
    cases he : item.2.getLast? with
    | none =>
      rw [he] at hsome
      cases hsome
    | some e =>
      rw [he] at hsome hrel
      dsimp only at hsome
      split at hsome
      next => cases hsome
      next hopen =>
        cases hsome
        rw [not_or] at hopen
        cases hr : (db.executions.filter (hasKey item.1)).getLast? with
        | none =>
          rw [hr] at hrel
          cases hrel
        | some row =>
          rw [hr] at hrel
          cases hrel with
          | some hs =>
            have hkey : row.executionKey=item.1 := by
              simpa using (List.mem_filter.mp (List.mem_of_getLast? hr)).2
            rw [← hkey] at hr
            obtain ⟨hmem,hlatest⟩ := latest_iff.mpr hr
            refine ⟨row,hmem,?_,?_⟩
            · simp only [isAwaiting,Bool.and_eq_true,Bool.not_eq_true']
              refine ⟨⟨?_,(unstored_matching hs).mpr hopen.2⟩,hlatest⟩
              rw [hs.outputPersisted]
              simpa using hopen.1
            · rw [unpersistedRun_matching hs,hkey,hs.executionId]
  · rintro ⟨row,hmem,hawaiting,hrun⟩
    simp only [isAwaiting,Bool.and_eq_true,Bool.not_eq_true'] at hawaiting
    obtain ⟨⟨hopen,hunstored⟩,hlatest⟩ := hawaiting
    have hr := latest_iff.mp ⟨hmem,hlatest⟩
    have hrel := hlast row.executionKey
    rw [hr] at hrel
    cases he : (m.history row.executionKey).getLast? with
    | none =>
      rw [he] at hrel
      cases hrel
    | some e =>
      rw [he] at hrel
      cases hrel with
      | some hs =>
        have hget : m.byKey.get? row.executionKey=some (m.history row.executionKey) := by
          unfold Memory.history at he ⊢
          cases hg : m.byKey.get? row.executionKey with
          | none =>
            rw [hg] at he
            cases he
          | some history => rfl
        refine List.mem_filterMap.mpr ⟨_,Dict.mem_items.mpr hget,?_⟩
        unfold awaitingRun
        rw [he]
        rw [unpersistedRun_matching hs] at hrun
        cases hrun
        dsimp only
        rw [if_neg,hs.executionId]
        rw [not_or]
        refine ⟨?_,(unstored_matching hs).mp hunstored⟩
        rw [← hs.outputPersisted,hopen]
        exact Bool.false_ne_true

/-- The runs awaiting persistence are the same, in some order. -/
theorem runs_matching (h : Matches resolve m db) :
    ∃ runs,runsAwaitingPersistence db=.ok runs ∧ runs.Perm m.runsAwaitingPersistence := by
  have hone : ∀ row∈(db.executions.filter (isAwaiting db)).insertionSort (fun r r' =>
      r.executionKey.digest ≤ r'.executionKey.digest),∃ run,unpersistedRun row=.ok run := by
    intro row hrow
    obtain ⟨hmem,_⟩ := List.mem_filter.mp ((List.mem_insertionSort _).mp hrow)
    obtain ⟨e,_,hs⟩ := h.execution_of hmem
    exact ⟨_,unpersistedRun_matching hs⟩
  obtain ⟨runs,hruns⟩ := mapM_total hone
  have hok : runsAwaitingPersistence db=.ok runs := hruns
  obtain ⟨hlisted,hall⟩ := runsAwaitingPersistence_ok hok
  refine ⟨runs,hok,?_⟩
  have hkeys : runs.map (·.executionKey)=((db.executions.filter (isAwaiting db)).insertionSort fun r r' =>
      r.executionKey.digest ≤ r'.executionKey.digest).map fun row => row.executionKey := by
    have hpairs := forall₂_of_mapM hruns
    clear hruns hok hlisted hall hone
    generalize (db.executions.filter (isAwaiting db)).insertionSort (fun r r' =>
      r.executionKey.digest ≤ r'.executionKey.digest)=rows at hpairs
    induction hpairs with
    | nil => rfl
    | cons hd _ ih => rw [List.map_cons,List.map_cons,ih,(unpersistedRun_ok hd).1]
  have hlatest : ((db.executions.filter (isAwaiting db)).map fun row => row.executionKey).Nodup := by
    have hdistinct : (db.executions.filter (isAwaiting db)).Pairwise fun r r' => r.id < r'.id :=
      db.idsSorted.filter _
    refine List.pairwise_map.mpr (hdistinct.imp_of_mem fun {r r'} hr hr' hlt hkey => ?_)
    obtain ⟨_,haw⟩ := List.mem_filter.mp hr
    obtain ⟨hmem',_⟩ := List.mem_filter.mp hr'
    exact absurd ((isAwaiting_iff.mp haw).2.2 r' hmem' hkey.symm) (not_le.mpr hlt)
  have hnodup : runs.Nodup := by
    refine List.Nodup.of_map (·.executionKey) ?_
    rw [hkeys]
    exact ((List.perm_insertionSort _ _).map _).nodup_iff.mpr hlatest
  have hmemory : m.runsAwaitingPersistence.Nodup := by
    refine List.Nodup.of_map (·.executionKey) ?_
    refine m.byKey.keysUnique.sublist ?_
    unfold Memory.runsAwaitingPersistence
    generalize m.byKey.items=items
    induction items with
    | nil => exact .slnil
    | cons item items ih =>
      cases ha : awaitingRun item with
      | none =>
        rw [List.filterMap_cons_none ha]
        exact ih.cons _
      | some run =>
        rw [List.filterMap_cons_some ha,List.map_cons,List.map_cons]
        have hkey : run.executionKey=item.1 := by
          unfold awaitingRun at ha
          split at ha
          · exact nomatch ha
          · split at ha
            · exact nomatch ha
            · cases ha
              rfl
        rw [hkey]
        exact ih.cons_cons _
  refine (List.perm_ext_iff_of_nodup hnodup hmemory).mpr fun run => ?_
  rw [mem_runs_matching h]
  constructor
  · exact fun hrun => hlisted run hrun
  · rintro ⟨row,hrow,haw,hu⟩
    obtain ⟨run',hrun',hu'⟩ := hall row hrow haw
    rw [hu] at hu'
    cases hu'
    exact hrun'

end Reports

/-- The answers to one call are the same. -/
def SameAnswer : (call : StoreCall) → MemoryRet call → call.Ret → Prop
  | .findCurrent _ => fun (a b : Option MlExecution) => b=a.map asStored
  | .findAll _ => fun (a b : List MlExecution) => b=a.map asStored
  | .runsAwaitingPersistence => fun (a b : List UnpersistedRun) => b.Perm a
  | .totalStoredBytes => fun (a b : ℕ) => b=a
  | .currentExecutionsWithSizes => fun (a : List (ExecutionKey × ℕ)) (b : List ExecutionSizeEntry) =>
      (b.map fun entry => (entry.executionKey,entry.totalSizeBytes)).Perm a
  | .executionsByTag _ => fun (a b : List ExecutionKey) => b.Perm a
  | .allExecutionKeys => fun (a b : List ExecutionKey) => b.Perm a
  | _ => fun _ _ => True

/-- Both calls raise a StoreConsistencyError, or both return with the same answer. -/
def SameOutcome (call : StoreCall) : Except PyExc (MemoryRet call × Memory) →
    Except PyExc (call.Ret × Db) → Prop
  | .ok (a,_),.ok (b,_) => SameAnswer call a b
  | .error (.storeConsistency _),.error (.storeConsistency _) => True
  | _,_ => False

/-- The store after a call; a call that raises leaves it as it was. -/
def settle {σ α : Type} (s : σ) : Except PyExc (α × σ) → σ
  | .ok (_,s') => s'
  | .error _ => s

/-- What both stores accept. A saved execution has a new id and the identity its key stands
for; an outcome meets a run without usage and does not make a second execution of its key
servable; values fit their columns. -/
def Admits (resolve : Identities) (m : Memory) : StoreCall → Prop
  | .save execution => execution.callIdentity=resolve execution.callIdentity.generateKey ∧
      m.locate execution.executionId=none ∧ storable execution=true
  | .recordOutcome execution => storableFailure execution.failure=true ∧
      execution.tokenUsage.all TokenUsage.storable=true ∧
      ∀ key stored,m.locate execution.executionId=some (key,stored) → stored.tokenUsage=none ∧
        (isServable { stored with executionState := execution.executionState }=true →
          ∀ e∈m.history key,isServable e=true → e.executionId=execution.executionId)
  | .persistArtifact _ artifact => Artifact.storable artifact=true
  | .markArtifactsFailed _ _ detail => encodable detail=true
  | .addTags _ tags => tags.all encodable=true
  | .addInputArtifacts _ artifacts => artifacts.all Artifact.storable=true
  | _ => True

/-- The reference store after calls at their times. -/
def runMemory (m : Memory) (calls : List (Timestamp × StoreCall)) : Memory :=
  calls.foldl (fun m c => settle m (m.perform c.1 c.2)) m

/-- The SQLite store after calls at their times. -/
def runSqlite (db : Db) (calls : List (Timestamp × StoreCall)) : Db :=
  calls.foldl (fun db c => settle db (transact c.1 db c.2)) db

/-- Every call is accepted in the state the calls before it left. -/
def Admitted (resolve : Identities) : Memory → List (Timestamp × StoreCall) → Prop
  | _,[] => True
  | m,c::rest => Admits resolve m c.2 ∧ Admitted resolve (settle m (m.perform c.1 c.2)) rest

section Runs
variable {resolve : Identities} {m : Memory} {db : Db}

/-- Transactions in parallel are answered alike and leave stores that hold the same. -/
theorem parallel_outcome (call : StoreCall) {x : Except PyExc Memory} {y : Except PyExc Db}
    (h : Matches resolve m db) (hp : Parallel resolve x y) (unit : MemoryRet call) (unit' : call.Ret)
    (hsame : SameAnswer call unit unit') :
    SameOutcome call (x.map fun m => (unit,m)) (y.map fun db => (unit',db)) ∧
      Matches resolve (settle m (x.map fun m => (unit,m))) (settle db (y.map fun db => (unit',db))) := by
  cases hp with
  | raised fault fault' => exact ⟨trivial,h⟩
  | done h' => exact ⟨hsame,h'⟩

/-- An accepted call is answered alike by stores that hold the same, and they do afterwards. -/
theorem perform_matching (h : Matches resolve m db) (now : Timestamp) {call : StoreCall}
    (hc : Admits resolve m call) :
    SameOutcome call (m.perform now call) (transact now db call) ∧
      Matches resolve (settle m (m.perform now call)) (settle db (transact now db call)) := by
  cases call with
  | findCurrent key =>
    have ht : transact now db (.findCurrent key)=.ok ((m.findCurrent key).map asStored,db) :=
      reading_ok.mpr ⟨findCurrent_matching h key,rfl⟩
    rw [ht]
    exact ⟨rfl,h⟩
  | findAll key =>
    have ht : transact now db (.findAll key)=.ok ((m.history key).map asStored,db) :=
      reading_ok.mpr ⟨findAll_matching h key,rfl⟩
    rw [ht]
    exact ⟨rfl,h⟩
  | save execution =>
    obtain ⟨hidentity,hnew,hs⟩ := hc
    obtain ⟨db',hsave,hm⟩ := h.save hidentity hnew hs now
    have ht : transact now db (.save execution)=.ok ((),db') := commit_ok.mpr hsave
    rw [ht]
    exact ⟨trivial,hm⟩
  | recordOutcome execution =>
    exact parallel_outcome (.recordOutcome execution) h (h.outcome hc.1 hc.2.1 hc.2.2) () () trivial
  | persistArtifact id artifact =>
    exact parallel_outcome (.persistArtifact id artifact) h (h.persist id hc) () () trivial
  | markArtifactsStored id blobKey =>
    have hp : Parallel resolve (m.markArtifacts id blobKey (resolveStored now))
        (markArtifacts id blobKey (storedMark now) db) := h.mark id (fun _ => rfl) fun _ => rfl
    exact parallel_outcome (.markArtifactsStored id blobKey) h hp () () trivial
  | markArtifactsFailed id blobKey detail =>
    have hbind : markArtifactsFailed id blobKey detail db=markArtifacts id blobKey (failedMark detail) db := by
      unfold markArtifactsFailed
      rw [bindText_of hc]
      rfl
    have ht : transact now db (.markArtifactsFailed id blobKey detail)=
        commit (markArtifacts id blobKey (failedMark detail) db) := congrArg commit hbind
    rw [ht]
    have hp : Parallel resolve (m.markArtifacts id blobKey (resolveFailed detail))
        (markArtifacts id blobKey (failedMark detail) db) := h.mark id (fun _ => rfl) fun _ => rfl
    exact parallel_outcome (.markArtifactsFailed id blobKey detail) h hp () () trivial
  | finalizeOutputPersisted id =>
    exact parallel_outcome (.finalizeOutputPersisted id) h (h.finalize id now) () () trivial
  | removeExecution id => exact ⟨trivial,h.remove id⟩
  | addTags key tags =>
    obtain ⟨db',htags,hm⟩ := h.addTags key hc
    have ht : transact now db (.addTags key tags)=.ok ((),db') := commit_ok.mpr htags
    rw [ht]
    exact ⟨trivial,hm⟩
  | addInputArtifacts key artifacts =>
    obtain ⟨db',hinput,hm⟩ := h.addInputArtifacts key hc
    have ht : transact now db (.addInputArtifacts key artifacts)=.ok ((),db') := commit_ok.mpr hinput
    rw [ht]
    exact ⟨trivial,hm⟩
  | runsAwaitingPersistence =>
    obtain ⟨runs,hruns,hperm⟩ := runs_matching h
    have ht : transact now db .runsAwaitingPersistence=.ok (runs,db) := reading_ok.mpr ⟨hruns,rfl⟩
    rw [ht]
    exact ⟨hperm,h⟩
  | softPurgeExecution key => exact ⟨trivial,h.softPurge key⟩
  | hardDeleteExecution key => exact ⟨trivial,h.hardDelete key⟩
  | totalStoredBytes => exact ⟨totalStoredBytes_matching h,h⟩
  | currentExecutionsWithSizes => exact ⟨sizes_matching h,h⟩
  | executionsByTag tag => exact ⟨tagged_matching h tag,h⟩
  | allExecutionKeys => exact ⟨keys_matching h,h⟩

/-- After accepted calls the stores hold the same. -/
theorem matches_run {calls : List (Timestamp × StoreCall)} (h : Matches resolve m db)
    (hc : Admitted resolve m calls) : Matches resolve (runMemory m calls) (runSqlite db calls) := by
  induction calls generalizing m db with
  | nil => exact h
  | cons c calls ih => exact ih (perform_matching h c.1 hc.1).2 hc.2

/-- Accepted calls are accepted up to any point, and from there on. -/
theorem admitted_append {before rest : List (Timestamp × StoreCall)} (hc : Admitted resolve m (before ++ rest)) :
    Admitted resolve m before ∧ Admitted resolve (runMemory m before) rest := by
  induction before generalizing m with
  | nil => exact ⟨trivial,hc⟩
  | cons c before ih => exact ⟨⟨hc.1,(ih hc.2).1⟩,(ih hc.2).2⟩

/-- Along any sequence of accepted calls every call raises in both stores or is answered by
both alike, and so are the tags and the blob keys of every key afterwards. -/
theorem reference_simulates {calls : List (Timestamp × StoreCall)} (hc : Admitted resolve Memory.empty calls) :
    (∀ before c,before ++ [c] <+: calls →
      SameOutcome c.2 ((runMemory Memory.empty before).perform c.1 c.2)
        (transact c.1 (runSqlite Db.empty before) c.2)) ∧
    (∀ key,tagsFor key (runSqlite Db.empty calls)=(runMemory Memory.empty calls).tagsFor key) ∧
    ∀ key,blobKeysForExecution key (runSqlite Db.empty calls)=
      .ok ((runMemory Memory.empty calls).blobKeysForExecution key) := by
  have hend := matches_run (Matches.empty resolve) hc
  refine ⟨fun before c hpre => ?_,fun key => tags_matching hend key,fun key => blobKeys_matching hend key⟩
  obtain ⟨rest,rfl⟩ := hpre
  obtain ⟨hbefore,hlast⟩ := admitted_append (admitted_append hc).1
  exact (perform_matching (matches_run (Matches.empty resolve) hbefore) c.1 hlast.1).1

end Runs

/-- The one identity of the example. -/
def asked : CallIdentity := ⟨⟨1⟩,pyStr "claude",pyStr "opus"⟩

/-- A run of it that is in progress. -/
def pendingRun (uuid : ℕ) : MlExecution where
  callIdentity := asked
  executionState := .inProgress
  executionKind := .localManaged
  outputPersisted := false
  executionId := ⟨uuid⟩

/-- The same run, succeeded. -/
def succeededRun (uuid : ℕ) : MlExecution :=
  { pendingRun uuid with
    executionState := .success
    tokenUsage := some { inputTokens := some 3 } }

/-- Its standard output. -/
def printed : Artifact where
  artifactType := .stdout
  blobKey := .forExecution ⟨1⟩ 7
  sizeBytes := .bytes 2
  content := some [1,2]
  status := .pending

/-- One run recorded and tagged, a second one finalized over it, and a mark that misses. -/
def recordedRuns : List (Timestamp × StoreCall) :=
  [(1,.save (pendingRun 1)),(2,.recordOutcome (succeededRun 1)),(3,.persistArtifact ⟨1⟩ printed),
    (4,.markArtifactsStored ⟨1⟩ (.forExecution ⟨1⟩ 7)),(5,.finalizeOutputPersisted ⟨1⟩),
    (6,.addTags ⟨1⟩ [pyStr "nightly"]),(7,.save (pendingRun 2)),(8,.recordOutcome (succeededRun 2)),
    (9,.finalizeOutputPersisted ⟨2⟩),(10,.markArtifactsStored ⟨2⟩ (.forExecution ⟨1⟩ 7)),
    (11,.findCurrent ⟨1⟩),(12,.currentExecutionsWithSizes)]

/-- The two runs are answered by both stores alike. -/
theorem reference_simulates_recorded :
    Admitted (fun _ => asked) Memory.empty recordedRuns ∧
    (∀ before c,before ++ [c] <+: recordedRuns →
      SameOutcome c.2 ((runMemory Memory.empty before).perform c.1 c.2)
        (transact c.1 (runSqlite Db.empty before) c.2)) ∧
    (∀ key,tagsFor key (runSqlite Db.empty recordedRuns)=(runMemory Memory.empty recordedRuns).tagsFor key) ∧
    ∀ key,blobKeysForExecution key (runSqlite Db.empty recordedRuns)=
      .ok ((runMemory Memory.empty recordedRuns).blobKeysForExecution key) := by
  have hprinted : Artifact.storable printed=true := by decide
  have htags : [pyStr "nightly"].all encodable=true := by decide
  have hc : Admitted (fun _ => asked) Memory.empty recordedRuns := by
    refine ⟨⟨rfl,rfl,by decide⟩,⟨by decide,by decide,fun key stored hl => ?_⟩,hprinted,trivial,trivial,htags,
      ⟨rfl,rfl,by decide⟩,⟨by decide,by decide,fun key stored hl => ?_⟩,trivial,trivial,trivial,trivial,trivial⟩
    · cases hl
      exact ⟨rfl,fun hs => nomatch hs⟩
    · cases hl
      exact ⟨rfl,fun hs => nomatch hs⟩
  exact ⟨hc,reference_simulates hc⟩

end GenericMlCache.ReferenceAnswers
