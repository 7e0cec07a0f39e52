import GenericMlCache.PurgeRuns

/-!
# What a hard delete leaves

A hard delete loads the executions of each key to learn their blobs, before it
deletes the key's rows, and adds up their sizes while it removes the blobs. A
row that does not load ends it before its key, a size that is a text ends it
among its key's blobs, so it erases the store exactly where every row decodes
and every size that it adds is a number.
-/

namespace GenericMlCache.ErasedKeys

open CallProgram PythonText ExecutionModel SqliteStore ExecutionRepository ExecutionQueries RepositoryCalls
  ServicePorts StorePurge UndisturbedRuns PurgeRuns

/-- Nothing of the keys is left: no row, with its artifacts, usage and tags, no
identity, no event, and no blob that one of their artifact rows named. -/
structure Erased (keys : List ExecutionKey) (w w' : World) : Prop where
  /-- No row of the keys is left. -/
  rows : ∀ row∈w'.db.executions,row.executionKey∉keys
  /-- No identity of the keys is left. -/
  identities : ∀ i∈w'.db.callIdentities,i.executionKey∉keys
  /-- No event of the keys is left. -/
  journal : ∀ entry∈w'.journal,entry.executionKey∉keys
  /-- No blob that a row of the keys named is left. -/
  blobs : ∀ blobKey,Named keys w.db blobKey → w'.blobs.get blobKey=none

/-- Run alone, the program returns a report and nothing of the keys is left. -/
def Erases {Command : Type} (registry : Registry) (thread : ThreadId) (p : ServiceM Command PurgeReport)
    (keys : List ExecutionKey) (w : World) : Prop :=
  ∃ report w',Yields (Alone registry thread) p w (.ok report) w' ∧ Erased keys w w'

/-- The keys of the store: those of its executions and of its identities. -/
def storeKeys (db : Db) : List ExecutionKey :=
  db.executions.map (·.executionKey) ++ db.callIdentities.map (·.executionKey)

section Keys
variable {keys targets : List ExecutionKey} {w : World}

/-- Fewer keys name fewer blobs. -/
theorem named_mono (hsub : ∀ key∈keys,key∈targets) {blobKey : BlobKey} (h : Named keys w.db blobKey) :
    Named targets w.db blobKey := by
  obtain ⟨row,hrow,hkey,hname⟩ := h
  exact ⟨row,hrow,hsub _ hkey,hname⟩

/-- A hard delete of keys that can be removed erases them. -/
theorem erased_of_removable (hall : ∀ key∈targets,Removable key w.db) (hsub : ∀ key∈keys,key∈targets) :
    Erased keys w (purgedKeys true targets w).2 := by
  rw [purgedKeys_of hall]
  obtain ⟨hrows,hidentities,hjournal⟩ := droppedAll_hard targets w
  refine ⟨fun row hrow hkey => ?_,fun i hi hkey => ?_,fun entry hentry hkey => ?_,fun blobKey hname => ?_⟩
  · have hmem : row∈(droppedAll true targets w).db.executions := hrow
    rw [hrows] at hmem
    have hnot := (List.mem_filter.mp hmem).2
    exact of_decide_eq_true hnot (hsub _ hkey)
  · have hmem : i∈(droppedAll true targets w).db.callIdentities := hi
    rw [hidentities] at hmem
    have hnot := (List.mem_filter.mp hmem).2
    exact of_decide_eq_true hnot (hsub _ hkey)
  · have hmem : entry∈(droppedAll true targets w).journal := hentry
    rw [hjournal] at hmem
    have hnot := (List.mem_filter.mp hmem).2
    exact of_decide_eq_true hnot (hsub _ hkey)
  · have hlisted : blobKey∈(listedSizes true targets w).map (·.1) :=
      (mem_listedSizes hall blobKey).mpr (named_mono hsub hname)
    show (removeSizes (listedSizes true targets w) w.blobs).get blobKey=none
    rw [get_removeSizes,if_pos hlisted]

/-- The artifact rows of a key, in the order in which they are loaded. -/
def artifactRows (key : ExecutionKey) (db : Db) : List ArtifactRow :=
  (db.executions.filter (hasKey key)).flatMap (·.artifacts)

/-- A number stands for the size in the last row that names a blob, the one that is added. -/
def NumberSizes (rows : List ArtifactRow) : Prop :=
  ∀ before a after,rows=before ++ a::after → (∀ b∈after,b.blobKey≠a.blobKey) → ∃ n,a.sizeBytes=.bytes n

/-- Loaded artifacts stand for the rows they were loaded from. -/
theorem artifactRows_of_findAll {key : ExecutionKey} {db : Db} {executions : List MlExecution}
    (h : findAll key db=.ok executions) :
    artifactRows key db=(executions.flatMap (·.artifacts)).map artifactRow := by
  have hrows := forall₂_of_mapM h
  unfold artifactRows
  generalize db.executions.filter (hasKey key)=rows at hrows
  clear h
  induction hrows with
  | nil => rfl
  | cons hload _ ih =>
    obtain ⟨_,hartifacts,_,_⟩ := loadExecution_ok hload
    rw [List.flatMap_cons,List.flatMap_cons,List.map_append,ih,hartifacts]

/-- A size is a number where it can be added. -/
theorem isOk_addedSize {size : Size} : (addedSize size).isOk=true ↔ ∃ n,size=.bytes n := by
  cases size with
  | bytes n => exact ⟨fun _ => ⟨n,rfl⟩,fun _ => rfl⟩
  | text text summed => simp [addedSize,Except.isOk,Except.toBool]

/-- The sizes listed for a key can be added up where the last rows that name its blobs have numbers. -/
theorem addable_iff {key : ExecutionKey} {db : Db} {executions : List MlExecution}
    (h : findAll key db=.ok executions) :
    addable (blobSizes executions)=true ↔ NumberSizes (artifactRows key db) := by
  rw [artifactRows_of_findAll h]
  unfold addable
  rw [List.all_eq_true]
  constructor
  · intro hadd before a after hsplit hlast
    obtain ⟨before',rest,hartifacts,rfl,hrest⟩ := List.map_eq_append_iff.mp hsplit
    obtain ⟨artifact,after',rfl,rfl,rfl⟩ := List.map_eq_cons_iff.mp hrest
    refine isOk_addedSize.mp (hadd (artifact.blobKey,artifact.sizeBytes) (mem_foldl_setSize.mpr
      ⟨before',artifact,after',hartifacts,fun b hb heq => ?_,rfl⟩))
    exact hlast (artifactRow b) (List.mem_map_of_mem hb) (congrArg Column.value heq)
  · intro hnumbers entry hentry
    obtain ⟨before,a,after,hsplit,hlast,rfl⟩ := mem_foldl_setSize.mp hentry
    refine isOk_addedSize.mpr (hnumbers (before.map artifactRow) (artifactRow a) (after.map artifactRow) ?_ ?_)
    · rw [hsplit,List.map_append,List.map_cons]
    · intro b hb heq
      obtain ⟨artifact,hmem,rfl⟩ := List.mem_map.mp hb
      exact hlast artifact hmem (Column.value.inj heq)

/-- The rows of a key load where they decode. -/
theorem loads_iff_decodes {key : ExecutionKey} {db : Db} :
    Loads key db ↔ ∀ row∈db.executions,row.executionKey=key → Decodes db row := by
  constructor
  · intro h row hrow hkey
    obtain ⟨execution,hload⟩ := h row hrow hkey
    exact Decodes.of_load hload
  · intro h row hrow hkey
    exact (h row hrow hkey).load

/-- A key can be removed where its rows decode and the sizes added for it are numbers. -/
theorem removable_iff {key : ExecutionKey} {db : Db} :
    Removable key db ↔ (∀ row∈db.executions,row.executionKey=key → Decodes db row) ∧
      NumberSizes (artifactRows key db) := by
  rw [← loads_iff_decodes,← findAll_iff_loads]
  constructor
  · rintro ⟨executions,hfind,hadd⟩
    exact ⟨⟨executions,hfind⟩,(addable_iff hfind).mp hadd⟩
  · rintro ⟨⟨executions,hfind⟩,hnumbers⟩
    exact ⟨executions,hfind,(addable_iff hfind).mpr hnumbers⟩

/-- A row whose key has an identity has the key among those listed. -/
theorem mem_allExecutionKeys {key : ExecutionKey} {db : Db} :
    key∈allExecutionKeys db ↔ ∃ i∈db.callIdentities,i.executionKey=key := by
  unfold allExecutionKeys
  rw [List.mem_insertionSort,List.mem_map]

/-- A row that decodes has an identity. -/
theorem identity_of_decodes {db : Db} {row : ExecutionRow} (h : Decodes db row) :
    ∃ i∈db.callIdentities,i.executionKey=row.executionKey := by
  obtain ⟨identity,hload⟩ := h.identity
  unfold loadIdentity at hload
  split at hload
  · exact nomatch hload
  next i hfind => exact ⟨i,List.mem_of_find?_eq_some hfind,by simpa using List.find?_some hfind⟩

end Keys

section Requests
variable {Command : Type} {registry : Registry} {thread : ThreadId} {w : World}

/-- A request erases keys exactly where its outcome does. -/
theorem erases_iff_outcome (hown : OwnLocks thread w) (request : PurgeRequest) (keys : List ExecutionKey) :
    Erases registry thread (request.program : ServiceM Command PurgeReport) keys w ↔
      (∃ report,(purgedKeys request.hard (request.targets registry w.db) w).1=.ok report) ∧
        Erased keys w (purgedKeys request.hard (request.targets registry w.db) w).2 := by
  have hyields : Yields (Alone registry thread) (request.program : ServiceM Command PurgeReport) w _ _ :=
    yields_request hown request
  constructor
  · rintro ⟨report,w',hrun,herased⟩
    obtain ⟨hr,hw⟩ := hyields.unique hrun.ends
    rw [← hr,← hw]
    exact ⟨⟨report,rfl⟩,herased⟩
  · rintro ⟨⟨report,hr⟩,herased⟩
    rw [hr] at hyields
    exact ⟨report,_,hyields,herased⟩

/-- The targets of a request that returns a report can all be removed. -/
theorem removable_of_outcome {hard : Bool} {targets : List ExecutionKey}
    (h : ∃ report,(purgedKeys hard targets w).1=.ok report) : ∀ key∈targets,Removable key w.db := by
  intro key hkey
  by_contra hnot
  obtain ⟨e,he⟩ : ∃ e,(purgedKeys hard targets w).1=.error e := purgedKeys_of_not ⟨key,hkey,hnot⟩
  obtain ⟨report,hr⟩ := h
  cases he.symm.trans hr

/-- Deleting everything erases the store exactly where every row decodes and every size added is a number. -/
theorem erases_all_iff (hown : OwnLocks thread w) :
    Erases registry thread (purgeAll true : ServiceM Command PurgeReport) (storeKeys w.db) w ↔
      (∀ row∈w.db.executions,Decodes w.db row) ∧ ∀ key,NumberSizes (artifactRows key w.db) := by
  refine (erases_iff_outcome hown (.all true) (storeKeys w.db)).trans ?_
  show (∃ report,(purgedKeys true (allExecutionKeys w.db) w).1=.ok report) ∧
    Erased (storeKeys w.db) w (purgedKeys true (allExecutionKeys w.db) w).2 ↔ _
  constructor
  · rintro ⟨hok,herased⟩
    have hall := removable_of_outcome hok
    -- A key without an identity is not among those deleted, so its rows are left.
    have hlisted : ∀ row∈w.db.executions,row.executionKey∈allExecutionKeys w.db := by
      intro row hrow
      by_contra hkey
      rw [purgedKeys_of hall] at herased
      have hleft : row∈(droppedAll true (allExecutionKeys w.db) w).db.executions := by
        rw [(droppedAll_hard _ w).1]
        exact List.mem_filter.mpr ⟨hrow,by simpa using hkey⟩
      have hstore : row.executionKey∈storeKeys w.db :=
        List.mem_append_left _ (List.mem_map_of_mem hrow)
      exact herased.rows row hleft hstore
    refine ⟨fun row hrow => (removable_iff.mp (hall _ (hlisted row hrow))).1 row hrow rfl,fun key => ?_⟩
    by_cases hkey : key∈allExecutionKeys w.db
    · exact (removable_iff.mp (hall key hkey)).2
    · have hnone : artifactRows key w.db=[] := by
        refine List.flatMap_eq_nil_iff.mpr fun row hrow => ?_
        obtain ⟨hmem,hrowKey⟩ := List.mem_filter.mp hrow
        exact absurd ((hasKey_iff _ _).mp hrowKey ▸ hlisted row hmem) hkey
      intro before a after hsplit
      rw [hnone] at hsplit
      exact absurd hsplit.symm (by simp)
  · rintro ⟨hdecodes,hnumbers⟩
    have hall : ∀ key∈allExecutionKeys w.db,Removable key w.db :=
      fun key _ => removable_iff.mpr ⟨fun row hrow _ => hdecodes row hrow,hnumbers key⟩
    refine ⟨?_,erased_of_removable hall fun key hkey => ?_⟩
    · rw [purgedKeys_of hall]
      exact ⟨_,rfl⟩
    · rw [mem_allExecutionKeys]
      rcases List.mem_append.mp hkey with hrow | hidentity
      · obtain ⟨row,hmem,rfl⟩ := List.mem_map.mp hrow
        exact identity_of_decodes (hdecodes row hmem)
      · obtain ⟨i,hi,rfl⟩ := List.mem_map.mp hidentity
        exact ⟨i,hi,rfl⟩

/-- Where the store has something of a key, it has a row of it. -/
def HasRow (key : ExecutionKey) (w : World) : Prop :=
  (∃ row∈w.db.executions,row.executionKey=key) ∨
    (∀ i∈w.db.callIdentities,i.executionKey≠key) ∧ ∀ entry∈w.journal,entry.executionKey≠key

/-- Deleting a key erases it exactly where its rows decode, the sizes added are numbers, and it has a row or nothing else. -/
theorem erases_key_iff (hown : OwnLocks thread w) (key : ExecutionKey) :
    Erases registry thread (purgeByKey key true : ServiceM Command PurgeReport) [key] w ↔
      ((∀ row∈w.db.executions,row.executionKey=key → Decodes w.db row) ∧ NumberSizes (artifactRows key w.db)) ∧
        HasRow key w := by
  refine (erases_iff_outcome hown (.byKey key true) [key]).trans ?_
  show (∃ report,(purgedKeys true _ w).1=.ok report) ∧ Erased [key] w (purgedKeys true _ w).2 ↔ _
  by_cases hrow : ∃ row∈w.db.executions,row.executionKey=key
  · have hsome : (w.db.executions.filter (hasKey key)).isEmpty=false := by
      obtain ⟨row,hmem,hkey⟩ := hrow
      have hfiltered : row∈w.db.executions.filter (hasKey key) := List.mem_filter.mpr ⟨hmem,by simpa using hkey⟩
      cases hrows : w.db.executions.filter (hasKey key) with
      | nil =>
        rw [hrows] at hfiltered
        exact nomatch hfiltered
      | cons r rs => rfl
    have htargets : (PurgeRequest.byKey key true).targets registry w.db=[key] := by
      simp [PurgeRequest.targets,hsome]
    rw [htargets,← removable_iff]
    constructor
    · rintro ⟨hok,_⟩
      exact ⟨removable_of_outcome hok key (List.mem_singleton_self key),Or.inl hrow⟩
    · rintro ⟨hkey,_⟩
      have hall : ∀ other∈[key],Removable other w.db := by
        intro other hother
        rw [List.mem_singleton.mp hother]
        exact hkey
      refine ⟨?_,erased_of_removable hall fun other hother => hother⟩
      rw [purgedKeys_of hall]
      exact ⟨_,rfl⟩
  · have hnone : (w.db.executions.filter (hasKey key))=[] := by
      refine List.filter_eq_nil_iff.mpr fun row hmem hkey => hrow ⟨row,hmem,by simpa using hkey⟩
    have htargets : (PurgeRequest.byKey key true).targets registry w.db=[] := by
      simp [PurgeRequest.targets,hnone]
    rw [htargets]
    constructor
    · rintro ⟨_,herased⟩
      have hnoRows : artifactRows key w.db=[] := by
        unfold artifactRows
        rw [hnone]
        rfl
      refine ⟨⟨fun row hmem hkey => absurd ⟨row,hmem,hkey⟩ hrow,fun before a after hsplit => ?_⟩,
        Or.inr ⟨fun i hi hkey => ?_,fun entry hentry hkey => ?_⟩⟩
      · rw [hnoRows] at hsplit
        exact absurd hsplit.symm (by simp)
      · exact herased.identities i hi (List.mem_singleton.mpr hkey)
      · exact herased.journal entry hentry (List.mem_singleton.mpr hkey)
    · rintro ⟨_,hhas⟩
      obtain ⟨hidentities,hjournal⟩ := hhas.resolve_left hrow
      refine ⟨⟨_,rfl⟩,fun row hmem hkey => hrow ⟨row,hmem,List.mem_singleton.mp hkey⟩,
        fun i hi hkey => hidentities i hi (List.mem_singleton.mp hkey),
        fun entry hentry hkey => hjournal entry hentry (List.mem_singleton.mp hkey),?_⟩
      rintro blobKey ⟨row,hmem,hkey,_⟩
      exact absurd ⟨row,hmem,List.mem_singleton.mp hkey⟩ hrow

/-- A hard delete erases what it is asked to exactly where the rows it would delete decode, the sizes it would
add are numbers, and the key has a row. -/
theorem hard_delete_erases_iff (Command : Type) (registry : Registry) (thread : ThreadId) (w : World)
    (hown : OwnLocks thread w) :
    (Erases registry thread (purgeAll true : ServiceM Command PurgeReport) (storeKeys w.db) w ↔
      (∀ row∈w.db.executions,Decodes w.db row) ∧ ∀ key,NumberSizes (artifactRows key w.db)) ∧
    ∀ key,Erases registry thread (purgeByKey key true : ServiceM Command PurgeReport) [key] w ↔
      ((∀ row∈w.db.executions,row.executionKey=key → Decodes w.db row) ∧ NumberSizes (artifactRows key w.db)) ∧
        HasRow key w :=
  ⟨erases_all_iff hown,erases_key_iff hown⟩

end Requests

/-- A success with one artifact, whose status and size columns read as given. -/
def savedRun (key : ExecutionKey) (id : ℕ) (status : Column ArtifactStatus) (size : Size) : ExecutionRow where
  state := .value .success
  outputPersisted := true
  supersededAt := none
  failureReason := none
  failureMessage := none
  failureExitCode := none
  artifacts := [⟨.value .stdout,none,.utf8,.value (.forExecution ⟨id⟩ 5),size,status,some 0,none⟩]
  tokenUsage := none
  tags := []
  id := id
  executionKey := key
  kind := .value .localManaged
  createdAt := 0
  executionId := ⟨id⟩

/-- One key's run, with its identity, its blob and an event. -/
def savedWorld (status : Column ArtifactStatus) (size : Size) : World where
  db := ⟨[savedRun ⟨7⟩ 1 status size],[⟨⟨7⟩,.value ⟨⟨7⟩,[],[]⟩⟩],List.pairwise_singleton _ _,
    List.pairwise_singleton _ _,List.pairwise_singleton _ _⟩
  blobs := (∅ : BlobStore).put (.forExecution ⟨1⟩ 5) [111]
  journal := [⟨.hit,⟨7⟩,[],[],[],none⟩]
  minted := [⟨1⟩]
  held := []

/-- Nobody tells a purge anything. -/
def silentRegistry : Registry := ⟨none,fun _ => [],fun _ => [],0⟩

/-- The sound store: its artifact is stored, with a size of one byte. -/
def soundWorld : World := savedWorld (.value .stored) (.bytes 1)

/-- Its status column holds the empty text, which is no status. -/
def unknownStatus : World := savedWorld (.malformed []) (.bytes 1)

/-- Its size column holds the letter x. -/
def textSize : World := savedWorld (.value .stored) (.text [120] 0)

/-- The sound store is erased, whole or by its key. -/
theorem hard_delete_erases_saved :
    Erases silentRegistry 0 (purgeAll true : ServiceM Unit PurgeReport) (storeKeys soundWorld.db) soundWorld ∧
    Erases silentRegistry 0 (purgeByKey ⟨7⟩ true : ServiceM Unit PurgeReport) [⟨7⟩] soundWorld := by
  have hown : OwnLocks 0 soundWorld := fun _ h => absurd h List.not_mem_nil
  have hdecodes : ∀ row∈soundWorld.db.executions,Decodes soundWorld.db row := by
    intro row hrow
    cases List.mem_singleton.mp hrow
    exact ⟨by decide,by decide,_,rfl⟩
  have hnumbers : ∀ key,NumberSizes (artifactRows key soundWorld.db) := by
    intro key before a after hsplit _
    have hmem : a∈artifactRows key soundWorld.db := by
      rw [hsplit]
      simp
    obtain ⟨row,hrow,ha⟩ := List.mem_flatMap.mp hmem
    cases List.mem_singleton.mp (List.mem_filter.mp hrow).1
    cases List.mem_singleton.mp ha
    exact ⟨1,rfl⟩
  obtain ⟨hall,hkey⟩ := hard_delete_erases_iff Unit silentRegistry 0 _ hown
  refine ⟨hall.mpr ⟨hdecodes,hnumbers⟩,(hkey ⟨7⟩).mpr ⟨⟨fun row hrow _ => hdecodes row hrow,hnumbers _⟩,Or.inl ?_⟩⟩
  exact ⟨_,List.mem_singleton_self _,rfl⟩

/-- One status that does not decode keeps the key from being erased, whole or by its key, and so does one
size that is a text. -/
theorem hard_delete_erases_fails :
    (OwnLocks 0 unknownStatus ∧
      ¬Erases silentRegistry 0 (purgeAll true : ServiceM Unit PurgeReport) (storeKeys unknownStatus.db)
        unknownStatus ∧
      ¬Erases silentRegistry 0 (purgeByKey ⟨7⟩ true : ServiceM Unit PurgeReport) [⟨7⟩] unknownStatus) ∧
    OwnLocks 0 textSize ∧
      ¬Erases silentRegistry 0 (purgeAll true : ServiceM Unit PurgeReport) (storeKeys textSize.db) textSize ∧
      ¬Erases silentRegistry 0 (purgeByKey ⟨7⟩ true : ServiceM Unit PurgeReport) [⟨7⟩] textSize := by
  have hstatus : ¬Decodes unknownStatus.db (savedRun ⟨7⟩ 1 (.malformed []) (.bytes 1)) :=
    fun h => absurd h.columns (by decide)
  have hsize : ¬NumberSizes (artifactRows ⟨7⟩ textSize.db) := by
    intro h
    obtain ⟨n,hn⟩ := h [] _ [] rfl fun b hb => absurd hb List.not_mem_nil
    cases hn
  have hown : OwnLocks 0 unknownStatus := fun _ h => absurd h List.not_mem_nil
  have hown' : OwnLocks 0 textSize := fun _ h => absurd h List.not_mem_nil
  refine ⟨⟨hown,fun h => hstatus ?_,fun h => hstatus ?_⟩,hown',fun h => hsize ?_,fun h => hsize ?_⟩
  · exact ((erases_all_iff hown).mp h).1 _ (List.mem_singleton_self _)
  · exact ((erases_key_iff hown ⟨7⟩).mp h).1.1 _ (List.mem_singleton_self _) rfl
  · exact ((erases_all_iff hown').mp h).2 _
  · exact ((erases_key_iff hown' ⟨7⟩).mp h).1.2

end GenericMlCache.ErasedKeys
