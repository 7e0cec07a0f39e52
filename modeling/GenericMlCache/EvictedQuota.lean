import GenericMlCache.DocumentSizes
import GenericMlCache.PrefixSelection
import GenericMlCache.PurgeRuns
import GenericMlCache.PurgedReports

/-!
# Eviction to a quota

An eviction measures the store by one query and chooses what to evict by
another. In a reachable store a key has one current row, so the two agree, and
the keys evicted are those of the shortest prefix of the current rows, least
recently accessed first.
-/

namespace GenericMlCache.EvictedQuota

open CallProgram PythonText ExecutionModel SqliteStore ExecutionRepository ExecutionQueries RepositoryCalls
  ServicePorts ServiceOperations StorePurge StoreSoundness DocumentSizes UndisturbedRuns PurgeRuns PrefixSelection
  PurgedReports

/-- The entry of a current row. -/
def entryOf (row : ExecutionRow) : ExecutionSizeEntry := ⟨row.executionKey,artifactBytes row,row.createdAt⟩

/-- The time that orders a current row: its key's last access, else its creation. -/
def rowEpoch (registry : Registry) (row : ExecutionRow) : Timestamp :=
  lruEpoch (registry.lastAccess.getD []) (entryOf row)

/-- The current rows, least recently accessed first. -/
def lruRows (registry : Registry) (db : Db) : List ExecutionRow :=
  (currentRows db).insertionSort fun a b => rowEpoch registry a ≤ rowEpoch registry b

section Lists
variable {α β : Type} [DecidableEq β]

/-- Nothing is erased from a list without repetitions. -/
theorem eraseDups_of_nodup {γ : Type} [BEq γ] [LawfulBEq γ] {l : List γ} (h : l.Nodup) : l.eraseDups=l := by
  induction l with
  | nil => rfl
  | cons b rest ih =>
    obtain ⟨hb,hrest⟩ := List.nodup_cons.mp h
    have hkept : rest.filter (fun c => !c==b)=rest :=
      List.filter_eq_self.mpr fun c hc => by simpa using fun heq : c=b => hb (heq ▸ hc)
    rw [List.eraseDups_cons,hkept,ih hrest]

/-- One element alone has its image. -/
theorem filter_image {f : α → β} {l : List α} (h : (l.map f).Nodup) {a : α} (ha : a∈l) :
    l.filter (fun b => decide (f b=f a))=[a] := by
  induction l with
  | nil => exact nomatch ha
  | cons b rest ih =>
    rw [List.map_cons] at h
    obtain ⟨hb,hrest⟩ := List.nodup_cons.mp h
    rcases List.mem_cons.mp ha with rfl | hmem
    · have hnone : rest.filter (fun c => decide (f c=f a))=[] := by
        refine List.filter_eq_nil_iff.mpr fun c hc heq => hb ?_
        rw [← of_decide_eq_true heq]
        exact List.mem_map_of_mem hc
      rw [List.filter_cons_of_pos (by simp),hnone]
    · have hne : f b≠f a := fun heq => hb (heq ▸ List.mem_map_of_mem hmem)
      rw [List.filter_cons_of_neg (by simpa using hne),ih hrest hmem]

/-- Without the images of its first elements, a list is what is left. -/
theorem filter_drop {f : α → β} {l : List α} (h : (l.map f).Nodup) (n : ℕ) :
    l.filter (fun a => decide (f a∉(l.take n).map f))=l.drop n := by
  have happ : (l.take n).map f ++ (l.drop n).map f=l.map f := by
    rw [← List.map_append,List.take_append_drop]
  rw [← happ] at h
  have hapart := (List.nodup_append.mp h).2.2
  have hfront : (l.take n).filter (fun a => decide (f a∉(l.take n).map f))=[] := by
    refine List.filter_eq_nil_iff.mpr fun a ha hnot => ?_
    exact of_decide_eq_true hnot (List.mem_map_of_mem ha)
  have hback : (l.drop n).filter (fun a => decide (f a∉(l.take n).map f))=l.drop n := by
    refine List.filter_eq_self.mpr fun a ha => decide_eq_true fun hmem => ?_
    exact hapart _ hmem _ (List.mem_map_of_mem ha) rfl
  calc l.filter (fun a => decide (f a∉(l.take n).map f))
      =(l.take n ++ l.drop n).filter (fun a => decide (f a∉(l.take n).map f)) := by rw [List.take_append_drop]
    _=l.drop n := by rw [List.filter_append,hfront,hback,List.nil_append]

end Lists

section Entries
variable {db : Db} {registry : Registry}

/-- A key has one current row. -/
theorem currentRows_keys (hone : db.AtMostOneCurrent) : ((currentRows db).map (·.executionKey)).Nodup := by
  have hdistinct : db.executions.Pairwise fun r r' => r≠r' :=
    db.idsSorted.imp fun hlt heq => absurd (heq ▸ hlt) (lt_irrefl _)
  have hcurrent : (currentRows db).Pairwise fun r r' => r≠r' := hdistinct.filter _
  refine List.pairwise_map.mpr (hcurrent.imp_of_mem fun hr hr' hne hkey => hne ?_)
  obtain ⟨hr,hs⟩ := List.mem_filter.mp hr
  obtain ⟨hr',hs'⟩ := List.mem_filter.mp hr'
  exact hone _ hr _ hr' hkey hs hs'

/-- The current rows are in id order. -/
theorem currentRows_sorted (db : Db) : (currentRows db).Pairwise fun r r' => r.id < r'.id := db.idsSorted.filter _

/-- The entries are those of the rows. -/
theorem currentExecutionsWithSizes_eq (hone : db.AtMostOneCurrent) :
    currentExecutionsWithSizes db=(currentRows db).map entryOf := by
  have hgroups : ((currentRows db).map fun row => (row.executionKey,row.createdAt)).Nodup := by
    refine List.Nodup.of_map Prod.fst ?_
    rw [List.map_map]
    exact currentRows_keys hone
  unfold currentExecutionsWithSizes
  rw [eraseDups_of_nodup hgroups,List.map_map]
  refine List.map_congr_left fun row hrow => ?_
  have hsingle := filter_image hgroups hrow
  show ExecutionSizeEntry.mk _ (((currentRows db).filter _).map artifactBytes).sum _=_
  rw [hsingle]
  simp [entryOf]

/-- They are sorted as the rows are. -/
theorem lruOrder_eq (hone : db.AtMostOneCurrent) : lruOrder registry db=(lruRows registry db).map entryOf := by
  unfold lruOrder lruRows
  rw [currentExecutionsWithSizes_eq hone]
  exact (List.map_insertionSort (fun a b => rowEpoch registry a ≤ rowEpoch registry b)
    (fun a b => lruEpoch (registry.lastAccess.getD []) a ≤ lruEpoch (registry.lastAccess.getD []) b)
    entryOf (currentRows db) fun a _ b _ => Iff.rfl).symm

/-- The rows sorted are the current rows. -/
theorem lruRows_perm (registry : Registry) (db : Db) : (lruRows registry db).Perm (currentRows db) :=
  List.perm_insertionSort _ _

/-- Those accessed at one time are in row order. -/
theorem lruRows_sorted (registry : Registry) (db : Db) :
    (lruRows registry db).Pairwise (Before (rowEpoch registry) (·.id)) :=
  insertionSort_before _ (currentRows_sorted db)

/-- The keys evicted are those of the shortest prefix. -/
theorem evictedPrefix_eq (maxBytes : ℕ) (rows : List ExecutionRow) :
    evictedPrefix maxBytes (total artifactBytes rows : ℕ) (rows.map entryOf)=
      (rows.take (surplus artifactBytes maxBytes rows)).map (·.executionKey) := by
  induction rows with
  | nil => rfl
  | cons row rest ih =>
    have hrunning : ((total artifactBytes (row::rest) : ℕ) : ℤ)-(entryOf row).totalSizeBytes=
        (total artifactBytes rest : ℕ) := by
      rw [total_cons]
      show ((artifactBytes row+total artifactBytes rest : ℕ) : ℤ)-(artifactBytes row : ℕ)=_
      omega
    rw [List.map_cons]
    unfold evictedPrefix surplus
    by_cases hfits : total artifactBytes (row::rest) ≤ maxBytes
    · have hfits' : ((total artifactBytes (row::rest) : ℕ) : ℤ) ≤ maxBytes := by exact_mod_cast hfits
      rw [if_pos hfits,if_pos hfits']
      rfl
    · have hfits' : ¬((total artifactBytes (row::rest) : ℕ) : ℤ) ≤ maxBytes := by exact_mod_cast hfits
      rw [if_neg hfits,if_neg hfits',hrunning,ih]
      rfl

/-- The total is that of the rows, in any order. -/
theorem totalStoredBytes_eq (registry : Registry) (db : Db) :
    totalStoredBytes db=total artifactBytes (lruRows registry db) :=
  (total_perm (lruRows_perm registry db)).symm

/-- The targets of an eviction to a quota. -/
theorem targets_quota (hone : db.AtMostOneCurrent) (maxBytes : ℕ) :
    (PurgeRequest.quota maxBytes).targets registry db=
      ((lruRows registry db).take (surplus artifactBytes maxBytes (lruRows registry db))).map (·.executionKey) := by
  have htotal := totalStoredBytes_eq registry db
  by_cases hfits : totalStoredBytes db ≤ maxBytes
  · have hzero : surplus artifactBytes maxBytes (lruRows registry db)=0 :=
      (surplus_shortest _ _ _).eq_zero (htotal ▸ hfits)
    have htargets : (PurgeRequest.quota maxBytes).targets registry db=[] := if_pos hfits
    rw [htargets,hzero]
    rfl
  · have htargets : (PurgeRequest.quota maxBytes).targets registry db=
        evictedPrefix maxBytes (totalStoredBytes db) (lruOrder registry db) := if_neg hfits
    rw [htargets,lruOrder_eq hone,htotal]
    exact evictedPrefix_eq maxBytes _

end Entries

section Left
variable {w : World} {keys : List ExecutionKey}

/-- A purged row is not current. -/
theorem purgedColumns_servable (c : MutableColumns) : (purgedColumns c).servable=false := by
  simp [MutableColumns.servable,purgedColumns]

/-- The current rows after a soft purge are those of the other keys. -/
theorem currentRows_droppedAll (keys : List ExecutionKey) (w : World) :
    currentRows (droppedAll false keys w).db=
      (currentRows w.db).filter fun row => decide (row.executionKey∉keys) := by
  unfold currentRows
  rw [executions_droppedAll_soft,List.filter_map,List.filter_filter]
  have hkept : w.db.executions.filter
      ((fun row => row.servable) ∘ fun row => if row.executionKey∈keys then row.update purgedColumns else row)=
      w.db.executions.filter fun row => decide (row.executionKey∉keys) && row.servable := by
    refine List.filter_congr fun row _ => ?_
    by_cases hkey : row.executionKey∈keys
    · simp [hkey,purgedColumns_servable]
    · simp [hkey]
  rw [hkept]
  refine (List.map_congr_left fun row hrow => ?_).trans (List.map_id _)
  have hnot := (Bool.and_eq_true_iff.mp (List.mem_filter.mp hrow).2).1
  exact if_neg (of_decide_eq_true hnot)

/-- The rows of the other keys are those there were. -/
theorem filter_droppedAll {key : ExecutionKey} (h : key∉keys) :
    (droppedAll false keys w).db.executions.filter (hasKey key)=w.db.executions.filter (hasKey key) := by
  rw [executions_droppedAll_soft,List.filter_map]
  have hsame : w.db.executions.filter
      (hasKey key ∘ fun row => if row.executionKey∈keys then row.update purgedColumns else row)=
      w.db.executions.filter (hasKey key) := by
    refine List.filter_congr fun row _ => ?_
    by_cases hkey : row.executionKey∈keys
    · simp [hkey,hasKey,ExecutionRow.update]
    · simp [hkey]
  rw [hsame]
  refine (List.map_congr_left fun row hrow => ?_).trans (List.map_id _)
  have hkey : row.executionKey=key := (hasKey_iff _ _).mp (List.mem_filter.mp hrow).2
  exact if_neg (hkey ▸ h)

/-- A key's current row is one of its rows. -/
theorem currentRow_eq (db : Db) (key : ExecutionKey) :
    db.currentRow key=((db.executions.filter (hasKey key)).filter fun row => row.servable).getLast? := by
  unfold Db.currentRow
  rw [List.filter_filter]
  congr 2
  funext row
  exact Bool.and_comm _ _

/-- A blob is removed exactly where an artifact row of the keys names it. -/
theorem get_removed (hall : ∀ key∈keys,Removable key w.db) (blobKey : BlobKey) :
    (Named keys w.db blobKey → (removeSizes (listedSizes false keys w) w.blobs).get blobKey=none) ∧
    (¬Named keys w.db blobKey → (removeSizes (listedSizes false keys w) w.blobs).get blobKey=w.blobs.get blobKey) := by
  rw [get_removeSizes,← mem_listedSizes hall blobKey]
  exact ⟨fun h => if_pos h,fun h => if_neg h⟩

end Left

/-- The eviction of a store to a quota: the keys of the first n rows, least
recently accessed first, are purged, and n is the least number that brings the
total within the quota. The other keys keep their rows, their blobs and their
currency. -/
structure EvictsExactly (registry : Registry) (maxBytes : ℕ) (w : World) (order : List ExecutionRow) (n : ℕ)
    (report : PurgeReport) (w' : World) : Prop where
  /-- The order is of all current rows. -/
  perm : order.Perm (currentRows w.db)
  /-- The least recently accessed come first. -/
  leastRecent : order.Pairwise (Before (rowEpoch registry) (·.id))
  /-- The first n rows are the shortest prefix that suffices. -/
  shortest : ShortestPrefix artifactBytes maxBytes order n
  /-- What is left is within the quota. -/
  within : totalStoredBytes w'.db ≤ maxBytes
  /-- A store within its quota is left as it is. -/
  untouched : totalStoredBytes w.db ≤ maxBytes → w'=w
  /-- The report tells n. -/
  reported : report.executionsRemoved=n
  /-- An evicted key has no current row, and no blob that a row of it named. -/
  evicted : ∀ row∈order.take n,w'.db.currentRow row.executionKey=none ∧
    ∀ blobKey,Named [row.executionKey] w.db blobKey → w'.blobs.get blobKey=none
  /-- The rows of the other keys are as they were. -/
  rows : ∀ key∉(order.take n).map (·.executionKey),
    w'.db.executions.filter (hasKey key)=w.db.executions.filter (hasKey key)
  /-- The keys that stay keep their current rows. -/
  current : ∀ key∉(order.take n).map (·.executionKey),w'.db.currentRow key=w.db.currentRow key
  /-- The keys that stay keep their blobs. -/
  blobs : ∀ row∈w.db.executions,row.executionKey∉(order.take n).map (·.executionKey) →
    ∀ digest,w'.blobs.get (.forExecution row.executionId digest)=w.blobs.get (.forExecution row.executionId digest)
  /-- No identity changes. -/
  identities : w'.db.callIdentities=w.db.callIdentities
  /-- No event does. -/
  journal : w'.journal=w.journal

section Eviction
variable {Command : Type} {faults : Faults Command} {fingerprint : Bytes → Digest} {w : World}

/-- In a sound store the rows of every key load. -/
theorem loads_of_sound (h : Sound fingerprint w) (key : ExecutionKey) : Loads key w.db :=
  fun _ hrow _ => loadExecution_total h.wellFormed hrow

/-- Where the sizes are those of contents too, every key can be removed. -/
theorem removable_of_sound (h : Sound fingerprint w) (hsized : SizedRows fingerprint w.db) (key : ExecutionKey) :
    Removable key w.db := by
  obtain ⟨executions,hfind⟩ := findAll_iff_loads.mpr (loads_of_sound h key)
  refine ⟨executions,hfind,List.all_eq_true.mpr fun entry hentry => ?_⟩
  obtain ⟨row,hrow,_,a,ha,_,hsize⟩ := size_of_mem hfind hentry
  obtain ⟨content,_,hbytes⟩ := hsized row hrow a ha
  rw [← hsize,hbytes]
  rfl

/-- The purge of the shortest prefix evicts exactly. -/
theorem evictsExactly (h : Sound fingerprint w) (hsized : SizedRows fingerprint w.db) (registry : Registry) (maxBytes n : ℕ)
    (hshort : ShortestPrefix artifactBytes maxBytes (lruRows registry w.db) n) (keys : List ExecutionKey)
    (hkeys : keys=((lruRows registry w.db).take n).map (·.executionKey)) :
    EvictsExactly registry maxBytes w (lruRows registry w.db) n
      ⟨keys.length,totalSize (listedSizes false keys w),(listedSizes false keys w).length⟩
      { droppedAll false keys w with blobs := removeSizes (listedSizes false keys w) w.blobs } := by
  have hperm := lruRows_perm registry w.db
  have hnodup : ((lruRows registry w.db).map (·.executionKey)).Nodup :=
    (hperm.map _).nodup_iff.mpr (currentRows_keys h.oneCurrent)
  have hall : ∀ key∈keys,Removable key w.db := fun key _ => removable_of_sound h hsized key
  have hleft : totalStoredBytes (droppedAll false keys w).db=
      total artifactBytes ((lruRows registry w.db).drop n) := by
    show total artifactBytes (currentRows (droppedAll false keys w).db)=_
    rw [currentRows_droppedAll,← total_perm (hperm.filter _),hkeys,filter_drop hnodup n]
  constructor
  case perm => exact hperm
  case leastRecent => exact lruRows_sorted registry w.db
  case shortest => exact hshort
  case within =>
    show totalStoredBytes (droppedAll false keys w).db ≤ maxBytes
    rw [hleft]
    exact hshort.fits
  case untouched =>
    intro hfits
    rw [totalStoredBytes_eq registry] at hfits
    have hnone : keys=[] := by rw [hkeys,hshort.eq_zero hfits,List.take_zero,List.map_nil]
    rw [hnone]
    rfl
  case reported =>
    show keys.length=n
    rw [hkeys,List.length_map,List.length_take,min_eq_left hshort.le]
  case evicted =>
    intro row hrow
    have hkey : row.executionKey∈keys := hkeys ▸ List.mem_map_of_mem hrow
    constructor
    · have hnone : ((droppedAll false keys w).db.executions.filter (isCurrent row.executionKey))=[] := by
        refine List.filter_eq_nil_iff.mpr fun r hr hcurrent => ?_
        obtain ⟨hrkey,hs⟩ := (isCurrent_iff _ _).mp hcurrent
        have hmem : r∈currentRows (droppedAll false keys w).db := List.mem_filter.mpr ⟨hr,hs⟩
        rw [currentRows_droppedAll] at hmem
        have hnot := of_decide_eq_true (List.mem_filter.mp hmem).2
        exact hnot (hrkey ▸ hkey)
      show ((droppedAll false keys w).db.executions.filter (isCurrent row.executionKey)).getLast?=none
      rw [hnone]
      rfl
    · rintro blobKey ⟨r,hr,hrkey,hname⟩
      refine (get_removed hall blobKey).1 ⟨r,hr,?_,hname⟩
      rw [List.mem_singleton.mp hrkey]
      exact hkey
  case rows =>
    intro key hkey
    exact filter_droppedAll (hkeys ▸ hkey)
  case current =>
    intro key hkey
    show (droppedAll false keys w).db.currentRow key=_
    rw [currentRow_eq,currentRow_eq,filter_droppedAll (hkeys ▸ hkey)]
  case blobs =>
    intro row hrow hkey digest
    refine (get_removed hall _).2 ?_
    rintro ⟨r,hr,hrkey,a,ha,hname⟩
    obtain ⟨digest',hname'⟩ := h.owned r hr a ha
    have hid : row.executionId=r.executionId := by
      rw [hname] at hname'
      exact (BlobKey.forExecution.inj (Column.value.inj hname')).1
    rw [w.db.row_unique hrow hr hid,← hkeys] at hkey
    exact hkey hrkey
  case identities => exact (rest_droppedAll_soft keys w).1
  case journal => exact (rest_droppedAll_soft keys w).2

/-- Run alone on a reachable store, an eviction to a quota evicts exactly. -/
theorem evict_to_quota_exact (hreach : Reachable faults fingerprint w) (registry : Registry) (thread : ThreadId)
    (maxBytes : ℕ) : ∃ order n report w',
      Yields (Alone registry thread) (evictToQuota maxBytes : ServiceM Command PurgeReport) w (.ok report) w' ∧
      EvictsExactly registry maxBytes w order n report w' := by
  have hsound := reachable_sound hreach
  have hown : OwnLocks thread w := by
    intro holding hmem
    rw [hreach.held] at hmem
    exact nomatch hmem
  have hyields : Yields (Alone registry thread) (evictToQuota maxBytes : ServiceM Command PurgeReport) w _ _ :=
    yields_request hown (.quota maxBytes)
  have hsized := reachable_sized hreach
  have hall : ∀ key∈(PurgeRequest.quota maxBytes).targets registry w.db,Removable key w.db :=
    fun key _ => removable_of_sound hsound hsized key
  have hpurge : purgedKeys (PurgeRequest.quota maxBytes).hard ((PurgeRequest.quota maxBytes).targets registry w.db) w=_ :=
    purgedKeys_of hall
  rw [hpurge] at hyields
  exact ⟨_,_,_,_,hyields,evictsExactly hsound hsized registry maxBytes _ (surplus_shortest _ _ _) _
    (targets_quota hsound.oneCurrent maxBytes)⟩

end Eviction

/-- Nobody has accessed anything. -/
def unaccessed : Registry := ⟨none,fun _ => [],fun _ => [],0⟩

/-- A store with one recording is evicted to an empty quota. -/
theorem evict_to_quota_exact_empty : ∃ order n report w',
    Yields (Alone unaccessed 0) (evictToQuota 0 : ServiceM SmallestCommand PurgeReport) (reportedOnce none)
      (.ok report) w' ∧ EvictsExactly unaccessed 0 (reportedOnce none) order n report w' :=
  evict_to_quota_exact (reportedOnce_reachable none) unaccessed 0 0

end GenericMlCache.EvictedQuota
