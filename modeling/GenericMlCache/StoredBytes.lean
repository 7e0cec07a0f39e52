import GenericMlCache.ExecuteCalls
import GenericMlCache.FreedBlobs

/-!
# The bytes a quota bounds

An eviction measures the artifact rows of the current executions. Where every
blob in the store is named by one of them, the measure is no less than the
blobs' sizes together, and what the eviction leaves fits the quota.
-/

namespace GenericMlCache.StoredBytes

open CallProgram CallAutomaton PythonText ExecutionModel SqliteStore ExecutionRepository ExecutionQueries
  RepositoryCalls ServicePorts StorePurge CachedExecution ExecuteCalls ServiceAutomaton ServiceConformance
  ServiceOperations StoreSoundness UndisturbedRuns PurgeRuns PrefixSelection EvictedQuota DocumentSizes FreedBlobs

/-- The sizes of all blobs in the store together. -/
def blobTotal (w : World) : ℕ := (w.blobs.keys.map (blobBytes w)).sum

/-- Every blob is named by an artifact row of a current execution. -/
def Counted (w : World) : Prop :=
  ∀ blobKey∈w.blobs.keys,∃ row∈currentRows w.db,∃ a∈row.artifacts,a.blobKey=.value blobKey

/-- What soundness and sizes hold of a store. -/
def Known (fingerprint : Bytes → Digest) (w : World) : Prop :=
  Sound fingerprint w ∧ SizedRows fingerprint w.db

section Totals
variable {fingerprint : Bytes → Digest} {w : World}

/-- Different keys that rows name have at most the rows' sizes together. -/
theorem sum_le_of_named {κ ρ : Type} [DecidableEq ρ] {name : ρ → Option κ} {size : ρ → ℕ} {bytes : κ → ℕ}
    {keys : List κ} {rows : List ρ} (hnodup : keys.Nodup)
    (hnamed : ∀ key∈keys,∃ row∈rows,name row=some key ∧ bytes key=size row) :
    (keys.map bytes).sum ≤ (rows.map size).sum := by
  induction keys generalizing rows with
  | nil => exact Nat.zero_le _
  | cons key rest ih =>
    obtain ⟨hkey,hrest⟩ := List.nodup_cons.mp hnodup
    obtain ⟨row,hrow,hname,hsize⟩ := hnamed key List.mem_cons_self
    have hothers : ∀ other∈rest,∃ row'∈rows.erase row,name row'=some other ∧ bytes other=size row' := by
      intro other hother
      obtain ⟨row',hrow',hname',hsize'⟩ := hnamed other (List.mem_cons_of_mem _ hother)
      have hne : row'≠row := by
        rintro rfl
        cases Option.some.inj (hname.symm.trans hname')
        exact hkey hother
      exact ⟨row',(List.mem_erase_of_ne hne).mpr hrow',hname',hsize'⟩
    have hsum : (rows.map size).sum=size row+((rows.erase row).map size).sum := by
      rw [((List.perm_cons_erase hrow).map size).sum_eq,List.map_cons,List.sum_cons]
    have hle := ih hrest hothers
    rw [List.map_cons,List.sum_cons,hsum,hsize]
    omega

/-- The blob that an artifact row names. -/
def namedBlob (a : ArtifactRow) : Option BlobKey :=
  match a.blobKey with
  | .value blobKey => some blobKey
  | .malformed _ => none

/-- Where every blob is counted, the store holds no more than is measured. -/
theorem blobTotal_le (hinj : Function.Injective fingerprint) (h : Known fingerprint w) (hcounted : Counted w) :
    blobTotal w ≤ totalStoredBytes w.db := by
  have hmeasured : totalStoredBytes w.db=(((currentRows w.db).flatMap (·.artifacts)).map (·.sizeBytes.summed)).sum := by
    rw [List.map_flatMap,List.flatMap_def,List.sum_flatten,List.map_map]
    rfl
  have hnamed : ∀ blobKey∈w.blobs.keys,∃ a∈(currentRows w.db).flatMap (·.artifacts),
      namedBlob a=some blobKey ∧ blobBytes w blobKey=a.sizeBytes.summed := ?named
  · rw [hmeasured]
    exact sum_le_of_named w.blobs.keys_nodup hnamed
  intro blobKey hmem
  obtain ⟨row,hrow,a,ha,hname⟩ := hcounted blobKey hmem
  refine ⟨a,List.mem_flatMap.mpr ⟨row,hrow,ha⟩,?_,?_⟩
  · unfold namedBlob
    rw [hname]
  · obtain ⟨content,hkey,hlength⟩ := h.2 row (List.mem_filter.mp hrow).1 a ha
    have hblob : blobKey=.forExecution row.executionId (fingerprint content) :=
      Column.value.inj (hname.symm.trans hkey)
    obtain ⟨stored,hget⟩ := Option.isSome_iff_exists.mp (mem_keys_iff.mp hmem)
    have hstored : stored=content := hinj (h.1.addressed _ _ _ (hblob ▸ hget))
    unfold blobBytes
    rw [hget,hstored,hlength]
    rfl

end Totals

/-- The call by which an eviction measures the store. -/
def isMeasure {Command : Type} : Call Command → Bool
  | .store .totalStoredBytes => true
  | _ => false

/-- The ports answer, and whenever an eviction measures the store every blob is counted. -/
def Measured {Command : Type} (locks : LockMode) (faults : Faults Command) (thread : ThreadId) :
    Sem (Call Command) Call.Ret PyExc World :=
  fun call w r w' => Answers locks faults thread call w r w' ∧ (isMeasure call=true → Counted w)

/-- Every blob is counted and what is measured is within the quota. -/
def Within (maxBytes : ℕ) (w : World) : Prop := Counted w ∧ totalStoredBytes w.db ≤ maxBytes

/-- Every blob is counted, and without the listed keys what is measured is within the quota. -/
def WithinWithout (maxBytes : ℕ) (keys : List ExecutionKey) (w : World) : Prop :=
  Counted w ∧ total artifactBytes ((currentRows w.db).filter fun row => decide (row.executionKey∉keys)) ≤ maxBytes

/-- One key is purged: its rows, and the blobs they named. -/
structure KeyPurged (key : ExecutionKey) (w w' : World) : Prop where
  /-- The key's executions are gone. -/
  db : w'.db=softPurgeExecution key w.db
  /-- So are the blobs they named. -/
  blobs : ∃ executions,findAll key w.db=.ok executions ∧ w'.blobs=removeSizes (blobSizes executions) w.blobs

section Evictions
variable {Command : Type} {locks : LockMode} {faults : Faults Command} {thread : ThreadId} {w : World}
variable {fingerprint : Bytes → Digest} {maxBytes : ℕ}

/-- Where the eviction targets all are to go, the rest is within the quota. -/
theorem total_without_targets {db : Db} (hone : db.AtMostOneCurrent) (registry : Registry) (maxBytes : ℕ) :
    total artifactBytes ((currentRows db).filter fun row =>
      decide (row.executionKey∉(PurgeRequest.quota maxBytes).targets registry db)) ≤ maxBytes := by
  have hperm := lruRows_perm registry db
  have hnodup : ((lruRows registry db).map (·.executionKey)).Nodup :=
    (hperm.map _).nodup_iff.mpr (currentRows_keys hone)
  rw [targets_quota hone,← total_perm (hperm.filter _),filter_drop hnodup]
  exact (surplus_shortest artifactBytes maxBytes (lruRows registry db)).fits

/-- A purged key leaves the rest counted and measured as before. -/
theorem KeyPurged.withinWithout {key : ExecutionKey} {rest : List ExecutionKey} {w' : World}
    (h : KeyPurged key w w') (hwithin : WithinWithout maxBytes (key::rest) w) : WithinWithout maxBytes rest w' := by
  obtain ⟨hcounted,htotal⟩ := hwithin
  obtain ⟨executions,hfind,hblobs⟩ := h.blobs
  have hrows : currentRows w'.db=(currentRows w.db).filter fun row => decide (row.executionKey∉[key]) := by
    rw [h.db]
    exact currentRows_droppedAll [key] w
  constructor
  · intro blobKey hmem
    rw [mem_keys_iff,hblobs,get_removeSizes] at hmem
    have hunlisted : blobKey∉(blobSizes executions).map (·.1) := by
      intro hlisted
      rw [if_pos hlisted] at hmem
      exact nomatch hmem
    rw [if_neg hunlisted,← mem_keys_iff] at hmem
    obtain ⟨row,hrow,a,ha,hname⟩ := hcounted blobKey hmem
    have hother : row.executionKey∉[key] := fun hkey =>
      hunlisted ((mem_sizes_iff hfind blobKey).mpr ⟨row,(List.mem_filter.mp hrow).1,hkey,a,ha,hname⟩)
    refine ⟨row,?_,a,ha,hname⟩
    rw [hrows]
    exact List.mem_filter.mpr ⟨hrow,decide_eq_true hother⟩
  · rw [hrows,List.filter_filter]
    refine le_of_eq_of_le ?_ htotal
    congr 1
    refine List.filter_congr fun row _ => ?_
    by_cases hkey : row.executionKey=key <;> simp [hkey]

/-- Removing blobs one by one. -/
theorem safe_removeEach (sizes : List (BlobKey × Size)) (w : World) :
    Safe (Measured locks faults thread) (fun _ => True)
      (fun r w' => r.isOk=true → w'.db=w.db ∧ w'.blobs=removeSizes sizes w.blobs)
      (removeEach sizes : ServiceM Command ℕ) w := by
  induction sizes generalizing w with
  | nil => exact Safe.pure trivial fun _ => ⟨rfl,rfl⟩
  | cons entry rest ih =>
    obtain ⟨blobKey,size⟩ := entry
    refine Safe.perform_bind trivial (fun a w' hans => ?_) fun e w' _ => ⟨trivial,fun h => nomatch h⟩
    obtain ⟨hans,_⟩ := hans
    cases hans
    cases size with
    | text text summed => exact Safe.raise trivial fun h => (by cases h)
    | bytes n =>
      show Safe _ _ _ (removeEach rest >>= fun freed => pure (n+freed) : ServiceM Command ℕ) _
      refine Safe.seq (ih _) (fun freed w' _ hr => Safe.pure trivial fun _ => hr rfl) fun e w' _ _ h => (by cases h)

/-- A key's purge, where nothing faults, purges it. -/
theorem safe_purgeKey (key : ExecutionKey) (w : World) :
    Safe (Measured locks faults thread) (fun _ => True) (fun r w' => r.isOk=true → KeyPurged key w w')
      (purgeKey softDrop key : ServiceM Command (ℕ × ℕ)) w := by
  refine Safe.perform_bind trivial (fun _ w₁ hans => ?_) fun e w' _ => ⟨trivial,fun h => nomatch h⟩
  obtain ⟨hans,_⟩ := hans
  have hsame : w₁.db=w.db ∧ w₁.blobs=w.blobs := by
    cases hans
    exact ⟨rfl,rfl⟩
  obtain ⟨hdb,hblobs⟩ := hsame
  have hbody : Safe (Measured locks faults thread) (fun _ => True)
      (fun r w' => r.isOk=true → KeyPurged key w w')
      (do
        let sizes ← blobSizesFor key
        softDrop key
        removeBlobs sizes : ServiceM Command (ℕ × ℕ)) w₁ := by
    refine Safe.bind (Safe.perform_bind trivial (fun executions w₂ hans => ?_) fun e w' _ =>
      ⟨trivial,fun h => nomatch h⟩)
    obtain ⟨now,db,ht,rfl⟩ := answers_store_ok hans.1
    obtain ⟨hfind,rfl⟩ := reading_ok.mp ht
    refine Safe.pure trivial ?_
    refine Safe.perform_bind trivial (fun _ w₃ hans => ?_) fun e w' _ => ⟨trivial,fun h => nomatch h⟩
    obtain ⟨now,db,ht,rfl⟩ := answers_store_ok hans.1
    cases Except.ok.inj (commit_ok.mp ht)
    refine Safe.seq (safe_removeEach (blobSizes executions) _) (fun freed w' _ hr => Safe.pure trivial fun _ => ?_)
      fun e w' _ _ h => nomatch h
    obtain ⟨hdb',hblobs'⟩ := hr rfl
    rw [hdb] at hfind hdb'
    exact ⟨hdb',executions,hfind,by rw [hblobs',← hblobs]⟩
  refine Safe.ensure (hbody.mono fun r w₂ _ hr => ?_)
  refine Safe.perform trivial fun c w' hans => ⟨trivial,?_⟩
  obtain ⟨hans,_⟩ := hans
  cases c with
  | error e => exact fun h => nomatch h
  | ok u =>
    cases hans
    exact fun hok => ⟨(hr hok).db,(hr hok).blobs⟩

/-- The loop over the keys that are to go. -/
theorem safe_purgeEach (keys : List ExecutionKey) {w : World} (h : WithinWithout maxBytes keys w) :
    Safe (Measured locks faults thread) (fun _ => True) (fun r w' => r.isOk=true → Within maxBytes w')
      (purgeEach softDrop keys : ServiceM Command (ℕ × ℕ)) w := by
  induction keys generalizing w with
  | nil =>
    refine Safe.pure trivial fun _ => ⟨h.1,?_⟩
    have htotal := h.2
    simp only [List.not_mem_nil,not_false_eq_true,decide_true,List.filter_true] at htotal
    exact htotal
  | cons key rest ih =>
    refine Safe.seq (safe_purgeKey key w) (fun one w' _ hr => ?_) fun e w' _ _ h => (by cases h)
    refine Safe.seq (ih ((hr rfl).withinWithout h)) (fun others w'' _ hr' => Safe.pure trivial fun _ => hr' rfl)
      fun e w' _ _ h => (by cases h)

/-- Purging the keys that are to go. -/
theorem safe_softPurgeKeys (keys : List ExecutionKey) {w : World} (h : WithinWithout maxBytes keys w) :
    Safe (Measured locks faults thread) (fun _ => True) (fun r w' => r.isOk=true → Within maxBytes w')
      (softPurgeKeys keys : ServiceM Command PurgeReport) w := by
  refine Safe.ite (fun hempty => ?_) fun _ => ?_
  · refine Safe.pure trivial fun _ => ?_
    rw [List.isEmpty_iff.mp hempty] at h
    have htotal := h.2
    simp only [List.not_mem_nil,not_false_eq_true,decide_true,List.filter_true] at htotal
    exact ⟨h.1,htotal⟩
  · exact Safe.seq (safe_purgeEach keys h) (fun pair w' _ hr => Safe.pure trivial fun _ => hr rfl)
      fun e w' _ _ h => (by cases h)

/-- An eviction that ends leaves the store within its quota. -/
theorem safe_evictToQuota (maxBytes : ℕ) (hone : w.db.AtMostOneCurrent) :
    Safe (Measured locks faults thread) (fun _ => True) (fun r w' => r.isOk=true → Within maxBytes w')
      (evictToQuota maxBytes : ServiceM Command PurgeReport) w := by
  have hraise : ∀ (e : PyExc) (w' : World),True ∧ ((Except.error e : Except PyExc PurgeReport).isOk=true →
      Within maxBytes w') := fun e w' => ⟨trivial,fun h => nomatch h⟩
  refine Safe.perform_bind trivial (fun current w₁ hans => ?_) fun e w' _ => hraise e w'
  obtain ⟨hans,hmeasure⟩ := hans
  have hcounted := hmeasure rfl
  obtain ⟨now,db,ht,rfl⟩ := answers_store_ok hans
  cases ht
  refine Safe.ite (fun hfits => Safe.pure trivial fun _ => ⟨hcounted,hfits⟩) fun hover => ?_
  refine Safe.perform_bind trivial (fun entries w₂ hans => ?_) fun e w' _ => hraise e w'
  obtain ⟨now,db,ht,rfl⟩ := answers_store_ok hans.1
  cases ht
  refine Safe.bind (Safe.perform_bind trivial (fun lastAccess w₃ hans => ?_) fun e w' _ => hraise e w')
  obtain ⟨hans,_⟩ := hans
  cases hans
  refine Safe.pure trivial ?_
  refine safe_softPurgeKeys _ ⟨hcounted,?_⟩
  have hrest := total_without_targets hone ⟨lastAccess,fun _ => [],fun _ => [],0⟩ maxBytes
  have htargets : (PurgeRequest.quota maxBytes).targets ⟨lastAccess,fun _ => [],fun _ => [],0⟩ w.db=
      evictedPrefix maxBytes (totalStoredBytes w.db)
        (lruOrder ⟨lastAccess,fun _ => [],fun _ => [],0⟩ w.db) := if_neg hover
  rw [htargets] at hrest
  exact hrest

end Evictions

end GenericMlCache.StoredBytes
