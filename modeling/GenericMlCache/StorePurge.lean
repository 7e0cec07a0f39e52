import GenericMlCache.ServicePorts

/-!
# Purge and eviction

The purge use cases and the two evictions, as programs over the ports. Every
one ends in the same loop: one key at a time under its lock, its rows are
dropped and then the blobs they named.
-/

namespace GenericMlCache.StorePurge

open CallProgram PythonText ExecutionModel ExecutionQueries RepositoryCalls ServicePorts

variable {Command : Type}

/-- `with self._execution_key_lock.acquire(key)`. -/
def withKeyLock {α : Type} (key : ExecutionKey) (body : ServiceM Command α) : ServiceM Command α := do
  ask (.acquireKey key)
  ensure body (ask (.releaseKey key))

/-- What a purge reports. -/
structure PurgeReport where
  /-- The executions removed. -/
  executionsRemoved : ℕ
  /-- The bytes freed. -/
  bytesFreed : ℕ
  /-- The blobs removed. -/
  blobsRemoved : ℕ
deriving DecidableEq,Repr

/-- The report of a purge that had nothing to do. -/
def PurgeReport.nothing : PurgeReport := ⟨0,0,0⟩

/-- `blob_sizes[key] = size` on a dict in insertion order. -/
def setSize (sizes : List (BlobKey × Size)) (key : BlobKey) (size : Size) : List (BlobKey × Size) :=
  if sizes.any (fun entry => decide (entry.1=key))=true then
    sizes.map fun entry => if entry.1=key then (key,size) else entry
  else sizes ++ [(key,size)]

/-- The distinct blob keys of a key's executions, with their sizes. -/
def blobSizes (executions : List MlExecution) : List (BlobKey × Size) :=
  (executions.flatMap (·.artifacts)).foldl (fun sizes a => setSize sizes a.blobKey a.sizeBytes) []

/-- The entries after a size is set. -/
theorem mem_setSize {sizes : List (BlobKey × Size)} {key : BlobKey} {size : Size} {entry : BlobKey × Size} :
    entry∈setSize sizes key size ↔ entry=(key,size) ∨ (entry∈sizes ∧ entry.1≠key) := by
  unfold setSize
  split
  next hany =>
    obtain ⟨there,hthere,hkey⟩ := List.any_eq_true.mp hany
    constructor
    · intro h
      obtain ⟨before,hbefore,rfl⟩ := List.mem_map.mp h
      by_cases hsame : before.1=key
      · rw [if_pos hsame]
        exact Or.inl rfl
      · rw [if_neg hsame]
        exact Or.inr ⟨hbefore,hsame⟩
    · rintro (rfl | ⟨hmem,hne⟩)
      · exact List.mem_map.mpr ⟨there,hthere,if_pos (of_decide_eq_true hkey)⟩
      · exact List.mem_map.mpr ⟨entry,hmem,if_neg hne⟩
  next hany =>
    constructor
    · intro h
      rcases List.mem_append.mp h with h | h
      · exact Or.inr ⟨h,fun hkey => hany (List.any_eq_true.mpr ⟨entry,h,decide_eq_true hkey⟩)⟩
      · exact Or.inl (List.mem_singleton.mp h)
    · rintro (rfl | ⟨h,_⟩)
      · exact List.mem_append_right _ (List.mem_singleton_self _)
      · exact List.mem_append_left _ h

/-- The sizes listed are those of the last artifacts that name their blobs. -/
theorem mem_foldl_setSize {artifacts : List Artifact} {entry : BlobKey × Size} :
    entry∈artifacts.foldl (fun sizes a => setSize sizes a.blobKey a.sizeBytes) [] ↔
      ∃ before a after,artifacts=before ++ a::after ∧ (∀ b∈after,b.blobKey≠a.blobKey) ∧
        entry=(a.blobKey,a.sizeBytes) := by
  -- From the right: the last artifact sets its size over every earlier one.
  induction artifacts using List.reverseRecOn with
  | nil => simp
  | append_singleton init last ih =>
    rw [List.foldl_append,List.foldl_cons,List.foldl_nil,mem_setSize,ih]
    constructor
    · rintro (rfl | ⟨⟨before,a,after,rfl,hlast,rfl⟩,hne⟩)
      · exact ⟨init,last,[],rfl,fun b hb => absurd hb List.not_mem_nil,rfl⟩
      · refine ⟨before,a,after ++ [last],by simp,fun b hb => ?_,rfl⟩
        rcases List.mem_append.mp hb with hb | hb
        · exact hlast b hb
        · rw [List.mem_singleton.mp hb]
          exact hne.symm
    · rintro ⟨before,a,after,hsplit,hlast,rfl⟩
      rcases List.eq_nil_or_concat after with rfl | ⟨rest,b,rfl⟩
      · obtain ⟨_,hone⟩ := List.append_inj' hsplit rfl
        cases hone
        exact Or.inl rfl
      · have hsplit' : init ++ [last]=(before ++ a::rest) ++ [b] := by simpa using hsplit
        obtain ⟨rfl,hone⟩ := List.append_inj' hsplit' rfl
        cases hone
        have hne : last.blobKey≠a.blobKey := hlast last (by simp)
        exact Or.inr ⟨⟨before,a,rest,rfl,fun c hc => hlast c (by simp [hc]),rfl⟩,hne.symm⟩

/-- A listed size is that of an artifact. -/
theorem artifact_of_mem_blobSizes {executions : List MlExecution} {entry : BlobKey × Size}
    (h : entry∈blobSizes executions) :
    ∃ execution∈executions,∃ a∈execution.artifacts,a.blobKey=entry.1 ∧ a.sizeBytes=entry.2 := by
  obtain ⟨before,a,after,hsplit,_,rfl⟩ := mem_foldl_setSize.mp h
  have hmem : a∈executions.flatMap (·.artifacts) := by
    rw [hsplit]
    simp
  obtain ⟨execution,he,ha⟩ := List.mem_flatMap.mp hmem
  exact ⟨execution,he,a,ha,rfl,rfl⟩

/-- Every blob key of the executions is listed. -/
theorem mem_blobSizes {executions : List MlExecution} {execution : MlExecution} {a : Artifact}
    (he : execution∈executions) (ha : a∈execution.artifacts) :
    ∃ size∈blobSizes executions,size.1=a.blobKey := by
  have hmem : a∈executions.flatMap (·.artifacts) := List.mem_flatMap.mpr ⟨execution,he,ha⟩
  have hsome : ((executions.flatMap (·.artifacts)).reverse.find? fun b => decide (b.blobKey=a.blobKey)).isSome=true :=
    List.find?_isSome.mpr ⟨a,List.mem_reverse.mpr hmem,decide_eq_true rfl⟩
  obtain ⟨last,hlast⟩ := Option.isSome_iff_exists.mp hsome
  obtain ⟨hkey,after,before,hsplit,hnone⟩ := List.find?_eq_some_iff_append.mp hlast
  have hkey' : last.blobKey=a.blobKey := of_decide_eq_true hkey
  refine ⟨(last.blobKey,last.sizeBytes),mem_foldl_setSize.mpr ⟨before.reverse,last,after.reverse,?_,?_,rfl⟩,hkey'⟩
  · rw [← List.reverse_reverse (executions.flatMap (·.artifacts)),hsplit]
    simp
  · intro b hb heq
    have hother := hnone b (List.mem_reverse.mp hb)
    rw [heq,hkey'] at hother
    simp at hother

/-- `_blob_sizes_for`. Its callers pass one key at a time. -/
def blobSizesFor (key : ExecutionKey) : ServiceM Command (List (BlobKey × Size)) := do
  let executions ← store (.findAll key)
  return blobSizes executions

/-- The TypeError of adding a text to a number. -/
def sizeError : PyExc := .other true (pyStr "unsupported operand type(s) for +=: 'int' and 'str'")

/-- `bytes_freed += size_bytes`. -/
def addedSize : Size → Except PyExc ℕ
  | .bytes n => .ok n
  | .text _ _ => .error sizeError

/-- No size listed is a text. -/
def addable (sizes : List (BlobKey × Size)) : Bool := sizes.all fun entry => (addedSize entry.2).isOk

/-- The first size and the others. -/
theorem addable_cons {entry : BlobKey × Size} {sizes : List (BlobKey × Size)} :
    addable (entry::sizes)=true ↔ (addedSize entry.2).isOk=true ∧ addable sizes=true := by
  simp [addable]

/-- What adding a size raises. -/
theorem error_of_addedSize {size : Size} {e : PyExc} (h : addedSize size=.error e) : e=sizeError := by
  cases size with
  | bytes n => cases h
  | text text summed =>
    cases h
    rfl

/-- The loop of `_remove_blobs`: the bytes freed. -/
def removeEach : List (BlobKey × Size) → ServiceM Command ℕ
  | [] => return 0
  | (blobKey,size)::rest => do
    ask (.blobRemove blobKey)
    let sizeBytes ← ofExcept (addedSize size)
    let freed ← removeEach rest
    return sizeBytes+freed

/-- `_remove_blobs`. -/
def removeBlobs (sizes : List (BlobKey × Size)) : ServiceM Command (ℕ × ℕ) := do
  let freed ← removeEach sizes
  return (sizes.length,freed)

/-- One key of a purge: its sizes, then its rows, then its blobs. -/
def purgeKey (dropRows : ExecutionKey → ServiceM Command Unit) (key : ExecutionKey) :
    ServiceM Command (ℕ × ℕ) :=
  withKeyLock key do
    let sizes ← blobSizesFor key
    dropRows key
    removeBlobs sizes

/-- The loop of both purges: blobs removed and bytes freed. -/
def purgeEach (dropRows : ExecutionKey → ServiceM Command Unit) :
    List ExecutionKey → ServiceM Command (ℕ × ℕ)
  | [] => return (0,0)
  | key::rest => do
    let one ← purgeKey dropRows key
    let others ← purgeEach dropRows rest
    return (one.1+others.1,one.2+others.2)

/-- Purge the keys and report. -/
def purgeKeys (dropRows : ExecutionKey → ServiceM Command Unit) (keys : List ExecutionKey) :
    ServiceM Command PurgeReport :=
  if keys.isEmpty=true then return PurgeReport.nothing
  else do
    let (blobsRemoved,bytesFreed) ← purgeEach dropRows keys
    return ⟨keys.length,bytesFreed,blobsRemoved⟩

/-- The rows a soft purge drops. -/
def softDrop (key : ExecutionKey) : ServiceM Command Unit := store (.softPurgeExecution key)

/-- The rows and events a hard delete drops. -/
def hardDrop (key : ExecutionKey) : ServiceM Command Unit := do
  let _ ← store (.hardDeleteExecution key)
  ask (.deleteEventsForKey key)

/-- `_soft_purge_keys`. -/
def softPurgeKeys : List ExecutionKey → ServiceM Command PurgeReport := purgeKeys softDrop

/-- `_hard_delete_keys`. -/
def hardDeleteKeys : List ExecutionKey → ServiceM Command PurgeReport := purgeKeys hardDrop

/-- `_purge`. -/
def purge (keys : List ExecutionKey) (hard : Bool) : ServiceM Command PurgeReport :=
  if hard=true then hardDeleteKeys keys else softPurgeKeys keys

/-- `purge_by_key`. -/
def purgeByKey (key : ExecutionKey) (hard : Bool) : ServiceM Command PurgeReport := do
  let executions ← store (.findAll key)
  if executions.isEmpty=true then return PurgeReport.nothing
  else purge [key] hard

/-- `purge_by_tag`. -/
def purgeByTag (tag : PyStr) (hard : Bool) : ServiceM Command PurgeReport := do
  let keys ← store (.executionsByTag tag)
  purge keys hard

/-- `purge_by_session`. -/
def purgeBySession (sessionId : PyStr) (hard : Bool) : ServiceM Command PurgeReport := do
  let keys ← ask (.executionKeysForSession sessionId)
  purge keys hard

/-- The keys of the sessions, each once and in order. -/
def keysForSessions : List PyStr → List ExecutionKey → ServiceM Command (List ExecutionKey)
  | [],keys => return keys
  | sessionId::rest,keys => do
    let more ← ask (.executionKeysForSession sessionId)
    keysForSessions rest (more.foldl (fun ks k => if k∈ks then ks else ks ++ [k]) keys)

/-- `purge_by_session_tag`, with `_keys_for_session_tag`. -/
def purgeBySessionTag (tag : PyStr) (hard : Bool) : ServiceM Command PurgeReport := do
  let sessionIds ← ask (.sessionIdsForTag tag)
  let keys ← keysForSessions sessionIds []
  purge keys hard

/-- `purge_all`: a hard purge reaches failed-only keys too. -/
def purgeAll (hard : Bool) : ServiceM Command PurgeReport :=
  if hard=true then do
    let keys ← store .allExecutionKeys
    purge keys hard
  else do
    let entries ← store .currentExecutionsWithSizes
    purge (entries.map (·.executionKey)) hard

/-- `_access_ordering`: unreadable access data orders by creation time. -/
def accessOrdering : ServiceM Command (List (ExecutionKey × Timestamp)) := do
  let lastAccess ← ask .lastAccess
  return lastAccess.getD []

/-- `_lru_epoch`: the last access, else the creation time. -/
def lruEpoch (lastAccess : List (ExecutionKey × Timestamp)) (entry : ExecutionSizeEntry) : Timestamp :=
  match lastAccess.find? fun access => decide (access.1=entry.executionKey) with
  | some access => access.2
  | none => entry.createdAt

/-- `evict_stale`, its age in microseconds. -/
def evictStale (maxAge : ℤ) : ServiceM Command PurgeReport :=
  if maxAge ≤ 0 then return PurgeReport.nothing
  else do
    let now : Timestamp ← ask .currentTime
    let entries ← store .currentExecutionsWithSizes
    let lastAccess ← accessOrdering
    let stale := entries.filter fun entry => decide (lruEpoch lastAccess entry < now-maxAge)
    softPurgeKeys (stale.map (·.executionKey))

/-- The entries to evict, in order, while the total is above the quota. -/
def evictedPrefix (maxBytes : ℕ) : ℤ → List ExecutionSizeEntry → List ExecutionKey
  | _,[] => []
  | running,entry::rest =>
    if running ≤ maxBytes then []
    else entry.executionKey::evictedPrefix maxBytes (running-entry.totalSizeBytes) rest

/-- `evict_to_quota`. -/
def evictToQuota (maxBytes : ℕ) : ServiceM Command PurgeReport := do
  let current : ℕ ← store .totalStoredBytes
  if current ≤ maxBytes then return PurgeReport.nothing
  else do
    let entries ← store .currentExecutionsWithSizes
    let lastAccess ← accessOrdering
    let sorted := List.insertionSort (fun a b => lruEpoch lastAccess a ≤ lruEpoch lastAccess b) entries
    softPurgeKeys (evictedPrefix maxBytes current sorted)

end GenericMlCache.StorePurge
