import GenericMlCache.CallOutcome
import GenericMlCache.StoreSoundness
import GenericMlCache.UndisturbedRuns

/-!
# A purge run alone

With no other caller in the store and no fault, a purge or an eviction has one
outcome, computed here key by key: the key's rows are loaded, its rows are
dropped, and the blobs its artifact rows named are removed. A row that does not
load ends the loop at its key, and so does a size that cannot be added.
-/

namespace GenericMlCache.PurgeRuns

open CallProgram PythonText ExecutionModel SqliteStore ExecutionRepository ExecutionQueries RepositoryCalls
  ServicePorts StorePurge StoreSoundness UndisturbedRuns

/-- What the ports tell a purge besides the store. -/
structure Registry where
  /-- When each key was last accessed; none where the journal cannot tell. -/
  lastAccess : Option (List (ExecutionKey × Timestamp))
  /-- The keys a session has used. -/
  executionKeysForSession : PyStr → List ExecutionKey
  /-- The sessions that bear a tag. -/
  sessionIdsForTag : PyStr → List PyStr
  /-- The time. -/
  now : Timestamp

section Alone
variable {Command : Type} (registry : Registry) (thread : ThreadId)

/-- The answer is what the registry holds. -/
def Registry.Tells : (call : Call Command) → Except PyExc call.Ret → Prop
  | .lastAccess,r => r=.ok registry.lastAccess
  | .executionKeysForSession sessionId,r => r=.ok (registry.executionKeysForSession sessionId)
  | .sessionIdsForTag tag,r => r=.ok (registry.sessionIdsForTag tag)
  | .currentTime,r => r=.ok registry.now
  | _,_ => True

/-- No fault, and no other caller. -/
def Alone : Sem (Call Command) Call.Ret PyExc World :=
  fun call w r w' => Answers .exclusive noFaults thread call w r w' ∧ registry.Tells call r

variable {registry thread} {w : World}

/-- A repository call whose transaction commits the same at every time. -/
theorem yields_store {call : StoreCall} {a : call.Ret} {db : Db} (h : ∀ now,transact now w.db call=.ok (a,db)) :
    Yields (Alone registry thread) (store call : ServiceM Command call.Ret) w (.ok a) { w with db := db } := by
  refine Yields.perform ⟨.commit 0 (h 0),trivial⟩ fun r t hans => ?_
  rcases answers_store hans.1 with ⟨now,a',db',ht,rfl,rfl⟩ | ⟨e,rfl,rfl,hf | ⟨now,ht⟩⟩
  · cases (h now).symm.trans ht
    exact ⟨rfl,rfl⟩
  · exact hf.elim
  · exact nomatch (h now).symm.trans ht

/-- A repository call whose transaction raises. -/
theorem yields_store_error {call : StoreCall} {e : PyExc} (h : ∀ now,transact now w.db call=.error e) :
    Yields (Alone registry thread) (store call : ServiceM Command call.Ret) w (.error e) w := by
  refine Yields.perform ⟨.reject 0 (h 0),trivial⟩ fun r t hans => ?_
  rcases answers_store hans.1 with ⟨now,a',db',ht,rfl,rfl⟩ | ⟨e',rfl,rfl,hf | ⟨now,ht⟩⟩
  · exact nomatch (h now).symm.trans ht
  · exact hf.elim
  · cases (h now).symm.trans ht
    exact ⟨rfl,rfl⟩

/-- A read has its answer. -/
theorem yields_read {call : StoreCall} {a : call.Ret} (h : ∀ now,transact now w.db call=.ok (a,w.db)) :
    Yields (Alone registry thread) (store call : ServiceM Command call.Ret) w (.ok a) w :=
  yields_store h

/-- A blob is removed. -/
theorem yields_blobRemove (key : BlobKey) : Yields (Alone registry thread)
    (ask (.blobRemove key) : ServiceM Command Unit) w (.ok ()) { w with blobs := w.blobs.remove key } := by
  refine Yields.perform ⟨.blobRemove,trivial⟩ fun r t hans => ?_
  obtain ⟨hans,_⟩ := hans
  cases hans with
  | fault _ hf => exact hf.elim
  | blobRemove => exact ⟨rfl,rfl⟩

/-- A key's events are deleted. -/
theorem yields_deleteEventsForKey (key : ExecutionKey) : Yields (Alone registry thread)
    (ask (.deleteEventsForKey key) : ServiceM Command Unit) w (.ok ())
    { w with journal := w.journal.filter fun entry => decide (entry.executionKey≠key) } := by
  refine Yields.perform ⟨.deleteEventsForKey,trivial⟩ fun r t hans => ?_
  obtain ⟨hans,_⟩ := hans
  cases hans with
  | fault _ hf => exact hf.elim
  | deleteEventsForKey => exact ⟨rfl,rfl⟩

/-- The access data. -/
theorem yields_lastAccess : Yields (Alone registry thread)
    (ask .lastAccess : ServiceM Command (Option (List (ExecutionKey × Timestamp)))) w (.ok registry.lastAccess) w := by
  refine Yields.perform ⟨.lastAccess registry.lastAccess,rfl⟩ fun r t hans => ?_
  obtain ⟨hans,htold⟩ := hans
  cases hans with
  | fault _ hf => exact hf.elim
  | lastAccess => exact ⟨htold,rfl⟩

/-- The keys of a session. -/
theorem yields_executionKeysForSession (sessionId : PyStr) : Yields (Alone registry thread)
    (ask (.executionKeysForSession sessionId) : ServiceM Command (List ExecutionKey)) w
    (.ok (registry.executionKeysForSession sessionId)) w := by
  refine Yields.perform ⟨.executionKeysForSession (registry.executionKeysForSession sessionId),rfl⟩ fun r t hans => ?_
  obtain ⟨hans,htold⟩ := hans
  cases hans with
  | fault _ hf => exact hf.elim
  | executionKeysForSession => exact ⟨htold,rfl⟩

/-- The sessions carrying a tag. -/
theorem yields_sessionIdsForTag (tag : PyStr) : Yields (Alone registry thread)
    (ask (.sessionIdsForTag tag) : ServiceM Command (List PyStr)) w (.ok (registry.sessionIdsForTag tag)) w := by
  refine Yields.perform ⟨.sessionIdsForTag (registry.sessionIdsForTag tag),rfl⟩ fun r t hans => ?_
  obtain ⟨hans,htold⟩ := hans
  cases hans with
  | fault _ hf => exact hf.elim
  | sessionIdsForTag => exact ⟨htold,rfl⟩

/-- The time. -/
theorem yields_currentTime : Yields (Alone registry thread) (ask .currentTime : ServiceM Command Timestamp) w
    (.ok registry.now) w := by
  refine Yields.perform ⟨.currentTime registry.now,rfl⟩ fun r t hans => ?_
  obtain ⟨hans,htold⟩ := hans
  cases hans with
  | fault _ hf => exact hf.elim
  | currentTime => exact ⟨htold,rfl⟩

/-- A body under a key lock that no other thread is in. -/
theorem yields_withKeyLock {α : Type} {key : ExecutionKey} {body : ServiceM Command α} {r : Except PyExc α} {w' : World}
    (hown : OwnLocks thread w)
    (h : Yields (Alone registry thread) body { w with held := (thread,key)::w.held } r
      { w' with held := (thread,key)::w'.held }) :
    Yields (Alone registry thread) (withKeyLock key body) w r w' := by
  have hacquire : Yields (Alone registry thread) (ask (.acquireKey key) : ServiceM Command Unit) w (.ok ())
      { w with held := (thread,key)::w.held } := by
    refine Yields.perform ⟨.acquireKey fun _ holding hmem _ => hown holding hmem,trivial⟩ fun r t hans => ?_
    obtain ⟨hans,_⟩ := hans
    cases hans with
    | fault _ hf => exact hf.elim
    | acquireKey => exact ⟨rfl,rfl⟩
  have hrelease : Yields (Alone registry thread) (ask (.releaseKey key) : ServiceM Command Unit)
      { w' with held := (thread,key)::w'.held } (.ok ()) w' := by
    have hworld : { w' with held := ((thread,key)::w'.held).erase (thread,key) }=w' := by
      rw [List.erase_cons_head]
    refine Yields.perform ⟨?_,trivial⟩ fun r t hans => ?_
    · have hans : Answers .exclusive noFaults thread (.releaseKey key : Call Command)
          { w' with held := (thread,key)::w'.held } (.ok ())
          { w' with held := ((thread,key)::w'.held).erase (thread,key) } := .releaseKey
      rw [hworld] at hans
      exact hans
    · obtain ⟨hans,_⟩ := hans
      cases hans with
      | fault _ hf => exact hf.elim
      | releaseKey => exact ⟨rfl,hworld⟩
  exact hacquire.bind (h.ensure hrelease)

end Alone

/-- The blobs without those of the listed keys. -/
def removeSizes (sizes : List (BlobKey × Size)) (blobs : BlobStore) : BlobStore :=
  sizes.foldl (fun b entry => b.remove entry.1) blobs

/-- The outcome of removing the blobs in order: a text for a size ends it after its blob. -/
def removedEach : List (BlobKey × Size) → BlobStore → Except PyExc ℕ × BlobStore
  | [],blobs => (.ok 0,blobs)
  | (blobKey,size)::rest,blobs =>
    andThen (addedSize size,blobs.remove blobKey) fun sizeBytes blobs' =>
      andThen (removedEach rest blobs') fun freed blobs'' => (.ok (sizeBytes+freed),blobs'')

/-- The sizes together. -/
def totalSize (sizes : List (BlobKey × Size)) : ℕ := (sizes.map (·.2.summed)).sum

/-- Sizes that can be added up are, and every blob is removed. -/
theorem removedEach_of {sizes : List (BlobKey × Size)} (h : addable sizes=true) (blobs : BlobStore) :
    removedEach sizes blobs=(.ok (totalSize sizes),removeSizes sizes blobs) := by
  induction sizes generalizing blobs with
  | nil => rfl
  | cons entry rest ih =>
    obtain ⟨blobKey,size⟩ := entry
    obtain ⟨hsize,hrest⟩ := addable_cons.mp h
    cases size with
    | text text summed => cases hsize
    | bytes n =>
      show andThen (removedEach rest (blobs.remove blobKey)) _=_
      rw [ih hrest]
      rfl

/-- A size that cannot be added raises. -/
theorem removedEach_of_not {sizes : List (BlobKey × Size)} (h : addable sizes=false) (blobs : BlobStore) :
    ∃ e,(removedEach sizes blobs).1=.error e := by
  induction sizes generalizing blobs with
  | nil => cases h
  | cons entry rest ih =>
    obtain ⟨blobKey,size⟩ := entry
    cases size with
    | text text summed => exact ⟨_,rfl⟩
    | bytes n =>
      obtain ⟨e,he⟩ := ih h (blobs.remove blobKey)
      refine ⟨e,?_⟩
      show (andThen (removedEach rest (blobs.remove blobKey)) _).1=_
      generalize removedEach rest (blobs.remove blobKey)=outcome at he
      obtain ⟨r,blobs'⟩ := outcome
      cases he
      rfl

/-- The world after a key's rows are dropped. -/
def dropped (hard : Bool) (key : ExecutionKey) (w : World) : World :=
  if hard=true then
    { w with
      db := hardDeleteExecution key w.db
      journal := w.journal.filter fun entry => decide (entry.executionKey≠key) }
  else { w with db := softPurgeExecution key w.db }

/-- The outcome of one key. -/
def purgedKey (hard : Bool) (key : ExecutionKey) (w : World) : Except PyExc (ℕ × ℕ) × World :=
  match findAll key w.db with
  | .error e => (.error e,w)
  | .ok executions =>
    ((removedEach (blobSizes executions) w.blobs).1.map fun freed => ((blobSizes executions).length,freed),
      { dropped hard key w with blobs := (removedEach (blobSizes executions) w.blobs).2 })

/-- The outcome of the loop over the keys. -/
def purgedEach (hard : Bool) : List ExecutionKey → World → Except PyExc (ℕ × ℕ) × World
  | [],w => (.ok (0,0),w)
  | key::rest,w =>
    andThen (purgedKey hard key w) fun one w' =>
      andThen (purgedEach hard rest w') fun others w'' => (.ok (one.1+others.1,one.2+others.2),w'')

/-- The outcome of a purge of the keys. -/
def purgedKeys (hard : Bool) (keys : List ExecutionKey) (w : World) : Except PyExc PurgeReport × World :=
  if keys.isEmpty=true then (.ok PurgeReport.nothing,w)
  else andThen (purgedEach hard keys w) fun pair w' => (.ok ⟨keys.length,pair.2,pair.1⟩,w')

section Keys
variable {Command : Type} {registry : Registry} {thread : ThreadId}

/-- The blobs are removed one by one. -/
theorem yields_removeEach (sizes : List (BlobKey × Size)) (w : World) :
    Yields (Alone registry thread) (removeEach sizes : ServiceM Command ℕ) w (removedEach sizes w.blobs).1
      { w with blobs := (removedEach sizes w.blobs).2 } := by
  induction sizes generalizing w with
  | nil => exact Yields.pure 0 w
  | cons entry rest ih =>
    obtain ⟨blobKey,size⟩ := entry
    refine (yields_blobRemove blobKey).bind ?_
    cases size with
    | text text summed => exact (Yields.ofExcept (addedSize (.text text summed)) _).bind_error _
    | bytes n =>
      have hrest := ih { w with blobs := w.blobs.remove blobKey }
      show Yields (Alone registry thread) (removeEach rest >>= _) _
        (andThen (removedEach rest (w.blobs.remove blobKey)) _).1
        { w with blobs := (andThen (removedEach rest (w.blobs.remove blobKey)) _).2 }
      generalize removedEach rest (w.blobs.remove blobKey)=outcome at hrest ⊢
      obtain ⟨r,blobs⟩ := outcome
      cases r with
      | error e => exact hrest.bind_error _
      | ok freed => exact hrest.bind (Yields.pure _ _)

/-- They are counted, and their sizes. -/
theorem yields_removeBlobs (sizes : List (BlobKey × Size)) (w : World) :
    Yields (Alone registry thread) (removeBlobs sizes : ServiceM Command (ℕ × ℕ)) w
      ((removedEach sizes w.blobs).1.map fun freed => (sizes.length,freed))
      { w with blobs := (removedEach sizes w.blobs).2 } := by
  have hremove : Yields (Alone registry thread) (removeEach sizes : ServiceM Command ℕ) w _ _ := yields_removeEach sizes w
  generalize removedEach sizes w.blobs=outcome at hremove ⊢
  obtain ⟨r,blobs⟩ := outcome
  cases r with
  | error e => exact hremove.bind_error _
  | ok freed => exact hremove.bind (Yields.pure _ _)

/-- The rows are dropped. -/
theorem yields_drop (hard : Bool) (key : ExecutionKey) (w : World) :
    Yields (Alone registry thread) ((if hard=true then hardDrop key else softDrop key : ServiceM Command Unit)) w
      (.ok ()) (dropped hard key w) := by
  cases hard with
  | true =>
    have hdelete : ∀ now,transact now w.db (.hardDeleteExecution key)=.ok ((),hardDeleteExecution key w.db) :=
      fun _ => rfl
    exact (yields_store hdelete).bind (yields_deleteEventsForKey key)
  | false =>
    have hpurge : ∀ now,transact now w.db (.softPurgeExecution key)=.ok ((),softPurgeExecution key w.db) :=
      fun _ => rfl
    exact yields_store hpurge

/-- The program that drops a key's rows. -/
abbrev dropRows (hard : Bool) (key : ExecutionKey) : ServiceM Command Unit :=
  if hard=true then hardDrop key else softDrop key

/-- One key's outcome. -/
theorem yields_purgeKey (hard : Bool) (key : ExecutionKey) {w : World} (hown : OwnLocks thread w) :
    Yields (Alone registry thread) (purgeKey (dropRows hard) key : ServiceM Command (ℕ × ℕ)) w
      (purgedKey hard key w).1 (purgedKey hard key w).2 := by
  refine yields_withKeyLock hown ?_
  unfold purgedKey
  cases hfind : findAll key w.db with
  | error e =>
    have hread : ∀ now,transact now w.db (.findAll key)=.error e := by
      intro now
      show reading w.db (findAll key w.db)=_
      rw [hfind]
      rfl
    have hstore : Yields (Alone registry thread) (store (.findAll key) : ServiceM Command (List MlExecution))
        { w with held := (thread,key)::w.held } (.error e) { w with held := (thread,key)::w.held } :=
      yields_store_error hread
    exact (hstore.bind_error _).bind_error _
  | ok executions =>
    have hread : ∀ now,transact now w.db (.findAll key)=.ok (executions,w.db) := by
      intro now
      show reading w.db (findAll key w.db)=_
      rw [hfind]
      rfl
    have hstore : Yields (Alone registry thread) (store (.findAll key) : ServiceM Command (List MlExecution))
        { w with held := (thread,key)::w.held } (.ok executions) { w with held := (thread,key)::w.held } :=
      yields_read hread
    have hsizes : Yields (Alone registry thread) (blobSizesFor key : ServiceM Command (List (BlobKey × Size)))
        { w with held := (thread,key)::w.held } (.ok (blobSizes executions)) { w with held := (thread,key)::w.held } :=
      hstore.bind (Yields.pure (blobSizes executions) _)
    refine hsizes.bind ((yields_drop hard key _).bind ?_)
    cases hard with
    | true => exact yields_removeBlobs _ _
    | false => exact yields_removeBlobs _ _

/-- Dropping rows and removing blobs leaves the locks. -/
theorem held_purgedKey (hard : Bool) (key : ExecutionKey) (w : World) : (purgedKey hard key w).2.held=w.held := by
  unfold purgedKey dropped
  cases findAll key w.db with
  | error e => rfl
  | ok executions => cases hard <;> rfl

/-- The loop's outcome. -/
theorem yields_purgeEach (hard : Bool) (keys : List ExecutionKey) {w : World} (hown : OwnLocks thread w) :
    Yields (Alone registry thread) (purgeEach (dropRows hard) keys : ServiceM Command (ℕ × ℕ)) w
      (purgedEach hard keys w).1 (purgedEach hard keys w).2 := by
  induction keys generalizing w with
  | nil => exact Yields.pure _ _
  | cons key rest ih =>
    refine (yields_purgeKey hard key hown).andThen fun one w' hone => ?_
    have hheld : w'.held=w.held := by
      have hkey := held_purgedKey hard key w
      rw [hone] at hkey
      exact hkey
    have hown' : OwnLocks thread w' := by
      unfold OwnLocks
      rw [hheld]
      exact hown
    exact (ih hown').andThen fun others w'' _ => Yields.pure _ _

/-- The outcome of a purge of the keys. -/
theorem yields_purge (hard : Bool) (keys : List ExecutionKey) {w : World} (hown : OwnLocks thread w) :
    Yields (Alone registry thread) (purge keys hard : ServiceM Command PurgeReport) w
      (purgedKeys hard keys w).1 (purgedKeys hard keys w).2 := by
  have hprogram : (purge keys hard : ServiceM Command PurgeReport)=purgeKeys (dropRows hard) keys := by
    cases hard <;> rfl
  rw [hprogram]
  unfold purgeKeys purgedKeys
  by_cases hempty : keys.isEmpty=true
  · rw [if_pos hempty,if_pos hempty]
    exact Yields.pure _ _
  · rw [if_neg hempty,if_neg hempty]
    exact (yields_purgeEach hard keys hown).andThen fun pair w' _ => Yields.pure _ _

end Keys

/-- Every row of the key can be reconstructed. -/
def Loads (key : ExecutionKey) (db : Db) : Prop :=
  ∀ row∈db.executions,row.executionKey=key → ∃ execution,loadExecution db row=.ok execution

/-- Finding a key's executions succeeds exactly where its rows load. -/
theorem findAll_iff_loads {key : ExecutionKey} {db : Db} :
    (∃ executions,findAll key db=.ok executions) ↔ Loads key db := by
  constructor
  · rintro ⟨executions,hfind⟩ row hrow hkey
    have hmem : row∈db.executions.filter (hasKey key) := List.mem_filter.mpr ⟨hrow,by simpa using hkey⟩
    obtain ⟨execution,_,hload⟩ := (mem_of_forall₂ (forall₂_of_mapM hfind)).2 row hmem
    exact ⟨execution,hload⟩
  · intro h
    refine mapM_total fun row hrow => ?_
    obtain ⟨hmem,hkey⟩ := List.mem_filter.mp hrow
    exact h row hmem (by simpa using hkey)

/-- The blob key is named by an artifact row of one of the keys. -/
def Named (keys : List ExecutionKey) (db : Db) (blobKey : BlobKey) : Prop :=
  ∃ row∈db.executions,row.executionKey∈keys ∧ ∃ a∈row.artifacts,a.blobKey=.value blobKey

section Drops
variable {hard : Bool} {key other : ExecutionKey} {w : World}

/-- Dropping a key's rows leaves the rows of the others. -/
theorem filter_dropped (h : other≠key) :
    (dropped hard key w).db.executions.filter (hasKey other)=w.db.executions.filter (hasKey other) := by
  cases hard with
  | true =>
    show (w.db.executions.filter fun row => !hasKey key row).filter (hasKey other)=_
    rw [List.filter_filter]
    refine List.filter_congr fun row _ => ?_
    by_cases hrow : row.executionKey=other
    · simp [hasKey,hrow,h]
    · simp [hasKey,hrow]
  | false =>
    refine filter_updateWhere_of_ne fun row _ hrow heq => ?_
    exact h (heq.symm.trans ((hasKey_iff _ _).mp hrow))

/-- It leaves their identities. -/
theorem loadIdentity_dropped (h : other≠key) :
    loadIdentity (dropped hard key w).db other=loadIdentity w.db other := by
  cases hard with
  | true =>
    have hfind : (dropped true key w).db.callIdentities.find? (fun i => decide (i.executionKey=other))=
        w.db.callIdentities.find? fun i => decide (i.executionKey=other) := by
      show (w.db.callIdentities.filter fun i => !decide (i.executionKey=key)).find? _=_
      rw [List.find?_filter]
      congr 1
      funext i
      by_cases hi : i.executionKey=other
      · simp [hi,h]
      · simp [hi]
    unfold loadIdentity
    rw [hfind]
  | false => rfl

/-- A row of another key loads as before. -/
theorem loadExecution_dropped {row : ExecutionRow} (h : row.executionKey≠key) :
    loadExecution (dropped hard key w).db row=loadExecution w.db row := by
  unfold loadExecution loadColumns
  rw [loadIdentity_dropped h]

/-- The executions of the other keys are found as before. -/
theorem findAll_dropped (h : other≠key) : findAll other (dropped hard key w).db=findAll other w.db := by
  have hmapM : ∀ rows : List ExecutionRow,(∀ row∈rows,row.executionKey≠key) →
      rows.mapM (loadExecution (dropped hard key w).db)=rows.mapM (loadExecution w.db) := by
    intro rows
    induction rows with
    | nil => exact fun _ => rfl
    | cons row rows ih =>
      intro hrows
      have hrest := ih fun row' hmem => hrows row' (List.mem_cons_of_mem _ hmem)
      rw [List.mapM_cons,List.mapM_cons,loadExecution_dropped (hrows row List.mem_cons_self),hrest]
  unfold findAll
  rw [filter_dropped h]
  refine hmapM _ fun row hrow heq => h ?_
  have hkey := (List.mem_filter.mp hrow).2
  exact ((hasKey_iff _ _).mp hkey).symm.trans heq

/-- A row of the key after its rows were dropped: a soft purge leaves it without artifacts. -/
theorem mem_dropped {row' : ExecutionRow} : row'∈(dropped hard key w).db.executions ↔
    (row'∈w.db.executions ∧ row'.executionKey≠key) ∨
      (hard=false ∧ ∃ row∈w.db.executions,row.executionKey=key ∧ row'=row.update purgedColumns) := by
  cases hard with
  | true =>
    show row'∈(hardDeleteExecution key w.db).executions ↔ _
    rw [mem_hardDeleteExecution]
    simp
  | false =>
    show row'∈(softPurgeExecution key w.db).executions ↔ _
    unfold softPurgeExecution
    rw [Db.mem_updateWhere]
    constructor
    · rintro ⟨row,hrow,rfl⟩
      by_cases hkey : row.executionKey=key
      · rw [if_pos (by simpa using hkey)]
        exact Or.inr ⟨rfl,row,hrow,hkey,rfl⟩
      · rw [if_neg (by simpa using hkey)]
        exact Or.inl ⟨hrow,hkey⟩
    · rintro (⟨hrow,hkey⟩ | ⟨_,row,hrow,hkey,rfl⟩)
      · exact ⟨row',hrow,if_neg (by simpa using hkey)⟩
      · exact ⟨row,hrow,if_pos (by simpa using hkey)⟩

/-- Keys that load still load. -/
theorem Loads.dropped (h : Loads other w.db) : Loads other (dropped hard key w).db := by
  intro row' hrow' hkey'
  rcases mem_dropped.mp hrow' with ⟨hrow,hne⟩ | ⟨rfl,row,hrow,hkey,rfl⟩
  · obtain ⟨execution,hload⟩ := h row' hrow hkey'
    exact ⟨execution,(loadExecution_dropped hne).trans hload⟩
  · obtain ⟨execution,hload⟩ := h row hrow hkey'
    have hdecodes := Decodes.of_load hload
    obtain ⟨hstate,hsup,hfail,_,husage⟩ := (wellFormed_iff _).mp hdecodes.columns
    have hcolumns : MutableColumns.wellFormed (row.update purgedColumns).toMutableColumns=true :=
      (wellFormed_iff _).mpr ⟨hstate,hsup,hfail,fun _ ha => (nomatch ha),husage⟩
    exact Decodes.load ⟨hcolumns,hdecodes.kind,hdecodes.identity⟩

/-- No artifact row of the key is left. -/
theorem named_dropped {keys : List ExecutionKey} {blobKey : BlobKey} : Named keys (dropped hard key w).db blobKey ↔
    ∃ row∈w.db.executions,row.executionKey∈keys ∧ row.executionKey≠key ∧ ∃ a∈row.artifacts,a.blobKey=.value blobKey := by
  constructor
  · rintro ⟨row',hrow',hkeys,a,ha,hname⟩
    rcases mem_dropped.mp hrow' with ⟨hrow,hne⟩ | ⟨_,row,_,_,rfl⟩
    · exact ⟨row',hrow,hkeys,hne,a,ha,hname⟩
    · exact nomatch ha
  · rintro ⟨row,hrow,hkeys,hne,a,ha,hname⟩
    exact ⟨row,mem_dropped.mpr (Or.inl ⟨hrow,hne⟩),hkeys,a,ha,hname⟩

end Drops

/-- A size is set once for its key. -/
theorem setSize_nodup {sizes : List (BlobKey × Size)} (h : (sizes.map (·.1)).Nodup) (blobKey : BlobKey) (size : Size) :
    ((setSize sizes blobKey size).map (·.1)).Nodup := by
  unfold setSize
  split
  · have hsame : (sizes.map fun entry => if entry.1=blobKey then (blobKey,size) else entry).map (·.1)=sizes.map (·.1) := by
      rw [List.map_map]
      refine List.map_congr_left fun entry _ => ?_
      by_cases hkey : entry.1=blobKey
      · simp [hkey]
      · simp [hkey]
    rw [hsame]
    exact h
  next hany =>
    rw [List.map_append,List.nodup_append]
    refine ⟨h,List.nodup_singleton _,fun k hk k' hk' heq => hany ?_⟩
    obtain ⟨entry,hentry,rfl⟩ := List.mem_map.mp hk
    have hkey : entry.1=blobKey := heq.trans (List.mem_singleton.mp hk')
    exact List.any_eq_true.mpr ⟨entry,hentry,by simpa using hkey⟩

/-- Every blob key is listed once. -/
theorem blobSizes_nodup (executions : List MlExecution) : ((blobSizes executions).map (·.1)).Nodup := by
  have hfold : ∀ (artifacts : List Artifact) (sizes : List (BlobKey × Size)),(sizes.map (·.1)).Nodup →
      ((artifacts.foldl (fun s a => setSize s a.blobKey a.sizeBytes) sizes).map (·.1)).Nodup := by
    intro artifacts
    induction artifacts with
    | nil => exact fun _ h => h
    | cons a artifacts ih => exact fun sizes h => ih _ (setSize_nodup h a.blobKey a.sizeBytes)
  exact hfold _ _ List.nodup_nil

section Sizes
variable {key : ExecutionKey} {db : Db} {executions : List MlExecution}

/-- The keys listed are those that the key's artifact rows name. -/
theorem mem_sizes_iff (h : findAll key db=.ok executions) (blobKey : BlobKey) :
    blobKey∈(blobSizes executions).map (·.1) ↔ Named [key] db blobKey := by
  constructor
  · intro hmem
    obtain ⟨entry,hentry,rfl⟩ := List.mem_map.mp hmem
    obtain ⟨execution,he,a,ha,hkey,_⟩ := artifact_of_mem_blobSizes hentry
    obtain ⟨row,hrow,hload⟩ := (mem_of_forall₂ (forall₂_of_mapM h)).1 execution he
    obtain ⟨hmem',hrowKey⟩ := List.mem_filter.mp hrow
    obtain ⟨_,hart,_,_⟩ := loadExecution_ok hload
    refine ⟨row,hmem',by simpa using hrowKey,artifactRow a,?_,?_⟩
    · rw [hart]
      exact List.mem_map_of_mem ha
    · rw [← hkey]
      rfl
  · rintro ⟨row,hrow,hkey,a,ha,hname⟩
    have hrowKey : row.executionKey=key := List.mem_singleton.mp hkey
    have hmem : row∈db.executions.filter (hasKey key) := List.mem_filter.mpr ⟨hrow,by simpa using hrowKey⟩
    obtain ⟨execution,he,hload⟩ := (mem_of_forall₂ (forall₂_of_mapM h)).2 row hmem
    obtain ⟨_,hart,_,_⟩ := loadExecution_ok hload
    rw [hart] at ha
    obtain ⟨artifact,hartifact,rfl⟩ := List.mem_map.mp ha
    obtain ⟨entry,hentry,hentryKey⟩ := mem_blobSizes he hartifact
    have hvalue : artifact.blobKey=blobKey := Column.value.inj hname
    exact List.mem_map.mpr ⟨entry,hentry,hentryKey.trans hvalue⟩

/-- A listed size is that of an artifact row of the key. -/
theorem size_of_mem (h : findAll key db=.ok executions) {entry : BlobKey × Size} (hentry : entry∈blobSizes executions) :
    ∃ row∈db.executions,row.executionKey=key ∧ ∃ a∈row.artifacts,a.blobKey=.value entry.1 ∧ a.sizeBytes=entry.2 := by
  obtain ⟨execution,he,a,ha,hkey,hsize⟩ := artifact_of_mem_blobSizes hentry
  obtain ⟨row,hrow,hload⟩ := (mem_of_forall₂ (forall₂_of_mapM h)).1 execution he
  obtain ⟨hmem,hrowKey⟩ := List.mem_filter.mp hrow
  obtain ⟨_,hart,_,_⟩ := loadExecution_ok hload
  refine ⟨row,hmem,by simpa using hrowKey,artifactRow a,?_,?_,hsize⟩
  · rw [hart]
    exact List.mem_map_of_mem ha
  · rw [← hkey]
    rfl

end Sizes

/-- The key's rows load, and the sizes listed for it can be added up. -/
def Removable (key : ExecutionKey) (db : Db) : Prop :=
  ∃ executions,findAll key db=.ok executions ∧ addable (blobSizes executions)=true

/-- The sizes that the loop lists, key by key. -/
def listedSizes (hard : Bool) : List ExecutionKey → World → List (BlobKey × Size)
  | [],_ => []
  | key::rest,w =>
    (match findAll key w.db with
      | .ok executions => blobSizes executions
      | .error _ => []) ++ listedSizes hard rest (purgedKey hard key w).2

/-- No two keys' rows name one blob. -/
def Apart (db : Db) : Prop :=
  ∀ row∈db.executions,∀ row'∈db.executions,∀ a∈row.artifacts,∀ a'∈row'.artifacts,
    ∀ blobKey,a.blobKey=.value blobKey → a'.blobKey=.value blobKey → row.executionKey=row'.executionKey

/-- The world after the rows of all keys are dropped. -/
def droppedAll (hard : Bool) (keys : List ExecutionKey) (w : World) : World :=
  keys.foldl (fun w key => dropped hard key w) w

section Loop
variable {hard : Bool} {key : ExecutionKey} {keys rest : List ExecutionKey} {w : World}

/-- One key that can be removed. -/
theorem purgedKey_of (hard : Bool) {executions : List MlExecution} (h : findAll key w.db=.ok executions)
    (hadd : addable (blobSizes executions)=true) :
    purgedKey hard key w=(.ok ((blobSizes executions).length,totalSize (blobSizes executions)),
      { dropped hard key w with blobs := removeSizes (blobSizes executions) w.blobs }) := by
  unfold purgedKey
  rw [h]
  show (_,_)=_
  rw [removedEach_of hadd]
  rfl

/-- Otherwise its purge raises. -/
theorem purgedKey_of_not (hard : Bool) (h : ¬Removable key w.db) : ∃ e,(purgedKey hard key w).1=.error e := by
  unfold purgedKey
  cases hfind : findAll key w.db with
  | error e => exact ⟨e,rfl⟩
  | ok executions =>
    cases hadd : addable (blobSizes executions) with
    | true => exact absurd ⟨executions,hfind,hadd⟩ h
    | false =>
      obtain ⟨e,he⟩ := removedEach_of_not hadd w.blobs
      refine ⟨e,?_⟩
      show (removedEach (blobSizes executions) w.blobs).1.map _=_
      rw [he]
      rfl

/-- A key that can be removed still can after another key, or itself, lost its rows. -/
theorem Removable.dropped {other : ExecutionKey} (h : Removable other w.db) :
    Removable other (dropped hard key w).db := by
  obtain ⟨executions,hfind,hadd⟩ := h
  by_cases hother : other=key
  · subst hother
    have hloads : Loads other w.db := findAll_iff_loads.mp ⟨executions,hfind⟩
    have hloadsLeft : Loads other (PurgeRuns.dropped hard other w).db := hloads.dropped
    obtain ⟨left,hleft⟩ := findAll_iff_loads.mpr hloadsLeft
    refine ⟨left,hleft,List.all_eq_true.mpr fun entry hentry => ?_⟩
    obtain ⟨row,_,hkey,hne,_⟩ := named_dropped.mp ((mem_sizes_iff hleft entry.1).mp (List.mem_map_of_mem hentry))
    exact absurd (List.mem_singleton.mp hkey) hne
  · exact ⟨executions,(findAll_dropped hother).trans hfind,hadd⟩

/-- Only a key that can be removed can be after another key lost its rows. -/
theorem Removable.of_dropped {other : ExecutionKey} (hne : other≠key) (h : Removable other (PurgeRuns.dropped hard key w).db) :
    Removable other w.db := by
  obtain ⟨executions,hfind,hadd⟩ := h
  exact ⟨executions,(findAll_dropped hne).symm.trans hfind,hadd⟩

/-- After one key, the others can still be removed. -/
theorem removable_rest (hard : Bool) {executions : List MlExecution} (h : findAll key w.db=.ok executions)
    (hadd : addable (blobSizes executions)=true) (hall : ∀ other∈key::rest,Removable other w.db) :
    ∀ other∈rest,Removable other (purgedKey hard key w).2.db := by
  intro other hother
  rw [purgedKey_of hard h hadd]
  exact (hall other (List.mem_cons_of_mem _ hother)).dropped

/-- Dropping rows does not look at blobs. -/
theorem droppedAll_blobs (keys : List ExecutionKey) (w : World) (blobs : BlobStore) :
    droppedAll hard keys { w with blobs := blobs }={ droppedAll hard keys w with blobs := blobs } := by
  induction keys generalizing w with
  | nil => rfl
  | cons key rest ih =>
    have hone : dropped hard key { w with blobs := blobs }={ dropped hard key w with blobs := blobs } := by
      cases hard <;> rfl
    show droppedAll hard rest (dropped hard key { w with blobs := blobs })=_
    rw [hone,ih]
    rfl

/-- Where every key can be removed, the loop reaches its end. -/
theorem purgedEach_of (hall : ∀ key∈keys,Removable key w.db) :
    purgedEach hard keys w=
      (.ok ((listedSizes hard keys w).length,totalSize (listedSizes hard keys w)),
        { droppedAll hard keys w with blobs := removeSizes (listedSizes hard keys w) w.blobs }) := by
  induction keys generalizing w with
  | nil => rfl
  | cons key rest ih =>
    obtain ⟨executions,hfind,hadd⟩ := hall key List.mem_cons_self
    have hone := purgedKey_of hard hfind hadd
    have hrest := removable_rest hard hfind hadd hall
    have hloop := ih hrest
    unfold purgedEach listedSizes
    rw [hone] at hloop ⊢
    rw [hfind]
    show andThen (purgedEach hard rest _) _=_
    rw [hloop]
    simp only [andThen,totalSize,List.length_append,List.map_append,List.sum_append,droppedAll_blobs]
    unfold removeSizes
    rw [List.foldl_append]
    rfl

/-- Where some key cannot be removed, the loop raises. -/
theorem purgedEach_of_not (hard : Bool) (hnot : ∃ key∈keys,¬Removable key w.db) :
    ∃ e,(purgedEach hard keys w).1=.error e := by
  induction keys generalizing w with
  | nil =>
    obtain ⟨key,hkey,_⟩ := hnot
    cases hkey
  | cons key rest ih =>
    unfold purgedEach
    by_cases hkey : Removable key w.db
    · obtain ⟨executions,hfind,hadd⟩ := hkey
      rw [purgedKey_of hard hfind hadd]
      obtain ⟨other,hother,hbad⟩ := hnot
      have hne : other≠key := fun heq => hbad (heq ▸ ⟨executions,hfind,hadd⟩)
      have hrest : other∈rest := (List.mem_cons.mp hother).resolve_left hne
      obtain ⟨e,he⟩ := ih (w := { dropped hard key w with
        blobs := removeSizes (blobSizes executions) w.blobs }) ⟨other,hrest,fun h => hbad (h.of_dropped hne)⟩
      refine ⟨e,?_⟩
      show (andThen (purgedEach hard rest _) _).1=_
      generalize purgedEach hard rest _=outcome at he
      obtain ⟨r,w'⟩ := outcome
      cases he
      rfl
    · obtain ⟨e,he⟩ := purgedKey_of_not hard hkey
      refine ⟨e,?_⟩
      generalize purgedKey hard key w=outcome at he
      obtain ⟨r,w'⟩ := outcome
      cases he
      rfl

/-- The blob keys listed are those that rows of the keys name. -/
theorem mem_listedSizes (hall : ∀ key∈keys,Removable key w.db) (blobKey : BlobKey) :
    blobKey∈(listedSizes hard keys w).map (·.1) ↔ Named keys w.db blobKey := by
  induction keys generalizing w with
  | nil => simp [listedSizes,Named]
  | cons key rest ih =>
    obtain ⟨executions,hfind,hadd⟩ := hall key List.mem_cons_self
    have hone := purgedKey_of hard hfind hadd
    have hrest := removable_rest hard hfind hadd hall
    have htail := ih hrest
    unfold listedSizes
    rw [List.map_append,List.mem_append,htail,hfind,mem_sizes_iff hfind,hone]
    show Named [key] w.db blobKey ∨ Named rest (dropped hard key w).db blobKey ↔ _
    rw [named_dropped]
    constructor
    · rintro (⟨row,hrow,hkey,hname⟩ | ⟨row,hrow,hkey,_,hname⟩)
      · exact ⟨row,hrow,List.mem_cons.mpr (Or.inl (List.mem_singleton.mp hkey)),hname⟩
      · exact ⟨row,hrow,List.mem_cons_of_mem _ hkey,hname⟩
    · rintro ⟨row,hrow,hkey,hname⟩
      by_cases heq : row.executionKey=key
      · exact Or.inl ⟨row,hrow,List.mem_singleton.mpr heq,hname⟩
      · exact Or.inr ⟨row,hrow,(List.mem_cons.mp hkey).resolve_left heq,heq,hname⟩

/-- A listed size is that of an artifact row. -/
theorem size_of_listed (hall : ∀ key∈keys,Removable key w.db) {entry : BlobKey × Size}
    (hentry : entry∈listedSizes hard keys w) :
    ∃ row∈w.db.executions,∃ a∈row.artifacts,a.blobKey=.value entry.1 ∧ a.sizeBytes=entry.2 := by
  induction keys generalizing w with
  | nil => exact nomatch hentry
  | cons key rest ih =>
    obtain ⟨executions,hfind,hadd⟩ := hall key List.mem_cons_self
    have hone := purgedKey_of hard hfind hadd
    have hrest := removable_rest hard hfind hadd hall
    unfold listedSizes at hentry
    rw [hfind] at hentry
    rcases List.mem_append.mp hentry with hentry | hentry
    · obtain ⟨row,hrow,_,a,ha,hsize⟩ := size_of_mem hfind hentry
      exact ⟨row,hrow,a,ha,hsize⟩
    · obtain ⟨row',hrow',a,ha,hsize⟩ := ih hrest hentry
      rw [hone] at hrow'
      rcases mem_dropped.mp hrow' with ⟨hrow,_⟩ | ⟨_,row,_,_,rfl⟩
      · exact ⟨row',hrow,a,ha,hsize⟩
      · exact nomatch ha

/-- Rows that are apart stay apart. -/
theorem Apart.dropped (h : Apart w.db) : Apart (dropped hard key w).db := by
  have hback : ∀ row'∈(PurgeRuns.dropped hard key w).db.executions,∀ a∈row'.artifacts,row'∈w.db.executions := by
    intro row' hrow' a ha
    rcases mem_dropped.mp hrow' with ⟨hrow,_⟩ | ⟨_,row,_,_,rfl⟩
    · exact hrow
    · exact nomatch ha
  intro row hrow row' hrow' a ha a' ha'
  exact h row (hback row hrow a ha) row' (hback row' hrow' a' ha') a ha a' ha'

/-- Every blob key is listed once. -/
theorem nodup_listedSizes (hapart : Apart w.db) (hall : ∀ key∈keys,Removable key w.db) :
    ((listedSizes hard keys w).map (·.1)).Nodup := by
  induction keys generalizing w with
  | nil => exact List.nodup_nil
  | cons key rest ih =>
    obtain ⟨executions,hfind,hadd⟩ := hall key List.mem_cons_self
    have hone := purgedKey_of hard hfind hadd
    have hrest := removable_rest hard hfind hadd hall
    have hapart' : Apart (purgedKey hard key w).2.db := by
      rw [hone]
      exact hapart.dropped
    unfold listedSizes
    rw [hfind,List.map_append,List.nodup_append]
    refine ⟨blobSizes_nodup executions,ih hapart' hrest,fun k hk k' hk' heq => ?_⟩
    subst heq
    obtain ⟨row,hrow,hkey,a,ha,hname⟩ := (mem_sizes_iff hfind k).mp hk
    have hnamed := (mem_listedSizes hrest k).mp hk'
    rw [hone] at hnamed
    obtain ⟨row',hrow',_,hne,a',ha',hname'⟩ := named_dropped.mp hnamed
    have hsame := hapart row hrow row' hrow' a ha a' ha' k hname hname'
    exact hne (hsame.symm.trans (List.mem_singleton.mp hkey))

/-- Soft: the rows of the keys have lost their artifacts and their currency. -/
theorem executions_droppedAll_soft (keys : List ExecutionKey) (w : World) :
    (droppedAll false keys w).db.executions=
      w.db.executions.map fun row => if row.executionKey∈keys then row.update purgedColumns else row := by
  induction keys generalizing w with
  | nil =>
    show w.db.executions=_
    simp
  | cons key rest ih =>
    show (droppedAll false rest (dropped false key w)).db.executions=_
    rw [ih]
    show (w.db.executions.map fun row => if hasKey key row=true then row.update purgedColumns else row).map _=_
    rw [List.map_map]
    refine List.map_congr_left fun row _ => ?_
    by_cases hkey : row.executionKey=key
    · by_cases hrest : key∈rest
      · simp [hkey,hrest,ExecutionRow.update,purgedColumns]
      · simp [hkey,hrest]
    · simp [hkey]

/-- Soft: nothing else of the database and the journal changes. -/
theorem rest_droppedAll_soft (keys : List ExecutionKey) (w : World) :
    (droppedAll false keys w).db.callIdentities=w.db.callIdentities ∧ (droppedAll false keys w).journal=w.journal := by
  induction keys generalizing w with
  | nil => exact ⟨rfl,rfl⟩
  | cons key rest ih => exact ih (dropped false key w)

/-- Hard: the rows, the identities and the events of the keys are gone. -/
theorem droppedAll_hard (keys : List ExecutionKey) (w : World) :
    (droppedAll true keys w).db.executions=w.db.executions.filter (fun row => decide (row.executionKey∉keys)) ∧
    (droppedAll true keys w).db.callIdentities=
      w.db.callIdentities.filter (fun i => decide (i.executionKey∉keys)) ∧
    (droppedAll true keys w).journal=w.journal.filter fun entry => decide (entry.executionKey∉keys) := by
  induction keys generalizing w with
  | nil =>
    refine ⟨?_,?_,?_⟩
    · show w.db.executions=_
      simp
    · show w.db.callIdentities=_
      simp
    · show w.journal=_
      simp
  | cons key rest ih =>
    obtain ⟨hrows,hidentities,hjournal⟩ := ih (dropped true key w)
    refine ⟨hrows.trans ?_,hidentities.trans ?_,hjournal.trans ?_⟩
    · show (w.db.executions.filter fun row => !hasKey key row).filter _=_
      rw [List.filter_filter]
      refine List.filter_congr fun row _ => ?_
      by_cases hkey : row.executionKey=key <;> simp [hasKey,hkey]
    · show (w.db.callIdentities.filter fun i => !decide (i.executionKey=key)).filter _=_
      rw [List.filter_filter]
      refine List.filter_congr fun i _ => ?_
      by_cases hkey : i.executionKey=key <;> simp [hkey]
    · show (w.journal.filter fun entry => decide (entry.executionKey≠key)).filter _=_
      rw [List.filter_filter]
      refine List.filter_congr fun entry _ => ?_
      by_cases hkey : entry.executionKey=key <;> simp [hkey]

/-- A listed blob is removed, and no other. -/
theorem get_removeSizes (sizes : List (BlobKey × Size)) (blobs : BlobStore) (blobKey : BlobKey) :
    (removeSizes sizes blobs).get blobKey=if blobKey∈sizes.map (·.1) then none else blobs.get blobKey := by
  induction sizes generalizing blobs with
  | nil => rfl
  | cons entry rest ih =>
    show (removeSizes rest (blobs.remove entry.1)).get blobKey=_
    rw [ih,BlobStore.get_remove]
    simp only [List.map_cons,List.mem_cons]
    by_cases hfirst : blobKey=entry.1
    · simp [hfirst]
    · by_cases hrest : blobKey∈rest.map (·.1)
      · simp [hfirst,hrest]
      · simp [hfirst,hrest]

end Loop

/-- The purge use cases and the evictions. -/
inductive PurgeRequest where
  | byKey (key : ExecutionKey) (hard : Bool)
  | byTag (tag : PyStr) (hard : Bool)
  | bySession (sessionId : PyStr) (hard : Bool)
  | bySessionTag (tag : PyStr) (hard : Bool)
  | all (hard : Bool)
  | stale (maxAge : ℤ)
  | quota (maxBytes : ℕ)

/-- The program of a request. -/
def PurgeRequest.program {Command : Type} : PurgeRequest → ServiceM Command PurgeReport
  | .byKey key hard => purgeByKey key hard
  | .byTag tag hard => purgeByTag tag hard
  | .bySession sessionId hard => purgeBySession sessionId hard
  | .bySessionTag tag hard => purgeBySessionTag tag hard
  | .all hard => purgeAll hard
  | .stale maxAge => evictStale maxAge
  | .quota maxBytes => evictToQuota maxBytes

/-- Evictions are soft. -/
def PurgeRequest.hard : PurgeRequest → Bool
  | .byKey _ hard | .byTag _ hard | .bySession _ hard | .bySessionTag _ hard | .all hard => hard
  | .stale _ | .quota _ => false

/-- The keys of the sessions carrying a tag, each once. -/
def sessionTagKeys (registry : Registry) : List PyStr → List ExecutionKey → List ExecutionKey
  | [],keys => keys
  | sessionId::rest,keys => sessionTagKeys registry rest
      ((registry.executionKeysForSession sessionId).foldl (fun ks k => if k∈ks then ks else ks ++ [k]) keys)

/-- The current entries, least recently accessed first. -/
def lruOrder (registry : Registry) (db : Db) : List ExecutionSizeEntry :=
  (currentExecutionsWithSizes db).insertionSort fun a b =>
    lruEpoch (registry.lastAccess.getD []) a ≤ lruEpoch (registry.lastAccess.getD []) b

/-- The keys that a request purges. -/
def PurgeRequest.targets (registry : Registry) (db : Db) : PurgeRequest → List ExecutionKey
  | .byKey key _ => if (db.executions.filter (hasKey key)).isEmpty=true then [] else [key]
  | .byTag tag _ => executionsByTag tag db
  | .bySession sessionId _ => registry.executionKeysForSession sessionId
  | .bySessionTag tag _ => sessionTagKeys registry (registry.sessionIdsForTag tag) []
  | .all true => allExecutionKeys db
  | .all false => (currentExecutionsWithSizes db).map (·.executionKey)
  | .stale maxAge =>
    if maxAge ≤ 0 then []
    else ((currentExecutionsWithSizes db).filter fun entry =>
      decide (lruEpoch (registry.lastAccess.getD []) entry < registry.now-maxAge)).map (·.executionKey)
  | .quota maxBytes =>
    if totalStoredBytes db ≤ maxBytes then []
    else evictedPrefix maxBytes (totalStoredBytes db) (lruOrder registry db)

section Requests
variable {Command : Type} {registry : Registry} {thread : ThreadId} {w : World}

/-- The access data, or none. -/
theorem yields_accessOrdering : Yields (Alone registry thread)
    (accessOrdering : ServiceM Command (List (ExecutionKey × Timestamp))) w (.ok (registry.lastAccess.getD [])) w :=
  yields_lastAccess.bind (Yields.pure _ _)

/-- The sessions' keys are gathered. -/
theorem yields_keysForSessions (sessionIds : List PyStr) (keys : List ExecutionKey) : Yields (Alone registry thread)
    (keysForSessions sessionIds keys : ServiceM Command (List ExecutionKey)) w
    (.ok (sessionTagKeys registry sessionIds keys)) w := by
  induction sessionIds generalizing keys with
  | nil => exact Yields.pure _ _
  | cons sessionId rest ih => exact (yields_executionKeysForSession sessionId).bind (ih _)

/-- A key has rows exactly where a query of them returns any. -/
theorem isEmpty_of_findAll {key : ExecutionKey} {executions : List MlExecution}
    (hfind : findAll key w.db=.ok executions) :
    (w.db.executions.filter (hasKey key)).isEmpty=executions.isEmpty := by
  rw [Bool.eq_iff_iff,List.isEmpty_iff_length_eq_zero,List.isEmpty_iff_length_eq_zero]
  have hlength : (w.db.executions.filter (hasKey key)).length=executions.length :=
    (forall₂_of_mapM hfind).length_eq
  rw [hlength]

/-- A key whose rows cannot be loaded has some. -/
theorem isEmpty_of_findAll_error {key : ExecutionKey} {e : PyExc} (hfind : findAll key w.db=.error e) :
    (w.db.executions.filter (hasKey key)).isEmpty=false := by
  cases hrows : w.db.executions.filter (hasKey key) with
  | nil =>
    unfold findAll at hfind
    rw [hrows] at hfind
    exact nomatch hfind
  | cons row rows => rfl

/-- A purge of one key whose rows cannot be loaded raises what loading them raises. -/
theorem purgedKeys_error {hard : Bool} {key : ExecutionKey} {e : PyExc} (hfind : findAll key w.db=.error e) :
    purgedKeys hard [key] w=(.error e,w) := by
  have hone : purgedKey hard key w=(.error e,w) := by
    unfold purgedKey
    rw [hfind]
  show andThen (purgedEach hard [key] w) _=_
  unfold purgedEach
  rw [hone]
  rfl

/-- A purge of a key, if it has rows. -/
theorem yields_byKey (hown : OwnLocks thread w) (key : ExecutionKey) (hard : Bool) :
    Yields (Alone registry thread) ((PurgeRequest.byKey key hard).program : ServiceM Command PurgeReport) w
      (purgedKeys hard ((PurgeRequest.byKey key hard).targets registry w.db) w).1
      (purgedKeys hard ((PurgeRequest.byKey key hard).targets registry w.db) w).2 := by
  have hread : ∀ now,transact now w.db (.findAll key)=(findAll key w.db).map fun executions => (executions,w.db) :=
    fun _ => rfl
  cases hfind : findAll key w.db with
  | error e =>
    have hstore : Yields (Alone registry thread) (store (.findAll key) : ServiceM Command (List MlExecution)) w
        (.error e) w := yields_store_error fun now => by rw [hread,hfind]; rfl
    have htargets : (PurgeRequest.byKey key hard).targets registry w.db=[key] := by
      simp [PurgeRequest.targets,isEmpty_of_findAll_error hfind]
    rw [htargets,purgedKeys_error hfind]
    exact hstore.bind_error _
  | ok executions =>
    have hstore : Yields (Alone registry thread) (store (.findAll key) : ServiceM Command (List MlExecution)) w
        (.ok executions) w := yields_read fun now => by rw [hread,hfind]; rfl
    refine hstore.bind ?_
    cases executions with
    | nil =>
      have htargets : (PurgeRequest.byKey key hard).targets registry w.db=[] := by
        simp [PurgeRequest.targets,isEmpty_of_findAll hfind]
      rw [htargets]
      exact Yields.pure _ _
    | cons execution executions =>
      have htargets : (PurgeRequest.byKey key hard).targets registry w.db=[key] := by
        simp [PurgeRequest.targets,isEmpty_of_findAll hfind]
      rw [htargets]
      exact yields_purge hard [key] hown

/-- The current executions and their sizes are read. -/
theorem yields_currentExecutionsWithSizes :
    Yields (Alone registry thread)
      (store .currentExecutionsWithSizes : ServiceM Command (List ExecutionSizeEntry)) w
      (.ok (currentExecutionsWithSizes w.db)) w :=
  yields_read fun _ => rfl

/-- A purge of the stale keys, unless no age is asked for. -/
theorem yields_stale (hown : OwnLocks thread w) (maxAge : ℤ) :
    Yields (Alone registry thread) ((PurgeRequest.stale maxAge).program : ServiceM Command PurgeReport) w
      (purgedKeys false ((PurgeRequest.stale maxAge).targets registry w.db) w).1
      (purgedKeys false ((PurgeRequest.stale maxAge).targets registry w.db) w).2 := by
  by_cases hage : maxAge ≤ 0
  · have htargets : (PurgeRequest.stale maxAge).targets registry w.db=[] := if_pos hage
    have hprogram : (PurgeRequest.stale maxAge).program=(pure PurgeReport.nothing : ServiceM Command PurgeReport) :=
      if_pos hage
    rw [htargets,hprogram]
    exact Yields.pure _ _
  · have htargets : (PurgeRequest.stale maxAge).targets registry w.db=
        ((currentExecutionsWithSizes w.db).filter fun entry =>
          decide (lruEpoch (registry.lastAccess.getD []) entry < registry.now-maxAge)).map (·.executionKey) :=
      if_neg hage
    have hprogram : (PurgeRequest.stale maxAge).program=(do
        let now : Timestamp ← ask .currentTime
        let entries ← store .currentExecutionsWithSizes
        let lastAccess ← accessOrdering
        softPurgeKeys ((entries.filter fun entry =>
          decide (lruEpoch lastAccess entry < now-maxAge)).map (·.executionKey)) : ServiceM Command PurgeReport) :=
      if_neg hage
    rw [htargets,hprogram]
    exact yields_currentTime.bind
      (yields_currentExecutionsWithSizes.bind (yields_accessOrdering.bind (yields_purge false _ hown)))

/-- A purge of the least recently used keys, if the store is over the quota. -/
theorem yields_quota (hown : OwnLocks thread w) (maxBytes : ℕ) :
    Yields (Alone registry thread) ((PurgeRequest.quota maxBytes).program : ServiceM Command PurgeReport) w
      (purgedKeys false ((PurgeRequest.quota maxBytes).targets registry w.db) w).1
      (purgedKeys false ((PurgeRequest.quota maxBytes).targets registry w.db) w).2 := by
  have htotal : Yields (Alone registry thread) (store .totalStoredBytes : ServiceM Command ℕ) w
      (.ok (totalStoredBytes w.db)) w := yields_read fun _ => rfl
  refine htotal.bind ?_
  by_cases hfits : totalStoredBytes w.db ≤ maxBytes
  · have htargets : (PurgeRequest.quota maxBytes).targets registry w.db=[] := if_pos hfits
    rw [htargets,if_pos hfits]
    exact Yields.pure _ _
  · have htargets : (PurgeRequest.quota maxBytes).targets registry w.db=
        evictedPrefix maxBytes (totalStoredBytes w.db) (lruOrder registry w.db) := if_neg hfits
    rw [htargets,if_neg hfits]
    exact yields_currentExecutionsWithSizes.bind (yields_accessOrdering.bind (yields_purge false _ hown))

/-- A request's outcome is that of a purge of its targets. -/
theorem yields_request (hown : OwnLocks thread w) (request : PurgeRequest) :
    Yields (Alone registry thread) (request.program : ServiceM Command PurgeReport) w
      (purgedKeys request.hard (request.targets registry w.db) w).1
      (purgedKeys request.hard (request.targets registry w.db) w).2 := by
  cases request with
  | byKey key hard => exact yields_byKey hown key hard
  | byTag tag hard =>
    have hstore : Yields (Alone registry thread) (store (.executionsByTag tag) : ServiceM Command (List ExecutionKey)) w
        (.ok (executionsByTag tag w.db)) w := yields_read fun _ => rfl
    exact hstore.bind (yields_purge hard _ hown)
  | bySession sessionId hard => exact (yields_executionKeysForSession sessionId).bind (yields_purge hard _ hown)
  | bySessionTag tag hard =>
    exact (yields_sessionIdsForTag tag).bind ((yields_keysForSessions _ []).bind (yields_purge hard _ hown))
  | all hard =>
    cases hard with
    | true =>
      have hstore : Yields (Alone registry thread) (store .allExecutionKeys : ServiceM Command (List ExecutionKey)) w
          (.ok (allExecutionKeys w.db)) w := yields_read fun _ => rfl
      exact hstore.bind (yields_purge true _ hown)
    | false => exact yields_currentExecutionsWithSizes.bind (yields_purge false _ hown)
  | stale maxAge => exact yields_stale hown maxAge
  | quota maxBytes => exact yields_quota hown maxBytes

/-- A purge of keys that can all be removed reports what its loop listed. -/
theorem purgedKeys_of {hard : Bool} {keys : List ExecutionKey} (hall : ∀ key∈keys,Removable key w.db) :
    purgedKeys hard keys w=
      (.ok ⟨keys.length,totalSize (listedSizes hard keys w),(listedSizes hard keys w).length⟩,
        { droppedAll hard keys w with blobs := removeSizes (listedSizes hard keys w) w.blobs }) := by
  unfold purgedKeys
  cases keys with
  | nil => rfl
  | cons key rest =>
    rw [purgedEach_of hall]
    rfl

/-- A purge of keys of which some cannot be removed raises. -/
theorem purgedKeys_of_not {hard : Bool} {keys : List ExecutionKey} (hnot : ∃ key∈keys,¬Removable key w.db) :
    ∃ e,(purgedKeys hard keys w).1=.error e := by
  obtain ⟨e,he⟩ := purgedEach_of_not hard hnot
  refine ⟨e,?_⟩
  unfold purgedKeys
  cases keys with
  | nil =>
    obtain ⟨key,hkey,_⟩ := hnot
    exact nomatch hkey
  | cons key rest =>
    show (andThen (purgedEach hard (key::rest) w) _).1=_
    generalize purgedEach hard (key::rest) w=outcome at he
    obtain ⟨r,w'⟩ := outcome
    cases r with
    | error e' =>
      cases he
      rfl
    | ok pair => exact nomatch he

end Requests

end GenericMlCache.PurgeRuns
