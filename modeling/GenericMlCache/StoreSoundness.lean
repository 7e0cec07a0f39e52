import GenericMlCache.Currency
import GenericMlCache.ServiceOperations

/-!
# What one caller keeps of the store

The invariant of the automaton for a caller that has the store to itself: its
rows decode, currency is not split, blob keys belong to the execution they are
named after, blobs hold the content of their key, and the caller's task is
about the rows it believes it is about. Any port may fault and the caller may
stop anywhere, so it holds of every reachable store.
-/

namespace GenericMlCache.StoreSoundness

open CallProgram CallAutomaton PythonText ExecutionModel SqliteStore ExecutionRepository
  ExecutionQueries RepositoryCalls Currency ServicePorts StorePurge CachedExecution
  ServiceAutomaton ServiceConformance ServiceOperations

/-- What holds of the store itself. -/
structure Sound (fingerprint : Bytes → Digest) (w : World) : Prop where
  /-- The database is well formed. -/
  wellFormed : WellFormed w.db
  /-- A key has at most one current row. -/
  oneCurrent : w.db.AtMostOneCurrent
  /-- Every stored id was minted. -/
  minted : ∀ row∈w.db.executions,row.executionId∈w.minted
  /-- Every artifact row's blob key is one of its execution's. -/
  owned : ∀ row∈w.db.executions,∀ a∈row.artifacts,
    ∃ digest,a.blobKey=.value (.forExecution row.executionId digest)
  /-- Every blob holds the content its key is derived from. -/
  addressed : ∀ id digest content,w.blobs.get (.forExecution id digest)=some content →
    fingerprint content=digest

/-- A new store is sound. -/
theorem Sound.empty (fingerprint : Bytes → Digest) : Sound fingerprint World.empty where
  wellFormed := WellFormed.empty
  oneCurrent _ h := nomatch h
  minted _ h := nomatch h
  owned _ h := nomatch h
  addressed id digest content h := by simp [World.empty] at h

section Soundness
variable {fingerprint : Bytes → Digest} {w : World}

/-- A new database is sound where its rows are rows of the old one with the
same blob keys, or with more of their execution's own. -/
theorem Sound.withDb {db : Db} (h : Sound fingerprint w) (hwf : WellFormed db)
    (hone : db.AtMostOneCurrent)
    (hrows : ∀ row∈db.executions,∃ r∈w.db.executions,row.executionId=r.executionId ∧
      ∀ a∈row.artifacts,(∃ b∈r.artifacts,a.blobKey=b.blobKey) ∨
        ∃ digest,a.blobKey=.value (.forExecution row.executionId digest)) :
    Sound fingerprint { w with db := db } where
  wellFormed := hwf
  oneCurrent := hone
  minted row hrow := by
    obtain ⟨r,hr,hid,_⟩ := hrows row hrow
    have := h.minted r hr
    rwa [←hid] at this
  owned row hrow a ha := by
    obtain ⟨r,hr,hid,hart⟩ := hrows row hrow
    rcases hart a ha with ⟨b,hb,hkey⟩ | hkey
    · obtain ⟨digest,hd⟩ := h.owned r hr b hb
      exact ⟨digest,by rw [hkey,hd,hid]⟩
    · exact hkey
  addressed := h.addressed

/-- An update is sound where it keeps currency and the execution's blob keys. -/
theorem Sound.update {p : ExecutionRow → Bool} {f : MutableColumns → MutableColumns}
    (h : Sound fingerprint w) (hwf : WellFormed (w.db.updateWhere p f))
    (hone : (w.db.updateWhere p f).AtMostOneCurrent)
    (hart : ∀ row∈w.db.executions,p row=true → ∀ a∈(f row.toMutableColumns).artifacts,
      (∃ b∈row.artifacts,a.blobKey=b.blobKey) ∨
        ∃ digest,a.blobKey=.value (.forExecution row.executionId digest)) :
    Sound fingerprint { w with db := w.db.updateWhere p f } := by
  refine h.withDb hwf hone fun row hrow => ?_
  obtain ⟨r,hr,rfl⟩ := Db.mem_updateWhere.mp hrow
  by_cases hp : p r=true
  · rw [if_pos hp]
    exact ⟨r,hr,rfl,hart r hr hp⟩
  · rw [if_neg hp]
    exact ⟨r,hr,rfl,fun a ha => Or.inl ⟨a,ha,rfl⟩⟩

/-- Fewer rows are sound. -/
theorem Sound.subset {db : Db} (h : Sound fingerprint w) (hwf : WellFormed db)
    (hsub : ∀ row∈db.executions,row∈w.db.executions) : Sound fingerprint { w with db := db } :=
  h.withDb hwf (atMostOne_of_subset h.oneCurrent hsub) fun row hrow =>
    ⟨row,hsub row hrow,rfl,fun a ha => Or.inl ⟨a,ha,rfl⟩⟩

/-- A put of a document of an execution keeps blobs addressed. -/
theorem Sound.put {executionId : ExecutionId} {document : Artifact} (h : Sound fingerprint w)
    (hdoc : IsDocument fingerprint executionId document) :
    Sound fingerprint
      { w with blobs := w.blobs.put document.blobKey (document.content.getD []) } where
  wellFormed := h.wellFormed
  oneCurrent := h.oneCurrent
  minted := h.minted
  owned := h.owned
  addressed id digest content hget := by
    obtain ⟨artifactType,name,bytes,rfl⟩ := hdoc
    simp only [makeArtifact,Artifact.fromContent,blobKeyFor,Option.getD_some,BlobStore.get_put] at hget
    split at hget
    next heq =>
      cases heq
      cases hget
      rfl
    next => exact h.addressed id digest content hget

/-- A removal keeps blobs addressed. -/
theorem Sound.remove (h : Sound fingerprint w) (blobKey : BlobKey) :
    Sound fingerprint { w with blobs := w.blobs.remove blobKey } where
  wellFormed := h.wellFormed
  oneCurrent := h.oneCurrent
  minted := h.minted
  owned := h.owned
  addressed id digest content hget := by
    simp only [BlobStore.get_remove] at hget
    split at hget
    · cases hget
    · exact h.addressed id digest content hget

end Soundness

/-- The artifact row of a document, whatever its status. -/
def IsRowOf (document : Artifact) (a : ArtifactRow) : Prop :=
  a.artifactType=.value document.artifactType ∧ a.name=document.name ∧
    a.blobKey=.value document.blobKey

/-- The row of a run that is not promoted, with the rows of its documents. -/
structure IsRunRow (execution : MlExecution) (state : ExecutionState) (documents : List Artifact)
    (row : ExecutionRow) : Prop where
  /-- It is the execution's row. -/
  id : row.executionId=execution.executionId
  /-- It is under the execution's key. -/
  key : row.executionKey=execution.callIdentity.generateKey
  /-- It has the state. -/
  state : row.state=.value state
  /-- It is not persisted. -/
  unpersisted : row.outputPersisted=false
  /-- It is not superseded. -/
  current : row.supersededAt=none
  /-- Its artifact rows are those of the documents. -/
  artifacts : List.Forall₂ IsRowOf documents row.artifacts

/-- The row that a hit was loaded from, as it was then. -/
structure IsHitRow (key : ExecutionKey) (loaded : MlExecution) (row : ExecutionRow) : Prop where
  /-- It is the execution's row. -/
  id : row.executionId=loaded.executionId
  /-- It is under the execution's key. -/
  key : row.executionKey=key
  /-- It can be served. -/
  servable : row.servable=true
  /-- Its artifact rows are the loaded ones. -/
  artifacts : row.artifacts=loaded.artifacts.map artifactRow

/-- The row that a back-fill is about to attach its documents to. -/
structure IsFreshRow (key : ExecutionKey) (fresh : MlExecution) (row : ExecutionRow) : Prop where
  /-- It is the execution's row. -/
  id : row.executionId=fresh.executionId
  /-- It is under the execution's key. -/
  key : row.executionKey=key
  /-- It can be served. -/
  servable : row.servable=true
  /-- It has no input document. -/
  noInput : row.artifacts.any ArtifactRow.isInput=false

/-- A row that names the documents. -/
structure Names (target : ExecutionId) (documents : List Artifact) (row : ExecutionRow) : Prop where
  /-- It is the target's row. -/
  id : row.executionId=target
  /-- Each document's blob is named by an artifact row. -/
  named : ∀ document∈documents,∃ a∈row.artifacts,a.blobKey=.value document.blobKey

/-- An artifact as it is served: the content is what its key is derived from. -/
def Hydrated (fingerprint : Bytes → Digest) (artifact served : Artifact) : Prop :=
  ∃ content,served={ artifact with content := some content } ∧
    ∀ id digest,artifact.blobKey=.forExecution id digest → fingerprint content=digest


section Tasks
variable (fingerprint : Bytes → Digest) (w : World)

/-- A hit whose artifacts are all hydrated. -/
def FullyHydrated (hit : Hit) : Prop :=
  List.Forall₂ (Hydrated fingerprint) hit.loaded.artifacts hit.got

/-- A back-fill with documents to store: the hit is hydrated and the target's
row names the documents, which are the target's. -/
def Filling (hit : Hit) (target : ExecutionId) (todo : List Artifact) : Prop :=
  FullyHydrated fingerprint hit ∧ (∃ row∈w.db.executions,Names target todo row) ∧
    ∀ document∈todo,IsInputDocument fingerprint target document

/-- A recording of a result's documents, with the rows of those persisted. -/
def Recording (execution : MlExecution) (result : ClientRunResult) (persisted todo : List Artifact) :
    Prop :=
  IsInProgress execution ∧
    IsRecordingOf fingerprint execution.executionId result (persisted ++ todo) ∧
    ∃ row∈w.db.executions,IsRunRow execution result.outcome persisted row

/-- A recording whose outcome is still to come. -/
def Running (execution : MlExecution) : Prop :=
  IsInProgress execution ∧ ∃ row∈w.db.executions,IsRunRow execution .inProgress [] row

/-- What a task knows of the store. -/
def TaskSound : Task → Prop
  | .hydrating hit todo =>
    (∃ row∈w.db.executions,IsHitRow hit.key hit.loaded row) ∧ ∃ before,hit.loaded.artifacts=before ++ todo ∧
      List.Forall₂ (Hydrated fingerprint) before hit.got
  | .refetched hit key fresh =>
    (∃ row∈w.db.executions,IsHitRow hit.key hit.loaded row) ∧ FullyHydrated fingerprint hit ∧
      ∃ row∈w.db.executions,IsFreshRow key fresh row
  | .filling hit target todo => Filling fingerprint w hit target todo
  | .fillMarking hit target document todo | .fillFailing hit target document todo =>
    Filling fingerprint w hit target (document::todo)
  | .served hit => FullyHydrated fingerprint hit
  | .minted id => id∈w.minted ∧ ∀ row∈w.db.executions,row.executionId≠id
  | .running execution | .interrupted execution | .clientFailed execution
  | .answered execution _ => Running w execution
  | .recorded execution result => IsInProgress execution ∧
      ∃ row∈w.db.executions,IsRunRow execution result.outcome [] row
  | .persisting execution result done todo _ => Recording fingerprint w execution result done todo
  | .putting execution result done document todo _ | .marking execution result done document todo _
  | .failing execution result done document todo =>
    Recording fingerprint w execution result (done ++ [document]) todo
  | .sized key executions => ∀ row∈w.db.executions,row.executionKey=key → ∀ a∈row.artifacts,
      ∃ size∈blobSizes executions,a.blobKey=.value size.1
  | .dropping key _ => ∀ row∈w.db.executions,row.executionKey=key → row.artifacts=[]
  | .idle | .healing _ _ | .reconciling _ _ _ _ | .blobFound _ _ _ _ _ | .blobMissed _ _ _ _ => True

/-- The invariant of a caller that has the store to itself. -/
def CallerSound (φ : Phase) (w : World) : Prop := Sound fingerprint w ∧ TaskSound fingerprint w φ.task

end Tasks

/-- The worlds differ in nothing but tags, journal, locks and newer ids. -/
structure SameStore (w w' : World) : Prop where
  /-- The blobs are the same. -/
  blobs : w'.blobs=w.blobs
  /-- No minted id is forgotten. -/
  minted : ∀ id∈w.minted,id∈w'.minted
  /-- The database is the same, tags apart. -/
  db : w'.db=w.db ∨ ∃ key tags,addTags key tags w.db=.ok w'.db

/-- Locks are not part of the store. -/
theorem SameStore.held (w : World) (held : List (ThreadId × ExecutionKey)) :
    SameStore w { w with held := held } := ⟨rfl,fun _ h => h,Or.inl rfl⟩

section Quiet
variable {Command : Type} {locks : LockMode} {faults : Faults Command} {thread : ThreadId}
  {fingerprint : Bytes → Digest} {w w' : World}

/-- A repository call that returned was a committed transaction. -/
theorem answers_store_ok {call : StoreCall} {a : call.Ret}
    (h : Answers locks faults thread (.store call : Call Command) w (.ok a) w') :
    ∃ now db,transact now w.db call=.ok (a,db) ∧ w'={ w with db := db } := by
  rcases answers_store h with ⟨now,b,db,ht,hr,hw⟩ | ⟨e,hr,_⟩
  · cases Except.ok.inj hr
    exact ⟨now,db,ht,hw⟩
  · exact nomatch hr

/-- A blob store reads what it holds. -/
theorem answers_blobGet {blobKey : BlobKey} {content : Option Bytes}
    (h : Answers locks faults thread (.blobGet blobKey : Call Command) w (.ok content) w') :
    w'=w ∧ content=w.blobs.get blobKey := by
  cases h
  exact ⟨rfl,rfl⟩

/-- A read leaves the world as it is. -/
theorem answers_read {call : StoreCall} {a : call.Ret} (hread : call.isRead=true)
    (h : Answers locks faults thread (.store call : Call Command) w (.ok a) w') : w'=w := by
  obtain ⟨now,db,ht,rfl⟩ := answers_store_ok h
  rw [transact_read hread ht]

/-- A current execution was found in the database. -/
theorem answers_findCurrent {key : ExecutionKey} {found : Option MlExecution}
    (h : Answers locks faults thread (.store (.findCurrent key) : Call Command) w (.ok found) w') :
    w'=w ∧ findCurrent key w.db=.ok found := by
  obtain ⟨now,db,ht,rfl⟩ := answers_store_ok h
  obtain ⟨hfind,rfl⟩ := reading_ok.mp ht
  exact ⟨rfl,hfind⟩

/-- So were all executions of a key. -/
theorem answers_findAll {key : ExecutionKey} {executions : List MlExecution}
    (h : Answers locks faults thread (.store (.findAll key) : Call Command) w (.ok executions) w') :
    w'=w ∧ findAll key w.db=.ok executions := by
  obtain ⟨now,db,ht,rfl⟩ := answers_store_ok h
  obtain ⟨hfind,rfl⟩ := reading_ok.mp ht
  exact ⟨rfl,hfind⟩

/-- An execution was removed. -/
theorem answers_removeExecution {executionId : ExecutionId} {u : Unit}
    (h : Answers locks faults thread (.store (.removeExecution executionId) : Call Command) w (.ok u) w') :
    w'={ w with db := removeExecution executionId w.db } := by
  obtain ⟨now,db,ht,rfl⟩ := answers_store_ok h
  cases Except.ok.inj (commit_ok.mp ht)
  rfl

/-- A key was soft purged. -/
theorem answers_softPurge {key : ExecutionKey} {u : Unit}
    (h : Answers locks faults thread (.store (.softPurgeExecution key) : Call Command) w (.ok u) w') :
    w'={ w with db := softPurgeExecution key w.db } := by
  obtain ⟨now,db,ht,rfl⟩ := answers_store_ok h
  cases Except.ok.inj (commit_ok.mp ht)
  rfl

/-- A key was hard deleted. -/
theorem answers_hardDelete {key : ExecutionKey} {u : Unit}
    (h : Answers locks faults thread (.store (.hardDeleteExecution key) : Call Command) w (.ok u) w') :
    w'={ w with db := hardDeleteExecution key w.db } := by
  obtain ⟨now,db,ht,rfl⟩ := answers_store_ok h
  cases Except.ok.inj (commit_ok.mp ht)
  rfl

/-- A quiet call changes no document, blob or row but for tags. -/
theorem sameStore_of_isQuiet {call : Call Command} {a : call.Ret} (hq : isQuiet call=true)
    (h : Answers locks faults thread call w (.ok a) w') : SameStore w w' := by
  cases call with
  | store call =>
    obtain ⟨now,db,ht,rfl⟩ := answers_store_ok h
    by_cases hread : call.isRead=true
    · exact ⟨rfl,fun _ h => h,Or.inl (transact_read hread ht)⟩
    · cases call with
      | addTags key tags => exact ⟨rfl,fun _ h => h,Or.inr ⟨key,tags,commit_ok.mp ht⟩⟩
      | _ => first | exact absurd rfl hread | exact nomatch hq
  | newExecutionId =>
    cases h with
    | newExecutionId id hnew => exact ⟨rfl,fun _ h => List.mem_cons_of_mem _ h,Or.inl rfl⟩
  | acquireShared | releaseShared | recordEvent | deleteEventsForKey | lastAccess
  | executionKeysForSession | sessionIdsForTag | currentTime =>
    cases h
    exact ⟨rfl,fun _ h => h,Or.inl rfl⟩
  | _ => exact nomatch hq

/-- What some row satisfies whatever its tags, some row still satisfies. -/
theorem SameStore.exists_row {P : ExecutionRow → Prop} (h : SameStore w w')
    (hP : ∀ row tags,P row → P (row.update fun c => { c with tags := tags }))
    (hrow : ∃ row∈w.db.executions,P row) : ∃ row∈w'.db.executions,P row := by
  obtain ⟨row,hmem,hp⟩ := hrow
  rcases h.db with heq | ⟨key,tags,htags⟩
  · exact ⟨row,heq ▸ hmem,hp⟩
  · rcases addTags_ok htags with heq | ⟨id,heq⟩
    · exact ⟨row,heq ▸ hmem,hp⟩
    · rw [heq]
      by_cases hid : hasId id row=true
      · exact ⟨_,Db.mem_updateWhere_of hmem hid,hP row _ hp⟩
      · exact ⟨row,Db.mem_updateWhere_of_not hmem (by simpa using hid),hp⟩

/-- What every row satisfies whatever its tags, every row still satisfies. -/
theorem SameStore.forall_row {P : ExecutionRow → Prop} (h : SameStore w w')
    (hP : ∀ row tags,P row → P (row.update fun c => { c with tags := tags }))
    (hrow : ∀ row∈w.db.executions,P row) : ∀ row∈w'.db.executions,P row := by
  intro row hmem
  rcases h.db with heq | ⟨key,tags,htags⟩
  · exact hrow row (heq ▸ hmem)
  · rcases addTags_ok htags with heq | ⟨id,heq⟩
    · exact hrow row (heq ▸ hmem)
    · rw [heq] at hmem
      obtain ⟨r,hr,rfl⟩ := Db.mem_updateWhere.mp hmem
      split
      · exact hP r _ (hrow r hr)
      · exact hrow r hr

/-- The store stays sound. -/
theorem SameStore.sound (h : SameStore w w') (hs : Sound fingerprint w) : Sound fingerprint w' where
  wellFormed := by
    rcases h.db with heq | ⟨key,tags,htags⟩
    · exact heq ▸ hs.wellFormed
    · exact @transact_wellFormed 0 _ _ (.addTags key tags) () hs.wellFormed (commit_ok.mpr htags)
  oneCurrent := by
    rcases h.db with heq | ⟨key,tags,htags⟩
    · exact heq ▸ hs.oneCurrent
    · rcases addTags_ok htags with heq | ⟨id,heq⟩
      · exact heq ▸ hs.oneCurrent
      · rw [heq]
        exact atMostOne_updateWhere hs.oneCurrent fun _ _ _ hserv => hserv
  minted := h.forall_row (fun _ _ hp => hp) fun row hrow => h.minted _ (hs.minted row hrow)
  owned := h.forall_row (fun _ _ hp => hp) hs.owned
  addressed := by
    rw [h.blobs]
    exact hs.addressed

/-- A run's row stays one whatever its tags. -/
theorem IsRunRow.tags {execution : MlExecution} {state : ExecutionState} {documents : List Artifact}
    (row : ExecutionRow) (tags : List PyStr) (h : IsRunRow execution state documents row) :
    IsRunRow execution state documents (row.update fun c => { c with tags := tags }) :=
  ⟨h.id,h.key,h.state,h.unpersisted,h.current,h.artifacts⟩

/-- A hit's row stays one whatever its tags. -/
theorem IsHitRow.tags {key : ExecutionKey} {loaded : MlExecution} (row : ExecutionRow)
    (tags : List PyStr) (h : IsHitRow key loaded row) :
    IsHitRow key loaded (row.update fun c => { c with tags := tags }) :=
  ⟨h.id,h.key,h.servable,h.artifacts⟩

/-- A back-fill's row stays one whatever its tags. -/
theorem IsFreshRow.tags {key : ExecutionKey} {fresh : MlExecution} (row : ExecutionRow)
    (tags : List PyStr) (h : IsFreshRow key fresh row) :
    IsFreshRow key fresh (row.update fun c => { c with tags := tags }) :=
  ⟨h.id,h.key,h.servable,h.noInput⟩

/-- A row names what it named whatever its tags. -/
theorem Names.tags {target : ExecutionId} {documents : List Artifact} (row : ExecutionRow)
    (tags : List PyStr) (h : Names target documents row) :
    Names target documents (row.update fun c => { c with tags := tags }) := ⟨h.id,h.named⟩

/-- A task knows what it knew. -/
theorem SameStore.taskSound (h : SameStore w w') {task : Task} (hs : TaskSound fingerprint w task) :
    TaskSound fingerprint w' task := by
  have hfill : ∀ hit target todo,Filling fingerprint w hit target todo →
      Filling fingerprint w' hit target todo :=
    fun hit target todo hf => ⟨hf.1,h.exists_row Names.tags hf.2.1,hf.2.2⟩
  have hrun : ∀ execution,Running w execution → Running w' execution :=
    fun execution hr => ⟨hr.1,h.exists_row IsRunRow.tags hr.2⟩
  have hrec : ∀ execution result persisted todo,
      Recording fingerprint w execution result persisted todo →
      Recording fingerprint w' execution result persisted todo :=
    fun _ _ _ _ hr => ⟨hr.1,hr.2.1,h.exists_row IsRunRow.tags hr.2.2⟩
  cases task with
  | hydrating hit todo => exact ⟨h.exists_row IsHitRow.tags hs.1,hs.2⟩
  | refetched hit key fresh =>
    exact ⟨h.exists_row IsHitRow.tags hs.1,hs.2.1,h.exists_row IsFreshRow.tags hs.2.2⟩
  | filling hit target todo => exact hfill _ _ _ hs
  | fillMarking hit target document todo => exact hfill _ _ _ hs
  | fillFailing hit target document todo => exact hfill _ _ _ hs
  | served hit => exact hs
  | minted id => exact ⟨h.minted _ hs.1,h.forall_row (fun _ _ hp => hp) hs.2⟩
  | running execution => exact hrun _ hs
  | interrupted execution => exact hrun _ hs
  | clientFailed execution => exact hrun _ hs
  | answered execution result => exact hrun _ hs
  | recorded execution result => exact ⟨hs.1,h.exists_row IsRunRow.tags hs.2⟩
  | persisting execution result done todo allStored => exact hrec _ _ _ _ hs
  | putting execution result done document todo allStored => exact hrec _ _ _ _ hs
  | marking execution result done document todo allStored => exact hrec _ _ _ _ hs
  | failing execution result done document todo => exact hrec _ _ _ _ hs
  | sized key executions => exact h.forall_row (fun _ _ hp => hp) hs
  | dropping key todo => exact h.forall_row (fun _ _ hp => hp) hs
  | idle | healing | reconciling | blobFound | blobMissed => trivial

/-- What holds of the caller holds after a call without effect. -/
theorem SameStore.callerSound (h : SameStore w w') {φ : Phase} (hs : CallerSound fingerprint φ w) :
    CallerSound fingerprint φ w' := ⟨h.sound hs.1,h.taskSound hs.2⟩

end Quiet

section Transactions
variable {fingerprint : Bytes → Digest} {w : World} {now : Timestamp} {db : Db}

/-- The documents of a recording are documents of its execution. -/
theorem isDocument_of_isRecordingOf {executionId : ExecutionId} {result : ClientRunResult}
    {documents : List Artifact} (h : IsRecordingOf fingerprint executionId result documents) :
    ∀ a∈documents,IsDocument fingerprint executionId a := by
  obtain ⟨outputs,inputs,hout,hin,rfl⟩ := h
  intro a ha
  rcases List.mem_append.mp ha with ha | ha
  · obtain ⟨stdout,_,hout⟩ := ok_of_bind hout
    obtain ⟨stderr,_,hout⟩ := ok_of_bind hout
    cases Except.ok.inj hout
    rcases List.mem_cons.mp ha with rfl | ha
    · exact ⟨_,_,_,rfl⟩
    · rcases List.mem_cons.mp ha with rfl | ha
      · exact ⟨_,_,_,rfl⟩
      · obtain ⟨file,_,rfl⟩ := List.mem_map.mp ha
        exact ⟨_,_,_,rfl⟩
  · exact (hin a ha).2

/-- The blob key of a document is its execution's. -/
theorem blobKey_of_isDocument {executionId : ExecutionId} {a : Artifact}
    (h : IsDocument fingerprint executionId a) :
    ∃ digest,a.blobKey=.forExecution executionId digest := by
  obtain ⟨artifactType,name,content,rfl⟩ := h
  exact ⟨_,rfl⟩

/-- A row of an id, changed by an update of that id. -/
theorem exists_update {executionId : ExecutionId} {f : MutableColumns → MutableColumns}
    {P Q : ExecutionRow → Prop} (hrow : ∃ row∈w.db.executions,P row)
    (hid : ∀ row,P row → row.executionId=executionId) (hpq : ∀ row,P row → Q (row.update f)) :
    ∃ row∈(w.db.updateWhere (hasId executionId) f).executions,Q row := by
  obtain ⟨row,hmem,hp⟩ := hrow
  exact ⟨_,Db.mem_updateWhere_of hmem (by simp [hid row hp]),hpq row hp⟩

/-- A saved run in progress is one new row at the end, without documents. -/
theorem save_inProgress {execution : MlExecution} {db' : Db} (hprogress : IsInProgress execution)
    (hsave : save execution now db=.ok db') :
    ∃ id,(∀ r∈db.executions,r.executionId≠execution.executionId) ∧ (∀ r∈db.executions,r.id < id) ∧
      db'.executions=db.executions ++
        [insertedRow id execution.callIdentity.generateKey execution now [] none] := by
  obtain ⟨id,hnew,hid,hrows,_⟩ := save_ok hsave
  have hserv : isServable execution=false := by simp [isServable,hprogress.outputPersisted]
  refine ⟨id,hnew,hid,?_⟩
  simpa only [hserv,Bool.false_eq_true,if_false,hprogress.artifacts,hprogress.tokenUsage,List.map_nil,
    Option.map_none] using hrows

/-- A saved run in progress leaves the store sound. -/
theorem Sound.save {execution : MlExecution} (h : Sound fingerprint w)
    (hprogress : IsInProgress execution) (hmint : execution.executionId∈w.minted)
    (hsave : save execution now w.db=.ok db) :
    Sound fingerprint { w with db := db } ∧
      ∃ row∈db.executions,IsRunRow execution .inProgress [] row := by
  have hserv : isServable execution=false := by simp [isServable,hprogress.outputPersisted]
  have hone := atMostOne_save h.oneCurrent hserv hsave
  obtain ⟨id,_,_,hrows⟩ := save_inProgress hprogress hsave
  have hmem : ∀ row∈db.executions,row∈w.db.executions ∨
      row=insertedRow id execution.callIdentity.generateKey execution now [] none := by
    intro row hrow
    simpa [hrows] using hrow
  refine ⟨⟨wellFormed_save h.wellFormed hsave,hone,?_,?_,h.addressed⟩,?_⟩
  · intro row hrow
    rcases hmem row hrow with hrow | rfl
    · exact h.minted row hrow
    · exact hmint
  · intro row hrow
    rcases hmem row hrow with hrow | rfl
    · exact h.owned row hrow
    · exact fun a ha => (List.not_mem_nil ha).elim
  · refine ⟨_,by rw [hrows]; exact List.mem_append_right _ (List.mem_singleton_self _),rfl,rfl,?_,?_,?_,.nil⟩
    · simp [insertedRow,insertedColumns,hprogress.state]
    · exact hprogress.outputPersisted
    · simp [insertedRow,insertedColumns,hprogress.supersededAt]

/-- Recording the outcome of a run that is not promoted leaves the store sound. -/
theorem Sound.recordOutcome {execution : MlExecution} (h : Sound fingerprint w)
    (hrec : recordOutcome execution w.db=.ok db)
    (hrow : ∃ row∈w.db.executions,row.executionId=execution.executionId ∧ row.outputPersisted=false) :
    Sound fingerprint { w with db := db } := by
  have hwf := wellFormed_recordOutcome h.wellFormed hrec
  obtain ⟨_,_,_,usage,_,rfl⟩ := recordOutcome_ok hrec
  obtain ⟨row,hmem,hid,hout⟩ := hrow
  refine h.update hwf (atMostOne_updateWhere h.oneCurrent fun r hr hp hserv => ?_)
    fun r _ _ a ha => Or.inl ⟨a,ha,rfl⟩
  have hsame : r=row := w.db.row_unique hr hmem (((hasId_iff _ _).mp hp).trans hid.symm)
  have hpersisted := ((MutableColumns.servable_iff _).mp hserv).2.1
  simp only [outcomeColumns,hsame,hout] at hpersisted
  exact absurd hpersisted Bool.false_ne_true

/-- An outcome of a run in progress is in its row. -/
theorem IsRunRow.outcome {execution : MlExecution} {result : ClientRunResult} {row : ExecutionRow}
    {usage : Option UsageRow} (h : IsRunRow execution .inProgress [] row) :
    IsRunRow execution result.outcome []
      (row.update (outcomeColumns (withOutcome execution result) usage)) :=
  ⟨h.id,h.key,rfl,h.unpersisted,h.current,h.artifacts⟩

/-- Attaching rows of documents of the row's execution leaves the store sound. -/
theorem Sound.withArtifacts {executionId : ExecutionId} {documents : List Artifact}
    (h : Sound fingerprint w) (hdocs : ∀ a∈documents,IsDocument fingerprint executionId a) :
    Sound fingerprint
      { w with
        db := w.db.updateWhere (hasId executionId)
          (ExecutionRepository.withArtifacts (documents.map artifactRow)) } := by
  refine h.update (wellFormed_updateWhere h.wellFormed fun _ _ _ hc => wellFormed_withArtifacts _ hc)
    (atMostOne_updateWhere h.oneCurrent fun _ _ _ hserv => hserv) fun row _ hp a ha => ?_
  rcases List.mem_append.mp ha with ha | ha
  · exact Or.inl ⟨a,ha,rfl⟩
  · obtain ⟨document,hdoc,rfl⟩ := List.mem_map.mp ha
    obtain ⟨digest,hkey⟩ := blobKey_of_isDocument (hdocs document hdoc)
    exact Or.inr ⟨digest,by rw [(hasId_iff _ _).mp hp,←hkey]; rfl⟩

/-- The row of a document is a row of it. -/
theorem isRowOf_artifactRow (document : Artifact) : IsRowOf document (artifactRow document) :=
  ⟨rfl,rfl,rfl⟩

/-- A persisted document is the last of its run's row. -/
theorem IsRunRow.persist {execution : MlExecution} {state : ExecutionState} {done : List Artifact}
    {document : Artifact} {row : ExecutionRow} (h : IsRunRow execution state done row) :
    IsRunRow execution state (done ++ [document])
      (row.update (ExecutionRepository.withArtifacts [artifactRow document])) :=
  ⟨h.id,h.key,h.state,h.unpersisted,h.current,
    List.rel_append h.artifacts (.cons (isRowOf_artifactRow document) .nil)⟩

/-- A mark changes no row's document. -/
def KeepsDocument (mark : ArtifactRow → ArtifactRow) : Prop :=
  ∀ a,(mark a).artifactType=a.artifactType ∧ (mark a).name=a.name ∧ (mark a).blobKey=a.blobKey

/-- Both marks keep documents. -/
theorem keepsDocument_storedMark (now : Timestamp) : KeepsDocument (storedMark now) :=
  fun _ => ⟨rfl,rfl,rfl⟩

/-- A failed mark keeps documents. -/
theorem keepsDocument_failedMark (detail : PyStr) : KeepsDocument (failedMark detail) :=
  fun _ => ⟨rfl,rfl,rfl⟩

/-- Marking leaves the store sound. -/
theorem Sound.mark {executionId : ExecutionId} {blobKey : BlobKey} {mark : ArtifactRow → ArtifactRow}
    (h : Sound fingerprint w) (hmark : KeepsDocument mark)
    (hwf : WellFormed (w.db.updateWhere (hasId executionId) (markColumns blobKey mark))) :
    Sound fingerprint
      { w with db := w.db.updateWhere (hasId executionId) (markColumns blobKey mark) } := by
  refine h.update hwf (atMostOne_updateWhere h.oneCurrent fun _ _ _ hserv => hserv) ?_
  intro row _ _ a ha
  obtain ⟨b,hb,rfl⟩ := List.mem_map.mp ha
  refine Or.inl ⟨b,hb,?_⟩
  split
  · exact (hmark b).2.2
  · rfl

/-- A marked run's row is still its row. -/
theorem IsRunRow.mark {execution : MlExecution} {state : ExecutionState} {done : List Artifact}
    {blobKey : BlobKey} {mark : ArtifactRow → ArtifactRow} {row : ExecutionRow}
    (hmark : KeepsDocument mark) (h : IsRunRow execution state done row) :
    IsRunRow execution state done (row.update (markColumns blobKey mark)) := by
  refine ⟨h.id,h.key,h.state,h.unpersisted,h.current,List.forall₂_map_right_iff.mpr ?_⟩
  refine h.artifacts.imp fun document a ha => ?_
  split
  · obtain ⟨htype,hname,hkey⟩ := hmark a
    exact ⟨htype.trans ha.1,hname.trans ha.2.1,hkey.trans ha.2.2⟩
  · exact ha

/-- A marked row names what it named. -/
theorem Names.mark {target : ExecutionId} {documents : List Artifact} {blobKey : BlobKey}
    {mark : ArtifactRow → ArtifactRow} {row : ExecutionRow} (hmark : KeepsDocument mark)
    (h : Names target documents row) :
    Names target documents (row.update (markColumns blobKey mark)) := by
  refine ⟨h.id,fun document hdoc => ?_⟩
  obtain ⟨a,ha,hkey⟩ := h.named document hdoc
  refine ⟨_,List.mem_map.mpr ⟨a,ha,rfl⟩,?_⟩
  split
  · exact (hmark a).2.2.trans hkey
  · exact hkey

/-- A row that names documents names fewer. -/
theorem Names.tail {target : ExecutionId} {document : Artifact} {todo : List Artifact}
    {row : ExecutionRow} (h : Names target (document::todo) row) : Names target todo row :=
  ⟨h.id,fun d hd => h.named d (List.mem_cons_of_mem _ hd)⟩

/-- Finalizing leaves the store sound. -/
theorem Sound.finalize {executionId : ExecutionId} (h : Sound fingerprint w)
    (hf : finalizeOutputPersisted executionId now w.db=.ok db) :
    Sound fingerprint { w with db := db } := by
  refine h.withDb (wellFormed_finalize h.wellFormed hf) (atMostOne_finalize h.oneCurrent hf) ?_
  obtain ⟨row,_,_,_,rfl⟩ := finalizeOutputPersisted_ok hf
  intro r' hr'
  obtain ⟨r,hr,rfl⟩ := Db.mem_updateWhere.mp hr'
  have hfrom : ∃ r₀∈w.db.executions,r.executionId=r₀.executionId ∧ r.artifacts=r₀.artifacts := by
    split at hr
    · obtain ⟨r₀,hr₀,rfl⟩ := Db.mem_updateWhere.mp hr
      refine ⟨r₀,hr₀,?_⟩
      split <;> exact ⟨rfl,rfl⟩
    · exact ⟨r,hr,rfl,rfl⟩
  obtain ⟨r₀,hr₀,hid,hart⟩ := hfrom
  refine ⟨r₀,hr₀,?_⟩
  split
  · exact ⟨hid,fun a ha => Or.inl ⟨a,hart ▸ ha,rfl⟩⟩
  · exact ⟨hid,fun a ha => Or.inl ⟨a,hart ▸ ha,rfl⟩⟩

/-- Removing an execution keeps the store sound. -/
theorem Sound.removeExecution (h : Sound fingerprint w) (executionId : ExecutionId) :
    Sound fingerprint { w with db := removeExecution executionId w.db } :=
  h.subset (wellFormed_removeExecution h.wellFormed _) fun _ hrow => (mem_removeExecution.mp hrow).1

/-- A soft purge leaves the store sound. -/
theorem Sound.softPurge (h : Sound fingerprint w) (key : ExecutionKey)
    (hwf : WellFormed (softPurgeExecution key w.db)) :
    Sound fingerprint { w with db := softPurgeExecution key w.db } := by
  refine h.update hwf (atMostOne_updateWhere h.oneCurrent fun row _ _ hserv => ?_)
    fun row _ _ a ha => (List.not_mem_nil ha).elim
  exact absurd ((MutableColumns.servable_iff _).mp hserv).2.1 Bool.false_ne_true

/-- Attaching input to a row without one attaches it. -/
theorem addInputArtifacts_fresh {key : ExecutionKey} {fresh : MlExecution} {documents : List Artifact}
    (hone : w.db.AtMostOneCurrent) (hrow : ∃ row∈w.db.executions,IsFreshRow key fresh row)
    (h : addInputArtifacts key documents w.db=.ok db) :
    (db=w.db ∧ documents=[]) ∨ db=w.db.updateWhere (hasId fresh.executionId)
      (withArtifacts (documents.map artifactRow)) := by
  obtain ⟨row,hmem,hfresh⟩ := hrow
  have hcurrent : w.db.currentRow key=some row := by
    rw [←hfresh.key]
    exact hone.currentRow hmem hfresh.servable
  unfold addInputArtifacts at h
  split at h
  next hempty => exact Or.inl ⟨(Except.ok.inj h).symm,by simpa using hempty⟩
  next =>
    simp only [hcurrent,hfresh.noInput,Bool.false_eq_true,if_false] at h
    obtain ⟨rows,hrows,h⟩ := ok_of_bind h
    rw [insertArtifacts_ok hrows,hfresh.id] at h
    exact Or.inr (Except.ok.inj h).symm

/-- The row that input was attached to names it. -/
theorem IsFreshRow.attach {key : ExecutionKey} {fresh : MlExecution} {documents : List Artifact}
    {row : ExecutionRow} (h : IsFreshRow key fresh row) :
    Names fresh.executionId documents
      (row.update (ExecutionRepository.withArtifacts (documents.map artifactRow))) :=
  ⟨h.id,fun document hdoc =>
    ⟨artifactRow document,List.mem_append_right _ (List.mem_map_of_mem hdoc),rfl⟩⟩

/-- A listed key's sizes cover its rows' artifacts. -/
theorem findAll_covers {key : ExecutionKey} {executions : List MlExecution}
    (h : findAll key w.db=.ok executions) : ∀ row∈w.db.executions,row.executionKey=key →
      ∀ a∈row.artifacts,∃ size∈blobSizes executions,a.blobKey=.value size.1 := by
  intro row hrow hkey a ha
  have hmem : row∈w.db.executions.filter (hasKey key) := List.mem_filter.mpr ⟨hrow,by simpa using hkey⟩
  obtain ⟨execution,he,hload⟩ := (mem_of_forall₂ (forall₂_of_mapM h)).2 row hmem
  obtain ⟨_,hart,_,_⟩ := loadExecution_ok hload
  rw [hart] at ha
  obtain ⟨artifact,hartifact,rfl⟩ := List.mem_map.mp ha
  obtain ⟨size,hsize,hk⟩ := mem_blobSizes he hartifact
  exact ⟨size,hsize,by rw [hk]; rfl⟩

/-- A loaded hit has its row. -/
theorem isHitRow_of_findCurrent {key : ExecutionKey} {loaded : MlExecution}
    (h : findCurrent key w.db=.ok (some loaded)) :
    ∃ row∈w.db.executions,IsHitRow key loaded row := by
  obtain ⟨row,hrow,hload⟩ := findCurrent_some h
  obtain ⟨hmem,hkey,hserv⟩ := Db.currentRow_mem hrow
  obtain ⟨hid,hart,_,_⟩ := loadExecution_ok hload
  exact ⟨row,hmem,hid.symm,hkey,hserv,hart⟩

/-- A current execution without input, read again, has its row. -/
theorem isFreshRow_of_findCurrent {key : ExecutionKey} {fresh : MlExecution}
    (hinput : fresh.inputPersisted=false) (h : findCurrent key w.db=.ok (some fresh)) :
    ∃ row∈w.db.executions,IsFreshRow key fresh row := by
  obtain ⟨row,hrow,hload⟩ := findCurrent_some h
  obtain ⟨hmem,hkey,hserv⟩ := Db.currentRow_mem hrow
  obtain ⟨hid,hart,_,hin⟩ := loadExecution_ok hload
  refine ⟨row,hmem,hid.symm,hkey,hserv,?_⟩
  rw [hart,List.any_map,←hinput,hin]
  rfl

/-- A blob read for an artifact hydrates it. -/
theorem hydrated_of_get {artifact : Artifact} {content : Bytes} (h : Sound fingerprint w)
    (hget : w.blobs.get artifact.blobKey=some content) :
    Hydrated fingerprint artifact { artifact with content := some content } :=
  ⟨content,rfl,fun id digest hkey => h.addressed id digest content (hkey ▸ hget)⟩

end Transactions

section Steps
variable {Command : Type} {locks : LockMode} {faults : Faults Command} {thread : ThreadId}
  {scope : Scope} {fingerprint : Bytes → Digest}

/-- Where an error leads, nothing is claimed. -/
theorem taskSound_raised (w : World) (task : Task) (e : PyExc) :
    TaskSound fingerprint w (task.raised e) := by
  cases task <;> simp only [Task.raised] <;> first | trivial | (split <;> trivial)

/-- What a repair goes on to is claimed of nothing. -/
theorem taskSound_nextRun (w : World) (runs : List UnpersistedRun) :
    TaskSound fingerprint w (Task.nextRun runs) := by
  cases runs <;> trivial

/-- What a repair goes on to within a run is claimed of nothing. -/
theorem taskSound_reconciled (w : World) (run : UnpersistedRun) (todo : List BlobKey)
    (complete : Bool) (rest : List UnpersistedRun) :
    TaskSound fingerprint w (Task.reconciled run todo complete rest) := by
  unfold Task.reconciled
  split
  · exact taskSound_nextRun w rest
  · trivial

/-- Releasing a lock forgets, or ends a back-fill. -/
theorem taskSound_released {w : World} {task : Task} (h : TaskSound fingerprint w task) :
    TaskSound fingerprint w task.released := by
  cases task with
  | hydrating hit todo => exact h
  | refetched hit key fresh => exact ⟨h.1,hit.loaded.artifacts,by simp,h.2.1⟩
  | filling hit target todo =>
    cases todo with
    | nil => exact h.1
    | cons document todo => exact h
  | fillMarking hit target document todo => exact h
  | fillFailing hit target document todo => exact h
  | served hit => exact h
  | _ => trivial

/-- The document being stored is one of the recording's. -/
theorem Recording.document {w : World} {execution : MlExecution} {result : ClientRunResult}
    {done todo : List Artifact} {document : Artifact}
    (h : Recording fingerprint w execution result (done ++ [document]) todo) :
    IsDocument fingerprint execution.executionId document :=
  isDocument_of_isRecordingOf h.2.1 document (by simp)

/-- A mark of a recording's row leaves caller and store sound. -/
theorem Recording.mark {w : World} {execution : MlExecution} {result : ClientRunResult}
    {done todo : List Artifact} {blobKey : BlobKey} {mark : ArtifactRow → ArtifactRow}
    (hmark : KeepsDocument mark) (h : Recording fingerprint w execution result done todo) :
    Recording fingerprint
      { w with db := w.db.updateWhere (hasId execution.executionId) (markColumns blobKey mark) }
      execution result done todo :=
  ⟨h.1,h.2.1,exists_update h.2.2 (fun _ hr => hr.id) fun _ hr => hr.mark hmark⟩

/-- A mark of a back-fill's row leaves what is still to store named. -/
theorem Filling.mark {w : World} {hit : Hit} {target : ExecutionId} {document : Artifact}
    {todo : List Artifact} {blobKey : BlobKey} {mark : ArtifactRow → ArtifactRow}
    (hmark : KeepsDocument mark) (h : Filling fingerprint w hit target (document::todo)) :
    Filling fingerprint
      { w with db := w.db.updateWhere (hasId target) (markColumns blobKey mark) } hit target todo :=
  ⟨h.1,exists_update h.2.1 (fun _ hr => hr.id) fun _ hr => (hr.mark hmark).tail,
    fun d hd => h.2.2 d (List.mem_cons_of_mem _ hd)⟩

/-- A stored mark that committed keeps the store sound. -/
theorem sound_markStored {w : World} {now : Timestamp} {id : ExecutionId} {blobKey : BlobKey} {db : Db}
    (h : Sound fingerprint w) (hm : markArtifactsStored id blobKey now w.db=.ok db) :
    db=w.db.updateWhere (hasId id) (markColumns blobKey (storedMark now)) ∧
      Sound fingerprint { w with db := db } := by
  have hwf := wellFormed_markArtifacts h.wellFormed (wellFormed_storedMark now) hm
  obtain ⟨_,rfl⟩ := markArtifacts_ok hm
  exact ⟨rfl,h.mark (keepsDocument_storedMark now) hwf⟩

/-- A failed mark that committed keeps the store sound. -/
theorem sound_markFailed {w : World} {id : ExecutionId} {blobKey : BlobKey} {detail : PyStr} {db : Db}
    (h : Sound fingerprint w) (hm : markArtifactsFailed id blobKey detail w.db=.ok db) :
    db=w.db.updateWhere (hasId id) (markColumns blobKey (failedMark detail)) ∧
      Sound fingerprint { w with db := db } := by
  obtain ⟨_,_,hm⟩ := ok_of_bind hm
  have hwf := wellFormed_markArtifacts h.wellFormed (wellFormed_failedMark detail) hm
  obtain ⟨_,rfl⟩ := markArtifacts_ok hm
  exact ⟨rfl,h.mark (keepsDocument_failedMark detail) hwf⟩

variable {w w' : World}

/-- A call that marks documents stored marks them, and keeps the store sound. -/
theorem answers_markStored {id : ExecutionId} {blobKey : BlobKey} {u : Unit} (hs : Sound fingerprint w)
    (h : Answers locks faults thread (.store (.markArtifactsStored id blobKey) : Call Command) w (.ok u) w') :
    ∃ now,w'={ w with db := w.db.updateWhere (hasId id) (markColumns blobKey (storedMark now)) } ∧
      Sound fingerprint w' := by
  obtain ⟨now,db,ht,rfl⟩ := answers_store_ok h
  obtain ⟨rfl,hs'⟩ := sound_markStored hs (commit_ok.mp ht)
  exact ⟨now,rfl,hs'⟩

/-- So does a call that marks them failed. -/
theorem answers_markFailed {id : ExecutionId} {blobKey : BlobKey} {detail : PyStr} {u : Unit}
    (hs : Sound fingerprint w)
    (h : Answers locks faults thread (.store (.markArtifactsFailed id blobKey detail) : Call Command) w (.ok u) w') :
    w'={ w with db := w.db.updateWhere (hasId id) (markColumns blobKey (failedMark detail)) } ∧
      Sound fingerprint w' := by
  obtain ⟨now,db,ht,rfl⟩ := answers_store_ok h
  obtain ⟨rfl,hs'⟩ := sound_markFailed hs (commit_ok.mp ht)
  exact ⟨rfl,hs'⟩

/-- A hydrated artifact joins those of its hit. -/
theorem taskSound_hydrated {hit : Hit} {artifact : Artifact} {todo : List Artifact} {content : Bytes}
    (hs : Sound fingerprint w) (h : TaskSound fingerprint w (.hydrating hit (artifact::todo)))
    (hget : w.blobs.get artifact.blobKey=some content) : TaskSound fingerprint w
      (.hydrating { hit with got := hit.got ++ [{ artifact with content := some content }] } todo) := by
  obtain ⟨hrow,before,hbefore,hall⟩ := h
  refine ⟨hrow,_,by rw [hbefore,List.append_cons],?_⟩
  exact List.rel_append hall (.cons (hydrated_of_get hs hget) .nil)

/-- A hit is hydrated when its back-fill reads the current execution again. -/
theorem taskSound_refetched {hit : Hit} {key : ExecutionKey} {fresh : MlExecution}
    (h : TaskSound fingerprint w (.hydrating hit [])) (hfresh : fresh.inputPersisted=false)
    (hfind : findCurrent key w.db=.ok (some fresh)) : TaskSound fingerprint w (.refetched hit key fresh) := by
  obtain ⟨hrow,before,hbefore,hall⟩ := h
  rw [List.append_nil] at hbefore
  subst hbefore
  exact ⟨hrow,hall,isFreshRow_of_findCurrent hfresh hfind⟩

/-- Attached rows are of the documents to store. -/
theorem sound_attached {hit : Hit} {key : ExecutionKey} {fresh : MlExecution} {documents : List Artifact} {db : Db}
    (hs : Sound fingerprint w) (h : TaskSound fingerprint w (.refetched hit key fresh))
    (hdocuments : ∀ a∈documents,IsInputDocument fingerprint fresh.executionId a)
    (hadd : addInputArtifacts key documents w.db=.ok db) : Sound fingerprint { w with db := db } ∧
      TaskSound fingerprint { w with db := db } (.filling hit fresh.executionId documents) := by
  obtain ⟨_,hfull,hfresh⟩ := h
  rcases addInputArtifacts_fresh hs.oneCurrent hfresh hadd with ⟨rfl,rfl⟩ | rfl
  · obtain ⟨row,hmem,hrow⟩ := hfresh
    exact ⟨hs,hfull,⟨row,hmem,hrow.id,fun _ h => (List.not_mem_nil h).elim⟩,hdocuments⟩
  · refine ⟨hs.withArtifacts fun a ha => (hdocuments a ha).2,hfull,?_,hdocuments⟩
    exact exists_update hfresh (fun _ h => h.id) fun _ h => h.attach

/-- A document that could not be marked stays pending. -/
theorem Filling.tail {hit : Hit} {target : ExecutionId} {document : Artifact} {todo : List Artifact}
    (h : Filling fingerprint w hit target (document::todo)) : Filling fingerprint w hit target todo := by
  obtain ⟨hfull,⟨row,hmem,hrow⟩,hdocs⟩ := h
  exact ⟨hfull,⟨row,hmem,hrow.tail⟩,fun d hd => hdocs d (List.mem_cons_of_mem _ hd)⟩

/-- A new id is that of no row. -/
theorem sound_minted {id : ExecutionId} (hs : Sound fingerprint w) (hnew : id∉w.minted) :
    Sound fingerprint { w with minted := id::w.minted } ∧
      TaskSound fingerprint { w with minted := id::w.minted } (.minted id) := by
  refine ⟨⟨hs.wellFormed,hs.oneCurrent,fun row h => List.mem_cons_of_mem _ (hs.minted row h),
    hs.owned,hs.addressed⟩,List.mem_cons_self,fun row hrow heq => ?_⟩
  exact hnew (heq ▸ hs.minted row hrow)

/-- A recorded outcome is that of the client's result. -/
theorem sound_recorded {execution : MlExecution} {result : ClientRunResult} {db : Db} (hs : Sound fingerprint w)
    (h : Running w execution) (hrecord : recordOutcome (withOutcome execution result) w.db=.ok db) :
    Sound fingerprint { w with db := db } ∧
      TaskSound fingerprint { w with db := db } (.recorded execution result) := by
  obtain ⟨hprogress,row,hmem,hrow⟩ := h
  have hs' := hs.recordOutcome hrecord ⟨row,hmem,hrow.id,hrow.unpersisted⟩
  obtain ⟨_,_,_,usage,_,rfl⟩ := recordOutcome_ok hrecord
  exact ⟨hs',hprogress,exists_update ⟨row,hmem,hrow⟩ (fun _ h => h.id) fun _ h => h.outcome⟩

/-- A persisted document joins the run's row. -/
theorem sound_persisted {execution : MlExecution} {result : ClientRunResult} {done : List Artifact}
    {document : Artifact} {todo : List Artifact} {db : Db} (hs : Sound fingerprint w)
    (h : Recording fingerprint w execution result done (document::todo))
    (hpersist : persistArtifact execution.executionId document w.db=.ok db) :
    Sound fingerprint { w with db := db } ∧
      Recording fingerprint { w with db := db } execution result (done ++ [document]) todo := by
  obtain ⟨_,rfl⟩ := persistArtifact_ok hpersist
  have hdoc : IsDocument fingerprint execution.executionId document :=
    isDocument_of_isRecordingOf h.2.1 document (by simp)
  have hdocs : ∀ a∈[document],IsDocument fingerprint execution.executionId a :=
    fun a ha => List.mem_singleton.mp ha ▸ hdoc
  exact ⟨hs.withArtifacts hdocs,h.1,by simpa using h.2.1,exists_update h.2.2 (fun _ h => h.id) fun _ h => h.persist⟩

/-- A soft purge leaves its key's rows without artifacts. -/
theorem sound_softDropped (hs : Sound fingerprint w) (key : ExecutionKey) (keys : List BlobKey) :
    Sound fingerprint { w with db := softPurgeExecution key w.db } ∧
      TaskSound fingerprint { w with db := softPurgeExecution key w.db } (.dropping key keys) := by
  have htransact : transact 0 w.db (.softPurgeExecution key)=.ok ((),softPurgeExecution key w.db) := rfl
  refine ⟨hs.softPurge _ (transact_wellFormed hs.wellFormed htransact),fun row hrow hkey => ?_⟩
  obtain ⟨r,_,rfl⟩ := Db.mem_updateWhere.mp hrow
  split at hkey
  next hp =>
    rw [if_pos hp]
    rfl
  next hp => exact absurd hkey (by simpa using hp)

/-- A hard delete leaves no row of its key. -/
theorem sound_hardDropped (hs : Sound fingerprint w) (key : ExecutionKey) (keys : List BlobKey) :
    Sound fingerprint { w with db := hardDeleteExecution key w.db } ∧
      TaskSound fingerprint { w with db := hardDeleteExecution key w.db } (.dropping key keys) := by
  refine ⟨hs.subset (wellFormed_hardDelete hs.wellFormed _) fun _ h => (mem_hardDeleteExecution.mp h).1,
    fun row hrow hkey => ?_⟩
  exact absurd hkey (mem_hardDeleteExecution.mp hrow).2

/-- Every turn keeps the invariant, whatever faults. -/
theorem keeps_callerSound :
    Keeps (Turn scope fingerprint) (Answers locks faults thread : Sem (Call Command) Call.Ret PyExc World)
      (CallerSound fingerprint) := by
  intro φ call r φ' w w' hturn hans hsound
  obtain ⟨hs,htask⟩ := hsound
  cases hturn with
  | quiet hq a => exact (sameStore_of_isQuiet hq hans).callerSound ⟨hs,htask⟩
  | raise _ =>
    rw [answers_error hans]
    exact ⟨hs,taskSound_raised w _ _⟩
  | releaseRaised hrelease =>
    cases hans with
    | fault hcall _ => exact absurd hrelease (by simp [hcall])
    | reject => exact nomatch hrelease
    | runClient => exact nomatch hrelease
  | gate hgate a =>
    rcases hgate with rfl | rfl | ⟨key,rfl⟩
    · cases hans
      exact ⟨hs,trivial⟩
    · cases hans
      exact ⟨hs,trivial⟩
    · rw [answers_read rfl hans]
      exact ⟨hs,trivial⟩
  | acquire =>
    cases hans
    exact (SameStore.held w _).callerSound ⟨hs,htask⟩
  | release =>
    cases hans
    exact (SameStore.held w _).callerSound ⟨hs,taskSound_released htask⟩
  | runUnrecorded =>
    cases hans
    exact ⟨hs,trivial⟩
  -- Serving.
  | load hscope loaded =>
    obtain ⟨rfl,hfind⟩ := answers_findCurrent hans
    exact ⟨hs,isHitRow_of_findCurrent hfind,[],rfl,.nil⟩
  | hydrate content =>
    obtain ⟨rfl,hget⟩ := answers_blobGet hans
    exact ⟨hs,taskSound_hydrated hs htask hget.symm⟩
  | miss | find | lose =>
    obtain ⟨rfl,_⟩ := answers_blobGet hans
    exact ⟨hs,trivial⟩
  | healBlob =>
    cases hans
    exact ⟨hs.remove _,trivial⟩
  | healRow | discard =>
    obtain rfl := answers_removeExecution hans
    exact ⟨hs.removeExecution _,trivial⟩
  | refetch hkey fresh hfresh =>
    obtain ⟨rfl,hfind⟩ := answers_findCurrent hans
    exact ⟨hs,taskSound_refetched htask hfresh hfind⟩
  | attach hkey hdocuments =>
    obtain ⟨now,db,ht,rfl⟩ := answers_store_ok hans
    exact sound_attached hs htask hdocuments (commit_ok.mp ht)
  | fillPut =>
    cases hans
    exact ⟨hs.put (htask.2.2 _ List.mem_cons_self).2,htask⟩
  | fillPutFailed | putFailed | markFailed =>
    rw [answers_error hans]
    exact ⟨hs,htask⟩
  | fillMark r hr =>
    cases r with
    | error e =>
      rw [answers_error hans]
      exact ⟨hs,Filling.tail htask⟩
    | ok u =>
      obtain ⟨now,rfl,hs'⟩ := answers_markStored hs hans
      exact ⟨hs',Filling.mark (keepsDocument_storedMark now) htask⟩
  | fillFail =>
    obtain ⟨rfl,hs'⟩ := answers_markFailed hs hans
    exact ⟨hs',Filling.mark (keepsDocument_failedMark _) htask⟩
  -- Recording.
  | mint hscope executionId =>
    cases hans with
    | newExecutionId id hnew => exact sound_minted hs hnew
  | save hkey hprogress =>
    obtain ⟨now,db,ht,rfl⟩ := answers_store_ok hans
    obtain ⟨hs',hrow⟩ := hs.save hprogress htask.1 (commit_ok.mp ht)
    exact ⟨hs',hprogress,hrow⟩
  | answer | interrupt | clientRaise =>
    cases hans <;> exact ⟨hs,htask⟩
  | abandon message =>
    obtain ⟨now,db,ht,rfl⟩ := answers_store_ok hans
    obtain ⟨_,row,hmem,hrow⟩ := htask
    exact ⟨hs.recordOutcome (commit_ok.mp ht) ⟨row,hmem,hrow.id,hrow.unpersisted⟩,trivial⟩
  | outcome =>
    obtain ⟨now,db,ht,rfl⟩ := answers_store_ok hans
    exact sound_recorded hs htask (commit_ok.mp ht)
  | beginDocuments hdocuments =>
    cases hans
    exact ⟨hs,htask.1,hdocuments,htask.2⟩
  | persist =>
    obtain ⟨now,db,ht,rfl⟩ := answers_store_ok hans
    exact sound_persisted hs htask (commit_ok.mp ht)
  | put =>
    cases hans
    exact ⟨hs.put (Recording.document htask),htask⟩
  | mark =>
    obtain ⟨now,rfl,hs'⟩ := answers_markStored hs hans
    exact ⟨hs',Recording.mark (keepsDocument_storedMark now) htask⟩
  | fail =>
    obtain ⟨rfl,hs'⟩ := answers_markFailed hs hans
    exact ⟨hs',Recording.mark (keepsDocument_failedMark _) htask⟩
  | finalize =>
    obtain ⟨now,db,ht,rfl⟩ := answers_store_ok hans
    exact ⟨hs.finalize (commit_ok.mp ht),trivial⟩
  -- Purging.
  | size hscope hkey executions =>
    obtain ⟨rfl,hfind⟩ := answers_findAll hans
    exact ⟨hs,findAll_covers hfind⟩
  | softDrop =>
    obtain rfl := answers_softPurge hans
    exact sound_softDropped hs _ _
  | hardDrop =>
    obtain rfl := answers_hardDelete hans
    exact sound_hardDropped hs _ _
  | dropBlob =>
    cases hans
    exact ⟨hs.remove _,htask⟩
  -- Repairing.
  | list hscope runs =>
    rw [answers_read rfl hans]
    exact ⟨hs,taskSound_nextRun _ _⟩
  | repairMark =>
    obtain ⟨_,_,hs'⟩ := answers_markStored hs hans
    exact ⟨hs',taskSound_reconciled _ _ _ _ _⟩
  | repairFail => exact ⟨(answers_markFailed hs hans).2,taskSound_reconciled _ _ _ _ _⟩
  | repairFinalize =>
    obtain ⟨now,db,ht,rfl⟩ := answers_store_ok hans
    exact ⟨hs.finalize (commit_ok.mp ht),taskSound_nextRun _ _⟩

/-- Where only the blob store faults, no error of a back-fill reports corruption. -/
theorem fill_not_corrupt {w w' : World} {task : Task} {call : Call Command} {e : PyExc}
    (hfaults : ∀ (call : Call Command) (e : PyExc),faults call e → isBlobCall call=true)
    (hwf : WellFormed w.db) (htask : (∃ hit target todo,task=.filling hit target todo) ∨
      (∃ hit target document todo,task=.fillMarking hit target document todo) ∨
      ∃ hit target document todo,task=.fillFailing hit target document todo)
    (h : Escapes task call e)
    (hans : Answers locks faults thread call w (.error e) w') : e.isCorruption=false := by
  by_contra hcorrupt
  have hexception := PyExc.isException_of_isCorruption (by simpa using hcorrupt)
  have hpasses : guardOf task call=.passes := by
    cases hg : guardOf task call with
    | passes => rfl
    | caught =>
      rw [h.2 hg] at hexception
      exact absurd hexception Bool.false_ne_true
    | absent => exact absurd hg h.1
  rcases htask with ⟨hit,target,todo,rfl⟩ | ⟨hit,target,document,todo,rfl⟩ |
    ⟨hit,target,document,todo,rfl⟩
  · cases call with
    | acquireShared =>
      cases hans with
      | fault _ hf => exact nomatch hfaults _ _ hf
    | _ => exact nomatch hpasses
  · cases call with
    | store call => cases call <;> exact nomatch hpasses
    | _ => exact nomatch hpasses
  · cases call with
    | store call =>
      cases call with
      | markArtifactsFailed id blobKey detail =>
        rcases answers_store hans with ⟨_,_,_,_,hr,_⟩ | ⟨e',hr,_,hf | ⟨now,ht⟩⟩
        · exact nomatch hr
        · exact nomatch hfaults _ _ hf
        · cases hr
          exact hcorrupt (transact_plain hwf e ht).2
      | _ => exact nomatch hpasses
    | _ => exact nomatch hpasses

/-- Every reachable store is sound, whatever faults and stops led to it. -/
theorem reachable_sound {w : World} (h : Reachable faults fingerprint w) : Sound fingerprint w := by
  have hfollows : ∀ p,(∃ op : Operation Command,p=program fingerprint op) →
      Conforms Scope.full fingerprint Phase.start EndsSettled p := by
    rintro p ⟨op,rfl⟩
    exact conforms_program rfl rfl rfl op fun _ => rfl
  have hstart : CallerSound fingerprint Phase.start w := by
    refine keeps_callerSound.history hfollows ⟨Sound.empty fingerprint,trivial⟩ ?_ h
    exact fun φ q w' hj _ _ => (SameStore.held w' []).callerSound ⟨hj.1,trivial⟩
  exact hstart.1

end Steps

end GenericMlCache.StoreSoundness
