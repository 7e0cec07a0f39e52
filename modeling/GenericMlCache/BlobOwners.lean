import GenericMlCache.StoreSoundness

/-!
# Every blob has its row

Recording, back-filling and healing write the row before the blob and remove
the blob before the row, so a blob is named by some artifact row wherever they
stop. A purge drops its key's rows first. The blobs it listed are named by
nothing until it has removed them, and a purge that stops in between leaves
them behind. That is the only way to lose track of a blob.
-/

namespace GenericMlCache.BlobOwners

open CallProgram CallAutomaton PythonText ExecutionModel SqliteStore ExecutionRepository
  ExecutionQueries RepositoryCalls ServicePorts StorePurge CachedExecution ServiceAutomaton
  ServiceConformance ServiceOperations StoreSoundness

/-- Some artifact row names the blob. -/
def Named (db : Db) (blobKey : BlobKey) : Prop :=
  ∃ row∈db.executions,∃ a∈row.artifacts,a.blobKey=.value blobKey

section Naming
variable {db : Db} {blobKey : BlobKey}

/-- An update that keeps every blob key keeps what is named. -/
theorem Named.update {p : ExecutionRow → Bool} {f : MutableColumns → MutableColumns}
    (hf : ∀ {c : MutableColumns},∀ a∈c.artifacts,∃ b∈(f c).artifacts,b.blobKey=a.blobKey)
    (h : Named db blobKey) : Named (db.updateWhere p f) blobKey := by
  obtain ⟨row,hrow,a,ha,hkey⟩ := h
  by_cases hp : p row=true
  · obtain ⟨b,hb,hbkey⟩ := hf a ha
    exact ⟨_,Db.mem_updateWhere_of hrow hp,b,hb,hbkey.trans hkey⟩
  · exact ⟨row,Db.mem_updateWhere_of_not hrow (by simpa using hp),a,ha,hkey⟩

/-- Rows that stay keep what they name. -/
theorem Named.superset {db' : Db} (hsub : ∀ row∈db.executions,row∈db'.executions)
    (h : Named db blobKey) : Named db' blobKey := by
  obtain ⟨row,hrow,hnames⟩ := h
  exact ⟨row,hsub row hrow,hnames⟩

/-- A mark keeps what is named. -/
theorem Named.mark {executionId : ExecutionId} {key : BlobKey} {mark : ArtifactRow → ArtifactRow}
    (hmark : KeepsDocument mark) (h : Named db blobKey) :
    Named (db.updateWhere (hasId executionId) (markColumns key mark)) blobKey := by
  refine h.update fun a ha => ⟨_,List.mem_map.mpr ⟨a,ha,rfl⟩,?_⟩
  split
  · exact (hmark a).2.2
  · rfl

/-- Finalizing keeps what is named. -/
theorem Named.finalize {executionId : ExecutionId} {now : Timestamp} {db' : Db}
    (hf : finalizeOutputPersisted executionId now db=.ok db') (h : Named db blobKey) :
    Named db' blobKey := by
  obtain ⟨row,_,_,_,rfl⟩ := finalizeOutputPersisted_ok hf
  refine Named.update (fun a ha => ⟨a,ha,rfl⟩) ?_
  split
  · exact h.update fun a ha => ⟨a,ha,rfl⟩
  · exact h

/-- Attaching rows keeps what is named. -/
theorem Named.withArtifacts {executionId : ExecutionId} {rows : List ArtifactRow}
    (h : Named db blobKey) : Named (db.updateWhere (hasId executionId) (withArtifacts rows)) blobKey :=
  h.update fun a ha => ⟨a,List.mem_append_left _ ha,rfl⟩

/-- A removed execution takes along only what it names. -/
theorem Named.removeExecution {executionId : ExecutionId} (h : Named db blobKey) :
    Named (removeExecution executionId db) blobKey ∨
      ∃ row∈db.executions,row.executionId=executionId ∧ ∃ a∈row.artifacts,a.blobKey=.value blobKey := by
  obtain ⟨row,hrow,hnames⟩ := h
  by_cases hid : row.executionId=executionId
  · exact Or.inr ⟨row,hrow,hid,hnames⟩
  · exact Or.inl ⟨row,mem_removeExecution.mpr ⟨hrow,hid⟩,hnames⟩

/-- A soft purge takes along only what its key's rows name. -/
theorem Named.softPurge {key : ExecutionKey} (h : Named db blobKey) :
    Named (softPurgeExecution key db) blobKey ∨
      ∃ row∈db.executions,row.executionKey=key ∧ ∃ a∈row.artifacts,a.blobKey=.value blobKey := by
  obtain ⟨row,hrow,hnames⟩ := h
  by_cases hkey : row.executionKey=key
  · exact Or.inr ⟨row,hrow,hkey,hnames⟩
  · exact Or.inl ⟨row,Db.mem_updateWhere_of_not hrow (by simpa using hkey),hnames⟩

/-- A hard delete takes along only what its key's rows name. -/
theorem Named.hardDelete {key : ExecutionKey} (h : Named db blobKey) :
    Named (hardDeleteExecution key db) blobKey ∨
      ∃ row∈db.executions,row.executionKey=key ∧ ∃ a∈row.artifacts,a.blobKey=.value blobKey := by
  obtain ⟨row,hrow,hnames⟩ := h
  by_cases hkey : row.executionKey=key
  · exact Or.inr ⟨row,hrow,hkey,hnames⟩
  · exact Or.inl ⟨row,mem_hardDeleteExecution.mpr ⟨hrow,hkey⟩,hnames⟩

end Naming

/-- What a purge is in the middle of: the blobs it listed for its key, and
those whose rows it dropped and that it has not removed. -/
structure PurgeWatch where
  /-- The blobs listed for the key. -/
  sized : List BlobKey
  /-- Those without rows, not removed yet. -/
  pending : List BlobKey

/-- No purge under way. -/
def PurgeWatch.none : PurgeWatch := ⟨[],[]⟩

/-- Watch the calls of a purge. -/
def watchPurge {Command : Type} : (call : Call Command) → Except PyExc call.Ret → PurgeWatch → PurgeWatch
  | .store (.findAll _),.ok executions,watch =>
    { watch with sized := (blobSizes executions).map (·.1) }
  | .store (.softPurgeExecution _),.ok _,watch =>
    { watch with pending := watch.pending ++ watch.sized }
  | .store (.hardDeleteExecution _),.ok _,watch =>
    { watch with pending := watch.pending ++ watch.sized }
  | .blobRemove blobKey,.ok _,watch =>
    { watch with pending := watch.pending.filter fun key => decide (key≠blobKey) }
  | _,_,watch => watch

/-- What a task owes: a heal has removed what it is past, and a purge has
listed what it is to remove. -/
def Owes (w : World) (watch : PurgeWatch) : Task → Prop
  | .healing loaded todo => ∀ row∈w.db.executions,row.executionId=loaded.executionId →
      ∀ a∈row.artifacts,∀ key,a.blobKey=.value key →
        (∃ artifact∈todo,artifact.blobKey=key) ∨ w.blobs.get key=none
  | .sized _ executions => watch.sized=(blobSizes executions).map (·.1)
  | _ => True

/-- Every blob is named by a row or pending in a purge. -/
structure Accounted (φ : Phase) (s : World × PurgeWatch) : Prop where
  /-- A blob that is there is named by a row or pending. -/
  named : ∀ key content,s.1.blobs.get key=some content → Named s.1.db key ∨ key∈s.2.pending
  /-- What the task owes is listed. -/
  owes : Owes s.1 s.2 φ.task

section Steps
variable {Command : Type} {locks : LockMode} {thread : ThreadId} {scope : Scope}
  {fingerprint : Bytes → Digest}

/-- A hit's blobs are all still to remove when a heal begins. -/
theorem owes_healing {w : World} {watch : PurgeWatch} {hit : Hit}
    (hrow : ∃ row∈w.db.executions,IsHitRow hit.key hit.loaded row) :
    Owes w watch (.healing hit.loaded hit.loaded.artifacts) := by
  obtain ⟨row,hmem,hrow⟩ := hrow
  intro r hr hid a ha key hkey
  rw [w.db.row_unique hr hmem (hid.trans hrow.id.symm),hrow.artifacts] at ha
  obtain ⟨artifact,hartifact,rfl⟩ := List.mem_map.mp ha
  exact Or.inl ⟨artifact,hartifact,by simpa [artifactRow] using hkey⟩

/-- Where the rows name what they named and no blob is new, every blob stays
accounted for. -/
theorem Accounted.mono {φ φ' : Phase} {w w' : World} {watch : PurgeWatch}
    (h : Accounted φ (w,watch)) (hnamed : ∀ key,Named w.db key → Named w'.db key)
    (hblobs : w'.blobs=w.blobs) (howes : Owes w' watch φ'.task) : Accounted φ' (w',watch) := by
  refine ⟨fun key content hget => ?_,howes⟩
  simp only [hblobs] at hget
  exact (h.named key content hget).imp (hnamed key) id

/-- An error leaves every blob accounted for: a back-fill never turns into a
heal, which would remove rows whose blobs it does not know. -/
theorem Accounted.raise {φ : Phase} {w w' : World} {watch : PurgeWatch} {call : Call Command}
    {e : PyExc} (h : Accounted φ (w,watch)) (hsound : CallerSound fingerprint φ w)
    (hescapes : Escapes φ.task call e)
    (hans : Answers locks blobFaults thread call w (.error e) w') :
    Accounted { φ with task := φ.task.raised e } (w',watch) := by
  rw [answers_error hans]
  refine h.mono (fun _ hn => hn) rfl ?_
  have hfill : ∀ hit,e.isCorruption=false →
      Owes w watch (if e.isCorruption=true then .healing hit hit.artifacts else .idle) := by
    intro hit he
    simp [he,Owes]
  obtain ⟨held,task,ran⟩ := φ
  have htask := hsound.2
  cases task with
  | hydrating hit todo =>
    simp only [Task.raised]
    split
    · exact owes_healing htask.1
    · trivial
  | refetched hit key fresh =>
    simp only [Task.raised]
    split
    · exact owes_healing htask.1
    · trivial
  | filling hit target todo =>
    exact hfill hit.loaded (fill_not_corrupt (fun _ _ hf => hf) hsound.1.wellFormed
      (Or.inl ⟨_,_,_,rfl⟩) hescapes hans)
  | fillMarking hit target document todo =>
    exact hfill hit.loaded (fill_not_corrupt (fun _ _ hf => hf) hsound.1.wellFormed
      (Or.inr (Or.inl ⟨_,_,_,_,rfl⟩)) hescapes hans)
  | fillFailing hit target document todo =>
    exact hfill hit.loaded (fill_not_corrupt (fun _ _ hf => hf) hsound.1.wellFormed
      (Or.inr (Or.inr ⟨_,_,_,_,rfl⟩)) hescapes hans)
  | _ => trivial

/-- A put of a document that a row names keeps every blob accounted for. -/
theorem Accounted.put {φ φ' : Phase} {w : World} {watch : PurgeWatch} {blobKey : BlobKey}
    {content : Bytes} (h : Accounted φ (w,watch)) (hnamed : Named w.db blobKey)
    (howes : Owes { w with blobs := w.blobs.put blobKey content } watch φ'.task) :
    Accounted φ' ({ w with blobs := w.blobs.put blobKey content },watch) := by
  refine ⟨fun key bytes hget => ?_,howes⟩
  simp only [BlobStore.get_put] at hget
  split at hget
  next heq => exact Or.inl (heq ▸ hnamed)
  next => exact h.named key bytes hget

/-- A document of a recording is named by its run's row. -/
theorem named_of_recording {w : World} {execution : MlExecution} {result : ClientRunResult}
    {done todo : List Artifact} {document : Artifact}
    (h : Recording fingerprint w execution result (done ++ [document]) todo) :
    Named w.db document.blobKey := by
  obtain ⟨_,_,row,hmem,hrow⟩ := h
  have hlast : ∀ (documents : List Artifact) (rows : List ArtifactRow),
      List.Forall₂ IsRowOf documents rows → document∈documents →
      ∃ a∈rows,a.blobKey=.value document.blobKey := by
    intro documents rows hall
    induction hall with
    | nil => simp
    | cons hd _ ih =>
      intro hin
      rcases List.mem_cons.mp hin with rfl | hin
      · exact ⟨_,List.mem_cons_self,hd.2.2⟩
      · obtain ⟨a,ha,hkey⟩ := ih hin
        exact ⟨a,List.mem_cons_of_mem _ ha,hkey⟩
  exact ⟨row,hmem,hlast _ _ hrow.artifacts (by simp)⟩

/-- A run in progress names nothing. -/
theorem Running.names_nothing {w : World} {execution : MlExecution} (h : Running w execution) :
    ∀ row∈w.db.executions,row.executionId=execution.executionId → row.artifacts=[] := by
  obtain ⟨_,row,hmem,hrow⟩ := h
  intro r hr hid
  rw [w.db.row_unique hr hmem (hid.trans hrow.id.symm)]
  exact List.forall₂_nil_left_iff.mp hrow.artifacts

/-- A repair owes nothing. -/
theorem owes_nextRun (w : World) (watch : PurgeWatch) (runs : List UnpersistedRun) :
    Owes w watch (Task.nextRun runs) := by
  cases runs <;> trivial

/-- A repair owes nothing within a run. -/
theorem owes_reconciled (w : World) (watch : PurgeWatch) (run : UnpersistedRun)
    (todo : List BlobKey) (complete : Bool) (rest : List UnpersistedRun) :
    Owes w watch (Task.reconciled run todo complete rest) := by
  unfold Task.reconciled
  split
  · exact owes_nextRun w watch rest
  · trivial

/-- What a purge listed covers what its key's rows name. -/
theorem sized_covers {w : World} {watch : PurgeWatch} {key : ExecutionKey}
    {executions : List MlExecution} {blobKey : BlobKey}
    (htask : TaskSound fingerprint w (.sized key executions))
    (howes : Owes w watch (.sized key executions)) : ∀ row∈w.db.executions,row.executionKey=key →
      ∀ a∈row.artifacts,a.blobKey=.value blobKey → blobKey∈watch.sized := by
  intro row hrow hkey a ha hakey
  obtain ⟨size,hsize,hk⟩ := htask row hrow hkey a ha
  rw [howes]
  refine List.mem_map.mpr ⟨size,hsize,?_⟩
  rw [hakey] at hk
  exact (Column.value.inj hk).symm

/-- An error is not watched. -/
theorem watchPurge_error {call : Call Command} {e : PyExc} (watch : PurgeWatch) :
    watchPurge call (.error e) watch=watch := by
  cases call with
  | store call => cases call <;> rfl
  | _ => rfl

/-- A quiet call is not watched. -/
theorem watchPurge_quiet {call : Call Command} {a : call.Ret} (h : isQuiet call=true)
    (watch : PurgeWatch) : watchPurge call (.ok a) watch=watch := by
  cases call with
  | store call => cases call <;> first | rfl | exact nomatch h
  | _ => first | rfl | exact nomatch h

/-- A call without effect on documents keeps every blob accounted for. -/
theorem Accounted.sameStore {φ : Phase} {w w' : World} {watch : PurgeWatch}
    (h : Accounted φ (w,watch)) (hsame : SameStore w w') : Accounted φ (w',watch) := by
  refine h.mono (fun key hn => hsame.exists_row (fun _ _ hp => hp) hn) hsame.blobs ?_
  obtain ⟨held,task,ran⟩ := φ
  have howes := h.owes
  cases task with
  | healing loaded todo =>
    refine hsame.forall_row (fun _ _ hp => hp) fun row hrow hid a ha key hkey => ?_
    rw [hsame.blobs]
    exact howes row hrow hid a ha key hkey
  | sized key executions => exact howes
  | _ => trivial

/-- Releasing a lock owes nothing new. -/
theorem owes_released {w : World} {watch : PurgeWatch} {task : Task} (h : Owes w watch task) :
    Owes w watch task.released := by
  cases task with
  | healing loaded todo => exact h
  | filling hit target todo => cases todo <;> trivial
  | _ => trivial

/-- A removed blob is no longer pending, and the others stay accounted for. -/
theorem Accounted.removed {φ : Phase} {w : World} {watch : PurgeWatch} (h : Accounted φ (w,watch)) (blobKey : BlobKey) :
    ∀ key content,(w.blobs.remove blobKey).get key=some content →
      Named w.db key ∨ key∈watch.pending.filter fun key => decide (key≠blobKey) := by
  intro key content hget
  rw [BlobStore.get_remove] at hget
  split at hget
  next => cases hget
  next hne => exact (h.named key content hget).imp id fun hp => List.mem_filter.mpr ⟨hp,by simpa using hne⟩

/-- A heal that removes a blob is past it. -/
theorem Accounted.healBlob {held : List ExecutionKey} {ran : Bool} {w : World} {watch : PurgeWatch}
    {loaded : MlExecution} {artifact : Artifact} {todo : List Artifact}
    (h : Accounted ⟨held,.healing loaded (artifact::todo),ran⟩ (w,watch)) :
    Accounted ⟨held,.healing loaded todo,ran⟩ ({ w with blobs := w.blobs.remove artifact.blobKey },
      { watch with pending := watch.pending.filter fun key => decide (key≠artifact.blobKey) }) := by
  refine ⟨h.removed _,fun row hrow hid a ha key hkey => ?_⟩
  simp only [BlobStore.get_remove]
  by_cases heq : key=artifact.blobKey
  · exact Or.inr (if_pos heq)
  · rw [if_neg heq]
    rcases h.owes row hrow hid a ha key hkey with ⟨b,hb,hbkey⟩ | hnone
    · rcases List.mem_cons.mp hb with rfl | hb
      · exact absurd hbkey.symm heq
      · exact Or.inl ⟨b,hb,hbkey⟩
    · exact Or.inr hnone

/-- A heal has removed what its row names before it removes the row. -/
theorem Accounted.healRow {held : List ExecutionKey} {ran : Bool} {w : World} {watch : PurgeWatch}
    {loaded : MlExecution} (h : Accounted ⟨held,.healing loaded [],ran⟩ (w,watch)) :
    Accounted ⟨held,.idle,ran⟩ ({ w with db := removeExecution loaded.executionId w.db },watch) := by
  refine ⟨fun key content hget => ?_,trivial⟩
  rcases h.named key content hget with hn | hp
  · rcases hn.removeExecution with hn | ⟨row,hrow,hid,a,ha,hkey⟩
    · exact Or.inl hn
    · rcases h.owes row hrow hid a ha key hkey with ⟨b,hb,_⟩ | hnone
      · exact (List.not_mem_nil hb).elim
      · cases hnone.symm.trans hget
  · exact Or.inr hp

/-- An interrupted run, which names nothing, takes no name along. -/
theorem Accounted.discard {held : List ExecutionKey} {ran : Bool} {w : World} {watch : PurgeWatch}
    {execution : MlExecution} (hrunning : Running w execution)
    (h : Accounted ⟨held,.interrupted execution,ran⟩ (w,watch)) :
    Accounted ⟨held,.idle,ran⟩ ({ w with db := removeExecution execution.executionId w.db },watch) := by
  refine h.mono (fun key hn => ?_) rfl trivial
  rcases hn.removeExecution with hn | ⟨row,hrow,hid,a,ha,_⟩
  · exact hn
  · rw [Running.names_nothing hrunning row hrow hid] at ha
    exact (List.not_mem_nil ha).elim

/-- What the rows of a purged key named is pending. -/
theorem Accounted.drop {held : List ExecutionKey} {ran : Bool} {w : World} {watch : PurgeWatch} {key : ExecutionKey}
    {executions : List MlExecution} {keys : List BlobKey} {db : Db}
    (h : Accounted ⟨held,.sized key executions,ran⟩ (w,watch)) (htask : TaskSound fingerprint w (.sized key executions))
    (hdrop : ∀ {blobKey},Named w.db blobKey → Named db blobKey ∨
      ∃ row∈w.db.executions,row.executionKey=key ∧ ∃ a∈row.artifacts,a.blobKey=.value blobKey) :
    Accounted ⟨held,.dropping key keys,ran⟩
      ({ w with db := db },{ watch with pending := watch.pending ++ watch.sized }) := by
  refine ⟨fun blobKey content hget => ?_,trivial⟩
  rcases h.named blobKey content hget with hn | hp
  · rcases hdrop hn with hn | ⟨row,hrow,hkey,a,ha,hakey⟩
    · exact Or.inl hn
    · exact Or.inr (List.mem_append_right _ (sized_covers htask h.owes row hrow hkey a ha hakey))
  · exact Or.inr (List.mem_append_left _ hp)

/-- Marked documents name what they named. -/
theorem Accounted.mark {φ φ' : Phase} {w : World} {watch : PurgeWatch} {executionId : ExecutionId} {blobKey : BlobKey}
    {mark : ArtifactRow → ArtifactRow} (h : Accounted φ (w,watch)) (hmark : KeepsDocument mark)
    (howes : Owes { w with db := w.db.updateWhere (hasId executionId) (markColumns blobKey mark) } watch φ'.task) :
    Accounted φ' ({ w with db := w.db.updateWhere (hasId executionId) (markColumns blobKey mark) },watch) :=
  h.mono (fun _ hn => hn.mark hmark) rfl howes

/-- An outcome names what the run named. -/
theorem Accounted.recordOutcome {φ φ' : Phase} {w : World} {watch : PurgeWatch} {execution : MlExecution} {db : Db}
    (h : Accounted φ (w,watch)) (hrecord : recordOutcome execution w.db=.ok db)
    (howes : Owes { w with db := db } watch φ'.task) : Accounted φ' ({ w with db := db },watch) := by
  obtain ⟨_,_,_,usage,_,rfl⟩ := recordOutcome_ok hrecord
  exact h.mono (fun _ hn => hn.update fun a ha => ⟨a,ha,rfl⟩) rfl howes

/-- Attached input rows take no name away. -/
theorem Accounted.attach {φ φ' : Phase} {w : World} {watch : PurgeWatch} {key : ExecutionKey}
    {documents : List Artifact} {db : Db} (h : Accounted φ (w,watch))
    (hadd : addInputArtifacts key documents w.db=.ok db) (howes : Owes { w with db := db } watch φ'.task) :
    Accounted φ' ({ w with db := db },watch) := by
  refine h.mono (fun blobKey hn => ?_) rfl howes
  rcases addInputArtifacts_ok hadd with rfl | ⟨row,_,_,rfl⟩
  · exact hn
  · exact hn.withArtifacts

/-- Every turn keeps every blob accounted for, where only blob calls fault. -/
theorem keeps_accounted : Keeps (Turn scope fingerprint)
    (observed (Answers locks (blobFaults : Faults Command) thread) watchPurge)
    fun φ s => CallerSound fingerprint φ s.1 ∧ Accounted φ s := by
  refine Keeps.and (keeps_callerSound.observed watchPurge) ?_
  rintro φ call r φ' ⟨w,watch⟩ ⟨w',watch'⟩ hturn ⟨hans,hwatch⟩ ⟨hs,htask⟩ ⟨hs',htask'⟩ h
  simp only at hans hwatch hs htask hs' htask'
  subst hwatch
  cases hturn with
  | quiet hq a =>
    rw [watchPurge_quiet hq]
    exact h.sameStore (sameStore_of_isQuiet hq hans)
  | raise hescapes =>
    rw [watchPurge_error]
    exact h.raise ⟨hs,htask⟩ hescapes hans
  | releaseRaised hrelease =>
    cases hans with
    | fault hcall _ => exact absurd hrelease (by simp [hcall])
    | reject => exact nomatch hrelease
    | runClient => exact nomatch hrelease
  | gate hgate a =>
    rcases hgate with rfl | rfl | ⟨key,rfl⟩
    · cases hans
      exact h
    · cases hans
      exact h
    · obtain ⟨rfl,_⟩ := answers_findAll hans
      exact ⟨h.named,trivial⟩
  | acquire =>
    cases hans
    exact h.mono (fun _ hn => hn) rfl h.owes
  | release =>
    cases hans
    exact h.mono (fun _ hn => hn) rfl (owes_released h.owes)
  | runUnrecorded | beginDocuments =>
    cases hans
    exact h.mono (fun _ hn => hn) rfl trivial
  -- Serving.
  | load | refetch =>
    obtain ⟨rfl,_⟩ := answers_findCurrent hans
    exact h.mono (fun _ hn => hn) rfl trivial
  | hydrate | find | lose =>
    obtain ⟨rfl,_⟩ := answers_blobGet hans
    exact h.mono (fun _ hn => hn) rfl trivial
  | miss =>
    obtain ⟨rfl,_⟩ := answers_blobGet hans
    exact h.mono (fun _ hn => hn) rfl (owes_healing htask.1)
  | healBlob =>
    cases hans
    exact h.healBlob
  | healRow =>
    obtain rfl := answers_removeExecution hans
    exact h.healRow
  | attach hkey hdocuments =>
    obtain ⟨now,db,ht,rfl⟩ := answers_store_ok hans
    exact h.attach (commit_ok.mp ht) trivial
  | fillPut =>
    cases hans
    obtain ⟨row,hmem,hrow⟩ := htask.2.1
    obtain ⟨a,ha,hkey⟩ := hrow.named _ List.mem_cons_self
    exact h.put ⟨row,hmem,a,ha,hkey⟩ trivial
  | fillPutFailed | putFailed | markFailed =>
    rw [answers_error hans,watchPurge_error]
    exact h.mono (fun _ hn => hn) rfl trivial
  | fillMark r hr =>
    cases r with
    | error e =>
      rw [answers_error hans]
      exact h.mono (fun _ hn => hn) rfl trivial
    | ok u =>
      obtain ⟨now,rfl,_⟩ := answers_markStored hs hans
      exact h.mark (keepsDocument_storedMark now) trivial
  | fillFail =>
    obtain ⟨rfl,_⟩ := answers_markFailed hs hans
    exact h.mark (keepsDocument_failedMark _) trivial
  -- Recording.
  | mint hscope executionId =>
    cases hans with
    | newExecutionId id hnew => exact h.mono (fun _ hn => hn) rfl trivial
  | save hkey hprogress =>
    obtain ⟨now,db,ht,rfl⟩ := answers_store_ok hans
    obtain ⟨id,_,_,hrows⟩ := save_inProgress hprogress (commit_ok.mp ht)
    refine h.mono (fun _ hn => hn.superset fun row hrow => ?_) rfl trivial
    simp only [hrows]
    exact List.mem_append_left _ hrow
  | answer | interrupt | clientRaise =>
    cases hans <;> exact h.mono (fun _ hn => hn) rfl trivial
  | discard =>
    obtain rfl := answers_removeExecution hans
    exact h.discard htask
  | abandon | outcome =>
    obtain ⟨now,db,ht,rfl⟩ := answers_store_ok hans
    exact h.recordOutcome (commit_ok.mp ht) trivial
  | persist =>
    obtain ⟨now,db,ht,rfl⟩ := answers_store_ok hans
    obtain ⟨_,rfl⟩ := persistArtifact_ok (commit_ok.mp ht)
    exact h.mono (fun _ hn => hn.withArtifacts) rfl trivial
  | put =>
    cases hans
    exact h.put (named_of_recording htask) trivial
  | mark =>
    obtain ⟨now,rfl,_⟩ := answers_markStored hs hans
    exact h.mark (keepsDocument_storedMark now) trivial
  | fail =>
    obtain ⟨rfl,_⟩ := answers_markFailed hs hans
    exact h.mark (keepsDocument_failedMark _) trivial
  | finalize =>
    obtain ⟨now,db,ht,rfl⟩ := answers_store_ok hans
    exact h.mono (fun _ hn => hn.finalize (commit_ok.mp ht)) rfl trivial
  -- Purging.
  | size hscope hkey executions =>
    obtain ⟨rfl,_⟩ := answers_findAll hans
    exact ⟨h.named,rfl⟩
  | softDrop =>
    obtain rfl := answers_softPurge hans
    exact h.drop htask Named.softPurge
  | hardDrop =>
    obtain rfl := answers_hardDelete hans
    exact h.drop htask Named.hardDelete
  | dropBlob =>
    cases hans
    exact ⟨h.removed _,trivial⟩
  -- Repairing.
  | list hscope runs =>
    rw [answers_read rfl hans]
    exact h.mono (fun _ hn => hn) rfl (owes_nextRun _ _ _)
  | repairMark =>
    obtain ⟨now,rfl,_⟩ := answers_markStored hs hans
    exact h.mark (keepsDocument_storedMark now) (owes_reconciled _ _ _ _ _ _)
  | repairFail =>
    obtain ⟨rfl,_⟩ := answers_markFailed hs hans
    exact h.mark (keepsDocument_failedMark _) (owes_reconciled _ _ _ _ _ _)
  | repairFinalize =>
    obtain ⟨now,db,ht,rfl⟩ := answers_store_ok hans
    exact h.mono (fun _ hn => hn.finalize (commit_ok.mp ht)) rfl (owes_nextRun _ _ _)

end Steps

section Histories
variable {Command : Type} {fingerprint : Bytes → Digest}

/-- The histories in which no operation is stopped, by its death or by a blob
removal that raises, while a blob whose rows one of its purges dropped is
still there. -/
abbrev PurgedReachable (Command : Type) (fingerprint : Bytes → Digest) : World × PurgeWatch → Prop :=
  History (observed (Answers .exclusive (blobFaults : Faults Command) 0) watchPurge)
    (fun p => ∃ op : Operation Command,p=program fingerprint op)
    (fun _ s => ∀ key∈s.2.pending,s.1.blobs.get key=none)
    (fun s => (World.released s.1,PurgeWatch.none)) (World.empty,PurgeWatch.none)

/-- An operation starts with no purge under way. -/
theorem PurgedReachable.watch {s : World × PurgeWatch} (h : PurgedReachable Command fingerprint s) :
    s.2=PurgeWatch.none := by
  cases h with
  | start => rfl
  | run => rfl

/-- No orphan blobs: wherever such a history leads, every blob is named by the
blob key of some artifact row. -/
theorem blobs_named {s : World × PurgeWatch} (h : PurgedReachable Command fingerprint s) :
    ∀ key content,s.1.blobs.get key=some content → Named s.1.db key := by
  have hfollows : ∀ p,(∃ op : Operation Command,p=program fingerprint op) →
      Conforms Scope.full fingerprint Phase.start EndsSettled p := by
    rintro p ⟨op,rfl⟩
    exact conforms_program rfl rfl rfl op fun _ => rfl
  have hinit : CallerSound fingerprint Phase.start World.empty ∧
      Accounted Phase.start (World.empty,PurgeWatch.none) := by
    refine ⟨⟨Sound.empty fingerprint,trivial⟩,fun key content hget => ?_,trivial⟩
    simp [World.empty] at hget
  have hstops : ∀ (φ : Phase) (s : World × PurgeWatch),
      CallerSound fingerprint φ s.1 ∧ Accounted φ s → (∀ key∈s.2.pending,s.1.blobs.get key=none) →
      CallerSound fingerprint Phase.start (World.released s.1) ∧
        Accounted Phase.start (World.released s.1,PurgeWatch.none) := by
    rintro φ ⟨w,watch⟩ ⟨hsound,hacc⟩ hgone
    refine ⟨(SameStore.held w []).callerSound ⟨hsound.1,trivial⟩,fun key content hget => ?_,trivial⟩
    refine Or.inl ((hacc.named key content hget).resolve_right fun hp => ?_)
    cases (hgone key hp).symm.trans hget
  have hj := keeps_accounted.history hfollows hinit (fun φ _ s hj _ => hstops φ s hj) h
  intro key content hget
  refine (hj.2.named key content hget).resolve_right fun hp => ?_
  rw [h.watch] at hp
  exact List.not_mem_nil hp

instance (db : Db) (key : BlobKey) : Decidable (Named db key) := by
  unfold Named
  infer_instance

/-- The run of a script of answers, watched. -/
def watched (n fresh : ℕ) (op : Operation SmallestCommand) (w : World) :
    ServiceM SmallestCommand Unit × (World × PurgeWatch) :=
  drive ((answers n fresh).map fun handler => handler.watched watchPurge) (program positional op)
    (w,PurgeWatch.none)

/-- A watched run is a run. -/
theorem watched_reach (n fresh : ℕ) (op : Operation SmallestCommand) (w : World) :
    Reach (observed (Answers .exclusive blobFaults 0) watchPurge) (program positional op)
      (w,PurgeWatch.none) (watched n fresh op w).1 (watched n fresh op w).2 := by
  refine drive_reach _ (fun handler hmem => ?_) _ _
  obtain ⟨plain,hplain,rfl⟩ := List.mem_map.mp hmem
  exact (answers_respect n fresh plain hplain).watched watchPurge

/-- The store after one recording. -/
def recorded : World := World.released (watched 40 7 (.execute smallestService ⟨.cache,.cache⟩) World.empty).2.1

/-- The store in which a soft purge of that recording dies after its first `n` calls. -/
def purged (n : ℕ) : World := World.released (watched n 8 (.purgeByKey ⟨0⟩ false) recorded).2.1

/-- The store in which the purged call is recorded again. -/
def recordedAgain : World :=
  World.released (watched 40 9 (.execute smallestService ⟨.cache,.cache⟩) (purged 40)).2.1

/-- Where a purge runs to its end before the call is recorded again, the new
recording's blob is there and every blob is named. -/
theorem blobs_named_recordedAgain :
    recordedAgain.blobs.get (.forExecution ⟨9⟩ (positional [111]))=some [111] ∧
      ∀ key content,recordedAgain.blobs.get key=some content → Named recordedAgain.db key := by
  have hrecord : PurgedReachable SmallestCommand positional (recorded,PurgeWatch.none) :=
    .run .start ⟨_,rfl⟩ (watched_reach 40 7 (.execute smallestService ⟨.cache,.cache⟩) World.empty)
      (by decide +kernel)
  have hpurge : PurgedReachable SmallestCommand positional (purged 40,PurgeWatch.none) :=
    .run hrecord ⟨_,rfl⟩ (watched_reach 40 8 (.purgeByKey ⟨0⟩ false) recorded) (by decide +kernel)
  have hagain : PurgedReachable SmallestCommand positional (recordedAgain,PurgeWatch.none) :=
    .run hpurge ⟨_,rfl⟩ (watched_reach 40 9 (.execute smallestService ⟨.cache,.cache⟩) (purged 40))
      (by decide +kernel)
  have hnamed := blobs_named hagain
  exact ⟨by decide +kernel,hnamed⟩

/-- A purge that dies once its rows are dropped leaves blobs that no row names. -/
theorem blobs_named_fails : ¬ ∀ w,Reachable (blobFaults : Faults SmallestCommand) positional w →
    ∀ key content,w.blobs.get key=some content → Named w.db key := by
  intro h
  have hrecord : Reachable (blobFaults : Faults SmallestCommand) positional recorded :=
    .run .start ⟨_,rfl⟩ (Reach.of_observed
      (watched_reach 40 7 (.execute smallestService ⟨.cache,.cache⟩) World.empty)) trivial
  have hpurge : Reachable (blobFaults : Faults SmallestCommand) positional (purged 4) :=
    .run hrecord ⟨_,rfl⟩ (Reach.of_observed
      (watched_reach 4 8 (.purgeByKey ⟨0⟩ false) recorded)) trivial
  have hblob : (purged 4).blobs.get (.forExecution ⟨7⟩ (positional [111]))=some [111] := by
    decide +kernel
  have hrow : ¬ Named (purged 4).db (.forExecution ⟨7⟩ (positional [111])) := by decide +kernel
  exact hrow (h _ hpurge _ _ hblob)

end Histories

end GenericMlCache.BlobOwners
