import GenericMlCache.StoreSoundness

/-!
# Sizes of documents

Every artifact row of a reachable store was inserted for a document of its
execution: its blob key is derived from a content, and its size is that
content's.
-/

namespace GenericMlCache.DocumentSizes

open CallProgram CallAutomaton PythonText ExecutionModel SqliteStore ExecutionRepository ExecutionQueries
  RepositoryCalls ServicePorts StorePurge CachedExecution ServiceAutomaton ServiceConformance ServiceOperations
  StoreSoundness

/-- The row is of a content: its blob key is derived from it, and its size is its length. -/
def SizedRow (fingerprint : Bytes → Digest) (id : ExecutionId) (a : ArtifactRow) : Prop :=
  ∃ content : Bytes,a.blobKey=.value (.forExecution id (fingerprint content)) ∧ a.sizeBytes=.bytes content.length

/-- Every artifact row is of a content. -/
def SizedRows (fingerprint : Bytes → Digest) (db : Db) : Prop :=
  ∀ row∈db.executions,∀ a∈row.artifacts,SizedRow fingerprint row.executionId a

/-- The call inserts artifact rows. -/
def inserts : StoreCall → Bool
  | .save _ | .persistArtifact _ _ | .addInputArtifacts _ _ => true
  | _ => false

section Rows
variable {fingerprint : Bytes → Digest} {db db' : Db}

/-- Fewer rows. -/
theorem SizedRows.subset (h : SizedRows fingerprint db) (hsub : ∀ row∈db'.executions,row∈db.executions) :
    SizedRows fingerprint db' := fun row hrow => h row (hsub row hrow)

/-- An update whose artifact rows are of a content. -/
theorem SizedRows.update (h : SizedRows fingerprint db) {p : ExecutionRow → Bool}
    {f : MutableColumns → MutableColumns}
    (hf : ∀ row∈db.executions,p row=true → ∀ a∈(f row.toMutableColumns).artifacts,
      SizedRow fingerprint row.executionId a) : SizedRows fingerprint (db.updateWhere p f) := by
  intro row' hrow'
  obtain ⟨row,hrow,rfl⟩ := Db.mem_updateWhere.mp hrow'
  by_cases hp : p row=true
  · rw [if_pos hp]
    exact hf row hrow hp
  · rw [if_neg hp]
    exact h row hrow

/-- An update that keeps the artifact rows. -/
theorem SizedRows.keep (h : SizedRows fingerprint db) {p : ExecutionRow → Bool}
    {f : MutableColumns → MutableColumns} (hf : ∀ c,(f c).artifacts=c.artifacts) :
    SizedRows fingerprint (db.updateWhere p f) := by
  refine h.update fun row hrow _ a ha => ?_
  rw [hf] at ha
  exact h row hrow a ha

/-- A mark keeps what its row is of. -/
theorem SizedRows.mark (h : SizedRows fingerprint db) {id : ExecutionId} {blobKey : BlobKey}
    {mark : ArtifactRow → ArtifactRow}
    (hmark : ∀ a,(mark a).blobKey=a.blobKey ∧ (mark a).sizeBytes=a.sizeBytes) :
    SizedRows fingerprint (db.updateWhere (hasId id) (markColumns blobKey mark)) := by
  refine h.update fun row hrow _ a ha => ?_
  obtain ⟨b,hb,rfl⟩ := List.mem_map.mp ha
  obtain ⟨content,hkey,hsize⟩ := h row hrow b hb
  split
  · obtain ⟨hkeep,hkeepSize⟩ := hmark b
    exact ⟨content,hkeep.trans hkey,hkeepSize.trans hsize⟩
  · exact ⟨content,hkey,hsize⟩

/-- Rows of an execution's documents are of their contents. -/
theorem SizedRows.withArtifacts (h : SizedRows fingerprint db) {id : ExecutionId} {documents : List Artifact}
    (hdocs : ∀ a∈documents,IsDocument fingerprint id a) : SizedRows fingerprint
      (db.updateWhere (hasId id) (ExecutionRepository.withArtifacts (documents.map artifactRow))) := by
  refine h.update fun row hrow hid a ha => ?_
  rcases List.mem_append.mp ha with ha | ha
  · exact h row hrow a ha
  · obtain ⟨document,hdoc,rfl⟩ := List.mem_map.mp ha
    obtain ⟨artifactType,name,content,rfl⟩ := hdocs document hdoc
    have hrowId : row.executionId=id := by simpa using hid
    exact ⟨content,by rw [hrowId]; rfl,rfl⟩

/-- A transaction that inserts no artifact row keeps every one's size. -/
theorem transact_sized {now : Timestamp} {call : StoreCall} {a : call.Ret} (hcall : inserts call=false)
    (h : SizedRows fingerprint db) (ht : transact now db call=.ok (a,db')) : SizedRows fingerprint db' := by
  cases call with
  | save | persistArtifact | addInputArtifacts => exact nomatch hcall
  | findCurrent | findAll | runsAwaitingPersistence | totalStoredBytes | currentExecutionsWithSizes
  | executionsByTag | allExecutionKeys =>
    rw [(reading_ok.mp ht).2]
    exact h
  | recordOutcome execution =>
    obtain ⟨_,_,_,_,_,rfl⟩ := recordOutcome_ok (commit_ok.mp ht)
    exact h.keep fun _ => rfl
  | markArtifactsStored =>
    rw [(markArtifacts_ok (commit_ok.mp ht)).2]
    exact h.mark fun _ => ⟨rfl,rfl⟩
  | markArtifactsFailed =>
    obtain ⟨_,_,hm⟩ := ok_of_bind (commit_ok.mp ht)
    rw [(markArtifacts_ok hm).2]
    exact h.mark fun _ => ⟨rfl,rfl⟩
  | finalizeOutputPersisted =>
    obtain ⟨row,_,_,_,rfl⟩ := finalizeOutputPersisted_ok (commit_ok.mp ht)
    have hsuperseded : SizedRows fingerprint (supersedePriorCurrent db row.executionKey now) :=
      h.keep fun _ => rfl
    split
    · exact hsuperseded.keep fun _ => rfl
    · exact h.keep fun _ => rfl
  | removeExecution =>
    rw [← Except.ok.inj (commit_ok.mp ht)]
    exact h.subset fun row hrow => (mem_removeExecution.mp hrow).1
  | addTags =>
    rcases addTags_ok (commit_ok.mp ht) with rfl | ⟨_,rfl⟩
    · exact h
    · exact h.keep fun _ => rfl
  | softPurgeExecution =>
    rw [← Except.ok.inj (commit_ok.mp ht)]
    exact h.update fun _ _ _ a ha => nomatch ha
  | hardDeleteExecution =>
    rw [← Except.ok.inj (commit_ok.mp ht)]
    exact h.subset fun row hrow => (mem_hardDeleteExecution.mp hrow).1

end Rows

section Steps
variable {Command : Type} {scope : Scope} {fingerprint : Bytes → Digest} {locks : LockMode}
variable {faults : Faults Command} {thread : ThreadId} {w w' : World} {call : Call Command}
variable {r : Except PyExc call.Ret}

/-- A call that inserts no artifact row keeps every one's size. -/
theorem answers_sized (hans : Answers locks faults thread call w r w')
    (hcall : ∀ storeCall,call=.store storeCall → inserts storeCall=false) (h : SizedRows fingerprint w.db) :
    SizedRows fingerprint w'.db := by
  cases hans with
  | commit now ht => exact transact_sized (hcall _ rfl) h ht
  | _ => exact h

/-- Every turn keeps every artifact row's size. -/
theorem keeps_sized :
    Keeps (Turn scope fingerprint) (Answers locks faults thread : Sem (Call Command) Call.Ret PyExc World)
      fun φ w => CallerSound fingerprint φ w ∧ SizedRows fingerprint w.db := by
  refine Keeps.and keeps_callerSound ?_
  intro φ call r φ' w w' hturn hans hsound _ h
  obtain ⟨hs,htask⟩ := hsound
  cases hturn with
  | quiet hquiet =>
    refine answers_sized hans ?_ h
    rintro storeCall rfl
    cases storeCall <;> first | rfl | exact nomatch hquiet
  | raise =>
    rw [answers_error hans]
    exact h
  | save hkey hprogress =>
    obtain ⟨now,db,ht,rfl⟩ := answers_store_ok hans
    obtain ⟨id,_,_,hrows⟩ := save_inProgress hprogress (commit_ok.mp ht)
    intro row hrow a ha
    have hmem : row∈db.executions := hrow
    rw [hrows] at hmem
    rcases List.mem_append.mp hmem with hold | hnew
    · exact h row hold a ha
    · rw [List.mem_singleton.mp hnew] at ha
      exact nomatch ha
  | @persist held ran execution result done document todo allStored =>
    obtain ⟨now,db,ht,rfl⟩ := answers_store_ok hans
    obtain ⟨_,rfl⟩ := persistArtifact_ok (commit_ok.mp ht)
    have hdocs : ∀ a∈[document],IsDocument fingerprint execution.executionId a := by
      intro a ha
      rw [List.mem_singleton.mp ha]
      exact isDocument_of_isRecordingOf htask.2.1 document (by simp)
    exact h.withArtifacts hdocs
  | attach hkey hdocuments =>
    obtain ⟨now,db,ht,rfl⟩ := answers_store_ok hans
    rcases addInputArtifacts_fresh hs.oneCurrent htask.2.2 (commit_ok.mp ht) with ⟨rfl,_⟩ | rfl
    · exact h
    · exact h.withArtifacts fun a ha => (hdocuments a ha).2
  | gate hgate =>
    refine answers_sized hans ?_ h
    rintro storeCall heq
    rcases hgate with rfl | rfl | ⟨key,rfl⟩ <;> cases heq
    rfl
  | releaseRaised hrelease =>
    rw [answers_error hans]
    exact h
  | _ => exact answers_sized hans (by rintro _ heq; cases heq <;> rfl) h

/-- Every artifact row of a reachable store has its content's size. -/
theorem reachable_sized {w : World} (h : Reachable faults fingerprint w) : SizedRows fingerprint w.db := by
  have hfollows : ∀ p,(∃ op : Operation Command,p=program fingerprint op) →
      Conforms Scope.full fingerprint Phase.start EndsSettled p := by
    rintro p ⟨op,rfl⟩
    exact conforms_program rfl rfl rfl op fun _ => rfl
  have hempty : SizedRows fingerprint World.empty.db := fun _ hrow => nomatch hrow
  have hstart : CallerSound fingerprint Phase.start w ∧ SizedRows fingerprint w.db := by
    refine keeps_sized.history hfollows ⟨⟨Sound.empty fingerprint,trivial⟩,hempty⟩ ?_ h
    exact fun φ q w' hj _ _ => ⟨(SameStore.held w' []).callerSound ⟨hj.1.1,trivial⟩,hj.2⟩
  exact hstart.2

end Steps

end GenericMlCache.DocumentSizes
