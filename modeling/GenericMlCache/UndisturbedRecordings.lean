import GenericMlCache.AnsweredRuns
import GenericMlCache.StoreSoundness

/-!
# Undisturbed recordings

One caller at a time, no port faults, and a client whose outcome is given. Where
the key has no current row, a recorded run adds one row after all others. A
stored success makes it the key's current row, with every document's blob put;
a result that is not stored, or a client that raised, changes what no key serves.
-/

namespace GenericMlCache.UndisturbedRecordings

open CallProgram CallAutomaton PythonText ExecutionModel SqliteStore ExecutionRepository ExecutionQueries
  RepositoryCalls ServicePorts StorePurge CachedExecution ServiceAutomaton StoreSoundness ExecuteCalls
  UndisturbedRuns AnsweredRuns

section LastRow
variable {db : Db} {old : List ExecutionRow} {row : ExecutionRow} {id : ExecutionId}
  {f : MutableColumns → MutableColumns}

/-- An update by id changes the last row alone. -/
theorem updateWhere_last (h : db.executions=old ++ [row]) (hold : ∀ r∈old,r.executionId≠id)
    (hid : row.executionId=id) : (db.updateWhere (hasId id) f).executions=old ++ [row.update f] := by
  have hother : old.map (fun r => if hasId id r=true then r.update f else r)=old := by
    refine (List.map_congr_left fun r hr => ?_).trans (List.map_id'' (fun _ => rfl) old)
    have hne : hasId id r=false := (hasId_eq_false id r).mpr (hold r hr)
    rw [hne]
    rfl
  have hlast : hasId id row=true := (hasId_iff id row).mpr hid
  show db.executions.map (fun r => if hasId id r=true then r.update f else r)=_
  rw [h,List.map_append,hother,List.map_singleton,if_pos hlast]

/-- The last row is found by its id. -/
theorem findRow_last (h : db.executions=old ++ [row]) (hid : row.executionId=id) : db.findRow id=some row :=
  Db.findRow_eq_some.mpr ⟨by rw [h]; exact List.mem_append_right _ (List.mem_singleton_self row),hid⟩

/-- An update that selects no row changes none. -/
theorem updateWhere_none {p : ExecutionRow → Bool} (h : ∀ r∈db.executions,p r=false) :
    (db.updateWhere p f).executions=db.executions := by
  refine (List.map_congr_left fun r hr => ?_).trans (List.map_id'' (fun _ => rfl) db.executions)
  rw [h r hr]
  rfl

/-- The current rows beside a last row. -/
theorem currentRow_last {db₀ : Db} (h : db.executions=db₀.executions ++ [row]) (key : ExecutionKey) :
    db.currentRow key=if isCurrent key row=true then some row else db₀.currentRow key := by
  unfold Db.currentRow
  rw [h,List.filter_append]
  by_cases hcurrent : isCurrent key row=true
  · rw [if_pos hcurrent,List.filter_cons_of_pos hcurrent,List.filter_nil,List.getLast?_append]
    rfl
  · rw [if_neg hcurrent,List.filter_cons_of_neg hcurrent,List.filter_nil,List.append_nil]

end LastRow

/-- Put every document's blob. -/
def putDocuments (blobs : BlobStore) (documents : List Artifact) : BlobStore :=
  documents.foldl (fun blobs document => blobs.put document.blobKey (document.content.getD [])) blobs

/-- A row is added to the store, and nothing else is lost. -/
structure Added (w₀ : World) (row : ExecutionRow) (documents : List Artifact) (w : World) : Prop where
  /-- The row comes last. -/
  rows : w.db.executions=w₀.db.executions ++ [row]
  /-- Its id is a new one. -/
  fresh : ∀ r∈w₀.db.executions,r.executionId≠row.executionId
  /-- The database is well formed. -/
  wf : WellFormed w.db
  /-- The id was minted. -/
  minted : w.minted=row.executionId::w₀.minted
  /-- The documents' blobs are put. -/
  blobs : w.blobs=putDocuments w₀.blobs documents

/-- The row of a run with some of its documents stored. -/
def IsStoring (execution : MlExecution) (state : ExecutionState) (documents : List Artifact)
    (row : ExecutionRow) : Prop :=
  IsRunRow execution state documents row ∧ ∀ a∈row.artifacts,a.status=.value .stored

section Steps
variable {Command : Type} {locks : LockMode} {thread : ThreadId} {w₀ w : World} {row : ExecutionRow}
  {documents : List Artifact}

/-- A transaction that commits. -/
theorem safe_commit {call : StoreCall} {P : World → Prop}
    (h : ∀ now,∃ a db',transact now w.db call=.ok (a,db') ∧ P { w with db := db' }) :
    Safe (Answers locks noFaults thread) (fun _ => True) (fun r w' => (∃ a,r=.ok a) ∧ P w')
      (store call : ServiceM Command call.Ret) w := by
  refine Safe.perform trivial fun r w' hans => ⟨trivial,?_⟩
  rcases answers_store hans with ⟨now,a,db,ht,rfl,rfl⟩ | ⟨e,rfl,rfl,hf | ⟨now,ht⟩⟩
  · obtain ⟨a',db',ht',hp⟩ := h now
    cases ht.symm.trans ht'
    exact ⟨⟨a,rfl⟩,hp⟩
  · exact hf.elim
  · obtain ⟨a',db',ht',_⟩ := h now
    exact nomatch ht.symm.trans ht'

/-- A changed row is still the one added. -/
theorem Added.update {f : MutableColumns → MutableColumns} {id : ExecutionId} (h : Added w₀ row documents w)
    (hid : row.executionId=id) (hwf : WellFormed (w.db.updateWhere (hasId id) f)) :
    Added w₀ (row.update f) documents { w with db := w.db.updateWhere (hasId id) f } := by
  subst hid
  exact ⟨updateWhere_last h.rows h.fresh rfl,h.fresh,hwf,h.minted,h.blobs⟩

end Steps

/-- A length below 2^63 is bound. -/
theorem bindInteger_length {n : ℕ} (h : n < 2^63) : bindInteger n=.ok () := by
  have hlower : -(2^63 : ℤ) ≤ n := by omega
  have hupper : (n : ℤ) < 2^63 := by omega
  have hbound : sqliteInteger n=true := by
    unfold sqliteInteger
    rw [decide_eq_true hlower,decide_eq_true hupper]
    rfl
  unfold bindInteger
  rw [if_pos hbound]

/-- The row of a document without a name. -/
theorem insertArtifacts_unnamed {fingerprint : Bytes → Digest} {id : ExecutionId} {artifactType : ArtifactType}
    {content : Bytes} {status : ArtifactStatus} (h : content.length < 2^63) :
    insertArtifacts [makeArtifact fingerprint id artifactType none content status]=
      .ok [artifactRow (makeArtifact fingerprint id artifactType none content status)] := by
  have hsize : bindSize (makeArtifact fingerprint id artifactType none content status).sizeBytes=.ok () :=
    bindInteger_length h
  have hbind : ([makeArtifact fingerprint id artifactType none content status].forM fun artifact => do
      bindOptional bindText artifact.name
      bindSize artifact.sizeBytes
      bindOptional bindText artifact.statusDetail)=.ok () := by
    rw [List.forM_eq_forM,List.forM_cons,hsize]
    rfl
  unfold insertArtifacts
  rw [hbind]
  rfl

section Recording
variable {Command : Type} {locks : LockMode} {thread : ThreadId} {w₀ w : World}
  {service : CachedMlExecutionService Command} {fingerprint : Bytes → Digest} {command : Command}
  {execution : MlExecution} {result : ClientRunResult} {identity : CallIdentity}

/-- The row in progress is saved. -/
theorem safe_save (hwf : WellFormed w.db) (hprogress : IsInProgress execution)
    (hfresh : ∀ r∈w.db.executions,r.executionId≠execution.executionId)
    (hclient : bindText execution.callIdentity.summaryClient=.ok ())
    (hmodel : bindText execution.callIdentity.summaryModel=.ok ()) :
    Safe (Answers locks noFaults thread) (fun _ => True)
      (fun r w' => (∃ a,r=.ok a) ∧ w'.blobs=w.blobs ∧ w'.minted=w.minted ∧ WellFormed w'.db ∧
        ∃ id now,w'.db.executions=w.db.executions ++
          [insertedRow id execution.callIdentity.generateKey execution now [] none])
      (store (.save execution) : ServiceM Command Unit) w := by
  refine safe_commit fun now => ?_
  have hservable : isServable execution=false := by simp [isServable,hprogress.state]
  have hsaved : ∃ db',save execution now w.db=.ok db' := by
    unfold save upsertIdentity
    rw [hclient,hmodel]
    simp only [hservable]
    unfold insertExecution
    rw [hprogress.failure,hprogress.artifacts,hprogress.tokenUsage]
    have hnew : ∀ r∈(insertIdentity w.db execution.callIdentity.generateKey execution.callIdentity).executions,
        r.executionId≠execution.executionId := by
      rw [insertIdentity_executions]
      exact hfresh
    exact ⟨_,dif_pos hnew⟩
  obtain ⟨db',hdb'⟩ := hsaved
  have hrows := save_ok hdb'
  obtain ⟨id,_,_,hrows,_⟩ := hrows
  rw [hservable,hprogress.artifacts,hprogress.tokenUsage] at hrows
  have hcommit : transact now w.db (.save execution)=.ok ((),db') := commit_ok.mpr hdb'
  exact ⟨(),db',hcommit,rfl,rfl,transact_wellFormed hwf hcommit,id,now,hrows⟩

/-- What a client's failure binds. -/
theorem bindFailure_result (h : sqliteInteger result.exitCode=true) : bindFailure result.failure=.ok () := by
  unfold ClientRunResult.failure bindFailure
  split
  · rfl
  · simp only [Option.map_some,Option.bind_some,bindOptional,bindText,encodable_pyStr,if_true,bindInteger,h]
    rfl

/-- The outcome is recorded in the row in progress. -/
theorem safe_recordOutcome {row : ExecutionRow} (h : Added w₀ row [] w) (hrow : IsRunRow execution .inProgress [] row)
    (husage : row.tokenUsage=none) (hcode : sqliteInteger result.exitCode=true)
    (hstorable : result.tokenUsage.all TokenUsage.storable=true) :
    Safe (Answers locks noFaults thread) (fun _ => True)
      (fun r w' => (∃ a,r=.ok a) ∧ ∃ row',Added w₀ row' [] w' ∧ IsStoring execution result.outcome [] row')
      (store (.recordOutcome (withOutcome execution result)) : ServiceM Command Unit) w := by
  refine safe_commit fun now => ?_
  obtain ⟨usage,hinsert⟩ := insertTokenUsage_none hstorable
  have hid : row.executionId=(withOutcome execution result).executionId := hrow.id
  have hfind : w.db.findRow (withOutcome execution result).executionId=some row := findRow_last h.rows hid
  have hdb : recordOutcome (withOutcome execution result) w.db=.ok (w.db.updateWhere
      (hasId (withOutcome execution result).executionId) (outcomeColumns (withOutcome execution result) usage)) := by
    have hbind : bindFailure (withOutcome execution result).failure=.ok () := bindFailure_result hcode
    have husage' : insertTokenUsage row.tokenUsage (withOutcome execution result).tokenUsage=.ok usage := by
      rw [husage]
      exact hinsert
    unfold recordOutcome
    rw [hfind]
    simp only [hbind,husage']
    rfl
  have hcommit : transact now w.db (.recordOutcome (withOutcome execution result))=.ok ((),_) := commit_ok.mpr hdb
  refine ⟨(),_,hcommit,row.update (outcomeColumns (withOutcome execution result) usage),
    h.update hid (transact_wellFormed h.wf hcommit),?_⟩
  · have hnone : row.artifacts=[] := List.forall₂_nil_left_iff.mp hrow.artifacts
    refine ⟨⟨hrow.id,hrow.key,rfl,hrow.unpersisted,hrow.current,hrow.artifacts⟩,fun a ha => ?_⟩
    have hmem : a∈row.artifacts := ha
    rw [hnone] at hmem
    exact (List.not_mem_nil hmem).elim

/-- One document is stored: its row, its blob and its mark. -/
theorem safe_storeDocument {row : ExecutionRow} {state : ExecutionState} {done : List Artifact} {document : Artifact}
    (h : Added w₀ row done w) (hrow : IsStoring execution state done row)
    (hinsert : insertArtifacts [document]=.ok [artifactRow document]) :
    Safe (Answers locks noFaults thread) (fun _ => True)
      (fun r w' => r=.ok { document with status := .stored } ∧
        ∃ row',Added w₀ row' (done ++ [document]) w' ∧ IsStoring execution state (done ++ [document]) row')
      (store (.persistArtifact execution.executionId document) >>= fun _ =>
        (storeBlob execution.executionId document : ServiceM Command Artifact)) w := by
  have hid : row.executionId=execution.executionId := hrow.1.id
  have hpersist : Safe (Answers locks noFaults thread) (fun _ => True)
      (fun r w' => (∃ a,r=.ok a) ∧ Added w₀ (row.update (withArtifacts [artifactRow document])) done w')
      (store (.persistArtifact execution.executionId document) : ServiceM Command Unit) w := by
    refine safe_commit fun now => ?_
    have hdb : persistArtifact execution.executionId document w.db=.ok (w.db.updateWhere
        (hasId execution.executionId) (withArtifacts [artifactRow document])) := by
      unfold persistArtifact
      rw [findRow_last h.rows hid,hinsert]
      rfl
    have hcommit : transact now w.db (.persistArtifact execution.executionId document)=.ok ((),_) :=
      commit_ok.mpr hdb
    exact ⟨(),_,hcommit,h.update hid (transact_wellFormed h.wf hcommit)⟩
  refine Safe.seq hpersist (fun _ w₁ _ hadded => ?_) fun e w₁ _ hadded => ?_
  · obtain ⟨_,hadded⟩ := hadded
    have hput : Safe (Answers locks noFaults thread) (fun _ => True)
        (fun r w' => (∃ a,r=.ok a) ∧
          Added w₀ (row.update (withArtifacts [artifactRow document])) (done ++ [document]) w')
        (ask (.blobPut document.blobKey (document.content.getD [])) : ServiceM Command Unit) w₁ := by
      refine Safe.perform trivial fun r w₂ hans => ⟨trivial,?_⟩
      cases hans with
      | fault _ hf => exact hf.elim
      | blobPut =>
        refine ⟨⟨(),rfl⟩,hadded.rows,hadded.fresh,hadded.wf,hadded.minted,?_⟩
        show w₁.blobs.put document.blobKey (document.content.getD [])=_
        rw [hadded.blobs]
        unfold putDocuments
        rw [List.foldl_append]
        rfl
    refine Safe.attempt_seq hput fun r w₂ _ hr => ?_
    obtain ⟨⟨_,rfl⟩,hadded⟩ := hr
    have hmark : Safe (Answers locks noFaults thread) (fun _ => True)
        (fun r w' => (∃ a,r=.ok a) ∧ ∃ row',Added w₀ row' (done ++ [document]) w' ∧
          IsStoring execution state (done ++ [document]) row')
        (store (.markArtifactsStored execution.executionId document.blobKey) : ServiceM Command Unit) w₂ := by
      refine safe_commit fun now => ?_
      have hmem : row.update (withArtifacts [artifactRow document])∈w₂.db.executions := by
        rw [hadded.rows]
        exact List.mem_append_right _ (List.mem_singleton_self _)
      have hnamed : ∃ a∈(row.update (withArtifacts [artifactRow document])).artifacts,
          a.blobKey=.value document.blobKey :=
        ⟨artifactRow document,List.mem_append_right _ (List.mem_singleton_self _),rfl⟩
      have hdb := markArtifacts_of (storedMark now) hmem hid hnamed
      have hcommit : transact now w₂.db (.markArtifactsStored execution.executionId document.blobKey)=.ok ((),_) :=
        commit_ok.mpr hdb
      refine ⟨(),_,hcommit,_,hadded.update hid (transact_wellFormed hadded.wf hcommit),?_⟩
      · have hpersisted : IsRunRow execution state (done ++ [document])
            (row.update (withArtifacts [artifactRow document])) := hrow.1.persist
        refine ⟨hpersisted.mark (keepsDocument_storedMark now),fun a ha => ?_⟩
        obtain ⟨a₀,ha₀,rfl⟩ := List.mem_map.mp ha
        split
        · rfl
        next hother =>
          rcases List.mem_append.mp ha₀ with hold | hnew
          · exact hrow.2 a₀ hold
          · rw [List.mem_singleton.mp hnew] at hother
            exact absurd rfl hother
    refine Safe.attempt_seq hmark fun r w₃ _ hr => ?_
    obtain ⟨⟨_,rfl⟩,hstored⟩ := hr
    exact Safe.pure trivial ⟨rfl,hstored⟩
  · obtain ⟨⟨a,ha⟩,_⟩ := hadded
    exact nomatch ha

/-- The row of a run is at the end of its documents. -/
abbrev StoresAll (w₀ : World) (execution : MlExecution) (state : ExecutionState) (documents : List Artifact)
    (w : World) : Prop :=
  ∃ row,Added w₀ row documents w ∧ IsStoring execution state documents row

/-- Documents are stored one after another. -/
theorem safe_persistDocuments {state : ExecutionState} {done todo : List Artifact}
    (h : StoresAll w₀ execution state done w)
    (hinsert : ∀ document∈todo,insertArtifacts [document]=.ok [artifactRow document]) :
    Safe (Answers locks noFaults thread) (fun _ => True)
      (fun r w' => r=.ok (todo.map fun document => { document with status := .stored },true) ∧
        StoresAll w₀ execution state (done ++ todo) w')
      (persistDocuments execution.executionId todo : ServiceM Command (List Artifact × Bool)) w := by
  induction todo generalizing done w with
  | nil =>
    rw [List.append_nil]
    exact Safe.pure trivial ⟨rfl,h⟩
  | cons document todo ih =>
    obtain ⟨row,hadded,hrow⟩ := h
    have hone : Safe (Answers locks noFaults thread) (fun _ => True)
        (fun r w' => r=.ok { document with status := .stored } ∧
          StoresAll w₀ execution state (done ++ [document]) w')
        (store (.persistArtifact execution.executionId document) >>= fun _ =>
          (storeBlob execution.executionId document : ServiceM Command Artifact)) w :=
      safe_storeDocument hadded hrow (hinsert document List.mem_cons_self)
    unfold persistDocuments
    rw [← bind_assoc]
    refine Safe.seq hone (fun stored w₁ _ hr => ?_) fun e w₁ _ hr => nomatch hr.1
    obtain ⟨hstored,hnext⟩ := hr
    cases Except.ok.inj hstored
    have hrest := ih hnext fun d hd => hinsert d (List.mem_cons_of_mem _ hd)
    rw [List.append_assoc,List.singleton_append] at hrest
    refine Safe.seq hrest (fun resolved w₂ _ hr => ?_) fun e w₂ _ hr => nomatch hr.1
    obtain ⟨hresolved,hall⟩ := hr
    cases Except.ok.inj hresolved
    exact Safe.pure trivial ⟨rfl,hall⟩

/-- Locks and the journal. -/
def isStill : Call Command → Bool
  | .acquireShared | .releaseShared | .recordEvent _ | .acquireKey _ | .releaseKey _ => true
  | _ => false

/-- The same rows, blobs and ids. -/
structure SameContent (w w' : World) : Prop where
  /-- The databases are the same. -/
  db : w'.db=w.db
  /-- The blobs are the same. -/
  blobs : w'.blobs=w.blobs
  /-- The ids are the same. -/
  minted : w'.minted=w.minted

/-- One after another. -/
theorem SameContent.trans {w₁ w₂ w₃ : World} (h : SameContent w₁ w₂) (h' : SameContent w₂ w₃) : SameContent w₁ w₃ :=
  ⟨h'.db.trans h.db,h'.blobs.trans h.blobs,h'.minted.trans h.minted⟩

/-- Such a call returns and changes none of them. -/
theorem still_answer {call : Call Command} {r : Except PyExc call.Ret} {w' : World} (h : isStill call=true)
    (hans : Answers locks noFaults thread call w r w') : (∃ a,r=.ok a) ∧ SameContent w w' := by
  cases hans with
  | fault _ hf => exact hf.elim
  | acquireShared | releaseShared | recordEvent | acquireKey | releaseKey => exact ⟨⟨_,rfl⟩,⟨rfl,rfl,rfl⟩⟩
  | _ => exact nomatch h

/-- Such a call, in a program. -/
theorem safe_still {call : Call Command} (h : isStill call=true) :
    Safe (Answers locks noFaults thread) (fun _ => True) (fun r w' => (∃ a,r=.ok a) ∧ SameContent w w')
      (ask call) w :=
  Safe.perform trivial fun _ _ hans => ⟨trivial,still_answer h hans⟩

/-- What is said of the content holds of the same content. -/
theorem StoresAll.same {w' : World} {state : ExecutionState} {documents : List Artifact}
    (h : StoresAll w₀ execution state documents w) (hsame : SameContent w w') :
    StoresAll w₀ execution state documents w' := by
  obtain ⟨row,hadded,hrow⟩ := h
  exact ⟨row,⟨hsame.db ▸ hadded.rows,hadded.fresh,hsame.db ▸ hadded.wf,hsame.minted.trans hadded.minted,
    hsame.blobs.trans hadded.blobs⟩,hrow⟩

/-- The row of a stored success, which its key serves. -/
structure IsPromoted (execution : MlExecution) (documents : List Artifact) (row : ExecutionRow) : Prop where
  /-- It is the execution's row. -/
  id : row.executionId=execution.executionId
  /-- Its key serves it. -/
  current : isCurrent execution.callIdentity.generateKey row=true
  /-- Its artifact rows are those of the documents. -/
  artifacts : List.Forall₂ IsRowOf documents row.artifacts

/-- Where the key has no current row, finalizing promotes the row added. -/
theorem safe_finalize {documents : List Artifact} (h : StoresAll w₀ execution .success documents w)
    (habsent : w₀.db.currentRow execution.callIdentity.generateKey=none) :
    Safe (Answers locks noFaults thread) (fun _ => True)
      (fun r w' => (∃ a,r=.ok a) ∧ ∃ row,Added w₀ row documents w' ∧ IsPromoted execution documents row)
      (store (.finalizeOutputPersisted execution.executionId) : ServiceM Command Unit) w := by
  obtain ⟨row,hadded,hrow,hstored⟩ := h
  refine safe_commit fun now => ?_
  have hmem : row∈w.db.executions := by
    rw [hadded.rows]
    exact List.mem_append_right _ (List.mem_singleton_self row)
  have hdb := finalizeOutputPersisted_of now hmem hrow.id hstored
  have hcommit : transact now w.db (.finalizeOutputPersisted execution.executionId)=.ok ((),_) :=
    commit_ok.mpr hdb
  rw [if_pos hrow.state,hrow.key] at hcommit
  have hnoneCurrent : ∀ r∈w.db.executions,isCurrent execution.callIdentity.generateKey r=false := by
    intro r hr
    rw [hadded.rows] at hr
    by_contra hcurrent
    obtain ⟨hkey,hserv⟩ := (isCurrent_iff _ r).mp (Bool.eq_true_of_not_eq_false hcurrent)
    rcases List.mem_append.mp hr with hold | hlast
    · exact nomatch (Db.currentRow_eq_none.mp habsent r hold hkey).symm.trans hserv
    · rw [List.mem_singleton.mp hlast] at hserv
      have hpersisted := ((MutableColumns.servable_iff _).mp hserv).2.1
      exact nomatch hrow.unpersisted.symm.trans hpersisted
  have hrows : (supersedePriorCurrent w.db execution.callIdentity.generateKey now).executions=
      w₀.db.executions ++ [row] := (updateWhere_none hnoneCurrent).trans hadded.rows
  refine ⟨(),_,hcommit,row.update fun c => { c with outputPersisted := true },⟨?_,hadded.fresh,?_,?_,?_⟩,?_⟩
  · have hfresh : ∀ r∈w₀.db.executions,r.executionId≠execution.executionId := fun r hr heq =>
      hadded.fresh r hr (heq.trans hrow.id.symm)
    exact updateWhere_last hrows hfresh hrow.id
  · exact transact_wellFormed hadded.wf hcommit
  · exact hadded.minted
  · exact hadded.blobs
  · refine ⟨hrow.id,(isCurrent_iff _ _).mpr ⟨hrow.key,(MutableColumns.servable_iff _).mpr ?_⟩,hrow.artifacts⟩
    exact ⟨hrow.state,rfl,hrow.current⟩

/-- A call that keeps no input, without tags and without a quota. -/
structure IsPlain (service : CachedMlExecutionService Command) (command : Command) : Prop where
  /-- It keeps no input. -/
  input : (service.persistenceDepth command).storesInput=false
  /-- It has no tags. -/
  tags : service.executionTags command=[]
  /-- The store has no quota. -/
  quota : service.maxSize=none

/-- The row added serves no key. -/
def Unserved (w₀ w : World) : Prop := ∃ row,Added w₀ row [] w ∧ ∀ key,isCurrent key row=false

/-- A row that is not promoted serves no key. -/
theorem Unserved.of_storing {state : ExecutionState} (h : StoresAll w₀ execution state [] w) : Unserved w₀ w := by
  obtain ⟨row,hadded,hrow,_⟩ := h
  refine ⟨row,hadded,fun key => ?_⟩
  by_contra hcurrent
  have hserv := ((isCurrent_iff _ row).mp (Bool.eq_true_of_not_eq_false hcurrent)).2
  exact nomatch hrow.unpersisted.symm.trans ((MutableColumns.servable_iff _).mp hserv).2.1

/-- A plain success is recorded and promoted. -/
theorem safe_recordStored {row : ExecutionRow} {documents : List Artifact} (hplain : IsPlain service command)
    (h : Added w₀ row [] w) (hrow : IsRunRow execution .inProgress [] row) (husage : row.tokenUsage=none)
    (habsent : w₀.db.currentRow execution.callIdentity.generateKey=none) (hsuccess : result.outcome=.success)
    (hcode : sqliteInteger result.exitCode=true) (hstorable : result.tokenUsage.all TokenUsage.storable=true)
    (hbuild : buildArtifacts fingerprint execution.executionId result .pending=.ok documents)
    (hinsert : ∀ document∈documents,insertArtifacts [document]=.ok [artifactRow document])
    (key : ExecutionKey) :
    Safe (Answers locks noFaults thread) (fun _ => True)
      (fun r w' => r=.ok { withOutcome execution result with
          outputPersisted := true
          artifacts := documents.map fun document => { document with status := .stored }
          inputPersisted := false } ∧
        ∃ row',Added w₀ row' documents w' ∧ IsPromoted execution documents row')
      (recordStored service fingerprint key command execution result) w := by
  refine Safe.seq (safe_recordOutcome h hrow husage hcode hstorable) (fun _ w₁ _ hr => ?_) fun e w₁ _ hr => ?_
  · obtain ⟨_,hstores⟩ := hr
    have hinput : recordedInput service fingerprint (withOutcome execution result).executionId command=.ok [] := by
      unfold recordedInput
      rw [hplain.input]
      rfl
    have hbuild' : buildArtifacts fingerprint (withOutcome execution result).executionId result .pending=
        .ok documents := hbuild
    rw [hbuild',ofExcept_ok_bind,hinput,ofExcept_ok_bind,List.append_nil]
    have hpersisted : Safe (Answers locks noFaults thread) (fun _ => True)
        (fun r w' => r=.ok (documents.map fun document => { document with status := .stored },true) ∧
          StoresAll w₀ execution result.outcome documents w')
        (withContentWriteLock (persistDocuments execution.executionId documents :
          ServiceM Command (List Artifact × Bool))) w₁ := by
      refine Safe.seq (safe_still rfl) (fun _ w₂ _ hr => ?_) fun e w₂ _ hr => ?_
      · refine Safe.ensure ((safe_persistDocuments (StoresAll.same hstores hr.2) hinsert).mono fun r w₃ _ hr => ?_)
        obtain ⟨rfl,hall⟩ := hr
        refine (safe_still rfl).mono fun c w₄ _ hc => ?_
        obtain ⟨⟨_,rfl⟩,hsame⟩ := hc
        exact ⟨rfl,StoresAll.same hall hsame⟩
      · obtain ⟨a,ha⟩ := hr.1
        exact nomatch ha
    refine Safe.seq hpersisted (fun resolved w₂ _ hr => ?_) fun e w₂ _ hr => nomatch hr.1
    obtain ⟨hresolved,hall⟩ := hr
    cases Except.ok.inj hresolved
    rw [hsuccess] at hall
    have hconclude : Safe (Answers locks noFaults thread) (fun _ => True)
        (fun r w' => (∃ a,r=.ok a) ∧ ∃ row,Added w₀ row documents w' ∧ IsPromoted execution documents row)
        (concludeRecording service key command execution.executionId true) w₂ := by
      refine Safe.seq (safe_finalize hall habsent) (fun _ w₃ _ hr => ?_) fun e w₃ _ hr => ?_
      · obtain ⟨_,row',hadded',hpromoted⟩ := hr
        refine Safe.seq (safe_still rfl) (fun _ w₄ _ hr => ?_) fun e w₄ _ hr => ?_
        · have hsame := hr.2
          unfold applyTags afterRecord
          rw [hplain.tags,hplain.quota]
          exact Safe.pure trivial ⟨⟨_,rfl⟩,row',⟨hsame.db ▸ hadded'.rows,hadded'.fresh,hsame.db ▸ hadded'.wf,
            hsame.minted.trans hadded'.minted,hsame.blobs.trans hadded'.blobs⟩,hpromoted⟩
        · obtain ⟨a,ha⟩ := hr.1
          exact nomatch ha
      · obtain ⟨a,ha⟩ := hr.1
        exact nomatch ha
    refine Safe.seq hconclude (fun _ w₃ _ hr => ?_) fun e w₃ _ hr => ?_
    · exact Safe.pure trivial ⟨rfl,hr.2⟩
    · obtain ⟨a,ha⟩ := hr.1
      exact nomatch ha
  · obtain ⟨a,ha⟩ := hr.1
    exact nomatch ha

/-- A result that is not stored is recorded, and returned with its documents. -/
theorem safe_recordUnstored {row : ExecutionRow} {documents : List Artifact}
    (h : Added w₀ row [] w) (hrow : IsRunRow execution .inProgress [] row) (husage : row.tokenUsage=none)
    (hcode : sqliteInteger result.exitCode=true) (hstorable : result.tokenUsage.all TokenUsage.storable=true)
    (hbuild : buildArtifacts fingerprint execution.executionId result .stored=.ok documents) (key : ExecutionKey) :
    Safe (Answers locks noFaults thread) (fun _ => True)
      (fun r w' => r=.ok { withOutcome execution result with artifacts := documents } ∧ Unserved w₀ w')
      (recordUnstored service fingerprint key command execution result) w := by
  refine Safe.seq (safe_recordOutcome h hrow husage hcode hstorable) (fun _ w₁ _ hr => ?_) fun e w₁ _ hr => ?_
  · obtain ⟨_,hstores⟩ := hr
    refine Safe.seq (safe_still rfl) (fun _ w₂ _ hr => ?_) fun e w₂ _ hr => ?_
    · have hbuild' : buildArtifacts fingerprint (withOutcome execution result).executionId result .stored=
          .ok documents := hbuild
      have hunserved : Unserved w₀ w₂ := .of_storing (StoresAll.same hstores hr.2)
      rw [hbuild',ofExcept_ok_bind]
      exact Safe.pure trivial ⟨rfl,hunserved⟩
    · obtain ⟨a,ha⟩ := hr.1
      exact nomatch ha
  · obtain ⟨a,ha⟩ := hr.1
    exact nomatch ha

/-- A client that raised leaves a row that serves no key, and its error goes on. -/
theorem safe_clientRaised {row : ExecutionRow} {e : PyExc} (h : Added w₀ row [] w)
    (hrow : IsRunRow execution .inProgress [] row) (he : e.isInterrupt=false) :
    Safe (Answers locks noFaults thread) (fun _ => True)
      (fun r w' => (∃ e',r=.error e') ∧ Unserved w₀ w')
      (clientRaised execution e : ServiceM Command ClientRunResult) w := by
  have hstill : Unserved w₀ w := .of_storing ⟨row,h,hrow,fun a ha => by
    rw [List.forall₂_nil_left_iff.mp hrow.artifacts] at ha
    exact (List.not_mem_nil ha).elim⟩
  refine Safe.ite (fun hi => nomatch he.symm.trans hi) fun _ => ?_
  refine Safe.ite (fun _ => ?_) fun _ => Safe.raise trivial ⟨⟨e,rfl⟩,hstill⟩
  have habandon : Safe (Answers locks noFaults thread) (fun _ => True) (fun _ w' => Unserved w₀ w')
      (abandonInProgressAsFailed execution e : ServiceM Command Unit) w := by
    refine Safe.perform trivial fun r w' hans => ⟨trivial,?_⟩
    rcases answers_store hans with ⟨now,a,db,ht,rfl,rfl⟩ | ⟨e',rfl,rfl,_⟩
    · obtain ⟨_,_,_,usage,_,hdb⟩ := recordOutcome_ok (commit_ok.mp ht)
      have hwf := transact_wellFormed h.wf ht
      subst hdb
      refine ⟨_,h.update hrow.id hwf,fun key => ?_⟩
      by_contra hcurrent
      have hserv := ((isCurrent_iff _ _).mp (Bool.eq_true_of_not_eq_false hcurrent)).2
      exact nomatch hrow.unpersisted.symm.trans ((MutableColumns.servable_iff _).mp hserv).2.1
    · exact hstill
  refine Safe.seq habandon (fun _ w₁ _ hw => ?_) fun e' w₁ _ hw => ⟨⟨e',rfl⟩,hw⟩
  exact Safe.raise trivial ⟨⟨e,rfl⟩,hw⟩

end Recording

/-- What the client returns is given. -/
def RepliesWith {Command : Type} (client : Except PyExc ClientRunResult) :
    (call : Call Command) → Except PyExc call.Ret → Prop
  | .runClient _,r => r=client
  | _,_ => True

/-- The meaning of an undisturbed caller with a given client, watched. -/
abbrev replyingRun (Command : Type) (locks : LockMode) (thread : ThreadId)
    (client : Except PyExc ClientRunResult) : Sem (Call Command) Call.Ret PyExc (World × RunTrace) :=
  fun call s r s' => watchedRun Command locks thread call s r s' ∧ RepliesWith client call r

/-- The client's answers of the chosen ports are the given ones. -/
theorem answerWith_replies {Command : Type} {locks : LockMode} {thread : ThreadId}
    {client : Except PyExc ClientRunResult} (fresh : ExecutionId) :
    Handler.Respects ((answerWith locks thread 0 client fresh).watched watchRun)
      (replyingRun Command locks thread client) := by
  intro call s r s' h
  refine ⟨(answerWith_respects 0 client fresh).watched watchRun call s r s' h,?_⟩
  cases call with
  | runClient command =>
    cases h
    rfl
  | _ => exact trivial

section Runs
variable {Command α : Type} {locks : LockMode} {thread : ThreadId} {client : Except PyExc ClientRunResult}
  {service : CachedMlExecutionService Command} {fingerprint : Bytes → Digest} {command : Command}
  {identity : CallIdentity} {w : World}

/-- What every client leaves holds of the given one, and the client stays called. -/
theorem safe_replying {Q : Except PyExc α → World → Prop} {p : ServiceM Command α} (t : RunTrace)
    (h : Safe (Answers locks noFaults thread) (fun _ => True) Q p w) :
    Safe (replyingRun Command locks thread client) (fun _ => True)
      (fun r s => Q r s.1 ∧ (t.calledClient=true → s.2.calledClient=true)) p (w,t) := by
  have hwatched := h.observed watchRun (s := (w,t))
  have hmono : Safe (watchedRun Command locks thread) (fun _ => True) (fun _ (s : World × RunTrace) =>
      (t.calledClient=true → s.2.calledClient=true) ∧ (t.usedStore=true → s.2.usedStore=true)) p (w,t) :=
    Follows.safe (Q := fun _ (t' : RunTrace) => (t.calledClient=true → t'.calledClient=true) ∧
      (t.usedStore=true → t'.usedStore=true)) _ (follows_mono p t)
  exact (((hwatched.and hmono).crash fun _ _ => trivial).mono fun r s _ hr => ⟨hr.2.1,hr.2.2.1⟩).narrow
    fun _ _ _ _ hs => hs.1

/-- A recorded run saves its row and calls the client; what follows decides the rest. -/
theorem safe_runAndRecord {Q : Except PyExc MlExecution → World → Prop} (hplain : IsPlain service command)
    (hwf : WellFormed w.db) (hminted : ∀ r∈w.db.executions,r.executionId∈w.minted)
    (hclient : bindText identity.summaryClient=.ok ()) (hmodel : bindText identity.summaryModel=.ok ())
    (h : ∀ id w' row,Added w row [] w' →
      IsRunRow (inProgressExecution service identity id command) .inProgress [] row → row.tokenUsage=none →
      Safe (Answers locks noFaults thread) (fun _ => True) Q
        ((match client with
          | .ok result => (pure result : ServiceM Command ClientRunResult)
          | .error e => clientRaised (inProgressExecution service identity id command) e) >>= fun result =>
          if service.shouldPersist command result.succeeded=true then
            recordStored service fingerprint identity.generateKey command
              (inProgressExecution service identity id command) result
          else recordUnstored service fingerprint identity.generateKey command
            (inProgressExecution service identity id command) result) w') (t : RunTrace) :
    Safe (replyingRun Command locks thread client) (fun _ => True)
      (fun r s => Q r s.1 ∧ s.2.calledClient=true) (runAndRecord service fingerprint identity command) (w,t) := by
  unfold runAndRecord blobHealthGate
  rw [hplain.input]
  refine Safe.perform_bind trivial (fun id s hans => ?_) fun e s hans => ?_
  · obtain ⟨w₁,t₁⟩ := s
    obtain ⟨⟨hans,_⟩,_⟩ := hans
    cases hans with
    | newExecutionId id hid =>
      have hfresh : ∀ r∈w.db.executions,r.executionId≠id := fun r hr heq => hid (heq ▸ hminted r hr)
      have hprogress : IsInProgress (inProgressExecution service identity id command) := ⟨rfl,rfl,rfl,rfl,rfl,rfl⟩
      refine Safe.seq (safe_replying t₁ (safe_save hwf hprogress hfresh hclient hmodel)) (fun _ s _ hr => ?_)
        fun e s _ hr => ?_
      · obtain ⟨w₂,t₂⟩ := s
        obtain ⟨⟨_,hblobs,hids,hwf₂,rowId,now,hrows⟩,_⟩ := hr
        have hadded : Added w (insertedRow rowId identity.generateKey
            (inProgressExecution service identity id command) now [] none) [] w₂ :=
          ⟨hrows,hfresh,hwf₂,hids,hblobs⟩
        have hrest := h id w₂ _ hadded ⟨rfl,rfl,rfl,rfl,rfl,.nil⟩ rfl
        refine ⟨trivial,fun r s hans => ?_⟩
        obtain ⟨w₃,t₃⟩ := s
        obtain ⟨⟨hans,ht⟩,hr⟩ := hans
        have hr : r=client := hr
        have ht : t₃={ t₂ with calledClient := true } := ht
        have hw : w₃=w₂ := by
          cases hans <;> rfl
        subst hr hw ht
        refine Safe.mono (Q := fun r' s => Q r' s.1 ∧ (True → s.2.calledClient=true)) ?_
          fun r' s _ hr' => ⟨hr'.1,hr'.2 trivial⟩
        cases r with
        | ok result => exact (safe_replying _ hrest).mono fun r' s _ hr' => ⟨hr'.1,fun _ => hr'.2 rfl⟩
        | error e => exact (safe_replying _ hrest).mono fun r' s _ hr' => ⟨hr'.1,fun _ => hr'.2 rfl⟩
      · obtain ⟨⟨⟨a,ha⟩,_⟩,_⟩ := hr
        exact nomatch ha
  · obtain ⟨⟨hans,_⟩,_⟩ := hans
    cases hans with
    | fault _ hf => exact hf.elim

/-- A key without a current row is recorded afresh, under its lock. -/
theorem safe_run_fresh {Q : Except PyExc MlExecution → World → Prop}
    (habsent : w.db.currentRow identity.generateKey=none)
    (hsame : ∀ r w₁ w₂,SameContent w₁ w₂ → Q r w₁ → Q r w₂)
    (h : ∀ w' t,SameContent w w' → Safe (replyingRun Command locks thread client) (fun _ => True)
      (fun r s => Q r s.1 ∧ s.2.calledClient=true) (runAndRecord service fingerprint identity command) (w',t))
    (t : RunTrace) :
    Safe (replyingRun Command locks thread client) (fun _ => True)
      (fun r s => Q r s.1 ∧ s.2.calledClient=true) (replayOrRun service fingerprint identity command) (w,t) := by
  have hmiss : ∀ w₁ t₁,SameContent w w₁ → Safe (replyingRun Command locks thread client) (fun _ => True)
      (fun r s => r=.ok none ∧ SameContent w s.1)
      (serveCurrentIfHealthy service fingerprint identity.generateKey command) (w₁,t₁) := by
    intro w₁ t₁ hcontent
    have hrow : w₁.db.currentRow identity.generateKey=none := by rw [hcontent.db]; exact habsent
    have hnone : Safe (Answers locks noFaults thread) (fun w₂ => w₂=w₁) (fun r _ => r=.ok none)
        (serveCurrentIfHealthy service fingerprint identity.generateKey command) w₁ := safe_serve_absent hrow
    refine (safe_replying t₁ (hnone.crash fun _ _ => trivial)).mono fun r s _ hr => ⟨hr.1.2,?_⟩
    rw [hr.1.1]
    exact hcontent
  refine Safe.seq (hmiss w t ⟨rfl,rfl,rfl⟩) (fun found s _ hr => ?_) fun e s _ hr => (by cases hr.1)
  obtain ⟨w₁,t₁⟩ := s
  obtain ⟨hfound,hcontent⟩ := hr
  cases Except.ok.inj hfound
  have hlock : Safe (Answers locks noFaults thread) (fun _ => True) (fun r w' => (∃ a,r=.ok a) ∧ SameContent w₁ w')
      (ask (.acquireKey identity.generateKey) : ServiceM Command Unit) w₁ := safe_still rfl
  refine Safe.seq (safe_replying t₁ hlock) (fun _ s _ hr => ?_) fun e s _ hr => ?_
  · obtain ⟨w₂,t₂⟩ := s
    obtain ⟨⟨_,hcontent₂⟩,_⟩ := hr
    have hcontent₂ : SameContent w w₂ := hcontent.trans hcontent₂
    have hbody : Safe (replyingRun Command locks thread client) (fun _ => True)
        (fun r s => Q r s.1 ∧ s.2.calledClient=true)
        (if service.cacheMode command=.cache then
          serveCurrentIfHealthy service fingerprint identity.generateKey command >>=
            servedOrRun service fingerprint identity command
        else runAndRecord service fingerprint identity command) (w₂,t₂) := by
      refine Safe.ite (fun _ => ?_) fun _ => h w₂ t₂ hcontent₂
      refine Safe.seq (hmiss w₂ t₂ hcontent₂) (fun found s _ hr => ?_) fun e s _ hr => (by cases hr.1)
      obtain ⟨w₃,t₃⟩ := s
      cases Except.ok.inj hr.1
      exact h w₃ t₃ hr.2
    refine Safe.ensure (hbody.mono fun r s _ hr => ?_)
    obtain ⟨w₃,t₃⟩ := s
    have hunlock : Safe (Answers locks noFaults thread) (fun _ => True)
        (fun r w' => (∃ a,r=.ok a) ∧ SameContent w₃ w')
        (ask (.releaseKey identity.generateKey) : ServiceM Command Unit) w₃ := safe_still rfl
    refine (safe_replying t₃ hunlock).mono fun c s _ hc => ?_
    obtain ⟨⟨⟨a,rfl⟩,hcontent₃⟩,hcalled⟩ := hc
    exact ⟨hsame r _ _ hcontent₃ hr.1,hcalled hr.2⟩
  · obtain ⟨⟨⟨a,ha⟩,_⟩,_⟩ := hr
    cases ha

/-- A plain cacheable call of a key without a current row, over a sound store. -/
structure IsMiss (service : CachedMlExecutionService Command) (command : Command) (identity : CallIdentity)
    (w : World) : Prop where
  /-- It is plain. -/
  plain : IsPlain service command
  /-- Its identity is built. -/
  built : service.buildIdentity command=.ok identity
  /-- It is not kept out of the cache. -/
  cacheable : service.isUncacheable command=false
  /-- It reads the cache first. -/
  mode : service.cacheMode command=.cache
  /-- Its output is stored. -/
  depth : (service.persistenceDepth command).storesOutput=true
  /-- The client's name binds. -/
  client : bindText identity.summaryClient=.ok ()
  /-- The model binds. -/
  model : bindText identity.summaryModel=.ok ()
  /-- Its key has no current row. -/
  absent : w.db.currentRow identity.generateKey=none
  /-- The database is well formed. -/
  wf : WellFormed w.db
  /-- Every stored id was minted. -/
  minted : ∀ r∈w.db.executions,r.executionId∈w.minted

/-- A result whose outcome, usage and documents fit the store. -/
structure IsStorable (fingerprint : Bytes → Digest) (result : ClientRunResult) : Prop where
  /-- The exit code fits an integer column. -/
  code : sqliteInteger result.exitCode=true
  /-- The counters do. -/
  usage : result.tokenUsage.all TokenUsage.storable=true
  /-- Its documents are built and bind. -/
  documents : ∀ id status,∃ documents,buildArtifacts fingerprint id result status=.ok documents ∧
    ∀ document∈documents,insertArtifacts [document]=.ok [artifactRow document]

/-- The result is returned, and its row is the key's current one. -/
def Recorded (service : CachedMlExecutionService Command) (fingerprint : Bytes → Digest) (command : Command)
    (identity : CallIdentity) (result : ClientRunResult) (w₀ : World) (r : Except PyExc MlExecution)
    (w : World) : Prop :=
  ∃ id documents row,buildArtifacts fingerprint id result .pending=.ok documents ∧
    r=.ok { withOutcome (inProgressExecution service identity id command) result with
      outputPersisted := true
      artifacts := documents.map fun document => { document with status := .stored }
      inputPersisted := false } ∧
    Added w₀ row documents w ∧ IsPromoted (inProgressExecution service identity id command) documents row

/-- The result is returned, and serves no key. -/
def Displayed (service : CachedMlExecutionService Command) (fingerprint : Bytes → Digest) (command : Command)
    (identity : CallIdentity) (result : ClientRunResult) (w₀ : World) (r : Except PyExc MlExecution)
    (w : World) : Prop :=
  ∃ id documents,buildArtifacts fingerprint id result .stored=.ok documents ∧
    r=.ok { withOutcome (inProgressExecution service identity id command) result with artifacts := documents } ∧
    Unserved w₀ w

/-- What is added beside the same content is added beside the content. -/
theorem Added.rebase {w₀ w₁ : World} {row : ExecutionRow} {documents : List Artifact} (hsame : SameContent w₀ w₁)
    (h : Added w₁ row documents w) : Added w₀ row documents w where
  rows := hsame.db ▸ h.rows
  fresh := hsame.db ▸ h.fresh
  wf := h.wf
  minted := hsame.minted ▸ h.minted
  blobs := hsame.blobs ▸ h.blobs

/-- What is added stays added. -/
theorem Added.same {w₀ w₁ : World} {row : ExecutionRow} {documents : List Artifact} (h : Added w₀ row documents w)
    (hsame : SameContent w w₁) : Added w₀ row documents w₁ where
  rows := hsame.db.symm ▸ h.rows
  fresh := h.fresh
  wf := hsame.db.symm ▸ h.wf
  minted := hsame.minted.trans h.minted
  blobs := hsame.blobs.trans h.blobs

/-- On a miss the row is saved and the client called; what follows decides the rest. -/
theorem safe_execute_miss {Q : Except PyExc MlExecution → World → Prop} (hmiss : IsMiss service command identity w)
    (hsame : ∀ r w₁ w₂,SameContent w₁ w₂ → Q r w₁ → Q r w₂)
    (h : ∀ id w' row,Added w row [] w' →
      IsRunRow (inProgressExecution service identity id command) .inProgress [] row → row.tokenUsage=none →
      Safe (Answers locks noFaults thread) (fun _ => True) Q
        ((match client with
          | .ok result => (pure result : ServiceM Command ClientRunResult)
          | .error e => clientRaised (inProgressExecution service identity id command) e) >>= fun result =>
          if service.shouldPersist command result.succeeded=true then
            recordStored service fingerprint identity.generateKey command
              (inProgressExecution service identity id command) result
          else recordUnstored service fingerprint identity.generateKey command
            (inProgressExecution service identity id command) result) w') :
    Safe (replyingRun Command locks thread client) (fun _ => True)
      (fun r s => Q r s.1 ∧ s.2.calledClient=true) (execute service fingerprint command) (w,RunTrace.blank) := by
  refine safe_execute (fun _ _ _ _ hs => hs.1) hmiss.built hmiss.cacheable hmiss.mode hmiss.depth
    (safe_run_fresh hmiss.absent hsame (fun w₁ t hcontent => ?_) _)
  have hminted : ∀ r∈w₁.db.executions,r.executionId∈w₁.minted := by
    rw [hcontent.db,hcontent.minted]
    exact hmiss.minted
  exact safe_runAndRecord hmiss.plain (hcontent.db.symm ▸ hmiss.wf) hminted hmiss.client hmiss.model
    (fun id w' row hadded => h id w' row (hadded.rebase hcontent)) t

/-- A success to be stored is recorded. -/
theorem safe_execute_stored {result : ClientRunResult} (hmiss : IsMiss service command identity w)
    (hstorable : IsStorable fingerprint result) (hsuccess : result.outcome=.success)
    (hpersist : service.shouldPersist command result.succeeded=true) :
    Safe (replyingRun Command locks thread (.ok result)) (fun _ => True)
      (fun r s => Recorded service fingerprint command identity result w r s.1 ∧ s.2.calledClient=true)
      (execute service fingerprint command) (w,RunTrace.blank) := by
  refine safe_execute_miss hmiss ?_ fun id w' row hadded hrow husage => ?_
  · rintro r w₁ w₂ hcontent ⟨id,documents,row,hbuild,hr,hadded,hpromoted⟩
    exact ⟨id,documents,row,hbuild,hr,hadded.same hcontent,hpromoted⟩
  · obtain ⟨documents,hbuild,hinsert⟩ := hstorable.documents id .pending
    show Safe _ _ _ (if service.shouldPersist command result.succeeded=true then _ else _) w'
    rw [if_pos hpersist]
    refine (safe_recordStored hmiss.plain hadded hrow husage hmiss.absent hsuccess hstorable.code hstorable.usage
      hbuild hinsert identity.generateKey).mono fun r w₁ _ hr => ?_
    obtain ⟨hreturned,row',hadded',hpromoted⟩ := hr
    exact ⟨id,documents,row',hbuild,hreturned,hadded',hpromoted⟩

/-- A result that is not to be stored is returned only. -/
theorem safe_execute_unstored {result : ClientRunResult} (hmiss : IsMiss service command identity w)
    (hstorable : IsStorable fingerprint result) (hpersist : service.shouldPersist command result.succeeded=false) :
    Safe (replyingRun Command locks thread (.ok result)) (fun _ => True)
      (fun r s => Displayed service fingerprint command identity result w r s.1 ∧ s.2.calledClient=true)
      (execute service fingerprint command) (w,RunTrace.blank) := by
  refine safe_execute_miss hmiss ?_ fun id w' row hadded hrow husage => ?_
  · rintro r w₁ w₂ hcontent ⟨id,documents,hbuild,hr,row,hadded,hcurrent⟩
    exact ⟨id,documents,hbuild,hr,row,hadded.same hcontent,hcurrent⟩
  · obtain ⟨documents,hbuild,_⟩ := hstorable.documents id .stored
    show Safe _ _ _ (if service.shouldPersist command result.succeeded=true then _ else _) w'
    rw [hpersist,if_neg Bool.false_ne_true]
    refine (safe_recordUnstored hadded hrow husage hstorable.code hstorable.usage hbuild
      identity.generateKey).mono fun r w₁ _ hr => ?_
    exact ⟨id,documents,hbuild,hr.1,hr.2⟩

/-- A client that raised leaves nothing to serve. -/
theorem safe_execute_raised {e : PyExc} (hmiss : IsMiss service command identity w) (he : e.isInterrupt=false) :
    Safe (replyingRun Command locks thread (.error e)) (fun _ => True)
      (fun r s => ((∃ e',r=.error e') ∧ Unserved w s.1) ∧ s.2.calledClient=true)
      (execute service fingerprint command) (w,RunTrace.blank) := by
  refine safe_execute_miss (Q := fun r w' => (∃ e',r=.error e') ∧ Unserved w w') hmiss ?_
    fun id w' row hadded hrow husage => ?_
  · rintro r w₁ w₂ hcontent ⟨hr,row,hadded,hcurrent⟩
    exact ⟨hr,row,hadded.same hcontent,hcurrent⟩
  · refine Safe.seq (safe_clientRaised hadded hrow he) (fun _ _ _ hr => ?_) fun e' w₁ _ hr => ⟨⟨e',rfl⟩,hr.2⟩
    obtain ⟨⟨e',he'⟩,_⟩ := hr
    exact nomatch he'

/-- A plain cacheable call of a key whose current row has its blobs, over a sound store. -/
structure IsHit (service : CachedMlExecutionService Command) (command : Command) (identity : CallIdentity)
    (row : ExecutionRow) (w : World) : Prop where
  /-- It is plain. -/
  plain : IsPlain service command
  /-- Its identity is built. -/
  built : service.buildIdentity command=.ok identity
  /-- It is not kept out of the cache. -/
  cacheable : service.isUncacheable command=false
  /-- It reads the cache first. -/
  mode : service.cacheMode command=.cache
  /-- Its output is stored. -/
  depth : (service.persistenceDepth command).storesOutput=true
  /-- Its key serves the row. -/
  current : w.db.currentRow identity.generateKey=some row
  /-- The database is well formed. -/
  wf : WellFormed w.db
  /-- The row's blobs are in the store. -/
  blobs : ∀ a∈row.artifacts,∀ blobKey,a.blobKey=.value blobKey → (w.blobs.get blobKey).isSome=true

/-- The row's execution is returned with the contents of its blobs. -/
def Replayed (row : ExecutionRow) (w : World) (r : Except PyExc MlExecution) : Prop :=
  ∃ current served,loadExecution w.db row=.ok current ∧ r=.ok { current with artifacts := served } ∧
    Hydrated w.blobs current.artifacts served

/-- A hit is served without a call of the client, and changes no content. -/
theorem safe_execute_hit {row : ExecutionRow} (hhit : IsHit service command identity row w) :
    Safe (replyingRun Command locks thread client) (fun _ => True)
      (fun r s => (Replayed row w r ∧ SameContent w s.1) ∧ s.2.calledClient=false)
      (execute service fingerprint command) (w,RunTrace.blank) := by
  obtain ⟨current,hload,hfound⟩ := findCurrent_of_row hhit.wf hhit.current
  have hblobs : ∀ a∈current.artifacts,(w.blobs.get a.blobKey).isSome=true := by
    intro a ha
    refine hhit.blobs (artifactRow a) ?_ a.blobKey rfl
    rw [(loadExecution_ok hload).2.1]
    exact List.mem_map_of_mem ha
  have hhydrate : Safe (Answers locks noFaults thread) (fun _ => True)
      (fun r w' => w'=w ∧ ∃ served,r=.ok { current with artifacts := served } ∧
        Hydrated w.blobs current.artifacts served) (hydrate current : ServiceM Command MlExecution) w := by
    refine Safe.seq ((safe_hydrate hblobs).crash fun _ _ => trivial) (fun artifacts w' _ hr => ?_)
      fun e w' _ hr => ?_
    · obtain ⟨hw,served,hserved,hall⟩ := hr
      cases Except.ok.inj hserved
      exact Safe.pure trivial ⟨hw,_,rfl,hall⟩
    · obtain ⟨_,served,hserved,_⟩ := hr
      exact nomatch hserved
  have hserve : Safe (Answers locks noFaults thread) (fun _ => True)
      (fun r w' => SameContent w w' ∧ ∃ served,r=.ok { current with artifacts := served } ∧
        Hydrated w.blobs current.artifacts served)
      (serveHit service fingerprint identity.generateKey command current) w := by
    refine Safe.seq hhydrate (fun hydrated w' _ hr => ?_) fun e w' _ hr => ?_
    · obtain ⟨rfl,served,hserved,hall⟩ := hr
      cases Except.ok.inj hserved
      refine Safe.seq (safe_still rfl) (fun _ w'' _ hr => ?_) fun e w'' _ hr => ?_
      · unfold applyTags accumulateInput
        rw [hhit.plain.tags,hhit.plain.input]
        exact Safe.pure trivial ⟨hr.2,served,rfl,hall⟩
      · obtain ⟨a,ha⟩ := hr.1
        exact nomatch ha
    · obtain ⟨_,served,hserved,_⟩ := hr
      exact nomatch hserved
  have hcurrent : Safe (Answers locks noFaults thread) (fun _ => True)
      (fun r w' => SameContent w w' ∧ ∃ served,r=.ok (some { current with artifacts := served }) ∧
        Hydrated w.blobs current.artifacts served)
      (serveCurrentIfHealthy service fingerprint identity.generateKey command) w := by
    refine safe_serve_found hfound trivial (hserve.mono ?_)
    rintro r w' _ ⟨hcontent,served,rfl,hall⟩
    exact ⟨hcontent,served,rfl,hall⟩
  have hquiet : Safe (watchedRun Command locks thread) (fun _ => True) (fun _ s => s.2.calledClient=false)
      (serveCurrentIfHealthy service fingerprint identity.generateKey command) (w,RunTrace.blank) :=
    Follows.safe (Q := fun _ (t : RunTrace) => t.calledClient=false) _ (follows_serving
      (serving_serveCurrentIfHealthy service fingerprint identity.generateKey command) (t := RunTrace.blank) rfl)
  have hboth := (hcurrent.observed watchRun (s := (w,RunTrace.blank))).and hquiet
  refine safe_execute (fun _ _ _ _ hs => hs.1) hhit.built hhit.cacheable hhit.mode hhit.depth
    (Safe.seq ((hboth.crash fun _ _ => trivial).narrow fun _ _ _ _ hs => hs.1) (fun found s _ hr => ?_) fun e s _ hr => ?_)
  · obtain ⟨_,⟨hcontent,served,hsome,hall⟩,hcalled⟩ := hr
    cases Except.ok.inj hsome
    exact Safe.pure trivial ⟨⟨⟨current,served,hload,rfl,hall⟩,hcontent⟩,hcalled⟩
  · obtain ⟨_,⟨_,served,hsome,_⟩,_⟩ := hr
    exact nomatch hsome

end Runs

end GenericMlCache.UndisturbedRecordings
