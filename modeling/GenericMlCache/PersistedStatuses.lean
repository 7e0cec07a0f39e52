import GenericMlCache.KeyedMarks
import GenericMlCache.ServiceOperations

/-!
# The statuses of a run's documents

Persisting a document inserts its row, writes its blob and marks the row. The
mark names the blob key and not the row, and documents of one run with equal
content share a key. So the rows say what the returned documents say exactly
where documents that share a key fared alike.
-/

namespace GenericMlCache.PersistedStatuses

open CallProgram PythonText ExecutionModel SqliteStore ExecutionRepository RepositoryCalls ServicePorts
  CachedExecution ServiceOperations KeyedMarks

variable {Command : Type}

/-- The part of `_record_stored` from its documents to the finalize. -/
def persistAndFinalize (executionId : ExecutionId) (documents : List Artifact) :
    ServiceM Command (List Artifact × Bool) := do
  let (resolved,allStored) ← withContentWriteLock (persistDocuments executionId documents)
  if allStored=true then
    let _ ← store (.finalizeOutputPersisted executionId)
    return (resolved,allStored)
  else return (resolved,allStored)

/-- What failed of a document, if anything. -/
inductive DocumentFault where
  | clean
  /-- Its blob was not written. -/
  | put
  /-- Its blob was written, and the mark failed. -/
  | mark
deriving DecidableEq

/-- The status the failure leaves, or none where nothing is marked. -/
def DocumentFault.fate : DocumentFault → Option ArtifactStatus
  | .clean => some .stored
  | .put => some .failed
  | .mark => none

/-- Note what fails of each document: the last one's blob, or its mark. -/
def watchFaults (call : Call Command) (r : Except PyExc call.Ret) (faults : List DocumentFault) : List DocumentFault :=
  match call,r.isOk with
  | .store (.persistArtifact _ _),_ => faults ++ [.clean]
  | .blobPut _ _,false => faults.dropLast ++ [.put]
  | .store (.markArtifactsStored _ _),false => faults.dropLast ++ [.mark]
  | _,_ => faults

/-- Documents that share a blob key fared alike, as far as the later one was marked. -/
def FaredAlike (documents : List Artifact) (faults : List DocumentFault) : Prop :=
  (documents.zip faults).Pairwise fun d d' => d.1.blobKey=d'.1.blobKey → d'.2≠.mark → d.2=d'.2

instance (documents : List Artifact) (faults : List DocumentFault) : Decidable (FaredAlike documents faults) := by
  unfold FaredAlike
  infer_instance

/-- The blob key and the status of each artifact row. -/
def rowMarks (row : ExecutionRow) : List (Column BlobKey × Column ArtifactStatus) :=
  row.artifacts.map fun a => (a.blobKey,a.status)

/-- The run's row, with these artifact rows. -/
def Stands (id : ExecutionId) (persisted : Bool) (marks : List (Column BlobKey × Column ArtifactStatus)) (db : Db) : Prop :=
  ∃ row,db.findRow id=some row ∧ row.outputPersisted=persisted ∧ rowMarks row=marks

/-- An update of the run's row is found as such. -/
theorem findRow_updateWhere {db : Db} {id : ExecutionId} {row : ExecutionRow} (h : db.findRow id=some row)
    (f : MutableColumns → MutableColumns) : (db.updateWhere (hasId id) f).findRow id=some (row.update f) := by
  obtain ⟨hmem,hid⟩ := Db.findRow_eq_some.mp h
  exact Db.findRow_eq_some.mpr ⟨Db.mem_updateWhere_of hmem (by simpa using hid),hid⟩

section Rows
variable {id : ExecutionId} {persisted : Bool} {marks : List (Column BlobKey × Column ArtifactStatus)} {db db' : Db}

/-- A persisted artifact is the last row. -/
theorem Stands.persistArtifact (h : Stands id persisted marks db) {artifact : Artifact}
    (hrun : persistArtifact id artifact db=.ok db') :
    Stands id persisted (marks ++ [(.value artifact.blobKey,.value artifact.status)]) db' := by
  obtain ⟨row,hrow,hpersisted,hmarks⟩ := h
  obtain ⟨_,rfl⟩ := persistArtifact_ok hrun
  refine ⟨_,findRow_updateWhere hrow _,hpersisted,?_⟩
  rw [← hmarks]
  exact List.map_append

/-- A mark reaches every row under its key. -/
theorem Stands.mark (h : Stands id persisted marks db) {blobKey : BlobKey} {mark : ArtifactRow → ArtifactRow}
    {status : ArtifactStatus} (hrun : markArtifacts id blobKey mark db=.ok db')
    (hmark : ∀ a,(mark a).blobKey=a.blobKey ∧ (mark a).status=.value status) :
    Stands id persisted (markKey (.value blobKey) (.value status) marks) db' := by
  obtain ⟨row,hrow,hpersisted,hmarks⟩ := h
  obtain ⟨_,rfl⟩ := markArtifacts_ok hrun
  refine ⟨_,findRow_updateWhere hrow _,hpersisted,?_⟩
  rw [← hmarks]
  unfold rowMarks markKey
  show ((row.artifacts.map fun a => if a.blobKey=.value blobKey then mark a else a).map _)=_
  rw [List.map_map,List.map_map]
  refine List.map_congr_left fun a _ => ?_
  by_cases hkey : a.blobKey=.value blobKey
  · simp [hkey,hmark a]
  · simp [hkey]

end Rows

section Runs
variable {locks : LockMode} {faults : Faults Command} {thread : ThreadId}

/-- The run beside the monitor of its failures. -/
abbrev Watched (locks : LockMode) (faults : Faults Command) (thread : ThreadId) :
    Sem (Call Command) Call.Ret PyExc (World × List DocumentFault) :=
  observed (Answers locks faults thread) watchFaults

/-- A watched call that leaves the database. -/
theorem watched_db {call : Call Command} (hstore : ∀ storeCall,call≠.store storeCall) {s s' : World × List DocumentFault}
    {r : Except PyExc call.Ret} (h : Watched locks faults thread call s r s') : s'.1.db=s.1.db := by
  obtain ⟨hanswer,_⟩ := h
  generalize hw : s.1=w at hanswer
  generalize hw' : s'.1=w' at hanswer
  cases hanswer with
  | commit now ht => exact absurd rfl (hstore _)
  | reject now ht => exact absurd rfl (hstore _)
  | _ => rfl

/-- A stored blob resolves its document, and the rows under its key with it. -/
theorem safe_storeBlob {id : ExecutionId} {persisted : Bool} {marks : List (Column BlobKey × Column ArtifactStatus)}
    (artifact : Artifact) {s : World × List DocumentFault} {before : List DocumentFault}
    (hstands : Stands id persisted marks s.1.db) (hbefore : s.2=before ++ [.clean]) :
    Safe (Watched locks faults thread) (fun _ => True) (fun r s' => ∀ stored,r=.ok stored →
      ∃ fault : DocumentFault,s'.2=before ++ [fault] ∧ stored.status=fault.fate.getD .pending ∧
        Stands id persisted (match fault.fate with
          | some status => markKey (.value artifact.blobKey) (.value status) marks
          | none => marks) s'.1.db)
      (storeBlob id artifact : ServiceM Command Artifact) s := by
  have hdrop : ∀ fault : DocumentFault,(before ++ [DocumentFault.clean]).dropLast ++ [fault]=before ++ [fault] := by
    intro fault
    rw [List.dropLast_concat]
  have hput : Safe (Watched locks faults thread) (fun _ => True)
      (fun r s' => Stands id persisted marks s'.1.db ∧ s'.2=before ++ [if r.isOk=true then DocumentFault.clean else .put])
      (ask (.blobPut artifact.blobKey (artifact.content.getD [])) : ServiceM Command Unit) s := by
    refine Safe.perform trivial fun r s' hr => ⟨trivial,?_,?_⟩
    · have hcall : ∀ storeCall,(.blobPut artifact.blobKey (artifact.content.getD []) : Call Command)≠.store storeCall :=
        fun _ hc => nomatch hc
      rw [watched_db hcall hr]
      exact hstands
    · rw [hr.2,hbefore]
      cases r with
      | ok _ => rfl
      | error e => exact hdrop .put
  refine Safe.attempt_seq hput fun r s₁ _ hr => ?_
  obtain ⟨hstands₁,hwatch₁⟩ := hr
  cases r with
  | error e =>
    -- The put failed: the document is marked failed, or the error passes.
    refine Safe.ite (fun _ => ?_) fun _ => Safe.raise trivial fun _ h => nomatch h
    refine Safe.perform_bind trivial (fun a s₂ hans => ?_) fun e s₂ _ => ⟨trivial,fun _ h => nomatch h⟩
    obtain ⟨hanswer,hwatch⟩ := hans
    rcases answers_store hanswer with ⟨now,a,db,ht,_,hw⟩ | ⟨e',he',_⟩
    · refine Safe.pure trivial fun stored hstored => ?_
      cases Except.ok.inj hstored
      obtain ⟨_,_,hmark⟩ := ok_of_bind (commit_ok.mp ht)
      refine ⟨.put,hwatch.trans hwatch₁,rfl,?_⟩
      rw [hw]
      exact hstands₁.mark hmark fun a => ⟨rfl,rfl⟩
    · exact nomatch he'
  | ok _ =>
    have hmark : Safe (Watched locks faults thread) (fun _ => True)
        (fun r s' => match r with
          | .ok _ => s'.2=before ++ [.clean] ∧
              Stands id persisted (markKey (.value artifact.blobKey) (.value .stored) marks) s'.1.db
          | .error _ => s'.2=before ++ [.mark] ∧ Stands id persisted marks s'.1.db)
        (store (.markArtifactsStored id artifact.blobKey) : ServiceM Command Unit) s₁ := by
      refine Safe.perform trivial fun r s₂ hans => ⟨trivial,?_⟩
      obtain ⟨hanswer,hwatch⟩ := hans
      rcases answers_store hanswer with ⟨now,a,db,ht,rfl,hw⟩ | ⟨e',rfl,hw,_⟩
      · refine ⟨hwatch.trans hwatch₁,?_⟩
        rw [hw]
        exact hstands₁.mark (commit_ok.mp ht) fun a => ⟨rfl,rfl⟩
      · refine ⟨?_,?_⟩
        · rw [hwatch,hwatch₁]
          exact hdrop .mark
        · rw [hw]
          exact hstands₁
    refine Safe.attempt_seq hmark fun r s₂ _ hr => ?_
    cases r with
    | error e =>
      refine Safe.ite (fun _ => ?_) fun _ => Safe.raise trivial fun _ h => nomatch h
      refine Safe.pure trivial fun stored hstored => ?_
      cases Except.ok.inj hstored
      exact ⟨.mark,hr.1,rfl,hr.2⟩
    | ok _ =>
      refine Safe.pure trivial fun stored hstored => ?_
      cases Except.ok.inj hstored
      exact ⟨.clean,hr.1,rfl,hr.2⟩

/-- Each document under its key, with the mark it was given. -/
def marksOf (documents : List Artifact) (faults : List DocumentFault) :
    List (Column BlobKey × Option (Column ArtifactStatus)) :=
  (documents.zip faults).map fun d => (.value d.1.blobKey,d.2.fate.map .value)

/-- A document is stored exactly where nothing failed. -/
theorem fate_stored_iff (fault : DocumentFault) : fault.fate.getD .pending=.stored ↔ fault=.clean := by
  cases fault <;> decide

/-- What persisting the documents returns, notes and leaves. -/
structure Resolved (id : ExecutionId) (persisted : Bool) (marks : List (Column BlobKey × Column ArtifactStatus))
    (before : List DocumentFault) (documents resolved : List Artifact) (allStored : Bool) (fates : List DocumentFault)
    (s : World × List DocumentFault) : Prop where
  /-- The fates are noted. -/
  noted : s.2=before ++ fates
  /-- There is one for each document. -/
  length : fates.length=documents.length
  /-- They are the statuses returned. -/
  returned : resolved.map (·.status)=fates.map fun fault => fault.fate.getD .pending
  /-- All are stored exactly where no fault was met. -/
  allStored_eq : allStored=fates.all fun fault => decide (fault=.clean)
  /-- The rows are marked accordingly. -/
  rows : Stands id persisted ((marksOf documents fates).foldl (addMarked (.value .pending)) marks) s.1.db

/-- The loop over the documents. -/
theorem safe_persistDocuments {id : ExecutionId} {persisted : Bool} {documents : List Artifact}
    (hpending : ∀ d∈documents,d.status=.pending) {marks : List (Column BlobKey × Column ArtifactStatus)}
    {s : World × List DocumentFault} (hstands : Stands id persisted marks s.1.db) :
    Safe (Watched locks faults thread) (fun _ => True) (fun r s' => ∀ resolved allStored,r=.ok (resolved,allStored) →
      ∃ fates,Resolved id persisted marks s.2 documents resolved allStored fates s')
      (persistDocuments id documents : ServiceM Command (List Artifact × Bool)) s := by
  induction documents generalizing marks s with
  | nil =>
    refine Safe.pure trivial fun resolved allStored h => ?_
    cases Except.ok.inj h
    refine ⟨[],?_,rfl,rfl,rfl,hstands⟩
    exact (List.append_nil _).symm
  | cons document rest ih =>
    have hrest : ∀ d∈rest,d.status=.pending := fun d hd => hpending d (List.mem_cons_of_mem _ hd)
    refine Safe.perform_bind trivial (fun a s₁ hans => ?_) fun e s₁ _ => ⟨trivial,fun _ _ h => nomatch h⟩
    obtain ⟨hanswer,hwatch⟩ := hans
    rcases answers_store hanswer with ⟨now,a,db,ht,_,hw⟩ | ⟨e',he',_⟩
    · have hrow := hstands.persistArtifact (commit_ok.mp ht)
      rw [hpending document List.mem_cons_self] at hrow
      have hdb : s₁.1.db=db := by rw [hw]
      rw [← hdb] at hrow
      refine Safe.seq (safe_storeBlob document hrow hwatch) (fun stored s₂ _ hstored => ?_)
        fun e s₂ _ _ _ _ h => nomatch h
      obtain ⟨fault,hnoted,hstatus,hrows⟩ := hstored stored rfl
      refine Safe.seq (ih hrest hrows) (fun pair s₃ _ hpair => ?_) fun e s₃ _ _ _ _ h => nomatch h
      obtain ⟨resolved,allStored⟩ := pair
      obtain ⟨fates,hresolved⟩ := hpair resolved allStored rfl
      refine Safe.pure trivial fun resolved' allStored' h => ?_
      cases Except.ok.inj h
      refine ⟨fault::fates,?_,?_,?_,?_,?_⟩
      · rw [hresolved.noted,hnoted,List.append_assoc,List.singleton_append]
      · rw [List.length_cons,List.length_cons,hresolved.length]
      · rw [List.map_cons,List.map_cons,hstatus,hresolved.returned]
      · rw [List.all_cons,← hresolved.allStored_eq,hstatus]
        simp only [fate_stored_iff]
      · have hstep : addMarked (.value .pending) marks (.value document.blobKey,fault.fate.map .value)=
            match fault.fate with
            | some status => markKey (.value document.blobKey) (.value status)
                (marks ++ [(.value document.blobKey,.value .pending)])
            | none => marks ++ [(.value document.blobKey,.value .pending)] := by
          cases fault <;> rfl
        show Stands id persisted ((marksOf rest fates).foldl _ (addMarked _ marks _)) s₃.1.db
        rw [hstep]
        exact hresolved.rows
    · exact nomatch he'

/-- A call that leaves the database and no note. -/
theorem safe_quiet {call : Call Command} (hstore : ∀ storeCall,call≠.store storeCall)
    (hquiet : ∀ r fates,watchFaults call r fates=fates) (s : World × List DocumentFault) :
    Safe (Watched locks faults thread) (fun _ => True) (fun _ s' => s'.1.db=s.1.db ∧ s'.2=s.2)
      (ask call : ServiceM Command call.Ret) s := by
  refine Safe.perform trivial fun r s' hr => ⟨trivial,watched_db hstore hr,?_⟩
  rw [hr.2,hquiet]

/-- The documents under the content lock. -/
theorem safe_lockedDocuments {id : ExecutionId} {persisted : Bool} {documents : List Artifact}
    (hpending : ∀ d∈documents,d.status=.pending) {marks : List (Column BlobKey × Column ArtifactStatus)}
    {s : World × List DocumentFault} (hstands : Stands id persisted marks s.1.db) :
    Safe (Watched locks faults thread) (fun _ => True) (fun r s' => ∀ resolved allStored,r=.ok (resolved,allStored) →
      ∃ fates,Resolved id persisted marks s.2 documents resolved allStored fates s')
      (withContentWriteLock (persistDocuments id documents) : ServiceM Command (List Artifact × Bool)) s := by
  have hacquire : ∀ storeCall,(.acquireShared : Call Command)≠.store storeCall := fun _ hc => nomatch hc
  have hrelease : ∀ storeCall,(.releaseShared : Call Command)≠.store storeCall := fun _ hc => nomatch hc
  refine Safe.seq (safe_quiet hacquire (fun _ _ => rfl) s) (fun _ s₁ _ h₁ => ?_) fun e s₁ _ _ _ _ h => nomatch h
  have hstands₁ : Stands id persisted marks s₁.1.db := by
    rw [h₁.1]
    exact hstands
  refine Safe.ensure ((safe_persistDocuments hpending hstands₁).mono fun r s₂ _ hr => ?_)
  refine (safe_quiet hrelease (fun _ _ => rfl) s₂).mono fun c s₃ _ h₃ => ?_
  cases c with
  | error e => exact fun _ _ h => nomatch h
  | ok _ =>
    intro resolved allStored h
    obtain ⟨fates,hresolved⟩ := hr resolved allStored h
    rw [h₁.2] at hresolved
    refine ⟨fates,h₃.2.trans hresolved.noted,hresolved.length,hresolved.returned,hresolved.allStored_eq,?_⟩
    rw [h₃.1]
    exact hresolved.rows

end Runs

/-- The returned statuses are the rows', and the run is finalized exactly where every row is stored. -/
def StatusesReturned (id : ExecutionId) (resolved : List Artifact) (db : Db) : Prop :=
  ∃ row,db.findRow id=some row ∧ row.artifacts.map (·.status)=resolved.map (fun a => .value a.status) ∧
    (row.outputPersisted=true ↔ ∀ a∈row.artifacts,a.status=.value .stored)

/-- Marks agree where documents fared alike. -/
theorem agree_iff_faredAlike (documents : List Artifact) (fates : List DocumentFault) :
    (marksOf documents fates).Pairwise Agree ↔ FaredAlike documents fates := by
  unfold marksOf FaredAlike
  rw [List.pairwise_map]
  refine iff_of_eq (congrArg (fun rel => List.Pairwise rel (documents.zip fates)) ?_)
  funext d d'
  refine propext (imp_congr ⟨fun h => Column.value.inj h,fun h => by rw [h]⟩ ?_)
  obtain ⟨_,fault⟩ := d
  obtain ⟨_,fault'⟩ := d'
  cases fault <;> cases fault' <;> simp [DocumentFault.fate]

/-- The statuses of the marks, document by document. -/
theorem map_marksOf {documents : List Artifact} {fates : List DocumentFault} (h : fates.length=documents.length) :
    (marksOf documents fates).map (fun item => item.2.getD (.value .pending))=
      fates.map fun fault => .value (fault.fate.getD .pending) := by
  unfold marksOf
  rw [List.map_map]
  have hsnd : (documents.zip fates).map (·.2)=fates := List.map_snd_zip (by omega)
  conv_rhs => rw [← hsnd,List.map_map]
  refine List.map_congr_left fun d _ => ?_
  obtain ⟨_,fault⟩ := d
  cases fault <;> rfl

/-- What finalizing leaves of the row of a run not promoted yet. -/
theorem Stands.finalize {id : ExecutionId} {marks : List (Column BlobKey × Column ArtifactStatus)} {now : Timestamp}
    {db db' : Db} (h : Stands id false marks db) (hrun : finalizeOutputPersisted id now db=.ok db') :
    Stands id true marks db' := by
  obtain ⟨row,hrow,hopen,hmarks⟩ := h
  obtain ⟨row',hmem',hid',_,rfl⟩ := finalizeOutputPersisted_ok hrun
  cases Option.some.inj (hrow.symm.trans (Db.findRow_eq_some.mpr ⟨hmem',hid'⟩))
  -- The row is not current yet, so superseding leaves it.
  have hkept : (if row.state=.value .success then supersedePriorCurrent db row.executionKey now else db).findRow id=
      some row := by
    split
    · refine Db.findRow_eq_some.mpr ⟨Db.mem_updateWhere_of_not hmem' ?_,hid'⟩
      simp [isCurrent,MutableColumns.servable,hopen]
    · exact hrow
  exact ⟨_,findRow_updateWhere hkept _,rfl,hmarks⟩

section Runs
variable {locks : LockMode} {faults : Faults Command} {thread : ThreadId} {id : ExecutionId} {documents : List Artifact}

/-- The documents, and the finalize where all are stored. -/
theorem safe_persistAndFinalize (hpending : ∀ d∈documents,d.status=.pending) {s : World × List DocumentFault}
    (hstands : Stands id false [] s.1.db) (hnoted : s.2=[]) :
    Safe (Watched locks faults thread) (fun _ => True) (fun r s' => ∀ resolved allStored,r=.ok (resolved,allStored) →
      s'.2.length=documents.length ∧ resolved.map (·.status)=s'.2.map (fun fault => fault.fate.getD .pending) ∧
      Stands id (s'.2.all fun fault => decide (fault=.clean)) (settledItems (.value .pending) (marksOf documents s'.2))
        s'.1.db)
      (persistAndFinalize id documents : ServiceM Command (List Artifact × Bool)) s := by
  refine Safe.seq (safe_lockedDocuments hpending hstands) (fun pair s₁ _ hpair => ?_) fun e s₁ _ _ _ _ h => nomatch h
  obtain ⟨resolved,allStored⟩ := pair
  obtain ⟨fates,hresolved⟩ := hpair resolved allStored rfl
  have hfates : s₁.2=fates := by
    rw [hresolved.noted,hnoted,List.nil_append]
  have hrows : Stands id false (settledItems (.value .pending) (marksOf documents fates)) s₁.1.db := by
    have hrows := hresolved.rows
    rw [foldl_addMarked] at hrows
    exact hrows
  refine Safe.ite (fun hall => ?_) fun hnot => ?_
  · refine Safe.perform_bind trivial (fun a s₂ hans => ?_) fun e s₂ _ => ⟨trivial,fun _ _ h => nomatch h⟩
    obtain ⟨hanswer,hwatch⟩ := hans
    rcases answers_store hanswer with ⟨now,a,db,ht,_,hw⟩ | ⟨e',he',_⟩
    · refine Safe.pure trivial fun resolved' allStored' h => ?_
      cases Except.ok.inj h
      have hsame : s₂.2=fates := hwatch.trans hfates
      rw [hsame,← hresolved.allStored_eq,hall]
      refine ⟨hresolved.length,hresolved.returned,?_⟩
      rw [hw]
      exact hrows.finalize (commit_ok.mp ht)
    · exact nomatch he'
  · refine Safe.pure trivial fun resolved' allStored' h => ?_
    cases Except.ok.inj h
    rw [hfates,← hresolved.allStored_eq]
    refine ⟨hresolved.length,hresolved.returned,?_⟩
    simpa [hnot] using hrows

/-- The returned statuses are the stored ones, and decide the finalize, exactly where documents of
one blob key fared alike. -/
theorem statuses_returned_iff {w : World} {row : ExecutionRow} (hrow : w.db.findRow id=some row)
    (hnone : row.artifacts=[]) (hopen : row.outputPersisted=false) (hpending : ∀ d∈documents,d.status=.pending)
    {resolved : List Artifact} {allStored : Bool} {s' : World × List DocumentFault}
    (hrun : Ends (Watched locks faults thread) (persistAndFinalize id documents : ServiceM Command (List Artifact × Bool))
      (w,[]) (.ok (resolved,allStored)) s') :
    StatusesReturned id resolved s'.1.db ↔ FaredAlike documents s'.2 := by
  have hstands : Stands id false [] w.db := ⟨row,hrow,hopen,by rw [rowMarks,hnone]; rfl⟩
  have hresult := (safe_persistAndFinalize hpending hstands rfl).result hrun
  obtain ⟨hlength,hreturned,row',hrow',hfinalized,hmarks⟩ := hresult resolved allStored rfl
  have hstatuses : row'.artifacts.map (·.status)=
      (settledItems (.value .pending) (marksOf documents s'.2)).map (·.2) := by
    rw [← hmarks,rowMarks,List.map_map]
    rfl
  have hresolved : resolved.map (fun a => Column.value a.status)=
      (marksOf documents s'.2).map fun item => item.2.getD (.value .pending) := by
    have hvalues := congrArg (List.map (@Column.value ArtifactStatus)) hreturned
    rw [List.map_map,List.map_map] at hvalues
    rw [map_marksOf hlength]
    exact hvalues
  have hfirst : ∀ item∈marksOf documents s'.2,item.2≠some (.value .pending) := by
    intro item hitem
    obtain ⟨⟨_,fault⟩,_,rfl⟩ := List.mem_map.mp hitem
    cases fault <;> simp [DocumentFault.fate]
  rw [← agree_iff_faredAlike,← settledItems_eq_iff hfirst,← hstatuses,← hresolved]
  constructor
  · rintro ⟨found,hfound,hsame,_⟩
    cases Option.some.inj (hfound.symm.trans hrow')
    exact hsame
  · intro hsame
    refine ⟨row',hrow',hsame,?_⟩
    have hrows : (∀ a∈row'.artifacts,a.status=.value .stored) ↔
        ∀ status∈resolved.map (fun a => Column.value a.status),status=.value .stored := by
      rw [← hsame]
      simp only [List.mem_map,forall_exists_index,and_imp,forall_apply_eq_imp_iff₂]
    have hfates : resolved.map (fun a => Column.value a.status)=
        s'.2.map fun fault => .value (fault.fate.getD .pending) := by
      rw [hresolved,map_marksOf hlength]
    rw [hfinalized,hrows,hfates,List.all_eq_true]
    simp only [List.mem_map,forall_exists_index,and_imp,forall_apply_eq_imp_iff₂,Column.value.injEq,fate_stored_iff,
      decide_eq_true_eq]

/-- The row of a run in progress. -/
def runningRow : ExecutionRow where
  state := .value .success
  outputPersisted := false
  supersededAt := none
  failureReason := none
  failureMessage := none
  failureExitCode := none
  artifacts := []
  tokenUsage := none
  tags := []
  id := 1
  executionKey := ⟨7⟩
  kind := .value .localManaged
  createdAt := 0
  executionId := ⟨1⟩

/-- A store with that run alone. -/
def runningWorld : World :=
  { World.empty with db := ⟨[runningRow],[],List.pairwise_singleton _ _,List.pairwise_singleton _ _,Db.empty.identityKeysUnique⟩ }

/-- Empty output and empty errors: two documents of one blob key. -/
def emptyOutput : List Artifact :=
  [makeArtifact List.length ⟨1⟩ .stdout none [] .pending,makeArtifact List.length ⟨1⟩ .stderr none [] .pending]

/-- They are to be stored. -/
theorem emptyOutput_pending : ∀ d∈emptyOutput,d.status=.pending := by decide +kernel

/-- The documents are persisted, and the `n`-th call raises. -/
def faultedPersist (n : ℕ) : Prog (Call SmallestCommand) Call.Ret PyExc (List Artifact × Bool) ×
    (World × List DocumentFault) :=
  drive ((answersWithFault n 1 (.other true []) 10 2).map fun handler => handler.watched watchFaults)
    (persistAndFinalize ⟨1⟩ emptyOutput) (runningWorld,[])

/-- It is a run. -/
theorem faultedPersist_reach (n : ℕ) : Reach (Watched .exclusive (fun _ _ => True) 0)
    (persistAndFinalize ⟨1⟩ emptyOutput) (runningWorld,[]) (faultedPersist n).1 (faultedPersist n).2 :=
  drive_watched _ (answersWithFault_respect n 1 (fun _ _ => trivial) 10 2) watchFaults _ _

/-- Where the second mark fails, the rows say what is returned. -/
theorem statuses_returned_failedMark : ∃ resolved,(faultedPersist 6).1.value=some (resolved,false) ∧
    StatusesReturned ⟨1⟩ resolved (faultedPersist 6).2.1.db := by
  have hvalue : ((faultedPersist 6).1.value.map (·.2))=some false := by decide +kernel
  obtain ⟨⟨resolved,allStored⟩,hresult,hall⟩ := Option.map_eq_some_iff.mp hvalue
  cases hall
  have hrun := faultedPersist_reach 6
  rw [Prog.value_eq_some.mp hresult] at hrun
  have hiff := statuses_returned_iff (show runningWorld.db.findRow ⟨1⟩=some runningRow from rfl) rfl rfl
    emptyOutput_pending hrun
  exact ⟨resolved,hresult,hiff.mpr (by decide +kernel)⟩

/-- Where the second put fails, the first document is returned as stored and its row is failed. -/
theorem statuses_returned_fails : ¬ ∀ (resolved : List Artifact) (allStored : Bool) (s' : World × List DocumentFault),
    Ends (Watched .exclusive (fun _ _ => True) 0)
      (persistAndFinalize ⟨1⟩ emptyOutput : ServiceM SmallestCommand (List Artifact × Bool)) (runningWorld,[])
      (.ok (resolved,allStored)) s' →
    StatusesReturned ⟨1⟩ resolved s'.1.db := by
  intro hall
  have hvalue : ((faultedPersist 5).1.value.map fun pair => pair.1.map (·.status))=some [.stored,.failed] := by
    decide +kernel
  obtain ⟨⟨resolved,allStored⟩,hresult,hstatuses⟩ := Option.map_eq_some_iff.mp hvalue
  have hrun := faultedPersist_reach 5
  rw [Prog.value_eq_some.mp hresult] at hrun
  obtain ⟨row,hrow,hsame,_⟩ := hall _ _ _ hrun
  have hrows : ((faultedPersist 5).2.1.db.findRow ⟨1⟩).map (fun r => r.artifacts.map (·.status))=
      some [.value .failed,.value .failed] := by decide +kernel
  rw [hrow,Option.map_some,hsame] at hrows
  have hreturned : resolved.map (fun a => Column.value a.status)=[.value .stored,.value .failed] := by
    have hvalues := congrArg (List.map (@Column.value ArtifactStatus)) hstatuses
    rw [List.map_map] at hvalues
    exact hvalues
  rw [hreturned] at hrows
  exact absurd (Option.some.inj hrows) (by decide)

end Runs

end GenericMlCache.PersistedStatuses
