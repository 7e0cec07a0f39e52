import GenericMlCache.UndisturbedRecordings

/-!
# Recordings that stop anywhere

A process may die at any call of a cacheable run that records a success. What it leaves
is the store as it was, or one more row: without documents, with some of them stored, with
one more attached whose blob is or is not put, or promoted with all of them.
-/

namespace GenericMlCache.CrashedRecordings

open CallProgram CallAutomaton PythonText ExecutionModel SqliteStore ExecutionRepository ExecutionQueries
  RepositoryCalls ServicePorts StorePurge CachedExecution ServiceAutomaton StoreSoundness ExecuteCalls
  UndisturbedRuns AnsweredRuns UndisturbedRecordings

/-- Where a recording stopped. -/
inductive CutPoint where
  /-- Before the outcome. -/
  | running
  /-- With these documents stored and no other attached. -/
  | between (done : List Artifact)
  /-- With one more attached that was not put; its blob may be there all the same, where
  another document has its content. -/
  | attached (done : List Artifact) (next : Artifact) (present : Bool)
  /-- With one more put that was not marked. -/
  | put (done : List Artifact) (next : Artifact)
  /-- Behind finalize. -/
  | served

/-- The row of a run with some documents stored and one more attached. -/
structure IsAttached (execution : MlExecution) (done : List Artifact) (next : Artifact) (row : ExecutionRow) : Prop where
  /-- The row is the run's, with the one more. -/
  run : IsRunRow execution .success (done ++ [next]) row
  /-- The others are marked stored. -/
  split : ∃ marked,row.artifacts=marked ++ [artifactRow next] ∧ ∀ a∈marked,a.status=.value .stored

/-- A world that a recording leaves where it stops. -/
inductive CutAt (w₀ : World) (execution : MlExecution) (documents : List Artifact) : CutPoint → World → Prop where
  | running {row : ExecutionRow} {w : World} (hadded : Added w₀ row [] w)
      (hrow : IsRunRow execution .inProgress [] row) : CutAt w₀ execution documents .running w
  | between {done rest : List Artifact} {w : World} (hsplit : documents=done ++ rest)
      (hstores : StoresAll w₀ execution .success done w) : CutAt w₀ execution documents (.between done) w
  | attached {done rest : List Artifact} {next : Artifact} {row : ExecutionRow} {w : World}
      (hsplit : documents=done ++ next::rest) (hadded : Added w₀ row done w) (hrow : IsAttached execution done next row) :
      CutAt w₀ execution documents (.attached done next (w.blobs.get next.blobKey).isSome) w
  | put {done rest : List Artifact} {next : Artifact} {row : ExecutionRow} {w : World}
      (hsplit : documents=done ++ next::rest) (hadded : Added w₀ row (done ++ [next]) w)
      (hrow : IsAttached execution done next row) : CutAt w₀ execution documents (.put done next) w
  | served {row : ExecutionRow} {w : World} (hadded : Added w₀ row documents w)
      (hpromoted : IsPromoted execution documents row) : CutAt w₀ execution documents .served w

section Steps
variable {Command : Type} {locks : LockMode} {thread : ThreadId} {w₀ w w' : World} {row : ExecutionRow}
  {execution : MlExecution} {documents : List Artifact} {C : World → Prop}

/-- A last call that leaves what the crash condition allows. -/
theorem safe_cut {call : Call Command} {Q : Except PyExc call.Ret → World → Prop}
    (h : Safe (Answers locks noFaults thread) (fun _ => True) Q (ask call) w) (hc : C w)
    (hnext : ∀ r w',Q r w' → C w') : Safe (Answers locks noFaults thread) C Q (ask call) w :=
  Safe.perform hc fun r w' hans => ⟨hnext r w' (h.2 r w' hans).2,(h.2 r w' hans).2⟩

/-- A cut is seen in the same content. -/
theorem CutAt.same {point : CutPoint} (h : CutAt w₀ execution documents point w) (hsame : SameContent w w') :
    CutAt w₀ execution documents point w' := by
  cases h with
  | running hadded hrow => exact .running (hadded.same hsame) hrow
  | between hsplit hstores => exact .between hsplit (hstores.same hsame)
  | attached hsplit hadded hrow =>
    rw [← hsame.blobs]
    exact .attached hsplit (hadded.same hsame) hrow
  | put hsplit hadded hrow => exact .put hsplit (hadded.same hsame) hrow
  | served hadded hpromoted => exact .served (hadded.same hsame) hpromoted

/-- One document is stored, or the recording stops on the way. -/
theorem safe_storeDocument_cut {done rest : List Artifact} {document : Artifact}
    (h : StoresAll w₀ execution .success done w) (hsplit : documents=done ++ document::rest)
    (hC : ∀ point w,CutAt w₀ execution documents point w → C w)
    (hinsert : insertArtifacts [document]=.ok [artifactRow document]) :
    Safe (Answers locks noFaults thread) C
      (fun r w' => r=.ok { document with status := .stored } ∧ StoresAll w₀ execution .success (done ++ [document]) w')
      (store (.persistArtifact execution.executionId document) >>= fun _ =>
        (storeBlob execution.executionId document : ServiceM Command Artifact)) w := by
  obtain ⟨row,hadded,hrow⟩ := h
  have hid : row.executionId=execution.executionId := hrow.1.id
  have hattached : IsAttached execution done document (row.update (withArtifacts [artifactRow document])) :=
    ⟨hrow.1.persist,row.artifacts,rfl,hrow.2⟩
  have hpersist : Safe (Answers locks noFaults thread) C
      (fun r w' => (∃ a,r=.ok a) ∧ Added w₀ (row.update (withArtifacts [artifactRow document])) done w')
      (store (.persistArtifact execution.executionId document) : ServiceM Command Unit) w := by
    refine safe_cut (safe_commit fun now => ?_) (hC _ _ (.between hsplit ⟨row,hadded,hrow⟩))
      fun _ _ hr => hC _ _ (.attached hsplit hr.2 hattached)
    have hdb : persistArtifact execution.executionId document w.db=.ok (w.db.updateWhere
        (hasId execution.executionId) (withArtifacts [artifactRow document])) := by
      unfold persistArtifact
      rw [findRow_last hadded.rows hid,hinsert]
      rfl
    have hcommit : transact now w.db (.persistArtifact execution.executionId document)=.ok ((),_) :=
      commit_ok.mpr hdb
    exact ⟨(),_,hcommit,hadded.update hid (transact_wellFormed hadded.wf hcommit)⟩
  refine Safe.seq hpersist (fun _ w₁ hc₁ hadded => ?_) fun e w₁ _ hadded => ?_
  · obtain ⟨_,hadded⟩ := hadded
    have hput : Safe (Answers locks noFaults thread) C
        (fun r w' => (∃ a,r=.ok a) ∧
          Added w₀ (row.update (withArtifacts [artifactRow document])) (done ++ [document]) w')
        (ask (.blobPut document.blobKey (document.content.getD [])) : ServiceM Command Unit) w₁ := by
      refine safe_cut (Safe.perform trivial fun r w₂ hans => ⟨trivial,?_⟩) hc₁
        fun _ _ hr => hC _ _ (.put hsplit hr.2 hattached)
      cases hans with
      | fault _ hf => exact hf.elim
      | blobPut =>
        refine ⟨⟨(),rfl⟩,hadded.rows,hadded.fresh,hadded.wf,hadded.minted,?_⟩
        show w₁.blobs.put document.blobKey (document.content.getD [])=_
        rw [hadded.blobs]
        unfold putDocuments
        rw [List.foldl_append]
        rfl
    refine Safe.attempt_seq hput fun r w₂ hc₂ hr => ?_
    obtain ⟨⟨_,rfl⟩,hadded⟩ := hr
    have hrest : documents=(done ++ [document]) ++ rest := by rw [hsplit,List.append_assoc,List.singleton_append]
    have hmark : Safe (Answers locks noFaults thread) C
        (fun r w' => (∃ a,r=.ok a) ∧ StoresAll w₀ execution .success (done ++ [document]) w')
        (store (.markArtifactsStored execution.executionId document.blobKey) : ServiceM Command Unit) w₂ := by
      refine safe_cut (safe_commit fun now => ?_) hc₂ fun _ _ hr => hC _ _ (.between hrest hr.2)
      have hmem : row.update (withArtifacts [artifactRow document])∈w₂.db.executions := by
        rw [hadded.rows]
        exact List.mem_append_right _ (List.mem_singleton_self _)
      have hnamed : ∃ a∈(row.update (withArtifacts [artifactRow document])).artifacts,
          a.blobKey=.value document.blobKey :=
        ⟨artifactRow document,List.mem_append_right _ (List.mem_singleton_self _),rfl⟩
      have hdb := markArtifacts_of (storedMark now) hmem hid hnamed
      have hcommit : transact now w₂.db (.markArtifactsStored execution.executionId document.blobKey)=.ok ((),_) :=
        commit_ok.mpr hdb
      refine ⟨(),_,hcommit,_,hadded.update hid (transact_wellFormed hadded.wf hcommit),?_⟩
      refine ⟨hattached.run.mark (keepsDocument_storedMark now),fun a ha => ?_⟩
      obtain ⟨a₀,ha₀,rfl⟩ := List.mem_map.mp ha
      split
      · rfl
      next hother =>
        rcases List.mem_append.mp ha₀ with hold | hnew
        · exact hrow.2 a₀ hold
        · rw [List.mem_singleton.mp hnew] at hother
          exact absurd rfl hother
    refine Safe.attempt_seq hmark fun r w₃ hc₃ hr => ?_
    obtain ⟨⟨_,rfl⟩,hstored⟩ := hr
    exact Safe.pure hc₃ ⟨rfl,hstored⟩
  · obtain ⟨⟨a,ha⟩,_⟩ := hadded
    exact nomatch ha

/-- Documents are stored one after another, or the recording stops on the way. -/
theorem safe_persistDocuments_cut {done todo : List Artifact} (h : StoresAll w₀ execution .success done w)
    (hsplit : documents=done ++ todo) (hC : ∀ point w,CutAt w₀ execution documents point w → C w)
    (hinsert : ∀ document∈todo,insertArtifacts [document]=.ok [artifactRow document]) :
    Safe (Answers locks noFaults thread) C
      (fun r w' => r=.ok (todo.map fun document => { document with status := .stored },true) ∧
        StoresAll w₀ execution .success documents w')
      (persistDocuments execution.executionId todo : ServiceM Command (List Artifact × Bool)) w := by
  induction todo generalizing done w with
  | nil =>
    rw [List.append_nil] at hsplit
    subst hsplit
    exact Safe.pure (hC _ _ (.between (List.append_nil _).symm h)) ⟨rfl,h⟩
  | cons document todo ih =>
    have hone : Safe (Answers locks noFaults thread) C
        (fun r w' => r=.ok { document with status := .stored } ∧
          StoresAll w₀ execution .success (done ++ [document]) w')
        (store (.persistArtifact execution.executionId document) >>= fun _ =>
          (storeBlob execution.executionId document : ServiceM Command Artifact)) w :=
      safe_storeDocument_cut h hsplit hC (hinsert document List.mem_cons_self)
    unfold persistDocuments
    rw [← bind_assoc]
    refine Safe.seq hone (fun stored w₁ _ hr => ?_) fun e w₁ _ hr => (by cases hr.1)
    obtain ⟨hstored,hnext⟩ := hr
    cases Except.ok.inj hstored
    have hrest := ih hnext (by rw [hsplit,List.append_assoc,List.singleton_append])
      fun d hd => hinsert d (List.mem_cons_of_mem _ hd)
    refine Safe.seq hrest (fun resolved w₂ hc₂ hr => ?_) fun e w₂ _ hr => (by cases hr.1)
    obtain ⟨hresolved,hall⟩ := hr
    cases Except.ok.inj hresolved
    exact Safe.pure hc₂ ⟨rfl,hall⟩

/-- A call without effect leaves the recording where it is. -/
theorem safe_still_cut {call : Call Command} {point : CutPoint} (hstill : isStill call=true)
    (h : CutAt w₀ execution documents point w) (hC : ∀ point w,CutAt w₀ execution documents point w → C w) :
    Safe (Answers locks noFaults thread) C (fun r w' => (∃ a,r=.ok a) ∧ CutAt w₀ execution documents point w')
      (ask call) w :=
  safe_cut ((safe_still hstill).mono fun _ _ _ hr => ⟨hr.1,h.same hr.2⟩) (hC _ _ h) fun _ _ hr => hC _ _ hr.2

/-- Tags of the key change no more than the tags of the row that is served. -/
theorem safe_applyTags_cut {service : CachedMlExecutionService Command} {command : Command}
    (h : CutAt w₀ execution documents .served w) (hC : ∀ point w,CutAt w₀ execution documents point w → C w) :
    Safe (Answers locks noFaults thread) C (fun _ w' => CutAt w₀ execution documents .served w')
      (applyTags service execution.callIdentity.generateKey command) w := by
  refine Safe.ite (fun _ => Safe.pure (hC _ _ h) h) fun _ => ?_
  suffices hnext : Safe (Answers locks noFaults thread) (fun _ => True)
      (fun _ w' => CutAt w₀ execution documents .served w')
      (ask (.store (.addTags execution.callIdentity.generateKey (service.executionTags command))) :
        ServiceM Command Unit) w from safe_cut hnext (hC _ _ h) fun _ _ => hC _ _
  refine Safe.perform trivial fun r w' hans => ⟨trivial,?_⟩
  rcases answers_store hans with ⟨now,a,db,ht,rfl,rfl⟩ | ⟨e,rfl,rfl,_⟩
  · cases h with
    | @served row w hadded hpromoted =>
      have hcurrent : w.db.currentRow execution.callIdentity.generateKey=some row := by
        rw [currentRow_last hadded.rows,if_pos hpromoted.current]
      have hdb := commit_ok.mp ht
      have hwf := transact_wellFormed hadded.wf ht
      have htags : addTags execution.callIdentity.generateKey (service.executionTags command) w.db=.ok db := hdb
      unfold addTags at htags
      rw [hcurrent] at htags
      split at htags
      · cases htags
        exact .served hadded hpromoted
      · obtain ⟨_,_,hupdate⟩ := ok_of_bind htags
        cases hupdate
        refine .served (hadded.update rfl hwf) ⟨hpromoted.id,?_,hpromoted.artifacts⟩
        exact (isCurrent_iff _ _).mpr ((isCurrent_iff _ _).mp hpromoted.current)
  · exact h

end Steps

section Recording
variable {Command : Type} {locks : LockMode} {thread : ThreadId} {w₀ w : World} {C : World → Prop}
  {service : CachedMlExecutionService Command} {fingerprint : Bytes → Digest} {command : Command}
  {execution : MlExecution} {result : ClientRunResult} {identity : CallIdentity} {documents : List Artifact}

/-- The documents that a recording stores: the output, and at DATASET depth the input. -/
def Documents (service : CachedMlExecutionService Command) (fingerprint : Bytes → Digest) (command : Command)
    (result : ClientRunResult) (id : ExecutionId) (documents : List Artifact) : Prop :=
  ∃ outputs inputs,buildArtifacts fingerprint id result .pending=.ok outputs ∧
    recordedInput service fingerprint id command=.ok inputs ∧ documents=outputs ++ inputs

/-- A success is recorded, or the recording stops on the way. -/
theorem safe_recordStored_cut {row : ExecutionRow} (hquota : service.maxSize=none) (h : Added w₀ row [] w)
    (hrow : IsRunRow execution .inProgress [] row) (husage : row.tokenUsage=none)
    (habsent : w₀.db.currentRow execution.callIdentity.generateKey=none) (hsuccess : result.outcome=.success)
    (hcode : sqliteInteger result.exitCode=true) (hstorable : result.tokenUsage.all TokenUsage.storable=true)
    (hdocuments : Documents service fingerprint command result execution.executionId documents)
    (hinsert : ∀ document∈documents,insertArtifacts [document]=.ok [artifactRow document])
    (hC : ∀ point w,CutAt w₀ execution documents point w → C w) :
    Safe (Answers locks noFaults thread) C (fun _ _ => True)
      (recordStored service fingerprint execution.callIdentity.generateKey command execution result) w := by
  obtain ⟨outputs,inputs,hbuild,hinput,hsplit⟩ := hdocuments
  have houtcome : Safe (Answers locks noFaults thread) C
      (fun r w' => (∃ a,r=.ok a) ∧ StoresAll w₀ execution .success [] w')
      (store (.recordOutcome (withOutcome execution result)) : ServiceM Command Unit) w := by
    have hrecord : Safe (Answers locks noFaults thread) (fun _ => True)
        (fun r w' => (∃ a,r=.ok a) ∧ StoresAll w₀ execution result.outcome [] w')
        (store (.recordOutcome (withOutcome execution result)) : ServiceM Command Unit) w :=
      safe_recordOutcome h hrow husage hcode hstorable
    rw [hsuccess] at hrecord
    exact safe_cut hrecord (hC _ _ (.running h hrow)) fun _ _ hr => hC _ _ (.between (List.nil_append _).symm hr.2)
  refine Safe.seq houtcome (fun _ w₁ hc₁ hr => ?_) fun _ _ _ _ => trivial
  obtain ⟨_,hstores⟩ := hr
  have hbuild' : buildArtifacts fingerprint (withOutcome execution result).executionId result .pending=.ok outputs :=
    hbuild
  have hinput' : recordedInput service fingerprint (withOutcome execution result).executionId command=.ok inputs :=
    hinput
  rw [hbuild',ofExcept_ok_bind,hinput',ofExcept_ok_bind,← hsplit]
  have hpersisted : Safe (Answers locks noFaults thread) C
      (fun r w' => r=.ok (documents.map fun document => { document with status := .stored },true) ∧
        StoresAll w₀ execution .success documents w')
      (withContentWriteLock (persistDocuments execution.executionId documents :
        ServiceM Command (List Artifact × Bool))) w₁ := by
    have hshared : Safe (Answers locks noFaults thread) C
        (fun r w' => (∃ a,r=.ok a) ∧ CutAt w₀ execution documents (.between []) w')
        (ask .acquireShared : ServiceM Command Unit) w₁ :=
      safe_still_cut rfl (.between (List.nil_append _).symm hstores) hC
    refine Safe.seq hshared (fun _ w₂ _ hr => ?_) fun e w₂ _ hr => ?_
    · have hstores₂ : StoresAll w₀ execution .success [] w₂ := by
        cases hr.2 with
        | between _ h => exact h
      refine Safe.ensure ((safe_persistDocuments_cut hstores₂ (List.nil_append _).symm hC hinsert).mono
        fun r w₃ _ hr => ?_)
      obtain ⟨rfl,hall⟩ := hr
      refine (safe_still_cut rfl (.between (List.append_nil _).symm hall) hC).mono fun c w₄ _ hc => ?_
      obtain ⟨⟨_,rfl⟩,hcut⟩ := hc
      cases hcut with
      | between _ h => exact ⟨rfl,h⟩
    · obtain ⟨a,ha⟩ := hr.1
      exact nomatch ha
  refine Safe.seq hpersisted (fun resolved w₂ hc₂ hr => ?_) fun _ _ _ _ => trivial
  obtain ⟨hresolved,hall⟩ := hr
  cases Except.ok.inj hresolved
  have hconclude : Safe (Answers locks noFaults thread) C (fun _ _ => True)
      (concludeRecording service execution.callIdentity.generateKey command execution.executionId true) w₂ := by
    have hpromote : Safe (Answers locks noFaults thread) (fun _ => True)
        (fun r w' => (∃ a,r=.ok a) ∧ ∃ row,Added w₀ row documents w' ∧ IsPromoted execution documents row)
        (store (.finalizeOutputPersisted execution.executionId) : ServiceM Command Unit) w₂ := safe_finalize hall habsent
    refine Safe.seq (safe_cut hpromote hc₂ fun _ w₃ ⟨_,_,hadded,hpromoted⟩ => hC .served w₃ (.served hadded hpromoted))
      (fun _ w₃ _ hr => ?_) fun _ _ _ _ => trivial
    obtain ⟨_,row',hadded,hpromoted⟩ := hr
    refine Safe.seq (safe_still_cut rfl (.served hadded hpromoted) hC) (fun _ w₄ _ hr => ?_) fun _ _ _ _ => trivial
    refine Safe.seq (safe_applyTags_cut hr.2 hC) (fun _ w₅ hc₅ hr => ?_) fun _ _ _ _ => trivial
    unfold afterRecord
    rw [hquota]
    exact Safe.pure hc₅ trivial
  exact Safe.seq hconclude (fun _ _ hc _ => Safe.pure hc trivial) fun _ _ _ _ => trivial

/-- A call that records over a sound store: of a key without a current row, without a quota. -/
structure IsFresh (service : CachedMlExecutionService Command) (command : Command) (identity : CallIdentity)
    (w : World) : Prop where
  /-- There is no quota. -/
  quota : service.maxSize=none
  /-- This is the identity built for it. -/
  built : service.buildIdentity command=.ok identity
  /-- It does not bypass the cache. -/
  cacheable : service.isUncacheable command=false
  /-- It may replay. -/
  mode : service.cacheMode command=.cache
  /-- It stores output. -/
  depth : (service.persistenceDepth command).storesOutput=true
  /-- The client's name can be bound. -/
  client : bindText identity.summaryClient=.ok ()
  /-- So can the model's. -/
  model : bindText identity.summaryModel=.ok ()
  /-- The key has no current row. -/
  absent : w.db.currentRow identity.generateKey=none
  /-- Every row of the store is well formed. -/
  wf : WellFormed w.db
  /-- Every stored id was minted. -/
  minted : ∀ r∈w.db.executions,r.executionId∈w.minted

/-- A success that is to be stored, with documents that fit the store. -/
structure IsKept (service : CachedMlExecutionService Command) (fingerprint : Bytes → Digest) (command : Command)
    (result : ClientRunResult) : Prop where
  /-- The run succeeded. -/
  success : result.outcome=.success
  /-- Its output is to be stored. -/
  persist : service.shouldPersist command result.succeeded=true
  /-- Its exit code fits its column. -/
  code : sqliteInteger result.exitCode=true
  /-- So does its usage. -/
  usage : result.tokenUsage.all TokenUsage.storable=true
  /-- Every document has a row, whatever id is minted. -/
  documents : ∀ id,∃ documents,Documents service fingerprint command result id documents ∧
    ∀ document∈documents,insertArtifacts [document]=.ok [artifactRow document]

/-- A world that the call may leave behind: nothing changed but the ids drawn, or its recording
stopped somewhere. -/
def LeftBehind (service : CachedMlExecutionService Command) (fingerprint : Bytes → Digest) (command : Command)
    (identity : CallIdentity) (result : ClientRunResult) (w₀ w : World) : Prop :=
  (w.db=w₀.db ∧ w.blobs=w₀.blobs) ∨ ∃ id documents point,Documents service fingerprint command result id documents ∧
    CutAt w₀ (inProgressExecution service identity id command) documents point w

/-- What is left behind from the same content is left behind from the content. -/
theorem LeftBehind.rebase {w₁ : World} (hsame : SameContent w₀ w₁)
    (h : LeftBehind service fingerprint command identity result w₁ w) :
    LeftBehind service fingerprint command identity result w₀ w := by
  rcases h with ⟨hdb,hblobs⟩ | ⟨id,documents,point,hdocuments,hcut⟩
  · exact .inl ⟨hdb.trans hsame.db,hblobs.trans hsame.blobs⟩
  · refine .inr ⟨id,documents,point,hdocuments,?_⟩
    have hstores : ∀ {done : List Artifact} {w : World},
        StoresAll w₁ (inProgressExecution service identity id command) .success done w →
        StoresAll w₀ (inProgressExecution service identity id command) .success done w :=
      fun ⟨row,hadded,hrow⟩ => ⟨row,hadded.rebase hsame,hrow⟩
    cases hcut with
    | running hadded hrow => exact .running (hadded.rebase hsame) hrow
    | between hsplit h => exact .between hsplit (hstores h)
    | attached hsplit hadded hrow => exact .attached hsplit (hadded.rebase hsame) hrow
    | put hsplit hadded hrow => exact .put hsplit (hadded.rebase hsame) hrow
    | served hadded hpromoted => exact .served (hadded.rebase hsame) hpromoted

/-- What is left behind is seen in the same content. -/
theorem LeftBehind.same {w₁ : World} (hsame : SameContent w w₁)
    (h : LeftBehind service fingerprint command identity result w₀ w) :
    LeftBehind service fingerprint command identity result w₀ w₁ := by
  rcases h with ⟨hdb,hblobs⟩ | ⟨id,documents,point,hdocuments,hcut⟩
  · exact .inl ⟨hsame.db.trans hdb,hsame.blobs.trans hblobs⟩
  · exact .inr ⟨id,documents,point,hdocuments,hcut.same hsame⟩

/-- What every client leaves behind, the given one does, with a watch. -/
theorem safe_replying_cut {α : Type} {client : Except PyExc ClientRunResult} {Q : Except PyExc α → World → Prop}
    {p : ServiceM Command α} (t : RunTrace) (h : Safe (Answers locks noFaults thread) C Q p w) :
    Safe (replyingRun Command locks thread client) (fun s => C s.1) (fun r s => Q r s.1) p (w,t) :=
  (h.observed watchRun (s := (w,t))).narrow fun _ _ _ _ hs => hs.1

/-- The run in progress is saved, the client called and its success recorded. -/
theorem safe_runAndRecord_cut (hkept : IsKept service fingerprint command result) (hquota : service.maxSize=none)
    (habsent : w.db.currentRow identity.generateKey=none) (hwf : WellFormed w.db)
    (hminted : ∀ r∈w.db.executions,r.executionId∈w.minted) (hclient : bindText identity.summaryClient=.ok ())
    (hmodel : bindText identity.summaryModel=.ok ()) (t : RunTrace) :
    Safe (replyingRun Command locks thread (.ok result))
      (fun s => LeftBehind service fingerprint command identity result w s.1) (fun _ _ => True)
      (runAndRecord service fingerprint identity command) (w,t) := by
  have hstart : LeftBehind service fingerprint command identity result w w := .inl ⟨rfl,rfl⟩
  have hgate : Safe (Answers locks noFaults thread)
      (fun w' => LeftBehind service fingerprint command identity result w w') (fun _ w' => w'=w)
      (blobHealthGate service command) w := by
    refine Safe.ite (fun _ => ?_) fun _ => Safe.pure hstart rfl
    refine Safe.perform hstart fun r w' hans => ?_
    cases hans with
    | fault _ hf => exact hf.elim
    | blobIsHealthy => exact ⟨hstart,rfl⟩
  refine Safe.seq (safe_replying_cut t hgate) (fun healthy s _ hr => ?_) fun _ _ _ _ => trivial
  obtain ⟨w₁,t₁⟩ := s
  have hr : w=w₁ := hr.symm
  subst hr
  refine Safe.ite (fun _ => ?_) fun _ => Safe.raise hstart trivial
  refine Safe.perform_bind hstart (fun id s hans => ?_) fun e s hans => ?_
  · obtain ⟨w₁,t₁⟩ := s
    obtain ⟨⟨hans,_⟩,_⟩ := hans
    cases hans with
    | newExecutionId id hid =>
      have hfresh : ∀ r∈w.db.executions,r.executionId≠id := fun r hr heq => hid (heq ▸ hminted r hr)
      have hprogress : IsInProgress (inProgressExecution service identity id command) := ⟨rfl,rfl,rfl,rfl,rfl,rfl⟩
      obtain ⟨documents,hdocuments,hinsert⟩ := hkept.documents id
      have hC : ∀ point w',CutAt w (inProgressExecution service identity id command) documents point w' →
          LeftBehind service fingerprint command identity result w w' :=
        fun point w' hcut => .inr ⟨id,documents,point,hdocuments,hcut⟩
      have hsaved : Safe (Answers locks noFaults thread)
          (fun w' => LeftBehind service fingerprint command identity result w w')
          (fun r w' => (∃ a,r=.ok a) ∧ ∃ row,Added w row [] w' ∧
            IsRunRow (inProgressExecution service identity id command) .inProgress [] row ∧ row.tokenUsage=none)
          (store (.save (inProgressExecution service identity id command)) : ServiceM Command Unit)
          { w with minted := id::w.minted } := by
        have hsave : Safe (Answers locks noFaults thread) (fun _ => True)
            (fun r w' => (∃ a,r=.ok a) ∧ w'.blobs=w.blobs ∧ w'.minted=id::w.minted ∧ WellFormed w'.db ∧
              ∃ rowId now,w'.db.executions=w.db.executions ++ [insertedRow rowId identity.generateKey
                (inProgressExecution service identity id command) now [] none])
            (store (.save (inProgressExecution service identity id command)) : ServiceM Command Unit)
            { w with minted := id::w.minted } := safe_save hwf hprogress hfresh hclient hmodel
        refine safe_cut (hsave.mono fun r w₂ _ hr => ?_) (.inl ⟨rfl,rfl⟩)
          fun _ w₂ ⟨_,row,hadded,hrow,_⟩ => hC _ _ (.running hadded hrow)
        obtain ⟨hok,hblobs,hids,hwf₂,rowId,now,hrows⟩ := hr
        exact ⟨hok,_,⟨hrows,hfresh,hwf₂,hids,hblobs⟩,⟨rfl,rfl,rfl,rfl,rfl,.nil⟩,rfl⟩
      refine Safe.seq (safe_replying_cut _ hsaved) (fun _ s _ hr => ?_) fun _ _ _ _ => trivial
      obtain ⟨w₂,t₂⟩ := s
      obtain ⟨_,row,hadded,hrow,husage⟩ := hr
      refine ⟨hC _ _ (.running hadded hrow),fun r s hans => ?_⟩
      obtain ⟨w₃,t₃⟩ := s
      obtain ⟨⟨hans,_⟩,hr⟩ := hans
      have hr : r=.ok result := hr
      have hw : w₃=w₂ := by
        cases hans <;> rfl
      subst hr hw
      show Safe _ _ _ (if service.shouldPersist command result.succeeded=true then _ else _) (w₃,t₃)
      rw [if_pos hkept.persist]
      exact safe_replying_cut t₃ (safe_recordStored_cut hquota hadded hrow husage habsent hkept.success hkept.code
        hkept.usage hdocuments hinsert hC)
  · obtain ⟨⟨hans,_⟩,_⟩ := hans
    cases hans with
    | fault _ hf => exact hf.elim

/-- Whatever call a recorded success stops at, what it leaves behind is its recording up to there. -/
theorem safe_execute_cut (hfresh : IsFresh service command identity w)
    (hkept : IsKept service fingerprint command result) :
    Safe (replyingRun Command locks thread (.ok result))
      (fun s => LeftBehind service fingerprint command identity result w s.1) (fun _ _ => True)
      (execute service fingerprint command) (w,RunTrace.blank) := by
  have hunchanged : ∀ {w₁ : World},SameContent w w₁ → LeftBehind service fingerprint command identity result w w₁ :=
    fun hsame => .inl ⟨hsame.db,hsame.blobs⟩
  have hmiss : ∀ w₁ t₁,SameContent w w₁ → Safe (replyingRun Command locks thread (.ok result))
      (fun s => LeftBehind service fingerprint command identity result w s.1)
      (fun r s => r=.ok none ∧ SameContent w s.1)
      (serveCurrentIfHealthy service fingerprint identity.generateKey command) (w₁,t₁) := by
    intro w₁ t₁ hcontent
    have hrow : w₁.db.currentRow identity.generateKey=none := by rw [hcontent.db]; exact hfresh.absent
    have hnone : Safe (Answers locks noFaults thread) (fun w₂ => w₂=w₁) (fun r _ => r=.ok none)
        (serveCurrentIfHealthy service fingerprint identity.generateKey command) w₁ := safe_serve_absent hrow
    refine (safe_replying_cut t₁ (hnone.crash fun w₂ h => ?_)).mono fun r s _ hr => ⟨hr.2,?_⟩
    · rw [h]
      exact hunchanged hcontent
    · rw [hr.1]
      exact hcontent
  have hrecord : ∀ w₁ t₁,SameContent w w₁ → Safe (replyingRun Command locks thread (.ok result))
      (fun s => LeftBehind service fingerprint command identity result w s.1) (fun _ _ => True)
      (runAndRecord service fingerprint identity command) (w₁,t₁) := by
    intro w₁ t₁ hcontent
    have hminted : ∀ r∈w₁.db.executions,r.executionId∈w₁.minted := by
      rw [hcontent.db,hcontent.minted]
      exact hfresh.minted
    refine ((safe_runAndRecord_cut hkept hfresh.quota ?_ (hcontent.db.symm ▸ hfresh.wf) hminted hfresh.client
      hfresh.model t₁).crash fun s hs => LeftBehind.rebase hcontent hs).mono fun _ _ _ _ => trivial
    rw [hcontent.db]
    exact hfresh.absent
  have hlocked : ∀ w₁ t₁,SameContent w w₁ → Safe (replyingRun Command locks thread (.ok result))
      (fun s => LeftBehind service fingerprint command identity result w s.1) (fun _ _ => True)
      (runFreshLocked service fingerprint identity command) (w₁,t₁) := by
    intro w₁ t₁ hcontent
    have hacquire : Safe (replyingRun Command locks thread (.ok result))
        (fun s => LeftBehind service fingerprint command identity result w s.1)
        (fun _ s => SameContent w s.1) (ask (.acquireKey identity.generateKey) : ServiceM Command Unit) (w₁,t₁) :=
      safe_replying_cut t₁ (Q := fun _ w₂ => SameContent w w₂) (safe_cut ((safe_still rfl).mono fun r w₂ _ hr =>
        hcontent.trans hr.2) (hunchanged hcontent) fun _ _ hr => hunchanged hr)
    refine Safe.seq hacquire (fun _ s _ hr => ?_) fun _ _ _ _ => trivial
    obtain ⟨w₂,t₂⟩ := s
    have hbody : Safe (replyingRun Command locks thread (.ok result))
        (fun s => LeftBehind service fingerprint command identity result w s.1) (fun _ _ => True)
        (if service.cacheMode command=.cache then
          serveCurrentIfHealthy service fingerprint identity.generateKey command >>=
            servedOrRun service fingerprint identity command
        else runAndRecord service fingerprint identity command) (w₂,t₂) := by
      refine Safe.ite (fun _ => ?_) fun _ => hrecord w₂ t₂ hr
      refine Safe.seq (hmiss w₂ t₂ hr) (fun found s _ hr => ?_) fun _ _ _ _ => trivial
      obtain ⟨w₃,t₃⟩ := s
      cases Except.ok.inj hr.1
      exact hrecord w₃ t₃ hr.2
    refine Safe.ensure (hbody.mono fun r s hc _ => ?_)
    obtain ⟨w₃,t₃⟩ := s
    have hrelease : Safe (replyingRun Command locks thread (.ok result))
        (fun s => LeftBehind service fingerprint command identity result w s.1)
        (fun _ s => LeftBehind service fingerprint command identity result w s.1)
        (ask (.releaseKey identity.generateKey) : ServiceM Command Unit) (w₃,t₃) :=
      safe_replying_cut t₃ (Q := fun _ w₄ => LeftBehind service fingerprint command identity result w w₄)
        (safe_cut ((safe_still rfl).mono fun r w₄ _ hr => LeftBehind.same hr.2 hc) hc fun _ _ hr => hr)
    exact hrelease.mono fun c _ _ _ => by cases c <;> trivial
  unfold execute
  rw [hfresh.built]
  refine Safe.ite (fun hun => ?_) fun _ => ?_
  · rw [hfresh.cacheable] at hun
    cases hun
  · unfold tokenGate executeCacheable
    rw [hfresh.mode]
    simp only [hfresh.depth,if_true]
    refine Safe.perform_bind (hunchanged ⟨rfl,rfl,rfl⟩) (fun _ s hans => ?_) fun e s hans => ?_
    · obtain ⟨w',t'⟩ := s
      obtain ⟨⟨hans,_⟩,_⟩ := hans
      cases hans with
      | ensureAvailableForContent =>
        refine Safe.seq (hmiss w t' ⟨rfl,rfl,rfl⟩) (fun found s _ hr => ?_) fun _ _ _ _ => trivial
        obtain ⟨w₁,t₁⟩ := s
        cases Except.ok.inj hr.1
        exact hlocked w₁ t₁ hr.2
    · obtain ⟨w',t'⟩ := s
      obtain ⟨⟨hans,_⟩,_⟩ := hans
      cases hans with
      | fault _ hf => exact hf.elim

end Recording

end GenericMlCache.CrashedRecordings
