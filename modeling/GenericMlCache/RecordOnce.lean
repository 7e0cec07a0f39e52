import GenericMlCache.FaithfulReplay
import GenericMlCache.RecordGate

/-!
# One record of a key

Any number of callers execute one command side by side. At most one of them is
in the key's lock past the point where nothing was current, and only that one
calls its client and records. While it does, nobody else holds anything of the
store; once it has finalized a success, everybody is answered from it.
-/

namespace GenericMlCache.RecordOnce

open CallProgram CallAutomaton PythonText ExecutionModel SqliteStore ExecutionRepository
  ExecutionQueries RepositoryCalls ServicePorts CachedExecution ServiceAutomaton ServiceConformance
  ServiceOperations StoreSoundness FaithfulReplay NestedLocks RecordGate

/-- The client's answers in their order, each with the caller it was given to. -/
abbrev ClientLog (ι : Type) := List (ι × Except PyExc ClientRunResult)

/-- Log the answers of a caller's client. -/
def watchClient {Command ι : Type} (i : ι) :
    (call : Call Command) → Except PyExc call.Ret → ClientLog ι → ClientLog ι
  | .runClient _,r,log => log ++ [((i,r) : ι × Except PyExc ClientRunResult)]
  | _,_,log => log

/-- Some caller's client gave the result. -/
def Logged {ι : Type} (log : ClientLog ι) (result : ClientRunResult) : Prop := ∃ i,(i,.ok result)∈log

/-- Other calls log nothing. -/
theorem watchClient_other {Command ι : Type} {i : ι} {call : Call Command}
    (h : ∀ command,call≠.runClient command) (r : Except PyExc call.Ret) (log : ClientLog ι) :
    watchClient i call r log=log := by
  cases call with
  | runClient command => exact absurd rfl (h command)
  | _ => rfl

/-- What is logged stays logged. -/
theorem mem_watchClient {Command ι : Type} {i : ι} (call : Call Command) (r : Except PyExc call.Ret)
    {log : ClientLog ι} {entry : ι × Except PyExc ClientRunResult} (h : entry∈log) :
    entry∈watchClient i call r log := by
  cases call with
  | runClient command => exact List.mem_append_left _ h
  | _ => exact h

/-- No execution of the key is current. -/
def Unserved (key : ExecutionKey) (w : World) : Prop :=
  ∀ row∈w.db.executions,row.executionKey=key → row.servable=false

/-- A row whose blobs are all in the store, with input documents where a hit would fill them in. -/
structure Complete (fills : Prop) (w : World) (row : ExecutionRow) : Prop where
  /-- Its blobs are all in the store. -/
  stored : ∀ a∈row.artifacts,∃ blobKey content,a.blobKey=.value blobKey ∧ w.blobs.get blobKey=some content
  /-- It has input documents where a hit would fill them in. -/
  input : fills → row.artifacts.any ArtifactRow.isInput=true

/-- A row that was current in the first store, or that records one of the client's answers. -/
def Traced {ι : Type} (fingerprint : Bytes → Digest) (first : Db) (log : ClientLog ι) (row : ExecutionRow) : Prop :=
  (∃ before∈first.executions,before.servable=true ∧ row.executionKey=before.executionKey) ∨
    ∃ result documents,Logged log result ∧ result.succeeded=true ∧
      IsRecordingOf fingerprint row.executionId result documents ∧ List.Forall₂ IsRowOf documents row.artifacts

/-- The store of the key is healthy: what is current is complete and of known origin. -/
def Healthy {ι : Type} (fingerprint : Bytes → Digest) (fills : Prop) (key : ExecutionKey) (first w : World)
    (log : ClientLog ι) : Prop :=
  ∀ row∈w.db.executions,row.executionKey=key → row.servable=true →
    Complete fills w row ∧ Traced fingerprint first.db log row

/-- No blob is lost. -/
def BlobsKept (w w' : World) : Prop :=
  ∀ blobKey,(∃ content,w.blobs.get blobKey=some content) → ∃ content,w'.blobs.get blobKey=some content

section Rows
variable {ι : Type} {fingerprint : Bytes → Digest} {fills : Prop} {key : ExecutionKey} {first w w' : World}
  {log log' : ClientLog ι}

/-- The same blobs are kept. -/
theorem BlobsKept.of_eq (h : w'.blobs=w.blobs) : BlobsKept w w' := fun blobKey hb => by rwa [h]

/-- A put loses no blob. -/
theorem BlobsKept.put (w : World) (blobKey : BlobKey) (content : Bytes) :
    BlobsKept w { w with blobs := w.blobs.put blobKey content } := by
  rintro other ⟨found,hget⟩
  simp only [BlobStore.get_put]
  split
  · exact ⟨content,rfl⟩
  · exact ⟨found,hget⟩

/-- The same documents have an input among them or not. -/
theorem any_isInput_of_same {rows rows' : List ArtifactRow} (h : List.Forall₂ SameDocument rows rows') :
    rows.any ArtifactRow.isInput=rows'.any ArtifactRow.isInput := by
  induction h with
  | nil => rfl
  | cons hab _ ih => simp only [List.any_cons,ih,ArtifactRow.isInput,hab.1]

/-- Retained rows are as complete as they were. -/
theorem Complete.mono {row before : ExecutionRow} (h : Complete fills w before) (hblobs : BlobsKept w w')
    (hdocs : List.Forall₂ SameDocument row.artifacts before.artifacts) : Complete fills w' row := by
  refine ⟨fun a ha => ?_,fun hfills => ?_⟩
  · obtain ⟨b,hb,hab⟩ := (mem_of_forall₂ hdocs).2 a ha
    obtain ⟨blobKey,content,hkey,hget⟩ := h.stored b hb
    obtain ⟨content',hget'⟩ := hblobs blobKey ⟨content,hget⟩
    exact ⟨blobKey,content',hab.2.2.trans hkey,hget'⟩
  · rw [any_isInput_of_same hdocs]
    exact h.input hfills

/-- Retained rows come from where they came from. -/
theorem Traced.mono {row before : ExecutionRow} (h : Traced fingerprint first.db log before)
    (hlog : ∀ entry∈log,entry∈log') (hid : row.executionId=before.executionId)
    (hkey : row.executionKey=before.executionKey)
    (hdocs : List.Forall₂ SameDocument row.artifacts before.artifacts) : Traced fingerprint first.db log' row := by
  rcases h with ⟨old,hold,hservable,hsame⟩ | ⟨result,documents,⟨i,hi⟩,hsuccess,hrecording,hrows⟩
  · exact Or.inl ⟨old,hold,hservable,hkey.trans hsame⟩
  · refine Or.inr ⟨result,documents,⟨i,hlog _ hi⟩,hsuccess,hid ▸ hrecording,?_⟩
    exact forall₂_trans (fun document a b hda hab => ⟨hab.1.trans hda.1,hab.2.1.trans hda.2.1,hab.2.2.trans hda.2.2⟩)
      hrows (hdocs.flip.imp fun _ _ hab => hab)

/-- Where rows are retained and no blob is lost, the key stays healthy. -/
theorem Healthy.mono (h : Healthy fingerprint fills key first w log) (hret : Retains w.db w'.db)
    (hblobs : BlobsKept w w') (hlog : ∀ entry∈log,entry∈log') :
    Healthy fingerprint fills key first w' log' := by
  intro row hrow hkey hservable
  obtain ⟨before,hmem,hserv,hid,hsame,hdocs⟩ := hret row hrow hservable
  obtain ⟨hcomplete,htraced⟩ := h before hmem (hsame.symm.trans hkey) hserv
  exact ⟨hcomplete.mono hblobs hdocs,htraced.mono hlog hid hsame hdocs⟩

/-- Where rows are retained, nothing becomes current. -/
theorem Unserved.mono (h : Unserved key w) (hret : Retains w.db w'.db) : Unserved key w' := by
  intro row hrow hkey
  by_contra hservable
  obtain ⟨before,hmem,hserv,_,hsame,_⟩ := hret row hrow (by simpa using hservable)
  rw [h before hmem (hsame.symm.trans hkey)] at hserv
  exact nomatch hserv

/-- Nothing is current where nothing was found. -/
theorem unserved_of_find (hs : Sound fingerprint w) (h : findCurrent key w.db=.ok none) : Unserved key w := by
  intro row hrow hkey
  by_contra hservable
  have hcurrent := hs.oneCurrent.currentRow hrow (by simpa using hservable)
  rw [hkey] at hcurrent
  unfold findCurrent at h
  rw [hcurrent] at h
  obtain ⟨_,_,h⟩ := ok_of_bind h
  exact nomatch h

end Rows

/-- The work of a caller that executes and does not purge or repair. -/
def Scope.executes : Scope := ⟨true,true,false,false⟩

/-- A caller that looks for an answer: it has read nothing, or the key's current execution. -/
def Seeking (key : ExecutionKey) : Task → Prop
  | .idle => True
  | .hydrating hit _ | .refetched hit _ _ => hit.key=key
  | _ => False

/-- A run of the key without token usage yet. -/
def Unmetered (w : World) (execution : MlExecution) : Prop :=
  ∃ row∈w.db.executions,row.executionId=execution.executionId ∧ row.tokenUsage=none

/-- Every artifact row of the execution is stored, but for those under some blob keys. -/
def MarkedBut (w : World) (id : ExecutionId) (pending : List BlobKey) : Prop :=
  ∀ row∈w.db.executions,row.executionId=id → ∀ a∈row.artifacts,
    a.status=.value .stored ∨ ∃ blobKey∈pending,a.blobKey=.value blobKey

/-- What a recording knows of its documents: the blobs of those stored, whether
an input document is among those inserted, and the marks where its answer must
be recorded. -/
structure Persisted {ι : Type} (must : ClientRunResult → Prop) (w : World) (log : ClientLog ι)
    (execution : MlExecution) (result : ClientRunResult) (input paid : Bool) (stored inserted : List Artifact)
    (pending : List BlobKey) (allStored : Bool) : Prop where
  /-- The answer is in the log. -/
  logged : Logged log result
  /-- A paid answer must be recorded. -/
  must : paid=true → must result
  /-- The documents persisted so far are stored. -/
  stored : allStored=true → Stored w stored
  /-- An input document noted is among those inserted. -/
  input : input=true → ∃ d∈inserted,d.artifactType.isInput=true
  /-- Of a paid answer nothing failed, and all but the pending blobs are marked. -/
  paid : paid=true → allStored=true ∧ MarkedBut w execution.executionId pending

/-- A caller that records, in the key's lock. -/
def Recorder {ι : Type} (key : ExecutionKey) (must : ClientRunResult → Prop) (w : World) (log : ClientLog ι)
    (input paid : Bool) : Task → Prop
  | .idle | .minted _ | .interrupted _ | .clientFailed _ => paid=false
  | .answered execution result => execution.callIdentity.generateKey=key ∧ Unmetered w execution ∧
      input=false ∧ Logged log result ∧ (paid=true → must result)
  | .recorded execution result => execution.callIdentity.generateKey=key ∧ input=false ∧ Logged log result ∧
      (paid=true → must result)
  | .persisting execution result done _ allStored => execution.callIdentity.generateKey=key ∧
      Persisted must w log execution result input paid done done [] allStored
  | .putting execution result done document _ allStored => execution.callIdentity.generateKey=key ∧
      Persisted must w log execution result input paid done (done ++ [document]) [document.blobKey] allStored
  | .marking execution result done document _ allStored => execution.callIdentity.generateKey=key ∧
      Persisted must w log execution result input paid (done ++ [document]) (done ++ [document])
        [document.blobKey] allStored
  | .failing execution result done document _ => execution.callIdentity.generateKey=key ∧ Logged log result ∧
      paid=false ∧ (input=true → ∃ d∈done ++ [document],d.artifactType.isInput=true)
  | _ => False

/-- Where a caller stands: it looks, or it is in the key's lock with nothing current. -/
def Standing {ι : Type} (key : ExecutionKey) (must : ClientRunResult → Prop) (w : World) (log : ClientLog ι)
    (task : Task) (φ : GatePhase) : Prop :=
  match φ.gate with
  | .free => Seeking key task
  | .clear input paid => key∈φ.held ∧ Unserved key w ∧ Recorder key must w log input paid task
  | .calling => key∈φ.held ∧ Unserved key w ∧ ∃ execution,task=.running execution ∧
      execution.callIdentity.generateKey=key ∧ Unmetered w execution
  | .lost => False

section Tasks
variable {ι : Type} {fingerprint : Bytes → Digest} {key : ExecutionKey} {must : ClientRunResult → Prop}
  {w w' : World} {log log' : ClientLog ι} {input paid : Bool} {task : Task}

/-- What a recording knows of its documents outlasts calls without effect on them. -/
theorem Persisted.sameStore {execution : MlExecution} {result : ClientRunResult} {stored inserted : List Artifact}
    {pending : List BlobKey} {allStored : Bool} (hsame : SameStore w w')
    (h : Persisted must w log execution result input paid stored inserted pending allStored) :
    Persisted must w' log execution result input paid stored inserted pending allStored := by
  refine ⟨h.logged,h.must,fun hall document hd => ?_,h.input,fun hpaid => ⟨(h.paid hpaid).1,?_⟩⟩
  · rw [hsame.blobs]
    exact h.stored hall document hd
  · exact hsame.forall_row (fun _ _ hp => hp) (h.paid hpaid).2

/-- A recorder knows what it knew after calls without effect on documents. -/
theorem Recorder.sameStore (hsame : SameStore w w') (h : Recorder key must w log input paid task) :
    Recorder key must w' log input paid task := by
  have hunmetered : ∀ execution,Unmetered w execution → Unmetered w' execution :=
    fun execution hu => hsame.exists_row (fun _ _ hp => hp) hu
  cases task with
  | answered execution result => exact ⟨h.1,hunmetered _ h.2.1,h.2.2⟩
  | persisting | putting | marking => exact ⟨h.1,h.2.sameStore hsame⟩
  | _ => exact h

/-- A recorder's answer stays logged. -/
theorem Recorder.grown (hlog : ∀ entry∈log,entry∈log') (h : Recorder key must w log input paid task) :
    Recorder key must w log' input paid task := by
  have hlogged : ∀ result,Logged log result → Logged log' result := fun result ⟨i,hi⟩ => ⟨i,hlog _ hi⟩
  cases task with
  | answered execution result => exact ⟨h.1,h.2.1,h.2.2.1,hlogged _ h.2.2.2.1,h.2.2.2.2⟩
  | recorded execution result => exact ⟨h.1,h.2.1,hlogged _ h.2.2.1,h.2.2.2⟩
  | persisting | putting | marking => exact ⟨h.1,hlogged _ h.2.logged,h.2.must,h.2.stored,h.2.input,h.2.paid⟩
  | failing => exact ⟨h.1,hlogged _ h.2.1,h.2.2⟩
  | _ => exact h

/-- Where a caller stands, it stands after calls without effect on documents. -/
theorem Standing.sameStore {φ : GatePhase} (hsame : SameStore w w') (hlog : ∀ entry∈log,entry∈log')
    (h : Standing key must w log task φ) : Standing key must w' log' task φ := by
  obtain ⟨held,gate⟩ := φ
  cases gate with
  | free => exact h
  | clear input paid => exact ⟨h.1,h.2.1.mono (retains_sameStore hsame),(h.2.2.sameStore hsame).grown hlog⟩
  | calling =>
    obtain ⟨hheld,hunserved,execution,htask,hkey,hunmetered⟩ := h
    exact ⟨hheld,hunserved.mono (retains_sameStore hsame),execution,htask,hkey,
      hsame.exists_row (fun _ _ hp => hp) hunmetered⟩
  | lost => exact h

/-- A caller that looks is in the middle of nothing where nothing is current. -/
theorem idle_of_unserved (h : Seeking key task) (hsound : TaskSound fingerprint w task) (hunserved : Unserved key w) :
    task=.idle := by
  have hno : ∀ {hit : Hit},hit.key=key → ¬∃ row∈w.db.executions,IsHitRow hit.key hit.loaded row := by
    rintro hit hkey ⟨row,hrow,hhit⟩
    have hserv := hhit.servable
    rw [hunserved row hrow (hhit.key.trans hkey)] at hserv
    exact nomatch hserv
  cases task with
  | idle => rfl
  | hydrating hit todo => exact absurd hsound.1 (hno h)
  | refetched hit fetched fresh => exact absurd hsound.1 (hno h)
  | _ => exact h.elim

/-- Marked rows stay marked, and so do those that the mark is for. -/
theorem MarkedBut.mark {id : ExecutionId} {blobKey : BlobKey} {now : Timestamp}
    (h : MarkedBut w id [blobKey]) :
    MarkedBut { w with db := w.db.updateWhere (hasId id) (markColumns blobKey (storedMark now)) } id [] := by
  intro row hrow hid a ha
  obtain ⟨before,hbefore,rfl⟩ := Db.mem_updateWhere.mp hrow
  have hbid : before.executionId=id := by
    split at hid
    · exact hid
    · exact hid
  rw [if_pos ((hasId_iff _ _).mpr hbid)] at ha
  obtain ⟨b,hb,rfl⟩ := List.mem_map.mp ha
  refine Or.inl ?_
  split
  · rfl
  next hne =>
    rcases h before hbefore hbid b hb with hstored | ⟨other,hother,hkey⟩
    · exact hstored
    · rw [List.mem_singleton.mp hother] at hkey
      exact absurd hkey hne

/-- One more row is the one to mark. -/
theorem MarkedBut.persist {id : ExecutionId} {document : Artifact} (h : MarkedBut w id []) :
    MarkedBut { w with db := w.db.updateWhere (hasId id) (withArtifacts [artifactRow document]) } id
      [document.blobKey] := by
  intro row hrow hid a ha
  obtain ⟨before,hbefore,rfl⟩ := Db.mem_updateWhere.mp hrow
  have hbid : before.executionId=id := by
    split at hid
    · exact hid
    · exact hid
  rw [if_pos ((hasId_iff _ _).mpr hbid)] at ha
  rcases List.mem_append.mp ha with ha | ha
  · rcases h before hbefore hbid a ha with hstored | ⟨_,hnone,_⟩
    · exact Or.inl hstored
    · exact nomatch hnone
  · rw [List.mem_singleton.mp ha]
    exact Or.inr ⟨_,List.mem_singleton_self _,rfl⟩

/-- A run without documents has nothing to mark. -/
theorem markedBut_of_bare {execution : MlExecution} {state : ExecutionState}
    (h : ∃ row∈w.db.executions,IsRunRow execution state [] row) : MarkedBut w execution.executionId [] := by
  obtain ⟨row,hmem,hrow⟩ := h
  intro r hr hid a ha
  rw [w.db.row_unique hr hmem (hid.trans hrow.id.symm)] at ha
  have hempty : row.artifacts=[] := List.forall₂_nil_left_iff.mp hrow.artifacts
  rw [hempty] at ha
  exact nomatch ha

end Tasks

/-- A call of another kind leaves a caller in the locks that it is in. -/
theorem watchHeld_other {Command : Type} {call : Call Command} (h : isKeyLock call=false)
    (r : Except PyExc call.Ret) (held : List ExecutionKey) : watchHeld call r held=held := by
  cases call with
  | acquireKey key => exact nomatch h
  | releaseKey key => exact nomatch h
  | _ => rfl

section Locks
variable {Command : Type} {locks : LockMode} {thread : ThreadId} {call : Call Command} {r : Except PyExc call.Ret}
  {w w' : World}

/-- No key has two threads in its lock. -/
def KeysExclude (w : World) : Prop :=
  ∀ holding∈w.held,∀ holding'∈w.held,holding.2=holding'.2 → holding.1=holding'.1

/-- Entering a free lock and leaving one keep them exclusive. -/
theorem KeysExclude.answers {faults : Faults Command} (h : KeysExclude w)
    (hans : Answers .exclusive faults thread call w r w') : KeysExclude w' := by
  cases hans with
  | @acquireKey w key hfree =>
    intro a ha b hb hab
    rcases List.mem_cons.mp ha with rfl | ha <;> rcases List.mem_cons.mp hb with rfl | hb
    · rfl
    · exact (hfree rfl b hb hab.symm).symm
    · exact hfree rfl a ha hab
    · exact h a ha b hb hab
  | releaseKey =>
    exact fun a ha b hb hab => h a (List.mem_of_mem_erase ha) b (List.mem_of_mem_erase hb) hab
  | _ => exact h

/-- A caller's own calls enter and leave its locks. -/
theorem count_own {held : List ExecutionKey} (hans : Answers locks noFaults thread call w r w')
    (h : ∀ key,w.held.count (thread,key)=held.count key) (key : ExecutionKey) :
    w'.held.count (thread,key)=(watchHeld call r held).count key := by
  have hcount := h key
  cases hans with
  | acquireKey _ => simpa [watchHeld,List.count_cons] using hcount
  | releaseKey => simp [watchHeld,List.count_erase,hcount]
  | fault _ hf => exact hf.elim
  | _ => exact hcount

/-- Another caller's calls do not. -/
theorem count_other {other : ThreadId} (hans : Answers locks noFaults thread call w r w') (hne : other≠thread)
    (key : ExecutionKey) : w'.held.count (other,key)=w.held.count (other,key) := by
  cases hans with
  | acquireKey _ => simp [Ne.symm hne]
  | releaseKey =>
    rw [List.count_erase_of_ne]
    exact fun heq => hne (Prod.mk.inj heq).1
  | _ => rfl

/-- A lock's calls do not raise where nothing faults. -/
theorem isKeyLock_not_raised {e : PyExc} (hs : WellFormed w.db) (hcall : isKeyLock call=true)
    (hans : Answers locks noFaults thread call w (.error e) w') : False := by
  rcases noFaults_error hs hans with ⟨command,rfl⟩ | ⟨⟨storeCall,rfl⟩,_⟩
  · exact nomatch hcall
  · exact nomatch hcall

end Locks

/-- The gate names the locks that its caller is in. -/
theorem gate_held {Command : Type} {key : ExecutionKey} {fills : Prop} {must : ClientRunResult → Prop}
    {φ φ' : GatePhase} {call : Call Command} {r : Except PyExc call.Ret} (hgate : GateTurn key fills must φ call r φ')
    (hφ : φ.gate≠.lost) (hφ' : φ'.gate≠.lost) : φ'.held=watchHeld call r φ.held := by
  have hlooking : ∀ {call : Call Command},isLooking key call=true → isKeyLock call=false := by
    intro call hcall
    cases call <;> first | rfl | exact nomatch hcall
  have hwork : ∀ {call : Call Command},isWork call=true → isKeyLock call=false := by
    intro call hcall
    cases call <;> first | rfl | exact nomatch hcall
  have hpaid : ∀ {call : Call Command},PaidWork call → isKeyLock call=false := by
    intro call hcall
    cases call <;> first | rfl | exact hcall.elim
  cases hgate with
  | lost => exact absurd rfl hφ
  | look hcall _ => exact (watchHeld_other (hlooking hcall) _ _).symm
  | lose hcall _ => exact absurd rfl hφ'
  | acquire => rfl
  | release _ => rfl
  | lockRaised _ => exact absurd rfl hφ'
  | work hcall => exact (watchHeld_other (hwork hcall) _ _).symm
  | paid hcall a => exact (watchHeld_other (hpaid hcall) _ _).symm
  | paidRaised _ => exact absurd rfl hφ'
  | clear _ | save _ | saveRaised | client _ | finalize _ | finalizeRaised => rfl

section Looking
variable {Command ι : Type} {locks : LockMode} {thread : ThreadId} {scope : Scope} {fingerprint : Bytes → Digest}
  {key : ExecutionKey} {fills : Prop} {must : ClientRunResult → Prop} {first w w' : World} {log : ClientLog ι}
  {φ φ' : Phase} {ψ' : GatePhase} {held : List ExecutionKey} {call : Call Command} {r : Except PyExc call.Ret}

/-- Looking leaves documents as they are. -/
theorem sameStore_of_isLooking (hcall : isLooking key call=true)
    (hans : Answers locks noFaults thread call w r w') : SameStore w w' := by
  cases r with
  | error e =>
    rw [answers_error hans]
    exact ⟨rfl,fun _ h => h,Or.inl rfl⟩
  | ok a =>
    cases call with
    | store call =>
      cases call with
      | addTags tagged tags => exact sameStore_of_isQuiet rfl hans
      | findCurrent k => exact sameStore_of_isQuiet rfl hans
      | _ => exact nomatch hcall
    | recordEvent entry => exact sameStore_of_isQuiet rfl hans
    | ensureAvailableForContent | blobGet =>
      cases hans
      exact ⟨rfl,fun _ h => h,Or.inl rfl⟩
    | _ => exact nomatch hcall

/-- A healthy store gives no answer that it should not give. -/
theorem not_unexpected (hcall : isLooking key call=true) (hturn : Turn scope fingerprint φ call r φ')
    (hans : Answers locks noFaults thread call w r w') (hs : CallerSound fingerprint φ w)
    (hseek : Seeking key φ.task) (hhealthy : Healthy fingerprint fills key first w log) :
    ¬Unexpected fills call r := by
  intro hr
  cases r with
  | error e =>
    have hcorrupt : e.isCorruption=true := by
      cases call with
      | store call => cases call <;> exact hr
      | _ => exact hr
    rcases noFaults_error hs.1.wellFormed hans with ⟨command,rfl⟩ | ⟨_,_,hplain⟩
    · cases hcall
    · rw [hplain] at hcorrupt
      cases hcorrupt
  | ok a =>
    cases call with
    | store call =>
      cases call with
      | findCurrent k =>
        cases a with
        | none => exact hr
        | some fresh =>
          obtain ⟨hfills,hinput⟩ := hr
          obtain ⟨now,db,ht,rfl⟩ := answers_store_ok hans
          obtain ⟨hfind,rfl⟩ := reading_ok.mp ht
          obtain ⟨row,hrow,hfresh⟩ := isFreshRow_of_findCurrent hinput hfind
          have hany := (hhealthy row hrow (hfresh.key.trans (of_decide_eq_true hcall)) hfresh.servable).1.input hfills
          rw [hfresh.noInput] at hany
          cases hany
      | _ => exact hr
    | blobGet blobKey =>
      cases a with
      | some content => exact hr
      | none =>
        obtain ⟨rfl,hget⟩ := answers_blobGet hans
        cases hturn with
        | quiet hq a => cases hq
        | gate hgate a => rcases hgate with h | h | ⟨_,h⟩ <;> cases h
        | @miss held ran hit artifact todo =>
          obtain ⟨⟨row,hrow,hhit⟩,before,hbefore,_⟩ := hs.2
          have ha : artifactRow artifact∈row.artifacts := by
            rw [hhit.artifacts,hbefore]
            exact List.mem_map_of_mem (List.mem_append_right _ List.mem_cons_self)
          obtain ⟨blobKey,content,hkey,hcontent⟩ :=
            (hhealthy row hrow (hhit.key.trans hseek) hhit.servable).1.stored _ ha
          cases Column.value.inj hkey
          rw [← hget] at hcontent
          cases hcontent
        | lose => exact hseek.elim
    | _ => exact hr

/-- A caller that looks goes on looking, or finds nothing current in the lock. -/
theorem free_step (hturn : Turn scope fingerprint φ call r φ')
    (hgate : GateTurn key fills must ⟨held,.free⟩ call r ψ')
    (hans : Answers locks noFaults thread call w r w') (hs : CallerSound fingerprint φ w)
    (hseek : Seeking key φ.task) (hhealthy : Healthy fingerprint fills key first w log) :
    SameStore w w' ∧ Standing key must w' log φ'.task ψ' ∧ ∀ command,call≠.runClient command := by
  cases hgate with
  | look hcall hr =>
    refine ⟨sameStore_of_isLooking hcall hans,?_,fun command heq => by rw [heq] at hcall; cases hcall⟩
    change Seeking key φ'.task
    cases hturn with
    | quiet hq a => exact hseek
    | raise hescapes =>
      have hplain := not_corrupt_of_expected hr
      cases hφ : φ.task <;> rw [hφ] at hseek <;> first | exact hseek.elim | (simp only [Task.raised,hplain]; trivial)
    | releaseRaised hrelease =>
      have hno := noFaults_error hs.1.wellFormed hans
      rcases hno with ⟨command,rfl⟩ | ⟨⟨storeCall,rfl⟩,_⟩ <;> cases hrelease
    | gate hgate a => trivial
    | @load held ran k hscope loaded => exact (of_decide_eq_true hcall : k=key)
    | hydrate content => exact hseek
    | miss => exact absurd trivial hr
    | refetch hkey fresh hfresh => exact hseek
    | _ => first | exact False.elim hseek | cases hcall
  | lose hcall hr => exact absurd hr (not_unexpected hcall hturn hans hs hseek hhealthy)
  | acquire =>
    cases hans with
    | acquireKey hfree =>
      refine ⟨SameStore.held w _,?_,fun command heq => (by cases heq)⟩
      cases hturn with
      | quiet hq a => cases hq
      | gate hgate a => rcases hgate with h | h | ⟨_,h⟩ <;> cases h
      | acquire => exact hseek
  | release hleave =>
    cases hans with
    | releaseKey =>
      refine ⟨SameStore.held w _,?_,fun command heq => (by cases heq)⟩
      cases hturn with
      | quiet hq a => cases hq
      | gate hgate a => rcases hgate with h | h | ⟨_,h⟩ <;> cases h
      | release =>
        change Seeking key φ.task.released
        cases hφ : φ.task <;> rw [hφ] at hseek <;> first | exact hseek.elim | exact hseek
  | lockRaised hcall => exact (isKeyLock_not_raised hs.1.wellFormed hcall hans).elim
  | clear hkey =>
    obtain ⟨now,db,ht,rfl⟩ := answers_store_ok hans
    obtain ⟨hfind,rfl⟩ := reading_ok.mp ht
    refine ⟨⟨rfl,fun _ h => h,Or.inl rfl⟩,?_,fun command heq => (by cases heq)⟩
    have hunserved := unserved_of_find hs.1 hfind
    cases hturn with
    | quiet hq a =>
      refine ⟨hkey,hunserved,?_⟩
      rw [idle_of_unserved hseek hs.2 hunserved]
      rfl
    | gate hgate a => rcases hgate with h | h | ⟨_,h⟩ <;> cases h

end Looking

section Recording
variable {Command ι : Type} {locks : LockMode} {thread : ThreadId} {scope : Scope} {fingerprint : Bytes → Digest}
  {key : ExecutionKey} {fills : Prop} {must : ClientRunResult → Prop} {first w w' : World} {log : ClientLog ι}
  {φ φ' : Phase} {input paid : Bool} {call : Call Command}

/-- What must be recorded is recorded by the calls of a recording. -/
theorem isWork_of_paidWork (h : PaidWork call) : isWork call=true := by
  cases call with
  | store call => cases call <;> first | rfl | exact h.elim
  | _ => first | rfl | exact h.elim

/-- Rows that only lose members are retained. -/
theorem retains_refl (db : Db) : Retains db db := Retains.subset fun _ hrow _ => hrow

/-- One call of a recording. -/
theorem recorder_ok {a : call.Ret} (hwork : isWork call=true) (hturn : Turn scope fingerprint φ call (.ok a) φ')
    (hans : Answers locks noFaults thread call w (.ok a) w') (hs : CallerSound fingerprint φ w)
    (h : Recorder key must w log input paid φ.task) :
    Recorder key must w' log (input || insertsInput call) paid φ'.task ∧ Retains w.db w'.db ∧ BlobsKept w w' := by
  obtain ⟨hs,htask⟩ := hs
  cases hturn with
  | quiet hq a =>
    have hsame := sameStore_of_isQuiet hq hans
    have hno : insertsInput call=false := by
      cases call with
      | store call => cases call <;> first | rfl | cases hq
      | _ => rfl
    rw [hno,Bool.or_false]
    exact ⟨h.sameStore hsame,retains_sameStore hsame,.of_eq hsame.blobs⟩
  | gate hgate a =>
    rcases hgate with rfl | rfl | ⟨_,rfl⟩
    · cases hans
      exact ⟨h,retains_refl _,.of_eq rfl⟩
    · cases hwork
    · cases hwork
  | mint hscope executionId =>
    cases hans with
    | newExecutionId id hnew => exact ⟨h,retains_refl _,.of_eq rfl⟩
  | discard =>
    obtain ⟨now,db,ht,rfl⟩ := answers_store_ok hans
    cases Except.ok.inj (commit_ok.mp ht)
    exact ⟨h,Retains.subset fun row hrow _ => (mem_removeExecution.mp hrow).1,.of_eq rfl⟩
  | abandon message =>
    obtain ⟨now,db,ht,rfl⟩ := answers_store_ok hans
    obtain ⟨_,row,hmem,hrow⟩ := htask
    exact ⟨h,retains_recordOutcome (commit_ok.mp ht) ⟨row,hmem,hrow.id,hrow.unpersisted⟩,.of_eq rfl⟩
  | outcome =>
    obtain ⟨now,db,ht,rfl⟩ := answers_store_ok hans
    obtain ⟨_,row,hmem,hrow⟩ := htask
    obtain ⟨hkey,_,hinput,hlogged,hmust⟩ := h
    subst hinput
    exact ⟨⟨hkey,rfl,hlogged,hmust⟩,
      retains_recordOutcome (commit_ok.mp ht) ⟨row,hmem,hrow.id,hrow.unpersisted⟩,.of_eq rfl⟩
  | beginDocuments hdocuments =>
    cases hans
    obtain ⟨hkey,hinput,hlogged,hmust⟩ := h
    subst hinput
    exact ⟨⟨hkey,hlogged,hmust,fun _ _ hd => (List.not_mem_nil hd).elim,fun hno => (by cases hno),
      fun _ => ⟨rfl,markedBut_of_bare htask.2⟩⟩,retains_refl _,.of_eq rfl⟩
  | @persist held ran execution result done document todo allStored =>
    obtain ⟨now,db,ht,rfl⟩ := answers_store_ok hans
    obtain ⟨_,rfl⟩ := persistArtifact_ok (commit_ok.mp ht)
    obtain ⟨hkey,hp⟩ := h
    refine ⟨⟨hkey,hp.logged,hp.must,hp.stored,fun hinput => ?_,fun hpaid => ⟨(hp.paid hpaid).1,(hp.paid hpaid).2.persist⟩⟩,
      Retains.withArtifacts (IsRunRow.not_servable htask.2.2),.of_eq rfl⟩
    rcases Bool.or_eq_true _ _ ▸ hinput with hbefore | hthis
    · obtain ⟨d,hd,hdin⟩ := hp.input hbefore
      exact ⟨d,List.mem_append_left _ hd,hdin⟩
    · exact ⟨document,by simp,hthis⟩
  | put =>
    cases hans
    obtain ⟨hkey,hp⟩ := h
    simp only [insertsInput,Bool.or_false]
    exact ⟨⟨hkey,hp.logged,hp.must,fun hall => (hp.stored hall).append,hp.input,hp.paid⟩,retains_refl _,
      BlobsKept.put _ _ _⟩
  | @mark held ran execution result done document todo allStored =>
    obtain ⟨now,db,ht,rfl⟩ := answers_store_ok hans
    obtain ⟨rfl,_⟩ := sound_markStored hs (commit_ok.mp ht)
    obtain ⟨hkey,hp⟩ := h
    simp only [insertsInput,Bool.or_false]
    exact ⟨⟨hkey,hp.logged,hp.must,hp.stored,hp.input,fun hpaid => ⟨(hp.paid hpaid).1,(hp.paid hpaid).2.mark⟩⟩,
      Retains.mark (keepsDocument_storedMark now),.of_eq rfl⟩
  | fail =>
    obtain ⟨now,db,ht,rfl⟩ := answers_store_ok hans
    obtain ⟨rfl,_⟩ := sound_markFailed hs (commit_ok.mp ht)
    obtain ⟨hkey,hlogged,hpaid,hinput⟩ := h
    subst hpaid
    simp only [insertsInput,Bool.or_false]
    exact ⟨⟨hkey,hlogged,fun hno => (by cases hno),fun hno => (by cases hno),hinput,fun hno => (by cases hno)⟩,
      Retains.mark (keepsDocument_failedMark _),.of_eq rfl⟩
  | _ => first | exact False.elim h | cases hwork

/-- An error ends a recording whose answer need not be recorded, or leaves a document pending. -/
theorem recorder_error {e : PyExc} (hclient : ∀ command,call≠.runClient command)
    (hturn : Turn scope fingerprint φ call (.error e) φ') (hans : Answers locks noFaults thread call w (.error e) w')
    (hs : CallerSound fingerprint φ w) (h : Recorder key must w log input false φ.task) :
    Recorder key must w log (input || insertsInput call) false φ'.task := by
  cases hturn with
  | raise hescapes => cases hφ : φ.task <;> rw [hφ] at h <;> first | exact False.elim h | exact rfl
  | releaseRaised hrelease =>
    rcases noFaults_error hs.1.wellFormed hans with ⟨command,rfl⟩ | ⟨⟨storeCall,rfl⟩,_⟩ <;> cases hrelease
  | interrupt e he => exact absurd rfl (hclient _)
  | clientRaise e he => exact absurd rfl (hclient _)
  | putFailed e he =>
    obtain ⟨hkey,hp⟩ := h
    simp only [insertsInput,Bool.or_false]
    exact ⟨hkey,hp.logged,rfl,hp.input⟩
  | markFailed e he =>
    obtain ⟨hkey,hp⟩ := h
    simp only [insertsInput,Bool.or_false]
    exact ⟨hkey,hp.logged,fun hno => (by cases hno),fun hno => (by cases hno),hp.input,fun hno => (by cases hno)⟩
  | fillPutFailed e he => exact h.elim
  | fillMark r hr => exact h.elim

/-- A transaction that commits does not raise. -/
theorem not_raised {storeCall : StoreCall} {e : PyExc}
    (hok : ∀ now e,transact now w.db storeCall≠.error e)
    (hans : Answers locks noFaults thread (.store storeCall : Call Command) w (.error e) w') : False := by
  rcases answers_store hans with ⟨_,_,_,_,hr,_⟩ | ⟨e',_,_,hf | ⟨now,ht⟩⟩
  · exact nomatch hr
  · exact hf
  · exact hok now e' ht

/-- The calls that record an answer that must be recorded do not raise. -/
theorem paid_not_raised {e : PyExc} (hcall : PaidWork call ∨ ∃ id,call=.store (.finalizeOutputPersisted id))
    (hturn : (Turn scope fingerprint).enabled φ call (.error e) φ')
    (hans : Answers locks noFaults thread call w (.error e) w') (hs : CallerSound fingerprint φ w)
    (h : Recorder key must w log input true φ.task) : False := by
  obtain ⟨storeCall,rfl⟩ : ∃ storeCall,call=.store storeCall := by
    rcases noFaults_error hs.1.wellFormed hans with ⟨command,rfl⟩ | ⟨hstore,_⟩
    · rcases hcall with hcall | ⟨id,hid⟩
      · exact hcall.elim
      · exact nomatch hid
    · exact hstore
  obtain ⟨hs,htask⟩ := hs
  have hable : ∀ a,∃ φ₂,Turn scope fingerprint φ (.store storeCall : Call Command) (.ok a) φ₂ := fun a => hturn.2 (.ok a)
  cases storeCall with
  | recordOutcome recorded =>
    obtain ⟨hfailure,usage,husage⟩ : bindFailure recorded.failure=.ok () ∧
        ∃ usage,insertTokenUsage none recorded.tokenUsage=.ok usage := by
      rcases hcall with hcall | ⟨id,hid⟩
      · exact hcall
      · exact nomatch hid
    obtain ⟨φ₂,hok⟩ := hable ()
    cases hok with
    | quiet hq a => exact nomatch hq
    | gate hgate a => rcases hgate with h | h | ⟨_,h⟩ <;> exact nomatch h
    | abandon message => exact nomatch (h : true=false)
    | @outcome held ran execution result =>
      obtain ⟨row,hmem,hid,hnone⟩ := h.2.1
      have hfound : w.db.findRow (withOutcome execution result).executionId=some row :=
        Db.findRow_eq_some.mpr ⟨hmem,hid⟩
      refine not_raised (fun now e ht => ?_) hans
      simp only [transact,recordOutcome,hfound,hfailure,hnone,husage] at ht
      exact nomatch ht
  | persistArtifact id artifact =>
    obtain ⟨rows,hrows⟩ : ∃ rows,insertArtifacts [artifact]=.ok rows := by
      rcases hcall with hcall | ⟨id,hid⟩
      · exact hcall
      · exact nomatch hid
    obtain ⟨φ₂,hok⟩ := hable ()
    cases hok with
    | quiet hq a => exact nomatch hq
    | gate hgate a => rcases hgate with h | h | ⟨_,h⟩ <;> exact nomatch h
    | persist =>
      obtain ⟨row,hmem,hrow⟩ := htask.2.2
      refine not_raised (fun now e ht => ?_) hans
      simp only [transact,persistArtifact,Db.findRow_eq_some.mpr ⟨hmem,hrow.id⟩,hrows] at ht
      exact nomatch ht
  | markArtifactsStored id blobKey =>
    obtain ⟨φ₂,hok⟩ := hable ()
    cases hok with
    | quiet hq a => exact nomatch hq
    | gate hgate a => rcases hgate with h | h | ⟨_,h⟩ <;> exact nomatch h
    | fillMark r hr => exact h.elim
    | repairMark => exact h.elim
    | @mark held ran execution result done document todo allStored =>
      obtain ⟨row,hmem,hrow⟩ := htask.2.2
      obtain ⟨a,ha,hof⟩ := (mem_of_forall₂ hrow.artifacts).2 document (by simp)
      refine not_raised (fun now e ht => ?_) hans
      simp only [transact,markArtifactsStored,markArtifacts_of (storedMark now) hmem hrow.id ⟨a,ha,hof.2.2⟩] at ht
      exact nomatch ht
  | finalizeOutputPersisted id =>
    obtain ⟨φ₂,hok⟩ := hable ()
    cases hok with
    | quiet hq a => exact nomatch hq
    | gate hgate a => rcases hgate with h | h | ⟨_,h⟩ <;> exact nomatch h
    | repairFinalize => exact h.elim
    | @finalize held ran execution result done =>
      obtain ⟨row,hmem,hrow⟩ := htask.2.2
      have hmarked : ∀ a∈row.artifacts,a.status=.value .stored := by
        intro a ha
        rcases (h.2.paid rfl).2 row hmem hrow.id a ha with hstored | ⟨_,hnone,_⟩
        · exact hstored
        · exact nomatch hnone
      refine not_raised (fun now e ht => ?_) hans
      simp only [transact,finalizeOutputPersisted_of now hmem hrow.id hmarked] at ht
      exact nomatch ht
  | _ =>
    rcases hcall with hcall | ⟨id,hid⟩
    · exact hcall.elim
    · exact nomatch hid

/-- A finalized recording is complete and traced to its answer, and it is current where that had to be recorded. -/
theorem finalize_step {id : ExecutionId} (hmust : ∀ result,must result → result.succeeded=true)
    (hinput : fills → input=true)
    (hturn : Turn scope fingerprint φ (.store (.finalizeOutputPersisted id) : Call Command) (.ok ()) φ')
    (hans : Answers locks noFaults thread (.store (.finalizeOutputPersisted id) : Call Command) w (.ok ()) w')
    (hs : CallerSound fingerprint φ w) (h : Recorder key must w log input paid φ.task)
    (hhealthy : Healthy fingerprint fills key first w log) :
    Seeking key φ'.task ∧ Healthy fingerprint fills key first w' log ∧
      (paid=true → ∃ row∈w'.db.executions,row.executionKey=key ∧ row.servable=true) := by
  cases hturn with
  | quiet hq a => exact nomatch hq
  | gate hgate a => rcases hgate with h | h | ⟨_,h⟩ <;> exact nomatch h
  | repairFinalize => exact h.elim
  | @finalize held ran execution result done =>
    obtain ⟨now,db,ht,rfl⟩ := answers_store_ok hans
    have hf := commit_ok.mp ht
    obtain ⟨hs,_,hrecording,row,hmem,hrow⟩ := hs
    obtain ⟨hkey,hp⟩ := h
    rw [List.append_nil] at hrecording
    have hpromoted := finalize_promotes hf hmem hrow.id hrow.unpersisted
    have hstate : (promoted row).state=.value result.outcome := hrow.state
    have hservable : (promoted row).servable=true ↔ result.succeeded=true := by
      rw [MutableColumns.servable_iff]
      have hcurrent : (promoted row).supersededAt=none := hrow.current
      simp only [hstate,hcurrent,and_true,Column.value.injEq,ClientRunResult.outcome]
      split <;> simp_all [promoted]
    refine ⟨trivial,fun r hr hrkey hserv => ?_,fun hpaid =>
      ⟨_,hpromoted,hrow.key.trans hkey,hservable.mpr (hmust _ (hp.must hpaid))⟩⟩
    by_cases hid : r.executionId=execution.executionId
    · obtain rfl := db.row_unique hr hpromoted (hid.trans hrow.id.symm)
      refine ⟨⟨fun a ha => ?_,fun hfills => ?_⟩,Or.inr ⟨result,done,hp.logged,hservable.mp hserv,?_,hrow.artifacts⟩⟩
      · obtain ⟨document,hd,hof⟩ := (mem_of_forall₂ hrow.artifacts).1 a ha
        obtain ⟨content,hcontent⟩ := hp.stored rfl document hd
        exact ⟨document.blobKey,content,hof.2.2,hcontent⟩
      · obtain ⟨document,hd,hdin⟩ := hp.input (hinput hfills)
        obtain ⟨a,ha,hof⟩ := (mem_of_forall₂ hrow.artifacts).2 document hd
        exact List.any_eq_true.mpr ⟨a,ha,by simp [ArtifactRow.isInput,hof.1,hdin]⟩
      · rw [hid]
        exact hrecording
    · have hold := retains_finalize hf hr hserv hid
      exact ⟨((hhealthy r hold hrkey hserv).1).mono (.of_eq rfl) (sameDocuments_refl _),(hhealthy r hold hrkey hserv).2⟩

/-- A saved run is in progress and has used no tokens. -/
theorem save_step {execution : MlExecution} (hkey : execution.callIdentity.generateKey=key)
    (hturn : Turn scope fingerprint φ (.store (.save execution) : Call Command) (.ok ()) φ')
    (hans : Answers locks noFaults thread (.store (.save execution) : Call Command) w (.ok ()) w')
    (h : Recorder key must w log input paid φ.task) :
    (∃ execution,φ'.task=.running execution ∧ execution.callIdentity.generateKey=key ∧ Unmetered w' execution) ∧
      Retains w.db w'.db ∧ BlobsKept w w' := by
  cases hturn with
  | quiet hq a => exact nomatch hq
  | gate hgate a => rcases hgate with h | h | ⟨_,h⟩ <;> exact nomatch h
  | save hheld hprogress =>
    obtain ⟨now,db,ht,rfl⟩ := answers_store_ok hans
    obtain ⟨id,_,_,hrows⟩ := save_inProgress hprogress (commit_ok.mp ht)
    refine ⟨⟨execution,rfl,hkey,_,by rw [hrows]; exact List.mem_append_right _ (List.mem_singleton_self _),rfl,rfl⟩,
      Retains.subset fun row hrow hserv => ?_,.of_eq rfl⟩
    rw [hrows,List.mem_append,List.mem_singleton] at hrow
    rcases hrow with hrow | rfl
    · exact hrow
    · have hpersisted := ((MutableColumns.servable_iff _).mp hserv).2.1
      simp [insertedRow,insertedColumns,hprogress.outputPersisted] at hpersisted

/-- The client's answer is the recorder's. -/
theorem client_step {i : ι} {execution : MlExecution} {command : Command} {r : Except PyExc ClientRunResult}
    (hpaid : paid=true ↔ ∃ result,r=.ok result ∧ must result)
    (hturn : Turn scope fingerprint φ (.runClient command) r φ')
    (hans : Answers locks noFaults thread (.runClient command) w r w') (htask : φ.task=.running execution)
    (hkey : execution.callIdentity.generateKey=key) (hunmetered : Unmetered w execution) :
    w'=w ∧ Recorder key must w' (watchClient i (.runClient command : Call Command) r log) false paid φ'.task := by
  have hworld : w'=w := by cases hans <;> rfl
  subst hworld
  have hunpaid : ∀ {e : PyExc},r=.error e → paid=false := by
    intro e he
    by_contra hno
    obtain ⟨_,hok,_⟩ := hpaid.mp (by simpa using hno)
    exact nomatch he.symm.trans hok
  refine ⟨rfl,?_⟩
  cases hturn with
  | quiet hq a => exact nomatch hq
  | gate hgate a => rcases hgate with h | h | ⟨_,h⟩ <;> exact nomatch h
  | raise hescapes =>
    rw [htask]
    exact hunpaid rfl
  | releaseRaised hrelease => exact nomatch hrelease
  | runUnrecorded => exact nomatch htask
  | answer result =>
    cases Task.running.inj htask
    refine ⟨hkey,hunmetered,rfl,⟨i,List.mem_append_right _ (List.mem_singleton_self _)⟩,fun hp => ?_⟩
    obtain ⟨_,hok,hmust⟩ := hpaid.mp hp
    cases hok
    exact hmust
  | interrupt e he => exact hunpaid rfl
  | clientRaise e he => exact hunpaid rfl

end Recording

/-- An answer of the client that must be recorded. -/
def IsPaid (must : ClientRunResult → Prop) (r : Except PyExc ClientRunResult) : Prop :=
  ∃ result,r=.ok result ∧ must result

/-- Some execution of the key is current. -/
def IsServed (key : ExecutionKey) (w : World) : Prop :=
  ∃ row∈w.db.executions,row.executionKey=key ∧ row.servable=true

/-- What a step of a caller in the key's lock does: it keeps an answer that must
be recorded until it is current, and it logs what its client answers. -/
structure Inside {ι : Type} (key : ExecutionKey) (must : ClientRunResult → Prop) (i : ι) (w w' : World)
    (log log' : ClientLog ι) (ψ ψ' : GatePhase) : Prop where
  /-- It is in the key's lock. -/
  held : key∈ψ.held
  /-- The key is not served. -/
  unserved : Unserved key w
  /-- A paid answer in hand stays in hand, or the key is served. -/
  paid : ∀ input,ψ.gate=.clear input true → (∃ input',ψ'.gate=.clear input' true) ∨ IsServed key w'
  /-- The log gets at most the answer of its client. -/
  logs : log'=log ∨ (ψ.gate=.calling ∧ ∃ r,log'=log ++ [(i,r)] ∧ (IsPaid must r → ∃ input',ψ'.gate=.clear input' true))

section Step
variable {Command ι : Type} {thread : ThreadId} {scope : Scope} {fingerprint : Bytes → Digest}
  {key : ExecutionKey} {fills : Prop} {must : ClientRunResult → Prop} {first w w' : World} {log log' : ClientLog ι}
  {φ φ' : Phase} {ψ ψ' : GatePhase} {i : ι} {call : Call Command} {r : Except PyExc call.Ret}

/-- Nothing faults and nothing is repeated: one step of a caller from where it stands. -/
theorem mover_step (hmust : ∀ result,must result → result.succeeded=true)
    (hturn : (Turn scope fingerprint).enabled φ call r φ') (hgate : GateTurn key fills must ψ call r ψ')
    (hans : Answers .exclusive noFaults thread call w r w') (hs : CallerSound fingerprint φ w)
    (hstands : Standing key must w log φ.task ψ) (hhealthy : Healthy fingerprint fills key first w log) :
    Standing key must w' (watchClient i call r log) φ'.task ψ' ∧
      Healthy fingerprint fills key first w' (watchClient i call r log) ∧
      ((ψ.gate=.free ∧ SameStore w w' ∧ watchClient i call r log=log) ∨
        Inside key must i w w' log (watchClient i call r log) ψ ψ') := by
  obtain ⟨held,gate⟩ := ψ
  cases gate with
  | lost => exact hstands.elim
  | free =>
    obtain ⟨hsame,hstands',hclient⟩ := free_step hturn.1 hgate hans hs hstands hhealthy
    rw [watchClient_other hclient]
    exact ⟨hstands',hhealthy.mono (retains_sameStore hsame) (.of_eq hsame.blobs) fun _ h => h,
      Or.inl ⟨rfl,hsame,rfl⟩⟩
  | calling =>
    obtain ⟨hheld,hunserved,execution,htask,hkey,hunmetered⟩ := hstands
    cases hgate with
    | lockRaised hcall => exact (isKeyLock_not_raised hs.1.wellFormed hcall hans).elim
    | release hleave => rcases hleave with h | ⟨_,h⟩ <;> exact nomatch h
    | @client _ paid command r hpaid =>
      obtain ⟨rfl,hrecorder⟩ := @client_step Command ι .exclusive thread scope fingerprint key must w w' log φ φ'
        paid i execution command r hpaid hturn.1 hans htask hkey hunmetered
      refine ⟨⟨hheld,hunserved,hrecorder⟩,hhealthy.mono (retains_refl _) (.of_eq rfl) fun _ h =>
        List.mem_append_left _ h,Or.inr ⟨hheld,hunserved,fun _ h => (nomatch h),Or.inr ⟨rfl,r,rfl,fun hp => ?_⟩⟩⟩
      have hgot : paid=true := hpaid.mpr hp
      exact ⟨false,by rw [hgot]⟩
  | clear input paid =>
    obtain ⟨hheld,hunserved,hrecorder⟩ := hstands
    have hstays : ∀ (call : Call Command) (r : Except PyExc call.Ret) {input' : Bool} {w' : World},
        (∀ command,call≠.runClient command) → Recorder key must w' log input' paid φ'.task → Retains w.db w'.db →
        BlobsKept w w' → Standing key must w' (watchClient i call r log) φ'.task ⟨held,.clear input' paid⟩ ∧
          Healthy fingerprint fills key first w' (watchClient i call r log) ∧
          Inside key must i w w' log (watchClient i call r log) ⟨held,.clear input paid⟩ ⟨held,.clear input' paid⟩ := by
      intro call r input' w' hclient hrec hret hblobs
      rw [watchClient_other hclient]
      refine ⟨⟨hheld,hunserved.mono hret,hrec⟩,hhealthy.mono hret hblobs fun _ h => h,hheld,hunserved,fun _ h => ?_,Or.inl rfl⟩
      cases h
      exact Or.inl ⟨_,rfl⟩
    have hnot : ∀ {call : Call Command},isWork call=true → ∀ command,call≠.runClient command := by
      rintro call hcall command rfl
      exact nomatch hcall
    have hstore : ∀ storeCall command,(Call.store storeCall : Call Command)≠.runClient command :=
      fun _ _ h => nomatch h
    cases hgate with
    | lockRaised hcall => exact (isKeyLock_not_raised hs.1.wellFormed hcall hans).elim
    | release hleave =>
      have hpaid : paid=false := by
        rcases hleave with h | ⟨_,h⟩
        · exact nomatch h
        · cases h
          rfl
      subst hpaid
      cases hans with
      | releaseKey =>
        have hsame := SameStore.held w (w.held.erase (thread,key))
        refine ⟨?_,hhealthy.mono (retains_sameStore hsame) (.of_eq rfl) fun _ h => h,
          Or.inr ⟨hheld,hunserved,fun _ h => (nomatch h),Or.inl rfl⟩⟩
        cases hturn.1 with
        | quiet hq a => exact nomatch hq
        | gate hgate a => rcases hgate with h | h | ⟨_,h⟩ <;> exact nomatch h
        | release =>
          change Seeking key φ.task.released
          cases hφ : φ.task <;> rw [hφ] at hrecorder <;> first | exact hrecorder.elim | trivial
    | work hcall =>
      cases r with
      | ok a =>
        obtain ⟨hrec,hret,hblobs⟩ := recorder_ok hcall hturn.1 hans hs hrecorder
        have hall := hstays call (.ok a) (hnot hcall) hrec hret hblobs
        exact ⟨hall.1,hall.2.1,Or.inr hall.2.2⟩
      | error e =>
        have hrec := recorder_error (hnot hcall) hturn.1 hans hs hrecorder
        cases answers_error hans
        have hall := hstays call (.error e) (hnot hcall) hrec (retains_refl _) (.of_eq rfl)
        exact ⟨hall.1,hall.2.1,Or.inr hall.2.2⟩
    | save hkey =>
      obtain ⟨hrunning,hret,hblobs⟩ := save_step hkey hturn.1 hans hrecorder
      exact ⟨⟨hheld,hunserved.mono hret,hrunning⟩,hhealthy.mono hret hblobs fun _ h => h,
        Or.inr ⟨hheld,hunserved,fun _ h => (nomatch h),Or.inl rfl⟩⟩
    | @saveRaised _ execution e =>
      have hrec := recorder_error (hstore _) hturn.1 hans hs hrecorder
      cases answers_error hans
      have hall := hstays (.store (.save execution)) (.error e) (hstore _) hrec (retains_refl _) (.of_eq rfl)
      exact ⟨hall.1,hall.2.1,Or.inr hall.2.2⟩
    | paid hcall a =>
      have hwork := isWork_of_paidWork hcall
      obtain ⟨hrec,hret,hblobs⟩ := recorder_ok hwork hturn.1 hans hs hrecorder
      have hall := hstays call (.ok a) (hnot hwork) hrec hret hblobs
      exact ⟨hall.1,hall.2.1,Or.inr hall.2.2⟩
    | paidRaised hcall => exact (paid_not_raised hcall hturn hans hs hrecorder).elim
    | finalize hinput =>
      obtain ⟨hseek,hhealthy',hserved⟩ := finalize_step hmust hinput hturn.1 hans hs hrecorder hhealthy
      exact ⟨hseek,hhealthy',Or.inr ⟨hheld,hunserved,fun _ h => Or.inr (hserved (by cases h; rfl)),Or.inl rfl⟩⟩
    | @finalizeRaised _ _ id e =>
      have hrec := recorder_error (hstore _) hturn.1 hans hs hrecorder
      simp only [insertsInput,Bool.or_false] at hrec
      cases answers_error hans
      have hall := hstays (.store (.finalizeOutputPersisted id)) (.error e) (hstore _) hrec (retains_refl _) (.of_eq rfl)
      exact ⟨hall.1,hall.2.1,Or.inr hall.2.2⟩

/-- A caller has called its client where its client's answer is logged. -/
theorem ran_logged (hturn : Turn scope fingerprint φ call r φ')
    (hans : Answers .exclusive noFaults thread call w r w') (hs : WellFormed w.db) (hran : φ'.ran=true) :
    φ.ran=true ∨ ∃ answer,(i,answer)∈watchClient i call r log := by
  cases hturn with
  | runUnrecorded | answer | interrupt | clientRaise =>
    exact Or.inr ⟨_,List.mem_append_right _ (List.mem_singleton_self _)⟩
  | releaseRaised hrelease =>
    rcases noFaults_error hs hans with ⟨command,rfl⟩ | ⟨⟨storeCall,rfl⟩,_⟩ <;> exact nomatch hrelease
  | _ => exact Or.inl hran

/-- What is current stays current where documents stay as they are. -/
theorem IsServed.sameStore (h : IsServed key w) (hsame : SameStore w w') : IsServed key w' :=
  hsame.exists_row (fun _ _ hp => hp) h

end Step

/-- The key is answered: it has a current execution, or a caller is recording one. -/
def Settled {ι : Type} (key : ExecutionKey) (phases : ι → Phase × GatePhase) (w : World) : Prop :=
  IsServed key w ∨ ∃ i input,(phases i).2.gate=.clear input true

/-- What holds of the callers at every moment. -/
structure Once {ι : Type} (fingerprint : Bytes → Digest) (fills : Prop) (key : ExecutionKey)
    (must : ClientRunResult → Prop) (thread : ι → ThreadId) (first : World) (phases : ι → Phase × GatePhase)
    (s : World × ClientLog ι) : Prop where
  /-- The store is sound. -/
  sound : Sound fingerprint s.1
  /-- The locks held are those of the phases. -/
  locks : ∀ i k,s.1.held.count (thread i,k)=(phases i).2.held.count k
  /-- No two callers are in one lock. -/
  excludes : KeysExclude s.1
  /-- Each task holds what the store knows. -/
  tasks : ∀ i,TaskSound fingerprint s.1 (phases i).1.task
  /-- Each task is where its gate says. -/
  standing : ∀ i,Standing key must s.1 s.2 (phases i).1.task (phases i).2
  /-- The key's rows are complete. -/
  healthy : Healthy fingerprint fills key first s.1 s.2
  /-- Who has run has an answer in the log. -/
  called : ∀ i,(phases i).1.ran=true → ∃ answer,(i,answer)∈s.2
  /-- Only the last answer may be paid. -/
  once : ∀ entry∈s.2.dropLast,¬IsPaid must entry.2
  /-- A paid answer settles the key. -/
  settled : (∃ entry∈s.2,IsPaid must entry.2) → Settled key phases s.1

/-- The caller stands before its client's answer. -/
def AwaitsClient {Command α : Type} (p : ServiceM Command α) : Prop := ∃ command next,p=.call (.runClient command) next

section Callers
variable {Command ι : Type} {scope : Scope} {fingerprint : Bytes → Digest} {key : ExecutionKey} {fills : Prop}
  {must : ClientRunResult → Prop} {thread : ι → ThreadId} {first : World} {phases : ι → Phase × GatePhase}
  {s : World × ClientLog ι}

/-- One caller at most is in the key's lock. -/
theorem Once.alone (hthread : Function.Injective thread)
    (h : Once fingerprint fills key must thread first phases s) {i j : ι} (hi : key∈(phases i).2.held)
    (hj : key∈(phases j).2.held) : i=j := by
  have hin : ∀ {k : ι},key∈(phases k).2.held → (thread k,key)∈s.1.held := by
    intro k hk
    rw [← List.count_pos_iff,h.locks k key]
    exact List.count_pos_iff.mpr hk
  exact hthread (h.excludes _ (hin hi) _ (hin hj) rfl)

/-- Whoever is past the first look is in the key's lock, and nothing is current. -/
theorem Once.inside (h : Once fingerprint fills key must thread first phases s) {i : ι}
    (hi : (phases i).2.gate≠.free) : key∈(phases i).2.held ∧ Unserved key s.1 := by
  have hstands := h.standing i
  unfold Standing at hstands
  split at hstands
  next hgate => exact absurd hgate hi
  next => exact ⟨hstands.1,hstands.2.1⟩
  next => exact ⟨hstands.1,hstands.2.1⟩
  next => exact hstands.elim

/-- Beside a caller in the key's lock, where nothing is current, the others are in the middle of nothing. -/
theorem Once.others_idle (hthread : Function.Injective thread)
    (h : Once fingerprint fills key must thread first phases s) {i : ι} (hi : key∈(phases i).2.held)
    (hunserved : Unserved key s.1) {j : ι} (hj : j≠i) :
    (phases j).2.gate=.free ∧ (phases j).1.task=.idle := by
  have hgate : (phases j).2.gate=.free := by
    by_contra hno
    exact hj (h.alone hthread (h.inside hno).1 hi)
  have hstands := h.standing j
  unfold Standing at hstands
  rw [hgate] at hstands
  exact ⟨hgate,idle_of_unserved hstands (h.tasks j) hunserved⟩

/-- Nobody calls its client once the key is answered. -/
theorem Once.not_calling (hthread : Function.Injective thread)
    (h : Once fingerprint fills key must thread first phases s) (hsettled : Settled key phases s.1) (i : ι) :
    (phases i).2.gate≠.calling := by
  intro hcalling
  obtain ⟨hheld,hunserved⟩ := h.inside (i := i) (by rw [hcalling]; exact fun h => nomatch h)
  rcases hsettled with ⟨row,hrow,hkey,hservable⟩ | ⟨j,input,hgate⟩
  · rw [hunserved row hrow hkey] at hservable
    exact nomatch hservable
  · have hsame := h.alone hthread (h.inside (i := j) (by rw [hgate]; exact fun h => nomatch h)).1 hheld
    rw [hsame,hcalling] at hgate
    exact nomatch hgate

/-- Who stands before its client's answer is past the gate. -/
theorem calling_of_awaits {progs : ι → ServiceM Command MlExecution}
    {Q : ι → Except PyExc MlExecution → Phase × GatePhase → Prop}
    (h : Once fingerprint fills key must thread first phases s)
    (hfollows : PoolFollows (fun _ : ι => Turns.both (Turn scope fingerprint).enabled (GateTurn key fills must))
      Q progs phases) {i : ι} (hawaits : AwaitsClient (progs i)) : (phases i).2.gate=.calling := by
  obtain ⟨command,next,hp⟩ := hawaits
  have hi := hfollows i
  rw [hp] at hi
  obtain ⟨⟨_,ψ'⟩,⟨_,hgate⟩,_⟩ := hi (.error (.other true []))
  have hstands := h.standing i
  generalize (phases i).2=ψ at hgate hstands
  cases hgate with
  | lost => exact hstands.elim
  | client _ => rfl
  | look hcall _ | lose hcall _ | lockRaised hcall | work hcall => exact nomatch hcall
  | paidRaised hcall =>
    rcases hcall with hcall | ⟨id,hid⟩
    · exact hcall.elim
    · exact nomatch hid

variable [DecidableEq ι]

/-- Every caller's step keeps what holds of all. -/
theorem keeps_once (hthread : Function.Injective thread) (hmust : ∀ result,must result → result.succeeded=true) :
    PoolKeeps (fun _ : ι => Turns.both (Turn scope fingerprint).enabled (GateTurn key fills must))
      (fun i => observed (Answers .exclusive (noFaults : Faults Command) (thread i)) (watchClient i))
      (Once fingerprint fills key must thread first) := by
  rintro phases i call r ⟨φ',ψ'⟩ ⟨w,log⟩ ⟨w',log'⟩ ⟨hturn,hgate⟩ ⟨hans,hlog⟩ h
  simp only at hturn hgate hans hlog
  subst hlog
  have hmover : CallerSound fingerprint (phases i).1 w := ⟨h.sound,h.tasks i⟩
  have hsound := keeps_callerSound _ _ _ _ _ _ hturn.1 hans hmover
  obtain ⟨hstands,hhealthy,hkind⟩ := @mover_step Command ι (thread i) scope fingerprint key fills must first w w' log
    (phases i).1 φ' (phases i).2 ψ' i call r hmust hturn hgate hans hmover (h.standing i) h.healthy
  have hgrown : ∀ entry∈log,entry∈watchClient i call r log := fun entry => mem_watchClient call r
  have hnotlost : ψ'.gate≠.lost := by
    intro hlost
    unfold Standing at hstands
    rw [hlost] at hstands
    exact hstands
  have hnotlost₀ : (phases i).2.gate≠.lost := by
    intro hlost
    have hbefore := h.standing i
    unfold Standing at hbefore
    rw [hlost] at hbefore
    exact hbefore
  have hpaid : ∀ j input,j≠i → (phases j).2.gate=.clear input true →
      (Function.update phases i (φ',ψ') j).2.gate=.clear input true := by
    intro j input hj hclear
    rw [Function.update_of_ne hj]
    exact hclear
  refine ⟨hsound.1,fun j k => ?_,h.excludes.answers hans,fun j => ?_,fun j => ?_,hhealthy,fun j hran => ?_,?_,?_⟩
  · by_cases hj : j=i
    · subst hj
      rw [Function.update_self,gate_held hgate hnotlost₀ hnotlost]
      exact count_own hans (h.locks j) k
    · rw [Function.update_of_ne hj,count_other hans (fun heq => hj (hthread heq))]
      exact h.locks j k
  · by_cases hj : j=i
    · subst hj
      rw [Function.update_self]
      exact hsound.2
    · rw [Function.update_of_ne hj]
      rcases hkind with ⟨_,hsame,_⟩ | hinside
      · exact hsame.taskSound (h.tasks j)
      · rw [(h.others_idle hthread hinside.held hinside.unserved hj).2]
        trivial
  · by_cases hj : j=i
    · subst hj
      rw [Function.update_self]
      exact hstands
    · rw [Function.update_of_ne hj]
      rcases hkind with ⟨_,hsame,_⟩ | hinside
      · exact (h.standing j).sameStore hsame hgrown
      · obtain ⟨hfree,hidle⟩ := h.others_idle hthread hinside.held hinside.unserved hj
        unfold Standing
        rw [hfree,hidle]
        trivial
  · by_cases hj : j=i
    · subst hj
      rw [Function.update_self] at hran
      have hlogs := @ran_logged Command ι (thread j) scope fingerprint w w' log (phases j).1 φ' j call r hturn.1 hans
        h.sound.wellFormed hran
      rcases hlogs with hbefore | hlogged
      · obtain ⟨answer,hanswer⟩ := h.called j hbefore
        exact ⟨answer,hgrown _ hanswer⟩
      · exact hlogged
    · rw [Function.update_of_ne hj] at hran
      obtain ⟨answer,hanswer⟩ := h.called j hran
      exact ⟨answer,hgrown _ hanswer⟩
  · -- a client is called only where no answer had to be recorded
    rcases hkind with ⟨_,_,hlog⟩ | hinside
    · rw [hlog]
      exact h.once
    · rcases hinside.logs with hlog | ⟨hcalling,r,hlog,_⟩
      · rw [hlog]
        exact h.once
      · rw [hlog,List.dropLast_concat]
        exact fun entry hentry hp => h.not_calling hthread (h.settled ⟨entry,hentry,hp⟩) i hcalling
  · rintro ⟨entry,hentry,hp⟩
    rcases hkind with ⟨hfree,hsame,hlog⟩ | hinside
    · rw [hlog] at hentry
      rcases h.settled ⟨entry,hentry,hp⟩ with hserved | ⟨j,input,hclear⟩
      · exact Or.inl (hserved.sameStore hsame)
      · refine Or.inr ⟨j,input,hpaid j input ?_ hclear⟩
        rintro rfl
        rw [hfree] at hclear
        exact nomatch hclear
    · have hold : (∃ entry∈log,IsPaid must entry.2) → Settled key (Function.update phases i (φ',ψ')) w' := by
        intro hbefore
        rcases h.settled hbefore with ⟨row,hrow,hkey,hservable⟩ | ⟨j,input,hclear⟩
        · rw [hinside.unserved row hrow hkey] at hservable
          exact nomatch hservable
        · have hji : j=i :=
            h.alone hthread (h.inside (i := j) (by rw [hclear]; exact fun h => nomatch h)).1 hinside.held
          subst hji
          rcases hinside.paid input hclear with ⟨input',hstill⟩ | hserved
          · exact Or.inr ⟨j,input',by rw [Function.update_self]; exact hstill⟩
          · exact Or.inl hserved
      rcases hinside.logs with hlog | ⟨_,r,hlog,hnow⟩
      · exact hold ⟨entry,hlog ▸ hentry,hp⟩
      · rw [hlog] at hentry
        rcases List.mem_append.mp hentry with hentry | hentry
        · exact hold ⟨entry,hentry,hp⟩
        · rw [List.mem_singleton.mp hentry] at hp
          obtain ⟨input',hclear⟩ := hnow hp
          exact Or.inr ⟨i,input',by rw [Function.update_self]; exact hclear⟩

end Callers

section Results
variable {Command ι : Type} [DecidableEq ι]

/-- Callers of one command, in threads of their own, over a store that nothing else uses. -/
abbrev CallersReach (service : CachedMlExecutionService Command) (fingerprint : Bytes → Digest) (command : Command)
    (thread : ι → ThreadId) (first : World) (progs : ι → ServiceM Command MlExecution) (w : World)
    (log : ClientLog ι) : Prop :=
  PoolReach (fun i => observed (Answers .exclusive (noFaults : Faults Command) (thread i)) (watchClient i))
    (fun _ : ι => execute service fingerprint command,(first,[])) (progs,(w,log))

/-- A store that the callers may start from: sound, with nobody in a lock and what is current complete. -/
structure Startable (service : CachedMlExecutionService Command) (fingerprint : Bytes → Digest) (command : Command)
    (key : ExecutionKey) (first : World) : Prop where
  /-- It is sound. -/
  sound : Sound fingerprint first
  /-- Nobody is in a lock. -/
  unlocked : first.held=[]
  /-- The key's current rows are complete. -/
  complete : ∀ row∈first.db.executions,row.executionKey=key → row.servable=true →
    Complete (Fills service command) first row

variable {service : CachedMlExecutionService Command} {fingerprint : Bytes → Digest} {command : Command}
  {identity : CallIdentity} {thread : ι → ThreadId} {first w : World} {log : ClientLog ι}
  {progs : ι → ServiceM Command MlExecution}

/-- How a caller ends: as an execute does, out of every lock. -/
def EndsOnce (service : CachedMlExecutionService Command) (command : Command) (r : Except PyExc MlExecution)
    (φ : Phase × GatePhase) : Prop :=
  Lands Phase.start (ExecuteAnswered service command) r φ.1 ∧ GateEnds (Stays []) r φ.2

/-- Wherever the callers stand, each follows both automata and all keep the invariant. -/
theorem callers_once (hrecords : Records service command) (hidentity : service.buildIdentity command=.ok identity)
    (hthread : Function.Injective thread) (hstart : Startable service fingerprint command identity.generateKey first)
    (h : CallersReach service fingerprint command thread first progs w log) :
    ∃ phases,Once fingerprint (Fills service command) identity.generateKey (Recordable service fingerprint command)
        thread first phases (w,log) ∧
      PoolFollows (fun _ : ι => Turns.both (Turn Scope.executes fingerprint).enabled
        (GateTurn identity.generateKey (Fills service command) (Recordable service fingerprint command)))
        (fun _ => EndsOnce service command) progs phases := by
  have hcovers : Covers Scope.executes service command := ⟨fun _ => rfl,rfl,Or.inl hrecords.quota⟩
  have hfollows : PoolFollows (fun _ : ι => Turns.both (Turn Scope.executes fingerprint).enabled
      (GateTurn identity.generateKey (Fills service command) (Recordable service fingerprint command)))
      (fun _ => EndsOnce service command) (fun _ => execute service fingerprint command)
      (fun _ => (Phase.start,⟨[],.free⟩)) := fun _ =>
    (conforms_execute service [] false hcovers).enabled.both (stays_execute service fingerprint hrecords hidentity)
  have hbegin : Once fingerprint (Fills service command) identity.generateKey (Recordable service fingerprint command)
      thread first (fun _ : ι => (Phase.start,⟨[],.free⟩)) (first,[]) := by
    refine ⟨hstart.sound,fun i k => ?_,fun a ha => ?_,fun _ => trivial,fun _ => trivial,fun row hrow hkey hserv =>
      ⟨hstart.complete row hrow hkey hserv,Or.inl ⟨row,hrow,hserv,rfl⟩⟩,fun _ hran => (nomatch hran),
      fun _ hentry => (nomatch hentry),fun ⟨_,hentry,_⟩ => (nomatch hentry)⟩
    · rw [hstart.unlocked]
      rfl
    · rw [hstart.unlocked] at ha
      exact nomatch ha
  exact (keeps_once hthread fun _ hmust => hmust.succeeded).reach hfollows hbegin h

/-- Any number of CACHE executes of one cacheable command side by side, where nothing faults and the key lock
excludes: at most one stands before its client's answer, none once the key has a current execution, and once a
client gave an answer that must be recorded no client is called again. -/
theorem record_once (service : CachedMlExecutionService Command) (fingerprint : Bytes → Digest) (command : Command)
    (hrecords : Records service command) (identity : CallIdentity)
    (hidentity : service.buildIdentity command=.ok identity) (thread : ι → ThreadId)
    (hthread : Function.Injective thread) (first w : World)
    (hstart : Startable service fingerprint command identity.generateKey first)
    (progs : ι → ServiceM Command MlExecution) (log : ClientLog ι)
    (h : CallersReach service fingerprint command thread first progs w log) :
    (∀ i j,AwaitsClient (progs i) → AwaitsClient (progs j) → i=j) ∧
    (IsServed identity.generateKey w → ∀ i,¬AwaitsClient (progs i)) ∧
    ((∃ entry∈log,IsPaid (Recordable service fingerprint command) entry.2) → ∀ i,¬AwaitsClient (progs i)) ∧
    ∀ entry∈log.dropLast,¬IsPaid (Recordable service fingerprint command) entry.2 := by
  obtain ⟨phases,honce,hfollows⟩ := callers_once hrecords hidentity hthread hstart h
  have hcalling : ∀ {i : ι},AwaitsClient (progs i) → (phases i).2.gate=.calling := calling_of_awaits honce hfollows
  have hinside : ∀ {i : ι},AwaitsClient (progs i) → identity.generateKey∈(phases i).2.held := by
    intro i hi
    exact (honce.inside (by rw [hcalling hi]; exact fun h => nomatch h)).1
  refine ⟨fun i j hi hj => honce.alone hthread (hinside hi) (hinside hj),fun hserved i hi => ?_,fun hpaid i hi => ?_,
    honce.once⟩
  · exact honce.not_calling hthread (Or.inl hserved) i (hcalling hi)
  · exact honce.not_calling hthread (honce.settled hpaid) i (hcalling hi)

/-- An execute that returned without calling its client returned the documents of a client's successful answer to
another caller, byte for byte, where nothing of the key was current at the start. -/
theorem answered_as_recorded (service : CachedMlExecutionService Command) (fingerprint : Bytes → Digest)
    (hinj : Function.Injective fingerprint) (command : Command)
    (hrecords : Records service command) (identity : CallIdentity)
    (hidentity : service.buildIdentity command=.ok identity) (thread : ι → ThreadId)
    (hthread : Function.Injective thread) (first w : World)
    (hstart : Startable service fingerprint command identity.generateKey first)
    (hunserved : Unserved identity.generateKey first)
    (progs : ι → ServiceM Command MlExecution) (log : ClientLog ι)
    (h : CallersReach service fingerprint command thread first progs w log) (i : ι) (result : MlExecution)
    (hdone : progs i=.done (.ok result)) (huncalled : ∀ entry∈log,entry.1≠i) :
    (∃ row∈w.db.executions,row.executionKey=identity.generateKey ∧ row.servable=true ∧
      row.executionId=result.executionId) ∧
    ∃ j answer outputs,(j,.ok answer)∈log ∧ answer.succeeded=true ∧
      buildArtifacts fingerprint result.executionId answer .pending=.ok outputs ∧
      (outputOf result.artifacts).map document=outputs.map document := by
  obtain ⟨phases,honce,hfollows⟩ := callers_once hrecords hidentity hthread hstart h
  have hend := hfollows i
  rw [hdone] at hend
  obtain ⟨hlands,hgate⟩ := hend
  have hstands := honce.standing i
  have htask := honce.tasks i
  have hfree : (phases i).2=⟨[],.free⟩ := by
    rcases hgate with hlost | hfree
    · unfold Standing at hstands
      rw [hlost] at hstands
      exact hstands.elim
    · exact hfree
  rw [hfree] at hstands
  obtain ⟨identity',hidentity',hserved | ⟨hran,_⟩⟩ := hlands.2.2
  · obtain ⟨loaded,got,hover,rfl⟩ := hserved
    cases hidentity.symm.trans hidentity'
    rcases hover with hover | hover
    · rw [hover] at htask
      obtain ⟨⟨row,hrow,hhit⟩,before,hbefore,hgot⟩ := htask
      rw [List.append_nil] at hbefore
      subst hbefore
      refine ⟨⟨row,hrow,hhit.key,hhit.servable,hhit.id⟩,?_⟩
      rcases (honce.healthy row hrow hhit.key hhit.servable).2 with ⟨old,hold,hservable,hsame⟩ | htraced
      · rw [hunserved old hold (hsame.symm.trans hhit.key)] at hservable
        exact nomatch hservable
      · obtain ⟨answer,documents,⟨j,hj⟩,hsuccess,⟨outputs,inputs,hout,hin,hdocs⟩,hrows⟩ := htraced
        rw [hhit.id] at hout hin
        refine ⟨j,answer,outputs,hj,hsuccess,hout,outputOf_hydrated hinj hout ?_ hgot⟩
        rw [← hhit.artifacts]
        exact outputRows_of_recording hout hin hdocs hrows
    · change Seeking _ (phases i).1.task at hstands
      rw [hover] at hstands
      exact hstands.elim
  · obtain ⟨answer,hanswer⟩ := honce.called i hran
    exact absurd rfl (huncalled _ hanswer)

end Results

/-- There are two of them. -/
local instance twoThreads : NeZero 2 := ⟨by decide⟩

/-- Each of two callers, with an answer of its own for its client. -/
def answering : List (Fin 2 × Handler (Call SmallestCommand) Call.Ret PyExc (World × ClientLog (Fin 2))) :=
  [(0,(answerWith .exclusive 0 1 (.ok { exitCode := 0, stdout := pyStr "a" }) ⟨8⟩).watched (watchClient 0)),
    (1,(answerWith .exclusive 1 1 (.ok { exitCode := 0, stdout := pyStr "b" }) ⟨9⟩).watched (watchClient 1))]

/-- Two executes of one new command, call by call in turn. -/
def calledTwice : Pool (Call SmallestCommand) Call.Ret PyExc (fun _ : Fin 2 => MlExecution) (World × ClientLog (Fin 2)) :=
  drivePool (List.replicate 30 answering).flatten
    (fun _ => execute smallestService positional ⟨.cache,.dataset⟩,(World.empty,[]))

/-- They are a run. -/
theorem calledTwice_reach : CallersReach smallestService positional ⟨.cache,.dataset⟩ (fun i : Fin 2 => (i : ℕ))
    World.empty calledTwice.1 calledTwice.2.1 calledTwice.2.2 := by
  refine drivePool_reach (List.replicate 30 answering).flatten (fun entry hentry => ?_)
    (fun _ : Fin 2 => execute smallestService positional ⟨.cache,.dataset⟩,(World.empty,[]))
  obtain ⟨entries,hentries,hmem⟩ := List.mem_flatten.mp hentry
  rw [List.eq_of_mem_replicate hentries] at hmem
  rcases List.mem_cons.mp hmem with rfl | hmem
  · exact (answerWith_respects _ _ _).watched _
  · rw [List.mem_singleton.mp hmem]
    exact (answerWith_respects _ _ _).watched _

/-- The command records. -/
theorem records_smallest : Records smallestService ⟨.cache,.dataset⟩ := ⟨rfl,rfl,rfl,rfl⟩

/-- A new store is one to start from. -/
theorem startable_empty : Startable smallestService positional ⟨.cache,.dataset⟩ ⟨0⟩ World.empty :=
  ⟨Sound.empty _,rfl,fun _ hrow => nomatch hrow⟩

/-- Both ended, one client was called, and nobody stands before a client. -/
theorem record_once_calledTwice :
    (calledTwice.1 0).value.isSome=true ∧ (calledTwice.1 1).value.isSome=true ∧
      calledTwice.2.2.map (·.1)=[0] ∧ ∀ i,¬AwaitsClient (calledTwice.1 i) := by
  have hserved : IsServed ⟨0⟩ calledTwice.2.1 := by
    unfold IsServed
    decide +kernel
  have honce := record_once smallestService positional ⟨.cache,.dataset⟩ records_smallest ⟨⟨0⟩,[],[]⟩ rfl
    (fun i : Fin 2 => (i : ℕ)) Fin.val_injective World.empty calledTwice.2.1 startable_empty calledTwice.1
    calledTwice.2.2 calledTwice_reach
  exact ⟨by decide +kernel,by decide +kernel,by decide +kernel,honce.2.1 hserved⟩

/-- The second caller was answered with what the first one's client said. -/
theorem answered_as_recorded_calledTwice : ∃ result,(calledTwice.1 1).value=some result ∧
    ∃ j answer outputs,(j,.ok answer)∈calledTwice.2.2 ∧ answer.succeeded=true ∧
      buildArtifacts positional result.executionId answer .pending=.ok outputs ∧
      (outputOf result.artifacts).map document=outputs.map document := by
  have hvalue : (calledTwice.1 1).value.isSome=true := by decide +kernel
  obtain ⟨result,hresult⟩ := Option.isSome_iff_exists.mp hvalue
  have huncalled : ∀ entry∈calledTwice.2.2,entry.1≠1 := by
    have hcallers : calledTwice.2.2.map (·.1)=[0] := by decide +kernel
    intro entry hentry heq
    have hmem : entry.1∈calledTwice.2.2.map (·.1) := List.mem_map_of_mem hentry
    rw [hcallers,heq] at hmem
    exact absurd hmem (by decide)
  exact ⟨result,hresult,(answered_as_recorded smallestService positional positional_injective ⟨.cache,.dataset⟩
    records_smallest ⟨⟨0⟩,[],[]⟩ rfl (fun i : Fin 2 => (i : ℕ)) Fin.val_injective World.empty calledTwice.2.1
    startable_empty (fun _ hrow => nomatch hrow) calledTwice.1 calledTwice.2.2 calledTwice_reach 1 result
    (Prog.value_eq_some.mp hresult) huncalled).2⟩

end GenericMlCache.RecordOnce
