import GenericMlCache.BlobOwners
import GenericMlCache.OwnedDocuments

/-!
# History under soft purges

Soft purges, evictions, repairs, refreshes and offline replays, in any number
and side by side, leave every execution row that was there: its state, its
failure, its usage and its identity stay, and its tags only grow. What they
remove is a row that one of them inserted itself.
-/

namespace GenericMlCache.KeptHistory

open CallProgram CallAutomaton PythonText ExecutionModel SqliteStore ExecutionRepository
  ExecutionQueries RepositoryCalls ServicePorts StorePurge StoreRepair CachedExecution ExecuteCalls
  ServiceAutomaton ServiceConformance ServiceOperations BareRows ReturnedRuns OwnedDocuments

/-- The second row is what is left of the first one, its history unchanged. -/
structure Lasts (row row' : ExecutionRow) : Prop where
  /-- The row id stays. -/
  id : row'.id=row.id
  /-- The execution's id stays. -/
  executionId : row'.executionId=row.executionId
  /-- The key stays. -/
  executionKey : row'.executionKey=row.executionKey
  /-- The kind stays. -/
  kind : row'.kind=row.kind
  /-- The creation time stays. -/
  createdAt : row'.createdAt=row.createdAt
  /-- The state stays. -/
  state : row'.state=row.state
  /-- The failure's reason stays. -/
  failureReason : row'.failureReason=row.failureReason
  /-- The failure's message stays. -/
  failureMessage : row'.failureMessage=row.failureMessage
  /-- The failure's exit code stays. -/
  failureExitCode : row'.failureExitCode=row.failureExitCode
  /-- The usage stays. -/
  tokenUsage : row'.tokenUsage=row.tokenUsage
  /-- Its tags only grow. -/
  tags : row.tags⊆row'.tags

/-- A row lasts as it is. -/
theorem Lasts.refl (row : ExecutionRow) : Lasts row row :=
  ⟨rfl,rfl,rfl,rfl,rfl,rfl,rfl,rfl,rfl,rfl,fun _ h => h⟩

/-- What is left of what is left. -/
theorem Lasts.trans {row row' row'' : ExecutionRow} (h : Lasts row row') (h' : Lasts row' row'') :
    Lasts row row'' where
  id := h'.id.trans h.id
  executionId := h'.executionId.trans h.executionId
  executionKey := h'.executionKey.trans h.executionKey
  kind := h'.kind.trans h.kind
  createdAt := h'.createdAt.trans h.createdAt
  state := h'.state.trans h.state
  failureReason := h'.failureReason.trans h.failureReason
  failureMessage := h'.failureMessage.trans h.failureMessage
  failureExitCode := h'.failureExitCode.trans h.failureExitCode
  tokenUsage := h'.tokenUsage.trans h.tokenUsage
  tags := fun _ ht => h'.tags (h.tags ht)

/-- The rows outside some executions last, and so does the identity of each. -/
structure Lasting (own : Option ExecutionId) (db db' : Db) : Prop where
  /-- Every other row lasts. -/
  rows : ∀ row∈db.executions,own≠some row.executionId → ∃ row'∈db'.executions,Lasts row row'
  /-- So does its identity. -/
  identities : ∀ row∈db.executions,own≠some row.executionId →
    ∀ i∈db.callIdentities,i.executionKey=row.executionKey → i∈db'.callIdentities

section Transactions
variable {own : Option ExecutionId} {db db' : Db}

/-- What stays as it is lasts. -/
theorem Lasting.refl (own : Option ExecutionId) (db : Db) : Lasting own db db :=
  ⟨fun row hrow _ => ⟨row,hrow,.refl row⟩,fun _ _ _ _ hi _ => hi⟩

/-- An update leaves what its columns leave. -/
theorem lasting_update {p : ExecutionRow → Bool} {f : MutableColumns → MutableColumns}
    (hf : ∀ row∈db.executions,p row=true → own≠some row.executionId → Lasts row (row.update f)) :
    Lasting own db (db.updateWhere p f) := by
  refine ⟨fun row hrow hown => ?_,fun _ _ _ i hi _ => hi⟩
  by_cases hp : p row=true
  · exact ⟨_,Db.mem_updateWhere_of hrow hp,hf row hrow hp hown⟩
  · exact ⟨row,Db.mem_updateWhere_of_not hrow (by simpa using hp),.refl row⟩

/-- What lasts twice lasts, where the second step spares the same executions. -/
theorem Lasting.trans {db'' : Db} (h : Lasting own db db') (h' : Lasting own db' db'') : Lasting own db db'' := by
  refine ⟨fun row hrow hown => ?_,fun row hrow hown i hi hkey => ?_⟩
  · obtain ⟨row',hrow',hlasts⟩ := h.rows row hrow hown
    obtain ⟨row'',hrow'',hlasts'⟩ := h'.rows row' hrow' (by rw [hlasts.executionId]; exact hown)
    exact ⟨row'',hrow'',hlasts.trans hlasts'⟩
  · obtain ⟨row',hrow',hlasts⟩ := h.rows row hrow hown
    refine h'.identities row' hrow' (by rw [hlasts.executionId]; exact hown) i
      (h.identities row hrow hown i hi hkey) ?_
    rw [hlasts.executionKey]
    exact hkey

/-- Superseding leaves all but currency. -/
theorem lasting_supersede (own : Option ExecutionId) (db : Db) (key : ExecutionKey) (now : Timestamp) :
    Lasting own db (supersedePriorCurrent db key now) :=
  lasting_update fun _ _ _ _ => ⟨rfl,rfl,rfl,rfl,rfl,rfl,rfl,rfl,rfl,rfl,fun _ h => h⟩

/-- A removal leaves the other executions and their identities. -/
theorem lasting_remove (id : ExecutionId) (db : Db) : Lasting (some id) db (removeExecution id db) := by
  refine ⟨fun row hrow hown => ⟨row,mem_removeExecution.mpr ⟨hrow,fun h => hown (by rw [h])⟩,.refl row⟩,?_⟩
  intro row hrow hown i hi hkey
  unfold removeExecution
  split
  next => exact hi
  next removed hremoved =>
    unfold dropOrphanIdentity
    split
    next hcount =>
      -- the removed row's key has no row left, so it is not this identity's
      refine List.mem_filter.mpr ⟨hi,?_⟩
      have hne : row.executionId≠id := fun h => hown (by rw [h])
      have hleft : row∈(db.deleteWhere (hasId id)).executions :=
        Db.mem_deleteWhere.mpr ⟨hrow,by simpa using hne⟩
      have hother := List.countP_eq_zero.mp hcount row hleft
      simp only [hasKey_iff] at hother
      simpa [hkey] using hother
    next => exact hi

/-- A saved run leaves what was there. -/
theorem lasting_save {execution : MlExecution} {now : Timestamp} (own : Option ExecutionId)
    (h : save execution now db=.ok db') : Lasting own db db' := by
  obtain ⟨id,_,_,hrows,hidentities⟩ := save_ok h
  have hold : Lasting own db (if isServable execution=true then
      supersedePriorCurrent db execution.callIdentity.generateKey now else db) := by
    split
    · exact lasting_supersede own db _ now
    · exact .refl own db
  refine ⟨fun row hrow hown => ?_,fun row _ _ i hi _ => ?_⟩
  · obtain ⟨row',hrow',hlasts⟩ := hold.rows row hrow hown
    refine ⟨row',?_,hlasts⟩
    rw [hrows]
    exact List.mem_append_left _ hrow'
  · rw [hidentities]
    exact mem_insertIdentity.1 i hi

/-- The calls that leave every row but at most one execution's own. -/
def Spares (own : Option ExecutionId) : StoreCall → Prop
  | .recordOutcome execution => own=some execution.executionId
  | .removeExecution id => own=some id
  | .hardDeleteExecution _ => False
  | _ => True

/-- A transaction leaves what its call spares. -/
theorem transact_lasting {now : Timestamp} {call : StoreCall} {a : call.Ret} (hcall : Spares own call)
    (h : transact now db call=.ok (a,db')) : Lasting own db db' := by
  have hsame : ∀ {p : ExecutionRow → Bool} {f : MutableColumns → MutableColumns},
      (∀ row,Lasts row (row.update f)) → Lasting own db (db.updateWhere p f) :=
    fun hf => lasting_update fun row _ _ _ => hf row
  cases call with
  | findCurrent | findAll | runsAwaitingPersistence | totalStoredBytes | currentExecutionsWithSizes
  | executionsByTag | allExecutionKeys =>
    rw [transact_read rfl h]
    exact .refl own db
  | save execution => exact lasting_save own (commit_ok.mp h)
  | recordOutcome execution =>
    obtain ⟨_,_,_,_,_,rfl⟩ := recordOutcome_ok (commit_ok.mp h)
    refine lasting_update fun row _ hp hown => ?_
    have hid : row.executionId=execution.executionId := (hasId_iff _ _).mp hp
    have hspares : own=some execution.executionId := hcall
    exact absurd (by rw [hspares,hid]) hown
  | persistArtifact id artifact =>
    obtain ⟨_,rfl⟩ := persistArtifact_ok (commit_ok.mp h)
    exact hsame fun _ => ⟨rfl,rfl,rfl,rfl,rfl,rfl,rfl,rfl,rfl,rfl,fun _ ht => ht⟩
  | markArtifactsStored id blobKey =>
    obtain ⟨_,rfl⟩ := markArtifacts_ok (commit_ok.mp h)
    exact hsame fun _ => ⟨rfl,rfl,rfl,rfl,rfl,rfl,rfl,rfl,rfl,rfl,fun _ ht => ht⟩
  | markArtifactsFailed id blobKey detail =>
    obtain ⟨_,_,hmark⟩ := ok_of_bind (commit_ok.mp h)
    obtain ⟨_,rfl⟩ := markArtifacts_ok hmark
    exact hsame fun _ => ⟨rfl,rfl,rfl,rfl,rfl,rfl,rfl,rfl,rfl,rfl,fun _ ht => ht⟩
  | finalizeOutputPersisted id =>
    obtain ⟨row,_,_,_,rfl⟩ := finalizeOutputPersisted_ok (commit_ok.mp h)
    refine Lasting.trans ?_ (lasting_update fun _ _ _ _ =>
      ⟨rfl,rfl,rfl,rfl,rfl,rfl,rfl,rfl,rfl,rfl,fun _ ht => ht⟩)
    split
    · exact lasting_supersede own db _ now
    · exact .refl own db
  | removeExecution id =>
    rw [← Except.ok.inj (commit_ok.mp h)]
    have hspares : own=some id := hcall
    rw [hspares]
    exact lasting_remove id db
  | addTags key tags =>
    rcases addTags_ok (commit_ok.mp h) with rfl | ⟨_,rfl⟩
    · exact .refl own _
    · exact hsame fun row => ⟨rfl,rfl,rfl,rfl,rfl,rfl,rfl,rfl,rfl,rfl,subset_foldl_insertTag tags row.tags⟩
  | addInputArtifacts key documents =>
    rcases addInputArtifacts_ok (commit_ok.mp h) with rfl | ⟨_,_,_,rfl⟩
    · exact .refl own _
    · exact hsame fun _ => ⟨rfl,rfl,rfl,rfl,rfl,rfl,rfl,rfl,rfl,rfl,fun _ ht => ht⟩
  | softPurgeExecution key =>
    rw [← Except.ok.inj (commit_ok.mp h)]
    exact hsame fun _ => ⟨rfl,rfl,rfl,rfl,rfl,rfl,rfl,rfl,rfl,rfl,fun _ ht => ht⟩
  | hardDeleteExecution key => exact hcall.elim

end Transactions

/-- A call that removes no row and resolves no run. -/
def keepsRows {Command : Type} : Call Command → Bool
  | .store (.recordOutcome _) | .store (.removeExecution _) | .store (.hardDeleteExecution _) => false
  | _ => true

/-- Any call but a hard delete. -/
def isSoft {Command : Type} : Call Command → Bool
  | .store (.hardDeleteExecution _) => false
  | _ => true

/-- The work of a refresh: it never serves, and evicts when it has recorded. -/
def Scope.refreshes : Scope := ⟨false,true,true,false⟩

/-- The task serves, back-fills and heals nothing. -/
def serving : Task → Bool
  | .hydrating _ _ | .healing _ _ | .refetched _ _ _ | .filling _ _ _ | .fillMarking _ _ _ _
  | .fillFailing _ _ _ _ | .served _ => true
  | _ => false

section Turns
variable {Command : Type} {fingerprint : Bytes → Digest} {locks : LockMode} {faults : Faults Command}
variable {thread : ThreadId} {φ φ' : Phase} {w w' : World} {call : Call Command} {r : Except PyExc call.Ret}

/-- The turns of a caller that keeps history: those of a refresh, or calls that keep rows. -/
inductive HistoryTurn (fingerprint : Bytes → Digest) : Turns (Call Command) Call.Ret PyExc Phase where
  | refresh {φ φ' : Phase} {call : Call Command} {r : Except PyExc call.Ret} (hsoft : isSoft call=true)
      (h : Turn Scope.refreshes fingerprint φ call r φ') : HistoryTurn fingerprint φ call r φ'
  | keep {φ : Phase} {call : Call Command} {r : Except PyExc call.Ret} (h : keepsRows call=true) :
      HistoryTurn fingerprint φ call r φ

/-- The next run of a repair is nothing served. -/
theorem serving_nextRun (runs : List UnpersistedRun) : serving (.nextRun runs)=false := by
  cases runs <;> rfl

/-- Nor is what a repair goes on to within a run. -/
theorem serving_reconciled (run : UnpersistedRun) (todo : List BlobKey) (complete : Bool)
    (rest : List UnpersistedRun) : serving (.reconciled run todo complete rest)=false := by
  unfold Task.reconciled
  split
  · exact serving_nextRun rest
  · rfl

/-- A refresh does not come to serve. -/
theorem turn_serving (h : Turn Scope.refreshes fingerprint φ call r φ')
    (hans : Answers locks faults thread call w r w') (hserving : serving φ.task=false) :
    serving φ'.task=false := by
  cases h with
  | quiet | acquire => exact hserving
  | raise =>
    obtain ⟨held,task,ran⟩ := φ
    cases task <;> first | rfl | exact nomatch hserving
  | release =>
    obtain ⟨held,task,ran⟩ := φ
    cases task <;> first | rfl | exact nomatch hserving
  | releaseRaised hrelease => exact (release_answered hrelease hans).elim
  | load hscope => exact nomatch hscope
  | refetch | attach => exact nomatch hserving
  | list hscope => exact nomatch hscope
  | repairMark | repairFail => exact serving_reconciled _ _ _ _
  | repairFinalize => exact serving_nextRun _
  | _ => first | rfl | exact nomatch hserving

/-- A repository call of a refresh spares every execution but the one it records. -/
theorem turn_spares {call : StoreCall} {r : Except PyExc call.Ret}
    (h : Turn Scope.refreshes fingerprint φ (.store call : Call Command) r φ')
    (hsoft : isSoft (.store call : Call Command)=true) (hserving : serving φ.task=false) {a : call.Ret}
    (hr : r=.ok a) : Spares (recorded φ.task) call := by
  subst hr
  cases h with
  | quiet hquiet => cases call <;> trivial
  | gate hgate =>
    rcases hgate with hc | hc | ⟨key,hc⟩ <;> cases hc
    trivial
  | healRow => exact nomatch hserving
  | hardDrop => exact nomatch hsoft
  | discard | abandon | outcome => rfl
  | _ => trivial

/-- The rows of a first database last in a store, and a caller records none of them. -/
structure Kept (w₀ : World) (phases : ι → Phase) (w : World) : Prop where
  /-- No minted id is forgotten. -/
  minted : ∀ id∈w₀.minted,id∈w.minted
  /-- The rows last. -/
  lasting : Lasting none w₀.db w.db
  /-- No caller is serving. -/
  serving : ∀ i,serving (phases i).task=false
  /-- What a caller records was not minted before. -/
  apart : ∀ i id,recorded (phases i).task=some id → id∉w₀.minted

/-- Every turn of callers that keep history keeps it. -/
theorem keeps_history {ι : Type} [DecidableEq ι] {thread : ι → ThreadId} {w₀ : World}
    (hminted : ∀ row∈w₀.db.executions,row.executionId∈w₀.minted) :
    PoolKeeps (fun _ : ι => HistoryTurn fingerprint)
      (fun i => (Answers locks faults (thread i) : Sem (Call Command) Call.Ret PyExc World)) (Kept w₀) := by
  intro phases i call r φ' w w' hturn hans hkept
  have hrows : ∀ own,(∀ id,own=some id → id∉w₀.minted) → Lasting own w.db w'.db →
      Lasting none w₀.db w'.db := by
    intro own hown hstep
    refine ⟨fun row hrow _ => ?_,fun row hrow _ i hi hkey => ?_⟩
    · obtain ⟨row',hrow',hlasts⟩ := hkept.lasting.rows row hrow (fun h => nomatch h)
      have hid : own≠some row'.executionId := fun h => hown _ h (by rw [hlasts.executionId]; exact hminted row hrow)
      obtain ⟨row'',hrow'',hlasts'⟩ := hstep.rows row' hrow' hid
      exact ⟨row'',hrow'',hlasts.trans hlasts'⟩
    · obtain ⟨row',hrow',hlasts⟩ := hkept.lasting.rows row hrow (fun h => nomatch h)
      have hid : own≠some row'.executionId := fun h => hown _ h (by rw [hlasts.executionId]; exact hminted row hrow)
      refine hstep.identities row' hrow' hid i (hkept.lasting.identities row hrow (fun h => nomatch h) i hi hkey) ?_
      rw [hlasts.executionKey]
      exact hkey
  have hlasting : Lasting none w₀.db w'.db := by
    cases hans with
    | commit now ht =>
      cases hturn with
      | refresh hsoft hturn =>
        have hspares := turn_spares hturn hsoft (hkept.serving i) rfl
        exact hrows _ (hkept.apart i) (transact_lasting hspares ht)
      | keep hkeep =>
        refine hrows none (fun _ h => nomatch h) (transact_lasting ?_ ht)
        next call _ _ => cases call <;> trivial
    | _ => exact hkept.lasting
  refine ⟨fun id hid => answers_minted hans (hkept.minted id hid),hlasting,fun j => ?_,fun j id hid => ?_⟩
  · by_cases hj : j=i
    · subst hj
      rw [Function.update_self]
      cases hturn with
      | refresh _ hturn => exact turn_serving hturn hans (hkept.serving j)
      | keep => exact hkept.serving j
    · rw [Function.update_of_ne hj]
      exact hkept.serving j
  · by_cases hj : j=i
    · subst hj
      rw [Function.update_self] at hid
      cases hturn with
      | refresh _ hturn =>
        rcases turn_recorded hturn hans hid with hgain | ⟨hbefore,_⟩
        · exact fun hmem => (answers_gain hans).1 id hgain (hkept.minted id hmem)
        · exact hkept.apart j id hbefore
      | keep => exact hkept.apart j id hid
    · rw [Function.update_of_ne hj] at hid
      exact hkept.apart j id hid

end Turns

section Programs
variable {Command α : Type}

/-- A plain call keeps rows. -/
theorem keepsRows_of_isPlain {call : Call Command} (h : isPlain call=true) : keepsRows call=true := by
  cases call with
  | store call => cases call <;> trivial
  | _ => rfl

/-- A call that keeps rows is no hard delete. -/
theorem isSoft_of_keepsRows {call : Call Command} (h : keepsRows call=true) : isSoft call=true := by
  cases call with
  | store call => cases call <;> trivial
  | _ => rfl

/-- The program keeps rows. -/
abbrev KeepsRows (p : ServiceM Command α) : Prop := Uses (fun call => keepsRows call=true) p

/-- A program of silent calls keeps rows. -/
theorem keepsRows_of_silent {L : PyExc → Prop} {p : ServiceM Command α}
    (h : Straight isSilent (fun call => isRelease call=true) L p) : KeepsRows p :=
  (untagged_of_straight h).mono fun _ hc => keepsRows_of_isPlain (isPlain_of_isUntagged hc)

/-- So does a plain one. -/
theorem keepsRows_of_plain {p : ServiceM Command α} (h : UsesPlain p) : KeepsRows p :=
  h.mono fun _ hc => keepsRows_of_isPlain hc

/-- A soft purge of some keys. -/
theorem keepsRows_purge (keys : List ExecutionKey) :
    KeepsRows (purge keys false : ServiceM Command PurgeReport) := keepsRows_of_silent (adding_softPurgeKeys keys)

/-- The keys of some sessions are read. -/
theorem keepsRows_keysForSessions (sessionIds : List PyStr) (keys : List ExecutionKey) :
    KeepsRows (keysForSessions sessionIds keys : ServiceM Command (List ExecutionKey)) := by
  induction sessionIds generalizing keys with
  | nil => exact Uses.pure _
  | cons sessionId rest ih => exact Uses.bind (Uses.perform rfl) fun _ => ih _

/-- An eviction of what is stale. -/
theorem keepsRows_evictStale (maxAge : ℤ) : KeepsRows (evictStale maxAge : ServiceM Command PurgeReport) := by
  refine Uses.ite (fun _ => Uses.pure _) fun _ => ?_
  refine Uses.bind (Uses.perform rfl) fun _ => Uses.bind (Uses.perform rfl) fun _ => ?_
  refine Uses.bind (Uses.bind (Uses.perform rfl) fun _ => Uses.pure _) fun _ => ?_
  exact keepsRows_of_silent (adding_softPurgeKeys _)

/-- An eviction to a quota. -/
theorem keepsRows_evictToQuota (maxBytes : ℕ) :
    KeepsRows (evictToQuota maxBytes : ServiceM Command PurgeReport) := by
  refine Uses.bind (Uses.perform rfl) fun _ => Uses.ite (fun _ => Uses.pure _) fun _ => ?_
  refine Uses.bind (Uses.perform rfl) fun _ => ?_
  refine Uses.bind (Uses.bind (Uses.perform rfl) fun _ => Uses.pure _) fun _ => ?_
  exact keepsRows_of_silent (adding_softPurgeKeys _)

/-- The blobs of a run under repair. -/
theorem keepsRows_reconcileBlobs (executionId : ExecutionId) (blobKeys : List BlobKey) :
    KeepsRows (reconcileBlobs executionId blobKeys : ServiceM Command (ℕ × ℕ)) := by
  induction blobKeys with
  | nil => exact Uses.pure _
  | cons blobKey rest ih =>
    refine Uses.bind (Uses.perform rfl) fun content => ?_
    refine Uses.ite (fun _ => ?_) fun _ => ?_
    · exact Uses.bind (Uses.perform rfl) fun _ => Uses.bind ih fun _ => Uses.pure _
    · exact Uses.bind (Uses.perform rfl) fun _ => Uses.bind ih fun _ => Uses.pure _

/-- The runs under repair. -/
theorem keepsRows_repairRuns (runs : List UnpersistedRun) (report : RepairReport) :
    KeepsRows (repairRuns runs report : ServiceM Command RepairReport) := by
  induction runs generalizing report with
  | nil => exact Uses.pure _
  | cons run rest ih =>
    refine Uses.bind ?_ fun report => ih report
    refine Uses.bind (keepsRows_reconcileBlobs _ _) fun counts => ?_
    exact Uses.ite (fun _ => Uses.bind (Uses.perform rfl) fun _ => Uses.pure _) fun _ => Uses.pure _

variable (service : CachedMlExecutionService Command) (fingerprint : Bytes → Digest)

/-- Serving a hit removes nothing. -/
theorem keepsRows_serveHit (key : ExecutionKey) (command : Command) (current : MlExecution) :
    KeepsRows (serveHit service fingerprint key command current) := by
  have hhydrate : UsesPlain (hydrate current : ServiceM Command MlExecution) :=
    (Straight.uses (straight_hydrate current) fun _ hr => plain_of_isRelease hr).mono fun _ hc => hc.1
  refine Uses.bind (keepsRows_of_plain hhydrate) fun _ => Uses.bind (Uses.perform rfl) fun _ => ?_
  refine Uses.bind (keepsRows_of_plain (direct_applyTags service key command).plain) fun _ => ?_
  exact Uses.bind (keepsRows_of_plain (plain_accumulateInput service fingerprint key command current))
    fun _ => Uses.pure _

/-- Serving offline removes nothing, healthy or not. -/
theorem keepsRows_serveOffline (key : ExecutionKey) (command : Command) :
    KeepsRows (serveOffline service fingerprint key command) := by
  have hmiss : ∀ message,KeepsRows (recordEvent service .miss key command >>= fun _ =>
      (raise (.cacheMiss message) : ServiceM Command MlExecution)) :=
    fun message => Uses.bind (Uses.perform rfl) fun _ => Uses.raise _
  refine Uses.bind (Uses.attempt (Uses.bind (Uses.perform rfl) fun found => ?_)) fun r => ?_
  · cases found with
    | none => exact Uses.pure _
    | some current => exact Uses.bind (keepsRows_serveHit service fingerprint key command current) fun _ => Uses.pure _
  · cases r with
    | ok served =>
      cases served with
      | some served => exact Uses.pure _
      | none => exact hmiss _
    | error e => exact Uses.ite (fun _ => hmiss _) fun _ => Uses.raise e

/-- A run that nothing stores. -/
theorem keepsRows_runUncacheable (identity : CallIdentity) (command : Command) :
    KeepsRows (runUncacheable service fingerprint identity command) := by
  refine Uses.ite (fun _ => Uses.bind (Uses.perform rfl) fun _ => Uses.raise _) fun _ => ?_
  refine Uses.bind (Uses.perform rfl) fun _ => Uses.bind (Uses.perform rfl) fun _ => ?_
  exact Uses.bind (Uses.ofExcept _) fun _ => Uses.bind (Uses.perform rfl) fun _ => Uses.pure _

/-- A run that is metered alone. -/
theorem keepsRows_runMetered (identity : CallIdentity) (command : Command) :
    KeepsRows (runMetered service fingerprint identity command) := by
  refine Uses.bind (Uses.perform rfl) fun _ => Uses.bind (Uses.perform rfl) fun _ => ?_
  refine Uses.bind (Uses.perform rfl) fun _ => Uses.bind (Uses.ofExcept _) fun _ => ?_
  exact Uses.bind (Uses.perform rfl) fun _ => Uses.pure _

/-- The program deletes no key. -/
abbrev UsesSoft (p : ServiceM Command α) : Prop := Uses (fun call => isSoft call=true) p

/-- What keeps rows is soft. -/
theorem soft_of_keepsRows {p : ServiceM Command α} (h : KeepsRows p) : UsesSoft p :=
  h.mono fun _ hc => isSoft_of_keepsRows hc

/-- A recording deletes no key. -/
theorem soft_runAndRecord (identity : CallIdentity) (command : Command) :
    UsesSoft (runAndRecord service fingerprint identity command) := by
  have hclient : ∀ inProgress,UsesSoft (runRecordedClient command inProgress) := by
    intro inProgress
    refine Uses.bind (Uses.attempt (Uses.perform rfl)) fun r => ?_
    cases r with
    | ok result => exact Uses.pure _
    | error e =>
      refine Uses.ite (fun _ => Uses.bind (Uses.perform rfl) fun _ => Uses.raise _) fun _ => ?_
      exact Uses.ite (fun _ => Uses.bind (Uses.perform rfl) fun _ => Uses.raise _) fun _ => Uses.raise _
  have hconclude : ∀ executionId allStored,UsesSoft
      (concludeRecording service identity.generateKey command executionId allStored) := by
    intro executionId allStored
    refine Uses.ite (fun _ => ?_) fun _ => Uses.perform rfl
    refine Uses.bind (Uses.perform rfl) fun _ => Uses.bind (Uses.perform rfl) fun _ => ?_
    refine Uses.bind (soft_of_keepsRows (keepsRows_of_plain (direct_applyTags service _ command).plain)) fun _ => ?_
    exact soft_of_keepsRows (keepsRows_of_silent (adding_afterRecord service))
  refine Uses.bind (soft_of_keepsRows (keepsRows_of_silent (silent_blobHealthGate service command))) fun _ => ?_
  refine Uses.ite (fun _ => ?_) fun _ => Uses.raise _
  refine Uses.bind (Uses.perform rfl) fun _ => Uses.bind (Uses.perform rfl) fun _ => ?_
  refine Uses.bind (hclient _) fun _ => Uses.ite (fun _ => ?_) fun _ => ?_
  · refine Uses.bind (Uses.perform rfl) fun _ => Uses.bind (Uses.ofExcept _) fun _ => ?_
    refine Uses.bind (Uses.ofExcept _) fun _ => ?_
    refine Uses.bind (soft_of_keepsRows (keepsRows_of_plain (plain_withContentWriteLock
      (plain_persistDocuments _ _)))) fun _ => ?_
    exact Uses.bind (hconclude _ _) fun _ => Uses.pure _
  · refine Uses.bind (Uses.perform rfl) fun _ => Uses.bind (Uses.perform rfl) fun _ => ?_
    exact Uses.bind (Uses.ofExcept _) fun _ => Uses.pure _

/-- A refresh deletes no key. -/
theorem soft_refresh {command : Command} (hmode : service.cacheMode command=.refresh) :
    UsesSoft (execute service fingerprint command) := by
  refine Uses.bind (Uses.ofExcept _) fun identity => ?_
  refine Uses.ite (fun _ => soft_of_keepsRows (keepsRows_runUncacheable service fingerprint _ _)) fun _ => ?_
  refine Uses.bind (soft_of_keepsRows (keepsRows_of_silent (silent_tokenGate service command))) fun _ => ?_
  unfold executeCacheable
  simp only [hmode]
  refine Uses.ite (fun _ => ?_) fun _ => soft_of_keepsRows (keepsRows_runMetered service fingerprint _ _)
  unfold runFreshLocked
  simp only [hmode,reduceCtorEq,if_false]
  exact Uses.bind (Uses.perform rfl) fun _ =>
    Uses.ensure (soft_runAndRecord service fingerprint identity command) (Uses.perform rfl)

/-- An execute that neither replays nor records removes nothing. -/
theorem keepsRows_execute {command : Command} (h : service.isUncacheable command=true ∨
      service.cacheMode command=.offline ∨
      service.cacheMode command≠.offline ∧ (service.persistenceDepth command).storesOutput=false) :
    KeepsRows (execute service fingerprint command) := by
  refine Uses.bind (Uses.ofExcept _) fun identity => ?_
  refine Uses.ite (fun _ => keepsRows_runUncacheable service fingerprint _ _) fun hcacheable => ?_
  refine Uses.bind (keepsRows_of_silent (silent_tokenGate service command)) fun _ => ?_
  rcases h with h | hmode | ⟨hmode,hdepth⟩
  · exact absurd h hcacheable
  · simp only [executeCacheable,hmode]
    exact keepsRows_serveOffline service fingerprint _ _
  · have hmetered := keepsRows_runMetered service fingerprint identity command
    cases hcase : service.cacheMode command with
    | offline => exact absurd hcase hmode
    | cache | refresh =>
      simp only [executeCacheable,hcase,hdepth,Bool.false_eq_true,if_false]
      exact hmetered

end Programs

/-- The operations that keep history: all but hard purges, and but the executes
that may heal what they cannot serve. -/
def keepsHistory {Command : Type} : Operation Command → Bool
  | .execute service command => service.isUncacheable command || decide (service.cacheMode command≠.cache) ||
      !(service.persistenceDepth command).storesOutput
  | .purgeByKey _ hard | .purgeByTag _ hard | .purgeBySession _ hard | .purgeBySessionTag _ hard
  | .purgeAll hard => !hard
  | .evictStale _ | .evictToQuota _ | .addTags _ _ | .repair => true

section Operations
variable {Command : Type} {fingerprint : Bytes → Digest}

/-- A program that keeps rows follows the turns of history. -/
theorem follows_keepsRows {p : ServiceM Command Unit} (h : KeepsRows p) :
    Follows (HistoryTurn fingerprint) (fun _ _ => True) p Phase.start :=
  (Follows.of_still h fun _ _ hc => .keep hc).weaken fun _ _ _ => trivial

/-- So does its value's discard. -/
theorem follows_discard {α : Type} {p : ServiceM Command α} (h : KeepsRows p) :
    Follows (HistoryTurn fingerprint) (fun _ _ => True) (ServiceOperations.discard p) Phase.start :=
  follows_keepsRows (Uses.bind h fun _ => Uses.pure _)

/-- Every operation that keeps history follows its turns. -/
theorem follows_history {op : Operation Command} (h : keepsHistory op=true) :
    Follows (HistoryTurn fingerprint) (fun _ _ => True) (program fingerprint op) Phase.start := by
  have hpurge : ∀ {hard : Bool} (keys : List ExecutionKey),(!hard)=true →
      KeepsRows (purge keys hard : ServiceM Command PurgeReport) := by
    intro hard keys hsoft
    cases hard with
    | true => exact nomatch hsoft
    | false => exact keepsRows_purge keys
  cases op with
  | execute service command =>
    by_cases hrefresh : service.cacheMode command=.refresh
    · have hcovers : Covers Scope.refreshes service command :=
        ⟨fun hmode => absurd hrefresh hmode,rfl,Or.inr rfl⟩
      have hexecute : Conforms Scope.refreshes fingerprint Phase.start (ExecuteAnswered service command)
          (execute service fingerprint command) := conforms_execute service [] false hcovers
      have hconforms := conforms_discard hexecute fun _ _ hanswered => hanswered.settled
      have hsoft : UsesSoft (ServiceOperations.discard (execute service fingerprint command)) :=
        Uses.bind (soft_refresh service fingerprint hrefresh) fun _ => Uses.pure _
      exact (hconforms.restrict hsoft).mono (fun _ _ _ _ hturn => .refresh hturn.1 hturn.2) fun _ _ _ => trivial
    · refine follows_discard (keepsRows_execute service fingerprint ?_)
      simp only [keepsHistory,Bool.or_eq_true,decide_eq_true_eq,Bool.not_eq_true'] at h
      cases hmode : service.cacheMode command with
      | offline => exact Or.inr (Or.inl rfl)
      | refresh => exact absurd hmode hrefresh
      | cache =>
        rcases h with (h | h) | h
        · exact Or.inl h
        · exact absurd hmode h
        · exact Or.inr (Or.inr ⟨by simp,h⟩)
  | purgeByKey key hard =>
    have hkeeps : KeepsRows (purgeByKey key hard : ServiceM Command PurgeReport) :=
      Uses.bind (Uses.perform rfl) fun _ => Uses.ite (fun _ => Uses.pure _) fun _ => hpurge _ h
    exact follows_discard hkeeps
  | purgeByTag tag hard =>
    have hkeeps : KeepsRows (purgeByTag tag hard : ServiceM Command PurgeReport) :=
      Uses.bind (Uses.perform rfl) fun _ => hpurge _ h
    exact follows_discard hkeeps
  | purgeBySession sessionId hard =>
    have hkeeps : KeepsRows (purgeBySession sessionId hard : ServiceM Command PurgeReport) :=
      Uses.bind (Uses.perform rfl) fun _ => hpurge _ h
    exact follows_discard hkeeps
  | purgeBySessionTag tag hard =>
    have hkeeps : KeepsRows (purgeBySessionTag tag hard : ServiceM Command PurgeReport) :=
      Uses.bind (Uses.perform rfl) fun _ => Uses.bind (keepsRows_keysForSessions _ _) fun _ => hpurge _ h
    exact follows_discard hkeeps
  | purgeAll hard =>
    have hkeeps : KeepsRows (purgeAll hard : ServiceM Command PurgeReport) :=
      Uses.ite (fun _ => Uses.bind (Uses.perform rfl) fun _ => hpurge _ h)
        fun _ => Uses.bind (Uses.perform rfl) fun _ => hpurge _ h
    exact follows_discard hkeeps
  | evictStale maxAge => exact follows_discard (keepsRows_evictStale maxAge)
  | evictToQuota maxBytes => exact follows_discard (keepsRows_evictToQuota maxBytes)
  | addTags key tags => exact follows_keepsRows (Uses.perform rfl)
  | repair =>
    have hkeeps : KeepsRows (repair : ServiceM Command RepairReport) :=
      Uses.bind (Uses.perform rfl) fun _ => keepsRows_repairRuns _ _
    exact follows_discard hkeeps

/-- Any number of soft purges, evictions, repairs, refreshes, offline replays
and metered runs, side by side, under any locks and with any faults: at every
point every execution that was recorded before is there, with its state, its
failure, its usage, its tags and its identity. -/
theorem history_lasts {ι : Type} [DecidableEq ι] (ops : ι → Operation Command)
    (hops : ∀ i,keepsHistory (ops i)=true) (locks : LockMode) (faults : Faults Command) (thread : ι → ThreadId)
    (w₀ w : World) (progs : ι → ServiceM Command Unit)
    (hminted : ∀ row∈w₀.db.executions,row.executionId∈w₀.minted)
    (h : PoolReach (fun i => Answers locks faults (thread i)) (fun i => program fingerprint (ops i),w₀) (progs,w)) :
    (∀ row∈w₀.db.executions,∃ row'∈w.db.executions,Lasts row row') ∧
      ∀ i∈w₀.db.callIdentities,(∃ row∈w₀.db.executions,row.executionKey=i.executionKey) →
        i∈w.db.callIdentities := by
  have hfollows : PoolFollows (fun _ : ι => HistoryTurn fingerprint) (fun _ _ _ => True)
      (fun i => program fingerprint (ops i)) (fun _ => Phase.start) := fun i => follows_history (hops i)
  have hstart : Kept w₀ (fun _ : ι => Phase.start) w₀ :=
    ⟨fun _ hid => hid,.refl none w₀.db,fun _ => rfl,fun _ _ hid => nomatch hid⟩
  obtain ⟨_,hkept,_⟩ := (keeps_history hminted).reach hfollows hstart h
  refine ⟨fun row hrow => hkept.lasting.rows row hrow (fun hid => nomatch hid),?_⟩
  rintro i hi ⟨row,hrow,hkey⟩
  exact hkept.lasting.identities row hrow (fun hid => nomatch hid) i hi hkey.symm

end Operations

/-- A soft purge of a recorded call and a refresh of it. -/
def purgeAndRefresh : Fin 2 → Operation SmallestCommand
  | 0 => .purgeByKey ⟨0⟩ false
  | 1 => .execute smallestService ⟨.refresh,.cache⟩

/-- There are two of them. -/
local instance twoOperations : NeZero 2 := ⟨by decide⟩

/-- One call of the purge and one of the refresh, over locks that do not exclude. -/
def alternating : List (Fin 2 × Handler (Call SmallestCommand) Call.Ret PyExc World) :=
  [(0,answerWith .unlocked 0 1 (.ok { exitCode := 0 }) ⟨8⟩),
    (1,answerWith .unlocked 1 1 (.ok { exitCode := 0, stdout := pyStr "o" }) ⟨9⟩)]

/-- Both have run, call by call. -/
def purgedBesideRefresh : Pool (Call SmallestCommand) Call.Ret PyExc (fun _ : Fin 2 => Unit) World :=
  drivePool (List.replicate 20 alternating).flatten
    (fun i => program positional (purgeAndRefresh i),BlobOwners.recorded)

/-- The purged run is still in the store, beside the refreshed one. -/
theorem history_lasts_purged :
    purgedBesideRefresh.2.db.executions.map (fun row => (row.executionId,row.servable))=
      [(⟨7⟩,false),(⟨9⟩,true)] ∧
    ∀ row∈BlobOwners.recorded.db.executions,∃ row'∈purgedBesideRefresh.2.db.executions,Lasts row row' := by
  have hrun : PoolReach (fun i => Answers .unlocked noFaults (if i=0 then 0 else 1))
      (fun i => program positional (purgeAndRefresh i),BlobOwners.recorded) purgedBesideRefresh := by
    refine drivePool_reach _ (fun entry hentry => ?_) _
    obtain ⟨entries,hentries,hmem⟩ := List.mem_flatten.mp hentry
    rw [List.eq_of_mem_replicate hentries] at hmem
    rcases List.mem_cons.mp hmem with rfl | hmem
    · exact answerWith_respects _ _ _
    · rw [List.mem_singleton.mp hmem]
      exact answerWith_respects _ _ _
  have hlasts := history_lasts purgeAndRefresh (by decide) .unlocked noFaults _ BlobOwners.recorded _ _
    (by decide +kernel) hrun
  exact ⟨by decide +kernel,hlasts.1⟩

end GenericMlCache.KeptHistory
