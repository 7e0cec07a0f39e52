import GenericMlCache.CrashedRecordings
import GenericMlCache.OwnedDocuments
import GenericMlCache.RepairedRuns

/-!
# A repair behind a crash

A repair lists the run of a recording that stopped only where one of its documents is not
marked stored. It finalizes that run when the document's blob is there, whatever documents
the recording had not attached yet. What the key serves then is the documents attached so
far; in every other case the key serves nothing, until it is recorded anew.
-/

namespace GenericMlCache.CrashRepair

open CallProgram CallAutomaton PythonText ExecutionModel SqliteStore ExecutionRepository ExecutionQueries
  RepositoryCalls ServicePorts StoreRepair CachedExecution ServiceAutomaton StoreSoundness ExecuteCalls
  UndisturbedRuns AnsweredRuns UndisturbedRecordings CrashedRecordings RepairedRuns OwnedDocuments

section Blobs
variable {fingerprint : Bytes → Digest} {blobs : BlobStore} {documents : List Artifact} {id : ExecutionId}
  {key : BlobKey}

/-- What a key has after the documents are put: the content of one of them, or what it had. -/
theorem get_putDocuments (blobs : BlobStore) (documents : List Artifact) (key : BlobKey) :
    (∃ d∈documents,d.blobKey=key ∧ (putDocuments blobs documents).get key=some (d.content.getD [])) ∨
      ((∀ d∈documents,d.blobKey≠key) ∧ (putDocuments blobs documents).get key=blobs.get key) := by
  induction documents generalizing blobs with
  | nil =>
    right
    exact ⟨fun _ h => (nomatch h),rfl⟩
  | cons d documents ih =>
    rcases ih (blobs.put d.blobKey (d.content.getD [])) with ⟨d',hd',hkey,hget⟩ | ⟨hnone,hget⟩
    · exact .inl ⟨d',List.mem_cons_of_mem _ hd',hkey,hget⟩
    · by_cases hkey : d.blobKey=key
      · refine .inl ⟨d,List.mem_cons_self,hkey,hget.trans ?_⟩
        rw [BlobStore.get_put,if_pos hkey.symm]
      · refine .inr ⟨fun d' hd' => ?_,hget.trans ?_⟩
        · rcases List.mem_cons.mp hd' with rfl | hd'
          · exact hkey
          · exact hnone d' hd'
        · rw [BlobStore.get_put,if_neg (Ne.symm hkey)]

/-- The documents' puts keep every blob what its key is derived from. -/
theorem putDocuments_addressed (hdocuments : ∀ d∈documents,IsDocument fingerprint id d)
    (h : ∀ key content,blobs.get key=some content → Addressed fingerprint key content) :
    ∀ key content,(putDocuments blobs documents).get key=some content → Addressed fingerprint key content := by
  intro key content hget
  rcases get_putDocuments blobs documents key with ⟨d,hd,rfl,hput⟩ | ⟨_,hput⟩
  · cases Option.some.inj (hput.symm.trans hget)
    exact isDocument_put (hdocuments d hd)
  · exact h key content (hput.symm.trans hget)

/-- A document's content is what its key has, where the key has a blob. -/
theorem document_content (hinj : Function.Injective fingerprint) {d : Artifact} (hd : IsDocument fingerprint id d)
    (h : ∀ key content,blobs.get key=some content → Addressed fingerprint key content)
    (hpresent : (blobs.get d.blobKey).isSome=true) : ∃ content,d.content=some content ∧
      blobs.get d.blobKey=some content := by
  obtain ⟨content,hget⟩ := Option.isSome_iff_exists.mp hpresent
  obtain ⟨bytes,hcontent,hkey⟩ := isDocument_addressed hd
  have hsame : bytes=content := hinj (h d.blobKey content hget id (fingerprint bytes) hkey).symm
  exact ⟨content,hsame ▸ hcontent,hget⟩

/-- Every document that was put is there. -/
theorem putDocuments_present {d : Artifact} (hd : d∈documents) :
    ((putDocuments blobs documents).get d.blobKey).isSome=true := by
  rcases get_putDocuments blobs documents d.blobKey with ⟨_,_,_,hget⟩ | ⟨hnone,_⟩
  · rw [hget]
    rfl
  · exact absurd rfl (hnone d hd)

end Blobs

/-- The documents that a repair lets the key serve, of a recording that stopped there. -/
def CutPoint.kept (documents : List Artifact) : CutPoint → Option (List Artifact)
  | .running | .between _ => none
  | .attached done next present => if present=true then some (done ++ [next]) else none
  | .put done next => some (done ++ [next])
  | .served => some documents

/-- The key serves the execution with these documents, whose contents the blob store has. -/
def Serves (key : ExecutionKey) (id : ExecutionId) (documents : List Artifact) (w : World) : Prop :=
  ∃ row,w.db.currentRow key=some row ∧ row.executionId=id ∧ List.Forall₂ IsRowOf documents row.artifacts ∧
    ∀ d∈documents,∃ content,d.content=some content ∧ w.blobs.get d.blobKey=some content

/-- The key serves what was kept, or nothing. -/
def ServesKept (key : ExecutionKey) (id : ExecutionId) (kept : Option (List Artifact)) (w : World) : Prop :=
  match kept with
  | none => w.db.currentRow key=none
  | some documents => Serves key id documents w

/-- Locks that died with their process change nothing of it. -/
theorem ServesKept.unlocked {key : ExecutionKey} {id : ExecutionId} {kept : Option (List Artifact)} {w : World}
    (h : ServesKept key id kept w) (held : List (ThreadId × ExecutionKey)) :
    ServesKept key id kept { w with held := held } := by
  cases kept with
  | none => exact h
  | some documents => exact h

section Repaired
variable {blobs : BlobStore} {db db' : Db} {old : List ExecutionRow} {row row' : ExecutionRow} {key : ExecutionKey}
  {execution : MlExecution} {documents done : List Artifact} {next : Artifact}

/-- A last row that is current is the one its key serves. -/
theorem currentRow_of_last (h : db.executions=old ++ [row]) (hcurrent : isCurrent key row=true) :
    db.currentRow key=some row := by
  unfold Db.currentRow
  rw [h,List.filter_append,List.filter_cons_of_pos hcurrent,List.filter_nil,List.getLast?_append]
  rfl

/-- Related lists end in related elements. -/
theorem last_of_forall₂ {α β : Type} {R : α → β → Prop} {as : List α} {a : α} {bs : List β}
    (h : List.Forall₂ R (as ++ [a]) bs) : ∃ bs' b,bs=bs' ++ [b] ∧ R a b := by
  induction as generalizing bs with
  | nil =>
    obtain ⟨b,bs,hab,hnil,rfl⟩ := List.forall₂_cons_left_iff.mp h
    cases hnil
    exact ⟨[],b,rfl,hab⟩
  | cons _ as ih =>
    obtain ⟨b,bs,_,hrest,rfl⟩ := List.forall₂_cons_left_iff.mp h
    obtain ⟨bs',b',rfl,hab⟩ := ih hrest
    exact ⟨b::bs',b',rfl,hab⟩

/-- The last row is repaired to the last row. -/
theorem RepairedRows.last (h : RepairedRows blobs (Awaits db) db db') (hrows : db.executions=old ++ [row]) :
    ∃ old' row',db'.executions=old' ++ [row'] ∧ RowRepaired blobs (Awaits db) row row' := by
  have hall := h.rows
  rw [hrows] at hall
  exact last_of_forall₂ hall

/-- Of a last row's key, no other row awaits. -/
theorem awaits_last (hrows : db.executions=old ++ [row]) {run : ExecutionRow} (hawaits : Awaits db run)
    (hkey : run.executionKey=row.executionKey) : run=row := by
  have hmem : row∈db.executions := by
    rw [hrows]
    exact List.mem_append_right _ (List.mem_singleton_self row)
  have hle := (isAwaiting_iff.mp hawaits.2).2.2 row hmem hkey.symm
  have hlast : run∈old ∨ run=row := by
    have hrun := hawaits.1
    rw [hrows] at hrun
    exact (List.mem_append.mp hrun).imp_right List.mem_singleton.mp
  rcases hlast with hold | hrow
  · have hsorted := db.idsSorted
    rw [hrows] at hsorted
    have hlt : run.id<row.id := (List.pairwise_append.mp hsorted).2.2 run hold row (List.mem_singleton_self row)
    exact absurd hle (Nat.not_le.mpr hlt)
  · exact hrow

/-- A last row of a run that a repair does not list, or finds without its blob, leaves its key unserved. -/
theorem RepairedRows.unserved (h : RepairedRows blobs (Awaits db) db db') (hrows : db.executions=old ++ [row])
    (hkey : row.executionKey=key) (habsent : ∀ r∈db.executions,r.executionKey=key → r.servable=false)
    (hlost : Awaits db row → ¬Recoverable blobs row) : db'.currentRow key=none := by
  refine Db.currentRow_eq_none.mpr fun r' hr' hkey' => ?_
  obtain ⟨r,hr,hrep⟩ := (mem_of_forall₂ h.rows).1 r' hr'
  have hkeys : r.executionKey=key := hrep.ids.2.1.symm.trans hkey'
  have hnot := habsent r hr hkeys
  cases hrep with
  | untouched _ _ => exact hnot
  | superseded _ hservable _ _ _ _ => exact nomatch hnot.symm.trans hservable
  | @reconciled hawaits artifacts persisted _ hpersisted =>
    cases awaits_last hrows hawaits (hkeys.trans hkey.symm)
    have hfalse : persisted=false := by
      by_contra htrue
      exact hlost hawaits (hpersisted.mp (Bool.eq_true_of_not_eq_false htrue))
    by_contra hserv
    have hp := ((MutableColumns.servable_iff _).mp (Bool.eq_true_of_not_eq_false hserv)).2.1
    exact nomatch hfalse.symm.trans hp

/-- A document's row is one of the document once reconciled. -/
theorem IsRowOf.reconciled {listed : BlobKey → Prop} {d : Artifact} {a a' : ArtifactRow} (h : IsRowOf d a)
    (hrec : Reconciled blobs listed a a') : IsRowOf d a' := by
  cases hrec <;> exact h

/-- A run whose last document is not marked is listed. -/
theorem IsAttached.awaits (h : IsAttached execution done next row) (hpending : next.status=.pending)
    (hrows : db.executions=old ++ [row]) : Awaits db row := by
  obtain ⟨marked,hmarked,_⟩ := h.split
  refine ⟨by rw [hrows]; exact List.mem_append_right _ (List.mem_singleton_self row),isAwaiting_iff.mpr
    ⟨h.run.unpersisted,⟨artifactRow next,?_,?_⟩,fun r hr _ => ?_⟩⟩
  · rw [hmarked]
    exact List.mem_append_right _ (List.mem_singleton_self _)
  · show Column.value next.status≠_
    rw [hpending]
    exact fun heq => nomatch heq
  · rw [hrows] at hr
    have hsorted := db.idsSorted
    rw [hrows] at hsorted
    rcases List.mem_append.mp hr with hold | hlast
    · exact ((List.pairwise_append.mp hsorted).2.2 r hold row (List.mem_singleton_self row)).le
    · rw [List.mem_singleton.mp hlast]

/-- The run misses a blob only where the last document has none. -/
theorem IsAttached.recoverable (h : IsAttached execution done next row) (hpending : next.status=.pending) :
    Recoverable blobs row ↔ (blobs.get next.blobKey).isSome=true := by
  obtain ⟨marked,hmarked,hstored⟩ := h.split
  constructor
  · intro hrecoverable
    refine hrecoverable next.blobKey ⟨artifactRow next,?_,?_,rfl⟩
    · rw [hmarked]
      exact List.mem_append_right _ (List.mem_singleton_self _)
    · show Column.value next.status≠_
      rw [hpending]
      exact fun heq => nomatch heq
  · rintro hpresent k ⟨a,ha,hunstored,hkey⟩
    rw [hmarked] at ha
    rcases List.mem_append.mp ha with hold | hlast
    · exact absurd (hstored a hold) hunstored
    · rw [List.mem_singleton.mp hlast] at hkey
      rwa [← Column.value.inj hkey]

/-- A run whose last document has its blob is served with the documents attached. -/
theorem RepairedRows.serves (h : RepairedRows blobs (Awaits db) db db') (hrows : db.executions=old ++ [row])
    (hattached : IsAttached execution done next row) (hpending : next.status=.pending)
    (hpresent : (blobs.get next.blobKey).isSome=true) :
    ∃ row',db'.currentRow execution.callIdentity.generateKey=some row' ∧ row'.executionId=execution.executionId ∧
      List.Forall₂ IsRowOf (done ++ [next]) row'.artifacts := by
  obtain ⟨old',row',hrows',hrep⟩ := RepairedRows.last h hrows
  have hawaits : Awaits db row := IsAttached.awaits hattached hpending hrows
  cases hrep with
  | untouched hnot _ => exact absurd hawaits hnot
  | superseded _ hservable _ _ _ _ => exact absurd hservable hawaits.not_servable
  | @reconciled _ artifacts persisted hartifacts hpersisted =>
    have htrue : persisted=true := hpersisted.mpr ((IsAttached.recoverable hattached hpending).mpr hpresent)
    refine ⟨_,currentRow_of_last hrows' ?_,hattached.run.id,?_⟩
    · refine (isCurrent_iff _ _).mpr ⟨hattached.run.key,(MutableColumns.servable_iff _).mpr ?_⟩
      exact ⟨hattached.run.state,htrue,hattached.run.current⟩
    · have hkeeps : ∀ d a a',IsRowOf d a → Reconciled blobs (Unstored row) a a' → IsRowOf d a' :=
        fun _ _ _ => IsRowOf.reconciled
      exact FaithfulReplay.forall₂_trans hkeeps hattached.run.artifacts hartifacts

end Repaired

section Behind
variable {Command : Type} {service : CachedMlExecutionService Command} {fingerprint : Bytes → Digest}
  {command : Command} {identity : CallIdentity} {result : ClientRunResult} {w₀ w w' : World} {row : ExecutionRow}
  {execution : MlExecution} {documents : List Artifact} {id : ExecutionId} {point : CutPoint}

/-- The documents of a recording are built for it. -/
theorem Documents.isDocument (h : Documents service fingerprint command result id documents) :
    ∀ d∈documents,IsDocument fingerprint id d := by
  obtain ⟨outputs,inputs,hout,hin,rfl⟩ := h
  refine isDocument_of_recording ⟨outputs,inputs,hout,?_,rfl⟩
  unfold recordedInput at hin
  split at hin
  · exact ServiceConformance.buildInputArtifacts_ok service hin
  · cases hin
    exact fun _ h => nomatch h

/-- A row added to a store whose key serves nothing, which is not itself servable, leaves its key without one. -/
theorem Added.unservable {documents : List Artifact} {key : ExecutionKey} (h : Added w₀ row documents w)
    (habsent : w₀.db.currentRow key=none) (hrow : row.servable=false) :
    ∀ r∈w.db.executions,r.executionKey=key → r.servable=false := by
  intro r hr hkey
  rw [h.rows] at hr
  rcases List.mem_append.mp hr with hold | hlast
  · exact Db.currentRow_eq_none.mp habsent r hold hkey
  · rw [List.mem_singleton.mp hlast]
    exact hrow

/-- The row of a run in progress is not servable. -/
theorem IsRunRow.unservable {state : ExecutionState} (h : IsRunRow execution state documents row) : row.servable=false := by
  by_contra hserv
  have hp := ((MutableColumns.servable_iff _).mp (Bool.eq_true_of_not_eq_false hserv)).2.1
  exact nomatch h.unpersisted.symm.trans hp

/-- A document that is one of an execution's is pending. -/
theorem isDocument_pending {d : Artifact} (h : IsDocument fingerprint id d) : d.status=.pending := by
  obtain ⟨_,_,_,rfl⟩ := h
  rfl

/-- A repair behind a cut lets the key serve the documents that the cut keeps, or nothing. -/
theorem CutAt.repaired (h : CutAt w₀ execution documents point w) (hinj : Function.Injective fingerprint)
    (hdocuments : ∀ d∈documents,IsDocument fingerprint execution.executionId d)
    (haddressed : ∀ key content,w₀.blobs.get key=some content → Addressed fingerprint key content)
    (habsent : w₀.db.currentRow execution.callIdentity.generateKey=none) (hblobs : w'.blobs=w.blobs)
    (hrows : RepairedRows w.blobs (Awaits w.db) w.db w'.db) :
    ServesKept execution.callIdentity.generateKey execution.executionId (CutPoint.kept documents point) w' := by
  -- an unmarked document whose blob is there is all that a repair needs
  have hserved : ∀ {done rest : List Artifact} {next : Artifact} {row : ExecutionRow} {put : List Artifact},
      documents=done ++ next::rest → Added w₀ row put w → IsAttached execution done next row →
      (∀ d∈done,d∈put) → (w.blobs.get next.blobKey).isSome=true → (∀ d∈put,d∈documents) →
      Serves execution.callIdentity.generateKey execution.executionId (done ++ [next]) w' := by
    intro done rest next row put hsplit hadded hattached hput hpresent hof
    have hnext : next∈documents := by
      rw [hsplit]
      exact List.mem_append_right _ List.mem_cons_self
    obtain ⟨row',hcurrent,hid,hartifacts⟩ := RepairedRows.serves hrows hadded.rows hattached
      (isDocument_pending (hdocuments next hnext)) hpresent
    refine ⟨row',hcurrent,hid,hartifacts,fun d hd => ?_⟩
    rw [hblobs]
    have hcontents : ∀ key content,w.blobs.get key=some content → Addressed fingerprint key content := by
      rw [hadded.blobs]
      exact putDocuments_addressed (fun d hd => hdocuments d (hof d hd)) haddressed
    rcases List.mem_append.mp hd with hdone | hlast
    · have hthere : (w.blobs.get d.blobKey).isSome=true := by
        rw [hadded.blobs]
        exact putDocuments_present (hput d hdone)
      exact document_content hinj (hdocuments d (hof d (hput d hdone))) hcontents hthere
    · rw [List.mem_singleton.mp hlast]
      exact document_content hinj (hdocuments next hnext) hcontents hpresent
  cases h with
  | running hadded hrow =>
    refine RepairedRows.unserved hrows hadded.rows hrow.key (Added.unservable hadded habsent (IsRunRow.unservable hrow))
      fun hawaits _ => ?_
    obtain ⟨_,⟨a,ha,_⟩,_⟩ := isAwaiting_iff.mp hawaits.2
    rw [List.forall₂_nil_left_iff.mp hrow.artifacts] at ha
    exact nomatch ha
  | between hsplit hstores =>
    obtain ⟨row,hadded,hrow,hstored⟩ := hstores
    refine RepairedRows.unserved hrows hadded.rows hrow.key (Added.unservable hadded habsent (IsRunRow.unservable hrow))
      fun hawaits _ => ?_
    obtain ⟨_,⟨a,ha,hunstored⟩,_⟩ := isAwaiting_iff.mp hawaits.2
    exact hunstored (hstored a ha)
  | @attached done rest next row w hsplit hadded hattached =>
    have hof : ∀ d∈done,d∈documents := fun d hd => by
      rw [hsplit]
      exact List.mem_append_left _ hd
    have hnext : next∈documents := by
      rw [hsplit]
      exact List.mem_append_right _ List.mem_cons_self
    have hneeds : Recoverable w.blobs row ↔ (w.blobs.get next.blobKey).isSome=true :=
      IsAttached.recoverable hattached (isDocument_pending (hdocuments next hnext))
    cases hpresent : (w.blobs.get next.blobKey).isSome with
    | true => exact hserved hsplit hadded hattached (fun _ hd => hd) hpresent hof
    | false =>
      refine RepairedRows.unserved hrows hadded.rows hattached.run.key
        (Added.unservable hadded habsent (IsRunRow.unservable hattached.run)) fun _ hrecoverable => ?_
      exact nomatch hpresent.symm.trans (hneeds.mp hrecoverable)
  | @put done rest next row w hsplit hadded hattached =>
    refine hserved hsplit hadded hattached (fun _ hd => List.mem_append_left _ hd) ?_ fun d hd => ?_
    · rw [hadded.blobs]
      exact putDocuments_present (List.mem_append_right _ (List.mem_singleton_self next))
    · rw [hsplit]
      rcases List.mem_append.mp hd with hdone | hlast
      · exact List.mem_append_left _ hdone
      · rw [List.mem_singleton.mp hlast]
        exact List.mem_append_right _ List.mem_cons_self
  | @served row w hadded hpromoted =>
    have hcurrent : w.db.currentRow execution.callIdentity.generateKey=some row := by
      rw [currentRow_last hadded.rows,if_pos hpromoted.current]
    obtain ⟨hkey,hserv⟩ := (isCurrent_iff _ _).mp hpromoted.current
    have hkeeps := hrows.keeps_current fun run hawaits hrun =>
      absurd (awaits_last hadded.rows hawaits (hrun.trans hkey.symm) ▸ hserv) hawaits.not_servable
    refine ⟨row,hkeeps.trans hcurrent,hpromoted.id,hpromoted.artifacts,fun d hd => ?_⟩
    rw [hblobs]
    refine document_content hinj (hdocuments d hd) ?_ ?_
    · rw [hadded.blobs]
      exact putDocuments_addressed hdocuments haddressed
    · rw [hadded.blobs]
      exact putDocuments_present hd

/-- A cut leaves the store sound. -/
theorem CutAt.sound (h : CutAt w₀ execution documents point w) (hminted : ∀ r∈w₀.db.executions,r.executionId∈w₀.minted) :
    WellFormed w.db ∧ ∀ r∈w.db.executions,r.executionId∈w.minted := by
  have hadded : ∀ {row : ExecutionRow} {put : List Artifact},Added w₀ row put w →
      WellFormed w.db ∧ ∀ r∈w.db.executions,r.executionId∈w.minted := by
    intro row put hadded
    refine ⟨hadded.wf,fun r hr => ?_⟩
    rw [hadded.rows] at hr
    rw [hadded.minted]
    rcases List.mem_append.mp hr with hold | hlast
    · exact List.mem_cons_of_mem _ (hminted r hold)
    · rw [List.mem_singleton.mp hlast]
      exact List.mem_cons_self
  cases h with
  | running h _ | attached _ h _ | put _ h _ | served h _ => exact hadded h
  | between _ hstores =>
    obtain ⟨_,h,_⟩ := hstores
    exact hadded h

/-- A served row's execution is answered with its documents. -/
theorem Replayed.delivers {r : Except PyExc MlExecution} (h : Replayed row w r) (hid : row.executionId=id)
    (hrows : List.Forall₂ IsRowOf documents row.artifacts)
    (hcontents : ∀ d∈documents,∃ content,d.content=some content ∧ w.blobs.get d.blobKey=some content) :
    ∃ answer,r=.ok answer ∧ answer.executionId=id ∧ List.Forall₂ Delivers documents answer.artifacts := by
  obtain ⟨current,served,hload,rfl,hhydrated⟩ := h
  have hloaded := loadExecution_ok hload
  refine ⟨_,rfl,hloaded.1.trans hid,?_⟩
  rw [hloaded.2.1] at hrows
  have hmembers : List.Forall₂ (fun d a => d∈documents ∧ IsRowOf d (artifactRow a)) documents current.artifacts :=
    (List.forall₂_and_left _ _).mpr ⟨fun _ hd => hd,List.forall₂_map_right_iff.mp hrows⟩
  refine FaithfulReplay.forall₂_trans (fun d a b hda hab => ?_) hmembers hhydrated
  obtain ⟨hd,htype,hname,hkey⟩ := hda
  obtain ⟨content,hget,rfl⟩ := hab
  obtain ⟨content',hcontent,hget'⟩ := hcontents d hd
  rw [Column.value.inj hkey,hget'] at hget
  exact ⟨Column.value.inj htype,hname,hget.symm.trans hcontent.symm⟩

end Behind

/-- A plain cacheable call of an identity. -/
structure IsPlainCall {Command : Type} (service : CachedMlExecutionService Command) (command : Command)
    (identity : CallIdentity) : Prop where
  /-- The service does nothing around it. -/
  plain : IsPlain service command
  /-- This is the identity built for it. -/
  built : service.buildIdentity command=.ok identity
  /-- It does not bypass the cache. -/
  cacheable : service.isUncacheable command=false
  /-- It may replay. -/
  mode : service.cacheMode command=.cache
  /-- It stores output. -/
  depth : (service.persistenceDepth command).storesOutput=true

/-- What the next call of the key gets: what was kept without a client, or the client's answer. -/
def AnsweredKept (id : ExecutionId) (kept : Option (List Artifact)) (answer : Except PyExc MlExecution)
    (t : RunTrace) : Prop :=
  match kept with
  | none => t.calledClient=true
  | some documents => t.calledClient=false ∧
      ∃ served,answer=.ok served ∧ served.executionId=id ∧ List.Forall₂ Delivers documents served.artifacts

section Next
variable {Command : Type} {locks locks' locks'' : LockMode} {thread thread' thread'' : ThreadId}
  {service : CachedMlExecutionService Command} {fingerprint : Bytes → Digest} {command next : Command}
  {identity : CallIdentity} {client : Except PyExc ClientRunResult} {id : ExecutionId} {kept : Option (List Artifact)}
  {result : ClientRunResult} {w₀ w w' : World} {t : RunTrace}

/-- The next call of a key gets what it serves, or calls the client. -/
theorem ServesKept.answered (h : ServesKept identity.generateKey id kept w) (hcall : IsPlainCall service next identity)
    (hclient : bindText identity.summaryClient=.ok ()) (hmodel : bindText identity.summaryModel=.ok ())
    (hwf : WellFormed w.db) (hminted : ∀ r∈w.db.executions,r.executionId∈w.minted) {answer : Except PyExc MlExecution}
    {s : World × RunTrace} (hrun : Ends (replyingRun Command locks thread client)
      (execute service fingerprint next) (w,RunTrace.blank) answer s) : AnsweredKept id kept answer s.2 := by
  cases kept with
  | none =>
    have hmiss : IsMiss service next identity w := ⟨hcall.plain,hcall.built,hcall.cacheable,hcall.mode,hcall.depth,
      hclient,hmodel,h,hwf,hminted⟩
    have hany : ∀ {α : Type} (p : ServiceM Command α) (w : World),
        Safe (Answers locks noFaults thread) (fun _ => True) (fun _ _ => True) p w :=
      fun p w => Safe.of_reach fun _ _ _ => trivial
    exact ((safe_execute_miss (Q := fun _ _ => True) hmiss (fun _ _ _ _ _ => trivial)
      fun _ w' _ _ _ _ => hany _ w').result hrun).2
  | some documents =>
    obtain ⟨row,hcurrent,hid,hrows,hcontents⟩ := h
    have hblobs : ∀ a∈row.artifacts,∀ blobKey,a.blobKey=.value blobKey → (w.blobs.get blobKey).isSome=true := by
      intro a ha blobKey hkey
      obtain ⟨d,hd,hrow⟩ := (mem_of_forall₂ hrows).1 a ha
      obtain ⟨content,_,hget⟩ := hcontents d hd
      rw [← Column.value.inj (hrow.2.2.symm.trans hkey),hget]
      rfl
    have hhit : IsHit service next identity row w := ⟨hcall.plain,hcall.built,hcall.cacheable,hcall.mode,hcall.depth,
      hcurrent,hwf,hblobs⟩
    obtain ⟨⟨hreplayed,_⟩,hcalled⟩ := (safe_execute_hit hhit).result hrun
    exact ⟨hcalled,Replayed.delivers hreplayed hid hrows hcontents⟩

/-- A recording of a success may die at any call: then a repair lets its key serve exactly the
documents attached so far where the last of them is put and not marked, all of them where it was
finalized, and nothing otherwise. The next plain call of the key is answered with exactly those
documents, without the client, or calls it. -/
theorem crash_then_repair (hfresh : IsFresh service command identity w₀)
    (hkept : IsKept service fingerprint command result) (hinj : Function.Injective fingerprint)
    (haddressed : ∀ key content,w₀.blobs.get key=some content → Addressed fingerprint key content)
    {q : ServiceM Command MlExecution}
    (hcrash : Reach (replyingRun Command locks thread (.ok result)) (execute service fingerprint command)
      (w₀,RunTrace.blank) q (w,t))
    {report : Except PyExc RepairReport}
    (hrepair : Ends (Answers locks' (noFaults : Faults Command) thread') repair w report w') :
    (w.db=w₀.db ∧ w.blobs=w₀.blobs) ∨
      ∃ id documents point,Documents service fingerprint command result id documents ∧
        CutAt w₀ (inProgressExecution service identity id command) documents point w ∧
        ServesKept identity.generateKey id (CutPoint.kept documents point) w' ∧
        ∀ (held : List (ThreadId × ExecutionKey)) (locks'' : LockMode) (thread'' : ThreadId)
          (client : Except PyExc ClientRunResult) (next : Command),
          IsPlainCall service next identity → ∀ answer s,Ends (replyingRun Command locks'' thread'' client)
            (execute service fingerprint next) ({ w' with held := held },RunTrace.blank) answer s →
          AnsweredKept id (CutPoint.kept documents point) answer s.2 := by
  rcases ((safe_execute_cut hfresh hkept).reach hcrash).here with hsame | ⟨id,documents,point,hdocuments,hcut⟩
  · exact .inl hsame
  obtain ⟨hwf,hminted⟩ := CutAt.sound hcut hfresh.minted
  obtain ⟨_,hworld,hrows⟩ := (safe_repair hwf).result hrepair
  have hblobs : w'.blobs=w.blobs := by rw [hworld]
  have hserves : ServesKept identity.generateKey id (CutPoint.kept documents point) w' :=
    CutAt.repaired hcut hinj (Documents.isDocument hdocuments) haddressed hfresh.absent hblobs hrows
  have hwf' : WellFormed w'.db := reach_wellFormed hrepair hwf
  refine .inr ⟨id,documents,point,hdocuments,hcut,hserves,fun held _ _ client next hcall answer s hrun => ?_⟩
  refine ServesKept.answered (hserves.unlocked held) hcall hfresh.client hfresh.model hwf' ?_ hrun
  intro r' hr'
  obtain ⟨r,hr,hrep⟩ := (mem_of_forall₂ hrows.rows).1 r' hr'
  rw [hrep.ids.1,hworld]
  exact hminted r hr

end Next

section Half
open ServiceOperations

/-- A success with two documents. -/
def twoDocuments : ClientRunResult := { exitCode := 0, stdout := pyStr "o", stderr := pyStr "e" }

/-- Answer one call without a fault, watched. -/
def watchedCall : Handler (Call SmallestCommand) Call.Ret PyExc (World × RunTrace) :=
  (answerWith .exclusive 0 0 (.ok twoDocuments) ⟨0⟩).watched watchRun

/-- Eleven calls of the smallest service's command. -/
def elevenCalls (w : World) : ServiceM SmallestCommand MlExecution × (World × RunTrace) :=
  drive (List.replicate 11 watchedCall) (execute smallestService positional ⟨.cache,.cache⟩) (w,RunTrace.blank)

/-- They are a run. -/
theorem elevenCalls_reach (w : World) : Reach (replyingRun SmallestCommand .exclusive 0 (.ok twoDocuments))
    (execute smallestService positional ⟨.cache,.cache⟩) (w,RunTrace.blank) (elevenCalls w).1 (elevenCalls w).2 := by
  refine drive_reach _ (fun handler hmem => ?_) _ _
  rw [List.eq_of_mem_replicate hmem]
  exact answerWith_replies ⟨0⟩

/-- The repair behind a recording that died with its first document put and not marked. -/
def repairedHalf : ServiceM SmallestCommand RepairReport × World :=
  drive (answers 10 0) repair (elevenCalls World.empty).2.1

/-- The store of the next process: the locks died with the first one. -/
def afterRestart : World := { repairedHalf.2 with held := [] }

/-- The first recording of the smallest service. -/
theorem isFresh_empty : IsFresh smallestService ⟨.cache,.cache⟩ ⟨⟨0⟩,[],[]⟩ World.empty where
  quota := rfl
  built := rfl
  cacheable := rfl
  mode := rfl
  depth := rfl
  client := rfl
  model := rfl
  absent := rfl
  wf := WellFormed.empty
  minted _ hr := (List.not_mem_nil hr).elim

/-- Both documents fit the store. -/
theorem isKept_twoDocuments : IsKept smallestService positional ⟨.cache,.cache⟩ twoDocuments where
  success := rfl
  persist := rfl
  code := rfl
  usage := rfl
  documents id := by
    refine ⟨_,⟨_,_,rfl,rfl,rfl⟩,fun document hmem => ?_⟩
    rcases List.mem_cons.mp hmem with rfl | hmem
    · exact insertArtifacts_unnamed (Nat.one_lt_two_pow (by omega))
    · cases List.mem_singleton.mp hmem
      exact insertArtifacts_unnamed (Nat.one_lt_two_pow (by omega))

/-- A repair lets the key of a recording that died after the first of its two documents serve that
one; the next call is answered with it alone, without the client. -/
theorem crash_then_repair_half : ∃ id documents point served,
    Documents smallestService positional ⟨.cache,.cache⟩ twoDocuments id documents ∧ documents.length=2 ∧
      (elevenCalls afterRestart).1.value=some served ∧ served.artifacts.length=1 ∧
      ServesKept (CallIdentity.generateKey ⟨⟨0⟩,[],[]⟩) id (CutPoint.kept documents point) repairedHalf.2 ∧
      AnsweredKept id (CutPoint.kept documents point) (.ok served) (elevenCalls afterRestart).2.2 := by
  have hrows : (elevenCalls World.empty).2.1.db.executions.length=1 := by decide +kernel
  have hreported : repairedHalf.1.value.isSome=true := by decide +kernel
  have hanswered : (elevenCalls afterRestart).1.value.map (fun served => served.artifacts.length)=some 1 := by
    decide +kernel
  obtain ⟨report,hreport⟩ := Option.isSome_iff_exists.mp hreported
  obtain ⟨served,hserved,hlength⟩ := Option.map_eq_some_iff.mp hanswered
  have hrepair : Reach (Answers .exclusive (noFaults : Faults SmallestCommand) 0) repair
      (elevenCalls World.empty).2.1 repairedHalf.1 repairedHalf.2 := drive_reach _ (answers_respect 10 0) _ _
  rw [Prog.value_eq_some.mp hreport] at hrepair
  have hnext := elevenCalls_reach afterRestart
  rw [Prog.value_eq_some.mp hserved] at hnext
  have hcall : IsPlainCall smallestService ⟨.cache,.cache⟩ ⟨⟨0⟩,[],[]⟩ := ⟨⟨rfl,rfl,rfl⟩,rfl,rfl,rfl,rfl⟩
  have hempty : ∀ key content,World.empty.blobs.get key=some content → Addressed positional key content := by
    intro key content h
    cases h
  have hcrash : Reach (replyingRun SmallestCommand .exclusive 0 (.ok twoDocuments))
      (execute smallestService positional ⟨.cache,.cache⟩) (World.empty,RunTrace.blank) (elevenCalls World.empty).1
      ((elevenCalls World.empty).2.1,(elevenCalls World.empty).2.2) := elevenCalls_reach World.empty
  rcases crash_then_repair isFresh_empty isKept_twoDocuments positional_injective hempty hcrash hrepair with
    ⟨hdb,_⟩ | ⟨id,documents,point,hdocuments,_,hserves,hall⟩
  · rw [hdb] at hrows
    cases hrows
  · have hcount : documents.length=2 := by
      obtain ⟨outputs,inputs,houtputs,hinputs,rfl⟩ := hdocuments
      cases houtputs
      cases hinputs
      rfl
    exact ⟨id,documents,point,served,hdocuments,hcount,hserved,hlength,hserves,hall [] _ _ _ _ hcall _ _ hnext⟩

end Half

end GenericMlCache.CrashRepair
