import GenericMlCache.StoreSoundness

/-!
# A replay is the latest recorded answer

The ideal store is a map from keys to client results: a finalized success sets
it and a purge clears it. Where nothing faults and operations run one after
another, the store refines that map. Its servable rows have the documents of
the recorded result, with every blob in place, so a hit returns exactly them.
-/

namespace GenericMlCache.FaithfulReplay

open CallProgram CallAutomaton PythonText ExecutionModel SqliteStore ExecutionRepository
  ExecutionQueries RepositoryCalls ServicePorts StorePurge CachedExecution ServiceAutomaton
  ServiceConformance ServiceOperations StoreSoundness

/-- The recorded answers, with what is needed to tell them from the calls: the
key each id was saved under, the client's last result, and whether the
operation under way has called the client. -/
structure Ledger where
  /-- The key that an id was saved under. -/
  owner : ExecutionId → Option ExecutionKey
  /-- The client's last result. -/
  latest : Option ClientRunResult
  /-- The recorded answer of each key. -/
  answer : ExecutionKey → Option ClientRunResult
  /-- Whether the operation has called the client. -/
  called : Bool

/-- Nothing recorded. -/
def Ledger.empty : Ledger := ⟨fun _ => none,none,fun _ => none,false⟩

/-- The answer of a finalized run becomes its key's, if it succeeded. -/
def Ledger.finalized (l : Ledger) (executionId : ExecutionId) : Ledger :=
  match l.owner executionId,l.latest with
  | some key,some result =>
    if result.succeeded=true then { l with answer := Function.update l.answer key (some result) }
    else l
  | _,_ => l

/-- A purge forgets a key's answer. -/
def Ledger.purged (l : Ledger) (key : ExecutionKey) : Ledger :=
  { l with answer := Function.update l.answer key none }

/-- Watch the calls that record and forget answers. -/
def watchLedger {Command : Type} : (call : Call Command) → Except PyExc call.Ret → Ledger → Ledger
  | .store (.save execution),.ok _,l =>
    { l with
      owner := Function.update l.owner execution.executionId
        (some execution.callIdentity.generateKey) }
  | .runClient _,.ok result,l => { l with latest := some result, called := true }
  | .runClient _,.error _,l => { l with latest := none, called := true }
  | .store (.finalizeOutputPersisted executionId),.ok _,l => l.finalized executionId
  | .store (.softPurgeExecution key),.ok _,l => l.purged key
  | .store (.hardDeleteExecution key),.ok _,l => l.purged key
  | _,_,l => l

/-- Corresponding members of corresponding lists. -/
theorem forall₂_trans {α β γ : Type} {R : α → β → Prop} {S : β → γ → Prop} {T : α → γ → Prop}
    (h : ∀ a b c,R a b → S b c → T a c) {as : List α} {bs : List β} {cs : List γ}
    (hr : List.Forall₂ R as bs) (hs : List.Forall₂ S bs cs) : List.Forall₂ T as cs := by
  induction hr generalizing cs with
  | nil =>
    cases hs
    exact .nil
  | cons hd _ ih =>
    cases hs with
    | cons hd' hs => exact .cons (h _ _ _ hd hd') (ih hs)

/-- The same document, whatever its status. -/
def SameDocument (a b : ArtifactRow) : Prop :=
  a.artifactType=b.artifactType ∧ a.name=b.name ∧ a.blobKey=b.blobKey

/-- Rows have the documents they have. -/
theorem sameDocuments_refl (rows : List ArtifactRow) : List.Forall₂ SameDocument rows rows :=
  List.forall₂_same.mpr fun _ _ => ⟨rfl,rfl,rfl⟩

/-- Marked rows have the documents they had. -/
theorem sameDocuments_mark {blobKey : BlobKey} {mark : ArtifactRow → ArtifactRow}
    (hmark : KeepsDocument mark) (c : MutableColumns) :
    List.Forall₂ SameDocument (markColumns blobKey mark c).artifacts c.artifacts := by
  refine List.forall₂_map_left_iff.mpr (List.forall₂_same.mpr fun a _ => ?_)
  split
  · exact hmark a
  · exact ⟨rfl,rfl,rfl⟩

/-- Every servable row was a servable row, with the same documents. -/
def Retains (db db' : Db) : Prop :=
  ∀ row∈db'.executions,row.servable=true → ∃ before∈db.executions,before.servable=true ∧
    row.executionId=before.executionId ∧ row.executionKey=before.executionKey ∧
    List.Forall₂ SameDocument row.artifacts before.artifacts

section Retaining
variable {db db' : Db}

/-- Rows that were there are retained. -/
theorem Retains.subset (hsub : ∀ row∈db'.executions,row.servable=true → row∈db.executions) :
    Retains db db' :=
  fun row hrow hserv => ⟨row,hsub row hrow hserv,hserv,rfl,rfl,sameDocuments_refl _⟩

/-- An update retains rows where it makes none servable and changes no document
of a servable one. -/
theorem Retains.update {p : ExecutionRow → Bool} {f : MutableColumns → MutableColumns}
    (hf : ∀ row∈db.executions,p row=true → (f row.toMutableColumns).servable=true →
      row.servable=true ∧ List.Forall₂ SameDocument (f row.toMutableColumns).artifacts row.artifacts) :
    Retains db (db.updateWhere p f) := by
  intro row hrow hserv
  obtain ⟨r,hr,rfl⟩ := Db.mem_updateWhere.mp hrow
  by_cases hp : p r=true
  · simp only [if_pos hp] at hserv ⊢
    obtain ⟨hserv',hdocs⟩ := hf r hr hp hserv
    exact ⟨r,hr,hserv',rfl,rfl,hdocs⟩
  · simp only [if_neg hp] at hserv ⊢
    exact ⟨r,hr,hserv,rfl,rfl,sameDocuments_refl _⟩

/-- A mark retains every row. -/
theorem Retains.mark {executionId : ExecutionId} {blobKey : BlobKey}
    {mark : ArtifactRow → ArtifactRow} (hmark : KeepsDocument mark) :
    Retains db (db.updateWhere (hasId executionId) (markColumns blobKey mark)) :=
  Retains.update fun _ _ _ hserv => ⟨hserv,sameDocuments_mark hmark _⟩

/-- Rows appended to an execution that is not servable retain every row. -/
theorem Retains.withArtifacts {executionId : ExecutionId} {rows : List ArtifactRow}
    (hrow : ∀ row∈db.executions,row.executionId=executionId → row.servable=false) :
    Retains db (db.updateWhere (hasId executionId) (withArtifacts rows)) := by
  refine Retains.update fun row hmem hp hserv => ?_
  have hbefore : row.servable=true := hserv
  rw [hrow row hmem ((hasId_iff _ _).mp hp)] at hbefore
  exact nomatch hbefore

/-- A call without effect on documents retains every row. -/
theorem retains_sameStore {w w' : World} (h : SameStore w w') : Retains w.db w'.db := by
  rcases h.db with heq | ⟨key,tags,htags⟩
  · exact Retains.subset fun row hrow _ => heq ▸ hrow
  · rcases addTags_ok htags with heq | ⟨id,heq⟩
    · exact Retains.subset fun row hrow _ => heq ▸ hrow
    · rw [heq]
      exact Retains.update fun _ _ _ hserv => ⟨hserv,sameDocuments_refl _⟩

/-- Finalizing promotes only the row of its id. -/
theorem retains_finalize {executionId : ExecutionId} {now : Timestamp} {row : ExecutionRow}
    (hf : finalizeOutputPersisted executionId now db=.ok db') (hrow : row∈db'.executions)
    (hserv : row.servable=true) (hid : row.executionId≠executionId) :
    row∈db.executions := by
  obtain ⟨target,_,_,_,rfl⟩ := finalizeOutputPersisted_ok hf
  obtain ⟨r,hr,rfl⟩ := Db.mem_updateWhere.mp hrow
  by_cases hp : hasId executionId r=true
  · rw [if_pos hp] at hid
    exact absurd ((hasId_iff _ _).mp hp) hid
  · rw [if_neg hp] at hserv ⊢
    split at hr
    · obtain ⟨r₀,hr₀,rfl⟩ := Db.mem_updateWhere.mp hr
      split at hserv
      · exact absurd ((MutableColumns.servable_iff _).mp hserv).2.2 (by simp)
      next hcurrent => rwa [if_neg hcurrent]
    · exact hr

end Retaining

section Invariant
variable (fingerprint : Bytes → Digest)

/-- The rows that are not input. -/
def outputRows (rows : List ArtifactRow) : List ArtifactRow :=
  rows.filter fun a => !ArtifactRow.isInput a

/-- The documents of the key's recorded answer, as a run with this id has them,
are the artifact rows. -/
def Replays (l : Ledger) (key : ExecutionKey) (executionId : ExecutionId) (rows : List ArtifactRow) :
    Prop :=
  ∃ result outputs,l.answer key=some result ∧
    buildArtifacts fingerprint executionId result .pending=.ok outputs ∧
    List.Forall₂ IsRowOf outputs (outputRows rows)

/-- The blob is there, or it is that of a document still to put. -/
def Present (w : World) (todo : List Artifact) (blobKey : Column BlobKey) : Prop :=
  ∃ key,blobKey=.value key ∧
    ((∃ content,w.blobs.get key=some content) ∨ ∃ document∈todo,document.blobKey=key)

/-- The documents whose rows a back-fill attached before their blobs. -/
def owed : Task → List Artifact
  | .filling _ _ todo | .fillMarking _ _ _ todo | .fillFailing _ _ _ todo => todo
  | _ => []

/-- A hit has the documents of the recorded answer. -/
def HitReplays (l : Ledger) (hit : Hit) : Prop :=
  Replays fingerprint l hit.key hit.loaded.executionId (hit.loaded.artifacts.map artifactRow)

/-- The documents' blobs are in the store. -/
def Stored (w : World) (documents : List Artifact) : Prop :=
  ∀ document∈documents,∃ content,w.blobs.get document.blobKey=some content

/-- A recording's id is its key's. -/
def Owned (l : Ledger) (execution : MlExecution) : Prop :=
  l.owner execution.executionId=some execution.callIdentity.generateKey

/-- What a task knows of the ledger. Nothing is healed, since nothing is lost. -/
def TaskFaithful (w : World) (l : Ledger) : Task → Prop
  | .hydrating hit _ | .refetched hit _ _ | .filling hit _ _ | .fillMarking hit _ _ _
  | .served hit => HitReplays fingerprint l hit
  | .running execution | .interrupted execution | .clientFailed execution => Owned l execution
  | .answered execution result | .recorded execution result =>
    Owned l execution ∧ l.latest=some result
  | .persisting execution result done _ _ | .putting execution result done _ _ _ =>
    Owned l execution ∧ l.latest=some result ∧ Stored w done
  | .marking execution result done document _ _ =>
    Owned l execution ∧ l.latest=some result ∧ Stored w (done ++ [document])
  | .sized key executions => ∀ size∈blobSizes executions,∃ row∈w.db.executions,
      row.executionKey=key ∧ ∃ digest,size.1=.forExecution row.executionId digest
  | .dropping _ todo => ∀ row∈w.db.executions,row.servable=true → ∀ a∈row.artifacts,
      ∀ key∈todo,a.blobKey≠.value key
  | .healing _ _ | .fillFailing _ _ _ _ | .failing _ _ _ _ _ | .reconciling _ _ _ _
  | .blobFound _ _ _ _ _ | .blobMissed _ _ _ _ => False
  | .idle | .minted _ => True

/-- The store refines the ideal map, for a caller in its phase. -/
structure Faithful (φ : Phase) (s : World × Ledger) : Prop where
  /-- A run that called the client is noted. -/
  called : φ.ran=true → s.2.called=true
  /-- A servable row replays the answer of its key. -/
  replays : ∀ row∈s.1.db.executions,row.servable=true →
    Replays fingerprint s.2 row.executionKey row.executionId row.artifacts
  /-- The blobs of a servable row are there, but for those owed. -/
  present : ∀ row∈s.1.db.executions,row.servable=true → ∀ a∈row.artifacts,
    Present s.1 (owed φ.task) a.blobKey
  /-- The task under way is as the ledger has it. -/
  task : TaskFaithful fingerprint s.1 s.2 φ.task

end Invariant

section Keeping
variable {fingerprint : Bytes → Digest}

/-- The same documents replay the same answer. -/
theorem Replays.congr {l l' : Ledger} {key : ExecutionKey} {executionId : ExecutionId}
    {rows rows' : List ArtifactRow} (h : Replays fingerprint l key executionId rows)
    (hl : l'.answer key=l.answer key) (hrows : List.Forall₂ SameDocument rows' rows) :
    Replays fingerprint l' key executionId rows' := by
  obtain ⟨result,outputs,hanswer,hout,hall⟩ := h
  refine ⟨result,outputs,hl.trans hanswer,hout,?_⟩
  have hfilter : List.Forall₂ (fun a b => SameDocument b a) (outputRows rows) (outputRows rows') :=
    List.rel_filter (fun a b hab => by simp only [ArtifactRow.isInput,hab.1]) hrows.flip
  exact forall₂_trans (fun document a b hda hab =>
    ⟨hab.1.trans hda.1,hab.2.1.trans hda.2.1,hab.2.2.trans hda.2.2⟩) hall hfilter

/-- Where rows are retained, the ledger agrees on them and no blob is lost, the
store stays faithful. -/
theorem Faithful.mono {φ φ' : Phase} {w w' : World} {l l' : Ledger}
    (h : Faithful fingerprint φ (w,l)) (hret : Retains w.db w'.db)
    (hanswer : ∀ row∈w'.db.executions,row.servable=true →
      l'.answer row.executionKey=l.answer row.executionKey)
    (hpresent : ∀ row∈w'.db.executions,row.servable=true → ∀ a∈row.artifacts,
      Present w (owed φ.task) a.blobKey → Present w' (owed φ'.task) a.blobKey)
    (hcalled : φ'.ran=true → l'.called=true) (htask : TaskFaithful fingerprint w' l' φ'.task) :
    Faithful fingerprint φ' (w',l') where
  called := hcalled
  task := htask
  replays row hrow hserv := by
    obtain ⟨before,hmem,hserv',hid,hkey,hdocs⟩ := hret row hrow hserv
    have hreplays := h.replays before hmem hserv'
    rw [←hid,←hkey] at hreplays
    exact hreplays.congr (hanswer row hrow hserv) hdocs
  present row hrow hserv a ha := by
    obtain ⟨before,hmem,hserv',_,_,hdocs⟩ := hret row hrow hserv
    obtain ⟨b,hb,hab⟩ := (mem_of_forall₂ hdocs).2 a ha
    refine hpresent row hrow hserv a ha ?_
    rw [hab.2.2]
    exact h.present before hmem hserv' b hb

/-- The common case: rows are retained, and blobs, what is owed and the answers
are what they were. -/
theorem Faithful.keep {φ φ' : Phase} {w w' : World} {l l' : Ledger}
    (h : Faithful fingerprint φ (w,l)) (hret : Retains w.db w'.db) (hblobs : w'.blobs=w.blobs)
    (howed : owed φ'.task=owed φ.task) (hanswer : l'.answer=l.answer)
    (hcalled : φ'.ran=true → l'.called=true) (htask : TaskFaithful fingerprint w' l' φ'.task) :
    Faithful fingerprint φ' (w',l') := by
  refine h.mono hret (fun _ _ _ => by rw [hanswer]) (fun row _ _ a _ hp => ?_) hcalled htask
  obtain ⟨key,hkey,hp⟩ := hp
  exact ⟨key,hkey,by rwa [hblobs,howed]⟩

/-- A call without effect on documents leaves the task what it knew. -/
theorem TaskFaithful.sameStore {w w' : World} {l : Ledger} {task : Task} (hsame : SameStore w w')
    (h : TaskFaithful fingerprint w l task) : TaskFaithful fingerprint w' l task := by
  have hstored : ∀ documents,Stored w documents → Stored w' documents := by
    intro documents hs document hd
    rw [hsame.blobs]
    exact hs document hd
  cases task with
  | persisting | putting | marking => exact ⟨h.1,h.2.1,hstored _ h.2.2⟩
  | sized key executions =>
    intro size hsize
    exact hsame.exists_row (fun _ _ hp => hp) (h size hsize)
  | dropping key todo => exact hsame.forall_row (fun _ _ hp => hp) h
  | _ => exact h

/-- A lock's release owes and loses nothing. -/
theorem owed_released (task : Task) : owed task.released=owed task := by
  cases task with
  | filling hit target todo => cases todo <;> rfl
  | _ => rfl

/-- A task knows after a release what it knew. -/
theorem TaskFaithful.released {w : World} {l : Ledger} {task : Task}
    (h : TaskFaithful fingerprint w l task) : TaskFaithful fingerprint w l task.released := by
  cases task with
  | filling hit target todo => cases todo <;> exact h
  | hydrating | refetched | fillMarking | served => exact h
  | healing | fillFailing => exact h.elim
  | _ => trivial

/-- A settled task owes nothing. -/
theorem owed_settled {task : Task} (h : task.settled=true) : owed task=[] := by
  cases task <;> first | rfl | exact nomatch h

variable {Command : Type} {locks : LockMode} {thread : ThreadId} {scope : Scope}

/-- Without faults only the client and the repository raise, and the repository
reports no corruption of a well-formed database. -/
theorem noFaults_error {w w' : World} {call : Call Command} {e : PyExc} (hwf : WellFormed w.db)
    (hans : Answers locks noFaults thread call w (.error e) w') :
    (∃ command,call=.runClient command) ∨
      (∃ storeCall,call=.store storeCall) ∧ e.isException=true ∧ e.isCorruption=false := by
  cases hans with
  | fault _ hf => exact hf.elim
  | runClient => exact Or.inl ⟨_,rfl⟩
  | reject now ht =>
    obtain ⟨hexception,hplain⟩ := transact_plain hwf e ht
    exact Or.inr ⟨⟨_,rfl⟩,hexception,by simpa using hplain⟩

/-- Without faults an error that goes on leads nowhere but to the end. -/
theorem raised_idle {w w' : World} {task : Task} {call : Call Command} {e : PyExc}
    (hwf : WellFormed w.db) (hescapes : Escapes task call e)
    (hans : Answers locks noFaults thread call w (.error e) w')
    (hfailing : ∀ hit target document todo,task≠.fillFailing hit target document todo) :
    task.raised e=.idle ∧ owed task=[] := by
  have herror := noFaults_error hwf hans
  cases task with
  | hydrating hit todo =>
    rcases herror with ⟨command,rfl⟩ | ⟨_,_,hc⟩
    · exact absurd rfl hescapes.1
    · simp [Task.raised,hc,owed]
  | refetched hit key fresh =>
    rcases herror with ⟨command,rfl⟩ | ⟨_,_,hc⟩
    · exact absurd rfl hescapes.1
    · simp [Task.raised,hc,owed]
  | filling hit target todo =>
    rcases herror with ⟨command,rfl⟩ | ⟨⟨storeCall,rfl⟩,_⟩ <;> exact absurd rfl hescapes.1
  | fillMarking hit target document todo =>
    rcases herror with ⟨command,rfl⟩ | ⟨⟨storeCall,rfl⟩,hexception,_⟩
    · exact absurd rfl hescapes.1
    · cases storeCall with
      | markArtifactsStored => exact absurd (hescapes.2 rfl) (by simp [hexception])
      | _ => exact absurd rfl hescapes.1
  | fillFailing hit target document todo => exact absurd rfl (hfailing _ _ _ _)
  | _ => exact ⟨rfl,rfl⟩

/-- An error records and forgets no answer. -/
theorem watchLedger_error {call : Call Command} {e : PyExc} (l : Ledger) :
    (watchLedger call (.error e) l).answer=l.answer ∧
      (watchLedger call (.error e) l).owner=l.owner ∧
      (l.called=true → (watchLedger call (.error e) l).called=true) := by
  cases call with
  | store call => cases call <;> exact ⟨rfl,rfl,id⟩
  | runClient => exact ⟨rfl,rfl,fun _ => rfl⟩
  | _ => exact ⟨rfl,rfl,id⟩

/-- A quiet call is not in the ledger. -/
theorem watchLedger_quiet {call : Call Command} {a : call.Ret} (h : isQuiet call=true) (l : Ledger) :
    watchLedger call (.ok a) l=l := by
  cases call with
  | store call => cases call <;> first | rfl | exact nomatch h
  | _ => first | rfl | exact nomatch h

/-- The blobs that a purge lists belong to its key's executions. -/
theorem sized_of_findAll {w : World} {l : Ledger} {key : ExecutionKey} {executions : List MlExecution}
    (hs : Sound fingerprint w) (h : findAll key w.db=.ok executions) :
    TaskFaithful fingerprint w l (.sized key executions) := by
  intro size hsize
  obtain ⟨execution,he,a,ha,hk,_⟩ := artifact_of_mem_blobSizes hsize
  obtain ⟨row,hrow,hload⟩ := (mem_of_forall₂ (forall₂_of_mapM h)).1 execution he
  obtain ⟨hmem,hkey⟩ := List.mem_filter.mp hrow
  obtain ⟨_,hart,_,_⟩ := loadExecution_ok hload
  have harow : artifactRow a∈row.artifacts := by
    rw [hart]
    exact List.mem_map_of_mem ha
  obtain ⟨digest,hd⟩ := hs.owned row hmem _ harow
  refine ⟨row,hmem,(hasKey_iff _ _).mp hkey,digest,?_⟩
  rw [← hk]
  exact Column.value.inj hd

/-- Dropping a key's rows leaves the store faithful: what the purge is to remove
belongs to no row that is still servable. -/
theorem Faithful.drop {held : List ExecutionKey} {ran : Bool} {w : World} {l : Ledger} {db : Db}
    {key : ExecutionKey} {executions : List MlExecution} (hs : Sound fingerprint w)
    (h : Faithful fingerprint ⟨held,.sized key executions,ran⟩ (w,l))
    (hrows : ∀ row∈db.executions,row.servable=true →
      row∈w.db.executions ∧ row.executionKey≠key) :
    Faithful fingerprint ⟨held,.dropping key ((blobSizes executions).map (·.1)),ran⟩
      ({ w with db := db },l.purged key) := by
  refine h.mono (Retains.subset fun row hrow hserv => (hrows row hrow hserv).1)
    (fun row hrow hserv => ?_) (fun _ _ _ _ _ hp => hp) h.called ?_
  · exact Function.update_of_ne (hrows row hrow hserv).2 _ _
  · intro row hrow hserv a ha blobKey hmem hkey
    obtain ⟨hrow',hne⟩ := hrows row hrow hserv
    obtain ⟨size,hsize,rfl⟩ := List.mem_map.mp hmem
    obtain ⟨r,hr,hrkey,digest,hdigest⟩ := h.task size hsize
    obtain ⟨digest',howned⟩ := hs.owned row hrow' a ha
    rw [howned,hdigest] at hkey
    have hid : row.executionId=r.executionId :=
      (BlobKey.forExecution.inj (Column.value.inj hkey)).1
    exact hne (by rw [w.db.row_unique hrow' hr hid]; exact hrkey)

/-- The output documents of a result are not input. -/
theorem buildArtifacts_notInput {executionId : ExecutionId} {result : ClientRunResult}
    {status : ArtifactStatus} {outputs : List Artifact}
    (h : buildArtifacts fingerprint executionId result status=.ok outputs) :
    ∀ a∈outputs,a.artifactType.isInput=false := by
  obtain ⟨stdout,_,h⟩ := ok_of_bind h
  obtain ⟨stderr,_,h⟩ := ok_of_bind h
  cases Except.ok.inj h
  intro a ha
  rcases List.mem_cons.mp ha with rfl | ha
  · rfl
  · rcases List.mem_cons.mp ha with rfl | ha
    · rfl
    · obtain ⟨file,_,rfl⟩ := List.mem_map.mp ha
      rfl

/-- The output rows of a whole recording are the rows of its output documents. -/
theorem outputRows_of_recording {executionId : ExecutionId} {result : ClientRunResult}
    {documents outputs inputs : List Artifact} {rows : List ArtifactRow}
    (hout : buildArtifacts fingerprint executionId result .pending=.ok outputs)
    (hin : ∀ a∈inputs,IsInputDocument fingerprint executionId a) (hdocs : documents=outputs ++ inputs)
    (hrows : List.Forall₂ IsRowOf documents rows) :
    List.Forall₂ IsRowOf outputs (outputRows rows) := by
  have hfilter : List.Forall₂ IsRowOf (documents.filter fun a => !a.artifactType.isInput)
      (outputRows rows) :=
    List.rel_filter (fun a b hab => by simp only [ArtifactRow.isInput,hab.1]) hrows
  have houts : outputs.filter (fun a => !a.artifactType.isInput)=outputs :=
    List.filter_eq_self.mpr fun a ha => by simp [buildArtifacts_notInput hout a ha]
  have hins : inputs.filter (fun a => !a.artifactType.isInput)=[] :=
    List.filter_eq_nil_iff.mpr fun a ha => by simp [(hin a ha).1]
  rwa [hdocs,List.filter_append,houts,hins,List.append_nil] at hfilter

/-- The row that a finalize promotes. -/
def promoted (row : ExecutionRow) : ExecutionRow :=
  row.update fun c => { c with outputPersisted := true }

/-- A finalized run's row is its old row, promoted. -/
theorem finalize_promotes {executionId : ExecutionId} {now : Timestamp} {db db' : Db}
    {row : ExecutionRow} (hf : finalizeOutputPersisted executionId now db=.ok db')
    (hmem : row∈db.executions) (hid : row.executionId=executionId) (hun : row.outputPersisted=false) :
    promoted row∈db'.executions := by
  obtain ⟨target,hmem',hid',_,rfl⟩ := finalizeOutputPersisted_ok hf
  refine Db.mem_updateWhere_of ?_ (by simp [hid])
  split
  · refine Db.mem_updateWhere_of_not hmem ?_
    simp [isCurrent,MutableColumns.servable,hun]
  · exact hmem

/-- A finalized recording is the recorded answer of its key if it succeeded,
and servable only then. -/
theorem Faithful.finalize {held : List ExecutionKey} {ran allStored : Bool} {w : World} {l : Ledger}
    {execution : MlExecution} {result : ClientRunResult} {done : List Artifact} {now : Timestamp}
    {db : Db} (h : Faithful fingerprint ⟨held,.persisting execution result done [] allStored,ran⟩ (w,l))
    (hrec : Recording fingerprint w execution result done []) (hone : db.AtMostOneCurrent)
    (hf : finalizeOutputPersisted execution.executionId now w.db=.ok db) :
    Faithful fingerprint ⟨held,.idle,ran⟩ ({ w with db := db },l.finalized execution.executionId) := by
  obtain ⟨_,⟨outputs,inputs,hout,hin,hdocs⟩,row,hmem,hrow⟩ := hrec
  obtain ⟨howner,hlatest,hstored⟩ := h.task
  rw [List.append_nil] at hdocs
  have hfinal : l.finalized execution.executionId=
      if result.succeeded=true then
        { l with answer := Function.update l.answer execution.callIdentity.generateKey (some result) }
      else l := by
    have howner' : l.owner execution.executionId=some execution.callIdentity.generateKey := howner
    have hlatest' : l.latest=some result := hlatest
    simp only [Ledger.finalized,howner',hlatest']
  have hcalled : (l.finalized execution.executionId).called=l.called := by
    rw [hfinal]
    split <;> rfl
  have hpromoted := finalize_promotes hf hmem hrow.id hrow.unpersisted
  have hservable : (promoted row).servable=true ↔ result.succeeded=true := by
    rw [MutableColumns.servable_iff]
    have hstate : (promoted row).state=.value result.outcome := hrow.state
    have hcurrent : (promoted row).supersededAt=none := hrow.current
    simp only [hstate,hcurrent,and_true,Column.value.injEq,ClientRunResult.outcome]
    split <;> simp_all [promoted]
  have hown : ∀ r∈db.executions,r.executionId=execution.executionId → r=promoted row :=
    fun r hr hid => db.row_unique hr hpromoted (hid.trans hrow.id.symm)
  -- Any other servable row was there before, and is of another key than a success.
  have hother : ∀ r∈db.executions,r.servable=true → r.executionId≠execution.executionId →
      r∈w.db.executions ∧ (l.finalized execution.executionId).answer r.executionKey=
        l.answer r.executionKey := by
    intro r hr hserv hne
    refine ⟨retains_finalize hf hr hserv hne,?_⟩
    rw [hfinal]
    split
    next hsuccess =>
      refine Function.update_of_ne (fun hkey => hne ?_) _ _
      rw [hone r hr _ hpromoted (hkey.trans hrow.key.symm) hserv (hservable.mpr hsuccess)]
      exact hrow.id
    next => rfl
  refine ⟨fun hr => hcalled.trans (h.called hr),fun r hr hserv => ?_,fun r hr hserv a ha => ?_,trivial⟩
  · by_cases hid : r.executionId=execution.executionId
    · obtain rfl := hown r hr hid
      refine ⟨result,outputs,?_,?_,outputRows_of_recording hout hin hdocs hrow.artifacts⟩
      · rw [hfinal,if_pos (hservable.mp hserv)]
        exact (congrArg _ hrow.key).trans (Function.update_self _ _ _)
      · exact hid ▸ hout
    · obtain ⟨hold,hanswer⟩ := hother r hr hserv hid
      exact (h.replays r hold hserv).congr hanswer (sameDocuments_refl _)
  · by_cases hid : r.executionId=execution.executionId
    · obtain rfl := hown r hr hid
      obtain ⟨document,hd,hrowOf⟩ := (mem_of_forall₂ hrow.artifacts).1 a ha
      exact ⟨document.blobKey,hrowOf.2.2,Or.inl (hstored document hd)⟩
    · exact h.present r (hother r hr hserv hid).1 hserv a ha

/-- Attached input leaves the output what it was, and its blobs are owed. -/
theorem Faithful.attach {held : List ExecutionKey} {ran : Bool} {w : World} {l : Ledger} {hit : Hit}
    {key : ExecutionKey} {fresh : MlExecution} {documents : List Artifact}
    (h : Faithful fingerprint ⟨held,.refetched hit key fresh,ran⟩ (w,l))
    (hinput : ∀ a∈documents,IsInputDocument fingerprint fresh.executionId a) :
    Faithful fingerprint ⟨held,.filling hit fresh.executionId documents,ran⟩
      ({ w with
        db := w.db.updateWhere (hasId fresh.executionId)
          (withArtifacts (documents.map artifactRow)) },l) := by
  have hnone : outputRows (documents.map artifactRow)=[] := by
    refine List.filter_eq_nil_iff.mpr fun a ha => ?_
    obtain ⟨document,hd,rfl⟩ := List.mem_map.mp ha
    simp [artifactRow,ArtifactRow.isInput,(hinput document hd).1]
  refine ⟨h.called,fun row hrow hserv => ?_,fun row hrow hserv a ha => ?_,h.task⟩
  · obtain ⟨r,hr,rfl⟩ := Db.mem_updateWhere.mp hrow
    by_cases hp : hasId fresh.executionId r=true
    · simp only [if_pos hp] at hserv ⊢
      obtain ⟨result,outputs,hanswer,hout,hall⟩ := h.replays r hr hserv
      refine ⟨result,outputs,hanswer,hout,?_⟩
      have hrows : outputRows (r.artifacts ++ documents.map artifactRow)=outputRows r.artifacts := by
        rw [outputRows,List.filter_append,←outputRows,←outputRows,hnone,List.append_nil]
      exact (congrArg _ hrows).mpr hall
    · simp only [if_neg hp] at hserv ⊢
      exact h.replays r hr hserv
  · have hkeep : ∀ blobKey,Present w [] blobKey → Present w documents blobKey :=
      fun _ ⟨key,hkey,hp⟩ => ⟨key,hkey,hp.imp id fun ⟨d,hd,_⟩ => (List.not_mem_nil hd).elim⟩
    obtain ⟨r,hr,rfl⟩ := Db.mem_updateWhere.mp hrow
    by_cases hp : hasId fresh.executionId r=true
    · simp only [if_pos hp] at hserv ha
      rcases List.mem_append.mp ha with ha | ha
      · exact hkeep _ (h.present r hr hserv a ha)
      · obtain ⟨document,hd,rfl⟩ := List.mem_map.mp ha
        exact ⟨document.blobKey,rfl,Or.inr ⟨document,hd,rfl⟩⟩
    · simp only [if_neg hp] at hserv ha
      exact hkeep _ (h.present r hr hserv a ha)

/-- A put adds a blob. -/
theorem Stored.put {w : World} {documents : List Artifact} (h : Stored w documents) (key : BlobKey)
    (content : Bytes) : Stored { w with blobs := w.blobs.put key content } documents := by
  intro document hd
  simp only [BlobStore.get_put]
  split
  · exact ⟨content,rfl⟩
  · exact h document hd

/-- A document just put is stored. -/
theorem Stored.append {w : World} {documents : List Artifact} {document : Artifact} {content : Bytes}
    (h : Stored w documents) :
    Stored { w with blobs := w.blobs.put document.blobKey content } (documents ++ [document]) := by
  intro d hd
  rcases List.mem_append.mp hd with hd | hd
  · exact h.put _ _ d hd
  · rw [List.mem_singleton.mp hd]
    exact ⟨content,by simp⟩

/-- A put of an owed document pays it. -/
theorem Present.put {w : World} {document : Artifact} {todo : List Artifact} {content : Bytes}
    {blobKey : Column BlobKey} (h : Present w (document::todo) blobKey) :
    Present { w with blobs := w.blobs.put document.blobKey content } todo blobKey := by
  obtain ⟨key,hkey,hp⟩ := h
  refine ⟨key,hkey,?_⟩
  by_cases heq : key=document.blobKey
  · exact Or.inl ⟨content,by simp [heq]⟩
  · rcases hp with ⟨bytes,hget⟩ | ⟨d,hd,hd'⟩
    · exact Or.inl ⟨bytes,by simpa [heq] using hget⟩
    · rcases List.mem_cons.mp hd with rfl | hd
      · exact absurd hd'.symm heq
      · exact Or.inr ⟨d,hd,hd'⟩

/-- A put loses nothing. -/
theorem Present.put_other {w : World} {todo : List Artifact} {content : Bytes} {key : BlobKey}
    {blobKey : Column BlobKey} (h : Present w todo blobKey) :
    Present { w with blobs := w.blobs.put key content } todo blobKey := by
  obtain ⟨key',hkey,hp⟩ := h
  refine ⟨key',hkey,hp.imp (fun ⟨bytes,hget⟩ => ?_) id⟩
  simp only [BlobStore.get_put]
  split
  · exact ⟨content,rfl⟩
  · exact ⟨bytes,hget⟩

/-- The row a recording is about is not servable. -/
theorem IsRunRow.not_servable {w : World} {execution : MlExecution} {state : ExecutionState}
    {documents : List Artifact} (h : ∃ row∈w.db.executions,IsRunRow execution state documents row) :
    ∀ row∈w.db.executions,row.executionId=execution.executionId → row.servable=false := by
  obtain ⟨row,hmem,hrow⟩ := h
  intro r hr hid
  rw [w.db.row_unique hr hmem (hid.trans hrow.id.symm)]
  simp [MutableColumns.servable,hrow.unpersisted]

/-- The outcome of a run that is not promoted retains every servable row. -/
theorem retains_recordOutcome {w : World} {execution : MlExecution} {db : Db}
    (hrec : recordOutcome execution w.db=.ok db)
    (hrow : ∃ row∈w.db.executions,row.executionId=execution.executionId ∧ row.outputPersisted=false) :
    Retains w.db db := by
  obtain ⟨_,_,_,usage,_,rfl⟩ := recordOutcome_ok hrec
  obtain ⟨row,hmem,hid,hun⟩ := hrow
  refine Retains.update fun r hr hp hserv => ?_
  have hsame : r=row := w.db.row_unique hr hmem (((hasId_iff _ _).mp hp).trans hid.symm)
  have hpersisted := ((MutableColumns.servable_iff _).mp hserv).2.1
  simp only [outcomeColumns,hsame,hun] at hpersisted
  cases hpersisted

/-- A saved run in progress is its key's, and not servable. -/
theorem Faithful.save {held : List ExecutionKey} {ran : Bool} {w : World} {l : Ledger} {execution : MlExecution}
    {now : Timestamp} {db : Db} (h : Faithful fingerprint ⟨held,.minted execution.executionId,ran⟩ (w,l))
    (hprogress : IsInProgress execution) (hsave : save execution now w.db=.ok db) :
    Faithful fingerprint ⟨held,.running execution,ran⟩ ({ w with db := db },{ l with
      owner := Function.update l.owner execution.executionId (some execution.callIdentity.generateKey) }) := by
  obtain ⟨id,_,_,hrows⟩ := save_inProgress hprogress hsave
  refine h.keep (Retains.subset fun row hrow hserv => ?_) rfl rfl rfl h.called (Function.update_self _ _ _)
  rw [hrows,List.mem_append,List.mem_singleton] at hrow
  rcases hrow with hrow | rfl
  · exact hrow
  · have hpersisted := ((MutableColumns.servable_iff _).mp hserv).2.1
    simp [insertedRow,insertedColumns,hprogress.outputPersisted] at hpersisted

/-- A recorded outcome changes no answer. -/
theorem Faithful.recordOutcome {held : List ExecutionKey} {ran : Bool} {w : World} {l : Ledger} {task task' : Task}
    {recorded execution : MlExecution} {db : Db} (h : Faithful fingerprint ⟨held,task,ran⟩ (w,l))
    (hrunning : Running w execution) (hrecord : recordOutcome recorded w.db=.ok db)
    (hid : recorded.executionId=execution.executionId) (howed : owed task'=owed task)
    (htask : TaskFaithful fingerprint { w with db := db } l task') :
    Faithful fingerprint ⟨held,task',ran⟩ ({ w with db := db },l) := by
  obtain ⟨_,row,hmem,hrow⟩ := hrunning
  exact h.keep (retains_recordOutcome hrecord ⟨row,hmem,hrow.id.trans hid.symm,hrow.unpersisted⟩) rfl howed rfl
    h.called htask

/-- A loaded hit replays the answer of its key. -/
theorem Faithful.load {held : List ExecutionKey} {ran : Bool} {w : World} {l : Ledger} {key : ExecutionKey}
    {loaded : MlExecution} (h : Faithful fingerprint ⟨held,.idle,ran⟩ (w,l))
    (hfind : findCurrent key w.db=.ok (some loaded)) :
    Faithful fingerprint ⟨held,.hydrating ⟨key,loaded,[]⟩ loaded.artifacts,ran⟩ (w,l) := by
  obtain ⟨row,hmem,hrow⟩ := isHitRow_of_findCurrent hfind
  refine ⟨h.called,h.replays,h.present,?_⟩
  have hreplays := h.replays row hmem hrow.servable
  rw [hrow.key,hrow.id,hrow.artifacts] at hreplays
  exact hreplays

/-- A hit misses no blob. -/
theorem Faithful.misses_nothing {held : List ExecutionKey} {ran : Bool} {w : World} {l : Ledger} {hit : Hit}
    {artifact : Artifact} {todo : List Artifact}
    (h : Faithful fingerprint ⟨held,.hydrating hit (artifact::todo),ran⟩ (w,l))
    (htask : TaskSound fingerprint w (.hydrating hit (artifact::todo))) : w.blobs.get artifact.blobKey≠none := by
  obtain ⟨⟨row,hmem,hrow⟩,before,hbefore,_⟩ := htask
  have ha : artifactRow artifact∈row.artifacts := by
    rw [hrow.artifacts,hbefore]
    exact List.mem_map_of_mem (List.mem_append_right _ List.mem_cons_self)
  obtain ⟨key,hkey,⟨content,hcontent⟩ | ⟨d,hd,_⟩⟩ := h.present row hmem hrow.servable _ ha
  · rw [← Column.value.inj hkey] at hcontent
    exact Option.ne_none_iff_exists'.mpr ⟨content,hcontent⟩
  · exact (List.not_mem_nil hd).elim

/-- A soft purge drops its key's answer. -/
theorem Faithful.softDrop {held : List ExecutionKey} {ran : Bool} {w : World} {l : Ledger} {key : ExecutionKey}
    {executions : List MlExecution} (hs : Sound fingerprint w)
    (h : Faithful fingerprint ⟨held,.sized key executions,ran⟩ (w,l)) :
    Faithful fingerprint ⟨held,.dropping key ((blobSizes executions).map (·.1)),ran⟩
      ({ w with db := softPurgeExecution key w.db },l.purged key) := by
  refine h.drop hs fun row hrow hserv => ?_
  obtain ⟨r,hr,rfl⟩ := Db.mem_updateWhere.mp hrow
  split at hserv
  · exact absurd ((MutableColumns.servable_iff _).mp hserv).2.1 (by simp [purgedColumns])
  next hp =>
    rw [if_neg hp]
    exact ⟨hr,by simpa using hp⟩

/-- A purge removes no blob of a servable row. -/
theorem Faithful.dropBlob {held : List ExecutionKey} {ran : Bool} {w : World} {l : Ledger} {key : ExecutionKey}
    {blobKey : BlobKey} {todo : List BlobKey}
    (h : Faithful fingerprint ⟨held,.dropping key (blobKey::todo),ran⟩ (w,l)) :
    Faithful fingerprint ⟨held,.dropping key todo,ran⟩ ({ w with blobs := w.blobs.remove blobKey },l) := by
  refine h.mono (Retains.subset fun _ hrow _ => hrow) (fun _ _ _ => rfl) ?_ h.called ?_
  · rintro row hrow hserv a ha ⟨key',hkey,⟨content,hget⟩ | ⟨d,hd,_⟩⟩
    · refine ⟨key',hkey,Or.inl ⟨content,?_⟩⟩
      have hne : key'≠blobKey := fun heq =>
        h.task row hrow hserv a ha blobKey List.mem_cons_self (heq ▸ hkey)
      simpa [hne] using hget
    · exact (List.not_mem_nil hd).elim
  · exact fun row hrow hserv a ha key hk => h.task row hrow hserv a ha key (List.mem_cons_of_mem _ hk)

/-- An error that goes on leads to the end, with the answers as they were. -/
theorem Faithful.raised {φ : Phase} {w w' : World} {l : Ledger} {call : Call Command} {e : PyExc}
    (h : Faithful fingerprint φ (w,l)) (hwf : WellFormed w.db) (hescapes : Escapes φ.task call e)
    (hans : Answers locks noFaults thread call w (.error e) w') :
    Faithful fingerprint { φ with task := φ.task.raised e } (w',watchLedger call (.error e) l) := by
  obtain ⟨hanswer,_,hcalled⟩ := @watchLedger_error _ call e l
  obtain ⟨hidle,howed⟩ := raised_idle hwf hescapes hans fun hit target document todo heq => by
    have := h.task
    rw [heq] at this
    exact this
  rw [answers_error hans]
  refine h.keep (Retains.subset fun _ hrow _ => hrow) rfl ?_ hanswer (fun hr => hcalled (h.called hr)) ?_
  · simp only [hidle,howed]
    rfl
  · simp only [hidle]
    trivial

/-- Every turn of a caller that does not repair keeps the store faithful, where
nothing faults. -/
theorem keeps_faithful (hscope : scope.repairs=false) : Keeps (Turn scope fingerprint)
    (observed (Answers locks (noFaults : Faults Command) thread) watchLedger)
    fun φ s => CallerSound fingerprint φ s.1 ∧ Faithful fingerprint φ s := by
  refine Keeps.and (keeps_callerSound.observed watchLedger) ?_
  rintro φ call r φ' ⟨w,l⟩ ⟨w',l'⟩ hturn ⟨hans,hwatch⟩ ⟨hs,htask⟩ ⟨hs',htask'⟩ h
  simp only at hans hwatch hs htask hs' htask'
  subst hwatch
  cases hturn with
  | quiet hq a =>
    have hsame := sameStore_of_isQuiet hq hans
    rw [watchLedger_quiet hq]
    exact h.keep (retains_sameStore hsame) hsame.blobs rfl rfl h.called (h.task.sameStore hsame)
  | raise hescapes => exact h.raised hs.wellFormed hescapes hans
  | releaseRaised hrelease =>
    cases hans with
    | fault _ hf => exact hf.elim
    | reject => exact nomatch hrelease
    | runClient => exact nomatch hrelease
  | gate hgate a =>
    rcases hgate with rfl | rfl | ⟨key,rfl⟩
    · cases hans
      exact h
    · cases hans
      exact h
    · obtain ⟨rfl,_⟩ := answers_findAll hans
      exact h
  | @acquire φ key =>
    cases hans
    have hsame := SameStore.held w ((thread,key)::w.held)
    exact h.keep (retains_sameStore hsame) rfl rfl rfl h.called (h.task.sameStore hsame)
  | @release φ key =>
    cases hans
    have hsame := SameStore.held w (w.held.erase (thread,key))
    exact h.keep (retains_sameStore hsame) rfl (owed_released _) rfl h.called
      (h.task.sameStore hsame).released
  | runUnrecorded =>
    cases hans
    exact ⟨fun _ => rfl,h.replays,h.present,trivial⟩
  -- Serving.
  | load _ loaded =>
    obtain ⟨rfl,hfind⟩ := answers_findCurrent hans
    exact h.load hfind
  | hydrate content =>
    obtain ⟨rfl,_⟩ := answers_blobGet hans
    exact ⟨h.called,h.replays,h.present,h.task⟩
  | miss =>
    obtain ⟨rfl,hget⟩ := answers_blobGet hans
    exact absurd hget.symm (h.misses_nothing htask)
  | refetch hkey fresh hfresh =>
    obtain ⟨rfl,_⟩ := answers_findCurrent hans
    exact ⟨h.called,h.replays,h.present,h.task⟩
  | attach hkey hdocuments =>
    obtain ⟨now,db,ht,rfl⟩ := answers_store_ok hans
    rcases addInputArtifacts_fresh hs.oneCurrent htask.2.2 (commit_ok.mp ht) with ⟨rfl,rfl⟩ | rfl
    · exact ⟨h.called,h.replays,h.present,h.task⟩
    · exact h.attach hdocuments
  | fillPut =>
    cases hans
    exact h.mono (Retains.subset fun _ hrow _ => hrow) (fun _ _ _ => rfl)
      (fun _ _ _ _ _ hp => hp.put) h.called h.task
  | fillPutFailed | putFailed =>
    cases hans with
    | fault _ hf => exact hf.elim
  | fillMark r hr =>
    cases r with
    | error e =>
      rw [answers_error hans]
      exact ⟨h.called,h.replays,h.present,h.task⟩
    | ok u =>
      obtain ⟨now,rfl,_⟩ := answers_markStored hs hans
      exact h.keep (Retains.mark (keepsDocument_storedMark now)) rfl rfl rfl h.called h.task
  -- Recording.
  | mint hscope executionId =>
    cases hans with
    | newExecutionId id hnew => exact ⟨h.called,h.replays,h.present,trivial⟩
  | save hkey hprogress =>
    obtain ⟨now,db,ht,rfl⟩ := answers_store_ok hans
    exact h.save hprogress (commit_ok.mp ht)
  | answer result =>
    cases hans
    exact ⟨fun _ => rfl,h.replays,h.present,h.task,rfl⟩
  | interrupt | clientRaise =>
    rw [answers_error hans]
    exact ⟨fun _ => rfl,h.replays,h.present,h.task⟩
  | discard =>
    obtain rfl := answers_removeExecution hans
    exact h.keep (Retains.subset fun row hrow _ => (mem_removeExecution.mp hrow).1) rfl rfl rfl
      h.called trivial
  | abandon message =>
    obtain ⟨now,db,ht,rfl⟩ := answers_store_ok hans
    exact h.recordOutcome htask (commit_ok.mp ht) rfl rfl trivial
  | outcome =>
    obtain ⟨now,db,ht,rfl⟩ := answers_store_ok hans
    exact h.recordOutcome htask (commit_ok.mp ht) rfl rfl h.task
  | beginDocuments hdocuments =>
    cases hans
    exact ⟨h.called,h.replays,h.present,h.task.1,h.task.2,fun _ hd => (List.not_mem_nil hd).elim⟩
  | persist =>
    obtain ⟨now,db,ht,rfl⟩ := answers_store_ok hans
    obtain ⟨_,rfl⟩ := persistArtifact_ok (commit_ok.mp ht)
    exact h.keep (Retains.withArtifacts (IsRunRow.not_servable htask.2.2)) rfl rfl rfl h.called h.task
  | put =>
    cases hans
    exact h.mono (Retains.subset fun _ hrow _ => hrow) (fun _ _ _ => rfl)
      (fun _ _ _ _ _ hp => hp.put_other) h.called ⟨h.task.1,h.task.2.1,h.task.2.2.append⟩
  | mark =>
    obtain ⟨now,rfl,_⟩ := answers_markStored hs hans
    exact h.keep (Retains.mark (keepsDocument_storedMark now)) rfl rfl rfl h.called h.task
  | markFailed e he =>
    rw [answers_error hans]
    exact ⟨h.called,h.replays,h.present,h.task⟩
  | finalize =>
    obtain ⟨now,db,ht,rfl⟩ := answers_store_ok hans
    exact h.finalize htask hs'.oneCurrent (commit_ok.mp ht)
  -- Purging.
  | size _ hkey executions =>
    obtain ⟨rfl,hfind⟩ := answers_findAll hans
    exact ⟨h.called,h.replays,h.present,sized_of_findAll hs hfind⟩
  | softDrop =>
    obtain rfl := answers_softPurge hans
    exact h.softDrop hs
  | hardDrop =>
    obtain rfl := answers_hardDelete hans
    exact h.drop hs fun row hrow _ => mem_hardDeleteExecution.mp hrow
  | dropBlob =>
    cases hans
    exact h.dropBlob
  -- Nothing is healed or repaired, and no document fails.
  | list hrepairs runs =>
    rw [hscope] at hrepairs
    exact nomatch hrepairs
  | healBlob | healRow | fillFail | fail | find | lose | repairMark | repairFail | repairFinalize =>
    exact h.task.elim

end Keeping

section Histories
variable {Command : Type} {fingerprint : Bytes → Digest}

/-- What a caller sees of an artifact. -/
def document (a : Artifact) : ArtifactType × Option PyStr × Option Bytes :=
  (a.artifactType,a.name,a.content)

/-- The output of an execution: its standard output, its standard error and the
files produced. -/
def outputOf (artifacts : List Artifact) : List Artifact :=
  artifacts.filter fun a => !a.artifactType.isInput

/-- Artifacts hydrated from the rows of documents are the documents, where the
fingerprint does not collide. -/
theorem document_of_hydrated (hinj : Function.Injective fingerprint) {executionId : ExecutionId}
    {a artifact served : Artifact} (ha : IsDocument fingerprint executionId a)
    (hrow : IsRowOf a (artifactRow artifact)) (hserved : Hydrated fingerprint artifact served) :
    document served=document a := by
  obtain ⟨content,rfl,hcontent⟩ := hserved
  obtain ⟨artifactType,name,bytes,rfl⟩ := ha
  obtain ⟨htype,hname,hkey⟩ := hrow
  have hdigest := hcontent executionId (fingerprint bytes) (Column.value.inj hkey)
  have hbytes : content=bytes := hinj hdigest
  have htype' : artifact.artifactType=artifactType := Column.value.inj htype
  have hname' : artifact.name=name := hname
  rw [document,document,htype',hname',hbytes]
  rfl

/-- A hydrated hit with the documents of a recorded answer serves that answer. -/
theorem outputOf_hydrated (hinj : Function.Injective fingerprint) {executionId : ExecutionId}
    {result : ClientRunResult} {outputs loaded got : List Artifact}
    (hout : buildArtifacts fingerprint executionId result .pending=.ok outputs)
    (hrows : List.Forall₂ IsRowOf outputs (outputRows (loaded.map artifactRow)))
    (hgot : List.Forall₂ (Hydrated fingerprint) loaded got) :
    (outputOf got).map document=outputs.map document := by
  have hloaded : outputRows (loaded.map artifactRow)=(outputOf loaded).map artifactRow := by
    rw [outputRows,List.filter_map]
    rfl
  have hfilter : List.Forall₂ (Hydrated fingerprint) (outputOf loaded) (outputOf got) :=
    List.rel_filter (fun a b hab => by obtain ⟨_,rfl,_⟩ := hab; exact Iff.rfl) hgot
  rw [hloaded,List.forall₂_map_right_iff] at hrows
  have hdocs : ∀ a∈outputs,IsDocument fingerprint executionId a :=
    isDocument_of_isRecordingOf ⟨outputs,[],hout,fun _ ha => (List.not_mem_nil ha).elim,
      (List.append_nil outputs).symm⟩
  have hpairs := forall₂_trans (T := fun a served => ∃ artifact,
    IsRowOf a (artifactRow artifact) ∧ Hydrated fingerprint artifact served)
    (fun _ artifact _ hrow hserved => ⟨artifact,hrow,hserved⟩) hrows hfilter
  clear hrows hfilter hout hloaded
  generalize outputOf got=served at hpairs
  induction hpairs with
  | nil => rfl
  | cons hd _ ih =>
    obtain ⟨artifact,hrow,hserved⟩ := hd
    rw [List.map_cons,List.map_cons,
      document_of_hydrated hinj (hdocs _ List.mem_cons_self) hrow hserved,
      ih fun a ha => hdocs a (List.mem_cons_of_mem _ ha)]

/-- The histories of operations other than repairs that run to their ends one
after another, without a fault, with the answers they recorded. -/
abbrev CompleteHistory (Command : Type) (fingerprint : Bytes → Digest) : World × Ledger → Prop :=
  History (observed (Answers .exclusive (noFaults : Faults Command) 0) watchLedger)
    (fun p => ∃ op : Operation Command,op.isRepair=false ∧ p=program fingerprint op)
    (fun q _ => ∃ r,q=.done r) (fun s => (World.released s.1,{ s.2 with called := false }))
    (World.empty,Ledger.empty)

/-- The work of every operation but a repair. -/
def Scope.noRepair : Scope := ⟨true,true,true,false⟩

/-- Wherever such a history leads, the store refines the recorded answers. -/
theorem CompleteHistory.faithful {s : World × Ledger} (h : CompleteHistory Command fingerprint s) :
    CallerSound fingerprint Phase.start s.1 ∧ Faithful fingerprint Phase.start s := by
  have hfollows : ∀ p,(∃ op : Operation Command,op.isRepair=false ∧ p=program fingerprint op) →
      Conforms Scope.noRepair fingerprint Phase.start EndsSettled p := by
    rintro p ⟨op,hop,rfl⟩
    exact conforms_program rfl rfl rfl op fun hrepair => by rw [hop] at hrepair; exact nomatch hrepair
  refine (keeps_faithful rfl).history hfollows ?_ ?_ h
  · exact ⟨⟨Sound.empty fingerprint,trivial⟩,
      { called := fun hr => absurd hr Bool.false_ne_true
        replays := fun _ hrow => (List.not_mem_nil hrow).elim
        present := fun _ hrow => (List.not_mem_nil hrow).elim
        task := trivial }⟩
  · rintro φ q ⟨w,l⟩ ⟨hsound,hfaithful⟩ hrest ⟨r,rfl⟩
    have hsettled : φ.task.settled=true := by
      cases r with
      | ok u => exact hrest.2.2
      | error e => exact hrest.2.2.1
    have hpresent := hfaithful.present
    rw [owed_settled hsettled] at hpresent
    exact ⟨(SameStore.held w []).callerSound ⟨hsound.1,trivial⟩,
      { called := fun hr => absurd hr Bool.false_ne_true
        replays := hfaithful.replays
        present := hpresent
        task := trivial }⟩

/-- An answer given without calling the client is the latest answer recorded
for the key and not purged since: the same documents in the same order. -/
theorem replay_faithful (hinj : Function.Injective fingerprint) {s s' : World × Ledger}
    (h : CompleteHistory Command fingerprint s) (service : CachedMlExecutionService Command)
    (command : Command) {result : MlExecution}
    (hend : Ends (observed (Answers .exclusive noFaults 0) watchLedger)
      (execute service fingerprint command) s (.ok result) s')
    (hcalled : s'.2.called=false) :
    ∃ identity answer outputs,service.buildIdentity command=.ok identity ∧
      s'.2.answer identity.generateKey=some answer ∧
      buildArtifacts fingerprint result.executionId answer .pending=.ok outputs ∧
      (outputOf result.artifacts).map document=outputs.map document := by
  have hcovers : Covers Scope.noRepair service command := ⟨fun _ => rfl,rfl,Or.inr rfl⟩
  obtain ⟨φ,⟨hsound,hfaithful⟩,hlands⟩ := (keeps_faithful rfl).result
    (conforms_execute service [] false hcovers) h.faithful hend
  obtain ⟨identity,hidentity,hserved | hran⟩ := hlands.2.2
  · obtain ⟨loaded,got,hover,rfl⟩ := hserved
    have hhit : HitReplays fingerprint s'.2 ⟨identity.generateKey,loaded,got⟩ ∧
        List.Forall₂ (Hydrated fingerprint) loaded.artifacts got := by
      have htask := hsound.2
      have hledger := hfaithful.task
      rcases hover with hover | hover
      · rw [hover] at htask hledger
        obtain ⟨_,before,hbefore,hall⟩ := htask
        rw [List.append_nil] at hbefore
        exact ⟨hledger,hbefore ▸ hall⟩
      · rw [hover] at htask hledger
        exact ⟨hledger,htask⟩
    obtain ⟨⟨answer,outputs,hanswer,hout,hrows⟩,hgot⟩ := hhit
    exact ⟨identity,answer,outputs,hidentity,hanswer,hout,outputOf_hydrated hinj hout hrows hgot⟩
  · rw [hfaithful.called hran.1] at hcalled
    exact nomatch hcalled

/-- A driven run of the smallest service, with the answers it records. -/
def ledgered {α : Type} (n fresh : ℕ) (p : ServiceM SmallestCommand α) (s : World × Ledger) :
    ServiceM SmallestCommand α × (World × Ledger) :=
  drive ((answers n fresh).map fun handler => handler.watched watchLedger) p s

/-- A driven run is a run. -/
theorem ledgered_reach {α : Type} (n fresh : ℕ) (p : ServiceM SmallestCommand α) (s : World × Ledger) :
    Reach (observed (Answers .exclusive noFaults 0) watchLedger) p s (ledgered n fresh p s).1
      (ledgered n fresh p s).2 := by
  refine drive_reach _ (fun handler hmem => ?_) _ _
  obtain ⟨plain,hplain,rfl⟩ := List.mem_map.mp hmem
  exact (answers_respect n fresh plain hplain).watched watchLedger

/-- The store and its ledger after one recording. -/
def recordedOnce : World × Ledger :=
  let s := (ledgered 40 7 (program positional (.execute smallestService ⟨.cache,.cache⟩))
    (World.empty,Ledger.empty)).2
  (World.released s.1,{ s.2 with called := false })

/-- The run of a second call. -/
def secondCall : ServiceM SmallestCommand MlExecution × (World × Ledger) :=
  ledgered 40 8 (execute smallestService positional ⟨.cache,.cache⟩) recordedOnce

/-- A second call of a recorded key replays what the first one recorded. -/
theorem replay_faithful_secondCall : ∃ result,secondCall.1.value=some result ∧
    ∃ identity answer outputs,
      smallestService.buildIdentity ⟨.cache,.cache⟩=.ok identity ∧
      secondCall.2.2.answer identity.generateKey=some answer ∧
      buildArtifacts positional result.executionId answer .pending=.ok outputs ∧
      (outputOf result.artifacts).map document=outputs.map document := by
  have hvalue : secondCall.1.value.isSome=true := by decide +kernel
  obtain ⟨result,hresult⟩ := Option.isSome_iff_exists.mp hvalue
  have hstart : CompleteHistory SmallestCommand positional recordedOnce :=
    .run .start ⟨_,rfl,rfl⟩ (ledgered_reach 40 7 _ _) (Prog.of_value (by decide +kernel))
  have hend := ledgered_reach 40 8 (execute smallestService positional ⟨.cache,.cache⟩) recordedOnce
  have hdone : (ledgered 40 8 (execute smallestService positional ⟨.cache,.cache⟩) recordedOnce).1=
      .done (.ok result) := Prog.value_eq_some.mp hresult
  rw [hdone] at hend
  exact ⟨result,hresult,replay_faithful positional_injective hstart smallestService ⟨.cache,.cache⟩ hend
    (by decide +kernel)⟩

end Histories

end GenericMlCache.FaithfulReplay
