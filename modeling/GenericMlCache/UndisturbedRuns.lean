import GenericMlCache.ServicePorts
import GenericMlCache.CachedExecution
import Mathlib.Data.Fintype.EquivFin

/-!
# Undisturbed runs

One caller at a time and no port faults. Then what serving a key does is
decided by the store it starts from: whether the key has a current row that
loads, whether its blobs are there, and whether what the call would write can
be bound. Each outcome of serving is one lemma here.
-/

namespace GenericMlCache.UndisturbedRuns

open CallProgram PythonText ExecutionModel SqliteStore ExecutionRepository ExecutionQueries RepositoryCalls
  ServicePorts StorePurge CachedExecution

/-- The columns of a row decode, and its key has an identity that does. -/
structure Decodes (db : Db) (row : ExecutionRow) : Prop where
  /-- Its columns decode. -/
  columns : MutableColumns.wellFormed row.toMutableColumns=true
  /-- Its kind does. -/
  kind : Column.isValue row.kind=true
  /-- Its key has an identity. -/
  identity : ∃ identity,loadIdentity db row.executionKey=.ok identity

/-- A column that decodes is well formed. -/
theorem isValue_of_decode {α : Type} {c : Column α} {a : α} (h : c.decode=.ok a) :
    Column.isValue c=true := by
  cases c with
  | value a => rfl
  | malformed text => exact nomatch h

/-- What decodes loads. -/
theorem Decodes.load {db : Db} {row : ExecutionRow} (h : Decodes db row) :
    ∃ execution,loadExecution db row=.ok execution := by
  have hwf := h.columns
  simp only [MutableColumns.wellFormed,Bool.and_eq_true] at hwf
  obtain ⟨⟨⟨⟨hstate,hsup⟩,hfail⟩,hart⟩,husage⟩ := hwf
  obtain ⟨artifacts,ha⟩ := loadArtifacts_total hart
  obtain ⟨identity,hi⟩ := h.identity
  obtain ⟨state,hst⟩ := Column.decode_of_isValue hstate
  obtain ⟨kind,hk⟩ := Column.decode_of_isValue h.kind
  obtain ⟨usage,hu⟩ := loadTokenUsage_total husage
  obtain ⟨failure,hf⟩ := loadFailure_total hfail
  obtain ⟨stamp,hs⟩ := loadSupersededAt_total hsup
  exact ⟨_,by simp only [loadExecution,ha,loadColumns,hi,hst,hk,hu,hf,hs]; rfl⟩

/-- What loads decodes. -/
theorem Decodes.of_load {db : Db} {row : ExecutionRow} {execution : MlExecution}
    (h : loadExecution db row=.ok execution) : Decodes db row := by
  obtain ⟨artifacts,ha,h⟩ := ok_of_bind h
  have hart := (loadArtifacts_ok ha).1
  split at h
  next loaded hl =>
    obtain ⟨identity,hi,hl⟩ := ok_of_bind hl
    obtain ⟨state,hst,hl⟩ := ok_of_bind hl
    obtain ⟨kind,hk,hl⟩ := ok_of_bind hl
    obtain ⟨usage,hu,hl⟩ := ok_of_bind hl
    obtain ⟨failure,hf,hl⟩ := ok_of_bind hl
    obtain ⟨stamp,hs,hl⟩ := ok_of_bind hl
    refine ⟨(wellFormed_iff _).mpr ⟨isValue_of_decode hst,?_,?_,?_,?_⟩,isValue_of_decode hk,_,hi⟩
    · unfold loadSupersededAt at hs
      cases hstamp : row.supersededAt with
      | none => rfl
      | some stamp =>
        rw [hstamp] at hs
        obtain ⟨_,hstamp,_⟩ := ok_of_bind hs
        exact isValue_of_decode hstamp
    · unfold loadFailure at hf
      cases hreason : row.failureReason with
      | none => rfl
      | some reason =>
        rw [hreason] at hf
        obtain ⟨_,hreason,_⟩ := ok_of_bind hf
        exact isValue_of_decode hreason
    · intro a hmem
      rw [hart] at hmem
      obtain ⟨artifact,_,rfl⟩ := List.mem_map.mp hmem
      rfl
    · unfold loadTokenUsage at hu
      cases husage : row.tokenUsage with
      | none => rfl
      | some usage =>
        rw [husage] at hu
        obtain ⟨_,hraw,_⟩ := ok_of_bind hu
        exact isValue_of_decode hraw
  next => exact nomatch h

/-- The key's current execution can be found, or there is none. -/
def Readable (key : ExecutionKey) (db : Db) : Prop := ∀ row,db.currentRow key=some row → Decodes db row

/-- A well-formed database is readable. -/
theorem Readable.of_wellFormed {db : Db} (h : WellFormed db) (key : ExecutionKey) : Readable key db := by
  intro row hrow
  obtain ⟨execution,hload⟩ := loadExecution_total h (Db.currentRow_mem hrow).1
  exact Decodes.of_load hload

/-- Finding the current execution of a readable key succeeds. -/
theorem Readable.find {key : ExecutionKey} {db : Db} (h : Readable key db) :
    ∃ found,findCurrent key db=.ok found := by
  cases hrow : db.currentRow key with
  | none => exact ⟨none,findCurrent_of_none hrow⟩
  | some row =>
    obtain ⟨execution,hload⟩ := (h row hrow).load
    exact ⟨some execution,by simp only [findCurrent,hrow,hload]; rfl⟩

/-- The current row, after an update that keeps what is servable. -/
theorem currentRow_updateWhere {db : Db} {p : ExecutionRow → Bool} {f : MutableColumns → MutableColumns}
    (hserv : ∀ c,(f c).servable=c.servable) (key : ExecutionKey) :
    (db.updateWhere p f).currentRow key=
      (db.currentRow key).map fun row => if p row=true then row.update f else row := by
  have hcurrent : ∀ row : ExecutionRow,
      isCurrent key (if p row=true then row.update f else row)=isCurrent key row := by
    intro row
    split
    · have hsame : (row.update f).servable=row.servable := hserv row.toMutableColumns
      unfold isCurrent
      rw [hsame]
      rfl
    · rfl
  have hcomp : (isCurrent key ∘ fun row => if p row=true then row.update f else row)=isCurrent key := by
    funext row
    exact hcurrent row
  unfold Db.currentRow
  show List.getLast? (List.filter (isCurrent key)
    (db.executions.map fun row => if p row=true then row.update f else row))=_
  rw [List.filter_map,hcomp,List.getLast?_map]

/-- An update that keeps what is servable and what decodes keeps keys readable. -/
theorem Readable.update {key : ExecutionKey} {db : Db} {p : ExecutionRow → Bool}
    {f : MutableColumns → MutableColumns} (h : Readable key db) (hserv : ∀ c,(f c).servable=c.servable)
    (hwf : ∀ c,MutableColumns.wellFormed c=true → MutableColumns.wellFormed (f c)=true) :
    Readable key (db.updateWhere p f) := by
  intro row hrow
  rw [currentRow_updateWhere hserv] at hrow
  obtain ⟨old,hold,rfl⟩ := Option.map_eq_some_iff.mp hrow
  have hdecodes := h old hold
  split
  · exact ⟨hwf _ hdecodes.columns,hdecodes.kind,hdecodes.identity⟩
  · exact ⟨hdecodes.columns,hdecodes.kind,hdecodes.identity⟩

/-- Tags are not read when a row is loaded. -/
theorem wellFormed_tags (c : MutableColumns) (tags : List PyStr) (h : MutableColumns.wellFormed c=true) :
    MutableColumns.wellFormed { c with tags := tags }=true := h

/-- Tagging keeps keys readable. -/
theorem Readable.addTags {key tagged : ExecutionKey} {tags : List PyStr} {db db' : Db}
    (h : Readable key db) (htags : addTags tagged tags db=.ok db') : Readable key db' := by
  rcases addTags_ok htags with rfl | ⟨id,rfl⟩
  · exact h
  · exact h.update (fun _ => rfl) fun c hc => wellFormed_tags c _ hc

/-- Attaching input keeps keys readable. -/
theorem Readable.addInputArtifacts {key target : ExecutionKey} {documents : List Artifact} {db db' : Db}
    (h : Readable key db) (hadd : addInputArtifacts target documents db=.ok db') : Readable key db' := by
  rcases addInputArtifacts_ok hadd with rfl | ⟨row,_,_,rfl⟩
  · exact h
  · exact h.update (fun _ => rfl) fun c hc => wellFormed_withArtifacts documents hc

/-- Marking keeps keys readable. -/
theorem Readable.mark {key : ExecutionKey} {id : ExecutionId} {blobKey : BlobKey}
    {mark : ArtifactRow → ArtifactRow} {db db' : Db} (h : Readable key db)
    (hmark : ∀ a,ArtifactRow.wellFormed a=true → ArtifactRow.wellFormed (mark a)=true)
    (hmarked : markArtifacts id blobKey mark db=.ok db') : Readable key db' := by
  obtain ⟨_,rfl⟩ := markArtifacts_ok hmarked
  exact h.update (fun _ => rfl) fun c hc => wellFormed_markColumns hmark hc

section Totality
variable {Command : Type} {faults : Faults Command} {thread : ThreadId}

/-- Only this thread is in a key lock. -/
def OwnLocks (thread : ThreadId) (w : World) : Prop := ∀ holding∈w.held,holding.1=thread

/-- A caller that no other one holds up has an answer to every call. -/
theorem answers_total (locks : LockMode) (call : Call Command) (w : World) (h : OwnLocks thread w) :
    ∃ r w',Answers locks faults thread call w r w' ∧ OwnLocks thread w' := by
  cases call with
  | store call =>
    cases ht : transact 0 w.db call with
    | ok result => exact ⟨_,_,.commit 0 ht,h⟩
    | error e => exact ⟨_,_,.reject 0 ht,h⟩
  | blobGet key => exact ⟨_,_,.blobGet,h⟩
  | blobPut key content => exact ⟨_,_,.blobPut,h⟩
  | blobRemove key => exact ⟨_,_,.blobRemove,h⟩
  | blobIsHealthy => exact ⟨_,_,.blobIsHealthy true,h⟩
  | ensureAvailableForContent => exact ⟨_,_,.ensureAvailableForContent,h⟩
  | acquireKey key =>
    refine ⟨_,_,.acquireKey fun _ holding hmem _ => h holding hmem,fun holding hmem => ?_⟩
    rcases List.mem_cons.mp hmem with rfl | hmem
    · rfl
    · exact h holding hmem
  | releaseKey key => exact ⟨_,_,.releaseKey,fun holding hmem => h holding (List.mem_of_mem_erase hmem)⟩
  | acquireShared => exact ⟨_,_,.acquireShared,h⟩
  | releaseShared => exact ⟨_,_,.releaseShared,h⟩
  | recordEvent entry => exact ⟨_,_,.recordEvent,h⟩
  | deleteEventsForKey key => exact ⟨_,_,.deleteEventsForKey,h⟩
  | lastAccess => exact ⟨_,_,.lastAccess none,h⟩
  | executionKeysForSession sessionId => exact ⟨_,_,.executionKeysForSession [],h⟩
  | sessionIdsForTag tag => exact ⟨_,_,.sessionIdsForTag [],h⟩
  | runClient command => exact ⟨_,_,.runClient (.ok { exitCode := 0 }),h⟩
  | newExecutionId =>
    obtain ⟨n,hn⟩ := Infinite.exists_notMem_finset (w.minted.map (·.uuid)).toFinset
    have hfresh : (⟨n⟩ : ExecutionId)∉w.minted := by
      intro hmem
      exact hn (List.mem_toFinset.mpr (List.mem_map.mpr ⟨⟨n⟩,hmem,rfl⟩))
    exact ⟨_,_,.newExecutionId ⟨n⟩ hfresh,h⟩
  | currentTime => exact ⟨_,_,.currentTime 0,h⟩

/-- Such a caller's program has a run that ends. -/
theorem ends_exists {α : Type} (locks : LockMode) (p : ServiceM Command α) {w : World}
    (h : OwnLocks thread w) : ∃ r w',Ends (Answers locks faults thread) p w r w' :=
  Ends.exists (fun call w hw => answers_total locks call w hw) p h

/-- So it has beside a monitor. -/
theorem ends_exists_watched {α μ : Type} (locks : LockMode) (p : ServiceM Command α) {w : World}
    (h : OwnLocks thread w) (watch : (call : Call Command) → Except PyExc call.Ret → μ → μ) (m : μ) :
    ∃ r s',Ends (observed (Answers locks faults thread) watch) p (w,m) r s' := by
  refine Ends.exists (I := fun s : World × μ => OwnLocks thread s.1) (fun call s hs => ?_) p h
  obtain ⟨r,w',hans,hw'⟩ := answers_total locks call s.1 hs
  exact ⟨r,(w',watch call r s.2),⟨hans,rfl⟩,hw'⟩

end Totality

section Serving
variable {Command : Type} {locks : LockMode} {thread : ThreadId} {α β : Type}

/-- From every store where the key is readable the program returns, and the key stays readable. -/
def Succeeds (locks : LockMode) (thread : ThreadId) (key : ExecutionKey) (p : ServiceM Command α) : Prop :=
  ∀ w : World,Readable key w.db → Safe (Answers locks noFaults thread) (fun w => Readable key w.db)
    (fun r _ => ∃ a,r=.ok a) p w

variable {key : ExecutionKey}

/-- A returned value raises nothing. -/
theorem succeeds_pure (a : α) : Succeeds locks thread key (pure a : ServiceM Command α) :=
  fun _ hread => Safe.pure hread ⟨a,rfl⟩

/-- Programs that raise nothing, in sequence. -/
theorem succeeds_bind {p : ServiceM Command α} {f : α → ServiceM Command β}
    (h : Succeeds locks thread key p) (hf : ∀ a,Succeeds locks thread key (f a)) :
    Succeeds locks thread key (p >>= f) := by
  intro w hread
  refine Safe.seq (h w hread) (fun a w' hread' _ => hf a w' hread') fun e w' _ hr => ?_
  obtain ⟨a,ha⟩ := hr
  exact nomatch ha

/-- A call of neither the repository nor the client raises nothing, and changes no row. -/
theorem noFaults_answer {call : Call Command} {w w' : World} {r : Except PyExc call.Ret}
    (h : Answers locks noFaults thread call w r w') (hstore : ∀ storeCall,call≠.store storeCall)
    (hclient : ∀ command,call≠.runClient command) : (∃ a,r=.ok a) ∧ w'.db=w.db := by
  cases h with
  | fault _ hf => exact hf.elim
  | commit | reject => exact absurd rfl (hstore _)
  | runClient => exact absurd rfl (hclient _)
  | _ => exact ⟨⟨_,rfl⟩,rfl⟩

/-- One such call. -/
theorem succeeds_ask {call : Call Command} (hstore : ∀ storeCall,call≠.store storeCall)
    (hclient : ∀ command,call≠.runClient command) : Succeeds locks thread key (ask call) := by
  intro w hread
  refine Safe.perform hread fun r w' hans => ?_
  obtain ⟨hok,hdb⟩ := noFaults_answer hans hstore hclient
  exact ⟨by rw [hdb]; exact hread,hok⟩

/-- One repository call whose transaction commits and keeps the key readable. -/
theorem succeeds_store {call : StoreCall}
    (h : ∀ now db,Readable key db → ∃ a db',transact now db call=.ok (a,db') ∧ Readable key db') :
    Succeeds locks thread key (store call : ServiceM Command call.Ret) := by
  intro w hread
  refine ⟨hread,fun r w' hans => ?_⟩
  rcases answers_store hans with ⟨now,a,db,ht,rfl,rfl⟩ | ⟨e,rfl,rfl,hf | ⟨now,ht⟩⟩
  · obtain ⟨a',db',ht',hread'⟩ := h now w.db hread
    cases ht.symm.trans ht'
    exact ⟨hread',a,rfl⟩
  · exact hf.elim
  · obtain ⟨a',db',ht',_⟩ := h now _ hread
    exact nomatch ht.symm.trans ht'

/-- A cleanup that raises nothing. -/
theorem succeeds_ensure {body : ServiceM Command α} {cleanup : ServiceM Command Unit}
    (h : Succeeds locks thread key body) (hc : Succeeds locks thread key cleanup) :
    Succeeds locks thread key (ensure body cleanup) := by
  intro w hread
  refine Safe.ensure ((h w hread).mono fun r w' hread' hr => ?_)
  refine (hc w' hread').mono fun c w'' _ hok => ?_
  obtain ⟨u,rfl⟩ := hok
  exact hr

/-- A key lock raises nothing. -/
theorem succeeds_withKeyLock (lock : ExecutionKey) {body : ServiceM Command α}
    (h : Succeeds locks thread key body) : Succeeds locks thread key (withKeyLock lock body) :=
  succeeds_bind (succeeds_ask (fun _ hc => nomatch hc) fun _ hc => nomatch hc) fun _ =>
    succeeds_ensure h (succeeds_ask (fun _ hc => nomatch hc) fun _ hc => nomatch hc)

/-- The shared store lock raises nothing. -/
theorem succeeds_withContentWriteLock {body : ServiceM Command α} (h : Succeeds locks thread key body) :
    Succeeds locks thread key (withContentWriteLock body) :=
  succeeds_bind (succeeds_ask (fun _ hc => nomatch hc) fun _ hc => nomatch hc) fun _ =>
    succeeds_ensure h (succeeds_ask (fun _ hc => nomatch hc) fun _ hc => nomatch hc)

/-- A branch raises nothing where neither side does. -/
theorem succeeds_ite {c : Prop} [Decidable c] {p q : ServiceM Command α}
    (hp : Succeeds locks thread key p) (hq : Succeeds locks thread key q) :
    Succeeds locks thread key (if c then p else q) :=
  fun w hread => Safe.ite (fun _ => hp w hread) fun _ => hq w hread

/-- A document whose blob is put is stored or left pending; nothing is raised. -/
theorem succeeds_storeBlob (id : ExecutionId) (artifact : Artifact) :
    Succeeds locks thread key (storeBlob id artifact : ServiceM Command Artifact) := by
  intro w hread
  have hput : Succeeds locks thread key (ask (.blobPut artifact.blobKey (artifact.content.getD [])) :
      ServiceM Command Unit) := succeeds_ask (fun _ hc => nomatch hc) fun _ hc => nomatch hc
  refine Safe.attempt_seq (hput w hread) fun r w' hread' hr => ?_
  obtain ⟨u,rfl⟩ := hr
  have hmark : Safe (Answers locks noFaults thread) (fun w => Readable key w.db)
      (fun r _ => ∀ e,r=.error e → e.isException=true)
      (store (.markArtifactsStored id artifact.blobKey) : ServiceM Command Unit) w' := by
    refine ⟨hread',fun r w'' hans => ?_⟩
    rcases answers_store hans with ⟨now,a,db,ht,rfl,rfl⟩ | ⟨e,rfl,rfl,hf | ⟨now,ht⟩⟩
    · exact ⟨hread'.mark (wellFormed_storedMark now) (commit_ok.mp ht),fun e he => nomatch he⟩
    · exact hf.elim
    · have hraised := plain_commit (plain_markArtifacts id artifact.blobKey (storedMark now) w''.db) e ht
      exact ⟨hread',fun e' he => by cases he; exact hraised.1⟩
  refine Safe.attempt_seq hmark fun r w'' hread'' hr => ?_
  cases r with
  | error e => exact Safe.ite (fun _ => Safe.pure hread'' ⟨_,rfl⟩) fun hne => absurd (hr e rfl) hne
  | ok _ => exact Safe.pure hread'' ⟨_,rfl⟩

/-- So are several documents. -/
theorem succeeds_storeBlobs (id : ExecutionId) (artifacts : List Artifact) :
    Succeeds locks thread key (storeBlobs id artifacts : ServiceM Command Unit) := by
  induction artifacts with
  | nil => exact succeeds_pure ()
  | cons artifact rest ih => exact succeeds_bind (succeeds_storeBlob id artifact) fun _ => ih

/-- The execution with the contents the blobs hold. -/
def Hydrated (blobs : BlobStore) (loaded served : List Artifact) : Prop :=
  List.Forall₂ (fun a b => ∃ content,blobs.get a.blobKey=some content ∧ b={ a with content := some content })
    loaded served

/-- Artifacts whose blobs are there are hydrated. -/
theorem safe_hydrate {artifacts : List Artifact} {w : World}
    (h : ∀ a∈artifacts,(w.blobs.get a.blobKey).isSome=true) :
    Safe (Answers locks noFaults thread) (fun w' => w'=w)
      (fun r _ => ∃ served,r=.ok served ∧ Hydrated w.blobs artifacts served)
      (hydrateArtifacts artifacts : ServiceM Command (List Artifact)) w := by
  induction artifacts with
  | nil => exact Safe.pure rfl ⟨[],rfl,.nil⟩
  | cons artifact rest ih =>
    obtain ⟨content,hcontent⟩ := Option.isSome_iff_exists.mp (h artifact List.mem_cons_self)
    have hone : Safe (Answers locks noFaults thread) (fun w' => w'=w)
        (fun r _ => r=.ok { artifact with content := some content })
        (hydrateArtifact artifact : ServiceM Command Artifact) w := by
      refine Safe.perform_bind rfl (fun a w' hans => ?_) fun e w' hans => ?_
      · cases hans with
        | blobGet => rw [hcontent]; exact Safe.pure rfl rfl
      · cases hans with
        | fault _ hf => exact hf.elim
    refine Safe.seq hone (fun hydrated w' hw hr => ?_) fun e w' _ hr => nomatch hr
    cases Except.ok.inj hr
    subst hw
    refine Safe.seq (ih fun a ha => h a (List.mem_cons_of_mem _ ha)) (fun others w'' hw hr => ?_)
      fun e w'' _ hr => ?_
    · obtain ⟨served,hserved,hall⟩ := hr
      cases Except.ok.inj hserved
      exact Safe.pure hw ⟨_,rfl,.cons ⟨content,hcontent,rfl⟩ hall⟩
    · obtain ⟨served,hserved,_⟩ := hr
      exact nomatch hserved

/-- One artifact is hydrated exactly when its blob is there. -/
def HydratesOne (blob : Option Bytes) (r : Except PyExc Artifact) : Prop :=
  match blob with
  | some _ => ∃ a,r=.ok a
  | none => ∃ e : PyExc,r=.error e ∧ e.isCorruption=true

/-- An artifact whose blob is missing is reported as corruption. -/
theorem safe_hydrate_missing {artifacts : List Artifact} {w : World}
    (h : ∃ a∈artifacts,w.blobs.get a.blobKey=none) :
    Safe (Answers locks noFaults thread) (fun w' => w'=w)
      (fun r _ => ∃ e : PyExc,r=.error e ∧ e.isCorruption=true)
      (hydrateArtifacts artifacts : ServiceM Command (List Artifact)) w := by
  induction artifacts with
  | nil =>
    obtain ⟨a,ha,_⟩ := h
    exact (List.not_mem_nil ha).elim
  | cons artifact rest ih =>
    have hone : Safe (Answers locks noFaults thread) (fun w' => w'=w)
        (fun r _ => HydratesOne (w.blobs.get artifact.blobKey) r)
        (hydrateArtifact artifact : ServiceM Command Artifact) w := by
      refine Safe.perform_bind rfl (fun a w' hans => ?_) fun e w' hans => ?_
      · cases hans with
        | blobGet =>
          cases hget : w.blobs.get artifact.blobKey with
          | none => exact Safe.raise rfl ⟨_,rfl,rfl⟩
          | some content => exact Safe.pure rfl ⟨_,rfl⟩
      · cases hans with
        | fault _ hf => exact hf.elim
    refine Safe.seq hone (fun hydrated w' hw hr => ?_) fun e w' hw hr => ?_
    · subst hw
      have hrest : ∃ a∈rest,w'.blobs.get a.blobKey=none := by
        obtain ⟨a,ha,hnone⟩ := h
        rcases List.mem_cons.mp ha with rfl | ha
        · rw [hnone] at hr
          obtain ⟨e,he,_⟩ := hr
          cases he
        · exact ⟨a,ha,hnone⟩
      refine Safe.seq (ih hrest) (fun others w'' _ hr => ?_) fun e w'' _ hr => ?_
      · obtain ⟨e,he,_⟩ := hr
        cases he
      · obtain ⟨e',he,hcorrupt⟩ := hr
        cases he
        exact ⟨e,rfl,hcorrupt⟩
    · cases hget : w.blobs.get artifact.blobKey with
      | none =>
        rw [hget] at hr
        obtain ⟨e',he,hcorrupt⟩ := hr
        cases he
        exact ⟨e,rfl,hcorrupt⟩
      | some content =>
        rw [hget] at hr
        obtain ⟨a,ha⟩ := hr
        cases ha

end Serving

section Hits
variable {Command : Type} {locks : LockMode} {thread : ThreadId} {key : ExecutionKey}
  {service : CachedMlExecutionService Command} {fingerprint : Bytes → Digest} {command : Command}

/-- The tags of the call can be bound. -/
def TagsBind (service : CachedMlExecutionService Command) (command : Command) : Prop :=
  (service.executionTags command).forM bindText=.ok ()

/-- What a row of an input part binds: its name, its size, and no detail. -/
def bindPart (part : InputPart) : Except PyExc Unit := do
  bindOptional bindText part.name
  bindInteger part.content.length
  bindOptional bindText none

/-- The input of the call can be read, and its rows can be bound. -/
def InputBinds (service : CachedMlExecutionService Command) (command : Command) : Prop :=
  ∃ parts,service.inputParts command=.ok parts ∧ parts.forM bindPart=.ok ()

/-- A loop over images is a loop. -/
theorem forM_map {α β : Type} {f : β → Except PyExc Unit} {g : α → β} {h : α → Except PyExc Unit}
    (hfg : ∀ a,f (g a)=h a) (as : List α) : (as.map g).forM f=as.forM h := by
  induction as with
  | nil => rfl
  | cons a as ih =>
    show (f (g a) >>= fun _ => (as.map g).forM f)=(h a >>= fun _ => as.forM h)
    rw [hfg,ih]

/-- Binding the rows of input documents binds their parts. -/
theorem insertArtifacts_parts (id : ExecutionId) (status : ArtifactStatus) (parts : List InputPart) :
    insertArtifacts (parts.map fun part =>
        makeArtifact fingerprint id part.artifactType part.name part.content status)=
      (parts.forM bindPart).map fun _ => (parts.map fun part =>
        makeArtifact fingerprint id part.artifactType part.name part.content status).map artifactRow := by
  have hforM := forM_map (f := fun artifact : Artifact => do
      bindOptional bindText artifact.name
      bindSize artifact.sizeBytes
      bindOptional bindText artifact.statusDetail)
    (g := fun part : InputPart =>
      makeArtifact fingerprint id part.artifactType part.name part.content status)
    (h := bindPart) (fun _ => rfl) parts
  unfold insertArtifacts
  rw [hforM]
  cases parts.forM bindPart <;> rfl

/-- The input documents of a call whose input binds. -/
theorem InputBinds.build (h : InputBinds service command) (id : ExecutionId) :
    ∃ documents rows,buildInputArtifacts service fingerprint id command .pending=.ok documents ∧
      insertArtifacts documents=.ok rows := by
  obtain ⟨parts,hparts,hbind⟩ := h
  have hrows := @insertArtifacts_parts fingerprint id .pending parts
  rw [hbind] at hrows
  exact ⟨_,_,by unfold buildInputArtifacts; rw [hparts]; rfl,hrows⟩

/-- Tags that bind are added. -/
theorem addTags_total {tags : List PyStr} (h : tags.forM bindText=.ok ()) (key : ExecutionKey) (db : Db) :
    ∃ db',addTags key tags db=.ok db' := by
  unfold addTags
  split
  · exact ⟨_,rfl⟩
  · split
    · exact ⟨_,rfl⟩
    · exact ⟨_,by rw [h]; rfl⟩

/-- Input whose rows bind is attached. -/
theorem addInputArtifacts_total {documents : List Artifact} {rows : List ArtifactRow}
    (h : insertArtifacts documents=.ok rows) (key : ExecutionKey) (db : Db) :
    ∃ db',addInputArtifacts key documents db=.ok db' := by
  unfold addInputArtifacts
  split
  · exact ⟨_,rfl⟩
  · split
    · exact ⟨_,rfl⟩
    · split
      · exact ⟨_,rfl⟩
      · exact ⟨_,by rw [h]; rfl⟩

/-- Tagging with tags that bind raises nothing. -/
theorem succeeds_applyTags (h : TagsBind service command) (tagged : ExecutionKey) :
    Succeeds locks thread key (applyTags service tagged command) := by
  refine succeeds_ite (succeeds_pure ()) (succeeds_store fun now db hread => ?_)
  obtain ⟨db',hadd⟩ := addTags_total h tagged db
  exact ⟨(),db',commit_ok.mpr hadd,hread.addTags hadd⟩

/-- A journal event raises nothing. -/
theorem succeeds_recordEvent (event : JournalEvent) (eventKey : ExecutionKey) :
    Succeeds locks thread key (recordEvent service event eventKey command) :=
  succeeds_ask (fun _ hc => nomatch hc) fun _ hc => nomatch hc

/-- Finding the current execution of a readable key raises nothing. -/
theorem succeeds_findCurrent :
    Succeeds locks thread key (store (.findCurrent key) : ServiceM Command (Option MlExecution)) :=
  succeeds_store fun _ db hread => by
    obtain ⟨found,hfound⟩ := hread.find
    exact ⟨found,db,reading_ok.mpr ⟨hfound,rfl⟩,hread⟩

/-- A back-fill whose input binds raises nothing. -/
theorem succeeds_accumulateInput (current : MlExecution)
    (h : (service.persistenceDepth command).storesInput=true → current.inputPersisted=false →
      InputBinds service command) :
    Succeeds locks thread key (accumulateInput service fingerprint key command current) := by
  intro w hread
  refine Safe.ite (fun _ => succeeds_pure () w hread) fun hneeded => ?_
  simp only [Bool.or_eq_true,Bool.not_eq_true',not_or,Bool.not_eq_false,Bool.not_eq_true] at hneeded
  have hbinds := h hneeded.1 hneeded.2
  refine succeeds_withKeyLock key (succeeds_bind succeeds_findCurrent fun found => ?_) w hread
  cases found with
  | none => exact succeeds_pure ()
  | some fresh =>
    refine succeeds_ite (succeeds_pure ()) ?_
    obtain ⟨documents,rows,hbuild,hrows⟩ := @InputBinds.build _ _ fingerprint _ hbinds fresh.executionId
    unfold attachInput
    rw [hbuild]
    refine succeeds_ite (succeeds_pure ()) (succeeds_bind (succeeds_store fun now db hread => ?_) fun _ =>
      succeeds_withContentWriteLock (succeeds_storeBlobs _ _))
    obtain ⟨db',hadd⟩ := addInputArtifacts_total hrows key db
    exact ⟨(),db',commit_ok.mpr hadd,hread.addInputArtifacts hadd⟩

/-- A hit whose blobs are there is served with them. -/
theorem safe_serveHit {current : MlExecution} {w : World} (hread : Readable key w.db)
    (hblobs : ∀ a∈current.artifacts,(w.blobs.get a.blobKey).isSome=true)
    (htags : TagsBind service command)
    (hinput : (service.persistenceDepth command).storesInput=true → current.inputPersisted=false →
      InputBinds service command) :
    Safe (Answers locks noFaults thread) (fun w' => Readable key w'.db)
      (fun r _ => ∃ served,r=.ok { current with artifacts := served } ∧
        Hydrated w.blobs current.artifacts served)
      (serveHit service fingerprint key command current) w := by
  have hreads : ∀ w' : World,w'=w → Readable key w'.db := fun w' hw => hw ▸ hread
  have hloaded : Safe (Answers locks noFaults thread) (fun w' => w'=w)
      (fun r _ => ∃ served,r=.ok { current with artifacts := served } ∧
        Hydrated w.blobs current.artifacts served) (hydrate current : ServiceM Command MlExecution) w := by
    refine Safe.seq (safe_hydrate hblobs) (fun artifacts w' hw hr => ?_) fun e w' _ hr => ?_
    · obtain ⟨served,hserved,hall⟩ := hr
      cases Except.ok.inj hserved
      exact Safe.pure hw ⟨_,rfl,hall⟩
    · obtain ⟨served,hserved,_⟩ := hr
      exact nomatch hserved
  refine Safe.seq (hloaded.crash hreads) (fun hydrated w' hread' hr => ?_) fun e w' _ hr => ?_
  · obtain ⟨_,served,hserved,hall⟩ := hr
    cases Except.ok.inj hserved
    have hrest : Succeeds locks thread key (recordEvent service .hit key command >>= fun _ =>
        applyTags service key command >>= fun _ =>
          accumulateInput service fingerprint key command current) :=
      succeeds_bind (succeeds_recordEvent _ _) fun _ => succeeds_bind (succeeds_applyTags htags key) fun _ =>
        succeeds_accumulateInput current hinput
    have hdone := Safe.seq (hrest w' hread') (Q := fun r _ => r=.ok { current with artifacts := served })
      (f := fun _ => pure { current with artifacts := served }) (fun _ w'' hread'' _ => Safe.pure hread'' rfl)
      fun e w'' _ hr => nomatch hr
    simp only [CallProgram.bind_assoc] at hdone
    exact hdone.mono fun r w'' _ hr => ⟨served,hr,hall⟩
  · obtain ⟨_,served,hserved,_⟩ := hr
    exact nomatch hserved

/-- What a lookup of the current execution answers without faults. -/
theorem safe_findCurrent {w : World} :
    Safe (Answers locks noFaults thread) (fun w' => w'=w) (fun r _ => r=findCurrent key w.db)
      (store (.findCurrent key) : ServiceM Command (Option MlExecution)) w := by
  refine ⟨rfl,fun r w' hans => ?_⟩
  rcases answers_store hans with ⟨now,a,db,ht,rfl,rfl⟩ | ⟨e,rfl,rfl,hf | ⟨now,ht⟩⟩
  · obtain ⟨hfound,rfl⟩ := reading_ok.mp ht
    exact ⟨rfl,hfound.symm⟩
  · exact hf.elim
  · refine ⟨rfl,?_⟩
    cases hfound : findCurrent key w'.db with
    | ok found => exact nomatch (reading_ok.mpr ⟨hfound,rfl⟩).symm.trans ht
    | error e' =>
      have hsame : (reading w'.db (findCurrent key w'.db))=.error e := ht
      rw [hfound] at hsame
      cases hsame
      rfl

/-- Serving a key whose current execution loads serves or heals that one. -/
theorem safe_serve_found {C : World → Prop} {Q : Except PyExc (Option MlExecution) → World → Prop}
    {current : MlExecution} {w : World} (hfound : findCurrent key w.db=.ok (some current)) (hc : C w)
    (h : Safe (Answers locks noFaults thread) C (fun r w' => match r with
        | .ok served => Q (.ok (some served)) w'
        | .error e => if e.isCorruption=true then
            Safe (Answers locks noFaults thread) C Q
              (removeExecutionAndBlobs current >>= fun _ => (pure none : ServiceM Command _)) w'
          else Q (.error e) w') (serveHit service fingerprint key command current) w) :
    Safe (Answers locks noFaults thread) C Q (serveCurrentIfHealthy service fingerprint key command) w := by
  refine Safe.attempt_seq (safe_findCurrent.crash fun w' hw => by rw [hw]; exact hc) fun r w' _ hr => ?_
  obtain ⟨rfl,rfl⟩ := hr
  rw [hfound]
  refine Safe.attempt_seq h fun r w' hc' hr => ?_
  cases r with
  | ok served => exact Safe.pure hc' hr
  | error e =>
    by_cases hcorrupt : e.isCorruption=true
    · simp only [hcorrupt,if_true] at hr ⊢
      exact hr
    · simp only [hcorrupt] at hr ⊢
      exact Safe.raise hc' hr

/-- A key without a current row is a miss. -/
theorem safe_serve_absent {w : World} (h : w.db.currentRow key=none) :
    Safe (Answers locks noFaults thread) (fun w' => w'=w) (fun r _ => r=.ok none)
      (serveCurrentIfHealthy service fingerprint key command) w := by
  refine Safe.attempt_seq safe_findCurrent fun r w' hw hr => ?_
  subst hw
  rw [hr,findCurrent_of_none h]
  exact Safe.pure rfl rfl

/-- A key whose current execution loads, with its blobs there, is served from them. -/
theorem safe_serve_healthy {current : MlExecution} {w : World}
    (hfound : findCurrent key w.db=.ok (some current)) (hread : Readable key w.db)
    (hblobs : ∀ a∈current.artifacts,(w.blobs.get a.blobKey).isSome=true)
    (htags : TagsBind service command)
    (hinput : (service.persistenceDepth command).storesInput=true → current.inputPersisted=false →
      InputBinds service command) :
    Safe (Answers locks noFaults thread) (fun w' => Readable key w'.db)
      (fun r _ => ∃ served,r=.ok (some { current with artifacts := served }) ∧
        Hydrated w.blobs current.artifacts served)
      (serveCurrentIfHealthy service fingerprint key command) w := by
  refine safe_serve_found hfound hread ((safe_serveHit hread hblobs htags hinput).mono ?_)
  rintro r w' _ ⟨served,rfl,hall⟩
  exact ⟨served,rfl,hall⟩

/-- A heal removes the row, and raises nothing. -/
theorem safe_removeExecutionAndBlobs (current : MlExecution) (w : World) :
    Safe (Answers locks noFaults thread) (fun _ => True)
      (fun r w' => r=.ok () ∧ w'.db=removeExecution current.executionId w.db)
      (removeExecutionAndBlobs current : ServiceM Command Unit) w := by
  have hblobs : ∀ (artifacts : List Artifact) (w' : World),w'.db=w.db →
      Safe (Answers locks noFaults thread) (fun _ => True) (fun r w'' => r=.ok () ∧ w''.db=w.db)
        (removeArtifactBlobs artifacts : ServiceM Command Unit) w' := by
    intro artifacts
    induction artifacts with
    | nil => exact fun w' hdb => Safe.pure trivial ⟨rfl,hdb⟩
    | cons artifact rest ih =>
      intro w' hdb
      refine Safe.perform_bind trivial (fun a w'' hans => ?_) fun e w'' hans => ?_
      · cases hans with
        | blobRemove => exact ih _ hdb
      · cases hans with
        | fault _ hf => exact hf.elim
  refine Safe.seq (hblobs current.artifacts w rfl) (fun _ w' _ hr => ?_) fun e w' _ hr => nomatch hr.1
  refine ⟨trivial,fun r w'' hans => ⟨trivial,?_⟩⟩
  rcases answers_store hans with ⟨now,a,db,ht,rfl,rfl⟩ | ⟨e,rfl,rfl,hf | ⟨now,ht⟩⟩
  · have hdb := Except.ok.inj (commit_ok.mp ht)
    refine ⟨rfl,?_⟩
    rw [← hr.2]
    exact hdb.symm
  · exact hf.elim
  · exact nomatch ht

/-- A key whose current execution loads but lacks a blob is healed: the row is removed. -/
theorem safe_serve_missing {current : MlExecution} {w : World}
    (hfound : findCurrent key w.db=.ok (some current))
    (hblobs : ∃ a∈current.artifacts,w.blobs.get a.blobKey=none) :
    Safe (Answers locks noFaults thread) (fun _ => True)
      (fun r w' => r=.ok none ∧ w'.db=removeExecution current.executionId w.db)
      (serveCurrentIfHealthy service fingerprint key command) w := by
  have hhydrate : Safe (Answers locks noFaults thread) (fun _ => True)
      (fun r w' => w'=w ∧ ∃ e : PyExc,r=.error e ∧ e.isCorruption=true)
      (hydrate current : ServiceM Command MlExecution) w := by
    refine Safe.seq ((safe_hydrate_missing hblobs).crash fun _ _ => trivial) (fun _ _ _ hr => ?_)
      fun e w' _ hr => ?_
    · obtain ⟨_,e,he,_⟩ := hr
      exact nomatch he
    · obtain ⟨hw,e',he,hcorrupt⟩ := hr
      cases he
      exact ⟨hw,e,rfl,hcorrupt⟩
  refine safe_serve_found hfound trivial (Safe.seq hhydrate (fun _ _ _ hr => ?_) fun e w' _ hr => ?_)
  · obtain ⟨_,e,he,_⟩ := hr
    exact nomatch he
  · obtain ⟨rfl,e',he,hcorrupt⟩ := hr
    cases he
    simp only [hcorrupt,if_true]
    refine Safe.seq (safe_removeExecutionAndBlobs current w') (fun _ w'' _ hr => ?_) fun e w'' _ hr => ?_
    · exact Safe.pure trivial ⟨rfl,hr.2⟩
    · exact nomatch hr.1

/-- A loaded execution has input exactly where its row does. -/
theorem inputPersisted_of_load {db : Db} {row : ExecutionRow} {execution : MlExecution}
    (h : loadExecution db row=.ok execution) :
    execution.inputPersisted=row.artifacts.any ArtifactRow.isInput := by
  obtain ⟨_,hrows,_,hinput⟩ := loadExecution_ok h
  rw [hinput,hrows,List.any_map]
  rfl

/-- Tags that do not bind are refused where there is an execution to tag. -/
theorem addTags_refused {tags : List PyStr} (h : ¬tags.forM bindText=.ok ()) {key : ExecutionKey} {db : Db}
    {row : ExecutionRow} (hrow : db.currentRow key=some row) : ∃ e,addTags key tags db=.error e := by
  have hne : tags≠[] := fun hnil => h (by rw [hnil]; rfl)
  unfold addTags
  rw [if_neg hne,hrow]
  cases hbind : tags.forM bindText with
  | ok u => exact absurd hbind h
  | error e => exact ⟨e,rfl⟩

/-- Input whose rows do not bind is refused where there is an execution without input. -/
theorem addInputArtifacts_refused {documents : List Artifact} {e : PyExc}
    (h : insertArtifacts documents=.error e) {key : ExecutionKey} {db : Db} {row : ExecutionRow}
    (hrow : db.currentRow key=some row) (hinput : row.artifacts.any ArtifactRow.isInput=false) :
    addInputArtifacts key documents db=.error e := by
  have hne : ¬documents.isEmpty=true := by
    intro hempty
    rw [List.isEmpty_iff.mp hempty] at h
    exact nomatch h
  unfold addInputArtifacts
  rw [if_neg hne,hrow]
  simp only [hinput,Bool.false_eq_true,if_false,h]
  rfl

/-- One repository call whose transaction is refused, whatever the clock says. -/
theorem safe_store_refused {call : StoreCall} {w : World}
    (h : ∀ now,∃ e,transact now w.db call=.error e ∧ e.isCorruption=false) :
    Safe (Answers locks noFaults thread) (fun _ => True)
      (fun r _ => ∃ e : PyExc,r=.error e ∧ e.isCorruption=false)
      (store call : ServiceM Command call.Ret) w := by
  refine ⟨trivial,fun r w' hans => ⟨trivial,?_⟩⟩
  rcases answers_store hans with ⟨now,a,db,ht,rfl,rfl⟩ | ⟨e,rfl,rfl,hf | ⟨now,ht⟩⟩
  · obtain ⟨e,he,_⟩ := h now
    exact nomatch ht.symm.trans he
  · exact hf.elim
  · obtain ⟨e',he,hcorrupt⟩ := h now
    cases ht.symm.trans he
    exact ⟨e,rfl,hcorrupt⟩

/-- Attaching input that cannot be read or bound raises, and reports no corruption. -/
theorem safe_attachInput_refused {w : World} {row : ExecutionRow} (hrow : w.db.currentRow key=some row)
    (hnone : row.artifacts.any ArtifactRow.isInput=false) (hbinds : ¬InputBinds service command)
    (id : ExecutionId) :
    Safe (Answers locks noFaults thread) (fun _ => True)
      (fun r _ => ∃ e : PyExc,r=.error e ∧ e.isCorruption=false)
      (attachInput service fingerprint key command id) w := by
  unfold attachInput buildInputArtifacts
  cases hparts : service.inputParts command with
  | error e => exact Safe.raise trivial ⟨e,rfl,service.inputParts_error command e hparts⟩
  | ok parts =>
    have hrows := @insertArtifacts_parts fingerprint id .pending parts
    cases hforM : parts.forM bindPart with
    | ok u => exact absurd ⟨parts,hparts,hforM⟩ hbinds
    | error e =>
      rw [hforM] at hrows
      have hplain := plain_insertArtifacts _ e hrows
      refine Safe.ite (fun hempty => ?_) fun _ => ?_
      · have hnil := List.isEmpty_iff.mp hempty
        exact nomatch (congrArg insertArtifacts hnil).symm.trans hrows
      · refine Safe.seq (safe_store_refused fun now => ⟨e,?_,hplain.2⟩) (fun _ _ _ hr => ?_)
          fun e' w' _ hr => ?_
        · show commit _=_
          rw [addInputArtifacts_refused hrows hrow hnone]
          rfl
        · obtain ⟨e',he,_⟩ := hr
          exact nomatch he
        · obtain ⟨e'',he,hcorrupt⟩ := hr
          cases he
          exact ⟨e',rfl,hcorrupt⟩

/-- A back-fill whose input cannot be read or bound raises, and reports no corruption. -/
theorem safe_accumulateInput_refused {current : MlExecution} {w : World} {row : ExecutionRow}
    (hrow : w.db.currentRow key=some row) (hdecodes : Decodes w.db row)
    (hnone : row.artifacts.any ArtifactRow.isInput=false)
    (hdepth : (service.persistenceDepth command).storesInput=true) (hcurrent : current.inputPersisted=false)
    (hbinds : ¬InputBinds service command) :
    Safe (Answers locks noFaults thread) (fun _ => True)
      (fun r _ => ∃ e : PyExc,r=.error e ∧ e.isCorruption=false)
      (accumulateInput service fingerprint key command current) w := by
  have hneeded : ¬(!(service.persistenceDepth command).storesInput || current.inputPersisted)=true := by
    rw [hdepth,hcurrent]
    exact Bool.false_ne_true
  unfold accumulateInput
  rw [if_neg hneeded]
  refine Safe.perform_bind trivial (fun _ w' hans => ?_) fun e w' hans => ?_
  · have hdb : w'.db=w.db := (noFaults_answer hans (fun _ hc => (by cases hc)) (fun _ hc => (by cases hc))).2
    rw [← hdb] at hrow hdecodes
    have hbody : Safe (Answers locks noFaults thread) (fun _ => True)
        (fun r _ => ∃ e : PyExc,r=.error e ∧ e.isCorruption=false)
        (backFillInput service fingerprint key command) w' := by
      obtain ⟨fresh,hload⟩ := hdecodes.load
      have hfound : findCurrent key w'.db=.ok (some fresh) := by
        simp only [findCurrent,hrow,hload]
        rfl
      refine Safe.seq (safe_findCurrent.crash fun _ _ => trivial) (fun found w₂ _ hr => ?_)
        fun e w₂ _ hr => ?_
      · obtain ⟨rfl,hr⟩ := hr
        rw [hfound] at hr
        cases Except.ok.inj hr
        refine Safe.ite (fun hfresh => ?_) fun _ => safe_attachInput_refused hrow hnone hbinds _
        rw [inputPersisted_of_load hload,hnone] at hfresh
        cases hfresh
      · rw [hfound] at hr
        cases hr.2
    refine Safe.ensure (hbody.mono fun r w₂ _ hr => ⟨trivial,fun c w₃ hans => ⟨trivial,?_⟩⟩)
    obtain ⟨⟨u,rfl⟩,_⟩ := noFaults_answer hans (fun _ hc => (by cases hc)) (fun _ hc => (by cases hc))
    exact hr
  · cases hans with
    | fault _ hf => exact hf.elim

/-- Tagging is refused, or leaves the key's current row with the artifacts it had. -/
theorem safe_applyTags {w : World} {row : ExecutionRow} (hrow : w.db.currentRow key=some row)
    (hdecodes : Decodes w.db row) :
    Safe (Answers locks noFaults thread) (fun _ => True)
      (fun r w' => (∃ e : PyExc,r=.error e ∧ e.isCorruption=false) ∨
        (r=.ok () ∧ TagsBind service command ∧ ∃ row',w'.db.currentRow key=some row' ∧
          Decodes w'.db row' ∧ row'.artifacts=row.artifacts)) (applyTags service key command) w := by
  refine Safe.ite (fun hempty => ?_) fun _ => ?_
  · have hbind : TagsBind service command := by
      unfold TagsBind
      rw [List.isEmpty_iff.mp hempty]
      rfl
    exact Safe.pure trivial (Or.inr ⟨rfl,hbind,row,hrow,hdecodes,rfl⟩)
  · refine ⟨trivial,fun r w' hans => ⟨trivial,?_⟩⟩
    rcases answers_store hans with ⟨now,a,db,ht,rfl,rfl⟩ | ⟨e,rfl,rfl,hf | ⟨now,ht⟩⟩
    · have hadd := commit_ok.mp ht
      have hbind : TagsBind service command := by
        by_contra hne
        obtain ⟨e,he⟩ := addTags_refused hne hrow
        exact nomatch hadd.symm.trans he
      refine Or.inr ⟨rfl,hbind,?_⟩
      rcases addTags_ok hadd with rfl | ⟨id,rfl⟩
      · exact ⟨row,hrow,hdecodes,rfl⟩
      · have hcurrent := @currentRow_updateWhere w.db (hasId id)
          (fun c => { c with tags := (service.executionTags command).foldl insertTag c.tags })
          (fun _ => rfl) key
        rw [hrow,Option.map_some] at hcurrent
        refine ⟨_,hcurrent,?_⟩
        split <;> exact ⟨⟨hdecodes.columns,hdecodes.kind,hdecodes.identity⟩,rfl⟩
    · exact hf.elim
    · exact Or.inl ⟨e,rfl,(plain_commit (plain_addTags key _ _) e ht).2⟩

/-- A hit that would write what cannot be bound raises. -/
theorem safe_serve_refused {current : MlExecution} {w : World} {row : ExecutionRow}
    (hrow : w.db.currentRow key=some row) (hload : loadExecution w.db row=.ok current)
    (hblobs : ∀ a∈current.artifacts,(w.blobs.get a.blobKey).isSome=true)
    (hrefused : ¬TagsBind service command ∨ ((service.persistenceDepth command).storesInput=true ∧
      current.inputPersisted=false ∧ ¬InputBinds service command)) :
    Safe (Answers locks noFaults thread) (fun _ => True) (fun r _ => ∃ e : PyExc,r=.error e)
      (serveCurrentIfHealthy service fingerprint key command) w := by
  have hfound : findCurrent key w.db=.ok (some current) := by
    simp only [findCurrent,hrow,hload]
    rfl
  suffices hhit : Safe (Answers locks noFaults thread) (fun _ => True)
      (fun r _ => ∃ e : PyExc,r=.error e ∧ e.isCorruption=false)
      (serveHit service fingerprint key command current) w by
    refine safe_serve_found hfound trivial (hhit.mono fun r w' _ hr => ?_)
    obtain ⟨e,rfl,hplain⟩ := hr
    simp only [hplain,Bool.false_eq_true,if_false]
    exact ⟨e,rfl⟩
  have hdecodes := Decodes.of_load hload
  have hloaded : Safe (Answers locks noFaults thread) (fun _ => True) (fun r w' => w'=w ∧ ∃ a,r=.ok a)
      (hydrate current : ServiceM Command MlExecution) w := by
    refine Safe.seq ((safe_hydrate hblobs).crash fun _ _ => trivial) (fun artifacts w' _ hr => ?_)
      fun e w' _ hr => ?_
    · exact Safe.pure trivial ⟨hr.1,_,rfl⟩
    · obtain ⟨_,served,hserved,_⟩ := hr
      cases hserved
  refine Safe.seq hloaded (fun hydrated w' _ hr => ?_) fun e w' _ hr => ?_
  · obtain ⟨rfl,_⟩ := hr
    refine Safe.perform_bind trivial (fun _ w₂ hans => ?_) fun e w₂ hans => ?_
    · have hdb := (noFaults_answer hans (fun _ hc => (by cases hc)) (fun _ hc => (by cases hc))).2
      rw [← hdb] at hrow hdecodes
      have htagged := @safe_applyTags _ locks thread _ service command _ _ hrow hdecodes
      refine Safe.seq htagged (fun _ w₃ _ hr => ?_) fun e w₃ _ hr => ?_
      · rcases hr with ⟨e,he,_⟩ | ⟨_,hbind,row',hrow',hdecodes',hsame⟩
        · cases he
        · obtain hfalse | ⟨hdepth,hcurrent,hbinds⟩ := hrefused
          · exact absurd hbind hfalse
          · have hnone : row'.artifacts.any ArtifactRow.isInput=false := by
              rw [hsame,← inputPersisted_of_load hload]
              exact hcurrent
            refine Safe.seq (safe_accumulateInput_refused hrow' hdecodes' hnone hdepth hcurrent hbinds)
              (fun _ _ _ hr => ?_) fun e w₄ _ hr => ?_
            · obtain ⟨e,he,_⟩ := hr
              cases he
            · obtain ⟨e',he,hplain⟩ := hr
              cases he
              exact ⟨e,rfl,hplain⟩
      · rcases hr with ⟨e',he,hplain⟩ | ⟨hok,_⟩
        · cases he
          exact ⟨e,rfl,hplain⟩
        · cases hok
    · cases hans with
      | fault _ hf => exact hf.elim
  · obtain ⟨_,a,ha⟩ := hr
    cases ha

end Hits

end GenericMlCache.UndisturbedRuns
