import GenericMlCache.BareRows
import GenericMlCache.ExecuteCalls

/-!
# What an execute leaves of its row

An execute inserts its row before the client's call, and every exit after that
call resolves it. A watch remembers the row that was saved and what became of it.
-/

namespace GenericMlCache.EntryResolution

open CallProgram CallAutomaton PythonText ExecutionModel SqliteStore ExecutionRepository
  RepositoryCalls ServicePorts StorePurge CachedExecution ExecuteCalls ServiceOperations BareRows

/-- What became of the row that an execute saved. -/
structure EntryWatch where
  /-- The id generated last. -/
  minted : Option ExecutionId
  /-- The execution saved. -/
  saved : Option ExecutionId
  /-- Its stored state. -/
  state : Option (Column ExecutionState)
  /-- Something may have been attached to it. -/
  filled : Bool
  /-- What its client raised. -/
  clientError : Option PyExc
  /-- Recording its outcome, or removing it, raised. -/
  unresolved : Bool
  /-- A call other than the client's raised since, or an eviction listed a size that is a text. -/
  disturbed : Bool
  /-- A key was hard deleted. -/
  deleted : Bool

/-- Before anything is saved. -/
def EntryWatch.blank : EntryWatch := ⟨none,none,none,false,none,false,false,false⟩

/-- A call of the repository committed. -/
def EntryWatch.committed (call : StoreCall) (m : EntryWatch) : EntryWatch :=
  match m.saved with
  | none => m
  | some id => { m with state := stateAfter id call m.state, filled := m.filled || fills id call }

/-- A commit after the save. -/
theorem EntryWatch.committed_eq {call : StoreCall} {m : EntryWatch} {id : ExecutionId} (h : m.saved=some id) :
    m.committed call={ m with state := stateAfter id call m.state, filled := m.filled || fills id call } := by
  unfold EntryWatch.committed
  simp only [h]

/-- A call that resolves a row in progress. -/
def isResolution {Command : Type} : Call Command → Bool
  | .store (.recordOutcome _) | .store (.removeExecution _) => true
  | _ => false

/-- A call other than the client's raised. -/
def EntryWatch.raised (resolution : Bool) (m : EntryWatch) : EntryWatch :=
  { m with
    unresolved := m.unresolved || (m.saved.isSome && resolution)
    disturbed := m.disturbed || m.saved.isSome }

/-- An eviction listed sizes. -/
def EntryWatch.listed (sizes : List (BlobKey × Size)) (m : EntryWatch) : EntryWatch :=
  { m with disturbed := m.disturbed || (m.saved.isSome && !addable sizes) }

/-- Keep the watch. -/
def watchEntry {Command : Type} :
    (call : Call Command) → Except PyExc call.Ret → EntryWatch → EntryWatch
  | .newExecutionId,.ok id,m => { m with minted := some id }
  | .store (.save execution),.ok _,m =>
    { m with
      saved := some execution.executionId
      state := some (.value execution.executionState)
      filled := fills execution.executionId (.save execution) }
  | .store (.hardDeleteExecution _),.ok _,m => { m with deleted := true }
  | .store (.findAll _),.ok executions,m => m.listed (blobSizes executions)
  | .store call,.ok _,m => m.committed call
  | .runClient _,.error e,m => if m.saved.isSome=true then { m with clientError := some e } else m
  | call,.error _,m => m.raised (isResolution call)
  | _,.ok _,m => m

section Watching
variable {Command α β : Type} {id : ExecutionId}

/-- A call other than the client's that raised. -/
theorem watchEntry_error {call : Call Command} (h : isClient call=false) (e : PyExc) (m : EntryWatch) :
    watchEntry call (.error e) m=m.raised (isResolution call) := by
  cases call with
  | runClient command => exact nomatch h
  | store call => cases call <;> rfl
  | _ => rfl

/-- Nothing is saved yet. -/
structure Unsaved (m : EntryWatch) : Prop where
  /-- No id was saved. -/
  saved : m.saved=none
  /-- Nothing was filled in. -/
  filled : m.filled=false
  /-- The client did not raise. -/
  clientError : m.clientError=none
  /-- No resolution raised. -/
  unresolved : m.unresolved=false
  /-- Nothing else raised. -/
  disturbed : m.disturbed=false
  /-- Nothing was deleted. -/
  deleted : m.deleted=false

/-- A call that neither saves a row nor hard deletes a key. -/
def isUnsaving : Call Command → Bool
  | .store (.save _) | .store (.hardDeleteExecution _) => false
  | _ => true

/-- A serving call saves nothing. -/
theorem isUnsaving_of_isServing {call : Call Command} (h : isServing call=true) : isUnsaving call=true := by
  cases call with
  | store call => cases call <;> first | rfl | exact nomatch h
  | _ => rfl

/-- A raised error before the save is not the row's. -/
theorem Unsaved.raised {m : EntryWatch} (h : Unsaved m) (resolution : Bool) : m.raised resolution=m := by
  have hnone : m.saved.isSome=false := by simp [h.saved]
  unfold EntryWatch.raised
  rw [hnone,Bool.false_and,Bool.or_false,Bool.or_false]

/-- Before the save no size is the row's. -/
theorem Unsaved.listed {m : EntryWatch} (h : Unsaved m) (sizes : List (BlobKey × Size)) :
    (m.listed sizes).disturbed=false := by
  simp [EntryWatch.listed,h.saved,h.disturbed]

/-- Other calls leave nothing saved. -/
theorem Unsaved.watch {call : Call Command} {m : EntryWatch} (h : Unsaved m) (hcall : isUnsaving call=true)
    (r : Except PyExc call.Ret) : Unsaved (watchEntry call r m) := by
  cases r with
  | error e =>
    by_cases hclient : isClient call=false
    · rw [watchEntry_error hclient,h.raised]
      exact h
    · cases call with
      | runClient command =>
        have hsame : watchEntry (.runClient command : Call Command) (.error e) m=m := by
          simp [watchEntry,h.saved]
        rw [hsame]
        exact h
      | _ => exact absurd rfl hclient
  | ok v =>
    have hcommitted : ∀ call,m.committed call=m := fun call => by simp [EntryWatch.committed,h.saved]
    cases call with
    | newExecutionId => exact ⟨h.saved,h.filled,h.clientError,h.unresolved,h.disturbed,h.deleted⟩
    | store call =>
      cases call with
      | save | hardDeleteExecution => exact nomatch hcall
      | findAll key => exact ⟨h.saved,h.filled,h.clientError,h.unresolved,h.listed _,h.deleted⟩
      | _ =>
        show Unsaved (m.committed _)
        rw [hcommitted]
        exact h
    | _ => exact h

/-- A part that saves nothing. -/
theorem unsaved_of_uses {p : ServiceM Command α} {m : EntryWatch}
    (hp : Uses (fun call => isUnsaving call=true) p) (h : Unsaved m) :
    Follows (monitored watchEntry) (fun _ m' => Unsaved m') p m :=
  Follows.of_uses hp (fun _ r _ hcall hm => hm.watch hcall r) h

/-- The row is saved, its client did not raise, and it is in this state. -/
structure Standing (id : ExecutionId) (state : Column ExecutionState) (m : EntryWatch) : Prop where
  /-- The id was minted. -/
  minted : m.minted=some id
  /-- The id was saved. -/
  saved : m.saved=some id
  /-- Its row is in the state. -/
  state : m.state=some state
  /-- The client did not raise. -/
  clientError : m.clientError=none
  /-- No resolution raised. -/
  unresolved : m.unresolved=false
  /-- Nothing was deleted. -/
  deleted : m.deleted=false

/-- A call that does not resolve, save or delete a row, and is not the client's or the mint's. -/
def isLater : Call Command → Bool
  | .store (.finalizeOutputPersisted _) | .recordEvent _ => true
  | call => isPlain call

/-- A later call leaves the row's state. -/
theorem Standing.watch {state : Column ExecutionState} {call : Call Command} {m : EntryWatch}
    (h : Standing id state m) (hcall : isLater call=true) (r : Except PyExc call.Ret) :
    Standing id state (watchEntry call r m) := by
  cases r with
  | error e =>
    have hclient : isClient call=false := by
      cases call with
      | runClient command => exact nomatch hcall
      | _ => rfl
    have hresolution : isResolution call=false := by
      cases call with
      | store call => cases call <;> first | rfl | exact nomatch hcall
      | _ => rfl
    rw [watchEntry_error hclient,hresolution]
    exact ⟨h.minted,h.saved,h.state,h.clientError,by simp [EntryWatch.raised,h.unresolved],h.deleted⟩
  | ok v =>
    cases call with
    | newExecutionId => exact nomatch hcall
    | store call =>
      have hcommitted : stateAfter id call m.state=m.state → Standing id state (m.committed call) := by
        intro hstate
        rw [EntryWatch.committed_eq h.saved]
        exact ⟨h.minted,h.saved,hstate.trans h.state,h.clientError,h.unresolved,h.deleted⟩
      cases call with
      | save | recordOutcome | removeExecution | hardDeleteExecution => exact nomatch hcall
      | findAll key => exact ⟨h.minted,h.saved,h.state,h.clientError,h.unresolved,h.deleted⟩
      | _ => exact hcommitted rfl
    | _ => exact h

/-- A part of a recording: the row stands as it did, and an error of the part
was raised by a call or by adding a size. -/
def Stood (id : ExecutionId) (state : Column ExecutionState) (r : Except PyExc α) (m : EntryWatch) : Prop :=
  Standing id state m ∧ ∀ e,r=.error e → m.disturbed=true

/-- The part keeps the row standing. -/
abbrev Stands (id : ExecutionId) (state : Column ExecutionState) (p : ServiceM Command α) : Prop :=
  ∀ m,Standing id state m → Follows (monitored watchEntry) (Stood id state) p m

variable {state : Column ExecutionState}

/-- A value is returned. -/
theorem stands_pure (v : α) : Stands id state (pure v : ServiceM Command α) :=
  fun _ h => ⟨h,fun _ he => (nomatch he)⟩

/-- One part after the other. -/
theorem stands_bind {p : ServiceM Command α} {f : α → ServiceM Command β} (hp : Stands id state p)
    (hf : ∀ v,Stands id state (f v)) : Stands id state (p >>= f) := by
  intro m h
  exact Follows.seq (hp m h) (fun v m' hm => hf v m' hm.1) fun e m' hm => ⟨hm.1,fun _ _ => hm.2 e rfl⟩

/-- What a raised error shows. -/
theorem Standing.disturbed {call : Call Command} {m : EntryWatch} (h : Standing id state m)
    (hcall : isLater call=true) (e : PyExc) : (watchEntry call (.error e) m).disturbed=true := by
  have hclient : isClient call=false := by
    cases call with
    | runClient command => exact nomatch hcall
    | _ => rfl
  rw [watchEntry_error hclient]
  simp [EntryWatch.raised,h.saved]

/-- One later call. -/
theorem stands_ask {call : Call Command} (hcall : isLater call=true) : Stands id state (ask call) := by
  intro m h
  refine Follows.watch_perform fun r => ⟨h.watch hcall r,fun e he => ?_⟩
  subst he
  exact h.disturbed hcall e

/-- What is disturbed stays so. -/
theorem disturbed_watch {call : Call Command} {m : EntryWatch} (h : m.disturbed=true)
    (hcall : isLater call=true) (r : Except PyExc call.Ret) : (watchEntry call r m).disturbed=true := by
  cases r with
  | error e =>
    have hclient : isClient call=false := by
      cases call with
      | runClient command => exact nomatch hcall
      | _ => rfl
    rw [watchEntry_error hclient]
    simp [EntryWatch.raised,h]
  | ok v =>
    cases call with
    | store call =>
      have hcommitted : (m.committed call).disturbed=true := by
        unfold EntryWatch.committed
        split <;> exact h
      cases call with
      | save | recordOutcome | removeExecution | hardDeleteExecution => exact nomatch hcall
      | findAll key =>
        show (m.disturbed || _)=true
        rw [h]
        rfl
      | _ => exact hcommitted
    | newExecutionId => exact nomatch hcall
    | _ => exact h

/-- Later calls whose errors nothing catches. -/
theorem stands_straight {p : ServiceM Command α}
    (hp : Straight (fun call => isLater call=true) (fun call => isLater call=true) (fun _ => False) p) :
    Stands id state p := by
  intro m h
  refine (Follows.of_straight (G := Standing id state)
    (B := fun _ m => Standing id state m ∧ m.disturbed=true) hp ?_ ?_ ?_ ?_ ?_ h).weaken ?_
  · exact fun call v m hcall hm => hm.watch hcall (.ok v)
  · exact fun call e m hcall hm => ⟨hm.watch hcall (.error e),hm.disturbed hcall e⟩
  · exact fun call v e m hcall hm => ⟨hm.1.watch hcall (.ok v),disturbed_watch hm.2 hcall (.ok v)⟩
  · exact fun call e e' m hcall hm => ⟨hm.1.watch hcall (.error e'),hm.1.disturbed hcall e'⟩
  · exact fun e m hown _ => hown.elim
  · rintro r m (⟨v,rfl,hm⟩ | ⟨e,rfl,hm⟩)
    · exact ⟨hm,fun _ he => (nomatch he)⟩
    · exact ⟨hm.1,fun _ _ => hm.2⟩

/-- Every plain call is a later call. -/
theorem isLater_of_isPlain {call : Call Command} (h : isPlain call=true) : isLater call=true := by
  cases call with
  | store call => cases call <;> first | exact h | rfl
  | recordEvent entry => rfl
  | _ => exact h

/-- A direct program keeps the row standing. -/
theorem stands_direct {p : ServiceM Command α} (h : Direct p) : Stands id state p := by
  refine stands_straight ?_
  have hlater : ∀ {q : ServiceM Command α},Direct q →
      Straight (fun call => isLater call=true) (fun call => isRelease call=true) (fun _ => False) q :=
    fun hq => hq.mono (fun _ hc => isLater_of_isPlain hc.1) fun _ he => he
  exact (hlater h).monoCleanup fun _ hr => isLater_of_isPlain (plain_of_isRelease hr).1

/-- Once disturbed, any later calls keep the row standing. -/
theorem stood_of_uses {p : ServiceM Command α} (hp : Uses (fun call => isLater call=true) p) {m : EntryWatch}
    (h : Standing id state m) (hdisturbed : m.disturbed=true) :
    Follows (monitored watchEntry) (Stood id state) p m :=
  (Follows.of_uses (I := fun m => Standing id state m ∧ m.disturbed=true) hp
    (fun _ r _ hcall hm => ⟨hm.1.watch hcall r,disturbed_watch hm.2 hcall r⟩) ⟨h,hdisturbed⟩).weaken
    fun _ _ hm => ⟨hm.1,fun _ _ => hm.2⟩

/-- A body with a cleanup of one later call keeps the row standing. -/
theorem stands_ensure {body : ServiceM Command α} {cleanup : ServiceM Command Unit} (h : Stands id state body)
    (hclean : Uses (fun call => isLater call=true) cleanup) (hraise : Stands id state cleanup) :
    Stands id state (ensure body cleanup) := by
  intro m hm
  refine Follows.ensure ((h m hm).weaken fun r m' hbody => ?_)
  cases r with
  | ok v =>
    refine (hraise m' hbody.1).weaken fun c m'' hc => ?_
    cases c with
    | ok u => exact ⟨hc.1,fun _ he => (by cases he)⟩
    | error e => exact ⟨hc.1,fun _ _ => hc.2 e rfl⟩
  | error e =>
    have hlater : Follows (monitored watchEntry) (fun _ m' => Standing id state m' ∧ m'.disturbed=true) cleanup m' :=
      Follows.of_uses (I := fun m => Standing id state m ∧ m.disturbed=true) hclean
        (fun _ r _ hcall hm => ⟨hm.1.watch hcall r,disturbed_watch hm.2 hcall r⟩) ⟨hbody.1,hbody.2 e rfl⟩
    refine hlater.weaken fun c m'' hc => ?_
    cases c <;> exact ⟨hc.1,fun _ _ => hc.2⟩

/-- One key of an eviction keeps the row standing: what it listed tells whether its sizes end it. -/
theorem stands_purgeKey (key : ExecutionKey) :
    Stands id state (purgeKey softDrop key : ServiceM Command (ℕ × ℕ)) := by
  refine stands_bind (stands_ask rfl) fun _ => stands_ensure ?_ (Uses.perform rfl) (stands_ask rfl)
  intro m h
  refine Follows.bind (Follows.watch_bind (fun executions => ?_) fun e => ?_)
  · have hlisted : Standing id state (watchEntry (.store (.findAll key) : Call Command) (.ok executions) m) :=
      h.watch rfl (.ok executions)
    cases hsizes : addable (blobSizes executions) with
    | true =>
      have hremove : Stands id state (removeEach (blobSizes executions) : ServiceM Command ℕ) :=
        stands_direct (silent_removeEach hsizes).direct
      exact stands_bind (stands_ask rfl) (fun _ => stands_bind hremove fun _ => stands_pure _) _ hlisted
    | false =>
      refine stood_of_uses ?_ hlisted ?_
      · exact Uses.bind (Uses.perform rfl) fun _ => Uses.bind ((untagged_of_straight (adding_removeEach _)).mono
          fun _ hc => isLater_of_isPlain (isPlain_of_isUntagged hc)) fun _ => Uses.pure _
      · show (m.disturbed || (m.saved.isSome && !addable (blobSizes executions)))=true
        rw [hsizes,h.saved]
        simp
  · exact ⟨h.watch rfl (.error e),fun _ _ => h.disturbed rfl e⟩

/-- The eviction after a recording keeps the row standing. -/
theorem stands_afterRecord (service : CachedMlExecutionService Command) : Stands id state (afterRecord service) :=
  afterRecord_of (S := fun _ p => Stands id state p) (fun _ _ => stands_pure _)
    (fun _ _ _ _ hp hf => stands_bind hp hf) stands_purgeKey
    (fun _ h _ => stands_ask (isLater_of_isPlain (isPlain_of_isUntagged h.1))) service

/-- An attempted later call hands over an error that a call raised. -/
theorem stands_attempt {call : Call Command} (hcall : isLater call=true) {m : EntryWatch}
    (h : Standing id state m) :
    Follows (monitored watchEntry) (fun r m' => ∃ outcome,r=.ok outcome ∧ Standing id state m' ∧
      ∀ e,outcome=.error e → m'.disturbed=true) (attempt (ask call)) m := by
  refine Follows.attempt (Follows.watch_perform fun r => ⟨r,rfl,h.watch hcall r,fun e he => ?_⟩)
  subst he
  exact h.disturbed hcall e

/-- Storing one blob keeps the row standing. -/
theorem stands_storeBlob (executionId : ExecutionId) (artifact : Artifact) :
    Stands id state (storeBlob executionId artifact : ServiceM Command Artifact) := by
  intro m h
  refine Follows.seq (stands_attempt rfl h) (fun put m hm => ?_) fun e m hm => ?_
  · obtain ⟨outcome,heq,hstanding,hdisturbed⟩ := hm
    cases heq
    cases put with
    | error e =>
      refine Follows.ite (fun _ => ?_) fun _ => ⟨hstanding,fun _ _ => hdisturbed e rfl⟩
      exact stands_bind (stands_ask rfl) (fun _ => stands_pure _) m hstanding
    | ok _ =>
      refine Follows.seq (stands_attempt rfl hstanding) (fun marked m hm => ?_) fun e m hm => ?_
      · obtain ⟨outcome,heq,hstanding,hdisturbed⟩ := hm
        cases heq
        cases marked with
        | error e =>
          exact Follows.ite (fun _ => stands_pure _ m hstanding)
            fun _ => ⟨hstanding,fun _ _ => hdisturbed e rfl⟩
        | ok _ => exact stands_pure _ m hstanding
      · obtain ⟨_,heq,_⟩ := hm
        cases heq
  · obtain ⟨_,heq,_⟩ := hm
    cases heq

/-- The document loop keeps the row standing. -/
theorem stands_persistDocuments (executionId : ExecutionId) (artifacts : List Artifact) :
    Stands id state (persistDocuments executionId artifacts : ServiceM Command (List Artifact × Bool)) := by
  induction artifacts with
  | nil => exact stands_pure _
  | cons artifact rest ih =>
    refine stands_bind (stands_ask rfl) fun _ => ?_
    refine stands_bind (stands_storeBlob executionId artifact) fun _ => ?_
    exact stands_bind ih fun _ => stands_pure _

/-- The shared store lock keeps the row standing. -/
theorem stands_withContentWriteLock {body : ServiceM Command α} (h : Stands id state body) :
    Stands id state (withContentWriteLock body) := by
  refine stands_bind (stands_ask rfl) fun _ m hm => ?_
  refine Follows.ensure ((h m hm).weaken fun r m' hr => Follows.watch_perform fun released => ?_)
  cases released with
  | ok u => exact hr
  | error e => exact ⟨hr.1.watch rfl (.error e),fun _ _ => hr.1.disturbed rfl e⟩

end Watching

section Flow
variable {Command : Type} {service : CachedMlExecutionService Command} {fingerprint : Bytes → Digest}
  {command : Command} {id : ExecutionId}

/-- What an execute leaves of the row it saved: the row is in progress only if
its client raised what is not an exception, and it is bare where the client
raised or the execute did so by itself. -/
structure Left {α : Type} (r : Except PyExc α) (m : EntryWatch) : Prop where
  /-- Nothing was deleted. -/
  deleted : m.deleted=false
  /-- The saved id is the minted one. -/
  minted : ∀ id,m.saved=some id → m.minted=some id
  /-- What is not saved is not filled in. -/
  unsaved : m.saved=none → m.filled=false
  /-- Only an error that is no exception leaves the row in progress. -/
  resolved : m.saved≠none → m.unresolved=false →
    (m.state=some (.value .inProgress) ↔ ∃ e,m.clientError=some e ∧ e.isException=false)
  /-- It is bare where the client raised. -/
  clientRaised : ∀ e,m.clientError=some e → m.filled=false
  /-- It is bare where the execute raised by itself. -/
  raised : ∀ e,r=.error e → m.disturbed=false → m.filled=false

/-- Nothing is left where nothing was saved. -/
theorem Unsaved.left {α : Type} {m : EntryWatch} (h : Unsaved m) (r : Except PyExc α) : Left r m where
  deleted := h.deleted
  minted id hid := by
    rw [h.saved] at hid
    cases hid
  unsaved _ := h.filled
  resolved hs := absurd h.saved hs
  clientRaised _ _ := h.filled
  raised _ _ _ := h.filled

/-- A row that stands resolved is left so. -/
theorem Standing.left {α : Type} {s : ExecutionState} {r : Except PyExc α} {m : EntryWatch}
    (h : Standing id (.value s) m) (hs : s≠.inProgress)
    (hraised : ∀ e,r=.error e → m.disturbed=false → m.filled=false) : Left r m where
  deleted := h.deleted
  minted id' hid := by
    rw [h.saved] at hid
    rw [h.minted,hid]
  unsaved hn := by
    rw [h.saved] at hn
    cases hn
  resolved _ _ := by
    rw [h.state,h.clientError]
    constructor
    · intro he
      exact absurd (Column.value.inj (Option.some.inj he)) hs
    · rintro ⟨e,he,_⟩
      cases he
  clientRaised e he := by
    rw [h.clientError] at he
    cases he
  raised := hraised

/-- A recording whose errors were all raised by calls leaves its row resolved. -/
theorem Stood.left {α : Type} {s : ExecutionState} {r : Except PyExc α} {m : EntryWatch}
    (h : Stood id (.value s) r m) (hs : s≠.inProgress) : Left r m :=
  h.1.left hs fun e he hd => by rw [h.2 e he] at hd; cases hd

/-- A result is no run in progress. -/
theorem outcome_ne (result : ClientRunResult) : result.outcome≠.inProgress := by
  unfold ClientRunResult.outcome
  split <;> decide

/-- A row just saved, or whose client has just returned. -/
def Saved (id : ExecutionId) (m : EntryWatch) : Prop :=
  Standing id (.value .inProgress) m ∧ m.filled=false

/-- The outcome is recorded, or the run is left unresolved. -/
theorem follows_recordOutcome {α : Type} {execution : MlExecution} {f : Unit → ServiceM Command α}
    {m : EntryWatch} (h : Saved id m) (hid : execution.executionId=id)
    (hf : ∀ m',Standing id (.value execution.executionState) m' → m'.filled=false →
      Follows (monitored watchEntry) Left (f ()) m') :
    Follows (monitored watchEntry) Left (store (.recordOutcome execution) >>= f) m := by
  obtain ⟨hstanding,hfilled⟩ := h
  refine Follows.watch_bind (fun _ => ?_) fun e => ?_
  · refine hf _ ?_ ?_
    · show Standing id _ (m.committed _)
      rw [EntryWatch.committed_eq hstanding.saved]
      have hstate : stateAfter id (.recordOutcome execution) m.state=
          some (.value execution.executionState) := if_pos hid
      exact ⟨hstanding.minted,hstanding.saved,hstate,hstanding.clientError,hstanding.unresolved,
        hstanding.deleted⟩
    · show (m.committed _).filled=false
      rw [EntryWatch.committed_eq hstanding.saved]
      simp [hfilled,fills]
  · have hunresolved : (m.raised true).unresolved=true := by simp [EntryWatch.raised,hstanding.saved]
    exact {
      deleted := hstanding.deleted
      minted := fun id' hid' => hstanding.minted.trans (hstanding.saved.symm.trans hid')
      unsaved := fun _ => hfilled
      resolved := fun _ hu => by
        rw [show (watchEntry (.store (.recordOutcome execution) : Call Command) (.error e) m).unresolved=
          true from hunresolved] at hu
        cases hu
      clientRaised := fun _ _ => hfilled
      raised := fun _ _ _ => hfilled }

/-- A part of a recording, and the rest of it. -/
theorem Stands.seq {α β : Type} {s : ExecutionState} {p : ServiceM Command α} {f : α → ServiceM Command β}
    (hp : Stands id (.value s) p) (hs : s≠.inProgress) {m : EntryWatch} (h : Standing id (.value s) m)
    (hf : ∀ v m',Standing id (.value s) m' → Follows (monitored watchEntry) Left (f v) m') :
    Follows (monitored watchEntry) Left (p >>= f) m :=
  Follows.seq (hp m h) (fun v m' hm => hf v m' hm.1) fun _ _ hm =>
    hm.1.left hs fun _ _ hd => by rw [hm.2 _ rfl] at hd; cases hd

/-- A recorded run that keeps no output. -/
theorem follows_recordUnstored {key : ExecutionKey} {inProgress : MlExecution} {result : ClientRunResult}
    {m : EntryWatch} (h : Saved id m) (hid : inProgress.executionId=id) :
    Follows (monitored watchEntry) Left
      (recordUnstored service fingerprint key command inProgress result) m := by
  refine follows_recordOutcome h hid fun m' hstanding hfilled => ?_
  have hne := outcome_ne result
  refine Follows.watch_bind (fun _ => ?_) fun e => ?_
  · -- a text that does not encode raises by itself, and nothing was attached
    cases buildArtifacts fingerprint (withOutcome inProgress result).executionId result .stored with
    | error e => exact hstanding.left hne fun _ _ _ => hfilled
    | ok artifacts => exact hstanding.left hne fun _ he => (nomatch he)
  · exact (hstanding.watch rfl (.error e)).left hne fun _ _ _ => hfilled

/-- The end of a recording keeps the row standing. -/
theorem stands_concludeRecording {state : Column ExecutionState} (key : ExecutionKey)
    (executionId : ExecutionId) (allStored : Bool) :
    Stands id state (concludeRecording service key command executionId allStored) := by
  unfold concludeRecording
  cases allStored with
  | true =>
    refine stands_bind (stands_ask rfl) fun _ => ?_
    refine stands_bind (stands_ask rfl) fun _ => ?_
    refine stands_bind (stands_direct (direct_applyTags service key command)) fun _ => ?_
    exact stands_afterRecord service
  | false => exact stands_ask rfl

/-- A recorded run that keeps its output. -/
theorem follows_recordStored {key : ExecutionKey} {inProgress : MlExecution} {result : ClientRunResult}
    {m : EntryWatch} (h : Saved id m) (hid : inProgress.executionId=id) :
    Follows (monitored watchEntry) Left
      (recordStored service fingerprint key command inProgress result) m := by
  refine follows_recordOutcome h hid fun m' hstanding hfilled => ?_
  have hne := outcome_ne result
  cases buildArtifacts fingerprint (withOutcome inProgress result).executionId result .pending with
  | error e => exact hstanding.left hne fun _ _ _ => hfilled
  | ok outputs =>
    cases recordedInput service fingerprint (withOutcome inProgress result).executionId command with
    | error e => exact hstanding.left hne fun _ _ _ => hfilled
    | ok inputs =>
      have hdocuments : Stands id (.value result.outcome) (withContentWriteLock (persistDocuments
          (withOutcome inProgress result).executionId (outputs ++ inputs)) :
          ServiceM Command (List Artifact × Bool)) :=
        stands_withContentWriteLock (stands_persistDocuments _ _)
      refine Stands.seq hdocuments hne hstanding fun stored m₁ hstanding₁ => ?_
      obtain ⟨resolved,allStored⟩ := stored
      refine Stands.seq (stands_concludeRecording _ _ _) hne hstanding₁ fun _ m₂ hstanding₂ => ?_
      exact hstanding₂.left hne fun _ he => (nomatch he)

/-- What the client's call of a recording leaves. -/
def ClientLeft (id : ExecutionId) (r : Except PyExc ClientRunResult) (m : EntryWatch) : Prop :=
  match r with
  | .ok _ => Saved id m
  | .error e => Left (.error e : Except PyExc MlExecution) m

/-- The row of a run whose client raised. -/
structure Raised (id : ExecutionId) (e : PyExc) (m : EntryWatch) : Prop where
  /-- The id was minted. -/
  minted : m.minted=some id
  /-- The id was saved. -/
  saved : m.saved=some id
  /-- Its row is in progress. -/
  state : m.state=some (.value .inProgress)
  /-- Nothing was filled in. -/
  filled : m.filled=false
  /-- The client raised. -/
  clientError : m.clientError=some e
  /-- Nothing was deleted. -/
  deleted : m.deleted=false

/-- The row is left as the watch has it, when it is in progress only for what is
not an exception. -/
theorem Raised.left {α : Type} {e : PyExc} {m m' : EntryWatch} (h : Raised id e m) (r : Except PyExc α)
    (hminted : m'.minted=m.minted) (hsaved : m'.saved=m.saved) (hfilled : m'.filled=m.filled)
    (hclient : m'.clientError=m.clientError) (hdeleted : m'.deleted=m.deleted)
    (hresolved : m'.unresolved=false →
      (m'.state=some (.value .inProgress) ↔ e.isException=false)) : Left r m' where
  deleted := hdeleted.trans h.deleted
  minted id' hid := by
    rw [hsaved,h.saved] at hid
    rw [hminted,h.minted,hid]
  unsaved _ := hfilled.trans h.filled
  resolved _ hu := by
    rw [hresolved hu,hclient,h.clientError]
    constructor
    · exact fun he => ⟨e,rfl,he⟩
    · rintro ⟨e',heq,he'⟩
      cases heq
      exact he'
  clientRaised _ _ := hfilled.trans h.filled
  raised _ _ _ := hfilled.trans h.filled

/-- A resolution of the row of a run whose client raised. -/
theorem Raised.resolve {e : PyExc} {m : EntryWatch} {call : StoreCall} {state : Option (Column ExecutionState)}
    (h : Raised id e m) (hexception : e.isException=true)
    (hresolution : isResolution (.store call : Call Command)=true)
    (hstate : stateAfter id call (some (.value .inProgress))=state)
    (hne : state≠some (.value .inProgress)) (a : call.Ret) :
    ClientLeft id (.error e) (watchEntry (.store call : Call Command) (.ok a) m) ∧
      ∀ e',ClientLeft id (.error e') (watchEntry (.store call : Call Command) (.error e') m) := by
  have hfills : fills id call=false := by
    cases call <;> first | rfl | exact nomatch hresolution
  have hok : watchEntry (.store call : Call Command) (.ok a) m=
      { m with state := stateAfter id call m.state, filled := m.filled || fills id call } := by
    rw [← EntryWatch.committed_eq h.saved]
    cases call <;> first | rfl | exact nomatch hresolution
  constructor
  · rw [hok]
    refine h.left _ rfl rfl ?_ rfl rfl fun _ => ?_
    · simp [hfills]
    · show stateAfter id call m.state=_ ↔ _
      rw [h.state,hstate]
      simp [hne,hexception]
  · intro e'
    rw [watchEntry_error rfl,hresolution]
    refine h.left _ rfl rfl rfl rfl rfl fun hu => ?_
    simp [EntryWatch.raised,h.saved] at hu

/-- The recorded client. -/
theorem follows_runRecordedClient {inProgress : MlExecution} {m : EntryWatch} (h : Saved id m)
    (hid : inProgress.executionId=id) :
    Follows (monitored watchEntry) (ClientLeft id) (runRecordedClient command inProgress) m := by
  have hclient : Follows (monitored watchEntry) (fun r m' => m'=watchEntry (.runClient command) r m)
      (ask (.runClient command) : ServiceM Command ClientRunResult) m := Follows.watch_perform fun _ => rfl
  refine Follows.attempt_seq hclient fun r m' hm => ?_
  subst hm
  cases r with
  | ok result => exact h
  | error e =>
    have hwatch : watchEntry (.runClient command : Call Command) (.error e) m={ m with clientError := some e } := by
      simp [watchEntry,h.1.saved]
    rw [hwatch]
    have hraised : Raised id e { m with clientError := some e } :=
      ⟨h.1.minted,h.1.saved,h.1.state,h.2,rfl,h.1.deleted⟩
    refine Follows.ite (fun hinterrupt => ?_) fun _ => Follows.ite (fun hexception => ?_) fun hbase => ?_
    · have hexception : e.isException=true := by
        cases e <;> first | rfl | exact nomatch hinterrupt
      have hstate : stateAfter id (.removeExecution inProgress.executionId)
          (some (.value .inProgress))=none := if_pos hid
      exact Follows.watch_bind (fun _ => (hraised.resolve hexception rfl hstate nofun ()).1)
        fun e' => (hraised.resolve hexception rfl hstate nofun ()).2 e'
    · have hstate : stateAfter id (.recordOutcome { inProgress with
          executionState := .failed
          failure := some { reason := .clientError, message := e.str } })
          (some (.value .inProgress))=some (.value .failed) := if_pos hid
      exact Follows.watch_bind (fun _ => (hraised.resolve hexception rfl hstate (by simp) ()).1)
        fun e' => (hraised.resolve hexception rfl hstate (by simp) ()).2 e'
    · refine hraised.left _ rfl rfl rfl rfl rfl fun _ => ?_
      simp [hbase,h.1.state]

/-- A part that saves nothing, and the rest. -/
theorem follows_unsaved {α β : Type} {p : ServiceM Command α} {f : α → ServiceM Command β} {m : EntryWatch}
    (hp : Uses (fun call => isUnsaving call=true) p) (h : Unsaved m)
    (hf : ∀ v m',Unsaved m' → Follows (monitored watchEntry) Left (f v) m') :
    Follows (monitored watchEntry) Left (p >>= f) m :=
  Follows.seq (unsaved_of_uses hp h) hf fun _ _ hm => hm.left _

/-- A direct program saves nothing. -/
theorem unsaving_of_direct {α : Type} {p : ServiceM Command α} (h : Direct p) :
    Uses (fun call => isUnsaving call=true) p :=
  h.plain.mono fun _ hc => isUnsaving_of_isServing (isServing_of_isRemoval (isRemoval_of_isPlain hc))

/-- A fresh run past its re-check. -/
theorem follows_runAndRecord (identity : CallIdentity) {m : EntryWatch} (h : Unsaved m) :
    Follows (monitored watchEntry) Left (runAndRecord service fingerprint identity command) m := by
  refine follows_unsaved (unsaving_of_direct (direct_blobHealthGate service command)) h fun healthy m h => ?_
  refine Follows.ite (fun _ => ?_) fun _ => h.left _
  refine Follows.watch_bind (fun executionId => ?_) fun e => ?_
  · have hminted : Unsaved (watchEntry (.newExecutionId : Call Command) (.ok executionId) m) :=
      h.watch rfl (.ok executionId)
    refine Follows.watch_bind (fun _ => ?_) fun e => ?_
    · have hsaved : Saved executionId (watchEntry (.store (.save
          (inProgressExecution service identity executionId command)) : Call Command) (.ok ())
          (watchEntry (.newExecutionId : Call Command) (.ok executionId) m)) :=
        ⟨⟨rfl,rfl,rfl,h.clientError,h.unresolved,h.deleted⟩,by simp [watchEntry,fills,inProgressExecution]⟩
      refine Follows.seq (follows_runRecordedClient hsaved rfl) (fun result m' hm => ?_) fun e m' hm => hm
      exact Follows.ite (fun _ => follows_recordStored hm rfl) fun _ => follows_recordUnstored hm rfl
    · rw [watchEntry_error rfl,hminted.raised]
      exact hminted.left _
  · rw [watchEntry_error rfl,h.raised]
    exact h.left _

/-- A key lock around a run. -/
theorem follows_withKeyLock (key : ExecutionKey) {body : ServiceM Command MlExecution}
    (hbody : ∀ m,Unsaved m → Follows (monitored watchEntry) Left body m) {m : EntryWatch} (h : Unsaved m) :
    Follows (monitored watchEntry) Left (withKeyLock key body) m := by
  refine follows_unsaved (Uses.perform rfl) h fun _ m h => ?_
  refine Follows.ensure ((hbody m h).weaken fun r m' hr => Follows.watch_perform fun released => ?_)
  cases released with
  | ok u => exact hr
  | error e =>
    rw [watchEntry_error rfl]
    exact {
      deleted := hr.deleted
      minted := hr.minted
      unsaved := hr.unsaved
      resolved := fun hs hu => by
        have hunresolved : m'.unresolved=false := by
          simpa [EntryWatch.raised,isResolution] using hu
        exact hr.resolved hs hunresolved
      clientRaised := hr.clientRaised
      raised := fun _ _ hd => by
        cases hsaved : m'.saved with
        | none => exact hr.unsaved hsaved
        | some id => simp [EntryWatch.raised,hsaved] at hd }

/-- A fresh run. -/
theorem follows_runFreshLocked (identity : CallIdentity) {m : EntryWatch} (h : Unsaved m) :
    Follows (monitored watchEntry) Left (runFreshLocked service fingerprint identity command) m := by
  refine follows_withKeyLock _ (fun m h => ?_) h
  refine Follows.ite (fun _ => ?_) fun _ => follows_runAndRecord identity h
  have hserve := serving_serveCurrentIfHealthy service fingerprint identity.generateKey command
  refine follows_unsaved (hserve.mono fun _ hc => isUnsaving_of_isServing hc) h fun served m h => ?_
  cases served with
  | some served => exact h.left _
  | none => exact follows_runAndRecord identity h

/-- A METER run saves nothing. -/
theorem unsaving_runMetered (identity : CallIdentity) :
    Uses (fun call => isUnsaving call=true) (runMetered service fingerprint identity command) :=
  Uses.bind (Uses.perform rfl) fun _ => Uses.bind (Uses.perform rfl) fun _ =>
    Uses.bind (Uses.perform rfl) fun _ => Uses.bind (Uses.ofExcept _) fun _ =>
      Uses.bind (Uses.perform rfl) fun _ => Uses.pure _

/-- A run of an uncacheable command saves nothing. -/
theorem unsaving_runUncacheable (identity : CallIdentity) :
    Uses (fun call => isUnsaving call=true) (runUncacheable service fingerprint identity command) :=
  Uses.ite (fun _ => Uses.bind (Uses.perform rfl) fun _ => Uses.raise _) fun _ =>
    Uses.bind (Uses.perform rfl) fun _ => Uses.bind (Uses.perform rfl) fun _ =>
      Uses.bind (Uses.ofExcept _) fun _ => Uses.bind (Uses.perform rfl) fun _ => Uses.pure _

/-- A cacheable run. -/
theorem follows_executeCacheable (identity : CallIdentity) {m : EntryWatch} (h : Unsaved m) :
    Follows (monitored watchEntry) Left (executeCacheable service fingerprint identity command) m := by
  have hmetered : Follows (monitored watchEntry) Left (runMetered service fingerprint identity command) m :=
    (unsaved_of_uses (unsaving_runMetered identity) h).weaken fun _ _ hm => hm.left _
  unfold executeCacheable
  cases service.cacheMode command with
  | offline =>
    have hserve := serving_serveOffline service fingerprint identity.generateKey command
    exact (unsaved_of_uses (hserve.mono fun _ hc => isUnsaving_of_isServing hc) h).weaken
      fun _ _ hm => hm.left _
  | cache =>
    refine Follows.ite (fun _ => ?_) fun _ => hmetered
    have hserve := serving_serveCurrentIfHealthy service fingerprint identity.generateKey command
    refine follows_unsaved (hserve.mono fun _ hc => isUnsaving_of_isServing hc) h fun served m h => ?_
    cases served with
    | some served => exact h.left _
    | none => exact follows_runFreshLocked identity h
  | refresh => exact Follows.ite (fun _ => follows_runFreshLocked identity h) fun _ => hmetered

/-- Every execute. -/
theorem follows_execute : Follows (monitored watchEntry) Left (execute service fingerprint command)
    EntryWatch.blank := by
  have hblank : Unsaved EntryWatch.blank := ⟨rfl,rfl,rfl,rfl,rfl,rfl⟩
  refine follows_unsaved (Uses.ofExcept _) hblank fun identity m h => ?_
  refine Follows.ite (fun _ => ?_) fun _ => ?_
  · exact (unsaved_of_uses (unsaving_runUncacheable identity) h).weaken fun _ _ hm => hm.left _
  · refine follows_unsaved (unsaving_of_direct (direct_tokenGate service command)) h fun _ m h => ?_
    exact follows_executeCacheable identity h

end Flow

section Runs
variable {Command : Type} {locks : LockMode} {faults : Faults Command} {thread : ThreadId}

/-- The watch is right about the store. -/
structure Tracks (s : World × EntryWatch) : Prop where
  /-- The id it takes for minted is. -/
  minted : ∀ id,s.2.minted=some id → id∈s.1.minted
  /-- The row has the state that the watch says. -/
  state : s.2.deleted=false → ∀ id,s.2.saved=some id → stateOf s.1.db id=s.2.state
  /-- The row is bare where the watch says so. -/
  bare : s.2.filled=false → ∀ id,s.2.saved=some id → Bare id s.1.db

/-- A raised error tells nothing about the store. -/
theorem Tracks.error {w : World} {m : EntryWatch} (h : Tracks (w,m)) (call : Call Command) (e : PyExc) :
    Tracks (w,watchEntry call (.error e) m) := by
  by_cases hclient : isClient call=false
  · rw [watchEntry_error hclient]
    exact ⟨h.minted,h.state,h.bare⟩
  · cases call with
    | runClient command =>
      by_cases hsaved : m.saved.isSome=true
      · rw [show watchEntry (.runClient command : Call Command) (.error e) m={ m with clientError := some e } by
          simp [watchEntry,hsaved]]
        exact ⟨h.minted,h.state,h.bare⟩
      · rw [show watchEntry (.runClient command : Call Command) (.error e) m=m by simp [watchEntry,hsaved]]
        exact h
    | _ => exact absurd rfl hclient

/-- A commit is tracked. -/
theorem Tracks.committed {w : World} {m : EntryWatch} {now : Timestamp} {call : StoreCall} {a : call.Ret}
    {db : Db} (h : Tracks (w,m)) (hhard : ∀ key,call≠.hardDeleteExecution key)
    (ht : transact now w.db call=.ok (a,db)) : Tracks ({ w with db := db },m.committed call) := by
  cases hsaved : m.saved with
  | none =>
    have hsame : m.committed call=m := by simp [EntryWatch.committed,hsaved]
    rw [hsame]
    refine ⟨h.minted,fun _ id hid => ?_,fun _ id hid => ?_⟩
    · rw [show m.saved=some id from hid] at hsaved
      cases hsaved
    · rw [show m.saved=some id from hid] at hsaved
      cases hsaved
  | some id =>
    rw [EntryWatch.committed_eq hsaved]
    refine ⟨h.minted,fun hdeleted id' hid => ?_,fun hfilled id' hid => ?_⟩
    · cases hsaved.symm.trans hid
      exact (transact_stateOf hhard ht).trans (congrArg (stateAfter id call) (h.state hdeleted id hsaved))
    · cases hsaved.symm.trans hid
      obtain ⟨hbefore,hcall⟩ := Bool.or_eq_false_iff.mp hfilled
      exact transact_bare (h.bare hbefore id hsaved) hcall ht

/-- Every answer is tracked. -/
theorem tracks_step (call : Call Command) (s : World × EntryWatch) (r : Except PyExc call.Ret)
    (s' : World × EntryWatch) (h : observed (Answers locks faults thread) watchEntry call s r s')
    (hs : Tracks s) : Tracks s' := by
  obtain ⟨w,m⟩ := s
  obtain ⟨w',m'⟩ := s'
  obtain ⟨hanswer,rfl⟩ := h
  cases hanswer with
  | fault => exact hs.error _ _
  | reject => exact hs.error _ _
  | runClient result =>
    cases result with
    | ok result => exact hs
    | error e => exact hs.error _ _
  | newExecutionId id hnew =>
    refine ⟨fun id' hid => ?_,hs.state,hs.bare⟩
    cases hid
    exact List.mem_cons_self
  | @commit w call a db now ht =>
    cases call with
    | save execution =>
      have hstate : stateOf db execution.executionId=some (.value execution.executionState) :=
        (stateOf_save (commit_ok.mp ht)).trans (if_pos rfl)
      obtain ⟨_,hnew,_⟩ := save_ok (commit_ok.mp ht)
      have hbefore : Bare execution.executionId w.db := fun row hrow hid => absurd hid (hnew row hrow)
      refine ⟨hs.minted,fun _ id hid => ?_,fun hfilled id hid => ?_⟩
      · cases hid
        exact hstate
      · cases hid
        have hcall : fills execution.executionId (.save execution)=false := hfilled
        exact transact_bare hbefore hcall ht
    | hardDeleteExecution key =>
      exact ⟨hs.minted,fun hdeleted => (nomatch hdeleted),fun hfilled id hid =>
        transact_bare (hs.bare hfilled id hid) rfl ht⟩
    | findAll key =>
      obtain ⟨_,rfl⟩ := reading_ok.mp ht
      exact ⟨hs.minted,hs.state,hs.bare⟩
    | _ => exact hs.committed (fun _ => nofun) ht
  | _ => exact ⟨hs.minted,hs.state,hs.bare⟩

/-- The run was stopped, or raised: its client did, or the execute did by itself
after it, with no text among the sizes that an eviction lists. -/
def StoppedOrRaised {α : Type} (r : Except PyExc α) (m : EntryWatch) : Prop :=
  (∃ e,m.clientError=some e) ∨ (m.disturbed=false ∧ ∃ e,r=.error e)

/-- An execute that ended, whose resolution of its row did not raise, leaves no
row in progress, and where the run was stopped or raised none that is or becomes
servable, if and only if its client raised nothing but exceptions. -/
theorem entry_resolved_iff (service : CachedMlExecutionService Command) (fingerprint : Bytes → Digest)
    {command : Command} {w : World} {r : Except PyExc MlExecution} {s' : World × EntryWatch}
    (hend : Ends (observed (Answers locks faults thread) watchEntry)
      (execute service fingerprint command) (w,EntryWatch.blank) r s')
    (hresolved : s'.2.unresolved=false) {id : ExecutionId} (hsaved : s'.2.saved=some id) :
    ((∀ row∈s'.1.db.executions,row.executionId=id → row.state≠.value .inProgress) ∧
      (StoppedOrRaised r s'.2 → NeverServable Command fingerprint s'.1 id)) ↔
      ∀ e,s'.2.clientError=some e → e.isException=true := by
  have hfollows : Follows (monitored watchEntry) Left (execute service fingerprint command)
      EntryWatch.blank := follows_execute
  have hleft : Left r s'.2 := hfollows.watched hend
  have htracks : Tracks s' := by
    refine hend.invariant (fun call s r s' h hs => tracks_step call s r s' h hs) ⟨?_,?_,?_⟩
    · exact fun _ hid => nomatch hid
    · exact fun _ _ hid => nomatch hid
    · exact fun _ _ hid => nomatch hid
  have hstate : stateOf s'.1.db id=s'.2.state := htracks.state hleft.deleted id hsaved
  have hiff := hleft.resolved (by rw [hsaved]; exact Option.some_ne_none id) hresolved
  constructor
  · rintro ⟨hnone,_⟩ e he
    by_contra hbase
    have hprogress := hiff.mpr ⟨e,he,by simpa using hbase⟩
    rw [← hstate] at hprogress
    obtain ⟨row,hrow,hid,hrowstate⟩ := stateOf_eq_some.mp hprogress
    exact hnone row hrow hid hrowstate
  · intro hexceptions
    refine ⟨fun row hrow hid hrowstate => ?_,fun hstopped => ?_⟩
    · have hprogress := stateOf_eq_some.mpr ⟨row,hrow,hid,hrowstate⟩
      rw [hstate] at hprogress
      obtain ⟨e,he,hbase⟩ := hiff.mp hprogress
      rw [hexceptions e he] at hbase
      cases hbase
    · have hfilled : s'.2.filled=false := by
        rcases hstopped with ⟨e,he⟩ | ⟨hcalm,e,he⟩
        · exact hleft.clientRaised e he
        · exact hleft.raised e he hcalm
      exact (htracks.bare hfilled id hsaved).neverServable (htracks.minted id (hleft.minted id hsaved))

/-- A call of the smallest service on a new store, whose client raises. -/
def raisingRun (e : PyExc) : ServiceM SmallestCommand MlExecution × (World × EntryWatch) :=
  drive ((List.replicate 60 (answerWith .exclusive 0 0 (.error e) ⟨7⟩)).map
    fun handler => handler.watched watchEntry)
    (execute smallestService positional ⟨.cache,.cache⟩) (World.empty,EntryWatch.blank)

/-- It is a run without a fault of any port. -/
theorem raisingRun_reach (e : PyExc) :
    Reach (observed (Answers .exclusive noFaults 0) watchEntry)
      (execute smallestService positional ⟨.cache,.cache⟩) (World.empty,EntryWatch.blank)
      (raisingRun e).1 (raisingRun e).2 := by
  refine drive_watched _ (fun handler hmem => ?_) watchEntry _ _
  rw [List.eq_of_mem_replicate hmem]
  exact answerWith_respects _ _ _

/-- A client that raised an exception leaves a row that is resolved and never servable. -/
theorem entry_resolved_iff_exception :
    (∀ row∈(raisingRun (.other true [])).2.1.db.executions,row.executionId=⟨7⟩ →
      row.state≠.value .inProgress) ∧
    NeverServable SmallestCommand positional (raisingRun (.other true [])).2.1 ⟨7⟩ := by
  have hraised : (raisingRun (.other true [])).1.raised=some (.other true []) := by decide +kernel
  have hend := raisingRun_reach (.other true [])
  rw [Prog.raised_eq_some.mp hraised] at hend
  have hclient : (raisingRun (.other true [])).2.2.clientError=some (.other true []) := by decide +kernel
  have hsaved : (raisingRun (.other true [])).2.2.saved=some ⟨7⟩ := by decide +kernel
  have hiff := entry_resolved_iff smallestService positional hend (by decide +kernel) hsaved
  obtain ⟨hnone,hnever⟩ := hiff.mpr fun e he => by
    rw [hclient] at he
    cases he
    rfl
  exact ⟨hnone,hnever (Or.inl ⟨_,hclient⟩)⟩

/-- A client that raised what is no exception, such as KeyboardInterrupt, leaves
its row in progress. -/
theorem entry_resolved_fails : ¬ ∀ (w : World) (r : Except PyExc MlExecution) (s' : World × EntryWatch),
    Ends (observed (Answers .exclusive noFaults 0) watchEntry)
      (execute smallestService positional ⟨.cache,.cache⟩) (w,EntryWatch.blank) r s' →
    s'.2.unresolved=false → ∀ id,s'.2.saved=some id →
    (∀ row∈s'.1.db.executions,row.executionId=id → row.state≠.value .inProgress) ∧
      (StoppedOrRaised r s'.2 → NeverServable SmallestCommand positional s'.1 id) := by
  intro hall
  have hraised : (raisingRun (.other false [])).1.raised=some (.other false []) := by decide +kernel
  have hend := raisingRun_reach (.other false [])
  rw [Prog.raised_eq_some.mp hraised] at hend
  obtain ⟨hnone,_⟩ := hall _ _ _ hend (by decide +kernel) ⟨7⟩ (by decide +kernel)
  have hrow : ∃ row∈(raisingRun (.other false [])).2.1.db.executions,row.executionId=⟨7⟩ ∧
      row.state=.value .inProgress := by decide +kernel
  obtain ⟨row,hmem,hid,hstate⟩ := hrow
  exact hnone row hmem hid hstate

end Runs

end GenericMlCache.EntryResolution
