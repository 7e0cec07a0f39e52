import GenericMlCache.ExecuteCalls
import GenericMlCache.ServiceOperations

/-!
# Tags of a run

A tag write names a key, and the store resolves it again to the key's current execution.
What a caller has at hand is the execution that it served or recorded. The two are followed
through any schedule of callers.
-/

namespace GenericMlCache.TaggedRuns

open CallProgram CallAutomaton PythonText ExecutionModel SqliteStore ExecutionRepository ExecutionQueries
  RepositoryCalls ServicePorts StorePurge CachedExecution ExecuteCalls ServiceOperations

/-- The tags are on the execution, and every other execution is as it was. -/
def Attaches (id : ExecutionId) (tags : List PyStr) (before after : Db) : Prop :=
  (∃ row∈after.executions,row.executionId=id ∧ tags⊆row.tags) ∧
    after.executions.filter (fun row => !hasId id row)=before.executions.filter fun row => !hasId id row

/-- The key's current execution is the one meant, or the tags were on both already. -/
def OnTarget (id : ExecutionId) (key : ExecutionKey) (tags : List PyStr) (before : Db) : Prop :=
  ∃ row∈before.executions,row.executionId=id ∧ (before.currentRow key=some row ∨
    tags⊆row.tags ∧ ∀ current,before.currentRow key=some current → tags⊆current.tags)

/-- Inserted tags are there. -/
theorem mem_foldl_insertTag (new tags : List PyStr) : new⊆new.foldl insertTag tags := by
  induction new generalizing tags with
  | nil => exact List.nil_subset _
  | cons tag new ih =>
    have htag : tag∈insertTag tags tag := by
      unfold insertTag
      split
      next h => exact h
      next => exact List.mem_append_right _ (List.mem_singleton_self tag)
    intro t ht
    rcases List.mem_cons.mp ht with rfl | ht
    · exact subset_foldl_insertTag new _ htag
    · exact ih _ ht

/-- Tags that are there already are not inserted again. -/
theorem foldl_insertTag_of_subset {new tags : List PyStr} (h : new⊆tags) : new.foldl insertTag tags=tags := by
  induction new with
  | nil => rfl
  | cons tag new ih =>
    have hnew : insertTag tags tag=tags := if_pos (h List.mem_cons_self)
    rw [List.foldl_cons,hnew]
    exact ih fun t ht => h (List.mem_cons_of_mem _ ht)

/-- A change of one execution's rows leaves the rows of the others. -/
theorem others_updateWhere (db : Db) (id : ExecutionId) (f : MutableColumns → MutableColumns) :
    (db.updateWhere (hasId id) f).executions.filter (fun row => !hasId id row)=
      db.executions.filter fun row => !hasId id row := by
  unfold Db.updateWhere
  dsimp only
  induction db.executions with
  | nil => rfl
  | cons row rows ih =>
    by_cases hid : hasId id row=true
    · have hid' : hasId id (row.update f)=true := hid
      rw [List.map_cons,if_pos hid,List.filter_cons_of_neg (by rw [hid']; decide),
        List.filter_cons_of_neg (by rw [hid]; decide),ih]
    · have hid' : hasId id row=false := by simpa using hid
      rw [List.map_cons,if_neg hid,List.filter_cons_of_pos (by rw [hid']; rfl),
        List.filter_cons_of_pos (by rw [hid']; rfl),ih]

section Writes
variable {key : ExecutionKey} {tags : List PyStr} {before after : Db} {id : ExecutionId}

/-- A tag write changes the key's current row, if there is one. -/
theorem addTags_cases (h : addTags key tags before=.ok after) :
    (after=before ∧ (tags=[] ∨ before.currentRow key=none)) ∨
      ∃ row,before.currentRow key=some row ∧ after=before.updateWhere (hasId row.executionId) fun c =>
        { c with tags := tags.foldl insertTag c.tags } := by
  unfold addTags at h
  split at h
  next htags => exact .inl ⟨(Except.ok.inj h).symm,.inl htags⟩
  next =>
    split at h
    next hnone => exact .inl ⟨(Except.ok.inj h).symm,.inr hnone⟩
    next row hrow =>
      obtain ⟨_,_,h⟩ := ok_of_bind h
      exact .inr ⟨row,hrow,(Except.ok.inj h).symm⟩

/-- A row whose tags are all there is not changed by a tag write. -/
theorem update_of_subset {row : ExecutionRow} (h : tags⊆row.tags) :
    row.update (fun c => { c with tags := tags.foldl insertTag c.tags })=row := by
  simp only [ExecutionRow.update,foldl_insertTag_of_subset h]

/-- A tag write attaches the tags to the execution meant, and to no other, exactly when it is on target. -/
theorem attaches_iff (h : addTags key tags before=.ok after) :
    Attaches id tags before after ↔ OnTarget id key tags before := by
  rcases addTags_cases h with ⟨rfl,hnothing⟩ | ⟨current,hcurrent,rfl⟩
  · constructor
    · rintro ⟨⟨row,hrow,hid,htags⟩,_⟩
      refine ⟨row,hrow,hid,.inr ⟨htags,fun current hcurrent => ?_⟩⟩
      rcases hnothing with hempty | hnone
      · rw [hempty]
        exact List.nil_subset _
      · rw [hnone] at hcurrent
        exact nomatch hcurrent
    · rintro ⟨row,hrow,hid,hcurrent | ⟨htags,_⟩⟩
      · rcases hnothing with hempty | hnone
        · refine ⟨⟨row,hrow,hid,?_⟩,rfl⟩
          rw [hempty]
          exact List.nil_subset _
        · rw [hnone] at hcurrent
          exact nomatch hcurrent
      · exact ⟨⟨row,hrow,hid,htags⟩,rfl⟩
  · have hmem := (Db.currentRow_mem hcurrent).1
    constructor
    · rintro ⟨⟨row',hrow',hid,htags⟩,hothers⟩
      obtain ⟨row,hrow,heq⟩ := Db.mem_updateWhere.mp hrow'
      by_cases hsame : current.executionId=id
      · exact ⟨current,hmem,hsame,.inl hcurrent⟩
      · have hrowid : row.executionId=id := by
          rw [← hid,← heq]
          split <;> rfl
        have hother : ¬hasId current.executionId row=true := by
          rw [hasId_iff,hrowid]
          exact fun h => hsame h.symm
        rw [if_neg hother] at heq
        refine ⟨row,hrow,hrowid,.inr ⟨heq ▸ htags,fun current' hcurrent' => ?_⟩⟩
        cases hcurrent.symm.trans hcurrent'
        -- The current row is among the others, so it had the tags before.
        have hchanged := Db.mem_updateWhere_of (f := fun c => { c with tags := tags.foldl insertTag c.tags }) hmem
          ((hasId_iff current.executionId current).mpr rfl)
        have hfilter := hothers ▸ List.mem_filter.mpr ⟨hchanged,by simpa using hsame⟩
        have hback := before.row_unique (List.mem_filter.mp hfilter).1 hmem rfl
        rw [← hback]
        exact mem_foldl_insertTag tags current.tags
    · rintro ⟨row,hrow,hid,hon | ⟨htags,hall⟩⟩
      · cases hcurrent.symm.trans hon
        refine ⟨⟨_,Db.mem_updateWhere_of hrow ((hasId_iff _ _).mpr rfl),hid,mem_foldl_insertTag tags current.tags⟩,?_⟩
        rw [← hid]
        exact others_updateWhere before _ _
      · have hsame : (before.updateWhere (hasId current.executionId) fun c =>
            { c with tags := tags.foldl insertTag c.tags }).executions=before.executions := by
          refine (List.map_congr_left fun r hr => ?_).trans (List.map_id _)
          by_cases hr' : hasId current.executionId r=true
          · rw [if_pos hr',before.row_unique hr hmem ((hasId_iff _ _).mp hr'),update_of_subset (hall current hcurrent)]
            rfl
          · rw [if_neg hr']
            rfl
        refine ⟨⟨row,hsame ▸ hrow,hid,htags⟩,?_⟩
        rw [hsame]

end Writes

/-- A tag write as its caller made it. -/
structure TagRequest where
  /-- The execution that the caller had at hand. -/
  subject : Option ExecutionId
  /-- The key. -/
  key : ExecutionKey
  /-- The tags. -/
  tags : List PyStr
deriving DecidableEq

/-- What a caller's calls have told it. -/
structure TagTrace where
  /-- The execution that was found or finalized last. -/
  subject : Option ExecutionId
  /-- The tag writes that committed. -/
  requests : List TagRequest
  /-- The executions that were removed. -/
  removed : List ExecutionId

/-- Before the first call. -/
def TagTrace.blank : TagTrace := ⟨none,[],[]⟩

/-- Follow the calls that find, finalize, tag and remove. -/
def watchTags {Command : Type} : (call : Call Command) → Except PyExc call.Ret → TagTrace → TagTrace
  | .store (.findCurrent _),.ok found,t => { t with subject := Option.map MlExecution.executionId found }
  | .store (.finalizeOutputPersisted id),.ok _,t => { t with subject := some id }
  | .store (.addTags key tags),.ok _,t => { t with requests := t.requests ++ [⟨t.subject,key,tags⟩] }
  | .store (.removeExecution id),.ok _,t => { t with removed := id::t.removed }
  | _,_,t => t

/-- The turns of a caller that tags one key with one list of tags, with an execution at hand. -/
def Tagging {Command : Type} (key : ExecutionKey) (tags : List PyStr) : Turns (Call Command) Call.Ret PyExc TagTrace :=
  fun t call r t' => t'=watchTags call r t ∧
    ∀ key' tags',call=.store (.addTags key' tags') → key'=key ∧ tags'=tags ∧ t.subject.isSome=true

/-- No tag was written since. -/
def Quiet (t t' : TagTrace) : Prop := t'.requests=t.requests ∧ t.removed⊆t'.removed

/-- The tags were written since, with this execution at hand, if there are any. -/
def Wrote (id : ExecutionId) (key : ExecutionKey) (tags : List PyStr) (t t' : TagTrace) : Prop :=
  t'.requests=t.requests ++ (if tags=[] then [] else [⟨some id,key,tags⟩]) ∧ t.removed⊆t'.removed

/-- Every execution that the caller tagged, it removed. -/
def Undone (t : TagTrace) : Prop := ∀ q∈t.requests,∃ id∈t.removed,q.subject=some id

/-- The last tag write was for the returned execution, if it is a stored one and there are
tags, and every other was for an execution that the caller removed. -/
structure Attributed (tags : List PyStr) (t : TagTrace) (execution : MlExecution) : Prop where
  /-- Each write was for the returned execution or a removed one. -/
  own : ∀ q∈t.requests,q.subject=some execution.executionId ∨ ∃ id∈t.removed,q.subject=some id
  /-- A stored execution with tags has the last one. -/
  last : execution.outputPersisted=true → tags≠[] →
    ∃ q,t.requests.getLast?=some q ∧ q.subject=some execution.executionId

section Traces
variable {Command α β : Type} {key : ExecutionKey} {tags : List PyStr} {t t' t'' : TagTrace}

/-- Nothing happened. -/
theorem Quiet.refl (t : TagTrace) : Quiet t t := ⟨rfl,fun _ h => h⟩

/-- One stretch after the other. -/
theorem Quiet.trans (h : Quiet t t') (h' : Quiet t' t'') : Quiet t t'' :=
  ⟨h'.1.trans h.1,fun _ hid => h'.2 (h.2 hid)⟩

/-- A quiet stretch before a tag write. -/
theorem Quiet.wrote {id : ExecutionId} (h : Quiet t t') (h' : Wrote id key tags t' t'') : Wrote id key tags t t'' :=
  ⟨h.1 ▸ h'.1,fun _ hid => h'.2 (h.2 hid)⟩

/-- A quiet stretch behind a tag write. -/
theorem Wrote.quiet {id : ExecutionId} (h : Wrote id key tags t t') (h' : Quiet t' t'') : Wrote id key tags t t'' :=
  ⟨h'.1.trans h.1,fun _ hid => h'.2 (h.2 hid)⟩

/-- What was undone stays undone. -/
theorem Undone.quiet (h : Undone t) (h' : Quiet t t') : Undone t' := by
  intro q hq
  rw [h'.1] at hq
  obtain ⟨id,hid,hsubject⟩ := h q hq
  exact ⟨id,h'.2 hid,hsubject⟩

/-- An execution is attributed its own tag write, if everything before was undone. -/
theorem Undone.attributed {execution : MlExecution} (h : Undone t) (h' : Wrote execution.executionId key tags t t') :
    Attributed tags t' execution where
  own q hq := by
    rw [h'.1] at hq
    rcases List.mem_append.mp hq with hq | hq
    · obtain ⟨id,hid,hsubject⟩ := h q hq
      exact .inr ⟨id,h'.2 hid,hsubject⟩
    · by_cases hempty : tags=[]
      · rw [if_pos hempty] at hq
        exact nomatch hq
      · rw [if_neg hempty] at hq
        rw [List.mem_singleton.mp hq]
        exact .inl rfl
  last _ hne := by
    refine ⟨⟨some execution.executionId,key,tags⟩,?_,rfl⟩
    rw [h'.1,if_neg hne,List.getLast?_append]
    rfl

/-- So is one that is not stored, without one. -/
theorem Undone.unstored {execution : MlExecution} (h : Undone t) (hnot : execution.outputPersisted=false) :
    Attributed tags t execution where
  own q hq := .inr (h q hq)
  last hstored _ := by
    rw [hnot] at hstored
    exact nomatch hstored

/-- An attributed execution stays attributed over a quiet stretch. -/
theorem Attributed.quiet {execution : MlExecution} (h : Attributed tags t execution) (h' : Quiet t t') :
    Attributed tags t' execution where
  own q hq := by
    rw [h'.1] at hq
    rcases h.own q hq with hown | ⟨id,hid,hsubject⟩
    · exact .inl hown
    · exact .inr ⟨id,h'.2 hid,hsubject⟩
  last hstored hne := by
    rw [h'.1]
    exact h.last hstored hne

/-- A call that is no tag write is quiet. -/
theorem quiet_call {call : Call Command} (h : ∀ key tags,call≠.store (.addTags key tags))
    (r : Except PyExc call.Ret) (t : TagTrace) : Quiet t (watchTags call r t) := by
  cases call with
  | store call =>
    cases call with
    | addTags key tags => exact absurd rfl (h key tags)
    | findCurrent | finalizeOutputPersisted =>
      cases r with
      | ok _ => exact ⟨rfl,fun _ hid => hid⟩
      | error _ => exact Quiet.refl t
    | removeExecution id =>
      cases r with
      | ok _ => exact ⟨rfl,fun _ hid => List.mem_cons_of_mem _ hid⟩
      | error _ => exact Quiet.refl t
    | _ => exact Quiet.refl t
  | _ => exact Quiet.refl t

/-- A call that is no tag write is a turn of every tagging caller. -/
theorem tagging_call {call : Call Command} (h : ∀ key tags,call≠.store (.addTags key tags))
    (r : Except PyExc call.Ret) (t : TagTrace) : Tagging key tags t call r (watchTags call r t) :=
  ⟨rfl,fun key' tags' heq => absurd heq (h key' tags')⟩

/-- An untagged call is no tag write. -/
theorem ne_addTags {call : Call Command} (h : isUntagged call=true) (key : ExecutionKey) (tags : List PyStr) :
    call≠.store (.addTags key tags) := by
  rintro rfl
  exact nomatch h

/-- What makes no tag write is quiet. -/
theorem follows_quiet {P : Call Command → Prop} {p : ServiceM Command α} (hp : Uses P p)
    (hP : ∀ call,P call → ∀ key tags,call≠.store (.addTags key tags)) (t : TagTrace) :
    Follows (Tagging key tags) (fun _ t' => Quiet t t') p t := by
  induction p generalizing t with
  | done r => exact Quiet.refl t
  | call op next ih =>
    intro r
    refine ⟨_,tagging_call (hP op hp.1) r t,(ih r (hp.2 r) _).weaken fun _ _ h => ?_⟩
    exact (quiet_call (hP op hp.1) r t).trans h

/-- An untagged program is quiet. -/
theorem follows_untagged {p : ServiceM Command α} (hp : UsesUntagged p) (t : TagTrace) :
    Follows (Tagging key tags) (fun _ t' => Quiet t t') p t :=
  follows_quiet hp (fun _ hc => ne_addTags hc) t

/-- One call that is no tag write. -/
theorem follows_untagged_call {call : Call Command} (h : ∀ key tags,call≠.store (.addTags key tags)) (t : TagTrace) :
    Follows (Tagging key tags) (fun _ t' => Quiet t t') (ask call) t :=
  Follows.perform fun r => ⟨_,tagging_call h r t,quiet_call h r t⟩

/-- A value or an error from outside makes no call. -/
theorem follows_ofExcept (r : Except PyExc α) (t : TagTrace) :
    Follows (Tagging key tags) (fun _ t' => Quiet t t') (ofExcept r : ServiceM Command α) t := Quiet.refl t

/-- The client's call of a recorded run, and what is done when it raised, write no tag. -/
theorem follows_runRecordedClient (command : Command) (inProgress : MlExecution) (t : TagTrace) :
    Follows (Tagging key tags) (fun _ t' => Quiet t t') (runRecordedClient command inProgress) t := by
  refine Follows.attempt_seq (follows_untagged_call (by rintro _ _ ⟨⟩) t) fun r t₁ hquiet => ?_
  cases r with
  | ok result => exact Follows.pure hquiet
  | error e =>
    have hraise : ∀ t₂,Quiet t₁ t₂ → Follows (Tagging key tags) (fun _ t' => Quiet t t')
        (raise e : ServiceM Command ClientRunResult) t₂ := fun _ h => Follows.raise (hquiet.trans h)
    refine Follows.ite (fun _ => ?_) fun _ => Follows.ite (fun _ => ?_) fun _ => hraise t₁ (Quiet.refl t₁)
    · exact Follows.seq (follows_untagged_call (by rintro _ _ ⟨⟩) t₁) (fun _ t₂ h => hraise t₂ h)
        fun _ _ h => hquiet.trans h
    · exact Follows.seq (follows_untagged_call (by rintro _ _ ⟨⟩) t₁) (fun _ t₂ h => hraise t₂ h)
        fun _ _ h => hquiet.trans h

/-- One call that is no tag write, and the rest of the program. -/
theorem follows_bind {Q : Except PyExc β → TagTrace → Prop} {call : Call Command}
    {f : call.Ret → ServiceM Command β} (h : ∀ key tags,call≠.store (.addTags key tags))
    (hok : ∀ a,Follows (Tagging key tags) Q (f a) (watchTags call (.ok a) t))
    (herr : ∀ e,Q (.error e) (watchTags call (.error e) t)) :
    Follows (Tagging key tags) Q (perform call >>= f) t :=
  Follows.perform_bind (fun a => ⟨_,tagging_call h _ t,hok a⟩) fun e => ⟨_,tagging_call h _ t,herr e⟩

end Traces

section Parts
variable {Command : Type} (service : CachedMlExecutionService Command) (fingerprint : Bytes → Digest)
  {key : ExecutionKey} {command : Command} {t : TagTrace}

/-- Hydration finds and finalizes nothing, and keeps the execution's id. -/
theorem follows_hydrate {tags : List PyStr} (execution : MlExecution) (t : TagTrace) :
    Follows (Tagging key tags) (fun r t' => t'=t ∧ ∀ e,r=.ok e → e.executionId=execution.executionId)
      (hydrate execution : ServiceM Command MlExecution) t := by
  have hartifacts : ∀ artifacts,Follows (Tagging key tags) (fun _ t' => t'=t)
      (hydrateArtifacts artifacts : ServiceM Command (List Artifact)) t := by
    intro artifacts
    induction artifacts with
    | nil => exact Follows.pure rfl
    | cons artifact rest ih =>
      have hone : Follows (Tagging key tags) (fun _ t' => t'=t)
          (hydrateArtifact artifact : ServiceM Command Artifact) t := by
        refine follows_bind (fun _ _ h => nomatch h) (fun content => ?_) fun _ => rfl
        cases content with
        | none => exact Follows.raise rfl
        | some content => exact Follows.pure rfl
      refine Follows.seq hone (fun hydrated t' ht => ?_) fun _ _ h => h
      rw [ht]
      refine Follows.seq ih (fun others t'' ht' => ?_) fun _ _ h => h
      exact Follows.pure ht'
  refine Follows.seq (hartifacts execution.artifacts) (fun artifacts t' ht => ?_) fun _ _ ht => ?_
  · exact Follows.pure ⟨ht,fun e he => by cases he; rfl⟩
  · exact ⟨ht,fun _ he => nomatch he⟩

/-- The tags go with the execution at hand. -/
theorem follows_applyTags {id : ExecutionId} (hsubject : t.subject=some id) :
    Follows (Tagging key (service.executionTags command))
      (fun r t' => (∀ a,r=.ok a → Wrote id key (service.executionTags command) t t') ∧ (∀ e,r=.error e → Quiet t t'))
      (applyTags service key command) t := by
  refine Follows.ite (fun hempty => ?_) fun hne => ?_
  · refine Follows.pure ⟨fun a _ => ⟨?_,fun _ h => h⟩,fun _ h => (by cases h)⟩
    rw [if_pos (List.isEmpty_iff.mp hempty),List.append_nil]
  · refine Follows.perform fun r => ⟨_,⟨rfl,fun key' tags' heq => ?_⟩,?_⟩
    · cases heq
      exact ⟨rfl,rfl,by rw [hsubject]; rfl⟩
    · cases r with
      | ok a =>
        refine ⟨fun _ _ => ⟨?_,fun _ h => h⟩,fun _ h => (by cases h)⟩
        have hne' : service.executionTags command≠[] := fun h => hne (List.isEmpty_iff.mpr h)
        simp only [watchTags,hsubject,if_neg hne']
      | error e => exact ⟨fun _ h => (by cases h),fun _ _ => Quiet.refl t⟩

/-- A hit tags the execution that it serves. -/
theorem follows_serveHit {current : MlExecution} (hsubject : t.subject=some current.executionId) :
    Follows (Tagging key (service.executionTags command))
      (fun r t' => (∀ served,r=.ok served → served.executionId=current.executionId ∧
          Wrote current.executionId key (service.executionTags command) t t') ∧
        ∀ e,r=.error e → Quiet t t' ∨ Wrote current.executionId key (service.executionTags command) t t')
      (serveHit service fingerprint key command current) t := by
  refine Follows.seq (follows_hydrate current t) (fun hydrated t₁ h => ?_) fun e t₁ h => ?_
  · obtain ⟨ht,hid⟩ := h
    rw [ht]
    refine follows_bind (fun _ _ h => nomatch h) (fun _ => ?_) fun e => ?_
    · refine Follows.seq (follows_applyTags service hsubject) (fun _ t₂ h => ?_) fun e t₂ h => ?_
      · refine Follows.seq (follows_untagged (untagged_accumulateInput service fingerprint key command current) t₂)
          (fun _ t₃ hquiet => ?_) fun e t₃ hquiet => ?_
        · refine Follows.pure ⟨fun served hserved => ?_,fun _ he => nomatch he⟩
          cases hserved
          exact ⟨hid _ rfl,(h.1 _ rfl).quiet hquiet⟩
        · exact ⟨fun _ he => (nomatch he),fun _ _ => .inr ((h.1 _ rfl).quiet hquiet)⟩
      · exact ⟨fun _ he => (nomatch he),fun _ _ => .inl (h.2 _ rfl)⟩
    · exact ⟨fun _ he => (nomatch he),fun _ _ => .inl (Quiet.refl t)⟩
  · rw [h.1]
    exact ⟨fun _ he => (nomatch he),fun _ _ => .inl (Quiet.refl t)⟩

/-- A heal removes the execution that was served. -/
theorem follows_removeExecutionAndBlobs {tags : List PyStr} (current : MlExecution) (t : TagTrace) :
    Follows (Tagging key tags) (fun r t' => Quiet t t' ∧ ∀ a,r=.ok a → current.executionId∈t'.removed)
      (removeExecutionAndBlobs current : ServiceM Command Unit) t := by
  refine Follows.seq (follows_untagged (untagged_of_straight (silent_removeArtifactBlobs current.artifacts)) t)
    (fun _ t₁ hquiet => ?_) fun e t₁ hquiet => ⟨hquiet,fun _ h => nomatch h⟩
  refine Follows.perform fun r => ⟨_,tagging_call (by rintro _ _ ⟨⟩) r t₁,?_⟩
  cases r with
  | ok a => exact ⟨hquiet.trans ⟨rfl,fun _ h => List.mem_cons_of_mem _ h⟩,fun _ _ => List.mem_cons_self⟩
  | error e => exact ⟨hquiet,fun _ h => nomatch h⟩

/-- Serving the current execution tags it, unless it is healed away again. -/
theorem follows_serveCurrentIfHealthy (h : Undone t) :
    Follows (Tagging key (service.executionTags command))
      (fun r t' => (∀ served,r=.ok (some served) → Attributed (service.executionTags command) t' served) ∧
        (r=.ok none → Undone t'))
      (serveCurrentIfHealthy service fingerprint key command) t := by
  have hfind : Follows (Tagging key (service.executionTags command))
      (fun r t' => t'=watchTags (.store (.findCurrent key) : Call Command) r t) (store (.findCurrent key)) t :=
    Follows.perform fun r => ⟨_,tagging_call (by rintro _ _ ⟨⟩) r t,rfl⟩
  refine Follows.attempt_seq hfind fun found t₁ ht => ?_
  have hundone : Undone t₁ := by
    rw [ht]
    exact h.quiet (quiet_call (by rintro _ _ ⟨⟩) _ t)
  cases found with
  | error e =>
    have hraise : Follows (Tagging key (service.executionTags command))
        (fun r t' => (∀ served,r=.ok (some served) → Attributed (service.executionTags command) t' served) ∧
          (r=.ok none → Undone t')) (raise e : ServiceM Command (Option MlExecution)) t₁ :=
      Follows.raise ⟨fun _ h => (nomatch h),fun h => nomatch h⟩
    cases e with
    | storeCorrupt message => exact Follows.pure ⟨fun _ h => (nomatch h),fun _ => hundone⟩
    | _ => exact hraise
  | ok found =>
    cases found with
    | none => exact Follows.pure ⟨fun _ h => (nomatch h),fun _ => hundone⟩
    | some current =>
      have hsubject : t₁.subject=some current.executionId := by rw [ht]; rfl
      refine Follows.attempt_seq (follows_serveHit service fingerprint hsubject) fun r t₂ hserved => ?_
      cases r with
      | ok served =>
        obtain ⟨hid,hwrote⟩ := hserved.1 served rfl
        refine Follows.pure ⟨fun served' h => ?_,fun h => nomatch h⟩
        cases h
        exact hundone.attributed (hid ▸ hwrote)
      | error e =>
        refine Follows.ite (fun _ => ?_) fun _ => Follows.raise ⟨fun _ h => (nomatch h),fun h => nomatch h⟩
        refine Follows.seq (follows_removeExecutionAndBlobs current t₂) (fun _ t₃ hheal => ?_)
          fun _ _ _ => ⟨fun _ h => (nomatch h),fun h => nomatch h⟩
        refine Follows.pure ⟨fun _ h => (nomatch h),fun _ q hq => ?_⟩
        rw [hheal.1.1] at hq
        rcases hserved.2 e rfl with hquiet | hwrote
        · rw [hquiet.1] at hq
          obtain ⟨id,hid,hq'⟩ := hundone q hq
          exact ⟨id,hheal.1.2 (hquiet.2 hid),hq'⟩
        · have hattributed : Attributed (service.executionTags command) t₂ current := hundone.attributed hwrote
          obtain hown | ⟨id,hid,hq'⟩ := hattributed.own q hq
          · exact ⟨_,hheal.2 _ rfl,hown⟩
          · exact ⟨id,hheal.1.2 hid,hq'⟩

/-- A program whose returned execution is attributed its tags. -/
abbrev Attributes (key : ExecutionKey) (tags : List PyStr) (p : ServiceM Command MlExecution) (t : TagTrace) : Prop :=
  Follows (Tagging key tags) (fun r t' => ∀ execution,r=.ok execution → Attributed tags t' execution) p t

/-- A quiet part before the rest of a run. -/
theorem attributes_bind {α : Type} {tags : List PyStr} {p : ServiceM Command α} {f : α → ServiceM Command MlExecution}
    (hp : Follows (Tagging key tags) (fun _ t' => Quiet t t') p t)
    (hf : ∀ a t',Undone t' → Attributes key tags (f a) t') (h : Undone t) : Attributes key tags (p >>= f) t :=
  Follows.seq hp (fun a t' hquiet => hf a t' (h.quiet hquiet)) fun _ _ _ _ he => nomatch he

/-- A part of a run that returns an execution that is not stored. -/
theorem attributes_unstored {tags : List PyStr} {execution : MlExecution} (h : Undone t)
    (hnot : execution.outputPersisted=false) :
    Attributes key tags (pure execution : ServiceM Command MlExecution) t :=
  Follows.pure fun _ he => by
    cases he
    exact h.unstored hnot

/-- The end of a recording tags the execution that it finalized. -/
theorem follows_concludeRecording (executionId : ExecutionId) (allStored : Bool) (t : TagTrace) :
    Follows (Tagging key (service.executionTags command))
      (fun r t' => ∀ a,r=.ok a →
        if allStored=true then Wrote executionId key (service.executionTags command) t t' else Quiet t t')
      (concludeRecording service key command executionId allStored) t := by
  refine Follows.ite (fun hstored => ?_) fun hnot => ?_
  · simp only [hstored,if_true]
    refine follows_bind (fun _ _ h => nomatch h) (fun _ => ?_) fun _ _ he => nomatch he
    refine follows_bind (fun _ _ h => nomatch h) (fun _ => ?_) fun _ _ he => nomatch he
    have htags : Follows (Tagging key (service.executionTags command)) _ (applyTags service key command)
        { t with subject := some executionId } := follows_applyTags service rfl
    refine Follows.seq htags (fun _ t₁ h => ?_) fun _ _ _ _ he => nomatch he
    refine (follows_untagged (untagged_of_straight (adding_afterRecord service)) t₁).weaken fun r t₂ hquiet a _ => ?_
    exact (h.1 _ rfl).quiet hquiet
  · rw [Bool.not_eq_true] at hnot
    simp only [hnot,Bool.false_eq_true,if_false]
    exact (follows_untagged_call (by rintro _ _ ⟨⟩) t).weaken fun _ _ hquiet _ _ => hquiet

/-- A recorded run is attributed its tags. -/
theorem attributes_runAndRecord (identity : CallIdentity) (command : Command) (h : Undone t) :
    Attributes identity.generateKey (service.executionTags command)
      (runAndRecord service fingerprint identity command) t := by
  refine attributes_bind (follows_untagged (untagged_of_straight (silent_blobHealthGate service command)) t) (fun healthy t₁ h₁ => ?_) h
  refine Follows.ite (fun _ => ?_) fun _ => Follows.raise fun _ he => nomatch he
  refine attributes_bind (follows_untagged_call (by rintro _ _ ⟨⟩) t₁) (fun executionId t₂ h₂ => ?_) h₁
  refine attributes_bind (follows_untagged_call (by rintro _ _ ⟨⟩) t₂) (fun _ t₃ h₃ => ?_) h₂
  refine attributes_bind (follows_runRecordedClient command _ t₃) (fun result t₄ h₄ => ?_) h₃
  refine Follows.ite (fun _ => ?_) fun _ => ?_
  · refine attributes_bind (follows_untagged_call (by rintro _ _ ⟨⟩) t₄) (fun _ t₅ h₅ => ?_) h₄
    refine attributes_bind (follows_ofExcept _ t₅) (fun outputArtifacts t₆ h₆ => ?_) h₅
    refine attributes_bind (follows_ofExcept _ t₆) (fun inputArtifacts t₇ h₇ => ?_) h₆
    refine attributes_bind (follows_untagged (untagged_withContentWriteLock (untagged_persistDocuments _ _)) t₇)
      (fun resolved t₈ h₈ => ?_) h₇
    obtain ⟨resolved,allStored⟩ := resolved
    refine Follows.seq (follows_concludeRecording service _ allStored t₈) (fun _ t₉ h₉ => ?_) fun _ _ _ _ he => nomatch he
    refine Follows.pure fun execution he => ?_
    cases he
    have hend := h₉ _ rfl
    by_cases hstored : allStored=true
    · rw [if_pos hstored] at hend
      exact h₈.attributed hend
    · rw [if_neg hstored] at hend
      exact (h₈.quiet hend).unstored (by simpa using hstored)
  · refine attributes_bind (follows_untagged_call (by rintro _ _ ⟨⟩) t₄) (fun _ t₅ h₅ => ?_) h₄
    refine attributes_bind (follows_untagged_call (by rintro _ _ ⟨⟩) t₅) (fun _ t₆ h₆ => ?_) h₅
    exact attributes_bind (follows_ofExcept _ t₆) (fun artifacts t₇ h₇ => attributes_unstored h₇ rfl) h₆

/-- A run under the key lock, after another look at the store in cache mode. -/
theorem attributes_runFreshLocked (identity : CallIdentity) (command : Command) (h : Undone t) :
    Attributes identity.generateKey (service.executionTags command)
      (runFreshLocked service fingerprint identity command) t := by
  refine attributes_bind (follows_untagged_call (by rintro _ _ ⟨⟩) t) (fun _ t₁ h₁ => ?_) h
  have hbody : Attributes identity.generateKey (service.executionTags command)
      (if service.cacheMode command=.cache then
        serveCurrentIfHealthy service fingerprint identity.generateKey command >>=
          servedOrRun service fingerprint identity command
      else runAndRecord service fingerprint identity command) t₁ := by
    refine Follows.ite (fun _ => ?_) fun _ => attributes_runAndRecord service fingerprint identity command h₁
    refine Follows.seq (follows_serveCurrentIfHealthy service fingerprint h₁) (fun served t₂ hserved => ?_)
      fun _ _ _ _ he => (by cases he)
    cases served with
    | some served =>
      refine Follows.pure fun execution he => ?_
      cases he
      exact hserved.1 _ rfl
    | none => exact attributes_runAndRecord service fingerprint identity command (hserved.2 rfl)
  refine Follows.ensure (hbody.weaken fun r t₂ hr => ?_)
  refine (follows_untagged_call (by rintro _ _ ⟨⟩) t₂).weaken fun c t₃ hquiet => ?_
  cases c with
  | ok _ => exact fun execution he => (hr execution he).quiet hquiet
  | error e => exact fun _ he => (by cases he)

/-- A run that stores nothing is attributed no tag write. -/
theorem attributes_runMetered (identity : CallIdentity) (command : Command) (h : Undone t) :
    Attributes key (service.executionTags command) (runMetered service fingerprint identity command) t := by
  refine attributes_bind (follows_untagged_call (by rintro _ _ ⟨⟩) t) (fun found t₁ h₁ => ?_) h
  refine attributes_bind (follows_untagged_call (by rintro _ _ ⟨⟩) t₁) (fun result t₂ h₂ => ?_) h₁
  refine attributes_bind (follows_untagged_call (by rintro _ _ ⟨⟩) t₂) (fun executionId t₃ h₃ => ?_) h₂
  refine attributes_bind (follows_ofExcept _ t₃) (fun artifacts t₄ h₄ => ?_) h₃
  exact attributes_bind (follows_untagged_call (by rintro _ _ ⟨⟩) t₄) (fun _ t₅ h₅ => attributes_unstored h₅ rfl) h₄

/-- So is one that bypasses the store. -/
theorem attributes_runUncacheable (identity : CallIdentity) (command : Command) (h : Undone t) :
    Attributes key (service.executionTags command) (runUncacheable service fingerprint identity command) t := by
  refine Follows.ite (fun _ => ?_) fun _ => ?_
  · exact attributes_bind (follows_untagged_call (by rintro _ _ ⟨⟩) t)
      (fun _ _ _ => Follows.raise fun _ he => nomatch he) h
  · refine attributes_bind (follows_untagged_call (by rintro _ _ ⟨⟩) t) (fun result t₁ h₁ => ?_) h
    refine attributes_bind (follows_untagged_call (by rintro _ _ ⟨⟩) t₁) (fun executionId t₂ h₂ => ?_) h₁
    refine attributes_bind (follows_ofExcept _ t₂) (fun artifacts t₃ h₃ => ?_) h₂
    exact attributes_bind (follows_untagged_call (by rintro _ _ ⟨⟩) t₃) (fun _ t₄ h₄ => attributes_unstored h₄ rfl) h₃

/-- An offline answer is attributed its tags. -/
theorem attributes_serveOffline (command : Command) (h : Undone t) :
    Attributes key (service.executionTags command) (serveOffline service fingerprint key command) t := by
  have hstored : Follows (Tagging key (service.executionTags command))
      (fun r t' => ∀ served,r=.ok (some served) → Attributed (service.executionTags command) t' served)
      (serveStored service fingerprint key command) t := by
    refine follows_bind (fun _ _ h => nomatch h) (fun found => ?_) fun _ _ he => nomatch he
    cases found with
    | none => exact Follows.pure fun _ he => nomatch he
    | some current =>
      have hserve : Follows (Tagging key (service.executionTags command)) _
          (serveHit service fingerprint key command current) { t with subject := some current.executionId } :=
        follows_serveHit service fingerprint rfl
      refine Follows.seq hserve (fun served t₁ hserved => ?_) fun _ _ _ _ he => nomatch he
      refine Follows.pure fun served' he => ?_
      cases he
      obtain ⟨hid,hwrote⟩ := hserved.1 _ rfl
      rw [← hid] at hwrote
      exact h.attributed hwrote
  have hmiss : ∀ message t₁,Attributes key (service.executionTags command)
      (recordEvent service .miss key command >>= fun _ => raise (.cacheMiss message)) t₁ := fun message t₁ =>
    Follows.seq (follows_untagged_call (by rintro _ _ ⟨⟩) t₁) (fun _ _ _ => Follows.raise fun _ he => nomatch he)
      fun _ _ _ _ he => nomatch he
  refine Follows.attempt_seq hstored fun r t₁ hr => ?_
  cases r with
  | ok served =>
    cases served with
    | some served =>
      refine Follows.pure fun _ he => ?_
      cases he
      exact hr _ rfl
    | none => exact hmiss _ t₁
  | error e => exact Follows.ite (fun _ => hmiss _ t₁) fun _ => Follows.raise fun _ he => nomatch he

/-- What an execute returns is attributed its tags, and it tags one key only. -/
theorem attributes_execute {identity : CallIdentity} {command : Command}
    (hidentity : service.buildIdentity command=.ok identity) :
    Attributes identity.generateKey (service.executionTags command) (execute service fingerprint command)
      TagTrace.blank := by
  have hblank : Undone TagTrace.blank := fun _ hq => nomatch hq
  unfold execute
  rw [hidentity,ofExcept_ok_bind]
  refine Follows.ite (fun _ => attributes_runUncacheable service fingerprint identity command hblank) fun _ => ?_
  refine attributes_bind (follows_untagged (untagged_of_straight (silent_tokenGate service command)) _) (fun _ t₁ h₁ => ?_) hblank
  unfold executeCacheable
  cases service.cacheMode command with
  | offline => exact attributes_serveOffline service fingerprint command h₁
  | cache =>
    refine Follows.ite (fun _ => ?_) fun _ => attributes_runMetered service fingerprint identity command h₁
    refine Follows.seq (follows_serveCurrentIfHealthy service fingerprint h₁) (fun served t₂ hserved => ?_)
      fun _ _ _ _ he => nomatch he
    cases served with
    | some served =>
      refine Follows.pure fun execution he => ?_
      cases he
      exact hserved.1 _ rfl
    | none => exact attributes_runFreshLocked service fingerprint identity command (hserved.2 rfl)
  | refresh =>
    exact Follows.ite (fun _ => attributes_runFreshLocked service fingerprint identity command h₁) fun _ =>
      attributes_runMetered service fingerprint identity command h₁

end Parts

/-- A committed tag write, with the database before and after it. -/
structure TagWrite extends TagRequest where
  /-- The database before it. -/
  before : Db
  /-- The database after it. -/
  after : Db

/-- The caller's trace, and what its tag writes did. -/
structure TagLog where
  /-- The trace. -/
  trace : TagTrace
  /-- The committed tag writes. -/
  writes : List TagWrite

/-- Before the first call. -/
def TagLog.blank : TagLog := ⟨TagTrace.blank,[]⟩

/-- Follow one call of the caller. -/
def TagLog.watch {Command : Type} (call : Call Command) (r : Except PyExc call.Ret) (before after : Db)
    (log : TagLog) : TagLog where
  trace := watchTags call r log.trace
  writes := match call,r with
    | .store (.addTags key tags),.ok _ => log.writes ++ [⟨⟨log.trace.subject,key,tags⟩,before,after⟩]
    | _,_ => log.writes

/-- The ports answer every thread, and the calls of one of them are followed. -/
def loggedAnswers {Command : Type} (locks : LockMode) (faults : Faults Command) (caller thread : ThreadId) :
    Sem (Call Command) Call.Ret PyExc (World × TagLog) := fun call s r s' =>
  Answers locks faults thread call s.1 r s'.1 ∧
    s'.2=if thread=caller then s.2.watch call r s.1.db s'.1.db else s.2

/-- The write attached its tags to the execution that its caller had at hand, and to no other. -/
def TagWrite.Follows (write : TagWrite) : Prop :=
  ∃ id,write.subject=some id ∧ Attaches id write.tags write.before write.after

/-- The write found that execution current, or had nothing to attach. -/
def TagWrite.OnTarget (write : TagWrite) : Prop :=
  ∃ id,write.subject=some id ∧ TaggedRuns.OnTarget id write.key write.tags write.before

section Schedules
variable {Command : Type} {locks : LockMode} {faults : Faults Command} {caller : ThreadId} {key : ExecutionKey}
  {tags : List PyStr}

/-- What is known of a log: it follows the trace, and its writes are tag transactions. -/
structure Logged (key : ExecutionKey) (tags : List PyStr) (t : TagTrace) (log : TagLog) : Prop where
  /-- The trace is the log's. -/
  trace : log.trace=t
  /-- Its writes are those requested. -/
  requests : log.writes.map (·.toTagRequest)=t.requests
  /-- Each is a transaction that adds the tags to the key. -/
  writes : ∀ write∈log.writes,write.key=key ∧ write.tags=tags ∧ write.subject.isSome=true ∧
    addTags write.key write.tags write.before=.ok write.after

/-- A call that is no tag write logs none. -/
theorem watch_writes {call : Call Command} (h : ∀ key tags,call≠.store (.addTags key tags))
    (r : Except PyExc call.Ret) (before after : Db) (log : TagLog) :
    (log.watch call r before after).writes=log.writes := by
  cases call with
  | store call =>
    cases call with
    | addTags key tags => exact absurd rfl (h key tags)
    | _ => rfl
  | _ => rfl

/-- A turn of the caller keeps the log. -/
theorem Logged.step {t t' : TagTrace} {call : Call Command} {r : Except PyExc call.Ret} {w w' : World} {log : TagLog}
    (h : Logged key tags t log) (hturn : Tagging key tags t call r t') (hcall : Answers locks faults caller call w r w') :
    Logged key tags t' (log.watch call r w.db w'.db) := by
  obtain ⟨rfl,hguard⟩ := hturn
  have htrace : (log.watch call r w.db w'.db).trace=watchTags call r t := congrArg (watchTags call r) h.trace
  by_cases htag : ∃ key' tags',call=.store (.addTags key' tags')
  · obtain ⟨key',tags',rfl⟩ := htag
    obtain ⟨hkey,htags,hsubject⟩ := hguard key' tags' rfl
    cases hcall with
    | fault _ _ => exact ⟨htrace,h.requests,h.writes⟩
    | reject _ _ => exact ⟨htrace,h.requests,h.writes⟩
    | commit now ht =>
      refine ⟨htrace,?_,fun write hwrite => ?_⟩
      · simp only [TagLog.watch,watchTags,List.map_append,h.requests,List.map_cons,List.map_nil,h.trace]
      · rcases List.mem_append.mp hwrite with hwrite | hwrite
        · exact h.writes write hwrite
        · rw [List.mem_singleton.mp hwrite]
          exact ⟨hkey,htags,h.trace ▸ hsubject,commit_ok.mp ht⟩
  · have hother : ∀ key' tags',call≠.store (.addTags key' tags') := fun key' tags' heq => htag ⟨key',tags',heq⟩
    refine ⟨htrace,?_,?_⟩
    · rw [watch_writes hother,(quiet_call hother r t).1]
      exact h.requests
    · rw [watch_writes hother]
      exact h.writes

/-- The caller's turns; the other threads do what they like. -/
def taggingTurns (caller : ThreadId) (key : ExecutionKey) (tags : List PyStr) (thread : ThreadId) :
    Turns (Call Command) Call.Ret PyExc TagTrace := fun t call r t' =>
  thread=caller → Tagging key tags t call r t'

/-- Every schedule keeps the caller's log. -/
theorem keeps_logged : PoolKeeps (taggingTurns caller key tags) (loggedAnswers locks faults caller)
    fun phases s => Logged key tags (phases caller) s.2 := by
  intro phases thread call r t' s s' hturn hsem h
  obtain ⟨hcall,hlog⟩ := hsem
  by_cases hthread : thread=caller
  · subst hthread
    rw [if_pos rfl] at hlog
    rw [hlog,Function.update_self]
    exact h.step (hturn rfl) hcall
  · rw [if_neg hthread] at hlog
    rw [hlog,Function.update_of_ne (Ne.symm hthread)]
    exact h

/-- Any program makes the turns of a thread that is not the caller. -/
theorem follows_other {α : Type} {thread : ThreadId} (h : thread≠caller) (p : ServiceM Command α) (t : TagTrace) :
    Follows (taggingTurns caller key tags thread) (fun _ _ => True) p t := by
  induction p generalizing t with
  | done r => exact trivial
  | call op next ih => exact fun r => ⟨t,fun heq => absurd heq h,ih r t⟩

/-- Where the writes of a log are all tag transactions, they follow exactly when they are on target. -/
theorem Logged.follows_iff {t : TagTrace} {log : TagLog} (h : Logged key tags t log) :
    (∀ write∈log.writes,write.Follows) ↔ ∀ write∈log.writes,write.OnTarget := by
  refine forall₂_congr fun write hwrite => exists_congr fun id => and_congr_right fun _ => ?_
  exact attaches_iff (h.writes write hwrite).2.2.2

end Schedules

/-- The smallest service, with one tag, recording failures too. -/
def taggedService : CachedMlExecutionService SmallestCommand :=
  { smallestService with executionTags := fun _ => [pyStr "t"], shouldPersist := fun _ _ => true }

/-- A first recording without tags, and a refresh of its key with one. -/
def recordAndRefresh (thread : ThreadId) : ServiceM SmallestCommand MlExecution :=
  if thread=0 then execute smallestService positional ⟨.cache,.cache⟩
  else execute taggedService positional ⟨.refresh,.cache⟩

/-- Answer a call of the thread, whose client ends with this code, and log the calls of the second. -/
def loggedCall (thread : ThreadId) (exitCode : ℤ) :
    ThreadId × Handler (Call SmallestCommand) Call.Ret PyExc (World × TagLog) :=
  (thread,fun call s => (answerWith .exclusive thread 0 (.ok { exitCode := exitCode }) ⟨thread⟩ call s.1).map fun answer =>
    (answer.1,answer.2,if thread=1 then s.2.watch call answer.1 s.1.db answer.2.db else s.2))

/-- It answers as the ports may. -/
theorem loggedCall_respects (thread : ThreadId) (exitCode : ℤ) : (loggedCall thread exitCode).2.Respects
    (loggedAnswers .exclusive (noFaults : Faults SmallestCommand) 1 thread) := by
  intro call s r s' h
  obtain ⟨answer,hanswer,heq⟩ := Option.map_eq_some_iff.mp h
  cases heq
  exact ⟨answerWith_respects _ _ _ call s.1 _ _ hanswer,rfl⟩

/-- The recording, and then the refresh, whose client ends with this code. -/
def refreshed (exitCode : ℤ) :
    Pool (Call SmallestCommand) Call.Ret PyExc (fun _ : ThreadId => MlExecution) (World × TagLog) :=
  drivePool (List.replicate 30 (loggedCall 0 0) ++ List.replicate 30 (loggedCall 1 exitCode))
    (recordAndRefresh,(World.empty,TagLog.blank))

/-- It is a run. -/
theorem refreshed_reach (exitCode : ℤ) : PoolReach (loggedAnswers .exclusive (noFaults : Faults SmallestCommand) 1)
    (recordAndRefresh,(World.empty,TagLog.blank)) (refreshed exitCode) := by
  refine drivePool_reach _ (fun entry hentry => ?_) _
  rcases List.mem_append.mp hentry with hmem | hmem
  · rw [List.eq_of_mem_replicate hmem]
    exact loggedCall_respects 0 0
  · rw [List.eq_of_mem_replicate hmem]
    exact loggedCall_respects 1 exitCode

end GenericMlCache.TaggedRuns
