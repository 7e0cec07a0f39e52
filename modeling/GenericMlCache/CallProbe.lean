import GenericMlCache.AnsweredRuns
import GenericMlCache.KeySoundness
import GenericMlCache.MlExecutionCommands
import GenericMlCache.StoreSoundness

/-!
# Probes and runs

When the forecast of a probe agrees with a CACHE run of the same inputs from
the same store. Both derive a key and consult the store by separate paths: the
probe builds a managed identity and looks at the row, the run dispatches over
four kinds and hydrates the blobs.
-/

namespace GenericMlCache.CallProbe

open CallProgram CallAutomaton PythonText ExecutionModel SqliteStore ExecutionRepository ExecutionQueries
  RepositoryCalls ServicePorts CachedExecution CallIdentityKeys MlExecutionCommands ServiceOperations
  StoreSoundness UndisturbedRuns AnsweredRuns

/-- A forecast and a run agree: on the key, on whether the run is answered from
the store, and on whether it bypasses the cache. -/
structure Agree (forecast : Except PyExc ProbeReport) (identity : Except PyExc CallIdentity)
    (r : Except PyExc MlExecution) (t : RunTrace) : Prop where
  /-- They have one key. -/
  key : ∀ key,(∃ report,forecast=.ok report ∧ report.executionKey=key) ↔
    ∃ i,identity=.ok i ∧ i.generateKey=key
  /-- A forecast hit is an answered run. -/
  hit : (∃ report,forecast=.ok report ∧ report.status=.hit) ↔ Answered r t
  /-- A forecast bypass is a run that bypasses. -/
  nonCacheable : (∃ report,forecast=.ok report ∧ report.status=.nonCacheable) ↔ Bypassed t

section Calls
variable (sha256 : Bytes → Digest) (fileFingerprint : PyStr → Except PyExc PyStr) (maxSize : Option ℕ)
  (fingerprint : Bytes → Digest) (w : World) (command : RunMlExecutionCommand)

/-- Every probe agrees with every run of the same inputs from the same store. -/
def ProbeAgrees : Prop :=
  ∀ forecast w',Ends (Answers .exclusive noFaults 0) (probe sha256 fileFingerprint command.probeCommand) w
      forecast w' →
    ∀ r s',Ends (watchedRun RunMlExecutionCommand .exclusive 0)
        (execute (runMlExecutionService sha256 fileFingerprint maxSize) fingerprint command)
        (w,RunTrace.blank) r s' →
      Agree forecast (runIdentity sha256 fileFingerprint command) r s'.2

/-- A run of the command may replay the row. -/
structure Replayable (row : ExecutionRow) : Prop where
  /-- The command stores output. -/
  depth : command.persistenceDepth.storesOutput=true
  /-- Every blob the row names is there. -/
  blobs : ∀ a∈row.artifacts,∀ blobKey,a.blobKey=.value blobKey → (w.blobs.get blobKey).isSome=true
  /-- Its tags can be bound. -/
  tags : TagsBind (runMlExecutionService sha256 fileFingerprint maxSize) command
  /-- Input that the run would back-fill can be bound. -/
  input : command.persistenceDepth.storesInput=true → row.artifacts.any ArtifactRow.isInput=false →
    InputBinds (runMlExecutionService sha256 fileFingerprint maxSize) command

/-- The inputs and the store for which a probe forecasts right. -/
def ProbeHolds : Prop :=
  ((∃ e,probeIdentity sha256 fileFingerprint command.probeCommand=.error e) ∧
      ∃ e,runIdentity sha256 fileFingerprint command=.error e) ∨
    command.executionKind=.localManaged ∧ (command.isUncacheable=true ∨
      ∀ identity row,runIdentity sha256 fileFingerprint command=.ok identity →
        w.db.currentRow identity.generateKey=some row →
          Replayable sha256 fileFingerprint maxSize w command row)

variable {sha256 fileFingerprint maxSize fingerprint w command}

/-- For a managed call both paths build the same identity. -/
theorem probeIdentity_eq (h : command.executionKind=.localManaged) :
    probeIdentity sha256 fileFingerprint command.probeCommand=
      runIdentity sha256 fileFingerprint command := by
  have hkeyed : keyedIdentity sha256 fileFingerprint command=
      (buildCallIdentity sha256 fileFingerprint command.toKeyedCallInputs).map .managed := by
    unfold keyedIdentity
    rw [h]
  unfold probeIdentity runIdentity
  rw [hkeyed]
  show (buildCallIdentity sha256 fileFingerprint command.toKeyedCallInputs >>= _)=_
  cases buildCallIdentity sha256 fileFingerprint command.toKeyedCallInputs <;> rfl

/-- An identity with a key has bytes under it. -/
theorem preimage_of_withKey {identity : KeyedIdentity} {i : CallIdentity}
    (h : withKey sha256 identity=.ok i) : ∃ bytes,identity.preimage=some bytes ∧
      i.generateKey=⟨sha256 bytes⟩ := by
  unfold withKey KeyedIdentity.generateKey at h
  cases hbytes : identity.preimage with
  | none =>
    rw [hbytes] at h
    exact nomatch h
  | some bytes =>
    rw [hbytes] at h
    cases h
    exact ⟨bytes,rfl,rfl⟩

/-- The identity of a run has the kind of its command. -/
theorem kind_keyedIdentity {identity : KeyedIdentity}
    (h : keyedIdentity sha256 fileFingerprint command=.ok identity) :
    identity.kind=command.executionKind := by
  unfold keyedIdentity at h
  split at h
  next hkind =>
    cases hbuild : buildCallIdentity sha256 fileFingerprint command.toKeyedCallInputs with
    | error e =>
      rw [hbuild] at h
      exact nomatch h
    | ok i =>
      rw [hbuild] at h
      cases h
      exact hkind.symm
  next hkind =>
    obtain ⟨_,_,h⟩ := ok_of_bind h
    cases h
    exact hkind.symm
  next hkind =>
    cases h
    exact hkind.symm
  next hkind =>
    obtain ⟨_,_,h⟩ := ok_of_bind h
    obtain ⟨_,_,h⟩ := ok_of_bind h
    obtain ⟨_,_,h⟩ := ok_of_bind h
    cases h
    exact hkind.symm

/-- Where no two identities collide, only a managed call has the key of its probe. -/
theorem managed_of_key (hsha : Function.Injective sha256) {i j : CallIdentity}
    (hi : probeIdentity sha256 fileFingerprint command.probeCommand=.ok i)
    (hj : runIdentity sha256 fileFingerprint command=.ok j) (h : i.generateKey=j.generateKey) :
    command.executionKind=.localManaged := by
  obtain ⟨managed,_,hi⟩ := ok_of_bind hi
  obtain ⟨identity,hidentity,hj⟩ := ok_of_bind hj
  obtain ⟨bytes,hbytes,hki⟩ := preimage_of_withKey hi
  obtain ⟨bytes',hbytes',hkj⟩ := preimage_of_withKey hj
  rw [hki,hkj] at h
  have hsame : bytes=bytes' := hsha (congrArg ExecutionKey.digest h)
  subst hsame
  have hkind := KeyedIdentity.kind_of_preimage hbytes hbytes'
  rw [← kind_keyedIdentity hidentity,← hkind]
  rfl

/-- What a probe of a well-formed store forecasts. -/
def forecast (sha256 : Bytes → Digest) (fileFingerprint : PyStr → Except PyExc PyStr) (db : Db)
    (command : ProbeCommand) : Except PyExc ProbeReport := do
  let identity ← probeIdentity sha256 fileFingerprint command
  if command.isUncacheable=true then
    return { status := .nonCacheable, executionKey := identity.generateKey }
  else do
    let found ← findCurrent identity.generateKey db
    match found with
    | none => return { status := .miss, executionKey := identity.generateKey }
    | some current =>
      return { status := .hit, executionKey := identity.generateKey, execution := some current }

/-- A probe reports its forecast and changes nothing. -/
theorem probe_ends {probed : ProbeCommand} {r : Except PyExc ProbeReport} {w' : World}
    (h : Ends (Answers .exclusive noFaults 0) (probe sha256 fileFingerprint probed) w r w') :
    r=forecast sha256 fileFingerprint w.db probed ∧ w'=w := by
  suffices hsafe : Safe (Answers .exclusive noFaults 0) (fun w' => w'=w)
      (fun r _ => r=forecast sha256 fileFingerprint w.db probed)
      (probe sha256 fileFingerprint probed) w from ⟨hsafe.result h,hsafe.state h⟩
  unfold probe forecast
  cases hidentity : probeIdentity sha256 fileFingerprint probed with
  | error e => exact Safe.raise rfl rfl
  | ok identity =>
    show Safe _ _ (fun r _ => r=if probed.isUncacheable=true then _ else _) (if _ then _ else _) w
    by_cases hun : probed.isUncacheable=true
    · rw [if_pos hun,if_pos hun]
      exact Safe.pure rfl rfl
    · rw [if_neg hun,if_neg hun]
      refine Safe.seq safe_findCurrent (fun found w' hw hr => ?_) fun e w' hw hr => ?_
      · subst hw
        rw [← hr]
        cases found <;> exact Safe.pure rfl rfl
      · subst hw
        rw [← hr]
        rfl

/-- A probe whose identity can be built reports its key. -/
theorem forecast_key {db : Db} {probed : ProbeCommand} {i : CallIdentity}
    (hread : Readable i.generateKey db) (hi : probeIdentity sha256 fileFingerprint probed=.ok i) :
    ∃ report,forecast sha256 fileFingerprint db probed=.ok report ∧ report.executionKey=i.generateKey := by
  unfold forecast
  rw [hi]
  show ∃ report,(if probed.isUncacheable=true then
    (pure { status := .nonCacheable, executionKey := i.generateKey } : Except PyExc ProbeReport)
    else _)=.ok report ∧ report.executionKey=i.generateKey
  by_cases hun : probed.isUncacheable=true
  · rw [if_pos hun]
    exact ⟨_,rfl,rfl⟩
  · rw [if_neg hun]
    obtain ⟨found,hfound⟩ := hread.find
    rw [hfound]
    cases found <;> exact ⟨_,rfl,rfl⟩

/-- A run whose identity cannot be built raises before any call. -/
theorem run_refused {e : PyExc} (h : runIdentity sha256 fileFingerprint command=.error e)
    {r : Except PyExc MlExecution} {s' : World × RunTrace}
    (hrun : Ends (watchedRun RunMlExecutionCommand .exclusive 0)
      (execute (runMlExecutionService sha256 fileFingerprint maxSize) fingerprint command)
      (w,RunTrace.blank) r s') : r=.error e ∧ s'.2=RunTrace.blank := by
  have hidentity : (runMlExecutionService sha256 fileFingerprint maxSize).buildIdentity command=.error e := h
  unfold execute at hrun
  rw [hidentity] at hrun
  obtain ⟨hr,hs⟩ := Reach.of_done hrun
  exact ⟨Prog.done.inj hr,by rw [hs]⟩

section Resolved
variable {identity : CallIdentity} {r : Except PyExc MlExecution} {s' : World × RunTrace}
  (hidentity : runIdentity sha256 fileFingerprint command=.ok identity) (hmode : command.cacheMode=.cache)
  (hrun : Ends (watchedRun RunMlExecutionCommand .exclusive 0)
    (execute (runMlExecutionService sha256 fileFingerprint maxSize) fingerprint command)
    (w,RunTrace.blank) r s')
include hidentity hmode hrun

/-- An uncacheable run bypasses the cache. -/
theorem run_uncacheable (h : command.isUncacheable=true) : Bypassed s'.2 := by
  have hbuild : (runMlExecutionService sha256 fileFingerprint maxSize).buildIdentity command=.ok identity :=
    hidentity
  have hun : (runMlExecutionService sha256 fileFingerprint maxSize).isUncacheable command=true := h
  have hcache : (runMlExecutionService sha256 fileFingerprint maxSize).cacheMode command≠.offline := by
    show command.cacheMode≠.offline
    rw [hmode]
    decide
  unfold execute at hrun
  rw [hbuild,ofExcept_ok_bind,if_pos hun] at hrun
  unfold runUncacheable at hrun
  rw [if_neg hcache] at hrun
  exact (follows_runUnstored _ fingerprint identity command).watched hrun

/-- A cacheable run does not. -/
theorem run_cacheable (h : command.isUncacheable=false) : ¬Bypassed s'.2 := by
  have hbuild : (runMlExecutionService sha256 fileFingerprint maxSize).buildIdentity command=.ok identity :=
    hidentity
  have hun : ¬(runMlExecutionService sha256 fileFingerprint maxSize).isUncacheable command=true := by
    show ¬command.isUncacheable=true
    rw [h]
    exact Bool.false_ne_true
  unfold execute at hrun
  rw [hbuild,ofExcept_ok_bind,if_neg hun] at hrun
  exact (follows_cacheable _ fingerprint hmode identity).watched hrun

/-- A metered run is not answered from the store. -/
theorem run_metered (h : command.isUncacheable=false)
    (hdepth : ¬command.persistenceDepth.storesOutput=true) : ¬Answered r s'.2 := by
  have hbuild : (runMlExecutionService sha256 fileFingerprint maxSize).buildIdentity command=.ok identity :=
    hidentity
  have hun : ¬(runMlExecutionService sha256 fileFingerprint maxSize).isUncacheable command=true := by
    show ¬command.isUncacheable=true
    rw [h]
    exact Bool.false_ne_true
  unfold execute at hrun
  rw [hbuild,ofExcept_ok_bind,if_neg hun] at hrun
  exact not_answered_of_called ((follows_metered hdepth hmode RunTrace.blank).watched hrun)

/-- Nor is a run of a key without a current row. -/
theorem run_absent (h : command.isUncacheable=false)
    (hrow : w.db.currentRow identity.generateKey=none) : ¬Answered r s'.2 := by
  by_cases hdepth : command.persistenceDepth.storesOutput=true
  · exact (@safe_execute _ .exclusive 0 (runMlExecutionService sha256 fileFingerprint maxSize) fingerprint
      command identity w _ _ (fun _ _ _ _ hs => hs) hidentity h hmode hdepth (safe_run_absent hrow)).result hrun
  · exact run_metered hidentity hmode hrun h hdepth

/-- A cacheable run is answered from the store exactly where it may replay the current row. -/
theorem run_answered_iff (hwf : WellFormed w.db) (hone : w.db.AtMostOneCurrent)
    (h : command.isUncacheable=false) {row : ExecutionRow}
    (hrow : w.db.currentRow identity.generateKey=some row) :
    Answered r s'.2 ↔ Replayable sha256 fileFingerprint maxSize w command row := by
  obtain ⟨current,hload,hfound⟩ := findCurrent_of_row hwf hrow
  have hnames := (loadExecution_ok hload).2.1
  have hinputs := inputPersisted_of_load hload
  have hsafe := fun {Q} hdepth => @safe_execute _ .exclusive 0
    (runMlExecutionService sha256 fileFingerprint maxSize) fingerprint command identity w _ Q
    (fun _ _ _ _ hs => hs) hidentity h hmode hdepth
  constructor
  · intro hanswered
    by_cases hdepth : command.persistenceDepth.storesOutput=true
    · have hblobs : ∀ a∈current.artifacts,(w.blobs.get a.blobKey).isSome=true := by
        by_contra hne
        push Not at hne
        obtain ⟨a,ha,hget⟩ := hne
        have hmissing : ∃ a∈current.artifacts,w.blobs.get a.blobKey=none := ⟨a,ha,by simpa using hget⟩
        exact (hsafe hdepth (safe_run_missing hone hfound hmissing)).result hrun hanswered
      have hbinds : TagsBind (runMlExecutionService sha256 fileFingerprint maxSize) command ∧
          (command.persistenceDepth.storesInput=true → current.inputPersisted=false →
            InputBinds (runMlExecutionService sha256 fileFingerprint maxSize) command) := by
        by_contra hne
        refine (hsafe hdepth (safe_run_refused hrow hload hblobs ?_)).result hrun hanswered
        by_cases htags : TagsBind (runMlExecutionService sha256 fileFingerprint maxSize) command
        · refine Or.inr ?_
          by_contra hinput
          refine hne ⟨htags,fun hstores hnone => ?_⟩
          by_contra hbind
          exact hinput ⟨hstores,hnone,hbind⟩
        · exact Or.inl htags
      refine ⟨hdepth,fun a ha blobKey hkey => ?_,hbinds.1,fun hstores hnone => ?_⟩
      · rw [hnames] at ha
        obtain ⟨artifact,hartifact,rfl⟩ := List.mem_map.mp ha
        cases hkey
        exact hblobs artifact hartifact
      · exact hbinds.2 hstores (hinputs.trans hnone)
    · exact absurd hanswered (run_metered hidentity hmode hrun h hdepth)
  · intro hreplay
    have hblobs : ∀ a∈current.artifacts,(w.blobs.get a.blobKey).isSome=true := fun a ha =>
      hreplay.blobs (artifactRow a) (by rw [hnames]; exact List.mem_map_of_mem ha) a.blobKey rfl
    obtain ⟨⟨served,hserved,_⟩,hcalled⟩ := (hsafe hreplay.depth (safe_run_healthy hfound
      (Readable.of_wellFormed hwf _) hblobs hreplay.tags
      fun hstores hnone => hreplay.input hstores (hinputs.symm.trans hnone))).result hrun
    exact ⟨⟨_,hserved⟩,hcalled⟩

end Resolved

/-- A managed call that is not cacheable on one path is not on the other. -/
theorem isUncacheable_probe (h : command.executionKind=.localManaged) :
    command.probeCommand.isUncacheable=command.isUncacheable := by
  unfold RunMlExecutionCommand.isUncacheable
  rw [h]
  rfl

/-- The forecast of a managed call agrees with its run exactly where the run
may replay what the forecast promises. -/
theorem agree_managed (hwf : WellFormed w.db) (hone : w.db.AtMostOneCurrent)
    (hkind : command.executionKind=.localManaged) (hmode : command.cacheMode=.cache)
    {identity : CallIdentity} (hidentity : runIdentity sha256 fileFingerprint command=.ok identity)
    {r : Except PyExc MlExecution} {s' : World × RunTrace}
    (hrun : Ends (watchedRun RunMlExecutionCommand .exclusive 0)
      (execute (runMlExecutionService sha256 fileFingerprint maxSize) fingerprint command)
      (w,RunTrace.blank) r s') :
    Agree (forecast sha256 fileFingerprint w.db command.probeCommand)
        (runIdentity sha256 fileFingerprint command) r s'.2 ↔
      (command.isUncacheable=true ∨ ∀ row,w.db.currentRow identity.generateKey=some row →
        Replayable sha256 fileFingerprint maxSize w command row) := by
  have hkey : ∀ {report : ProbeReport},report.executionKey=identity.generateKey →
      ∀ key,(∃ report',(.ok report : Except PyExc ProbeReport)=.ok report' ∧ report'.executionKey=key) ↔
        ∃ i,runIdentity sha256 fileFingerprint command=.ok i ∧ i.generateKey=key := by
    intro report hreport key
    rw [hidentity]
    constructor
    · rintro ⟨_,hok,rfl⟩
      cases hok
      exact ⟨_,rfl,hreport.symm⟩
    · rintro ⟨_,hok,rfl⟩
      cases hok
      exact ⟨_,rfl,hreport⟩
  have hprobe : probeIdentity sha256 fileFingerprint command.probeCommand=.ok identity :=
    (probeIdentity_eq hkind).trans hidentity
  unfold forecast
  rw [hprobe]
  show Agree (if command.probeCommand.isUncacheable=true then _ else _) _ _ _ ↔ _
  rw [isUncacheable_probe hkind]
  by_cases hun : command.isUncacheable=true
  · have hbypassed := run_uncacheable hidentity hmode hrun hun
    rw [if_pos hun]
    refine ⟨fun _ => Or.inl hun,fun _ => ⟨hkey rfl,?_,?_⟩⟩
    · refine iff_of_false ?_ fun hanswered => ?_
      · rintro ⟨report,hok,hstatus⟩
        cases hok
        exact nomatch hstatus
      · exact nomatch hanswered.2.symm.trans hbypassed.1
    · exact iff_of_true ⟨_,rfl,rfl⟩ hbypassed
  · have hcacheable : command.isUncacheable=false := by simpa using hun
    have hbypassed := run_cacheable hidentity hmode hrun hcacheable
    rw [if_neg hun]
    cases hrow : w.db.currentRow identity.generateKey with
    | none =>
      have habsent := run_absent hidentity hmode hrun hcacheable hrow
      rw [findCurrent_of_none hrow]
      refine iff_of_true ⟨hkey rfl,iff_of_false ?_ habsent,iff_of_false ?_ hbypassed⟩
        (Or.inr fun row hsome => nomatch hsome)
      · rintro ⟨report,hok,hstatus⟩
        cases hok
        exact nomatch hstatus
      · rintro ⟨report,hok,hstatus⟩
        cases hok
        exact nomatch hstatus
    | some row =>
      have hanswered := run_answered_iff hidentity hmode hrun hwf hone hcacheable hrow
      obtain ⟨current,_,hfound⟩ := findCurrent_of_row hwf hrow
      rw [hfound]
      constructor
      · intro hagree
        refine Or.inr fun row' hsome => ?_
        cases hsome
        exact hanswered.mp (hagree.hit.mp ⟨_,rfl,rfl⟩)
      · rintro (hfalse | hreplay)
        · exact absurd hfalse hun
        · refine ⟨hkey rfl,iff_of_true ⟨_,rfl,rfl⟩ (hanswered.mpr (hreplay row rfl)),?_⟩
          refine iff_of_false ?_ hbypassed
          rintro ⟨report,hok,hstatus⟩
          cases hok
          exact nomatch hstatus

/-- In every reachable store, every probe agrees with every CACHE run of the same
inputs exactly where neither identity can be built, or the call is a managed one
that is uncacheable or may replay what is current. -/
theorem probe_agrees_iff {faults : Faults RunMlExecutionCommand} (hsha : Function.Injective sha256)
    (hreach : Reachable faults fingerprint w) (hmode : command.cacheMode=.cache) :
    ProbeAgrees sha256 fileFingerprint maxSize fingerprint w command ↔
      ProbeHolds sha256 fileFingerprint maxSize w command := by
  have hsound := reachable_sound hreach
  have hlocks : OwnLocks 0 w := by
    intro holding hmem
    rw [hreach.held] at hmem
    exact (List.not_mem_nil hmem).elim
  constructor
  · intro hagrees
    obtain ⟨f,w',hprobe⟩ := @ends_exists _ noFaults 0 _ .exclusive
      (probe sha256 fileFingerprint command.probeCommand) w hlocks
    obtain ⟨r,s',hrun⟩ := @ends_exists_watched _ noFaults 0 _ _ .exclusive
      (execute (runMlExecutionService sha256 fileFingerprint maxSize) fingerprint command) w hlocks watchRun
      RunTrace.blank
    have hagree := hagrees f w' hprobe r s' hrun
    obtain ⟨rfl,_⟩ := probe_ends hprobe
    cases hi : probeIdentity sha256 fileFingerprint command.probeCommand with
    | error e =>
      refine Or.inl ⟨⟨e,hi⟩,?_⟩
      cases hj : runIdentity sha256 fileFingerprint command with
      | error e' => exact ⟨e',rfl⟩
      | ok j =>
        obtain ⟨report,hreport,_⟩ := (hagree.key j.generateKey).mpr ⟨j,hj,rfl⟩
        unfold forecast at hreport
        rw [hi] at hreport
        exact nomatch hreport
    | ok i =>
      have hreports := forecast_key (Readable.of_wellFormed hsound.wellFormed i.generateKey) hi
      obtain ⟨j,hj,hsame⟩ := (hagree.key i.generateKey).mp hreports
      have hkind := managed_of_key hsha hi hj hsame.symm
      refine Or.inr ⟨hkind,?_⟩
      rcases (agree_managed hsound.wellFormed hsound.oneCurrent hkind hmode hj hrun).mp hagree with
        hun | hreplay
      · exact Or.inl hun
      · refine Or.inr fun identity row hidentity hrow => ?_
        cases hidentity.symm.trans hj
        exact hreplay row hrow
  · intro hholds f w' hprobe r s' hrun
    obtain ⟨rfl,_⟩ := probe_ends hprobe
    cases hj : runIdentity sha256 fileFingerprint command with
    | error e =>
      obtain ⟨rfl,hblank⟩ := run_refused hj hrun
      have hi : ∃ e,probeIdentity sha256 fileFingerprint command.probeCommand=.error e := by
        rcases hholds with ⟨hi,_⟩ | ⟨hkind,_⟩
        · exact hi
        · exact ⟨e,(probeIdentity_eq hkind).trans hj⟩
      obtain ⟨e',hi⟩ := hi
      have hnone : ∀ report,forecast sha256 fileFingerprint w.db command.probeCommand≠.ok report := by
        intro report hreport
        unfold forecast at hreport
        rw [hi] at hreport
        exact nomatch hreport
      refine ⟨fun key => iff_of_false ?_ ?_,iff_of_false ?_ ?_,iff_of_false ?_ ?_⟩
      · exact fun ⟨report,hreport,_⟩ => hnone report hreport
      · exact fun ⟨i,hi,_⟩ => nomatch hi
      · exact fun ⟨report,hreport,_⟩ => hnone report hreport
      · exact fun ⟨⟨a,ha⟩,_⟩ => nomatch ha
      · exact fun ⟨report,hreport,_⟩ => hnone report hreport
      · rw [hblank]
        exact fun hbypassed => nomatch hbypassed.1
    | ok j =>
      rcases hholds with ⟨_,e,he⟩ | ⟨hkind,hrest⟩
      · exact nomatch hj.symm.trans he
      · rw [← hj]
        refine (agree_managed hsound.wellFormed hsound.oneCurrent hkind hmode hj hrun).mpr ?_
        exact hrest.imp id fun hreplay row hrow => hreplay j row hj hrow

end Calls

/-- A call of one prompt, of any kind. -/
def promptCall (kind : ExecutionKind) : RunMlExecutionCommand where
  client := pyStr "openai"
  model := pyStr "m"
  prompt := pyStr "p"
  executionKind := kind

/-- The service, with the fingerprint without collisions for its checksums. -/
abbrev promptService : CachedMlExecutionService RunMlExecutionCommand :=
  runMlExecutionService positional noFiles none

/-- Answers without a fault: the client returns one octet, and one id is minted. -/
def promptAnswers : List (Handler (Call RunMlExecutionCommand) Call.Ret PyExc World) :=
  List.replicate 30 (answerWith .exclusive 0 0 (.ok { exitCode := 0, stdout := pyStr "o" }) ⟨7⟩)

/-- The store after the first run of a call. -/
def recordedStore (kind : ExecutionKind) : World :=
  World.released (drive promptAnswers (program positional (.execute promptService (promptCall kind)))
    World.empty).2

/-- It is reachable. -/
theorem recordedStore_reachable (kind : ExecutionKind) :
    Reachable (noFaults : Faults RunMlExecutionCommand) positional (recordedStore kind) := by
  refine .run .start ⟨_,rfl⟩ (drive_reach promptAnswers (fun handler hmem => ?_) _ _) trivial
  rw [List.eq_of_mem_replicate hmem]
  exact answerWith_respects _ _ _

/-- After its first run, a probe of a managed call agrees with its second one. -/
theorem probe_agrees_iff_recorded :
    ProbeAgrees positional noFiles none positional (recordedStore .localManaged) (promptCall .localManaged) := by
  refine (probe_agrees_iff positional_injective (recordedStore_reachable .localManaged) rfl).mpr
    (Or.inr ⟨rfl,Or.inr fun identity row hidentity hrow => ⟨rfl,?_,?_,fun h => nomatch h⟩⟩)
  · have hall : ((runIdentity positional noFiles (promptCall .localManaged)).toOption.bind fun i =>
        (recordedStore .localManaged).db.currentRow i.generateKey).all (fun row => row.artifacts.all fun a =>
          match a.blobKey with
          | .value blobKey => ((recordedStore .localManaged).blobs.get blobKey).isSome
          | .malformed _ => true)=true := by decide +kernel
    rw [hidentity] at hall
    simp only [Except.toOption,Option.bind_some,hrow,Option.all_some,List.all_eq_true] at hall
    intro a ha blobKey hkey
    have hone := hall a ha
    rw [hkey] at hone
    exact hone
  · show (normalizeTags []).forM bindText=.ok ()
    unfold normalizeTags
    simp
    rfl

/-- The second run of an API call, which is answered from the store. -/
def secondRun : ServiceM RunMlExecutionCommand MlExecution × (World × RunTrace) :=
  drive (promptAnswers.map fun handler => handler.watched watchRun)
    (execute promptService positional (promptCall .api)) (recordedStore .api,RunTrace.blank)

/-- A probe of a recorded API call reports a miss, and its run is answered from the store. -/
theorem probe_agrees_fails : ¬ ∀ (w : World) (command : RunMlExecutionCommand),
    Reachable (noFaults : Faults RunMlExecutionCommand) positional w → command.cacheMode=.cache →
      ProbeAgrees positional noFiles none positional w command := by
  intro h
  have hlocks : OwnLocks 0 (recordedStore .api) := fun holding hmem => nomatch hmem
  obtain ⟨f,w',hprobe⟩ := @ends_exists _ noFaults 0 _ .exclusive
    (probe positional noFiles (promptCall .api).probeCommand) (recordedStore .api) hlocks
  have hrun : Reach (watchedRun RunMlExecutionCommand .exclusive 0)
      (execute promptService positional (promptCall .api)) (recordedStore .api,RunTrace.blank) secondRun.1
      secondRun.2 := drive_watched _ (fun handler hmem => by
    rw [List.eq_of_mem_replicate hmem]
    exact answerWith_respects _ _ _) watchRun _ _
  have hvalue : secondRun.1.value.isSome=true := by decide +kernel
  obtain ⟨served,hserved⟩ := Option.isSome_iff_exists.mp hvalue
  have hdone : secondRun.1=.done (.ok served) := Prog.value_eq_some.mp hserved
  rw [hdone] at hrun
  have hanswered : Answered (.ok served : Except PyExc MlExecution) secondRun.2.2 :=
    ⟨⟨served,rfl⟩,by decide +kernel⟩
  obtain ⟨report,hreport,hstatus⟩ :=
    (h _ _ (recordedStore_reachable .api) rfl f w' hprobe _ _ hrun).hit.mpr hanswered
  obtain ⟨rfl,_⟩ := probe_ends hprobe
  have hmiss : (forecast positional noFiles (recordedStore .api).db
      (promptCall .api).probeCommand).toOption.map (·.status)=some .miss := by decide +kernel
  rw [hreport] at hmiss
  exact nomatch hstatus.symm.trans (Option.some.inj hmiss)

end GenericMlCache.CallProbe
