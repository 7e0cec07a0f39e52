import GenericMlCache.DocumentSizes
import GenericMlCache.EvictedQuota

/-!
# What a purge report tells

A purge report counts the blobs that the artifact rows of the purged keys
name, and adds up the sizes in those rows. It tells what was freed exactly
where every blob they name is there.
-/

namespace GenericMlCache.FreedBlobs

open CallProgram PythonText ExecutionModel SqliteStore ExecutionRepository ExecutionQueries RepositoryCalls
  ServicePorts ServiceOperations StorePurge StoreSoundness UndisturbedRuns PurgeRuns EvictedQuota DocumentSizes

/-- The blobs that were there and are gone. -/
def freedKeys (w w' : World) : List BlobKey := w.blobs.keys.filter fun key => (w'.blobs.get key).isNone

/-- The size of a blob. -/
def blobBytes (w : World) (key : BlobKey) : ℕ := ((w.blobs.get key).getD []).length

/-- The report tells the number of the blobs freed, and their sizes together. -/
structure TellsFreed (w w' : World) (report : PurgeReport) : Prop where
  /-- It tells the number of the blobs freed. -/
  blobsRemoved : report.blobsRemoved=(freedKeys w w').length
  /-- It tells their sizes together. -/
  bytesFreed : report.bytesFreed=((freedKeys w w').map (blobBytes w)).sum

section Freed
variable {fingerprint : Bytes → Digest} {w : World} {hard : Bool} {keys : List ExecutionKey}

/-- A blob is there where it can be read. -/
theorem mem_keys_iff {blobs : BlobStore} {key : BlobKey} : key∈blobs.keys ↔ (blobs.get key).isSome=true :=
  (AList.lookup_isSome (s := blobs)).symm

/-- The rows of a sound store are apart: a blob key names its execution. -/
theorem apart_of_sound (h : Sound fingerprint w) : Apart w.db := by
  intro row hrow row' hrow' a ha a' ha' blobKey hname hname'
  obtain ⟨digest,hkey⟩ := h.owned row hrow a ha
  obtain ⟨digest',hkey'⟩ := h.owned row' hrow' a' ha'
  have hsame : BlobKey.forExecution row.executionId digest=.forExecution row'.executionId digest' :=
    Column.value.inj ((hkey.symm.trans hname).trans (hname'.symm.trans hkey'))
  rw [w.db.row_unique hrow hrow' (BlobKey.forExecution.inj hsame).1]

/-- What is freed is what is listed and there. -/
theorem freedKeys_perm (hnodup : ((listedSizes hard keys w).map (·.1)).Nodup) :
    (freedKeys w { droppedAll hard keys w with blobs := removeSizes (listedSizes hard keys w) w.blobs }).Perm
      (((listedSizes hard keys w).map (·.1)).filter fun key => (w.blobs.get key).isSome) := by
  refine (List.perm_ext_iff_of_nodup (w.blobs.keys_nodup.filter _) (hnodup.filter _)).mpr fun key => ?_
  rw [List.mem_filter,List.mem_filter,mem_keys_iff]
  show _ ∧ ((removeSizes (listedSizes hard keys w) w.blobs).get key).isNone=true ↔ _
  rw [get_removeSizes]
  by_cases hlisted : key∈(listedSizes hard keys w).map (·.1)
  · simp [hlisted]
  · rw [if_neg hlisted]
    constructor
    · rintro ⟨hsome,hnone⟩
      rw [Option.isNone_iff_eq_none.mp hnone] at hsome
      exact nomatch hsome
    · rintro ⟨hmem,_⟩
      exact absurd hmem hlisted

/-- A listed blob that is there has the size listed. -/
theorem blobBytes_of_listed (hinj : Function.Injective fingerprint) (h : Sound fingerprint w)
    (hsized : SizedRows fingerprint w.db) (hall : ∀ key∈keys,Removable key w.db) {entry : BlobKey × Size}
    (hentry : entry∈listedSizes hard keys w) (hthere : (w.blobs.get entry.1).isSome=true) :
    blobBytes w entry.1=entry.2.summed := by
  obtain ⟨row,hrow,a,ha,hname,hsize⟩ := size_of_listed hall hentry
  obtain ⟨content,hkey,hlength⟩ := hsized row hrow a ha
  have hblob : entry.1=.forExecution row.executionId (fingerprint content) :=
    Column.value.inj (hname.symm.trans hkey)
  obtain ⟨stored,hget⟩ := Option.isSome_iff_exists.mp hthere
  have hstored : stored=content := hinj (h.addressed _ _ _ (hblob ▸ hget))
  unfold blobBytes
  rw [hget,hstored]
  show content.length=entry.2.summed
  rw [← hsize,hlength]
  rfl

/-- The report of a purge tells what it freed exactly where every blob named is there. -/
theorem tellsFreed_iff (hinj : Function.Injective fingerprint) (h : Sound fingerprint w)
    (hsized : SizedRows fingerprint w.db) (hall : ∀ key∈keys,Removable key w.db) :
    TellsFreed w { droppedAll hard keys w with blobs := removeSizes (listedSizes hard keys w) w.blobs }
      ⟨keys.length,totalSize (listedSizes hard keys w),(listedSizes hard keys w).length⟩ ↔
    ∀ blobKey,Named keys w.db blobKey → (w.blobs.get blobKey).isSome=true := by
  have hnodup : ((listedSizes hard keys w).map (·.1)).Nodup := nodup_listedSizes (apart_of_sound h) hall
  have hperm := freedKeys_perm hnodup
  have hnamed : ∀ blobKey,blobKey∈(listedSizes hard keys w).map (·.1) ↔ Named keys w.db blobKey :=
    mem_listedSizes hall
  constructor
  · rintro ⟨hcount,_⟩ blobKey hname
    have hlength : (((listedSizes hard keys w).map (·.1)).filter fun key => (w.blobs.get key).isSome).length=
        ((listedSizes hard keys w).map (·.1)).length := by
      rw [← hperm.length_eq,← hcount,List.length_map]
    exact List.length_filter_eq_length_iff.mp hlength blobKey ((hnamed blobKey).mpr hname)
  · intro hthere
    have hkept : (((listedSizes hard keys w).map (·.1)).filter fun key => (w.blobs.get key).isSome)=
        (listedSizes hard keys w).map (·.1) :=
      List.filter_eq_self.mpr fun key hkey => hthere key ((hnamed key).mp hkey)
    rw [hkept] at hperm
    refine ⟨?_,?_⟩
    · rw [hperm.length_eq,List.length_map]
    · have hsizes : ((listedSizes hard keys w).map (·.1)).map (blobBytes w)=(listedSizes hard keys w).map (·.2.summed) := by
        rw [List.map_map]
        refine List.map_congr_left fun entry hentry => ?_
        have hmem : entry.1∈(listedSizes hard keys w).map (·.1) := List.mem_map_of_mem hentry
        exact blobBytes_of_listed hinj h hsized hall hentry (hthere _ ((hnamed _).mp hmem))
      rw [(hperm.map (blobBytes w)).sum_eq,hsizes]
      rfl

end Freed

section Requests
variable {Command : Type} {faults : Faults Command} {fingerprint : Bytes → Digest} {w : World}

/-- A purge of a reachable store returns a report, which tells what was freed exactly where every blob
that an artifact row of its keys names is there. -/
theorem yields_tellsFreed (hinj : Function.Injective fingerprint) (hreach : Reachable faults fingerprint w)
    (registry : Registry) (thread : ThreadId) (request : PurgeRequest) : ∃ report w',
      Yields (Alone registry thread) (request.program : ServiceM Command PurgeReport) w (.ok report) w' ∧
      (TellsFreed w w' report ↔
        ∀ blobKey,Named (request.targets registry w.db) w.db blobKey → (w.blobs.get blobKey).isSome=true) := by
  have hsound := reachable_sound hreach
  have hown : OwnLocks thread w := by
    intro holding hmem
    rw [hreach.held] at hmem
    exact nomatch hmem
  have hyields : Yields (Alone registry thread) (request.program : ServiceM Command PurgeReport) w _ _ :=
    yields_request hown request
  have hsized := reachable_sized hreach
  have hall : ∀ key∈request.targets registry w.db,Removable key w.db := fun key _ => removable_of_sound hsound hsized key
  have hpurge : purgedKeys request.hard (request.targets registry w.db) w=_ := purgedKeys_of hall
  rw [hpurge] at hyields
  exact ⟨_,_,hyields,tellsFreed_iff hinj hsound hsized hall⟩

/-- Every purge and every eviction, run alone on a reachable store, reports what it freed exactly where
every blob that an artifact row of its keys names is there. -/
theorem purge_reports_freed_iff (hinj : Function.Injective fingerprint) (hreach : Reachable faults fingerprint w)
    (registry : Registry) (thread : ThreadId) (request : PurgeRequest) :
    (∃ report w',Yields (Alone registry thread) (request.program : ServiceM Command PurgeReport) w (.ok report) w' ∧
      TellsFreed w w' report) ↔
    ∀ blobKey,Named (request.targets registry w.db) w.db blobKey → (w.blobs.get blobKey).isSome=true := by
  obtain ⟨report,w',hyields,htells⟩ := yields_tellsFreed hinj hreach registry thread request
  rw [← htells]
  constructor
  · rintro ⟨report',w'',hyields',htells'⟩
    obtain ⟨hreport,rfl⟩ := hyields.unique hyields'.ends
    cases hreport
    exact htells'
  · intro h
    exact ⟨report,w',hyields,h⟩

end Requests

/-- Every artifact row of the store names a blob that is there. -/
def allThere (w : World) : Bool :=
  w.db.executions.all fun row => row.artifacts.all fun a =>
    match a.blobKey with
    | .value blobKey => (w.blobs.get blobKey).isSome
    | .malformed _ => false

/-- Then every blob named is there. -/
theorem there_of_allThere {w : World} {keys : List ExecutionKey} (h : allThere w=true) :
    ∀ blobKey,Named keys w.db blobKey → (w.blobs.get blobKey).isSome=true := by
  rintro blobKey ⟨row,hrow,_,a,ha,hname⟩
  have hthere := List.all_eq_true.mp (List.all_eq_true.mp h row hrow) a ha
  rw [hname] at hthere
  exact hthere

/-- The store after one recording, without a fault, is purged with a report that tells what was freed. -/
theorem purge_reports_freed_recorded : ∃ report w',
    Yields (Alone unaccessed 0) ((PurgeRequest.byKey ⟨0⟩ false).program : ServiceM SmallestCommand PurgeReport)
      (PurgedReports.reportedOnce none) (.ok report) w' ∧ TellsFreed (PurgedReports.reportedOnce none) w' report :=
  (purge_reports_freed_iff positional_injective (PurgedReports.reportedOnce_reachable none) unaccessed 0 _).mpr
    (there_of_allThere (by decide +kernel))

/-- Any port may raise. -/
def faulty : Faults SmallestCommand := fun _ _ => True

/-- The store after a recording whose first blob could not be written. -/
def halfWritten : World :=
  World.released (drive (answersWithFault 10 7 (.other true []) 60 8)
    (program positional (.execute smallestService ⟨.cache,.cache⟩)) World.empty).2

/-- It is reachable. -/
theorem halfWritten_reachable : Reachable faulty positional halfWritten :=
  .run .start ⟨.execute smallestService ⟨.cache,.cache⟩,rfl⟩
    (drive_reach _ (answersWithFault_respect 10 7 (fun _ _ => trivial) 60 8) _ _) trivial

/-- Its purge counts the blob that was never there. -/
theorem purge_reports_freed_fails : Reachable faulty positional halfWritten ∧
    ¬ ∃ report w',Yields (Alone unaccessed 0)
      ((PurgeRequest.byKey ⟨0⟩ false).program : ServiceM SmallestCommand PurgeReport) halfWritten (.ok report) w' ∧
      TellsFreed halfWritten w' report := by
  refine ⟨halfWritten_reachable,?_⟩
  rintro ⟨report,w',hyields,htells⟩
  obtain ⟨report',w'',hyields',hiff⟩ := yields_tellsFreed positional_injective halfWritten_reachable
    unaccessed 0 (.byKey ⟨0⟩ false)
  obtain ⟨hreport,rfl⟩ := hyields'.unique hyields.ends
  cases hreport
  have hthere := hiff.mp htells (.forExecution ⟨7⟩ (positional [111]))
  have hnamed : Named ((PurgeRequest.byKey ⟨0⟩ false).targets unaccessed halfWritten.db) halfWritten.db
      (.forExecution ⟨7⟩ (positional [111])) := by
    unfold Named
    decide +kernel
  have hgone : (halfWritten.blobs.get (.forExecution ⟨7⟩ (positional [111]))).isSome=false := by decide +kernel
  exact nomatch hgone.symm.trans (hthere hnamed)

end GenericMlCache.FreedBlobs
