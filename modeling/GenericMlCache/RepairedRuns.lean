import GenericMlCache.FaithfulReplay
import GenericMlCache.ServiceOperations
import GenericMlCache.SessionReports

/-!
# What a repair leaves

A repair that runs alone reconciles each latest run that awaits persistence against the
blobs that are there, finalizes those that miss none, and leaves the other rows alone but
for the ones that a finalized success supersedes.
-/

namespace GenericMlCache.RepairedRuns

open CallProgram PythonText ExecutionModel SqliteStore ExecutionRepository ExecutionQueries RepositoryCalls
  ServicePorts StoreRepair

/-- A blob key under which a row has an un-stored artifact. -/
def Unstored (row : ExecutionRow) (k : BlobKey) : Prop :=
  ∃ a∈row.artifacts,a.status≠.value .stored ∧ a.blobKey=.value k

/-- Every un-stored artifact of a row has its blob. -/
def Recoverable (blobs : BlobStore) (row : ExecutionRow) : Prop :=
  ∀ k,Unstored row k → (blobs.get k).isSome=true

/-- What the marks under the listed blob keys make of an artifact row. -/
inductive Reconciled (blobs : BlobStore) (listed : BlobKey → Prop) (a : ArtifactRow) : ArtifactRow → Prop where
  | stored {k : BlobKey} (now : Timestamp) (hkey : a.blobKey=.value k) (hlisted : listed k)
      (hblob : (blobs.get k).isSome=true) : Reconciled blobs listed a (storedMark now a)
  | failed {k : BlobKey} (hkey : a.blobKey=.value k) (hlisted : listed k) (hblob : blobs.get k=none) :
      Reconciled blobs listed a (failedMark missingDetail a)
  | unlisted (h : ∀ k,a.blobKey=.value k → ¬listed k) : Reconciled blobs listed a a

section Artifacts
variable {blobs : BlobStore} {listed : BlobKey → Prop} {a a' : ArtifactRow}

/-- A mark keeps the blob key. -/
theorem Reconciled.blobKey (h : Reconciled blobs listed a a') : a'.blobKey=a.blobKey := by
  cases h <;> rfl

/-- A mark under one more key, by whether its blob is there. -/
theorem Reconciled.mark (h : Reconciled blobs listed a a') (k : BlobKey) {mark : ArtifactRow → ArtifactRow}
    (hmark : ((blobs.get k).isSome=true ∧ ∃ now,mark=storedMark now) ∨
      (blobs.get k=none ∧ mark=failedMark missingDetail)) :
    Reconciled blobs (fun k' => k'=k ∨ listed k') a (if a'.blobKey=.value k then mark a' else a') := by
  rw [h.blobKey]
  by_cases hkey : a.blobKey=.value k
  · rw [if_pos hkey]
    have honce : mark a'=mark a := by
      rcases hmark with ⟨hblob,now,rfl⟩ | ⟨hblob,rfl⟩
      · cases h with
        | stored _ _ _ _ => rfl
        | failed hkey' _ hblob' =>
          rw [hkey] at hkey'
          cases hkey'
          rw [hblob'] at hblob
          exact nomatch hblob
        | unlisted _ => rfl
      · cases h with
        | stored _ hkey' _ hblob' =>
          rw [hkey] at hkey'
          cases hkey'
          rw [hblob] at hblob'
          exact nomatch hblob'
        | failed _ _ _ => rfl
        | unlisted _ => rfl
    rw [honce]
    rcases hmark with ⟨hblob,now,rfl⟩ | ⟨hblob,rfl⟩
    · exact .stored now hkey (.inl rfl) hblob
    · exact .failed hkey (.inl rfl) hblob
  · rw [if_neg hkey]
    cases h with
    | stored now hkey' hlisted hblob => exact .stored now hkey' (.inr hlisted) hblob
    | failed hkey' hlisted hblob => exact .failed hkey' (.inr hlisted) hblob
    | unlisted h =>
      refine .unlisted fun k' hk' hlisted => ?_
      rcases hlisted with rfl | hlisted
      · exact hkey hk'
      · exact h k' hk' hlisted

/-- Only the listed keys matter. -/
theorem Reconciled.congr {listed' : BlobKey → Prop} (h : Reconciled blobs listed a a')
    (hsame : ∀ k,listed k ↔ listed' k) : Reconciled blobs listed' a a' := by
  have heq : listed=listed' := funext fun k => propext (hsame k)
  rwa [← heq]

end Artifacts

/-- What the marks under the listed blob keys make of an execution row. -/
inductive Marked (blobs : BlobStore) (listed : BlobKey → Prop) (id : ExecutionId) (row : ExecutionRow) :
    ExecutionRow → Prop where
  | marked (hid : row.executionId=id) {artifacts : List ArtifactRow}
      (h : List.Forall₂ (Reconciled blobs listed) row.artifacts artifacts) :
      Marked blobs listed id row (row.update fun c => { c with artifacts := artifacts })
  | other (hid : row.executionId≠id) : Marked blobs listed id row row

section Marks
variable {blobs : BlobStore} {listed : BlobKey → Prop} {id : ExecutionId} {row row' : ExecutionRow}

/-- A mark keeps the execution's id. -/
theorem Marked.executionId (h : Marked blobs listed id row row') : row'.executionId=row.executionId := by
  cases h <;> rfl

/-- Without a listed key nothing is marked. -/
theorem Marked.nothing (blobs : BlobStore) (id : ExecutionId) (row : ExecutionRow) :
    Marked blobs (fun _ => False) id row row := by
  by_cases hid : row.executionId=id
  · have hsame : List.Forall₂ (Reconciled blobs fun _ => False) row.artifacts row.artifacts :=
      List.forall₂_same.mpr fun a _ => .unlisted fun _ _ h => h
    exact .marked hid hsame
  · exact .other hid

/-- One more mark of the execution's artifacts. -/
theorem Marked.mark (h : Marked blobs listed id row row') (k : BlobKey) {mark : ArtifactRow → ArtifactRow}
    (hmark : ((blobs.get k).isSome=true ∧ ∃ now,mark=storedMark now) ∨
      (blobs.get k=none ∧ mark=failedMark missingDetail)) :
    Marked blobs (fun k' => k'=k ∨ listed k') id row
      (if hasId id row'=true then row'.update (markColumns k mark) else row') := by
  cases h with
  | marked hid harts =>
    rename_i artifacts
    have hid' : hasId id (row.update fun c => { c with artifacts := artifacts })=true := by simpa using hid
    have hmarked : List.Forall₂ (Reconciled blobs fun k' => k'=k ∨ listed k') row.artifacts
        (artifacts.map fun a => if a.blobKey=.value k then mark a else a) :=
      List.forall₂_map_right_iff.mpr (harts.imp fun _ _ ha => ha.mark k hmark)
    rw [if_pos hid']
    exact .marked hid hmarked
  | other hid =>
    have hid' : ¬hasId id row=true := by simpa using hid
    rw [if_neg hid']
    exact .other hid

/-- Only the listed keys matter. -/
theorem Marked.congr {listed' : BlobKey → Prop} (h : Marked blobs listed id row row')
    (hsame : ∀ k,listed k ↔ listed' k) : Marked blobs listed' id row row' := by
  have heq : listed=listed' := funext fun k => propext (hsame k)
  rwa [← heq]

/-- The reconciled artifacts of the execution itself. -/
theorem Marked.artifacts (h : Marked blobs listed id row row') (hid : row.executionId=id) :
    List.Forall₂ (Reconciled blobs listed) row.artifacts row'.artifacts ∧
      row'=row.update fun c => { c with artifacts := row'.artifacts } := by
  cases h with
  | marked _ harts => exact ⟨harts,rfl⟩
  | other hid' => exact absurd hid hid'

/-- The rows of the other executions are not marked. -/
theorem Marked.eq (h : Marked blobs listed id row row') (hid : row.executionId≠id) : row'=row := by
  cases h with
  | marked hid' _ => exact absurd hid' hid
  | other _ => rfl

end Marks

/-- The rows of a database after marks of one execution's artifacts. -/
structure MarkedRows (blobs : BlobStore) (listed : BlobKey → Prop) (id : ExecutionId) (db db' : Db) : Prop where
  /-- Each row is marked or as it was. -/
  rows : List.Forall₂ (Marked blobs listed id) db.executions db'.executions
  /-- The call identities stay. -/
  identities : db'.callIdentities=db.callIdentities

/-- Two databases with the same rows and identities are the same. -/
theorem db_eq {db db' : Db} (hrows : db.executions=db'.executions) (hids : db.callIdentities=db'.callIdentities) :
    db=db' := by
  cases db
  cases db'
  cases hrows
  cases hids
  rfl

/-- A listed run: the latest of its key, not persisted, with an un-stored artifact. -/
def Awaits (db : Db) (row : ExecutionRow) : Prop := row∈db.executions ∧ isAwaiting db row=true

/-- What a repair of the given runs makes of an execution row: their artifacts
are reconciled and they are finalized where no blob was missing; a finalized
success supersedes the current row of its key; every other row stays. -/
inductive RowRepaired (blobs : BlobStore) (repaired : ExecutionRow → Prop) (row : ExecutionRow) :
    ExecutionRow → Prop where
  | reconciled (hrepaired : repaired row) {artifacts : List ArtifactRow} {persisted : Bool}
      (hartifacts : List.Forall₂ (Reconciled blobs (Unstored row)) row.artifacts artifacts)
      (hpersisted : persisted=true ↔ Recoverable blobs row) :
      RowRepaired blobs repaired row
        (row.update fun c => { c with artifacts := artifacts, outputPersisted := persisted })
  | superseded (now : Timestamp) (hservable : row.servable=true) {run : ExecutionRow} (hrepaired : repaired run)
      (hkey : run.executionKey=row.executionKey) (hstate : run.state=.value .success)
      (hrecoverable : Recoverable blobs run) :
      RowRepaired blobs repaired row (row.update fun c => { c with supersededAt := some (.value now) })
  | untouched (hrepaired : ¬repaired row)
      (hcurrent : row.servable=true → ∀ run,repaired run → run.executionKey=row.executionKey →
        run.state=.value .success → ¬Recoverable blobs run) :
      RowRepaired blobs repaired row row

section Rows
variable {blobs : BlobStore} {repaired : ExecutionRow → Prop} {db : Db} {row run row' : ExecutionRow}

/-- A repair keeps the row's ids and key. -/
theorem RowRepaired.ids (h : RowRepaired blobs repaired row row') :
    row'.executionId=row.executionId ∧ row'.executionKey=row.executionKey ∧ row'.id=row.id := by
  cases h <;> exact ⟨rfl,rfl,rfl⟩

/-- A listed run is not persisted. -/
theorem Awaits.not_persisted (h : Awaits db run) : run.outputPersisted=false := (isAwaiting_iff.mp h.2).1

/-- A listed run is not servable. -/
theorem Awaits.not_servable (h : Awaits db run) : ¬run.servable=true := fun hs => by
  have hp := (MutableColumns.servable_iff _).mp hs
  rw [h.not_persisted] at hp
  exact nomatch hp.2.1

/-- One run is listed for each key. -/
theorem Awaits.unique (h : Awaits db row) (h' : Awaits db run) (hkey : run.executionKey=row.executionKey) :
    run=row := by
  have hle := (isAwaiting_iff.mp h.2).2.2 run h'.1 hkey
  have hge := (isAwaiting_iff.mp h'.2).2.2 row h.1 hkey.symm
  exact db.id_unique h'.1 h.1 (Nat.le_antisymm hle hge)

/-- A listed run that was not repaired yet is as it was. -/
theorem RowRepaired.eq (h : RowRepaired blobs repaired run row') (hawaits : Awaits db run)
    (hnot : ¬repaired run) : row'=run := by
  cases h with
  | reconciled hrepaired _ _ => exact absurd hrepaired hnot
  | superseded _ hservable _ _ _ _ => exact absurd hservable hawaits.not_servable
  | untouched _ _ => rfl

/-- One more repaired run leaves a row that it neither is nor supersedes. -/
theorem RowRepaired.more (h : RowRepaired blobs repaired row row') (hne : row≠run)
    (hnot : row'.servable=true → run.executionKey=row'.executionKey → run.state=.value .success →
      ¬Recoverable blobs run) : RowRepaired blobs (fun r => r=run ∨ repaired r) row row' := by
  cases h with
  | reconciled hrepaired hartifacts hpersisted => exact .reconciled (.inr hrepaired) hartifacts hpersisted
  | superseded now hservable hrepaired hkey hstate hrecoverable =>
    exact .superseded now hservable (.inr hrepaired) hkey hstate hrecoverable
  | untouched hrepaired hcurrent =>
    refine .untouched (fun hrow => hrow.elim hne hrepaired) fun hservable r hr hkey hstate => ?_
    rcases hr with rfl | hr
    · exact hnot hservable hkey hstate
    · exact hcurrent hservable r hr hkey hstate

/-- The row that a finalization leaves in a row's place. -/
def finalizedRow (run : ExecutionRow) (now : Timestamp) (row : ExecutionRow) : ExecutionRow :=
  let row := if run.state=.value .success ∧ isCurrent run.executionKey row=true then
    row.update fun c => { c with supersededAt := some (.value now) } else row
  if hasId run.executionId row=true then row.update fun c => { c with outputPersisted := true } else row

/-- A finalization, row by row. -/
theorem finalized_rows (db : Db) (run : ExecutionRow) (now : Timestamp) :
    ((if run.state=.value .success then supersedePriorCurrent db run.executionKey now else db).updateWhere
      (hasId run.executionId) fun c => { c with outputPersisted := true }).executions=
      db.executions.map (finalizedRow run now) := by
  by_cases hstate : run.state=.value .success
  · simp only [Db.updateWhere,if_pos hstate,supersedePriorCurrent,List.map_map]
    refine List.map_congr_left fun row _ => ?_
    simp only [finalizedRow,hstate,true_and,Function.comp]
  · simp only [Db.updateWhere,if_neg hstate]
    refine List.map_congr_left fun row _ => ?_
    simp only [finalizedRow,hstate,false_and,if_false]

/-- The row of a listed run whose blobs are all there, once finalized. -/
theorem repaired_run (hawaits : Awaits db run) (hrecoverable : Recoverable blobs run)
    (hmarked : Marked blobs (Unstored run) run.executionId run row') (now : Timestamp) :
    RowRepaired blobs (fun r => r=run ∨ repaired r) run (finalizedRow run now row') := by
  cases hmarked with
  | other hid => exact absurd rfl hid
  | marked _ hartifacts =>
    rename_i artifacts
    have hcurrent : ¬isCurrent run.executionKey (run.update fun c => { c with artifacts := artifacts })=true := by
      intro hcur
      have hs := (MutableColumns.servable_iff _).mp ((isCurrent_iff _ _).mp hcur).2
      exact hawaits.not_servable ((MutableColumns.servable_iff _).mpr hs)
    have hid : hasId run.executionId (run.update fun c => { c with artifacts := artifacts })=true := by simp
    have heq : finalizedRow run now (run.update fun c => { c with artifacts := artifacts })=
        run.update fun c => { c with artifacts := artifacts, outputPersisted := true } := by
      simp only [finalizedRow,hcurrent,and_false,if_false,Bool.false_eq_true,hid,if_true]
      rfl
    rw [heq]
    exact .reconciled (.inl rfl) hartifacts (iff_of_true rfl hrecoverable)

/-- Another row once a listed run is finalized. -/
theorem repaired_other (hawaits : Awaits db run) (hall : ∀ r,repaired r → Awaits db r)
    (hmem : row∈db.executions) (hne : row≠run) (h : RowRepaired blobs repaired row row')
    (hrecoverable : Recoverable blobs run) (now : Timestamp) :
    RowRepaired blobs (fun r => r=run ∨ repaired r) row (finalizedRow run now row') := by
  have hid : row'.executionId≠run.executionId := fun heq =>
    hne (db.row_unique hmem hawaits.1 (h.ids.1.symm.trans heq))
  by_cases hsup : run.state=.value .success ∧ isCurrent run.executionKey row'=true
  · obtain ⟨hkey,hservable⟩ := (isCurrent_iff _ _).mp hsup.2
    have heq : finalizedRow run now row'=row'.update fun c => { c with supersededAt := some (.value now) } := by
      have hid' : ¬hasId run.executionId (row'.update fun c =>
          { c with supersededAt := some (.value now) })=true := by simpa using hid
      simp only [finalizedRow,if_pos hsup,if_neg hid']
    rw [heq]
    cases h with
    | reconciled hrepaired _ _ => exact absurd ((hall row hrepaired).unique hawaits hkey.symm).symm hne
    | superseded _ _ _ _ _ _ => exact nomatch ((MutableColumns.servable_iff _).mp hservable).2.2
    | untouched _ _ => exact .superseded now hservable (.inl rfl) hkey.symm hsup.1 hrecoverable
  · have hid' : ¬hasId run.executionId row'=true := by simpa using hid
    have heq : finalizedRow run now row'=row' := by
      simp only [finalizedRow,if_neg hsup,if_neg hid']
    rw [heq]
    exact h.more hne fun hservable hkey hstate =>
      absurd ⟨hstate,(isCurrent_iff _ _).mpr ⟨hkey.symm,hservable⟩⟩ hsup

/-- The row of a listed run that misses a blob. -/
theorem unrepaired_run (hawaits : Awaits db run) (hrecoverable : ¬Recoverable blobs run)
    (hmarked : Marked blobs (Unstored run) run.executionId run row') :
    RowRepaired blobs (fun r => r=run ∨ repaired r) run row' := by
  cases hmarked with
  | other hid => exact absurd rfl hid
  | marked _ hartifacts =>
    rename_i artifacts
    have heq : (run.update fun c => { c with artifacts := artifacts })=
        run.update fun c => { c with artifacts := artifacts, outputPersisted := run.outputPersisted } := rfl
    rw [heq]
    refine .reconciled (.inl rfl) hartifacts ?_
    rw [hawaits.not_persisted]
    exact iff_of_false Bool.false_ne_true hrecoverable

end Rows

section Alone
variable {Command : Type} {locks : LockMode} {thread : ThreadId}

/-- Without faults a store call answers as its transaction. -/
theorem safe_store {α : Type} {call : StoreCall} {f : call.Ret → ServiceM Command α} {C : World → Prop}
    {Q : Except PyExc α → World → Prop} {w : World} (hc : C w)
    (htotal : ∀ now,∃ a db,transact now w.db call=.ok (a,db))
    (hnext : ∀ now a db,transact now w.db call=.ok (a,db) →
      Safe (Answers locks (noFaults : Faults Command) thread) C Q (f a) { w with db := db }) :
    Safe (Answers locks (noFaults : Faults Command) thread) C Q (store call >>= f) w := by
  refine Safe.perform_bind hc (fun a w' h => ?_) fun e w' h => ?_
  · rcases answers_store h with ⟨now,a',db,ht,hr,rfl⟩ | ⟨e,hr,_⟩
    · cases hr
      exact hnext now a db ht
    · exact nomatch hr
  · rcases answers_store h with ⟨now,a',db,ht,hr,rfl⟩ | ⟨e',hr,_,hfault | ⟨now,ht⟩⟩
    · exact nomatch hr
    · exact hfault.elim
    · obtain ⟨a,db,hok⟩ := htotal now
      rw [ht] at hok
      exact nomatch hok

/-- Without faults a blob is read as it is. -/
theorem safe_blobGet {α : Type} {k : BlobKey} {f : Option Bytes → ServiceM Command α} {C : World → Prop}
    {Q : Except PyExc α → World → Prop} {w : World} (hc : C w)
    (hnext : Safe (Answers locks (noFaults : Faults Command) thread) C Q (f (w.blobs.get k)) w) :
    Safe (Answers locks (noFaults : Faults Command) thread) C Q (ask (.blobGet k) >>= f) w := by
  refine Safe.perform_bind hc (fun a w' h => ?_) fun e w' h => ?_
  · cases h
    exact hnext
  · cases h with
    | fault _ h => exact h.elim

/-- The marks of a mark's rows. -/
theorem MarkedRows.mark {blobs : BlobStore} {listed : BlobKey → Prop} {id : ExecutionId} {db db' : Db}
    (h : MarkedRows blobs listed id db db') (k : BlobKey) {mark : ArtifactRow → ArtifactRow}
    (hmark : ((blobs.get k).isSome=true ∧ ∃ now,mark=storedMark now) ∨
      (blobs.get k=none ∧ mark=failedMark missingDetail)) :
    MarkedRows blobs (fun k' => k'=k ∨ listed k') id db (db'.updateWhere (hasId id) (markColumns k mark)) :=
  ⟨List.forall₂_map_right_iff.mpr (h.rows.imp fun _ _ hrow => hrow.mark k hmark),h.identities⟩

/-- A key that the execution's artifacts name can be marked. -/
theorem MarkedRows.named {blobs : BlobStore} {listed : BlobKey → Prop} {db db' : Db} {row : ExecutionRow}
    (h : MarkedRows blobs listed row.executionId db db') (hmem : row∈db.executions) {k : BlobKey}
    (hk : ∃ a∈row.artifacts,a.blobKey=.value k) :
    ∃ row'∈db'.executions,row'.executionId=row.executionId ∧ ∃ a∈row'.artifacts,a.blobKey=.value k := by
  obtain ⟨row',hrow',hmarked⟩ := (mem_of_forall₂ h.rows).2 row hmem
  obtain ⟨a,ha,hkey⟩ := hk
  obtain ⟨a',ha',hrec⟩ := (mem_of_forall₂ (hmarked.artifacts rfl).1).2 a ha
  exact ⟨row',hrow',hmarked.executionId,a',ha',hrec.blobKey.trans hkey⟩

/-- The inner loop alone: every listed key's artifacts are marked by whether the blob is there. -/
theorem safe_reconcileBlobs {w : World} {row : ExecutionRow} (hmem : row∈w.db.executions) {keys : List BlobKey}
    (hkeys : ∀ k∈keys,∃ a∈row.artifacts,a.blobKey=.value k) {done : BlobKey → Prop} {db : Db}
    (h : MarkedRows w.blobs done row.executionId w.db db) :
    Safe (Answers locks (noFaults : Faults Command) thread) (fun _ => True)
      (fun r w' => r=.ok (keys.countP fun k => (w.blobs.get k).isSome,keys.countP fun k => (w.blobs.get k).isNone) ∧
        w'={ w with db := w'.db } ∧
        MarkedRows w.blobs (fun k => done k ∨ k∈keys) row.executionId w.db w'.db)
      (reconcileBlobs row.executionId keys : ServiceM Command (ℕ × ℕ)) { w with db := db } := by
  induction keys generalizing done db with
  | nil =>
    have heq : (fun k => done k ∨ k∈([] : List BlobKey))=done := by simp
    refine Safe.pure trivial ⟨rfl,rfl,?_⟩
    rw [heq]
    exact h
  | cons k keys ih =>
    obtain ⟨row',hrow',hid,hnamed⟩ := h.named hmem (hkeys k List.mem_cons_self)
    have hlater := fun k' hk' => hkeys k' (List.mem_cons_of_mem _ hk')
    have hrest : (fun k' => (k'=k ∨ done k') ∨ k'∈keys)=fun k' => done k' ∨ k'∈k::keys := by
      funext k'
      simp only [List.mem_cons,eq_iff_iff]
      tauto
    refine safe_blobGet trivial ?_
    by_cases hget : (w.blobs.get k).isSome=true
    · have hget' : (w.blobs.get k).isNone=false := by simpa using hget
      rw [if_pos hget]
      refine safe_store trivial (fun now => ⟨(),_,commit_ok.mpr (markArtifacts_of (storedMark now) hrow' hid hnamed)⟩)
        fun now a db' ht => ?_
      have hnext : MarkedRows w.blobs (fun k' => k'=k ∨ done k') row.executionId w.db
          (db.updateWhere (hasId row.executionId) (markColumns k (storedMark now))) :=
        h.mark k (.inl ⟨hget,now,rfl⟩)
      rw [← (markArtifacts_ok (commit_ok.mp ht)).2] at hnext
      refine Safe.seq (ih hlater hnext) (fun counts w' _ hq => ?_) fun e w' _ hq => (by cases hq.1)
      obtain ⟨hr,hw,hrows⟩ := hq
      cases hr
      rw [hrest] at hrows
      refine Safe.pure trivial ⟨?_,hw,hrows⟩
      simp only [List.countP_cons,hget,hget',if_true,Bool.false_eq_true,if_false,Nat.add_zero]
    · have hnone : w.blobs.get k=none := by simpa using hget
      have hget' : (w.blobs.get k).isNone=true := by simpa using hget
      have hbind : bindText missingDetail=.ok () := if_pos (encodable_pyStr _)
      have htotal : markArtifactsFailed row.executionId k missingDetail db=
          .ok (db.updateWhere (hasId row.executionId) (markColumns k (failedMark missingDetail))) := by
        simp only [markArtifactsFailed,hbind]
        exact markArtifacts_of (failedMark missingDetail) hrow' hid hnamed
      rw [if_neg hget]
      refine safe_store trivial (fun now => ⟨(),_,commit_ok.mpr htotal⟩) fun now a db' ht => ?_
      have hmarked := commit_ok.mp ht
      rw [htotal] at hmarked
      have hnext : MarkedRows w.blobs (fun k' => k'=k ∨ done k') row.executionId w.db
          (db.updateWhere (hasId row.executionId) (markColumns k (failedMark missingDetail))) :=
        h.mark k (.inr ⟨hnone,rfl⟩)
      rw [Except.ok.inj hmarked] at hnext
      refine Safe.seq (ih hlater hnext) (fun counts w' _ hq => ?_) fun e w' _ hq => (by cases hq.1)
      obtain ⟨hr,hw,hrows⟩ := hq
      cases hr
      rw [hrest] at hrows
      refine Safe.pure trivial ⟨?_,hw,hrows⟩
      simp only [List.countP_cons,hget,hget',if_true,Bool.false_eq_true,if_false,Nat.add_zero]

/-- The rows of a database after a repair of the given runs. -/
structure RepairedRows (blobs : BlobStore) (repaired : ExecutionRow → Prop) (db db' : Db) : Prop where
  /-- Each row is repaired where it is to be. -/
  rows : List.Forall₂ (RowRepaired blobs repaired) db.executions db'.executions
  /-- The call identities stay. -/
  identities : db'.callIdentities=db.callIdentities

/-- What a repaired run adds to the report. -/
def RepairReport.count (blobs : BlobStore) (report : RepairReport) (run : UnpersistedRun) : RepairReport :=
  let missing := run.blobKeys.countP fun k => (blobs.get k).isNone
  { runsRecovered := report.runsRecovered+if missing=0 then 1 else 0
    runsUnrecoverable := report.runsUnrecoverable+if missing=0 then 0 else 1
    blobsReconciled := report.blobsReconciled+run.blobKeys.countP fun k => (blobs.get k).isSome
    blobsMissing := report.blobsMissing+missing }

/-- A run misses none of its listed blobs exactly when it is recoverable. -/
theorem missing_none_iff {blobs : BlobStore} {row : ExecutionRow} {run : UnpersistedRun}
    (hu : unpersistedRun row=.ok run) :
    (run.blobKeys.countP fun k => (blobs.get k).isNone)=0 ↔ Recoverable blobs row := by
  rw [List.countP_eq_zero]
  constructor
  · intro h k hk
    have hnone := h k (((unpersistedRun_ok hu).2.2 k).mpr hk)
    rwa [Bool.not_eq_true,Option.isNone_eq_false_iff] at hnone
  · intro h k hk
    rw [Bool.not_eq_true,Option.isNone_eq_false_iff]
    exact h k (((unpersistedRun_ok hu).2.2 k).mp hk)

/-- The un-stored artifacts of a listed run have a blob key. -/
theorem unstored_key {row : ExecutionRow} {run : UnpersistedRun} (hu : unpersistedRun row=.ok run)
    {a : ArtifactRow} (ha : a∈row.artifacts) (hstatus : a.status≠.value .stored) :
    ∃ k,a.blobKey=.value k := by
  unfold unpersistedRun at hu
  split at hu
  next keys hkeys =>
    have hmem : a∈row.artifacts.filter notStored := List.mem_filter.mpr ⟨ha,by simpa [notStored] using hstatus⟩
    obtain ⟨k,_,hk⟩ := (mem_of_forall₂ (forall₂_of_mapM hkeys)).2 a hmem
    cases hkey : a.blobKey with
    | value k' => exact ⟨k',rfl⟩
    | malformed text =>
      rw [hkey] at hk
      cases hk
  next => cases hu

/-- The artifacts of a recoverable run are all stored once reconciled. -/
theorem reconciled_stored {blobs : BlobStore} {row : ExecutionRow} {run : UnpersistedRun}
    (hu : unpersistedRun row=.ok run) (hrecoverable : Recoverable blobs row) {artifacts : List ArtifactRow}
    (h : List.Forall₂ (Reconciled blobs (Unstored row)) row.artifacts artifacts) :
    ∀ a∈artifacts,a.status=.value .stored := by
  intro a' ha'
  obtain ⟨a,ha,hrec⟩ := (mem_of_forall₂ h).1 a' ha'
  cases hrec with
  | stored _ _ _ _ => rfl
  | failed hkey hlisted hblob =>
    have hpresent := hrecoverable _ hlisted
    rw [hblob] at hpresent
    exact nomatch hpresent
  | unlisted hnot =>
    by_contra hstatus
    obtain ⟨k,hk⟩ := unstored_key hu ha hstatus
    exact hnot k hk ⟨_,ha,hstatus,hk⟩

/-- One run repaired alone. -/
theorem safe_repairRun {w : World} {db : Db} {repaired : ExecutionRow → Prop} {row : ExecutionRow}
    {run : UnpersistedRun} (h : RepairedRows w.blobs repaired w.db db) (hall : ∀ r,repaired r → Awaits w.db r)
    (hawaits : Awaits w.db row) (hnot : ¬repaired row) (hu : unpersistedRun row=.ok run) (report : RepairReport) :
    Safe (Answers locks (noFaults : Faults Command) thread) (fun _ => True)
      (fun r w' => r=.ok (RepairReport.count w.blobs report run) ∧ w'={ w with db := w'.db } ∧
        RepairedRows w.blobs (fun r => r=row ∨ repaired r) w.db w'.db)
      (repairRun run report : ServiceM Command RepairReport) { w with db := db } := by
  have hlisted := (unpersistedRun_ok hu).2.2
  have hmem : row∈db.executions := by
    obtain ⟨row',hrow',hrep⟩ := (mem_of_forall₂ h.rows).2 row hawaits.1
    exact hrep.eq hawaits hnot ▸ hrow'
  have hkeys : ∀ k∈run.blobKeys,∃ a∈row.artifacts,a.blobKey=.value k := by
    intro k hk
    obtain ⟨a,ha,_,hkey⟩ := (hlisted k).mp hk
    exact ⟨a,ha,hkey⟩
  have hnothing : MarkedRows w.blobs (fun _ => False) row.executionId db db :=
    ⟨List.forall₂_same.mpr fun r _ => Marked.nothing _ _ r,rfl⟩
  have hmarks : (fun k => False ∨ k∈run.blobKeys)=Unstored row := by
    funext k
    simp only [false_or,hlisted k,Unstored]
  have hloop : Safe (Answers locks (noFaults : Faults Command) thread) _ _ _ _ :=
    safe_reconcileBlobs (w := { w with db := db }) hmem hkeys hnothing
  rw [hmarks] at hloop
  unfold repairRun
  rw [(unpersistedRun_ok hu).2.1]
  refine Safe.seq hloop (fun counts w₁ _ hq => ?_) fun e w' _ hq => nomatch hq.1
  obtain ⟨hr,hw,hmarked⟩ := hq
  cases hr
  rw [hw]
  -- A row of the start, the row that the earlier repairs left of it and the row after the marks.
  have hrows : List.Forall₂ (fun r r' => r∈w.db.executions ∧ RowRepaired w.blobs repaired r r')
      w.db.executions db.executions := (List.forall₂_and_left _ _).mpr ⟨fun _ hr => hr,h.rows⟩
  have hcompose := fun (T : ExecutionRow → ExecutionRow → Prop) hT =>
    FaithfulReplay.forall₂_trans (T := T) hT hrows hmarked.rows
  have huntouched : ∀ r r',r∈w.db.executions → RowRepaired w.blobs repaired r r' → r=row → r'=row := by
    intro r r' _ hrep heq
    rw [heq] at hrep
    exact hrep.eq hawaits hnot
  by_cases hrecoverable : Recoverable w.blobs row
  · have hmissing := (missing_none_iff hu).mpr hrecoverable
    obtain ⟨row',hrow',hmrow⟩ := (mem_of_forall₂ hmarked.rows).2 row hmem
    have hstored : ∀ a∈row'.artifacts,a.status=.value .stored :=
      reconciled_stored hu hrecoverable (hmrow.artifacts rfl).1
    have hcols : row'.state=row.state ∧ row'.executionKey=row.executionKey := by
      rw [(hmrow.artifacts rfl).2]
      exact ⟨rfl,rfl⟩
    dsimp only
    rw [if_pos hmissing]
    refine safe_store trivial
      (fun now => ⟨(),_,commit_ok.mpr (finalizeOutputPersisted_of now hrow' hmrow.executionId hstored)⟩)
      fun now a db' ht => ?_
    have hfinal := commit_ok.mp ht
    rw [finalizeOutputPersisted_of now hrow' hmrow.executionId hstored,hcols.1,hcols.2] at hfinal
    cases Except.ok.inj hfinal
    refine Safe.pure trivial ⟨?_,rfl,?_,?_⟩
    · simp [RepairReport.count,hmissing]
    · dsimp only
      rw [finalized_rows]
      refine List.forall₂_map_right_iff.mpr (hcompose _ fun r r₁ r₂ hr hmark => ?_)
      by_cases hrow : r=row
      · have hr₁ := huntouched r r₁ hr.1 hr.2 hrow
        rw [hr₁] at hmark
        rw [hrow]
        exact repaired_run hawaits hrecoverable hmark now
      · have hid : r₁.executionId≠row.executionId := fun heq =>
          hrow (w.db.row_unique hr.1 hawaits.1 (hr.2.ids.1.symm.trans heq))
        rw [hmark.eq hid]
        exact repaired_other hawaits hall hr.1 hrow hr.2 hrecoverable now
    · have hsup : ∀ d : Db,(if row.state=.value .success then supersedePriorCurrent d row.executionKey now
          else d).callIdentities=d.callIdentities := by
        intro d
        split <;> rfl
      exact (hsup _).trans (hmarked.identities.trans h.identities)
  · have hmissing : ¬(run.blobKeys.countP fun k => (w.blobs.get k).isNone)=0 := fun hzero =>
      hrecoverable ((missing_none_iff hu).mp hzero)
    dsimp only
    rw [if_neg hmissing]
    refine Safe.pure trivial ⟨?_,rfl,hcompose _ fun r r₁ r₂ hr hmark => ?_,hmarked.identities.trans h.identities⟩
    · simp only [RepairReport.count,hmissing,if_false,Nat.add_zero]
    · by_cases hrow : r=row
      · have hr₁ := huntouched r r₁ hr.1 hr.2 hrow
        rw [hr₁] at hmark
        rw [hrow]
        exact unrepaired_run hawaits hrecoverable hmark
      · have hid : r₁.executionId≠row.executionId := fun heq =>
          hrow (w.db.row_unique hr.1 hawaits.1 (hr.2.ids.1.symm.trans heq))
        rw [hmark.eq hid]
        exact hr.2.more hrow fun _ _ _ => hrecoverable

/-- The outer loop alone: one listed run after the other. -/
theorem safe_repairRuns {w : World} {rows : List ExecutionRow} {runs : List UnpersistedRun}
    (hruns : List.Forall₂ (fun row run => unpersistedRun row=.ok run) rows runs)
    (hawaits : ∀ row∈rows,Awaits w.db row) (hnodup : rows.Nodup) {db : Db} {repaired : ExecutionRow → Prop}
    (h : RepairedRows w.blobs repaired w.db db) (hall : ∀ r,repaired r → Awaits w.db r)
    (hnew : ∀ row∈rows,¬repaired row) (report : RepairReport) :
    Safe (Answers locks (noFaults : Faults Command) thread) (fun _ => True)
      (fun r w' => r=.ok (runs.foldl (RepairReport.count w.blobs) report) ∧ w'={ w with db := w'.db } ∧
        RepairedRows w.blobs (fun r => repaired r ∨ r∈rows) w.db w'.db)
      (repairRuns runs report : ServiceM Command RepairReport) { w with db := db } := by
  induction hruns generalizing db repaired report with
  | nil =>
    have heq : (fun r => repaired r ∨ r∈([] : List ExecutionRow))=repaired := by simp
    refine Safe.pure trivial ⟨rfl,rfl,?_⟩
    rw [heq]
    exact h
  | @cons row run rows runs hu _ ih =>
    obtain ⟨hfresh,hnodup⟩ := List.nodup_cons.mp hnodup
    have hrow := hawaits row List.mem_cons_self
    have hone : Safe (Answers locks (noFaults : Faults Command) thread) _ _ _ _ :=
      safe_repairRun h hall hrow (hnew row List.mem_cons_self) hu report
    have hlisted : (fun r => (r=row ∨ repaired r) ∨ r∈rows)=fun r => repaired r ∨ r∈row::rows := by
      funext r
      simp only [List.mem_cons,eq_iff_iff]
      tauto
    refine Safe.seq hone (fun report' w₁ _ hq => ?_) fun e w' _ hq => (by cases hq.1)
    obtain ⟨hr,hw,hrows⟩ := hq
    cases hr
    rw [hw,← hlisted]
    refine ih (fun r hr => hawaits r (List.mem_cons_of_mem _ hr)) hnodup hrows (fun r hr => ?_) (fun r hr => ?_) _
    · rcases hr with rfl | hr
      · exact hrow
      · exact hall r hr
    · intro hdone
      rcases hdone with rfl | hdone
      · exact hfresh hr
      · exact hnew r (List.mem_cons_of_mem _ hr) hdone

/-- A whole repair alone. -/
theorem safe_repair {w : World} (hwf : WellFormed w.db) :
    Safe (Answers locks (noFaults : Faults Command) thread) (fun _ => True)
      (fun r w' => (∃ runs,runsAwaitingPersistence w.db=.ok runs ∧
          r=.ok (runs.foldl (RepairReport.count w.blobs) ⟨0,0,0,0⟩)) ∧
        w'={ w with db := w'.db } ∧ RepairedRows w.blobs (Awaits w.db) w.db w'.db)
      (repair : ServiceM Command RepairReport) w := by
  obtain ⟨runs,hruns⟩ := SessionReports.runsAwaitingPersistence_total hwf
  refine safe_store trivial (fun now => ⟨runs,_,reading_ok.mpr ⟨hruns,rfl⟩⟩) fun now a db' ht => ?_
  obtain ⟨ha,hdb⟩ := reading_ok.mp ht
  cases hruns.symm.trans ha
  cases hdb
  have hperm := List.perm_insertionSort (fun r r' : ExecutionRow =>
    r.executionKey.digest ≤ r'.executionKey.digest) (w.db.executions.filter (isAwaiting w.db))
  have hmem : ∀ row,row∈(w.db.executions.filter (isAwaiting w.db)).insertionSort (fun r r' =>
      r.executionKey.digest ≤ r'.executionKey.digest) ↔ Awaits w.db row := fun row =>
    hperm.mem_iff.trans List.mem_filter
  have hnodup : w.db.executions.Nodup := w.db.idsSorted.imp fun hlt heq => by
    rw [heq] at hlt
    exact Nat.lt_irrefl _ hlt
  have hstart : RepairedRows w.blobs (fun _ => False) w.db w.db :=
    ⟨List.forall₂_same.mpr fun row _ => .untouched (fun h => h) fun _ _ h => h.elim,rfl⟩
  have hloop : Safe (Answers locks (noFaults : Faults Command) thread) _ _ _ _ := safe_repairRuns
    (forall₂_of_mapM hruns) (fun row hrow => (hmem row).mp hrow) (hperm.nodup_iff.mpr (hnodup.filter _)) hstart
    (fun _ h => h.elim) (fun _ _ h => h) ⟨0,0,0,0⟩
  refine hloop.mono fun r w' _ hq => ⟨⟨runs,hruns,hq.1⟩,hq.2.1,?_⟩
  have hlisted : (fun r => False ∨ r∈(w.db.executions.filter (isAwaiting w.db)).insertionSort (fun r r' =>
      r.executionKey.digest ≤ r'.executionKey.digest))=Awaits w.db := by
    funext row
    simp only [false_or,hmem row]
  rw [← hlisted]
  exact hq.2.2

end Alone

section Settled
variable {blobs : BlobStore} {db db' db'' : Db} {row row' row'' : ExecutionRow} {a a' a'' : ArtifactRow}

/-- What is un-stored once reconciled is a failed artifact whose blob is missing. -/
theorem Reconciled.unstored {run : UnpersistedRun} (hu : unpersistedRun row=.ok run) (ha : a∈row.artifacts)
    (h : Reconciled blobs (Unstored row) a a') (hstatus : a'.status≠.value .stored) :
    ∃ k,a.blobKey=.value k ∧ Unstored row k ∧ blobs.get k=none := by
  cases h with
  | stored _ _ _ _ => exact absurd rfl hstatus
  | @failed k hkey hlisted hblob => exact ⟨k,hkey,hlisted,hblob⟩
  | unlisted hnot =>
    obtain ⟨k,hk⟩ := unstored_key hu ha hstatus
    exact absurd ⟨a,ha,hstatus,hk⟩ (hnot k hk)

/-- A run that still awaits was listed before, and misses every blob it lists. -/
theorem RepairedRows.still_awaits (hwf : WellFormed db) (h : RepairedRows blobs (Awaits db) db db')
    (hawaits : Awaits db' row') :
    ∃ row artifacts,List.Forall₂ (Reconciled blobs (Unstored row)) row.artifacts artifacts ∧
      row'=row.update (fun c => { c with artifacts := artifacts, outputPersisted := false }) ∧
      ∀ k,Unstored row' k → Unstored row k ∧ blobs.get k=none := by
  obtain ⟨hpersisted,⟨a',ha',hstatus⟩,hlatest⟩ := isAwaiting_iff.mp hawaits.2
  obtain ⟨row,hrow,hrep⟩ := (mem_of_forall₂ h.rows).1 row' hawaits.1
  cases hrep with
  | superseded _ hservable _ _ _ _ =>
    have hwas : row.outputPersisted=false := hpersisted
    have hp := ((MutableColumns.servable_iff _).mp hservable).2.1
    rw [hwas] at hp
    exact nomatch hp
  | untouched hnot _ =>
    refine absurd ⟨hrow,isAwaiting_iff.mpr ⟨hpersisted,⟨a',ha',hstatus⟩,fun r hr hkey => ?_⟩⟩ hnot
    obtain ⟨r',hr',hrep⟩ := (mem_of_forall₂ h.rows).2 r hr
    have hle := hlatest r' hr' (hrep.ids.2.1.trans hkey)
    rwa [hrep.ids.2.2] at hle
  | @reconciled hrow' artifacts persisted hartifacts hiff =>
    have hp : persisted=false := hpersisted
    subst hp
    obtain ⟨runs,hruns⟩ := SessionReports.runsAwaitingPersistence_total hwf
    obtain ⟨run,_,hu⟩ := (runsAwaitingPersistence_ok hruns).2 row hrow hrow'.2
    refine ⟨row,artifacts,hartifacts,rfl,fun k hk => ?_⟩
    obtain ⟨b',hb',hstatus',hkey⟩ := hk
    obtain ⟨b,hb,hrec⟩ := (mem_of_forall₂ hartifacts).1 b' hb'
    obtain ⟨k',hk',hlisted,hblob⟩ := hrec.unstored hu hb hstatus'
    have hsame : k'=k := by
      rw [hrec.blobKey,hk'] at hkey
      exact Column.value.inj hkey
    rw [← hsame]
    exact ⟨hlisted,hblob⟩

/-- Reconciling once more what misses every blob it lists changes nothing. -/
theorem Reconciled.again {listed listed' : BlobKey → Prop} (h : Reconciled blobs listed a a')
    (h' : Reconciled blobs listed' a' a'') (hmissing : ∀ k,listed' k → listed k ∧ blobs.get k=none) : a''=a' := by
  cases h' with
  | stored _ _ hlisted' hblob =>
    rw [(hmissing _ hlisted').2] at hblob
    exact nomatch hblob
  | unlisted _ => rfl
  | @failed k hkey' hlisted' hblob' =>
    obtain ⟨hlisted,_⟩ := hmissing k hlisted'
    have hkey : a.blobKey=.value k := h.blobKey.symm.trans hkey'
    cases h with
    | stored _ hkey₁ _ hblob =>
      cases Column.value.inj (hkey₁.symm.trans hkey)
      rw [hblob'] at hblob
      exact nomatch hblob
    | failed _ _ _ => rfl
    | unlisted hnot => exact absurd hlisted (hnot k hkey)

/-- A run that still awaits is not recoverable. -/
theorem RepairedRows.unrecoverable (hwf : WellFormed db) (hwf' : WellFormed db')
    (h : RepairedRows blobs (Awaits db) db db') (hawaits : Awaits db' row') : ¬Recoverable blobs row' := by
  obtain ⟨row,artifacts,_,_,hmissing⟩ := h.still_awaits hwf hawaits
  obtain ⟨runs,hruns⟩ := SessionReports.runsAwaitingPersistence_total hwf'
  obtain ⟨run,_,hu⟩ := (runsAwaitingPersistence_ok hruns).2 row' hawaits.1 hawaits.2
  obtain ⟨_,⟨a',ha',hstatus⟩,_⟩ := isAwaiting_iff.mp hawaits.2
  obtain ⟨k,hk⟩ := unstored_key hu ha' hstatus
  have hunstored : Unstored row' k := ⟨a',ha',hstatus,hk⟩
  intro hrecoverable
  have hpresent := hrecoverable k hunstored
  rw [(hmissing k hunstored).2] at hpresent
  exact nomatch hpresent

/-- The elementwise equality of two lists. -/
theorem eq_of_forall₂ {α : Type} {R : α → α → Prop} {as bs : List α} (h : List.Forall₂ R as bs)
    (heq : ∀ a∈as,∀ b,R a b → b=a) : bs=as := by
  induction h with
  | nil => rfl
  | cons hd _ ih =>
    rw [heq _ List.mem_cons_self _ hd,ih fun a ha => heq a (List.mem_cons_of_mem _ ha)]

/-- A row once repaired stays as it is. -/
theorem RepairedRows.row_settled (hwf : WellFormed db) (hwf' : WellFormed db')
    (h : RepairedRows blobs (Awaits db) db db') (hrep : RowRepaired blobs (Awaits db') row' row'') : row''=row' := by
  cases hrep with
  | untouched _ _ => rfl
  | superseded _ _ hrun _ _ hrecoverable => exact absurd hrecoverable (h.unrecoverable hwf hwf' hrun)
  | @reconciled hawaits artifacts' persisted' hagain hiff =>
    obtain ⟨row,artifacts,hartifacts,rfl,hmissing⟩ := h.still_awaits hwf hawaits
    have hp : persisted'=false := by
      have hnot := mt hiff.mp (h.unrecoverable hwf hwf' hawaits)
      simpa using hnot
    have hsame : artifacts'=artifacts := by
      refine eq_of_forall₂ hagain fun a' ha' a'' hrec => ?_
      obtain ⟨a,_,hfirst⟩ := (mem_of_forall₂ hartifacts).1 a' ha'
      exact hfirst.again hrec hmissing
    rw [hp,hsame]
    rfl

/-- A repaired database stays as it is. -/
theorem RepairedRows.settled (hwf : WellFormed db) (hwf' : WellFormed db')
    (h : RepairedRows blobs (Awaits db) db db') (h' : RepairedRows blobs (Awaits db') db' db'') : db''=db' :=
  db_eq (eq_of_forall₂ h'.rows fun _ _ _ hrep => h.row_settled hwf hwf' hrep) h'.identities

/-- A report over runs that miss every blob they list, and list one, recovers nothing. -/
theorem count_missing {runs : List UnpersistedRun}
    (hmissing : ∀ run∈runs,(∀ k∈run.blobKeys,blobs.get k=none) ∧ run.blobKeys≠[]) (report : RepairReport) :
    (runs.foldl (RepairReport.count blobs) report).runsRecovered=report.runsRecovered ∧
      (runs.foldl (RepairReport.count blobs) report).blobsReconciled=report.blobsReconciled := by
  induction runs generalizing report with
  | nil => exact ⟨rfl,rfl⟩
  | cons run runs ih =>
    obtain ⟨hnone,hne⟩ := hmissing run List.mem_cons_self
    have hreconciled : (run.blobKeys.countP fun k => (blobs.get k).isSome)=0 :=
      List.countP_eq_zero.mpr fun k hk => by simp [hnone k hk]
    have hmissed : (run.blobKeys.countP fun k => (blobs.get k).isNone)≠0 := by
      obtain ⟨k,hk⟩ := List.exists_mem_of_ne_nil _ hne
      intro hzero
      have hsome := List.countP_eq_zero.mp hzero k hk
      simp [hnone k hk] at hsome
    obtain ⟨hr,hb⟩ := ih (fun r hr => hmissing r (List.mem_cons_of_mem _ hr)) (RepairReport.count blobs report run)
    refine ⟨hr.trans ?_,hb.trans ?_⟩
    · simp only [RepairReport.count,if_neg hmissed,Nat.add_zero]
    · simp only [RepairReport.count,hreconciled,Nat.add_zero]

/-- A second report recovers nothing. -/
theorem RepairedRows.nothing_recovered (hwf : WellFormed db) (h : RepairedRows blobs (Awaits db) db db')
    {runs : List UnpersistedRun} (hruns : runsAwaitingPersistence db'=.ok runs) :
    (runs.foldl (RepairReport.count blobs) ⟨0,0,0,0⟩).runsRecovered=0 ∧
      (runs.foldl (RepairReport.count blobs) ⟨0,0,0,0⟩).blobsReconciled=0 := by
  refine count_missing (fun run hrun => ?_) _
  obtain ⟨row',hrow',hawait,hu⟩ := (runsAwaitingPersistence_ok hruns).1 run hrun
  obtain ⟨_,_,_,_,hmissing⟩ := h.still_awaits hwf ⟨hrow',hawait⟩
  have hlisted := (unpersistedRun_ok hu).2.2
  refine ⟨fun k hk => (hmissing k ((hlisted k).mp hk)).2,?_⟩
  obtain ⟨_,⟨a,ha,hstatus⟩,_⟩ := isAwaiting_iff.mp hawait
  obtain ⟨k,hk⟩ := unstored_key hu ha hstatus
  exact List.ne_nil_of_mem ((hlisted k).mpr ⟨a,ha,hstatus,hk⟩)

/-- Two lists whose elements are selected alike, and then are the same, select the same. -/
theorem filter_of_forall₂ {α : Type} {R : α → α → Prop} {p : α → Bool} {as bs : List α}
    (h : List.Forall₂ R as bs) (hsame : ∀ a b,R a b → p a=p b ∧ (p a=true → a=b)) : as.filter p=bs.filter p := by
  induction h with
  | nil => rfl
  | @cons a b as bs hd _ ih =>
    obtain ⟨hp,heq⟩ := hsame a b hd
    by_cases ha : p a=true
    · rw [List.filter_cons_of_pos ha,List.filter_cons_of_pos (hp ▸ ha),ih,heq ha]
    · rw [List.filter_cons_of_neg ha,List.filter_cons_of_neg (hp ▸ ha),ih]

/-- A key without a listed success keeps its current execution. -/
theorem RepairedRows.keeps_current (h : RepairedRows blobs (Awaits db) db db') {key : ExecutionKey}
    (hfailed : ∀ run,Awaits db run → run.executionKey=key → run.state≠.value .success) :
    db'.currentRow key=db.currentRow key := by
  unfold Db.currentRow
  rw [filter_of_forall₂ h.rows fun r r' hrep => ?_]
  cases hrep with
  | untouched _ _ => exact ⟨rfl,fun _ => rfl⟩
  | @reconciled hawaits artifacts persisted _ _ =>
    have hbefore : isCurrent key r=false := by
      by_contra hcur
      exact hawaits.not_servable ((isCurrent_iff _ _).mp (Bool.eq_true_of_not_eq_false hcur)).2
    have hafter : isCurrent key (r.update fun c =>
        { c with artifacts := artifacts, outputPersisted := persisted })=false := by
      by_contra hcur
      obtain ⟨hkey,hservable⟩ := (isCurrent_iff _ _).mp (Bool.eq_true_of_not_eq_false hcur)
      exact hfailed r hawaits hkey ((MutableColumns.servable_iff _).mp hservable).1
    rw [hbefore,hafter]
    exact ⟨rfl,fun h => nomatch h⟩
  | @superseded now _ run hrun hkey hstate _ =>
    have hne : r.executionKey≠key := fun heq => hfailed run hrun (hkey.trans heq) hstate
    have hbefore : isCurrent key r=false := by
      by_contra hcur
      exact hne ((isCurrent_iff _ _).mp (Bool.eq_true_of_not_eq_false hcur)).1
    have hafter : isCurrent key (r.update fun c => { c with supersededAt := some (.value now) })=false := by
      by_contra hcur
      exact hne ((isCurrent_iff _ _).mp (Bool.eq_true_of_not_eq_false hcur)).1
    rw [hbefore,hafter]
    exact ⟨rfl,fun h => nomatch h⟩

end Settled

/-- Every call leaves a well-formed store well formed. -/
theorem reach_wellFormed {Command α : Type} {locks : LockMode} {faults : Faults Command} {thread : ThreadId}
    {p q : ServiceM Command α} {w w' : World} (h : Reach (Answers locks faults thread) p w q w')
    (hwf : WellFormed w.db) : WellFormed w'.db := by
  refine Reach.invariant (I := fun w => WellFormed w.db) (fun call s r s' hcall hs => ?_) h hwf
  cases hcall with
  | commit now ht => exact transact_wellFormed hs ht
  | _ => exact hs

/-- A repair alone ends with a report of every listed run. It reconciles the artifacts of
each listed run under the keys of its un-stored ones, finalizes exactly those that miss no
blob, and leaves every other row but for the current ones that a finalized success
supersedes; a failed run displaces nothing. A second repair changes nothing and recovers
nothing. -/
theorem repair_exact {Command : Type} {locks : LockMode} {thread : ThreadId} {w w' : World}
    {r : Except PyExc RepairReport} (hwf : WellFormed w.db)
    (hrun : Ends (Answers locks (noFaults : Faults Command) thread) repair w r w') :
    (∃ runs,runsAwaitingPersistence w.db=.ok runs ∧
        r=.ok (runs.foldl (RepairReport.count w.blobs) ⟨0,0,0,0⟩)) ∧
      w'={ w with db := w'.db } ∧ RepairedRows w.blobs (Awaits w.db) w.db w'.db ∧
      (∀ key,(∀ run,Awaits w.db run → run.executionKey=key → run.state≠.value .success) →
        w'.db.currentRow key=w.db.currentRow key) ∧
      ∀ (locks' : LockMode) (thread' : ThreadId) (r' : Except PyExc RepairReport) (w'' : World),
        Ends (Answers locks' (noFaults : Faults Command) thread') repair w' r' w'' →
        w''=w' ∧ ∃ report,r'=.ok report ∧ report.runsRecovered=0 ∧ report.blobsReconciled=0 := by
  obtain ⟨hreport,hw,hrows⟩ := (safe_repair hwf).result hrun
  have hwf' := reach_wellFormed hrun hwf
  refine ⟨hreport,hw,hrows,fun key hfailed => hrows.keeps_current hfailed,fun locks' thread' r' w'' hagain => ?_⟩
  obtain ⟨⟨runs,hruns,hr'⟩,hw'',hrows'⟩ := (safe_repair hwf').result hagain
  have hblobs : w'.blobs=w.blobs := by rw [hw]
  rw [hblobs] at hr' hrows'
  have hdb := hrows.settled hwf hwf' hrows'
  refine ⟨?_,_,hr',hrows.nothing_recovered hwf hruns⟩
  rw [hw'',hdb]

section Purged
open CallAutomaton ServiceOperations

/-- A recording on the first thread, and a purge of its key on every other. -/
def recordAndPurge : ThreadId → Operation SmallestCommand
  | 0 => .execute smallestService ⟨.cache,.cache⟩
  | _ => .purgeByKey ((⟨⟨0⟩,[],[]⟩ : CallIdentity).generateKey) false

/-- A client run that leaves three empty documents. -/
def emptyDocuments : ClientRunResult := { exitCode := 0, files := [{ name := pyStr "f", content := [] }] }

/-- A call of one thread, whose key lock timed out. -/
def unlockedCall (thread : ThreadId) : ThreadId × Handler (Call SmallestCommand) Call.Ret PyExc World :=
  (thread,answerWith .unlocked thread 0 (.ok emptyDocuments) ⟨0⟩)

/-- The purge lists the first document and drops its row, the recording stores the second and
attaches the third, and then the purge removes the blob of all three. -/
def purgedRecording : Pool (Call SmallestCommand) Call.Ret PyExc (fun _ : ThreadId => Unit) World :=
  drivePool (List.replicate 12 (unlockedCall 0) ++ List.replicate 4 (unlockedCall 1) ++
    List.replicate 4 (unlockedCall 0) ++ [unlockedCall 1]) (fun i => program positional (recordAndPurge i),World.empty)

/-- It is a run. -/
theorem purgedRecording_reach : PoolReach (fun i => Answers .unlocked (noFaults : Faults SmallestCommand) i)
    (fun i => program positional (recordAndPurge i),World.empty) purgedRecording := by
  refine drivePool_reach _ (fun entry hentry => ?_) _
  have hcall : ∃ i,entry=unlockedCall i := by
    simp only [List.mem_append,List.mem_replicate,List.mem_singleton] at hentry
    rcases hentry with ((⟨_,h⟩ | ⟨_,h⟩) | ⟨_,h⟩) | h
    all_goals exact ⟨_,h⟩
  obtain ⟨i,rfl⟩ := hcall
  exact answerWith_respects _ _ _

/-- A repair of that store marks the document failed that was stored. -/
theorem repair_exact_fails :
    ¬ ∀ (operations : ThreadId → Operation SmallestCommand)
      (c : Pool (Call SmallestCommand) Call.Ret PyExc (fun _ : ThreadId => Unit) World),
      PoolReach (fun i => Answers .unlocked (noFaults : Faults SmallestCommand) i)
        (fun i => program positional (operations i),World.empty) c →
      ∀ r w',Ends (Answers .unlocked (noFaults : Faults SmallestCommand) 0) repair c.2 r w' →
      ∀ row∈c.2.db.executions,isAwaiting c.2.db row=true →
      ∀ row'∈w'.db.executions,row'.executionId=row.executionId →
        List.Forall₂ (fun a a' => a.status=.value .stored → a'.status=.value .stored) row.artifacts row'.artifacts := by
  intro h
  have hdriven : Reach (Answers .unlocked (noFaults : Faults SmallestCommand) 0) _ _ _ _ := drive_reach
    (List.replicate 10 (unlockedCall 0).2) (fun handler hmem => by
      rw [List.eq_of_mem_replicate hmem]
      exact answerWith_respects _ _ _) repair purgedRecording.2
  have hvalue : (drive (List.replicate 10 (unlockedCall 0).2) repair purgedRecording.2).1.value=
      some ⟨0,1,0,1⟩ := by decide +kernel
  have hbefore : purgedRecording.2.db.executions.map (fun row =>
      (row.executionId,isAwaiting purgedRecording.2.db row,row.artifacts.map (·.status)))=
      [(⟨0⟩,true,[.value .stored,.value .pending])] := by decide +kernel
  have hafter : (drive (List.replicate 10 (unlockedCall 0).2) repair purgedRecording.2).2.db.executions.map
      (fun row => (row.executionId,row.artifacts.map (·.status)))=
      [(⟨0⟩,[.value .failed,.value .failed])] := by decide +kernel
  rw [Prog.value_eq_some.mp hvalue] at hdriven
  obtain ⟨row,hrows,hrow⟩ := List.map_eq_singleton_iff.mp hbefore
  obtain ⟨row',hrows',hrow'⟩ := List.map_eq_singleton_iff.mp hafter
  simp only [Prod.mk.injEq] at hrow hrow'
  have hall := h _ _ purgedRecording_reach _ _ hdriven row (by rw [hrows]; exact List.mem_singleton_self _) hrow.2.1 row'
    (by rw [hrows']; exact List.mem_singleton_self _) (hrow'.1.trans hrow.1.symm)
  have hstatus : List.Forall₂ (fun s s' => s=.value .stored → s'=.value .stored)
      (row.artifacts.map (·.status)) (row'.artifacts.map (·.status)) :=
    List.forall₂_map_left_iff.mpr (List.forall₂_map_right_iff.mpr hall)
  rw [hrow.2.2,hrow'.2] at hstatus
  cases hstatus with
  | cons hd _ => exact nomatch hd rfl

/-- A repair after a recording that stopped before its run was finalized makes the run servable. -/
theorem repair_exact_stopped :
    ∃ w r w',Ends (Answers .exclusive (noFaults : Faults SmallestCommand) 0) repair w r w' ∧
      RepairedRows w.blobs (Awaits w.db) w.db w'.db ∧ w.db.executions.map (·.servable)=[false] ∧
      w'.db.executions.map (·.servable)=[true] := by
  have hstopped : Reach (Answers .exclusive (noFaults : Faults SmallestCommand) 0) _ _ _ _ :=
    drive_reach (answers 11 0) (answers_respect 11 0) (program positional (recordAndPurge 0)) World.empty
  have hbefore : (drive (answers 11 0) (program positional (recordAndPurge 0)) World.empty).2.db.executions.map
      (·.servable)=[false] := by decide +kernel
  have hrun : Reach (Answers .exclusive (noFaults : Faults SmallestCommand) 0) _ _ _ _ :=
    drive_reach (answers 10 0) (answers_respect 10 0) repair (drive (answers 11 0) (program positional (recordAndPurge 0)) World.empty).2
  have hvalue : (drive (answers 10 0) repair
      (drive (answers 11 0) (program positional (recordAndPurge 0)) World.empty).2).1.value=some ⟨1,0,1,0⟩ := by
    decide +kernel
  have hafter : (drive (answers 10 0) repair
      (drive (answers 11 0) (program positional (recordAndPurge 0)) World.empty).2).2.db.executions.map
      (·.servable)=[true] := by decide +kernel
  rw [Prog.value_eq_some.mp hvalue] at hrun
  exact ⟨_,_,_,hrun,(repair_exact (reach_wellFormed hstopped .empty) hrun).2.2.1,hbefore,hafter⟩

end Purged

end GenericMlCache.RepairedRuns
