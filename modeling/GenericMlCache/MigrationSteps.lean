import GenericMlCache.SchemaMigration

/-!
# What opening a store does to it

Whatever the processes and the system do, the store moves by four kinds of
steps: it stays, its version table is made, its legacy version is recorded, or
the next file is committed. The lock keeps every other process out while one
stands between reading the version and the commit.
-/

namespace GenericMlCache.MigrationSteps

open CallProgram CallAutomaton SchemaMigration

variable {ι Schema : Type}

/-- A store and the files that were committed to it. -/
structure Store (Schema : Type) where
  /-- The database. -/
  db : Database Schema
  /-- The files committed, each with the version it met. -/
  committed : List (ℤ × ℤ)

/-- One step of a store. -/
inductive Advance (shipped : Shipped Schema) : Store Schema → Store Schema → Prop where
  | created {s : Store Schema} (h : s.db.rows=none) : Advance shipped s { s with db := { s.db with rows := some [] } }
  | seeded {s : Store Schema} (h : s.db.rows=some []) :
      Advance shipped s { s with db := { s.db with rows := some [s.db.userVersion] } }
  | applied {s : Store Schema} {v : ℤ} {f : Schema → Option Schema} {schema : Schema} (h : s.db.rows=some [v])
      (hlt : v < shipped.current) (hf : shipped.file (v+1)=some f) (hschema : f s.db.schema=some schema) :
      Advance shipped s ⟨⟨s.db.userVersion,some [v+1],schema⟩,s.committed ++ [(v+1,v)]⟩

/-- Any number of steps of a store. -/
abbrev Advances (shipped : Shipped Schema) : Store Schema → Store Schema → Prop :=
  Relation.ReflTransGen (Advance shipped)

section Advances
variable {shipped : Shipped Schema} {s s' : Store Schema}

/-- A step leaves the version, or is the commit of the next file. -/
theorem Advance.version (h : Advance shipped s s') :
    (s'.db.version=s.db.version ∧ s'.committed=s.committed) ∨
      (s.db.version < shipped.current ∧ s'.db.version=s.db.version+1 ∧
        s'.committed=s.committed ++ [(s.db.version+1,s.db.version)]) := by
  cases h with
  | created h => exact Or.inl ⟨by simp [Database.version,h],rfl⟩
  | seeded h => exact Or.inl ⟨by simp [Database.version,h],rfl⟩
  | applied h hlt =>
    right
    simp only [Database.version,h]
    exact ⟨hlt,trivial,trivial⟩

/-- The version never decreases. -/
theorem Advances.version_le (h : Advances shipped s s') : s.db.version ≤ s'.db.version := by
  induction h with
  | refl => exact le_rfl
  | tail _ hstep ih =>
    rcases hstep.version with ⟨heq,_⟩ | ⟨_,heq,_⟩
    · rw [heq]
      exact ih
    · omega

/-- What was committed from a version on: each file on the version before it,
none beyond the store's version, and none twice. -/
structure Ordered (version : ℤ) (committed : List (ℤ × ℤ)) : Prop where
  /-- A file met the version before its own. -/
  before : ∀ entry∈committed,entry.2=entry.1-1
  /-- The store has come as far. -/
  reached : ∀ entry∈committed,entry.1 ≤ version
  /-- No file was committed twice. -/
  nodup : (committed.map Prod.fst).Nodup

/-- Committed files stay in order. -/
theorem Advances.ordered (h : Advances shipped s s') (hs : Ordered s.db.version s.committed) :
    Ordered s'.db.version s'.committed := by
  induction h with
  | refl => exact hs
  | tail _ hstep ih =>
    rename_i s₁ s₂ _
    rcases hstep.version with ⟨hversion,hcommitted⟩ | ⟨_,hversion,hcommitted⟩
    · rw [hversion,hcommitted]
      exact ih
    · rw [hversion,hcommitted]
      constructor
      · intro entry hentry
        rcases List.mem_append.mp hentry with hentry | hentry
        · exact ih.before entry hentry
        · rw [List.mem_singleton.mp hentry]
          simp
      · intro entry hentry
        rcases List.mem_append.mp hentry with hentry | hentry
        · have hle := ih.reached entry hentry
          omega
        · rw [List.mem_singleton.mp hentry]
      · rw [List.map_append,List.nodup_append]
        refine ⟨ih.nodup,List.nodup_singleton _,?_⟩
        intro k hk l hl
        obtain ⟨entry,hentry,rfl⟩ := List.mem_map.mp hk
        have hle := ih.reached entry hentry
        have hl : l=s₁.db.version+1 := by simpa using hl
        omega

/-- A store at the build's version or beyond stays at its version. -/
theorem Advances.stays (h : Advances shipped s s') (hs : shipped.current ≤ s.db.version) :
    s'.db.version=s.db.version ∧ s'.committed=s.committed := by
  induction h with
  | refl => exact ⟨rfl,rfl⟩
  | tail _ hstep ih =>
    rcases hstep.version with ⟨hversion,hcommitted⟩ | ⟨hlt,_,_⟩
    · exact ⟨hversion.trans ih.1,hcommitted.trans ih.2⟩
    · rw [ih.1] at hlt
      omega

/-- A store of a newer build is left, but for a version table where nothing was
recorded, with the legacy version in it or empty. -/
theorem Advances.newer (h : Advances shipped s s') (hs : shipped.current < s.db.version) :
    s'.db=s.db ∨ (s.db.rows=none ∨ s.db.rows=some []) ∧
      (s'.db={ s.db with rows := some [] } ∨ s'.db={ s.db with rows := some [s.db.userVersion] }) := by
  induction h with
  | refl => exact Or.inl rfl
  | tail hrun hstep ih =>
    have hstays := Advances.stays hrun hs.le
    cases hstep with
    | created h =>
      rcases ih with heq | ⟨hbefore,heq⟩
      · rw [heq] at h ⊢
        exact Or.inr ⟨Or.inl h,Or.inl rfl⟩
      · refine Or.inr ⟨hbefore,Or.inl ?_⟩
        rcases heq with heq | heq <;> rw [heq]
    | seeded h =>
      rcases ih with heq | ⟨hbefore,heq⟩
      · rw [heq] at h ⊢
        exact Or.inr ⟨Or.inr h,Or.inr rfl⟩
      · refine Or.inr ⟨hbefore,Or.inr ?_⟩
        rcases heq with heq | heq <;> rw [heq]
    | applied h hlt =>
      have hversion := hstays.1
      simp only [Database.version,h] at hversion
      simp only [Database.version] at hs
      omega

end Advances

/-- How far a process has come in opening the store. -/
inductive Phase where
  /-- Without the lock, before it. -/
  | waiting
  /-- With the lock, the version unknown. -/
  | held
  /-- The version table was empty. -/
  | empty
  /-- The legacy version was read. -/
  | toSeed (prior : ℤ)
  /-- The legacy version is inserted, not committed. -/
  | seeded (prior : ℤ)
  /-- The version is recorded. -/
  | known (version : ℤ)
  /-- In the transaction of the next file: begun, its statements run, the version bumped. -/
  | begun (version : ℤ)
  | ran (version : ℤ)
  | bumped (version : ℤ)
  /-- Something was raised. -/
  | failed
  /-- Without the lock, after it: the store is at the build's version, or that is not known. -/
  | left (current : Bool)
  | system
  /-- What the store cannot answer was answered. -/
  | gone
deriving DecidableEq

/-- The phases with the lock. -/
def Phase.isInside : Phase → Bool
  | .waiting | .left _ | .system | .gone => false
  | _ => true

/-- The phases in which a connection is closed. -/
def Phase.isClosable : Phase → Bool
  | .known _ | .failed => true
  | _ => false

/-- The phases between transactions. -/
def Phase.isBetween : Phase → Bool
  | .held | .known _ => true
  | _ => false

/-- Calls that change nothing. -/
def isQuiet : MigrationCall ι → Bool
  | .connect | .foreignKeysOff | .migrationFile _ | .readFile _ => true
  | _ => false

/-- The phase after the version table was read. -/
def afterSelect : List ℤ → Phase
  | [] => .empty
  | [version] => .known version
  | _ => .failed

/-- The turns of a process that opens the store. -/
inductive MigrationTurn (current : ℤ) : Turns (MigrationCall ι) MigrationCall.Ret MigrationExc Phase where
  | gone {call : MigrationCall ι} {r : Except MigrationExc call.Ret} : MigrationTurn current .gone call r .gone
  | openLock {r : Except MigrationExc Unit} : MigrationTurn current .waiting .openLock r .waiting
  | lock : MigrationTurn current .waiting .lock (.ok ()) .held
  | lockFailed {e : MigrationExc} : MigrationTurn current .waiting .lock (.error e) .waiting
  | closeUnlocked {r : Except MigrationExc Unit} : MigrationTurn current .waiting .closeLock r .waiting
  | quiet {φ : Phase} {call : MigrationCall ι} {a : call.Ret} (hφ : φ.isBetween=true) (h : isQuiet call=true) :
      MigrationTurn current φ call (.ok a) φ
  | createTable : MigrationTurn current .held .createTable (.ok ()) .held
  | select {rows : List ℤ} : MigrationTurn current .held .selectVersions (.ok rows) (afterSelect rows)
  | userVersion {version : ℤ} : MigrationTurn current .empty .userVersion (.ok version) (.toSeed version)
  | misread {e : MigrationExc} (h : e.isException=true) :
      MigrationTurn current .empty .userVersion (.error e) (.toSeed 0)
  | insert {prior : ℤ} : MigrationTurn current (.toSeed prior) (.insertVersion prior) (.ok ()) (.seeded prior)
  | commitSeed {prior : ℤ} : MigrationTurn current (.seeded prior) .commit (.ok ()) (.known prior)
  | reread {prior : ℤ} {row : Option ℤ} (h : row.getD prior=prior) :
      MigrationTurn current (.known prior) .selectVersion (.ok row) (.known prior)
  | lied {prior : ℤ} {row : Option ℤ} (h : row.getD prior≠prior) :
      MigrationTurn current (.known prior) .selectVersion (.ok row) .gone
  | beginScript {version : ℤ} (hlt : version < current) :
      MigrationTurn current (.known version) .beginScript (.ok ()) (.begun version)
  | runFile {version : ℤ} : MigrationTurn current (.begun version) (.runFile (version+1)) (.ok ()) (.ran version)
  | bump {version : ℤ} : MigrationTurn current (.ran version) (.updateVersion (version+1)) (.ok ()) (.bumped version)
  | commit {version : ℤ} : MigrationTurn current (.bumped version) .commit (.ok ()) (.known (version+1))
  | fail {φ : Phase} {call : MigrationCall ι} {e : MigrationExc} (hφ : φ.isInside=true) :
      MigrationTurn current φ call (.error e) .failed
  | rollback {φ : Phase} (hφ : φ.isClosable=true) : MigrationTurn current φ .rollback (.ok ()) φ
  | close {φ : Phase} (hφ : φ.isClosable=true) : MigrationTurn current φ .close (.ok ()) φ
  | unlock {φ : Phase} (hφ : φ.isClosable=true) :
      MigrationTurn current φ .unlock (.ok ()) (.left (decide (φ=.known current)))
  | closeLock {b : Bool} {r : Except MigrationExc Unit} : MigrationTurn current (.left b) .closeLock r (.left b)
  | kill {i : ι} : MigrationTurn current .system (.kill i) (.ok ()) .system
  | killRaised {i : ι} {e : MigrationExc} : MigrationTurn current .system (.kill i) (.error e) .gone

section Following
variable {α β : Type} {current : ℤ} {good : α → Phase → Prop}

/-- Every program follows once it is gone. -/
theorem follows_gone {Q : Except MigrationExc α → Phase → Prop} (p : MigrationM ι α) (h : ∀ r,Q r .gone) :
    Follows (MigrationTurn current) Q p .gone := by
  induction p with
  | done r => exact h r
  | call call next ih => exact fun r => ⟨.gone,.gone,ih r⟩

/-- How a program ends inside the lock: where `good` says, or with an error
where its connection can be closed. -/
def EndsInside (good : α → Phase → Prop) (r : Except MigrationExc α) (φ : Phase) : Prop :=
  φ=.gone ∨ match r with
    | .ok a => good a φ
    | .error _ => φ.isClosable=true

variable (current) in
/-- Programs inside the lock. -/
abbrev Inside (good : α → Phase → Prop) (p : MigrationM ι α) (φ : Phase) : Prop :=
  Follows (MigrationTurn current) (EndsInside good) p φ

/-- Sequencing. -/
theorem Inside.bind {good' : β → Phase → Prop} {p : MigrationM ι α} {f : α → MigrationM ι β} {φ : Phase}
    (h : Inside current good p φ) (hok : ∀ a φ',good a φ' → Inside current good' (f a) φ') :
    Inside current good' (p >>= f) φ := by
  refine Follows.seq h (fun a φ' hend => ?_) fun e φ' hend => hend
  rcases hend with rfl | hgood
  · exact follows_gone (f a) fun r => Or.inl rfl
  · exact hok a φ' hgood

/-- One call inside the lock. -/
theorem inside_call {call : MigrationCall ι} {φ : Phase} {good : call.Ret → Phase → Prop} (hφ : φ.isInside=true)
    (h : ∀ a,∃ φ',MigrationTurn current φ call (.ok a) φ' ∧ (φ'=.gone ∨ good a φ')) :
    Inside current good (migration call) φ := by
  intro r
  cases r with
  | ok a =>
    obtain ⟨φ',hturn,hgood⟩ := h a
    exact ⟨φ',hturn,hgood⟩
  | error e => exact ⟨.failed,.fail hφ,Or.inr rfl⟩

/-- A call that changes nothing. -/
theorem inside_quiet {call : MigrationCall ι} {φ : Phase} (hφ : φ.isBetween=true) (h : isQuiet call=true) :
    Inside current (fun _ φ' => φ'=φ) (migration call) φ := by
  have hinside : φ.isInside=true := by
    cases φ with
    | held => rfl
    | known version => rfl
    | _ => exact nomatch hφ
  exact inside_call hinside fun a => ⟨φ,.quiet hφ h,Or.inr rfl⟩

/-- The version that is to be seeded. -/
theorem inside_priorVersion : Inside current (fun v φ => φ=.toSeed v) (priorVersion : MigrationM ι ℤ) .empty := by
  have hread : Follows (MigrationTurn (ι := ι) current) (fun r φ => match r with
      | .ok v => φ=.toSeed v
      | .error e => (e.isException=true → φ=.toSeed 0) ∧ (¬e.isException=true → φ=.failed))
      (migration .userVersion) .empty := by
    intro r
    cases r with
    | ok v => exact ⟨_,.userVersion,rfl⟩
    | error e =>
      by_cases he : e.isException=true
      · exact ⟨_,.misread he,fun _ => rfl,fun hnot => absurd he hnot⟩
      · exact ⟨_,.fail rfl,fun hyes => absurd hyes he,fun _ => rfl⟩
  refine Follows.attempt_seq hread fun r φ hend => ?_
  cases r with
  | ok v => exact Or.inr hend
  | error e =>
    refine Follows.ite (fun he => Or.inr (hend.1 he)) fun he => Or.inr ?_
    have hfailed : φ=.failed := hend.2 he
    subst hfailed
    rfl

/-- The recorded version is returned. -/
theorem inside_bootstrapVersion :
    Inside current (fun v φ => φ=.known v) (bootstrapVersion : MigrationM ι ℤ) .held := by
  have hcreate : Inside current (fun _ φ => φ=.held) (migration (.createTable : MigrationCall ι)) .held :=
    inside_call rfl fun _ => ⟨_,.createTable,Or.inr rfl⟩
  have hselect : Inside current (fun rows φ => φ=afterSelect rows) (migration (.selectVersions : MigrationCall ι)) .held :=
    inside_call rfl fun rows => ⟨_,.select,Or.inr rfl⟩
  refine hcreate.bind fun _ φ hφ => ?_
  subst hφ
  refine hselect.bind fun rows φ hφ => ?_
  subst hφ
  match rows with
  | [version] => exact Or.inr rfl
  | _::_::_ => exact Or.inr rfl
  | [] =>
    refine inside_priorVersion.bind fun prior φ hφ => ?_
    subst hφ
    have hinsert : Inside current (fun _ φ => φ=.seeded prior) (migration (.insertVersion prior : MigrationCall ι))
        (.toSeed prior) := inside_call rfl fun _ => ⟨_,.insert,Or.inr rfl⟩
    have hcommit : Inside current (fun _ φ => φ=.known prior) (migration (.commit : MigrationCall ι)) (.seeded prior) :=
      inside_call rfl fun _ => ⟨_,.commitSeed,Or.inr rfl⟩
    have hreread : Inside current (fun row φ => φ=.known prior ∧ row.getD prior=prior)
        (migration (.selectVersion : MigrationCall ι)) (.known prior) := by
      refine inside_call rfl fun row => ?_
      by_cases hrow : row.getD prior=prior
      · exact ⟨_,.reread hrow,Or.inr ⟨rfl,hrow⟩⟩
      · exact ⟨_,.lied hrow,Or.inl rfl⟩
    refine hinsert.bind fun _ φ hφ => ?_
    subst hφ
    refine hcommit.bind fun _ φ hφ => ?_
    subst hφ
    refine hreread.bind fun row φ hφ => ?_
    obtain ⟨rfl,hrow⟩ := hφ
    exact Or.inr (by rw [hrow])

variable {version : ℤ}

/-- A script that ends commits the next version. -/
theorem inside_executeScript (hlt : version < current) :
    Inside current (fun _ φ => φ=.known (version+1)) (executeScript (version+1) : MigrationM ι Unit) (.known version) := by
  have hbegin : Inside current (fun _ φ => φ=.begun version) (migration (.beginScript : MigrationCall ι)) (.known version) :=
    inside_call rfl fun _ => ⟨_,.beginScript hlt,Or.inr rfl⟩
  have hrun : Inside current (fun _ φ => φ=.ran version) (migration (.runFile (version+1) : MigrationCall ι))
      (.begun version) := inside_call rfl fun _ => ⟨_,.runFile,Or.inr rfl⟩
  have hbump : Inside current (fun _ φ => φ=.bumped version) (migration (.updateVersion (version+1) : MigrationCall ι))
      (.ran version) := inside_call rfl fun _ => ⟨_,.bump,Or.inr rfl⟩
  have hcommit : Inside current (fun _ φ => φ=.known (version+1)) (migration (.commit : MigrationCall ι))
      (.bumped version) := inside_call rfl fun _ => ⟨_,.commit,Or.inr rfl⟩
  refine hbegin.bind fun _ φ hφ => ?_
  subst hφ
  refine hrun.bind fun _ φ hφ => ?_
  subst hφ
  refine hbump.bind fun _ φ hφ => ?_
  subst hφ
  exact hcommit

/-- A migration that succeeds leaves the next version. -/
theorem inside_applyMigration (hlt : version < current) :
    Inside current (fun _ φ => φ=.known (version+1)) (applyMigration (version+1) : MigrationM ι Unit) (.known version) := by
  refine (inside_quiet rfl rfl).bind fun _ φ hφ => ?_
  subst hφ
  refine (inside_quiet rfl rfl).bind fun _ φ hφ => ?_
  subst hφ
  refine Follows.attempt_seq (inside_executeScript hlt) fun r φ hend => ?_
  rcases hend with rfl | hend
  · exact follows_gone _ fun r => Or.inl rfl
  · cases r with
    | ok _ => exact Or.inr hend
    | error e =>
      refine Follows.ite (fun _ => ?_) fun _ => Or.inr hend
      have hinside : φ.isInside=true := by
        cases φ with
        | known version => rfl
        | failed => rfl
        | _ => exact nomatch hend
      have hrollback : Inside current (fun _ φ' => φ'=φ) (migration (.rollback : MigrationCall ι)) φ :=
        inside_call hinside fun _ => ⟨φ,.rollback hend,Or.inr rfl⟩
      refine hrollback.bind fun _ φ' hφ' => ?_
      subst hφ'
      exact Or.inr hend

/-- All migrations leave the version that they count up to. -/
theorem inside_applyMigrations {count : ℕ} (hle : version+count ≤ current) :
    Inside current (fun _ φ => φ=.known (version+count)) (applyMigrations version count : MigrationM ι Unit)
      (.known version) := by
  induction count generalizing version with
  | zero => exact Or.inr (by simp)
  | succ count ih =>
    refine (inside_applyMigration (by omega)).bind fun _ φ hφ => ?_
    subst hφ
    have hrest : Inside current (fun _ φ => φ=.known (version+1+count))
        (applyMigrations (version+1) count : MigrationM ι Unit) (.known (version+1)) := ih (by omega)
    refine hrest.weaken fun r φ hend => ?_
    rcases hend with hgone | hend
    · exact Or.inl hgone
    · refine Or.inr ?_
      cases r with
      | ok _ =>
        have hcount : version+1+count=version+(count+1 : ℕ) := by omega
        exact hend.trans (by rw [hcount])
      | error e => exact hend

/-- What runs under the lock leaves the build's version where it succeeds. -/
theorem inside_runMigrationsLocked :
    Inside current (fun _ φ => φ=.known current) (runMigrationsLocked current : MigrationM ι Unit) .held := by
  refine (inside_quiet rfl rfl).bind fun _ φ hφ => ?_
  subst hφ
  have hbody : Inside current (fun _ φ => φ=.known current) (do
      migration (.foreignKeysOff : MigrationCall ι)
      let version ← bootstrapVersion
      if current < version then
        raise (.storeSchemaTooNew (PythonText.pyStr "store schema version " ++ JsonText.intText version ++
          PythonText.pyStr " is newer than this build supports (this build ships migrations up to version " ++
          JsonText.intText current ++ PythonText.pyStr "); upgrade gmlcache to open this store"))
      else if version=current then return ()
      else applyMigrations version (current-version).toNat) .held := by
    refine (inside_quiet rfl rfl).bind fun _ φ hφ => ?_
    subst hφ
    refine inside_bootstrapVersion.bind fun version φ hφ => ?_
    subst hφ
    refine Follows.ite (fun _ => Or.inr rfl) fun hnewer => Follows.ite (fun heq => ?_) fun hne => ?_
    · subst heq
      exact Or.inr rfl
    · have hcount : version+(current-version).toNat=current := by omega
      have hrun : Inside current (fun _ φ => φ=.known (version+(current-version).toNat))
          (applyMigrations version (current-version).toNat : MigrationM ι Unit) (.known version) :=
        inside_applyMigrations hcount.le
      rw [hcount] at hrun
      exact hrun
  refine Follows.attempt_seq hbody fun r φ hend => ?_
  rcases hend with rfl | hend
  · exact follows_gone _ fun r => Or.inl rfl
  · have hclosable : φ.isClosable=true := by
      cases r with
      | ok _ => rw [hend]; rfl
      | error e => exact hend
    have hinside : φ.isInside=true := by
      cases φ with
      | known version => rfl
      | failed => rfl
      | _ => exact nomatch hclosable
    have hclose : Inside current (fun _ φ' => φ'=φ) (migration (.close : MigrationCall ι)) φ :=
      inside_call hinside fun _ => ⟨φ,.close hclosable,Or.inr rfl⟩
    refine hclose.bind fun _ φ' hφ' => ?_
    subst hφ'
    exact Or.inr hend

/-- An open that succeeds has left the store at the build's version. -/
theorem follows_runMigrations :
    Follows (MigrationTurn current) (fun r φ => φ=.gone ∨ (r=.ok () → φ=.left true))
      (runMigrations current : MigrationM ι Unit) .waiting := by
  have herror : ∀ {e : MigrationExc} {φ : Phase},φ=.gone ∨ ((.error e : Except MigrationExc Unit)=.ok () → φ=.left true) :=
    fun {_ _} => Or.inr fun h => nomatch h
  refine Follows.perform_bind (fun _ => ⟨_,.openLock,?_⟩) fun e => ⟨_,.openLock,herror⟩
  have hlock : Follows (MigrationTurn (ι := ι) current) (fun r φ => match r with
      | .ok _ => φ=.held
      | .error _ => φ=.waiting) (migration .lock) .waiting := by
    intro r
    cases r with
    | ok _ => exact ⟨_,.lock,rfl⟩
    | error e => exact ⟨_,.lockFailed,rfl⟩
  refine Follows.attempt_seq hlock fun r φ hφ => ?_
  cases r with
  | error e =>
    have hwaiting : φ=.waiting := hφ
    subst hwaiting
    exact Follows.ite (fun _ => Follows.perform_bind (fun _ => ⟨_,.closeUnlocked,herror⟩) fun e =>
      ⟨_,.closeUnlocked,herror⟩) fun _ => herror
  | ok _ =>
    have hheld : φ=.held := hφ
    subst hheld
    refine Follows.attempt_seq inside_runMigrationsLocked fun r φ hend => ?_
    rcases hend with rfl | hend
    · exact follows_gone _ fun r => Or.inl rfl
    · have hclosable : φ.isClosable=true := by
        cases r with
        | ok _ => rw [hend]; rfl
        | error e => exact hend
      have hinside : φ.isInside=true := by
        cases φ with
        | known version => rfl
        | failed => rfl
        | _ => exact nomatch hclosable
      have hleave : Follows (MigrationTurn (ι := ι) current) (fun c φ' => match c with
          | .ok _ => φ'=.left (decide (φ=.known current))
          | .error _ => True) (do migration .unlock; migration .closeLock) φ := by
        refine Follows.perform_bind (fun _ => ⟨_,.unlock hclosable,?_⟩) fun e => ⟨_,.fail hinside,trivial⟩
        refine Follows.perform fun c => ?_
        cases c with
        | ok _ => exact ⟨_,.closeLock,rfl⟩
        | error e => exact ⟨_,.closeLock,trivial⟩
      refine Follows.seq hleave (fun _ φ' hφ' => ?_) fun e φ' _ => herror
      cases r with
      | ok _ =>
        have hleft : φ'=.left (decide (φ=.known current)) := hφ'
        have hknown : φ=.known current := hend
        exact Or.inr fun _ => by rw [hleft,hknown,decide_eq_true rfl]
      | error e => exact herror

/-- The system kills. -/
theorem follows_killEach (killed : List ι) :
    Follows (MigrationTurn current) (fun _ φ => φ=.gone ∨ φ=.system) (killEach killed) .system := by
  induction killed with
  | nil => exact Or.inr rfl
  | cons i rest ih => exact Follows.perform_bind (fun _ => ⟨_,.kill,ih⟩) fun e => ⟨_,.killRaised,Or.inl rfl⟩

end Following

end GenericMlCache.MigrationSteps
