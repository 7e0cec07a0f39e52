import GenericMlCache.MigrationSteps

/-!
# Processes that open one store

Only the process with the lock knows a version or has a transaction, so that
every commit is one step of the store alone, whoever else waits, fails or dies.
-/

namespace GenericMlCache.MigrationRaces

open CallProgram CallAutomaton SchemaMigration MigrationSteps

variable {ι Schema : Type}

/-- The store of a world. -/
def storeOf (w : World ι Schema) : Store Schema := ⟨w.db,w.committed⟩

/-- What a live process knows of the world in each phase. -/
def Stage (shipped : Shipped Schema) (w : World ι Schema) (i : ι) : Phase → Prop
  | .waiting => w.transaction i=none
  | .left _ => True
  | .system | .gone => False
  | .held => w.holder=some i ∧ w.transaction i=none
  | .empty => w.holder=some i ∧ w.transaction i=none ∧ w.db.rows=some []
  | .toSeed prior => w.holder=some i ∧ w.transaction i=none ∧ w.db.rows=some [] ∧ prior=w.db.userVersion
  | .seeded prior => w.holder=some i ∧ w.transaction i=some ⟨{ w.db with rows := some [prior] },[]⟩ ∧
      w.db.rows=some [] ∧ prior=w.db.userVersion
  | .known version => w.holder=some i ∧ w.transaction i=none ∧ w.db.rows=some [version]
  | .begun version => w.holder=some i ∧ w.transaction i=some ⟨w.db,[]⟩ ∧ w.db.rows=some [version] ∧
      version < shipped.current
  | .ran version => w.holder=some i ∧ ∃ f schema,
      w.transaction i=some ⟨{ w.db with schema := schema },[version+1]⟩ ∧ w.db.rows=some [version] ∧
        version < shipped.current ∧ shipped.file (version+1)=some f ∧ f w.db.schema=some schema
  | .bumped version => w.holder=some i ∧ ∃ f schema,
      w.transaction i=some ⟨⟨w.db.userVersion,some [version+1],schema⟩,[version+1]⟩ ∧ w.db.rows=some [version] ∧
        version < shipped.current ∧ shipped.file (version+1)=some f ∧ f w.db.schema=some schema
  | .failed => w.holder=some i

section Stages
variable {shipped : Shipped Schema} {w w' : World ι Schema} {i : ι} {φ : Phase}

/-- Who is inside has the lock. -/
theorem Stage.holder (h : Stage shipped w i φ) (hφ : φ.isInside=true) : w.holder=some i := by
  cases φ with
  | waiting => exact nomatch hφ
  | left b => exact nomatch hφ
  | system => exact nomatch hφ
  | gone => exact nomatch hφ
  | failed => exact h
  | _ => exact h.1

/-- A process is in a phase of its own. -/
theorem Stage.proper (h : Stage shipped w i φ) : φ≠.gone ∧ φ≠.system := by
  constructor
  · rintro rfl
    exact h
  · rintro rfl
    exact h

/-- A stage depends on the database, the lock and the own transaction. -/
theorem Stage.same (h : Stage shipped w i φ) (hdb : w'.db=w.db) (hholder : w'.holder=w.holder)
    (htransaction : w'.transaction i=w.transaction i) : Stage shipped w' i φ := by
  cases φ with
  | left b => trivial
  | system => exact h
  | gone => exact h
  | _ =>
    simp only [Stage,hdb,hholder,htransaction]
    exact h

/-- What the others do leaves a stage. -/
theorem Stage.elsewhere (h : Stage shipped w i φ) (hdb : φ.isInside=true → w'.db=w.db)
    (hholder : w.holder=some i → w'.holder=some i) (htransaction : w'.transaction i=w.transaction i) :
    Stage shipped w' i φ := by
  by_cases hφ : φ.isInside=true
  · have hheld := h.holder hφ
    exact h.same (hdb hφ) ((hholder hheld).trans hheld.symm) htransaction
  · cases φ with
    | waiting => exact htransaction.trans h
    | left b => trivial
    | system => exact h
    | gone => exact h
    | _ => exact absurd rfl hφ

variable [DecidableEq ι]

/-- In a closable phase no transaction is relied on. -/
theorem Stage.discard (h : Stage shipped w i φ) (hφ : φ.isClosable=true) : Stage shipped (w.discard i) i φ := by
  cases φ with
  | known version => exact ⟨h.1,Function.update_self _ _ _,h.2.2⟩
  | failed => exact h
  | _ => exact nomatch hφ

end Stages

section Frames
variable {shipped : Shipped Schema} {w w' w'' : World ι Schema} {i : ι}

/-- The dead, the others' transactions and a lock that is another's are left. -/
structure Elsewhere (i : ι) (w w' : World ι Schema) : Prop where
  /-- No process dies or returns. -/
  dead : w'.dead=w.dead
  /-- The transactions of the others stay. -/
  transaction : ∀ j,j≠i → w'.transaction j=w.transaction j
  /-- So does a lock that another holds. -/
  holder : ∀ j,j≠i → w.holder=some j → w'.holder=some j

theorem Elsewhere.refl (i : ι) (w : World ι Schema) : Elsewhere i w w := ⟨rfl,fun _ _ => rfl,fun _ _ h => h⟩

theorem Elsewhere.trans (h : Elsewhere i w w') (h' : Elsewhere i w' w'') : Elsewhere i w w'' where
  dead := h'.dead.trans h.dead
  transaction := fun j hj => (h'.transaction j hj).trans (h.transaction j hj)
  holder := fun j hj hw => h'.holder j hj (h.holder j hj hw)

variable [DecidableEq ι]

/-- The own transaction and the database may change. -/
theorem elsewhere_update {db : Database Schema} {committed : List (ℤ × ℤ)} {t : Option (Transaction Schema)} :
    Elsewhere i w { w with db := db, committed := committed, transaction := Function.update w.transaction i t } where
  dead := rfl
  transaction := fun _ hj => Function.update_of_ne hj _ _
  holder := fun _ _ h => h

theorem elsewhere_edit (f : Database Schema → Database Schema) : Elsewhere i w (w.edit i f) := by
  unfold World.edit
  split
  · exact elsewhere_update
  · exact ⟨rfl,fun _ _ => rfl,fun _ _ h => h⟩

theorem elsewhere_editWithin (f : Database Schema → Database Schema) : Elsewhere i w (w.editWithin i f) := by
  unfold World.editWithin
  split <;> exact elsewhere_update

theorem elsewhere_commit : Elsewhere i w (w.commit i) := by
  unfold World.commit
  split
  · exact elsewhere_update
  · exact Elsewhere.refl i w

theorem elsewhere_unlock : Elsewhere i w (w.unlock i) where
  dead := rfl
  transaction := fun _ _ => rfl
  holder := by
    intro j hj hw
    have hother : w.holder≠some i := by
      rw [hw]
      exact fun h => hj (Option.some.inj h)
    rw [World.unlock,if_neg hother]
    exact hw

/-- A process's call leaves the others alone. -/
theorem elsewhere_answers {call : MigrationCall ι} {r : Except MigrationExc call.Ret}
    (h : ProcessAnswers shipped i call w r w') : Elsewhere i w w' := by
  cases h with
  | lock halive hfree =>
    refine ⟨rfl,fun _ _ => rfl,fun j hj hw => ?_⟩
    rw [hfree] at hw
    exact nomatch hw
  | unlock => exact elsewhere_unlock
  | closeLock => exact elsewhere_unlock
  | createTable => exact elsewhere_edit _
  | insertVersion => exact elsewhere_editWithin _
  | commit => exact elsewhere_commit
  | beginScript => exact elsewhere_commit.trans (elsewhere_editWithin _)
  | runFile => exact elsewhere_update
  | updateVersion => exact elsewhere_edit _
  | rollback => exact elsewhere_update
  | close => exact elsewhere_update
  | _ => exact Elsewhere.refl i w

end Frames

section Turns
variable {shipped : Shipped Schema} {w w' : World ι Schema} {i : ι} {φ φ' : Phase}

/-- What one call of a live process does, by its turn. -/
structure Moved (shipped : Shipped Schema) (i : ι) (φ φ' : Phase) (w w' : World ι Schema) : Prop where
  /-- The process stands where its phase says. -/
  own : Stage shipped w' i φ'
  /-- The store stays, or a file is committed to it. -/
  store : storeOf w'=storeOf w ∨ Advance shipped (storeOf w) (storeOf w')
  /-- Outside the lock the database stays. -/
  outside : φ.isInside=false → w'.db=w.db
  /-- A process that leaves with success leaves the build's version. -/
  left : φ'=.left true → φ=.left true ∨ w'.db.version=shipped.current

/-- A call that leaves the world. -/
theorem moved_same (h : Stage shipped w i φ') (hleft : φ'=.left true → φ=.left true) : Moved shipped i φ φ' w w :=
  ⟨h,Or.inl rfl,fun _ => rfl,fun h => Or.inl (hleft h)⟩

/-- A call inside the lock that leaves the store. -/
theorem moved_inside (h : Stage shipped w' i φ') (hstore : storeOf w'=storeOf w) (hφ' : φ'.isInside=true) :
    Moved shipped i φ φ' w w' := by
  refine ⟨h,Or.inl hstore,fun _ => congrArg Store.db hstore,fun hleft => ?_⟩
  rw [hleft] at hφ'
  exact nomatch hφ'

/-- A call inside the lock that is a step of the store. -/
theorem moved_advance (h : Stage shipped w' i φ') (hstore : Advance shipped (storeOf w) (storeOf w'))
    (hφ : φ.isInside=true) (hφ' : φ'.isInside=true) : Moved shipped i φ φ' w w' := by
  refine ⟨h,Or.inr hstore,fun hout => ?_,fun hleft => ?_⟩
  · rw [hφ] at hout
    exact nomatch hout
  · rw [hleft] at hφ'
    exact nomatch hφ'

variable [DecidableEq ι]

/-- Making the version table, where it is missing. -/
theorem moved_createTable (h : Stage shipped w i .held) :
    Moved shipped i .held .held w (w.edit i Database.createTable) := by
  obtain ⟨hholder,hnone⟩ := h
  have hedit : w.edit i Database.createTable={ w with db := w.db.createTable } := by rw [World.edit,hnone]
  rw [hedit]
  cases hrows : w.db.rows with
  | some rows =>
    have hdb : w.db.createTable=w.db := by rw [Database.createTable,hrows,Option.getD_some,← hrows]
    rw [hdb]
    exact moved_inside ⟨hholder,hnone⟩ rfl rfl
  | none =>
    have hdb : w.db.createTable={ w.db with rows := some [] } := by rw [Database.createTable,hrows,Option.getD_none]
    rw [hdb]
    exact moved_advance ⟨hholder,hnone⟩ (.created hrows) rfl rfl

/-- Committing the version that was seeded. -/
theorem moved_commitSeed {prior : ℤ} (h : Stage shipped w i (.seeded prior)) :
    Moved shipped i (.seeded prior) (.known prior) w (w.commit i) := by
  obtain ⟨hholder,htransaction,hrows,rfl⟩ := h
  have hcommit : w.commit i={ w with
      db := { w.db with rows := some [w.db.userVersion] }
      transaction := Function.update w.transaction i none } := by
    rw [World.commit,htransaction]
    simp
  rw [hcommit]
  exact moved_advance ⟨hholder,Function.update_self _ _ _,rfl⟩ (.seeded hrows) rfl rfl

/-- Committing a migration file. -/
theorem moved_commit {version : ℤ} (h : Stage shipped w i (.bumped version)) :
    Moved shipped i (.bumped version) (.known (version+1)) w (w.commit i) := by
  obtain ⟨hholder,f,schema,htransaction,hrows,hlt,hf,hschema⟩ := h
  have hversion : w.db.version=version := by simp [Database.version,hrows]
  have hcommit : w.commit i={ w with
      db := ⟨w.db.userVersion,some [version+1],schema⟩
      committed := w.committed ++ [(version+1,version)]
      transaction := Function.update w.transaction i none } := by
    rw [World.commit,htransaction]
    simp [hversion]
  rw [hcommit]
  exact moved_advance ⟨hholder,Function.update_self _ _ _,rfl⟩ (.applied hrows hlt hf hschema) rfl rfl

/-- The start of a migration script. -/
theorem moved_beginScript {version : ℤ} (h : Stage shipped w i (.known version)) (hlt : version < shipped.current) :
    Moved shipped i (.known version) (.begun version) w ((w.commit i).editWithin i id) := by
  obtain ⟨hholder,hnone,hrows⟩ := h
  have hbegin : (w.commit i).editWithin i id=w.run i ⟨w.db,[]⟩ := by simp [World.commit,World.editWithin,hnone]
  rw [hbegin]
  exact moved_inside ⟨hholder,Function.update_self _ _ _,hrows,hlt⟩ rfl rfl

/-- The version bump of a migration script. -/
theorem moved_bump {version : ℤ} (h : Stage shipped w i (.ran version)) :
    Moved shipped i (.ran version) (.bumped version) w
      (w.edit i fun db => db.updateVersion (version+1)) := by
  obtain ⟨hholder,f,schema,htransaction,hrows,hlt,hf,hschema⟩ := h
  have hedit : (w.edit i fun db => db.updateVersion (version+1))=
      w.run i ⟨⟨w.db.userVersion,some [version+1],schema⟩,[version+1]⟩ := by
    rw [World.edit,htransaction]
    simp [Database.updateVersion,hrows]
  rw [hedit]
  exact moved_inside ⟨hholder,f,schema,Function.update_self _ _ _,hrows,hlt,hf,hschema⟩ rfl rfl

/-- The row that seeds the version. -/
theorem moved_insert {prior : ℤ} (h : Stage shipped w i (.toSeed prior)) :
    Moved shipped i (.toSeed prior) (.seeded prior) w (w.editWithin i fun db => db.insertVersion prior) := by
  obtain ⟨hholder,hnone,hrows,hprior⟩ := h
  have hedit : (w.editWithin i fun db => db.insertVersion prior)=w.run i ⟨{ w.db with rows := some [prior] },[]⟩ := by
    rw [World.editWithin,hnone]
    simp [Database.insertVersion,hrows]
  rw [hedit]
  exact moved_inside ⟨hholder,Function.update_self _ _ _,hrows,hprior⟩ rfl rfl

/-- The statements of a migration file. -/
theorem moved_runFile {version : ℤ} {t : Transaction Schema} {f : Schema → Option Schema} {schema : Schema}
    (h : Stage shipped w i (.begun version)) (ht : w.transaction i=some t) (hf : shipped.file (version+1)=some f)
    (hschema : f t.db.schema=some schema) :
    Moved shipped i (.begun version) (.ran version) w
      (w.run i ⟨{ t.db with schema := schema },t.files ++ [version+1]⟩) := by
  obtain ⟨hholder,htransaction,hrows,hlt⟩ := h
  have hfresh : t=⟨w.db,[]⟩ := Option.some.inj (ht.symm.trans htransaction)
  subst hfresh
  exact moved_inside ⟨hholder,f,schema,Function.update_self _ _ _,hrows,hlt,hf,hschema⟩ rfl rfl

/-- Giving the lock back. -/
theorem moved_unlock (h : Stage shipped w i φ) (hφ : φ.isClosable=true) :
    Moved shipped i φ (.left (decide (φ=.known shipped.current))) w (w.unlock i) := by
  refine ⟨trivial,Or.inl rfl,fun _ => rfl,fun hleft => Or.inr ?_⟩
  have hknown : φ=.known shipped.current := of_decide_eq_true (Phase.left.inj hleft)
  subst hknown
  simp [World.unlock,Database.version,h.2.2]

/-- The end of a connection between transactions. -/
theorem moved_discard (h : Stage shipped w i φ) (hφ : φ.isClosable=true) : Moved shipped i φ φ w (w.discard i) := by
  have hinside : φ.isInside=true := by
    cases φ with
    | known version => rfl
    | failed => rfl
    | _ => exact nomatch hφ
  exact moved_inside (h.discard hφ) rfl hinside

omit [DecidableEq ι] in
/-- Reading the version table. -/
theorem moved_select {rows : List ℤ} (h : Stage shipped w i .held) (hrows : (w.view i).rows=some rows) :
    Moved shipped i .held (afterSelect rows) w w := by
  obtain ⟨hholder,hnone⟩ := h
  have hrows : w.db.rows=some rows := by simpa [World.view,hnone] using hrows
  match rows with
  | [] => exact moved_inside ⟨hholder,hnone,hrows⟩ rfl rfl
  | [version] => exact moved_inside ⟨hholder,hnone,hrows⟩ rfl rfl
  | _::_::_ => exact moved_inside hholder rfl rfl

/-- Every turn that a live process makes keeps to the steps of the store. -/
theorem moved_of_turn {call : MigrationCall ι} {r : Except MigrationExc call.Ret}
    (hturn : MigrationTurn shipped.current φ call r φ') (hcall : ProcessAnswers shipped i call w r w')
    (hread : misread w call r=false) (h : Stage shipped w i φ) : Moved shipped i φ φ' w w' := by
  cases hturn with
  | gone => exact h.elim
  | openLock => cases hcall <;> exact moved_same h id
  | lock =>
    cases hcall with
    | lock => exact ⟨⟨rfl,h⟩,Or.inl rfl,fun _ => rfl,fun hleft => nomatch hleft⟩
  | lockFailed =>
    cases hcall with
    | fault => exact moved_same h id
  | closeUnlocked =>
    cases hcall with
    | fault => exact moved_same h id
    | closeLock => exact ⟨h,Or.inl rfl,fun _ => rfl,fun hleft => nomatch hleft⟩
  | quiet hφ hquiet =>
    have hsame : w'=w := by
      cases hcall <;> first | rfl | exact nomatch hquiet
    subst hsame
    exact moved_same h id
  | createTable =>
    cases hcall with
    | createTable => exact moved_createTable h
  | select =>
    cases hcall with
    | selectVersions halive hrows => exact moved_select h hrows
  | userVersion =>
    cases hcall with
    | userVersion =>
      have hview : (w.view i).userVersion=w.db.userVersion := by rw [World.view,h.2.1]
      exact moved_inside ⟨h.1,h.2.1,h.2.2,hview⟩ rfl rfl
  | misread he =>
    cases hcall with
    | fault =>
      have hzero : w.db.userVersion=0 := by simpa [misread,he] using hread
      exact moved_inside ⟨h.1,h.2.1,h.2.2,hzero.symm⟩ rfl rfl
  | insert =>
    cases hcall with
    | insertVersion => exact moved_insert h
  | commitSeed =>
    cases hcall with
    | commit => exact moved_commitSeed h
  | reread =>
    cases hcall with
    | selectVersion => exact moved_same h id
  | lied hrow =>
    cases hcall with
    | selectVersion =>
      refine absurd ?_ hrow
      simp [World.view,h.2.1,h.2.2]
  | beginScript hlt =>
    cases hcall with
    | beginScript => exact moved_beginScript h hlt
  | runFile =>
    cases hcall with
    | runFile halive ht hf hschema => exact moved_runFile h ht hf hschema
  | bump =>
    cases hcall with
    | updateVersion => exact moved_bump h
  | commit =>
    cases hcall with
    | commit => exact moved_commit h
  | fail hφ =>
    have hsame : w'=w := by cases hcall <;> rfl
    subst hsame
    exact moved_inside (h.holder hφ) rfl rfl
  | rollback hφ =>
    cases hcall with
    | rollback => exact moved_discard h hφ
  | close hφ =>
    cases hcall with
    | close => exact moved_discard h hφ
  | unlock hφ =>
    cases hcall with
    | unlock => exact moved_unlock h hφ
  | closeLock =>
    cases hcall with
    | fault => exact moved_same trivial id
    | closeLock => exact ⟨trivial,Or.inl rfl,fun _ => rfl,Or.inl⟩
  | kill => exact h.elim
  | killRaised => exact h.elim

end Turns

section Races
variable {shipped : Shipped Schema} {phases : Party ι → Phase} {w w' : World ι Schema}

/-- What holds between the calls of all processes. -/
structure Opening (shipped : Shipped Schema) (phases : Party ι → Phase) (w : World ι Schema) : Prop where
  /-- Every live process stands where its phase says. -/
  stage : ∀ i,i∉w.dead → Stage shipped w i (phases (.process i))
  /-- A process that has succeeded has left the store at the build's version. -/
  left : ∀ i,phases (.process i)=.left true → w.db.version=shipped.current
  /-- The system only kills. -/
  system : phases .system=.system
  /-- No process is one of the system's phases. -/
  proper : ∀ i,phases (.process i)≠.gone ∧ phases (.process i)≠.system

/-- A store at the build's version stays at it. -/
theorem Moved.keeps {i : ι} {φ φ' : Phase} (h : Moved shipped i φ φ' w w') (hw : w.db.version=shipped.current) :
    w'.db.version=shipped.current := by
  rcases h.store with hsame | hstep
  · have hdb : w'.db=w.db := congrArg Store.db hsame
    rw [hdb]
    exact hw
  · rcases hstep.version with ⟨hversion,_⟩ | ⟨hlt,_,_⟩
    · exact hversion.trans hw
    · exact absurd hw hlt.ne

variable [DecidableEq ι]

/-- What a live process does beside the others. -/
theorem Opening.process {i : ι} {φ' : Phase} (h : Opening shipped phases w) (halive : i∉w.dead)
    (hmoved : Moved shipped i (phases (.process i)) φ' w w') (helse : Elsewhere i w w') :
    Opening shipped (Function.update phases (.process i) φ') w' := by
  have hother : ∀ j,j≠i → Function.update phases (.process i) φ' (.process j)=phases (.process j) :=
    fun j hj => Function.update_of_ne (fun heq => hj (Party.process.inj heq)) _ _
  constructor
  · intro j hj
    rw [helse.dead] at hj
    by_cases hji : j=i
    · subst hji
      rw [Function.update_self]
      exact hmoved.own
    · rw [hother j hji]
      have hstage := h.stage j hj
      refine hstage.elsewhere (fun hinside => hmoved.outside ?_) (helse.holder j hji) (helse.transaction j hji)
      -- The lock is held by `j`, so that `i` is outside.
      by_contra hboth
      have hi := (h.stage i halive).holder (eq_true_of_ne_false hboth)
      rw [hstage.holder hinside] at hi
      exact hji (Option.some.inj hi)
  · intro j hleft
    by_cases hji : j=i
    · subst hji
      rw [Function.update_self] at hleft
      rcases hmoved.left hleft with hbefore | hcurrent
      · exact hmoved.keeps (h.left j hbefore)
      · exact hcurrent
    · rw [hother j hji] at hleft
      exact hmoved.keeps (h.left j hleft)
  · rw [Function.update_of_ne (by exact fun heq => nomatch heq)]
    exact h.system
  · intro j
    by_cases hji : j=i
    · subst hji
      rw [Function.update_self]
      exact hmoved.own.proper
    · rw [hother j hji]
      exact h.proper j

/-- A process that dies leaves the others. -/
theorem Opening.kill {i : ι} (h : Opening shipped phases w) :
    Opening shipped phases { (w.discard i).unlock i with dead := i::w.dead } := by
  refine ⟨fun j hj => ?_,h.left,h.system,h.proper⟩
  have hji : j≠i := fun heq => hj (heq ▸ List.mem_cons_self)
  have hunlock : Elsewhere i (w.discard i) ((w.discard i).unlock i) := elsewhere_unlock
  have hdiscard : Elsewhere i w (w.discard i) := elsewhere_update
  have helse := hdiscard.trans hunlock
  exact (h.stage j fun hmem => hj (List.mem_cons_of_mem _ hmem)).elsewhere (fun _ => rfl) (helse.holder j hji)
    (helse.transaction j hji)

/-- The turns of all parties. -/
abbrev openingTurns (shipped : Shipped Schema) (_ : Party ι) :
    Turns (MigrationCall ι) MigrationCall.Ret MigrationExc Phase := MigrationTurn shipped.current

/-- Every step of all parties keeps what they know of the store, and is at most one step of it. -/
theorem keeps_opening (s₀ : Store Schema) :
    PoolKeeps (openingTurns (ι := ι) shipped) (ReadableAnswers shipped) fun phases w =>
      Opening shipped phases w ∧ Advances shipped s₀ (storeOf w) := by
  intro phases party call r φ' w w' hturn hsem h
  obtain ⟨hcall,hread⟩ := hsem
  obtain ⟨hopening,hadvances⟩ := h
  cases hcall with
  | process hcall =>
    rename_i i
    have halive : i∉w.dead := by cases hcall <;> assumption
    have hmoved := moved_of_turn hturn hcall hread (hopening.stage i halive)
    refine ⟨hopening.process halive hmoved (elsewhere_answers hcall),?_⟩
    rcases hmoved.store with hsame | hstep
    · rw [hsame]
      exact hadvances
    · exact hadvances.tail hstep
  | kill =>
    have hφ' : φ'=.system := by
      rw [hopening.system] at hturn
      cases hturn with
      | kill => rfl
      | quiet hφ => exact nomatch hφ
    have hphases : Function.update phases .system φ'=phases := by
      rw [hφ',← hopening.system,Function.update_eq_self]
    rw [hphases]
    exact ⟨hopening.kill,hadvances⟩

/-- The phases before anyone started. -/
def waitingPhases : Party ι → Phase
  | .process _ => .waiting
  | .system => .system

omit [DecidableEq ι] in
/-- Every program follows the phases. -/
theorem follows_openings (current : ℤ) (killed : List ι) :
    PoolFollows (fun _ : Party ι => MigrationTurn current)
      (fun party r φ => φ=.gone ∨ (party≠.system → r=.ok () → φ=.left true)) (openings current killed) waitingPhases := by
  intro party
  cases party with
  | process i => exact follows_runMigrations.weaken fun r φ h => h.imp id fun hleft _ => hleft
  | system => exact (follows_killEach killed).weaken fun r φ h => Or.inr fun hne => absurd rfl hne

omit [DecidableEq ι] in
/-- Before anyone started. -/
theorem opening_start (shipped : Shipped Schema) (db : Database Schema) :
    Opening shipped (waitingPhases : Party ι → Phase) (World.start db) where
  stage := fun _ _ => rfl
  left := fun _ hleft => nomatch hleft
  system := rfl
  proper := by
    intro i
    constructor
    · exact fun heq => nomatch heq
    · exact fun heq => nomatch heq

/-- Whatever processes open a store, die and fail, in every order of their calls:
the version never decreases, each file is committed on the version before it and
once, an open that succeeds leaves the build's version, and a store of a newer
build is left as it is, but for the record of its legacy version. A failed read
of a legacy version is left out. -/
theorem migrations_once (shipped : Shipped Schema) (db : Database Schema) (killed : List ι)
    {c c' : Pool (MigrationCall ι) MigrationCall.Ret MigrationExc (fun _ : Party ι => Unit) (World ι Schema)}
    (hc : PoolReach (ReadableAnswers shipped) (openings shipped.current killed,World.start db) c)
    (hc' : PoolReach (ReadableAnswers shipped) c c') :
    c.2.db.version ≤ c'.2.db.version ∧
      (∀ entry∈c.2.committed,entry.2=entry.1-1) ∧ (c.2.committed.map Prod.fst).Nodup ∧
      (∀ i,c.1 (.process i)=.done (.ok ()) → c.2.db.version=shipped.current) ∧
      (shipped.current < db.version → c.2.db=db ∨ (db.rows=none ∨ db.rows=some []) ∧
        (c.2.db={ db with rows := some [] } ∨ c.2.db={ db with rows := some [db.userVersion] })) := by
  obtain ⟨phases,⟨hopening,hadvances⟩,hfollows⟩ := (keeps_opening ⟨db,[]⟩).reach
    (follows_openings shipped.current killed) ⟨opening_start shipped db,.refl⟩ hc
  obtain ⟨_,⟨_,hlater⟩,_⟩ := (keeps_opening (storeOf c.2)).reach hfollows ⟨hopening,.refl⟩ hc'
  have hordered := hadvances.ordered ⟨by simp,by simp,List.nodup_nil⟩
  refine ⟨hlater.version_le,hordered.before,hordered.nodup,fun i hdone => ?_,hadvances.newer⟩
  have hend := hfollows (.process i)
  rw [hdone] at hend
  rcases hend with hgone | hleft
  · exact absurd hgone (hopening.proper i).1
  · exact hopening.left i (hleft (by exact fun heq => nomatch heq) rfl)

/-- What each call of a process answers where nothing fails. -/
def processAnswer (shipped : Shipped Schema) (i : ι) :
    Handler (MigrationCall ι) MigrationCall.Ret MigrationExc (World ι Schema) := fun call w =>
  if i∈w.dead then none
  else match call with
    | .openLock | .connect | .foreignKeysOff | .readFile _ => some (.ok (),w)
    | .lock => if w.holder=none then some (.ok (),{ w with holder := some i }) else none
    | .unlock | .closeLock => some (.ok (),w.unlock i)
    | .createTable => some (.ok (),w.edit i Database.createTable)
    | .selectVersions => (w.view i).rows.map fun rows => (.ok rows,w)
    | .userVersion => some (.ok (w.view i).userVersion,w)
    | .insertVersion version => some (.ok (),w.editWithin i fun db => db.insertVersion version)
    | .commit => some (.ok (),w.commit i)
    | .selectVersion => some (.ok ((w.view i).rows.bind List.head?),w)
    | .migrationFile target => if (shipped.file target).isSome=true then some (.ok (),w) else none
    | .beginScript => some (.ok (),(w.commit i).editWithin i id)
    | .runFile target =>
      match w.transaction i,shipped.file target with
      | some t,some f => (f t.db.schema).map fun schema =>
          (.ok (),w.run i ⟨{ t.db with schema := schema },t.files ++ [target]⟩)
      | _,_ => none
    | .updateVersion target => some (.ok (),w.edit i fun db => db.updateVersion target)
    | .rollback | .close => some (.ok (),w.discard i)
    | .kill _ => none

/-- A call that fails. -/
def failingAnswer (i : ι) (e : MigrationExc) :
    Handler (MigrationCall ι) MigrationCall.Ret MigrationExc (World ι Schema) := fun _ w =>
  if i∈w.dead then none else some (.error e,w)

/-- Where nothing fails, the answers are those of a process. -/
theorem processAnswer_answers {shipped : Shipped Schema} {i : ι} {call : MigrationCall ι} {w w' : World ι Schema}
    {r : Except MigrationExc call.Ret} (h : processAnswer shipped i call w=some (r,w')) :
    ProcessAnswers shipped i call w r w' ∧ misread w call r=false := by
  unfold processAnswer at h
  split at h
  · exact nomatch h
  rename_i halive
  cases call with
  | openLock => cases h; exact ⟨.openLock halive,rfl⟩
  | lock =>
    simp only at h
    split at h
    · rename_i hfree
      cases h
      exact ⟨.lock halive hfree,rfl⟩
    · exact nomatch h
  | unlock => cases h; exact ⟨.unlock halive,rfl⟩
  | closeLock => cases h; exact ⟨.closeLock halive,rfl⟩
  | connect => cases h; exact ⟨.connect halive,rfl⟩
  | foreignKeysOff => cases h; exact ⟨.foreignKeysOff halive,rfl⟩
  | createTable => cases h; exact ⟨.createTable halive,rfl⟩
  | selectVersions =>
    obtain ⟨rows,hrows,heq⟩ := Option.map_eq_some_iff.mp h
    cases heq
    exact ⟨.selectVersions halive hrows,rfl⟩
  | userVersion => cases h; exact ⟨.userVersion halive,rfl⟩
  | insertVersion version => cases h; exact ⟨.insertVersion halive,rfl⟩
  | commit => cases h; exact ⟨.commit halive,rfl⟩
  | selectVersion => cases h; exact ⟨.selectVersion halive,rfl⟩
  | migrationFile target =>
    simp only at h
    split at h
    · rename_i hfile
      cases h
      exact ⟨.migrationFile halive hfile,rfl⟩
    · exact nomatch h
  | readFile target => cases h; exact ⟨.readFile halive,rfl⟩
  | beginScript => cases h; exact ⟨.beginScript halive,rfl⟩
  | runFile target =>
    simp only at h
    split at h
    · rename_i t f ht hf
      obtain ⟨schema,hschema,heq⟩ := Option.map_eq_some_iff.mp h
      cases heq
      exact ⟨.runFile halive ht hf hschema,rfl⟩
    · exact nomatch h
  | updateVersion target => cases h; exact ⟨.updateVersion halive,rfl⟩
  | rollback => cases h; exact ⟨.rollback halive,rfl⟩
  | close => cases h; exact ⟨.close halive,rfl⟩
  | kill j => exact nomatch h

theorem processAnswer_respects (shipped : Shipped Schema) (i : ι) :
    (processAnswer shipped i).Respects (ReadableAnswers shipped (.process i)) := by
  intro call w r w' h
  have hanswers := processAnswer_answers h
  exact ⟨.process hanswers.1,hanswers.2⟩

theorem failingAnswer_respects (shipped : Shipped Schema) (i : ι) (e : MigrationExc) :
    (failingAnswer i e).Respects (MigrationAnswers shipped (.process i)) := by
  intro call w r w' h
  unfold failingAnswer at h
  split at h
  · exact nomatch h
  · rename_i halive
    cases h
    exact .process (.fault e halive)

end Races

/-- One migration file, which counts its runs. -/
def oneFile : Shipped ℕ where
  current := 1
  file := fun target => if target=1 then some fun runs => some (runs+1) else none

/-- A schedule of calls. -/
abbrev Schedule := List (Party Bool × Handler (MigrationCall Bool) MigrationCall.Ret MigrationExc (World Bool ℕ))

/-- One process's next calls, none of which fails. -/
def turns (i : Bool) (count : ℕ) : Schedule := List.replicate count (.process i,processAnswer oneFile i)

theorem turns_respect (i : Bool) (count : ℕ) :
    ∀ entry∈turns i count,entry.2.Respects (ReadableAnswers oneFile entry.1) := by
  intro entry hentry
  rw [List.eq_of_mem_replicate hentry]
  exact processAnswer_respects oneFile i

/-- Two processes that open a store, and nobody who kills them. -/
def pair (db : Database ℕ) :
    Pool (MigrationCall Bool) MigrationCall.Ret MigrationExc (fun _ : Party Bool => Unit) (World Bool ℕ) :=
  (openings 1 [],World.start db)

/-- One process gets the lock first, and the other waits for it. -/
def sideBySide : Schedule := turns false 2 ++ (turns true 2 ++ (turns false 17 ++ turns true 9))

/-- Two processes open a fresh store at the same time. -/
theorem migrations_once_fresh :
    ∃ c,PoolReach (ReadableAnswers oneFile) (pair ⟨0,none,0⟩) c ∧
      (c.1 (.process false)).value=some () ∧ (c.1 (.process true)).value=some () ∧
      c.2.db.version=1 ∧ c.2.committed=[(1,0)] := by
  have hrespect : ∀ entry∈sideBySide,entry.2.Respects (ReadableAnswers oneFile entry.1) := by
    simp only [sideBySide,List.forall_mem_append]
    exact ⟨turns_respect false 2,turns_respect true 2,turns_respect false 17,turns_respect true 9⟩
  have hreach : PoolReach (ReadableAnswers oneFile) (pair ⟨0,none,0⟩) (drivePool sideBySide (pair ⟨0,none,0⟩)) :=
    drivePool_reach sideBySide hrespect _
  have hfirst : ((drivePool sideBySide (pair ⟨0,none,0⟩)).1 (.process false)).value=some () := by decide +kernel
  have hsecond : ((drivePool sideBySide (pair ⟨0,none,0⟩)).1 (.process true)).value=some () := by decide +kernel
  have hcommitted : (drivePool sideBySide (pair ⟨0,none,0⟩)).2.committed=[(1,0)] := by decide +kernel
  have honce := migrations_once oneFile ⟨0,none,0⟩ [] hreach .refl
  exact ⟨_,hreach,hfirst,hsecond,honce.2.2.2.1 true (Prog.value_eq_some.mp hsecond),hcommitted⟩

/-- A process whose read of the legacy version fails, up to the commit of its row. -/
def misreading : Schedule := turns false 6 ++ ([(.process false,failingAnswer false .operationalError)] ++ turns false 2)

/-- A legacy store at the build's version whose `user_version` cannot be read is
taken for a fresh one: its version falls, and the first file is committed again.
A legacy store of a newer build is given a version table. -/
theorem migrations_once_fails :
    (∃ c c',PoolReach (MigrationAnswers oneFile) (pair ⟨1,none,1⟩) c ∧ PoolReach (MigrationAnswers oneFile) c c' ∧
      (pair ⟨1,none,1⟩).2.db.version=1 ∧ c.2.db.version=0 ∧ c'.2.committed=[(1,0)] ∧ c'.2.db.schema=2) ∧
    ∃ c,PoolReach (MigrationAnswers oneFile) (pair ⟨2,none,1⟩) c ∧
      (pair ⟨2,none,1⟩).2.db.version=2 ∧ c.2.db≠(pair ⟨2,none,1⟩).2.db := by
  have hturns : ∀ count,∀ entry∈turns false count,entry.2.Respects (MigrationAnswers oneFile entry.1) :=
    fun count entry hentry call w r w' h => (turns_respect false count entry hentry call w r w' h).1
  have hrespect : ∀ entry∈misreading,entry.2.Respects (MigrationAnswers oneFile entry.1) := by
    simp only [misreading,List.forall_mem_append,List.forall_mem_singleton]
    exact ⟨hturns 6,failingAnswer_respects oneFile false .operationalError,hturns 2⟩
  refine ⟨⟨_,_,drivePool_reach misreading hrespect _,drivePool_reach (turns false 7) (hturns 7) _,rfl,?_,?_,?_⟩,
    ⟨_,drivePool_reach (turns false 5) (hturns 5) _,rfl,?_⟩⟩
  · decide +kernel
  · decide +kernel
  · decide +kernel
  · decide +kernel

end GenericMlCache.MigrationRaces
