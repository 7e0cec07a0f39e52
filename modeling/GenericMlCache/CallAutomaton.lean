import GenericMlCache.CallProgram
import Mathlib.Logic.Function.Basic

/-!
# Programs that follow a call automaton

An automaton says which calls a caller may make in each phase, and which phase
each answer leads to. A program follows it when, whatever its calls answer, it
can name the next phase. An invariant over the phase and the outside state is
then proved once for the automaton's turns, and it holds in every state that a
run of any following program passes through.
-/

namespace GenericMlCache.CallAutomaton

open CallProgram

variable {Op : Type} {Ret : Op → Type} {E α β σ Φ : Type}

/-- The turns of an automaton: phase before, call, answer, phase after. -/
abbrev Turns (Op : Type) (Ret : Op → Type) (E Φ : Type) :=
  Φ → (op : Op) → Except E (Ret op) → Φ → Prop

/-- From this phase every call is a turn of the automaton, whatever its answer,
and `Q` holds of the outcome and the last phase. -/
def Follows (turn : Turns Op Ret E Φ) (Q : Except E α → Φ → Prop) : Prog Op Ret E α → Φ → Prop
  | .done r, φ => Q r φ
  | .call op next, φ => ∀ r, ∃ φ', turn φ op r φ' ∧ Follows turn Q (next r) φ'

section Rules
variable {turn turn' : Turns Op Ret E Φ} {Q Q' : Except E α → Φ → Prop}

/-- A returned value makes no call. -/
theorem Follows.pure {a : α} {φ : Φ} (hq : Q (.ok a) φ) :
    Follows turn Q (pure a : Prog Op Ret E α) φ := hq

/-- A raised error makes no call. -/
theorem Follows.raise {e : E} {φ : Φ} (hq : Q (.error e) φ) :
    Follows turn Q (raise e : Prog Op Ret E α) φ := hq

/-- More turns and a weaker postcondition are followed too. -/
theorem Follows.mono {p : Prog Op Ret E α} {φ : Φ} (h : Follows turn Q p φ)
    (ht : ∀ φ op r φ', turn φ op r φ' → turn' φ op r φ') (hq : ∀ r φ', Q r φ' → Q' r φ') :
    Follows turn' Q' p φ := by
  induction p generalizing φ with
  | done r => exact hq r φ h
  | call op next ih =>
    intro r
    obtain ⟨φ',hturn,hrest⟩ := h r
    exact ⟨φ',ht _ _ _ _ hturn,ih r hrest⟩

/-- Weaken only the postcondition. -/
theorem Follows.weaken {p : Prog Op Ret E α} {φ : Φ} (h : Follows turn Q p φ)
    (hq : ∀ r φ', Q r φ' → Q' r φ') : Follows turn Q' p φ :=
  h.mono (fun _ _ _ _ ht => ht) hq

/-- Sequencing: the second program follows from where the first one ended. -/
theorem Follows.bind {Q : Except E β → Φ → Prop} {p : Prog Op Ret E α} {f : α → Prog Op Ret E β} {φ : Φ}
    (h : Follows turn (fun r φ' => match r with
      | .ok a => Follows turn Q (f a) φ'
      | .error e => Q (.error e) φ') p φ) : Follows turn Q (p >>= f) φ := by
  induction p generalizing φ with
  | done r => cases r <;> exact h
  | call op next ih =>
    intro r
    obtain ⟨φ',hturn,hrest⟩ := h r
    exact ⟨φ',hturn,ih r hrest⟩

/-- Sequencing from a known postcondition of the first program. -/
theorem Follows.seq {Q₁ : Except E α → Φ → Prop} {Q : Except E β → Φ → Prop} {p : Prog Op Ret E α}
    {f : α → Prog Op Ret E β} {φ : Φ} (h : Follows turn Q₁ p φ)
    (hok : ∀ a φ',Q₁ (.ok a) φ' → Follows turn Q (f a) φ')
    (herr : ∀ e φ',Q₁ (.error e) φ' → Q (.error e) φ') : Follows turn Q (p >>= f) φ := by
  refine Follows.bind (h.weaken fun r φ' hr => ?_)
  cases r with
  | ok a => exact hok a φ' hr
  | error e => exact herr e φ' hr

/-- A call followed by the rest of the program. -/
theorem Follows.perform_bind {Q : Except E β → Φ → Prop} {op : Op} {f : Ret op → Prog Op Ret E β} {φ : Φ}
    (hok : ∀ a, ∃ φ', turn φ op (.ok a) φ' ∧ Follows turn Q (f a) φ')
    (herr : ∀ e, ∃ φ', turn φ op (.error e) φ' ∧ Q (.error e) φ') :
    Follows turn Q (perform op >>= f) φ := by
  intro r
  cases r with
  | ok a => exact hok a
  | error e => exact herr e

/-- A last call, whose answer is the program's. -/
theorem Follows.perform {Q : Except E (Ret op) → Φ → Prop} {φ : Φ}
    (h : ∀ r, ∃ φ', turn φ op r φ' ∧ Q r φ') : Follows turn Q (perform op) φ := h

/-- An attempted program hands its outcome over as a value. -/
theorem Follows.attempt {Q : Except E (Except E α) → Φ → Prop} {p : Prog Op Ret E α} {φ : Φ}
    (h : Follows turn (fun r => Q (.ok r)) p φ) : Follows turn Q (attempt p) φ := by
  induction p generalizing φ with
  | done r => exact h
  | call op next ih =>
    intro r
    obtain ⟨φ',hturn,hrest⟩ := h r
    exact ⟨φ',hturn,ih r hrest⟩

/-- An attempted program followed by a continuation on its outcome. -/
theorem Follows.attempt_seq {Q₁ : Except E α → Φ → Prop} {Q : Except E β → Φ → Prop}
    {p : Prog Op Ret E α} {f : Except E α → Prog Op Ret E β} {φ : Φ} (h : Follows turn Q₁ p φ)
    (hnext : ∀ r φ',Q₁ r φ' → Follows turn Q (f r) φ') :
    Follows turn Q (CallProgram.attempt p >>= f) φ :=
  Follows.bind (Follows.attempt (h.weaken hnext))

/-- A cleanup runs after every outcome of the body, which it leaves as it is. -/
theorem Follows.ensure {body : Prog Op Ret E α} {cleanup : Prog Op Ret E Unit} {φ : Φ}
    (h : Follows turn (fun r => Follows turn (fun c φ' => match c with
      | .ok _ => Q r φ'
      | .error e => Q (.error e) φ') cleanup) body φ) :
    Follows turn Q (ensure body cleanup) φ := by
  refine Follows.bind (Follows.attempt (h.weaken fun r φ' hr => ?_))
  refine Follows.bind (hr.weaken fun c φ'' hc => ?_)
  cases c <;> exact hc

/-- A branch follows where the side taken does. -/
theorem Follows.ite {c : Prop} [Decidable c] {p q : Prog Op Ret E α} {φ : Φ}
    (hp : c → Follows turn Q p φ) (hq : ¬c → Follows turn Q q φ) :
    Follows turn Q (if c then p else q) φ := by
  by_cases h : c
  · rw [if_pos h]
    exact hp h
  · rw [if_neg h]
    exact hq h

end Rules

section Both
variable {Ψ : Type} {turn : Turns Op Ret E Φ} {turn₂ : Turns Op Ret E Ψ}

/-- The turns of two automata that make the same calls. -/
def Turns.both (turn : Turns Op Ret E Φ) (turn₂ : Turns Op Ret E Ψ) : Turns Op Ret E (Φ × Ψ) :=
  fun φ op r φ' => turn φ.1 op r φ'.1 ∧ turn₂ φ.2 op r φ'.2

/-- The turns whose calls have a turn for every answer. -/
def Turns.enabled (turn : Turns Op Ret E Φ) : Turns Op Ret E Φ :=
  fun φ op r φ' => turn φ op r φ' ∧ ∀ r', ∃ φ₂, turn φ op r' φ₂

/-- What follows two automata follows both side by side. -/
theorem Follows.both {Q : Except E α → Φ → Prop} {Q₂ : Except E α → Ψ → Prop} {p : Prog Op Ret E α}
    {φ : Φ} {ψ : Ψ} (h : Follows turn Q p φ) (h₂ : Follows turn₂ Q₂ p ψ) :
    Follows (turn.both turn₂) (fun r φ => Q r φ.1 ∧ Q₂ r φ.2) p (φ,ψ) := by
  induction p generalizing φ ψ with
  | done r => exact ⟨h,h₂⟩
  | call op next ih =>
    intro r
    obtain ⟨φ',hturn,hrest⟩ := h r
    obtain ⟨ψ',hturn₂,hrest₂⟩ := h₂ r
    exact ⟨(φ',ψ'),⟨hturn,hturn₂⟩,ih r hrest hrest₂⟩

/-- Following an automaton names a turn for every answer to a call. -/
theorem Follows.enabled {Q : Except E α → Φ → Prop} {p : Prog Op Ret E α} {φ : Φ}
    (h : Follows turn Q p φ) : Follows turn.enabled Q p φ := by
  induction p generalizing φ with
  | done r => exact h
  | call op next ih =>
    intro r
    obtain ⟨φ',hturn,hrest⟩ := h r
    have hall : ∀ r', ∃ φ₂, turn φ op r' φ₂ := by
      intro r'
      obtain ⟨φ₂,hturn₂,_⟩ := h r'
      exact ⟨φ₂,hturn₂⟩
    exact ⟨φ',⟨hturn,hall⟩,ih r hrest⟩

end Both

/-- Every turn that the operations' meaning allows keeps the invariant. -/
def Keeps (turn : Turns Op Ret E Φ) (sem : Sem Op Ret E σ) (J : Φ → σ → Prop) : Prop :=
  ∀ φ op r φ' s s', turn φ op r φ' → sem op s r s' → J φ s → J φ' s'

/-- An invariant of the automaton's turns holds wherever a run of a following
program stands, at some phase from which the rest of the program follows. -/
theorem Keeps.reach {turn : Turns Op Ret E Φ} {sem : Sem Op Ret E σ} {J : Φ → σ → Prop}
    {Q : Except E α → Φ → Prop} (hk : Keeps turn sem J) {p q : Prog Op Ret E α} {s s' : σ} {φ : Φ}
    (hf : Follows turn Q p φ) (hj : J φ s) (hr : Reach sem p s q s') :
    ∃ φ', J φ' s' ∧ Follows turn Q q φ' := by
  suffices hgen : ∀ c c' : Prog Op Ret E α × σ, Relation.ReflTransGen (Step sem) c c' →
      (∃ φ, J φ c.2 ∧ Follows turn Q c.1 φ) → ∃ φ', J φ' c'.2 ∧ Follows turn Q c'.1 φ' from
    hgen _ _ hr ⟨φ,hj,hf⟩
  intro c c' hrun hstart
  induction hrun with
  | refl => exact hstart
  | tail _ hstep ih =>
    obtain ⟨φ,hj,hf⟩ := ih
    cases hstep with
    | call hcall =>
      obtain ⟨φ',hturn,hrest⟩ := hf _
      exact ⟨φ',hk _ _ _ _ _ _ hturn hcall hj,hrest⟩

/-- A finished run ends in a phase that meets invariant and postcondition. -/
theorem Keeps.result {turn : Turns Op Ret E Φ} {sem : Sem Op Ret E σ} {J : Φ → σ → Prop}
    {Q : Except E α → Φ → Prop} (hk : Keeps turn sem J) {p : Prog Op Ret E α} {r : Except E α}
    {s s' : σ} {φ : Φ} (hf : Follows turn Q p φ) (hj : J φ s) (hr : Ends sem p s r s') :
    ∃ φ', J φ' s' ∧ Q r φ' := hk.reach hf hj hr

/-- A second invariant beside a first one, each turn keeping it where the
first one holds before and after. -/
theorem Keeps.and {turn : Turns Op Ret E Φ} {sem : Sem Op Ret E σ} {J K : Φ → σ → Prop}
    (hj : Keeps turn sem J) (hk : ∀ φ op r φ' s s',turn φ op r φ' → sem op s r s' → J φ s → J φ' s' →
      K φ s → K φ' s') : Keeps turn sem fun φ s => J φ s ∧ K φ s := by
  intro φ op r φ' s s' hturn hsem h
  have hj' := hj φ op r φ' s s' hturn hsem h.1
  exact ⟨hj',hk φ op r φ' s s' hturn hsem h.1 hj' h.2⟩

/-- A monitor changes no invariant of what it watches. -/
theorem Keeps.observed {μ : Type} {turn : Turns Op Ret E Φ} {sem : Sem Op Ret E σ} {J : Φ → σ → Prop}
    (hj : Keeps turn sem J) (watch : (op : Op) → Except E (Ret op) → μ → μ) :
    Keeps turn (CallProgram.observed sem watch) fun φ s => J φ s.1 :=
  fun φ op r φ' s s' hturn hsem h => hj φ op r φ' s.1 s'.1 hturn hsem.1 h

section Monitors
variable {μ : Type} {watch : (op : Op) → Except E (Ret op) → μ → μ}

/-- The turns of a monitor: after a call it stands where the answer puts it. -/
def monitored (watch : (op : Op) → Except E (Ret op) → μ → μ) : Turns Op Ret E μ :=
  fun m op r m' => m'=watch op r m

/-- A call and the rest of the program, seen by a monitor. -/
theorem Follows.watch_call {Q : Except E α → μ → Prop} {op : Op}
    {next : Except E (Ret op) → Prog Op Ret E α} {m : μ}
    (h : ∀ r, Follows (monitored watch) Q (next r) (watch op r m)) :
    Follows (monitored watch) Q (.call op next) m :=
  fun r => ⟨watch op r m,rfl,h r⟩

/-- One call followed by the rest of the program, seen by a monitor. -/
theorem Follows.watch_bind {Q : Except E β → μ → Prop} {op : Op} {f : Ret op → Prog Op Ret E β} {m : μ}
    (hok : ∀ a, Follows (monitored watch) Q (f a) (watch op (.ok a) m))
    (herr : ∀ e, Q (.error e) (watch op (.error e) m)) :
    Follows (monitored watch) Q (CallProgram.perform op >>= f) m :=
  Follows.perform_bind (fun a => ⟨_,rfl,hok a⟩) fun e => ⟨_,rfl,herr e⟩

/-- One call, seen by a monitor. -/
theorem Follows.watch_perform {op : Op} {Q : Except E (Ret op) → μ → Prop} {m : μ}
    (h : ∀ r, Q r (watch op r m)) : Follows (monitored watch) Q (CallProgram.perform op) m :=
  fun r => ⟨watch op r m,rfl,h r⟩

/-- What a monitor keeps over every call that a program uses, it keeps over the program. -/
theorem Follows.of_uses {P : Op → Prop} {I : μ → Prop} {p : Prog Op Ret E α} {m : μ}
    (hp : Uses P p) (hI : ∀ op r m,P op → I m → I (watch op r m)) (hm : I m) :
    Follows (monitored watch) (fun _ m' => I m') p m := by
  induction p generalizing m with
  | done r => exact hm
  | call op next ih => exact Follows.watch_call fun r => ih r (hp.2 r) (hI op r m hp.1 hm)

/-- An error on its way out, seen by a monitor that ties it to the last one raised. -/
theorem Follows.of_unwinds {R : Op → Prop} {B : E → μ → Prop} {p : Prog Op Ret E α} {e : E} {m : μ}
    (hp : Unwinds R e p) (hclean : ∀ op a e m,R op → B e m → B e (watch op (.ok a) m))
    (hraise : ∀ op e e' m,R op → B e m → B e' (watch op (.error e') m)) (hm : B e m) :
    Follows (monitored watch) (fun r m' => ∃ e,r=.error e ∧ B e m') p m := by
  induction p generalizing e m with
  | done r => exact ⟨e,hp,hm⟩
  | call op next ih =>
    refine Follows.watch_call fun r => ?_
    cases r with
    | ok a => exact ih _ (hp.2.1 a) (hclean op a e m hp.1 hm)
    | error e' => exact ih _ (hp.2.2 e') (hraise op e e' m hp.1 hm)

/-- A straight program, seen by a monitor: `G` holds while nothing was raised,
and `B` ties an error on its way out to what the monitor saw. -/
theorem Follows.of_straight {P R : Op → Prop} {L : E → Prop} {G : μ → Prop} {B : E → μ → Prop}
    {p : Prog Op Ret E α} {m : μ} (hp : Straight P R L p)
    (hok : ∀ op a m,P op → G m → G (watch op (.ok a) m))
    (herr : ∀ op e m,P op → G m → B e (watch op (.error e) m))
    (hclean : ∀ op a e m,R op → B e m → B e (watch op (.ok a) m))
    (hraise : ∀ op e e' m,R op → B e m → B e' (watch op (.error e') m))
    (hown : ∀ e m,L e → G m → B e m) (hm : G m) :
    Follows (monitored watch) (fun r m' => (∃ a,r=.ok a ∧ G m') ∨ ∃ e,r=.error e ∧ B e m') p m := by
  induction p generalizing m with
  | done r =>
    cases r with
    | ok a => exact Or.inl ⟨a,rfl,hm⟩
    | error e => exact Or.inr ⟨e,rfl,hown e m hp hm⟩
  | call op next ih =>
    refine Follows.watch_call fun r => ?_
    cases r with
    | ok a => exact ih _ (hp.2.1 a) (hok op a m hp.1 hm)
    | error e =>
      have hout := Follows.of_unwinds (hp.2.2 e) hclean hraise (herr op e m hp.1 hm)
      exact hout.weaken fun r m' h => Or.inr h

/-- What a monitor makes of a program whatever its calls answer, it makes of every finished run. -/
theorem Follows.watched {Q : Except E α → μ → Prop} {sem : Sem Op Ret E σ} {p : Prog Op Ret E α}
    {r : Except E α} {s s' : σ × μ} (hp : Follows (monitored watch) Q p s.2)
    (h : Ends (CallProgram.observed sem watch) p s r s') : Q r s'.2 := by
  have hkeeps : Keeps (monitored watch) (CallProgram.observed sem watch) fun m s => s.2=m := by
    intro m op r m' s s' hturn hsem hm
    rw [hturn,← hm]
    exact hsem.2
  obtain ⟨m,hm,hq⟩ := hkeeps.result hp rfl h
  rw [hm]
  exact hq

/-- What a monitor makes of a program is a postcondition of it. -/
theorem Follows.safe {Q : Except E α → μ → Prop} (sem : Sem Op Ret E σ) {p : Prog Op Ret E α} {s : σ × μ}
    (hp : Follows (monitored watch) Q p s.2) :
    Safe (CallProgram.observed sem watch) (fun _ => True) (fun r s' => Q r s'.2) p s := by
  induction p generalizing s with
  | done r => exact ⟨trivial,hp⟩
  | call op next ih =>
    refine ⟨trivial,fun r s' hr => ih r ?_⟩
    obtain ⟨m,hm,hrest⟩ := hp r
    rw [hr.2,← hm]
    exact hrest

end Monitors

/-- The states that programs run one after another lead to. Each runs until it
is stopped, where `stop` allows, and the next starts where `restart` puts it. -/
inductive History (sem : Sem Op Ret E σ) (starts : Prog Op Ret E α → Prop)
    (stop : Prog Op Ret E α → σ → Prop) (restart : σ → σ) (s₀ : σ) : σ → Prop where
  | start : History sem starts stop restart s₀ s₀
  | run {p q : Prog Op Ret E α} {s s' : σ} (h : History sem starts stop restart s₀ s)
      (hp : starts p) (hr : Reach sem p s q s') (hstop : stop q s') :
      History sem starts stop restart s₀ (restart s')

/-- An invariant that every program's turns keep, and that a restart carries
back to the first phase, holds wherever a history leads. -/
theorem Keeps.history {turn : Turns Op Ret E Φ} {sem : Sem Op Ret E σ} {J : Φ → σ → Prop}
    {Q : Except E α → Φ → Prop} {starts : Prog Op Ret E α → Prop} {stop : Prog Op Ret E α → σ → Prop}
    {restart : σ → σ} {s₀ s : σ} {φ₀ : Φ} (hk : Keeps turn sem J)
    (hf : ∀ p,starts p → Follows turn Q p φ₀) (hj : J φ₀ s₀)
    (hrestart : ∀ φ q s,J φ s → Follows turn Q q φ → stop q s → J φ₀ (restart s))
    (h : History sem starts stop restart s₀ s) : J φ₀ s := by
  induction h with
  | start => exact hj
  | run _ hp hr hstop ih =>
    obtain ⟨φ,hjφ,hrest⟩ := hk.reach (hf _ hp) ih hr
    exact hrestart φ _ _ hjφ hrest hstop

section Pool
variable {ι : Type} [DecidableEq ι] {A : ι → Type}

/-- Callers running side by side on one outside state, each with its own
remaining program. -/
abbrev Pool (Op : Type) (Ret : Op → Type) (E : Type) {ι : Type} (A : ι → Type) (σ : Type) :=
  ((i : ι) → Prog Op Ret E (A i)) × σ

/-- One caller's call is answered. Any caller may be next: a schedule is any
sequence of such steps, and a caller may be left out from any point on. -/
inductive PoolStep (sem : ι → Sem Op Ret E σ) : Pool Op Ret E A σ → Pool Op Ret E A σ → Prop where
  /-- Caller `i` makes the call at the head of its program. -/
  | call (i : ι) {progs : (i : ι) → Prog Op Ret E (A i)} {op : Op}
      {next : Except E (Ret op) → Prog Op Ret E (A i)} {s s' : σ} {r : Except E (Ret op)}
      (hp : progs i=.call op next) (h : sem i op s r s') :
      PoolStep sem (progs,s) (Function.update progs i (next r),s')

/-- Every configuration some schedule reaches. -/
abbrev PoolReach (sem : ι → Sem Op Ret E σ) (c c' : Pool Op Ret E A σ) : Prop :=
  Relation.ReflTransGen (PoolStep sem) c c'

/-- Every turn of every caller keeps the invariant over all phases. -/
def PoolKeeps (turn : ι → Turns Op Ret E Φ) (sem : ι → Sem Op Ret E σ)
    (J : (ι → Φ) → σ → Prop) : Prop :=
  ∀ phases i op r φ' s s', turn i (phases i) op r φ' → sem i op s r s' → J phases s →
    J (Function.update phases i φ') s'

/-- Each caller's remaining program follows its automaton from its phase. -/
def PoolFollows (turn : ι → Turns Op Ret E Φ) (Q : (i : ι) → Except E (A i) → Φ → Prop)
    (progs : (i : ι) → Prog Op Ret E (A i)) (phases : ι → Φ) : Prop :=
  ∀ i, Follows (turn i) (Q i) (progs i) (phases i)

/-- One step of the pool moves one caller's phase by one turn. -/
theorem PoolFollows.step {turn : ι → Turns Op Ret E Φ} {Q : (i : ι) → Except E (A i) → Φ → Prop}
    {progs : (i : ι) → Prog Op Ret E (A i)} {phases : ι → Φ} (h : PoolFollows turn Q progs phases)
    {i : ι} {op : Op} {next : Except E (Ret op) → Prog Op Ret E (A i)} (hp : progs i=.call op next)
    (r : Except E (Ret op)) :
    ∃ φ', turn i (phases i) op r φ' ∧
      PoolFollows turn Q (Function.update progs i (next r)) (Function.update phases i φ') := by
  have hi := h i
  rw [hp] at hi
  obtain ⟨φ',hturn,hrest⟩ := hi r
  refine ⟨φ',hturn,fun j => ?_⟩
  by_cases hj : j=i
  · subst hj
    simpa only [Function.update_self] using hrest
  · simpa only [Function.update_of_ne hj] using h j

/-- An invariant of all callers' turns holds in every state that any schedule
of following programs reaches. -/
theorem PoolKeeps.reach {turn : ι → Turns Op Ret E Φ} {sem : ι → Sem Op Ret E σ}
    {J : (ι → Φ) → σ → Prop} {Q : (i : ι) → Except E (A i) → Φ → Prop}
    (hk : PoolKeeps turn sem J) {c c' : Pool Op Ret E A σ} {phases : ι → Φ}
    (hf : PoolFollows turn Q c.1 phases) (hj : J phases c.2) (hr : PoolReach sem c c') :
    ∃ phases', J phases' c'.2 ∧ PoolFollows turn Q c'.1 phases' := by
  induction hr with
  | refl => exact ⟨phases,hj,hf⟩
  | tail _ hstep ih =>
    obtain ⟨phases,hj,hf⟩ := ih
    cases hstep with
    | call i hp hcall =>
      obtain ⟨φ',hturn,hrest⟩ := hf.step hp _
      exact ⟨_,hk _ _ _ _ _ _ _ hturn hcall hj,hrest⟩

/-- A second invariant of all callers beside a first one, each turn keeping it
where the first one holds before and after. -/
theorem PoolKeeps.and {turn : ι → Turns Op Ret E Φ} {sem : ι → Sem Op Ret E σ}
    {J K : (ι → Φ) → σ → Prop} (hj : PoolKeeps turn sem J)
    (hk : ∀ phases i op r φ' s s',turn i (phases i) op r φ' → sem i op s r s' → J phases s →
      J (Function.update phases i φ') s' → K phases s → K (Function.update phases i φ') s') :
    PoolKeeps turn sem fun phases s => J phases s ∧ K phases s := by
  intro phases i op r φ' s s' hturn hsem h
  have hj' := hj phases i op r φ' s s' hturn hsem h.1
  exact ⟨hj',hk phases i op r φ' s s' hturn hsem h.1 hj' h.2⟩

/-- A monitor changes no invariant of the callers that it watches. -/
theorem PoolKeeps.observed {μ : Type} {turn : ι → Turns Op Ret E Φ} {sem : ι → Sem Op Ret E σ}
    {J : (ι → Φ) → σ → Prop} (hj : PoolKeeps turn sem J)
    (watch : ι → (op : Op) → Except E (Ret op) → μ → μ) :
    PoolKeeps turn (fun i => CallProgram.observed (sem i) (watch i)) fun phases s => J phases s.1 :=
  fun phases i op r φ' s s' hturn hsem h => hj phases i op r φ' s.1 s'.1 hturn hsem.1 h

/-- A property of single steps that every turn from the invariant has holds of
every step that any schedule takes. -/
theorem PoolKeeps.next {turn : ι → Turns Op Ret E Φ} {sem : ι → Sem Op Ret E σ}
    {J : (ι → Φ) → σ → Prop} {Q : (i : ι) → Except E (A i) → Φ → Prop}
    (hk : PoolKeeps turn sem J) {c : Pool Op Ret E A σ} {phases : ι → Φ}
    (hf : PoolFollows turn Q c.1 phases) (hj : J phases c.2)
    {progs : (i : ι) → Prog Op Ret E (A i)} {s s' : σ} (hr : PoolReach sem c (progs,s)) {i : ι}
    {op : Op} {next : Except E (Ret op) → Prog Op Ret E (A i)} (hp : progs i=.call op next)
    {r : Except E (Ret op)} (hcall : sem i op s r s') :
    ∃ phases φ', J phases s ∧ turn i (phases i) op r φ' ∧
      J (Function.update phases i φ') s' := by
  obtain ⟨phases',hj',hf'⟩ := hk.reach hf hj hr
  obtain ⟨φ',hturn,_⟩ := hf'.step hp r
  exact ⟨phases',φ',hj',hturn,hk _ _ _ _ _ _ _ hturn hcall hj'⟩

/-- Follow a schedule of callers, each with the handler that answers its call.
A blocked or finished caller's entry is skipped. -/
def drivePool : List (ι × Handler Op Ret E σ) → Pool Op Ret E A σ → Pool Op Ret E A σ
  | [],c => c
  | (i,handler)::schedule,c =>
    match c.1 i with
    | .done _ => drivePool schedule c
    | .call op next =>
      match handler op c.2 with
      | none => drivePool schedule c
      | some (r,s') => drivePool schedule (Function.update c.1 i (next r),s')

/-- The first entry of a schedule answers one call, or is skipped. -/
theorem drivePool_cons {sem : ι → Sem Op Ret E σ} (i : ι) {handler : Handler Op Ret E σ}
    (h : handler.Respects (sem i)) (c : Pool Op Ret E A σ) :
    ∃ c',(c'=c ∨ PoolStep sem c c') ∧
      ∀ schedule,drivePool ((i,handler)::schedule) c=drivePool schedule c' := by
  cases hp : c.1 i with
  | done r => exact ⟨c,Or.inl rfl,fun schedule => by simp only [drivePool,hp]⟩
  | call op next =>
    cases he : handler op c.2 with
    | none => exact ⟨c,Or.inl rfl,fun schedule => by simp only [drivePool,hp,he]⟩
    | some answer =>
      obtain ⟨r,s'⟩ := answer
      exact ⟨_,Or.inr (.call i hp (h op c.2 r s' he)),fun schedule => by simp only [drivePool,hp,he]⟩

/-- A driven schedule is a run of the pool. -/
theorem drivePool_reach {sem : ι → Sem Op Ret E σ} (schedule : List (ι × Handler Op Ret E σ))
    (h : ∀ entry∈schedule,entry.2.Respects (sem entry.1)) (c : Pool Op Ret E A σ) :
    PoolReach sem c (drivePool schedule c) := by
  induction schedule generalizing c with
  | nil => exact .refl
  | cons entry schedule ih =>
    obtain ⟨c',hstep,heq⟩ := drivePool_cons entry.1 (h entry List.mem_cons_self) c
    have hrest := ih (fun k hk => h k (List.mem_cons_of_mem _ hk)) c'
    rw [heq schedule]
    rcases hstep with rfl | hstep
    · exact hrest
    · exact .head hstep hrest

end Pool

/-- What follows an automaton follows one that its turns are turns of, from the phases they map to. -/
theorem Follows.along {Ψ : Type} {turn : Turns Op Ret E Φ} {turn' : Turns Op Ret E Ψ} (f : Φ → Ψ)
    {Q : Except E α → Ψ → Prop} {p : Prog Op Ret E α} {φ : Φ}
    (ht : ∀ φ op r φ',turn φ op r φ' → turn' (f φ) op r (f φ'))
    (h : Follows turn (fun r φ' => Q r (f φ')) p φ) : Follows turn' Q p (f φ) := by
  induction p generalizing φ with
  | done r => exact h
  | call op next ih =>
    intro r
    obtain ⟨φ',hturn,hrest⟩ := h r
    exact ⟨f φ',ht _ _ _ _ hturn,ih r hrest⟩

/-- What follows an automaton and makes some calls only follows the turns of these calls. -/
theorem Follows.restrict {turn : Turns Op Ret E Φ} {P : Op → Prop} {Q : Except E α → Φ → Prop}
    {p : Prog Op Ret E α} {φ : Φ} (h : Follows turn Q p φ) (hp : Uses P p) :
    Follows (fun φ op r φ' => P op ∧ turn φ op r φ') Q p φ := by
  induction p generalizing φ with
  | done r => exact h
  | call op next ih =>
    intro r
    obtain ⟨φ',hturn,hrest⟩ := h r
    exact ⟨φ',⟨hp.1,hturn⟩,ih r hrest (hp.2 r)⟩

/-- A program whose calls all leave the phase where it is follows from there. -/
theorem Follows.of_still {turn : Turns Op Ret E Φ} {P : Op → Prop} {p : Prog Op Ret E α} {φ : Φ}
    (hp : Uses P p) (ht : ∀ op r,P op → turn φ op r φ) : Follows turn (fun _ φ' => φ'=φ) p φ := by
  induction p with
  | done r => exact rfl
  | call op next ih => exact fun r => ⟨φ,ht op r hp.1,ih r (hp.2 r)⟩

section Embedding
variable {Op' : Type} {Ret' : Op' → Type}

/-- A program among callers that may make other calls as well. -/
def embed : Prog Op Ret E α → Prog (Op ⊕ Op') (Sum.elim Ret Ret') E α
  | .done r => .done r
  | .call op next => .call (.inl op) fun r => embed (next r)

/-- An automaton over the program's own calls is followed among the others. -/
theorem Follows.embed {turn : Turns (Op ⊕ Op') (Sum.elim Ret Ret') E Φ} {Q : Except E α → Φ → Prop}
    {p : Prog Op Ret E α} {φ : Φ} (h : Follows (fun φ op r φ' => turn φ (.inl op) r φ') Q p φ) :
    Follows turn Q (CallAutomaton.embed p) φ := by
  induction p generalizing φ with
  | done r => exact h
  | call op next ih =>
    intro r
    obtain ⟨φ',hturn,hrest⟩ := h r
    exact ⟨φ',hturn,ih r hrest⟩

end Embedding

end GenericMlCache.CallAutomaton
