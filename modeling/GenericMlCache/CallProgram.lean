import Mathlib.Logic.Relation

/-!
# Programs over typed calls that may raise

A program is a finite tree of calls. Each call names an operation, and its
continuation receives the operation's answer or a raised error. What a call
does to the outside state is a relation given separately, so one program has
a crash-free, a faulty and an interleaved meaning without being restated.
Every program ends: the tree is well founded, and no fuel is supplied.
-/

namespace GenericMlCache.CallProgram

/-- A terminating program over operations `Op`, raising errors of type `E`. -/
inductive Prog (Op : Type) (Ret : Op → Type) (E α : Type) where
  /-- The program has ended, with its value or the error that escapes it. -/
  | done (result : Except E α)
  /-- One call, and the rest of the program for each answer or raised error. -/
  | call (op : Op) (next : Except E (Ret op) → Prog Op Ret E α)

variable {Op : Type} {Ret : Op → Type} {E α β γ σ : Type}

/-- Run the second program on the first one's value. A raised error skips it. -/
def Prog.bind : Prog Op Ret E α → (α → Prog Op Ret E β) → Prog Op Ret E β
  | .done (.ok a), f => f a
  | .done (.error e), _ => .done (.error e)
  | .call op next, f => .call op fun r => (next r).bind f

instance : Monad (Prog Op Ret E) where
  pure a := .done (.ok a)
  bind := Prog.bind

/-- One operation, returning its answer and raising its error. -/
def perform (op : Op) : Prog Op Ret E (Ret op) := .call op .done

/-- Raise an error. -/
def raise (e : E) : Prog Op Ret E α := .done (.error e)

/-- Lift a computed value or error, with no call. -/
def ofExcept (r : Except E α) : Prog Op Ret E α := .done r

/-- Run a program and hand its outcome over as a value, whatever it raises. -/
def attempt : Prog Op Ret E α → Prog Op Ret E (Except E α)
  | .done r => .done (.ok r)
  | .call op next => .call op fun r => attempt (next r)

/-- Run the body, then the cleanup whatever the body raised, then end as the
body did. An error of the cleanup replaces the body's outcome. -/
def ensure (body : Prog Op Ret E α) (cleanup : Prog Op Ret E Unit) : Prog Op Ret E α := do
  let r ← attempt body
  cleanup
  ofExcept r

/-- The monad's bind is the tree's bind. -/
theorem bind_def (p : Prog Op Ret E α) (f : α → Prog Op Ret E β) : (p >>= f)=p.bind f := rfl

/-- Sequencing a returned value runs the continuation on it. -/
@[simp] theorem pure_bind (a : α) (f : α → Prog Op Ret E β) :
    ((pure a : Prog Op Ret E α) >>= f)=f a := rfl

/-- A raised error passes through a bind unchanged. -/
@[simp] theorem raise_bind (e : E) (f : α → Prog Op Ret E β) :
    ((raise e : Prog Op Ret E α) >>= f)=raise e := rfl

/-- A computed value is passed on. -/
@[simp] theorem ofExcept_ok_bind (a : α) (f : α → Prog Op Ret E β) :
    ((ofExcept (.ok a) : Prog Op Ret E α) >>= f)=f a := rfl

/-- A computed error is raised. -/
@[simp] theorem ofExcept_error_bind (e : E) (f : α → Prog Op Ret E β) :
    ((ofExcept (.error e) : Prog Op Ret E α) >>= f)=raise e := rfl

/-- A bind is pushed behind the call in front of it. -/
@[simp] theorem call_bind (op : Op) (next : Except E (Ret op) → Prog Op Ret E α)
    (f : α → Prog Op Ret E β) :
    (Prog.call op next >>= f)=Prog.call op fun r => next r >>= f := rfl

/-- Nested binds associate to the right. -/
theorem bind_assoc (p : Prog Op Ret E α) (f : α → Prog Op Ret E β) (g : β → Prog Op Ret E γ) :
    p >>= f >>= g=p >>= fun a => f a >>= g := by
  simp only [bind_def]
  induction p with
  | done r => cases r <;> rfl
  | call op next ih =>
    simp only [Prog.bind]
    congr 1
    funext r
    exact ih r

/-- Returning the value last changes nothing. -/
@[simp] theorem bind_pure (p : Prog Op Ret E α) : (p >>= fun a => (pure a : Prog Op Ret E α))=p := by
  simp only [bind_def]
  induction p with
  | done r => cases r <;> rfl
  | call op next ih =>
    simp only [Prog.bind]
    congr 1
    funext r
    exact ih r

/-- What one operation may answer and do: state before, answer, state after. -/
abbrev Sem (Op : Type) (Ret : Op → Type) (E σ : Type) :=
  (op : Op) → σ → Except E (Ret op) → σ → Prop

/-- One call of a running program. -/
inductive Step (sem : Sem Op Ret E σ) : Prog Op Ret E α × σ → Prog Op Ret E α × σ → Prop where
  /-- The head call is answered as the meaning of its operation allows. -/
  | call {op : Op} {next : Except E (Ret op) → Prog Op Ret E α} {s s' : σ}
      {r : Except E (Ret op)} (h : sem op s r s') : Step sem (.call op next,s) (next r,s')

/-- Every configuration a run passes through. A run may stop at any of them:
a process that dies between two calls leaves exactly such a state. -/
abbrev Reach (sem : Sem Op Ret E σ) (p : Prog Op Ret E α) (s : σ)
    (q : Prog Op Ret E α) (s' : σ) : Prop :=
  Relation.ReflTransGen (Step sem) (p,s) (q,s')

/-- A run that ended, with its outcome and the state it left. -/
abbrev Ends (sem : Sem Op Ret E σ) (p : Prog Op Ret E α) (s : σ) (r : Except E α) (s' : σ) : Prop :=
  Reach sem p s (.done r) s'

/-- A finished program takes no further call. -/
theorem Reach.of_done {sem : Sem Op Ret E σ} {r : Except E α} {s s' : σ} {q : Prog Op Ret E α}
    (h : Reach sem (.done r) s q s') : q=.done r ∧ s'=s := by
  rcases Relation.ReflTransGen.cases_head h with h | ⟨_,hs,_⟩
  · cases h
    exact ⟨rfl,rfl⟩
  · cases hs

/-- A meaning that allows more answers has every run of one that allows fewer. -/
theorem Reach.mono {sem sem' : Sem Op Ret E σ} (hs : ∀ op s r s', sem op s r s' → sem' op s r s')
    {p q : Prog Op Ret E α} {s s' : σ} (h : Reach sem p s q s') : Reach sem' p s q s' := by
  have hstep : ∀ c c' : Prog Op Ret E α × σ, Step sem c c' → Step sem' c c' := by
    intro c c' hc
    cases hc with
    | call hcall => exact .call (hs _ _ _ _ hcall)
  exact Relation.ReflTransGen.mono hstep _ _ h

section Watching
variable {μ : Type}

/-- A meaning beside a monitor that watches every call and its answer. -/
def observed (sem : Sem Op Ret E σ) (watch : (op : Op) → Except E (Ret op) → μ → μ) :
    Sem Op Ret E (σ × μ) := fun op s r s' => sem op s.1 r s'.1 ∧ s'.2=watch op r s.2

/-- A monitor changes no run. -/
theorem Reach.of_observed {sem : Sem Op Ret E σ} {watch : (op : Op) → Except E (Ret op) → μ → μ}
    {p q : Prog Op Ret E α} {s s' : σ × μ} (h : Reach (observed sem watch) p s q s') :
    Reach sem p s.1 q s'.1 := by
  suffices hgen : ∀ c c' : Prog Op Ret E α × (σ × μ),
      Relation.ReflTransGen (Step (observed sem watch)) c c' → Reach sem c.1 c.2.1 c'.1 c'.2.1 from
    hgen _ _ h
  intro c c' hrun
  induction hrun with
  | refl => exact .refl
  | tail _ hstep ih =>
    cases hstep with
    | call hcall => exact ih.tail (.call hcall.1)

end Watching

/-- A run of the first program is a run of the sequence. -/
theorem Reach.bind {sem : Sem Op Ret E σ} {p q : Prog Op Ret E α} {s s' : σ} (h : Reach sem p s q s')
    (f : α → Prog Op Ret E β) : Reach sem (p >>= f) s (q >>= f) s' := by
  suffices hgen : ∀ c c' : Prog Op Ret E α × σ,Relation.ReflTransGen (Step sem) c c' →
      Reach sem (c.1 >>= f) c.2 (c'.1 >>= f) c'.2 from hgen _ _ h
  intro c c' hrun
  induction hrun with
  | refl => exact .refl
  | tail _ hstep ih =>
    cases hstep with
    | call hcall => exact ih.tail (.call hcall)

/-- Two runs that ended, one after the other. -/
theorem Ends.bind {sem : Sem Op Ret E σ} {p : Prog Op Ret E α} {f : α → Prog Op Ret E β} {a : α}
    {r : Except E β} {s s' s'' : σ} (h : Ends sem p s (.ok a) s') (hf : Ends sem (f a) s' r s'') :
    Ends sem (p >>= f) s r s'' := (Reach.bind h f).trans hf

/-- One call that is answered. -/
theorem Ends.perform {sem : Sem Op Ret E σ} {op : Op} {r : Except E (Ret op)} {s s' : σ}
    (h : sem op s r s') : Ends sem (CallProgram.perform op) s r s' := .single (.call h)

/-- An attempt ends with the outcome as a value. -/
theorem Ends.attempt {sem : Sem Op Ret E σ} {p : Prog Op Ret E α} {r : Except E α} {s s' : σ}
    (h : Ends sem p s r s') : Ends sem (CallProgram.attempt p) s (.ok r) s' := by
  suffices hgen : ∀ c c' : Prog Op Ret E α × σ,Relation.ReflTransGen (Step sem) c c' →
      Reach sem (CallProgram.attempt c.1) c.2 (CallProgram.attempt c'.1) c'.2 from hgen _ _ h
  intro c c' hrun
  induction hrun with
  | refl => exact .refl
  | tail _ hstep ih =>
    cases hstep with
    | call hcall => exact ih.tail (.call hcall)

/-- A property of states that every answer keeps holds wherever a run stands. -/
theorem Reach.invariant {sem : Sem Op Ret E σ} {I : σ → Prop}
    (hI : ∀ op s r s',sem op s r s' → I s → I s') {p q : Prog Op Ret E α} {s s' : σ}
    (h : Reach sem p s q s') (hs : I s) : I s' := by
  suffices hgen : ∀ c c' : Prog Op Ret E α × σ,Relation.ReflTransGen (Step sem) c c' →
      I c.2 → I c'.2 from hgen _ _ h hs
  intro c c' hrun hc
  induction hrun with
  | refl => exact hc
  | tail _ hstep ih =>
    cases hstep with
    | call hcall => exact hI _ _ _ _ hcall ih

/-- Where every call has an answer, every program has a run that ends. -/
theorem Ends.exists {sem : Sem Op Ret E σ} {I : σ → Prop}
    (h : ∀ op s,I s → ∃ r s',sem op s r s' ∧ I s') (p : Prog Op Ret E α) {s : σ} (hs : I s) :
    ∃ r s',Ends sem p s r s' := by
  induction p generalizing s with
  | done r => exact ⟨r,s,.refl⟩
  | call op next ih =>
    obtain ⟨r,s',hcall,hi⟩ := h op s hs
    obtain ⟨r',s'',hrest⟩ := ih r hi
    exact ⟨r',s'',.head (.call hcall) hrest⟩

/-- Every call the program may come to make is one of `P`, whatever was answered before. -/
def Uses (P : Op → Prop) : Prog Op Ret E α → Prop
  | .done _ => True
  | .call op next => P op ∧ ∀ r, Uses P (next r)

section Uses
variable {P P' : Op → Prop}

/-- A returned value makes no call. -/
theorem Uses.pure (a : α) : Uses P (pure a : Prog Op Ret E α) := trivial

/-- A raised error makes no call. -/
theorem Uses.raise (e : E) : Uses P (raise e : Prog Op Ret E α) := trivial

/-- A computed value or error makes no call. -/
theorem Uses.ofExcept (r : Except E α) : Uses P (ofExcept r : Prog Op Ret E α) := trivial

/-- One call. -/
theorem Uses.perform {op : Op} (h : P op) : Uses P (perform op : Prog Op Ret E (Ret op)) :=
  ⟨h,fun _ => trivial⟩

/-- A sequence makes the calls of its parts. -/
theorem Uses.bind {p : Prog Op Ret E α} {f : α → Prog Op Ret E β} (h : Uses P p)
    (hf : ∀ a, Uses P (f a)) : Uses P (p >>= f) := by
  induction p with
  | done r =>
    cases r with
    | ok a => exact hf a
    | error e => exact trivial
  | call op next ih => exact ⟨h.1,fun r => ih r (h.2 r)⟩

/-- An attempt makes the calls of its program. -/
theorem Uses.attempt {p : Prog Op Ret E α} (h : Uses P p) : Uses P (attempt p) := by
  induction p with
  | done r => exact trivial
  | call op next ih => exact ⟨h.1,fun r => ih r (h.2 r)⟩

/-- A cleanup adds its own calls. -/
theorem Uses.ensure {body : Prog Op Ret E α} {cleanup : Prog Op Ret E Unit} (h : Uses P body)
    (hc : Uses P cleanup) : Uses P (ensure body cleanup) :=
  Uses.bind h.attempt fun r => Uses.bind hc fun _ => Uses.ofExcept r

/-- A branch makes the calls of the side taken. -/
theorem Uses.ite {c : Prop} [Decidable c] {p q : Prog Op Ret E α} (hp : c → Uses P p)
    (hq : ¬c → Uses P q) : Uses P (if c then p else q) := by
  by_cases h : c
  · rw [if_pos h]
    exact hp h
  · rw [if_neg h]
    exact hq h

/-- More calls may be allowed. -/
theorem Uses.mono {p : Prog Op Ret E α} (h : Uses P p) (hP : ∀ op,P op → P' op) : Uses P' p := by
  induction p with
  | done r => exact trivial
  | call op next ih => exact ⟨hP op h.1,fun r => ih r (h.2 r)⟩

/-- A property of states that the calls of a program keep holds wherever its runs stand. -/
theorem Uses.reach {sem : Sem Op Ret E σ} {I : σ → Prop} {p q : Prog Op Ret E α} {s s' : σ}
    (hp : Uses P p) (hI : ∀ op s r s',P op → sem op s r s' → I s → I s')
    (h : Reach sem p s q s') (hs : I s) : I s' := by
  suffices hgen : ∀ c c' : Prog Op Ret E α × σ,Relation.ReflTransGen (Step sem) c c' →
      Uses P c.1 → I c.2 → Uses P c'.1 ∧ I c'.2 from (hgen _ _ h hp hs).2
  intro c c' hrun hc hi
  induction hrun with
  | refl => exact ⟨hc,hi⟩
  | tail _ hstep ih =>
    obtain ⟨huses,hkept⟩ := ih
    cases hstep with
    | call hcall => exact ⟨huses.2 _,hI _ _ _ _ huses.1 hcall hkept⟩

end Uses

/-- An error on its way out: cleanup calls are made, and the last error raised is the outcome. -/
def Unwinds (R : Op → Prop) (e : E) : Prog Op Ret E α → Prop
  | .done r => r=.error e
  | .call op next =>
    R op ∧ (∀ a, Unwinds R e (next (.ok a))) ∧ ∀ e', Unwinds R e' (next (.error e'))

/-- The program makes calls of `P` and ends at the first error one raises, after
cleanup calls of `R`. What it raises by itself is in `L`. -/
def Straight (P R : Op → Prop) (L : E → Prop) : Prog Op Ret E α → Prop
  | .done (.ok _) => True
  | .done (.error e) => L e
  | .call op next =>
    P op ∧ (∀ a, Straight P R L (next (.ok a))) ∧ ∀ e, Unwinds R e (next (.error e))

section Straight
variable {P P' R : Op → Prop} {L L' : E → Prop}

/-- A returned value raises nothing. -/
theorem Straight.pure (a : α) : Straight P R L (pure a : Prog Op Ret E α) := trivial

/-- A raised error is the program's own. -/
theorem Straight.raise {e : E} (h : L e) : Straight P R L (raise e : Prog Op Ret E α) := h

/-- A computed error is the program's own. -/
theorem Straight.ofExcept {r : Except E α} (h : ∀ e,r=.error e → L e) :
    Straight P R L (ofExcept r : Prog Op Ret E α) := by
  cases r with
  | ok a => exact trivial
  | error e => exact h e rfl

/-- One call. -/
theorem Straight.perform {op : Op} (h : P op) : Straight P R L (perform op : Prog Op Ret E (Ret op)) :=
  ⟨h,fun _ => trivial,fun _ => rfl⟩

/-- An error passes a bind on its way out. -/
theorem Unwinds.bind {p : Prog Op Ret E α} {f : α → Prog Op Ret E β} {e : E} (h : Unwinds R e p) :
    Unwinds R e (p >>= f) := by
  induction p generalizing e with
  | done r =>
    subst h
    exact rfl
  | call op next ih => exact ⟨h.1,fun a => ih _ (h.2.1 a),fun e' => ih _ (h.2.2 e')⟩

/-- A sequence of such programs is one. -/
theorem Straight.bind {p : Prog Op Ret E α} {f : α → Prog Op Ret E β} (h : Straight P R L p)
    (hf : ∀ a, Straight P R L (f a)) : Straight P R L (p >>= f) := by
  induction p with
  | done r =>
    cases r with
    | ok a => exact hf a
    | error e => exact h
  | call op next ih => exact ⟨h.1,fun a => ih _ (h.2.1 a),fun e => (h.2.2 e).bind⟩

/-- A branch is straight where the side taken is. -/
theorem Straight.ite {c : Prop} [Decidable c] {p q : Prog Op Ret E α} (hp : c → Straight P R L p)
    (hq : ¬c → Straight P R L q) : Straight P R L (if c then p else q) := by
  by_cases h : c
  · rw [if_pos h]
    exact hp h
  · rw [if_neg h]
    exact hq h

/-- More calls and more errors of its own may be allowed. -/
theorem Straight.mono {p : Prog Op Ret E α} (h : Straight P R L p) (hP : ∀ op,P op → P' op)
    (hL : ∀ e,L e → L' e) : Straight P' R L' p := by
  induction p with
  | done r =>
    cases r with
    | ok a => exact trivial
    | error e => exact hL e h
  | call op next ih => exact ⟨hP op h.1,fun a => ih _ (h.2.1 a),h.2.2⟩

/-- More cleanup calls may be allowed on an error's way out. -/
theorem Unwinds.mono {R' : Op → Prop} {p : Prog Op Ret E α} {e : E} (h : Unwinds R e p)
    (hR : ∀ op,R op → R' op) : Unwinds R' e p := by
  induction p generalizing e with
  | done r => exact h
  | call op next ih => exact ⟨hR op h.1,fun a => ih _ (h.2.1 a),fun e' => ih _ (h.2.2 e')⟩

/-- More cleanup calls may be allowed. -/
theorem Straight.monoCleanup {R' : Op → Prop} {p : Prog Op Ret E α} (h : Straight P R L p)
    (hR : ∀ op,R op → R' op) : Straight P R' L p := by
  induction p with
  | done r =>
    cases r with
    | ok a => exact trivial
    | error e => exact h
  | call op next ih => exact ⟨h.1,fun a => ih _ (h.2.1 a),fun e => (h.2.2 e).mono hR⟩

/-- An error goes on after a cleanup. -/
theorem Straight.unwinds {cleanup : Prog Op Ret E Unit} (h : Straight R R (fun _ => False) cleanup)
    (e : E) : Unwinds R e (cleanup >>= fun _ => (CallProgram.ofExcept (.error e) : Prog Op Ret E α)) := by
  induction cleanup with
  | done r =>
    cases r with
    | ok a => exact rfl
    | error e' => exact absurd h id
  | call op next ih => exact ⟨h.1,fun a => ih _ (h.2.1 a),fun e' => (h.2.2 e').bind⟩

/-- An error passes the cleanup on its way out. -/
theorem Unwinds.ensure {body : Prog Op Ret E α} {cleanup : Prog Op Ret E Unit} {e : E}
    (hc : Straight R R (fun _ => False) cleanup) (h : Unwinds R e body) :
    Unwinds R e (CallProgram.ensure body cleanup) := by
  induction body generalizing e with
  | done r =>
    subst h
    exact hc.unwinds e
  | call op next ih => exact ⟨h.1,fun a => ih _ (h.2.1 a),fun e' => ih _ (h.2.2 e')⟩

/-- A cleanup keeps a program straight. -/
theorem Straight.ensure {body : Prog Op Ret E α} {cleanup : Prog Op Ret E Unit}
    (hc : Straight R R (fun _ => False) cleanup) (hR : ∀ op,R op → P op)
    (h : Straight P R L body) : Straight P R L (CallProgram.ensure body cleanup) := by
  induction body with
  | done r =>
    have hcleanup : Straight P R L cleanup := hc.mono hR fun _ hf => absurd hf id
    have hrest : Straight P R L (CallProgram.ofExcept r : Prog Op Ret E α) := h
    exact Straight.bind (f := fun _ => CallProgram.ofExcept r) hcleanup fun _ => hrest
  | call op next ih => exact ⟨h.1,fun a => ih _ (h.2.1 a),fun e => (h.2.2 e).ensure hc⟩

/-- An error on its way out makes cleanup calls only. -/
theorem Unwinds.uses {p : Prog Op Ret E α} {e : E} (h : Unwinds R e p) (hR : ∀ op,R op → P op) :
    Uses P p := by
  induction p generalizing e with
  | done r => exact trivial
  | call op next ih =>
    refine ⟨hR op h.1,fun r => ?_⟩
    cases r with
    | ok a => exact ih _ (h.2.1 a)
    | error e' => exact ih _ (h.2.2 e')

/-- A straight program makes calls of `P` only. -/
theorem Straight.uses {p : Prog Op Ret E α} (h : Straight P R L p) (hR : ∀ op,R op → P op) :
    Uses P p := by
  induction p with
  | done r => exact trivial
  | call op next ih =>
    refine ⟨h.1,fun r => ?_⟩
    cases r with
    | ok a => exact ih _ (h.2.1 a)
    | error e => exact (h.2.2 e).uses hR

end Straight

/-- `C` holds in every state a run passes through, and `Q` of every outcome
and final state. The two parts are the crash condition and the postcondition. -/
def Safe (sem : Sem Op Ret E σ) (C : σ → Prop) (Q : Except E α → σ → Prop) :
    Prog Op Ret E α → σ → Prop
  | .done r, s => C s ∧ Q r s
  | .call op next, s => C s ∧ ∀ r s', sem op s r s' → Safe sem C Q (next r) s'

section Rules
variable {sem : Sem Op Ret E σ} {C : σ → Prop} {Q Q' : Except E α → σ → Prop}

/-- The crash condition holds where the run stands. -/
theorem Safe.here {p : Prog Op Ret E α} {s : σ} (h : Safe sem C Q p s) : C s := by
  cases p <;> exact h.1

/-- A returned value meets the postcondition in a state meeting the crash condition. -/
theorem Safe.pure {a : α} {s : σ} (hc : C s) (hq : Q (.ok a) s) :
    Safe sem C Q (pure a : Prog Op Ret E α) s := ⟨hc,hq⟩

/-- A raised error is an outcome like any other. -/
theorem Safe.raise {e : E} {s : σ} (hc : C s) (hq : Q (.error e) s) :
    Safe sem C Q (raise e : Prog Op Ret E α) s := ⟨hc,hq⟩

/-- Weaken the postcondition. -/
theorem Safe.mono {p : Prog Op Ret E α} {s : σ} (h : Safe sem C Q p s)
    (hq : ∀ r s', C s' → Q r s' → Q' r s') : Safe sem C Q' p s := by
  induction p generalizing s with
  | done r => exact ⟨h.1,hq r s h.1 h.2⟩
  | call op next ih => exact ⟨h.1,fun r s' hr => ih r (h.2 r s' hr)⟩

/-- Sequencing: the first program's value must start the second safely, and
its errors must be outcomes of the whole. -/
theorem Safe.bind {Q : Except E β → σ → Prop} {p : Prog Op Ret E α} {f : α → Prog Op Ret E β} {s : σ}
    (h : Safe sem C (fun r s' => match r with
      | .ok a => Safe sem C Q (f a) s'
      | .error e => Q (.error e) s') p s) : Safe sem C Q (p >>= f) s := by
  induction p generalizing s with
  | done r =>
    cases r with
    | ok a => exact h.2
    | error e => exact h
  | call op next ih => exact ⟨h.1,fun r s' hr => ih r (h.2 r s' hr)⟩

/-- A call followed by the rest of the program. -/
theorem Safe.perform_bind {Q : Except E β → σ → Prop} {op : Op} {f : Ret op → Prog Op Ret E β} {s : σ}
    (hc : C s) (hok : ∀ a s', sem op s (.ok a) s' → Safe sem C Q (f a) s')
    (herr : ∀ e s', sem op s (.error e) s' → C s' ∧ Q (.error e) s') :
    Safe sem C Q (perform op >>= f) s := by
  refine ⟨hc,fun r s' hr => ?_⟩
  cases r with
  | ok a => exact hok a s' hr
  | error e => exact herr e s' hr

/-- An attempted program ends with its outcome as a value. -/
theorem Safe.attempt {Q : Except E (Except E α) → σ → Prop} {p : Prog Op Ret E α} {s : σ}
    (h : Safe sem C (fun r => Q (.ok r)) p s) : Safe sem C Q (attempt p) s := by
  induction p generalizing s with
  | done r => exact h
  | call op next ih => exact ⟨h.1,fun r s' hr => ih r (h.2 r s' hr)⟩

/-- Weaken the crash condition, and keep it at the end. -/
theorem Safe.crash {C' : σ → Prop} {p : Prog Op Ret E α} {s : σ} (h : Safe sem C Q p s)
    (hc : ∀ s',C s' → C' s') : Safe sem C' (fun r s' => C s' ∧ Q r s') p s := by
  induction p generalizing s with
  | done r => exact ⟨hc s h.1,h⟩
  | call op next ih => exact ⟨hc s h.1,fun r s' hr => ih r (h.2 r s' hr)⟩

/-- Sequencing from a known postcondition of the first program. -/
theorem Safe.seq {Q₁ : Except E α → σ → Prop} {Q : Except E β → σ → Prop} {p : Prog Op Ret E α}
    {f : α → Prog Op Ret E β} {s : σ} (h : Safe sem C Q₁ p s)
    (hok : ∀ a s',C s' → Q₁ (.ok a) s' → Safe sem C Q (f a) s')
    (herr : ∀ e s',C s' → Q₁ (.error e) s' → Q (.error e) s') : Safe sem C Q (p >>= f) s := by
  refine Safe.bind (h.mono fun r s' hc hr => ?_)
  cases r with
  | ok a => exact hok a s' hc hr
  | error e => exact herr e s' hc hr

/-- An attempted program followed by a continuation on its outcome. -/
theorem Safe.attempt_seq {Q₁ : Except E α → σ → Prop} {Q : Except E β → σ → Prop} {p : Prog Op Ret E α}
    {f : Except E α → Prog Op Ret E β} {s : σ} (h : Safe sem C Q₁ p s)
    (hnext : ∀ r s',C s' → Q₁ r s' → Safe sem C Q (f r) s') :
    Safe sem C Q (CallProgram.attempt p >>= f) s :=
  Safe.bind (Safe.attempt (h.mono hnext))

/-- A cleanup runs after every outcome of the body, which it leaves as it is. -/
theorem Safe.ensure {body : Prog Op Ret E α} {cleanup : Prog Op Ret E Unit} {s : σ}
    (h : Safe sem C (fun r s' => Safe sem C (fun c s'' => match c with
      | .ok _ => Q r s''
      | .error e => Q (.error e) s'') cleanup s') body s) :
    Safe sem C Q (CallProgram.ensure body cleanup) s := by
  refine Safe.attempt_seq h fun r s' _ hr => ?_
  refine Safe.bind (hr.mono fun c s'' hc hq => ?_)
  cases c with
  | ok _ => exact ⟨hc,hq⟩
  | error e => exact hq

/-- A last call, whose answer is the program's. -/
theorem Safe.perform {Q : Except E (Ret op) → σ → Prop} {s : σ} (hc : C s)
    (h : ∀ r s',sem op s r s' → C s' ∧ Q r s') : Safe sem C Q (CallProgram.perform op) s := ⟨hc,h⟩

/-- A branch is safe where the side taken is. -/
theorem Safe.ite {c : Prop} [Decidable c] {p q : Prog Op Ret E α} {s : σ}
    (hp : c → Safe sem C Q p s) (hq : ¬c → Safe sem C Q q s) : Safe sem C Q (if c then p else q) s := by
  by_cases h : c
  · rw [if_pos h]
    exact hp h
  · rw [if_neg h]
    exact hq h

/-- A crash condition that every call of a program keeps. -/
theorem Safe.of_uses {P : Op → Prop} {p : Prog Op Ret E α} {s : σ} (hp : Uses P p)
    (hC : ∀ op s r s',P op → sem op s r s' → C s → C s') (hc : C s) :
    Safe sem C (fun _ _ => True) p s := by
  induction p generalizing s with
  | done r => exact ⟨hc,trivial⟩
  | call op next ih => exact ⟨hc,fun r s' hr => ih r (hp.2 r) (hC op s r s' hp.1 hr hc)⟩

/-- A monitor keeps safe what was safe. -/
theorem Safe.observed {μ : Type} (watch : (op : Op) → Except E (Ret op) → μ → μ) {p : Prog Op Ret E α}
    {s : σ × μ} (h : Safe sem C Q p s.1) :
    Safe (CallProgram.observed sem watch) (fun s => C s.1) (fun r s => Q r s.1) p s := by
  induction p generalizing s with
  | done r => exact h
  | call op next ih => exact ⟨h.1,fun r s' hr => ih r (h.2 r s'.1 hr.1)⟩

/-- Two postconditions of one program hold together. -/
theorem Safe.and {C' : σ → Prop} {p : Prog Op Ret E α} {s : σ} (h : Safe sem C Q p s)
    (h' : Safe sem C' Q' p s) : Safe sem (fun s => C s ∧ C' s) (fun r s => Q r s ∧ Q' r s) p s := by
  induction p generalizing s with
  | done r => exact ⟨⟨h.1,h'.1⟩,h.2,h'.2⟩
  | call op next ih => exact ⟨⟨h.1,h'.1⟩,fun r s' hr => ih r (h.2 r s' hr) (h'.2 r s' hr)⟩

/-- Fewer answers keep safe what was safe. -/
theorem Safe.narrow {sem' : Sem Op Ret E σ} (hs : ∀ op s r s',sem' op s r s' → sem op s r s')
    {p : Prog Op Ret E α} {s : σ} (h : Safe sem C Q p s) : Safe sem' C Q p s := by
  induction p generalizing s with
  | done r => exact h
  | call op next ih => exact ⟨h.1,fun r s' hr => ih r (h.2 r s' (hs op s r s' hr))⟩

/-- What holds in every state that runs reach is a crash condition. -/
theorem Safe.of_reach {p : Prog Op Ret E α} {s : σ} (h : ∀ q s',Reach sem p s q s' → C s') :
    Safe sem C (fun _ _ => True) p s := by
  induction p generalizing s with
  | done r => exact ⟨h _ _ .refl,trivial⟩
  | call op next ih =>
    exact ⟨h _ _ .refl,fun r s' hr => ih r fun q t hreach => h q t (.head (.call hr) hreach)⟩

/-- A crash condition may be used at every call of a program that meets it. -/
theorem Safe.within {C' : σ → Prop} {p : Prog Op Ret E α} {s : σ} (h : Safe sem C Q p s)
    (h' : Safe (fun op s r s' => sem op s r s' ∧ C s ∧ C s') C' Q' p s) : Safe sem C' Q' p s := by
  induction p generalizing s with
  | done r => exact h'
  | call op next ih =>
    exact ⟨h'.1,fun r s' hr => ih r (h.2 r s' hr) (h'.2 r s' ⟨hr,h.1,(h.2 r s' hr).here⟩)⟩

/-- Safety passes along a run. -/
theorem Safe.reach {p q : Prog Op Ret E α} {s s' : σ} (h : Safe sem C Q p s)
    (hr : Reach sem p s q s') : Safe sem C Q q s' := by
  suffices hgen : ∀ c c' : Prog Op Ret E α × σ, Relation.ReflTransGen (Step sem) c c' →
      Safe sem C Q c.1 c.2 → Safe sem C Q c'.1 c'.2 from hgen _ _ hr h
  intro c c' hrun hsafe
  induction hrun with
  | refl => exact hsafe
  | tail _ hstep ih =>
    cases hstep with
    | call hcall => exact ih.2 _ _ hcall

/-- The crash condition holds in every state reached. -/
theorem Safe.state {p q : Prog Op Ret E α} {s s' : σ} (h : Safe sem C Q p s)
    (hr : Reach sem p s q s') : C s' := (h.reach hr).here

/-- The postcondition holds of every finished run. -/
theorem Safe.result {p : Prog Op Ret E α} {r : Except E α} {s s' : σ} (h : Safe sem C Q p s)
    (hr : Ends sem p s r s') : Q r s' := (h.reach hr).2

end Rules

/-- A chosen answer to each call, or none where the call is blocked. -/
abbrev Handler (Op : Type) (Ret : Op → Type) (E σ : Type) :=
  (op : Op) → σ → Option (Except E (Ret op) × σ)

/-- A handler only gives answers that the meaning of the operations allows. -/
def Handler.Respects (handler : Handler Op Ret E σ) (sem : Sem Op Ret E σ) : Prop :=
  ∀ op s r s', handler op s=some (r,s') → sem op s r s'

/-- The value that a finished program returned. -/
def Prog.value : Prog Op Ret E α → Option α
  | .done (.ok a) => some a
  | _ => none

/-- A program has a value exactly when it ended with it. -/
theorem Prog.value_eq_some {p : Prog Op Ret E α} {a : α} : p.value=some a ↔ p=.done (.ok a) := by
  constructor
  · intro h
    cases p with
    | done r =>
      cases r with
      | ok b =>
        cases h
        rfl
      | error e => exact nomatch h
    | call op next => exact nomatch h
  · rintro rfl
    rfl

/-- A program with a value has ended. -/
theorem Prog.of_value {p : Prog Op Ret E α} (h : p.value.isSome=true) : ∃ r,p=.done r := by
  obtain ⟨a,ha⟩ := Option.isSome_iff_exists.mp h
  exact ⟨_,Prog.value_eq_some.mp ha⟩

/-- The error that escaped a finished program. -/
def Prog.raised : Prog Op Ret E α → Option E
  | .done (.error e) => some e
  | _ => none

/-- An error escaped a program exactly when it ended with it. -/
theorem Prog.raised_eq_some {p : Prog Op Ret E α} {e : E} : p.raised=some e ↔ p=.done (.error e) := by
  constructor
  · intro h
    cases p with
    | done r =>
      cases r with
      | ok a => exact nomatch h
      | error e' =>
        cases h
        rfl
    | call op next => exact nomatch h
  · rintro rfl
    rfl

/-- Answer one call per handler of the script, stopping where the script or
the program ends or a call is blocked. -/
def drive : List (Handler Op Ret E σ) → Prog Op Ret E α → σ → Prog Op Ret E α × σ
  | [],p,s => (p,s)
  | _::_,.done r,s => (.done r,s)
  | handler::script,.call op next,s =>
    match handler op s with
    | none => (.call op next,s)
    | some (r,s') => drive script (next r) s'

/-- A driven run is a run. -/
theorem drive_reach {sem : Sem Op Ret E σ} (script : List (Handler Op Ret E σ))
    (h : ∀ handler∈script,handler.Respects sem) (p : Prog Op Ret E α) (s : σ) :
    Reach sem p s (drive script p s).1 (drive script p s).2 := by
  induction script generalizing p s with
  | nil => exact .refl
  | cons handler script ih =>
    cases p with
    | done r => exact .refl
    | call op next =>
      have hrest := ih (fun k hk => h k (List.mem_cons_of_mem _ hk))
      simp only [drive]
      cases he : handler op s with
      | none => exact .refl
      | some answer =>
        obtain ⟨r,s'⟩ := answer
        exact .head (.call (h handler List.mem_cons_self op s r s' he)) (hrest (next r) s')

/-- A handler beside a monitor that watches its answers. -/
def Handler.watched {μ : Type} (handler : Handler Op Ret E σ)
    (watch : (op : Op) → Except E (Ret op) → μ → μ) : Handler Op Ret E (σ × μ) := fun op s =>
  (handler op s.1).map fun answer => (answer.1,(answer.2,watch op answer.1 s.2))

/-- A watched handler answers as the watched meaning allows. -/
theorem Handler.Respects.watched {μ : Type} {handler : Handler Op Ret E σ} {sem : Sem Op Ret E σ}
    (h : handler.Respects sem) (watch : (op : Op) → Except E (Ret op) → μ → μ) :
    (handler.watched watch).Respects (observed sem watch) := by
  intro op s r s' hanswer
  obtain ⟨answer,hr,heq⟩ := Option.map_eq_some_iff.mp hanswer
  cases heq
  exact ⟨h op s.1 answer.1 answer.2 hr,rfl⟩

/-- A driven run beside a monitor is a watched run. -/
theorem drive_watched {μ : Type} {sem : Sem Op Ret E σ} (script : List (Handler Op Ret E σ))
    (h : ∀ handler∈script,handler.Respects sem) (watch : (op : Op) → Except E (Ret op) → μ → μ)
    (p : Prog Op Ret E α) (s : σ × μ) :
    Reach (observed sem watch) p s (drive (script.map fun handler => handler.watched watch) p s).1
      (drive (script.map fun handler => handler.watched watch) p s).2 := by
  refine drive_reach _ (fun handler hmem => ?_) p s
  obtain ⟨plain,hplain,rfl⟩ := List.mem_map.mp hmem
  exact (h plain hplain).watched watch

end GenericMlCache.CallProgram
