import GenericMlCache.CallProgram

/-!
# Programs with one outcome

Where nothing else acts on the state and every call of a program has one
answer, the program has one outcome: a run ends with it, and no run ends with
another. Outcomes compose as the programs do, so a program is computed call by
call.
-/

namespace GenericMlCache.CallProgram

variable {Op : Type} {Ret : Op → Type} {E α β σ : Type} {sem : Sem Op Ret E σ}

/-- From the state the program ends with this outcome in that state, and not otherwise. -/
structure Yields (sem : Sem Op Ret E σ) (p : Prog Op Ret E α) (s : σ) (r : Except E α) (s' : σ) : Prop where
  /-- It ends so. -/
  ends : Ends sem p s r s'
  /-- Every run stays on the way there. -/
  only : Safe sem (fun _ => True) (fun r' t => r'=r ∧ t=s') p s

/-- Every run that ends has the outcome. -/
theorem Yields.unique {p : Prog Op Ret E α} {s s' t : σ} {r r' : Except E α} (h : Yields sem p s r s')
    (hrun : Ends sem p s r' t) : r'=r ∧ t=s' := h.only.result hrun

/-- A returned value. -/
theorem Yields.pure (a : α) (s : σ) : Yields sem (pure a : Prog Op Ret E α) s (.ok a) s :=
  ⟨.refl,Safe.pure trivial ⟨rfl,rfl⟩⟩

/-- A computed outcome. -/
theorem Yields.ofExcept (r : Except E α) (s : σ) : Yields sem (ofExcept r : Prog Op Ret E α) s r s :=
  ⟨.refl,trivial,rfl,rfl⟩

/-- A call with one answer. -/
theorem Yields.perform {op : Op} {s s' : σ} {r : Except E (Ret op)} (hcall : sem op s r s')
    (honly : ∀ r' t,sem op s r' t → r'=r ∧ t=s') : Yields sem (perform op : Prog Op Ret E (Ret op)) s r s' :=
  ⟨Ends.perform hcall,Safe.perform trivial fun r' t h => ⟨trivial,honly r' t h⟩⟩

/-- One program after another. -/
theorem Yields.bind {p : Prog Op Ret E α} {f : α → Prog Op Ret E β} {s s' s'' : σ} {a : α} {r : Except E β}
    (h : Yields sem p s (.ok a) s') (hf : Yields sem (f a) s' r s'') : Yields sem (p >>= f) s r s'' := by
  refine ⟨Ends.bind h.ends hf.ends,Safe.seq h.only (fun a' t _ hr => ?_) fun e t _ hr => nomatch hr.1⟩
  obtain ⟨hvalue,rfl⟩ := hr
  cases hvalue
  exact hf.only

/-- An error skips what follows. -/
theorem Yields.bind_error {p : Prog Op Ret E α} {s s' : σ} {e : E} (h : Yields sem p s (.error e) s')
    (f : α → Prog Op Ret E β) : Yields sem (p >>= f) s (.error e) s' := by
  refine ⟨Reach.bind h.ends f,Safe.seq h.only (fun a t _ hr => nomatch hr.1) fun e' t _ hr => ?_⟩
  obtain ⟨hvalue,rfl⟩ := hr
  cases hvalue
  exact ⟨rfl,rfl⟩

/-- An attempt hands the outcome over. -/
theorem Yields.attempt {p : Prog Op Ret E α} {s s' : σ} {r : Except E α} (h : Yields sem p s r s') :
    Yields sem (attempt p) s (.ok r) s' := by
  refine ⟨Ends.attempt h.ends,Safe.attempt (h.only.mono fun r' t _ hr => ?_)⟩
  exact ⟨by rw [hr.1],hr.2⟩

/-- A cleanup that does not raise keeps the outcome. -/
theorem Yields.ensure {body : Prog Op Ret E α} {cleanup : Prog Op Ret E Unit} {s s' s'' : σ} {r : Except E α}
    (h : Yields sem body s r s') (hc : Yields sem cleanup s' (.ok ()) s'') :
    Yields sem (ensure body cleanup) s r s'' :=
  h.attempt.bind (hc.bind (Yields.ofExcept r s''))

/-- An outcome, and what is computed from its value and state. -/
def andThen (outcome : Except E α × σ) (next : α → σ → Except E β × σ) : Except E β × σ :=
  match outcome with
  | (.ok a,s) => next a s
  | (.error e,s) => (.error e,s)

/-- A computed outcome after a computed outcome. -/
theorem Yields.andThen {p : Prog Op Ret E α} {f : α → Prog Op Ret E β} {s : σ} {outcome : Except E α × σ}
    {next : α → σ → Except E β × σ} (h : Yields sem p s outcome.1 outcome.2)
    (hf : ∀ a t,outcome=(.ok a,t) → Yields sem (f a) t (next a t).1 (next a t).2) :
    Yields sem (p >>= f) s (CallProgram.andThen outcome next).1 (CallProgram.andThen outcome next).2 := by
  obtain ⟨r,t⟩ := outcome
  cases r with
  | error e => exact h.bind_error f
  | ok a => exact Yields.bind h (hf a t rfl)

end GenericMlCache.CallProgram
