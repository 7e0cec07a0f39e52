import GenericMlCache.CallAutomaton

/-!
# Callers beside another party

Any number of callers and one more party, each over calls of its own, on one
outside state. A caller may begin another program and the party may be stopped
and replaced, at any point. An invariant over all phases that every turn and
every new beginning keeps holds in every state that such a run reaches.
-/

namespace GenericMlCache.CallParties

open CallProgram CallAutomaton

variable {ι : Type} [DecidableEq ι] {A : ι → Type}
variable {Op Op' : Type} {Ret : Op → Type} {Ret' : Op' → Type} {E E' β σ Φ Ψ : Type}

/-- The remaining programs of the callers and of the party, and the outside state. -/
abbrev Site (Op : Type) (Ret : Op → Type) (E : Type) {ι : Type} (A : ι → Type) (Op' : Type)
    (Ret' : Op' → Type) (E' β σ : Type) :=
  ((i : ι) → Prog Op Ret E (A i)) × Prog Op' Ret' E' β × σ

/-- What may run at a site: the meaning of the calls, the programs that may begin,
and what a beginning does to the outside state. -/
structure Rules (Op : Type) (Ret : Op → Type) (E : Type) {ι : Type} (A : ι → Type) (Op' : Type)
    (Ret' : Op' → Type) (E' β σ : Type) where
  /-- What a caller's calls do. -/
  callers : ι → Sem Op Ret E σ
  /-- What the party's calls do. -/
  party : Sem Op' Ret' E' σ
  /-- The programs that a caller may begin. -/
  begins : (i : ι) → Prog Op Ret E (A i) → Prop
  /-- The programs that the party may be replaced with. -/
  restarts : Prog Op' Ret' E' β → Prop
  /-- What a caller's beginning does outside. -/
  begin : ι → σ → σ
  /-- What a restart of the party does outside. -/
  restart : σ → σ

/-- One step at a site. -/
inductive SiteStep (rules : Rules Op Ret E A Op' Ret' E' β σ) :
    Site Op Ret E A Op' Ret' E' β σ → Site Op Ret E A Op' Ret' E' β σ → Prop where
  /-- A caller's call is answered. -/
  | caller {progs progs' : (i : ι) → Prog Op Ret E (A i)} {q : Prog Op' Ret' E' β} {s s' : σ}
      (h : PoolStep rules.callers (progs,s) (progs',s')) : SiteStep rules (progs,q,s) (progs',q,s')
  /-- The party's call is answered. -/
  | party {progs : (i : ι) → Prog Op Ret E (A i)} {q q' : Prog Op' Ret' E' β} {s s' : σ}
      (h : Step rules.party (q,s) (q',s')) : SiteStep rules (progs,q,s) (progs,q',s')
  /-- A caller ends where it is and another begins. -/
  | begin {progs : (i : ι) → Prog Op Ret E (A i)} {q : Prog Op' Ret' E' β} {s : σ} (i : ι)
      {p : Prog Op Ret E (A i)} (h : rules.begins i p) :
      SiteStep rules (progs,q,s) (Function.update progs i p,q,rules.begin i s)
  /-- The party ends where it is and is replaced. -/
  | restart {progs : (i : ι) → Prog Op Ret E (A i)} {q q' : Prog Op' Ret' E' β} {s : σ}
      (h : rules.restarts q') : SiteStep rules (progs,q,s) (progs,q',rules.restart s)

/-- Every configuration that some run at the site reaches. -/
abbrev SiteReach (rules : Rules Op Ret E A Op' Ret' E' β σ) (c c' : Site Op Ret E A Op' Ret' E' β σ) :
    Prop := Relation.ReflTransGen (SiteStep rules) c c'

/-- The automata of callers and party keep an invariant over their phases and the outside state. -/
structure SiteKeeps (rules : Rules Op Ret E A Op' Ret' E' β σ) (turn : ι → Turns Op Ret E Φ)
    (turn' : Turns Op' Ret' E' Ψ) (φ₀ : Φ) (ψ₀ : Ψ) (J : (ι → Φ) → Ψ → σ → Prop) : Prop where
  /-- A turn of a caller keeps it. -/
  caller : ∀ phases ψ i op r φ' s s',turn i (phases i) op r φ' → rules.callers i op s r s' →
    J phases ψ s → J (Function.update phases i φ') ψ s'
  /-- A turn of the party keeps it. -/
  party : ∀ phases ψ op r ψ' s s',turn' ψ op r ψ' → rules.party op s r s' → J phases ψ s → J phases ψ' s'
  /-- A caller's beginning keeps it. -/
  begin : ∀ phases ψ i s,J phases ψ s → J (Function.update phases i φ₀) ψ (rules.begin i s)
  /-- A restart of the party keeps it. -/
  restart : ∀ phases ψ s,J phases ψ s → J phases ψ₀ (rules.restart s)

section Rule
variable {rules : Rules Op Ret E A Op' Ret' E' β σ} {turn : ι → Turns Op Ret E Φ}
variable {turn' : Turns Op' Ret' E' Ψ} {φ₀ : Φ} {ψ₀ : Ψ} {J : (ι → Φ) → Ψ → σ → Prop}
variable {Q : (i : ι) → Except E (A i) → Φ → Prop} {Q' : Except E' β → Ψ → Prop}

/-- A kept invariant holds wherever a run leads, at phases from which every remaining program follows. -/
theorem SiteKeeps.reach (hk : SiteKeeps rules turn turn' φ₀ ψ₀ J)
    (hbegins : ∀ i p,rules.begins i p → Follows (turn i) (Q i) p φ₀)
    (hrestarts : ∀ q,rules.restarts q → Follows turn' Q' q ψ₀)
    {c c' : Site Op Ret E A Op' Ret' E' β σ} {phases : ι → Φ} {ψ : Ψ}
    (hcallers : PoolFollows turn Q c.1 phases) (hparty : Follows turn' Q' c.2.1 ψ) (hj : J phases ψ c.2.2)
    (hr : SiteReach rules c c') :
    ∃ phases' ψ',J phases' ψ' c'.2.2 ∧ PoolFollows turn Q c'.1 phases' ∧ Follows turn' Q' c'.2.1 ψ' := by
  induction hr with
  | refl => exact ⟨phases,ψ,hj,hcallers,hparty⟩
  | tail _ hstep ih =>
    obtain ⟨phases,ψ,hj,hcallers,hparty⟩ := ih
    cases hstep with
    | caller hcall =>
      cases hcall with
      | call i hp hcall =>
        obtain ⟨φ',hturn,hrest⟩ := hcallers.step hp _
        exact ⟨_,ψ,hk.caller _ _ _ _ _ _ _ _ hturn hcall hj,hrest,hparty⟩
    | party hstep =>
      cases hstep with
      | call hcall =>
        obtain ⟨ψ',hturn,hrest⟩ := hparty _
        exact ⟨phases,ψ',hk.party _ _ _ _ _ _ _ hturn hcall hj,hcallers,hrest⟩
    | begin i hp =>
      refine ⟨_,ψ,hk.begin _ _ i _ hj,fun j => ?_,hparty⟩
      by_cases heq : j=i
      · subst heq
        simpa only [Function.update_self] using hbegins j _ hp
      · simpa only [Function.update_of_ne heq] using hcallers j
    | restart hq => exact ⟨phases,ψ₀,hk.restart _ _ _ hj,hcallers,hrestarts _ hq⟩

end Rule

/-- One entry of a schedule. -/
inductive Move (Op : Type) (Ret : Op → Type) (E : Type) {ι : Type} (A : ι → Type) (Op' : Type)
    (Ret' : Op' → Type) (E' β σ : Type) where
  | caller (i : ι) (handler : Handler Op Ret E σ)
  | party (handler : Handler Op' Ret' E' σ)
  | begin (i : ι) (p : Prog Op Ret E (A i))
  | restart (q : Prog Op' Ret' E' β)

/-- The entry is one that the rules allow. -/
def Move.Respects (rules : Rules Op Ret E A Op' Ret' E' β σ) : Move Op Ret E A Op' Ret' E' β σ → Prop
  | .caller i handler => handler.Respects (rules.callers i)
  | .party handler => handler.Respects rules.party
  | .begin i p => rules.begins i p
  | .restart q => rules.restarts q

/-- Follow one entry. A blocked or finished program's entry is skipped. -/
def Move.apply (rules : Rules Op Ret E A Op' Ret' E' β σ) (c : Site Op Ret E A Op' Ret' E' β σ) :
    Move Op Ret E A Op' Ret' E' β σ → Site Op Ret E A Op' Ret' E' β σ
  | .caller i handler =>
    match c.1 i with
    | .done _ => c
    | .call op next =>
      match handler op c.2.2 with
      | none => c
      | some (r,s') => (Function.update c.1 i (next r),c.2.1,s')
  | .party handler =>
    match c.2.1 with
    | .done _ => c
    | .call op next =>
      match handler op c.2.2 with
      | none => c
      | some (r,s') => (c.1,next r,s')
  | .begin i p => (Function.update c.1 i p,c.2.1,rules.begin i c.2.2)
  | .restart q => (c.1,q,rules.restart c.2.2)

/-- Follow a schedule. -/
def driveSite (rules : Rules Op Ret E A Op' Ret' E' β σ) (schedule : List (Move Op Ret E A Op' Ret' E' β σ))
    (c : Site Op Ret E A Op' Ret' E' β σ) : Site Op Ret E A Op' Ret' E' β σ :=
  schedule.foldl (Move.apply rules) c

/-- An allowed entry is a step, or is skipped. -/
theorem Move.apply_reach {rules : Rules Op Ret E A Op' Ret' E' β σ}
    (move : Move Op Ret E A Op' Ret' E' β σ) (h : move.Respects rules)
    (c : Site Op Ret E A Op' Ret' E' β σ) : SiteReach rules c (move.apply rules c) := by
  cases move with
  | caller i handler =>
    simp only [Move.apply]
    cases hp : c.1 i with
    | done r => exact .refl
    | call op next =>
      cases he : handler op c.2.2 with
      | none =>
        simp only [he]
        exact .refl
      | some answer =>
        simp only [he]
        exact .single (.caller (.call i hp (h op _ _ _ he)))
  | party handler =>
    obtain ⟨progs,q,s⟩ := c
    simp only [Move.apply]
    cases q with
    | done r => exact .refl
    | call op next =>
      cases he : handler op s with
      | none =>
        simp only [he]
        exact .refl
      | some answer =>
        simp only [he]
        exact .single (.party (.call (h op _ _ _ he)))
  | begin i p => exact .single (.begin i h)
  | restart q => exact .single (.restart h)

/-- A driven schedule is a run. -/
theorem driveSite_reach {rules : Rules Op Ret E A Op' Ret' E' β σ}
    (schedule : List (Move Op Ret E A Op' Ret' E' β σ)) (h : ∀ move∈schedule,move.Respects rules)
    (c : Site Op Ret E A Op' Ret' E' β σ) : SiteReach rules c (driveSite rules schedule c) := by
  induction schedule generalizing c with
  | nil => exact .refl
  | cons move rest ih =>
    have hfirst := move.apply_reach (h move List.mem_cons_self) c
    exact hfirst.trans (ih (fun m hm => h m (List.mem_cons_of_mem _ hm)) _)

end GenericMlCache.CallParties
