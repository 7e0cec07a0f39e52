import Mathlib.Data.Option.Basic
import Mathlib.Data.List.Basic

/-!
# Runs and their events

A system moves in steps of which some are seen. What is seen of a run is the list of its
events. One system simulates another when it can answer each step with the same events,
and then whatever is seen of the one can be seen of the other.
-/

namespace GenericMlCache.LabelledRuns

/-- The steps of a system, each with the event that is seen of it, if any. -/
abbrev Steps (σ ε : Type) := σ → Option ε → σ → Prop

/-- A run, with the events seen of it. -/
inductive Run {σ ε : Type} (step : Steps σ ε) (s : σ) : List ε → σ → Prop where
  | start : Run step s [] s
  | next {trace : List ε} {s' s'' : σ} {event : Option ε} (h : Run step s trace s')
      (hstep : step s' event s'') : Run step s (trace ++ event.toList) s''

section Runs
variable {σ τ ε : Type} {step : Steps σ ε} {s s' s'' : σ} {trace trace' : List ε}

/-- A quiet step is a run without events. -/
theorem Run.quiet (h : step s none s') : Run step s [] s' := Run.start.next h

/-- A step that is seen is a run of one event. -/
theorem Run.seen {event : ε} (h : step s (some event) s') : Run step s [event] s' := Run.start.next h

/-- Runs compose, and so do their events. -/
theorem Run.append (h : Run step s trace s') (h' : Run step s' trace' s'') :
    Run step s (trace ++ trace') s'' := by
  induction h' with
  | start => rwa [List.append_nil]
  | next _ hstep ih =>
    rw [← List.append_assoc]
    exact ih.next hstep

/-- What holds at first and is kept by every step, of the events so far and the state, holds
throughout; and what is then true of each event was true when it was seen. -/
theorem Run.explained {I : List ε → σ → Prop} {P : List ε → ε → Prop} (h : Run step s trace s') (hs : I [] s)
    (hstep : ∀ trace s event s',I trace s → step s event s' →
      I (trace ++ event.toList) s' ∧ ∀ e,event=some e → P trace e) :
    I trace s' ∧ ∀ before e after,trace=before ++ e::after → P before e := by
  induction h with
  | start => exact ⟨hs,fun before e after he => absurd he.symm (List.append_ne_nil_of_right_ne_nil _ nofun)⟩
  | @next trace s' s'' event h hnext ih =>
    obtain ⟨hI,hevent⟩ := hstep _ _ _ _ ih.1 hnext
    refine ⟨hI,fun before e after he => ?_⟩
    cases event with
    | none => exact ih.2 before e after (by rw [← he,Option.toList_none,List.append_nil])
    | some seen =>
      rcases List.eq_nil_or_concat after with rfl | ⟨rest,last,rfl⟩
      · obtain ⟨rfl,hlast⟩ := List.append_inj' he rfl
        exact hevent e (congrArg some (List.head_eq_of_cons_eq hlast))
      · have hsplit : trace ++ [seen]=(before ++ e::rest) ++ [last] := by
          rw [List.append_assoc,List.cons_append,← @List.concat_eq_append _ rest]
          exact he
        exact ih.2 before e rest (List.append_inj' hsplit rfl).1

/-- What every step keeps, every run keeps. -/
theorem Run.keeps {P : σ → Prop} (h : Run step s trace s') (hs : P s)
    (hstep : ∀ s event s',P s → step s event s' → P s') : P s' :=
  (h.explained (I:=fun _ => P) (P:=fun _ _ => True) hs fun _ _ _ _ hP hnext =>
    ⟨hstep _ _ _ hP hnext,fun _ _ => trivial⟩).1

/-- A run of which only admitted events are seen takes only admitted steps. -/
theorem Run.restrict {P : ε → Prop} (h : Run step s trace s') (hall : ∀ event∈trace,P event) :
    Run (fun s event s' => step s event s' ∧ ∀ e,event=some e → P e) s trace s' := by
  induction h with
  | start => exact .start
  | next _ hnext ih =>
    refine (ih fun event hmem => hall event (List.mem_append_left _ hmem)).next ⟨hnext,?_⟩
    rintro e rfl
    exact hall e (List.mem_append_right _ (List.mem_singleton_self e))

/-- Each step of the one system is answered by a run of the other with the same events. -/
def Simulates (step : Steps σ ε) (step' : Steps τ ε) (R : σ → τ → Prop) : Prop :=
  ∀ s t event s',R s t → step s event s' → ∃ t',Run step' t event.toList t' ∧ R s' t'

/-- Whatever is seen of a run can be seen of a run of the system that simulates it. -/
theorem Simulates.run {step' : Steps τ ε} {R : σ → τ → Prop} (h : Simulates step step' R) {t : τ} (hR : R s t)
    (hrun : Run step s trace s') : ∃ t',Run step' t trace t' ∧ R s' t' := by
  induction hrun with
  | start => exact ⟨t,.start,hR⟩
  | next _ hnext ih =>
    obtain ⟨t',hrun',hR'⟩ := ih
    obtain ⟨t'',hlast,hR''⟩ := h _ _ _ _ hR' hnext
    exact ⟨t'',hrun'.append hlast,hR''⟩

end Runs

end GenericMlCache.LabelledRuns
