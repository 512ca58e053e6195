import CanPci.Lib.Machine

/-! # Runs of a labelled transition relation

Finite runs, guarded runs (every step meets a side condition on the state it
starts from), the invariant rule, the forward-simulation rule, and machines whose steps
are steps of the relation. -/

namespace Transition
variable {S A T B : Type*}

/-- A finite run, extended at its end. -/
inductive Run (step : S → A → S → Prop) : S → List A → S → Prop
  | nil (s) : Run step s [] s
  | snoc {s t u as a} : Run step s as t → step t a u → Run step s (as ++ [a]) u

/-- The steps whose starting state and label meet `ok`. -/
def Guarded (step : S → A → S → Prop) (ok : S → A → Prop) : S → A → S → Prop :=
  fun s a t => step s a t ∧ ok s a

theorem Run.single {step : S → A → S → Prop} {s t : S} {a : A} (h : step s a t) :
    Run step s [a] t := Run.snoc (Run.nil s) h

theorem Run.append {step : S → A → S → Prop} {s t u : S} {as bs : List A}
    (h : Run step s as t) (h' : Run step t bs u) : Run step s (as ++ bs) u := by
  induction h' with
  | nil => simpa using h
  | snoc _ hstep ih =>
    rw [← List.append_assoc]
    exact Run.snoc ih hstep

theorem Run.invariant {step : S → A → S → Prop} {P : S → Prop}
    (hstep : ∀ s a t, P s → step s a t → P t) {s t : S} {as : List A}
    (h : Run step s as t) (hs : P s) : P t := by
  induction h with
  | nil => exact hs
  | snoc _ ha ih => exact hstep _ _ _ ih ha

/-- Along a run that keeps `P`, steps may be traded for steps that need `P`. -/
theorem Run.upgrade {step step' : S → A → S → Prop} {P : S → Prop}
    (hstep : ∀ s a t, P s → step s a t → P t ∧ step' s a t) {s t : S} {as : List A}
    (h : Run step s as t) (hs : P s) : P t ∧ Run step' s as t := by
  induction h with
  | nil => exact ⟨hs, Run.nil _⟩
  | snoc _ ha ih =>
    obtain ⟨ht, hrun⟩ := ih
    obtain ⟨hu, ha'⟩ := hstep _ _ _ ht ha
    exact ⟨hu, hrun.snoc ha'⟩

/-- Steps whose label also records an observation of the state they start from. -/
def Observing (step : S → A → S → Prop) (obs : S → A → B) : S → A × B → S → Prop :=
  fun s ab t => step s ab.1 t ∧ ab.2 = obs s ab.1

theorem Run.observe {step : S → A → S → Prop} (obs : S → A → B) {s t : S} {as : List A}
    (h : Run step s as t) :
    ∃ trace, trace.map Prod.fst = as ∧ Run (Observing step obs) s trace t := by
  induction h with
  | nil => exact ⟨[], rfl, Run.nil _⟩
  | @snoc t u as a _ hstep ih =>
    obtain ⟨trace, hfst, hrun⟩ := ih
    refine ⟨trace ++ [(a, obs t a)], ?_, Run.snoc hrun ⟨hstep, rfl⟩⟩
    rw [List.map_append, hfst]
    rfl

/-- A functional machine that keeps up with every step on what the step observes
keeps up with the run on what the run observes. -/
theorem Run.refine {step : S → A → S → Prop} {obs : S → A → B} {f : T → B → T}
    {R : S → T → Prop} (hsim : ∀ s a s' t, R s t → step s a s' → R s' (f t (obs s a)))
    {s s' : S} {t : T} {trace : List (A × B)} (h : Run (Observing step obs) s trace s')
    (hR : R s t) : R s' ((trace.map Prod.snd).foldl f t) := by
  induction h with
  | nil => exact hR
  | snoc _ hstep ih =>
    rw [List.map_append, List.foldl_append]
    have hlast := hsim _ _ _ _ ih hstep.1
    rw [← hstep.2] at hlast
    exact hlast

/-- A machine's run is a run of the relation when every step it takes is one. -/
theorem Run.of_machine {O : Type*} {step : S → A → S → Prop} {f : S → A → S × List O}
    {P : S → A → Prop} (hstep : ∀ s a, P s a → step s a (f s a).1) {s : S} {as : List A}
    (h : Machine.Along f P s as) : Run step s as (Machine.run f s as).1 := by
  induction as generalizing s with
  | nil => exact Run.nil s
  | cons a as ih => exact (Run.single (hstep s a h.1)).append (ih h.2)

end Transition
