import Mathlib.Data.List.Basic

/-! # Deterministic machines that emit events

A run folds a step function over a list of inputs and concatenates what the steps
emit. `Along` says that a predicate holds of every step of the run. -/

namespace Machine
variable {S A O : Type*} {step : S → A → S × List O}

def run (step : S → A → S × List O) : S → List A → S × List O
  | s, [] => (s, [])
  | s, a :: as =>
    let r := step s a
    ((run step r.1 as).1, r.2 ++ (run step r.1 as).2)

def Along (step : S → A → S × List O) (P : S → A → Prop) : S → List A → Prop
  | _, [] => True
  | s, a :: as => P s a ∧ Along step P (step s a).1 as

instance decidableAlong {P : S → A → Prop} [∀ s a, Decidable (P s a)] :
    ∀ s as, Decidable (Along step P s as)
  | _, [] => instDecidableTrue
  | s, a :: as => @instDecidableAnd (P s a) _ _ (decidableAlong (step s a).1 as)

theorem run_invariant {I : S → Prop} (hstep : ∀ s a, I s → I (step s a).1) {s : S} (as : List A)
    (hs : I s) : I (run step s as).1 := by
  induction as generalizing s with
  | nil => exact hs
  | cons a as ih => exact ih (hstep s a hs)

theorem run_invariant_of {I : S → Prop} {ok : A → Prop}
    (hstep : ∀ s a, I s → ok a → I (step s a).1) {s : S} {as : List A} (hok : ∀ a ∈ as, ok a)
    (hs : I s) : I (run step s as).1 := by
  induction as generalizing s with
  | nil => exact hs
  | cons a as ih =>
    exact ih (fun b hb => hok b (List.mem_cons_of_mem _ hb))
      (hstep s a hs (hok a List.mem_cons_self))

theorem run_events {I : S → Prop} {Q : O → Prop} (hstep : ∀ s a, I s → I (step s a).1)
    (hout : ∀ s a, I s → ∀ o ∈ (step s a).2, Q o) {s : S} (as : List A) (hs : I s) :
    ∀ o ∈ (run step s as).2, Q o := by
  induction as generalizing s with
  | nil => exact fun o ho => absurd ho List.not_mem_nil
  | cons a as ih =>
    intro o ho
    rcases List.mem_append.mp ho with hnow | hlater
    · exact hout s a hs o hnow
    · exact ih (hstep s a hs) o hlater

theorem events_iff_along (Q : O → Prop) (s : S) (as : List A) :
    (∀ o ∈ (run step s as).2, Q o) ↔ Along step (fun s a => ∀ o ∈ (step s a).2, Q o) s as := by
  induction as generalizing s with
  | nil => simp [run, Along]
  | cons a as ih => simp only [run, Along, List.forall_mem_append, ih]

theorem along_congr {P P' : S → A → Prop} (h : ∀ s a, P s a ↔ P' s a) (s : S) (as : List A) :
    Along step P s as ↔ Along step P' s as := by
  induction as generalizing s with
  | nil => exact Iff.rfl
  | cons a as ih => simp only [Along, h, ih]

theorem along_and {P Q : S → A → Prop} {s : S} {as : List A} (hp : Along step P s as)
    (hq : Along step Q s as) : Along step (fun s a => P s a ∧ Q s a) s as := by
  induction as generalizing s with
  | nil => trivial
  | cons a as ih => exact ⟨⟨hp.1, hq.1⟩, ih hp.2 hq.2⟩

/-- Related states that answer every input alike, and stay related, answer every run alike. -/
theorem run_bisim {T : Type*} {step' : T → A → T × List O} {R : S → T → Prop}
    (hstep : ∀ s t a, R s t → R (step s a).1 (step' t a).1 ∧ (step s a).2 = (step' t a).2)
    {s : S} {t : T} (as : List A) (h : R s t) : (run step s as).2 = (run step' t as).2 := by
  induction as generalizing s t with
  | nil => rfl
  | cons a as ih =>
    obtain ⟨hnext, hout⟩ := hstep s t a h
    rw [run, run, hout, ih hnext]

/-- Machines that go through the same states emit the same in a run exactly when they do
in each of its steps, given that they emit equally much. -/
theorem run_eq_iff {step' : S → A → S × List O}
    (hsame : ∀ s a, (step' s a).1 = (step s a).1 ∧ (step' s a).2.length = (step s a).2.length)
    {s : S} {as : List A} : (run step s as).2 = (run step' s as).2 ↔
      Along step (fun s a => (step s a).2 = (step' s a).2) s as := by
  induction as generalizing s with
  | nil => exact iff_of_true rfl trivial
  | cons a as ih =>
    obtain ⟨hnext, hlen⟩ := hsame s a
    rw [run, run, hnext, Along, ← ih]
    dsimp only
    refine ⟨fun h => List.append_inj h hlen.symm, fun h => ?_⟩
    rw [h.1, h.2]

/-- When what a step emits depends on its input only, so does what a run emits. -/
theorem filterMap_events {B : Type*} {p : O → Option B} {I : S → Prop} {ok : A → Prop}
    {g : A → List B}
    (hstep : ∀ s a, I s → ok a → I (step s a).1 ∧ (step s a).2.filterMap p = g a) {s : S}
    {as : List A} (hok : ∀ a ∈ as, ok a) (hs : I s) :
    (run step s as).2.filterMap p = as.flatMap g := by
  induction as generalizing s with
  | nil => rfl
  | cons a as ih =>
    obtain ⟨hnext, hemit⟩ := hstep s a hs (hok a List.mem_cons_self)
    have htail := ih (fun b hb => hok b (List.mem_cons_of_mem _ hb)) hnext
    simp only [run, List.flatMap_cons, List.filterMap_append, htail, hemit]

end Machine
