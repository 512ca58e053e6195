import CanPci.Lib.History

/-! # Ledgers of a machine

What each step of a run brings into a store and what it takes out, in order, and the rule
that the two balance with what the store holds. -/

namespace Machine
variable {S A O B : Type*} {step : S → A → S × List O}

/-- What `f` finds in the steps of a run. -/
def tally (step : S → A → S × List O) (f : S → A → List B) : S → List A → List B
  | _, [] => []
  | s, a :: as => f s a ++ tally step f (step s a).1 as

theorem tally_append (f : S → A → List B) (s : S) (as bs : List A) :
    tally step f s (as ++ bs) = tally step f s as ++ tally step f (run step s as).1 bs := by
  induction as generalizing s with
  | nil => rfl
  | cons a as ih => rw [List.cons_append, tally, tally, run, ih, List.append_assoc]

/-- A store that every step balances is balanced by every run. -/
theorem run_balance {I : S → Prop} {ok : S → A → Prop} {held : S → List B}
    {gain loss : S → A → List B}
    (hstep : ∀ s a, I s → ok s a →
      I (step s a).1 ∧ held s ++ gain s a = loss s a ++ held (step s a).1) {s : S} (as : List A)
    (hok : Along step ok s as) (hs : I s) :
    I (run step s as).1 ∧
      held s ++ tally step gain s as = tally step loss s as ++ held (run step s as).1 := by
  induction as generalizing s with
  | nil => exact ⟨hs, by simp [tally, run]⟩
  | cons a as ih =>
    obtain ⟨hnext, hone⟩ := hstep s a hs hok.1
    obtain ⟨hlast, hrest⟩ := ih hok.2 hnext
    refine ⟨hlast, ?_⟩
    calc held s ++ (gain s a ++ tally step gain (step s a).1 as)
        = loss s a ++ (held (step s a).1 ++ tally step gain (step s a).1 as) := by
          rw [← List.append_assoc, hone, List.append_assoc]
      _ = loss s a ++ (tally step loss (step s a).1 as ++ held (run step (step s a).1 as).1) := by
          rw [hrest]
      _ = tally step loss s (a :: as) ++ held (run step s (a :: as)).1 := by
          rw [← List.append_assoc]
          rfl

/-- The events that `p` selects, when every step's are what `f` says. -/
theorem filterMap_tally {I : S → Prop} {p : O → Option B} {f : S → A → List B}
    (hstep : ∀ s a, I s → I (step s a).1 ∧ (step s a).2.filterMap p = f s a) {s : S} (as : List A)
    (hs : I s) : (run step s as).2.filterMap p = tally step f s as := by
  induction as generalizing s with
  | nil => rfl
  | cons a as ih =>
    obtain ⟨hnext, hone⟩ := hstep s a hs
    rw [run, tally, List.filterMap_append, hone, ih hnext]

end Machine
