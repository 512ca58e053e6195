import CanPci.Lib.Machine

/-! # Histories of a machine

A history lists the inputs of a run, newest first. A cell that every input either sets
or leaves alone holds the latest value set. -/

namespace Machine
variable {S A O B : Type*} {step : S → A → S × List O}

theorem run_append (s : S) (as bs : List A) :
    run step s (as ++ bs) = ((run step (run step s as).1 bs).1,
      (run step s as).2 ++ (run step (run step s as).1 bs).2) := by
  induction as generalizing s with
  | nil => rfl
  | cons a as ih =>
    rw [List.cons_append, run, run, ih]
    dsimp only
    rw [List.append_assoc]

theorem along_append {P : S → A → Prop} (s : S) (as bs : List A) :
    Along step P s (as ++ bs) ↔ Along step P s as ∧ Along step P (run step s as).1 bs := by
  induction as generalizing s with
  | nil => exact (iff_of_eq (true_and _)).symm
  | cons a as ih => rw [List.cons_append, Along, Along, run, ih, and_assoc]

/-- The state that a history leaves. -/
def after (step : S → A → S × List O) (s : S) (past : List A) : S := (run step s past.reverse).1

theorem after_cons (s : S) (a : A) (past : List A) :
    after step s (a :: past) = (step (after step s past) a).1 := by
  rw [after, List.reverse_cons, run_append]
  rfl

/-- The latest value that `f` takes from an input and the history before it. -/
def latest (f : List A → A → Option B) : List A → Option B
  | [] => none
  | a :: past => (f past a).or (latest f past)

theorem after_cell {f : List A → A → Option B} (get : S → B) {s : S}
    (hstep : ∀ past a, get (step (after step s past) a).1 =
      (f past a).getD (get (after step s past))) (past : List A) :
    get (after step s past) = (latest f past).getD (get s) := by
  induction past with
  | nil => rfl
  | cons a past ih =>
    rw [after_cons, hstep, latest, ih]
    cases f past a <;> rfl

theorem latest_map {C : Type*} (g : B → C) (f : List A → A → Option B) (past : List A) :
    latest (fun past a => (f past a).map g) past = (latest f past).map g := by
  induction past with
  | nil => rfl
  | cons a past ih =>
    rw [latest, latest, ih]
    cases f past a <;> rfl

/-- `p` happened, and `q` not after it. -/
def Since (p q : A → Prop) (past : List A) : Prop :=
  ∃ later a earlier, past = later ++ a :: earlier ∧ p a ∧ ∀ b ∈ later, ¬ q b

theorem since_nil {p q : A → Prop} : ¬ Since p q [] := by
  rintro ⟨later, a, earlier, h, -⟩
  simp at h

theorem since_cons {p q : A → Prop} {a : A} {past : List A} :
    Since p q (a :: past) ↔ p a ∨ (¬ q a ∧ Since p q past) := by
  constructor
  · rintro ⟨later, b, earlier, h, hp, hq⟩
    cases later with
    | nil =>
      obtain ⟨rfl, -⟩ := List.cons.inj h
      exact Or.inl hp
    | cons c later =>
      obtain ⟨rfl, rfl⟩ := List.cons.inj h
      exact Or.inr ⟨hq _ List.mem_cons_self, later, b, earlier, rfl, hp,
        fun x hx => hq x (List.mem_cons_of_mem _ hx)⟩
  · rintro (hp | ⟨hq, later, b, earlier, rfl, hp, hlater⟩)
    · exact ⟨[], a, past, rfl, hp, by simp⟩
    · exact ⟨a :: later, b, earlier, rfl, hp, List.forall_mem_cons.mpr ⟨hq, hlater⟩⟩

theorem after_flag {p q : A → Prop} (flag : S → Prop) {s : S} (hs : ¬ flag s)
    (hstep : ∀ s a, flag (step s a).1 ↔ p a ∨ (¬ q a ∧ flag s)) (past : List A) :
    flag (after step s past) ↔ Since p q past := by
  induction past with
  | nil => exact iff_of_false hs since_nil
  | cons a past ih => rw [after_cons, hstep, since_cons, ih]

end Machine
