import CanPci.Lib.RingFifo

/-! # Serving a ring until a whole round finds no work

Positions `0` to `n - 1` are served in a ring. `serve` says whether it found work. The loop
ends when it comes back to the first position of an unbroken stretch without work, or gives
up after a number of rounds. -/

namespace RoundRobin
open RingFifo
variable {W : Type*}

/-- Whether any work was found, whether the loop gave up, and the world it leaves. -/
structure Outcome (W : Type*) where
  served : Bool
  gaveUp : Bool
  world : W

/-- Where the present stretch without work began, after position `l` was served. -/
def remark (found : Bool) (mark : Option ℕ) (l : ℕ) : Option ℕ :=
  if found then none else mark.or (some l)

def nextPass (l pass : ℕ) : ℕ := if l = 0 then pass + 1 else pass

/-- `pass` counts the rounds. -/
def loop (serve : ℕ → W → Bool × W) (n limit : ℕ) :
    ℕ → ℕ → Option ℕ → ℕ → Bool → W → Option (Outcome W)
  | 0, _, _, _, _, _ => none
  | fuel + 1, l, mark, pass, served, w =>
    let (found, w) := serve l w
    let served := served || found
    let mark := remark found mark l
    let l := next n l
    if l = 0 ∧ limit < pass then some ⟨served, true, w⟩
    else if mark = some l then some ⟨served, false, w⟩
    else loop serve n limit fuel l mark (nextPass l pass) served w

def poll (serve : ℕ → W → Bool × W) (n limit : ℕ) (w : W) : Option (Outcome W) :=
  loop serve n limit (n * (limit + 2)) 0 none 0 false w

variable {serve : ℕ → W → Bool × W} {n limit fuel l pass : ℕ} {mark : Option ℕ} {served : Bool}
  {w : W} {o : Outcome W}

theorem loop_cases (ho : loop serve n limit (fuel + 1) l mark pass served w = some o) :
    (next n l = 0 ∧ limit < pass ∧ o.gaveUp = true ∧ o.world = (serve l w).2) ∨
    (remark (serve l w).1 mark l = some (next n l) ∧ o.gaveUp = false ∧ o.world = (serve l w).2) ∨
    (¬ (next n l = 0 ∧ limit < pass) ∧ remark (serve l w).1 mark l ≠ some (next n l) ∧
      loop serve n limit fuel (next n l) (remark (serve l w).1 mark l) (nextPass (next n l) pass)
        (served || (serve l w).1) (serve l w).2 = some o) := by
  rw [loop] at ho
  dsimp only at ho
  split at ho
  · rename_i hgive
    obtain rfl := Option.some.inj ho
    exact Or.inl ⟨hgive.1, hgive.2, rfl, rfl⟩
  · rename_i hgo
    split at ho
    · rename_i hmark
      obtain rfl := Option.some.inj ho
      exact Or.inr (Or.inl ⟨hmark, rfl, rfl⟩)
    · rename_i hmark
      exact Or.inr (Or.inr ⟨hgo, hmark, ho⟩)

/-- With the fuel that `poll` gives it the loop never runs dry. -/
theorem loop_isSome (hl : l < n) (hfuel : n * (limit + 2) ≤ fuel + (n * pass + l))
    (hpass : pass ≤ limit + 1) : (loop serve n limit fuel l mark pass served w).isSome := by
  induction fuel generalizing l mark pass served w with
  | zero =>
    have hround : n * (pass + 1) ≤ n * (limit + 2) := Nat.mul_le_mul_left n (by omega)
    rw [Nat.mul_add, Nat.mul_one] at hround
    omega
  | succ fuel ih =>
    rw [loop]
    dsimp only
    split
    · rfl
    · rename_i hgo
      split
      · rfl
      · by_cases hlast : l + 1 = n
        · have hzero : next n l = 0 := if_pos hlast
          have hround : n * (pass + 1) = n * pass + n := Nat.mul_succ n pass
          rw [hzero] at hgo ⊢
          exact ih (by omega) (by rw [nextPass, if_pos rfl]; omega) (by rw [nextPass, if_pos rfl]; omega)
        · have hsucc : next n l = l + 1 := if_neg hlast
          rw [hsucc]
          exact ih (by omega) (by rw [nextPass, if_neg (Nat.succ_ne_zero l)]; omega) hpass

theorem poll_isSome (hn : 0 < n) (w : W) : (poll serve n limit w).isSome :=
  loop_isSome hn (by omega) (by omega)

theorem loop_invariant {P : W → Prop} (hserve : ∀ l w, l < n → P w → P (serve l w).2)
    (hl : l < n) (hw : P w) (ho : loop serve n limit fuel l mark pass served w = some o) :
    P o.world := by
  induction fuel generalizing l mark pass served w with
  | zero => cases ho
  | succ fuel ih =>
    have hnext := hserve l w hl hw
    rcases loop_cases ho with ⟨-, -, -, hw'⟩ | ⟨-, -, hw'⟩ | ⟨-, -, ho'⟩
    · rw [hw']
      exact hnext
    · rw [hw']
      exact hnext
    · exact ih (next_lt hl) hnext ho'

theorem poll_invariant {P : W → Prop} (hserve : ∀ l w, l < n → P w → P (serve l w).2) (hn : 0 < n)
    (hw : P w) (ho : poll serve n limit w = some o) : P o.world :=
  loop_invariant hserve hn hw ho

/-- `j` lies in the ring from `m` up to `l`; from `l` to `l` is the whole ring. -/
def Between (m l j : ℕ) : Prop := if m < l then m ≤ j ∧ j < l else m ≤ j ∨ j < l

theorem between_next {m j : ℕ} (hj : j < n) (h : Between m (next n l) j) :
    Between m l j ∨ j = l := by
  unfold Between next at *
  split_ifs at h ⊢ <;> omega

theorem between_self {j : ℕ} (hj : j < n) (h : Between l (next n l) j) : j = l ∨ n ≤ l := by
  unfold Between next at h
  split_ifs at h <;> omega

theorem loop_idle {P : W → Prop} {idle : ℕ → W → Prop}
    (hkeep : ∀ l w, l < n → P w → P (serve l w).2)
    (hserve : ∀ l w, l < n → P w → (serve l w).1 = false →
      idle l (serve l w).2 ∧ ∀ j, idle j w → idle j (serve l w).2)
    (hl : l < n) (hw : P w) (hmark : ∀ m, mark = some m → ∀ j < n, Between m l j → idle j w)
    (ho : loop serve n limit fuel l mark pass served w = some o) (hgive : o.gaveUp = false) :
    ∀ j < n, idle j o.world := by
  induction fuel generalizing l mark pass served w with
  | zero => cases ho
  | succ fuel ih =>
    have hstretch : ∀ m, remark (serve l w).1 mark l = some m →
        ∀ j < n, Between m (next n l) j → idle j (serve l w).2 := by
      intro m hm j hj hbetween
      unfold remark at hm
      split at hm
      · cases hm
      · rename_i hfound
        obtain ⟨hidle, hold⟩ := hserve l w hl hw (Bool.not_eq_true _ ▸ hfound)
        cases mark with
        | none =>
          obtain rfl := Option.some.inj hm
          rcases between_self hj hbetween with rfl | hge
          · exact hidle
          · omega
        | some m' =>
          obtain rfl := Option.some.inj hm
          rcases between_next hj hbetween with hbefore | rfl
          · exact hold j (hmark _ rfl j hj hbefore)
          · exact hidle
    rcases loop_cases ho with ⟨-, -, htrue, -⟩ | ⟨hm, -, hw'⟩ | ⟨-, -, ho'⟩
    · rw [hgive] at htrue
      cases htrue
    · intro j hj
      rw [hw']
      refine hstretch _ hm j hj ?_
      unfold Between
      rw [if_neg (Nat.lt_irrefl _)]
      omega
    · exact ih (next_lt hl) (hkeep l w hl hw) hstretch ho'

theorem poll_idle {P : W → Prop} {idle : ℕ → W → Prop}
    (hkeep : ∀ l w, l < n → P w → P (serve l w).2)
    (hserve : ∀ l w, l < n → P w → (serve l w).1 = false →
      idle l (serve l w).2 ∧ ∀ j, idle j w → idle j (serve l w).2)
    (hn : 0 < n) (hw : P w) (ho : poll serve n limit w = some o) (hgive : o.gaveUp = false) :
    ∀ j < n, idle j o.world :=
  loop_idle hkeep hserve hn hw (fun _ hm => by cases hm) ho hgive

/-! ### Bounded work -/

/-- `work` is what every position has left to do; only its own service changes it. -/
structure Working (serve : ℕ → W → Bool × W) (n : ℕ) (P : W → Prop) (work : ℕ → W → ℕ) : Prop where
  keep : ∀ l w, l < n → P w → P (serve l w).2
  found : ∀ l w, l < n → P w → (serve l w).1 = true → work l (serve l w).2 < work l w
  idle : ∀ l w, l < n → P w → (serve l w).1 = false → work l (serve l w).2 = 0
  other : ∀ l w j, P w → j ≠ l → work j (serve l w).2 = work j w

/-- Every position served `pass` times has done that much of its work, or all of it. -/
structure Ahead (n M : ℕ) (work : ℕ → W → ℕ) (l : ℕ) (mark : Option ℕ) (pass : ℕ) (w : W) : Prop where
  pass_le : pass ≤ M
  done : ∀ j < n, work j w = 0 ∨ work j w + (if j < l then pass + 1 else pass) ≤ M
  mark_lt : ∀ m, mark = some m → m < n
  last : pass = M → l ≠ 0 → ∃ m, mark = some m ∧ (m = 0 ∨ l < m)

def Done (work : ℕ → W → ℕ) (j : ℕ) (w : W) : Prop := work j w = 0

section
variable {P : W → Prop} {work : ℕ → W → ℕ} {M : ℕ} (hwork : Working serve n P work)
include hwork

theorem ahead_done (hw : P w) (h : Ahead n M work l mark pass w) (hl : l < n) (j : ℕ) (hj : j < n) :
    work j (serve l w).2 = 0 ∨
      work j (serve l w).2 + (if j < l + 1 then pass + 1 else pass) ≤ M := by
  by_cases hjl : j = l
  · subst hjl
    cases hfound : (serve j w).1 with
    | false => exact Or.inl (hwork.idle j w hl hw hfound)
    | true =>
      have hless := hwork.found j w hl hw hfound
      rcases h.done j hj with hzero | hle
      · omega
      · rw [if_neg (Nat.lt_irrefl j)] at hle
        rw [if_pos (Nat.lt_succ_self j)]
        omega
  · rw [hwork.other l w j hw hjl]
    rcases h.done j hj with hzero | hle
    · exact Or.inl hzero
    · refine Or.inr ?_
      split_ifs at hle ⊢ <;> omega

theorem ahead_idle (hw : P w) (h : Ahead n M work l mark pass w) (hl : l < n) (hlast : pass = M) :
    (serve l w).1 = false := by
  by_contra hfound
  have hless := hwork.found l w hl hw (Bool.not_eq_false _ ▸ hfound)
  rcases h.done l hl with hzero | hle
  · omega
  · rw [if_neg (Nat.lt_irrefl l)] at hle
    omega

theorem ahead_next (hw : P w) (h : Ahead n M work l mark pass w) (hl : l < n)
    (hgo : remark (serve l w).1 mark l ≠ some (next n l)) :
    Ahead n M work (next n l) (remark (serve l w).1 mark l) (nextPass (next n l) pass)
      (serve l w).2 := by
  have hdone := ahead_done hwork hw h hl
  have hmark : ∀ m, remark (serve l w).1 mark l = some m → m < n := by
    intro m hm
    unfold remark at hm
    split at hm
    · cases hm
    · cases mark with
      | none =>
        obtain rfl := Option.some.inj hm
        exact hl
      | some m' => exact h.mark_lt m hm
  have hlast : pass = M → ∃ m, remark (serve l w).1 mark l = some m ∧ (m = 0 ∨ l < m) := by
    intro hpass
    rw [ahead_idle hwork hw h hl hpass]
    by_cases hl0 : l = 0
    · subst hl0
      cases mark with
      | none => exact ⟨0, rfl, Or.inl rfl⟩
      | some m => exact ⟨m, rfl, by omega⟩
    · obtain ⟨m, rfl, hm⟩ := h.last hpass hl0
      exact ⟨m, rfl, hm⟩
  by_cases hwrap : l + 1 = n
  · have hzero : next n l = 0 := if_pos hwrap
    rw [hzero] at hgo ⊢
    have hlt : pass ≠ M := by
      intro hpass
      obtain ⟨m, hm, hcase⟩ := hlast hpass
      have := hmark m hm
      rcases hcase with rfl | hlt
      · exact hgo hm
      · omega
    have hle := h.pass_le
    refine ⟨?_, fun j hj => ?_, hmark, fun _ hne => absurd rfl hne⟩
    · rw [nextPass, if_pos rfl]
      omega
    · rw [nextPass, if_pos rfl, if_neg (Nat.not_lt_zero j)]
      have := hdone j hj
      rwa [if_pos (by omega)] at this
  · have hsucc : next n l = l + 1 := if_neg hwrap
    rw [hsucc] at hgo ⊢
    refine ⟨?_, fun j hj => ?_, hmark, fun hpass _ => ?_⟩
    · rw [nextPass, if_neg (Nat.succ_ne_zero l)]
      exact h.pass_le
    · rw [nextPass, if_neg (Nat.succ_ne_zero l)]
      exact hdone j hj
    · rw [nextPass, if_neg (Nat.succ_ne_zero l)] at hpass
      obtain ⟨m, hm, hcase⟩ := hlast hpass
      refine ⟨m, hm, ?_⟩
      rcases hcase with hzero | hlt
      · exact Or.inl hzero
      · have hne : m ≠ l + 1 := fun heq => hgo (heq ▸ hm)
        omega

theorem loop_settles (hlimit : M ≤ limit) (hl : l < n) (hw : P w)
    (h : Ahead n M work l mark pass w)
    (ho : loop serve n limit fuel l mark pass served w = some o) : o.gaveUp = false := by
  induction fuel generalizing l mark pass served w with
  | zero => cases ho
  | succ fuel ih =>
    rcases loop_cases ho with ⟨-, hpass, -, -⟩ | ⟨-, hgive, -⟩ | ⟨-, hgo, ho'⟩
    · have := h.pass_le
      omega
    · exact hgive
    · exact ih (next_lt hl) (hwork.keep l w hl hw) (ahead_next hwork hw h hl hgo) ho'

/-- With no more work than rounds the loop does all of it. -/
theorem poll_settles (hn : 0 < n) (hw : P w) (hbound : ∀ j < n, work j w ≤ limit)
    (ho : poll serve n limit w = some o) : o.gaveUp = false ∧ ∀ j < n, Done work j o.world := by
  have hstart : Ahead n limit work 0 none 0 w := by
    refine ⟨Nat.zero_le _, fun j hj => Or.inr ?_, ?_, fun _ hne => absurd rfl hne⟩
    · rw [if_neg (Nat.not_lt_zero j)]
      exact hbound j hj
    · intro m hm
      cases hm
  have hgive := loop_settles hwork (le_refl limit) hn hw hstart ho
  refine ⟨hgive, poll_idle hwork.keep (fun l w hl h hfound => ?_) hn hw ho
    hgive⟩
  have hzero := hwork.idle l w hl h hfound
  refine ⟨hzero, fun j hj => ?_⟩
  by_cases hjl : j = l
  · rw [hjl]
    exact hzero
  · exact (hwork.other l w j h hjl).trans hj

end

end RoundRobin
