import Mathlib.Data.List.Basic
import Mathlib.Data.Nat.ModEq

/-! # Bounded FIFO queues and their circular representation

`Fifo α N` is the abstract queue: a list with at most `N` items. `Ring α N` is
a circular array with a separate count and two indices that wrap by comparison.
A consistent ring denotes the queue of the `count` slots from `head` on. -/

namespace RingFifo
variable {α : Type*} {N : ℕ}

def load [Inhabited α] (v : Vector α N) (i : ℕ) : α := v[i]?.getD default

def store (v : Vector α N) (i : ℕ) (x : α) : Vector α N := v.setIfInBounds i x

theorem load_store_self [Inhabited α] (v : Vector α N) {i : ℕ} (x : α) (h : i < N) :
    load (store v i x) i = x := by
  simp [load, store, h]

theorem load_store_ne [Inhabited α] (v : Vector α N) {i j : ℕ} (x : α) (h : i ≠ j) :
    load (store v i x) j = load v j := by
  simp [load, store, Vector.getElem?_setIfInBounds_ne h]

theorem load_ext [Inhabited α] {v v' : Vector α N} (h : ∀ i < N, load v i = load v' i) :
    v = v' := by
  apply Vector.ext
  intro i hi
  simpa [load, hi] using h i hi

theorem load_replicate [Inhabited α] (N : ℕ) (i : ℕ) :
    load (Vector.replicate N (default : α)) i = default := by
  by_cases h : i < N <;> simp [load, h]

/-- A queue of at most `N` items, oldest first. -/
structure Fifo (α : Type*) (N : ℕ) where
  items : List α
  bounded : items.length ≤ N

namespace Fifo

@[ext] theorem ext {q r : Fifo α N} (h : q.items = r.items) : q = r := by
  cases q
  cases r
  simp_all

def empty : Fifo α N := ⟨[], Nat.zero_le N⟩

def push (q : Fifo α N) (x : α) : Fifo α N :=
  if h : q.items.length < N then
    ⟨q.items ++ [x], by rw [List.length_append]; exact h⟩
  else q

def pop (q : Fifo α N) : Fifo α N :=
  ⟨q.items.tail, by rw [List.length_tail]; exact (Nat.sub_le _ 1).trans q.bounded⟩

theorem push_items (q : Fifo α N) (x : α) (h : q.items.length < N) :
    (q.push x).items = q.items ++ [x] := by
  simp only [push, h, dite_true]

@[simp] theorem pop_items (q : Fifo α N) : q.pop.items = q.items.tail := rfl

end Fifo

/-! ### The circular array -/

def next (N i : ℕ) : ℕ := if i + 1 = N then 0 else i + 1

theorem next_lt {i : ℕ} (h : i < N) : next N i < N := by
  unfold next
  split <;> omega

theorem next_eq_mod {i : ℕ} (h : i < N) : next N i = (i + 1) % N := by
  unfold next
  split
  · rename_i he
    rw [he, Nat.mod_self]
  · exact (Nat.mod_eq_of_lt (by omega)).symm

structure Ring (α : Type*) (N : ℕ) where
  buf : Vector α N
  count : ℕ
  tail : ℕ
  head : ℕ

namespace Ring

structure Consistent (r : Ring α N) : Prop where
  count_le : r.count ≤ N
  tail_lt : r.tail < N
  head_lt : r.head < N
  tail_eq : r.tail = (r.head + r.count) % N

theorem Consistent.pos {r : Ring α N} (h : r.Consistent) : 0 < N := by
  have := h.head_lt
  omega

theorem Consistent.tail_ne {r : Ring α N} (h : r.Consistent) {k : ℕ} (hk : k < r.count)
    (hf : r.count < N) : r.tail ≠ (r.head + k) % N := by
  intro he
  rw [h.tail_eq] at he
  have hd : N ∣ r.head + r.count - (r.head + k) :=
    (Nat.modEq_iff_dvd' (by omega)).mp (show _ % N = _ % N from he.symm)
  have := Nat.le_of_dvd (by omega) hd
  omega

def stage (r : Ring α N) (x : α) : Ring α N := {r with buf := store r.buf r.tail x}

def commit (r : Ring α N) : Ring α N :=
  {r with count := r.count + 1, tail := next N r.tail}

def drop (r : Ring α N) : Ring α N :=
  {r with count := r.count - 1, head := next N r.head}

theorem stage_consistent {r : Ring α N} (h : r.Consistent) (x : α) :
    (r.stage x).Consistent := ⟨h.count_le, h.tail_lt, h.head_lt, h.tail_eq⟩

theorem commit_consistent {r : Ring α N} (h : r.Consistent) (hf : r.count < N) :
    r.commit.Consistent := by
  refine ⟨hf, next_lt h.tail_lt, h.head_lt, ?_⟩
  show next N r.tail = (r.head + (r.count + 1)) % N
  rw [next_eq_mod h.tail_lt, h.tail_eq, Nat.mod_add_mod, Nat.add_assoc]

theorem drop_consistent {r : Ring α N} (h : r.Consistent) (hp : 0 < r.count) :
    r.drop.Consistent := by
  refine ⟨(Nat.sub_le _ 1).trans h.count_le, h.tail_lt, next_lt h.head_lt, ?_⟩
  show r.tail = (next N r.head + (r.count - 1)) % N
  rw [next_eq_mod h.head_lt, Nat.mod_add_mod, h.tail_eq]
  congr 1
  omega

variable [Inhabited α]

def queued (r : Ring α N) (k : ℕ) : α := load r.buf ((r.head + k) % N)

def items (r : Ring α N) : List α := (List.range r.count).map r.queued

@[simp] theorem items_length (r : Ring α N) : r.items.length = r.count := by
  simp [items]

theorem stage_items {r : Ring α N} (h : r.Consistent) (hf : r.count < N) (x : α) :
    (r.stage x).items = r.items := by
  apply List.map_congr_left
  intro k hk
  exact load_store_ne _ _ (h.tail_ne (List.mem_range.mp hk) hf)

theorem commit_items {r : Ring α N} (h : r.Consistent) :
    r.commit.items = r.items ++ [load r.buf r.tail] := by
  have hl : r.commit.queued r.count = load r.buf r.tail := by
    simp only [queued, commit]
    rw [← h.tail_eq]
  simp only [items, commit, List.range_succ, List.map_append, List.map_cons, List.map_nil]
  rw [← hl]
  rfl

theorem push_items {r : Ring α N} (h : r.Consistent) (hf : r.count < N) (x : α) :
    (r.stage x).commit.items = r.items ++ [x] := by
  rw [commit_items (stage_consistent h x), stage_items h hf]
  congr 2
  exact load_store_self _ _ h.tail_lt

theorem items_eq_cons {r : Ring α N} (h : r.Consistent) (hp : 0 < r.count) :
    r.items = load r.buf r.head :: r.drop.items := by
  obtain ⟨n, hn⟩ : ∃ n, r.count = n + 1 := ⟨r.count - 1, by omega⟩
  have hd : r.drop.count = n := by simp [drop, hn]
  simp only [items, hn, hd, List.range_succ_eq_map, List.map_cons, List.map_map]
  congr 1
  · simp only [queued, Nat.add_zero, Nat.mod_eq_of_lt h.head_lt]
  · apply List.map_congr_left
    intro k _
    simp only [Function.comp_apply, queued, drop, next_eq_mod h.head_lt, Nat.mod_add_mod]
    congr 2
    omega

theorem drop_items {r : Ring α N} (h : r.Consistent) (hp : 0 < r.count) :
    r.drop.items = r.items.tail := by
  rw [items_eq_cons h hp, List.tail_cons]

theorem mem_items_of_full {r : Ring α N} (h : r.Consistent) (hfull : r.count = N) (o : ℕ) {x : α}
    (hx : x ∈ ({r with head := o} : Ring α N).items) : x ∈ r.items := by
  obtain ⟨k, -, rfl⟩ := List.mem_map.mp hx
  have hj : (o + k) % N < N := Nat.mod_lt _ h.pos
  refine List.mem_map.mpr ⟨((o + k) % N + N - r.head) % N, List.mem_range.mpr ?_, ?_⟩
  · rw [hfull]
    exact Nat.mod_lt _ h.pos
  · have hsum : r.head + ((o + k) % N + N - r.head) = (o + k) % N + N := by
      have := h.head_lt
      omega
    simp only [queued, Nat.add_mod_mod, hsum, Nat.add_mod_right, Nat.mod_mod]

theorem items_eq_nil {r : Ring α N} (h : r.count = 0) : r.items = [] := by
  simp [items, h]

end Ring
end RingFifo
