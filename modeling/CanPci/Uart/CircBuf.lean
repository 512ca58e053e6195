import CanPci.Uart.Port

/-!
# The transmit buffer

`struct circ_buf` as a queue with room for one byte less than its size, and what the copy
loop of `uart_write` appends to it.
-/

namespace CanPci.Uart
open RingFifo

namespace CircBuf
variable {N : ℕ}

structure Consistent (c : CircBuf N) : Prop where
  head_lt : c.head < N
  tail_lt : c.tail < N

def ring (c : CircBuf N) : Ring Byte N := ⟨c.buf, c.charsPending, c.head, c.tail⟩

def items (c : CircBuf N) : List Byte := c.ring.items

def free (c : CircBuf N) : ℕ := N - 1 - c.charsPending

def push (c : CircBuf N) (x : Byte) : CircBuf N :=
  {c with buf := store c.buf c.head x, head := (c.head + 1) % N}

theorem charsPending_eq {c : CircBuf N} (h : c.Consistent) :
    c.charsPending = if c.tail ≤ c.head then c.head - c.tail else c.head + N - c.tail := by
  have := h.head_lt
  have := h.tail_lt
  unfold charsPending circCnt
  split
  · have hsum : c.head + N - c.tail = c.head - c.tail + N := by omega
    rw [hsum, Nat.add_mod_right, Nat.mod_eq_of_lt (by omega)]
  · exact Nat.mod_eq_of_lt (by omega)

theorem charsPending_lt {c : CircBuf N} (h : c.Consistent) : c.charsPending < N :=
  Nat.mod_lt _ (by have := h.head_lt; omega)

theorem ring_consistent {c : CircBuf N} (h : c.Consistent) : c.ring.Consistent := by
  refine ⟨(charsPending_lt h).le, h.head_lt, h.tail_lt, ?_⟩
  show c.head = (c.tail + c.charsPending) % N
  have := h.head_lt
  have := h.tail_lt
  rw [charsPending_eq h]
  split
  · rw [Nat.add_sub_cancel' ‹_›, Nat.mod_eq_of_lt h.head_lt]
  · have hsum : c.tail + (c.head + N - c.tail) = c.head + N := by omega
    rw [hsum, Nat.add_mod_right, Nat.mod_eq_of_lt h.head_lt]

@[simp] theorem items_length (c : CircBuf N) : c.items.length = c.charsPending :=
  c.ring.items_length

theorem empty_iff {c : CircBuf N} (h : c.Consistent) : c.head = c.tail ↔ c.items = [] := by
  have := h.head_lt
  have := h.tail_lt
  rw [← List.length_eq_zero_iff, items_length, charsPending_eq h]
  split
  · omega
  · omega

theorem next_mod {i : ℕ} (h : i < N) : (i + 1) % N = next N i := (next_eq_mod h).symm

theorem push_consistent {c : CircBuf N} (h : c.Consistent) (x : Byte) : (c.push x).Consistent :=
  ⟨Nat.mod_lt _ (by have := h.head_lt; omega), h.tail_lt⟩

theorem pop_consistent {c : CircBuf N} (h : c.Consistent) : c.pop.Consistent :=
  ⟨h.head_lt, Nat.mod_lt _ (by have := h.head_lt; omega)⟩

theorem push_pending {c : CircBuf N} (h : c.Consistent) (hfree : 0 < c.free) (x : Byte) :
    (c.push x).charsPending = c.charsPending + 1 := by
  have hhead := h.head_lt
  have := h.tail_lt
  rw [charsPending_eq (push_consistent h x)]
  unfold free at hfree
  rw [charsPending_eq h] at hfree ⊢
  simp only [push, next_mod hhead, next]
  split_ifs at hfree ⊢ <;> omega

theorem push_items {c : CircBuf N} (h : c.Consistent) (hfree : 0 < c.free) (x : Byte) :
    (c.push x).items = c.items ++ [x] := by
  have hroom : c.ring.count < N := charsPending_lt h
  have hring : (c.push x).ring = (c.ring.stage x).commit := by
    simp only [ring, Ring.stage, Ring.commit, push_pending h hfree, ← next_mod h.head_lt]
    rfl
  rw [items, hring]
  exact Ring.push_items (ring_consistent h) hroom x

theorem pop_items {c : CircBuf N} (h : c.Consistent) (hne : c.head ≠ c.tail) :
    c.items = load c.buf c.tail :: c.pop.items := by
  have hhead := h.head_lt
  have htail := h.tail_lt
  have hpos : 0 < c.charsPending := by
    rw [charsPending_eq h]
    split <;> omega
  have hcount : c.pop.charsPending = c.charsPending - 1 := by
    rw [charsPending_eq (pop_consistent h), charsPending_eq h]
    simp only [pop, next_mod htail, next]
    split_ifs <;> omega
  have hring : c.pop.ring = c.ring.drop := by
    simp only [ring, Ring.drop, hcount, ← next_mod h.tail_lt]
    rfl
  rw [items, items, hring]
  exact Ring.items_eq_cons (ring_consistent h) hpos

theorem spaceToEnd_eq {c : CircBuf N} (h : c.Consistent) :
    circSpaceToEnd c.head c.tail N = min c.free (N - c.head) := by
  have := h.head_lt
  have := h.tail_lt
  unfold circSpaceToEnd free
  dsimp only
  rw [charsPending_eq h]
  by_cases hle : c.tail ≤ c.head
  · have hn : (N - 1 - c.head + c.tail) % N = N - 1 - c.head + c.tail := Nat.mod_eq_of_lt (by omega)
    rw [hn, if_pos hle]
    split <;> omega
  · have hsum : N - 1 - c.head + c.tail = c.tail - c.head - 1 + N := by omega
    rw [hsum, Nat.add_mod_right, Nat.mod_eq_of_lt (by omega), if_neg hle, if_pos (by omega)]
    omega

def pushAll (c : CircBuf N) (xs : List Byte) : CircBuf N := xs.foldl push c

theorem pushAll_items {c : CircBuf N} (h : c.Consistent) (xs : List Byte)
    (hfree : xs.length ≤ c.free) :
    (c.pushAll xs).Consistent ∧ (c.pushAll xs).items = c.items ++ xs ∧
      (c.pushAll xs).charsPending = c.charsPending + xs.length := by
  induction xs generalizing c with
  | nil => exact ⟨h, (List.append_nil _).symm, rfl⟩
  | cons x xs ih =>
    have hlen : (x :: xs).length = xs.length + 1 := rfl
    have hpend := push_pending h (by omega) x
    have hfree' : xs.length ≤ (c.push x).free := by
      unfold free at hfree ⊢
      omega
    obtain ⟨hc, hitems, hcount⟩ := ih (push_consistent h x) hfree'
    refine ⟨hc, ?_, ?_⟩
    · rw [pushAll, List.foldl_cons, ← pushAll, hitems, push_items h (by omega), List.append_assoc]
      rfl
    · rw [pushAll, List.foldl_cons, ← pushAll, hcount, hpend]
      omega

theorem storeAll_eq {c : CircBuf N} (h : c.head < N) (xs : List Byte) (hend : c.head + xs.length ≤ N) :
    ({c with buf := storeAll c.buf c.head xs, head := (c.head + xs.length) % N} : CircBuf N) =
      c.pushAll xs := by
  induction xs generalizing c with
  | nil =>
    rw [List.length_nil, Nat.add_zero, Nat.mod_eq_of_lt h]
    rfl
  | cons x xs ih =>
    rw [List.length_cons] at hend ⊢
    rw [pushAll, List.foldl_cons, ← pushAll]
    by_cases hlast : c.head + 1 = N
    · have hnil : xs = [] := List.length_eq_zero_iff.mp (by omega)
      subst hnil
      rfl
    · have hhead : (c.push x).head = c.head + 1 := Nat.mod_eq_of_lt (by omega)
      have hsum : c.head + (xs.length + 1) = c.head + 1 + xs.length := by omega
      have := ih (c := c.push x) (by omega) (by omega)
      rw [← this, hhead, storeAll, hsum]
      rfl

/-- `uart_write` takes what fits, whichever way the free space is cut by the array's end. -/
theorem fill_eq {c : CircBuf N} (h : c.Consistent) (buf : List Byte) {fuel : ℕ}
    (hfuel : buf.length < fuel) :
    c.fill buf fuel = (c.pushAll (buf.take c.free), buf.drop c.free) := by
  induction fuel generalizing c buf with
  | zero => exact absurd hfuel (Nat.not_lt_zero _)
  | succ fuel ih =>
    have hhead := h.head_lt
    rw [fill, spaceToEnd_eq h]
    generalize hn : min buf.length (min c.free (N - c.head)) = n
    by_cases hzero : n = 0
    · rw [if_pos hzero]
      rcases Nat.eq_zero_or_pos buf.length with hlen | hlen
      · rw [List.length_eq_zero_iff.mp hlen, List.take_nil, List.drop_nil]
        rfl
      · have hfree : c.free = 0 := by omega
        rw [hfree]
        rfl
    · have hlen : (buf.take n).length = n := List.length_take_of_le (by omega)
      have hstore := storeAll_eq hhead (buf.take n) (by omega)
      obtain ⟨hc, -, hcount⟩ := pushAll_items h (buf.take n) (by omega)
      have hfree : (c.pushAll (buf.take n)).free = c.free - n := by
        unfold free
        rw [hcount, hlen]
        omega
      rw [hlen] at hstore
      rw [if_neg hzero, hstore, ih hc _ (by rw [List.length_drop]; omega), hfree]
      have hsplit : n + (c.free - n) = c.free := by omega
      refine Prod.ext ?_ ?_
      · show ((buf.drop n).take (c.free - n)).foldl push ((buf.take n).foldl push c) = _
        rw [← List.foldl_append, ← List.take_add, hsplit]
        rfl
      · show (buf.drop n).drop (c.free - n) = _
        rw [List.drop_drop, hsplit]

end CircBuf
end CanPci.Uart
