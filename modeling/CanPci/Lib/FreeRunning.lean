import CanPci.Lib.RingFifo

/-! # Rings with free-running counters

Two counters of `w` bits that only count up, and wrap, over an array whose size divides
`2 ^ w`. A counter's slot is its remainder; where the size is a power of two, its low bits. -/

namespace RingFifo
variable {α : Type*} {N w : ℕ}

def used (prod cons : BitVec w) : ℕ := (prod - cons).toNat

def freeRunning (buf : Vector α N) (prod cons : BitVec w) : Ring α N :=
  ⟨buf, used prod cons, prod.toNat % N, cons.toNat % N⟩

theorem used_self (i : BitVec w) : used i i = 0 := by
  simp [used]

theorem used_pos {prod cons : BitVec w} (h : prod ≠ cons) : 0 < used prod cons := by
  refine Nat.pos_of_ne_zero fun hzero => h ?_
  have hsub : prod - cons = 0#w := BitVec.eq_of_toNat_eq (by rw [BitVec.toNat_zero]; exact hzero)
  rw [BitVec.sub_eq_iff_eq_add.mp hsub, BitVec.zero_add]

theorem used_eq (prod cons : BitVec w) :
    used prod cons + cons.toNat = prod.toNat ∨ used prod cons + cons.toNat = prod.toNat + 2 ^ w := by
  have hp := prod.isLt
  have hc := cons.isLt
  rw [used, BitVec.toNat_sub]
  rcases Nat.lt_or_ge prod.toNat cons.toNat with hlt | hge
  · right
    rw [Nat.mod_eq_of_lt (by omega)]
    omega
  · left
    have hsum : 2 ^ w - cons.toNat + prod.toNat = prod.toNat - cons.toNat + 2 ^ w := by omega
    rw [hsum, Nat.add_mod_right, Nat.mod_eq_of_lt (by omega)]
    omega

theorem used_lt (prod cons : BitVec w) : used prod cons < 2 ^ w := (prod - cons).isLt

theorem toNat_succ (i : BitVec w) :
    (i + 1).toNat = i.toNat + 1 ∨ (i + 1).toNat = 0 ∧ i.toNat + 1 = 2 ^ w := by
  have hi := i.isLt
  rcases Nat.eq_zero_or_pos w with rfl | hw
  · right
    simp at hi ⊢
    omega
  · have hone : BitVec.toNat (1 : BitVec w) = 1 := BitVec.toNat_one hw
    rw [BitVec.toNat_add, hone]
    rcases Nat.lt_or_ge (i.toNat + 1) (2 ^ w) with hlt | hge
    · exact Or.inl (Nat.mod_eq_of_lt hlt)
    · have heq : i.toNat + 1 = 2 ^ w := by omega
      refine Or.inr ⟨?_, heq⟩
      rw [heq, Nat.mod_self]

theorem used_add_one {prod cons : BitVec w} (h : used prod cons + 1 < 2 ^ w) :
    used (prod + 1) cons = used prod cons + 1 := by
  have hsucc := toNat_succ prod
  have hold := used_eq prod cons
  have hnew := used_eq (prod + 1) cons
  have hlt := used_lt (prod + 1) cons
  omega

theorem used_sub_one {prod cons : BitVec w} (h : 0 < used prod cons) :
    used prod (cons + 1) = used prod cons - 1 := by
  have hsucc := toNat_succ cons
  have hold := used_eq prod cons
  have hnew := used_eq prod (cons + 1)
  have hlt := used_lt prod (cons + 1)
  have hlast := used_lt prod cons
  have hp := prod.isLt
  omega

section
variable (hdvd : N ∣ 2 ^ w) (hpos : 0 < N)
include hdvd hpos

theorem slot_succ (i : BitVec w) : (i + 1).toNat % N = next N (i.toNat % N) := by
  rw [next_eq_mod (Nat.mod_lt _ hpos), Nat.mod_add_mod]
  rcases toNat_succ i with hsucc | ⟨hzero, hfull⟩
  · rw [hsucc]
  · rw [hzero, hfull, Nat.zero_mod, Nat.mod_eq_zero_of_dvd hdvd]

theorem freeRunning_consistent (buf : Vector α N) {prod cons : BitVec w}
    (h : used prod cons ≤ N) : (freeRunning buf prod cons).Consistent := by
  refine ⟨h, Nat.mod_lt _ hpos, Nat.mod_lt _ hpos, ?_⟩
  show prod.toNat % N = (cons.toNat % N + used prod cons) % N
  rw [Nat.mod_add_mod, Nat.add_comm]
  rcases used_eq prod cons with hsum | hsum
  · rw [hsum]
  · rw [hsum, Nat.add_mod, Nat.mod_eq_zero_of_dvd hdvd, Nat.add_zero, Nat.mod_mod]

theorem freeRunning_put (buf : Vector α N) {prod cons : BitVec w} (x : α)
    (h : used prod cons + 1 < 2 ^ w) : freeRunning (store buf (prod.toNat % N) x) (prod + 1) cons =
      ((freeRunning buf prod cons).stage x).commit := by
  simp only [freeRunning, Ring.stage, Ring.commit, used_add_one h, slot_succ hdvd hpos]

theorem freeRunning_get (buf : Vector α N) {prod cons : BitVec w} (h : 0 < used prod cons) :
    freeRunning buf prod (cons + 1) = (freeRunning buf prod cons).drop := by
  simp only [freeRunning, Ring.drop, used_sub_one h, slot_succ hdvd hpos]

variable [Inhabited α]

theorem put_items (buf : Vector α N) {prod cons : BitVec w} (x : α) (hroom : used prod cons < N)
    (h : used prod cons + 1 < 2 ^ w) :
    (freeRunning (store buf (prod.toNat % N) x) (prod + 1) cons).items =
      (freeRunning buf prod cons).items ++ [x] := by
  rw [freeRunning_put hdvd hpos buf x h]
  exact Ring.push_items (freeRunning_consistent hdvd hpos buf (Nat.le_of_lt hroom)) hroom x

theorem get_items (buf : Vector α N) {prod cons : BitVec w} (hle : used prod cons ≤ N)
    (h : 0 < used prod cons) : (freeRunning buf prod cons).items =
      load buf (cons.toNat % N) :: (freeRunning buf prod (cons + 1)).items := by
  rw [freeRunning_get hdvd hpos buf h]
  exact Ring.items_eq_cons (freeRunning_consistent hdvd hpos buf hle) h

end

/-- What `size & (size - 1)` tests. -/
theorem pow_of_mask {size : BitVec w} (hpos : size ≠ 0#w) (hpow : size &&& (size - 1) = 0#w) :
    ∃ k, size.toNat = 2 ^ k ∧ (size - 1).toNat = 2 ^ k - 1 := by
  have hne : size.toNat ≠ 0 := fun hzero => hpos (BitVec.eq_of_toNat_eq hzero)
  have hpred : (size - 1).toNat = size.toNat - 1 := by
    have hsucc := toNat_succ (size - 1)
    rw [BitVec.sub_add_cancel] at hsucc
    omega
  have hand : size.toNat &&& (size.toNat - 1) = 0 := by
    rw [← hpred, ← BitVec.toNat_and, hpow, BitVec.toNat_zero]
  obtain ⟨k, hk⟩ := (Nat.and_sub_one_eq_zero_iff_isPowerOfTwo hne).mp hand
  exact ⟨k, hk, by rw [hpred, hk]⟩

theorem size_dvd {size : BitVec w} (hpos : size ≠ 0#w) (hpow : size &&& (size - 1) = 0#w) :
    size.toNat ∣ 2 ^ w := by
  obtain ⟨k, hk, -⟩ := pow_of_mask hpos hpow
  have hlt := size.isLt
  rw [hk] at hlt ⊢
  exact Nat.pow_dvd_pow 2 (Nat.le_of_lt ((Nat.pow_lt_pow_iff_right (by decide)).mp hlt))

theorem slot_of_mask {size : BitVec w} (hpos : size ≠ 0#w) (hpow : size &&& (size - 1) = 0#w)
    (i : BitVec w) : (i &&& (size - 1)).toNat = i.toNat % size.toNat := by
  obtain ⟨k, hk, hmask⟩ := pow_of_mask hpos hpow
  rw [BitVec.toNat_and, hmask, hk]
  exact Nat.and_two_pow_sub_one_eq_mod _ _

end RingFifo
