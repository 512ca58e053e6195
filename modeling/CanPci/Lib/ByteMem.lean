import CanPci.Lib.RingFifo
import Mathlib.Data.Nat.ModEq

/-! # Byte memory

`copyBytes` is `memcpy` into an array, `join` the little-endian number that consecutive
bytes make up. -/

namespace ByteMem
open RingFifo
variable {N w : ℕ}

/-- Store `src 0`, …, `src (n - 1)` from `base` on. -/
def copyBytes (v : Vector (BitVec 8) N) (base : ℕ) (src : ℕ → BitVec 8) :
    ℕ → Vector (BitVec 8) N
  | 0 => v
  | n + 1 => store (copyBytes v base src n) (base + n) (src n)

theorem load_copyBytes (v : Vector (BitVec 8) N) (base : ℕ) (src : ℕ → BitVec 8) (n : ℕ) {j : ℕ}
    (hj : j < N) : load (copyBytes v base src n) j =
      if base ≤ j ∧ j < base + n then src (j - base) else load v j := by
  induction n with
  | zero =>
    rw [if_neg (by omega)]
    rfl
  | succ n ih =>
    rw [copyBytes]
    by_cases h : base + n = j
    · subst h
      rw [load_store_self _ _ hj, if_pos (by omega), Nat.add_sub_cancel_left]
    · rw [load_store_ne _ _ h, ih]
      have hiff : (base ≤ j ∧ j < base + n) ↔ (base ≤ j ∧ j < base + (n + 1)) := by omega
      simp only [hiff]

def byteOf (val : BitVec w) (i : ℕ) : BitVec 8 := (val >>> (8 * i)).setWidth 8

def join (byte : ℕ → BitVec 8) : ℕ → ℕ
  | 0 => 0
  | n + 1 => join byte n + (byte n).toNat * 256 ^ n

theorem join_lt (byte : ℕ → BitVec 8) (n : ℕ) : join byte n < 256 ^ n := by
  induction n with
  | zero => simp [join]
  | succ n ih =>
    have hbyte : (byte n).toNat + 1 ≤ 256 := (byte n).isLt
    have hscale := Nat.mul_le_mul_right (256 ^ n) hbyte
    rw [Nat.add_mul, Nat.one_mul] at hscale
    rw [join, Nat.pow_succ]
    omega

theorem join_congr {byte byte' : ℕ → BitVec 8} {n : ℕ} (h : ∀ i < n, byte i = byte' i) :
    join byte n = join byte' n := by
  induction n with
  | zero => rfl
  | succ n ih => rw [join, join, h n (by omega), ih fun i hi => h i (by omega)]

theorem join_mod (byte : ℕ → BitVec 8) {k n : ℕ} (h : k ≤ n) :
    join byte n % 256 ^ k = join byte k := by
  induction n with
  | zero =>
    obtain rfl : k = 0 := by omega
    rfl
  | succ n ih =>
    by_cases hk : k = n + 1
    · subst hk
      exact Nat.mod_eq_of_lt (join_lt byte _)
    · have hdvd : 256 ^ k ∣ (byte n).toNat * 256 ^ n :=
        Dvd.dvd.mul_left (Nat.pow_dvd_pow 256 (by omega)) _
      rw [join, Nat.add_mod, Nat.mod_eq_zero_of_dvd hdvd, Nat.add_zero, Nat.mod_mod]
      exact ih (by omega)

end ByteMem
