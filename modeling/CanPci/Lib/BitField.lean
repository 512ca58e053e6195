import Mathlib.Algebra.Group.Nat.Defs
import Mathlib.Order.Basic

/-! # Bit fields cut out of a word and put back

A field is masked, moved into a narrow register, moved back and masked again.
Each lemma says which bits of the word survive. -/

namespace BitField
variable {w : ℕ}

theorem one_shift_bit (n i : ℕ) (hi : i < w) : (1#w <<< n).getLsbD i = decide (i = n) := by
  by_cases h : i = n
  · subst h
    simp [hi]
  · simp [h]
    omega

theorem and_bit (x : BitVec w) (n : ℕ) :
    x &&& (1#w <<< n) = if x.getLsbD n then 1#w <<< n else 0 := by
  apply BitVec.eq_of_getLsbD_eq
  intro i hi
  by_cases h : i = n
  · subst h
    cases hx : x.getLsbD i <;> simp_all
  · have hone : (1#w <<< n).getLsbD i = false := by simp [one_shift_bit n i hi, h]
    split <;> simp [hone]

theorem and_bit_ne_zero (x : BitVec w) {n : ℕ} (h : n < w) :
    x &&& (1#w <<< n) ≠ 0 ↔ x.getLsbD n = true := by
  rw [and_bit]
  cases hx : x.getLsbD n with
  | false => simp
  | true =>
    have hbit : (1#w <<< n).getLsbD n = true := by simp [one_shift_bit n n h]
    simp only [if_true, iff_true]
    intro hz
    rw [hz] at hbit
    simp at hbit

theorem slice_shift (x m : BitVec w) (k v : ℕ) (hm : ∀ j, v ≤ j → m.getLsbD j = false) :
    ((((x >>> k) &&& m).setWidth v).setWidth w <<< k) &&& (m <<< k) = x &&& (m <<< k) := by
  apply BitVec.eq_of_getLsbD_eq
  intro i hi
  by_cases hk : i < k
  · simp [hk]
  · have hki : k + (i - k) = i := by omega
    by_cases hv : i - k < v
    · simp [hi, hk, hki, hv]
      grind
    · have hz : m.getLsbD (i - k) = false := hm _ (by omega)
      simp only [BitVec.getLsbD_and, BitVec.getLsbD_shiftLeft, hz, Bool.and_false]

theorem low_shift (x m m' : BitVec w) (k v : ℕ) (hvw : v ≤ w)
    (hm : ∀ j, v ≤ j + k → m.getLsbD j = false) :
    ((((x &&& m) <<< k).setWidth v).setWidth w >>> k) &&& m' = x &&& (m &&& m') := by
  apply BitVec.eq_of_getLsbD_eq
  intro i hi
  by_cases hv : k + i < v
  · have hw : k + i < w := by omega
    simp [hi, hv, hw]
    grind
  · have hz : m.getLsbD i = false := hm _ (by omega)
    simp [hv, hz]

theorem and_or_and (x m m' : BitVec w) : (x &&& m) ||| (x &&& m') = x &&& (m ||| m') := by
  apply BitVec.eq_of_getLsbD_eq
  intro i hi
  simp
  grind

theorem and_eq_self {x m : BitVec w} (h : ∀ i < w, x.getLsbD i = true → m.getLsbD i = true) :
    x &&& m = x := by
  apply BitVec.eq_of_getLsbD_eq
  intro i hi
  have := h i hi
  simp only [BitVec.getLsbD_and]
  cases hx : x.getLsbD i <;> simp_all

theorem clear_bit_eq_self {x : BitVec w} {n : ℕ} (hn : n < w) :
    x &&& ~~~(1#w <<< n) = x ↔ x.getLsbD n = false := by
  constructor
  · intro h
    rw [← h, BitVec.getLsbD_and, BitVec.getLsbD_not, one_shift_bit n n hn]
    simp
  · intro h
    apply and_eq_self
    intro i hi hx
    have hne : i ≠ n := by
      rintro rfl
      rw [h] at hx
      cases hx
    rw [BitVec.getLsbD_not, one_shift_bit n i hi]
    simp [hi, hne]

theorem and_not_eq_zero {x y : BitVec w} :
    x &&& ~~~y = 0 ↔ ∀ i < w, x.getLsbD i = true → y.getLsbD i = true := by
  constructor
  · intro h i hi hx
    have hbit : (x &&& ~~~y).getLsbD i = false := by rw [h]; exact BitVec.getLsbD_zero
    rw [BitVec.getLsbD_and, BitVec.getLsbD_not, hx] at hbit
    simpa [hi] using hbit
  · intro h
    apply BitVec.eq_of_getLsbD_eq
    intro i hi
    have := h i hi
    rw [BitVec.getLsbD_and, BitVec.getLsbD_not]
    cases hx : x.getLsbD i <;> simp_all

/-- A masked word comes back whole when the other operand adds nothing to it and makes up
for what the mask takes. -/
theorem or_and_eq_iff {b x m : BitVec w} : b ||| (x &&& m) = x ↔
    (∀ i < w, b.getLsbD i = true → x.getLsbD i = true) ∧
      ∀ i < w, x.getLsbD i = true → m.getLsbD i = false → b.getLsbD i = true := by
  constructor
  · intro h
    have hbit : ∀ i, (b.getLsbD i || (x.getLsbD i && m.getLsbD i)) = x.getLsbD i := by
      intro i
      have := congrArg (fun y => y.getLsbD i) h
      simpa only [BitVec.getLsbD_or, BitVec.getLsbD_and] using this
    refine ⟨fun i _ hb => ?_, fun i _ hx hm => ?_⟩
    · rw [← hbit i, hb, Bool.true_or]
    · simpa [hx, hm] using hbit i
  · rintro ⟨hsub, hcover⟩
    apply BitVec.eq_of_getLsbD_eq
    intro i hi
    have h1 := hsub i hi
    have h2 := hcover i hi
    simp only [BitVec.getLsbD_or, BitVec.getLsbD_and]
    cases hb : b.getLsbD i <;> cases hx : x.getLsbD i <;> cases hm : m.getLsbD i <;> simp_all

theorem xor_and (x y m : BitVec w) : (x ^^^ y) &&& m = (x &&& m) ^^^ (y &&& m) := by
  apply BitVec.eq_of_getLsbD_eq
  intro i _
  simp only [BitVec.getLsbD_and, BitVec.getLsbD_xor]
  cases m.getLsbD i <;> simp

theorem keep_or {x k : BitVec w} (h : x &&& k = k) (m : BitVec w) : (x ||| m) &&& k = k := by
  rw [BitVec.and_comm, BitVec.and_or_distrib_left, BitVec.and_comm, h, BitVec.and_comm]
  apply BitVec.eq_of_getLsbD_eq
  intro i _
  simp only [BitVec.getLsbD_or, BitVec.getLsbD_and]
  cases k.getLsbD i <;> simp

theorem keep_and_not {x k m : BitVec w} (h : x &&& k = k) (hm : m &&& k = 0#w) :
    (x &&& ~~~m) &&& k = k := by
  apply BitVec.eq_of_getLsbD_eq
  intro i hi
  have hx := congrArg (fun y => y.getLsbD i) h
  have hz := congrArg (fun y => y.getLsbD i) hm
  simp only [BitVec.getLsbD_and, BitVec.getLsbD_zero] at hx hz
  simp only [BitVec.getLsbD_and, BitVec.getLsbD_not, hi, decide_true, Bool.true_and]
  cases hk : k.getLsbD i <;> simp_all

theorem high_bit_false {x : BitVec w} {n i : ℕ} (h : x.toNat < 2 ^ n) (hi : n ≤ i) :
    x.getLsbD i = false := by
  rw [← BitVec.testBit_toNat]
  exact Nat.testBit_lt_two_pow (Nat.lt_of_lt_of_le h (Nat.pow_le_pow_right Nat.two_pos hi))

/-- A word written as its two bytes, through masks that keep the other one. -/
theorem join_halves {high low : BitVec 16} (hhigh : ∀ i < 16, high.getLsbD i = !decide (i < 8))
    (hlow : ∀ i < 16, low.getLsbD i = decide (i < 8)) (d : BitVec 16) (x : ℕ) :
    (((d &&& high) ||| (BitVec.ofNat 8 x).setWidth 16) &&& low) |||
      ((BitVec.ofNat 8 (x / 256)).setWidth 16 <<< 8) = BitVec.ofNat 16 x := by
  apply BitVec.eq_of_getLsbD_eq
  intro i hi
  have hdiv : (x / 256).testBit (i - 8) = x.testBit (i - 8 + 8) :=
    Nat.testBit_div_two_pow (n := 8) x (i - 8)
  simp only [BitVec.getLsbD_or, BitVec.getLsbD_and, BitVec.getLsbD_setWidth, BitVec.getLsbD_ofNat,
    BitVec.getLsbD_shiftLeft, hlow i hi, hhigh i hi, hdiv]
  by_cases hlt : i < 8
  · simp [hlt, hi]
  · have hback : i - 8 + 8 = i := by omega
    have hbyte : i - 8 < 8 := by omega
    have hword : i - 8 < 16 := by omega
    simp [hlt, hi, hback, hbyte, hword]

end BitField
