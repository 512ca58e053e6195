import CanPci.Pelican
import CanPci.RegFile
import CanPci.Lib.BitField
import Mathlib.Tactic.IntervalCases

/-!
# The PeliCAN message format
-/

namespace CanPci
open RingFifo BitField

/-- What the formats can carry: a data or remote frame of either format. -/
structure CanFrame.WellFormed (f : CanFrame) : Prop where
  dlc_le : f.canDlc.toNat ≤ 8
  noError : f.canId.getLsbD 29 = false
  tail : f.TailZero
  format : f.canId.getLsbD 31 = true ∨ (f.canId &&& 0x1fffffff).toNat ≤ 0x7ff

instance decidableTailZero (f : CanFrame) : Decidable f.TailZero :=
  inferInstanceAs (Decidable (∀ i < 8, _ → _))

instance decidableWellFormed (f : CanFrame) : Decidable f.WellFormed :=
  decidable_of_iff (f.canDlc.toNat ≤ 8 ∧ f.canId.getLsbD 29 = false ∧ f.TailZero ∧
      (f.canId.getLsbD 31 = true ∨ (f.canId &&& 0x1fffffff).toNat ≤ 0x7ff))
    ⟨fun ⟨hlen, herr, htail, hform⟩ => ⟨hlen, herr, htail, hform⟩,
      fun h => ⟨h.dlc_le, h.noError, h.tail, h.format⟩⟩

theorem idBit_eq (id : CanId) {n : ℕ} (h : n < 32) : idBit id n = id.getLsbD n := by
  have := and_bit_ne_zero id h
  unfold idBit
  cases hb : id.getLsbD n <;> simp_all

namespace Pelican

theorem info_fields : ∀ d : Byte, d.toNat ≤ 8 → ∀ r e : Bool,
    let info := if r then dlc d ||| rtr else dlc d
    let info := if e then info ||| eff else info
    (info &&& (1#8 <<< 6) ≠ 0 ↔ r = true) ∧ (info &&& (1#8 <<< 7) ≠ 0 ↔ e = true) ∧
      info &&& 0x0f#8 = d := by
  decide

theorem extended_id (id : CanId) (h29 : id.getLsbD 29 = false) (h31 : id.getLsbD 31 = true) :
    (if id.getLsbD 30 then 1#32 <<< 30 else 0) ||| (1#32 <<< 31)
      ||| ((promote (((id >>> 21) &&& 0xff#32).setWidth 8) <<< 21) &&& (0xff#32 <<< 21))
      ||| ((promote (((id >>> 13) &&& 0xff#32).setWidth 8) <<< 13) &&& (0xff#32 <<< 13))
      ||| ((promote (((id >>> 5) &&& 0xff#32).setWidth 8) <<< 5) &&& (0xff#32 <<< 5))
      ||| ((promote (((id &&& 0x1f#32) <<< 0x03).setWidth 8) >>> 3) &&& 0x1f#32) = id := by
  have hbyte : ∀ j, 8 ≤ j → (0xff#32).getLsbD j = false :=
    fun j hj => high_bit_false (n := 8) (by decide) hj
  have hlow : ∀ j, 8 ≤ j + 3 → (0x1f#32).getLsbD j = false :=
    fun j hj => high_bit_false (n := 5) (by decide) (by omega)
  have heff : id &&& (1#32 <<< 31) = 1#32 <<< 31 := by rw [and_bit, if_pos h31]
  unfold promote
  rw [← and_bit, slice_shift _ _ _ _ hbyte, slice_shift _ _ _ _ hbyte, slice_shift _ _ _ _ hbyte,
    low_shift _ _ _ _ _ (by omega) hlow]
  rw [← heff]
  simp only [and_or_and]
  exact (congrArg (id &&& ·) (by decide)).trans ((clear_bit_eq_self (by decide)).mpr h29)

theorem standard_id (id : CanId) :
    (if id.getLsbD 30 then 1#32 <<< 30 else 0)
      ||| ((promote (((id >>> 3) &&& 0xff#32).setWidth 8) <<< 3) &&& (0xff#32 <<< 3))
      ||| ((promote (((id &&& 0x03#32) <<< 0x05).setWidth 8) >>> 5) &&& 0x07#32) =
    (id &&& 0x400007ff#32) &&& ~~~(1#32 <<< 2) := by
  have hbyte : ∀ j, 8 ≤ j → (0xff#32).getLsbD j = false :=
    fun j hj => high_bit_false (n := 8) (by decide) hj
  have hlow : ∀ j, 8 ≤ j + 5 → (0x03#32).getLsbD j = false :=
    fun j hj => high_bit_false (n := 2) (by decide) (by omega)
  unfold promote
  rw [← and_bit, slice_shift _ _ _ _ hbyte, low_shift _ _ _ _ _ (by omega) hlow]
  simp only [and_or_and, BitVec.and_assoc]
  exact congrArg (id &&& ·) (by decide)

theorem standard_mask {id : CanId} (h29 : id.getLsbD 29 = false) (h31 : id.getLsbD 31 = false)
    (hlt : (id &&& 0x1fffffff#32).toNat ≤ 0x7ff) : id &&& 0x400007ff#32 = id := by
  have hkeep : ∀ i < 32, (0x400007ff#32).getLsbD i = decide (i < 11 ∨ i = 30) := by decide
  have hident : ∀ i < 32, (0x1fffffff#32).getLsbD i = decide (i < 29) := by decide
  apply and_eq_self
  intro i hi hx
  rw [hkeep i hi, decide_eq_true_iff]
  by_contra hn
  have h11 : (id &&& 0x1fffffff#32).getLsbD i = false :=
    high_bit_false (n := 11) (by omega) (by omega)
  rw [BitVec.getLsbD_and, hx, hident i hi, Bool.true_and, decide_eq_false_iff_not] at h11
  obtain rfl | rfl : i = 29 ∨ i = 31 := by omega
  · rw [h29] at hx
    cases hx
  · rw [h31] at hx
    cases hx

section
variable {f : CanFrame} {w rx : RegFile}

theorem sent_header (hd : f.canDlc.toNat ≤ 8) {r : Byte} (hr : 8 ≤ (r - txDataReg f).toNat)
    (hcmd : r ≠ sjaCommandReg) :
    (sendMessage f w).regs r = (writes (txHeader f) w).regs r := by
  rw [sendMessage_split, RegFile.iowrite8_regs, Function.update_of_ne hcmd,
    writeData_eq _ _ _ _ _ (by omega), RegFile.dataWrites_regs _ _ _ _ _ _ (by omega),
    if_neg (by omega)]

theorem txDataReg_cases (f : CanFrame) : txDataReg f = 21 ∨ txDataReg f = 19 := by
  unfold txDataReg
  split
  · exact Or.inl rfl
  · exact Or.inr rfl

theorem data_window {k : ℕ} (hd : f.canDlc.toNat ≤ 8) (hk : k < f.canDlc.toNat) :
    16 ≤ (txDataReg f + BitVec.ofNat 8 k).toNat ∧
      (txDataReg f + BitVec.ofNat 8 k).toNat ≤ 28 := by
  rcases txDataReg_cases f with h | h <;> rw [h] <;> bv_omega

theorem sent_data (hd : f.canDlc.toNat ≤ 8) {k : ℕ} (hk : k < f.canDlc.toNat) :
    (sendMessage f w).regs (txDataReg f + BitVec.ofNat 8 k) = load f.data k := by
  have hwin := (data_window hd hk).1
  have hcmd : txDataReg f + BitVec.ofNat 8 k ≠ sjaCommandReg := by
    unfold sjaCommandReg
    bv_omega
  have hoff : (txDataReg f + BitVec.ofNat 8 k - txDataReg f).toNat = k := by bv_omega
  rw [sendMessage_split, RegFile.iowrite8_regs, Function.update_of_ne hcmd,
    writeData_eq _ _ _ _ _ (by omega), RegFile.dataWrites_regs _ _ _ _ _ _ (by omega),
    hoff, if_pos hk, Nat.zero_add]

/-- The identifier word that comes back: extended words whole, standard words
without bit 2. -/
def carriedId (id : CanId) : CanId :=
  if id.getLsbD 31 then id else (id &&& 0x400007ff#32) &&& ~~~(1#32 <<< 2)

theorem rxHeader_sent (hf : f.WellFormed)
    (hrx : ∀ r : Byte, 16 ≤ r.toNat → r.toNat ≤ 28 → rx.regs r = (sendMessage f w).regs r) :
    rxHeader rx = ⟨carriedId f.canId, f.canDlc, txDataReg f, rx⟩ := by
  have hd := hf.dlc_le
  have h30 := idBit_eq f.canId (show 30 < 32 by decide)
  have hbit := idBit_eq f.canId (show 31 < 32 by decide)
  obtain ⟨hrtr, heff, hlen⟩ := info_fields f.canDlc hd (f.canId.getLsbD 30) (f.canId.getLsbD 31)
  have hreg : ∀ r : Byte, 16 ≤ r.toNat → r.toNat < (txDataReg f).toNat →
      (txDataReg f).toNat ≤ 21 → rx.regs r = (writes (txHeader f) w).regs r := by
    intro r h1 h2 h3
    rw [hrx r h1 (by omega)]
    exact sent_header hd (by bv_omega) (by unfold sjaCommandReg; bv_omega)
  cases h31 : f.canId.getLsbD 31 with
  | true =>
    rw [h31] at hbit hrtr heff hlen
    have hstart : txDataReg f = 21 := by simp only [txDataReg, hbit, if_true]
    rw [hstart] at hreg
    simp only [txHeader, hbit, h30, if_true] at hreg
    have h16 := hreg 16 (by decide) (by decide) (by decide)
    have h17 := hreg 17 (by decide) (by decide) (by decide)
    have h18 := hreg 18 (by decide) (by decide) (by decide)
    have h19 := hreg 19 (by decide) (by decide) (by decide)
    have h20 := hreg 20 (by decide) (by decide) (by decide)
    change rx.regs 16 = (if f.canId.getLsbD 30 then dlc f.canDlc ||| rtr else dlc f.canDlc) ||| eff at h16
    change rx.regs 17 = ((f.canId >>> 21) &&& 0xff#32).setWidth 8 at h17
    change rx.regs 18 = ((f.canId >>> 13) &&& 0xff#32).setWidth 8 at h18
    change rx.regs 19 = ((f.canId >>> 5) &&& 0xff#32).setWidth 8 at h19
    change rx.regs 20 = ((f.canId &&& 0x1f#32) <<< 0x03).setWidth 8 at h20
    simp only [if_true] at hrtr heff hlen
    simp only [rxHeader, RegFile.ioread8_eq, h16, h17, h18, h19, h20, heff, if_true, hrtr, hlen,
      hstart, carriedId, h31, extended_id f.canId hf.noError h31]
  | false =>
    rw [h31] at hbit hrtr heff hlen
    have hstart : txDataReg f = 19 := by simp only [txDataReg, hbit, Bool.false_eq_true, if_false]
    rw [hstart] at hreg
    simp only [txHeader, hbit, h30, Bool.false_eq_true, if_false] at hreg
    have h16 := hreg 16 (by decide) (by decide) (by decide)
    have h17 := hreg 17 (by decide) (by decide) (by decide)
    have h18 := hreg 18 (by decide) (by decide) (by decide)
    change rx.regs 16 = (if f.canId.getLsbD 30 then dlc f.canDlc ||| rtr else dlc f.canDlc) at h16
    change rx.regs 17 = ((f.canId >>> 3) &&& 0xff#32).setWidth 8 at h17
    change rx.regs 18 = ((f.canId &&& 0x03#32) <<< 0x05).setWidth 8 at h18
    simp only [Bool.false_eq_true, if_false] at hrtr heff hlen
    simp only [rxHeader, RegFile.ioread8_eq, h16, h17, h18, heff, if_false, hrtr, hlen,
      hstart, carriedId, h31, Bool.false_eq_true, standard_id f.canId]

theorem loopback (hf : f.WellFormed) (slot : CanFrame)
    (hrx : ∀ r : Byte, 16 ≤ r.toNat → r.toNat ≤ 28 → rx.regs r = (sendMessage f w).regs r) :
    (receiveMessage slot rx).1 = ⟨{f.clearPad with canId := carriedId f.canId}, []⟩ := by
  have hd := hf.dlc_le
  rw [receiveMessage_split, rxHeader_sent hf hrx]
  set h : RxHeader RegFile := ⟨carriedId f.canId, f.canDlc, txDataReg f, rx⟩ with hh
  obtain ⟨hid, hdlc, hpad⟩ := readData_header f.canDlc.toNat 0 (txDataReg f) h.slot rx
  have hover := readData_over f.canDlc.toNat 0 (txDataReg f) h.slot rx (by omega)
  have hdata : (readData f.canDlc.toNat 0 (txDataReg f) h.slot rx).1.can.data = f.data := by
    apply load_ext
    intro i hi
    by_cases hik : i < f.canDlc.toNat
    · have hread := RegFile.readData_data f.canDlc.toNat 0 i (txDataReg f) h.slot rx (by omega) hik
      have hwin := data_window hd hik
      rw [Nat.zero_add] at hread
      rw [hread, hrx _ hwin.1 hwin.2, sent_data hd hik]
    · rw [readData_frame _ _ _ _ _ _ (Or.inr (by omega)), hf.tail i hi (by omega)]
      exact load_replicate 8 i
  have hnil : (readData f.canDlc.toNat 0 (txDataReg f) h.slot rx).1.overrun = [] := by
    apply List.eq_nil_of_length_eq_zero
    rw [hover]
    show 0 + (0 + f.canDlc.toNat - 8) = 0
    omega
  exact Received.ext (CanFrame.ext hid hdlc hpad hdata) hnil

/-- Self reception returns the frame that was sent exactly when the frame is
extended or bit 2 of its identifier is clear. -/
theorem self_reception_iff (f : CanFrame) (w rx : RegFile) (slot : CanFrame)
    (hf : f.WellFormed)
    (hrx : ∀ r : Byte, 16 ≤ r.toNat → r.toNat ≤ 28 → rx.regs r = (sendMessage f w).regs r) :
    (receiveMessage slot rx).1 = ⟨f.clearPad, []⟩ ↔
      (f.canId.getLsbD 31 = true ∨ f.canId.getLsbD 2 = false) := by
  rw [loopback hf slot hrx, Received.mk.injEq, CanFrame.mk.injEq]
  simp only [and_true]
  show carriedId f.canId = f.canId ↔ _
  cases h31 : f.canId.getLsbD 31 with
  | true => simp only [carriedId, h31, if_true, true_or]
  | false =>
    have hstd := hf.format.resolve_left (by rw [h31]; exact Bool.false_ne_true)
    have hmask := standard_mask hf.noError h31 hstd
    simp only [carriedId, h31, Bool.false_eq_true, if_false, hmask, false_or]
    exact clear_bit_eq_self (by decide)

end

def allBitsFrame : CanFrame := {CanFrame.zero with canId := 0x7ff}

theorem self_reception_fails : allBitsFrame.WellFormed ∧
    (receiveMessage allBitsFrame (sendMessage allBitsFrame RegFile.zero)).1 =
      ⟨{CanFrame.zero with canId := 0x7fb}, []⟩ ∧
    (⟨{CanFrame.zero with canId := 0x7fb}, []⟩ : Received) ≠ ⟨allBitsFrame.clearPad, []⟩ := by
  exact ⟨by decide, by decide, by decide⟩

/-- An extended frame, and a standard one with bit 2 clear, over an old message. -/
theorem self_reception_sample :
    let ext : CanFrame := ⟨0x92345678, 3, #v[0, 0, 0], #v[0x11, 0x22, 0x33, 0, 0, 0, 0, 0]⟩
    let std : CanFrame := ⟨0x123, 8, #v[0, 0, 0], #v[1, 2, 3, 4, 5, 6, 7, 8]⟩
    (receiveMessage .zero (sendMessage ext RegFile.extended)).1 = ⟨ext, []⟩ ∧
      (receiveMessage ext (sendMessage std (sendMessage ext RegFile.extended))).1 = ⟨std, []⟩ := by
  intro ext std
  exact ⟨(self_reception_iff ext .extended _ .zero (by decide) fun _ _ _ => rfl).mpr
      (Or.inl (by decide)),
    (self_reception_iff std (sendMessage ext .extended) _ ext (by decide) fun _ _ _ => rfl).mpr
      (Or.inr (by decide))⟩

end Pelican
end CanPci
