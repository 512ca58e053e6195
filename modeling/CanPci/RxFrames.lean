import CanPci.Lib.BitField
import CanPci.RxRing
import Mathlib.Tactic.IntervalCases

/-!
# What a received frame says

The receive window as a format of its own, read off the answers a controller gives when
its window is read upwards. `receive_message` decodes this format.
-/

namespace CanPci
open RingFifo

variable {σ : Type} [Bus σ]

/-- The answers to reads of `reg`, `reg + 1`, … -/
def answer : σ → Byte → ℕ → Byte
  | c, reg, 0 => (ioread8 reg c).1
  | c, reg, k + 1 => answer (ioread8 reg c).2 (reg + 1) k

theorem readData_answer (n i k : ℕ) (index : Byte) (r : Received) (c : σ) (hn : i + n ≤ 8)
    (hk : k < n) : load (readData n i index r c).1.can.data (i + k) = answer c index k := by
  induction n generalizing i index r c k with
  | zero => omega
  | succ n ih =>
    rw [readData]
    cases k with
    | zero =>
      have hi : i < 8 := by omega
      rw [readData_frame _ _ _ _ _ _ (Or.inl (by omega))]
      simp [Received.put, hi, load_store_self _ _ hi, answer]
    | succ k =>
      have hnext := ih (i + 1) k (index + 1) (r.put i (ioread8 index c).1) (ioread8 index c).2
        (by omega) (by omega)
      rw [show i + (k + 1) = i + 1 + k by omega]
      exact hnext

namespace Driver

/-- The frame in a window that shows `b 0`, `b 1`, …: identifiers are stored from the top
of a word on, and data bytes beyond the length are zero. -/
def frameOf (drv : Driver) (b : ℕ → Byte) : CanFrame :=
  let data (dlc : Byte) (first : ℕ) : Vector Byte 8 :=
    Vector.ofFn fun i => if i.val < dlc.toNat then b (i.val + first) else 0
  match drv with
  | pelican =>
    let remote : CanId := if (b 0).getLsbD 6 then 1#32 <<< 30 else 0
    if (b 0).getLsbD 7 then
      ⟨remote ||| 1#32 <<< 31 ||| (b 1 ++ b 2 ++ b 3 ++ b 4) >>> 3, b 0 &&& 0x0f#8,
        CanFrame.zero.pad, data (b 0 &&& 0x0f#8) 5⟩
    else
      ⟨remote ||| ((b 1 ++ b 2) >>> 5).setWidth 32, b 0 &&& 0x0f#8,
        CanFrame.zero.pad, data (b 0 &&& 0x0f#8) 3⟩
  | basiccan =>
    ⟨(if (b 1).getLsbD 4 then 1#32 <<< 30 else 0) ||| ((b 0 ++ b 1) >>> 5).setWidth 32,
      b 1 &&& 0x0f#8, CanFrame.zero.pad, data (b 1 &&& 0x0f#8) 2⟩

def rxBase : Driver → Byte
  | pelican => 16
  | basiccan => 20

theorem word29 (b1 b2 b3 b4 : Byte) :
    ((promote b1 <<< 21) &&& (0xff#32 <<< 21)) ||| ((promote b2 <<< 13) &&& (0xff#32 <<< 13)) |||
      ((promote b3 <<< 5) &&& (0xff#32 <<< 5)) ||| ((promote b4 >>> 3) &&& 0x1f#32) =
    (b1 ++ b2 ++ b3 ++ b4) >>> 3 := by
  apply BitVec.eq_of_getLsbD_eq
  intro i hi
  interval_cases i <;>
  · simp only [promote, BitVec.getLsbD_or, BitVec.getLsbD_and, BitVec.getLsbD_shiftLeft,
      BitVec.getLsbD_ushiftRight, BitVec.getLsbD_append, BitVec.getLsbD_setWidth]
    simp

theorem word11 (b1 b2 : Byte) :
    ((promote b1 <<< 3) &&& (0xff#32 <<< 3)) ||| ((promote b2 >>> 5) &&& 0x07#32) =
    ((b1 ++ b2) >>> 5).setWidth 32 := by
  apply BitVec.eq_of_getLsbD_eq
  intro i hi
  interval_cases i <;>
  · simp only [promote, BitVec.getLsbD_or, BitVec.getLsbD_and, BitVec.getLsbD_shiftLeft,
      BitVec.getLsbD_ushiftRight, BitVec.getLsbD_append, BitVec.getLsbD_setWidth]
    simp

/-- A header agrees with a frame: the same fields, and the data bytes still to come. -/
structure Announces (h : RxHeader σ) (f : CanFrame) : Prop where
  canId : h.canId = f.canId
  canDlc : h.canDlc = f.canDlc
  pad : CanFrame.zero.pad = f.pad
  data : ∀ k < 8, load f.data k = if k < h.canDlc.toNat then answer h.bus h.index k else 0

theorem ofFn_data (len : ℕ) (first : ℕ) (b : ℕ → Byte) {k : ℕ} (hk : k < 8) :
    load (Vector.ofFn fun i : Fin 8 => if i.val < len then b (i.val + first) else 0) k =
      if k < len then b (k + first) else 0 := by
  simp [load, hk]

theorem flag_bit (x : Byte) {n : ℕ} (hn : n < 8) (m : ℕ) :
    (if x &&& (1#8 <<< n) ≠ 0 then 1#32 <<< m else 0) =
      if x.getLsbD n then 1#32 <<< m else (0 : CanId) := by
  simp only [BitField.and_bit_ne_zero x hn]

theorem rxHeader_announces (drv : Driver) (c : σ) :
    Announces (drv.rxHeader c) (drv.frameOf (answer c drv.rxBase)) := by
  cases drv with
  | pelican =>
    have heff := BitField.and_bit_ne_zero (ioread8 16 c).1 (show 7 < 8 by decide)
    have hinfo : answer c 16 0 = (ioread8 16 c).1 := rfl
    simp only [rxHeader, Pelican.rxHeader, frameOf, rxBase, flag_bit _ (show 6 < 8 by decide), hinfo]
    cases h7 : (ioread8 16 c).1.getLsbD 7 with
    | true =>
      rw [if_pos (heff.mpr h7), if_pos rfl]
      refine ⟨?_, rfl, rfl, fun k hk => ofFn_data _ _ _ hk⟩
      rw [← word29]
      simp only [BitVec.or_assoc]
      rfl
    | false =>
      rw [if_neg (fun h => by rw [heff.mp h] at h7; cases h7), if_neg Bool.false_ne_true]
      refine ⟨?_, rfl, rfl, fun k hk => ofFn_data _ _ _ hk⟩
      rw [← word11, BitVec.or_assoc]
      rfl
  | basiccan =>
    have hrtr := BitField.and_bit_ne_zero (answer c 20 1) (show 4 < 8 by decide)
    refine ⟨?_, rfl, rfl, fun k hk => ofFn_data _ _ _ hk⟩
    show (basiccan.rxHeader c).canId = (if (answer c 20 1).getLsbD 4 then 1#32 <<< 30 else 0) |||
      ((answer c 20 0 ++ answer c 20 1) >>> 5).setWidth 32
    rw [← word11]
    by_cases h4 : (answer c 20 1).getLsbD 4 = true
    · rw [if_pos h4, BitVec.or_comm]
      exact if_pos (hrtr.mpr h4)
    · rw [if_neg h4, show (0 : CanId) = 0#32 from rfl, BitVec.zero_or]
      exact if_neg fun h => h4 (hrtr.mp h)

theorem finish_frameOf (drv : Driver) (c : σ) (h : (drv.dlcNibble c).toNat ≤ 8) :
    (drv.rxHeader c).finish.1 = ⟨drv.frameOf (answer c drv.rxBase), []⟩ := by
  obtain ⟨hid, hdlc, hpad, hdata⟩ := drv.rxHeader_announces c
  rw [← drv.rxHeader_canDlc] at h
  obtain ⟨hid', hdlc', hpad'⟩ := finish_header (drv.rxHeader c)
  refine Received.ext (CanFrame.ext (hid'.trans hid) (hdlc'.trans hdlc) (hpad'.trans hpad) ?_)
    ((finish_over_iff _).mpr h)
  refine load_ext fun k hk => ?_
  rw [hdata k hk]
  split
  · rename_i hlt
    have hread := readData_answer (drv.rxHeader c).canDlc.toNat 0 k (drv.rxHeader c).index
      (drv.rxHeader c).slot (drv.rxHeader c).bus (by omega) hlt
    rw [Nat.zero_add] at hread
    exact hread
  · rename_i hge
    exact finish_tail (drv.rxHeader c) k hk (by rw [hdlc']; omega)

theorem incoming_frameOf (drv : Driver) (d : CanDev) (c : σ)
    (h : (drv.dlcNibble (drv.afterTransmit d c).bus).toNat ≤ 8) :
    drv.incoming d c = ⟨drv.frameOf (answer (drv.afterTransmit d c).bus drv.rxBase), []⟩ :=
  drv.finish_frameOf _ h

/-- The frame that a handler run finds in the window, when the ring has room for it. -/
def arrival (drv : Driver) (d : CanDev) (c : σ) : List CanFrame :=
  if (ioread8 sjaIntReg c).1 &&& ri ≠ 0 ∧ d.rxCount < bufferSize then
    [drv.frameOf (answer (drv.afterTransmit d c).bus drv.rxBase)]
  else []

theorem irqHandler_arrival (drv : Driver) (d : CanDev) (c : σ) (hle : d.rxCount ≤ bufferSize)
    (hfit : drv.FitsSlot d c) :
    (drv.irqHandler d c).received.map Received.can = drv.arrival d c := by
  unfold arrival
  split
  · rename_i h
    rw [(drv.irqHandler_store d c h.1 h.2).1, drv.incoming_frameOf d c (hfit h.1 h.2)]
    rfl
  · rename_i h
    rw [(drv.irqHandler_ignore d c hle h).1]
    rfl

end Driver
end CanPci
