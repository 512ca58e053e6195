import CanPci.Emulated.Device
import CanPci.Driver
import CanPci.RegFile

/-!
# The two PeliCAN decoders

`buff2frame` of the emulated device relies on the shifts alone, `receive_message` of the
driver masks after each shift.
-/

namespace CanPci.Emulated
open RingFifo

def Shows (rx : RegFile) (buff : Vector Byte 13) : Prop :=
  ∀ k < 13, rx.regs (16 + BitVec.ofNat 8 k) = load buff k

theorem shift_masked (temp : Byte) (k : ℕ) :
    (promote temp <<< k) &&& (0xff#32 <<< k) = promote temp <<< k := by
  have hbyte : ∀ temp : Byte, promote temp &&& 0xff#32 = promote temp := by decide
  rw [← BitVec.shiftLeft_and_distrib, hbyte]

section
variable {rx : RegFile} {buff : Vector Byte 13}

theorem Shows.header (h : Shows rx buff) : Pelican.rxHeader rx =
    ⟨decodedId buff 0, load buff 0 &&& 0x0f#8, 16 + BitVec.ofNat 8 (dataBase buff), rx⟩ := by
  have h16 : rx.regs 16 = load buff 0 := h 0 (by omega)
  have h17 : rx.regs 17 = load buff 1 := h 1 (by omega)
  have h18 : rx.regs 18 = load buff 2 := h 2 (by omega)
  have h19 : rx.regs 19 = load buff 3 := h 3 (by omega)
  have h20 : rx.regs 20 = load buff 4 := h 4 (by omega)
  have hrtr : 1#8 <<< 6 = 0x40#8 := rfl
  have heff : 1#8 <<< 7 = 0x80#8 := rfl
  have hfive : ∀ temp : Byte, (promote temp >>> 3) &&& 0x1f#32 = promote temp >>> 3 := by decide
  have hthree : ∀ temp : Byte, (promote temp >>> 5) &&& 0x07#32 = promote temp >>> 5 := by decide
  simp only [Pelican.rxHeader, RegFile.ioread8_eq, h16, h17, h18, h19, h20, hrtr, heff,
    shift_masked, hfive, hthree, decodedId, dataBase]
  by_cases hx : load buff 0 &&& 0x80#8 ≠ 0
  · rw [if_pos hx, if_pos hx, if_pos hx]
    rfl
  · rw [if_neg hx, if_neg hx, if_neg hx]
    rfl

theorem Shows.data (h : Shows rx buff) (hdlc : (load buff 0 &&& 0x0f#8).toNat ≤ 8) {j : ℕ}
    (hj : j < 8) : load (Pelican.rxHeader rx).finish.1.can.data j =
      if j < (load buff 0 &&& 0x0f#8).toNat then load buff (dataBase buff + j) else 0 := by
  have hbase : dataBase buff ≤ 5 := by
    unfold dataBase
    split <;> decide
  rw [h.header, RxHeader.finish]
  dsimp only
  split
  · rename_i hin
    have hread := RegFile.readData_data _ 0 j (16 + BitVec.ofNat 8 (dataBase buff))
      (⟨decodedId buff 0, load buff 0 &&& 0x0f#8, 16 + BitVec.ofNat 8 (dataBase buff), rx⟩ :
        RxHeader RegFile).slot rx (by omega) hin
    rw [Nat.zero_add] at hread
    rw [hread, ← h _ (by omega)]
    congr 1
    bv_omega
  · rw [readData_frame _ _ _ _ _ _ (Or.inr (by omega))]
    exact load_replicate 8 j

/-- For at most eight data bytes the device and the driver read the same frame out of the
same 13 bytes. -/
theorem decoders_agree (buff : Vector Byte 13) (rx : RegFile) (slot : CanFrame)
    (hrx : Shows rx buff) (hdlc : (load buff 0 &&& 0x0f#8).toNat ≤ 8) :
    let device := (buff2frame buff CanFrame.zero).1
    let driver := (Pelican.receiveMessage slot rx).1
    driver.can.canId = device.canId ∧ driver.can.canDlc = device.canDlc ∧
    (∀ j < 8, load driver.can.data j = load device.data j) ∧ driver.overrun = [] := by
  dsimp only
  rw [Pelican.receiveMessage_split, buff2frame_canId, buff2frame_canDlc]
  obtain ⟨hid, hlen, -⟩ := Driver.finish_header (Pelican.rxHeader rx)
  refine ⟨?_, ?_, fun j hj => ?_, ?_⟩
  · rw [hid, hrx.header]
    rfl
  · rw [hlen, hrx.header]
  · rw [hrx.data hdlc hj, buff2frame_data buff _ hj]
  · rw [Driver.finish_over_iff, hrx.header]
    exact hdlc

/-- A remote frame with the identifier 0x18ff1234 and all unused bits set. -/
theorem decoders_agree_sample :
    let buff : Vector Byte 13 := #v[0xf2, 0xc7, 0xf8, 0x91, 0xa7, 1, 2, 3, 4, 5, 6, 7, 8]
    let rx : RegFile := ⟨fun reg => load buff (reg.toNat - 16), fun _ => 0⟩
    (Pelican.receiveMessage CanFrame.zero rx).1.can.canId = 0xd8ff1234 ∧
    (buff2frame buff CanFrame.zero).1.canId = 0xd8ff1234 := by
  have h := decoders_agree #v[0xf2, 0xc7, 0xf8, 0x91, 0xa7, 1, 2, 3, 4, 5, 6, 7, 8]
    ⟨fun reg => load (#v[0xf2, 0xc7, 0xf8, 0x91, 0xa7, 1, 2, 3, 4, 5, 6, 7, 8] : Vector Byte 13)
      (reg.toNat - 16), fun _ => 0⟩ CanFrame.zero (by unfold Shows; decide) (by decide)
  exact ⟨h.1, by decide⟩

end
end CanPci.Emulated
