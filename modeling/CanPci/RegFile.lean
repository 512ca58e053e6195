import CanPci.Bus

/-!
# A controller made of plain registers

Every read answers the byte last written to that register. This is all the two
message formats need of the hardware.
-/

namespace CanPci
open RingFifo

structure RegFile where
  regs : Byte → Byte
  past : ℕ → Byte

instance : Bus RegFile where
  ioread8 reg w := (w.regs reg, w)
  iowrite8 v reg w := {w with regs := Function.update w.regs reg v}
  past w := w.past

namespace RegFile

def zero : RegFile := ⟨fun _ => 0, fun _ => 0⟩

@[simp] theorem ioread8_eq (reg : Byte) (w : RegFile) : ioread8 reg w = (w.regs reg, w) := rfl

@[simp] theorem iowrite8_regs (v reg : Byte) (w : RegFile) :
    (iowrite8 v reg w).regs = Function.update w.regs reg v := rfl

theorem dataWrites_regs (can : CanFrame) (n i : ℕ) (index r : Byte) (w : RegFile)
    (hn : n ≤ 256) :
    (writes (dataWrites can n i index) w).regs r =
      if (r - index).toNat < n then load can.data (i + (r - index).toNat) else w.regs r := by
  induction n generalizing i index w with
  | zero => simp [dataWrites]
  | succ n ih =>
    simp only [dataWrites, writes_cons, ih _ _ _ (by omega), iowrite8_regs]
    by_cases hr : r = index
    · subst hr
      have hfar : ¬ (r - (r + 1)).toNat < n := by
        have h255 : (r - (r + 1)).toNat = 255 := by bv_omega
        omega
      rw [if_neg hfar]
      simp
    · have hstep : (r - index).toNat = (r - (index + 1)).toNat + 1 := by bv_omega
      simp only [hstep, Nat.add_lt_add_iff_right, Function.update_of_ne hr]
      congr 2
      omega

theorem readData_data (n i k : ℕ) (index : Byte) (r : Received) (w : RegFile)
    (hn : i + n ≤ 8) (hk : k < n) :
    load (readData n i index r w).1.can.data (i + k) = w.regs (index + BitVec.ofNat 8 k) := by
  induction n generalizing i index r k with
  | zero => omega
  | succ n ih =>
    rw [readData]
    cases k with
    | zero =>
      rw [readData_frame _ _ _ _ _ _ (Or.inl (by omega))]
      have hi : i < 8 := by omega
      simp [Received.put, hi, load_store_self _ _ hi]
    | succ k =>
      have h := ih (i + 1) k (index + 1) (r.put i (w.regs index)) (by omega) (by omega)
      rw [show i + (k + 1) = i + 1 + k by omega]
      refine h.trans (congrArg w.regs ?_)
      bv_omega

/-- `RI` is set and the window shows `bytes`. -/
def showing (base : Byte) (bytes : List Byte) : RegFile :=
  ⟨fun reg => if reg = sjaIntReg then ri else bytes.getD (reg - base).toNat 0, fun _ => 0⟩

/-- A PeliCAN window with an extended frame of two bytes. -/
def extended : RegFile := showing 16 [0x82, 0x12, 0x34, 0x56, 0x78, 0xaa, 0xbb]

/-- A PeliCAN window with a remote standard frame. -/
def remote : RegFile := showing 16 [0x40, 0xff, 0xe0]

def turn (w : RegFile) : RegFile := if w.regs 16 = extended.regs 16 then remote else extended

end RegFile
end CanPci
