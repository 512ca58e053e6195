import CanPci.Emulated.Device
import CanPci.Pelican

/-!
# The test driver (backup/qemu_linux4/qemu_test/qemu_test_pci.c)

It reaches the emulated device through one-byte accesses to the memory BAR.
-/

namespace CanPci.Emulated
open RingFifo Machine

/-- `frame` is what the local frame of `can_mem_write` holds, `past` what follows a
`can_frame` in the memory of the driver. -/
structure Wire where
  dev : CanState
  frame : CanFrame
  past : ℕ → Byte
  events : List Event

def Wire.access (w : Wire) (a : Access) : Wire :=
  let r := Emulated.access w.dev a
  {w with dev := r.1, events := w.events ++ r.2}

instance : Bus Wire where
  ioread8 reg w := (canMemRead w.dev reg.toNat, w.access (.read reg.toNat))
  iowrite8 v reg w := w.access (.write reg.toNat v w.frame)
  past w := w.past

namespace TestDriver

structure TestDev where
  txBuf : Vector CanFrame bufferSize
  txCount : ℕ
  txIn : ℕ
  txOut : ℕ

/-- The range of `size_t` in the i386 guest that qemu.sh starts. -/
def sizeRange : ℕ := 2 ^ 32

variable {σ : Type} [Bus σ]

def irqHandler (c : σ) : σ := iowrite8 0x33 127 c

/-- The first retry loop; it returns the rounds left for the second one. -/
def enterReset : ℕ → Byte → σ → Byte × ℕ × σ
  | 0, temp, c => (temp, 0, c)
  | n + 1, temp, c =>
    if temp &&& resetBit ≠ resetBit then
      let c := iowrite8 (temp ||| resetBit) sjaModeReg c
      let (temp, c) := ioread8 sjaModeReg c
      enterReset n temp c
    else (temp, n + 1, c)

def deviceOpen (d : TestDev) (c : σ) : ℤ × TestDev × σ :=
  let d := {d with txBuf := d.txBuf.map fun f => f.memset 0}
  let (temp, c) := ioread8 sjaModeReg c
  -- `count` is not reset between the loops
  let (temp, rounds, c) := enterReset 3 temp c
  if temp &&& resetBit ≠ resetBit then (eFault, d, c)
  else
    let (temp, c) := ioread8 sjaModeReg c
    let (temp, c) := leaveReset rounds temp c
    if temp &&& resetBit = resetBit then (eFault, d, c) else (0, d, c)

/-- `canDevSize` is `sizeof(struct can_dev)`. From the frame information on the text is
that of `send_message` in `pelican_mode/can_pci.c`. -/
def deviceWrite (canDevSize : ℕ) (d : TestDev) (count : ℕ) (u : CopyIn) (c : σ) :
    ℤ × TestDev × σ :=
  if (bufferSize * canDevSize + sizeRange - d.txCount) % sizeRange < count then (eFBig, d, c)
  else if count ≠ CanFrame.size then (eInval, d, c)
  else
    let d := {d with txBuf := store d.txBuf d.txIn u.staged}
    let ret := match u with
      | .ok _ => 0
      | .fault _ => eFault
    let (temp, c) := ioread8 sjaStatusReg c
    if temp &&& tbs ≠ tbs then
      (count, {d with
        txCount := (d.txCount + canDevSize) % sizeRange
        txIn := wrapEq (d.txIn + 1)}, c)
    else (ret, d, Pelican.sendMessage (load d.txBuf d.txIn) c)

end TestDriver

theorem access_status (s : CanState) (a : Access) : (access s a).1.status = s.status := by
  cases a with
  | read addr => rfl
  | write addr val can => exact (canMemWrite_effect s can addr val).status_eq

theorem run_status (s : CanState) (accesses : List Access) :
    (run access s accesses).1.status = s.status :=
  run_invariant (I := fun t => t.status = s.status)
    (fun t a ht => (access_status t a).trans ht) accesses rfl

@[simp] theorem Wire.iowrite8_eq (v reg : Byte) (w : Wire) :
    iowrite8 v reg w = w.access (.write reg.toNat v w.frame) := rfl

@[simp] theorem Wire.ioread8_eq (reg : Byte) (w : Wire) :
    ioread8 reg w = (canMemRead w.dev reg.toNat, w.access (.read reg.toNat)) := rfl

@[simp] theorem Wire.read_dev (w : Wire) (addr : ℕ) : (w.access (.read addr)).dev = w.dev := rfl

theorem Wire.write_mode (w : Wire) (val : Byte) (can : CanFrame) :
    (w.access (.write 0 val can)).dev = {w.dev with mode := 0x1f &&& val} := rfl

namespace TestDriver

structure Operating (s : CanState) : Prop where
  mode : s.mode &&& 0x01 = 0
  status : s.status = 0x0c

structure Idle (d : TestDev) : Prop where
  count : d.txCount = 0
  tail : d.txIn < bufferSize

theorem deviceOpen_operating {d : TestDev} (hd : Idle d) {w : Wire} (hw : w.dev.status = 0x0c) :
    (deviceOpen d w).1 = 0 ∧ Idle (deviceOpen d w).2.1 ∧
      Operating (deviceOpen d w).2.2.dev := by
  have hset : ∀ m : Byte, (0x1f &&& (m ||| resetBit)) &&& resetBit = resetBit := by decide
  have hclear : ∀ m : Byte, (0x1f &&& (m &&& ~~~resetBit)) &&& resetBit ≠ resetBit := by decide
  have hzero : ∀ m : Byte, (0x1f &&& (m &&& ~~~resetBit)) &&& 0x01 = 0 := by decide
  have hread : ∀ s : CanState, canMemRead s 0 = s.mode := fun _ => rfl
  have hreg : sjaModeReg.toNat = 0 := rfl
  unfold deviceOpen
  simp only [Wire.ioread8_eq, hreg, hread]
  by_cases hm : w.dev.mode &&& resetBit = resetBit
  · simp only [enterReset, hm, leaveReset, Wire.iowrite8_eq, Wire.ioread8_eq, Wire.write_mode,
      Wire.read_dev, hread, hreg, hclear, ne_eq, not_true, if_true, if_false]
    exact ⟨trivial, ⟨hd.count, hd.tail⟩, hzero _, hw⟩
  · simp only [enterReset, hm, leaveReset, Wire.iowrite8_eq, Wire.ioread8_eq, Wire.write_mode,
      Wire.read_dev, hread, hreg, hset, hclear, ne_eq, not_true, not_false_iff, if_true, if_false]
    exact ⟨trivial, ⟨hd.count, hd.tail⟩, hzero _, hw⟩

end TestDriver
end CanPci.Emulated
