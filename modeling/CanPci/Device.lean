import CanPci.Lib.RingFifo

/-!
# The shared header (source/linux_driver/*/can_pci.h)

`struct can_frame`, `struct can_dev`, the register offsets and bit masks. The
kernel is configured for a 32-bit x86 (`config`: `CONFIG_X86_32=y`), so a
`struct can_frame` is 16 bytes, `size_t` is four, and `rx_count` and `rx_in`
directly follow the six receive slots.
-/

namespace CanPci
open RingFifo

abbrev Byte := BitVec 8

abbrev CanId := BitVec 32

/-- The 16 bytes of `struct can_frame`; `pad` is what `aligned(8)` leaves
between `can_dlc` and `data`. -/
@[ext] structure CanFrame where
  canId : CanId
  canDlc : Byte
  pad : Vector Byte 3
  data : Vector Byte 8
  deriving DecidableEq, Repr

namespace CanFrame

def size : ℕ := 16

def memset (_ : CanFrame) (b : Byte) : CanFrame :=
  ⟨b ++ b ++ b ++ b, b, Vector.replicate 3 b, Vector.replicate 8 b⟩

def zero : CanFrame := ⟨0, 0, Vector.replicate 3 0, Vector.replicate 8 0⟩

instance : Inhabited CanFrame := ⟨zero⟩

@[simp] theorem memset_zero (f : CanFrame) : f.memset 0 = zero := rfl

/-- Overwrite byte `k` of the sixteen (little endian). -/
def setByte (f : CanFrame) (k : ℕ) (v : Byte) : CanFrame :=
  if k < 4 then
    {f with canId := (f.canId &&& ~~~(0xff#32 <<< (8 * k))) ||| (v.setWidth 32 <<< (8 * k))}
  else if k = 4 then {f with canDlc := v}
  else if k < 8 then {f with pad := store f.pad (k - 5) v}
  else {f with data := store f.data (k - 8) v}

/-- A load of `data[i]`; `past` is the memory that follows the array. -/
def dataAt (f : CanFrame) (past : ℕ → Byte) (i : ℕ) : Byte :=
  f.data[i]?.getD (past i)

def TailZero (f : CanFrame) : Prop := ∀ i < 8, f.canDlc.toNat ≤ i → load f.data i = 0

def clearPad (f : CanFrame) : CanFrame := {f with pad := Vector.replicate 3 0}

end CanFrame

/-! ### `struct can_dev` -/

abbrev bufferSize : ℕ := 6

structure CanDev where
  txBuf : Vector CanFrame bufferSize
  txCount : ℕ
  txIn : ℕ
  txOut : ℕ
  rxBuf : Vector CanFrame bufferSize
  rxCount : ℕ
  rxIn : ℕ
  rxOut : ℕ
  deriving DecidableEq, Repr

namespace CanDev

/-- As `pcisimple_probe` leaves it: `memset(device, 0, sizeof(struct can_dev))`. -/
def probed : CanDev :=
  ⟨Vector.replicate bufferSize CanFrame.zero, 0, 0, 0,
    Vector.replicate bufferSize CanFrame.zero, 0, 0, 0⟩

def tx (d : CanDev) : Ring CanFrame bufferSize := ⟨d.txBuf, d.txCount, d.txIn, d.txOut⟩

def rx (d : CanDev) : Ring CanFrame bufferSize := ⟨d.rxBuf, d.rxCount, d.rxIn, d.rxOut⟩

/-- Overwrite byte `k` of a four-byte `size_t`. -/
def setSizeByte (n k : ℕ) (v : Byte) : ℕ :=
  n / 256 ^ (k + 1) * 256 ^ (k + 1) + v.toNat * 256 ^ k + n % 256 ^ k

/-- A store `k` bytes past the end of `rx_buf[slot]`: the next slot, or after
the last slot `rx_count` and then `rx_in`. -/
def storePast (d : CanDev) (slot k : ℕ) (v : Byte) : CanDev :=
  if slot + 1 < bufferSize then
    {d with rxBuf := store d.rxBuf (slot + 1) ((load d.rxBuf (slot + 1)).setByte k v)}
  else if k < 4 then {d with rxCount := setSizeByte d.rxCount k v}
  else {d with rxIn := setSizeByte d.rxIn (k - 4) v}

def storeAllPast (d : CanDev) (slot : ℕ) : ℕ → List Byte → CanDev
  | _, [] => d
  | k, v :: vs => storeAllPast (d.storePast slot k v) slot (k + 1) vs

@[simp] theorem storePast_tx (d : CanDev) (slot k : ℕ) (v : Byte) :
    (d.storePast slot k v).tx = d.tx := by
  unfold storePast
  split
  · rfl
  · split <;> rfl

@[simp] theorem storeAllPast_tx (d : CanDev) (slot k : ℕ) (vs : List Byte) :
    (d.storeAllPast slot k vs).tx = d.tx := by
  induction vs generalizing d k with
  | nil => rfl
  | cons v vs ih => rw [storeAllPast, ih, storePast_tx]

/-- Behind any slot but the last the stores stay in the array. -/
theorem storeAllPast_buf (d : CanDev) {slot : ℕ} (h : slot + 1 < bufferSize) (k : ℕ)
    (vs : List Byte) : ∃ rxBuf, d.storeAllPast slot k vs = {d with rxBuf := rxBuf} := by
  induction vs generalizing d k with
  | nil => exact ⟨d.rxBuf, rfl⟩
  | cons v vs ih =>
    have hone : d.storePast slot k v = {d with
        rxBuf := store d.rxBuf (slot + 1) ((load d.rxBuf (slot + 1)).setByte k v)} := if_pos h
    obtain ⟨rxBuf, heq⟩ := ih (d.storePast slot k v) (k + 1)
    rw [storeAllPast, heq, hone]
    exact ⟨rxBuf, rfl⟩

end CanDev

/-! ### Registers and bits -/

def sjaModeReg : Byte := 0
def resetBit : Byte := 1#8 <<< 0
def txFrameInfoReg : Byte := 16
def eff : Byte := 1#8 <<< 7
def rtr : Byte := 1#8 <<< 6
def dlc (x : Byte) : Byte := x
def sjaStatusReg : Byte := 2
/-- Transmit buffer status, 1-released 0-locked. -/
def tbs : Byte := 1#8 <<< 2
def sjaCommandReg : Byte := 1
def cdo : Byte := 1#8 <<< 3
def sjaClockReg : Byte := 31
def peli : Byte := 1#8 <<< 7
def sjaIntReg : Byte := 3
def sjaIntEnReg : Byte := 4
def ri : Byte := 1#8 <<< 0
def rie : Byte := 1#8 <<< 0
def ti : Byte := 1#8 <<< 1
def tie : Byte := 1#8 <<< 1
def doi : Byte := 1#8 <<< 3
def sjaControlReg : Byte := 0
def sjaBasicAmrReg : Byte := 5

/-- A `uint8_t` operand after promotion to `int`. -/
def promote (temp : Byte) : CanId := temp.setWidth 32

/-- Bit `n` of a `can_id` word: `can->can_id & (1 << n)`. -/
def idBit (id : CanId) (n : ℕ) : Bool := id &&& (1#32 <<< n) != 0

def eFault : ℤ := -14
def eInval : ℤ := -22
def eFBig : ℤ := -27

end CanPci
