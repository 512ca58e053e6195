import CanPci.Shared

/-!
# The BasicCAN driver (source/linux_driver/basiccan_mode/can_pci.c)
-/

namespace CanPci.Basiccan
open RingFifo

variable {σ : Type} [Bus σ]

def sendMessage (can : CanFrame) (c : σ) : σ :=
  let index : Byte := 10
  let temp := ((can.canId >>> 3) &&& 0xff#32).setWidth 8
  let c := iowrite8 temp index c
  let index := index + 1
  let temp : Byte := ((can.canId <<< 5) &&& 0xe0#32).setWidth 8
  let temp := if idBit can.canId 30 then temp ||| (1#8 <<< 4) else temp
  let temp := temp ||| (can.canDlc &&& 0x0f#8)
  let c := iowrite8 temp index c
  let index := index + 1
  -- the header masks the length, the loop does not
  let c := writeData can can.canDlc.toNat 0 index c
  iowrite8 0x01 sjaCommandReg c

/-- The writes before the data loop, and the register the loop starts at. -/
def txHeader (can : CanFrame) : List (Byte × Byte) :=
  let low : Byte := ((can.canId <<< 5) &&& 0xe0#32).setWidth 8
  let low := if idBit can.canId 30 then low ||| (1#8 <<< 4) else low
  [(((can.canId >>> 3) &&& 0xff#32).setWidth 8, 10), (low ||| (can.canDlc &&& 0x0f#8), 11)]

def txDataReg (_ : CanFrame) : Byte := 12

theorem sendMessage_split (can : CanFrame) (c : σ) :
    sendMessage can c = iowrite8 0x01 sjaCommandReg
      (writeData can can.canDlc.toNat 0 (txDataReg can) (writes (txHeader can) c)) := rfl

def receiveMessage (can : CanFrame) (c : σ) : Received × σ :=
  let can := can.memset 0
  let index : Byte := 20
  let (temp, c) := ioread8 index c
  let index := index + 1
  let can := {can with canId := (promote temp <<< 3) &&& (0xff#32 <<< 3)}
  let (temp, c) := ioread8 index c
  let index := index + 1
  let can := {can with canId := can.canId ||| ((promote temp >>> 5) &&& 0x07#32)}
  let can := if temp &&& 0x10#8 ≠ 0 then {can with canId := can.canId ||| (1#32 <<< 30)} else can
  let can := {can with canDlc := temp &&& 0x0f#8}
  let (r, c) := readData can.canDlc.toNat 0 index ⟨can, []⟩ c
  (r, iowrite8 0x04 sjaCommandReg c)

/-- The reads before the data loop, on a cleared slot. -/
def rxHeader (c : σ) : RxHeader σ :=
  let (b1, c) := ioread8 20 c
  let (b2, c) := ioread8 21 c
  let id := ((promote b1 <<< 3) &&& (0xff#32 <<< 3)) ||| ((promote b2 >>> 5) &&& 0x07#32)
  ⟨if b2 &&& 0x10#8 ≠ 0 then id ||| (1#32 <<< 30) else id, b2 &&& 0x0f#8, 22, c⟩

theorem receiveMessage_split (can : CanFrame) (c : σ) :
    receiveMessage can c = (rxHeader c).finish := by
  unfold receiveMessage rxHeader RxHeader.finish
  dsimp only [CanFrame.memset_zero, CanFrame.zero]
  rw [show (20 + 1 : Byte) = 21 from rfl]
  split <;> rfl

def irqHandler (d : CanDev) (c : σ) : Served σ :=
  let (temp, c) := ioread8 sjaIntReg c
  let s : Served σ := ⟨d, c, [], []⟩
  let s := if temp &&& ti ≠ 0 then serveTransmit sendMessage s else s
  if temp &&& ri ≠ 0 then
    -- a full ring: release the receive buffer, skip the overrun branch
    if bufferSize ≤ s.dev.rxCount then {s with bus := iowrite8 0x04 sjaCommandReg s.bus}
    else clearOverrun temp (serveReceive receiveMessage wrapGe s)
  else clearOverrun temp s

def configure (c : σ) : σ :=
  let (temp, c) := ioread8 sjaClockReg c
  let c := iowrite8 (temp &&& ~~~peli) sjaClockReg c
  let c := iowrite8 0xff sjaBasicAmrReg c
  let (temp, c) := ioread8 sjaControlReg c
  iowrite8 (temp ||| (3#8 <<< 1)) sjaControlReg c

def deviceOpen (d : CanDev) (c : σ) : OpenResult σ := openWith configure d c

def deviceWrite (d : CanDev) (count : ℕ) (u : CopyIn) (c : σ) : ℤ × Served σ :=
  writeWith sendMessage d count u c

end CanPci.Basiccan
