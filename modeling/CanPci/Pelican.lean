import CanPci.Shared

/-!
# The PeliCAN driver (source/linux_driver/pelican_mode/can_pci.c)
-/

namespace CanPci.Pelican
open RingFifo

variable {σ : Type} [Bus σ]

def sendMessage (can : CanFrame) (c : σ) : σ :=
  let index := txFrameInfoReg
  let temp : Byte := dlc can.canDlc
  let temp := if idBit can.canId 30 then temp ||| rtr else temp
  let c :=
    if idBit can.canId 31 then
      let temp := temp ||| eff
      let c := iowrite8 temp index c
      let index := index + 1
      let temp := ((can.canId >>> 21) &&& 0xff#32).setWidth 8
      let c := iowrite8 temp index c
      let index := index + 1
      let temp := ((can.canId >>> 13) &&& 0xff#32).setWidth 8
      let c := iowrite8 temp index c
      let index := index + 1
      let temp := ((can.canId >>> 5) &&& 0xff#32).setWidth 8
      let c := iowrite8 temp index c
      let index := index + 1
      let temp := ((can.canId &&& 0x1f#32) <<< 0x03).setWidth 8
      let c := iowrite8 temp index c
      let index := index + 1
      writeData can can.canDlc.toNat 0 index c
    else
      let c := iowrite8 temp index c
      let index := index + 1
      let temp := ((can.canId >>> 3) &&& 0xff#32).setWidth 8
      let c := iowrite8 temp index c
      let index := index + 1
      -- 0x03 keeps two of the three low identifier bits
      let temp := ((can.canId &&& 0x03#32) <<< 0x05).setWidth 8
      let c := iowrite8 temp index c
      let index := index + 1
      writeData can can.canDlc.toNat 0 index c
  iowrite8 0x01 sjaCommandReg c

/-- The writes before the data loop, and the register the loop starts at. -/
def txHeader (can : CanFrame) : List (Byte × Byte) :=
  let info := if idBit can.canId 30 then dlc can.canDlc ||| rtr else dlc can.canDlc
  if idBit can.canId 31 then
    [(info ||| eff, 16), (((can.canId >>> 21) &&& 0xff#32).setWidth 8, 17),
     (((can.canId >>> 13) &&& 0xff#32).setWidth 8, 18), (((can.canId >>> 5) &&& 0xff#32).setWidth 8, 19),
     (((can.canId &&& 0x1f#32) <<< 0x03).setWidth 8, 20)]
  else
    [(info, 16), (((can.canId >>> 3) &&& 0xff#32).setWidth 8, 17),
     (((can.canId &&& 0x03#32) <<< 0x05).setWidth 8, 18)]

def txDataReg (can : CanFrame) : Byte := if idBit can.canId 31 then 21 else 19

theorem sendMessage_split (can : CanFrame) (c : σ) :
    sendMessage can c = iowrite8 0x01 sjaCommandReg
      (writeData can can.canDlc.toNat 0 (txDataReg can) (writes (txHeader can) c)) := by
  unfold sendMessage txHeader txDataReg
  cases idBit can.canId 31 <;> rfl

def receiveMessage (can : CanFrame) (c : σ) : Received × σ :=
  let index : Byte := 16
  let can := can.memset 0
  let (temp, c) := ioread8 index c
  let index := index + 1
  let can := if temp &&& (1#8 <<< 6) ≠ 0 then {can with canId := can.canId ||| (1#32 <<< 30)} else can
  let can := {can with canDlc := temp &&& 0x0f#8}
  let (can, index, c) :=
    if temp &&& (1#8 <<< 7) ≠ 0 then
      let can := {can with canId := can.canId ||| (1#32 <<< 31)}
      let (temp, c) := ioread8 index c
      let index := index + 1
      let can := {can with canId := can.canId ||| ((promote temp <<< 21) &&& (0xff#32 <<< 21))}
      let (temp, c) := ioread8 index c
      let index := index + 1
      let can := {can with canId := can.canId ||| ((promote temp <<< 13) &&& (0xff#32 <<< 13))}
      let (temp, c) := ioread8 index c
      let index := index + 1
      let can := {can with canId := can.canId ||| ((promote temp <<< 5) &&& (0xff#32 <<< 5))}
      let (temp, c) := ioread8 index c
      let index := index + 1
      let can := {can with canId := can.canId ||| ((promote temp >>> 3) &&& 0x1f#32)}
      (can, index, c)
    else
      let (temp, c) := ioread8 index c
      let index := index + 1
      let can := {can with canId := can.canId ||| ((promote temp <<< 3) &&& (0xff#32 <<< 3))}
      let (temp, c) := ioread8 index c
      let index := index + 1
      let can := {can with canId := can.canId ||| ((promote temp >>> 5) &&& 0x07#32)}
      (can, index, c)
  let (r, c) := readData can.canDlc.toNat 0 index ⟨can, []⟩ c
  (r, iowrite8 0x04 sjaCommandReg c)

/-- The reads before the data loop, on a cleared slot. -/
def rxHeader (c : σ) : RxHeader σ :=
  let (info, c) := ioread8 16 c
  let flags : CanId := if info &&& (1#8 <<< 6) ≠ 0 then 1#32 <<< 30 else 0
  if info &&& (1#8 <<< 7) ≠ 0 then
    let (b1, c) := ioread8 17 c
    let (b2, c) := ioread8 18 c
    let (b3, c) := ioread8 19 c
    let (b4, c) := ioread8 20 c
    ⟨flags ||| (1#32 <<< 31) ||| ((promote b1 <<< 21) &&& (0xff#32 <<< 21))
      ||| ((promote b2 <<< 13) &&& (0xff#32 <<< 13)) ||| ((promote b3 <<< 5) &&& (0xff#32 <<< 5))
      ||| ((promote b4 >>> 3) &&& 0x1f#32), info &&& 0x0f#8, 21, c⟩
  else
    let (b1, c) := ioread8 17 c
    let (b2, c) := ioread8 18 c
    ⟨flags ||| ((promote b1 <<< 3) &&& (0xff#32 <<< 3)) ||| ((promote b2 >>> 5) &&& 0x07#32),
      info &&& 0x0f#8, 19, c⟩

theorem receiveMessage_split (can : CanFrame) (c : σ) :
    receiveMessage can c = (rxHeader c).finish := by
  unfold receiveMessage rxHeader RxHeader.finish
  dsimp only [CanFrame.memset_zero, CanFrame.zero]
  split <;> split <;> rfl

def irqHandler (d : CanDev) (c : σ) : Served σ :=
  let (temp, c) := ioread8 sjaIntReg c
  let s : Served σ := ⟨d, c, [], []⟩
  let s := if temp &&& ti ≠ 0 then serveTransmit sendMessage s else s
  if temp &&& ri ≠ 0 then
    -- the early return skips the overrun branch
    if s.dev.rxCount = bufferSize then s
    else clearOverrun temp (serveReceive receiveMessage wrapEq s)
  else clearOverrun temp s

def configure (c : σ) : σ :=
  let (temp, c) := ioread8 sjaClockReg c
  let c := iowrite8 (temp ||| peli) sjaClockReg c
  let (temp, c) := ioread8 sjaModeReg c
  let c := iowrite8 (temp ||| (1#8 <<< 3)) sjaModeReg c
  let c := writes ((List.range 4).map fun k => (0xff, BitVec.ofNat 8 (20 + k))) c
  let (temp, c) := ioread8 sjaIntEnReg c
  iowrite8 (temp ||| tie ||| rie) sjaIntEnReg c

def deviceOpen (d : CanDev) (c : σ) : OpenResult σ := openWith configure d c

def deviceWrite (d : CanDev) (count : ℕ) (u : CopyIn) (c : σ) : ℤ × Served σ :=
  writeWith sendMessage d count u c

end CanPci.Pelican
