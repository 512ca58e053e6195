import CanPci.Bus

/-!
# Code the two drivers have in common

The parts of `irq_handler`, `device_open`, `device_read` and `device_write` that
are the same text in `pelican_mode/can_pci.c` and `basiccan_mode/can_pci.c`, with
the driver's own functions as parameters.
-/

namespace CanPci
open RingFifo

variable {σ : Type} [Bus σ]

/-- A call of `send_message`: its frame and the controller it found. -/
structure Handover (σ : Type) where
  can : CanFrame
  bus : σ

/-- The state a piece of driver code leaves, the calls of `send_message` it made
and what its calls of `receive_message` stored. -/
structure Served (σ : Type) where
  dev : CanDev
  bus : σ
  handed : List (Handover σ)
  received : List Received

/-- `if (i == BUFFERSIZE) i = 0`. -/
def wrapEq (i : ℕ) : ℕ := if i = bufferSize then 0 else i

/-- `if (i >= BUFFERSIZE) i = 0`. -/
def wrapGe (i : ℕ) : ℕ := if bufferSize ≤ i then 0 else i

theorem wrapGe_succ {i : ℕ} (h : i < bufferSize) : wrapGe (i + 1) = next bufferSize i := by
  unfold wrapGe next
  split <;> split <;> omega

/-- The body of `if (temp & TI)`. -/
def serveTransmit (send : CanFrame → σ → σ) (s : Served σ) : Served σ :=
  if 0 < s.dev.txCount then
    let can := load s.dev.txBuf s.dev.txOut
    {s with
      dev := {s.dev with
        txOut := wrapEq (s.dev.txOut + 1)
        txCount := s.dev.txCount - 1}
      bus := send can s.bus
      handed := s.handed ++ [⟨can, s.bus⟩]}
  else s

/-- The body of `if (temp & RI)` once the ring has room. -/
def serveReceive (receive : CanFrame → σ → Received × σ) (wrap : ℕ → ℕ) (s : Served σ) :
    Served σ :=
  let d := {s.dev with rxCount := s.dev.rxCount + 1}
  let slot := d.rxIn
  let (r, c) := receive (load d.rxBuf slot) s.bus
  let d := {d with rxBuf := store d.rxBuf slot r.can}
  let d := d.storeAllPast slot 0 r.overrun
  let d := {d with rxIn := wrap (d.rxIn + 1)}
  {s with dev := d, bus := c, received := s.received ++ [r]}

/-- `if (temp & DOI)` and its body. -/
def clearOverrun (temp : Byte) (s : Served σ) : Served σ :=
  if temp &&& doi ≠ 0 then {s with bus := iowrite8 cdo sjaCommandReg s.bus} else s

/-! ### `device_open` -/

/-- The first retry loop, `n` rounds left. -/
def enterReset : ℕ → Byte → σ → Byte × σ
  | 0, temp, c => (temp, c)
  | n + 1, temp, c =>
    if temp &&& resetBit ≠ resetBit then
      let c := iowrite8 (temp ||| resetBit) sjaModeReg c
      let (temp, c) := ioread8 sjaModeReg c
      enterReset n temp c
    else (temp, c)

/-- The second retry loop, `n` rounds left. -/
def leaveReset : ℕ → Byte → σ → Byte × σ
  | 0, temp, c => (temp, c)
  | n + 1, temp, c =>
    if temp &&& resetBit = resetBit then
      let c := iowrite8 (temp &&& ~~~resetBit) sjaModeReg c
      let (temp, c) := ioread8 sjaModeReg c
      leaveReset n temp c
    else (temp, c)

/-- The statements after the second loop, in program order. -/
inductive OpenStmt
  | memsetTxBuf | txCount | txIn | txOut | memsetRxBuf | rxCount | rxIn | rxOut | privateData
  deriving DecidableEq, Repr

def OpenStmt.exec : OpenStmt → CanDev → CanDev
  | .memsetTxBuf, d => {d with txBuf := d.txBuf.map fun f => f.memset 0}
  | .txCount, d => {d with txCount := 0}
  | .txIn, d => {d with txIn := 0}
  | .txOut, d => {d with txOut := 0}
  | .memsetRxBuf, d => {d with rxBuf := d.rxBuf.map fun f => f.memset 0}
  | .rxCount, d => {d with rxCount := 0}
  | .rxIn, d => {d with rxIn := 0}
  | .rxOut, d => {d with rxOut := 0}
  | .privateData, d => d

def openTail : List OpenStmt :=
  [.memsetTxBuf, .txCount, .txIn, .txOut, .memsetRxBuf, .rxCount, .rxIn, .rxOut, .privateData]

/-- The ring fields as an uninterrupted `device_open` leaves them. -/
def resetRings (d : CanDev) : CanDev := openTail.foldl (fun d s => s.exec d) d

/-- `privateData` tells whether `filp->private_data` was set. -/
structure OpenResult (σ : Type) where
  ret : ℤ
  dev : CanDev
  bus : σ
  privateData : Bool

/-- `device_open` around the driver's own register configuration. -/
def openWith (configure : σ → σ) (d : CanDev) (c : σ) : OpenResult σ :=
  let (temp, c) := ioread8 sjaModeReg c
  let (temp, c) := enterReset 3 temp c
  if temp &&& resetBit ≠ resetBit then ⟨eFault, d, c, false⟩
  else
    let c := configure c
    let (temp, c) := ioread8 sjaModeReg c
    let (temp, c) := leaveReset 3 temp c
    if temp &&& resetBit = resetBit then ⟨eFault, d, c, false⟩
    else ⟨0, resetRings d, c, true⟩

def deviceRelease (c : σ) : ℤ × σ := (0, iowrite8 0x01 sjaModeReg c)

/-- `fault` tells whether `copy_to_user` fails. The result is the return value,
the record copied out and the device. -/
def deviceRead (d : CanDev) (count : ℕ) (fault : Bool) : ℤ × Option CanFrame × CanDev :=
  if count ≠ CanFrame.size then (eInval, none, d)
  else if d.rxCount = 0 then (0, none, d)
  else if fault then (eFault, none, d)
  else
    let can := load d.rxBuf d.rxOut
    let d := {d with rxOut := wrapEq (d.rxOut + 1)}
    let d := {d with rxCount := d.rxCount - 1}
    (count, some can, d)

/-! ### `device_write` -/

/-- The outcome of `copy_from_user` into a slot; a fault leaves some sixteen
bytes there. -/
inductive CopyIn
  | ok (can : CanFrame)
  | fault (left : CanFrame)
  deriving DecidableEq, Repr

def CopyIn.staged : CopyIn → CanFrame
  | .ok can => can
  | .fault left => left

def CopyIn.ret (count : ℕ) : CopyIn → ℤ
  | .ok _ => count
  | .fault _ => eFault

def writeCheck (d : CanDev) (count : ℕ) : Option ℤ :=
  if count ≠ CanFrame.size then some eInval
  else if d.txCount = bufferSize then some eFBig
  else none

def writeCopy (d : CanDev) (u : CopyIn) : CanDev :=
  {d with txBuf := store d.txBuf d.txIn u.staged}

/-- Everything after the status read. -/
def writeFinish (send : CanFrame → σ → σ) (d : CanDev) (temp : Byte) (count : ℕ) (ret : ℤ)
    (c : σ) : ℤ × Served σ :=
  if temp &&& tbs ≠ tbs then
    (count, ⟨{d with txCount := d.txCount + 1, txIn := wrapEq (d.txIn + 1)}, c, [], []⟩)
  else
    let can := load d.txBuf d.txIn
    (ret, ⟨d, send can c, [⟨can, c⟩], []⟩)

/-- `device_write` around the driver's `send_message`. -/
def writeWith (send : CanFrame → σ → σ) (d : CanDev) (count : ℕ) (u : CopyIn) (c : σ) :
    ℤ × Served σ :=
  match writeCheck d count with
  | some err => (err, ⟨d, c, [], []⟩)
  | none =>
    let d := writeCopy d u
    let (temp, c) := ioread8 sjaStatusReg c
    writeFinish send d temp count (u.ret count) c

end CanPci
