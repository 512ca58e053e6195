import CanPci.Device
import CanPci.Lib.Machine

/-!
# The emulated UART (backup/qemu_linux0/QEMU/serial.c)

The 16550A behind its eight I/O ports. What the character backend answers during a step
is an input of the step. Clock values are left out: a timer is armed or it is not.
-/

namespace CanPci.Uart
open RingFifo

def uartLcrDlab : Byte := 0x80

def uartIerMsi : Byte := 0x08
def uartIerRlsi : Byte := 0x04
def uartIerThri : Byte := 0x02
def uartIerRdi : Byte := 0x01

def uartIirNoInt : Byte := 0x01
def uartIirId : Byte := 0x06
def uartIirMsi : Byte := 0x00
def uartIirThri : Byte := 0x02
def uartIirRdi : Byte := 0x04
def uartIirRlsi : Byte := 0x06
def uartIirCti : Byte := 0x0c
def uartIirFe : Byte := 0xc0

def uartMcrLoop : Byte := 0x10
def uartMcrOut2 : Byte := 0x08
def uartMcrRts : Byte := 0x02
def uartMcrDtr : Byte := 0x01

def uartMsrDcd : Byte := 0x80
def uartMsrRi : Byte := 0x40
def uartMsrDsr : Byte := 0x20
def uartMsrCts : Byte := 0x10
def uartMsrTeri : Byte := 0x04
def uartMsrAnyDelta : Byte := 0x0f

def uartLsrTemt : Byte := 0x40
def uartLsrThre : Byte := 0x20
def uartLsrBi : Byte := 0x10
def uartLsrOe : Byte := 0x02
def uartLsrDr : Byte := 0x01
def uartLsrIntAny : Byte := 0x1e

def uartFcrXfr : Byte := 0x04
def uartFcrRfr : Byte := 0x02
def uartFcrFe : Byte := 0x01

abbrev uartFifoLength : ℕ := 16

def maxXmitRetry : ℤ := 4

def getTicksPerSec : ℕ := 1000000000

/-! ### `SerialState` -/

structure SerialFIFO where
  data : Vector Byte uartFifoLength
  count : ℕ
  itl : ℕ
  tail : ℕ
  head : ℕ
  deriving DecidableEq, Repr

/-- The queue between the two indices; `head` is where the next byte goes. -/
def SerialFIFO.ring (f : SerialFIFO) : Ring Byte uartFifoLength := ⟨f.data, f.count, f.head, f.tail⟩

inductive FifoId
  | xmit
  | recv
  deriving DecidableEq, Repr

/-- `irq` is the level of the line behind `s->irq`; the last three fields say which timer
is armed. -/
structure SerialState where
  divider : BitVec 16
  rbr : Byte
  thr : Byte
  tsr : Byte
  ier : Byte
  iir : Byte
  lcr : Byte
  mcr : Byte
  lsr : Byte
  msr : Byte
  scr : Byte
  fcr : Byte
  fcrVmstate : Byte
  thrIpending : Bool
  irq : Bool
  lastBreakEnable : Byte
  baudbase : ℕ
  tsrRetry : ℤ
  wakeup : Bool
  recvFifo : SerialFIFO
  xmitFifo : SerialFIFO
  timeoutIpending : Bool
  charTransmitTime : ℕ
  pollMsl : ℤ
  fifoTimeoutTimer : Bool
  transmitTimer : Bool
  modemStatusPoll : Bool
  deriving DecidableEq, Repr

/-- The modem lines that `CHR_IOCTL_SERIAL_GET_TIOCM` and `SET_TIOCM` carry. -/
structure Tiocm where
  cts : Bool
  dsr : Bool
  car : Bool
  ri : Bool
  rts : Bool
  dtr : Bool
  deriving DecidableEq, Repr

/-- What the backend answers: the result of `qemu_chr_fe_write`, whether `GET_TIOCM` is
supported, and what the local `flags` holds after it. -/
structure Answers where
  written : ℤ
  supported : Bool
  flags : Tiocm
  deriving DecidableEq, Repr

/-- A byte for `qemu_chr_fe_write`, the other calls of the backend, a division by its
divisor, a wakeup request, the value of a read. -/
inductive Event
  | chr (b : Byte)
  | setParams (speed : ℕ) (parity : Char) (dataBits stopBits : ℕ)
  | setBreak (enable : Byte)
  | setTiocm (flags : Tiocm)
  | acceptInput
  | divide (by_ : ℕ)
  | wakeup
  | value (v : Byte)
  deriving DecidableEq, Repr

namespace SerialState

def fifo (s : SerialState) : FifoId → SerialFIFO
  | .xmit => s.xmitFifo
  | .recv => s.recvFifo

def setFifo (s : SerialState) : FifoId → SerialFIFO → SerialState
  | .xmit, f => {s with xmitFifo := f}
  | .recv, f => {s with recvFifo := f}

end SerialState

/-- `itl` stays. -/
def fifoClear (s : SerialState) (fifo : FifoId) : SerialState :=
  let f := s.fifo fifo
  s.setFifo fifo {f with data := Vector.replicate _ 0, count := 0, head := 0, tail := 0}

def fifoPut (s : SerialState) (fifo : FifoId) (chr : Byte) : SerialState :=
  let f := s.fifo fifo
  -- a full transmit FIFO is overwritten, a full receive FIFO is not
  let f' := if fifo = .xmit ∨ f.count < uartFifoLength then
      {f with data := store f.data f.head chr, head := next uartFifoLength f.head}
    else f
  if f.count < uartFifoLength then s.setFifo fifo {f' with count := f.count + 1}
  else if fifo = .recv then {s.setFifo fifo f' with lsr := s.lsr ||| uartLsrOe}
  else s.setFifo fifo f'

def fifoGet (s : SerialState) (fifo : FifoId) : Byte × SerialState :=
  let f := s.fifo fifo
  if f.count = 0 then (0, s)
  else (load f.data f.tail,
    s.setFifo fifo {f with tail := next uartFifoLength f.tail, count := f.count - 1})

/-- `tmp_iir` of `serial_update_irq`. -/
def SerialState.pending (s : SerialState) : Byte :=
  if s.ier &&& uartIerRlsi ≠ 0#8 ∧ s.lsr &&& uartLsrIntAny ≠ 0#8 then uartIirRlsi
  else if s.ier &&& uartIerRdi ≠ 0#8 ∧ s.timeoutIpending then uartIirCti
  else if s.ier &&& uartIerRdi ≠ 0#8 ∧ s.lsr &&& uartLsrDr ≠ 0#8 ∧
      (s.fcr &&& uartFcrFe = 0#8 ∨ s.recvFifo.itl ≤ s.recvFifo.count) then uartIirRdi
  else if s.ier &&& uartIerThri ≠ 0#8 ∧ s.thrIpending then uartIirThri
  else if s.ier &&& uartIerMsi ≠ 0#8 ∧ s.msr &&& uartMsrAnyDelta ≠ 0#8 then uartIirMsi
  else uartIirNoInt

def serialUpdateIrq (s : SerialState) : SerialState :=
  {s with iir := s.pending ||| (s.iir &&& 0xf0), irq := s.pending ≠ uartIirNoInt}

def serialUpdateParameters (s : SerialState) : SerialState × List Event :=
  if s.divider = 0#16 then (s, [])
  else
    let parity := if s.lcr &&& 0x08 ≠ 0#8 then (if s.lcr &&& 0x10 ≠ 0#8 then 'E' else 'O') else 'N'
    let stopBits := if s.lcr &&& 0x04 ≠ 0#8 then 2 else 1
    let dataBits := (s.lcr &&& 0x03).toNat + 5
    let frameSize := (if s.lcr &&& 0x08 ≠ 0#8 then 2 else 1) + (dataBits + stopBits)
    let speed := s.baudbase / s.divider.toNat
    ({s with charTransmitTime := getTicksPerSec / speed * frameSize},
      [.divide s.divider.toNat, .divide speed, .setParams speed parity dataBits stopBits])

def modemLine (msr mask : Byte) (up : Bool) : Byte := if up then msr ||| mask else msr &&& ~~~mask

def modemLines (msr : Byte) (flags : Tiocm) : Byte :=
  modemLine (modemLine (modemLine (modemLine msr uartMsrCts flags.cts) uartMsrDsr flags.dsr)
    uartMsrDcd flags.car) uartMsrRi flags.ri

/-- The delta bits; `UART_MSR_TERI` only for a change from 1 to 0. -/
def modemDeltas (msr omsr : Byte) : Byte :=
  let msr := msr ||| ((msr >>> 4) ^^^ (omsr >>> 4))
  if msr &&& uartMsrTeri ≠ 0#8 ∧ omsr &&& uartMsrRi = 0#8 then msr &&& ~~~uartMsrTeri else msr

def serialUpdateMsl (ans : Answers) (s : SerialState) : SerialState :=
  let s := {s with modemStatusPoll := false}
  if ans.supported = false then {s with pollMsl := -1}
  else
    let omsr := s.msr
    let s := {s with msr := modemLines omsr ans.flags}
    let s := if s.msr ≠ omsr then serialUpdateIrq {s with msr := modemDeltas s.msr omsr} else s
    if s.pollMsl ≠ 0 then {s with modemStatusPoll := true} else s

def serialCanReceive (s : SerialState) : ℕ :=
  if s.fcr &&& uartFcrFe ≠ 0#8 then
    if s.recvFifo.count < uartFifoLength then
      -- `fifo.itl - fifo.count` up to the trigger level, one byte at a time above it
      if s.recvFifo.count ≤ s.recvFifo.itl then s.recvFifo.itl - s.recvFifo.count else 1
    else 0
  else if s.lsr &&& uartLsrDr ≠ 0#8 then 0 else 1

/-- `buf[0]` is `b`, the rest is `bs`. -/
def serialReceive1 (s : SerialState) (b : Byte) (bs : List Byte) : SerialState × List Event :=
  let out := if s.wakeup then [Event.wakeup] else []
  let s := if s.fcr &&& uartFcrFe ≠ 0#8 then
      let s := (b :: bs).foldl (fun s c => fifoPut s .recv c) s
      {s with lsr := s.lsr ||| uartLsrDr, fifoTimeoutTimer := true}
    else
      let s := if s.lsr &&& uartLsrDr ≠ 0#8 then {s with lsr := s.lsr ||| uartLsrOe} else s
      {s with rbr := b, lsr := s.lsr ||| uartLsrDr}
  (serialUpdateIrq s, out)

def serialReceiveBreak (s : SerialState) : SerialState :=
  let s := fifoPut {s with rbr := 0} .recv 0
  serialUpdateIrq {s with lsr := s.lsr ||| (uartLsrBi ||| uartLsrDr)}

def fifoTimeoutInt (s : SerialState) : SerialState :=
  if s.recvFifo.count ≠ 0 then serialUpdateIrq {s with timeoutIpending := true} else s

/-- The first block of `serial_xmit`: the next byte goes to the shift register. -/
def loadTsr (s : SerialState) : SerialState :=
  if s.tsrRetry ≤ 0 then
    if s.fcr &&& uartFcrFe ≠ 0#8 then
      let (c, s) := fifoGet s .xmit
      let s := {s with tsr := c}
      if s.xmitFifo.count = 0 then {s with lsr := s.lsr ||| uartLsrThre} else s
    else {s with tsr := s.thr, lsr := (s.lsr ||| uartLsrThre) &&& ~~~uartLsrTemt}
  else s

/-- Its last block. -/
def xmitDone (s : SerialState) : SerialState :=
  let s := if s.lsr &&& uartLsrThre = 0#8 then {s with transmitTimer := true} else s
  if s.lsr &&& uartLsrThre ≠ 0#8 then
    serialUpdateIrq {s with lsr := s.lsr ||| uartLsrTemt, thrIpending := true}
  else s

def serialXmit (ans : Answers) (s : SerialState) : SerialState × List Event :=
  let s := loadTsr s
  if s.mcr &&& uartMcrLoop ≠ 0#8 then
    let (s, out) := serialReceive1 s s.tsr []
    (xmitDone s, out)
  else if ans.written ≠ 1 then
    if 0 < s.tsrRetry ∧ s.tsrRetry ≤ maxXmitRetry then
      ({s with tsrRetry := s.tsrRetry + 1, transmitTimer := true}, [.chr s.tsr])
    else (xmitDone (if s.pollMsl < 0 then {s with tsrRetry := -1} else s), [.chr s.tsr])
  else (xmitDone {s with tsrRetry := 0}, [.chr s.tsr])

/-! ### `serial_ioport_write` -/

def writeThr (s : SerialState) (val : Byte) (ans : Answers) : SerialState × List Event :=
  if s.lcr &&& uartLcrDlab ≠ 0#8 then
    serialUpdateParameters {s with divider := (s.divider &&& 0xff00) ||| val.setWidth 16}
  else
    let s := {s with thr := val}
    let s := if s.fcr &&& uartFcrFe ≠ 0#8 then
        let s := fifoPut s .xmit s.thr
        serialUpdateIrq {s with thrIpending := false, lsr := s.lsr &&& ~~~uartLsrTemt &&& ~~~uartLsrThre}
      else serialUpdateIrq {s with thrIpending := false, lsr := s.lsr &&& ~~~uartLsrThre}
    serialXmit ans s

def writeIer (s : SerialState) (val : Byte) (ans : Answers) : SerialState × List Event :=
  if s.lcr &&& uartLcrDlab ≠ 0#8 then
    serialUpdateParameters {s with divider := (s.divider &&& 0x00ff) ||| (val.setWidth 16 <<< 8)}
  else
    let s := {s with ier := val &&& 0x0f}
    let s := if 0 ≤ s.pollMsl then
        if s.ier &&& uartIerMsi ≠ 0#8 then serialUpdateMsl ans {s with pollMsl := 1}
        else {s with modemStatusPoll := false, pollMsl := 0}
      else s
    (if s.lsr &&& uartLsrThre ≠ 0#8 then serialUpdateIrq {s with thrIpending := true} else s, [])

def triggerLevel (val : Byte) : ℕ :=
  if val &&& 0xc0 = 0x00 then 1
  else if val &&& 0xc0 = 0x40 then 4
  else if val &&& 0xc0 = 0x80 then 8
  else 14

/-- Both FIFOs are flushed when the enable bit changes. -/
def flushBits (fcr val : Byte) : Byte :=
  if (val ^^^ fcr) &&& uartFcrFe ≠ 0#8 then val ||| (uartFcrXfr ||| uartFcrRfr) else val

def writeFcr (s : SerialState) (val : Byte) : SerialState :=
  if s.fcr = val then s
  else
    let val := flushBits s.fcr val
    let s := if val &&& uartFcrRfr ≠ 0#8 then
        fifoClear {s with fifoTimeoutTimer := false, timeoutIpending := false} .recv
      else s
    let s := if val &&& uartFcrXfr ≠ 0#8 then fifoClear s .xmit else s
    let s := if val &&& uartFcrFe ≠ 0#8 then
        {s with iir := s.iir ||| uartIirFe, recvFifo := {s.recvFifo with itl := triggerLevel val}}
      else {s with iir := s.iir &&& ~~~uartIirFe}
    serialUpdateIrq {s with fcr := val &&& 0xc9}

def writeLcr (s : SerialState) (val : Byte) : SerialState × List Event :=
  let (s, out) := serialUpdateParameters {s with lcr := val}
  let breakEnable := (val >>> 6) &&& 1
  if breakEnable ≠ s.lastBreakEnable then
    ({s with lastBreakEnable := breakEnable}, out ++ [.setBreak breakEnable])
  else (s, out)

def writeMcr (s : SerialState) (val : Byte) (ans : Answers) : SerialState × List Event :=
  let oldMcr := s.mcr
  let s := {s with mcr := val &&& 0x1f}
  if val &&& uartMcrLoop ≠ 0#8 then (s, [])
  else if 0 ≤ s.pollMsl ∧ oldMcr ≠ s.mcr then
    ({s with modemStatusPoll := true},
      [.setTiocm {ans.flags with rts := val &&& uartMcrRts ≠ 0#8, dtr := val &&& uartMcrDtr ≠ 0#8}])
  else (s, [])

def serialIoportWrite (s : SerialState) (addr : ℕ) (val : Byte) (ans : Answers) :
    SerialState × List Event :=
  match addr % 8 with
  | 1 => writeIer s val ans
  | 2 => (writeFcr s val, [])
  | 3 => writeLcr s val
  | 4 => writeMcr s val ans
  | 5 => (s, [])
  | 6 => (s, [])
  | 7 => ({s with scr := val}, [])
  | _ => writeThr s val ans

/-! ### `serial_ioport_read` -/

/-- The data byte that a read of port 0 takes. -/
def takeByte (s : SerialState) : Byte × SerialState :=
  if s.fcr &&& uartFcrFe ≠ 0#8 then
    let (ret, s) := fifoGet s .recv
    let s := if s.recvFifo.count = 0 then {s with lsr := s.lsr &&& ~~~(uartLsrDr ||| uartLsrBi)}
      else {s with fifoTimeoutTimer := true}
    (ret, {s with timeoutIpending := false})
  else (s.rbr, {s with lsr := s.lsr &&& ~~~(uartLsrDr ||| uartLsrBi)})

def readRbr (s : SerialState) : Byte × SerialState × List Event :=
  if s.lcr &&& uartLcrDlab ≠ 0#8 then (s.divider.setWidth 8, s, [])
  else
    let (ret, s) := takeByte s
    let s := serialUpdateIrq s
    (ret, s, if s.mcr &&& uartMcrLoop = 0#8 then [.acceptInput] else [])

def readIir (s : SerialState) : Byte × SerialState :=
  (s.iir, if s.iir &&& uartIirId = uartIirThri then serialUpdateIrq {s with thrIpending := false} else s)

def readLsr (s : SerialState) : Byte × SerialState :=
  (s.lsr, if s.lsr &&& (uartLsrBi ||| uartLsrOe) ≠ 0#8 then
      serialUpdateIrq {s with lsr := s.lsr &&& ~~~(uartLsrBi ||| uartLsrOe)}
    else s)

def readMsr (s : SerialState) (ans : Answers) : Byte × SerialState :=
  if s.mcr &&& uartMcrLoop ≠ 0#8 then
    -- the modem outputs are connected to the inputs
    (((s.mcr &&& 0x0c) <<< 4) ||| ((s.mcr &&& 0x02) <<< 3) ||| ((s.mcr &&& 0x01) <<< 5), s)
  else
    let s := if 0 ≤ s.pollMsl then serialUpdateMsl ans s else s
    (s.msr, if s.msr &&& uartMsrAnyDelta ≠ 0#8 then serialUpdateIrq {s with msr := s.msr &&& 0xf0} else s)

def serialIoportRead (s : SerialState) (addr : ℕ) (ans : Answers) :
    Byte × SerialState × List Event :=
  match addr % 8 with
  | 1 => (if s.lcr &&& uartLcrDlab ≠ 0#8 then (s.divider >>> 8).setWidth 8 else s.ier, s, [])
  | 2 => ((readIir s).1, (readIir s).2, [])
  | 3 => (s.lcr, s, [])
  | 4 => (s.mcr, s, [])
  | 5 => ((readLsr s).1, (readLsr s).2, [])
  | 6 => ((readMsr s ans).1, (readMsr s ans).2, [])
  | 7 => (s.scr, s, [])
  | _ => readRbr s

def serialReset (s : SerialState) : SerialState :=
  let s := {s with
    rbr := 0, ier := 0, iir := uartIirNoInt, lcr := 0, lsr := uartLsrTemt ||| uartLsrThre,
    msr := uartMsrDcd ||| uartMsrDsr ||| uartMsrCts, divider := 0x0c, mcr := uartMcrOut2,
    scr := 0, tsrRetry := 0, charTransmitTime := getTicksPerSec / 9600 * 10, pollMsl := 0}
  let s := fifoClear (fifoClear s .recv) .xmit
  {s with thrIpending := false, lastBreakEnable := 0, irq := false}

def SerialFIFO.zero : SerialFIFO := ⟨Vector.replicate _ 0, 0, 0, 0, 0⟩

/-- As `g_malloc0` and `serial_init` leave it. -/
def SerialState.zero (baudbase : ℕ) : SerialState :=
  ⟨0, 0, 0, 0, 0, 0, 0, 0, 0, 0, 0, 0, 0, false, false, 0, baudbase, 0, false, .zero, .zero, false, 0,
    0, false, false, false⟩

/-- After the reset that `serial_init_core` registers. -/
def SerialState.init (baudbase : ℕ) : SerialState := serialReset (.zero baudbase)

/-- A guest access, a call of one of the backend's handlers, the expiry of a timer, a
system reset. -/
inductive Input
  | write (addr : ℕ) (val : Byte) (ans : Answers)
  | read (addr : ℕ) (ans : Answers)
  | receive (b : Byte) (bs : List Byte)
  | eventBreak
  | fifoTimeout
  | transmit (ans : Answers)
  | pollModem (ans : Answers)
  | reset
  deriving DecidableEq, Repr

/-- A timer that is not armed does not expire; it is disarmed before its callback runs. -/
def step (s : SerialState) : Input → SerialState × List Event
  | .write addr val ans => serialIoportWrite s addr val ans
  | .read addr ans =>
    let (ret, s, out) := serialIoportRead s addr ans
    (s, .value ret :: out)
  | .receive b bs => serialReceive1 s b bs
  | .eventBreak => (serialReceiveBreak s, [])
  | .fifoTimeout => (if s.fifoTimeoutTimer then fifoTimeoutInt {s with fifoTimeoutTimer := false} else s, [])
  | .transmit ans => if s.transmitTimer then serialXmit ans {s with transmitTimer := false} else (s, [])
  | .pollModem ans => (if s.modemStatusPoll then serialUpdateMsl ans s else s, [])
  | .reset => (serialReset s, [])

end CanPci.Uart
