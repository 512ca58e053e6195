import CanPci.Uart.Port

/-!
# Opening and closing a port

`serial8250_startup`, `serial8250_do_set_termios` and `serial8250_shutdown` for a port of
type `PORT_16550A` reached by I/O ports, neither on a four-port card nor behind an RSA
board. `up->mcr` is 0 without auto flow control; `mcr_mask` and `mcr_force` are neutral.
Linking the interrupt chain succeeds.
-/

namespace CanPci.Uart
open RingFifo

/-- `irq` says whether `port->irq` is set, the others are `port->flags`. -/
structure PortFlags where
  irq : Bool
  buggyUart : Bool
  bugThre : Bool
  noTxenTest : Bool
  consFlow : Bool
  deriving DecidableEq, Repr

inductive CSize
  | cs5
  | cs6
  | cs7
  | cs8
  deriving DecidableEq, Repr

/-- The flags of `struct ktermios` that the driver looks at. `b0` says that `CBAUD` is 0;
`baud` is what `uart_get_baud_rate` settles on. -/
structure Termios where
  csize : CSize
  cstopb : Bool
  parenb : Bool
  parodd : Bool
  cmspar : Bool
  crtscts : Bool
  cread : Bool
  clocal : Bool
  hupcl : Bool
  b0 : Bool
  inpck : Bool
  brkint : Bool
  parmrk : Bool
  ignpar : Bool
  ignbrk : Bool
  ospeed : ℕ
  ispeed : ℕ
  baud : ℕ
  deriving DecidableEq, Repr

/-- What `uart_set_termios` compares. -/
def Termios.same (old new : Termios) : Prop := {old with baud := new.baud} = new

instance (old new : Termios) : Decidable (old.same new) :=
  inferInstanceAs (Decidable ({old with baud := new.baud} = new))

def CSize.wlen : CSize → Byte
  | cs5 => 0x00
  | cs6 => 0x01
  | cs7 => 0x02
  | cs8 => 0x03

def Termios.cval (t : Termios) : Byte :=
  orIf (orIf (orIf (orIf t.csize.wlen t.cstopb 0x04) t.parenb 0x08) (!t.parodd) 0x10) t.cmspar 0x20

/-- Trigger level one below 2400 baud. -/
def Termios.fcr (t : Termios) : Byte :=
  if t.baud < 2400 then (0x81 &&& ~~~0xc0#8) ||| 0x00 else 0x81

def Termios.readStatusMask (t : Termios) : Byte :=
  orIf (orIf (0x02 ||| 0x20 ||| 0x01) t.inpck (0x08 ||| 0x04)) (t.brkint || t.parmrk) 0x10

def Termios.ignoreStatusMask (t : Termios) : Byte :=
  orIf (orIf (orIf (orIf 0 t.ignpar (0x04 ||| 0x08)) t.ignbrk 0x10) (t.ignbrk && t.ignpar) 0x02)
    (!t.cread) 0x01

/-- `UART_ENABLE_MS`. -/
def Termios.enableMs (t : Termios) : Bool := t.crtscts || !t.clocal

section
variable {σ : Type} [SerialIo σ] {N : ℕ}

def serial8250ClearFifos (c : σ) : σ :=
  serialOut uartFcr 0 (serialOut uartFcr (0x01 ||| 0x02 ||| 0x04) (serialOut uartFcr 0x01 c))

/-- The reads that clear the interrupt registers. -/
def clearInterrupts (c : σ) : σ :=
  (serialIn uartMsr (serialIn uartIir (serialIn uartRx (serialIn uartLsr c).2).2).2).2

/-- The first loop of `wait_for_xmitr`; the round after `n` more is the last. -/
def waitStatus (bits : Byte) (up : UartPort N) (c : σ) : ℕ → UartPort N × σ
  | 0 =>
    let (status, c) := serialIn uartLsr c
    ({up with lsrSavedFlags := up.lsrSavedFlags ||| (status &&& 0x1e)}, c)
  | n + 1 =>
    let (status, c) := serialIn uartLsr c
    let up := {up with lsrSavedFlags := up.lsrSavedFlags ||| (status &&& 0x1e)}
    if status &&& bits = bits then (up, c) else waitStatus bits up c n

/-- Its second loop. -/
def waitCts (up : UartPort N) (c : σ) : ℕ → UartPort N × σ
  | 0 => (up, c)
  | n + 1 =>
    let (msr, c) := serialIn uartMsr c
    let up := {up with msrSavedFlags := up.msrSavedFlags ||| (msr &&& 0x0f)}
    if msr &&& 0x10 ≠ 0#8 then (up, c) else waitCts up c n

def waitForXmitr (flags : PortFlags) (bits : Byte) (up : UartPort N) (c : σ) : UartPort N × σ :=
  let (up, c) := waitStatus bits up c 9999
  if flags.consFlow then waitCts up c 1000000 else (up, c)

/-- Does the UART interrupt again when its interrupt is enabled again? -/
def testThre (flags : PortFlags) (up : UartPort N) (c : σ) : UartPort N × σ :=
  if flags.irq then
    let (up, c) := waitForXmitr flags 0x20 up c
    let (iir1, c) := serialIn uartIir (serialOut uartIer 0x02 c)
    let (iir, c) := serialIn uartIir (serialOut uartIer 0x02 (serialOut uartIer 0 c))
    let c := serialOut uartIer 0 c
    if (iir1 &&& 0x01 = 0#8 ∧ iir &&& 0x01 ≠ 0#8) ∨ flags.bugThre then ({up with bugThre := true}, c)
    else (up, c)
  else (up, c)

/-- Does it interrupt when its interrupt is enabled? -/
def testTxen (flags : PortFlags) (up : UartPort N) (c : σ) : UartPort N × σ :=
  if flags.noTxenTest then (up, c)
  else
    let (lsr, c) := serialIn uartLsr (serialOut uartIer 0x02 c)
    let (iir, c) := serialIn uartIir c
    let c := serialOut uartIer 0 c
    ({up with bugTxen := lsr &&& 0x40 ≠ 0#8 ∧ iir &&& 0x01 ≠ 0#8}, c)

/-- What `serial8250_startup` does once it has found a UART. -/
def startupFound (flags : PortFlags) (up : UartPort N) (c : σ) : UartPort N × σ :=
  let (up, c) := testThre flags up c
  let c := serialOut uartLcr 0x03 c
  let up := if flags.irq then {up with mctrl := {up.mctrl with out2 := true}} else up
  let (up, c) := testTxen flags up (serial8250SetMctrl up.mctrl c)
  let up := {up with lsrSavedFlags := 0, msrSavedFlags := 0, ier := 0x04 ||| 0x01}
  (up, serialOut uartIer up.ier (clearInterrupts c))

/-- `none` is `-ENODEV`. -/
def serial8250Startup (flags : PortFlags) (up : UartPort N) (c : σ) : Option (UartPort N × σ) :=
  let up := {up with txLoadsz := 16}
  let c := clearInterrupts (serial8250ClearFifos c)
  if flags.buggyUart then some (startupFound flags up c)
  else
    let (lsr, c) := serialIn uartLsr c
    if lsr = 0xff then none else some (startupFound flags up c)

def divRoundClosest (x divisor : ℕ) : ℕ := (x + divisor / 2) / divisor

def uartGetDivisor (up : UartPort N) (baud : ℕ) : ℕ :=
  if baud = 38400 ∧ up.spdCust then up.customDivisor
  else divRoundClosest up.uartclk (16 * baud)

/-- Some chips know two rates above their base rate. -/
def serial8250GetDivisor (up : UartPort N) (baud : ℕ) : ℕ :=
  if up.magicMultiplier ∧ baud = up.uartclk / 4 then 0x8001
  else if up.magicMultiplier ∧ baud = up.uartclk / 8 then 0x8002
  else uartGetDivisor up baud

/-- The divisor latch, between two writes of the line control register. -/
def setLine (cval : Byte) (quot : ℕ) (c : σ) : σ :=
  serialOut uartLcr cval
    (serialOut uartDlm (BitVec.ofNat 8 (quot / 256))
      (serialOut uartDll (BitVec.ofNat 8 quot) (serialOut uartLcr (cval ||| 0x80) c)))

def serial8250DoSetTermios (t : Termios) (up : UartPort N) (c : σ) : UartPort N × σ :=
  let ier := orIf (up.ier &&& ~~~0x08#8) t.enableMs 0x08
  let up := {up with
    readStatusMask := t.readStatusMask, ignoreStatusMask := t.ignoreStatusMask, ier := ier
    lcr := t.cval}
  let c := setLine t.cval (serial8250GetDivisor up t.baud) (serialOut uartIer ier c)
  let c := serialOut uartFcr t.fcr (serialOut uartFcr 0x01 c)
  (up, serial8250SetMctrl up.mctrl c)

def uartChangeSpeed (t : Termios) (up : UartPort N) (c : σ) : UartPort N × σ :=
  serial8250DoSetTermios t {up with ctsFlow := t.crtscts} c

/-- The modem lines of `uart_set_termios`: a change to `B0` or from it. -/
def speedLines (old new : Termios) (throttled : Bool) (up : UartPort N) (c : σ) :
    UartPort N × σ :=
  if old.b0 = false ∧ new.b0 then uartUpdateMctrl {up.mctrl with rts := false, dtr := false} up c
  else if old.b0 ∧ new.b0 = false then
    uartUpdateMctrl {up.mctrl with
      dtr := true, rts := up.mctrl.rts || !new.crtscts || !throttled} up c
  else (up, c)

/-- The end of `uart_set_termios`: `CRTSCTS` turned off, or on. -/
def flowChange (old new : Termios) (up : UartPort N) (c : σ) : UartPort N × σ :=
  if old.crtscts ∧ new.crtscts = false then uartStart {up with hwStopped := false} c
  else if old.crtscts = false ∧ new.crtscts then
    -- `get_mctrl` looks at the modem status like the interrupt handler
    let (status, up, c) := serial8250ModemStatus up c
    if status &&& 0x10 = 0#8 then stopTx {up with hwStopped := true} c else (up, c)
  else (up, c)

/-- `throttled` is `TTY_THROTTLED`. -/
def uartSetTermios (old new : Termios) (throttled : Bool) (up : UartPort N) (c : σ) :
    UartPort N × σ :=
  if old.same new then (up, c)
  else
    let (up, c) := uartChangeSpeed new up c
    let (up, c) := speedLines old new throttled up c
    flowChange old new up c

/-- `uart_port_startup` of an open that does not initialise the modem lines; the buffer is
new. -/
def uartPortStartup (flags : PortFlags) (t : Termios) (up : UartPort N) (c : σ) :
    Option (UartPort N × σ) :=
  match serial8250Startup flags {up with xmit := {up.xmit with head := 0, tail := 0}} c with
  | none => none
  | some (up, c) =>
    let (up, c) := uartChangeSpeed t up c
    if up.ctsFlow then
      let (status, up, c) := serial8250ModemStatus up c
      some (if status &&& 0x10 = 0#8 then {up with hwStopped := true} else up, c)
    else some (up, c)

def serial8250Shutdown (up : UartPort N) (c : σ) : UartPort N × σ :=
  let c := serialOut uartIer 0 c
  let up := {up with ier := 0, mctrl := {up.mctrl with out2 := false}}
  let (lcr, c) := serialIn uartLcr (serial8250SetMctrl up.mctrl c)
  let c := serial8250ClearFifos (serialOut uartLcr (lcr &&& ~~~0x40#8) c)
  (up, (serialIn uartRx c).2)

/-- `uart_shutdown`; `hangup` is `HUPCL`. -/
def uartShutdown (hangup : Bool) (up : UartPort N) (c : σ) : UartPort N × σ :=
  let (up, c) := if hangup then uartDtrRts false up c else (up, c)
  serial8250Shutdown up c

end
end CanPci.Uart
