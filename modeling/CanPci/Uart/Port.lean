import CanPci.Device

/-!
# The 8250 driver (backup/qemu_linux0/8250)

The transmit buffer of `serial_core.c` and the interrupt path of `8250.c`, for a port of
type `PORT_16550A`. The driver reaches the UART through `serial_in` and `serial_out` alone.
The kernel is configured without `CONFIG_SMP`, `CONFIG_PREEMPT` and `CONFIG_MAGIC_SYSRQ`:
spin locks cost nothing, and the two sysrq hooks answer 0. Statistics and wakeups are left
out.
-/

namespace CanPci.Uart
open RingFifo

class SerialIo (σ : Type) where
  serialIn : ℕ → σ → Byte × σ
  serialOut : ℕ → Byte → σ → σ

export SerialIo (serialIn serialOut)

/-- `N` is `UART_XMIT_SIZE`, a power of two. -/
structure CircBuf (N : ℕ) where
  buf : Vector Byte N
  head : ℕ
  tail : ℕ
  deriving DecidableEq, Repr

/-- `(head - tail) & (size - 1)`. -/
def circCnt (head tail size : ℕ) : ℕ := (head + size - tail) % size

def circSpaceToEnd (head tail size : ℕ) : ℕ :=
  let last := size - 1 - head
  let n := (last + tail) % size
  if n ≤ last then n else last + 1

namespace CircBuf
variable {N : ℕ}

def charsPending (c : CircBuf N) : ℕ := circCnt c.head c.tail N

def storeAll (v : Vector Byte N) : ℕ → List Byte → Vector Byte N
  | _, [] => v
  | i, x :: xs => storeAll (store v i x) (i + 1) xs

/-- The loop of `uart_write`; every round but the last copies a byte. -/
def fill (c : CircBuf N) (buf : List Byte) : ℕ → CircBuf N × List Byte
  | 0 => (c, buf)
  | fuel + 1 =>
    let n := min buf.length (circSpaceToEnd c.head c.tail N)
    if n = 0 then (c, buf)
    else fill {c with buf := storeAll c.buf c.head (buf.take n), head := (c.head + n) % N}
      (buf.drop n) fuel

end CircBuf

/-! ### The port -/

inductive Flag
  | normal
  | break
  | parity
  | frame
  | overrun
  deriving DecidableEq, Repr

/-- The bits of `port->mctrl` that `serial8250_set_mctrl` looks at. -/
structure Mctrl where
  rts : Bool
  dtr : Bool
  out1 : Bool
  out2 : Bool
  loop : Bool
  deriving DecidableEq, Repr

def orIf (v : Byte) (c : Bool) (bits : Byte) : Byte := if c then v ||| bits else v

def Mctrl.mcr (m : Mctrl) : Byte :=
  orIf (orIf (orIf (orIf (orIf 0 m.rts 0x02) m.dtr 0x01) m.out1 0x04) m.out2 0x08) m.loop 0x10

/-- `struct uart_8250_port` with what its tty and its `uart_state` add; `spdCust` is
`UPF_SPD_CUST`, `flip` is what `tty_insert_flip_char` was given. -/
structure UartPort (N : ℕ) where
  ier : Byte
  lsrSavedFlags : Byte
  msrSavedFlags : Byte
  xChar : Byte
  readStatusMask : Byte
  ignoreStatusMask : Byte
  lcr : Byte
  mctrl : Mctrl
  uartclk : ℕ
  spdCust : Bool
  customDivisor : ℕ
  magicMultiplier : Bool
  bugTxen : Bool
  bugThre : Bool
  txLoadsz : ℕ
  ctsFlow : Bool
  stopped : Bool
  hwStopped : Bool
  xmit : CircBuf N
  flip : List (Byte × Flag)
  deriving DecidableEq, Repr

/-- Offsets and bits of `linux/serial_reg.h`. -/
def uartTx : ℕ := 0
def uartRx : ℕ := 0
def uartIer : ℕ := 1
def uartIir : ℕ := 2
def uartFcr : ℕ := 2
def uartLcr : ℕ := 3
def uartMcr : ℕ := 4
def uartDll : ℕ := 0
def uartDlm : ℕ := 1
def uartLsr : ℕ := 5
def uartMsr : ℕ := 6

section
variable {σ : Type} [SerialIo σ] {N : ℕ}

/-- `__stop_tx`. -/
def stopTx (up : UartPort N) (c : σ) : UartPort N × σ :=
  if up.ier &&& 0x02 ≠ 0#8 then
    let up := {up with ier := up.ier &&& ~~~0x02#8}
    (up, serialOut uartIer up.ier c)
  else (up, c)

def CircBuf.pop (c : CircBuf N) : CircBuf N := {c with tail := (c.tail + 1) % N}

/-- The first byte of the loop, then up to `n` more. -/
def sendChars (up : UartPort N) (c : σ) : ℕ → UartPort N × σ
  | 0 => ({up with xmit := up.xmit.pop}, serialOut uartTx (load up.xmit.buf up.xmit.tail) c)
  | n + 1 =>
    let c := serialOut uartTx (load up.xmit.buf up.xmit.tail) c
    let up := {up with xmit := up.xmit.pop}
    if up.xmit.head = up.xmit.tail then (up, c) else sendChars up c n

def serial8250TxChars (up : UartPort N) (c : σ) : UartPort N × σ :=
  if up.xChar ≠ 0#8 then ({up with xChar := 0}, serialOut uartTx up.xChar c)
  else if up.stopped ∨ up.hwStopped then stopTx up c
  else if up.xmit.head = up.xmit.tail then stopTx up c
  else
    let (up, c) := sendChars up c (up.txLoadsz - 1)
    if up.xmit.head = up.xmit.tail then stopTx up c else (up, c)

def serial8250StartTx (up : UartPort N) (c : σ) : UartPort N × σ :=
  if up.ier &&& 0x02 = 0#8 then
    let up := {up with ier := up.ier ||| 0x02}
    let c := serialOut uartIer up.ier c
    if up.bugTxen then
      let (lsr, c) := serialIn uartLsr c
      let up := {up with lsrSavedFlags := up.lsrSavedFlags ||| (lsr &&& 0x1e)}
      if lsr &&& 0x40 ≠ 0#8 then serial8250TxChars up c else (up, c)
    else (up, c)
  else (up, c)

/-- `uart_start`. -/
def uartStart (up : UartPort N) (c : σ) : UartPort N × σ :=
  if up.xmit.head ≠ up.xmit.tail ∧ up.stopped = false ∧ up.hwStopped = false then
    serial8250StartTx up c
  else (up, c)

/-- The bytes accepted are those of `buf` that are not returned. -/
def uartWrite (up : UartPort N) (buf : List Byte) (c : σ) : List Byte × UartPort N × σ :=
  let (xmit, rest) := up.xmit.fill buf (buf.length + 1)
  let (up, c) := uartStart {up with xmit := xmit} c
  (rest, up, c)

def uartInsertChar (up : UartPort N) (status overrun ch : Byte) (flag : Flag) : UartPort N :=
  let up := if status &&& up.ignoreStatusMask &&& ~~~overrun = 0#8 then
      {up with flip := up.flip ++ [(ch, flag)]}
    else up
  if status &&& ~~~up.ignoreStatusMask &&& overrun ≠ 0#8 then
    {up with flip := up.flip ++ [(0, .overrun)]}
  else up

/-- The flag and the status that an error bit makes of a character. -/
def errorFlag (up : UartPort N) (lsr : Byte) : Byte × Flag :=
  if lsr &&& 0x1e ≠ 0#8 then
    let lsr := if lsr &&& 0x10 ≠ 0#8 then lsr &&& ~~~0x0c#8 else lsr
    let lsr := lsr &&& up.readStatusMask
    (lsr, if lsr &&& 0x10 ≠ 0#8 then .break
      else if lsr &&& 0x04 ≠ 0#8 then .parity
      else if lsr &&& 0x08 ≠ 0#8 then .frame
      else .normal)
  else (lsr, .normal)

def takeChar (lsr : Byte) (c : σ) : Byte × σ :=
  if lsr &&& 0x01 ≠ 0#8 then serialIn uartRx c else (0, c)

/-- One round of the loop of `serial8250_rx_chars`, up to its read of the status. -/
def rxChar (up : UartPort N) (lsr : Byte) (c : σ) : Byte × UartPort N × σ :=
  let (ch, c) := takeChar lsr c
  let lsr := lsr ||| up.lsrSavedFlags
  let up := {up with lsrSavedFlags := 0}
  let (lsr, flag) := errorFlag up lsr
  let up := uartInsertChar up lsr 0x02 ch flag
  let (lsr, c) := serialIn uartLsr c
  (lsr, up, c)

/-- `n` is `max_count` before its test. -/
def rxChars (up : UartPort N) (lsr : Byte) (c : σ) : ℕ → Byte × UartPort N × σ
  | 0 => rxChar up lsr c
  | n + 1 =>
    let (lsr, up, c) := rxChar up lsr c
    if lsr &&& 0x11 ≠ 0#8 then rxChars up lsr c n else (lsr, up, c)

def serial8250RxChars (up : UartPort N) (lsr : Byte) (c : σ) : Byte × UartPort N × σ :=
  rxChars up lsr c 256

def serial8250SetMctrl (m : Mctrl) (c : σ) : σ := serialOut uartMcr m.mcr c

/-- `uart_update_mctrl`, with what the bits become. -/
def uartUpdateMctrl (m : Mctrl) (up : UartPort N) (c : σ) : UartPort N × σ :=
  if up.mctrl ≠ m then ({up with mctrl := m}, serial8250SetMctrl m c) else (up, c)

def uartDtrRts (onoff : Bool) (up : UartPort N) (c : σ) : UartPort N × σ :=
  uartUpdateMctrl {up.mctrl with dtr := onoff, rts := onoff} up c

def uartHandleCtsChange (up : UartPort N) (status : Byte) (c : σ) : UartPort N × σ :=
  if up.ctsFlow then
    if up.hwStopped then
      if status ≠ 0#8 then serial8250StartTx {up with hwStopped := false} c else (up, c)
    else if status = 0#8 then stopTx {up with hwStopped := true} c
    else (up, c)
  else (up, c)

def serial8250ModemStatus (up : UartPort N) (c : σ) : Byte × UartPort N × σ :=
  let (status, c) := serialIn uartMsr c
  let status := status ||| up.msrSavedFlags
  let up := {up with msrSavedFlags := 0}
  if status &&& 0x0f ≠ 0#8 ∧ up.ier &&& 0x08 ≠ 0#8 ∧ status &&& 0x01 ≠ 0#8 then
    (status, uartHandleCtsChange up (status &&& 0x10) c)
  else (status, up, c)

/-! ### The interrupt -/

def serial8250HandleIrq (up : UartPort N) (iir : Byte) (c : σ) : Bool × UartPort N × σ :=
  if iir &&& 0x01 ≠ 0#8 then (false, up, c)
  else
    let (status, c) := serialIn uartLsr c
    let (status, up, c) := if status &&& 0x11 ≠ 0#8 then serial8250RxChars up status c
      else (status, up, c)
    let (_, up, c) := serial8250ModemStatus up c
    let (up, c) := if status &&& 0x20 ≠ 0#8 then serial8250TxChars up c else (up, c)
    (true, up, c)

def serial8250DefaultHandleIrq (up : UartPort N) (c : σ) : Bool × UartPort N × σ :=
  let (iir, c) := serialIn uartIir c
  serial8250HandleIrq up iir c

end
end CanPci.Uart
