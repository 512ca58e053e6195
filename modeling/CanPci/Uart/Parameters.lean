import CanPci.Uart.Settings

/-!
# Line parameters

What `tcsetattr` asks for is what the character backend is told, and the two divisions of
`serial_update_parameters`.
-/

namespace CanPci.Uart
open Machine

/-- A UART with everything it tells its backend; `ans n` is what the backend answers during
access `n`. -/
structure Logged where
  uart : SerialState
  ans : ℕ → Answers
  accesses : ℕ
  out : List Event

namespace Logged

def read (addr : ℕ) (c : Logged) : Byte × Logged :=
  let (v, s, out) := serialIoportRead c.uart addr (c.ans c.accesses)
  (v, {c with uart := s, accesses := c.accesses + 1, out := c.out ++ out})

def write (addr : ℕ) (v : Byte) (c : Logged) : Logged :=
  let (s, out) := serialIoportWrite c.uart addr v (c.ans c.accesses)
  {c with uart := s, accesses := c.accesses + 1, out := c.out ++ out}

end Logged

instance : SerialIo Logged := ⟨Logged.read, Logged.write⟩

/-- Speed, parity, data bits and stop bits. -/
abbrev Params := ℕ × Char × ℕ × ℕ

def Event.params : Event → Option Params
  | .setParams speed parity dataBits stopBits => some (speed, parity, dataBits, stopBits)
  | _ => none

def lastParams (out : List Event) : Option Params := (out.filterMap Event.params).getLast?

def CSize.bits : CSize → ℕ
  | cs5 => 5
  | cs6 => 6
  | cs7 => 7
  | cs8 => 8

/-- With `CMSPAR` the parity bit is always a mark, or always a space. -/
def Termios.parity (t : Termios) : Char :=
  if t.parenb = false then 'N'
  else if t.cmspar then if t.parodd then 'M' else 'S'
  else if t.parodd then 'O' else 'E'

/-- What `serial_update_parameters` makes of it, which does not know `UART_LCR_SPAR`. -/
def Termios.toldParity (t : Termios) : Char :=
  if t.parenb then if t.parodd then 'O' else 'E' else 'N'

theorem toldParity_iff (t : Termios) :
    t.toldParity = t.parity ↔ ¬ (t.parenb = true ∧ t.cmspar = true) := by
  unfold Termios.toldParity Termios.parity
  cases t.parenb <;> cases t.cmspar <;> cases t.parodd <;> decide

def Termios.stopBits (t : Termios) : ℕ := if t.cstopb then 2 else 1

theorem lastParams_append (out out' : List Event) (h : out'.filterMap Event.params = []) :
    lastParams (out ++ out') = lastParams out := by
  rw [lastParams, List.filterMap_append, h, List.append_nil]
  rfl

theorem cval_params (t : Termios) :
    (t.cval &&& 0x08 ≠ 0#8 ↔ t.parenb = true) ∧ (t.cval &&& 0x10 ≠ 0#8 ↔ t.parodd = false) ∧
    (t.cval &&& 0x04 ≠ 0#8 ↔ t.cstopb = true) ∧ (t.cval &&& 0x03).toNat + 5 = t.csize.bits := by
  obtain ⟨csize, cstopb, parenb, parodd, cmspar, -⟩ := t
  unfold Termios.cval
  dsimp only
  cases csize <;> cases cstopb <;> cases parenb <;> cases parodd <;> cases cmspar <;> decide

theorem parameters_tell {s : SerialState} (h : s.divider ≠ 0#16) {t : Termios} (hl : s.lcr = t.cval)
    (out : List Event) : lastParams (out ++ (serialUpdateParameters s).2) =
      some (s.baudbase / s.divider.toNat, t.toldParity, t.csize.bits, t.stopBits) := by
  obtain ⟨hparity, heven, hstop, hbits⟩ := cval_params t
  have hp : (if s.lcr &&& 0x08 ≠ 0#8 then (if s.lcr &&& 0x10 ≠ 0#8 then 'E' else 'O') else 'N') =
      t.toldParity := by
    rw [hl, Termios.toldParity]
    simp only [hparity, heven]
    cases t.parenb <;> cases t.parodd <;> rfl
  have hs : (if s.lcr &&& 0x04 ≠ 0#8 then 2 else 1) = t.stopBits := by
    rw [hl, Termios.stopBits]
    simp only [hstop]
  have hevents : (serialUpdateParameters s).2 = [.divide s.divider.toNat,
      .divide (s.baudbase / s.divider.toNat),
      .setParams (s.baudbase / s.divider.toNat) t.toldParity t.csize.bits t.stopBits] := by
    rw [serialUpdateParameters, if_neg h]
    dsimp only
    rw [hp, hs, hl, hbits]
  rw [lastParams, List.filterMap_append, hevents]
  exact List.getLast?_concat

theorem lcr_tells {c : Logged} (h : c.uart.divider ≠ 0#16) (t : Termios) :
    lastParams (serialOut uartLcr t.cval c).out =
      some (c.uart.baudbase / c.uart.divider.toNat, t.toldParity, t.csize.bits, t.stopBits) := by
  have htell := parameters_tell (s := {c.uart with lcr := t.cval}) h (t := t) rfl c.out
  have hwrite : (serialOut uartLcr t.cval c).out = c.out ++ (writeLcr c.uart t.cval).2 := rfl
  rw [hwrite, writeLcr]
  dsimp only
  split
  · rw [← List.append_assoc, lastParams_append _ _ rfl]
    exact htell
  · exact htell

theorem fcr_tells (c : Logged) (v : Byte) : (serialOut uartFcr v c).out = c.out :=
  List.append_nil c.out

theorem mcr_tells (c : Logged) (v : Byte) :
    lastParams (serialOut uartMcr v c).out = lastParams c.out := by
  have hwrite : (serialOut uartMcr v c).out = c.out ++ (writeMcr c.uart v (c.ans c.accesses)).2 := rfl
  rw [hwrite]
  refine lastParams_append _ _ ?_
  unfold writeMcr
  dsimp only
  split
  · rfl
  · split
    · rfl
    · rfl

theorem parameters_keep (s : SerialState) : (serialUpdateParameters s).1.divider = s.divider ∧
    (serialUpdateParameters s).1.baudbase = s.baudbase ∧ (serialUpdateParameters s).1.lcr = s.lcr := by
  obtain ⟨t, ht⟩ := serialUpdateParameters_eq s
  rw [ht]
  exact ⟨rfl, rfl, rfl⟩

theorem writeLcr_keep (s : SerialState) (v : Byte) : (writeLcr s v).1.divider = s.divider ∧
    (writeLcr s v).1.baudbase = s.baudbase ∧ (writeLcr s v).1.lcr = v := by
  obtain ⟨t, b, heq⟩ := writeLcr_eq s v
  rw [heq]
  exact ⟨rfl, rfl, rfl⟩

theorem latch_writes {c : Logged} (hopen : c.uart.lcr &&& uartLcrDlab ≠ 0#8) (quot : ℕ) :
    (serialOut uartDlm (BitVec.ofNat 8 (quot / 256))
      (serialOut uartDll (BitVec.ofNat 8 quot) c)).uart.divider = BitVec.ofNat 16 quot ∧
    (serialOut uartDlm (BitVec.ofNat 8 (quot / 256))
      (serialOut uartDll (BitVec.ofNat 8 quot) c)).uart.baudbase = c.uart.baudbase := by
  have hlow : (serialOut uartDll (BitVec.ofNat 8 quot) c).uart = (serialUpdateParameters {c.uart with
      divider := (c.uart.divider &&& 0xff00) ||| (BitVec.ofNat 8 quot).setWidth 16}).1 := by
    exact congrArg Prod.fst (writeThr_open hopen (BitVec.ofNat 8 quot) (c.ans c.accesses))
  obtain ⟨hdiv, hbase, hlcr⟩ := parameters_keep {c.uart with
    divider := (c.uart.divider &&& 0xff00) ||| (BitVec.ofNat 8 quot).setWidth 16}
  rw [← hlow] at hdiv hbase hlcr
  generalize serialOut uartDll (BitVec.ofNat 8 quot) c = d at hdiv hbase hlcr ⊢
  have hhigh : (serialOut uartDlm (BitVec.ofNat 8 (quot / 256)) d).uart =
      (serialUpdateParameters {d.uart with divider := (d.uart.divider &&& 0x00ff) |||
        ((BitVec.ofNat 8 (quot / 256)).setWidth 16 <<< 8)}).1 := by
    exact congrArg Prod.fst (writeIer_open (by rw [hlcr]; exact hopen) (BitVec.ofNat 8 (quot / 256))
      (d.ans d.accesses))
  obtain ⟨hdiv', hbase', -⟩ := parameters_keep {d.uart with
    divider := (d.uart.divider &&& 0x00ff) ||| ((BitVec.ofNat 8 (quot / 256)).setWidth 16 <<< 8)}
  rw [hhigh, hdiv', hbase', hdiv]
  exact ⟨BitField.join_halves (by decide) (by decide) c.uart.divider quot, hbase⟩

theorem setLine_tells {quot : ℕ} (hquot : 0 < quot) (hrange : quot < 65536) (t : Termios) (c : Logged) :
    lastParams (setLine t.cval quot c).out =
      some (c.uart.baudbase / quot, t.toldParity, t.csize.bits, t.stopBits) := by
  have hopen : ∀ x : Byte, (x ||| 0x80) &&& uartLcrDlab ≠ 0#8 := by decide
  obtain ⟨-, hbase, hlcr⟩ := writeLcr_keep c.uart (t.cval ||| 0x80)
  have hlatch : (serialOut uartLcr (t.cval ||| 0x80) c).uart.lcr &&& uartLcrDlab ≠ 0#8 := by
    show (writeLcr c.uart (t.cval ||| 0x80)).1.lcr &&& uartLcrDlab ≠ 0#8
    rw [hlcr]
    exact hopen t.cval
  obtain ⟨hdiv, hsame⟩ := latch_writes hlatch quot
  have hnat : (BitVec.ofNat 16 quot).toNat = quot := by
    rw [BitVec.toNat_ofNat]
    exact Nat.mod_eq_of_lt hrange
  have htell := lcr_tells (c := serialOut uartDlm (BitVec.ofNat 8 (quot / 256))
    (serialOut uartDll (BitVec.ofNat 8 quot) (serialOut uartLcr (t.cval ||| 0x80) c))) (by
      rw [hdiv]
      intro hzero
      rw [hzero] at hnat
      exact absurd hnat.symm (Nat.ne_of_gt hquot)) t
  rw [hdiv, hsame, hnat] at htell
  rw [setLine, htell]
  exact congrArg (fun b => some (b / quot, t.toldParity, t.csize.bits, t.stopBits)) hbase

theorem writeIer_base (s : SerialState) (v : Byte) (ans : Answers) :
    (writeIer s v ans).1.baudbase = s.baudbase := by
  by_cases hdlab : s.lcr &&& uartLcrDlab = 0#8
  · obtain ⟨m, y, q, p, l, heq⟩ := writeIer_closed hdlab v ans
    rw [heq]
    dsimp only
    split
    · rfl
    · rfl
  · rw [writeIer_open hdlab]
    exact (parameters_keep _).2.1

theorem writeThr_base {s : SerialState} (h : s.Sound) (v : Byte) (ans : Answers) :
    (writeThr s v ans).1.baudbase = s.baudbase := by
  by_cases hdlab : s.lcr &&& uartLcrDlab = 0#8
  · by_cases hloop : s.mcr &&& uartMcrLoop = 0#8
    · obtain ⟨f, retry, -, -, -, heq⟩ := writeThr_eq h.settled.idle v ans hdlab hloop
      rw [heq]
      rfl
    · obtain ⟨f, -, -, heq⟩ :=
        writeThr_loop h.settled.idle h.settled.recv.count_le v ans hdlab hloop
      obtain ⟨g, r, l, t, hstore⟩ := rxStore_eq s v []
      rw [heq, hstore]
      rfl
  · rw [writeThr_open hdlab]
    exact (parameters_keep _).2.1

theorem write_base {s : SerialState} (h : s.Sound) (addr : ℕ) (v : Byte) (ans : Answers) :
    (serialIoportWrite s addr v ans).1.baudbase = s.baudbase := by
  unfold serialIoportWrite
  split
  · exact writeIer_base s v ans
  · by_cases hv : s.fcr = v
    · rw [writeFcr, if_pos hv]
    · rw [writeFcr_eq hv]
      rfl
  · exact (writeLcr_keep s v).2.1
  · obtain ⟨p, heq⟩ := writeMcr_eq s v ans
    rw [heq]
  · rfl
  · rfl
  · rfl
  · exact writeThr_base h v ans

theorem step_base {s : SerialState} (h : s.Sound) (a : Input) :
    (step s a).1.baudbase = s.baudbase := by
  cases a with
  | write addr v ans => exact write_base h addr v ans
  | read addr ans =>
    obtain ⟨f, l, m, p, t, w, y, q, v, k, heq⟩ := serialIoportRead_eq s addr ans
    rw [step]
    dsimp only
    rw [heq]
  | receive b bs =>
    obtain ⟨f, r, l, t, heq⟩ := rxStore_eq s b bs
    rw [step, serialReceive1_eq h.settled.recv.count_le, heq]
    rfl
  | eventBreak =>
    obtain ⟨f, l, y, q, heq⟩ := serialReceiveBreak_eq s
    rw [step, heq]
  | fifoTimeout =>
    obtain ⟨p, t, y, l, heq⟩ := fifoTimeout_eq s
    rw [heq]
  | transmit ans => rw [step, h.settled.idle.timer, if_neg Bool.false_ne_true]
  | pollModem ans =>
    obtain ⟨m, y, q, p, l, heq⟩ := pollModem_eq s ans
    rw [heq]
  | reset => rfl

section
variable {N : ℕ}

/-- The rates that a chip knows above its base rate do not divide it. -/
theorem divisor_of_dvd {up : UartPort N} {base baud k : ℕ} (hclock : up.uartclk = 16 * base)
    (hcustom : ¬ (baud = 38400 ∧ up.spdCust = true)) (hbaud : 0 < baud) (hk : base = baud * k)
    (hpos : 0 < k) : serial8250GetDivisor up baud = k := by
  have hle : baud ≤ base := by
    rw [hk]
    exact Nat.le_mul_of_pos_right baud hpos
  have hhalf : 16 * baud / 2 = 8 * baud := by omega
  have hsum : 16 * (baud * k) + 8 * baud = 16 * baud * k + 8 * baud := by
    rw [Nat.mul_assoc]
  rw [serial8250GetDivisor, if_neg fun hc => by omega, if_neg fun hc => by omega, uartGetDivisor,
    if_neg hcustom, divRoundClosest, hclock, hk, hhalf, hsum, Nat.mul_add_div (by omega),
    Nat.div_eq_of_lt (by omega), Nat.add_zero]

/-- A rate that divides the base rate reaches the backend as it is, with the bits of a
character. The parity does unless it is mark or space. -/
theorem settings_reach_backend (t : Termios) (up : UartPort N) (c : Logged)
    (hclock : up.uartclk = 16 * c.uart.baudbase)
    (hcustom : ¬ (t.baud = 38400 ∧ up.spdCust = true)) (hbaud : 0 < t.baud)
    (hdvd : t.baud ∣ c.uart.baudbase) (hbase : 0 < c.uart.baudbase)
    (hrange : c.uart.baudbase / t.baud < 65536) :
    ∃ parity, lastParams (serial8250DoSetTermios t up c).2.out =
        some (t.baud, parity, t.csize.bits, t.stopBits) ∧
      (parity = t.parity ↔ ¬ (t.parenb = true ∧ t.cmspar = true)) := by
  obtain ⟨k, hk⟩ := hdvd
  have hpos : 0 < k := by
    rcases Nat.eq_zero_or_pos k with hzero | hpos
    · rw [hzero] at hk
      omega
    · exact hpos
  have hquot := divisor_of_dvd hclock hcustom hbaud hk hpos
  have hdiv : c.uart.baudbase / t.baud = k := by
    rw [hk]
    exact Nat.mul_div_cancel_left k hbaud
  have hspeed : c.uart.baudbase / k = t.baud := by
    rw [hk]
    exact Nat.mul_div_cancel t.baud hpos
  refine ⟨t.toldParity, ?_, toldParity_iff t⟩
  rw [doSetTermios_eq]
  dsimp only
  rw [lineWrites, mcr_tells, fcr_tells, fcr_tells, hquot, setLine_tells hpos (by omega)]
  have hsame : (serialOut uartIer (orIf (up.ier &&& ~~~0x08#8) t.enableMs 0x08) c).uart.baudbase =
      c.uart.baudbase := writeIer_base c.uart _ _
  rw [hsame, hspeed]

end

/-- Seven bits, mark parity and two stop bits; the custom divisor is for another rate. -/
def sampleSettings : Termios :=
  ⟨.cs7, true, true, true, true, true, true, true, true, true, true, true, true, true, true, 9600,
    9600, 9600⟩

def samplePort : UartPort 4 :=
  ⟨0, 0, 0, 0, 0, 0, 0, ⟨false, false, false, false, false⟩, 1843200, true, 7, true, false, false,
    0, false, false, false, ⟨Vector.replicate 4 0, 0, 0⟩, []⟩

def sampleLogged : Logged := ⟨.init 115200, fun _ => quietAnswers, 0, []⟩

theorem settings_reach_backend_sample :
    ∃ parity, lastParams (serial8250DoSetTermios sampleSettings samplePort sampleLogged).2.out =
        some (9600, parity, sampleSettings.csize.bits, sampleSettings.stopBits) ∧
      (parity = sampleSettings.parity ↔
        ¬ (sampleSettings.parenb = true ∧ sampleSettings.cmspar = true)) :=
  settings_reach_backend sampleSettings samplePort sampleLogged (by decide) (by decide) (by decide)
    (by decide) (by decide) (by decide)

/-! ### The two divisions -/

def Event.Defined : Event → Prop
  | .divide by_ => by_ ≠ 0
  | _ => True

theorem parameters_defined {s : SerialState} (h : 65535 ≤ s.baudbase) :
    ∀ e ∈ (serialUpdateParameters s).2, e.Defined := by
  unfold serialUpdateParameters
  split
  · exact fun e he => absurd he List.not_mem_nil
  · rename_i hdiv
    have hpos : 0 < s.divider.toNat :=
      Nat.pos_of_ne_zero fun hzero => hdiv (BitVec.eq_of_toNat_eq hzero)
    have hle : s.divider.toNat ≤ s.baudbase := by omega
    dsimp only
    intro e he
    simp only [List.mem_cons, List.not_mem_nil, or_false] at he
    rcases he with rfl | rfl | rfl
    · exact Nat.ne_of_gt hpos
    · exact Nat.ne_of_gt (Nat.div_pos hle hpos)
    · trivial

theorem Event.Aside.defined {baudbase : ℕ} {e : Event} (h : e.Aside baudbase)
    (hbase : 65535 ≤ baudbase) : e.Defined := by
  cases h with
  | parameters hsame he => exact parameters_defined (by rw [hsame]; exact hbase) _ he
  | setBreak enable => trivial
  | setTiocm flags => trivial
  | wakeup => trivial

theorem step_defined {s : SerialState} (hs : s.Sound) (h : 65535 ≤ s.baudbase) (a : Input) :
    ∀ e ∈ (step s a).2, e.Defined := by
  cases a with
  | write addr val ans =>
    obtain ⟨out, heq, haside⟩ := write_emits hs addr val ans
    rw [step, heq]
    refine List.forall_mem_append.mpr ⟨fun e he => (haside e he).defined h, fun e he => ?_⟩
    obtain ⟨b, -, rfl⟩ := List.mem_map.mp he
    trivial
  | read addr ans =>
    refine List.forall_mem_cons.mpr ⟨trivial, fun e he => ?_⟩
    rw [read_emits s addr ans e he]
    trivial
  | receive b bs => exact fun e he => (wakeup_aside s.wakeup s.baudbase e he).defined h
  | eventBreak => exact fun e he => absurd he List.not_mem_nil
  | fifoTimeout => exact fun e he => absurd he List.not_mem_nil
  | transmit ans =>
    rw [step, hs.settled.idle.timer, if_neg Bool.false_ne_true]
    exact fun e he => absurd he List.not_mem_nil
  | pollModem ans => exact fun e he => absurd he List.not_mem_nil
  | reset => exact fun e he => absurd he List.not_mem_nil

/-- The largest divisor a driver can write. -/
def slowest : List Input :=
  [.write 3 0x80 quietAnswers, .write 0 0xff quietAnswers, .write 1 0xff quietAnswers]

theorem slowest_divides (baudbase : ℕ) :
    Event.divide (baudbase / 65535) ∈ (run step (.init baudbase) slowest).2 := by
  have hlow : ∀ s : SerialState, s.lcr = 0x80 → s.divider = 0x0c →
      (step s (.write 0 0xff quietAnswers)).1.lcr = 0x80 ∧
      (step s (.write 0 0xff quietAnswers)).1.divider = 0x00ff := by
    intro s hlcr hdiv
    show (writeThr s 0xff quietAnswers).1.lcr = _ ∧ (writeThr s 0xff quietAnswers).1.divider = _
    rw [writeThr, if_pos (by rw [hlcr]; decide), (parameters_keep _).1, (parameters_keep _).2.2, hdiv]
    exact ⟨hlcr, rfl⟩
  have hhigh : ∀ s : SerialState, s.lcr = 0x80 → s.baudbase = baudbase → s.divider = 0x00ff →
      Event.divide (baudbase / 65535) ∈ (step s (.write 1 0xff quietAnswers)).2 := by
    intro s hlcr hbase hdiv
    have hfull : ((s.divider &&& 0x00ff) ||| (BitVec.setWidth 16 (0xff : Byte) <<< 8)) = 0xffff := by
      rw [hdiv]
      decide
    show _ ∈ (writeIer s 0xff quietAnswers).2
    rw [writeIer, if_pos (by rw [hlcr]; decide), hfull, serialUpdateParameters,
      if_neg (by decide : (0xffff : BitVec 16) ≠ 0#16), hbase]
    exact List.mem_cons_of_mem _ List.mem_cons_self
  refine List.mem_append_right _ (List.mem_append_right _ (List.mem_append_left _ ?_))
  obtain ⟨hlcr, hdiv⟩ := hlow (step (.init baudbase) (.write 3 0x80 quietAnswers)).1 rfl rfl
  have hsound := init_sound baudbase
  exact hhigh _ hlcr ((step_base (step_sound _ _ hsound) _).trans (step_base hsound _)) hdiv

/-- No driver makes QEMU divide by zero exactly when the board's clock is at least 65535. -/
theorem divisions_defined_iff (baudbase : ℕ) :
    (∀ as, ∀ e ∈ (run step (.init baudbase) as).2, e.Defined) ↔ 65535 ≤ baudbase := by
  constructor
  · intro hall
    have hne : baudbase / 65535 ≠ 0 := hall slowest _ (slowest_divides baudbase)
    exact Nat.le_of_not_lt fun hlt => hne (Nat.div_eq_of_lt hlt)
  · intro hbase as
    have hkeep : ∀ s a, s.Sound ∧ 65535 ≤ s.baudbase →
        (step s a).1.Sound ∧ 65535 ≤ (step s a).1.baudbase := by
      intro s a h
      rw [step_base h.1]
      exact ⟨step_sound s a h.1, h.2⟩
    exact run_events (I := fun s => s.Sound ∧ 65535 ≤ s.baudbase) hkeep
      (fun s a h => step_defined h.1 h.2 a) as ⟨init_sound baudbase, hbase⟩

end CanPci.Uart
