import CanPci.Uart.Settle
import CanPci.Uart.Startup

/-!
# The line settings of an open port

`serial8250_do_set_termios` opens the divisor latch and writes the FIFO control register
again. Nothing that waits in the UART is lost by this, whatever the backend does meanwhile.
-/

namespace CanPci.Uart
open RingFifo Machine

/-- Bytes will be reported, and the FIFOs are on. -/
structure Healthy (s : SerialState) : Prop extends Prompt s where
  on : s.fcr &&& uartFcrFe ≠ 0#8

theorem step_healthy (s : SerialState) (a : Input) (h : Healthy s) (ha : Ordinary a) :
    Healthy (step s a).1 := by
  obtain ⟨hbreak, hreset⟩ := ha.unbroken
  refine ⟨step_prompt s a h.toPrompt hbreak hreset, ?_⟩
  rw [step_fcr h.sound ha]
  exact h.on

theorem healthy_accessed : Accessed fun c : Wire => Healthy c.uart := step_accessed step_healthy

theorem write_healthy {s : SerialState} (h : Healthy s) {a : ℕ} (ha : a % 8 ≠ 2) (v : Byte)
    (ans : Answers) : Healthy (serialIoportWrite s a v ans).1 :=
  step_healthy s (.write a v ans) h ha

theorem serialOut_healthy {c : Wire} (h : Healthy c.uart) {a : ℕ} (ha : a % 8 ≠ 2) (v : Byte) :
    Healthy (serialOut a v c).uart :=
  write_healthy (advance_invariant step_healthy h) ha v c.advance.1

theorem writeFcr_on {s : SerialState} (h : Prompt s) {v : Byte} (hv : v &&& uartFcrFe ≠ 0#8) :
    Healthy (writeFcr s v) := by
  refine ⟨step_prompt s (.write uartFcr v quietAnswers) h Input.noConfusion Input.noConfusion, ?_⟩
  by_cases hsame : s.fcr = v
  · rw [writeFcr, if_pos hsame, hsame]
    exact hv
  · rw [writeFcr_eq hsame]
    show flushBits s.fcr v &&& 0xc9 &&& uartFcrFe ≠ 0#8
    rw [sticky_fe, flushBits_fe]
    exact hv

theorem flushBits_on {fcr v : Byte} (hon : fcr &&& uartFcrFe ≠ 0#8) (hv : v &&& 0x07 = 0x01) :
    flushBits fcr v &&& uartFcrRfr = 0#8 := by
  have hsame : (v ^^^ fcr) &&& uartFcrFe = 0#8 := by
    have hone : ∀ x : Byte, x &&& uartFcrFe = 0#8 ∨ x &&& uartFcrFe = uartFcrFe := by decide
    have hset : ∀ x : Byte, x &&& 0x07 = 0x01 → x &&& uartFcrFe = uartFcrFe := by decide
    rcases hone fcr with hoff | hfe
    · exact absurd hoff hon
    · rw [BitField.xor_and, hset v hv, hfe, BitVec.xor_self]
  have hclear : ∀ x : Byte, x &&& 0x07 = 0x01 → x &&& uartFcrRfr = 0#8 := by decide
  rw [flushBits, if_neg (not_not.mpr hsame)]
  exact hclear v hv

/-- Only a write of port 0 with the divisor latch closed sends a byte. -/
theorem write_quiet {s : SerialState} (h : s.Sound) {a : ℕ}
    (ha : a % 8 ≠ 0 ∨ s.lcr &&& uartLcrDlab ≠ 0#8) (v : Byte) (ans : Answers) :
    (serialIoportWrite s a v ans).2.filterMap Event.sent = [] := by
  rw [write_sent h, thrByte, if_neg]
  rintro ⟨hzero, hclosed, -⟩
  rcases ha with ha | hopen
  · exact ha hzero
  · exact hopen hclosed

/-- What a wire may have become since `c₀`: `l`, `m`, `i` and `t` are what is in the line,
modem and interrupt registers now, and in the transmitter's interrupt. -/
structure Passes (l m i : Byte) (t : Bool) (c₀ c : Wire) : Prop where
  live : Live c.uart
  control : c.uart.control = (l, m, i, t)
  health : Healthy c.uart
  sent : c.sent = c₀.sent
  arrived : ∃ new, c.got = c₀.got ++ new ∧ c.uart.waiting = c₀.uart.waiting ++ new

namespace Passes
variable {l m i l' m' i' : Byte} {t t' : Bool} {c₀ c : Wire}

theorem advance (h : Passes l m i t c₀ c) : Passes l m i t c₀ c.advance.2 := by
  have hmove := advance_moves h.live
  exact ⟨hmove.live, hmove.control.trans h.control, advance_invariant step_healthy h.health,
    hmove.sent.trans h.sent, arrived_trans h.arrived hmove.arrived⟩

theorem write (h : Passes l m i t c₀ c) {a : ℕ} {v : Byte}
    (hquiet : a % 8 ≠ 0 ∨ l &&& uartLcrDlab ≠ 0#8)
    (hkeep : ∀ (s : SerialState) (ans : Answers), s.Exact → Healthy s → s.control = (l, m, i, t) →
      ((serialIoportWrite s a v ans).1.Exact ∧ (serialIoportWrite s a v ans).1.waiting = s.waiting) ∧
      (serialIoportWrite s a v ans).1.lsr = s.lsr ∧
      (serialIoportWrite s a v ans).1.control = (l', m', i', t') ∧
      Healthy (serialIoportWrite s a v ans).1) : Passes l' m' i' t' c₀ (serialOut a v c) := by
  have hadv := h.advance
  have hlcr : c.advance.2.uart.lcr = l := congrArg Prod.fst hadv.control
  obtain ⟨⟨hexact, hwait⟩, hlsr, hcontrol, hnext⟩ :=
    hkeep c.advance.2.uart c.advance.1 hadv.live.exact hadv.health hadv.control
  obtain ⟨new, hgot, hnew⟩ := hadv.arrived
  refine ⟨⟨hexact, ?_⟩, hcontrol, hnext, ?_, new, hgot, hwait.trans hnew⟩
  · show (serialIoportWrite c.advance.2.uart a v c.advance.1).1.lsr &&& uartLsrIntAny = 0#8
    rw [hlsr]
    exact hadv.live.clean
  · show c.advance.2.sent ++ (serialIoportWrite c.advance.2.uart a v c.advance.1).2.filterMap
      Event.sent = c₀.sent
    rw [write_quiet hadv.live.exact.sound (by rw [hlcr]; exact hquiet), List.append_nil]
    exact hadv.sent

theorem lcr (h : Passes l m i t c₀ c) (v : Byte) : Passes v m i t c₀ (serialOut uartLcr v c) := by
  refine h.write (Or.inl (by decide)) fun s ans hexact hon hcontrol => ?_
  have hview := writeLcr_view s v
  have hnew := writeLcr_control s v
  simp only [SerialState.control, Prod.mk.injEq] at hcontrol
  obtain ⟨-, hmcr, hier, hthr⟩ := hcontrol
  refine ⟨hexact.keep (hexact.sound.lcr v) hview, view_lsr hview, ?_,
    write_healthy hon (by decide) v ans⟩
  rw [hmcr, hier, hthr] at hnew
  exact hnew

theorem latch (h : Passes l m i t c₀ c) (hopen : l &&& uartLcrDlab ≠ 0#8) (v : Byte) :
    Passes l m i t c₀ (serialOut uartDll v c) ∧ Passes l m i t c₀ (serialOut uartDlm v c) := by
  have hparam : ∀ (s : SerialState) (d : BitVec 16), s.Exact →
      ((serialUpdateParameters {s with divider := d}).1.Exact ∧
        (serialUpdateParameters {s with divider := d}).1.waiting = s.waiting) ∧
      (serialUpdateParameters {s with divider := d}).1.lsr = s.lsr ∧
      (serialUpdateParameters {s with divider := d}).1.control = s.control := by
    intro s d hexact
    have hview := parameters_view {s with divider := d}
    exact ⟨hexact.keep (SerialState.Sound.parameters hexact.sound.frame) hview, view_lsr hview,
      parameters_control {s with divider := d}⟩
  have hlow : ∀ (s : SerialState) (ans : Answers), s.control = (l, m, i, t) →
      serialIoportWrite s uartDll v ans = serialUpdateParameters
        {s with divider := (s.divider &&& 0xff00) ||| v.setWidth 16} := by
    intro s ans hcontrol
    have hlcr : s.lcr = l := congrArg Prod.fst hcontrol
    show writeThr s v ans = _
    rw [writeThr, hlcr, if_pos hopen]
  have hhigh : ∀ (s : SerialState) (ans : Answers), s.control = (l, m, i, t) →
      serialIoportWrite s uartDlm v ans = serialUpdateParameters
        {s with divider := (s.divider &&& 0x00ff) ||| (v.setWidth 16 <<< 8)} := by
    intro s ans hcontrol
    have hlcr : s.lcr = l := congrArg Prod.fst hcontrol
    show writeIer s v ans = _
    rw [writeIer, hlcr, if_pos hopen]
  refine ⟨h.write (Or.inr hopen) fun s ans hexact hon hcontrol => ?_,
    h.write (Or.inr hopen) fun s ans hexact hon hcontrol => ?_⟩
  · have hnext : Healthy (serialIoportWrite s uartDll v ans).1 := write_healthy hon (by decide) v ans
    rw [hlow s ans hcontrol] at hnext
    rw [hlow s ans hcontrol]
    obtain ⟨hkeep, hlsr, hctl⟩ := hparam s _ hexact
    exact ⟨hkeep, hlsr, hctl.trans hcontrol, hnext⟩
  · have hnext : Healthy (serialIoportWrite s uartDlm v ans).1 := write_healthy hon (by decide) v ans
    rw [hhigh s ans hcontrol] at hnext
    rw [hhigh s ans hcontrol]
    obtain ⟨hkeep, hlsr, hctl⟩ := hparam s _ hexact
    exact ⟨hkeep, hlsr, hctl.trans hcontrol, hnext⟩

theorem fcr (h : Passes l m i t c₀ c) {v : Byte} (hv : v &&& 0x07 = 0x01) :
    Passes l m i t c₀ (serialOut uartFcr v c) := by
  have hset : ∀ x : Byte, x &&& 0x07 = 0x01 → x &&& uartFcrFe ≠ 0#8 := by decide
  refine h.write (Or.inl (by decide)) fun s ans hexact hon hcontrol => ?_
  obtain ⟨hctl, hlsr⟩ := writeFcr_control s v
  have hkeep := writeFcr_keep hexact v fun _ hflush => absurd (flushBits_on hon.on hv) hflush
  exact ⟨hkeep, hlsr, hctl.trans hcontrol, writeFcr_on hon.toPrompt (hset v hv)⟩

theorem mcr (h : Passes l m i t c₀ c) (v : Byte) :
    Passes l (v &&& 0x1f) i t c₀ (serialOut uartMcr v c) := by
  refine h.write (Or.inl (by decide)) fun s ans hexact hon hcontrol => ?_
  have hview := writeMcr_view s v ans
  have hnew := writeMcr_control s v ans
  simp only [SerialState.control, Prod.mk.injEq] at hcontrol
  obtain ⟨hlcr, -, hier, hthr⟩ := hcontrol
  refine ⟨hexact.keep (hexact.sound.mcr v ans) hview, view_lsr hview, ?_,
    write_healthy hon (by decide) v ans⟩
  rw [hlcr, hier, hthr] at hnew
  exact hnew

theorem setLine (h : Passes l m i t c₀ c) {cval : Byte}
    (hcval : (cval ||| 0x80) &&& uartLcrDlab ≠ 0#8) (quot : ℕ) :
    Passes cval m i t c₀ (setLine cval quot c) :=
  (((h.lcr _).latch hcval _).1.latch hcval _).2.lcr cval

theorem follows (h : Passes l m i t c₀ c) (hl : l &&& uartLcrDlab = 0#8)
    (hm : m &&& uartMcrLoop = 0#8) : Follows i c₀ c ∧ c.uart.thrIpending = t := by
  have hcontrol := h.control
  simp only [SerialState.control, Prod.mk.injEq] at hcontrol
  obtain ⟨hlcr, hmcr, hier, hthr⟩ := hcontrol
  exact ⟨⟨⟨h.live, by rw [hlcr]; exact hl, by rw [hmcr]; exact hm, hier⟩, h.sent, h.arrived⟩, hthr⟩

end Passes

theorem Running.passes {i : Byte} {c : Wire} (h : Running i c.uart) (hon : Healthy c.uart) :
    Passes c.uart.lcr c.uart.mcr i c.uart.thrIpending c c := by
  refine ⟨h.toLive, ?_, hon, rfl, [], (List.append_nil _).symm, (List.append_nil _).symm⟩
  rw [SerialState.control, h.ier]

theorem orIf_and {v bits mask : Byte} (c : Bool) (hv : v &&& mask = 0#8) (hb : bits &&& mask = 0#8) :
    orIf v c bits &&& mask = 0#8 := by
  cases c with
  | false => exact hv
  | true =>
    show (v ||| bits) &&& mask = 0#8
    rw [BitVec.and_comm, BitVec.and_or_distrib_left, BitVec.and_comm mask, hv, BitVec.and_comm mask,
      hb, BitVec.or_zero]

theorem cval_dlab (t : Termios) : t.cval &&& uartLcrDlab = 0#8 := by
  have hlen : t.csize.wlen &&& uartLcrDlab = 0#8 := by
    cases t.csize <;> decide
  exact orIf_and _ (orIf_and _ (orIf_and _ (orIf_and _ hlen (by decide)) (by decide)) (by decide))
    (by decide)

theorem mcr_loop {m : Mctrl} (h : m.loop = false) : m.mcr &&& 0x1f &&& uartMcrLoop = 0#8 := by
  have hbits : m.mcr &&& uartMcrLoop = 0#8 := by
    have hzero : (0 : Byte) &&& uartMcrLoop = 0#8 := by decide
    unfold Mctrl.mcr
    rw [h]
    show orIf (orIf (orIf (orIf 0 m.rts 0x02) m.dtr 0x01) m.out1 0x04) m.out2 0x08 &&& uartMcrLoop = 0#8
    exact orIf_and _ (orIf_and _ (orIf_and _ (orIf_and _ hzero (by decide)) (by decide)) (by decide))
      (by decide)
  have hmask : (0x1f : Byte) &&& uartMcrLoop = uartMcrLoop := by decide
  rw [BitVec.and_assoc, hmask]
  exact hbits

theorem ignoreStatusMask_low {t : Termios} (h : t.cread = true) :
    t.ignoreStatusMask &&& 0x1e = t.ignoreStatusMask := by
  unfold Termios.ignoreStatusMask
  rw [h]
  cases t.ignpar <;> cases t.ignbrk <;> rfl

theorem fcr_plain (t : Termios) : t.fcr &&& 0x07 = 0x01 := by
  unfold Termios.fcr
  split
  · decide
  · decide

/-- The modem status interrupt is the only one that the settings touch. -/
theorem enabled_ms {v : Byte} (h : Enabled v) (ms : Bool) :
    Enabled (orIf (v &&& ~~~0x08#8) ms 0x08) ∧
    orIf (v &&& ~~~0x08#8) ms 0x08 &&& 0x02 = v &&& 0x02 := by
  have hoff : ∀ x : Byte, x &&& 0x0f = x → x &&& 0x01 ≠ 0#8 →
      ((x &&& ~~~0x08#8) &&& 0x0f = x &&& ~~~0x08#8 ∧ (x &&& ~~~0x08#8) &&& 0x01 ≠ 0#8) ∧
      (x &&& ~~~0x08#8) &&& 0x02 = x &&& 0x02 := by decide
  have hon : ∀ x : Byte, x &&& 0x0f = x → x &&& 0x01 ≠ 0#8 →
      (((x &&& ~~~0x08#8) ||| 0x08) &&& 0x0f = (x &&& ~~~0x08#8) ||| 0x08 ∧
        ((x &&& ~~~0x08#8) ||| 0x08) &&& 0x01 ≠ 0#8) ∧
      ((x &&& ~~~0x08#8) ||| 0x08) &&& 0x02 = x &&& 0x02 := by decide
  cases ms with
  | false =>
    obtain ⟨⟨hlow, hdata⟩, hsame⟩ := hoff v h.low h.data
    exact ⟨⟨hlow, hdata⟩, hsame⟩
  | true =>
    obtain ⟨⟨hlow, hdata⟩, hsame⟩ := hon v h.low h.data
    exact ⟨⟨hlow, hdata⟩, hsame⟩

section
variable {N : ℕ} {t : List Byte} {up : UartPort N} {c : Wire}

theorem updateMctrl_driving (h : Driving t up c) (hon : Healthy c.uart) {m : Mctrl}
    (hm : m.loop = false) : Driving t (uartUpdateMctrl m up c).1 (uartUpdateMctrl m up c).2 ∧
    Healthy (uartUpdateMctrl m up c).2.uart := by
  unfold uartUpdateMctrl
  split
  · have hpass := (h.running.passes hon).mcr m.mcr
    obtain ⟨hfollow, hthr⟩ := hpass.follows h.running.dlab (mcr_loop hm)
    have hkept := h.toKept.follow hfollow h.enable
    refine ⟨⟨⟨⟨hkept.running, h.enable, h.saved, h.ignore, h.noX, hm, h.loadsz, h.noBug, h.ring,
      hkept.chars⟩, hkept.total⟩, h.kicked, fun hset => ?_⟩, hpass.health⟩
    exact hthr.trans (h.armed hset)
  · exact ⟨h, hon⟩

/-- The port as its settings become, with `v` for its interrupts. -/
def settled (u : Termios) (v : Byte) (up : UartPort N) : UartPort N :=
  {up with
    readStatusMask := u.readStatusMask, ignoreStatusMask := u.ignoreStatusMask, ier := v
    lcr := u.cval}

theorem settled_driving {u : Termios} (hread : u.cread = true) {v : Byte} {d : Wire}
    (h : Driving t up c) (hd : Follows v c d) (hv : Enabled v) (hsame : v &&& 0x02 = up.ier &&& 0x02)
    (hthr : d.uart.thrIpending = true) : Driving t (settled u v up) d := by
  have hkept := h.toKept.follow hd hv
  refine ⟨⟨⟨hkept.running, hv, h.saved, ignoreStatusMask_low hread, h.noX, h.noLoop, h.loadsz, h.noBug, h.ring,
    hkept.chars⟩, hkept.total⟩, fun hne hstop hhw => ?_, fun _ => hthr⟩
  show v &&& 0x02 ≠ 0#8
  rw [hsame]
  exact h.kicked hne hstop hhw

/-- The writes that follow that of the interrupts. -/
def lineWrites {σ : Type} [SerialIo σ] (u : Termios) (up : UartPort N) (c : σ) : σ :=
  serialOut uartMcr up.mctrl.mcr (serialOut uartFcr u.fcr (serialOut uartFcr 0x01
    (setLine u.cval (serial8250GetDivisor up u.baud) c)))

theorem doSetTermios_eq {σ : Type} [SerialIo σ] (u : Termios) (up : UartPort N) (c : σ) :
    serial8250DoSetTermios u up c = (settled u (orIf (up.ier &&& ~~~0x08#8) u.enableMs 0x08) up,
      lineWrites u up (serialOut uartIer (orIf (up.ier &&& ~~~0x08#8) u.enableMs 0x08) c)) := rfl

theorem lineWrites_passes {l m i : Byte} {b : Bool} {c₀ : Wire} (h : Passes l m i b c₀ c)
    (u : Termios) (up : UartPort N) :
    Passes u.cval (up.mctrl.mcr &&& 0x1f) i b c₀ (lineWrites u up c) := by
  have hopen : ∀ x : Byte, (x ||| 0x80) &&& uartLcrDlab ≠ 0#8 := by decide
  have hline := h.setLine (hopen u.cval) (serial8250GetDivisor up u.baud)
  have hone : Passes u.cval m i b c₀ (serialOut uartFcr 0x01
      (setLine u.cval (serial8250GetDivisor up u.baud) c)) := hline.fcr (by decide)
  exact (hone.fcr (fcr_plain u)).mcr up.mctrl.mcr

theorem doSetTermios_driving {u : Termios} (hread : u.cread = true) (h : Driving t up c)
    (hon : Healthy c.uart) :
    Driving t (serial8250DoSetTermios u up c).1 (serial8250DoSetTermios u up c).2 ∧
    Healthy (serial8250DoSetTermios u up c).2.uart := by
  obtain ⟨henable, hsame⟩ := enabled_ms h.enable u.enableMs
  obtain ⟨hfollow, hthr⟩ := serialOut_ier h.running henable.low
  have hpass := lineWrites_passes (hfollow.running.passes (healthy_accessed.ier _ c hon)) u up
  rw [doSetTermios_eq]
  generalize lineWrites u up (serialOut uartIer _ c) = d at hpass ⊢
  obtain ⟨hlater, hlast⟩ := hpass.follows (cval_dlab u) (mcr_loop h.noLoop)
  exact ⟨settled_driving hread h (hfollow.trans hlater) henable hsame (hlast.trans hthr), hpass.health⟩

theorem ctsChange_driving (h : Driving t up c) (status : Byte) :
    Driving t (uartHandleCtsChange up status c).1 (uartHandleCtsChange up status c).2 := by
  unfold uartHandleCtsChange
  split
  · split
    · split
      · have hkept : Kept t {up with hwStopped := false} c := h.toKept.frame
        obtain ⟨hk, hkick, hnext⟩ := startTx_kept hkept
        exact ⟨hk, hkick, hnext h.armed⟩
      · exact h
    · split
      · have hkept : Kept t {up with hwStopped := true} c := h.toKept.frame
        exact stopTx_driving hkept (Or.inr (Or.inr rfl))
      · exact h
  · exact h

theorem modemStatus_driving (h : Driving t up c) :
    Driving t (serial8250ModemStatus up c).2.1 (serial8250ModemStatus up c).2.2 := by
  have hext := serialIn_msr h.running
  have hfollow := h.follow hext.toFollows h.enable
  have hkept : Driving t {up with msrSavedFlags := 0} (serialIn uartMsr c).2 :=
    ⟨hfollow.frame, h.kicked, fun hset => hext.thr.trans (h.armed hset)⟩
  unfold serial8250ModemStatus
  dsimp only
  split
  · exact ctsChange_driving hkept _
  · exact hkept

end

/-- With `t` as what it accepted. -/
structure Serving {N : ℕ} (t : List Byte) (p : UartPort N × Wire) : Prop
    extends Driving t p.1 p.2 where
  health : Healthy p.2.uart

section
variable {N : ℕ} {t : List Byte} {up : UartPort N} {c : Wire}

theorem Serving.retune (h : Serving t (up, c)) {u : Termios} (hread : u.cread = true) :
    Serving t ((uartChangeSpeed u up c).1, (uartChangeSpeed u up c).2) := by
  have hflow : Driving t {up with ctsFlow := u.crtscts} c :=
    ⟨h.toKept.frame, h.kicked, h.armed⟩
  obtain ⟨hdrive, hhealth⟩ := doSetTermios_driving hread hflow h.health
  unfold uartChangeSpeed
  generalize serial8250DoSetTermios u _ c = r at hdrive hhealth ⊢
  exact ⟨hdrive, hhealth⟩

theorem Serving.mctrl (h : Serving t (up, c)) {m : Mctrl} (hm : m.loop = false) :
    Serving t ((uartUpdateMctrl m up c).1, (uartUpdateMctrl m up c).2) := by
  obtain ⟨hdrive, hhealth⟩ := updateMctrl_driving h.toDriving h.health hm
  exact ⟨hdrive, hhealth⟩

theorem Serving.speedLines (h : Serving t (up, c)) (old new : Termios) (throttled : Bool) :
    Serving t ((speedLines old new throttled up c).1, (speedLines old new throttled up c).2) := by
  unfold Uart.speedLines
  split
  · exact h.mctrl h.noLoop
  · split
    · exact h.mctrl h.noLoop
    · exact h

theorem Serving.flowChange (h : Serving t (up, c)) (old new : Termios) :
    Serving t ((flowChange old new up c).1, (flowChange old new up c).2) := by
  have hmodem := modemStatus_driving h.toDriving
  have hhealth := healthy_accessed.modemStatus up h.health
  unfold Uart.flowChange
  split
  · have hkept : Kept t {up with hwStopped := false} c := h.toKept.frame
    exact ⟨uartStart_driving hkept h.armed, healthy_accessed.start _ h.health⟩
  · split
    · dsimp only
      generalize serial8250ModemStatus up c = r at hmodem hhealth ⊢
      split
      · have hkept : Kept t {r.2.1 with hwStopped := true} r.2.2 :=
          hmodem.toKept.frame
        exact ⟨stopTx_driving hkept (Or.inr (Or.inr rfl)), healthy_accessed.stopTx _ hhealth⟩
      · exact ⟨hmodem, hhealth⟩
    · exact h

theorem Serving.setTermios (h : Serving t (up, c)) (old : Termios) {new : Termios}
    (hread : new.cread = true) (throttled : Bool) :
    Serving t ((uartSetTermios old new throttled up c).1, (uartSetTermios old new throttled up c).2) := by
  unfold uartSetTermios
  split
  · exact h
  · exact ((h.retune hread).speedLines old new throttled).flowChange old new

end

end CanPci.Uart
