import CanPci.Uart.Chain
import CanPci.Uart.SelfTest

/-!
# Opening a port of the emulated UART

With a silent backend the port that an open leaves is one that the other calls can serve.
-/

namespace CanPci.Uart
open RingFifo Machine

/-- A receiver with nothing in it and nothing to say. -/
structure Blank (s : SerialState) : Prop where
  sound : s.Sound
  status : s.lsr &&& 0x1f = 0#8
  count : s.recvFifo.count = 0
  timeout : s.timeoutIpending = false

/-- A silent wire to such a UART, with what its registers hold; its ledgers are new. -/
structure Ready (lcr mcr ier : Byte) (c : Wire) : Prop where
  silent : c.script = []
  got : c.got = []
  sent : c.sent = []
  blank : Blank c.uart
  lcr : c.uart.lcr = lcr
  mcr : c.uart.mcr = mcr
  ier : c.uart.ier = ier

theorem blank_congr {s t : SerialState} (h : Blank s) (ht : t.Sound) (hview : t.rxView = s.rxView) :
    Blank t := by
  simp only [SerialState.rxView, Prod.mk.injEq] at hview
  obtain ⟨-, hfifo, hlsr, -, hp, -⟩ := hview
  exact ⟨ht, by rw [hlsr]; exact h.status, by rw [hfifo]; exact h.count, hp.trans h.timeout⟩

theorem mask_status {x : Byte} (h : x &&& 0x1f = 0#8) (m : Byte) : (x &&& m) &&& 0x1f = 0#8 := by
  rw [BitVec.and_assoc, BitVec.and_comm m, ← BitVec.and_assoc, h, BitVec.zero_and]

theorem read_blank {s : SerialState} (h : Blank s) (a : ℕ) (ans : Answers) :
    Blank (serialIoportRead s a ans).2.1 := by
  have hsound := read_sound h.sound a ans
  unfold serialIoportRead at hsound ⊢
  split
  · exact h
  · exact blank_congr h h.sound.iir (readIir_view s)
  · exact h
  · exact h
  · have hbit : ∀ y : Byte, y &&& 0x1f = 0#8 → y &&& (uartLsrBi ||| uartLsrOe) = 0#8 := by decide
    have hkeep : (readLsr s).2 = s := if_neg (not_not.mpr (hbit _ h.status))
    rw [hkeep]
    exact h
  · exact blank_congr h (h.sound.msr ans) (readMsr_view s ans)
  · exact h
  · have hrbr := h.sound.rbr
    unfold readRbr at hrbr ⊢
    split
    · exact h
    · rename_i hdlab
      rw [if_neg hdlab] at hrbr
      dsimp only at hrbr ⊢
      by_cases hfe : s.fcr &&& uartFcrFe = 0#8
      · rw [takeByte_rbr hfe] at hrbr ⊢
        exact ⟨hrbr, mask_status h.status _, h.count, h.timeout⟩
      · rw [takeByte_nil hfe h.count] at hrbr ⊢
        exact ⟨hrbr, mask_status h.status _, h.count, rfl⟩

theorem writeFcr_blank {s : SerialState} (h : Blank s) (v : Byte) : Blank (writeFcr s v) := by
  have hsound := h.sound.fcr v
  by_cases hv : s.fcr = v
  · rw [writeFcr, if_pos hv]
    exact h
  · rw [writeFcr_eq hv] at hsound ⊢
    refine ⟨hsound, h.status, ?_, ?_⟩
    · show (fcrRecv s v).count = 0
      by_contra hne
      obtain ⟨-, hsame⟩ := fcrRecv_count v (Nat.pos_of_ne_zero hne)
      exact hne (hsame.trans h.count)
    · show (if flushBits s.fcr v &&& uartFcrRfr ≠ 0#8 then false else s.timeoutIpending) = false
      rw [h.timeout, ite_self]

section
variable {l m i : Byte} {c : Wire} (h : Ready l m i c)
include h

theorem ready_sent {a : ℕ} (ha : a % 8 ≠ 0) (v : Byte) :
    c.sent ++ (serialIoportWrite c.uart a v quietAnswers).2.filterMap Event.sent = [] := by
  rw [write_quiet h.blank.sound (Or.inl ha), h.sent]
  rfl

theorem ready_read (a : ℕ) : Ready l m i (serialIn a c).2 := by
  obtain ⟨hlcr, hmcr, hier⟩ := read_lines c.uart a quietAnswers
  rw [serialIn_silent h.silent]
  exact ⟨h.silent, h.got, h.sent, read_blank h.blank a quietAnswers, hlcr.trans h.lcr, hmcr.trans h.mcr,
    hier.trans h.ier⟩

theorem ready_ier (hdlab : l &&& uartLcrDlab = 0#8) (v : Byte) :
    Ready l m (v &&& 0x0f) (serialOut uartIer v c) := by
  have hsound := h.blank.sound
  have hclosed : c.uart.lcr &&& uartLcrDlab = 0#8 := by
    rw [h.lcr]
    exact hdlab
  have hcontrol := writeIer_control hsound.settled.idle v quietAnswers hclosed
  simp only [SerialState.control, Prod.mk.injEq] at hcontrol
  rw [serialOut_silent h.silent]
  exact ⟨h.silent, h.got, ready_sent h (by decide) v, blank_congr h.blank (hsound.ier v quietAnswers)
    (writeIer_view c.uart v quietAnswers), hcontrol.1.trans h.lcr, hcontrol.2.1.trans h.mcr,
    hcontrol.2.2.1⟩

theorem ready_fcr (v : Byte) : Ready l m i (serialOut uartFcr v c) := by
  have hcontrol := (writeFcr_control c.uart v).1
  simp only [SerialState.control, Prod.mk.injEq] at hcontrol
  obtain ⟨hlcr, hmcr, hier, -⟩ := hcontrol
  rw [serialOut_silent h.silent]
  exact ⟨h.silent, h.got, ready_sent h (by decide) v, writeFcr_blank h.blank v, hlcr.trans h.lcr,
    hmcr.trans h.mcr, hier.trans h.ier⟩

theorem ready_lcr (v : Byte) : Ready v m i (serialOut uartLcr v c) := by
  have hcontrol := writeLcr_control c.uart v
  simp only [SerialState.control, Prod.mk.injEq] at hcontrol
  obtain ⟨hlcr, hmcr, hier, -⟩ := hcontrol
  rw [serialOut_silent h.silent]
  exact ⟨h.silent, h.got, ready_sent h (by decide) v,
    blank_congr h.blank (h.blank.sound.lcr v) (writeLcr_view c.uart v), hlcr,
    hmcr.trans h.mcr, hier.trans h.ier⟩

theorem ready_mcr (v : Byte) : Ready l (v &&& 0x1f) i (serialOut uartMcr v c) := by
  have hcontrol := writeMcr_control c.uart v quietAnswers
  simp only [SerialState.control, Prod.mk.injEq] at hcontrol
  obtain ⟨hlcr, hmcr, hier, -⟩ := hcontrol
  rw [serialOut_silent h.silent]
  exact ⟨h.silent, h.got, ready_sent h (by decide) v,
    blank_congr h.blank (h.blank.sound.mcr v quietAnswers)
    (writeMcr_view c.uart v quietAnswers), hlcr.trans h.lcr, hmcr, hier.trans h.ier⟩

theorem ready_latch (hdlab : l &&& uartLcrDlab ≠ 0#8) (v : Byte) :
    Ready l m i (serialOut uartDll v c) ∧ Ready l m i (serialOut uartDlm v c) := by
  have hopen : c.uart.lcr &&& uartLcrDlab ≠ 0#8 := by
    rw [h.lcr]
    exact hdlab
  have hlatch : ∀ d, Ready l m i {c with
      uart := (serialUpdateParameters {c.uart with divider := d}).1
      sent := c.sent ++
        (serialUpdateParameters {c.uart with divider := d}).2.filterMap Event.sent} := by
    intro d
    have hcontrol := parameters_control {c.uart with divider := d}
    simp only [SerialState.control, Prod.mk.injEq] at hcontrol
    obtain ⟨hlcr, hmcr, hier, -⟩ := hcontrol
    have hsent : c.sent ++ (serialUpdateParameters {c.uart with divider := d}).2.filterMap Event.sent =
        [] := by
      rw [parameters_sent, h.sent]
      rfl
    exact ⟨h.silent, h.got, hsent, blank_congr h.blank (SerialState.Sound.parameters h.blank.sound.frame)
      (parameters_view _), hlcr.trans h.lcr, hmcr.trans h.mcr, hier.trans h.ier⟩
  have hlow : serialIoportWrite c.uart uartDll v quietAnswers = serialUpdateParameters
      {c.uart with divider := (c.uart.divider &&& 0xff00) ||| v.setWidth 16} := by
    show writeThr c.uart v quietAnswers = _
    rw [writeThr, if_pos hopen]
  have hhigh : serialIoportWrite c.uart uartDlm v quietAnswers = serialUpdateParameters
      {c.uart with divider := (c.uart.divider &&& 0x00ff) ||| (v.setWidth 16 <<< 8)} := by
    show writeIer c.uart v quietAnswers = _
    rw [writeIer, if_pos hopen]
  rw [serialOut_silent h.silent, serialOut_silent h.silent, hlow, hhigh]
  exact ⟨hlatch _, hlatch _⟩

theorem ready_clearInterrupts : Ready l m i (clearInterrupts c) :=
  ready_read (ready_read (ready_read (ready_read h _) _) _) _

theorem ready_setLine {cval : Byte} (hcval : (cval ||| 0x80) &&& uartLcrDlab ≠ 0#8) (quot : ℕ) :
    Ready cval m i (setLine cval quot c) :=
  ready_lcr (ready_latch (ready_latch (ready_lcr h _) hcval _).1 hcval _).2 _

end

/-- A closed port's UART: what the last session left in the receiver does not matter. -/
structure Closed (c : Wire) : Prop where
  silent : c.script = []
  got : c.got = []
  sent : c.sent = []
  sound : c.uart.Sound
  bits : c.uart.lsr &&& 0x0c = 0#8
  dlab : c.uart.lcr &&& uartLcrDlab = 0#8

theorem writeFcr_flushed {s : SerialState} {v : Byte} (hv : s.fcr ≠ v)
    (hr : flushBits s.fcr v &&& uartFcrRfr ≠ 0#8) : (writeFcr s v).recvFifo.count = 0 ∧
    (writeFcr s v).timeoutIpending = false ∧ (writeFcr s v).fcr = flushBits s.fcr v &&& 0xc9 := by
  rw [writeFcr_eq hv]
  refine ⟨?_, if_pos hr, rfl⟩
  show (fcrRecv s v).count = 0
  by_contra hne
  exact hr (fcrRecv_count v (Nat.pos_of_ne_zero hne)).1

/-- The writes of `serial8250_clear_fifos`, as the UART sees them. -/
def cleared (s : SerialState) : SerialState := writeFcr (writeFcr (writeFcr s 0x01) 0x07) 0

theorem cleared_fields (s : SerialState) : (cleared s).recvFifo.count = 0 ∧
    (cleared s).timeoutIpending = false ∧ (cleared s).fcr = 0#8 ∧ (cleared s).lsr = s.lsr ∧
    (cleared s).control = s.control := by
  have hone : (writeFcr s 0x01).fcr = 0x01 := by
    by_cases hv : s.fcr = 0x01
    · rw [writeFcr, if_pos hv]
      exact hv
    · have hbit : ∀ x : Byte, flushBits x 0x01 &&& 0xc9 = 0x01 := by decide
      rw [writeFcr_eq hv]
      exact hbit s.fcr
  have htwo : (writeFcr (writeFcr s 0x01) 0x07).fcr = 0x01 := by
    have hne : (writeFcr s 0x01).fcr ≠ 0x07 := by
      rw [hone]
      decide
    rw [writeFcr_eq hne, hone]
    rfl
  have hne : (writeFcr (writeFcr s 0x01) 0x07).fcr ≠ 0 := by
    rw [htwo]
    decide
  have hflush : flushBits (writeFcr (writeFcr s 0x01) 0x07).fcr 0 &&& uartFcrRfr ≠ 0#8 := by
    rw [htwo]
    decide
  obtain ⟨hcount, htimeout, hfcr⟩ := writeFcr_flushed hne hflush
  obtain ⟨hcontrol₁, hlsr₁⟩ := writeFcr_control s 0x01
  obtain ⟨hcontrol₂, hlsr₂⟩ := writeFcr_control (writeFcr s 0x01) 0x07
  obtain ⟨hcontrol₃, hlsr₃⟩ := writeFcr_control (writeFcr (writeFcr s 0x01) 0x07) 0
  refine ⟨hcount, htimeout, ?_, hlsr₃.trans (hlsr₂.trans hlsr₁),
    hcontrol₃.trans (hcontrol₂.trans hcontrol₁)⟩
  unfold cleared
  rw [hfcr, htwo]
  rfl

/-- With the reads of the status and of the data port they empty the receiver. -/
theorem closed_blank {c : Wire} (h : Closed c) :
    Ready c.uart.lcr c.uart.mcr c.uart.ier (clearInterrupts (serial8250ClearFifos c)) := by
  obtain ⟨hcount, htimeout, hfcr, hlsr, hcontrol⟩ := cleared_fields c.uart
  simp only [SerialState.control, Prod.mk.injEq] at hcontrol
  obtain ⟨hlcr, hmcr, hier, -⟩ := hcontrol
  have hsound : (cleared c.uart).Sound := ((h.sound.fcr 0x01).fcr 0x07).fcr 0
  have hclear : serial8250ClearFifos c = {c with uart := cleared c.uart} := by
    have hout : ∀ (d : Wire) (v : Byte), d.script = [] →
        serialOut uartFcr v d = {d with uart := writeFcr d.uart v} := by
      intro d v hd
      rw [serialOut_silent hd]
      show {d with uart := writeFcr d.uart v, sent := d.sent ++ []} = _
      rw [List.append_nil]
    unfold serial8250ClearFifos
    rw [hout c _ h.silent, hout {c with uart := writeFcr c.uart 0x01} _ h.silent,
      hout {c with uart := writeFcr (writeFcr c.uart 0x01) (0x01 ||| 0x02 ||| 0x04)} _ h.silent]
    rfl
  obtain ⟨y, l, hstatus⟩ := readLsr_eq (cleared c.uart)
  have hnext : (readLsr (cleared c.uart)).2.Sound := hsound.lsr
  have hbyte : readRbr (readLsr (cleared c.uart)).2 = ((takeByte (readLsr (cleared c.uart)).2).1,
      serialUpdateIrq (takeByte (readLsr (cleared c.uart)).2).2,
      (readRbr (readLsr (cleared c.uart)).2).2.2) := by
    have hdlab : (readLsr (cleared c.uart)).2.lcr &&& uartLcrDlab = 0#8 := by
      rw [hstatus]
      exact hlcr ▸ h.dlab
    rw [readRbr, if_neg (not_not.mpr hdlab)]
  have hfe : (readLsr (cleared c.uart)).2.fcr &&& uartFcrFe = 0#8 := by
    have hoff : (0#8 : Byte) &&& uartFcrFe = 0#8 := by decide
    rw [hstatus]
    exact hfcr ▸ hoff
  have hrx : (readRbr (readLsr (cleared c.uart)).2).2.1.Sound := hnext.rbr
  have hread : Ready c.uart.lcr c.uart.mcr c.uart.ier
      (serialIn uartRx (serialIn uartLsr (serial8250ClearFifos c)).2).2 := by
    have hquiet : ({c with uart := cleared c.uart} : Wire).script = [] := h.silent
    rw [hclear, serialIn_silent (silent_accessed.read uartLsr _ hquiet), serialIn_silent hquiet]
    show Ready _ _ _ {c with uart := (readRbr (readLsr (cleared c.uart)).2).2.1}
    rw [hbyte, takeByte_rbr hfe, hstatus] at hrx ⊢
    refine ⟨h.silent, h.got, h.sent, ⟨hrx, ?_, hcount, htimeout⟩, hlcr, hmcr, hier⟩
    have hbit : ∀ x : Byte, x &&& 0x0c = 0#8 →
        (x &&& ~~~(uartLsrBi ||| uartLsrOe) &&& ~~~(uartLsrDr ||| uartLsrBi)) &&& 0x1f = 0#8 := by
      decide
    exact hbit _ (by rw [hlsr]; exact h.bits)
  exact ready_read (ready_read hread uartIir) uartMsr

section
variable {N : ℕ} (flags : PortFlags)

theorem testThre_ready {l m i : Byte} (hdlab : l &&& uartLcrDlab = 0#8) (up : UartPort N) {c : Wire}
    (h : Ready l m i c) : ∃ j, Ready l m j (testThre flags up c).2 := by
  unfold testThre
  split
  · obtain ⟨hwait, -⟩ :=
      waitForXmitr_reads flags (P := Ready l m i) (fun a _ hc => ready_read hc a) 0x20 up h
    have hone := ready_read (ready_ier hwait hdlab 0x02) uartIir
    have htwo := ready_read (ready_ier (ready_ier hone hdlab 0) hdlab 0x02) uartIir
    dsimp only
    split
    · exact ⟨_, ready_ier htwo hdlab 0⟩
    · exact ⟨_, ready_ier htwo hdlab 0⟩
  · exact ⟨i, h⟩

theorem testTxen_ready {l m i : Byte} (hdlab : l &&& uartLcrDlab = 0#8) (up : UartPort N) {c : Wire}
    (h : Ready l m i c) : ∃ j, Ready l m j (testTxen flags up c).2 := by
  unfold testTxen
  split
  · exact ⟨i, h⟩
  · exact ⟨_, ready_ier (ready_read (ready_read (ready_ier h hdlab 0x02) uartLsr) uartIir) hdlab 0⟩

theorem startupFound_ready {l m i : Byte} (hdlab : l &&& uartLcrDlab = 0#8) (up : UartPort N)
    {c : Wire} (h : Ready l m i c) : ∃ m', Ready 0x03 m' 0x05 (startupFound flags up c).2 := by
  have hclosed : (0x03 : Byte) &&& uartLcrDlab = 0#8 := by decide
  obtain ⟨j, hthre⟩ := testThre_ready flags hdlab up h
  have hlcr := ready_lcr hthre 0x03
  unfold startupFound
  dsimp only
  split
  · obtain ⟨k, htxen⟩ := testTxen_ready flags hclosed
      {(testThre flags up c).1 with mctrl := {(testThre flags up c).1.mctrl with out2 := true}}
      (ready_mcr hlcr _)
    exact ⟨_, ready_ier (ready_clearInterrupts htxen) hclosed 0x05⟩
  · obtain ⟨k, htxen⟩ := testTxen_ready flags hclosed (testThre flags up c).1 (ready_mcr hlcr _)
    exact ⟨_, ready_ier (ready_clearInterrupts htxen) hclosed 0x05⟩

theorem Blank.live {s : SerialState} (h : Blank s) : Live s := by
  have hbit : ∀ x : Byte, x &&& 0x1f = 0#8 → x &&& uartLsrDr = 0#8 ∧ x &&& uartLsrOe = 0#8 ∧
      x &&& uartLsrIntAny = 0#8 := by decide
  obtain ⟨hdr, hoe, hany⟩ := hbit _ h.status
  exact ⟨⟨h.sound, fun _ hset => absurd hdr hset, hoe⟩, hany⟩

theorem Blank.waiting {s : SerialState} (h : Blank s) : s.waiting = [] := by
  have hbit : ∀ x : Byte, x &&& 0x1f = 0#8 → x &&& uartLsrDr = 0#8 := by decide
  by_cases hfe : s.fcr &&& uartFcrFe = 0#8
  · exact waiting_none hfe (hbit _ h.status)
  · rw [waiting_fifo hfe]
    exact List.length_eq_zero_iff.mp ((SerialFIFO.items_length _).trans h.count)

theorem Blank.prompt {s : SerialState} (h : Blank s) : Prompt s := by
  refine ⟨h.sound, fun hpos => absurd h.count (Nat.ne_of_gt hpos), fun _ => h.count, fun hset => ?_⟩
  rw [h.timeout] at hset
  cases hset

theorem ready_on {l m i : Byte} {c : Wire} (h : Ready l m i c) {v : Byte} (hv : v &&& 0x07 = 0x01) :
    Healthy (serialOut uartFcr v c).uart := by
  have hset : ∀ x : Byte, x &&& 0x07 = 0x01 → x &&& uartFcrFe ≠ 0#8 := by decide
  rw [serialOut_silent h.silent]
  exact writeFcr_on h.blank.prompt (hset v hv)

theorem lineWrites_ready {l m i : Byte} {c : Wire} (h : Ready l m i c) {N : ℕ} (u : Termios)
    (up : UartPort N) : Ready u.cval (up.mctrl.mcr &&& 0x1f) i (lineWrites u up c) ∧
    Healthy (lineWrites u up c).uart := by
  have hopen : ∀ x : Byte, (x ||| 0x80) &&& uartLcrDlab ≠ 0#8 := by decide
  have hline := ready_setLine h (hopen u.cval) (serial8250GetDivisor up u.baud)
  unfold lineWrites
  generalize setLine u.cval (serial8250GetDivisor up u.baud) c = d at hline ⊢
  have hone := ready_fcr hline 0x01
  exact ⟨ready_mcr (ready_fcr hone u.fcr) up.mctrl.mcr,
    serialOut_healthy (ready_on hone (fcr_plain u)) (by decide) up.mctrl.mcr⟩

/-- What an open starts from: a port that nobody has open, with a tty of its own. -/
structure Fresh (up : UartPort N) : Prop where
  noX : up.xChar = 0#8
  noBug : up.bugThre = false
  loop : up.mctrl.loop = false
  going : up.hwStopped = false
  flip : up.flip = []

/-- What an opened port must have for the other calls. -/
structure Configured (u : UartPort N) : Prop where
  enable : Enabled u.ier
  off : u.ier &&& 0x02 = 0#8
  saved : u.lsrSavedFlags = 0#8
  ignore : u.ignoreStatusMask &&& 0x1e = u.ignoreStatusMask
  noX : u.xChar = 0#8
  noLoop : u.mctrl.loop = false
  loadsz : u.txLoadsz = 16
  noBug : u.bugThre = false
  ring : u.xmit.Consistent
  empty : u.xmit.head = u.xmit.tail
  flip : u.flip = []

theorem ready_still {l m : Byte} {u : UartPort N} {d : Wire} (h : Ready l m u.ier d)
    (hhealth : Healthy d.uart) (hl : l &&& uartLcrDlab = 0#8) (hm : m &&& uartMcrLoop = 0#8)
    (hu : Configured u) : Still [] (u, d) := by
  have hrun : Running u.ier d.uart :=
    ⟨h.blank.live, by rw [h.lcr]; exact hl, by rw [h.mcr]; exact hm, h.ier⟩
  have hchars : u.flip ++ d.uart.waiting.map plain = d.got.map plain := by
    rw [h.blank.waiting, hu.flip, h.got]
    rfl
  have hnil : d.sent ++ u.xmit.items = [] := by
    rw [h.sent, (CircBuf.empty_iff hu.ring).mp hu.empty]
    rfl
  exact ⟨⟨⟨⟨⟨hrun, hu.enable, hu.saved, hu.ignore, hu.noX, hu.noLoop, hu.loadsz, hu.noBug, hu.ring, hchars⟩,
    hnil⟩, fun hne => absurd hu.empty hne, fun hset => absurd hu.off hset⟩, hhealth⟩, h.silent⟩

theorem changeSpeed_still {u : Termios} {up : UartPort N} {m : Byte}
    {c : Wire} (h : Ready 0x03 m 0x05 c) (hier : up.ier = 0x05)
    (hup : ∀ v, Enabled v → v &&& 0x02 = 0#8 →
      Configured (settled u v {up with ctsFlow := u.crtscts})) :
    Still [] (uartChangeSpeed u up c) := by
  have hfive : Enabled 0x05 := ⟨by decide, by decide⟩
  obtain ⟨henable, hsame⟩ := enabled_ms hfive u.enableMs
  have hready := ready_ier h (by decide) (orIf (0x05 &&& ~~~0x08#8) u.enableMs 0x08)
  rw [henable.low] at hready
  have hconf := hup _ henable (hsame.trans (by decide))
  obtain ⟨hline, hhealth⟩ := lineWrites_ready hready u {up with ctsFlow := u.crtscts}
  rw [uartChangeSpeed, doSetTermios_eq, hier]
  exact ready_still hline hhealth (cval_dlab u) (mcr_loop hconf.noLoop) hconf

theorem startup_ready (up : UartPort N) {c : Wire} (h : Closed c) : ∃ m d,
    serial8250Startup flags up c = some (startedPort flags {up with txLoadsz := 16}, d) ∧
    Ready 0x03 m 0x05 d := by
  have hblank := closed_blank h
  have hsteady : Steady c := ⟨h.sound, h.dlab⟩
  have hfound : ∀ {e : Wire}, Ready c.uart.lcr c.uart.mcr c.uart.ier e → ∃ m d,
      some (startupFound flags {up with txLoadsz := 16} e) =
        some (startedPort flags {up with txLoadsz := 16}, d) ∧ Ready 0x03 m 0x05 d := by
    intro e he
    obtain ⟨m, hready⟩ := startupFound_ready flags h.dlab {up with txLoadsz := 16} he
    have hport := startupFound_finds flags {up with txLoadsz := 16}
      ⟨he.blank.sound, by rw [he.lcr]; exact h.dlab⟩
    exact ⟨m, (startupFound flags {up with txLoadsz := 16} e).2,
      congrArg some (Prod.ext hport rfl), hready⟩
  unfold serial8250Startup
  dsimp only
  split
  · exact hfound hblank
  · have hpresent : (serialIn uartLsr (clearInterrupts (serial8250ClearFifos c))).1 ≠ 0xff := by
      have hbit : ∀ x : Byte, x &&& 0x1f = 0#8 → x ≠ 0xff := by decide
      rw [serialIn_silent hblank.silent]
      exact hbit _ hblank.blank.status
    rw [if_neg hpresent]
    exact hfound (ready_read hblank uartLsr)

theorem startedPort_configured (hN : 0 < N) (hthre : (flags.irq && flags.bugThre) = false)
    {u : Termios} (hread : u.cread = true)
    {up : UartPort N} (hup : Fresh up) {v : Byte} (henable : Enabled v) (hoff : v &&& 0x02 = 0#8) :
    Configured (settled u v {startedPort flags
      {up with xmit := {up.xmit with head := 0, tail := 0}, txLoadsz := 16} with
        ctsFlow := u.crtscts}) := by
  refine ⟨henable, hoff, rfl, ignoreStatusMask_low hread, hup.noX, ?_, rfl, ?_, ⟨hN, hN⟩, rfl,
    hup.flip⟩
  · show (if flags.irq = true then {up.mctrl with out2 := true} else up.mctrl).loop = false
    split
    · exact hup.loop
    · exact hup.loop
  · show (up.bugThre || flags.irq && flags.bugThre) = false
    rw [hup.noBug, hthre]
    rfl

theorem Still.hold {t : List Byte} {p : UartPort N × Wire} (h : Still t p) :
    Still t ({p.1 with hwStopped := true}, p.2) :=
  ⟨⟨⟨h.toKept.frame, fun _ _ hhw => Bool.noConfusion hhw, h.armed⟩, h.health⟩, h.silent⟩

theorem modemStatus_still {t : List Byte} {p : UartPort N × Wire} (h : Still t p) :
    Still t (serial8250ModemStatus p.1 p.2).2 :=
  ⟨⟨modemStatus_driving h.toDriving, healthy_accessed.modemStatus p.1 h.health⟩,
    silent_accessed.modemStatus p.1 h.silent⟩

theorem portStartup_still (hN : 0 < N) (hthre : (flags.irq && flags.bugThre) = false)
    {u : Termios} (hread : u.cread = true) {up : UartPort N} (hup : Fresh up) {c : Wire}
    (h : Closed c) :
    ∃ r, uartPortStartup flags u up c = some r ∧ Still [] r := by
  obtain ⟨m, d, heq, hready⟩ :=
    startup_ready flags {up with xmit := {up.xmit with head := 0, tail := 0}} h
  have hstill := changeSpeed_still hready rfl
    fun v hv hoff => startedPort_configured flags hN hthre hread hup hv hoff
  unfold uartPortStartup
  rw [heq]
  dsimp only
  generalize uartChangeSpeed u _ d = p at hstill ⊢
  have hmodem := modemStatus_still hstill
  split
  · split
    · exact ⟨_, rfl, hmodem.hold⟩
    · exact ⟨_, rfl, hmodem⟩
  · exact ⟨_, rfl, hstill⟩

end

end CanPci.Uart
