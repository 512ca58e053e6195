import CanPci.Uart.Link
import CanPci.Uart.Timeout

/-!
# One interrupt with a silent backend

When nothing happens behind the UART, one call of the port's handler takes every byte that
waits, sends what the transmitter takes at a time, and leaves the line low unless there is
more to send.
-/

namespace CanPci.Uart
open RingFifo Machine

/-- The driver reads any port and writes two. -/
structure Accessed {σ : Type} [SerialIo σ] (P : σ → Prop) : Prop where
  read : ∀ a c, P c → P (serialIn a c).2
  ier : ∀ v c, P c → P (serialOut uartIer v c)
  tx : ∀ v c, P c → P (serialOut uartTx v c)

namespace Accessed
variable {σ : Type} [SerialIo σ] {N : ℕ} {P : σ → Prop} (h : Accessed P) {c : σ}
include h

theorem stopTx (up : UartPort N) (hc : P c) : P (stopTx up c).2 := by
  unfold Uart.stopTx
  split
  · exact h.ier _ c hc
  · exact hc

theorem sendChars (up : UartPort N) (n : ℕ) (hc : P c) : P (sendChars up c n).2 := by
  induction n generalizing up c with
  | zero => exact h.tx _ c hc
  | succ n ih =>
    rw [Uart.sendChars]
    dsimp only
    split
    · exact h.tx _ c hc
    · exact ih _ (h.tx _ c hc)

theorem txChars (up : UartPort N) (hc : P c) : P (serial8250TxChars up c).2 := by
  have hsend := h.sendChars up (up.txLoadsz - 1) hc
  unfold serial8250TxChars
  split
  · exact h.tx _ c hc
  · split
    · exact h.stopTx _ hc
    · split
      · exact h.stopTx _ hc
      · dsimp only
        split
        · exact h.stopTx _ hsend
        · exact hsend

theorem startTx (up : UartPort N) (hc : P c) : P (serial8250StartTx up c).2 := by
  have hset := h.ier (up.ier ||| 0x02) c hc
  have hlsr := h.read uartLsr _ hset
  unfold serial8250StartTx
  split
  · dsimp only
    split
    · split
      · exact h.txChars _ hlsr
      · exact hlsr
    · exact hset
  · exact hc

theorem start (up : UartPort N) (hc : P c) : P (uartStart up c).2 := by
  unfold uartStart
  split
  · exact h.startTx _ hc
  · exact hc

theorem takeChar (lsr : Byte) (hc : P c) : P (takeChar lsr c).2 := by
  unfold Uart.takeChar
  split
  · exact h.read uartRx c hc
  · exact hc

theorem rxChars (up : UartPort N) (n : ℕ) (lsr : Byte) (hc : P c) : P (rxChars up lsr c n).2.2 := by
  induction n generalizing up lsr c with
  | zero => exact h.read uartLsr _ (h.takeChar lsr hc)
  | succ n ih =>
    have hone : P (rxChar up lsr c).2.2 := h.read uartLsr _ (h.takeChar lsr hc)
    rw [Uart.rxChars]
    dsimp only
    split
    · exact ih _ _ hone
    · exact hone

theorem ctsChange (up : UartPort N) (status : Byte) (hc : P c) : P (uartHandleCtsChange up status c).2 := by
  unfold uartHandleCtsChange
  split
  · split
    · split
      · exact h.startTx _ hc
      · exact hc
    · split
      · exact h.stopTx _ hc
      · exact hc
  · exact hc

theorem modemStatus (up : UartPort N) (hc : P c) : P (serial8250ModemStatus up c).2.2 := by
  have hmsr := h.read uartMsr c hc
  unfold serial8250ModemStatus
  dsimp only
  split
  · exact h.ctsChange _ _ hmsr
  · exact hmsr

theorem rxPhase (up : UartPort N) (hc : P c) : P (rxPhase up c).2.2 := by
  have hlsr := h.read uartLsr c hc
  unfold Uart.rxPhase
  dsimp only
  split
  · exact h.rxChars _ 256 _ hlsr
  · exact hlsr

theorem handleIrq (up : UartPort N) (iir : Byte) (hc : P c) :
    P (serial8250HandleIrq up iir c).2.2 := by
  have hmodem := h.modemStatus (Uart.rxPhase up c).2.1 (h.rxPhase up hc)
  unfold serial8250HandleIrq
  split
  · exact hc
  · show P (if (Uart.rxPhase up c).1 &&& 0x20 ≠ 0#8 then
        serial8250TxChars
          (serial8250ModemStatus (Uart.rxPhase up c).2.1 (Uart.rxPhase up c).2.2).2.1
          (serial8250ModemStatus (Uart.rxPhase up c).2.1 (Uart.rxPhase up c).2.2).2.2
      else (serial8250ModemStatus (Uart.rxPhase up c).2.1 (Uart.rxPhase up c).2.2).2).2
    split
    · exact h.txChars _ hmodem
    · exact hmodem

theorem defaultHandleIrq (up : UartPort N) (hc : P c) :
    P (serial8250DefaultHandleIrq up c).2.2 :=
  h.handleIrq up _ (h.read uartIir c hc)

end Accessed

section
variable {I : SerialState → Prop}
  (hstep : ∀ s a, I s → Ordinary a → I (step s a).1) {c : Wire}
include hstep

theorem backend_invariant (hc : I c.uart) (b : Backend) : I (c.backend b).uart := by
  cases b with
  | data bs =>
    unfold Wire.backend
    dsimp only
    split
    · exact hc
    · exact hstep _ _ hc trivial
  | fifoTimeout => exact hstep _ _ hc trivial
  | pollModem ans => exact hstep _ _ hc trivial

theorem advance_invariant (hc : I c.uart) : I c.advance.2.uart := by
  have hall : ∀ (bs : List Backend) (d : Wire), I d.uart → I (d.backendAll bs).uart := by
    intro bs
    induction bs with
    | nil => exact fun d hd => hd
    | cons b bs ih => exact fun d hd => ih _ (backend_invariant hstep hd b)
  unfold Wire.advance
  split
  · exact hc
  · exact hall _ _ hc

theorem step_accessed : Accessed fun c : Wire => I c.uart :=
  ⟨fun a c hc => hstep _ (.read a c.advance.1) (advance_invariant hstep hc) trivial,
    fun v c hc => hstep _ (.write uartIer v c.advance.1) (advance_invariant hstep hc) (by simp [Ordinary, uartIer]),
    fun v c hc => hstep _ (.write uartTx v c.advance.1) (advance_invariant hstep hc) (by simp [Ordinary, uartTx])⟩

end

/-- Reported timeouts stay honest, and bytes stay under way to be reported. -/
structure Prompt (s : SerialState) : Prop where
  sound : s.Sound
  timed : s.Timed
  honest : s.Honest

theorem step_prompt (s : SerialState) (a : Input) (h : Prompt s) (ha : a ≠ .eventBreak)
    (hr : a ≠ .reset) : Prompt (step s a).1 :=
  ⟨step_sound s a h.sound, step_timed h.sound h.timed ha, step_honest h.sound h.honest ha hr⟩

theorem prompt_accessed : Accessed fun c : Wire => Prompt c.uart :=
  step_accessed fun s a h ha => step_prompt s a h ha.unbroken.1 ha.unbroken.2

/-! ### Silence -/

theorem advance_silent {c : Wire} (h : c.script = []) : c.advance = (quietAnswers, c) := by
  rw [Wire.advance, h]

theorem serialIn_silent {c : Wire} (h : c.script = []) (a : ℕ) :
    serialIn a c = ((serialIoportRead c.uart a quietAnswers).1,
      {c with uart := (serialIoportRead c.uart a quietAnswers).2.1}) := by
  show Wire.read a c = _
  rw [Wire.read, advance_silent h]

theorem serialOut_silent {c : Wire} (h : c.script = []) (a : ℕ) (v : Byte) :
    serialOut a v c = {c with
      uart := (serialIoportWrite c.uart a v quietAnswers).1
      sent := c.sent ++ (serialIoportWrite c.uart a v quietAnswers).2.filterMap Event.sent} := by
  show Wire.write a v c = _
  rw [Wire.write, advance_silent h]

theorem silent_accessed : Accessed fun c : Wire => c.script = [] :=
  ⟨fun a c h => by rw [serialIn_silent h]; exact h, fun v c h => by rw [serialOut_silent h]; exact h,
    fun v c h => by rw [serialOut_silent h]; exact h⟩

/-- Nothing waits, nothing happens, and no modem line has changed. -/
structure Quieted (c : Wire) : Prop where
  silent : c.script = []
  live : Live c.uart
  dlab : c.uart.lcr &&& uartLcrDlab = 0#8
  loop : c.uart.mcr &&& uartMcrLoop = 0#8
  honest : c.uart.Honest
  empty : c.uart.waiting = []
  msr : c.uart.msr &&& uartMsrAnyDelta = 0#8

theorem Quieted.keep {c : Wire} {t : SerialState} (h : Quieted c) (ht : t.Sound)
    (hview : t.rxView = c.uart.rxView) (hlcr : t.lcr = c.uart.lcr) (hmcr : t.mcr = c.uart.mcr)
    (hmsr : t.msr = c.uart.msr) (sent : List Byte) : Quieted {c with uart := t, sent := sent} := by
  obtain ⟨hexact, hwait⟩ := h.live.exact.keep ht hview
  refine ⟨h.silent, ⟨hexact, ?_⟩, ?_, ?_, honest_congr hview h.honest, hwait.trans h.empty, ?_⟩
  · show t.lsr &&& uartLsrIntAny = 0#8
    rw [view_lsr hview]
    exact h.live.clean
  · show t.lcr &&& uartLcrDlab = 0#8
    rw [hlcr]
    exact h.dlab
  · show t.mcr &&& uartMcrLoop = 0#8
    rw [hmcr]
    exact h.loop
  · show t.msr &&& uartMsrAnyDelta = 0#8
    rw [hmsr]
    exact h.msr

theorem msl_quiet (s : SerialState) : serialUpdateMsl quietAnswers s =
    {s with modemStatusPoll := false, pollMsl := -1} := rfl

theorem writeIer_msr (s : SerialState) (val : Byte) (hdlab : s.lcr &&& uartLcrDlab = 0#8) :
    (writeIer s val quietAnswers).1.msr = s.msr := by
  rw [writeIer, if_neg (not_not.mpr hdlab)]
  dsimp only
  rw [msl_quiet]
  split_ifs <;> rfl

/-- Without modem lines behind it, a read of the status clears what it reports. -/
theorem readMsr_quiet {s : SerialState} (hloop : s.mcr &&& uartMcrLoop = 0#8) :
    (readMsr s quietAnswers).2.msr &&& uartMsrAnyDelta = 0#8 ∧
    (s.msr &&& uartMsrAnyDelta = 0#8 → (readMsr s quietAnswers).2.msr = s.msr) := by
  have hbit : ∀ x : Byte, (x &&& 0xf0) &&& uartMsrAnyDelta = 0#8 := by decide
  have hsame : (if 0 ≤ s.pollMsl then serialUpdateMsl quietAnswers s else s).msr = s.msr := by
    rw [msl_quiet]
    split
    · rfl
    · rfl
  unfold readMsr
  rw [if_neg (not_not.mpr hloop)]
  dsimp only
  generalize (if 0 ≤ s.pollMsl then serialUpdateMsl quietAnswers s else s) = t at hsame ⊢
  split
  · rename_i hset
    exact ⟨hbit t.msr, fun h => absurd (hsame ▸ h) hset⟩
  · rename_i hset
    exact ⟨not_not.mp hset, fun _ => hsame⟩

theorem readLsr_clean {s : SerialState} (h : s.lsr &&& uartLsrIntAny = 0#8) :
    (readLsr s).2 = s := by
  have hbit : ∀ y : Byte, y &&& uartLsrIntAny = 0#8 → ¬ y &&& (uartLsrBi ||| uartLsrOe) ≠ 0#8 := by
    decide
  exact if_neg (hbit _ h)

theorem takeByte_msr (s : SerialState) : (takeByte s).2.msr = s.msr := by
  obtain ⟨f, m, p, t, heq⟩ := takeByte_eq s
  rw [heq]

theorem readRbr_quieted {c : Wire} (h : Quieted c) :
    Quieted {c with uart := (readRbr c.uart).2.1} := by
  obtain ⟨hexact, hbal⟩ := readRbr_balance h.live.exact h.dlab
  have hstate : (readRbr c.uart).2.1 = serialUpdateIrq (takeByte c.uart).2 := by
    rw [readRbr, if_neg (not_not.mpr h.dlab)]
  have hcontrol := takeByte_control c.uart
  simp only [SerialState.control, Prod.mk.injEq] at hcontrol
  obtain ⟨m, hm⟩ := takeByte_lsr c.uart
  have hmsr : (takeByte c.uart).2.msr = c.uart.msr := takeByte_msr c.uart
  have hhonest : (readRbr c.uart).2.1.Honest := by
    have hbyte := takeByte_honest h.honest
    rw [hstate]
    exact ⟨hbyte.off, hbyte.timeout⟩
  rw [h.empty] at hbal
  rw [hstate] at hexact hbal hhonest ⊢
  refine ⟨h.silent, ⟨hexact, ?_⟩, ?_, ?_, hhonest, (List.append_eq_nil_iff.mp hbal.symm).2, ?_⟩
  · show (takeByte c.uart).2.lsr &&& uartLsrIntAny = 0#8
    rw [hm, BitVec.and_assoc, BitVec.and_comm m, ← BitVec.and_assoc, h.live.clean, BitVec.zero_and]
  · show (takeByte c.uart).2.lcr &&& uartLcrDlab = 0#8
    rw [hcontrol.1]
    exact h.dlab
  · show (takeByte c.uart).2.mcr &&& uartMcrLoop = 0#8
    rw [hcontrol.2.1]
    exact h.loop
  · show (takeByte c.uart).2.msr &&& uartMsrAnyDelta = 0#8
    rw [hmsr]
    exact h.msr

theorem read_quieted {c : Wire} (h : Quieted c) (a : ℕ) : Quieted (serialIn a c).2 := by
  rw [serialIn_silent h.silent]
  dsimp only
  unfold serialIoportRead
  split
  · exact h
  · refine h.keep h.live.exact.sound.iir (readIir_view c.uart) ?_ ?_ ?_ c.sent
    all_goals
      obtain ⟨p, y, q, heq⟩ := readIir_eq c.uart
      rw [heq]
  · exact h
  · exact h
  · rw [readLsr_clean h.live.clean]
    exact h
  · have hcontrol := readMsr_control c.uart quietAnswers
    simp only [SerialState.control, Prod.mk.injEq] at hcontrol
    exact h.keep (h.live.exact.sound.msr quietAnswers) (readMsr_view c.uart quietAnswers)
      hcontrol.1 hcontrol.2.1 ((readMsr_quiet h.loop).2 h.msr) c.sent
  · exact h
  · exact readRbr_quieted h

theorem quieted_accessed : Accessed Quieted := by
  refine ⟨fun a c h => read_quieted h a, fun v c h => ?_, fun v c h => ?_⟩
  · have hcontrol := writeIer_control h.live.exact.sound.settled.idle v quietAnswers h.dlab
    simp only [SerialState.control, Prod.mk.injEq] at hcontrol
    rw [serialOut_silent h.silent]
    exact h.keep (h.live.exact.sound.ier v quietAnswers) (writeIer_view c.uart v quietAnswers)
      hcontrol.1 hcontrol.2.1 (writeIer_msr c.uart v h.dlab) _
  · have hsound := h.live.exact.sound
    obtain ⟨f, retry, -, -, -, heq⟩ :=
      writeThr_eq hsound.settled.idle v quietAnswers h.dlab h.loop
    have hview := writeThr_view hsound v quietAnswers (fun _ => h.loop)
    have hnext := hsound.thr v quietAnswers
    have hwrite : serialIoportWrite c.uart uartTx v quietAnswers = writeThr c.uart v quietAnswers := rfl
    rw [serialOut_silent h.silent, hwrite]
    rw [heq] at hview hnext ⊢
    exact h.keep hnext hview rfl rfl rfl _

theorem waiting_length {s : SerialState} (h : s.Sound) : s.waiting.length ≤ uartFifoLength := by
  have hcount := h.settled.recv.count_le
  unfold SerialState.waiting
  split
  · rw [SerialFIFO.items_length]
    exact hcount
  · split
    · exact Nat.le_add_left 1 15
    · exact Nat.zero_le _

section
variable {N : ℕ} {t : List Byte} {up : UartPort N} {c : Wire}

theorem got_silent (h : c.script = []) (a : ℕ) : (serialIn a c).2.got = c.got := by
  rw [serialIn_silent h]

theorem rxChar_silent (h : Kept t up c) (hs : c.script = [])
    (hdr : c.uart.lsr &&& uartLsrDr ≠ 0#8) :
    (rxChar up c.uart.lsr c).2.2.uart.waiting = c.uart.waiting.tail := by
  obtain ⟨hrun, -, -, new, hgot, hwait⟩ := serialIn_rx h.running hdr
  obtain ⟨new', hgot', hwait'⟩ := (serialIn_lsr hrun).1.arrived
  have htake : takeChar c.uart.lsr c = serialIn uartRx c := if_pos hdr
  have hchar : (rxChar up c.uart.lsr c).2.2 = (serialIn uartLsr (serialIn uartRx c).2).2 := by
    rw [← htake]
    rfl
  have hnil : new = [] := by
    rw [got_silent hs] at hgot
    exact List.self_eq_append_right.mp hgot
  have hnil' : new' = [] := by
    rw [got_silent (silent_accessed.read uartRx c hs)] at hgot'
    exact List.self_eq_append_right.mp hgot'
  rw [hchar, hwait', hnil', List.append_nil]
  rw [hnil, List.append_nil] at hwait
  rw [hwait]
  rfl

theorem rxChars_silent (n : ℕ) (h : Kept t up c) (hs : c.script = [])
    (hdr : c.uart.lsr &&& uartLsrDr ≠ 0#8) (hlen : c.uart.waiting.length ≤ n + 1) :
    (rxChars up c.uart.lsr c n).2.2.uart.waiting = [] := by
  induction n generalizing up c with
  | zero =>
    have htail := rxChar_silent h hs hdr
    rw [rxChars, htail]
    exact List.length_eq_zero_iff.mp (by rw [List.length_tail]; omega)
  | succ n ih =>
    have htail := rxChar_silent h hs hdr
    obtain ⟨hkept, hlsr, -, -⟩ := rxChar_kept h hdr
    have hs' : (rxChar up c.uart.lsr c).2.2.script = [] :=
      silent_accessed.read uartLsr _ (silent_accessed.takeChar _ hs)
    rw [rxChars]
    dsimp only
    split
    · rename_i hmore
      rw [hlsr] at hmore ⊢
      refine ih hkept hs' ((again_iff hkept.running.clean).mp hmore) ?_
      rw [htail, List.length_tail]
      omega
    · rename_i hdone
      rw [hlsr] at hdone
      by_contra hne
      exact hdone ((again_iff hkept.running.clean).mpr
        ((dr_iff_waiting hkept.running.exact).mpr hne))

/-- With nothing waiting, the read of the modem status is the last that is needed. -/
theorem serialIn_msr_quieted {ier : Byte} (h : Running ier c.uart) (hs : c.script = [])
    (hp : Prompt c.uart) (hnil : c.uart.waiting = []) : Quieted (serialIn uartMsr c).2 := by
  have hext := serialIn_msr h
  have hprompt := prompt_accessed.read uartMsr c hp
  have hmsr : (serialIn uartMsr c).2.uart = (readMsr c.uart quietAnswers).2 := by
    rw [serialIn_silent hs]
    rfl
  refine ⟨silent_accessed.read uartMsr c hs, hext.running.toLive, hext.running.dlab,
    hext.running.loop, hprompt.honest, ?_, ?_⟩
  · rw [hmsr, waiting_congr (readMsr_view c.uart quietAnswers)]
    exact hnil
  · rw [hmsr]
    exact (readMsr_quiet h.loop).1

theorem modemStatus_quieted (h : Quieted (serialIn uartMsr c).2) :
    Quieted (serial8250ModemStatus up c).2.2 := by
  unfold serial8250ModemStatus
  dsimp only
  split
  · exact quieted_accessed.ctsChange _ _ h
  · exact h

theorem rxPhase_silent (h : Kept t up c) (hs : c.script = []) :
    (rxPhase up c).2.2.uart.waiting = [] := by
  obtain ⟨hext, hlsr⟩ := serialIn_lsr h.running
  have hkept := h.follow hext.toFollows h.enable
  have hroom : (serialIn uartLsr c).2.uart.waiting.length ≤ 16 :=
    waiting_length hkept.running.exact.sound
  unfold rxPhase
  dsimp only
  rw [hlsr]
  split
  · rename_i hmore
    exact rxChars_silent 256 hkept (silent_accessed.read uartLsr c hs)
      ((again_iff hkept.running.clean).mp hmore) (by omega)
  · rename_i hdone
    by_contra hne
    exact hdone ((again_iff hkept.running.clean).mpr
      ((dr_iff_waiting hkept.running.exact).mpr hne))

/-- The handler leaves nothing to be received and no change to be reported. -/
theorem handleIrq_quieted (h : Kept t up c) (hs : c.script = []) (hp : Prompt c.uart)
    {iir : Byte} (hiir : iir &&& 0x01 = 0#8) : Quieted (serial8250HandleIrq up iir c).2.2 := by
  have hquiet := serialIn_msr_quieted (rxPhase_kept h).1.running (silent_accessed.rxPhase up hs)
    (prompt_accessed.rxPhase up hp) (rxPhase_silent h hs)
  rw [handleIrq_eq h hiir]
  exact quieted_accessed.txChars _ (modemStatus_quieted hquiet)

theorem quieted_irq {ier : Byte} (h : Quieted c) (hrun : Running ier c.uart)
    (hirq : c.uart.irq = true) : ier &&& 0x02 ≠ 0#8 := by
  have hcoh := hrun.exact.sound.coherent.2
  rw [hirq, eq_comm, decide_eq_true_iff] at hcoh
  obtain ⟨cause, hr⟩ := (pending_iff c.uart).mp hcoh
  cases cause with
  | rlsi => exact absurd hrun.clean hr.2
  | cti =>
    have hpos := h.honest.timeout hr.2
    have hfe : c.uart.fcr &&& uartFcrFe ≠ 0#8 := fun hoff =>
      absurd (h.honest.off hoff) (Nat.ne_of_gt hpos)
    have hnil := h.empty
    rw [waiting_fifo hfe] at hnil
    rw [← SerialFIFO.items_length, hnil] at hpos
    exact absurd hpos (Nat.lt_irrefl 0)
  | rdi => exact absurd (hrun.exact.dr_of_nil h.empty) hr.2.1
  | thri =>
    rw [← hrun.ier]
    exact hr.1
  | msi => exact absurd h.msr hr.2

theorem sent_accessed (k : ℕ) : Accessed fun c : Wire => c.script = [] ∧ k ≤ c.sent.length := by
  refine ⟨fun a c hc => ?_, fun v c hc => ?_, fun v c hc => ?_⟩
  · rw [serialIn_silent hc.1]
    exact hc
  · rw [serialOut_silent hc.1]
    refine ⟨hc.1, hc.2.trans ?_⟩
    rw [List.length_append]
    exact Nat.le_add_right _ _
  · rw [serialOut_silent hc.1]
    refine ⟨hc.1, hc.2.trans ?_⟩
    rw [List.length_append]
    exact Nat.le_add_right _ _

theorem sendChars_items (n : ℕ) (h : up.xmit.Consistent) (hne : up.xmit.head ≠ up.xmit.tail)
    (hmore : (sendChars up c n).1.xmit.head ≠ (sendChars up c n).1.xmit.tail) :
    (sendChars up c n).1.xmit.items.length + (n + 1) = up.xmit.items.length := by
  induction n generalizing up c with
  | zero =>
    rw [CircBuf.pop_items h hne]
    rfl
  | succ n ih =>
    rw [sendChars] at hmore ⊢
    dsimp only at hmore ⊢
    split
    · rename_i hnil
      rw [if_pos hnil] at hmore
      exact absurd hnil hmore
    · rename_i hnext
      rw [if_neg hnext] at hmore
      have hrest := ih (CircBuf.pop_consistent h) hnext hmore
      rw [CircBuf.pop_items h hne, List.length_cons, ← hrest]
      omega

theorem stopTx_off : (stopTx up c).1.ier &&& 0x02 = 0#8 := by
  have hmask : ∀ x : Byte, (x &&& ~~~0x02#8) &&& 0x02 = 0#8 := by decide
  unfold stopTx
  split
  · exact hmask up.ier
  · rename_i hoff
    exact not_not.mp hoff

/-- The interrupt stays on only when a whole load has gone out and more is left. -/
theorem txChars_items (h : Kept t up c) (hon : (serial8250TxChars up c).1.ier &&& 0x02 ≠ 0#8) :
    (serial8250TxChars up c).1.xmit.items.length + 16 ≤ up.xmit.items.length := by
  unfold serial8250TxChars at hon ⊢
  rw [if_neg (not_not.mpr h.noX)] at hon ⊢
  split at hon
  · exact absurd stopTx_off hon
  · split at hon
    · exact absurd stopTx_off hon
    · rename_i hnil
      rw [if_neg hnil]
      dsimp only at hon ⊢
      split at hon
      · exact absurd stopTx_off hon
      · rename_i hmore
        rw [if_neg ‹_›, if_neg hmore]
        dsimp only
        have hitems := sendChars_items (up.txLoadsz - 1) h.ring hnil hmore
        have := h.loadsz
        omega

theorem handleIrq_items (h : Kept t up c) (hkick : up.Kicked) (hs : c.script = []) {iir : Byte}
    (hiir : iir &&& 0x01 = 0#8) (hon : (serial8250HandleIrq up iir c).2.1.ier &&& 0x02 ≠ 0#8) :
    (serial8250HandleIrq up iir c).2.1.xmit.items.length + 16 ≤ up.xmit.items.length := by
  obtain ⟨hk, -⟩ := modemStatus_kept (rxPhase_kept h).1 (rxPhase_kicked h hkick)
  have hsent := (sent_accessed c.sent.length).modemStatus (rxPhase up c).2.1
    ((sent_accessed c.sent.length).rxPhase up ⟨hs, le_refl _⟩)
  rw [handleIrq_eq h hiir] at hon ⊢
  have hstep := txChars_items hk hon
  dsimp only at hstep ⊢
  have htotal := congrArg List.length h.total
  have htotal' := congrArg List.length hk.total
  rw [List.length_append] at htotal htotal'
  have := hsent.2
  omega

end

end CanPci.Uart
