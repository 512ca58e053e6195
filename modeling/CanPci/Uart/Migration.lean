import CanPci.Uart.Session

/-!
# Migrating a UART under an open port

`vmstate_serial` leaves out both FIFOs, the transmitter's interrupt and the receive
timeout. What a port has under way at that moment is lost or never reported.
-/

namespace CanPci.Uart
open RingFifo Machine
variable {N : ℕ}

def serialPreSave (s : SerialState) : SerialState := {s with fcrVmstate := s.fcr}

/-- The fields of version 3, loaded into another UART. -/
def vmstateSerial (saved fresh : SerialState) : SerialState :=
  {fresh with
    divider := saved.divider, rbr := saved.rbr, ier := saved.ier, iir := saved.iir, lcr := saved.lcr
    mcr := saved.mcr, lsr := saved.lsr, msr := saved.msr, scr := saved.scr
    fcrVmstate := saved.fcrVmstate}

def serialPostLoad (version : ℕ) (s : SerialState) : SerialState × List Event :=
  let s := if version < 3 then {s with fcrVmstate := 0} else s
  serialUpdateParameters (writeFcr s s.fcrVmstate)

def SerialState.loaded (s : SerialState) : SerialState :=
  vmstateSerial (serialPreSave s) (.init s.baudbase)

/-- To a UART that has been reset. -/
def SerialState.migrate (s : SerialState) : SerialState := (serialPostLoad 3 s.loaded).1

def Wire.migrate (c : Wire) : Wire := {c with uart := c.uart.migrate}

/-- Before the line is brought up to date. -/
def SerialState.arriving (s : SerialState) : SerialState :=
  {s.loaded with
    fcr := flushBits 0 s.fcr &&& 0xc9
    recvFifo := fcrRecv s.loaded s.fcr
    xmitFifo := fcrXmit s.loaded s.fcr
    iir := s.iir ||| uartIirFe
    fifoTimeoutTimer := false
    timeoutIpending := false}

section
variable {s : SerialState} (hfe : s.fcr &&& uartFcrFe ≠ 0#8)
include hfe

theorem arriving_flush : flushBits 0 s.fcr &&& uartFcrRfr ≠ 0#8 := by
  refine flush_of_change fun heq => hfe ?_
  rw [← heq]
  exact BitVec.zero_and

theorem migrate_eq : ∃ t, s.migrate = {serialUpdateIrq s.arriving with charTransmitTime := t} := by
  have hne : s.loaded.fcr ≠ s.fcr := by
    intro heq
    refine hfe ?_
    rw [← heq]
    exact BitVec.zero_and
  have hwrite : writeFcr s.loaded s.fcr = serialUpdateIrq s.arriving := by
    rw [writeFcr_eq hne, if_pos hfe]
    show serialUpdateIrq {s.loaded with
      fcr := flushBits 0 s.fcr &&& 0xc9, recvFifo := fcrRecv s.loaded s.fcr
      xmitFifo := fcrXmit s.loaded s.fcr, iir := s.iir ||| uartIirFe
      fifoTimeoutTimer := if flushBits 0 s.fcr &&& uartFcrRfr ≠ 0#8 then false else false
      timeoutIpending := if flushBits 0 s.fcr &&& uartFcrRfr ≠ 0#8 then false else false} = _
    rw [ite_self]
    rfl
  obtain ⟨t, ht⟩ := serialUpdateParameters_eq (writeFcr s.loaded s.fcr)
  refine ⟨t, ?_⟩
  rw [← hwrite]
  exact ht

theorem arriving_fifo : s.arriving.fcr &&& uartFcrFe ≠ 0#8 ∧ s.arriving.recvFifo.count = 0 := by
  refine ⟨?_, ?_⟩
  · show flushBits 0 s.fcr &&& 0xc9 &&& uartFcrFe ≠ 0#8
    rw [sticky_fe, flushBits_fe]
    exact hfe
  · by_contra hne
    exact arriving_flush hfe (fcrRecv_count s.fcr (Nat.pos_of_ne_zero hne)).1

theorem arriving_settled (h : s.Settled) : s.arriving.Settled := by
  have hzero : SerialFIFO.zero.clear.Consistent := SerialFIFO.clear_consistent _
  refine ⟨⟨h.idle.lsr, ?_, ?_, Or.inl rfl, rfl⟩, fcrRecv_consistent hzero s.fcr, fun _ => ?_,
    fun _ hpos => absurd (arriving_fifo hfe).2 (Nat.ne_of_gt hpos)⟩
  · show (fcrXmit s.loaded s.fcr).Consistent
    unfold fcrXmit
    split
    · exact SerialFIFO.clear_consistent _
    · exact hzero
  · show (fcrXmit s.loaded s.fcr).count = 0
    unfold fcrXmit
    split
    · rfl
    · rfl
  · have hitl : s.arriving.recvFifo.itl = triggerLevel (flushBits 0 s.fcr) := by
      show (fcrRecv s.loaded s.fcr).itl = _
      unfold fcrRecv
      rw [if_pos hfe]
      rfl
    rw [hitl]
    exact triggerLevel_bounds _

theorem migrate_sound (h : s.Settled) : s.migrate.Sound := by
  obtain ⟨t, ht⟩ := migrate_eq hfe
  rw [ht]
  exact (arriving_settled hfe h).sound.frame

theorem migrate_waiting : s.migrate.waiting = [] := by
  obtain ⟨t, ht⟩ := migrate_eq hfe
  obtain ⟨hon, hcount⟩ := arriving_fifo hfe
  have hview : s.migrate.rxView = s.arriving.rxView := by
    rw [ht]
    rfl
  rw [waiting_congr hview, waiting_fifo hon]
  exact List.length_eq_zero_iff.mp ((SerialFIFO.items_length _).trans hcount)

theorem migrate_fields : s.migrate.control = (s.lcr, s.mcr, s.ier, false) ∧ s.migrate.lsr = s.lsr ∧
    s.migrate.msr = s.msr ∧ s.migrate.timeoutIpending = false ∧ s.migrate.recvFifo.count = 0 ∧
    s.migrate.fcr &&& uartFcrFe ≠ 0#8 := by
  obtain ⟨t, ht⟩ := migrate_eq hfe
  obtain ⟨hon, hcount⟩ := arriving_fifo hfe
  rw [ht]
  exact ⟨rfl, rfl, rfl, rfl, hcount, hon⟩

end

theorem migrate_healthy {s : SerialState} (h : Healthy s) : Healthy s.migrate := by
  obtain ⟨-, -, -, htimeout, hcount, hon⟩ := migrate_fields h.on
  refine ⟨⟨migrate_sound h.on h.sound.settled, fun hpos => absurd hcount (Nat.ne_of_gt hpos),
    ⟨fun _ => hcount, fun hset => ?_⟩⟩, hon⟩
  rw [htimeout] at hset
  cases hset

/-- A port survives exactly when it has nothing under way. -/
theorem migrate_serving_iff {t : List Byte} {p : UartPort N × Wire} (h : Serving t p) :
    Serving t (p.1, p.2.migrate) ↔ p.2.uart.waiting = [] ∧ p.1.ier &&& 0x02 = 0#8 := by
  obtain ⟨hcontrol, hlsr, -, -, -, hon⟩ := migrate_fields h.health.on
  have hnone : p.2.migrate.uart.waiting = [] := migrate_waiting h.health.on
  have hhealth : Healthy p.2.migrate.uart := migrate_healthy h.health
  simp only [SerialState.control, Prod.mk.injEq] at hcontrol
  obtain ⟨hlcr, hmcr, hier, hthr⟩ := hcontrol
  refine ⟨fun hserve => ⟨?_, ?_⟩, fun hidle => ?_⟩
  · have hchars := hserve.chars
    rw [hnone, List.map_nil, List.append_nil] at hchars
    have hall : p.1.flip ++ p.2.uart.waiting.map plain = p.1.flip := h.chars.trans hchars.symm
    exact List.map_eq_nil_iff.mp (List.self_eq_append_right.mp hall.symm)
  · by_contra hset
    have harmed : p.2.uart.migrate.thrIpending = true := hserve.armed hset
    rw [hthr] at harmed
    cases harmed
  · obtain ⟨hwait, hoff⟩ := hidle
    have hdr : p.2.uart.lsr &&& uartLsrDr = 0#8 := h.running.exact.dr_of_nil hwait
    have hexact : p.2.uart.migrate.Exact := by
      refine ⟨hhealth.sound, fun _ hset => ?_, ?_⟩
      · rw [hlsr] at hset
        exact absurd hdr hset
      · rw [hlsr]
        exact h.running.exact.noOverrun
    have hrun : Running p.1.ier p.2.uart.migrate :=
      ⟨⟨hexact, by rw [hlsr]; exact h.running.clean⟩, by rw [hlcr]; exact h.running.dlab,
        by rw [hmcr]; exact h.running.loop, hier.trans h.running.ier⟩
    have hchars : p.1.flip ++ p.2.migrate.uart.waiting.map plain = p.2.got.map plain := by
      rw [hnone, ← hwait]
      exact h.chars
    exact ⟨⟨⟨⟨hrun, h.enable, h.saved, h.ignore, h.noX, h.noLoop, h.loadsz, h.noBug, h.ring,
      hchars⟩, h.total⟩, h.kicked, fun hset => absurd hoff hset⟩, hhealth⟩

def migrateAll (w : Ports N) : Ports N := fun i => ((w i).1, (w i).2.migrate)

/-- The line of a migrated port reports a modem line that changed, and nothing else. -/
theorem migrate_irq {t : List Byte} {p : UartPort N × Wire} (h : Serving t p) :
    p.2.migrate.uart.irq = true ↔
      p.1.ier &&& 0x08 ≠ 0#8 ∧ p.2.uart.msr &&& uartMsrAnyDelta ≠ 0#8 := by
  have hsound := migrate_sound h.health.on h.health.sound.settled
  obtain ⟨hcontrol, hlsr, hmsr, htimeout, hcount, hon⟩ := migrate_fields h.health.on
  simp only [SerialState.control, Prod.mk.injEq] at hcontrol
  obtain ⟨-, -, hier, hthr⟩ := hcontrol
  show p.2.uart.migrate.irq = true ↔ _
  rw [hsound.coherent.2, decide_eq_true_iff]
  refine (pending_iff p.2.uart.migrate).trans ⟨fun hreq => ?_, fun hline => ?_⟩
  · obtain ⟨cause, hr⟩ := hreq
    cases cause with
    | rlsi =>
      have hclean := h.running.clean
      rw [← hlsr] at hclean
      exact absurd hclean hr.2
    | cti => exact absurd (htimeout.symm.trans hr.2) Bool.false_ne_true
    | rdi =>
      have htrigger := hsound.settled.trigger hon
      rcases hr.2.2 with hoff | hlevel
      · exact absurd hoff hon
      · omega
    | thri => exact absurd (hthr.symm.trans hr.2) Bool.false_ne_true
    | msi =>
      rw [SerialState.Present, hier, hmsr, h.running.ier] at hr
      exact hr
  · refine ⟨.msi, ?_⟩
    rw [SerialState.Present, hier, hmsr, h.running.ier]
    exact hline

/-- A port that neither its backend nor its line has anything to say about. -/
structure Stuck (p : UartPort N × Wire) : Prop where
  noBug : p.1.bugThre = false
  silent : p.2.script = []
  sound : p.2.uart.Sound
  irq : p.2.uart.irq = false

/-- The handler alone: on its interrupt, or from the timer of its port. -/
def Polling (n : ℕ) : Call → Prop
  | .interrupt => True
  | .timeout i => i < n
  | _ => False

theorem Stuck.timer {p : UartPort N × Wire} (h : Stuck p) : portTimer p.1 p.2 = p := by
  rw [portTimer_eq h.noBug, handle_idle h.silent h.sound h.irq]

theorem servePort_stuck {w : Ports N} {l : ℕ} (h : Stuck (w l)) : servePort l w = (false, w) := by
  unfold servePort
  rw [handle_idle h.silent h.sound h.irq]
  dsimp only
  rw [Function.update_eq_self]

theorem polling_stuck {n : ℕ} {w : Ports N} (h : ∀ i < n, Stuck (w i)) {a : Call}
    (ha : Polling n a) : callStep n w a = (w, []) := by
  cases a with
  | interrupt =>
    rw [callStep]
    cases ho : serial8250Interrupt n w with
    | none => rw [takeInterrupt, ho]
    | some o =>
      rw [takeInterrupt, ho]
      rcases Nat.eq_zero_or_pos n with rfl | hn
      · rw [serial8250Interrupt, RoundRobin.poll, Nat.zero_mul] at ho
        cases ho
      · have hsame : o.world = w := RoundRobin.poll_invariant (P := fun v => v = w)
          (fun l v hl hv => by rw [hv, servePort_stuck (h l hl)]) hn rfl ho
        exact Prod.ext hsame rfl
  | timeout i => rw [callStep, (h i ha).timer, Function.update_eq_self]
  | _ => exact absurd ha id

/-- What is received while no interrupt comes. -/
def sampleStranded : List Call :=
  sampleCalls ++ [.backend 1 (.data [0x63]), .start 0, .write 1 [0x36]]

end CanPci.Uart
