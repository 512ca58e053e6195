import CanPci.Uart.Startup
import CanPci.Uart.Settings

/-!
# The driver's tests for broken interrupts

`serial8250_startup` looks whether the UART reports its transmitter's interrupt when it is
asked for it, and again when it is asked again. This UART always does.
-/

namespace CanPci.Uart
open RingFifo Machine

theorem backend_control {c : Wire} (h : c.uart.Sound) (b : Backend) :
    (c.backend b).uart.Sound ∧ (c.backend b).uart.control = c.uart.control := by
  cases b with
  | data bs =>
    unfold Wire.backend
    dsimp only
    split
    · exact ⟨h, rfl⟩
    · rename_i x xs _
      refine ⟨step_sound c.uart (.receive x xs) h, ?_⟩
      show (serialReceive1 c.uart x xs).1.control = _
      rw [serialReceive1_eq h.settled.recv.count_le]
      exact rxStore_control c.uart x xs
  | fifoTimeout =>
    obtain ⟨p, t, y, l, heq⟩ := fifoTimeout_eq c.uart
    refine ⟨step_sound c.uart .fifoTimeout h, ?_⟩
    show (step c.uart .fifoTimeout).1.control = _
    rw [heq]
    rfl
  | pollModem ans =>
    exact ⟨step_sound c.uart (.pollModem ans) h, pollModem_control c.uart ans⟩

theorem backendAll_control (bs : List Backend) {c : Wire} (h : c.uart.Sound) :
    (c.backendAll bs).uart.Sound ∧ (c.backendAll bs).uart.control = c.uart.control := by
  induction bs generalizing c with
  | nil => exact ⟨h, rfl⟩
  | cons b bs ih =>
    obtain ⟨hsound, hcontrol⟩ := backend_control h b
    obtain ⟨hlast, hall⟩ := ih hsound
    exact ⟨hlast, hall.trans hcontrol⟩

theorem advance_control {c : Wire} (h : c.uart.Sound) :
    c.advance.2.uart.Sound ∧ c.advance.2.uart.control = c.uart.control := by
  unfold Wire.advance
  split
  · exact ⟨h, rfl⟩
  · rename_i bs ans script _
    exact backendAll_control bs (c := {c with script := script}) h

theorem read_lines (s : SerialState) (a : ℕ) (ans : Answers) :
    (serialIoportRead s a ans).2.1.lcr = s.lcr ∧ (serialIoportRead s a ans).2.1.mcr = s.mcr ∧
    (serialIoportRead s a ans).2.1.ier = s.ier := by
  obtain ⟨f, l, m, p, t, w, y, q, v, k, heq⟩ := serialIoportRead_eq s a ans
  rw [heq]
  exact ⟨rfl, rfl, rfl⟩

/-- A UART whose divisor latch is closed. -/
structure Steady (c : Wire) : Prop where
  sound : c.uart.Sound
  dlab : c.uart.lcr &&& uartLcrDlab = 0#8

/-- It was asked for the transmitter's interrupt. -/
structure Asked (c : Wire) : Prop extends Steady c where
  ier : c.uart.ier &&& uartIerThri ≠ 0#8
  thr : c.uart.thrIpending = true

theorem Asked.advance {c : Wire} (h : Asked c) : Asked c.advance.2 := by
  obtain ⟨hsound, hcontrol⟩ := advance_control h.sound
  simp only [SerialState.control, Prod.mk.injEq] at hcontrol
  obtain ⟨hlcr, -, hier, hthr⟩ := hcontrol
  exact ⟨⟨hsound, by rw [hlcr]; exact h.dlab⟩, by rw [hier]; exact h.ier, hthr.trans h.thr⟩

theorem steady_read {c : Wire} (h : Steady c) (a : ℕ) : Steady (serialIn a c).2 := by
  obtain ⟨hsound, hcontrol⟩ := advance_control h.sound
  simp only [SerialState.control, Prod.mk.injEq] at hcontrol
  obtain ⟨hlcr, -⟩ := read_lines c.advance.2.uart a c.advance.1
  refine ⟨read_sound hsound a c.advance.1, ?_⟩
  show (serialIoportRead c.advance.2.uart a c.advance.1).2.1.lcr &&& uartLcrDlab = 0#8
  rw [hlcr, hcontrol.1]
  exact h.dlab

theorem steady_ier {c : Wire} (h : Steady c) (v : Byte) : Steady (serialOut uartIer v c) ∧
    (serialOut uartIer v c).uart.ier = v &&& 0x0f ∧
    (serialOut uartIer v c).uart.thrIpending = true := by
  obtain ⟨hsound, hadv⟩ := advance_control h.sound
  simp only [SerialState.control, Prod.mk.injEq] at hadv
  have hdlab : c.advance.2.uart.lcr &&& uartLcrDlab = 0#8 := by
    rw [hadv.1]
    exact h.dlab
  have hcontrol := writeIer_control hsound.settled.idle v c.advance.1 hdlab
  simp only [SerialState.control, Prod.mk.injEq] at hcontrol
  obtain ⟨hlcr, -, hier, hthr⟩ := hcontrol
  refine ⟨⟨hsound.ier v c.advance.1, ?_⟩, hier, hthr⟩
  show (writeIer c.advance.2.uart v c.advance.1).1.lcr &&& uartLcrDlab = 0#8
  rw [hlcr]
  exact hdlab

theorem asked_ier {c : Wire} (h : Steady c) : Asked (serialOut uartIer 0x02 c) := by
  have hset : (0x02 : Byte) &&& 0x0f &&& uartIerThri ≠ 0#8 := by decide
  obtain ⟨hsteady, hier, hthr⟩ := steady_ier h 0x02
  exact ⟨hsteady, by rw [hier]; exact hset, hthr⟩

theorem asked_lsr {c : Wire} (h : Asked c) : Asked (serialIn uartLsr c).2 := by
  have hadv := h.advance
  obtain ⟨-, -, hier⟩ := read_lines c.advance.2.uart uartLsr c.advance.1
  have hthr : (readLsr c.advance.2.uart).2.thrIpending = c.advance.2.uart.thrIpending := by
    unfold readLsr
    dsimp only
    split <;> rfl
  refine ⟨steady_read h.toSteady uartLsr, ?_, hthr.trans hadv.thr⟩
  show (serialIoportRead c.advance.2.uart uartLsr c.advance.1).2.1.ier &&& uartIerThri ≠ 0#8
  rw [hier]
  exact hadv.ier

theorem asked_iir {c : Wire} (h : Asked c) : (serialIn uartIir c).1 &&& 0x01 = 0#8 := by
  have hadv := h.advance
  have hpending : c.advance.2.uart.pending ≠ uartIirNoInt :=
    (pending_iff _).mpr ⟨.thri, hadv.ier, hadv.thr⟩
  by_contra hodd
  exact hpending ((pending_odd hadv.sound.coherent.1).mp hodd)

section
variable {N : ℕ} (flags : PortFlags)

theorem waitStatus_reads {P : Wire → Prop} (hread : ∀ a c, P c → P (serialIn a c).2) (bits : Byte)
    (n : ℕ) (up : UartPort N) {c : Wire} (h : P c) : P (waitStatus bits up c n).2 ∧
    ∃ a, (waitStatus bits up c n).1 = {up with lsrSavedFlags := a} := by
  induction n generalizing up c with
  | zero => exact ⟨hread uartLsr c h, _, rfl⟩
  | succ n ih =>
    rw [waitStatus]
    dsimp only
    split
    · exact ⟨hread uartLsr c h, _, rfl⟩
    · obtain ⟨hlast, a, heq⟩ := ih _ (hread uartLsr c h)
      exact ⟨hlast, a, heq⟩

theorem waitCts_reads {P : Wire → Prop} (hread : ∀ a c, P c → P (serialIn a c).2) (n : ℕ)
    (up : UartPort N) {c : Wire} (h : P c) : P (waitCts up c n).2 ∧
    ∃ b, (waitCts up c n).1 = {up with msrSavedFlags := b} := by
  induction n generalizing up c with
  | zero => exact ⟨h, up.msrSavedFlags, rfl⟩
  | succ n ih =>
    rw [waitCts]
    dsimp only
    split
    · exact ⟨hread uartMsr c h, _, rfl⟩
    · obtain ⟨hlast, b, heq⟩ := ih _ (hread uartMsr c h)
      exact ⟨hlast, b, heq⟩

theorem waitForXmitr_reads {P : Wire → Prop} (hread : ∀ a c, P c → P (serialIn a c).2)
    (bits : Byte) (up : UartPort N) {c : Wire} (h : P c) : P (waitForXmitr flags bits up c).2 ∧
    ∃ a b, (waitForXmitr flags bits up c).1 =
      {up with lsrSavedFlags := a, msrSavedFlags := b} := by
  obtain ⟨hwait, a, heq⟩ := waitStatus_reads hread bits 9999 up h
  unfold waitForXmitr
  dsimp only
  split
  · obtain ⟨hlast, b, heq'⟩ := waitCts_reads hread 1000000 (waitStatus bits up c 9999).1 hwait
    refine ⟨hlast, a, b, ?_⟩
    rw [heq', heq]
  · exact ⟨hwait, a, up.msrSavedFlags, heq⟩

theorem testThre_finds (up : UartPort N) {c : Wire} (h : Steady c) :
    Steady (testThre flags up c).2 ∧ ∃ a b, (testThre flags up c).1 = {up with
      lsrSavedFlags := a, msrSavedFlags := b, bugThre := up.bugThre || flags.irq && flags.bugThre} := by
  unfold testThre
  cases hirq : flags.irq with
  | false =>
    rw [if_neg Bool.false_ne_true, Bool.false_and, Bool.or_false]
    exact ⟨h, up.lsrSavedFlags, up.msrSavedFlags, rfl⟩
  | true =>
    obtain ⟨hwait, a, b, heq⟩ := waitForXmitr_reads flags (P := Steady)
      (fun a _ hc => steady_read hc a) 0x20 up h
    have hone := steady_read (steady_ier hwait 0x02).1 uartIir
    have htwo := (steady_ier hone 0).1
    have hthree := steady_read (steady_ier htwo 0x02).1 uartIir
    have hreport := asked_iir (asked_ier htwo)
    rw [if_pos rfl]
    dsimp only
    rw [heq]
    cases hbug : flags.bugThre with
    | false =>
      rw [if_neg (fun hc => by
        rcases hc with hc | hc
        · exact hc.2 hreport
        · cases hc)]
      refine ⟨(steady_ier hthree 0).1, a, b, ?_⟩
      rw [Bool.and_false, Bool.or_false]
    | true =>
      rw [if_pos (Or.inr rfl)]
      refine ⟨(steady_ier hthree 0).1, a, b, ?_⟩
      rw [Bool.and_true, Bool.or_true]

theorem testTxen_finds (up : UartPort N) {c : Wire} (h : Steady c) :
    Steady (testTxen flags up c).2 ∧
    (testTxen flags up c).1 = {up with bugTxen := flags.noTxenTest && up.bugTxen} := by
  unfold testTxen
  cases hskip : flags.noTxenTest with
  | true =>
    rw [if_pos rfl, Bool.true_and]
    exact ⟨h, rfl⟩
  | false =>
    have hask := asked_lsr (asked_ier h)
    have hreport := asked_iir hask
    rw [if_neg Bool.false_ne_true, Bool.false_and]
    dsimp only
    refine ⟨(steady_ier (steady_read hask.toSteady uartIir) 0).1, ?_⟩
    rw [decide_eq_false fun hc => hc.2 hreport]

theorem steady_fcr {c : Wire} (h : Steady c) (v : Byte) : Steady (serialOut uartFcr v c) := by
  obtain ⟨hsound, hcontrol⟩ := advance_control h.sound
  simp only [SerialState.control, Prod.mk.injEq] at hcontrol
  refine ⟨hsound.fcr v, ?_⟩
  have hwrite := (writeFcr_control c.advance.2.uart v).1
  simp only [SerialState.control, Prod.mk.injEq] at hwrite
  show (writeFcr c.advance.2.uart v).lcr &&& uartLcrDlab = 0#8
  rw [hwrite.1, hcontrol.1]
  exact h.dlab

theorem steady_mcr {c : Wire} (h : Steady c) (v : Byte) : Steady (serialOut uartMcr v c) := by
  obtain ⟨hsound, hcontrol⟩ := advance_control h.sound
  simp only [SerialState.control, Prod.mk.injEq] at hcontrol
  refine ⟨hsound.mcr v c.advance.1, ?_⟩
  have hwrite := writeMcr_control c.advance.2.uart v c.advance.1
  simp only [SerialState.control, Prod.mk.injEq] at hwrite
  show (writeMcr c.advance.2.uart v c.advance.1).1.lcr &&& uartLcrDlab = 0#8
  rw [hwrite.1, hcontrol.1]
  exact h.dlab

theorem steady_mctrl {c : Wire} (h : Steady c) (m : Mctrl) : Steady (serial8250SetMctrl m c) :=
  steady_mcr h _

theorem steady_lcr {c : Wire} (h : c.uart.Sound) {v : Byte} (hv : v &&& uartLcrDlab = 0#8) :
    Steady (serialOut uartLcr v c) := by
  obtain ⟨hsound, -⟩ := advance_control h
  refine ⟨hsound.lcr v, ?_⟩
  have hwrite := writeLcr_control c.advance.2.uart v
  simp only [SerialState.control, Prod.mk.injEq] at hwrite
  show (writeLcr c.advance.2.uart v).1.lcr &&& uartLcrDlab = 0#8
  rw [hwrite.1]
  exact hv

theorem clearInterrupts_steady {c : Wire} (h : Steady c) : Steady (clearInterrupts c) :=
  steady_read (steady_read (steady_read (steady_read h _) _) _) _

/-- What a start-up leaves in the port besides the status bits it collected. -/
def startedPort (up : UartPort N) : UartPort N :=
  {up with
    lsrSavedFlags := 0, msrSavedFlags := 0, ier := 0x05
    mctrl := if flags.irq then {up.mctrl with out2 := true} else up.mctrl
    bugTxen := flags.noTxenTest && up.bugTxen
    bugThre := up.bugThre || flags.irq && flags.bugThre}

theorem startupFound_finds (up : UartPort N) {c : Wire} (h : Steady c) :
    (startupFound flags up c).1 = startedPort flags up := by
  obtain ⟨hthre, a, b, heq⟩ := testThre_finds flags up h
  have hlcr := steady_lcr (v := 0x03) hthre.sound (by decide)
  unfold startupFound
  dsimp only
  rw [heq]
  cases hirq : flags.irq with
  | false =>
    rw [if_neg Bool.false_ne_true]
    dsimp only
    rw [(testTxen_finds flags _ (steady_mctrl hlcr _)).2]
    unfold startedPort
    rw [hirq, if_neg Bool.false_ne_true]
    rfl
  | true =>
    rw [if_pos rfl]
    dsimp only
    rw [(testTxen_finds flags _ (steady_mctrl hlcr _)).2]
    unfold startedPort
    rw [hirq, if_pos rfl]
    rfl

/-- The driver never turns to its workarounds by itself. -/
theorem startup_finds (up : UartPort N) {c : Wire} (h : Steady c) {r : UartPort N × Wire}
    (hr : serial8250Startup flags up c = some r) :
    r.1 = startedPort flags {up with txLoadsz := 16} := by
  have hclear : Steady (clearInterrupts (serial8250ClearFifos c)) :=
    clearInterrupts_steady (steady_fcr (steady_fcr (steady_fcr h _) _) _)
  unfold serial8250Startup at hr
  dsimp only at hr
  split at hr
  · obtain rfl := Option.some.inj hr
    exact startupFound_finds flags _ hclear
  · split at hr
    · cases hr
    · obtain rfl := Option.some.inj hr
      exact startupFound_finds flags _ (steady_read hclear uartLsr)

/-- Whatever the UART went through, and whatever its backend does meanwhile. -/
theorem no_workarounds (baudbase : ℕ) (as : List Input)
    (hclosed : (run step (.init baudbase) as).1.lcr &&& uartLcrDlab = 0#8)
    (script : List (List Backend × Answers)) (up : UartPort N) {r : UartPort N × Wire}
    (hr : serial8250Startup flags up ⟨(run step (.init baudbase) as).1, script, [], []⟩ = some r) :
    r.1.bugTxen = (flags.noTxenTest && up.bugTxen) ∧
    r.1.bugThre = (up.bugThre || flags.irq && flags.bugThre) := by
  have hsteady : Steady ⟨(run step (.init baudbase) as).1, script, [], []⟩ :=
    ⟨run_sound baudbase as, hclosed⟩
  rw [startup_finds flags up hsteady hr]
  exact ⟨rfl, rfl⟩

def freshPort : UartPort 4 :=
  ⟨0, 0, 0, 0, 0, 0, 0, ⟨false, false, false, false, false⟩, 1843200, false, 0, false,
    false, false, 0, false, false, false, ⟨Vector.replicate 4 0, 0, 0⟩, []⟩

def noisyWire : Wire :=
  ⟨(run step (.init 115200) [.receive 0x55 []]).1, [([.data [0x61]], quietAnswers)], [], []⟩

def noisyStart : UartPort 4 × Wire :=
  (serial8250Startup ⟨true, false, false, false, false⟩ freshPort noisyWire).getD (freshPort, noisyWire)

theorem no_workarounds_noisy : noisyStart.1.bugTxen = false ∧ noisyStart.1.bugThre = false :=
  no_workarounds ⟨true, false, false, false, false⟩ 115200 [.receive 0x55 []] (by decide)
    [([.data [0x61]], quietAnswers)] freshPort rfl

end

end CanPci.Uart
