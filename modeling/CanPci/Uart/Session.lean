import CanPci.Lib.History
import CanPci.Uart.Opening

/-!
# Sessions

What holds of open ports in every run of calls and interrupts, whatever their backends do;
what is left when the backends fall silent; and that a port can be closed at any time and
opened again.
-/

namespace CanPci.Uart
open RingFifo RoundRobin Machine
variable {N : ℕ}

/-- What an open of a closed port returns, with settings that let it receive; the port is
not marked as one with `UART_BUG_THRE`. -/
inductive Opened : UartPort N × Wire → Prop
  | intro {flags : PortFlags} {u : Termios} {up : UartPort N} {c : Wire} {p : UartPort N × Wire}
    (hthre : (flags.irq && flags.bugThre) = false) (hread : u.cread = true) (hup : Fresh up)
    (hc : Closed c) (h : uartPortStartup flags u up c = some p) : Opened p

theorem Opened.still (hN : 0 < N) {p : UartPort N × Wire} (h : Opened p) : Still [] p := by
  obtain ⟨hthre, hread, hup, hc, hp⟩ := h
  rename_i flags u up c
  obtain ⟨r, hr, hstill⟩ := portStartup_still flags hN hthre hread hup hc
  obtain rfl := Option.some.inj (hp.symm.trans hr)
  exact hstill

theorem powered_closed (baudbase : ℕ) : Closed ⟨.init baudbase, [], [], []⟩ := by
  refine ⟨rfl, rfl, rfl, init_sound baudbase, ?_, BitVec.zero_and⟩
  show (uartLsrTemt ||| uartLsrThre) &&& 0x0c = 0#8
  decide

def sampleTermios : Termios :=
  ⟨.cs8, false, false, false, false, true, true, true, true, false, false, false, false, false, false,
    9600, 9600, 9600⟩

def sampleOpened : UartPort 4 × Wire :=
  (uartPortStartup ⟨true, false, false, false, false⟩ sampleTermios freshPort
    ⟨.init 115200, [], [], []⟩).getD (freshPort, ⟨.init 115200, [], [], []⟩)

theorem sampleOpened_opened : Opened sampleOpened := by
  have hfresh : Fresh freshPort := ⟨rfl, rfl, rfl, rfl, rfl⟩
  obtain ⟨r, hr, -⟩ := portStartup_still ⟨true, false, false, false, false⟩ (by decide) rfl
    (u := sampleTermios) rfl hfresh (powered_closed 115200)
  have hopen : uartPortStartup ⟨true, false, false, false, false⟩ sampleTermios freshPort
      ⟨.init 115200, [], [], []⟩ = some sampleOpened := by
    rw [sampleOpened, hr]
    rfl
  exact .intro rfl rfl hfresh (powered_closed 115200) hopen

/-- The second port's backend delivers while the first sends more than fits. -/
def sampleCalls : List Call :=
  [.arrange 1 [([.data [0x61, 0x62]], quietAnswers)], .write 0 [0x31, 0x32, 0x33, 0x34], .interrupt,
    .stop 0, .write 0 [0x35], .dtrRts 1 true, .interrupt]

theorem opened_run (hN : 0 < N) {n : ℕ} {w : Ports N} (h : ∀ i < n, Opened (w i)) (as : List Call) :
    AllServing n (fun i => accepted i (run (callStep n) w as).2) (run (callStep n) w as).1 :=
  run_serving (t := fun _ => []) (fun i hi => ((h i hi).still hN).toServing) as

/-- What a port accepted, `t`, is what it sent and what waits in its buffer, and what it
received is what its tty got and what waits in the UART. -/
structure Intact (t : List Byte) (p : UartPort N × Wire) : Prop where
  accepted : p.2.sent ++ p.1.xmit.items = t
  received : p.1.flip ++ p.2.uart.waiting.map plain = p.2.got.map plain

theorem Serving.intact {t : List Byte} {p : UartPort N × Wire} (h : Serving t p) : Intact t p :=
  ⟨h.total, h.chars⟩

theorem lineOf_true {n i : ℕ} {w : Ports N} (hi : i < n) (h : (w i).2.uart.irq = true) :
    lineOf n w = true := by
  cases hline : lineOf n w with
  | true => rfl
  | false =>
    rw [lineOf_false.mp hline i hi] at h
    cases h

theorem Serving.reported {t : List Byte} {p : UartPort N × Wire} (h : Serving t p)
    (hwait : p.2.uart.waiting ≠ []) : p.2.uart.irq = true ∨
      p.2.uart.fifoTimeoutTimer = true ∧ (p.2.backend .fifoTimeout).uart.irq = true := by
  refine h.health.timed.reported h.health.sound ?_ hwait
  rw [h.running.ier]
  exact h.enable.data

/-- If port `i` has something to send and may send it, the line is high; if it has bytes
to hand over, the line is high or will be when the receive timeout expires. -/
structure Attended (n : ℕ) (w : Ports N) (i : ℕ) : Prop where
  sending : (w i).1.xmit.items ≠ [] → (w i).1.stopped = false → (w i).1.hwStopped = false →
    lineOf n w = true
  receiving : (w i).2.uart.waiting ≠ [] → lineOf n w = true ∨
    (w i).2.uart.fifoTimeoutTimer = true ∧
      lineOf n (callStep n w (.backend i .fifoTimeout)).1 = true

theorem AllServing.attended {n : ℕ} {t : ℕ → List Byte} {w : Ports N} (h : AllServing n t w) {i : ℕ}
    (hi : i < n) : Attended n w i := by
  refine ⟨fun hne hstop hhw => ?_, fun hwait => ?_⟩
  · have hhead : (w i).1.xmit.head ≠ (w i).1.xmit.tail := fun heq =>
      hne ((CircBuf.empty_iff (h i hi).ring).mp heq)
    exact lineOf_true hi ((h i hi).irq hhead hstop hhw)
  · rcases (h i hi).reported hwait with hirq | ⟨htimer, hirq⟩
    · exact Or.inl (lineOf_true hi hirq)
    · refine Or.inr ⟨htimer, lineOf_true hi ?_⟩
      rw [callStep]
      dsimp only
      rw [Function.update_self]
      exact hirq

/-- Nothing more happens behind port `i` than the expiry of its receive timeout. -/
def silence (i : ℕ) : List Call := [.arrange i [], .backend i .fifoTimeout]

def fallSilent (n : ℕ) : List Call := (List.range n).flatMap silence

def Hushed (p : UartPort N × Wire) : Prop :=
  p.2.script = [] ∧ p.2.uart.fifoTimeoutTimer = false

theorem silence_eq (n i : ℕ) (w : Ports N) : (run (callStep n) w (silence i)).1 =
    Function.update w i ((w i).1, ({(w i).2 with script := []} : Wire).backend .fifoTimeout) := by
  have hself : (callStep n w (.arrange i [])).1 i = ((w i).1, {(w i).2 with script := []}) :=
    Function.update_self ..
  show Function.update (Function.update w i ((w i).1, {(w i).2 with script := []})) i
    (((callStep n w (.arrange i [])).1 i).1,
      ((callStep n w (.arrange i [])).1 i).2.backend .fifoTimeout) = _
  rw [Function.update_idem, hself]

theorem fifoTimeout_off (s : SerialState) : (step s .fifoTimeout).1.fifoTimeoutTimer = false := by
  unfold step fifoTimeoutInt
  dsimp only
  split
  · split
    · rfl
    · rfl
  · exact Bool.not_eq_true _ ▸ ‹_›

theorem silences_hushed {n : ℕ} (is : List ℕ) {w : Ports N} {j : ℕ} (h : j ∈ is ∨ Hushed (w j)) :
    Hushed ((run (callStep n) w (is.flatMap silence)).1 j) := by
  induction is generalizing w with
  | nil =>
    rcases h with hmem | hquiet
    · cases hmem
    · exact hquiet
  | cons i is ih =>
    rw [List.flatMap_cons, run_append, silence_eq]
    refine ih ?_
    by_cases hj : j = i
    · subst hj
      rw [Function.update_self]
      exact Or.inr ⟨rfl, fifoTimeout_off (w j).2.uart⟩
    · rw [Function.update_of_ne hj]
      rcases h with hmem | hquiet
      · exact Or.inl ((List.mem_cons.mp hmem).resolve_left hj)
      · exact Or.inr hquiet

theorem hushed_run {n : ℕ} (w : Ports N) (as : List Call) :
    ∀ i < n, Hushed ((run (callStep n) w (as ++ fallSilent n)).1 i) := by
  intro i hi
  rw [run_append]
  exact silences_hushed (List.range n) (Or.inl (List.mem_range.mpr hi))

theorem Serving.pressing {t : List Byte} {p : UartPort N × Wire} (h : Serving t p) (hh : Hushed p) :
    Pressing p := by
  intro hwait
  rcases h.reported hwait with hirq | ⟨htimer, -⟩
  · exact hirq
  · rw [hh.2] at htimer
    cases htimer

/-- The error bits of the status that this UART never sets. -/
structure Errorless (s : SerialState) : Prop where
  sound : s.Sound
  bits : s.lsr &&& 0x0c = 0#8

theorem rxStore_lsr (s : SerialState) (b : Byte) (bs : List Byte) (h : s.lsr &&& 0x0c = 0#8) :
    (rxStore s b bs).lsr &&& 0x0c = 0#8 := by
  have hdr : ∀ x : Byte, x &&& 0x0c = 0#8 → (x ||| uartLsrDr) &&& 0x0c = 0#8 := by decide
  have hoe : ∀ x : Byte, x &&& 0x0c = 0#8 → (x ||| uartLsrOe) &&& 0x0c = 0#8 := by decide
  by_cases hfe : s.fcr &&& uartFcrFe = 0#8
  · rw [rxStore_rbr hfe]
    show rbrStatus s.lsr &&& 0x0c = 0#8
    unfold rbrStatus
    split
    · exact hdr _ (hoe _ h)
    · exact hdr _ h
  · rw [rxStore_fifo hfe]
    split
    · exact hdr _ h
    · exact hdr _ (hoe _ h)

theorem step_errorless {s : SerialState} (h : Errorless s) {a : Input} (ha : a ≠ .eventBreak) :
    Errorless (step s a).1 := by
  refine ⟨step_sound s a h.sound, ?_⟩
  have hview : ∀ {t u : SerialState}, t.rxView = u.rxView → u.lsr &&& 0x0c = 0#8 →
      t.lsr &&& 0x0c = 0#8 := by
    intro t u hv hu
    rw [view_lsr hv]
    exact hu
  cases step_rx h.sound ha with
  | same hv => exact hview hv h.bits
  | status m hv =>
    refine hview hv ?_
    show s.lsr &&& m &&& 0x0c = 0#8
    rw [BitVec.and_assoc, BitVec.and_comm m, ← BitVec.and_assoc, h.bits, BitVec.zero_and]
  | store b bs hv => exact hview hv (rxStore_lsr s b bs h.bits)
  | take hv =>
    obtain ⟨m, hm⟩ := takeByte_lsr s
    refine hview hv ?_
    rw [hm, BitVec.and_assoc, BitVec.and_comm m, ← BitVec.and_assoc, h.bits, BitVec.zero_and]
  | flush addr val ans _ _ hv =>
    have hlsr : (step s a).1.lsr = s.lsr := congrArg (fun v => v.2.2.1) hv
    rw [hlsr]
    exact h.bits
  | expire heq =>
    rw [heq, fifoTimeoutInt]
    split
    · exact h.bits
    · exact h.bits
  | reset _ heq =>
    rw [heq]
    show (uartLsrTemt ||| uartLsrThre) &&& 0x0c = 0#8
    decide

theorem advance_errorless {c : Wire} (h : Errorless c.uart) : Errorless c.advance.2.uart :=
  advance_invariant (I := Errorless) (fun _ _ hs ha => step_errorless hs ha.unbroken.1) h

/-- A UART between two sessions. -/
structure Idling (c : Wire) : Prop extends Steady c where
  bits : c.uart.lsr &&& 0x0c = 0#8
  ier : c.uart.ier = 0#8

namespace Idling
variable {c : Wire} (h : Idling c)
include h

theorem read (a : ℕ) : Idling (serialIn a c).2 := by
  obtain ⟨-, hcontrol⟩ := advance_control h.sound
  simp only [SerialState.control, Prod.mk.injEq] at hcontrol
  obtain ⟨-, -, hier⟩ := read_lines c.advance.2.uart a c.advance.1
  exact ⟨steady_read h.toSteady a, (step_errorless (a := .read a c.advance.1)
    (advance_errorless ⟨h.sound, h.bits⟩) Input.noConfusion).bits,
    hier.trans (hcontrol.2.2.1.trans h.ier)⟩

theorem write {a : ℕ} {v : Byte} (hw : Steady (serialOut a v c))
    (hsame : ∀ s ans, (serialIoportWrite s a v ans).1.ier = s.ier) : Idling (serialOut a v c) := by
  obtain ⟨-, hcontrol⟩ := advance_control h.sound
  simp only [SerialState.control, Prod.mk.injEq] at hcontrol
  exact ⟨hw, (step_errorless (a := .write a v c.advance.1)
    (advance_errorless ⟨h.sound, h.bits⟩) Input.noConfusion).bits,
    (hsame c.advance.2.uart c.advance.1).trans (hcontrol.2.2.1.trans h.ier)⟩

theorem fcr (v : Byte) : Idling (serialOut uartFcr v c) :=
  h.write (steady_fcr h.toSteady v) fun s _ => congrArg (fun x => x.2.2.1) (writeFcr_control s v).1

theorem mcr (v : Byte) : Idling (serialOut uartMcr v c) :=
  h.write (steady_mcr h.toSteady v) fun s ans => congrArg (fun x => x.2.2.1) (writeMcr_control s v ans)

/-- The line control register is written back as it was read, without its break. -/
theorem lcr :
    Idling (serialOut uartLcr ((serialIn uartLcr c).1 &&& ~~~0x40#8) (serialIn uartLcr c).2) := by
  have hread := h.read uartLcr
  obtain ⟨-, hcontrol⟩ := advance_control h.sound
  have hlcr : (serialIn uartLcr c).1 = c.uart.lcr := congrArg Prod.fst hcontrol
  have hbit : ∀ x : Byte, x &&& uartLcrDlab = 0#8 → (x &&& ~~~0x40#8) &&& uartLcrDlab = 0#8 := by
    decide
  refine hread.write (steady_lcr hread.sound ?_) fun s _ =>
    congrArg (fun x => x.2.2.1) (writeLcr_control s _)
  rw [hlcr]
  exact hbit _ h.dlab

theorem irq : c.uart.irq = false := by
  rw [h.sound.coherent.2, pending_disabled h.ier]
  rfl

end Idling

theorem shutdown_eq {σ : Type} [SerialIo σ] (up : UartPort N) (c : σ) :
    ∃ d, d = serialOut uartMcr ({up.mctrl with out2 := false} : Mctrl).mcr (serialOut uartIer 0 c) ∧
    (serial8250Shutdown up c).2 = (serialIn uartRx (serial8250ClearFifos
      (serialOut uartLcr ((serialIn uartLcr d).1 &&& ~~~0x40#8) (serialIn uartLcr d).2))).2 :=
  ⟨_, rfl, rfl⟩

theorem shutdown_idling (up : UartPort N) {c : Wire} (h : Steady c) (hbits : c.uart.lsr &&& 0x0c = 0#8) :
    Idling (serial8250Shutdown up c).2 := by
  obtain ⟨hsteady, hier, -⟩ := steady_ier h 0
  have hoff : Idling (serialOut uartIer 0 c) := ⟨hsteady, (step_errorless
    (a := .write uartIer 0 c.advance.1) (advance_errorless ⟨h.sound, hbits⟩) Input.noConfusion).bits,
    hier⟩
  obtain ⟨d, hd, heq⟩ := shutdown_eq up c
  have hmcr : Idling d := by
    rw [hd]
    exact hoff.mcr _
  rw [heq]
  exact (((hmcr.lcr.fcr _).fcr _).fcr _).read uartRx

/-- A new session on the same UART: nothing is counted yet, and the backend is silent. -/
def Wire.renew (c : Wire) : Wire := ⟨c.uart, [], [], []⟩

/-- With the tty of its next open. -/
def UartPort.renew (up : UartPort N) : UartPort N :=
  {up with stopped := false, hwStopped := false, flip := []}

theorem Idling.closed {c : Wire} (h : Idling c) : Closed c.renew :=
  ⟨rfl, rfl, rfl, h.sound, h.bits, h.dlab⟩

theorem Serving.shutdown {t : List Byte} {p : UartPort N × Wire} (h : Serving t p) (hangup : Bool) :
    Idling (uartShutdown hangup p.1 p.2).2 ∧ Fresh (uartShutdown hangup p.1 p.2).1.renew := by
  have hbits : ∀ x : Byte, x &&& uartLsrIntAny = 0#8 → x &&& 0x0c = 0#8 := by decide
  have hclose : ∀ {q : UartPort N × Wire}, Serving t q →
      Idling (serial8250Shutdown q.1 q.2).2 ∧ Fresh (serial8250Shutdown q.1 q.2).1.renew := by
    intro q hq
    exact ⟨shutdown_idling q.1 ⟨hq.running.exact.sound, hq.running.dlab⟩ (hbits _ hq.running.clean),
      ⟨hq.noX, hq.noBug, hq.noLoop, rfl, rfl⟩⟩
  unfold uartShutdown
  cases hangup with
  | false => exact hclose h
  | true => exact hclose (h.mctrl h.noLoop)

end CanPci.Uart
