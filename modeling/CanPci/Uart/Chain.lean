import CanPci.Uart.Settings
import Mathlib.Logic.Function.Basic

/-!
# Ports that share an interrupt

`serial8250_interrupt` serves the ports of one line in a ring until a whole round finds
nothing to do. The line is that of the multi-port card of `serial-pci.c`: the ports' lines
together.
-/

namespace CanPci.Uart
open RingFifo RoundRobin Machine
variable {N : ℕ}

abbrev Ports (N : ℕ) := ℕ → UartPort N × Wire

/-- `handle_irq` of the port at place `l` of the chain. -/
def servePort (l : ℕ) (w : Ports N) : Bool × Ports N :=
  let (handled, port) := serial8250DefaultHandleIrq (w l).1 (w l).2
  (handled, Function.update w l port)

def passLimit : ℕ := 512

def serial8250Interrupt (n : ℕ) (w : Ports N) : Option (Outcome (Ports N)) :=
  poll servePort n passLimit w

/-- `multi_serial_irq_mux`, with the levels of all ports. -/
def multiSerialIrqMux (ports : ℕ) (level : ℕ → Bool) : Bool := (List.range ports).any level

def lineOf (n : ℕ) (w : Ports N) : Bool := multiSerialIrqMux n fun i => (w i).2.uart.irq

theorem lineOf_false {n : ℕ} {w : Ports N} :
    lineOf n w = false ↔ ∀ i < n, (w i).2.uart.irq = false := by
  simp [lineOf, multiSerialIrqMux]

/-! ### Calls -/

/-- `stop_tty`, then `uart_stop`. -/
def ttyStop {σ : Type} [SerialIo σ] (up : UartPort N) (c : σ) : UartPort N × σ :=
  stopTx {up with stopped := true} c

/-- `start_tty`, then `uart_start`. -/
def ttyStart {σ : Type} [SerialIo σ] (up : UartPort N) (c : σ) : UartPort N × σ :=
  uartStart {up with stopped := false} c

/-- With `port->irq` set: that is how `UART_BUG_THRE` is found. -/
def serial8250BackupTimeout {σ : Type} [SerialIo σ] (up : UartPort N) (c : σ) : UartPort N × σ :=
  let (ier, c) := serialIn uartIer c
  let (iir, c) := serialIn uartIir (serialOut uartIer 0 c)
  let (lsr, c) := serialIn uartLsr c
  let up := {up with lsrSavedFlags := up.lsrSavedFlags ||| (lsr &&& 0x1e)}
  let iir := if iir &&& 0x01 ≠ 0#8 ∧ up.ier &&& 0x02 ≠ 0#8 ∧
      (up.xmit.head ≠ up.xmit.tail ∨ up.xChar ≠ 0#8) ∧ lsr &&& 0x20 ≠ 0#8 then
    (iir &&& ~~~0x07#8) ||| 0x02
  else iir
  let (up, c) := if iir &&& 0x01 = 0#8 then serial8250TxChars up c else (up, c)
  (up, serialOut uartIer ier c)

/-- `up->timer.function`, without the next expiry; `serial8250_timeout` calls `handle_irq`. -/
def portTimer {σ : Type} [SerialIo σ] (up : UartPort N) (c : σ) : UartPort N × σ :=
  if up.bugThre then serial8250BackupTimeout up c else (serial8250DefaultHandleIrq up c).2

/-- Settings of a port whose receiver is in use. -/
abbrev Listening := {t : Termios // t.cread = true}

/-- What may happen to the ports between two calls of the driver, and the calls. `script`
says what the backend will do during later calls. -/
inductive Call
  | arrange (i : ℕ) (script : List (List Backend × Answers))
  | backend (i : ℕ) (b : Backend)
  | write (i : ℕ) (buf : List Byte)
  | stop (i : ℕ)
  | start (i : ℕ)
  | dtrRts (i : ℕ) (onoff : Bool)
  | setTermios (i : ℕ) (old : Termios) (new : Listening) (throttled : Bool)
  | timeout (i : ℕ)
  | interrupt
  deriving DecidableEq, Repr

/-- An empty chain has no handler. -/
def takeInterrupt (n : ℕ) (w : Ports N) : Ports N :=
  match serial8250Interrupt n w with
  | some o => o.world
  | none => w

/-- Emits the bytes that a write accepts. -/
def callStep (n : ℕ) (w : Ports N) : Call → Ports N × List (ℕ × Byte)
  | .arrange i script => (Function.update w i ((w i).1, {(w i).2 with script := script}), [])
  | .backend i b => (Function.update w i ((w i).1, (w i).2.backend b), [])
  | .write i buf =>
    let (rest, port) := uartWrite (w i).1 buf (w i).2
    (Function.update w i port, (buf.take (buf.length - rest.length)).map (i, ·))
  | .stop i => (Function.update w i (ttyStop (w i).1 (w i).2), [])
  | .start i => (Function.update w i (ttyStart (w i).1 (w i).2), [])
  | .dtrRts i onoff => (Function.update w i (uartDtrRts onoff (w i).1 (w i).2), [])
  | .setTermios i old new throttled =>
    (Function.update w i (uartSetTermios old new throttled (w i).1 (w i).2), [])
  | .timeout i => (Function.update w i (portTimer (w i).1 (w i).2), [])
  | .interrupt => (takeInterrupt n w, [])

/-- What the writes to port `i` accepted. -/
def accepted (i : ℕ) (out : List (ℕ × Byte)) : List Byte :=
  out.filterMap fun e => if e.1 = i then some e.2 else none

theorem update_all {Q : ℕ → UartPort N × Wire → Prop} {w : Ports N} (h : ∀ j, Q j (w j)) {i : ℕ}
    {p : UartPort N × Wire} (hp : Q i p) : ∀ j, Q j (Function.update w i p j) := by
  intro j
  by_cases hj : j = i
  · subst hj
    rw [Function.update_self]
    exact hp
  · rw [Function.update_of_ne hj]
    exact h j

theorem Serving.handle {t : List Byte} {p : UartPort N × Wire} (h : Serving t p) :
    Serving t (serial8250DefaultHandleIrq p.1 p.2).2 :=
  ⟨defaultHandleIrq_driving h.toDriving, healthy_accessed.defaultHandleIrq p.1 h.health⟩

theorem portTimer_eq {up : UartPort N} (h : up.bugThre = false) (c : Wire) :
    portTimer up c = (serial8250DefaultHandleIrq up c).2 := by
  rw [portTimer, h, if_neg Bool.false_ne_true]

theorem Serving.timer {t : List Byte} {p : UartPort N × Wire} (h : Serving t p) :
    Serving t (portTimer p.1 p.2) := by
  rw [portTimer_eq h.noBug]
  exact h.handle

theorem Serving.stop {t : List Byte} {p : UartPort N × Wire} (h : Serving t p) :
    Serving t (ttyStop p.1 p.2) := by
  have hkept : Kept t {p.1 with stopped := true} p.2 := h.toKept.frame
  exact ⟨stopTx_driving hkept (Or.inr (Or.inl rfl)), healthy_accessed.stopTx _ h.health⟩

theorem Serving.start {t : List Byte} {p : UartPort N × Wire} (h : Serving t p) :
    Serving t (ttyStart p.1 p.2) := by
  have hkept : Kept t {p.1 with stopped := false} p.2 := h.toKept.frame
  exact ⟨uartStart_driving hkept h.armed, healthy_accessed.start _ h.health⟩

theorem Serving.write {t : List Byte} {p : UartPort N × Wire} (h : Serving t p) (buf : List Byte) :
    Serving (t ++ buf.take (buf.length - (uartWrite p.1 buf p.2).1.length))
      (uartWrite p.1 buf p.2).2 := by
  obtain ⟨hrest, hdrive⟩ := write_driving h.toDriving buf
  have htake : buf.take (buf.length - (uartWrite p.1 buf p.2).1.length) =
      buf.take p.1.xmit.free := by
    rw [hrest, List.length_drop]
    rcases Nat.le_total buf.length p.1.xmit.free with hle | hle
    · rw [List.take_of_length_le hle, List.take_of_length_le (by omega)]
    · congr 1
      omega
  rw [htake]
  exact ⟨hdrive, healthy_accessed.start _ h.health⟩

theorem Serving.arrange {t : List Byte} {p : UartPort N × Wire} (h : Serving t p)
    (script : List (List Backend × Answers)) : Serving t (p.1, {p.2 with script := script}) :=
  ⟨⟨⟨⟨h.running, h.enable, h.saved, h.ignore, h.noX, h.noLoop, h.loadsz, h.noBug, h.ring, h.chars⟩,
    h.total⟩, h.kicked, h.armed⟩, h.health⟩

theorem Serving.backend {t : List Byte} {p : UartPort N × Wire} (h : Serving t p) (b : Backend) :
    Serving t (p.1, p.2.backend b) := by
  have hext := h.running.extends (backend_moves h.running.toLive b)
  refine ⟨⟨h.toKept.follow hext.toFollows h.enable, h.kicked, fun hset => ?_⟩,
    backend_invariant step_healthy h.health b⟩
  show (p.2.backend b).uart.thrIpending = true
  rw [hext.thr]
  exact h.armed hset

theorem accepted_other {i j : ℕ} (h : i ≠ j) (xs : List Byte) : accepted j (xs.map (i, ·)) = [] := by
  induction xs with
  | nil => rfl
  | cons x xs _ => simp [accepted, h]

theorem accepted_self (i : ℕ) (xs : List Byte) : accepted i (xs.map (i, ·)) = xs := by
  induction xs with
  | nil => rfl
  | cons x xs _ => simp [accepted]

/-- The ports of the chain, with what each of them accepted. -/
def AllServing (n : ℕ) (t : ℕ → List Byte) (w : Ports N) : Prop := ∀ i < n, Serving (t i) (w i)

theorem AllServing.update {n : ℕ} {t : ℕ → List Byte} {w : Ports N} (h : AllServing n t w) {i : ℕ}
    {p : UartPort N × Wire} (hp : Serving (t i) (w i) → Serving (t i) p) :
    AllServing n t (Function.update w i p) :=
  update_all (Q := fun j q => j < n → Serving (t j) q) h fun hi => hp (h i hi)

theorem takeInterrupt_serving {n : ℕ} {t : ℕ → List Byte} {w : Ports N} (h : AllServing n t w) :
    AllServing n t (takeInterrupt n w) := by
  cases ho : serial8250Interrupt n w with
  | none =>
    rw [takeInterrupt, ho]
    exact h
  | some o =>
    rw [takeInterrupt, ho]
    rcases Nat.eq_zero_or_pos n with rfl | hn
    · rw [serial8250Interrupt, poll, Nat.zero_mul] at ho
      cases ho
    · exact poll_invariant (P := AllServing n t) (fun l w _ hw => hw.update Serving.handle) hn h ho

theorem callStep_serving {n : ℕ} {t : ℕ → List Byte} {w : Ports N} (h : AllServing n t w)
    (a : Call) :
    AllServing n (fun i => t i ++ accepted i (callStep n w a).2) (callStep n w a).1 := by
  have hquiet : ∀ {w' : Ports N}, AllServing n t w' →
      AllServing n (fun i => t i ++ accepted i []) w' := by
    intro w' hw i hi
    show Serving (t i ++ []) (w' i)
    rw [List.append_nil]
    exact hw i hi
  cases a with
  | arrange j script => exact hquiet (h.update fun hj => hj.arrange script)
  | backend j b => exact hquiet (h.update fun hj => hj.backend b)
  | write j buf =>
    intro i hi
    by_cases hij : i = j
    · subst hij
      rw [callStep]
      dsimp only
      rw [accepted_self, Function.update_self]
      exact (h i hi).write buf
    · rw [callStep]
      dsimp only
      rw [accepted_other (Ne.symm hij), List.append_nil, Function.update_of_ne hij]
      exact h i hi
  | stop j => exact hquiet (h.update Serving.stop)
  | start j => exact hquiet (h.update Serving.start)
  | dtrRts j onoff => exact hquiet (h.update fun hj => hj.mctrl hj.noLoop)
  | setTermios j old new throttled =>
    exact hquiet (h.update fun hj => hj.setTermios old new.property throttled)
  | timeout j => exact hquiet (h.update Serving.timer)
  | interrupt => exact hquiet (takeInterrupt_serving h)

theorem run_serving {n : ℕ} {t : ℕ → List Byte} {w : Ports N} (h : AllServing n t w)
    (as : List Call) :
    AllServing n (fun i => t i ++ accepted i (run (callStep n) w as).2)
      (run (callStep n) w as).1 := by
  induction as generalizing t w with
  | nil =>
    intro i hi
    show Serving (t i ++ []) (w i)
    rw [List.append_nil]
    exact h i hi
  | cons a as ih =>
    intro i hi
    have hrest := ih (callStep_serving h a) i hi
    have hsplit : accepted i (run (callStep n) w (a :: as)).2 =
        accepted i (callStep n w a).2 ++ accepted i (run (callStep n) (callStep n w a).1 as).2 :=
      List.filterMap_append
    dsimp only
    rw [hsplit, ← List.append_assoc]
    exact hrest

theorem Driving.irq {t : List Byte} {up : UartPort N} {c : Wire} (h : Driving t up c)
    (hne : up.xmit.head ≠ up.xmit.tail) (hstop : up.stopped = false) (hhw : up.hwStopped = false) :
    c.uart.irq = true := by
  have hon := h.kicked hne hstop hhw
  rw [h.running.exact.sound.coherent.2, decide_eq_true_iff]
  refine (pending_iff c.uart).mpr ⟨.thri, ?_, h.armed hon⟩
  rw [h.running.ier]
  exact hon

/-- Rounds that a port needs: a load of sixteen bytes in each, and one that finds nothing. -/
def rounds (p : UartPort N × Wire) : ℕ :=
  if p.2.uart.irq then (p.1.xmit.items.length + 15) / 16 + 1 else 0

/-- Serving, with a silent backend. -/
structure Still (t : List Byte) (p : UartPort N × Wire) : Prop extends Serving t p where
  silent : p.2.script = []

theorem Still.handle {t : List Byte} {p : UartPort N × Wire} (h : Still t p) :
    Still t (serial8250DefaultHandleIrq p.1 p.2).2 :=
  ⟨h.toServing.handle, silent_accessed.defaultHandleIrq p.1 h.silent⟩

theorem default_iir {p : UartPort N × Wire} (hs : p.2.script = []) (h : p.2.uart.Sound) :
    serial8250DefaultHandleIrq p.1 p.2 = serial8250HandleIrq p.1 p.2.uart.iir
      {p.2 with uart := (readIir p.2.uart).2} ∧
    (p.2.uart.iir &&& 0x01 ≠ 0#8 ↔ p.2.uart.irq = false) := by
  refine ⟨?_, ?_⟩
  · unfold serial8250DefaultHandleIrq
    rw [serialIn_silent hs]
    rfl
  · rw [pending_odd h.coherent.1, h.coherent.2, decide_eq_false_iff_not, not_not]

theorem handle_idle {p : UartPort N × Wire} (hs : p.2.script = []) (h : p.2.uart.Sound)
    (hirq : p.2.uart.irq = false) : serial8250DefaultHandleIrq p.1 p.2 = (false, p) := by
  obtain ⟨heq, hodd⟩ := default_iir hs h
  have hset := hodd.mpr hirq
  have hnone := (pending_odd h.coherent.1).mp hset
  have hkeep : (readIir p.2.uart).2 = p.2.uart := by
    have hid : ∀ y : Byte, y &&& 0x0f = uartIirNoInt → y &&& uartIirId ≠ uartIirThri := by decide
    exact if_neg (hid _ (h.coherent.1.trans hnone))
  rw [heq, hkeep, serial8250HandleIrq, if_pos hset]

theorem Still.idle {t : List Byte} {p : UartPort N × Wire} (h : Still t p)
    (hirq : p.2.uart.irq = false) : serial8250DefaultHandleIrq p.1 p.2 = (false, p) :=
  handle_idle h.silent h.health.sound hirq

theorem handle_found {t : List Byte} {p : UartPort N × Wire} (h : Still t p)
    (hirq : p.2.uart.irq = true) :
    (serial8250DefaultHandleIrq p.1 p.2).1 = true ∧
    Quieted (serial8250DefaultHandleIrq p.1 p.2).2.2 ∧
    rounds (serial8250DefaultHandleIrq p.1 p.2).2 < rounds p := by
  obtain ⟨heq, hodd⟩ := default_iir h.silent h.health.sound
  have heven : p.2.uart.iir &&& 0x01 = 0#8 := by
    by_contra hset
    rw [hodd.mp hset] at hirq
    cases hirq
  have hnext := h.toServing.handle
  have hread := (serialIn_iir h.running).1
  have hprompt := prompt_accessed.read uartIir p.2 h.health.toPrompt
  rw [serialIn_silent h.silent] at hread hprompt
  have hkept := h.toKept.follow hread h.enable
  have hdone := handleIrq_eq hkept heven
  have hquiet := handleIrq_quieted hkept h.silent hprompt heven
  rw [heq] at hnext ⊢
  refine ⟨?_, hquiet, ?_⟩
  · exact congrArg Prod.fst hdone
  · unfold rounds
    rw [hirq, if_pos rfl]
    split
    · rename_i hirq'
      have hon := quieted_irq hquiet hnext.running hirq'
      have hitems := handleIrq_items hkept h.kicked h.silent heven hon
      have hless : (serial8250HandleIrq p.1 p.2.uart.iir
          {p.2 with uart := (readIir p.2.uart).2}).2.1.xmit.items.length + 16 ≤
          p.1.xmit.items.length := hitems
      omega
    · omega

theorem servePort_self (l : ℕ) (w : Ports N) :
    (servePort l w).2 l = (serial8250DefaultHandleIrq (w l).1 (w l).2).2 := by
  unfold servePort
  dsimp only
  rw [Function.update_self]

theorem servePort_other {j l : ℕ} (h : j ≠ l) (w : Ports N) : (servePort l w).2 j = w j := by
  unfold servePort
  dsimp only
  rw [Function.update_of_ne h]

theorem servePort_working (n : ℕ) (t : ℕ → List Byte) :
    Working servePort n (fun w : Ports N => ∀ i < n, Still (t i) (w i)) fun l w => rounds (w l) := by
  refine ⟨fun l w hl h => update_all (Q := fun j p => j < n → Still (t j) p) h
    fun _ => (h l hl).handle, fun l w hl h hfound => ?_, fun l w hl h hfound => ?_,
    fun l w j _ hj => by rw [servePort_other hj]⟩
  · cases hirq : (w l).2.uart.irq with
    | false =>
      have hidle : (servePort l w).1 = false := congrArg Prod.fst ((h l hl).idle hirq)
      rw [hfound] at hidle
      cases hidle
    | true =>
      rw [servePort_self]
      exact (handle_found (h l hl) hirq).2.2
  · cases hirq : (w l).2.uart.irq with
    | false =>
      rw [servePort_self, (h l hl).idle hirq, rounds, hirq]
      rfl
    | true =>
      have htrue : (servePort l w).1 = true := (handle_found (h l hl) hirq).1
      rw [hfound] at htrue
      cases htrue

/-- Bytes that wait hold the line. -/
def Pressing (p : UartPort N × Wire) : Prop := p.2.uart.waiting ≠ [] → p.2.uart.irq = true

theorem servePort_pressing {n : ℕ} {t : ℕ → List Byte} {w : Ports N}
    (h : ∀ i < n, Still (t i) (w i)) (hpress : ∀ i < n, Pressing (w i)) (l : ℕ) (hl : l < n) :
    ∀ i < n, Pressing ((servePort l w).2 i) := by
  show ∀ i < n, Pressing (Function.update w l (serial8250DefaultHandleIrq (w l).1 (w l).2).2 i)
  refine update_all (Q := fun j p => j < n → Pressing p) hpress fun _ => ?_
  cases hirq : (w l).2.uart.irq with
  | false =>
    rw [(h l hl).idle hirq]
    exact hpress l hl
  | true => exact fun hne => absurd (handle_found (h l hl) hirq).2.1.empty hne

/-- With a silent backend the loop never gives up: the buffer of every port is sent, and
the line falls. -/
theorem interrupt_settles {n : ℕ} (hn : 0 < n) (hN : N ≤ 4096) {t : ℕ → List Byte} {w : Ports N}
    (h : ∀ i < n, Still (t i) (w i)) (hpress : ∀ i < n, Pressing (w i)) :
    ∃ o, serial8250Interrupt n w = some o ∧ o.gaveUp = false ∧ lineOf n o.world = false ∧
      ∀ i < n, Still (t i) (o.world i) ∧ Pressing (o.world i) := by
  have hsome : (serial8250Interrupt n w).isSome := poll_isSome hn w
  obtain ⟨o, ho⟩ := Option.isSome_iff_exists.mp hsome
  have hbound : ∀ j < n, rounds (w j) ≤ passLimit := by
    intro j hj
    have hlen : (w j).1.xmit.items.length < N := by
      rw [CircBuf.items_length]
      exact CircBuf.charsPending_lt (h j hj).ring
    unfold rounds passLimit
    split <;> omega
  obtain ⟨hgive, hdone⟩ := poll_settles (servePort_working n t) hn h hbound ho
  have hkeep := poll_invariant
    (P := fun w : Ports N => ∀ i < n, Still (t i) (w i) ∧ Pressing (w i))
    (fun l w hl hw i hi => ⟨(servePort_working n t).keep l w hl (fun j hj => (hw j hj).1) i hi,
      servePort_pressing (fun j hj => (hw j hj).1) (fun j hj => (hw j hj).2) l hl i hi⟩) hn
    (fun i hi => ⟨h i hi, hpress i hi⟩) ho
  refine ⟨o, ho, hgive, lineOf_false.mpr fun i hi => ?_, hkeep⟩
  have hzero : rounds (o.world i) = 0 := hdone i hi
  unfold rounds at hzero
  split at hzero
  · cases hzero
  · exact Bool.not_eq_true _ ▸ ‹_›

end CanPci.Uart
