import CanPci.Uart.CircBuf
import CanPci.Uart.Transfer

/-!
# The driver on the emulated UART

The driver's accesses reach the UART one by one. Before each of them the backend may
deliver bytes, within what `serial_can_receive` allows, and timers may expire.
-/

namespace CanPci.Uart
open RingFifo Machine

/-- What a backend does; it sends no `CHR_EVENT_BREAK`. -/
inductive Backend
  | data (bs : List Byte)
  | fifoTimeout
  | pollModem (ans : Answers)
  deriving DecidableEq, Repr

/-- `script` is what happens before the next accesses, with what the backend answers in
them; `got` is what the backend delivered so far, `sent` what it was offered. -/
structure Wire where
  uart : SerialState
  script : List (List Backend × Answers)
  got : List Byte
  sent : List Byte
  deriving DecidableEq, Repr

namespace Wire

/-- The backend delivers what it may; the rest stays with it. -/
def backend (c : Wire) : Backend → Wire
  | .data bs =>
    match bs.take (serialCanReceive c.uart) with
    | [] => c
    | b :: bs => {c with uart := (step c.uart (.receive b bs)).1, got := c.got ++ b :: bs}
  | .fifoTimeout => {c with uart := (step c.uart .fifoTimeout).1}
  | .pollModem ans => {c with uart := (step c.uart (.pollModem ans)).1}

def backendAll (c : Wire) (bs : List Backend) : Wire := bs.foldl backend c

/-- Without a script the backend is silent, takes every byte and has no modem lines. -/
def advance (c : Wire) : Answers × Wire :=
  match c.script with
  | [] => (quietAnswers, c)
  | (bs, ans) :: script => (ans, backendAll {c with script := script} bs)

def read (addr : ℕ) (c : Wire) : Byte × Wire :=
  let (ans, c) := c.advance
  let (v, s, _) := serialIoportRead c.uart addr ans
  (v, {c with uart := s})

def write (addr : ℕ) (v : Byte) (c : Wire) : Wire :=
  let (ans, c) := c.advance
  let (s, out) := serialIoportWrite c.uart addr v ans
  {c with uart := s, sent := c.sent ++ out.filterMap Event.sent}

end Wire

instance : SerialIo Wire := ⟨Wire.read, Wire.write⟩

/-- No byte has been lost and no error waits to be reported. -/
structure Live (s : SerialState) : Prop where
  exact : s.Exact
  clean : s.lsr &&& uartLsrIntAny = 0#8

/-- The port is open: divisor latch closed, loopback off, `ier` as the driver has it. -/
structure Running (ier : Byte) (s : SerialState) : Prop extends Live s where
  dlab : s.lcr &&& uartLcrDlab = 0#8
  loop : s.mcr &&& uartMcrLoop = 0#8
  ier : s.ier = ier

/-- The fields that the driver sets, and the transmitter's interrupt. -/
def SerialState.control (s : SerialState) : Byte × Byte × Byte × Bool :=
  (s.lcr, s.mcr, s.ier, s.thrIpending)

theorem pollModem_control (s : SerialState) (ans : Answers) :
    (step s (.pollModem ans)).1.control = s.control := by
  obtain ⟨m, y, q, p, l, heq⟩ := pollModem_eq s ans
  rw [heq]
  rfl

theorem parameters_control (s : SerialState) : (serialUpdateParameters s).1.control = s.control := by
  obtain ⟨t, ht⟩ := serialUpdateParameters_eq s
  rw [ht]
  rfl

theorem writeFcr_control (s : SerialState) (v : Byte) :
    (writeFcr s v).control = s.control ∧ (writeFcr s v).lsr = s.lsr := by
  by_cases hv : s.fcr = v
  · rw [writeFcr, if_pos hv]
    exact ⟨rfl, rfl⟩
  · rw [writeFcr_eq hv]
    exact ⟨rfl, rfl⟩

theorem writeLcr_control (s : SerialState) (v : Byte) :
    (writeLcr s v).1.control = (v, s.mcr, s.ier, s.thrIpending) := by
  obtain ⟨t, b, heq⟩ := writeLcr_eq s v
  rw [heq]
  rfl

theorem writeMcr_control (s : SerialState) (v : Byte) (ans : Answers) :
    (writeMcr s v ans).1.control = (s.lcr, v &&& 0x1f, s.ier, s.thrIpending) := by
  obtain ⟨p, heq⟩ := writeMcr_eq s v ans
  rw [heq]
  rfl

theorem rxStore_control (s : SerialState) (b : Byte) (bs : List Byte) :
    (serialUpdateIrq (rxStore s b bs)).control = s.control := by
  obtain ⟨f, r, l, t, heq⟩ := rxStore_eq s b bs
  rw [heq]
  rfl

/-- Within what `serial_can_receive` allows, bytes only raise `UART_LSR_DR`. -/
theorem rxStore_status {s : SerialState} (h : s.Sound) (b : Byte) (bs : List Byte)
    (hroom : bs.length + 1 ≤ serialCanReceive s) : (rxStore s b bs).lsr = s.lsr ||| uartLsrDr := by
  by_cases hfe : s.fcr &&& uartFcrFe = 0#8
  · have hdr : s.lsr &&& uartLsrDr = 0#8 := by
      by_contra hd
      rw [serialCanReceive, if_neg (not_not.mpr hfe), if_pos hd] at hroom
      omega
    rw [rxStore_rbr hfe]
    show rbrStatus s.lsr = _
    rw [rbrStatus, if_neg (not_not.mpr hdr)]
  · have hfit := canReceive_room h hfe
    rw [rxStore_fifo hfe, if_pos (by rw [List.length_cons]; omega)]

theorem readMsr_control (s : SerialState) (ans : Answers) :
    (readMsr s ans).2.control = s.control := by
  obtain ⟨m, y, q, p, l, heq⟩ := readMsr_eq s ans
  rw [heq]
  rfl

theorem writeIer_control {s : SerialState} (h : s.Idle) (val : Byte) (ans : Answers)
    (hdlab : s.lcr &&& uartLcrDlab = 0#8) :
    (writeIer s val ans).1.control = (s.lcr, s.mcr, val &&& 0x0f, true) := by
  obtain ⟨m, y, q, p, l, heq⟩ := writeIer_closed hdlab val ans
  rw [heq, if_pos h.thre]
  rfl

theorem takeByte_control (s : SerialState) : (takeByte s).2.control = s.control := by
  obtain ⟨f, m, p, t, heq⟩ := takeByte_eq s
  rw [heq]
  rfl

theorem takeByte_lsr (s : SerialState) :
    ∃ m, (takeByte s).2.lsr = s.lsr &&& m := by
  obtain ⟨f, m, p, t, heq⟩ := takeByte_eq s
  exact ⟨m, by rw [heq]⟩

/-- What the backend may have done: bytes arrived behind those that waited. -/
structure Moves (c c' : Wire) : Prop where
  live : Live c'.uart
  control : c'.uart.control = c.uart.control
  sent : c'.sent = c.sent
  arrived : ∃ new, c'.got = c.got ++ new ∧ c'.uart.waiting = c.uart.waiting ++ new

theorem Moves.refl {c : Wire} (h : Live c.uart) : Moves c c :=
  ⟨h, rfl, rfl, [], (List.append_nil _).symm, (List.append_nil _).symm⟩

theorem arrived_trans {c c' c'' : Wire}
    (h : ∃ new, c'.got = c.got ++ new ∧ c'.uart.waiting = c.uart.waiting ++ new)
    (h' : ∃ new, c''.got = c'.got ++ new ∧ c''.uart.waiting = c'.uart.waiting ++ new) :
    ∃ new, c''.got = c.got ++ new ∧ c''.uart.waiting = c.uart.waiting ++ new := by
  obtain ⟨new, hgot, hwait⟩ := h
  obtain ⟨new', hgot', hwait'⟩ := h'
  refine ⟨new ++ new', ?_, ?_⟩
  · rw [hgot', hgot, List.append_assoc]
  · rw [hwait', hwait, List.append_assoc]

theorem Moves.trans {c c' c'' : Wire} (h : Moves c c') (h' : Moves c' c'') : Moves c c'' :=
  ⟨h'.live, h'.control.trans h.control, h'.sent.trans h.sent, arrived_trans h.arrived h'.arrived⟩

theorem Moves.of_keep {c : Wire} {t : SerialState} (hkeep : t.Exact ∧ t.waiting = c.uart.waiting)
    (hlsr : t.lsr = c.uart.lsr) (hclean : c.uart.lsr &&& uartLsrIntAny = 0#8)
    (hcontrol : t.control = c.uart.control) : Moves c {c with uart := t} :=
  ⟨⟨hkeep.1, by rw [← hlsr] at hclean; exact hclean⟩, hcontrol, rfl, [], (List.append_nil _).symm,
    by rw [List.append_nil]; exact hkeep.2⟩

theorem view_lsr {s t : SerialState} (h : t.rxView = s.rxView) : t.lsr = s.lsr :=
  congrArg (fun v => v.2.2.1) h

theorem backend_moves {c : Wire} (h : Live c.uart) (b : Backend) : Moves c (c.backend b) := by
  have hexact := h.exact
  cases b with
  | data bs =>
    unfold Wire.backend
    dsimp only
    split
    · exact Moves.refl h
    · rename_i x xs htake
      have hroom : xs.length + 1 ≤ serialCanReceive c.uart := by
        have := congrArg List.length htake
        rw [List.length_take, List.length_cons] at this
        omega
      obtain ⟨hex, hwait⟩ := receive_balance hexact x xs (hroom.trans (canReceive_le_room hexact.sound))
      have hrx := serialReceive1_eq hexact.sound.settled.recv.count_le x xs
      have hcontrol : (serialReceive1 c.uart x xs).1.control = c.uart.control := by
        rw [hrx]
        exact rxStore_control c.uart x xs
      have hclean : (serialReceive1 c.uart x xs).1.lsr &&& uartLsrIntAny = 0#8 := by
        rw [hrx]
        show (rxStore c.uart x xs).lsr &&& uartLsrIntAny = 0#8
        have hbit : ∀ y : Byte, y &&& uartLsrIntAny = 0#8 →
            (y ||| uartLsrDr) &&& uartLsrIntAny = 0#8 := by decide
        rw [rxStore_status hexact.sound x xs hroom]
        exact hbit _ h.clean
      exact ⟨⟨hex, hclean⟩, hcontrol, rfl, x :: xs, rfl, hwait.symm⟩
  | fifoTimeout =>
    have hkeep := fifoTimeout_keep hexact
    obtain ⟨p, t, y, l, heq⟩ := fifoTimeout_eq c.uart
    have hfields : (step c.uart .fifoTimeout).1.lsr = c.uart.lsr ∧
        (step c.uart .fifoTimeout).1.control = c.uart.control := by
      rw [heq]
      exact ⟨rfl, rfl⟩
    exact Moves.of_keep hkeep hfields.1 h.clean hfields.2
  | pollModem ans =>
    have hview := pollModem_view c.uart ans
    exact Moves.of_keep (hexact.keep (step_sound _ _ hexact.sound) hview) (view_lsr hview) h.clean
      (pollModem_control c.uart ans)

theorem backendAll_moves (bs : List Backend) {c : Wire} (h : Live c.uart) :
    Moves c (c.backendAll bs) := by
  induction bs generalizing c with
  | nil => exact Moves.refl h
  | cons b bs ih =>
    have hone := backend_moves h b
    exact hone.trans (ih hone.live)

theorem advance_moves {c : Wire} (h : Live c.uart) : Moves c c.advance.2 := by
  unfold Wire.advance
  split
  · exact Moves.refl h
  · rename_i bs ans script hscript
    have hall := backendAll_moves bs (c := {c with script := script}) h
    exact ⟨hall.live, hall.control, hall.sent, hall.arrived⟩

theorem Running.keep {ier : Byte} {s t : SerialState} (h : Running ier s) (ht : Live t)
    (hcontrol : t.control = s.control) : Running ier t ∧ t.thrIpending = s.thrIpending := by
  simp only [SerialState.control, Prod.mk.injEq] at hcontrol
  obtain ⟨hlcr, hmcr, hier, hthr⟩ := hcontrol
  exact ⟨⟨ht, by rw [hlcr]; exact h.dlab, by rw [hmcr]; exact h.loop, hier.trans h.ier⟩, hthr⟩

/-- What a wire may have become with nothing sent: bytes arrived behind those that waited. -/
structure Follows (ier : Byte) (c c' : Wire) : Prop where
  running : Running ier c'.uart
  sent : c'.sent = c.sent
  arrived : ∃ new, c'.got = c.got ++ new ∧ c'.uart.waiting = c.uart.waiting ++ new

/-- The same, with the transmitter's interrupt as it was. -/
structure Extends (ier : Byte) (c c' : Wire) : Prop extends Follows ier c c' where
  thr : c'.uart.thrIpending = c.uart.thrIpending

theorem Follows.trans {ier ier' : Byte} {c c' c'' : Wire} (h : Follows ier c c')
    (h' : Follows ier' c' c'') : Follows ier' c c'' :=
  ⟨h'.running, h'.sent.trans h.sent, arrived_trans h.arrived h'.arrived⟩

theorem Extends.trans {ier : Byte} {c c' c'' : Wire} (h : Extends ier c c')
    (h' : Extends ier c' c'') : Extends ier c c'' :=
  ⟨h.toFollows.trans h'.toFollows, h'.thr.trans h.thr⟩

theorem Running.extends {ier : Byte} {c c' : Wire} (h : Running ier c.uart) (hm : Moves c c') :
    Extends ier c c' := by
  obtain ⟨hrun, hthr⟩ := h.keep hm.live hm.control
  exact ⟨⟨hrun, hm.sent, hm.arrived⟩, hthr⟩

theorem advance_extends {ier : Byte} {c : Wire} (h : Running ier c.uart) :
    Extends ier c c.advance.2 := h.extends (advance_moves h.toLive)

theorem pending_odd {s : SerialState} {y : Byte} (h : y &&& 0x0f = s.pending) :
    y &&& 0x01 ≠ 0#8 ↔ s.pending = uartIirNoInt := by
  unfold SerialState.pending at h ⊢
  revert h
  split_ifs
  all_goals
    revert y
    decide

theorem dr_iff_waiting {s : SerialState} (h : s.Exact) :
    s.lsr &&& uartLsrDr ≠ 0#8 ↔ s.waiting ≠ [] := by
  refine ⟨fun hdr hnil => hdr (h.dr_of_nil hnil), fun hne hdr => hne ?_⟩
  by_cases hfe : s.fcr &&& uartFcrFe = 0#8
  · exact waiting_none hfe hdr
  · have hzero : s.recvFifo.count = 0 := by
      by_contra hpos
      exact h.sound.settled.ready hfe (Nat.pos_of_ne_zero hpos) hdr
    rw [waiting_fifo hfe]
    exact List.length_eq_zero_iff.mp ((SerialFIFO.items_length _).trans hzero)

section
variable {ier : Byte} {c : Wire} (h : Running ier c.uart)
include h

theorem serialIn_lsr : Extends ier c (serialIn uartLsr c).2 ∧
    (serialIn uartLsr c).1 = (serialIn uartLsr c).2.uart.lsr := by
  have hadv := advance_extends h
  have hquiet : readLsr c.advance.2.uart = (c.advance.2.uart.lsr, c.advance.2.uart) := by
    have hbit : ∀ y : Byte, y &&& uartLsrIntAny = 0#8 →
        ¬ y &&& (uartLsrBi ||| uartLsrOe) ≠ 0#8 := by decide
    rw [readLsr, if_neg (hbit _ hadv.running.clean)]
  have hread : serialIn uartLsr c = ((readLsr c.advance.2.uart).1,
      {c.advance.2 with uart := (readLsr c.advance.2.uart).2}) := rfl
  rw [hread, hquiet]
  exact ⟨hadv, rfl⟩

theorem serialIn_msr : Extends ier c (serialIn uartMsr c).2 := by
  have hadv := advance_extends h
  have hexact := hadv.running.exact
  have hview := readMsr_view c.advance.2.uart c.advance.1
  exact hadv.trans (hadv.running.extends (Moves.of_keep
    (hexact.keep (hexact.sound.msr c.advance.1) hview) (view_lsr hview) hadv.running.clean
    (readMsr_control c.advance.2.uart c.advance.1)))

/-- Reading `iir` takes back the transmitter's interrupt at most when it reports some. -/
theorem serialIn_iir : Follows ier c (serialIn uartIir c).2 ∧
    ((serialIn uartIir c).1 &&& 0x01 ≠ 0#8 → Extends ier c (serialIn uartIir c).2) := by
  have hadv := advance_extends h
  have hview := readIir_view c.advance.2.uart
  have hsound := hadv.running.exact.sound.iir
  obtain ⟨hexact, hwait⟩ := hadv.running.exact.keep hsound hview
  have hfields : (readIir c.advance.2.uart).2.lcr = c.advance.2.uart.lcr ∧
      (readIir c.advance.2.uart).2.mcr = c.advance.2.uart.mcr ∧
      (readIir c.advance.2.uart).2.ier = c.advance.2.uart.ier := by
    obtain ⟨p, y, q, heq⟩ := readIir_eq c.advance.2.uart
    rw [heq]
    exact ⟨rfl, rfl, rfl⟩
  have hrun : Running ier (readIir c.advance.2.uart).2 :=
    ⟨⟨hexact, by rw [view_lsr hview]; exact hadv.running.clean⟩,
      by rw [hfields.1]; exact hadv.running.dlab, by rw [hfields.2.1]; exact hadv.running.loop,
      hfields.2.2.trans hadv.running.ier⟩
  have hfollow : Follows ier c.advance.2 (serialIn uartIir c).2 :=
    ⟨hrun, rfl, [], (List.append_nil _).symm, by rw [List.append_nil]; exact hwait⟩
  refine ⟨hadv.toFollows.trans hfollow, fun hnone => ⟨hadv.toFollows.trans hfollow, ?_⟩⟩
  have hid : ∀ y : Byte, y &&& 0x0f = c.advance.2.uart.pending → y &&& 0x01 ≠ 0#8 →
      y &&& uartIirId ≠ uartIirThri := by
    intro y hy hodd
    have hnone' := (pending_odd hy).mp hodd
    rw [hnone'] at hy
    revert y
    decide
  have hkeep : (readIir c.advance.2.uart).2 = c.advance.2.uart :=
    if_neg (hid _ hadv.running.exact.sound.coherent.1 hnone)
  show (readIir c.advance.2.uart).2.thrIpending = c.uart.thrIpending
  rw [hkeep]
  exact hadv.thr

/-- What `UART_LSR_DR` promised is there, and more may have come behind it. -/
theorem serialIn_rx (hdr : c.uart.lsr &&& uartLsrDr ≠ 0#8) :
    Running ier (serialIn uartRx c).2.uart ∧ (serialIn uartRx c).2.sent = c.sent ∧
    (serialIn uartRx c).2.uart.thrIpending = c.uart.thrIpending ∧
    ∃ new, (serialIn uartRx c).2.got = c.got ++ new ∧
      c.uart.waiting ++ new = (serialIn uartRx c).1 :: (serialIn uartRx c).2.uart.waiting := by
  have hadv := advance_extends h
  obtain ⟨new, hgot, hwait⟩ := hadv.arrived
  have hdr' : c.advance.2.uart.lsr &&& uartLsrDr ≠ 0#8 := by
    rw [dr_iff_waiting hadv.running.exact, hwait]
    exact fun hnil => (dr_iff_waiting h.exact).mp hdr (List.append_eq_nil_iff.mp hnil).1
  have hread : serialIn uartRx c = ((readRbr c.advance.2.uart).1,
      {c.advance.2 with uart := (readRbr c.advance.2.uart).2.1}) := rfl
  obtain ⟨hexact, hbal⟩ := readRbr_balance hadv.running.exact hadv.running.dlab
  have hstate : (readRbr c.advance.2.uart).2.1 =
      serialUpdateIrq (takeByte c.advance.2.uart).2 := by
    rw [readRbr, if_neg (not_not.mpr hadv.running.dlab)]
  have hcontrol : (readRbr c.advance.2.uart).2.1.control = c.advance.2.uart.control := by
    rw [hstate]
    exact takeByte_control c.advance.2.uart
  have hclean : (readRbr c.advance.2.uart).2.1.lsr &&& uartLsrIntAny = 0#8 := by
    obtain ⟨m, hm⟩ := takeByte_lsr c.advance.2.uart
    rw [hstate]
    show (takeByte c.advance.2.uart).2.lsr &&& uartLsrIntAny = 0#8
    rw [hm, BitVec.and_assoc, BitVec.and_comm m, ← BitVec.and_assoc, hadv.running.clean,
      BitVec.zero_and]
  obtain ⟨hrun, hthr⟩ := hadv.running.keep ⟨hexact, hclean⟩ hcontrol
  rw [hread]
  refine ⟨hrun, hadv.sent, hthr.trans hadv.thr, new, hgot, ?_⟩
  rw [if_pos hdr'] at hbal
  rw [← hwait, hbal]
  rfl

theorem serialOut_ier {v : Byte} (hv : v &&& 0x0f = v) :
    Follows v c (serialOut uartIer v c) ∧ (serialOut uartIer v c).uart.thrIpending = true := by
  have hadv := advance_extends h
  have hsound := hadv.running.exact.sound
  have hview := writeIer_view c.advance.2.uart v c.advance.1
  have hcontrol := writeIer_control hsound.settled.idle v c.advance.1 hadv.running.dlab
  have hsent := write_sent hsound uartIer v c.advance.1
  obtain ⟨hexact, hwait⟩ := hadv.running.exact.keep (hsound.ier v c.advance.1) hview
  simp only [SerialState.control, Prod.mk.injEq] at hcontrol
  obtain ⟨hlcr, hmcr, hier, hthr⟩ := hcontrol
  have hrun : Running v (writeIer c.advance.2.uart v c.advance.1).1 :=
    ⟨⟨hexact, by rw [view_lsr hview]; exact hadv.running.clean⟩,
      by rw [hlcr]; exact hadv.running.dlab, by rw [hmcr]; exact hadv.running.loop, hier.trans hv⟩
  refine ⟨hadv.toFollows.trans ⟨hrun, ?_, [], (List.append_nil _).symm, ?_⟩, hthr⟩
  · show c.advance.2.sent ++ (serialIoportWrite c.advance.2.uart uartIer v c.advance.1).2.filterMap
      Event.sent = c.advance.2.sent
    rw [hsent, thrByte, if_neg (fun hc => absurd hc.1 (by decide)), List.append_nil]
  · rw [List.append_nil]
    exact hwait

theorem serialOut_tx (b : Byte) : Running ier (serialOut uartTx b c).uart ∧
    (serialOut uartTx b c).uart.thrIpending = true ∧
    (serialOut uartTx b c).sent = c.sent ++ [b] ∧
    ∃ new, (serialOut uartTx b c).got = c.got ++ new ∧
      (serialOut uartTx b c).uart.waiting = c.uart.waiting ++ new := by
  have hadv := advance_extends h
  have hsound := hadv.running.exact.sound
  obtain ⟨f, retry, -, -, -, heq⟩ :=
    writeThr_eq hsound.settled.idle b c.advance.1 hadv.running.dlab hadv.running.loop
  obtain ⟨new, hgot, hwait⟩ := hadv.arrived
  have hview := writeThr_view hsound b c.advance.1 (fun _ => hadv.running.loop)
  obtain ⟨hexact, hsame⟩ := hadv.running.exact.keep (hsound.thr b c.advance.1) hview
  have hwrite : serialOut uartTx b c = {c.advance.2 with
      uart := (writeThr c.advance.2.uart b c.advance.1).1
      sent := c.advance.2.sent ++
        (writeThr c.advance.2.uart b c.advance.1).2.filterMap Event.sent} := rfl
  rw [hwrite]
  rw [heq] at hexact hsame ⊢
  refine ⟨⟨⟨hexact, hadv.running.clean⟩, hadv.running.dlab, hadv.running.loop, hadv.running.ier⟩, rfl,
    ?_, new, hgot, hsame.trans hwait⟩
  show c.advance.2.sent ++ [b] = c.sent ++ [b]
  rw [hadv.sent]

end

end CanPci.Uart
