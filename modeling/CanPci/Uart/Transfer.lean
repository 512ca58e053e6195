import CanPci.Lib.Ledger
import CanPci.Uart.Interrupt

/-!
# What passes through the UART

Bytes for the transmitter go out at once and in order. Bytes from the backend wait in the
receive FIFO, or in `rbr` while the FIFOs are off, until the guest reads them.
-/

namespace CanPci.Uart
open RingFifo Machine

theorem port_zero {addr : ℕ} (h1 : addr % 8 ≠ 1) (h2 : addr % 8 ≠ 2) (h3 : addr % 8 ≠ 3)
    (h4 : addr % 8 ≠ 4) (h5 : addr % 8 ≠ 5) (h6 : addr % 8 ≠ 6) (h7 : addr % 8 ≠ 7) :
    addr % 8 = 0 := by
  omega

theorem read_port_zero (s : SerialState) {addr : ℕ} (h : addr % 8 = 0) (ans : Answers) :
    serialIoportRead s addr ans = readRbr s := by
  unfold serialIoportRead
  split
  all_goals first | omega | rfl

/-! ### Sending -/

def Event.sent : Event → Option Byte
  | chr b => some b
  | _ => none

/-- The byte that a write hands to the transmitter outside loopback. -/
def thrByte (s : SerialState) (addr : ℕ) (val : Byte) : List Byte :=
  if addr % 8 = 0 ∧ s.lcr &&& uartLcrDlab = 0#8 ∧ s.mcr &&& uartMcrLoop = 0#8 then [val] else []

def written (s : SerialState) : Input → List Byte
  | .write addr val _ => thrByte s addr val
  | _ => []

/-- What else a write may tell the backend; the clock is that of the UART. -/
inductive Event.Aside (baudbase : ℕ) : Event → Prop
  | parameters {u : SerialState} {e : Event} (hbase : u.baudbase = baudbase)
    (he : e ∈ (serialUpdateParameters u).2) : Aside baudbase e
  | setBreak (enable : Byte) : Aside baudbase (.setBreak enable)
  | setTiocm (flags : Tiocm) : Aside baudbase (.setTiocm flags)
  | wakeup : Aside baudbase .wakeup

theorem Event.Aside.sent {baudbase : ℕ} {e : Event} (h : e.Aside baudbase) : e.sent = none := by
  cases h with
  | @parameters u _ hbase he =>
    unfold serialUpdateParameters at he
    split at he
    · exact absurd he List.not_mem_nil
    · simp only [List.mem_cons, List.not_mem_nil, or_false] at he
      rcases he with rfl | rfl | rfl <;> rfl
  | setBreak enable => rfl
  | setTiocm flags => rfl
  | wakeup => rfl

theorem parameters_sent (s : SerialState) :
    (serialUpdateParameters s).2.filterMap Event.sent = [] :=
  List.filterMap_eq_nil_iff.mpr fun _ he => (Event.Aside.parameters rfl he).sent

theorem wakeup_aside (w : Bool) (baudbase : ℕ) :
    ∀ e ∈ (if w then [Event.wakeup] else []), e.Aside baudbase := by
  cases w with
  | false => exact fun e he => absurd he List.not_mem_nil
  | true =>
    intro e he
    rw [List.mem_singleton.mp he]
    exact .wakeup

theorem writeThr_emits {s : SerialState} (h : s.Sound) (val : Byte) (ans : Answers) :
    ∃ out, (writeThr s val ans).2 = out ++
        (if s.lcr &&& uartLcrDlab = 0#8 ∧ s.mcr &&& uartMcrLoop = 0#8 then [val] else []).map .chr ∧
      ∀ e ∈ out, e.Aside s.baudbase := by
  by_cases hdlab : s.lcr &&& uartLcrDlab = 0#8
  · by_cases hloop : s.mcr &&& uartMcrLoop = 0#8
    · obtain ⟨f, retry, -, -, -, heq⟩ := writeThr_eq h.settled.idle val ans hdlab hloop
      rw [heq, if_pos ⟨hdlab, hloop⟩]
      exact ⟨[], rfl, fun e he => absurd he List.not_mem_nil⟩
    · obtain ⟨f, -, -, heq⟩ :=
        writeThr_loop h.settled.idle h.settled.recv.count_le val ans hdlab hloop
      rw [if_neg fun hc => hloop hc.2, heq]
      exact ⟨_, (List.append_nil _).symm, wakeup_aside s.wakeup s.baudbase⟩
  · rw [writeThr_open hdlab, if_neg fun hc => hdlab hc.1]
    exact ⟨_, (List.append_nil _).symm, fun e => .parameters rfl⟩

theorem write_emits {s : SerialState} (h : s.Sound) (addr : ℕ) (val : Byte) (ans : Answers) :
    ∃ out, (serialIoportWrite s addr val ans).2 = out ++ (thrByte s addr val).map .chr ∧
      ∀ e ∈ out, e.Aside s.baudbase := by
  have hother : ∀ {out : List Event}, addr % 8 ≠ 0 → (∀ e ∈ out, e.Aside s.baudbase) →
      ∃ out', out = out' ++ (thrByte s addr val).map .chr ∧ ∀ e ∈ out', e.Aside s.baudbase := by
    intro out hn hout
    rw [thrByte, if_neg fun hc => hn hc.1]
    exact ⟨out, (List.append_nil _).symm, hout⟩
  have hnone : ∀ e ∈ ([] : List Event), e.Aside s.baudbase := fun e he =>
    absurd he List.not_mem_nil
  unfold serialIoportWrite
  split
  · refine hother (by omega) ?_
    by_cases hdlab : s.lcr &&& uartLcrDlab = 0#8
    · obtain ⟨m, y, q, p, l, heq⟩ := writeIer_closed hdlab val ans
      rw [heq]
      exact hnone
    · rw [writeIer_open hdlab]
      exact fun e => .parameters rfl
  · exact hother (by omega) hnone
  · refine hother (by omega) ?_
    unfold writeLcr
    dsimp only
    split
    · intro e he
      rcases List.mem_append.mp he with hparam | hbreak
      · exact .parameters (u := {s with lcr := val}) rfl hparam
      · rw [List.mem_singleton.mp hbreak]
        exact .setBreak _
    · exact fun e he => .parameters (u := {s with lcr := val}) rfl he
  · refine hother (by omega) ?_
    unfold writeMcr
    dsimp only
    split
    · exact hnone
    · split
      · intro e he
        rw [List.mem_singleton.mp he]
        exact .setTiocm _
      · exact hnone
  · exact hother (by omega) hnone
  · exact hother (by omega) hnone
  · exact hother (by omega) hnone
  · rename_i h1 h2 h3 h4 h5 h6 h7
    have hzero := port_zero h1 h2 h3 h4 h5 h6 h7
    rw [thrByte]
    simp only [hzero, true_and]
    exact writeThr_emits h val ans

theorem write_sent {s : SerialState} (h : s.Sound) (addr : ℕ) (val : Byte) (ans : Answers) :
    (serialIoportWrite s addr val ans).2.filterMap Event.sent = thrByte s addr val := by
  obtain ⟨out, heq, haside⟩ := write_emits h addr val ans
  have hnone : out.filterMap Event.sent = [] :=
    List.filterMap_eq_nil_iff.mpr fun e he => (haside e he).sent
  have hbyte : (thrByte s addr val).filterMap (Event.sent ∘ Event.chr) = thrByte s addr val := by
    rw [show Event.sent ∘ Event.chr = some from rfl, List.filterMap_some]
  rw [heq, List.filterMap_append, hnone, List.filterMap_map, hbyte, List.nil_append]

theorem read_emits (s : SerialState) (addr : ℕ) (ans : Answers) :
    ∀ e ∈ (serialIoportRead s addr ans).2.2, e = .acceptInput := by
  have hnone : ∀ e ∈ ([] : List Event), e = .acceptInput := fun e he => absurd he List.not_mem_nil
  unfold serialIoportRead
  split
  · exact hnone
  · exact hnone
  · exact hnone
  · exact hnone
  · exact hnone
  · exact hnone
  · exact hnone
  · unfold readRbr
    split
    · exact hnone
    · dsimp only
      split
      · exact fun e he => List.mem_singleton.mp he
      · exact hnone

theorem read_sent (s : SerialState) (addr : ℕ) (ans : Answers) :
    (serialIoportRead s addr ans).2.2.filterMap Event.sent = [] :=
  List.filterMap_eq_nil_iff.mpr fun e he => by
    rw [read_emits s addr ans e he]
    rfl

theorem step_sent (s : SerialState) (a : Input) (h : s.Sound) :
    (step s a).1.Sound ∧ (step s a).2.filterMap Event.sent = written s a := by
  refine ⟨step_sound s a h, ?_⟩
  cases a with
  | write addr val ans => exact write_sent h addr val ans
  | read addr ans => exact read_sent s addr ans
  | receive b bs =>
    exact List.filterMap_eq_nil_iff.mpr fun e he => (wakeup_aside s.wakeup s.baudbase e he).sent
  | eventBreak => rfl
  | fifoTimeout => rfl
  | transmit ans =>
    rw [step, h.settled.idle.timer]
    rfl
  | pollModem ans => rfl
  | reset => rfl

/-- Whatever the backend answers, the bytes offered to it are those written to the
transmitter, each once and in the order of the writes; and no write is ever made to wait:
after any run the transmitter reads as empty, and its timer is not armed. -/
theorem transmit_in_order (baudbase : ℕ) (as : List Input) :
    (run step (SerialState.init baudbase) as).2.filterMap Event.sent =
      tally step written (SerialState.init baudbase) as ∧
    (run step (SerialState.init baudbase) as).1.Idle :=
  ⟨filterMap_tally step_sent as (init_sound baudbase), (run_sound baudbase as).settled.idle⟩

/-! ### Receiving -/

/-- The received bytes that wait for the guest. -/
def SerialState.waiting (s : SerialState) : List Byte :=
  if s.fcr &&& uartFcrFe ≠ 0#8 then s.recvFifo.items
  else if s.lsr &&& uartLsrDr ≠ 0#8 then [s.rbr] else []

/-- The fields that receiving goes through. -/
def SerialState.rxView (s : SerialState) : Byte × SerialFIFO × Byte × Byte × Bool × Bool :=
  (s.fcr, s.recvFifo, s.lsr, s.rbr, s.timeoutIpending, s.fifoTimeoutTimer)

theorem waiting_congr {s t : SerialState} (h : t.rxView = s.rxView) : t.waiting = s.waiting := by
  simp only [SerialState.rxView, Prod.mk.injEq] at h
  obtain ⟨hfcr, hfifo, hlsr, hrbr, -⟩ := h
  rw [SerialState.waiting, SerialState.waiting, hfcr, hfifo, hlsr, hrbr]

theorem waiting_fifo {s : SerialState} (h : s.fcr &&& uartFcrFe ≠ 0#8) :
    s.waiting = s.recvFifo.items := if_pos h

theorem waiting_rbr {s : SerialState} (h : s.fcr &&& uartFcrFe = 0#8)
    (hdr : s.lsr &&& uartLsrDr ≠ 0#8) : s.waiting = [s.rbr] := by
  rw [SerialState.waiting, if_neg (not_not.mpr h), if_pos hdr]

theorem waiting_none {s : SerialState} (h : s.fcr &&& uartFcrFe = 0#8)
    (hdr : s.lsr &&& uartLsrDr = 0#8) : s.waiting = [] := by
  rw [SerialState.waiting, if_neg (not_not.mpr h), if_neg (not_not.mpr hdr)]

/-- `UART_LSR_DR` promises a byte, and no byte has been lost. -/
structure SerialState.Exact (s : SerialState) : Prop where
  sound : s.Sound
  promise : s.fcr &&& uartFcrFe ≠ 0#8 → s.lsr &&& uartLsrDr ≠ 0#8 → 0 < s.recvFifo.count
  noOverrun : s.lsr &&& uartLsrOe = 0#8

def received (_ : SerialState) : Input → List Byte
  | .receive b bs => b :: bs
  | .eventBreak => [0]
  | _ => []

/-- The values that reads of port 0 return while `UART_LSR_DR` is set. -/
def taken (s : SerialState) : Input → List Byte
  | .read addr ans =>
    if addr % 8 = 0 ∧ s.lcr &&& uartLcrDlab = 0#8 ∧ s.lsr &&& uartLsrDr ≠ 0#8 then
      [(serialIoportRead s addr ans).1]
    else []
  | _ => []

/-- How many more bytes the receiver can take. -/
def SerialState.room (s : SerialState) : ℕ :=
  if s.fcr &&& uartFcrFe ≠ 0#8 then uartFifoLength - s.recvFifo.count
  else if s.lsr &&& uartLsrDr ≠ 0#8 then 0 else 1

/-- What the backend sends finds room, and the guest neither flushes waiting bytes nor
sends in loopback. -/
def Careful (s : SerialState) : Input → Prop
  | .write addr val _ =>
    (addr % 8 = 0 → s.lcr &&& uartLcrDlab = 0#8 → s.mcr &&& uartMcrLoop = 0#8) ∧
    (addr % 8 = 2 → s.fcr ≠ val → flushBits s.fcr val &&& uartFcrRfr ≠ 0#8 → s.waiting = [])
  | .receive _ bs => bs.length + 1 ≤ s.room
  | .eventBreak => s.recvFifo.count < uartFifoLength ∧
    (s.fcr &&& uartFcrFe = 0#8 → s.lsr &&& uartLsrDr = 0#8)
  | .reset => s.waiting = []
  | _ => True

instance decidableCareful (s : SerialState) : ∀ a, Decidable (Careful s a)
  | .write _ _ _ => inferInstanceAs (Decidable (_ ∧ _))
  | .read _ _ => instDecidableTrue
  | .receive _ _ => inferInstanceAs (Decidable (_ ≤ _))
  | .eventBreak => inferInstanceAs (Decidable (_ ∧ _))
  | .fifoTimeout => instDecidableTrue
  | .transmit _ => instDecidableTrue
  | .pollModem _ => instDecidableTrue
  | .reset => inferInstanceAs (Decidable (_ = _))

theorem SerialState.Exact.keep {s t : SerialState} (h : s.Exact) (ht : t.Sound) (hview : t.rxView = s.rxView) :
    t.Exact ∧ t.waiting = s.waiting := by
  refine ⟨⟨ht, ?_, ?_⟩, waiting_congr hview⟩
  all_goals
    simp only [SerialState.rxView, Prod.mk.injEq] at hview
    obtain ⟨hfcr, hfifo, hlsr, -⟩ := hview
  · rw [hfcr, hlsr, hfifo]
    exact h.promise
  · rw [hlsr]
    exact h.noOverrun

theorem SerialState.Exact.dr_of_nil {s : SerialState} (h : s.Exact) (hnil : s.waiting = []) :
    s.lsr &&& uartLsrDr = 0#8 := by
  by_contra hdr
  by_cases hfe : s.fcr &&& uartFcrFe = 0#8
  · rw [waiting_rbr hfe hdr] at hnil
    cases hnil
  · rw [waiting_fifo hfe] at hnil
    have hpos := h.promise hfe hdr
    rw [← SerialFIFO.items_length, hnil] at hpos
    exact absurd hpos (Nat.lt_irrefl 0)

theorem parameters_view (s : SerialState) : (serialUpdateParameters s).1.rxView = s.rxView := by
  obtain ⟨t, ht⟩ := serialUpdateParameters_eq s
  rw [ht]
  rfl

theorem pollModem_view (s : SerialState) (ans : Answers) :
    (step s (.pollModem ans)).1.rxView = s.rxView := by
  obtain ⟨m, y, q, p, l, heq⟩ := pollModem_eq s ans
  rw [heq]
  rfl

theorem writeIer_view (s : SerialState) (val : Byte) (ans : Answers) :
    (writeIer s val ans).1.rxView = s.rxView := by
  by_cases hdlab : s.lcr &&& uartLcrDlab = 0#8
  · obtain ⟨m, y, q, p, l, heq⟩ := writeIer_closed hdlab val ans
    rw [heq]
    dsimp only
    split
    · rfl
    · rfl
  · rw [writeIer_open hdlab]
    exact parameters_view _

theorem writeLcr_view (s : SerialState) (val : Byte) : (writeLcr s val).1.rxView = s.rxView := by
  obtain ⟨t, b, heq⟩ := writeLcr_eq s val
  rw [heq]
  rfl

theorem writeMcr_view (s : SerialState) (val : Byte) (ans : Answers) :
    (writeMcr s val ans).1.rxView = s.rxView := by
  obtain ⟨p, heq⟩ := writeMcr_eq s val ans
  rw [heq]
  rfl

theorem writeThr_view {s : SerialState} (h : s.Sound) (val : Byte) (ans : Answers)
    (hloop : s.lcr &&& uartLcrDlab = 0#8 → s.mcr &&& uartMcrLoop = 0#8) :
    (writeThr s val ans).1.rxView = s.rxView := by
  by_cases hdlab : s.lcr &&& uartLcrDlab = 0#8
  · obtain ⟨f, retry, -, -, -, heq⟩ := writeThr_eq h.settled.idle val ans hdlab (hloop hdlab)
    rw [heq]
    rfl
  · rw [writeThr_open hdlab]
    exact parameters_view _

theorem readIir_view (s : SerialState) : (readIir s).2.rxView = s.rxView := by
  obtain ⟨p, y, q, heq⟩ := readIir_eq s
  rw [heq]
  rfl

theorem readMsr_view (s : SerialState) (ans : Answers) : (readMsr s ans).2.rxView = s.rxView := by
  obtain ⟨m, y, q, p, l, heq⟩ := readMsr_eq s ans
  rw [heq]
  rfl

theorem lower_dr (x : Byte) : (x &&& ~~~(uartLsrDr ||| uartLsrBi)) &&& uartLsrDr = 0#8 := by
  revert x
  decide

theorem lower_oe {x : Byte} (h : x &&& uartLsrOe = 0#8) (m : Byte) :
    (x &&& m) &&& uartLsrOe = 0#8 := by
  rw [BitVec.and_assoc, BitVec.and_comm m, ← BitVec.and_assoc, h, BitVec.zero_and]

/-- What port 0 gives while `UART_LSR_DR` is set is the oldest byte that waits. -/
theorem readRbr_balance {s : SerialState} (h : s.Exact) (hdlab : s.lcr &&& uartLcrDlab = 0#8) :
    (readRbr s).2.1.Exact ∧ s.waiting =
      (if s.lsr &&& uartLsrDr ≠ 0#8 then [(readRbr s).1] else []) ++ (readRbr s).2.1.waiting := by
  have hsound := h.sound.rbr
  have hread : readRbr s = ((takeByte s).1, serialUpdateIrq (takeByte s).2,
      (readRbr s).2.2) := by
    rw [readRbr, if_neg (not_not.mpr hdlab)]
  rw [hread] at hsound ⊢
  dsimp only at hsound ⊢
  by_cases hfe : s.fcr &&& uartFcrFe = 0#8
  · have htake := takeByte_rbr hfe
    rw [htake] at hsound ⊢
    refine ⟨⟨hsound, fun hon => absurd hfe hon, lower_oe h.noOverrun _⟩, ?_⟩
    by_cases hdr : s.lsr &&& uartLsrDr = 0#8
    · rw [if_neg (not_not.mpr hdr), waiting_none hfe hdr, waiting_none (by exact hfe) (by exact lower_dr s.lsr)]
      rfl
    · rw [if_pos hdr, waiting_rbr hfe hdr, waiting_none (by exact hfe) (by exact lower_dr s.lsr)]
      rfl
  · rcases Nat.lt_trichotomy 1 s.recvFifo.count with hmore | hone | hnil
    · have hdr := h.sound.settled.ready hfe (by omega)
      have htake := takeByte_more hfe hmore
      rw [htake] at hsound ⊢
      refine ⟨⟨hsound, fun _ _ => ?_, h.noOverrun⟩, ?_⟩
      · show 0 < s.recvFifo.count - 1
        omega
      · rw [if_pos hdr, waiting_fifo hfe, waiting_fifo (by exact hfe)]
        exact SerialFIFO.items_eq_cons h.sound.settled.recv (by omega)
    · have hdr := h.sound.settled.ready hfe (by omega)
      have htake := takeByte_last hfe hone.symm
      rw [htake] at hsound ⊢
      refine ⟨⟨hsound, fun _ hset => absurd (lower_dr s.lsr) hset, lower_oe h.noOverrun _⟩, ?_⟩
      rw [if_pos hdr, waiting_fifo hfe, waiting_fifo (by exact hfe)]
      exact SerialFIFO.items_eq_cons h.sound.settled.recv (by omega)
    · have hzero : s.recvFifo.count = 0 := by omega
      have hdr : ¬ s.lsr &&& uartLsrDr ≠ 0#8 := fun hset =>
        absurd (h.promise hfe hset) (by omega)
      have htake := takeByte_nil hfe hzero
      rw [htake] at hsound ⊢
      refine ⟨⟨hsound, fun _ hset => absurd (lower_dr s.lsr) hset, lower_oe h.noOverrun _⟩, ?_⟩
      rw [if_neg hdr, waiting_fifo hfe, waiting_fifo (by exact hfe)]
      rfl

theorem readLsr_keep {s : SerialState} (h : s.Exact) :
    (readLsr s).2.Exact ∧ (readLsr s).2.waiting = s.waiting := by
  have hdr : ∀ x : Byte, (x &&& ~~~(uartLsrBi ||| uartLsrOe)) &&& uartLsrDr = x &&& uartLsrDr := by
    decide
  have hsound := h.sound.lsr
  obtain ⟨y, l, heq⟩ := readLsr_eq s
  rw [heq] at hsound ⊢
  refine ⟨⟨hsound, fun hfe hd => h.promise hfe (by rw [← hdr]; exact hd), lower_oe h.noOverrun _⟩, ?_⟩
  unfold SerialState.waiting
  dsimp only
  rw [hdr]

theorem raise_oe {x : Byte} (h : x &&& uartLsrOe = 0#8) {m : Byte} (hm : m &&& uartLsrOe = 0#8) :
    (x ||| m) &&& uartLsrOe = 0#8 := by
  rw [BitVec.and_comm, BitVec.and_or_distrib_left, BitVec.and_comm, h, BitVec.and_comm, hm,
    BitVec.or_zero]

theorem canReceive_room {s : SerialState} (h : s.Sound) (hfe : s.fcr &&& uartFcrFe ≠ 0#8) :
    s.recvFifo.count + serialCanReceive s ≤ uartFifoLength := by
  have hitl := h.settled.trigger hfe
  have hcount := h.settled.recv.count_le
  have hle : s.recvFifo.count ≤ uartFifoLength := hcount
  rw [serialCanReceive, if_pos hfe]
  split_ifs
  · omega
  · omega
  · omega

/-- A backend that asks `serial_can_receive` finds room for what it is promised. -/
theorem canReceive_le_room {s : SerialState} (h : s.Sound) : serialCanReceive s ≤ s.room := by
  rw [SerialState.room]
  split
  · rename_i hfe
    have hfit := canReceive_room h hfe
    omega
  · rename_i hfe
    rw [serialCanReceive, if_neg hfe]

theorem receive_balance {s : SerialState} (h : s.Exact) (b : Byte) (bs : List Byte)
    (hroom : bs.length + 1 ≤ s.room) :
    (serialReceive1 s b bs).1.Exact ∧
      s.waiting ++ b :: bs = (serialReceive1 s b bs).1.waiting := by
  have hsound := h.sound.receive b bs
  rw [serialReceive1_eq h.sound.settled.recv.count_le] at hsound ⊢
  dsimp only at hsound ⊢
  by_cases hfe : s.fcr &&& uartFcrFe = 0#8
  · have hdr : s.lsr &&& uartLsrDr = 0#8 := by
      by_contra hd
      rw [SerialState.room, if_neg (not_not.mpr hfe), if_pos hd] at hroom
      omega
    have hbs : bs = [] := by
      rw [SerialState.room, if_neg (not_not.mpr hfe), if_neg (not_not.mpr hdr)] at hroom
      exact List.length_eq_zero_iff.mp (by omega)
    have hstatus : rbrStatus s.lsr = s.lsr ||| uartLsrDr := by
      rw [rbrStatus, if_neg (not_not.mpr hdr)]
    rw [rxStore_rbr hfe, hstatus] at hsound ⊢
    refine ⟨⟨hsound, fun hon => absurd hfe hon, raise_oe h.noOverrun (by decide)⟩, ?_⟩
    rw [waiting_none hfe hdr, hbs]
    rw [waiting_rbr (by exact hfe) (by exact raise_dr s.lsr)]
    rfl
  · rw [SerialState.room, if_pos hfe] at hroom
    have hlen : s.recvFifo.count + (b :: bs).length ≤ uartFifoLength := by
      rw [List.length_cons]
      omega
    have hall := SerialFIFO.offerAll_items h.sound.settled.recv (b :: bs)
    have hitems : ((b :: bs).foldl SerialFIFO.offer s.recvFifo).items = s.recvFifo.items ++ b :: bs := by
      rw [hall.2, List.take_of_length_le (by omega)]
    rw [rxStore_fifo hfe, if_pos hlen] at hsound ⊢
    refine ⟨⟨hsound, fun _ _ => ?_, raise_oe h.noOverrun (by decide)⟩, ?_⟩
    · show 0 < ((b :: bs).foldl SerialFIFO.offer s.recvFifo).count
      rw [← SerialFIFO.items_length, hitems, List.length_append, List.length_cons]
      omega
    · rw [waiting_fifo hfe, ← hitems, waiting_fifo (by exact hfe)]
      rfl

theorem break_balance {s : SerialState} (h : s.Exact)
    (hroom : s.recvFifo.count < uartFifoLength)
    (hrbr : s.fcr &&& uartFcrFe = 0#8 → s.lsr &&& uartLsrDr = 0#8) :
    (serialReceiveBreak s).Exact ∧ s.waiting ++ [0] = (serialReceiveBreak s).waiting := by
  have hsound := h.sound.receiveBreak
  have hbit : ∀ x : Byte, (x ||| (uartLsrBi ||| uartLsrDr)) &&& uartLsrDr ≠ 0#8 := by decide
  unfold serialReceiveBreak at hsound ⊢
  rw [fifoPut_recv] at hsound ⊢
  have hput : s.recvFifo.offer 0 = s.recvFifo.push 0 := if_pos hroom
  dsimp only at hsound ⊢
  rw [if_pos hroom, hput] at hsound ⊢
  by_cases hfe : s.fcr &&& uartFcrFe = 0#8
  · refine ⟨⟨hsound, fun hon => absurd hfe hon, raise_oe h.noOverrun (by decide)⟩, ?_⟩
    rw [waiting_none hfe (hrbr hfe), waiting_rbr (by exact hfe) (by exact hbit s.lsr)]
    rfl
  · refine ⟨⟨hsound, fun _ _ => Nat.succ_pos _, raise_oe h.noOverrun (by decide)⟩, ?_⟩
    rw [waiting_fifo hfe, waiting_fifo (by exact hfe)]
    exact (SerialFIFO.push_items h.sound.settled.recv hroom 0).symm

theorem writeFcr_keep {s : SerialState} (h : s.Exact) (val : Byte)
    (hflush : s.fcr ≠ val → flushBits s.fcr val &&& uartFcrRfr ≠ 0#8 → s.waiting = []) :
    (writeFcr s val).Exact ∧ (writeFcr s val).waiting = s.waiting := by
  have hsound := h.sound.fcr val
  by_cases hval : s.fcr = val
  · rw [writeFcr, if_pos hval]
    exact ⟨h, rfl⟩
  · have heq := writeFcr_eq hval
    have hfe : (flushBits s.fcr val &&& 0xc9) &&& uartFcrFe = val &&& uartFcrFe := by
      rw [sticky_fe, flushBits_fe]
    rw [heq] at hsound ⊢
    by_cases hr : flushBits s.fcr val &&& uartFcrRfr = 0#8
    · -- nothing is flushed, so the enable bit stays
      have hsame : s.fcr &&& uartFcrFe = val &&& uartFcrFe := by
        by_contra hne
        exact flush_of_change hne hr
      have hitems : (fcrRecv s val).items = s.recvFifo.items ∧
          (fcrRecv s val).count = s.recvFifo.count := by
        unfold fcrRecv
        rw [if_neg (not_not.mpr hr)]
        dsimp only
        split
        · exact ⟨rfl, rfl⟩
        · exact ⟨rfl, rfl⟩
      refine ⟨⟨hsound, fun hon hdr => ?_, h.noOverrun⟩, ?_⟩
      · show 0 < (fcrRecv s val).count
        rw [hitems.2]
        exact h.promise (by rw [hsame, ← hfe]; exact hon) hdr
      · unfold SerialState.waiting serialUpdateIrq
        dsimp only
        rw [hfe, ← hsame, hitems.1]
    · have hnil := hflush hval hr
      have hdr := h.dr_of_nil hnil
      have hempty : (fcrRecv s val).items = [] := by
        unfold fcrRecv
        rw [if_pos hr]
        dsimp only
        split
        · exact SerialFIFO.clear_items s.recvFifo
        · exact SerialFIFO.clear_items s.recvFifo
      refine ⟨⟨hsound, fun _ hset => absurd hdr hset, h.noOverrun⟩, ?_⟩
      rw [hnil]
      unfold SerialState.waiting serialUpdateIrq
      dsimp only
      rw [if_neg (not_not.mpr hdr), hempty, ite_self]

theorem reset_keep {s : SerialState} (h : s.Exact) (hnil : s.waiting = []) :
    (serialReset s).Exact ∧ (serialReset s).waiting = s.waiting := by
  have hbits : (uartLsrTemt ||| uartLsrThre) &&& uartLsrDr = 0#8 ∧
      (uartLsrTemt ||| uartLsrThre) &&& uartLsrOe = 0#8 := by decide
  refine ⟨⟨reset_sound h.sound.settled.idle.timer h.sound.settled.trigger,
    fun _ hset => absurd hbits.1 hset, hbits.2⟩, ?_⟩
  rw [hnil]
  by_cases hfe : s.fcr &&& uartFcrFe = 0#8
  · exact waiting_none hfe hbits.1
  · rw [waiting_fifo (by exact hfe)]
    exact SerialFIFO.clear_items s.recvFifo

theorem write_keep {s : SerialState} (h : s.Exact) (addr : ℕ) (val : Byte) (ans : Answers)
    (hok : Careful s (.write addr val ans)) :
    (serialIoportWrite s addr val ans).1.Exact ∧
      (serialIoportWrite s addr val ans).1.waiting = s.waiting := by
  have hsound := write_sound h.sound addr val ans
  obtain ⟨hloop, hflush⟩ := hok
  unfold serialIoportWrite at hsound ⊢
  split
  · exact h.keep (h.sound.ier val ans) (writeIer_view s val ans)
  · exact writeFcr_keep h val (hflush ‹_›)
  · exact h.keep (h.sound.lcr val) (writeLcr_view s val)
  · exact h.keep (h.sound.mcr val ans) (writeMcr_view s val ans)
  · exact ⟨h, rfl⟩
  · exact ⟨h, rfl⟩
  · exact h.keep h.sound.frame rfl
  · rename_i h1 h2 h3 h4 h5 h6 h7
    have hzero := port_zero h1 h2 h3 h4 h5 h6 h7
    exact h.keep (h.sound.thr val ans) (writeThr_view h.sound val ans (hloop hzero))

theorem read_balance {s : SerialState} (h : s.Exact) (addr : ℕ) (ans : Answers) :
    (serialIoportRead s addr ans).2.1.Exact ∧
      s.waiting = taken s (.read addr ans) ++ (serialIoportRead s addr ans).2.1.waiting := by
  have hkeep : ∀ {t : SerialState}, addr % 8 ≠ 0 → t.Exact ∧ t.waiting = s.waiting →
      t.Exact ∧ s.waiting = taken s (.read addr ans) ++ t.waiting := by
    intro t hn ht
    rw [ht.2, taken, if_neg fun hc => hn hc.1]
    exact ⟨ht.1, rfl⟩
  by_cases hzero : addr % 8 = 0
  · rw [taken, read_port_zero s hzero]
    by_cases hdlab : s.lcr &&& uartLcrDlab = 0#8
    · simp only [hzero, hdlab, true_and]
      exact readRbr_balance h hdlab
    · rw [if_neg fun hc => hdlab hc.2.1, readRbr, if_pos hdlab]
      exact ⟨h, rfl⟩
  · have hsound := read_sound h.sound addr ans
    unfold serialIoportRead at hsound ⊢
    split
    · exact hkeep hzero ⟨h, rfl⟩
    · exact hkeep hzero (h.keep h.sound.iir (readIir_view s))
    · exact hkeep hzero ⟨h, rfl⟩
    · exact hkeep hzero ⟨h, rfl⟩
    · exact hkeep hzero (readLsr_keep h)
    · exact hkeep hzero (h.keep (h.sound.msr ans) (readMsr_view s ans))
    · exact hkeep hzero ⟨h, rfl⟩
    · rename_i h1 h2 h3 h4 h5 h6 h7
      exact absurd (port_zero h1 h2 h3 h4 h5 h6 h7) hzero

theorem fifoTimeout_keep {s : SerialState} (h : s.Exact) :
    (step s .fifoTimeout).1.Exact ∧ (step s .fifoTimeout).1.waiting = s.waiting := by
  have hsound := step_sound s .fifoTimeout h.sound
  obtain ⟨p, t, y, l, heq⟩ := fifoTimeout_eq s
  rw [heq] at hsound ⊢
  exact ⟨⟨hsound, h.promise, h.noOverrun⟩, rfl⟩

theorem step_balance (s : SerialState) (a : Input) (h : s.Exact) (hok : Careful s a) :
    (step s a).1.Exact ∧
      s.waiting ++ received s a = taken s a ++ (step s a).1.waiting := by
  have hkeep : ∀ {t : SerialState}, t.Exact ∧ t.waiting = s.waiting →
      t.Exact ∧ s.waiting ++ [] = [] ++ t.waiting := by
    intro t ht
    rw [ht.2, List.append_nil]
    exact ⟨ht.1, rfl⟩
  have hsound := step_sound s a h.sound
  cases a with
  | write addr val ans => exact hkeep (write_keep h addr val ans hok)
  | read addr ans =>
    have hnone : received s (.read addr ans) = [] := rfl
    rw [hnone, List.append_nil]
    exact read_balance h addr ans
  | receive b bs => exact receive_balance h b bs hok
  | eventBreak => exact break_balance h hok.1 hok.2
  | fifoTimeout => exact hkeep (fifoTimeout_keep h)
  | transmit ans =>
    rw [step, h.sound.settled.idle.timer]
    exact hkeep ⟨h, rfl⟩
  | pollModem ans => exact hkeep (h.keep hsound (pollModem_view s ans))
  | reset => exact hkeep (reset_keep h hok)

theorem init_exact (baudbase : ℕ) : (SerialState.init baudbase).Exact := by
  have hoff : (0 : Byte) &&& uartFcrFe = 0#8 := by decide
  have hoe : (uartLsrTemt ||| uartLsrThre) &&& uartLsrOe = 0#8 := by decide
  exact ⟨init_sound baudbase, fun hfe => absurd hoff hfe, hoe⟩

/-- In a careful run no byte is lost, doubled or reordered on its way from the backend to
the guest, and no overrun is ever reported. -/
theorem receive_in_order (baudbase : ℕ) (as : List Input)
    (hok : Along step Careful (SerialState.init baudbase) as) :
    tally step received (SerialState.init baudbase) as =
      tally step taken (SerialState.init baudbase) as ++
        (run step (SerialState.init baudbase) as).1.waiting ∧
    (run step (SerialState.init baudbase) as).1.lsr &&& uartLsrOe = 0#8 := by
  have hbits : (0 : Byte) &&& uartFcrFe = 0#8 ∧
      (uartLsrTemt ||| uartLsrThre) &&& uartLsrDr = 0#8 := by decide
  have hnil : (SerialState.init baudbase).waiting = [] := waiting_none hbits.1 hbits.2
  obtain ⟨hexact, hbal⟩ := run_balance step_balance as hok (init_exact baudbase)
  rw [hnil] at hbal
  exact ⟨hbal, hexact.noOverrun⟩

def quietAnswers : Answers := ⟨1, false, ⟨false, false, false, false, false, false⟩⟩

/-- The guest turns the FIFOs on and reads the first of two bytes; a third follows. -/
def echoRun : List Input :=
  [.write 2 0x41 quietAnswers, .receive 0x61 [0x62], .read 5 quietAnswers, .read 0 quietAnswers,
    .receive 0x63 []]

theorem receive_in_order_echo :
    tally step received (SerialState.init 115200) echoRun =
      tally step taken (SerialState.init 115200) echoRun ++
        (run step (SerialState.init 115200) echoRun).1.waiting ∧
    (run step (SerialState.init 115200) echoRun).1.lsr &&& uartLsrOe = 0#8 :=
  receive_in_order 115200 echoRun (by decide)

end CanPci.Uart
