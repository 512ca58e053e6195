import CanPci.Uart.Effects

/-!
# The UART between two steps

The invariant of every run from reset, and what it says about the interrupt line: no
path changes a cause without bringing the line and `iir` up to date.
-/

namespace CanPci.Uart
open RingFifo Machine

/-- What holds of the FIFOs and the line status between two steps. -/
structure SerialState.Settled (s : SerialState) : Prop where
  idle : s.Idle
  recv : s.recvFifo.Consistent
  trigger : s.fcr &&& uartFcrFe ≠ 0#8 → 0 < s.recvFifo.itl ∧ s.recvFifo.itl < uartFifoLength
  ready : s.fcr &&& uartFcrFe ≠ 0#8 → 0 < s.recvFifo.count → s.lsr &&& uartLsrDr ≠ 0#8

theorem dr_iff {x : Byte} : x &&& uartLsrDr ≠ 0#8 ↔ x &&& uartLsrDr = uartLsrDr := by
  revert x
  decide

namespace SerialState.Settled
variable {s : SerialState}

theorem frame (h : s.Settled) {divider : BitVec 16}
    {rbr thr tsr ier iir lcr mcr msr scr fcrVmstate lastBreakEnable : Byte}
    {thrIpending irq wakeup timeoutIpending fifoTimeoutTimer modemStatusPoll : Bool}
    {baudbase charTransmitTime : ℕ} {pollMsl : ℤ} :
    ({s with divider, rbr, thr, tsr, ier, iir, lcr, mcr, msr, scr, fcrVmstate, lastBreakEnable,
             thrIpending, irq, wakeup, timeoutIpending, fifoTimeoutTimer, modemStatusPoll, baudbase,
             charTransmitTime, pollMsl} : SerialState).Settled :=
  ⟨⟨h.idle.lsr, h.idle.fifo, h.idle.empty, h.idle.retry, h.idle.timer⟩, h.recv, h.trigger, h.ready⟩

theorem update (h : s.Settled) : (serialUpdateIrq s).Settled := h.frame

theorem xmit (h : s.Settled) {f : SerialFIFO} {retry : ℤ} (hf : f.Consistent) (he : f.count = 0)
    (hr : retry = 0 ∨ retry = -1) : ({s with xmitFifo := f, tsrRetry := retry} : SerialState).Settled :=
  ⟨⟨h.idle.lsr, hf, he, hr, h.idle.timer⟩, h.recv, h.trigger, h.ready⟩

theorem raise (h : s.Settled) (m : Byte) : ({s with lsr := s.lsr ||| m} : SerialState).Settled :=
  ⟨⟨BitField.keep_or h.idle.lsr m, h.idle.fifo, h.idle.empty, h.idle.retry, h.idle.timer⟩, h.recv,
    h.trigger, fun hfe hcount => dr_iff.mpr (BitField.keep_or (dr_iff.mp (h.ready hfe hcount)) m)⟩

theorem lower (h : s.Settled) {m : Byte} (hm : m &&& (uartLsrThre ||| uartLsrTemt) = 0#8)
    (hdr : s.fcr &&& uartFcrFe ≠ 0#8 → 0 < s.recvFifo.count → m &&& uartLsrDr = 0#8) :
    ({s with lsr := s.lsr &&& ~~~m} : SerialState).Settled :=
  ⟨⟨BitField.keep_and_not h.idle.lsr hm, h.idle.fifo, h.idle.empty, h.idle.retry, h.idle.timer⟩,
    h.recv, h.trigger, fun hfe hcount => dr_iff.mpr
      (BitField.keep_and_not (dr_iff.mp (h.ready hfe hcount)) (hdr hfe hcount))⟩

theorem refill (h : s.Settled) {f : SerialFIFO} (hf : f.Consistent) (hitl : f.itl = s.recvFifo.itl)
    (hdr : s.lsr &&& uartLsrDr ≠ 0#8) : ({s with recvFifo := f} : SerialState).Settled :=
  ⟨⟨h.idle.lsr, h.idle.fifo, h.idle.empty, h.idle.retry, h.idle.timer⟩, hf,
    fun hfe => by rw [hitl]; exact h.trigger hfe, fun _ _ => hdr⟩

end SerialState.Settled

theorem raise_dr (x : Byte) : (x ||| uartLsrDr) &&& uartLsrDr ≠ 0#8 := by
  revert x
  decide

theorem rxStore_settled {s : SerialState} (h : s.Settled) (b : Byte) (bs : List Byte) :
    (rxStore s b bs).Settled := by
  by_cases hfe : s.fcr &&& uartFcrFe = 0#8
  · rw [rxStore_rbr hfe]
    unfold rbrStatus
    split
    · rw [BitVec.or_assoc]
      exact (h.raise _).frame
    · exact (h.raise _).frame
  · rw [rxStore_fifo hfe]
    have hrecv := SerialFIFO.offerAll_items h.recv (b :: bs)
    have hitl := SerialFIFO.offerAll_itl s.recvFifo (b :: bs)
    split
    · exact ((h.raise uartLsrDr).refill hrecv.1 hitl (raise_dr _)).frame
    · rw [BitVec.or_assoc]
      exact ((h.raise (uartLsrOe ||| uartLsrDr)).refill hrecv.1 hitl (by
        rw [← BitVec.or_assoc]
        exact raise_dr _)).frame

/-- Between two steps the line is up to date as well. -/
structure SerialState.Sound (s : SerialState) : Prop where
  settled : s.Settled
  coherent : s.Coherent

namespace SerialState
variable {s : SerialState}

theorem Settled.sound (h : s.Settled) : (serialUpdateIrq s).Sound := ⟨h.update, update_coherent s⟩

/-- The fields that no cause of an interrupt reads are free. -/
theorem Sound.frame (h : s.Sound) {divider : BitVec 16}
    {rbr thr tsr lcr mcr scr fcrVmstate lastBreakEnable : Byte}
    {wakeup fifoTimeoutTimer modemStatusPoll : Bool} {baudbase charTransmitTime : ℕ} {pollMsl : ℤ} :
    ({s with divider, rbr, thr, tsr, lcr, mcr, scr, fcrVmstate, lastBreakEnable, wakeup,
             fifoTimeoutTimer, modemStatusPoll, baudbase, charTransmitTime, pollMsl} :
      SerialState).Sound := ⟨h.settled.frame, h.coherent⟩

end SerialState

namespace SerialState.Sound
variable {s : SerialState}

theorem parameters (h : s.Sound) : (serialUpdateParameters s).1.Sound := by
  obtain ⟨t, ht⟩ := serialUpdateParameters_eq s
  rw [ht]
  exact h.frame

theorem modem (h : s.Sound) (ans : Answers) : (serialUpdateMsl ans s).Sound := by
  rcases serialUpdateMsl_eq ans s with ⟨p, l, heq⟩ | ⟨p, m, heq⟩
  · rw [heq]
    exact h.frame
  · rw [heq]
    exact h.settled.frame.sound

theorem thr (h : s.Sound) (val : Byte) (ans : Answers) : (writeThr s val ans).1.Sound := by
  by_cases hdlab : s.lcr &&& uartLcrDlab = 0#8
  · by_cases hloop : s.mcr &&& uartMcrLoop = 0#8
    · obtain ⟨f, retry, hf, he, hr, heq⟩ := writeThr_eq h.settled.idle val ans hdlab hloop
      rw [heq]
      exact (h.settled.xmit hf he hr).frame.sound
    · obtain ⟨f, hf, he, heq⟩ :=
        writeThr_loop h.settled.idle h.settled.recv.count_le val ans hdlab hloop
      have hrx := rxStore_settled h.settled val []
      rw [heq]
      exact (hrx.xmit hf he hrx.idle.retry).frame.sound
  · rw [writeThr_open hdlab]
    exact parameters h.frame

theorem ier (h : s.Sound) (val : Byte) (ans : Answers) : (writeIer s val ans).1.Sound := by
  by_cases hdlab : s.lcr &&& uartLcrDlab = 0#8
  · -- `UART_LSR_THRE` is set, so the line is always updated
    obtain ⟨m, y, q, p, l, heq⟩ := writeIer_closed hdlab val ans
    rw [heq, if_pos h.settled.idle.thre]
    exact h.settled.frame.sound
  · rw [writeIer_open hdlab]
    exact parameters h.frame

theorem lcr (h : s.Sound) (val : Byte) : (writeLcr s val).1.Sound := by
  obtain ⟨t, b, heq⟩ := writeLcr_eq s val
  rw [heq]
  exact h.frame

theorem mcr (h : s.Sound) (val : Byte) (ans : Answers) : (writeMcr s val ans).1.Sound := by
  obtain ⟨p, heq⟩ := writeMcr_eq s val ans
  rw [heq]
  exact h.frame

end SerialState.Sound

theorem sticky_fe (x : Byte) : (x &&& 0xc9) &&& uartFcrFe = x &&& uartFcrFe := by
  revert x
  decide

theorem triggerLevel_bounds (val : Byte) :
    0 < triggerLevel val ∧ triggerLevel val < uartFifoLength := by
  unfold triggerLevel
  split_ifs <;> decide

theorem fcrRecv_consistent {s : SerialState} (h : s.recvFifo.Consistent) (val : Byte) :
    (fcrRecv s val).Consistent := by
  unfold fcrRecv
  dsimp only
  have hf : (if flushBits s.fcr val &&& uartFcrRfr ≠ 0#8 then s.recvFifo.clear
      else s.recvFifo).Consistent := by
    split
    · exact SerialFIFO.clear_consistent _
    · exact h
  split
  · exact hf
  · exact hf

theorem flush_of_change {fcr val : Byte} (h : fcr &&& uartFcrFe ≠ val &&& uartFcrFe) :
    flushBits fcr val &&& uartFcrRfr ≠ 0#8 := by
  have hxor : (val ^^^ fcr) &&& uartFcrFe ≠ 0#8 := by
    rw [BitField.xor_and]
    exact fun hz => h (BitVec.xor_eq_zero_iff.mp hz).symm
  have hbit : ∀ x : Byte, (x ||| (uartFcrXfr ||| uartFcrRfr)) &&& uartFcrRfr ≠ 0#8 := by decide
  rw [flushBits, if_pos hxor]
  exact hbit val

theorem fcrRecv_count {s : SerialState} (val : Byte) (h : 0 < (fcrRecv s val).count) :
    flushBits s.fcr val &&& uartFcrRfr = 0#8 ∧ (fcrRecv s val).count = s.recvFifo.count := by
  unfold fcrRecv at h ⊢
  dsimp only at h ⊢
  by_cases hr : flushBits s.fcr val &&& uartFcrRfr = 0#8
  · rw [if_neg (not_not.mpr hr)]
    refine ⟨hr, ?_⟩
    split <;> rfl
  · rw [if_pos hr] at h
    split at h <;> exact absurd h (Nat.lt_irrefl 0)

namespace SerialState.Sound
variable {s : SerialState}

theorem fcr (h : s.Sound) (val : Byte) : (writeFcr s val).Sound := by
  by_cases hval : s.fcr = val
  · rw [writeFcr, if_pos hval]
    exact h
  · have heq := writeFcr_eq hval
    have hx : (fcrXmit s val).Consistent ∧ (fcrXmit s val).count = 0 := by
      unfold fcrXmit
      split
      · exact ⟨SerialFIFO.clear_consistent _, rfl⟩
      · exact ⟨h.settled.idle.fifo, h.settled.idle.empty⟩
    have hfe : (flushBits s.fcr val &&& 0xc9) &&& uartFcrFe = val &&& uartFcrFe := by
      rw [sticky_fe, flushBits_fe]
    rw [heq]
    refine Settled.sound ⟨⟨h.settled.idle.lsr, hx.1, hx.2, h.settled.idle.retry,
      h.settled.idle.timer⟩, fcrRecv_consistent h.settled.recv val, fun hon => ?_, fun hon hcount => ?_⟩
    · have hon' : val &&& uartFcrFe ≠ 0#8 := by
        rw [← hfe]
        exact hon
      have hitl : (fcrRecv s val).itl = triggerLevel (flushBits s.fcr val) := by
        rw [fcrRecv, if_pos hon']
      show 0 < (fcrRecv s val).itl ∧ (fcrRecv s val).itl < uartFifoLength
      rw [hitl]
      exact triggerLevel_bounds _
    · obtain ⟨hflush, hsame⟩ := fcrRecv_count val hcount
      have hon' : val &&& uartFcrFe ≠ 0#8 := by
        rw [← hfe]
        exact hon
      have hold : s.fcr &&& uartFcrFe ≠ 0#8 := fun hoff =>
        flush_of_change (fun heq => hon' (heq ▸ hoff)) hflush
      exact h.settled.ready hold (by rw [← hsame]; exact hcount)

theorem rbr (h : s.Sound) : (readRbr s).2.1.Sound := by
  unfold readRbr
  split
  · exact h
  · have hmask : (uartLsrDr ||| uartLsrBi) &&& (uartLsrThre ||| uartLsrTemt) = 0#8 := by decide
    refine Settled.sound ?_
    by_cases hfe : s.fcr &&& uartFcrFe = 0#8
    · rw [takeByte_rbr hfe]
      exact h.settled.lower hmask fun hon => absurd hfe hon
    · rcases Nat.lt_trichotomy 1 s.recvFifo.count with hmore | hone | hnil
      · have hdr := h.settled.ready hfe (by omega)
        rw [takeByte_more hfe hmore]
        exact (h.settled.refill (SerialFIFO.pop_consistent h.settled.recv (by omega)) rfl hdr).frame
      · have hdr := h.settled.ready hfe (by omega)
        have hpop := h.settled.refill (f := s.recvFifo.pop)
          (SerialFIFO.pop_consistent h.settled.recv (by omega)) rfl hdr
        have hcount : s.recvFifo.pop.count = 0 := congrArg (· - 1) hone.symm
        rw [takeByte_last hfe hone.symm]
        exact (hpop.lower hmask fun _ hpos => absurd hcount (Nat.ne_of_gt hpos)).frame
      · rw [takeByte_nil hfe (by omega)]
        exact (h.settled.lower hmask fun _ hpos => absurd hpos (by omega)).frame

theorem iir (h : s.Sound) : (readIir s).2.Sound := by
  unfold readIir
  dsimp only
  split
  · exact h.settled.frame.sound
  · exact h

theorem lsr (h : s.Sound) : (readLsr s).2.Sound := by
  unfold readLsr
  dsimp only
  split
  · exact (h.settled.lower (by decide) fun _ _ => by decide).sound
  · exact h

theorem msr (h : s.Sound) (ans : Answers) : (readMsr s ans).2.Sound := by
  unfold readMsr
  split
  · exact h
  · dsimp only
    have hmsl : (if 0 ≤ s.pollMsl then serialUpdateMsl ans s else s).Sound := by
      split
      · exact h.modem ans
      · exact h
    generalize (if 0 ≤ s.pollMsl then serialUpdateMsl ans s else s) = t at hmsl ⊢
    split
    · exact hmsl.settled.frame.sound
    · exact hmsl

theorem receive (h : s.Sound) (b : Byte) (bs : List Byte) : (serialReceive1 s b bs).1.Sound := by
  rw [serialReceive1_eq h.settled.recv.count_le]
  exact (rxStore_settled h.settled b bs).sound

theorem receiveBreak (h : s.Sound) : (serialReceiveBreak s).Sound := by
  unfold serialReceiveBreak
  rw [fifoPut_recv]
  dsimp only
  have hput := SerialFIFO.offerAll_items h.settled.recv [0]
  have hitl := SerialFIFO.offerAll_itl s.recvFifo [0]
  have hbit : ∀ x : Byte, (x ||| (uartLsrBi ||| uartLsrDr)) &&& uartLsrDr ≠ 0#8 := by decide
  split
  · exact ((h.settled.raise (uartLsrBi ||| uartLsrDr)).refill hput.1 hitl (hbit _)).frame.sound
  · exact (((h.settled.raise uartLsrOe).raise (uartLsrBi ||| uartLsrDr)).refill hput.1 hitl
      (hbit _)).frame.sound

theorem fifoTimeout (h : s.Sound) : (fifoTimeoutInt s).Sound := by
  unfold fifoTimeoutInt
  split
  · exact h.settled.frame.sound
  · exact h

end SerialState.Sound

theorem pending_disabled {s : SerialState} (h : s.ier = 0#8) : s.pending = uartIirNoInt := by
  have hoff : ∀ m : Byte, ¬ s.ier &&& m ≠ 0#8 := by
    intro m
    rw [h, BitVec.zero_and]
    exact not_not.mpr rfl
  unfold SerialState.pending
  rw [if_neg fun hc => hoff _ hc.1, if_neg fun hc => hoff _ hc.1, if_neg fun hc => hoff _ hc.1,
    if_neg fun hc => hoff _ hc.1, if_neg fun hc => hoff _ hc.1]

/-- The reset leaves `fcr` and the trigger level alone. -/
theorem reset_sound {s : SerialState} (htimer : s.transmitTimer = false)
    (htrigger : s.fcr &&& uartFcrFe ≠ 0#8 →
      0 < s.recvFifo.itl ∧ s.recvFifo.itl < uartFifoLength) : (serialReset s).Sound := by
  have hlsr : (uartLsrTemt ||| uartLsrThre) &&& (uartLsrThre ||| uartLsrTemt) =
      uartLsrThre ||| uartLsrTemt := by decide
  have hiir : uartIirNoInt &&& 0x0f = uartIirNoInt := by decide
  have hpending : (serialReset s).pending = uartIirNoInt := pending_disabled rfl
  refine ⟨⟨⟨hlsr, SerialFIFO.clear_consistent _, rfl, Or.inl rfl, htimer⟩,
    SerialFIFO.clear_consistent _, htrigger, fun _ hcount => absurd hcount (Nat.lt_irrefl 0)⟩,
    ?_, ?_⟩
  · rw [hpending]
    exact hiir
  · rw [hpending]
    rfl

theorem init_sound (baudbase : ℕ) : (SerialState.init baudbase).Sound :=
  have hzero : (0 : Byte) &&& uartFcrFe = 0#8 := by decide
  reset_sound rfl fun h => absurd hzero h

theorem read_sound {s : SerialState} (h : s.Sound) (addr : ℕ) (ans : Answers) :
    (serialIoportRead s addr ans).2.1.Sound := by
  unfold serialIoportRead
  split
  · exact h
  · exact h.iir
  · exact h
  · exact h
  · exact h.lsr
  · exact h.msr ans
  · exact h
  · exact h.rbr

theorem write_sound {s : SerialState} (h : s.Sound) (addr : ℕ) (val : Byte) (ans : Answers) :
    (serialIoportWrite s addr val ans).1.Sound := by
  unfold serialIoportWrite
  split
  · exact h.ier val ans
  · exact h.fcr val
  · exact h.lcr val
  · exact h.mcr val ans
  · exact h
  · exact h
  · exact h.frame
  · exact h.thr val ans

theorem step_sound (s : SerialState) (a : Input) (h : s.Sound) : (step s a).1.Sound := by
  cases a with
  | write addr val ans => exact write_sound h addr val ans
  | read addr ans => exact read_sound h addr ans
  | receive b bs => exact h.receive b bs
  | eventBreak => exact h.receiveBreak
  | fifoTimeout =>
    unfold step
    dsimp only
    split
    · exact h.frame.fifoTimeout
    · exact h
  | transmit ans =>
    -- the transmit timer is never armed
    rw [step, h.settled.idle.timer]
    exact h
  | pollModem ans =>
    unfold step
    dsimp only
    split
    · exact h.modem ans
    · exact h
  | reset => exact reset_sound h.settled.idle.timer h.settled.trigger

theorem run_sound (baudbase : ℕ) (as : List Input) :
    (run step (SerialState.init baudbase) as).1.Sound :=
  run_invariant step_sound as (init_sound baudbase)

/-- What the UART interrupts for: the line status, the receive timeout, received data, the
empty transmitter and the modem lines. -/
inductive Cause
  | rlsi
  | cti
  | rdi
  | thri
  | msi
  deriving DecidableEq, Repr

/-- The smaller, the more urgent. -/
def Cause.rank : Cause → ℕ
  | rlsi => 0
  | cti => 1
  | rdi => 2
  | thri => 3
  | msi => 4

/-- How `iir` names it. -/
def Cause.id : Cause → Byte
  | rlsi => 0x06
  | cti => 0x0c
  | rdi => 0x04
  | thri => 0x02
  | msi => 0x00

namespace SerialState

/-- The cause is there and the guest has enabled its interrupt. -/
def Present (s : SerialState) : Cause → Prop
  | .rlsi => s.ier &&& uartIerRlsi ≠ 0#8 ∧ s.lsr &&& uartLsrIntAny ≠ 0#8
  | .cti => s.ier &&& uartIerRdi ≠ 0#8 ∧ s.timeoutIpending = true
  | .rdi => s.ier &&& uartIerRdi ≠ 0#8 ∧ s.lsr &&& uartLsrDr ≠ 0#8 ∧
    (s.fcr &&& uartFcrFe = 0#8 ∨ s.recvFifo.itl ≤ s.recvFifo.count)
  | .thri => s.ier &&& uartIerThri ≠ 0#8 ∧ s.thrIpending = true
  | .msi => s.ier &&& uartIerMsi ≠ 0#8 ∧ s.msr &&& uartMsrAnyDelta ≠ 0#8

def Requests (s : SerialState) : Prop := ∃ c, s.Present c

/-- It is present, and no more urgent one is. -/
def First (s : SerialState) (c : Cause) : Prop :=
  s.Present c ∧ ∀ c', c'.rank < c.rank → ¬ s.Present c'

theorem First.unique {s : SerialState} {c c' : Cause} (h : s.First c) (h' : s.First c') : c = c' := by
  have hrank : c.rank = c'.rank := Nat.le_antisymm
    (Nat.le_of_not_lt fun hlt => h.2 c' hlt h'.1) (Nat.le_of_not_lt fun hlt => h'.2 c hlt h.1)
  cases c <;> cases c' <;> first | rfl | cases hrank

theorem pending_first (s : SerialState) :
    (s.pending = uartIirNoInt ∧ ¬ s.Requests) ∨ ∃ c, s.First c ∧ s.pending = c.id := by
  have hless : ∀ {c : Cause}, (∀ c', c'.rank < c.rank → ¬ s.Present c') → s.Present c →
      s.pending = c.id → (s.pending = uartIirNoInt ∧ ¬ s.Requests) ∨
        ∃ c, s.First c ∧ s.pending = c.id :=
    fun hmore hc hid => Or.inr ⟨_, ⟨hc, hmore⟩, hid⟩
  unfold pending at hless ⊢
  split_ifs at hless ⊢ with h1 h2 h3 h4 h5
  · exact hless (c := .rlsi) (fun c' hlt => absurd hlt (Nat.not_lt_zero _)) h1 rfl
  · refine hless (c := .cti) (fun c' hlt => ?_) h2 rfl
    cases c' <;> first | exact h1 | exact absurd hlt (by decide)
  · refine hless (c := .rdi) (fun c' hlt => ?_) h3 rfl
    cases c' <;> first | exact h1 | exact h2 | exact absurd hlt (by decide)
  · refine hless (c := .thri) (fun c' hlt => ?_) h4 rfl
    cases c' <;> first | exact h1 | exact h2 | exact h3 | exact absurd hlt (by decide)
  · refine hless (c := .msi) (fun c' hlt => ?_) h5 rfl
    cases c' <;> first | exact h1 | exact h2 | exact h3 | exact h4 | exact absurd hlt (by decide)
  · refine Or.inl ⟨rfl, ?_⟩
    rintro ⟨c, hc⟩
    cases c
    · exact h1 hc
    · exact h2 hc
    · exact h3 hc
    · exact h4 hc
    · exact h5 hc

end SerialState

theorem pending_iff (s : SerialState) : s.pending ≠ uartIirNoInt ↔ s.Requests := by
  rcases s.pending_first with ⟨hnone, hidle⟩ | ⟨c, hfirst, hid⟩
  · exact iff_of_false (not_not.mpr hnone) hidle
  · refine iff_of_true ?_ ⟨c, hfirst.1⟩
    rw [hid]
    cases c <;> decide

theorem pending_id (s : SerialState) (c : Cause) : s.pending = c.id ↔ s.First c := by
  rcases s.pending_first with ⟨hnone, hidle⟩ | ⟨c', hfirst, hid⟩
  · refine iff_of_false (fun heq => ?_) fun hc => hidle ⟨c, hc.1⟩
    rw [hnone] at heq
    revert heq
    cases c <;> decide
  · rw [hid]
    refine ⟨fun heq => ?_, fun hc => by rw [hfirst.unique hc]⟩
    have hsame : c' = c := by
      revert heq
      cases c' <;> cases c <;> decide
    rw [← hsame]
    exact hfirst

/-- After any run the line is high exactly when an enabled cause is present, and `iir`
names the most urgent of them. -/
theorem line_requests (baudbase : ℕ) (as : List Input) :
    ((run step (SerialState.init baudbase) as).1.irq = true ↔
      (run step (SerialState.init baudbase) as).1.Requests) ∧
    (∀ c, (run step (SerialState.init baudbase) as).1.iir &&& 0x0f = c.id ↔
      (run step (SerialState.init baudbase) as).1.First c) ∧
    ((run step (SerialState.init baudbase) as).1.iir &&& 0x0f = uartIirNoInt ↔
      ¬ (run step (SerialState.init baudbase) as).1.Requests) := by
  obtain ⟨hiir, hirq⟩ := (run_sound baudbase as).coherent
  rw [hiir, hirq, decide_eq_true_iff]
  exact ⟨pending_iff _, pending_id _, by rw [← pending_iff, not_not]⟩

end CanPci.Uart
