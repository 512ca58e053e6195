import CanPci.Uart.Accesses

/-!
# What the UART's functions change

For each function the fields that it may change, as an update of the state it starts from;
what a caller does not find here has stayed.
-/

namespace CanPci.Uart
open RingFifo

theorem serialUpdateParameters_eq (s : SerialState) :
    ∃ t, (serialUpdateParameters s).1 = {s with charTransmitTime := t} := by
  unfold serialUpdateParameters
  split
  · exact ⟨s.charTransmitTime, rfl⟩
  · exact ⟨_, rfl⟩

theorem serialUpdateMsl_eq (ans : Answers) (s : SerialState) :
    (∃ p l, serialUpdateMsl ans s = {s with modemStatusPoll := p, pollMsl := l}) ∨
      ∃ p m, serialUpdateMsl ans s = serialUpdateIrq {s with modemStatusPoll := p, msr := m} := by
  unfold serialUpdateMsl
  dsimp only
  split
  · exact Or.inl ⟨false, -1, rfl⟩
  · by_cases hmsr : modemLines s.msr ans.flags = s.msr
    · rw [if_neg (not_not.mpr hmsr), hmsr]
      by_cases hpoll : s.pollMsl = 0
      · rw [if_neg (not_not.mpr hpoll)]
        exact Or.inl ⟨false, s.pollMsl, rfl⟩
      · rw [if_pos hpoll]
        exact Or.inl ⟨true, s.pollMsl, rfl⟩
    · rw [if_pos hmsr]
      split
      · exact Or.inr ⟨true, modemDeltas (modemLines s.msr ans.flags) s.msr, rfl⟩
      · exact Or.inr ⟨false, modemDeltas (modemLines s.msr ans.flags) s.msr, rfl⟩

theorem serialUpdateMsl_frame (ans : Answers) (s : SerialState) : ∃ m y q p l,
    serialUpdateMsl ans s =
      {s with msr := m, iir := y, irq := q, modemStatusPoll := p, pollMsl := l} := by
  rcases serialUpdateMsl_eq ans s with ⟨p, l, heq⟩ | ⟨p, m, heq⟩
  · exact ⟨s.msr, s.iir, s.irq, p, l, heq⟩
  · exact ⟨m, _, _, p, s.pollMsl, heq⟩

theorem writeThr_open {s : SerialState} (h : s.lcr &&& uartLcrDlab ≠ 0#8) (val : Byte)
    (ans : Answers) : writeThr s val ans = serialUpdateParameters
      {s with divider := (s.divider &&& 0xff00) ||| val.setWidth 16} := if_pos h

theorem writeIer_open {s : SerialState} (h : s.lcr &&& uartLcrDlab ≠ 0#8) (val : Byte)
    (ans : Answers) : writeIer s val ans = serialUpdateParameters
      {s with divider := (s.divider &&& 0x00ff) ||| (val.setWidth 16 <<< 8)} := if_pos h

theorem writeIer_closed {s : SerialState} (h : s.lcr &&& uartLcrDlab = 0#8) (val : Byte)
    (ans : Answers) : ∃ m y q p l, writeIer s val ans =
      (if s.lsr &&& uartLsrThre ≠ 0#8 then serialUpdateIrq {s with
          ier := val &&& 0x0f, msr := m, iir := y, irq := q, modemStatusPoll := p, pollMsl := l
          thrIpending := true}
        else {s with
          ier := val &&& 0x0f, msr := m, iir := y, irq := q, modemStatusPoll := p, pollMsl := l},
        []) := by
  obtain ⟨m, y, q, p, l, hpoll⟩ : ∃ m y q p l, (if 0 ≤ s.pollMsl then
      if val &&& 0x0f &&& uartIerMsi ≠ 0#8 then
        serialUpdateMsl ans {s with ier := val &&& 0x0f, pollMsl := 1}
      else {s with ier := val &&& 0x0f, modemStatusPoll := false, pollMsl := 0}
    else {s with ier := val &&& 0x0f}) = {s with
      ier := val &&& 0x0f, msr := m, iir := y, irq := q, modemStatusPoll := p, pollMsl := l} := by
    split
    · split
      · exact serialUpdateMsl_frame ans {s with ier := val &&& 0x0f, pollMsl := 1}
      · exact ⟨_, _, _, _, _, rfl⟩
    · exact ⟨_, _, _, _, _, rfl⟩
  refine ⟨m, y, q, p, l, ?_⟩
  rw [writeIer, if_neg (not_not.mpr h)]
  dsimp only
  rw [hpoll]

theorem writeLcr_eq (s : SerialState) (val : Byte) : ∃ t b,
    (writeLcr s val).1 = {s with lcr := val, charTransmitTime := t, lastBreakEnable := b} := by
  obtain ⟨t, ht⟩ := serialUpdateParameters_eq {s with lcr := val}
  unfold writeLcr
  dsimp only
  rw [ht]
  split
  · exact ⟨t, _, rfl⟩
  · exact ⟨t, s.lastBreakEnable, rfl⟩

theorem writeMcr_eq (s : SerialState) (val : Byte) (ans : Answers) : ∃ p,
    (writeMcr s val ans).1 = {s with mcr := val &&& 0x1f, modemStatusPoll := p} := by
  unfold writeMcr
  dsimp only
  split
  · exact ⟨s.modemStatusPoll, rfl⟩
  · split
    · exact ⟨true, rfl⟩
    · exact ⟨s.modemStatusPoll, rfl⟩

theorem flushBits_fe (fcr val : Byte) : flushBits fcr val &&& uartFcrFe = val &&& uartFcrFe := by
  have hbit : ∀ x : Byte, (x ||| (uartFcrXfr ||| uartFcrRfr)) &&& uartFcrFe = x &&& uartFcrFe := by
    decide
  unfold flushBits
  split
  · exact hbit val
  · rfl

/-- The receive FIFO that a write of the control register leaves. -/
def fcrRecv (s : SerialState) (val : Byte) : SerialFIFO :=
  let f := if flushBits s.fcr val &&& uartFcrRfr ≠ 0#8 then s.recvFifo.clear else s.recvFifo
  if val &&& uartFcrFe ≠ 0#8 then {f with itl := triggerLevel (flushBits s.fcr val)} else f

def fcrXmit (s : SerialState) (val : Byte) : SerialFIFO :=
  if flushBits s.fcr val &&& uartFcrXfr ≠ 0#8 then s.xmitFifo.clear else s.xmitFifo

theorem writeFcr_eq {s : SerialState} {val : Byte} (h : s.fcr ≠ val) :
    writeFcr s val = serialUpdateIrq {s with
      fcr := flushBits s.fcr val &&& 0xc9
      recvFifo := fcrRecv s val
      xmitFifo := fcrXmit s val
      iir := if val &&& uartFcrFe ≠ 0#8 then s.iir ||| uartIirFe else s.iir &&& ~~~uartIirFe
      fifoTimeoutTimer :=
        if flushBits s.fcr val &&& uartFcrRfr ≠ 0#8 then false else s.fifoTimeoutTimer
      timeoutIpending :=
        if flushBits s.fcr val &&& uartFcrRfr ≠ 0#8 then false else s.timeoutIpending} := by
  unfold writeFcr fcrRecv fcrXmit
  rw [if_neg h]
  dsimp only
  rw [flushBits_fe]
  by_cases hr : flushBits s.fcr val &&& uartFcrRfr = 0#8 <;>
    by_cases hx : flushBits s.fcr val &&& uartFcrXfr = 0#8 <;>
    by_cases he : val &&& uartFcrFe = 0#8
  all_goals simp only [hr, hx, he, ne_eq, not_true_eq_false, not_false_eq_true, if_true, if_false]
  all_goals rfl

theorem readIir_eq (s : SerialState) : ∃ p y q,
    (readIir s).2 = {s with thrIpending := p, iir := y, irq := q} := by
  unfold readIir
  dsimp only
  split
  · exact ⟨_, _, _, rfl⟩
  · exact ⟨_, _, _, rfl⟩

theorem readLsr_eq (s : SerialState) : ∃ y l, (readLsr s).2 =
    {s with lsr := s.lsr &&& ~~~(uartLsrBi ||| uartLsrOe), iir := y, irq := l} := by
  unfold readLsr
  dsimp only
  split
  · exact ⟨_, _, rfl⟩
  · rename_i hclean
    have hbit : ∀ x : Byte, x &&& (uartLsrBi ||| uartLsrOe) = 0#8 →
        x &&& ~~~(uartLsrBi ||| uartLsrOe) = x := by decide
    refine ⟨s.iir, s.irq, ?_⟩
    rw [hbit _ (not_not.mp hclean)]

theorem readMsr_eq (s : SerialState) (ans : Answers) : ∃ m y q p l,
    (readMsr s ans).2 =
      {s with msr := m, iir := y, irq := q, modemStatusPoll := p, pollMsl := l} := by
  unfold readMsr
  split
  · exact ⟨_, _, _, _, _, rfl⟩
  · obtain ⟨m, y, q, p, l, hpoll⟩ : ∃ m y q p l, (if 0 ≤ s.pollMsl then serialUpdateMsl ans s
        else s) = {s with msr := m, iir := y, irq := q, modemStatusPoll := p, pollMsl := l} := by
      split
      · exact serialUpdateMsl_frame ans s
      · exact ⟨_, _, _, _, _, rfl⟩
    dsimp only
    rw [hpoll]
    split
    · exact ⟨_, _, _, _, _, rfl⟩
    · exact ⟨_, _, _, _, _, rfl⟩

/-- The data port may lower `UART_LSR_DR`, but it raises no bit of the status. -/
theorem takeByte_eq (s : SerialState) : ∃ f m p t, (takeByte s).2 = {s with
    recvFifo := f, lsr := s.lsr &&& m, timeoutIpending := p, fifoTimeoutTimer := t} := by
  by_cases hfe : s.fcr &&& uartFcrFe = 0#8
  · rw [takeByte_rbr hfe]
    exact ⟨_, _, _, _, rfl⟩
  · rcases Nat.lt_trichotomy 1 s.recvFifo.count with hmore | hone | hnil
    · refine ⟨s.recvFifo.pop, BitVec.allOnes 8, false, true, ?_⟩
      rw [takeByte_more hfe hmore, BitVec.and_allOnes]
    · rw [takeByte_last hfe hone.symm]
      exact ⟨_, _, _, _, rfl⟩
    · rw [takeByte_nil hfe (by omega)]
      exact ⟨_, _, _, _, rfl⟩

theorem readRbr_eq (s : SerialState) : ∃ f m p t y q, (readRbr s).2.1 = {s with
    recvFifo := f, lsr := s.lsr &&& m, timeoutIpending := p, fifoTimeoutTimer := t
    iir := y, irq := q} := by
  unfold readRbr
  split
  · refine ⟨s.recvFifo, BitVec.allOnes 8, s.timeoutIpending, s.fifoTimeoutTimer, s.iir, s.irq, ?_⟩
    rw [BitVec.and_allOnes]
  · obtain ⟨f, m, p, t, heq⟩ := takeByte_eq s
    dsimp only
    rw [heq]
    exact ⟨f, m, p, t, _, _, rfl⟩

/-- A read never touches what the guest has written. -/
theorem serialIoportRead_eq (s : SerialState) (addr : ℕ) (ans : Answers) :
    ∃ f l m p t w y q v k, (serialIoportRead s addr ans).2.1 = {s with
      recvFifo := f, lsr := l, msr := m, timeoutIpending := p, fifoTimeoutTimer := t
      thrIpending := w, iir := y, irq := q, modemStatusPoll := v, pollMsl := k} := by
  unfold serialIoportRead
  split
  · exact ⟨_, _, _, _, _, _, _, _, _, _, rfl⟩
  · obtain ⟨w, y, q, heq⟩ := readIir_eq s
    exact ⟨_, _, _, _, _, w, y, q, _, _, heq⟩
  · exact ⟨_, _, _, _, _, _, _, _, _, _, rfl⟩
  · exact ⟨_, _, _, _, _, _, _, _, _, _, rfl⟩
  · obtain ⟨y, q, heq⟩ := readLsr_eq s
    exact ⟨_, _, _, _, _, _, y, q, _, _, heq⟩
  · obtain ⟨m, y, q, v, k, heq⟩ := readMsr_eq s ans
    exact ⟨_, _, m, _, _, _, y, q, v, k, heq⟩
  · exact ⟨_, _, _, _, _, _, _, _, _, _, rfl⟩
  · obtain ⟨f, m, p, t, y, q, heq⟩ := readRbr_eq s
    exact ⟨f, _, _, p, t, _, y, q, _, _, heq⟩

theorem rxStore_eq (s : SerialState) (b : Byte) (bs : List Byte) : ∃ f r l t,
    rxStore s b bs = {s with recvFifo := f, rbr := r, lsr := l, fifoTimeoutTimer := t} := by
  unfold rxStore
  split
  · exact ⟨_, _, _, _, rfl⟩
  · exact ⟨_, _, _, _, rfl⟩

theorem serialReceiveBreak_eq (s : SerialState) : ∃ f l y q,
    serialReceiveBreak s = {s with rbr := 0, recvFifo := f, lsr := l, iir := y, irq := q} := by
  unfold serialReceiveBreak
  rw [fifoPut_recv]
  dsimp only
  split
  · exact ⟨_, _, _, _, rfl⟩
  · exact ⟨_, _, _, _, rfl⟩

/-- The expiry of the timeout changes what is reported, not what is held. -/
theorem fifoTimeout_eq (s : SerialState) : ∃ p t y l, (step s .fifoTimeout).1 =
    {s with timeoutIpending := p, fifoTimeoutTimer := t, iir := y, irq := l} := by
  unfold step fifoTimeoutInt
  dsimp only
  split
  · split
    · exact ⟨_, _, _, _, rfl⟩
    · exact ⟨_, _, _, _, rfl⟩
  · exact ⟨_, _, _, _, rfl⟩

theorem pollModem_eq (s : SerialState) (ans : Answers) : ∃ m y q p l,
    (step s (.pollModem ans)).1 =
      {s with msr := m, iir := y, irq := q, modemStatusPoll := p, pollMsl := l} := by
  unfold step
  dsimp only
  split
  · exact serialUpdateMsl_frame ans s
  · exact ⟨_, _, _, _, _, rfl⟩

end CanPci.Uart
