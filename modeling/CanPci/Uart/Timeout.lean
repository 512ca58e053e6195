import CanPci.Uart.Transfer

/-!
# The receive timeout

Bytes below the trigger level are reported when the timeout expires. A break puts a byte
into the FIFO without arming its timer; without breaks no byte is forgotten.
-/

namespace CanPci.Uart
open RingFifo Machine

/-- The receiver after a change of the FIFO control register. -/
def fcrView (s : SerialState) (val : Byte) : Byte × SerialFIFO × Byte × Byte × Bool × Bool :=
  (flushBits s.fcr val &&& 0xc9, fcrRecv s val, s.lsr, s.rbr,
    if flushBits s.fcr val &&& uartFcrRfr ≠ 0#8 then false else s.timeoutIpending,
    if flushBits s.fcr val &&& uartFcrRfr ≠ 0#8 then false else s.fifoTimeoutTimer)

/-- Every way a step without a break acts on the receiver. -/
inductive RxStep (s : SerialState) (a : Input) (t : SerialState) : Prop
  | same (h : t.rxView = s.rxView)
  | status (m : Byte) (h : t.rxView = SerialState.rxView {s with lsr := s.lsr &&& m})
  | store (b : Byte) (bs : List Byte) (h : t.rxView = (rxStore s b bs).rxView)
  | take (h : t.rxView = (takeByte s).2.rxView)
  | flush (addr : ℕ) (val : Byte) (ans : Answers) (ha : a = .write addr val ans)
    (haddr : addr % 8 = 2) (h : t.rxView = fcrView s val)
  | expire (h : t = fifoTimeoutInt {s with fifoTimeoutTimer := false})
  | reset (ha : a = .reset) (h : t = serialReset s)

theorem write_rx {s : SerialState} (h : s.Sound) (addr : ℕ) (val : Byte) (ans : Answers) :
    RxStep s (.write addr val ans) (serialIoportWrite s addr val ans).1 := by
  unfold serialIoportWrite
  split
  · exact .same (writeIer_view s val ans)
  · by_cases hval : s.fcr = val
    · rw [writeFcr, if_pos hval]
      exact .same rfl
    · rw [writeFcr_eq hval]
      exact .flush addr val ans rfl ‹_› rfl
  · exact .same (writeLcr_view s val)
  · exact .same (writeMcr_view s val ans)
  · exact .same rfl
  · exact .same rfl
  · exact .same rfl
  · by_cases hok : s.lcr &&& uartLcrDlab = 0#8 → s.mcr &&& uartMcrLoop = 0#8
    · exact .same (writeThr_view h val ans hok)
    · -- in loopback the byte comes back
      obtain ⟨hdlab, hloop⟩ := Classical.not_imp.mp hok
      obtain ⟨f, -, -, heq⟩ :=
        writeThr_loop h.settled.idle h.settled.recv.count_le val ans hdlab hloop
      rw [heq]
      exact .store val [] rfl

theorem read_rx (s : SerialState) (addr : ℕ) (ans : Answers) :
    RxStep s (.read addr ans) (serialIoportRead s addr ans).2.1 := by
  unfold serialIoportRead
  split
  · exact .same rfl
  · exact .same (readIir_view s)
  · exact .same rfl
  · exact .same rfl
  · obtain ⟨y, l, heq⟩ := readLsr_eq s
    dsimp only
    rw [heq]
    exact .status _ rfl
  · exact .same (readMsr_view s ans)
  · exact .same rfl
  · unfold readRbr
    split
    · exact .same rfl
    · exact .take rfl

theorem step_rx {s : SerialState} (h : s.Sound) {a : Input} (ha : a ≠ .eventBreak) :
    RxStep s a (step s a).1 := by
  cases a with
  | write addr val ans => exact write_rx h addr val ans
  | read addr ans => exact read_rx s addr ans
  | receive b bs =>
    rw [step, serialReceive1_eq h.settled.recv.count_le]
    exact .store b bs rfl
  | eventBreak => exact absurd rfl ha
  | fifoTimeout =>
    unfold step
    dsimp only
    split
    · exact .expire rfl
    · exact .same rfl
  | transmit ans =>
    rw [step, h.settled.idle.timer]
    exact .same rfl
  | pollModem ans => exact .same (pollModem_view s ans)
  | reset => exact .reset rfl rfl

/-- Not a break, a reset or a write of the FIFO control register. -/
def Ordinary : Input → Prop
  | .write addr _ _ => addr % 8 ≠ 2
  | .eventBreak => False
  | .reset => False
  | _ => True

theorem Ordinary.unbroken {a : Input} (h : Ordinary a) : a ≠ .eventBreak ∧ a ≠ .reset := by
  refine ⟨?_, ?_⟩
  · rintro rfl
    exact h
  · rintro rfl
    exact h

theorem rxStore_fcr (s : SerialState) (b : Byte) (bs : List Byte) : (rxStore s b bs).fcr = s.fcr := by
  obtain ⟨f, r, l, t, heq⟩ := rxStore_eq s b bs
  rw [heq]

theorem takeByte_fcr (s : SerialState) : (takeByte s).2.fcr = s.fcr := by
  obtain ⟨f, m, p, t, heq⟩ := takeByte_eq s
  rw [heq]

theorem step_fcr {s : SerialState} (hs : s.Sound) {a : Input} (ha : Ordinary a) :
    (step s a).1.fcr = s.fcr := by
  have hview : ∀ {t u : SerialState}, t.rxView = u.rxView → t.fcr = u.fcr :=
    fun h => congrArg Prod.fst h
  cases step_rx hs ha.unbroken.1 with
  | same hv => exact hview hv
  | status m hv => exact congrArg Prod.fst hv
  | store b bs hv => exact (hview hv).trans (rxStore_fcr s b bs)
  | take hv => exact (hview hv).trans (takeByte_fcr s)
  | flush addr val ans hw haddr _ =>
    subst hw
    exact absurd haddr ha
  | expire heq =>
    rw [heq, fifoTimeoutInt]
    split
    · rfl
    · rfl
  | reset hr _ => exact absurd hr ha.unbroken.2

/-- Bytes in the FIFO have been reported or will be. -/
def SerialState.Timed (s : SerialState) : Prop :=
  0 < s.recvFifo.count → s.timeoutIpending = true ∨ s.fifoTimeoutTimer = true

/-- A timeout is reported only for bytes that are there. -/
structure SerialState.Honest (s : SerialState) : Prop where
  off : s.fcr &&& uartFcrFe = 0#8 → s.recvFifo.count = 0
  timeout : s.timeoutIpending = true → 0 < s.recvFifo.count

theorem timed_congr {s t : SerialState} (h : t.rxView = s.rxView) (hs : s.Timed) : t.Timed := by
  simp only [SerialState.rxView, Prod.mk.injEq] at h
  obtain ⟨-, hfifo, -, -, hp, ht⟩ := h
  unfold SerialState.Timed at hs ⊢
  rw [hfifo, hp, ht]
  exact hs

theorem honest_congr {s t : SerialState} (h : t.rxView = s.rxView) (hs : s.Honest) : t.Honest := by
  simp only [SerialState.rxView, Prod.mk.injEq] at h
  obtain ⟨hfcr, hfifo, -, -, hp, -⟩ := h
  refine ⟨?_, ?_⟩
  · rw [hfcr, hfifo]
    exact hs.off
  · rw [hp, hfifo]
    exact hs.timeout

theorem rxStore_timed {s : SerialState} (h : s.Timed) (b : Byte) (bs : List Byte) :
    (rxStore s b bs).Timed := by
  by_cases hfe : s.fcr &&& uartFcrFe = 0#8
  · rw [rxStore_rbr hfe]
    exact h
  · rw [rxStore_fifo hfe]
    exact fun _ => Or.inr rfl

theorem rxStore_honest {s : SerialState} (h : s.Honest) (hs : s.Sound) (b : Byte) (bs : List Byte) :
    (rxStore s b bs).Honest := by
  by_cases hfe : s.fcr &&& uartFcrFe = 0#8
  · rw [rxStore_rbr hfe]
    exact ⟨h.off, h.timeout⟩
  · rw [rxStore_fifo hfe]
    refine ⟨fun hoff => absurd hoff hfe, fun hp => ?_⟩
    have hpos := h.timeout hp
    have hall := (SerialFIFO.offerAll_items hs.settled.recv (b :: bs)).2
    have hlen := congrArg List.length hall
    rw [SerialFIFO.items_length, List.length_append, SerialFIFO.items_length] at hlen
    show 0 < ((b :: bs).foldl SerialFIFO.offer s.recvFifo).count
    omega

theorem takeByte_timed {s : SerialState} (h : s.Timed) : (takeByte s).2.Timed := by
  by_cases hfe : s.fcr &&& uartFcrFe = 0#8
  · rw [takeByte_rbr hfe]
    exact h
  · rcases Nat.lt_trichotomy 1 s.recvFifo.count with hmore | hone | hnil
    · rw [takeByte_more hfe hmore]
      exact fun _ => Or.inr rfl
    · rw [takeByte_last hfe hone.symm]
      intro hpos
      change 0 < s.recvFifo.count - 1 at hpos
      omega
    · rw [takeByte_nil hfe (by omega)]
      intro hpos
      change 0 < s.recvFifo.count at hpos
      omega

theorem takeByte_honest {s : SerialState} (h : s.Honest) : (takeByte s).2.Honest := by
  by_cases hfe : s.fcr &&& uartFcrFe = 0#8
  · rw [takeByte_rbr hfe]
    exact ⟨h.off, h.timeout⟩
  · rcases Nat.lt_trichotomy 1 s.recvFifo.count with hmore | hone | hnil
    · rw [takeByte_more hfe hmore]
      exact ⟨fun hoff => absurd hoff hfe, fun hp => absurd hp Bool.false_ne_true⟩
    · rw [takeByte_last hfe hone.symm]
      exact ⟨fun hoff => absurd hoff hfe, fun hp => absurd hp Bool.false_ne_true⟩
    · rw [takeByte_nil hfe (by omega)]
      exact ⟨fun hoff => absurd hoff hfe, fun hp => absurd hp Bool.false_ne_true⟩

theorem fcrView_kept {s t : SerialState} {val : Byte} (h : t.rxView = fcrView s val) :
    (s.Timed → t.Timed) ∧ (s.Honest → t.Honest) := by
  simp only [SerialState.rxView, fcrView, Prod.mk.injEq] at h
  obtain ⟨hfcr, hfifo, -, -, hp, ht⟩ := h
  by_cases hr : flushBits s.fcr val &&& uartFcrRfr = 0#8
  · -- nothing is flushed, so the enable bit stays
    have hfe : t.fcr &&& uartFcrFe = s.fcr &&& uartFcrFe := by
      rw [hfcr, sticky_fe, flushBits_fe]
      by_contra hne
      exact flush_of_change (Ne.symm hne) hr
    have hcount : t.recvFifo.count = s.recvFifo.count := by
      rw [hfifo, fcrRecv, if_neg (not_not.mpr hr)]
      split
      · rfl
      · rfl
    rw [if_neg (not_not.mpr hr)] at hp ht
    refine ⟨fun hs => ?_, fun hs => ⟨?_, ?_⟩⟩
    · unfold SerialState.Timed at hs ⊢
      rw [hcount, hp, ht]
      exact hs
    · rw [hfe, hcount]
      exact hs.off
    · rw [hp, hcount]
      exact hs.timeout
  · have hzero : t.recvFifo.count = 0 := by
      rw [hfifo]
      by_contra hne
      exact hr (fcrRecv_count val (Nat.pos_of_ne_zero hne)).1
    rw [if_pos hr] at hp
    refine ⟨fun _ hpos => absurd hzero (Nat.ne_of_gt hpos), fun _ => ⟨fun _ => hzero, fun hset => ?_⟩⟩
    rw [hp] at hset
    exact absurd hset Bool.false_ne_true

theorem step_timed {s : SerialState} (hs : s.Sound) (h : s.Timed) {a : Input}
    (ha : a ≠ .eventBreak) : (step s a).1.Timed := by
  cases step_rx hs ha with
  | same hv => exact timed_congr hv h
  | status m hv => exact timed_congr hv h
  | store b bs hv => exact timed_congr hv (rxStore_timed h b bs)
  | take hv => exact timed_congr hv (takeByte_timed h)
  | flush addr val ans _ _ hv => exact (fcrView_kept hv).1 h
  | expire heq =>
    rw [heq, fifoTimeoutInt]
    split
    · exact fun _ => Or.inl rfl
    · rename_i hzero
      exact fun hpos => absurd (Nat.ne_of_gt hpos) hzero
  | reset heq =>
    rw [heq]
    exact fun hpos => absurd hpos (Nat.lt_irrefl 0)

/-- A reset forgets the bytes but not the timeout that reported them. -/
theorem step_honest {s : SerialState} (hs : s.Sound) (h : s.Honest) {a : Input}
    (ha : a ≠ .eventBreak) (hr : a ≠ .reset) : (step s a).1.Honest := by
  cases step_rx hs ha with
  | same hv => exact honest_congr hv h
  | status m hv => exact honest_congr hv ⟨h.off, h.timeout⟩
  | store b bs hv => exact honest_congr hv (rxStore_honest h hs b bs)
  | take hv => exact honest_congr hv (takeByte_honest h)
  | flush addr val ans _ _ hv => exact (fcrView_kept hv).2 h
  | expire heq =>
    rw [heq, fifoTimeoutInt]
    split
    · rename_i hne
      exact ⟨h.off, fun _ => Nat.pos_of_ne_zero hne⟩
    · exact ⟨h.off, h.timeout⟩
  | reset heq => exact absurd heq hr

/-- Bytes that wait while the guest has asked for them hold the line high, or the timeout
is running and raises it. -/
def SerialState.Reported (s : SerialState) : Prop :=
  s.ier &&& uartIerRdi ≠ 0#8 → s.waiting ≠ [] →
    s.irq = true ∨ s.fifoTimeoutTimer = true ∧ (step s .fifoTimeout).1.irq = true

theorem SerialState.Timed.reported {s : SerialState} (h : s.Timed) (hs : s.Sound) : s.Reported := by
  intro hier hwait
  have hline : ∀ t : SerialState, t.Sound → t.Requests → t.irq = true := by
    intro t ht hreq
    rw [ht.coherent.2, decide_eq_true_iff]
    exact (pending_iff t).mpr hreq
  by_cases hfe : s.fcr &&& uartFcrFe = 0#8
  · have hdr : s.lsr &&& uartLsrDr ≠ 0#8 := fun hdr => hwait (waiting_none hfe hdr)
    exact Or.inl (hline s hs ⟨.rdi, hier, hdr, Or.inl hfe⟩)
  · rw [waiting_fifo hfe] at hwait
    have hpos : 0 < s.recvFifo.count := by
      rw [← SerialFIFO.items_length]
      exact List.length_pos_of_ne_nil hwait
    rcases h hpos with hp | ht
    · exact Or.inl (hline s hs ⟨.cti, hier, hp⟩)
    · refine Or.inr ⟨ht, hline _ (step_sound s .fifoTimeout hs) ?_⟩
      have hfire : (step s .fifoTimeout).1 =
          serialUpdateIrq {s with fifoTimeoutTimer := false, timeoutIpending := true} := by
        unfold step fifoTimeoutInt
        dsimp only
        rw [if_pos ht, if_pos (Nat.ne_of_gt hpos)]
      rw [hfire]
      exact ⟨.cti, hier, rfl⟩

/-- Unless the backend sends a break, no byte is forgotten in the receiver. -/
theorem data_is_reported (baudbase : ℕ) (as : List Input) (hbreak : ∀ a ∈ as, a ≠ .eventBreak) :
    (run step (SerialState.init baudbase) as).1.Reported := by
  have hinit : (SerialState.init baudbase).Sound ∧ (SerialState.init baudbase).Timed :=
    ⟨init_sound baudbase, fun hpos => absurd hpos (Nat.lt_irrefl 0)⟩
  have hrun : (run step (SerialState.init baudbase) as).1.Sound ∧
      (run step (SerialState.init baudbase) as).1.Timed :=
    run_invariant_of (I := fun s => s.Sound ∧ s.Timed)
      (fun s a h ha => ⟨step_sound s a h.1, step_timed h.1 h.2 ha⟩) hbreak hinit
  exact hrun.2.reported hrun.1

/-- Two bytes below a trigger level of four, with the receiver's interrupt enabled. -/
def belowTrigger : List Input :=
  [.write 2 0x41 quietAnswers, .write 1 0x01 quietAnswers, .receive 0x61 [0x62]]

theorem data_is_reported_below :
    (run step (SerialState.init 115200) belowTrigger).1.Reported :=
  data_is_reported 115200 belowTrigger (by decide)

end CanPci.Uart
