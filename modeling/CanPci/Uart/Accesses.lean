import CanPci.Lib.BitField
import CanPci.Uart.Device

/-!
# What the UART's functions do

Closed forms of the functions that the two FIFOs and the interrupt line pass through.
-/

namespace CanPci.Uart
open RingFifo

namespace SerialFIFO

def items (f : SerialFIFO) : List Byte := f.ring.items

def push (f : SerialFIFO) (chr : Byte) : SerialFIFO :=
  {f with
    data := store f.data f.head chr, head := next uartFifoLength f.head, count := f.count + 1}

def pop (f : SerialFIFO) : SerialFIFO :=
  {f with tail := next uartFifoLength f.tail, count := f.count - 1}

/-- A full receive FIFO takes nothing. -/
def offer (f : SerialFIFO) (chr : Byte) : SerialFIFO :=
  if f.count < uartFifoLength then f.push chr else f

def clear (f : SerialFIFO) : SerialFIFO :=
  {f with data := Vector.replicate _ 0, count := 0, head := 0, tail := 0}

abbrev Consistent (f : SerialFIFO) : Prop := f.ring.Consistent

@[simp] theorem items_length (f : SerialFIFO) : f.items.length = f.count := f.ring.items_length

theorem clear_consistent (f : SerialFIFO) : f.clear.Consistent :=
  ⟨Nat.zero_le _, Nat.succ_pos _, Nat.succ_pos _, rfl⟩

theorem push_consistent {f : SerialFIFO} (h : f.Consistent) (hf : f.count < uartFifoLength)
    (chr : Byte) : (f.push chr).Consistent :=
  Ring.commit_consistent (Ring.stage_consistent h chr) hf

theorem push_items {f : SerialFIFO} (h : f.Consistent) (hf : f.count < uartFifoLength)
    (chr : Byte) : (f.push chr).items = f.items ++ [chr] := Ring.push_items h hf chr

theorem pop_consistent {f : SerialFIFO} (h : f.Consistent) (hp : 0 < f.count) :
    f.pop.Consistent := Ring.drop_consistent h hp

theorem items_eq_cons {f : SerialFIFO} (h : f.Consistent) (hp : 0 < f.count) :
    f.items = load f.data f.tail :: f.pop.items := Ring.items_eq_cons h hp

theorem clear_items (f : SerialFIFO) : f.clear.items = [] := Ring.items_eq_nil rfl

theorem offer_consistent {f : SerialFIFO} (h : f.Consistent) (chr : Byte) :
    (f.offer chr).Consistent := by
  unfold offer
  split
  · rename_i hf
    exact push_consistent h hf chr
  · exact h

theorem offerAll_items {f : SerialFIFO} (h : f.Consistent) (cs : List Byte) :
    (cs.foldl offer f).Consistent ∧
      (cs.foldl offer f).items = f.items ++ cs.take (uartFifoLength - f.count) := by
  induction cs generalizing f with
  | nil => exact ⟨h, by simp⟩
  | cons c cs ih =>
    rw [List.foldl_cons]
    refine ⟨(ih (offer_consistent h c)).1, ?_⟩
    rw [(ih (offer_consistent h c)).2]
    by_cases hf : f.count < uartFifoLength
    · have hroom : uartFifoLength - f.count = (uartFifoLength - (f.push c).count) + 1 := by
        simp only [push]
        omega
      rw [offer, if_pos hf, push_items h hf, hroom, List.take_succ_cons, List.append_assoc]
      rfl
    · have hroom : uartFifoLength - f.count = 0 := by omega
      rw [offer, if_neg hf, hroom, List.take_zero, List.take_zero]

theorem offerAll_itl (f : SerialFIFO) (cs : List Byte) : (cs.foldl offer f).itl = f.itl := by
  induction cs generalizing f with
  | nil => rfl
  | cons c cs ih =>
    rw [List.foldl_cons, ih]
    unfold offer
    split <;> rfl

end SerialFIFO

theorem fifoPut_recv (s : SerialState) (chr : Byte) :
    fifoPut s .recv chr = {s with
      recvFifo := s.recvFifo.offer chr
      lsr := if s.recvFifo.count < uartFifoLength then s.lsr else s.lsr ||| uartLsrOe} := by
  by_cases h : s.recvFifo.count < uartFifoLength
  · simp [fifoPut, SerialState.fifo, SerialState.setFifo, SerialFIFO.offer, SerialFIFO.push, h]
  · simp [fifoPut, SerialState.fifo, SerialState.setFifo, SerialFIFO.offer, h]

theorem fifoPut_xmit (s : SerialState) (chr : Byte) (h : s.xmitFifo.count < uartFifoLength) :
    fifoPut s .xmit chr = {s with xmitFifo := s.xmitFifo.push chr} := by
  simp [fifoPut, SerialState.fifo, SerialState.setFifo, SerialFIFO.push, h]

theorem fifoGet_recv_nil {s : SerialState} (h : s.recvFifo.count = 0) :
    fifoGet s .recv = (0, s) := if_pos h

theorem fifoGet_recv {s : SerialState} (h : s.recvFifo.count ≠ 0) : fifoGet s .recv =
    (load s.recvFifo.data s.recvFifo.tail, {s with recvFifo := s.recvFifo.pop}) := if_neg h

theorem or_or_self (x m : Byte) : (x ||| m) ||| m = x ||| m := by
  rw [BitVec.or_assoc, BitVec.or_self]

theorem fifoPutAll {s : SerialState} (h : s.recvFifo.count ≤ uartFifoLength) (cs : List Byte) :
    cs.foldl (fun s c => fifoPut s .recv c) s = {s with
      recvFifo := cs.foldl SerialFIFO.offer s.recvFifo
      lsr := if s.recvFifo.count + cs.length ≤ uartFifoLength then s.lsr
        else s.lsr ||| uartLsrOe} := by
  induction cs generalizing s with
  | nil => simp [h]
  | cons c cs ih =>
    have hlen : (c :: cs).length = cs.length + 1 := rfl
    rw [List.foldl_cons, List.foldl_cons, fifoPut_recv, hlen]
    by_cases hf : s.recvFifo.count < uartFifoLength
    · have hoffer : s.recvFifo.offer c = s.recvFifo.push c := if_pos hf
      have hcount : (s.recvFifo.push c).count = s.recvFifo.count + 1 := rfl
      have hsum : s.recvFifo.count + 1 + cs.length = s.recvFifo.count + (cs.length + 1) := by omega
      rw [ih (by rw [hoffer, hcount]; exact hf), if_pos hf, hoffer, hcount, hsum]
    · have hoffer : s.recvFifo.offer c = s.recvFifo := if_neg hf
      rw [ih (by rw [hoffer]; exact h), if_neg hf, hoffer, or_or_self, ite_self, if_neg (by omega)]

theorem pending_high (s : SerialState) : s.pending &&& 0xf0 = 0#8 := by
  unfold SerialState.pending
  split_ifs <;> decide

theorem pending_low (s : SerialState) : s.pending &&& 0x0f = s.pending := by
  unfold SerialState.pending
  split_ifs <;> decide

/-- The line and the identification bits say what is pending. -/
def SerialState.Coherent (s : SerialState) : Prop :=
  s.iir &&& 0x0f = s.pending ∧ s.irq = decide (s.pending ≠ uartIirNoInt)

theorem update_coherent (s : SerialState) : (serialUpdateIrq s).Coherent := by
  refine ⟨?_, rfl⟩
  have hhigh : ∀ x : Byte, (x &&& 0xf0) &&& 0x0f = 0#8 := by decide
  show (s.pending ||| (s.iir &&& 0xf0)) &&& 0x0f = s.pending
  rw [BitVec.and_comm, BitVec.and_or_distrib_left, BitVec.and_comm, pending_low,
    BitVec.and_comm 0x0f, hhigh, BitVec.or_zero]

theorem update_high (s : SerialState) : (serialUpdateIrq s).iir &&& 0xf0 = s.iir &&& 0xf0 := by
  show (s.pending ||| (s.iir &&& 0xf0)) &&& 0xf0 = s.iir &&& 0xf0
  rw [BitVec.and_comm, BitVec.and_or_distrib_left, BitVec.and_comm, pending_high, BitVec.and_comm,
    BitVec.and_assoc, BitVec.zero_or]
  rfl

/-- What an earlier update left in `iir` and on the line does not matter to a later one. -/
theorem update_absorb (s : SerialState) {iir : Byte} {irq : Bool}
    (h : iir &&& 0xf0 = s.iir &&& 0xf0) :
    serialUpdateIrq {s with iir := iir, irq := irq} = serialUpdateIrq s := by
  simp only [serialUpdateIrq, h]
  rfl

theorem update_update (s t : SerialState) (h : t.iir &&& 0xf0 = s.iir &&& 0xf0) :
    serialUpdateIrq {s with iir := (serialUpdateIrq t).iir, irq := (serialUpdateIrq t).irq} =
      serialUpdateIrq s := update_absorb s ((update_high t).trans h)

/-- What a byte for `rbr` does to the line status. -/
def rbrStatus (lsr : Byte) : Byte :=
  (if lsr &&& uartLsrDr ≠ 0#8 then lsr ||| uartLsrOe else lsr) ||| uartLsrDr

/-- The state in which `serial_receive1` updates the line. -/
def rxStore (s : SerialState) (b : Byte) (bs : List Byte) : SerialState :=
  if s.fcr &&& uartFcrFe ≠ 0#8 then {s with
    recvFifo := (b :: bs).foldl SerialFIFO.offer s.recvFifo
    lsr := (if s.recvFifo.count + (b :: bs).length ≤ uartFifoLength then s.lsr
      else s.lsr ||| uartLsrOe) ||| uartLsrDr
    fifoTimeoutTimer := true}
  else {s with rbr := b, lsr := rbrStatus s.lsr}

theorem rxStore_rbr {s : SerialState} (h : s.fcr &&& uartFcrFe = 0#8) (b : Byte) (bs : List Byte) :
    rxStore s b bs = {s with rbr := b, lsr := rbrStatus s.lsr} := if_neg (not_not.mpr h)

theorem rxStore_fifo {s : SerialState} (h : s.fcr &&& uartFcrFe ≠ 0#8) (b : Byte)
    (bs : List Byte) : rxStore s b bs = {s with
      recvFifo := (b :: bs).foldl SerialFIFO.offer s.recvFifo
      lsr := (if s.recvFifo.count + (b :: bs).length ≤ uartFifoLength then s.lsr
        else s.lsr ||| uartLsrOe) ||| uartLsrDr
      fifoTimeoutTimer := true} := if_pos h

theorem serialReceive1_eq {s : SerialState} (h : s.recvFifo.count ≤ uartFifoLength) (b : Byte)
    (bs : List Byte) : serialReceive1 s b bs =
      (serialUpdateIrq (rxStore s b bs), if s.wakeup then [Event.wakeup] else []) := by
  unfold serialReceive1 rxStore
  rw [fifoPutAll h]
  by_cases hfe : s.fcr &&& uartFcrFe = 0#8
  · simp only [hfe, ne_eq, not_true_eq_false, if_false]
    by_cases hdr : s.lsr &&& uartLsrDr = 0#8
    · simp only [rbrStatus, hdr, ne_eq, not_true_eq_false, if_false]
    · simp only [rbrStatus, hdr, ne_eq, not_false_eq_true, if_true]
  · simp only [hfe, ne_eq, not_false_eq_true, if_true]

theorem takeByte_rbr {s : SerialState} (h : s.fcr &&& uartFcrFe = 0#8) :
    takeByte s = (s.rbr, {s with lsr := s.lsr &&& ~~~(uartLsrDr ||| uartLsrBi)}) :=
  if_neg (not_not.mpr h)

theorem takeByte_nil {s : SerialState} (hfe : s.fcr &&& uartFcrFe ≠ 0#8)
    (h : s.recvFifo.count = 0) : takeByte s = (0, {s with
      lsr := s.lsr &&& ~~~(uartLsrDr ||| uartLsrBi), timeoutIpending := false}) := by
  rw [takeByte, if_pos hfe, fifoGet_recv_nil h]
  dsimp only
  rw [if_pos h]

theorem takeByte_last {s : SerialState} (hfe : s.fcr &&& uartFcrFe ≠ 0#8)
    (h : s.recvFifo.count = 1) : takeByte s = (load s.recvFifo.data s.recvFifo.tail, {s with
      recvFifo := s.recvFifo.pop
      lsr := s.lsr &&& ~~~(uartLsrDr ||| uartLsrBi), timeoutIpending := false}) := by
  have hpop : s.recvFifo.pop.count = 0 := congrArg (· - 1) h
  rw [takeByte, if_pos hfe, fifoGet_recv (by omega)]
  dsimp only
  rw [if_pos hpop]

theorem takeByte_more {s : SerialState} (hfe : s.fcr &&& uartFcrFe ≠ 0#8)
    (h : 1 < s.recvFifo.count) : takeByte s = (load s.recvFifo.data s.recvFifo.tail, {s with
      recvFifo := s.recvFifo.pop, fifoTimeoutTimer := true, timeoutIpending := false}) := by
  have hpop : s.recvFifo.pop.count ≠ 0 := by
    show s.recvFifo.count - 1 ≠ 0
    omega
  rw [takeByte, if_pos hfe, fifoGet_recv (by omega)]
  dsimp only
  rw [if_neg hpop]

/-- Between two steps nothing waits to be sent. -/
structure SerialState.Idle (s : SerialState) : Prop where
  lsr : s.lsr &&& (uartLsrThre ||| uartLsrTemt) = uartLsrThre ||| uartLsrTemt
  fifo : s.xmitFifo.Consistent
  empty : s.xmitFifo.count = 0
  retry : s.tsrRetry = 0 ∨ s.tsrRetry = -1
  timer : s.transmitTimer = false

theorem SerialState.Idle.thre {s : SerialState} (h : s.Idle) : s.lsr &&& uartLsrThre ≠ 0#8 := by
  have hbit : ∀ x : Byte, x &&& (uartLsrThre ||| uartLsrTemt) = uartLsrThre ||| uartLsrTemt →
      x &&& uartLsrThre ≠ 0#8 := by decide
  exact hbit _ h.lsr

theorem SerialState.Idle.retry_le {s : SerialState} (h : s.Idle) : s.tsrRetry ≤ 0 := by
  have := h.retry
  omega

theorem loadTsr_fifo {s : SerialState} (hr : s.tsrRetry ≤ 0) (hfe : s.fcr &&& uartFcrFe ≠ 0#8)
    (hone : s.xmitFifo.count = 1) :
    loadTsr s = {s with
      tsr := load s.xmitFifo.data s.xmitFifo.tail
      xmitFifo := s.xmitFifo.pop
      lsr := s.lsr ||| uartLsrThre} := by
  simp [loadTsr, hr, hfe, fifoGet, SerialState.fifo, SerialState.setFifo, hone, SerialFIFO.pop]

theorem loadTsr_thr {s : SerialState} (hr : s.tsrRetry ≤ 0) (hfe : s.fcr &&& uartFcrFe = 0#8) :
    loadTsr s = {s with
      tsr := s.thr
      lsr := (s.lsr ||| uartLsrThre) &&& ~~~uartLsrTemt} := by
  simp [loadTsr, hr, hfe]

theorem xmitDone_eq {s : SerialState} (h : s.lsr &&& uartLsrThre ≠ 0#8) :
    xmitDone s = serialUpdateIrq {s with lsr := s.lsr ||| uartLsrTemt, thrIpending := true} := by
  simp [xmitDone, h]

theorem serialXmit_off {t u : SerialState} (hu : loadTsr t = u)
    (hr : u.tsrRetry = 0 ∨ u.tsrRetry = -1) (hloop : u.mcr &&& uartMcrLoop = 0#8)
    (hthre : u.lsr &&& uartLsrThre ≠ 0#8) (ans : Answers) :
    ∃ retry, (retry = 0 ∨ retry = -1) ∧ serialXmit ans t = (serialUpdateIrq {u with
      tsrRetry := retry, lsr := u.lsr ||| uartLsrTemt, thrIpending := true}, [.chr u.tsr]) := by
  have hpos : ¬ (0 < u.tsrRetry ∧ u.tsrRetry ≤ maxXmitRetry) := by omega
  unfold serialXmit
  rw [hu]
  dsimp only
  rw [if_neg (not_not.mpr hloop), if_neg hpos]
  split
  · rw [xmitDone_eq (by split <;> exact hthre)]
    split
    · exact ⟨-1, Or.inr rfl, rfl⟩
    · exact ⟨u.tsrRetry, hr, rfl⟩
  · rw [xmitDone_eq (by exact hthre)]
    exact ⟨0, Or.inl rfl, rfl⟩

theorem writeThr_xmit {s : SerialState} (val : Byte) (ans : Answers)
    (hdlab : s.lcr &&& uartLcrDlab = 0#8) (hroom : s.xmitFifo.count < uartFifoLength) :
    writeThr s val ans = serialXmit ans (if s.fcr &&& uartFcrFe ≠ 0#8 then
        serialUpdateIrq {s with
          thr := val, xmitFifo := s.xmitFifo.push val, thrIpending := false
          lsr := s.lsr &&& ~~~uartLsrTemt &&& ~~~uartLsrThre}
      else serialUpdateIrq {s with
          thr := val, thrIpending := false, lsr := s.lsr &&& ~~~uartLsrThre}) := by
  unfold writeThr
  rw [if_neg (not_not.mpr hdlab)]
  have hput : fifoPut {s with thr := val} .xmit val =
      {s with thr := val, xmitFifo := s.xmitFifo.push val} := fifoPut_xmit _ _ hroom
  dsimp only
  rw [hput]

theorem SerialFIFO.push_load {f : SerialFIFO} (h : f.Consistent) (hf : f.count = 0) (val : Byte) :
    load (f.push val).data (f.push val).tail = val := by
  have htail : f.head = f.tail := by
    have := h.tail_eq
    simp only [SerialFIFO.ring, hf, Nat.add_zero] at this
    rw [this]
    exact Nat.mod_eq_of_lt h.head_lt
  show load (store f.data f.head val) f.tail = val
  rw [htail]
  exact load_store_self _ _ h.head_lt

/-- Outside loopback a byte for the transmitter goes to the backend at once, whatever the
backend answers. -/
theorem writeThr_eq {s : SerialState} (h : s.Idle) (val : Byte) (ans : Answers)
    (hdlab : s.lcr &&& uartLcrDlab = 0#8) (hloop : s.mcr &&& uartMcrLoop = 0#8) :
    ∃ f retry, f.Consistent ∧ f.count = 0 ∧ (retry = 0 ∨ retry = -1) ∧
      writeThr s val ans = (serialUpdateIrq {s with
        thr := val, tsr := val, xmitFifo := f, tsrRetry := retry, thrIpending := true},
        [.chr val]) := by
  have hroom : s.xmitFifo.count < uartFifoLength := by
    rw [h.empty]
    decide
  rw [writeThr_xmit val ans hdlab hroom]
  by_cases hfe : s.fcr &&& uartFcrFe = 0#8
  · have hlsr : ∀ x : Byte, x &&& (uartLsrThre ||| uartLsrTemt) = uartLsrThre ||| uartLsrTemt →
        ((x &&& ~~~uartLsrThre ||| uartLsrThre) &&& ~~~uartLsrTemt) &&& uartLsrThre ≠ 0#8 ∧
        ((x &&& ~~~uartLsrThre ||| uartLsrThre) &&& ~~~uartLsrTemt) ||| uartLsrTemt = x := by
      decide
    rw [if_neg (not_not.mpr hfe)]
    obtain ⟨retry, hretry, heq⟩ := serialXmit_off (loadTsr_thr (s := serialUpdateIrq {s with
      thr := val, thrIpending := false, lsr := s.lsr &&& ~~~uartLsrThre}) h.retry_le hfe)
      h.retry hloop (hlsr _ h.lsr).1 ans
    refine ⟨s.xmitFifo, retry, h.fifo, h.empty, hretry, ?_⟩
    rw [heq, ← update_update {s with
      thr := val, tsr := val, tsrRetry := retry, thrIpending := true} {s with
      thr := val, thrIpending := false, lsr := s.lsr &&& ~~~uartLsrThre} rfl]
    dsimp only [serialUpdateIrq]
    rw [(hlsr _ h.lsr).2]
  · have hlsr : ∀ x : Byte, x &&& (uartLsrThre ||| uartLsrTemt) = uartLsrThre ||| uartLsrTemt →
        (x &&& ~~~uartLsrTemt &&& ~~~uartLsrThre ||| uartLsrThre) &&& uartLsrThre ≠ 0#8 ∧
        (x &&& ~~~uartLsrTemt &&& ~~~uartLsrThre ||| uartLsrThre) ||| uartLsrTemt = x := by
      decide
    have hone : (s.xmitFifo.push val).count = 1 := congrArg (· + 1) h.empty
    have hpush := SerialFIFO.push_consistent h.fifo hroom val
    rw [if_pos hfe]
    obtain ⟨retry, hretry, heq⟩ := serialXmit_off (loadTsr_fifo (s := serialUpdateIrq {s with
      thr := val, xmitFifo := s.xmitFifo.push val, thrIpending := false
      lsr := s.lsr &&& ~~~uartLsrTemt &&& ~~~uartLsrThre}) h.retry_le hfe hone)
      h.retry hloop (hlsr _ h.lsr).1 ans
    refine ⟨(s.xmitFifo.push val).pop, retry, SerialFIFO.pop_consistent hpush (by omega),
      congrArg (· - 1) hone, hretry, ?_⟩
    rw [heq, ← update_update {s with
      thr := val, tsr := val, xmitFifo := (s.xmitFifo.push val).pop, tsrRetry := retry
      thrIpending := true} {s with
      thr := val, xmitFifo := s.xmitFifo.push val, thrIpending := false
      lsr := s.lsr &&& ~~~uartLsrTemt &&& ~~~uartLsrThre} rfl]
    dsimp only [serialUpdateIrq]
    rw [(hlsr _ h.lsr).2, SerialFIFO.push_load h.fifo h.empty]

theorem serialXmit_loop {t u r : SerialState} (hu : loadTsr t = u)
    (hcount : u.recvFifo.count ≤ uartFifoLength) (hloop : u.mcr &&& uartMcrLoop ≠ 0#8)
    (hr : rxStore u u.tsr [] = r) (hthre : r.lsr &&& uartLsrThre ≠ 0#8) (ans : Answers) :
    serialXmit ans t = (serialUpdateIrq {r with
      lsr := r.lsr ||| uartLsrTemt, thrIpending := true},
      if u.wakeup then [Event.wakeup] else []) := by
  unfold serialXmit
  rw [hu]
  dsimp only
  rw [if_pos hloop, serialReceive1_eq hcount, hr]
  dsimp only
  rw [xmitDone_eq (by exact hthre)]
  refine Prod.ext ?_ rfl
  exact update_update {r with lsr := r.lsr ||| uartLsrTemt, thrIpending := true} r rfl

theorem writeThr_loop {s : SerialState} (h : s.Idle) (hcount : s.recvFifo.count ≤ uartFifoLength)
    (val : Byte) (ans : Answers) (hdlab : s.lcr &&& uartLcrDlab = 0#8)
    (hloop : s.mcr &&& uartMcrLoop ≠ 0#8) :
    ∃ f, f.Consistent ∧ f.count = 0 ∧
      writeThr s val ans = (serialUpdateIrq {rxStore s val [] with
        thr := val, tsr := val, xmitFifo := f, thrIpending := true},
        if s.wakeup then [Event.wakeup] else []) := by
  have hroom : s.xmitFifo.count < uartFifoLength := by
    rw [h.empty]
    decide
  rw [writeThr_xmit val ans hdlab hroom]
  by_cases hfe : s.fcr &&& uartFcrFe = 0#8
  · have hlsr : ∀ x : Byte, x &&& (uartLsrThre ||| uartLsrTemt) = uartLsrThre ||| uartLsrTemt →
        ∀ y, y = (x &&& ~~~uartLsrThre ||| uartLsrThre) &&& ~~~uartLsrTemt →
        rbrStatus y &&& uartLsrThre ≠ 0#8 ∧ rbrStatus y ||| uartLsrTemt = rbrStatus x := by
      rintro x hx y rfl
      revert x
      decide
    obtain ⟨hthre, hsame⟩ := hlsr _ h.lsr _ rfl
    rw [if_neg (not_not.mpr hfe), rxStore_rbr hfe]
    have heq := serialXmit_loop (loadTsr_thr (s := serialUpdateIrq {s with
      thr := val, thrIpending := false, lsr := s.lsr &&& ~~~uartLsrThre}) h.retry_le hfe) hcount
      hloop (rxStore_rbr (by exact hfe) _ _) hthre ans
    refine ⟨s.xmitFifo, h.fifo, h.empty, ?_⟩
    rw [heq]
    refine Prod.ext ?_ rfl
    rw [← update_update {s with
      rbr := val, lsr := rbrStatus s.lsr, thr := val, tsr := val, thrIpending := true} {s with
      thr := val, thrIpending := false, lsr := s.lsr &&& ~~~uartLsrThre} rfl]
    dsimp only [serialUpdateIrq]
    simp only [hsame]
  · have hlsr : ∀ x : Byte, x &&& (uartLsrThre ||| uartLsrTemt) = uartLsrThre ||| uartLsrTemt →
        ∀ y, y = x &&& ~~~uartLsrTemt &&& ~~~uartLsrThre ||| uartLsrThre → ∀ p : Prop, ∀ [Decidable p],
        ((if p then y else y ||| uartLsrOe) ||| uartLsrDr) &&& uartLsrThre ≠ 0#8 ∧
        ((if p then y else y ||| uartLsrOe) ||| uartLsrDr) ||| uartLsrTemt =
          (if p then x else x ||| uartLsrOe) ||| uartLsrDr := by
      rintro x hx y rfl p hp
      split
      · revert x
        decide
      · revert x
        decide
    obtain ⟨hthre, hsame⟩ := hlsr _ h.lsr _ rfl (s.recvFifo.count + [val].length ≤ uartFifoLength)
    have hone : (s.xmitFifo.push val).count = 1 := congrArg (· + 1) h.empty
    have hpush := SerialFIFO.push_consistent h.fifo hroom val
    rw [if_pos hfe, rxStore_fifo hfe]
    have heq := serialXmit_loop (loadTsr_fifo (s := serialUpdateIrq {s with
      thr := val, xmitFifo := s.xmitFifo.push val, thrIpending := false
      lsr := s.lsr &&& ~~~uartLsrTemt &&& ~~~uartLsrThre}) h.retry_le hfe hone) hcount
      hloop (rxStore_fifo (by exact hfe) _ _) hthre ans
    refine ⟨(s.xmitFifo.push val).pop, SerialFIFO.pop_consistent hpush (by omega),
      congrArg (· - 1) hone, ?_⟩
    rw [heq]
    refine Prod.ext ?_ rfl
    rw [← update_update {s with
      recvFifo := [val].foldl SerialFIFO.offer s.recvFifo
      lsr := (if s.recvFifo.count + [val].length ≤ uartFifoLength then s.lsr
        else s.lsr ||| uartLsrOe) ||| uartLsrDr
      fifoTimeoutTimer := true
      thr := val, tsr := val, xmitFifo := (s.xmitFifo.push val).pop, thrIpending := true} {s with
      thr := val, xmitFifo := s.xmitFifo.push val, thrIpending := false
      lsr := s.lsr &&& ~~~uartLsrTemt &&& ~~~uartLsrThre} rfl]
    dsimp only [serialUpdateIrq]
    simp only [SerialFIFO.push_load h.fifo h.empty, hsame]

end CanPci.Uart
