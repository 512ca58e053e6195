import CanPci.Lib.RoundRobin
import CanPci.Uart.Wire

/-!
# The port on its wire

What each of the driver's functions keeps while the backend is free to act between any
two accesses: no byte is lost in either direction, and a port with something to send has
its interrupt requested.
-/

namespace CanPci.Uart
open RingFifo RoundRobin Machine
variable {N : ℕ}

/-- A byte as the tty gets it when nothing was wrong with it. -/
def plain (b : Byte) : Byte × Flag := (b, .normal)

/-- What an open port has in its interrupt enable register. -/
structure Enabled (v : Byte) : Prop where
  low : v &&& 0x0f = v
  data : v &&& 0x01 ≠ 0#8

/-- An open port and its UART: what the tty got and what still waits is all that arrived.
The port works without a backup timer. -/
structure Linked (up : UartPort N) (c : Wire) : Prop where
  running : Running up.ier c.uart
  enable : Enabled up.ier
  saved : up.lsrSavedFlags = 0#8
  ignore : up.ignoreStatusMask &&& 0x1e = up.ignoreStatusMask
  noX : up.xChar = 0#8
  noLoop : up.mctrl.loop = false
  loadsz : up.txLoadsz = 16
  noBug : up.bugThre = false
  ring : up.xmit.Consistent
  chars : up.flip ++ c.uart.waiting.map plain = c.got.map plain

/-- Linked, with `t` as what was sent and what waits to be sent. -/
structure Kept (t : List Byte) (up : UartPort N) (c : Wire) : Prop extends Linked up c where
  total : c.sent ++ up.xmit.items = t

/-- A port that may send has asked for the interrupt. -/
def UartPort.Kicked (up : UartPort N) : Prop :=
  up.xmit.head ≠ up.xmit.tail → up.stopped = false → up.hwStopped = false → up.ier &&& 0x02 ≠ 0#8

/-- The UART remembers that it was asked. -/
def Armed (up : UartPort N) (c : Wire) : Prop :=
  up.ier &&& 0x02 ≠ 0#8 → c.uart.thrIpending = true

/-- Between two calls of the driver. -/
structure Driving (t : List Byte) (up : UartPort N) (c : Wire) : Prop extends Kept t up c where
  kicked : up.Kicked
  armed : Armed up c

theorem chars_follow {c c' : Wire} {fs : List (Byte × Flag)}
    (h : fs ++ c.uart.waiting.map plain = c.got.map plain)
    (harr : ∃ new, c'.got = c.got ++ new ∧ c'.uart.waiting = c.uart.waiting ++ new) :
    fs ++ c'.uart.waiting.map plain = c'.got.map plain := by
  obtain ⟨new, hgot, hwait⟩ := harr
  rw [hgot, hwait, List.map_append, List.map_append, ← h, List.append_assoc]

/-- The fields of the port that say how it goes on are free. -/
theorem Kept.frame {t : List Byte} {up : UartPort N} {c : Wire} (h : Kept t up c)
    {msrSavedFlags readStatusMask lcr : Byte} {ctsFlow stopped hwStopped : Bool} :
    Kept t {up with msrSavedFlags, readStatusMask, lcr, ctsFlow, stopped, hwStopped} c :=
  ⟨⟨h.running, h.enable, h.saved, h.ignore, h.noX, h.noLoop, h.loadsz, h.noBug, h.ring, h.chars⟩,
    h.total⟩

theorem Kept.follow {t : List Byte} {up : UartPort N} {c c' : Wire} {v : Byte} (h : Kept t up c)
    (hf : Follows v c c') (hv : Enabled v) : Kept t {up with ier := v} c' :=
  ⟨⟨hf.running, hv, h.saved, h.ignore, h.noX, h.noLoop, h.loadsz, h.noBug, h.ring,
    chars_follow h.chars hf.arrived⟩, by rw [hf.sent]; exact h.total⟩

/-! ### Sending -/

section
variable {t : List Byte} {up : UartPort N} {c : Wire}

theorem stopTx_driving (h : Kept t up c)
    (hidle : up.xmit.head = up.xmit.tail ∨ up.stopped = true ∨ up.hwStopped = true) :
    Driving t (stopTx up c).1 (stopTx up c).2 := by
  have hkick : ∀ v, ({up with ier := v} : UartPort N).Kicked := by
    intro v hne hstop hhw
    rcases hidle with he | hs | hs
    · exact absurd he hne
    · exact absurd (hstop.symm.trans hs) (by decide)
    · exact absurd (hhw.symm.trans hs) (by decide)
  unfold stopTx
  by_cases hon : up.ier &&& 0x02 = 0#8
  · rw [if_neg (not_not.mpr hon)]
    exact ⟨h, hkick up.ier, fun hset => absurd hon hset⟩
  · rw [if_pos hon]
    have hmask : ∀ x : Byte, x &&& 0x0f = x → x &&& 0x01 ≠ 0#8 →
        (x &&& ~~~0x02#8) &&& 0x0f = x &&& ~~~0x02#8 ∧ (x &&& ~~~0x02#8) &&& 0x01 ≠ 0#8 ∧
        (x &&& ~~~0x02#8) &&& 0x02 = 0#8 := by decide
    obtain ⟨hlow, hdata, hoff⟩ := hmask up.ier h.enable.low h.enable.data
    exact ⟨h.follow (serialOut_ier h.running hlow).1 ⟨hlow, hdata⟩, hkick _,
      fun hset => absurd hoff hset⟩

theorem sendOne_kept (h : Kept t up c) (hne : up.xmit.head ≠ up.xmit.tail) :
    Kept t {up with xmit := up.xmit.pop}
      (serialOut uartTx (load up.xmit.buf up.xmit.tail) c) ∧
    (serialOut uartTx (load up.xmit.buf up.xmit.tail) c).uart.thrIpending = true := by
  obtain ⟨hrun, hthr, hsent, harr⟩ := serialOut_tx h.running (load up.xmit.buf up.xmit.tail)
  refine ⟨⟨⟨hrun, h.enable, h.saved, h.ignore, h.noX, h.noLoop, h.loadsz, h.noBug,
    CircBuf.pop_consistent h.ring, chars_follow h.chars harr⟩, ?_⟩, hthr⟩
  rw [hsent, List.append_assoc, ← h.total, CircBuf.pop_items h.ring hne]
  rfl

theorem sendChars_kept (n : ℕ) (h : Kept t up c) (hne : up.xmit.head ≠ up.xmit.tail) :
    Kept t (sendChars up c n).1 (sendChars up c n).2 ∧
    (sendChars up c n).2.uart.thrIpending = true ∧
    ∃ xmit, (sendChars up c n).1 = {up with xmit := xmit} := by
  induction n generalizing up c with
  | zero =>
    obtain ⟨hkept, hthr⟩ := sendOne_kept h hne
    exact ⟨hkept, hthr, _, rfl⟩
  | succ n ih =>
    obtain ⟨hkept, hthr⟩ := sendOne_kept h hne
    rw [sendChars]
    dsimp only
    split
    · exact ⟨hkept, hthr, _, rfl⟩
    · rename_i hmore
      exact ih hkept hmore

theorem txChars_driving (h : Kept t up c) (hkick : up.Kicked) :
    Driving t (serial8250TxChars up c).1 (serial8250TxChars up c).2 := by
  unfold serial8250TxChars
  rw [if_neg (not_not.mpr h.noX)]
  by_cases hstop : up.stopped = true ∨ up.hwStopped = true
  · rw [if_pos hstop]
    exact stopTx_driving h (Or.inr hstop)
  · rw [if_neg hstop]
    by_cases hnil : up.xmit.head = up.xmit.tail
    · rw [if_pos hnil]
      exact stopTx_driving h (Or.inl hnil)
    · rw [if_neg hnil]
      obtain ⟨hstopped, hhw⟩ := not_or.mp hstop
      have hon := hkick hnil (Bool.eq_false_iff.mpr hstopped) (Bool.eq_false_iff.mpr hhw)
      obtain ⟨hkept, hthr, xmit, hup⟩ := sendChars_kept (up.txLoadsz - 1) h hnil
      dsimp only
      split
      · exact stopTx_driving hkept (Or.inl ‹_›)
      · refine ⟨hkept, ?_, fun _ => hthr⟩
        rw [hup]
        exact fun _ _ _ => hon

/-- On this UART the workaround for a transmitter that does not interrupt would send at
once. -/
theorem startTx_kept (h : Kept t up c) :
    Kept t (serial8250StartTx up c).1 (serial8250StartTx up c).2 ∧
    (serial8250StartTx up c).1.Kicked ∧
    (Armed up c → Armed (serial8250StartTx up c).1 (serial8250StartTx up c).2) := by
  unfold serial8250StartTx
  by_cases hon : up.ier &&& 0x02 = 0#8
  · have hmask : ∀ x : Byte, x &&& 0x0f = x → x &&& 0x01 ≠ 0#8 →
        (x ||| 0x02) &&& 0x0f = x ||| 0x02 ∧ (x ||| 0x02) &&& 0x01 ≠ 0#8 ∧
        (x ||| 0x02) &&& 0x02 ≠ 0#8 := by decide
    obtain ⟨hlow, hdata, hset⟩ := hmask up.ier h.enable.low h.enable.data
    have henable : Enabled (up.ier ||| 0x02) := ⟨hlow, hdata⟩
    obtain ⟨hfollow, hthr⟩ := serialOut_ier h.running hlow
    have hkept := h.follow hfollow henable
    rw [if_pos hon]
    dsimp only
    split
    · obtain ⟨hext, hlsr⟩ := serialIn_lsr hkept.running
      have hkept' := hkept.follow hext.toFollows henable
      have hclean : up.lsrSavedFlags ||| ((serialIn uartLsr (serialOut uartIer (up.ier ||| 0x02) c)).1 &&&
          0x1e) = up.lsrSavedFlags := by
        have hzero : (serialIn uartLsr (serialOut uartIer (up.ier ||| 0x02) c)).2.uart.lsr &&& 0x1e =
            0#8 := hext.running.clean
        rw [hlsr, hzero]
        exact BitVec.or_zero
      rw [hclean]
      split
      · have hdrive := txChars_driving hkept' (fun _ _ _ => hset)
        exact ⟨hdrive.toKept, hdrive.kicked, fun _ => hdrive.armed⟩
      · exact ⟨hkept', fun _ _ _ => hset, fun _ _ => hext.thr.trans hthr⟩
    · exact ⟨hkept, fun _ _ _ => hset, fun _ _ => hthr⟩
  · rw [if_neg hon]
    exact ⟨h, fun _ _ _ => hon, id⟩

/-- With the flags changed or not, `uart_start` asks for the interrupt if there is need. -/
theorem uartStart_driving (h : Kept t up c) (harm : Armed up c) :
    Driving t (uartStart up c).1 (uartStart up c).2 := by
  unfold uartStart
  split
  · obtain ⟨hkept, hkick, hnext⟩ := startTx_kept h
    exact ⟨hkept, hkick, hnext harm⟩
  · rename_i hno
    exact ⟨h, fun hne hstop hhw => absurd ⟨hne, hstop, hhw⟩ hno, harm⟩

theorem write_driving (h : Driving t up c) (buf : List Byte) :
    (uartWrite up buf c).1 = buf.drop up.xmit.free ∧
    Driving (t ++ buf.take up.xmit.free) (uartWrite up buf c).2.1 (uartWrite up buf c).2.2 := by
  have hfill := CircBuf.fill_eq h.ring buf (Nat.lt_succ_self buf.length)
  obtain ⟨hring, hitems, -⟩ :=
    CircBuf.pushAll_items h.ring (buf.take up.xmit.free) (List.length_take_le _ _)
  have hkept : Kept (t ++ buf.take up.xmit.free)
      {up with xmit := up.xmit.pushAll (buf.take up.xmit.free)} c := by
    refine ⟨⟨h.running, h.enable, h.saved, h.ignore, h.noX, h.noLoop, h.loadsz, h.noBug, hring,
      h.chars⟩, ?_⟩
    show c.sent ++ (up.xmit.pushAll (buf.take up.xmit.free)).items = _
    rw [hitems, ← List.append_assoc, h.total]
  unfold uartWrite
  rw [hfill]
  exact ⟨rfl, uartStart_driving hkept h.armed⟩

/-! ### Receiving -/

theorem rxChar_kept (h : Kept t up c) (hdr : c.uart.lsr &&& uartLsrDr ≠ 0#8) :
    Kept t (rxChar up c.uart.lsr c).2.1 (rxChar up c.uart.lsr c).2.2 ∧
    (rxChar up c.uart.lsr c).1 = (rxChar up c.uart.lsr c).2.2.uart.lsr ∧
    (rxChar up c.uart.lsr c).2.2.uart.thrIpending = c.uart.thrIpending ∧
    ∃ flip, (rxChar up c.uart.lsr c).2.1 = {up with flip := flip} := by
  obtain ⟨hrun, hsent, hthr, new, hgot, hwait⟩ := serialIn_rx h.running hdr
  have htake : takeChar c.uart.lsr c = serialIn uartRx c := if_pos hdr
  have hclean : c.uart.lsr &&& 0x1e = 0#8 := h.running.clean
  have hor : c.uart.lsr ||| up.lsrSavedFlags = c.uart.lsr := by rw [h.saved, BitVec.or_zero]
  have hsame : ({up with lsrSavedFlags := 0} : UartPort N) = up := by
    show ({up with lsrSavedFlags := 0#8} : UartPort N) = up
    rw [← h.saved]
  have hflag : errorFlag up c.uart.lsr = (c.uart.lsr, .normal) := if_neg (not_not.mpr hclean)
  have hignore : c.uart.lsr &&& up.ignoreStatusMask = 0#8 := by
    rw [← h.ignore, BitVec.and_comm up.ignoreStatusMask, ← BitVec.and_assoc, hclean,
      BitVec.zero_and]
  have hover : c.uart.lsr &&& ~~~up.ignoreStatusMask &&& 0x02 = 0#8 := by
    have hbit : ∀ x : Byte, x &&& 0x1e = 0#8 → x &&& 0x02 = 0#8 := by decide
    rw [BitVec.and_assoc, BitVec.and_comm (~~~up.ignoreStatusMask), ← BitVec.and_assoc,
      hbit _ hclean, BitVec.zero_and]
  have hinsert : uartInsertChar up c.uart.lsr 0x02 (serialIn uartRx c).1 .normal =
      {up with flip := up.flip ++ [plain (serialIn uartRx c).1]} := by
    unfold uartInsertChar
    rw [hignore, BitVec.zero_and, if_pos rfl]
    dsimp only
    rw [hover, if_neg (not_not.mpr rfl)]
    rfl
  have hchar : rxChar up c.uart.lsr c = ((serialIn uartLsr (serialIn uartRx c).2).1,
      {up with flip := up.flip ++ [plain (serialIn uartRx c).1]},
      (serialIn uartLsr (serialIn uartRx c).2).2) := by
    unfold rxChar
    dsimp only
    rw [htake, hor, hsame, hflag, hinsert]
  have hchars : (up.flip ++ [plain (serialIn uartRx c).1]) ++
      (serialIn uartRx c).2.uart.waiting.map plain = (serialIn uartRx c).2.got.map plain := by
    rw [hgot, List.map_append, ← h.chars, List.append_assoc, List.append_assoc, ← List.map_append,
      hwait]
    rfl
  obtain ⟨hext, hlsr⟩ := serialIn_lsr hrun
  rw [hchar]
  refine ⟨⟨⟨hext.running, h.enable, h.saved, h.ignore, h.noX, h.noLoop, h.loadsz, h.noBug, h.ring,
    chars_follow hchars hext.arrived⟩, ?_⟩, hlsr, hext.thr.trans hthr, _, rfl⟩
  show (serialIn uartLsr (serialIn uartRx c).2).2.sent ++ up.xmit.items = t
  rw [hext.sent, hsent]
  exact h.total

theorem again_iff {x : Byte} (h : x &&& uartLsrIntAny = 0#8) :
    x &&& 0x11 ≠ 0#8 ↔ x &&& uartLsrDr ≠ 0#8 := by
  revert x
  decide

theorem rxChars_kept (n : ℕ) (h : Kept t up c) (hdr : c.uart.lsr &&& uartLsrDr ≠ 0#8) :
    Kept t (rxChars up c.uart.lsr c n).2.1 (rxChars up c.uart.lsr c n).2.2 ∧
    (rxChars up c.uart.lsr c n).1 = (rxChars up c.uart.lsr c n).2.2.uart.lsr ∧
    (rxChars up c.uart.lsr c n).2.2.uart.thrIpending = c.uart.thrIpending ∧
    ∃ flip, (rxChars up c.uart.lsr c n).2.1 = {up with flip := flip} := by
  induction n generalizing up c with
  | zero => exact rxChar_kept h hdr
  | succ n ih =>
    obtain ⟨hkept, hlsr, hthr, flip, hup⟩ := rxChar_kept h hdr
    rw [rxChars]
    dsimp only
    split
    · rename_i hmore
      rw [hlsr] at hmore ⊢
      obtain ⟨hkept', hlsr', hthr', flip', hup'⟩ :=
        ih hkept ((again_iff hkept.running.clean).mp hmore)
      refine ⟨hkept', hlsr', hthr'.trans hthr, flip', ?_⟩
      rw [hup', hup]
    · exact ⟨hkept, hlsr, hthr, flip, hup⟩

theorem ctsChange_kept (h : Kept t up c) (hkick : up.Kicked) (status : Byte) :
    Kept t (uartHandleCtsChange up status c).1 (uartHandleCtsChange up status c).2 ∧
    (uartHandleCtsChange up status c).1.Kicked := by
  unfold uartHandleCtsChange
  split
  · split
    · split
      · have hkept : Kept t {up with hwStopped := false} c := h.frame
        obtain ⟨hk, hkick', -⟩ := startTx_kept hkept
        exact ⟨hk, hkick'⟩
      · exact ⟨h, hkick⟩
    · split
      · have hkept : Kept t {up with hwStopped := true} c := h.frame
        have hdrive := stopTx_driving hkept (Or.inr (Or.inr rfl))
        exact ⟨hdrive.toKept, hdrive.kicked⟩
      · exact ⟨h, hkick⟩
  · exact ⟨h, hkick⟩

theorem modemStatus_kept (h : Kept t up c) (hkick : up.Kicked) :
    Kept t (serial8250ModemStatus up c).2.1 (serial8250ModemStatus up c).2.2 ∧
    (serial8250ModemStatus up c).2.1.Kicked := by
  have hext := serialIn_msr h.running
  have hfollow := h.follow hext.toFollows h.enable
  have hkept : Kept t {up with msrSavedFlags := 0} (serialIn uartMsr c).2 :=
    hfollow.frame
  unfold serial8250ModemStatus
  dsimp only
  split
  · exact ctsChange_kept hkept hkick _
  · exact ⟨hkept, hkick⟩

/-- The handler up to its read of the modem status. -/
def rxPhase {σ : Type} [SerialIo σ] (up : UartPort N) (c : σ) : Byte × UartPort N × σ :=
  let (status, c) := serialIn uartLsr c
  if status &&& 0x11 ≠ 0#8 then serial8250RxChars up status c else (status, up, c)

theorem rxPhase_kept (h : Kept t up c) : Kept t (rxPhase up c).2.1 (rxPhase up c).2.2 ∧
    (rxPhase up c).1 = (rxPhase up c).2.2.uart.lsr ∧
    ∃ flip, (rxPhase up c).2.1 = {up with flip := flip} := by
  obtain ⟨hext, hlsr⟩ := serialIn_lsr h.running
  have hkept := h.follow hext.toFollows h.enable
  unfold rxPhase
  dsimp only
  rw [hlsr]
  split
  · rename_i hmore
    obtain ⟨hk, hst, -, flip, hup⟩ :=
      rxChars_kept 256 hkept ((again_iff hkept.running.clean).mp hmore)
    exact ⟨hk, hst, flip, hup⟩
  · exact ⟨hkept, rfl, up.flip, rfl⟩

/-- A pending interrupt is handled in three phases: the transmitter is always ready. -/
theorem handleIrq_eq (h : Kept t up c) {iir : Byte} (hiir : iir &&& 0x01 = 0#8) :
    serial8250HandleIrq up iir c = (true,
      serial8250TxChars (serial8250ModemStatus (rxPhase up c).2.1 (rxPhase up c).2.2).2.1
        (serial8250ModemStatus (rxPhase up c).2.1 (rxPhase up c).2.2).2.2) := by
  obtain ⟨hk, hst, -⟩ := rxPhase_kept h
  have hthre : (rxPhase up c).1 &&& 0x20 ≠ 0#8 := by
    rw [hst]
    exact hk.running.exact.sound.settled.idle.thre
  have hphase : serial8250HandleIrq up iir c =
      (true, if (rxPhase up c).1 &&& 0x20 ≠ 0#8 then
          serial8250TxChars (serial8250ModemStatus (rxPhase up c).2.1 (rxPhase up c).2.2).2.1
            (serial8250ModemStatus (rxPhase up c).2.1 (rxPhase up c).2.2).2.2
        else (serial8250ModemStatus (rxPhase up c).2.1 (rxPhase up c).2.2).2) := by
    rw [serial8250HandleIrq, if_neg (not_not.mpr hiir)]
    rfl
  rw [hphase, if_pos hthre]

theorem rxPhase_kicked (h : Kept t up c) (hkick : up.Kicked) : (rxPhase up c).2.1.Kicked := by
  obtain ⟨-, -, flip, hup⟩ := rxPhase_kept h
  rw [hup]
  exact hkick

theorem handleIrq_driving (h : Kept t up c) (hkick : up.Kicked) {iir : Byte}
    (harm : iir &&& 0x01 ≠ 0#8 → Armed up c) :
    Driving t (serial8250HandleIrq up iir c).2.1 (serial8250HandleIrq up iir c).2.2 := by
  by_cases hnone : iir &&& 0x01 = 0#8
  · obtain ⟨hk, hkick'⟩ := modemStatus_kept (rxPhase_kept h).1 (rxPhase_kicked h hkick)
    rw [handleIrq_eq h hnone]
    exact txChars_driving hk hkick'
  · rw [serial8250HandleIrq, if_pos hnone]
    exact ⟨h, hkick, harm hnone⟩

theorem defaultHandleIrq_driving (h : Driving t up c) :
    Driving t (serial8250DefaultHandleIrq up c).2.1 (serial8250DefaultHandleIrq up c).2.2 := by
  obtain ⟨hfollow, hnone⟩ := serialIn_iir h.running
  refine handleIrq_driving (h.toKept.follow hfollow h.enable) h.kicked fun hodd hset => ?_
  rw [(hnone hodd).thr]
  exact h.armed hset

end

end CanPci.Uart
