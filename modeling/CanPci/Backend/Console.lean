import CanPci.Backend.Telnet
import CanPci.Uart.Timeout

/-!
# A serial console over telnet

A telnet server in front of a UART. The main loop asks the UART for a promise and waits; the
guest runs meanwhile; then the server reads. What the client sends reaches the guest.
-/

namespace CanPci.Console
open Machine Uart

structure Wired where
  tcp : Telnet.TcpCharDriver
  uart : SerialState

/-- What reaches the UART from elsewhere than its backend. -/
def Own : Uart.Input → Prop
  | .receive _ _ => False
  | .eventBreak => False
  | _ => True

abbrev GuestInput := {a : Uart.Input // Own a}

/-- An access of the guest, a round of the main loop, a client that connects. In a round
`sent` waits in the socket when the guest has done what it does `during` the wait; `none` if
the socket is not ready. -/
inductive Input
  | guest (a : GuestInput)
  | round (during : List GuestInput) (sent : Option (List Byte))
  | accept

/-- What the handlers of `serial_init_core` make of it. -/
def handler : Telnet.Event → List Uart.Input
  | .brk => [.eventBreak]
  | .beWrite [] => []
  | .beWrite (b :: bs) => [.receive b bs]
  | .closed => []

def read (sent : Option (List Byte)) (tcp : Telnet.TcpCharDriver) :
    Telnet.TcpCharDriver × List Telnet.Event :=
  match sent with
  | none => (tcp, [])
  | some sent => Telnet.tcpChrRead tcp sent

def step (c : Wired) : Input → Wired × List Uart.Event
  | .guest a => ({c with uart := (Uart.step c.uart a.val).1}, (Uart.step c.uart a.val).2)
  | .round during sent =>
    let tcp := Telnet.tcpChrReadPoll c.tcp (serialCanReceive c.uart)
    let (uart, out) := run Uart.step c.uart (during.map Subtype.val)
    let (tcp, told) := read sent tcp
    let (uart, out') := run Uart.step uart (told.flatMap handler)
    (⟨tcp, uart⟩, out ++ out')
  | .accept => ({c with tcp := (Telnet.step c.tcp .accept).1}, [])

def start (baudbase : ℕ) : Wired := ⟨Telnet.server, .init baudbase⟩

def asked (c : Wired) : Input → List Telnet.Input
  | .guest _ => []
  | .round _ none => [.poll (serialCanReceive c.uart)]
  | .round _ (some sent) => [.poll (serialCanReceive c.uart), .read sent]
  | .accept => [.accept]

def fed (c : Wired) (i : Input) : List Uart.Input :=
  match i with
  | .guest a => [a.val]
  | .round during _ =>
    during.map Subtype.val ++ (run Telnet.step c.tcp (asked c i)).2.flatMap handler
  | .accept => []

/-- What the server takes out of the socket. -/
def fetched (c : Wired) (i : Input) : List Byte :=
  tally Telnet.step Telnet.consumed c.tcp (asked c i)

def took (c : Wired) (i : Input) : List Byte := tally Uart.step taken c.uart (fed c i)

theorem step_parts (c : Wired) (i : Input) :
    (step c i).1.tcp = (run Telnet.step c.tcp (asked c i)).1 ∧
    (step c i).1.uart = (run Uart.step c.uart (fed c i)).1 := by
  cases i with
  | guest a => exact ⟨rfl, rfl⟩
  | round during sent =>
    cases sent with
    | none =>
      refine ⟨rfl, ?_⟩
      rw [fed, run_append]
      rfl
    | some sent =>
      refine ⟨rfl, ?_⟩
      rw [fed, run_append]
      show _ = (run Uart.step _ (([] ++ ((Telnet.tcpChrRead _ sent).2 ++ [])).flatMap handler)).1
      rw [List.nil_append, List.append_nil]
      rfl
  | accept => exact ⟨rfl, rfl⟩

/-- A promise outlives everything but a switch of the FIFOs. -/
def KeepsFifo (s : SerialState) : Uart.Input → Prop
  | .write addr val _ => addr % 8 = 2 → val &&& uartFcrFe = s.fcr &&& uartFcrFe
  | .reset => False
  | _ => True

instance (s : SerialState) : ∀ a, Decidable (KeepsFifo s a)
  | .write _ _ _ => inferInstanceAs (Decidable (_ → _))
  | .read _ _ => instDecidableTrue
  | .receive _ _ => instDecidableTrue
  | .eventBreak => instDecidableTrue
  | .fifoTimeout => instDecidableTrue
  | .transmit _ => instDecidableTrue
  | .pollModem _ => instDecidableTrue
  | .reset => instDecidableFalse

theorem room_eq {s : SerialState} (h : s.Exact) :
    s.room + s.waiting.length = if s.fcr &&& uartFcrFe ≠ 0#8 then uartFifoLength else 1 := by
  rw [SerialState.room, SerialState.waiting]
  have hle : s.recvFifo.count ≤ uartFifoLength := h.sound.settled.recv.count_le
  split
  · rw [SerialFIFO.items_length]
    omega
  · split <;> rfl

theorem fe_kept {s : SerialState} (h : s.Sound) {a : Uart.Input} (ho : Own a) (hk : KeepsFifo s a) :
    (Uart.step s a).1.fcr &&& uartFcrFe = s.fcr &&& uartFcrFe := by
  by_cases ha : Ordinary a
  · rw [step_fcr h ha]
  · cases a with
    | write addr val ans =>
      have haddr : addr % 8 = 2 := not_not.mp ha
      show (serialIoportWrite s addr val ans).1.fcr &&& uartFcrFe = _
      rw [serialIoportWrite, haddr]
      show (writeFcr s val).fcr &&& uartFcrFe = _
      by_cases hval : s.fcr = val
      · rw [writeFcr, if_pos hval]
      · rw [writeFcr_eq hval]
        show (flushBits s.fcr val &&& 0xc9) &&& uartFcrFe = _
        rw [sticky_fe, flushBits_fe]
        exact hk haddr
    | read addr ans => exact absurd trivial ha
    | receive b bs => exact ho.elim
    | eventBreak => exact ho.elim
    | fifoTimeout => exact absurd trivial ha
    | transmit ans => exact absurd trivial ha
    | pollModem ans => exact absurd trivial ha
    | reset => exact hk.elim

theorem own_received {s : SerialState} {a : Uart.Input} (ho : Own a) : received s a = [] := by
  cases a with
  | receive b bs => exact ho.elim
  | eventBreak => exact ho.elim
  | _ => rfl

theorem own_room {s : SerialState} (h : s.Exact) {a : Uart.Input} (ho : Own a) (hok : Careful s a)
    (hk : KeepsFifo s a) : s.room ≤ (Uart.step s a).1.room := by
  obtain ⟨hexact, hbal⟩ := step_balance s a h hok
  rw [own_received ho, List.append_nil] at hbal
  have hlen := congrArg List.length hbal
  rw [List.length_append] at hlen
  have hbefore := room_eq h
  have hafter := room_eq hexact
  rw [fe_kept h.sound ho hk] at hafter
  omega

theorem during_room (during : List GuestInput) {s : SerialState} (h : s.Exact)
    (hok : Along Uart.step (fun s a => Careful s a ∧ KeepsFifo s a) s (during.map Subtype.val)) :
    Along Uart.step Careful s (during.map Subtype.val) ∧
    (run Uart.step s (during.map Subtype.val)).1.Exact ∧
    s.room ≤ (run Uart.step s (during.map Subtype.val)).1.room ∧
    tally Uart.step received s (during.map Subtype.val) = [] := by
  induction during generalizing s with
  | nil => exact ⟨trivial, h, Nat.le_refl _, rfl⟩
  | cons a during ih =>
    obtain ⟨⟨hcare, hkeep⟩, hrest⟩ := hok
    obtain ⟨hexact, -⟩ := step_balance s a.val h hcare
    obtain ⟨hcareful, hlast, hroom, hnone⟩ := ih hexact hrest
    refine ⟨⟨hcare, hcareful⟩, hlast, (own_room h a.property hcare hkeep).trans hroom, ?_⟩
    rw [List.map_cons, tally, own_received a.property, hnone]
    rfl

theorem chrRead_handled {tcp : Telnet.TcpCharDriver} (h : tcp.doTelnetopt ≠ 0) (sent : List Byte)
    (hbreaks : Telnet.breaks (Telnet.tcpChrRead tcp sent).2 = 0) :
    (Telnet.tcpChrRead tcp sent).2.flatMap handler =
      handler (.beWrite (Telnet.text (Telnet.tcpChrRead tcp sent).2)) := by
  unfold Telnet.tcpChrRead at hbreaks ⊢
  split
  · rfl
  · rename_i hon
    rw [if_neg hon] at hbreaks
    split
    · rfl
    · rename_i hsent
      rw [if_neg hsent, if_pos h] at hbreaks
      dsimp only at hbreaks ⊢
      generalize Telnet.tcpChrProcessIacBytes _ _ _ = l at hbreaks ⊢
      have hlen : ((List.range l.j).map (RingFifo.load l.buf)).length = l.j := by
        rw [List.length_map, List.length_range]
      generalize (List.range l.j).map (RingFifo.load l.buf) = buf at hlen hbreaks ⊢
      rw [← hlen] at hbreaks ⊢
      obtain ⟨htext, hcount⟩ := Telnet.breaks_first l.breaks buf
      have hnone : l.breaks = 0 := hcount.symm.trans hbreaks
      rw [htext, hnone]
      cases buf with
      | nil => rfl
      | cons b buf => rfl

theorem decoded_length (opt : ℕ) (bs : List Byte) :
    (Telnet.chars (run Telnet.telnet opt bs).2).length ≤ bs.length := by
  have hone : ∀ (opt : ℕ) (b : Byte), (Telnet.telnet opt b).2.length ≤ 1 := by
    intro opt b
    unfold Telnet.telnet
    split_ifs <;> simp
  have hall : (run Telnet.telnet opt bs).2.length ≤ bs.length := by
    induction bs generalizing opt with
    | nil => exact Nat.le_refl 0
    | cons b bs ih =>
      rw [run, List.length_append, List.length_cons]
      exact (Nat.add_le_add (hone opt b) (ih _)).trans (Nat.le_of_eq (Nat.add_comm _ _))
  exact (List.length_filterMap_le _ _).trans hall

theorem fetched_length (c : Wired) (during : List GuestInput) (sent : Option (List Byte)) :
    (fetched c (.round during sent)).length ≤ serialCanReceive c.uart := by
  cases sent with
  | none => exact Nat.zero_le _
  | some sent =>
    have htake : fetched c (.round during (some sent)) =
        Telnet.consumed (Telnet.tcpChrReadPoll c.tcp (serialCanReceive c.uart)) (.read sent) :=
      List.append_nil _
    rw [htake, Telnet.consumed]
    split
    · exact Nat.zero_le _
    · rename_i hon
      have hconn : c.tcp.connected = true := by
        cases hc : c.tcp.connected with
        | true => rfl
        | false =>
          rw [Telnet.tcpChrReadPoll, hc] at hon
          exact absurd (Or.inl hc) hon
      rw [Telnet.tcpChrReadPoll, if_pos hconn]
      exact (List.length_take_le _ _).trans (Nat.min_le_right _ _)

theorem handler_careful {s : SerialState} {bs : List Byte} (h : bs.length ≤ s.room) :
    Along Uart.step Careful s (handler (.beWrite bs)) ∧
    tally Uart.step received s (handler (.beWrite bs)) = bs := by
  cases bs with
  | nil => exact ⟨trivial, rfl⟩
  | cons b bs => exact ⟨⟨h, trivial⟩, List.append_nil _⟩

/-- The guest is careful, and switches no FIFOs while the main loop waits. -/
def Attentive (c : Wired) : Input → Prop
  | .guest a => Careful c.uart a.val
  | .round during _ =>
    Along Uart.step (fun s a => Careful s a ∧ KeepsFifo s a) c.uart (during.map Subtype.val)
  | .accept => True

instance (c : Wired) : ∀ i, Decidable (Attentive c i)
  | .guest a => inferInstanceAs (Decidable (Careful c.uart a.val))
  | .round _ _ => inferInstanceAs (Decidable (Along Uart.step _ c.uart _))
  | .accept => instDecidableTrue

def told (c : Wired) (i : Input) : List Telnet.Event := (run Telnet.step c.tcp (asked c i)).2

theorem fed_careful {c : Wired} (h : c.uart.Exact) (hopt : c.tcp.doTelnetopt ≠ 0) {i : Input}
    (hok : Attentive c i) (hbreaks : Telnet.breaks (told c i) = 0) :
    Along Uart.step Careful c.uart (fed c i) ∧
    tally Uart.step received c.uart (fed c i) = Telnet.text (told c i) := by
  cases i with
  | guest a => exact ⟨⟨hok, trivial⟩, by rw [fed, tally, own_received a.property]; rfl⟩
  | accept => exact ⟨trivial, rfl⟩
  | round during sent =>
    obtain ⟨hcareful, -, hroom, hnone⟩ := during_room during h hok
    have hchars := (Telnet.run_told (asked c (.round during sent)) hopt).chars
    have hfit : (Telnet.text (told c (.round during sent))).length ≤
        (run Uart.step c.uart (during.map Subtype.val)).1.room := by
      rw [told, hchars]
      exact (decoded_length _ _).trans ((fetched_length c during sent).trans
        ((canReceive_le_room h.sound).trans hroom))
    have hhandled : (told c (.round during sent)).flatMap handler =
        handler (.beWrite (Telnet.text (told c (.round during sent)))) := by
      cases sent with
      | none => rfl
      | some sent =>
        have hread : told c (.round during (some sent)) =
            (Telnet.tcpChrRead (Telnet.tcpChrReadPoll c.tcp (serialCanReceive c.uart)) sent).2 :=
          List.append_nil _
        rw [hread] at hbreaks ⊢
        refine chrRead_handled ?_ sent hbreaks
        rw [Telnet.tcpChrReadPoll]
        split
        · exact hopt
        · exact hopt
    obtain ⟨hlast, hall⟩ := handler_careful hfit
    rw [← hhandled] at hlast hall
    rw [fed, ← told, along_append, tally_append, hnone, hall]
    exact ⟨⟨hcareful, hlast⟩, rfl⟩

/-- What the server makes of the bytes it takes out of the socket. -/
def decoded (c : Wired) (i : Input) : List Byte :=
  Telnet.chars (run Telnet.telnet c.tcp.doTelnetopt (fetched c i)).2

structure Sound (c : Wired) : Prop where
  exact : c.uart.Exact
  on : c.tcp.doTelnetopt ≠ 0

theorem round_balance (c : Wired) (i : Input) (h : Sound c)
    (hok : Attentive c i ∧ Telnet.breaks (told c i) = 0) :
    Sound (step c i).1 ∧
    c.uart.waiting ++ decoded c i = took c i ++ (step c i).1.uart.waiting := by
  obtain ⟨hattentive, hbreaks⟩ := hok
  obtain ⟨htcp, huart⟩ := step_parts c i
  have htold := Telnet.run_told (asked c i) h.on
  obtain ⟨hcareful, hreceived⟩ := fed_careful h.exact h.on hattentive hbreaks
  obtain ⟨hexact, hbal⟩ := run_balance step_balance (fed c i) hcareful h.exact
  rw [hreceived, told, htold.chars, ← huart] at hbal
  refine ⟨⟨by rw [huart]; exact hexact, ?_⟩, hbal⟩
  rw [htcp, htold.left]
  exact Telnet.telnet_on h.on _

theorem session_decoded (as : List Input) {c : Wired} (h : c.tcp.doTelnetopt ≠ 0) :
    tally step decoded c as =
      Telnet.chars (run Telnet.telnet c.tcp.doTelnetopt (tally step fetched c as)).2 ∧
    (Telnet.breakCount (run Telnet.telnet c.tcp.doTelnetopt (tally step fetched c as)).2 = 0 →
      Along step (fun c i => Telnet.breaks (told c i) = 0) c as) := by
  induction as generalizing c with
  | nil => exact ⟨rfl, fun _ => trivial⟩
  | cons i as ih =>
    have htold := Telnet.run_told (asked c i) h
    have hnext : (step c i).1.tcp.doTelnetopt =
        (run Telnet.telnet c.tcp.doTelnetopt (fetched c i)).1 := by
      rw [(step_parts c i).1, htold.left]
      rfl
    have hon : (step c i).1.tcp.doTelnetopt ≠ 0 := by
      rw [hnext]
      exact Telnet.telnet_on h _
    obtain ⟨hchars, hrest⟩ := ih hon
    rw [hnext] at hchars hrest
    rw [tally, tally, run_append, hchars]
    refine ⟨?_, fun hzero => ?_⟩
    · rw [Telnet.chars, Telnet.chars, decoded, Telnet.chars, List.filterMap_append]
    · rw [Telnet.breakCount, List.count_append] at hzero
      exact ⟨htold.brks.trans (Nat.eq_zero_of_add_eq_zero_right hzero),
        hrest (Nat.eq_zero_of_add_eq_zero_left hzero)⟩

theorem no_breaks {items : List Telnet.Item} (h : .brk ∉ items) :
    Telnet.breakCount (items.flatMap Telnet.Item.signs) = 0 := by
  rw [Telnet.breakCount, List.count_eq_zero]
  intro hmem
  obtain ⟨item, hitem, hbrk⟩ := List.mem_flatMap.mp hmem
  cases item with
  | data b => cases List.mem_singleton.mp hbrk
  | brk => exact h hitem
  | command verb option hv => cases hbrk

/-- Whatever the cuts, the promises and the accesses of the guest between a promise and the
bytes it was made for: the data of the clients' text is what the guest read and what waits
for it, in order, and there is no overrun. -/
theorem console_in_order (baudbase : ℕ) (as : List Input) (items : List Telnet.Item)
    (p : Telnet.Pending) (hguest : Along step Attentive (start baudbase) as)
    (hclient : tally step fetched (start baudbase) as =
      items.flatMap Telnet.Item.encode ++ p.encode)
    (hbreak : .brk ∉ items) :
    items.flatMap Telnet.Item.bytes =
      tally step took (start baudbase) as ++ (run step (start baudbase) as).1.uart.waiting ∧
    (run step (start baudbase) as).1.uart.lsr &&& uartLsrOe = 0#8 := by
  have hsound : Sound (start baudbase) := ⟨init_exact baudbase, Nat.one_ne_zero⟩
  obtain ⟨hchars, hquiet⟩ := session_decoded as hsound.on
  have hopt : (start baudbase).tcp.doTelnetopt = 1 := rfl
  rw [hclient, hopt, Telnet.stream_run] at hchars hquiet
  obtain ⟨hlast, hbal⟩ := run_balance round_balance as
    (along_and hguest (hquiet (no_breaks hbreak))) hsound
  have hnil : (start baudbase).uart.waiting = [] :=
    waiting_none (by decide : (0 : Byte) &&& uartFcrFe = 0#8)
      (by decide : (uartLsrTemt ||| uartLsrThre) &&& uartLsrDr = 0#8)
  rw [hnil, hchars, Telnet.chars_items] at hbal
  exact ⟨hbal, hlast.exact.noOverrun⟩

/-- The guest turns its FIFOs on and reads in and between the rounds. The cuts fall into an
escaped byte and into an item of the second client. -/
def sampleSession : List Input :=
  [.guest ⟨.write 2 0x41 quietAnswers, trivial⟩, .accept,
    .round [⟨.read 5 quietAnswers, trivial⟩] (some [0x61, 0xff]),
    .round [⟨.fifoTimeout, trivial⟩, ⟨.read 0 quietAnswers, trivial⟩] none,
    .round [] (some [0xff, 0x62]), .guest ⟨.read 0 quietAnswers, trivial⟩, .accept,
    .round [⟨.fifoTimeout, trivial⟩] (some [0xff, 0xfd, 0x03]),
    .round [⟨.read 2 quietAnswers, trivial⟩, ⟨.read 0 quietAnswers, trivial⟩] (some [0x63, 0xff])]

set_option maxRecDepth 2000 in
theorem console_in_order_sample :
    [0x61, 0xff, 0x62, 0x63] = tally step took (start 115200) sampleSession ++
      (run step (start 115200) sampleSession).1.uart.waiting ∧
    (run step (start 115200) sampleSession).1.uart.lsr &&& uartLsrOe = 0#8 :=
  console_in_order 115200 sampleSession
    [.data 0x61, .data 0xff, .data 0x62, .command 0xfd 0x03 (by decide), .data 0x63] .escape
    (by decide) (by decide +kernel) (by simp)

end CanPci.Console
