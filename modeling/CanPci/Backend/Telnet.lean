import CanPci.Device
import CanPci.Lib.History
import CanPci.Lib.Ledger
import CanPci.Lib.RingFifo
import Mathlib.Data.List.Induction

/-!
# Telnet (backup/qemu_linux4/qemu-char.c)

A telnet server behind a character device. `tcp_chr_process_IAC_bytes` takes the options
out of what its client sends, in place and one `recv` after the other; the client's text is
what is left.
-/

namespace CanPci.Telnet
open RingFifo Machine

def iac : Byte := 255
def iacBreak : Byte := 243

abbrev readBufLen : ℕ := 4096

/-- The variables of the loop; `breaks` counts the calls with `CHR_EVENT_BREAK`. -/
structure IacLoop where
  buf : Vector Byte readBufLen
  j : ℕ
  doTelnetopt : ℕ
  breaks : ℕ

def keepByte (l : IacLoop) (i : ℕ) : IacLoop :=
  let l := if l.j ≠ i then {l with buf := store l.buf l.j (load l.buf i)} else l
  {l with j := l.j + 1}

def iacByte (l : IacLoop) (i : ℕ) : IacLoop :=
  if 1 < l.doTelnetopt then
    let l := if load l.buf i = iac ∧ l.doTelnetopt = 2 then {keepByte l i with doTelnetopt := 1}
      else
        let l := if load l.buf i = iacBreak ∧ l.doTelnetopt = 2 then
            {l with breaks := l.breaks + 1, doTelnetopt := l.doTelnetopt + 1}
          else l
        {l with doTelnetopt := l.doTelnetopt + 1}
    if 4 ≤ l.doTelnetopt then {l with doTelnetopt := 1} else l
  else if load l.buf i = iac then {l with doTelnetopt := 2}
  else keepByte l i

def iacLoop (l : IacLoop) (i : ℕ) : ℕ → IacLoop
  | 0 => l
  | n + 1 => iacLoop (iacByte l i) (i + 1) n

def tcpChrProcessIacBytes (opt : ℕ) (buf : Vector Byte readBufLen) (size : ℕ) : IacLoop :=
  iacLoop ⟨buf, 0, opt, 0⟩ 0 size

structure TcpCharDriver where
  connected : Bool
  maxSize : ℕ
  doTelnetopt : ℕ

/-- What the frontend is told. -/
inductive Event
  | brk
  | beWrite (buf : List Byte)
  | closed
  deriving DecidableEq, Repr

/-- `canWrite` is the frontend's answer. -/
def tcpChrReadPoll (s : TcpCharDriver) (canWrite : ℕ) : TcpCharDriver :=
  if s.connected then {s with maxSize := canWrite} else s

/-- The buffer after `recv`. -/
def received (bs : List Byte) : Vector Byte readBufLen := Vector.ofFn fun i => bs.getD i 0

def recvLen (s : TcpCharDriver) : ℕ := min readBufLen s.maxSize

/-- `sent` waits in the socket; when nothing does, the client has gone. -/
def tcpChrRead (s : TcpCharDriver) (sent : List Byte) : TcpCharDriver × List Event :=
  if s.connected = false ∨ s.maxSize = 0 then (s, [])
  else if sent = [] then ({s with connected := false}, [.closed])
  else
    let buf := sent.take (recvLen s)
    if s.doTelnetopt ≠ 0 then
      let l := tcpChrProcessIacBytes s.doTelnetopt (received buf) buf.length
      ({s with doTelnetopt := l.doTelnetopt}, List.replicate l.breaks .brk ++
        (if 0 < l.j then [.beWrite ((List.range l.j).map (load l.buf))] else []))
    else (s, [.beWrite buf])

/-- The handler of the main loop that is next to run. -/
inductive Input
  | poll (canWrite : ℕ)
  | read (sent : List Byte)
  | accept
  deriving DecidableEq, Repr

def step (s : TcpCharDriver) : Input → TcpCharDriver × List Event
  | .poll canWrite => (tcpChrReadPoll s canWrite, [])
  | .read sent => tcpChrRead s sent
  | .accept => ({s with connected := true}, [])

/-! ### What it is for -/

inductive Sign
  | char (b : Byte)
  | brk
  deriving DecidableEq, Repr

/-- The decoder that `do_telnetopt` is the state of. -/
def telnet (opt : ℕ) (ch : Byte) : ℕ × List Sign :=
  if 1 < opt then
    if ch = iac ∧ opt = 2 then (1, [.char iac])
    else if ch = iacBreak ∧ opt = 2 then (1, [.brk])
    else (if 4 ≤ opt + 1 then 1 else opt + 1, [])
  else if ch = iac then (2, [])
  else (opt, [.char ch])

/-- What a client sends. A command takes three bytes. -/
inductive Item
  | data (b : Byte)
  | brk
  | command (verb option : Byte) (h : verb ≠ iac ∧ verb ≠ iacBreak)

namespace Item

def encode : Item → List Byte
  | data b => if b = iac then [iac, iac] else [b]
  | brk => [iac, iacBreak]
  | command verb option _ => [iac, verb, option]

def signs : Item → List Sign
  | data b => [.char b]
  | brk => [.brk]
  | command _ _ _ => []

end Item

/-- A text that stops inside an item. -/
inductive Pending
  | none
  | escape
  | verb (verb : Byte) (h : verb ≠ iac ∧ verb ≠ iacBreak)

namespace Pending

def encode : Pending → List Byte
  | none => []
  | escape => [iac]
  | .verb v _ => [iac, v]

def opt : Pending → ℕ
  | none => 1
  | escape => 2
  | .verb _ _ => 3

end Pending

theorem item_run (item : Item) : run telnet 1 item.encode = (1, item.signs) := by
  cases item with
  | data b =>
    by_cases hb : b = iac
    · subst hb
      decide
    · rw [Item.encode, if_neg hb]
      simp [run, telnet, hb, Item.signs]
  | brk => decide
  | command verb option h =>
    simp [run, telnet, Item.encode, Item.signs, h.1, h.2]

theorem text_run (items : List Item) :
    run telnet 1 (items.flatMap Item.encode) = (1, items.flatMap Item.signs) := by
  induction items with
  | nil => rfl
  | cons item items ih =>
    rw [List.flatMap_cons, run_append, item_run, List.flatMap_cons]
    dsimp only
    rw [ih]

theorem stream_run (items : List Item) (p : Pending) :
    run telnet 1 (items.flatMap Item.encode ++ p.encode) = (p.opt, items.flatMap Item.signs) := by
  have hpending : run telnet 1 p.encode = (p.opt, []) := by
    cases p with
    | none => rfl
    | escape => decide
    | verb v h => simp [run, telnet, Pending.encode, Pending.opt, h.1, h.2]
  rw [run_append, text_run, hpending, List.append_nil]

/-- Whatever a client sends is such a text, and the decoder's state is where it stops. -/
theorem every_stream (bs : List Byte) : ∃ items : List Item, ∃ p : Pending,
    bs = items.flatMap Item.encode ++ p.encode ∧
    run telnet 1 bs = (p.opt, items.flatMap Item.signs) := by
  induction bs using List.reverseRecOn with
  | nil => exact ⟨[], .none, rfl, rfl⟩
  | append_singleton bs b ih =>
    obtain ⟨items, p, rfl, hrun⟩ := ih
    have hstep : run telnet 1 (items.flatMap Item.encode ++ p.encode ++ [b]) =
        ((telnet p.opt b).1, items.flatMap Item.signs ++ (telnet p.opt b).2) := by
      rw [run_append, hrun]
      simp [run]
    -- the item that `b` completes, or the place where it stops
    have hnext : ∀ (more : List Item) (q : Pending), p.encode ++ [b] = more.flatMap Item.encode ++ q.encode →
        telnet p.opt b = (q.opt, more.flatMap Item.signs) → ∃ items' : List Item, ∃ q : Pending,
        items.flatMap Item.encode ++ p.encode ++ [b] = items'.flatMap Item.encode ++ q.encode ∧
        run telnet 1 (items.flatMap Item.encode ++ p.encode ++ [b]) =
          (q.opt, items'.flatMap Item.signs) := by
      intro more q htext hsigns
      refine ⟨items ++ more, q, ?_, ?_⟩
      · rw [List.append_assoc, htext, List.flatMap_append, List.append_assoc]
      · rw [hstep, hsigns, List.flatMap_append]
    cases p with
    | none =>
      by_cases hb : b = iac
      · exact hnext [] .escape (by rw [hb]; rfl) (by simp [telnet, Pending.opt, hb])
      · exact hnext [.data b] .none (by simp [Pending.encode, Item.encode, hb])
          (by simp [telnet, Pending.opt, Item.signs, hb])
    | escape =>
      by_cases hb : b = iac
      · exact hnext [.data iac] .none (by rw [hb]; rfl) (by rw [hb]; decide)
      · by_cases hbreak : b = iacBreak
        · exact hnext [.brk] .none (by rw [hbreak]; rfl) (by rw [hbreak]; decide)
        · exact hnext [] (.verb b ⟨hb, hbreak⟩) rfl (by simp [telnet, Pending.opt, hb, hbreak])
    | verb v h =>
      exact hnext [.command v b h] .none rfl (by simp [telnet, Pending.opt, Item.signs])

/-- The decoder is back where it started exactly after whole items. -/
theorem complete_iff (bs : List Byte) :
    (run telnet 1 bs).1 = 1 ↔ ∃ items : List Item, bs = items.flatMap Item.encode := by
  constructor
  · intro hopt
    obtain ⟨items, p, htext, hrun⟩ := every_stream bs
    rw [hrun] at hopt
    cases p with
    | none => exact ⟨items, by rw [htext]; exact List.append_nil _⟩
    | escape => cases hopt
    | verb v h => cases hopt
  · rintro ⟨items, rfl⟩
    rw [text_run]

def IacLoop.kept (l : IacLoop) : List Byte := (List.range l.j).map (load l.buf)

def chars (signs : List Sign) : List Byte :=
  signs.filterMap fun
    | .char b => some b
    | .brk => none

def breakCount (signs : List Sign) : ℕ := signs.count .brk

theorem keepByte_spec {l : IacLoop} {i : ℕ} (hj : l.j ≤ i) (hi : i < readBufLen) :
    (keepByte l i).kept = l.kept ++ [load l.buf i] ∧ (keepByte l i).j = l.j + 1 ∧
    ∀ k, i < k → load (keepByte l i).buf k = load l.buf k := by
  rcases Nat.eq_or_lt_of_le hj with heq | hlt
  · have hkeep : keepByte l i = {l with j := l.j + 1} := by
      rw [keepByte, if_neg (not_not.mpr heq)]
    rw [hkeep]
    refine ⟨?_, rfl, fun k _ => rfl⟩
    rw [IacLoop.kept, List.range_succ, List.map_append, heq]
    rw [IacLoop.kept, heq]
    rfl
  · have hkeep : keepByte l i = {l with buf := store l.buf l.j (load l.buf i), j := l.j + 1} := by
      rw [keepByte, if_pos (Nat.ne_of_lt hlt)]
    rw [hkeep]
    refine ⟨?_, rfl, fun k hk => load_store_ne l.buf _ (by omega)⟩
    rw [IacLoop.kept, List.range_succ, List.map_append, List.map_singleton,
      load_store_self l.buf _ (by omega)]
    refine congrArg (· ++ [load l.buf i]) (List.map_congr_left fun k hk => ?_)
    have hlt := List.mem_range.mp hk
    exact load_store_ne l.buf _ (by omega)

/-- The loop went from `l` to `l'` over bytes that the decoder makes `signs` of, the last of
them in front of slot `i`. -/
structure Went (l : IacLoop) (opt : ℕ) (signs : List Sign) (i : ℕ) (l' : IacLoop) : Prop where
  opt : l'.doTelnetopt = opt
  kept : l'.kept = l.kept ++ chars signs
  breaks : l'.breaks = l.breaks + breakCount signs
  behind : l'.j ≤ i
  ahead : ∀ k, i ≤ k → load l'.buf k = load l.buf k

theorem Went.trans {l l' l'' : IacLoop} {opt opt' i n : ℕ} {signs signs' : List Sign}
    (h : Went l opt signs i l') (h' : Went l' opt' signs' (i + n) l'') :
    Went l opt' (signs ++ signs') (i + n) l'' := by
  refine ⟨h'.opt, ?_, ?_, h'.behind, fun k hk => (h'.ahead k hk).trans (h.ahead k (by omega))⟩
  · rw [h'.kept, h.kept, List.append_assoc, chars, chars, chars, List.filterMap_append]
  · rw [h'.breaks, h.breaks, Nat.add_assoc, breakCount, breakCount, breakCount, List.count_append]

theorem iacByte_went {l : IacLoop} {i : ℕ} (hj : l.j ≤ i) (hi : i < readBufLen) :
    Went l (telnet l.doTelnetopt (load l.buf i)).1 (telnet l.doTelnetopt (load l.buf i)).2 (i + 1)
      (iacByte l i) := by
  obtain ⟨hkept, hnext, hahead⟩ := keepByte_spec hj hi
  have hsilent : ∀ opt, Went l opt [] (i + 1) {l with doTelnetopt := opt} := fun opt =>
    ⟨rfl, (List.append_nil _).symm, rfl, hj.trans (Nat.le_succ i), fun k _ => rfl⟩
  have hkeep : ∀ opt b, load l.buf i = b →
      Went l opt [.char b] (i + 1) {keepByte l i with doTelnetopt := opt} := by
    rintro opt b rfl
    refine ⟨rfl, hkept, ?_, ?_, fun k hk => hahead k hk⟩
    · rw [keepByte]
      dsimp only
      split <;> rfl
    · show (keepByte l i).j ≤ i + 1
      omega
  rw [iacByte, telnet]
  by_cases hopt : 1 < l.doTelnetopt
  · rw [if_pos hopt, if_pos hopt]
    by_cases hiac : load l.buf i = iac ∧ l.doTelnetopt = 2
    · rw [if_pos hiac, if_pos hiac]
      exact hkeep 1 iac hiac.1
    · rw [if_neg hiac, if_neg hiac]
      by_cases hbreak : load l.buf i = iacBreak ∧ l.doTelnetopt = 2
      · rw [if_pos hbreak, if_pos hbreak]
        dsimp only
        rw [if_pos (by omega)]
        exact ⟨rfl, (List.append_nil _).symm, rfl, hj.trans (Nat.le_succ i), fun k _ => rfl⟩
      · rw [if_neg hbreak, if_neg hbreak]
        dsimp only
        by_cases hfour : 4 ≤ l.doTelnetopt + 1
        · rw [if_pos hfour, if_pos hfour]
          exact hsilent 1
        · rw [if_neg hfour, if_neg hfour]
          exact hsilent (l.doTelnetopt + 1)
  · rw [if_neg hopt, if_neg hopt]
    by_cases hiac : load l.buf i = iac
    · rw [if_pos hiac, if_pos hiac]
      exact hsilent 2
    · rw [if_neg hiac, if_neg hiac]
      have hsame : (keepByte l i).doTelnetopt = l.doTelnetopt := by
        rw [keepByte]
        dsimp only
        split <;> rfl
      have hgo := hkeep l.doTelnetopt (load l.buf i) rfl
      rw [← hsame] at hgo ⊢
      exact hgo

theorem iacLoop_went (n : ℕ) {l : IacLoop} {i : ℕ} (hj : l.j ≤ i) (hn : i + n ≤ readBufLen) :
    Went l (run telnet l.doTelnetopt ((List.range n).map fun k => load l.buf (i + k))).1
      (run telnet l.doTelnetopt ((List.range n).map fun k => load l.buf (i + k))).2 (i + n)
      (iacLoop l i n) := by
  induction n generalizing l i with
  | zero => exact ⟨rfl, (List.append_nil _).symm, rfl, hj, fun k _ => rfl⟩
  | succ n ih =>
    have hone := iacByte_went hj (show i < readBufLen by omega)
    have hrest := ih hone.behind (show i + 1 + n ≤ readBufLen by omega)
    have hsame : ((List.range n).map fun k => load (iacByte l i).buf (i + 1 + k)) =
        (List.range n).map fun k => load l.buf (i + (k + 1)) := by
      refine List.map_congr_left fun k _ => ?_
      rw [hone.ahead _ (by omega)]
      congr 1
      omega
    have hsplit : ((List.range (n + 1)).map fun k => load l.buf (i + k)) =
        load l.buf i :: (List.range n).map fun k => load l.buf (i + (k + 1)) := by
      rw [List.range_succ_eq_map, List.map_cons, List.map_map]
      rfl
    rw [hsame, hone.opt] at hrest
    rw [hsplit]
    have hall := hone.trans hrest
    rw [show i + 1 + n = i + (n + 1) by omega] at hall
    exact hall

theorem received_load {bs : List Byte} (h : bs.length ≤ readBufLen) :
    ((List.range bs.length).map fun k => load (received bs) (0 + k)) = bs := by
  refine List.ext_getElem (by simp) fun k hk hk' => ?_
  rw [List.getElem_map, List.getElem_range, Nat.zero_add, load, received,
    Vector.getElem?_eq_getElem (by omega), Vector.getElem_ofFn]
  simp [hk']

/-- The bytes that a read takes out of the socket. -/
def consumed (s : TcpCharDriver) : Input → List Byte
  | .read sent => if s.connected = false ∨ s.maxSize = 0 then [] else sent.take (recvLen s)
  | _ => []

def text (out : List Event) : List Byte :=
  out.flatMap fun
    | .beWrite buf => buf
    | _ => []

def breaks (out : List Event) : ℕ := out.count .brk

theorem text_append (out out' : List Event) : text (out ++ out') = text out ++ text out' :=
  List.flatMap_append

theorem telnet_on {opt : ℕ} (h : opt ≠ 0) (bs : List Byte) : (run telnet opt bs).1 ≠ 0 := by
  refine run_invariant (I := fun opt => opt ≠ 0) (fun opt ch ho => ?_) bs h
  unfold telnet
  split_ifs
  · exact Nat.one_ne_zero
  · exact Nat.one_ne_zero
  · exact Nat.one_ne_zero
  · exact Nat.succ_ne_zero opt
  · exact Nat.succ_ne_zero 1
  · exact ho

/-- What the frontend gets of a text that is decoded to `signs`: the breaks come first. -/
theorem breaks_first (k : ℕ) (buf : List Byte) :
    text (List.replicate k .brk ++ if 0 < buf.length then [.beWrite buf] else []) = buf ∧
    breaks (List.replicate k .brk ++ if 0 < buf.length then [.beWrite buf] else []) = k := by
  have hnone : text (List.replicate k .brk) = [] := by
    rw [text, List.flatMap_replicate]
    exact List.flatten_replicate_nil
  have hcount : breaks (List.replicate k .brk) = k := List.count_replicate_self
  rw [text_append, hnone, breaks, List.count_append]
  rw [breaks] at hcount
  rw [hcount]
  cases buf with
  | nil => exact ⟨rfl, rfl⟩
  | cons b buf => exact ⟨List.append_nil _, rfl⟩

/-- The device told the frontend what the decoder says of `bs`. -/
structure Told (opt : ℕ) (bs : List Byte) (opt' : ℕ) (out : List Event) : Prop where
  left : opt' = (run telnet opt bs).1
  chars : text out = chars (run telnet opt bs).2
  brks : breaks out = breakCount (run telnet opt bs).2

theorem Told.none (opt : ℕ) : Told opt [] opt [] := ⟨rfl, rfl, rfl⟩

theorem Told.append {opt opt' opt'' : ℕ} {bs bs' : List Byte} {out out' : List Event}
    (h : Told opt bs opt' out) (h' : Told opt' bs' opt'' out') :
    Told opt (bs ++ bs') opt'' (out ++ out') := by
  obtain ⟨rfl, htext, hbreaks⟩ := h
  obtain ⟨rfl, htext', hbreaks'⟩ := h'
  rw [breaks, breakCount] at hbreaks hbreaks'
  refine ⟨?_, ?_, ?_⟩
  · rw [run_append]
  · rw [text_append, htext, htext', run_append, Telnet.chars, Telnet.chars, Telnet.chars,
      List.filterMap_append]
  · rw [breaks, List.count_append, hbreaks, hbreaks', run_append, breakCount, List.count_append]

theorem step_told {s : TcpCharDriver} (h : s.doTelnetopt ≠ 0) (a : Input) :
    Told s.doTelnetopt (consumed s a) (step s a).1.doTelnetopt (step s a).2 := by
  cases a with
  | poll canWrite =>
    have hkeep : (tcpChrReadPoll s canWrite).doTelnetopt = s.doTelnetopt := by
      unfold tcpChrReadPoll
      split <;> rfl
    rw [step, hkeep]
    exact Told.none s.doTelnetopt
  | accept => exact Told.none s.doTelnetopt
  | read sent =>
    rw [step, consumed, tcpChrRead]
    by_cases hoff : s.connected = false ∨ s.maxSize = 0
    · rw [if_pos hoff, if_pos hoff]
      exact Told.none s.doTelnetopt
    · rw [if_neg hoff, if_neg hoff]
      by_cases hnil : sent = []
      · rw [if_pos hnil, hnil, List.take_nil]
        exact ⟨rfl, rfl, rfl⟩
      · rw [if_neg hnil, if_pos h]
        dsimp only
        have hlen : (sent.take (recvLen s)).length ≤ readBufLen :=
          (List.length_take_le _ _).trans (Nat.min_le_left _ _)
        generalize sent.take (recvLen s) = bs at hlen ⊢
        have hwent := iacLoop_went bs.length (l := ⟨received bs, 0, s.doTelnetopt, 0⟩) (i := 0)
          (Nat.le_refl 0) (by rw [Nat.zero_add]; exact hlen)
        dsimp only at hwent
        rw [received_load hlen] at hwent
        have hsize : (tcpChrProcessIacBytes s.doTelnetopt (received bs) bs.length).kept.length =
            (tcpChrProcessIacBytes s.doTelnetopt (received bs) bs.length).j := by
          rw [IacLoop.kept, List.length_map, List.length_range]
        obtain ⟨htext, hbreaks⟩ := breaks_first
          (tcpChrProcessIacBytes s.doTelnetopt (received bs) bs.length).breaks
          (tcpChrProcessIacBytes s.doTelnetopt (received bs) bs.length).kept
        rw [hsize] at htext hbreaks
        exact ⟨hwent.opt, htext.trans hwent.kept, hbreaks.trans (hwent.breaks.trans (Nat.zero_add _))⟩

theorem run_told (as : List Input) {s : TcpCharDriver} (h : s.doTelnetopt ≠ 0) :
    Told s.doTelnetopt (tally step consumed s as) (run step s as).1.doTelnetopt (run step s as).2 := by
  induction as generalizing s with
  | nil => exact Told.none s.doTelnetopt
  | cons a as ih =>
    have hone := step_told h a
    have hon : (step s a).1.doTelnetopt ≠ 0 := by
      rw [hone.left]
      exact telnet_on h _
    exact hone.append (ih hon)

def server : TcpCharDriver := ⟨false, 0, 1⟩

def Item.bytes (item : Item) : List Byte := chars item.signs

theorem chars_items (items : List Item) :
    chars (items.flatMap Item.signs) = items.flatMap Item.bytes := by
  rw [chars, List.filterMap_flatMap]
  rfl

/-- However the main loop, the frontend's promises and the network cut a client's text, the
frontend gets the data of its items, in order, and their breaks. -/
theorem telnet_in_order (as : List Input) (items : List Item) (p : Pending)
    (h : tally step consumed server as = items.flatMap Item.encode ++ p.encode) :
    text (run step server as).2 = items.flatMap Item.bytes ∧
    breaks (run step server as).2 = breakCount (items.flatMap Item.signs) := by
  have htold := run_told as (s := server) Nat.one_ne_zero
  rw [h] at htold
  have htext := htold.chars
  have hbreaks := htold.brks
  rw [show server.doTelnetopt = 1 from rfl, stream_run] at htext hbreaks
  exact ⟨htext.trans (chars_items items), hbreaks⟩

/-- The cut falls into an escaped byte; an option, a letter and the start of an item follow. -/
def sampleInputs : List Input :=
  [.accept, .poll 2, .read [0x61, 0xff, 0xff], .poll 14,
    .read [0xff, 0xff, 0xfd, 0x03, 0x62, 0xff]]

theorem telnet_in_order_sample :
    text (run step server sampleInputs).2 = [0x61, 0xff, 0x62] ∧
    breaks (run step server sampleInputs).2 = 0 :=
  telnet_in_order sampleInputs
    [.data 0x61, .data 0xff, .command 0xfd 0x03 (by decide), .data 0x62] .escape (by decide +kernel)

/-! ### The next client -/

theorem telnet_letter {bs : List Byte}
    (h : chars (run telnet (run telnet 1 bs).1 [0x41]).2 = [0x41]) : (run telnet 1 bs).1 = 1 := by
  obtain ⟨items, p, -, hrun⟩ := every_stream bs
  rw [hrun] at h ⊢
  cases p with
  | none => rfl
  | escape => exact absurd h (show chars (run telnet 2 [0x41]).2 ≠ [0x41] by decide)
  | verb v hv => exact absurd h (show chars (run telnet 3 [0x41]).2 ≠ [0x41] by decide)

/-- `do_telnetopt` outlives a connection: the next client is understood as the first one was
exactly when what was sent before ended with a whole item. -/
theorem next_client_iff (as : List Input) :
    (∀ n later, text (run step (run step server as).1 (.accept :: .poll n :: later)).2 =
      text (run step server (.accept :: .poll n :: later)).2) ↔
    ∃ items : List Item, tally step consumed server as = items.flatMap Item.encode := by
  have hopt : (run step server as).1.doTelnetopt = (run telnet 1 (tally step consumed server as)).1 :=
    (run_told as (s := server) Nat.one_ne_zero).left
  have hon : (run step server as).1.doTelnetopt ≠ 0 := by
    rw [hopt]
    exact telnet_on Nat.one_ne_zero _
  rw [← complete_iff]
  constructor
  · intro hall
    have hletter := hall 1 [.read [0x41]]
    rw [(run_told [.accept, .poll 1, .read [0x41]] hon).chars,
      (run_told [.accept, .poll 1, .read [0x41]] (s := server) Nat.one_ne_zero).chars, hopt] at hletter
    exact telnet_letter hletter
  · intro hone n later
    rw [← hopt] at hone
    have hsame : ∀ s : TcpCharDriver, (run step s (.accept :: .poll n :: later)).2 =
        (run step ⟨true, n, s.doTelnetopt⟩ later).2 := fun s => rfl
    rw [hsame, hsame, hone]
    rfl

end CanPci.Telnet
