import CanPci.Lib.FreeRunning
import CanPci.Lib.Ledger
import CanPci.Uart.Transfer

/-!
# Several front ends on one backend (backup/qemu_linux4/qemu-char.c)

The multiplexer gives what a user types to the front end that has the focus. Escape sequences
move the focus; a front end that does not accept its bytes has them buffered.
-/

namespace CanPci.Mux
open RingFifo Machine

abbrev maxMux : ℕ := 4
abbrev muxBufferSize : BitVec 32 := 32
abbrev muxBufferMask : BitVec 32 := muxBufferSize - 1

/-- The handlers that a front end registers. It has no `chr_event`: what an escape sequence
tells it does not change it inside a read. -/
class Frontend (σ : Type*) where
  canRead : σ → ℕ
  read : σ → Byte → σ

/-- A byte uses up at most one byte of what `chr_can_read` promised. -/
class HonestFrontend (σ : Type*) extends Frontend σ where
  canRead_read (s : σ) (b : Byte) : canRead s ≤ canRead (read s b) + 1

section
variable {σ : Type*} [Frontend σ]

/-- The entries of the arrays of `MuxDriver` with one index. The counters are `int`s, taken to
wrap; `front` is `none` without a `chr_can_read`. -/
structure Channel (σ : Type*) where
  front : Option σ
  buffer : Vector Byte muxBufferSize.toNat
  prod : BitVec 32
  cons : BitVec 32

def Channel.canRead (c : Channel σ) : ℕ := (c.front.map Frontend.canRead).getD 0

def Channel.read (c : Channel σ) (b : Byte) : Channel σ :=
  {c with front := c.front.map fun s => Frontend.read s b}

structure MuxDriver (σ : Type*) where
  termEscapeChar : ℤ
  chan : Fin maxMux → Channel σ
  focus : Fin maxMux
  muxCnt : ℕ
  muxCnt_le : muxCnt ≤ maxMux
  termGotEscape : Bool
  timestamps : Bool
  linestart : Bool
  timestampsStart : ℤ
  exited : Bool

def MuxDriver.setChan (d : MuxDriver σ) (m : Fin maxMux) (c : Channel σ) : MuxDriver σ :=
  {d with chan := Function.update d.chan m c}

inductive Event
  | data (m : Fin maxMux) (b : Byte)
  | help
  | terminated
  | commitAll
  | brk
  | muxOut (m : Fin maxMux)
  | muxIn (m : Fin maxMux)
  deriving DecidableEq, Repr

def nextFocus (d : MuxDriver σ) : Fin maxMux :=
  if h : d.focus.val + 1 < d.muxCnt then ⟨d.focus.val + 1, Nat.lt_of_lt_of_le h d.muxCnt_le⟩ else 0

/-- The `switch` of `mux_proc_byte`. -/
def escaped (d : MuxDriver σ) (ch : Byte) : MuxDriver σ × List Event :=
  if ch = 0x3f ∨ ch = 0x68 then (d, [.help])
  else if ch = 0x78 then ({d with exited := true}, [.terminated])
  else if ch = 0x73 then (d, [.commitAll])
  else if ch = 0x62 then (d, [.brk])
  else if ch = 0x63 then
    ({d with focus := nextFocus d}, [.muxOut d.focus, .muxIn (nextFocus d)])
  else if ch = 0x74 then
    ({d with timestamps := !d.timestamps, timestampsStart := -1, linestart := false}, [])
  else (d, [])

def muxProcByte (d : MuxDriver σ) (ch : Byte) : Bool × MuxDriver σ × List Event :=
  if d.termGotEscape then
    let d := {d with termGotEscape := false}
    if (ch.toNat : ℤ) = d.termEscapeChar then (true, d, []) else (false, escaped d ch)
  else if (ch.toNat : ℤ) = d.termEscapeChar then (false, {d with termGotEscape := true}, [])
  else (true, d, [])

/-- The loop of `mux_chr_accept_input`. Each round takes a byte out of the buffer. -/
def acceptLoop (c : Channel σ) : ℕ → Channel σ × List Byte
  | 0 => (c, [])
  | n + 1 =>
    if c.prod ≠ c.cons ∧ c.canRead ≠ 0 then
      let b := load c.buffer (c.cons &&& muxBufferMask).toNat
      let (c, bs) := acceptLoop ({c with cons := c.cons + 1}.read b) n
      (c, b :: bs)
    else (c, [])

def muxChrAcceptInput (d : MuxDriver σ) : MuxDriver σ × List Event :=
  let (c, bs) := acceptLoop (d.chan d.focus) (used (d.chan d.focus).prod (d.chan d.focus).cons)
  (d.setChan d.focus c, bs.map (.data d.focus))

def muxChrCanRead (d : MuxDriver σ) : ℕ :=
  if ((d.chan d.focus).prod - (d.chan d.focus).cons).toInt < muxBufferSize.toInt then 1
  else (d.chan d.focus).canRead

/-- A byte that `mux_proc_byte` lets through. -/
def passByte (c : Channel σ) (b : Byte) : Channel σ × List Byte :=
  if c.prod = c.cons ∧ c.canRead ≠ 0 then (c.read b, [b])
  else ({c with
    buffer := store c.buffer (c.prod &&& muxBufferMask).toNat b, prod := c.prod + 1}, [])

/-- The loop of `mux_chr_read`; `m` was the focus when it began. -/
def readLoop (m : Fin maxMux) : List Byte → MuxDriver σ → MuxDriver σ × List Event
  | [], d => (d, [])
  | b :: bs, d =>
    let (send, d, out) := muxProcByte d b
    -- `exit(0)`
    if d.exited then (d, out)
    else
      let (d, out') := if send then
          let (c, bs) := passByte (d.chan m) b
          (d.setChan m c, bs.map (Event.data m))
        else (d, [])
      let (d, out'') := readLoop m bs d
      (d, out ++ out' ++ out'')

def muxChrRead (d : MuxDriver σ) (buf : List Byte) : MuxDriver σ × List Event :=
  let (d', out) := muxChrAcceptInput d
  let (d', out') := readLoop d.focus buf d'
  (d', out ++ out')

def muxChrUpdateReadHandler (d : MuxDriver σ) (front : Option σ) : MuxDriver σ × List Event :=
  if h : d.muxCnt < maxMux then
    let m : Fin maxMux := ⟨d.muxCnt, h⟩
    ({d.setChan m {d.chan m with front := front} with
        focus := m, muxCnt := d.muxCnt + 1, muxCnt_le := h},
      [.muxOut d.focus, .muxIn m])
  else (d, [])

def Channel.zero : Channel σ := ⟨none, Vector.replicate _ 0, 0, 0⟩

/-- `qemu_chr_open_mux` and the first front end. -/
def qemuChrOpenMux (termEscapeChar : ℤ) (front : Option σ) : MuxDriver σ :=
  ⟨termEscapeChar,
    Function.update (fun _ => (.zero : Channel σ)) 0 {(.zero : Channel σ) with front := front},
    0, 1, by decide, false, false, false, 0, false⟩

/-- A front end that `moves` does so by itself, to any state. -/
inductive Input (σ : Type*)
  | read (buf : List Byte)
  | acceptInput
  | addHandlers (front : Option σ)
  | moves (m : Fin maxMux) (s : σ)

def step (d : MuxDriver σ) (a : Input σ) : MuxDriver σ × List Event :=
  if d.exited then (d, [])
  else
    match a with
    | .read buf => muxChrRead d buf
    | .acceptInput => muxChrAcceptInput d
    | .addHandlers front => muxChrUpdateReadHandler d front
    | .moves m s => (d.setChan m {d.chan m with front := (d.chan m).front.map fun _ => s}, [])

/-! ### What it is for -/

/-- What is left of a text without its escape sequences; `x` ends it. -/
def forwarded (term : ℤ) : Bool → List Byte → List Byte
  | _, [] => []
  | false, b :: bs =>
    if (b.toNat : ℤ) = term then forwarded term true bs else b :: forwarded term false bs
  | true, b :: bs =>
    if (b.toNat : ℤ) = term then b :: forwarded term false bs
    else if b = 0x78 then [] else forwarded term false bs

def typed (d : MuxDriver σ) : Input σ → List Byte
  | .read buf => if d.exited then [] else buf
  | _ => []

/-- What a read lets through. -/
def passed (d : MuxDriver σ) (a : Input σ) : List Byte :=
  forwarded d.termEscapeChar d.termGotEscape (typed d a)

/-- The focus when the read begins decides, also for what follows a switch. -/
def addressed (m : Fin maxMux) (d : MuxDriver σ) (a : Input σ) : List Byte :=
  if d.focus = m then passed d a else []

def dataFor (m : Fin maxMux) : Event → Option Byte
  | .data m' b => if m' = m then some b else none
  | _ => none

/-- A read brings no more than `mux_chr_can_read` allows. -/
def Promised (d : MuxDriver σ) : Input σ → Prop
  | .read buf => buf.length ≤ muxChrCanRead d
  | _ => True

instance decidablePromised (d : MuxDriver σ) : (a : Input σ) → Decidable (Promised d a)
  | .read buf => Nat.decLe buf.length (muxChrCanRead d)
  | .acceptInput => instDecidableTrue
  | .addHandlers _ => instDecidableTrue
  | .moves _ _ => instDecidableTrue

end

section
variable {σ : Type*}

def Channel.ring (c : Channel σ) : Ring Byte muxBufferSize.toNat :=
  freeRunning c.buffer c.prod c.cons

/-- The buffer holds `l`, oldest first. -/
structure Holds (c : Channel σ) (l : List Byte) : Prop where
  bounded : used c.prod c.cons ≤ 32
  items : c.ring.items = l

theorem slot (i : BitVec 32) : (i &&& muxBufferMask).toNat = i.toNat % muxBufferSize.toNat :=
  slot_of_mask (by decide : muxBufferSize ≠ 0#32) (by decide) i

theorem size_dvd : muxBufferSize.toNat ∣ 2 ^ 32 := by decide

theorem size_pos : 0 < muxBufferSize.toNat := by decide

theorem Holds.length {c : Channel σ} {l : List Byte} (h : Holds c l) :
    l.length = used c.prod c.cons := by
  rw [← h.items]
  exact Ring.items_length c.ring

theorem Holds.empty {c : Channel σ} {l : List Byte} (h : Holds c l) (he : c.prod = c.cons) :
    l = [] := by
  rw [← List.length_eq_zero_iff, h.length, he]
  exact used_self c.cons

theorem Holds.front {c : Channel σ} {l : List Byte} (h : Holds c l) (front : Option σ) :
    Holds {c with front := front} l := ⟨h.bounded, h.items⟩

theorem Holds.put {c : Channel σ} {l : List Byte} (h : Holds c l) (b : Byte)
    (hroom : l.length < 32) : Holds {c with
      buffer := store c.buffer (c.prod &&& muxBufferMask).toNat b, prod := c.prod + 1}
      (l ++ [b]) := by
  rw [h.length] at hroom
  have hone : used (c.prod + 1) c.cons = used c.prod c.cons + 1 := used_add_one (by omega)
  refine ⟨(Nat.le_of_eq hone).trans hroom, ?_⟩
  show (freeRunning (store c.buffer (c.prod &&& muxBufferMask).toNat b) (c.prod + 1)
    c.cons).items = _
  rw [slot, put_items size_dvd size_pos c.buffer b hroom (by omega), ← h.items]
  rfl

theorem Holds.get {c : Channel σ} {l : List Byte} (h : Holds c l) (hne : c.prod ≠ c.cons) :
    ∃ l', l = load c.buffer (c.cons &&& muxBufferMask).toNat :: l' ∧
      Holds {c with cons := c.cons + 1} l' := by
  have hpos : 0 < used c.prod c.cons := used_pos hne
  refine ⟨(freeRunning c.buffer c.prod (c.cons + 1)).items, ?_, ?_, rfl⟩
  · rw [slot, ← get_items size_dvd size_pos c.buffer h.bounded hpos, ← h.items]
    rfl
  · show used c.prod (c.cons + 1) ≤ 32
    rw [used_sub_one hpos]
    exact (Nat.sub_le _ 1).trans h.bounded

theorem held_small {c : Channel σ} {l : List Byte} (h : Holds c l) :
    (c.prod - c.cons).toInt < muxBufferSize.toInt ↔ l.length < 32 := by
  have hb := h.bounded
  have hint : (c.prod - c.cons).toInt = used c.prod c.cons :=
    BitVec.toInt_eq_toNat_of_lt (by
      show 2 * used c.prod c.cons < 2 ^ 32
      omega)
  have hsize : muxBufferSize.toInt = 32 := by decide
  rw [hint, hsize, h.length]
  omega

theorem escaped_spec (d : MuxDriver σ) (ch : Byte) : (escaped d ch).1.chan = d.chan ∧
    (escaped d ch).1.termEscapeChar = d.termEscapeChar ∧
    (escaped d ch).1.termGotEscape = d.termGotEscape ∧
    (escaped d ch).1.exited = (d.exited || decide (ch = 0x78)) ∧
    ∀ m, (escaped d ch).2.filterMap (dataFor m) = [] := by
  unfold escaped
  by_cases hx : ch = 0x78
  · subst hx
    exact ⟨rfl, rfl, rfl, (Bool.or_true _).symm, fun m => rfl⟩
  · rw [if_neg hx, decide_eq_false hx, Bool.or_false]
    split_ifs <;> exact ⟨rfl, rfl, rfl, rfl, fun m => rfl⟩

/-- `mux_proc_byte` agrees with `forwarded` on a byte. -/
structure Decoded (d : MuxDriver σ) (b : Byte) (r : Bool × MuxDriver σ × List Event) : Prop where
  chan : r.2.1.chan = d.chan
  term : r.2.1.termEscapeChar = d.termEscapeChar
  quiet : ∀ m, r.2.2.filterMap (dataFor m) = []
  exits : r.2.1.exited = true → r.1 = false
  text : ∀ bs, forwarded d.termEscapeChar d.termGotEscape (b :: bs) =
    (if r.1 then [b] else []) ++
      if r.2.1.exited then [] else forwarded d.termEscapeChar r.2.1.termGotEscape bs

theorem Decoded.plain {d : MuxDriver σ} (hrun : d.exited = false) {b : Byte} {send got : Bool}
    (htext : ∀ bs, forwarded d.termEscapeChar d.termGotEscape (b :: bs) =
      (if send then [b] else []) ++ forwarded d.termEscapeChar got bs) :
    Decoded d b (send, {d with termGotEscape := got}, []) := by
  refine ⟨rfl, rfl, fun m => rfl, fun hgone => ?_, fun bs => ?_⟩
  · rw [hrun] at hgone
    cases hgone
  · rw [htext, hrun]
    rfl

theorem procByte_decoded {d : MuxDriver σ} (hrun : d.exited = false) (b : Byte) :
    Decoded d b (muxProcByte d b) := by
  unfold muxProcByte
  split
  · rename_i hgot
    dsimp only
    split
    · rename_i hterm
      exact .plain hrun fun bs => by simp [hgot, forwarded, hterm]
    · rename_i hterm
      obtain ⟨hchan, hsame, hesc, hexit, hquiet⟩ := escaped_spec {d with termGotEscape := false} b
      refine ⟨hchan, hsame, hquiet, fun _ => rfl, fun bs => ?_⟩
      dsimp only at hesc hexit ⊢
      rw [hesc, hexit, hgot, forwarded, if_neg hterm, hrun]
      simp
  · rename_i hgot
    have hnot : d.termGotEscape = false := Bool.eq_false_iff.mpr hgot
    split
    · rename_i hterm
      exact .plain hrun fun bs => by simp [hnot, forwarded, hterm]
    · rename_i hterm
      exact .plain hrun fun bs => by simp [hnot, forwarded, hterm]

theorem passed_nil (d : MuxDriver σ) {a : Input σ} (h : typed d a = []) : passed d a = [] := by
  rw [passed, h]
  cases d.termGotEscape <;> rfl

theorem addressed_nil (m : Fin maxMux) (d : MuxDriver σ) {a : Input σ} (h : typed d a = []) :
    addressed m d a = [] := by
  rw [addressed, passed_nil d h, ite_self]

theorem dataFor_self (m : Fin maxMux) (bs : List Byte) :
    (bs.map (Event.data m)).filterMap (dataFor m) = bs := by
  rw [List.filterMap_map]
  exact (List.filterMap_congr fun b _ => if_pos rfl).trans List.filterMap_some

theorem dataFor_other {m i : Fin maxMux} (h : i ≠ m) (bs : List Byte) :
    (bs.map (Event.data m)).filterMap (dataFor i) = [] := by
  rw [List.filterMap_map]
  exact List.filterMap_eq_nil_iff.mpr fun b _ => if_neg (Ne.symm h)

/-- The decoder in `d'` goes on where it stopped in `d`, with `text` behind it. -/
def Continues (d d' : MuxDriver σ) (text : List Byte) : Prop :=
  d'.termEscapeChar = d.termEscapeChar ∧
  ∀ more, forwarded d.termEscapeChar d.termGotEscape (text ++ more) =
    forwarded d.termEscapeChar d.termGotEscape text ++
      if d'.exited then [] else forwarded d.termEscapeChar d'.termGotEscape more

theorem continues_nil {d d' : MuxDriver σ} (hrun : d.exited = false)
    (hterm : d'.termEscapeChar = d.termEscapeChar) (hgot : d'.termGotEscape = d.termGotEscape)
    (hsame : d'.exited = d.exited) : Continues d d' [] := by
  refine ⟨hterm, fun more => ?_⟩
  rw [hsame, hrun, hgot]
  cases d.termGotEscape <;> rfl

def held (m : Fin maxMux) (d : MuxDriver σ) : List Byte := (d.chan m).ring.items

def Bounded (d : MuxDriver σ) : Prop := ∀ m, used (d.chan m).prod (d.chan m).cons ≤ 32

theorem Bounded.holds {d : MuxDriver σ} (h : Bounded d) (m : Fin maxMux) :
    Holds (d.chan m) (held m d) := ⟨h m, rfl⟩

/-- Front end `m` got what left the text and its buffer, the others nothing. -/
structure Routed (m : Fin maxMux) (d : MuxDriver σ) (l text : List Byte)
    (r : MuxDriver σ × List Event) : Prop where
  self : ∃ l', Holds (r.1.chan m) l' ∧ l ++ text = r.2.filterMap (dataFor m) ++ l'
  other : ∀ i, i ≠ m → r.1.chan i = d.chan i ∧ r.2.filterMap (dataFor i) = []

theorem Routed.balance {m : Fin maxMux} {d : MuxDriver σ} {text : List Byte}
    {r : MuxDriver σ × List Event} (hr : Routed m d (held m d) text r) (h : Bounded d)
    (i : Fin maxMux) : Bounded r.1 ∧ held i d ++ (if m = i then text else []) =
      r.2.filterMap (dataFor i) ++ held i r.1 := by
  obtain ⟨l', hlast, hmove⟩ := hr.self
  refine ⟨fun k => ?_, ?_⟩
  · by_cases hk : k = m
    · rw [hk]
      exact hlast.bounded
    · rw [(hr.other k hk).1]
      exact h k
  · by_cases hi : i = m
    · subst hi
      rw [if_pos rfl, hmove, ← hlast.items, held]
    · obtain ⟨hsame, hnone⟩ := hr.other i hi
      rw [if_neg (Ne.symm hi), hnone, held, held, hsame, List.append_nil, List.nil_append]

theorem quiet_balance {d d' : MuxDriver σ} {out : List Event} (h : Bounded d)
    (hsame : ∀ m, (d'.chan m).ring = (d.chan m).ring) (i : Fin maxMux)
    (hout : out.filterMap (dataFor i) = []) :
    Bounded d' ∧ held i d ++ [] = out.filterMap (dataFor i) ++ held i d' := by
  refine ⟨fun m => ?_, ?_⟩
  · have hcount : used (d'.chan m).prod (d'.chan m).cons = used (d.chan m).prod (d.chan m).cons :=
      congrArg Ring.count (hsame m)
    rw [hcount]
    exact h m
  · rw [hout, held, held, hsame, List.append_nil, List.nil_append]

theorem front_ring (d : MuxDriver σ) (m i : Fin maxMux) (front : Option σ) :
    (Function.update d.chan m {d.chan m with front := front} i).ring = (d.chan i).ring := by
  by_cases hi : i = m
  · rw [hi, Function.update_self]
    rfl
  · rw [Function.update_of_ne hi]

theorem open_bounded (term : ℤ) (front : Option σ) :
    Bounded (qemuChrOpenMux term front) ∧ ∀ m, held m (qemuChrOpenMux term front) = [] := by
  have hring (m : Fin maxMux) : ((qemuChrOpenMux term front).chan m).ring =
      (Channel.zero : Channel σ).ring :=
    front_ring ⟨term, fun _ => .zero, 0, 1, by decide, false, false, false, 0, false⟩ 0 m front
  have hzero : (Channel.zero : Channel σ).ring.count = 0 := used_self 0
  refine ⟨fun m => ?_, fun m => ?_⟩
  · have hcount : ((qemuChrOpenMux term front).chan m).ring.count = 0 := by rw [hring, hzero]
    exact (Nat.le_of_eq hcount).trans (Nat.zero_le _)
  · rw [held, hring]
    exact Ring.items_eq_nil hzero

end

section
variable {σ : Type*} [HonestFrontend σ]

theorem canRead_read (c : Channel σ) (b : Byte) : c.canRead ≤ (c.read b).canRead + 1 := by
  cases hf : c.front with
  | none => simp [Channel.canRead, hf]
  | some s => simpa [Channel.canRead, Channel.read, hf] using HonestFrontend.canRead_read s b

/-- `n` more bytes find room. -/
def Fits (c : Channel σ) (l : List Byte) (n : ℕ) : Prop :=
  n ≤ 32 - l.length ∨ l = [] ∧ n ≤ 32 + c.canRead

theorem accept_spec (n : ℕ) {c : Channel σ} {l : List Byte} (h : Holds c l) (hn : l.length ≤ n) :
    ∃ rest, l = (acceptLoop c n).2 ++ rest ∧ Holds (acceptLoop c n).1 rest ∧
      (rest = [] ∨ (acceptLoop c n).1.canRead = 0) ∧
      c.canRead ≤ (acceptLoop c n).1.canRead + (acceptLoop c n).2.length := by
  induction n generalizing c l with
  | zero =>
    obtain rfl := List.length_eq_zero_iff.mp (Nat.le_zero.mp hn)
    exact ⟨[], rfl, h, .inl rfl, Nat.le_refl _⟩
  | succ n ih =>
    unfold acceptLoop
    split
    · rename_i hgo
      obtain ⟨l', hl, hget⟩ := h.get hgo.1
      generalize load c.buffer (c.cons &&& muxBufferMask).toNat = b at hl ⊢
      have hrest : Holds ({c with cons := c.cons + 1}.read b) l' := hget.front _
      have hone : c.canRead ≤ ({c with cons := c.cons + 1}.read b).canRead + 1 := canRead_read c b
      rw [hl] at hn
      obtain ⟨rest, hout, hlast, hquit, hpromise⟩ := ih hrest (Nat.le_of_succ_le_succ hn)
      dsimp only
      refine ⟨rest, by rw [hl, hout, List.cons_append], hlast, hquit, ?_⟩
      rw [List.length_cons]
      omega
    · rename_i hstop
      refine ⟨l, rfl, h, ?_, Nat.le_refl _⟩
      rcases not_and_or.mp hstop with heq | hzero
      · exact .inl (h.empty (not_not.mp heq))
      · exact .inr (not_not.mp hzero)

theorem promise_fits {c : Channel σ} {l : List Byte} (h : Holds c l) {n : ℕ}
    (hn : n ≤ if (c.prod - c.cons).toInt < muxBufferSize.toInt then 1 else c.canRead) :
    ∃ rest, l = (acceptLoop c (used c.prod c.cons)).2 ++ rest ∧
      Holds (acceptLoop c (used c.prod c.cons)).1 rest ∧
      Fits (acceptLoop c (used c.prod c.cons)).1 rest n := by
  have hlen := h.length
  have hbound := h.bounded
  obtain ⟨rest, hout, hlast, hstop, hpromise⟩ :=
    accept_spec (used c.prod c.cons) h (Nat.le_of_eq hlen)
  generalize acceptLoop c (used c.prod c.cons) = r at hout hlast hstop hpromise ⊢
  have hsum : l.length = r.2.length + rest.length := by rw [hout, List.length_append]
  refine ⟨rest, hout, hlast, ?_⟩
  split at hn
  · rename_i hsmall
    have hroom := (held_small h).mp hsmall
    exact .inl (by omega)
  · rcases hstop with rfl | hzero
    · exact .inr ⟨rfl, by omega⟩
    · exact .inl (by omega)

theorem pass_spec {c : Channel σ} {l : List Byte} (h : Holds c l) {n : ℕ} (b : Byte)
    (hfit : Fits c l (n + 1)) : ∃ l', l ++ [b] = (passByte c b).2 ++ l' ∧
      Holds (passByte c b).1 l' ∧ Fits (passByte c b).1 l' n := by
  unfold passByte
  split
  · rename_i hgo
    obtain rfl := h.empty hgo.1
    have hone := canRead_read c b
    refine ⟨[], rfl, h.front _, .inr ⟨rfl, ?_⟩⟩
    dsimp only
    rcases hfit with hroom | ⟨-, hpromise⟩
    · simp only [List.length_nil] at hroom
      omega
    · omega
  · rename_i hstop
    have hlen := h.length
    have hbound := h.bounded
    have hroom : n + 1 ≤ 32 - l.length := by
      rcases hfit with hroom | ⟨rfl, hpromise⟩
      · exact hroom
      · have hsame : c.prod = c.cons := by
          by_contra hne
          have hpos := used_pos hne
          rw [← hlen] at hpos
          exact absurd hpos (Nat.lt_irrefl 0)
        have hzero : c.canRead = 0 := not_not.mp (not_and.mp hstop hsame)
        rw [hzero] at hpromise
        exact hpromise
    refine ⟨l ++ [b], rfl, h.put b (by omega), .inl ?_⟩
    rw [List.length_append, List.length_singleton]
    omega

theorem readLoop_routed (m : Fin maxMux) (bs : List Byte) {d : MuxDriver σ} {l : List Byte}
    (hrun : d.exited = false) (h : Holds (d.chan m) l) (hfit : Fits (d.chan m) l bs.length) :
    Routed m d l (forwarded d.termEscapeChar d.termGotEscape bs) (readLoop m bs d) := by
  induction bs generalizing d l with
  | nil =>
    refine ⟨⟨l, h, ?_⟩, fun i hi => ⟨rfl, rfl⟩⟩
    cases d.termGotEscape <;> exact List.append_nil l
  | cons b bs ih =>
    have hdec := procByte_decoded hrun b
    rw [hdec.text]
    unfold readLoop
    generalize muxProcByte d b = r at hdec ⊢
    obtain ⟨send, d', out⟩ := r
    obtain ⟨hchan, hterm, hquiet, hexits, -⟩ := hdec
    dsimp only at hchan hterm hquiet hexits ⊢
    by_cases hgone : d'.exited = true
    · rw [hexits hgone, if_pos hgone, if_pos hgone]
      refine ⟨⟨l, by rw [hchan]; exact h, ?_⟩, fun i _ => ⟨congrFun hchan i, hquiet i⟩⟩
      rw [hquiet m]
      exact List.append_nil l
    · have hstay : d'.exited = false := Bool.eq_false_iff.mpr hgone
      rw [if_neg hgone, if_neg hgone]
      rw [← hterm]
      cases send with
      | false =>
        have hless : Fits (d'.chan m) l bs.length := by
          rw [hchan]
          exact hfit.imp Nat.le_of_succ_le (And.imp_right Nat.le_of_succ_le)
        obtain ⟨⟨l', hlast, hmove⟩, hother⟩ := ih hstay (by rw [hchan]; exact h) hless
        refine ⟨⟨l', hlast, ?_⟩, fun i hi => ?_⟩
        · simp only [Bool.false_eq_true, if_false, List.nil_append, List.filterMap_append, hquiet,
            List.append_nil]
          exact hmove
        · obtain ⟨hsame, hnone⟩ := hother i hi
          simp only [Bool.false_eq_true, if_false, List.filterMap_append, hquiet, List.append_nil]
          exact ⟨hsame.trans (congrFun hchan i), hnone⟩
      | true =>
        obtain ⟨l₁, hpass, hone, hless⟩ := pass_spec h b hfit
        rw [← hchan] at hpass hone hless
        generalize passByte (d'.chan m) b = p at hpass hone hless ⊢
        have hset : (d'.setChan m p.1).chan m = p.1 := Function.update_self ..
        have hnext : Holds ((d'.setChan m p.1).chan m) l₁ := by
          rw [hset]
          exact hone
        obtain ⟨⟨l', hlast, hmove⟩, hother⟩ :=
          ih (show (d'.setChan m p.1).exited = false from hstay) hnext (by rw [hset]; exact hless)
        refine ⟨⟨l', hlast, ?_⟩, fun i hi => ?_⟩
        · simp only [if_true, List.filterMap_append, hquiet, List.nil_append, dataFor_self]
          rw [← List.append_assoc, hpass, List.append_assoc, List.append_assoc, ← hmove]
          rfl
        · obtain ⟨hsame, hnone⟩ := hother i hi
          simp only [if_true, List.filterMap_append, hquiet, List.nil_append, dataFor_other hi]
          have hframe : (d'.setChan m p.1).chan i = d'.chan i := Function.update_of_ne hi ..
          exact ⟨hsame.trans (hframe.trans (congrFun hchan i)), hnone⟩

theorem accept_routed {d : MuxDriver σ} {l : List Byte} (h : Holds (d.chan d.focus) l) :
    Routed d.focus d l [] (muxChrAcceptInput d) := by
  obtain ⟨rest, hout, hlast, -⟩ := accept_spec (used (d.chan d.focus).prod (d.chan d.focus).cons) h
    (Nat.le_of_eq h.length)
  unfold muxChrAcceptInput
  generalize acceptLoop (d.chan d.focus) (used (d.chan d.focus).prod (d.chan d.focus).cons) = p
    at hout hlast ⊢
  refine ⟨⟨rest, ?_, ?_⟩, fun i hi => ⟨Function.update_of_ne hi .., dataFor_other hi p.2⟩⟩
  · show Holds (Function.update d.chan d.focus p.1 d.focus) rest
    rw [Function.update_self]
    exact hlast
  · rw [List.append_nil, dataFor_self]
    exact hout

theorem read_routed {d : MuxDriver σ} {l buf : List Byte} (hrun : d.exited = false)
    (h : Holds (d.chan d.focus) l) (hn : buf.length ≤ muxChrCanRead d) :
    Routed d.focus d l (forwarded d.termEscapeChar d.termGotEscape buf) (muxChrRead d buf) := by
  obtain ⟨rest, hout, hlast, hfit⟩ := promise_fits h hn
  unfold muxChrRead muxChrAcceptInput
  generalize acceptLoop (d.chan d.focus) (used (d.chan d.focus).prod (d.chan d.focus).cons) = p
    at hout hlast hfit ⊢
  have hset : (d.setChan d.focus p.1).chan d.focus = p.1 := Function.update_self ..
  rw [← hset] at hlast hfit
  obtain ⟨⟨l', hend, hmove⟩, hother⟩ :=
    readLoop_routed d.focus buf (show (d.setChan d.focus p.1).exited = false from hrun) hlast hfit
  refine ⟨⟨l', hend, ?_⟩, fun i hi => ?_⟩
  · rw [List.filterMap_append, dataFor_self, hout, List.append_assoc, List.append_assoc, ← hmove]
    rfl
  · obtain ⟨hsame, hnone⟩ := hother i hi
    rw [List.filterMap_append, dataFor_other hi]
    exact ⟨hsame.trans (Function.update_of_ne hi ..), hnone⟩

theorem readLoop_continues (m : Fin maxMux) (bs : List Byte) {d : MuxDriver σ}
    (hrun : d.exited = false) : Continues d (readLoop m bs d).1 bs := by
  induction bs generalizing d with
  | nil => exact continues_nil hrun rfl rfl rfl
  | cons b bs ih =>
    have hdec := procByte_decoded hrun b
    unfold readLoop Continues
    simp only [List.cons_append, hdec.text]
    generalize muxProcByte d b = r at hdec ⊢
    obtain ⟨send, d', out⟩ := r
    have hterm := hdec.term
    dsimp only at hterm ⊢
    by_cases hgone : d'.exited = true
    · simp [hgone, hterm]
    · have hstay : d'.exited = false := Bool.eq_false_iff.mpr hgone
      rw [if_neg hgone, ← hterm]
      cases send with
      | false =>
        obtain ⟨hsame, htext⟩ := ih hstay
        refine ⟨hsame, fun more => ?_⟩
        simp only [hgone]
        rw [htext, List.append_assoc]
        rfl
      | true =>
        obtain ⟨hsame, htext⟩ :=
          ih (show (d'.setChan m (passByte (d'.chan m) b).1).exited = false from hstay)
        refine ⟨hsame, fun more => ?_⟩
        simp only [hgone]
        rw [List.append_assoc]
        exact congrArg _ (htext more)

theorem step_balance (i : Fin maxMux) (d : MuxDriver σ) (a : Input σ) (h : Bounded d)
    (hok : Promised d a) : Bounded (step d a).1 ∧
      held i d ++ addressed i d a = (step d a).2.filterMap (dataFor i) ++ held i (step d a).1 := by
  unfold step
  split
  · rename_i hgone
    have hnil : typed d a = [] := by cases a <;> simp [typed, hgone]
    rw [addressed_nil i d hnil]
    exact quiet_balance h (fun m => rfl) i rfl
  · rename_i hrun
    cases a with
    | read buf =>
      have hbal := (read_routed (Bool.eq_false_iff.mpr hrun) (h.holds d.focus) hok).balance h i
      rw [addressed, passed, typed, if_neg hrun]
      exact hbal
    | acceptInput =>
      have hbal := (accept_routed (h.holds d.focus)).balance h i
      rw [ite_self] at hbal
      rw [addressed_nil i d rfl]
      exact hbal
    | addHandlers front =>
      rw [addressed_nil i d rfl]
      dsimp only
      unfold muxChrUpdateReadHandler
      split
      · exact quiet_balance h (fun m => front_ring d _ m front) i rfl
      · exact quiet_balance h (fun m => rfl) i rfl
    | moves m s =>
      rw [addressed_nil i d rfl]
      exact quiet_balance h (fun k => front_ring d m k _) i rfl

theorem step_continues (d : MuxDriver σ) (a : Input σ) (hrun : d.exited = false) :
    Continues d (step d a).1 (typed d a) := by
  unfold step typed
  rw [hrun]
  cases a with
  | read buf =>
    exact readLoop_continues d.focus buf (show (muxChrAcceptInput d).1.exited = false from hrun)
  | acceptInput => exact continues_nil hrun rfl rfl rfl
  | addHandlers front =>
    simp only [Bool.false_eq_true, if_false]
    unfold muxChrUpdateReadHandler
    split
    · exact continues_nil hrun rfl rfl rfl
    · exact continues_nil hrun rfl rfl rfl
  | moves m s => exact continues_nil hrun rfl rfl rfl

theorem gone_typed (as : List (Input σ)) {d : MuxDriver σ} (hgone : d.exited = true) :
    tally step typed d as = [] ∧ tally step passed d as = [] := by
  induction as with
  | nil => exact ⟨rfl, rfl⟩
  | cons a as ih =>
    have hstep : (step d a).1 = d := by
      unfold step
      rw [if_pos hgone]
    have hnil : typed d a = [] := by cases a <;> simp [typed, hgone]
    rw [tally, tally, hstep, hnil, passed_nil d hnil]
    exact ih

theorem text_passed (as : List (Input σ)) {d : MuxDriver σ} (hrun : d.exited = false) :
    forwarded d.termEscapeChar d.termGotEscape (tally step typed d as) =
      tally step passed d as := by
  induction as generalizing d with
  | nil => cases d.termGotEscape <;> rfl
  | cons a as ih =>
    obtain ⟨hterm, htext⟩ := step_continues d a hrun
    rw [tally, tally, htext, passed]
    by_cases hgone : (step d a).1.exited = true
    · rw [if_pos hgone, (gone_typed as hgone).2]
    · rw [if_neg hgone, ← ih (Bool.eq_false_iff.mpr hgone), hterm]

/-- What leaves the text of the user is for the front ends that have the focus; each gets its
bytes in order or has them in its buffer, which never overflows. -/
theorem mux_in_order (term : ℤ) (front : Option σ) (as : List (Input σ))
    (hok : Along step Promised (qemuChrOpenMux term front) as) :
    forwarded term false (tally step typed (qemuChrOpenMux term front) as) =
      tally step passed (qemuChrOpenMux term front) as ∧
    ∀ m, tally step (addressed m) (qemuChrOpenMux term front) as =
        (run step (qemuChrOpenMux term front) as).2.filterMap (dataFor m) ++
          held m (run step (qemuChrOpenMux term front) as).1 ∧
      (held m (run step (qemuChrOpenMux term front) as).1).length ≤ muxBufferSize.toNat := by
  obtain ⟨hbounded, hnone⟩ := open_bounded term front
  have hrun : (qemuChrOpenMux term front).exited = false := rfl
  refine ⟨text_passed as hrun, fun m => ?_⟩
  obtain ⟨hlast, hbal⟩ := run_balance (step_balance m) as hok hbounded
  rw [hnone, List.nil_append] at hbal
  have hdata : (run step (qemuChrOpenMux term front) as).2.filterMap (dataFor m) =
      tally step (fun d a => (step d a).2.filterMap (dataFor m)) (qemuChrOpenMux term front) as :=
    filterMap_tally (fun d a (_ : (fun _ => True) d) => ⟨trivial, rfl⟩) as trivial
  refine ⟨hbal.trans (by rw [hdata]), ?_⟩
  rw [(hlast.holds m).length]
  exact hlast m

end

/-! ### The UART as a front end -/

theorem canReceive_receive {s : Uart.SerialState} (h : s.Sound) (b : Byte) :
    Uart.serialCanReceive s ≤ Uart.serialCanReceive (Uart.serialReceive1 s b []).1 + 1 := by
  rw [Uart.serialReceive1_eq h.settled.recv.count_le]
  by_cases hfe : s.fcr &&& Uart.uartFcrFe = 0#8
  · have hone : Uart.serialCanReceive s ≤ 1 := by
      rw [Uart.serialCanReceive, if_neg (not_not.mpr hfe)]
      split <;> omega
    exact hone.trans (Nat.le_add_left 1 _)
  · have hitl := h.settled.trigger hfe
    have hafter : Uart.serialCanReceive (Uart.serialUpdateIrq (Uart.rxStore s b [])) =
        if (s.recvFifo.offer b).count < Uart.uartFifoLength then
          if (s.recvFifo.offer b).count ≤ (s.recvFifo.offer b).itl then
            (s.recvFifo.offer b).itl - (s.recvFifo.offer b).count
          else 1
        else 0 := by
      rw [Uart.rxStore_fifo hfe]
      exact if_pos hfe
    rw [hafter, Uart.serialCanReceive, if_pos hfe, Uart.SerialFIFO.offer]
    by_cases hroom : s.recvFifo.count < Uart.uartFifoLength
    · rw [if_pos hroom, if_pos hroom]
      show _ ≤ (if s.recvFifo.count + 1 < Uart.uartFifoLength then
        if s.recvFifo.count + 1 ≤ s.recvFifo.itl then s.recvFifo.itl - (s.recvFifo.count + 1) else 1
        else 0) + 1
      split_ifs <;> omega
    · rw [if_neg hroom]
      exact Nat.zero_le _

instance uartFrontend : HonestFrontend {s : Uart.SerialState // s.Sound} where
  canRead s := Uart.serialCanReceive s.val
  read s b := ⟨(Uart.serialReceive1 s.val b []).1, s.property.receive b []⟩
  canRead_read s b := canReceive_receive s.property b

abbrev SampleUart : Type := {s : Uart.SerialState // s.Sound}

def sampleUart : SampleUart := ⟨.init 115200, Uart.init_sound 115200⟩

/-- The second UART does not take its byte; the user goes back to the first one. -/
def sampleInputs : List (Input SampleUart) :=
  [.addHandlers (some sampleUart), .read [0x61], .read [0x62], .read [0x01], .read [0x63],
    .read [0x64], .read [0x01], .read [0x01]]

theorem mux_in_order_sample :
    forwarded 1 false [0x61, 0x62, 0x01, 0x63, 0x64, 0x01, 0x01] = [0x61, 0x62, 0x64, 0x01] ∧
    [0x61, 0x62] = (run step (qemuChrOpenMux 1 (some sampleUart)) sampleInputs).2.filterMap
      (dataFor 1) ++ held 1 (run step (qemuChrOpenMux 1 (some sampleUart)) sampleInputs).1 ∧
    [0x64, 0x01] = (run step (qemuChrOpenMux 1 (some sampleUart)) sampleInputs).2.filterMap
      (dataFor 0) ++ held 0 (run step (qemuChrOpenMux 1 (some sampleUart)) sampleInputs).1 := by
  obtain ⟨htext, hdata⟩ := mux_in_order 1 (some sampleUart) sampleInputs (by decide)
  exact ⟨htext, (hdata 1).1, (hdata 0).1⟩

end CanPci.Mux
