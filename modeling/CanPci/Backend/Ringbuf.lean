import CanPci.Device
import CanPci.Lib.FreeRunning
import CanPci.Lib.Machine
import Mathlib.Data.List.DropRight

/-!
# The ring buffer device (backup/qemu_linux4/qemu-char.c)

A character device that stores what is written to it for the monitor. It never refuses a
byte: the oldest are overwritten. Its counters are `size_t` and wrap.
-/

namespace CanPci.Ringbuf
open RingFifo Machine

/-- The size has passed the check of `qemu_chr_open_ringbuf`. -/
structure RingBufCharDriver where
  size : BitVec 64
  nonzero : size ≠ 0#64
  pow2 : size &&& (size - 1) = 0#64
  prod : BitVec 64
  cons : BitVec 64
  cbuf : Vector Byte size.toNat

/-- A `size_t` passed as an `int`. -/
def asInt (n : ℕ) : ℤ := (BitVec.ofNat 32 n).toInt

def ringbufCount (d : RingBufCharDriver) : BitVec 64 := d.prod - d.cons

/-- One round of the loop of `ringbuf_chr_write`. -/
def putByte (d : RingBufCharDriver) (c : Byte) : RingBufCharDriver :=
  let d := {d with cbuf := store d.cbuf (d.prod &&& (d.size - 1)).toNat c, prod := d.prod + 1}
  if d.size < d.prod - d.cons then {d with cons := d.prod - d.size} else d

/-- `none` is the result -1. -/
def ringbufChrWrite (d : RingBufCharDriver) (buf : List Byte) : Option RingBufCharDriver :=
  if asInt buf.length < 0 then none
  else some ((buf.take (asInt buf.length).toNat).foldl putByte d)

def ringbufChrRead (d : RingBufCharDriver) : ℕ → List Byte × RingBufCharDriver
  | 0 => ([], d)
  | len + 1 =>
    if d.cons = d.prod then ([], d)
    else
      let c := load d.cbuf (d.cons &&& (d.size - 1)).toNat
      let (buf, d) := ringbufChrRead {d with cons := d.cons + 1} len
      (c :: buf, d)

def ringbufSize (opt : BitVec 64) : BitVec 64 := if opt = 0#64 then 65536 else opt

theorem ringbufSize_ne (opt : BitVec 64) : ringbufSize opt ≠ 0#64 := by
  unfold ringbufSize
  split
  · decide
  · assumption

def qemuChrOpenRingbuf (opt : BitVec 64) : Option RingBufCharDriver :=
  if h : ringbufSize opt &&& (ringbufSize opt - 1) = 0#64 then
    some ⟨ringbufSize opt, ringbufSize_ne opt, h, 0, 0, Vector.replicate _ 0⟩
  else none

/-- A block whose length is an `int`. -/
abbrev Block := {data : List Byte // data.length < 2 ^ 31}

/-- Without a `format` argument it is `utf8`. -/
inductive DataFormat
  | utf8
  | base64
  deriving DecidableEq, Repr

/-- What the monitor asks of the device; the data of a write is decoded. -/
inductive Request
  | write (data : Block)
  | read (size : ℤ) (format : DataFormat)

/-- A byte that nothing was stored to is `none`. -/
inductive Reply
  | done
  | failedToWrite
  | sizeMustBePositive
  | data (bytes : List (Option Byte))
  deriving DecidableEq, Repr

def qmpRingbufWrite (d : RingBufCharDriver) (data : List Byte) : RingBufCharDriver × Reply :=
  match ringbufChrWrite d data with
  | none => (d, .failedToWrite)
  | some d => (d, .done)

/-- `g_base64_encode` sees the whole block, the reader of a C string the bytes before its
first NUL. -/
def encodeData : DataFormat → List (Option Byte) → List (Option Byte)
  | .utf8, readData => readData.takeWhile (· ≠ some 0)
  | .base64, readData => readData

/-- The reply is made of a block of `size` bytes that `ringbuf_chr_read` fills. -/
def qmpRingbufRead (d : RingBufCharDriver) (size : ℤ) (format : DataFormat) :
    RingBufCharDriver × Reply :=
  if size ≤ 0 then (d, .sizeMustBePositive)
  else
    let count := (ringbufCount d).toNat
    let size := if count < size.toNat then count else size.toNat
    let (buf, d) := ringbufChrRead d (asInt size).toNat
    (d, .data (encodeData format (buf.map some ++ List.replicate (size - buf.length) none)))

def step (d : RingBufCharDriver) : Request → RingBufCharDriver × List Reply
  | .write data => ((qmpRingbufWrite d data.val).1, [(qmpRingbufWrite d data.val).2])
  | .read size format => ((qmpRingbufRead d size format).1, [(qmpRingbufRead d size format).2])

/-! ### What it is for -/

/-- A store of the latest `N` bytes written and not yet read. A read shows `shown` of the
bytes it takes. -/
def latestBy (shown : DataFormat → List Byte → List Byte) (N : ℕ) (held : List Byte) :
    Request → List Byte × List Reply
  | .write data => ((held ++ data.val).rtake N, [.done])
  | .read size format =>
    if size ≤ 0 then (held, [.sizeMustBePositive])
    else (held.drop size.toNat, [.data ((shown format (held.take size.toNat)).map some)])

/-- A text ends at its first NUL. -/
def untilNul : DataFormat → List Byte → List Byte
  | .utf8, bytes => bytes.takeWhile (· ≠ 0)
  | .base64, bytes => bytes

abbrev latest (N : ℕ) : List Byte → Request → List Byte × List Reply := latestBy untilNul N

/-- The read shows all that it takes. -/
def Whole (held : List Byte) : Request → Prop
  | .write _ => True
  | .read size format => format = .utf8 → 0 < size → 0 ∉ held.take size.toNat

theorem size_lt (d : RingBufCharDriver) : d.size.toNat + 1 < 2 ^ 64 := by
  obtain ⟨k, hk, -⟩ := pow_of_mask d.nonzero d.pow2
  have hlt := d.size.isLt
  rw [hk] at hlt ⊢
  have hexp : k < 64 := (Nat.pow_lt_pow_iff_right (by decide)).mp hlt
  have hle : 2 ^ k ≤ 2 ^ 63 := Nat.pow_le_pow_right (by decide) (by omega)
  omega

theorem size_pos (d : RingBufCharDriver) : 0 < d.size.toNat :=
  Nat.pos_of_ne_zero fun hzero => d.nonzero (BitVec.eq_of_toNat_eq hzero)

def RingBufCharDriver.ring (d : RingBufCharDriver) : Ring Byte d.size.toNat :=
  freeRunning d.cbuf d.prod d.cons

/-- The device holds `l`, oldest first. -/
structure Holds (size : BitVec 64) (d : RingBufCharDriver) (l : List Byte) : Prop where
  same : d.size = size
  bounded : used d.prod d.cons ≤ d.size.toNat
  items : d.ring.items = l

theorem Holds.consistent {size : BitVec 64} {d : RingBufCharDriver} {l : List Byte}
    (h : Holds size d l) : d.ring.Consistent :=
  freeRunning_consistent (size_dvd d.nonzero d.pow2) (size_pos d) d.cbuf h.bounded

theorem Holds.length {size : BitVec 64} {d : RingBufCharDriver} {l : List Byte}
    (h : Holds size d l) : l.length = used d.prod d.cons := by
  rw [← h.items]
  exact Ring.items_length d.ring

theorem rtake_full {α : Type*} {l : List α} {N : ℕ} (h : l.length ≤ N) : l.rtake N = l := by
  rw [List.rtake, Nat.sub_eq_zero_of_le h, List.drop_zero]

theorem rtake_append_rtake {α : Type*} (N : ℕ) (l l' : List α) :
    (l.rtake N ++ l').rtake N = (l ++ l').rtake N := by
  rcases Nat.lt_or_ge N l.length with hlt | hge
  · have hlen : (l.drop (l.length - N)).length = N := by
      rw [List.length_drop]
      omega
    have hsum : l.length + l'.length - N = l.length - N + l'.length := by omega
    have hkeep : (l ++ l').drop (l.length - N) = l.drop (l.length - N) ++ l' :=
      List.drop_append_of_le_length (Nat.sub_le _ _)
    rw [List.rtake, List.rtake, List.rtake, List.length_append, hlen, List.length_append, hsum,
      Nat.add_sub_cancel_left, ← List.drop_drop, hkeep]
  · rw [rtake_full hge]

theorem put_room {d : RingBufCharDriver} (c : Byte) (h : used d.prod d.cons < d.size.toNat) :
    putByte d c = {d with
      cbuf := store d.cbuf (d.prod &&& (d.size - 1)).toNat c, prod := d.prod + 1} := by
  have hsize := size_lt d
  have hone : used (d.prod + 1) d.cons = used d.prod d.cons + 1 := used_add_one (by omega)
  rw [putByte]
  dsimp only
  rw [if_neg]
  rw [BitVec.lt_def]
  show ¬ d.size.toNat < used (d.prod + 1) d.cons
  omega

theorem put_full {d : RingBufCharDriver} (c : Byte) (h : used d.prod d.cons = d.size.toNat) :
    putByte d c = {d with
      cbuf := store d.cbuf (d.prod &&& (d.size - 1)).toNat c, prod := d.prod + 1,
      cons := d.cons + 1} := by
  have hsize := size_lt d
  have hone : used (d.prod + 1) d.cons = used d.prod d.cons + 1 := used_add_one (by omega)
  have hcount : d.prod - d.cons = d.size := BitVec.eq_of_toNat_eq h
  have hnext : d.prod + 1 - d.size = d.cons + 1 := by
    rw [← hcount]
    grind
  rw [putByte]
  dsimp only
  rw [if_pos, hnext]
  rw [BitVec.lt_def]
  show d.size.toNat < used (d.prod + 1) d.cons
  omega

theorem putByte_holds {size : BitVec 64} {d : RingBufCharDriver} {l : List Byte}
    (h : Holds size d l) (c : Byte) : Holds size (putByte d c) ((l ++ [c]).rtake size.toNat) := by
  obtain rfl := h.same
  have hsize := size_lt d
  have hpos := size_pos d
  have hdvd := size_dvd d.nonzero d.pow2
  have hslot := slot_of_mask d.nonzero d.pow2 d.prod
  rcases Nat.lt_or_ge (used d.prod d.cons) d.size.toNat with hroom | hfull
  · have hone : used (d.prod + 1) d.cons = used d.prod d.cons + 1 := used_add_one (by omega)
    have hlen : (l ++ [c]).length ≤ d.size.toNat := by
      rw [List.length_append, h.length]
      exact hroom
    rw [put_room c hroom, rtake_full hlen]
    refine ⟨rfl, (Nat.le_of_eq hone).trans hroom, ?_⟩
    show (freeRunning (store d.cbuf (d.prod &&& (d.size - 1)).toNat c) (d.prod + 1) d.cons).items = _
    rw [hslot, put_items hdvd hpos d.cbuf c hroom (by omega), ← h.items]
    rfl
  · have heq : used d.prod d.cons = d.size.toNat := Nat.le_antisymm h.bounded hfull
    have hless : used d.prod (d.cons + 1) = used d.prod d.cons - 1 := used_sub_one (by omega)
    have hmore : used (d.prod + 1) (d.cons + 1) = used d.prod (d.cons + 1) + 1 :=
      used_add_one (by omega)
    have hcons : d.ring.drop.Consistent := Ring.drop_consistent h.consistent (by
      show 0 < used d.prod d.cons
      omega)
    have htail : (l ++ [c]).rtake d.size.toNat = l.tail ++ [c] := by
      have hone : (l ++ [c]).length - d.size.toNat = 1 := by
        rw [List.length_append, h.length, heq]
        exact Nat.add_sub_cancel_left d.size.toNat 1
      rw [List.rtake, hone, List.drop_one]
      exact List.tail_append_of_ne_nil (List.ne_nil_of_length_pos (by rw [h.length]; omega))
    rw [put_full c heq, htail]
    refine ⟨rfl, by
      show used (d.prod + 1) (d.cons + 1) ≤ d.size.toNat
      omega, ?_⟩
    show (freeRunning (store d.cbuf (d.prod &&& (d.size - 1)).toNat c) (d.prod + 1)
      (d.cons + 1)).items = _
    rw [hslot, freeRunning_put hdvd hpos d.cbuf c (by omega),
      freeRunning_get hdvd hpos d.cbuf (by omega)]
    have hpush := Ring.push_items hcons (by
      show used d.prod d.cons - 1 < d.size.toNat
      omega) c
    rw [Ring.drop_items h.consistent (by
      show 0 < used d.prod d.cons
      omega), h.items] at hpush
    exact hpush

theorem putAll_holds {size : BitVec 64} {d : RingBufCharDriver} {l : List Byte}
    (h : Holds size d l) (buf : List Byte) :
    Holds size (buf.foldl putByte d) ((l ++ buf).rtake size.toNat) := by
  induction buf generalizing d l with
  | nil =>
    have hlen : l.length ≤ size.toNat := by
      rw [h.length, ← h.same]
      exact h.bounded
    rw [List.append_nil, rtake_full hlen]
    exact h
  | cons c buf ih =>
    have hnext := ih (putByte_holds h c)
    rw [rtake_append_rtake, List.append_assoc] at hnext
    exact hnext

theorem read_holds {size : BitVec 64} {d : RingBufCharDriver} {l : List Byte}
    (h : Holds size d l) (len : ℕ) :
    (ringbufChrRead d len).1 = l.take len ∧ Holds size (ringbufChrRead d len).2 (l.drop len) := by
  induction len generalizing d l with
  | zero => exact ⟨rfl, h⟩
  | succ len ih =>
    unfold ringbufChrRead
    split
    · rename_i heq
      have hnil : l = [] := by
        rw [← List.length_eq_zero_iff, h.length, heq]
        exact used_self d.prod
      subst hnil
      exact ⟨rfl, h⟩
    · rename_i hne
      have hpos : 0 < used d.prod d.cons := used_pos (Ne.symm hne)
      have hslot := slot_of_mask d.nonzero d.pow2 d.cons
      have hitems := get_items (size_dvd d.nonzero d.pow2) (size_pos d) d.cbuf h.bounded hpos
      rw [show (freeRunning d.cbuf d.prod d.cons).items = l from h.items] at hitems
      have hrest : Holds size {d with cons := d.cons + 1}
          (freeRunning d.cbuf d.prod (d.cons + 1)).items := by
        refine ⟨h.same, ?_, rfl⟩
        show used d.prod (d.cons + 1) ≤ d.size.toNat
        rw [used_sub_one hpos]
        exact (Nat.sub_le _ 1).trans h.bounded
      obtain ⟨htake, hdrop⟩ := ih hrest
      rw [hitems]
      dsimp only
      refine ⟨?_, hdrop⟩
      rw [htake, hslot, List.take_succ_cons]

theorem asInt_small {n : ℕ} (h : n < 2 ^ 31) : asInt n = n := by
  have hmod : n % 2 ^ 32 = n := Nat.mod_eq_of_lt (by omega)
  rw [asInt, BitVec.toInt_eq_toNat_of_lt (by rw [BitVec.toNat_ofNat, hmod]; omega),
    BitVec.toNat_ofNat, hmod]

theorem open_holds {opt : BitVec 64} {d : RingBufCharDriver} (h : qemuChrOpenRingbuf opt = some d) :
    Holds d.size d [] := by
  unfold qemuChrOpenRingbuf at h
  split at h
  · obtain rfl := Option.some.inj h
    exact ⟨rfl, by rw [used_self]; exact Nat.zero_le _, Ring.items_eq_nil (used_self 0)⟩
  · cases h

theorem write_latest {size : BitVec 64} {d : RingBufCharDriver} {l : List Byte}
    (h : Holds size d l) (data : Block) :
    Holds size (step d (.write data)).1 (latest size.toNat l (.write data)).1 ∧
    (step d (.write data)).2 = (latest size.toNat l (.write data)).2 := by
  have hint := asInt_small data.property
  have hsome : ringbufChrWrite d data.val = some (data.val.foldl putByte d) := by
    rw [ringbufChrWrite, hint, if_neg (by omega), Int.toNat_natCast, List.take_length]
  rw [step, qmpRingbufWrite, hsome]
  exact ⟨putAll_holds h data.val, rfl⟩

theorem encodeData_some (format : DataFormat) (l : List Byte) :
    encodeData format (l.map some) = (untilNul format l).map some := by
  cases format with
  | utf8 =>
    rw [encodeData, untilNul, List.takeWhile_map]
    simp [Function.comp_def]
  | base64 => rfl

theorem read_count {size : BitVec 64} {d : RingBufCharDriver} {l : List Byte}
    (h : Holds size d l) {n : ℤ} (hn : 0 < n) {m : ℕ} (hm : min l.length n.toNat = m)
    (format : DataFormat) :
    step d (.read n format) = ((ringbufChrRead d (asInt m).toNat).2,
      [.data (encodeData format ((ringbufChrRead d (asInt m).toNat).1.map some ++
        List.replicate (m - (ringbufChrRead d (asInt m).toNat).1.length) none))]) := by
  have hcount : (ringbufCount d).toNat = l.length := h.length.symm
  have hmin : (if l.length < n.toNat then l.length else n.toNat) = m := by
    rw [← hm]
    split <;> omega
  rw [step, qmpRingbufRead, if_neg (by omega), hcount]
  dsimp only
  rw [hmin]

theorem read_latest {size : BitVec 64} {d : RingBufCharDriver} {l : List Byte}
    (h : Holds size d l) (hsize : size.toNat < 2 ^ 31) (n : ℤ)
    (format : DataFormat) :
    Holds size (step d (.read n format)).1 (latest size.toNat l (.read n format)).1 ∧
    (step d (.read n format)).2 = (latest size.toNat l (.read n format)).2 := by
  rcases Int.lt_or_le 0 n with hpos | hneg
  · have hlen : l.length ≤ size.toNat := by
      rw [h.length, ← h.same]
      exact h.bounded
    have hint : (asInt (min l.length n.toNat)).toNat = min l.length n.toNat := by
      rw [asInt_small (by omega), Int.toNat_natCast]
    obtain ⟨htake, hdrop⟩ := read_holds h (min l.length n.toNat)
    have hall : l.take (min l.length n.toNat) = l.take n.toNat := by
      rw [Nat.min_comm, ← List.take_take, List.take_length]
    have hrest : l.drop (min l.length n.toNat) = l.drop n.toNat := by
      rcases Nat.le_total l.length n.toNat with hle | hle
      · rw [Nat.min_eq_left hle, List.drop_length, List.drop_eq_nil_of_le hle]
      · rw [Nat.min_eq_right hle]
    have hfull : min l.length n.toNat - (l.take n.toNat).length = 0 := by
      rw [List.length_take]
      omega
    rw [read_count h hpos rfl, hint, htake, hall, hfull, latest, latestBy, if_neg (by omega)]
    rw [hrest] at hdrop
    exact ⟨hdrop, by rw [List.replicate_zero, List.append_nil, encodeData_some]⟩
  · rw [step, qmpRingbufRead, if_pos hneg, latest, latestBy, if_pos hneg]
    exact ⟨h, rfl⟩

/-- Blocks of `2 ^ 31` bytes and more do not fit the `int` that a read passes on. -/
theorem read_wraps {size : BitVec 64} {d : RingBufCharDriver} {l : List Byte} (h : Holds size d l)
    {n : ℕ} (hpos : 0 < n) (hlen : l.length = n) (hint : (asInt n).toNat = 0) :
    (step d (.read n .base64)).2 = [.data (List.replicate n none)] := by
  rw [read_count h (by omega) (show min l.length (n : ℤ).toNat = n by rw [hlen]; omega) .base64,
    hint]
  rfl

/-- From its opening on the device answers like a store of the latest `size` bytes whose
texts end at a NUL, exactly when its size fits an `int`; otherwise a read can return bytes
that nothing was stored to. -/
theorem keeps_latest_iff {opt : BitVec 64} {d : RingBufCharDriver}
    (h : qemuChrOpenRingbuf opt = some d) :
    (∀ as, (run step d as).2 = (run (latest d.size.toNat) [] as).2) ↔ d.size.toNat < 2 ^ 31 := by
  have hopen := open_holds h
  constructor
  · intro hall
    by_contra hbig
    obtain ⟨half, hhalf⟩ : ∃ b : Block, b.val.length = 2 ^ 30 :=
      ⟨⟨List.replicate (2 ^ 30) 0, by rw [List.length_replicate]; omega⟩, List.length_replicate⟩
    obtain ⟨hone, hsame⟩ := write_latest hopen half
    obtain ⟨htwo, hsame'⟩ := write_latest hone half
    have hlen : (latest d.size.toNat (latest d.size.toNat [] (.write half)).1 (.write half)).1.length =
        2 ^ 31 := by
      show (((([] : List Byte) ++ half.val).rtake d.size.toNat ++ half.val).rtake _).length = _
      rw [rtake_append_rtake, List.nil_append, rtake_full (by rw [List.length_append]; omega),
        List.length_append]
      omega
    have hread : (run step d [.write half, .write half, .read (2 ^ 31 : ℕ) .base64]).2 = _ := hall _
    simp only [run, hsame, hsame', List.append_cancel_left_eq, List.append_nil] at hread
    generalize (latest d.size.toNat (latest d.size.toNat [] (.write half)).1 (.write half)).1 = held
      at htwo hlen hread
    rw [read_wraps htwo (by omega) hlen (by decide), latest, latestBy, if_neg (by omega)] at hread
    simp only [List.cons.injEq, and_true, Reply.data.injEq] at hread
    have hnone : none ∈ List.replicate (2 ^ 31) (none : Option Byte) :=
      List.mem_replicate.mpr ⟨by omega, rfl⟩
    rw [hread] at hnone
    obtain ⟨x, -, hx⟩ := List.mem_map.mp hnone
    cases hx
  · intro hsize as
    refine run_bisim (R := fun d' l => Holds d.size d' l) (fun d' l a hd => ?_) as hopen
    cases a with
    | write data => exact write_latest hd data
    | read n format => exact read_latest hd hsize n format

theorem whole_iff (N : ℕ) (held : List Byte) (a : Request) :
    (latest N held a).2 = (latestBy (fun _ bytes => bytes) N held a).2 ↔ Whole held a := by
  cases a with
  | write data => exact iff_of_true rfl trivial
  | read size format =>
    simp only [latest, latestBy, Whole]
    by_cases hneg : size ≤ 0
    · rw [if_pos hneg, if_pos hneg]
      exact iff_of_true rfl fun _ hpos => absurd hneg (by omega)
    · have hpos : 0 < size := by omega
      rw [if_neg hneg, if_neg hneg]
      cases format with
      | base64 => exact iff_of_true rfl fun h => absurd h (by decide)
      | utf8 =>
        have hinj := List.map_injective_iff.mpr (Option.some_injective Byte)
        simp only [List.cons.injEq, and_true, Reply.data.injEq, hinj.eq_iff, untilNul,
          List.takeWhile_eq_self_iff, decide_eq_true_eq, forall_const, hpos]
        exact ⟨fun hall hmem => hall 0 hmem rfl, fun hno b hb heq => hno (heq ▸ hb)⟩

/-- The reads of a run show everything that they take exactly when no text holds a NUL. -/
theorem texts_whole_iff (N : ℕ) (as : List Request) :
    (run (latest N) [] as).2 = (run (latestBy (fun _ bytes => bytes) N) [] as).2 ↔
      Along (latest N) Whole [] as := by
  have hstate : ∀ held a, (latestBy (fun _ bytes => bytes) N held a).1 = (latest N held a).1 ∧
      (latestBy (fun _ bytes => bytes) N held a).2.length = (latest N held a).2.length := by
    intro held a
    cases a with
    | write data => exact ⟨rfl, rfl⟩
    | read size format =>
      simp only [latest, latestBy]
      by_cases hneg : size ≤ 0
      · rw [if_pos hneg, if_pos hneg]
        exact ⟨rfl, rfl⟩
      · rw [if_neg hneg, if_neg hneg]
        exact ⟨rfl, rfl⟩
  rw [run_eq_iff hstate]
  exact along_congr (whole_iff N) [] as

def sampleDevice : RingBufCharDriver := ⟨8, by decide, by decide, 0, 0, Vector.replicate _ 0⟩

theorem keeps_latest_sample :
    (∀ as, (run step sampleDevice as).2 = (run (latest 8) [] as).2) ↔ 8 < 2 ^ 31 :=
  keeps_latest_iff (show qemuChrOpenRingbuf 8 = some sampleDevice from rfl)

end CanPci.Ringbuf
