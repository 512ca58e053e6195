import CanPci.Emulated.Delivery
import CanPci.Emulated.Registers

/-!
# Saving and loading the emulated device

`vmstate_pci_can` lists the PCI part of `PCICanState` and not `state`.
-/

namespace CanPci.Emulated
open RingFifo BitField Machine

/-- The members of `PCICanState`. -/
inductive Field
  | dev
  | state
  deriving DecidableEq, Repr

def vmstatePciCan : List Field := [.dev]

/-- What transferring a field changes in the fresh device; `line` is the level the PCI
part gives the interrupt line. -/
def Field.load (line : Bool) (saved fresh : CanState) : Field → CanState
  | dev => {fresh with irq := line}
  | state => {saved with irq := fresh.irq}

def restore (line : Bool) (saved : CanState) : CanState :=
  vmstatePciCan.foldl (fun fresh f => f.load line saved fresh) CanState.init

/-- The value read or the frame emitted, and the new level when the line changes. -/
structure Response where
  out : List Event
  line : Option Bool
  deriving DecidableEq

def Event.Visible : Event → Bool
  | value _ => true
  | send _ => true
  | _ => false

def lineChange (old new : Bool) : Option Bool := if new = old then none else some new

def respond (s : CanState) (a : Access) : CanState × List Response :=
  let r := access s a
  (r.1, [⟨r.2.filter Event.Visible, lineChange s.irq r.1.irq⟩])

def Indistinguishable (s t : CanState) : Prop :=
  ∀ guest, (run respond s guest).2 = (run respond t guest).2

/-- Equal in all that shows: bits 4 and 5 of `trx_buff[0]` never do, nor do `code_mask`
and `tx_buff`. -/
structure Twin (s t : CanState) : Prop where
  mode : s.mode = t.mode
  status : s.status = t.status
  irq : s.irq = t.irq
  info : load s.trxBuff 0 &&& 0xcf#8 = load t.trxBuff 0 &&& 0xcf#8
  buff : ∀ k, 1 ≤ k → load s.trxBuff k = load t.trxBuff k

theorem copyData_congr {buff buff' : Vector Byte 13} {base : ℕ}
    (h : ∀ k, load buff (base + k) = load buff' (base + k)) (n i : ℕ) (can : CanFrame) :
    copyData buff base n i can = copyData buff' base n i can := by
  induction n generalizing i can with
  | zero => rfl
  | succ n ih =>
    rw [copyData, copyData, h i]
    dsimp only
    rw [ih]

theorem info_bits {x y : Byte} (h : x &&& 0xcf#8 = y &&& 0xcf#8) :
    x &&& 0x40#8 = y &&& 0x40#8 ∧ x &&& 0x80#8 = y &&& 0x80#8 ∧ x &&& 0x0f#8 = y &&& 0x0f#8 := by
  have hmask : ∀ (z m : Byte), 0xcf#8 &&& m = m → z &&& m = z &&& 0xcf#8 &&& m := by
    intro z m hm
    rw [BitVec.and_assoc, hm]
  refine ⟨?_, ?_, ?_⟩
  · rw [hmask x _ (by decide), h, ← hmask y _ (by decide)]
  · rw [hmask x _ (by decide), h, ← hmask y _ (by decide)]
  · rw [hmask x _ (by decide), h, ← hmask y _ (by decide)]

theorem buff2frame_congr {buff buff' : Vector Byte 13}
    (hinfo : load buff 0 &&& 0xcf#8 = load buff' 0 &&& 0xcf#8)
    (hbuff : ∀ k, 1 ≤ k → load buff k = load buff' k) (can : CanFrame) :
    buff2frame buff can = buff2frame buff' can := by
  obtain ⟨hrtr, heff, hdlc⟩ := info_bits hinfo
  have hcopy : ∀ base, 1 ≤ base → ∀ n i can,
      copyData buff base n i can = copyData buff' base n i can :=
    fun base hbase => copyData_congr fun k => hbuff _ (by omega)
  unfold buff2frame
  rw [hrtr, heff, hdlc, hbuff 1 (by omega), hbuff 2 (by omega), hbuff 3 (by omega),
    hbuff 4 (by omega)]
  simp only [hcopy 5 (by omega), hcopy 3 (by omega)]

theorem Effect.visible {s : CanState} {can : CanFrame} {addr : ℕ} {val : Byte}
    {r : CanState × List Event} (h : Effect s can addr val r) : r.2.filter Event.Visible =
      if addr = 1 ∧ 0x01 &&& val ≠ 0 then [.send (buff2frame s.trxBuff can).1] else [] := by
  have htouch : ∀ xs : List Index, (xs.map Event.touch).filter Event.Visible = [] := by
    intro xs
    induction xs with
    | nil => rfl
    | cons x xs ih => exact ih
  cases h with
  | request haddr hreq =>
    rw [if_pos ⟨haddr, hreq⟩, List.filter_append, htouch]
    rfl
  | ignored _ hreq _ _ =>
    rw [if_neg fun h => h.2 (hreq h.1)]
    rfl
  | mode haddr =>
    rw [if_neg (by omega)]
    rfl
  | acknowledge haddr _ =>
    rw [if_neg (by omega)]
    rfl
  | mask hlow _ _ =>
    rw [if_neg (by omega)]
    rfl
  | buffer hlow _ _ =>
    rw [if_neg (by omega)]
    rfl

theorem load_beyond {N : ℕ} (v : Vector Byte N) {k : ℕ} (h : N ≤ k) : load v k = 0 := by
  simp [load, h]
  rfl

theorem twin_respond {s t : CanState} (h : Twin s t) (a : Access) :
    Twin (respond s a).1 (respond t a).1 ∧ (respond s a).2 = (respond t a).2 := by
  cases a with
  | read addr =>
    refine ⟨h, ?_⟩
    have hvalue : canMemRead s addr = canMemRead t addr := by
      simp only [canMemRead, h.mode, h.status]
    simp only [respond, access, hvalue, h.irq]
  | write addr val can =>
    have hs := canMemWrite_effect s can addr val
    have ht := canMemWrite_effect t can addr val
    have hbyte : ∀ k < 13, load (canMemWrite s can addr val).1.trxBuff k =
        if t.mode &&& 0x01 = 0 ∧ addr = 16 + k then val else load s.trxBuff k := by
      intro k hk
      rw [hs.trxBuff_eq hk, h.mode]
    have hirq : (canMemWrite s can addr val).1.irq = (canMemWrite t can addr val).1.irq := by
      rw [Bool.eq_iff_iff, hs.irq_iff, ht.irq_iff, h.irq]
    have hout : (canMemWrite s can addr val).2.filter Event.Visible =
        (canMemWrite t can addr val).2.filter Event.Visible := by
      rw [hs.visible, ht.visible, buff2frame_congr h.info h.buff]
    constructor
    · constructor
      · exact (hs.mode_eq.trans (by rw [h.mode])).trans ht.mode_eq.symm
      · exact (hs.status_eq.trans h.status).trans ht.status_eq.symm
      · exact hirq
      · show load (canMemWrite s can addr val).1.trxBuff 0 &&& 0xcf#8 = _
        rw [hbyte 0 (by omega), respond, access, ht.trxBuff_eq (by omega)]
        split
        · rfl
        · exact h.info
      · intro k hk
        show load (canMemWrite s can addr val).1.trxBuff k = _
        by_cases hin : k < 13
        · rw [hbyte k hin, respond, access, ht.trxBuff_eq hin, h.buff k hk]
        · rw [load_beyond _ (by omega), load_beyond _ (by omega)]
    · simp only [respond, access, hirq, hout, h.irq]

theorem frame_now (s : CanState) : (run respond s [.write 1 0x01 CanFrame.zero]).2.flatMap
    Response.out = [.send (buff2frame s.trxBuff CanFrame.zero).1] := by
  simp only [run, respond, List.append_nil, List.flatMap_cons, List.flatMap_nil]
  exact (canMemWrite_effect s CanFrame.zero 1 0x01).visible

/-- The guest enters operating mode, overwrites the frame information and requests. -/
def probe (info : Byte) : List Access :=
  [.write 0 0x00 CanFrame.zero, .write 16 info CanFrame.zero, .write 1 0x01 CanFrame.zero]

theorem frame_probed (s : CanState) (info : Byte) :
    (run respond s (probe info)).2.flatMap Response.out =
      [.send (buff2frame (store s.trxBuff 0 info) CanFrame.zero).1] := by
  have hmode : access s (.write 0 0x00 CanFrame.zero) = ({s with mode := 0}, []) := rfl
  have hinfo : access {s with mode := 0} (.write 16 info CanFrame.zero) =
      ({s with mode := 0, trxBuff := store s.trxBuff 0 info}, [.touch (.trxBuff 0)]) :=
    canMemWrite_window (show (0 : Byte) &&& 0x01 = 0 by decide) _ (by omega) (by omega) info
  have hframe := frame_now {s with mode := 0, trxBuff := store s.trxBuff 0 info}
  simp only [run, respond, List.append_nil, List.flatMap_cons, List.flatMap_nil] at hframe
  simp only [probe, run, respond, hmode, hinfo, List.cons_append, List.nil_append,
    List.flatMap_cons, List.flatMap_nil, List.append_nil]
  exact hframe

theorem Indistinguishable.frame_now {s t : CanState} (h : Indistinguishable s t) :
    (buff2frame s.trxBuff CanFrame.zero).1 = (buff2frame t.trxBuff CanFrame.zero).1 := by
  have heq := congrArg (List.flatMap Response.out) (h [.write 1 0x01 CanFrame.zero])
  rw [Emulated.frame_now, Emulated.frame_now] at heq
  simpa using heq

theorem Indistinguishable.frame_probed {s t : CanState} (h : Indistinguishable s t) (info : Byte) :
    (buff2frame (store s.trxBuff 0 info) CanFrame.zero).1 =
      (buff2frame (store t.trxBuff 0 info) CanFrame.zero).1 := by
  have heq := congrArg (List.flatMap Response.out) (h (probe info))
  rw [Emulated.frame_probed, Emulated.frame_probed] at heq
  simpa using heq

/-- The data bytes of a probe with length eight are read from `base` on. -/
theorem Indistinguishable.buff {s t : CanState} (h : Indistinguishable s t) (info : Byte)
    (hlen : info &&& 0x0f#8 = 8) (base : ℕ) (hbase : 1 ≤ base)
    (hinfo : base = if info &&& 0x80#8 ≠ 0 then 5 else 3) {k : ℕ} (hlow : base ≤ k)
    (hhigh : k < base + 8) : load s.trxBuff k = load t.trxBuff k := by
  have hfirst : ∀ v : Vector Byte 13, load (store v 0 info) 0 = info :=
    fun v => load_store_self v info (by omega)
  have hdata : ∀ v : Vector Byte 13,
      load (buff2frame (store v 0 info) CanFrame.zero).1.data (k - base) = load v k := by
    intro v
    have hstart : dataBase (store v 0 info) = base := by
      rw [dataBase, hfirst, hinfo]
    have height : (8 : Byte).toNat = 8 := rfl
    rw [buff2frame_data _ _ (by omega), hfirst, hlen, hstart, if_pos (by omega),
      Nat.add_sub_cancel' hlow]
    exact load_store_ne _ _ (by omega)
  rw [← hdata s.trxBuff, ← hdata t.trxBuff, h.frame_probed]

theorem decodedId_first_bytes {buff : Vector Byte 13} (hinfo : load buff 0 = 0x88#8) {k : ℕ}
    (hk : k = 1 ∨ k = 2) :
    load buff k = (decodedId buff 0 >>> (29 - 8 * k)).setWidth 8 := by
  have hone : ∀ i < 32, (1#32 <<< 31).getLsbD i = decide (i = 31) := by decide
  have heff : load buff 0 &&& 0x80#8 ≠ 0 := by rw [hinfo]; decide
  have hrtr : ¬ load buff 0 &&& 0x40#8 ≠ 0 := by rw [hinfo]; decide
  unfold decodedId
  rw [if_neg hrtr, if_pos heff]
  apply BitVec.eq_of_getLsbD_eq
  intro i hi
  rcases hk with rfl | rfl
  · have h31 := hone (21 + i) (by omega)
    simp only [promote, BitVec.getLsbD_setWidth, BitVec.getLsbD_ushiftRight, BitVec.getLsbD_or,
      BitVec.getLsbD_shiftLeft]
    grind
  · have h31 := hone (13 + i) (by omega)
    simp only [promote, BitVec.getLsbD_setWidth, BitVec.getLsbD_ushiftRight, BitVec.getLsbD_or,
      BitVec.getLsbD_shiftLeft]
    grind

theorem decodedId_flags (buff : Vector Byte 13) :
    (decodedId buff 0).getLsbD 30 = (load buff 0).getLsbD 6 ∧
    (decodedId buff 0).getLsbD 31 = (load buff 0).getLsbD 7 := by
  have hrtr : load buff 0 &&& 0x40#8 ≠ 0 ↔ (load buff 0).getLsbD 6 = true :=
    and_bit_ne_zero (load buff 0) (show 6 < 8 by omega)
  have heff : load buff 0 &&& 0x80#8 ≠ 0 ↔ (load buff 0).getLsbD 7 = true :=
    and_bit_ne_zero (load buff 0) (show 7 < 8 by omega)
  unfold decodedId
  simp only [hrtr, heff]
  cases (load buff 0).getLsbD 6 <;> cases (load buff 0).getLsbD 7 <;>
    simp [promote]

theorem Indistinguishable.info {s t : CanState} (h : Indistinguishable s t) :
    load s.trxBuff 0 &&& 0xcf#8 = load t.trxBuff 0 &&& 0xcf#8 := by
  have hid := congrArg CanFrame.canId h.frame_now
  have hdlc := congrArg CanFrame.canDlc h.frame_now
  rw [buff2frame_canId, buff2frame_canId] at hid
  rw [buff2frame_canDlc, buff2frame_canDlc] at hdlc
  have hbit6 := congrArg (BitVec.getLsbD · 30) hid
  have hbit7 := congrArg (BitVec.getLsbD · 31) hid
  simp only [CanFrame.zero, decodedId_flags] at hbit6 hbit7
  have hlow : ∀ i < 8, (0x0f#8).getLsbD i = decide (i < 4) := by decide
  have hkept : ∀ i < 8, (0xcf#8).getLsbD i = decide (i < 4 ∨ i = 6 ∨ i = 7) := by decide
  apply BitVec.eq_of_getLsbD_eq
  intro i hi
  have hdlcbit := congrArg (BitVec.getLsbD · i) hdlc
  simp only [BitVec.getLsbD_and, hlow i hi] at hdlcbit
  rw [BitVec.getLsbD_and, BitVec.getLsbD_and, hkept i hi]
  grind

theorem indistinguishable_iff_twin (s t : CanState) : Indistinguishable s t ↔ Twin s t := by
  constructor
  · intro h
    have hmode : s.mode = t.mode := by
      have hread := h [.read 0]
      simp [run, respond, access, canMemRead, pciMemSize, List.filter, Event.Visible] at hread
      exact hread.1
    have hstatus : s.status = t.status := by
      have hread := h [.read 2]
      simp [run, respond, access, canMemRead, pciMemSize, List.filter, Event.Visible] at hread
      exact hread.1
    have hirq : s.irq = t.irq := by
      have hline : lineChange s.irq false = lineChange t.irq false := by
        have hack := h [.write 127 0x33 CanFrame.zero]
        simpa [run, respond, access, canMemWrite, pciMemSize, List.filter, Event.Visible] using hack
      revert hline
      cases s.irq <;> cases t.irq <;> decide
    refine ⟨hmode, hstatus, hirq, h.info, fun k hk => ?_⟩
    have hprobe := congrArg CanFrame.canId (h.frame_probed 0x88)
    rw [buff2frame_canId, buff2frame_canId] at hprobe
    have hhead : k = 1 ∨ k = 2 → load s.trxBuff k = load t.trxBuff k := by
      intro hk2
      have hkept : ∀ v : Vector Byte 13, load v k =
          (decodedId (store v 0 0x88) 0 >>> (29 - 8 * k)).setWidth 8 := by
        intro v
        rw [← decodedId_first_bytes (load_store_self v 0x88 (by omega)) hk2]
        exact (load_store_ne v 0x88 (by omega)).symm
      rw [hkept s.trxBuff, hkept t.trxBuff]
      exact congrArg (fun id : CanId => (id >>> (29 - 8 * k)).setWidth 8) hprobe
    by_cases h3 : k < 3
    · exact hhead (by omega)
    · by_cases h5 : k < 5
      · exact h.buff 0x08 (by decide) 3 (by omega) (by decide) (by omega) (by omega)
      · by_cases h13 : k < 13
        · exact h.buff 0x88 (by decide) 5 (by omega) (by decide) (by omega) (by omega)
        · rw [load_beyond _ (by omega), load_beyond _ (by omega)]
  · intro h guest
    have hstep : ∀ s t a, Twin s t → Twin (respond s a).1 (respond t a).1 ∧
        (respond s a).2 = (respond t a).2 := fun s t a hst => twin_respond hst a
    exact run_bisim hstep guest h

/-- Loading a saved device is transparent exactly when, apart from the interrupt line that
the PCI part must bring over, the device was as after power-on in all that shows. -/
theorem restore_transparent_iff (guest : List Access) (line : Bool) :
    Indistinguishable (run access CanState.init guest).1
      (restore line (run access CanState.init guest).1) ↔
    line = (run access CanState.init guest).1.irq ∧
    (run access CanState.init guest).1.mode = 0x01 ∧
    load (run access CanState.init guest).1.trxBuff 0 &&& 0xcf#8 = 0 ∧
    ∀ k, 1 ≤ k → k < 13 → load (run access CanState.init guest).1.trxBuff k = 0 := by
  have hzero : ∀ k, load CanState.init.trxBuff k = 0 := fun k => load_replicate 13 k
  rw [indistinguishable_iff_twin]
  constructor
  · intro h
    refine ⟨h.irq.symm, h.mode, ?_, fun k hk _ => (h.buff k hk).trans (hzero k)⟩
    rw [h.info]
    show load CanState.init.trxBuff 0 &&& _ = 0
    rw [hzero]
    decide
  · rintro ⟨hline, hmode, hinfo, hbuff⟩
    refine ⟨hmode, run_status CanState.init guest, hline.symm, ?_, fun k hk => ?_⟩
    · rw [hinfo]
      show _ = load CanState.init.trxBuff 0 &&& _
      rw [hzero]
      decide
    · by_cases h13 : k < 13
      · exact (hbuff k hk h13).trans (hzero k).symm
      · rw [load_beyond _ (by omega), load_beyond _ (by omega)]

/-- A guest in operating mode reads the mode register: 0 before the migration, 1 after. -/
theorem restore_forgets_mode :
    let saved := (run access CanState.init [.write 0 0x00 CanFrame.zero]).1
    (run respond saved [.read 0]).2 = [⟨[.value 0x00], none⟩] ∧
    (run respond (restore saved.irq saved) [.read 0]).2 = [⟨[.value 0x01], none⟩] ∧
    ¬ Indistinguishable saved (restore saved.irq saved) := by
  refine ⟨by decide, by decide, fun h => ?_⟩
  exact absurd (h [.read 0]) (by decide)

end CanPci.Emulated
