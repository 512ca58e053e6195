import CanPci.PelicanFormat
import CanPci.TxConfined

/-!
# The BasicCAN message format

Two header bytes carry an 11-bit identifier, the remote bit and the length. They have
no room for the other bits of a `can_id` word.
-/

namespace CanPci.Basiccan
open RingFifo BitField

theorem low_byte (id : CanId) :
    ((id <<< 5) &&& 0xe0#32).setWidth 8 = (id.setWidth 3).setWidth 8 <<< 5 := by
  have hmask : ∀ i < 8, (0xe0#32).getLsbD i = decide (5 ≤ i) := by decide
  apply BitVec.eq_of_getLsbD_eq
  intro i hi
  simp only [BitVec.getLsbD_setWidth, BitVec.getLsbD_and, BitVec.getLsbD_shiftLeft, hmask i hi]
  grind

theorem low_bits (id : CanId) : (id.setWidth 3).setWidth 32 = id &&& 0x07#32 := by
  have hmask : ∀ i < 32, (0x07#32).getLsbD i = decide (i < 3) := by decide
  apply BitVec.eq_of_getLsbD_eq
  intro i hi
  simp only [BitVec.getLsbD_setWidth, BitVec.getLsbD_and, hmask i hi]
  grind

theorem second_fields : ∀ k : BitVec 3, ∀ d : Byte, d.toNat ≤ 8 → ∀ r : Bool,
    let low := k.setWidth 8 <<< 5
    let b := (if r then low ||| (1#8 <<< 4) else low) ||| (d &&& 0x0f#8)
    (promote b >>> 5) &&& 0x07#32 = k.setWidth 32 ∧ (b &&& 0x10#8 ≠ 0 ↔ r = true) ∧
      b &&& 0x0f#8 = d := by
  decide +kernel

theorem second_split : ∀ b : Byte,
    (if b.getLsbD 4 then (b &&& 0xe0#8) ||| (1#8 <<< 4) else b &&& 0xe0#8) |||
      ((b &&& 0x0f#8) &&& 0x0f#8) = b := by
  decide

def rxId (b1 b2 : Byte) : CanId :=
  let id := ((promote b1 <<< 3) &&& (0xff#32 <<< 3)) ||| ((promote b2 >>> 5) &&& 0x07#32)
  if b2 &&& 0x10#8 ≠ 0 then id ||| (1#32 <<< 30) else id

theorem rxId_bits (b1 b2 : Byte) : (∀ i < 3, (rxId b1 b2).getLsbD i = b2.getLsbD (i + 5)) ∧
    (∀ i < 8, (rxId b1 b2).getLsbD (i + 3) = b1.getLsbD i) ∧
    (rxId b1 b2).getLsbD 30 = b2.getLsbD 4 := by
  have hrtr : b2 &&& 0x10#8 ≠ 0 ↔ b2.getLsbD 4 = true :=
    and_bit_ne_zero b2 (show 4 < 8 by decide)
  have h7 : ∀ i < 32, (0x07#32).getLsbD i = decide (i < 3) := by decide
  have hff : ∀ i < 32, (0xff#32).getLsbD i = decide (i < 8) := by decide
  have hone := one_shift_bit (w := 32) 30
  unfold rxId promote
  refine ⟨?_, ?_, ?_⟩
  · intro i hi
    dsimp only
    split <;>
    · simp only [BitVec.getLsbD_or, BitVec.getLsbD_and, BitVec.getLsbD_shiftLeft,
        BitVec.getLsbD_ushiftRight, BitVec.getLsbD_setWidth, h7 i (by omega), hone i (by omega)]
      grind
  · intro i hi
    dsimp only
    split <;>
    · simp only [BitVec.getLsbD_or, BitVec.getLsbD_and, BitVec.getLsbD_shiftLeft,
        BitVec.getLsbD_ushiftRight, BitVec.getLsbD_setWidth, h7 (i + 3) (by omega),
        hone (i + 3) (by omega), hff i (by omega), Nat.add_sub_cancel]
      grind
  · dsimp only
    split
    · rename_i h
      rw [hrtr] at h
      simp only [BitVec.getLsbD_or, hone 30 (by decide), h]
      simp
    · rename_i h
      rw [hrtr, Bool.not_eq_true] at h
      simp only [BitVec.getLsbD_or, BitVec.getLsbD_and, BitVec.getLsbD_shiftLeft,
        BitVec.getLsbD_ushiftRight, BitVec.getLsbD_setWidth, h7 30 (by decide), h]
      simp

theorem rxId_sent (id : CanId) {d : Byte} (hd : d.toNat ≤ 8) :
    let low : Byte := ((id <<< 5) &&& 0xe0#32).setWidth 8
    let b := (if idBit id 30 then low ||| (1#8 <<< 4) else low) ||| (d &&& 0x0f#8)
    rxId (((id >>> 3) &&& 0xff#32).setWidth 8) b = id &&& 0x400007ff#32 ∧ b &&& 0x0f#8 = d := by
  have hbyte : ∀ j, 8 ≤ j → (0xff#32).getLsbD j = false :=
    fun j hj => high_bit_false (n := 8) (by decide) hj
  obtain ⟨hid, hrtr, hlen⟩ := second_fields (id.setWidth 3) d hd (idBit id 30)
  dsimp only at hid hrtr hlen ⊢
  rw [low_byte]
  refine ⟨?_, hlen⟩
  simp only [rxId, hid, hrtr]
  rw [low_bits, promote, slice_shift _ _ _ _ hbyte]
  have h30 := and_bit id 30
  rw [← idBit_eq id (by decide)] at h30
  split
  · rename_i h
    rw [if_pos h] at h30
    rw [← h30, and_or_and, and_or_and]
    rfl
  · rename_i h
    rw [if_neg h] at h30
    have hmask : (0x400007ff#32) = (0xff#32 <<< 3 ||| 0x07#32) ||| (1#32 <<< 30) := by decide
    rw [and_or_and, hmask, ← and_or_and _ _ (1#32 <<< 30), h30]
    exact (BitVec.or_zero).symm

section
variable {f : CanFrame} {w rx : RegFile}

theorem sent_header (hd : f.canDlc.toNat ≤ 8) {r : Byte} (hr : 8 ≤ (r - 12).toNat)
    (hcmd : r ≠ sjaCommandReg) :
    (sendMessage f w).regs r = (writes (txHeader f) w).regs r := by
  rw [sendMessage_split, RegFile.iowrite8_regs, Function.update_of_ne hcmd,
    writeData_eq _ _ _ _ _ (by omega), RegFile.dataWrites_regs _ _ _ _ _ _ (by omega),
    txDataReg, if_neg (by omega)]

theorem sent_data (hd : f.canDlc.toNat ≤ 8) {k : ℕ} (hk : k < f.canDlc.toNat) :
    (sendMessage f w).regs (12 + BitVec.ofNat 8 k) = load f.data k := by
  have hcmd : (12 : Byte) + BitVec.ofNat 8 k ≠ sjaCommandReg := by
    unfold sjaCommandReg
    bv_omega
  have hoff : ((12 : Byte) + BitVec.ofNat 8 k - txDataReg f).toNat = k := by
    unfold txDataReg
    bv_omega
  rw [sendMessage_split, RegFile.iowrite8_regs, Function.update_of_ne hcmd,
    writeData_eq _ _ _ _ _ (by omega), RegFile.dataWrites_regs _ _ _ _ _ _ (by omega),
    hoff, if_pos hk, Nat.zero_add]

/-- The receive window 20..29 of `rx` holds what `send_message` left in 10..19. -/
def Looped (f : CanFrame) (w rx : RegFile) : Prop :=
  ∀ r : Byte, 10 ≤ r.toNat → r.toNat ≤ 19 → rx.regs (r + 10) = (sendMessage f w).regs r

theorem rxHeader_eq (rx : RegFile) : rxHeader rx =
    ⟨rxId (rx.regs 20) (rx.regs 21), rx.regs 21 &&& 0x0f#8, 22, rx⟩ := rfl

theorem rxHeader_sent (hd : f.canDlc.toNat ≤ 8) (hrx : Looped f w rx) :
    rxHeader rx = ⟨f.canId &&& 0x400007ff#32, f.canDlc, 22, rx⟩ := by
  have h20 := hrx 10 (by decide) (by decide)
  have h21 := hrx 11 (by decide) (by decide)
  rw [sent_header hd (by decide) (by decide)] at h20 h21
  obtain ⟨hid, hlen⟩ := rxId_sent f.canId hd
  rw [rxHeader_eq]
  change rx.regs 20 = ((f.canId >>> 3) &&& 0xff#32).setWidth 8 at h20
  change rx.regs 21 = _ at h21
  rw [h20, h21]
  exact congrArg₂ (fun id len => (⟨id, len, 22, rx⟩ : RxHeader RegFile)) hid hlen

/-- Of the identifier word eleven bits and the remote bit come back, of the data the
announced bytes; the rest of the slot is zero. -/
theorem loopback (hd : f.canDlc.toNat ≤ 8) (slot : CanFrame) (hrx : Looped f w rx) :
    let r := (receiveMessage slot rx).1
    r.can.canId = f.canId &&& 0x400007ff#32 ∧ r.can.canDlc = f.canDlc ∧
      r.can.pad = Vector.replicate 3 0 ∧ r.overrun = [] ∧
      (∀ k < f.canDlc.toNat, load r.can.data k = load f.data k) ∧ r.can.TailZero := by
  rw [receiveMessage_split, rxHeader_sent hd hrx]
  set h : RxHeader RegFile := ⟨f.canId &&& 0x400007ff#32, f.canDlc, 22, rx⟩ with hh
  obtain ⟨hid, hdlc, hpad⟩ := Driver.finish_header h
  refine ⟨hid, hdlc, hpad, (Driver.finish_over_iff h).mpr hd, ?_, Driver.finish_tail h⟩
  intro k hk
  have hread := RegFile.readData_data f.canDlc.toNat 0 k 22 h.slot rx (by omega) hk
  have hreg : (22 : Byte) + BitVec.ofNat 8 k = (12 + BitVec.ofNat 8 k) + 10 := by bv_omega
  rw [Nat.zero_add] at hread
  exact hread.trans (by rw [hreg, hrx _ (by bv_omega) (by bv_omega), sent_data hd hk])

theorem loopback_exact (hf : f.WellFormed) (h31 : f.canId.getLsbD 31 = false) (slot : CanFrame)
    (hrx : Looped f w rx) : (receiveMessage slot rx).1 = ⟨f.clearPad, []⟩ := by
  obtain ⟨hid, hdlc, hpad, hover, hdata, htail⟩ := loopback hf.dlc_le slot hrx
  have hstd := hf.format.resolve_left (by rw [h31]; exact Bool.false_ne_true)
  refine Received.ext (CanFrame.ext ?_ hdlc hpad ?_) hover
  · exact hid.trans (Pelican.standard_mask hf.noError h31 hstd)
  · apply load_ext
    intro i hi
    by_cases hk : i < f.canDlc.toNat
    · exact hdata i hk
    · exact (htail i hi (by rw [hdlc]; omega)).trans (hf.tail i hi (by omega)).symm

theorem dataWrites_eq (can : CanFrame) (n i : ℕ) (index : Byte) :
    dataWrites can n i index =
      (List.range n).map fun k => (load can.data (i + k), index + BitVec.ofNat 8 k) := by
  induction n generalizing i index with
  | zero => rfl
  | succ n ih =>
    rw [dataWrites, ih, List.range_succ_eq_map, List.map_cons, List.map_map]
    congr 1
    · simp
    · apply List.map_congr_left
      intro k _
      exact Prod.ext (congrArg (load can.data) (by omega)) (Recorder.index_succ index k)

theorem header_back (can : CanFrame) (b1 b2 : Byte) (hid : can.canId = rxId b1 b2)
    (hlen : can.canDlc = b2 &&& 0x0f#8) : txHeader can = [(b1, 10), (b2, 11)] := by
  obtain ⟨hlow, hhigh, hrtr⟩ := rxId_bits b1 b2
  have hff : ∀ i < 8, (0xff#32).getLsbD i = true := by decide
  have he0 : ∀ i < 8, (0xe0#32).getLsbD i = decide (5 ≤ i) := by decide
  have he0' : ∀ i < 8, (0xe0#8).getLsbD i = decide (5 ≤ i) := by decide
  have hfirst : ((rxId b1 b2 >>> 3) &&& 0xff#32).setWidth 8 = b1 := by
    apply BitVec.eq_of_getLsbD_eq
    intro i hi
    simp only [BitVec.getLsbD_setWidth, BitVec.getLsbD_and, BitVec.getLsbD_ushiftRight, hff i hi,
      Nat.add_comm 3 i, hhigh i hi]
    grind
  have hsecond : ((rxId b1 b2 <<< 5) &&& 0xe0#32).setWidth 8 = b2 &&& 0xe0#8 := by
    apply BitVec.eq_of_getLsbD_eq
    intro i hi
    simp only [BitVec.getLsbD_setWidth, BitVec.getLsbD_and, BitVec.getLsbD_shiftLeft, he0 i hi,
      he0' i hi]
    by_cases h5 : 5 ≤ i
    · rw [hlow (i - 5) (by omega), Nat.sub_add_cancel h5]
      grind
    · simp [h5]
  unfold txHeader
  rw [hid, hlen, hfirst, hsecond, idBit_eq _ (by decide), hrtr]
  dsimp only
  rw [second_split]

theorem resend (rx : RegFile) (slot : CanFrame) (hd : (rx.regs 21 &&& 0x0f#8).toNat ≤ 8)
    {σ : Type} [Bus σ] (c : σ) :
    sendMessage (receiveMessage slot rx).1.can c =
      writes ([(rx.regs 20, 10), (rx.regs 21, 11)] ++
        (List.range (rx.regs 21 &&& 0x0f#8).toNat).map (fun k =>
          (rx.regs (22 + BitVec.ofNat 8 k), 12 + BitVec.ofNat 8 k)) ++
        [(0x01, sjaCommandReg)]) c := by
  rw [receiveMessage_split, rxHeader_eq]
  set h : RxHeader RegFile := ⟨rxId (rx.regs 20) (rx.regs 21), rx.regs 21 &&& 0x0f#8, 22, rx⟩
  obtain ⟨hid, hdlc, -⟩ := Driver.finish_header h
  have hdata : ∀ k ∈ List.range (rx.regs 21 &&& 0x0f#8).toNat,
      (load h.finish.1.can.data (0 + k), (12 : Byte) + BitVec.ofNat 8 k) =
        (rx.regs (22 + BitVec.ofNat 8 k), 12 + BitVec.ofNat 8 k) := by
    intro k hk
    have hread := RegFile.readData_data (rx.regs 21 &&& 0x0f#8).toNat 0 k 22 h.slot rx (by omega)
      (List.mem_range.mp hk)
    exact Prod.ext hread rfl
  rw [sendMessage_split, hdlc, writeData_eq _ _ _ _ _ (by rw [Nat.zero_add]; exact hd),
    header_back _ _ _ hid hdlc, dataWrites_eq]
  rw [writes_append, writes_append, ← List.map_congr_left hdata]
  rfl

end

/-- The transmit and the receive format invert each other: a standard frame comes back
as it was sent, and a received image of at most eight data bytes is written back. -/
theorem format_bijection :
    (∀ (f : CanFrame) (w rx : RegFile) (slot : CanFrame), f.WellFormed →
      f.canId.getLsbD 31 = false → Looped f w rx →
      (receiveMessage slot rx).1 = ⟨f.clearPad, []⟩) ∧
    ∀ (rx : RegFile) (slot : CanFrame), (rx.regs 21 &&& 0x0f#8).toNat ≤ 8 →
      ∀ (σ : Type) [Bus σ] (c : σ), sendMessage (receiveMessage slot rx).1.can c =
        writes ([(rx.regs 20, 10), (rx.regs 21, 11)] ++
          (List.range (rx.regs 21 &&& 0x0f#8).toNat).map (fun k =>
            (rx.regs (22 + BitVec.ofNat 8 k), 12 + BitVec.ofNat 8 k)) ++
          [(0x01, sjaCommandReg)]) c :=
  ⟨fun _ _ _ slot hf h31 hrx => loopback_exact hf h31 slot hrx,
    fun rx slot hd _ _ c => resend rx slot hd c⟩

def loopImage (w : RegFile) : RegFile := ⟨fun r => w.regs (r - 10), w.past⟩

theorem loopImage_looped (f : CanFrame) (w : RegFile) :
    Looped f w (loopImage (sendMessage f w)) := by
  intro r _ _
  show (sendMessage f w).regs (r + 10 - 10) = _
  rw [BitVec.add_sub_cancel]

theorem format_bijection_sample :
    let f : CanFrame := {CanFrame.zero with canId := 0x400007fd}
    (receiveMessage CanFrame.zero (loopImage (sendMessage f RegFile.zero))).1 = ⟨f, []⟩ ∧
    sendMessage (receiveMessage CanFrame.zero RegFile.zero).1.can RegFile.zero =
      writes [(0, 10), (0, 11), (0x01, sjaCommandReg)] RegFile.zero :=
  ⟨format_bijection.1 _ RegFile.zero _ CanFrame.zero
    ⟨by decide, by decide, fun i _ _ => load_replicate 8 i, Or.inr (by decide)⟩ (by decide)
    (loopImage_looped _ _), format_bijection.2 RegFile.zero CanFrame.zero (by decide) RegFile _⟩

/-- Identifier, format and remote bit, length and announced data bytes agree. -/
structure SameMessage (f g : CanFrame) : Prop where
  id : g.canId &&& 0xdfffffff#32 = f.canId &&& 0xdfffffff#32
  dlc : g.canDlc = f.canDlc
  data : ∀ k < f.canDlc.toNat, load g.data k = load f.data k

def Expressible (id : CanId) : Prop := id &&& 0x9ffff800#32 = 0

/-- A frame that is accepted decodes to the same message, one the format cannot express
is rejected and reaches no register. -/
structure NeverAlters (d : CanDev) (count : ℕ) (f : CanFrame) (c : Recorder) : Prop where
  accepted : (deviceWrite d count (.ok f) c).1 = count → ∀ w rx slot, Looped f w rx →
    SameMessage f (receiveMessage slot rx).1.can
  rejected : ¬ Expressible f.canId → (deviceWrite d count (.ok f) c).1 < 0 ∧
    (deviceWrite d count (.ok f) c).2.bus.written = c.written

theorem expressible_carried {id : CanId} (h : Expressible id) :
    (id &&& 0x400007ff#32) &&& 0xdfffffff#32 = id &&& 0xdfffffff#32 := by
  have hmask : (0xdfffffff#32) = (0x400007ff#32 &&& 0xdfffffff#32) ||| 0x9ffff800#32 := by decide
  have hzero : id &&& 0x9ffff800#32 = 0 := h
  rw [BitVec.and_assoc]
  conv_rhs => rw [hmask, ← and_or_and, hzero]
  exact BitVec.or_zero.symm

/-- For frames of at most eight data bytes: the driver never alters one exactly when
its identifier is a standard one, or the write is refused anyway. -/
theorem never_alters_iff (d : CanDev) (count : ℕ) (f : CanFrame) (c : Recorder)
    (hd : f.canDlc.toNat ≤ 8) : NeverAlters d count f c ↔
      (Expressible f.canId ∨ count ≠ CanFrame.size ∨ d.txCount = bufferSize) := by
  have haccepts := Driver.basiccan.deviceWrite_accepts d count f c
  constructor
  · intro h
    by_contra hno
    push Not at hno
    obtain ⟨hlong, hcount, hroom⟩ := hno
    exact absurd (haccepts.mpr ⟨hcount, hroom⟩) (not_le.mpr (h.rejected hlong).1)
  · intro h
    by_cases hno : count ≠ CanFrame.size ∨ d.txCount = bufferSize
    · obtain ⟨err, hneg, he⟩ := Driver.basiccan.deviceWrite_refused d count (.ok f) c hno
      change deviceWrite d count (.ok f) c = _ at he
      refine ⟨?_, ?_⟩
      · intro hret
        rw [he] at hret
        change err = (count : ℤ) at hret
        omega
      · intro _
        rw [he]
        exact ⟨hneg, rfl⟩
    · have hshort := h.resolve_right hno
      refine ⟨?_, fun hlong => absurd hshort hlong⟩
      intro _ w rx slot hrx
      obtain ⟨hid, hdlc, -, -, hdata, -⟩ := loopback hd slot hrx
      refine ⟨?_, hdlc, hdata⟩
      rw [hid]
      exact expressible_carried hshort

theorem never_alters_sample : NeverAlters (resetRings .probed) CanFrame.size
    {CanFrame.zero with canId := 0x40000123} (.start (fun _ => tbs) (fun _ => 0)) :=
  (never_alters_iff _ _ _ _ (by decide)).mpr (Or.inl (by decide : _ = _))

def extendedFrame : CanFrame := {CanFrame.zero with canId := 0x92345678}

theorem extended_altered :
    let wire := Recorder.start (fun _ => tbs) (fun _ => 0)
    (deviceWrite (resetRings .probed) CanFrame.size (.ok extendedFrame) wire).1 = CanFrame.size ∧
    (deviceWrite (resetRings .probed) CanFrame.size (.ok extendedFrame) wire).2.bus.written =
      [(0xcf, 10), (0x00, 11), (0x01, sjaCommandReg)] ∧
    (receiveMessage CanFrame.zero (loopImage (sendMessage extendedFrame RegFile.zero))).1.can.canId =
      0x678 ∧
    ¬ NeverAlters (resetRings .probed) CanFrame.size extendedFrame wire := by
  refine ⟨by decide +kernel, by decide +kernel, by decide +kernel, ?_⟩
  rw [never_alters_iff _ _ _ _ (by decide)]
  unfold Expressible
  decide

end CanPci.Basiccan
