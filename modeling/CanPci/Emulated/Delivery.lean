import CanPci.Emulated.TestDriver
import CanPci.TxConfined
import CanPci.PelicanFormat

/-!
# From the test driver's `device_write` to the backend

The driver encodes a frame into register writes, the device collects them in
`trx_buff` and decodes them into a local frame that it does not clear first.
-/

namespace CanPci.Emulated
open RingFifo BitField Machine

def Wire.sent (w : Wire) : List CanFrame := w.events.filterMap Event.frame

/-- In operating mode the transmit buffer holds the register window 16..28. -/
structure Mirrors (w : Wire) (r : RegFile) : Prop where
  mode : w.dev.mode &&& 0x01 = 0
  buff : ∀ k < 13, load w.dev.trxBuff k = r.regs (16 + BitVec.ofNat 8 k)

theorem canMemWrite_window {s : CanState} (hs : s.mode &&& 0x01 = 0) (can : CanFrame) {addr : ℕ}
    (hlow : 16 ≤ addr) (hhigh : addr ≤ 28) (val : Byte) : canMemWrite s can addr val =
      ({s with trxBuff := store s.trxBuff (addr - 16) val}, [.touch (.trxBuff (addr - 16))]) := by
  have hsize : ¬ pciMemSize < addr := by
    unfold pciMemSize
    omega
  rw [canMemWrite, if_neg hsize, if_neg (by omega), if_neg (by omega), if_pos ⟨hlow, hhigh⟩,
    if_neg (not_not.mpr hs)]

section
variable {w : Wire} {r : RegFile}

theorem Mirrors.write (h : Mirrors w r) (v : Byte) {reg : Byte} (hlow : 16 ≤ reg.toNat)
    (hhigh : reg.toNat ≤ 28) : Mirrors (iowrite8 v reg w) (iowrite8 v reg r) ∧
      (iowrite8 v reg w).sent = w.sent ∧ (iowrite8 v reg w).dev.status = w.dev.status := by
  have hdev := canMemWrite_window h.mode w.frame hlow hhigh v
  rw [Wire.iowrite8_eq, Wire.access, access, hdev]
  refine ⟨⟨h.mode, ?_⟩, ?_, rfl⟩
  · intro k hk
    rw [RegFile.iowrite8_regs]
    by_cases hkr : reg.toNat - 16 = k
    · have hreg : (16 : Byte) + BitVec.ofNat 8 k = reg := by bv_omega
      rw [hreg, Function.update_self, ← hkr]
      exact load_store_self _ _ (by omega)
    · have hreg : (16 : Byte) + BitVec.ofNat 8 k ≠ reg := by bv_omega
      rw [Function.update_of_ne hreg, ← h.buff k hk]
      exact load_store_ne _ _ hkr
  · simp [Wire.sent, Event.frame]

theorem Mirrors.writes (h : Mirrors w r) {ws : List (Byte × Byte)}
    (hws : ∀ p ∈ ws, 16 ≤ p.2.toNat ∧ p.2.toNat ≤ 28) :
    Mirrors (CanPci.writes ws w) (CanPci.writes ws r) ∧
      (CanPci.writes ws w).sent = w.sent ∧ (CanPci.writes ws w).frame = w.frame ∧
      (CanPci.writes ws w).dev.status = w.dev.status := by
  induction ws generalizing w r with
  | nil => exact ⟨h, rfl, rfl, rfl⟩
  | cons p ws ih =>
    obtain ⟨hlow, hhigh⟩ := hws p List.mem_cons_self
    obtain ⟨hstep, hsent, hstatus⟩ := h.write p.1 hlow hhigh
    obtain ⟨hm, hs, hf, ht⟩ := ih hstep fun q hq => hws q (List.mem_cons_of_mem _ hq)
    exact ⟨hm, hs.trans hsent, hf, ht.trans hstatus⟩

end

/-- The identifier word the backend gets; `held` is what the local frame held. -/
def deliveredId (id held : CanId) : CanId :=
  (if id.getLsbD 30 then 1#32 <<< 30 else held) |||
    (id &&& if id.getLsbD 31 then 0x9fffffff#32 else 0x7fb#32)

section
variable {f : CanFrame} {r : RegFile} {buff : Vector Byte 13}

theorem slice_promote (id : CanId) (k : ℕ) :
    promote (((id >>> k) &&& 0xff#32).setWidth 8) <<< k = id &&& (0xff#32 <<< k) := by
  have hff : ∀ i < 32, (0xff#32).getLsbD i = decide (i < 8) := by decide
  apply BitVec.eq_of_getLsbD_eq
  intro i hi
  simp only [promote, BitVec.getLsbD_and, BitVec.getLsbD_shiftLeft, BitVec.getLsbD_setWidth,
    BitVec.getLsbD_ushiftRight, hff (i - k) (by omega)]
  grind

theorem low_promote (id m : CanId) (k : ℕ) (hm : ∀ j, 8 ≤ j + k → m.getLsbD j = false) :
    promote (((id &&& m) <<< k).setWidth 8) >>> k = id &&& m := by
  apply BitVec.eq_of_getLsbD_eq
  intro i hi
  simp only [promote, BitVec.getLsbD_and, BitVec.getLsbD_shiftLeft, BitVec.getLsbD_setWidth,
    BitVec.getLsbD_ushiftRight]
  have := hm i
  grind

structure Sent (f : CanFrame) (r : RegFile) (buff : Vector Byte 13) : Prop where
  wellFormed : f.WellFormed
  regs : ∀ k < 13, load buff k = (Pelican.sendMessage f r).regs (16 + BitVec.ofNat 8 k)

theorem Sent.header (h : Sent f r buff) {k : ℕ} (hk : 16 + k < (Pelican.txDataReg f).toNat) :
    load buff k = (CanPci.writes (Pelican.txHeader f) r).regs (16 + BitVec.ofNat 8 k) := by
  have hreg : (Pelican.txDataReg f).toNat ≤ 21 := by
    rcases Pelican.txDataReg_cases f with hc | hc <;> rw [hc] <;> decide
  rw [h.regs k (by omega)]
  refine Pelican.sent_header h.wellFormed.dlc_le ?_ ?_
  · bv_omega
  · unfold sjaCommandReg
    bv_omega

theorem Sent.info (h : Sent f r buff) : (load buff 0 &&& 0x40#8 ≠ 0 ↔ f.canId.getLsbD 30 = true) ∧
    (load buff 0 &&& 0x80#8 ≠ 0 ↔ f.canId.getLsbD 31 = true) ∧
    load buff 0 &&& 0x0f#8 = f.canDlc := by
  have h30 := idBit_eq f.canId (show 30 < 32 by decide)
  have h31 := idBit_eq f.canId (show 31 < 32 by decide)
  have hfields := Pelican.info_fields f.canDlc h.wellFormed.dlc_le (f.canId.getLsbD 30)
    (f.canId.getLsbD 31)
  have hfirst := h.header (k := 0) (by
    rcases Pelican.txDataReg_cases f with hc | hc <;> rw [hc] <;> decide)
  rw [hfirst]
  unfold Pelican.txHeader
  rw [h30, h31]
  cases hx : f.canId.getLsbD 31 with
  | true =>
    rw [hx] at hfields
    exact hfields
  | false =>
    rw [hx] at hfields
    exact hfields

theorem Sent.base (h : Sent f r buff) :
    (Pelican.txDataReg f).toNat = 16 + dataBase buff := by
  unfold Pelican.txDataReg dataBase
  simp only [h.info.2.1, idBit_eq f.canId (show 31 < 32 by decide)]
  split <;> rfl

theorem Sent.decodedId (h : Sent f r buff) (held : CanId) :
    Emulated.decodedId buff held = deliveredId f.canId held := by
  obtain ⟨hrtr, heff, -⟩ := h.info
  have hreg := h.base
  have h31 := idBit_eq f.canId (show 31 < 32 by decide)
  have hlow : ∀ (m : CanId) (n k : ℕ), m.toNat < 2 ^ n → n + k ≤ 8 →
      ∀ j, 8 ≤ j + k → m.getLsbD j = false :=
    fun m n k hm hn j hj => high_bit_false hm (by omega)
  unfold Emulated.decodedId deliveredId
  simp only [hrtr, heff]
  cases hx : f.canId.getLsbD 31 with
  | true =>
    have hstart : Pelican.txDataReg f = 21 := by simp only [Pelican.txDataReg, h31, hx, if_true]
    rw [hstart] at hreg
    have hhead := fun k (hk : 16 + k < 21) => h.header (k := k) (by rw [hstart]; exact hk)
    have hbit : (1#32 <<< 31) = f.canId &&& (1#32 <<< 31) := by rw [and_bit, if_pos hx]
    simp only [Pelican.txHeader, h31, hx, if_true] at hhead
    have h1 : load buff 1 = ((f.canId >>> 21) &&& 0xff#32).setWidth 8 := hhead 1 (by decide)
    have h2 : load buff 2 = ((f.canId >>> 13) &&& 0xff#32).setWidth 8 := hhead 2 (by decide)
    have h3 : load buff 3 = ((f.canId >>> 5) &&& 0xff#32).setWidth 8 := hhead 3 (by decide)
    have h4 : load buff 4 = ((f.canId &&& 0x1f#32) <<< 0x03).setWidth 8 := hhead 4 (by decide)
    simp only [if_true, h1, h2, h3, h4]
    rw [slice_promote, slice_promote, slice_promote,
      low_promote _ _ 3 (hlow _ 5 3 (by decide) (by decide)), hbit]
    simp only [BitVec.or_assoc, and_or_and]
    congr 2
  | false =>
    have hstart : Pelican.txDataReg f = 19 := by
      simp only [Pelican.txDataReg, h31, hx, Bool.false_eq_true, if_false]
    have hhead := fun k (hk : 16 + k < 19) => h.header (k := k) (by rw [hstart]; exact hk)
    simp only [Pelican.txHeader, h31, hx, Bool.false_eq_true, if_false] at hhead
    have h1 : load buff 1 = ((f.canId >>> 3) &&& 0xff#32).setWidth 8 := hhead 1 (by decide)
    have h2 : load buff 2 = ((f.canId &&& 0x03#32) <<< 0x05).setWidth 8 := hhead 2 (by decide)
    simp only [Bool.false_eq_true, if_false, h1, h2]
    rw [slice_promote, low_promote _ _ 5 (hlow _ 2 5 (by decide) (by decide))]
    simp only [BitVec.or_assoc, and_or_and]
    congr 2

/-- Up to its padding the frame for the backend differs from the sent one in the
identifier word alone. -/
theorem Sent.decoded (h : Sent f r buff) (can : CanFrame) : (buff2frame buff can).1.clearPad =
    {f.clearPad with canId := deliveredId f.canId can.canId} := by
  have hd := h.wellFormed.dlc_le
  have hlen := h.info.2.2
  have hreg := h.base
  refine CanFrame.ext ((buff2frame_canId buff can).trans (h.decodedId can.canId))
    ((buff2frame_canDlc buff can).trans hlen) rfl ?_
  apply load_ext
  intro j hj
  refine (buff2frame_data buff can hj).trans ?_
  rw [hlen]
  by_cases hk : j < f.canDlc.toNat
  · have hbase : dataBase buff ≤ 5 := by
      unfold dataBase
      split <;> decide
    have hloc : (16 : Byte) + BitVec.ofNat 8 (dataBase buff + j) =
        Pelican.txDataReg f + BitVec.ofNat 8 j := by bv_omega
    rw [if_pos hk, h.regs _ (by omega), hloc]
    exact Pelican.sent_data hd hk
  · rw [if_neg hk]
    exact (h.wellFormed.tail j hj (by omega)).symm

end

/-- The word gets through: a remote frame, or the local frame held no bit outside it;
and an extended word, or bit 2 clear, or bit 2 made up for by what was held. -/
def Carried (f : CanFrame) (held : CanId) : Prop :=
  (f.canId.getLsbD 30 = true ∨ held &&& ~~~f.canId = 0) ∧
  (f.canId.getLsbD 31 = true ∨ f.canId.getLsbD 2 = false ∨
    (f.canId.getLsbD 30 = false ∧ held.getLsbD 2 = true))

instance decidableCarried (f : CanFrame) (held : CanId) : Decidable (Carried f held) :=
  instDecidableAnd

theorem deliveredId_eq_iff {f : CanFrame} (hf : f.WellFormed) (held : CanId) :
    deliveredId f.canId held = f.canId ↔ Carried f held := by
  have hone : ∀ i < 32, (1#32 <<< 30).getLsbD i = true ↔ i = 30 := by
    intro i hi
    rw [one_shift_bit 30 i hi, decide_eq_true_iff]
  have hext : ∀ i < 32, (0x9fffffff#32).getLsbD i = false ↔ i = 29 ∨ i = 30 := by decide
  have hstd : ∀ i < 32, (0x7fb#32).getLsbD i = false ↔ i = 2 ∨ 11 ≤ i := by decide
  have h29 : ∀ i, f.canId.getLsbD i = true → i ≠ 29 := by
    rintro i hi rfl
    rw [hf.noError] at hi
    cases hi
  unfold deliveredId Carried
  rw [or_and_eq_iff, and_not_eq_zero]
  cases h31 : f.canId.getLsbD 31 with
  | true =>
    cases h30 : f.canId.getLsbD 30 with
    | true =>
      simp only [if_true, true_or, and_true, iff_true]
      refine ⟨fun i hi h => ?_, fun i hi hx hm => ?_⟩
      · rw [(hone i hi).mp h, h30]
      · exact (hone i hi).mpr (((hext i hi).mp hm).resolve_left (h29 i hx))
    | false =>
      simp only [if_true, Bool.false_eq_true, if_false, false_or, true_or, and_true,
        and_iff_left_iff_imp]
      intro _ i hi hx hm
      rcases (hext i hi).mp hm with rfl | rfl
      · exact absurd rfl (h29 _ hx)
      · rw [h30] at hx
        cases hx
  | false =>
    have hshort := hf.format.resolve_left (by rw [h31]; exact Bool.false_ne_true)
    have hmask := Pelican.standard_mask hf.noError h31 hshort
    have hkeep : ∀ i < 32, (0x400007ff#32).getLsbD i = true → 11 ≤ i → i = 30 := by decide
    have hhigh : ∀ i < 32, f.canId.getLsbD i = true → 11 ≤ i → i = 30 := by
      intro i hi hx h11
      rw [← hmask, BitVec.getLsbD_and, Bool.and_eq_true] at hx
      exact hkeep i hi hx.2 h11
    cases h30 : f.canId.getLsbD 30 with
    | true =>
      simp only [if_true, Bool.false_eq_true, if_false, true_or, false_or, true_and,
        Bool.true_eq_false, false_and, or_false]
      constructor
      · rintro ⟨-, hcover⟩
        by_contra h2
        have := (hone 2 (by decide)).mp (hcover 2 (by decide) (by simpa using h2) (by decide))
        omega
      · intro h2
        refine ⟨fun i hi h => ?_, fun i hi hx hm => ?_⟩
        · rw [(hone i hi).mp h, h30]
        · rcases (hstd i hi).mp hm with rfl | h11
          · rw [h2] at hx
            cases hx
          · exact (hone i hi).mpr (hhigh i hi hx h11)
    | false =>
      simp only [Bool.false_eq_true, if_false, false_or, true_and]
      refine and_congr_right fun _ => ?_
      constructor
      · intro hcover
        by_cases h2 : f.canId.getLsbD 2 = false
        · exact Or.inl h2
        · exact Or.inr (hcover 2 (by decide) (by simpa using h2) (by decide))
      · intro h i hi hx hm
        rcases (hstd i hi).mp hm with rfl | h11
        · exact h.resolve_left (by rw [hx]; exact Bool.noConfusion)
        · rw [hhigh i hi hx h11, h30] at hx
          cases hx

namespace TestDriver

/-- A `device_write` of a frame, or the interrupt handler; `held` is what the local frame
of `can_mem_write` holds meanwhile. -/
inductive TestOp
  | write (f held : CanFrame)
  | irq (held : CanFrame)

def TestOp.written : TestOp → Option (CanFrame × CanFrame)
  | write f held => some (f, held)
  | irq _ => none

def testStep (canDevSize : ℕ) (past : ℕ → Byte) (s : TestDev × CanState) :
    TestOp → (TestDev × CanState) × List Event
  | .write f held =>
    let r := deviceWrite canDevSize s.1 CanFrame.size (.ok f) (⟨s.2, held, past, []⟩ : Wire)
    ((r.2.1, r.2.2.dev), r.2.2.events)
  | .irq held =>
    let w := irqHandler (⟨s.2, held, past, []⟩ : Wire)
    ((s.1, w.dev), w.events)

def payload (e : Event) : Option CanFrame := e.frame.map CanFrame.clearPad

def delivered (p : CanFrame × CanFrame) : CanFrame :=
  {p.1.clearPad with canId := deliveredId p.1.canId p.2.canId}

def window (s : CanState) : RegFile := ⟨fun reg => load s.trxBuff (reg.toNat - 16), fun _ => 0⟩

theorem window_mirrors {w : Wire} (hw : Operating w.dev) : Mirrors w (window w.dev) := by
  refine ⟨hw.mode, fun k hk => ?_⟩
  have hk' : ((16 : Byte) + BitVec.ofNat 8 k).toNat - 16 = k := by bv_omega
  simp only [window, hk']

theorem canMemWrite_request (s : CanState) (can : CanFrame) : canMemWrite s can 1 0x01 =
    ({s with txBuff := s.trxBuff, irq := true},
      ((buff2frame s.trxBuff can).2 ++ displayMsg (buff2frame s.trxBuff can).1).map .touch ++
        [.send (buff2frame s.trxBuff can).1, .irq true]) := rfl

theorem filterMap_payload (es : List Event) :
    es.filterMap payload = (es.filterMap Event.frame).map CanFrame.clearPad := by
  rw [List.map_filterMap]
  rfl

theorem sent_payload (w : Wire) : w.events.filterMap payload = w.sent.map CanFrame.clearPad :=
  filterMap_payload w.events

theorem image_window (f : CanFrame) (hd : f.canDlc.toNat ≤ 8) :
    ∀ p ∈ Driver.pelican.txHeader f ++
      dataWrites f f.canDlc.toNat 0 (Driver.pelican.txDataReg f),
      16 ≤ p.2.toNat ∧ p.2.toNat ≤ 28 := by
  intro p hp
  rcases List.mem_append.mp hp with hp | hp
  · exact Driver.pelican.txHeader_window f p hp
  · exact Driver.pelican.dataWrites_window f _ hd p hp

theorem sendMessage_wire {w : Wire} (hw : Operating w.dev) {f : CanFrame} (hf : f.WellFormed) :
    Operating (Pelican.sendMessage f w).dev ∧
    (Pelican.sendMessage f w).events.filterMap payload =
      w.events.filterMap payload ++ [delivered (f, w.frame)] := by
  set ws := Driver.pelican.txHeader f ++
    dataWrites f f.canDlc.toNat 0 (Driver.pelican.txDataReg f) with hws
  have himage : ∀ {σ : Type} [Bus σ] (c : σ),
      Pelican.sendMessage f c = iowrite8 0x01 sjaCommandReg (writes ws c) := by
    intro σ _ c
    have h := Driver.pelican.sendMessage_eq f c hf.dlc_le
    rw [Driver.txImage, ← hws, writes_append] at h
    exact h
  obtain ⟨hm, hsent, hframe, hstatus⟩ :=
    (window_mirrors hw).writes (image_window f hf.dlc_le)
  rw [← hws] at hm hsent hframe hstatus
  have hbuff : Sent f (window w.dev) (writes ws w).dev.trxBuff := by
    refine ⟨hf, fun k hk => ?_⟩
    have hcmd : (16 : Byte) + BitVec.ofNat 8 k ≠ sjaCommandReg := by
      unfold sjaCommandReg
      bv_omega
    rw [himage, RegFile.iowrite8_regs, Function.update_of_ne hcmd]
    exact hm.buff k hk
  have hcmd : sjaCommandReg.toNat = 1 := rfl
  rw [himage, Wire.iowrite8_eq, hcmd, Wire.access, access, canMemWrite_request]
  refine ⟨⟨hm.mode, hstatus.trans hw.status⟩, ?_⟩
  rw [List.filterMap_append, List.filterMap_append, sent_payload, filterMap_payload (List.map _ _),
    touch_frame, hsent, ← sent_payload, hframe, List.map_nil, List.nil_append]
  congr 1
  exact congrArg (fun g => [g]) (hbuff.decoded w.frame)

section
variable {canDevSize : ℕ} {past : ℕ → Byte}

def Ready (s : TestDev × CanState) : Prop := Idle s.1 ∧ Operating s.2

theorem deviceWrite_wire (hsize : 16 ≤ bufferSize * canDevSize)
    (hrange : bufferSize * canDevSize < sizeRange) {d : TestDev} (hd : Idle d) {w : Wire}
    (hw : Operating w.dev) (f : CanFrame) :
    ∃ d', Idle d' ∧ deviceWrite canDevSize d CanFrame.size (.ok f) w =
      (0, d', Pelican.sendMessage f (w.access (.read 2))) := by
  have hroom : ¬ (bufferSize * canDevSize + sizeRange - d.txCount) % sizeRange < CanFrame.size := by
    rw [hd.count, Nat.sub_zero, Nat.add_mod_right, Nat.mod_eq_of_lt hrange]
    exact not_lt.mpr hsize
  have hstatus : canMemRead w.dev sjaStatusReg.toNat &&& tbs = tbs := by
    show w.dev.status &&& tbs = tbs
    rw [hw.status]
    decide
  have hslot : load (store d.txBuf d.txIn f) d.txIn = f := load_store_self _ _ hd.tail
  refine ⟨{d with txBuf := store d.txBuf d.txIn f}, ⟨hd.count, hd.tail⟩, ?_⟩
  rw [deviceWrite, if_neg hroom, if_neg (not_not.mpr rfl)]
  dsimp only [CopyIn.staged]
  rw [Wire.ioread8_eq]
  dsimp only
  rw [if_neg (not_not.mpr hstatus), hslot]
  rfl

theorem irqHandler_wire {w : Wire} (hw : Operating w.dev) :
    Operating (irqHandler w).dev ∧
      (irqHandler w).events.filterMap payload = w.events.filterMap payload := by
  have hirq : irqHandler w =
      {w with dev := {w.dev with irq := false}, events := w.events ++ [.irq false]} := rfl
  rw [hirq]
  refine ⟨⟨hw.mode, hw.status⟩, ?_⟩
  rw [List.filterMap_append]
  exact List.append_nil _

theorem testStep_ready (hsize : 16 ≤ bufferSize * canDevSize)
    (hrange : bufferSize * canDevSize < sizeRange) {s : TestDev × CanState} (hs : Ready s)
    {op : TestOp} (hop : ∀ p, op.written = some p → p.1.WellFormed) :
    Ready (testStep canDevSize past s op).1 ∧
      (testStep canDevSize past s op).2.filterMap payload = (op.written.map delivered).toList := by
  cases op with
  | write f held =>
    obtain ⟨d', hd', he⟩ := deviceWrite_wire hsize hrange hs.1 (w := ⟨s.2, held, past, []⟩) hs.2 f
    obtain ⟨hop', hev⟩ := sendMessage_wire (w := Wire.access ⟨s.2, held, past, []⟩ (.read 2)) hs.2
      (hop (f, held) rfl)
    simp only [testStep, he]
    exact ⟨⟨hd', hop'⟩, hev⟩
  | irq held =>
    obtain ⟨hop', hev⟩ := irqHandler_wire (w := ⟨s.2, held, past, []⟩) hs.2
    exact ⟨⟨hs.1, hop'⟩, hev⟩

end
end TestDriver

open TestDriver

/-- From any state the guest can bring the device into, `device_open` succeeds; the
well-formed frames written afterwards, with interrupt handler runs between the writes,
reach the backend unaltered, each once and in order, exactly when every one is carried. -/
theorem delivered_iff (canDevSize : ℕ) (hsize : 16 ≤ bufferSize * canDevSize)
    (hrange : bufferSize * canDevSize < sizeRange) (d : TestDev) (hd : Idle d)
    (accesses : List Access) (held : CanFrame) (past : ℕ → Byte) (ops : List TestOp)
    (hwf : ∀ p ∈ ops.filterMap TestOp.written, p.1.WellFormed) :
    let opened := deviceOpen d (⟨(run access CanState.init accesses).1, held, past, []⟩ : Wire)
    opened.1 = 0 ∧
    ((run (testStep canDevSize past) (opened.2.1, opened.2.2.dev) ops).2.filterMap payload =
        (ops.filterMap TestOp.written).map (fun p => p.1.clearPad) ↔
      ∀ p ∈ ops.filterMap TestOp.written, Carried p.1 p.2.canId) := by
  obtain ⟨hret, hidle, hop⟩ := deviceOpen_operating hd
    (w := ⟨(run access CanState.init accesses).1, held, past, []⟩) (run_status _ accesses)
  refine ⟨hret, ?_⟩
  have hready : ∀ op ∈ ops, ∀ p, op.written = some p → p.1.WellFormed :=
    fun op hmem p hp => hwf p (List.mem_filterMap.mpr ⟨op, hmem, hp⟩)
  have hstep : ∀ s op, Ready s → (∀ p, op.written = some p → p.1.WellFormed) →
      Ready (testStep canDevSize past s op).1 ∧
        (testStep canDevSize past s op).2.filterMap payload = (op.written.map delivered).toList :=
    fun s op hs hok => testStep_ready hsize hrange hs hok
  rw [filterMap_events hstep hready ⟨hidle, hop⟩, ← List.filterMap_eq_flatMap_toList,
    ← List.map_filterMap, List.map_inj_left]
  refine forall₂_congr fun p hp => ?_
  rw [← deliveredId_eq_iff (hwf p hp)]
  constructor
  · exact fun h => congrArg CanFrame.canId h
  · intro h
    exact CanFrame.ext h rfl rfl rfl

def TestDriver.TestDev.probed : TestDev := ⟨Vector.replicate bufferSize CanFrame.zero, 0, 0, 0⟩

/-- The frames of the test program's kind, and what the backend gets of them when the
local frame held zeros, `0x20000000` and zeros: the standard identifiers 0x123 and 0x124
and an extended one. -/
def sampleOps : List TestOp :=
  [.write {CanFrame.zero with canId := 0x123} CanFrame.zero,
    .write {CanFrame.zero with canId := 0x92345678} {CanFrame.zero with canId := 0x20000000},
    .write {CanFrame.zero with canId := 0x124} CanFrame.zero]

def sampleStart : TestDev × CanState :=
  let opened := deviceOpen TestDev.probed
    (⟨CanState.init, CanFrame.zero, fun _ => 0, []⟩ : Wire)
  (opened.2.1, opened.2.2.dev)

theorem delivery_altered :
    (∀ p ∈ sampleOps.filterMap TestOp.written, p.1.WellFormed) ∧
    ((run (testStep 200 fun _ => 0) sampleStart sampleOps).2.filterMap payload).map
      CanFrame.canId = [0x123, 0xb2345678, 0x120] ∧
    (run (testStep 200 fun _ => 0) sampleStart sampleOps).2.filterMap payload ≠
      (sampleOps.filterMap TestOp.written).map fun p => p.1.clearPad := by
  have hids : ((run (testStep 200 fun _ => 0) sampleStart sampleOps).2.filterMap payload).map
      CanFrame.canId = [0x123, 0xb2345678, 0x120] := by decide +kernel
  refine ⟨by decide, hids, fun hsame => ?_⟩
  rw [hsame] at hids
  exact absurd hids (by decide)

/-- A message that the guest sent before the open. -/
def sampleBefore : List Access :=
  [.write 16 0x82 .zero, .write 17 0x55 .zero, .write 21 0xaa .zero, .write 1 0x01 .zero, .read 3]

/-- Three frames with data, and the interrupts in between. -/
def sampleSending : List TestOp :=
  [.write (loaded 0x123) .zero, .irq .zero,
    .write {loaded 7 with canId := 0x92345678} {CanFrame.zero with canId := 0x80000000},
    .irq .zero, .write (loaded 0x5a0) {CanFrame.zero with canId := 0x120}]

theorem delivered_sample :
    let opened := deviceOpen TestDev.probed
      (⟨(run access CanState.init sampleBefore).1, CanFrame.zero, fun _ => 0, []⟩ : Wire)
    opened.1 = 0 ∧
    (run (testStep 200 fun _ => 0) (opened.2.1, opened.2.2.dev) sampleSending).2.filterMap payload =
      [loaded 0x123, {loaded 7 with canId := 0x92345678}, loaded 0x5a0] := by
  intro opened
  obtain ⟨hret, hiff⟩ := delivered_iff 200 (by decide) (by decide) TestDev.probed ⟨rfl, by decide⟩
    sampleBefore CanFrame.zero (fun _ => 0) sampleSending (by decide)
  exact ⟨hret, hiff.mpr (by decide)⟩

end CanPci.Emulated
