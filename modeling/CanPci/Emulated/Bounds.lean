import CanPci.Emulated.Device

/-!
# Array bounds of the emulated device
-/

namespace CanPci.Emulated
open RingFifo Machine

def CanState.dlcNibble (s : CanState) : Byte := load s.trxBuff 0 &&& 0x0f#8

def ShortRequest (s : CanState) : Access → Prop
  | .write addr val _ => addr = 1 → 0x01 &&& val ≠ 0 → s.dlcNibble.toNat ≤ 8
  | .read _ => True

instance (s : CanState) : DecidablePred (ShortRequest s)
  | .write addr val _ =>
    inferInstanceAs (Decidable (addr = 1 → 0x01 &&& val ≠ 0 → s.dlcNibble.toNat ≤ 8))
  | .read _ => instDecidableTrue

theorem buff2frame_inRange (buff : Vector Byte 13) (can : CanFrame) :
    (∀ x ∈ (buff2frame buff can).2, x.InRange) ↔ (load buff 0 &&& 0x0f#8).toNat ≤ 8 := by
  have hbase : dataBase buff ≤ 5 := by
    unfold dataBase
    split <;> decide
  have hheader : ∀ x ∈ (List.range (dataBase buff)).map Index.txBuff, x.InRange := by
    intro x hx
    obtain ⟨i, hi, rfl⟩ := List.mem_map.mp hx
    have := List.mem_range.mp hi
    show i < 13
    omega
  rw [buff2frame_eq]
  dsimp only
  rw [List.forall_mem_append, fillData_inRange _ _ hbase]
  exact ⟨fun h => h.2, fun h => ⟨hheader, h⟩⟩

theorem displayMsg_inRange (msg : CanFrame) :
    (∀ x ∈ displayMsg msg, x.InRange) ↔ msg.canDlc.toNat ≤ 8 := by
  simp only [displayMsg, List.forall_mem_map, List.mem_range, Index.InRange]
  constructor
  · intro h
    by_contra hlong
    have := h 8 (by omega)
    omega
  · intro h i hi
    omega

theorem touches_inRange (xs : List Index) :
    (∀ e ∈ xs.map Event.touch, e.InRange) ↔ ∀ x ∈ xs, x.InRange := by
  simp only [List.forall_mem_map, Event.InRange]

theorem Effect.inRange {s : CanState} {can : CanFrame} {addr : ℕ} {val : Byte}
    {r : CanState × List Event} (h : Effect s can addr val r) :
    (∀ e ∈ r.2, e.InRange) ↔ (addr = 1 → 0x01 &&& val ≠ 0 → s.dlcNibble.toNat ≤ 8) := by
  have hnone : ∀ e ∈ ([] : List Event), e.InRange := fun e he => absurd he List.not_mem_nil
  cases h with
  | mode haddr => exact iff_of_true hnone fun h1 => by omega
  | request haddr hreq =>
    have hsent : ∀ can : CanFrame, ∀ e ∈ [Event.send can, .irq true], e.InRange := by
      intro can e he
      rcases List.mem_cons.mp he with rfl | he
      · trivial
      · rw [List.mem_singleton.mp he]
        trivial
    dsimp only
    rw [List.forall_mem_append, touches_inRange, List.forall_mem_append, buff2frame_inRange,
      displayMsg_inRange, buff2frame_canDlc]
    exact ⟨fun h _ _ => h.1.1, fun h => ⟨⟨h haddr hreq, h haddr hreq⟩, hsent _⟩⟩
  | mask hlow hhigh _ =>
    refine iff_of_true (fun e he => ?_) fun h1 => by omega
    rw [List.mem_singleton.mp he]
    show addr - 16 < 8
    omega
  | buffer hlow hhigh _ =>
    refine iff_of_true (fun e he => ?_) fun h1 => by omega
    rw [List.mem_singleton.mp he]
    show addr - 16 < 13
    omega
  | acknowledge haddr _ =>
    refine iff_of_true (fun e he => ?_) fun h1 => by omega
    rw [List.mem_singleton.mp he]
    trivial
  | ignored _ hreq _ _ => exact iff_of_true hnone fun h1 hval => absurd (hreq h1) hval

theorem access_inRange (s : CanState) (a : Access) :
    (∀ e ∈ (access s a).2, e.InRange) ↔ ShortRequest s a := by
  cases a with
  | read addr =>
    simp only [access, ShortRequest, iff_true]
    intro e he
    rw [List.mem_singleton.mp he]
    trivial
  | write addr val can => exact (canMemWrite_effect s can addr val).inRange

/-- Over every sequence of guest accesses all array indices are in range exactly when
every transmission is requested for at most eight data bytes. -/
theorem accesses_inRange_iff (s : CanState) (accesses : List Access) :
    (∀ e ∈ (run access s accesses).2, e.InRange) ↔ Along access ShortRequest s accesses := by
  rw [events_iff_along]
  exact along_congr access_inRange s accesses

/-- The guest leaves reset mode, writes the frame information 0x0f and requests the
transmission: `data[8]` to `data[14]` are stored to. -/
theorem long_request_overruns :
    let guest := [Access.write 0 0x00 CanFrame.zero, .write 16 0x0f CanFrame.zero,
      .write 1 0x01 CanFrame.zero]
    .touch (.data 14) ∈ (run access CanState.init guest).2 ∧
    .touch (.txBuff 17) ∈ (run access CanState.init guest).2 ∧
    ¬ ∀ e ∈ (run access CanState.init guest).2, e.InRange := by
  have hdata : Event.touch (.data 14) ∈ (run access CanState.init
      [Access.write 0 0x00 CanFrame.zero, .write 16 0x0f CanFrame.zero,
        .write 1 0x01 CanFrame.zero]).2 := by decide +kernel
  refine ⟨hdata, by decide +kernel, fun h => ?_⟩
  exact absurd (h _ hdata) (by unfold Event.InRange Index.InRange; decide)

end CanPci.Emulated
