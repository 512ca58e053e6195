import CanPci.Emulated.Registers

/-!
# Reset mode and the command register

The window 16..28 respects the mode register, the command register does not look at it.
-/

namespace CanPci.Emulated
open RingFifo Machine

def Event.Loud : Event → Prop
  | send _ => True
  | irq level => level = true
  | _ => False

/-- The mode register was written, and last without the reset bit. -/
def EnteredOperating (past : List Access) : Prop :=
  ∃ val, latest (fun _ a => a.written 0) past = some val ∧ val &&& 0x01 = 0

/-- Whatever the device gives out on an access of the guest, it gives out in operating
mode. -/
def SilentInReset (guest : List Access) : Prop :=
  ∀ done a later, guest = done ++ a :: later →
    (∃ e ∈ (access (run access CanState.init done).1 a).2, e.Loud) →
      (run access CanState.init done).1.mode &&& 0x01 = 0

theorem modeOf_operating (past : List Access) :
    modeOf past &&& 0x01 = 0 ↔ EnteredOperating past := by
  have hmask : ∀ val : Byte, (0x1f &&& val) &&& 0x01 = val &&& 0x01 := by decide
  unfold modeOf EnteredOperating
  cases latest (fun _ a => a.written 0) past with
  | none => simp
  | some val =>
    simp only [Option.map_some, Option.getD_some, hmask, Option.some.injEq, exists_eq_left']

theorem Effect.loud {s : CanState} {can : CanFrame} {addr : ℕ} {val : Byte}
    {r : CanState × List Event} (h : Effect s can addr val r) :
    (∃ e ∈ r.2, e.Loud) ↔ addr = 1 ∧ 0x01 &&& val ≠ 0 := by
  cases h with
  | request haddr hreq =>
    refine iff_of_true ⟨.irq true, ?_, rfl⟩ ⟨haddr, hreq⟩
    exact List.mem_append_right _ (List.mem_cons_of_mem _ List.mem_cons_self)
  | mode haddr => simp [haddr]
  | acknowledge haddr _ => simp [Event.Loud, haddr]
  | ignored _ hreq _ _ =>
    refine iff_of_false ?_ fun h => h.2 (hreq h.1)
    simp
  | mask hlow _ _ =>
    have h1 : addr ≠ 1 := by omega
    simp [Event.Loud, h1]
  | buffer hlow _ _ =>
    have h1 : addr ≠ 1 := by omega
    simp [Event.Loud, h1]

theorem access_loud (s : CanState) (a : Access) : (∃ e ∈ (access s a).2, e.Loud) ↔ a.Requests := by
  cases a with
  | read addr => simp [access, Event.Loud, Access.Requests]
  | write addr val can => exact (canMemWrite_effect s can addr val).loud

theorem run_modeOf (done : List Access) :
    (run access CanState.init done).1.mode = modeOf done.reverse := by
  have h := after_mode done.reverse
  rwa [after, List.reverse_reverse] at h

/-- The device is silent in reset mode exactly when the guest makes every request in
operating mode. -/
theorem silent_in_reset_iff (guest : List Access) : SilentInReset guest ↔
    ∀ done a later, guest = done ++ a :: later → a.Requests → EnteredOperating done.reverse := by
  unfold SilentInReset
  simp only [access_loud, run_modeOf, modeOf_operating]

/-- Right after power-on, and again after reset mode was written over a loaded frame. -/
theorem transmits_in_reset :
    let poweredOn := [Access.write 1 0x01 CanFrame.zero]
    let loaded := [Access.write 0 0x00 CanFrame.zero, .write 17 0x24 CanFrame.zero,
      .write 0 0x01 CanFrame.zero, .write 1 0x01 CanFrame.zero]
    (run access CanState.init poweredOn).2.filterMap Event.frame = [CanFrame.zero] ∧
    (run access CanState.init loaded).2.filterMap Event.frame =
      [{CanFrame.zero with canId := 0x120}] ∧
    ¬ SilentInReset poweredOn ∧ ¬ SilentInReset loaded := by
  refine ⟨by decide +kernel, by decide +kernel, fun h => ?_, fun h => ?_⟩
  · have hmode := h [] (.write 1 0x01 CanFrame.zero) [] rfl
      ((access_loud _ _).mpr ⟨rfl, by decide⟩)
    exact absurd hmode (by decide)
  · have hmode := h [Access.write 0 0x00 CanFrame.zero, .write 17 0x24 CanFrame.zero,
      .write 0 0x01 CanFrame.zero] (.write 1 0x01 CanFrame.zero) [] rfl
      ((access_loud _ _).mpr ⟨rfl, by decide⟩)
    exact absurd hmode (by decide)

end CanPci.Emulated
