import CanPci.TxConfined
import CanPci.Lib.BitField

/-!
# The reset request bit of the mode register

In BasicCAN mode the same register is called the control register. The controller obeys
writes to it and changes it on no other access.
-/

namespace CanPci
open RingFifo

class ModeReg (σ : Type) extends Bus σ where
  inReset : σ → Bool
  mode_read : ∀ c, (ioread8 sjaModeReg c).1.getLsbD 0 = inReset c
  read_reset : ∀ reg c, inReset (ioread8 reg c).2 = inReset c
  write_reset : ∀ v reg c, inReset (iowrite8 v reg c) =
    if reg = sjaModeReg then v.getLsbD 0 else inReset c

export ModeReg (inReset)

theorem resetBit_iff (temp : Byte) : temp &&& resetBit = resetBit ↔ temp.getLsbD 0 = true := by
  constructor
  · intro h
    have hbit := congrArg (BitVec.getLsbD · 0) h
    simpa [resetBit] using hbit
  · intro h
    apply BitVec.eq_of_getLsbD_eq
    intro i hi
    rw [resetBit, BitVec.getLsbD_and, BitField.one_shift_bit _ _ hi]
    by_cases h0 : i = 0
    · rw [h0, h]
      rfl
    · simp [h0]

section
variable {σ : Type} [Bus σ]

/-- What the two loops have in common. -/
def retry (again : Byte → Prop) [DecidablePred again] (next : Byte → Byte) :
    ℕ → Byte → σ → Byte × σ
  | 0, temp, c => (temp, c)
  | n + 1, temp, c =>
    if again temp then
      let (temp, c) := ioread8 sjaModeReg (iowrite8 (next temp) sjaModeReg c)
      retry again next n temp c
    else (temp, c)

theorem enterReset_retry (n : ℕ) (temp : Byte) (c : σ) : enterReset n temp c =
    retry (fun temp => temp &&& resetBit ≠ resetBit) (fun temp => temp ||| resetBit) n temp c := by
  induction n generalizing temp c with
  | zero => rfl
  | succ n ih =>
    rw [enterReset, retry]
    split
    · exact ih _ _
    · rfl

theorem leaveReset_retry (n : ℕ) (temp : Byte) (c : σ) : leaveReset n temp c =
    retry (fun temp => temp &&& resetBit = resetBit) (fun temp => temp &&& ~~~resetBit) n temp c := by
  induction n generalizing temp c with
  | zero => rfl
  | succ n ih =>
    rw [leaveReset, retry]
    split
    · exact ih _ _
    · rfl

end

variable {σ : Type} [ModeReg σ]

theorem mode_write (v : Byte) (c : σ) : inReset (iowrite8 v sjaModeReg c) = v.getLsbD 0 := by
  rw [ModeReg.write_reset, if_pos rfl]

theorem other_write (v : Byte) {reg : Byte} (hreg : reg ≠ sjaModeReg) (c : σ) :
    inReset (iowrite8 v reg c) = inReset c := by
  rw [ModeReg.write_reset, if_neg hreg]

theorem retry_obeyed {again : Byte → Prop} [DecidablePred again] {next : Byte → Byte} {b : Bool}
    (hagain : ∀ temp, again temp ↔ temp.getLsbD 0 ≠ b) (hnext : ∀ temp, (next temp).getLsbD 0 = b)
    (n : ℕ) {temp : Byte} {c : σ} (h : temp.getLsbD 0 = inReset c) :
    (retry again next (n + 1) temp c).1.getLsbD 0 = b ∧
    inReset (retry again next (n + 1) temp c).2 = b := by
  have hstays : ∀ n (temp : Byte) (c : σ), temp.getLsbD 0 = b → inReset c = b →
      (retry again next n temp c).1.getLsbD 0 = b ∧ inReset (retry again next n temp c).2 = b := by
    intro n temp c htemp hc
    cases n with
    | zero => exact ⟨htemp, hc⟩
    | succ n =>
      rw [retry, if_neg fun ha => (hagain temp).mp ha htemp]
      exact ⟨htemp, hc⟩
  by_cases hb : temp.getLsbD 0 = b
  · exact hstays _ _ _ hb (h.symm.trans hb)
  · rw [retry, if_pos ((hagain temp).mpr hb)]
    have hset : inReset (iowrite8 (next temp) sjaModeReg c) = b := by
      rw [mode_write, hnext]
    exact hstays _ _ _ ((ModeReg.mode_read _).trans hset) ((ModeReg.read_reset _ _).trans hset)

theorem enterReset_obeyed (n : ℕ) {temp : Byte} {c : σ} (h : temp.getLsbD 0 = inReset c) :
    (enterReset (n + 1) temp c).1.getLsbD 0 = true ∧
    inReset (enterReset (n + 1) temp c).2 = true := by
  rw [enterReset_retry]
  refine retry_obeyed (fun temp => (resetBit_iff temp).not) (fun temp => ?_) n h
  rw [BitVec.getLsbD_or]
  exact Bool.or_true _

theorem leaveReset_obeyed (n : ℕ) {temp : Byte} {c : σ} (h : temp.getLsbD 0 = inReset c) :
    (leaveReset (n + 1) temp c).1.getLsbD 0 = false ∧
    inReset (leaveReset (n + 1) temp c).2 = false := by
  rw [leaveReset_retry]
  refine retry_obeyed (fun temp => ?_) (fun temp => ?_) n h
  · rw [resetBit_iff, ne_eq, Bool.not_eq_false]
  · rw [BitVec.getLsbD_and]
    exact Bool.and_false _

namespace Driver

/-- Whatever the configuration in between does, the second loop leaves reset mode. -/
theorem deviceOpen_obeyed (drv : Driver) (d : CanDev) (c : σ) :
    (drv.deviceOpen d c).ret = 0 ∧ (drv.deviceOpen d c).dev = resetRings d ∧
    inReset (drv.deviceOpen d c).bus = false := by
  have hmode : ∀ c : σ, (ioread8 sjaModeReg c).1.getLsbD 0 = inReset (ioread8 sjaModeReg c).2 := by
    intro c
    rw [ModeReg.mode_read, ModeReg.read_reset]
  obtain ⟨hin, hbus⟩ := enterReset_obeyed 2 (hmode c)
  obtain ⟨hout, hleft⟩ := leaveReset_obeyed 2 (hmode (drv.configure
    (enterReset 3 (ioread8 sjaModeReg c).1 (ioread8 sjaModeReg c).2).2))
  rw [drv.deviceOpen_eq, openWith]
  dsimp only
  rw [if_neg (not_not.mpr ((resetBit_iff _).mpr hin)),
    if_neg fun hb => absurd ((resetBit_iff _).mp hb) (by rw [hout]; decide)]
  exact ⟨rfl, rfl, hleft⟩

theorem deviceRelease_reset (c : σ) : inReset (deviceRelease c).2 = true := by
  rw [deviceRelease, mode_write]
  rfl

theorem window_not_mode (drv : Driver) : ¬ drv.InTxWindow sjaModeReg := by
  cases drv <;> decide

theorem irqHandler_mode (drv : Driver) {d : CanDev} (ht : d.tx.Consistent)
    (hshort : ∀ f ∈ d.tx.items, f.canDlc.toNat ≤ 8) (c : σ) :
    inReset (drv.irqHandler d c).bus = inReset c := by
  let kept : σ → Prop := fun b => inReset b = inReset c
  have hread : ∀ reg b, kept b → kept (ioread8 reg b).2 :=
    fun reg b hb => (ModeReg.read_reset reg b).trans hb
  have hcommand : ∀ v b, kept b → kept (iowrite8 v sjaCommandReg b) :=
    fun v b hb => (other_write v (by decide) b).trans hb
  have hwin : ∀ v reg b, drv.InTxWindow reg → kept b → kept (iowrite8 v reg b) :=
    fun v reg b hreg hb => (other_write v (fun h => drv.window_not_mode (h ▸ hreg)) b).trans hb
  exact drv.irqHandler_rule (P := kept) d c hread (hcommand _) (hcommand _)
    (drv.afterTransmit_short hread hwin (hcommand _) ht hshort rfl)

theorem deviceWrite_mode (drv : Driver) (d : CanDev) {count : ℕ} {u : CopyIn}
    (hin : d.txIn < bufferSize) (hd : count = CanFrame.size → u.staged.canDlc.toNat ≤ 8) (c : σ) :
    inReset (drv.deviceWrite d count u c).2.bus = inReset c := by
  by_cases hno : count ≠ CanFrame.size ∨ d.txCount = bufferSize
  · obtain ⟨err, -, he⟩ := drv.deviceWrite_refused d count u c hno
    rw [he]
  · push Not at hno
    obtain ⟨rfl, hroom⟩ := hno
    have hstatus := ModeReg.read_reset sjaStatusReg c
    by_cases hfree : (ioread8 sjaStatusReg c).1 &&& tbs = tbs
    · obtain ⟨d', he, -⟩ := drv.deviceWrite_direct d u c hroom hin hfree
      rw [he]
      exact drv.sendMessage_short (P := fun b => inReset b = inReset c)
        (fun v reg b hreg hb =>
          (other_write v (fun h => drv.window_not_mode (h ▸ hreg)) b).trans hb)
        (fun b hb => (other_write _ (by decide) b).trans hb) (hd rfl) hstatus
    · obtain ⟨d', he, -⟩ := drv.deviceWrite_queue d u c hroom hfree
      rw [he]
      exact hstatus

end Driver
end CanPci
