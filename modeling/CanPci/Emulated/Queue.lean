import CanPci.Access
import CanPci.Emulated.TestDriver
import Mathlib.Data.List.Count

/-!
# The queue accounting of the test driver

`tx_count` grows by `sizeof(struct can_dev)` for each queued `struct can_frame` and is
compared with six times that size. A queued write is the only one that returns 16.
-/

namespace CanPci.Emulated.TestDriver
open RingFifo Machine

structure Call (σ : Type) where
  count : ℕ
  copy : CopyIn
  bus : σ

variable {σ : Type} [Bus σ] {canDevSize : ℕ}

/-- The call emits its return value. -/
def call (canDevSize : ℕ) (d : TestDev) (w : Call σ) : TestDev × List ℤ :=
  let r := deviceWrite canDevSize d w.count w.copy w.bus
  (r.2.1, [r.1])

structure Accounted (canDevSize n : ℕ) (d : TestDev) : Prop where
  le : n ≤ bufferSize
  count : d.txCount = n * canDevSize
  tail : d.txIn = n % bufferSize

/-- What is left of the buffer, in the driver's unsigned arithmetic. -/
def room (canDevSize : ℕ) (d : TestDev) : ℕ :=
  (bufferSize * canDevSize + sizeRange - d.txCount) % sizeRange

theorem Accounted.count_le {n : ℕ} {d : TestDev} (h : Accounted canDevSize n d) :
    d.txCount ≤ bufferSize * canDevSize := by
  rw [h.count]
  exact Nat.mul_le_mul_right canDevSize h.le

theorem Accounted.room_eq {n : ℕ} {d : TestDev} (h : Accounted canDevSize n d)
    (hfit : bufferSize * canDevSize < sizeRange) :
    room canDevSize d = bufferSize * canDevSize - d.txCount := by
  have hle := h.count_le
  have hsub : bufferSize * canDevSize + sizeRange - d.txCount =
      (bufferSize * canDevSize - d.txCount) + sizeRange := by omega
  rw [room, hsub, Nat.add_mod_right, Nat.mod_eq_of_lt (by omega)]

theorem Accounted.full_iff {n : ℕ} {d : TestDev} (h : Accounted canDevSize n d)
    (hsize : CanFrame.size ≤ canDevSize) (hfit : bufferSize * canDevSize < sizeRange) :
    room canDevSize d < CanFrame.size ↔ n = bufferSize := by
  rw [h.room_eq hfit, h.count, ← Nat.sub_mul]
  unfold CanFrame.size at hsize ⊢
  constructor
  · intro hroom
    by_contra hne
    have hle := h.le
    have hslot : 1 * canDevSize ≤ (bufferSize - n) * canDevSize :=
      Nat.mul_le_mul_right canDevSize (by omega)
    omega
  · intro hfull
    rw [hfull, Nat.sub_self, Nat.zero_mul]
    decide

inductive Outcome (canDevSize : ℕ) (d : TestDev) (w : Call σ) : TestDev × List ℤ → Prop
  | tooBig : room canDevSize d < w.count → Outcome canDevSize d w (d, [eFBig])
  | invalid : w.count ≠ CanFrame.size → Outcome canDevSize d w (d, [eInval])
  | queued : w.count = CanFrame.size → ¬ room canDevSize d < CanFrame.size →
      Outcome canDevSize d w ({d with
        txBuf := store d.txBuf d.txIn w.copy.staged
        txCount := (d.txCount + canDevSize) % sizeRange
        txIn := wrapEq (d.txIn + 1)}, [(CanFrame.size : ℤ)])
  | sent (ret : ℤ) : w.count = CanFrame.size → ¬ room canDevSize d < CanFrame.size →
      ret = 0 ∨ ret = eFault →
      Outcome canDevSize d w ({d with txBuf := store d.txBuf d.txIn w.copy.staged}, [ret])

theorem call_outcome (d : TestDev) (w : Call σ) :
    Outcome canDevSize d w (call canDevSize d w) := by
  unfold call deviceWrite
  split
  · rename_i hroom
    exact .tooBig hroom
  · rename_i hroom
    split
    · rename_i hcount
      exact .invalid hcount
    · rename_i hcount
      have hsize : w.count = CanFrame.size := not_not.mp hcount
      rw [hsize] at hroom
      dsimp only
      split
      · rw [hsize]
        exact .queued hsize hroom
      · refine .sent _ hsize hroom ?_
        cases w.copy with
        | ok can => exact Or.inl rfl
        | fault left => exact Or.inr rfl

section
variable {d : TestDev} {w : Call σ} {r : TestDev × List ℤ}

omit [Bus σ] in
theorem Outcome.accounted (hcall : Outcome canDevSize d w r) {n : ℕ}
    (h : Accounted canDevSize n d) (hsize : CanFrame.size ≤ canDevSize)
    (hfit : bufferSize * canDevSize < sizeRange) :
    Accounted canDevSize (n + r.2.count (CanFrame.size : ℤ)) r.1 := by
  cases hcall with
  | tooBig _ => exact h
  | invalid _ => exact h
  | queued _ hroom =>
    have hlt : n < bufferSize := by
      have hle := h.le
      have hne := (h.full_iff hsize hfit).not.mp hroom
      omega
    have hnext : (n + 1) * canDevSize ≤ bufferSize * canDevSize :=
      Nat.mul_le_mul_right canDevSize hlt
    rw [List.count_singleton_self]
    refine ⟨hlt, ?_, ?_⟩
    · dsimp only
      rw [h.count, ← Nat.succ_mul]
      exact Nat.mod_eq_of_lt (lt_of_le_of_lt hnext hfit)
    · dsimp only
      rw [h.tail, Nat.mod_eq_of_lt hlt]
      exact next_eq_mod hlt
  | sent ret _ _ hret =>
    have hnone : List.count (CanFrame.size : ℤ) [ret] = 0 := by
      rcases hret with rfl | rfl <;> decide
    rw [hnone]
    exact ⟨h.le, h.count, h.tail⟩

omit [Bus σ] in
theorem Outcome.tooBig_iff (hcall : Outcome canDevSize d w r) (hcount : w.count = CanFrame.size) :
    r.2 = [eFBig] ↔ room canDevSize d < CanFrame.size := by
  cases hcall with
  | tooBig hroom => exact iff_of_true rfl (hcount ▸ hroom)
  | invalid hne => exact absurd hcount hne
  | queued _ hroom =>
    have hret : [(CanFrame.size : ℤ)] ≠ [eFBig] := by decide
    exact iff_of_false hret hroom
  | sent ret _ hroom hret =>
    have hne : [ret] ≠ [eFBig] := by
      rcases hret with rfl | rfl <;> decide
    exact iff_of_false hne hroom

end

theorem run_accounted {n : ℕ} {d : TestDev} (h : Accounted canDevSize n d)
    (hsize : CanFrame.size ≤ canDevSize) (hfit : bufferSize * canDevSize < sizeRange)
    (calls : List (Call σ)) :
    Accounted canDevSize (n + (run (call canDevSize) d calls).2.count (CanFrame.size : ℤ))
      (run (call canDevSize) d calls).1 := by
  induction calls generalizing n d with
  | nil => exact h
  | cons w calls ih =>
    have hstep := ih ((call_outcome d w).accounted h hsize hfit)
    rw [run]
    dsimp only
    rwa [List.count_append, ← Nat.add_assoc]

/-- After any calls the unsigned room does not wrap, `tx_in` is an index of `tx_buf`, and a
write of one frame is refused as too big exactly when six frames have been queued. -/
theorem queue_accounting (canDevSize : ℕ) (hsize : 16 ≤ canDevSize)
    (hfit : bufferSize * canDevSize < sizeRange) (d : TestDev) (hcount : d.txCount = 0)
    (hin : d.txIn = 0) (calls : List (Call σ)) :
    let s := run (call canDevSize) d calls
    s.1.txCount ≤ bufferSize * canDevSize ∧
    room canDevSize s.1 = bufferSize * canDevSize - s.1.txCount ∧ s.1.txIn < bufferSize ∧
    ∀ w : Call σ, w.count = CanFrame.size →
      ((call canDevSize s.1 w).2 = [eFBig] ↔
        s.2.count (CanFrame.size : ℤ) = bufferSize) := by
  have hstart : Accounted canDevSize 0 d :=
    ⟨Nat.zero_le _, hcount.trans (Nat.zero_mul _).symm, hin⟩
  have h := run_accounted hstart hsize hfit calls
  rw [Nat.zero_add] at h
  refine ⟨h.count_le, h.room_eq hfit, ?_, fun w hw => ?_⟩
  · rw [h.tail]
    exact Nat.mod_lt _ (by decide)
  · rw [(call_outcome _ w).tooBig_iff hw, h.full_iff hsize hfit]

def lockedCall : Call Recorder :=
  ⟨CanFrame.size, .ok CanFrame.zero, Recorder.start (fun _ => 0) (fun _ => 0)⟩

theorem queue_accounting_sample :
    let s := run (call 400) ⟨Vector.replicate bufferSize CanFrame.zero, 0, 0, 0⟩
      (List.replicate 6 lockedCall)
    s.1.txCount = 2400 ∧ (call 400 s.1 lockedCall).2 = [eFBig] := by
  have h := queue_accounting 400 (by decide) (by decide)
    ⟨Vector.replicate bufferSize CanFrame.zero, 0, 0, 0⟩ rfl rfl (List.replicate 6 lockedCall)
  exact ⟨by decide +kernel, (h.2.2.2 lockedCall rfl).mpr (by decide +kernel)⟩

end CanPci.Emulated.TestDriver
