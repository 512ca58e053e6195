import CanPci.Emulated.Bounds
import CanPci.Emulated.TestDriver
import CanPci.Lib.History

/-!
# The emulated device as a register file with two banks

Addresses 16 to 28 reach `code_mask` in reset mode and `trx_buff` in operating mode.
Every register holds what the history of guest accesses last put there.
-/

namespace CanPci.Emulated
open RingFifo Machine

namespace Access

def written (addr : ℕ) : Access → Option Byte
  | read _ => none
  | write a val _ => if a = addr then some val else none

def Requests : Access → Prop
  | read _ => False
  | write addr val _ => addr = 1 ∧ 0x01 &&& val ≠ 0

def Acknowledges : Access → Prop
  | read _ => False
  | write addr val _ => addr = 127 ∧ val = 0x33

def held : Access → CanFrame
  | read _ => CanFrame.zero
  | write _ _ can => can

instance : DecidablePred Requests := by
  intro a
  cases a with
  | read addr => exact instDecidableFalse
  | write addr val can => exact instDecidableAnd

end Access

theorem access_sends (s : CanState) (a : Access) :
    (access s a).1.txBuff = (if a.Requests then s.trxBuff else s.txBuff) ∧
    (access s a).2.filterMap Event.frame =
      if a.Requests then [(buff2frame s.trxBuff a.held).1] else [] := by
  cases a with
  | read addr => exact ⟨rfl, rfl⟩
  | write addr val can => exact (canMemWrite_effect s can addr val).sends

def modeOf (past : List Access) : Byte :=
  ((latest (fun _ a => a.written 0) past).map (0x1f &&& ·)).getD 0x01

/-- The byte last written to `16 + k` in reset mode. -/
def maskByte (k : ℕ) (past : List Access) : Byte :=
  (latest (fun past a => if modeOf past &&& 0x01 ≠ 0 then a.written (16 + k) else none) past).getD 0

/-- The byte last written to `16 + k` in operating mode. -/
def bufferByte (k : ℕ) (past : List Access) : Byte :=
  (latest (fun past a => if modeOf past &&& 0x01 = 0 then a.written (16 + k) else none) past).getD 0

/-- What `trx_buff[k]` held at the last request. -/
def sentByte (k : ℕ) (past : List Access) : Byte :=
  (latest (fun past a => if a.Requests then some (bufferByte k past) else none) past).getD 0

structure Follows (past : List Access) (s : CanState) : Prop where
  mode : s.mode = modeOf past
  status : s.status = 0x0c
  codeMask : ∀ k < 8, load s.codeMask k = maskByte k past
  trxBuff : ∀ k < 13, load s.trxBuff k = bufferByte k past
  txBuff : ∀ k < 13, load s.txBuff k = sentByte k past
  irq : s.irq = true ↔ Since Access.Requests Access.Acknowledges past

theorem after_mode (past : List Access) : (after access CanState.init past).mode = modeOf past := by
  have hstep : ∀ past a, (access (after access CanState.init past) a).1.mode =
      ((a.written 0).map (0x1f &&& ·)).getD (after access CanState.init past).mode := by
    intro past a
    cases a with
    | read addr => rfl
    | write addr val can =>
      rw [access, (canMemWrite_effect _ can addr val).mode_eq]
      by_cases h : addr = 0 <;> simp [Access.written, h]
  rw [after_cell CanState.mode hstep, latest_map]
  rfl

theorem after_codeMask {k : ℕ} (hk : k < 8) (past : List Access) :
    load (after access CanState.init past).codeMask k = maskByte k past := by
  have hstep : ∀ past a, load (access (after access CanState.init past) a).1.codeMask k =
      (if modeOf past &&& 0x01 ≠ 0 then a.written (16 + k) else none).getD
        (load (after access CanState.init past).codeMask k) := by
    intro past a
    cases a with
    | read addr => simp [access, Access.written]
    | write addr val can =>
      rw [access, (canMemWrite_effect _ can addr val).codeMask_eq hk, after_mode]
      by_cases h : addr = 16 + k
      · simp only [Access.written, h, and_true, if_true]
        split <;> rfl
      · simp [Access.written, h]
  refine (after_cell (fun s : CanState => load s.codeMask k) hstep past).trans ?_
  exact congrArg _ (load_replicate 8 k)

theorem after_trxBuff {k : ℕ} (hk : k < 13) (past : List Access) :
    load (after access CanState.init past).trxBuff k = bufferByte k past := by
  have hstep : ∀ past a, load (access (after access CanState.init past) a).1.trxBuff k =
      (if modeOf past &&& 0x01 = 0 then a.written (16 + k) else none).getD
        (load (after access CanState.init past).trxBuff k) := by
    intro past a
    cases a with
    | read addr => simp [access, Access.written]
    | write addr val can =>
      rw [access, (canMemWrite_effect _ can addr val).trxBuff_eq hk, after_mode]
      by_cases h : addr = 16 + k
      · simp only [Access.written, h, and_true, if_true]
        split <;> rfl
      · simp [Access.written, h]
  refine (after_cell (fun s : CanState => load s.trxBuff k) hstep past).trans ?_
  exact congrArg _ (load_replicate 13 k)

theorem after_txBuff {k : ℕ} (hk : k < 13) (past : List Access) :
    load (after access CanState.init past).txBuff k = sentByte k past := by
  have hstep : ∀ past a, load (access (after access CanState.init past) a).1.txBuff k =
      (if a.Requests then some (bufferByte k past) else none).getD
        (load (after access CanState.init past).txBuff k) := by
    intro past a
    rw [(access_sends _ a).1, ← after_trxBuff hk]
    split <;> rfl
  refine (after_cell (fun s : CanState => load s.txBuff k) hstep past).trans ?_
  exact congrArg _ (load_replicate 13 k)

theorem after_irq (past : List Access) : (after access CanState.init past).irq = true ↔
    Since Access.Requests Access.Acknowledges past := by
  refine after_flag (fun s : CanState => s.irq = true) (by decide) ?_ past
  intro s a
  cases a with
  | read addr => simp [access, Access.Requests, Access.Acknowledges]
  | write addr val can => exact (canMemWrite_effect s can addr val).irq_iff

theorem after_follows (past : List Access) : Follows past (after access CanState.init past) where
  mode := after_mode past
  status := run_status CanState.init past.reverse
  codeMask := fun _ hk => after_codeMask hk past
  trxBuff := fun _ hk => after_trxBuff hk past
  txBuff := fun _ hk => after_txBuff hk past
  irq := after_irq past

/-- A request copies the whole buffer and passes one frame on, no other access does
either, and a read changes nothing. -/
structure Serves (s : CanState) (a : Access) : Prop where
  request : a.Requests → (access s a).1.txBuff = s.trxBuff ∧
    (access s a).2.filterMap Event.frame = [(buff2frame s.trxBuff a.held).1]
  other : ¬ a.Requests → (access s a).1.txBuff = s.txBuff ∧
    (access s a).2.filterMap Event.frame = []
  read : ∀ addr, a = .read addr → (access s a).1 = s

theorem access_serves (s : CanState) (a : Access) : Serves s a where
  request := fun h => by simpa only [h, if_true] using access_sends s a
  other := fun h => by simpa only [h, if_false] using access_sends s a
  read := by
    rintro addr rfl
    rfl

/-- After every sequence of guest accesses each register holds what the history last put
there, and the next access is served from it. -/
theorem registers_follow_history (guest : List Access)
    (hshort : Along access ShortRequest CanState.init guest) :
    (∀ e ∈ (run access CanState.init guest).2, e.InRange) ∧
    Follows guest.reverse (run access CanState.init guest).1 ∧
    ∀ a, ShortRequest (run access CanState.init guest).1 a →
      (∀ e ∈ (access (run access CanState.init guest).1 a).2, e.InRange) ∧
        Serves (run access CanState.init guest).1 a := by
  have hfollows := after_follows guest.reverse
  rw [after, List.reverse_reverse] at hfollows
  refine ⟨?_, hfollows, fun a ha => ⟨(access_inRange _ a).mpr ha, access_serves _ a⟩⟩
  rw [events_iff_along, along_congr access_inRange]
  exact hshort

/-- Byte 16 goes to the mask in reset mode and to the buffer afterwards; the request stands
unacknowledged. -/
theorem registers_follow_history_sample :
    let guest := [Access.write 16 0x05 CanFrame.zero, .write 0 0x00 CanFrame.zero,
      .write 16 0x02 CanFrame.zero, .write 1 0x01 CanFrame.zero, .read 2]
    Follows guest.reverse (run access CanState.init guest).1 ∧
    maskByte 0 guest.reverse = 0x05 ∧ sentByte 0 guest.reverse = 0x02 :=
  ⟨(registers_follow_history [Access.write 16 0x05 CanFrame.zero, .write 0 0x00 CanFrame.zero,
      .write 16 0x02 CanFrame.zero, .write 1 0x01 CanFrame.zero, .read 2]
    (by decide)).2.1, by decide, by decide⟩

end CanPci.Emulated
