import CanPci.Device

/-!
# Register access and the two data loops

The driver reaches the controller through `ioread8` and `iowrite8` alone, so
its code is generic in the state behind them. `past` is the memory a load beyond
`data[7]` meets; nothing in the source fixes its contents.
-/

namespace CanPci
open RingFifo

class Bus (σ : Type) where
  ioread8 : Byte → σ → Byte × σ
  iowrite8 : Byte → Byte → σ → σ
  past : σ → ℕ → Byte

export Bus (ioread8 iowrite8)

variable {σ : Type} [Bus σ]

def writes (ws : List (Byte × Byte)) (c : σ) : σ :=
  ws.foldl (fun c w => iowrite8 w.1 w.2 c) c

@[simp] theorem writes_nil (c : σ) : writes [] c = c := rfl

@[simp] theorem writes_cons (w : Byte × Byte) (ws : List (Byte × Byte)) (c : σ) :
    writes (w :: ws) c = writes ws (iowrite8 w.1 w.2 c) := rfl

theorem writes_append (ws vs : List (Byte × Byte)) (c : σ) :
    writes (ws ++ vs) c = writes vs (writes ws c) := List.foldl_append ..

/-- `for (; n more; i++, index++) iowrite8(can->data[i], base + index)`. -/
def writeData (can : CanFrame) : ℕ → ℕ → Byte → σ → σ
  | 0, _, _, c => c
  | n + 1, i, index, c =>
    writeData can n (i + 1) (index + 1) (iowrite8 (can.dataAt (Bus.past c) i) index c)

/-- The pairs the loop writes while it stays inside the array. -/
def dataWrites (can : CanFrame) : ℕ → ℕ → Byte → List (Byte × Byte)
  | 0, _, _ => []
  | n + 1, i, index => (load can.data i, index) :: dataWrites can n (i + 1) (index + 1)

theorem dataAt_eq (can : CanFrame) (past : ℕ → Byte) {i : ℕ} (h : i < 8) :
    can.dataAt past i = load can.data i := by
  simp [CanFrame.dataAt, load, h]

theorem writeData_eq (can : CanFrame) (n i : ℕ) (index : Byte) (c : σ) (h : i + n ≤ 8) :
    writeData can n i index c = writes (dataWrites can n i index) c := by
  induction n generalizing i index c with
  | zero => rfl
  | succ n ih =>
    have hi : i < 8 := by omega
    rw [writeData, dataAt_eq can _ hi, ih (i + 1) (index + 1) _ (by omega)]
    rfl

theorem writeData_invariant {P : σ → Prop} (hw : ∀ v reg c, P c → P (iowrite8 v reg c))
    (can : CanFrame) (n i : ℕ) (index : Byte) (c : σ) (h : P c) :
    P (writeData can n i index c) := by
  induction n generalizing i index c with
  | zero => exact h
  | succ n ih => exact ih _ _ _ (hw _ _ _ h)

/-- What `receive_message` leaves in memory: the slot, and the bytes it stored
to `data[8]`, `data[9]`, … behind it. -/
@[ext] structure Received where
  can : CanFrame
  overrun : List Byte
  deriving DecidableEq, Repr

def Received.put (r : Received) (i : ℕ) (v : Byte) : Received :=
  if i < 8 then {r with can := {r.can with data := store r.can.data i v}}
  else {r with overrun := r.overrun ++ [v]}

/-- `for (; n more; i++) can->data[i] = ioread8(base + index++)`. -/
def readData : ℕ → ℕ → Byte → Received → σ → Received × σ
  | 0, _, _, r, c => (r, c)
  | n + 1, i, index, r, c =>
    let (v, c) := ioread8 index c
    readData n (i + 1) (index + 1) (r.put i v) c

/-- What the header bytes of a received frame say, and where its data starts. -/
structure RxHeader (σ : Type) where
  canId : CanId
  canDlc : Byte
  index : Byte
  bus : σ

def RxHeader.slot (h : RxHeader σ) : Received :=
  ⟨{CanFrame.zero with canId := h.canId, canDlc := h.canDlc}, []⟩

def RxHeader.finish (h : RxHeader σ) : Received × σ :=
  let (r, c) := readData h.canDlc.toNat 0 h.index h.slot h.bus
  (r, iowrite8 0x04 sjaCommandReg c)

@[simp] theorem put_canId (r : Received) (i : ℕ) (v : Byte) :
    (r.put i v).can.canId = r.can.canId := by
  unfold Received.put
  split <;> rfl

@[simp] theorem put_canDlc (r : Received) (i : ℕ) (v : Byte) :
    (r.put i v).can.canDlc = r.can.canDlc := by
  unfold Received.put
  split <;> rfl

@[simp] theorem put_pad (r : Received) (i : ℕ) (v : Byte) :
    (r.put i v).can.pad = r.can.pad := by
  unfold Received.put
  split <;> rfl

theorem readData_header (n i : ℕ) (index : Byte) (r : Received) (c : σ) :
    (readData n i index r c).1.can.canId = r.can.canId ∧
    (readData n i index r c).1.can.canDlc = r.can.canDlc ∧
    (readData n i index r c).1.can.pad = r.can.pad := by
  induction n generalizing i index r c with
  | zero => exact ⟨rfl, rfl, rfl⟩
  | succ n ih =>
    have h := ih (i + 1) (index + 1) (r.put i (ioread8 index c).1) (ioread8 index c).2
    simpa only [readData, put_canId, put_canDlc, put_pad] using h

theorem readData_over (n i : ℕ) (index : Byte) (r : Received) (c : σ) (hi : i ≤ 8) :
    (readData n i index r c).1.overrun.length = r.overrun.length + (i + n - 8) := by
  have past : ∀ n i : ℕ, ∀ (index : Byte) (r : Received) (c : σ), 8 ≤ i →
      (readData n i index r c).1.overrun.length = r.overrun.length + n := by
    intro n
    induction n with
    | zero => intro i index r c _; rfl
    | succ n ih =>
      intro i index r c h
      have hput : (r.put i (ioread8 index c).1).overrun.length = r.overrun.length + 1 := by
        simp [Received.put, Nat.not_lt.mpr h]
      rw [readData, ih _ _ _ _ (by omega), hput]
      omega
  induction n generalizing i index r c with
  | zero =>
    have h0 : i + 0 - 8 = 0 := by omega
    rw [h0]
    rfl
  | succ n ih =>
    by_cases h : i < 8
    · have hput : (r.put i (ioread8 index c).1).overrun = r.overrun := by simp [Received.put, h]
      rw [readData, ih _ _ _ _ (by omega), hput]
      omega
    · rw [past _ _ _ _ _ (by omega)]
      omega

theorem readData_frame (n i : ℕ) (index : Byte) (r : Received) (c : σ) (j : ℕ)
    (hj : j < i ∨ i + n ≤ j) :
    load (readData n i index r c).1.can.data j = load r.can.data j := by
  induction n generalizing i index r c with
  | zero => rfl
  | succ n ih =>
    rw [readData, ih _ _ _ _ (by omega)]
    unfold Received.put
    split
    · exact load_store_ne _ _ (by omega)
    · rfl

theorem readData_invariant {P : σ → Prop} (hr : ∀ reg c, P c → P (ioread8 reg c).2)
    (n i : ℕ) (index : Byte) (r : Received) (c : σ) (h : P c) :
    P (readData n i index r c).2 := by
  induction n generalizing i index r c with
  | zero => exact h
  | succ n ih => exact ih _ _ _ _ (hr _ _ h)

end CanPci
