import CanPci.Driver

/-!
# Register windows and a recording controller
-/

namespace CanPci

namespace Driver

def InTxWindow : Driver → Byte → Prop
  | pelican, r => 16 ≤ r.toNat ∧ r.toNat ≤ 28
  | basiccan, r => 10 ≤ r.toNat ∧ r.toNat ≤ 19

def InRxWindow : Driver → Byte → Prop
  | pelican, r => 16 ≤ r.toNat ∧ r.toNat ≤ 28
  | basiccan, r => 20 ≤ r.toNat ∧ r.toNat ≤ 29

instance (drv : Driver) (r : Byte) : Decidable (drv.InTxWindow r) := by
  cases drv <;> exact instDecidableAnd

instance (drv : Driver) (r : Byte) : Decidable (drv.InRxWindow r) := by
  cases drv <;> exact instDecidableAnd

theorem window_not_command (drv : Driver) : ¬ drv.InTxWindow sjaCommandReg := by
  cases drv <;> decide

theorem rxHeader_window {σ : Type} [Bus σ] (drv : Driver) (c : σ) :
    ∀ k < 8, drv.InRxWindow ((drv.rxHeader c).index + BitVec.ofNat 8 k) := by
  intro k hk
  cases drv with
  | pelican =>
    simp only [rxHeader, Pelican.rxHeader]
    split <;>
    · simp only [InRxWindow]
      bv_omega
  | basiccan =>
    show 20 ≤ (22 + BitVec.ofNat 8 k).toNat ∧ (22 + BitVec.ofNat 8 k).toNat ≤ 29
    bv_omega

end Driver

/-- A controller that answers its `k`-th read with `reply k` and logs all accesses. -/
structure Recorder where
  reply : ℕ → Byte
  past : ℕ → Byte
  reads : List Byte
  written : List (Byte × Byte)

instance : Bus Recorder where
  ioread8 reg c := (c.reply c.reads.length, {c with reads := c.reads ++ [reg]})
  iowrite8 v reg c := {c with written := c.written ++ [(v, reg)]}
  past c := c.past

namespace Recorder
variable (c : Recorder)

def start (reply past : ℕ → Byte) : Recorder := ⟨reply, past, [], []⟩

@[simp] theorem ioread8_eq (reg : Byte) :
    ioread8 reg c = (c.reply c.reads.length, {c with reads := c.reads ++ [reg]}) := rfl

@[simp] theorem iowrite8_eq (v reg : Byte) :
    iowrite8 v reg c = {c with written := c.written ++ [(v, reg)]} := rfl

theorem index_succ (index : Byte) (k : ℕ) :
    index + 1 + BitVec.ofNat 8 k = index + BitVec.ofNat 8 (k + 1) := by
  bv_omega

theorem writes_eq (ws : List (Byte × Byte)) :
    writes ws c = {c with written := c.written ++ ws} := by
  induction ws generalizing c with
  | nil => simp
  | cons w ws ih => simp [ih]

theorem writeData_eq (can : CanFrame) (n i : ℕ) (index : Byte) :
    writeData can n i index c = {c with written := c.written ++ (List.range n).map fun k =>
      (can.dataAt c.past (i + k), index + BitVec.ofNat 8 k)} := by
  induction n generalizing i index c with
  | zero => simp [writeData]
  | succ n ih =>
    rw [writeData, ih]
    simp only [iowrite8_eq, List.append_assoc, List.singleton_append, List.range_succ_eq_map,
      List.map_cons, List.map_map, Nat.add_zero, BitVec.ofNat_eq_ofNat, BitVec.add_zero]
    congr 3
    apply List.map_congr_left
    intro k _
    exact Prod.ext (congrArg (can.dataAt c.past) (by omega)) (index_succ index k)

theorem sendMessage_reads (drv : Driver) (can : CanFrame) :
    (drv.sendMessage can c).reads = c.reads ∧ (drv.sendMessage can c).reply = c.reply := by
  let kept : Recorder → Prop := fun b => b.reads = c.reads ∧ b.reply = c.reply
  have hwrite : ∀ (v reg : Byte) (b : Recorder), kept b → kept (iowrite8 v reg b) :=
    fun _ _ _ h => h
  exact drv.sendMessage_rule (P := kept) (Q := kept) can c hwrite (hwrite _ _) ⟨rfl, rfl⟩

theorem readData_reads (n i : ℕ) (index : Byte) (r : Received) :
    (readData n i index r c).2.reads =
      c.reads ++ (List.range n).map fun k => index + BitVec.ofNat 8 k := by
  induction n generalizing i index r c with
  | zero => simp [readData]
  | succ n ih =>
    rw [readData, ioread8_eq]
    simp only [ih, List.append_assoc, List.singleton_append, List.range_succ_eq_map,
      List.map_cons, List.map_map, BitVec.ofNat_eq_ofNat, BitVec.add_zero]
    congr 2
    apply List.map_congr_left
    intro k _
    exact index_succ index k

end Recorder
end CanPci
