import CanPci.TxRing

/-!
# The transmit side of the SJA1000

`released` is the `TBS` bit, `latched` a transmit interrupt not read yet. A
transmission request locks the buffer; completion releases it and latches `TI`;
reading the interrupt register clears `TI`.
-/

namespace CanPci
open RingFifo Transition

class Sja1000 (σ : Type) extends Bus σ where
  released : σ → Bool
  latched : σ → Bool
  status_tbs : ∀ c, (ioread8 sjaStatusReg c).1 &&& tbs = tbs ↔ released c = true
  int_ti : ∀ c, (ioread8 sjaIntReg c).1 &&& ti ≠ 0 ↔ latched c = true
  read_released : ∀ reg c, released (ioread8 reg c).2 = released c
  read_latched : ∀ reg c, latched (ioread8 reg c).2 = (latched c && reg != sjaIntReg)
  write_released : ∀ v reg c, released (iowrite8 v reg c) =
    (released c && !(reg == sjaCommandReg && v.getLsbD 0))
  write_latched : ∀ v reg c, latched (iowrite8 v reg c) = latched c

export Sja1000 (released latched)

/-- What the controller does on its own: it completes the transmission in progress,
or moves without touching the transmit side. -/
def Evolves {σ : Type} [Sja1000 σ] (c c' : σ) : Prop :=
  (released c = false ∧ released c' = true ∧ latched c' = true) ∨
    (released c' = released c ∧ latched c' = latched c)

instance decidableEvolves {σ : Type} [Sja1000 σ] : DecidableRel (Evolves (σ := σ)) :=
  fun _ _ => inferInstanceAs (Decidable (_ ∨ _))

/-! ### The smallest such controller -/

structure Chip where
  free : Bool
  done : Bool
  deriving DecidableEq, Repr

def Chip.complete (_ : Chip) : Chip := ⟨true, true⟩

instance : Sja1000 Chip where
  ioread8 reg c :=
    if reg = sjaIntReg then (if c.done then ti else 0, {c with done := false})
    else (if reg = sjaStatusReg ∧ c.free then tbs else 0, c)
  iowrite8 v reg c := {c with free := c.free && !(reg == sjaCommandReg && v.getLsbD 0)}
  past _ _ := 0
  released c := c.free
  latched c := c.done
  status_tbs c := by
    rcases c with ⟨free, done⟩
    cases free <;> cases done <;> decide
  int_ti c := by
    rcases c with ⟨free, done⟩
    cases free <;> cases done <;> decide
  read_released reg c := by
    split <;> rfl
  read_latched reg c := by
    split
    · rename_i h
      simp [h]
    · rename_i h
      simp [h]
  write_released _ _ _ := rfl
  write_latched _ _ _ := rfl

def Sys.idle : Sys Chip := ⟨resetRings .probed, ⟨true, false⟩, [], []⟩

theorem idle_opened : Sys.idle.Opened := ⟨⟨_, rfl⟩, rfl, rfl⟩

def Sys.complete (s : Sys Chip) : Sys Chip := {s with bus := s.bus.complete}

theorem complete_step (drv : Driver) {s : Sys Chip} (h : s.bus.free = false) :
    Step drv Evolves s .env s.complete := .env s _ (Or.inl ⟨h, rfl, rfl⟩)

def numbered (n : ℕ) : CanFrame := {CanFrame.zero with canId := BitVec.ofNat 32 n}

def loaded (n : ℕ) : CanFrame :=
  ⟨BitVec.ofNat 32 n, 3, #v[0, 0, 0], #v[BitVec.ofNat 8 n, 0x55, 0xaa, 0, 0, 0, 0, 0]⟩

/-- The first frame goes out directly and the handler sends the next two; the fourth still
waits when the third is complete. -/
def sampleTraffic : List Op :=
  [.write CanFrame.size (.ok (loaded 1)), .write CanFrame.size (.ok (loaded 2)),
    .write CanFrame.size (.ok (loaded 3)), .env, .irq, .read CanFrame.size false, .env, .irq,
    .write CanFrame.size (.ok (loaded 4)), .env]

namespace Driver
variable {σ : Type} [Sja1000 σ]

theorem sendMessage_locks (drv : Driver) (can : CanFrame) (c : σ) :
    released (drv.sendMessage can c) = false ∧ latched (drv.sendMessage can c) = latched c := by
  let kept : σ → Prop := fun b => latched b = latched c
  let locked : σ → Prop := fun b => released b = false ∧ latched b = latched c
  have hwrite : ∀ (v reg : Byte) (b : σ), kept b → kept (iowrite8 v reg b) := by
    intro v reg b hb
    exact (Sja1000.write_latched v reg b).trans hb
  have hrequest : ∀ b : σ, kept b → locked (iowrite8 0x01 sjaCommandReg b) := by
    intro b hb
    refine ⟨?_, hwrite _ _ b hb⟩
    rw [Sja1000.write_released]
    exact Bool.and_false _
  exact drv.sendMessage_rule (P := kept) (Q := locked) can c hwrite hrequest rfl

theorem status_read (c : σ) : released (ioread8 sjaStatusReg c).2 = released c ∧
    latched (ioread8 sjaStatusReg c).2 = latched c := by
  refine ⟨Sja1000.read_released _ c, ?_⟩
  rw [Sja1000.read_latched]
  exact Bool.and_true _

theorem int_read (c : σ) : released (ioread8 sjaIntReg c).2 = released c ∧
    latched (ioread8 sjaIntReg c).2 = false := by
  refine ⟨Sja1000.read_released _ c, ?_⟩
  rw [Sja1000.read_latched]
  exact Bool.and_false _

theorem irqHandler_controller (drv : Driver) (d : CanDev) (c : σ) :
    latched (drv.irqHandler d c).bus = false ∧
    released (drv.irqHandler d c).bus = (released c && !(latched c && decide (0 < d.txCount))) := by
  let served : σ → Prop := fun b => latched b = false ∧
    released b = (released c && !(latched c && decide (0 < d.txCount)))
  have hread : ∀ (reg : Byte) (b : σ), served b → served (ioread8 reg b).2 := by
    intro reg b hb
    refine ⟨?_, (Sja1000.read_released reg b).trans hb.2⟩
    rw [Sja1000.read_latched, hb.1]
    exact Bool.false_and _
  have hwrite : ∀ (v : Byte) (b : σ), v.getLsbD 0 = false → served b →
      served (iowrite8 v sjaCommandReg b) := by
    intro v b hv hb
    refine ⟨(Sja1000.write_latched _ _ b).trans hb.1, ?_⟩
    rw [Sja1000.write_released, hv, Bool.and_false, Bool.not_false, Bool.and_true]
    exact hb.2
  refine drv.irqHandler_rule (P := served) d c hread (fun b => hwrite _ b (by decide))
    (fun b => hwrite _ b (by decide)) ?_
  obtain ⟨hrel, hlat⟩ := int_read c
  by_cases h : (ioread8 sjaIntReg c).1 &&& ti ≠ 0 ∧ 0 < d.txCount
  · obtain ⟨hlocked, hkept⟩ := drv.sendMessage_locks (load d.txBuf d.txOut) (ioread8 sjaIntReg c).2
    have hti := (Sja1000.int_ti c).mp h.1
    show served _
    rw [(drv.afterTransmit_send d c h.1 h.2).2.2]
    refine ⟨hkept.trans hlat, ?_⟩
    rw [hlocked, hti, decide_eq_true h.2]
    exact (Bool.and_false _).symm
  · have hquiet : (latched c && decide (0 < d.txCount)) = false := by
      rw [Bool.and_eq_false_iff, decide_eq_false_iff_not, ← Bool.not_eq_true]
      rw [Sja1000.int_ti] at h
      tauto
    show served _
    rw [drv.afterTransmit_idle d c h]
    refine ⟨hlat, ?_⟩
    rw [hquiet]
    exact hrel.trans (Bool.and_true _).symm

end Driver
end CanPci
