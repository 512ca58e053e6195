import CanPci.RxRing
import CanPci.TxConfined

/-!
# Clearing a data overrun

`irq_handler` reads the three causes at once. The early return for a full receive ring
leaves before the overrun branch.
-/

namespace CanPci
open RingFifo Transition

namespace Driver

def IsClear (w : Byte × Byte) : Prop := w.2 = sjaCommandReg ∧ w.1 &&& cdo ≠ 0

theorem afterTransmit_no_clear (drv : Driver) {d : CanDev} (hc : d.tx.Consistent)
    (hshort : ∀ f ∈ d.tx.items, f.canDlc.toNat ≤ 8) (reply past : ℕ → Byte) :
    ∀ w ∈ (drv.afterTransmit d (Recorder.start reply past)).bus.written, ¬ IsClear w := by
  let clean : Recorder → Prop := fun b => ∀ w ∈ b.written, ¬ IsClear w
  have hwrite : ∀ (v reg : Byte) (b : Recorder), ¬ IsClear (v, reg) → clean b →
      clean (iowrite8 v reg b) := by
    intro v reg b hnew hb w hw
    rcases List.mem_append.mp hw with hw | hw
    · exact hb w hw
    · rw [List.mem_singleton.mp hw]
      exact hnew
  have hwindow : ∀ (v reg : Byte), drv.InTxWindow reg → ¬ IsClear (v, reg) := by
    rintro v reg hreg ⟨h, -⟩
    exact drv.window_not_command (h ▸ hreg)
  refine drv.afterTransmit_short (P := clean) (fun _ _ hb => hb)
    (fun v reg b hreg => hwrite v reg b (hwindow v reg hreg)) (fun b => hwrite _ _ b ?_) hc hshort ?_
  · exact fun h => h.2 rfl
  · exact fun w hw => (nomatch hw)

/-- A handler run that reads `DOI` set writes a clear-data-overrun command. -/
def ClearsOverrun (drv : Driver) (d : CanDev) (reply past : ℕ → Byte) : Prop :=
  reply 0 &&& doi ≠ 0 →
    ∃ w ∈ (drv.irqHandler d (Recorder.start reply past)).bus.written, IsClear w

def ReturnsEarly (drv : Driver) (d : CanDev) (reply : ℕ → Byte) : Prop :=
  reply 0 &&& ri ≠ 0 ∧ drv.rxFull d.rxCount = true

theorem clearOverrun_written (temp : Byte) (s : Served Recorder) (h : temp &&& doi ≠ 0) :
    (cdo, sjaCommandReg) ∈ (clearOverrun temp s).bus.written := by
  rw [clearOverrun, if_pos h]
  exact List.mem_append_right _ (List.mem_singleton.mpr rfl)

theorem clears_of_continues (drv : Driver) (d : CanDev) (reply past : ℕ → Byte)
    (h : reply 0 &&& doi ≠ 0 → ¬ drv.ReturnsEarly d reply) : drv.ClearsOverrun d reply past := by
  intro hdoi
  have htemp : (ioread8 sjaIntReg (Recorder.start reply past)).1 = reply 0 := rfl
  refine ⟨(cdo, sjaCommandReg), ?_, rfl, by decide⟩
  rw [irqHandler_eq]
  dsimp only
  rw [htemp, drv.afterTransmit_rxCount d _]
  by_cases hri : reply 0 &&& ri ≠ 0
  · rw [if_pos hri, if_neg fun hfull => h hdoi ⟨hri, hfull⟩]
    exact clearOverrun_written _ _ hdoi
  · rw [if_neg hri]
    exact clearOverrun_written _ _ hdoi

theorem continues_of_clears (drv : Driver) {d : CanDev} (hc : d.tx.Consistent)
    (hshort : ∀ f ∈ d.tx.items, f.canDlc.toNat ≤ 8) (reply past : ℕ → Byte)
    (h : drv.ClearsOverrun d reply past) : reply 0 &&& doi ≠ 0 → ¬ drv.ReturnsEarly d reply := by
  rintro hdoi ⟨hri, hfull⟩
  obtain ⟨w, hw, hclear⟩ := h hdoi
  have htemp : (ioread8 sjaIntReg (Recorder.start reply past)).1 = reply 0 := rfl
  have hbefore := drv.afterTransmit_no_clear hc hshort reply past
  rw [irqHandler_eq] at hw
  dsimp only at hw
  rw [htemp, drv.afterTransmit_rxCount d _, if_pos hri, if_pos hfull] at hw
  cases drv with
  | pelican => exact hbefore w hw hclear
  | basiccan =>
    rcases List.mem_append.mp hw with hw | hw
    · exact hbefore w hw hclear
    · rw [List.mem_singleton.mp hw] at hclear
      exact hclear.2 rfl

end Driver

variable {σ : Type} [Bus σ]

/-- In every state a run reaches and whatever the handler reads, it clears an overrun it
is told of unless it returns early for a full ring; and exactly then, as long as the
frames in the transmit ring announce at most eight bytes. -/
theorem overrun_cleared_iff (drv : Driver) (env : σ → σ → Prop) {s t : Sys σ} {ops : List Op}
    (hs : s.Opened) (hrun : Run (Step drv env) s ops t) (reply past : ℕ → Byte) :
    ((reply 0 &&& doi ≠ 0 → ¬ drv.ReturnsEarly t.dev reply) →
      drv.ClearsOverrun t.dev reply past) ∧
    ((∀ f ∈ t.dev.tx.items, f.canDlc.toNat ≤ 8) →
      (drv.ClearsOverrun t.dev reply past ↔
        (reply 0 &&& doi ≠ 0 → ¬ drv.ReturnsEarly t.dev reply))) := by
  have henough := drv.clears_of_continues t.dev reply past
  refine ⟨henough, fun hshort => ⟨?_, henough⟩⟩
  exact drv.continues_of_clears (run_consistent hrun hs.tx.1) hshort reply past

/-- One interrupt for all three causes: a frame goes out, a frame comes in, and one was lost. -/
theorem overrun_cleared_sample :
    let t := (Machine.run (Sys.execute .pelican RegFile.turn) Sys.showing sampleArrivals).1
    let reply : ℕ → Byte := fun k => [0x0b, 0x05, 0x24, 0x60, 1, 2, 3, 4, 5].getD k 0
    t.dev.tx.items = [loaded 1, loaded 2] ∧ t.dev.rxCount = 2 ∧
      Driver.pelican.ClearsOverrun t.dev reply (fun _ => 0) := by
  intro t reply
  have hrun : Run (Step .pelican fun _ _ => True) Sys.showing sampleArrivals t :=
    Run.of_machine execute_step (by decide +kernel)
  have hitems : t.dev.tx.items = [loaded 1, loaded 2] := by decide +kernel
  have hshort : ∀ f ∈ t.dev.tx.items, f.canDlc.toNat ≤ 8 := by
    rw [hitems]
    decide
  have hcount : t.dev.rxCount = 2 := by decide +kernel
  have hearly : ¬ Driver.pelican.ReturnsEarly t.dev reply := by
    rintro ⟨-, hfull⟩
    rw [hcount] at hfull
    exact absurd hfull (by decide)
  have hiff := (overrun_cleared_iff .pelican (fun _ _ => True) showing_opened hrun reply
    (fun _ => 0)).2 hshort
  exact ⟨hitems, hcount, hiff.mpr fun _ => hearly⟩

/-- Six interrupts store a one-byte frame each; nobody reads. -/
def filled (drv : Driver) : Sys Recorder :=
  (Sys.irq drv)^[6] ⟨resetRings .probed, .start (fun _ => 0x01) (fun _ => 0), [], []⟩

theorem irqs_run (drv : Driver) (env : σ → σ → Prop) (s : Sys σ) (n : ℕ) :
    Run (Step drv env) s (List.replicate n .irq) ((Sys.irq drv)^[n] s) := by
  induction n with
  | zero => exact Run.nil s
  | succ n ih =>
    rw [List.replicate_succ', Function.iterate_succ_apply']
    exact ih.snoc (.irq _)

/-- The next interrupt reads `RI` and `DOI` and no clear is written. -/
def MissesOverrun (drv : Driver) : Prop :=
  Run (Step drv fun _ _ => False)
    (⟨resetRings .probed, .start (fun _ => 0x01) (fun _ => 0), [], []⟩ : Sys Recorder)
    (List.replicate 6 .irq) (filled drv) ∧
  (filled drv).dev.rxCount = bufferSize ∧
  ¬ drv.ClearsOverrun (filled drv).dev (fun _ => 0x09) (fun _ => 0)

theorem overrun_missed : MissesOverrun .pelican ∧ MissesOverrun .basiccan := by
  have hboth : ∀ drv, MissesOverrun drv := by
    intro drv
    have hcount : (filled drv).dev.rxCount = bufferSize := by cases drv <;> decide +kernel
    have hempty : (filled drv).dev.txCount = 0 := by cases drv <;> decide +kernel
    have hrun := irqs_run drv (fun _ _ => False)
      (⟨resetRings .probed, .start (fun _ => 0x01) (fun _ => 0), [], []⟩ : Sys Recorder) 6
    refine ⟨hrun, hcount, fun h => ?_⟩
    refine drv.continues_of_clears (run_consistent hrun (resetRings_tx _).1) ?_ _ _ h (by decide)
      ⟨by decide, ?_⟩
    · rw [Ring.items_eq_nil hempty]
      exact fun f hf => by cases hf
    · rw [show ((Sys.irq drv)^[6] _).dev.rxCount = bufferSize from hcount]
      cases drv <;> decide
  exact ⟨hboth .pelican, hboth .basiccan⟩

end CanPci
