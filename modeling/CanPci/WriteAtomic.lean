import CanPci.Access
import CanPci.Controller

/-!
# `device_write` takes the whole frame or nothing
-/

namespace CanPci
open RingFifo Transition

/-- The copy of the user's frame `f`: whole, or stopped with `left` in the slot. -/
def CopyIn.of (f : CanFrame) : Option CanFrame → CopyIn
  | none => .ok f
  | some left => .fault left

def TookOnce (d : CanDev) (f : CanFrame) (out : Served Recorder) : Prop :=
  (out.dev.tx.items = d.tx.items ++ [f] ∧ out.handed = []) ∨
    (out.dev.tx.items = d.tx.items ∧ out.handed.map Handover.can = [f])

/-- Nothing was queued, handed over or written to a register. -/
structure LeftAlone (d : CanDev) (c : Recorder) (out : Served Recorder) : Prop where
  items : out.dev.tx.items = d.tx.items
  count : out.dev.txCount = d.txCount
  tail : out.dev.txIn = d.txIn
  head : out.dev.txOut = d.txOut
  handed : out.handed = []
  written : out.bus.written = c.written

/-- The return value tells whether the user's frame `f` was taken, and a copy that
faulted takes none. -/
structure AllOrNothing (d : CanDev) (count : ℕ) (f : CanFrame) (left : Option CanFrame)
    (c : Recorder) (out : ℤ × Served Recorder) : Prop where
  told : (out.1 = count ∧ TookOnce d f out.2) ∨ (out.1 < 0 ∧ LeftAlone d c out.2)
  fault : left ≠ none → out.2.dev.tx.items = d.tx.items ∧ out.2.handed = []

namespace Driver
variable (drv : Driver) {d : CanDev}

theorem refused_all_or_nothing (count : ℕ) (f : CanFrame) (left : Option CanFrame) (c : Recorder)
    (h : count ≠ CanFrame.size ∨ d.txCount = bufferSize) :
    AllOrNothing d count f left c (drv.deviceWrite d count (.of f left) c) := by
  obtain ⟨err, hneg, he⟩ := drv.deviceWrite_refused d count (.of f left) c h
  rw [he]
  exact ⟨Or.inr ⟨hneg, rfl, rfl, rfl, rfl, rfl, rfl⟩, fun _ => ⟨rfl, rfl⟩⟩

theorem open_takes (hc : d.tx.Consistent) (hroom : d.txCount ≠ bufferSize) (u : CopyIn)
    (c : Recorder) : TookOnce d u.staged (drv.deviceWrite d CanFrame.size u c).2 := by
  have hlt : d.txCount < bufferSize := lt_of_le_of_ne hc.count_le hroom
  by_cases hfree : (ioread8 sjaStatusReg c).1 &&& tbs = tbs
  · obtain ⟨d', he, htx, -⟩ := drv.deviceWrite_direct d u c hroom hc.tail_lt hfree
    rw [he]
    refine Or.inr ⟨?_, rfl⟩
    rw [htx]
    exact Ring.stage_items hc hlt u.staged
  · obtain ⟨d', he, htx, -⟩ := drv.deviceWrite_queue d u c hroom hfree
    rw [he]
    refine Or.inl ⟨?_, rfl⟩
    rw [htx]
    exact Ring.push_items hc hlt u.staged

theorem tookOnce_moves {f : CanFrame} {out : Served Recorder} (h : TookOnce d f out) :
    ¬ (out.dev.tx.items = d.tx.items ∧ out.handed = []) := by
  rintro ⟨hitems, hhanded⟩
  rcases h with ⟨hqueued, -⟩ | ⟨-, hsent⟩
  · rw [hitems] at hqueued
    simpa using congrArg List.length hqueued
  · rw [hhanded] at hsent
    cases hsent

theorem copied_all_or_nothing (hc : d.tx.Consistent) (hroom : d.txCount ≠ bufferSize)
    (f : CanFrame) (c : Recorder) :
    AllOrNothing d CanFrame.size f none c (drv.deviceWrite d CanFrame.size (.of f none) c) := by
  refine ⟨Or.inl ⟨?_, drv.open_takes hc hroom (.ok f) c⟩, fun h => absurd rfl h⟩
  rw [deviceWrite_open drv d _ c hroom, writeFinish]
  split <;> rfl

end Driver

variable {σ : Type} [Bus σ]

/-- In every state a run reaches and whatever the controller answers, `device_write` is
all-or-nothing exactly when its copy does not fault behind the two checks. -/
theorem write_all_or_nothing_iff (drv : Driver) (env : σ → σ → Prop) {s t : Sys σ} {ops : List Op}
    (hs : s.Opened) (hrun : Run (Step drv env) s ops t) (count : ℕ) (f : CanFrame)
    (left : Option CanFrame) (c : Recorder) :
    AllOrNothing t.dev count f left c (drv.deviceWrite t.dev count (.of f left) c) ↔
      (left = none ∨ count ≠ CanFrame.size ∨ t.dev.txCount = bufferSize) := by
  have hc := run_consistent hrun hs.tx.1
  constructor
  · intro h
    by_contra hno
    push Not at hno
    obtain ⟨hleft, rfl, hroom⟩ := hno
    -- the faulting copy goes on to the queue or to the controller
    exact Driver.tookOnce_moves (drv.open_takes hc hroom _ c) (h.fault hleft)
  · rintro (rfl | hno)
    · by_cases hno : count ≠ CanFrame.size ∨ t.dev.txCount = bufferSize
      · exact drv.refused_all_or_nothing count f none c hno
      · push Not at hno
        obtain ⟨rfl, hroom⟩ := hno
        exact drv.copied_all_or_nothing hc hroom f c
    · exact drv.refused_all_or_nothing count f left c hno

/-- One frame waits; the write of the fifth sends it past that one. -/
theorem write_all_or_nothing_sample :
    let t := (Machine.run (Sys.execute .pelican Chip.complete) Sys.idle sampleTraffic).1
    let wire := Recorder.start (fun _ => tbs) (fun _ => 0)
    t.dev.tx.items = [loaded 4] ∧ AllOrNothing t.dev CanFrame.size (loaded 5) none wire
      (Driver.pelican.deviceWrite t.dev CanFrame.size (.of (loaded 5) none) wire) := by
  intro t wire
  have hrun : Run (Step .pelican Evolves) Sys.idle sampleTraffic t :=
    Run.of_machine execute_step (by decide +kernel)
  exact ⟨by decide +kernel, (write_all_or_nothing_iff .pelican Evolves idle_opened hrun CanFrame.size
    (loaded 5) none wire).mpr (Or.inl rfl)⟩

/-- A fault after two bytes: with `TBS` clear the call returns success and the broken
frame is queued; with `TBS` set it returns an error, but the broken frame went out. -/
def TakesBroken (drv : Driver) : Prop :=
  let f : CanFrame := {CanFrame.zero with canId := 0x12345, canDlc := 1}
  let left : CanFrame := {CanFrame.zero with canId := 0x2345}
  let busy := Recorder.start (fun _ => 0) (fun _ => 0)
  let free := Recorder.start (fun _ => tbs) (fun _ => 0)
  let queued := drv.deviceWrite (resetRings .probed) CanFrame.size (.of f (some left)) busy
  let sent := drv.deviceWrite (resetRings .probed) CanFrame.size (.of f (some left)) free
  (queued.1 = CanFrame.size ∧ queued.2.dev.tx.items = [left] ∧
    ¬ AllOrNothing (resetRings .probed) CanFrame.size f (some left) busy queued) ∧
  (sent.1 = eFault ∧ sent.2.handed.map Handover.can = [left] ∧
    (0x01, sjaCommandReg) ∈ sent.2.bus.written ∧
    ¬ AllOrNothing (resetRings .probed) CanFrame.size f (some left) free sent)

theorem faulting_write_taken : TakesBroken .pelican ∧ TakesBroken .basiccan := by
  have hboth : ∀ drv, TakesBroken drv := by
    intro drv
    have hbroken : ∀ f left c, ¬ AllOrNothing (resetRings .probed) CanFrame.size f (some left) c
        (drv.deviceWrite (resetRings .probed) CanFrame.size (.of f (some left)) c) := by
      intro f left c h
      exact Driver.tookOnce_moves (drv.open_takes (resetRings_tx _).1 (by decide) _ c)
        (h.fault (by simp))
    refine ⟨⟨?_, ?_, hbroken _ _ _⟩, ?_, ?_, ?_, hbroken _ _ _⟩ <;> cases drv <;> decide +kernel
  exact ⟨hboth .pelican, hboth .basiccan⟩

end CanPci
