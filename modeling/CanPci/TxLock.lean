import CanPci.Controller

/-!
# Sending only into a released buffer

`device_write` decides from `TBS`, `irq_handler` from `TI` alone. The interrupt may
send only if no transmission was started since the completion that latched `TI`.
-/

namespace CanPci
open RingFifo Transition

section
variable {σ : Type} [Sja1000 σ]

/-- A write that is taken while `TI` is latched sends directly past an empty ring. -/
def KeepsLock (s : Sys σ) : Op → Prop
  | .write count _ => count = CanFrame.size → s.dev.txCount ≠ bufferSize →
      latched s.bus = true → released s.bus = true ∧ s.dev.txCount = 0
  | _ => True

instance decidableKeepsLock (s : Sys σ) : (op : Op) → Decidable (KeepsLock s op)
  | .write _ _ => inferInstanceAs (Decidable (_ → _ → _ → _))
  | .read _ _ => instDecidableTrue
  | .irq => instDecidableTrue
  | .env => instDecidableTrue

/-- Frames went out into a released buffer only, and the next handler run will do the
same. -/
structure LockKept (s : Sys σ) : Prop where
  consistent : s.dev.tx.Consistent
  sent : ∀ h ∈ s.handed, released h.bus = true
  next : latched s.bus = true → 0 < s.dev.txCount → released s.bus = true

theorem sent_append {s : Sys σ} (h : ∀ h ∈ s.handed, released h.bus = true)
    {new : Handover σ} (hnew : released new.bus = true) :
    ∀ h ∈ s.handed ++ [new], released h.bus = true := by
  intro x hx
  rcases List.mem_append.mp hx with hx | hx
  · exact h x hx
  · rw [List.mem_singleton.mp hx]
    exact hnew

theorem step_lockKept {drv : Driver} {s t : Sys σ} {op : Op} (h : LockKept s)
    (hstep : Guarded (Step drv Evolves) KeepsLock s op t) : LockKept t := by
  obtain ⟨hstep, hguard⟩ := hstep
  obtain ⟨hc, hsent, hnext⟩ := h
  have ht := effect_consistent (step_effect hc hstep) hc
  cases hstep with
  | write count u =>
    cases write_effect drv s count u hc with
    | refused count u why same =>
      rw [same]
      exact ⟨hc, hsent, hnext⟩
    | queued u room busy tx bus accepted handed =>
      rw [ne_eq, Sja1000.status_tbs] at busy
      refine ⟨ht, ?_, ?_⟩
      · rw [handed]
        exact hsent
      · intro hlat
        rw [bus, (Driver.status_read s.bus).2] at hlat
        exact absurd (hguard rfl room.ne hlat).1 busy
    | direct u room free tx bus accepted handed =>
      rw [Sja1000.status_tbs] at free
      have hcount : (s.write drv CanFrame.size u).dev.txCount = s.dev.txCount :=
        congrArg Ring.count tx
      refine ⟨ht, ?_, ?_⟩
      · rw [handed]
        exact sent_append hsent ((Driver.status_read s.bus).1.trans free)
      · intro hlat hpos
        rw [bus, (drv.sendMessage_locks _ _).2, (Driver.status_read s.bus).2] at hlat
        rw [hcount, (hguard rfl room.ne hlat).2] at hpos
        exact absurd hpos (Nat.lt_irrefl 0)
  | read count fault =>
    have hcount : (s.read count fault).dev.txCount = s.dev.txCount :=
      congrArg Ring.count (deviceRead_tx s.dev count fault)
    refine ⟨ht, hsent, ?_⟩
    rw [hcount]
    exact hnext
  | irq =>
    refine ⟨ht, ?_, ?_⟩
    · cases irq_effect drv s with
      | drained pos int tx accepted handed =>
        rw [handed]
        exact sent_append hsent
          ((Driver.int_read s.bus).1.trans (hnext ((Sja1000.int_ti s.bus).mp int) pos))
      | idle hidle tx accepted handed =>
        rw [handed]
        exact hsent
    · intro hlat
      rw [Sys.irq, (drv.irqHandler_controller s.dev s.bus).1] at hlat
      cases hlat
  | env c hev =>
    refine ⟨ht, hsent, ?_⟩
    rcases hev with ⟨-, hrel, -⟩ | ⟨hrel, hlat⟩
    · exact fun _ _ => hrel
    · intro hl hpos
      exact hrel.trans (hnext (hlat.symm.trans hl) hpos)

theorem irq_overwrites (drv : Driver) {s : Sys σ} (hc : s.dev.tx.Consistent) (u : CopyIn)
    (hroom : s.dev.txCount ≠ bufferSize) (hlat : latched s.bus = true)
    (hbad : ¬ (released s.bus = true ∧ s.dev.txCount = 0)) :
    ∃ h ∈ ((s.write drv CanFrame.size u).irq drv).handed, released h.bus = false := by
  have hnow : latched (s.write drv CanFrame.size u).bus = true ∧
      0 < (s.write drv CanFrame.size u).dev.txCount ∧
      released (s.write drv CanFrame.size u).bus = false := by
    cases write_effect drv s CanFrame.size u hc with
    | refused count u why same => exact (why.elim (fun hn => hn rfl) hroom).elim
    | queued u room busy tx bus accepted handed =>
      rw [ne_eq, Sja1000.status_tbs, Bool.not_eq_true] at busy
      rw [bus]
      refine ⟨(Driver.status_read s.bus).2.trans hlat, ?_, (Driver.status_read s.bus).1.trans busy⟩
      have hcount : (s.write drv CanFrame.size u).dev.txCount = s.dev.txCount + 1 :=
        congrArg Ring.count tx
      omega
    | direct u room free tx bus accepted handed =>
      rw [Sja1000.status_tbs] at free
      have hcount : (s.write drv CanFrame.size u).dev.txCount = s.dev.txCount :=
        congrArg Ring.count tx
      rw [bus, (drv.sendMessage_locks _ _).1, (drv.sendMessage_locks _ _).2]
      refine ⟨(Driver.status_read s.bus).2.trans hlat, ?_, rfl⟩
      rw [hcount]
      exact Nat.pos_of_ne_zero fun h0 => hbad ⟨free, h0⟩
  obtain ⟨hlat', hpos, hlocked⟩ := hnow
  cases irq_effect drv (s.write drv CanFrame.size u) with
  | drained pos int tx accepted handed =>
    rw [handed]
    exact ⟨_, List.mem_append_right _ (List.mem_singleton.mpr rfl),
      (Driver.int_read _).1.trans hlocked⟩
  | idle hidle tx accepted handed =>
    exact absurd ⟨(Sja1000.int_ti _).mpr hlat', hpos⟩ hidle

/-- From any consistent ring with no interrupt latched: as long as every write taken
while `TI` is latched finds the buffer released and the ring empty, frames are handed
over into a released buffer only; after any other such write the next handler run
hands one over into a locked buffer. -/
theorem send_released (drv : Driver) {s t : Sys σ} {ops : List Op}
    (hc : s.dev.tx.Consistent) (hnone : s.handed = []) (hlat : latched s.bus = false)
    (hrun : Run (Guarded (Step drv Evolves) KeepsLock) s ops t) :
    (∀ h ∈ t.handed, released h.bus = true) ∧
    ∀ u, t.dev.txCount ≠ bufferSize → latched t.bus = true →
      ¬ (released t.bus = true ∧ t.dev.txCount = 0) →
      ∃ h ∈ ((t.write drv CanFrame.size u).irq drv).handed, released h.bus = false := by
  have hs : LockKept s := by
    refine ⟨hc, ?_, ?_⟩
    · rw [hnone]
      exact fun h hh => by cases hh
    · rw [hlat]
      exact fun hl => by cases hl
  have ht : LockKept t := hrun.invariant (fun _ _ _ h hstep => step_lockKept h hstep) hs
  exact ⟨ht.sent, fun u hroom hl hbad => irq_overwrites drv ht.consistent u hroom hl hbad⟩

end

/-- A frame direct, completion, a second direct with `TI` still latched, a third
queued, and only then the interrupt. -/
def overwriting (drv : Driver) : Sys Chip :=
  (((((Sys.idle.write drv CanFrame.size (.ok (numbered 1))).complete).write drv CanFrame.size
    (.ok (numbered 2))).write drv CanFrame.size (.ok (numbered 3))).irq drv)

/-- `overwriting` ends a run in which the third frame is written over the second, which is
still being sent. -/
def Overwrites (drv : Driver) : Prop :=
  Run (Step drv Evolves) Sys.idle [.write CanFrame.size (.ok (numbered 1)), .env,
    .write CanFrame.size (.ok (numbered 2)), .write CanFrame.size (.ok (numbered 3)), .irq]
    (overwriting drv) ∧
  (overwriting drv).handed.map (fun h => (h.can, released h.bus)) =
    [(numbered 1, true), (numbered 2, true), (numbered 3, false)]

theorem overwriting_locked : Overwrites .pelican ∧ Overwrites .basiccan := by
  have hboth : ∀ drv, Overwrites drv := by
    intro drv
    have hlocked : (Sys.idle.write drv CanFrame.size (.ok (numbered 1))).bus.free = false := by
      cases drv <;> decide +kernel
    constructor
    · exact ((((Run.single (.write _ _ _)).snoc (complete_step drv hlocked)).snoc
        (.write _ _ _)).snoc (.write _ _ _)).snoc (.irq _)
    · cases drv <;> decide +kernel
  exact ⟨hboth .pelican, hboth .basiccan⟩

/-- After it a write while `TI` is latched makes the next interrupt send too early. -/
theorem send_released_sample :
    let t := (Machine.run (Sys.execute .pelican Chip.complete) Sys.idle sampleTraffic).1
    t.handed.map Handover.can = [loaded 1, loaded 2, loaded 3] ∧
    (∀ h ∈ t.handed, released h.bus = true) ∧
    ∃ h ∈ ((t.write .pelican CanFrame.size (.ok (loaded 5))).irq .pelican).handed,
      released h.bus = false := by
  intro t
  have hrun : Run (Guarded (Step .pelican Evolves) KeepsLock) Sys.idle sampleTraffic t :=
    Run.of_machine execute_guarded (by decide +kernel)
  obtain ⟨hsent, hbreaks⟩ := send_released .pelican (resetRings_tx _).1 rfl rfl hrun
  exact ⟨by decide +kernel, hsent, hbreaks (.ok (loaded 5)) (by decide +kernel) (by decide +kernel)
    (by decide +kernel)⟩

end CanPci
