import CanPci.WriteSteps

/-!
# Wake-up of the transmit queue

One client. A frame waits safely while a transmission is in progress or `TI` is
latched. Between the status read and the enqueue the frame is not counted yet, so a
handler run there finds nothing to send and uses up the interrupt.
-/

namespace CanPci
open RingFifo Transition

variable {σ : Type} [Sja1000 σ]

/-- The client has read `TBS` clear and will enqueue its frame. -/
def Writer.WillQueue (w : Writer) : Prop :=
  ∃ count ret temp, w = .polled count ret temp ∧ temp &&& tbs ≠ tbs

instance decidableWillQueue : (w : Writer) → Decidable w.WillQueue
  | .out _ => isFalse fun ⟨_, _, _, h, _⟩ => Writer.noConfusion h
  | .staged _ _ => isFalse fun ⟨_, _, _, h, _⟩ => Writer.noConfusion h
  | .polled count ret temp => decidable_of_iff (temp &&& tbs ≠ tbs)
    ⟨fun h => ⟨count, ret, temp, rfl, h⟩, fun ⟨_, _, _, heq, h⟩ => by cases heq; exact h⟩

/-- The handler does not use up the interrupt that a frame about to be enqueued waits
for. -/
def KeepsWakeup (s : Clients Unit σ) : ClientOp Unit → Prop
  | .irq => ¬ ((s.pc ()).WillQueue ∧ s.dev.txCount = 0 ∧ released s.bus = true ∧
      latched s.bus = true)
  | _ => True

instance decidableKeepsWakeup (s : Clients Unit σ) :
    (op : ClientOp Unit) → Decidable (KeepsWakeup s op)
  | .start _ _ _ => instDecidableTrue
  | .poll _ => instDecidableTrue
  | .finish _ => instDecidableTrue
  | .irq => inferInstanceAs (Decidable (¬ _))
  | .env => instDecidableTrue

/-- Whatever waits, or is about to, is in front of a completion or an interrupt. -/
def WakeupKept (s : Clients Unit σ) : Prop :=
  0 < s.dev.txCount ∨ (s.pc ()).WillQueue → released s.bus = false ∨ latched s.bus = true

omit [Sja1000 σ] in
theorem not_willQueue_out (last : Option ℤ) : ¬ (Writer.out last).WillQueue := by
  rintro ⟨count, ret, temp, h, -⟩
  cases h

theorem startWrite_not_willQueue (d : CanDev) (count : ℕ) (u : CopyIn) :
    ¬ (startWrite d count u).1.WillQueue := by
  unfold startWrite
  split
  · exact not_willQueue_out _
  · rintro ⟨count, ret, temp, h, -⟩
    cases h

theorem irq_txCount (drv : Driver) (s : Clients Unit σ) :
    (s.irq drv).dev.txCount =
      if latched s.bus = true ∧ 0 < s.dev.txCount then s.dev.txCount - 1 else s.dev.txCount := by
  obtain ⟨htx, -⟩ := drv.irqHandler_tx s.dev s.bus
  have hcount : (s.irq drv).dev.txCount = (drv.afterTransmit s.dev s.bus).dev.txCount :=
    congrArg Ring.count htx
  rw [hcount]
  split
  · rename_i h
    obtain ⟨htx, -⟩ := drv.afterTransmit_send s.dev s.bus ((Sja1000.int_ti s.bus).mpr h.1) h.2
    exact congrArg Ring.count htx
  · rename_i h
    rw [← Sja1000.int_ti] at h
    rw [drv.afterTransmit_idle s.dev s.bus h]

theorem step_wakeupKept {drv : Driver} {s t : Clients Unit σ} {op : ClientOp Unit}
    (h : WakeupKept s) (hstep : Guarded (ClientStep drv Evolves) KeepsWakeup s op t) :
    WakeupKept t := by
  obtain ⟨hstep, hguard⟩ := hstep
  cases hstep with
  | start i count u last hpc =>
    rintro (hpos | hwill)
    · refine h (Or.inl ?_)
      rw [← startWrite_txCount s.dev count u]
      exact hpos
    · refine absurd ?_ (startWrite_not_willQueue s.dev count u)
      rw [start_pc, Function.update_self] at hwill
      exact hwill
  | poll i count ret hpc =>
    obtain ⟨hrel, hlat⟩ := Driver.status_read s.bus
    show _ → released (ioread8 sjaStatusReg s.bus).2 = false ∨
      latched (ioread8 sjaStatusReg s.bus).2 = true
    rw [hrel, hlat]
    rintro (hpos | ⟨n, r, temp, hw, hbusy⟩)
    · exact h (Or.inl hpos)
    · rw [poll_pc, Function.update_self, Writer.polled.injEq] at hw
      rw [← hw.2.2, ne_eq, Sja1000.status_tbs, Bool.not_eq_true] at hbusy
      exact Or.inl hbusy
  | finish i count ret temp hpc =>
    by_cases hfree : temp &&& tbs = tbs
    · obtain ⟨-, hbus, -, -⟩ := finish_send drv s i count ret hfree
      rw [WakeupKept, hbus]
      exact fun _ => Or.inl (drv.sendMessage_locks _ _).1
    · obtain ⟨-, hbus, -, -⟩ := finish_queue drv s i count ret hfree
      rw [WakeupKept, hbus]
      exact fun _ => h (Or.inr ⟨count, ret, temp, hpc, hfree⟩)
  | irq =>
    obtain ⟨-, hrel⟩ := drv.irqHandler_controller s.dev s.bus
    have hcount := irq_txCount drv s
    intro hwait
    left
    show released (drv.irqHandler s.dev s.bus).bus = false
    rw [hrel]
    by_cases hti : latched s.bus = true
    · by_cases hpos : 0 < s.dev.txCount
      · rw [hti, decide_eq_true hpos]
        exact Bool.and_false _
      · rw [if_neg fun hboth => hpos hboth.2] at hcount
        have hwill : (s.pc ()).WillQueue := hwait.resolve_left (by rw [hcount]; exact hpos)
        rw [Bool.and_eq_false_iff]
        left
        exact Bool.eq_false_of_not_eq_true fun hr =>
          hguard ⟨hwill, Nat.eq_zero_of_not_pos hpos, hr, hti⟩
    · rw [if_neg fun hboth => hti hboth.1] at hcount
      rw [hcount] at hwait
      rw [(h hwait).resolve_right hti]
      rfl
  | env c hev =>
    intro hwait
    rcases hev with ⟨-, -, hlat⟩ | ⟨hrel, hlat⟩
    · exact Or.inr hlat
    · show released c = false ∨ latched c = true
      rw [hrel, hlat]
      exact h hwait

theorem irq_strands (drv : Driver) {s : Clients Unit σ} {count : ℕ} {ret : ℤ} {temp : Byte}
    (hpc : s.pc () = .polled count ret temp) (hbusy : temp &&& tbs ≠ tbs)
    (hnone : s.dev.txCount = 0) (hrel : released s.bus = true) :
    let t := (s.irq drv).finish () drv count ret temp
    ClientStep drv Evolves (s.irq drv) (.finish ()) t ∧ t.pc () = .out (some count) ∧
      t.dev.txCount = 1 ∧ released t.bus = true ∧ latched t.bus = false := by
  intro t
  obtain ⟨htx, hbus, -, hout⟩ := finish_queue drv (s.irq drv) () count ret hbusy
  obtain ⟨hlat', hrel'⟩ := drv.irqHandler_controller s.dev s.bus
  have hzero : ¬ 0 < s.dev.txCount := by omega
  refine ⟨.finish _ _ _ _ _ hpc, ?_, ?_, ?_, ?_⟩
  · show (Clients.finish _ _ _ _ _ _).pc () = _
    rw [hout, Function.update_self]
  · have hcount : t.dev.txCount = (s.irq drv).dev.txCount + 1 := congrArg Ring.count htx
    rw [hcount, irq_txCount, if_neg fun hboth => hzero hboth.2, hnone]
  · show released (Clients.finish _ _ _ _ _ _).bus = true
    rw [hbus]
    show released (drv.irqHandler s.dev s.bus).bus = true
    rw [hrel', hrel, decide_eq_false hzero, Bool.and_false]
    rfl
  · show latched (Clients.finish _ _ _ _ _ _).bus = false
    rw [hbus]
    exact hlat'

/-- As long as no handler run uses up a latched `TI` with the ring empty between a
status read that found `TBS` clear and its enqueue, the buffer released meanwhile, no
state outside a call leaves a frame waiting for nothing; after any other handler run
the next step of the call does. -/
theorem queue_never_stuck (drv : Driver) {s t : Clients Unit σ} {ops : List (ClientOp Unit)}
    (hempty : s.dev.txCount = 0) (hout : s.pc () = .out none)
    (hrun : Run (Guarded (ClientStep drv Evolves) KeepsWakeup) s ops t) :
    (∀ last, t.pc () = .out last → 0 < t.dev.txCount →
      released t.bus = false ∨ latched t.bus = true) ∧
    ∀ count ret temp, t.pc () = .polled count ret temp → temp &&& tbs ≠ tbs →
      t.dev.txCount = 0 → released t.bus = true →
      let u := (t.irq drv).finish () drv count ret temp
      ClientStep drv Evolves (t.irq drv) (.finish ()) u ∧ u.pc () = .out (some count) ∧
        u.dev.txCount = 1 ∧ released u.bus = true ∧ latched u.bus = false := by
  have hs : WakeupKept s := by
    rintro (hpos | hwill)
    · omega
    · rw [hout] at hwill
      exact absurd hwill (not_willQueue_out none)
  have ht : WakeupKept t := hrun.invariant (fun _ _ _ h hstep => step_wakeupKept h hstep) hs
  exact ⟨fun _ _ hpos => ht (Or.inl hpos), fun _ _ _ hpc hbusy hnone hrel =>
    irq_strands drv hpc hbusy hnone hrel⟩

namespace Clients

def idle (c : Chip) : Clients Unit Chip := ⟨resetRings .probed, c, [], fun _ => .out none⟩

/-- A frame goes out directly and a second call reads `TBS` clear. -/
def sending (drv : Driver) : Clients Unit Chip :=
  (((((idle ⟨true, false⟩).start () 16 (.ok (numbered 1))).poll () 16 16).finish () drv 16 16
    tbs).start () 16 (.ok (numbered 2))).poll () 16 16

/-- Completion and interrupt before the second frame is enqueued. -/
def stranded (drv : Driver) : Clients Unit Chip :=
  ({sending drv with bus := (sending drv).bus.complete}.irq drv).finish () drv 16 16 0

end Clients

/-- `stranded` ends a run that leaves the queued frame with the controller idle and no
interrupt latched. -/
def Strands (drv : Driver) : Prop :=
  Run (ClientStep drv Evolves) (Clients.idle ⟨true, false⟩)
    [.start () 16 (.ok (numbered 1)), .poll (), .finish (), .start () 16 (.ok (numbered 2)),
      .poll (), .env, .irq, .finish ()] (Clients.stranded drv) ∧
  (Clients.stranded drv).pc () = .out (some 16) ∧ (Clients.stranded drv).dev.txCount = 1 ∧
    released (Clients.stranded drv).bus = true ∧ latched (Clients.stranded drv).bus = false

theorem stranded_idle : Strands .pelican ∧ Strands .basiccan := by
  have hboth : ∀ drv, Strands drv := by
    intro drv
    have hlocked : (Clients.sending drv).bus.free = false := by cases drv <;> decide +kernel
    have hsend : Run (ClientStep drv Evolves) (Clients.idle ⟨true, false⟩)
        [.start () 16 (.ok (numbered 1)), .poll (), .finish (), .start () 16 (.ok (numbered 2)),
          .poll ()] (Clients.sending drv) :=
      ((((Run.single (.start _ _ _ _ none rfl)).snoc (.poll _ _ _ _ (by decide +kernel))).snoc
        (.finish _ _ _ _ _ (by decide +kernel))).snoc
        (.start _ _ _ _ (some 16) (by cases drv <;> decide +kernel))).snoc
        (.poll _ _ _ _ (by cases drv <;> decide +kernel))
    refine ⟨?_, ?_, ?_, ?_, ?_⟩
    · exact ((hsend.snoc (.env _ _ (Or.inl ⟨hlocked, rfl, rfl⟩))).snoc (.irq _)).snoc
        (.finish _ _ _ _ _ (by cases drv <;> decide +kernel))
    all_goals cases drv <;> decide +kernel
  exact ⟨hboth .pelican, hboth .basiccan⟩

/-- Four writes in their steps. The handler runs inside the third, after a completion, and the
next transmission is complete before the fourth frame is enqueued. -/
def sampleSteps : List (ClientOp Unit) :=
  [.start () 16 (.ok (loaded 1)), .poll (), .finish (), .start () 16 (.ok (loaded 2)), .poll (),
    .finish (), .start () 16 (.ok (loaded 3)), .env, .irq, .poll (), .irq, .finish (),
    .start () 16 (.ok (loaded 4)), .poll (), .env, .finish ()]

theorem queue_never_stuck_sample :
    let t := (Machine.run (Clients.execute .pelican Chip.complete) (Clients.idle ⟨true, false⟩)
      sampleSteps).1
    t.handed.map Handover.can = [loaded 1, loaded 2] ∧ t.dev.tx.items = [loaded 3, loaded 4] ∧
      (released t.bus = false ∨ latched t.bus = true) := by
  intro t
  have hrun : Run (Guarded (ClientStep .pelican Evolves) KeepsWakeup) (Clients.idle ⟨true, false⟩)
      sampleSteps t :=
    Run.of_machine (P := fun s op => s.Permits Evolves Chip.complete op ∧ KeepsWakeup s op)
      (fun s op h => ⟨execute_client s op h.1, h.2⟩) (by decide +kernel)
  exact ⟨by decide +kernel, by decide +kernel,
    (queue_never_stuck .pelican rfl rfl hrun).1 (some 16) (by decide +kernel) (by decide +kernel)⟩

end CanPci
