import CanPci.Controller

/-!
# The order of transmission

`device_write` sends a frame itself when it reads `TBS` set, without a look at
`tx_count`.
-/

namespace CanPci
open RingFifo Transition

section
variable {σ : Type} [Bus σ]

/-- No copy faults, and a write that reads `TBS` set finds the ring empty. -/
def KeepsOrder (s : Sys σ) : Op → Prop
  | .write count u => count = CanFrame.size → s.dev.txCount ≠ bufferSize →
      u = .ok u.staged ∧
        ((ioread8 sjaStatusReg s.bus).1 &&& tbs = tbs → s.dev.txCount = 0)
  | _ => True

instance decidableKeepsOrder (s : Sys σ) : (op : Op) → Decidable (KeepsOrder s op)
  | .write _ _ => inferInstanceAs (Decidable (_ → _ → _ ∧ (_ → _)))
  | .read _ _ => instDecidableTrue
  | .irq => instDecidableTrue
  | .env => instDecidableTrue

/-- Everything taken was handed over or still waits, in the order it was taken. -/
structure InOrder (s : Sys σ) : Prop where
  consistent : s.dev.tx.Consistent
  order : s.accepted = s.handed.map Handover.can ++ s.dev.tx.items

omit [Bus σ] in
theorem opened_inOrder {s : Sys σ} (hs : s.Opened) : InOrder s := by
  obtain ⟨hc, hitems⟩ := hs.tx
  refine ⟨hc, ?_⟩
  rw [hs.accepted, hs.handed, hitems]
  rfl

theorem step_inOrder {drv : Driver} {env : σ → σ → Prop} {s t : Sys σ} {op : Op}
    (h : InOrder s) (hstep : Guarded (Step drv env) KeepsOrder s op t) : InOrder t := by
  obtain ⟨hstep, hguard⟩ := hstep
  obtain ⟨hc, ho⟩ := h
  have heff := step_effect hc hstep
  refine ⟨effect_consistent heff hc, ?_⟩
  cases heff with
  | refused count u why same =>
    rw [same]
    exact ho
  | queued u room busy tx bus accepted handed =>
    rw [accepted, handed, tx, Ring.push_items hc room, ho, List.append_assoc]
  | direct u room free tx bus accepted handed =>
    obtain ⟨hok, hempty⟩ := hguard rfl room.ne
    have hnil : s.dev.tx.items = [] := Ring.items_eq_nil (hempty free)
    rw [accepted, if_pos hok, handed, tx, Ring.stage_items hc room, ho, hnil]
    simp
  | drained pos int tx accepted handed =>
    rw [accepted, handed, tx, ho, Ring.items_eq_cons hc pos, List.map_append, List.append_assoc]
    rfl
  | idle h tx accepted handed =>
    rw [accepted, handed, tx]
    exact ho
  | read count fault tx accepted handed =>
    rw [accepted, handed, tx]
    exact ho
  | env tx accepted handed =>
    rw [accepted, handed, tx]
    exact ho

theorem write_overtakes (drv : Driver) {s : Sys σ} (h : InOrder s) {f g : CanFrame}
    {rest : List CanFrame} (hitems : s.dev.tx.items = g :: rest) (hne : f ≠ g)
    (hroom : s.dev.txCount ≠ bufferSize)
    (hfree : (ioread8 sjaStatusReg s.bus).1 &&& tbs = tbs) :
    let t := s.write drv CanFrame.size (.ok f)
    ¬ t.handed.map Handover.can <+: t.accepted := by
  intro t hprefix
  have heff : TxEffect drv s t (.write CanFrame.size (.ok f)) :=
    write_effect drv s CanFrame.size (.ok f) h.consistent
  cases heff with
  | refused count u why same => exact why.elim (fun hn => hn rfl) hroom
  | queued u room busy => exact busy hfree
  | direct u room free tx bus accepted handed =>
    have htaken : t.accepted = s.accepted ++ [f] := accepted.trans (if_pos rfl)
    rw [handed, htaken, h.order, hitems, List.map_append, List.append_assoc] at hprefix
    have hhead : [f] <+: g :: (rest ++ [f]) := (List.prefix_append_right_inj _).mp hprefix
    exact hne (List.cons_prefix_cons.mp hhead).1

/-- As long as no write reads `TBS` set while frames wait, the frames handed over are
the first ones taken, in order; the first such write of another frame than the oldest
waiting breaks the order. -/
theorem handed_in_order (drv : Driver) (env : σ → σ → Prop) {s t : Sys σ} {ops : List Op}
    (hs : s.Opened) (hrun : Run (Guarded (Step drv env) KeepsOrder) s ops t) :
    t.handed.map Handover.can <+: t.accepted ∧
    ∀ f g rest, t.dev.tx.items = g :: rest → f ≠ g → t.dev.txCount ≠ bufferSize →
      (ioread8 sjaStatusReg t.bus).1 &&& tbs = tbs →
      ¬ (t.write drv CanFrame.size (.ok f)).handed.map Handover.can <+:
        (t.write drv CanFrame.size (.ok f)).accepted := by
  have ht : InOrder t :=
    hrun.invariant (fun _ _ _ h hstep => step_inOrder h hstep) (opened_inOrder hs)
  refine ⟨?_, fun f g rest hitems hne hroom hfree => write_overtakes drv ht hitems hne hroom hfree⟩
  rw [ht.order]
  exact List.prefix_append _ _

end

/-- One frame direct, one queued, completion, a third frame. -/
def overtaking (drv : Driver) : Sys Chip :=
  ((((Sys.idle.write drv CanFrame.size (.ok (numbered 1))).write drv CanFrame.size
    (.ok (numbered 2))).complete).write drv CanFrame.size (.ok (numbered 3)))

/-- `overtaking` ends a run in which the third frame goes before the second. -/
def Overtakes (drv : Driver) : Prop :=
  Run (Step drv Evolves) Sys.idle [.write CanFrame.size (.ok (numbered 1)),
    .write CanFrame.size (.ok (numbered 2)), .env, .write CanFrame.size (.ok (numbered 3))]
    (overtaking drv) ∧
  (overtaking drv).accepted = [numbered 1, numbered 2, numbered 3] ∧
  (overtaking drv).handed.map Handover.can = [numbered 1, numbered 3] ∧
  ¬ (overtaking drv).handed.map Handover.can <+: (overtaking drv).accepted

theorem overtaking_reorders : Overtakes .pelican ∧ Overtakes .basiccan := by
  have hboth : ∀ drv, Overtakes drv := by
    intro drv
    have haccepted : (overtaking drv).accepted = [numbered 1, numbered 2, numbered 3] := by
      cases drv <;> decide +kernel
    have hhanded : (overtaking drv).handed.map Handover.can = [numbered 1, numbered 3] := by
      cases drv <;> decide +kernel
    have hlocked : ((Sys.idle.write drv CanFrame.size (.ok (numbered 1))).write drv CanFrame.size
        (.ok (numbered 2))).bus.free = false := by
      cases drv <;> decide +kernel
    refine ⟨?_, haccepted, hhanded, ?_⟩
    · exact (((Run.single (.write _ _ _)).snoc (.write _ _ _)).snoc
        (complete_step drv hlocked)).snoc (.write _ _ _)
    · rw [haccepted, hhanded]
      decide
  exact ⟨hboth .pelican, hboth .basiccan⟩

/-- The fifth frame would overtake the fourth. -/
theorem handed_in_order_sample :
    let t := (Machine.run (Sys.execute .pelican Chip.complete) Sys.idle sampleTraffic).1
    t.handed.map Handover.can = [loaded 1, loaded 2, loaded 3] ∧
    t.handed.map Handover.can <+: t.accepted ∧
    ¬ (t.write .pelican CanFrame.size (.ok (loaded 5))).handed.map Handover.can <+:
      (t.write .pelican CanFrame.size (.ok (loaded 5))).accepted := by
  intro t
  have hrun : Run (Guarded (Step .pelican Evolves) KeepsOrder) Sys.idle sampleTraffic t :=
    Run.of_machine execute_guarded (by decide +kernel)
  obtain ⟨horder, hbreaks⟩ := handed_in_order .pelican Evolves idle_opened hrun
  exact ⟨by decide +kernel, horder, hbreaks (loaded 5) (loaded 4) [] (by decide +kernel)
    (by decide +kernel) (by decide +kernel) (by decide +kernel)⟩

end CanPci
