import CanPci.System

/-!
# The transmit ring as a bounded queue
-/

namespace CanPci
open RingFifo Transition

variable {σ : Type} [Bus σ]

inductive TxEffect (drv : Driver) (s t : Sys σ) : Op → Prop
  | refused (count u) (why : count ≠ CanFrame.size ∨ s.dev.txCount = bufferSize)
      (same : t = s) : TxEffect drv s t (.write count u)
  | queued (u) (room : s.dev.txCount < bufferSize)
      (busy : (ioread8 sjaStatusReg s.bus).1 &&& tbs ≠ tbs)
      (tx : t.dev.tx = (s.dev.tx.stage u.staged).commit)
      (bus : t.bus = (ioread8 sjaStatusReg s.bus).2)
      (accepted : t.accepted = s.accepted ++ [u.staged]) (handed : t.handed = s.handed) :
      TxEffect drv s t (.write CanFrame.size u)
  | direct (u) (room : s.dev.txCount < bufferSize)
      (free : (ioread8 sjaStatusReg s.bus).1 &&& tbs = tbs)
      (tx : t.dev.tx = s.dev.tx.stage u.staged)
      (bus : t.bus = drv.sendMessage u.staged (ioread8 sjaStatusReg s.bus).2)
      (accepted : t.accepted = if u = .ok u.staged then s.accepted ++ [u.staged] else s.accepted)
      (handed : t.handed = s.handed ++ [⟨u.staged, (ioread8 sjaStatusReg s.bus).2⟩]) :
      TxEffect drv s t (.write CanFrame.size u)
  | drained (pos : 0 < s.dev.txCount) (int : (ioread8 sjaIntReg s.bus).1 &&& ti ≠ 0)
      (tx : t.dev.tx = s.dev.tx.drop) (accepted : t.accepted = s.accepted)
      (handed : t.handed =
        s.handed ++ [⟨load s.dev.txBuf s.dev.txOut, (ioread8 sjaIntReg s.bus).2⟩]) :
      TxEffect drv s t .irq
  | idle (idle : ¬ ((ioread8 sjaIntReg s.bus).1 &&& ti ≠ 0 ∧ 0 < s.dev.txCount))
      (tx : t.dev.tx = s.dev.tx) (accepted : t.accepted = s.accepted)
      (handed : t.handed = s.handed) : TxEffect drv s t .irq
  | read (count fault) (tx : t.dev.tx = s.dev.tx) (accepted : t.accepted = s.accepted)
      (handed : t.handed = s.handed) : TxEffect drv s t (.read count fault)
  | env (tx : t.dev = s.dev) (accepted : t.accepted = s.accepted)
      (handed : t.handed = s.handed) : TxEffect drv s t .env

theorem deviceRead_tx (d : CanDev) (count : ℕ) (fault : Bool) :
    (deviceRead d count fault).2.2.tx = d.tx := by
  unfold deviceRead
  split
  · rfl
  · split
    · rfl
    · split <;> rfl

theorem write_effect (drv : Driver) (s : Sys σ) (count : ℕ) (u : CopyIn)
    (hc : s.dev.tx.Consistent) :
    TxEffect drv s (s.write drv count u) (.write count u) := by
  by_cases hno : count ≠ CanFrame.size ∨ s.dev.txCount = bufferSize
  · obtain ⟨err, hneg, he⟩ := drv.deviceWrite_refused s.dev count u s.bus hno
    refine .refused count u hno ?_
    simp only [Sys.write, he, not_le.mpr hneg, if_false, List.append_nil]
  · push Not at hno
    obtain ⟨rfl, hroom⟩ := hno
    have hlt : s.dev.txCount < bufferSize := lt_of_le_of_ne hc.count_le hroom
    have hsize : (0 : ℤ) ≤ (CanFrame.size : ℤ) := Int.natCast_nonneg _
    by_cases hfree : (ioread8 sjaStatusReg s.bus).1 &&& tbs = tbs
    · obtain ⟨d', he, htx, -⟩ :=
        drv.deviceWrite_direct s.dev u s.bus hroom hc.tail_lt hfree
      refine .direct u hlt hfree (by simp only [Sys.write, he]; exact htx)
        (by simp only [Sys.write, he]) ?_ (by simp only [Sys.write, he])
      cases u with
      | ok can => simp only [Sys.write, he, CopyIn.ret, CopyIn.staged, hsize, if_true]
      | fault left =>
        have hfault : ¬ (0 : ℤ) ≤ eFault := by decide
        simp only [Sys.write, he, CopyIn.ret, CopyIn.staged, hfault, if_false, reduceCtorEq]
    · obtain ⟨d', he, htx, -⟩ := drv.deviceWrite_queue s.dev u s.bus hroom hfree
      exact .queued u hlt hfree (by simp only [Sys.write, he]; exact htx)
        (by simp only [Sys.write, he]) (by simp only [Sys.write, he, hsize, if_true])
        (by simp only [Sys.write, he, List.append_nil])

theorem irq_effect (drv : Driver) (s : Sys σ) : TxEffect drv s (s.irq drv) .irq := by
  obtain ⟨htx, hhand⟩ := drv.irqHandler_tx s.dev s.bus
  by_cases h : (ioread8 sjaIntReg s.bus).1 &&& ti ≠ 0 ∧ 0 < s.dev.txCount
  · obtain ⟨hdrop, hsent, -⟩ := drv.afterTransmit_send s.dev s.bus h.1 h.2
    exact .drained h.2 h.1 (htx.trans hdrop) rfl
      (congrArg (s.handed ++ ·) (hhand.trans hsent))
  · rw [drv.afterTransmit_idle s.dev s.bus h] at htx hhand
    refine .idle h htx rfl ?_
    simp only [Sys.irq, hhand, List.append_nil]

theorem step_effect {drv : Driver} {env : σ → σ → Prop} {s t : Sys σ} {op : Op}
    (hc : s.dev.tx.Consistent) (h : Step drv env s op t) : TxEffect drv s t op := by
  cases h with
  | write count u => exact write_effect drv s count u hc
  | read count fault => exact .read count fault (deviceRead_tx _ _ _) rfl rfl
  | irq => exact irq_effect drv s
  | env c h => exact .env rfl rfl rfl

theorem effect_consistent {drv : Driver} {s t : Sys σ} {op : Op} (h : TxEffect drv s t op)
    (hc : s.dev.tx.Consistent) : t.dev.tx.Consistent := by
  cases h with
  | refused count u why same => rw [same]; exact hc
  | queued u room busy tx =>
    rw [tx]
    exact Ring.commit_consistent (Ring.stage_consistent hc u.staged) room
  | direct u room free tx => rw [tx]; exact Ring.stage_consistent hc u.staged
  | drained pos int tx => rw [tx]; exact Ring.drop_consistent hc pos
  | idle h tx => rw [tx]; exact hc
  | read count fault tx => rw [tx]; exact hc
  | env tx => rw [tx]; exact hc

theorem run_consistent {drv : Driver} {env : σ → σ → Prop} {s t : Sys σ} {ops : List Op}
    (h : Run (Step drv env) s ops t) (hc : s.dev.tx.Consistent) : t.dev.tx.Consistent :=
  h.invariant (fun _ _ _ hc hstep => effect_consistent (step_effect hc hstep) hc) hc

end CanPci
