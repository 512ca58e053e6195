import CanPci.Controller

/-!
# The transmit ring refines a bounded FIFO

The abstract transmitter is a queue of at most six frames and the list of frames
sent. It sees of the hardware the `TBS` bit a write reads and the `TI` bit an
interrupt reads.
-/

namespace CanPci
open RingFifo Transition

structure TxSpec where
  queue : Fifo CanFrame bufferSize
  sent : List CanFrame

inductive TxEvent
  | write (count : ℕ) (can : CanFrame) (released : Bool)
  | interrupt (ti : Bool)
  | other

def TxSpec.step (q : TxSpec) : TxEvent → TxSpec
  | .write count can released =>
    if count ≠ CanFrame.size ∨ q.queue.items.length = bufferSize then q
    else if released then {q with sent := q.sent ++ [can]}
    else {q with queue := q.queue.push can}
  | .interrupt true =>
    match q.queue.items with
    | [] => q
    | f :: _ => ⟨q.queue.pop, q.sent ++ [f]⟩
  | .interrupt false => q
  | .other => q

def TxSpec.empty : TxSpec := ⟨Fifo.empty, []⟩

variable {σ : Type} [Bus σ]

def Sys.observe (s : Sys σ) : Op → TxEvent
  | .write count u => .write count u.staged ((ioread8 sjaStatusReg s.bus).1 &&& tbs = tbs)
  | .irq => .interrupt ((ioread8 sjaIntReg s.bus).1 &&& ti ≠ 0)
  | .read _ _ => .other
  | .env => .other

structure Refines (s : Sys σ) (q : TxSpec) : Prop where
  consistent : s.dev.tx.Consistent
  queue : q.queue.items = s.dev.tx.items
  sent : q.sent = s.handed.map Handover.can

omit [Bus σ] in
theorem Refines.count {s : Sys σ} {q : TxSpec} (h : Refines s q) :
    q.queue.items.length = s.dev.txCount := by
  rw [h.queue, Ring.items_length]
  rfl

omit [Bus σ] in
theorem opened_refines {s : Sys σ} (h : s.Opened) : Refines s TxSpec.empty := by
  obtain ⟨hc, hitems⟩ := h.tx
  refine ⟨hc, hitems.symm, ?_⟩
  rw [h.handed]
  rfl

theorem step_refines {drv : Driver} {env : σ → σ → Prop} {s t : Sys σ} {op : Op} {q : TxSpec}
    (hR : Refines s q) (hstep : Step drv env s op t) : Refines t (q.step (s.observe op)) := by
  have hc := hR.consistent
  have heff := step_effect hc hstep
  have ht := effect_consistent heff hc
  have hroom : s.dev.txCount < bufferSize →
      ¬ (CanFrame.size ≠ CanFrame.size ∨ q.queue.items.length = bufferSize) := by
    intro h
    rw [hR.count]
    omega
  cases heff with
  | refused count u why same =>
    rw [← hR.count] at why
    rw [Sys.observe, TxSpec.step, if_pos why, same]
    exact hR
  | queued u room busy tx bus accepted handed =>
    rw [Sys.observe, decide_eq_false busy, TxSpec.step, if_neg (hroom room)]
    refine ⟨ht, ?_, ?_⟩
    · show (q.queue.push u.staged).items = _
      rw [Fifo.push_items _ _ (by rw [hR.count]; exact room), tx, Ring.push_items hc room, hR.queue]
    · rw [handed]
      exact hR.sent
  | direct u room free tx bus accepted handed =>
    rw [Sys.observe, decide_eq_true free, TxSpec.step, if_neg (hroom room)]
    refine ⟨ht, ?_, ?_⟩
    · rw [tx, Ring.stage_items hc room]
      exact hR.queue
    · rw [handed, List.map_append, ← hR.sent]
      rfl
  | drained pos int tx accepted handed =>
    have hq : q.queue.items = load s.dev.txBuf s.dev.txOut :: s.dev.tx.drop.items := by
      rw [hR.queue]
      exact Ring.items_eq_cons hc pos
    rw [Sys.observe, decide_eq_true int]
    simp only [TxSpec.step, hq]
    refine ⟨ht, ?_, ?_⟩
    · rw [Fifo.pop_items, hq, tx]
      rfl
    · rw [handed, List.map_append, ← hR.sent]
      rfl
  | idle hidle tx accepted handed =>
    have hsame : q.step (s.observe .irq) = q := by
      by_cases hti : (ioread8 sjaIntReg s.bus).1 &&& ti ≠ 0
      · have hnil : q.queue.items = [] := by
          rw [hR.queue]
          exact Ring.items_eq_nil (Nat.eq_zero_of_not_pos fun hpos => hidle ⟨hti, hpos⟩)
        rw [Sys.observe, decide_eq_true hti]
        simp only [TxSpec.step, hnil]
      · rw [Sys.observe, decide_eq_false hti]
        rfl
    rw [hsame]
    exact ⟨ht, by rw [tx]; exact hR.queue, by rw [handed]; exact hR.sent⟩
  | read count fault tx accepted handed =>
    exact ⟨ht, by rw [tx]; exact hR.queue, by rw [handed]; exact hR.sent⟩
  | env tx accepted handed =>
    exact ⟨ht, by rw [tx]; exact hR.queue, by rw [handed]; exact hR.sent⟩

/-! ### The calls one by one -/

/-- What every complete call does in device state `d`, whatever the controller
answers. -/
structure FifoCalls (σ : Type) [Bus σ] (drv : Driver) (d : CanDev) : Prop where
  /-- Full, or a wrong count: an error, and neither the device nor a register moves. -/
  refuse : ∀ (count : ℕ) (can : CanFrame) (c : σ),
    count ≠ CanFrame.size ∨ d.tx.items.length = bufferSize →
    ∃ err < 0, drv.deviceWrite d count (.ok can) c = (err, ⟨d, c, [], []⟩)
  /-- `TBS` clear: the frame is appended and no register is written. -/
  append : ∀ (can : CanFrame) (c : σ), d.tx.items.length ≠ bufferSize →
    (ioread8 sjaStatusReg c).1 &&& tbs ≠ tbs →
    ∃ d', drv.deviceWrite d CanFrame.size (.ok can) c =
        ((CanFrame.size : ℤ), ⟨d', (ioread8 sjaStatusReg c).2, [], []⟩) ∧
      d'.tx.items = d.tx.items ++ [can]
  /-- `TBS` set: the frame itself is sent and the queue is as before. -/
  direct : ∀ (can : CanFrame) (c : σ), d.tx.items.length ≠ bufferSize →
    (ioread8 sjaStatusReg c).1 &&& tbs = tbs → can.canDlc.toNat ≤ 8 →
    ∃ d', drv.deviceWrite d CanFrame.size (.ok can) c =
        ((CanFrame.size : ℤ), ⟨d', writes (drv.txImage can) (ioread8 sjaStatusReg c).2,
          [⟨can, (ioread8 sjaStatusReg c).2⟩], []⟩) ∧
      d'.tx.items = d.tx.items
  /-- `TI` with a frame queued: the oldest is removed and sent, and nothing else is. -/
  oldest : ∀ (f : CanFrame) (rest : List CanFrame) (c : σ), d.tx.items = f :: rest →
    (ioread8 sjaIntReg c).1 &&& ti ≠ 0 → f.canDlc.toNat ≤ 8 →
    (drv.irqHandler d c).dev.tx.items = rest ∧
    (drv.irqHandler d c).handed = [⟨f, (ioread8 sjaIntReg c).2⟩] ∧
    Driver.Receiving (writes (drv.txImage f) (ioread8 sjaIntReg c).2) (drv.irqHandler d c).bus
  /-- No `TI`, or nothing queued: nothing is sent. -/
  quiet : ∀ c : σ, (ioread8 sjaIntReg c).1 &&& ti = 0 ∨ d.tx.items = [] →
    (drv.irqHandler d c).dev.tx = d.tx ∧ (drv.irqHandler d c).handed = [] ∧
    Driver.Receiving (ioread8 sjaIntReg c).2 (drv.irqHandler d c).bus

theorem fifo_calls (drv : Driver) (d : CanDev) (hc : d.tx.Consistent) : FifoCalls σ drv d := by
  have hlen : d.tx.items.length = d.txCount := Ring.items_length _
  have hlt : d.txCount ≠ bufferSize → d.tx.count < bufferSize := lt_of_le_of_ne hc.count_le
  constructor
  · intro count can c why
    rw [hlen] at why
    exact drv.deviceWrite_refused d count (.ok can) c why
  · intro can c hroom busy
    rw [hlen] at hroom
    obtain ⟨d', he, htx, -⟩ := drv.deviceWrite_queue d (.ok can) c hroom busy
    refine ⟨d', he, ?_⟩
    rw [htx, Ring.push_items hc (hlt hroom)]
    rfl
  · intro can c hroom free hdlc
    rw [hlen] at hroom
    obtain ⟨d', he, htx, -⟩ := drv.deviceWrite_direct d (.ok can) c hroom hc.tail_lt free
    refine ⟨d', ?_, ?_⟩
    · have hsend := drv.sendMessage_eq can (ioread8 sjaStatusReg c).2 hdlc
      rw [he]
      simp only [CopyIn.staged, CopyIn.ret, hsend]
    · rw [htx, Ring.stage_items hc (hlt hroom)]
  · intro f rest c hitems hti hdlc
    have hpos : 0 < d.txCount := by
      rw [← hlen, hitems]
      exact Nat.succ_pos _
    obtain ⟨hdrop, hsent, hbus⟩ := drv.afterTransmit_send d c hti hpos
    obtain ⟨htx, hhand⟩ := drv.irqHandler_tx d c
    have hcons : load d.txBuf d.txOut :: d.tx.drop.items = f :: rest :=
      (Ring.items_eq_cons hc hpos).symm.trans hitems
    obtain ⟨hf, hrest⟩ := List.cons.inj hcons
    rw [hf] at hsent hbus
    have hlater := drv.irqHandler_receiving d c
    rw [hbus, drv.sendMessage_eq _ _ hdlc] at hlater
    refine ⟨?_, hhand.trans hsent, hlater⟩
    rw [htx, hdrop, hrest]
  · intro c hquiet
    have hno : ¬ ((ioread8 sjaIntReg c).1 &&& ti ≠ 0 ∧ 0 < d.txCount) := by
      rintro ⟨hti, hpos⟩
      rcases hquiet with h | h
      · exact hti h
      · rw [← hlen, h] at hpos
        exact Nat.lt_irrefl 0 hpos
    obtain ⟨htx, hhand⟩ := drv.irqHandler_tx d c
    have hlater := drv.irqHandler_receiving d c
    rw [drv.afterTransmit_idle d c hno] at htx hhand hlater
    exact ⟨htx, hhand, hlater⟩

/-- From the state `device_open` leaves, every run of complete calls keeps the ring
consistent, agrees with the abstract transmitter on the bits the calls read, and ends
where every further call is a queue operation. -/
theorem tx_ring_refines_fifo (drv : Driver) (env : σ → σ → Prop) {s t : Sys σ} {ops : List Op}
    (hs : s.Opened) (hrun : Run (Step drv env) s ops t) :
    t.dev.tx.Consistent ∧
    (∃ trace, trace.map Prod.fst = ops ∧ Run (Observing (Step drv env) Sys.observe) s trace t ∧
      ((trace.map Prod.snd).foldl TxSpec.step .empty).queue.items = t.dev.tx.items ∧
      ((trace.map Prod.snd).foldl TxSpec.step .empty).sent = t.handed.map Handover.can) ∧
    FifoCalls σ drv t.dev := by
  obtain ⟨trace, hops, htrace⟩ := hrun.observe Sys.observe
  have hR := htrace.refine (fun _ _ _ _ hR hstep => step_refines hR hstep) (opened_refines hs)
  exact ⟨hR.consistent, ⟨trace, hops, htrace, hR.queue, hR.sent⟩,
    fifo_calls drv t.dev hR.consistent⟩

theorem tx_ring_refines_fifo_sample :
    let t := (Machine.run (Sys.execute .basiccan Chip.complete) Sys.idle sampleTraffic).1
    (∃ trace : List (Op × TxEvent), trace.map Prod.fst = sampleTraffic ∧
      ((trace.map Prod.snd).foldl TxSpec.step .empty).queue.items = [loaded 4] ∧
      ((trace.map Prod.snd).foldl TxSpec.step .empty).sent = [loaded 1, loaded 2, loaded 3]) ∧
    FifoCalls Chip .basiccan t.dev := by
  intro t
  have hrun : Run (Step .basiccan Evolves) Sys.idle sampleTraffic t :=
    Run.of_machine execute_step (by decide +kernel)
  obtain ⟨-, ⟨trace, hops, -, hqueue, hsent⟩, hcalls⟩ :=
    tx_ring_refines_fifo .basiccan Evolves idle_opened hrun
  exact ⟨⟨trace, hops, hqueue.trans (by decide +kernel), hsent.trans (by decide +kernel)⟩, hcalls⟩

end CanPci
