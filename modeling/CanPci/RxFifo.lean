import CanPci.Lib.History
import CanPci.ReadSteps
import CanPci.RxFrames

/-!
# The receive ring under preemption

`rx_out` moves and `rx_count` drops in separate statements. In between, the queue
starts at a logical head that `rx_out` has already left or not reached yet.
-/

namespace CanPci
open RingFifo Transition

def ReadResult.Proper (r : ReadResult) : Prop :=
  match r.record with
  | some _ => r.ret = r.count ∧ r.count = CanFrame.size ∧ r.fault = false
  | none => r.ret ≤ 0

/-- A record out of the ring that no call has returned yet. -/
def ReadPc.taken : ReadPc → List CanFrame
  | .setRet can => [can]
  | .leave _ record => record.toList
  | _ => []

namespace RxSys

/-- The call is past its checks and `can` is the oldest frame from `o` on. -/
structure Copied (s : RxSys) (o : ℕ) (can : CanFrame) : Prop where
  count : s.count = CanFrame.size
  noFault : s.fault = false
  oldest : ∃ rest, (s.dev.rxFrom o).items = can :: rest

/-- What holds before each statement, for the logical head `o`. -/
def Phase (s : RxSys) (o : ℕ) : Prop :=
  match s.pc with
  | .idle => s.dev.rxOut = o
  | .checkCount => s.dev.rxOut = o
  | .checkEmpty => s.dev.rxOut = o ∧ s.count = CanFrame.size
  | .copy => s.dev.rxOut = o ∧ s.count = CanFrame.size ∧ 0 < s.dev.rxCount
  | .bump can => s.dev.rxOut = o ∧ s.Copied o can
  | .test can => s.dev.rxOut = o + 1 ∧ s.Copied o can
  | .wrap can => s.dev.rxOut = bufferSize ∧ o + 1 = bufferSize ∧ s.Copied o can
  | .drop can => s.dev.rxOut = RingFifo.next bufferSize o ∧ s.Copied o can
  | .setRet _ => s.dev.rxOut = o ∧ s.count = CanFrame.size ∧ s.fault = false
  | .leave ret record => s.dev.rxOut = o ∧ ReadResult.Proper ⟨s.count, s.fault, ret, record⟩

/-- The ring from the logical head on holds what was stored and not taken out. -/
structure Queued (s : RxSys) (o : ℕ) : Prop where
  consistent : (s.dev.rxFrom o).Consistent
  phase : s.Phase o
  order : s.stored = s.delivered ++ s.pc.taken ++ (s.dev.rxFrom o).items

def Decoded (can : CanFrame) : Prop :=
  can.canDlc.toNat ≤ 8 ∧ can.TailZero ∧ can.pad = CanFrame.zero.pad

structure Good (s : RxSys) : Prop where
  queued : ∃ o, s.Queued o
  decoded : ∀ can ∈ s.stored, Decoded can
  proper : ∀ r ∈ s.results, r.Proper

/-! ### The reader -/

theorem wrap_next {o : ℕ} (h : ¬ o + 1 = bufferSize) : o + 1 = RingFifo.next bufferSize o := by
  rw [RingFifo.next, if_neg h]

theorem next_queued {s : RxSys} {o : ℕ} (h : s.Queued o) : ∃ o', s.next.Queued o' := by
  obtain ⟨hc, hphase, horder⟩ := h
  unfold Phase at hphase
  unfold next
  cases hpc : s.pc with
  | idle =>
    refine ⟨o, hc, ?_, horder⟩
    rw [hpc] at hphase
    simpa only [Phase, hpc] using hphase
  | checkCount =>
    rw [hpc] at hphase horder
    dsimp only
    split
    · exact ⟨o, hc, ⟨hphase, by show eInval ≤ 0; decide⟩, horder⟩
    · rename_i hcount
      exact ⟨o, hc, ⟨hphase, not_not.mp hcount⟩, horder⟩
  | checkEmpty =>
    rw [hpc] at hphase horder
    dsimp only
    split
    · exact ⟨o, hc, ⟨hphase.1, le_refl (0 : ℤ)⟩, horder⟩
    · rename_i hempty
      exact ⟨o, hc, ⟨hphase.1, hphase.2, Nat.pos_of_ne_zero hempty⟩, horder⟩
  | copy =>
    rw [hpc] at hphase horder
    obtain ⟨hout, hcount, hpos⟩ := hphase
    dsimp only
    split
    · exact ⟨o, hc, ⟨hout, by show eFault ≤ 0; decide⟩, horder⟩
    · rename_i hfault
      refine ⟨o, hc, ⟨hout, hcount, Bool.eq_false_of_not_eq_true hfault, ?_⟩, horder⟩
      rw [hout]
      exact ⟨_, Ring.items_eq_cons hc hpos⟩
  | bump can =>
    rw [hpc] at hphase horder
    obtain ⟨hout, hcopied⟩ := hphase
    exact ⟨o, hc, ⟨congrArg (· + 1) hout, hcopied.count, hcopied.noFault, hcopied.oldest⟩, horder⟩
  | test can =>
    rw [hpc] at hphase horder
    obtain ⟨hout, hcopied⟩ := hphase
    dsimp only
    split
    · rename_i hend
      exact ⟨o, hc, ⟨hend, hout.symm.trans hend, hcopied.count, hcopied.noFault, hcopied.oldest⟩,
        horder⟩
    · rename_i hend
      rw [hout] at hend
      exact ⟨o, hc, ⟨hout.trans (wrap_next hend), hcopied.count, hcopied.noFault,
        hcopied.oldest⟩, horder⟩
  | wrap can =>
    rw [hpc] at hphase horder
    obtain ⟨-, hend, hcopied⟩ := hphase
    have hnext : 0 = RingFifo.next bufferSize o := by rw [RingFifo.next, if_pos hend]
    exact ⟨o, hc, ⟨hnext, hcopied.count, hcopied.noFault, hcopied.oldest⟩, horder⟩
  | drop can =>
    rw [hpc] at hphase horder
    obtain ⟨hout, hcount, hfault, rest, hitems⟩ := hphase
    have hpos : 0 < s.dev.rxCount := by
      have hlen : s.dev.rxCount = rest.length + 1 :=
        (Ring.items_length _).symm.trans (congrArg List.length hitems)
      omega
    -- the logical head moves with the counter
    refine ⟨RingFifo.next bufferSize o, Ring.drop_consistent hc hpos, ⟨hout, hcount, hfault⟩, ?_⟩
    have hrest : (s.dev.rxFrom o).drop.items = rest := by
      rw [Ring.drop_items hc hpos, hitems]
      rfl
    show s.stored = s.delivered ++ [can] ++ (s.dev.rxFrom o).drop.items
    rw [horder, hitems, hrest]
    simp [ReadPc.taken]
  | setRet can =>
    rw [hpc] at hphase horder
    obtain ⟨hout, hcount, hfault⟩ := hphase
    exact ⟨o, hc, ⟨hout, rfl, hcount, hfault⟩, horder⟩
  | leave ret record =>
    rw [hpc] at hphase horder
    refine ⟨o, hc, hphase.1, ?_⟩
    rw [horder]
    let done : ReadResult := ⟨s.count, s.fault, ret, record⟩
    have hdone : (s.results ++ [done]).filterMap ReadResult.record =
        s.results.filterMap ReadResult.record ++ record.toList := by
      rw [List.filterMap_append]
      cases hrecord : record <;> simp [done, hrecord]
    show _ = (s.results ++ [done]).filterMap ReadResult.record ++ [] ++ _
    rw [hdone, List.append_nil]
    rfl

theorem next_stored (s : RxSys) : s.next.stored = s.stored := by
  unfold next
  split
  all_goals first | rfl | (split <;> rfl)

theorem next_proper {s : RxSys} {o : ℕ} (h : s.Queued o) (hproper : ∀ r ∈ s.results, r.Proper) :
    ∀ r ∈ s.next.results, r.Proper := by
  have hphase := h.phase
  unfold Phase at hphase
  unfold next
  cases hpc : s.pc with
  | leave ret record =>
    rw [hpc] at hphase
    intro r hr
    rcases List.mem_append.mp hr with hr | hr
    · exact hproper r hr
    · rw [List.mem_singleton.mp hr]
      exact hphase.2
  | checkCount => dsimp only; split <;> exact hproper
  | checkEmpty => dsimp only; split <;> exact hproper
  | copy => dsimp only; split <;> exact hproper
  | test can => dsimp only; split <;> exact hproper
  | idle => exact hproper
  | bump can => exact hproper
  | wrap can => exact hproper
  | drop can => exact hproper
  | setRet can => exact hproper

/-! ### The handler -/

/-- A handler run only adds behind the queue, so it disturbs no statement. -/
theorem phase_append {s t : RxSys} {o : ℕ} {new : List CanFrame} (h : s.Phase o)
    (hpc : t.pc = s.pc) (hcall : t.count = s.count ∧ t.fault = s.fault)
    (hout : t.dev.rxOut = s.dev.rxOut) (hcount : s.dev.rxCount ≤ t.dev.rxCount)
    (hitems : (t.dev.rxFrom o).items = (s.dev.rxFrom o).items ++ new) : t.Phase o := by
  have hcopied : ∀ can, s.Copied o can → t.Copied o can := by
    rintro can ⟨hc, hf, rest, hrest⟩
    refine ⟨hcall.1.trans hc, hcall.2.trans hf, rest ++ new, ?_⟩
    rw [hitems, hrest]
    rfl
  unfold Phase at h ⊢
  rw [hpc]
  cases hs : s.pc with
  | idle => rw [hs] at h; exact hout.trans h
  | checkCount => rw [hs] at h; exact hout.trans h
  | checkEmpty => rw [hs] at h; exact ⟨hout.trans h.1, hcall.1.trans h.2⟩
  | copy =>
    rw [hs] at h
    exact ⟨hout.trans h.1, hcall.1.trans h.2.1, lt_of_lt_of_le h.2.2 hcount⟩
  | bump can => rw [hs] at h; exact ⟨hout.trans h.1, hcopied can h.2⟩
  | test can => rw [hs] at h; exact ⟨hout.trans h.1, hcopied can h.2⟩
  | wrap can => rw [hs] at h; exact ⟨hout.trans h.1, h.2.1, hcopied can h.2.2⟩
  | drop can => rw [hs] at h; exact ⟨hout.trans h.1, hcopied can h.2⟩
  | setRet can =>
    rw [hs] at h
    exact ⟨hout.trans h.1, hcall.1.trans h.2.1, hcall.2.trans h.2.2⟩
  | leave ret record =>
    rw [hs] at h
    rw [hcall.1, hcall.2]
    exact ⟨hout.trans h.1, h.2⟩

section
variable {σ : Type} [Bus σ]

theorem irq_queued {drv : Driver} {s : RxSys} {o : ℕ} (c : σ) (h : s.Queued o)
    (hfit : drv.FitsSlot s.dev c) : (s.irq drv c).Queued o ∧
      ∀ can ∈ (s.irq drv c).stored, can ∈ s.stored ∨ Decoded can := by
  obtain ⟨hc, hphase, horder⟩ := h
  have heff := drv.irqHandler_rx s.dev c hc.count_le hc.tail_lt hfit
  obtain ⟨hring, hitems⟩ := heff.from_slot hc
  refine ⟨⟨hring, phase_append hphase rfl ⟨rfl, rfl⟩ heff.keeps_head heff.count_le hitems, ?_⟩, ?_⟩
  · show s.stored ++ (drv.irqHandler s.dev c).received.map Received.can = _
    rw [horder, List.append_assoc]
    exact congrArg (s.delivered ++ s.pc.taken ++ ·) hitems.symm
  · intro can hcan
    rcases List.mem_append.mp hcan with hcan | hcan
    · exact Or.inl hcan
    · obtain ⟨r, hr, rfl⟩ := List.mem_map.mp hcan
      exact Or.inr (heff.decoded r hr)

def ShortFrames (drv : Driver) (s : RxSys) : RxOp σ → Prop
  | .irq c => drv.FitsSlot s.dev c
  | _ => True

theorem step_good {drv : Driver} {s t : RxSys} {op : RxOp σ} (h : s.Good)
    (hstep : Guarded (RxStep drv) (ShortFrames drv) s op t) : t.Good := by
  obtain ⟨hstep, hfit⟩ := hstep
  obtain ⟨⟨o, hq⟩, hdecoded, hproper⟩ := h
  cases hstep with
  | call count fault hpc =>
    refine ⟨⟨o, hq.consistent, ?_, ?_⟩, hdecoded, hproper⟩
    · have hphase := hq.phase
      unfold Phase at hphase
      rw [hpc] at hphase
      exact hphase
    · have horder := hq.order
      rw [hpc] at horder
      exact horder
  | statement =>
    refine ⟨next_queued hq, ?_, next_proper hq hproper⟩
    rw [next_stored]
    exact hdecoded
  | irq c =>
    obtain ⟨hq', hnew⟩ := irq_queued c hq hfit
    exact ⟨⟨o, hq'⟩, fun can hcan => (hnew can hcan).elim (hdecoded can) id, hproper⟩

/-- The steps as a machine that emits the frames its handler runs find. -/
def execute (drv : Driver) (s : RxSys) : RxOp σ → RxSys × List CanFrame
  | .call count fault => (s.call count fault, [])
  | .statement => (s.next, [])
  | .irq c => (s.irq drv c, drv.arrival s.dev c)

theorem step_execute {drv : Driver} {s t : RxSys} {op : RxOp σ} (h : s.Good)
    (hstep : Guarded (RxStep drv) (ShortFrames drv) s op t) :
    t = (s.execute drv op).1 ∧ t.stored = s.stored ++ (s.execute drv op).2 := by
  obtain ⟨hstep, hfit⟩ := hstep
  cases hstep with
  | call count fault hpc => exact ⟨rfl, (List.append_nil _).symm⟩
  | statement => exact ⟨rfl, (next_stored s).trans (List.append_nil _).symm⟩
  | irq c =>
    obtain ⟨o, hq⟩ := h.queued
    exact ⟨rfl, congrArg (s.stored ++ ·) (drv.irqHandler_arrival s.dev c hq.consistent.count_le hfit)⟩

theorem run_execute {drv : Driver} {s t : RxSys} {ops : List (RxOp σ)} (h : s.Good)
    (hrun : Run (Guarded (RxStep drv) (ShortFrames drv)) s ops t) :
    t.Good ∧ t = (Machine.run (execute drv) s ops).1 ∧
      t.stored = s.stored ++ (Machine.run (execute drv) s ops).2 := by
  induction hrun with
  | nil => exact ⟨h, rfl, (List.append_nil _).symm⟩
  | snoc _ hstep ih =>
    obtain ⟨hgood, hstate, hstored⟩ := ih
    obtain ⟨hnext, hnew⟩ := step_execute hgood hstep
    rw [Machine.run_append]
    dsimp only [Machine.run]
    rw [← hstate, List.append_nil, ← List.append_assoc, ← hstored]
    exact ⟨step_good hgood hstep, hnext, hnew⟩

def Legal (drv : Driver) (s : RxSys) : RxOp σ → Prop
  | .call _ _ => s.pc = .idle
  | .statement => True
  | .irq c => drv.FitsSlot s.dev c

instance decidableLegal (drv : Driver) (s : RxSys) : (op : RxOp σ) → Decidable (Legal drv s op)
  | .call _ _ => decEq s.pc .idle
  | .statement => instDecidableTrue
  | .irq c => inferInstanceAs (Decidable (drv.FitsSlot s.dev c))

theorem legal_step {drv : Driver} (s : RxSys) (op : RxOp σ) (h : Legal drv s op) :
    Guarded (RxStep drv) (ShortFrames drv) s op (s.execute drv op).1 := by
  cases op with
  | call count fault => exact ⟨.call s count fault h, trivial⟩
  | statement => exact ⟨.statement s, trivial⟩
  | irq c => exact ⟨.irq s c, h⟩

end

structure Fresh (s : RxSys) : Prop where
  dev : ∃ d, s.dev = resetRings d
  pc : s.pc = .idle
  stored : s.stored = []
  results : s.results = []

theorem fresh_good {s : RxSys} (h : s.Fresh) : s.Good := by
  obtain ⟨⟨d, hd⟩, hpc, hstored, hresults⟩ := h
  refine ⟨⟨0, ?_, ?_, ?_⟩, ?_, ?_⟩
  · rw [hd]
    exact (resetRings_rx d).1
  · unfold Phase
    rw [hpc, hd]
    rfl
  · rw [hstored, delivered, hresults, hpc, hd]
    rfl
  · rw [hstored]
    exact fun can hcan => by cases hcan
  · rw [hresults]
    exact fun r hr => by cases hr

end RxSys

/-- Over every run of handler runs and reads, the handler between any two statements of
a read: counter and indices stay in range; the frames stored are, in order, those the
handler runs found in the window while the ring had room, and those returned, at most one
on its way to the reader and those in the ring; only proper reads return a record; and a
full ring ignores arrivals. -/
theorem rx_ring_refines_fifo {σ : Type} [Bus σ] (drv : Driver) {s t : RxSys}
    {ops : List (RxOp σ)} (hs : s.Fresh)
    (hrun : Run (Guarded (RxStep drv) (RxSys.ShortFrames drv)) s ops t) :
    (t.dev.rxCount ≤ bufferSize ∧ t.dev.rxIn < bufferSize ∧
      (t.pc = .copy → t.dev.rxOut < bufferSize)) ∧
    t.stored = (Machine.run (RxSys.execute drv) s ops).2 ∧
    (∃ o < bufferSize, t.stored = t.delivered ++ t.pc.taken ++ (t.dev.rxFrom o).items ∧
      (t.pc = .idle → t.dev.rxOut = o)) ∧
    (∀ can ∈ t.stored, can.canDlc.toNat ≤ 8 ∧ can.TailZero ∧ can.pad = CanFrame.zero.pad) ∧
    (∀ r ∈ t.results, r.Proper) ∧
    ∀ c : σ, t.dev.rxCount = bufferSize →
      (drv.irqHandler t.dev c).received = [] ∧ (drv.irqHandler t.dev c).dev.rx = t.dev.rx := by
  obtain ⟨ht, -, hstored⟩ := RxSys.run_execute (RxSys.fresh_good hs) hrun
  rw [hs.stored, List.nil_append] at hstored
  obtain ⟨⟨o, hc, hphase, horder⟩, hdecoded, hproper⟩ := ht
  unfold RxSys.Phase at hphase
  refine ⟨⟨hc.count_le, hc.tail_lt, ?_⟩, hstored, ⟨o, hc.head_lt, horder, ?_⟩, hdecoded, hproper, ?_⟩
  · intro hpc
    rw [hpc] at hphase
    rw [hphase.1]
    exact hc.head_lt
  · intro hpc
    rw [hpc] at hphase
    exact hphase
  · intro c hfull
    exact drv.irqHandler_ignore t.dev c hc.count_le fun h => absurd h.2 (by omega)

/-- Six frames fill the ring; a seventh comes in the middle of a read, before there is room,
and an eighth after it. -/
def sampleReading : List (RxOp RegFile) :=
  (List.replicate 3 [.irq .extended, .irq .remote]).flatten ++ [.call CanFrame.size false] ++
    List.replicate 4 .statement ++ [.irq .extended, .irq .remote] ++ List.replicate 4 .statement ++
    [.irq .extended]

theorem rx_ring_refines_fifo_sample :
    let s : RxSys := ⟨resetRings .probed, .idle, 0, false, [], []⟩
    let t := (Machine.run (RxSys.execute .pelican) s sampleReading).1
    let ext : CanFrame := ⟨0x82468acf, 2, #v[0, 0, 0], #v[0xaa, 0xbb, 0, 0, 0, 0, 0, 0]⟩
    let rem : CanFrame := ⟨0x400007ff, 0, #v[0, 0, 0], #v[0, 0, 0, 0, 0, 0, 0, 0]⟩
    t.stored = [ext, rem, ext, rem, ext, rem, ext] ∧ t.delivered = [ext] ∧
      ∃ o < bufferSize, t.stored = t.delivered ++ t.pc.taken ++ (t.dev.rxFrom o).items := by
  intro s t ext rem
  have hrun : Run (Guarded (RxStep .pelican) (RxSys.ShortFrames .pelican)) s sampleReading t :=
    Run.of_machine RxSys.legal_step (by decide +kernel)
  obtain ⟨-, hstored, ⟨o, ho, horder, -⟩, -⟩ :=
    rx_ring_refines_fifo .pelican ⟨⟨_, rfl⟩, rfl, rfl, rfl⟩ hrun
  exact ⟨hstored.trans (by decide +kernel), by decide +kernel, o, ho, horder⟩

end CanPci
