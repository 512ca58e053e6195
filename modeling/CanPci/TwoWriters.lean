import CanPci.WriteSteps

/-!
# Two clients writing at once

Nothing in the driver excludes a second `device_write` between the copy of a first
one and its last step. Both then stage their frame in the same slot.
-/

namespace CanPci
open RingFifo Transition

inductive Client
  | first
  | second
  deriving DecidableEq, Repr

section
variable {σ : Type} (frame : Client → CanFrame)

/-- Each client calls once, with its own frame; no handler run. -/
def OneCall (s : Clients Client σ) : ClientOp Client → Prop
  | .start i count u => s.pc i = .out none ∧ count = CanFrame.size ∧ u = .ok (frame i)
  | .irq => False
  | _ => True

/-- Besides, a call starts only while no client is between its copy and its last
step. -/
def OneAtATime (s : Clients Client σ) (op : ClientOp Client) : Prop :=
  OneCall frame s op ∧
    ∀ i count u, op = .start i count u → ∀ j, ∃ last, s.pc j = .out last

def Writer.pending : Writer → ℕ
  | .out (some _) => 0
  | _ => 1

def pending (pc : Client → Writer) : ℕ := (pc .first).pending + (pc .second).pending

theorem pending_update (pc : Client → Writer) (i : Client) (w : Writer) :
    pending (Function.update pc i w) + (pc i).pending = pending pc + w.pending := by
  cases i with
  | first =>
    simp only [pending, Function.update_self, Function.update_of_ne (show Client.second ≠ .first by decide)]
    omega
  | second =>
    simp only [pending, Function.update_self, Function.update_of_ne (show Client.first ≠ .second by decide)]
    omega

/-- Against the device state `d` before both calls: the ring may hold one frame too
many, but the frames queued in `d` stay. -/
structure Overlapped (d e : CanDev) (pc : Client → Writer) : Prop where
  head_eq : e.txOut = d.txOut
  tail_lt : e.txIn < bufferSize
  tail_eq : e.txIn = (d.txOut + e.txCount) % bufferSize
  grows : d.txCount ≤ e.txCount
  bound : e.txCount + pending pc ≤ d.txCount + 2
  full : d.txCount = bufferSize → e.txCount = bufferSize ∧ ∀ i, ∃ last, pc i = .out last
  kept : ∀ k < d.txCount, e.tx.queued k = d.tx.queued k

namespace Overlapped
variable {d e : CanDev} {pc : Client → Writer} {i : Client}

theorem running (h : Overlapped d e pc) (hrun : ∀ last, pc i ≠ .out last) :
    d.txCount ≠ bufferSize := by
  intro hfull
  obtain ⟨last, hlast⟩ := (h.full hfull).2 i
  exact hrun last hlast

theorem ring (h : Overlapped d e pc) (hd : d.tx.Consistent) (hle : e.txCount ≤ bufferSize) :
    e.tx.Consistent := by
  refine ⟨hle, h.tail_lt, ?_, ?_⟩
  · show e.txOut < _
    rw [h.head_eq]
    exact hd.head_lt
  · show e.txIn = (e.txOut + e.txCount) % bufferSize
    rw [h.head_eq]
    exact h.tail_eq

theorem room (h : Overlapped d e pc) (hone : (pc i).pending = 1) :
    e.txCount ≤ d.txCount + 1 := by
  have hpos : 1 ≤ pending pc := by
    cases i with
    | first => simp only [pending]; omega
    | second => simp only [pending]; omega
  have := h.bound
  omega

theorem set_pc (h : Overlapped d e pc) {w : Writer} (hpend : w.pending ≤ (pc i).pending)
    (hout : d.txCount = bufferSize → ∃ last, w = .out last) :
    Overlapped d e (Function.update pc i w) := by
  have hupdate := pending_update pc i w
  refine ⟨h.head_eq, h.tail_lt, h.tail_eq, h.grows, ?_, ?_, h.kept⟩
  · have := h.bound
    omega
  · intro hfull
    refine ⟨(h.full hfull).1, fun j => ?_⟩
    obtain ⟨last, rfl⟩ := hout hfull
    by_cases hj : j = i
    · subst hj
      exact ⟨last, Function.update_self ..⟩
    · obtain ⟨l, hl⟩ := (h.full hfull).2 j
      exact ⟨l, (Function.update_of_ne hj _ _).trans hl⟩

theorem stage (h : Overlapped d e pc) (hd : d.tx.Consistent) (u : CopyIn)
    (hlt : e.txCount < bufferSize) : Overlapped d (writeCopy e u) pc := by
  refine ⟨h.head_eq, h.tail_lt, h.tail_eq, h.grows, h.bound, h.full, ?_⟩
  intro k hk
  rw [← h.kept k hk]
  exact load_store_ne _ _ ((h.ring hd hlt.le).tail_ne (lt_of_lt_of_le hk h.grows) hlt)

theorem commit (h : Overlapped d e pc) (hone : (pc i).pending = 1)
    (hnotfull : d.txCount ≠ bufferSize) {e' : CanDev} (htx : e'.tx = e.tx.commit) (r : ℤ) :
    Overlapped d e' (Function.update pc i (.out (some r))) := by
  have hzero : (Writer.out (some r)).pending = 0 := rfl
  have hupdate := pending_update pc i (.out (some r))
  rw [hone, hzero] at hupdate
  have hcount : e'.txCount = e.txCount + 1 := congrArg Ring.count htx
  have htail : e'.txIn = next bufferSize e.txIn := congrArg Ring.tail htx
  refine ⟨(congrArg Ring.head htx).trans h.head_eq, ?_, ?_, ?_, ?_,
    fun hfull => absurd hfull hnotfull, ?_⟩
  · rw [htail]
    exact next_lt h.tail_lt
  · rw [htail, hcount, next_eq_mod h.tail_lt, h.tail_eq, Nat.mod_add_mod, Nat.add_assoc]
  · have := h.grows
    omega
  · have := h.bound
    omega
  · intro k hk
    rw [htx]
    exact h.kept k hk

end Overlapped

variable [Bus σ] {frame}

theorem step_overlapped {drv : Driver} {env : σ → σ → Prop} {d : CanDev}
    {s t : Clients Client σ} {op : ClientOp Client} (hd : d.tx.Consistent)
    (h : Overlapped d s.dev s.pc)
    (hstep : Guarded (ClientStep drv env) (OneCall frame) s op t) : Overlapped d t.dev t.pc := by
  obtain ⟨hstep, hguard⟩ := hstep
  have hle : d.txCount ≤ bufferSize := hd.count_le
  cases hstep with
  | start i count u last hpc =>
    obtain ⟨hfresh, rfl, rfl⟩ := hguard
    have hone : (s.pc i).pending = 1 := by rw [hfresh]; rfl
    by_cases hroom : s.dev.txCount = bufferSize
    · obtain ⟨err, -, hs⟩ := start_refused s i CanFrame.size (.ok (frame i)) (Or.inr hroom)
      rw [hs]
      exact h.set_pc (Nat.zero_le _) fun _ => ⟨_, rfl⟩
    · have hnotfull : d.txCount ≠ bufferSize := fun hfull => hroom (h.full hfull).1
      have hlt : s.dev.txCount < bufferSize := by
        have := h.room hone
        omega
      rw [start_taken s i (.ok (frame i)) hroom]
      exact (h.stage hd _ hlt).set_pc hone.ge fun hfull => absurd hfull hnotfull
  | poll i count ret hpc =>
    have hone : (s.pc i).pending = 1 := by rw [hpc]; rfl
    have hnotfull := h.running (i := i) (by rw [hpc]; exact fun last hl => by cases hl)
    rw [poll_pc]
    exact h.set_pc hone.ge fun hfull => absurd hfull hnotfull
  | finish i count ret temp hpc =>
    have hone : (s.pc i).pending = 1 := by rw [hpc]; rfl
    have hnotfull := h.running (i := i) (by rw [hpc]; exact fun last hl => by cases hl)
    by_cases hfree : temp &&& tbs = tbs
    · obtain ⟨hdev, -, -, hout⟩ := finish_send drv s i count ret hfree
      rw [hdev, hout]
      exact h.set_pc (Nat.zero_le _) fun _ => ⟨_, rfl⟩
    · obtain ⟨htx, -, -, hout⟩ := finish_queue drv s i count ret hfree
      rw [hout]
      exact h.commit hone hnotfull htx count
  | irq => exact hguard.elim
  | env c hev => exact h

/-! ### One call at a time -/

def Writer.succeeded : Writer → Bool
  | .out (some r) => 0 ≤ r
  | _ => false

def taken (frame : Client → CanFrame) (pc : Client → Writer) : List CanFrame :=
  (if (pc .first).succeeded then [frame .first] else []) ++
    (if (pc .second).succeeded then [frame .second] else [])

omit [Bus σ] in
theorem taken_same {pc : Client → Writer} {i : Client} {w : Writer}
    (h : w.succeeded = (pc i).succeeded) : taken frame (Function.update pc i w) = taken frame pc := by
  cases i <;> simp [taken, h, Function.update_of_ne]

omit [Bus σ] in
theorem taken_gain {pc : Client → Writer} {i : Client} {w : Writer}
    (hold : (pc i).succeeded = false) (hnew : w.succeeded = true) :
    (taken frame (Function.update pc i w)).Perm (taken frame pc ++ [frame i]) := by
  cases i with
  | first =>
    simp only [taken, Function.update_self, hnew, hold, Function.update_of_ne (show Client.second ≠ .first by decide)]
    exact List.perm_append_comm
  | second =>
    simp [taken, hnew, hold, Function.update_of_ne]

/-- Client `i` is in the middle of a call: its frame is staged in a free slot and the
other client is not in a call. -/
structure Alone (frame : Client → CanFrame) (e : CanDev) (pc : Client → Writer) (i : Client) :
    Prop where
  calling : pc i = .staged CanFrame.size CanFrame.size ∨
    ∃ temp, pc i = .polled CanFrame.size CanFrame.size temp
  room : e.txCount < bufferSize
  slot : load e.txBuf e.txIn = frame i
  others : ∀ j, j ≠ i → ∃ last, pc j = .out last

structure Separated (frame : Client → CanFrame) (d e : CanDev) (handed : List CanFrame)
    (pc : Client → Writer) : Prop where
  consistent : e.tx.Consistent
  queue : ∃ q, e.tx.items = d.tx.items ++ q ∧ (handed ++ q).Perm (taken frame pc)
  calls : ∀ i, (∃ last, pc i = .out last) ∨ Alone frame e pc i

omit [Bus σ] in
theorem all_out {pc : Client → Writer} {i : Client} (last : Option ℤ)
    (h : ∀ j, j ≠ i → ∃ l, pc j = .out l) (j : Client) :
    ∃ l, Function.update pc i (.out last) j = .out l := by
  by_cases hj : j = i
  · subst hj
    exact ⟨last, Function.update_self ..⟩
  · obtain ⟨l, hl⟩ := h j hj
    exact ⟨l, (Function.update_of_ne hj _ _).trans hl⟩

omit [Bus σ] in
theorem one_alone {pc : Client → Writer} {e : CanDev} {i : Client} {w : Writer}
    (hw : w = .staged CanFrame.size CanFrame.size ∨
      ∃ temp, w = .polled CanFrame.size CanFrame.size temp)
    (hroom : e.txCount < bufferSize) (hslot : load e.txBuf e.txIn = frame i)
    (h : ∀ j, j ≠ i → ∃ l, pc j = .out l) (j : Client) :
    (∃ l, Function.update pc i w j = .out l) ∨ Alone frame e (Function.update pc i w) j := by
  by_cases hj : j = i
  · subst hj
    right
    refine ⟨?_, hroom, hslot, ?_⟩
    · rw [Function.update_self]
      exact hw
    · intro k hk
      rw [Function.update_of_ne hk]
      exact h k hk
  · rw [Function.update_of_ne hj]
    exact Or.inl (h j hj)

theorem step_separated {drv : Driver} {env : σ → σ → Prop} {d : CanDev}
    {s t : Clients Client σ} {op : ClientOp Client}
    (h : Separated frame d s.dev (s.handed.map Handover.can) s.pc)
    (hstep : Guarded (ClientStep drv env) (OneAtATime frame) s op t) :
    Separated frame d t.dev (t.handed.map Handover.can) t.pc := by
  obtain ⟨hstep, hcall, halone⟩ := hstep
  obtain ⟨q, hq, hperm⟩ := h.queue
  cases hstep with
  | start i count u last hpc =>
    obtain ⟨hfresh, rfl, rfl⟩ := hcall
    have hothers := halone i _ _ rfl
    have hold : (s.pc i).succeeded = false := by rw [hfresh]; rfl
    by_cases hroom : s.dev.txCount = bufferSize
    · obtain ⟨err, hneg, hs⟩ := start_refused s i CanFrame.size (.ok (frame i)) (Or.inr hroom)
      have hfail : (Writer.out (some err)).succeeded = false :=
        decide_eq_false (not_le.mpr hneg)
      rw [hs]
      refine ⟨h.consistent, ⟨q, hq, ?_⟩, fun j => Or.inl (all_out _ (fun k _ => hothers k) j)⟩
      rw [taken_same (hfail.trans hold.symm)]
      exact hperm
    · have hlt : s.dev.txCount < bufferSize := lt_of_le_of_ne h.consistent.count_le hroom
      rw [start_taken s i (.ok (frame i)) hroom]
      refine ⟨Ring.stage_consistent h.consistent (frame i), ⟨q, ?_, ?_⟩, ?_⟩
      · exact (Ring.stage_items h.consistent hlt (frame i)).trans hq
      · have hsame : taken frame (Function.update s.pc i (.staged CanFrame.size CanFrame.size)) =
            taken frame s.pc := taken_same hold.symm
        exact hsame ▸ hperm
      · exact one_alone (Or.inl rfl) hlt (load_store_self _ _ h.consistent.tail_lt)
          fun k _ => hothers k
  | poll i count ret hpc =>
    rcases h.calls i with ⟨last, hlast⟩ | ⟨hin, hroom, hslot, hothers⟩
    · rw [hpc] at hlast
      cases hlast
    · rw [hpc] at hin
      rcases hin with hin | ⟨temp, hin⟩
      · obtain ⟨rfl, rfl⟩ := Writer.staged.inj hin
        refine ⟨h.consistent, ⟨q, hq, ?_⟩, one_alone (Or.inr ⟨_, rfl⟩) hroom hslot hothers⟩
        rw [poll_pc, taken_same (by rw [hpc]; rfl)]
        exact hperm
      · cases hin
  | finish i count ret temp hpc =>
    rcases h.calls i with ⟨last, hlast⟩ | ⟨hin, hroom, hslot, hothers⟩
    · rw [hpc] at hlast
      cases hlast
    · rw [hpc] at hin
      rcases hin with hin | ⟨temp', hin⟩
      · cases hin
      obtain ⟨rfl, rfl, rfl⟩ := Writer.polled.inj hin
      have hold : (s.pc i).succeeded = false := by rw [hpc]; rfl
      have hsuccess : (Writer.out (some (CanFrame.size : ℤ))).succeeded = true := rfl
      by_cases hfree : temp &&& tbs = tbs
      · obtain ⟨hdev, -, hhand, hout⟩ := finish_send drv s i CanFrame.size CanFrame.size hfree
        rw [hdev, hhand, hout]
        refine ⟨h.consistent, ⟨q, hq, ?_⟩, fun j => Or.inl (all_out _ hothers j)⟩
        refine List.Perm.trans ?_ (taken_gain hold hsuccess).symm
        rw [hslot, List.map_append, List.append_assoc]
        calc (s.handed.map Handover.can ++ ([frame i] ++ q)).Perm
              (s.handed.map Handover.can ++ (q ++ [frame i])) :=
              List.Perm.append_left _ List.perm_append_comm
          _ = s.handed.map Handover.can ++ q ++ [frame i] := (List.append_assoc ..).symm
          List.Perm _ (taken frame s.pc ++ [frame i]) := hperm.append_right _
      · obtain ⟨htx, -, hhand, hout⟩ := finish_queue drv s i CanFrame.size CanFrame.size hfree
        rw [hhand, hout]
        refine ⟨?_, ⟨q ++ [frame i], ?_, ?_⟩, fun j => Or.inl (all_out _ hothers j)⟩
        · rw [htx]
          exact Ring.commit_consistent h.consistent hroom
        · rw [htx, Ring.commit_items h.consistent, hq, List.append_assoc, ← hslot]
          rfl
        · rw [← List.append_assoc]
          exact (hperm.append_right _).trans (taken_gain hold hsuccess).symm
  | irq => exact hcall.elim
  | env c hev => exact ⟨h.consistent, ⟨q, hq, hperm⟩, h.calls⟩

/-- Two clients write once each, the steps of their calls in any order and with any
status readings: the ring holds at most seven frames and the frames queued before stay.
If no call starts between another's copy and its last step, the ring holds at most six
frames and, where both calls return success, the two frames are exactly what was handed
over and appended. -/
theorem concurrent_writes (drv : Driver) (frame : Client → CanFrame) {s : Clients Client σ}
    (hc : s.dev.tx.Consistent) (hfresh : ∀ i, s.pc i = .out none) (hnone : s.handed = []) :
    (∀ ops t, Run (Guarded (ClientStep drv fun _ _ => True) (OneCall frame)) s ops t →
      t.dev.txCount ≤ 7 ∧ t.dev.tx.items.take s.dev.txCount = s.dev.tx.items) ∧
    ∀ ops t, Run (Guarded (ClientStep drv fun _ _ => True) (OneAtATime frame)) s ops t →
      t.dev.txCount ≤ bufferSize ∧ ∃ q, t.dev.tx.items = s.dev.tx.items ++ q ∧
        ∀ r₁ r₂, t.pc .first = .out (some r₁) → 0 ≤ r₁ → t.pc .second = .out (some r₂) → 0 ≤ r₂ →
          (t.handed.map Handover.can ++ q).Perm [frame .first, frame .second] := by
  constructor
  · intro ops t hrun
    have hs : Overlapped s.dev s.dev s.pc := by
      refine ⟨rfl, hc.tail_lt, hc.tail_eq, le_refl _, ?_, fun hfull => ⟨hfull, ?_⟩,
        fun _ _ => rfl⟩
      · simp only [pending, hfresh, Writer.pending]
        exact le_refl _
      · exact fun i => ⟨none, hfresh i⟩
    have ht : Overlapped s.dev t.dev t.pc :=
      hrun.invariant (fun _ _ _ h hstep => step_overlapped hc h hstep) hs
    constructor
    · have hsix : bufferSize = 6 := rfl
      have hle : s.dev.txCount ≤ bufferSize := hc.count_le
      by_cases hfull : s.dev.txCount = bufferSize
      · have := (ht.full hfull).1
        omega
      · have := ht.bound
        omega
    · have hmin : min s.dev.txCount t.dev.txCount = s.dev.txCount := min_eq_left ht.grows
      show ((List.range t.dev.txCount).map t.dev.tx.queued).take s.dev.txCount =
        (List.range s.dev.txCount).map s.dev.tx.queued
      rw [← List.map_take, List.take_range, hmin]
      exact List.map_congr_left fun k hk => ht.kept k (List.mem_range.mp hk)
  · intro ops t hrun
    have hs : Separated frame s.dev s.dev (s.handed.map Handover.can) s.pc := by
      refine ⟨hc, ⟨[], (List.append_nil _).symm, ?_⟩, fun i => Or.inl ⟨none, hfresh i⟩⟩
      rw [hnone]
      simp [taken, hfresh, Writer.succeeded]
    have ht : Separated frame s.dev t.dev (t.handed.map Handover.can) t.pc :=
      hrun.invariant (P := fun u => Separated frame s.dev u.dev (u.handed.map Handover.can) u.pc)
        (fun _ _ _ h hstep => step_separated h hstep) hs
    obtain ⟨q, hq, hperm⟩ := ht.queue
    refine ⟨ht.consistent.count_le, q, hq, ?_⟩
    intro r₁ r₂ h₁ hpos₁ h₂ hpos₂
    have hboth : taken frame t.pc = [frame .first, frame .second] := by
      simp [taken, h₁, h₂, Writer.succeeded, hpos₁, hpos₂]
    rw [← hboth]
    exact hperm

theorem call_alone (drv : Driver) (env : σ → σ → Prop) (frame : Client → CanFrame)
    (s : Clients Client σ) (i : Client) (hfresh : s.pc i = .out none)
    (hothers : ∀ j, ∃ last, s.pc j = .out last) (hroom : s.dev.txCount ≠ bufferSize) :
    Run (Guarded (ClientStep drv env) (OneAtATime frame)) s
      [.start i CanFrame.size (.ok (frame i)), .poll i, .finish i]
      (s.call i drv (.ok (frame i))) := by
  have hstaged : (s.start i CanFrame.size (.ok (frame i))).pc i =
      .staged CanFrame.size CanFrame.size := by
    rw [start_taken s i _ hroom]
    exact Function.update_self ..
  have hpolled : ((s.start i CanFrame.size (.ok (frame i))).poll i CanFrame.size CanFrame.size).pc i =
      .polled CanFrame.size CanFrame.size (ioread8 sjaStatusReg s.bus).1 := by
    rw [poll_pc, start_taken s i _ hroom]
    exact Function.update_self ..
  have hstart : OneAtATime frame s (.start i CanFrame.size (.ok (frame i))) :=
    ⟨⟨hfresh, rfl, rfl⟩, fun _ _ _ _ => hothers⟩
  have hlater : ∀ u : Clients Client σ, OneAtATime frame u (.poll i) ∧ OneAtATime frame u (.finish i) :=
    fun u => ⟨⟨trivial, fun _ _ _ h => by cases h⟩, ⟨trivial, fun _ _ _ h => by cases h⟩⟩
  exact ((Run.single ⟨.start s i _ _ none hfresh, hstart⟩).snoc
    ⟨.poll _ i _ _ hstaged, (hlater _).1⟩).snoc ⟨.finish _ i _ _ _ hpolled, (hlater _).2⟩

end

def twoFrames : Client → CanFrame
  | .first => numbered 1
  | .second => numbered 2

def bothFresh (d : CanDev) : Clients Client Chip := ⟨d, ⟨false, false⟩, [], fun _ => .out none⟩

theorem concurrent_writes_sample :
    let s := bothFresh (resetRings .probed)
    let t := (s.call .first .pelican (.ok (numbered 1))).call .second .pelican (.ok (numbered 2))
    ∃ q, t.dev.tx.items = s.dev.tx.items ++ q ∧
      (t.handed.map Handover.can ++ q).Perm [numbered 1, numbered 2] := by
  intro s t
  have hfirst := call_alone .pelican (fun _ _ => True) twoFrames s .first rfl
    (fun _ => ⟨none, rfl⟩) (by decide)
  have hothers : ∀ j, ∃ last, (s.call .first .pelican (.ok (numbered 1))).pc j = .out last := by
    intro j
    cases j with
    | first => exact ⟨some 16, by decide +kernel⟩
    | second => exact ⟨none, by decide +kernel⟩
  have hsecond := call_alone .pelican (fun _ _ => True) twoFrames
    (s.call .first .pelican (.ok (numbered 1))) .second (by decide +kernel) hothers
    (by decide +kernel)
  obtain ⟨-, q, hq, hperm⟩ := (concurrent_writes .pelican twoFrames (s := s) (resetRings_tx _).1
    (fun _ => rfl) rfl).2 _ t (hfirst.append hsecond)
  exact ⟨q, hq, hperm 16 16 (by decide +kernel) (by decide) (by decide +kernel) (by decide)⟩

/-! ### Calls that overlap -/

/-- Both clients check and copy, then both read the status, then both finish. -/
def collision (drv : Driver) (d : CanDev) : Clients Client Chip :=
  let s := ((bothFresh d).start .first 16 (.ok (numbered 1))).start .second 16 (.ok (numbered 2))
  let s := (s.poll .first 16 16).poll .second 16 16
  (s.finish .first drv 16 16 0).finish .second drv 16 16 0

def fiveQueued : CanDev := {resetRings .probed with txCount := 5, txIn := 5}

/-- `collision` ends a run in which both calls return success. On an empty ring the first frame is
gone and an empty one is queued behind the second; on a ring of five `tx_count` becomes
seven. -/
def Collides (drv : Driver) : Prop :=
  Run (Guarded (ClientStep drv fun _ _ => True) (OneCall twoFrames))
    (bothFresh (resetRings .probed))
    [.start .first 16 (.ok (numbered 1)), .start .second 16 (.ok (numbered 2)),
      .poll .first, .poll .second, .finish .first, .finish .second]
    (collision drv (resetRings .probed)) ∧
  (collision drv (resetRings .probed)).pc .first = .out (some 16) ∧
  (collision drv (resetRings .probed)).pc .second = .out (some 16) ∧
  (collision drv (resetRings .probed)).handed.map Handover.can = [] ∧
  (collision drv (resetRings .probed)).dev.tx.items = [numbered 2, CanFrame.zero] ∧
  fiveQueued.tx.Consistent ∧ (collision drv fiveQueued).dev.txCount = 7

theorem writers_collide : Collides .pelican ∧ Collides .basiccan := by
  have hboth : ∀ drv, Collides drv := by
    intro drv
    refine ⟨?_, ?_, ?_, ?_, ?_, ⟨by decide, by decide, by decide, by decide⟩, ?_⟩
    · exact (((((Run.single ⟨.start _ _ _ _ none rfl, rfl, rfl, rfl⟩).snoc
        ⟨.start _ _ _ _ none rfl, rfl, rfl, rfl⟩).snoc
        ⟨.poll _ _ 16 16 (by decide +kernel), trivial⟩).snoc
        ⟨.poll _ _ 16 16 (by decide +kernel), trivial⟩).snoc
        ⟨.finish _ _ 16 16 0 (by decide +kernel), trivial⟩).snoc
        ⟨.finish _ _ 16 16 0 (by cases drv <;> decide +kernel), trivial⟩
    all_goals cases drv <;> decide +kernel
  exact ⟨hboth .pelican, hboth .basiccan⟩

end CanPci
