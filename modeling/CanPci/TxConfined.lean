import CanPci.Access
import CanPci.Controller

/-!
# Register writes on the transmit path
-/

namespace CanPci
open RingFifo Transition

namespace Driver

/-- On every controller, and whatever memory follows the frame, sending it is a list
of writes to the transmit window and one transmission request. -/
def Confined (drv : Driver) (can : CanFrame) : Prop :=
  ∃ ws, (∀ w ∈ ws, drv.InTxWindow w.2) ∧
    ∀ (σ : Type) [Bus σ] (c : σ),
      drv.sendMessage can c = writes (ws ++ [(0x01, sjaCommandReg)]) c

theorem txHeader_window (drv : Driver) (can : CanFrame) :
    ∀ w ∈ drv.txHeader can, drv.InTxWindow w.2 := by
  have hregs : ∀ r ∈ (drv.txHeader can).map Prod.snd, drv.InTxWindow r := by
    cases drv with
    | pelican =>
      unfold txHeader Pelican.txHeader
      dsimp only
      split
      · exact (by decide : ∀ r ∈ [16, 17, 18, 19, 20], pelican.InTxWindow r)
      · exact (by decide : ∀ r ∈ [16, 17, 18], pelican.InTxWindow r)
    | basiccan => exact (by decide : ∀ r ∈ [10, 11], basiccan.InTxWindow r)
  exact fun w hw => hregs w.2 (List.mem_map_of_mem hw)

theorem txDataReg_window (drv : Driver) (can : CanFrame) {k : ℕ} (hk : k < 8) :
    drv.InTxWindow (drv.txDataReg can + BitVec.ofNat 8 k) := by
  cases drv with
  | pelican =>
    simp only [txDataReg, Pelican.txDataReg, InTxWindow]
    split <;> bv_omega
  | basiccan =>
    simp only [txDataReg, Basiccan.txDataReg, InTxWindow]
    bv_omega

theorem dataWrites_window (drv : Driver) (can : CanFrame) (n : ℕ) (h : n ≤ 8) :
    ∀ w ∈ dataWrites can n 0 (drv.txDataReg can), drv.InTxWindow w.2 := by
  have hregs : ∀ n i (index : Byte), ∀ w ∈ dataWrites can n i index,
      ∃ k < n, w.2 = index + BitVec.ofNat 8 k := by
    intro n
    induction n with
    | zero =>
      intro i index w hw
      cases hw
    | succ n ih =>
      intro i index w hw
      rcases List.mem_cons.mp hw with rfl | hw
      · exact ⟨0, Nat.succ_pos n, (BitVec.add_zero index).symm⟩
      · obtain ⟨k, hk, hreg⟩ := ih _ _ w hw
        exact ⟨k + 1, by omega, hreg.trans (Recorder.index_succ index k)⟩
  intro w hw
  obtain ⟨k, hk, hreg⟩ := hregs n 0 _ w hw
  rw [hreg]
  exact drv.txDataReg_window can (by omega)

theorem confined_of_le (drv : Driver) (can : CanFrame) (h : can.canDlc.toNat ≤ 8) :
    drv.Confined can := by
  refine ⟨drv.txHeader can ++ dataWrites can can.canDlc.toNat 0 (drv.txDataReg can), ?_, ?_⟩
  · intro w hw
    rcases List.mem_append.mp hw with hw | hw
    · exact drv.txHeader_window can w hw
    · exact drv.dataWrites_window can _ h w hw
  · intro σ _ c
    exact drv.sendMessage_eq can c h

/-- What writes to the transmit window and the request preserve, sending a frame of at most
eight bytes preserves. -/
theorem sendMessage_short {σ : Type} [Bus σ] (drv : Driver) {P : σ → Prop}
    (hwin : ∀ v reg c, drv.InTxWindow reg → P c → P (iowrite8 v reg c))
    (hrequest : ∀ c, P c → P (iowrite8 0x01 sjaCommandReg c))
    {can : CanFrame} (hd : can.canDlc.toNat ≤ 8) {c : σ} (h : P c) : P (drv.sendMessage can c) := by
  obtain ⟨ws, hregs, himage⟩ := drv.confined_of_le can hd
  have hws : ∀ ws : List (Byte × Byte), (∀ w ∈ ws, drv.InTxWindow w.2) → ∀ c, P c →
      P (writes ws c) := by
    intro ws
    induction ws with
    | nil => exact fun _ _ hc => hc
    | cons w ws ih =>
      intro hall c hc
      exact ih (fun v hv => hall v (List.mem_cons_of_mem _ hv)) _
        (hwin _ _ _ (hall w List.mem_cons_self) hc)
  rw [himage, writes_append]
  exact hrequest _ (hws ws hregs c h)

theorem afterTransmit_short {σ : Type} [Bus σ] (drv : Driver) {P : σ → Prop}
    (hread : ∀ reg c, P c → P (ioread8 reg c).2)
    (hwin : ∀ v reg c, drv.InTxWindow reg → P c → P (iowrite8 v reg c))
    (hrequest : ∀ c, P c → P (iowrite8 0x01 sjaCommandReg c))
    {d : CanDev} (ht : d.tx.Consistent) (hshort : ∀ f ∈ d.tx.items, f.canDlc.toNat ≤ 8)
    {c : σ} (h : P c) : P (drv.afterTransmit d c).bus := by
  by_cases hsend : (ioread8 sjaIntReg c).1 &&& ti ≠ 0 ∧ 0 < d.txCount
  · have hhead : load d.txBuf d.txOut ∈ d.tx.items := by
      rw [Ring.items_eq_cons ht hsend.2]
      exact List.mem_cons_self
    rw [(drv.afterTransmit_send d c hsend.1 hsend.2).2.2]
    exact drv.sendMessage_short hwin hrequest (hshort _ hhead) (hread _ _ h)
  · rw [drv.afterTransmit_idle d c hsend]
    exact hread _ _ h

theorem sendMessage_written (drv : Driver) (can : CanFrame) (reply past : ℕ → Byte) :
    (drv.sendMessage can (Recorder.start reply past)).written =
      drv.txHeader can ++ (List.range can.canDlc.toNat).map (fun k =>
        (can.dataAt past k, drv.txDataReg can + BitVec.ofNat 8 k)) ++ [(0x01, sjaCommandReg)] := by
  rw [sendMessage_split, Recorder.writes_eq, Recorder.writeData_eq]
  simp [Recorder.start]

theorem le_of_confined (drv : Driver) (can : CanFrame) (h : drv.Confined can) :
    can.canDlc.toNat ≤ 8 := by
  obtain ⟨ws, -, hsend⟩ := h
  have hsame : ∀ past : ℕ → Byte,
      drv.txHeader can ++ (List.range can.canDlc.toNat).map (fun k =>
        (can.dataAt past k, drv.txDataReg can + BitVec.ofNat 8 k)) = ws := by
    intro past
    have hlog := congrArg Recorder.written (hsend Recorder (Recorder.start (fun _ => 0) past))
    rw [sendMessage_written, Recorder.writes_eq] at hlog
    exact List.append_cancel_right hlog
  by_contra hlong
  have hboth := List.append_cancel_left ((hsame fun _ => 0).trans (hsame fun _ => 1).symm)
  have hbyte := congrArg Prod.fst (List.map_inj_left.mp hboth 8 (List.mem_range.mpr (by omega)))
  change (0 : Byte) = 1 at hbyte
  exact absurd hbyte (by decide)

theorem confined_iff (drv : Driver) (can : CanFrame) :
    drv.Confined can ↔ can.canDlc.toNat ≤ 8 :=
  ⟨drv.le_of_confined can, drv.confined_of_le can⟩

theorem deviceWrite_accepts {σ : Type} [Bus σ] (drv : Driver) (d : CanDev) (count : ℕ)
    (can : CanFrame) (c : σ) :
    0 ≤ (drv.deviceWrite d count (.ok can) c).1 ↔
      count = CanFrame.size ∧ d.txCount ≠ bufferSize := by
  by_cases h : count = CanFrame.size ∧ d.txCount ≠ bufferSize
  · obtain ⟨rfl, hroom⟩ := h
    rw [deviceWrite_open drv d _ c hroom, writeFinish]
    have hsize : (0 : ℤ) ≤ (CanFrame.size : ℤ) := Int.natCast_nonneg _
    split <;> simp [CopyIn.ret, hsize, hroom]
  · have hno : count ≠ CanFrame.size ∨ d.txCount = bufferSize := by
      by_cases hc : count = CanFrame.size
      · exact Or.inr (not_not.mp fun hroom => h ⟨hc, hroom⟩)
      · exact Or.inl hc
    obtain ⟨err, hneg, he⟩ := drv.deviceWrite_refused d count (.ok can) c hno
    rw [he]
    exact ⟨fun hpos => absurd hpos (not_le.mpr hneg), fun hyes => absurd hyes h⟩

end Driver

variable {σ : Type} [Bus σ]

def Staged (ops : List Op) (f : CanFrame) : Prop :=
  ∃ count u, Op.write count u ∈ ops ∧ u.staged = f

theorem Staged.append {ops : List Op} {f : CanFrame} (h : Staged ops f) (ops' : List Op) :
    Staged (ops ++ ops') f := by
  obtain ⟨count, u, hmem, hf⟩ := h
  exact ⟨count, u, List.mem_append_left _ hmem, hf⟩

def Sys.frames (s : Sys σ) : List CanFrame := s.dev.tx.items ++ s.handed.map Handover.can

theorem effect_frames {drv : Driver} {s t : Sys σ} {op : Op} (heff : TxEffect drv s t op)
    (hc : s.dev.tx.Consistent) : ∀ f ∈ t.frames, f ∈ s.frames ∨ Staged [op] f := by
  intro f hf
  have hnew : ∀ {u}, f = u.staged → Staged [Op.write CanFrame.size u] f :=
    fun {u} h => ⟨_, u, List.mem_singleton.mpr rfl, h.symm⟩
  cases heff with
  | refused count u why same =>
    rw [same] at hf
    exact Or.inl hf
  | queued u room busy tx bus accepted handed =>
    rw [Sys.frames, tx, Ring.push_items hc room, handed] at hf
    rcases List.mem_append.mp hf with hf | hf
    · rcases List.mem_append.mp hf with hf | hf
      · exact Or.inl (List.mem_append_left _ hf)
      · exact Or.inr (hnew (List.mem_singleton.mp hf))
    · exact Or.inl (List.mem_append_right _ hf)
  | direct u room free tx bus accepted handed =>
    rw [Sys.frames, tx, Ring.stage_items hc room, handed, List.map_append] at hf
    rcases List.mem_append.mp hf with hf | hf
    · exact Or.inl (List.mem_append_left _ hf)
    · rcases List.mem_append.mp hf with hf | hf
      · exact Or.inl (List.mem_append_right _ hf)
      · exact Or.inr (hnew (List.mem_singleton.mp hf))
  | drained pos int tx accepted handed =>
    rw [Sys.frames, tx, handed, List.map_append] at hf
    rw [Sys.frames, Ring.items_eq_cons hc pos]
    left
    rcases List.mem_append.mp hf with hf | hf
    · exact List.mem_append_left _ (List.mem_cons_of_mem _ hf)
    · rcases List.mem_append.mp hf with hf | hf
      · exact List.mem_append_right _ hf
      · rw [List.mem_singleton.mp hf]
        exact List.mem_append_left _ List.mem_cons_self
  | idle h tx accepted handed =>
    rw [Sys.frames, tx, handed] at hf
    exact Or.inl hf
  | read count fault tx accepted handed =>
    rw [Sys.frames, tx, handed] at hf
    exact Or.inl hf
  | env tx accepted handed =>
    rw [Sys.frames, tx, handed] at hf
    exact Or.inl hf

theorem run_frames {drv : Driver} {env : σ → σ → Prop} {s t : Sys σ} {ops : List Op}
    (hrun : Run (Step drv env) s ops t) (hc : s.dev.tx.Consistent) (hs : s.frames = []) :
    ∀ f ∈ t.frames, Staged ops f := by
  induction hrun with
  | nil =>
    intro f hf
    rw [hs] at hf
    cases hf
  | snoc hrun hstep ih =>
    intro f hf
    have hmid := run_consistent hrun hc
    rcases effect_frames (step_effect hmid hstep) hmid f hf with hold | hnew
    · exact (ih f hold).append _
    · obtain ⟨count, u, hmem, huf⟩ := hnew
      exact ⟨count, u, List.mem_append_right _ hmem, huf⟩

omit [Bus σ] in
theorem opened_frames {s : Sys σ} (hs : s.Opened) : s.dev.tx.Consistent ∧ s.frames = [] := by
  obtain ⟨hc, hitems⟩ := hs.tx
  refine ⟨hc, ?_⟩
  rw [Sys.frames, hitems, hs.handed]
  rfl

/-- In every run each frame handed over was staged by a write and is confined exactly
when it announces at most eight bytes; and in the state reached a write takes only
confined frames exactly when those it has a slot for announce at most eight bytes. -/
theorem transmit_confined_iff (drv : Driver) (env : σ → σ → Prop) {s t : Sys σ} {ops : List Op}
    (hs : s.Opened) (hrun : Run (Step drv env) s ops t) :
    (∀ h ∈ t.handed, Staged ops h.can ∧ (drv.Confined h.can ↔ h.can.canDlc.toNat ≤ 8)) ∧
    ∀ count can, (0 ≤ (drv.deviceWrite t.dev count (.ok can) t.bus).1 → drv.Confined can) ↔
      (count = CanFrame.size → t.dev.txCount ≠ bufferSize → can.canDlc.toNat ≤ 8) := by
  obtain ⟨hc, hframes⟩ := opened_frames hs
  constructor
  · intro h hh
    have hmem : h.can ∈ t.frames := List.mem_append_right _ (List.mem_map_of_mem hh)
    exact ⟨run_frames hrun hc hframes h.can hmem, drv.confined_iff h.can⟩
  · intro count can
    rw [drv.deviceWrite_accepts, drv.confined_iff, and_imp]

theorem transmit_confined_sample :
    let t := (Machine.run (Sys.execute .pelican Chip.complete) Sys.idle sampleTraffic).1
    t.handed.map Handover.can = [loaded 1, loaded 2, loaded 3] ∧
    (∀ h ∈ t.handed, Staged sampleTraffic h.can ∧ Driver.pelican.Confined h.can) ∧
    Driver.pelican.Confined (loaded 5) := by
  intro t
  have hrun : Run (Step .pelican Evolves) Sys.idle sampleTraffic t :=
    Run.of_machine execute_step (by decide +kernel)
  obtain ⟨hhanded, hnext⟩ := transmit_confined_iff .pelican Evolves idle_opened hrun
  have hshort : ∀ h ∈ t.handed, h.can.canDlc.toNat ≤ 8 := by decide +kernel
  refine ⟨by decide +kernel, fun h hh => ?_, ?_⟩
  · exact ⟨(hhanded h hh).1, (hhanded h hh).2.mpr (hshort h hh)⟩
  · exact (hnext CanFrame.size (loaded 5)).mpr (fun _ _ => by decide) (by decide +kernel)

def longFrame : CanFrame := {CanFrame.zero with canDlc := 20}

/-- Right after `device_open` either driver takes a frame that announces 20 bytes, and writes
one of the zeros from behind it to the clock divider. -/
theorem transmit_escapes :
    let wire := Recorder.start (fun _ => tbs) (fun _ => 0)
    let p := Driver.pelican.deviceWrite (resetRings .probed) CanFrame.size (.ok longFrame) wire
    let b := Driver.basiccan.deviceWrite (resetRings .probed) CanFrame.size (.ok longFrame) wire
    (p.1 = CanFrame.size ∧ (0, sjaClockReg) ∈ p.2.bus.written ∧
      ¬ Driver.pelican.InTxWindow sjaClockReg) ∧
    (b.1 = CanFrame.size ∧ (0, sjaClockReg) ∈ b.2.bus.written ∧
      ¬ Driver.basiccan.InTxWindow sjaClockReg) := by
  decide +kernel

end CanPci
