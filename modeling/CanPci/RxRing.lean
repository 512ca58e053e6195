import CanPci.Controller
import CanPci.RegFile

/-!
# The receive ring under complete calls
-/

namespace CanPci
open RingFifo Transition

variable {σ : Type} [Bus σ]

namespace Driver

def dlcNibble : Driver → σ → Byte
  | pelican, c => (ioread8 16 c).1 &&& 0x0f#8
  | basiccan, c => (ioread8 21 (ioread8 20 c).2).1 &&& 0x0f#8

theorem rxHeader_canDlc (drv : Driver) (c : σ) : (drv.rxHeader c).canDlc = drv.dlcNibble c := by
  cases drv with
  | pelican =>
    simp only [rxHeader, Pelican.rxHeader]
    split <;> rfl
  | basiccan => rfl

/-- A handler run that stores a frame finds a length of at most eight. -/
def FitsSlot (drv : Driver) (d : CanDev) (c : σ) : Prop :=
  (ioread8 sjaIntReg c).1 &&& ri ≠ 0 → d.rxCount < bufferSize →
    (drv.dlcNibble (drv.afterTransmit d c).bus).toNat ≤ 8

instance decidableFits (drv : Driver) (d : CanDev) (c : σ) : Decidable (drv.FitsSlot d c) :=
  inferInstanceAs (Decidable (_ ≠ _ → _ < _ → _ ≤ _))

theorem incoming_over (drv : Driver) (d : CanDev) (c : σ) : (drv.incoming d c).overrun = [] ↔
    (drv.dlcNibble (drv.afterTransmit d c).bus).toNat ≤ 8 := by
  rw [incoming, finish_over_iff, rxHeader_canDlc]

inductive RxEffect (d : CanDev) (c : σ) (out : Served σ) : Prop
  | stored (int : (ioread8 sjaIntReg c).1 &&& ri ≠ 0) (room : d.rxCount < bufferSize) (can)
      (dlc : can.canDlc.toNat ≤ 8) (tail : can.TailZero) (pad : can.pad = CanFrame.zero.pad)
      (received : out.received = [⟨can, []⟩])
      (rx : out.dev.rx = (d.rx.stage can).commit) : RxEffect d c out
  | ignored (why : ¬ ((ioread8 sjaIntReg c).1 &&& ri ≠ 0 ∧ d.rxCount < bufferSize))
      (received : out.received = []) (rx : out.dev.rx = d.rx) : RxEffect d c out

theorem irqHandler_rx (drv : Driver) (d : CanDev) (c : σ) (hle : d.rxCount ≤ bufferSize)
    (hin : d.rxIn < bufferSize) (hfit : drv.FitsSlot d c) :
    RxEffect d c (drv.irqHandler d c) := by
  by_cases h : (ioread8 sjaIntReg c).1 &&& ri ≠ 0 ∧ d.rxCount < bufferSize
  · obtain ⟨hrec, hrx⟩ := drv.irqHandler_store d c h.1 h.2
    have hover := (drv.incoming_over d c).mpr (hfit h.1 h.2)
    have hcan : drv.incoming d c = ⟨(drv.incoming d c).can, []⟩ := Received.ext rfl hover
    rw [hcan] at hrec
    exact .stored h.1 h.2 _ ((drv.incoming_over_iff d c).mp hover) (finish_tail _)
      (finish_header _).2.2 hrec (hrx hin hover)
  · obtain ⟨hrec, hrx⟩ := drv.irqHandler_ignore d c hle h
    exact .ignored h hrec hrx

theorem deviceWrite_rx (drv : Driver) (d : CanDev) (count : ℕ) (u : CopyIn) (c : σ) :
    (drv.deviceWrite d count u c).2.dev.rx = d.rx := by
  rw [deviceWrite_eq]
  unfold writeWith
  split
  · rfl
  · dsimp only [writeFinish]
    split <;> rfl

end Driver

def CanDev.rxFrom (d : CanDev) (o : ℕ) : Ring CanFrame bufferSize := {d.rx with head := o}

namespace Driver.RxEffect
variable {d : CanDev} {c : σ} {out : Served σ}

theorem keeps_head (heff : RxEffect d c out) : out.dev.rxOut = d.rxOut := by
  cases heff with
  | stored int room can dlc tail pad received rx => exact congrArg Ring.head rx
  | ignored why received rx => exact congrArg Ring.head rx

theorem count_le (heff : RxEffect d c out) : d.rxCount ≤ out.dev.rxCount := by
  cases heff with
  | stored int room can dlc tail pad received rx =>
    have hcount : out.dev.rxCount = d.rxCount + 1 := congrArg Ring.count rx
    omega
  | ignored why received rx => exact (congrArg Ring.count rx).ge

theorem from_slot (heff : RxEffect d c out) {o : ℕ} (hc : (d.rxFrom o).Consistent) :
    (out.dev.rxFrom o).Consistent ∧
    (out.dev.rxFrom o).items = (d.rxFrom o).items ++ out.received.map Received.can := by
  cases heff with
  | stored int room can dlc tail pad received rx =>
    have hring : out.dev.rxFrom o = ((d.rxFrom o).stage can).commit := by
      unfold CanDev.rxFrom
      rw [rx]
      rfl
    rw [hring, received]
    exact ⟨Ring.commit_consistent (Ring.stage_consistent hc can) room, Ring.push_items hc room can⟩
  | ignored why received rx =>
    have hring : out.dev.rxFrom o = d.rxFrom o := by
      unfold CanDev.rxFrom
      rw [rx]
    rw [hring, received]
    exact ⟨hc, (List.append_nil _).symm⟩

theorem items (heff : RxEffect d c out) (hc : d.rx.Consistent) :
    out.dev.rx.items = d.rx.items ++ out.received.map Received.can := by
  have h := (heff.from_slot (o := d.rxOut) hc).2
  have hring : out.dev.rxFrom d.rxOut = out.dev.rx := by
    rw [← heff.keeps_head]
    rfl
  rw [hring] at h
  exact h

theorem consistent (heff : RxEffect d c out) (hc : d.rx.Consistent) : out.dev.rx.Consistent := by
  have h := (heff.from_slot (o := d.rxOut) hc).1
  rw [← heff.keeps_head] at h
  exact h

theorem decoded (heff : RxEffect d c out) : ∀ r ∈ out.received,
    r.can.canDlc.toNat ≤ 8 ∧ r.can.TailZero ∧ r.can.pad = CanFrame.zero.pad := by
  intro r hr
  cases heff with
  | stored int room can dlc tail pad received rx =>
    rw [received] at hr
    rw [List.mem_singleton.mp hr]
    exact ⟨dlc, tail, pad⟩
  | ignored why received rx =>
    rw [received] at hr
    cases hr

end Driver.RxEffect

theorem deviceRead_refused (d : CanDev) (count : ℕ) (fault : Bool)
    (h : count ≠ CanFrame.size ∨ d.rxCount = 0 ∨ fault = true) :
    ∃ ret ≤ 0, deviceRead d count fault = (ret, none, d) := by
  unfold deviceRead
  by_cases hcount : count = CanFrame.size
  · rw [if_neg (not_not.mpr hcount)]
    by_cases hempty : d.rxCount = 0
    · exact ⟨0, le_refl 0, if_pos hempty⟩
    · have hfault : fault = true := (h.resolve_left (not_not.mpr hcount)).resolve_left hempty
      rw [if_neg hempty, hfault]
      exact ⟨eFault, by decide, rfl⟩
  · exact ⟨eInval, by decide, if_pos hcount⟩

theorem deviceRead_success (d : CanDev) (h : d.rxCount ≠ 0) :
    ∃ d', deviceRead d CanFrame.size false =
        ((CanFrame.size : ℤ), some (load d.rxBuf d.rxOut), d') ∧
      d'.rx = d.rx.drop ∧ d'.tx = d.tx := by
  unfold deviceRead
  rw [if_neg (not_not.mpr rfl), if_neg h]
  exact ⟨_, rfl, rfl, rfl⟩

theorem deviceRead_rx (d : CanDev) (count : ℕ) (fault : Bool) :
    (deviceRead d count fault).2.2.rx = d.rx ∨
    0 < d.rxCount ∧ (deviceRead d count fault).2.2.rx = d.rx.drop := by
  by_cases h : count ≠ CanFrame.size ∨ d.rxCount = 0 ∨ fault = true
  · obtain ⟨ret, -, he⟩ := deviceRead_refused d count fault h
    rw [he]
    exact Or.inl rfl
  · push Not at h
    obtain ⟨rfl, hpos, hfault⟩ := h
    have hfault := Bool.eq_false_of_not_eq_true hfault
    obtain ⟨d', he, hrx, -⟩ := deviceRead_success d hpos
    rw [hfault, he]
    exact Or.inr ⟨Nat.pos_of_ne_zero hpos, hrx⟩

def Fits (drv : Driver) (s : Sys σ) (op : Op) : Prop :=
  op = .irq → drv.FitsSlot s.dev s.bus

instance decidableFitsOp (drv : Driver) (s : Sys σ) (op : Op) : Decidable (Fits drv s op) :=
  inferInstanceAs (Decidable (_ → _))

theorem step_rx_consistent {drv : Driver} {env : σ → σ → Prop} {s t : Sys σ} {op : Op}
    (hstep : Guarded (Step drv env) (Fits drv) s op t) (hc : s.dev.rx.Consistent) :
    t.dev.rx.Consistent := by
  obtain ⟨hstep, hfit⟩ := hstep
  cases hstep with
  | write count u =>
    rw [show (s.write drv count u).dev.rx = s.dev.rx from drv.deviceWrite_rx _ _ _ _]
    exact hc
  | read count fault =>
    rcases deviceRead_rx s.dev count fault with hrx | ⟨hpos, hrx⟩
    · rw [Sys.read, hrx]
      exact hc
    · rw [Sys.read, hrx]
      exact Ring.drop_consistent hc hpos
  | irq => exact (drv.irqHandler_rx _ _ hc.count_le hc.tail_lt (hfit rfl)).consistent hc
  | env c h => exact hc

theorem run_rx_consistent {drv : Driver} {env : σ → σ → Prop} {s t : Sys σ} {ops : List Op}
    (hrun : Run (Guarded (Step drv env) (Fits drv)) s ops t) (hc : s.dev.rx.Consistent) :
    t.dev.rx.Consistent :=
  hrun.invariant (fun _ _ _ hc hstep => step_rx_consistent hstep hc) hc

/-- Two frames wait to be sent; three arrive and one of them is read. -/
def sampleArrivals : List Op :=
  [.write CanFrame.size (.ok (loaded 1)), .irq, .env, .irq, .write CanFrame.size (.ok (loaded 2)),
    .read CanFrame.size false, .env, .irq]

def Sys.showing : Sys RegFile := ⟨resetRings .probed, .extended, [], []⟩

theorem showing_opened : Sys.showing.Opened := ⟨⟨_, rfl⟩, rfl, rfl⟩

end CanPci
