import CanPci.ModeReg
import CanPci.RxRing

/-!
# Several clients of the one device

Every open file shares the device and the controller. An open enters and leaves reset
mode and clears both rings, a release enters reset mode, and neither counts the files.
-/

namespace CanPci
open RingFifo Transition

/-- `opened` tells which clients have a file. The four logs hold the frames put into the
transmit ring and sent from it, and those stored in the receive ring and read from it,
since the latest successful open. -/
structure Files (C σ : Type) where
  dev : CanDev
  bus : σ
  opened : C → Bool
  queued : List CanFrame
  sent : List CanFrame
  received : List CanFrame
  delivered : List CanFrame

inductive FileOp (C : Type)
  | deviceOpen (c : C)
  | deviceRelease (c : C)
  | deviceWrite (c : C) (count : ℕ) (u : CopyIn)
  | deviceRead (c : C) (count : ℕ) (fault : Bool)
  | irq
  | env

namespace Files
variable {C σ : Type}

section
variable [Bus σ]

def openFile [DecidableEq C] (drv : Driver) (s : Files C σ) (c : C) : Files C σ :=
  let r := drv.deviceOpen s.dev s.bus
  if r.ret = 0 then ⟨r.dev, r.bus, Function.update s.opened c true, [], [], [], []⟩
  else {s with dev := r.dev, bus := r.bus}

def release [DecidableEq C] (s : Files C σ) (c : C) : Files C σ :=
  {s with bus := (deviceRelease s.bus).2, opened := Function.update s.opened c false}

/-- A frame that is taken and not handed over was put into the ring. -/
def write (drv : Driver) (s : Files C σ) (count : ℕ) (u : CopyIn) : Files C σ :=
  let (ret, r) := drv.deviceWrite s.dev count u s.bus
  {s with
    dev := r.dev
    bus := r.bus
    queued := if 0 ≤ ret ∧ r.handed.isEmpty then s.queued ++ [u.staged] else s.queued}

def read (s : Files C σ) (count : ℕ) (fault : Bool) : Files C σ :=
  let (_, can, dev) := deviceRead s.dev count fault
  {s with dev := dev, delivered := s.delivered ++ can.toList}

def irq (drv : Driver) (s : Files C σ) : Files C σ :=
  let r := drv.irqHandler s.dev s.bus
  {s with
    dev := r.dev
    bus := r.bus
    sent := s.sent ++ r.handed.map Handover.can
    received := s.received ++ r.received.map Received.can}

def Short (drv : Driver) (s : Files C σ) : FileOp C → Prop
  | .deviceWrite _ count u => count = CanFrame.size → u.staged.canDlc.toNat ≤ 8
  | .irq => drv.FitsSlot s.dev s.bus
  | _ => True

structure Fresh (s : Files C σ) : Prop where
  dev : s.dev = .probed
  opened : ∀ c, s.opened c = false
  logs : s.queued = [] ∧ s.sent = [] ∧ s.received = [] ∧ s.delivered = []

/-- What was logged since the latest open is what left the ring and what is in it. -/
structure Logged (s : Files C σ) : Prop where
  tx : s.dev.tx.Consistent
  short : ∀ f ∈ s.dev.tx.items, f.canDlc.toNat ≤ 8
  rx : s.dev.rx.Consistent
  queued : s.queued = s.sent ++ s.dev.tx.items
  received : s.received = s.delivered ++ s.dev.rx.items

omit [Bus σ] in
theorem fresh_logged {s : Files C σ} (h : s.Fresh) : s.Logged := by
  have htx : CanDev.probed.tx.Consistent :=
    ⟨Nat.zero_le _, Nat.zero_lt_succ _, Nat.zero_lt_succ _, rfl⟩
  have hrx : CanDev.probed.rx.Consistent :=
    ⟨Nat.zero_le _, Nat.zero_lt_succ _, Nat.zero_lt_succ _, rfl⟩
  obtain ⟨hq, hs, hr, hd⟩ := h.logs
  refine ⟨h.dev ▸ htx, ?_, h.dev ▸ hrx, ?_, ?_⟩
  · rw [h.dev]
    exact fun f hf => (nomatch hf)
  · rw [h.dev, hq, hs]
    rfl
  · rw [h.dev, hr, hd]
    rfl

theorem write_logged (drv : Driver) {s : Files C σ} (hs : s.Logged) (count : ℕ) (u : CopyIn)
    (hd : count = CanFrame.size → u.staged.canDlc.toNat ≤ 8) : (s.write drv count u).Logged := by
  have hrx : (s.write drv count u).dev.rx = s.dev.rx := drv.deviceWrite_rx s.dev count u s.bus
  by_cases hno : count ≠ CanFrame.size ∨ s.dev.txCount = bufferSize
  · obtain ⟨err, hneg, he⟩ := drv.deviceWrite_refused s.dev count u s.bus hno
    have hsame : s.write drv count u = s := by
      rw [write, he]
      dsimp only
      rw [if_neg fun h => absurd h.1 (not_le.mpr hneg)]
    rw [hsame]
    exact hs
  · push Not at hno
    obtain ⟨rfl, hroom⟩ := hno
    have hlt : s.dev.tx.count < bufferSize := lt_of_le_of_ne hs.tx.count_le hroom
    have hstaged := Ring.stage_consistent hs.tx u.staged
    by_cases hfree : (ioread8 sjaStatusReg s.bus).1 &&& tbs = tbs
    · obtain ⟨d', he, htx, -⟩ := drv.deviceWrite_direct s.dev u s.bus hroom hs.tx.tail_lt hfree
      have hdev : (s.write drv CanFrame.size u).dev = d' := by rw [write, he]
      have hq : (s.write drv CanFrame.size u).queued = s.queued := by
        rw [write, he]
        exact if_neg fun h => absurd h.2 Bool.false_ne_true
      rw [← hdev] at htx
      have hitems := htx ▸ Ring.stage_items hs.tx hlt u.staged
      refine ⟨htx ▸ hstaged, ?_, hrx ▸ hs.rx, ?_, ?_⟩
      · rw [hitems]
        exact hs.short
      · rw [hq, hitems]
        exact hs.queued
      · rw [hrx]
        exact hs.received
    · obtain ⟨d', he, htx, -⟩ := drv.deviceWrite_queue s.dev u s.bus hroom hfree
      have hdev : (s.write drv CanFrame.size u).dev = d' := by rw [write, he]
      have hq : (s.write drv CanFrame.size u).queued = s.queued ++ [u.staged] := by
        have hsize : (0 : ℤ) ≤ (CanFrame.size : ℤ) := Int.natCast_nonneg _
        rw [write, he]
        dsimp only
        rw [if_pos ⟨hsize, rfl⟩]
      rw [← hdev] at htx
      have hitems := htx ▸ Ring.push_items hs.tx hlt u.staged
      refine ⟨htx ▸ Ring.commit_consistent hstaged hlt, ?_, hrx ▸ hs.rx, ?_, ?_⟩
      · rw [hitems]
        intro f hf
        rcases List.mem_append.mp hf with hf | hf
        · exact hs.short f hf
        · rw [List.mem_singleton.mp hf]
          exact hd rfl
      · rw [hq, hitems, hs.queued, List.append_assoc]
        rfl
      · rw [hrx]
        exact hs.received

omit [Bus σ] in
theorem read_logged {s : Files C σ} (hs : s.Logged) (count : ℕ) (fault : Bool) :
    (s.read count fault).Logged := by
  by_cases h : count ≠ CanFrame.size ∨ s.dev.rxCount = 0 ∨ fault = true
  · obtain ⟨ret, -, he⟩ := deviceRead_refused s.dev count fault h
    have hsame : s.read count fault = s := by
      rw [read, he]
      simp
    rw [hsame]
    exact hs
  · push Not at h
    obtain ⟨rfl, hpos, hfault⟩ := h
    obtain rfl := Bool.eq_false_of_not_eq_true hfault
    obtain ⟨d', he, hrx, htx⟩ := deviceRead_success s.dev hpos
    have hstate : s.read CanFrame.size false =
        {s with dev := d', delivered := s.delivered ++ [load s.dev.rxBuf s.dev.rxOut]} := by
      rw [read, he]
      rfl
    have hcount : 0 < s.dev.rx.count := Nat.pos_of_ne_zero hpos
    rw [hstate]
    refine ⟨?_, ?_, ?_, ?_, ?_⟩
    · exact htx ▸ hs.tx
    · rw [htx]
      exact hs.short
    · exact hrx ▸ Ring.drop_consistent hs.rx hcount
    · rw [htx]
      exact hs.queued
    · rw [hrx, hs.received, Ring.items_eq_cons hs.rx hcount, List.append_assoc]
      rfl

theorem irq_logged (drv : Driver) {s : Files C σ} (hs : s.Logged) (hfit : drv.FitsSlot s.dev s.bus) :
    (s.irq drv).Logged := by
  have heff := drv.irqHandler_rx s.dev s.bus hs.rx.count_le hs.rx.tail_lt hfit
  have hreceived : (s.irq drv).received = (s.irq drv).delivered ++ (s.irq drv).dev.rx.items := by
    show s.received ++ _ = s.delivered ++ (drv.irqHandler s.dev s.bus).dev.rx.items
    rw [heff.items hs.rx, hs.received, List.append_assoc]
  obtain ⟨htx, hhand⟩ := drv.irqHandler_tx s.dev s.bus
  by_cases h : (ioread8 sjaIntReg s.bus).1 &&& ti ≠ 0 ∧ 0 < s.dev.txCount
  · obtain ⟨hdrop, hsent, -⟩ := drv.afterTransmit_send s.dev s.bus h.1 h.2
    have hdev : (s.irq drv).dev.tx = s.dev.tx.drop := htx.trans hdrop
    have hlog : (s.irq drv).sent = s.sent ++ [load s.dev.txBuf s.dev.txOut] := by
      rw [irq, hhand, hsent]
      rfl
    have hcons := Ring.items_eq_cons hs.tx h.2
    refine ⟨?_, ?_, heff.consistent hs.rx, ?_, hreceived⟩
    · rw [hdev]
      exact Ring.drop_consistent hs.tx h.2
    · rw [hdev]
      intro f hf
      refine hs.short f ?_
      rw [hcons]
      exact List.mem_cons_of_mem _ hf
    · rw [hdev, hlog, List.append_assoc]
      exact hs.queued.trans (congrArg (s.sent ++ ·) hcons)
  · rw [drv.afterTransmit_idle s.dev s.bus h] at htx hhand
    have hdev : (s.irq drv).dev.tx = s.dev.tx := htx
    have hlog : (s.irq drv).sent = s.sent := by
      rw [irq, hhand]
      exact List.append_nil _
    refine ⟨?_, ?_, heff.consistent hs.rx, ?_, hreceived⟩
    · rw [hdev]
      exact hs.tx
    · rw [hdev]
      exact hs.short
    · rw [hdev, hlog]
      exact hs.queued

end

section
variable [ModeReg σ] [DecidableEq C]

/-- Complete calls on open files. On its own the controller leaves the reset bit alone. -/
inductive Step (drv : Driver) : Files C σ → FileOp C → Files C σ → Prop
  | deviceOpen (s c) (h : s.opened c = false) : Step drv s (.deviceOpen c) (s.openFile drv c)
  | deviceRelease (s c) (h : s.opened c = true) : Step drv s (.deviceRelease c) (s.release c)
  | deviceWrite (s c count u) (h : s.opened c = true) :
      Step drv s (.deviceWrite c count u) (s.write drv count u)
  | deviceRead (s c count fault) (h : s.opened c = true) :
      Step drv s (.deviceRead c count fault) (s.read count fault)
  | irq (s) : Step drv s .irq (s.irq drv)
  | env (s b) (h : inReset b = inReset s.bus) : Step drv s .env {s with bus := b}

/-- The calls as a machine that emits the frames read, on a controller that changes by
`evolve`. -/
def execute (drv : Driver) (evolve : σ → σ) (s : Files C σ) : FileOp C → Files C σ × List CanFrame
  | .deviceOpen c => (s.openFile drv c, [])
  | .deviceRelease c => (s.release c, [])
  | .deviceWrite _ count u => (s.write drv count u, [])
  | .deviceRead _ count fault => (s.read count fault, (deviceRead s.dev count fault).2.1.toList)
  | .irq => (s.irq drv, [])
  | .env => ({s with bus := evolve s.bus}, [])

omit [DecidableEq C] in
/-- Only closed files are opened and only open ones used. -/
def Permits (evolve : σ → σ) (s : Files C σ) : FileOp C → Prop
  | .deviceOpen c => s.opened c = false
  | .deviceRelease c => s.opened c = true
  | .deviceWrite c _ _ => s.opened c = true
  | .deviceRead c _ _ => s.opened c = true
  | .irq => True
  | .env => inReset (evolve s.bus) = inReset s.bus

theorem execute_step {drv : Driver} {evolve : σ → σ} (s : Files C σ) (op : FileOp C)
    (h : s.Permits evolve op ∧ Short drv s op) :
    Guarded (Step drv) (Short drv) s op (s.execute drv evolve op).1 := by
  refine ⟨?_, h.2⟩
  cases op with
  | deviceOpen c => exact .deviceOpen s c h.1
  | deviceRelease c => exact .deviceRelease s c h.1
  | deviceWrite c count u => exact .deviceWrite s c count u h.1
  | deviceRead c count fault => exact .deviceRead s c count fault h.1
  | irq => exact .irq s
  | env => exact .env s _ h.1

instance decidablePermits (evolve : σ → σ) (s : Files C σ) :
    (op : FileOp C) → Decidable (s.Permits evolve op)
  | .deviceOpen _ => instDecidableEqBool _ _
  | .deviceRelease _ => instDecidableEqBool _ _
  | .deviceWrite _ _ _ => instDecidableEqBool _ _
  | .deviceRead _ _ _ => instDecidableEqBool _ _
  | .irq => instDecidableTrue
  | .env => instDecidableEqBool _ _

instance decidableShort (drv : Driver) (s : Files C σ) :
    (op : FileOp C) → Decidable (Short drv s op)
  | .deviceOpen _ => instDecidableTrue
  | .deviceRelease _ => instDecidableTrue
  | .deviceWrite _ _ _ => inferInstanceAs (Decidable (_ → _))
  | .deviceRead _ _ _ => instDecidableTrue
  | .irq => inferInstanceAs (Decidable (drv.FitsSlot _ _))
  | .env => instDecidableTrue

def stopped : List (FileOp C) → Bool :=
  List.foldl (fun b op => match op with
    | .deviceOpen _ => false
    | .deviceRelease _ => true
    | _ => b) false

theorem openFile_eq (drv : Driver) (s : Files C σ) (c : C) :
    s.openFile drv c = ⟨resetRings s.dev, (drv.deviceOpen s.dev s.bus).bus,
      Function.update s.opened c true, [], [], [], []⟩ := by
  obtain ⟨hret, hdev, -⟩ := drv.deviceOpen_obeyed s.dev s.bus
  rw [openFile, if_pos hret, hdev]

theorem openFile_logged (drv : Driver) (s : Files C σ) (c : C) : (s.openFile drv c).Logged := by
  obtain ⟨htx, htxs⟩ := resetRings_tx s.dev
  obtain ⟨hrx, hrxs⟩ := resetRings_rx s.dev
  rw [openFile_eq]
  refine ⟨htx, ?_, hrx, ?_, ?_⟩
  · rw [htxs]
    exact fun f hf => by cases hf
  · rw [htxs]
    rfl
  · rw [hrxs]
    rfl

theorem step_logged {drv : Driver} {s t : Files C σ} {op : FileOp C} (hs : s.Logged)
    (hstep : Guarded (Step drv) (Short drv) s op t) : t.Logged := by
  obtain ⟨hstep, hshort⟩ := hstep
  cases hstep with
  | deviceOpen c h => exact openFile_logged drv s c
  | deviceRelease c h => exact ⟨hs.tx, hs.short, hs.rx, hs.queued, hs.received⟩
  | deviceWrite c count u h => exact write_logged drv hs count u hshort
  | deviceRead c count fault h => exact read_logged hs count fault
  | irq => exact irq_logged drv hs hshort
  | env b h => exact ⟨hs.tx, hs.short, hs.rx, hs.queued, hs.received⟩

omit [DecidableEq C] in
theorem stopped_snoc (ops : List (FileOp C)) (op : FileOp C) :
    stopped (ops ++ [op]) = match op with
      | .deviceOpen _ => false
      | .deviceRelease _ => true
      | _ => stopped ops := by
  rw [stopped, List.foldl_append]
  cases op <;> rfl

theorem run_mode {drv : Driver} {s t : Files C σ} {ops : List (FileOp C)} (hs : s.Fresh)
    (hrun : Run (Guarded (Step drv) (Short drv)) s ops t) :
    t.Logged ∧ ((∃ c, t.opened c = true) → inReset t.bus = stopped ops) := by
  induction hrun with
  | nil =>
    refine ⟨fresh_logged hs, ?_⟩
    rintro ⟨c, hc⟩
    rw [hs.opened c] at hc
    cases hc
  | @snoc t u ops op hrun hstep ih =>
    obtain ⟨hlog, hmode⟩ := ih
    refine ⟨step_logged hlog hstep, ?_⟩
    obtain ⟨hstep, hshort⟩ := hstep
    rw [stopped_snoc]
    cases hstep with
    | deviceOpen c h =>
      intro _
      rw [openFile_eq]
      exact (drv.deviceOpen_obeyed t.dev t.bus).2.2
    | deviceRelease c h => exact fun _ => Driver.deviceRelease_reset t.bus
    | deviceWrite c count u h =>
      intro _
      exact (drv.deviceWrite_mode t.dev hlog.tx.tail_lt hshort t.bus).trans (hmode ⟨c, h⟩)
    | deviceRead c count fault h =>
      intro _
      exact hmode ⟨c, h⟩
    | irq =>
      intro hopen
      exact (drv.irqHandler_mode hlog.tx hlog.short t.bus).trans (hmode hopen)
    | env b h => exact fun hopen => h.trans (hmode hopen)

/-- In every run the controller is in reset mode, while a client has a file, exactly if a
file was released since the latest open; the frames queued and received since that open
have been sent and read or are in the rings, in order; and whoever opens next leaves reset
mode and clears both rings. -/
theorem shared_device {drv : Driver} {s t : Files C σ} {ops : List (FileOp C)} (hs : s.Fresh)
    (hrun : Run (Guarded (Step drv) (Short drv)) s ops t) :
    ((∃ c, t.opened c = true) → inReset t.bus = stopped ops) ∧
    t.queued = t.sent ++ t.dev.tx.items ∧ t.received = t.delivered ++ t.dev.rx.items ∧
    ∀ c, inReset (t.openFile drv c).bus = false ∧ (t.openFile drv c).dev.tx.items = [] ∧
      (t.openFile drv c).dev.rx.items = [] := by
  obtain ⟨hlog, hmode⟩ := run_mode hs hrun
  refine ⟨hmode, hlog.queued, hlog.received, fun c => ?_⟩
  rw [openFile_eq]
  exact ⟨(drv.deviceOpen_obeyed t.dev t.bus).2.2, (resetRings_tx t.dev).2, (resetRings_rx t.dev).2⟩

end

/-! ### Two clients -/

/-- A controller with a reset bit and a transmit buffer, locked by a request until it is
reset. -/
structure ModeChip where
  reset : Bool
  locked : Bool
  deriving DecidableEq, Repr

instance : ModeReg ModeChip where
  ioread8 reg c :=
    (if reg = sjaModeReg then (if c.reset then resetBit else 0)
      else if reg = sjaStatusReg ∧ c.locked = false then tbs else 0, c)
  iowrite8 v reg c :=
    ⟨if reg = sjaModeReg then v.getLsbD 0 else c.reset,
      if reg = sjaModeReg then c.locked && !v.getLsbD 0
      else c.locked || (reg == sjaCommandReg && v.getLsbD 0)⟩
  past _ _ := 0
  inReset c := c.reset
  mode_read c := by
    dsimp only
    rw [if_pos rfl]
    cases c.reset <;> decide
  read_reset _ _ := rfl
  write_reset _ _ _ := rfl

def fresh : Files Bool ModeChip := ⟨.probed, ⟨true, false⟩, fun _ => false, [], [], [], []⟩

/-- Client `false` opens, sends a frame and queues another. -/
def busy (drv : Driver) : Files Bool ModeChip :=
  ((fresh.openFile drv false).write drv CanFrame.size (.ok (numbered 1))).write drv CanFrame.size
    (.ok (numbered 2))

theorem busy_run (drv : Driver) : Run (Guarded (Step drv) (Short drv)) fresh [.deviceOpen false,
    .deviceWrite false CanFrame.size (.ok (numbered 1)),
    .deviceWrite false CanFrame.size (.ok (numbered 2))] (busy drv) := by
  have hopen : (fresh.openFile drv false).opened false = true := by
    rw [openFile_eq]
    rfl
  exact ((Run.single ⟨.deviceOpen _ _ rfl, trivial⟩).snoc
    ⟨.deviceWrite _ _ _ _ hopen, fun _ => by decide⟩).snoc
    ⟨.deviceWrite _ _ _ _ hopen, fun _ => by decide⟩

/-- Client `true` opens while the second frame waits, and the frame is gone; it releases,
and the controller is in reset mode while client `false` has its file. -/
def Disturbs (drv : Driver) : Prop :=
  let second := (busy drv).openFile drv true
  let last := second.release true
  Run (Guarded (Step drv) (Short drv)) fresh [.deviceOpen false,
    .deviceWrite false CanFrame.size (.ok (numbered 1)),
    .deviceWrite false CanFrame.size (.ok (numbered 2)), .deviceOpen true, .deviceRelease true]
    last ∧
  (busy drv).dev.tx.items = [numbered 2] ∧ second.dev.tx.items = [] ∧
  last.opened false = true ∧ inReset last.bus = true

theorem clients_disturb : Disturbs .pelican ∧ Disturbs .basiccan := by
  have hboth : ∀ drv, Disturbs drv := by
    intro drv
    have hopen : ((busy drv).openFile drv true).opened true = true := by
      rw [openFile_eq]
      rfl
    have hclosed : (busy drv).opened true = false := by
      show (fresh.openFile drv false).opened true = false
      rw [openFile_eq]
      rfl
    have hwaits : (busy drv).dev.tx.items = [numbered 2] := by cases drv <;> decide +kernel
    refine ⟨?_, hwaits, ?_, ?_, Driver.deviceRelease_reset _⟩
    · exact ((busy_run drv).snoc ⟨.deviceOpen _ _ hclosed, trivial⟩).snoc
        ⟨.deviceRelease _ _ hopen, trivial⟩
    · rw [openFile_eq]
      exact (resetRings_tx _).2
    · show Function.update ((busy drv).openFile drv true).opened true false false = true
      rw [Function.update_of_ne Bool.false_ne_true, openFile_eq]
      show Function.update (fresh.openFile drv false).opened true true false = true
      rw [Function.update_of_ne Bool.false_ne_true, openFile_eq]
      rfl
  exact ⟨hboth .pelican, hboth .basiccan⟩

instance : ModeReg RegFile where
  inReset w := (w.regs sjaModeReg).getLsbD 0
  mode_read _ := rfl
  read_reset _ _ := rfl
  write_reset v reg w := by
    rw [RegFile.iowrite8_regs, Function.update_apply]
    simp only [eq_comm, apply_ite (fun b : Byte => b.getLsbD 0)]

/-- A transmission is complete and a frame has come. -/
def notified (w : RegFile) : RegFile :=
  {w with regs := fun reg =>
    if reg = sjaIntReg then ti ||| ri else if reg.toNat < 16 then w.regs reg
      else RegFile.extended.regs reg}

/-- The second open clears what the first client queued. Both clients write, the handler sends
and receives, and the second client's release stops the controller under the first. -/
def sampleFiles : List (FileOp Bool) :=
  [.deviceOpen false, .deviceWrite false CanFrame.size (.ok (loaded 1)), .deviceOpen true,
    .deviceWrite true CanFrame.size (.ok (loaded 2)),
    .deviceWrite false CanFrame.size (.ok (loaded 3)), .env, .irq, .irq,
    .deviceRead false CanFrame.size false, .deviceRelease true,
    .deviceWrite false CanFrame.size (.ok (loaded 4))]

theorem shared_device_sample :
    let s : Files Bool RegFile := ⟨.probed, .zero, fun _ => false, [], [], [], []⟩
    let t := (Machine.run (execute .pelican notified) s sampleFiles).1
    inReset t.bus = true ∧ t.sent = [loaded 2, loaded 3] ∧ t.dev.tx.items = [loaded 4] ∧
      t.queued = t.sent ++ t.dev.tx.items ∧ t.received = t.delivered ++ t.dev.rx.items := by
  intro s t
  have hrun : Run (Guarded (Step .pelican) (Short .pelican)) s sampleFiles t :=
    Run.of_machine execute_step (by decide +kernel)
  obtain ⟨hmode, hqueued, hreceived, -⟩ :=
    shared_device ⟨rfl, fun _ => rfl, rfl, rfl, rfl, rfl⟩ hrun
  exact ⟨(hmode ⟨false, by decide +kernel⟩).trans rfl, by decide +kernel, by decide +kernel, hqueued,
    hreceived⟩

end Files
end CanPci
