import CanPci.Driver
import CanPci.Lib.Transition

/-!
# Runs of complete calls

The driver and its controller under any sequence of complete `device_write` and
`device_read` calls and `irq_handler` runs, with changes of the controller in
between. `accepted` lists the frames `device_write` took, `handed` the calls of
`send_message`, both in order.
-/

namespace CanPci
open RingFifo Transition

variable {σ : Type} [Bus σ]

namespace Driver

theorem deviceWrite_eq (drv : Driver) : (drv.deviceWrite (σ := σ)) = writeWith drv.sendMessage := by
  cases drv <;> rfl

theorem deviceWrite_refused (drv : Driver) (d : CanDev) (count : ℕ) (u : CopyIn) (c : σ)
    (h : count ≠ CanFrame.size ∨ d.txCount = bufferSize) :
    ∃ err < 0, drv.deviceWrite d count u c = (err, ⟨d, c, [], []⟩) := by
  by_cases hc : count = CanFrame.size
  · have hfull : d.txCount = bufferSize := h.resolve_left (not_not.mpr hc)
    refine ⟨eFBig, by decide, ?_⟩
    simp only [deviceWrite_eq, writeWith, writeCheck, hc, hfull, ne_eq, not_true, if_false, if_true]
  · refine ⟨eInval, by decide, ?_⟩
    simp only [deviceWrite_eq, writeWith, writeCheck, ne_eq, hc, not_false_iff, if_true]

section
variable (drv : Driver) (d : CanDev) (u : CopyIn) (c : σ) (hroom : d.txCount ≠ bufferSize)

include hroom in
theorem deviceWrite_open : drv.deviceWrite d CanFrame.size u c =
    writeFinish drv.sendMessage (writeCopy d u) (ioread8 sjaStatusReg c).1 CanFrame.size
      (u.ret CanFrame.size) (ioread8 sjaStatusReg c).2 := by
  simp only [deviceWrite_eq, writeWith, writeCheck, ne_eq, not_true, if_false, hroom]

include hroom in
theorem deviceWrite_queue (hbusy : (ioread8 sjaStatusReg c).1 &&& tbs ≠ tbs) :
    ∃ d', drv.deviceWrite d CanFrame.size u c =
        ((CanFrame.size : ℤ), ⟨d', (ioread8 sjaStatusReg c).2, [], []⟩) ∧
      d'.tx = (d.tx.stage u.staged).commit ∧ d'.rx = d.rx := by
  rw [deviceWrite_open drv d u c hroom, writeFinish, if_pos hbusy]
  exact ⟨_, rfl, rfl, rfl⟩

include hroom in
theorem deviceWrite_direct (hin : d.txIn < bufferSize)
    (hfree : (ioread8 sjaStatusReg c).1 &&& tbs = tbs) :
    ∃ d', drv.deviceWrite d CanFrame.size u c =
        (u.ret CanFrame.size, ⟨d', drv.sendMessage u.staged (ioread8 sjaStatusReg c).2,
          [⟨u.staged, (ioread8 sjaStatusReg c).2⟩], []⟩) ∧
      d'.tx = d.tx.stage u.staged ∧ d'.rx = d.rx := by
  have hstaged : load (writeCopy d u).txBuf (writeCopy d u).txIn = u.staged :=
    load_store_self _ _ hin
  rw [deviceWrite_open drv d u c hroom, writeFinish, if_neg (not_not.mpr hfree)]
  dsimp only
  rw [hstaged]
  exact ⟨_, rfl, rfl, rfl⟩

end
end Driver

structure Sys (σ : Type) where
  dev : CanDev
  bus : σ
  accepted : List CanFrame
  handed : List (Handover σ)

inductive Op
  | write (count : ℕ) (u : CopyIn)
  | read (count : ℕ) (fault : Bool)
  | irq
  | env
  deriving DecidableEq, Repr

def Sys.write (drv : Driver) (s : Sys σ) (count : ℕ) (u : CopyIn) : Sys σ :=
  let (ret, r) := drv.deviceWrite s.dev count u s.bus
  ⟨r.dev, r.bus, if 0 ≤ ret then s.accepted ++ [u.staged] else s.accepted, s.handed ++ r.handed⟩

def Sys.read (s : Sys σ) (count : ℕ) (fault : Bool) : Sys σ :=
  {s with dev := (deviceRead s.dev count fault).2.2}

def Sys.irq (drv : Driver) (s : Sys σ) : Sys σ :=
  let r := drv.irqHandler s.dev s.bus
  ⟨r.dev, r.bus, s.accepted, s.handed ++ r.handed⟩

/-- `env` tells how the controller may change on its own. -/
inductive Step (drv : Driver) (env : σ → σ → Prop) : Sys σ → Op → Sys σ → Prop
  | write (s count u) : Step drv env s (.write count u) (s.write drv count u)
  | read (s count fault) : Step drv env s (.read count fault) (s.read count fault)
  | irq (s) : Step drv env s .irq (s.irq drv)
  | env (s c) (h : env s.bus c) : Step drv env s .env {s with bus := c}

/-- The operations as a machine that emits the handovers, on a controller that changes by
`evolve`. -/
def Sys.execute (drv : Driver) (evolve : σ → σ) (s : Sys σ) : Op → Sys σ × List (Handover σ)
  | .write count u => (s.write drv count u, (drv.deviceWrite s.dev count u s.bus).2.handed)
  | .read count fault => (s.read count fault, [])
  | .irq => (s.irq drv, (drv.irqHandler s.dev s.bus).handed)
  | .env => ({s with bus := evolve s.bus}, [])

/-- The controller changes only as `env` says. -/
def Sys.Permits (env : σ → σ → Prop) (evolve : σ → σ) (s : Sys σ) (op : Op) : Prop :=
  op = .env → env s.bus (evolve s.bus)

theorem execute_step {drv : Driver} {env : σ → σ → Prop} {evolve : σ → σ} (s : Sys σ) (op : Op)
    (h : s.Permits env evolve op) : Step drv env s op (s.execute drv evolve op).1 := by
  cases op with
  | write count u => exact .write s count u
  | read count fault => exact .read s count fault
  | irq => exact .irq s
  | env => exact .env s _ (h rfl)

theorem execute_guarded {drv : Driver} {env : σ → σ → Prop} {evolve : σ → σ}
    {ok : Sys σ → Op → Prop} (s : Sys σ) (op : Op) (h : s.Permits env evolve op ∧ ok s op) :
    Guarded (Step drv env) ok s op (s.execute drv evolve op).1 :=
  ⟨execute_step s op h.1, h.2⟩

instance decidablePermits {env : σ → σ → Prop} [DecidableRel env] (evolve : σ → σ) (s : Sys σ)
    (op : Op) : Decidable (s.Permits env evolve op) :=
  inferInstanceAs (Decidable (_ → _))

structure Sys.Opened (s : Sys σ) : Prop where
  dev : ∃ d, s.dev = resetRings d
  accepted : s.accepted = []
  handed : s.handed = []

theorem resetRings_tx (d : CanDev) : (resetRings d).tx.Consistent ∧ (resetRings d).tx.items = [] :=
  ⟨⟨Nat.zero_le _, Nat.zero_lt_succ _, Nat.zero_lt_succ _, rfl⟩, rfl⟩

theorem resetRings_rx (d : CanDev) : (resetRings d).rx.Consistent ∧ (resetRings d).rx.items = [] :=
  ⟨⟨Nat.zero_le _, Nat.zero_lt_succ _, Nat.zero_lt_succ _, rfl⟩, rfl⟩

omit [Bus σ] in
theorem Sys.Opened.tx {s : Sys σ} (h : s.Opened) :
    s.dev.tx.Consistent ∧ s.dev.tx.items = [] := by
  obtain ⟨d, hd⟩ := h.dev
  rw [hd]
  exact resetRings_tx d

omit [Bus σ] in
theorem Sys.Opened.rx {s : Sys σ} (h : s.Opened) :
    s.dev.rx.Consistent ∧ s.dev.rx.items = [] := by
  obtain ⟨d, hd⟩ := h.dev
  rw [hd]
  exact resetRings_rx d

end CanPci
