import CanPci.Controller

/-!
# `device_write` in three steps

Check and copy, read the status register, enqueue or send. Any number of clients
take their steps in turn; handler runs and changes of the controller fall in between.
-/

namespace CanPci
open RingFifo Transition

/-- Where a client stands; `out` carries the value its last call returned. -/
inductive Writer
  | out (last : Option ℤ)
  | staged (count : ℕ) (ret : ℤ)
  | polled (count : ℕ) (ret : ℤ) (temp : Byte)
  deriving DecidableEq, Repr

def startWrite (d : CanDev) (count : ℕ) (u : CopyIn) : Writer × CanDev :=
  match writeCheck d count with
  | some err => (.out (some err), d)
  | none => (.staged count (u.ret count), writeCopy d u)

theorem startWrite_refused (d : CanDev) (count : ℕ) (u : CopyIn)
    (h : count ≠ CanFrame.size ∨ d.txCount = bufferSize) :
    ∃ err < 0, startWrite d count u = (.out (some err), d) := by
  by_cases hc : count = CanFrame.size
  · have hfull : d.txCount = bufferSize := h.resolve_left (not_not.mpr hc)
    refine ⟨eFBig, by decide, ?_⟩
    simp only [startWrite, writeCheck, hc, hfull, ne_eq, not_true, if_false, if_true]
  · refine ⟨eInval, by decide, ?_⟩
    simp only [startWrite, writeCheck, ne_eq, hc, not_false_iff, if_true]

theorem startWrite_taken (d : CanDev) (u : CopyIn) (h : d.txCount ≠ bufferSize) :
    startWrite d CanFrame.size u =
      (.staged CanFrame.size (u.ret CanFrame.size), writeCopy d u) := by
  simp only [startWrite, writeCheck, ne_eq, not_true, if_false, h]

theorem startWrite_txCount (d : CanDev) (count : ℕ) (u : CopyIn) :
    (startWrite d count u).2.txCount = d.txCount := by
  unfold startWrite
  split <;> rfl

structure Clients (ι σ : Type) where
  dev : CanDev
  bus : σ
  handed : List (Handover σ)
  pc : ι → Writer

inductive ClientOp (ι : Type)
  | start (i : ι) (count : ℕ) (u : CopyIn)
  | poll (i : ι)
  | finish (i : ι)
  | irq
  | env

namespace Clients
variable {ι σ : Type} [DecidableEq ι] [Bus σ] (s : Clients ι σ) (i : ι)

def start (count : ℕ) (u : CopyIn) : Clients ι σ :=
  let (w, d) := startWrite s.dev count u
  {s with dev := d, pc := Function.update s.pc i w}

def poll (count : ℕ) (ret : ℤ) : Clients ι σ :=
  let (temp, c) := ioread8 sjaStatusReg s.bus
  {s with bus := c, pc := Function.update s.pc i (.polled count ret temp)}

def finish (drv : Driver) (count : ℕ) (ret : ℤ) (temp : Byte) : Clients ι σ :=
  let (r, served) := writeFinish drv.sendMessage s.dev temp count ret s.bus
  ⟨served.dev, served.bus, s.handed ++ served.handed, Function.update s.pc i (.out (some r))⟩

def call (drv : Driver) (u : CopyIn) : Clients ι σ :=
  ((s.start i CanFrame.size u).poll i CanFrame.size (u.ret CanFrame.size)).finish i drv
    CanFrame.size (u.ret CanFrame.size) (ioread8 sjaStatusReg s.bus).1

def irq (drv : Driver) : Clients ι σ :=
  let served := drv.irqHandler s.dev s.bus
  ⟨served.dev, served.bus, s.handed ++ served.handed, s.pc⟩

end Clients

inductive ClientStep {ι σ : Type} [DecidableEq ι] [Bus σ] (drv : Driver) (env : σ → σ → Prop) :
    Clients ι σ → ClientOp ι → Clients ι σ → Prop
  | start (s i count u last) (h : s.pc i = .out last) :
      ClientStep drv env s (.start i count u) (s.start i count u)
  | poll (s i count ret) (h : s.pc i = .staged count ret) :
      ClientStep drv env s (.poll i) (s.poll i count ret)
  | finish (s i count ret temp) (h : s.pc i = .polled count ret temp) :
      ClientStep drv env s (.finish i) (s.finish i drv count ret temp)
  | irq (s) : ClientStep drv env s .irq (s.irq drv)
  | env (s c) (h : env s.bus c) : ClientStep drv env s .env {s with bus := c}

/-- The steps as a machine that emits the handovers, on a controller that changes by
`evolve`; a client that does not stand at a step stays where it is. -/
def Clients.execute {ι σ : Type} [DecidableEq ι] [Bus σ] (drv : Driver) (evolve : σ → σ)
    (s : Clients ι σ) : ClientOp ι → Clients ι σ × List (Handover σ)
  | .start i count u => (s.start i count u, [])
  | .poll i =>
    match s.pc i with
    | .staged count ret => (s.poll i count ret, [])
    | _ => (s, [])
  | .finish i =>
    match s.pc i with
    | .polled count ret temp => (s.finish i drv count ret temp,
        (writeFinish drv.sendMessage s.dev temp count ret s.bus).2.handed)
    | _ => (s, [])
  | .irq => (s.irq drv, (drv.irqHandler s.dev s.bus).handed)
  | .env => ({s with bus := evolve s.bus}, [])

/-- How many of the three steps a client has taken. -/
def Writer.taken : Writer → ℕ
  | .out _ => 0
  | .staged _ _ => 1
  | .polled _ _ _ => 2

/-- Clients take the step they stand at, and the controller changes as `env` says. -/
def Clients.Permits {ι σ : Type} (env : σ → σ → Prop) (evolve : σ → σ) (s : Clients ι σ) :
    ClientOp ι → Prop
  | .start i _ _ => (s.pc i).taken = 0
  | .poll i => (s.pc i).taken = 1
  | .finish i => (s.pc i).taken = 2
  | .irq => True
  | .env => env s.bus (evolve s.bus)

instance decidablePermitsClient {ι σ : Type} {env : σ → σ → Prop} [DecidableRel env]
    (evolve : σ → σ) (s : Clients ι σ) : (op : ClientOp ι) → Decidable (s.Permits env evolve op)
  | .start _ _ _ => instDecidableEqNat _ _
  | .poll _ => instDecidableEqNat _ _
  | .finish _ => instDecidableEqNat _ _
  | .irq => instDecidableTrue
  | .env => inferInstanceAs (Decidable (env _ _))

theorem execute_client {ι σ : Type} [DecidableEq ι] [Bus σ] {drv : Driver} {env : σ → σ → Prop}
    {evolve : σ → σ} (s : Clients ι σ) (op : ClientOp ι) (h : s.Permits env evolve op) :
    ClientStep drv env s op (s.execute drv evolve op).1 := by
  cases op with
  | start i count u =>
    cases hpc : s.pc i with
    | out last => exact .start s i count u last hpc
    | _ => simp [Clients.Permits, hpc, Writer.taken] at h
  | poll i =>
    cases hpc : s.pc i with
    | staged count ret =>
      simp only [Clients.execute, hpc]
      exact .poll s i count ret hpc
    | _ => simp [Clients.Permits, hpc, Writer.taken] at h
  | finish i =>
    cases hpc : s.pc i with
    | polled count ret temp =>
      simp only [Clients.execute, hpc]
      exact .finish s i count ret temp hpc
    | _ => simp [Clients.Permits, hpc, Writer.taken] at h
  | irq => exact .irq s
  | env => exact .env s _ h

section
variable {ι σ : Type} [DecidableEq ι] [Bus σ] (drv : Driver) (s : Clients ι σ) (i : ι)
  (count : ℕ) (ret : ℤ) {temp : Byte}

omit [Bus σ] in
theorem start_refused (u : CopyIn) (h : count ≠ CanFrame.size ∨ s.dev.txCount = bufferSize) :
    ∃ err < 0, s.start i count u =
      {s with pc := Function.update s.pc i (.out (some err))} := by
  obtain ⟨err, hneg, he⟩ := startWrite_refused s.dev count u h
  refine ⟨err, hneg, ?_⟩
  simp only [Clients.start, he]

omit [Bus σ] in
theorem start_taken (u : CopyIn) (h : s.dev.txCount ≠ bufferSize) :
    s.start i CanFrame.size u =
      {s with
        dev := writeCopy s.dev u
        pc := Function.update s.pc i (.staged CanFrame.size (u.ret CanFrame.size))} := by
  simp only [Clients.start, startWrite_taken s.dev u h]

omit [Bus σ] in
theorem start_pc (u : CopyIn) : (s.start i count u).pc =
    Function.update s.pc i (startWrite s.dev count u).1 := rfl

theorem poll_pc : (s.poll i count ret).pc =
    Function.update s.pc i (.polled count ret (ioread8 sjaStatusReg s.bus).1) := rfl

theorem finish_queue (h : temp &&& tbs ≠ tbs) :
    (s.finish i drv count ret temp).dev.tx = s.dev.tx.commit ∧
    (s.finish i drv count ret temp).bus = s.bus ∧
    (s.finish i drv count ret temp).handed = s.handed ∧
    (s.finish i drv count ret temp).pc = Function.update s.pc i (.out (some count)) := by
  simp only [Clients.finish, writeFinish, if_pos h, List.append_nil]
  exact ⟨rfl, trivial, trivial, trivial⟩

theorem finish_send (h : temp &&& tbs = tbs) :
    (s.finish i drv count ret temp).dev = s.dev ∧
    (s.finish i drv count ret temp).bus =
      drv.sendMessage (load s.dev.txBuf s.dev.txIn) s.bus ∧
    (s.finish i drv count ret temp).handed =
      s.handed ++ [⟨load s.dev.txBuf s.dev.txIn, s.bus⟩] ∧
    (s.finish i drv count ret temp).pc = Function.update s.pc i (.out (some ret)) := by
  simp only [Clients.finish, writeFinish, if_neg (not_not.mpr h)]
  exact ⟨trivial, trivial, trivial, trivial⟩

/-- Without a pause the three steps are `device_write`. -/
theorem deviceWrite_steps (u : CopyIn) (hroom : s.dev.txCount ≠ bufferSize) :
    let r := drv.deviceWrite s.dev CanFrame.size u s.bus
    (s.call i drv u).dev = r.2.dev ∧ (s.call i drv u).bus = r.2.bus ∧
      (s.call i drv u).handed = s.handed ++ r.2.handed ∧
      (s.call i drv u).pc i = .out (some r.1) := by
  dsimp only
  rw [drv.deviceWrite_open s.dev u s.bus hroom]
  simp only [Clients.call, Clients.start, Clients.poll, Clients.finish,
    startWrite_taken s.dev u hroom, Function.update_self]
  trivial

end
end CanPci
