import CanPci.ModeReg
import Mathlib.Data.List.Count

/-!
# `device_open` against a stubborn controller

The controller may answer reads with anything and ignore mode writes. It only keeps to
this: once a read of the mode register shows reset mode, reset mode lasts until a mode
write without the reset bit.
-/

namespace CanPci
open RingFifo

class Stubborn (σ : Type) extends Bus σ where
  InReset : σ → Prop
  reported : ∀ c, (ioread8 sjaModeReg c).1 &&& resetBit = resetBit →
    InReset (ioread8 sjaModeReg c).2
  read_shows : ∀ c, InReset c → (ioread8 sjaModeReg c).1 &&& resetBit = resetBit
  read_stays : ∀ reg c, InReset c → InReset (ioread8 reg c).2
  write_stays : ∀ v reg c, InReset c → (reg = sjaModeReg → v &&& resetBit = resetBit) →
    InReset (iowrite8 v reg c)

structure Hom {σ τ : Type} [Bus σ] [Bus τ] (f : σ → τ) : Prop where
  read : ∀ reg c, ioread8 reg (f c) = ((ioread8 reg c).1, f (ioread8 reg c).2)
  write : ∀ v reg c, iowrite8 v reg (f c) = f (iowrite8 v reg c)

/-- An access; a write comes with the controller that it meets. -/
inductive Entry (σ : Type)
  | read (reg v : Byte)
  | write (v reg : Byte) (ctl : σ)

namespace Entry
variable {σ : Type}

def reg : Entry σ → Byte
  | read reg _ => reg
  | write _ reg _ => reg

def value : Entry σ → Option Byte
  | read _ v => some v
  | write _ _ _ => none

def isWrite : Entry σ → Bool
  | read _ _ => false
  | write _ _ _ => true

def Protected [Stubborn σ] : Entry σ → Prop
  | read _ _ => True
  | write _ _ ctl => Stubborn.InReset ctl

end Entry

structure Logged (σ : Type) where
  ctl : σ
  log : List (Entry σ)

instance {σ : Type} [Bus σ] : Bus (Logged σ) where
  ioread8 reg b := ((ioread8 reg b.ctl).1,
    ⟨(ioread8 reg b.ctl).2, b.log ++ [.read reg (ioread8 reg b.ctl).1]⟩)
  iowrite8 v reg b := ⟨iowrite8 v reg b.ctl, b.log ++ [.write v reg b.ctl]⟩
  past b := Bus.past b.ctl

namespace Logged
variable {σ : Type} [Bus σ]

def start (c : σ) : Logged σ := ⟨c, []⟩

def prepend (l : List (Entry σ)) (b : Logged σ) : Logged σ := {b with log := l ++ b.log}

theorem prepend_hom (l : List (Entry σ)) : Hom (prepend l) where
  read reg b := by simp [ioread8, prepend]
  write v reg b := by simp [iowrite8, prepend]

theorem ctl_hom : Hom (ctl : Logged σ → σ) where
  read _ _ := rfl
  write _ _ _ := rfl

omit [Bus σ] in
theorem start_prepend (b : Logged σ) : b = (start b.ctl).prepend b.log := by
  simp [start, prepend]

end Logged

section
variable {σ : Type} [Bus σ]

/-- The first read of the mode register and the first loop. -/
def firstPhase (c : σ) : Byte × σ :=
  enterReset 3 (ioread8 sjaModeReg c).1 (ioread8 sjaModeReg c).2

def secondPhase (c : σ) : Byte × σ :=
  leaveReset 3 (ioread8 sjaModeReg c).1 (ioread8 sjaModeReg c).2

structure OpenLog (σ : Type) where
  first : List (Entry σ)
  config : List (Entry σ)
  second : List (Entry σ)

def Driver.openLog (drv : Driver) (c : σ) : OpenLog σ :=
  let first := firstPhase (Logged.start c)
  if first.1 &&& resetBit = resetBit then
    let config := drv.configure (Logged.start first.2.ctl)
    let second := secondPhase (Logged.start config.ctl)
    ⟨first.2.log, config.log, second.2.log⟩
  else ⟨first.2.log, [], []⟩

theorem deviceOpen_phases (drv : Driver) (d : CanDev) (c : σ) : drv.deviceOpen d c =
    let first := firstPhase c
    if first.1 &&& resetBit ≠ resetBit then ⟨eFault, d, first.2, false⟩
    else
      let second := secondPhase (drv.configure first.2)
      if second.1 &&& resetBit = resetBit then ⟨eFault, d, second.2, false⟩
      else ⟨0, resetRings d, second.2, true⟩ :=
  drv.deviceOpen_eq d c

namespace Hom
variable {τ : Type} [Bus τ] {f : σ → τ}

theorem retry (hf : Hom f) (again : Byte → Prop) [DecidablePred again] (next : Byte → Byte)
    (n : ℕ) (temp : Byte) (c : σ) : CanPci.retry again next n temp (f c) =
      ((CanPci.retry again next n temp c).1, f (CanPci.retry again next n temp c).2) := by
  induction n generalizing temp c with
  | zero => rfl
  | succ n ih =>
    rw [CanPci.retry, CanPci.retry]
    split
    · rw [hf.write, hf.read]
      exact ih _ _
    · rfl

theorem writes (hf : Hom f) (ws : List (Byte × Byte)) (c : σ) :
    CanPci.writes ws (f c) = f (CanPci.writes ws c) := by
  induction ws generalizing c with
  | nil => rfl
  | cons w ws ih => rw [writes_cons, writes_cons, hf.write, ih]

theorem configure (hf : Hom f) (drv : Driver) (c : σ) :
    drv.configure (f c) = f (drv.configure c) := by
  cases drv <;>
    simp only [Driver.configure, Pelican.configure, Basiccan.configure, hf.writes, hf.read,
      hf.write]

theorem firstPhase (hf : Hom f) (c : σ) :
    CanPci.firstPhase (f c) = ((CanPci.firstPhase c).1, f (CanPci.firstPhase c).2) := by
  rw [CanPci.firstPhase, CanPci.firstPhase, hf.read, enterReset_retry, enterReset_retry]
  exact hf.retry _ _ 3 _ _

theorem secondPhase (hf : Hom f) (c : σ) :
    CanPci.secondPhase (f c) = ((CanPci.secondPhase c).1, f (CanPci.secondPhase c).2) := by
  rw [CanPci.secondPhase, CanPci.secondPhase, hf.read, leaveReset_retry, leaveReset_retry]
  exact hf.retry _ _ 3 _ _

theorem deviceOpen (hf : Hom f) (drv : Driver) (d : CanDev) (c : σ) :
    drv.deviceOpen d (f c) =
      let r := drv.deviceOpen d c
      ⟨r.ret, r.dev, f r.bus, r.privateData⟩ := by
  rw [deviceOpen_phases, deviceOpen_phases, hf.firstPhase]
  dsimp only
  split
  · rfl
  · rw [hf.configure, hf.secondPhase]
    dsimp only
    split <;> rfl

end Hom

/-- The log is only watched: without it `device_open` ends the same way. -/
theorem deviceOpen_logged (drv : Driver) (d : CanDev) (c : σ) :
    drv.deviceOpen d c =
      let r := drv.deviceOpen d (Logged.start c)
      ⟨r.ret, r.dev, r.bus.ctl, r.privateData⟩ :=
  Logged.ctl_hom.deviceOpen drv d (Logged.start c)

theorem second_logged (drv : Driver) (b : Logged σ) :
    let config := drv.configure (Logged.start b.ctl)
    let second := secondPhase (Logged.start config.ctl)
    secondPhase (drv.configure b) = (second.1, second.2.prepend (b.log ++ config.log)) := by
  have hconfig : drv.configure b =
      (Logged.start (drv.configure (Logged.start b.ctl)).ctl).prepend
        (b.log ++ (drv.configure (Logged.start b.ctl)).log) := by
    have hb := (Logged.prepend_hom b.log).configure drv (Logged.start b.ctl)
    rw [← Logged.start_prepend] at hb
    rw [hb]
    simp [Logged.start, Logged.prepend]
  dsimp only
  rw [hconfig, (Logged.prepend_hom _).secondPhase]

/-- A log of mode register accesses with at most `n` writes, `temp` being read last. -/
structure Handshake (n : ℕ) (temp : Byte) (log : List (Entry σ)) : Prop where
  reg : ∀ e ∈ log, e.reg = sjaModeReg
  writes : log.countP Entry.isWrite ≤ n
  last : (log.filterMap Entry.value).getLast? = some temp

omit [Bus σ] in
theorem Handshake.mono {k n : ℕ} {temp : Byte} {log : List (Entry σ)} (h : Handshake k temp log)
    (hle : k ≤ n) : Handshake n temp log :=
  ⟨h.reg, h.writes.trans hle, h.last⟩

theorem Handshake.round {n : ℕ} {temp : Byte} {b : Logged σ} (h : Handshake n temp b.log)
    (v : Byte) : Handshake (n + 1) (ioread8 sjaModeReg (iowrite8 v sjaModeReg b)).1
      (ioread8 sjaModeReg (iowrite8 v sjaModeReg b)).2.log := by
  have hwrites := h.writes
  constructor
  · intro e he
    simp only [ioread8, iowrite8, List.mem_append, List.mem_singleton] at he
    rcases he with (he | rfl) | rfl
    · exact h.reg e he
    · rfl
    · rfl
  · simp only [ioread8, iowrite8, List.countP_append, List.countP_singleton, Entry.isWrite]
    simp only [if_true, Bool.false_eq_true, if_false]
    omega
  · simp [ioread8, iowrite8, List.filterMap_append, List.findSome?, Entry.value]

theorem retry_handshake {k : ℕ} (again : Byte → Prop) [DecidablePred again]
    (next : Byte → Byte) (n : ℕ) {temp : Byte} {b : Logged σ} (h : Handshake k temp b.log) :
    Handshake (k + n) (retry again next n temp b).1 (retry again next n temp b).2.log := by
  induction n generalizing k temp b with
  | zero => exact h
  | succ n ih =>
    rw [retry]
    split
    · have hround := ih (h.round (next temp))
      exact hround.mono (by omega)
    · exact h.mono (by omega)

theorem read_handshake (c : σ) : Handshake 0 (ioread8 sjaModeReg (Logged.start c)).1
    (ioread8 sjaModeReg (Logged.start c)).2.log := by
  constructor
  · intro e he
    rw [List.mem_singleton.mp he]
    rfl
  · exact le_refl 0
  · rfl

theorem firstPhase_handshake (c : σ) : Handshake 3 (firstPhase (Logged.start c)).1
    (firstPhase (Logged.start c)).2.log := by
  rw [firstPhase, enterReset_retry]
  exact retry_handshake _ _ 3 (read_handshake c)

theorem secondPhase_handshake (c : σ) : Handshake 3 (secondPhase (Logged.start c)).1
    (secondPhase (Logged.start c)).2.log := by
  rw [secondPhase, leaveReset_retry]
  exact retry_handshake _ _ 3 (read_handshake c)

end

section
variable {σ : Type} [Stubborn σ]

theorem retry_inReset (again : Byte → Prop) [DecidablePred again] (next : Byte → Byte) (n : ℕ)
    {temp : Byte} {c : σ} (hc : temp &&& resetBit = resetBit → Stubborn.InReset c) :
    (retry again next n temp c).1 &&& resetBit = resetBit →
      Stubborn.InReset (retry again next n temp c).2 := by
  induction n generalizing temp c with
  | zero => exact hc
  | succ n ih =>
    rw [retry]
    split
    · exact ih (Stubborn.reported _)
    · exact hc

theorem firstPhase_inReset {c : σ} (h : (firstPhase c).1 &&& resetBit = resetBit) :
    Stubborn.InReset (firstPhase c).2 := by
  rw [firstPhase, enterReset_retry] at h ⊢
  exact retry_inReset _ _ 3 (Stubborn.reported c) h

instance : Stubborn (Logged σ) where
  InReset b := Stubborn.InReset b.ctl
  reported b := Stubborn.reported b.ctl
  read_shows b := Stubborn.read_shows b.ctl
  read_stays reg b := Stubborn.read_stays reg b.ctl
  write_stays v reg b := Stubborn.write_stays v reg b.ctl

/-- In reset mode, with every write so far made in it. -/
structure Held (b : Logged σ) : Prop where
  inReset : Stubborn.InReset b.ctl
  log : ∀ e ∈ b.log, e.Protected

theorem Held.read {b : Logged σ} (h : Held b) (reg : Byte) : Held (ioread8 reg b).2 := by
  refine ⟨Stubborn.read_stays reg b.ctl h.inReset, fun e he => ?_⟩
  rcases List.mem_append.mp he with he | he
  · exact h.log e he
  · rw [List.mem_singleton.mp he]
    trivial

theorem Held.write {b : Logged σ} (h : Held b) (v : Byte) {reg : Byte}
    (hmode : reg = sjaModeReg → v &&& resetBit = resetBit) : Held (iowrite8 v reg b) := by
  refine ⟨Stubborn.write_stays v reg b.ctl h.inReset hmode, fun e he => ?_⟩
  rcases List.mem_append.mp he with he | he
  · exact h.log e he
  · rw [List.mem_singleton.mp he]
    exact h.inReset

theorem Held.writes {b : Logged σ} (h : Held b) (ws : List (Byte × Byte))
    (hws : ∀ w ∈ ws, w.2 ≠ sjaModeReg) : Held (CanPci.writes ws b) := by
  induction ws generalizing b with
  | nil => exact h
  | cons w ws ih =>
    obtain ⟨hw, hrest⟩ := List.forall_mem_cons.mp hws
    exact ih (h.write w.1 fun hreg => absurd hreg hw) hrest

theorem Held.modify {b : Logged σ} (h : Held b) (bits : Byte) :
    Held (iowrite8 ((ioread8 sjaModeReg b).1 ||| bits) sjaModeReg (ioread8 sjaModeReg b).2) := by
  refine (h.read sjaModeReg).write _ fun _ => ?_
  have hset := (resetBit_iff _).mp (Stubborn.read_shows b.ctl h.inReset)
  rw [resetBit_iff, BitVec.getLsbD_or]
  exact (congrArg (· || bits.getLsbD 0) hset).trans (Bool.true_or _)

theorem configure_held (drv : Driver) {b : Logged σ} (h : Held b) : Held (drv.configure b) := by
  have hother : ∀ {b : Logged σ}, Held b → ∀ v reg : Byte, reg ≠ sjaModeReg →
      Held (iowrite8 v reg b) := fun hb v reg hreg => hb.write v fun heq => absurd heq hreg
  cases drv with
  | pelican =>
    have hclock := hother (h.read sjaClockReg) ((ioread8 sjaClockReg b).1 ||| peli) sjaClockReg
      (by decide)
    have hreg : ∀ k < 4, BitVec.ofNat 8 (20 + k) ≠ sjaModeReg := by decide
    have hfilter := (hclock.modify (1#8 <<< 3)).writes
      ((List.range 4).map fun k => (0xff, BitVec.ofNat 8 (20 + k)))
      (List.forall_mem_map.mpr fun k hk => hreg k (List.mem_range.mp hk))
    exact hother (hfilter.read sjaIntEnReg) _ sjaIntEnReg (by decide)
  | basiccan =>
    have hclock := hother (h.read sjaClockReg) ((ioread8 sjaClockReg b).1 &&& ~~~peli)
      sjaClockReg (by decide)
    exact (hother hclock 0xff sjaBasicAmrReg (by decide)).modify (3#8 <<< 1)

/-! ### The protocol -/

def SeenInReset (log : List (Entry σ)) : Prop :=
  ∃ v, (log.filterMap Entry.value).getLast? = some v ∧ v &&& resetBit = resetBit

def SeenOut (log : List (Entry σ)) : Prop :=
  ∃ v, (log.filterMap Entry.value).getLast? = some v ∧ v &&& resetBit ≠ resetBit

structure Loop (log : List (Entry σ)) : Prop where
  reg : ∀ e ∈ log, e.reg = sjaModeReg
  writes : log.countP Entry.isWrite ≤ 3

omit [Stubborn σ] in
theorem Handshake.seen {n : ℕ} {temp : Byte} {log : List (Entry σ)} (h : Handshake n temp log) :
    (SeenInReset log ↔ temp &&& resetBit = resetBit) ∧
    (SeenOut log ↔ temp &&& resetBit ≠ resetBit) := by
  simp only [SeenInReset, SeenOut, h.last, Option.some.injEq, exists_eq_left', and_self]

/-- The bring-up protocol, for both drivers and every stubborn controller. -/
theorem bring_up_protocol (drv : Driver) (d : CanDev) (c : σ) :
    let r := drv.deviceOpen d (Logged.start c)
    let p := drv.openLog c
    r.bus.log = p.first ++ p.config ++ p.second ∧ Loop p.first ∧ Loop p.second ∧
    (∀ e ∈ p.config, e.Protected) ∧
    (r.ret = 0 ↔ SeenInReset p.first ∧ SeenOut p.second) ∧
    (r.ret ≠ 0 → r.ret = eFault ∧ r.dev = d ∧ r.privateData = false) ∧
    (¬ SeenInReset p.first → ∀ e ∈ r.bus.log, e.reg = sjaModeReg) := by
  have hfirst := firstPhase_handshake c
  have hempty : Loop ([] : List (Entry σ)) := ⟨by simp, by simp⟩
  have hnone : ¬ SeenOut ([] : List (Entry σ)) := by simp [SeenOut]
  have herr : eFault ≠ 0 := by decide
  dsimp only
  rw [deviceOpen_phases drv, Driver.openLog]
  dsimp only
  by_cases hin : (firstPhase (Logged.start c)).1 &&& resetBit = resetBit
  · rw [if_neg (not_not.mpr hin), if_pos hin, second_logged]
    have hsecond := secondPhase_handshake (drv.configure
      (Logged.start (firstPhase (Logged.start c)).2.ctl)).ctl
    have hheld : Held (Logged.start (firstPhase (Logged.start c)).2.ctl) :=
      ⟨firstPhase_inReset hin, by simp [Logged.start]⟩
    have hseen : SeenInReset (firstPhase (Logged.start c)).2.log := hfirst.seen.1.mpr hin
    dsimp only
    by_cases hout : (secondPhase (Logged.start (drv.configure (Logged.start
        (firstPhase (Logged.start c)).2.ctl)).ctl)).1 &&& resetBit = resetBit
    · rw [if_pos hout]
      refine ⟨rfl, ⟨hfirst.reg, hfirst.writes⟩, ⟨hsecond.reg, hsecond.writes⟩,
        (configure_held drv hheld).log, ?_, fun _ => ⟨rfl, rfl, rfl⟩, fun h => absurd hseen h⟩
      exact iff_of_false herr fun h => hsecond.seen.2.mp h.2 hout
    · rw [if_neg hout]
      refine ⟨rfl, ⟨hfirst.reg, hfirst.writes⟩, ⟨hsecond.reg, hsecond.writes⟩,
        (configure_held drv hheld).log, ?_, fun h => absurd rfl h, fun h => absurd hseen h⟩
      exact iff_of_true rfl ⟨hseen, hsecond.seen.2.mpr hout⟩
  · rw [if_pos hin, if_neg hin]
    refine ⟨by simp, ⟨hfirst.reg, hfirst.writes⟩, hempty, by simp, ?_, fun _ => ⟨rfl, rfl, rfl⟩,
      fun _ => hfirst.reg⟩
    exact iff_of_false herr fun h => hnone h.2

end

/-- Ignores its next `deaf` mode writes. -/
structure Sluggish where
  reset : Bool
  deaf : ℕ
  deriving DecidableEq, Repr

instance : Stubborn Sluggish where
  ioread8 reg c := (if reg = sjaModeReg then (if c.reset then resetBit else 0) else 0xff, c)
  iowrite8 v reg c :=
    if reg = sjaModeReg then
      if c.deaf = 0 then {c with reset := v.getLsbD 0} else {c with deaf := c.deaf - 1}
    else c
  past _ _ := 0
  InReset c := c.reset = true
  reported c h := by
    rcases c with ⟨reset, deaf⟩
    cases reset
    · exact absurd h (by show ¬ (0 : Byte) &&& resetBit = resetBit; decide)
    · rfl
  read_shows c h := by
    rcases c with ⟨reset, deaf⟩
    cases h
    show resetBit &&& resetBit = resetBit
    decide
  read_stays _ _ h := h
  write_stays v reg c h hmode := by
    split
    · rename_i hreg
      split
      · exact (resetBit_iff v).mp (hmode hreg)
      · exact h
    · exact h

/-- It obeys the third write of the first loop, or is given up. -/
theorem bring_up_sample :
    (Driver.pelican.deviceOpen .probed (Logged.start (⟨false, 2⟩ : Sluggish))).ret = 0 ∧
    (Driver.pelican.deviceOpen .probed (Logged.start (⟨false, 3⟩ : Sluggish))).ret ≠ 0 := by
  obtain ⟨-, -, -, -, hobeyed, -⟩ := bring_up_protocol .pelican .probed (⟨false, 2⟩ : Sluggish)
  obtain ⟨-, -, -, -, hdeaf, -⟩ := bring_up_protocol .pelican .probed (⟨false, 3⟩ : Sluggish)
  have hlast : ((Driver.pelican.openLog (⟨false, 3⟩ : Sluggish)).first.filterMap
      Entry.value).getLast? = some 0 := rfl
  refine ⟨hobeyed.mpr ⟨⟨1, rfl, by decide⟩, ⟨0, rfl, by decide⟩⟩, fun h => ?_⟩
  obtain ⟨v, hv, hset⟩ := (hdeaf.mp h).1
  rw [hlast] at hv
  cases hv
  exact absurd hset (by decide)

end CanPci
