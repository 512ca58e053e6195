import CanPci.Controller
import CanPci.OpenSteps
import Mathlib.Data.List.Perm.Subperm

/-!
# Frames in flight when the file is closed

A request puts the frame into the transmit buffer, from where the controller sends it
some time later; `device_release` enters reset mode, which aborts what is in the buffer.
-/

namespace CanPci
open RingFifo Transition

/-- The frame in the transmit buffer, those sent completely, and those a later request
replaced in the buffer before they were. -/
structure Air where
  flying : Option CanFrame
  completed : List CanFrame
  overwritten : List CanFrame

namespace Air

def empty : Air := ⟨none, [], []⟩

def request (a : Air) (can : CanFrame) : Air :=
  {a with flying := some can, overwritten := a.overwritten ++ a.flying.toList}

def complete (a : Air) : Air :=
  {a with flying := none, completed := a.completed ++ a.flying.toList}

def abort (a : Air) : Air := {a with flying := none}

def frames (a : Air) : List CanFrame := a.completed ++ (a.overwritten ++ a.flying.toList)

theorem request_frames (a : Air) (can : CanFrame) : (a.request can).frames = a.frames ++ [can] := by
  simp only [frames, request, Option.toList_some, List.append_assoc]

theorem complete_frames (a : Air) : a.complete.frames.Perm a.frames := by
  simp only [frames, complete, Option.toList_none, List.append_nil, List.append_assoc]
  exact List.perm_append_comm.append_left a.completed

end Air

structure Session (σ : Type) where
  sys : Sys σ
  air : Air

namespace Session
variable {σ : Type} [Sja1000 σ]

/-- The buffer turns from locked to released when its transmission completes. -/
def advance (x : Session σ) (s : Sys σ) : Session σ :=
  ⟨s, if released x.sys.bus = false ∧ released s.bus = true then x.air.complete
    else ((s.handed.drop x.sys.handed.length).map Handover.can).foldl Air.request x.air⟩

def Moves (drv : Driver) (x : Session σ) (op : Op) (y : Session σ) : Prop :=
  Step drv Evolves x.sys op y.sys ∧ y = x.advance y.sys

/-- Right after `device_open`: the reset has aborted whatever was being sent before. -/
structure Opened (x : Session σ) : Prop where
  sys : x.sys.Opened
  free : released x.sys.bus = true
  air : x.air = .empty

def close (x : Session σ) : Session σ :=
  ⟨{x.sys with bus := (deviceRelease x.sys.bus).2}, x.air.abort⟩

/-- The frames the next session finds in the transmit ring, with this controller. -/
def carried (drv : Driver) (d : CanDev) (c : σ) : List CanFrame :=
  if (drv.deviceOpen d c).ret = 0 then (drv.deviceOpen d c).dev.tx.items else []

def Saved (drv : Driver) (x : Session σ) : Prop :=
  ∀ c : σ, x.sys.accepted.Subperm (x.air.completed ++ carried drv x.sys.dev c)

def KeepsBuffer (x : Session σ) (op : Op) : Prop :=
  op = .irq → latched x.sys.bus = true → 0 < x.sys.dev.txCount → released x.sys.bus = true

theorem keeps_other {x : Session σ} {op : Op} (h : op ≠ .irq) : KeepsBuffer x op :=
  fun hop => absurd hop h

inductive AirEffect (x : Session σ) (op : Op) (y : Session σ) : Prop
  | quiet (handed : y.sys.handed = x.sys.handed) (buffer : released y.sys.bus = released x.sys.bus)
      (air : y.air = x.air) (clean : KeepsBuffer x op) : AirEffect x op y
  | request (h) (handed : y.sys.handed = x.sys.handed ++ [h]) (buffer : released y.sys.bus = false)
      (air : y.air = x.air.request h.can)
      (clean : KeepsBuffer x op ↔ released x.sys.bus = true) : AirEffect x op y
  | complete (handed : y.sys.handed = x.sys.handed) (buffer : released y.sys.bus = true)
      (air : y.air = x.air.complete) (clean : KeepsBuffer x op) : AirEffect x op y

theorem advance_quiet (x : Session σ) {s : Sys σ} (hh : s.handed = x.sys.handed)
    (hb : released s.bus = released x.sys.bus) : (x.advance s).air = x.air := by
  have hno : ¬ (released x.sys.bus = false ∧ released s.bus = true) := by
    rw [hb]
    rintro ⟨h0, h1⟩
    rw [h0] at h1
    cases h1
  rw [advance, if_neg hno, hh, List.drop_length]
  rfl

theorem advance_request (x : Session σ) {s : Sys σ} {h : Handover σ}
    (hh : s.handed = x.sys.handed ++ [h]) (hb : released s.bus = false) :
    (x.advance s).air = x.air.request h.can := by
  have hno : ¬ (released x.sys.bus = false ∧ released s.bus = true) := by
    rw [hb]
    exact fun h => Bool.false_ne_true h.2
  rw [advance, if_neg hno, hh, List.drop_left]
  rfl

theorem step_air {drv : Driver} {x y : Session σ} {op : Op} (hc : x.sys.dev.tx.Consistent)
    (h : Moves drv x op y) : AirEffect x op y := by
  obtain ⟨hstep, hy⟩ := h
  have hair : y.air = (x.advance y.sys).air := congrArg air hy
  have hquiet : y.sys.handed = x.sys.handed → released y.sys.bus = released x.sys.bus →
      KeepsBuffer x op → AirEffect x op y :=
    fun hh hb hk => .quiet hh hb (hair.trans (x.advance_quiet hh hb)) hk
  generalize hs : y.sys = s at hstep hair hquiet
  cases hstep with
  | write count u =>
    cases write_effect drv x.sys count u hc with
    | refused count u why same =>
      rw [same] at hquiet
      exact hquiet rfl rfl (keeps_other (by simp))
    | queued u room busy tx bus accepted handed =>
      exact hquiet handed (by rw [bus]; exact (Driver.status_read x.sys.bus).1)
        (keeps_other (by simp))
    | direct u room free tx bus accepted handed =>
      have hlocked : released (x.sys.write drv CanFrame.size u).bus = false := by
        rw [bus]
        exact (drv.sendMessage_locks _ _).1
      refine .request _ (hs ▸ handed) (hs ▸ hlocked)
        (hair.trans (x.advance_request handed hlocked)) ?_
      exact iff_of_true (keeps_other (by simp)) ((Sja1000.status_tbs _).mp free)
  | read count fault => exact hquiet rfl rfl (keeps_other (by simp))
  | irq =>
    obtain ⟨-, hrel⟩ := drv.irqHandler_controller x.sys.dev x.sys.bus
    cases irq_effect drv x.sys with
    | drained pos int tx accepted handed =>
      rw [Sja1000.int_ti] at int
      have hlocked : released (x.sys.irq drv).bus = false := by
        rw [Sys.irq, hrel, int, decide_eq_true pos]
        exact Bool.and_false _
      refine .request _ (hs ▸ handed) (hs ▸ hlocked)
        (hair.trans (x.advance_request handed hlocked)) ?_
      exact ⟨fun hk => hk rfl int pos, fun hfree _ _ _ => hfree⟩
    | idle hidle tx accepted handed =>
      rw [Sja1000.int_ti] at hidle
      refine hquiet handed ?_ (fun _ hl hp => absurd ⟨hl, hp⟩ hidle)
      have hnone : (latched x.sys.bus && decide (0 < x.sys.dev.txCount)) = false := by
        rw [Bool.and_eq_false_iff, decide_eq_false_iff_not, ← Bool.not_eq_true]
        tauto
      rw [Sys.irq, hrel, hnone]
      exact Bool.and_true _
  | env c hev =>
    rcases hev with ⟨hwas, hnow, -⟩ | ⟨hsame, -⟩
    · refine .complete (hs ▸ rfl) (hs ▸ hnow) ?_ (keeps_other (by simp))
      rw [hair, advance, if_pos ⟨hwas, hnow⟩]
    · exact hquiet rfl hsame (keeps_other (by simp))

def sent (x : Session σ) : List CanFrame := x.sys.handed.map Handover.can

/-- Every frame taken was handed over or waits in the ring, and every frame handed over
is accounted for; the buffer is locked while it holds one. -/
structure Traced (x : Session σ) : Prop where
  tx : x.sys.dev.tx.Consistent
  taken : x.sys.accepted.Subperm (x.sent ++ x.sys.dev.tx.items)
  fate : x.air.frames.Perm x.sent
  buffer : x.air.flying = none ↔ released x.sys.bus = true

theorem effect_taken {drv : Driver} {s t : Sys σ} {op : Op} (heff : TxEffect drv s t op)
    (hc : s.dev.tx.Consistent)
    (h : s.accepted.Subperm (s.handed.map Handover.can ++ s.dev.tx.items)) :
    t.accepted.Subperm (t.handed.map Handover.can ++ t.dev.tx.items) := by
  cases heff with
  | refused count u why same => rwa [same]
  | queued u room busy tx bus accepted handed =>
    rw [accepted, handed, tx, Ring.push_items hc room, ← List.append_assoc]
    exact h.append (List.Subperm.refl _)
  | direct u room free tx bus accepted handed =>
    rw [handed, tx, Ring.stage_items hc room, List.map_append]
    have hmove : ((s.handed.map Handover.can ++ s.dev.tx.items) ++ [u.staged]).Perm
        (s.handed.map Handover.can ++ [u.staged] ++ s.dev.tx.items) := by
      rw [List.append_assoc, List.append_assoc]
      exact List.perm_append_comm.append_left _
    refine List.Subperm.trans ?_ hmove.subperm
    rw [accepted]
    split
    · exact h.append (List.Subperm.refl _)
    · exact h.trans (List.sublist_append_left _ _).subperm
  | drained pos int tx accepted handed =>
    rw [accepted, handed, tx, List.map_append, List.append_assoc]
    rwa [Ring.items_eq_cons hc pos] at h
  | idle hidle tx accepted handed => rwa [accepted, handed, tx]
  | read count fault tx accepted handed => rwa [accepted, handed, tx]
  | env tx accepted handed => rwa [accepted, handed, tx]

theorem step_traced {drv : Driver} {x y : Session σ} {op : Op} (hx : Traced x)
    (h : Moves drv x op y) : Traced y := by
  have heff := step_effect hx.tx h.1
  refine ⟨effect_consistent heff hx.tx, effect_taken heff hx.tx hx.taken, ?_, ?_⟩
  · cases step_air hx.tx h with
    | quiet handed buffer air clean =>
      rw [air, sent, handed]
      exact hx.fate
    | request g handed buffer air clean =>
      rw [air, sent, handed, List.map_append, Air.request_frames]
      exact hx.fate.append_right _
    | complete handed buffer air clean =>
      rw [air, sent, handed]
      exact x.air.complete_frames.trans hx.fate
  · cases step_air hx.tx h with
    | quiet handed buffer air clean =>
      rw [air, buffer]
      exact hx.buffer
    | request g handed buffer air clean =>
      rw [air, buffer]
      exact iff_of_false (Option.some_ne_none g.can) Bool.false_ne_true
    | complete handed buffer air clean =>
      rw [air, buffer]
      exact iff_of_true rfl rfl

theorem opened_traced {x : Session σ} (h : x.Opened) : Traced x := by
  refine ⟨h.sys.tx.1, ?_, ?_, ?_⟩
  · rw [h.sys.accepted]
    exact List.nil_subperm
  · rw [h.air, sent, h.sys.handed]
    exact List.Perm.refl _
  · rw [h.air, h.free]
    exact iff_of_true rfl rfl

theorem run_traced {drv : Driver} {x y : Session σ} {ops : List Op} (hx : x.Opened)
    (hrun : Run (Moves drv) x ops y) : Traced y :=
  hrun.invariant (fun _ _ _ h hstep => step_traced h hstep) (opened_traced hx)

theorem run_keeps_iff {drv : Driver} {x y : Session σ} {ops : List Op} (hx : x.Opened)
    (hrun : Run (Moves drv) x ops y) :
    Run (Guarded (Moves drv) KeepsBuffer) x ops y ↔ y.air.overwritten = [] := by
  constructor
  · intro hkeep
    refine (hkeep.invariant (P := fun z => Traced z ∧ z.air.overwritten = []) ?_
      ⟨opened_traced hx, congrArg Air.overwritten hx.air⟩).2
    rintro s op t ⟨hs, hnone⟩ ⟨hstep, hguard⟩
    refine ⟨step_traced hs hstep, ?_⟩
    cases step_air hs.tx hstep with
    | quiet handed buffer air clean => rw [air, hnone]
    | request g handed buffer air clean =>
      rw [air, Air.request, hnone, hs.buffer.mpr (clean.mp hguard)]
      rfl
    | complete handed buffer air clean => rw [air, Air.complete, hnone]
  · intro hnone
    induction hrun with
    | nil => exact Run.nil x
    | @snoc s t ops op hrun hstep ih =>
      have hs := run_traced hx hrun
      cases step_air hs.tx hstep with
      | quiet handed buffer air clean =>
        rw [air] at hnone
        exact (ih hnone).snoc ⟨hstep, clean⟩
      | request g handed buffer air clean =>
        rw [air, Air.request] at hnone
        obtain ⟨hbefore, hflying⟩ := List.append_eq_nil_iff.mp hnone
        have hfree := hs.buffer.mp (Option.toList_eq_nil_iff.mp hflying)
        exact (ih hbefore).snoc ⟨hstep, clean.mpr hfree⟩
      | complete handed buffer air clean =>
        rw [air, Air.complete] at hnone
        exact (ih hnone).snoc ⟨hstep, clean⟩

def Copied (ops : List Op) : Prop := ∀ count left, Op.write count (.fault left) ∉ ops

theorem copied_count {drv : Driver} {x y : Session σ} {ops : List Op} (hx : x.Opened)
    (hrun : Run (Moves drv) x ops y) (hcopy : Copied ops) :
    y.sys.accepted.length = y.sent.length + y.sys.dev.txCount := by
  induction hrun with
  | nil =>
    have hlen := congrArg List.length hx.sys.tx.2
    rw [Ring.items_length] at hlen
    rw [hx.sys.accepted, sent, hx.sys.handed, List.map_nil, List.length_nil, Nat.zero_add]
    exact hlen.symm
  | @snoc s t ops op hrun hstep ih =>
    have ih := ih fun count left hmem => hcopy count left (List.mem_append_left _ hmem)
    have hlast : ∀ count left, op ≠ .write count (.fault left) := by
      rintro count left rfl
      exact hcopy count left (List.mem_append_right _ (List.mem_singleton.mpr rfl))
    have heff := step_effect (run_traced hx hrun).tx hstep.1
    simp only [sent, List.length_map] at ih ⊢
    cases heff with
    | refused count u why same => rwa [same]
    | queued u room busy tx bus accepted handed =>
      have hcount : t.sys.dev.txCount = s.sys.dev.txCount + 1 := congrArg Ring.count tx
      rw [accepted, handed, hcount, List.length_append, List.length_singleton]
      omega
    | direct u room free tx bus accepted handed =>
      have hcount : t.sys.dev.txCount = s.sys.dev.txCount := congrArg Ring.count tx
      cases u with
      | ok can =>
        rw [accepted.trans (if_pos rfl), handed, hcount, List.length_append, List.length_append,
          List.length_singleton, List.length_singleton]
        omega
      | fault left => exact absurd rfl (hlast _ left)
    | drained pos int tx accepted handed =>
      have hcount : t.sys.dev.txCount = s.sys.dev.txCount - 1 := congrArg Ring.count tx
      rw [accepted, handed, hcount, List.length_append, List.length_singleton]
      omega
    | idle hidle tx accepted handed =>
      have hcount : t.sys.dev.txCount = s.sys.dev.txCount := congrArg Ring.count tx
      rw [accepted, handed, hcount, ih]
    | read count fault tx accepted handed =>
      have hcount : t.sys.dev.txCount = s.sys.dev.txCount := congrArg Ring.count tx
      rw [accepted, handed, hcount, ih]
    | env tx accepted handed => rw [accepted, handed, tx, ih]

theorem carried_nil (drv : Driver) (d : CanDev) (c : σ) : carried drv d c = [] := by
  unfold carried
  split
  · rename_i hret
    rw [OpenSys.deviceOpen_dev drv d c hret, OpenSys.next_all]
    exact (resetRings_tx d).2
  · rfl

theorem saved_iff (drv : Driver) (x : Session σ) :
    Saved drv x.close ↔ x.sys.accepted.Subperm x.air.completed := by
  simp only [Saved, carried_nil, List.append_nil]
  exact ⟨fun h => h x.sys.bus, fun h _ => h⟩

/-- The driver is done: nothing queued, nothing in the transmit buffer. -/
def Quiet (x : Session σ) : Prop := x.sys.dev.txCount = 0 ∧ released x.sys.bus = true

/-- A session saves every frame it took if the handler sent into a released buffer only and
the file is closed with the ring empty and the buffer released; and if no copy failed,
only then. -/
theorem close_saves_iff (drv : Driver) {x y : Session σ} {ops : List Op} (hx : x.Opened)
    (hrun : Run (Moves drv) x ops y) :
    (Run (Guarded (Moves drv) KeepsBuffer) x ops y → Quiet y → Saved drv y.close) ∧
    (Copied ops → Saved drv y.close →
      Run (Guarded (Moves drv) KeepsBuffer) x ops y ∧ Quiet y) := by
  have hy := run_traced hx hrun
  have hlen := hy.fate.length_eq
  simp only [Air.frames, List.length_append] at hlen
  rw [saved_iff, run_keeps_iff hx hrun]
  constructor
  · rintro hover ⟨hcount, hfree⟩
    have hitems := Ring.items_eq_nil (r := y.sys.dev.tx) hcount
    have hflying := hy.buffer.mpr hfree
    have hfate := hy.fate
    have htaken := hy.taken
    rw [Air.frames, hover, hflying] at hfate
    rw [hitems, List.append_nil] at htaken
    exact htaken.trans (by simpa using hfate.symm.subperm)
  · intro hcopy hsaved
    have hle := hsaved.length_le
    have hexact := copied_count hx hrun hcopy
    have hover : y.air.overwritten = [] := List.length_eq_zero_iff.mp (by omega)
    have hflying : y.air.flying.toList = [] := List.length_eq_zero_iff.mp (by omega)
    exact ⟨hover, by omega, hy.buffer.mp (Option.toList_eq_nil_iff.mp hflying)⟩

/-! ### A write and a close -/

def start : Session Chip := ⟨Sys.idle, .empty⟩

theorem start_opened : start.Opened := ⟨idle_opened, rfl, rfl⟩

def written (drv : Driver) : Session Chip :=
  start.advance (Sys.idle.write drv CanFrame.size (.ok (numbered 1)))

theorem written_moves (drv : Driver) :
    Moves drv start (.write CanFrame.size (.ok (numbered 1))) (written drv) :=
  ⟨.write _ _ _, rfl⟩

theorem written_locked (drv : Driver) : (written drv).sys.bus.free = false := by
  cases drv <;> decide +kernel

/-- `device_write` succeeds, the file is closed at once, and the frame is lost. -/
def LosesFrame (drv : Driver) : Prop :=
  Run (Moves drv) start [.write CanFrame.size (.ok (numbered 1))] (written drv) ∧
  (written drv).sys.accepted = [numbered 1] ∧ ¬ Saved drv (written drv).close

theorem closing_loses : LosesFrame .pelican ∧ LosesFrame .basiccan := by
  have hboth : ∀ drv, LosesFrame drv := by
    intro drv
    have hsent : (written drv).air.completed = [] := by cases drv <;> decide +kernel
    have htaken : (written drv).sys.accepted = [numbered 1] := by cases drv <;> decide +kernel
    refine ⟨Run.single (written_moves drv), htaken, fun h => ?_⟩
    rw [saved_iff, htaken, hsent] at h
    exact absurd h.length_le (by decide)
  exact ⟨hboth .pelican, hboth .basiccan⟩

/-- Closed once the transmission has completed, the session loses nothing. -/
theorem close_saves_sample :
    Saved .pelican ((written .pelican).advance (written .pelican).sys.complete).close := by
  have hwait : Moves .pelican (written .pelican) .env
      ((written .pelican).advance (written .pelican).sys.complete) :=
    ⟨complete_step .pelican (written_locked .pelican), rfl⟩
  have hkeep : ∀ (x : Session Chip) {op : Op}, op ≠ .irq → KeepsBuffer x op :=
    fun _ _ hop h => absurd h hop
  refine (close_saves_iff .pelican start_opened
    ((Run.single (written_moves .pelican)).snoc hwait)).1 ?_ ⟨by decide +kernel, rfl⟩
  exact (Run.single ⟨written_moves .pelican, hkeep _ (by decide)⟩).snoc
    ⟨hwait, hkeep _ (by decide)⟩

end Session
end CanPci
