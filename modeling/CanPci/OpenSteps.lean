import CanPci.RxRing
import CanPci.RegFile

/-!
# `device_open` with interrupts already enabled

After the controller has left reset mode the eight ring fields are reset one by one,
and whole `irq_handler` runs fall between any two statements.
-/

namespace CanPci
open RingFifo Transition

def OpenStmt.succ : OpenStmt → Option OpenStmt
  | .memsetTxBuf => some .txCount
  | .txCount => some .txIn
  | .txIn => some .txOut
  | .txOut => some .memsetRxBuf
  | .memsetRxBuf => some .rxCount
  | .rxCount => some .rxIn
  | .rxIn => some .rxOut
  | .rxOut => some .privateData
  | .privateData => none

/-- `pc` is the statement to execute next, `received` lists the frames stored since the
controller entered operating mode, and `window` counts the handler runs that read `RI`
set between the resets of `rx_count` and `rx_in`. -/
structure OpenSys where
  dev : CanDev
  pc : Option OpenStmt
  received : List CanFrame
  window : ℕ

namespace OpenSys

def start (d : CanDev) : OpenSys := ⟨d, some .memsetTxBuf, [], 0⟩

def next (s : OpenSys) : OpenSys :=
  match s.pc with
  | none => s
  | some st => {s with dev := st.exec s.dev, pc := st.succ}

theorem next_all (d : CanDev) : next^[9] (start d) = ⟨resetRings d, none, [], 0⟩ := rfl

variable {σ : Type} [Bus σ]

/-- A `device_open` that nothing interrupts and that returns 0 ends like its statements. -/
theorem deviceOpen_dev (drv : Driver) (d : CanDev) (c : σ) (h : (drv.deviceOpen d c).ret = 0) :
    (drv.deviceOpen d c).dev = (next^[9] (start d)).dev := by
  have herror : eFault ≠ 0 := by decide
  have hopen : ∀ configure : σ → σ, (openWith configure d c).ret = 0 →
      (openWith configure d c).dev = resetRings d := by
    intro configure
    unfold openWith
    dsimp only
    split
    · exact fun hret => absurd hret herror
    · split
      · exact fun hret => absurd hret herror
      · exact fun _ => rfl
  rw [next_all]
  cases drv with
  | pelican => exact hopen _ h
  | basiccan => exact hopen _ h

def irq (drv : Driver) (s : OpenSys) (c : σ) : OpenSys :=
  let out := drv.irqHandler s.dev c
  {s with
    dev := out.dev
    received := s.received ++ out.received.map Received.can
    window := if s.pc = some .rxIn ∧ (ioread8 sjaIntReg c).1 &&& ri ≠ 0 then s.window + 1
      else s.window}

end OpenSys

inductive OpenOp (σ : Type)
  | statement
  | irq (c : σ)

inductive OpenStep {σ : Type} [Bus σ] (drv : Driver) : OpenSys → OpenOp σ → OpenSys → Prop
  | statement (s) : OpenStep drv s .statement s.next
  | irq (s c) : OpenStep drv s (.irq c) (s.irq drv c)

namespace OpenSys

/-! ### The transmit side -/

/-- Before the reset of `tx_count` the ring is as consistent as it was; afterwards
nothing is queued, so the handler moves no index. -/
def TxPhase (d : CanDev) : Option OpenStmt → Prop
  | some .memsetTxBuf | some .txCount => d.tx.Consistent
  | some .txIn => d.txCount = 0
  | some .txOut => d.txCount = 0 ∧ d.txIn = 0
  | _ => d.txCount = 0 ∧ d.txIn = 0 ∧ d.txOut = 0

theorem txPhase_next {d : CanDev} {st : OpenStmt} (h : TxPhase d (some st)) :
    TxPhase (st.exec d) st.succ := by
  cases st with
  | memsetTxBuf => exact ⟨h.count_le, h.tail_lt, h.head_lt, h.tail_eq⟩
  | txCount => exact rfl
  | txIn => exact ⟨h, rfl⟩
  | txOut => exact ⟨h.1, h.2, rfl⟩
  | memsetRxBuf => exact h
  | rxCount => exact h
  | rxIn => exact h
  | rxOut => exact h
  | privateData => exact h

section
variable {σ : Type} [Bus σ]

theorem txPhase_irq (drv : Driver) {d : CanDev} (c : σ) {pc : Option OpenStmt}
    (h : TxPhase d pc) : TxPhase (drv.irqHandler d c).dev pc := by
  have hsame : d.txCount = 0 → (drv.irqHandler d c).dev.tx = d.tx := by
    intro hzero
    exact (drv.irqHandler_tx_or d c).resolve_right fun hpos => absurd hpos.1 (by omega)
  have hkeep : d.tx.Consistent → (drv.irqHandler d c).dev.tx.Consistent := by
    intro hc
    rcases drv.irqHandler_tx_or d c with htx | ⟨hpos, htx⟩
    · rw [htx]
      exact hc
    · rw [htx]
      exact Ring.drop_consistent hc hpos
  have hall : d.txCount = 0 ∧ d.txIn = 0 ∧ d.txOut = 0 →
      (drv.irqHandler d c).dev.txCount = 0 ∧ (drv.irqHandler d c).dev.txIn = 0 ∧
        (drv.irqHandler d c).dev.txOut = 0 := by
    rintro ⟨hcount, hin, hout⟩
    have htx := hsame hcount
    exact ⟨(congrArg Ring.count htx).trans hcount, (congrArg Ring.tail htx).trans hin,
      (congrArg Ring.head htx).trans hout⟩
  match pc with
  | none => exact hall h
  | some .memsetTxBuf => exact hkeep h
  | some .txCount => exact hkeep h
  | some .txIn => exact (congrArg Ring.count (hsame h)).trans h
  | some .txOut =>
    exact ⟨(congrArg Ring.count (hsame h.1)).trans h.1, (congrArg Ring.tail (hsame h.1)).trans h.2⟩
  | some .memsetRxBuf => exact hall h
  | some .rxCount => exact hall h
  | some .rxIn => exact hall h
  | some .rxOut => exact hall h
  | some .privateData => exact hall h

end

/-! ### The receive side -/

/-- Read from slot `o`, the ring is consistent and holds received frames only. -/
structure FreshFrom (s : OpenSys) (o : ℕ) : Prop where
  consistent : (s.dev.rxFrom o).Consistent
  fresh : ∀ can ∈ (s.dev.rxFrom o).items, can ∈ s.received

/-- The number of frames stored in the window leaves the indices together. -/
def Aligned (n : ℕ) : Prop := n = 0 ∨ bufferSize ≤ n

/-- After the reset of `rx_in`: either the ring is in order from slot 0 on, or `rx_in`
and `rx_count` have come apart for good. -/
structure Settled (s : OpenSys) : Prop where
  aligned : Aligned s.window → s.FreshFrom 0
  skewed : ¬ Aligned s.window → s.dev.rxCount ≤ bufferSize ∧ s.dev.rxIn < bufferSize ∧
    s.dev.rxIn ≠ s.dev.rxCount % bufferSize

def RxPhase (s : OpenSys) : Prop :=
  match s.pc with
  | some .rxIn => s.dev.rxCount = min s.window bufferSize ∧ s.dev.rxOut < bufferSize ∧
      ∃ o, s.FreshFrom o
  | some .rxOut => s.Settled
  | some .privateData | none => s.Settled ∧ s.dev.rxOut = 0
  | _ => s.dev.rx.Consistent ∧ s.window = 0

theorem rxPhase_bounds {s : OpenSys} (h : s.RxPhase) :
    s.dev.rxCount ≤ bufferSize ∧ s.dev.rxIn < bufferSize := by
  have hsettled : s.Settled → s.dev.rxCount ≤ bufferSize ∧ s.dev.rxIn < bufferSize := by
    intro hs
    by_cases ha : Aligned s.window
    · exact ⟨(hs.aligned ha).consistent.count_le, (hs.aligned ha).consistent.tail_lt⟩
    · exact ⟨(hs.skewed ha).1, (hs.skewed ha).2.1⟩
  have hearly : s.dev.rx.Consistent ∧ s.window = 0 →
      s.dev.rxCount ≤ bufferSize ∧ s.dev.rxIn < bufferSize :=
    fun hs => ⟨hs.1.count_le, hs.1.tail_lt⟩
  unfold RxPhase at h
  split at h
  · obtain ⟨-, -, o, ho⟩ := h
    exact ⟨ho.consistent.count_le, ho.consistent.tail_lt⟩
  · exact hsettled h
  · exact hsettled h.1
  · exact hsettled h.1
  · exact hearly h

theorem settle {s : OpenSys} (hcount : s.dev.rxCount = min s.window bufferSize)
    (hfresh : ∃ o, s.FreshFrom o) :
    Settled {s with dev := {s.dev with rxIn := 0}, pc := some .rxOut} := by
  obtain ⟨o, ho⟩ := hfresh
  constructor
  · rintro (hzero | hfull)
    · have hnone : s.dev.rxCount = 0 := by
        change s.window = 0 at hzero
        omega
      refine ⟨⟨ho.consistent.count_le, Nat.zero_lt_succ _, Nat.zero_lt_succ _, ?_⟩, ?_⟩
      · show 0 = (0 + s.dev.rxCount) % bufferSize
        rw [hnone]
        rfl
      · intro can hcan
        have hnil : ((CanDev.rxFrom {s.dev with rxIn := 0} 0)).items = [] := Ring.items_eq_nil hnone
        rw [hnil] at hcan
        cases hcan
    · have hall : s.dev.rxCount = bufferSize := by
        change bufferSize ≤ s.window at hfull
        omega
      refine ⟨⟨ho.consistent.count_le, Nat.zero_lt_succ _, Nat.zero_lt_succ _, ?_⟩, ?_⟩
      · show 0 = (0 + s.dev.rxCount) % bufferSize
        rw [hall]
        rfl
      · exact fun can hcan => ho.fresh can (Ring.mem_items_of_full ho.consistent hall 0 hcan)
  · intro hskew
    have hrange : 0 < s.window ∧ s.window < bufferSize := by
      change ¬ (s.window = 0 ∨ bufferSize ≤ s.window) at hskew
      omega
    have hwindow : s.dev.rxCount = s.window := by omega
    refine ⟨ho.consistent.count_le, Nat.zero_lt_succ _, ?_⟩
    show 0 ≠ s.dev.rxCount % bufferSize
    rw [hwindow, Nat.mod_eq_of_lt hrange.2]
    exact hrange.1.ne

theorem rxPhase_next {s : OpenSys} (h : s.RxPhase) : s.next.RxPhase := by
  have hindices : ∀ {d : CanDev}, d.rxCount = s.dev.rxCount → d.rxIn = s.dev.rxIn →
      d.rxOut = s.dev.rxOut → s.dev.rx.Consistent → d.rx.Consistent := by
    intro d hcount hin hout hc
    obtain ⟨h1, h2, h3, h4⟩ := hc
    refine ⟨?_, ?_, ?_, ?_⟩
    · exact hcount.trans_le h1
    · exact hin.trans_lt h2
    · exact hout.trans_lt h3
    · show d.rxIn = (d.rxOut + d.rxCount) % bufferSize
      rw [hcount, hin, hout]
      exact h4
  unfold RxPhase at h
  unfold next
  cases hpc : s.pc with
  | none => rw [hpc] at h; simpa only [RxPhase, hpc] using h
  | some st =>
    rw [hpc] at h
    cases st with
    | memsetTxBuf => exact h
    | txCount => exact h
    | txIn => exact h
    | txOut => exact h
    | memsetRxBuf => exact ⟨hindices rfl rfl rfl h.1, h.2⟩
    | rxCount =>
      obtain ⟨hc, hwindow⟩ := h
      refine ⟨?_, hc.head_lt, s.dev.rxIn, ⟨Nat.zero_le _, hc.tail_lt, hc.tail_lt, ?_⟩, ?_⟩
      · show 0 = min s.window bufferSize
        rw [hwindow]
        rfl
      · exact (Nat.mod_eq_of_lt hc.tail_lt).symm
      · exact fun can hcan => by cases hcan
    | rxIn => exact settle h.1 h.2.2
    | rxOut =>
      have hsettled : Settled {s with dev := {s.dev with rxOut := 0}, pc := some .privateData} :=
        ⟨fun ha => ⟨(h.aligned ha).consistent, (h.aligned ha).fresh⟩, h.skewed⟩
      exact ⟨hsettled, rfl⟩
    | privateData =>
      have hsettled : Settled {s with pc := none} :=
        ⟨fun ha => ⟨(h.1.aligned ha).consistent, (h.1.aligned ha).fresh⟩, h.1.skewed⟩
      exact ⟨hsettled, h.2⟩

section
variable {σ : Type} [Bus σ] {drv : Driver} {s : OpenSys} {c : σ}

theorem FreshFrom.irq {o : ℕ} (h : s.FreshFrom o)
    (heff : Driver.RxEffect s.dev c (drv.irqHandler s.dev c)) : (s.irq drv c).FreshFrom o := by
  obtain ⟨hc, hitems⟩ := heff.from_slot h.consistent
  refine ⟨hc, ?_⟩
  intro can hcan
  have hcan' : can ∈ (s.dev.rxFrom o).items ++
      (drv.irqHandler s.dev c).received.map Received.can := hitems ▸ hcan
  rcases List.mem_append.mp hcan' with hold | hnew
  · exact List.mem_append_left _ (h.fresh can hold)
  · exact List.mem_append_right _ hnew

theorem Settled.irq (h : s.Settled) (hpc : s.pc ≠ some .rxIn)
    (heff : Driver.RxEffect s.dev c (drv.irqHandler s.dev c)) : (s.irq drv c).Settled := by
  have hwindow : (s.irq drv c).window = s.window := if_neg fun hboth => hpc hboth.1
  constructor
  · rw [hwindow]
    exact fun ha => (h.aligned ha).irq heff
  · rw [hwindow]
    intro ha
    obtain ⟨hle, hlt, hne⟩ := h.skewed ha
    cases heff with
    | stored int room can dlc tail pad received rx =>
      have hcount : (s.irq drv c).dev.rxCount = s.dev.rxCount + 1 := congrArg Ring.count rx
      have hin : (s.irq drv c).dev.rxIn = RingFifo.next bufferSize s.dev.rxIn :=
        congrArg Ring.tail rx
      rw [hcount, hin]
      refine ⟨room, next_lt hlt, ?_⟩
      rw [next_eq_mod hlt]
      change s.dev.rxIn < 6 at hlt
      change s.dev.rxIn ≠ s.dev.rxCount % 6 at hne
      show (s.dev.rxIn + 1) % 6 ≠ (s.dev.rxCount + 1) % 6
      omega
    | ignored why received rx =>
      have hcount : (s.irq drv c).dev.rxCount = s.dev.rxCount := congrArg Ring.count rx
      have hin : (s.irq drv c).dev.rxIn = s.dev.rxIn := congrArg Ring.tail rx
      rw [hcount, hin]
      exact ⟨hle, hlt, hne⟩

theorem window_irq (hpc : s.pc = some .rxIn)
    (hcount : s.dev.rxCount = min s.window bufferSize)
    (heff : Driver.RxEffect s.dev c (drv.irqHandler s.dev c)) :
    (s.irq drv c).dev.rxCount = min (s.irq drv c).window bufferSize := by
  cases heff with
  | stored int room can dlc tail pad received rx =>
    have hone : (s.irq drv c).dev.rxCount = s.dev.rxCount + 1 := congrArg Ring.count rx
    have hwindow : (s.irq drv c).window = s.window + 1 := if_pos ⟨hpc, int⟩
    omega
  | ignored why received rx =>
    have hsame : (s.irq drv c).dev.rxCount = s.dev.rxCount := congrArg Ring.count rx
    by_cases hri : (ioread8 sjaIntReg c).1 &&& ri ≠ 0
    · have hwindow : (s.irq drv c).window = s.window + 1 := if_pos ⟨hpc, hri⟩
      have hfull : ¬ s.dev.rxCount < bufferSize := fun hroom => why ⟨hri, hroom⟩
      omega
    · have hwindow : (s.irq drv c).window = s.window := if_neg fun hboth => hri hboth.2
      omega

/-- Until `rx_count` is reset, a frame of any length does no harm outside the last slot. -/
def Passing (s : OpenSys) : Prop :=
  s.pc ∈ (openTail.take 6).map some ∧ s.dev.rxIn + 1 < bufferSize

instance decidablePassing (s : OpenSys) : Decidable s.Passing := instDecidableAnd

theorem rxPhase_early {s : OpenSys} (h : s.pc ∈ (openTail.take 6).map some) :
    s.RxPhase ↔ s.dev.rx.Consistent ∧ s.window = 0 := by
  unfold RxPhase
  revert h
  generalize s.pc = pc
  intro h
  cases pc with
  | none => exact absurd h (by decide)
  | some st =>
    cases st with
    | rxIn => exact absurd h (by decide)
    | rxOut => exact absurd h (by decide)
    | privateData => exact absurd h (by decide)
    | _ => exact Iff.rfl

theorem rxPhase_passing (h : s.RxPhase) (hpass : s.Passing) : (s.irq drv c).RxPhase := by
  obtain ⟨hpc, hlast⟩ := hpass
  obtain ⟨hc, hwindow⟩ := (rxPhase_early hpc).mp h
  have hne : s.pc ≠ some .rxIn := by
    intro heq
    rw [heq] at hpc
    exact absurd hpc (by decide)
  have hsame : (s.irq drv c).pc = s.pc := rfl
  refine (rxPhase_early (hsame ▸ hpc)).mpr ⟨?_, (if_neg fun hboth => hne hboth.1).trans hwindow⟩
  by_cases hstore : (ioread8 sjaIntReg c).1 &&& ri ≠ 0 ∧ s.dev.rxCount < bufferSize
  · exact drv.irqHandler_consistent s.dev c hc hlast hstore.1 hstore.2
  · show (drv.irqHandler s.dev c).dev.rx.Consistent
    rw [(drv.irqHandler_ignore s.dev c hc.count_le hstore).2]
    exact hc

theorem rxPhase_irq (h : s.RxPhase) (hfit : drv.FitsSlot s.dev c) : (s.irq drv c).RxPhase := by
  obtain ⟨hle, hlt⟩ := rxPhase_bounds h
  have heff := drv.irqHandler_rx s.dev c hle hlt hfit
  have hhead : (s.irq drv c).dev.rxOut = s.dev.rxOut := heff.keeps_head
  have hearly : s.pc ≠ some .rxIn → s.dev.rx.Consistent ∧ s.window = 0 →
      (s.irq drv c).dev.rx.Consistent ∧ (s.irq drv c).window = 0 := by
    intro hpc hs
    refine ⟨heff.consistent hs.1, ?_⟩
    exact (if_neg fun hboth => hpc hboth.1).trans hs.2
  have hlate : s.pc ≠ some .rxIn → s.Settled ∧ s.dev.rxOut = 0 →
      (s.irq drv c).Settled ∧ (s.irq drv c).dev.rxOut = 0 :=
    fun hpc hs => ⟨hs.1.irq hpc heff, hhead.trans hs.2⟩
  unfold RxPhase at h ⊢
  have hsame : (s.irq drv c).pc = s.pc := rfl
  rw [hsame]
  cases hpc : s.pc with
  | none => rw [hpc] at h hlate; exact hlate (by decide) h
  | some st =>
    rw [hpc] at h hearly hlate
    cases st with
    | rxIn =>
      obtain ⟨hcount, hout, o, ho⟩ := h
      exact ⟨window_irq hpc hcount heff, hhead.trans_lt hout, o, ho.irq heff⟩
    | rxOut => exact h.irq (by rw [hpc]; decide) heff
    | privateData => exact hlate (by decide) h
    | memsetTxBuf => exact hearly (by decide) h
    | txCount => exact hearly (by decide) h
    | txIn => exact hearly (by decide) h
    | txOut => exact hearly (by decide) h
    | memsetRxBuf => exact hearly (by decide) h
    | rxCount => exact hearly (by decide) h

def ShortFrames (drv : Driver) (s : OpenSys) : OpenOp σ → Prop
  | .irq c => drv.FitsSlot s.dev c ∨ s.Passing
  | .statement => True

instance decidableShortFrames (s : OpenSys) :
    (op : OpenOp σ) → Decidable (ShortFrames drv s op)
  | .irq _ => instDecidableOr
  | .statement => instDecidableTrue

theorem step_phases {t : OpenSys} {op : OpenOp σ} (h : TxPhase s.dev s.pc ∧ s.RxPhase)
    (hstep : Guarded (OpenStep drv) (ShortFrames drv) s op t) :
    TxPhase t.dev t.pc ∧ t.RxPhase := by
  obtain ⟨hstep, hfit⟩ := hstep
  cases hstep with
  | statement =>
    refine ⟨?_, rxPhase_next h.2⟩
    unfold next
    cases hpc : s.pc with
    | none =>
      have htx := h.1
      rw [hpc] at htx
      simpa only [hpc] using htx
    | some st =>
      have htx := h.1
      rw [hpc] at htx
      exact txPhase_next htx
  | irq c =>
    refine ⟨txPhase_irq drv c h.1, ?_⟩
    rcases hfit with hfit | hpass
    · exact rxPhase_irq h.2 hfit
    · exact rxPhase_passing h.2 hpass

/-- Both rings satisfy their invariants and every frame counted in is a new one. -/
structure Ready (s : OpenSys) : Prop where
  tx : s.dev.tx.Consistent
  rx : s.dev.rx.Consistent
  fresh : ∀ can ∈ s.dev.rx.items, can ∈ s.received

end

/-- However handler runs fall between the statements, with at most eight data bytes in
every frame they store (or, until `rx_count` is reset, in every frame for the last slot),
`device_open` returns with both rings in order exactly when none of them, or at least six,
read `RI` set between the resets of `rx_count` and `rx_in`. -/
theorem open_ready_iff {σ : Type} [Bus σ] (drv : Driver) {d : CanDev} {t : OpenSys}
    {ops : List (OpenOp σ)} (htx : d.tx.Consistent) (hrx : d.rx.Consistent)
    (hrun : Run (Guarded (OpenStep drv) (ShortFrames drv)) (start d) ops t)
    (hdone : t.pc = none) :
    t.Ready ↔ t.window = 0 ∨ bufferSize ≤ t.window := by
  have hstart : TxPhase (start d).dev (start d).pc ∧ (start d).RxPhase := ⟨htx, hrx, rfl⟩
  have hphases : TxPhase t.dev t.pc ∧ t.RxPhase :=
    hrun.invariant (P := fun u => TxPhase u.dev u.pc ∧ u.RxPhase)
      (fun _ _ _ h hstep => step_phases h hstep) hstart
  obtain ⟨htx', hrx'⟩ := hphases
  rw [hdone] at htx'
  unfold RxPhase at hrx'
  rw [hdone] at hrx'
  obtain ⟨hsettled, hout⟩ := hrx'
  have hfrom : t.dev.rxFrom 0 = t.dev.rx := by
    unfold CanDev.rxFrom
    rw [← hout]
    rfl
  constructor
  · intro hready
    by_contra hskew
    have hne := (hsettled.skewed hskew).2.2
    have heq : t.dev.rxIn = (t.dev.rxOut + t.dev.rxCount) % bufferSize := hready.rx.tail_eq
    rw [hout, Nat.zero_add] at heq
    exact hne heq
  · intro ha
    obtain ⟨hc, hfresh⟩ := hsettled.aligned ha
    rw [hfrom] at hc hfresh
    refine ⟨⟨?_, ?_, ?_, ?_⟩, hc, hfresh⟩
    · exact htx'.1.trans_le (Nat.zero_le _)
    · exact htx'.2.1.trans_lt (by decide)
    · exact htx'.2.2.trans_lt (by decide)
    · show t.dev.txIn = (t.dev.txOut + t.dev.txCount) % bufferSize
      rw [htx'.1, htx'.2.1, htx'.2.2]
      rfl

theorem next_run {σ : Type} [Bus σ] (drv : Driver) (s : OpenSys) (n : ℕ) :
    Run (Guarded (OpenStep (σ := σ) drv) (ShortFrames drv)) s (List.replicate n .statement)
      (next^[n] s) := by
  induction n with
  | zero => exact Run.nil s
  | succ n ih =>
    rw [List.replicate_succ', Function.iterate_succ_apply']
    exact ih.snoc ⟨.statement _, trivial⟩

/-- The steps as a machine that emits the frames stored. -/
def execute (drv : Driver) (s : OpenSys) : OpenOp RegFile → OpenSys × List CanFrame
  | .statement => (s.next, [])
  | .irq c => (s.irq drv c, (drv.irqHandler s.dev c).received.map Received.can)

theorem execute_step {drv : Driver} (s : OpenSys) (op : OpenOp RegFile) (h : ShortFrames drv s op) :
    Guarded (OpenStep drv) (ShortFrames drv) s op (s.execute drv op).1 := by
  cases op with
  | statement => exact ⟨.statement s, h⟩
  | irq c => exact ⟨.irq s c, h⟩

def midSession : CanDev :=
  ⟨Vector.replicate _ (loaded 7), 2, 5, 3, Vector.replicate _ (loaded 8), 2, 4, 2⟩

/-- A frame of fifteen bytes before the resets, a frame before `rx_count` and two after `rx_in`
are reset. -/
def sampleOpening : List (OpenOp RegFile) :=
  [.irq (.showing 16 [0x0f, 0x24, 0x60, 1, 2, 3, 4, 5, 6, 7, 8, 9, 10, 11, 12, 13, 14, 15])] ++
    List.replicate 5 .statement ++ [.irq .extended] ++ List.replicate 2 .statement ++
    [.irq .extended] ++ List.replicate 2 .statement ++ [.irq .remote]

theorem open_ready_sample :
    let t := (Machine.run (execute .pelican) (start midSession) sampleOpening).1
    t.Ready ∧ t.dev.rx.items = [⟨0x82468acf, 2, #v[0, 0, 0], #v[0xaa, 0xbb, 0, 0, 0, 0, 0, 0]⟩,
      ⟨0x400007ff, 0, #v[0, 0, 0], #v[0, 0, 0, 0, 0, 0, 0, 0]⟩] := by
  intro t
  have hrun : Run (Guarded (OpenStep .pelican) (ShortFrames .pelican)) (start midSession)
      sampleOpening t :=
    Run.of_machine execute_step (by decide +kernel)
  have htx : midSession.tx.Consistent := ⟨by decide, by decide, by decide, by decide⟩
  have hrx : midSession.rx.Consistent := ⟨by decide, by decide, by decide, by decide⟩
  exact ⟨(open_ready_iff .pelican htx hrx hrun (by decide +kernel)).mpr (Or.inl (by decide +kernel)),
    by decide +kernel⟩

def leftOver : CanDev := {CanDev.probed with rxIn := 3, rxOut := 3}

def arrival : RegFile := {RegFile.zero with regs := fun _ => 1}

def interrupted (drv : Driver) : OpenSys := next^[3] ((next^[6] (start leftOver)).irq drv arrival)

/-- `interrupted` ends a run from consistent rings, with an empty record counted in and
the received frame lost. -/
def Misaligns (drv : Driver) : Prop :=
  leftOver.tx.Consistent ∧ leftOver.rx.Consistent ∧
  Run (Guarded (OpenStep drv) (ShortFrames drv)) (start leftOver)
    (List.replicate 6 .statement ++ [.irq arrival] ++ List.replicate 3 .statement)
    (interrupted drv) ∧
  (interrupted drv).pc = none ∧
  ((interrupted drv).dev.rxCount = 1 ∧ (interrupted drv).dev.rxIn = 0 ∧
    (interrupted drv).dev.rxOut = 0) ∧
  (interrupted drv).dev.rx.items = [CanFrame.zero] ∧
  CanFrame.zero ∉ (interrupted drv).received ∧ ¬ (interrupted drv).Ready

theorem open_interrupted : Misaligns .pelican ∧ Misaligns .basiccan := by
  have hboth : ∀ drv, Misaligns drv := by
    intro drv
    have hfits : drv.FitsSlot (next^[6] (start leftOver)).dev arrival := by
      intro _ _
      cases drv <;> decide +kernel
    have hindices : (interrupted drv).dev.rxCount = 1 ∧ (interrupted drv).dev.rxIn = 0 ∧
        (interrupted drv).dev.rxOut = 0 := by
      cases drv <;> decide +kernel
    refine ⟨⟨by decide, by decide, by decide, by decide⟩,
      ⟨by decide, by decide, by decide, by decide⟩, ?_, rfl, hindices, ?_, ?_, ?_⟩
    · exact ((next_run drv _ 6).snoc ⟨.irq _ _, Or.inl hfits⟩).append (next_run drv _ 3)
    · cases drv <;> decide +kernel
    · cases drv <;> decide +kernel
    · intro hready
      have heq : (interrupted drv).dev.rxIn =
          ((interrupted drv).dev.rxOut + (interrupted drv).dev.rxCount) % bufferSize :=
        hready.rx.tail_eq
      rw [hindices.1, hindices.2.1, hindices.2.2] at heq
      exact absurd heq (by decide)
  exact ⟨hboth .pelican, hboth .basiccan⟩

end OpenSys
end CanPci
