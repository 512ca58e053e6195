import CanPci.RxRing

/-!
# `device_read` statement by statement

One reader; whole `irq_handler` runs fall between any two statements, each on
whatever controller it finds. `stored` lists the frames the handler stored and
`results` the calls that returned, both in order.
-/

namespace CanPci
open RingFifo Transition

/-- The statement to execute next; from `bump` on with the record copied out. -/
inductive ReadPc
  | idle
  | checkCount
  | checkEmpty
  | copy
  | bump (can : CanFrame)
  | test (can : CanFrame)
  | wrap (can : CanFrame)
  | drop (can : CanFrame)
  | setRet (can : CanFrame)
  | leave (ret : ℤ) (record : Option CanFrame)
  deriving DecidableEq, Repr

/-- A call that returned: its arguments, the return value and the record copied out. -/
structure ReadResult where
  count : ℕ
  fault : Bool
  ret : ℤ
  record : Option CanFrame
  deriving DecidableEq, Repr

structure RxSys where
  dev : CanDev
  pc : ReadPc
  count : ℕ
  fault : Bool
  stored : List CanFrame
  results : List ReadResult

namespace RxSys

def call (s : RxSys) (count : ℕ) (fault : Bool) : RxSys :=
  {s with pc := .checkCount, count := count, fault := fault}

def next (s : RxSys) : RxSys :=
  match s.pc with
  | .idle => s
  | .checkCount =>
    if s.count ≠ CanFrame.size then {s with pc := .leave eInval none}
    else {s with pc := .checkEmpty}
  | .checkEmpty =>
    if s.dev.rxCount = 0 then {s with pc := .leave 0 none} else {s with pc := .copy}
  | .copy =>
    if s.fault then {s with pc := .leave eFault none}
    else {s with pc := .bump (load s.dev.rxBuf s.dev.rxOut)}
  | .bump can => {s with dev := {s.dev with rxOut := s.dev.rxOut + 1}, pc := .test can}
  | .test can =>
    if s.dev.rxOut = bufferSize then {s with pc := .wrap can} else {s with pc := .drop can}
  | .wrap can => {s with dev := {s.dev with rxOut := 0}, pc := .drop can}
  | .drop can => {s with dev := {s.dev with rxCount := s.dev.rxCount - 1}, pc := .setRet can}
  | .setRet can => {s with pc := .leave s.count (some can)}
  | .leave ret record =>
    {s with pc := .idle, results := s.results ++ [⟨s.count, s.fault, ret, record⟩]}

variable {σ : Type} [Bus σ]

def irq (drv : Driver) (s : RxSys) (c : σ) : RxSys :=
  let out := drv.irqHandler s.dev c
  {s with dev := out.dev, stored := s.stored ++ out.received.map Received.can}

def delivered (s : RxSys) : List CanFrame := s.results.filterMap ReadResult.record

end RxSys

inductive RxOp (σ : Type)
  | call (count : ℕ) (fault : Bool)
  | statement
  | irq (c : σ)

inductive RxStep {σ : Type} [Bus σ] (drv : Driver) : RxSys → RxOp σ → RxSys → Prop
  | call (s count fault) (h : s.pc = .idle) :
      RxStep drv s (.call count fault) (s.call count fault)
  | statement (s) : RxStep drv s .statement s.next
  | irq (s c) : RxStep drv s (.irq c) (s.irq drv c)

/-- The statements of a call that nothing interrupts are `device_read`. -/
theorem deviceRead_statements (s : RxSys) (count : ℕ) (fault : Bool) :
    let r := deviceRead s.dev count fault
    ∃ n, RxSys.next^[n] (s.call count fault) =
      {s with dev := r.2.2, pc := .idle, count := count, fault := fault,
              results := s.results ++ [⟨count, fault, r.1, r.2.1⟩]} := by
  by_cases hcount : count = CanFrame.size
  · by_cases hempty : s.dev.rxCount = 0
    · refine ⟨3, ?_⟩
      simp [RxSys.call, RxSys.next, deviceRead, hcount, hempty]
    · cases fault with
      | true =>
        refine ⟨4, ?_⟩
        simp [RxSys.call, RxSys.next, deviceRead, hcount, hempty]
      | false =>
        by_cases hwrap : s.dev.rxOut + 1 = bufferSize
        · refine ⟨9, ?_⟩
          simp [RxSys.call, RxSys.next, deviceRead, wrapEq, hcount, hempty, hwrap]
        · refine ⟨8, ?_⟩
          simp [RxSys.call, RxSys.next, deviceRead, wrapEq, hcount, hempty, hwrap]
  · refine ⟨2, ?_⟩
    simp [RxSys.call, RxSys.next, deviceRead, hcount]

end CanPci
