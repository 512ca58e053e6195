import CanPci.Device
import CanPci.Lib.History
import Mathlib.Data.List.Perm.Basic

/-!
# The CAN character device (backup/qemu_linux4/qemu-char.c)

What `qemu_chr_open_can` acquires, on each of its failure paths, and what
`can_chr_close` gives back. Filters, the interface name and the two methods of the
character device hold no resource and are left out.
-/

namespace CanPci.CharDev
open Machine

/-- A block of `sizeof(CANCharDriver)`. -/
structure CanCharDriver where
  addr : ℕ
  fd : ℕ
  deriving DecidableEq, Repr

/-- A `CharDriverState` and the driver its private pointer leads to. -/
structure Chr where
  addr : ℕ
  driver : Option ℕ
  deriving DecidableEq, Repr

structure Host where
  sockets : List ℕ
  chrs : List ℕ
  drivers : List CanCharDriver
  deriving DecidableEq, Repr

namespace Host

def socket (s : ℕ) (h : Host) : Host := {h with sockets := s :: h.sockets}

def mallocChr (a : ℕ) (h : Host) : Host := {h with chrs := a :: h.chrs}

/-- `g_malloc0` zeroes the block. -/
def mallocDriver (a : ℕ) (h : Host) : Host := {h with drivers := ⟨a, 0⟩ :: h.drivers}

def freeChr (a : ℕ) (h : Host) : Host := {h with chrs := h.chrs.erase a}

def freeDriver (a : ℕ) (h : Host) : Host :=
  {h with drivers := h.drivers.eraseP fun d => a == d.addr}

def setFd (a s : ℕ) (h : Host) : Host :=
  {h with drivers := h.drivers.map fun d => if d.addr = a then {d with fd := s} else d}

end Host

/-- What the calls inside an open answer; `none` is failure. -/
structure Answers where
  port : Option String
  socket : Option ℕ
  chr : Option ℕ
  driver : Option ℕ
  ifindex : Option ℕ
  bound : Bool
  deriving DecidableEq, Repr

def fail0 (h : Host) : Option Chr × Host := (none, h)

def fail1 (chr : ℕ) (h : Host) : Option Chr × Host := fail0 (h.freeChr chr)

def fail (chr d : ℕ) (h : Host) : Option Chr × Host := fail1 chr (h.freeDriver d)

def qemuChrOpenCan (ans : Answers) (h : Host) : Option Chr × Host :=
  match ans.port with
  | none => (none, h)
  | some _ =>
    match ans.socket with
    | none => (none, h)
    | some s =>
      let h := h.socket s
      match ans.chr with
      | none => fail0 h
      | some chr =>
        let h := h.mallocChr chr
        match ans.driver with
        | none => fail1 chr h
        | some d =>
          let h := h.mallocDriver d
          match ans.ifindex with
          | none => fail chr d h
          | some _ =>
            if ans.bound then (some ⟨chr, some d⟩, h.setFd d s)
            else fail chr d h

/-- `g_free(NULL)` does nothing. The socket `d->fd` is not closed. -/
def canChrClose (chr : Chr) (h : Host) : Chr × Host :=
  match chr.driver with
  | none => ({chr with driver := none}, h)
  | some d => ({chr with driver := none}, h.freeDriver d)

/-- `qemu_chr_delete` frees the device after closing it. -/
def qemuChrDelete (chr : Chr) (h : Host) : Host :=
  let (chr, h) := canChrClose chr h
  h.freeChr chr.addr

structure Session where
  host : Host
  opened : List Chr
  deriving DecidableEq, Repr

/-- `close i` is about the `i`-th open device. -/
inductive Call
  | openCan (ans : Answers)
  | close (i : ℕ)
  deriving DecidableEq, Repr

def call (s : Session) : Call → Session × List (Option Chr)
  | .openCan ans =>
    let r := qemuChrOpenCan ans s.host
    (⟨r.2, r.1.toList ++ s.opened⟩, [r.1])
  | .close i =>
    match s.opened[i]? with
    | none => (s, [])
    | some chr => (⟨qemuChrDelete chr s.host, s.opened.eraseIdx i⟩, [])

def Balanced (s : Session) : Prop :=
  s.host.sockets.length = s.opened.length ∧ s.host.drivers.length = s.opened.length

/-- A failing open leaves sockets and private blocks as they were. -/
def Undisturbed (s : Session) (c : Call) : Prop :=
  ∀ ans, c = .openCan ans → (qemuChrOpenCan ans s.host).1 = none →
    (qemuChrOpenCan ans s.host).2.sockets = s.host.sockets ∧
    (qemuChrOpenCan ans s.host).2.drivers = s.host.drivers

def Answers.FailsLate (ans : Answers) : Prop :=
  ans.port ≠ none ∧ ans.socket ≠ none ∧
    (ans.chr = none ∨ ans.driver = none ∨ ans.ifindex = none ∨ ans.bound = false)

def Leaks (s : Session) : Call → Prop
  | .openCan ans => ans.FailsLate
  | .close i => i < s.opened.length

/-- The private pointers of the open devices are the allocated blocks. -/
def Linked (s : Session) : Prop :=
  (s.opened.map Chr.driver).Perm (s.host.drivers.map fun d => some d.addr)

def start : Session := ⟨⟨[], [], []⟩, []⟩

theorem fail1_eq (chr : ℕ) (h : Host) : fail1 chr (h.mallocChr chr) = (none, h) := by
  simp [fail1, fail0, Host.mallocChr, Host.freeChr]

theorem fail_eq (chr d : ℕ) (h : Host) :
    fail chr d ((h.mallocChr chr).mallocDriver d) = (none, h) := by
  have hfree : ((h.mallocChr chr).mallocDriver d).freeDriver d = h.mallocChr chr := by
    simp [Host.mallocDriver, Host.freeDriver]
  rw [fail, hfree, fail1_eq]

theorem setFd_addrs (d s : ℕ) (h : Host) :
    (h.setFd d s).drivers.map CanCharDriver.addr = h.drivers.map CanCharDriver.addr := by
  simp only [Host.setFd, List.map_map]
  apply List.map_congr_left
  intro x _
  show (if x.addr = d then {x with fd := s} else x).addr = x.addr
  split <;> rfl

/-- An open acquires nothing, or fails with its socket open, or acquires all. -/
inductive Opened (ans : Answers) (h : Host) : Option Chr × Host → Prop
  | early : ¬ ans.FailsLate → Opened ans h (none, h)
  | late (s : ℕ) : ans.FailsLate → Opened ans h (none, h.socket s)
  | success (chr d s : ℕ) (r : Host) : ¬ ans.FailsLate → r.sockets = s :: h.sockets →
      r.drivers.map CanCharDriver.addr = d :: h.drivers.map CanCharDriver.addr →
      Opened ans h (some ⟨chr, some d⟩, r)

theorem open_effect (ans : Answers) (h : Host) : Opened ans h (qemuChrOpenCan ans h) := by
  obtain ⟨port, socket, chr, driver, ifindex, bound⟩ := ans
  unfold qemuChrOpenCan
  cases port with
  | none => exact .early (by simp [Answers.FailsLate])
  | some port =>
    cases socket with
    | none => exact .early (by simp [Answers.FailsLate])
    | some s =>
      cases chr with
      | none => exact .late s (by simp [Answers.FailsLate])
      | some chr =>
        cases driver with
        | none =>
          dsimp only
          rw [fail1_eq]
          exact .late s (by simp [Answers.FailsLate])
        | some d =>
          cases ifindex with
          | none =>
            dsimp only
            rw [fail_eq]
            exact .late s (by simp [Answers.FailsLate])
          | some ifindex =>
            cases bound with
            | false =>
              dsimp only
              rw [if_neg (by decide), fail_eq]
              exact .late s (by simp [Answers.FailsLate])
            | true =>
              exact .success chr d s _ (by simp [Answers.FailsLate]) rfl (setFd_addrs d s _)

theorem Linked.length {s : Session} (h : Linked s) : s.host.drivers.length = s.opened.length := by
  have hlen := h.length_eq
  rw [List.length_map, List.length_map] at hlen
  exact hlen.symm

theorem delete_sockets (chr : Chr) (h : Host) : (qemuChrDelete chr h).sockets = h.sockets := by
  unfold qemuChrDelete canChrClose
  cases chr.driver <;> rfl

theorem freeDriver_addrs (d : ℕ) (h : Host) :
    ((h.freeDriver d).drivers.map fun x => some x.addr) =
      (h.drivers.map fun x => some x.addr).erase (some d) := by
  rw [List.erase_eq_eraseP, List.eraseP_map, Host.freeDriver]
  congr 1

theorem Opened.linked {ans : Answers} {s : Session} {r : Option Chr × Host}
    (h : Opened ans s.host r) (hs : Linked s) : Linked ⟨r.2, r.1.toList ++ s.opened⟩ := by
  cases h with
  | early _ => exact hs
  | late _ _ => exact hs
  | success chr d _ r _ _ haddrs =>
    have hsome := congrArg (List.map some) haddrs
    rw [List.map_map, List.map_cons, List.map_map] at hsome
    show (some d :: s.opened.map Chr.driver).Perm (r.drivers.map fun x => some x.addr)
    exact (hs.cons (some d)).trans (List.Perm.of_eq hsome.symm)

theorem call_linked {s : Session} (hs : Linked s) (c : Call) : Linked (call s c).1 := by
  cases c with
  | openCan ans => exact (open_effect ans s.host).linked hs
  | close i =>
    rw [call]
    cases hi : s.opened[i]? with
    | none => exact hs
    | some chr =>
      obtain ⟨hlt, rfl⟩ := List.getElem?_eq_some_iff.mp hi
      have hperm := (List.getElem_cons_eraseIdx_perm hlt).map Chr.driver
      have hlinked : (s.opened[i].driver :: (s.opened.eraseIdx i).map Chr.driver).Perm
          (s.host.drivers.map fun x => some x.addr) := hperm.trans hs
      show ((s.opened.eraseIdx i).map Chr.driver).Perm
        ((qemuChrDelete s.opened[i] s.host).drivers.map fun x => some x.addr)
      unfold qemuChrDelete canChrClose
      cases hd : s.opened[i].driver with
      | none =>
        -- no open device has a null private pointer
        rw [hd] at hlinked
        simpa using hlinked.subset List.mem_cons_self
      | some d =>
        rw [hd] at hlinked
        have herase := hlinked.erase (some d)
        rw [List.erase_cons_head] at herase
        exact herase.trans (List.Perm.of_eq (freeDriver_addrs d s.host).symm)

theorem Opened.balanced_iff {ans : Answers} {s : Session} {r : Option Chr × Host}
    (h : Opened ans s.host r) (hsockets : s.host.sockets.length = s.opened.length) :
    r.2.sockets.length = (r.1.toList ++ s.opened).length ↔ ¬ ans.FailsLate := by
  cases h with
  | early hearly => exact iff_of_true hsockets hearly
  | late n hlate =>
    refine iff_of_false ?_ (not_not.mpr hlate)
    show (s.host.sockets.length + 1) ≠ s.opened.length
    omega
  | success _ _ _ r hearly hgot _ =>
    refine iff_of_true ?_ hearly
    show r.sockets.length = s.opened.length + 1
    rw [hgot, List.length_cons, hsockets]

theorem Opened.undisturbed {ans : Answers} {h : Host} {r : Option Chr × Host}
    (hopen : Opened ans h r) (hearly : ¬ ans.FailsLate) (hnone : r.1 = none) :
    r.2.sockets = h.sockets ∧ r.2.drivers = h.drivers := by
  cases hopen with
  | early _ => exact ⟨rfl, rfl⟩
  | late _ hlate => exact absurd hlate hearly
  | success _ _ _ _ _ _ _ => cases hnone

theorem call_balanced {s : Session}
    (hsockets : s.host.sockets.length = s.opened.length) (c : Call) :
    (call s c).1.host.sockets.length = (call s c).1.opened.length ↔ ¬ Leaks s c := by
  cases c with
  | openCan ans => exact (open_effect ans s.host).balanced_iff hsockets
  | close i =>
    rw [call]
    cases hi : s.opened[i]? with
    | none =>
      have hlen := List.getElem?_eq_none_iff.mp hi
      exact iff_of_true hsockets (by unfold Leaks; omega)
    | some chr =>
      obtain ⟨hlt, -⟩ := List.getElem?_eq_some_iff.mp hi
      refine iff_of_false ?_ (not_not.mpr hlt)
      show (qemuChrDelete chr s.host).sockets.length ≠ (s.opened.eraseIdx i).length
      rw [delete_sockets, List.length_eraseIdx_of_lt hlt]
      omega

theorem call_undisturbed {s : Session} {c : Call} (h : ¬ Leaks s c) : Undisturbed s c := by
  rintro ans rfl hnone
  exact (open_effect ans s.host).undisturbed h hnone

theorem balanced_from {s : Session} (hs : Linked s)
    (hsockets : s.host.sockets.length = s.opened.length) (calls : List Call) :
    Along call (fun s c => Balanced (call s c).1 ∧ Undisturbed s c) s calls ↔
      Along call (fun s c => ¬ Leaks s c) s calls := by
  induction calls generalizing s with
  | nil => exact Iff.rfl
  | cons c calls ih =>
    have hnext := call_linked hs c
    have hstep := call_balanced hsockets c
    constructor
    · rintro ⟨⟨hbalanced, -⟩, hrest⟩
      exact ⟨hstep.mp hbalanced.1, (ih hnext hbalanced.1).mp hrest⟩
    · rintro ⟨hkeeps, hrest⟩
      have hbalanced := hstep.mpr hkeeps
      exact ⟨⟨⟨hbalanced, hnext.length⟩, call_undisturbed hkeeps⟩, (ih hnext hbalanced).mpr hrest⟩

/-- Sockets and private blocks balance all along exactly when no open fails after its socket
call and no device is closed. -/
theorem resources_balance_iff (calls : List Call) :
    Along call (fun s c => Balanced (call s c).1 ∧ Undisturbed s c) start calls ↔
      Along call (fun s c => ¬ Leaks s c) start calls :=
  balanced_from (show Linked start from List.Perm.refl _) rfl calls

/-- Plugged and unplugged once, and started on an interface that does not exist: in both
runs no device is left and one socket is. -/
theorem socket_outlives_device :
    let plug : Answers := ⟨some "can0", some 5, some 0x1000, some 0x2000, some 3, true⟩
    let missing : Answers := {plug with ifindex := none}
    (run call start [.openCan plug, .close 0]).1 = ⟨⟨[5], [], []⟩, []⟩ ∧
    (run call start [.openCan missing]).1 = ⟨⟨[5], [], []⟩, []⟩ ∧
    ¬ Along call (fun s c => Balanced (call s c).1 ∧ Undisturbed s c) start
      [.openCan plug, .close 0] ∧
    ¬ Along call (fun s c => Balanced (call s c).1 ∧ Undisturbed s c) start
      [.openCan missing] := by
  have hclosed : (run call start [.openCan ⟨some "can0", some 5, some 0x1000, some 0x2000,
      some 3, true⟩, .close 0]).1 = ⟨⟨[5], [], []⟩, []⟩ := by decide
  have hfailed : (run call start [.openCan ⟨some "can0", some 5, some 0x1000, some 0x2000,
      none, true⟩]).1 = ⟨⟨[5], [], []⟩, []⟩ := by decide
  refine ⟨hclosed, hfailed, fun h => ?_, fun h => ?_⟩
  · have hlen : (run call start [.openCan ⟨some "can0", some 5, some 0x1000, some 0x2000,
        some 3, true⟩, .close 0]).1.host.sockets.length = 0 := h.2.1.1.1
    rw [hclosed] at hlen
    exact absurd hlen (by decide)
  · have hlen : (run call start [.openCan ⟨some "can0", some 5, some 0x1000, some 0x2000,
        none, true⟩]).1.host.sockets.length = 0 := h.1.1.1
    rw [hfailed] at hlen
    exact absurd hlen (by decide)

end CanPci.CharDev
