import Mathlib.Data.Multiset.AddSub
import CanPci.Device

/-!
# `pcisimple_probe` and `pcisimple_remove`

The text is the same in both drivers. The kernel's answers are a record of `Outcomes`;
what is held is a multiset, since nothing stops a release of what is not held.
-/

namespace CanPci

/-- What the kernel hands out. Memory goes by its address, the character device of a
`struct can_dev` by the address of the structure, the mapping and the rest by the PCI
device. -/
inductive Resource (P : Type)
  | memory (a : ℕ)
  | enabled (p : P)
  | regions (p : P)
  | mapping (p : P)
  | irq (p : P)
  | chrdev
  | cdev (a : ℕ)
  deriving DecidableEq

/-- A `struct can_dev` in memory; `memBase` is the device whose mapping it points to. -/
structure Record (P : Type) where
  dev : CanDev
  memBase : Option P

/-- What a call that returns 0 or a negative error number returned. -/
abbrev Errno := {r : ℤ // r ≤ 0}

def Errno.ok : Errno := ⟨0, le_refl 0⟩

def pciRevisionIdCanbus : Byte := 0x73

def eIo : ℤ := -5
def eNoMem : ℤ := -12
def eNoDev : ℤ := -19

/-- What the calls of one probe return. -/
structure Outcomes where
  kmalloc : Option ℕ
  revision : Byte
  enable : Errno
  regions : Errno
  iomap : Bool
  irq : Errno
  chrdev : Errno
  cdevAdd : Errno

/-- The kernel's state as far as the driver moves it, with the driver's global `device`. -/
structure Kernel (P : Type) where
  held : Multiset (Resource P)
  mem : ℕ → Record P
  device : Option ℕ

namespace Kernel
variable {P : Type}

def acquire (s : Kernel P) (r : Resource P) : Kernel P := {s with held := r ::ₘ s.held}

/-- A store to the structure `device` points to. -/
def setRecord (s : Kernel P) (a : ℕ) (r : Record P) : Kernel P :=
  {s with mem := Function.update s.mem a r}

variable [DecidableEq P]

def release (s : Kernel P) (r : Resource P) : Kernel P := {s with held := s.held.erase r}

def kfree (s : Kernel P) : Kernel P := s.device.elim s fun a => s.release (.memory a)

def iounmap (s : Kernel P) : Kernel P :=
  (s.device.bind fun a => (s.mem a).memBase).elim s fun p => s.release (.mapping p)

def cdevDel (s : Kernel P) : Kernel P := s.device.elim s fun a => s.release (.cdev a)

def errEnableDevice (result : ℤ) (s : Kernel P) : ℤ × Kernel P := (result, s.kfree)

def errRequestRegions (p : P) (result : ℤ) (s : Kernel P) : ℤ × Kernel P :=
  errEnableDevice result (s.release (.enabled p))

def errIomap (p : P) (result : ℤ) (s : Kernel P) : ℤ × Kernel P :=
  errRequestRegions p result (s.release (.regions p))

def errRequestIrq (p : P) (result : ℤ) (s : Kernel P) : ℤ × Kernel P :=
  errIomap p result s.iounmap

def errRegisterChrdevRegion (p : P) (result : ℤ) (s : Kernel P) : ℤ × Kernel P :=
  errRequestIrq p result (s.release (.irq p))

/-- Returns without falling through. -/
def errCdevAdd (result : ℤ) (s : Kernel P) : ℤ × Kernel P := (result, s.release .chrdev)

def pcisimpleProbe (p : P) (o : Outcomes) (s : Kernel P) : ℤ × Kernel P :=
  match o.kmalloc with
  | none => (eNoMem, {s with device := none})
  | some a =>
    let s := {s with device := some a}.acquire (.memory a)
    let s := s.setRecord a ⟨.probed, none⟩
    -- neither this return nor the one of `kmalloc` unwinds
    if o.revision ≠ pciRevisionIdCanbus then (eNoDev, s)
    else
      let result : ℤ := o.enable
      if result ≠ 0 then errEnableDevice result s
      else
        let s := s.acquire (.enabled p)
        let result : ℤ := o.regions
        if result ≠ 0 then errRequestRegions p result s
        else
          let s := s.acquire (.regions p)
          -- `result` keeps the 0 of `pci_request_regions`
          if o.iomap = false then errIomap p result s
          else
            let s := (s.setRecord a ⟨.probed, some p⟩).acquire (.mapping p)
            if o.irq.val ≠ 0 then errRequestIrq p eIo s
            else
              let s := s.acquire (.irq p)
              let result : ℤ := o.chrdev
              if result < 0 then errRegisterChrdevRegion p result s
              else
                let s := s.acquire .chrdev
                let result : ℤ := o.cdevAdd
                if result ≠ 0 then errCdevAdd result s
                else (0, s.acquire (.cdev a))

def pcisimpleRemove (p : P) (s : Kernel P) : Kernel P :=
  let s := s.cdevDel
  let s := s.release .chrdev
  let s := s.release (.irq p)
  let s := s.iounmap
  let s := s.release (.regions p)
  let s := s.release (.enabled p)
  s.kfree

end Kernel

inductive Stage
  | kmalloc | revision | enable | regions | iomap | irq | chrdev | cdevAdd
  deriving DecidableEq

/-- The step a probe with these outcomes fails at. -/
def Outcomes.failure (o : Outcomes) : Option Stage :=
  if o.kmalloc = none then some .kmalloc
  else if o.revision ≠ pciRevisionIdCanbus then some .revision
  else if o.enable.val ≠ 0 then some .enable
  else if o.regions.val ≠ 0 then some .regions
  else if o.iomap = false then some .iomap
  else if o.irq.val ≠ 0 then some .irq
  else if o.chrdev.val < 0 then some .chrdev
  else if o.cdevAdd.val ≠ 0 then some .cdevAdd
  else none

/-- What a successful probe of `p` acquires, with its structure at `a`. -/
def acquired {P : Type} (p : P) (a : ℕ) : Multiset (Resource P) :=
  {.cdev a, .chrdev, .irq p, .mapping p, .regions p, .enabled p, .memory a}

namespace Kernel
variable {P : Type} [DecidableEq P] {s : Kernel P} {p : P} {a : ℕ} {H : Multiset (Resource P)}

@[simp] theorem release_held (s : Kernel P) (r : Resource P) :
    (s.release r).held = s.held.erase r := rfl

@[simp] theorem release_device (s : Kernel P) (r : Resource P) :
    (s.release r).device = s.device := rfl

theorem kfree_eq (hd : s.device = some a) : s.kfree = s.release (.memory a) := by
  simp only [kfree, hd, Option.elim_some]

theorem iounmap_eq (hd : s.device = some a) (hm : (s.mem a).memBase = some p) :
    s.iounmap = s.release (.mapping p) := by
  simp only [iounmap, hd, Option.bind_some, hm, Option.elim_some]

theorem iounmap_device (s : Kernel P) : s.iounmap.device = s.device := by
  unfold iounmap
  cases s.device.bind fun a => (s.mem a).memBase <;> rfl

theorem iounmap_le (s : Kernel P) : s.iounmap.held ≤ s.held := by
  unfold iounmap
  cases s.device.bind fun a => (s.mem a).memBase with
  | none => exact le_refl _
  | some q => exact Multiset.erase_le _ _

theorem cdevDel_eq (hd : s.device = some a) : s.cdevDel = s.release (.cdev a) := by
  simp only [cdevDel, hd, Option.elim_some]

/-- A label's result: the global and the memory untouched, and `H` left held. -/
def Unwinds (s : Kernel P) (H : Multiset (Resource P)) (result : ℤ) (out : ℤ × Kernel P) : Prop :=
  out = (result, {s with held := H})

theorem errEnableDevice_unwinds (result : ℤ) (hd : s.device = some a)
    (hh : s.held = .memory a ::ₘ H) : Unwinds s H result (errEnableDevice result s) := by
  rw [Unwinds, errEnableDevice, kfree_eq hd, release, hh, Multiset.erase_cons_head]

theorem errRequestRegions_unwinds (result : ℤ) (hd : s.device = some a)
    (hh : s.held = .enabled p ::ₘ .memory a ::ₘ H) :
    Unwinds s H result (errRequestRegions p result s) := by
  refine errEnableDevice_unwinds (s := s.release (.enabled p)) result hd ?_
  rw [release_held, hh, Multiset.erase_cons_head]

theorem errIomap_unwinds (result : ℤ) (hd : s.device = some a)
    (hh : s.held = .regions p ::ₘ .enabled p ::ₘ .memory a ::ₘ H) :
    Unwinds s H result (errIomap p result s) := by
  refine errRequestRegions_unwinds (s := s.release (.regions p)) result hd ?_
  rw [release_held, hh, Multiset.erase_cons_head]

theorem errRequestIrq_unwinds (result : ℤ) (hd : s.device = some a)
    (hm : (s.mem a).memBase = some p)
    (hh : s.held = .mapping p ::ₘ .regions p ::ₘ .enabled p ::ₘ .memory a ::ₘ H) :
    Unwinds s H result (errRequestIrq p result s) := by
  rw [errRequestIrq, iounmap_eq hd hm]
  refine errIomap_unwinds (s := s.release (.mapping p)) result hd ?_
  rw [release_held, hh, Multiset.erase_cons_head]

theorem errRegisterChrdevRegion_unwinds (result : ℤ) (hd : s.device = some a)
    (hm : (s.mem a).memBase = some p)
    (hh : s.held = .irq p ::ₘ .mapping p ::ₘ .regions p ::ₘ .enabled p ::ₘ .memory a ::ₘ H) :
    Unwinds s H result (errRegisterChrdevRegion p result s) := by
  refine errRequestIrq_unwinds (s := s.release (.irq p)) result hd hm ?_
  rw [release_held, hh, Multiset.erase_cons_head]

/-! ### One probe, one remove -/

/-- What a probe leaves held of what it acquired. -/
def leftBehind (p : P) (a : ℕ) : Option Stage → Multiset (Resource P)
  | none => acquired p a
  | some .revision => {.memory a}
  | some .cdevAdd => {.irq p, .mapping p, .regions p, .enabled p, .memory a}
  | some _ => 0

omit [DecidableEq P] in
theorem acquired_add (p : P) (a : ℕ) (H : Multiset (Resource P)) :
    acquired p a + H = .cdev a ::ₘ .chrdev ::ₘ .irq p ::ₘ .mapping p ::ₘ .regions p ::ₘ
      .enabled p ::ₘ .memory a ::ₘ H := by
  simp only [acquired, Multiset.insert_eq_cons, Multiset.cons_add, Multiset.singleton_add]

omit [DecidableEq P] in
theorem leftBehind_clean {st : Stage} (hrev : st ≠ .revision) (hadd : st ≠ .cdevAdd) (p : P)
    (a : ℕ) (H : Multiset (Resource P)) : leftBehind p a (some st) + H = H := by
  cases st with
  | revision => exact absurd rfl hrev
  | cdevAdd => exact absurd rfl hadd
  | kmalloc | enable | regions | iomap | irq | chrdev => exact Multiset.zero_add H

structure ProbeEffect (p : P) (o : Outcomes) (s : Kernel P) (out : ℤ × Kernel P) : Prop where
  ret : out.1 = 0 ↔ o.failure = none ∨ o.failure = some .iomap
  device : out.2.device = o.kmalloc
  held : out.2.held = leftBehind p (o.kmalloc.getD 0) o.failure + s.held
  frame : ∀ b, o.kmalloc ≠ some b → out.2.mem b = s.mem b
  mapped : o.failure = none → ∀ a, o.kmalloc = some a → (out.2.mem a).memBase = some p

omit [DecidableEq P] in
theorem update_frame {o : Outcomes} (hk : o.kmalloc = some a) (s : Kernel P) (r : Record P) :
    ∀ b, o.kmalloc ≠ some b → Function.update s.mem a r b = s.mem b := by
  intro b hb
  refine Function.update_of_ne (fun h => hb ?_) _ _
  rw [hk, h]

omit [DecidableEq P] in
theorem effect_of_failure {o : Outcomes} (hk : o.kmalloc = some a) {st : Stage} {result : ℤ}
    (r : Record P) {out : ℤ × Kernel P} (hf : o.failure = some st) (hret : result = 0 ↔ st = .iomap)
    (hout : out =
      (result, ⟨leftBehind p a (some st) + s.held, Function.update s.mem a r, some a⟩)) :
    ProbeEffect p o s out := by
  rw [hout]
  refine ⟨?_, hk.symm, ?_, update_frame hk s r, fun h => ?_⟩
  · rw [hf, hret]
    simp
  · rw [hf, hk]
    rfl
  · rw [hf] at h
    cases h

omit [DecidableEq P] in
theorem effect_of_success {o : Outcomes} (hk : o.kmalloc = some a) (hf : o.failure = none)
    {out : ℤ × Kernel P} (hout : out = (0, ⟨acquired p a + s.held,
      Function.update s.mem a ⟨.probed, some p⟩, some a⟩)) : ProbeEffect p o s out := by
  rw [hout]
  refine ⟨iff_of_true rfl (Or.inl hf), hk.symm, ?_, update_frame hk s _, fun _ b hb => ?_⟩
  · rw [hf, hk]
    rfl
  · obtain rfl : b = a := Option.some.inj (hb.symm.trans hk)
    dsimp only
    rw [Function.update_self]

theorem pcisimpleProbe_effect (p : P) (o : Outcomes) (s : Kernel P) :
    ProbeEffect p o s (pcisimpleProbe p o s) := by
  unfold pcisimpleProbe
  cases hk : o.kmalloc with
  | none =>
    have hf : o.failure = some .kmalloc := if_pos hk
    refine ⟨?_, hk.symm, ?_, fun b _ => rfl, fun h => ?_⟩
    · rw [hf]
      exact iff_of_false (by decide : eNoMem ≠ 0) (by decide)
    · rw [hf, leftBehind_clean (by decide) (by decide)]
    · rw [hf] at h
      cases h
  | some a =>
    have hsome : o.kmalloc ≠ none := by
      rw [hk]
      exact Option.some_ne_none a
    have hidem : ∀ r r' : Record P, Function.update (Function.update s.mem a r) a r' =
        Function.update s.mem a r' := fun r r' => Function.update_idem _ _ _
    have hbase : ∀ (m : ℕ → Record P), (Function.update m a ⟨.probed, some p⟩ a).memBase = some p := by
      intro m
      rw [Function.update_self]
    have hfail : o.failure = _ := if_neg hsome
    dsimp only
    -- one stage after the other; `failure` takes the same tests in the same order
    split
    · rename_i hrev
      have hf := hfail.trans (if_pos hrev)
      refine effect_of_failure hk ⟨.probed, none⟩ hf (by decide : eNoDev = 0 ↔ _) ?_
      rw [leftBehind, Multiset.singleton_add]
      rfl
    rename_i hrev
    rw [if_neg hrev] at hfail
    split
    · rename_i hen
      have hf := hfail.trans (if_pos hen)
      refine effect_of_failure hk ⟨.probed, none⟩ hf (iff_of_false hen (by decide)) ?_
      rw [leftBehind_clean (by decide) (by decide)]
      exact errEnableDevice_unwinds _ rfl rfl
    rename_i hen
    rw [if_neg hen] at hfail
    split
    · rename_i hreg
      have hf := hfail.trans (if_pos hreg)
      refine effect_of_failure hk ⟨.probed, none⟩ hf (iff_of_false hreg (by decide)) ?_
      rw [leftBehind_clean (by decide) (by decide)]
      exact errRequestRegions_unwinds _ rfl rfl
    rename_i hreg
    rw [if_neg hreg] at hfail
    split
    · rename_i hmap
      have hf := hfail.trans (if_pos hmap)
      refine effect_of_failure hk ⟨.probed, none⟩ hf (iff_of_true (not_not.mp hreg) rfl) ?_
      rw [leftBehind_clean (by decide) (by decide)]
      exact errIomap_unwinds _ rfl rfl
    rename_i hmap
    rw [if_neg hmap] at hfail
    split
    · rename_i hirq
      have hf := hfail.trans (if_pos hirq)
      refine effect_of_failure hk ⟨.probed, some p⟩ hf (by decide : eIo = 0 ↔ _) ?_
      rw [leftBehind_clean (by decide) (by decide), ← hidem ⟨.probed, none⟩]
      exact errRequestIrq_unwinds _ rfl (hbase _) rfl
    rename_i hirq
    rw [if_neg hirq] at hfail
    split
    · rename_i hchr
      have hf := hfail.trans (if_pos hchr)
      refine effect_of_failure hk ⟨.probed, some p⟩ hf (iff_of_false hchr.ne (by decide)) ?_
      rw [leftBehind_clean (by decide) (by decide), ← hidem ⟨.probed, none⟩]
      exact errRegisterChrdevRegion_unwinds _ rfl (hbase _) rfl
    rename_i hchr
    rw [if_neg hchr] at hfail
    split
    · rename_i hadd
      have hf := hfail.trans (if_pos hadd)
      refine effect_of_failure hk ⟨.probed, some p⟩ hf (iff_of_false hadd (by decide)) ?_
      simp only [leftBehind, Multiset.insert_eq_cons, Multiset.cons_add, Multiset.singleton_add]
      rw [← hidem ⟨.probed, none⟩, errCdevAdd, release]
      congr 2
      exact Multiset.erase_cons_head _ _
    · rename_i hadd
      refine effect_of_success hk (hfail.trans (if_neg hadd)) ?_
      rw [acquired_add, ← hidem ⟨.probed, none⟩]
      rfl

theorem pcisimpleRemove_own (hd : s.device = some a) (hm : (s.mem a).memBase = some p)
    (hh : s.held = acquired p a + H) :
    pcisimpleRemove p s = {s with held := H} := by
  rw [pcisimpleRemove, cdevDel_eq hd, iounmap_eq (s := ((s.release (.cdev a)).release .chrdev).release (.irq p)) hd hm,
    kfree_eq (s := (((((s.release (.cdev a)).release .chrdev).release (.irq p)).release
      (.mapping p)).release (.regions p)).release (.enabled p)) hd]
  simp only [release, hh, acquired_add, Multiset.erase_cons_head]

/-- Whichever device is removed, the structure `device` points to is freed. -/
theorem pcisimpleRemove_frees (p : P) (hd : s.device = some a)
    (hone : s.held.count (.memory a) ≤ 1) :
    (pcisimpleRemove p s).device = some a ∧ .memory a ∉ (pcisimpleRemove p s).held := by
  have hlast : ∃ t : Kernel P, t.device = some a ∧ t.held ≤ s.held ∧ pcisimpleRemove p s = t.kfree := by
    refine ⟨_, ?_, ?_, rfl⟩
    · rw [release_device, release_device, iounmap_device, release_device, release_device,
        cdevDel_eq hd, release_device, hd]
    · rw [cdevDel_eq hd]
      exact (Multiset.erase_le _ _).trans ((Multiset.erase_le _ _).trans ((iounmap_le _).trans
        ((Multiset.erase_le _ _).trans ((Multiset.erase_le _ _).trans (Multiset.erase_le _ _)))))
  obtain ⟨t, hdt, hle, he⟩ := hlast
  rw [he, kfree_eq hdt, release_held]
  refine ⟨hdt, Multiset.count_eq_zero.mp ?_⟩
  have := Multiset.count_le_of_le (.memory a) hle
  rw [Multiset.count_erase_self]
  omega

end Kernel
end CanPci
