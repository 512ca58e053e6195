import CanPci.Probe
import CanPci.Lib.Transition

/-!
# Binding and unbinding devices

The PCI core calls `pcisimple_probe` for devices not bound and `pcisimple_remove` for
bound ones; a probe that returns 0 binds its device. All devices share the one global
`device`.
-/

namespace CanPci
open Transition

/-- `bound` lists the bound devices, the latest first, each with the address of the
structure its probe allocated. -/
structure World (P : Type) where
  kernel : Kernel P
  bound : List (P × ℕ)

inductive Call (P : Type)
  | probe (p : P) (o : Outcomes)
  | remove (p : P)

namespace World
variable {P : Type} [DecidableEq P]

def next (w : World P) : Call P → World P
  | .probe p o =>
    let out := w.kernel.pcisimpleProbe p o
    ⟨out.2, if out.1 = 0 then (p, o.kmalloc.getD 0) :: w.bound else w.bound⟩
  | .remove p => ⟨w.kernel.pcisimpleRemove p, w.bound.filter fun x => x.1 ≠ p⟩

/-- What the PCI core and `kmalloc` promise. -/
def Allowed (w : World P) : Call P → Prop
  | .probe p o => (∀ x ∈ w.bound, x.1 ≠ p) ∧ ∀ a, o.kmalloc = some a → .memory a ∉ w.kernel.held
  | .remove p => ∃ x ∈ w.bound, x.1 = p

def CallStep (w : World P) (call : Call P) (w' : World P) : Prop :=
  w.Allowed call ∧ w' = w.next call

structure Loaded (w : World P) : Prop where
  held : w.kernel.held = 0
  bound : w.bound = []

def PointerLive (w : World P) : Prop :=
  w.bound ≠ [] → ∃ x ∈ w.bound, w.kernel.device = some x.2 ∧ .memory x.2 ∈ w.kernel.held

/-- A failing probe leaves everything held and every bound device as they were, a remove
releases what that device's probe acquired, and `device` points to a bound device. -/
structure Lawful (w : World P) (call : Call P) : Prop where
  undone : ∀ p o, call = .probe p o → o.failure ≠ none →
    (w.next call).kernel.held = w.kernel.held ∧
    ∀ x ∈ w.bound, (w.next call).kernel.mem x.2 = w.kernel.mem x.2
  released : ∀ p, call = .remove p → ∀ x ∈ w.bound, x.1 = p →
    w.kernel.held = acquired p x.2 + (w.next call).kernel.held
  live : (w.next call).PointerLive

/-- A probe fails only with no device bound and at a step whose label unwinds and reports
it; a remove is of the only device. -/
def Orderly (w : World P) : Call P → Prop
  | .probe _ o => o.failure = none ∨ w.bound = [] ∧
      o.failure ≠ some .revision ∧ o.failure ≠ some .iomap ∧ o.failure ≠ some .cdevAdd
  | .remove _ => w.bound.length = 1

def owned (l : List (P × ℕ)) : Multiset (Resource P) := (l.map fun x => acquired x.1 x.2).sum

/-- Everything held is what the bound devices acquired, and `device` is the latest's. -/
structure Accounted (w : World P) : Prop where
  held : w.kernel.held = owned w.bound
  devices : (w.bound.map Prod.fst).Nodup
  addresses : (w.bound.map Prod.snd).Nodup
  latest : ∀ x rest, w.bound = x :: rest → w.kernel.device = some x.2
  mapped : ∀ x ∈ w.bound, (w.kernel.mem x.2).memBase = some x.1

omit [DecidableEq P] in
theorem owned_cons (x : P × ℕ) (l : List (P × ℕ)) :
    owned (x :: l) = acquired x.1 x.2 + owned l := by
  rw [owned, List.map_cons, List.sum_cons]
  rfl

theorem owned_count (l : List (P × ℕ)) (a : ℕ) :
    (owned l).count (.memory a) = (l.map Prod.snd).count a := by
  induction l with
  | nil => rfl
  | cons x l ih =>
    have hone : (acquired x.1 x.2).count (.memory a) = if x.2 = a then 1 else 0 := by
      by_cases h : x.2 = a
      · simp [acquired, h]
      · simp [acquired, h, Ne.symm h]
    rw [owned_cons, Multiset.count_add, ih, hone, List.map_cons, List.count_cons, Nat.add_comm]
    simp

theorem memory_held {w : World P} (hw : w.Accounted) (a : ℕ) :
    .memory a ∈ w.kernel.held ↔ a ∈ w.bound.map Prod.snd := by
  rw [← Multiset.count_pos, hw.held, owned_count, List.count_pos_iff]

theorem pointer_live {w : World P} (hw : w.Accounted) : w.PointerLive := by
  intro hne
  obtain ⟨x, rest, hb⟩ := List.exists_cons_of_ne_nil hne
  have hmem : x ∈ w.bound := by
    rw [hb]
    exact List.mem_cons_self
  exact ⟨x, hmem, hw.latest x rest hb, (memory_held hw x.2).mpr (List.mem_map_of_mem hmem)⟩

omit [DecidableEq P] in
theorem loaded_accounted {w : World P} (h : w.Loaded) : w.Accounted := by
  refine ⟨?_, ?_, ?_, fun x rest hb => ?_, fun x hx => ?_⟩
  · rw [h.held, h.bound]
    rfl
  · rw [h.bound]
    exact List.nodup_nil
  · rw [h.bound]
    exact List.nodup_nil
  · rw [h.bound] at hb
    cases hb
  · rw [h.bound] at hx
    cases hx

/-! ### One call -/

section
variable {w : World P} {p : P} {o : Outcomes}

theorem probe_failed {st : Stage} (hf : o.failure = some st) (hrev : st ≠ .revision)
    (hmap : st ≠ .iomap) (hadd : st ≠ .cdevAdd) :
    (w.next (.probe p o)).bound = w.bound ∧
    (w.next (.probe p o)).kernel.held = w.kernel.held := by
  have heff := w.kernel.pcisimpleProbe_effect p o
  have hret : (w.kernel.pcisimpleProbe p o).1 ≠ 0 := by
    rw [Ne, heff.ret, hf]
    rintro (h | h)
    · cases h
    · exact hmap (Option.some.inj h)
  refine ⟨if_neg hret, heff.held.trans ?_⟩
  rw [hf]
  exact Kernel.leftBehind_clean hrev hadd _ _ _

theorem kmalloc_of_success (hf : o.failure = none) : ∃ a, o.kmalloc = some a := by
  rw [← Option.ne_none_iff_exists']
  intro hnone
  rw [show o.failure = some .kmalloc from if_pos hnone] at hf
  cases hf

theorem probe_accounted (hw : w.Accounted) (hallow : w.Allowed (.probe p o))
    (hf : o.failure = none) : (w.next (.probe p o)).Accounted := by
  obtain ⟨a, hk⟩ := kmalloc_of_success hf
  have heff := w.kernel.pcisimpleProbe_effect p o
  have hbound : (w.next (.probe p o)).bound = (p, a) :: w.bound := by
    show ite _ _ _ = _
    rw [if_pos (heff.ret.mpr (Or.inl hf)), hk, Option.getD_some]
  have hfresh : a ∉ w.bound.map Prod.snd := fun h => hallow.2 a hk ((memory_held hw a).mpr h)
  have hnew : p ∉ w.bound.map Prod.fst := by
    intro h
    obtain ⟨x, hx, hxp⟩ := List.mem_map.mp h
    exact hallow.1 x hx hxp
  refine ⟨?_, ?_, ?_, fun x rest hb => ?_, fun x hx => ?_⟩
  · rw [hbound, owned_cons, ← hw.held]
    refine heff.held.trans ?_
    rw [hf, hk]
    rfl
  · rw [hbound]
    exact List.nodup_cons.mpr ⟨hnew, hw.devices⟩
  · rw [hbound]
    exact List.nodup_cons.mpr ⟨hfresh, hw.addresses⟩
  · rw [hbound] at hb
    obtain ⟨rfl, -⟩ := List.cons.inj hb
    exact heff.device.trans hk
  · rw [hbound] at hx
    rcases List.mem_cons.mp hx with rfl | hx
    · exact heff.mapped hf a hk
    · have hne : o.kmalloc ≠ some x.2 := by
        rw [hk]
        rintro h
        exact hfresh (Option.some.inj h ▸ List.mem_map_of_mem hx)
      show ((w.kernel.pcisimpleProbe p o).2.mem x.2).memBase = _
      rw [heff.frame _ hne]
      exact hw.mapped x hx

theorem remove_only (hw : w.Accounted) {x : P × ℕ} (hb : w.bound = [x]) :
    (w.next (.remove x.1)).bound = [] ∧ (w.next (.remove x.1)).kernel.held = 0 := by
  have hx : x ∈ w.bound := by
    rw [hb]
    exact List.mem_cons_self
  constructor
  · show w.bound.filter _ = []
    rw [hb, List.filter_cons_of_neg (by simp), List.filter_nil]
  · have hown : w.kernel.held = acquired x.1 x.2 + 0 := by
      rw [hw.held, hb, owned_cons]
      rfl
    show (w.kernel.pcisimpleRemove x.1).held = 0
    rw [Kernel.pcisimpleRemove_own (hw.latest x [] hb) (hw.mapped x hx) hown]

theorem orderly_step {call : Call P} (hw : w.Accounted) (hallow : w.Allowed call)
    (hord : w.Orderly call) : (w.next call).Accounted ∧ w.Lawful call := by
  cases call with
  | probe p o =>
    rcases hord with hf | ⟨hb, hrev, hmap, hadd⟩
    · have hnext := probe_accounted hw hallow hf
      refine ⟨hnext, ?_, fun q h => (nomatch h), pointer_live hnext⟩
      rintro q o' ⟨⟩ hfail
      exact absurd hf hfail
    · cases hf : o.failure with
      | none =>
        have hnext := probe_accounted hw hallow hf
        refine ⟨hnext, ?_, fun q h => (nomatch h), pointer_live hnext⟩
        rintro q o' ⟨⟩ hfail
        exact absurd hf hfail
      | some st =>
        rw [hf] at hrev hmap hadd
        obtain ⟨hbound, hheld⟩ := probe_failed (w := w) (p := p) hf (fun h => hrev (h ▸ rfl))
          (fun h => hmap (h ▸ rfl)) (fun h => hadd (h ▸ rfl))
        have hnext : (w.next (.probe p o)).Accounted :=
          loaded_accounted ⟨hheld.trans (by rw [hw.held, hb]; rfl), hbound.trans hb⟩
        refine ⟨hnext, ?_, fun q h => (nomatch h), pointer_live hnext⟩
        rintro q o' ⟨⟩ -
        refine ⟨hheld, fun x hx => ?_⟩
        rw [hb] at hx
        cases hx
  | remove p =>
    obtain ⟨x, hb⟩ := List.length_eq_one_iff.mp hord
    obtain ⟨y, hy, rfl⟩ := hallow
    rw [hb] at hy
    obtain rfl := List.mem_singleton.mp hy
    obtain ⟨hbound, hheld⟩ := remove_only hw hb
    have hnext : (w.next (.remove y.1)).Accounted := loaded_accounted ⟨hheld, hbound⟩
    refine ⟨hnext, fun q o h => (nomatch h), ?_, pointer_live hnext⟩
    rintro q ⟨⟩ z hz -
    rw [hb] at hz
    obtain rfl := List.mem_singleton.mp hz
    rw [hheld, hw.held, hb, owned_cons]
    rfl

/-- A failing probe with another device bound leaves `device` at memory that is not
allocated, and so does a remove of one device among several. -/
theorem orderly_of_lawful {call : Call P} (hw : w.Accounted) (hallow : w.Allowed call)
    (h : w.Lawful call) : w.Orderly call := by
  cases call with
  | probe p o =>
    cases hf : o.failure with
    | none => exact Or.inl hf
    | some st =>
      have heff := w.kernel.pcisimpleProbe_effect p o
      obtain ⟨hheld, -⟩ := h.undone p o rfl (by rw [hf]; exact Option.some_ne_none st)
      have hheld' : (w.kernel.pcisimpleProbe p o).2.held = w.kernel.held := hheld
      have hnothing : Kernel.leftBehind p (o.kmalloc.getD 0) (some st) = 0 := by
        rw [heff.held, hf] at hheld'
        exact (Multiset.add_left_inj).mp (hheld'.trans (Multiset.zero_add _).symm)
      have hempty : (w.next (.probe p o)).bound = [] := by
        by_contra hne
        obtain ⟨x, -, hdev, hlive⟩ := h.live hne
        rw [hheld] at hlive
        exact hallow.2 x.2 (heff.device.symm.trans hdev) hlive
      have hret : ¬ (w.kernel.pcisimpleProbe p o).1 = 0 := by
        intro hzero
        rw [show (w.next (.probe p o)).bound = _ from if_pos hzero] at hempty
        cases hempty
      have hkeep : (w.next (.probe p o)).bound = w.bound := if_neg hret
      rw [heff.ret, hf] at hret
      refine Or.inr ⟨hkeep.symm.trans hempty, ?_, fun hst => hret (Or.inr (hf ▸ hst)), ?_⟩
      · rintro hst
        obtain rfl : st = .revision := Option.some.inj (hf.symm.trans hst)
        exact Multiset.singleton_ne_zero _ hnothing
      · rintro hst
        obtain rfl : st = .cdevAdd := Option.some.inj (hf.symm.trans hst)
        rw [Kernel.leftBehind, Multiset.insert_eq_cons] at hnothing
        exact Multiset.cons_ne_zero hnothing
  | remove p =>
    obtain ⟨x, hx, rfl⟩ := hallow
    obtain ⟨y, rest, hb⟩ := List.exists_cons_of_ne_nil (List.ne_nil_of_mem hx)
    have hone : w.kernel.held.count (.memory y.2) ≤ 1 := by
      rw [hw.held, owned_count]
      exact List.nodup_iff_count_le_one.mp hw.addresses _
    obtain ⟨hdev, hfreed⟩ := Kernel.pcisimpleRemove_frees x.1 (hw.latest y rest hb) hone
    have hempty : (w.next (.remove x.1)).bound = [] := by
      by_contra hne
      obtain ⟨z, -, hzdev, hzlive⟩ := h.live hne
      have hzy : y.2 = z.2 := Option.some.inj (hdev.symm.trans hzdev)
      exact hfreed (hzy ▸ hzlive)
    have hall : ∀ z ∈ w.bound, z.1 = x.1 := by
      intro z hz
      have := List.filter_eq_nil_iff.mp hempty z hz
      simpa using this
    have hkeys := hw.devices
    rw [hb] at hall hkeys
    show w.bound.length = 1
    cases rest with
    | nil =>
      rw [hb]
      rfl
    | cons z rest =>
      have hyz : y.1 = z.1 := (hall y List.mem_cons_self).trans
        (hall z (List.mem_cons_of_mem _ List.mem_cons_self)).symm
      rw [List.map_cons, List.map_cons, hyz] at hkeys
      exact absurd List.mem_cons_self (List.nodup_cons.mp hkeys).1

end

/-- In every run of orderly calls from the loaded module every call is lawful and
`device` points to a bound device, if there is one; and the next call is lawful exactly
if it is orderly. -/
theorem lifecycle_iff {w w' : World P} {calls : List (Call P)} (hw : w.Loaded)
    (hrun : Run (Guarded CallStep Orderly) w calls w') :
    Run (Guarded CallStep Lawful) w calls w' ∧ w'.PointerLive ∧
    ∀ call, w'.Allowed call → (w'.Lawful call ↔ w'.Orderly call) := by
  have hstep : ∀ (s : World P) call t, s.Accounted → Guarded CallStep Orderly s call t →
      t.Accounted ∧ Guarded CallStep Lawful s call t := by
    rintro s call t hs ⟨⟨hallow, rfl⟩, hord⟩
    obtain ⟨ht, hlaw⟩ := orderly_step hs hallow hord
    exact ⟨ht, ⟨hallow, rfl⟩, hlaw⟩
  obtain ⟨hacc, hlawful⟩ := hrun.upgrade hstep (loaded_accounted hw)
  exact ⟨hlawful, pointer_live hacc, fun call hallow =>
    ⟨orderly_of_lawful hacc hallow, fun hord => (orderly_step hacc hallow hord).2⟩⟩

/-- Every call succeeds, and the structure is allocated at `a`. -/
def granted (a : ℕ) : Outcomes :=
  ⟨some a, pciRevisionIdCanbus, .ok, .ok, true, .ok, .ok, .ok⟩

/-- `register_chrdev_region` answers `-EBUSY`. -/
def regionBusy (a : ℕ) : Outcomes := {granted a with chrdev := ⟨-16, by decide⟩}

def noMapping (a : ℕ) : Outcomes := {granted a with iomap := false}

def loaded : World Bool := ⟨⟨0, fun _ => ⟨.probed, none⟩, none⟩, []⟩

theorem loaded_step : CallStep loaded (.probe false (granted 1))
    (loaded.next (.probe false (granted 1))) := by
  refine ⟨⟨fun x hx => (nomatch hx), fun a _ => Multiset.notMem_zero _⟩, rfl⟩

theorem lifecycle_sample : (loaded.next (.probe false (granted 1))).PointerLive ∧
    (loaded.next (.probe false (granted 1))).Lawful (.remove false) := by
  have h := lifecycle_iff (w := loaded) ⟨rfl, rfl⟩ (Run.single ⟨loaded_step, Or.inl rfl⟩)
  have hallow : (loaded.next (.probe false (granted 1))).Allowed (.remove false) :=
    ⟨(false, 1), List.mem_singleton.mpr rfl, rfl⟩
  exact ⟨h.2.1, (h.2.2 _ hallow).mpr rfl⟩

/-- With one device bound a second probe fails at the character device region, which the
first holds; and on a fresh module a failing `pci_iomap` is reported as success. -/
theorem lifecycle_broken :
    (Run CallStep loaded [.probe false (granted 1)] (loaded.next (.probe false (granted 1))) ∧
      (loaded.next (.probe false (granted 1))).Allowed (.probe true (regionBusy 2)) ∧
      ¬ (loaded.next (.probe false (granted 1))).Lawful (.probe true (regionBusy 2))) ∧
    ((loaded.kernel.pcisimpleProbe false (noMapping 1)).1 = 0 ∧
      ¬ loaded.Lawful (.probe false (noMapping 1))) := by
  have hacc : (loaded.next (.probe false (granted 1))).Accounted :=
    probe_accounted (loaded_accounted ⟨rfl, rfl⟩) loaded_step.1 rfl
  have hallow : (loaded.next (.probe false (granted 1))).Allowed (.probe true (regionBusy 2)) := by
    refine ⟨fun x hx => ?_, ?_⟩
    · rw [List.mem_singleton.mp hx]
      exact Bool.false_ne_true
    · rintro a ⟨⟩
      rw [memory_held hacc]
      decide
  refine ⟨⟨Run.single loaded_step, hallow, fun h => ?_⟩, rfl, fun h => ?_⟩
  · rcases orderly_of_lawful hacc hallow h with hf | ⟨hb, -⟩
    · cases hf
    · cases hb
  · have hfresh : loaded.Allowed (.probe false (noMapping 1)) :=
      ⟨fun x hx => (nomatch hx), fun a _ => Multiset.notMem_zero _⟩
    rcases orderly_of_lawful (loaded_accounted ⟨rfl, rfl⟩) hfresh h with hf | ⟨-, -, hmap, -⟩
    · cases hf
    · exact hmap rfl

end World
end CanPci
