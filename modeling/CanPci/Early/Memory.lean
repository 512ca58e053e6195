import CanPci.Device
import CanPci.Lib.ByteMem
import CanPci.Lib.History

/-!
# The memory BAR of the first two devices

`can_mem_read` and `can_mem_write` of backup/qemu_linux2/can-pci.c are the text of
`mem_pci_read` and `mem_pci_write` of backup/qemu_linux1/pci_testdev2.c. The access sizes
that reach the handlers differ. The message after the copy, which prints eight bytes of
the buffer, is left out.
-/

namespace CanPci.Early
open RingFifo Machine ByteMem

def pciMemSize : ℕ := 16

inductive Index
  | buffer (i : ℕ)
  | temp (i : ℕ)
  deriving DecidableEq, Repr

/-- The temporary is an `unsigned int`. -/
def Index.InRange : Index → Prop
  | buffer i => i < pciMemSize
  | temp i => i < 4

instance : DecidablePred Index.InRange
  | .buffer i => Nat.decLt i pciMemSize
  | .temp i => Nat.decLt i 4

def memWrite (mem : Vector Byte pciMemSize) (addr : ℕ) (val : BitVec 64) (size : ℕ) :
    Vector Byte pciMemSize × List Index :=
  if pciMemSize < addr then (mem, [])
  else (copyBytes mem addr (byteOf val) size,
    (List.range size).map fun i => .buffer (addr + i))

/-- `temp` is not initialised. The copy leaves the bytes behind its first `size` alone. -/
def memRead (mem : Vector Byte pciMemSize) (temp : Vector Byte 4) (addr size : ℕ) :
    ℕ × List Index :=
  if pciMemSize < addr then (0, [])
  else
    let temp := copyBytes temp 0 (fun i => load mem (addr + i)) size
    (join (load temp) 4, (List.range size).map .temp)

namespace CanPci2

def canMemWrite := memWrite

def canMemRead := memRead

def maxAccessSize : ℕ := 16

end CanPci2

namespace PciTestdev2

def memPciWrite := memWrite

def memPciRead := memRead

def maxAccessSize : ℕ := 1

end PciTestdev2

inductive Device
  | canPci
  | pciTestdev2
  deriving DecidableEq, Repr

namespace Device

def write : Device → Vector Byte pciMemSize → ℕ → BitVec 64 → ℕ →
    Vector Byte pciMemSize × List Index
  | canPci => CanPci2.canMemWrite
  | pciTestdev2 => PciTestdev2.memPciWrite

def read : Device → Vector Byte pciMemSize → Vector Byte 4 → ℕ → ℕ → ℕ × List Index
  | canPci => CanPci2.canMemRead
  | pciTestdev2 => PciTestdev2.memPciRead

def maxAccessSize : Device → ℕ
  | canPci => CanPci2.maxAccessSize
  | pciTestdev2 => PciTestdev2.maxAccessSize

end Device

inductive Access
  | read (addr size : ℕ) (temp : Vector Byte 4)
  | write (addr size : ℕ) (val : BitVec 64)
  deriving DecidableEq, Repr

namespace Access

def addr : Access → ℕ
  | read addr _ _ => addr
  | write addr _ _ => addr

def size : Access → ℕ
  | read _ size _ => size
  | write _ size _ => size

def stored (j : ℕ) : Access → Option Byte
  | read _ _ _ => none
  | write addr size val => if addr ≤ j ∧ j < addr + size then some (byteOf val (j - addr)) else none

end Access

/-- A naturally aligned access inside the region, of a size that reaches the handlers. -/
structure Device.Admits (dev : Device) (a : Access) : Prop where
  size : a.size = 1 ∨ a.size = 2 ∨ a.size = 4 ∨ a.size = 8
  aligned : a.size ∣ a.addr
  inside : a.addr + a.size ≤ pciMemSize
  impl : a.size ≤ dev.maxAccessSize

def access (dev : Device) (mem : Vector Byte pciMemSize) :
    Access → Vector Byte pciMemSize × List Index
  | .read addr size temp => (mem, (dev.read mem temp addr size).2)
  | .write addr size val => dev.write mem addr val size

/-- As `g_malloc0` leaves the buffer. -/
def zeroed : Vector Byte pciMemSize := Vector.replicate pciMemSize 0

def lastByte (j : ℕ) (past : List Access) : Byte := (latest (fun _ a => a.stored j) past).getD 0

/-- Every copy stays in its destination, and the low bits of what a read returns are the
bytes last written, least significant first. -/
def ByteAddressed (dev : Device) (guest : List Access) : Prop :=
  ∀ done a later, guest = done ++ a :: later →
    (∀ i ∈ (access dev (run (access dev) zeroed done).1 a).2, i.InRange) ∧
    ∀ addr size temp, a = .read addr size temp →
      (dev.read (run (access dev) zeroed done).1 temp addr size).1 % 256 ^ size =
        join (fun i => lastByte (addr + i) done.reverse) size

theorem write_eq (dev : Device) : dev.write = memWrite := by
  cases dev <;> rfl

theorem read_eq (dev : Device) : dev.read = memRead := by
  cases dev <;> rfl

theorem load_memWrite (mem : Vector Byte pciMemSize) (addr : ℕ) (val : BitVec 64) (size : ℕ)
    {j : ℕ} (hj : j < pciMemSize) : load (memWrite mem addr val size).1 j =
      if addr ≤ j ∧ j < addr + size then byteOf val (j - addr) else load mem j := by
  unfold memWrite
  split
  · rw [if_neg (by omega)]
  · exact load_copyBytes _ _ _ _ hj

theorem memRead_low (mem : Vector Byte pciMemSize) (temp : Vector Byte 4) {addr size : ℕ}
    (haddr : addr + size ≤ pciMemSize) (hsize : size ≤ 4) :
    (memRead mem temp addr size).1 % 256 ^ size = join (fun i => load mem (addr + i)) size := by
  rw [memRead, if_neg (by omega)]
  dsimp only
  rw [join_mod _ hsize]
  refine join_congr fun i hi => ?_
  rw [load_copyBytes _ _ _ _ (by omega), if_pos (by omega), Nat.sub_zero]

theorem access_inRange_iff (dev : Device) (mem : Vector Byte pciMemSize) {a : Access}
    (ha : dev.Admits a) : (∀ i ∈ (access dev mem a).2, i.InRange) ↔
      ∀ addr temp, a ≠ .read addr 8 temp := by
  have hinside := ha.inside
  have hsize := ha.size
  cases a with
  | write addr size val =>
    simp only [Access.addr, Access.size] at hinside hsize
    refine iff_of_true ?_ fun _ _ h => by cases h
    rw [access, write_eq, memWrite, if_neg (by omega)]
    simp only [List.forall_mem_map, List.mem_range, Index.InRange]
    intro i hi
    omega
  | read addr size temp =>
    simp only [Access.addr, Access.size] at hinside hsize
    rw [access, read_eq, memRead, if_neg (by omega)]
    simp only [List.forall_mem_map, List.mem_range, Index.InRange]
    constructor
    · rintro h addr' temp' ⟨⟩
      have := h 7 (by omega)
      omega
    · intro h i hi
      by_contra hlong
      have h8 : size = 8 := by omega
      exact h addr temp (by rw [h8])

theorem after_memory (dev : Device) {j : ℕ} (hj : j < pciMemSize) (past : List Access) :
    load (after (access dev) zeroed past) j = lastByte j past := by
  have hstep : ∀ past a, load (access dev (after (access dev) zeroed past) a).1 j =
      (a.stored j).getD (load (after (access dev) zeroed past) j) := by
    intro past a
    cases a with
    | read addr size temp => rfl
    | write addr size val =>
      rw [access, write_eq, load_memWrite _ _ _ _ hj, Access.stored]
      split <;> rfl
  refine (after_cell (fun mem : Vector Byte pciMemSize => load mem j) hstep past).trans ?_
  exact congrArg _ (load_replicate pciMemSize j)

/-- The region is byte-addressed memory exactly when it is never read eight bytes at a
time. -/
theorem byte_addressed_iff (dev : Device) (guest : List Access)
    (hadm : ∀ a ∈ guest, dev.Admits a) :
    ByteAddressed dev guest ↔ ∀ addr temp, .read addr 8 temp ∉ guest := by
  constructor
  · intro h addr temp hmem
    obtain ⟨done, later, hguest⟩ := List.append_of_mem hmem
    have hin := (h done _ later hguest).1
    exact (access_inRange_iff dev _ (hadm _ hmem)).mp hin addr temp rfl
  · intro h done a later hguest
    have hmem : a ∈ guest := by
      rw [hguest]
      exact List.mem_append_right _ List.mem_cons_self
    have hshort : ∀ addr temp, a ≠ .read addr 8 temp := by
      rintro addr temp rfl
      exact h addr temp hmem
    refine ⟨(access_inRange_iff dev _ (hadm a hmem)).mpr hshort, ?_⟩
    rintro addr size temp rfl
    have hinside := (hadm _ hmem).inside
    have hsize := (hadm _ hmem).size
    have hne : size ≠ 8 := by
      rintro rfl
      exact h addr temp hmem
    simp only [Access.addr, Access.size] at hinside hsize
    rw [read_eq, memRead_low _ _ hinside (by omega)]
    refine join_congr fun i hi => ?_
    have hbyte := after_memory dev (show addr + i < pciMemSize by omega) done.reverse
    rwa [after, List.reverse_reverse] at hbyte

def probeAccesses : List Access :=
  [.write 0 4 0x12345678, .read 0 4 (Vector.replicate 4 0xaa), .write 8 1 0x89,
    .read 8 1 (Vector.replicate 4 0xaa)]

theorem probe_admitted : ∀ a ∈ probeAccesses, Device.canPci.Admits a := by
  intro a ha
  have hcases : a = .write 0 4 0x12345678 ∨ a = .read 0 4 (Vector.replicate 4 0xaa) ∨
      a = .write 8 1 0x89 ∨ a = .read 8 1 (Vector.replicate 4 0xaa) := by
    simpa [probeAccesses] using ha
  rcases hcases with rfl | rfl | rfl | rfl <;> exact ⟨by decide, by decide, by decide, by decide⟩

theorem byte_addressed_sample : ByteAddressed .canPci probeAccesses :=
  (byte_addressed_iff .canPci probeAccesses probe_admitted).mpr
    fun addr temp h => by simp [probeAccesses] at h

/-- Eight bytes written and read back: the upper four are lost, and the copy stores eight
bytes to the four of the temporary. -/
theorem wide_read_overruns :
    let written : Access := .write 0 8 0x0123456789abcdef
    let wide : Access := .read 0 8 (Vector.replicate 4 0)
    Device.canPci.Admits written ∧ Device.canPci.Admits wide ∧
    (Device.canPci.read (run (access .canPci) zeroed [written]).1 (Vector.replicate 4 0) 0 8).1 =
      0x89abcdef ∧
    join (fun i => lastByte (0 + i) [written]) 8 = 0x0123456789abcdef ∧
    .temp 7 ∈ (access .canPci (run (access .canPci) zeroed [written]).1 wide).2 ∧
    ¬ ByteAddressed .canPci [written, wide] := by
  refine ⟨⟨by decide, by decide, by decide, by decide⟩, ⟨by decide, by decide, by decide,
    by decide⟩, by decide +kernel, by decide +kernel, by decide +kernel, fun h => ?_⟩
  have hin := (h [.write 0 8 0x0123456789abcdef] (.read 0 8 (Vector.replicate 4 0)) [] rfl).1
  exact absurd (hin (.temp 7) (by decide +kernel)) (by decide)

end CanPci.Early
