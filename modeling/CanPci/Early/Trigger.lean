import CanPci.Device
import CanPci.Lib.ByteMem
import CanPci.Lib.History
import Mathlib.Data.List.Count

/-!
# The transmit trigger of the third device (backup/qemu_linux3)

`can_mem_write` sends the frame at the start of the buffer when it believes that 0x55 is
written to offset 30. Its condition assigns to `addr`.
-/

namespace CanPci.Suite3
open RingFifo Machine ByteMem

def pciMemSize : ℕ := 32

/-- The result lists the bytes for `qemu_chr_fe_write`. `display_msg` and `offset`, which
nothing reads, are left out. -/
def canMemWrite (mem : Vector Byte pciMemSize) (addr : ℕ) (val : BitVec 64) (size : ℕ) :
    Vector Byte pciMemSize × List (List Byte) :=
  if pciMemSize < addr then (mem, [])
  else
    let pciMemAddr := addr
    -- `(addr = 30) && (val == 0x55)`
    let addr := 30
    if addr ≠ 0 ∧ val = 0x55 then (mem, [(List.range CanFrame.size).map (load mem)])
    else (copyBytes mem pciMemAddr (byteOf val) size, [])

def iowrite8 (mem : Vector Byte pciMemSize) (w : Byte × ℕ) :
    Vector Byte pciMemSize × List (List Byte) :=
  canMemWrite mem w.2 (w.1.setWidth 64) 1

def memSize : ℕ := bufferSize * CanFrame.size

/-- `buf` is what `copy_from_user` leaves behind; when it faults the loop runs all the
same. The result is the return value, the buffer and the register writes. -/
def deviceWrite (mem : Vector Byte memSize) (buf : ℕ → Byte) (fault : Bool) (count : ℕ) :
    ℤ × Vector Byte memSize × List (Byte × ℕ) :=
  let mem := copyBytes mem 0 buf count
  let ret : ℤ := if fault then eFault else count
  (ret, mem, (List.range count).map (fun i => (load mem i, i)) ++ [(0x55, 30)])

structure Suite where
  mem : Vector Byte memSize
  dev : Vector Byte pciMemSize

/-- The write of a frame that `main` makes. The events are what the backend gets. -/
def writeFrame (s : Suite) (frame : Vector Byte CanFrame.size) : Suite × List (List Byte) :=
  let r := deviceWrite s.mem (load frame) false CanFrame.size
  let served := run iowrite8 s.dev r.2.2
  (⟨r.2.1, served.1⟩, served.2)

def bytes (frame : Vector Byte CanFrame.size) : List Byte :=
  (List.range CanFrame.size).map (load frame)

theorem iowrite8_trigger (mem : Vector Byte pciMemSize) {reg : ℕ} (hreg : reg ≤ pciMemSize) :
    iowrite8 mem (0x55, reg) = (mem, [(List.range CanFrame.size).map (load mem)]) := by
  have hval : (0x55 : Byte).setWidth 64 = 0x55 := by decide
  rw [iowrite8, canMemWrite, if_neg (by omega), if_pos ⟨by decide, hval⟩]

theorem iowrite8_plain (mem : Vector Byte pciMemSize) {v : Byte} (hv : v ≠ 0x55) {reg : ℕ}
    (hreg : reg ≤ pciMemSize) : iowrite8 mem (v, reg) = (store mem reg v, []) := by
  have hval : ∀ v : Byte, v ≠ 0x55 → v.setWidth 64 ≠ (0x55 : BitVec 64) := by decide
  have hbyte : ∀ v : Byte, byteOf (v.setWidth 64) 0 = v := by decide
  rw [iowrite8, canMemWrite, if_neg (by omega), if_neg fun h => hval v hv h.2]
  simp only [copyBytes, hbyte, Nat.add_zero]

section
variable (b : ℕ → Byte) (mem : Vector Byte pciMemSize)

def byteWrites (n : ℕ) : List (Byte × ℕ) := (List.range n).map fun i => (b i, i)

theorem run_byteWrites_succ (n : ℕ) : run iowrite8 mem (byteWrites b (n + 1)) =
    ((iowrite8 (run iowrite8 mem (byteWrites b n)).1 (b n, n)).1,
      (run iowrite8 mem (byteWrites b n)).2 ++
        (iowrite8 (run iowrite8 mem (byteWrites b n)).1 (b n, n)).2) := by
  rw [byteWrites, List.range_succ, List.map_append, run_append]
  simp only [List.map_cons, List.map_nil, run, List.append_nil]
  rfl

theorem byteWrites_plain {n : ℕ} (hn : n ≤ pciMemSize) (hb : ∀ i < n, b i ≠ 0x55) :
    run iowrite8 mem (byteWrites b n) = (copyBytes mem 0 b n, []) := by
  induction n with
  | zero => rfl
  | succ n ih =>
    rw [run_byteWrites_succ, ih (by omega) fun i hi => hb i (by omega)]
    dsimp only
    rw [iowrite8_plain _ (hb n (by omega)) (by omega), copyBytes, Nat.zero_add]
    rfl

theorem byteWrites_count {n : ℕ} (hn : n ≤ pciMemSize) :
    (run iowrite8 mem (byteWrites b n)).2.length = ((List.range n).map b).count 0x55 := by
  induction n with
  | zero => rfl
  | succ n ih =>
    rw [run_byteWrites_succ, List.length_append, ih (by omega), List.range_succ, List.map_append,
      List.count_append]
    congr 1
    by_cases h : b n = 0x55
    · rw [h, iowrite8_trigger _ (by omega)]
      simp [h]
    · have hnone : List.count 0x55 [b n] = 0 :=
        List.count_eq_zero.mpr fun hmem => h (List.mem_singleton.mp hmem).symm
      rw [iowrite8_plain _ h (by omega), List.map_singleton, hnone]
      rfl

end

theorem writeFrame_eq (s : Suite) (frame : Vector Byte CanFrame.size) :
    (writeFrame s frame).2 =
      (run iowrite8 s.dev (byteWrites (load frame) CanFrame.size)).2 ++
        [(List.range CanFrame.size).map
          (load (run iowrite8 s.dev (byteWrites (load frame) CanFrame.size)).1)] := by
  have hbuf : (List.range CanFrame.size).map (fun i =>
      (load (copyBytes s.mem 0 (load frame) CanFrame.size) i, i)) =
      byteWrites (load frame) CanFrame.size := by
    apply List.map_congr_left
    intro i hi
    have hlt := List.mem_range.mp hi
    have hsize : CanFrame.size ≤ memSize := by decide
    rw [load_copyBytes _ _ _ _ (by omega), if_pos (by omega), Nat.sub_zero]
  have htrigger : ∀ mem : Vector Byte pciMemSize, run iowrite8 mem [(0x55, 30)] =
      (mem, [(List.range CanFrame.size).map (load mem)]) := by
    intro mem
    simp only [run, iowrite8_trigger mem (show 30 ≤ pciMemSize by decide), List.append_nil]
  simp only [writeFrame, deviceWrite, hbuf, run_append, htrigger]

theorem writeFrame_count (s : Suite) (frame : Vector Byte CanFrame.size) :
    (writeFrame s frame).2.length = (bytes frame).count 0x55 + 1 := by
  rw [writeFrame_eq, List.length_append, byteWrites_count _ _ (by decide)]
  rfl

theorem writeFrame_delivers (s : Suite) {frame : Vector Byte CanFrame.size}
    (h : 0x55 ∉ bytes frame) : (writeFrame s frame).2 = [bytes frame] := by
  have hplain : ∀ i < CanFrame.size, load frame i ≠ 0x55 := by
    intro i hi heq
    exact h (List.mem_map.mpr ⟨i, List.mem_range.mpr hi, heq⟩)
  have hsize : CanFrame.size ≤ pciMemSize := by decide
  have hcopied : (List.range CanFrame.size).map (load (copyBytes s.dev 0 (load frame)
      CanFrame.size)) = bytes frame := by
    apply List.map_congr_left
    intro i hi
    have hlt := List.mem_range.mp hi
    rw [load_copyBytes _ _ _ _ (by omega), if_pos (by omega), Nat.sub_zero]
  rw [writeFrame_eq, byteWrites_plain _ _ hsize hplain, List.nil_append, hcopied]

theorem run_count (s : Suite) (frames : List (Vector Byte CanFrame.size)) :
    (run writeFrame s frames).2.length =
      frames.length + (frames.map fun f => (bytes f).count 0x55).sum := by
  induction frames generalizing s with
  | nil => rfl
  | cons f frames ih =>
    rw [run, List.length_append, writeFrame_count, ih, List.length_cons, List.map_cons,
      List.sum_cons]
    omega

/-- The backend gets exactly the written frames, one each, exactly when no byte of any of
them is 0x55. -/
theorem frames_delivered_iff (s : Suite) (frames : List (Vector Byte CanFrame.size)) :
    (run writeFrame s frames).2 = frames.map bytes ↔ ∀ f ∈ frames, 0x55 ∉ bytes f := by
  constructor
  · intro h f hf hmem
    have hlen := run_count s frames
    rw [h, List.length_map] at hlen
    have hsum : (frames.map fun f => (bytes f).count 0x55).sum = 0 := by omega
    have hnone := List.sum_eq_zero_iff_forall_eq_nat.mp hsum _ (List.mem_map_of_mem hf)
    exact List.count_eq_zero.mp hnone hmem
  · intro h
    induction frames generalizing s with
    | nil => rfl
    | cons f frames ih =>
      rw [run, writeFrame_delivers s (h f List.mem_cons_self),
        ih _ fun g hg => h g (List.mem_cons_of_mem _ hg)]
      rfl

/-- The frame of `main` with the second data byte 0x55: it is sent twice, the first time
before that byte and the one after it have arrived, and never with the byte. -/
theorem trigger_in_frame :
    let frame : Vector Byte CanFrame.size :=
      #v[0x87, 0x09, 0, 0, 3, 0, 0, 0, 0x12, 0x55, 0x56, 0, 0, 0, 0, 0]
    let s : Suite := ⟨Vector.replicate memSize 0, Vector.replicate pciMemSize 0⟩
    (writeFrame s frame).2 = [[0x87, 0x09, 0, 0, 3, 0, 0, 0, 0x12, 0, 0, 0, 0, 0, 0, 0],
      [0x87, 0x09, 0, 0, 3, 0, 0, 0, 0x12, 0, 0x56, 0, 0, 0, 0, 0]] ∧
    (writeFrame s frame).2 ≠ [bytes frame] := by
  decide +kernel

end CanPci.Suite3
