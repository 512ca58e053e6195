import CanPci.Device
import CanPci.Lib.Machine

/-!
# The emulated device (backup/qemu_linux4/can-pci.c)

The registers behind the memory BAR. Every array access is an event that carries its
index. What lies behind `tx_buff` and behind the local `can` is not modelled: a byte
read from there is only ever stored there.
-/

namespace CanPci.Emulated
open RingFifo

structure CanState where
  mode : Byte
  status : Byte
  trxBuff : Vector Byte 13
  codeMask : Vector Byte 8
  txBuff : Vector Byte 13
  irq : Bool
  deriving DecidableEq, Repr

def canHardwareReset (s : CanState) : CanState := {s with mode := 0x01, status := 0x0c}

/-- As `can_pci_init` leaves the zeroed object. -/
def CanState.init : CanState :=
  canHardwareReset ⟨0, 0, Vector.replicate 13 0, Vector.replicate 8 0, Vector.replicate 13 0, false⟩

inductive Index
  | codeMask (i : ℕ)
  | trxBuff (i : ℕ)
  | txBuff (i : ℕ)
  | data (i : ℕ)
  deriving DecidableEq, Repr

def Index.InRange : Index → Prop
  | codeMask i => i < 8
  | trxBuff i => i < 13
  | txBuff i => i < 13
  | data i => i < 8

/-- An array access, a frame for `qemu_chr_fe_write`, a call of `qemu_irq_raise` or
`qemu_irq_lower`, the value of a read. -/
inductive Event
  | touch (i : Index)
  | send (can : CanFrame)
  | irq (level : Bool)
  | value (v : Byte)
  deriving DecidableEq, Repr

def Event.InRange : Event → Prop
  | touch i => i.InRange
  | _ => True

def Event.frame : Event → Option CanFrame
  | send can => some can
  | _ => none

/-- `for (; n more; i++) can->data[i] = buff[base+i]`. -/
def copyData (buff : Vector Byte 13) (base : ℕ) : ℕ → ℕ → CanFrame → CanFrame × List Index
  | 0, _, can => (can, [])
  | n + 1, i, can =>
    let can := {can with data := store can.data i (load buff (base + i))}
    let (can, touched) := copyData buff base n (i + 1) can
    (can, .txBuff (base + i) :: .data i :: touched)

/-- `for (; n more; i++) can->data[i] = 0`. -/
def clearData : ℕ → ℕ → CanFrame → CanFrame × List Index
  | 0, _, can => (can, [])
  | n + 1, i, can =>
    let can := {can with data := store can.data i 0}
    let (can, touched) := clearData n (i + 1) can
    (can, .data i :: touched)

def buff2frame (buff : Vector Byte 13) (can : CanFrame) : CanFrame × List Index :=
  -- without the remote bit `can_id` keeps what it held
  let can := if load buff 0 &&& 0x40#8 ≠ 0 then {can with canId := 1#32 <<< 30} else can
  let can := {can with canDlc := load buff 0 &&& 0x0f#8}
  if load buff 0 &&& 0x80#8 ≠ 0 then
    let can := {can with canId := can.canId ||| (1#32 <<< 31)}
    let can := {can with canId := can.canId ||| (promote (load buff 1) <<< 21)}
    let can := {can with canId := can.canId ||| (promote (load buff 2) <<< 13)}
    let can := {can with canId := can.canId ||| (promote (load buff 3) <<< 5)}
    let can := {can with canId := can.canId ||| (promote (load buff 4) >>> 3)}
    let (can, copied) := copyData buff 5 can.canDlc.toNat 0 can
    let (can, cleared) := clearData (8 - can.canDlc.toNat) can.canDlc.toNat can
    (can, [.txBuff 0, .txBuff 1, .txBuff 2, .txBuff 3, .txBuff 4] ++ copied ++ cleared)
  else
    let can := {can with canId := can.canId ||| (promote (load buff 1) <<< 3)}
    let can := {can with canId := can.canId ||| (promote (load buff 2) >>> 5)}
    let (can, copied) := copyData buff 3 can.canDlc.toNat 0 can
    let (can, cleared) := clearData (8 - can.canDlc.toNat) can.canDlc.toNat can
    (can, [.txBuff 0, .txBuff 1, .txBuff 2] ++ copied ++ cleared)

def displayMsg (msg : CanFrame) : List Index := (List.range msg.canDlc.toNat).map .data

def pciMemSize : ℕ := 128

/-- `can` is what the uninitialised local frame holds on entry. -/
def canMemWrite (s : CanState) (can : CanFrame) (addr : ℕ) (val : Byte) : CanState × List Event :=
  if pciMemSize < addr then (s, [])
  else if addr = 0 then ({s with mode := 0x1f &&& val}, [])
  else if addr = 1 then
    if 0x01 &&& val ≠ 0 then
      let s := {s with txBuff := s.trxBuff}
      let (can, touched) := buff2frame s.txBuff can
      ({s with irq := true},
        (touched ++ displayMsg can).map .touch ++ [.send can, .irq true])
    else (s, [])
  else if 16 ≤ addr ∧ addr ≤ 28 then
    if s.mode &&& 0x01 ≠ 0 then
      if addr < 24 then
        ({s with codeMask := store s.codeMask (addr - 16) val}, [.touch (.codeMask (addr - 16))])
      else (s, [])
    else ({s with trxBuff := store s.trxBuff (addr - 16) val}, [.touch (.trxBuff (addr - 16))])
  else if addr = 127 then
    if val = 0x33 then ({s with irq := false}, [.irq false]) else (s, [])
  else (s, [])

def canMemRead (s : CanState) (addr : ℕ) : Byte :=
  if pciMemSize < addr then 0
  else if addr = 0 then s.mode
  else if addr = 2 then s.status
  else 0xff

inductive Access
  | read (addr : ℕ)
  | write (addr : ℕ) (val : Byte) (can : CanFrame)
  deriving DecidableEq, Repr

def access (s : CanState) : Access → CanState × List Event
  | .read addr => (s, [.value (canMemRead s addr)])
  | .write addr val can => canMemWrite s can addr val

/-! ### What one access can do -/

/-- All that `can_mem_write` can do. -/
inductive Effect (s : CanState) (can : CanFrame) (addr : ℕ) (val : Byte) :
    CanState × List Event → Prop
  | mode : addr = 0 → Effect s can addr val ({s with mode := 0x1f &&& val}, [])
  | request : addr = 1 → 0x01 &&& val ≠ 0 → Effect s can addr val
      ({s with txBuff := s.trxBuff, irq := true},
        ((buff2frame s.trxBuff can).2 ++ displayMsg (buff2frame s.trxBuff can).1).map .touch ++
          [.send (buff2frame s.trxBuff can).1, .irq true])
  | mask : 16 ≤ addr → addr < 24 → s.mode &&& 0x01 ≠ 0 → Effect s can addr val
      ({s with codeMask := store s.codeMask (addr - 16) val}, [.touch (.codeMask (addr - 16))])
  | buffer : 16 ≤ addr → addr ≤ 28 → s.mode &&& 0x01 = 0 → Effect s can addr val
      ({s with trxBuff := store s.trxBuff (addr - 16) val}, [.touch (.trxBuff (addr - 16))])
  | acknowledge : addr = 127 → val = 0x33 → Effect s can addr val
      ({s with irq := false}, [.irq false])
  | ignored : addr ≠ 0 → (addr = 1 → 0x01 &&& val = 0) →
      (16 ≤ addr ∧ addr ≤ 28 → s.mode &&& 0x01 ≠ 0 ∧ 24 ≤ addr) →
      (addr = 127 → val ≠ 0x33) → Effect s can addr val (s, [])

theorem canMemWrite_effect (s : CanState) (can : CanFrame) (addr : ℕ) (val : Byte) :
    Effect s can addr val (canMemWrite s can addr val) := by
  unfold canMemWrite
  split
  · rename_i hsize
    unfold pciMemSize at hsize
    exact .ignored (by omega) (by omega) (by omega) (by omega)
  · split
    · rename_i haddr
      exact .mode haddr
    · split
      · rename_i haddr
        split
        · rename_i hreq
          exact .request haddr hreq
        · rename_i hreq
          exact .ignored (by omega) (fun _ => not_not.mp hreq) (by omega) (by omega)
      · split
        · rename_i hwin
          split
          · rename_i hmode
            split
            · rename_i hlow
              exact .mask hwin.1 hlow hmode
            · exact .ignored (by omega) (by omega) (fun _ => ⟨hmode, by omega⟩) (by omega)
          · rename_i hmode
            exact .buffer hwin.1 hwin.2 (not_not.mp hmode)
        · split
          · rename_i haddr
            split
            · rename_i hval
              exact .acknowledge haddr hval
            · rename_i hval
              exact .ignored (by omega) (by omega) (by omega) fun _ => hval
          · exact .ignored (by omega) (by omega) (by omega) (by omega)

theorem touch_frame (xs : List Index) : (xs.map Event.touch).filterMap Event.frame = [] := by
  induction xs with
  | nil => rfl
  | cons x xs ih => exact ih

section
variable {s : CanState} {can : CanFrame} {addr : ℕ} {val : Byte} {r : CanState × List Event}

theorem Effect.mode_eq (h : Effect s can addr val r) :
    r.1.mode = if addr = 0 then 0x1f &&& val else s.mode := by
  cases h with
  | mode haddr => rw [if_pos haddr]
  | request haddr _ => rw [if_neg (by omega)]
  | mask hlow _ _ => rw [if_neg (by omega)]
  | buffer hlow _ _ => rw [if_neg (by omega)]
  | acknowledge haddr _ => rw [if_neg (by omega)]
  | ignored haddr _ _ _ => rw [if_neg haddr]

theorem Effect.codeMask_eq (h : Effect s can addr val r) {k : ℕ} (hk : k < 8) :
    load r.1.codeMask k =
      if s.mode &&& 0x01 ≠ 0 ∧ addr = 16 + k then val else load s.codeMask k := by
  cases h with
  | mask hlow hhigh hmode =>
    by_cases haddr : addr = 16 + k
    · rw [if_pos ⟨hmode, haddr⟩, haddr, Nat.add_sub_cancel_left]
      exact load_store_self _ _ hk
    · rw [if_neg fun h => haddr h.2]
      exact load_store_ne _ _ (by omega)
  | ignored _ _ hwin _ =>
    rw [if_neg]
    rintro ⟨hmode, haddr⟩
    have := hwin (by omega)
    omega
  | buffer _ _ hmode => rw [if_neg fun h => h.1 hmode]
  | mode haddr => rw [if_neg (by omega)]
  | request haddr _ => rw [if_neg (by omega)]
  | acknowledge haddr _ => rw [if_neg (by omega)]

theorem Effect.trxBuff_eq (h : Effect s can addr val r) {k : ℕ} (hk : k < 13) :
    load r.1.trxBuff k =
      if s.mode &&& 0x01 = 0 ∧ addr = 16 + k then val else load s.trxBuff k := by
  cases h with
  | buffer hlow hhigh hmode =>
    by_cases haddr : addr = 16 + k
    · rw [if_pos ⟨hmode, haddr⟩, haddr, Nat.add_sub_cancel_left]
      exact load_store_self _ _ hk
    · rw [if_neg fun h => haddr h.2]
      exact load_store_ne _ _ (by omega)
  | ignored _ _ hwin _ =>
    rw [if_neg]
    rintro ⟨hmode, haddr⟩
    exact (hwin (by omega)).1 hmode
  | mask _ _ hmode => rw [if_neg fun h => hmode h.1]
  | mode haddr => rw [if_neg (by omega)]
  | request haddr _ => rw [if_neg (by omega)]
  | acknowledge haddr _ => rw [if_neg (by omega)]

theorem Effect.status_eq (h : Effect s can addr val r) : r.1.status = s.status := by
  cases h <;> rfl

theorem Effect.irq_iff (h : Effect s can addr val r) : r.1.irq = true ↔
    (addr = 1 ∧ 0x01 &&& val ≠ 0) ∨ (¬ (addr = 127 ∧ val = 0x33) ∧ s.irq = true) := by
  cases h with
  | request haddr hreq => exact iff_of_true rfl (Or.inl ⟨haddr, hreq⟩)
  | acknowledge haddr hval => simp [haddr, hval]
  | mode haddr => simp [haddr]
  | mask hlow hhigh _ =>
    have h1 : addr ≠ 1 := by omega
    have h127 : addr ≠ 127 := by omega
    simp [h1, h127]
  | buffer hlow hhigh _ =>
    have h1 : addr ≠ 1 := by omega
    have h127 : addr ≠ 127 := by omega
    simp [h1, h127]
  | ignored _ hreq _ hack => grind

theorem Effect.sends (h : Effect s can addr val r) :
    r.1.txBuff = (if addr = 1 ∧ 0x01 &&& val ≠ 0 then s.trxBuff else s.txBuff) ∧
    r.2.filterMap Event.frame =
      if addr = 1 ∧ 0x01 &&& val ≠ 0 then [(buff2frame s.trxBuff can).1] else [] := by
  cases h with
  | request haddr hreq =>
    rw [if_pos ⟨haddr, hreq⟩, if_pos ⟨haddr, hreq⟩, List.filterMap_append, touch_frame]
    exact ⟨rfl, rfl⟩
  | ignored _ hreq _ _ =>
    rw [if_neg fun h => h.2 (hreq h.1), if_neg fun h => h.2 (hreq h.1)]
    exact ⟨rfl, rfl⟩
  | mode haddr => simp [haddr]
  | acknowledge haddr _ => simp [haddr, Event.frame]
  | mask hlow _ _ =>
    have h1 : addr ≠ 1 := by omega
    simp [h1, Event.frame]
  | buffer hlow _ _ =>
    have h1 : addr ≠ 1 := by omega
    simp [h1, Event.frame]

end

section
variable (buff : Vector Byte 13) (base : ℕ)

theorem copyData_header (n i : ℕ) (can : CanFrame) :
    (copyData buff base n i can).1.canId = can.canId ∧
    (copyData buff base n i can).1.canDlc = can.canDlc := by
  induction n generalizing i can with
  | zero => exact ⟨rfl, rfl⟩
  | succ n ih => exact ih _ _

theorem copyData_data (n i : ℕ) (can : CanFrame) (j : ℕ) (hj : j < 8) :
    load (copyData buff base n i can).1.data j =
      if i ≤ j ∧ j < i + n then load buff (base + j) else load can.data j := by
  induction n generalizing i can with
  | zero =>
    rw [if_neg (by omega)]
    rfl
  | succ n ih =>
    rw [copyData]
    dsimp only
    rw [ih]
    by_cases h : i = j
    · subst h
      rw [if_neg (by omega), if_pos (by omega), load_store_self _ _ hj]
    · rw [load_store_ne _ _ h]
      have hiff : (i + 1 ≤ j ∧ j < i + 1 + n) ↔ (i ≤ j ∧ j < i + (n + 1)) := by omega
      simp only [hiff]

theorem copyData_inRange (hbase : base ≤ 5) (n i : ℕ) (can : CanFrame) :
    (∀ x ∈ (copyData buff base n i can).2, x.InRange) ↔ (n = 0 ∨ i + n ≤ 8) := by
  induction n generalizing i can with
  | zero => simp [copyData]
  | succ n ih =>
    rw [copyData]
    dsimp only
    simp only [List.forall_mem_cons]
    rw [ih]
    simp only [Index.InRange]
    omega

theorem clearData_header (n i : ℕ) (can : CanFrame) :
    (clearData n i can).1.canId = can.canId ∧ (clearData n i can).1.canDlc = can.canDlc := by
  induction n generalizing i can with
  | zero => exact ⟨rfl, rfl⟩
  | succ n ih => exact ih _ _

theorem clearData_data (n i : ℕ) (can : CanFrame) (j : ℕ) (hj : j < 8) :
    load (clearData n i can).1.data j = if i ≤ j ∧ j < i + n then 0 else load can.data j := by
  induction n generalizing i can with
  | zero =>
    rw [if_neg (by omega)]
    rfl
  | succ n ih =>
    rw [clearData]
    dsimp only
    rw [ih]
    by_cases h : i = j
    · subst h
      rw [if_neg (by omega), if_pos (by omega), load_store_self _ _ hj]
    · rw [load_store_ne _ _ h]
      have hiff : (i + 1 ≤ j ∧ j < i + 1 + n) ↔ (i ≤ j ∧ j < i + (n + 1)) := by omega
      simp only [hiff]

theorem clearData_inRange (n i : ℕ) (can : CanFrame) (h : i + n ≤ 8 ∨ n = 0) :
    ∀ x ∈ (clearData n i can).2, x.InRange := by
  induction n generalizing i can with
  | zero => simp [clearData]
  | succ n ih =>
    rw [clearData]
    dsimp only
    simp only [List.forall_mem_cons, Index.InRange]
    exact ⟨by omega, ih _ _ (by omega)⟩

/-- The two data loops of `buff2frame`. -/
def fillData (can : CanFrame) : CanFrame × List Index :=
  let copied := copyData buff base can.canDlc.toNat 0 can
  let cleared := clearData (8 - can.canDlc.toNat) can.canDlc.toNat copied.1
  (cleared.1, copied.2 ++ cleared.2)

theorem fillData_header (can : CanFrame) : (fillData buff base can).1.canId = can.canId ∧
    (fillData buff base can).1.canDlc = can.canDlc := by
  obtain ⟨hid, hdlc⟩ := copyData_header buff base can.canDlc.toNat 0 can
  exact ⟨(clearData_header _ _ _).1.trans hid, (clearData_header _ _ _).2.trans hdlc⟩

theorem fillData_data (can : CanFrame) {j : ℕ} (hj : j < 8) :
    load (fillData buff base can).1.data j =
      if j < can.canDlc.toNat then load buff (base + j) else 0 := by
  rw [fillData]
  dsimp only
  rw [clearData_data _ _ _ _ hj, copyData_data _ _ _ _ _ _ hj]
  by_cases h : j < can.canDlc.toNat
  · rw [if_neg (by omega), if_pos (by omega), if_pos h]
  · rw [if_pos (by omega), if_neg h]

theorem fillData_inRange (hbase : base ≤ 5) (can : CanFrame) :
    (∀ x ∈ (fillData buff base can).2, x.InRange) ↔ can.canDlc.toNat ≤ 8 := by
  rw [fillData]
  dsimp only
  rw [List.forall_mem_append, copyData_inRange buff base hbase]
  constructor
  · rintro ⟨hn, -⟩
    omega
  · intro hn
    exact ⟨by omega, clearData_inRange _ _ _ (by omega)⟩

/-- Where the data starts, and the identifier word over what `id` held. -/
def dataBase : ℕ := if load buff 0 &&& 0x80#8 ≠ 0 then 5 else 3

def decodedId (id : CanId) : CanId :=
  let id := if load buff 0 &&& 0x40#8 ≠ 0 then 1#32 <<< 30 else id
  if load buff 0 &&& 0x80#8 ≠ 0 then
    id ||| (1#32 <<< 31) ||| (promote (load buff 1) <<< 21) ||| (promote (load buff 2) <<< 13)
      ||| (promote (load buff 3) <<< 5) ||| (promote (load buff 4) >>> 3)
  else id ||| (promote (load buff 1) <<< 3) ||| (promote (load buff 2) >>> 5)

theorem buff2frame_eq (can : CanFrame) : buff2frame buff can =
    let can := {can with canId := decodedId buff can.canId, canDlc := load buff 0 &&& 0x0f#8}
    let filled := fillData buff (dataBase buff) can
    (filled.1, (List.range (dataBase buff)).map .txBuff ++ filled.2) := by
  unfold buff2frame decodedId dataBase fillData
  dsimp only
  split <;> split <;> simp only [(copyData_header _ _ _ _ _).2, List.append_assoc] <;> rfl

theorem buff2frame_canId (can : CanFrame) :
    (buff2frame buff can).1.canId = decodedId buff can.canId := by
  rw [buff2frame_eq]
  exact (fillData_header _ _ _).1

theorem buff2frame_canDlc (can : CanFrame) :
    (buff2frame buff can).1.canDlc = load buff 0 &&& 0x0f#8 := by
  rw [buff2frame_eq]
  exact (fillData_header _ _ _).2

theorem buff2frame_data (can : CanFrame) {j : ℕ} (hj : j < 8) :
    load (buff2frame buff can).1.data j =
      if j < (load buff 0 &&& 0x0f#8).toNat then load buff (dataBase buff + j) else 0 := by
  rw [buff2frame_eq]
  exact fillData_data _ _ _ hj

end

end CanPci.Emulated
