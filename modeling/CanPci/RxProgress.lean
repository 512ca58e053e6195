import CanPci.RegFile
import CanPci.RxRing
import CanPci.TxConfined

/-!
# Receive interrupts against a queue in the controller

The controller keeps received frames in a queue of its own. `RI` reads as set while it
is non-empty, the receive window shows the oldest frame, command 0x04 removes it.
-/

namespace CanPci
open RingFifo

/-- `fifo` lists the frames waiting, each as the bytes its registers show. -/
structure RxQueue (drv : Driver) (σ : Type) [Bus σ] where
  fifo : σ → List (Byte → Byte)
  int_ri : ∀ c, (ioread8 sjaIntReg c).1 &&& ri ≠ 0 ↔ fifo c ≠ []
  window : ∀ reg {c img rest}, fifo c = img :: rest → drv.InRxWindow reg →
    (ioread8 reg c).1 = img reg
  read_fifo : ∀ reg c, fifo (ioread8 reg c).2 = fifo c
  write_fifo : ∀ v reg c, fifo (iowrite8 v reg c) =
    if reg = sjaCommandReg ∧ v.getLsbD 2 = true then (fifo c).tail else fifo c

namespace Driver

/-- What `receive_message` makes of a controller that shows only this frame. -/
def decode (drv : Driver) (img : Byte → Byte) : CanFrame :=
  (drv.receiveMessage CanFrame.zero (⟨img, fun _ => 0⟩ : RegFile)).1.can

def ShortImage (drv : Driver) (img : Byte → Byte) : Prop :=
  (drv.rxHeader (⟨img, fun _ => 0⟩ : RegFile)).canDlc.toNat ≤ 8

instance (drv : Driver) (img : Byte → Byte) : Decidable (drv.ShortImage img) := Nat.decLe _ _

section
variable {drv : Driver} {σ : Type} [Bus σ] (q : RxQueue drv σ)

theorem rxHeader_shows {c : σ} {img : Byte → Byte} {rest : List (Byte → Byte)}
    (hc : q.fifo c = img :: rest) :
    let h := drv.rxHeader c
    let g := drv.rxHeader (⟨img, fun _ => 0⟩ : RegFile)
    h.canId = g.canId ∧ h.canDlc = g.canDlc ∧ h.index = g.index ∧ q.fifo h.bus = q.fifo c := by
  have hkeep : ∀ {b : σ} (reg : Byte), q.fifo b = img :: rest →
      q.fifo (ioread8 reg b).2 = img :: rest := fun reg hb => (q.read_fifo reg _).trans hb
  cases drv with
  | pelican =>
    have h1 := hkeep 16 hc
    have h2 := hkeep 17 h1
    have h3 := hkeep 18 h2
    have h4 := hkeep 19 h3
    have e0 : (ioread8 16 c).1 = img 16 := q.window 16 hc (by decide)
    have e1 := q.window 17 h1 (by decide)
    have e2 := q.window 18 h2 (by decide)
    have e3 := q.window 19 h3 (by decide)
    have e4 := q.window 20 h4 (by decide)
    dsimp only
    simp only [rxHeader, Pelican.rxHeader, RegFile.ioread8_eq, e0, hc]
    split
    · refine ⟨?_, rfl, rfl, hkeep _ h4⟩
      rw [e1, e2, e3, e4]
    · refine ⟨?_, rfl, rfl, h3⟩
      rw [e1, e2]
  | basiccan =>
    have h1 := hkeep 20 hc
    have e0 : (ioread8 20 c).1 = img 20 := q.window 20 hc (by decide)
    have e1 := q.window 21 h1 (by decide)
    dsimp only
    simp only [rxHeader, Basiccan.rxHeader, RegFile.ioread8_eq, e0, hc]
    refine ⟨?_, ?_, trivial, hkeep _ h1⟩ <;> rw [e1]

theorem readData_shows (n i : ℕ) (index : Byte) (r : Received) {c : σ} {img : Byte → Byte}
    {rest : List (Byte → Byte)} (hc : q.fifo c = img :: rest)
    (hwin : ∀ k < n, drv.InRxWindow (index + BitVec.ofNat 8 k)) :
    (readData n i index r c).1 =
      (readData n i index r (⟨img, fun _ => 0⟩ : RegFile)).1 := by
  induction n generalizing i index r c with
  | zero => rfl
  | succ n ih =>
    have hfirst := hwin 0 (Nat.succ_pos n)
    rw [show index + BitVec.ofNat 8 0 = index from BitVec.add_zero index] at hfirst
    rw [readData, readData, RegFile.ioread8_eq]
    dsimp only
    rw [q.window _ hc hfirst]
    refine ih _ _ _ ((q.read_fifo _ _).trans hc) fun k hk => ?_
    rw [Recorder.index_succ]
    exact hwin (k + 1) (by omega)

theorem receiveMessage_shows {c : σ} {img : Byte → Byte} {rest : List (Byte → Byte)}
    (hc : q.fifo c = img :: rest) (hs : drv.ShortImage img) (slot : CanFrame) :
    (drv.receiveMessage slot c).1 = ⟨drv.decode img, []⟩ := by
  obtain ⟨hid, hdlc, hindex, hbus⟩ := rxHeader_shows q hc
  have hshort : (drv.rxHeader (⟨img, fun _ => 0⟩ : RegFile)).finish.1.overrun = [] :=
    (finish_over_iff _).mpr hs
  have hslot : (drv.rxHeader c).slot = (drv.rxHeader (⟨img, fun _ => 0⟩ : RegFile)).slot := by
    simp only [RxHeader.slot, hid, hdlc]
  have hregs : (drv.rxHeader (⟨img, fun _ => 0⟩ : RegFile)).bus = ⟨img, fun _ => 0⟩ := by
    cases drv with
    | pelican =>
      simp only [rxHeader, Pelican.rxHeader]
      split <;> rfl
    | basiccan => rfl
  have hdata := readData_shows q (drv.rxHeader c).canDlc.toNat 0 (drv.rxHeader c).index
    (drv.rxHeader c).slot (hbus.trans hc)
    fun k hk => drv.rxHeader_window c k (lt_of_lt_of_le hk (hdlc ▸ hs))
  have hsame : (drv.rxHeader c).finish.1 =
      (drv.rxHeader (⟨img, fun _ => 0⟩ : RegFile)).finish.1 := by
    simp only [RxHeader.finish, hregs]
    rw [hdata, hslot, hdlc, hindex]
  rw [receiveMessage_split, hsame, decode, receiveMessage_split]
  exact Received.ext rfl hshort

theorem rxHeader_fifo (c : σ) : q.fifo (drv.rxHeader c).bus = q.fifo c := by
  cases drv with
  | pelican =>
    simp only [rxHeader, Pelican.rxHeader]
    split <;> simp only [q.read_fifo]
  | basiccan => simp only [rxHeader, Basiccan.rxHeader, q.read_fifo]

theorem release_fifo (c : σ) : q.fifo (iowrite8 0x04 sjaCommandReg c) = (q.fifo c).tail := by
  rw [q.write_fifo, if_pos ⟨rfl, by decide⟩]

theorem receiveMessage_fifo (slot : CanFrame) (c : σ) :
    q.fifo (drv.receiveMessage slot c).2 = (q.fifo c).tail := by
  rw [receiveMessage_split]
  simp only [RxHeader.finish, release_fifo]
  rw [readData_invariant (P := fun b => q.fifo b = q.fifo c)
    (fun reg b hb => (q.read_fifo reg b).trans hb) _ _ _ _ _ (rxHeader_fifo q c)]

theorem afterTransmit_fifo {d : CanDev} (ht : d.tx.Consistent)
    (hshort : ∀ f ∈ d.tx.items, f.canDlc.toNat ≤ 8) (c : σ) :
    q.fifo (drv.afterTransmit d c).bus = q.fifo c := by
  refine drv.afterTransmit_short (P := fun b => q.fifo b = q.fifo c)
    (fun reg b hb => (q.read_fifo reg b).trans hb) (fun v reg b hreg hb => ?_)
    (fun b hb => ?_) ht hshort rfl
  · have hne : reg ≠ sjaCommandReg := fun h => drv.window_not_command (h ▸ hreg)
    rw [q.write_fifo, if_neg fun h => hne h.1, hb]
  · rw [q.write_fifo, if_neg fun h => absurd h.2 (by decide), hb]

theorem clearOverrun_fifo (temp : Byte) (s : Served σ) :
    q.fifo (clearOverrun temp s).bus = q.fifo s.bus := by
  unfold clearOverrun
  split
  · show q.fifo (iowrite8 cdo sjaCommandReg s.bus) = _
    rw [q.write_fifo, if_neg fun h => absurd h.2 (by decide)]
  · rfl

theorem irqHandler_fifo {d : CanDev} (ht : d.tx.Consistent)
    (hshort : ∀ f ∈ d.tx.items, f.canDlc.toNat ≤ 8) (hle : d.rxCount ≤ bufferSize) (c : σ) :
    q.fifo (drv.irqHandler d c).bus =
      if drv = .pelican ∧ d.rxCount = bufferSize then q.fifo c else (q.fifo c).tail := by
  have hsent := afterTransmit_fifo q (c := c) ht hshort
  rw [irqHandler_eq]
  dsimp only
  rw [drv.afterTransmit_rxCount d c]
  by_cases hri : (ioread8 sjaIntReg c).1 &&& ri ≠ 0
  · rw [if_pos hri]
    by_cases hroom : d.rxCount < bufferSize
    · rw [if_neg (fun h => (drv.rxFull_iff hle).mp h hroom), clearOverrun_fifo,
        if_neg fun h => absurd h.2 hroom.ne, ← hsent]
      exact receiveMessage_fifo q _ _
    · have hfull : d.rxCount = bufferSize := by omega
      rw [if_pos ((drv.rxFull_iff hle).mpr hroom)]
      cases drv with
      | pelican =>
        rw [if_pos ⟨rfl, hfull⟩]
        exact hsent
      | basiccan =>
        rw [if_neg (fun h => nomatch h.1), ← hsent]
        exact release_fifo q _
  · have hnone : q.fifo c = [] := not_not.mp fun h => hri ((q.int_ri c).mpr h)
    rw [if_neg hri, clearOverrun_fifo, hsent, hnone]
    exact (ite_self _).symm

theorem irqHandler_items {d : CanDev} (ht : d.tx.Consistent)
    (hshort : ∀ f ∈ d.tx.items, f.canDlc.toNat ≤ 8) (hr : d.rx.Consistent) (c : σ)
    (himg : ∀ img ∈ q.fifo c, drv.ShortImage img) :
    (drv.irqHandler d c).dev.rx.Consistent ∧ (drv.irqHandler d c).dev.rx.items =
      d.rx.items ++ ((q.fifo c).take (min 1 (bufferSize - d.rxCount))).map drv.decode := by
  have hsent := afterTransmit_fifo q (c := c) ht hshort
  by_cases h : q.fifo c ≠ [] ∧ d.rxCount < bufferSize
  · obtain ⟨hne, hroom⟩ := h
    obtain ⟨img, rest, hc⟩ := List.exists_cons_of_ne_nil hne
    have hin : drv.incoming d c = ⟨drv.decode img, []⟩ := by
      rw [← receiveMessage_shows q (hsent.trans hc) (himg img (by rw [hc]; exact List.mem_cons_self))
        CanFrame.zero, receiveMessage_split]
      rfl
    have hrx := (drv.irqHandler_store d c ((q.int_ri c).mpr hne) hroom).2 hr.tail_lt
      (by rw [hin])
    have hone : min 1 (bufferSize - d.rxCount) = 1 := by omega
    rw [hrx, hin, hone, hc]
    exact ⟨Ring.commit_consistent (Ring.stage_consistent hr _) hroom, Ring.push_items hr hroom _⟩
  · have hnone : (q.fifo c).take (min 1 (bufferSize - d.rxCount)) = [] := by
      by_cases hne : q.fifo c = []
      · rw [hne, List.take_nil]
      · have hzero : min 1 (bufferSize - d.rxCount) = 0 := by
          have : ¬ d.rxCount < bufferSize := fun hroom => h ⟨hne, hroom⟩
          omega
        rw [hzero, List.take_zero]
    have hsame := (drv.irqHandler_ignore d c hr.count_le fun hboth =>
      h ⟨(q.int_ri c).mp hboth.1, hboth.2⟩).2
    rw [hsame, hnone]
    exact ⟨hr, (List.append_nil _).symm⟩

end
end Driver

section
variable {σ : Type} [Bus σ]

def serve (drv : Driver) (s : CanDev × σ) : CanDev × σ :=
  let out := drv.irqHandler s.1 s.2
  (out.dev, out.bus)

theorem serve_tx (drv : Driver) {s : CanDev × σ} (ht : s.1.tx.Consistent)
    (hshort : ∀ f ∈ s.1.tx.items, f.canDlc.toNat ≤ 8) :
    (serve drv s).1.tx.Consistent ∧ ∀ f ∈ (serve drv s).1.tx.items, f.canDlc.toNat ≤ 8 := by
  have hcases : (serve drv s).1.tx = s.1.tx ∨
      0 < s.1.txCount ∧ (serve drv s).1.tx = s.1.tx.drop := drv.irqHandler_tx_or s.1 s.2
  rcases hcases with htx | ⟨hpos, htx⟩
  · rw [htx]
    exact ⟨ht, hshort⟩
  · rw [htx]
    refine ⟨Ring.drop_consistent ht hpos, fun f hf => hshort f ?_⟩
    rw [Ring.items_eq_cons ht hpos]
    exact List.mem_cons_of_mem _ hf

theorem serves_tx (drv : Driver) {s : CanDev × σ} (ht : s.1.tx.Consistent)
    (hshort : ∀ f ∈ s.1.tx.items, f.canDlc.toNat ≤ 8) (n : ℕ) :
    ((serve drv)^[n] s).1.tx.Consistent ∧
    ∀ f ∈ ((serve drv)^[n] s).1.tx.items, f.canDlc.toNat ≤ 8 := by
  induction n with
  | zero => exact ⟨ht, hshort⟩
  | succ n ih =>
    rw [Function.iterate_succ_apply']
    exact serve_tx drv ih.1 ih.2

variable {drv : Driver} (q : RxQueue drv σ)

/-- `n` waiting frames take `n` handler runs: run by run the oldest is removed, and
stored as long as the ring has room; then `RI` reads as clear. -/
def Drains (s : CanDev × σ) : Prop :=
  (∀ k ≤ (q.fifo s.2).length, q.fifo ((serve drv)^[k] s).2 = (q.fifo s.2).drop k ∧
    ((serve drv)^[k] s).1.rx.items = s.1.rx.items ++
      ((q.fifo s.2).take (min k (bufferSize - s.1.rxCount))).map drv.decode) ∧
  (ioread8 sjaIntReg ((serve drv)^[(q.fifo s.2).length] s).2).1 &&& ri = 0

/-- The driver discards what it cannot store, or the ring has room for all that waits. -/
def HasRoom (s : CanDev × σ) : Prop :=
  drv = .basiccan ∨ s.1.rxCount + (q.fifo s.2).length ≤ bufferSize

theorem take_next {α : Type} (l : List α) (k m : ℕ) :
    l.take (min k m) ++ (l.drop k).take (min 1 (m - min k m)) = l.take (min (k + 1) m) := by
  by_cases h : k < m
  · have h1 : min k m = k := by omega
    have h2 : min 1 (m - k) = 1 := by omega
    have h3 : min (k + 1) m = k + 1 := by omega
    rw [h1, h2, h3, List.take_add]
  · have h1 : min k m = m := by omega
    have h3 : min (k + 1) m = m := by omega
    rw [h1, h3, Nat.sub_self, Nat.min_zero, List.take_zero, List.append_nil]

theorem served_count {s t : CanDev × σ} {k : ℕ} (hk : k ≤ (q.fifo s.2).length)
    (hitems : t.1.rx.items = s.1.rx.items ++
      ((q.fifo s.2).take (min k (bufferSize - s.1.rxCount))).map drv.decode) :
    t.1.rxCount = s.1.rxCount + min k (bufferSize - s.1.rxCount) := by
  have hlen := congrArg List.length hitems
  rw [List.length_append, Ring.items_length, Ring.items_length, List.length_map,
    List.length_take] at hlen
  have ht : t.1.rx.count = t.1.rxCount := rfl
  have hs : s.1.rx.count = s.1.rxCount := rfl
  omega

theorem serves_step {s : CanDev × σ} (ht : s.1.tx.Consistent)
    (hshort : ∀ f ∈ s.1.tx.items, f.canDlc.toNat ≤ 8) (hr : s.1.rx.Consistent)
    (himg : ∀ img ∈ q.fifo s.2, drv.ShortImage img) (hroom : HasRoom q s) :
    ∀ k ≤ (q.fifo s.2).length, ((serve drv)^[k] s).1.rx.Consistent ∧
      q.fifo ((serve drv)^[k] s).2 = (q.fifo s.2).drop k ∧
      ((serve drv)^[k] s).1.rx.items = s.1.rx.items ++
        ((q.fifo s.2).take (min k (bufferSize - s.1.rxCount))).map drv.decode := by
  intro k
  induction k with
  | zero =>
    intro _
    rw [Nat.zero_min, List.take_zero, List.map_nil, List.append_nil]
    exact ⟨hr, rfl, rfl⟩
  | succ k ih =>
    intro hk
    obtain ⟨hcons, hfifo, hitems⟩ := ih (by omega)
    obtain ⟨htx, htxs⟩ := serves_tx drv ht hshort k
    have hcount := served_count q (by omega) hitems
    have himgs : ∀ img ∈ q.fifo ((serve drv)^[k] s).2, drv.ShortImage img := by
      rw [hfifo]
      exact fun img hmem => himg img (List.mem_of_mem_drop hmem)
    have hnext := Driver.irqHandler_items q htx htxs hcons _ himgs
    rw [Function.iterate_succ_apply']
    refine ⟨hnext.1, ?_, hnext.2.trans ?_⟩
    · refine (Driver.irqHandler_fifo q htx htxs hcons.count_le _).trans ?_
      rw [if_neg, hfifo, List.tail_drop]
      rintro ⟨rfl, hfull⟩
      have := hroom.resolve_left (by decide)
      omega
    · have hleft : bufferSize - ((serve drv)^[k] s).1.rxCount =
          bufferSize - s.1.rxCount - min k (bufferSize - s.1.rxCount) := by omega
      rw [hitems, hfifo, hleft, List.append_assoc, ← List.map_append, take_next]

theorem drains_of_room {s : CanDev × σ} (ht : s.1.tx.Consistent)
    (hshort : ∀ f ∈ s.1.tx.items, f.canDlc.toNat ≤ 8) (hr : s.1.rx.Consistent)
    (himg : ∀ img ∈ q.fifo s.2, drv.ShortImage img) (hroom : HasRoom q s) : Drains q s := by
  have hall := serves_step q ht hshort hr himg hroom
  refine ⟨fun k hk => (hall k hk).2, ?_⟩
  have hempty := (hall _ (le_refl _)).2.1
  rw [List.drop_length] at hempty
  exact not_not.mp fun hri => (q.int_ri _).mp hri hempty

theorem room_of_drains {s : CanDev × σ} (ht : s.1.tx.Consistent)
    (hshort : ∀ f ∈ s.1.tx.items, f.canDlc.toNat ≤ 8) (hle : s.1.rxCount ≤ bufferSize)
    (h : Drains q s) : HasRoom q s := by
  by_contra hno
  obtain ⟨hpeli, hmany⟩ := not_or.mp hno
  have hk : bufferSize - s.1.rxCount + 1 ≤ (q.fifo s.2).length := by omega
  obtain ⟨hfifo, hitems⟩ := h.1 (bufferSize - s.1.rxCount) (by omega)
  have hcount := served_count q (by omega) hitems
  rw [Nat.min_self] at hcount
  obtain ⟨htx, htxs⟩ := serves_tx drv ht hshort (bufferSize - s.1.rxCount)
  have hstays := Driver.irqHandler_fifo q htx htxs (by omega)
    ((serve drv)^[bufferSize - s.1.rxCount] s).2
  have hfull : drv = .pelican ∧
      ((serve drv)^[bufferSize - s.1.rxCount] s).1.rxCount = bufferSize := by
    refine ⟨?_, by omega⟩
    cases drv with
    | pelican => rfl
    | basiccan => exact absurd rfl hpeli
  have hafter := (h.1 _ hk).1
  rw [Function.iterate_succ_apply'] at hafter
  have hsame := hafter.symm.trans (hstays.trans ((if_pos hfull).trans hfifo))
  have hlen := congrArg List.length hsame
  rw [List.length_drop, List.length_drop] at hlen
  omega

/-- A handler run removes the oldest waiting frame exactly if the driver is BasicCAN or
the ring has room; and `n` runs drain `n` waiting frames exactly if the driver is BasicCAN
or the ring has room for all of them, where the frames to store announce at most eight
bytes. -/
theorem receive_progress_iff (d : CanDev) (c : σ) (ht : d.tx.Consistent)
    (hshort : ∀ f ∈ d.tx.items, f.canDlc.toNat ≤ 8) (hr : d.rx.Consistent) :
    (q.fifo c ≠ [] → (q.fifo (drv.irqHandler d c).bus = (q.fifo c).tail ↔
      drv = .basiccan ∨ d.rxCount < bufferSize)) ∧
    (Drains q (d, c) → HasRoom q (d, c)) ∧
    ((∀ img ∈ q.fifo c, drv.ShortImage img) → HasRoom q (d, c) → Drains q (d, c)) := by
  refine ⟨fun hne => ?_, room_of_drains q ht hshort hr.count_le,
    fun himg hroom => drains_of_room q ht hshort hr himg hroom⟩
  rw [Driver.irqHandler_fifo q ht hshort hr.count_le]
  by_cases hstuck : drv = .pelican ∧ d.rxCount = bufferSize
  · obtain ⟨rfl, hfull⟩ := hstuck
    have hlen := List.length_pos_iff.mpr hne
    rw [if_pos ⟨rfl, hfull⟩]
    constructor
    · intro hsame
      have := congrArg List.length hsame
      rw [List.length_tail] at this
      omega
    · rintro (hb | hroom)
      · cases hb
      · omega
  · rw [if_neg hstuck]
    refine iff_of_true rfl ?_
    cases drv with
    | pelican => exact Or.inr (lt_of_le_of_ne hr.count_le fun hfull => hstuck ⟨rfl, hfull⟩)
    | basiccan => exact Or.inl rfl

end

/-- With a full ring the PeliCAN driver leaves the waiting frames where they are, however
often it is interrupted. -/
theorem pelican_stuck {σ : Type} [Bus σ] (q : RxQueue .pelican σ) {s : CanDev × σ}
    (ht : s.1.tx.Consistent) (hshort : ∀ f ∈ s.1.tx.items, f.canDlc.toNat ≤ 8)
    (hfull : s.1.rxCount = bufferSize) (n : ℕ) :
    ((serve .pelican)^[n] s).1.rxCount = bufferSize ∧
    q.fifo ((serve .pelican)^[n] s).2 = q.fifo s.2 := by
  induction n with
  | zero => exact ⟨hfull, rfl⟩
  | succ n ih =>
    obtain ⟨hcount, hfifo⟩ := ih
    obtain ⟨htx, htxs⟩ := serves_tx .pelican ht hshort n
    rw [Function.iterate_succ_apply']
    constructor
    · have hsame := (Driver.pelican.irqHandler_ignore ((serve .pelican)^[n] s).1
        ((serve .pelican)^[n] s).2 hcount.le fun h => absurd h.2 (by omega)).2
      exact (congrArg Ring.count hsame).trans hcount
    · exact ((Driver.irqHandler_fifo q htx htxs hcount.le _).trans
        (if_pos ⟨rfl, hcount⟩)).trans hfifo

structure RxChip where
  waiting : List (Byte → Byte)

instance : Bus RxChip where
  ioread8 reg c :=
    if reg = sjaIntReg then (if c.waiting.isEmpty then 0 else ri, c)
    else ((c.waiting.headD fun _ => 0) reg, c)
  iowrite8 v reg c := if reg = sjaCommandReg ∧ v.getLsbD 2 = true then ⟨c.waiting.tail⟩ else c
  past _ _ := 0

def RxChip.queue (drv : Driver) : RxQueue drv RxChip where
  fifo c := c.waiting
  int_ri c := by
    rcases c with ⟨waiting⟩
    cases waiting with
    | nil => exact iff_of_false (by decide) (fun h => h rfl)
    | cons img rest => exact iff_of_true (by decide : ri &&& ri ≠ 0) (List.cons_ne_nil _ _)
  window := by
    rintro reg ⟨waiting⟩ img rest rfl hwin
    have hreg : reg ≠ sjaIntReg := by
      rintro rfl
      cases drv <;> exact absurd hwin (by decide)
    exact congrArg Prod.fst (if_neg hreg)
  read_fifo reg c := by
    show RxChip.waiting (ite _ _ _ : Byte × RxChip).2 = _
    split <;> rfl
  write_fifo v reg c := apply_ite RxChip.waiting _ _ _

/-- Seven frames of no data bytes wait and the ring is empty. -/
def flooded : CanDev × RxChip := (resetRings .probed, ⟨List.replicate 7 fun _ => 0⟩)

theorem receive_progress_sample :
    Drains (RxChip.queue .basiccan) flooded ∧
    Drains (RxChip.queue .pelican) (resetRings .probed, ⟨List.replicate 6 fun _ => 0⟩) := by
  have hnone : ∀ f ∈ (resetRings .probed).tx.items, f.canDlc.toNat ≤ 8 := by
    rw [(resetRings_tx _).2]
    exact fun f hf => by cases hf
  constructor
  · refine (receive_progress_iff (RxChip.queue .basiccan) _ _ (resetRings_tx _).1 hnone
      (resetRings_rx _).1).2.2 ?_ (Or.inl rfl)
    intro img himg
    rw [List.eq_of_mem_replicate himg]
    exact (by decide : Driver.basiccan.ShortImage fun _ => 0)
  · refine (receive_progress_iff (RxChip.queue .pelican) _ _ (resetRings_tx _).1 hnone
      (resetRings_rx _).1).2.2 ?_ (Or.inr (le_refl 6))
    intro img himg
    rw [List.eq_of_mem_replicate himg]
    exact (by decide : Driver.pelican.ShortImage fun _ => 0)

/-- Six frames are stored; the seventh stays, and `RI` stays set, however many handler runs
follow. -/
theorem receive_stalls :
    ¬ Drains (RxChip.queue .pelican) flooded ∧
    ∀ n, (ioread8 sjaIntReg ((serve .pelican)^[n] ((serve .pelican)^[6] flooded)).2).1 &&& ri ≠ 0 := by
  have hnone : ∀ f ∈ (resetRings .probed).tx.items, f.canDlc.toNat ≤ 8 := by
    rw [(resetRings_tx _).2]
    exact fun f hf => by cases hf
  constructor
  · intro h
    have hroom : Driver.pelican = .basiccan ∨ flooded.1.rxCount + 7 ≤ bufferSize :=
      room_of_drains (RxChip.queue .pelican) (resetRings_tx _).1 hnone (by decide) h
    exact absurd hroom (by decide)
  · intro n
    obtain ⟨htx, htxs⟩ := serves_tx .pelican (s := flooded) (resetRings_tx _).1 hnone 6
    have hfull : ((serve .pelican)^[6] flooded).1.rxCount = bufferSize := by decide +kernel
    have hwaits : ((serve .pelican)^[6] flooded).2.waiting.length = 1 := by decide +kernel
    rw [(RxChip.queue .pelican).int_ri, (pelican_stuck _ htx htxs hfull n).2]
    intro hempty
    have hzero := congrArg List.length hempty
    exact absurd (hwaits.symm.trans hzero) (by decide)

end CanPci
