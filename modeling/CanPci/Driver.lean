import CanPci.Pelican
import CanPci.Basiccan

/-!
# Both drivers under one interface

Each member is the driver's own function. The lemmas describe `irq_handler` by its
effect on the two rings, whichever driver runs.
-/

namespace CanPci
open RingFifo

inductive Driver
  | pelican
  | basiccan
  deriving DecidableEq, Repr

namespace Driver
variable {σ : Type} [Bus σ]

def sendMessage : Driver → CanFrame → σ → σ
  | pelican => Pelican.sendMessage
  | basiccan => Basiccan.sendMessage

def receiveMessage : Driver → CanFrame → σ → Received × σ
  | pelican => Pelican.receiveMessage
  | basiccan => Basiccan.receiveMessage

def irqHandler : Driver → CanDev → σ → Served σ
  | pelican => Pelican.irqHandler
  | basiccan => Basiccan.irqHandler

def configure : Driver → σ → σ
  | pelican => Pelican.configure
  | basiccan => Basiccan.configure

def deviceOpen : Driver → CanDev → σ → OpenResult σ
  | pelican => Pelican.deviceOpen
  | basiccan => Basiccan.deviceOpen

theorem deviceOpen_eq (drv : Driver) (d : CanDev) (c : σ) :
    drv.deviceOpen d c = openWith drv.configure d c := by
  cases drv <;> rfl

def deviceWrite : Driver → CanDev → ℕ → CopyIn → σ → ℤ × Served σ
  | pelican => Pelican.deviceWrite
  | basiccan => Basiccan.deviceWrite

def txHeader : Driver → CanFrame → List (Byte × Byte)
  | pelican => Pelican.txHeader
  | basiccan => Basiccan.txHeader

def txDataReg : Driver → CanFrame → Byte
  | pelican => Pelican.txDataReg
  | basiccan => Basiccan.txDataReg

def rxHeader : Driver → σ → RxHeader σ
  | pelican => Pelican.rxHeader
  | basiccan => Basiccan.rxHeader

theorem sendMessage_split (drv : Driver) (can : CanFrame) (c : σ) :
    drv.sendMessage can c = iowrite8 0x01 sjaCommandReg
      (writeData can can.canDlc.toNat 0 (drv.txDataReg can) (writes (drv.txHeader can) c)) := by
  cases drv with
  | pelican => exact Pelican.sendMessage_split can c
  | basiccan => exact Basiccan.sendMessage_split can c

theorem receiveMessage_split (drv : Driver) (can : CanFrame) (c : σ) :
    drv.receiveMessage can c = (drv.rxHeader c).finish := by
  cases drv with
  | pelican => exact Pelican.receiveMessage_split can c
  | basiccan => exact Basiccan.receiveMessage_split can c

def txImage (drv : Driver) (can : CanFrame) : List (Byte × Byte) :=
  drv.txHeader can ++ dataWrites can can.canDlc.toNat 0 (drv.txDataReg can) ++
    [(0x01, sjaCommandReg)]

theorem sendMessage_eq (drv : Driver) (can : CanFrame) (c : σ) (h : can.canDlc.toNat ≤ 8) :
    drv.sendMessage can c = writes (drv.txImage can) c := by
  rw [sendMessage_split, writeData_eq _ _ _ _ _ (by omega)]
  simp only [txImage, writes_append, writes_cons, writes_nil]

theorem sendMessage_rule (drv : Driver) {P Q : σ → Prop} (can : CanFrame) (c : σ)
    (hw : ∀ v reg c, P c → P (iowrite8 v reg c))
    (hq : ∀ c, P c → Q (iowrite8 0x01 sjaCommandReg c)) (h : P c) :
    Q (drv.sendMessage can c) := by
  have hws : ∀ ws (c : σ), P c → P (writes ws c) := by
    intro ws
    induction ws with
    | nil => exact fun _ hc => hc
    | cons w ws ih => exact fun c hc => ih _ (hw _ _ _ hc)
  rw [sendMessage_split]
  exact hq _ (writeData_invariant hw _ _ _ _ _ (hws _ _ h))

/-! ### `irq_handler` -/

def rxFull : Driver → ℕ → Bool
  | pelican, n => n = bufferSize
  | basiccan, n => bufferSize ≤ n

def dropFrame : Driver → σ → σ
  | pelican, c => c
  | basiccan, c => iowrite8 0x04 sjaCommandReg c

def wrap : Driver → ℕ → ℕ
  | pelican => wrapEq
  | basiccan => wrapGe

/-- The state after the interrupt register is read and `TI` served. -/
def afterTransmit (drv : Driver) (d : CanDev) (c : σ) : Served σ :=
  let s : Served σ := ⟨d, (ioread8 sjaIntReg c).2, [], []⟩
  if (ioread8 sjaIntReg c).1 &&& ti ≠ 0 then serveTransmit drv.sendMessage s else s

theorem irqHandler_eq (drv : Driver) (d : CanDev) (c : σ) :
    drv.irqHandler d c =
      let temp := (ioread8 sjaIntReg c).1
      let s := drv.afterTransmit d c
      if temp &&& ri ≠ 0 then
        if drv.rxFull s.dev.rxCount then {s with bus := drv.dropFrame s.bus}
        else clearOverrun temp (serveReceive drv.receiveMessage drv.wrap s)
      else clearOverrun temp s := by
  cases drv with
  | pelican => simp only [rxFull, decide_eq_true_iff]; rfl
  | basiccan => simp only [rxFull, decide_eq_true_iff]; rfl

omit [Bus σ] in
theorem serveTransmit_rx (send : CanFrame → σ → σ) (s : Served σ) :
    (serveTransmit send s).dev.rx = s.dev.rx := by
  unfold serveTransmit
  split <;> rfl

theorem clearOverrun_dev (temp : Byte) (s : Served σ) : (clearOverrun temp s).dev = s.dev := by
  unfold clearOverrun
  split <;> rfl

theorem clearOverrun_handed (temp : Byte) (s : Served σ) :
    (clearOverrun temp s).handed = s.handed := by
  unfold clearOverrun
  split <;> rfl

theorem clearOverrun_received (temp : Byte) (s : Served σ) :
    (clearOverrun temp s).received = s.received := by
  unfold clearOverrun
  split <;> rfl

omit [Bus σ] in
theorem serveReceive_tx (receive : CanFrame → σ → Received × σ) (wr : ℕ → ℕ) (s : Served σ) :
    (serveReceive receive wr s).dev.tx = s.dev.tx :=
  CanDev.storeAllPast_tx _ _ _ _

omit [Bus σ] in
theorem serveReceive_handed (receive : CanFrame → σ → Received × σ) (wr : ℕ → ℕ)
    (s : Served σ) : (serveReceive receive wr s).handed = s.handed := rfl

omit [Bus σ] in
theorem serveReceive_buf (receive : CanFrame → σ → Received × σ) (wr : ℕ → ℕ) (s : Served σ)
    (h : s.dev.rxIn + 1 < bufferSize) : ∃ rxBuf, (serveReceive receive wr s).dev =
      {s.dev with rxBuf := rxBuf, rxCount := s.dev.rxCount + 1, rxIn := wr (s.dev.rxIn + 1)} := by
  unfold serveReceive
  dsimp only
  obtain ⟨rxBuf, heq⟩ := CanDev.storeAllPast_buf {s.dev with
    rxCount := s.dev.rxCount + 1
    rxBuf := store s.dev.rxBuf s.dev.rxIn
      (receive (load s.dev.rxBuf s.dev.rxIn) s.bus).1.can} h 0
    (receive (load s.dev.rxBuf s.dev.rxIn) s.bus).1.overrun
  rw [heq]
  exact ⟨rxBuf, rfl⟩

theorem irqHandler_tx (drv : Driver) (d : CanDev) (c : σ) :
    (drv.irqHandler d c).dev.tx = (drv.afterTransmit d c).dev.tx ∧
    (drv.irqHandler d c).handed = (drv.afterTransmit d c).handed := by
  rw [irqHandler_eq]
  dsimp only
  split
  · split
    · exact ⟨rfl, rfl⟩
    · rw [clearOverrun_dev, clearOverrun_handed, serveReceive_tx, serveReceive_handed]
      trivial
  · rw [clearOverrun_dev, clearOverrun_handed]
    trivial

theorem afterTransmit_send (drv : Driver) (d : CanDev) (c : σ)
    (hti : (ioread8 sjaIntReg c).1 &&& ti ≠ 0) (hpos : 0 < d.txCount) :
    (drv.afterTransmit d c).dev.tx = d.tx.drop ∧
    (drv.afterTransmit d c).handed = [⟨load d.txBuf d.txOut, (ioread8 sjaIntReg c).2⟩] ∧
    (drv.afterTransmit d c).bus =
      drv.sendMessage (load d.txBuf d.txOut) (ioread8 sjaIntReg c).2 := by
  have hserve : drv.afterTransmit d c =
      serveTransmit drv.sendMessage ⟨d, (ioread8 sjaIntReg c).2, [], []⟩ := if_pos hti
  rw [hserve, serveTransmit, if_pos hpos]
  exact ⟨rfl, rfl, rfl⟩

theorem afterTransmit_idle (drv : Driver) (d : CanDev) (c : σ)
    (h : ¬ ((ioread8 sjaIntReg c).1 &&& ti ≠ 0 ∧ 0 < d.txCount)) :
    drv.afterTransmit d c = ⟨d, (ioread8 sjaIntReg c).2, [], []⟩ := by
  unfold afterTransmit serveTransmit
  dsimp only
  split
  · rename_i hti
    rw [if_neg fun hpos => h ⟨hti, hpos⟩]
  · rfl

theorem irqHandler_tx_or (drv : Driver) (d : CanDev) (c : σ) :
    (drv.irqHandler d c).dev.tx = d.tx ∨
      0 < d.txCount ∧ (drv.irqHandler d c).dev.tx = d.tx.drop := by
  obtain ⟨htx, -⟩ := drv.irqHandler_tx d c
  by_cases h : (ioread8 sjaIntReg c).1 &&& ti ≠ 0 ∧ 0 < d.txCount
  · exact Or.inr ⟨h.2, htx.trans (drv.afterTransmit_send d c h.1 h.2).1⟩
  · left
    rw [htx, drv.afterTransmit_idle d c h]

@[simp] theorem afterTransmit_rx (drv : Driver) (d : CanDev) (c : σ) :
    (drv.afterTransmit d c).dev.rx = d.rx := by
  unfold afterTransmit
  dsimp only
  split
  · rw [serveTransmit_rx]
  · rfl

theorem afterTransmit_rxCount (drv : Driver) (d : CanDev) (c : σ) :
    (drv.afterTransmit d c).dev.rxCount = d.rxCount :=
  congrArg Ring.count (drv.afterTransmit_rx d c)

@[simp] theorem afterTransmit_received (drv : Driver) (d : CanDev) (c : σ) :
    (drv.afterTransmit d c).received = [] := by
  unfold afterTransmit serveTransmit
  dsimp only
  split
  · split <;> rfl
  · rfl

def incoming (drv : Driver) (d : CanDev) (c : σ) : Received :=
  (drv.rxHeader (drv.afterTransmit d c).bus).finish.1

theorem rxFull_iff (drv : Driver) {n : ℕ} (h : n ≤ bufferSize) :
    drv.rxFull n = true ↔ ¬ n < bufferSize := by
  cases drv <;> simp only [rxFull, decide_eq_true_iff] <;> omega

theorem wrap_succ (drv : Driver) {i : ℕ} (h : i < bufferSize) :
    drv.wrap (i + 1) = next bufferSize i := by
  cases drv with
  | pelican => rfl
  | basiccan => exact wrapGe_succ h

theorem irqHandler_serves (drv : Driver) (d : CanDev) (c : σ)
    (hri : (ioread8 sjaIntReg c).1 &&& ri ≠ 0) (hroom : d.rxCount < bufferSize) :
    drv.irqHandler d c = clearOverrun (ioread8 sjaIntReg c).1
      (serveReceive drv.receiveMessage drv.wrap (drv.afterTransmit d c)) := by
  have hfull : ¬ drv.rxFull (drv.afterTransmit d c).dev.rxCount = true := by
    rw [drv.afterTransmit_rxCount d c, drv.rxFull_iff hroom.le]
    exact not_not.mpr hroom
  rw [irqHandler_eq]
  dsimp only
  rw [if_pos hri, if_neg hfull]

theorem irqHandler_store (drv : Driver) (d : CanDev) (c : σ)
    (hri : (ioread8 sjaIntReg c).1 &&& ri ≠ 0) (hroom : d.rxCount < bufferSize) :
    (drv.irqHandler d c).received = [drv.incoming d c] ∧
    (d.rxIn < bufferSize → (drv.incoming d c).overrun = [] →
      (drv.irqHandler d c).dev.rx = (d.rx.stage (drv.incoming d c).can).commit) := by
  rw [drv.irqHandler_serves d c hri hroom, clearOverrun_received, clearOverrun_dev]
  constructor
  · simp only [serveReceive, receiveMessage_split, afterTransmit_received, List.nil_append]
    rfl
  · intro hin hover
    have hrx := drv.afterTransmit_rx d c
    have hcount := drv.afterTransmit_rxCount d c
    have htail : (drv.afterTransmit d c).dev.rxIn = d.rxIn := congrArg Ring.tail hrx
    have hbuf : (drv.afterTransmit d c).dev.rxBuf = d.rxBuf := congrArg Ring.buf hrx
    have hhead : (drv.afterTransmit d c).dev.rxOut = d.rxOut := congrArg Ring.head hrx
    have hcan : (drv.rxHeader (drv.afterTransmit d c).bus).finish.1.overrun = [] := hover
    simp only [serveReceive, receiveMessage_split, hcan, CanDev.storeAllPast, CanDev.rx,
      Ring.stage, Ring.commit, hcount, htail, hbuf, hhead, drv.wrap_succ hin]
    rfl

/-- A frame of any length that does not go to the last slot leaves the indices in order. -/
theorem irqHandler_consistent (drv : Driver) (d : CanDev) (c : σ) (hc : d.rx.Consistent)
    (hlast : d.rxIn + 1 < bufferSize) (hri : (ioread8 sjaIntReg c).1 &&& ri ≠ 0)
    (hroom : d.rxCount < bufferSize) : (drv.irqHandler d c).dev.rx.Consistent := by
  have hrx := drv.afterTransmit_rx d c
  have htail : (drv.afterTransmit d c).dev.rxIn = d.rxIn := congrArg Ring.tail hrx
  have hhead : (drv.afterTransmit d c).dev.rxOut = d.rxOut := congrArg Ring.head hrx
  have hwrap : drv.wrap (d.rxIn + 1) = next bufferSize d.rxIn := drv.wrap_succ hc.tail_lt
  obtain ⟨rxBuf, hdev⟩ := serveReceive_buf drv.receiveMessage drv.wrap (drv.afterTransmit d c)
    (by rw [htail]; exact hlast)
  rw [drv.irqHandler_serves d c hri hroom, clearOverrun_dev, hdev, drv.afterTransmit_rxCount d c,
    htail, hwrap]
  have hcommit := Ring.commit_consistent (Ring.stage_consistent hc CanFrame.zero) hroom
  refine ⟨hcommit.count_le, hcommit.tail_lt, hhead.trans_lt hc.head_lt, ?_⟩
  show next bufferSize d.rxIn = ((drv.afterTransmit d c).dev.rxOut + (d.rxCount + 1)) % bufferSize
  rw [hhead]
  exact hcommit.tail_eq

theorem irqHandler_ignore (drv : Driver) (d : CanDev) (c : σ) (hle : d.rxCount ≤ bufferSize)
    (h : ¬ ((ioread8 sjaIntReg c).1 &&& ri ≠ 0 ∧ d.rxCount < bufferSize)) :
    (drv.irqHandler d c).received = [] ∧ (drv.irqHandler d c).dev.rx = d.rx := by
  have hrx := drv.afterTransmit_rx d c
  rw [irqHandler_eq]
  dsimp only
  split
  · rename_i hri
    have hfull : drv.rxFull (drv.afterTransmit d c).dev.rxCount = true := by
      rw [drv.afterTransmit_rxCount d c, drv.rxFull_iff hle]
      exact fun hroom => h ⟨hri, hroom⟩
    rw [if_pos hfull]
    exact ⟨drv.afterTransmit_received d c, hrx⟩
  · rw [clearOverrun_received, clearOverrun_dev]
    exact ⟨drv.afterTransmit_received d c, hrx⟩

/-- What reads, a release of the receive buffer and an overrun clear preserve, the
handler preserves from the end of its transmit branch on. -/
theorem irqHandler_rule (drv : Driver) {P : σ → Prop} (d : CanDev) (c : σ)
    (hread : ∀ reg c, P c → P (ioread8 reg c).2)
    (hrelease : ∀ c, P c → P (iowrite8 0x04 sjaCommandReg c))
    (hclear : ∀ c, P c → P (iowrite8 cdo sjaCommandReg c))
    (h : P (drv.afterTransmit d c).bus) : P (drv.irqHandler d c).bus := by
  have hdrop : ∀ c, P c → P (drv.dropFrame c) := by
    cases drv with
    | pelican => exact fun c hc => hc
    | basiccan => exact hrelease
  have hheader : ∀ c, P c → P (drv.rxHeader c).bus := by
    intro c hc
    cases drv with
    | pelican =>
      simp only [rxHeader, Pelican.rxHeader]
      split
      · exact hread _ _ (hread _ _ (hread _ _ (hread _ _ (hread _ _ hc))))
      · exact hread _ _ (hread _ _ (hread _ _ hc))
    | basiccan => exact hread _ _ (hread _ _ hc)
  have hreceive : ∀ can c, P c → P (drv.receiveMessage can c).2 := by
    intro can c hc
    rw [receiveMessage_split]
    exact hrelease _ (readData_invariant hread _ _ _ _ _ (hheader c hc))
  have hoverrun : ∀ (temp : Byte) (s : Served σ), P s.bus → P (clearOverrun temp s).bus := by
    intro temp s hs
    unfold clearOverrun
    split
    · exact hclear _ hs
    · exact hs
  rw [irqHandler_eq]
  dsimp only
  split
  · split
    · exact hdrop _ h
    · exact hoverrun _ _ (hreceive _ _ h)
  · exact hoverrun _ _ h

/-- What follows the transmit branch: reads, releases of the receive buffer and overrun
clears. None of them asks for a transmission. -/
inductive Receiving : σ → σ → Prop
  | start (c) : Receiving c c
  | read {c c'} (reg) (h : Receiving c c') : Receiving c (ioread8 reg c').2
  | release {c c'} (h : Receiving c c') : Receiving c (iowrite8 0x04 sjaCommandReg c')
  | clear {c c'} (h : Receiving c c') : Receiving c (iowrite8 cdo sjaCommandReg c')

theorem irqHandler_receiving (drv : Driver) (d : CanDev) (c : σ) :
    Receiving (drv.afterTransmit d c).bus (drv.irqHandler d c).bus :=
  drv.irqHandler_rule (P := Receiving (drv.afterTransmit d c).bus) d c (fun reg _ h => h.read reg)
    (fun _ h => h.release) (fun _ h => h.clear) (.start _)

theorem finish_over_iff (h : RxHeader σ) : h.finish.1.overrun = [] ↔ h.canDlc.toNat ≤ 8 := by
  have hlen := readData_over h.canDlc.toNat 0 h.index h.slot h.bus (by omega)
  have hnil : h.slot.overrun.length = 0 := rfl
  rw [← List.length_eq_zero_iff]
  show (readData h.canDlc.toNat 0 h.index h.slot h.bus).1.overrun.length = 0 ↔ _
  omega

theorem finish_header (h : RxHeader σ) : h.finish.1.can.canId = h.canId ∧
    h.finish.1.can.canDlc = h.canDlc ∧ h.finish.1.can.pad = CanFrame.zero.pad :=
  readData_header h.canDlc.toNat 0 h.index h.slot h.bus

theorem finish_tail (h : RxHeader σ) : h.finish.1.can.TailZero := by
  intro i _ hle
  rw [(finish_header h).2.1] at hle
  show load (readData h.canDlc.toNat 0 h.index h.slot h.bus).1.can.data i = 0
  rw [readData_frame _ _ _ _ _ _ (Or.inr (by omega))]
  exact load_replicate 8 i

theorem incoming_over_iff (drv : Driver) (d : CanDev) (c : σ) :
    (drv.incoming d c).overrun = [] ↔ (drv.incoming d c).can.canDlc.toNat ≤ 8 := by
  rw [incoming, finish_over_iff, (finish_header _).2.1]

end Driver
end CanPci
