import CanPci.Access
import CanPci.RxRing

/-!
# Register reads and stores on the receive path
-/

namespace CanPci
open RingFifo Transition

namespace Driver

theorem rxHeader_reads (drv : Driver) (c : Recorder) :
    ∃ hs, (drv.rxHeader c).bus.reads = c.reads ++ hs ∧ ∀ r ∈ hs, drv.InRxWindow r := by
  cases drv with
  | pelican =>
    simp only [rxHeader, Pelican.rxHeader]
    split
    · exact ⟨[16, 17, 18, 19, 20], by simp, by decide⟩
    · exact ⟨[16, 17, 18], by simp, by decide⟩
  | basiccan => exact ⟨[20, 21], by simp [rxHeader, Basiccan.rxHeader], by decide⟩

theorem receiveMessage_reads (drv : Driver) (can : CanFrame) (c : Recorder)
    (h : (drv.dlcNibble c).toNat ≤ 8) :
    ∃ rs, (drv.receiveMessage can c).2.reads = c.reads ++ rs ∧ ∀ r ∈ rs, drv.InRxWindow r := by
  obtain ⟨hs, hreads, hhead⟩ := drv.rxHeader_reads c
  rw [← rxHeader_canDlc] at h
  refine ⟨hs ++ (List.range (drv.rxHeader c).canDlc.toNat).map
    (fun k => (drv.rxHeader c).index + BitVec.ofNat 8 k), ?_, ?_⟩
  · rw [receiveMessage_split]
    simp only [RxHeader.finish, Recorder.iowrite8_eq, Recorder.readData_reads, hreads,
      List.append_assoc]
  · intro r hr
    rcases List.mem_append.mp hr with hr | hr
    · exact hhead r hr
    · obtain ⟨k, hk, rfl⟩ := List.mem_map.mp hr
      have := List.mem_range.mp hk
      exact drv.rxHeader_window c k (by omega)

theorem afterTransmit_reads (drv : Driver) (d : CanDev) (reply past : ℕ → Byte) :
    (drv.afterTransmit d (Recorder.start reply past)).bus.reads = [sjaIntReg] ∧
    (drv.afterTransmit d (Recorder.start reply past)).bus.reply = reply := by
  unfold afterTransmit serveTransmit
  dsimp only
  split
  · split
    · exact Recorder.sendMessage_reads _ drv _
    · exact ⟨rfl, rfl⟩
  · exact ⟨rfl, rfl⟩

/-- The number of the answer that carries the length nibble in a handler run. -/
def dlcReply : Driver → ℕ
  | pelican => 1
  | basiccan => 2

theorem dlcNibble_reply (drv : Driver) (d : CanDev) (reply past : ℕ → Byte) :
    drv.dlcNibble (drv.afterTransmit d (Recorder.start reply past)).bus =
      reply drv.dlcReply &&& 0x0f#8 := by
  obtain ⟨hreads, hreply⟩ := drv.afterTransmit_reads d reply past
  cases drv with
  | pelican => simp [dlcNibble, dlcReply, hreads, hreply]
  | basiccan => simp [dlcNibble, dlcReply, hreads, hreply]

theorem irqHandler_reads (drv : Driver) (d : CanDev) (reply past : ℕ → Byte)
    (hfit : drv.FitsSlot d (Recorder.start reply past)) (hle : d.rxCount ≤ bufferSize) :
    ∃ rs, (drv.irqHandler d (Recorder.start reply past)).bus.reads = sjaIntReg :: rs ∧
      ∀ r ∈ rs, drv.InRxWindow r := by
  obtain ⟨hreads, -⟩ := drv.afterTransmit_reads d reply past
  have hclear : ∀ (temp : Byte) (s : Served Recorder),
      (clearOverrun temp s).bus.reads = s.bus.reads := by
    intro temp s
    unfold clearOverrun
    split <;> rfl
  have hdrop : ∀ c : Recorder, (drv.dropFrame c).reads = c.reads := by
    intro c
    cases drv <;> rfl
  rw [irqHandler_eq]
  dsimp only
  split
  · rename_i hri
    split
    · exact ⟨[], (hdrop _).trans hreads, fun r hr => by cases hr⟩
    · rename_i hroom
      rw [drv.afterTransmit_rxCount d _, drv.rxFull_iff hle, not_not] at hroom
      obtain ⟨rs, hrs, hwin⟩ := drv.receiveMessage_reads
        (load (drv.afterTransmit d (Recorder.start reply past)).dev.rxBuf
          (drv.afterTransmit d (Recorder.start reply past)).dev.rxIn) _ (hfit hri hroom)
      refine ⟨rs, ?_, hwin⟩
      rw [hclear]
      rw [hreads] at hrs
      exact hrs
  · exact ⟨[], (hclear _ _).trans hreads, fun r hr => by cases hr⟩

/-- The run read nothing but the interrupt register and the receive window, no store
passed the end of a data array, and of the receive ring only the slot under `rx_in`
and the counters moved, these by the ring update. -/
structure RxSafe (drv : Driver) (d : CanDev) (out : Served Recorder) : Prop where
  reads : ∃ rs, out.bus.reads = sjaIntReg :: rs ∧ ∀ r ∈ rs, drv.InRxWindow r
  inRange : ∀ r ∈ out.received, r.overrun = []
  slots : ∀ k, k ≠ d.rxIn → load out.dev.rxBuf k = load d.rxBuf k
  indices : (out.received = [] ∧ out.dev.rx = d.rx) ∨
    (out.received.length = 1 ∧ out.dev.rxCount = d.rxCount + 1 ∧
      out.dev.rxIn = next bufferSize d.rxIn ∧ out.dev.rxOut = d.rxOut)

theorem rxSafe_iff (drv : Driver) (d : CanDev) (hc : d.rx.Consistent) (reply past : ℕ → Byte) :
    drv.RxSafe d (drv.irqHandler d (Recorder.start reply past)) ↔
      (reply 0 &&& ri ≠ 0 → d.rxCount < bufferSize →
        (reply drv.dlcReply &&& 0x0f#8).toNat ≤ 8) := by
  have hfits : drv.FitsSlot d (Recorder.start reply past) ↔
      (reply 0 &&& ri ≠ 0 → d.rxCount < bufferSize →
        (reply drv.dlcReply &&& 0x0f#8).toNat ≤ 8) := by
    rw [FitsSlot, dlcNibble_reply]
    rfl
  rw [← hfits]
  constructor
  · intro hsafe hri hroom
    obtain ⟨hrec, -⟩ := drv.irqHandler_store d (Recorder.start reply past) hri hroom
    have hmem := List.mem_singleton_self (drv.incoming d (Recorder.start reply past))
    rw [← hrec] at hmem
    exact (drv.incoming_over d _).mp (hsafe.inRange _ hmem)
  · intro hfit
    have hreads := drv.irqHandler_reads d reply past hfit hc.count_le
    cases drv.irqHandler_rx d (Recorder.start reply past) hc.count_le hc.tail_lt hfit with
    | stored int room can dlc tail pad received rx =>
      refine ⟨hreads, ?_, ?_, Or.inr ⟨?_, congrArg Ring.count rx, congrArg Ring.tail rx,
        congrArg Ring.head rx⟩⟩
      · intro r hr
        rw [received] at hr
        rw [List.mem_singleton.mp hr]
      · intro k hk
        have hbuf : (drv.irqHandler d (Recorder.start reply past)).dev.rxBuf =
            store d.rxBuf d.rxIn can := congrArg Ring.buf rx
        rw [hbuf]
        exact load_store_ne _ _ hk.symm
      · rw [received]
        rfl
    | ignored why received rx =>
      refine ⟨hreads, ?_, ?_, Or.inl ⟨received, rx⟩⟩
      · intro r hr
        rw [received] at hr
        cases hr
      · intro k _
        exact congrArg (load · k) (congrArg Ring.buf rx)

end Driver

variable {σ : Type} [Bus σ]

/-- Over runs whose handler runs find a length of at most eight in every frame they
store, the ring stays consistent, and in each state reached a handler run is safe
exactly when it finds such a length too. -/
theorem receive_safe_iff (drv : Driver) (env : σ → σ → Prop) {s t : Sys σ} {ops : List Op}
    (hs : s.Opened) (hrun : Run (Guarded (Step drv env) (Fits drv)) s ops t) :
    t.dev.rx.Consistent ∧ ∀ reply past : ℕ → Byte,
      drv.RxSafe t.dev (drv.irqHandler t.dev (Recorder.start reply past)) ↔
        (reply 0 &&& ri ≠ 0 → t.dev.rxCount < bufferSize →
          (reply drv.dlcReply &&& 0x0f#8).toNat ≤ 8) := by
  have ht := run_rx_consistent hrun hs.rx.1
  exact ⟨ht, fun reply past => drv.rxSafe_iff t.dev ht reply past⟩

/-- A frame of five bytes comes after the two that wait. -/
theorem receive_safe_sample :
    let t := (Machine.run (Sys.execute .pelican RegFile.turn) Sys.showing sampleArrivals).1
    let wire := Recorder.start (fun k => [0x05, 0x05, 0x24, 0x60, 1, 2, 3, 4, 5].getD k 0) (fun _ => 0)
    t.dev.rx.Consistent ∧ t.dev.rxCount = 2 ∧
      Driver.pelican.RxSafe t.dev (Driver.pelican.irqHandler t.dev wire) := by
  intro t wire
  have hrun : Run (Guarded (Step .pelican fun _ _ => True) (Fits .pelican)) Sys.showing
      sampleArrivals t :=
    Run.of_machine execute_guarded (by decide +kernel)
  obtain ⟨hc, hsafe⟩ := receive_safe_iff .pelican (fun _ _ => True) showing_opened hrun
  exact ⟨hc, by decide +kernel, (hsafe _ _).mpr fun _ _ => by decide⟩

theorem nine_unsafe (drv : Driver) {d : CanDev} (hc : d.rx.Consistent) (hcount : d.rxCount = 0) :
    ¬ drv.RxSafe d (drv.irqHandler d (Recorder.start (fun _ => 0x09) (fun _ => 0))) := by
  rw [drv.rxSafe_iff _ hc, hcount]
  intro h
  exact absurd (h (by decide) (by decide)) (by decide)

/-- A received frame that announces nine bytes: right after `device_open` the ninth
changes the next slot, and from the last slot it replaces the low byte of `rx_count`. -/
theorem receive_overflows :
    let wire := Recorder.start (fun _ => 0x09) (fun _ => 0)
    let d := resetRings .probed
    let last := {d with rxIn := 5, rxOut := 5}
    ((load (Driver.pelican.irqHandler d wire).dev.rxBuf 1).canId = 9 ∧
      ¬ Driver.pelican.RxSafe d (Driver.pelican.irqHandler d wire)) ∧
    ((load (Driver.basiccan.irqHandler d wire).dev.rxBuf 1).canId = 9 ∧
      ¬ Driver.basiccan.RxSafe d (Driver.basiccan.irqHandler d wire)) ∧
    (last.rx.Consistent ∧ (Driver.pelican.irqHandler last wire).dev.rxCount = 9 ∧
      (Driver.basiccan.irqHandler last wire).dev.rxCount = 9) :=
  ⟨⟨by decide +kernel, nine_unsafe .pelican (resetRings_rx _).1 rfl⟩,
    ⟨by decide +kernel, nine_unsafe .basiccan (resetRings_rx _).1 rfl⟩,
    ⟨by decide, by decide, by decide, by decide⟩, by decide +kernel, by decide +kernel⟩

end CanPci
