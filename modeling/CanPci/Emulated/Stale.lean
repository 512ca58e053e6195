import CanPci.Emulated.Delivery
import CanPci.Emulated.Registers
import Mathlib.Data.List.Forall2

/-!
# Emitted frames and the uninitialised local frame

`can_mem_write` decodes into a local `struct can_frame` that nothing clears. Two runs of
the same guest may find different bytes there.
-/

namespace CanPci.Emulated
open RingFifo Machine TestDriver

def Access.holding (can : CanFrame) : Access → Access
  | .read addr => .read addr
  | .write addr val _ => .write addr val can

/-- The same guest access, whatever the local frame holds. -/
def SameGuest (a b : Access) : Prop := b = a.holding b.held

/-- The frames passed to the backend, without their padding. -/
def emitted (s : CanState) (accesses : List Access) : List CanFrame :=
  (run access s accesses).2.filterMap payload

def RemoteRequest (s : CanState) (a : Access) : Prop :=
  a.Requests → load s.trxBuff 0 &&& 0x40#8 ≠ 0

theorem holding_state (s : CanState) (can : CanFrame) (a : Access) :
    (access s (a.holding can)).1 = (access s a).1 := by
  cases a with
  | read addr => rfl
  | write addr val can' => simp only [Access.holding, access, canMemWrite, apply_ite Prod.fst]

theorem holding_requests (can : CanFrame) (a : Access) : (a.holding can).Requests ↔ a.Requests := by
  cases a <;> exact Iff.rfl

theorem same_holding (can : CanFrame) (guest : List Access) :
    List.Forall₂ SameGuest guest (guest.map (Access.holding can)) := by
  rw [List.forall₂_map_right_iff, List.forall₂_same]
  intro a _
  cases a <;> rfl

theorem access_payload (s : CanState) (a : Access) : (access s a).2.filterMap payload =
    if a.Requests then [(buff2frame s.trxBuff a.held).1.clearPad] else [] := by
  rw [filterMap_payload, (access_sends s a).2]
  split <;> rfl

theorem emitted_cons (s : CanState) (a : Access) (as : List Access) : emitted s (a :: as) =
    (access s a).2.filterMap payload ++ emitted (access s a).1 as := by
  rw [emitted, run, List.filterMap_append]
  rfl

theorem buff2frame_payload (buff : Vector Byte 13) (can can' : CanFrame) :
    (buff2frame buff can).1.clearPad = (buff2frame buff can').1.clearPad ↔
      decodedId buff can.canId = decodedId buff can'.canId := by
  rw [← buff2frame_canId buff can, ← buff2frame_canId buff can']
  constructor
  · intro h
    have hid := congrArg CanFrame.canId h
    exact hid
  · intro h
    refine CanFrame.ext h ?_ rfl ?_
    · exact (buff2frame_canDlc buff can).trans (buff2frame_canDlc buff can').symm
    · apply load_ext
      intro j hj
      exact (buff2frame_data buff can hj).trans (buff2frame_data buff can' hj).symm

/-- No byte of the buffer reaches bit 29 of the identifier word. -/
theorem decodedId_error_bit (buff : Vector Byte 13) (id : CanId)
    (h : load buff 0 &&& 0x40#8 = 0) : (decodedId buff id).getLsbD 29 = id.getLsbD 29 := by
  have hbit : (1#32 <<< 31).getLsbD 29 = false := by decide
  unfold decodedId
  rw [if_neg (not_not.mpr h)]
  split
  · simp only [BitVec.getLsbD_or, promote, BitVec.getLsbD_shiftLeft, BitVec.getLsbD_ushiftRight,
      BitVec.getLsbD_setWidth, hbit]
    simp
  · simp only [BitVec.getLsbD_or, promote, BitVec.getLsbD_shiftLeft, BitVec.getLsbD_ushiftRight,
      BitVec.getLsbD_setWidth]
    simp

theorem decodedId_fresh_iff (buff : Vector Byte 13) :
    (∀ id id', decodedId buff id = decodedId buff id') ↔ load buff 0 &&& 0x40#8 ≠ 0 := by
  constructor
  · intro h hrtr
    have hbit := congrArg (BitVec.getLsbD · 29) (h 0 (1#32 <<< 29))
    simp only [decodedId_error_bit buff _ hrtr] at hbit
    exact absurd hbit (by decide)
  · intro h id id'
    unfold decodedId
    rw [if_pos h, if_pos h]

theorem emitted_same {s : CanState} {guest as bs : List Access}
    (hremote : Along access RemoteRequest s guest) (has : List.Forall₂ SameGuest guest as)
    (hbs : List.Forall₂ SameGuest guest bs) : emitted s as = emitted s bs := by
  induction has generalizing s bs with
  | nil =>
    cases hbs
    rfl
  | @cons g a guest as hga _ ih =>
    cases hbs with
    | @cons _ b _ bs hgb htail =>
      have hstate : ∀ x, SameGuest g x → (access s x).1 = (access s g).1 := by
        intro x hx
        rw [hx, holding_state]
      have hreq : ∀ x, SameGuest g x → (x.Requests ↔ g.Requests) := by
        intro x hx
        rw [hx, holding_requests]
      rw [emitted_cons, emitted_cons, hstate a hga, hstate b hgb, ih hremote.2 htail,
        access_payload, access_payload]
      by_cases h : g.Requests
      · have hframe := (buff2frame_payload s.trxBuff a.held b.held).mpr
          ((decodedId_fresh_iff _).mpr (hremote.1 h) _ _)
        rw [if_pos ((hreq a hga).mpr h), if_pos ((hreq b hgb).mpr h), hframe]
      · rw [if_neg (h ∘ (hreq a hga).mp), if_neg (h ∘ (hreq b hgb).mp)]

def idFrame (id : CanId) : CanFrame := {CanFrame.zero with canId := id}

theorem remote_of_same {s : CanState} {guest : List Access}
    (h : ∀ id id', emitted s (guest.map (Access.holding (idFrame id))) =
      emitted s (guest.map (Access.holding (idFrame id')))) :
    Along access RemoteRequest s guest := by
  induction guest generalizing s with
  | nil => trivial
  | cons g guest ih =>
    have hcons : ∀ id, emitted s ((g :: guest).map (Access.holding (idFrame id))) =
        (access s (g.holding (idFrame id))).2.filterMap payload ++
          emitted (access s g).1 (guest.map (Access.holding (idFrame id))) := by
      intro id
      rw [List.map_cons, emitted_cons, holding_state]
    have hlen : ∀ id, ((access s (g.holding (idFrame id))).2.filterMap payload).length =
        if g.Requests then 1 else 0 := by
      intro id
      rw [access_payload]
      simp only [holding_requests]
      split <;> rfl
    have hsplit := fun id id' => List.append_inj
      ((hcons id).symm.trans ((h id id').trans (hcons id'))) ((hlen id).trans (hlen id').symm)
    refine ⟨?_, ih fun id id' => (hsplit id id').2⟩
    intro hreq
    rw [← decodedId_fresh_iff]
    intro id id'
    have hframe : ∀ id, (access s (g.holding (idFrame id))).2.filterMap payload =
        [(buff2frame s.trxBuff (idFrame id)).1.clearPad] := by
      intro id
      rw [access_payload, if_pos ((holding_requests _ g).mpr hreq)]
      cases g with
      | read addr => exact hreq.elim
      | write addr val can => rfl
    have hhead := (hsplit id id').1
    rw [hframe, hframe] at hhead
    have hdecoded := (buff2frame_payload s.trxBuff (idFrame id) (idFrame id')).mp
      (List.cons.inj hhead).1
    exact hdecoded

/-- The frames of every two runs of the guest agree exactly when every request is made
for a remote frame. -/
theorem frames_independent_iff (guest : List Access) :
    (∀ as bs, List.Forall₂ SameGuest guest as → List.Forall₂ SameGuest guest bs →
      emitted CanState.init as = emitted CanState.init bs) ↔
    Along access RemoteRequest CanState.init guest := by
  constructor
  · intro h
    exact remote_of_same fun id id' => h _ _ (same_holding _ guest) (same_holding _ guest)
  · intro hremote as bs has hbs
    exact emitted_same hremote has hbs

/-- The guest sends the data frame 0x123. With bit 29 left over in the local frame the
backend is given an error frame. -/
def staleGuest : List Access :=
  [.write 0 0x00 CanFrame.zero, .write 17 0x24 CanFrame.zero, .write 18 0x60 CanFrame.zero,
    .write 1 0x01 CanFrame.zero]

theorem stale_identifier :
    let stale := staleGuest.map (Access.holding (idFrame 0x20000000))
    Along access ShortRequest CanState.init staleGuest ∧
    List.Forall₂ SameGuest staleGuest staleGuest ∧ List.Forall₂ SameGuest staleGuest stale ∧
    emitted CanState.init staleGuest = [idFrame 0x123] ∧
    emitted CanState.init stale = [idFrame 0x20000123] ∧
    emitted CanState.init staleGuest ≠ emitted CanState.init stale := by
  have hclean : emitted CanState.init staleGuest = [idFrame 0x123] := by decide +kernel
  have hstale : emitted CanState.init (staleGuest.map (Access.holding (idFrame 0x20000000))) =
      [idFrame 0x20000123] := by decide +kernel
  refine ⟨by decide, same_holding CanFrame.zero staleGuest, same_holding _ staleGuest, hclean,
    hstale, ?_⟩
  rw [hclean, hstale]
  decide

end CanPci.Emulated
