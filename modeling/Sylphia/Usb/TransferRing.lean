import Sylphia.Core.CycleRing
import Sylphia.Core.Run
import Sylphia.Usb.Xhci

/-!
# One transfer ring and its two sides

`SendNormalTRB` puts TRBs into the first 31 entries of a ring of 32 and rewrites the Link TRB
in the last entry at the end of each pass. The host controller takes a TRB when its cycle bit
is that of its own pass, and follows a Link TRB. Counting Link TRBs as items too, this is a
ring with a cycle bit.
-/

namespace Sylphia.Xhci

open Transition CycleRing

/-- The host controller's side of a transfer ring. -/
structure Consumer where
  /-- The cell of the TRB it looks at. -/
  cell : Nat
  /-- Its cycle state. -/
  ccs : BitVec 8
  taken : List TRB
  deriving DecidableEq, Repr

/-- The host controller takes the TRB it looks at if that is a new one: a Link TRB leads to
the address in it and may toggle the cycle state, any other is taken. -/
def Consumer.step (memory : Nat → TRB) (r : Consumer) : Consumer :=
  let trb := memory r.cell
  if trb.cycleBit = r.ccs.setWidth 32 then
    if trb.trbType = 6 then
      { r with
        cell := trb.parameter.toNat / 16
        ccs := if trb.control &&& 2 = 0 then r.ccs else r.ccs ^^^ 1 }
    else { r with cell := r.cell + 1, taken := r.taken ++ [trb] }
  else r

/-- The buffer of a TRB and its length. -/
def TRB.data (t : TRB) : BitVec 64 × BitVec 32 := (t.parameter, t.status)

/-- The driver and the host controller at one transfer ring. -/
structure EndpointSystem where
  controller : Controller
  consumer : Consumer

/-- A `SendNormalTRB`, or a step of the host controller. -/
inductive EndpointAction where
  | submit (dataBuf : BitVec 64) (len : BitVec 32)
  | consume
  deriving DecidableEq, Repr

namespace EndpointSystem

variable (slotId epAddr : BitVec 8)

/-- One step of either side. -/
def step (s : EndpointSystem) : EndpointAction → EndpointSystem
  | .submit dataBuf len =>
    { s with controller := (s.controller.sendNormalTRB slotId epAddr dataBuf len).2 }
  | .consume => { s with consumer := s.consumer.step s.controller.memory }

/-- The buffers and lengths of the submissions of a run that returned true, in their order. -/
def submissions : List (EndpointSystem × EndpointAction) → List (BitVec 64 × BitVec 32)
  | [] => []
  | (s, .submit dataBuf len) :: past =>
    submissions past ++
      if (s.controller.sendNormalTRB slotId epAddr dataBuf len).1 then [(dataBuf, len)] else []
  | (_, .consume) :: past => submissions past

/-- At most 30 submitted TRBs are not yet consumed, also after a submission. -/
def Bounded (past : List (EndpointSystem × EndpointAction)) :
    EndpointSystem × EndpointAction → Prop
  | (s, .submit _ _) => (submissions slotId epAddr past).length + 1 ≤ s.consumer.taken.length + 30
  | (_, .consume) => True

instance decidableBounded (past : List (EndpointSystem × EndpointAction)) :
    (x : EndpointSystem × EndpointAction) → Decidable (Bounded slotId epAddr past x)
  | (_, .submit _ _) => inferInstanceAs (Decidable (_ ≤ _))
  | (_, .consume) => inferInstanceAs (Decidable True)

/-- The ring as `ConfigureEndpoint` sets it up: zeroed and at a 64-bit address, with index 0
and cycle state 1 on both sides. -/
structure Fresh (s : EndpointSystem) : Prop where
  ring_ne : s.controller.transferRings slotId (addressToDCI epAddr) ≠ 0
  ring_lt : 16 * s.controller.transferRings slotId (addressToDCI epAddr) < 2 ^ 64
  zeroed : ∀ i < 32,
    s.controller.memory (s.controller.transferRings slotId (addressToDCI epAddr) + i) = TRB.zero
  index : s.controller.ringIndex slotId (addressToDCI epAddr) = 0
  cycle : s.controller.ringCycleState slotId (addressToDCI epAddr) = 1
  consumer : s.consumer = ⟨s.controller.transferRings slotId (addressToDCI epAddr), 1, []⟩

end EndpointSystem

/-! ## TRBs as items with a cycle bit -/

/-- The cycle bit of a TRB. -/
def TRB.bit (t : TRB) : Bool := t.control.getLsbD 0

/-- A cycle state register. -/
def stateOf (b : Bool) : BitVec 8 := if b then 1 else 0

/-- A TRB that is not a Link TRB. -/
def TRB.isItem (t : TRB) : Bool := t.trbType != 6

theorem TRB.cycleBit_eq_iff (t : TRB) (b : Bool) :
    t.cycleBit = (stateOf b).setWidth 32 ↔ t.bit = b := by
  unfold TRB.cycleBit TRB.bit
  rw [show (1 : BitVec 32) = 1#32 from rfl, BitVec.and_one_eq_setWidth_ofBool_getLsbD]
  generalize t.control.getLsbD 0 = x
  revert x b
  decide

theorem stateOf_not (b : Bool) : stateOf (!b) = stateOf b ^^^ 1 := by
  revert b
  decide

/-- The Link TRB that leads back to the cell `ring`. -/
structure TRB.LeadsTo (t : TRB) (ring : Nat) : Prop where
  kind : t.trbType = 6
  target : t.parameter = address ring
  toggles : t.control &&& 2 ≠ 0

/-- What was written to the ring at cell `ring` so far: every 32nd TRB is the Link TRB. -/
structure Written (ring : Nat) (written : List TRB) (memory : Nat → TRB) : Prop where
  holds : Holds TRB.bit 32 written fun i => memory (ring + i)
  item : ∀ k (hk : k < written.length), k % 32 ≠ 31 → written[k].trbType = 1
  link : ∀ k (hk : k < written.length), k % 32 = 31 → written[k].LeadsTo ring

namespace Written

variable {ring : Nat} {written : List TRB} {memory : Nat → TRB}

theorem push (h : Written ring written memory) {x : TRB}
    (hbit : x.bit = cycle 32 written.length)
    (hitem : written.length % 32 ≠ 31 → x.trbType = 1)
    (hlink : written.length % 32 = 31 → x.LeadsTo ring) :
    Written ring (written ++ [x]) (Function.update memory (ring + written.length % 32) x) := by
  have hview : (fun i => Function.update memory (ring + written.length % 32) x (ring + i)) =
      Function.update (fun i => memory (ring + i)) (written.length % 32) x := by
    funext i
    by_cases hi : i = written.length % 32
    · subst hi
      simp
    · simp [hi]
  refine ⟨?_, fun k hk hmod => ?_, fun k hk hmod => ?_⟩
  · rw [hview]
    exact h.holds.write hbit
  · rw [List.getElem_append]
    split
    · next hold => exact h.item k hold hmod
    · have hnew : k = written.length := by simp at hk; omega
      subst hnew
      simpa using hitem hmod
  · rw [List.getElem_append]
    split
    · next hold => exact h.link k hold hmod
    · have hnew : k = written.length := by simp at hk; omega
      subst hnew
      simpa using hlink hmod

/-- One TRB in 32 is a Link TRB. -/
theorem length_items (h : Written ring written memory) {k : Nat} (hk : k ≤ written.length) :
    ((written.take k).filter TRB.isItem).length = k - k / 32 := by
  induction k with
  | zero => simp
  | succ k ih =>
    have hlt : k < written.length := hk
    rw [List.take_succ_eq_append_getElem hlt, List.filter_append, List.length_append,
      ih (Nat.le_of_lt hlt)]
    by_cases hmod : k % 32 = 31
    · have hlink := (h.link k hlt hmod).kind
      have hno : [written[k]].filter TRB.isItem = [] := by simp [TRB.isItem, hlink]
      rw [hno]
      simp only [List.length_nil]
      omega
    · have hyes : [written[k]].filter TRB.isItem = [written[k]] := by
        simp [TRB.isItem, h.item k hlt hmod]
      rw [hyes]
      simp only [List.length_singleton]
      omega

end Written

namespace EndpointSystem

variable {slotId epAddr : BitVec 8} {s : EndpointSystem}
  {subs : List (BitVec 64 × BitVec 32)}

/-- What holds between the steps: `subs` were submitted, `written` is in the ring with the Link
TRBs among them, and the host controller has gone past `c` of these, at most one pass behind. -/
structure RingInv (slotId epAddr : BitVec 8) (subs : List (BitVec 64 × BitVec 32))
    (written : List TRB) (c : Nat) (s : EndpointSystem) : Prop where
  ring_ne : s.controller.transferRings slotId (addressToDCI epAddr) ≠ 0
  ring_lt : 16 * s.controller.transferRings slotId (addressToDCI epAddr) < 2 ^ 64
  ring : Written (s.controller.transferRings slotId (addressToDCI epAddr)) written
    s.controller.memory
  index : s.controller.ringIndex slotId (addressToDCI epAddr) = written.length % 32
  before_link : written.length % 32 ≠ 31
  cycle : s.controller.ringCycleState slotId (addressToDCI epAddr) =
    stateOf (CycleRing.cycle 32 written.length)
  submitted : (written.filter TRB.isItem).map TRB.data = subs
  cell : s.consumer.cell = s.controller.transferRings slotId (addressToDCI epAddr) + c % 32
  ccs : s.consumer.ccs = stateOf (CycleRing.cycle 32 c)
  taken : s.consumer.taken = (written.take c).filter TRB.isItem
  le : c ≤ written.length
  behind : written.length ≤ c + 32

theorem Fresh.inv (h : Fresh slotId epAddr s) : RingInv slotId epAddr [] [] 0 s where
  ring_ne := h.ring_ne
  ring_lt := h.ring_lt
  ring := ⟨.empty fun k hk => by rw [h.zeroed k hk]; rfl, nofun, nofun⟩
  index := h.index
  before_link := by decide
  cycle := h.cycle
  submitted := rfl
  cell := by rw [h.consumer]; rfl
  ccs := by rw [h.consumer]; rfl
  taken := by rw [h.consumer]; rfl
  le := Nat.le_refl 0
  behind := by decide

/-- The host controller goes past the next TRB, and takes it unless it is a Link TRB. -/
theorem RingInv.consume {written : List TRB} {c : Nat} (h : RingInv slotId epAddr subs written c s)
    (hc : c < written.length) :
    RingInv slotId epAddr subs written (c + 1) (s.step slotId epAddr .consume) := by
  obtain ⟨hstored, hbit⟩ := h.ring.holds.get hc h.behind
  have hlook : s.controller.memory s.consumer.cell = written[c] := by rw [h.cell]; exact hstored
  have hnew : written[c].cycleBit = s.consumer.ccs.setWidth 32 := by
    rw [h.ccs, TRB.cycleBit_eq_iff, ← hbit, ← hstored]
  have htake : written.take (c + 1) = written.take c ++ [written[c]] :=
    List.take_succ_eq_append_getElem hc
  by_cases hmod : c % 32 = 31
  · have hlink := h.ring.link c hc hmod
    have hstep : s.consumer.step s.controller.memory =
        { s.consumer with
          cell := s.controller.transferRings slotId (addressToDCI epAddr)
          ccs := s.consumer.ccs ^^^ 1 } := by
      unfold Consumer.step
      dsimp only
      rw [hlook, if_pos hnew, if_pos hlink.kind, if_neg hlink.toggles, hlink.target, address,
        BitVec.toNat_ofNat, Nat.mod_eq_of_lt h.ring_lt, Nat.mul_div_cancel_left _ (by decide)]
    have hcycle : CycleRing.cycle 32 (c + 1) = !CycleRing.cycle 32 c := by
      rw [← cycle_add_size (by decide), CycleRing.cycle, CycleRing.cycle,
        show (c + 1) / 32 = (c + 32) / 32 by omega]
    refine { h with cell := ?_, ccs := ?_, taken := ?_, le := hc, behind := ?_ }
    · rw [step, hstep]
      dsimp only
      omega
    · rw [step, hstep]
      dsimp only
      rw [hcycle, stateOf_not, h.ccs]
    · have hno : [written[c]].filter TRB.isItem = [] := by simp [TRB.isItem, hlink.kind]
      rw [step, hstep, htake, List.filter_append, hno, List.append_nil]
      exact h.taken
    · have hbehind := h.behind
      omega
  · have hitem := h.ring.item c hc hmod
    have hstep : s.consumer.step s.controller.memory =
        { s.consumer with
          cell := s.consumer.cell + 1, taken := s.consumer.taken ++ [written[c]] } := by
      unfold Consumer.step
      dsimp only
      rw [hlook, if_pos hnew, if_neg (by rw [hitem]; decide)]
    refine { h with cell := ?_, ccs := ?_, taken := ?_, le := hc, behind := ?_ }
    · rw [step, hstep]
      dsimp only
      rw [h.cell]
      omega
    · rw [step, hstep]
      dsimp only
      rw [h.ccs, CycleRing.cycle, CycleRing.cycle, show (c + 1) / 32 = c / 32 by omega]
    · have hyes : [written[c]].filter TRB.isItem = [written[c]] := by
        simp [TRB.isItem, hitem]
      rw [step, hstep, htake, List.filter_append, hyes, ← h.taken]
    · have hbehind := h.behind
      omega

/-- The host controller waits when it has gone past all TRBs. -/
theorem RingInv.blocked {written : List TRB}
    (h : RingInv slotId epAddr subs written written.length s) :
    s.step slotId epAddr .consume = s := by
  have hstale := h.ring.holds.stale (by decide)
  have hold : ¬ (s.controller.memory s.consumer.cell).cycleBit =
      s.consumer.ccs.setWidth 32 := by
    rw [h.ccs, TRB.cycleBit_eq_iff, h.cell]
    exact hstale
  have hstep : s.consumer.step s.controller.memory = s.consumer := by
    unfold Consumer.step
    exact if_neg hold
  rw [step, hstep]

theorem normalTRB_bit (b : Bool) (dataBuf : BitVec 64) (len : BitVec 32) :
    (Controller.normalTRB (stateOf b) dataBuf len).bit = b := by
  unfold TRB.bit Controller.normalTRB
  dsimp only
  revert b
  decide

theorem normalTRB_item (b : Bool) (dataBuf : BitVec 64) (len : BitVec 32) :
    (Controller.normalTRB (stateOf b) dataBuf len).trbType = 1 := by
  unfold TRB.trbType Controller.normalTRB
  dsimp only
  revert b
  decide

/-- The Link TRB that `SendNormalTRB` writes. -/
def linkTRB (ring : Nat) (pcs : BitVec 8) : TRB :=
  ⟨address ring, 0, (pcs.setWidth 32 &&& 1) ||| (6 <<< 10) ||| (1 <<< 1)⟩

theorem linkTRB_bit (ring : Nat) (b : Bool) : (linkTRB ring (stateOf b)).bit = b := by
  unfold TRB.bit linkTRB
  dsimp only
  revert b
  decide

theorem linkTRB_leadsTo (ring : Nat) (b : Bool) : (linkTRB ring (stateOf b)).LeadsTo ring := by
  refine ⟨?_, rfl, ?_⟩
  · unfold TRB.trbType linkTRB
    dsimp only
    revert b
    decide
  · unfold linkTRB
    dsimp only
    revert b
    decide

theorem filter_normalTRB (written : List TRB) (b : Bool) (dataBuf : BitVec 64) (len : BitVec 32) :
    (written ++ [Controller.normalTRB (stateOf b) dataBuf len]).filter TRB.isItem =
      written.filter TRB.isItem ++ [Controller.normalTRB (stateOf b) dataBuf len] := by
  have hyes : [Controller.normalTRB (stateOf b) dataBuf len].filter TRB.isItem =
      [Controller.normalTRB (stateOf b) dataBuf len] := by
    simp [TRB.isItem, normalTRB_item b dataBuf len]
  rw [List.filter_append, hyes]

theorem filter_linkTRB (written : List TRB) (ring : Nat) (b : Bool) :
    (written ++ [linkTRB ring (stateOf b)]).filter TRB.isItem = written.filter TRB.isItem := by
  have hdrop : [linkTRB ring (stateOf b)].filter TRB.isItem = [] := by
    simp [TRB.isItem, (linkTRB_leadsTo ring b).kind]
  rw [List.filter_append, hdrop, List.append_nil]

section Submit

variable {written : List TRB} {c : Nat} {dataBuf : BitVec 64} {len : BitVec 32}

/-- There is room for a TRB and a Link TRB behind it. -/
theorem RingInv.room (h : RingInv slotId epAddr subs written c s)
    (hb : subs.length + 1 ≤ s.consumer.taken.length + 30) :
    written.length - written.length / 32 + 1 ≤ c - c / 32 + 30 := by
  have hs := h.ring.length_items (Nat.le_refl written.length)
  have ht := h.ring.length_items h.le
  rw [List.take_length, ← List.length_map TRB.data, h.submitted] at hs
  rw [← h.taken] at ht
  omega

theorem RingInv.index_write (h : RingInv slotId epAddr subs written c s) (trb : TRB) :
    (s.controller.writeTransfer slotId (addressToDCI epAddr) trb).ringIndex slotId
      (addressToDCI epAddr) = written.length % 32 + 1 := by
  have hbefore := h.before_link
  simp only [Controller.writeTransfer, Function.update_self, h.index, next32]
  omega

/-- The TRB of a submission in the ring. -/
theorem RingInv.push_normal (h : RingInv slotId epAddr subs written c s) (dataBuf : BitVec 64)
    (len : BitVec 32) :
    Written (s.controller.transferRings slotId (addressToDCI epAddr))
      (written ++ [Controller.normalTRB (stateOf (CycleRing.cycle 32 written.length)) dataBuf len])
      (Function.update s.controller.memory
        (s.controller.transferRings slotId (addressToDCI epAddr) + written.length % 32)
        (Controller.normalTRB (stateOf (CycleRing.cycle 32 written.length)) dataBuf len)) :=
  h.ring.push (normalTRB_bit _ dataBuf len) (fun _ => normalTRB_item _ dataBuf len)
    fun hmod => absurd hmod h.before_link

/-- Within a pass a submission writes one TRB. -/
theorem RingInv.submit_within (h : RingInv slotId epAddr subs written c s)
    (hb : subs.length + 1 ≤ s.consumer.taken.length + 30) (hlast : written.length % 32 ≠ 30) :
    RingInv slotId epAddr (subs ++ [(dataBuf, len)])
      (written ++ [Controller.normalTRB (stateOf (CycleRing.cycle 32 written.length)) dataBuf len])
      c (s.step slotId epAddr (.submit dataBuf len)) := by
  have hroom := h.room hb
  have hbefore := h.before_link
  have hbehind := h.behind
  have hle := h.le
  have hsend : (s.controller.sendNormalTRB slotId epAddr dataBuf len).2 =
      s.controller.writeTransfer slotId (addressToDCI epAddr)
        (Controller.normalTRB (stateOf (CycleRing.cycle 32 written.length)) dataBuf len) := by
    unfold Controller.sendNormalTRB
    dsimp only
    rw [if_neg h.ring_ne, h.cycle]
    exact if_neg (by rw [h.index_write]; omega)
  rw [step, hsend]
  refine ⟨h.ring_ne, h.ring_lt, ?_, ?_, ?_, ?_, ?_, h.cell, h.ccs, ?_, ?_, ?_⟩
  · have hpush := h.push_normal dataBuf len
    rw [← h.index] at hpush
    exact hpush
  · rw [h.index_write, List.length_append, List.length_singleton]
    omega
  · rw [List.length_append, List.length_singleton]
    omega
  · have hsame : CycleRing.cycle 32 (written.length + 1) = CycleRing.cycle 32 written.length := by
      rw [CycleRing.cycle, CycleRing.cycle,
        show (written.length + 1) / 32 = written.length / 32 by omega]
    rw [List.length_append, List.length_singleton, hsame]
    exact h.cycle
  · rw [filter_normalTRB, List.map_append, h.submitted]
    rfl
  · rw [List.take_append_of_le_length h.le]
    exact h.taken
  · rw [List.length_append]
    omega
  · rw [List.length_append, List.length_singleton]
    omega

/-- At the end of a pass the Link TRB has the cycle bit of this pass, the state that of the
next. -/
theorem RingInv.submit_last (h : RingInv slotId epAddr subs written c s)
    (hb : subs.length + 1 ≤ s.consumer.taken.length + 30) (hlast : written.length % 32 = 30) :
    RingInv slotId epAddr (subs ++ [(dataBuf, len)])
      (written ++ [Controller.normalTRB (stateOf (CycleRing.cycle 32 written.length))
        dataBuf len] ++
        [linkTRB (s.controller.transferRings slotId (addressToDCI epAddr))
          (stateOf (CycleRing.cycle 32 written.length))])
      c (s.step slotId epAddr (.submit dataBuf len)) := by
  have hroom := h.room hb
  have hle := h.le
  set b := CycleRing.cycle 32 written.length with hbdef
  set trb := Controller.normalTRB (stateOf b) dataBuf len
  have hlength : (written ++ [trb]).length = written.length + 1 := by simp
  have hsame : CycleRing.cycle 32 (written ++ [trb]).length = b := by
    rw [hlength, CycleRing.cycle, hbdef, CycleRing.cycle,
      show (written.length + 1) / 32 = written.length / 32 by omega]
  have hsend : (s.controller.sendNormalTRB slotId epAddr dataBuf len).2 =
      (s.controller.writeTransfer slotId (addressToDCI epAddr) trb).writeLink slotId
        (addressToDCI epAddr) (stateOf b) := by
    unfold Controller.sendNormalTRB
    dsimp only
    rw [if_neg h.ring_ne, h.cycle]
    exact if_pos (by rw [h.index_write]; omega)
  rw [step, hsend]
  refine ⟨h.ring_ne, h.ring_lt, ?_, ?_, ?_, ?_, ?_, h.cell, h.ccs, ?_, ?_, ?_⟩
  · have hlink := (h.push_normal dataBuf len).push
      (x := linkTRB (s.controller.transferRings slotId (addressToDCI epAddr)) (stateOf b))
      (by rw [hsame]; exact linkTRB_bit _ b)
      (fun hmod => absurd (by rw [List.length_append, List.length_singleton]; omega) hmod)
      fun _ => linkTRB_leadsTo _ b
    rw [hlength, show (written.length + 1) % 32 = 31 by omega, ← h.index] at hlink
    exact hlink
  · rw [List.length_append, hlength, List.length_singleton]
    simp only [Controller.writeLink, Function.update_self]
    omega
  · rw [List.length_append, hlength, List.length_singleton]
    omega
  · have hflip : CycleRing.cycle 32 (written.length + 1 + 1) = !b := by
      rw [hbdef, ← cycle_add_size (by decide), CycleRing.cycle, CycleRing.cycle,
        show (written.length + 1 + 1) / 32 = (written.length + 32) / 32 by omega]
    rw [List.length_append, hlength, List.length_singleton, hflip, stateOf_not, ← h.cycle]
    simp only [Controller.writeLink, Function.update_self]
    rfl
  · rw [filter_linkTRB, filter_normalTRB, List.map_append, h.submitted]
    rfl
  · rw [List.append_assoc, List.take_append_of_le_length h.le]
    exact h.taken
  · rw [List.length_append, hlength]
    omega
  · rw [List.length_append, hlength, List.length_singleton]
    omega

/-- A submission returns true; it writes one TRB, and at the end of a pass the Link TRB behind
it. -/
theorem RingInv.submit (h : RingInv slotId epAddr subs written c s) (dataBuf : BitVec 64)
    (len : BitVec 32) (hb : subs.length + 1 ≤ s.consumer.taken.length + 30) :
    ∃ written', RingInv slotId epAddr (subs ++ [(dataBuf, len)]) written' c
      (s.step slotId epAddr (.submit dataBuf len)) := by
  by_cases hlast : written.length % 32 = 30
  · exact ⟨_, h.submit_last hb hlast⟩
  · exact ⟨_, h.submit_within hb hlast⟩

theorem RingInv.returns (h : RingInv slotId epAddr subs written c s) (dataBuf : BitVec 64)
    (len : BitVec 32) : (s.controller.sendNormalTRB slotId epAddr dataBuf len).1 = true := by
  unfold Controller.sendNormalTRB
  dsimp only
  rw [if_neg h.ring_ne]

end Submit

/-- What a run has submitted is in the ring or was taken. -/
theorem RingInv.step {past : List (EndpointSystem × EndpointAction)} {written : List TRB} {c : Nat}
    (h : RingInv slotId epAddr (submissions slotId epAddr past) written c s)
    {a : EndpointAction} (ha : Bounded slotId epAddr past (s, a)) :
    ∃ written' c', RingInv slotId epAddr (submissions slotId epAddr ((s, a) :: past)) written' c'
      (s.step slotId epAddr a) := by
  cases a with
  | submit dataBuf len =>
    obtain ⟨written', h'⟩ := h.submit dataBuf len ha
    refine ⟨written', c, ?_⟩
    rw [submissions, if_pos (h.returns dataBuf len)]
    exact h'
  | consume =>
    rcases Nat.lt_or_eq_of_le h.le with hc | rfl
    · exact ⟨written, c + 1, h.consume hc⟩
    · refine ⟨written, written.length, ?_⟩
      rw [h.blocked]
      exact h

section Taken

variable {written : List TRB} {c : Nat}

/-- What is taken are the first submissions, one less for each Link TRB passed. -/
theorem RingInv.taken_eq (h : RingInv slotId epAddr subs written c s) :
    s.consumer.taken.map TRB.data = subs.take (c - c / 32) := by
  have hprefix : (written.take c).filter TRB.isItem <+: written.filter TRB.isItem :=
    (List.take_prefix c written).filter _
  rw [h.taken, ← h.submitted]
  conv_lhs => rw [List.prefix_iff_eq_take.mp hprefix]
  rw [h.ring.length_items h.le, List.map_take]

/-- All that is taken are Normal TRBs. -/
theorem RingInv.normal (h : RingInv slotId epAddr subs written c s) :
    ∀ t ∈ s.consumer.taken, t.trbType = 1 := by
  intro t ht
  rw [h.taken, List.mem_filter] at ht
  obtain ⟨k, hk, rfl⟩ := List.mem_iff_getElem.mp (List.mem_of_mem_take ht.1)
  refine h.ring.item k hk fun hmod => ?_
  have hno : written[k].isItem = false := by simp [TRB.isItem, (h.ring.link k hk hmod).kind]
  rw [hno] at ht
  exact Bool.false_ne_true ht.2

/-- The submission after those taken is the next one taken, at the latest behind a Link TRB. -/
theorem RingInv.next (h : RingInv slotId epAddr subs written c s)
    (hne : s.consumer.taken.map TRB.data ≠ subs) :
    (s.step slotId epAddr .consume).consumer.taken.map TRB.data =
        subs.take (s.consumer.taken.length + 1) ∨
      ((s.step slotId epAddr .consume).step slotId epAddr .consume).consumer.taken.map TRB.data =
        subs.take (s.consumer.taken.length + 1) := by
  have hle := h.le
  have hs : subs.length = written.length - written.length / 32 := by
    rw [← h.submitted, List.length_map, ← h.ring.length_items (Nat.le_refl _), List.take_length]
  have ht : s.consumer.taken.length = c - c / 32 := by
    rw [h.taken, h.ring.length_items h.le]
  have hmore : c - c / 32 < written.length - written.length / 32 := by
    by_contra hno
    refine hne ?_
    rw [h.taken_eq, List.take_of_length_le (by omega)]
  have hfirst := h.consume (by omega)
  rw [ht]
  by_cases hmod : c % 32 = 31
  · right
    have htaken := (hfirst.consume (by omega)).taken_eq
    rw [show c + 1 + 1 - (c + 1 + 1) / 32 = c - c / 32 + 1 by omega] at htaken
    exact htaken
  · left
    have htaken := hfirst.taken_eq
    rw [show c + 1 - (c + 1) / 32 = c - c / 32 + 1 by omega] at htaken
    exact htaken

end Taken

/-- The runs from a ring as `ConfigureEndpoint` sets it up. -/
abbrev RingRun (slotId epAddr : BitVec 8) :
    List (EndpointSystem × EndpointAction) → EndpointSystem → Prop :=
  Run (EndpointSystem.step slotId epAddr) (fun _ _ => True) (Fresh slotId epAddr)

/-- In every run of submissions and steps of the host controller with at most 30 TRBs
outstanding, what is taken are Normal TRBs with the buffers and lengths submitted, in their order.
While some are outstanding, the next one submitted is the next one taken, at the latest by the step
after a Link TRB; and no submission fails. -/
theorem transfer_ring_fifo {run : List (EndpointSystem × EndpointAction)} {s : EndpointSystem}
    (h : RingRun slotId epAddr run s) (hb : Throughout (Bounded slotId epAddr) run) :
    s.consumer.taken.map TRB.data <+: submissions slotId epAddr run ∧
      (∀ t ∈ s.consumer.taken, t.trbType = 1) ∧
      (s.consumer.taken.map TRB.data ≠ submissions slotId epAddr run →
        (s.step slotId epAddr .consume).consumer.taken.map TRB.data =
            (submissions slotId epAddr run).take (s.consumer.taken.length + 1) ∨
          ((s.step slotId epAddr .consume).step slotId epAddr .consume).consumer.taken.map
              TRB.data = (submissions slotId epAddr run).take (s.consumer.taken.length + 1)) ∧
      ∀ dataBuf len, (s.controller.sendNormalTRB slotId epAddr dataBuf len).1 = true := by
  obtain ⟨written, c, hinv⟩ : ∃ written c,
      RingInv slotId epAddr (submissions slotId epAddr run) written c s :=
    (h.throughout (P := fun _ _ => True)
      (I := fun run s => ∃ written c,
        RingInv slotId epAddr (submissions slotId epAddr run) written c s)
      (fun _ hfresh => ⟨[], 0, hfresh.inv⟩)
      (fun _ _ _ ⟨_, _, hi⟩ _ ha => ⟨trivial, hi.step ha⟩) hb).2
  refine ⟨?_, hinv.normal, hinv.next, hinv.returns⟩
  rw [hinv.taken_eq]
  exact List.take_prefix _ _

/-- A driver and a host controller at an empty ring. -/
def emptyRing : EndpointSystem where
  controller := { Controller.afterInitialize (fun _ => TRB.zero) 256 512 with
    transferRings := fun slot dci => if slot = 1 ∧ dci = 3 then 1280 else 0 }
  consumer := ⟨1280, 1, []⟩

theorem emptyRing_fresh : Fresh 1 0x81 emptyRing where
  ring_ne := by decide
  ring_lt := by decide
  zeroed := by decide +kernel
  index := rfl
  cycle := rfl
  consumer := rfl

/-- Three passes around the ring: what is taken is what was submitted. -/
theorem transfer_ring_fifo_passes :
    let s := (record (EndpointSystem.step 1 0x81) [] emptyRing ((List.range 100).flatMap fun n =>
      [.submit (BitVec.ofNat 64 n) 8, .consume, .consume])).2
    s.consumer.taken.map TRB.data = (List.range 100).map fun n => (BitVec.ofNat 64 n, 8) := by
  intro s
  have hallowed : Throughout (Bounded 1 0x81) (record (EndpointSystem.step 1 0x81) [] emptyRing
      ((List.range 100).flatMap fun n =>
        [.submit (BitVec.ofNat 64 n) 8, .consume, .consume])).1 := by
    decide +kernel
  have hsubmitted : submissions 1 0x81 (record (EndpointSystem.step 1 0x81) [] emptyRing
      ((List.range 100).flatMap fun n => [.submit (BitVec.ofNat 64 n) 8, .consume, .consume])).1 =
        (List.range 100).map fun n => (BitVec.ofNat 64 n, 8) := by
    decide +kernel
  have htaken : s.consumer.taken.length = 100 := by
    decide +kernel
  obtain ⟨hfifo, -⟩ := transfer_ring_fifo ((Run.start emptyRing_fresh).record
    (.of_forall fun _ _ => trivial)) hallowed
  rw [hsubmitted] at hfifo
  exact hfifo.eq_of_length (by rw [List.length_map, htaken]; rfl)

end EndpointSystem

end Sylphia.Xhci
