import Sylphia.Usb.EventRing

/-!
# The indices of the command ring and of the control rings

`EnableSlot`, `AddressDevice` and `ConfigureEndpoint` write the command ring, `ControlIn` the
control ring of a slot. None of them starts a new pass, so the ring lasts for as many TRBs as
it has entries before its Link TRB.
-/

namespace Sylphia.Xhci

open Transition Controller

/-- How often a sequence of ring indices goes back. -/
def wraps : List Nat → Nat
  | i :: j :: rest => (if j ≤ i then 1 else 0) + wraps (j :: rest)
  | _ => 0

/-- Every TRB is written below `size`, with a cycle bit that is toggled on each wrap. -/
def Accepted (size : Nat) (writes : List (Nat × TRB)) : Prop :=
  ∀ n (x : Nat × TRB), writes[n]? = some x → x.1 < size ∧
    x.2.cycleBit = 1 ^^^ BitVec.ofNat 32 (wraps ((writes.map Prod.fst).take (n + 1)) % 2)

theorem wraps_of_pairwise {l : List Nat} (h : l.Pairwise (· < ·)) : wraps l = 0 := by
  induction l with
  | nil => rfl
  | cons i l ih =>
    cases l with
    | nil => rfl
    | cons j rest =>
      have hij : i < j := List.rel_of_pairwise_cons h List.mem_cons_self
      rw [wraps, if_neg (Nat.not_le.mpr hij), ih h.of_cons]

/-- Writes that count up with one cycle bit are accepted as long as the ring lasts. -/
theorem accepted_iff {size n : Nat} {writes : List (Nat × TRB)} (hsize : size < 2 ^ 32)
    (hindex : writes.map Prod.fst = (List.range n).map (· % 2 ^ 32))
    (hbit : ∀ x ∈ writes, x.2.cycleBit = 1) : Accepted size writes ↔ n ≤ size := by
  have hlength : writes.length = n := by simpa using congrArg List.length hindex
  have hfst (i : Nat) (x : Nat × TRB) (hx : writes[i]? = some x) : x.1 = i % 2 ^ 32 := by
    have hi : i < n := by
      rw [← hlength]
      exact (List.getElem?_eq_some_iff.mp hx).1
    have hget := congrArg (fun l => l[i]?) hindex
    simpa [hx, hi] using hget
  constructor
  · intro haccepted
    by_contra hn
    have hlt : size < writes.length := by omega
    have hbad := (haccepted size _ (List.getElem?_eq_getElem hlt)).1
    rw [hfst size _ (List.getElem?_eq_getElem hlt), Nat.mod_eq_of_lt hsize] at hbad
    exact Nat.lt_irrefl _ hbad
  · intro hn i x hx
    have hi : i < n := by
      rw [← hlength]
      exact (List.getElem?_eq_some_iff.mp hx).1
    -- Below `2 ^ 32` the indices are the numbers of the writes, so they never go back.
    have hrange : writes.map Prod.fst = List.range n := by
      rw [hindex, List.map_congr_left (g := id), List.map_id]
      intro j hj
      have hjn := List.mem_range.mp hj
      exact Nat.mod_eq_of_lt (by omega)
    refine ⟨by rw [hfst i x hx]; omega, ?_⟩
    rw [hbit x (List.mem_of_getElem? hx), hrange,
      wraps_of_pairwise (List.pairwise_lt_range.take)]
    decide

/-- A write to the command ring. -/
def Access.commandWrite? : Access → Option (Nat × TRB)
  | .command index trb => some (index, trb)
  | _ => none

/-- A write to the control ring of a slot. -/
def Access.controlWrite? (slot : BitVec 8) : Access → Option (Nat × TRB)
  | .transfer slot' dci index trb => if slot' = slot ∧ dci = 1 then some (index, trb) else none
  | _ => none

namespace Controller

variable (c : Controller)

/-- The index and the TRB of each write to the command ring. -/
def commandWrites : List (Nat × TRB) := c.log.filterMap Access.commandWrite?

/-- The index and the TRB of each write to the control ring of a slot. -/
def controlWrites (slot : BitVec 8) : List (Nat × TRB) :=
  c.log.filterMap (Access.controlWrite? slot)

/-- After `n` commands and `m slot` control TRBs for each slot: all of them have been
written in order, with the cycle state the driver started with. -/
structure Counted (n : Nat) (m : BitVec 8 → Nat) (c : Controller) : Prop where
  cmdIndex : c.cmdRingIndex = n % 2 ^ 32
  pcs : c.pcs = 1
  commands : c.commandWrites.map Prod.fst = (List.range n).map (· % 2 ^ 32)
  commandBits : ∀ x ∈ c.commandWrites, x.2.cycleBit = 1
  ringIndex : ∀ slot, c.ringIndex slot 1 = m slot % 2 ^ 32
  ringCycle : ∀ slot, c.ringCycleState slot 1 = 1
  controls : ∀ slot, (c.controlWrites slot).map Prod.fst = (List.range (m slot)).map (· % 2 ^ 32)
  controlBits : ∀ slot, ∀ x ∈ c.controlWrites slot, x.2.cycleBit = 1
  unused : ∀ slot, c.transferRings slot 1 = 0 → m slot = 0

/-- The same writes, and the same places to write next. -/
structure SameWrites (c c' : Controller) : Prop where
  cmdIndex : c'.cmdRingIndex = c.cmdRingIndex
  pcs : c'.pcs = c.pcs
  commands : c'.commandWrites = c.commandWrites
  ringIndex : c'.ringIndex = c.ringIndex
  ringCycle : c'.ringCycleState = c.ringCycleState
  controls : c'.controlWrites = c.controlWrites
  rings : c'.transferRings = c.transferRings

variable {c} {n : Nat} {m : BitVec 8 → Nat}

theorem SameWrites.refl : SameWrites c c := ⟨rfl, rfl, rfl, rfl, rfl, rfl, rfl⟩

theorem SameWrites.counted {c' : Controller} (hs : SameWrites c c') (h : Counted n m c) :
    Counted n m c' := by
  obtain ⟨h1, h2, h3, h4, h5, h6, h7⟩ := hs
  exact ⟨by rw [h1, h.cmdIndex], by rw [h2, h.pcs], by rw [h3, h.commands],
    by rw [h3]; exact h.commandBits, by rw [h4]; exact h.ringIndex, by rw [h5]; exact h.ringCycle,
    by rw [h6]; exact h.controls, by rw [h6]; exact h.controlBits, by rw [h7]; exact h.unused⟩

theorem sameWrites_takeEvent : SameWrites c c.takeEvent := by
  refine ⟨rfl, rfl, ?_, rfl, rfl, ?_, rfl⟩
  · simp [commandWrites, takeEvent, Access.commandWrite?]
  · funext slot
    simp [controlWrites, takeEvent, Access.controlWrite?]

private theorem range_succ_map (n : Nat) :
    (List.range (n + 1)).map (· % 2 ^ 32) = (List.range n).map (· % 2 ^ 32) ++ [n % 2 ^ 32] := by
  rw [List.range_succ, List.map_append, List.map_singleton]

private theorem next32_mod (n : Nat) : next32 (n % 2 ^ 32) = (n + 1) % 2 ^ 32 := by
  unfold next32
  omega

theorem Counted.writeCommand (h : Counted n m c) {trb : TRB} (hbit : trb.cycleBit = 1) :
    Counted (n + 1) m (c.writeCommand trb) := by
  have hcommands : (c.writeCommand trb).commandWrites =
      c.commandWrites ++ [(c.cmdRingIndex, trb)] := by
    simp [commandWrites, Controller.writeCommand, Access.commandWrite?]
  have hcontrols (slot : BitVec 8) : (c.writeCommand trb).controlWrites slot =
      c.controlWrites slot := by
    simp [controlWrites, Controller.writeCommand, Access.controlWrite?]
  refine ⟨?_, h.pcs, ?_, ?_, h.ringIndex, h.ringCycle, ?_, ?_, h.unused⟩
  · exact (congrArg next32 h.cmdIndex).trans (next32_mod n)
  · rw [hcommands, List.map_append, h.commands, h.cmdIndex, range_succ_map]
    rfl
  · intro x hx
    rw [hcommands] at hx
    rcases List.mem_append.mp hx with hx | hx
    · exact h.commandBits x hx
    · rw [List.mem_singleton.mp hx]
      exact hbit
  · intro slot
    rw [hcontrols]
    exact h.controls slot
  · intro slot
    rw [hcontrols]
    exact h.controlBits slot

theorem Counted.writeTransfer (h : Counted n m c) {slot : BitVec 8} {trb : TRB}
    (hbit : trb.cycleBit = 1) (hring : c.transferRings slot 1 ≠ 0) :
    Counted n (Function.update m slot (m slot + 1)) (c.writeTransfer slot 1 trb) := by
  have hcommands : (c.writeTransfer slot 1 trb).commandWrites = c.commandWrites := by
    simp [commandWrites, Controller.writeTransfer, Access.commandWrite?]
  have hcontrols (slot' : BitVec 8) : (c.writeTransfer slot 1 trb).controlWrites slot' =
      c.controlWrites slot' ++ if slot = slot' then [(c.ringIndex slot 1, trb)] else [] := by
    by_cases hslot : slot = slot' <;>
      simp [controlWrites, Controller.writeTransfer, Access.controlWrite?, hslot]
  refine ⟨h.cmdIndex, h.pcs, by rw [hcommands]; exact h.commands,
    by rw [hcommands]; exact h.commandBits, ?_, h.ringCycle, ?_, ?_, ?_⟩
  · intro slot'
    by_cases hslot : slot' = slot
    · subst hslot
      simp only [Controller.writeTransfer, Function.update_self, h.ringIndex, next32_mod]
    · simp only [Controller.writeTransfer, Function.update_of_ne hslot, h.ringIndex]
  · intro slot'
    rw [hcontrols, List.map_append, h.controls]
    by_cases hslot : slot' = slot
    · subst hslot
      rw [if_pos rfl, Function.update_self, range_succ_map, h.ringIndex]
      rfl
    · rw [if_neg (Ne.symm hslot), Function.update_of_ne hslot, List.map_nil, List.append_nil]
  · intro slot' x hx
    rw [hcontrols] at hx
    rcases List.mem_append.mp hx with hx | hx
    · exact h.controlBits slot' x hx
    · split at hx
      · rw [List.mem_singleton.mp hx]
        exact hbit
      · exact absurd hx List.not_mem_nil
  · intro slot' hnull
    have hne : slot' ≠ slot := by
      rintro rfl
      exact hring hnull
    rw [Function.update_of_ne hne]
    exact h.unused slot' hnull

theorem Counted.setRing (h : Counted n m c) (slot dci : BitVec 8) {ring : Nat}
    (hring : ring ≠ 0) : Counted n m (c.setRing slot dci ring) := by
  refine { h with unused := ?_ }
  intro slot' hnull
  by_cases hslot : slot' = slot
  · subst hslot
    by_cases hdci : (1 : BitVec 8) = dci
    · subst hdci
      simp only [Controller.setRing, Function.update_self] at hnull
      exact absurd hnull hring
    · simp only [Controller.setRing, Function.update_self, Function.update_of_ne hdci] at hnull
      exact h.unused slot' hnull
  · simp only [Controller.setRing, Function.update_of_ne hslot] at hnull
    exact h.unused slot' hnull

/-- `ConfigureEndpoint` resets the index of a ring only where none was written. -/
theorem Counted.resetRing (h : Counted n m c) {slot dci : BitVec 8}
    (hnew : dci = 1 → m slot = 0) : Counted n m (c.resetRing slot dci) := by
  refine { h with ringIndex := ?_, ringCycle := ?_ }
  · intro slot'
    by_cases hslot : slot' = slot
    · subst hslot
      by_cases hdci : (1 : BitVec 8) = dci
      · subst hdci
        simp only [Controller.resetRing, Function.update_self, hnew rfl, Nat.zero_mod]
      · simp only [Controller.resetRing, Function.update_self, Function.update_of_ne hdci]
        exact h.ringIndex slot'
    · simp only [Controller.resetRing, Function.update_of_ne hslot]
      exact h.ringIndex slot'
  · intro slot'
    by_cases hslot : slot' = slot
    · subst hslot
      by_cases hdci : (1 : BitVec 8) = dci
      · subst hdci
        simp only [Controller.resetRing, Function.update_self]
      · simp only [Controller.resetRing, Function.update_self, Function.update_of_ne hdci]
        exact h.ringCycle slot'
    · simp only [Controller.resetRing, Function.update_of_ne hslot]
      exact h.ringCycle slot'

theorem Counted.enableSlot (h : Counted n m c) : Counted (n + 1) m c.enableSlot.2 := by
  refine h.writeCommand ?_
  rw [h.pcs]
  decide

private theorem contextCommand_bit (kind : BitVec 32) (hk : kind = 11 ∨ kind = 12)
    (slotId : BitVec 8) (inputCtx : BitVec 64) (h : c.pcs = 1) :
    (c.contextCommand kind slotId inputCtx).cycleBit = 1 := by
  unfold contextCommand TRB.cycleBit
  dsimp only
  rw [h]
  revert slotId
  rcases hk with rfl | rfl <;> decide +kernel

theorem Counted.addressDevice (h : Counted n m c) (slotId : BitVec 8) (inputCtx : BitVec 64)
    {ring : Nat} (hring : ring ≠ 0) :
    Counted (n + 1) m (c.addressDevice slotId inputCtx ring).2 :=
  (h.setRing slotId 1 hring).writeCommand (contextCommand_bit 11 (.inl rfl) slotId inputCtx h.pcs)

theorem Counted.configureEndpoint (h : Counted n m c) (slotId epAddr : BitVec 8)
    (inputCtx : BitVec 64) {ring : Nat} (hring : ring ≠ 0) :
    Counted (n + 1) m (c.configureEndpoint slotId epAddr inputCtx ring).2 := by
  have hready : Counted n m (if c.transferRings slotId (addressToDCI epAddr) = 0 then
      (c.setRing slotId (addressToDCI epAddr) ring).resetRing slotId (addressToDCI epAddr)
      else c) := by
    split
    · next hnull =>
      refine (h.setRing slotId _ hring).resetRing fun hdci => h.unused slotId ?_
      rwa [hdci] at hnull
    · exact h
  exact hready.writeCommand (contextCommand_bit 12 (.inr rfl) slotId inputCtx hready.pcs)

/-- The number of TRBs `ControlIn` writes. -/
def Request.size (r : Request) : Nat := if r.length = 0 then 2 else 3

theorem Request.trbs_length (r : Request) (cycle : BitVec 8) :
    (r.trbs cycle).length = r.size := by
  unfold Request.trbs Request.size
  split <;> rfl

theorem Request.trbs_bit (r : Request) : ∀ trb ∈ r.trbs 1, trb.cycleBit = 1 := by
  have hall : (∀ trb ∈ [r.setupTRB 1], trb.cycleBit = 1) ∧
      (∀ trb ∈ [r.dataTRB 1], trb.cycleBit = 1) ∧
      (∀ trb ∈ [statusTRB 1], trb.cycleBit = 1) := by
    simp only [List.mem_singleton, forall_eq, TRB.cycleBit, setupTRB, dataTRB, statusTRB]
    decide
  intro trb htrb
  unfold Request.trbs at htrb
  rcases List.mem_append.mp htrb with h | h
  · rcases List.mem_append.mp h with h | h
    · exact hall.1 trb h
    · split at h
      · exact absurd h List.not_mem_nil
      · exact hall.2.1 trb h
  · exact hall.2.2 trb h

theorem Counted.writeTransfers (h : Counted n m c) {slot : BitVec 8} {trbs : List TRB}
    (hbits : ∀ trb ∈ trbs, trb.cycleBit = 1) (hring : c.transferRings slot 1 ≠ 0) :
    Counted n (Function.update m slot (m slot + trbs.length))
      (trbs.foldl (fun c trb => c.writeTransfer slot 1 trb) c) := by
  induction trbs generalizing c m with
  | nil =>
    rw [List.length_nil, Nat.add_zero, Function.update_eq_self]
    exact h
  | cons trb trbs ih =>
    have hfirst := h.writeTransfer (hbits trb List.mem_cons_self) hring
    have hrest := ih hfirst (fun t ht => hbits t (List.mem_cons_of_mem _ ht)) hring
    rw [Function.update_self, Function.update_idem] at hrest
    rw [List.length_cons, Nat.add_comm trbs.length, ← Nat.add_assoc]
    exact hrest

theorem Counted.controlIn (h : Counted n m c) {slotId : BitVec 8} (r : Request)
    (hring : c.transferRings slotId 1 ≠ 0) :
    Counted n (Function.update m slotId (m slotId + r.size)) (c.controlIn slotId r) := by
  have hwrites := h.writeTransfers r.trbs_bit hring
  rw [Request.trbs_length] at hwrites
  unfold Controller.controlIn
  rw [h.ringCycle]
  exact hwrites

end Controller

/-- The commands a call writes. -/
def Call.commands : Call → Nat
  | .enableSlot | .addressDevice _ _ _ | .configureEndpoint _ _ _ _ => 1
  | _ => 0

/-- The TRBs a call writes to the control ring of a slot. -/
def Call.controlTrbs (slot : BitVec 8) : Call → Nat
  | .controlIn slotId r => if slotId = slot then r.size else 0
  | _ => 0

/-- The commands written in a run. -/
def commandsIn : List (UsbSystem × Action) → Nat
  | [] => 0
  | (_, .start _ call) :: past => commandsIn past + call.commands
  | _ :: past => commandsIn past

/-- The TRBs written to the control ring of a slot in a run. -/
def controlTrbsIn : List (UsbSystem × Action) → BitVec 8 → Nat
  | [] => fun _ => 0
  | (_, .start _ call) :: past => fun slot => controlTrbsIn past slot + call.controlTrbs slot
  | _ :: past => controlTrbsIn past

namespace UsbSystem

variable {s : UsbSystem} {a : Action}

/-- The calls that set a device up; `ControlIn` goes to a slot that has its control ring. -/
def EnabledSetup (s : UsbSystem) (a : Action) : Prop :=
  s.Enabled a ∧
    match a with
    | .start _ .enableSlot | .start _ (.addressDevice _ _ _)
    | .start _ (.configureEndpoint _ _ _ _) => True
    | .start _ (.controlIn slotId _) => s.controller.transferRings slotId 1 ≠ 0
    | .start _ _ => False
    | _ => True

instance decidableEnabledSetup (s : UsbSystem) : (a : Action) → Decidable (s.EnabledSetup a)
  | .start _ .enableSlot | .start _ (.addressDevice _ _ _)
  | .start _ (.configureEndpoint _ _ _ _) => inferInstanceAs (Decidable (s.Enabled _ ∧ True))
  | .start _ (.controlIn slotId _) =>
    inferInstanceAs (Decidable (s.Enabled _ ∧ s.controller.transferRings slotId 1 ≠ 0))
  | .start _ (.pollEndpoint _ _) | .start _ (.sendNormalTRB _ _ _ _)
  | .start _ (.transfer _ _ _ _) | .start _ .processInterrupt | .start _ .update
  | .start _ .forceSendTRB => inferInstanceAs (Decidable (s.Enabled _ ∧ False))
  | .turn _ | .post _ | .status _ | .report _ | .attach _ =>
    inferInstanceAs (Decidable (s.Enabled _ ∧ True))

/-- A turn that writes nothing and stays in one of the waiting loops. -/
def Loops (c : Controller) (r : Outcome × Controller) : Prop :=
  SameWrites c r.2 ∧ ∀ w, r.1 = .waiting w → ¬ Polls w

theorem LoopTurn.loops {c : Controller} {takes : Prop} {again : Wait → Prop}
    {r : Outcome × Controller} (h : LoopTurn c takes again r) (hagain : ∀ w, again w → ¬ Polls w) :
    Loops c r :=
  ⟨h.controller .refl sameWrites_takeEvent, fun w hw => hagain w (h.again w hw)⟩

/-- The contexts that wait are in one of the four waiting loops. -/
def InLoops (s : UsbSystem) : Prop := ∀ ctx, ∀ w ∈ s.waiting ctx, ¬ Polls w

theorem InLoops.finish (h : InLoops s) {r : Outcome × Controller} (ctx : Nat)
    (hr : Loops s.controller r) :
    SameWrites s.controller (s.finish ctx r).controller ∧ InLoops (s.finish ctx r) := by
  refine ⟨hr.1, fun ctx' w hw => ?_⟩
  by_cases hctx : ctx' = ctx
  · subst hctx
    simp only [UsbSystem.finish, Function.update_self] at hw
    split at hw
    · next w' hwait =>
      obtain rfl : w' = w := by simpa using hw
      exact hr.2 _ hwait
    · simp at hw
  · simp only [UsbSystem.finish, Function.update_of_ne hctx] at hw
    exact h ctx' w hw

theorem InLoops.turn (h : InLoops s) (ctx : Nat) {w : Wait} (hw : ¬ Polls w) :
    SameWrites s.controller (s.turn ctx w).controller ∧ InLoops (s.turn ctx w) := by
  cases w with
  | enableSlot ptr timeout =>
    refine h.finish ctx ((loopTurn_enableSlotTurn _ ptr timeout).loops ?_)
    rintro _ (rfl | ⟨_, rfl⟩) <;> exact id
  | addressDevice ptr timeout =>
    exact h.finish ctx ((loopTurn_commandTurn _ _ ptr timeout).loops
      (by rintro _ ⟨_, rfl⟩; exact id))
  | configureEndpoint ptr timeout =>
    exact h.finish ctx ((loopTurn_commandTurn _ _ ptr timeout).loops
      (by rintro _ ⟨_, rfl⟩; exact id))
  | controlIn timeout =>
    exact h.finish ctx ((loopTurn_controlInTurn _ timeout).loops (by rintro _ ⟨_, rfl⟩; exact id))
  | poll slotId epAddr ret => exact absurd trivial hw
  | update => exact absurd trivial hw
  | halted => exact ⟨.refl, h⟩

theorem InLoops.wait (h : InLoops s) (ctx : Nat) {w : Wait} (hw : ¬ Polls w) (c : Controller) :
    InLoops (s.wait ctx w c) := by
  intro ctx' w' hw'
  by_cases hctx : ctx' = ctx
  · subst hctx
    obtain rfl : w = w' := by simpa [UsbSystem.wait] using hw'
    exact hw
  · simp only [UsbSystem.wait, Function.update_of_ne hctx] at hw'
    exact h ctx' w' hw'

/-- What a run of device setups keeps: every write is counted, and contexts wait in loops. -/
structure SetupInv (past : List (UsbSystem × Action)) (s : UsbSystem) : Prop where
  counted : Counted (commandsIn past) (controlTrbsIn past) s.controller
  loops : InLoops s

theorem setupInv_start (h : AtStart s) : SetupInv [] s := by
  obtain ⟨memory, commandRing, eventRing, rfl⟩ := h
  refine ⟨⟨rfl, rfl, rfl, ?_, fun _ => rfl, fun _ => rfl, fun _ => rfl, ?_, fun _ _ => rfl⟩, ?_⟩
  · simp [commandWrites, afterInitialize]
  · simp [controlWrites, afterInitialize]
  · intro ctx w hw
    simp at hw

private theorem controlTrbs_update (m : BitVec 8 → Nat) (slotId : BitVec 8) (r : Request) :
    (fun slot => m slot + (Call.controlIn slotId r).controlTrbs slot) =
      Function.update m slotId (m slotId + r.size) := by
  funext slot
  by_cases hslot : slot = slotId
  · subst hslot
    simp [Call.controlTrbs]
  · simp [Call.controlTrbs, hslot, Ne.symm hslot]

theorem SetupInv.step {past : List (UsbSystem × Action)} (h : SetupInv past s)
    (ha : s.EnabledSetup a) : SetupInv ((s, a) :: past) (s.step a) := by
  obtain ⟨hcounted, hloops⟩ := h
  cases a with
  | start ctx call =>
    cases call with
    | enableSlot => exact ⟨hcounted.enableSlot, hloops.wait ctx id _⟩
    | addressDevice slotId inputCtx ring =>
      exact ⟨hcounted.addressDevice slotId inputCtx ha.1.2, hloops.wait ctx id _⟩
    | configureEndpoint slotId epAddr inputCtx ring =>
      exact ⟨hcounted.configureEndpoint slotId epAddr inputCtx ha.1.2, hloops.wait ctx id _⟩
    | controlIn slotId r =>
      refine ⟨?_, hloops.wait ctx id _⟩
      have hwrites := hcounted.controlIn r ha.2
      rw [← controlTrbs_update] at hwrites
      exact hwrites
    | _ => exact absurd ha.2 id
  | turn ctx =>
    obtain ⟨w, hw⟩ := Option.ne_none_iff_exists'.mp ha.1
    have hstep : s.step (.turn ctx) = s.turn ctx w := by simp [UsbSystem.step, hw]
    rw [hstep]
    obtain ⟨hsame, hloops'⟩ := hloops.turn ctx (hloops ctx w hw)
    exact ⟨hsame.counted hcounted, hloops'⟩
  | post event =>
    have hsame : SameWrites s.controller (s.post event).controller :=
      ⟨rfl, rfl, rfl, rfl, rfl, rfl, rfl⟩
    exact ⟨hsame.counted hcounted, hloops⟩
  | status usbsts =>
    have hsame : SameWrites s.controller { s.controller with usbsts := usbsts } :=
      ⟨rfl, rfl, rfl, rfl, rfl, rfl, rfl⟩
    exact ⟨hsame.counted hcounted, hloops⟩
  | report _ => exact ⟨hcounted, hloops⟩
  | attach _ => exact ⟨hcounted, hloops⟩

/-- In every run of device setups, every command TRB is written below index 31 and every
control TRB inside the ring of its slot, with the cycle bit the host controller expects,
exactly when at most 31 commands are sent and at most 32 control TRBs for each slot. -/
theorem rings_kept_iff {run : List (UsbSystem × Action)} {s : UsbSystem}
    (h : Run UsbSystem.step EnabledSetup AtStart run s) :
    (Accepted 31 s.controller.commandWrites ∧
        ∀ slot, Accepted 32 (s.controller.controlWrites slot)) ↔
      commandsIn run ≤ 31 ∧ ∀ slot, controlTrbsIn run slot ≤ 32 := by
  have hinv : SetupInv run s :=
    h.invariant (fun _ => setupInv_start) fun _ _ _ hi ha => hi.step ha
  have hcounted := hinv.counted
  rw [accepted_iff (by decide) hcounted.commands hcounted.commandBits]
  simp only [accepted_iff (by decide : 32 < 2 ^ 32) (hcounted.controls _) (hcounted.controlBits _)]

/-- The 32nd `EnableSlot` writes its command over the Link TRB. -/
theorem link_overwritten :
    ¬∀ run s, Run UsbSystem.step EnabledSetup AtStart run s →
      Accepted 31 s.controller.commandWrites ∧
        ∀ slot, Accepted 32 (s.controller.controlWrites slot) := by
  intro h
  have hallowed : Allowed UsbSystem.step EnabledSetup small
      ((List.range 31).flatMap (fun n => [.start 0 .enableSlot, .post (completion n), .turn 0]) ++
        [.start 0 .enableSlot]) := by
    decide +kernel
  have haccepted := (h _ _ ((Run.start atStart_small).record hallowed)).1
  exact absurd (haccepted 31 (31, ⟨0, 0, 1 ||| (9 <<< 10)⟩) (by decide +kernel)).1 (by decide)

/-- Bringing up one device and asking for its descriptor keep to the rings. -/
theorem rings_kept_bringUp :
    let s := (record UsbSystem.step [] small
      (bringUp ++ [.start 0 (.controlIn 1 getDescriptor)])).2
    Accepted 31 s.controller.commandWrites ∧
      ∀ slot, Accepted 32 (s.controller.controlWrites slot) := by
  have hallowed : Allowed UsbSystem.step EnabledSetup small
      (bringUp ++ [.start 0 (.controlIn 1 getDescriptor)]) := by
    decide +kernel
  refine (rings_kept_iff ((Run.start atStart_small).record hallowed)).mpr ⟨by decide +kernel, ?_⟩
  decide +kernel

end UsbSystem

end Sylphia.Xhci
