import Sylphia.Usb.Keyboard

/-!
# The event ring

Six functions of the driver read one event ring. `PollEndpoint` and `ProcessInterrupt`
start a new pass behind the last slot; the waiting loops of `EnableSlot`, `AddressDevice`,
`ConfigureEndpoint` and `ControlIn` only count up.
-/

namespace Sylphia.Xhci

open Transition

/-- The event an access took from the event ring. -/
def Access.event? : Access → Option TRB
  | .took event => some event
  | _ => none

namespace Controller

variable (c : Controller)

/-- The events the driver has taken so far. -/
def events : List TRB := c.log.filterMap Access.event?

/-- Nothing was taken from the event ring. -/
structure SameEvents (c c' : Controller) : Prop where
  index : c'.eventRingIndex = c.eventRingIndex
  dcs : c'.dcs = c.dcs
  events : c'.events = c.events

/-- The current event was taken, and the index only counted up. -/
structure CountsUp (c c' : Controller) : Prop where
  ready : c.eventReady = true
  index : c'.eventRingIndex = next32 c.eventRingIndex
  dcs : c'.dcs = c.dcs
  events : c'.events = c.events ++ [c.currentEvent]

/-- The current event was taken, with a new pass behind the last slot. -/
structure Advances (c c' : Controller) : Prop where
  ready : c.eventReady = true
  index : c'.eventRingIndex = if next32 c.eventRingIndex = 32 then 0 else next32 c.eventRingIndex
  dcs : c'.dcs = if next32 c.eventRingIndex = 32 then c.dcs ^^^ 1 else c.dcs
  events : c'.events = c.events ++ [c.currentEvent]

variable {c}

theorem SameEvents.refl : SameEvents c c := ⟨rfl, rfl, rfl⟩

theorem SameEvents.trans {c' c'' : Controller} (h : SameEvents c c') (h' : SameEvents c' c'') :
    SameEvents c c'' :=
  ⟨h'.index.trans h.index, h'.dcs.trans h.dcs, h'.events.trans h.events⟩

theorem Advances.trans_same {c' c'' : Controller} (h : Advances c c') (h' : SameEvents c' c'') :
    Advances c c'' :=
  ⟨h.ready, h'.index.trans h.index, h'.dcs.trans h.dcs, h'.events.trans h.events⟩

theorem events_takeEvent : c.takeEvent.events = c.events ++ [c.currentEvent] := by
  simp [events, takeEvent, Access.event?, List.filterMap_append]

theorem countsUp_takeEvent (h : c.eventReady = true) : CountsUp c c.takeEvent :=
  ⟨h, rfl, rfl, events_takeEvent⟩

theorem advances_take (h : c.eventReady = true) :
    Advances c c.takeEvent.wrapEventRing.writeErdp := by
  have hwrap : c.takeEvent.wrapEventRing.events = c.takeEvent.events := by
    unfold wrapEventRing
    split <;> rfl
  refine ⟨h, ?_, ?_, hwrap.trans events_takeEvent⟩
  · unfold writeErdp wrapEventRing
    split <;> rename_i h32 <;> simp only [takeEvent] at h32 ⊢ <;> simp [h32]
  · unfold writeErdp wrapEventRing
    split <;> rename_i h32 <;> simp only [takeEvent] at h32 ⊢ <;> simp [h32]

theorem sameEvents_writeCommand (trb : TRB) : SameEvents c (c.writeCommand trb) :=
  ⟨rfl, rfl, by simp [events, writeCommand, Access.event?, List.filterMap_append]⟩

theorem sameEvents_writeTransfer (slot dci : BitVec 8) (trb : TRB) :
    SameEvents c (c.writeTransfer slot dci trb) :=
  ⟨rfl, rfl, by simp [events, writeTransfer, Access.event?, List.filterMap_append]⟩

theorem sameEvents_sendNormalTRB (slotId epAddr : BitVec 8) (dataBuf : BitVec 64)
    (len : BitVec 32) : SameEvents c (c.sendNormalTRB slotId epAddr dataBuf len).2 := by
  unfold sendNormalTRB
  dsimp only
  split
  · exact .refl
  · have hwrite := sameEvents_writeTransfer (c := c) slotId (addressToDCI epAddr)
      (normalTRB (c.ringCycleState slotId (addressToDCI epAddr)) dataBuf len)
    split
    · exact hwrite.trans ⟨rfl, rfl, rfl⟩
    · exact hwrite

theorem sameEvents_configureEndpoint (slotId epAddr : BitVec 8) (inputCtx : BitVec 64)
    (ring : Nat) : SameEvents c (c.configureEndpoint slotId epAddr inputCtx ring).2 := by
  refine .trans ?_ (sameEvents_writeCommand _)
  split
  · exact ⟨rfl, rfl, rfl⟩
  · exact .refl

theorem sameEvents_controlIn (slotId : BitVec 8) (r : Request) :
    SameEvents c (c.controlIn slotId r) := by
  unfold controlIn
  generalize r.trbs (c.ringCycleState slotId 1) = trbs
  induction trbs generalizing c with
  | nil => exact .refl
  | cons trb trbs ih => exact (sameEvents_writeTransfer slotId 1 trb).trans ih

theorem pollEndpoint_events (slotId epAddr : BitVec 8) :
    SameEvents c (c.pollEndpoint slotId epAddr).2 ∨
      Advances c (c.pollEndpoint slotId epAddr).2 := by
  unfold pollEndpoint
  split
  · next h => exact .inr (advances_take h)
  · exact .inl .refl

theorem passEvent_events : SameEvents c c.passEvent ∨ Advances c c.passEvent := by
  unfold passEvent
  split
  · next h => exact .inr (advances_take h)
  · exact .inl .refl

end Controller

open Controller

theorem Keyboard.update_events (k : Keyboard) (c : Controller) :
    SameEvents c (k.update c).2 ∨ Advances c (k.update c).2 := by
  have hpoll := pollEndpoint_events (c := c) k.slotId k.epInterruptIn
  unfold Keyboard.update
  dsimp only
  split
  · have hsend := sameEvents_sendNormalTRB (c := (c.pollEndpoint k.slotId k.epInterruptIn).2)
      k.slotId k.epInterruptIn k.bufAddress 8
    exact hpoll.imp (fun h => h.trans hsend) (fun h => h.trans_same hsend)
  · exact hpoll

namespace UsbSystem

variable (s : UsbSystem)

/-- The waiting loop `w` would take the current event now. -/
def LoopTakes (c : Controller) : Wait → Prop
  | .enableSlot _ timeout => timeout ≠ 0 ∧ c.usbsts &&& (1 <<< 2) = 0 ∧ c.eventReady
  | .addressDevice _ timeout | .configureEndpoint _ timeout | .controlIn timeout =>
    timeout ≠ 0 ∧ c.eventReady
  | .poll _ _ _ | .update | .halted => False

instance decidableLoopTakes (c : Controller) : (w : Wait) → Decidable (LoopTakes c w)
  | .enableSlot _ timeout =>
    inferInstanceAs (Decidable (timeout ≠ 0 ∧ c.usbsts &&& (1 <<< 2) = 0 ∧ c.eventReady))
  | .addressDevice _ timeout | .configureEndpoint _ timeout | .controlIn timeout =>
    inferInstanceAs (Decidable (timeout ≠ 0 ∧ c.eventReady))
  | .poll _ _ _ | .update | .halted => inferInstanceAs (Decidable False)

/-- The wait goes on with a `PollEndpoint`. -/
def Polls : Wait → Prop
  | .poll _ _ _ | .update => True
  | _ => False

/-- No waiting loop takes the event in the last slot of the ring. -/
def LeavesLastSlot (s : UsbSystem) : Action → Prop
  | .turn ctx => ∀ w ∈ s.waiting ctx, LoopTakes s.controller w → s.controller.eventRingIndex ≠ 31
  | _ => True

instance decidableLeavesLastSlot (s : UsbSystem) : (a : Action) → Decidable (s.LeavesLastSlot a)
  | .turn ctx => inferInstanceAs (Decidable (∀ w ∈ s.waiting ctx,
      LoopTakes s.controller w → s.controller.eventRingIndex ≠ 31))
  | .post _ | .status _ | .report _ | .attach _ | .start _ _ => inferInstanceAs (Decidable True)

theorem withKeyboard_update_events :
    SameEvents s.controller (s.withKeyboard Keyboard.update).controller ∨
      Advances s.controller (s.withKeyboard Keyboard.update).controller := by
  unfold withKeyboard
  split
  · exact .inl .refl
  · next k _ => exact k.update_events s.controller

theorem start_events (ctx : Nat) (call : Call) :
    SameEvents s.controller (s.start ctx call).controller ∨
      Advances s.controller (s.start ctx call).controller := by
  cases call with
  | enableSlot => exact .inl (sameEvents_writeCommand _)
  | addressDevice slotId inputCtx ring =>
    have hring : SameEvents s.controller (s.controller.setRing slotId 1 ring) := ⟨rfl, rfl, rfl⟩
    exact .inl (hring.trans (sameEvents_writeCommand
      ((s.controller.setRing slotId 1 ring).contextCommand 11 slotId inputCtx)))
  | configureEndpoint slotId epAddr inputCtx ring =>
    exact .inl (sameEvents_configureEndpoint slotId epAddr inputCtx ring)
  | controlIn slotId r => exact .inl (sameEvents_controlIn slotId r)
  | pollEndpoint slotId epAddr => exact pollEndpoint_events slotId epAddr
  | sendNormalTRB slotId epAddr dataBuf len =>
    exact .inl (sameEvents_sendNormalTRB slotId epAddr dataBuf len)
  | transfer slotId epAddr dataBuf len =>
    exact .inl (sameEvents_sendNormalTRB slotId epAddr dataBuf len)
  | processInterrupt => exact passEvent_events
  | update => exact s.withKeyboard_update_events
  | forceSendTRB =>
    simp only [start, withKeyboard]
    split
    · exact .inl .refl
    · exact .inl (sameEvents_sendNormalTRB _ _ _ _)

/-- What a turn of one of the four loops does: it takes the next event or leaves the driver as it
is, and returns or goes on. -/
structure LoopTurn (c : Controller) (takes : Prop) (again : Wait → Prop)
    (r : Outcome × Controller) : Prop where
  took : takes → r.2 = c.takeEvent
  left : ¬ takes → r.2 = c
  again : ∀ w, r.1 = .waiting w → again w

namespace LoopTurn

variable {c : Controller} {takes : Prop} {again : Wait → Prop} {r : Outcome × Controller}

/-- Whatever holds before the turn and after the next event was taken holds after the turn. -/
theorem controller (h : LoopTurn c takes again r) {P : Controller → Prop} (hleft : P c)
    (htook : P c.takeEvent) : P r.2 := by
  by_cases ht : takes
  · rwa [h.took ht]
  · rwa [h.left ht]

theorem events (h : LoopTurn c takes again r) (hready : takes → c.eventReady = true) :
    takes ∧ CountsUp c r.2 ∨ ¬ takes ∧ SameEvents c r.2 := by
  by_cases ht : takes
  · rw [h.took ht]
    exact .inl ⟨ht, countsUp_takeEvent (hready ht)⟩
  · rw [h.left ht]
    exact .inr ⟨ht, .refl⟩

private theorem returned {c' : Controller} {value : BitVec 8} (htook : takes → c' = c.takeEvent)
    (hleft : ¬ takes → c' = c) : LoopTurn c takes again (.returned value, c') :=
  ⟨htook, hleft, by rintro w ⟨⟩⟩

private theorem waiting {c' : Controller} {w : Wait} (htook : takes → c' = c.takeEvent)
    (hleft : ¬ takes → c' = c) (hw : again w) : LoopTurn c takes again (.waiting w, c') :=
  ⟨htook, hleft, by rintro _ ⟨⟩; exact hw⟩

end LoopTurn

theorem loopTurn_commandTurn (c : Controller) (resume : BitVec 64 → Nat → Wait) (ptr : BitVec 64)
    (timeout : Nat) : LoopTurn c (timeout ≠ 0 ∧ c.eventReady)
      (fun w => ∃ timeout', w = resume ptr timeout') (c.commandTurn resume ptr timeout) := by
  unfold commandTurn
  split
  · next h0 => exact .returned (fun h => absurd h0 h.1) fun _ => rfl
  · next h0 =>
    split
    · next hr =>
      dsimp only
      split
      · exact .returned (fun _ => rfl) fun h => absurd ⟨h0, hr⟩ h
      · exact .waiting (fun _ => rfl) (fun h => absurd ⟨h0, hr⟩ h) ⟨_, rfl⟩
    · next hr => exact .waiting (fun h => absurd h.2 hr) (fun _ => rfl) ⟨_, rfl⟩

theorem loopTurn_enableSlotTurn (c : Controller) (ptr : BitVec 64) (timeout : Nat) :
    LoopTurn c (LoopTakes c (.enableSlot ptr timeout))
      (fun w => w = .halted ∨ ∃ timeout', w = .enableSlot ptr timeout')
      (c.enableSlotTurn ptr timeout) := by
  change LoopTurn c (timeout ≠ 0 ∧ c.usbsts &&& (1 <<< 2) = 0 ∧ c.eventReady) _ _
  unfold enableSlotTurn
  split
  · next h0 => exact .returned (fun h => absurd h0 h.1) fun _ => rfl
  · next h0 =>
    split
    · next he => exact .waiting (fun h => absurd h.2.1 he) (fun _ => rfl) (.inl rfl)
    · next he =>
      split
      · next hr =>
        dsimp only
        split
        · exact .returned (fun _ => rfl) fun h => absurd ⟨h0, not_not.mp he, hr⟩ h
        · exact .waiting (fun _ => rfl) (fun h => absurd ⟨h0, not_not.mp he, hr⟩ h)
            (.inr ⟨_, rfl⟩)
      · next hr => exact .waiting (fun h => absurd h.2.2 hr) (fun _ => rfl) (.inr ⟨_, rfl⟩)

theorem loopTurn_controlInTurn (c : Controller) (timeout : Nat) :
    LoopTurn c (LoopTakes c (.controlIn timeout)) (fun w => ∃ timeout', w = .controlIn timeout')
      (c.controlInTurn timeout) := by
  change LoopTurn c (timeout ≠ 0 ∧ c.eventReady) _ _
  unfold controlInTurn
  split
  · next h0 => exact .returned (fun h => absurd h0 h.1) fun _ => rfl
  · next h0 =>
    split
    · next hr =>
      dsimp only
      split
      · exact .returned (fun _ => rfl) fun h => absurd ⟨h0, hr⟩ h
      · exact .waiting (fun _ => rfl) (fun h => absurd ⟨h0, hr⟩ h) ⟨_, rfl⟩
    · next hr => exact .waiting (fun h => absurd h.2 hr) (fun _ => rfl) ⟨_, rfl⟩

/-- A turn takes an event without a new pass exactly when it is one of the four loops. -/
theorem turn_events (ctx : Nat) (w : Wait) :
    LoopTakes s.controller w ∧ CountsUp s.controller (s.turn ctx w).controller ∨
      ¬ LoopTakes s.controller w ∧ (SameEvents s.controller (s.turn ctx w).controller ∨
        Polls w ∧ Advances s.controller (s.turn ctx w).controller) := by
  cases w with
  | enableSlot ptr timeout =>
    exact ((loopTurn_enableSlotTurn _ ptr timeout).events fun h => h.2.2).imp_right
      (And.imp_right .inl)
  | addressDevice ptr timeout =>
    exact ((loopTurn_commandTurn _ _ ptr timeout).events And.right).imp_right (And.imp_right .inl)
  | configureEndpoint ptr timeout =>
    exact ((loopTurn_commandTurn _ _ ptr timeout).events And.right).imp_right (And.imp_right .inl)
  | controlIn timeout =>
    exact ((loopTurn_controlInTurn _ timeout).events And.right).imp_right (And.imp_right .inl)
  | poll slotId epAddr ret =>
    exact .inr ⟨id, (pollEndpoint_events slotId epAddr).imp_right (And.intro trivial)⟩
  | update => exact .inr ⟨id, s.withKeyboard_update_events.imp_right (And.intro trivial)⟩
  | halted => exact .inr ⟨id, .inl .refl⟩

/-- One step: what it takes from the event ring, and how it moves on. -/
theorem step_events (a : Action) :
    (∃ ctx w, a = .turn ctx ∧ s.waiting ctx = some w ∧ LoopTakes s.controller w ∧
        CountsUp s.controller (s.step a).controller) ∨
      (∀ ctx w, a = .turn ctx → s.waiting ctx = some w → ¬ LoopTakes s.controller w) ∧
        (SameEvents s.controller (s.step a).controller ∨
          Advances s.controller (s.step a).controller) := by
  cases a with
  | post event => exact .inr ⟨by simp, .inl ⟨rfl, rfl, rfl⟩⟩
  | status usbsts => exact .inr ⟨by simp, .inl ⟨rfl, rfl, rfl⟩⟩
  | report bytes => exact .inr ⟨by simp, .inl .refl⟩
  | attach keyboard => exact .inr ⟨by simp, .inl .refl⟩
  | start ctx call => exact .inr ⟨by simp, s.start_events ctx call⟩
  | turn ctx =>
    cases hw : s.waiting ctx with
    | none =>
      have hstep : s.step (.turn ctx) = s := by simp [step, hw]
      rw [hstep]
      refine .inr ⟨?_, .inl .refl⟩
      rintro _ w ⟨⟩ h
      simp [hw] at h
    | some w =>
      have hstep : s.step (.turn ctx) = s.turn ctx w := by simp [step, hw]
      rw [hstep]
      rcases s.turn_events ctx w with ⟨htakes, hup⟩ | ⟨hno, hevents⟩
      · exact .inl ⟨ctx, w, rfl, hw, htakes, hup⟩
      · refine .inr ⟨?_, hevents.imp_right And.right⟩
        rintro _ w' ⟨⟩ h
        obtain rfl : w = w' := by simpa [hw] using h
        exact hno

/-- The driver's place in the event ring: the slot and the cycle bit of the event after
those it has taken. -/
structure InStep (s : UsbSystem) : Prop where
  index_lt : s.controller.eventRingIndex < 32
  index_eq : s.controller.eventRingIndex = s.controller.events.length % 32
  dcs_eq : s.controller.dcs = 1 ^^^ BitVec.ofNat 8 (s.controller.events.length / 32 % 2)

/-- The driver follows the host controller around the ring: its index stays inside, its
cycle state counts the complete passes, and once every posted event is taken it looks at
the slot the host controller writes next, for the cycle bit it is written with. -/
structure FollowsRing (s : UsbSystem) : Prop where
  index_lt : s.controller.eventRingIndex < 32
  dcs_eq : s.controller.dcs = 1 ^^^ BitVec.ofNat 8 (s.controller.events.length / 32 % 2)
  next : s.controller.events.length = s.posted →
    s.controller.eventRingIndex = s.hostIndex ∧ s.controller.dcs = s.hostCycle

theorem InStep.followsRing {s : UsbSystem} (h : InStep s) : FollowsRing s := by
  refine ⟨h.index_lt, h.dcs_eq, ?_⟩
  intro hall
  rw [h.index_eq, h.dcs_eq, hall]
  exact ⟨rfl, rfl⟩

theorem inStep_start {s : UsbSystem} (h : AtStart s) : InStep s := by
  obtain ⟨memory, commandRing, eventRing, rfl⟩ := h
  exact ⟨Nat.zero_lt_succ 31, rfl, by simp [events, afterInitialize]⟩

theorem InStep.same {s s' : UsbSystem} (h : InStep s)
    (hs : SameEvents s.controller s'.controller) : InStep s' :=
  ⟨by rw [hs.index]; exact h.index_lt, by rw [hs.index, hs.events]; exact h.index_eq,
    by rw [hs.dcs, hs.events]; exact h.dcs_eq⟩

private theorem toggled (n : Nat) :
    (1 ^^^ BitVec.ofNat 8 (n % 2)) ^^^ 1 = (1 ^^^ BitVec.ofNat 8 ((n + 1) % 2) : BitVec 8) := by
  rcases Nat.mod_two_eq_zero_or_one n with h | h
  · rw [h, show (n + 1) % 2 = 1 by omega]
    decide
  · rw [h, show (n + 1) % 2 = 0 by omega]
    decide

theorem InStep.advance {s s' : UsbSystem} (h : InStep s)
    (ha : Advances s.controller s'.controller) : InStep s' := by
  obtain ⟨hlt, hindex, hdcs⟩ := h
  have hlen : s'.controller.events.length = s.controller.events.length + 1 := by
    simp [ha.events]
  have hnext : next32 s.controller.eventRingIndex = s.controller.eventRingIndex + 1 := by
    unfold next32
    omega
  have hi := ha.index
  have hd := ha.dcs
  rw [hnext] at hi hd
  by_cases hlast : s.controller.eventRingIndex + 1 = 32
  · rw [if_pos hlast] at hi hd
    have hpass : (s.controller.events.length + 1) / 32 = s.controller.events.length / 32 + 1 := by
      omega
    refine ⟨by omega, by omega, ?_⟩
    rw [hd, hdcs, hlen, hpass, toggled]
  · rw [if_neg hlast] at hi hd
    have hpass : (s.controller.events.length + 1) / 32 = s.controller.events.length / 32 := by
      omega
    refine ⟨by omega, by omega, ?_⟩
    rw [hd, hdcs, hlen, hpass]

theorem InStep.countUp {s s' : UsbSystem} (h : InStep s)
    (hc : CountsUp s.controller s'.controller) (hlast : s.controller.eventRingIndex ≠ 31) :
    InStep s' := by
  have hlt := h.index_lt
  have hne : next32 s.controller.eventRingIndex ≠ 32 := by
    unfold next32
    omega
  exact h.advance ⟨hc.ready, by rw [if_neg hne, hc.index], by rw [if_neg hne, hc.dcs], hc.events⟩

/-- A step that no waiting loop uses to take the last slot keeps the driver's place. -/
theorem InStep.step {s : UsbSystem} (h : InStep s) {a : Action} (hl : s.LeavesLastSlot a) :
    InStep (s.step a) := by
  rcases s.step_events a with ⟨ctx, w, rfl, hw, htakes, hup⟩ | ⟨_, hevents⟩
  · exact h.countUp hup (hl w hw htakes)
  · exact hevents.elim h.same h.advance

/-- A waiting loop that takes the last slot leaves the ring. -/
theorem leavesLastSlot_of_index_lt {s : UsbSystem} {a : Action}
    (hlt : (s.step a).controller.eventRingIndex < 32) : s.LeavesLastSlot a := by
  rcases s.step_events a with ⟨ctx, w, rfl, hw, htakes, hup⟩ | ⟨hno, _⟩
  · intro _ _ _ hlast
    rw [hup.index, hlast] at hlt
    exact absurd hlt (by decide)
  · cases a with
    | turn ctx =>
      intro w hw htakes
      exact absurd htakes (hno ctx w rfl hw)
    | post _ => trivial
    | status _ => trivial
    | report _ => trivial
    | attach _ => trivial
    | start _ _ => trivial

/-- In every run, the driver follows the event ring in every state reached exactly when no
waiting loop of `EnableSlot`, `AddressDevice`, `ConfigureEndpoint` or `ControlIn` takes the
event in the last slot. -/
theorem event_ring_followed_iff {run : List (UsbSystem × Action)} {s : UsbSystem}
    (h : Run UsbSystem.step Enabled AtStart run s) :
    Throughout (fun _ x => FollowsRing (x.1.step x.2)) run ↔
      Throughout (fun _ x => x.1.LeavesLastSlot x.2) run := by
  constructor
  · intro hfollows
    refine (h.throughout (I := fun _ s => InStep s) (fun s => inStep_start) ?_ hfollows).1
    intro past s a hin _ hf
    have hl := leavesLastSlot_of_index_lt hf.index_lt
    exact ⟨hl, hin.step hl⟩
  · intro hleaves
    refine (h.throughout (I := fun _ s => InStep s) (fun s => inStep_start) ?_ hleaves).1
    intro past s a hin _ hl
    exact ⟨(hin.step hl).followsRing, hin.step hl⟩

/-- A system whose rings are next to each other. -/
def small : UsbSystem :=
  ⟨afterInitialize (fun _ => TRB.zero) 256 512, none, fun _ => none, 0⟩

theorem atStart_small : AtStart small := ⟨fun _ => TRB.zero, 256, 512, rfl⟩

/-- The completion of the `n`-th command, with slot 1. -/
def completion (n : Nat) : TRB := ⟨address (256 + n), 1 <<< 24, (33 <<< 10) ||| (1 <<< 24)⟩

/-- A Port Status Change event. -/
def portStatusChange : TRB := ⟨0, 1 <<< 24, 34 <<< 10⟩

/-- A Transfer Event of the control endpoint of slot 1. -/
def controlDone : TRB := ⟨0, 1 <<< 24, (32 <<< 10) ||| (1 <<< 16) ||| (1 <<< 24)⟩

/-- One device is enabled and addressed. -/
def bringUp : List Action :=
  [.start 0 .enableSlot, .post (completion 0), .turn 0,
    .start 0 (.addressDevice 1 0x4000 1024), .post (completion 1), .turn 0]

/-- `GET_DESCRIPTOR` for the device descriptor. -/
def getDescriptor : Controller.Request := ⟨0x80, 6, 0x0100, 0, 18, 0x8000⟩

/-- Bringing up one device and polling for a first event meet the condition, and the driver
follows the ring throughout. -/
theorem event_ring_followed_bringUp :
    Throughout (fun _ x => FollowsRing (x.1.step x.2))
      (record UsbSystem.step [] small (bringUp ++ [.post portStatusChange,
        .start 1 (.pollEndpoint 1 0x81)])).1 :=
  (event_ring_followed_iff ((Run.start atStart_small).record (by decide +kernel))).mpr
    (by decide +kernel)

/-- Polling takes the slots up to the last but one; then `ControlIn` takes the last one and
looks behind the ring from there on. -/
theorem event_ring_left :
    ¬∀ run s, Run UsbSystem.step Enabled AtStart run s →
      Throughout (fun _ x => FollowsRing (x.1.step x.2)) run := by
  intro h
  have hallowed : Allowed UsbSystem.step Enabled small
      (bringUp ++ (List.replicate 29 [Action.post portStatusChange,
        .start 1 (.pollEndpoint 1 0x81)]).flatten ++
        [.start 0 (.controlIn 1 getDescriptor), .post controlDone, .turn 0]) := by
    decide +kernel
  have hindex : Throughout (fun _ (x : UsbSystem × Action) =>
      (x.1.step x.2).controller.eventRingIndex < 32) _ :=
    (h _ _ ((Run.start atStart_small).record hallowed)).imp fun _ _ hf => hf.index_lt
  exact absurd hindex (by decide +kernel)

end UsbSystem

end Sylphia.Xhci
