import Sylphia.Usb.EventRing

/-!
# Resubmission of the keyboard's TRB

The keyboard has one TRB outstanding. `Keyboard::Update` submits the next one when its own
poll takes the Transfer Event of the last; every other reader of the event ring passes over
that event and submits nothing.
-/

namespace Sylphia.Xhci

open Transition Controller

namespace Controller

variable {c : Controller}

/-- The log only grows, and transfer rings are not given up. -/
structure LogGrows (c c' : Controller) : Prop where
  log : c.log <+: c'.log
  rings : ∀ slot dci, c.transferRings slot dci ≠ 0 → c'.transferRings slot dci ≠ 0

theorem LogGrows.refl : LogGrows c c := ⟨List.prefix_rfl, fun _ _ h => h⟩

theorem LogGrows.trans {c' c'' : Controller} (h : LogGrows c c') (h' : LogGrows c' c'') :
    LogGrows c c'' :=
  ⟨h.log.trans h'.log, fun slot dci hr => h'.rings slot dci (h.rings slot dci hr)⟩

theorem grows_takeEvent : LogGrows c c.takeEvent := ⟨List.prefix_append _ _, fun _ _ h => h⟩

theorem grows_wrapEventRing : LogGrows c c.wrapEventRing.writeErdp := by
  unfold wrapEventRing
  split <;> exact ⟨List.prefix_rfl, fun _ _ h => h⟩

theorem grows_writeCommand (trb : TRB) : LogGrows c (c.writeCommand trb) :=
  ⟨List.prefix_append _ _, fun _ _ h => h⟩

theorem grows_writeTransfer (slot dci : BitVec 8) (trb : TRB) :
    LogGrows c (c.writeTransfer slot dci trb) :=
  ⟨List.prefix_append _ _, fun _ _ h => h⟩

theorem grows_setRing (slot dci : BitVec 8) {ring : Nat} (hring : ring ≠ 0) :
    LogGrows c (c.setRing slot dci ring) := by
  refine ⟨List.prefix_rfl, fun slot' dci' h => ?_⟩
  by_cases hs : slot' = slot
  · subst hs
    by_cases hd : dci' = dci
    · subst hd
      simpa [setRing] using hring
    · simpa [setRing, hd] using h
  · simpa [setRing, hs] using h

theorem grows_sendNormalTRB (slotId epAddr : BitVec 8) (dataBuf : BitVec 64) (len : BitVec 32) :
    LogGrows c (c.sendNormalTRB slotId epAddr dataBuf len).2 := by
  unfold sendNormalTRB
  dsimp only
  split
  · exact .refl
  · have hwrite := grows_writeTransfer (c := c) slotId (addressToDCI epAddr)
      (normalTRB (c.ringCycleState slotId (addressToDCI epAddr)) dataBuf len)
    split
    · exact hwrite.trans ⟨List.prefix_rfl, fun _ _ h => h⟩
    · exact hwrite

/-- A submission on an allocated ring is one entry of the log. -/
theorem log_sendNormalTRB (slotId epAddr : BitVec 8) (dataBuf : BitVec 64) (len : BitVec 32)
    (hring : c.transferRings slotId (addressToDCI epAddr) ≠ 0) :
    ∃ i trb, (c.sendNormalTRB slotId epAddr dataBuf len).2.log =
      c.log ++ [.transfer slotId (addressToDCI epAddr) i trb] := by
  refine ⟨c.ringIndex slotId (addressToDCI epAddr),
    normalTRB (c.ringCycleState slotId (addressToDCI epAddr)) dataBuf len, ?_⟩
  unfold sendNormalTRB
  dsimp only
  rw [if_neg hring]
  split <;> rfl

theorem grows_pollEndpoint (slotId epAddr : BitVec 8) :
    LogGrows c (c.pollEndpoint slotId epAddr).2 := by
  unfold pollEndpoint
  split
  · exact grows_takeEvent.trans grows_wrapEventRing
  · exact .refl

theorem log_pollEndpoint (slotId epAddr : BitVec 8) (hready : c.eventReady = true) :
    (c.pollEndpoint slotId epAddr).2.log = c.log ++ [.took c.currentEvent] := by
  have hwrap : c.takeEvent.wrapEventRing.writeErdp.log = c.takeEvent.log := by
    unfold wrapEventRing
    split <;> rfl
  unfold pollEndpoint
  rw [if_pos hready]
  exact hwrap

theorem grows_passEvent : LogGrows c c.passEvent := by
  unfold passEvent
  split
  · exact grows_takeEvent.trans grows_wrapEventRing
  · exact .refl

theorem grows_controlIn (slotId : BitVec 8) (r : Request) : LogGrows c (c.controlIn slotId r) := by
  unfold controlIn
  generalize r.trbs (c.ringCycleState slotId 1) = trbs
  induction trbs generalizing c with
  | nil => exact .refl
  | cons trb trbs ih => exact (grows_writeTransfer slotId 1 trb).trans ih

theorem grows_configureEndpoint (slotId epAddr : BitVec 8) (inputCtx : BitVec 64) {ring : Nat}
    (hring : ring ≠ 0) : LogGrows c (c.configureEndpoint slotId epAddr inputCtx ring).2 := by
  refine .trans ?_ (grows_writeCommand _)
  split
  · exact (grows_setRing slotId _ hring).trans ⟨List.prefix_rfl, fun _ _ h => h⟩
  · exact .refl

/-- The current event was taken if it was ready. -/
def Reads (c c' : Controller) : Prop :=
  c'.events = c.events ++ if c.eventReady then [c.currentEvent] else []

theorem Reads.trans_same {c' c'' : Controller} (h : Reads c c') (h' : SameEvents c' c'') :
    Reads c c'' :=
  h'.events.trans h

theorem reads_pollEndpoint (slotId epAddr : BitVec 8) :
    Reads c (c.pollEndpoint slotId epAddr).2 := by
  unfold Reads pollEndpoint
  split
  · next h => exact (advances_take h).events
  · exact (List.append_nil _).symm

theorem reads_passEvent : Reads c c.passEvent := by
  unfold Reads passEvent
  split
  · next h => exact (advances_take h).events
  · exact (List.append_nil _).symm

end Controller

namespace Keyboard

variable (k : Keyboard) {c : Controller}

/-- A Transfer Event of the keyboard's endpoint. -/
def Completes (event : TRB) : Prop :=
  event.trbType = 32 ∧ event.eventSlot = k.slotId ∧ event.eventDci = addressToDCI k.epInterruptIn

instance (event : TRB) : Decidable (k.Completes event) :=
  inferInstanceAs (Decidable (_ ∧ _ ∧ _))

/-- A TRB on the keyboard's endpoint. -/
def submits : Access → Bool
  | .transfer slot dci _ _ => slot == k.slotId && dci == addressToDCI k.epInterruptIn
  | _ => false

/-- The number of TRBs submitted on the keyboard's endpoint. -/
def submitted (c : Controller) : Nat := c.log.countP k.submits

/-- The number of Transfer Events of the keyboard taken from the event ring. -/
def consumed (c : Controller) : Nat := c.events.countP fun event => k.Completes event

/-- The same device at the same endpoint. -/
def SameDevice (k k' : Keyboard) : Prop :=
  k'.slotId = k.slotId ∧ k'.epInterruptIn = k.epInterruptIn

theorem submitted_mono {c' : Controller} (h : LogGrows c c') : k.submitted c ≤ k.submitted c' :=
  h.log.sublist.countP_le

theorem grows_update : LogGrows c (k.update c).2 := by
  unfold update
  dsimp only
  split
  · exact (grows_pollEndpoint _ _).trans (grows_sendNormalTRB _ _ _ _)
  · exact grows_pollEndpoint _ _

theorem reads_update : Reads c (k.update c).2 := by
  unfold update
  dsimp only
  split
  · exact (reads_pollEndpoint _ _).trans_same (sameEvents_sendNormalTRB _ _ _ _)
  · exact reads_pollEndpoint _ _

theorem update_sameDevice : k.SameDevice (k.update c).1 := by
  unfold update
  dsimp only
  split <;> exact ⟨rfl, rfl⟩

/-- The poll of the keyboard's own event gives its completion code. -/
theorem poll_result (hready : c.eventReady = true) (hk : k.Completes c.currentEvent) :
    (c.pollEndpoint k.slotId k.epInterruptIn).1 = 1 ↔ c.currentEvent.completionCode = 1 := by
  have hresult : (c.pollEndpoint k.slotId k.epInterruptIn).1 =
      c.currentEvent.completionCode.toNat := by
    unfold pollEndpoint
    rw [if_pos hready]
    exact if_pos hk
  rw [hresult]
  constructor
  · intro h
    apply BitVec.eq_of_toNat_eq
    exact_mod_cast h
  · intro h
    rw [h]
    rfl

/-- `Update` answers its event with a new TRB when the event reports success. -/
theorem log_update_success (hready : c.eventReady = true) (hk : k.Completes c.currentEvent)
    (hcode : c.currentEvent.completionCode = 1)
    (hring : c.transferRings k.slotId (addressToDCI k.epInterruptIn) ≠ 0) :
    ∃ i trb, (k.update c).2.log = c.log ++ [.took c.currentEvent,
      .transfer k.slotId (addressToDCI k.epInterruptIn) i trb] := by
  have hring' := (grows_pollEndpoint (c := c) k.slotId k.epInterruptIn).rings _ _ hring
  obtain ⟨i, trb, hlog⟩ := log_sendNormalTRB k.slotId k.epInterruptIn k.bufAddress 8 hring'
  refine ⟨i, trb, ?_⟩
  unfold update
  dsimp only
  rw [if_pos ((k.poll_result hready hk).mpr hcode)]
  refine hlog.trans ?_
  rw [log_pollEndpoint _ _ hready, List.append_assoc]
  rfl

/-- `Update` only takes its event when it reports anything else. -/
theorem log_update_failure (hready : c.eventReady = true) (hk : k.Completes c.currentEvent)
    (hcode : c.currentEvent.completionCode ≠ 1) :
    (k.update c).2.log = c.log ++ [.took c.currentEvent] := by
  unfold update
  dsimp only
  rw [if_neg (mt (k.poll_result hready hk).mp hcode)]
  exact log_pollEndpoint _ _ hready

end Keyboard

namespace UsbSystem

variable {s : UsbSystem} {a : Action}

/-- The step looks at the event ring. -/
def Looks (s : UsbSystem) : Action → Prop
  | .start _ (.pollEndpoint _ _) | .start _ .processInterrupt => True
  | .start _ .update => s.keyboard ≠ none
  | .turn ctx => ∃ w ∈ s.waiting ctx,
    LoopTakes s.controller w ∨ (∃ slotId epAddr ret, w = .poll slotId epAddr ret) ∨
      w = .update ∧ s.keyboard ≠ none
  | _ => False

/-- The step is a call of `Keyboard::Update`, by the timer or a reader, or at the end of
`ProcessInterrupt`. -/
def IsUpdate (s : UsbSystem) : Action → Prop
  | .start _ .update => True
  | .turn ctx => s.waiting ctx = some .update
  | _ => False

theorem withKeyboard_of_none {f : Keyboard → Controller → Keyboard × Controller}
    (h : s.keyboard = none) : s.withKeyboard f = s := by
  simp [withKeyboard, h]

theorem withKeyboard_of_some {f : Keyboard → Controller → Keyboard × Controller} {k : Keyboard}
    (h : s.keyboard = some k) : s.withKeyboard f =
      { s with keyboard := some (f k s.controller).1, controller := (f k s.controller).2 } := by
  simp [withKeyboard, h]

/-- An `Update` works on the keyboard there is. -/
theorem IsUpdate.controller_eq (h : s.IsUpdate a) {k : Keyboard} (hk : s.keyboard = some k) :
    (s.step a).controller = (k.update s.controller).2 := by
  cases a with
  | start ctx call =>
    cases call with
    | update => simp only [step, start, withKeyboard_of_some hk]
    | _ => exact absurd h id
  | turn ctx =>
    have hw : s.waiting ctx = some .update := h
    simp only [step, hw, Option.map_some, Option.getD_some, turn, finish, withKeyboard_of_some hk]
  | post _ => exact absurd h id
  | status _ => exact absurd h id
  | report _ => exact absurd h id
  | attach _ => exact absurd h id

theorem withKeyboard_update_reads (h : s.keyboard ≠ none) :
    Reads s.controller (s.withKeyboard Keyboard.update).controller := by
  obtain ⟨k, hk⟩ := Option.ne_none_iff_exists'.mp h
  rw [withKeyboard_of_some hk]
  exact k.reads_update

/-- A step that looks at the ring takes the event that is ready. -/
theorem Looks.reads (h : s.Looks a) : Reads s.controller (s.step a).controller := by
  cases a with
  | start ctx call =>
    cases call with
    | pollEndpoint slotId epAddr => exact reads_pollEndpoint slotId epAddr
    | processInterrupt => exact reads_passEvent
    | update => exact withKeyboard_update_reads h
    | _ => exact absurd h id
  | turn ctx =>
    obtain ⟨w, hw, h⟩ := h
    have hstep : s.step (.turn ctx) = s.turn ctx w := by simp [step, Option.mem_def.mp hw]
    rw [hstep]
    rcases h with htakes | ⟨slotId, epAddr, ret, rfl⟩ | ⟨rfl, hk⟩
    · rcases s.turn_events ctx w with ⟨_, hup⟩ | ⟨hno, _⟩
      · unfold Reads
        rw [hup.events, if_pos hup.ready]
      · exact absurd htakes hno
    · exact reads_pollEndpoint slotId epAddr
    · exact withKeyboard_update_reads hk
  | post _ => exact absurd h id
  | status _ => exact absurd h id
  | report _ => exact absurd h id
  | attach _ => exact absurd h id

/-- Any other step leaves the events as they are. -/
theorem events_of_not_looks (h : ¬ s.Looks a) :
    (s.step a).controller.events = s.controller.events := by
  cases a with
  | start ctx call =>
    cases call with
    | enableSlot => exact (sameEvents_writeCommand _).events
    | addressDevice slotId inputCtx ring =>
      exact (sameEvents_writeCommand (c := s.controller.setRing slotId 1 ring) _).events
    | configureEndpoint slotId epAddr inputCtx ring =>
      exact (sameEvents_configureEndpoint slotId epAddr inputCtx ring).events
    | controlIn slotId r => exact (sameEvents_controlIn slotId r).events
    | pollEndpoint slotId epAddr => exact absurd trivial h
    | sendNormalTRB slotId epAddr dataBuf len =>
      exact (sameEvents_sendNormalTRB slotId epAddr dataBuf len).events
    | transfer slotId epAddr dataBuf len =>
      exact (sameEvents_sendNormalTRB slotId epAddr dataBuf len).events
    | processInterrupt => exact absurd trivial h
    | update =>
      simp only [step, start, withKeyboard_of_none (not_not.mp h)]
    | forceSendTRB =>
      simp only [step, start, withKeyboard]
      split
      · rfl
      · exact (sameEvents_sendNormalTRB _ _ _ _).events
  | turn ctx =>
    cases hw : s.waiting ctx with
    | none => simp [step, hw]
    | some w =>
      have hstep : s.step (.turn ctx) = s.turn ctx w := by simp [step, hw]
      rw [hstep]
      rcases s.turn_events ctx w with ⟨htakes, _⟩ | ⟨_, hsame | ⟨hpolls, _⟩⟩
      · exact absurd ⟨w, hw, .inl htakes⟩ h
      · exact hsame.events
      · cases w with
        | poll slotId epAddr ret => exact absurd ⟨_, hw, .inr (.inl ⟨_, _, _, rfl⟩)⟩ h
        | update =>
          have hnone : s.keyboard = none := by
            by_contra hk
            exact h ⟨_, hw, .inr (.inr ⟨rfl, hk⟩)⟩
          simp only [turn, finish, withKeyboard_of_none hnone]
        | _ => exact absurd hpolls id
  | post _ => rfl
  | status _ => rfl
  | report _ => rfl
  | attach _ => rfl

theorem grows_withKeyboard {f : Keyboard → Controller → Keyboard × Controller}
    (hf : ∀ k c, LogGrows c (f k c).2) : LogGrows s.controller (s.withKeyboard f).controller := by
  unfold withKeyboard
  split
  · exact .refl
  · exact hf _ _

theorem grows_turn (ctx : Nat) (w : Wait) : LogGrows s.controller (s.turn ctx w).controller := by
  cases w with
  | enableSlot ptr timeout =>
    exact (loopTurn_enableSlotTurn _ ptr timeout).controller .refl grows_takeEvent
  | addressDevice ptr timeout =>
    exact (loopTurn_commandTurn _ _ ptr timeout).controller .refl grows_takeEvent
  | configureEndpoint ptr timeout =>
    exact (loopTurn_commandTurn _ _ ptr timeout).controller .refl grows_takeEvent
  | controlIn timeout =>
    exact (loopTurn_controlInTurn _ timeout).controller .refl grows_takeEvent
  | poll slotId epAddr ret => exact grows_pollEndpoint slotId epAddr
  | update => exact grows_withKeyboard fun k _ => k.grows_update
  | halted => exact .refl

theorem grows_step (h : s.Enabled a) : LogGrows s.controller (s.step a).controller := by
  cases a with
  | start ctx call =>
    cases call with
    | enableSlot => exact grows_writeCommand _
    | addressDevice slotId inputCtx ring =>
      exact (grows_setRing slotId 1 h.2).trans (grows_writeCommand _)
    | configureEndpoint slotId epAddr inputCtx ring =>
      exact grows_configureEndpoint slotId epAddr inputCtx h.2
    | controlIn slotId r => exact grows_controlIn slotId r
    | pollEndpoint slotId epAddr => exact grows_pollEndpoint slotId epAddr
    | sendNormalTRB slotId epAddr dataBuf len =>
      exact grows_sendNormalTRB slotId epAddr dataBuf len
    | transfer slotId epAddr dataBuf len => exact grows_sendNormalTRB slotId epAddr dataBuf len
    | processInterrupt => exact grows_passEvent
    | update => exact grows_withKeyboard fun k _ => k.grows_update
    | forceSendTRB => exact grows_withKeyboard fun _ _ => grows_sendNormalTRB _ _ _ _
  | turn ctx =>
    obtain ⟨w, hw⟩ := Option.ne_none_iff_exists'.mp h
    have hstep : s.step (.turn ctx) = s.turn ctx w := by simp [step, hw]
    rw [hstep]
    exact grows_turn ctx w
  | post _ => exact ⟨List.prefix_rfl, fun _ _ h => h⟩
  | status _ => exact ⟨List.prefix_rfl, fun _ _ h => h⟩
  | report _ => exact .refl
  | attach _ => exact .refl

/-- The keyboard `k` is in use, and its endpoint has a ring. -/
structure Attached (k : Keyboard) (s : UsbSystem) : Prop where
  keyboard : ∃ k', s.keyboard = some k' ∧ k.SameDevice k'
  ring : s.controller.transferRings k.slotId (addressToDCI k.epInterruptIn) ≠ 0

theorem withKeyboard_sameDevice {k : Keyboard}
    {f : Keyboard → Controller → Keyboard × Controller}
    (hf : ∀ (k : Keyboard) c, k.SameDevice (f k c).1)
    (h : ∃ k', s.keyboard = some k' ∧ k.SameDevice k') :
    ∃ k', (s.withKeyboard f).keyboard = some k' ∧ k.SameDevice k' := by
  obtain ⟨k', hk', hsame⟩ := h
  rw [withKeyboard_of_some hk']
  exact ⟨_, rfl, (hf k' _).1.trans hsame.1, (hf k' _).2.trans hsame.2⟩

/-- The steps of a run with one keyboard: `g_usb_keyboard` is not set again. -/
def EnabledAttached (s : UsbSystem) (a : Action) : Prop :=
  s.Enabled a ∧ ∀ keyboard, a ≠ .attach keyboard

theorem Attached.step {k : Keyboard} (h : Attached k s) (ha : s.EnabledAttached a) :
    Attached k (s.step a) := by
  refine ⟨?_, (grows_step ha.1).rings _ _ h.ring⟩
  cases a with
  | start ctx call =>
    cases call with
    | update => exact withKeyboard_sameDevice (fun k _ => k.update_sameDevice) h.keyboard
    | forceSendTRB => exact withKeyboard_sameDevice (fun _ _ => ⟨rfl, rfl⟩) h.keyboard
    | _ => exact h.keyboard
  | turn ctx =>
    obtain ⟨w, hw⟩ := Option.ne_none_iff_exists'.mp ha.1
    have hstep : s.step (.turn ctx) = s.turn ctx w := by simp [UsbSystem.step, hw]
    rw [hstep]
    cases w with
    | update => exact withKeyboard_sameDevice (fun k _ => k.update_sameDevice) h.keyboard
    | _ => exact h.keyboard
  | post _ => exact h.keyboard
  | status _ => exact h.keyboard
  | report bytes =>
    obtain ⟨k', hk', hsame⟩ := h.keyboard
    exact ⟨{ k' with buf := bytes }, by simp [UsbSystem.step, hk'], hsame⟩
  | attach keyboard => exact absurd rfl (ha.2 keyboard)

/-- The end of a successful `Keyboard::Initialize`, from where TRBs and events count. -/
def AfterKeyboardStart (k : Keyboard) (s : UsbSystem) : Prop :=
  ∃ s0 : UsbSystem, s0.controller.log = [] ∧
    s0.controller.transferRings k.slotId (addressToDCI k.epInterruptIn) ≠ 0 ∧
    s = { s0 with
      keyboard := some (k.start s0.controller).1, controller := (k.start s0.controller).2 }

/-- A Transfer Event of the keyboard is taken by an `Update` that submits a new TRB, and one
TRB at least is outstanding. -/
structure Resubmits (k : Keyboard) (x : UsbSystem × Action) : Prop where
  answered : ∀ event, k.Completes event →
    (x.1.step x.2).controller.events = x.1.controller.events ++ [event] →
    x.1.IsUpdate x.2 ∧ ∃ i trb, (x.1.step x.2).controller.log = x.1.controller.log ++
      [.took event, .transfer k.slotId (addressToDCI k.epInterruptIn) i trb]
  outstanding : k.consumed (x.1.step x.2).controller + 1 ≤ k.submitted (x.1.step x.2).controller

/-- A step that looks at the event ring while a Transfer Event of the keyboard is its current
event is a `Keyboard::Update`, and the event reports success. -/
def KeyboardServed (k : Keyboard) (x : UsbSystem × Action) : Prop :=
  x.1.controller.eventReady = true → k.Completes x.1.controller.currentEvent →
    x.1.Looks x.2 → x.1.IsUpdate x.2 ∧ x.1.controller.currentEvent.completionCode = 1

theorem attached_of_start {k : Keyboard} (h : AfterKeyboardStart k s) :
    Attached k s ∧ k.consumed s.controller + 1 ≤ k.submitted s.controller := by
  obtain ⟨s0, hlog, hring, rfl⟩ := h
  obtain ⟨i, trb, hsend⟩ := log_sendNormalTRB k.slotId k.epInterruptIn k.bufAddress 8 hring
  rw [hlog] at hsend
  refine ⟨⟨⟨_, rfl, rfl, rfl⟩, (grows_sendNormalTRB _ _ _ _).rings _ _ hring⟩, ?_⟩
  have hstart : (k.start s0.controller).2.log =
      [] ++ [.transfer k.slotId (addressToDCI k.epInterruptIn) i trb] := hsend
  simp [Keyboard.consumed, Keyboard.submitted, events, hstart, Access.event?, Keyboard.submits]

/-- The log an `Update` of the keyboard's own event leaves. -/
theorem Attached.log_update {k : Keyboard} (h : Attached k s) (hu : s.IsUpdate a)
    (hready : s.controller.eventReady = true) (hk : k.Completes s.controller.currentEvent) :
    (s.controller.currentEvent.completionCode = 1 → ∃ i trb,
        (s.step a).controller.log = s.controller.log ++ [.took s.controller.currentEvent,
          .transfer k.slotId (addressToDCI k.epInterruptIn) i trb]) ∧
      (s.controller.currentEvent.completionCode ≠ 1 →
        (s.step a).controller.log = s.controller.log ++ [.took s.controller.currentEvent]) := by
  obtain ⟨k', hk', hslot, hep⟩ := h.keyboard
  have hcompletes : k'.Completes s.controller.currentEvent := by
    rw [Keyboard.Completes, hslot, hep]
    exact hk
  have hring := h.ring
  rw [← hslot, ← hep] at hring ⊢
  rw [hu.controller_eq hk']
  exact ⟨fun hcode => k'.log_update_success hready hcompletes hcode hring,
    fun hcode => k'.log_update_failure hready hcompletes hcode⟩

theorem Attached.served_of_resubmits {k : Keyboard} (h : Attached k s)
    (hr : Resubmits k (s, a)) : KeyboardServed k (s, a) := by
  intro hready hk hlooks
  have hevents : (s.step a).controller.events =
      s.controller.events ++ [s.controller.currentEvent] := by
    have hreads := hlooks.reads
    rwa [Reads, if_pos hready] at hreads
  obtain ⟨hu, i, trb, hlog⟩ := hr.answered _ hk hevents
  refine ⟨hu, ?_⟩
  by_contra hcode
  rw [(h.log_update hu hready hk).2 hcode] at hlog
  have hlen := congrArg List.length hlog
  simp at hlen

/-- A step that serves the keyboard keeps one TRB outstanding. -/
theorem Attached.resubmits_of_served {k : Keyboard} (h : Attached k s) (ha : s.Enabled a)
    (hout : k.consumed s.controller + 1 ≤ k.submitted s.controller)
    (hs : KeyboardServed k (s, a)) : Resubmits k (s, a) := by
  have hmono := k.submitted_mono (grows_step ha)
  by_cases htakes : s.controller.eventReady = true ∧ s.Looks a
  · obtain ⟨hready, hlooks⟩ := htakes
    have hevents := hlooks.reads
    rw [Reads, if_pos hready] at hevents
    by_cases hk : k.Completes s.controller.currentEvent
    · obtain ⟨hu, hcode⟩ := hs hready hk hlooks
      obtain ⟨i, trb, hlog⟩ := (h.log_update hu hready hk).1 hcode
      have hconsumed : k.consumed (s.step a).controller = k.consumed s.controller + 1 := by
        simp [Keyboard.consumed, hevents, hk]
      have hsubmitted : k.submitted (s.step a).controller = k.submitted s.controller + 1 := by
        simp [Keyboard.submitted, hlog, Keyboard.submits]
      refine ⟨fun event _ he => ?_, by dsimp only; omega⟩
      obtain rfl : s.controller.currentEvent = event := by simpa [hevents] using he
      exact ⟨hu, i, trb, hlog⟩
    · have hconsumed : k.consumed (s.step a).controller = k.consumed s.controller := by
        simp [Keyboard.consumed, hevents, hk]
      refine ⟨fun event hcompletes he => ?_, by dsimp only; omega⟩
      obtain rfl : s.controller.currentEvent = event := by simpa [hevents] using he
      exact absurd hcompletes hk
  · -- Nothing is taken: the step does not look, or there is no event.
    have hevents : (s.step a).controller.events = s.controller.events := by
      by_cases hlooks : s.Looks a
      · have hready : ¬ s.controller.eventReady = true := fun hready => htakes ⟨hready, hlooks⟩
        have hreads := hlooks.reads
        rwa [Reads, if_neg hready, List.append_nil] at hreads
      · exact events_of_not_looks hlooks
    have hconsumed : k.consumed (s.step a).controller = k.consumed s.controller := by
      rw [Keyboard.consumed, hevents]
      rfl
    refine ⟨fun event _ he => ?_, by dsimp only; omega⟩
    rw [hevents] at he
    simp at he

/-- In every run after the keyboard was started, every Transfer Event of the keyboard is
answered with a new TRB and one TRB is always outstanding exactly when the event ring is
looked at only by `Keyboard::Update` while such an event is current, and the event reports
success. -/
theorem keyboard_resubmitted_iff {k : Keyboard} {run : List (UsbSystem × Action)}
    {s : UsbSystem} (h : Run UsbSystem.step EnabledAttached (AfterKeyboardStart k) run s) :
    Throughout (fun _ => Resubmits k) run ↔ Throughout (fun _ => KeyboardServed k) run := by
  let I (_ : List (UsbSystem × Action)) (s : UsbSystem) : Prop :=
    Attached k s ∧ k.consumed s.controller + 1 ≤ k.submitted s.controller
  constructor
  · intro hr
    refine (h.throughout (I := I) (fun _ => attached_of_start) ?_ hr).1
    rintro past s a ⟨hattached, _⟩ ha hr
    exact ⟨hattached.served_of_resubmits hr, hattached.step ha, hr.outstanding⟩
  · intro hs
    refine (h.throughout (I := I) (fun _ => attached_of_start) ?_ hs).1
    rintro past s a ⟨hattached, hout⟩ ha hs
    have hr := hattached.resubmits_of_served ha.1 hout hs
    exact ⟨hr, hattached.step ha, hr.outstanding⟩

/-- A keyboard at endpoint 1 of slot 1. -/
def smallKeyboard : Keyboard := ⟨1, 0x81, 0x9000, [], [], true, []⟩

/-- One key press of that keyboard. -/
def keyPress : TRB := ⟨0, 1 <<< 24, (32 <<< 10) ||| (3 <<< 16) ||| (1 <<< 24)⟩

/-- The system of one device, whose keyboard was just started. -/
def smallAttached : UsbSystem :=
  let c := { afterInitialize (fun _ => TRB.zero) 256 512 with
    transferRings := fun slot dci => if slot = 1 ∧ dci = 3 then 1280 else 0 }
  { controller := (smallKeyboard.start c).2
    keyboard := some (smallKeyboard.start c).1
    waiting := fun _ => none
    posted := 0 }

theorem smallAttached_start : AfterKeyboardStart smallKeyboard smallAttached :=
  ⟨⟨{ afterInitialize (fun _ => TRB.zero) 256 512 with
      transferRings := fun slot dci => if slot = 1 ∧ dci = 3 then 1280 else 0 }, none,
      fun _ => none, 0⟩, rfl, by decide, rfl⟩

/-- The interrupt of one key press: `ProcessInterrupt` passes over its event, and the
`Update` it calls then finds none. No TRB is outstanding any more. -/
theorem keyboard_silent :
    ¬∀ k run s, Run UsbSystem.step EnabledAttached (AfterKeyboardStart k) run s →
      Throughout (fun _ => Resubmits k) run := by
  intro h
  have hallowed : Allowed UsbSystem.step EnabledAttached smallAttached
      [.post keyPress, .start 0 .processInterrupt, .turn 0] :=
    ⟨⟨trivial, nofun⟩, ⟨⟨rfl, trivial⟩, nofun⟩, ⟨nofun, nofun⟩, trivial⟩
  have hrun := (Run.start smallAttached_start).record hallowed
  exact absurd (h _ _ _ hrun).1.outstanding (by decide +kernel)

/-- An `Update` that finds the key press first submits the next TRB. -/
theorem keyboard_resubmitted_keyPress :
    Throughout (fun _ => Resubmits smallKeyboard)
      (record UsbSystem.step [] smallAttached [.post keyPress, .start 0 .update]).1 := by
  have hallowed : Allowed UsbSystem.step EnabledAttached smallAttached
      [.post keyPress, .start 0 .update] :=
    ⟨⟨trivial, nofun⟩, ⟨⟨rfl, trivial⟩, nofun⟩, trivial⟩
  exact (keyboard_resubmitted_iff ((Run.start smallAttached_start).record hallowed)).mpr
    ⟨fun _ _ _ => ⟨trivial, by decide +kernel⟩, fun _ _ h => absurd h id, trivial⟩

end UsbSystem

end Sylphia.Xhci
