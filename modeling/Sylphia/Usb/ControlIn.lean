import Sylphia.Usb.EventRing

/-!
# The result of a control transfer

`ControlIn` queues its TRBs on the control ring of the slot and then waits for the next
Transfer Event. `PollEndpoint` compares the slot and the endpoint of an event with its own;
`ControlIn` compares neither, nor the TRB the event is about.
-/

namespace Sylphia.Xhci

open Transition Controller

/-- The address of a TRB that was written to a transfer ring. -/
def Access.transferAddress? (c : Controller) : Access → Option (BitVec 64)
  | .transfer slot dci index _ => some (address (c.transferRings slot dci + index))
  | _ => none

/-- A call of `ControlIn`, and the driver it was made on. -/
structure ControlCall where
  slotId : BitVec 8
  request : Request
  before : Controller

namespace ControlCall

variable (call : ControlCall)

/-- The addresses of the TRBs the call queues. -/
def queued : List (BitVec 64) :=
  ((call.before.controlIn call.slotId call.request).log.drop call.before.log.length).filterMap
    (Access.transferAddress? call.before)

/-- A Transfer Event of the control endpoint of the slot, about a TRB the call queued. -/
def Owns (event : TRB) : Prop :=
  event.trbType = 32 ∧ event.eventSlot = call.slotId ∧ event.eventDci = 1 ∧
    event.parameter ∈ call.queued

instance decidableOwns (event : TRB) : Decidable (call.Owns event) :=
  inferInstanceAs (Decidable (event.trbType = 32 ∧ event.eventSlot = call.slotId ∧
    event.eventDci = 1 ∧ event.parameter ∈ call.queued))

end ControlCall

/-- The call, if it is one of `ControlIn`. -/
def Call.control? (c : Controller) : Call → Option ControlCall
  | .controlIn slotId r => some ⟨slotId, r, c⟩
  | _ => none

namespace UsbSystem

/-- The last call of the context, if it is one of `ControlIn`. -/
def caller (ctx : Nat) : List (UsbSystem × Action) → Option ControlCall
  | [] => none
  | (s, .start ctx' call) :: past =>
    if ctx' = ctx then call.control? s.controller else caller ctx past
  | _ :: past => caller ctx past

/-- The next event ends the wait of a `ControlIn`. -/
def EndsControlIn (c : Controller) : Wait → Prop
  | .controlIn timeout => timeout ≠ 0 ∧ c.eventReady ∧ c.currentEvent.trbType = 32
  | _ => False

instance decidableEndsControlIn (c : Controller) : (w : Wait) → Decidable (EndsControlIn c w)
  | .controlIn timeout =>
    inferInstanceAs (Decidable (timeout ≠ 0 ∧ c.eventReady ∧ c.currentEvent.trbType = 32))
  | .enableSlot _ _ | .addressDevice _ _ | .configureEndpoint _ _ | .poll _ _ _ | .update
  | .halted => inferInstanceAs (Decidable False)

/-- A `ControlIn` that returns has timed out, or an event of its own has decided the result:
true only for completion code 1 or 13. -/
def DecidedByOwn (past : List (UsbSystem × Action)) : UsbSystem × Action → Prop
  | (s, .turn ctx) => ∀ timeout value, s.waiting ctx = some (.controlIn timeout) →
      (s.controller.controlInTurn timeout).1 = .returned value →
      ∃ call ∈ caller ctx past, timeout = 0 ∧ value = 0 ∨
        call.Owns s.controller.currentEvent ∧ (value ≠ 0 →
          s.controller.currentEvent.completionCode = 1 ∨
            s.controller.currentEvent.completionCode = 13)
  | _ => True

/-- An event that ends the wait of a `ControlIn` is about a TRB the call queued. -/
def TakesOwn (past : List (UsbSystem × Action)) : UsbSystem × Action → Prop
  | (s, .turn ctx) => ∀ w ∈ s.waiting ctx, EndsControlIn s.controller w →
      ∃ call ∈ caller ctx past, call.Owns s.controller.currentEvent
  | _ => True

instance decidableTakesOwn (past : List (UsbSystem × Action)) :
    (x : UsbSystem × Action) → Decidable (TakesOwn past x)
  | (s, .turn ctx) => inferInstanceAs (Decidable (∀ w ∈ s.waiting ctx,
      EndsControlIn s.controller w → ∃ call ∈ caller ctx past, call.Owns s.controller.currentEvent))
  | (_, .post _) | (_, .status _) | (_, .report _) | (_, .attach _) | (_, .start _ _) =>
    inferInstanceAs (Decidable True)

/-- A context inside `ControlIn` has called it. -/
def Called (past : List (UsbSystem × Action)) (s : UsbSystem) : Prop :=
  ∀ ctx timeout, s.waiting ctx = some (.controlIn timeout) → ∃ call, caller ctx past = some call

variable {s : UsbSystem} {past : List (UsbSystem × Action)}

theorem controlInTurn_returned_iff {c : Controller} {timeout : Nat} {value : BitVec 8} :
    (c.controlInTurn timeout).1 = .returned value ↔ timeout = 0 ∧ value = 0 ∨
      EndsControlIn c (.controlIn timeout) ∧
        value = if c.currentEvent.completionCode = 1 ∨ c.currentEvent.completionCode = 13
          then 1 else 0 := by
  have heq (x : BitVec 8) : (Outcome.returned x = .returned value) ↔ value = x := by
    rw [Outcome.returned.injEq, eq_comm]
  unfold controlInTurn EndsControlIn
  split
  · next h0 => simp only [h0, heq, ne_eq, not_true_eq_false, false_and, or_false, true_and]
  · next h0 =>
    split
    · next hr =>
      dsimp only
      split
      · next ht =>
        simp only [h0, hr, ht, heq, ne_eq, not_false_eq_true, true_and, false_and, false_or]
      · next ht => simp only [h0, ht, reduceCtorEq, and_false, false_and, or_self]
    · next hr => simp only [h0, hr, reduceCtorEq, and_false, false_and, or_self]

theorem withKeyboard_waiting (f : Keyboard → Controller → Keyboard × Controller) :
    (s.withKeyboard f).waiting = s.waiting := by
  unfold withKeyboard
  split <;> rfl

/-- Only a call of `ControlIn` starts to wait there. -/
theorem start_waiting {ctx timeout : Nat} {call : Call} (hidle : s.waiting ctx = none)
    (h : (s.start ctx call).waiting ctx = some (.controlIn timeout)) :
    ∃ control, call.control? s.controller = some control := by
  cases call with
  | controlIn slotId r => exact ⟨_, rfl⟩
  | enableSlot => simp [start, wait] at h
  | addressDevice slotId inputCtx ring => simp [start, wait] at h
  | configureEndpoint slotId epAddr inputCtx ring => simp [start, wait] at h
  | transfer slotId epAddr dataBuf len => simp [start, wait] at h
  | processInterrupt => simp [start, wait] at h
  | pollEndpoint slotId epAddr => simp [start, hidle] at h
  | sendNormalTRB slotId epAddr dataBuf len => simp [start, hidle] at h
  | update => simp [start, withKeyboard_waiting, hidle] at h
  | forceSendTRB => simp [start, withKeyboard_waiting, hidle] at h

theorem start_waiting_other {ctx ctx' : Nat} (call : Call) (hne : ctx' ≠ ctx) :
    (s.start ctx call).waiting ctx' = s.waiting ctx' := by
  cases call with
  | update => simp [start, withKeyboard_waiting]
  | forceSendTRB => simp [start, withKeyboard_waiting]
  | _ => simp [start, wait, hne]

theorem turn_waiting_other {ctx ctx' : Nat} (w : Wait) (hne : ctx' ≠ ctx) :
    (s.turn ctx w).waiting ctx' = s.waiting ctx' := by
  cases w with
  | update => simp [turn, finish, withKeyboard_waiting, hne]
  | _ => simp [turn, finish, hne]

theorem finish_waiting_iff {ctx : Nat} {w : Wait} {r : Outcome × Controller} :
    (s.finish ctx r).waiting ctx = some w ↔ r.1 = .waiting w := by
  simp only [finish, Function.update_self]
  cases r.1 with
  | waiting w' => simp
  | returned value => simp

/-- A context inside `ControlIn` was there before its turn. -/
theorem turn_waiting {ctx timeout : Nat} {w : Wait}
    (h : (s.turn ctx w).waiting ctx = some (.controlIn timeout)) (hw : s.waiting ctx = some w) :
    ∃ timeout', w = .controlIn timeout' := by
  cases w with
  | controlIn timeout' => exact ⟨timeout', rfl⟩
  | enableSlot ptr n =>
    obtain h' | ⟨_, h'⟩ := (loopTurn_enableSlotTurn _ ptr n).again _ (finish_waiting_iff.mp h)
    · cases h'
    · cases h'
  | addressDevice ptr n =>
    obtain ⟨_, h'⟩ := (loopTurn_commandTurn _ _ ptr n).again _ (finish_waiting_iff.mp h)
    cases h'
  | configureEndpoint ptr n =>
    obtain ⟨_, h'⟩ := (loopTurn_commandTurn _ _ ptr n).again _ (finish_waiting_iff.mp h)
    cases h'
  | poll slotId epAddr ret =>
    have hturn := finish_waiting_iff.mp h
    simp only [pollTurn] at hturn
    split_ifs at hturn
    simp at hturn
  | update => exact absurd (finish_waiting_iff.mp h) (by simp)
  | halted => simp [turn, hw] at h

theorem Called.step {a : Action} (h : Called past s) (ha : s.Enabled a) :
    Called ((s, a) :: past) (s.step a) := by
  intro ctx timeout hw
  cases a with
  | start ctx' call =>
    rw [caller]
    by_cases hctx : ctx' = ctx
    · subst hctx
      rw [if_pos rfl]
      exact start_waiting ha.1 hw
    · rw [if_neg hctx]
      exact h ctx timeout ((start_waiting_other call (Ne.symm hctx)).symm.trans hw)
  | turn ctx' =>
    show ∃ call, caller ctx past = some call
    cases hw' : s.waiting ctx' with
    | none => exact h ctx timeout (by simpa [UsbSystem.step, hw'] using hw)
    | some w =>
      have hturn : (s.turn ctx' w).waiting ctx = some (.controlIn timeout) := by
        simpa [UsbSystem.step, hw'] using hw
      by_cases hctx : ctx' = ctx
      · subst hctx
        obtain ⟨timeout', rfl⟩ := turn_waiting hturn hw'
        exact h ctx' timeout' hw'
      · exact h ctx timeout ((turn_waiting_other w (Ne.symm hctx)).symm.trans hturn)
  | post _ => exact h ctx timeout hw
  | status _ => exact h ctx timeout hw
  | report _ => exact h ctx timeout hw
  | attach _ => exact h ctx timeout hw

/-- In one step: the event that ends the wait of a `ControlIn` decides its result. -/
theorem Called.decidedByOwn_iff (h : Called past s) (a : Action) :
    DecidedByOwn past (s, a) ↔ TakesOwn past (s, a) := by
  cases a with
  | turn ctx =>
    constructor
    · intro hdecided w hw hends
      cases w with
      | controlIn timeout =>
        obtain ⟨call, hcall, ⟨h0, -⟩ | ⟨howns, -⟩⟩ := hdecided timeout _ hw
          (controlInTurn_returned_iff.mpr (.inr ⟨hends, rfl⟩))
        · exact absurd h0 hends.1
        · exact ⟨call, hcall, howns⟩
      | _ => exact hends.elim
    · intro htakes timeout value hw hreturned
      rcases controlInTurn_returned_iff.mp hreturned with h0 | ⟨hends, hvalue⟩
      · obtain ⟨call, hcall⟩ := h ctx timeout hw
        exact ⟨call, hcall, .inl h0⟩
      · obtain ⟨call, hcall, howns⟩ := htakes _ hw hends
        refine ⟨call, hcall, .inr ⟨howns, fun hne => ?_⟩⟩
        by_contra hcode
        exact hne (hvalue.trans (if_neg hcode))
  | post _ => exact Iff.rfl
  | status _ => exact Iff.rfl
  | report _ => exact Iff.rfl
  | attach _ => exact Iff.rfl
  | start _ _ => exact Iff.rfl

/-- In every run, whatever the host controller posts and whoever else uses the driver, each
`ControlIn` is decided by an event of its own exactly when no other Transfer Event is next in
the event ring at a turn of its wait. -/
theorem control_in_decided_iff {run : List (UsbSystem × Action)} {s : UsbSystem}
    (h : Run UsbSystem.step Enabled AtStart run s) :
    Throughout DecidedByOwn run ↔ Throughout TakesOwn run := by
  refine h.throughout_iff (I := Called) ?_ (fun _ _ _ hin ha => hin.step ha)
    (fun _ _ a hin _ => hin.decidedByOwn_iff a)
  rintro _ ⟨memory, commandRing, eventRing, rfl⟩ ctx timeout hw
  exact absurd hw (by simp)

/-- A Transfer Event of the control endpoint of slot 1, about the Data TRB of its first
request. -/
def dataDone : TRB := ⟨address 1025, 1 <<< 24, (32 <<< 10) ||| (1 <<< 16) ||| (1 <<< 24)⟩

/-- One device answers its first request. -/
theorem control_in_decided_bringUp :
    Throughout DecidedByOwn (record UsbSystem.step [] small (bringUp ++
      [.start 0 (.controlIn 1 getDescriptor), .turn 0, .post dataDone, .turn 0])).1 :=
  (control_in_decided_iff ((Run.start atStart_small).record (by decide +kernel))).mpr
    (by decide +kernel)

/-- A keyboard in slot 1 waits for a key with a TRB on its interrupt endpoint, and the device
in slot 2 is asked for its descriptor. Then a key is pressed. -/
def keyDuringEnumeration : List Action :=
  bringUp ++ [.start 0 (.configureEndpoint 1 0x81 0x5000 2048), .post (completion 2), .turn 0,
    .start 0 (.sendNormalTRB 1 0x81 0x9000 8),
    .start 0 .enableSlot, .post ⟨address 259, 1 <<< 24, (33 <<< 10) ||| (2 <<< 24)⟩, .turn 0,
    .start 0 (.addressDevice 2 0x6000 3072),
    .post ⟨address 260, 1 <<< 24, (33 <<< 10) ||| (2 <<< 24)⟩, .turn 0,
    .start 0 (.controlIn 2 getDescriptor),
    .post ⟨address 2048, 1 <<< 24, (32 <<< 10) ||| (3 <<< 16) ||| (1 <<< 24)⟩]

/-- The request for the descriptor returns true for the key. -/
theorem control_in_misattributes :
    ¬∀ run s, Run UsbSystem.step Enabled AtStart run s → Throughout DecidedByOwn run := by
  intro h
  have hrun := (Run.start atStart_small).record
    (show Allowed UsbSystem.step Enabled small keyDuringEnumeration by decide +kernel)
  have hdecided := (h _ _ (hrun.step (.turn 0) (by decide +kernel))).1
  obtain ⟨call, hcall, ⟨h0, -⟩ | ⟨howns, -⟩⟩ := hdecided 1000000 1 (by decide +kernel)
    (by decide +kernel)
  · exact absurd h0 (by decide)
  · exact absurd howns.2.2.1 (by decide +kernel)

end UsbSystem

end Sylphia.Xhci
