import Sylphia.Core.Run
import Sylphia.Usb.Xhci

/-!
# The keyboard driver and its environment

`USB::Keyboard` polls its interrupt endpoint and submits a new TRB for each report. The
system around it is any number of kernel contexts, each of them idle or inside one call of
the driver, and a host controller that posts events at any time.
-/

namespace Sylphia.Xhci

open Transition

/-- `USB::Keyboard`, with the bytes it has passed to `KeyboardFD::OnInput`. -/
structure Keyboard where
  slotId : BitVec 8
  epInterruptIn : BitVec 8
  /-- The address of `buf_`. -/
  bufAddress : BitVec 64
  /-- `buf_`, which the device fills. -/
  buf : List (BitVec 8)
  /-- `prev_buf_`. -/
  prevBuf : List (BitVec 8)
  /-- Whether `g_fds[0]` is a keyboard descriptor. -/
  attached : Bool
  onInput : List (BitVec 8)
  deriving DecidableEq, Repr

namespace Keyboard

/-- `kHidToAsciiMap`: the entries that are not 0 by default. -/
def hidToAsciiMap : List (BitVec 8) :=
  [0, 0, 0, 0] ++ (List.range 26).map (fun i => BitVec.ofNat 8 (0x61 + i)) ++
    [0x31, 0x32, 0x33, 0x34, 0x35, 0x36, 0x37, 0x38, 0x39, 0x30, 0x0A, 0x1B, 0x08, 0x09, 0x20,
      0x2D, 0x3D, 0x5B, 0x5D, 0x5C, 0x23, 0x3B, 0x27, 0x60, 0x2C, 0x2E, 0x2F]

/-- `kHidToAsciiMapShift`: the entries that are not 0 by default. -/
def hidToAsciiMapShift : List (BitVec 8) :=
  [0, 0, 0, 0] ++ (List.range 26).map (fun i => BitVec.ofNat 8 (0x41 + i)) ++
    [0x21, 0x40, 0x23, 0x24, 0x25, 0x5E, 0x26, 0x2A, 0x28, 0x29, 0x0A, 0x1B, 0x08, 0x09, 0x20,
      0x5F, 0x2B, 0x7B, 0x7D, 0x7C, 0x7E, 0x3A, 0x22, 0x7E, 0x3C, 0x3E, 0x3F]

variable (k : Keyboard)

/-- The bytes the keys of a report stand for: keys that were not down before, by the map
the shift keys select. -/
def typed : List (BitVec 8) :=
  let modifiers := k.buf.getD 0 0
  let map := if modifiers &&& 0x02 ≠ 0 ∨ modifiers &&& 0x20 ≠ 0 then hidToAsciiMapShift
    else hidToAsciiMap
  let pressed := (k.buf.drop 2).filter fun key => key != 0 && !(k.prevBuf.drop 2).contains key
  (pressed.map fun key => map.getD key.toNat 0).filter (· != 0)

/-- Keep the report and clear the buffer for the next one. -/
def nextReport : Keyboard := { k with prevBuf := k.buf, buf := List.replicate 8 0 }

/-- `SendNormalTRB` for the next report. -/
def submit (c : Controller) : Controller :=
  (c.sendNormalTRB k.slotId k.epInterruptIn k.bufAddress 8).2

/-- The end of `Keyboard::Initialize`, once the endpoint is configured. -/
def start (c : Controller) : Keyboard × Controller :=
  ({ k with buf := List.replicate 8 0, prevBuf := List.replicate 8 0 }, k.submit c)

/-- `ForceSendTRB`. -/
def forceSendTRB (c : Controller) : Keyboard × Controller := (k.nextReport, k.submit c)

/-- `Update`. -/
def update (c : Controller) : Keyboard × Controller :=
  let (result, c1) := c.pollEndpoint k.slotId k.epInterruptIn
  if result = 1 then
    let k1 := { k with onInput := if k.attached then k.onInput ++ k.typed else k.onInput }
    (k1.nextReport, k.submit c1)
  else (k, c1)

end Keyboard

/-- The driver, `g_usb_keyboard`, the contexts inside a call, and the number of events the
host controller has posted. -/
structure UsbSystem where
  controller : Controller
  keyboard : Option Keyboard
  waiting : Nat → Option Controller.Wait
  posted : Nat

/-- A call of the driver. Addresses of new contexts and rings come from the memory manager. -/
inductive Call where
  | enableSlot
  | addressDevice (slotId : BitVec 8) (inputCtx : BitVec 64) (ring : Nat)
  | configureEndpoint (slotId epAddr : BitVec 8) (inputCtx : BitVec 64) (ring : Nat)
  | controlIn (slotId : BitVec 8) (r : Controller.Request)
  | pollEndpoint (slotId epAddr : BitVec 8)
  | sendNormalTRB (slotId epAddr : BitVec 8) (dataBuf : BitVec 64) (len : BitVec 32)
  /-- A transfer of the mass storage driver: a TRB, then polling until it is done. -/
  | transfer (slotId epAddr : BitVec 8) (dataBuf : BitVec 64) (len : BitVec 32)
  | processInterrupt
  | update
  | forceSendTRB
  deriving DecidableEq, Repr

/-- One step of the system. -/
inductive Action where
  /-- The host controller posts an event. -/
  | post (event : TRB)
  /-- The host controller changes `USBSTS`. -/
  | status (usbsts : BitVec 32)
  /-- The keyboard's report reaches its buffer. -/
  | report (bytes : List (BitVec 8))
  /-- `Initialize` sets or clears `g_usb_keyboard`. -/
  | attach (keyboard : Option Keyboard)
  /-- An idle context makes a call. -/
  | start (ctx : Nat) (call : Call)
  /-- A waiting context takes one turn of its loop. -/
  | turn (ctx : Nat)
  deriving DecidableEq, Repr

namespace UsbSystem

open Controller

variable (s : UsbSystem)

/-- The slot of the event ring that the host controller writes next. -/
def hostIndex : Nat := s.posted % 32

/-- The host controller's producer cycle state: 1 on its first pass, toggled on each. -/
def hostCycle : BitVec 8 := 1 ^^^ BitVec.ofNat 8 (s.posted / 32 % 2)

/-- The host controller writes an event with its cycle bit. -/
def post (event : TRB) : UsbSystem :=
  { s with
    controller := { s.controller with
      memory := Function.update s.controller.memory (s.controller.eventRing + s.hostIndex)
        { event with control := (event.control &&& ~~~1) ||| s.hostCycle.setWidth 32 } }
    posted := s.posted + 1 }

/-- The context goes on with `w`. -/
def wait (ctx : Nat) (w : Wait) (c : Controller) : UsbSystem :=
  { s with controller := c, waiting := Function.update s.waiting ctx (some w) }

/-- Work done on the driver and on the keyboard, if there is one. -/
def withKeyboard (f : Keyboard → Controller → Keyboard × Controller) : UsbSystem :=
  match s.keyboard with
  | none => s
  | some k =>
    { s with keyboard := some (f k s.controller).1, controller := (f k s.controller).2 }

/-- An idle context makes a call. -/
def start (ctx : Nat) : Call → UsbSystem
  | .enableSlot =>
    s.wait ctx (.enableSlot s.controller.enableSlot.1 10000000) s.controller.enableSlot.2
  | .addressDevice slotId inputCtx ring =>
    let (ptr, c) := s.controller.addressDevice slotId inputCtx ring
    s.wait ctx (.addressDevice ptr 1000000) c
  | .configureEndpoint slotId epAddr inputCtx ring =>
    let (ptr, c) := s.controller.configureEndpoint slotId epAddr inputCtx ring
    s.wait ctx (.configureEndpoint ptr 1000000) c
  | .controlIn slotId r => s.wait ctx (.controlIn 1000000) (s.controller.controlIn slotId r)
  | .pollEndpoint slotId epAddr =>
    { s with controller := (s.controller.pollEndpoint slotId epAddr).2 }
  | .sendNormalTRB slotId epAddr dataBuf len =>
    { s with controller := (s.controller.sendNormalTRB slotId epAddr dataBuf len).2 }
  | .transfer slotId epAddr dataBuf len =>
    let (ret, c) := s.controller.sendNormalTRB slotId epAddr dataBuf len
    s.wait ctx (.poll slotId epAddr ret) c
  | .processInterrupt => s.wait ctx .update s.controller.passEvent
  | .update => s.withKeyboard Keyboard.update
  | .forceSendTRB => s.withKeyboard Keyboard.forceSendTRB

/-- The outcome of a turn: the context waits on or is idle again. -/
def finish (ctx : Nat) (r : Outcome × Controller) : UsbSystem :=
  { s with
    controller := r.2
    waiting := Function.update s.waiting ctx
      (match r.1 with
        | .waiting w => some w
        | .returned _ => none) }

/-- One turn of a waiting loop. -/
def turn (ctx : Nat) : Wait → UsbSystem
  | .enableSlot ptr timeout => s.finish ctx (s.controller.enableSlotTurn ptr timeout)
  | .addressDevice ptr timeout => s.finish ctx (s.controller.commandTurn .addressDevice ptr timeout)
  | .configureEndpoint ptr timeout =>
    s.finish ctx (s.controller.commandTurn .configureEndpoint ptr timeout)
  | .controlIn timeout => s.finish ctx (s.controller.controlInTurn timeout)
  | .poll slotId epAddr ret => s.finish ctx (s.controller.pollTurn slotId epAddr ret)
  | .update =>
    let s1 := s.withKeyboard Keyboard.update
    s1.finish ctx (.returned 0, s1.controller)
  | .halted => s

/-- One step of the system. -/
def step : Action → UsbSystem
  | .post event => s.post event
  | .status usbsts => { s with controller := { s.controller with usbsts := usbsts } }
  | .report bytes => { s with keyboard := s.keyboard.map fun k => { k with buf := bytes } }
  | .attach keyboard => { s with keyboard := keyboard }
  | .start ctx call => s.start ctx call
  | .turn ctx => ((s.waiting ctx).map (s.turn ctx)).getD s

/-- A call is made by an idle context, and gets the rings it allocates. -/
def Enabled (s : UsbSystem) : Action → Prop
  | .start ctx call => s.waiting ctx = none ∧
    match call with
    | .addressDevice _ _ ring | .configureEndpoint _ _ _ ring => ring ≠ 0
    | _ => True
  | .turn ctx => s.waiting ctx ≠ none
  | _ => True

instance decidableEnabled (s : UsbSystem) : (a : Action) → Decidable (s.Enabled a)
  | .start ctx call =>
    match call with
    | .addressDevice _ _ ring =>
      inferInstanceAs (Decidable (s.waiting ctx = none ∧ ring ≠ 0))
    | .configureEndpoint _ _ _ ring =>
      inferInstanceAs (Decidable (s.waiting ctx = none ∧ ring ≠ 0))
    | .enableSlot | .controlIn _ _ | .pollEndpoint _ _ | .sendNormalTRB _ _ _ _
    | .transfer _ _ _ _ | .processInterrupt | .update | .forceSendTRB =>
      inferInstanceAs (Decidable (s.waiting ctx = none ∧ True))
  | .turn ctx => inferInstanceAs (Decidable (s.waiting ctx ≠ none))
  | .post _ | .status _ | .report _ | .attach _ => inferInstanceAs (Decidable True)

/-- The system when `Initialize` starts the host controller. -/
def AtStart (s : UsbSystem) : Prop :=
  ∃ memory commandRing eventRing,
    s = ⟨afterInitialize memory commandRing eventRing, none, fun _ => none, 0⟩

end UsbSystem

end Sylphia.Xhci
