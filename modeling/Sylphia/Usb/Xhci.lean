import Mathlib.Algebra.Order.Ring.Nat
import Mathlib.Data.List.Basic
import Mathlib.Logic.Function.Basic

/-!
# The xHCI driver

The rings of `USB::XHCI::Controller` lie in one memory, given in cells of the size of a
`TRB`: ring element `i` is cell `ring + i`, also where `i` is behind the end of the ring.
A call that waits for an event is split where the source is: what it submits, and one turn
of its waiting loop. Between two turns anything else may happen. Device contexts are left
out: the driver fills them for the host controller and never reads them.
-/

namespace Sylphia.Xhci

/-- A transfer request block. -/
structure TRB where
  parameter : BitVec 64
  status : BitVec 32
  control : BitVec 32
  deriving DecidableEq, Repr

namespace TRB

/-- A block of zeroed memory. -/
def zero : TRB := ⟨0, 0, 0⟩

/-- `control & 1`. -/
def cycleBit (t : TRB) : BitVec 32 := t.control &&& 1

/-- `(control >> 10) & 0x3F`. -/
def trbType (t : TRB) : BitVec 32 := (t.control >>> 10) &&& 0x3F

/-- `(status >> 24) & 0xFF` of an event. -/
def completionCode (t : TRB) : BitVec 32 := (t.status >>> 24) &&& 0xFF

/-- `(control >> 24) & 0xFF` of an event. -/
def eventSlot (t : TRB) : BitVec 8 := ((t.control >>> 24) &&& 0xFF).setWidth 8

/-- `(control >> 16) & 0x1F` of a Transfer Event. -/
def eventDci (t : TRB) : BitVec 8 := ((t.control >>> 16) &&& 0x1F).setWidth 8

end TRB

/-- What the driver took from the event ring and wrote to the other rings. -/
inductive Access where
  | took (event : TRB)
  | command (index : Nat) (trb : TRB)
  | transfer (slot dci : BitVec 8) (index : Nat) (trb : TRB)
  deriving DecidableEq, Repr

/-- The byte address of a memory cell. -/
def address (cell : Nat) : BitVec 64 := BitVec.ofNat 64 (16 * cell)

/-- The next value of a `uint32_t` counter. -/
def next32 (n : Nat) : Nat := (n + 1) % 2 ^ 32

/-- The driver object, its memory, and the registers it shares with the host controller.
A null ring is cell 0. -/
structure Controller where
  memory : Nat → TRB
  commandRing : Nat
  eventRing : Nat
  /-- Dequeue cycle state of the event ring. -/
  dcs : BitVec 8
  /-- Producer cycle state of the command ring. -/
  pcs : BitVec 8
  cmdRingIndex : Nat
  eventRingIndex : Nat
  transferRings : BitVec 8 → BitVec 8 → Nat
  ringCycleState : BitVec 8 → BitVec 8 → BitVec 8
  ringIndex : BitVec 8 → BitVec 8 → Nat
  /-- `USBSTS`, written by the host controller. -/
  usbsts : BitVec 32
  /-- `ERDP` of interrupter 0, written by the driver. -/
  erdp : BitVec 64
  /-- What the driver did so far, oldest first; not part of the code. -/
  log : List Access

/-- `AddressToDCI`. -/
def addressToDCI (epAddr : BitVec 8) : BitVec 8 :=
  if epAddr = 0 then 1
  else 2 * (epAddr &&& 0xF) + (if epAddr &&& 0x80 = 0 then 0 else 1)

namespace Controller

/-- `n` cells from `cell` on are zeroed. -/
def zeroCells (memory : Nat → TRB) (cell n : Nat) : Nat → TRB :=
  fun a => if cell ≤ a ∧ a < cell + n then TRB.zero else memory a

/-- The state `Initialize` has set up when it starts the controller: zeroed command and
event rings, and a Link TRB at the end of the command ring. -/
def afterInitialize (memory : Nat → TRB) (commandRing eventRing : Nat) : Controller where
  memory := zeroCells (Function.update (zeroCells memory commandRing 32) (commandRing + 31)
    ⟨address commandRing, 0, (6 <<< 10) ||| 2⟩) eventRing 32
  commandRing := commandRing
  eventRing := eventRing
  dcs := 1
  pcs := 1
  cmdRingIndex := 0
  eventRingIndex := 0
  transferRings := fun _ _ => 0
  ringCycleState := fun _ _ => 1
  ringIndex := fun _ _ => 0
  usbsts := 0
  erdp := address eventRing
  log := []

variable (c : Controller)

/-- `event_ring_[event_ring_index_]`. -/
def currentEvent : TRB := c.memory (c.eventRing + c.eventRingIndex)

/-- `(control & 1) == dcs_`. -/
def eventReady : Bool := c.currentEvent.cycleBit == c.dcs.setWidth 32

/-- `event_ring_index_++` for an event that is ready. -/
def takeEvent : Controller :=
  { c with
    eventRingIndex := next32 c.eventRingIndex
    log := c.log ++ [.took c.currentEvent] }

/-- Start the next pass at the end of the event ring. -/
def wrapEventRing : Controller :=
  if c.eventRingIndex = 32 then { c with eventRingIndex := 0, dcs := c.dcs ^^^ 1 } else c

/-- Tell the host controller how far the event ring has been read, clearing the busy bit. -/
def writeErdp : Controller := { c with erdp := address (c.eventRing + c.eventRingIndex) ||| 8 }

/-- `PollEndpoint`: the completion code of a Transfer Event of the endpoint, or -1. -/
def pollEndpoint (slotId epAddr : BitVec 8) : Int × Controller :=
  if c.eventReady then
    let event := c.currentEvent
    let retCode : Int :=
      if event.trbType = 32 ∧ event.eventSlot = slotId ∧ event.eventDci = addressToDCI epAddr
      then event.completionCode.toNat
      else -1
    (retCode, c.takeEvent.wrapEventRing.writeErdp)
  else (-1, c)

/-- The part of `ProcessInterrupt` before it calls `Keyboard::Update`. -/
def passEvent : Controller :=
  if c.eventReady then c.takeEvent.wrapEventRing.writeErdp else c

/-- Write a command TRB and advance `cmd_ring_index_`. -/
def writeCommand (trb : TRB) : Controller :=
  { c with
    memory := Function.update c.memory (c.commandRing + c.cmdRingIndex) trb
    cmdRingIndex := next32 c.cmdRingIndex
    log := c.log ++ [.command c.cmdRingIndex trb] }

/-- Write the next TRB of a transfer ring and advance its index. -/
def writeTransfer (slot dci : BitVec 8) (trb : TRB) : Controller :=
  { c with
    memory := Function.update c.memory (c.transferRings slot dci + c.ringIndex slot dci) trb
    ringIndex := Function.update c.ringIndex slot
      (Function.update (c.ringIndex slot) dci (next32 (c.ringIndex slot dci)))
    log := c.log ++ [.transfer slot dci (c.ringIndex slot dci) trb] }

/-- The Link TRB at the end of a transfer ring, and the start of the next pass. -/
def writeLink (slot dci : BitVec 8) (pcs : BitVec 8) : Controller :=
  { c with
    memory := Function.update c.memory (c.transferRings slot dci + 31)
      ⟨address (c.transferRings slot dci), 0, (pcs.setWidth 32 &&& 1) ||| (6 <<< 10) ||| (1 <<< 1)⟩
    ringCycleState := Function.update c.ringCycleState slot
      (Function.update (c.ringCycleState slot) dci (c.ringCycleState slot dci ^^^ 1))
    ringIndex := Function.update c.ringIndex slot (Function.update (c.ringIndex slot) dci 0) }

/-- The Normal TRB of `SendNormalTRB`. -/
def normalTRB (pcs : BitVec 8) (dataBuf : BitVec 64) (len : BitVec 32) : TRB :=
  ⟨dataBuf, len, (pcs.setWidth 32 &&& 1) ||| (1 <<< 10) ||| (1 <<< 5) ||| (1 <<< 2)⟩

/-- `SendNormalTRB`. -/
def sendNormalTRB (slotId epAddr : BitVec 8) (dataBuf : BitVec 64) (len : BitVec 32) :
    Bool × Controller :=
  let dci := addressToDCI epAddr
  if c.transferRings slotId dci = 0 then (false, c)
  else
    let pcs := c.ringCycleState slotId dci
    let c1 := c.writeTransfer slotId dci (normalTRB pcs dataBuf len)
    (true, if c1.ringIndex slotId dci = 31 then c1.writeLink slotId dci pcs else c1)

/-- `EnableSlot` up to its waiting loop: the address of the command and the new state. -/
def enableSlot : BitVec 64 × Controller :=
  (address (c.commandRing + c.cmdRingIndex),
    c.writeCommand ⟨0, 0, (c.pcs.setWidth 32 &&& 1) ||| (9 <<< 10)⟩)

/-- A command TRB about a slot, with an input context. -/
def contextCommand (kind : BitVec 32) (slotId : BitVec 8) (inputCtx : BitVec 64) : TRB :=
  ⟨inputCtx, 0, (c.pcs.setWidth 32 &&& 1) ||| (kind <<< 10) ||| (slotId.setWidth 32 <<< 24)⟩

/-- A fresh, zeroed transfer ring at cell `ring`. -/
def setRing (slot dci : BitVec 8) (ring : Nat) : Controller :=
  { c with
    memory := zeroCells c.memory ring 32
    transferRings := Function.update c.transferRings slot
      (Function.update (c.transferRings slot) dci ring) }

/-- The index and the cycle state of a transfer ring at its start. -/
def resetRing (slot dci : BitVec 8) : Controller :=
  { c with
    ringCycleState := Function.update c.ringCycleState slot
      (Function.update (c.ringCycleState slot) dci 1)
    ringIndex := Function.update c.ringIndex slot (Function.update (c.ringIndex slot) dci 0) }

/-- `AddressDevice` up to its waiting loop. It takes a new control ring and keeps the
index into the old one. -/
def addressDevice (slotId : BitVec 8) (inputCtx : BitVec 64) (ring : Nat) :
    BitVec 64 × Controller :=
  let c1 := c.setRing slotId 1 ring
  (address (c1.commandRing + c1.cmdRingIndex),
    c1.writeCommand (c1.contextCommand 11 slotId inputCtx))

/-- `ConfigureEndpoint` up to its waiting loop. A ring is allocated only once. -/
def configureEndpoint (slotId epAddr : BitVec 8) (inputCtx : BitVec 64) (ring : Nat) :
    BitVec 64 × Controller :=
  let dci := addressToDCI epAddr
  let c1 := if c.transferRings slotId dci = 0 then (c.setRing slotId dci ring).resetRing slotId dci
    else c
  (address (c1.commandRing + c1.cmdRingIndex),
    c1.writeCommand (c1.contextCommand 12 slotId inputCtx))

/-- The arguments of `ControlIn`. -/
structure Request where
  reqType : BitVec 8
  request : BitVec 8
  value : BitVec 16
  index : BitVec 16
  length : BitVec 16
  buffer : BitVec 64
  deriving DecidableEq, Repr

namespace Request

/-- The Setup TRB. -/
def setupTRB (r : Request) (cycle : BitVec 8) : TRB :=
  ⟨(r.length.setWidth 64 <<< 48) ||| (r.index.setWidth 64 <<< 32) |||
      (r.value.setWidth 64 <<< 16) ||| (r.request.setWidth 64 <<< 8) ||| r.reqType.setWidth 64,
    8, (cycle.setWidth 32 &&& 1) ||| (2 <<< 10) ||| (1 <<< 6) ||| (3 <<< 16)⟩

/-- The Data TRB. -/
def dataTRB (r : Request) (cycle : BitVec 8) : TRB :=
  ⟨r.buffer, r.length.setWidth 32,
    (cycle.setWidth 32 &&& 1) ||| (3 <<< 10) ||| (1 <<< 16) ||| (1 <<< 5)⟩

/-- The Status TRB. -/
def statusTRB (cycle : BitVec 8) : TRB :=
  ⟨0, 0, (cycle.setWidth 32 &&& 1) ||| (4 <<< 10) ||| (1 <<< 1)⟩

/-- The TRBs of a request, in the order they are written. -/
def trbs (r : Request) (cycle : BitVec 8) : List TRB :=
  [r.setupTRB cycle] ++ (if r.length = 0 then [] else [r.dataTRB cycle]) ++ [statusTRB cycle]

end Request

/-- `ControlIn` up to its waiting loop. Writing a TRB leaves the cycle state as it is. -/
def controlIn (slotId : BitVec 8) (r : Request) : Controller :=
  (r.trbs (c.ringCycleState slotId 1)).foldl (fun c trb => c.writeTransfer slotId 1 trb) c

/-- Where a call is that has not returned yet. -/
inductive Wait where
  | enableSlot (commandTrb : BitVec 64) (timeout : Nat)
  | addressDevice (commandTrb : BitVec 64) (timeout : Nat)
  | configureEndpoint (commandTrb : BitVec 64) (timeout : Nat)
  | controlIn (timeout : Nat)
  /-- `while (PollEndpoint(slot, ep) == -1);` of the mass storage driver, which then
  returns what `SendNormalTRB` did. -/
  | poll (slotId epAddr : BitVec 8) (ret : Bool)
  /-- `ProcessInterrupt` before its call of `Keyboard::Update`. -/
  | update
  /-- The endless `hlt` after a host system error. -/
  | halted
  deriving DecidableEq, Repr

/-- What a turn of a waiting loop ends with. -/
inductive Outcome where
  | waiting (w : Wait)
  | returned (value : BitVec 8)
  deriving DecidableEq, Repr

/-- A completion event of the command at `commandTrb`. -/
def completes (event : TRB) (commandTrb : BitVec 64) : Bool :=
  (event.trbType == 32 || event.trbType == 33) && event.parameter == commandTrb

/-- One turn of the loop in `EnableSlot`: an event of another kind costs a turn too. -/
def enableSlotTurn (commandTrb : BitVec 64) (timeout : Nat) : Outcome × Controller :=
  if timeout = 0 then (.returned 0, c)
  else if c.usbsts &&& (1 <<< 2) ≠ 0 then (.waiting .halted, c)
  else if c.eventReady then
    let event := c.currentEvent
    if completes event commandTrb then
      (.returned (if event.completionCode = 1 then event.eventSlot else 0), c.takeEvent)
    else (.waiting (.enableSlot commandTrb (timeout - 1)), c.takeEvent)
  else (.waiting (.enableSlot commandTrb (timeout - 1)), c)

/-- One turn of the loops in `AddressDevice` and `ConfigureEndpoint`. -/
def commandTurn (resume : BitVec 64 → Nat → Wait) (commandTrb : BitVec 64) (timeout : Nat) :
    Outcome × Controller :=
  if timeout = 0 then (.returned 0, c)
  else if c.eventReady then
    let event := c.currentEvent
    if completes event commandTrb then
      (.returned (if event.completionCode = 1 then 1 else 0), c.takeEvent)
    else (.waiting (resume commandTrb timeout), c.takeEvent)
  else (.waiting (resume commandTrb (timeout - 1)), c)

/-- One turn of the loop in `ControlIn`: any Transfer Event ends it. -/
def controlInTurn (timeout : Nat) : Outcome × Controller :=
  if timeout = 0 then (.returned 0, c)
  else if c.eventReady then
    let event := c.currentEvent
    if event.trbType = 32 then
      (.returned (if event.completionCode = 1 ∨ event.completionCode = 13 then 1 else 0),
        c.takeEvent)
    else (.waiting (.controlIn timeout), c.takeEvent)
  else (.waiting (.controlIn (timeout - 1)), c)

/-- One turn of the loops in the mass storage driver. -/
def pollTurn (slotId epAddr : BitVec 8) (ret : Bool) : Outcome × Controller :=
  ((if (c.pollEndpoint slotId epAddr).1 = -1 then .waiting (.poll slotId epAddr ret)
    else .returned (if ret then 1 else 0)), (c.pollEndpoint slotId epAddr).2)

end Controller

end Sylphia.Xhci
