import Sylphia.Core.CycleRing
import Sylphia.Core.Run

/-!
# The queues of the NVMe driver

`NVMe::Driver` sends one command at a time on its admin queue or on its I/O queue and polls
the completion queue until the phase tag of the next entry changes. The controller is the
other party: some time after a doorbell has announced a command it writes the completion
entry, with the phase tag of its pass through the queue.
-/

namespace Sylphia.Nvme

open Transition

/-- `SubmissionQueueEntry`. -/
structure SubmissionQueueEntry where
  opcode : BitVec 8 := 0
  flags : BitVec 8 := 0
  commandId : BitVec 16 := 0
  nsid : BitVec 32 := 0
  reserved : BitVec 64 := 0
  metadataPtr : BitVec 64 := 0
  /-- `data_ptr[0]`. -/
  prp1 : BitVec 64 := 0
  /-- `data_ptr[1]`. -/
  prp2 : BitVec 64 := 0
  cdw10 : BitVec 32 := 0
  cdw11 : BitVec 32 := 0
  cdw12 : BitVec 32 := 0
  cdw13 : BitVec 32 := 0
  cdw14 : BitVec 32 := 0
  cdw15 : BitVec 32 := 0
  deriving DecidableEq, Repr

/-- `CompletionQueueEntry`. -/
structure CompletionQueueEntry where
  dw0 : BitVec 32
  dw1 : BitVec 32
  sqHead : BitVec 16
  sqId : BitVec 16
  commandId : BitVec 16
  status : BitVec 16
  deriving DecidableEq, Repr

/-- The phase tag, which is bit 0 of `status`. -/
def CompletionQueueEntry.phaseTag (entry : CompletionQueueEntry) : Nat := entry.status.toNat &&& 1

/-- `queue_depth_`. -/
def queueDepth : Nat := 32

/-- A submission queue and its completion queue, with the members of the driver for them and
the values of the two doorbells. -/
structure QueuePair where
  sq : Nat → SubmissionQueueEntry
  cq : Nat → CompletionQueueEntry
  sqTail : Nat
  cqHead : Nat
  phase : Nat
  sqDoorbell : Nat
  cqDoorbell : Nat

/-- `i++`, and back to 0 at the end of the queue. -/
def nextIndex (i : Nat) : Nat := if i + 1 ≥ queueDepth then 0 else i + 1

namespace QueuePair

/-- A command is put at the tail and announced. -/
def submit (q : QueuePair) (cmd : SubmissionQueueEntry) : QueuePair :=
  { q with
    sq := Function.update q.sq q.sqTail cmd
    sqTail := nextIndex q.sqTail
    sqDoorbell := nextIndex q.sqTail }

/-- The condition on which a waiting loop ends. -/
def completed (q : QueuePair) : Bool := (q.cq q.cqHead).phaseTag == q.phase

/-- The head is moved on behind a waiting loop, with the other phase from the start of the
queue on. -/
def advance (q : QueuePair) : QueuePair :=
  { q with
    cqHead := nextIndex q.cqHead
    phase := if q.cqHead + 1 ≥ queueDepth then (if q.phase = 0 then 1 else 0) else q.phase
    cqDoorbell := nextIndex q.cqHead }

/-- `cqe_done.status`, once the head has been moved on. -/
def doneStatus (q : QueuePair) : BitVec 16 :=
  (q.cq (if q.cqHead = 0 then queueDepth - 1 else q.cqHead - 1)).status

end QueuePair

/-- The two queue pairs. -/
inductive QueueId
  | admin
  | io
  deriving DecidableEq, Repr

/-- What the driver is doing. -/
inductive Activity
  | idle
  /-- In the waiting loop of a command of this queue, and whether `cqe_done` is checked
  afterwards. -/
  | waiting (id : QueueId) (checks : Bool)
  deriving DecidableEq, Repr

/-- The driver and the controller. -/
structure System where
  queue : QueueId → QueuePair
  activity : Activity
  /-- The commands of a queue that are done, for the driver. -/
  returned : QueueId → Nat
  /-- The statuses that were checked, each with the number of its command. -/
  checked : QueueId → List (Nat × BitVec 16)
  /-- The completion entries that the controller has written, oldest first. -/
  written : QueueId → List CompletionQueueEntry

/-- A step of the driver or of the controller. -/
inductive Op
  /-- `IdentifyController`, which builds its first command in the queue itself. -/
  | identifyController (identifyData : BitVec 64)
  /-- `SendAdminCommand` up to its waiting loop. -/
  | sendAdminCommand (cmd : SubmissionQueueEntry)
  /-- `SendIOCommand` up to its waiting loop. -/
  | sendIOCommand (cmd : SubmissionQueueEntry)
  /-- One round of a waiting loop, and what follows when it ends. -/
  | poll
  /-- The controller writes the next completion entry of a queue. -/
  | complete (id : QueueId) (entry : CompletionQueueEntry)

namespace System

/-- The command that `IdentifyController` builds. -/
def identifyCommand (identifyData : BitVec 64) : SubmissionQueueEntry :=
  { opcode := 0x06, commandId := 1, cdw10 := 1, prp1 := identifyData }

/-- A command is announced, and the driver starts to wait. -/
def send (s : System) (id : QueueId) (cmd : SubmissionQueueEntry) (checks : Bool) : System :=
  { s with
    queue := Function.update s.queue id ((s.queue id).submit cmd)
    activity := .waiting id checks }

/-- The driver leaves the waiting loop of a queue. -/
def leave (s : System) (id : QueueId) (checks : Bool) : System :=
  let q := (s.queue id).advance
  { s with
    queue := Function.update s.queue id q
    activity := .idle
    returned := Function.update s.returned id (s.returned id + 1)
    checked := if checks then
        Function.update s.checked id (s.checked id ++ [(s.returned id, q.doneStatus)])
      else s.checked }

/-- The controller writes the entry of the `n`-th command at slot `n mod 32`. -/
def write (s : System) (id : QueueId) (entry : CompletionQueueEntry) : System :=
  let q := s.queue id
  { s with
    queue := Function.update s.queue id
      { q with cq := Function.update q.cq ((s.written id).length % queueDepth) entry }
    written := Function.update s.written id (s.written id ++ [entry]) }

/-- One step. -/
def step (s : System) : Op → System
  | .identifyController identifyData => s.send .admin (identifyCommand identifyData) false
  | .sendAdminCommand cmd => s.send .admin cmd true
  | .sendIOCommand cmd => s.send .io cmd true
  | .poll =>
    match s.activity with
    | .idle => s
    | .waiting id checks => if (s.queue id).completed then s.leave id checks else s
  | .complete id entry => s.write id entry

/-- The phase tag of the `n`-th command of a queue. -/
def phaseOf (n : Nat) : Nat := 1 ^^^ (n / 32 % 2)

/-- The steps that can be taken: the driver sends a command when it is not waiting for
another one, and the controller completes only commands that a doorbell has announced. -/
def Can (s : System) : Op → Prop
  | .identifyController _ | .sendAdminCommand _ | .sendIOCommand _ => s.activity = .idle
  | .poll => s.activity ≠ .idle
  | .complete id entry =>
    (s.written id).length % 32 ≠ (s.queue id).sqDoorbell ∧
      entry.phaseTag = phaseOf (s.written id).length

/-- The driver behind its constructor, with both completion queues zeroed. -/
structure Start (s : System) : Prop where
  zeroed : ∀ id k, ((s.queue id).cq k).status = 0
  sqTail : ∀ id, (s.queue id).sqTail = 0
  cqHead : ∀ id, (s.queue id).cqHead = 0
  phase : ∀ id, (s.queue id).phase = 1
  sqDoorbell : ∀ id, (s.queue id).sqDoorbell = 0
  activity : s.activity = .idle
  returned : ∀ id, s.returned id = 0
  checked : ∀ id, s.checked id = []
  written : ∀ id, s.written id = []

/-- The driver waits for a command of this queue. -/
def waits (s : System) (id : QueueId) : Bool :=
  match s.activity with
  | .idle => false
  | .waiting id' _ => id' == id

end System

end Sylphia.Nvme
