import Sylphia.Core.BoundedFifo
import Sylphia.Core.Bytes

/-!
# File descriptors

The descriptors of `file_descriptor.hpp`. The keyboard and the pipe keep their bytes in a
ring and are bounded queues; the console passes on what it gets, and a file was read whole
when it was opened.
-/

namespace Sylphia

open Bytes BoundedFifo

/-- `PipeFD`: `buffer_`, `write_pos_`, `read_pos_` and `count_`. -/
structure PipeFD where
  ring : RingBuffer Byte

namespace PipeFD

/-- `kBufferSize`. -/
def bufferSize : Nat := 4096

/-- A new pipe, with whatever is in the memory of its buffer. -/
def create (buffer : Nat → Byte) : PipeFD := ⟨⟨buffer, 0, 0, 0⟩⟩

/-- `Read`: the bytes that were copied to the caller's buffer, as many as are returned. -/
def read (fd : PipeFD) (len : Nat) : PipeFD × List Byte :=
  if fd.ring.count = 0 then (fd, [])
  else
    let (ring, bytes) := fd.ring.read bufferSize len
    (⟨ring⟩, bytes)

/-- `Write` of the bytes of the caller's buffer, and the number returned. -/
def write (fd : PipeFD) (bytes : List Byte) : PipeFD × Nat :=
  let (ring, n) := fd.ring.write bufferSize bytes
  (⟨ring⟩, n)

/-- `Reset`. -/
def reset (fd : PipeFD) : PipeFD := ⟨fd.ring.reset⟩

/-- The early return of `Read` is what its loop does as well. -/
theorem read_eq (fd : PipeFD) (len : Nat) :
    fd.read len = (⟨(fd.ring.read bufferSize len).1⟩, (fd.ring.read bufferSize len).2) := by
  rw [read]
  split
  · rename_i hempty
    cases len <;> simp [RingBuffer.read, hempty]
  · rfl

end PipeFD

/-- `KeyboardFD`: `buffer_`, `write_pos_`, `read_pos_` and `count_`. -/
structure KeyboardFD where
  ring : RingBuffer Byte

namespace KeyboardFD

/-- `kBufferSize`. -/
def bufferSize : Nat := 1024

/-- A new descriptor, with whatever is in the memory of its buffer. -/
def create (buffer : Nat → Byte) : KeyboardFD := ⟨⟨buffer, 0, 0, 0⟩⟩

/-- `OnInput`. -/
def onInput (fd : KeyboardFD) (c : Byte) : KeyboardFD :=
  if fd.ring.count ≥ bufferSize then fd else ⟨fd.ring.push bufferSize c⟩

/-- `Read`; `typed` are the bytes for which `g_usb_keyboard->Update()` calls `OnInput`
first. -/
def read (fd : KeyboardFD) (typed : List Byte) (len : Nat) : KeyboardFD × List Byte :=
  let fd := typed.foldl onInput fd
  if fd.ring.count = 0 then (fd, [])
  else
    let (ring, bytes) := fd.ring.read bufferSize len
    (⟨ring⟩, bytes)

/-- `Flush`. -/
def flush (fd : KeyboardFD) : KeyboardFD := ⟨fd.ring.reset⟩

/-- An input is a write of one byte. -/
theorem onInput_eq (fd : KeyboardFD) (c : Byte) :
    fd.onInput c = ⟨(fd.ring.write bufferSize [c]).1⟩ := by
  rw [onInput, RingBuffer.write]
  split <;> rfl

/-- The early return of `Read` is what its loop does as well. -/
theorem read_eq (fd : KeyboardFD) (typed : List Byte) (len : Nat) :
    fd.read typed len =
      (⟨((typed.foldl onInput fd).ring.read bufferSize len).1⟩,
        ((typed.foldl onInput fd).ring.read bufferSize len).2) := by
  rw [read]
  generalize typed.foldl onInput fd = fd'
  simp only
  split
  · rename_i hempty
    cases len <;> simp [RingBuffer.read, hempty]
  · rfl

end KeyboardFD

/-- A call of a pipe. -/
inductive PipeCall
  | write (bytes : List Byte)
  | read (len : Nat)
  | reset

/-- What a call gives back: the number it returns and the bytes it copies out. -/
structure Reply where
  count : Nat
  bytes : List Byte
  deriving DecidableEq

namespace PipeFD

/-- One call. -/
def call (fd : PipeFD) : PipeCall → PipeFD × Reply
  | .write bytes => let (fd, n) := fd.write bytes; (fd, ⟨n, []⟩)
  | .read len => let (fd, bytes) := fd.read len; (fd, ⟨bytes.length, bytes⟩)
  | .reset => (fd.reset, ⟨0, []⟩)

/-- A sequence of calls, with the replies in the same order. -/
def calls (fd : PipeFD) : List PipeCall → PipeFD × List Reply
  | [] => (fd, [])
  | c :: cs =>
    let (fd, reply) := fd.call c
    let (fd, replies) := calls fd cs
    (fd, reply :: replies)

end PipeFD

/-- What a call does to a queue of `size` bytes. -/
def PipeCall.onQueue (size : Nat) (q : Queue Byte) : PipeCall → Queue Byte × Reply
  | .write bytes => let (q, n) := q.write size bytes; (q, ⟨n, []⟩)
  | .read len => ((q.read len).1, ⟨min len q.queued, (q.read len).2⟩)
  | .reset => (.empty, ⟨0, []⟩)

/-- A sequence of calls of a queue. -/
def pipeQueue (size : Nat) (q : Queue Byte) : List PipeCall → Queue Byte × List Reply
  | [] => (q, [])
  | c :: cs =>
    let (q, reply) := c.onQueue size q
    let (q, replies) := pipeQueue size q cs
    (q, reply :: replies)

namespace PipeFD

variable {fd : PipeFD} {q : Queue Byte}

/-- Every call gives the reply of the queue and leaves the ring storing it. -/
theorem call_stores (h : fd.ring.Stores bufferSize q) (c : PipeCall) :
    (fd.call c).1.ring.Stores bufferSize (c.onQueue bufferSize q).1 ∧
      (fd.call c).2 = (c.onQueue bufferSize q).2 := by
  cases c with
  | write bytes =>
    obtain ⟨hstores, hn⟩ := h.write bytes
    exact ⟨hstores, congrArg (fun n => (⟨n, []⟩ : Reply)) hn⟩
  | read len =>
    obtain ⟨hstores, hbytes⟩ := h.read len
    simp only [call, read_eq]
    refine ⟨hstores, ?_⟩
    rw [hbytes, Queue.length_read]
    rfl
  | reset => exact ⟨.reset (by decide) fd.ring, rfl⟩

/-- So does every sequence of calls. -/
theorem calls_stores (h : fd.ring.Stores bufferSize q) (cs : List PipeCall) :
    (fd.calls cs).1.ring.Stores bufferSize (pipeQueue bufferSize q cs).1 ∧
      (fd.calls cs).2 = (pipeQueue bufferSize q cs).2 := by
  induction cs generalizing fd q with
  | nil => exact ⟨h, rfl⟩
  | cons c cs ih =>
    obtain ⟨hstores, hreply⟩ := call_stores h c
    obtain ⟨hend, hreplies⟩ := ih hstores
    exact ⟨hend, by simp only [calls, pipeQueue, hreply, hreplies]⟩

theorem create_stores (buffer : Nat → Byte) :
    (create buffer).ring.Stores bufferSize .empty :=
  .reset (by decide) (create buffer).ring

end PipeFD

/-- A call of the keyboard descriptor. -/
inductive KeyboardCall
  | onInput (c : Byte)
  | read (typed : List Byte) (len : Nat)
  | flush

namespace KeyboardFD

/-- One call; `OnInput` and `Flush` return nothing. -/
def call (fd : KeyboardFD) : KeyboardCall → KeyboardFD × Reply
  | .onInput c => (fd.onInput c, ⟨0, []⟩)
  | .read typed len => let (fd, bytes) := fd.read typed len; (fd, ⟨bytes.length, bytes⟩)
  | .flush => (fd.flush, ⟨0, []⟩)

/-- A sequence of calls, with the replies in the same order. -/
def calls (fd : KeyboardFD) : List KeyboardCall → KeyboardFD × List Reply
  | [] => (fd, [])
  | c :: cs =>
    let (fd, reply) := fd.call c
    let (fd, replies) := calls fd cs
    (fd, reply :: replies)

end KeyboardFD

/-- Bytes are written to a queue one by one. -/
def inputs (size : Nat) (q : Queue Byte) (typed : List Byte) : Queue Byte :=
  typed.foldl (fun q c => (q.write size [c]).1) q

/-- What a call does to a queue of `size` bytes. -/
def KeyboardCall.onQueue (size : Nat) (q : Queue Byte) : KeyboardCall → Queue Byte × Reply
  | .onInput c => (inputs size q [c], ⟨0, []⟩)
  | .read typed len =>
    let q := inputs size q typed
    ((q.read len).1, ⟨min len q.queued, (q.read len).2⟩)
  | .flush => (.empty, ⟨0, []⟩)

/-- A sequence of calls of a queue. -/
def keyboardQueue (size : Nat) (q : Queue Byte) : List KeyboardCall → Queue Byte × List Reply
  | [] => (q, [])
  | c :: cs =>
    let (q, reply) := c.onQueue size q
    let (q, replies) := keyboardQueue size q cs
    (q, reply :: replies)

namespace KeyboardFD

variable {fd : KeyboardFD} {q : Queue Byte}

theorem onInput_stores (h : fd.ring.Stores bufferSize q) (c : Byte) :
    (fd.onInput c).ring.Stores bufferSize (q.write bufferSize [c]).1 := by
  rw [onInput_eq]
  exact (h.write [c]).1

theorem inputs_stores (h : fd.ring.Stores bufferSize q) (typed : List Byte) :
    (typed.foldl onInput fd).ring.Stores bufferSize (inputs bufferSize q typed) := by
  induction typed generalizing fd q with
  | nil => exact h
  | cons c typed ih => exact ih (onInput_stores h c)

/-- Every call gives the reply of the queue and leaves the ring storing it. -/
theorem call_stores (h : fd.ring.Stores bufferSize q) (c : KeyboardCall) :
    (fd.call c).1.ring.Stores bufferSize (c.onQueue bufferSize q).1 ∧
      (fd.call c).2 = (c.onQueue bufferSize q).2 := by
  cases c with
  | onInput c => exact ⟨onInput_stores h c, rfl⟩
  | read typed len =>
    obtain ⟨hstores, hbytes⟩ := (inputs_stores h typed).read len
    simp only [call, read_eq]
    refine ⟨hstores, ?_⟩
    rw [hbytes, Queue.length_read]
    rfl
  | flush => exact ⟨.reset (by decide) fd.ring, rfl⟩

/-- So does every sequence of calls. -/
theorem calls_stores (h : fd.ring.Stores bufferSize q) (cs : List KeyboardCall) :
    (fd.calls cs).1.ring.Stores bufferSize (keyboardQueue bufferSize q cs).1 ∧
      (fd.calls cs).2 = (keyboardQueue bufferSize q cs).2 := by
  induction cs generalizing fd q with
  | nil => exact ⟨h, rfl⟩
  | cons c cs ih =>
    obtain ⟨hstores, hreply⟩ := call_stores h c
    obtain ⟨hend, hreplies⟩ := ih hstores
    exact ⟨hend, by simp only [calls, keyboardQueue, hreply, hreplies]⟩

theorem create_stores (buffer : Nat → Byte) :
    (create buffer).ring.Stores bufferSize .empty :=
  .reset (by decide) (create buffer).ring

end KeyboardFD

/-- The fields of a descriptor after a run, beside the queue that answered the same calls:
the positions and the counter agree with each other and with the bytes inside, and the bytes
given back are the first of those accepted. -/
structure InStep (size : Nat) (ring : RingBuffer Byte) (q : Queue Byte) : Prop where
  count_le : ring.count ≤ size
  writePos_eq : ring.writePos = (ring.readPos + ring.count) % size
  count_eq : ring.count = q.queued
  returned_first : q.returned <+: q.accepted

theorem InStep.of_stores {size : Nat} {ring : RingBuffer Byte} {q : Queue Byte}
    (h : ring.Stores size q) : InStep size ring q :=
  ⟨h.valid.count_le, h.valid.writePos_eq, h.count_eq, h.ordered⟩

/-- From new descriptors on, a pipe answers every sequence of calls as a queue of 4096 bytes
does and the keyboard descriptor as one of 1024, and their fields stay in step with it. -/
theorem descriptors_refine_queues (buffer : Nat → Byte) :
    (∀ cs : List PipeCall,
      ((PipeFD.create buffer).calls cs).2 = (pipeQueue 4096 .empty cs).2 ∧
        InStep 4096 ((PipeFD.create buffer).calls cs).1.ring (pipeQueue 4096 .empty cs).1) ∧
      ∀ cs : List KeyboardCall,
        ((KeyboardFD.create buffer).calls cs).2 = (keyboardQueue 1024 .empty cs).2 ∧
          InStep 1024 ((KeyboardFD.create buffer).calls cs).1.ring
            (keyboardQueue 1024 .empty cs).1 := by
  constructor
  · intro cs
    obtain ⟨hstores, hreplies⟩ := PipeFD.calls_stores (PipeFD.create_stores buffer) cs
    exact ⟨hreplies, .of_stores hstores⟩
  · intro cs
    obtain ⟨hstores, hreplies⟩ := KeyboardFD.calls_stores (KeyboardFD.create_stores buffer) cs
    exact ⟨hreplies, .of_stores hstores⟩

end Sylphia
