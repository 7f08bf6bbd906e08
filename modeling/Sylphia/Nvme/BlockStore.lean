import Sylphia.Disk.Gpt
import Sylphia.Nvme.Transfer

/-!
# The NVMe driver as a block device

The file system reads and writes blocks through `Read` and `Write`. Between such a call and its
return the driver builds a command with its PRP list, announces it and polls; meanwhile the
controller takes the command out of the queue, follows the data pointers and completes it. What
becomes of memory and of the blocks is what the calls say, each of them once and in their order.
-/

namespace Sylphia.Nvme

open Bytes Transition WriteLog

/-- The bytes of memory, and those of the namespace by the block and the offset in it. Memory is
apart from the frames that the PRP lists get. -/
structure Storage where
  memory : BitVec 64 → Byte
  blocks : BitVec 64 × Nat → Byte

/-- A call of `Read` or of `Write`. -/
structure Transfer where
  write : Bool
  lba : BitVec 64
  buffer : BitVec 64
  count : BitVec 32
  deriving DecidableEq

/-- `opcode`. -/
def Transfer.opcode (t : Transfer) : BitVec 8 := if t.write then 0x01 else 0x02

namespace Storage

/-- What a call is for: `count` blocks from `lba` on and the bytes from `buffer` on. -/
def move (blockSize : Nat) (t : Transfer) (s : Storage) : Storage :=
  if t.write then
    { s with blocks := fun x =>
        if (x.1 - t.lba).toNat < t.count.toNat ∧ x.2 < blockSize then
          s.memory (t.buffer + BitVec.ofNat 64 ((x.1 - t.lba).toNat * blockSize + x.2))
        else s.blocks x }
  else
    { s with memory := fun a =>
        let i := (a - t.buffer).toNat
        if i < t.count.toNat * blockSize then
          s.blocks (t.lba + BitVec.ofNat 64 (i / blockSize), i % blockSize)
        else s.memory a }

/-- Byte `i` of the blocks from `lba` on. -/
def position (blockSize : Nat) (lba : BitVec 64) (i : Nat) : BitVec 64 × Nat :=
  (lba + BitVec.ofNat 64 (i / blockSize), i % blockSize)

/-- What the controller does with a command: it moves the bytes of the blocks one after the other
to or from the addresses that the data pointers describe. -/
def execute (blockSize : Nat) (words : BitVec 64 → BitVec 64) (cmd : SubmissionQueueEntry)
    (s : Storage) : Storage :=
  let size := cmd.blocks * blockSize
  let addresses := transferred (prpEntries words cmd size) size
  let positions := (List.range size).map (position blockSize cmd.startingLba)
  if cmd.opcode = 0x01 then
    { s with blocks := replay (positions.zip (addresses.map s.memory)) s.blocks }
  else if cmd.opcode = 0x02 then
    { s with memory := replay (addresses.zip (positions.map s.blocks)) s.memory }
  else s

end Storage

/-- The driver with the list of the call under way, and what it moves. -/
structure BlockSystem where
  driver : Driver
  prpList : BitVec 64
  storage : Storage

/-- A step of the kernel or of the controller. -/
inductive BlockOp
  /-- The kernel writes a byte of memory between two calls. -/
  | store (a : BitVec 64) (b : Byte)
  /-- `Read` or `Write`, up to the waiting loop. -/
  | call (t : Transfer)
  /-- One round of the waiting loop, and the rest of the call when it ends. -/
  | poll
  /-- The controller carries out the next command and writes its completion entry. -/
  | serve (entry : CompletionQueueEntry)

/-- The steps of a call behind its start. -/
def BlockOp.Waits : BlockOp → Prop
  | .poll | .serve _ => True
  | .store _ _ | .call _ => False

namespace BlockSystem

/-- The command that the controller takes next. -/
def nextCommand (s : BlockSystem) : SubmissionQueueEntry :=
  (s.driver.queues.queue .io).sq ((s.driver.queues.written .io).length % queueDepth)

/-- One step. -/
def step (s : BlockSystem) : BlockOp → BlockSystem
  | .store a b => { s with storage.memory := Function.update s.storage.memory a b }
  | .call t =>
    let d := s.driver
    let count := t.count.setWidth 16
    if count = 0 then s
    else
      let setup := d.transferSetup t.opcode t.lba t.buffer count
      { s with
        driver := { d with machine := setup.machine, queues := d.queues.send .io setup.cmd true }
        prpList := setup.prpList }
  | .poll =>
    let d := s.driver
    match d.queues.activity with
    | .idle => s
    | .waiting id checks =>
      if (d.queues.queue id).completed then
        let machine := if s.prpList ≠ 0 then
            { d.machine with manager := d.machine.manager.free s.prpList.toNat 4096 }
          else d.machine
        { s with driver := { d with machine, queues := d.queues.leave id checks } }
      else s
  | .serve entry =>
    { s with
      driver := { s.driver with queues := s.driver.queues.write .io entry }
      storage := s.storage.execute s.driver.lbaSize.toNat s.driver.machine.memory.store
        s.nextCommand }

/-- A transfer that the driver can be asked for: the count has 16 bits, a list has one page, and
there is a frame for it when there is a list. -/
structure Fits (d : Driver) (t : Transfer) : Prop where
  count : t.count.toNat < 2 ^ 16
  pages : t.count.toNat * d.lbaSize.toNat ≤ pageCapacity t.buffer + 512 * 4096
  frame : pageCapacity t.buffer + 4096 < t.count.toNat * d.lbaSize.toNat →
    (d.machine.manager.allocate 4096).1 ≠ 0

/-- The steps that can be taken: the kernel waits for its call to return, and the controller
carries out what a doorbell has announced, without an error. -/
def Can (s : BlockSystem) : BlockOp → Prop
  | .store _ _ => s.driver.queues.activity = .idle
  | .call t => s.driver.queues.activity = .idle ∧ Fits s.driver t
  | .poll => s.driver.queues.activity ≠ .idle
  | .serve entry => s.driver.queues.Can (.complete .io entry) ∧ entry.status >>> 1 = 0

/-- Some time after the initialization, between two commands. -/
structure Start (s₀ : BlockSystem) (s : BlockSystem) : Prop where
  eq : s = s₀
  reached : ∃ run, Run System.step System.Can System.Start run s.driver.queues
  idle : s.driver.queues.activity = .idle

/-- The call under way is the last of the run, and this is the run before it. -/
def UnderWay (run past : List (BlockSystem × BlockOp)) : Prop :=
  ∃ waits u t, run = waits ++ (u, .call t) :: past ∧ ∀ x ∈ waits, x.2.Waits

/-- What the steps of a run are for, the newest first. -/
def plain (blockSize : Nat) (storage : Storage) : List (BlockSystem × BlockOp) → Storage
  | [] => storage
  | (_, .store a b) :: past =>
    let s := plain blockSize storage past
    { s with memory := Function.update s.memory a b }
  | (_, .call t) :: past => (plain blockSize storage past).move blockSize t
  | (_, .poll) :: past | (_, .serve _) :: past => plain blockSize storage past

end BlockSystem

theorem add_ofNat_eq_iff {x a : BitVec 64} {i : Nat} (hi : i < 2 ^ 64) :
    x + BitVec.ofNat 64 i = a ↔ (a - x).toNat = i := by
  have hnat : (BitVec.ofNat 64 i).toNat = i := by rw [BitVec.toNat_ofNat, Nat.mod_eq_of_lt hi]
  constructor
  · rintro rfl
    rw [BitVec.add_comm, BitVec.add_sub_cancel, hnat]
  · rintro rfl
    rw [BitVec.ofNat_toNat, BitVec.setWidth_eq, BitVec.add_comm, BitVec.sub_add_cancel]

namespace Storage

variable {blockSize count i : Nat} {lba : BitVec 64}

/-- The byte of the blocks that has a position. -/
theorem position_eq_iff (hcount : count < 2 ^ 64) (hi : i < count * blockSize)
    {x : BitVec 64 × Nat} : position blockSize lba i = x ↔
      x.2 < blockSize ∧ (x.1 - lba).toNat * blockSize + x.2 = i := by
  have hpos : 0 < blockSize := Nat.pos_of_mul_pos_left (Nat.zero_lt_of_lt hi)
  have hblock : i / blockSize < count := Nat.div_lt_of_lt_mul (by rwa [Nat.mul_comm] at hi)
  have hdiv := Nat.div_add_mod' i blockSize
  rw [position, Prod.ext_iff, add_ofNat_eq_iff (by omega)]
  constructor
  · rintro ⟨hx, hk⟩
    rw [hx, ← hk]
    exact ⟨Nat.mod_lt _ hpos, hdiv⟩
  · rintro ⟨hk, rfl⟩
    rw [Nat.mul_comm, Nat.mul_add_div hpos, Nat.div_eq_of_lt hk, Nat.mul_add_mod,
      Nat.mod_eq_of_lt hk]
    exact ⟨rfl, rfl⟩

/-- Bytes that are written to the blocks from `lba` on. -/
theorem replay_positions (hcount : count < 2 ^ 64) (g : Nat → Byte)
    (blocks : BitVec 64 × Nat → Byte) (x : BitVec 64 × Nat) :
    replay ((List.range (count * blockSize)).map fun i => (position blockSize lba i, g i))
      blocks x =
      if (x.1 - lba).toNat < count ∧ x.2 < blockSize then
        g ((x.1 - lba).toNat * blockSize + x.2)
      else blocks x := by
  rw [replay_range (R := fun x => x.2 < blockSize) fun i hi x => position_eq_iff hcount hi]
  refine if_congr ?_ rfl rfl
  rw [and_comm]
  refine and_congr_left fun hk => ⟨fun hlt => ?_, fun hlt => ?_⟩
  · exact Nat.lt_of_mul_lt_mul_right ((Nat.le_add_right _ _).trans_lt hlt)
  · calc (x.1 - lba).toNat * blockSize + x.2 < ((x.1 - lba).toNat + 1) * blockSize := by
          rw [Nat.succ_mul]
          omega
      _ ≤ count * blockSize := Nat.mul_le_mul_right _ hlt

/-- Bytes that are written to memory from an address on. -/
theorem replay_bytesFrom {addr : BitVec 64} {n : Nat} (hn : n ≤ 2 ^ 64) (g : Nat → Byte)
    (memory : BitVec 64 → Byte) (a : BitVec 64) :
    replay ((List.range n).map fun i => (addr + BitVec.ofNat 64 i, g i)) memory a =
      if (a - addr).toNat < n then g (a - addr).toNat else memory a := by
  rw [replay_range (R := fun _ => True) fun i hi a =>
    (add_ofNat_eq_iff (by omega)).trans (iff_of_eq (true_and _)).symm]
  simp only [true_and]

end Storage

/-- The size of a transfer that fits is computed without wrap-around. -/
theorem BlockSystem.Fits.size {d : Driver} {t : Transfer} (h : BlockSystem.Fits d t) :
    (t.count.setWidth 16).toNat = t.count.toNat ∧
      (d.transferSize (t.count.setWidth 16)).toNat = t.count.toNat * d.lbaSize.toNat := by
  have hcount : (t.count.setWidth 16).toNat = t.count.toNat := by
    rw [BitVec.toNat_setWidth, Nat.mod_eq_of_lt h.count]
  have hcapacity := (pageCapacity_pos t.buffer).2
  have hpages := h.pages
  refine ⟨hcount, ?_⟩
  rw [Driver.transferSize, BitVec.toNat_mul, BitVec.toNat_setWidth, hcount,
    Nat.mod_eq_of_lt (show t.count.toNat < 2 ^ 32 by have := h.count; omega),
    Nat.mod_eq_of_lt (show t.count.toNat * d.lbaSize.toNat < 2 ^ 32 by omega)]

namespace Driver

variable {d : Driver} {t : Transfer}

/-- The controller does with the command that the driver builds what the call is for. -/
theorem execute_transferSetup (h : BlockSystem.Fits d t) (h0 : t.count.setWidth 16 ≠ 0)
    (s : Storage) :
    s.execute d.lbaSize.toNat
        (d.transferSetup t.opcode t.lba t.buffer (t.count.setWidth 16)).machine.memory.store
        (d.transferSetup t.opcode t.lba t.buffer (t.count.setWidth 16)).cmd =
      s.move d.lbaSize.toNat t := by
  obtain ⟨hcount, hsize⟩ := h.size
  have h16 := h.count
  have hpages := h.pages
  have hcapacity := (pageCapacity_pos t.buffer).2
  have hlba := startingLba_blockCommand d t.opcode t.lba (t.count.setWidth 16)
  have hblocks := blocks_blockCommand d t.opcode t.lba h0
  have hdescribes := (@describes_setupPRPs d.machine
    (d.blockCommand t.opcode t.lba (t.count.setWidth 16)) t.buffer
    (d.transferSize (t.count.setWidth 16)) (by omega)).bytes
  have hcmd := cmd_setupPRPs d.machine (d.blockCommand t.opcode t.lba (t.count.setWidth 16))
    t.buffer (d.transferSize (t.count.setWidth 16))
  rw [← transferSetup] at hdescribes hcmd
  generalize d.transferSetup t.opcode t.lba t.buffer (t.count.setWidth 16) = setup at *
  have hopcode : setup.cmd.opcode = t.opcode := by rw [hcmd]; rfl
  have hstart : setup.cmd.startingLba = t.lba := by rw [hcmd]; exact hlba
  have hnumber : setup.cmd.blocks = t.count.toNat := by rw [hcmd, ← hcount]; exact hblocks
  rw [hsize] at hdescribes
  rw [Storage.execute, hnumber, hstart, hdescribes, hopcode, bytesFrom, List.map_map, List.zip_map',
    List.map_map, List.zip_map', Storage.move]
  rw [Transfer.opcode]
  cases t.write with
  | true =>
    simp only [if_true]
    congr 1
    funext x
    exact Storage.replay_positions (by omega) _ _ x
  | false =>
    have hread : (0x02 : BitVec 8) ≠ 0x01 := by decide
    simp only [Bool.false_eq_true, if_false, hread, if_true]
    congr 1
    funext a
    exact Storage.replay_bytesFrom (by omega) _ _ a

end Driver

/-- A call for no blocks is for nothing. -/
theorem Storage.move_none {blockSize : Nat} {t : Transfer} (h : t.count.toNat = 0) (s : Storage) :
    s.move blockSize t = s := by
  rw [Storage.move, h]
  simp

/-! ## Runs -/

/-- The entry of a command that the controller has not done is not there. -/
theorem QueueInv.not_completed {q : QueuePair} {written : List CompletionQueueEntry} {done : Nat}
    (h : QueueInv q written done (done + 1)) (hwritten : written.length = done) :
    q.completed = false := by
  rw [Bool.eq_false_iff]
  intro hdone
  have hthere := h.completed_iff.mp hdone
  omega

namespace BlockSystem

variable {s₀ s : BlockSystem} {run : List (BlockSystem × BlockOp)}

/-- How far the call under way is: it has returned, or its command waits for the controller, which
will do what the call is for, or the command is done. -/
inductive Progress (s₀ : BlockSystem) (run : List (BlockSystem × BlockOp)) (s : BlockSystem) : Prop
  | idle (hidle : s.driver.queues.activity = .idle)
      (hstorage : s.storage = plain s₀.driver.lbaSize.toNat s₀.storage run)
  | announced {past : List (BlockSystem × BlockOp)}
      (hwaiting : s.driver.queues.activity = .waiting .io true)
      (hwritten : (s.driver.queues.written .io).length = s.driver.queues.returned .io)
      (hpast : UnderWay run past)
      (hstorage : s.storage = plain s₀.driver.lbaSize.toNat s₀.storage past)
      (hcommand : s.storage.execute s.driver.lbaSize.toNat s.driver.machine.memory.store
        s.nextCommand = plain s₀.driver.lbaSize.toNat s₀.storage run)
  | served {past : List (BlockSystem × BlockOp)}
      (hwaiting : s.driver.queues.activity = .waiting .io true)
      (hwritten : (s.driver.queues.written .io).length = s.driver.queues.returned .io + 1)
      (hpast : UnderWay run past)
      (hstorage : s.storage = plain s₀.driver.lbaSize.toNat s₀.storage run)

theorem UnderWay.wait {past : List (BlockSystem × BlockOp)} (h : UnderWay run past) {op : BlockOp}
    (hop : op.Waits) : UnderWay ((s, op) :: run) past := by
  obtain ⟨waits, u, t, rfl, hwaits⟩ := h
  exact ⟨(s, op) :: waits, u, t, rfl, List.forall_mem_cons.mpr ⟨hop, hwaits⟩⟩

/-- Before the command is done, a waiting loop goes round without a change. -/
theorem poll_of_not_completed {id : QueueId} {checks : Bool}
    (hwaiting : s.driver.queues.activity = .waiting id checks)
    (hmissing : (s.driver.queues.queue id).completed = false) : s.step .poll = s := by
  rw [step, hwaiting]
  dsimp only
  rw [hmissing, if_neg Bool.false_ne_true]

/-- Behind the loop the list is freed. -/
theorem driver_poll_of_completed {id : QueueId} {checks : Bool}
    (hwaiting : s.driver.queues.activity = .waiting id checks)
    (hdone : (s.driver.queues.queue id).completed = true) :
    (s.step .poll).driver =
      { s.driver with
        machine := if s.prpList ≠ 0 then
            { s.driver.machine with
              manager := s.driver.machine.manager.free s.prpList.toNat 4096 }
          else s.driver.machine
        queues := s.driver.queues.leave id checks } := by
  rw [step, hwaiting]
  dsimp only
  rw [if_pos hdone]

theorem foldl_poll_of_not_completed {id : QueueId} {checks : Bool}
    (hwaiting : s.driver.queues.activity = .waiting id checks)
    (hmissing : (s.driver.queues.queue id).completed = false) (n : Nat) :
    (List.replicate n .poll).foldl step s = s := by
  induction n with
  | zero => rfl
  | succ n ih =>
    rw [List.replicate_succ, List.foldl_cons, poll_of_not_completed hwaiting hmissing, ih]

/-- A command that is waited for is the last that was sent. -/
theorem sent_of_waiting (hwaiting : s.driver.queues.activity = .waiting .io true) :
    s.driver.queues.sent .io = s.driver.queues.returned .io + 1 := by
  simp [System.sent, System.waits, hwaiting]

/-- The state after a run from `s₀`. -/
structure Inv (s₀ : BlockSystem) (run : List (BlockSystem × BlockOp)) (s : BlockSystem) : Prop where
  queues : System.Inv s.driver.queues
  lbaSize : s.driver.lbaSize = s₀.driver.lbaSize
  progress : Progress s₀ run s

theorem Start.inv (h : Start s₀ s) : Inv s₀ [] s := by
  obtain ⟨rfl, ⟨past, hpast⟩, hidle⟩ := h
  have hqueues : System.Inv s.driver.queues := hpast.invariant (I := fun _ s => System.Inv s)
    (fun _ hstart => hstart.inv) (fun _ _ op hinv hcan => hinv.step op hcan)
  exact ⟨hqueues, rfl, .idle hidle rfl⟩

namespace Inv

variable (h : Inv s₀ run s)
include h

/-- Between two calls all that they are for is done. -/
theorem storage_of_idle (hidle : s.driver.queues.activity = .idle) :
    s.storage = plain s₀.driver.lbaSize.toNat s₀.storage run := by
  rcases h.progress with ⟨-, hstorage⟩ | ⟨hwaiting⟩ | ⟨hwaiting⟩
  · exact hstorage
  · rw [hidle] at hwaiting
    cases hwaiting
  · rw [hidle] at hwaiting
    cases hwaiting

/-- Between two calls every command has been carried out. -/
theorem written_of_idle (hidle : s.driver.queues.activity = .idle) :
    (s.driver.queues.written .io).length = s.driver.queues.returned .io := by
  have hqueue := h.queues.queues .io
  rw [System.sent_of_idle hidle] at hqueue
  exact Nat.le_antisymm hqueue.written_le hqueue.done_le

/-- The I/O queue while the driver waits for one of its commands. -/
theorem queue_of_waiting (hwaiting : s.driver.queues.activity = .waiting .io true) :
    QueueInv (s.driver.queues.queue .io) (s.driver.queues.written .io)
      (s.driver.queues.returned .io) (s.driver.queues.returned .io + 1) := by
  rw [← sent_of_waiting hwaiting]
  exact h.queues.queues .io

theorem store (hidle : s.driver.queues.activity = .idle) (a : BitVec 64) (b : Byte) :
    Inv s₀ ((s, .store a b) :: run) (s.step (.store a b)) := by
  refine ⟨h.queues, h.lbaSize, .idle hidle ?_⟩
  rw [plain, ← h.storage_of_idle hidle]
  rfl

/-- The command of a call is the next that the controller takes. -/
theorem call {t : Transfer} (hidle : s.driver.queues.activity = .idle) (hfits : Fits s.driver t) :
    Inv s₀ ((s, .call t) :: run) (s.step (.call t)) := by
  have hstorage := h.storage_of_idle hidle
  by_cases h0 : t.count.setWidth 16 = 0
  · have hstep : s.step (.call t) = s := if_pos h0
    have hnone : t.count.toNat = 0 := by
      rw [← hfits.size.1, h0]
      rfl
    rw [hstep]
    refine ⟨h.queues, h.lbaSize, .idle hidle ?_⟩
    rw [plain, ← hstorage, Storage.move_none hnone]
  · have hqueue := h.queues.queues .io
    have hlen := h.written_of_idle hidle
    have hmove := Driver.execute_transferSetup hfits h0 s.storage
    have hstep : s.step (.call t) = _ := if_neg h0
    rw [hstep]
    generalize s.driver.transferSetup t.opcode t.lba t.buffer (t.count.setWidth 16) = setup at *
    refine ⟨h.queues.send hidle .io setup.cmd true, h.lbaSize,
      .announced rfl hlen ⟨[], s, t, rfl, nofun⟩ hstorage ?_⟩
    have hnext : ((s.driver.queues.send .io setup.cmd true).queue .io).sq
        ((s.driver.queues.written .io).length % queueDepth) = setup.cmd := by
      simp only [System.send, Function.update_self, QueuePair.submit]
      rw [hqueue.sqTail, System.sent_of_idle hidle, hlen]
      exact Function.update_self ..
    show s.storage.execute s.driver.lbaSize.toNat setup.machine.memory.store
      (((s.driver.queues.send .io setup.cmd true).queue .io).sq
        ((s.driver.queues.written .io).length % queueDepth)) = _
    rw [hnext, hmove, plain, hstorage, h.lbaSize]

/-- A waiting loop ends when the command is done, and not before. -/
theorem poll (hbusy : s.driver.queues.activity ≠ .idle) :
    Inv s₀ ((s, .poll) :: run) (s.step .poll) := by
  rcases h.progress with ⟨hidle, -⟩ | ⟨hwaiting, hwritten, hpast, hstorage, hcommand⟩ |
    ⟨hwaiting, hwritten, -, hstorage⟩
  · exact absurd hidle hbusy
  · have hmissing := (h.queue_of_waiting hwaiting).not_completed hwritten
    rw [poll_of_not_completed hwaiting hmissing]
    exact ⟨h.queues, h.lbaSize, .announced hwaiting hwritten (hpast.wait trivial) hstorage hcommand⟩
  · have hdone := (h.queue_of_waiting hwaiting).completed_iff.mpr hwritten
    rw [step, hwaiting]
    dsimp only
    rw [if_pos hdone]
    exact ⟨h.queues.leave hwaiting hdone, h.lbaSize, .idle rfl hstorage⟩

/-- The controller takes a command once. -/
theorem serve {entry : CompletionQueueEntry} (hcan : s.driver.queues.Can (.complete .io entry)) :
    Inv s₀ ((s, .serve entry) :: run) (s.step (.serve entry)) := by
  have hnew : (s.driver.queues.written .io).length % 32 ≠ s.driver.queues.sent .io % 32 := by
    rw [← (h.queues.queues .io).sqDoorbell]
    exact hcan.1
  rcases h.progress with ⟨hidle, -⟩ | ⟨hwaiting, hwritten, hpast, -, hcommand⟩ |
    ⟨hwaiting, hwritten, -⟩
  · rw [System.sent_of_idle hidle, h.written_of_idle hidle] at hnew
    exact absurd rfl hnew
  · refine ⟨h.queues.write .io hcan.1 hcan.2, h.lbaSize,
      .served hwaiting ?_ (hpast.wait trivial) hcommand⟩
    simp [step, System.write, hwritten]
  · rw [sent_of_waiting hwaiting, hwritten] at hnew
    exact absurd rfl hnew

theorem step (op : BlockOp) (hcan : s.Can op) : Inv s₀ ((s, op) :: run) (s.step op) := by
  cases op with
  | store a b => exact h.store hcan a b
  | call t => exact h.call hcan.1 hcan.2
  | poll => exact h.poll hcan
  | serve entry => exact h.serve hcan.1

/-- A call that is under way goes on: the loop ends, or the controller has something to do. -/
theorem goes_on (hbusy : s.driver.queues.activity ≠ .idle) :
    (s.step .poll).driver.queues.activity = .idle ∨ ∃ entry, s.Can (.serve entry) := by
  rcases h.progress with ⟨hidle, -⟩ | ⟨hwaiting, hwritten, -, -, -⟩ | ⟨hwaiting, hwritten, -⟩
  · exact absurd hidle hbusy
  · have htag (n : Nat) : (BitVec.ofNat 16 (System.phaseOf n)).toNat &&& 1 = System.phaseOf n ∧
        BitVec.ofNat 16 (System.phaseOf n) >>> 1 = 0 := by
      rcases Nat.mod_two_eq_zero_or_one (n / 32) with hn | hn
      · rw [System.phaseOf, hn]
        decide
      · rw [System.phaseOf, hn]
        decide
    refine Or.inr ⟨⟨0, 0, 0, 0, 0,
      BitVec.ofNat 16 (System.phaseOf (s.driver.queues.written .io).length)⟩,
      ⟨?_, (htag _).1⟩, (htag _).2⟩
    rw [(h.queue_of_waiting hwaiting).sqDoorbell, hwritten]
    omega
  · have hdone := (h.queue_of_waiting hwaiting).completed_iff.mpr hwritten
    rw [driver_poll_of_completed hwaiting hdone]
    exact Or.inl rfl

/-- The steps of one call, with a controller that takes its time, are `ReadLBA` or `WriteLBA`. -/
theorem driver_call {t : Transfer} (hidle : s.driver.queues.activity = .idle)
    (hfits : Fits s.driver t) (h0 : t.count.setWidth 16 ≠ 0) {answer : Answer}
    (htag : answer.entry.phaseTag = System.phaseOf (s.driver.queues.written .io).length) :
    ((.call t :: (List.replicate answer.rounds .poll ++ [.serve answer.entry, .poll])).foldl
      BlockSystem.step s).driver =
        s.driver.transferLBA t.opcode t.lba t.buffer (t.count.setWidth 16) answer := by
  have hlen := h.written_of_idle hidle
  have hcalled := h.call hidle hfits
  have hstep : s.step (.call t) = _ := if_neg h0
  have hqueue : QueueInv ((s.step (.call t)).driver.queues.queue .io)
      (s.driver.queues.written .io) (s.driver.queues.returned .io)
      (s.driver.queues.returned .io + 1) := by
    rw [hstep] at hcalled ⊢
    exact hcalled.queue_of_waiting rfl
  have hnew : (s.step (.call t)).driver.queues.Can (.complete .io answer.entry) := by
    refine ⟨?_, ?_⟩
    · rw [hqueue.sqDoorbell, hstep]
      show (s.driver.queues.written .io).length % 32 ≠ _
      omega
    · rw [hstep]
      exact htag
  have hmissing := hqueue.not_completed hlen
  have hserved := hcalled.serve hnew
  have hwaiting : (s.step (.call t)).driver.queues.activity = .waiting .io true := by
    rw [hstep]
    rfl
  have hthere := (hserved.queue_of_waiting hwaiting).completed_iff.mpr (by
    rw [hstep]
    simp [BlockSystem.step, System.write, System.send, hlen])
  rw [Driver.transferLBA, if_neg h0]
  dsimp only
  rw [System.sendIOCommand_eq h.queues hidle htag, List.foldl_cons, List.foldl_append,
    foldl_poll_of_not_completed hwaiting hmissing]
  have hlast : ((s.step (.call t)).step (.serve answer.entry)).driver.queues.activity =
      .waiting .io true := hwaiting
  have hleft := driver_poll_of_completed hlast hthere
  rw [hstep] at hleft ⊢
  exact hleft

end Inv

theorem inv_run (h : Run step Can (Start s₀) run s) : Inv s₀ run s :=
  h.invariant (I := fun run s => Inv s₀ run s) (fun _ hstart => hstart.inv)
    (fun _ _ op hinv hcan => hinv.step op hcan)

/-- In every run of the kernel with a controller of any speed, memory and the blocks are what the
calls say once each has returned, every transfer done once and in its order; during a call they are
as before it or as its transfer leaves them, and the call can always go on to its end. The steps of
a call are `ReadLBA` or `WriteLBA`. -/
theorem nvme_moves_blocks (h : Run step Can (Start s₀) run s) :
    (s.driver.queues.activity = .idle →
        s.storage = plain s₀.driver.lbaSize.toNat s₀.storage run ∧
        ∀ (t : Transfer) (answer : Answer), Fits s.driver t → t.count.setWidth 16 ≠ 0 →
          answer.entry.phaseTag = System.phaseOf (s.driver.queues.written .io).length →
          ((.call t :: (List.replicate answer.rounds .poll ++ [.serve answer.entry, .poll])).foldl
            step s).driver =
              s.driver.transferLBA t.opcode t.lba t.buffer (t.count.setWidth 16) answer) ∧
      (s.driver.queues.activity ≠ .idle →
        (∃ past, UnderWay run past ∧
          (s.storage = plain s₀.driver.lbaSize.toNat s₀.storage past ∨
            s.storage = plain s₀.driver.lbaSize.toNat s₀.storage run)) ∧
        ((s.step .poll).driver.queues.activity = .idle ∨ ∃ entry, s.Can (.serve entry))) := by
  have hinv := inv_run h
  refine ⟨fun hidle => ⟨hinv.storage_of_idle hidle, fun t answer hfits h0 htag =>
    hinv.driver_call hidle hfits h0 htag⟩, fun hbusy => ⟨?_, hinv.goes_on hbusy⟩⟩
  rcases hinv.progress with ⟨hidle, -⟩ | ⟨-, -, hpast, hstorage, -⟩ | ⟨-, -, hpast, hstorage⟩
  · exact absurd hidle hbusy
  · exact ⟨_, hpast, Or.inl hstorage⟩
  · exact ⟨_, hpast, Or.inr hstorage⟩

/-- A driver for blocks of 512 bytes, with memory and blocks that are all zero. -/
def cleared : BlockSystem := ⟨sectorDriver, 0, ⟨fun _ => 0, fun _ => 0⟩⟩

/-- A byte is written to block 5 with the rest of its page, and read back to another page. -/
def copyOps : List BlockOp :=
  [.store 0x6003 7, .call ⟨true, 5, 0x6000, 1⟩, .poll, .serve ⟨0, 0, 1, 1, 0, 1⟩, .poll,
    .call ⟨false, 5, 0x9000, 1⟩, .serve ⟨0, 0, 2, 1, 0, 1⟩, .poll]

theorem run_copyOps : Run step Can (Start cleared) (record step [] cleared copyOps).1
    (record step [] cleared copyOps).2 := by
  refine Run.record (.start ⟨rfl, ⟨[], .start System.start_fresh⟩, rfl⟩) ?_
  refine ⟨rfl, ⟨rfl, by decide, by decide, by decide⟩, nofun, ⟨⟨by decide, by decide⟩, by decide⟩,
    nofun, ⟨rfl, by decide, by decide, by decide⟩, ⟨⟨by decide, by decide⟩, by decide⟩, nofun,
    trivial⟩

theorem nvme_moves_blocks_copy :
    (record step [] cleared copyOps).2.storage.memory 0x9003 = 7 := by
  obtain ⟨hdone, -⟩ := nvme_moves_blocks run_copyOps
  rw [(hdone rfl).1]
  rfl

end BlockSystem

namespace Storage

variable {dev : BlockDevice} {t : Transfer} {s : Storage}

/-- The blocks are the sectors of the device. -/
def Holds (dev : BlockDevice) (s : Storage) : Prop :=
  ∀ lba : BitVec 64, ∀ k < 512, s.blocks (lba, k) = dev.store lba.toNat k

/-- The bytes of memory from an address on, as the file system has them for a buffer. -/
def bufferAt (s : Storage) (a : BitVec 64) : Buffer := fun i => s.memory (a + BitVec.ofNat 64 i)

theorem Holds.write (h : Holds dev s) (hwrite : t.write = true)
    (hend : t.lba.toNat + t.count.toNat ≤ 2 ^ 64) :
    Holds (BlockDevice.writeSectors dev t.lba.toNat (s.bufferAt t.buffer) t.count.toNat)
      (s.move 512 t) := by
  intro lba k hk
  have hlba := lba.isLt
  have hstart := t.lba.isLt
  have hsub : (lba - t.lba).toNat = (2 ^ 64 - t.lba.toNat + lba.toNat) % 2 ^ 64 :=
    BitVec.toNat_sub ..
  rw [move, if_pos hwrite]
  dsimp only
  by_cases hin : t.lba.toNat ≤ lba.toNat ∧ lba.toNat < t.lba.toNat + t.count.toNat
  · have hdistance : (lba - t.lba).toNat = lba.toNat - t.lba.toNat := by omega
    rw [if_pos ⟨by omega, hk⟩, BlockDevice.store_writeSectors dev _ hin.1 hin.2, hdistance]
    rfl
  · rw [if_neg fun hlt => hin (by omega), h lba k hk,
      (BlockDevice.within_writeSectors dev t.lba.toNat _ _).store_eq hin]

theorem Holds.read (h : Holds dev s) (hread : t.write = false)
    (hend : t.lba.toNat + t.count.toNat ≤ 2 ^ 64) {i : Nat} (hi : i < t.count.toNat * 512) :
    (s.move 512 t).memory (t.buffer + BitVec.ofNat 64 i) = BlockDevice.read dev t.lba.toNat i := by
  have hcount := t.count.isLt
  have hindex : (t.buffer + BitVec.ofNat 64 i - t.buffer).toNat = i :=
    (add_ofNat_eq_iff (by omega)).mp rfl
  have hblock : (t.lba + BitVec.ofNat 64 (i / 512)).toNat = t.lba.toNat + i / 512 := by
    rw [BitVec.toNat_add, BitVec.toNat_ofNat]
    omega
  rw [move, if_neg (by rw [hread]; exact Bool.false_ne_true)]
  dsimp only
  rw [hindex, if_pos hi, h _ _ (Nat.mod_lt _ (by decide)), hblock]
  rfl

theorem Holds.read_blocks (h : Holds dev s) (hread : t.write = false) :
    Holds dev (s.move 512 t) := by
  rwa [move, if_neg (by rw [hread]; exact Bool.false_ne_true)]

end Storage

namespace BlockSystem

variable {s₀ s : BlockSystem} {run : List (BlockSystem × BlockOp)} {dev : BlockDevice}

/-- What the calls of a run make of the device of the file system. -/
def deviceAfter (dev : BlockDevice) (storage : Storage) : List (BlockSystem × BlockOp) → BlockDevice
  | [] => dev
  | (_, .call t) :: past =>
    if t.write then
      BlockDevice.writeSectors (deviceAfter dev storage past) t.lba.toNat
        ((plain 512 storage past).bufferAt t.buffer) t.count.toNat
    else deviceAfter dev storage past
  | (_, .store _ _) :: past | (_, .poll) :: past | (_, .serve _) :: past =>
    deviceAfter dev storage past

/-- The block numbers of a call do not wrap around. -/
def InRange : BlockOp → Prop
  | .call t => t.lba.toNat + t.count.toNat ≤ 2 ^ 64
  | .store _ _ | .poll | .serve _ => True

theorem holds_plain {storage : Storage} (hdev : storage.Holds dev)
    (hrange : ∀ x ∈ run, InRange x.2) :
    (plain 512 storage run).Holds (deviceAfter dev storage run) := by
  induction run with
  | nil => exact hdev
  | cons x past ih =>
    rw [List.forall_mem_cons] at hrange
    have hpast := ih hrange.2
    obtain ⟨s, op⟩ := x
    cases op with
    | call t =>
      rw [plain, deviceAfter]
      cases hwrite : t.write with
      | true => exact hpast.write hwrite hrange.1
      | false =>
        rw [if_neg Bool.false_ne_true]
        exact hpast.read_blocks hwrite
    | store a b => exact hpast
    | poll => exact hpast
    | serve entry => exact hpast

end BlockSystem

namespace BlockSystem

variable {s₀ s : BlockSystem} {run waits past : List (BlockSystem × BlockOp)} {dev : BlockDevice}

theorem plain_waits {blockSize : Nat} {storage : Storage} (h : ∀ x ∈ waits, x.2.Waits) :
    plain blockSize storage (waits ++ past) = plain blockSize storage past := by
  induction waits with
  | nil => rfl
  | cons x waits ih =>
    rw [List.forall_mem_cons] at h
    obtain ⟨s, op⟩ := x
    cases op with
    | store a b => exact h.1.elim
    | call t => exact h.1.elim
    | poll => exact ih h.2
    | serve entry => exact ih h.2

/-- With blocks of 512 bytes the driver, its queues, its lists and the controller together are the
device that the file system is written for: the blocks are the sectors that its writes leave, and a
read that has returned has delivered the sectors as they were. -/
theorem nvme_block_device (h : Run step Can (Start s₀) run s) (h512 : s₀.driver.lbaSize = 512)
    (hdev : s₀.storage.Holds dev) (hrange : ∀ x ∈ run, InRange x.2)
    (hidle : s.driver.queues.activity = .idle) :
    s.storage.Holds (deviceAfter dev s₀.storage run) ∧
      ∀ waits u t past, run = waits ++ (u, .call t) :: past → (∀ x ∈ waits, x.2.Waits) →
        t.write = false → ∀ i < t.count.toNat * 512,
          s.storage.memory (t.buffer + BitVec.ofNat 64 i) =
            BlockDevice.read (deviceAfter dev s₀.storage past) t.lba.toNat i := by
  have hstorage := (inv_run h).storage_of_idle hidle
  rw [h512, show (512 : BitVec 32).toNat = 512 from rfl] at hstorage
  rw [hstorage]
  refine ⟨holds_plain hdev hrange, ?_⟩
  rintro waits u t past rfl hwaits hread i hi
  have hpast : ∀ x ∈ past, InRange x.2 := fun x hx =>
    hrange x (List.mem_append_right _ (List.mem_cons_of_mem _ hx))
  rw [plain_waits hwaits]
  exact (holds_plain hdev hpast).read hread
    (hrange (u, .call t) (List.mem_append_right _ List.mem_cons_self)) hi

theorem nvme_block_device_copy : (record step [] cleared copyOps).2.storage.Holds
    (deviceAfter ⟨fun _ _ => 0, []⟩ cleared.storage (record step [] cleared copyOps).1) := by
  have hfive (write : Bool) (buffer : BitVec 64) : InRange (.call ⟨write, 5, buffer, 1⟩) :=
    show (5 : Nat) + 1 ≤ 2 ^ 64 by decide
  refine (nvme_block_device run_copyOps rfl (fun _ _ _ => rfl) ?_ rfl).1
  simp only [copyOps, record, List.forall_mem_cons]
  exact ⟨trivial, trivial, hfive _ _, trivial, trivial, trivial, hfive _ _, trivial, nofun⟩

end BlockSystem

end Sylphia.Nvme
