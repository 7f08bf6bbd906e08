import Sylphia.Nvme.PhaseTag
import Sylphia.Nvme.Prp

/-!
# Reading and writing blocks with the NVMe driver

`ReadLBA` and `WriteLBA` issue one command for all the blocks that are asked for, with a count
of 16 bits and a size in bytes of 32 bits. `Read` and `Write`, which the file system calls,
take a count of 32 bits and return true whatever becomes of the command.
-/

namespace Sylphia.Nvme

open Transition WriteLog

/-- `IdentifyNamespaceData`, with the fields that set the size of a block: `flbas`, and the
`ds` of each LBA format. -/
structure IdentifyNamespaceData where
  flbas : BitVec 8
  ds : Fin 16 → BitVec 8

/-- `lba_size_`, as `IdentifyController` sets it. The processor takes the shift count modulo
32. -/
def IdentifyNamespaceData.lbaSize (data : IdentifyNamespaceData) : BitVec 32 :=
  let lbafIdx := Fin.ofNat 16 (data.flbas &&& 0x0F).toNat
  (1 : BitVec 32) <<< ((data.ds lbafIdx).toNat % 32)

/-- `NVMe::Driver` behind `Initialize`, with the memory that it works on. -/
structure Driver where
  namespaceId : BitVec 32 := 1
  lbaSize : BitVec 32
  machine : Machine
  queues : System

/-- What the controller does with a command: it writes the entry after so many rounds of the
waiting loop. -/
structure Answer where
  rounds : Nat
  entry : CompletionQueueEntry

/-- The steps of a call of `SendIOCommand`. -/
def callOps (cmd : SubmissionQueueEntry) (answer : Answer) : List Op :=
  .sendIOCommand cmd :: (List.replicate answer.rounds .poll ++ [.complete .io answer.entry, .poll])

/-- `SendIOCommand`, up to its end. -/
def System.sendIOCommand (s : System) (cmd : SubmissionQueueEntry) (answer : Answer) : System :=
  (callOps cmd answer).foldl System.step s

namespace Driver

/-- The command of `ReadLBA` and `WriteLBA` before its data pointers are set. -/
def blockCommand (d : Driver) (opcode : BitVec 8) (lba : BitVec 64) (count : BitVec 16) :
    SubmissionQueueEntry :=
  { opcode := opcode, nsid := d.namespaceId
    cdw10 := (lba &&& 0xFFFFFFFF).setWidth 32
    cdw11 := (lba >>> 32 &&& 0xFFFFFFFF).setWidth 32
    cdw12 := (count.setWidth 32 - 1) &&& 0xFFFF }

/-- `size`, the bytes of a transfer. -/
def transferSize (d : Driver) (count : BitVec 16) : BitVec 32 := count.setWidth 32 * d.lbaSize

/-- The data pointers of `ReadLBA` and `WriteLBA`. -/
def transferSetup (d : Driver) (opcode : BitVec 8) (lba buffer : BitVec 64) (count : BitVec 16) :
    PrpSetup :=
  setupPRPs d.machine (d.blockCommand opcode lba count) buffer (d.transferSize count)

/-- The body of `ReadLBA` and `WriteLBA`, which differ in their opcode. -/
def transferLBA (d : Driver) (opcode : BitVec 8) (lba buffer : BitVec 64) (count : BitVec 16)
    (answer : Answer) : Driver :=
  if count = 0 then d
  else
    let setup := d.transferSetup opcode lba buffer count
    let machine := if setup.prpList ≠ 0 then
        { setup.machine with manager := setup.machine.manager.free setup.prpList.toNat 4096 }
      else setup.machine
    { d with machine, queues := d.queues.sendIOCommand setup.cmd answer }

/-- `ReadLBA`. -/
def readLBA (d : Driver) := d.transferLBA 0x02

/-- `WriteLBA`. -/
def writeLBA (d : Driver) := d.transferLBA 0x01

/-- `Read`: the result, and the driver after the call. -/
def read (d : Driver) (lba buffer : BitVec 64) (count : BitVec 32) (answer : Answer) :
    Bool × Driver :=
  (true, d.readLBA lba buffer (count.setWidth 16) answer)

/-- `Write`. -/
def write (d : Driver) (lba buffer : BitVec 64) (count : BitVec 32) (answer : Answer) :
    Bool × Driver :=
  (true, d.writeLBA lba buffer (count.setWidth 16) answer)

end Driver

/-- The list stays in the page that it was given, and the size is the product. -/
def FitsInPage (d : Driver) (count : BitVec 16) (setup : PrpSetup) : Prop :=
  (∃ ws, setup.machine.memory.log = d.machine.memory.log ++ ws ∧ ws.length ≤ 512 ∧
      ∀ w ∈ ws, ∃ i < 512, w.1 = listSlot setup.prpList i) ∧
    count.toNat * d.lbaSize.toNat < 2 ^ 32

theorem lbaSize_toNat (data : IdentifyNamespaceData) :
    ∃ k < 32, data.lbaSize.toNat = 2 ^ k := by
  have hk := Nat.mod_lt (data.ds (Fin.ofNat 16 (data.flbas &&& 0x0F).toNat)).toNat
    (show 0 < 32 by decide)
  refine ⟨_, hk, ?_⟩
  rw [IdentifyNamespaceData.lbaSize, BitVec.toNat_shiftLeft,
    show (1 : BitVec 32).toNat = 1 from rfl,
    Nat.one_shiftLeft, Nat.mod_eq_of_lt (Nat.pow_lt_pow_right (by decide) hk)]

/-- A size of 32 bits is not so close to the end that the number of pages wraps around: the
count has 16 bits, and from `2 ^ 16` on the size of a block leaves the low ones zero. -/
theorem transferSize_lt {d : Driver} {data : IdentifyNamespaceData} (hd : d.lbaSize = data.lbaSize)
    {count : BitVec 16} (h : count.toNat * d.lbaSize.toNat < 2 ^ 32) :
    (d.transferSize count).toNat = count.toNat * d.lbaSize.toNat ∧
      count.toNat * d.lbaSize.toNat + 4095 < 2 ^ 32 := by
  have hcount := count.isLt
  obtain ⟨k, hk, hsize⟩ := lbaSize_toNat data
  rw [← hd] at hsize
  refine ⟨?_, ?_⟩
  · rw [Driver.transferSize, BitVec.toNat_mul, BitVec.toNat_setWidth,
      Nat.mod_eq_of_lt (show count.toNat < 2 ^ 32 by omega), Nat.mod_eq_of_lt h]
  · rw [hsize] at h ⊢
    by_cases hlow : k ≤ 15
    · have hpow : 2 ^ k ≤ 2 ^ 15 := Nat.pow_le_pow_right (by decide) hlow
      have hmul := Nat.mul_le_mul (show count.toNat ≤ 2 ^ 16 by omega) hpow
      omega
    · obtain ⟨j, rfl⟩ : ∃ j, k = 16 + j := ⟨k - 16, by omega⟩
      rw [pow_add, Nat.mul_left_comm] at h ⊢
      omega

/-- The list and the size are right exactly for the transfers that one page of entries can
describe. -/
theorem transferSetup_fits_iff (d : Driver) (data : IdentifyNamespaceData)
    (hd : d.lbaSize = data.lbaSize) (opcode : BitVec 8) (lba buffer : BitVec 64)
    (count : BitVec 16) : FitsInPage d count (d.transferSetup opcode lba buffer count) ↔
      count.toNat * d.lbaSize.toNat ≤ pageCapacity buffer + 512 * 4096 := by
  have hlog : (d.transferSetup opcode lba buffer count).machine.memory.log = _ :=
    log_setupPRPs ..
  have hcapacity := pageCapacity_pos buffer
  constructor
  · rintro ⟨⟨ws, hws, hlen, -⟩, hsize⟩
    obtain ⟨hexact, hroom⟩ := transferSize_lt hd hsize
    rw [hlog, List.append_cancel_left_eq] at hws
    rw [← hws, List.length_map, List.length_range,
      listPages_le_iff (by rw [hexact]; exact hroom) 512 (by decide), hexact] at hlen
    omega
  · intro hmax
    have hsize : count.toNat * d.lbaSize.toNat < 2 ^ 32 := by omega
    obtain ⟨hexact, hroom⟩ := transferSize_lt hd hsize
    have hlen : listPages buffer (d.transferSize count) ≤ 512 := by
      rw [listPages_le_iff (by rw [hexact]; exact hroom) 512 (by decide), hexact]
      omega
    refine ⟨⟨_, hlog, ?_, fun w hw => ?_⟩, hsize⟩
    · rw [List.length_map, List.length_range]
      exact hlen
    · obtain ⟨k, hk, rfl⟩ := List.mem_map.mp hw
      exact ⟨k, (List.mem_range.mp hk).trans_le hlen, rfl⟩

/-- Formatted with blocks of 512 bytes. -/
def sectors512 : IdentifyNamespaceData := ⟨0, fun _ => 9⟩

/-- A driver for such blocks, with memory that is all free but the first frame. -/
def sectorDriver : Driver :=
  { lbaSize := sectors512.lbaSize, machine := ⟨⟨fun _ => 0, []⟩, ⟨⟨[0x01]⟩, 0x8000⟩⟩
    queues := System.fresh }

theorem transferSetup_fits_iff_cluster : FitsInPage sectorDriver 255
    (sectorDriver.transferSetup 0x02 0 0x6000 255) ↔
      (255 : BitVec 16).toNat * sectorDriver.lbaSize.toNat ≤ pageCapacity 0x6000 + 512 * 4096 :=
  transferSetup_fits_iff sectorDriver sectors512 rfl 0x02 0 0x6000 255

/-- The list for 4105 blocks has 513 entries. -/
theorem transferSetup_513_entries :
    ¬ FitsInPage sectorDriver 4105 (sectorDriver.transferSetup 0x02 0 0x6000 4105) := by
  rintro ⟨⟨ws, hws, hlen, -⟩, -⟩
  have hlog : (sectorDriver.transferSetup 0x02 0 0x6000 4105).machine.memory.log = _ :=
    log_setupPRPs ..
  rw [hlog, List.append_cancel_left_eq] at hws
  rw [← hws, List.length_map, List.length_range] at hlen
  exact absurd hlen (by decide)

/-! ## The result of a call -/

/-- The first block of a command. -/
def SubmissionQueueEntry.startingLba (cmd : SubmissionQueueEntry) : BitVec 64 :=
  cmd.cdw11 ++ cmd.cdw10

/-- The number of blocks of a command, of which the field is one less. -/
def SubmissionQueueEntry.blocks (cmd : SubmissionQueueEntry) : Nat := cmd.cdw12.toNat % 2 ^ 16 + 1

/-- Between `s` and `s'` a command for exactly `count` blocks was issued, and it completed with
status code 0. -/
def Served (opcode : BitVec 8) (lba : BitVec 64) (count : BitVec 32) (s s' : System) : Prop :=
  s'.returned .io = s.returned .io + 1 ∧
    (∃ cmd, (s'.queue .io).sq (s.queue .io).sqTail = cmd ∧ cmd.opcode = opcode ∧
      cmd.startingLba = lba ∧ cmd.blocks = count.toNat) ∧
    ∃ entry, (s'.written .io)[s.returned .io]? = some entry ∧ entry.status >>> 1 = 0

namespace System

variable {s : System} {cmd : SubmissionQueueEntry} {answer : Answer}

/-- Before its entry is there, a waiting loop goes round without a change. -/
theorem foldl_poll_of_not_completed {id : QueueId} {checks : Bool}
    (hwaiting : s.activity = .waiting id checks) (h : (s.queue id).completed = false) (n : Nat) :
    (List.replicate n .poll).foldl step s = s := by
  induction n with
  | zero => rfl
  | succ n ih =>
    have hstep : s.step .poll = s := by simp [step, hwaiting, h]
    rw [List.replicate_succ, List.foldl_cons, hstep, ih]

/-- A call of `SendIOCommand` sends its command, and leaves the waiting loop with the entry of
the controller. -/
theorem sendIOCommand_eq (h : Inv s) (hidle : s.activity = .idle)
    (htag : answer.entry.phaseTag = phaseOf (s.written .io).length) :
    s.sendIOCommand cmd answer =
      ((s.send .io cmd true).write .io answer.entry).leave .io true := by
  have hwaits : (s.send .io cmd true).sent .io = s.returned .io + 1 := by
    simp [sent, waits, send]
  have hqueue : QueueInv ((s.send .io cmd true).queue .io) (s.written .io) (s.returned .io)
      (s.returned .io + 1) := hwaits ▸ (h.send hidle .io cmd true).queues .io
  have hold := h.queues .io
  rw [sent_of_idle hidle] at hold
  have hlen : (s.written .io).length = s.returned .io :=
    Nat.le_antisymm hold.written_le hold.done_le
  -- The entry is missing until the controller writes it, and ends the loop when it is there.
  have hmissing : ((s.send .io cmd true).queue .io).completed = false := by
    rw [Bool.eq_false_iff]
    intro hdone
    have hthere := hqueue.completed_iff.mp hdone
    omega
  have hnew : (s.written .io).length % 32 ≠ ((s.send .io cmd true).queue .io).sqDoorbell := by
    rw [hqueue.sqDoorbell]
    omega
  have hwritten := hqueue.write hnew htag
  have hthere : (((s.send .io cmd true).write .io answer.entry).queue .io).completed = true := by
    have hdone := hwritten.completed_iff.mpr (by
      rw [List.length_append, List.length_singleton]
      exact congrArg (· + 1) hlen)
    simp only [write, Function.update_self]
    exact hdone
  rw [sendIOCommand, callOps, List.foldl_cons, List.foldl_append]
  rw [show s.step (.sendIOCommand cmd) = s.send .io cmd true from rfl,
    foldl_poll_of_not_completed rfl hmissing]
  simp only [List.foldl_cons, List.foldl_nil]
  rw [show (s.send .io cmd true).step (.complete .io answer.entry) =
    (s.send .io cmd true).write .io answer.entry from rfl]
  have hwaiting : ((s.send .io cmd true).write .io answer.entry).activity = .waiting .io true := rfl
  simp only [step, hwaiting, hthere, if_true]

end System

/-- A command that was sent, and its completion. -/
theorem served_sendIOCommand_iff {s : System} (h : System.Inv s) (hidle : s.activity = .idle)
    {cmd : SubmissionQueueEntry} {answer : Answer}
    (htag : answer.entry.phaseTag = System.phaseOf (s.written .io).length) (opcode : BitVec 8)
    (lba : BitVec 64) (count : BitVec 32) :
    Served opcode lba count s (s.sendIOCommand cmd answer) ↔
      (cmd.opcode = opcode ∧ cmd.startingLba = lba ∧ cmd.blocks = count.toNat) ∧
        answer.entry.status >>> 1 = 0 := by
  have hold := h.queues .io
  rw [System.sent_of_idle hidle] at hold
  have hlen : (s.written .io).length = s.returned .io :=
    Nat.le_antisymm hold.written_le hold.done_le
  rw [Served, System.sendIOCommand_eq h hidle htag]
  have hreturned : ((((s.send .io cmd true).write .io answer.entry).leave .io true).returned .io) =
      s.returned .io + 1 := by
    simp [System.leave, System.write, System.send]
  have hslot : ((((s.send .io cmd true).write .io answer.entry).leave .io true).queue .io).sq
      (s.queue .io).sqTail = cmd := by
    simp [System.leave, System.write, System.send, QueuePair.advance, QueuePair.submit]
  have hentry : (((s.send .io cmd true).write .io answer.entry).leave .io true).written .io =
      s.written .io ++ [answer.entry] := by
    simp [System.leave, System.write, System.send]
  rw [hreturned, hslot, hentry, ← hlen]
  simp

theorem startingLba_blockCommand (d : Driver) (opcode : BitVec 8) (lba : BitVec 64)
    (count : BitVec 16) : (d.blockCommand opcode lba count).startingLba = lba := by
  apply BitVec.eq_of_toNat_eq
  have hmask (x : Nat) : x &&& (0xFFFFFFFF : BitVec 64).toNat = x % 2 ^ 32 :=
    Nat.and_two_pow_sub_one_eq_mod x 32
  have hlba := lba.isLt
  simp only [SubmissionQueueEntry.startingLba, Driver.blockCommand, BitVec.toNat_append,
    BitVec.toNat_setWidth, BitVec.toNat_and, BitVec.toNat_ushiftRight]
  rw [hmask, hmask, Nat.mod_mod, Nat.mod_mod,
    ← Nat.shiftLeft_add_eq_or_of_lt (Nat.mod_lt _ (by decide)), Nat.shiftRight_eq_div_pow,
    Nat.shiftLeft_eq]
  omega

theorem blocks_blockCommand (d : Driver) (opcode : BitVec 8) (lba : BitVec 64)
    {count : BitVec 16} (hcount : count ≠ 0) :
    (d.blockCommand opcode lba count).blocks = count.toNat := by
  have hlt := count.isLt
  have hpos : 0 < count.toNat := Nat.pos_of_ne_zero fun h0 => hcount (BitVec.eq_of_toNat_eq h0)
  have hone : (1 : BitVec 32).toNat = 1 := rfl
  have hmask (x : Nat) : x &&& (0xFFFF : BitVec 32).toNat = x % 2 ^ 16 :=
    Nat.and_two_pow_sub_one_eq_mod x 16
  simp only [SubmissionQueueEntry.blocks, Driver.blockCommand, BitVec.toNat_and,
    BitVec.toNat_sub, BitVec.toNat_setWidth]
  rw [hmask, hone]
  omega

/-- The data pointers leave the rest of a command as it was. -/
theorem cmd_setupPRPs (m : Machine) (cmd : SubmissionQueueEntry) (addr : BitVec 64)
    (size : BitVec 32) : (setupPRPs m cmd addr size).cmd =
      { cmd with prp1 := addr, prp2 := (setupPRPs m cmd addr size).cmd.prp2 } := by
  rw [setupPRPs_eq]
  split
  · rfl
  · split <;> rfl

/-- A transfer has what it was asked for done exactly when the count fits into 16 bits and the
controller reports success. -/
theorem served_transferLBA_iff {d : Driver} (h : System.Inv d.queues)
    (hidle : d.queues.activity = .idle) {answer : Answer}
    (htag : answer.entry.phaseTag = System.phaseOf (d.queues.written .io).length)
    (opcode : BitVec 8) (lba buffer : BitVec 64) (count : BitVec 32) :
    Served opcode lba count d.queues
        (d.transferLBA opcode lba buffer (count.setWidth 16) answer).queues ↔
      0 < count.toNat ∧ count.toNat < 2 ^ 16 ∧ answer.entry.status >>> 1 = 0 := by
  have hwidth : (count.setWidth 16).toNat = count.toNat % 2 ^ 16 := BitVec.toNat_setWidth ..
  by_cases hzero : count.setWidth 16 = 0
  · have hmod : count.toNat % 2 ^ 16 = 0 := by rw [← hwidth, hzero]; rfl
    rw [Driver.transferLBA, if_pos hzero]
    constructor
    · rintro ⟨hreturned, -⟩
      omega
    · rintro ⟨hpos, hlt, -⟩
      omega
  · rw [Driver.transferLBA, if_neg hzero]
    simp only
    have hcmd := cmd_setupPRPs d.machine (d.blockCommand opcode lba (count.setWidth 16)) buffer
      (d.transferSize (count.setWidth 16))
    have hlba := startingLba_blockCommand d opcode lba (count.setWidth 16)
    have hblocks := blocks_blockCommand d opcode lba hzero
    rw [served_sendIOCommand_iff h hidle htag, Driver.transferSetup, hcmd]
    simp only [SubmissionQueueEntry.startingLba, SubmissionQueueEntry.blocks] at hlba hblocks ⊢
    rw [hlba, hblocks, hwidth]
    have hpos : 0 < count.toNat % 2 ^ 16 := by
      rw [← hwidth]
      exact Nat.pos_of_ne_zero fun h0 => hzero (BitVec.eq_of_toNat_eq h0)
    constructor
    · rintro ⟨⟨-, -, hcount⟩, hstatus⟩
      exact ⟨by omega, by omega, hstatus⟩
    · rintro ⟨-, hlt, hstatus⟩
      exact ⟨⟨rfl, rfl, Nat.mod_eq_of_lt hlt⟩, hstatus⟩

/-- In every state that the driver reaches, `Read` and `Write` return true only for a command
that was done exactly when the count fits into 16 bits and the controller reports success. -/
theorem read_write_true_iff {run : List (System × Op)} {d : Driver}
    (h : Run System.step System.Can System.Start run d.queues)
    (hidle : d.queues.activity = .idle) (lba buffer : BitVec 64) (count : BitVec 32)
    {answer : Answer}
    (htag : answer.entry.phaseTag = System.phaseOf (d.queues.written .io).length) :
    (((d.read lba buffer count answer).1 = true →
        Served 0x02 lba count d.queues (d.read lba buffer count answer).2.queues) ↔
      0 < count.toNat ∧ count.toNat < 2 ^ 16 ∧ answer.entry.status >>> 1 = 0) ∧
    (((d.write lba buffer count answer).1 = true →
        Served 0x01 lba count d.queues (d.write lba buffer count answer).2.queues) ↔
      0 < count.toNat ∧ count.toNat < 2 ^ 16 ∧ answer.entry.status >>> 1 = 0) := by
  have hinv : System.Inv d.queues := h.invariant (I := fun _ s => System.Inv s)
    (fun _ hstart => hstart.inv) (fun _ _ op hinv hcan => hinv.step op hcan)
  have hserved := served_transferLBA_iff hinv hidle htag
  exact ⟨(forall_prop_of_true rfl).trans (hserved 0x02 lba buffer count),
    (forall_prop_of_true rfl).trans (hserved 0x01 lba buffer count)⟩

/-- The controller has no such block, after one round of the waiting loop. -/
theorem read_write_true_iff_out_of_range :
    (((sectorDriver.read 0x1000 0x6000 8 ⟨1, ⟨0, 0, 1, 1, 0, 0x101⟩⟩).1 = true →
        Served 0x02 0x1000 8 sectorDriver.queues
          (sectorDriver.read 0x1000 0x6000 8 ⟨1, ⟨0, 0, 1, 1, 0, 0x101⟩⟩).2.queues) ↔
      0 < (8 : BitVec 32).toNat ∧ (8 : BitVec 32).toNat < 2 ^ 16 ∧ (0x101 : BitVec 16) >>> 1 = 0) ∧
    (((sectorDriver.write 0x1000 0x6000 8 ⟨1, ⟨0, 0, 1, 1, 0, 0x101⟩⟩).1 = true →
        Served 0x01 0x1000 8 sectorDriver.queues
          (sectorDriver.write 0x1000 0x6000 8 ⟨1, ⟨0, 0, 1, 1, 0, 0x101⟩⟩).2.queues) ↔
      0 < (8 : BitVec 32).toNat ∧ (8 : BitVec 32).toNat < 2 ^ 16 ∧ (0x101 : BitVec 16) >>> 1 = 0) :=
  read_write_true_iff (.start System.start_fresh) rfl 0x1000 0x6000 8 (by decide)

/-- `Read` returns true though the controller has reported an error. -/
theorem read_true_of_error :
    (sectorDriver.read 0x1000 0x6000 8 ⟨1, ⟨0, 0, 1, 1, 0, 0x101⟩⟩).1 = true ∧
      ¬ Served 0x02 0x1000 8 sectorDriver.queues
        (sectorDriver.read 0x1000 0x6000 8 ⟨1, ⟨0, 0, 1, 1, 0, 0x101⟩⟩).2.queues := by
  refine ⟨rfl, fun hserved => ?_⟩
  have hstatus := ((served_transferLBA_iff System.start_fresh.inv rfl (by decide) _ _ _ _).mp
    hserved).2.2
  exact absurd hstatus (by decide)

end Sylphia.Nvme
