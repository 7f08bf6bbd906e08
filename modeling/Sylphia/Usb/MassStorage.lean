import Sylphia.Core.BigEndian
import Sylphia.Usb.Descriptors

/-!
# Commands of a mass storage device

`ReadSectors` and `ScsiReadCapacity` wrap a SCSI command in a `CommandBlockWrapper`, move the
data and look at the status. The block address and the count of READ(10) have fields of 32 and
16 bits, the length of the data and the number of blocks of the device are computed in 32 bits.
-/

namespace Sylphia.Xhci

open Bytes

/-- `CommandBlockWrapper`. -/
structure CommandBlockWrapper where
  signature : BitVec 32
  tag : BitVec 32
  dataTransferLength : BitVec 32
  flags : BitVec 8
  lun : BitVec 8
  cbLength : BitVec 8
  command : List Byte
  deriving DecidableEq, Repr

/-- `CommandStatusWrapper`. -/
structure CommandStatusWrapper where
  signature : BitVec 32
  tag : BitVec 32
  dataResidue : BitVec 32
  status : BitVec 8
  deriving DecidableEq, Repr

/-- `USB::MassStorage` with the size of the device. -/
structure BlockStorage extends MassStorage where
  totalBlocks : BitVec 64
  blockSize : BitVec 32
  deriving DecidableEq, Repr

/-- How the three transfers of a command end: what `SendNormalTRB` returns for each of them,
the data that the device sends and its status. -/
structure BulkAnswers where
  sent : Bool
  moved : Bool
  data : Buffer
  received : Bool
  csw : CommandStatusWrapper

/-- The wrapper that `SendCBW` sends. -/
def sendCBW (tag dataLen : BitVec 32) (flags lun cmdLen : BitVec 8) (cmd : List Byte) :
    CommandBlockWrapper where
  signature := 0x43425355
  tag := tag
  dataTransferLength := dataLen
  flags := flags
  lun := lun
  cbLength := cmdLen
  command := (List.range 16).map fun i => if i < cmdLen.toNat then cmd.getD i 0 else 0

/-- `ReceiveCSW`. -/
def receiveCSW (tag : BitVec 32) (answers : BulkAnswers) : Bool :=
  if answers.csw.signature ≠ 0x53425355 ∨ answers.csw.tag ≠ tag ∨ answers.csw.status ≠ 0 then false
  else answers.received

/-- The three transfers of the command with this tag succeed. -/
def BulkAnswers.Succeed (answers : BulkAnswers) (tag : BitVec 32) : Prop :=
  answers.sent = true ∧ answers.moved = true ∧ receiveCSW tag answers = true

namespace BlockStorage

/-- The command of `ReadSectors`. -/
def readTen (lba : BitVec 64) (numSectors : BitVec 32) : List Byte :=
  [0x28, 0,
    (lba >>> 24 &&& 0xFF).setWidth 8, (lba >>> 16 &&& 0xFF).setWidth 8,
    (lba >>> 8 &&& 0xFF).setWidth 8, (lba &&& 0xFF).setWidth 8,
    0, (numSectors >>> 8 &&& 0xFF).setWidth 8, (numSectors &&& 0xFF).setWidth 8,
    0, 0, 0, 0, 0, 0, 0]

/-- `ReadSectors`: the wrapper that it sends, and its result. -/
def readSectors (s : BlockStorage) (lba : BitVec 64) (numSectors : BitVec 32)
    (answers : BulkAnswers) : CommandBlockWrapper × Bool :=
  let bytesLen := numSectors * s.blockSize
  let cbw := sendCBW 2 bytesLen 0x80 0 10 (readTen lba numSectors)
  if !answers.sent then (cbw, false)
  else if !answers.moved then (cbw, false)
  else if !receiveCSW 2 answers then (cbw, false)
  else (cbw, true)

/-- The command of `ScsiReadCapacity`. -/
def readCapacityTen : List Byte := 0x25 :: List.replicate 15 0

/-- `ScsiReadCapacity`: the wrapper, the result and the device. -/
def scsiReadCapacity (s : BlockStorage) (answers : BulkAnswers) :
    CommandBlockWrapper × Bool × BlockStorage :=
  let cbw := sendCBW 1 8 0x80 0 10 readCapacityTen
  let data := answers.data
  if !answers.sent then (cbw, false, s)
  else if !answers.moved then (cbw, false, s)
  else if !receiveCSW 1 answers then (cbw, false, s)
  else
    let lastLba : BitVec 32 := (data 0).setWidth 32 <<< 24 ||| (data 1).setWidth 32 <<< 16 |||
      (data 2).setWidth 32 <<< 8 ||| (data 3).setWidth 32
    let blkSz : BitVec 32 := (data 4).setWidth 32 <<< 24 ||| (data 5).setWidth 32 <<< 16 |||
      (data 6).setWidth 32 <<< 8 ||| (data 7).setWidth 32
    (cbw, true, { s with totalBlocks := (lastLba + 1).setWidth 64, blockSize := blkSz })

end BlockStorage

/-- The fields of a READ(10) command: the block address and the number of blocks. -/
def CommandBlockWrapper.readFields (cbw : CommandBlockWrapper) : Nat × Nat :=
  (ofBE ((cbw.command.drop 2).take 4), ofBE ((cbw.command.drop 7).take 2))

/-- A wrapper asks for exactly these blocks, and for their bytes. -/
structure AsksFor (cbw : CommandBlockWrapper) (lba count blockSize : Nat) : Prop where
  opcode : cbw.command.head? = some 0x28
  fields : cbw.readFields = (lba, count)
  length : cbw.dataTransferLength.toNat = count * blockSize

namespace BlockStorage

variable (s : BlockStorage) (answers : BulkAnswers)

theorem readSectors_eq (lba : BitVec 64) (numSectors : BitVec 32) :
    s.readSectors lba numSectors answers =
      (sendCBW 2 (numSectors * s.blockSize) 0x80 0 10 (readTen lba numSectors),
        answers.sent && answers.moved && receiveCSW 2 answers) := by
  rw [readSectors]
  cases answers.sent <;> cases answers.moved <;> cases receiveCSW 2 answers <;> rfl

/-- The fields hold the lowest bits of what was asked for. -/
theorem readFields_readTen (bytesLen : BitVec 32) (lba : BitVec 64) (numSectors : BitVec 32) :
    (sendCBW 2 bytesLen 0x80 0 10 (readTen lba numSectors)).readFields =
      (ofBE (toBE 4 lba.toNat), ofBE (toBE 2 numSectors.toNat)) := by
  have hlow {w : Nat} (x : BitVec w) (hw : 8 ≤ w) :
      (x &&& 0xFF).setWidth 8 = BitVec.ofNat 8 x.toNat := by
    have h0 := byte_of_word x 0 hw
    rwa [BitVec.ushiftRight_zero, pow_zero, Nat.div_one] at h0
  have hbytes : readTen lba numSectors = [0x28, 0] ++ toBE 4 lba.toNat ++ [0] ++
      toBE 2 numSectors.toNat ++ List.replicate 7 0 := by
    rw [readTen, byte_of_word lba 24 (by decide), byte_of_word lba 16 (by decide),
      byte_of_word lba 8 (by decide), hlow lba (by decide),
      byte_of_word numSectors 8 (by decide), hlow numSectors (by decide)]
    simp only [toBE, toLE, Nat.div_div_eq_div_mul]
    rfl
  rw [hbytes]
  rfl

/-- The wrapper asks for what was meant exactly when each of its fields is wide enough. -/
theorem asksFor_readSectors_iff (lba : BitVec 64) (numSectors : BitVec 32) :
    AsksFor (s.readSectors lba numSectors answers).1 lba.toNat numSectors.toNat
        s.blockSize.toNat ↔
      lba.toNat < 2 ^ 32 ∧ numSectors.toNat < 2 ^ 16 ∧
        numSectors.toNat * s.blockSize.toNat < 2 ^ 32 := by
  have hlength : (numSectors * s.blockSize).toNat = numSectors.toNat * s.blockSize.toNat ↔
      numSectors.toNat * s.blockSize.toNat < 2 ^ 32 := by
    rw [BitVec.toNat_mul]
    exact ⟨fun h => h ▸ Nat.mod_lt _ (by decide), Nat.mod_eq_of_lt⟩
  have hfields := readFields_readTen (numSectors * s.blockSize) lba numSectors
  rw [readSectors_eq]
  constructor
  · rintro ⟨-, hread, hlen⟩
    rw [hfields, Prod.mk.injEq, ofBE_toBE_eq_iff, ofBE_toBE_eq_iff] at hread
    exact ⟨hread.1, hread.2, hlength.mp hlen⟩
  · rintro ⟨hlba, hcount, hlen⟩
    refine ⟨rfl, ?_, hlength.mpr hlen⟩
    rw [hfields, ofBE_toBE_eq_iff.mpr hlba, ofBE_toBE_eq_iff.mpr hcount]

theorem readSectors_false_iff (lba : BitVec 64) (numSectors : BitVec 32) :
    (s.readSectors lba numSectors answers).2 = false ↔ ¬ answers.Succeed 2 := by
  rw [readSectors_eq, BulkAnswers.Succeed, ← Bool.not_eq_true, not_iff_not, Bool.and_eq_true,
    Bool.and_eq_true, and_assoc]

/-- The size is set from the answer. -/
theorem scsiReadCapacity_true_iff :
    (s.scsiReadCapacity answers).2.1 = true ↔ answers.Succeed 1 := by
  rw [scsiReadCapacity, BulkAnswers.Succeed]
  cases answers.sent <;> cases answers.moved <;> cases receiveCSW 1 answers <;> simp

theorem totalBlocks_scsiReadCapacity (h : answers.Succeed 1) :
    (s.scsiReadCapacity answers).2.2.totalBlocks.toNat =
      (ofBE [answers.data 0, answers.data 1, answers.data 2, answers.data 3] + 1) % 2 ^ 32 := by
  obtain ⟨hsent, hmoved, hreceived⟩ := h
  rw [scsiReadCapacity, hsent, hmoved, hreceived]
  simp only [Bool.not_true, Bool.false_eq_true, if_false]
  rw [BitVec.toNat_setWidth, BitVec.toNat_add, word_of_bytes,
    show (1 : BitVec 32).toNat = 1 from rfl]
  omega

end BlockStorage

/-- `ReadSectors` either fails or sends a command for exactly what was asked for, and
`ScsiReadCapacity` takes over the number of blocks, exactly as long as the numbers fit into the
fields. -/
theorem massStorage_numbers_iff (s : BlockStorage) :
    (∀ lba numSectors answers,
      ((s.readSectors lba numSectors answers).2 = false ∨
          AsksFor (s.readSectors lba numSectors answers).1 lba.toNat numSectors.toNat
            s.blockSize.toNat) ↔
        ¬ answers.Succeed 2 ∨ lba.toNat < 2 ^ 32 ∧ numSectors.toNat < 2 ^ 16 ∧
          numSectors.toNat * s.blockSize.toNat < 2 ^ 32) ∧
    ∀ answers,
      ((s.scsiReadCapacity answers).2.1 = true →
          (s.scsiReadCapacity answers).2.2.totalBlocks.toNat =
            ofBE (slice answers.data 0 4) + 1) ↔
        ¬ answers.Succeed 1 ∨ ofBE (slice answers.data 0 4) ≠ 0xFFFFFFFF := by
  refine ⟨fun lba numSectors answers => ?_, fun answers => ?_⟩
  · rw [BlockStorage.readSectors_false_iff, BlockStorage.asksFor_readSectors_iff]
  · rw [BlockStorage.scsiReadCapacity_true_iff, imp_iff_not_or]
    refine or_congr_right' fun hsucceed => ?_
    have hlt : ofBE (slice answers.data 0 4) < 2 ^ 32 :=
      (ofBE_lt _).trans_le (by rw [length_slice]; decide)
    rw [BlockStorage.totalBlocks_scsiReadCapacity s answers (not_not.mp hsucceed)]
    rw [show [answers.data 0, answers.data 1, answers.data 2, answers.data 3] =
      slice answers.data 0 4 from rfl]
    omega

/-- A device with blocks of 512 bytes that has just been found, and answers that succeed. -/
def stick : BlockStorage := ⟨⟨1, 0x81, 0x02⟩, 0, 512⟩

def delivered (data : Buffer) (tag : BitVec 32) : BulkAnswers :=
  ⟨true, true, data, true, ⟨0x53425355, tag, 0, 0⟩⟩

/-- The command for 65536 blocks has a count of 0, and a device whose last block is the last that
has a number of 32 bits gets no blocks. -/
theorem massStorage_numbers_lost :
    ¬ ((stick.readSectors 0 65536 (delivered (fun _ => 0) 2)).2 = false ∨
        AsksFor (stick.readSectors 0 65536 (delivered (fun _ => 0) 2)).1 0 65536 512) ∧
      ¬ ((stick.scsiReadCapacity (delivered (fun _ => 0xFF) 1)).2.1 = true →
        (stick.scsiReadCapacity (delivered (fun _ => 0xFF) 1)).2.2.totalBlocks.toNat =
          ofBE (slice (fun _ => 0xFF) 0 4) + 1) := by
  refine ⟨?_, by decide⟩
  rintro (hfalse | hasks)
  · exact absurd hfalse (by decide)
  · exact absurd hasks.fields (by decide)

end Sylphia.Xhci
