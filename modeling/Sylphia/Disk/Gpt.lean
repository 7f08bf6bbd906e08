import Sylphia.Core.Crc
import Sylphia.Core.Packed
import Sylphia.Fat.Driver

/-!
# The partition table

`FormatDiskGPT` of `installer.cpp`, with the structures of `gpt.hpp` and the checksum of
`gpt.cpp`. A structure that the source lays over a buffer is a record, and its fields are the
bytes of the buffer; a disk holds what is written to it.
-/

namespace Sylphia

open Bytes Packed WriteLog

/-- One round of the inner loop of `CalculateCRC32`. -/
def crcBit (crc : BitVec 32) : BitVec 32 :=
  if crc &&& 1 ≠ 0 then crc >>> 1 ^^^ 0xEDB88320 else crc >>> 1

/-- One round of the outer loop. -/
def crcByte (crc : BitVec 32) (b : Byte) : BitVec 32 := crcBit^[8] (crc ^^^ b.setWidth 32)

/-- `CalculateCRC32`. -/
def calculateCRC32 (bs : List Byte) : BitVec 32 := ~~~ bs.foldl crcByte 0xFFFFFFFF

/-- `v` is the CRC-32 of a message: complemented, it is the remainder by the polynomial whose
reflection is `0xEDB88320`, behind a register of ones. -/
def IsCrc32 (bs : List Byte) (v : BitVec 32) : Prop :=
  Crc.poly (~~~ v) = Crc.remainder 0xEDB88320#32 0xFFFFFFFF#32 bs

theorem crcBit_eq : crcBit = Crc.step 0xEDB88320 := by
  funext crc
  have hbit : crc &&& 1 ≠ 0 ↔ crc.getLsbD 0 = true := by
    rw [show (1 : BitVec 32) = 1#32 from rfl, BitVec.and_one_eq_setWidth_ofBool_getLsbD]
    cases crc.getLsbD 0 <;> decide
  rw [crcBit, Crc.step]
  simp only [hbit]

theorem isCrc32_calculateCRC32 (bs : List Byte) : IsCrc32 bs (calculateCRC32 bs) := by
  have hbyte : crcByte = Crc.byte 0xEDB88320 := by
    funext crc b
    rw [crcByte, Crc.byte, crcBit_eq]
  rw [IsCrc32, calculateCRC32, BitVec.not_not, hbyte]
  exact Crc.poly_foldl (by decide) _ _ bs

open scoped Polynomial in
/-- The generator of CRC-32, with the bits of `0x04C11DB7` below `X ^ 32`. -/
noncomputable def crc32Polynomial : (ZMod 2)[X] :=
  .X ^ 32 + ∑ k ∈ Finset.range 32, if (0x04C11DB7#32).getLsbD k then .X ^ k else 0

/-- The constant of the inner loop is the reflection of `0x04C11DB7`. -/
theorem generator_crc32 : Crc.generator 0xEDB88320#32 = crc32Polynomial := by
  have hreflect : ∀ k < 32, (0xEDB88320#32).getLsbD (32 - 1 - k) = (0x04C11DB7#32).getLsbD k := by
    decide
  rw [Crc.generator, crc32Polynomial, Crc.poly_eq_sum]
  refine congrArg _ (Finset.sum_congr rfl fun k hk => ?_)
  rw [hreflect k (Finset.mem_range.mp hk)]

/-- `CalculateCRC32` is the CRC-32, which no burst of at most 32 bits leaves as it was. -/
theorem calculateCRC32_detects :
    (∀ bs, Crc.poly (~~~ calculateCRC32 bs) =
      (.X ^ (8 * bs.length) * Crc.poly 0xFFFFFFFF#32 + .X ^ 32 * Crc.message bs) %ₘ
        crc32Polynomial) ∧
    ∀ as bs : List Byte, as.length = bs.length → as ≠ bs →
      (∃ k, ∀ i < 8 * bs.length, i < k ∨ k + 32 ≤ i → Crc.bit as i = Crc.bit bs i) →
        calculateCRC32 as ≠ calculateCRC32 bs := by
  constructor
  · intro bs
    rw [← generator_crc32]
    exact isCrc32_calculateCRC32 bs
  · intro as bs hlength hne ⟨k, hburst⟩ heq
    have hg : (0xEDB88320#32).getLsbD 31 = true := by decide
    refine hne (Crc.eq_of_remainder_eq hg hlength hburst (c := 0xFFFFFFFF#32) ?_)
    rw [← isCrc32_calculateCRC32, ← isCrc32_calculateCRC32, heq]

/-- A burst of 32 bits across five bytes. -/
theorem calculateCRC32_detects_burst :
    calculateCRC32 [0x10, 0x20, 0x30, 0x40, 0x50] ≠
      calculateCRC32 [0x80, 0xDF, 0xCF, 0xBF, 0x5F] :=
  calculateCRC32_detects.2 _ _ (by decide) (by decide) ⟨4, by decide⟩

/-- The check value of CRC-32, for the digits 1 to 9. -/
example : calculateCRC32 [0x31, 0x32, 0x33, 0x34, 0x35, 0x36, 0x37, 0x38, 0x39] = 0xCBF43926 := by
  decide +kernel

/-- A checksum that is stored in four bytes. -/
theorem ofNat_toNat_mod (v : BitVec 32) : BitVec.ofNat 32 (v.toNat % 256 ^ 4) = v := by
  have hlt : v.toNat < 256 ^ 4 := v.isLt
  rw [Nat.mod_eq_of_lt hlt, BitVec.ofNat_toNat, BitVec.setWidth_eq]

/-- `a - b` in `uint64_t`. -/
def sub64 (a b : Nat) : Nat := (a + 2 ^ 64 - b) % 2 ^ 64

/-- `GUID`. -/
structure GUID where
  data1 : Nat
  data2 : Nat
  data3 : Nat
  data4 : List Nat
  deriving DecidableEq

/-- The fields of a `GUID`. -/
def GUID.fields (g : GUID) : List Field :=
  [(4, g.data1), (2, g.data2), (2, g.data3)] ++ g.data4.map fun b => (1, b)

/-- `kEspGuid`. -/
def kEspGuid : GUID :=
  ⟨0xC12A7328, 0xF81F, 0x11D2, [0xBA, 0x4B, 0x00, 0xA0, 0xC9, 0x3E, 0xC9, 0x3B]⟩

/-- `kUniqueGuid`. -/
def kUniqueGuid : GUID :=
  ⟨0x12345678, 0xABCD, 0xEFEF, [0x01, 0x02, 0x03, 0x04, 0x05, 0x06, 0x07, 0x08]⟩

/-- A partition of a `LegacyMBR`. -/
structure MbrPartition where
  bootIndicator : Nat := 0
  startHead : Nat := 0
  startSector : Nat := 0
  startCyl : Nat := 0
  sysType : Nat := 0
  endHead : Nat := 0
  endSector : Nat := 0
  endCyl : Nat := 0
  startLba : Nat := 0
  sizeLba : Nat := 0

/-- The fields of a partition of a `LegacyMBR`. -/
def MbrPartition.fields (p : MbrPartition) : List Field :=
  [(1, p.bootIndicator), (1, p.startHead), (1, p.startSector), (1, p.startCyl), (1, p.sysType),
    (1, p.endHead), (1, p.endSector), (1, p.endCyl), (4, p.startLba), (4, p.sizeLba)]

/-- `LegacyMBR`, without boot code. -/
structure LegacyMBR where
  partitions : List MbrPartition
  signature : Nat

/-- The fields of a `LegacyMBR`. -/
def LegacyMBR.fields (m : LegacyMBR) : List Field :=
  List.replicate 446 (1, 0) ++ m.partitions.flatMap MbrPartition.fields ++ [(2, m.signature)]

/-- `GPTHeader`, cleared where nothing else is said. -/
structure GPTHeader where
  signature : Nat := 0
  revision : Nat := 0
  headerSize : Nat := 0
  crc32 : Nat := 0
  reserved1 : Nat := 0
  myLba : Nat := 0
  alternateLba : Nat := 0
  firstUsableLba : Nat := 0
  lastUsableLba : Nat := 0
  diskGuid : GUID
  partitionEntryLba : Nat := 0
  numPartitionEntries : Nat := 0
  sizeofPartitionEntry : Nat := 0
  partitionEntryArrayCrc32 : Nat := 0

/-- The fields of a `GPTHeader`. -/
def GPTHeader.fields (h : GPTHeader) : List Field :=
  [(8, h.signature), (4, h.revision), (4, h.headerSize), (4, h.crc32), (4, h.reserved1),
    (8, h.myLba), (8, h.alternateLba), (8, h.firstUsableLba), (8, h.lastUsableLba)] ++
  h.diskGuid.fields ++
  [(8, h.partitionEntryLba), (4, h.numPartitionEntries), (4, h.sizeofPartitionEntry),
    (4, h.partitionEntryArrayCrc32)] ++
  List.replicate 420 (1, 0)

/-- `GPTPartitionEntry`. -/
structure GPTPartitionEntry where
  typeGuid : GUID
  uniqueGuid : GUID
  firstLba : Nat
  lastLba : Nat
  attributes : Nat
  name : List Nat

/-- The fields of a `GPTPartitionEntry`. -/
def GPTPartitionEntry.fields (e : GPTPartitionEntry) : List Field :=
  e.typeGuid.fields ++ e.uniqueGuid.fields ++
  [(8, e.firstLba), (8, e.lastLba), (8, e.attributes)] ++ e.name.map fun c => (2, c)

/-- The protective MBR. -/
def protectiveMbr (totalBlocks : Nat) : LegacyMBR where
  partitions :=
    [{ bootIndicator := 0x00
       sysType := 0xEE
       startLba := 1
       sizeLba := if totalBlocks > 0xFFFFFFFF then 0xFFFFFFFF else sub64 totalBlocks 1 % 2 ^ 32 },
      {}, {}, {}]
  signature := 0xAA55

/-- The name of the partition, `"Sylphia System"`, in a cleared array of 36 characters. -/
def partitionName : List Nat :=
  [0x53, 0x79, 0x6C, 0x70, 0x68, 0x69, 0x61, 0x20, 0x53, 0x79, 0x73, 0x74, 0x65, 0x6D] ++
    List.replicate 22 0

/-- Entry 0. -/
def systemEntry (totalBlocks : Nat) : GPTPartitionEntry where
  typeGuid := kEspGuid
  uniqueGuid := kUniqueGuid
  firstLba := 2048
  lastLba := sub64 totalBlocks 34
  attributes := 0
  name := partitionName

/-- The bytes of `entry_buf`: entry 0, and 127 cleared entries. -/
def entryBytes (totalBlocks : Nat) : List Byte :=
  bytes ((systemEntry totalBlocks).fields ++ List.replicate (127 * 128) (1, 0))

/-- A loop of `FormatDiskGPT` that writes the first `n` chunks of 4 KB of a buffer. -/
def writeChunks (dev : BlockDevice) (lba : Nat) (buf : Buffer) : Nat → BlockDevice
  | 0 => dev
  | i + 1 =>
    BlockDevice.writeSectors (writeChunks dev lba buf i) ((lba + i * 8) % 2 ^ 64)
      (fun k => buf (i * 4096 + k)) 8

/-- `header->crc32 = 0; header->crc32 = CalculateCRC32(header, 92);` -/
def GPTHeader.seal (h : GPTHeader) : GPTHeader :=
  let h := { h with crc32 := 0 }
  { h with crc32 := (calculateCRC32 ((bytes h.fields).take 92)).toNat }

/-- `backup_start_lba`. -/
def backupStartLba (totalBlocks : Nat) : Nat := sub64 (sub64 totalBlocks 1) 32

/-- The primary header, before its checksum. -/
def primaryHeader (totalBlocks entriesCrc : Nat) : GPTHeader where
  signature := 0x5452415020494645
  revision := 0x00010000
  headerSize := 92
  myLba := 1
  alternateLba := sub64 totalBlocks 1
  firstUsableLba := 2048
  lastUsableLba := sub64 totalBlocks 34
  diskGuid := kUniqueGuid
  partitionEntryLba := 2
  numPartitionEntries := 128
  sizeofPartitionEntry := 128
  partitionEntryArrayCrc32 := entriesCrc

/-- The changes that make the backup header of the primary one, before its checksum. -/
def GPTHeader.toBackup (h : GPTHeader) (totalBlocks : Nat) : GPTHeader :=
  { h with
    myLba := sub64 totalBlocks 1
    alternateLba := 1
    partitionEntryLba := backupStartLba totalBlocks }

/-- `entries_crc`. -/
def entriesCrc (totalBlocks : Nat) : Nat :=
  (calculateCRC32 (slice (buffer (entryBytes totalBlocks)) 0 (128 * 128))).toNat

/-- `FormatDiskGPT`. -/
def formatDiskGPT (dev : BlockDevice) (totalBlocks : Nat) : BlockDevice :=
  let dev := BlockDevice.writeSectors dev 0 (buffer (bytes (protectiveMbr totalBlocks).fields)) 1
  let entryBuf := buffer (entryBytes totalBlocks)
  let dev := writeChunks dev 2 entryBuf 4
  let dev := writeChunks dev (backupStartLba totalBlocks) entryBuf 4
  let header := (primaryHeader totalBlocks (entriesCrc totalBlocks)).seal
  let dev := BlockDevice.writeSectors dev 1 (buffer (bytes header.fields)) 1
  let header := (header.toBackup totalBlocks).seal
  BlockDevice.writeSectors dev (sub64 totalBlocks 1) (buffer (bytes header.fields)) 1

namespace BlockDevice

variable {dev : BlockDevice} {lba x n : Nat} {buf : Buffer}

theorem writeSectors_add (dev : BlockDevice) (lba : Nat) (buf : Buffer) (m n : Nat) :
    writeSectors dev lba buf (m + n) =
      writeSectors (writeSectors dev lba buf m) (lba + m) (fun k => buf (m * 512 + k)) n := by
  induction n with
  | zero => rfl
  | succ n ih =>
    have hbuf : (fun k => buf ((m + n) * 512 + k)) = fun k => buf (m * 512 + (n * 512 + k)) := by
      funext k
      rw [Nat.add_mul, Nat.add_assoc]
    rw [← Nat.add_assoc, writeSectors, writeSectors, ih, hbuf, Nat.add_assoc]

theorem within_writeSectors (dev : BlockDevice) (lba : Nat) (buf : Buffer) (n : Nat) :
    Logged.Within (fun x => lba ≤ x ∧ x < lba + n) dev (writeSectors dev lba buf n) := by
  induction n with
  | zero => exact Logged.Within.refl _ dev
  | succ n ih =>
    refine (ih.mono fun x hx => ⟨hx.1, by omega⟩).trans ?_
    exact Logged.within_write _ _ ⟨by omega, by omega⟩

theorem store_writeSectors (dev : BlockDevice) (buf : Buffer) (hlo : lba ≤ x) (hhi : x < lba + n) :
    (writeSectors dev lba buf n).store x = fun k => buf ((x - lba) * 512 + k) := by
  induction n with
  | zero => omega
  | succ n ih =>
    rw [writeSectors]
    by_cases hx : x = lba + n
    · rw [hx, Logged.write_store_self, Nat.add_sub_cancel_left]
    · rw [Logged.write_store_of_ne _ hx, ih (by omega)]

theorem store_writeSectors_one (dev : BlockDevice) (lba : Nat) (buf : Buffer) :
    (writeSectors dev lba buf 1).store lba = buf := by
  rw [store_writeSectors dev buf le_rfl (Nat.lt_succ_self lba), Nat.sub_self]
  simp only [Nat.zero_mul, Nat.zero_add]

/-- Sectors that hold a buffer are read as that buffer. -/
theorem slice_read (h : ∀ j < n, dev.store (lba + j) = fun k => buf (j * 512 + k)) :
    slice (read dev lba) 0 (n * 512) = slice buf 0 (n * 512) := by
  refine slice_congr fun k hk => ?_
  rw [Nat.zero_add, read, h _ (Nat.div_lt_of_lt_mul (by omega))]
  exact congrArg buf (Nat.div_add_mod' k 512)

end BlockDevice

theorem writeChunks_eq (dev : BlockDevice) {lba n : Nat} (buf : Buffer) (h : lba + n * 8 ≤ 2 ^ 64) :
    writeChunks dev lba buf n = BlockDevice.writeSectors dev lba buf (n * 8) := by
  induction n with
  | zero => rfl
  | succ n ih =>
    have hbuf : (fun k => buf (n * 4096 + k)) = fun k => buf (n * 8 * 512 + k) := by
      funext k
      rw [Nat.mul_assoc]
    rw [writeChunks, ih (by omega), Nat.mod_eq_of_lt (by omega), Nat.succ_mul,
      BlockDevice.writeSectors_add, hbuf]

namespace Gpt

/-- `crc32` of the header in a sector. -/
def crc32 (sector : Buffer) : Nat := fieldAt sector 16 4

/-- `my_lba`. -/
def myLba (sector : Buffer) : Nat := fieldAt sector 24 8

/-- `alternate_lba`. -/
def alternateLba (sector : Buffer) : Nat := fieldAt sector 32 8

/-- `partition_entry_lba`. -/
def partitionEntryLba (sector : Buffer) : Nat := fieldAt sector 72 8

/-- `num_partition_entries`. -/
def numPartitionEntries (sector : Buffer) : Nat := fieldAt sector 80 4

/-- `sizeof_partition_entry`. -/
def sizeofPartitionEntry (sector : Buffer) : Nat := fieldAt sector 84 4

/-- `partition_entry_array_crc32`. -/
def partitionEntryArrayCrc32 (sector : Buffer) : Nat := fieldAt sector 88 4

/-- `first_lba` of the first entry in a sector. -/
def firstLba (sector : Buffer) : Nat := fieldAt sector 32 8

/-- `last_lba`. -/
def lastLba (sector : Buffer) : Nat := fieldAt sector 40 8

/-- `start_lba` of the first partition of an MBR. -/
def startLba (sector : Buffer) : Nat := fieldAt sector 454 4

/-- `size_lba`. -/
def sizeLba (sector : Buffer) : Nat := fieldAt sector 458 4

end Gpt

/-- A header in its sector: what its fields read as. -/
structure GPTHeader.On (h : GPTHeader) (sector : Buffer) : Prop where
  crc32 : Gpt.crc32 sector = h.crc32 % 256 ^ 4
  myLba : Gpt.myLba sector = h.myLba % 256 ^ 8
  alternateLba : Gpt.alternateLba sector = h.alternateLba % 256 ^ 8
  partitionEntryLba : Gpt.partitionEntryLba sector = h.partitionEntryLba % 256 ^ 8
  numPartitionEntries : Gpt.numPartitionEntries sector = h.numPartitionEntries % 256 ^ 4
  sizeofPartitionEntry : Gpt.sizeofPartitionEntry sector = h.sizeofPartitionEntry % 256 ^ 4
  arrayCrc32 : Gpt.partitionEntryArrayCrc32 sector = h.partitionEntryArrayCrc32 % 256 ^ 4

theorem GPTHeader.on_buffer {h : GPTHeader} (hg : h.diskGuid = kUniqueGuid) :
    h.On (buffer (bytes h.fields)) := by
  have hoff {i : Nat} (hi : i ≤ 24) : offset h.fields i =
      (([8, 4, 4, 4, 4, 8, 8, 8, 8, 4, 2, 2] ++ List.replicate 8 1 ++
        [8, 4, 4, 4]).take i).sum := by
    rw [GPTHeader.fields, hg, offset_append_left hi, offset_eq]
    rfl
  have hfields : h.fields = { h with diskGuid := kUniqueGuid }.fields := by rw [← hg]
  refine ⟨?_, ?_, ?_, ?_, ?_, ?_, ?_⟩
  · exact fieldAt_buffer (i := 3) (by rw [hfields]; rfl) (hoff (by decide))
  · exact fieldAt_buffer (i := 5) (by rw [hfields]; rfl) (hoff (by decide))
  · exact fieldAt_buffer (i := 6) (by rw [hfields]; rfl) (hoff (by decide))
  · exact fieldAt_buffer (i := 20) (by rw [hfields]; rfl) (hoff (by decide))
  · exact fieldAt_buffer (i := 21) (by rw [hfields]; rfl) (hoff (by decide))
  · exact fieldAt_buffer (i := 22) (by rw [hfields]; rfl) (hoff (by decide))
  · exact fieldAt_buffer (i := 23) (by rw [hfields]; rfl) (hoff (by decide))

/-- The checksum of a sector verifies: that of its first 92 bytes, with its own field cleared. -/
def Gpt.Verifies (sector : Buffer) : Prop :=
  IsCrc32 (slice (splice sector 16 (toLE 4 0)) 0 92) (BitVec.ofNat 32 (Gpt.crc32 sector))

theorem GPTHeader.verifies_seal {h : GPTHeader} (hg : h.diskGuid = kUniqueGuid) :
    Gpt.Verifies (buffer (bytes h.seal.fields)) := by
  have hclear : splice (buffer (bytes h.seal.fields)) 16 (toLE 4 0) =
      buffer (bytes { h with crc32 := 0 }.fields) := splice_buffer (i := 3) rfl rfl 0
  have hlen : 92 ≤ (bytes { h with crc32 := 0 }.fields).length := by
    rw [length_bytes, GPTHeader.fields, size_append, size_replicate]
    omega
  have hcrc : Gpt.crc32 (buffer (bytes h.seal.fields)) = h.seal.crc32 % 256 ^ 4 :=
    (on_buffer (h := h.seal) hg).crc32
  have hvalue : BitVec.ofNat 32 (h.seal.crc32 % 256 ^ 4) =
      calculateCRC32 ((bytes { h with crc32 := 0 }.fields).take 92) := ofNat_toNat_mod _
  rw [Gpt.Verifies, hclear, hcrc, slice_buffer (by omega), List.drop_zero, hvalue]
  exact isCrc32_calculateCRC32 _

/-- The protective partition in its sector. -/
theorem lba_protectiveMbr (n : Nat) :
    Gpt.startLba (buffer (bytes (protectiveMbr n).fields)) = 1 ∧
      Gpt.sizeLba (buffer (bytes (protectiveMbr n).fields)) =
        if n > 0xFFFFFFFF then 0xFFFFFFFF else sub64 n 1 % 2 ^ 32 := by
  have hsize : size (List.replicate 446 (1, 0)) = 446 := size_replicate ..
  rw [LegacyMBR.fields, List.append_assoc]
  constructor
  · exact fieldAt_buffer_append (i := 8) (w := 4) (v := 1) rfl (by rw [hsize]; rfl)
  · refine (fieldAt_buffer_append (i := 9) rfl (by rw [hsize]; rfl)).trans (Nat.mod_eq_of_lt ?_)
    split <;> omega

/-- The partition in the first sector of the entries. -/
theorem lba_systemEntry (n : Nat) :
    Gpt.firstLba (buffer (entryBytes n)) = 2048 ∧
      Gpt.lastLba (buffer (entryBytes n)) = sub64 n 34 := by
  have hoff {i : Nat} (hi : i ≤ 25) : offset ((systemEntry n).fields ++
      List.replicate (127 * 128) (1, 0)) i =
        (([4, 2, 2] ++ List.replicate 8 1 ++ [4, 2, 2] ++ List.replicate 8 1 ++
          [8, 8, 8]).take i).sum := by
    rw [GPTPartitionEntry.fields, List.append_assoc, offset_append_left hi, offset_eq]
    rfl
  constructor
  · exact fieldAt_buffer (i := 22) rfl (hoff (by decide))
  · have h64 : sub64 n 34 < 256 ^ 8 := Nat.mod_lt _ (by decide)
    exact (fieldAt_buffer (i := 23) rfl (hoff (by decide))).trans (Nat.mod_eq_of_lt h64)

/-! ## The formatted disk -/

/-- The sectors that `FormatDiskGPT` leaves on a disk of `n` blocks. -/
structure GptSectors (n : Nat) (dev dev' : BlockDevice) : Prop where
  within : Logged.Within
    (fun lba => lba = 0 ∨ lba = 1 ∨ (2 ≤ lba ∧ lba ≤ 33) ∨ (n - 33 ≤ lba ∧ lba ≤ n - 1)) dev dev'
  mbr : dev'.store 0 = buffer (bytes (protectiveMbr n).fields)
  primary : dev'.store 1 = buffer (bytes (primaryHeader n (entriesCrc n)).seal.fields)
  entries : ∀ j < 32, dev'.store (2 + j) = fun k => buffer (entryBytes n) (j * 512 + k)
  backupEntries : ∀ j < 32, dev'.store (n - 33 + j) = fun k => buffer (entryBytes n) (j * 512 + k)
  backup : dev'.store (n - 1) =
    buffer (bytes ((primaryHeader n (entriesCrc n)).seal.toBackup n).seal.fields)

theorem sub64_eq {a b : Nat} (h : b ≤ a) (ha : a < 2 ^ 64) : sub64 a b = a - b := by
  rw [sub64]
  omega

theorem backupStartLba_eq {n : Nat} (h : 33 ≤ n) (hn : n < 2 ^ 64) :
    backupStartLba n = n - 33 := by
  rw [backupStartLba, sub64_eq (by omega) hn, sub64_eq (by omega) (by omega)]
  omega

theorem gptSectors_format {n : Nat} (h : 2082 ≤ n) (hn : n < 2 ^ 64) (dev : BlockDevice) :
    GptSectors n dev (formatDiskGPT dev n) := by
  have hb : backupStartLba n = n - 33 := backupStartLba_eq (by omega) hn
  have hlast : sub64 n 1 = n - 1 := sub64_eq (by omega) hn
  rw [formatDiskGPT, hb, hlast, writeChunks_eq _ _ (by omega), writeChunks_eq _ _ (by omega)]
  set d₁ := BlockDevice.writeSectors dev 0 (buffer (bytes (protectiveMbr n).fields)) 1 with hd₁
  set d₂ := BlockDevice.writeSectors d₁ 2 (buffer (entryBytes n)) (4 * 8) with hd₂
  set d₃ := BlockDevice.writeSectors d₂ (n - 33) (buffer (entryBytes n)) (4 * 8) with hd₃
  set d₄ := BlockDevice.writeSectors d₃ 1
    (buffer (bytes (primaryHeader n (entriesCrc n)).seal.fields)) 1 with hd₄
  have w₁ := BlockDevice.within_writeSectors dev 0 (buffer (bytes (protectiveMbr n).fields)) 1
  have w₂ := BlockDevice.within_writeSectors d₁ 2 (buffer (entryBytes n)) (4 * 8)
  have w₃ := BlockDevice.within_writeSectors d₂ (n - 33) (buffer (entryBytes n)) (4 * 8)
  have w₄ := BlockDevice.within_writeSectors d₃ 1
    (buffer (bytes (primaryHeader n (entriesCrc n)).seal.fields)) 1
  have w₅ := BlockDevice.within_writeSectors d₄ (n - 1)
    (buffer (bytes ((primaryHeader n (entriesCrc n)).seal.toBackup n).seal.fields)) 1
  refine ⟨?_, ?_, ?_, fun j hj => ?_, fun j hj => ?_, ?_⟩
  · refine (w₁.mono fun x hx => ?_).trans ((w₂.mono fun x hx => ?_).trans
      ((w₃.mono fun x hx => ?_).trans ((w₄.mono fun x hx => ?_).trans (w₅.mono fun x hx => ?_))))
    all_goals omega
  · rw [w₅.store_eq (by omega), w₄.store_eq (by omega), w₃.store_eq (by omega),
      w₂.store_eq (by omega), hd₁, BlockDevice.store_writeSectors_one]
  · rw [w₅.store_eq (by omega), hd₄, BlockDevice.store_writeSectors_one]
  · rw [w₅.store_eq (by omega), w₄.store_eq (by omega), w₃.store_eq (by omega), hd₂,
      BlockDevice.store_writeSectors _ _ (by omega) (by omega), Nat.add_sub_cancel_left]
  · rw [w₅.store_eq (by omega), w₄.store_eq (by omega), hd₃,
      BlockDevice.store_writeSectors _ _ (by omega) (by omega), Nat.add_sub_cancel_left]
  · exact BlockDevice.store_writeSectors_one ..

/-- The header at `lba` verifies, names itself and the other header, and has the checksum of the
16 KB of entries that it points to. -/
structure HeaderAt (dev : BlockDevice) (lba other : Nat) : Prop where
  verifies : Gpt.Verifies (dev.store lba)
  myLba : Gpt.myLba (dev.store lba) = lba
  alternateLba : Gpt.alternateLba (dev.store lba) = other
  arraySize : Gpt.numPartitionEntries (dev.store lba) * Gpt.sizeofPartitionEntry (dev.store lba) =
    16384
  arrayCrc32 :
    IsCrc32 (slice (BlockDevice.read dev (Gpt.partitionEntryLba (dev.store lba))) 0 16384)
      (BitVec.ofNat 32 (Gpt.partitionEntryArrayCrc32 (dev.store lba)))

/-- The regions of a formatted disk, each with its first and its last block: MBR, primary header,
primary entries, partition, backup entries, backup header. -/
def gptRegions (dev : BlockDevice) (n : Nat) : List (Nat × Nat) :=
  let primaryEntries := Gpt.partitionEntryLba (dev.store 1)
  let backupEntries := Gpt.partitionEntryLba (dev.store (n - 1))
  [(0, 0), (1, 1), (primaryEntries, primaryEntries + 31),
    (Gpt.firstLba (dev.store primaryEntries), Gpt.lastLba (dev.store primaryEntries)),
    (backupEntries, backupEntries + 31), (n - 1, n - 1)]

/-- Two regions have no block in common. -/
def Apart (r s : Nat × Nat) : Prop := ∀ b, r.1 ≤ b → b ≤ r.2 → ¬(s.1 ≤ b ∧ b ≤ s.2)

/-- A disk of `n` blocks with a partition table. -/
structure GptFormatted (n : Nat) (dev dev' : BlockDevice) : Prop where
  writes : Logged.Within
    (fun lba => lba = 0 ∨ lba = 1 ∨ (2 ≤ lba ∧ lba ≤ 33) ∨ (n - 33 ≤ lba ∧ lba ≤ n - 1)) dev dev'
  mbrStart : Gpt.startLba (dev'.store 0) = 1
  mbrSize : Gpt.sizeLba (dev'.store 0) = min (n - 1) 0xFFFFFFFF
  primary : HeaderAt dev' 1 (n - 1)
  backup : HeaderAt dev' (n - 1) 1
  sameEntries :
    slice (BlockDevice.read dev' (Gpt.partitionEntryLba (dev'.store 1))) 0 16384 =
      slice (BlockDevice.read dev' (Gpt.partitionEntryLba (dev'.store (n - 1)))) 0 16384
  regions : gptRegions dev' n =
    [(0, 0), (1, 1), (2, 33), (2048, n - 34), (n - 33, n - 2), (n - 1, n - 1)]
  disjoint : (gptRegions dev' n).Pairwise Apart

/-- A header of a disk of `n` blocks, before its checksum. -/
structure GPTHeader.Describes (h : GPTHeader) (n : Nat) : Prop where
  guid : h.diskGuid = kUniqueGuid
  count : h.numPartitionEntries = 128
  entrySize : h.sizeofPartitionEntry = 128
  arrayCrc32 : h.partitionEntryArrayCrc32 = entriesCrc n
  myLba_lt : h.myLba < 2 ^ 64
  alternateLba_lt : h.alternateLba < 2 ^ 64
  partitionEntryLba_lt : h.partitionEntryLba < 2 ^ 64

/-- A header that is written with its checksum, and the entries where it points to. -/
theorem GPTHeader.Describes.headerAt {h : GPTHeader} {n : Nat} (hd : h.Describes n)
    {dev : BlockDevice} (hstore : dev.store h.myLba = buffer (bytes h.seal.fields))
    (hentries : ∀ j < 32, dev.store (h.partitionEntryLba + j) =
      fun k => buffer (entryBytes n) (j * 512 + k)) :
    HeaderAt dev h.myLba h.alternateLba ∧
      Gpt.partitionEntryLba (dev.store h.myLba) = h.partitionEntryLba := by
  have hon : h.seal.On (dev.store h.myLba) := hstore ▸ on_buffer (h := h.seal) hd.guid
  have hlba : Gpt.partitionEntryLba (dev.store h.myLba) = h.partitionEntryLba :=
    hon.partitionEntryLba.trans (Nat.mod_eq_of_lt hd.partitionEntryLba_lt)
  have hread : slice (BlockDevice.read dev h.partitionEntryLba) 0 16384 =
      slice (buffer (entryBytes n)) 0 16384 := BlockDevice.slice_read (n := 32) hentries
  refine ⟨⟨?_, ?_, ?_, ?_, ?_⟩, hlba⟩
  · rw [hstore]
    exact verifies_seal hd.guid
  · exact hon.myLba.trans (Nat.mod_eq_of_lt hd.myLba_lt)
  · exact hon.alternateLba.trans (Nat.mod_eq_of_lt hd.alternateLba_lt)
  · have hcount : h.seal.numPartitionEntries = 128 := hd.count
    have hsize : h.seal.sizeofPartitionEntry = 128 := hd.entrySize
    rw [hon.numPartitionEntries, hon.sizeofPartitionEntry, hcount, hsize]
    rfl
  · have harray : h.seal.partitionEntryArrayCrc32 = entriesCrc n := hd.arrayCrc32
    rw [hon.arrayCrc32, harray, hlba, hread, entriesCrc, ofNat_toNat_mod]
    exact isCrc32_calculateCRC32 _

namespace GptSectors

variable {n : Nat} {dev dev' : BlockDevice}

theorem headerAt_primary (hs : GptSectors n dev dev') (h : 1 ≤ n) (hn : n < 2 ^ 64) :
    HeaderAt dev' 1 (n - 1) ∧ Gpt.partitionEntryLba (dev'.store 1) = 2 := by
  have hd : (primaryHeader n (entriesCrc n)).Describes n := by
    refine ⟨rfl, rfl, rfl, rfl, (by decide : 1 < 2 ^ 64), ?_, (by decide : 2 < 2 ^ 64)⟩
    exact Nat.mod_lt _ (by decide)
  rw [← sub64_eq h hn]
  exact hd.headerAt hs.primary hs.entries

theorem headerAt_backup (hs : GptSectors n dev dev') (h : 33 ≤ n) (hn : n < 2 ^ 64) :
    HeaderAt dev' (n - 1) 1 ∧ Gpt.partitionEntryLba (dev'.store (n - 1)) = n - 33 := by
  have hb : backupStartLba n = n - 33 := backupStartLba_eq h hn
  have hlast : sub64 n 1 = n - 1 := sub64_eq (by omega) hn
  have hd : ((primaryHeader n (entriesCrc n)).seal.toBackup n).Describes n := by
    refine ⟨rfl, rfl, rfl, rfl, ?_, (by decide : 1 < 2 ^ 64), ?_⟩
    · exact Nat.mod_lt _ (by decide)
    · exact Nat.mod_lt _ (by decide)
  rw [← hlast, ← hb]
  refine hd.headerAt ?_ fun j hj => ?_
  · rw [← hs.backup, ← hlast]
    rfl
  · rw [← hs.backupEntries j hj, ← hb]
    rfl

/-- The sector of entry 0. -/
theorem store_two (hs : GptSectors n dev dev') : dev'.store 2 = buffer (entryBytes n) := by
  rw [← Nat.add_zero 2, hs.entries 0 (by decide)]
  simp only [Nat.zero_mul, Nat.zero_add]

theorem regions (hs : GptSectors n dev dev') (h : 34 ≤ n) (hn : n < 2 ^ 64) :
    gptRegions dev' n =
      [(0, 0), (1, 1), (2, 33), (2048, n - 34), (n - 33, n - 2), (n - 1, n - 1)] := by
  have hend : n - 33 + 31 = n - 2 := by omega
  rw [gptRegions, (hs.headerAt_primary (by omega) hn).2, (hs.headerAt_backup (by omega) hn).2,
    hs.store_two, (lba_systemEntry n).1, (lba_systemEntry n).2, sub64_eq h hn, hend]

end GptSectors

/-- `FormatDiskGPT` on a disk of `n` blocks. -/
theorem formatDiskGPT_formatted {n : Nat} (h : 2082 ≤ n) (hn : n < 2 ^ 63) (dev : BlockDevice) :
    GptFormatted n dev (formatDiskGPT dev n) := by
  have hs : GptSectors n dev (formatDiskGPT dev n) := gptSectors_format h (by omega) dev
  obtain ⟨hp, hplba⟩ := hs.headerAt_primary (by omega) (by omega)
  obtain ⟨hb, hblba⟩ := hs.headerAt_backup (by omega) (by omega)
  have hregions := hs.regions (by omega) (by omega)
  refine ⟨hs.within, ?_, ?_, hp, hb, ?_, hregions, ?_⟩
  · rw [hs.mbr]
    exact (lba_protectiveMbr n).1
  · rw [hs.mbr, (lba_protectiveMbr n).2, sub64_eq (by omega) (by omega)]
    split <;> omega
  · rw [hplba, hblba, show 16384 = 32 * 512 from rfl, BlockDevice.slice_read hs.entries,
      BlockDevice.slice_read hs.backupEntries]
  · have hsorted : (gptRegions (formatDiskGPT dev n) n).Pairwise fun r s => r.2 < s.1 := by
      rw [hregions]
      simp only [List.pairwise_cons, List.forall_mem_cons, List.not_mem_nil, List.Pairwise.nil,
        false_implies, implies_true, and_true]
      omega
    refine hsorted.imp fun hlt b _ hb hb' => ?_
    exact absurd (hb.trans_lt hlt) (not_lt.mpr hb'.1)

/-- On the smallest such disk the partition is one block. -/
theorem formatDiskGPT_smallest :
    GptFormatted 2082 ⟨fun _ _ => 0, []⟩ (formatDiskGPT ⟨fun _ _ => 0, []⟩ 2082) :=
  formatDiskGPT_formatted (by decide) (by decide) _

end Sylphia
