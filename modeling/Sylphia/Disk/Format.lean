import Mathlib.Order.Interval.Set.Defs
import Sylphia.Disk.Gpt

/-!
# Formatting a disk

`FormatPartitionFAT32` of `fat32.cpp`, and the formatting of an empty disk in `KernelMain`: the
partition table for the whole disk, then the volume in its partition. The two formatters compute
the extent of the partition each for itself.
-/

namespace Sylphia

open Bytes Packed WriteLog

/-- `kPartitionStartLBA`. -/
def kPartitionStartLBA : Nat := 2048

/-- The characters of a string, each a field. -/
def charFields (cs : List Nat) : List Field := cs.map fun c => (1, c)

/-- `FAT32_BPB`. -/
structure FAT32BPB where
  jmpBoot : List Nat
  oemName : List Nat
  bytesPerSec : Nat
  secPerClus : Nat
  reservedSecCnt : Nat
  numFats : Nat
  rootEntCnt : Nat
  totSec16 : Nat
  media : Nat
  fatSz16 : Nat
  secPerTrk : Nat
  numHeads : Nat
  hiddSec : Nat
  totSec32 : Nat
  fatSz32 : Nat
  extFlags : Nat
  fsVer : Nat
  rootClus : Nat
  fsInfo : Nat
  bkBootSec : Nat
  drvNum : Nat
  bootSig : Nat
  volId : Nat
  volLab : List Nat
  filSysType : List Nat
  signature : Nat

/-- The fields of a `FAT32_BPB`, with its reserved bytes and without boot code. -/
def FAT32BPB.fields (b : FAT32BPB) : List Field :=
  charFields b.jmpBoot ++ charFields b.oemName ++
  [(2, b.bytesPerSec), (1, b.secPerClus), (2, b.reservedSecCnt), (1, b.numFats),
    (2, b.rootEntCnt), (2, b.totSec16), (1, b.media), (2, b.fatSz16), (2, b.secPerTrk),
    (2, b.numHeads), (4, b.hiddSec), (4, b.totSec32), (4, b.fatSz32), (2, b.extFlags),
    (2, b.fsVer), (4, b.rootClus), (2, b.fsInfo), (2, b.bkBootSec)] ++
  List.replicate 12 (1, 0) ++
  [(1, b.drvNum), (1, 0), (1, b.bootSig), (4, b.volId)] ++
  charFields b.volLab ++ charFields b.filSysType ++ List.replicate 420 (1, 0) ++ [(2, b.signature)]

/-- `FAT32_FSInfo`. -/
structure FAT32FSInfo where
  leadSig : Nat
  strucSig : Nat
  freeCount : Nat
  nxtFree : Nat
  trailSig : Nat

/-- The fields of a `FAT32_FSInfo`. -/
def FAT32FSInfo.fields (f : FAT32FSInfo) : List Field :=
  [(4, f.leadSig)] ++ List.replicate 480 (1, 0) ++
  [(4, f.strucSig), (4, f.freeCount), (4, f.nxtFree)] ++ List.replicate 12 (1, 0) ++
  [(4, f.trailSig)]

/-- `total_clusters`. -/
def totalClusters (partSectors : Nat) : Nat := partSectors / 8 % 2 ^ 32

/-- `fat_sz_sec`. -/
def fatSzSec (partSectors : Nat) : Nat :=
  let fatSzBytes := totalClusters partSectors * 4 % 2 ^ 32
  (fatSzBytes + 511) % 2 ^ 32 / 512

/-- The boot sector. -/
def bootSector (partSectors : Nat) : FAT32BPB where
  jmpBoot := [0xEB, 0x58, 0x90]
  oemName := [0x4D, 0x53, 0x57, 0x49, 0x4E, 0x34, 0x2E, 0x31]
  bytesPerSec := 512
  secPerClus := 8
  reservedSecCnt := 32
  numFats := 2
  rootEntCnt := 0
  totSec16 := 0
  media := 0xF8
  fatSz16 := 0
  secPerTrk := 32
  numHeads := 64
  hiddSec := kPartitionStartLBA
  totSec32 := partSectors % 2 ^ 32
  fatSz32 := fatSzSec partSectors
  extFlags := 0
  fsVer := 0
  rootClus := 2
  fsInfo := 1
  bkBootSec := 6
  drvNum := 0x80
  bootSig := 0x29
  volId := 0x12345678
  volLab := [0x53, 0x59, 0x4C, 0x50, 0x48, 0x49, 0x41, 0x20, 0x4F, 0x53, 0x20]
  filSysType := [0x46, 0x41, 0x54, 0x33, 0x32, 0x20, 0x20, 0x20]
  signature := 0xAA55

/-- The FSInfo sector. -/
def fsInfoSector (partSectors : Nat) : FAT32FSInfo where
  leadSig := 0x41615252
  strucSig := 0x61417272
  freeCount := (totalClusters partSectors + 2 ^ 32 - 1) % 2 ^ 32
  nxtFree := 3
  trailSig := 0xAA550000

/-- The first sector of a FAT. -/
def firstFatSector : List Field := [(4, 0x0FFFFFF8), (4, 0x0FFFFFFF), (4, 0x0FFFFFFF)]

/-- A loop that clears `n` sectors from `lba + i` on, one by one. -/
def clearSectors (dev : BlockDevice) (lba : Nat) : Nat → Nat → BlockDevice
  | 0, _ => dev
  | n + 1, i => clearSectors (BlockDevice.writeSectors dev (lba + i) (buffer []) 1) lba n (i + 1)

/-- `FormatPartitionFAT32`. -/
def formatPartitionFAT32 (dev : BlockDevice) (partSectors : Nat) : BlockDevice :=
  let bpb := buffer (bytes (bootSector partSectors).fields)
  let dev := BlockDevice.writeSectors dev (kPartitionStartLBA + 0) bpb 1
  let dev := BlockDevice.writeSectors dev (kPartitionStartLBA + 6) bpb 1
  let fsInfo := buffer (bytes (fsInfoSector partSectors).fields)
  let dev := BlockDevice.writeSectors dev (kPartitionStartLBA + 1) fsInfo 1
  let dev := BlockDevice.writeSectors dev (kPartitionStartLBA + 7) fsInfo 1
  let fatEntries := buffer (bytes firstFatSector)
  let fat1Start := kPartitionStartLBA + 32
  let fat2Start := fat1Start + fatSzSec partSectors
  let dev := BlockDevice.writeSectors dev fat1Start fatEntries 1
  let dev := BlockDevice.writeSectors dev fat2Start fatEntries 1
  let dev := clearSectors dev fat1Start 127 1
  let dev := clearSectors dev fat2Start 127 1
  let dataStartLba := kPartitionStartLBA + 32 + 2 * fatSzSec partSectors % 2 ^ 32
  clearSectors dev dataStartLba 8 0

/-- The formatting of an empty disk by `KernelMain`. -/
def formatDisk (dev : BlockDevice) (diskSize : Nat) : BlockDevice :=
  formatPartitionFAT32 (formatDiskGPT dev diskSize) (sub64 diskSize 2048)

namespace Bpb

/-- `sec_per_clus` of a boot sector. -/
def secPerClus (sector : Buffer) : Nat := fieldAt sector 13 1

/-- `reserved_sec_cnt`. -/
def reservedSecCnt (sector : Buffer) : Nat := fieldAt sector 14 2

/-- `num_fats`. -/
def numFats (sector : Buffer) : Nat := fieldAt sector 16 1

/-- `hidd_sec`. -/
def hiddSec (sector : Buffer) : Nat := fieldAt sector 28 4

/-- `tot_sec32`. -/
def totSec32 (sector : Buffer) : Nat := fieldAt sector 32 4

/-- `fat_sz32`. -/
def fatSz32 (sector : Buffer) : Nat := fieldAt sector 36 4

end Bpb

namespace BlockDevice

/-- The sector with entry 0 of the partition table. -/
def entrySector (dev : BlockDevice) : Buffer := dev.store (Gpt.partitionEntryLba (dev.store 1))

/-- The blocks of the partition of entry 0. -/
def partition (dev : BlockDevice) : Set Nat :=
  Set.Icc (Gpt.firstLba dev.entrySector) (Gpt.lastLba dev.entrySector)

/-- The boot sector of the volume in the partition. -/
def bpbSector (dev : BlockDevice) : Buffer := dev.store (Gpt.firstLba dev.entrySector)

/-- The sectors of the volume. -/
def volume (dev : BlockDevice) : Set Nat :=
  Set.Ico (Bpb.hiddSec dev.bpbSector)
    (Bpb.hiddSec dev.bpbSector + Bpb.totSec32 dev.bpbSector)

/-- The first sector of a data cluster. -/
def clusterStart (dev : BlockDevice) (c : Nat) : Nat :=
  let bpb := dev.bpbSector
  Bpb.hiddSec bpb + Bpb.reservedSecCnt bpb + Bpb.numFats bpb * Bpb.fatSz32 bpb +
    (c - 2) * Bpb.secPerClus bpb

/-- The sectors of a data cluster. -/
def cluster (dev : BlockDevice) (c : Nat) : Set Nat :=
  Set.Ico (dev.clusterStart c) (dev.clusterStart c + Bpb.secPerClus dev.bpbSector)

end BlockDevice

/-- On a disk of `n` blocks the volume, with the data clusters that fit in it, lies in the
partition, and so apart from the backup entries and the backup header. -/
structure VolumeInPartition (n : Nat) (dev : BlockDevice) : Prop where
  volume : dev.volume ⊆ dev.partition
  clusters : ∀ c, 2 ≤ c → dev.cluster c ⊆ dev.volume → dev.cluster c ⊆ dev.partition
  backup : ∀ b ∈ dev.volume, ¬(n - 33 ≤ b ∧ b ≤ n - 1)

theorem within_clearSectors (dev : BlockDevice) (lba n i : Nat) :
    Logged.Within (fun x => lba + i ≤ x) dev (clearSectors dev lba n i) := by
  induction n generalizing dev i with
  | zero => exact Logged.Within.refl _ dev
  | succ n ih =>
    refine ((BlockDevice.within_writeSectors dev (lba + i) (buffer []) 1).mono fun x hx =>
      hx.1).trans
      ((ih _ (i + 1)).mono fun x hx => ?_)
    omega

/-- The boot sector of a volume stays, and so does what is before it. -/
theorem formatPartitionFAT32_store (dev : BlockDevice) (n : Nat) :
    (formatPartitionFAT32 dev n).store 2048 = buffer (bytes (bootSector n).fields) ∧
      ∀ lba < 2048, (formatPartitionFAT32 dev n).store lba = dev.store lba := by
  set d₁ := BlockDevice.writeSectors dev 2048 (buffer (bytes (bootSector n).fields)) 1 with hd₁
  have hone (d : BlockDevice) {lba : Nat} (buf : Buffer) (h : 2048 < lba) :
      Logged.Within (fun x => 2048 < x) d (BlockDevice.writeSectors d lba buf 1) :=
    (BlockDevice.within_writeSectors d lba buf 1).mono fun x hx => h.trans_le hx.1
  have hclear (d : BlockDevice) {lba : Nat} (m i : Nat) (h : 2048 < lba) :
      Logged.Within (fun x => 2048 < x) d (clearSectors d lba m i) :=
    (within_clearSectors d lba m i).mono fun x hx => by omega
  have hfat1 : 2048 < kPartitionStartLBA + 32 := by decide
  have hfat2 : 2048 < kPartitionStartLBA + 32 + fatSzSec n := Nat.lt_add_right _ hfat1
  have hdata : 2048 < kPartitionStartLBA + 32 + 2 * fatSzSec n % 2 ^ 32 := Nat.lt_add_right _ hfat1
  have hrest : Logged.Within (fun x => 2048 < x) d₁ (formatPartitionFAT32 dev n) :=
    ((((((((hone d₁ _ (by decide)).trans (hone _ _ (by decide))).trans (hone _ _ (by decide))).trans
      (hone _ _ hfat1)).trans (hone _ _ hfat2)).trans (hclear _ _ _ hfat1)).trans
      (hclear _ _ _ hfat2)).trans (hclear _ _ _ hdata))
  constructor
  · rw [hrest.store_eq (by omega), hd₁, BlockDevice.store_writeSectors_one]
  · intro lba hlba
    have hw := BlockDevice.within_writeSectors dev 2048 (buffer (bytes (bootSector n).fields)) 1
    rw [hrest.store_eq (by omega), hd₁, hw.store_eq (by omega)]

/-- Where the fields before the reserved bytes start. -/
theorem offset_bootSector (n : Nat) {i : Nat} (hi : i ≤ 29) : offset (bootSector n).fields i =
    ((List.replicate 11 1 ++
      [2, 1, 2, 1, 2, 2, 1, 2, 2, 2, 4, 4, 4, 2, 2, 4, 2, 2]).take i).sum := by
  rw [FAT32BPB.fields]
  simp only [List.append_assoc]
  rw [← List.append_assoc, ← List.append_assoc, offset_append_left hi, offset_eq]
  rfl

theorem bpb_bootSector (n : Nat) :
    Bpb.hiddSec (buffer (bytes (bootSector n).fields)) = 2048 ∧
      Bpb.totSec32 (buffer (bytes (bootSector n).fields)) = n % 2 ^ 32 := by
  constructor
  · exact fieldAt_buffer (i := 21) (w := 4) (v := 2048) rfl (offset_bootSector n (by decide))
  · exact (fieldAt_buffer (i := 22) rfl (offset_bootSector n (by decide))).trans (Nat.mod_mod _ _)

/-- What the partition table and the boot sector of a formatted disk say. -/
theorem formatDisk_extent {n : Nat} (h : 4096 ≤ n) (hn : n < 2 ^ 64) (dev : BlockDevice) :
    (formatDisk dev n).partition = Set.Icc 2048 (n - 34) ∧
      (formatDisk dev n).volume = Set.Ico 2048 (2048 + (n - 2048) % 2 ^ 32) := by
  have hgpt := gptSectors_format (by omega) hn dev
  obtain ⟨hboot, hbefore⟩ := formatPartitionFAT32_store (formatDiskGPT dev n) (sub64 n 2048)
  rw [sub64_eq (by omega) hn] at hboot
  have hentry : (formatDisk dev n).entrySector = buffer (entryBytes n) := by
    rw [BlockDevice.entrySector, formatDisk, hbefore 1 (by decide),
      (hgpt.headerAt_primary (by omega) hn).2, hbefore 2 (by decide), hgpt.store_two]
  have hbpb : (formatDisk dev n).bpbSector = buffer (bytes (bootSector (n - 2048)).fields) := by
    rw [BlockDevice.bpbSector, hentry, (lba_systemEntry n).1, ← hboot, formatDisk,
      sub64_eq (by omega) hn]
  constructor
  · rw [BlockDevice.partition, hentry, (lba_systemEntry n).1, (lba_systemEntry n).2,
      sub64_eq (by omega) hn]
  · rw [BlockDevice.volume, hbpb, (bpb_bootSector _).1, (bpb_bootSector _).2]

/-- The volume of a disk formatted by `KernelMain` lies in its partition exactly when the size of
the volume does not fit in `tot_sec32`, which then is at least 2^32 sectors short of it. -/
theorem volume_in_partition_iff {n : Nat} (h : 4096 ≤ n) (hn : n < 2 ^ 64) (dev : BlockDevice) :
    VolumeInPartition n (formatDisk dev n) ↔ 2 ^ 32 + 2048 ≤ n := by
  obtain ⟨hpart, hvol⟩ := formatDisk_extent h hn dev
  constructor
  · intro hin
    by_contra hlt
    have hmem : n - 1 ∈ (formatDisk dev n).volume := by
      rw [hvol, Nat.mod_eq_of_lt (by omega)]
      exact ⟨by omega, by omega⟩
    have hlast := hin.volume hmem
    rw [hpart] at hlast
    have hle : n - 1 ≤ n - 34 := hlast.2
    omega
  · intro hbig
    have hend : 2048 + (n - 2048) % 2 ^ 32 ≤ n - 33 := by omega
    have hsub : (formatDisk dev n).volume ⊆ (formatDisk dev n).partition := by
      rw [hvol, hpart]
      intro s hs
      have hlt : s < 2048 + (n - 2048) % 2 ^ 32 := hs.2
      exact ⟨hs.1, by omega⟩
    refine ⟨hsub, fun c _ hc => hc.trans hsub, fun b hb hb' => ?_⟩
    rw [hvol] at hb
    have hlt : b < 2048 + (n - 2048) % 2 ^ 32 := hb.2
    exact absurd (hlt.trans_le hend) (not_lt.mpr hb'.1)

/-- A disk of 2^33 blocks. -/
theorem volume_in_partition_large :
    VolumeInPartition (2 ^ 33) (formatDisk ⟨fun _ _ => 0, []⟩ (2 ^ 33)) :=
  (volume_in_partition_iff (by decide) (by decide) _).mpr (by decide)

/-- On the disk that `KernelMain` formats, of 1048576 blocks, the volume has the block of the
backup header. -/
theorem volume_over_backup_header :
    ¬ VolumeInPartition 1048576 (formatDisk ⟨fun _ _ => 0, []⟩ 1048576) := by
  intro hin
  have hvol := (formatDisk_extent (n := 1048576) (by decide) (by decide) ⟨fun _ _ => 0, []⟩).2
  have hmem : 1048575 ∈ (formatDisk ⟨fun _ _ => 0, []⟩ 1048576).volume := by
    rw [hvol]
    exact ⟨by decide, by decide⟩
  exact hin.backup 1048575 hmem ⟨by decide, by decide⟩

end Sylphia
