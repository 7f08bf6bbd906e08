import Mathlib.Data.Set.Pairwise.Basic
import Sylphia.Disk.FatTables
import Mathlib.Order.CompletePartialOrder

/-!
# The layout of a formatted partition

What `FAT32Driver::Initialize` makes of the boot sector that `FormatPartitionFAT32` writes: where
the FATs and the data clusters are, and what the FSInfo sector says of the free ones.
-/

namespace Sylphia

open Bytes Packed WriteLog

/-- `root_clus` of a boot sector. -/
def Bpb.rootClus (sector : Buffer) : Nat := fieldAt sector 44 4

/-- `free_count` of an FSInfo sector. -/
def FsInfo.freeCount (sector : Buffer) : Nat := fieldAt sector 488 4

/-- `Initialize` for a driver whose `part_lba_` is given. -/
def FAT32Driver.initializeFrom (dev : BlockDevice) (partLba : Nat) : FAT32Driver :=
  let bpb := BlockDevice.read dev partLba
  let fatStartLba := (partLba + Bpb.reservedSecCnt bpb) % 2 ^ 64
  { secPerClus := Bpb.secPerClus bpb
    fatSz32 := Bpb.fatSz32 bpb
    rootClus := Bpb.rootClus bpb
    fatStartLba := fatStartLba
    -- The product is one of 32-bit numbers.
    dataStartLba := (fatStartLba + Bpb.numFats bpb * Bpb.fatSz32 bpb % 2 ^ 32) % 2 ^ 64 }

/-- The driver of a formatted partition. -/
def formattedDriver (partSectors : Nat) : FAT32Driver :=
  ⟨8, fatSzSec partSectors, 2, fat1Start, dataStartLba partSectors⟩

/-- The number of data clusters that a partition has room for. -/
def clusterCount (partSectors : Nat) : Nat := (partSectors - 32 - 2 * fatSzSec partSectors) / 8

/-- A part of a volume. -/
inductive VolumeRegion
  | reserved
  | fat1
  | fat2
  | cluster (k : Nat)
  deriving DecidableEq

namespace VolumeRegion

/-- The parts of a partition: of the clusters those that it has room for. -/
def Exists (partSectors : Nat) : VolumeRegion → Prop
  | cluster k => 2 ≤ k ∧ k < 2 + clusterCount partSectors
  | _ => True

/-- The sectors in which the driver has a part. -/
def sectors (fs : FAT32Driver) : VolumeRegion → Set Nat
  | reserved => Set.Ico kPartitionStartLBA fs.fatStartLba
  | fat1 => Set.Ico fs.fatStartLba (fs.fatStartLba + fs.fatSz32)
  | fat2 => Set.Ico (fs.fatStartLba + fs.fatSz32) (fs.fatStartLba + fs.fatSz32 + fs.fatSz32)
  | cluster k => Set.Ico (fs.clusterToLBA k) (fs.clusterToLBA k + fs.secPerClus)

/-- The first sector of a part of a formatted partition. -/
def start (partSectors : Nat) : VolumeRegion → Nat
  | reserved => 2048
  | fat1 => 2080
  | fat2 => 2080 + fatSzSec partSectors
  | cluster k => 2080 + 2 * fatSzSec partSectors + (k - 2) * 8

/-- The number of its sectors. -/
def length (partSectors : Nat) : VolumeRegion → Nat
  | reserved => 32
  | fat1 => fatSzSec partSectors
  | fat2 => fatSzSec partSectors
  | cluster _ => 8

end VolumeRegion

/-- The driver of a formatted partition agrees with the format, in numbers that do not wrap
around, and has every data cluster in the volume and its entry in the FATs. -/
structure ConsistentLayout (dev : BlockDevice) (partSectors : Nat) (fs : FAT32Driver) : Prop where
  fatSz : fs.fatSz32 = fatSzSec partSectors ∧
    fatSzSec partSectors = (partSectors / 8 * 4 + 511) / 512
  fatStart : fs.fatStartLba = fat1Start
  dataStart : fs.dataStartLba = dataStartLba partSectors ∧
    dataStartLba partSectors = kPartitionStartLBA + 32 + 2 * fatSzSec partSectors
  secPerClus : fs.secPerClus = 8
  size : Bpb.totSec32 (dev.store kPartitionStartLBA) = partSectors
  entry : ∀ k, 2 ≤ k → k < 2 + clusterCount partSectors →
    fs.fatStartLba + k / 128 ∈ VolumeRegion.fat1.sectors fs ∧
      fs.fatStartLba + k / 128 + fs.fatSz32 ∈ VolumeRegion.fat2.sectors fs
  inside : ∀ r : VolumeRegion, r.Exists partSectors →
    r.sectors fs ⊆ Set.Ico kPartitionStartLBA (kPartitionStartLBA + partSectors)
  apart : Set.PairwiseDisjoint {r : VolumeRegion | r.Exists partSectors} (VolumeRegion.sectors fs)

section Layout

variable {dev : BlockDevice} {n k off w : Nat}

/-- A field in the sector that is read. -/
theorem fieldAt_read (dev : BlockDevice) (lba : Nat) (h : off + w ≤ 512) :
    fieldAt (BlockDevice.read dev lba) off w = fieldAt (dev.store lba) off w := by
  rw [fieldAt, fieldAt, slice, slice]
  congr 1
  refine List.map_congr_left fun k hk => ?_
  have hlt : off + k < 512 := by
    have hw := List.mem_range.mp hk
    omega
  rw [BlockDevice.read, Nat.div_eq_of_lt hlt, Nat.mod_eq_of_lt hlt, Nat.add_zero]

/-- A field that `Initialize` reads, by its index in the boot sector. -/
theorem fieldAt_format (dev : BlockDevice) {i v : Nat} (hi : i ≤ 29) (hw : off + w ≤ 512)
    (hget : (bootSector n).fields[i]? = some (w, v))
    (hoff : ((List.replicate 11 1 ++
      [2, 1, 2, 1, 2, 2, 1, 2, 2, 2, 4, 4, 4, 2, 2, 4, 2, 2]).take i).sum = off) :
    fieldAt (BlockDevice.read (formatPartitionFAT32 dev n) kPartitionStartLBA) off w =
      v % 256 ^ w := by
  rw [fieldAt_read _ _ hw, kPartitionStartLBA, (formatPartitionFAT32_store dev n).1]
  exact fieldAt_buffer hget ((offset_bootSector n hi).trans hoff)

/-- What `Initialize` makes of what `FormatPartitionFAT32` wrote. -/
theorem initializeFrom_format (dev : BlockDevice) (h : HasRoom n) :
    FAT32Driver.initializeFrom (formatPartitionFAT32 dev n) kPartitionStartLBA =
      formattedDriver n := by
  have hsz := fatSzSec_bounds h
  rw [FAT32Driver.initializeFrom]
  set bpb := BlockDevice.read (formatPartitionFAT32 dev n) kPartitionStartLBA
  have hclus : Bpb.secPerClus bpb = 8 :=
    fieldAt_format dev (i := 12) (by decide) (by decide) rfl rfl
  have hres : Bpb.reservedSecCnt bpb = 32 :=
    fieldAt_format dev (i := 13) (by decide) (by decide) rfl rfl
  have hfats : Bpb.numFats bpb = 2 := fieldAt_format dev (i := 14) (by decide) (by decide) rfl rfl
  have hroot : Bpb.rootClus bpb = 2 := fieldAt_format dev (i := 26) (by decide) (by decide) rfl rfl
  have hfat : Bpb.fatSz32 bpb = fatSzSec n % 256 ^ 4 :=
    fieldAt_format dev (i := 23) (by decide) (by decide) rfl rfl
  rw [Nat.mod_eq_of_lt (by omega)] at hfat
  rw [hclus, hres, hfats, hroot, hfat, formattedDriver, dataStartLba]
  congr 1
  have hlt : kPartitionStartLBA + 32 + 2 * fatSzSec n % 2 ^ 32 < 2 ^ 64 := by
    rw [kPartitionStartLBA]
    omega
  exact Nat.mod_eq_of_lt hlt

/-- Without a wrap-around in `total_clusters`, `fat_sz_bytes` and the rounding. -/
theorem fatSzSec_eq (h : HasRoom n) : fatSzSec n = (n / 8 * 4 + 511) / 512 := by
  have hn := h.1
  rw [fatSzSec, totalClusters]
  omega

/-- The estimate has entries for the clusters and the two reserved ones. -/
theorem cluster_lt_entries (h : HasRoom n) (hk : k < 2 + clusterCount n) :
    k < 128 * fatSzSec n := by
  have hsz := fatSzSec_eq h
  have hroom := h.2
  rw [clusterCount] at hk
  omega

theorem cluster_end_le (hlo : 2 ≤ k) (hk : k < 2 + clusterCount n) :
    32 + 2 * fatSzSec n + (k - 2) * 8 + 8 ≤ n := by
  rw [clusterCount] at hk
  omega

theorem dataStartLba_add (h : HasRoom n) : dataStartLba n = 2080 + 2 * fatSzSec n := by
  rw [dataStartLba_eq h, fat2Start, fat1Start, kPartitionStartLBA]
  omega

/-- The subtraction in `ClusterToLBA` does not wrap around. -/
theorem clusterToLBA_formatted (h : HasRoom n) (hlo : 2 ≤ k) (hk : k < 2 + clusterCount n) :
    (formattedDriver n).clusterToLBA k = 2080 + 2 * fatSzSec n + (k - 2) * 8 := by
  have hn := h.1
  have hend := cluster_end_le hlo hk
  have hsub : (k + 2 ^ 32 - 2) % 2 ^ 32 = k - 2 := by omega
  rw [FAT32Driver.clusterToLBA, hsub]
  exact congrArg (· + (k - 2) * 8) (dataStartLba_add h)

theorem sectors_formatted (h : HasRoom n) {r : VolumeRegion} (hr : r.Exists n) :
    r.sectors (formattedDriver n) = Set.Ico (r.start n) (r.start n + r.length n) := by
  cases r with
  | reserved => rfl
  | fat1 => rfl
  | fat2 => rfl
  | cluster k =>
    rw [VolumeRegion.sectors, clusterToLBA_formatted h hr.1 hr.2]
    rfl

theorem VolumeRegion.within (h : HasRoom n) {r : VolumeRegion} (hr : r.Exists n) :
    2048 ≤ r.start n ∧ r.start n + r.length n ≤ 2048 + n := by
  have hroom := h.2
  cases r with
  | cluster k =>
    have hend := cluster_end_le hr.1 hr.2
    rw [VolumeRegion.start, VolumeRegion.length]
    omega
  | reserved | fat1 | fat2 =>
    rw [VolumeRegion.start, VolumeRegion.length]
    omega

/-- Of two parts one ends before the other starts. -/
theorem VolumeRegion.ends_before {r r' : VolumeRegion} (hr : r.Exists n) (hr' : r'.Exists n)
    (hne : r ≠ r') :
    r.start n + r.length n ≤ r'.start n ∨ r'.start n + r'.length n ≤ r.start n := by
  cases r <;> cases r' <;> simp only [VolumeRegion.start, VolumeRegion.length, ne_eq,
    not_true_eq_false, VolumeRegion.Exists, VolumeRegion.cluster.injEq] at * <;> omega

/-- Formatting a partition and mounting it give one layout, whatever was on the disk. -/
theorem format_consistentLayout (dev : BlockDevice) {n : Nat} (h : HasRoom n) :
    ConsistentLayout (formatPartitionFAT32 dev n) n
      (FAT32Driver.initializeFrom (formatPartitionFAT32 dev n) kPartitionStartLBA) := by
  rw [initializeFrom_format dev h]
  have hsectors {r : VolumeRegion} (hr : r.Exists n) := sectors_formatted h hr
  refine ⟨⟨rfl, fatSzSec_eq h⟩, rfl, ⟨rfl, dataStartLba_add h⟩, rfl, ?_, ?_, ?_, ?_⟩
  · rw [kPartitionStartLBA, (formatPartitionFAT32_store dev n).1, (bpb_bootSector n).2,
      Nat.mod_eq_of_lt h.1]
  · intro k _ hk
    have hdiv := Nat.div_lt_of_lt_mul (cluster_lt_entries h hk)
    simp only [VolumeRegion.sectors, Set.mem_Ico, formattedDriver]
    omega
  · intro r hr
    have hwithin := VolumeRegion.within h hr
    exact (hsectors hr).trans_subset (Set.Ico_subset_Ico hwithin.1 hwithin.2)
  · intro r hr r' hr' hne
    have hbefore := VolumeRegion.ends_before hr hr' hne
    refine Set.disjoint_left.mpr fun x hx hx' => ?_
    rw [hsectors hr] at hx
    rw [hsectors hr'] at hx'
    have hlo : r.start n ≤ x ∧ x < r.start n + r.length n := hx
    have hlo' : r'.start n ≤ x ∧ x < r'.start n + r'.length n := hx'
    omega

/-- The partition that `KernelMain` formats on a disk of 1048576 blocks. -/
theorem format_consistentLayout_disk : HasRoom 1046528 ∧
    ConsistentLayout (formatPartitionFAT32 ⟨fun _ _ => 1, []⟩ 1046528) 1046528
      (FAT32Driver.initializeFrom (formatPartitionFAT32 ⟨fun _ _ => 1, []⟩ 1046528)
        kPartitionStartLBA) :=
  have hroom : HasRoom 1046528 := ⟨by decide, by decide⟩
  ⟨hroom, format_consistentLayout _ hroom⟩

/-- The stored count of free clusters is that of the clusters but for the root directory's. -/
def CountsFree (dev : BlockDevice) (partSectors : Nat) : Prop :=
  FsInfo.freeCount (dev.store (kPartitionStartLBA + 1)) = clusterCount partSectors - 1

/-- The FSInfo sector stays. -/
theorem store_fsInfo (dev : BlockDevice) (n : Nat) :
    (formatPartitionFAT32 dev n).store 2049 = buffer (bytes (fsInfoSector n).fields) := by
  have hfat2 : 2080 ≤ fat2Start n := Nat.le_add_right _ _
  have hdata : 2080 ≤ dataStartLba n := Nat.le_add_right _ _
  rw [formatPartitionFAT32_eq, store_clearSectors, store_clearSectors, store_clearSectors,
    if_neg (by omega), if_neg (by omega), if_neg (by rw [fat1Start, kPartitionStartLBA]; omega),
    writtenSectors, store_writeSectors_of_ne (by omega), store_writeSectors_of_ne (by decide),
    store_writeSectors_of_ne (by decide)]
  exact BlockDevice.store_writeSectors_one _ _ _

/-- The count is the estimate of the clusters, less one. -/
theorem freeCount_format (dev : BlockDevice) (h : HasRoom n) :
    FsInfo.freeCount ((formatPartitionFAT32 dev n).store (kPartitionStartLBA + 1)) = n / 8 - 1 := by
  have hn := h.1
  have hroom := h.2
  have hoff : size ([(4, (fsInfoSector n).leadSig)] ++ List.replicate 480 (1, 0)) + 4 = 488 := by
    rw [size_append, size_replicate]
    rfl
  rw [kPartitionStartLBA, store_fsInfo, FsInfo.freeCount, FAT32FSInfo.fields, List.append_assoc,
    List.append_assoc, fieldAt_buffer_append (i := 1) (w := 4) rfl hoff]
  have hcount : (fsInfoSector n).freeCount = (n / 8 % 2 ^ 32 + 2 ^ 32 - 1) % 2 ^ 32 := rfl
  omega

/-- The estimate takes the reserved sectors and the FATs for clusters. -/
theorem clusterCount_add_le (h : HasRoom n) : 1 ≤ clusterCount n ∧ clusterCount n + 4 ≤ n / 8 := by
  have hroom := h.2
  rw [clusterCount]
  omega

/-- No format stores the right count: it is at least four too high. -/
theorem format_countsFree_never (dev : BlockDevice) {n : Nat} (h : HasRoom n) :
    ¬ CountsFree (formatPartitionFAT32 dev n) n := by
  have hcount := clusterCount_add_le h
  rw [CountsFree, freeCount_format dev h]
  omega

/-- The smallest partition with room for a cluster. -/
theorem format_countsFree_never_smallest : HasRoom 42 ∧
    ¬ CountsFree (formatPartitionFAT32 ⟨fun _ _ => 0, []⟩ 42) 42 :=
  have hroom : HasRoom 42 := ⟨by decide, by decide⟩
  ⟨hroom, format_countsFree_never _ hroom⟩

/-- On the disk that `KernelMain` formats, of 1048576 blocks, the count is 130815, and 130555
clusters are free. -/
theorem freeCount_disk : HasRoom 1046528 ∧
    ¬ CountsFree (formatPartitionFAT32 ⟨fun _ _ => 0, []⟩ 1046528) 1046528 := by
  have hroom : HasRoom 1046528 := ⟨by decide, by decide⟩
  refine ⟨hroom, fun hcounts => ?_⟩
  rw [CountsFree, freeCount_format _ hroom] at hcounts
  exact absurd hcounts (by decide)

end Layout

end Sylphia
