import Sylphia.Disk.Format

/-!
# The FATs of a formatted partition

`FormatPartitionFAT32` clears 127 sectors behind the first one of each FAT, whatever their
size. What is behind that stays; and the sectors that are cleared behind a short first FAT are
those of the second one.
-/

namespace Sylphia

open Bytes Packed WriteLog

/-- `fat1_start`. -/
def fat1Start : Nat := kPartitionStartLBA + 32

/-- `fat2_start`. -/
def fat2Start (partSectors : Nat) : Nat := fat1Start + fatSzSec partSectors

/-- `data_start_lba`. -/
def dataStartLba (partSectors : Nat) : Nat :=
  kPartitionStartLBA + 32 + 2 * fatSzSec partSectors % 2 ^ 32

/-- The partition has room for the reserved sectors, both FATs and one cluster, and its size fits
in 32 bits. -/
def HasRoom (partSectors : Nat) : Prop :=
  partSectors < 2 ^ 32 ∧ 32 + 2 * fatSzSec partSectors + 8 ≤ partSectors

/-- An entry of the FAT that starts with a sector. -/
def fatValue (dev : BlockDevice) (start e : Nat) : Nat :=
  FAT32Driver.fatEntry (dev.store (start + e / 128)) (e % 128)

/-- An entry of a FAT in which only the root directory has a cluster. -/
def initialEntry (e : Nat) : Nat :=
  if e = 0 then 0x0FFFFFF8 else if e ≤ 2 then 0x0FFFFFFF else 0

/-- Every entry of both FATs is the initial one, and the root cluster is all zero. -/
structure Initialised (dev : BlockDevice) (partSectors : Nat) : Prop where
  fat1 : ∀ e < 128 * fatSzSec partSectors, fatValue dev fat1Start e = initialEntry e
  fat2 : ∀ e < 128 * fatSzSec partSectors,
    fatValue dev (fat2Start partSectors) e = initialEntry e
  root : ∀ s < 8, ∀ k < 512, dev.store (dataStartLba partSectors + s) k = 0

/-- The sectors that the format writes before it clears any. -/
def writtenSectors (dev : BlockDevice) (n : Nat) : BlockDevice :=
  let bpb := buffer (bytes (bootSector n).fields)
  let fsInfo := buffer (bytes (fsInfoSector n).fields)
  let fatEntries := buffer (bytes firstFatSector)
  let dev := BlockDevice.writeSectors dev (kPartitionStartLBA + 0) bpb 1
  let dev := BlockDevice.writeSectors dev (kPartitionStartLBA + 6) bpb 1
  let dev := BlockDevice.writeSectors dev (kPartitionStartLBA + 1) fsInfo 1
  let dev := BlockDevice.writeSectors dev (kPartitionStartLBA + 7) fsInfo 1
  let dev := BlockDevice.writeSectors dev fat1Start fatEntries 1
  BlockDevice.writeSectors dev (fat2Start n) fatEntries 1

/-- The first 128 sectors of each FAT have the initial entries, but for the first sector of the
second one when the FATs are shorter; the other sectors are those of the disk before; and the
root cluster is all zero. -/
structure PartlyInitialised (old dev : BlockDevice) (partSectors : Nat) : Prop where
  fat1 : ∀ e < 128 * fatSzSec partSectors, e < 128 * 128 →
    fatValue dev fat1Start e = initialEntry e
  fat2 : ∀ e < 128 * fatSzSec partSectors, e < 128 * 128 → 128 ≤ e ∨ 128 ≤ fatSzSec partSectors →
    fatValue dev (fat2Start partSectors) e = initialEntry e
  behind : ∀ s < fatSzSec partSectors, 128 ≤ s →
    dev.store (fat1Start + s) = old.store (fat1Start + s) ∧
      dev.store (fat2Start partSectors + s) = old.store (fat2Start partSectors + s)
  root : ∀ s < 8, ∀ k < 512, dev.store (dataStartLba partSectors + s) k = 0

section Format

variable {dev : BlockDevice} {n lba i x s e : Nat}

theorem store_clearSectors : (clearSectors dev lba n i).store x =
    if lba + i ≤ x ∧ x < lba + i + n then buffer [] else dev.store x := by
  induction n generalizing dev i with
  | zero => exact (if_neg (by omega)).symm
  | succ n ih =>
    rw [clearSectors, ih]
    by_cases hx : x = lba + i
    · rw [if_neg (by omega), if_pos (by omega), hx, BlockDevice.store_writeSectors_one]
    · have hone := BlockDevice.within_writeSectors dev (lba + i) (buffer []) 1
      rw [hone.store_eq (by omega)]
      have hiff : lba + (i + 1) ≤ x ∧ x < lba + (i + 1) + n ↔
          lba + i ≤ x ∧ x < lba + i + (n + 1) := by
        omega
      simp only [hiff]

theorem store_writeSectors_of_ne {buf : Buffer} (h : x ≠ lba) :
    (BlockDevice.writeSectors dev lba buf 1).store x = dev.store x :=
  (BlockDevice.within_writeSectors dev lba buf 1).store_eq (by omega)

theorem formatPartitionFAT32_eq : formatPartitionFAT32 dev n =
    clearSectors (clearSectors (clearSectors (writtenSectors dev n) fat1Start 127 1)
      (fat2Start n) 127 1) (dataStartLba n) 8 0 := rfl

/-- A sector behind the reserved ones after the format: the clearing comes after the first sectors
of the FATs. -/
theorem store_format (hx : fat1Start ≤ x) : (formatPartitionFAT32 dev n).store x =
    if dataStartLba n ≤ x ∧ x < dataStartLba n + 8 then buffer []
    else if fat2Start n + 1 ≤ x ∧ x < fat2Start n + 128 then buffer []
    else if fat1Start + 1 ≤ x ∧ x < fat1Start + 128 then buffer []
    else if x = fat2Start n ∨ x = fat1Start then buffer (bytes firstFatSector)
    else dev.store x := by
  rw [formatPartitionFAT32_eq, store_clearSectors, store_clearSectors, store_clearSectors,
    Nat.add_zero, Nat.add_assoc (fat2Start n), Nat.add_assoc fat1Start]
  congr 3
  rw [writtenSectors]
  by_cases h2 : x = fat2Start n
  · rw [if_pos (Or.inl h2), h2, BlockDevice.store_writeSectors_one]
  · rw [store_writeSectors_of_ne h2]
    by_cases h1 : x = fat1Start
    · rw [if_pos (Or.inr h1), h1, BlockDevice.store_writeSectors_one]
    · rw [if_neg (not_or_intro h2 h1), store_writeSectors_of_ne h1]
      rw [fat1Start, kPartitionStartLBA] at hx
      rw [store_writeSectors_of_ne, store_writeSectors_of_ne, store_writeSectors_of_ne,
        store_writeSectors_of_ne] <;> rw [kPartitionStartLBA] <;> omega

theorem fatSzSec_bounds (h : HasRoom n) : 1 ≤ fatSzSec n ∧ fatSzSec n ≤ 2 ^ 22 := by
  obtain ⟨hn, hroom⟩ := h
  rw [fatSzSec, totalClusters] at hroom ⊢
  omega

theorem dataStartLba_eq (h : HasRoom n) : dataStartLba n = fat2Start n + fatSzSec n := by
  have hsz := fatSzSec_bounds h
  rw [dataStartLba, fat2Start, fat1Start, Nat.mod_eq_of_lt (by omega)]
  omega

/-- A cleared sector has no entry in use. -/
theorem fatEntry_clear (i : Nat) : FAT32Driver.fatEntry (buffer []) i = 0 := by
  have hzero : slice (buffer []) (4 * i) 4 = [0, 0, 0, 0] := rfl
  rw [FAT32Driver.fatEntry, hzero]
  rfl

theorem fatEntry_firstFatSector : ∀ i < 128,
    FAT32Driver.fatEntry (buffer (bytes firstFatSector)) i = initialEntry i := by
  decide +kernel

/-- The sectors of the first FAT after the format. -/
theorem store_fat1 (dev : BlockDevice) (h : HasRoom n) (hs : s < fatSzSec n) :
    (formatPartitionFAT32 dev n).store (fat1Start + s) =
      if s = 0 then buffer (bytes firstFatSector)
      else if s < 128 then buffer [] else dev.store (fat1Start + s) := by
  have hdata := dataStartLba_eq h
  rw [store_format (Nat.le_add_right _ _), if_neg (by rw [hdata, fat2Start]; omega),
    if_neg (by rw [fat2Start]; omega)]
  rcases Nat.eq_zero_or_pos s with rfl | hpos
  · rw [if_neg (by omega), if_pos (Or.inr (Nat.add_zero fat1Start)), if_pos rfl]
  · rw [if_neg hpos.ne']
    by_cases hlt : s < 128
    · rw [if_pos (by omega), if_pos hlt]
    · rw [if_neg (by omega), if_neg hlt, if_neg (by rw [fat2Start]; omega)]

/-- The sectors of the second FAT after the format. Its first one is cleared with the rest of the
first FAT when that is short. -/
theorem store_fat2 (dev : BlockDevice) (h : HasRoom n) (hs : s < fatSzSec n) :
    (formatPartitionFAT32 dev n).store (fat2Start n + s) =
      if s = 0 ∧ 128 ≤ fatSzSec n then buffer (bytes firstFatSector)
      else if s < 128 then buffer [] else dev.store (fat2Start n + s) := by
  have hsz := (fatSzSec_bounds h).1
  have hstart : fat2Start n = fat1Start + fatSzSec n := rfl
  rw [store_format (by omega), if_neg (by rw [dataStartLba_eq h]; omega)]
  rcases Nat.eq_zero_or_pos s with rfl | hpos
  · rw [if_neg (by omega)]
    by_cases hlong : 128 ≤ fatSzSec n
    · rw [if_neg (by omega), if_pos (Or.inl (Nat.add_zero _)), if_pos ⟨rfl, hlong⟩]
    · rw [if_pos (by omega), if_neg (by omega), if_pos (by decide)]
  · rw [if_neg (fun h0 : s = 0 ∧ _ => hpos.ne' h0.1)]
    by_cases hlt : s < 128
    · rw [if_pos (by omega), if_pos hlt]
    · rw [if_neg (by omega), if_neg (by omega), if_neg (by omega), if_neg hlt]

theorem store_root (hs : s < 8) :
    (formatPartitionFAT32 dev n).store (dataStartLba n + s) = buffer [] := by
  have hstart : fat1Start ≤ dataStartLba n := Nat.le_add_right _ _
  rw [store_format (Nat.le_add_right_of_le hstart), if_pos ⟨Nat.le_add_right _ _, by omega⟩]

theorem initialEntry_of_le (he : 128 ≤ e) : initialEntry e = 0 := by
  rw [initialEntry, if_neg (by omega), if_neg (by omega)]

theorem fatValue_first {start : Nat}
    (h : dev.store (start + e / 128) = buffer (bytes firstFatSector)) (he : e < 128) :
    fatValue dev start e = initialEntry e := by
  rw [fatValue, h, Nat.mod_eq_of_lt he, fatEntry_firstFatSector e he]

theorem fatValue_cleared {start : Nat} (h : dev.store (start + e / 128) = buffer []) :
    fatValue dev start e = 0 := by
  rw [fatValue, h, fatEntry_clear]

theorem fatValue_fat1 (h : HasRoom n) (he : e < 128 * fatSzSec n) (hpart : e < 128 * 128) :
    fatValue (formatPartitionFAT32 dev n) fat1Start e = initialEntry e := by
  have hstore := store_fat1 dev h (Nat.div_lt_of_lt_mul he)
  by_cases hfirst : e < 128
  · rw [if_pos (Nat.div_eq_of_lt hfirst)] at hstore
    exact fatValue_first hstore hfirst
  · rw [if_neg (by omega), if_pos (Nat.div_lt_of_lt_mul hpart)] at hstore
    rw [fatValue_cleared hstore, initialEntry_of_le (by omega)]

theorem fatValue_fat2 (h : HasRoom n) (he : e < 128 * fatSzSec n) (hpart : e < 128 * 128)
    (hlong : 128 ≤ e ∨ 128 ≤ fatSzSec n) :
    fatValue (formatPartitionFAT32 dev n) (fat2Start n) e = initialEntry e := by
  have hstore := store_fat2 dev h (Nat.div_lt_of_lt_mul he)
  by_cases hfirst : e < 128
  · rw [if_pos ⟨Nat.div_eq_of_lt hfirst, by omega⟩] at hstore
    exact fatValue_first hstore hfirst
  · rw [if_neg (by omega), if_pos (Nat.div_lt_of_lt_mul hpart)] at hstore
    rw [fatValue_cleared hstore, initialEntry_of_le (by omega)]

theorem store_behind (dev : BlockDevice) (h : HasRoom n) (hs : s < fatSzSec n) (hle : 128 ≤ s) :
    (formatPartitionFAT32 dev n).store (fat1Start + s) = dev.store (fat1Start + s) ∧
      (formatPartitionFAT32 dev n).store (fat2Start n + s) = dev.store (fat2Start n + s) := by
  constructor
  · rw [store_fat1 dev h hs, if_neg (by omega), if_neg (by omega)]
  · rw [store_fat2 dev h hs, if_neg (by omega), if_neg (by omega)]

theorem root_clear (s : Nat) (hs : s < 8) (k : Nat) :
    (formatPartitionFAT32 dev n).store (dataStartLba n + s) k = 0 := by
  rw [store_root hs]
  rfl

/-- What `FormatPartitionFAT32` makes of the FATs and of the root cluster. -/
theorem format_partly_initialises (dev : BlockDevice) {n : Nat} (h : HasRoom n) :
    PartlyInitialised dev (formatPartitionFAT32 dev n) n where
  fat1 _ he hpart := fatValue_fat1 h he hpart
  fat2 _ he hpart hlong := fatValue_fat2 h he hpart hlong
  behind _ hs hle := store_behind dev h hs hle
  root s hs k _ := root_clear s hs k

/-- A partition whose FATs have 130 sectors. -/
theorem format_partly_initialises_small : HasRoom 133120 ∧
    PartlyInitialised ⟨fun _ _ => 1, []⟩ (formatPartitionFAT32 ⟨fun _ _ => 1, []⟩ 133120) 133120 :=
  have hroom : HasRoom 133120 := ⟨by decide, by decide⟩
  ⟨hroom, format_partly_initialises _ hroom⟩

theorem fatValue_behind (dev : BlockDevice) (h : HasRoom n) (he : e < 128 * fatSzSec n)
    (hle : 128 * 128 ≤ e) :
    fatValue (formatPartitionFAT32 dev n) fat1Start e = fatValue dev fat1Start e ∧
      fatValue (formatPartitionFAT32 dev n) (fat2Start n) e = fatValue dev (fat2Start n) e := by
  obtain ⟨h1, h2⟩ := store_behind dev h (Nat.div_lt_of_lt_mul he) (by omega)
  rw [fatValue, fatValue, fatValue, fatValue, h1, h2]
  exact ⟨rfl, rfl⟩

/-- The format leaves both FATs initial exactly when the second one is behind the 128 sectors of
the first and what is behind these had no entry in use. -/
theorem format_initialises_iff (dev : BlockDevice) {n : Nat} (h : HasRoom n) :
    Initialised (formatPartitionFAT32 dev n) n ↔ 128 ≤ fatSzSec n ∧
      ∀ e < 128 * fatSzSec n, 128 * 128 ≤ e →
        fatValue dev fat1Start e = 0 ∧ fatValue dev (fat2Start n) e = 0 := by
  constructor
  · intro hinit
    refine ⟨?_, fun e he hle => ?_⟩
    · by_contra hshort
      have hpos := (fatSzSec_bounds h).1
      have hzero := hinit.fat2 0 (by omega)
      have hstore := store_fat2 dev h hpos
      rw [if_neg (by omega), if_pos (by decide)] at hstore
      rw [fatValue_cleared hstore, initialEntry, if_pos rfl] at hzero
      exact absurd hzero (by decide)
    · obtain ⟨h1, h2⟩ := fatValue_behind dev h he hle
      rw [← h1, ← h2, hinit.fat1 e he, hinit.fat2 e he, initialEntry_of_le (by omega)]
      exact ⟨rfl, rfl⟩
  · rintro ⟨hlong, hclear⟩
    refine ⟨fun e he => ?_, fun e he => ?_, fun s hs k _ => root_clear s hs k⟩ <;>
      by_cases hpart : e < 128 * 128
    · exact fatValue_fat1 h he hpart
    · have hle := not_lt.mp hpart
      rw [(fatValue_behind dev h he hle).1, (hclear e he hle).1, initialEntry_of_le (by omega)]
    · exact fatValue_fat2 h he hpart (Or.inr hlong)
    · have hle := not_lt.mp hpart
      rw [(fatValue_behind dev h he hle).2, (hclear e he hle).2, initialEntry_of_le (by omega)]

/-- On a disk that had other data, a partition whose FATs have 129 sectors keeps some of it in
them. -/
theorem fat_not_initialised : HasRoom 131080 ∧
    ¬Initialised (formatPartitionFAT32 ⟨fun _ _ => 1, []⟩ 131080) 131080 := by
  have hroom : HasRoom 131080 := ⟨by decide, by decide⟩
  refine ⟨hroom, fun hinit => ?_⟩
  have hentry := hinit.fat1 (128 * 128) (by decide)
  rw [(fatValue_behind _ hroom (by decide) (by decide)).1] at hentry
  exact absurd hentry (by decide)

end Format

end Sylphia
