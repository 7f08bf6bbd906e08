import Sylphia.Disk.Layout
import Sylphia.Fat.LastWrite

/-!
# A partition that was just formatted

What `FormatPartitionFAT32` leaves is, under the parameters that `Initialize` finds there, a
volume with an empty root directory. The second FAT repeats the first one only when the FATs are
so long that the sectors which the formatter clears do not reach it.
-/

namespace Sylphia

open Bytes WriteLog Chain FAT32Driver

section Formatted

variable {n c : Nat}

theorem formattedDriver_geometry (h : HasRoom n) : Geometry (formattedDriver n) := by
  have hsz := fatSzSec_bounds h
  refine ⟨show 1 ≤ 8 by decide, show 8 < 256 by decide, hsz.1, ?_⟩
  have hdata : dataStartLba n = fat2Start n + fatSzSec n := dataStartLba_eq h
  rw [fat2Start] at hdata
  change dataStartLba n = fat1Start + 2 * fatSzSec n
  omega

/-- The entries of the FAT that `AllocateCluster` looks at. -/
theorem fat_format (dev : BlockDevice) (h : HasRoom n) (hc : c < 128) :
    ((formattedDriver n).view (formatPartitionFAT32 dev n).store).fat c = initialEntry c := by
  have hsz := (fatSzSec_bounds h).1
  have hlt : c < (formattedDriver n).fatSz32 * 128 := by
    change c < fatSzSec n * 128
    omega
  have hvalue : fatValue (formatPartitionFAT32 dev n) fat1Start c = initialEntry c :=
    fatValue_fat1 h (by omega) (by omega)
  rw [view_fat _ hlt]
  exact hvalue

theorem clusterToLBA_root (n : Nat) : (formattedDriver n).clusterToLBA 2 = dataStartLba n :=
  (clusterToLBA_eq (by decide) (by decide)).trans (Nat.add_zero _)

/-- The root cluster is zero. -/
theorem root_format (dev : BlockDevice) (n k : Nat) :
    ((formattedDriver n).view (formatPartitionFAT32 dev n).store).data 2 k = 0 := by
  rw [view]
  dsimp only
  split
  · next hk =>
    have hbytes : (formattedDriver n).clusterBytes = 8 * 512 := rfl
    rw [hbytes] at hk
    rw [clusterToLBA_root, root_clear _ (by omega)]
  · rfl

theorem entry_root_format (dev : BlockDevice) (n i : Nat) :
    (((formattedDriver n).view (formatPartitionFAT32 dev n).store).entry ⟨2, i⟩).first = 0 :=
  root_format dev n (32 * i + 0)

/-- The root directory of a volume that was just formatted is empty. -/
theorem formatted_format (dev : BlockDevice) (h : HasRoom n) :
    Formatted (formattedDriver n) (formatPartitionFAT32 dev n).store := by
  have hsz := (fatSzSec_bounds h).1
  refine ⟨.last (c := 2) ⟨Nat.le_refl 2, ?_, by decide⟩ ?_, fun s hs => ?_⟩
  · change 2 < fatSzSec n * 128
    omega
  · have hnext : ((formattedDriver n).view (formatPartitionFAT32 dev n).store).next 2 =
        0x0FFFFFFF := by
      rw [View.next, fat_format dev h (by decide)]
      rfl
    change endOfChain ≤ _
    rw [hnext]
    decide
  · obtain ⟨hcluster, -⟩ := mem_slots.mp hs
    obtain ⟨c, i⟩ := s
    rw [List.mem_singleton] at hcluster
    obtain rfl : c = 2 := hcluster
    exact entry_root_format dev n i

theorem mirrored_format (dev : BlockDevice) (h : HasRoom n) (hlong : 128 ≤ fatSzSec n) :
    Mirrored (formattedDriver n) (formatPartitionFAT32 dev n).store := by
  have h1 := store_fat1 (s := 0) dev h (by omega)
  have h2 := store_fat2 (s := 0) dev h (by omega)
  rw [if_pos rfl] at h1
  rw [if_pos ⟨rfl, hlong⟩] at h2
  intro k _
  change (formatPartitionFAT32 dev n).store (fat2Start n) k =
    (formatPartitionFAT32 dev n).store fat1Start k
  rw [Nat.add_zero] at h1 h2
  rw [h1, h2]

/-- When the FATs are short, the first sector of the second one is cleared. -/
theorem not_mirrored_format (dev : BlockDevice) (h : HasRoom n) (hshort : fatSzSec n < 128) :
    ¬Mirrored (formattedDriver n) (formatPartitionFAT32 dev n).store := by
  have hsz := (fatSzSec_bounds h).1
  have h1 := store_fat1 (s := 0) dev h (by omega)
  have h2 := store_fat2 (s := 0) dev h (by omega)
  rw [if_pos rfl, Nat.add_zero] at h1
  rw [if_neg (by omega), if_pos (by decide), Nat.add_zero] at h2
  intro hm
  have hbyte : (formatPartitionFAT32 dev n).store (fat2Start n) 0 =
      (formatPartitionFAT32 dev n).store fat1Start 0 := hm 0 (by decide)
  rw [h1, h2] at hbyte
  exact absurd hbyte (by decide)

theorem wellFormed_format (dev : BlockDevice) (h : HasRoom n) (hlong : 128 ≤ fatSzSec n) :
    WellFormed (formattedDriver n) (formatPartitionFAT32 dev n).store := by
  have hflat := flat_of_zero (formatted_format dev h).chain (formatted_format dev h).unused
  refine ⟨mirrored_format dev h hlong, hflat.sound, fun o c cs ho hc => ?_,
    fun s cs hs _ hsize => ?_, fun x h2 h128 hx => ?_⟩
  · rw [(hflat.owner ho).2] at hc
    rw [hc.unique hflat.chain]
    change ∀ x ∈ [2], x < 128
    decide
  · rw [(hflat.listed hs).2] at hsize
    exact absurd hsize (Nat.lt_irrefl 0)
  · rw [fat_format dev h h128, initialEntry] at hx
    obtain rfl : x = 2 := by
      by_contra hne
      exact hx (by rw [if_neg (by omega), if_neg (by omega)])
    exact ⟨.root, 2, [2], rfl, hflat.chain, List.mem_singleton_self 2⟩

/-- What `Initialize` finds after the format is a well-formed volume exactly when the FATs have
128 sectors or more. -/
theorem format_wellFormed_iff (dev : BlockDevice) (h : HasRoom n) :
    WellFormed (initializeFrom (formatPartitionFAT32 dev n) kPartitionStartLBA)
      (formatPartitionFAT32 dev n).store ↔ 128 ≤ fatSzSec n := by
  rw [initializeFrom_format dev h]
  constructor
  · intro hwf
    by_contra hshort
    exact not_mirrored_format dev h (Nat.not_le.mp hshort) hwf.mirrored
  · exact wellFormed_format dev h

/-- The FATs on the disk of the kernel are long enough. -/
theorem format_wellFormed_disk :
    WellFormed (initializeFrom (formatPartitionFAT32 ⟨fun _ _ => 0, []⟩ 1046528) kPartitionStartLBA)
      (formatPartitionFAT32 ⟨fun _ _ => 0, []⟩ 1046528).store := by
  have hroom : HasRoom 1046528 := ⟨by decide, by decide⟩
  exact (format_wellFormed_iff _ hroom).mpr (by decide)

end Formatted

end Sylphia
