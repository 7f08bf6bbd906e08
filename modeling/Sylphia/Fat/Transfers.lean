import Sylphia.Disk.Layout
import Sylphia.Nvme.Transfer

/-!
# The buffers of the FAT32 driver on an NVMe device

Every buffer that the file system reads blocks into or writes them from has 512 bytes for each
block, while the NVMe driver moves blocks of the size that the namespace has. Allocation in
whole frames makes up for the difference for small clusters only.
-/

namespace Sylphia

open Bytes WriteLog Nvme

/-- A transfer that the file system asks the device for: `count` blocks, from `offset` on in a
buffer of `allocated` bytes. -/
structure TransferRequest where
  allocated : Nat
  offset : Nat
  count : Nat
  deriving DecidableEq, Repr

/-- The places where `FAT32Driver` calls `Read` or `Write`, by the buffer that they use. -/
inductive TransferSite
  /-- `Initialize`, the boot sector. -/
  | bootSector
  /-- `AllocateCluster`, the first sector of the FAT and of its copy. -/
  | allocateCluster
  /-- `LinkCluster`, a sector of the FAT and of its copy. -/
  | linkCluster
  | getNextCluster
  /-- `AddDirectoryEntry`, a sector of the directory. -/
  | addDirectoryEntry
  | findDirectoryEntry
  | createDirectory
  | listDirectory
  | deleteFile
  /-- The sector of `DeleteFile` with the entry `found_index`. -/
  | deletedEntry (foundIndex : Nat)
  | readFile
  | writeFile
  /-- `AppendFile`, the last cluster of the old file. -/
  | appendToLast
  /-- `AppendFile`, a new cluster. -/
  | appendNew
  /-- `AppendFile`, a cluster of the directory. -/
  | appendEntry
  /-- The sector of `AppendFile` with the entry `i`. -/
  | appendedEntry (i : Nat)
  deriving DecidableEq, Repr

namespace FAT32Driver

/-- One sector in a buffer of its own. -/
def sectorRequest : TransferRequest := ⟨512, 0, 1⟩

/-- A cluster. -/
def clusterRequest (fs : FAT32Driver) : TransferRequest := ⟨fs.secPerClus * 512, 0, fs.secPerClus⟩

/-- The sector with an entry, in the buffer of a cluster of a directory. -/
def entryRequest (fs : FAT32Driver) (index : Nat) : TransferRequest :=
  ⟨fs.secPerClus * 512, index / 16 * 512, 1⟩

/-- What is asked for at each place. -/
def request (fs : FAT32Driver) : TransferSite → TransferRequest
  | .bootSector | .allocateCluster | .linkCluster | .getNextCluster | .addDirectoryEntry =>
    sectorRequest
  | .findDirectoryEntry | .createDirectory | .listDirectory | .deleteFile | .readFile |
    .writeFile | .appendToLast | .appendNew | .appendEntry => fs.clusterRequest
  | .deletedEntry foundIndex => fs.entryRequest foundIndex
  | .appendedEntry i => fs.entryRequest i

/-- An entry that was found is one of those of the cluster. -/
def Requests (fs : FAT32Driver) : TransferSite → Prop
  | .deletedEntry i | .appendedEntry i => i < fs.slotsPerCluster
  | _ => True

end FAT32Driver

namespace Nvme.Driver

/-- `IdentifyController` sets `lba_size_`. -/
def identified (d : Driver) (data : IdentifyNamespaceData) : Driver :=
  { d with lbaSize := data.lbaSize }

/-- The bytes that the device moves for a call of `Read` or `Write`: the blocks of the command,
if there is one. -/
def bytesMoved (d : Driver) (count : BitVec 32) : Nat :=
  if count.setWidth 16 = 0 then 0
  else (d.blockCommand 0x02 0 (count.setWidth 16)).blocks * d.lbaSize.toNat

theorem bytesMoved_eq (d : Driver) (count : BitVec 32) :
    d.bytesMoved count = count.toNat % 2 ^ 16 * d.lbaSize.toNat := by
  have hwidth : (count.setWidth 16).toNat = count.toNat % 2 ^ 16 := BitVec.toNat_setWidth ..
  rw [bytesMoved, ← hwidth]
  split
  · next hzero => rw [hzero, show (0 : BitVec 16).toNat = 0 from rfl, Nat.zero_mul]
  · next hcount => rw [blocks_blockCommand d _ _ hcount]

end Nvme.Driver

/-- What is moved lies in the frames of the buffer. -/
def TransferRequest.Fits (r : TransferRequest) (d : Driver) : Prop :=
  r.offset + d.bytesMoved (BitVec.ofNat 32 r.count) ≤
    MemoryManager.numFrames r.allocated * kFrameSize

/-- Every transfer that the file system asks for lies in its buffer. -/
def FAT32Driver.TransfersFit (fs : FAT32Driver) (d : Driver) : Prop :=
  ∀ site, fs.Requests site → (fs.request site).Fits d

section

variable {fs : FAT32Driver} {d : Driver}

theorem fits_sectorRequest_iff : FAT32Driver.sectorRequest.Fits d ↔ d.lbaSize.toNat ≤ 4096 := by
  rw [TransferRequest.Fits, Driver.bytesMoved_eq]
  simp [FAT32Driver.sectorRequest, MemoryManager.numFrames, kFrameSize]

theorem fits_clusterRequest_iff (hsec : fs.secPerClus < 256) : fs.clusterRequest.Fits d ↔
    fs.secPerClus * d.lbaSize.toNat ≤ (fs.secPerClus * 512 + 4095) / 4096 * 4096 := by
  rw [TransferRequest.Fits, Driver.bytesMoved_eq, FAT32Driver.clusterRequest,
    MemoryManager.numFrames_eq (by simp only; omega), BitVec.toNat_ofNat,
    Nat.mod_mod_of_dvd _ (by decide), Nat.mod_eq_of_lt (by simp only; omega), Nat.zero_add,
    kFrameSize]

theorem fits_entryRequest_iff (hsec : fs.secPerClus < 256) (index : Nat) :
    (fs.entryRequest index).Fits d ↔
      index / 16 * 512 + d.lbaSize.toNat ≤ (fs.secPerClus * 512 + 4095) / 4096 * 4096 := by
  rw [TransferRequest.Fits, Driver.bytesMoved_eq, FAT32Driver.entryRequest,
    MemoryManager.numFrames_eq (by simp only; omega), kFrameSize]
  simp

/-- A frame at least is allocated for a cluster, and 512 bytes for each of its blocks. -/
theorem fits_of_small (hsec : fs.secPerClus < 256) (h : d.lbaSize.toNat ≤ 512 ∨
    d.lbaSize.toNat ≤ 4096 ∧ fs.secPerClus * d.lbaSize.toNat ≤ 4096) :
    fs.clusterRequest.Fits d ∧
      ∀ index, index < fs.slotsPerCluster → (fs.entryRequest index).Fits d := by
  refine ⟨?_, fun index hindex => ?_⟩
  · rw [fits_clusterRequest_iff hsec]
    rcases h with hlow | ⟨-, hfit⟩
    · exact (Nat.mul_le_mul_left _ hlow).trans (by omega)
    · rcases Nat.eq_zero_or_pos fs.secPerClus with h0 | hpos
      · rw [h0, Nat.zero_mul]
      · exact hfit.trans (by omega)
  · rw [fits_entryRequest_iff hsec]
    rw [FAT32Driver.slotsPerCluster] at hindex
    obtain ⟨n, hn⟩ : ∃ n, fs.secPerClus = n + 1 := ⟨fs.secPerClus - 1, by omega⟩
    have hsector : index / 16 ≤ n := by omega
    by_cases hlow : d.lbaSize.toNat ≤ 512
    · omega
    · have hroom : 4096 ≤ (fs.secPerClus * 512 + 4095) / 4096 * 4096 := by
        clear h
        omega
      have hfit := (h.resolve_left hlow).2
      rw [hn, Nat.succ_mul] at hfit
      have hbefore : index / 16 * 512 ≤ n * d.lbaSize.toNat :=
        Nat.mul_le_mul hsector (Nat.le_of_not_le hlow)
      exact ((Nat.add_le_add_right hbefore _).trans hfit).trans hroom

/-- With blocks of at most 512 bytes, or a cluster that fits into one frame, and only then, every
buffer is large enough. -/
theorem transfersFit_iff {data : IdentifyNamespaceData} (hd : d.lbaSize = data.lbaSize)
    (hsec : fs.secPerClus < 256) : fs.TransfersFit d ↔ d.lbaSize.toNat ≤ 512 ∨
      d.lbaSize.toNat ≤ 4096 ∧ fs.secPerClus * d.lbaSize.toNat ≤ 4096 := by
  constructor
  · intro h
    have hsector := fits_sectorRequest_iff.mp (h .bootSector trivial)
    have hcluster := (fits_clusterRequest_iff hsec).mp (h .readFile trivial)
    obtain ⟨k, -, hk⟩ := lbaSize_toNat data
    rw [← hd] at hk
    rw [hk] at hsector hcluster ⊢
    have hhi : k ≤ 12 := (Nat.pow_le_pow_iff_right (show 1 < 2 by decide)).mp hsector
    by_cases hlow : k ≤ 9
    · exact Or.inl (Nat.pow_le_pow_right (show 0 < 2 by decide) hlow)
    · refine Or.inr ⟨hsector, ?_⟩
      obtain rfl | rfl | rfl : k = 10 ∨ k = 11 ∨ k = 12 := by omega
      all_goals omega
  · intro h site hsite
    obtain ⟨hcluster, hentry⟩ := fits_of_small hsec h
    have hsector : FAT32Driver.sectorRequest.Fits d := fits_sectorRequest_iff.mpr (by omega)
    cases site with
    | deletedEntry foundIndex => exact hentry foundIndex hsite
    | appendedEntry i => exact hentry i hsite
    | _ => first | exact hcluster | exact hsector

end

/-- For every namespace and every boot sector, the buffers are large enough for what is moved
exactly when the blocks have at most 512 bytes, or at most 4096 and those of a cluster together
as well. -/
theorem fat_transfers_fit_iff (boot : BlockDevice) (partLba : Nat) (d : Driver)
    (data : IdentifyNamespaceData) :
    (FAT32Driver.initializeFrom boot partLba).TransfersFit (d.identified data) ↔
      data.lbaSize.toNat ≤ 512 ∨ data.lbaSize.toNat ≤ 4096 ∧
        Bpb.secPerClus (boot.store partLba) * data.lbaSize.toNat ≤ 4096 := by
  have hsec : (FAT32Driver.initializeFrom boot partLba).secPerClus =
      Bpb.secPerClus (boot.store partLba) := fieldAt_read boot partLba (by decide)
  have hlt : Bpb.secPerClus (boot.store partLba) < 256 := by
    rw [Bpb.secPerClus, Packed.fieldAt]
    exact (ofLE_lt _).trans_eq (by rw [length_slice, pow_one])
  have hiff := @transfersFit_iff (FAT32Driver.initializeFrom boot partLba) (d.identified data) data
    rfl (hsec ▸ hlt)
  rw [hsec] at hiff
  exact hiff

/-- A boot sector for clusters of eight blocks, on a namespace with blocks of 4096 bytes: a
cluster has 32768 bytes, and its buffer 4096. -/
theorem readFile_overruns_buffer :
    ¬ (FAT32Driver.initializeFrom ⟨fun _ k => if k = 13 then 8 else 0, []⟩ 0).TransfersFit
      (sectorDriver.identified ⟨0, fun _ => 12⟩) := by
  intro h
  have hread := (fits_clusterRequest_iff (by decide)).mp (h .readFile trivial)
  exact absurd hread (by decide)

end Sylphia
