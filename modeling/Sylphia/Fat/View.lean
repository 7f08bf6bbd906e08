import Sylphia.Fat.Driver

/-!
# The contents of a volume

What the driver reads of a volume is the first FAT and the data of the clusters. The
writes of the driver are followed on this view of the device, sector by sector.
-/

namespace Sylphia

open Bytes WriteLog

/-- The entries of the first FAT, and the data of each cluster. -/
@[ext] structure View where
  fat : Nat → Nat
  data : Nat → Buffer

/-- The parts of a volume follow one another: two FATs, and the data. -/
structure Geometry (fs : FAT32Driver) : Prop where
  secPerClus_pos : 1 ≤ fs.secPerClus
  secPerClus_lt : fs.secPerClus < 256
  fatSz32_pos : 1 ≤ fs.fatSz32
  dataStart : fs.dataStartLba = fs.fatStartLba + 2 * fs.fatSz32

namespace FAT32Driver

variable (fs : FAT32Driver)

/-- The view of a device; nothing is seen outside the volume's FAT and clusters. -/
def view (d : Disk) : View where
  fat := fun c => if c < fs.fatSz32 * 128 then
    fatEntry (d (fs.fatStartLba + c / 128)) (c % 128) else 0
  data := fun c k =>
    if 2 ≤ c ∧ c < 2 ^ 32 ∧ k < fs.clusterBytes then
      d (fs.clusterToLBA c + k / 512) (k % 512)
    else 0

end FAT32Driver

namespace View

variable {fs : FAT32Driver} {d d' : Disk} {c k i v lba : Nat} {buf : Buffer}

/-- The view with one entry of the FAT set. -/
def setFat (V : View) (c v : Nat) : View := { V with fat := Function.update V.fat c v }

/-- The view with the data of one cluster replaced. -/
def setData (V : View) (c : Nat) (buf : Buffer) : View :=
  { V with data := Function.update V.data c buf }

/-- The view with another entry in a slot. -/
def setSlot (V : View) (s : Slot) (e : DirectoryEntry) : View :=
  V.setData s.cluster (splice (V.data s.cluster) (32 * s.index) e)

/-- The view with these clusters free. -/
def clear (V : View) (cs : List Nat) : View :=
  { V with fat := fun x => if x ∈ cs then 0 else V.fat x }

@[simp] theorem setFat_data (V : View) (c v : Nat) : (V.setFat c v).data = V.data := rfl

@[simp] theorem setData_fat (V : View) (c : Nat) (buf : Buffer) :
    (V.setData c buf).fat = V.fat := rfl

theorem setFat_fat_self (V : View) (c v : Nat) : (V.setFat c v).fat c = v := Function.update_self ..

theorem setFat_fat_of_ne (V : View) {x : Nat} (h : x ≠ c) (v : Nat) :
    (V.setFat c v).fat x = V.fat x := Function.update_of_ne h ..

theorem setData_data_self (V : View) (c : Nat) (buf : Buffer) : (V.setData c buf).data c = buf :=
  Function.update_self ..

theorem setData_data_of_ne (V : View) {x : Nat} (h : x ≠ c) (buf : Buffer) :
    (V.setData c buf).data x = V.data x := Function.update_of_ne h ..

theorem clear_nil (V : View) : V.clear [] = V := by simp [clear]

end View

open FAT32Driver

section Reads

variable {fs : FAT32Driver} {d d' : Disk} {c k i v lba : Nat} {buf : Buffer}

theorem clusterToLBA_eq (h2 : 2 ≤ c) (h32 : c < 2 ^ 32) :
    fs.clusterToLBA c = fs.dataStartLba + (c - 2) * fs.secPerClus := by
  have hmod : (c + 2 ^ 32 - 2) % 2 ^ 32 = c - 2 := by omega
  rw [clusterToLBA, hmod]

theorem fatEntry_congr {buf' : Buffer} (hi : i < 128) (h : ∀ k < 512, buf' k = buf k) :
    fatEntry buf' i = fatEntry buf i := by
  rw [fatEntry, fatEntry, slice_congr fun k hk => h _ (by omega)]

theorem fatEntry_setFatEntry_self (buf : Buffer) (i v : Nat) :
    fatEntry (setFatEntry buf i v) i = v % 2 ^ 32 := by
  have hslice := slice_splice_self buf (4 * i) (toLE 4 v)
  rw [length_toLE] at hslice
  rw [fatEntry, setFatEntry, hslice, ofLE_toLE, show (256 : Nat) ^ 4 = 2 ^ 32 from rfl]

theorem fatEntry_setFatEntry_of_ne (buf : Buffer) {i j : Nat} (h : j ≠ i) (v : Nat) :
    fatEntry (setFatEntry buf i v) j = fatEntry buf j := by
  rw [fatEntry, setFatEntry, slice_splice_of_disjoint, fatEntry]
  rw [length_toLE]
  omega

theorem read_of_lt (dev : BlockDevice) (hk : k < 512) :
    BlockDevice.read dev lba k = dev.store lba k := by
  rw [BlockDevice.read, Nat.div_eq_of_lt hk, Nat.mod_eq_of_lt hk, Nat.add_zero]

theorem view_fat (d : Disk) (hc : c < fs.fatSz32 * 128) :
    (fs.view d).fat c = fatEntry (d (fs.fatStartLba + c / 128)) (c % 128) := if_pos hc

theorem fatEntry_read (dev : BlockDevice) (hi : i < 128) :
    fatEntry (BlockDevice.read dev lba) i = fatEntry (dev.store lba) i :=
  fatEntry_congr hi fun _ hk => read_of_lt dev hk

/-- `GetNextCluster` reads the first FAT. -/
theorem getNextCluster_eq (dev : BlockDevice) (hc : c < fs.fatSz32 * 128) :
    fs.getNextCluster dev c = (fs.view dev.store).fat c % 2 ^ 28 := by
  rw [getNextCluster, fatEntry_read dev (Nat.mod_lt _ (by decide)), ← view_fat dev.store hc]
  exact Nat.and_two_pow_sub_one_eq_mod _ 28

/-- A cluster is read into a buffer. -/
theorem read_cluster (dev : BlockDevice) (h2 : 2 ≤ c) (h32 : c < 2 ^ 32)
    (hk : k < fs.clusterBytes) :
    BlockDevice.read dev (fs.clusterToLBA c) k = (fs.view dev.store).data c k :=
  (if_pos ⟨h2, h32, hk⟩).symm

end Reads

section Writes

variable {fs : FAT32Driver} {d : Disk} {c k i v n lba : Nat} {buf : Buffer}

theorem dataStart_le_clusterToLBA (fs : FAT32Driver) (c : Nat) :
    fs.dataStartLba ≤ fs.clusterToLBA c := Nat.le_add_right ..

private theorem view_ext {V W : View} (hf : ∀ c, V.fat c = W.fat c)
    (hd : ∀ c k, V.data c k = W.data c k) : V = W :=
  View.ext (funext hf) (funext fun c => funext fun k => hd c k)

/-- A write to a sector of the first FAT sets one of its entries. -/
theorem fat_write_fat (hc : c < fs.fatSz32 * 128)
    (hbuf : ∀ k < 512, buf k = setFatEntry (d (fs.fatStartLba + c / 128)) (c % 128) v k) :
    (fs.view (Function.update d (fs.fatStartLba + c / 128) buf)).fat =
      Function.update (fs.view d).fat c (v % 2 ^ 32) := by
  funext x
  by_cases hx : x < fs.fatSz32 * 128
  · rw [view_fat _ hx]
    by_cases hs : x / 128 = c / 128
    · rw [hs, Function.update_self, fatEntry_congr (Nat.mod_lt _ (by decide)) hbuf]
      by_cases hxc : x = c
      · rw [hxc, fatEntry_setFatEntry_self, Function.update_self]
      · rw [fatEntry_setFatEntry_of_ne _ (by omega), Function.update_of_ne hxc, view_fat _ hx, hs]
    · have hxc : x ≠ c := fun h => hs (h ▸ rfl)
      rw [Function.update_of_ne (by omega), Function.update_of_ne hxc, view_fat _ hx]
  · have hxc : x ≠ c := by
      rintro rfl
      exact hx hc
    rw [Function.update_of_ne hxc, view, view]
    dsimp only
    rw [if_neg hx, if_neg hx]

/-- A write behind the first FAT leaves its entries. -/
theorem fat_write_of_ge (hlba : fs.fatStartLba + fs.fatSz32 ≤ lba) :
    (fs.view (Function.update d lba buf)).fat = (fs.view d).fat := by
  funext x
  rw [view, view]
  dsimp only
  split
  · next hx =>
    have hsec : x / 128 < fs.fatSz32 := Nat.div_lt_of_lt_mul (by omega)
    rw [Function.update_of_ne (by omega)]
  · rfl

/-- A write before the data leaves the data. -/
private theorem data_write_of_lt (hlba : lba < fs.dataStartLba) :
    (fs.view (Function.update d lba buf)).data = (fs.view d).data := by
  funext x k
  have hle := dataStart_le_clusterToLBA fs x
  rw [view, view]
  dsimp only
  rw [Function.update_of_ne (by omega)]

/-- A write to a sector of the first FAT. -/
theorem view_write_fat (hg : Geometry fs) (hc : c < fs.fatSz32 * 128)
    (hbuf : ∀ k < 512, buf k = setFatEntry (d (fs.fatStartLba + c / 128)) (c % 128) v k) :
    fs.view (Function.update d (fs.fatStartLba + c / 128) buf) =
      (fs.view d).setFat c (v % 2 ^ 32) := by
  have hsec : c / 128 < fs.fatSz32 := Nat.div_lt_of_lt_mul (by omega)
  have hstart := hg.dataStart
  exact View.ext (fat_write_fat hc hbuf) (data_write_of_lt (by omega))

/-- A write to the second FAT is not seen. -/
theorem view_write_backup (hlo : fs.fatStartLba + fs.fatSz32 ≤ lba)
    (hhi : lba < fs.dataStartLba) : fs.view (Function.update d lba buf) = fs.view d :=
  View.ext (fat_write_of_ge hlo) (data_write_of_lt hhi)

private theorem cluster_sector (hg : Geometry fs) {c c' n n' : Nat} (h2 : 2 ≤ c) (h32 : c < 2 ^ 32)
    (h2' : 2 ≤ c') (h32' : c' < 2 ^ 32) (hn : n < fs.secPerClus) (hn' : n' < fs.secPerClus)
    (h : fs.clusterToLBA c + n = fs.clusterToLBA c' + n') : c = c' ∧ n = n' := by
  have hpos := hg.secPerClus_pos
  rw [clusterToLBA_eq h2 h32, clusterToLBA_eq h2' h32', Nat.add_assoc, Nat.add_assoc] at h
  have h' : (c - 2) * fs.secPerClus + n = (c' - 2) * fs.secPerClus + n' := by omega
  have hdiv := congrArg (· / fs.secPerClus) h'
  have hmod := congrArg (· % fs.secPerClus) h'
  simp only [Nat.mul_comm _ fs.secPerClus, Nat.mul_add_div (by omega : fs.secPerClus > 0),
    Nat.mul_add_mod, Nat.div_eq_of_lt hn, Nat.div_eq_of_lt hn', Nat.mod_eq_of_lt hn,
    Nat.mod_eq_of_lt hn'] at hdiv hmod
  omega

/-- A write to a sector of a cluster. -/
theorem view_write_data (hg : Geometry fs) (h2 : 2 ≤ c) (h32 : c < 2 ^ 32)
    (hn : n < fs.secPerClus) :
    fs.view (Function.update d (fs.clusterToLBA c + n) buf) = (fs.view d).setData c fun k =>
      if k / 512 = n then buf (k % 512) else (fs.view d).data c k := by
  have hstart := hg.dataStart
  have hle := dataStart_le_clusterToLBA fs c
  refine view_ext (fun x => ?_) (fun x k => ?_)
  · rw [View.setData_fat, fat_write_of_ge (by omega)]
  · by_cases hx : 2 ≤ x ∧ x < 2 ^ 32 ∧ k < fs.clusterBytes
    · have hk : k / 512 < fs.secPerClus := Nat.div_lt_of_lt_mul (by
        have := hx.2.2
        rw [clusterBytes] at this
        omega)
      have hl : (fs.view (Function.update d (fs.clusterToLBA c + n) buf)).data x k =
          Function.update d (fs.clusterToLBA c + n) buf (fs.clusterToLBA x + k / 512) (k % 512) :=
        if_pos hx
      have hr : (fs.view d).data x k = d (fs.clusterToLBA x + k / 512) (k % 512) := if_pos hx
      rw [hl]
      by_cases hxc : x = c
      · subst hxc
        rw [View.setData_data_self]
        by_cases hkn : k / 512 = n
        · rw [if_pos hkn, hkn, Function.update_self]
        · rw [if_neg hkn, hr, Function.update_of_ne (by omega)]
      · rw [View.setData_data_of_ne _ hxc, hr, Function.update_of_ne]
        intro heq
        exact hxc (cluster_sector hg hx.1 hx.2.1 h2 h32 hk hn heq).1
    · have hl : (fs.view (Function.update d (fs.clusterToLBA c + n) buf)).data x k = 0 := if_neg hx
      have hr : (fs.view d).data x k = 0 := if_neg hx
      rw [hl]
      by_cases hxc : x = c
      · subst hxc
        rw [View.setData_data_self, hr]
        have hk : ¬k < fs.clusterBytes := fun hk => hx ⟨h2, h32, hk⟩
        have hkn : k / 512 ≠ n := by
          rw [clusterBytes] at hk
          omega
        rw [if_neg hkn]
      · rw [View.setData_data_of_ne _ hxc, hr]

end Writes

end Sylphia
