import Sylphia.Fat.SlotChange

/-!
# The writes of the driver

What each function of the driver that writes makes of the view, and the views that the
device goes through on the way.
-/

namespace Sylphia

open Bytes WriteLog FAT32Driver

/-- A property of views holds of the device and after every sector write on the way. -/
abbrev Passes (fs : FAT32Driver) (Q : View → Prop) : BlockDevice → BlockDevice → Prop :=
  Logged.Through fun d => Q (fs.view d)

section FatWrites

variable {fs : FAT32Driver} {Q : View → Prop} {dev : BlockDevice} {c v : Nat}

theorem writeSectors_one (dev : BlockDevice) (lba : Nat) (buf : Buffer) :
    BlockDevice.writeSectors dev lba buf 1 = dev.write lba fun k => buf (0 * 512 + k) := rfl

private theorem fat_sector_lt (hc : c < fs.fatSz32 * 128) : c / 128 < fs.fatSz32 :=
  Nat.div_lt_of_lt_mul (by omega)

/-- The entry of a cluster is written to both FATs. -/
private theorem writeFats (hg : Geometry fs) (hc : c < fs.fatSz32 * 128) {buf : Buffer}
    (hbuf : ∀ k < 512, buf k = setFatEntry (dev.store (fs.fatStartLba + c / 128)) (c % 128) v k) :
    fs.view (BlockDevice.writeSectors
      (BlockDevice.writeSectors dev (fs.fatStartLba + c / 128) buf 1)
        (fs.fatStartLba + c / 128 + fs.fatSz32) buf 1).store =
        (fs.view dev.store).setFat c (v % 2 ^ 32) ∧
      (Q (fs.view dev.store) → Q ((fs.view dev.store).setFat c (v % 2 ^ 32)) →
        Passes fs Q dev (BlockDevice.writeSectors
          (BlockDevice.writeSectors dev (fs.fatStartLba + c / 128) buf 1)
          (fs.fatStartLba + c / 128 + fs.fatSz32) buf 1)) := by
  have hsec := fat_sector_lt hc
  have hstart := hg.dataStart
  have hfirst := @view_write_fat fs dev.store c v (fun k => buf (0 * 512 + k)) hg hc fun k hk => by
    rw [Nat.zero_mul, Nat.zero_add, hbuf k hk]
  have hsecond (d : Disk) (b : Buffer) : fs.view (Function.update d
      (fs.fatStartLba + c / 128 + fs.fatSz32) b) = fs.view d :=
    view_write_backup (by omega) (by omega)
  rw [writeSectors_one, writeSectors_one]
  refine ⟨(hsecond _ _).trans hfirst, fun hq hq' => ?_⟩
  refine ((Logged.Through.refl hq).write ?_).write ?_
  · rw [hfirst]
    exact hq'
  · rw [hsecond]
    exact hfirst ▸ hq'

/-- `LinkCluster`. -/
theorem linkCluster_view (hg : Geometry fs) (dev : BlockDevice) (hc : c < fs.fatSz32 * 128)
    (v : Nat) :
    fs.view (fs.linkCluster dev c v).store = (fs.view dev.store).setFat c (v % 2 ^ 32) ∧
      (Q (fs.view dev.store) → Q ((fs.view dev.store).setFat c (v % 2 ^ 32)) →
        Passes fs Q dev (fs.linkCluster dev c v)) := by
  refine writeFats hg hc fun k hk => ?_
  have hi : c % 128 < 128 := Nat.mod_lt _ (by decide)
  rw [setFatEntry, setFatEntry, splice, splice, read_of_lt dev hk]

/-- The first sector of the FAT. -/
theorem fatEntry_read_first (hg : Geometry fs) (dev : BlockDevice) (hc : c < 128) :
    fatEntry (BlockDevice.read dev fs.fatStartLba) c = (fs.view dev.store).fat c := by
  have hpos := hg.fatSz32_pos
  rw [view_fat dev.store (by omega), Nat.div_eq_of_lt hc, Nat.mod_eq_of_lt hc, Nat.add_zero,
    fatEntry_read dev hc]

/-- `AllocateCluster`: a free cluster is found and marked, or there is none. -/
theorem allocateCluster_view (hg : Geometry fs) (dev : BlockDevice) :
    (fs.allocateCluster dev = (0, dev) ∧ ∀ c, 2 ≤ c → c < 128 → (fs.view dev.store).fat c ≠ 0) ∨
    ∃ c dev', fs.allocateCluster dev = (c, dev') ∧ 2 ≤ c ∧ c < 128 ∧
      (fs.view dev.store).fat c = 0 ∧
      fs.view dev'.store = (fs.view dev.store).setFat c 0x0FFFFFFF ∧
      ∀ Q : View → Prop, Q (fs.view dev.store) → Q ((fs.view dev.store).setFat c 0x0FFFFFFF) →
        Passes fs Q dev dev' := by
  have hpos := hg.fatSz32_pos
  rw [allocateCluster]
  dsimp only
  cases hf : (List.range' 2 126).find? fun i =>
      fatEntry (BlockDevice.read dev fs.fatStartLba) i == 0 with
  | none =>
    refine Or.inl ⟨rfl, fun c h2 h128 h0 => ?_⟩
    rw [List.find?_eq_none] at hf
    refine hf c (by rw [List.mem_range'_1]; omega) ?_
    rw [fatEntry_read_first hg dev h128, h0]
    rfl
  | some c =>
    have hmem := List.mem_of_find?_eq_some hf
    rw [List.mem_range'_1] at hmem
    have h0 : (fs.view dev.store).fat c = 0 := by
      have := List.find?_some hf
      rw [fatEntry_read_first hg dev (by omega), beq_iff_eq] at this
      exact this
    have hdiv : c / 128 = 0 := Nat.div_eq_of_lt (by omega)
    have hmod : c % 128 = c := Nat.mod_eq_of_lt (by omega)
    have hwrite (Q : View → Prop) := @writeFats fs Q dev c 0x0FFFFFFF hg (by omega)
      (setFatEntry (BlockDevice.read dev fs.fatStartLba) c 0x0FFFFFFF) fun k hk => by
        rw [setFatEntry, setFatEntry, splice, splice, read_of_lt dev hk, hdiv, hmod, Nat.add_zero]
    rw [hdiv, Nat.add_zero] at hwrite
    exact Or.inr ⟨c, _, rfl, hmem.1, by omega, h0, (hwrite fun _ => True).1,
      fun Q => (hwrite Q).2⟩

end FatWrites

section DataWrites

variable {fs : FAT32Driver} {Q : View → Prop} {c n : Nat} {buf : Buffer}

/-- The first `n` sectors of a cluster are written. -/
private theorem writeSectors_view (hg : Geometry fs) (dev : BlockDevice) (h2 : 2 ≤ c)
    (h32 : c < 2 ^ 32) (buf : Buffer) (hn : n ≤ fs.secPerClus) :
    fs.view (BlockDevice.writeSectors dev (fs.clusterToLBA c) buf n).store =
        (fs.view dev.store).setData c (fun k =>
          if k < n * 512 then buf k else (fs.view dev.store).data c k) ∧
      ((∀ b, Q ((fs.view dev.store).setData c b)) → Q (fs.view dev.store) →
        Passes fs Q dev (BlockDevice.writeSectors dev (fs.clusterToLBA c) buf n)) := by
  induction n with
  | zero =>
    refine ⟨?_, fun _ hq => Logged.Through.refl hq⟩
    rw [BlockDevice.writeSectors, View.setData]
    simp only [Nat.zero_mul, Nat.not_lt_zero, if_false]
    rw [show (fun k => (fs.view dev.store).data c k) = (fs.view dev.store).data c from rfl,
      Function.update_eq_self]
  | succ n ih =>
    obtain ⟨hview, hpass⟩ := ih (by omega)
    have hnext : fs.view (BlockDevice.writeSectors dev (fs.clusterToLBA c) buf (n + 1)).store =
        (fs.view dev.store).setData c (fun k =>
          if k < (n + 1) * 512 then buf k else (fs.view dev.store).data c k) := by
      rw [BlockDevice.writeSectors]
      show fs.view (Function.update _ _ _) = _
      rw [view_write_data hg h2 h32 (by omega), hview, View.setData_data_self, View.setData,
        View.setData, View.setData, Function.update_idem]
      congr 2
      funext k
      by_cases hk : k / 512 = n
      · have hlt : k < (n + 1) * 512 := by omega
        rw [if_pos hk, if_pos hlt]
        congr 1
        omega
      · rw [if_neg hk]
        have hiff : k < (n + 1) * 512 ↔ k < n * 512 := by omega
        simp only [hiff]
    refine ⟨hnext, fun hall hq => ?_⟩
    rw [BlockDevice.writeSectors]
    refine (hpass hall hq).write ?_
    rw [BlockDevice.writeSectors] at hnext
    rw [show fs.view (Function.update _ _ _) = _ from hnext]
    exact hall _

/-- A whole cluster is written. -/
theorem writeCluster_view (hg : Geometry fs) (dev : BlockDevice) (h2 : 2 ≤ c) (h32 : c < 2 ^ 32)
    (buf : Buffer) :
    fs.view (BlockDevice.writeSectors dev (fs.clusterToLBA c) buf fs.secPerClus).store =
        (fs.view dev.store).setData c (fun k => if k < fs.clusterBytes then buf k else 0) ∧
      ((∀ b, Q ((fs.view dev.store).setData c b)) → Q (fs.view dev.store) →
        Passes fs Q dev (BlockDevice.writeSectors dev (fs.clusterToLBA c) buf fs.secPerClus)) := by
  obtain ⟨hview, hpass⟩ := @writeSectors_view fs Q c fs.secPerClus hg dev h2 h32 buf le_rfl
  refine ⟨hview.trans ?_, hpass⟩
  congr 1
  funext k
  rw [← clusterBytes]
  split
  · rfl
  · next hk => exact if_neg fun hc => hk hc.2.2

/-- A sector of a cluster is written back with one slot changed. -/
theorem writeSlot_view (hg : Geometry fs) (dev : BlockDevice) {s : Slot} (h2 : 2 ≤ s.cluster)
    (h32 : s.cluster < 2 ^ 32) (hi : s.index < fs.slotsPerCluster) {e : DirectoryEntry}
    (he : e.length = 32)
    (hbuf : ∀ k < fs.clusterBytes, buf k = (fs.view dev.store).data s.cluster k) :
    fs.view (fs.writeSlot dev buf s e).store = (fs.view dev.store).setSlot s e ∧
      (Q (fs.view dev.store) → Q ((fs.view dev.store).setSlot s e) →
        Passes fs Q dev (fs.writeSlot dev buf s e)) := by
  have hsec : s.index / 16 < fs.secPerClus := by
    rw [slotsPerCluster] at hi
    omega
  have hview : fs.view (fs.writeSlot dev buf s e).store = (fs.view dev.store).setSlot s e := by
    rw [writeSlot, writeSectors_one]
    show fs.view (Function.update _ _ _) = _
    rw [view_write_data hg h2 h32 hsec, View.setSlot]
    congr 1
    funext k
    by_cases hk : k / 512 = s.index / 16
    · have hkc : k < fs.clusterBytes := by
        rw [clusterBytes]
        omega
      have hkk : s.index / 16 * 512 + (0 * 512 + k % 512) = k := by omega
      rw [if_pos hk, hkk, splice, splice, hbuf k hkc]
    · rw [if_neg hk]
      rcases Nat.lt_or_ge k (32 * s.index) with hlt | hge
      · rw [splice_of_lt hlt]
      · rw [splice_of_ge (by rw [he]; omega)]
  refine ⟨hview, fun hq hq' => ?_⟩
  rw [writeSlot, writeSectors_one] at hview ⊢
  refine (Logged.Through.refl hq).write ?_
  rw [show fs.view (Function.update _ _ _) = _ from hview]
  exact hq'

/-- The entries of a cluster with one slot changed. -/
theorem entry_setSlot (V : View) (s : Slot) {e : DirectoryEntry} (he : e.length = 32) :
    (V.setSlot s e).entry s = e ∧ ∀ t, t ≠ s → (V.setSlot s e).entry t = V.entry t := by
  rw [View.setSlot]
  constructor
  · rw [View.entry, View.setData_data_self, dirEntry, ← he]
    exact slice_splice_self ..
  · intro t hts
    by_cases hc : t.cluster = s.cluster
    · have hi : t.index ≠ s.index := by
        intro hi
        obtain ⟨tc, ti⟩ := t
        obtain ⟨sc, si⟩ := s
        exact hts (congrArg₂ Slot.mk hc hi)
      rw [View.entry, View.entry, hc, View.setData_data_self, dirEntry, dirEntry]
      refine slice_splice_of_disjoint ?_
      rw [he]
      omega
    · rw [View.entry, View.entry, View.setData_data_of_ne _ hc]

end DataWrites

/-- The second FAT starts with the same sector as the first. -/
def Mirrored (fs : FAT32Driver) (d : Disk) : Prop :=
  ∀ k < 512, d (fs.fatStartLba + fs.fatSz32) k = d fs.fatStartLba k

section Mirror

variable {fs : FAT32Driver} {dev : BlockDevice} {c : Nat} {buf : Buffer}

private theorem mirrored_writeFats (hg : Geometry fs) (h : Mirrored fs dev.store) {i : Nat}
    (hi : i < fs.fatSz32) (buf : Buffer) :
    Mirrored fs (BlockDevice.writeSectors (BlockDevice.writeSectors dev (fs.fatStartLba + i) buf 1)
      (fs.fatStartLba + i + fs.fatSz32) buf 1).store := by
  have hpos := hg.fatSz32_pos
  intro k hk
  rw [writeSectors_one, writeSectors_one]
  by_cases h0 : i = 0
  · subst h0
    rw [Nat.add_zero, Logged.write_store_self, Logged.write_store_of_ne _ (by omega),
      Logged.write_store_self]
  · rw [Logged.write_store_of_ne _ (by omega), Logged.write_store_of_ne _ (by omega),
      Logged.write_store_of_ne _ (by omega), Logged.write_store_of_ne _ (by omega)]
    exact h k hk

theorem mirrored_linkCluster (hg : Geometry fs) (h : Mirrored fs dev.store)
    (hc : c < fs.fatSz32 * 128) (v : Nat) : Mirrored fs (fs.linkCluster dev c v).store :=
  mirrored_writeFats hg h (fat_sector_lt hc) _

theorem mirrored_allocateCluster (hg : Geometry fs) (h : Mirrored fs dev.store) :
    Mirrored fs (fs.allocateCluster dev).2.store := by
  rw [allocateCluster]
  dsimp only
  split
  · exact h
  · exact mirrored_writeFats hg h hg.fatSz32_pos _

theorem mirrored_writeSectors (hg : Geometry fs) (h : Mirrored fs dev.store) {lba : Nat}
    (hlba : fs.dataStartLba ≤ lba) (buf : Buffer) (n : Nat) :
    Mirrored fs (BlockDevice.writeSectors dev lba buf n).store := by
  induction n with
  | zero => exact h
  | succ n ih =>
    have hstart := hg.dataStart
    have hpos := hg.fatSz32_pos
    intro k hk
    rw [BlockDevice.writeSectors, Logged.write_store_of_ne _ (by omega),
      Logged.write_store_of_ne _ (by omega)]
    exact ih k hk

theorem mirrored_writeSlot (hg : Geometry fs) (h : Mirrored fs dev.store) (s : Slot)
    (e : DirectoryEntry) : Mirrored fs (fs.writeSlot dev buf s e).store :=
  mirrored_writeSectors hg h ((dataStart_le_clusterToLBA fs s.cluster).trans (Nat.le_add_right ..))
    _ 1

end Mirror

end Sylphia
