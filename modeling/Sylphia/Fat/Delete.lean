import Sylphia.Fat.WellFormed

/-!
# Clusters that are given back

`FreeChain` frees what the links lead to, whatever the FAT is like, and `DeleteFile` changes one
byte besides.
-/

namespace Sylphia

open Bytes WriteLog Chain FAT32Driver Relation

section Links

variable {fs : FAT32Driver} {c : Nat}

theorem linksInside_of_all {V : View}
    (h : ∀ x < fs.fatSz32 * 128, V.next x = 0 ∨ V.next x = 1 ∨ endOfChain ≤ V.next x ∨
      V.next x < fs.fatSz32 * 128) (hc : c < fs.fatSz32 * 128) : LinksInside fs V c := by
  have hstep (x y : Nat) (hx : x < fs.fatSz32 * 128) (hxy : V.Follows x y) :
      y < fs.fatSz32 * 128 := by
    obtain ⟨rfl, h2, hend⟩ := hxy
    have := h x hx
    omega
  intro x y hx
  refine hstep x y ?_
  induction hx with
  | refl => exact hc
  | tail _ hlink ih => exact hstep _ _ ih hlink

end Links

/-- `FreeChain` ends on every FAT, however its links run. The clusters that are reached are free
then, the other entries are as they were, and the sectors of the second FAT that were written
are those of the first. -/
theorem free_chain_frees_reached (fs : FAT32Driver) (dev : BlockDevice)
    (hsize : fs.fatSz32 * 128 ≤ endOfChain)
    (hfat : ∀ x < fs.fatSz32 * 128, (fs.view dev.store).next x = 0 ∨
      (fs.view dev.store).next x = 1 ∨ endOfChain ≤ (fs.view dev.store).next x ∨
      (fs.view dev.store).next x < fs.fatSz32 * 128)
    (start : Nat) (h2 : 2 ≤ start) (hstart : start < fs.fatSz32 * 128) :
    ∃ dev', fs.freeChain dev start = some dev' ∧
      (∀ x < fs.fatSz32 * 128, (fs.view dev.store).Reaches start x →
        (fs.view dev'.store).fat x = 0) ∧
      (∀ x < fs.fatSz32 * 128, ¬(fs.view dev.store).Reaches start x →
        (fs.view dev'.store).fat x = (fs.view dev.store).fat x) ∧
      ∀ w ∈ dev'.log.drop dev.log.length, fs.fatStartLba + fs.fatSz32 ≤ w.1 →
        dev'.store w.1 = dev'.store (w.1 - fs.fatSz32) := by
  obtain ⟨dev', heq, hfreed, hkept, ⟨ws, is, hlog, hwrites, hsame, -⟩, -⟩ :=
    freeChain_reached (linksInside_of_all hfat hstart) h2 hstart (Nat.lt_of_lt_of_le hstart hsize)
  refine ⟨dev', heq, fun x _ => hfreed x, fun x _ => hkept x, fun w hw hlba => ?_⟩
  rw [hlog, List.drop_left] at hw
  obtain ⟨i, hi, hwi⟩ := hwrites w hw
  obtain ⟨hlt, hboth⟩ := hsame i hi
  rcases hwi with hwi | hwi
  · omega
  · rw [hwi, hboth]
    congr 1
    omega

/-- The clusters 3 and 4 of a FAT are a cycle, to which cluster 2 leads. -/
def cyclicDisk : Disk := fun lba k =>
  if lba < 2 then
    ([0xF8#8, 0xFF#8, 0xFF#8, 0x0F#8, 0xFF#8, 0xFF#8, 0xFF#8, 0x0F#8, 3#8, 0#8, 0#8, 0#8,
      4#8, 0#8, 0#8, 0#8, 3#8, 0#8, 0#8, 0#8] : List Byte).getD k 0
  else 0

/-- From cluster 2 on the clusters 2, 3 and 4 are freed. -/
theorem free_chain_frees_cycle : ∃ dev',
    smallVolume.freeChain ⟨cyclicDisk, []⟩ 2 = some dev' ∧
      (smallVolume.view dev'.store).fat 4 = 0 ∧
      (smallVolume.view dev'.store).fat 1 = 0x0FFFFFFF := by
  have heval : (∀ x < 128, (smallVolume.view cyclicDisk).next x = 0 ∨
        (smallVolume.view cyclicDisk).next x = 1 ∨
        endOfChain ≤ (smallVolume.view cyclicDisk).next x ∨
        (smallVolume.view cyclicDisk).next x < 128) ∧
      (smallVolume.view cyclicDisk).next 2 = 3 ∧
      (smallVolume.view cyclicDisk).next 3 = 4 ∧
      (smallVolume.view cyclicDisk).fat 1 = 0x0FFFFFFF := by
    decide +kernel
  obtain ⟨hlinks, h23, h34, h1⟩ := heval
  obtain ⟨dev', heq, hfreed, hkept, -⟩ := free_chain_frees_reached smallVolume ⟨cyclicDisk, []⟩
    (by decide) hlinks 2 (by decide) (by decide)
  refine ⟨dev', heq, hfreed 4 (by decide) ?_, (hkept 1 (by decide) fun hreach => ?_).trans h1⟩
  · exact .tail (.tail .refl ⟨h23.symm, by decide, by decide⟩) ⟨h34.symm, by decide, by decide⟩
  · rcases hreach.cases_tail with h | ⟨_, -, -, h, -⟩ <;> exact absurd h (by decide)


/-! ## Deleting -/

/-- An entry of the second FAT. -/
def FAT32Driver.backupFat (fs : FAT32Driver) (d : Disk) (c : Nat) : Nat :=
  fatEntry (d (fs.fatStartLba + fs.fatSz32 + c / 128)) (c % 128)

/-- The sectors of the two FATs. -/
def FAT32Driver.InFats (fs : FAT32Driver) (lba : Nat) : Prop :=
  fs.fatStartLba ≤ lba ∧ lba < fs.fatStartLba + 2 * fs.fatSz32

/-- The slot has the only live entry of the directory that the name matches. -/
def OnlyMatch (fs : FAT32Driver) (V : View) (d : Nat) (name : List Byte) (s : Slot) : Prop :=
  ∃ ds, ClusterChain fs V d ds ∧ s ∈ V.live (fs.slots ds) ∧
    isNameEqual (V.entry s).name name = true ∧
    ∀ t ∈ V.live (fs.slots ds), isNameEqual (V.entry t).name name = true → t = s

section Delete

variable {fs : FAT32Driver} {dev dev₁ : BlockDevice} {name : List Byte} {d : Nat} {s : Slot}
  {cs : List Nat}

theorem OnlyMatch.find {V : View} (h : OnlyMatch fs V d name s) :
    ∃ ds, ClusterChain fs V d ds ∧ V.find name (fs.slots ds) = some s := by
  obtain ⟨ds, hc, hs, hmatch, honly⟩ := h
  refine ⟨ds, hc, ?_⟩
  cases hfind : V.find name (fs.slots ds) with
  | none => exact absurd hmatch (List.find?_eq_none.mp hfind s hs)
  | some t => rw [honly t (mem_of_find hfind) (name_of_find hfind)]

/-- Marking an entry as deleted changes its first byte. -/
theorem splice_delete (buf : Buffer) (i k : Nat) :
    splice buf (32 * i) (dirEntry buf i).delete k = if k = 32 * i then 0xE5#8 else buf k := by
  rw [splice]
  by_cases hle : 32 * i ≤ k
  · rw [if_pos hle]
    obtain ⟨j, rfl⟩ := Nat.exists_eq_add_of_le hle
    rw [Nat.add_sub_cancel_left]
    cases j with
    | zero => rw [Nat.add_zero, if_pos rfl]; rfl
    | succ j =>
      rw [if_neg (by omega), DirectoryEntry.delete, List.getElem?_cons_succ, List.getElem?_drop,
        dirEntry, getElem?_slice, Nat.add_comm 1 j]
      split <;> rfl
  · rw [if_neg hle, if_neg (by omega)]

/-- The sector that is written back with one entry deleted. -/
theorem store_writeSlot_delete (s : Slot) {k : Nat} (hk : k < 512) :
    (fs.writeSlot dev₁ (BlockDevice.read dev (fs.clusterToLBA s.cluster)) s
        (dirEntry (BlockDevice.read dev (fs.clusterToLBA s.cluster)) s.index).delete).store
        (fs.clusterToLBA s.cluster + s.index / 16) k =
      if k = 32 * (s.index % 16) then 0xE5#8
      else dev.store (fs.clusterToLBA s.cluster + s.index / 16) k := by
  have hiff : s.index / 16 * 512 + k = 32 * s.index ↔ k = 32 * (s.index % 16) := by omega
  have hdiv : (s.index / 16 * 512 + k) / 512 = s.index / 16 := by omega
  have hmod : (s.index / 16 * 512 + k) % 512 = k := by omega
  rw [writeSlot, writeSectors_one, Logged.write_store_self, Nat.zero_mul, Nat.zero_add,
    splice_delete, BlockDevice.read, hdiv, hmod]
  simp only [hiff]

/-- `DeleteFile` on the device: in the FATs the entries of the file are cleared, and outside of
them the first byte of the name changes. -/
structure DeletesExactly (fs : FAT32Driver) (d d' : Disk) (s : Slot) (cs : List Nat) : Prop where
  fat : ∀ c < fs.fatSz32 * 128,
    (fs.view d').fat c = if c ∈ cs then 0 else (fs.view d).fat c
  backup : ∀ c < fs.fatSz32 * 128,
    fs.backupFat d' c = if c ∈ cs then 0 else fs.backupFat d c
  marked : d (fs.clusterToLBA s.cluster + s.index / 16) (32 * (s.index % 16)) ≠ 0xE5#8 ∧
    d' (fs.clusterToLBA s.cluster + s.index / 16) (32 * (s.index % 16)) = 0xE5#8
  others : ∀ lba, ∀ k < 512, ¬fs.InFats lba →
    ¬(lba = fs.clusterToLBA s.cluster + s.index / 16 ∧ k = 32 * (s.index % 16)) →
    d' lba k = d lba k

theorem backupFat_eq (hgeo : Geometry fs) {disk : Disk} (hm : Mirrored fs disk) {c : Nat}
    (hc : c < 128) : fs.backupFat disk c = (fs.view disk).fat c := by
  have hpos := hgeo.fatSz32_pos
  rw [view_fat disk (by omega), backupFat, Nat.div_eq_of_lt hc, Nat.add_zero, Nat.add_zero]
  exact fatEntry_congr (Nat.mod_lt _ (by decide)) hm

/-- Only the first sector of each FAT is written while clusters are freed. -/
theorem store_freed (hlow : ∀ x ∈ cs, x < 128) (hfrees : ClustersFreed fs dev dev₁ cs) {lba : Nat}
    (hlba : lba ≠ fs.fatStartLba) (hlba' : lba ≠ fs.fatStartLba + fs.fatSz32) :
    dev₁.store lba = dev.store lba := by
  refine hfrees.frame lba fun x hx hsec => ?_
  have hx := hlow x hx
  rw [EntrySector, Nat.div_eq_of_lt hx] at hsec
  omega

theorem backupFat_freed (hgeo : Geometry fs) (hlow : ∀ x ∈ cs, x < 128)
    (hfrees : ClustersFreed fs dev dev₁ cs) (hm : Mirrored fs dev.store) {c : Nat} :
    fs.backupFat dev₁.store c = if c ∈ cs then 0 else fs.backupFat dev.store c := by
  by_cases hc : c < 128
  · rw [backupFat_eq hgeo (hfrees.both.mirrored hm) hc, backupFat_eq hgeo hm hc, hfrees.view]
    rfl
  · rw [if_neg fun hmem => hc (hlow c hmem), backupFat, backupFat,
      store_freed hlow hfrees (by omega) (by omega)]

theorem DeletesExactly.of_freed (hgeo : Geometry fs) (hm : Mirrored fs dev.store)
    (hlow : ∀ x ∈ cs, x < 128) (hfrees : ClustersFreed fs dev dev₁ cs)
    (hlive : (dirEntry (BlockDevice.read dev (fs.clusterToLBA s.cluster)) s.index).isLive = true) :
    DeletesExactly fs dev.store
      (fs.writeSlot dev₁ (BlockDevice.read dev (fs.clusterToLBA s.cluster)) s
      (dirEntry (BlockDevice.read dev (fs.clusterToLBA s.cluster)) s.index).delete).store s cs := by
  have hpos := hgeo.fatSz32_pos
  have hstart := hgeo.dataStart
  have hle := dataStart_le_clusterToLBA fs s.cluster
  have hkeep {lba : Nat} (hlba : lba ≠ fs.clusterToLBA s.cluster + s.index / 16) :
      (fs.writeSlot dev₁ (BlockDevice.read dev (fs.clusterToLBA s.cluster)) s
        (dirEntry (BlockDevice.read dev (fs.clusterToLBA s.cluster)) s.index).delete).store lba =
        dev₁.store lba := by
    rw [writeSlot, writeSectors_one, Logged.write_store_of_ne _ hlba]
  refine ⟨fun c hc => ?_, fun c hc => ?_, ⟨?_, ?_⟩, fun lba k hk hfats hne => ?_⟩
  · have hsec : c / 128 < fs.fatSz32 := Nat.div_lt_of_lt_mul (by omega)
    have hview : (fs.view dev₁.store).fat c = if c ∈ cs then 0 else (fs.view dev.store).fat c := by
      rw [hfrees.view]
      rfl
    rw [← hview, view_fat _ hc, view_fat _ hc, hkeep (by omega)]
  · have hsec : c / 128 < fs.fatSz32 := Nat.div_lt_of_lt_mul (by omega)
    rw [← backupFat_freed hgeo hlow hfrees hm, backupFat, backupFat, hkeep (by omega)]
  · have hfirst : (dirEntry (BlockDevice.read dev (fs.clusterToLBA s.cluster)) s.index).first =
        dev.store (fs.clusterToLBA s.cluster + s.index / 16) (32 * (s.index % 16)) := by
      have hdiv : 32 * s.index / 512 = s.index / 16 := by omega
      have hmod : 32 * s.index % 512 = 32 * (s.index % 16) := by omega
      show BlockDevice.read dev (fs.clusterToLBA s.cluster) (32 * s.index + 0) = _
      rw [Nat.add_zero, BlockDevice.read, hdiv, hmod]
    rw [DirectoryEntry.isLive, Bool.and_eq_true, Bool.and_eq_true, bne_iff_ne, bne_iff_ne] at hlive
    exact hfirst ▸ hlive.1.2
  · rw [store_writeSlot_delete s (by omega), if_pos rfl]
  · by_cases hlba : lba = fs.clusterToLBA s.cluster + s.index / 16
    · subst hlba
      rw [store_writeSlot_delete s hk, if_neg fun hk0 => hne ⟨rfl, hk0⟩]
    · rw [InFats] at hfats
      rw [hkeep hlba, store_freed hlow hfrees (by omega) (by omega)]

/-- The name is not found when its only entry is deleted. -/
theorem find_deleted (h : WellFormed fs dev.store) {parentCluster : Nat}
    (hd : IsDirectory fs (fs.view dev.store) (fs.directoryOf parentCluster))
    (hs : OnlyMatch fs (fs.view dev.store) (fs.directoryOf parentCluster) name s)
    {dev' : BlockDevice} (hwell : WellFormed fs dev'.store) {ds : List Nat}
    (hdel : Deleted fs (fs.view dev.store) (fs.view dev'.store) (fs.directoryOf parentCluster)
      ds s cs) :
    fs.findDirectoryEntry dev' name parentCluster = none := by
  obtain ⟨es, hes, -, -, honly⟩ := hs
  obtain ⟨pre, post, hchange⟩ := hdel.change
  obtain rfl := hes.unique hchange.chain
  obtain ⟨-, hsame, -⟩ := hdel.frame h.sound
  have hv₁ := hchange.sound h.sound
  have hd₁ := hchange.isDirectory_of h.sound hd
  have hc₁ := hchange.chain_iff.mpr hes
  have hdead :
      (((fs.view dev.store).setSlot s ((fs.view dev.store).entry s).delete).entry s).isLive =
      false := by
    rw [(entry_setSlot _ s (DirectoryEntry.length_delete (length_entry _ s))).1]
    rfl
  rw [findDirectoryEntry, Option.map_eq_none_iff,
    hwell.findSlot_eq ((hsame.isDirectory_iff hv₁).mpr hd₁) (hsame _ _ hd₁ hc₁).1,
    find_congr name fun t ht => hsame.entry hd₁ hc₁ ht]
  exact hchange.find_gone h.sound hdead honly

end Delete

/-- `DeleteFile` of the only file that a name matches returns true, and the name is not found any
more; the chain of the file is cleared in both FATs, and one byte changes outside of them. -/
theorem delete_exactly (fs : FAT32Driver) (dev : BlockDevice) (hgeo : Geometry fs)
    (h : WellFormed fs dev.store) (name : List Byte) (parentCluster : Nat)
    (hd : IsDirectory fs (fs.view dev.store) (fs.directoryOf parentCluster)) (s : Slot)
    (hs : OnlyMatch fs (fs.view dev.store) (fs.directoryOf parentCluster) name s)
    (hfile : ((fs.view dev.store).entry s).isDirectory = false) :
    ∃ dev' cs, fs.deleteFile dev name parentCluster = some (true, dev') ∧
      fs.findDirectoryEntry dev' name parentCluster = none ∧
      FileChain fs (fs.view dev.store) s cs ∧ DeletesExactly fs dev.store dev'.store s cs := by
  obtain ⟨ds, hc, hfind⟩ := hs.find
  have hsearch : (fs.searchLoop dev name loopBound (fs.directoryOf parentCluster)).join =
      some s := by
    rw [searchLoop_eq hc (h.sound.ended _ ds hd hc) (ClusterChain.length_lt hc), Option.join_some,
      hfind]
  obtain ⟨dev', heq, hwell⟩ := h.deleteFile hgeo hd hsearch hfile
  obtain ⟨ds', cs', dev'', heq', -, hdel⟩ := deleteFile_deleted hgeo h.sound hd hsearch hfile
  obtain rfl : dev'' = dev' := by
    rw [heq, Option.some.injEq, Prod.mk.injEq] at heq'
    exact heq'.2.symm
  have hnone := find_deleted h hd hs hwell hdel
  rcases @deleteFile_cases fs dev name _ parentCluster ds hgeo h.sound rfl hd hc with
    ⟨hfail, -⟩ | ⟨t, cs, dev₁, hfind', hchain, -, hfrees, heq₁⟩
  · rw [hfind] at hfail
    cases hfail
  · obtain rfl : t = s := Option.some.inj (hfind'.symm.trans hfind)
    have hlive := mem_of_find hfind
    have hentry := slotEntry_eq hc (live_subset _ _ t hlive)
    rw [slotEntry] at hentry
    have hlow : ∀ x ∈ cs, x < 128 := by
      rcases hchain with ⟨-, rfl⟩ | hcs
      · simp
      · have h0 : ((fs.view dev.store).entry t).firstCluster ≠ 0 := by
          have := hcs.valid_head.1
          omega
        exact h.low (.slot t) _ cs ⟨hdel.listed, rfl, h0⟩ hcs
    rw [heq, Option.some.injEq, Prod.mk.injEq] at heq₁
    refine ⟨dev'', cs, heq, hnone, hchain, ?_⟩
    rw [heq₁.2, ← hentry]
    exact .of_freed hgeo h.mirrored hlow hfrees (hentry ▸ isLive_of_mem_live hlive)

/-- The file `A` is deleted as `a`. -/
theorem delete_exactly_small : ∃ dev' cs,
    smallVolume.deleteFile oneFileDisk [0x61#8] 0 = some (true, dev') ∧
      smallVolume.findDirectoryEntry dev' [0x61#8] 0 = none ∧
      DeletesExactly smallVolume oneFileDisk.store dev'.store ⟨2, 0⟩ cs := by
  have heval : endOfChain ≤ (smallVolume.view oneFileDisk.store).fat 2 % 2 ^ 28 ∧
      (smallVolume.view oneFileDisk.store).live (smallVolume.slots [2]) = [⟨2, 0⟩] ∧
      isNameEqual ((smallVolume.view oneFileDisk.store).entry ⟨2, 0⟩).name [0x61#8] = true ∧
      ((smallVolume.view oneFileDisk.store).entry ⟨2, 0⟩).isDirectory = false := by
    decide +kernel
  obtain ⟨hroot, hlive, hname, hfile⟩ := heval
  have honly : OnlyMatch smallVolume (smallVolume.view oneFileDisk.store)
      (smallVolume.directoryOf 0)
      [0x61#8] ⟨2, 0⟩ := by
    refine ⟨[2], root_chain hroot, by rw [hlive]; simp, hname, fun t ht _ => ?_⟩
    rw [hlive] at ht
    exact List.mem_singleton.mp ht
  obtain ⟨dev', cs, heq, hnone, -, hexact⟩ := delete_exactly smallVolume oneFileDisk
    smallVolume_geometry oneFileDisk_wellFormed [0x61#8] 0 .root ⟨2, 0⟩ honly hfile
  exact ⟨dev', cs, heq, hnone, hexact⟩

end Sylphia
