import Sylphia.Fat.EnsureDirectory
import Sylphia.Fat.LastWrite

/-!
# A new file is read back

`WriteFile` under a name in the 8.3 format, and `AppendFile` under a name that is not there,
make an entry of their own. The first is always found again; the second copies eleven bytes of
the name as they are.
-/

namespace Sylphia

open Bytes WriteLog Chain FAT32Driver

section Write

variable {fs : FAT32Driver} {dev : BlockDevice} {x : List Byte} {data : Buffer}
  {size n parentCluster : Nat}

theorem Component.names (hx : Component x) : Names x (to83Format x) :=
  ⟨hx.convertName_eq, hx.ne_nil, hx.slash_not_mem, hx.length_le.trans (by decide)⟩

/-- A file that is written under a new component is read back as it was written. -/
theorem write_read_back (hgeo : Geometry fs) (h : WellFormed fs dev.store)
    (hd : IsDirectory fs (fs.view dev.store) (fs.directoryOf parentCluster)) (hx : Component x)
    (habsent : ∀ ds, ClusterChain fs (fs.view dev.store) (fs.directoryOf parentCluster) ds →
      ∀ t ∈ (fs.view dev.store).live (fs.slots ds),
        isNameEqual ((fs.view dev.store).entry t).name x = false)
    (hsize : 1 ≤ size) (h32 : size < 2 ^ 32)
    (hroom : fs.clustersFor size ≤ (fs.view dev.store).freeClusters.length)
    (hslot : FreeSlot fs (fs.view dev.store) (fs.directoryOf parentCluster)) (hn : size ≤ n) :
    fs.readFile (fs.writeFile dev (to83Format x) data size parentCluster) x n parentCluster =
      (size, slice data 0 size) := by
  obtain ⟨ds, hc⟩ := h.sound.directory_chain hd
  exact writeFile_read_back hgeo h.sound hd hc (h.take_chain hd hc) (hx.newName habsent)
    (Nat.one_le_iff_ne_zero.mp hsize) h32 hroom hslot hx.names hn

/-- `a.b` is written to a volume that was just formatted, with more data than one cluster has. -/
theorem write_read_back_small : Component [0x61#8, 0x2E#8, 0x62#8] ∧
    smallVolume.readFile (smallVolume.writeFile ⟨blankDisk, []⟩
      (to83Format [0x61#8, 0x2E#8, 0x62#8]) (fun k => BitVec.ofNat 8 k) 600 0)
        [0x61#8, 0x2E#8, 0x62#8] 1000 0 = (600, slice (fun k => BitVec.ofNat 8 k) 0 600) := by
  have hx : Component [0x61#8, 0x2E#8, 0x62#8] :=
    ⟨[0x61#8], [0x62#8], by decide, by decide, by decide, Or.inr ⟨rfl, by decide, by decide⟩⟩
  have heval : endOfChain ≤ (smallVolume.view blankDisk).fat 2 % 2 ^ 28 ∧
      (((smallVolume.view blankDisk).live (smallVolume.slots [2])).all fun t =>
        !isNameEqual ((smallVolume.view blankDisk).entry t).name [0x61#8, 0x2E#8, 0x62#8]) ∧
      smallVolume.clustersFor 600 ≤ (smallVolume.view blankDisk).freeClusters.length ∧
      ((smallVolume.view blankDisk).entry ⟨smallVolume.directoryOf 0, 0⟩).isFree = true := by
    decide +kernel
  obtain ⟨hroot, habsent, hroom, hfree⟩ := heval
  refine ⟨hx, @write_read_back smallVolume ⟨blankDisk, []⟩ [0x61#8, 0x2E#8, 0x62#8]
    (fun k => BitVec.ofNat 8 k) 600 1000 0 smallVolume_geometry blankDisk_wellFormed .root hx ?_
    (by decide) (by decide) hroom ⟨0, by decide, hfree⟩ (by decide)⟩
  intro ds hc t ht
  rw [hc.unique (root_chain hroot)] at ht
  simpa using List.all_eq_true.mp habsent t ht

end Write

/-! ## Appended to nothing -/

/-- The name is found, and its file is read as the data. -/
def ReadsBack (fs : FAT32Driver) (dev : BlockDevice) (name : List Byte) (data : Buffer)
    (size parentCluster : Nat) : Prop :=
  (fs.findDirectoryEntry dev name parentCluster).isSome = true ∧
    ∀ n, size ≤ n → fs.readFile dev name n parentCluster = (size, slice data 0 size)

/-- The first eleven characters of the name are what entries are compared with, and not those
of a deleted entry. -/
def RawName (name : List Byte) : Prop :=
  11 ≤ name.length ∧ name.take 11 = convertName name ∧ name.head? ≠ some 0xE5#8

instance (name : List Byte) : Decidable (RawName name) := inferInstanceAs (Decidable (_ ∧ _))

section Eleven

variable {name : CString}

theorem CString.getD_eleven (hne : name.chars ≠ []) :
    name.eleven.getD 0 0 = name.chars.head hne := by
  obtain ⟨c, cs, hcs⟩ := List.exists_cons_of_ne_nil hne
  simp [CString.eleven, hcs]

private theorem toUpper_ne_zero {c : Byte} (hc : c ≠ 0) : toUpper c ≠ 0 := by
  revert c
  decide

/-- What names are compared with has no NUL. -/
theorem zero_not_mem_convertName {name : List Byte} (h : 0 ∉ name) : 0 ∉ convertName name := by
  have hpart {n : Nat} {cs : List Byte} (hcs : cs ⊆ name) : 0 ∉ padTo n (cs.map toUpper) := by
    rw [padTo, List.mem_append, not_or]
    refine ⟨fun hmem => ?_, fun hmem => absurd (List.eq_of_mem_replicate hmem) (by decide)⟩
    obtain ⟨c, hc, hup⟩ := List.mem_map.mp hmem
    exact toUpper_ne_zero (fun h0 => h (h0 ▸ hcs hc)) hup
  rw [convertName]
  split
  · have hwhole := @hpart 0 name (List.Subset.refl _)
    rwa [padTo, Nat.zero_sub, List.replicate_zero, List.append_nil] at hwhole
  · rw [List.mem_append, not_or]
    refine ⟨hpart fun c hc => ?_, hpart fun c hc => ?_⟩
    · exact (List.takeWhile_subset _) (List.mem_of_mem_take hc)
    · exact (List.dropWhile_subset _) (List.mem_of_mem_drop (List.mem_of_mem_take hc))

/-- The eleven bytes that are copied match the name only when they are all of the name. -/
theorem isNameEqual_eleven_iff (hnul : 0 ∉ name.chars) :
    isNameEqual name.eleven name.chars = true ↔
      11 ≤ name.chars.length ∧ name.chars.take 11 = convertName name.chars := by
  rw [isNameEqual, beq_iff_eq]
  rcases Nat.lt_or_ge name.chars.length 11 with hlt | hge
  · -- The NUL behind a shorter name is copied too.
    have hmem : (0 : Byte) ∈ name.eleven := by
      rw [CString.eleven, List.append_assoc, List.take_append, List.take_of_length_le hlt.le]
      refine List.mem_append_right _ ?_
      obtain ⟨n, hn⟩ := Nat.exists_eq_succ_of_ne_zero (show 11 - name.chars.length ≠ 0 by omega)
      rw [hn, List.cons_append, List.take_succ_cons]
      exact List.mem_cons_self ..
    refine ⟨fun heq => absurd (heq ▸ hmem) (zero_not_mem_convertName hnul), fun h => ?_⟩
    exact absurd h.1 (Nat.not_le.mpr hlt)
  · have htake : name.eleven = name.chars.take 11 := by
      rw [CString.eleven, List.append_assoc, List.take_append_of_le_length hge]
    rw [htake]
    exact ⟨fun heq => ⟨hge, heq⟩, fun h => h.2⟩

end Eleven

section Missing

variable {fs : FAT32Driver} {dev dev₁ : BlockDevice} {name path : List Byte} {data : Buffer}
  {first size parentCluster : Nat} {ds new : List Nat} {s : Slot}

/-- What a search finds after a new entry was made is the new entry, when it found nothing
before. -/
theorem find_added (hgeo : Geometry fs) (h : WellFormed fs dev.store)
    (hd : IsDirectory fs (fs.view dev.store) (fs.directoryOf parentCluster))
    (hg : Lengthens fs (fs.view dev.store) (fs.view dev₁.store) [] new)
    (hfirst : new.head? = some first) (hname : name.length = 11)
    (hslot : FreeSlot fs (fs.view dev.store) (fs.directoryOf parentCluster))
    (hnone : fs.findDirectoryEntry dev path parentCluster = none)
    (hsome : fs.findSlot (fs.addDirectoryEntry dev₁ name first size 0x20#8 parentCluster) path
      parentCluster = some s) :
    isNameEqual name path = true ∧ name.getD 0 0 ≠ 0xE5#8 := by
  obtain ⟨ds, hc⟩ := h.sound.directory_chain hd
  have habsent := h.absent hd hc hnone
  obtain ⟨hv₁, hsame, -⟩ := hg.within.frame_none h.sound
  have hd₁ := (hsame.isDirectory_iff h.sound).mpr hd
  have hc₁ := (hsame _ ds hd hc).1
  obtain ⟨h2, -, -, h32⟩ := ClusterChain.lt hc₁ hc₁.head_mem
  rcases @addDirectoryEntry_eq fs dev₁ _ name first size parentCluster 0x20#8 rfl h2 h32 with
    ⟨-, hfull⟩ | ⟨i, hi, hfree, hbefore, heq⟩
  · obtain ⟨j, hj, hjfree⟩ := hslot
    rw [← hsame.entry hd hc (mem_slots.mpr ⟨hc.head_mem, hj⟩), hfull j hj] at hjfree
    cases hjfree
  · have hlen := DirectoryEntry.length_create hname first size 0x20#8
    obtain ⟨hview, -⟩ := @writeSlot_view fs (fun _ => True) _ hgeo dev₁
      ⟨fs.directoryOf parentCluster, i⟩ h2 h32 hi _ hlen fun k hk => read_cluster dev₁ h2 h32 hk
    rw [← heq] at hview
    have hc₂ : ClusterChain fs (fs.view (fs.addDirectoryEntry dev₁ name first size 0x20#8
        parentCluster).store) (fs.directoryOf parentCluster) ds :=
      hc₁.congr fun x _ => by rw [hview]; rfl
    rw [← findSlot_directoryOf, findSlot_eq hc₂, h.take_chain hd hc, hview] at hsome
    have hmatch := name_of_find hsome
    have hlive := mem_of_find hsome
    by_cases hs : s = ⟨fs.directoryOf parentCluster, i⟩
    · have hlive := isLive_of_mem_live hlive
      rw [hs, (entry_setSlot _ _ hlen).1] at hmatch hlive
      rw [DirectoryEntry.name_create hname] at hmatch
      rw [DirectoryEntry.isLive, DirectoryEntry.first_create hname, Bool.and_eq_true,
        Bool.and_eq_true, bne_iff_ne, bne_iff_ne] at hlive
      exact ⟨hmatch, hlive.1.2⟩
    · have hold := publish_back hv₁ hd₁ hc₁ hi hfree hbefore hlen
        (acquires_create h.sound hg hname hfirst fun ha => absurd rfl ha) s hlive hs
      rw [hsame.live_eq hd hc] at hold
      rw [(entry_setSlot _ _ hlen).2 s hs, hsame.entry hd hc (live_subset _ _ s hold),
        habsent s hold] at hmatch
      cases hmatch

/-- What fits into the free clusters has less than `2 ^ 32` bytes. -/
theorem size_lt_of_clustersFor (hgeo : Geometry fs) (hroom : fs.clustersFor size ≤ 127) :
    size < 2 ^ 32 := by
  have hspec := (clustersFor_spec (clusterBytes_pos hgeo) size).1
  have hbytes : fs.clusterBytes ≤ 255 * 512 := by
    have := hgeo.secPerClus_lt
    rw [clusterBytes]
    omega
  have hle := Nat.mul_le_mul hroom hbytes
  omega

theorem length_freeClusters_le (V : View) : V.freeClusters.length ≤ 126 := by
  have hle := List.length_filter_le (fun c => V.fat c == 0) (List.range' 2 126)
  rwa [List.length_range'] at hle

/-- A name that is its own form is new where no entry has it. -/
theorem RawName.newName {name : CString} (hraw : RawName name.chars)
    (hne : name.chars ≠ []) (hnul : 0 ∉ name.chars) (h : WellFormed fs dev.store)
    (hd : IsDirectory fs (fs.view dev.store) (fs.directoryOf parentCluster))
    (hnone : fs.findDirectoryEntry dev name.chars parentCluster = none) :
    name.eleven = convertName name.chars ∧
      FatCall.NewName fs (fs.view dev.store) (fs.directoryOf parentCluster) name.eleven := by
  obtain ⟨hlen, hconvert, hbyte⟩ := hraw
  have heleven : name.eleven = convertName name.chars := by
    have hmatch := (isNameEqual_eleven_iff hnul).mpr ⟨hlen, hconvert⟩
    rwa [isNameEqual, beq_iff_eq] at hmatch
  refine ⟨heleven, name.length_eleven, ?_, fun ds hc t ht hname => ?_⟩
  · rw [CString.getD_eleven hne]
    refine ⟨fun h0 => hnul (h0 ▸ List.head_mem _), fun he5 => hbyte ?_⟩
    rw [List.head?_eq_some_head hne, he5]
  · have habsent := h.absent hd hc hnone t ht
    rw [isNameEqual, hname, heleven, beq_self_eq_true] at habsent
    cases habsent

/-- A file that `AppendFile` makes is found under the name it was called with exactly when the
first eleven characters of the name are in the form in which entries are compared. -/
theorem append_missing_iff {name : CString} (hgeo : Geometry fs) (h : WellFormed fs dev.store)
    (hd : IsDirectory fs (fs.view dev.store) (fs.directoryOf parentCluster))
    (hpath : OneSegment name.chars) (hnul : 0 ∉ name.chars)
    (hnone : fs.findDirectoryEntry dev name.chars parentCluster = none) (hsize : 0 < size)
    (hroom : fs.clustersFor size ≤ (fs.view dev.store).freeClusters.length)
    (hslot : FreeSlot fs (fs.view dev.store) (fs.directoryOf parentCluster)) :
    ∃ dev', fs.appendFile dev name data size parentCluster = some dev' ∧
      (ReadsBack fs dev' name.chars data size parentCluster ↔ RawName name.chars) := by
  have hcall : fs.appendFile dev name data size parentCluster =
      some (fs.writeFile dev name.eleven data size parentCluster) :=
    appendFile_new hsize.ne' (Option.map_eq_none_iff.mp hnone)
  refine ⟨_, hcall, fun hback => ?_, fun hraw => ?_⟩
  · obtain ⟨all, dev₁, first, hall, hfirst', -, -, heq⟩ :=
      @writeFile_stored fs dev data size name.eleven parentCluster hgeo hsize.ne' hroom
    obtain ⟨s, hs⟩ : ∃ s, fs.findSlot (fs.writeFile dev name.eleven data size parentCluster)
        name.chars parentCluster = some s := by
      have hsome := hback.1
      rwa [findDirectoryEntry, Option.isSome_map, Option.isSome_iff_exists] at hsome
    rw [heq] at hs
    obtain ⟨hmatch, hbyte⟩ := find_added hgeo h hd hall hfirst' name.length_eleven hslot hnone hs
    rw [CString.getD_eleven hpath.nonempty] at hbyte
    rw [isNameEqual_eleven_iff hnul] at hmatch
    refine ⟨hmatch.1, hmatch.2, fun he5 => hbyte ?_⟩
    rw [List.head?_eq_some_head hpath.nonempty] at he5
    exact Option.some.inj he5
  · obtain ⟨heleven, hnew⟩ := hraw.newName hpath.nonempty hnul h hd hnone
    obtain ⟨ds, hc⟩ := h.sound.directory_chain hd
    have hread (n : Nat) (hn : size ≤ n) :
        fs.readFile (fs.writeFile dev name.eleven data size parentCluster) name.chars n
          parentCluster = (size, slice data 0 size) :=
      writeFile_read_back hgeo h.sound hd hc (h.take_chain hd hc) hnew hsize.ne'
        (size_lt_of_clustersFor hgeo
          (hroom.trans ((length_freeClusters_le _).trans (by decide))))
        hroom hslot ⟨heleven.symm, hpath.nonempty, hpath.slash, hpath.length⟩ hn
    refine ⟨?_, hread⟩
    rw [findDirectoryEntry, Option.isSome_map, Option.isSome_iff_ne_none]
    intro hlost
    have hzero := hread size le_rfl
    rw [readFile, getFileEntry, hpath.resolve, hlost, Option.map_none, Prod.mk.injEq] at hzero
    exact hsize.ne hzero.1

/-- The padded name `A` is found again. -/
theorem append_missing_padded : ∃ dev',
    smallVolume.appendFile ⟨blankDisk, []⟩ ⟨oneLetter 0x41#8, []⟩ (fun _ => 0x2A#8) 3 0 =
    some dev' ∧
      ReadsBack smallVolume dev' (oneLetter 0x41#8) (fun _ => 0x2A#8) 3 0 := by
  have heval : smallVolume.findDirectoryEntry ⟨blankDisk, []⟩ (oneLetter 0x41#8) 0 = none ∧
      smallVolume.clustersFor 3 ≤ (smallVolume.view blankDisk).freeClusters.length ∧
      ((smallVolume.view blankDisk).entry ⟨smallVolume.directoryOf 0, 0⟩).isFree = true := by
    decide +kernel
  obtain ⟨hnone, hroom, hfree⟩ := heval
  obtain ⟨dev', heq, hiff⟩ := @append_missing_iff smallVolume ⟨blankDisk, []⟩ (fun _ => 0x2A#8) 3 0
    ⟨oneLetter 0x41#8, []⟩ smallVolume_geometry blankDisk_wellFormed .root
    ⟨by decide, by decide, by decide⟩ (by decide) hnone (by decide) hroom ⟨0, by decide, hfree⟩
  exact ⟨dev', heq, hiff.mpr (by decide)⟩

/-- `foo.txt`. -/
def fooTxt : List Byte := [0x66#8, 0x6F#8, 0x6F#8, 0x2E#8, 0x74#8, 0x78#8, 0x74#8]

/-- The file that `AppendFile` makes for `foo.txt` is not found. -/
theorem append_missing_dotted : Geometry smallVolume ∧ WellFormed smallVolume blankDisk ∧
    IsDirectory smallVolume (smallVolume.view blankDisk) (smallVolume.directoryOf 0) ∧
    OneSegment fooTxt ∧ Component fooTxt ∧
    smallVolume.findDirectoryEntry ⟨blankDisk, []⟩ fooTxt 0 = none ∧
    smallVolume.clustersFor 3 ≤ (smallVolume.view blankDisk).freeClusters.length ∧
    FreeSlot smallVolume (smallVolume.view blankDisk) (smallVolume.directoryOf 0) ∧
    ∃ dev', smallVolume.appendFile ⟨blankDisk, []⟩ ⟨fooTxt, []⟩ (fun _ => 0x2A#8) 3 0 = some dev' ∧
      ¬ReadsBack smallVolume dev' fooTxt (fun _ => 0x2A#8) 3 0 := by
  have heval : smallVolume.findDirectoryEntry ⟨blankDisk, []⟩ fooTxt 0 = none ∧
      smallVolume.clustersFor 3 ≤ (smallVolume.view blankDisk).freeClusters.length ∧
      ((smallVolume.view blankDisk).entry ⟨smallVolume.directoryOf 0, 0⟩).isFree = true ∧
      ((smallVolume.appendFile ⟨blankDisk, []⟩ ⟨fooTxt, []⟩ (fun _ => 0x2A#8) 3 0).map fun dev' =>
        smallVolume.findDirectoryEntry dev' fooTxt 0) = some none := by
    decide +kernel
  obtain ⟨hnone, hroom, hfree, hlost⟩ := heval
  obtain ⟨dev', heq, hlost⟩ := Option.map_eq_some_iff.mp hlost
  refine ⟨smallVolume_geometry, blankDisk_wellFormed, .root, ⟨by decide, by decide, by decide⟩,
    ⟨[0x66#8, 0x6F#8, 0x6F#8], [0x74#8, 0x78#8, 0x74#8], by decide, by decide, by decide,
      Or.inr ⟨rfl, by decide, by decide⟩⟩, hnone, hroom, ⟨0, by decide, hfree⟩, dev', heq,
    fun hback => ?_⟩
  have hsome := hback.1
  rw [hlost] at hsome
  cases hsome

end Missing

end Sylphia
