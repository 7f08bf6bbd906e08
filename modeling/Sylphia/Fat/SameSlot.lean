import Sylphia.Fat.Termination

/-!
# One name, three searches

`FindDirectoryEntry` stops at the end mark of a directory, and at a cluster number below 2. The
searches of `DeleteFile` and of the last pass of `AppendFile` go on behind both. They get to the
same slot as long as the first live entry of the name is in front of these.
-/

namespace Sylphia

open Bytes WriteLog LinkWalk

/-- The device when the last pass of `AppendFile` starts, and what the pass is given. -/
structure LastPass where
  dev : BlockDevice
  oldSize : Nat
  firstCluster : Nat

namespace FAT32Driver

variable (fs : FAT32Driver) (dev : BlockDevice)

/-- A number below 2 or an end mark comes within 10000 clusters. -/
def ShortChain (d : Nat) : Prop :=
  ∃ m ≤ 10000, ((fs.getNextCluster dev)^[m] d < 2 ∨ endOfChain ≤ (fs.getNextCluster dev)^[m] d) ∧
    ∀ k < m, 2 ≤ (fs.getNextCluster dev)^[k] d ∧ (fs.getNextCluster dev)^[k] d < endOfChain

/-- `DeleteFile` returns, and it marks the slot of `FindDirectoryEntry`, or returns `false` where
that finds none. -/
def DeletesFound (name : List Byte) (parentCluster : Nat) : Prop :=
  ∃ n dev', fs.searchLoop dev name n (fs.directoryOf parentCluster) =
      some (fs.findSlot dev name parentCluster) ∧
    fs.deleteWithin n dev name parentCluster =
      some ((fs.findSlot dev name parentCluster).isSome, dev') ∧
    ∀ s ∈ fs.findSlot dev name parentCluster, ∃ freed, dev' =
      fs.writeSlot freed (BlockDevice.read dev (fs.clusterToLBA s.cluster)) s
        (fs.slotEntry dev s).delete

/-- `AppendFile` up to its last pass, within `n` rounds of each loop, if it gets there. -/
def beforeLastPass (n : Nat) (name : CString) (data : Buffer) (size parentCluster : Nat) :
    Option LastPass :=
  if size = 0 then none
  else
    match fs.findDirectoryEntry dev name.chars (fs.directoryOf parentCluster) with
    | none => none
    | some entry =>
      if entry.firstCluster = 0 then
        let (first, dev) := fs.allocateCluster dev
        if first = 0 then none
        else (fs.appendDataWithin n dev data size entry.fileSize first).map fun dev =>
          ⟨dev, entry.fileSize, first⟩
      else
        match fs.lastLoop dev n entry.firstCluster with
        | none => none
        | some last => (fs.appendDataWithin n dev data size entry.fileSize last).map fun dev =>
          ⟨dev, entry.fileSize, entry.firstCluster⟩

/-- The last pass of `AppendFile` returns, and it is this slot that it updates. -/
def Updates (p : LastPass) (name : List Byte) (targetDir size : Nat) (s : Slot) : Prop :=
  ∃ n e, fs.searchLoop p.dev name n targetDir = some (some s) ∧
    fs.updateWithin n p.dev name targetDir p.oldSize size p.firstCluster =
      some (fs.writeSlot p.dev (BlockDevice.read p.dev (fs.clusterToLBA s.cluster)) s e)

end FAT32Driver

open FAT32Driver

section Searches

variable {fs : FAT32Driver} {dev dev' : BlockDevice} {name : List Byte} {d k n : Nat} {s : Slot}
  {p : LastPass}

/-- `DeleteFile` marks the slot that its search gets to. -/
theorem deleteWithin_of_search {parentCluster : Nat} {found : Option Slot}
    (h : fs.searchLoop dev name n (fs.directoryOf parentCluster) = some found) :
    ∃ m dev', n ≤ m ∧ fs.deleteWithin m dev name parentCluster = some (found.isSome, dev') ∧
      ∀ s ∈ found, ∃ freed, dev' =
        fs.writeSlot freed (BlockDevice.read dev (fs.clusterToLBA s.cluster)) s
          (fs.slotEntry dev s).delete := by
  cases found with
  | none =>
    refine ⟨n, dev, le_rfl, ?_, fun s hs => by cases hs⟩
    rw [deleteWithin, h]
    rfl
  | some s =>
    obtain ⟨m, freed, hfree⟩ : ∃ m freed,
        (if (fs.slotEntry dev s).firstCluster = 0 then some dev
          else fs.freeChainLoop m dev (fs.slotEntry dev s).firstCluster) = some freed ∧ n ≤ m := by
      obtain ⟨m, freed, hfree⟩ := freeChainLoop_ends fs dev (fs.slotEntry dev s).firstCluster
      split_ifs
      · exact ⟨n, dev, rfl, le_rfl⟩
      · exact ⟨max n m, freed, freeChainLoop_of_le hfree (Nat.le_max_right n m),
          Nat.le_max_left n m⟩
    refine ⟨m, fs.writeSlot freed (BlockDevice.read dev (fs.clusterToLBA s.cluster)) s
      (fs.slotEntry dev s).delete, hfree.2, ?_, fun t ht => ?_⟩
    · rw [deleteWithin, searchLoop_of_le h hfree.2]
      exact congrArg (Option.map _) hfree.1
    · cases ht
      exact ⟨freed, rfl⟩

/-- On a directory with a short chain, `DeleteFile` and `FindDirectoryEntry` agree if and only if
the links lead to an end mark or to a match, and the first match is in front of the end marks. -/
theorem deletesFound_iff {parentCluster : Nat}
    (hshort : fs.ShortChain dev (fs.directoryOf parentCluster)) :
    fs.DeletesFound dev name parentCluster ↔ fs.SearchEnds dev name (fs.directoryOf parentCluster) ∧
      ∀ k s, fs.FirstMatch dev name (fs.directoryOf parentCluster) k s →
        fs.InFront dev name (fs.directoryOf parentCluster) k := by
  rw [← exists_searchLoop_iff]
  constructor
  · rintro ⟨n, dev', hsearch, -, -⟩
    refine ⟨⟨n, _, hsearch⟩, fun k s hfirst => ?_⟩
    rw [searchLoop_eq_follow, follow_eq_some_iff] at hsearch
    obtain ⟨l, -, hends⟩ := hsearch
    obtain ⟨rfl, hfound⟩ := hends.unique (endsAt_slot_iff.mpr hfirst)
    obtain ⟨k', -, hfirst', hfront⟩ := findLoop_eq_some_iff.mp hfound
    obtain ⟨rfl, -⟩ := (endsAt_slot_iff.mpr hfirst').unique (endsAt_slot_iff.mpr hfirst)
    exact hfront
  · rintro ⟨⟨n, found, hsearch⟩, hfront⟩
    rw [searchLoop_eq_follow, follow_eq_some_iff] at hsearch
    obtain ⟨k, hk, hends⟩ := hsearch
    have hfound : fs.findSlot dev name parentCluster = found := by
      cases found with
      | none =>
        refine Option.eq_none_iff_forall_ne_some.mpr fun s hs => ?_
        obtain ⟨l, -, hfirst, -⟩ := findLoop_eq_some_iff.mp hs
        cases (hends.unique (endsAt_slot_iff.mpr hfirst)).2
      | some s =>
        have hfirst := endsAt_slot_iff.mp hends
        have hahead := hfront k s hfirst
        refine findLoop_eq_some_iff.mpr ⟨k, ?_, hfirst, hahead⟩
        obtain ⟨m, hm, hstop, -⟩ := hshort
        by_contra hge
        have hmk : m ≤ k := by omega
        have hlt : (fs.getNextCluster dev)^[m] (fs.directoryOf parentCluster) < endOfChain := by
          rcases Nat.lt_or_eq_of_le hmk with hlt | rfl
          · exact (hfirst.2.2.2 m hlt).1
          · rw [hfirst.1]
            exact hfirst.2.1
        have hvalid := hahead.1 m hmk
        omega
    rw [DeletesFound, hfound]
    have hsearch : fs.searchLoop dev name (k + 1) (fs.directoryOf parentCluster) = some found := by
      rw [searchLoop_eq_follow, follow_eq_some_iff]
      exact ⟨k, Nat.lt_succ_self k, hends⟩
    obtain ⟨m, dev', hle, hdelete, hmark⟩ := deleteWithin_of_search hsearch
    exact ⟨m, dev', searchLoop_of_le hsearch hle, hdelete, hmark⟩

/-- The last pass of `AppendFile` updates the first match. -/
theorem updates_iff {size : Nat} :
    fs.Updates p name d size s ↔ ∃ k, fs.FirstMatch p.dev name d k s := by
  simp only [← endsAt_slot_iff, ← exists_follow_eq_some_iff, ← searchLoop_eq_follow]
  constructor
  · rintro ⟨n, -, hsearch, -⟩
    exact ⟨n, hsearch⟩
  · rintro ⟨n, hsearch⟩
    exact ⟨n, _, hsearch, by rw [updateWithin, hsearch]⟩

/-- `AppendFile` is what leads to its last pass, and the last pass. -/
theorem appendWithin_of_lastPass {name : CString} {data : Buffer} {size parentCluster : Nat}
    (h : fs.beforeLastPass dev n name data size parentCluster = some p) (hn : 10001 < n) :
    fs.appendWithin n dev name data size parentCluster =
      fs.updateWithin n p.dev name.chars (fs.directoryOf parentCluster) p.oldSize size
        p.firstCluster := by
  rw [beforeLastPass] at h
  rw [appendWithin]
  split_ifs at h ⊢
  dsimp only at h ⊢
  rw [findWithin_eq hn]
  cases hfind : fs.findDirectoryEntry dev name.chars (fs.directoryOf parentCluster) with
  | none =>
    rw [hfind] at h
    cases h
  | some entry =>
    rw [hfind] at h
    dsimp only at h ⊢
    split_ifs at h ⊢
    · obtain ⟨dev₁, hdev₁, rfl⟩ := Option.map_eq_some_iff.mp h
      rw [appendFromWithin, hdev₁]
    · cases hlast : fs.lastLoop dev n entry.firstCluster with
      | none =>
        rw [hlast] at h
        cases h
      | some last =>
        rw [hlast] at h
        obtain ⟨dev₁, hdev₁, rfl⟩ := Option.map_eq_some_iff.mp h
        dsimp only
        rw [appendFromWithin, hdev₁]

/-- Clusters in which a search finds a slot have sectors. -/
theorem secPerClus_pos_of_firstMatch (h : fs.FirstMatch dev name d k s) : 1 ≤ fs.secPerClus := by
  by_contra hsec
  have hslots : fs.slotsPerCluster = 0 := by
    rw [slotsPerCluster]
    omega
  have hscan := h.2.2.1
  rw [hslots] at hscan
  cases hscan

/-- The last pass starts on the device with the data written. -/
theorem dev_of_beforeLastPass (hsec : 1 ≤ fs.secPerClus) {name : CString} {data : Buffer}
    {size parentCluster : Nat}
    (hpass : fs.beforeLastPass dev n name data size parentCluster = some p)
    (hfind : fs.findSlot dev name.chars parentCluster = some s) :
    size ≠ 0 ∧
      (((fs.allocateCluster dev).1 ≠ 0 ∧ p.dev = fs.appendData (fs.allocateCluster dev).2 data size
          (fs.slotEntry dev s).fileSize (fs.allocateCluster dev).1) ∨
        (fs.slotEntry dev s).firstCluster ≠ 0 ∧
          ∃ last, fs.IsLast dev (fs.slotEntry dev s).firstCluster last ∧
            p.dev = fs.appendData dev data size (fs.slotEntry dev s).fileSize last) := by
  have hentry : fs.findDirectoryEntry dev name.chars (fs.directoryOf parentCluster) =
      some (fs.slotEntry dev s) := findDirectoryEntry_eq_some_iff.mpr ⟨s, hfind, rfl⟩
  have hsize : size ≠ 0 := by
    intro h
    rw [beforeLastPass, if_pos h] at hpass
    cases hpass
  rw [beforeLastPass, if_neg hsize, hentry] at hpass
  dsimp only at hpass
  refine ⟨hsize, ?_⟩
  by_cases h0 : (fs.slotEntry dev s).firstCluster = 0
  · by_cases hc0 : (fs.allocateCluster dev).1 = 0
    · rw [if_pos h0, if_pos hc0] at hpass
      cases hpass
    · rw [if_pos h0, if_neg hc0] at hpass
      obtain ⟨dev₁, hdata, hp⟩ := Option.map_eq_some_iff.mp hpass
      have hdev := appendDataWithin_sound hsec hdata
      refine Or.inl ⟨hc0, ?_⟩
      rw [← hp, ← hdev]
  · rw [if_neg h0] at hpass
    cases hlast : fs.lastLoop dev n (fs.slotEntry dev s).firstCluster with
    | none =>
      rw [hlast] at hpass
      cases hpass
    | some last =>
      rw [hlast] at hpass
      obtain ⟨dev₁, hdata, rfl⟩ := Option.map_eq_some_iff.mp hpass
      exact Or.inr ⟨h0, last, exists_lastLoop_iff.mp ⟨n, hlast⟩,
        appendDataWithin_sound hsec hdata⟩

/-- The last pass of `AppendFile` updates the slot of the lookup where the data are beside the way
to it. -/
theorem updates_of_beside {name : CString} {data : Buffer} {size parentCluster : Nat}
    (hbeside : fs.AppendsBeside dev name.chars size parentCluster)
    (hpass : fs.beforeLastPass dev n name data size parentCluster = some p)
    (hfind : fs.findSlot dev name.chars parentCluster = some s) :
    fs.Updates p name.chars (fs.directoryOf parentCluster) size s := by
  obtain ⟨k, -, hfirst, -⟩ := findLoop_eq_some_iff.mp hfind
  obtain ⟨hsize, ⟨hc0, hdev⟩ | ⟨h0, last, hlast, hdev⟩⟩ :=
    dev_of_beforeLastPass (secPerClus_pos_of_firstMatch hfirst) hpass hfind
  · rw [updates_iff, hdev]
    exact hbeside.firstMatch_new hsize hfind hc0
  · rw [updates_iff, hdev]
    exact hbeside.firstMatch_last hsize hfind h0 hlast

/-- `DeleteFile` marks the slot that `FindDirectoryEntry` finds if and only if no end mark is in
front of the first live entry of the name. The last pass of `AppendFile`, with which it ends,
updates the slot of its lookup where the data are beside the way to it. -/
theorem searches_agree_when {parentCluster : Nat} (name : CString)
    (hshort : fs.ShortChain dev (fs.directoryOf parentCluster)) :
    (fs.DeletesFound dev name.chars parentCluster ↔
      fs.SearchEnds dev name.chars (fs.directoryOf parentCluster) ∧
        ∀ k s, fs.FirstMatch dev name.chars (fs.directoryOf parentCluster) k s →
          fs.InFront dev name.chars (fs.directoryOf parentCluster) k) ∧
    ∀ n data size p, fs.beforeLastPass dev n name data size parentCluster = some p →
      (10001 < n → fs.appendWithin n dev name data size parentCluster =
        fs.updateWithin n p.dev name.chars (fs.directoryOf parentCluster) p.oldSize size
          p.firstCluster) ∧
      (fs.AppendsBeside dev name.chars size parentCluster →
        ∀ s, fs.findSlot dev name.chars parentCluster = some s →
          fs.Updates p name.chars (fs.directoryOf parentCluster) size s) :=
  ⟨deletesFound_iff hshort, fun _ _ _ _ hpass =>
    ⟨appendWithin_of_lastPass hpass, fun hbeside _ => updates_of_beside hbeside hpass⟩⟩

end Searches

/-- The file `A` is the first match in the root directory, before and after data are written. -/
theorem searches_agree_small :
    smallVolume.DeletesFound oneFileDisk [0x61#8] 0 ∧
      ∃ p, smallVolume.beforeLastPass oneFileDisk 3 ⟨[0x61#8], []⟩ (fun _ => 0) 1 0 = some p ∧
        smallVolume.Updates p [0x61#8] (smallVolume.directoryOf 0) 1 ⟨2, 0⟩ := by
  have heval : endOfChain ≤ smallVolume.getNextCluster oneFileDisk 2 ∧
      smallVolume.findSlot oneFileDisk [0x61#8] 0 = some ⟨2, 0⟩ ∧
      (smallVolume.beforeLastPass oneFileDisk 3 ⟨[0x61#8], []⟩ (fun _ => 0) 1 0).isSome := by
    decide +kernel
  obtain ⟨hend, hfind, hpass⟩ := heval
  obtain ⟨p, hp⟩ := Option.isSome_iff_exists.mp hpass
  have hshort : smallVolume.ShortChain oneFileDisk (smallVolume.directoryOf 0) := by
    refine ⟨1, by decide, Or.inr hend, fun k hk => ?_⟩
    obtain rfl : k = 0 := by omega
    decide
  have hagree := searches_agree_when ⟨[0x61#8], []⟩ hshort
  refine ⟨hagree.1.mpr ⟨⟨1, Or.inl hend⟩, fun k s hfirst => ?_⟩, p, hp,
    (hagree.2 3 _ 1 p hp).2 (appendsBeside_oneFile 1) ⟨2, 0⟩ hfind⟩
  obtain rfl := firstMatch_oneFile hfirst
  refine ⟨fun j hj => ?_, fun j hj => absurd hj (Nat.not_lt_zero j)⟩
  obtain rfl : j = 0 := by omega
  decide

/-- The root directory ends in its first cluster; its second one has a live entry `A`. -/
def staleDisk : Disk := fun lba k =>
  if lba < 2 then
    ([0xF8#8, 0xFF#8, 0xFF#8, 0x0F#8, 0xFF#8, 0xFF#8, 0xFF#8, 0x0F#8, 3#8, 0#8, 0#8, 0#8,
      0xFF#8, 0xFF#8, 0xFF#8, 0x0F#8] : List Byte).getD k 0
  else if lba = 3 then (DirectoryEntry.create (to83Format [0x61#8]) 0 0 0x20#8).getD k 0
  else 0

/-- The root directory has the entries `B` and `A`, and the data of `A` are the root directory. -/
def crossedDisk : Disk := fun lba k =>
  if lba < 2 then
    ([0xF8#8, 0xFF#8, 0xFF#8, 0x0F#8, 0xFF#8, 0xFF#8, 0xFF#8, 0x0F#8, 0xFF#8, 0xFF#8, 0xFF#8,
      0x0F#8] : List Byte).getD k 0
  else if lba = 2 then
    (DirectoryEntry.create (to83Format [0x62#8]) 0 0 0x20#8 ++
      DirectoryEntry.create (to83Format [0x61#8]) 2 32 0x20#8).getD k 0
  else 0

/-- `DeleteFile` deletes an entry that `FindDirectoryEntry` does not find, and the last pass of
`AppendFile` does not find the entry that its lookup found. -/
theorem searches_disagree :
    (smallVolume.ShortChain ⟨staleDisk, []⟩ (smallVolume.directoryOf 0) ∧
      smallVolume.findDirectoryEntry ⟨staleDisk, []⟩ [0x61#8] 0 = none ∧
      (smallVolume.deleteWithin 3 ⟨staleDisk, []⟩ [0x61#8] 0).map Prod.fst = some true) ∧
    (smallVolume.ShortChain ⟨crossedDisk, []⟩ (smallVolume.directoryOf 0) ∧
      smallVolume.findSlot ⟨crossedDisk, []⟩ [0x61#8] 0 = some ⟨2, 1⟩ ∧
      (smallVolume.beforeLastPass ⟨crossedDisk, []⟩ 2 ⟨[0x61#8], []⟩ (fun _ => 0) 1 0).map (fun p =>
        smallVolume.searchLoop p.dev [0x61#8] 2 (smallVolume.directoryOf 0)) =
          some (some none)) := by
  have heval : smallVolume.getNextCluster ⟨staleDisk, []⟩ 2 = 3 ∧
      endOfChain ≤ smallVolume.getNextCluster ⟨staleDisk, []⟩ 3 ∧
      endOfChain ≤ smallVolume.getNextCluster ⟨crossedDisk, []⟩ 2 := by
    decide +kernel
  obtain ⟨hnext, hstale, hcrossed⟩ := heval
  refine ⟨⟨⟨2, by decide, Or.inr ?_, fun k hk => ?_⟩, by decide +kernel, by decide +kernel⟩,
    ⟨1, by decide, Or.inr hcrossed, fun k hk => ?_⟩, by decide +kernel, by decide +kernel⟩
  · rwa [← hnext] at hstale
  · rcases Nat.lt_or_ge k 1 with h0 | h1
    · obtain rfl : k = 0 := by omega
      decide
    · obtain rfl : k = 1 := by omega
      have hone : (smallVolume.getNextCluster ⟨staleDisk, []⟩)^[1] (smallVolume.directoryOf 0) =
          3 :=
        hnext
      rw [hone]
      decide
  · obtain rfl : k = 0 := by omega
    decide

end Sylphia
