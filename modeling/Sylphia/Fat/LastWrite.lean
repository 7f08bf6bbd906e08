import Sylphia.Fat.Incomplete
import Sylphia.Fat.Paths

/-!
# What is written is read

`ReadFile` delivers the data of the first entry with the name. In a run in which every new
entry has a name of its own, that is the data of the last `WriteFile`.
-/

namespace Sylphia

open Bytes WriteLog Chain FAT32Driver

section Write

variable {fs : FAT32Driver} {dev dev₁ dev' : BlockDevice} {V V' V₀ : View} {data : Buffer}
  {c n size remaining offset first prev : Nat} {cs new : List Nat}

/-- `WriteFile` with enough room: the data is in the clusters of the new entry. -/
theorem writeFile_stored {name : List Byte} {parentCluster : Nat} (hg : Geometry fs)
    (hsize : size ≠ 0) (hroom : fs.clustersFor size ≤ (fs.view dev.store).freeClusters.length) :
    ∃ all dev₁ first, Lengthens fs (fs.view dev.store) (fs.view dev₁.store) [] all ∧
      all.head? = some first ∧ all.length = fs.clustersFor size ∧
      Stored fs (fs.view dev₁.store) data size all ∧
      fs.writeFile dev name data size parentCluster =
        fs.addDirectoryEntry dev₁ name first size 0x20#8 parentCluster := by
  obtain ⟨new, dev₁, h₁, -, ⟨-, hlen, hfull⟩ | ⟨first, hhead, hlen, hstored, heq⟩⟩ :=
    @writeFile_cases fs dev name data size parentCluster hg hsize
  · exact absurd (hroom.trans (h₁.freeClusters_le (fun _ hx => by cases hx) hfull)) (by omega)
  · exact ⟨new, dev₁, first, h₁, hhead, hlen, hstored, heq⟩

end Write

section Read

variable {fs : FAT32Driver} {dev : BlockDevice} {V : View} {data : Buffer} {c n size : Nat}
  {cs : List Nat}

theorem Stored.tail (h : Stored fs V data size (c :: cs)) :
    Stored fs V (fun k => data (fs.clusterBytes + k)) (size - fs.clusterBytes) cs := by
  intro j x hj k hk hlt
  have hshift : (j + 1) * fs.clusterBytes + k = fs.clusterBytes + (j * fs.clusterBytes + k) := by
    rw [Nat.add_mul, Nat.one_mul]
    omega
  rw [h (j + 1) x hj k hk (by omega), hshift]

/-- The loop of `ReadFile` delivers the data of a chain. -/
theorem readLoop_stored (hg : Geometry fs) (hc : ClusterChain fs (fs.view dev.store) c cs)
    (hlen : fs.clustersFor size ≤ cs.length) (hstored : Stored fs (fs.view dev.store) data size cs)
    (hn : size ≤ n) : fs.readLoop dev n size c = slice data 0 size := by
  have hpos := clusterBytes_pos hg
  induction n generalizing c cs size data with
  | zero =>
    obtain rfl : size = 0 := by omega
    rfl
  | succ n ih =>
    by_cases hzero : size = 0
    · subst hzero
      exact if_neg fun h => absurd h.1 (by decide)
    have hsize := Nat.pos_of_ne_zero hzero
    have hhead := hc.head?_eq
    obtain ⟨h2, hfat, hend, h32⟩ := ClusterChain.lt hc hc.head_mem
    obtain ⟨cs, rfl⟩ : ∃ rest, cs = c :: rest := List.head?_eq_some_iff.mp hhead
    rw [clustersFor_step hpos hsize, List.length_cons, Nat.add_le_add_iff_right] at hlen
    rw [readLoop, if_pos ⟨hsize, hend⟩]
    dsimp only
    have hmin : (if size > fs.clusterBytes then fs.clusterBytes else size) =
        min fs.clusterBytes size := by
      split <;> omega
    rw [hmin] at hlen ⊢
    have hblock : slice (BlockDevice.read dev (fs.clusterToLBA c)) 0 (min fs.clusterBytes size) =
        slice data 0 (min fs.clusterBytes size) := by
      refine slice_congr fun k hk => ?_
      have hfirst := hstored 0 c rfl (0 + k) (by omega) (by omega)
      rw [Nat.zero_mul, Nat.zero_add, Nat.zero_add] at hfirst
      rw [Nat.zero_add, read_cluster dev h2 h32 (by omega), hfirst]
    have hsplit := slice_add data (min fs.clusterBytes size) (size - min fs.clusterBytes size)
    rw [Nat.add_sub_cancel' (by omega)] at hsplit
    rw [hblock, hsplit, List.append_cancel_left_eq, getNextCluster_eq dev hfat, ← View.next]
    by_cases hmore : fs.clusterBytes < size
    · cases hc with
      | last _ hends =>
        rw [clustersFor_step hpos (by omega)] at hlen
        exact absurd hlen (Nat.not_succ_le_zero _)
      | cons _ hrest =>
        have htail := hstored.tail
        rw [Nat.min_eq_left (Nat.le_of_lt hmore)] at hlen ⊢
        exact ih hrest hlen htail (by omega)
    · have hrest : size - min fs.clusterBytes size = 0 := by omega
      rw [hrest]
      cases n with
      | zero => rfl
      | succ n => exact if_neg fun h => absurd h.1 (by decide)

variable {name path : List Byte} {d parentCluster bufferSize : Nat} {ds : List Nat} {s : Slot}

/-- A path of one segment that is compared with the name. -/
structure Names (path name : List Byte) : Prop where
  convert : convertName path = name
  nonempty : path ≠ []
  slash : 0x2F#8 ∉ path
  length : path.length ≤ 15

theorem Names.segment (h : Names path name) : OneSegment path := ⟨h.nonempty, h.slash, h.length⟩

/-- `ReadFile` of a name that no entry has. -/
theorem readFile_absent (h : NamedVolume fs (fs.view dev.store))
    (hd : IsDirectory fs (fs.view dev.store) (fs.directoryOf parentCluster))
    (hname : FatCall.NewName fs (fs.view dev.store) (fs.directoryOf parentCluster) name)
    (hpath : Names path name) : fs.readFile dev path bufferSize parentCluster = (0, []) := by
  have hc := h.directory_chain hd
  have hnone : fs.findSlot dev path parentCluster = none := by
    rw [← findSlot_directoryOf, findSlot_eq hc, View.find, List.find?_eq_none]
    intro t ht hmatch
    rw [List.take_of_length_le (by simp)] at ht
    rw [isNameEqual, beq_iff_eq, hpath.convert] at hmatch
    exact hname.absent _ hc t ht hmatch
  rw [readFile, getFileEntry, hpath.segment.resolve, hnone, Option.map_none]

/-- `ReadFile` delivers the data of the entry that a search finds. -/
theorem readFile_found (hg : Geometry fs) (hpath : OneSegment path)
    (hfind : fs.findSlot dev path parentCluster = some s)
    (hc : ClusterChain fs (fs.view dev.store) d ds) (hs : s ∈ fs.slots ds)
    (hsize : ((fs.view dev.store).entry s).fileSize = size) (hbuf : size ≤ bufferSize)
    (hcs : ClusterChain fs (fs.view dev.store) ((fs.view dev.store).entry s).firstCluster cs)
    (hlen : fs.clustersFor size ≤ cs.length)
    (hstored : Stored fs (fs.view dev.store) data size cs) :
    fs.readFile dev path bufferSize parentCluster = (size, slice data 0 size) := by
  rw [readFile, getFileEntry, hpath.resolve, hfind, Option.map_some, slotEntry_eq hc hs]
  dsimp only
  rw [hsize, if_neg (Nat.not_lt.mpr hbuf), readLoop_stored hg hcs hlen hstored le_rfl]

/-- What `WriteFile` writes under a name that is new is what `ReadFile` delivers afterwards for
a path that is compared with the name. -/
theorem writeFile_read_back (hg : Geometry fs) (hv : SoundVolume fs (fs.view dev.store))
    (hd : IsDirectory fs (fs.view dev.store) (fs.directoryOf parentCluster))
    (hc : ClusterChain fs (fs.view dev.store) (fs.directoryOf parentCluster) ds)
    (hshort : ds.take 10001 = ds)
    (hname : FatCall.NewName fs (fs.view dev.store) (fs.directoryOf parentCluster) name)
    (hsize : size ≠ 0) (h32 : size < 2 ^ 32)
    (hroom : fs.clustersFor size ≤ (fs.view dev.store).freeClusters.length)
    (hslot : FreeSlot fs (fs.view dev.store) (fs.directoryOf parentCluster))
    (hpath : Names path name) (hbuf : size ≤ bufferSize) :
    fs.readFile (fs.writeFile dev name data size parentCluster) path bufferSize parentCluster =
      (size, slice data 0 size) := by
  obtain ⟨all, dev₁, first, hall, hfirst, hlen, hstored, heq⟩ :=
    @writeFile_stored fs dev data size name parentCluster hg hsize hroom
  obtain ⟨hv₁, hsame, -⟩ := hall.within.frame_none hv
  obtain ⟨ds', hc', ⟨-, hfull⟩ | ⟨i, -, -, hpub⟩⟩ :=
    @addEntry_cases fs dev dev₁ name first parentCluster 0x20#8 all hg hv hall hd hname hfirst
      (fun ha => absurd rfl ha) size
  · obtain ⟨j, hj, hfree⟩ := hslot
    rw [hfull j hj] at hfree
    cases hfree
  · obtain rfl := hc'.unique hc
    obtain ⟨pre, post, hchange⟩ := hpub.change
    have hlt := hall.lt (List.mem_of_head? hfirst)
    have hentry : (fs.view (fs.addDirectoryEntry dev₁ name first size 0x20#8
        parentCluster).store).entry ⟨fs.directoryOf parentCluster, i⟩ =
        .create name first size 0x20#8 := by
      rw [hpub.view]
      exact (entry_setSlot _ _ hpub.length).1
    have hlive : ((fs.view (fs.addDirectoryEntry dev₁ name first size 0x20#8
        parentCluster).store).entry ⟨fs.directoryOf parentCluster, i⟩).isLive = true := by
      rw [hentry, DirectoryEntry.isLive, DirectoryEntry.first_create hname.length,
        DirectoryEntry.attr_create hname.length, Bool.and_eq_true, Bool.and_eq_true, bne_iff_ne,
        bne_iff_ne]
      exact ⟨hname.first, rfl⟩
    have hmatch : isNameEqual ((fs.view (fs.addDirectoryEntry dev₁ name first size 0x20#8
        parentCluster).store).entry ⟨fs.directoryOf parentCluster, i⟩).name path = true := by
      rw [hentry, DirectoryEntry.name_create hname.length, isNameEqual, hpath.convert,
        beq_self_eq_true]
    have hfind := hchange.find_new hv₁ hlive hmatch fun t ht => ?_
    · have hc₂ := hchange.chain_iff.mpr (hsame _ ds' hd hc').1
      have hslot : fs.findSlot (fs.addDirectoryEntry dev₁ name first size 0x20#8 parentCluster) path
          parentCluster = some ⟨fs.directoryOf parentCluster, i⟩ := by
        rw [← findSlot_directoryOf, findSlot_eq hc₂, hshort, hfind]
      rw [heq]
      refine readFile_found hg hpath.segment hslot hc₂ hchange.mem ?_ hbuf ?_ hlen.ge
        (hstored.congr fun c hc => ?_)
      · rw [hentry, DirectoryEntry.fileSize_create hname.length, Nat.mod_eq_of_lt h32]
      · rw [hentry, DirectoryEntry.firstCluster_create hname.length hlt.2.2.2]
        exact hchange.chain_iff.mpr (hall.chain first hfirst)
      · have hne : c ≠ fs.directoryOf parentCluster := by
          rintro rfl
          exact fat_ne_zero hc' hc'.head_mem (hall.free _ hc).2.2
        rw [hpub.view]
        exact View.setData_data_of_ne _ hne _
    · rw [hsame.live_eq hd hc'] at ht
      rw [hsame.entry hd hc' (live_subset _ _ t ht), isNameEqual, hpath.convert,
        beq_eq_false_iff_ne]
      exact hname.absent ds' hc' t ht

/-- A `WriteFile` that completes is what the name reads afterwards. -/
theorem writeFile_reads (hg : Geometry fs) (h : NamedVolume fs (fs.view dev.store))
    (hd : IsDirectory fs (fs.view dev.store) (fs.directoryOf parentCluster))
    (hname : FatCall.NewName fs (fs.view dev.store) (fs.directoryOf parentCluster) name)
    (h32 : size < 2 ^ 32)
    (hcomplete : ¬(FatCall.writeFile name data size parentCluster).Incomplete fs dev)
    (hpath : Names path name) (hbuf : size ≤ bufferSize) :
    fs.readFile (fs.writeFile dev name data size parentCluster) path bufferSize parentCluster =
      (size, slice data 0 size) := by
  by_cases hsize : size = 0
  · subst hsize
    rw [writeFile_empty rfl, readFile_absent h hd hname hpath]
    rfl
  · have hroom : ¬FatCall.LacksRoom fs (fs.view dev.store) size parentCluster :=
      fun hlacks => hcomplete ⟨hsize, hlacks⟩
    rw [FatCall.LacksRoom, not_or, Nat.not_lt, not_not] at hroom
    exact writeFile_read_back hg h.sound hd (h.directory_chain hd) rfl hname hsize h32 hroom.1
      hroom.2 hpath hbuf

end Read

/-- The operations that change a volume, with those that go along a path. -/
inductive FatOperation
  | call (c : FatCall)
  | ensureDirectory (path : List Byte)
  | copyFileFrom (srcFs : FAT32Driver) (srcDev : BlockDevice) (srcPath dstPath : List Byte)
      (memory : Option Buffer)

namespace FatOperation

/-- The device after the operation; `none` for one that never ends. -/
def run (fs : FAT32Driver) (dev : BlockDevice) : FatOperation → Option BlockDevice
  | .call c => c.run fs dev
  | .ensureDirectory path => some (fs.ensureDirectory dev path).2
  | .copyFileFrom srcFs srcDev srcPath dstPath memory =>
    some (fs.copyFileFrom dev srcFs srcDev srcPath dstPath memory).2

/-- The disk after an operation; `none` once one has not ended. -/
def step (fs : FAT32Driver) (s : Option Disk) (op : FatOperation) : Option Disk :=
  s.bind fun d => (op.run fs ⟨d, []⟩).map Logged.store

/-- The operation is made in a directory of the volume, and an entry that it makes has a name
that is new in its directory; what `AppendFile` finds is a file. -/
def Fresh (fs : FAT32Driver) (dev : BlockDevice) : FatOperation → Prop
  | .call c => IsDirectory fs (fs.view dev.store) (fs.directoryOf c.parentCluster) ∧
      match c with
      | .writeFile name _ _ p => FatCall.NewName fs (fs.view dev.store) (fs.directoryOf p) name
      | .createDirectory name p => FatCall.NewName fs (fs.view dev.store) (fs.directoryOf p) name
      | .appendFile name _ _ p =>
        match fs.findSlot dev name.chars p with
        | some s => ((fs.view dev.store).entry s).isDirectory = false
        | none => FatCall.NewName fs (fs.view dev.store) (fs.directoryOf p) name.eleven
      | .deleteFile _ _ => True
  | .ensureDirectory path => FreshPath fs dev path
  | .copyFileFrom _ _ _ dstPath _ => FreshCopy fs dev dstPath

end FatOperation

/-- A volume that was just formatted: the root directory is one cluster that was never used. -/
structure Formatted (fs : FAT32Driver) (d : Disk) : Prop where
  chain : ClusterChain fs (fs.view d) fs.rootClus [fs.rootClus]
  unused : ∀ s ∈ fs.slots [fs.rootClus], ((fs.view d).entry s).first = 0

/-- The runs of the driver from a volume that was just formatted. -/
abbrev FatRun (fs : FAT32Driver) : List (Option Disk × FatOperation) → Option Disk → Prop :=
  Transition.Run (FatOperation.step fs) (fun _ _ => True) fun s => ∃ d, s = some d ∧ Formatted fs d

section Runs

variable {fs : FAT32Driver} {d : Disk} {op : FatOperation}

theorem Formatted.named (h : Formatted fs d) : NamedVolume fs (fs.view d) := by
  have hflat := flat_of_zero h.chain h.unused
  refine ⟨hflat.sound, fun c ds hc hds s hs => ?_, fun c ds hc hds => ?_⟩
  · obtain rfl := hflat.isDirectory hc
    rw [hds.unique h.chain, live_of_zero h.unused] at hs
    cases hs
  · obtain rfl := hflat.isDirectory hc
    exact hds.unique h.chain

/-- One operation keeps the names unique. -/
theorem NamedVolume.step (h : NamedVolume fs (fs.view d)) (hgeo : Geometry fs)
    (hop : op.Fresh fs ⟨d, []⟩) :
    ∃ d', op.step fs (some d) = some d' ∧ NamedVolume fs (fs.view d') := by
  cases op with
  | call c =>
    obtain ⟨hd, hcall⟩ := hop
    cases c with
    | writeFile name data size p => exact ⟨_, rfl, writeFile_named hgeo h (Or.inl ⟨hd, hcall⟩)⟩
    | createDirectory name p => exact ⟨_, rfl, createDirectory_named hgeo h (Or.inl ⟨hd, hcall⟩)⟩
    | appendFile name data size p =>
      obtain ⟨dev', heq, h'⟩ := @appendFile_named fs ⟨d, []⟩ p name data size hgeo h hd
        (fun s hs => by simpa only [hs] using hcall) (fun hs => by simpa only [hs] using hcall)
      exact ⟨dev'.store, congrArg (Option.map Logged.store) heq, h'⟩
    | deleteFile name p =>
      obtain ⟨b, dev', heq, h'⟩ := @deleteFile_named fs ⟨d, []⟩ p name hgeo h hd
      exact ⟨dev'.store, congrArg (fun r => (Option.map Prod.snd r).map Logged.store) heq, h'⟩
  | ensureDirectory path => exact ⟨_, rfl, ensureDirectory_named hgeo h hop⟩
  | copyFileFrom srcFs srcDev srcPath dstPath memory =>
    exact ⟨_, rfl, copyFileFrom_named hgeo h hop srcFs srcDev srcPath memory⟩

/-- In a run in which every new entry has a new name no directory has two entries with one
name, and what a `WriteFile` with a new name writes is read from then on. -/
theorem last_write_wins {run : List (Option Disk × FatOperation)} {s : Option Disk}
    (hgeo : Geometry fs) (hrun : FatRun fs run s)
    (hfresh : Transition.Throughout (fun _ x => ∀ d, x.1 = some d → x.2.Fresh fs ⟨d, []⟩) run) :
    ∃ d, s = some d ∧ NamesUnique fs (fs.view d) ∧
      ∀ name data size p path bufferSize,
        (FatOperation.call (.writeFile name data size p)).Fresh fs ⟨d, []⟩ → size < 2 ^ 32 →
        ¬(FatCall.writeFile name data size p).Incomplete fs ⟨d, []⟩ → Names path name →
        size ≤ bufferSize →
        fs.readFile (fs.writeFile ⟨d, []⟩ name data size p) path bufferSize p =
          (size, slice data 0 size) := by
  have hinv := hrun.throughout (I := fun _ s => ∃ d, s = some d ∧ NamedVolume fs (fs.view d))
    (P := fun _ _ => True) (fun s hs => ?_) (fun _ s op hs _ hop => ?_) hfresh
  · obtain ⟨d, rfl, hd⟩ := hinv.2
    exact ⟨d, rfl, hd.unique, fun name data size p path bufferSize hwrite h32 hroom hpath hbuf =>
      writeFile_reads hgeo hd hwrite.1 hwrite.2 h32 hroom hpath hbuf⟩
  · obtain ⟨d, rfl, hd⟩ := hs
    exact ⟨d, rfl, hd.named⟩
  · obtain ⟨d, rfl, hd⟩ := hs
    exact ⟨trivial, hd.step hgeo (hop d rfl)⟩

end Runs

theorem blankDisk_formatted : Formatted smallVolume blankDisk := by
  have heval : endOfChain ≤ (smallVolume.view blankDisk).fat 2 % 2 ^ 28 ∧
      ((smallVolume.slots [2]).all fun s => ((smallVolume.view blankDisk).entry s).first == 0) := by
    decide +kernel
  refine ⟨root_chain heval.1, fun s hs => ?_⟩
  simpa using List.all_eq_true.mp heval.2 s hs

/-- The file `A` is written, and then `B` is what is read under its name. -/
theorem last_write_wins_small : ∃ d,
    (FatOperation.call (.writeFile (oneLetter 0x41#8) (fun _ => 0x2A#8) 3 0)).step smallVolume
        (some blankDisk) = some d ∧ NamesUnique smallVolume (smallVolume.view d) ∧
      smallVolume.readFile (smallVolume.writeFile ⟨d, []⟩ (oneLetter 0x42#8) (fun _ => 0x2B#8) 2 0)
        [0x62#8] 512 0 = (2, [0x2B#8, 0x2B#8]) := by
  have heval : endOfChain ≤ (smallVolume.view blankDisk).fat 2 % 2 ^ 28 ∧
      (((smallVolume.view blankDisk).live (smallVolume.slots [2])).all fun t =>
        ((smallVolume.view blankDisk).entry t).name != oneLetter 0x41#8) ∧
      endOfChain ≤ (smallVolume.view oneFileDisk.store).fat 2 % 2 ^ 28 ∧
      (((smallVolume.view oneFileDisk.store).live (smallVolume.slots [2])).all fun t =>
        ((smallVolume.view oneFileDisk.store).entry t).name != oneLetter 0x42#8) ∧
      smallVolume.clustersFor 2 ≤ (smallVolume.view oneFileDisk.store).freeClusters.length ∧
      ((smallVolume.view oneFileDisk.store).entry ⟨smallVolume.directoryOf 0, 1⟩).isFree =
        true := by
    decide +kernel
  obtain ⟨hroot, habsent, hroot', habsent', hroom, hfree⟩ := heval
  have hrun : FatRun smallVolume [(some blankDisk, .call
      (.writeFile (oneLetter 0x41#8) (fun _ => 0x2A#8) 3 0))] (some oneFileDisk.store) :=
    .step _ (.start ⟨blankDisk, rfl, blankDisk_formatted⟩) trivial
  obtain ⟨d, hd, hunique, hread⟩ := last_write_wins smallVolume_geometry hrun ⟨fun d hd => by
    obtain rfl := Option.some.inj hd
    exact ⟨.root, newName_small hroot (by decide) habsent⟩, trivial⟩
  obtain rfl := Option.some.inj hd
  refine ⟨_, rfl, hunique, hread _ _ 2 0 [0x62#8] 512
    ⟨.root, newName_small hroot' (by decide) habsent'⟩
    (by decide) ?_ ⟨by decide, by decide, by decide, by decide⟩ (by decide)⟩
  rintro ⟨-, hlacks | hfull⟩
  · exact absurd hroom (Nat.not_le.mpr hlacks)
  · exact hfull ⟨1, by decide, hfree⟩

/-- The file `A` is written twice: there are two entries with the name, and the data of the
first is what is read. -/
theorem second_write_hidden : Geometry smallVolume ∧ ∃ d,
    FatRun smallVolume
      [(some oneFileDisk.store, .call (.writeFile (oneLetter 0x41#8) (fun _ => 0x2B#8) 2 0)),
        (some blankDisk, .call (.writeFile (oneLetter 0x41#8) (fun _ => 0x2A#8) 3 0))] (some d) ∧
      ¬(FatCall.writeFile (oneLetter 0x41#8) (fun _ => 0x2B#8) 2 0).Incomplete smallVolume
        ⟨oneFileDisk.store, []⟩ ∧
      ¬NamesUnique smallVolume (smallVolume.view d) ∧
      smallVolume.readFile ⟨d, []⟩ (oneLetter 0x41#8) 512 0 = (3, [0x2A#8, 0x2A#8, 0x2A#8]) := by
  have heval : smallVolume.clustersFor 2 ≤
      (smallVolume.view oneFileDisk.store).freeClusters.length ∧
      ((smallVolume.view oneFileDisk.store).entry ⟨smallVolume.directoryOf 0, 1⟩).isFree =
        true := by
    decide +kernel
  have htwice : endOfChain ≤ (smallVolume.view (smallVolume.writeFile ⟨oneFileDisk.store, []⟩
        (oneLetter 0x41#8) (fun _ => 0x2B#8) 2 0).store).fat 2 % 2 ^ 28 ∧
      (smallVolume.view (smallVolume.writeFile ⟨oneFileDisk.store, []⟩ (oneLetter 0x41#8)
        (fun _ => 0x2B#8) 2 0).store).live (smallVolume.slots [2]) = [⟨2, 0⟩, ⟨2, 1⟩] ∧
      ((smallVolume.view (smallVolume.writeFile ⟨oneFileDisk.store, []⟩ (oneLetter 0x41#8)
        (fun _ => 0x2B#8) 2 0).store).entry ⟨2, 0⟩).name =
        ((smallVolume.view (smallVolume.writeFile ⟨oneFileDisk.store, []⟩ (oneLetter 0x41#8)
          (fun _ => 0x2B#8) 2 0).store).entry ⟨2, 1⟩).name ∧
      smallVolume.readFile ⟨(smallVolume.writeFile ⟨oneFileDisk.store, []⟩ (oneLetter 0x41#8)
        (fun _ => 0x2B#8) 2 0).store, []⟩ (oneLetter 0x41#8) 512 0 =
        (3, [0x2A#8, 0x2A#8, 0x2A#8]) := by
    decide +kernel
  obtain ⟨hroot, hlive, hname, hread⟩ := htwice
  refine ⟨smallVolume_geometry, _, .step _ (.step _ (.start ⟨blankDisk, rfl, blankDisk_formatted⟩)
    trivial) trivial, ?_, fun hunique => ?_, hread⟩
  · rintro ⟨-, hlacks | hfull⟩
    · exact absurd heval.1 (Nat.not_le.mpr hlacks)
    · exact hfull ⟨1, by decide, heval.2⟩
  · have hslot := hunique 2 [2] .root (root_chain hroot) ⟨2, 0⟩ (by rw [hlive]; simp) ⟨2, 1⟩
      (by rw [hlive]; simp) hname
    cases hslot

end Sylphia
