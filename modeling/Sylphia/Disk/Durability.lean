import Sylphia.Disk.Boot
import Sylphia.Fat.NewEntry
import Sylphia.Fat.Survival

/-!
# Files on the disk

A file that was written completely is read back as it was written for as long as no operation
is for it: after other operations, after boots, and after power cuts, save for one in the middle
of a `DeleteFile` that frees clusters.
-/

namespace Sylphia

open Bytes WriteLog Chain FAT32Driver

/-- A path leads to a file. -/
structure FileOnPath (fs : FAT32Driver) (dev : BlockDevice) (path : List Byte) (base : Nat)
    (slot : Slot) : Prop where
  start : IsDirectory fs (fs.view dev.store) (fs.directoryOf base)
  found : fs.resolve dev path base = some slot
  file : (fs.slotEntry dev slot).isDirectory = false

/-- A disk from which a volume with unique names is mounted. -/
structure Mounted (d : Disk) : Prop where
  accepted : Accepted d
  geometry : Geometry (mountedDriver d)
  named : NamedVolume (mountedDriver d) ((mountedDriver d).view d)

section Files

variable {fs : FAT32Driver} {dev dev' : BlockDevice} {path name : List Byte} {data : Buffer}
  {base size parentCluster : Nat} {slot : Slot}

/-- The entry of a file that is not the target stays, and so does what is read. -/
theorem FileOnPath.kept {T : Option Slot} (h : FileOnPath fs dev path base slot)
    (hv : SoundVolume fs (fs.view dev.store))
    (hk : Kept fs T (fs.view dev.store) (fs.view dev'.store))
    (hT : ∀ t, T = some t → t ≠ slot ∧ ((fs.view dev.store).entry t).isDirectory = false) :
    FileOnPath fs dev' path base slot ∧
      ∀ size, fs.readFile dev' path size base = fs.readFile dev path size base := by
  have hne : T ≠ some slot := fun heq => (hT slot heq).1 rfl
  have hdir : ∀ t, T = some t → ((fs.view dev.store).entry t).isDirectory = false :=
    fun t ht => (hT t ht).2
  obtain ⟨hr, he, -⟩ := resolve_kept hv hk hdir h.start h.found hne
  obtain ⟨ds, hds⟩ := hv.directory_chain h.start
  refine ⟨⟨(hk.dirs _ ds h.start hds).1, hr, ?_⟩, fun size => ?_⟩
  · rw [he]
    exact h.file
  · exact readFile_kept hv hk hdir h.start h.found hne (Or.inl h.file)

/-- A `WriteFile` that completes makes a file. -/
theorem writeFile_fileAt (hgeo : Geometry fs) (h : NamedVolume fs (fs.view dev.store))
    (hd : IsDirectory fs (fs.view dev.store) (fs.directoryOf parentCluster))
    (hname : FatCall.NewName fs (fs.view dev.store) (fs.directoryOf parentCluster) name)
    (hsize : size ≠ 0)
    (hcomplete : ¬(FatCall.writeFile name data size parentCluster).Incomplete fs dev)
    (hpath : Names path name) :
    ∃ slot, FileOnPath fs (fs.writeFile dev name data size parentCluster)
      path parentCluster slot := by
  have hc := h.directory_chain hd
  have hroom : ¬FatCall.LacksRoom fs (fs.view dev.store) size parentCluster :=
    fun hlacks => hcomplete ⟨hsize, hlacks⟩
  rw [FatCall.LacksRoom, not_or, Nat.not_lt, not_not] at hroom
  rcases @writeFile_new fs dev name data size parentCluster _ hgeo hc hname.length hsize with
    ⟨hlt, -⟩ | ⟨-, first, -, -, ⟨hfull, -⟩ | ⟨i, hi, hw⟩⟩
  · exact absurd hroom.1 (Nat.not_le.mpr hlt)
  · exact absurd hroom.2 hfull
  have hlen := DirectoryEntry.length_create hname.length first size 0x20#8
  have hlive : (DirectoryEntry.create name first size 0x20#8).isLive = true := by
    rw [DirectoryEntry.isLive, DirectoryEntry.first_create hname.length,
      DirectoryEntry.attr_create hname.length, Bool.and_eq_true, Bool.and_eq_true, bne_iff_ne,
      bne_iff_ne]
    exact ⟨hname.first, rfl⟩
  have hmatch : isNameEqual (DirectoryEntry.create name first size 0x20#8).name path = true := by
    rw [DirectoryEntry.name_create hname.length, isNameEqual, hpath.convert, beq_self_eq_true]
  have hnone : (fs.view dev.store).find path (fs.slots [fs.directoryOf parentCluster]) = none := by
    rw [View.find, List.find?_eq_none]
    intro t ht heq
    rw [isNameEqual, beq_iff_eq, hpath.convert] at heq
    exact hname.absent _ hc t ht heq
  have hc' : ClusterChain fs ((fs.view dev.store).setSlot ⟨fs.directoryOf parentCluster, i⟩
      (.create name first size 0x20#8)) (fs.directoryOf parentCluster)
        [fs.directoryOf parentCluster] := hc.congr fun _ _ => rfl
  have hmem : (⟨fs.directoryOf parentCluster, i⟩ : Slot) ∈ fs.slots
      [fs.directoryOf parentCluster] :=
    mem_slots.mpr ⟨List.mem_singleton_self _, hi.lt⟩
  obtain ⟨hfind, hentry⟩ := hw.lookup path hc' (List.take_of_length_le (by simp))
  rw [hi.find_new hc hlen hlive hmatch (hi.find_none hc hnone), findSlot_directoryOf] at hfind
  refine ⟨⟨fs.directoryOf parentCluster, i⟩, ?_, (hpath.segment.resolve _ _).trans hfind, ?_⟩
  · have hpass := writeFile_spares hgeo h data size (Or.inl ⟨hd, hname⟩)
    exact (hpass.last.2.dirs _ _ hd hc).1
  · refine (congrArg DirectoryEntry.isDirectory
      ((hentry _ hmem).trans (entry_setSlot _ _ hlen).1)).trans ?_
    rw [DirectoryEntry.isDirectory, DirectoryEntry.attr_create hname.length]
    rfl

end Files

/-! ## Histories -/

namespace Computer

/-- An operation that fits the volume, and the file that it changes, if there is one, is not in the
slot. -/
def Avoids (s : Computer) (slot : Slot) : Activity → Prop
  | .boot _ _ => True
  | .operation op => ∀ fs, s.mounted = some fs → op.Fresh fs ⟨s.disk, []⟩ ∧
      ∀ t, op.target fs ⟨s.disk, []⟩ = some t →
        t ≠ slot ∧ ((fs.view s.disk).entry t).isDirectory = false

/-- An operation that frees clusters. -/
def Frees (s : Computer) : Activity → Prop
  | .boot _ _ => False
  | .operation op => ∃ fs, s.mounted = some fs ∧ op.FreesClusters fs ⟨s.disk, []⟩

/-- What is done avoids the slot, and what is cut does not free clusters. -/
def Spares (s : Computer) (slot : Slot) : PowerOp → Prop
  | .complete activity => s.Avoids slot activity
  | .cut activity _ => s.Avoids slot activity ∧ ¬s.Frees activity

/-- The disk has the volume that `d` had, and the file reads as it did. -/
structure Keeps (d : Disk) (path : List Byte) (base : Nat) (slot : Slot) (s : Computer) : Prop where
  inv : Inv d s
  named : NamedVolume (mountedDriver d) ((mountedDriver d).view s.disk)
  file : FileOnPath (mountedDriver d) ⟨s.disk, []⟩ path base slot
  reads : ∀ size, (mountedDriver d).readFile ⟨s.disk, []⟩ path size base =
    (mountedDriver d).readFile ⟨d, []⟩ path size base

section Keeps

variable {d d' : Disk} {path : List Byte} {base : Nat} {slot : Slot} {s : Computer}
  {activity : Activity}

/-- An activity that avoids the slot: what it leaves at the end, and on the way there. -/
theorem Keeps.perform (h : Keeps d path base slot s) (hd : Mounted d)
    (hcan : s.perform activity ≠ none) (havoid : s.Avoids slot activity) :
    ∃ dev T, s.perform activity = some (mountedDriver d, dev) ∧
      (∀ t, T = some t →
        t ≠ slot ∧ (((mountedDriver d).view s.disk).entry t).isDirectory = false) ∧
      Spared (mountedDriver d) T ((mountedDriver d).view s.disk)
        ((mountedDriver d).view dev.store) ∧
      (¬s.Frees activity → ∀ ws, ws <+: dev.log → Spared (mountedDriver d) T
        ((mountedDriver d).view s.disk) ((mountedDriver d).view (replay ws s.disk))) := by
  cases activity with
  | boot usb memory =>
    have hboot : s.perform (.boot usb memory) = some (mountedDriver d, ⟨s.disk, []⟩) := by
      rw [Computer.perform, (h.inv.same.accepted hd.accepted).bootDisk,
        h.inv.same.mounted hd.accepted]
    refine ⟨⟨s.disk, []⟩, none, hboot, fun _ ht => (by cases ht), Spared.refl h.named none,
      fun _ ws hws => ?_⟩
    rw [List.prefix_nil.mp hws]
    exact Spared.refl h.named none
  | operation op =>
    rw [Computer.perform] at hcan ⊢
    cases hm : s.mounted with
    | none =>
      rw [hm] at hcan
      exact absurd rfl hcan
    | some fs =>
      obtain ⟨hfresh, hT⟩ := havoid fs hm
      obtain rfl := h.inv.mounted fs hm
      obtain ⟨dev, hrun, hend, hpass⟩ := @FatOperation.spares _ ⟨s.disk, []⟩ op hd.geometry h.named
        hfresh fun t ht => (hT t ht).2
      refine ⟨dev, _, ?_, hT, hend, fun hno ws hws => ?_⟩
      · rw [Option.bind_some, hrun, Option.map_some]
      · have hpass := hpass fun hfrees => hno ⟨_, hm, hfrees⟩
        exact (Logged.through_iff (hpass.mono fun _ _ => trivial)).mp hpass ws hws

/-- One step keeps the volume and the file. -/
theorem Keeps.step (h : Keeps d path base slot s) (hd : Mounted d) (op : PowerOp) (hcan : s.Can op)
    (hspares : s.Spares slot op) : Keeps d path base slot (s.step op) := by
  have hinv := h.inv.step hd.accepted op
  cases op with
  | complete activity =>
    obtain ⟨dev, T, hperform, hT, hend, -⟩ := h.perform hd hcan hspares
    rw [Computer.step, hperform] at hinv ⊢
    obtain ⟨hfile, hreads⟩ := @FileOnPath.kept _ _ ⟨dev.store, []⟩ _ _ _ _ h.file h.named.sound
      hend.2 hT
    exact ⟨hinv, hend.1, hfile, fun size => (hreads size).trans (h.reads size)⟩
  | cut activity writes =>
    obtain ⟨dev, T, hperform, hT, -, hpast⟩ := h.perform hd hcan hspares.1
    have hcut := hpast hspares.2 _ (List.take_prefix writes dev.log)
    rw [Computer.step, hperform] at hinv ⊢
    obtain ⟨hfile, hreads⟩ := @FileOnPath.kept _ _ ⟨replay (dev.log.take writes) s.disk, []⟩ _ _ _ _
      h.file h.named.sound hcut.2 hT
    exact ⟨hinv, hcut.1, hfile, fun size => (hreads size).trans (h.reads size)⟩

/-- The histories from a disk, with or without its volume mounted. -/
abbrev History (d : Disk) : List (Computer × PowerOp) → Computer → Prop :=
  Transition.Run Computer.step Computer.Can fun s => s.disk = d ∧ Inv d s

section History

variable {run : List (Computer × PowerOp)}

theorem History.step {s' : Computer} {op : PowerOp} (h : History d run s) (hcan : s.Can op)
    (hstep : s.step op = s') : History d ((s, op) :: run) s' :=
      hstep ▸ Transition.Run.step op h hcan

theorem History.inv (h : History d run s) (ha : Accepted d) : Inv d s :=
  h.invariant (I := fun _ s => Inv d s) (fun _ hs => hs.2) fun _ _ op hi _ => hi.step ha op

/-- A boot mounts the volume of the first disk. -/
theorem History.boot {m : Option FAT32Driver} (h : History d run ⟨d', m⟩) (ha : Accepted d)
    (usb : Option BlockDevice) (memory : List Byte → Option Buffer) :
    History d ((⟨d', m⟩, .complete (.boot usb memory)) :: run) ⟨d', some (mountedDriver d)⟩ := by
  have hsame : SameReserved d d' := (h.inv ha).same
  refine h.step (show Computer.perform _ (.boot usb memory) ≠ none from Option.some_ne_none _) ?_
  rw [Computer.step, Computer.perform, (hsame.accepted ha).bootDisk, hsame.mounted ha]

section Call

variable {fs : FAT32Driver} {c : FatCall} {dev : BlockDevice}
  (h : History d run ⟨d', some fs⟩) (hc : c.run fs ⟨d', []⟩ = some dev)
include h hc

/-- A call comes to its end. -/
theorem History.call :
    History d ((⟨d', some fs⟩, .complete (.operation (.call c))) :: run) ⟨dev.store, some fs⟩ := by
  have hperform : Computer.perform ⟨d', some fs⟩ (.operation (.call c)) = some (fs, dev) :=
    congrArg (Option.map fun dev => (fs, dev)) hc
  refine h.step (by rw [Computer.Can, hperform]; exact Option.some_ne_none _) ?_
  rw [Computer.step, hperform]

/-- The power is cut during a call. -/
theorem History.cut (writes : Nat) :
    History d ((⟨d', some fs⟩, .cut (.operation (.call c)) writes) :: run)
      ⟨replay (dev.log.take writes) d', none⟩ := by
  have hperform : Computer.perform ⟨d', some fs⟩ (.operation (.call c)) = some (fs, dev) :=
    congrArg (Option.map fun dev => (fs, dev)) hc
  refine h.step (by rw [Computer.Can, hperform]; exact Option.some_ne_none _) ?_
  rw [Computer.step, hperform]

end Call

end History

/-- A history that spares a file keeps it. -/
theorem Keeps.run (hd : Mounted d) (hfile : FileOnPath (mountedDriver d) ⟨d, []⟩ path base slot)
    {run : List (Computer × PowerOp)} (hrun : History d run s)
    (hspares : Transition.Throughout (fun _ x => x.1.Spares slot x.2) run) :
    Keeps d path base slot s := by
  refine (hrun.throughout (I := fun _ s => Keeps d path base slot s) (P := fun _ _ => True)
    (fun s hs => ?_) (fun _ s op hs hcan hop => ⟨trivial, hs.step hd op hcan hop⟩) hspares).2
  obtain ⟨rfl, hinv⟩ := hs
  exact ⟨hinv, hd.named, hfile, fun _ => rfl⟩

end Keeps

end Computer

section Histories

variable {d : Disk} {path name : List Byte} {data : Buffer} {base size parentCluster : Nat}
  {slot : Slot} {run : List (Computer × PowerOp)} {s : Computer}

/-- A file that no operation of a history is for reads as before: the history may have boots,
operations that come to their end, and power cuts, save for those in a `DeleteFile` that frees
clusters. -/
theorem file_survives (hd : Mounted d) (hfile : FileOnPath (mountedDriver d) ⟨d, []⟩ path base slot)
    (hrun : Computer.History d run s)
    (hspares : Transition.Throughout (fun _ x => x.1.Spares slot x.2) run)
    (usb : Option BlockDevice) (memory : List Byte → Option Buffer) :
    bootDisk ⟨s.disk, []⟩ usb memory = (mountedDriver d, ⟨s.disk, []⟩) ∧
      ∀ bufferSize, (mountedDriver d).readFile ⟨s.disk, []⟩ path bufferSize base =
        (mountedDriver d).readFile ⟨d, []⟩ path bufferSize base := by
  have hkeeps := Computer.Keeps.run hd hfile hrun hspares
  refine ⟨?_, hkeeps.reads⟩
  rw [(hkeeps.inv.same.accepted hd.accepted).bootDisk, hkeeps.inv.same.mounted hd.accepted]

/-- What is left in front of the FATs and of the volume is a disk to boot from. -/
theorem Mounted.of_spared {T : Option Slot} {dev : BlockDevice} (hd : Mounted d)
    (hk : KeepsReserved (mountedDriver d) ⟨d, []⟩ dev)
    (hspared : Spared (mountedDriver d) T ((mountedDriver d).view d)
      ((mountedDriver d).view dev.store)) :
    mountedDriver dev.store = mountedDriver d ∧ Mounted dev.store := by
  have hsame : SameReserved d dev.store := fun lba hlba => hk.store_eq (Nat.not_le.mpr hlba)
  have hmounted := hsame.mounted hd.accepted
  refine ⟨hmounted, hsame.accepted hd.accepted, ?_, ?_⟩
  · rw [hmounted]
    exact hd.geometry
  · rw [hmounted]
    exact hspared.1

section WriteFile

variable (hd : Mounted d)
  (hdir : IsDirectory (mountedDriver d) ((mountedDriver d).view d)
    ((mountedDriver d).directoryOf parentCluster))
  (hname : FatCall.NewName (mountedDriver d) ((mountedDriver d).view d)
    ((mountedDriver d).directoryOf parentCluster) name)
  (hsize : size ≠ 0)
  (hcomplete : ¬(FatCall.writeFile name data size parentCluster).Incomplete (mountedDriver d)
    ⟨d, []⟩)
  (hpath : Names path name)
include hd hdir hname hsize hcomplete hpath

/-- After a `WriteFile` that completes the path leads to the file, and the disk is still one to
boot from. -/
theorem Mounted.writeFile :
    let dev := (mountedDriver d).writeFile ⟨d, []⟩ name data size parentCluster
    mountedDriver dev.store = mountedDriver d ∧ Mounted dev.store ∧
      ∃ slot, FileOnPath (mountedDriver dev.store) ⟨dev.store, []⟩ path parentCluster slot ∧
        ∀ bufferSize, (mountedDriver dev.store).readFile ⟨dev.store, []⟩ path bufferSize
          parentCluster = (mountedDriver d).readFile dev path bufferSize parentCluster := by
  intro dev
  have hpass : Passes (mountedDriver d) _ ⟨d, []⟩ dev :=
    @writeFile_spares _ ⟨d, []⟩ _ _ hd.geometry hd.named data size (Or.inl ⟨hdir, hname⟩)
  have hkeeps : KeepsReserved (mountedDriver d) ⟨d, []⟩ dev :=
    (mountedDriver_dataBehind d).writeFile ..
  obtain ⟨hmounted, hd'⟩ := hd.of_spared hkeeps hpass.last
  obtain ⟨slot, hfile⟩ := @writeFile_fileAt _ ⟨d, []⟩ _ _ data _ _ hd.geometry hd.named hdir hname
    hsize hcomplete hpath
  have hkept := @FileOnPath.kept _ dev ⟨dev.store, []⟩ _ _ _ none hfile hpass.last.1.sound
    (Spared.refl hpass.last.1 none).2 fun _ ht => by cases ht
  rw [hmounted]
  exact ⟨rfl, hd', slot, hkept⟩

/-- What a `WriteFile` that completes writes under a new name is what `ReadFile` delivers after
every history that spares the new entry. -/
theorem written_survives (h32 : size < 2 ^ 32) : ∃ slot, ∀ run s,
    Computer.History ((mountedDriver d).writeFile ⟨d, []⟩ name data size parentCluster).store run
      s →
    Transition.Throughout (fun _ x => x.1.Spares slot x.2) run → ∀ usb memory bufferSize,
    size ≤ bufferSize →
      (bootDisk ⟨s.disk, []⟩ usb memory).1.readFile (bootDisk ⟨s.disk, []⟩ usb memory).2 path
        bufferSize parentCluster = (size, slice data 0 size) := by
  obtain ⟨-, hd', slot, hfile, hreads⟩ := hd.writeFile hdir hname hsize hcomplete hpath
  refine ⟨slot, fun run s hrun hspares usb memory bufferSize hbuf => ?_⟩
  have hkept := Computer.Keeps.run hd' hfile hrun hspares
  rw [(hkept.inv.same.accepted hd'.accepted).bootDisk, hkept.inv.same.mounted hd'.accepted]
  dsimp only
  rw [hkept.reads, hreads]
  exact writeFile_reads hd.geometry hd.named hdir hname h32 hcomplete hpath hbuf

end WriteFile

/-- A partition that was just formatted is a disk to boot from. -/
theorem mounted_format (dev : BlockDevice) {n : Nat} (h : HasRoom n) :
    Mounted (formatPartitionFAT32 dev n).store := by
  have hdriver := mountedDriver_format dev h
  refine ⟨accepted_format dev n, ?_, ?_⟩
  · rw [hdriver]
    exact formattedDriver_geometry h
  · rw [hdriver]
    exact (formatted_format dev h).named

end Histories

/-- The fields of a boot sector that `Initialize` reads, and its signature. -/
def smallBootSector : Buffer := fun k =>
  if k = 13 ∨ k = 14 ∨ k = 36 then 1
  else if k = 16 ∨ k = 44 then 2
  else if k = 510 then 0x55
  else if k = 511 then 0xAA
  else 0

/-- A partition with FATs of one sector and clusters of one sector, as it is formatted. -/
def smallDisk : Disk := fun lba =>
  if lba = kPartitionStartLBA then smallBootSector else blankDisk (lba - (kPartitionStartLBA + 1))

/-- What is mounted from it. -/
def smallMounted : FAT32Driver := ⟨1, 1, 2, 2049, 2051⟩

/-- The root directory is cluster 2. -/
theorem smallMounted_chain {V : View} (h : endOfChain ≤ V.fat 2 % 2 ^ 28) :
    ClusterChain smallMounted V smallMounted.rootClus [2] :=
  .last (c := 2) ⟨by decide, by decide, by decide⟩ h

/-- A name that no entry of the root directory has. -/
theorem smallMounted_newName {V : View} {name : List Byte} (hroot : endOfChain ≤ V.fat 2 % 2 ^ 28)
    (hname : name.length = 11 ∧ name.getD 0 0 ≠ 0 ∧ name.getD 0 0 ≠ 0xE5#8)
    (habsent : (V.live (smallMounted.slots [2])).all fun t => (V.entry t).name != name) :
    FatCall.NewName smallMounted V (smallMounted.directoryOf 0) name := by
  refine ⟨hname.1, hname.2, fun ds hc t ht => ?_⟩
  rw [hc.unique (smallMounted_chain hroot)] at ht
  simpa using List.all_eq_true.mp habsent t ht

theorem mountedDriver_small : mountedDriver smallDisk = smallMounted := by
  decide +kernel

theorem smallDisk_mounted : Mounted smallDisk := by
  have heval : endOfChain ≤ (smallMounted.view smallDisk).fat 2 % 2 ^ 28 ∧
      ((smallMounted.slots [2]).all fun s =>
        ((smallMounted.view smallDisk).entry s).first == 0) := by
    decide +kernel
  have hformatted : Formatted smallMounted smallDisk := by
    refine ⟨smallMounted_chain heval.1, fun s hs => ?_⟩
    simpa using List.all_eq_true.mp heval.2 s hs
  refine ⟨⟨by decide +kernel, by decide +kernel⟩, ?_, ?_⟩
  · rw [mountedDriver_small]
    exact ⟨by decide, by decide, by decide, rfl⟩
  · rw [mountedDriver_small]
    exact hformatted.named

/-- The file `A` is written. -/
def smallWriteA : FatCall := .writeFile (oneLetter 0x41#8) (fun _ => 0x2A#8) 3 0

/-- The file `B` of two clusters is written. -/
def smallWriteB : FatCall := .writeFile (oneLetter 0x42#8) (fun _ => 0x2B#8) 600 0

/-- The directory `C` is made. -/
def smallMakeC : FatCall := .createDirectory (oneLetter 0x43#8) 0

/-- The disk with `A`. -/
def smallDiskA : BlockDevice :=
  smallMounted.writeFile ⟨smallDisk, []⟩ (oneLetter 0x41#8) (fun _ => 0x2A#8) 3 0

/-- The power is cut when `B` has its second cluster, of which its entry says nothing yet. -/
def smallDiskB : Disk :=
  replay ((smallMounted.writeFile ⟨smallDiskA.store, []⟩ (oneLetter 0x42#8) (fun _ => 0x2B#8) 600
    0).log.take 7) smallDiskA.store

/-- The disk with `A` and `C`. -/
def smallDiskC : BlockDevice :=
  (smallMounted.createDirectory ⟨smallDiskB, []⟩ (oneLetter 0x43#8) 0).2

/-- A boot, the cut while `B` is written, another boot, and `C`. -/
def smallHistory : List (Computer × PowerOp) :=
  [(⟨smallDiskB, some smallMounted⟩, .complete (.operation (.call smallMakeC))),
    (⟨smallDiskB, none⟩, .complete (.boot none fun _ => none)),
    (⟨smallDiskA.store, some smallMounted⟩, .cut (.operation (.call smallWriteB)) 7),
    (⟨smallDiskA.store, none⟩, .complete (.boot none fun _ => none))]

theorem smallHistory_run :
    Computer.History smallDiskA.store smallHistory ⟨smallDiskC.store, some smallMounted⟩ := by
  have hsame : SameReserved smallDisk smallDiskA.store := by
    have hkeeps := (mountedDriver_dataBehind smallDisk).writeFile ⟨smallDisk, []⟩ (oneLetter 0x41#8)
      (fun _ => 0x2A#8) 3 0
    rw [mountedDriver_small] at hkeeps
    intro lba hlba
    rw [mountedDriver_small] at hlba
    exact hkeeps.store_eq (Nat.not_le.mpr hlba)
  have haccepted := hsame.accepted smallDisk_mounted.accepted
  have hmounted : mountedDriver smallDiskA.store = smallMounted :=
    (hsame.mounted smallDisk_mounted.accepted).trans mountedDriver_small
  have hstart : Computer.History smallDiskA.store [] ⟨smallDiskA.store, none⟩ :=
    .start ⟨rfl, fun _ _ => rfl, fun _ hfs => by cases hfs⟩
  have hboot := hstart.boot haccepted none fun _ => none
  rw [hmounted] at hboot
  have hcut : Computer.History smallDiskA.store _ ⟨smallDiskB, none⟩ :=
    hboot.cut (c := smallWriteB) rfl 7
  have hreboot := hcut.boot haccepted none fun _ => none
  rw [hmounted] at hreboot
  exact hreboot.call (c := smallMakeC) rfl

theorem smallHistory_spares (slot : Slot) :
    Transition.Throughout (fun _ x => x.1.Spares slot x.2) smallHistory := by
  have heval : (endOfChain ≤ (smallMounted.view smallDiskB).fat 2 % 2 ^ 28 ∧
      ((smallMounted.view smallDiskB).live (smallMounted.slots [2])).all fun t =>
        ((smallMounted.view smallDiskB).entry t).name != oneLetter 0x43#8) ∧
      endOfChain ≤ (smallMounted.view smallDiskA.store).fat 2 % 2 ^ 28 ∧
      ((smallMounted.view smallDiskA.store).live (smallMounted.slots [2])).all fun t =>
        ((smallMounted.view smallDiskA.store).entry t).name != oneLetter 0x42#8 := by
    decide +kernel
  have hC := smallMounted_newName heval.1.1 (by decide) heval.1.2
  have hB := smallMounted_newName heval.2.1 (by decide) heval.2.2
  refine ⟨fun fs hfs => ?_, trivial, ⟨fun fs hfs => ?_, ?_⟩, trivial, trivial⟩
  · obtain rfl := Option.some.inj hfs
    exact ⟨⟨.root, hC⟩, fun t ht => by cases ht⟩
  · obtain rfl := Option.some.inj hfs
    exact ⟨⟨.root, hB⟩, fun t ht => by cases ht⟩
  · rintro ⟨fs, -, hfrees⟩
    exact hfrees

/-- `A` may be written. -/
theorem smallDisk_writeA :
    IsDirectory smallMounted (smallMounted.view smallDisk) (smallMounted.directoryOf 0) ∧
      FatCall.NewName smallMounted (smallMounted.view smallDisk) (smallMounted.directoryOf 0)
        (oneLetter 0x41#8) ∧
      ¬smallWriteA.Incomplete smallMounted ⟨smallDisk, []⟩ := by
  have heval : (endOfChain ≤ (smallMounted.view smallDisk).fat 2 % 2 ^ 28 ∧
      ((smallMounted.view smallDisk).live (smallMounted.slots [2])).all fun t =>
        ((smallMounted.view smallDisk).entry t).name != oneLetter 0x41#8) ∧
      smallMounted.clustersFor 3 ≤ (smallMounted.view smallDisk).freeClusters.length ∧
      ((smallMounted.view smallDisk).entry ⟨smallMounted.directoryOf 0, 0⟩).isFree = true := by
    decide +kernel
  obtain ⟨⟨hroot, habsent⟩, hroom, hfree⟩ := heval
  refine ⟨.root, smallMounted_newName hroot (by decide) habsent, ?_⟩
  rintro ⟨-, hlacks | hfull⟩
  · exact absurd hroom (Nat.not_le.mpr hlacks)
  · exact hfull ⟨0, by decide, hfree⟩

/-- What was written to `A` is read at the end of the history. -/
theorem written_survives_boot :
    let booted := bootDisk ⟨smallDiskC.store, []⟩ none fun _ => none
    booted.1.readFile booted.2 [0x61#8] 512 0 = (3, [0x2A#8, 0x2A#8, 0x2A#8]) := by
  obtain ⟨hdir, hname, hcomplete⟩ := smallDisk_writeA
  have hpath : Names [0x61#8] (oneLetter 0x41#8) := ⟨by decide, by decide, by decide, by decide⟩
  have hhistory := written_survives smallDisk_mounted (mountedDriver_small ▸ hdir)
    (mountedDriver_small ▸ hname) (by decide) (mountedDriver_small ▸ hcomplete) hpath (by decide)
  rw [mountedDriver_small] at hhistory
  obtain ⟨slot, hreads⟩ := hhistory
  exact hreads _ _ smallHistory_run (smallHistory_spares slot) none _ 512 (by decide)

/-- At the end of the history `A` reads as before it. -/
theorem file_survives_cut :
    (mountedDriver smallDiskA.store).readFile ⟨smallDiskC.store, []⟩ [0x61#8] 512 0 =
      (mountedDriver smallDiskA.store).readFile ⟨smallDiskA.store, []⟩ [0x61#8] 512 0 := by
  obtain ⟨hdir, hname, hcomplete⟩ := smallDisk_writeA
  have hpath : Names [0x61#8] (oneLetter 0x41#8) := ⟨by decide, by decide, by decide, by decide⟩
  have hwritten := smallDisk_mounted.writeFile (mountedDriver_small ▸ hdir)
    (mountedDriver_small ▸ hname) (by decide) (mountedDriver_small ▸ hcomplete) hpath
  rw [mountedDriver_small] at hwritten
  obtain ⟨-, hmounted, slot, hfile, -⟩ := hwritten
  exact (file_survives hmounted hfile smallHistory_run (smallHistory_spares slot) none
    fun _ => none).2 512

end Sylphia
