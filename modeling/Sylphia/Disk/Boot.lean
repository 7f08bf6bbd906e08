import Sylphia.Core.FixedWrites
import Sylphia.Core.Run
import Sylphia.Fat.Mounted
import Sylphia.Fat.Reserved

/-!
# Booting from the disk

`KernelMain` formats the disk unless it finds a signature at the start of the partition, mounts
the volume there, and lets `RunInstaller` copy the system from a USB disk to a volume that was
just formatted. A disk that has the signature is never formatted again, whatever happens to the
volume and whenever the power is cut.
-/

namespace Sylphia

open Bytes Packed WriteLog FAT32Driver

/-- The characters of a string literal. -/
def ascii (cs : List Char) : List Byte := cs.map fun c => BitVec.ofNat 8 c.toNat

/-- `usb_part_lba`: the first partition of a disk with an MBR, else the start of the disk. -/
def usbPartLba (buf : Buffer) : Nat :=
  if buf 510 = 0x55#8 ∧ buf 511 = 0xAA#8 then
    let isBpb := buf 0 = 0xEB#8 ∨ buf 0 = 0xE9#8
    if ¬isBpb then fieldAt buf (0x1BE + 8) 4 else 0
  else 0

/-- `EFI/BOOT/BOOTX64.EFI`. -/
def bootLoaderPath : List Byte :=
  ascii ['E', 'F', 'I', '/', 'B', 'O', 'O', 'T', '/', 'B', 'O', 'O', 'T', 'X', '6', '4', '.',
    'E', 'F', 'I']

/-- The files that are copied, each by its path on the USB disk and by its path on the volume. -/
def installedFiles : List (List Byte × List Byte) :=
  [(bootLoaderPath, bootLoaderPath),
    (ascii ['a', 'p', 'p', 's', '/', 's', 'h', 'e', 'l', 'l', '.', 'e', 'l', 'f'],
      ascii ['s', 'y', 's', '/', 'b', 'i', 'n', '/', 's', 'h', 'e', 'l', 'l', '.', 'e', 'l', 'f']),
    (ascii ['a', 'p', 'p', 's', '/', 's', 't', 'd', 'i', 'o', '.', 'e', 'l', 'f'],
      ascii ['s', 'y', 's', '/', 'b', 'i', 'n', '/', 's', 't', 'd', 'i', 'o', '.', 'e', 'l', 'f']),
    (ascii ['a', 'p', 'p', 's', '/', 't', 'e', 's', 't', '.', 'e', 'l', 'f'],
      ascii ['s', 'y', 's', '/', 'b', 'i', 'n', '/', 't', 'e', 's', 't', '.', 'e', 'l', 'f']),
    (ascii ['k', 'e', 'r', 'n', 'e', 'l', '.', 'e', 'l', 'f'],
      ascii ['k', 'e', 'r', 'n', 'e', 'l', '.', 'e', 'l', 'f'])]

/-- The directories that are made before the files are copied. -/
def systemDirectories : List (List Byte) :=
  [ascii ['s', 'y', 's'], ascii ['s', 'y', 's', '/', 'b', 'i', 'n'], ascii ['h', 'o', 'm', 'e']]

/-- The name `STARTUP NSH`. -/
def startupName : List Byte := ascii ['S', 'T', 'A', 'R', 'T', 'U', 'P', ' ', 'N', 'S', 'H']

/-- `startup_script`, whose separators are backslashes. -/
def startupScript : List Byte :=
  0x5C#8 :: ascii ['E', 'F', 'I'] ++ 0x5C#8 :: ascii ['B', 'O', 'O', 'T'] ++
    0x5C#8 :: ascii ['B', 'O', 'O', 'T', 'X', '6', '4', '.', 'E', 'F', 'I']

/-- `RunInstaller`, with the USB disk if there is one; `memory` is what `Allocate` gives for the
copy of a file, by its destination. -/
def runInstaller (nvmeFs : FAT32Driver) (dev : BlockDevice) (usb : Option BlockDevice)
    (memory : List Byte → Option Buffer) (alreadyInstalled : Bool) : BlockDevice :=
  match usb with
  | none => dev
  | some usb =>
    let usbFs := initializeFrom usb (usbPartLba (BlockDevice.read usb 0))
    if alreadyInstalled then dev
    else
      let dev := systemDirectories.foldl (fun dev path => (nvmeFs.ensureDirectory dev path).2) dev
      let dev := installedFiles.foldl
        (fun dev file => (nvmeFs.copyFileFrom dev usbFs usb file.1 file.2 (memory file.2)).2) dev
      nvmeFs.writeFile dev startupName (buffer startupScript) 21 0

/-- `signature` of a boot sector. -/
def Bpb.signature (sector : Buffer) : Nat := fieldAt sector 510 2

/-- `disk_size`. -/
def diskSize : Nat := 1048576

/-- `already_installed`. -/
def isInstalled (dev : BlockDevice) : Bool :=
  Bpb.signature (BlockDevice.read dev kPartitionStartLBA) == 0xAA55

/-- The part of `KernelMain` that finds the volume: the driver that it mounts, and the disk. -/
def bootDisk (dev : BlockDevice) (usb : Option BlockDevice) (memory : List Byte → Option Buffer) :
    FAT32Driver × BlockDevice :=
  let alreadyInstalled := isInstalled dev
  let dev := if alreadyInstalled then dev else formatDisk dev diskSize
  let nvmeFs := initializeFrom dev kPartitionStartLBA
  (nvmeFs, runInstaller nvmeFs dev usb memory alreadyInstalled)

section Reserved

variable {fs : FAT32Driver} {dev dev' : BlockDevice} {usb : Option BlockDevice}
  {memory : List Byte → Option Buffer}

/-- The installer writes files and directories only. -/
theorem DataBehind.runInstaller (h : DataBehind fs) (dev : BlockDevice) (b : Bool) :
    KeepsReserved fs dev (runInstaller fs dev usb memory b) := by
  unfold Sylphia.runInstaller
  split
  · exact KeepsReserved.refl fs dev
  dsimp only
  split
  · exact KeepsReserved.refl fs dev
  · have hdirs := @Logged.within_foldl _ _ _ (fs.fatStartLba ≤ ·) _
      (fun dev path => (fs.ensureDirectory dev path).2) systemDirectories
      (fun path _ d => h.ensureDirectory d path) dev
    exact (hdirs.trans (Logged.within_foldl (fun file _ d => h.copyFileFrom d ..) _)).trans
      (h.writeFile ..)

/-- The FATs of a mounted volume are in front of its data. -/
theorem dataBehind_initializeFrom (dev : BlockDevice) {partLba : Nat} (h : partLba < 2 ^ 32) :
    DataBehind (initializeFrom dev partLba) := by
  have hreserved := fieldAt_lt (BlockDevice.read dev partLba) 14 2
  have hle : (initializeFrom dev partLba).fatStartLba < 2 ^ 33 := by
    rw [initializeFrom]
    dsimp only
    rw [Bpb.reservedSecCnt]
    omega
  have hdata : (initializeFrom dev partLba).dataStartLba =
      ((initializeFrom dev partLba).fatStartLba +
        Bpb.numFats (BlockDevice.read dev partLba) *
          Bpb.fatSz32 (BlockDevice.read dev partLba) % 2 ^ 32) % 2 ^ 64 := rfl
  rw [DataBehind, hdata]
  omega

end Reserved

/-- `KernelMain` takes the disk for installed, and the boot sector is in front of the FATs. -/
def Accepted (d : Disk) : Prop :=
  isInstalled ⟨d, []⟩ = true ∧ 1 ≤ Bpb.reservedSecCnt (d kPartitionStartLBA)

/-- The driver that is mounted. -/
def mountedDriver (d : Disk) : FAT32Driver := initializeFrom ⟨d, []⟩ kPartitionStartLBA

section Accepted

variable {d d' : Disk} {usb : Option BlockDevice} {memory : List Byte → Option Buffer}

/-- `Initialize` only reads. -/
theorem initializeFrom_store (dev : BlockDevice) (partLba : Nat) :
    initializeFrom ⟨dev.store, []⟩ partLba = initializeFrom dev partLba := rfl

/-- The boot sector decides what is mounted. -/
theorem mountedDriver_congr (h : d' kPartitionStartLBA = d kPartitionStartLBA) :
    mountedDriver d' = mountedDriver d := by
  have hfield {off w : Nat} (hw : off + w ≤ 512) :
      fieldAt (BlockDevice.read ⟨d', []⟩ kPartitionStartLBA) off w =
        fieldAt (BlockDevice.read ⟨d, []⟩ kPartitionStartLBA) off w := by
    rw [fieldAt_read _ _ hw, fieldAt_read _ _ hw]
    exact congrArg (fun sector => fieldAt sector off w) h
  rw [mountedDriver, mountedDriver, initializeFrom, initializeFrom]
  simp only [Bpb.secPerClus, Bpb.reservedSecCnt, Bpb.numFats, Bpb.fatSz32, Bpb.rootClus]
  rw [hfield (by decide), hfield (by decide), hfield (by decide), hfield (by decide),
    hfield (by decide)]

theorem isInstalled_congr {dev dev' : BlockDevice}
    (h : dev'.store kPartitionStartLBA = dev.store kPartitionStartLBA) :
    isInstalled dev' = isInstalled dev := by
  rw [isInstalled, isInstalled, Bpb.signature, Bpb.signature, fieldAt_read _ _ (by decide),
    fieldAt_read _ _ (by decide), h]

theorem mountedDriver_fatStartLba (d : Disk) : (mountedDriver d).fatStartLba =
    kPartitionStartLBA + Bpb.reservedSecCnt (d kPartitionStartLBA) := by
  have hreserved := fieldAt_lt (d kPartitionStartLBA) 14 2
  have hread : Bpb.reservedSecCnt (BlockDevice.read ⟨d, []⟩ kPartitionStartLBA) =
      Bpb.reservedSecCnt (d kPartitionStartLBA) := fieldAt_read ⟨d, []⟩ _ (by decide)
  have hmounted : (mountedDriver d).fatStartLba = (kPartitionStartLBA +
      Bpb.reservedSecCnt (BlockDevice.read ⟨d, []⟩ kPartitionStartLBA)) % 2 ^ 64 := rfl
  rw [hmounted, hread, kPartitionStartLBA]
  rw [Bpb.reservedSecCnt, kPartitionStartLBA] at *
  omega

theorem mountedDriver_dataBehind (d : Disk) : DataBehind (mountedDriver d) :=
  dataBehind_initializeFrom ⟨d, []⟩ (by decide)

/-- A boot from an accepted disk mounts the volume and writes nothing. -/
theorem Accepted.bootDisk (h : Accepted d) : bootDisk ⟨d, []⟩ usb memory =
    (mountedDriver d, ⟨d, []⟩) := by
  rw [Sylphia.bootDisk]
  simp only [h.1, if_true]
  refine Prod.ext rfl ?_
  cases usb with
  | none => rfl
  | some usb => rfl

/-- The sectors of a disk in front of the FATs are those of the other. -/
def SameReserved (d d' : Disk) : Prop := ∀ lba < (mountedDriver d).fatStartLba, d' lba = d lba

theorem Accepted.boot_lt (h : Accepted d) : kPartitionStartLBA < (mountedDriver d).fatStartLba := by
  have hpos := h.2
  rw [mountedDriver_fatStartLba]
  omega

theorem SameReserved.mounted (h : SameReserved d d') (ha : Accepted d) :
    mountedDriver d' = mountedDriver d := mountedDriver_congr (h _ ha.boot_lt)

theorem SameReserved.accepted (h : SameReserved d d') (ha : Accepted d) : Accepted d' := by
  have hsame : d' kPartitionStartLBA = d kPartitionStartLBA := h _ ha.boot_lt
  refine ⟨?_, ?_⟩
  · rw [@isInstalled_congr ⟨d, []⟩ ⟨d', []⟩ hsame]
    exact ha.1
  · rw [hsame]
    exact ha.2

end Accepted

/-- The disk, and the volume that is mounted while the computer is on. -/
structure Computer where
  disk : Disk
  mounted : Option FAT32Driver

/-- What writes to the disk. -/
inductive Activity
  | boot (usb : Option BlockDevice) (memory : List Byte → Option Buffer)
  | operation (op : FatOperation)

/-- An activity comes to its end, or the power is cut after so many sector writes of it. -/
inductive PowerOp
  | complete (activity : Activity)
  | cut (activity : Activity) (writes : Nat)

namespace Computer

/-- The driver and the device at the end of an activity; `none` when there is no volume, or when
the operation never ends. -/
def perform (s : Computer) : Activity → Option (FAT32Driver × BlockDevice)
  | .boot usb memory => some (bootDisk ⟨s.disk, []⟩ usb memory)
  | .operation op => s.mounted.bind fun fs => (op.run fs ⟨s.disk, []⟩).map fun dev => (fs, dev)

/-- One step. -/
def step (s : Computer) : PowerOp → Computer
  | .complete activity =>
    match s.perform activity with
    | some (fs, dev) => ⟨dev.store, some fs⟩
    | none => s
  | .cut activity writes =>
    match s.perform activity with
    | some (_, dev) => ⟨replay (dev.log.take writes) s.disk, none⟩
    | none => s

/-- The activity comes to an end. -/
def Can (s : Computer) : PowerOp → Prop
  | .complete activity => s.perform activity ≠ none
  | .cut activity _ => s.perform activity ≠ none

/-- In front of the FATs everything is as on the first disk, and its volume is what is mounted. -/
structure Inv (d : Disk) (s : Computer) : Prop where
  same : SameReserved d s.disk
  mounted : ∀ fs, s.mounted = some fs → fs = mountedDriver d

theorem Inv.perform {d : Disk} {s : Computer} (h : Inv d s) (ha : Accepted d) {activity : Activity}
    {fs : FAT32Driver} {dev : BlockDevice} (hp : s.perform activity = some (fs, dev)) :
    fs = mountedDriver d ∧ KeepsReserved (mountedDriver d) ⟨s.disk, []⟩ dev := by
  cases activity with
  | boot usb memory =>
    have hboot := Option.some.inj hp
    rw [(h.same.accepted ha).bootDisk, h.same.mounted ha] at hboot
    cases hboot
    exact ⟨rfl, KeepsReserved.refl _ _⟩
  | operation op =>
    obtain ⟨fs', hfs, hrun⟩ := Option.bind_eq_some_iff.mp hp
    obtain ⟨dev', hdev, heq⟩ := Option.map_eq_some_iff.mp hrun
    cases heq
    obtain rfl := h.mounted fs hfs
    exact ⟨rfl, FatOperation.keepsReserved (mountedDriver_dataBehind d) hdev⟩

/-- After any number of the writes. -/
theorem Inv.replay {d : Disk} {s : Computer} (h : Inv d s) {dev : BlockDevice}
    (hk : KeepsReserved (mountedDriver d) ⟨s.disk, []⟩ dev) {ws : List (Nat × Buffer)}
    (hws : ws <+: dev.log) : SameReserved d (WriteLog.replay ws s.disk) := by
  intro lba hlba
  rw [Logged.replay_of_forall_ne, h.same lba hlba]
  rintro w hw rfl
  have hge := Logged.Within.forall_log hk (fun w hw => absurd hw List.not_mem_nil) w
    (hws.subset hw)
  exact absurd hge (Nat.not_le.mpr hlba)

theorem Inv.step {d : Disk} {s : Computer} (h : Inv d s) (ha : Accepted d) (op : PowerOp) :
    Inv d (s.step op) := by
  cases op with
  | complete activity =>
    rw [Computer.step]
    split
    · next fs dev hp =>
      obtain ⟨rfl, hk⟩ := h.perform ha hp
      refine ⟨fun lba hlba => ?_, fun fs hfs => (Option.some.inj hfs).symm⟩
      exact (hk.store_eq (Nat.not_le.mpr hlba)).trans (h.same lba hlba)
    · exact h
  | cut activity writes =>
    rw [Computer.step]
    split
    · next fs dev hp =>
      obtain ⟨-, hk⟩ := h.perform ha hp
      exact ⟨h.replay hk (List.take_prefix _ _), fun fs hfs => by cases hfs⟩
    · exact h

end Computer

/-- Through every history of boots, operations with any arguments, and power cuts, an accepted
disk keeps all its sectors in front of the FATs, is mounted as before, and no boot writes. -/
theorem accepted_for_ever {d : Disk} (h : Accepted d) {run : List (Computer × PowerOp)}
    {s : Computer} (hrun : Transition.Run Computer.step Computer.Can (· = ⟨d, none⟩) run s) :
    (∀ lba < (mountedDriver d).fatStartLba, s.disk lba = d lba) ∧
      (∀ fs, s.mounted = some fs → fs = mountedDriver d) ∧
      ∀ usb memory, bootDisk ⟨s.disk, []⟩ usb memory = (mountedDriver d, ⟨s.disk, []⟩) := by
  have hinv := hrun.invariant (I := fun _ s => Computer.Inv d s)
    (fun s hs => by
      subst hs
      exact ⟨fun _ _ => rfl, fun fs hfs => by cases hfs⟩)
    (fun _ s op hi _ => hi.step h op)
  refine ⟨hinv.same, hinv.mounted, fun usb memory => ?_⟩
  rw [(hinv.same.accepted h).bootDisk, hinv.same.mounted h]

/-! ## The first boot -/

section Format

variable {n : Nat}

theorem size_charFields (cs : List Nat) : size (charFields cs) = cs.length := by
  induction cs with
  | nil => rfl
  | cons c cs ih =>
    have hcons : size (charFields (c :: cs)) = 1 + size (charFields cs) := List.sum_cons
    rw [hcons, ih, List.length_cons, Nat.add_comm]

theorem signature_bootSector (n : Nat) :
    Bpb.signature (buffer (bytes (bootSector n).fields)) = 0xAA55 := by
  have hget : ([(2, 0xAA55)] : List Field)[0]? = some (2, 0xAA55) := rfl
  rw [Bpb.signature, FAT32BPB.fields]
  refine fieldAt_buffer_append hget ?_
  simp only [size_append, size_replicate, size_charFields]
  simp [size, offset, bootSector]

theorem reservedSecCnt_bootSector (n : Nat) :
    Bpb.reservedSecCnt (buffer (bytes (bootSector n).fields)) = 32 :=
  fieldAt_buffer (i := 13) (w := 2) (v := 32) rfl (offset_bootSector n (by decide))

/-- A disk with the boot sector of the formatter is accepted. -/
theorem accepted_of_bootSector {d : Disk}
    (h : d kPartitionStartLBA = buffer (bytes (bootSector n).fields)) : Accepted d := by
  refine ⟨?_, ?_⟩
  · rw [isInstalled, Bpb.signature, fieldAt_read _ _ (by decide)]
    change (Bpb.signature (d kPartitionStartLBA) == 0xAA55) = true
    rw [h, signature_bootSector]
    rfl
  · rw [h, reservedSecCnt_bootSector]
    decide

theorem hasRoom_disk : HasRoom (sub64 diskSize 2048) := ⟨by decide, by decide⟩

/-! The formatters write the same sectors whatever is on the disk. -/

theorem writes_writeSectors (lba : Nat) (buf : Buffer) (n : Nat) :
    ∃ ws, Writes (fun dev => BlockDevice.writeSectors dev lba buf n) ws := by
  induction n with
  | zero => exact ⟨_, Writes.refl⟩
  | succ n ih =>
    obtain ⟨ws, h⟩ := ih
    exact ⟨_, h.trans (Writes.write (lba + n) fun k => buf (n * 512 + k))⟩

theorem writes_writeChunks (lba : Nat) (buf : Buffer) (n : Nat) :
    ∃ ws, Writes (fun dev => writeChunks dev lba buf n) ws := by
  induction n with
  | zero => exact ⟨_, Writes.refl⟩
  | succ n ih =>
    obtain ⟨ws, h⟩ := ih
    obtain ⟨vs, hlast⟩ := writes_writeSectors ((lba + n * 8) % 2 ^ 64)
      (fun k => buf (n * 4096 + k)) 8
    exact ⟨_, h.trans hlast⟩

theorem writes_clearSectors (lba n i : Nat) :
    ∃ ws, Writes (fun dev => clearSectors dev lba n i) ws := by
  induction n generalizing i with
  | zero => exact ⟨_, Writes.refl⟩
  | succ n ih =>
    obtain ⟨ws, h⟩ := writes_writeSectors (lba + i) (buffer []) 1
    obtain ⟨vs, hrest⟩ := ih (i + 1)
    exact ⟨_, h.trans hrest⟩

theorem writes_formatDiskGPT (n : Nat) : ∃ ws, Writes (fun dev => formatDiskGPT dev n) ws := by
  obtain ⟨_, h₁⟩ := writes_writeSectors 0 (buffer (bytes (protectiveMbr n).fields)) 1
  obtain ⟨_, h₂⟩ := writes_writeChunks 2 (buffer (entryBytes n)) 4
  obtain ⟨_, h₃⟩ := writes_writeChunks (backupStartLba n) (buffer (entryBytes n)) 4
  obtain ⟨_, h₄⟩ := writes_writeSectors 1
    (buffer (bytes (primaryHeader n (entriesCrc n)).seal.fields)) 1
  obtain ⟨_, h₅⟩ := writes_writeSectors (sub64 n 1)
    (buffer (bytes ((primaryHeader n (entriesCrc n)).seal.toBackup n).seal.fields)) 1
  have hall := (((h₁.trans h₂).trans h₃).trans h₄).trans h₅
  refine ⟨_, fun d => Eq.trans ?_ (hall d)⟩
  dsimp only [formatDiskGPT]

/-- `FormatPartitionFAT32` behind its first write, which is that of the boot sector. -/
def formatBehindBpb (dev : BlockDevice) (n : Nat) : BlockDevice :=
  let dev := BlockDevice.writeSectors dev (kPartitionStartLBA + 6)
    (buffer (bytes (bootSector n).fields)) 1
  let fsInfo := buffer (bytes (fsInfoSector n).fields)
  let dev := BlockDevice.writeSectors dev (kPartitionStartLBA + 1) fsInfo 1
  let dev := BlockDevice.writeSectors dev (kPartitionStartLBA + 7) fsInfo 1
  let fatEntries := buffer (bytes firstFatSector)
  let dev := BlockDevice.writeSectors dev fat1Start fatEntries 1
  let dev := BlockDevice.writeSectors dev (fat2Start n) fatEntries 1
  let dev := clearSectors dev fat1Start 127 1
  let dev := clearSectors dev (fat2Start n) 127 1
  clearSectors dev (dataStartLba n) 8 0

theorem writes_formatBehindBpb (n : Nat) : ∃ ws, Writes (fun dev => formatBehindBpb dev n) ws := by
  obtain ⟨_, h₁⟩ := writes_writeSectors (kPartitionStartLBA + 6)
    (buffer (bytes (bootSector n).fields)) 1
  obtain ⟨_, h₂⟩ := writes_writeSectors (kPartitionStartLBA + 1)
    (buffer (bytes (fsInfoSector n).fields)) 1
  obtain ⟨_, h₃⟩ := writes_writeSectors (kPartitionStartLBA + 7)
    (buffer (bytes (fsInfoSector n).fields)) 1
  obtain ⟨_, h₄⟩ := writes_writeSectors fat1Start (buffer (bytes firstFatSector)) 1
  obtain ⟨_, h₅⟩ := writes_writeSectors (fat2Start n) (buffer (bytes firstFatSector)) 1
  obtain ⟨_, h₆⟩ := writes_clearSectors fat1Start 127 1
  obtain ⟨_, h₇⟩ := writes_clearSectors (fat2Start n) 127 1
  obtain ⟨_, h₈⟩ := writes_clearSectors (dataStartLba n) 8 0
  have hall := ((((((h₁.trans h₂).trans h₃).trans h₄).trans h₅).trans h₆).trans h₇).trans h₈
  refine ⟨_, fun d => Eq.trans ?_ (hall d)⟩
  dsimp only [formatBehindBpb]

theorem within_formatBehindBpb (dev : BlockDevice) (n : Nat) :
    Logged.Within (kPartitionStartLBA < ·) dev (formatBehindBpb dev n) := by
  have hone (d : BlockDevice) {lba : Nat} (buf : Buffer) (h : kPartitionStartLBA < lba) :
      Logged.Within (kPartitionStartLBA < ·) d (BlockDevice.writeSectors d lba buf 1) :=
    (BlockDevice.within_writeSectors d lba buf 1).mono fun x hx => h.trans_le hx.1
  have hclear (d : BlockDevice) {lba : Nat} (m i : Nat) (h : kPartitionStartLBA < lba) :
      Logged.Within (kPartitionStartLBA < ·) d (clearSectors d lba m i) :=
    (within_clearSectors d lba m i).mono fun x hx => by omega
  have hbackup : kPartitionStartLBA < kPartitionStartLBA + 6 := by decide
  have hinfo : kPartitionStartLBA < kPartitionStartLBA + 1 := by decide
  have hinfo' : kPartitionStartLBA < kPartitionStartLBA + 7 := by decide
  have hfat1 : kPartitionStartLBA < fat1Start := by decide
  have hfat2 : kPartitionStartLBA < fat2Start n := Nat.lt_add_right _ hfat1
  have hdata : kPartitionStartLBA < dataStartLba n := Nat.lt_add_right _ hfat1
  exact (((((((hone dev _ hbackup).trans (hone _ _ hinfo)).trans (hone _ _ hinfo')).trans
    (hone _ _ hfat1)).trans (hone _ _ hfat2)).trans (hclear _ _ _ hfat1)).trans
    (hclear _ _ _ hfat2)).trans (hclear _ _ _ hdata)

/-- The writes of both formatters: those before the boot sector, its own, and those behind it. -/
theorem writes_formatDisk {n : Nat} (h : 4096 ≤ n) (hn : n < 2 ^ 64) : ∃ us vs,
    Writes (fun dev => formatDisk dev n)
        (us ++ (kPartitionStartLBA, buffer (bytes (bootSector (sub64 n 2048)).fields)) :: vs) ∧
      (∀ u ∈ us, u.1 ≠ kPartitionStartLBA) ∧ ∀ v ∈ vs, v.1 ≠ kPartitionStartLBA := by
  obtain ⟨us, hus⟩ := writes_formatDiskGPT n
  obtain ⟨vs, hvs⟩ := writes_formatBehindBpb (sub64 n 2048)
  have hbpb := Writes.write kPartitionStartLBA
    (buffer (bytes (bootSector (sub64 n 2048)).fields))
  refine ⟨us, vs, ?_, fun u hu => ?_, fun v hv => ?_⟩
  · have hall := (hus.trans hbpb).trans hvs
    rw [List.append_assoc] at hall
    intro d
    refine Eq.trans ?_ (hall d)
    have hone (dev : BlockDevice) (buf : Buffer) :
        BlockDevice.writeSectors dev (kPartitionStartLBA + 0) buf 1 =
          dev.write kPartitionStartLBA buf := by
      have hbuf : (fun k => buf (0 * 512 + k)) = buf := by
        funext k
        rw [Nat.zero_mul, Nat.zero_add]
      rw [BlockDevice.writeSectors, BlockDevice.writeSectors, hbuf, Nat.add_zero]
    dsimp only [formatDisk]
    rw [← hone]
    rfl
  · have hin := hus.forall_of_within
      (gptSectors_format (by omega) hn ⟨fun _ _ => 0, []⟩).within u hu
    rw [kPartitionStartLBA]
    omega
  · have hin := hvs.forall_of_within (within_formatBehindBpb ⟨fun _ _ => 0, []⟩ _) v hv
    exact Nat.ne_of_gt hin

/-- Once the boot sector is there it stays: `d'` is the disk after some of the writes of a first
boot. -/
theorem boot_interrupted {d : Disk} (hempty : isInstalled ⟨d, []⟩ = false)
    (usb : Option BlockDevice) (memory : List Byte → Option Buffer) :
    ∃ us vs, (bootDisk ⟨d, []⟩ usb memory).2.log = us ++ vs ∧
      (∀ u ∈ us, u.1 ≠ kPartitionStartLBA) ∧
      (∀ ws, ws <+: us → formatDisk ⟨replay ws d, []⟩ diskSize = formatDisk ⟨d, []⟩ diskSize) ∧
      ∀ ws, ws <+: us ++ vs → ws <+: us ∨
        (∃ w ∈ ws, w.1 = kPartitionStartLBA) ∧ replay ws d kPartitionStartLBA =
          buffer (bytes (bootSector (sub64 diskSize 2048)).fields) := by
  obtain ⟨us, vs, hwrites, hus, hvs⟩ := writes_formatDisk (n := diskSize) (by decide) (by decide)
  have hformat := hwrites ⟨d, []⟩
  dsimp only at hformat
  rw [List.nil_append] at hformat
  have hboot : (bootDisk ⟨d, []⟩ usb memory).2 =
      runInstaller (initializeFrom (formatDisk ⟨d, []⟩ diskSize) kPartitionStartLBA)
        (formatDisk ⟨d, []⟩ diskSize) usb memory false := by
    rw [bootDisk]
    simp only [hempty, Bool.false_eq_true, if_false]
  have hdriver : initializeFrom (formatDisk ⟨d, []⟩ diskSize) kPartitionStartLBA =
      formattedDriver (sub64 diskSize 2048) := initializeFrom_format _ hasRoom_disk
  have hbehind : DataBehind (formattedDriver (sub64 diskSize 2048)) := Nat.le_add_right _ _
  obtain ⟨ts, hlog, -, hts⟩ := @DataBehind.runInstaller _ usb memory hbehind
    (formatDisk ⟨d, []⟩ diskSize) false
  have hts' : ∀ t ∈ ts, t.1 ≠ kPartitionStartLBA := by
    rintro t ht heq
    have hge : fat1Start ≤ t.1 := hts t ht
    rw [heq] at hge
    exact absurd hge (by decide)
  refine ⟨us, (kPartitionStartLBA, buffer (bytes (bootSector (sub64 diskSize 2048)).fields)) ::
    (vs ++ ts), ?_, hus, fun ws hws => ?_, fun ws hws => ?_⟩
  · rw [hboot, hdriver, hlog, hformat, List.append_assoc, List.cons_append]
  · exact hwrites.restart (hws.trans (List.prefix_append us _)) d
  · rcases List.prefix_or_prefix_of_prefix hws (List.prefix_append us _) with hws' | ⟨rest, rfl⟩
    · exact Or.inl hws'
    · rw [List.prefix_append_right_inj] at hws
      cases rest with
      | nil => exact Or.inl (by rw [List.append_nil])
      | cons w rest =>
        obtain ⟨rfl, hrest⟩ := List.cons_prefix_cons.mp hws
        refine Or.inr ⟨⟨_, List.mem_append_right us List.mem_cons_self, rfl⟩, ?_⟩
        have hne : ∀ v ∈ rest, v.1 ≠ kPartitionStartLBA := by
          intro v hv
          rcases List.mem_append.mp (hrest.subset hv) with hv | hv
          · exact hvs v hv
          · exact hts' v hv
        rw [replay_append]
        exact (Logged.replay_of_forall_ne hne _).trans (Function.update_self ..)

/-- The power is cut somewhere in the first boot. When the boot sector had not been written, the
next boot does what the first one would have done; otherwise it takes the disk as it is for
installed, and writes nothing. -/
theorem second_boot {d : Disk} (hempty : isInstalled ⟨d, []⟩ = false)
    (usb usb' : Option BlockDevice) (memory memory' : List Byte → Option Buffer) (writes : Nat) :
    let ws := (bootDisk ⟨d, []⟩ usb memory).2.log.take writes
    bootDisk ⟨replay ws d, []⟩ usb' memory' =
      if kPartitionStartLBA ∈ ws.map Prod.fst then
        (formattedDriver (sub64 diskSize 2048), ⟨replay ws d, []⟩)
      else bootDisk ⟨d, []⟩ usb' memory' := by
  obtain ⟨us, vs, hlog, hus, hformat, hcut⟩ := boot_interrupted hempty usb memory
  intro ws
  have hws : ws <+: us ++ vs := hlog ▸ List.take_prefix writes _
  rcases hcut ws hws with hbefore | ⟨hwritten, hsector⟩
  · have hne : ∀ w ∈ ws, w.1 ≠ kPartitionStartLBA := fun w hw => hus w (hbefore.subset hw)
    rw [if_neg]
    · have hsame : isInstalled ⟨replay ws d, []⟩ = false :=
        (@isInstalled_congr ⟨d, []⟩ ⟨_, []⟩ (Logged.replay_of_forall_ne hne d)).trans hempty
      rw [bootDisk, bootDisk]
      simp only [hsame, hempty, Bool.false_eq_true, if_false, hformat ws hbefore]
    · intro hmem
      obtain ⟨w, hw, hlba⟩ := List.mem_map.mp hmem
      exact hne w hw hlba
  · obtain ⟨w, hw, hlba⟩ := hwritten
    rw [if_pos (List.mem_map.mpr ⟨w, hw, hlba⟩), (accepted_of_bootSector hsector).bootDisk]
    congr 1
    have hbpb : (formatPartitionFAT32 ⟨d, []⟩ (sub64 diskSize 2048)).store kPartitionStartLBA =
        buffer (bytes (bootSector (sub64 diskSize 2048)).fields) :=
      (formatPartitionFAT32_store _ _).1
    have hsame := mountedDriver_congr (hsector.trans hbpb.symm)
    rw [hsame, mountedDriver, initializeFrom_store]
    exact initializeFrom_format ⟨d, []⟩ hasRoom_disk

/-- The power is cut after one write to an empty disk. -/
theorem second_boot_empty :
    let ws := (bootDisk ⟨fun _ _ => 0, []⟩ none fun _ => none).2.log.take 1
    (bootDisk ⟨replay ws fun _ _ => 0, []⟩ none fun _ => none) =
      if kPartitionStartLBA ∈ ws.map Prod.fst then
        (formattedDriver (sub64 diskSize 2048), ⟨replay ws fun _ _ => 0, []⟩)
      else bootDisk ⟨fun _ _ => 0, []⟩ none fun _ => none :=
  second_boot (by decide) none none _ _ 1

end Format

section Formatted

variable {n : Nat}

/-- A partition that was just formatted is accepted and mounted. -/
theorem accepted_format (dev : BlockDevice) (n : Nat) :
    Accepted (formatPartitionFAT32 dev n).store :=
  accepted_of_bootSector (formatPartitionFAT32_store dev n).1

theorem mountedDriver_format (dev : BlockDevice) (h : HasRoom n) :
    mountedDriver (formatPartitionFAT32 dev n).store = formattedDriver n := by
  rw [mountedDriver, initializeFrom_store]
  exact initializeFrom_format dev h

/-- The disk is booted, and then the power is cut while a directory is made. -/
theorem accepted_for_ever_format :
    let d := (formatPartitionFAT32 ⟨fun _ _ => 0, []⟩ 1046528).store
    let s := (Computer.step ⟨d, none⟩ (.complete (.boot none fun _ => none))).step
      (.cut (.operation (.ensureDirectory [0x61#8])) 1)
    s.disk kPartitionStartLBA = d kPartitionStartLBA ∧
      (bootDisk ⟨s.disk, []⟩ none fun _ => none) = (mountedDriver d, ⟨s.disk, []⟩) := by
  intro d s
  have haccepted : Accepted d := accepted_format _ _
  have hboots : (⟨d, none⟩ : Computer).Can (.complete (.boot none fun _ => none)) :=
    Option.some_ne_none _
  have hcan : (Computer.step ⟨d, none⟩ (.complete (.boot none fun _ => none))).Can
      (.cut (.operation (.ensureDirectory [0x61#8])) 1) := Option.some_ne_none _
  obtain ⟨hsame, -, hboot⟩ := accepted_for_ever haccepted
    (.step _ (.step _ (.start rfl) hboots) hcan)
  exact ⟨hsame _ haccepted.boot_lt, hboot none _⟩

end Formatted

end Sylphia
