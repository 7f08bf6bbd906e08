import Sylphia.Core.Bytes
import Sylphia.Core.WriteLog

/-!
# The FAT32 driver

`FAT32Driver` of `fat32_driver.cpp`, on a device that stores what is written. Buffers
are functions from offsets to bytes; a transfer of several sectors is a sequence of
transfers of one. A loop that the source does not bound runs for as many rounds as there
are cluster numbers; beyond that it never ends, and the result is `none`.
-/

namespace Sylphia

open Bytes WriteLog

/-- The sectors of a device, by LBA. -/
abbrev Disk := Nat → Buffer

/-- `BlockDevice`: its sectors and the sequence of the sector writes. -/
abbrev BlockDevice := Logged Nat Buffer

namespace BlockDevice

/-- `Read`: the buffer with the sectors from `lba` on. -/
def read (dev : BlockDevice) (lba : Nat) : Buffer := fun k => dev.store (lba + k / 512) (k % 512)

/-- `Write` of `count` sectors. -/
def writeSectors (dev : BlockDevice) (lba : Nat) (buf : Buffer) : Nat → BlockDevice
  | 0 => dev
  | count + 1 =>
    (writeSectors dev lba buf count).write (lba + count) fun k => buf (count * 512 + k)

end BlockDevice

/-- The parameters of a mounted volume. -/
structure FAT32Driver where
  /-- `sec_per_clus_`. -/
  secPerClus : Nat
  /-- `fat_sz32_`. -/
  fatSz32 : Nat
  /-- `root_clus_`. -/
  rootClus : Nat
  /-- `fat_start_lba_`. -/
  fatStartLba : Nat
  /-- `data_start_lba_`. -/
  dataStartLba : Nat
  deriving DecidableEq, Repr

/-- The first of the end marks of a chain. -/
def endOfChain : Nat := 0x0FFFFFF8

/-- More rounds than there are cluster numbers. -/
def loopBound : Nat := 2 ^ 28 + 1

/-- `DirectoryEntry`: its 32 bytes. -/
abbrev DirectoryEntry := List Byte

namespace DirectoryEntry

/-- `name`. -/
def name (e : DirectoryEntry) : List Byte := e.take 11

/-- `name[0]`. -/
def first (e : DirectoryEntry) : Byte := e.getD 0 0

/-- `attr`. -/
def attr (e : DirectoryEntry) : Byte := e.getD 11 0

/-- `(fst_clus_hi << 16) | fst_clus_lo`. -/
def firstCluster (e : DirectoryEntry) : Nat :=
  ofLE ((e.drop 20).take 2) * 2 ^ 16 + ofLE ((e.drop 26).take 2)

/-- `file_size`. -/
def fileSize (e : DirectoryEntry) : Nat := ofLE ((e.drop 28).take 4)

/-- `attr & 0x10`. -/
def isDirectory (e : DirectoryEntry) : Bool := e.attr &&& 0x10#8 != 0

/-- The entry that `AddDirectoryEntry` writes. -/
def create (name : List Byte) (startCluster size : Nat) (attr : Byte) : DirectoryEntry :=
  name ++ [attr] ++ List.replicate 8 0 ++ toLE 2 (startCluster / 2 ^ 16) ++ List.replicate 4 0 ++
    toLE 2 startCluster ++ toLE 4 size

/-- The entry with `file_size` set. -/
def setFileSize (e : DirectoryEntry) (size : Nat) : DirectoryEntry := e.take 28 ++ toLE 4 size

/-- The entry with `fst_clus_hi` and `fst_clus_lo` set. -/
def setFirstCluster (e : DirectoryEntry) (cluster : Nat) : DirectoryEntry :=
  e.take 20 ++ toLE 2 (cluster / 2 ^ 16) ++ (e.drop 22).take 4 ++ toLE 2 cluster ++ e.drop 28

/-- The entry marked as deleted. -/
def delete (e : DirectoryEntry) : DirectoryEntry := 0xE5#8 :: e.drop 1

end DirectoryEntry

/-- The entry of a slot of a buffer. -/
def dirEntry (buf : Buffer) (i : Nat) : DirectoryEntry := slice buf (32 * i) 32

/-- A name that a caller passes: its characters up to the NUL, and what memory holds
behind that. -/
structure CString where
  chars : List Byte
  behind : List Byte
  deriving DecidableEq, Repr

namespace CString

/-- `memcpy` of the eleven bytes of a name. -/
def eleven (s : CString) : List Byte := (s.chars ++ 0 :: s.behind ++ List.replicate 11 0).take 11

end CString

/-- `c -= 32` for a lower-case letter. -/
def toUpper (c : Byte) : Byte := if 0x61#8 ≤ c ∧ c ≤ 0x7A#8 then c - 32#8 else c

/-- Blanks up to a length. -/
def padTo (n : Nat) (cs : List Byte) : List Byte := cs ++ List.replicate (n - cs.length) 0x20#8

/-- The name that `IsNameEqual` compares with: eleven characters without a dot as they are,
otherwise a base of at most eight and an extension of at most three. -/
def convertName (target : List Byte) : List Byte :=
  if target.length = 11 ∧ 0x2E#8 ∉ target then target.map toUpper
  else
    let base := target.takeWhile (· ≠ 0x2E#8)
    let rest := target.dropWhile (· ≠ 0x2E#8)
    padTo 8 ((base.take 8).map toUpper) ++ padTo 3 (((rest.drop 1).take 3).map toUpper)

/-- `To83Format`: a base of at most eight and an extension of at most three. -/
def to83Format (src : List Byte) : List Byte :=
  let base := src.takeWhile (· ≠ 0x2E#8)
  let rest := src.dropWhile (· ≠ 0x2E#8)
  padTo 8 ((base.take 8).map toUpper) ++ padTo 3 (((rest.drop 1).take 3).map toUpper)

/-- `IsNameEqual`. -/
def isNameEqual (entryName target : List Byte) : Bool := entryName == convertName target

/-- A slot on the device, by its cluster and its index in it. -/
structure Slot where
  cluster : Nat
  index : Nat
  deriving DecidableEq, Repr

/-- What the search of one cluster of a directory gives. -/
inductive Scan
  | found (index : Nat)
  | ended
  | exhausted
  deriving DecidableEq, Repr

/-- The loop over the slots of a buffer, from the `i`-th on. -/
def scanSlots (buf : Buffer) (name : List Byte) : Nat → Nat → Scan
  | 0, _ => .exhausted
  | n + 1, i =>
    let e := dirEntry buf i
    if e.first = 0 then .ended
    else if e.first = 0xE5#8 then scanSlots buf name n (i + 1)
    else if e.attr = 0x0F#8 then scanSlots buf name n (i + 1)
    else if isNameEqual e.name name then .found i
    else scanSlots buf name n (i + 1)

namespace FAT32Driver

/-- `sec_per_clus_ * 512`. -/
def clusterBytes (fs : FAT32Driver) : Nat := fs.secPerClus * 512

/-- The number of slots of a cluster. -/
def slotsPerCluster (fs : FAT32Driver) : Nat := fs.secPerClus * 512 / 32

/-- `ClusterToLBA`; `cluster - 2` is taken in 32 bits. -/
def clusterToLBA (fs : FAT32Driver) (cluster : Nat) : Nat :=
  fs.dataStartLba + (cluster + 2 ^ 32 - 2) % 2 ^ 32 * fs.secPerClus

/-- `entries[i]` of a FAT sector. -/
def fatEntry (buf : Buffer) (i : Nat) : Nat := ofLE (slice buf (4 * i) 4)

/-- `entries[i] = value`. -/
def setFatEntry (buf : Buffer) (i value : Nat) : Buffer := splice buf (4 * i) (toLE 4 value)

/-- `AllocateCluster`: the first free cluster that the first FAT sector has, 0 for none. -/
def allocateCluster (fs : FAT32Driver) (dev : BlockDevice) : Nat × BlockDevice :=
  let buf := BlockDevice.read dev fs.fatStartLba
  match (List.range' 2 126).find? fun i => fatEntry buf i == 0 with
  | none => (0, dev)
  | some i =>
    let buf := setFatEntry buf i 0x0FFFFFFF
    let dev := BlockDevice.writeSectors dev fs.fatStartLba buf 1
    (i, BlockDevice.writeSectors dev (fs.fatStartLba + fs.fatSz32) buf 1)

/-- `LinkCluster`. -/
def linkCluster (fs : FAT32Driver) (dev : BlockDevice) (current next : Nat) : BlockDevice :=
  let targetLba := fs.fatStartLba + current / 128
  let buf := setFatEntry (BlockDevice.read dev targetLba) (current % 128) next
  let dev := BlockDevice.writeSectors dev targetLba buf 1
  BlockDevice.writeSectors dev (targetLba + fs.fatSz32) buf 1

/-- `GetNextCluster`. -/
def getNextCluster (fs : FAT32Driver) (dev : BlockDevice) (current : Nat) : Nat :=
  fatEntry (BlockDevice.read dev (fs.fatStartLba + current / 128)) (current % 128) &&& 0x0FFFFFFF

/-- The loop of `FreeChain`. -/
def freeChainLoop (fs : FAT32Driver) : Nat → BlockDevice → Nat → Option BlockDevice
  | 0, _, _ => none
  | n + 1, dev, current =>
    if current ≥ 2 ∧ current < endOfChain then
      freeChainLoop fs n (fs.linkCluster dev current 0) (fs.getNextCluster dev current)
    else some dev

/-- `FreeChain`. -/
def freeChain (fs : FAT32Driver) (dev : BlockDevice) (startCluster : Nat) : Option BlockDevice :=
  fs.freeChainLoop loopBound dev startCluster

/-- `(parent_cluster == 0) ? root_clus_ : parent_cluster`. -/
def directoryOf (fs : FAT32Driver) (parentCluster : Nat) : Nat :=
  if parentCluster = 0 then fs.rootClus else parentCluster

/-- A slot that `AddDirectoryEntry` may use. -/
def isFreeSlot (buf : Buffer) (i : Nat) : Bool :=
  (dirEntry buf i).first == 0 || (dirEntry buf i).first == 0xE5#8

/-- The loop of `AddDirectoryEntry` over `n` sectors from `lba` on. -/
def addEntryLoop (dev : BlockDevice) (e : DirectoryEntry) : Nat → Nat → BlockDevice
  | 0, _ => dev
  | n + 1, lba =>
    let buf := BlockDevice.read dev lba
    match (List.range 16).find? (isFreeSlot buf) with
    | some i => BlockDevice.writeSectors dev lba (splice buf (32 * i) e) 1
    | none => addEntryLoop dev e n (lba + 1)

/-- `AddDirectoryEntry`. -/
def addDirectoryEntry (fs : FAT32Driver) (dev : BlockDevice) (name : List Byte)
    (startCluster size : Nat) (attr : Byte) (parentCluster : Nat) : BlockDevice :=
  addEntryLoop dev (.create name startCluster size attr) fs.secPerClus
    (fs.clusterToLBA (fs.directoryOf parentCluster))

/-- The loop of `FindDirectoryEntry`. -/
def findLoop (fs : FAT32Driver) (dev : BlockDevice) (name : List Byte) : Nat → Nat → Option Slot
  | 0, _ => none
  | n + 1, current =>
    if current < endOfChain ∧ current ≥ 2 then
      match scanSlots (BlockDevice.read dev (fs.clusterToLBA current))
        name fs.slotsPerCluster 0 with
      | .found i => some ⟨current, i⟩
      | .ended => none
      | .exhausted => findLoop fs dev name n (fs.getNextCluster dev current)
    else none

/-- The slot that `FindDirectoryEntry` finds; it gives up after 10001 clusters. -/
def findSlot (fs : FAT32Driver) (dev : BlockDevice) (name : List Byte) (parentCluster : Nat) :
    Option Slot :=
  fs.findLoop dev name 10001 (fs.directoryOf parentCluster)

/-- The entry in a slot. -/
def slotEntry (fs : FAT32Driver) (dev : BlockDevice) (s : Slot) : DirectoryEntry :=
  dirEntry (BlockDevice.read dev (fs.clusterToLBA s.cluster)) s.index

/-- `FindDirectoryEntry`. -/
def findDirectoryEntry (fs : FAT32Driver) (dev : BlockDevice) (name : List Byte)
    (parentCluster : Nat) : Option DirectoryEntry :=
  (fs.findSlot dev name parentCluster).map (fs.slotEntry dev)

/-- The search loop of `DeleteFile` and of the last pass of `AppendFile`, which goes on to
the next cluster at the end mark of a directory. The first `none` is an endless loop. -/
def searchLoop (fs : FAT32Driver) (dev : BlockDevice) (name : List Byte) :
    Nat → Nat → Option (Option Slot)
  | 0, _ => none
  | n + 1, current =>
    if current < endOfChain then
      match scanSlots (BlockDevice.read dev (fs.clusterToLBA current))
        name fs.slotsPerCluster 0 with
      | .found i => some (some ⟨current, i⟩)
      | _ => searchLoop fs dev name n (fs.getNextCluster dev current)
    else some none

/-- The sector of a slot is written back from the buffer of its cluster, with another
entry. -/
def writeSlot (fs : FAT32Driver) (dev : BlockDevice) (buf : Buffer) (s : Slot)
    (e : DirectoryEntry) : BlockDevice :=
  let buf := splice buf (32 * s.index) e
  BlockDevice.writeSectors dev (fs.clusterToLBA s.cluster + s.index / 16)
    (fun k => buf (s.index / 16 * 512 + k)) 1

/-- The first cluster of a new directory, with its entries `.` and `..`. -/
def dotEntries (newCluster parentCluster : Nat) : Buffer :=
  let buf := splice (fun _ => 0) 0
    (DirectoryEntry.create (0x2E#8 :: List.replicate 10 0x20#8) newCluster 0 0x10#8)
  splice buf 32
    (DirectoryEntry.create (0x2E#8 :: 0x2E#8 :: List.replicate 9 0x20#8) parentCluster 0 0x10#8)

/-- `CreateDirectory`. -/
def createDirectory (fs : FAT32Driver) (dev : BlockDevice) (name : List Byte)
    (parentCluster : Nat) : Nat × BlockDevice :=
  let (newCluster, dev) := fs.allocateCluster dev
  if newCluster = 0 then (0, dev)
  else
    let buf := dotEntries newCluster parentCluster
    let dev := BlockDevice.writeSectors dev (fs.clusterToLBA newCluster) buf fs.secPerClus
    let dev := fs.linkCluster dev newCluster 0x0FFFFFFF
    (newCluster, fs.addDirectoryEntry dev name newCluster 0 0x10#8 parentCluster)

/-- One cluster of data: `len` bytes from `offset` on, and zeros. -/
def dataBuffer (data : Buffer) (offset len : Nat) : Buffer := fun k =>
  if k < len then data (offset + k) else 0

/-- The loop of `WriteFile`, with `first_cluster` and `prev_cluster`: the two clusters in
the end, or `none` when the disk is full. The first `none` is an endless loop. -/
def writeLoop (fs : FAT32Driver) (data : Buffer) :
    Nat → BlockDevice → Nat → Nat → Nat → Nat → Option (Option (Nat × Nat) × BlockDevice)
  | 0, _, _, _, _, _ => none
  | n + 1, dev, remaining, offset, first, prev =>
    if remaining = 0 then some (some (first, prev), dev)
    else
      let (current, dev) := fs.allocateCluster dev
      if current = 0 then some (none, dev)
      else
        let dev := if first = 0 then dev else fs.linkCluster dev prev current
        let first := if first = 0 then current else first
        let len := if remaining > fs.clusterBytes then fs.clusterBytes else remaining
        let dev := BlockDevice.writeSectors dev (fs.clusterToLBA current)
          (dataBuffer data offset len) fs.secPerClus
        writeLoop fs data n dev (remaining - len) (offset + len) first current

/-- `WriteFile` within `n` rounds. -/
def writeWithin (fs : FAT32Driver) (n : Nat) (dev : BlockDevice) (name : List Byte) (data : Buffer)
    (size parentCluster : Nat) : Option BlockDevice :=
  if size = 0 then some dev
  else
    match fs.writeLoop data n dev size 0 0 0 with
    | none => none
    | some (none, dev) => some dev
    | some (some (first, current), dev) =>
      let dev := fs.linkCluster dev current 0x0FFFFFFF
      some (fs.addDirectoryEntry dev name first size 0x20#8 parentCluster)

/-- `WriteFile`. Every round writes at least one byte, if clusters have sectors. -/
def writeFile (fs : FAT32Driver) (dev : BlockDevice) (name : List Byte) (data : Buffer)
    (size parentCluster : Nat) : BlockDevice :=
  (fs.writeWithin (size + 1) dev name data size parentCluster).getD dev

/-- The search for the last cluster of a chain in `AppendFile`. -/
def lastLoop (fs : FAT32Driver) (dev : BlockDevice) : Nat → Nat → Option Nat
  | 0, _ => none
  | n + 1, last =>
    let next := fs.getNextCluster dev last
    if next ≥ endOfChain then some last else lastLoop fs dev n next

/-- The loop of `AppendFile` over new clusters; it ends early when the disk is full. The
result is `prev_cluster`, or `none` for an endless loop. -/
def appendLoop (fs : FAT32Driver) (data : Buffer) :
    Nat → BlockDevice → Nat → Nat → Nat → Option (Nat × BlockDevice)
  | 0, _, _, _, _ => none
  | n + 1, dev, remaining, offset, prev =>
    if remaining = 0 then some (prev, dev)
    else
      let (newCluster, dev) := fs.allocateCluster dev
      if newCluster = 0 then some (prev, dev)
      else
        let dev := fs.linkCluster dev prev newCluster
        let len := if remaining > fs.clusterBytes then fs.clusterBytes else remaining
        let dev := BlockDevice.writeSectors dev (fs.clusterToLBA newCluster)
          (dataBuffer data offset len) fs.secPerClus
        appendLoop fs data n dev (remaining - len) (offset + len) newCluster

/-- `used_in_last_cluster` for a file of this size. -/
def usedInLast (fs : FAT32Driver) (oldSize : Nat) : Nat :=
  if oldSize % fs.clusterBytes = 0 ∧ oldSize > 0 then fs.clusterBytes else oldSize % fs.clusterBytes

/-- The part of `AppendFile` that writes the data, from the last cluster of the file on, within
`n` rounds. -/
def appendDataWithin (fs : FAT32Driver) (n : Nat) (dev : BlockDevice) (data : Buffer)
    (size oldSize lastCluster : Nat) : Option BlockDevice :=
  let used := fs.usedInLast oldSize
  let free := if oldSize = 0 then fs.clusterBytes else fs.clusterBytes - used
  let len := if size > free then free else size
  let fits := free > 0 ∧ oldSize > 0
  let dev :=
    if fits then
      let lba := fs.clusterToLBA lastCluster
      let buf := splice (BlockDevice.read dev lba) used (slice data 0 len)
      BlockDevice.writeSectors dev lba buf fs.secPerClus
    else dev
  let offset := if fits then len else 0
  (fs.appendLoop data n dev (size - offset) offset lastCluster).map fun last =>
    fs.linkCluster last.2 last.1 0x0FFFFFFF

/-- The part of `AppendFile` that writes the data. Every round writes at least one byte, if
clusters have sectors. -/
def appendData (fs : FAT32Driver) (dev : BlockDevice) (data : Buffer)
    (size oldSize lastCluster : Nat) : BlockDevice :=
  (fs.appendDataWithin (size + 1) dev data size oldSize lastCluster).getD dev

/-- The last part of `AppendFile` within `n` rounds: the entry of the file is found again and
updated. -/
def updateWithin (fs : FAT32Driver) (n : Nat) (dev : BlockDevice) (name : List Byte)
    (targetDir oldSize size firstCluster : Nat) : Option BlockDevice :=
  match fs.searchLoop dev name n targetDir with
  | none => none
  | some none => some dev
  | some (some s) =>
    let buf := BlockDevice.read dev (fs.clusterToLBA s.cluster)
    let e := (dirEntry buf s.index).setFileSize (oldSize + size)
    some (fs.writeSlot dev buf s (if oldSize = 0 then e.setFirstCluster firstCluster else e))

/-- The last part of `AppendFile`. -/
def updateEntry (fs : FAT32Driver) (dev : BlockDevice) (name : List Byte)
    (targetDir oldSize size firstCluster : Nat) : Option BlockDevice :=
  fs.updateWithin loopBound dev name targetDir oldSize size firstCluster

/-- `AppendFile`. -/
def appendFile (fs : FAT32Driver) (dev : BlockDevice) (name : CString) (data : Buffer)
    (size parentCluster : Nat) : Option BlockDevice :=
  if size = 0 then some dev
  else
    let targetDir := fs.directoryOf parentCluster
    match fs.findDirectoryEntry dev name.chars targetDir with
    | none => some (fs.writeFile dev name.eleven data size parentCluster)
    | some entry =>
      if entry.firstCluster = 0 then
        let (first, dev) := fs.allocateCluster dev
        if first = 0 then some dev
        else
          let dev := fs.appendData dev data size entry.fileSize first
          fs.updateEntry dev name.chars targetDir entry.fileSize size first
      else
        match fs.lastLoop dev loopBound entry.firstCluster with
        | none => none
        | some last =>
          let dev := fs.appendData dev data size entry.fileSize last
          fs.updateEntry dev name.chars targetDir entry.fileSize size entry.firstCluster

/-- `DeleteFile` within `n` rounds of each loop. -/
def deleteWithin (fs : FAT32Driver) (n : Nat) (dev : BlockDevice) (name : List Byte)
    (parentCluster : Nat) : Option (Bool × BlockDevice) :=
  match fs.searchLoop dev name n (fs.directoryOf parentCluster) with
  | none => none
  | some none => some (false, dev)
  | some (some s) =>
    let buf := BlockDevice.read dev (fs.clusterToLBA s.cluster)
    let e := dirEntry buf s.index
    let freed := if e.firstCluster = 0 then some dev else fs.freeChainLoop n dev e.firstCluster
    freed.map fun dev => (true, fs.writeSlot dev buf s e.delete)

/-- `DeleteFile`. -/
def deleteFile (fs : FAT32Driver) (dev : BlockDevice) (name : List Byte) (parentCluster : Nat) :
    Option (Bool × BlockDevice) := fs.deleteWithin loopBound dev name parentCluster

/-- The loop of `GetFileEntry` over the components of a path: the slot of the last one. -/
def resolveLoop (fs : FAT32Driver) (dev : BlockDevice) : Nat → List Byte → Nat → Option Slot
  | 0, _, _ => none
  | n + 1, path, current =>
    if path = [] then none
    else
      let component := (path.takeWhile (· ≠ 0x2F#8)).take 15
      let rest := path.drop component.length
      match fs.findSlot dev component current with
      | none => none
      | some s =>
        if rest = [] then some s
        else if !(fs.slotEntry dev s).isDirectory then none
        else
          let next := fs.directoryOf (fs.slotEntry dev s).firstCluster
          let rest := if rest.head? = some 0x2F#8 then rest.drop 1 else rest
          resolveLoop fs dev n rest next

/-- The slot that `GetFileEntry` gets to. -/
def resolve (fs : FAT32Driver) (dev : BlockDevice) (path : List Byte) (baseCluster : Nat) :
    Option Slot :=
  if path.head? = some 0x2F#8 then fs.resolveLoop dev path.length (path.drop 1) fs.rootClus
  else fs.resolveLoop dev path.length path (fs.directoryOf baseCluster)

/-- `GetFileEntry`. -/
def getFileEntry (fs : FAT32Driver) (dev : BlockDevice) (path : List Byte) (baseCluster : Nat) :
    Option DirectoryEntry :=
  (fs.resolve dev path baseCluster).map (fs.slotEntry dev)

/-- The loop of `ReadFile`: the bytes copied to the caller's buffer. -/
def readLoop (fs : FAT32Driver) (dev : BlockDevice) : Nat → Nat → Nat → List Byte
  | 0, _, _ => []
  | n + 1, remaining, current =>
    if remaining > 0 ∧ current < endOfChain then
      let len := if remaining > fs.clusterBytes then fs.clusterBytes else remaining
      slice (BlockDevice.read dev (fs.clusterToLBA current)) 0 len ++
        readLoop fs dev n (remaining - len) (fs.getNextCluster dev current)
    else []

/-- `ReadFile`: the value returned and the bytes copied to the buffer. -/
def readFile (fs : FAT32Driver) (dev : BlockDevice) (path : List Byte)
    (bufferSize baseCluster : Nat) : Nat × List Byte :=
  match fs.getFileEntry dev path baseCluster with
  | none => (0, [])
  | some entry =>
    if entry.fileSize > bufferSize then (0, [])
    else (entry.fileSize, fs.readLoop dev entry.fileSize entry.fileSize entry.firstCluster)

/-- `GetFileSize`. -/
def getFileSize (fs : FAT32Driver) (dev : BlockDevice) (path : List Byte) : Nat :=
  match fs.getFileEntry dev path 0 with
  | some entry => entry.fileSize
  | none => 0

/-- `GetDirectoryCluster`; all ones when there is no such directory. -/
def getDirectoryCluster (fs : FAT32Driver) (dev : BlockDevice) (path : List Byte)
    (baseCluster : Nat) : Nat :=
  if path = [0x2F#8] then fs.rootClus
  else if path = [] ∨ path = [0x2E#8] then fs.directoryOf baseCluster
  else
    match fs.getFileEntry dev path baseCluster with
    | some entry => if entry.isDirectory then fs.directoryOf entry.firstCluster else 0xFFFFFFFF
    | none => 0xFFFFFFFF

/-- The loop of `EnsureDirectory` over the segments of a path, of at most 15 characters. -/
def ensureLoop (fs : FAT32Driver) : Nat → BlockDevice → List Byte → Nat → Nat × BlockDevice
  | 0, dev, _, current => (current, dev)
  | n + 1, dev, path, current =>
    if path = [] then (current, dev)
    else
      let segment := (path.takeWhile (· ≠ 0x2F#8)).take 15
      let rest := path.drop segment.length
      let rest := if rest.head? = some 0x2F#8 then rest.drop 1 else rest
      if segment = [] then (current, dev)
      else
        match fs.findDirectoryEntry dev segment current with
        | some entry =>
          if entry.isDirectory then ensureLoop fs n dev rest entry.firstCluster else (0, dev)
        | none =>
          let (newCluster, dev) := fs.createDirectory dev (to83Format segment) current
          if newCluster = 0 then (0, dev) else ensureLoop fs n dev rest newCluster

/-- `EnsureDirectory`. -/
def ensureDirectory (fs : FAT32Driver) (dev : BlockDevice) (path : List Byte) :
    Nat × BlockDevice :=
  fs.ensureLoop path.length dev (if path.head? = some 0x2F#8 then path.drop 1 else path) fs.rootClus

/-- `filename_part`: what is behind the last slash. -/
def fileNamePart (dstPath : List Byte) : List Byte :=
  (dstPath.reverse.takeWhile (· ≠ 0x2F#8)).reverse

/-- `dir_part`: what is before the last slash, at most 63 characters. -/
def dirPart (dstPath : List Byte) : List Byte :=
  (dstPath.take (dstPath.length - (fileNamePart dstPath).length - 1)).take 63

/-- `CopyFileFrom`; `memory` is what `Allocate` gives for the buffer, `none` for `nullptr`. -/
def copyFileFrom (fs : FAT32Driver) (dev : BlockDevice) (srcFs : FAT32Driver)
    (srcDev : BlockDevice) (srcPath dstPath : List Byte) (memory : Option Buffer) :
    Bool × BlockDevice :=
  let size := srcFs.getFileSize srcDev srcPath
  if size = 0 then (false, dev)
  else
    match memory with
    | none => (false, dev)
    | some buf =>
      let (count, bytes) := srcFs.readFile srcDev srcPath size 0
      if count ≠ size then (false, dev)
      else
        let (parentCluster, dev) :=
          if dirPart dstPath = [] then (0, dev) else fs.ensureDirectory dev (dirPart dstPath)
        if dirPart dstPath ≠ [] ∧ parentCluster = 0 then (false, dev)
        else
          (true, fs.writeFile dev (to83Format (fileNamePart dstPath)) (splice buf 0 bytes) size
            parentCluster)

end FAT32Driver

end Sylphia
