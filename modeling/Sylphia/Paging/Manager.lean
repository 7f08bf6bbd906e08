import Mathlib.Logic.Function.Basic
import Sylphia.Memory.Manager
import Sylphia.Paging.Entry

/-!
# The page manager

`PageManager` of `paging.cpp`. Physical memory is an array of frames of 512 words, and
tables are accessed by their physical address, as the identity mapping of the kernel
has it. Pointers are addresses, with 0 for null.
-/

namespace Sylphia

/-- `kPageSize4K`. -/
def kPageSize4K : Nat := 4096

/-- `PageManager::kPresent`. -/
def kPresent : Nat := 1 <<< 0

/-- `PageManager::kWritable`. -/
def kWritable : Nat := 1 <<< 1

/-- `PageManager::kUser`. -/
def kUser : Nat := 1 <<< 2

/-- `(flags & flag) ? 1 : 0`. -/
def hasFlag (flags flag : Nat) : Bool := flags &&& flag != 0

/-- The state that paging works on. -/
structure PageManager where
  /-- The frame allocator. -/
  frames : MemoryManager
  /-- The word at each index of each frame. -/
  memory : Nat → Nat → PageTableEntry
  /-- `pml4_table_`. -/
  pml4Table : Nat
  /-- The register CR3. -/
  cr3 : Nat
  /-- Whether `AllocateFrame` has returned null to the page manager. -/
  outOfFrames : Bool

namespace PageManager

/-- `table->entries[index]`. -/
def entry (pm : PageManager) (table index : Nat) : PageTableEntry :=
  pm.memory (table / kPageSize4K) index

/-- `table->entries[index] = e`. -/
def setEntry (pm : PageManager) (table index : Nat) (e : PageTableEntry) : PageManager :=
  { pm with
    memory := Function.update pm.memory (table / kPageSize4K)
      (Function.update (pm.memory (table / kPageSize4K)) index e) }

/-- `memset(ptr, 0, 4096)`. -/
def clearFrame (pm : PageManager) (ptr : Nat) : PageManager :=
  { pm with memory := Function.update pm.memory (ptr / kPageSize4K) fun _ => 0 }

/-- `MemoryManager::AllocateFrame`, as the page manager calls it. -/
def allocateFrame (pm : PageManager) : Nat × PageManager :=
  let (ptr, frames) := pm.frames.allocateFrame
  (ptr, { pm with frames, outOfFrames := pm.outOfFrames || ptr == 0 })

/-- `PageManager::AllocateTable`. -/
def allocateTable (pm : PageManager) : Nat × PageManager :=
  let (ptr, pm) := pm.allocateFrame
  if ptr = 0 then (0, pm) else (ptr, pm.clearFrame ptr)

/-- A loop that sets the entries `0, .., n - 1` of a table, each from its old value. -/
def fillTable (pm : PageManager) (table : Nat) (f : Nat → PageTableEntry → PageTableEntry) :
    Nat → PageManager
  | 0 => pm
  | n + 1 =>
    let pm := fillTable pm table f n
    pm.setEntry table n (f n (pm.entry table n))

/-- The lambda `EnsureEntry` of `MapPage`: the table below an entry, made if it is
missing; null when there is no frame for it. -/
def ensureEntry (pm : PageManager) (table index : Nat) (user : Bool) : Nat × PageManager :=
  if (pm.entry table index).present then
    let e := pm.entry table index
    let e := if user then e.setUserSupervisor true else e
    (e.getAddress, pm.setEntry table index e)
  else
    let (newTable, pm) := pm.allocateTable
    if newTable = 0 then (0, pm)
    else
      let e := (((pm.entry table index).setAddress newTable).setPresent true).setReadWrite true
      let e := e.setUserSupervisor user
      (e.getAddress, pm.setEntry table index e)

/-- The entry for the `k`-th page of a 2 MB page, from a cleared entry. -/
def splitEntry (huge : PageTableEntry) (k : Nat) (e : PageTableEntry) : PageTableEntry :=
  let e := e.setAddress (huge.getAddress + k * kPageSize4K) ||| (huge &&& 0xFFF#64)
  (e.setHugePage false).setPresent true

/-- The splitting of a 2 MB page in `MapPage`; it fails when there is no frame. -/
def splitHugePage (pm : PageManager) (pdTable pdIdx : Nat) (user : Bool) : Bool × PageManager :=
  let (newPt, pm) := pm.allocateTable
  if newPt = 0 then (false, pm)
  else
    let pm := pm.fillTable newPt (splitEntry (pm.entry pdTable pdIdx)) 512
    let e := (((pm.entry pdTable pdIdx).setAddress newPt).setHugePage false).setPresent true
    let e := if user then e.setUserSupervisor true else e
    (true, pm.setEntry pdTable pdIdx e)

/-- The last level: the entry of the page itself. -/
def setLeaf (pm : PageManager) (ptTable ptIdx paddr flags : Nat) : PageManager :=
  let e := (pm.entry ptTable ptIdx).setAddress paddr
  let e := (e.setPresent (hasFlag flags kPresent)).setReadWrite (hasFlag flags kWritable)
  pm.setEntry ptTable ptIdx (e.setUserSupervisor (hasFlag flags kUser))

/-- The end of one iteration of `MapPage`: the page table, and the entry of the page in
it; `false` is an early return. -/
def mapInTable (pm : PageManager) (pdTable vaddr paddr flags : Nat) : Bool × PageManager :=
  let pdIdx := vaddr >>> 21 &&& 0x1FF
  let ptIdx := vaddr >>> 12 &&& 0x1FF
  let (ptTable, pm) := pm.ensureEntry pdTable pdIdx (hasFlag flags kUser)
  if ptTable = 0 then (false, pm) else (true, pm.setLeaf ptTable ptIdx paddr flags)

/-- One iteration of `MapPage` from the page directory on, with the splitting of a 2 MB
page that is in the way. -/
def mapInDirectory (pm : PageManager) (pdTable vaddr paddr flags : Nat) : Bool × PageManager :=
  let pdIdx := vaddr >>> 21 &&& 0x1FF
  let e := pm.entry pdTable pdIdx
  let (ok, pm) :=
    if e.present && e.hugePage then pm.splitHugePage pdTable pdIdx (hasFlag flags kUser)
    else (true, pm)
  if !ok then (false, pm) else pm.mapInTable pdTable vaddr paddr flags

/-- One iteration of `MapPage`. -/
def mapOne (pm : PageManager) (vaddr paddr flags : Nat) : Bool × PageManager :=
  let pml4Idx := vaddr >>> 39 &&& 0x1FF
  let pdpIdx := vaddr >>> 30 &&& 0x1FF
  let user := hasFlag flags kUser
  let (pdpTable, pm) := pm.ensureEntry pm.pml4Table pml4Idx user
  if pdpTable = 0 then (false, pm)
  else
    let (pdTable, pm) := pm.ensureEntry pdpTable pdpIdx user
    if pdTable = 0 then (false, pm) else pm.mapInDirectory pdTable vaddr paddr flags

/-- The loop of `MapPage` from its `i`-th page on. -/
def mapLoop (pm : PageManager) (virtualAddr physicalAddr flags : Nat) : Nat → Nat → PageManager
  | 0, _ => pm
  | n + 1, i =>
    let vaddr := (virtualAddr + i * kPageSize4K) % 2 ^ 64
    let paddr := (physicalAddr + i * kPageSize4K) % 2 ^ 64
    let (ok, pm) := pm.mapOne vaddr paddr flags
    if ok then mapLoop pm virtualAddr physicalAddr flags n (i + 1) else pm

/-- `PageManager::MapPage`. -/
def mapPage (pm : PageManager) (virtualAddr physicalAddr count flags : Nat) : PageManager :=
  if pm.pml4Table = 0 then pm else pm.mapLoop virtualAddr physicalAddr flags count 0

/-- The loop of `AllocateVirtual` from its `i`-th page on. -/
def allocateLoop (pm : PageManager) (virtualAddr flags : Nat) : Nat → Nat → Bool × PageManager
  | 0, _ => (true, pm)
  | n + 1, i =>
    let vaddr := (virtualAddr + i * kPageSize4K) % 2 ^ 64
    let (frame, pm) := pm.allocateFrame
    if frame = 0 then (false, pm)
    else allocateLoop ((pm.clearFrame frame).mapPage vaddr frame 1 flags) virtualAddr flags n
      (i + 1)

/-- The number of pages of `AllocateVirtual`, rounded up in `size_t`. -/
def numPages (size : Nat) : Nat := (size + kPageSize4K - 1) % 2 ^ 64 / kPageSize4K

/-- `PageManager::AllocateVirtual`. -/
def allocateVirtual (pm : PageManager) (virtualAddr size flags : Nat) : Bool × PageManager :=
  if virtualAddr % kPageSize4K ≠ 0 then (false, pm)
  else pm.allocateLoop virtualAddr flags (numPages size) 0

/-- An entry that points to a table, present, writable and open to user mode. -/
def linkTable (e : PageTableEntry) (table : Nat) : PageTableEntry :=
  (((e.setAddress table).setPresent true).setReadWrite true).setUserSupervisor true

/-- The entry of the `iPd`-th 2 MB page of the `iPdp`-th gigabyte. -/
def identityEntry (iPdp iPd : Nat) (e : PageTableEntry) : PageTableEntry :=
  let physicalAddr := iPdp * 1024 * 1024 * 1024 + iPd * 2 * 1024 * 1024
  let e := ((e.setAddress physicalAddr).setPresent true).setReadWrite true
  (e.setHugePage true).setUserSupervisor true

/-- The loop of `Initialize` over the first `n` gigabytes. -/
def mapGigabytes (pm : PageManager) (pdpTable : Nat) : Nat → PageManager
  | 0 => pm
  | n + 1 =>
    let pm := mapGigabytes pm pdpTable n
    let (pdTable, pm) := pm.allocateTable
    let pm := pm.setEntry pdpTable n (linkTable (pm.entry pdpTable n) pdTable)
    pm.fillTable pdTable (identityEntry n) 512

/-- `PageManager::Initialize`; `none` when it halts for want of a root table. -/
def initializePaging (pm : PageManager) : Option PageManager :=
  let (pml4Table, pm) := pm.allocateTable
  let pm := { pm with pml4Table }
  if pml4Table = 0 then none
  else
    let (pdpTable, pm) := pm.allocateTable
    let pm := pm.setEntry pml4Table 0 (linkTable (pm.entry pml4Table 0) pdpTable)
    some { pm.mapGigabytes pdpTable 64 with cr3 := pml4Table }

/-- `PageManager::GetKernelCR3`. -/
def getKernelCR3 (pm : PageManager) : Nat := pm.pml4Table

/-- `PageManager::CopyPageTable`; the source ignores its level argument. -/
def copyPageTable (pm : PageManager) (src : Nat) : Nat × PageManager :=
  let (newTable, pm) := pm.allocateTable
  if newTable = 0 then (0, pm)
  else (newTable, pm.fillTable newTable (fun k _ => pm.entry src k) 512)

/-- The duplication of one page directory of a copied PDP table, if it is present. -/
def copyDirectory (pm : PageManager) (newPdp index : Nat) : PageManager :=
  let e := pm.entry newPdp index
  if e.present then
    let (newPd, pm) := pm.copyPageTable e.getAddress
    if newPd = 0 then pm else pm.setEntry newPdp index ((pm.entry newPdp index).setAddress newPd)
  else pm

/-- `PageManager::CreateProcessPageTable`; null when there is no frame for the root. -/
def createProcessPageTable (pm : PageManager) : Nat × PageManager :=
  let (newPml4, pm) := pm.copyPageTable pm.pml4Table
  if newPml4 = 0 then (0, pm)
  else
    let e := pm.entry newPml4 0
    if e.present then
      let (newPdp, pm) := pm.copyPageTable e.getAddress
      if newPdp = 0 then (newPml4, pm)
      else
        let pm := pm.setEntry newPml4 0 ((pm.entry newPml4 0).setAddress newPdp)
        (newPml4, (pm.copyDirectory newPdp 0).copyDirectory newPdp 1)
    else (newPml4, pm)

/-- `PageManager::SwitchPageTable`. -/
def switchPageTable (pm : PageManager) (cr3Value : Nat) : PageManager :=
  if cr3Value = 0 then pm else { pm with cr3 := cr3Value }

/-- `MemoryManager::FreeFrame`, as the page manager calls it. -/
def freeFrame (pm : PageManager) (ptr : Nat) : PageManager :=
  { pm with frames := pm.frames.freeFrame ptr }

/-- The release of one page directory below a PDP table, if it is present: only the
directory itself is freed, and its entry is cleared. -/
def freeDirectory (pm : PageManager) (targetPdp index : Nat) : PageManager :=
  let e := pm.entry targetPdp index
  if e.present then (pm.freeFrame e.getAddress).setEntry targetPdp index 0 else pm

/-- `PageManager::FreeProcessPageTable`. -/
def freeProcessPageTable (pm : PageManager) (cr3Value : Nat) : PageManager :=
  if cr3Value = pm.pml4Table then pm
  else if cr3Value = 0 then pm
  else
    let e := pm.entry cr3Value 0
    let pm :=
      if e.present then
        let targetPdp := e.getAddress
        ((pm.freeDirectory targetPdp 0).freeDirectory targetPdp 1).freeFrame targetPdp
      else pm
    pm.freeFrame cr3Value

/-- `PageManager::AllocateVirtualForProcess`. -/
def allocateVirtualForProcess (pm : PageManager) (targetCr3 virtualAddr size flags : Nat) :
    Bool × PageManager :=
  let currentCr3 := pm.cr3
  let originalPml4 := pm.pml4Table
  let pm := if targetCr3 ≠ currentCr3 then pm.switchPageTable targetCr3 else pm
  let pm := { pm with pml4Table := targetCr3 }
  let (result, pm) := pm.allocateVirtual virtualAddr size flags
  let pm := { pm with pml4Table := originalPml4 }
  (result, if targetCr3 ≠ currentCr3 then pm.switchPageTable currentCr3 else pm)

end PageManager

end Sylphia
