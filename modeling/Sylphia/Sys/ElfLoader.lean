import Sylphia.Core.Packed
import Sylphia.Core.Wrapping
import Sylphia.Paging.Release

/-!
# The two loaders of segments

`CreateProcess` of `elf_loader.cpp` loads the segments of a file in one of two ways, chosen when
the kernel is built: with a loop of its own, or through `rust_elf_load_from_buffer` of
`loader.rs`. Both read the buffer that the file is in while they load, and write through the page
table of the new process. What those writes do to memory, and so to the tables and to the buffer
in it, is a parameter.
-/

namespace Sylphia

open Bytes Packed Wrapping

/-- `Elf64_Ehdr`, with the fields that the loaders read. -/
structure Elf64Ehdr where
  eIdent : List Byte
  eMachine : Nat
  eEntry : Nat
  ePhoff : Nat
  ePhentsize : Nat
  ePhnum : Nat
  deriving DecidableEq

/-- `Elf64_Phdr`, with the fields that the loaders read. -/
structure Elf64Phdr where
  pType : Nat
  pOffset : Nat
  pVaddr : Nat
  pFilesz : Nat
  pMemsz : Nat
  deriving DecidableEq

/-- `sizeof(Elf64_Ehdr)`. -/
def ehdrSize : Nat := 64

/-- `sizeof(Elf64_Phdr)`. -/
def phdrSize : Nat := 56

/-- `PT_LOAD`. -/
def PT_LOAD : Nat := 1

/-- `EM_X86_64`. -/
def EM_X86_64 : Nat := 62

/-- The buffer as an `Elf64_Ehdr`. -/
def ehdrOf (buf : Buffer) : Elf64Ehdr where
  eIdent := slice buf 0 16
  eMachine := fieldAt buf 18 2
  eEntry := fieldAt buf 24 8
  ePhoff := fieldAt buf 32 8
  ePhentsize := fieldAt buf 54 2
  ePhnum := fieldAt buf 56 2

/-- The buffer from `off` on as an `Elf64_Phdr`. -/
def phdrAt (buf : Buffer) (off : Nat) : Elf64Phdr where
  pType := fieldAt buf off 4
  pOffset := fieldAt buf (off + 8) 8
  pVaddr := fieldAt buf (off + 16) 8
  pFilesz := fieldAt buf (off + 32) 8
  pMemsz := fieldAt buf (off + 40) 8

/-- What a loader does: its calls and its writes. -/
inductive LoadEvent
  /-- `PageManager::AllocateVirtual(addr, size, flags)`. -/
  | allocateVirtual (addr size flags : Nat)
  /-- `len` bytes from `offset` of the file are copied to `dest`. -/
  | copy (dest offset len : Nat)
  /-- `len` bytes at `dest` are cleared. -/
  | clear (dest len : Nat)
  deriving DecidableEq

/-- The page manager, and what the loader has done so far. -/
structure LoadState where
  pm : PageManager
  log : List LoadEvent

/-- What the bytes written at a virtual address do to memory. -/
abbrev Store := PageManager → Nat → List Byte → PageManager

/-- The bytes from `file_buf` on, as a loader reads them after what it has done. -/
abbrev FileBuffer := List LoadEvent → Buffer

namespace LoadState

/-- `PageManager::AllocateVirtual`, and `page_allocate_virtual`, which calls it. -/
def allocateVirtual (s : LoadState) (addr size flags : Nat) : Bool × LoadState :=
  let (ok, pm) := s.pm.allocateVirtual addr size flags
  (ok, ⟨pm, s.log ++ [.allocateVirtual addr size flags]⟩)

/-- `memcpy(dest, file_buf + offset, len)`, and `ptr::copy_nonoverlapping`. -/
def copy (store : Store) (file : FileBuffer) (s : LoadState) (dest offset len : Nat) : LoadState :=
  ⟨store s.pm dest (slice (file s.log) offset len), s.log ++ [.copy dest offset len]⟩

/-- `memset(dest, 0, len)`, and `ptr::write_bytes`. -/
def clear (store : Store) (s : LoadState) (dest len : Nat) : LoadState :=
  ⟨store s.pm dest (List.replicate len 0), s.log ++ [.clear dest len]⟩

end LoadState

/-- `addr & ~0xFFF`. -/
def pageAlign (addr : Nat) : Nat := addr / 4096 * 4096

/-- The page flags of a segment. -/
def segmentFlags : Nat := kPresent ||| kWritable ||| kUser

namespace CppLoader

variable (store : Store) (file : FileBuffer)

/-- The body of the loop, for a segment that is to be loaded; `false` is a `break`. -/
def loadSegment (ph : Elf64Phdr) (s : LoadState) : Bool × LoadState :=
  let startPage := pageAlign ph.pVaddr
  let endPage := pageAlign ((ph.pVaddr + ph.pMemsz + 0xFFF) % 2 ^ 64)
  let allocSize := (2 ^ 64 + endPage - startPage) % 2 ^ 64
  let (ok, s) := s.allocateVirtual startPage allocSize segmentFlags
  if !ok then (false, s)
  else
    let s := s.copy store file ph.pVaddr ph.pOffset ph.pFilesz
    if ph.pMemsz > ph.pFilesz then
      (true, s.clear store ((ph.pVaddr + ph.pFilesz) % 2 ^ 64) (ph.pMemsz - ph.pFilesz))
    else (true, s)

end CppLoader

/-- `ElfError`. -/
inductive ElfError
  | fileTooSmall
  | invalidMagic
  | unsupportedMachine
  | invalidProgramHeader
  | kernelMemoryOverlap
  | memoryAllocationFailed
  | fileReadFailed
  deriving DecidableEq

namespace RustLoader

/-- `ELF_MAGIC`. -/
def ELF_MAGIC : List Byte := [0x7F, 0x45, 0x4C, 0x46]

/-- `KERNEL_MEM_START`. -/
def KERNEL_MEM_START : Nat := 0x100000

/-- `KERNEL_MEM_END`. -/
def KERNEL_MEM_END : Nat := 0x400000

/-- `validate_elf_header`. -/
def validateElfHeader (buf : Buffer) (len : Nat) : Except ElfError Elf64Ehdr :=
  if len < ehdrSize then .error .fileTooSmall
  else
    let ehdr := ehdrOf buf
    if ehdr.eIdent.take 4 ≠ ELF_MAGIC then .error .invalidMagic
    else if ehdr.eMachine ≠ EM_X86_64 then .error .unsupportedMachine
    else .ok ehdr

/-- The offsets of the program headers that `get_program_headers` yields. -/
def headerOffsets (len : Nat) (ehdr : Elf64Ehdr) : List Nat :=
  ((List.range ehdr.ePhnum).map fun i => (ehdr.ePhoff + i * ehdr.ePhentsize) % 2 ^ 64).filter
    fun offset => (offset + phdrSize) % 2 ^ 64 ≤ len

/-- `get_program_headers`, when the headers are read at once. -/
def getProgramHeaders (buf : Buffer) (len : Nat) (ehdr : Elf64Ehdr) : List Elf64Phdr :=
  (headerOffsets len ehdr).map (phdrAt buf)

variable (store : Store) (file : FileBuffer)

/-- The body of the loop of `load_segments`, for a segment that is to be loaded. -/
def loadSegment (phdr : Elf64Phdr) (s : LoadState) : Except ElfError Unit × LoadState :=
  if phdr.pVaddr ≥ KERNEL_MEM_START ∧ phdr.pVaddr < KERNEL_MEM_END then
    (.error .kernelMemoryOverlap, s)
  else
    let startPage := pageAlign phdr.pVaddr
    let endPage := pageAlign ((phdr.pVaddr + phdr.pMemsz + 0xFFF) % 2 ^ 64)
    let allocSize := (2 ^ 64 + endPage - startPage) % 2 ^ 64
    let (ok, s) := s.allocateVirtual startPage allocSize segmentFlags
    if !ok then (.error .memoryAllocationFailed, s)
    else
      let s := s.copy store file phdr.pVaddr phdr.pOffset phdr.pFilesz
      if phdr.pMemsz > phdr.pFilesz then
        let bssStart := (phdr.pVaddr + phdr.pFilesz) % 2 ^ 64
        (.ok (), s.clear store bssStart (phdr.pMemsz - phdr.pFilesz))
      else (.ok (), s)

/-- The loop of `load_segments` over given headers. -/
def loadSegments : List Elf64Phdr → LoadState → Except ElfError Unit × LoadState
  | [], s => (.ok (), s)
  | phdr :: phdrs, s =>
    if phdr.pType ≠ PT_LOAD then loadSegments phdrs s
    else
      match loadSegment store file phdr s with
      | (.error e, s) => (.error e, s)
      | (.ok (), s) => loadSegments phdrs s

/-- `load_segments`: `get_program_headers` yields references into the buffer, so that a header is
read when the loop comes to it. -/
def loadReferences : List Nat → LoadState → Except ElfError Unit × LoadState
  | [], s => (.ok (), s)
  | offset :: offsets, s =>
    match loadSegments store file [phdrAt (file s.log) offset] s with
    | (.error e, s) => (.error e, s)
    | (.ok (), s) => loadReferences offsets s

end RustLoader

namespace Elf64Phdr

variable (ph : Elf64Phdr)

/-- A segment starts in the memory of the kernel. -/
def InKernel : Prop :=
  RustLoader.KERNEL_MEM_START ≤ ph.pVaddr ∧ ph.pVaddr < RustLoader.KERNEL_MEM_END

instance decidableInKernel : Decidable ph.InKernel := inferInstanceAs (Decidable (_ ∧ _))

/-- `start_page`. -/
def startPage : Nat := pageAlign ph.pVaddr

/-- `alloc_size`. -/
def allocSize : Nat :=
  (2 ^ 64 + pageAlign ((ph.pVaddr + ph.pMemsz + 0xFFF) % 2 ^ 64) - pageAlign ph.pVaddr) % 2 ^ 64

/-- The allocation of its pages. -/
def allocation : LoadEvent := .allocateVirtual ph.startPage ph.allocSize segmentFlags

/-- The copy of a segment, and the clearing behind it. -/
def fill : List LoadEvent :=
  .copy ph.pVaddr ph.pOffset ph.pFilesz ::
    if ph.pMemsz > ph.pFilesz then
      [.clear ((ph.pVaddr + ph.pFilesz) % 2 ^ 64) (ph.pMemsz - ph.pFilesz)]
    else []

/-- The pages of a segment, allocated. -/
def allocate (pm : PageManager) : Bool × PageManager :=
  pm.allocateVirtual ph.startPage ph.allocSize segmentFlags

/-- The bytes of a segment, written from the buffer. -/
def write (store : Store) (buf : Buffer) (pm : PageManager) : PageManager :=
  let pm := store pm ph.pVaddr (slice buf ph.pOffset ph.pFilesz)
  if ph.pMemsz > ph.pFilesz then
    store pm ((ph.pVaddr + ph.pFilesz) % 2 ^ 64) (List.replicate (ph.pMemsz - ph.pFilesz) 0)
  else pm

/-- What a loader does for a segment that it finds with the page manager `pm`. -/
def events (pm : PageManager) : List LoadEvent :=
  ph.allocation :: if (ph.allocate pm).1 then ph.fill else []

/-- The state once a segment is loaded. -/
def loaded (store : Store) (file : FileBuffer) (s : LoadState) : LoadState where
  pm := ph.write store (file (s.log ++ [ph.allocation])) (ph.allocate s.pm).2
  log := s.log ++ ph.events s.pm

/-- The fields that are `u64`. -/
structure Widths : Prop where
  offset : ph.pOffset < 2 ^ 64
  vaddr : ph.pVaddr < 2 ^ 64
  filesz : ph.pFilesz < 2 ^ 64
  memsz : ph.pMemsz < 2 ^ 64

end Elf64Phdr

theorem widths_phdrAt (buf : Buffer) (off : Nat) : (phdrAt buf off).Widths :=
  ⟨fieldAt_lt _ _ _, fieldAt_lt _ _ _, fieldAt_lt _ _ _, fieldAt_lt _ _ _⟩

variable {store : Store} {file : FileBuffer} {ph : Elf64Phdr} {s : LoadState}

theorem CppLoader.loadSegment_eq : CppLoader.loadSegment store file ph s =
    if (ph.allocate s.pm).1 then (true, ph.loaded store file s)
    else (false, ⟨(ph.allocate s.pm).2, s.log ++ ph.events s.pm⟩) := by
  rw [CppLoader.loadSegment, Elf64Phdr.loaded, Elf64Phdr.events]
  dsimp only [LoadState.allocateVirtual]
  cases hok : (ph.allocate s.pm).1
  · rw [Elf64Phdr.allocate, Elf64Phdr.startPage, Elf64Phdr.allocSize] at hok
    rw [hok]
    rfl
  · rw [Elf64Phdr.allocate, Elf64Phdr.startPage, Elf64Phdr.allocSize] at hok
    rw [hok, if_neg (by decide), if_pos rfl, if_pos rfl, Elf64Phdr.fill, Elf64Phdr.write,
      Elf64Phdr.allocate]
    split
    · simp [LoadState.copy, LoadState.clear, Elf64Phdr.allocation, Elf64Phdr.startPage,
        Elf64Phdr.allocSize]
    · simp [LoadState.copy, Elf64Phdr.allocation, Elf64Phdr.startPage, Elf64Phdr.allocSize]

namespace RustLoader

theorem loadSegment_of_inKernel (h : ph.InKernel) (s : LoadState) :
    loadSegment store file ph s = (.error .kernelMemoryOverlap, s) := if_pos h

/-- Apart from the check of its address, a segment is loaded as `CreateProcess` loads it. -/
theorem loadSegment_of_not_inKernel (h : ¬ ph.InKernel) (s : LoadState) :
    loadSegment store file ph s =
      if (ph.allocate s.pm).1 then (.ok (), ph.loaded store file s)
      else (.error .memoryAllocationFailed, ⟨(ph.allocate s.pm).2, s.log ++ ph.events s.pm⟩) := by
  have hsame : loadSegment store file ph s =
      (if (CppLoader.loadSegment store file ph s).1 then .ok ()
        else .error .memoryAllocationFailed, (CppLoader.loadSegment store file ph s).2) := by
    rw [Elf64Phdr.InKernel] at h
    rw [loadSegment, if_neg h, CppLoader.loadSegment]
    dsimp only
    split
    · rfl
    · split <;> rfl
  rw [hsame, CppLoader.loadSegment_eq]
  split <;> rfl

/-- The loop over one header, and then over the rest. -/
theorem loadSegments_cons (ph : Elf64Phdr) (phs : List Elf64Phdr) (s : LoadState) :
    loadSegments store file (ph :: phs) s =
      if (loadSegments store file [ph] s).1 = .ok () then
        loadSegments store file phs (loadSegments store file [ph] s).2
      else loadSegments store file [ph] s := by
  by_cases ht : ph.pType ≠ PT_LOAD
  · simp [loadSegments, ht]
  · simp only [loadSegments, if_neg ht]
    rcases loadSegment store file ph s with ⟨_ | ⟨⟩, s'⟩
    · simp
    · simp

/-- The headers that `load_segments` reads, as it finds them. -/
def headersRead (store : Store) (file : FileBuffer) : List Nat → LoadState → List Elf64Phdr
  | [], _ => []
  | offset :: offsets, s =>
    phdrAt (file s.log) offset ::
      headersRead store file offsets (loadSegments store file [phdrAt (file s.log) offset] s).2

theorem loadReferences_eq (offsets : List Nat) (s : LoadState) :
    loadReferences store file offsets s =
      loadSegments store file (headersRead store file offsets s) s := by
  induction offsets generalizing s with
  | nil => rfl
  | cons offset offsets ih =>
    rw [loadReferences, headersRead, loadSegments_cons _ (headersRead store file offsets _)]
    rcases loadSegments store file [phdrAt (file s.log) offset] s with ⟨_ | ⟨⟩, s'⟩
    · simp
    · simp [ih]

theorem widths_headersRead {offsets : List Nat} (h : ph ∈ headersRead store file offsets s) :
    ph.Widths := by
  induction offsets generalizing s with
  | nil => cases h
  | cons offset offsets ih =>
    rcases List.mem_cons.mp h with rfl | h
    · exact widths_phdrAt _ _
    · exact ih h

end RustLoader

/-- Memory that is not written to by the loader. -/
def keepMemory : Store := fun pm _ _ => pm

/-- A kernel with five frames left. -/
def loadingKernel : PageManager := bootedKernel [0x07#8]

end Sylphia
