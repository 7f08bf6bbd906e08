import Sylphia.Sys.LoadEffects

/-!
# The bounds of a load

Whether the program headers and the bytes of the segments are read inside the file, and whether
what is written lies in the pages of the segment, depends on numbers of the file that nothing
checks, or that are checked after they have wrapped around.
-/

namespace Sylphia

open Bytes Packed Wrapping

/-- An x86-64 file whose table is said to be at `phoff`. The table of the segments follows the
header, and `data` follows the table. -/
def elfImage (phoff : Nat) (phdrs : List Elf64Phdr) (data : List Byte) : List Byte :=
  RustLoader.ELF_MAGIC ++ List.replicate 12 0 ++
    toLE 2 2 ++ toLE 2 EM_X86_64 ++ toLE 4 1 ++ toLE 8 0x1000000 ++ toLE 8 phoff ++ toLE 8 0 ++
    toLE 4 0 ++ toLE 2 ehdrSize ++ toLE 2 phdrSize ++ toLE 2 phdrs.length ++ toLE 2 0 ++
    toLE 2 0 ++ toLE 2 0 ++
    (phdrs.flatMap fun ph =>
      toLE 4 ph.pType ++ toLE 4 7 ++ toLE 8 ph.pOffset ++ toLE 8 ph.pVaddr ++ toLE 8 ph.pVaddr ++
        toLE 8 ph.pFilesz ++ toLE 8 ph.pMemsz ++ toLE 8 4096) ++
    data

/-- A file of one segment. -/
def oneSegment (ph : Elf64Phdr) (data : List Byte) : Buffer := buffer (elfImage ehdrSize [ph] data)

namespace RustLoader

variable {buf : Buffer} {len : Nat} {ehdr : Elf64Ehdr}

/-- The headers of an accepted file are read inside the buffer exactly when none of them is in
the last 56 bytes of the address space, where the end of the header wraps around. -/
theorem headers_inside_iff (hlen : len < 2 ^ 32) (h : validateElfHeader buf len = .ok ehdr) :
    (∀ offset ∈ headerOffsets len ehdr, 0 ≤ offset ∧ offset + phdrSize ≤ len) ↔
      ∀ i < ehdr.ePhnum,
        (ehdr.ePhoff + i * ehdr.ePhentsize) % 2 ^ 64 < 2 ^ 64 - phdrSize := by
  have hsize : ehdrSize ≤ len := by
    by_contra hlt
    rw [validateElfHeader, if_pos (by omega)] at h
    cases h
  rw [ehdrSize] at hsize
  have hmem {offset : Nat} : offset ∈ headerOffsets len ehdr ↔
      (∃ i < ehdr.ePhnum, (ehdr.ePhoff + i * ehdr.ePhentsize) % 2 ^ 64 = offset) ∧
        (offset + phdrSize) % 2 ^ 64 ≤ len := by
    simp [headerOffsets]
  rw [phdrSize] at *
  constructor
  · intro hin i hi
    by_contra hlast
    -- The end of the header wraps around to less than 56, which is in the buffer.
    have := hin _ (hmem.mpr ⟨⟨i, hi, rfl⟩, by omega⟩)
    omega
  · intro hfar offset hoffset
    obtain ⟨⟨i, hi, rfl⟩, hle⟩ := hmem.mp hoffset
    have := hfar i hi
    omega

/-- The file of one segment behind its table. -/
theorem headers_inside_image :
    let buf := oneSegment ⟨PT_LOAD, 120, 0x1000000, 1, 1⟩ [0xC3]
    ∀ offset ∈ headerOffsets 121 (ehdrOf buf), 0 ≤ offset ∧ offset + phdrSize ≤ 121 := by
  intro buf
  have hvalid : validateElfHeader buf 121 = .ok (ehdrOf buf) := by decide
  exact (headers_inside_iff (by decide) hvalid).mpr (by decide)

/-- A table said to be 8 bytes in front of the end of the address space is read there. -/
theorem headers_outside : ¬ ∀ buf len ehdr, len < 2 ^ 32 → validateElfHeader buf len = .ok ehdr →
    ∀ offset ∈ headerOffsets len ehdr, 0 ≤ offset ∧ offset + phdrSize ≤ len := by
  intro h
  have hin := h (buffer (elfImage (2 ^ 64 - 8) [⟨PT_LOAD, 120, 0x1000000, 1, 1⟩] [0xC3])) 121
    ⟨ELF_MAGIC ++ List.replicate 12 0, EM_X86_64, 0x1000000, 2 ^ 64 - 8, phdrSize, 1⟩
    (by decide) (by decide) (2 ^ 64 - 8) (by decide)
  exact absurd hin.2 (by decide)

end RustLoader

/-- The bytes of the segment are in a file of `len` bytes. -/
def Elf64Phdr.InFile (ph : Elf64Phdr) (len : Nat) : Prop :=
  ph.pFilesz = 0 ∨ ph.pOffset + ph.pFilesz ≤ len

theorem Elf64Phdr.inFile_iff {ph : Elf64Phdr} {len : Nat} :
    ph.InFile len ↔ ∀ k < ph.pFilesz, ph.pOffset + k < len := by
  rw [Elf64Phdr.InFile]
  constructor
  · intro h k hk
    omega
  · intro h
    by_contra hc
    have := h (ph.pFilesz - 1) (by omega)
    omega

/-- A load reads only bytes of the file, and rejects one with a segment that is not in it. -/
structure ReadsOnlyFile (len : Nat) (phs : List Elf64Phdr)
    (r : Except ElfError Unit × LoadState) : Prop where
  inside : ∀ e ∈ r.2.log, e.ReadsInside len
  rejected : ∀ ph ∈ phs, ph.pType = PT_LOAD → ¬ ph.InFile len →
    r.1 ≠ .ok () ∧ .copy ph.pVaddr ph.pOffset ph.pFilesz ∉ r.2.log

namespace RustLoader

variable {store : Store} {file : FileBuffer} {len : Nat} {phs : List Elf64Phdr}
  {pm : PageManager} {ehdr : Elf64Ehdr}

/-- What is logged is the allocation of a segment the loader comes to, or belongs to a segment
that got its pages. -/
theorem mem_log_iff {e : LoadEvent} : e ∈ (loadSegments store file phs ⟨pm, []⟩).2.log ↔
    ∃ x ∈ reached store file phs ⟨pm, []⟩,
      e = .allocateVirtual x.1.startPage x.1.allocSize segmentFlags ∨
        (x.1.allocate x.2).1 = true ∧ e ∈ x.1.fill := by
  rw [log_loadSegments, List.nil_append, List.mem_flatMap]
  refine exists_congr fun x => and_congr_right fun _ => ?_
  rw [Elf64Phdr.events, List.mem_cons]
  refine or_congr_right ?_
  split
  · next h => rw [and_iff_right h]
  · next h => exact iff_of_false List.not_mem_nil fun hc => h hc.1

/-- The loader keeps to the file exactly when each segment that it comes to, and that gets its
pages, is in the file: nothing else stops it. -/
theorem readsOnlyFile_iff : ReadsOnlyFile len phs (loadSegments store file phs ⟨pm, []⟩) ↔
    ∀ x ∈ reached store file phs ⟨pm, []⟩, (x.1.allocate x.2).1 = true → x.1.InFile len := by
  constructor
  · intro h x hx ha
    exact Elf64Phdr.inFile_iff.mpr
      (h.inside _ (mem_log_iff.mpr ⟨x, hx, Or.inr ⟨ha, List.mem_cons_self⟩⟩))
  · intro h
    have hinside : ∀ e ∈ (loadSegments store file phs ⟨pm, []⟩).2.log, e.ReadsInside len := by
      intro e he
      obtain ⟨x, hx, rfl | ⟨ha, he⟩⟩ := mem_log_iff.mp he
      · trivial
      · rcases List.mem_cons.mp he with rfl | he
        · exact Elf64Phdr.inFile_iff.mp (h x hx ha)
        · split at he
          · rw [List.mem_singleton.mp he]
            trivial
          · exact absurd he List.not_mem_nil
    refine ⟨hinside, fun ph hph ht hout => ⟨fun hok => hout ?_, fun he => hout ?_⟩⟩
    · -- A load that succeeds has loaded every segment.
      obtain ⟨hall, hframes⟩ := reached_of_ok hok
      have hmem : ph ∈ (reached store file phs ⟨pm, []⟩).map Prod.fst := by
        rw [hall]
        exact List.mem_filter.mpr ⟨hph, decide_eq_true ht⟩
      obtain ⟨x, hx, rfl⟩ := List.mem_map.mp hmem
      exact h x hx (hframes x hx)
    · exact Elf64Phdr.inFile_iff.mpr (hinside _ he)

/-- A segment said to be 4096 bytes into a file of 120 bytes is loaded. -/
theorem reads_outside_file : ¬ ∀ store file len ehdr pm, len < 2 ^ 32 →
    validateElfHeader (file []) len = .ok ehdr →
    ReadsOnlyFile len (headersRead store file (headerOffsets len ehdr) ⟨pm, []⟩)
      (loadReferences store file (headerOffsets len ehdr) ⟨pm, []⟩) := by
  intro h
  have hin := (h keepMemory (fun _ => oneSegment ⟨PT_LOAD, 4096, 0x1000000, 1, 1⟩ []) 120
    (ehdrOf (oneSegment ⟨PT_LOAD, 4096, 0x1000000, 1, 1⟩ [])) loadingKernel (by decide)
    (by decide)).inside (.copy 0x1000000 4096 1) (by decide +kernel)
  exact absurd (hin 0 Nat.one_pos) (by decide)

end RustLoader

theorem numPages_eq {size : Nat} (h : size < 2 ^ 64) (hs : size % 4096 = 0) :
    PageManager.numPages size = size / 4096 := by
  rw [PageManager.numPages, kPageSize4K]
  omega

/-- The pages of an allocation are one range. -/
theorem inPages_iff {addr size x : Nat} (haddr : addr % 4096 = 0) (hs : size % 4096 = 0)
    (hsize : size < 2 ^ 64) (hx : x < 2 ^ 64) :
    InPages addr size x ↔ InRange (2 ^ 64) addr size x := by
  have hblocks : InRange (4096 * 2 ^ 52) addr (4096 * (size / 4096)) x ↔
      InRange (2 ^ 52) (addr / 4096) (size / 4096) (x / 4096) :=
    inRange_blocks (by decide) (by decide) haddr
  have hpage : x / 4096 < 2 ^ 52 := by omega
  rw [show 4096 * 2 ^ 52 = 2 ^ 64 by decide, Nat.mul_div_cancel' (Nat.dvd_of_mod_eq_zero hs),
    inRange_iff_exists hpage] at hblocks
  rw [hblocks, InPages, numPages_eq hsize hs, kPageSize4K]
  refine exists_congr fun i => and_congr_right fun _ => ?_
  rw [show (addr + i * 4096) % 2 ^ 64 / 4096 = (addr / 4096 + i) % 2 ^ 52 by omega]

namespace Elf64Phdr

variable {ph : Elf64Phdr}

/-- The bytes of the segment in the file end in its last page in memory, and the end of that page
is not past the end of the address space. A segment without bytes needs no page. -/
def FitsPages (ph : Elf64Phdr) : Prop :=
  ph.pFilesz = 0 ∧ ph.pMemsz = 0 ∨
    ph.pVaddr % 4096 + ph.pMemsz + 0xFFF < 2 ^ 64 ∧
      ph.pVaddr % 4096 + ph.pFilesz ≤ pageAlign (ph.pVaddr % 4096 + ph.pMemsz + 0xFFF)

theorem allocSize_eq (h : ph.Widths) :
    ph.allocSize = pageAlign (ph.pVaddr % 4096 + ph.pMemsz + 0xFFF) % 2 ^ 64 := by
  have hv := h.vaddr
  simp only [allocSize, pageAlign]
  omega

theorem inPages_iff (h : ph.Widths) {x : Nat} (hx : x < 2 ^ 64) :
    InPages ph.startPage ph.allocSize x ↔ InRange (2 ^ 64) ph.startPage ph.allocSize x := by
  have hsize := allocSize_eq h
  refine Sylphia.inPages_iff ?_ ?_ (Nat.mod_lt _ (by decide)) hx
  · exact Nat.mul_mod_left _ _
  · rw [hsize, pageAlign]
    omega

/-- What is written for a segment lies in its pages exactly when it fits. -/
theorem covered_iff (h : ph.Widths) : (∀ x < 2 ^ 64, (∃ e ∈ ph.fill, e.Writes x) →
    InPages ph.startPage ph.allocSize x) ↔ ph.FitsPages := by
  have hsize := allocSize_eq h
  have hsub : (∀ x < 2 ^ 64, InRange (2 ^ 64) (ph.startPage + ph.pVaddr % 4096)
      (max ph.pFilesz ph.pMemsz) x → InRange (2 ^ 64) ph.startPage ph.allocSize x) ↔
      max ph.pFilesz ph.pMemsz = 0 ∨
        ph.pVaddr % 4096 + max ph.pFilesz ph.pMemsz ≤ ph.allocSize :=
    subset_iff (by omega) (Nat.mod_lt _ (by decide))
  rw [show ph.startPage + ph.pVaddr % 4096 = ph.pVaddr by rw [startPage, pageAlign]; omega] at hsub
  have hrange : (∀ x < 2 ^ 64, (∃ e ∈ ph.fill, e.Writes x) →
      InPages ph.startPage ph.allocSize x) ↔
      ∀ x < 2 ^ 64, InRange (2 ^ 64) ph.pVaddr (max ph.pFilesz ph.pMemsz) x →
        InRange (2 ^ 64) ph.startPage ph.allocSize x :=
    forall_congr' fun x => forall_congr' fun hx => by rw [writes_fill hx, inPages_iff h hx]
  rw [hrange, hsub, hsize, FitsPages, pageAlign]
  have hmemsz := h.memsz
  omega

end Elf64Phdr

/-- Each segment is written behind its own allocation. -/
theorem writesCovered_flatMap (xs : List (Elf64Phdr × PageManager)) (pages : Nat → Prop) :
    WritesCovered pages (xs.flatMap fun x => x.1.events x.2) ↔
      ∀ x ∈ xs, (x.1.allocate x.2).1 = true →
        ∀ y < 2 ^ 64, (∃ e ∈ x.1.fill, e.Writes y) → InPages x.1.startPage x.1.allocSize y := by
  induction xs generalizing pages with
  | nil => exact iff_of_true trivial fun x hx => absurd hx List.not_mem_nil
  | cons x xs ih =>
    rw [List.flatMap_cons, List.forall_mem_cons, Elf64Phdr.events, Elf64Phdr.allocation]
    cases hok : (x.1.allocate x.2).1
    · rw [if_neg Bool.false_ne_true, List.cons_append, WritesCovered, List.nil_append, ih]
      simp
    · rw [if_pos rfl, List.cons_append, WritesCovered, Elf64Phdr.fill]
      split
      · simp only [List.cons_append, List.nil_append, WritesCovered, ih, ← and_assoc]
        refine and_congr_left fun _ => ?_
        simp [or_imp, forall_and]
      · simp only [List.cons_append, List.nil_append, WritesCovered, ih]
        refine and_congr_left fun _ => ?_
        simp

namespace RustLoader

variable {store : Store} {file : FileBuffer} {len : Nat} {pm : PageManager} {ehdr : Elf64Ehdr}

/-- Everything is written into the pages of its own segment exactly when each segment that the
loader comes to, and that gets its pages, fits them. -/
theorem writesCovered_iff :
    WritesCovered (fun _ => False)
        (loadReferences store file (headerOffsets len ehdr) ⟨pm, []⟩).2.log ↔
      ∀ x ∈ segmentsReached store file (headerOffsets len ehdr) pm,
        (x.1.allocate x.2).1 = true → x.1.FitsPages := by
  rw [log_loadReferences, writesCovered_flatMap]
  exact forall_congr' fun x => forall_congr' fun hx => forall_congr' fun _ =>
    Elf64Phdr.covered_iff (widths_of_reached hx)

/-- A segment of one byte in memory and 4097 bytes in the file: the last one is written behind
its only page. -/
theorem writes_not_covered : ¬ ∀ store file len ehdr pm, len < 2 ^ 32 →
    validateElfHeader (file []) len = .ok ehdr →
    WritesCovered (fun _ => False)
      (loadReferences store file (headerOffsets len ehdr) ⟨pm, []⟩).2.log := by
  intro h
  have hlast : ¬ InPages 0x1000000 4096 0x1001000 := by
    rw [inPages_iff (by decide) (by decide) (by decide) (by decide)]
    decide
  have hlog {log : List LoadEvent} (he : log = [.allocateVirtual 0x1000000 4096 segmentFlags,
      .copy 0x1000000 0 4097]) : ¬ WritesCovered (fun _ => False) log := by
    rw [he, WritesCovered, WritesCovered]
    exact fun hall => hlast (hall.1 0x1001000 (by decide) (show InRange _ _ _ _ by decide))
  refine hlog ?_ (h keepMemory (fun _ => oneSegment ⟨PT_LOAD, 0, 0x1000000, 4097, 1⟩ []) 4097
    (ehdrOf (oneSegment ⟨PT_LOAD, 0, 0x1000000, 4097, 1⟩ [])) loadingKernel ?_ ?_)
  · decide +kernel
  · decide
  · decide

end RustLoader

end Sylphia
