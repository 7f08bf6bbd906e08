import Sylphia.Sys.ElfLoader

/-!
# What `load_segments` reads and writes

The loader of `loader.rs` copies with raw pointers: nothing behind it checks where it reads or
writes. What it does is a list of events, one group for each segment it comes to, and the
addresses of each event are ranges of the 64-bit address space that may wrap around.
-/

namespace Sylphia

open Bytes Packed Wrapping

namespace LoadEvent

/-- The event writes the byte at the address. -/
def Writes (x : Nat) : LoadEvent → Prop
  | .allocateVirtual _ _ _ => False
  | .copy dest _ len | .clear dest len => InRange (2 ^ 64) dest len x

/-- The bytes of the file that the event reads are inside a buffer of `fileLen` bytes. -/
def ReadsInside (fileLen : Nat) : LoadEvent → Prop
  | .copy _ offset len => ∀ k < len, offset + k < fileLen
  | .allocateVirtual _ _ _ | .clear _ _ => True

end LoadEvent

/-- The address is in one of the pages of `AllocateVirtual(addr, size, flags)`. -/
def InPages (addr size x : Nat) : Prop :=
  ∃ i < PageManager.numPages size,
    x / kPageSize4K = (addr + i * kPageSize4K) % 2 ^ 64 / kPageSize4K

instance decidableInPages (addr size x : Nat) : Decidable (InPages addr size x) :=
  inferInstanceAs (Decidable (∃ i < PageManager.numPages size, _))

/-- What is written lies in the pages of the last allocation before it. -/
def WritesCovered : (Nat → Prop) → List LoadEvent → Prop
  | _, [] => True
  | _, .allocateVirtual addr size _ :: es => WritesCovered (InPages addr size) es
  | pages, .copy dest offset len :: es =>
    (∀ x < 2 ^ 64, LoadEvent.Writes x (.copy dest offset len) → pages x) ∧ WritesCovered pages es
  | pages, .clear dest len :: es =>
    (∀ x < 2 ^ 64, LoadEvent.Writes x (.clear dest len) → pages x) ∧ WritesCovered pages es

/-- What is written for a segment is one range, as long as the segment in the file or in memory. -/
theorem Elf64Phdr.writes_fill {ph : Elf64Phdr} {x : Nat} (hx : x < 2 ^ 64) :
    (∃ e ∈ ph.fill, e.Writes x) ↔ InRange (2 ^ 64) ph.pVaddr (max ph.pFilesz ph.pMemsz) x := by
  rw [fill, List.exists_mem_cons_iff]
  by_cases hlt : ph.pMemsz > ph.pFilesz
  · rw [if_pos hlt, show max ph.pFilesz ph.pMemsz = ph.pFilesz + (ph.pMemsz - ph.pFilesz) by omega,
      inRange_add hx]
    simp [LoadEvent.Writes]
  · rw [if_neg hlt, show max ph.pFilesz ph.pMemsz = ph.pFilesz by omega]
    simp [LoadEvent.Writes]

namespace RustLoader

variable {store : Store} {file : FileBuffer} {ph : Elf64Phdr} {phs : List Elf64Phdr}
  {s : LoadState}

/-- The segments that `load_segments` comes to, each with the page manager that it finds: it
stops at a segment that starts in the memory of the kernel, and behind one without frames. -/
def reached (store : Store) (file : FileBuffer) :
    List Elf64Phdr → LoadState → List (Elf64Phdr × PageManager)
  | [], _ => []
  | ph :: phs, s =>
    if ph.pType ≠ PT_LOAD then reached store file phs s
    else if ph.InKernel then []
    else (ph, s.pm) ::
      if (ph.allocate s.pm).1 then reached store file phs (ph.loaded store file s) else []

/-- The log is made of the events of the segments that the loader comes to. -/
theorem log_loadSegments (phs : List Elf64Phdr) (s : LoadState) :
    (loadSegments store file phs s).2.log =
      s.log ++ (reached store file phs s).flatMap fun x => x.1.events x.2 := by
  induction phs generalizing s with
  | nil => exact (List.append_nil _).symm
  | cons ph phs ih =>
    rw [loadSegments, reached]
    by_cases ht : ph.pType = PT_LOAD
    · rw [if_neg (not_not_intro ht), if_neg (not_not_intro ht)]
      by_cases hk : ph.InKernel
      · rw [loadSegment_of_inKernel hk, if_pos hk]
        exact (List.append_nil _).symm
      · rw [loadSegment_of_not_inKernel hk, if_neg hk, List.flatMap_cons]
        cases (ph.allocate s.pm).1
        · rw [if_neg Bool.false_ne_true, if_neg Bool.false_ne_true, List.flatMap_nil,
            List.append_nil]
        · rw [if_pos rfl, if_pos rfl]
          exact (ih _).trans (List.append_assoc _ _ _)
    · rw [if_pos ht, if_pos ht]
      exact ih s

/-- When the load succeeds, every segment was loaded. -/
theorem reached_of_ok (h : (loadSegments store file phs s).1 = .ok ()) :
    (reached store file phs s).map Prod.fst = phs.filter (fun ph => ph.pType = PT_LOAD) ∧
      ∀ x ∈ reached store file phs s, (x.1.allocate x.2).1 = true := by
  induction phs generalizing s with
  | nil => exact ⟨rfl, fun x hx => absurd hx List.not_mem_nil⟩
  | cons ph phs ih =>
    rw [loadSegments] at h
    rw [reached]
    by_cases ht : ph.pType = PT_LOAD
    · rw [if_neg (not_not_intro ht)] at h ⊢
      rw [List.filter_cons_of_pos (by simpa using ht)]
      by_cases hk : ph.InKernel
      · rw [loadSegment_of_inKernel hk] at h
        cases h
      · rw [loadSegment_of_not_inKernel hk] at h
        cases ha : (ph.allocate s.pm).1
        · rw [ha, if_neg Bool.false_ne_true] at h
          cases h
        · rw [ha, if_pos rfl] at h
          obtain ⟨hsame, hall⟩ := ih h
          rw [if_neg hk, if_pos rfl, List.map_cons, hsame, List.forall_mem_cons]
          exact ⟨rfl, ha, hall⟩
    · rw [if_pos ht] at h ⊢
      rw [List.filter_cons_of_neg (by simpa using ht)]
      exact ih h

theorem mem_of_reached {x : Elf64Phdr × PageManager} (hx : x ∈ reached store file phs s) :
    x.1 ∈ phs ∧ x.1.pType = PT_LOAD ∧ ¬ x.1.InKernel := by
  induction phs generalizing s with
  | nil => exact absurd hx List.not_mem_nil
  | cons ph phs ih =>
    have hrest {s' : LoadState} (h : x ∈ reached store file phs s') :=
      (ih h).imp_left (List.mem_cons_of_mem ph)
    rw [reached] at hx
    by_cases ht : ph.pType = PT_LOAD
    · rw [if_neg (not_not_intro ht)] at hx
      split at hx
      · exact absurd hx List.not_mem_nil
      · next hk =>
        rcases List.mem_cons.mp hx with rfl | hx
        · exact ⟨List.mem_cons_self, ht, hk⟩
        · split at hx
          · exact hrest hx
          · exact absurd hx List.not_mem_nil
    · rw [if_pos ht] at hx
      exact hrest hx

/-- The segments that `load_segments` comes to, with their headers as it reads them. -/
def segmentsReached (store : Store) (file : FileBuffer) (offsets : List Nat) (pm : PageManager) :
    List (Elf64Phdr × PageManager) :=
  reached store file (headersRead store file offsets ⟨pm, []⟩) ⟨pm, []⟩

theorem log_loadReferences (offsets : List Nat) (pm : PageManager) :
    (loadReferences store file offsets ⟨pm, []⟩).2.log =
      (segmentsReached store file offsets pm).flatMap fun x => x.1.events x.2 := by
  rw [loadReferences_eq, log_loadSegments, List.nil_append, segmentsReached]

theorem widths_of_reached {x : Elf64Phdr × PageManager} {offsets : List Nat} {pm : PageManager}
    (hx : x ∈ segmentsReached store file offsets pm) : x.1.Widths :=
  widths_headersRead (mem_of_reached hx).1

end RustLoader

end Sylphia
