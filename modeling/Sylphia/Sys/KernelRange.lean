import Sylphia.Paging.Mapping
import Sylphia.Sys.LoadBounds

/-!
# The memory of the kernel during a load

`load_segments` looks at the first address of a segment only. The pages of a segment reach as far
as there are frames for them, and its bytes as far as it is long.
-/

namespace Sylphia

open Bytes Packed Wrapping

/-! ## The pages of an allocation -/

namespace PageManager

variable {pm : PageManager}

/-- The pages that the loop of `AllocateVirtual` gets a frame for and gives to `MapPage`. -/
def loopPages (pm : PageManager) (virtualAddr flags : Nat) : Nat → Nat → List Nat
  | 0, _ => []
  | n + 1, i =>
    let vaddr := (virtualAddr + i * kPageSize4K) % 2 ^ 64
    let (frame, pm) := pm.allocateFrame
    if frame = 0 then []
    else
      vaddr :: loopPages ((pm.clearFrame frame).mapPage vaddr frame 1 flags) virtualAddr flags n
        (i + 1)

/-- The pages that `AllocateVirtual` maps. -/
def allocatedPages (pm : PageManager) (virtualAddr size flags : Nat) : List Nat :=
  if virtualAddr % kPageSize4K ≠ 0 then [] else pm.loopPages virtualAddr flags (numPages size) 0

/-- The pages are the first ones asked for. -/
theorem loopPages_eq (pm : PageManager) (v flags n i : Nat) :
    pm.loopPages v flags n i = (List.range (pm.loopPages v flags n i).length).map
      fun j => (v + (i + j) * kPageSize4K) % 2 ^ 64 := by
  induction n generalizing pm i with
  | zero => rfl
  | succ n ih =>
    rw [loopPages]
    dsimp only
    split
    · rfl
    · rw [List.length_cons, List.range_succ_eq_map, List.map_cons, List.map_map, Nat.add_zero]
      refine congrArg _ ((ih _ _).trans (List.map_congr_left fun j _ => ?_))
      rw [Function.comp_apply, Nat.succ_eq_add_one, show i + 1 + j = i + (j + 1) by omega]

end PageManager

/-- The event maps the page of the address. -/
def LoadEvent.Remaps (pm : PageManager) (x : Nat) : LoadEvent → Prop
  | .allocateVirtual addr size flags =>
    ∃ page ∈ pm.allocatedPages addr size flags, pageOf page = pageOf x
  | .copy _ _ _ | .clear _ _ => False

namespace Elf64Phdr

variable {ph : Elf64Phdr} {pm : PageManager}

/-- The number of pages of the segment that there are frames for. -/
def pagesFound (ph : Elf64Phdr) (pm : PageManager) : Nat :=
  (pm.allocatedPages ph.startPage ph.allocSize segmentFlags).length

/-- `n` pages from the first page of the segment on end in front of the memory of the kernel, or
start behind it and do not come round to it. -/
def PagesClear (ph : Elf64Phdr) (n : Nat) : Prop :=
  n = 0 ∨ ph.pVaddr / 4096 % 2 ^ 36 + n ≤ RustLoader.KERNEL_MEM_START / 4096 ∨
    RustLoader.KERNEL_MEM_END / 4096 ≤ ph.pVaddr / 4096 % 2 ^ 36 ∧
      ph.pVaddr / 4096 % 2 ^ 36 + n ≤ 2 ^ 36 + RustLoader.KERNEL_MEM_START / 4096

/-- So do the bytes of the segment. -/
def BytesClear (ph : Elf64Phdr) : Prop :=
  max ph.pFilesz ph.pMemsz = 0 ∨
    ph.pVaddr + max ph.pFilesz ph.pMemsz ≤ RustLoader.KERNEL_MEM_START ∨
    RustLoader.KERNEL_MEM_END ≤ ph.pVaddr ∧
      ph.pVaddr + max ph.pFilesz ph.pMemsz ≤ 2 ^ 64 + RustLoader.KERNEL_MEM_START

theorem remaps_iff (x : Nat) :
    (LoadEvent.allocateVirtual ph.startPage ph.allocSize segmentFlags).Remaps pm x ↔
      InRange (2 ^ 36) (ph.pVaddr / 4096) (ph.pagesFound pm) (pageOf x) := by
  have hstart : ph.startPage % kPageSize4K = 0 := Nat.mul_mod_left _ _
  have hpages : pm.allocatedPages ph.startPage ph.allocSize segmentFlags =
      (List.range (ph.pagesFound pm)).map fun j => (ph.startPage + j * kPageSize4K) % 2 ^ 64 := by
    rw [pagesFound, PageManager.allocatedPages, if_neg (not_not_intro hstart)]
    conv_lhs => rw [PageManager.loopPages_eq]
    simp only [Nat.zero_add]
  have hlt : pageOf x < 2 ^ 36 := Nat.mod_lt _ (by decide)
  rw [LoadEvent.Remaps, hpages, inRange_iff_exists hlt]
  simp only [List.mem_map, List.mem_range, exists_exists_and_eq_and]
  refine exists_congr fun j => and_congr_right fun _ => ?_
  rw [startPage, pageAlign, kPageSize4K, pageOf]
  omega

/-- The memory of the kernel is not remapped exactly when the pages are clear of it. -/
theorem pagesClear_iff : (∀ x, RustLoader.KERNEL_MEM_START ≤ x → x < RustLoader.KERNEL_MEM_END →
    ¬ (LoadEvent.allocateVirtual ph.startPage ph.allocSize segmentFlags).Remaps pm x) ↔
      ph.PagesClear (ph.pagesFound pm) := by
  rw [PagesClear, ← avoids_iff (by decide) (by decide), RustLoader.KERNEL_MEM_START,
    RustLoader.KERNEL_MEM_END]
  constructor
  · intro h page hlo hhi hin
    refine h (4096 * page) (by omega) (by omega) ((remaps_iff _).mpr ?_)
    rwa [pageOf, Nat.mul_div_cancel_left _ (by decide), Nat.mod_eq_of_lt (by omega)]
  · intro h x hlo hhi hre
    refine h (pageOf x) ?_ ?_ ((remaps_iff x).mp hre)
    · rw [pageOf]
      omega
    · rw [pageOf]
      omega

/-- Only the allocation maps pages. -/
theorem not_remaps_of_mem_fill {e : LoadEvent} (he : e ∈ ph.fill) (x : Nat) : ¬ e.Remaps pm x := by
  rcases List.mem_cons.mp he with rfl | he
  · exact not_false
  · split at he
    · rw [List.mem_singleton.mp he]
      exact not_false
    · exact absurd he List.not_mem_nil

/-- It is not written exactly when the bytes are clear of it. -/
theorem bytesClear_iff (h : ph.Widths) :
    (∀ x, RustLoader.KERNEL_MEM_START ≤ x → x < RustLoader.KERNEL_MEM_END →
      ¬ ∃ e ∈ ph.fill, e.Writes x) ↔ ph.BytesClear := by
  have hv : ph.pVaddr % 2 ^ 64 = ph.pVaddr := Nat.mod_eq_of_lt h.vaddr
  have havoid : (∀ x, RustLoader.KERNEL_MEM_START ≤ x → x < RustLoader.KERNEL_MEM_END →
      ¬ InRange (2 ^ 64) ph.pVaddr (max ph.pFilesz ph.pMemsz) x) ↔ _ :=
    avoids_iff (by decide) (by decide)
  rw [hv] at havoid
  rw [BytesClear, ← havoid]
  refine forall_congr' fun x => forall_congr' fun _ => forall_congr' fun hhi => not_congr ?_
  exact writes_fill (hhi.trans (by decide))

end Elf64Phdr

namespace RustLoader

variable {store : Store} {file : FileBuffer} {len : Nat} {pm : PageManager} {ehdr : Elf64Ehdr}

/-- The events of a load, each with the page manager that its segment finds. -/
def loadTrace (store : Store) (file : FileBuffer) (offsets : List Nat) (pm : PageManager) :
    List (PageManager × LoadEvent) :=
  (segmentsReached store file offsets pm).flatMap fun x => (x.1.events x.2).map fun e => (x.2, e)

theorem map_loadTrace (offsets : List Nat) (pm : PageManager) :
    (loadTrace store file offsets pm).map Prod.snd =
      (loadReferences store file offsets ⟨pm, []⟩).2.log := by
  rw [loadTrace, log_loadReferences, List.map_flatMap]
  simp only [List.map_map, Function.comp_def, List.map_id']

/-- The event changes nothing in the memory of the kernel. -/
def KeepsKernel (x : PageManager × LoadEvent) : Prop :=
  ∀ a, KERNEL_MEM_START ≤ a → a < KERNEL_MEM_END → ¬ x.2.Remaps x.1 a ∧ ¬ x.2.Writes a

/-- A load, also one that fails in the end, leaves the memory of the kernel alone exactly when the
pages that there are frames for, and the bytes behind them, are clear of it for each segment
that the load comes to. -/
theorem keepsKernel_iff :
    (loadTrace store file (headerOffsets len ehdr) pm).map Prod.snd =
        (loadReferences store file (headerOffsets len ehdr) ⟨pm, []⟩).2.log ∧
      ((∀ y ∈ loadTrace store file (headerOffsets len ehdr) pm, KeepsKernel y) ↔
        ∀ x ∈ segmentsReached store file (headerOffsets len ehdr) pm,
          x.1.PagesClear (x.1.pagesFound x.2) ∧
            ((x.1.allocate x.2).1 = true → x.1.BytesClear)) := by
  refine ⟨map_loadTrace _ _, ?_⟩
  rw [loadTrace, List.forall_mem_flatMap]
  refine forall_congr' fun x => forall_congr' fun hx => ?_
  rw [← Elf64Phdr.pagesClear_iff, ← Elf64Phdr.bytesClear_iff (widths_of_reached hx),
    List.forall_mem_map, Elf64Phdr.events, List.forall_mem_cons]
  refine and_congr ?_ ?_
  · exact forall_congr' fun a => forall_congr' fun _ => forall_congr' fun _ =>
      and_iff_left not_false
  · cases (x.1.allocate x.2).1
    · simp
    · constructor
      · rintro h - a hlo hhi ⟨e, he, hw⟩
        exact (h e he a hlo hhi).2 hw
      · intro h e he a hlo hhi
        exact ⟨Elf64Phdr.not_remaps_of_mem_fill he a, fun hw => h rfl a hlo hhi ⟨e, he, hw⟩⟩

/-- A segment of two pages, one in front of the memory of the kernel and one in it. -/
theorem kernel_remapped : ¬ ∀ store file len ehdr pm, len < 2 ^ 32 →
    validateElfHeader (file []) len = .ok ehdr →
    ∀ y ∈ loadTrace store file (headerOffsets len ehdr) pm, KeepsKernel y := by
  intro h
  have hkeeps : KeepsKernel (loadingKernel, .allocateVirtual 0xFF000 0x2000 segmentFlags) := by
    refine h keepMemory (fun _ => oneSegment ⟨PT_LOAD, 0, 0xFF000, 0, 0x2000⟩ []) 120
      (ehdrOf (oneSegment ⟨PT_LOAD, 0, 0xFF000, 0, 0x2000⟩ [])) loadingKernel ?_ ?_ _ ?_
    · decide
    · decide
    · have hoffsets : headerOffsets 120 (ehdrOf (oneSegment ⟨PT_LOAD, 0, 0xFF000, 0, 0x2000⟩ [])) =
          [64] := by decide
      have hheader : phdrAt (oneSegment ⟨PT_LOAD, 0, 0xFF000, 0, 0x2000⟩ []) 64 =
          ⟨PT_LOAD, 0, 0xFF000, 0, 0x2000⟩ := by decide
      rw [hoffsets, loadTrace, segmentsReached, headersRead, hheader, reached,
        if_neg (by decide), if_neg (by decide)]
      exact List.mem_cons_self
  have hpages : loadingKernel.allocatedPages 0xFF000 0x2000 segmentFlags = [0xFF000, 0x100000] := by
    decide +kernel
  refine (hkeeps 0x100000 (by decide) (by decide)).1 ⟨0x100000, ?_, by decide⟩
  rw [hpages]
  decide

end RustLoader

end Sylphia
