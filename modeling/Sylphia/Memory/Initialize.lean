import Mathlib.Order.CompletePartialOrder
import Mathlib.Order.Interval.Set.Disjoint
import Sylphia.Memory.FirstFit

/-!
# The bitmap after `Initialize`

Which frames `MemoryManager::Initialize` leaves free, for any memory map, and for which maps it
finds no place for the bitmap.
-/

namespace Sylphia

/-- The region starts at a frame and ends below `2 ^ 64`. -/
structure MemoryDescriptor.Regular (d : MemoryDescriptor) : Prop where
  aligned : d.physicalStart % 4096 = 0
  fits : d.physicalStart + d.numberOfPages * 4096 < 2 ^ 64

/-- The bytes of a descriptor's region. -/
def MemoryDescriptor.region (d : MemoryDescriptor) : Set Nat :=
  Set.Ico d.physicalStart (d.physicalStart + d.numberOfPages * 4096)

/-- The bytes of a frame. -/
def frameBytes (f : Nat) : Set Nat := Set.Ico (f * 4096) ((f + 1) * 4096)

namespace MemoryManager

/-- `bitmap_size`. -/
def bitmapSizeOf (memmap : List MemoryDescriptor) : Nat := (rangeEndOf memmap / kFrameSize + 7) / 8

/-- The bytes of the bitmap. -/
def bitmapBytes (memmap : List MemoryDescriptor) : Set Nat :=
  let base := bitmapBaseOf memmap (bitmapSizeOf memmap)
  Set.Ico base (base + bitmapSizeOf memmap)

/-- A frame that can be given away: it lies in a conventional region, is not frame 0, and has no
byte of the bitmap or of the kernel. -/
structure Usable (memmap : List MemoryDescriptor) (kStart kEnd f : Nat) : Prop where
  conventional : ∃ d ∈ memmap, d.type = kEfiConventionalMemory ∧ frameBytes f ⊆ d.region
  zero : f ≠ 0
  bitmap : Disjoint (frameBytes f) (bitmapBytes memmap)
  kernel : Disjoint (frameBytes f) (Set.Ico kStart kEnd)

section Release

variable {memmap : List MemoryDescriptor} {d : MemoryDescriptor} {b : Bitmap} {f lo hi : Nat}

/-- The frames of a regular region are those that the third loop of `Initialize` runs over. -/
theorem frameBytes_subset_region (h : d.Regular) : frameBytes f ⊆ d.region ↔
    d.physicalStart / kFrameSize ≤ f ∧ f < d.regionEnd / kFrameSize := by
  have hal := h.aligned
  have hend : d.regionEnd = d.physicalStart + d.numberOfPages * 4096 := Nat.mod_eq_of_lt h.fits
  rw [frameBytes, MemoryDescriptor.region, Set.Ico_subset_Ico_iff (by omega), hend, kFrameSize]
  omega

/-- A frame has no byte between two addresses when it is none of the frames that the rounded
addresses enclose. -/
theorem disjoint_frameBytes_iff (h : lo < hi) (hhi : hi + 4095 < 2 ^ 64) :
    Disjoint (frameBytes f) (Set.Ico lo hi) ↔
      ¬ (lo / kFrameSize ≤ f ∧ f < (hi + kFrameSize - 1) % 2 ^ 64 / kFrameSize) := by
  rw [frameBytes, Set.Ico_disjoint_Ico, kFrameSize, Nat.add_sub_assoc (by decide),
    Nat.mod_eq_of_lt hhi]
  omega

/-- The loops that mark the frames of an area used. -/
theorem get_reserve (hb : f / 8 < b.bitmapSize) (h : lo < hi) (hhi : hi + 4095 < 2 ^ 64) :
    (b.setRange (lo / kFrameSize)
      ((hi + kFrameSize - 1) % 2 ^ 64 / kFrameSize - lo / kFrameSize) true).get f = false ↔
        b.get f = false ∧ Disjoint (frameBytes f) (Set.Ico lo hi) := by
  rw [disjoint_frameBytes_iff h hhi, Bitmap.get_setRange]
  split
  · exact iff_of_false Bool.true_eq_false.mp fun hin => hin.2 ⟨by omega, by omega⟩
  · rename_i hout
    exact (and_iff_left fun hin => hout ⟨hin.1, by omega, hb⟩).symm

theorem get_releaseRegion (hb : f / 8 < b.bitmapSize) (h : d.Regular) :
    (releaseRegion b d).get f = false ↔
      b.get f = false ∨ d.type = kEfiConventionalMemory ∧ frameBytes f ⊆ d.region := by
  rw [releaseRegion, frameBytes_subset_region h]
  split
  · rename_i htype
    rw [Bitmap.get_setRange]
    split
    · exact iff_of_true rfl (Or.inr ⟨htype, by omega, by omega⟩)
    · rename_i hout
      exact (or_iff_left fun hin => hout ⟨hin.2.1, by omega, hb⟩).symm
  · rename_i htype
    exact (or_iff_left fun hin => htype hin.1).symm

@[simp] theorem bitmapSize_releaseRegion (b : Bitmap) (d : MemoryDescriptor) :
    (releaseRegion b d).bitmapSize = b.bitmapSize := by
  rw [releaseRegion]
  split
  · exact Bitmap.bitmapSize_setRange _ _ _ _
  · rfl

/-- The third loop frees the frames of the conventional regions, whatever their order and
overlap. -/
theorem get_releaseFold (h : ∀ d ∈ memmap, d.Regular) (hb : f / 8 < b.bitmapSize) :
    (memmap.foldl releaseRegion b).get f = false ↔ b.get f = false ∨
      ∃ d ∈ memmap, d.type = kEfiConventionalMemory ∧ frameBytes f ⊆ d.region := by
  induction memmap generalizing b with
  | nil => simp
  | cons d memmap ih =>
    rw [List.foldl_cons, ih (fun e he => h e (List.mem_cons_of_mem d he)) (by simpa using hb),
      get_releaseRegion hb (h d List.mem_cons_self), List.exists_mem_cons_iff, or_assoc]

@[simp] theorem bitmapSize_releaseFold (memmap : List MemoryDescriptor) (b : Bitmap) :
    (memmap.foldl releaseRegion b).bitmapSize = b.bitmapSize := by
  induction memmap generalizing b with
  | nil => rfl
  | cons d memmap ih => rw [List.foldl_cons, ih, bitmapSize_releaseRegion]

end Release

section Initialize

variable {memmap : List MemoryDescriptor} {kStart kEnd : Nat} {m : MemoryManager} {f : Nat}

/-- The bitmap is put where it neither wraps around nor leaves its region. -/
theorem bitmapBase_spec (h : ∀ d ∈ memmap, d.Regular)
    (hbase : bitmapBaseOf memmap (bitmapSizeOf memmap) ≠ 0) :
    bitmapBaseOf memmap (bitmapSizeOf memmap) + bitmapSizeOf memmap + 4095 < 2 ^ 64 := by
  rw [bitmapBaseOf] at hbase ⊢
  cases hfind : memmap.find? fun d =>
      d.type = kEfiConventionalMemory && d.regionSize ≥ bitmapSizeOf memmap with
  | none =>
    rw [hfind] at hbase
    exact absurd rfl hbase
  | some d =>
    have hfits := (List.find?_eq_some_iff_append.mp hfind).1
    rw [Bool.and_eq_true, decide_eq_true_eq, decide_eq_true_eq, MemoryDescriptor.regionSize,
      kFrameSize] at hfits
    have hreg := h d (List.mem_of_find?_eq_some hfind)
    have hend := hreg.fits
    have hal := hreg.aligned
    dsimp only
    omega

/-- The bitmap that `Initialize` makes. -/
theorem initializeFrom_bitmap (h : initializeFrom memmap kStart kEnd = some m) :
    bitmapBaseOf memmap (bitmapSizeOf memmap) ≠ 0 ∧
    m.rangeEnd = rangeEndOf memmap ∧
    let base := bitmapBaseOf memmap (bitmapSizeOf memmap)
    let count (lo hi : Nat) := (hi + kFrameSize - 1) % 2 ^ 64 / kFrameSize - lo / kFrameSize
    m.bitmap = (((memmap.foldl releaseRegion ⟨List.replicate (bitmapSizeOf memmap) 0xFF#8⟩).setRange
      (base / kFrameSize) (count base (base + bitmapSizeOf memmap)) true).setRange
        (kStart / kFrameSize) (count kStart kEnd) true).set 0 true := by
  rw [initializeFrom] at h
  dsimp only at h
  split at h
  · exact absurd h (Option.some_ne_none m).symm
  · rename_i hbase
    obtain rfl := Option.some.inj h
    exact ⟨hbase, rfl, rfl⟩

/-- After `Initialize` the bitmap covers the frames of the map up to `range_end_`, and exactly the
usable ones are free in it. -/
theorem initializeFrom_free_iff (hreg : ∀ d ∈ memmap, d.Regular) (hk : kStart < kEnd)
    (hend : kEnd + 4095 < 2 ^ 64) (h : initializeFrom memmap kStart kEnd = some m) :
    m.bitmap.bitmapSize = bitmapSizeOf memmap ∧ m.rangeEnd = rangeEndOf memmap ∧
      (∀ f, f / 8 < m.bitmap.bitmapSize →
        (m.bitmap.get f = false ↔ Usable memmap kStart kEnd f)) ∧
      ∀ f, m.rangeEnd / 4096 ≤ f → m.bitmap.get f = true := by
  obtain ⟨hbase, hrange, hbitmap⟩ := initializeFrom_bitmap h
  have hsize : m.bitmap.bitmapSize = bitmapSizeOf memmap := by
    rw [hbitmap, Bitmap.bitmapSize_set, Bitmap.bitmapSize_setRange, Bitmap.bitmapSize_setRange,
      bitmapSize_releaseFold]
    exact List.length_replicate
  refine ⟨hsize, hrange, fun f hf => ?_, fun f hf => ?_⟩
  · rw [hsize] at hf
    have hplace := bitmapBase_spec hreg hbase
    have hall : (⟨List.replicate (bitmapSizeOf memmap) 0xFF#8⟩ : Bitmap).bitmapSize =
        bitmapSizeOf memmap := List.length_replicate
    have hlen : f / 8 < (memmap.foldl releaseRegion
        ⟨List.replicate (bitmapSizeOf memmap) 0xFF#8⟩).bitmapSize := by
      rwa [bitmapSize_releaseFold, hall]
    have hused := Bitmap.get_allOnes (bitmapSizeOf memmap) f
    rw [hbitmap, Bitmap.get_set]
    by_cases h0 : f = 0
    · rw [if_pos ⟨h0, by simpa [h0] using hlen⟩]
      exact iff_of_false Bool.true_eq_false.mp fun husable => husable.zero h0
    · rw [if_neg fun hin => h0 hin.1, get_reserve (by simpa using hlen) hk hend,
        get_reserve hlen (by omega) hplace, get_releaseFold hreg (by rwa [hall]), hused,
        or_iff_right Bool.true_eq_false.mp]
      constructor
      · rintro ⟨⟨hconv, hbit⟩, hkernel⟩
        exact ⟨hconv, h0, hbit, hkernel⟩
      · intro husable
        exact ⟨⟨husable.conventional, husable.bitmap⟩, husable.kernel⟩
  · by_contra hfree
    rw [Bool.not_eq_true] at hfree
    exact absurd (initializeFrom_free h hfree).2 (not_lt.mpr hf)

/-- A map with the bitmap in the region below the kernel, in frame 1; frame 2 is free. -/
theorem initializeFrom_free_iff_small :
    ∃ m, initializeFrom [⟨7, 0x1000, 16⟩, ⟨7, 0x100000, 64⟩] 0x100000 0x103000 = some m ∧
      m.bitmap.bitmapSize = 40 ∧ m.bitmap.get 1 = true ∧ m.bitmap.get 2 = false ∧
      ∀ f, f / 8 < m.bitmap.bitmapSize → (m.bitmap.get f = false ↔
        Usable [⟨7, 0x1000, 16⟩, ⟨7, 0x100000, 64⟩] 0x100000 0x103000 f) := by
  obtain ⟨m, hm⟩ := Option.isSome_iff_exists.mp (by decide :
    (initializeFrom [⟨7, 0x1000, 16⟩, ⟨7, 0x100000, 64⟩] 0x100000 0x103000).isSome)
  obtain ⟨hsize, -, hfree, -⟩ := initializeFrom_free_iff (fun d hd => by
    rcases List.mem_pair.mp hd with rfl | rfl
    · exact ⟨by decide, by decide⟩
    · exact ⟨by decide, by decide⟩) (by decide) (by decide) hm
  have hcover : m.bitmap.bitmapSize = 40 := hsize.trans (by decide)
  refine ⟨m, hm, hcover, ?_, (hfree 2 (by rw [hcover]; decide)).mpr ?_, hfree⟩
  · refine (Bool.eq_false_or_eq_true _).resolve_right fun hone => ?_
    have hbitmap := ((hfree 1 (by rw [hcover]; decide)).mp hone).bitmap
    have hfirst : 0x1000 ∈ frameBytes 1 := ⟨by decide, by decide⟩
    exact Set.disjoint_left.mp hbitmap hfirst ⟨by decide, by decide⟩
  · refine ⟨⟨⟨7, 0x1000, 16⟩, by decide, rfl, ?_⟩, by decide, ?_, ?_⟩
    · exact Set.Ico_subset_Ico (by decide) (by decide)
    · exact Set.Ico_disjoint_Ico.mpr (by decide)
    · exact Set.Ico_disjoint_Ico.mpr (by decide)

/-- The region that the second loop stops at. -/
def firstRegion (memmap : List MemoryDescriptor) : Option MemoryDescriptor :=
  memmap.find? fun d => d.type = kEfiConventionalMemory && d.regionSize ≥ bitmapSizeOf memmap

/-- A conventional region has room for the bitmap. -/
def HasRegion (memmap : List MemoryDescriptor) : Prop :=
  ∃ d ∈ memmap, d.type = kEfiConventionalMemory ∧ bitmapSizeOf memmap ≤ d.numberOfPages * 4096

theorem initializeFrom_eq_none_iff : initializeFrom memmap kStart kEnd = none ↔
    ∀ d ∈ firstRegion memmap, d.physicalStart = 0 := by
  have hexit : initializeFrom memmap kStart kEnd = none ↔
      bitmapBaseOf memmap (bitmapSizeOf memmap) = 0 := by
    rw [initializeFrom]
    dsimp only
    split
    · rename_i hbase
      exact iff_of_true rfl hbase
    · rename_i hbase
      exact iff_of_false (Option.some_ne_none _) hbase
  rw [hexit, bitmapBaseOf, firstRegion]
  cases memmap.find? fun d =>
      d.type = kEfiConventionalMemory && d.regionSize ≥ bitmapSizeOf memmap with
  | none => simp
  | some d => simp

/-- A region that the loop takes has room, as the product can only lose by its wrapping around. -/
theorem hasRegion_of_firstRegion {d : MemoryDescriptor} (h : firstRegion memmap = some d) :
    HasRegion memmap := by
  have hfits := (List.find?_eq_some_iff_append.mp h).1
  rw [Bool.and_eq_true, decide_eq_true_eq, decide_eq_true_eq, MemoryDescriptor.regionSize,
    kFrameSize] at hfits
  exact ⟨d, List.mem_of_find?_eq_some h, hfits.1, hfits.2.trans (Nat.mod_le _ _)⟩

/-- The fatal exit is taken for want of a region, and only then, exactly when there is none, or
the first one whose size in 64 bits fits is not at address 0. -/
theorem initializeFrom_exit_iff (memmap : List MemoryDescriptor) (kStart kEnd : Nat) :
    (initializeFrom memmap kStart kEnd = none ↔ ¬ HasRegion memmap) ↔
      ¬ HasRegion memmap ∨ ∃ d ∈ firstRegion memmap, d.physicalStart ≠ 0 := by
  rw [initializeFrom_eq_none_iff]
  constructor
  · intro hexit
    by_cases hhas : HasRegion memmap
    · right
      by_contra hzero
      refine hexit.mp (fun d hd => ?_) hhas
      by_contra hne
      exact hzero ⟨d, hd, hne⟩
    · exact Or.inl hhas
  · rintro (hnone | ⟨d, hd, hne⟩)
    · refine iff_of_true (fun d hd => ?_) hnone
      exact absurd (hasRegion_of_firstRegion hd) hnone
    · refine iff_of_false (fun hzero => hne (hzero d hd)) (not_not.mpr ?_)
      exact hasRegion_of_firstRegion hd

/-- A first region at address 0 ends the search, with another one behind it. -/
theorem initializeFrom_exit_at_zero :
    ¬ (initializeFrom [⟨7, 0, 160⟩, ⟨7, 0x100000, 1024⟩] 0x100000 0x103000 = none ↔
      ¬ HasRegion [⟨7, 0, 160⟩, ⟨7, 0x100000, 1024⟩]) := by
  intro hexit
  refine hexit.mp (by decide) ⟨⟨7, 0x100000, 1024⟩, by decide, rfl, by decide⟩

end Initialize

end MemoryManager

end Sylphia
