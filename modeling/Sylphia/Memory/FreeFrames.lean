import Mathlib.Data.Finset.Card
import Mathlib.Order.Interval.Finset.Nat
import Sylphia.Memory.Manager

/-!
# The set of free frames

What a bitmap says is the finite set of its free frames: together with the size of the
buffer this set determines the bytes. Allocations take frames out of it, and `FreeFrame`
and `Free` put frames back.
-/

namespace Sylphia

namespace Bitmap

/-- The free frames. -/
def freeSet (b : Bitmap) : Finset Nat :=
  (Finset.range (b.bitmapSize * 8)).filter fun f => b.get f = false

/-- The number of free frames. -/
def freeFrames (b : Bitmap) : Nat := b.freeSet.card

variable {b c : Bitmap} {f : Nat}

@[simp] theorem mem_freeSet : f ∈ b.freeSet ↔ b.get f = false := by
  rw [freeSet, Finset.mem_filter, Finset.mem_range]
  constructor
  · exact And.right
  · intro h
    have := lt_size_of_get h
    exact ⟨by omega, h⟩

theorem get_eq_true_iff : b.get f = true ↔ f ∉ b.freeSet := by
  rw [mem_freeSet, Bool.not_eq_false]

/-- Bitmaps of one size with the same free frames are the same bytes. -/
theorem eq_of_freeSet (hs : b.bitmapSize = c.bitmapSize) (h : b.freeSet = c.freeSet) : b = c := by
  refine ext_get hs fun f => ?_
  have hf : f ∈ b.freeSet ↔ f ∈ c.freeSet := by rw [h]
  rw [mem_freeSet, mem_freeSet] at hf
  cases hb : b.get f with
  | false => exact (hf.mp hb).symm
  | true =>
    cases hc : c.get f with
    | false => exact absurd (hf.mpr hc) (by simp [hb])
    | true => rfl

theorem freeSet_setRange_true (b : Bitmap) (start count : Nat) :
    (b.setRange start count true).freeSet = b.freeSet \ Finset.Ico start (start + count) := by
  ext f
  rw [Finset.mem_sdiff, Finset.mem_Ico, mem_freeSet, mem_freeSet, get_setRange]
  split
  · next h => simp [h.1, h.2.1]
  · next h =>
    constructor
    · exact fun hf => ⟨hf, fun hi => h ⟨hi.1, hi.2, lt_size_of_get hf⟩⟩
    · exact And.left

theorem freeSet_setRange_false (b : Bitmap) (start count : Nat) :
    (b.setRange start count false).freeSet =
      b.freeSet ∪ (Finset.Ico start (start + count)).filter fun f => f / 8 < b.bitmapSize := by
  ext f
  rw [Finset.mem_union, Finset.mem_filter, Finset.mem_Ico, mem_freeSet, mem_freeSet, get_setRange]
  split
  · next h => simp [h.1, h.2.1, h.2.2]
  · next h =>
    constructor
    · exact Or.inl
    · rintro (hf | ⟨hi, hs⟩)
      · exact hf
      · exact absurd ⟨hi.1, hi.2, hs⟩ h

theorem freeSet_set_true (b : Bitmap) (f : Nat) : (b.set f true).freeSet = b.freeSet.erase f := by
  have h := freeSet_setRange_true b f 1
  rw [setRange, setRange, Nat.add_zero, Nat.Ico_succ_singleton] at h
  rw [h, Finset.erase_eq]

theorem freeSet_set_false (h : f / 8 < b.bitmapSize) :
    (b.set f false).freeSet = insert f b.freeSet := by
  ext g
  rw [Finset.mem_insert, mem_freeSet, mem_freeSet, get_set]
  by_cases hg : g = f
  · simp [hg, h]
  · simp [hg]

/-- The search fails exactly when no frame is free. -/
theorem findFreeFrame_eq_none_iff : b.findFreeFrame = none ↔ b.freeSet = ∅ := by
  constructor
  · intro h
    rw [Finset.eq_empty_iff_forall_notMem]
    exact fun f => get_eq_true_iff.mp (findFreeFrame_eq_none h f)
  · intro h
    cases hf : b.findFreeFrame with
    | none => rfl
    | some f =>
      have hmem := mem_freeSet.mpr (findFreeFrame_eq_some hf).1
      rw [h] at hmem
      exact absurd hmem (Finset.notMem_empty f)

end Bitmap

namespace MemoryManager

/-- Exactly the frames of `taken` go from free to used. -/
structure Takes (m : MemoryManager) (taken : Finset Nat) (m' : MemoryManager) : Prop where
  free : taken ⊆ m.bitmap.freeSet
  left : m'.bitmap.freeSet = m.bitmap.freeSet \ taken
  size : m'.bitmap.bitmapSize = m.bitmap.bitmapSize
  range : m'.rangeEnd = m.rangeEnd

namespace Takes

variable {m m₁ m' : MemoryManager} {s t : Finset Nat} {f : Nat}

theorem refl (m : MemoryManager) : m.Takes ∅ m :=
  ⟨Finset.empty_subset _, Finset.sdiff_empty.symm, rfl, rfl⟩

theorem trans (h : m.Takes s m₁) (h' : m₁.Takes t m') : m.Takes (s ∪ t) m' where
  free := by
    refine Finset.union_subset h.free (h'.free.trans ?_)
    rw [h.left]
    exact Finset.sdiff_subset
  left := by rw [h'.left, h.left, sdiff_sdiff_left, Finset.sup_eq_union]
  size := h'.size.trans h.size
  range := h'.range.trans h.range

/-- What is taken later is apart from what was taken before. -/
theorem disjoint (h : m.Takes s m₁) (h' : m₁.Takes t m') : Disjoint s t := by
  rw [Finset.disjoint_right]
  intro f hf
  have hmem := h'.free hf
  rw [h.left] at hmem
  exact (Finset.mem_sdiff.mp hmem).2

theorem freeFrames (h : m.Takes s m') :
    m'.bitmap.freeFrames + s.card = m.bitmap.freeFrames := by
  rw [Bitmap.freeFrames, h.left, Finset.card_sdiff_add_card_eq_card h.free]
  rfl

theorem used (h : m.Takes s m') (hf : m.bitmap.get f = true) : m'.bitmap.get f = true := by
  rw [Bitmap.get_eq_true_iff] at hf ⊢
  rw [h.left]
  exact fun hm => hf (Finset.mem_sdiff.mp hm).1

theorem taken (h : m.Takes s m') (hf : f ∈ s) : m'.bitmap.get f = true := by
  rw [Bitmap.get_eq_true_iff, h.left]
  exact fun hm => (Finset.mem_sdiff.mp hm).2 hf

end Takes

/-- `AllocateFrame` fails exactly when no frame is free, and else takes one frame. -/
theorem allocateFrame_takes (m : MemoryManager) :
    (m.bitmap.freeSet = ∅ ∧ m.allocateFrame = (0, m)) ∨
      ∃ f m', m.Takes {f} m' ∧ m.allocateFrame = (f * kFrameSize, m') := by
  cases hf : m.bitmap.findFreeFrame with
  | none =>
    exact Or.inl ⟨Bitmap.findFreeFrame_eq_none_iff.mp hf, by simp only [allocateFrame, hf]⟩
  | some f =>
    refine Or.inr ⟨f, { m with bitmap := m.bitmap.set f true }, ?_,
      by simp only [allocateFrame, hf]⟩
    refine ⟨?_, ?_, Bitmap.bitmapSize_set _ _ _, rfl⟩
    · rw [Finset.singleton_subset_iff, Bitmap.mem_freeSet]
      exact (Bitmap.findFreeFrame_eq_some hf).1
    · rw [Bitmap.freeSet_set_true, Finset.erase_eq]

/-- The frames of a block. -/
def blockFrames (ptr size : Nat) : Finset Nat :=
  Finset.Ico (ptr / kFrameSize) (ptr / kFrameSize + numFrames size)

/-- A block starts in its first frame. -/
theorem mem_blockFrames {ptr size : Nat} (hsize : 0 < numFrames size) :
    ptr / kFrameSize ∈ blockFrames ptr size := by
  rw [blockFrames, Finset.mem_Ico]
  omega

/-- A block of frames other than frame 0 is not at the null pointer. -/
theorem ne_zero_of_blockFrames {ptr size : Nat} {s : Finset Nat} (hsize : 0 < numFrames size)
    (hsub : blockFrames ptr size ⊆ s) (hpos : ∀ f ∈ s, 0 < f) : ptr ≠ 0 := by
  rintro rfl
  have hfirst := hpos _ (hsub (mem_blockFrames hsize))
  rw [Nat.zero_div] at hfirst
  exact Nat.lt_irrefl 0 hfirst

/-- `Allocate` fails and changes nothing, or takes the frames of the block it returns. -/
theorem allocate_takes (m : MemoryManager) (size : Nat) :
    m.allocate size = (0, m) ∨
      ∃ i m', m.Takes (blockFrames (i * kFrameSize) size) m' ∧
        m.allocate size = (i * kFrameSize, m') := by
  rcases m.allocate_granted size with he | ⟨i, hfree, he⟩
  · exact Or.inl he
  · refine Or.inr ⟨i, { m with bitmap := m.bitmap.setRange i (numFrames size) true },
      ⟨fun f hf => ?_, ?_, Bitmap.bitmapSize_setRange _ _ _ _, rfl⟩, he⟩
    · rw [blockFrames, kFrameSize, Nat.mul_div_cancel i (by decide), Finset.mem_Ico] at hf
      exact Bitmap.mem_freeSet.mpr (hfree f hf.1 hf.2)
    · rw [blockFrames, kFrameSize, Nat.mul_div_cancel i (by decide)]
      exact Bitmap.freeSet_setRange_true _ _ _

theorem freeSet_free (m : MemoryManager) (ptr size : Nat) :
    (m.free ptr size).bitmap.freeSet = m.bitmap.freeSet ∪
      (blockFrames ptr size).filter fun f => f / 8 < m.bitmap.bitmapSize :=
  Bitmap.freeSet_setRange_false _ _ _

theorem bitmapSize_free (m : MemoryManager) (ptr size : Nat) :
    (m.free ptr size).bitmap.bitmapSize = m.bitmap.bitmapSize :=
  Bitmap.bitmapSize_setRange _ _ _ _

end MemoryManager

end Sylphia
