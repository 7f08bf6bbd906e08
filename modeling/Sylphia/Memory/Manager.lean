import Sylphia.Memory.Bitmap

/-!
# The memory manager

`MemoryManager` of `memory_manager.cpp` and the operators of `new.cpp`. Addresses
are natural numbers below `2 ^ 64`; sums that the source takes in `size_t` or
`uintptr_t` are reduced modulo `2 ^ 64`, and the null pointer is the address 0.
-/

namespace Sylphia

/-- `MemoryManager::kFrameSize`. -/
def kFrameSize : Nat := 4096

/-- `MemoryType::kEfiConventionalMemory`, the only type the manager hands out. -/
def kEfiConventionalMemory : Nat := 7

/-- `MemoryDescriptor`, with the fields that `Initialize` reads. -/
structure MemoryDescriptor where
  /-- The UEFI memory type. -/
  type : Nat
  physicalStart : Nat
  numberOfPages : Nat
  deriving DecidableEq, Repr

/-- The end address of a descriptor's region, as the source computes it. -/
def MemoryDescriptor.regionEnd (d : MemoryDescriptor) : Nat :=
  (d.physicalStart + d.numberOfPages * 4096) % 2 ^ 64

/-- The region size that is compared with the size of the bitmap. -/
def MemoryDescriptor.regionSize (d : MemoryDescriptor) : Nat :=
  d.numberOfPages * kFrameSize % 2 ^ 64

/-- The static members of `MemoryManager`. -/
structure MemoryManager where
  /-- `bitmap_`. -/
  bitmap : Bitmap
  /-- `range_end_`, the end of the managed physical range. -/
  rangeEnd : Nat
  deriving DecidableEq, Repr

namespace MemoryManager

/-- The number of frames of the managed range. -/
def totalFrames (m : MemoryManager) : Nat := m.rangeEnd / kFrameSize

/-- The first loop of `Initialize`: `range_end_` is the largest region end. -/
def rangeEndOf (memmap : List MemoryDescriptor) : Nat :=
  memmap.foldl (fun rangeEnd d => if d.regionEnd > rangeEnd then d.regionEnd else rangeEnd) 0

/-- The second loop: the start of the first conventional region that can hold the
bitmap, 0 when there is none. -/
def bitmapBaseOf (memmap : List MemoryDescriptor) (bitmapSize : Nat) : Nat :=
  match memmap.find? fun d =>
    d.type = kEfiConventionalMemory && d.regionSize ≥ bitmapSize with
  | some d => d.physicalStart
  | none => 0

/-- One step of the third loop: the frames of a conventional region become free. -/
def releaseRegion (b : Bitmap) (d : MemoryDescriptor) : Bitmap :=
  if d.type = kEfiConventionalMemory then
    let startFrame := d.physicalStart / kFrameSize
    let endFrame := d.regionEnd / kFrameSize
    b.setRange startFrame (endFrame - startFrame) false
  else b

/-- `MemoryManager::Initialize`, for a kernel image in `[kStart, kEnd)`; `none` is
the fatal exit that halts the machine. -/
def initializeFrom (memmap : List MemoryDescriptor) (kStart kEnd : Nat) : Option MemoryManager :=
  let rangeEnd := rangeEndOf memmap
  let totalFrames := rangeEnd / kFrameSize
  let bitmapSize := (totalFrames + 7) / 8
  let bitmapBase := bitmapBaseOf memmap bitmapSize
  if bitmapBase = 0 then none
  else
    let bitmap : Bitmap := ⟨List.replicate bitmapSize 0xFF#8⟩
    let bitmap := memmap.foldl releaseRegion bitmap
    let bitmapStartFrame := bitmapBase / kFrameSize
    let bitmapEndFrame := (bitmapBase + bitmapSize + kFrameSize - 1) % 2 ^ 64 / kFrameSize
    let bitmap := bitmap.setRange bitmapStartFrame (bitmapEndFrame - bitmapStartFrame) true
    let kStartFrame := kStart / kFrameSize
    let kEndFrame := (kEnd + kFrameSize - 1) % 2 ^ 64 / kFrameSize
    let bitmap := bitmap.setRange kStartFrame (kEndFrame - kStartFrame) true
    some { bitmap := bitmap.set 0 true, rangeEnd }

/-- `MemoryManager::AllocateFrame`: the address of the lowest free frame, or null. -/
def allocateFrame (m : MemoryManager) : Nat × MemoryManager :=
  match m.bitmap.findFreeFrame with
  | none => (0, m)
  | some frame => (frame * kFrameSize, { m with bitmap := m.bitmap.set frame true })

/-- `MemoryManager::FreeFrame`. -/
def freeFrame (m : MemoryManager) (ptr : Nat) : MemoryManager :=
  { m with bitmap := m.bitmap.set (ptr / kFrameSize) false }

/-- The number of frames for `size` bytes, rounded up in `size_t`. -/
def numFrames (size : Nat) : Nat := (size + kFrameSize - 1) % 2 ^ 64 / kFrameSize

/-- The inner loop of `Allocate`: the first offset `j`, among `count` from `j` on, at
which a run of frames starting at `i` is blocked. -/
def blockedAt (b : Bitmap) (totalFrames i : Nat) : Nat → Nat → Option Nat
  | 0, _ => none
  | count + 1, j =>
    if i + j ≥ totalFrames || b.get (i + j) then some j
    else blockedAt b totalFrames i count (j + 1)

/-- The outer loop of `Allocate`, which skips past the frame that blocks a run. The
fuel bounds the number of starts that are tried. -/
def searchRun (b : Bitmap) (totalFrames numFrames : Nat) : Nat → Nat → Option Nat
  | 0, _ => none
  | fuel + 1, i =>
    if i < totalFrames then
      match blockedAt b totalFrames i numFrames 0 with
      | none => some i
      | some j => searchRun b totalFrames numFrames fuel (i + j + 1)
    else none

/-- `MemoryManager::Allocate`: first fit for the frames of `size` bytes. The source
ignores its alignment argument. -/
def allocate (m : MemoryManager) (size : Nat) : Nat × MemoryManager :=
  if size = 0 then (0, m)
  else if numFrames size = 1 then m.allocateFrame
  else
    match m.bitmap.findFreeFrame with
    | none => (0, m)
    | some startSearch =>
      match searchRun m.bitmap m.totalFrames (numFrames size) (m.totalFrames + 1) startSearch with
      | none => (0, m)
      | some i =>
        (i * kFrameSize, { m with bitmap := m.bitmap.setRange i (numFrames size) true })

/-- `MemoryManager::Free`. -/
def free (m : MemoryManager) (ptr size : Nat) : MemoryManager :=
  { m with bitmap := m.bitmap.setRange (ptr / kFrameSize) (numFrames size) false }

/-- A request for `n` frames either fails and changes nothing, or takes a run of
`n` free frames and marks exactly that run. -/
def Granted (m : MemoryManager) (n : Nat) (result : Nat × MemoryManager) : Prop :=
  result = (0, m) ∨ ∃ i, (∀ f, i ≤ f → f < i + n → m.bitmap.get f = false) ∧
    result = (i * kFrameSize, { m with bitmap := m.bitmap.setRange i n true })

private theorem set_eq_setRange (b : Bitmap) (f : Nat) (v : Bool) :
    b.set f v = b.setRange f 1 v := by
  simp only [Bitmap.setRange, Nat.add_zero]

theorem allocateFrame_granted (m : MemoryManager) : m.Granted 1 m.allocateFrame := by
  cases hf : m.bitmap.findFreeFrame with
  | none => exact Or.inl (by simp only [allocateFrame, hf])
  | some f =>
    refine Or.inr ⟨f, ?_, by simp only [allocateFrame, hf, set_eq_setRange]⟩
    intro g hg hlt
    have hgf : g = f := by omega
    exact hgf ▸ (Bitmap.findFreeFrame_eq_some hf).1

section Search

variable {m : MemoryManager} {i j k fuel count n : Nat}

/-- A run is blocked by a frame that is used or behind the range. -/
theorem blockedAt_eq_some (h : blockedAt m.bitmap m.totalFrames i count j = some k) :
    j ≤ k ∧ k < j + count ∧ (m.totalFrames ≤ i + k ∨ m.bitmap.get (i + k) = true) := by
  induction count generalizing j with
  | zero => exact absurd h (Option.some_ne_none k).symm
  | succ count ih =>
    rw [blockedAt] at h
    split at h
    · rename_i hblocked
      obtain rfl := Option.some.inj h
      refine ⟨le_rfl, by omega, ?_⟩
      simpa using hblocked
    · obtain ⟨hlo, hhi, hblocked⟩ := ih h
      exact ⟨by omega, by omega, hblocked⟩

theorem blockedAt_eq_none_iff : blockedAt m.bitmap m.totalFrames i count j = none ↔
    ∀ f, j ≤ f → f < j + count → i + f < m.totalFrames ∧ m.bitmap.get (i + f) = false := by
  constructor
  · intro h
    induction count generalizing j with
    | zero =>
      intro f hlo hhi
      omega
    | succ count ih =>
      rw [blockedAt] at h
      split at h
      · exact absurd h (Option.some_ne_none j)
      · rename_i hfree
        intro f hlo hhi
        rcases Nat.eq_or_lt_of_le hlo with rfl | hlt
        · simpa using hfree
        · exact ih h f hlt (by omega)
  · intro hfree
    cases hb : blockedAt m.bitmap m.totalFrames i count j with
    | none => rfl
    | some f =>
      obtain ⟨hlo, hhi, hblocked⟩ := blockedAt_eq_some hb
      obtain ⟨hlt, hget⟩ := hfree f hlo hhi
      rcases hblocked with hle | hused
      · omega
      · exact absurd (hget.symm.trans hused) Bool.false_ne_true

private theorem searchRun_eq_some
    (h : searchRun m.bitmap m.totalFrames n fuel i = some k) :
    ∀ f, k ≤ f → f < k + n → m.bitmap.get f = false := by
  induction fuel generalizing i with
  | zero => exact absurd h (by simp [searchRun])
  | succ fuel ih =>
    rw [searchRun] at h
    split at h
    · split at h
      · next hb =>
        obtain rfl := Option.some.inj h
        intro f hf hlt
        have hg := (blockedAt_eq_none_iff.mp hb (f - i) (Nat.zero_le _) (by omega)).2
        rwa [Nat.add_sub_cancel' hf] at hg
      · exact ih h
    · exact absurd h (by simp)

end Search

theorem allocate_granted (m : MemoryManager) (size : Nat) :
    m.Granted (numFrames size) (m.allocate size) := by
  by_cases hz : size = 0
  · exact Or.inl (by simp only [allocate, hz, if_true])
  by_cases h1 : numFrames size = 1
  · simpa only [allocate, hz, h1, if_false, if_true] using m.allocateFrame_granted
  simp only [allocate, hz, h1, if_false]
  cases hf : m.bitmap.findFreeFrame with
  | none => exact Or.inl rfl
  | some start =>
    dsimp only
    cases hs : searchRun m.bitmap m.totalFrames (numFrames size) (m.totalFrames + 1) start with
    | none => exact Or.inl rfl
    | some i => exact Or.inr ⟨i, searchRun_eq_some hs, rfl⟩

/-- Without wrap-around the frame count covers the request and is positive. -/
theorem numFrames_eq {size : Nat} (h : size + 4095 < 2 ^ 64) :
    numFrames size = (size + 4095) / 4096 := by
  rw [numFrames, kFrameSize, Nat.add_sub_assoc (by decide), Nat.mod_eq_of_lt h]

private theorem le_rangeEndFold (memmap : List MemoryDescriptor) (r : Nat) :
    r ≤ memmap.foldl (fun rangeEnd d => if d.regionEnd > rangeEnd then d.regionEnd
      else rangeEnd) r ∧
      ∀ d ∈ memmap, d.regionEnd ≤
        memmap.foldl (fun rangeEnd d => if d.regionEnd > rangeEnd then d.regionEnd else rangeEnd)
          r := by
  induction memmap generalizing r with
  | nil => simp
  | cons d memmap ih =>
    obtain ⟨hr, hd⟩ := ih (if d.regionEnd > r then d.regionEnd else r)
    rw [List.foldl_cons]
    refine ⟨le_trans (by split <;> omega) hr, fun e he => ?_⟩
    rcases List.mem_cons.mp he with rfl | he
    · exact le_trans (by split <;> omega) hr
    · exact hd e he

/-- No region of the memory map ends past `range_end_`. -/
theorem regionEnd_le_rangeEndOf {memmap : List MemoryDescriptor} {d : MemoryDescriptor}
    (hd : d ∈ memmap) : d.regionEnd ≤ rangeEndOf memmap :=
  (le_rangeEndFold memmap 0).2 d hd

private theorem releaseFold_get {memmap : List MemoryDescriptor} {limit : Nat}
    (hlimit : ∀ d ∈ memmap, d.regionEnd / kFrameSize ≤ limit) (b : Bitmap)
    (hb : ∀ f, b.get f = false → f < limit) :
    ∀ f, (memmap.foldl releaseRegion b).get f = false → f < limit := by
  induction memmap generalizing b with
  | nil => exact hb
  | cons d memmap ih =>
    rw [List.foldl_cons]
    apply ih (fun e he => hlimit e (List.mem_cons_of_mem _ he))
    intro f hf
    rw [releaseRegion] at hf
    split at hf
    · rw [Bitmap.get_setRange] at hf
      split at hf
      · have := hlimit d (List.mem_cons_self ..)
        omega
      · exact hb f hf
    · exact hb f hf

private theorem get_setRange_true {b : Bitmap} {start count f : Nat}
    (h : (b.setRange start count true).get f = false) : b.get f = false := by
  rw [Bitmap.get_setRange] at h
  split at h
  · exact absurd h (by simp)
  · exact h

/-- After `Initialize` a free frame lies below `range_end_ / 4096`, padding bits of
the last byte included, and frame 0 is used. -/
theorem initializeFrom_free {memmap : List MemoryDescriptor} {kStart kEnd : Nat}
    {m : MemoryManager} (h : initializeFrom memmap kStart kEnd = some m) {f : Nat}
    (hf : m.bitmap.get f = false) : 0 < f ∧ f < m.totalFrames := by
  simp only [initializeFrom] at h
  split at h
  · exact absurd h (by simp)
  · obtain rfl := Option.some.inj h
    simp only [Bitmap.get_set] at hf
    have hpos : 0 < f := by
      rcases Nat.eq_zero_or_pos f with rfl | hp
      · exfalso
        split at hf
        · exact absurd hf (by simp)
        · next hn => exact hn ⟨rfl, Bitmap.lt_size_of_get hf⟩
      · exact hp
    refine ⟨hpos, ?_⟩
    rw [if_neg (by omega)] at hf
    have hrel := get_setRange_true (get_setRange_true hf)
    refine releaseFold_get (fun d hd => ?_) _ ?_ f hrel
    · exact Nat.div_le_div_right (regionEnd_le_rangeEndOf hd)
    · intro g hg
      rw [Bitmap.get_allOnes] at hg
      exact absurd hg (by simp)

end MemoryManager

/-- `kHeaderSize` of `new.cpp`. -/
def kHeaderSize : Nat := 16

/-- The memory manager together with the 64-bit words that memory holds at each
address; `operator new` keeps the size of a block in the word at its start. -/
structure Heap where
  manager : MemoryManager
  word : Nat → Nat

namespace Heap

/-- `operator new`. -/
def operatorNew (h : Heap) (size : Nat) : Nat × Heap :=
  let totalSize := (size + kHeaderSize) % 2 ^ 64
  let (ptr, manager) := h.manager.allocate totalSize
  if ptr = 0 then (0, { h with manager })
  else (ptr + kHeaderSize, { manager, word := Function.update h.word ptr totalSize })

/-- `operator delete`. -/
def operatorDelete (h : Heap) (ptr : Nat) : Heap :=
  if ptr = 0 then h
  else
    let realPtr := ptr - kHeaderSize
    { h with manager := h.manager.free realPtr (h.word realPtr) }

end Heap

end Sylphia
