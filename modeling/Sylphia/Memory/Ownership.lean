import Sylphia.Core.Ledger
import Sylphia.Memory.Manager

/-!
# Ownership of frames over whole histories

A session records, beside the heap, the regions that its calls have obtained and
not yet released. The bitmap is the only record the kernel itself keeps; the
session's ledger of live regions stays balanced against it after every admissible
call, whichever of the two allocation and release paths each call takes.
-/

namespace Sylphia

/-- The call a region was obtained from. -/
inductive RegionKind
  | frame
  | bytes
  | object
  deriving DecidableEq, Repr

/-- A region handed to a client: its kind, the returned pointer, and the requested size. -/
structure Region where
  kind : RegionKind
  ptr : Nat
  size : Nat
  deriving DecidableEq, Repr

namespace Region

/-- The address of the first frame; an object is preceded by its size header. -/
def base (r : Region) : Nat :=
  match r.kind with
  | .frame | .bytes => r.ptr
  | .object => r.ptr - kHeaderSize

/-- The number of frames behind a region. -/
def frameCount (r : Region) : Nat :=
  match r.kind with
  | .frame => 1
  | .bytes => MemoryManager.numFrames r.size
  | .object => MemoryManager.numFrames (r.size + kHeaderSize)

/-- The frames a region owns. -/
def frames (r : Region) : Set Nat :=
  {f | r.base / kFrameSize ≤ f ∧ f < r.base / kFrameSize + r.frameCount}

end Region

/-- A heap with the regions obtained from it and not yet released. -/
structure Session where
  heap : Heap
  live : List Region

/-- The calls of a history. `store` is any change of memory by the clients. -/
inductive Call
  | allocateFrame
  | allocate (size : Nat)
  | operatorNew (size : Nat)
  | freeFrame (r : Region)
  | free (r : Region)
  | operatorDelete (r : Region)
  | store (word : Nat → Nat)

namespace Session

/-- Record a region unless the call returned null. -/
def grant (s : Session) (kind : RegionKind) (size : Nat) (result : Nat × Heap) : Session where
  heap := result.2
  live := if result.1 = 0 then s.live else ⟨kind, result.1, size⟩ :: s.live

/-- Run a call of the memory manager on the heap. -/
def manage (h : Heap) (result : Nat × MemoryManager) : Nat × Heap :=
  (result.1, { h with manager := result.2 })

/-- One call, and its effect on the ledger. -/
def step (s : Session) : Call → Session
  | .allocateFrame => s.grant .frame kFrameSize (manage s.heap s.heap.manager.allocateFrame)
  | .allocate size => s.grant .bytes size (manage s.heap (s.heap.manager.allocate size))
  | .operatorNew size => s.grant .object size (s.heap.operatorNew size)
  | .freeFrame r =>
    { heap := { s.heap with manager := s.heap.manager.freeFrame r.ptr }, live := s.live.erase r }
  | .free r =>
    { heap := { s.heap with manager := s.heap.manager.free r.ptr r.size }, live := s.live.erase r }
  | .operatorDelete r => { heap := s.heap.operatorDelete r.ptr, live := s.live.erase r }
  | .store word => { s with heap := { s.heap with word } }

/-- What a history may contain: sizes whose rounding does not wrap, releases of live
regions by the call that matches them, and no overwritten size header. -/
def Admissible (s : Session) : Call → Prop
  | .allocateFrame => True
  | .allocate size => size + 4095 < 2 ^ 64
  | .operatorNew size => size + kHeaderSize + 4095 < 2 ^ 64
  | .freeFrame r => r ∈ s.live ∧ r.kind = .frame
  | .free r => r ∈ s.live ∧ r.kind = .bytes
  | .operatorDelete r => r ∈ s.live ∧ r.kind = .object
  | .store word => ∀ r ∈ s.live, r.kind = .object → word r.base = s.heap.word r.base

/-- The sessions reached from a freshly initialized manager by admissible calls. -/
inductive Reachable (m : MemoryManager) : Session → Prop
  | start (word : Nat → Nat) : Reachable m ⟨⟨m, word⟩, []⟩
  | step {s : Session} (c : Call) : Reachable m s → s.Admissible c → Reachable m (s.step c)

end Session

/-- The frames marked used. -/
def MemoryManager.usedFrames (m : MemoryManager) : Set Nat := {f | m.bitmap.get f = true}

/-! ## The invariant of a session -/

/-- A region starts at a frame and owns at least one; an object follows its header. -/
structure Region.Proper (r : Region) : Prop where
  aligned : r.base = r.base / kFrameSize * kFrameSize
  count_pos : 0 < r.frameCount
  fits : r.ptr + r.size ≤ r.base + r.frameCount * kFrameSize
  base_le : r.base ≤ r.ptr
  header : r.kind = .object → r.ptr = r.base + kHeaderSize
  small : r.kind = .object → r.size + kHeaderSize + 4095 < 2 ^ 64

/-- What every reachable session satisfies. -/
structure Session.Inv (m : MemoryManager) (s : Session) : Prop where
  /-- The bitmap agrees with the ledger of live regions. -/
  balanced : Ledger.Balanced m.usedFrames s.heap.manager.usedFrames Region.frames s.live
  rangeEnd : s.heap.manager.rangeEnd = m.rangeEnd
  size : s.heap.manager.bitmap.bitmapSize = m.bitmap.bitmapSize
  proper : ∀ r ∈ s.live, r.Proper
  /-- The hidden header of a live object holds the size that `Allocate` was given. -/
  header : ∀ r ∈ s.live, r.kind = .object → s.heap.word r.base = r.size + kHeaderSize

theorem Session.inv_start (m : MemoryManager) (word : Nat → Nat) :
    Session.Inv m ⟨⟨m, word⟩, []⟩ where
  balanced := Ledger.balanced_nil _ _
  rangeEnd := rfl
  size := rfl
  proper := by simp
  header := by simp

private theorem used_setRange_true {m : MemoryManager} {i n : Nat}
    (hfree : ∀ f, i ≤ f → f < i + n → m.bitmap.get f = false) (f : Nat) :
    (m.bitmap.setRange i n true).get f = true ↔
      m.bitmap.get f = true ∨ (i ≤ f ∧ f < i + n) := by
  rw [Bitmap.get_setRange]
  split
  · next h => exact iff_of_true rfl (Or.inr ⟨h.1, h.2.1⟩)
  · next h =>
    constructor
    · exact Or.inl
    · rintro (hu | ⟨hl, hr⟩)
      · exact hu
      · exact absurd ⟨hl, hr, Bitmap.lt_size_of_get (hfree f hl hr)⟩ h

/-- Taking a granted run of frames for a new region keeps the ledger balanced. -/
private theorem balanced_grant {m : MemoryManager} {s : Session} (h : s.Inv m)
    {r : Region} {i : Nat}
    (hfree : ∀ f, i ≤ f → f < i + r.frameCount → s.heap.manager.bitmap.get f = false)
    (hbase : r.base / kFrameSize = i) :
    Ledger.Balanced m.usedFrames
      {f | (s.heap.manager.bitmap.setRange i r.frameCount true).get f = true}
      Region.frames (r :: s.live) := by
  subst hbase
  refine h.balanced.acquire r ?_ fun f => used_setRange_true hfree f
  refine Set.disjoint_left.mpr fun f hf hu => ?_
  rw [MemoryManager.usedFrames, Set.mem_ofPred_eq, hfree f hf.1 hf.2] at hu
  exact Bool.noConfusion hu

/-- Giving the frames of a live region back keeps the ledger balanced. -/
private theorem balanced_release {m : MemoryManager} {s : Session} (h : s.Inv m) {r : Region}
    (hr : r ∈ s.live) :
    Ledger.Balanced m.usedFrames
      {f | (s.heap.manager.bitmap.setRange (r.base / kFrameSize) r.frameCount false).get f = true}
      Region.frames (s.live.erase r) := by
  refine h.balanced.release hr fun f => ?_
  rw [Set.mem_ofPred_eq, Bitmap.get_setRange]
  split
  · next hin => exact iff_of_false (by simp) fun hc => hc.2 ⟨hin.1, hin.2.1⟩
  · next hout =>
    refine ⟨fun hu => ⟨hu, fun hf => hout ⟨hf.1, hf.2, ?_⟩⟩, fun hu => hu.1⟩
    have hfree : m.bitmap.get f = false := by
      have := Set.disjoint_left.mp (h.balanced.unreserved r hr) hf
      simpa [MemoryManager.usedFrames] using this
    exact h.size ▸ Bitmap.lt_size_of_get hfree

/-- A frame that is free now was free after initialization. -/
theorem Session.Inv.free_initially {m : MemoryManager} {s : Session} (h : s.Inv m) {f : Nat}
    (hf : s.heap.manager.bitmap.get f = false) : m.bitmap.get f = false := by
  by_contra hc
  have hu := (h.balanced.accounts f).mpr (Or.inl (by simpa [MemoryManager.usedFrames] using hc))
  rw [MemoryManager.usedFrames, Set.mem_ofPred_eq, hf] at hu
  exact Bool.noConfusion hu

/-- Recording a region over a granted run of free frames keeps the invariant. -/
private theorem inv_acquire {m : MemoryManager} {s : Session} (h : s.Inv m) {r : Region} {i : Nat}
    (word : Nat → Nat)
    (hfree : ∀ f, i ≤ f → f < i + r.frameCount → s.heap.manager.bitmap.get f = false)
    (hbase : r.base = i * kFrameSize) (hproper : r.Proper)
    (hnew : r.kind = .object → word r.base = r.size + kHeaderSize)
    (hold : ∀ t ∈ s.live, t.base ≠ r.base → word t.base = s.heap.word t.base) :
    Session.Inv m
      { heap := { manager := { s.heap.manager with
          bitmap := s.heap.manager.bitmap.setRange i r.frameCount true }, word },
        live := r :: s.live } where
  balanced := balanced_grant h hfree (by rw [hbase, Nat.mul_div_cancel _ (by decide)])
  rangeEnd := h.rangeEnd
  size := by simpa using h.size
  proper := by
    intro t ht
    rcases List.mem_cons.mp ht with rfl | ht
    · exact hproper
    · exact h.proper t ht
  header := by
    intro t ht hk
    rcases List.mem_cons.mp ht with rfl | ht
    · exact hnew hk
    · refine (hold t ht ?_).trans (h.header t ht hk)
      -- Two regions at one address would share their first frame, which was free.
      · intro he
        have hmem : i ∈ t.frames := by
          have hp := (h.proper t ht).count_pos
          simp only [Region.frames, Set.mem_ofPred_eq, he, hbase,
            Nat.mul_div_cancel _ (show 0 < kFrameSize by decide)]
          omega
        have hu := h.balanced.subset_used ht hmem
        have hf := hfree i le_rfl (by have := hproper.count_pos; omega)
        rw [MemoryManager.usedFrames, Set.mem_ofPred_eq, hf] at hu
        exact Bool.noConfusion hu

/-- Releasing a live region keeps the invariant. -/
private theorem inv_release {m : MemoryManager} {s : Session} (h : s.Inv m) {r : Region}
    (hr : r ∈ s.live) :
    Session.Inv m
      { heap := { s.heap with manager := { s.heap.manager with
          bitmap := s.heap.manager.bitmap.setRange (r.base / kFrameSize) r.frameCount false } },
        live := s.live.erase r } where
  balanced := balanced_release h hr
  rangeEnd := h.rangeEnd
  size := by simpa using h.size
  proper := fun t ht => h.proper t (List.mem_of_mem_erase ht)
  header := fun t ht => h.header t (List.mem_of_mem_erase ht)

private theorem grant_null (s : Session) (kind : RegionKind) (size : Nat) :
    s.grant kind size (0, s.heap) = s := by
  simp [Session.grant]

private theorem grant_some (s : Session) (kind : RegionKind) (size : Nat) {ptr : Nat}
    (hptr : ptr ≠ 0) (heap : Heap) :
    s.grant kind size (ptr, heap) = ⟨heap, ⟨kind, ptr, size⟩ :: s.live⟩ := by
  simp [Session.grant, hptr]

private theorem proper_frame (i : Nat) :
    (⟨.frame, i * kFrameSize, kFrameSize⟩ : Region).Proper where
  aligned := by simp [Region.base, kFrameSize]
  count_pos := by simp [Region.frameCount]
  fits := by simp [Region.base, Region.frameCount]
  base_le := le_rfl
  header := by simp
  small := by simp

private theorem proper_bytes {size : Nat} (i : Nat) (hpos : 0 < size) (hs : size + 4095 < 2 ^ 64) :
    (⟨.bytes, i * kFrameSize, size⟩ : Region).Proper where
  aligned := by simp [Region.base, kFrameSize]
  count_pos := by
    simp only [Region.frameCount, MemoryManager.numFrames_eq hs]
    omega
  fits := by
    simp only [Region.base, Region.frameCount, MemoryManager.numFrames_eq hs, kFrameSize]
    omega
  base_le := le_rfl
  header := by simp
  small := by simp

private theorem proper_object {size : Nat} (i : Nat)
    (hs : size + kHeaderSize + 4095 < 2 ^ 64) :
    (⟨.object, i * kFrameSize + kHeaderSize, size⟩ : Region).Proper where
  aligned := by simp [Region.base, kFrameSize]
  count_pos := by
    simp only [Region.frameCount, MemoryManager.numFrames_eq hs]
    simp only [kHeaderSize]
    omega
  fits := by
    simp only [Region.base, Region.frameCount, MemoryManager.numFrames_eq hs]
    simp only [kFrameSize, kHeaderSize]
    omega
  base_le := by simp [Region.base]
  header := by simp [Region.base]
  small := fun _ => hs

section Run

variable {m : MemoryManager} {s : Session}

private theorem run_ne_zero (hz : m.bitmap.get 0 = true) (h : s.Inv m) {i : Nat}
    (hi : s.heap.manager.bitmap.get i = false) : i ≠ 0 := by
  rintro rfl
  rw [h.free_initially hi] at hz
  exact Bool.noConfusion hz

private theorem inv_allocateFrame (hz : m.bitmap.get 0 = true) (h : s.Inv m) :
    (s.step .allocateFrame).Inv m := by
  rcases s.heap.manager.allocateFrame_granted with hg | ⟨i, hfree, hg⟩
  · rw [Session.step, hg]
    exact (grant_null s .frame kFrameSize).symm ▸ h
  · have hi := run_ne_zero hz h (hfree i le_rfl (by omega))
    rw [Session.step, hg, Session.manage, grant_some _ _ _ (by simp [hi, kFrameSize])]
    exact inv_acquire h (r := ⟨.frame, i * kFrameSize, kFrameSize⟩) _ hfree rfl (proper_frame i)
      (by simp) fun _ _ _ => rfl

private theorem inv_allocate (hz : m.bitmap.get 0 = true) (h : s.Inv m) {size : Nat}
    (hs : size + 4095 < 2 ^ 64) : (s.step (.allocate size)).Inv m := by
  by_cases h0 : size = 0
  · subst h0
    exact (grant_null s .bytes 0).symm ▸ h
  rcases s.heap.manager.allocate_granted size with hg | ⟨i, hfree, hg⟩
  · rw [Session.step, hg]
    exact (grant_null s .bytes size).symm ▸ h
  · have hproper := proper_bytes i (Nat.pos_of_ne_zero h0) hs
    have hi := run_ne_zero hz h (hfree i le_rfl (Nat.lt_add_of_pos_right hproper.count_pos))
    rw [Session.step, hg, Session.manage, grant_some _ _ _ (by simp [hi, kFrameSize])]
    exact inv_acquire h (r := ⟨.bytes, i * kFrameSize, size⟩) _ hfree rfl hproper
      (by simp) fun _ _ _ => rfl

private theorem inv_operatorNew (hz : m.bitmap.get 0 = true) (h : s.Inv m) {size : Nat}
    (hs : size + kHeaderSize + 4095 < 2 ^ 64) : (s.step (.operatorNew size)).Inv m := by
  have hmod : (size + kHeaderSize) % 2 ^ 64 = size + kHeaderSize := Nat.mod_eq_of_lt (by omega)
  rcases s.heap.manager.allocate_granted (size + kHeaderSize) with hg | ⟨i, hfree, hg⟩
  · have hnew : s.heap.operatorNew size = (0, s.heap) := by
      simp only [Heap.operatorNew, hmod, hg, if_true]
    rw [Session.step, hnew]
    exact (grant_null s .object size).symm ▸ h
  · have hproper := proper_object i hs
    have hi := run_ne_zero hz h (hfree i le_rfl (Nat.lt_add_of_pos_right hproper.count_pos))
    have hne : i * kFrameSize ≠ 0 := by simp [hi, kFrameSize]
    rw [Session.step, Heap.operatorNew]
    simp only [hmod, hg, hne, if_false]
    rw [grant_some _ _ _ (by simp [kHeaderSize])]
    refine inv_acquire h (r := ⟨.object, i * kFrameSize + kHeaderSize, size⟩) _ hfree
      (by simp [Region.base]) hproper (by simp [Region.base]) fun t _ ht => ?_
    exact Function.update_of_ne (by simpa [Region.base] using ht) _ _

/-- Every admissible call keeps the invariant. -/
theorem Session.Inv.step (hz : m.bitmap.get 0 = true) (h : s.Inv m) {c : Call}
    (hc : s.Admissible c) : (s.step c).Inv m := by
  cases c with
  | allocateFrame => exact inv_allocateFrame hz h
  | allocate size => exact inv_allocate hz h hc
  | operatorNew size => exact inv_operatorNew hz h hc
  | freeFrame r =>
    obtain ⟨hr, hk⟩ := hc
    obtain ⟨kind, ptr, size⟩ := r
    obtain rfl : kind = .frame := hk
    simpa only [Session.step, MemoryManager.freeFrame, Region.base, Region.frameCount,
      Bitmap.setRange, Nat.add_zero] using inv_release h hr
  | free r =>
    obtain ⟨hr, hk⟩ := hc
    obtain ⟨kind, ptr, size⟩ := r
    obtain rfl : kind = .bytes := hk
    exact inv_release h hr
  | operatorDelete r =>
    obtain ⟨hr, hk⟩ := hc
    have hw := h.header r hr hk
    have hp := (h.proper r hr).header hk
    have hne : r.ptr ≠ 0 := by rw [hp]; simp [kHeaderSize]
    obtain ⟨kind, ptr, size⟩ := r
    obtain rfl : kind = .object := hk
    simp only [Region.base] at hw
    simp only [Session.step, Heap.operatorDelete, hne, if_false, MemoryManager.free, hw]
    exact inv_release h hr
  | store word =>
    exact ⟨h.balanced, h.rangeEnd, h.size, h.proper,
      fun r hr hk => (hc r hr hk).trans (h.header r hr hk)⟩

/-- Every reachable session satisfies the invariant. -/
theorem Session.Reachable.inv (hz : m.bitmap.get 0 = true) (h : Session.Reachable m s) :
    s.Inv m := by
  induction h with
  | start word => exact Session.inv_start m word
  | step c _ hc ih => exact ih.step hz hc

/-- The bytes of a proper region lie in its own frames. -/
theorem Region.Proper.byte_mem {r : Region} (h : r.Proper) {a : Nat} (hl : r.ptr ≤ a)
    (hu : a < r.ptr + r.size) : a / kFrameSize ∈ r.frames := by
  have hb := h.base_le
  have ha := h.aligned
  have hf := h.fits
  simp only [Region.frames, Set.mem_ofPred_eq, kFrameSize] at *
  omega

/-- A request that returns null has taken nothing. -/
private theorem granted_null (hz : m.bitmap.get 0 = true) (h : s.Inv m) {n : Nat}
    {result : Nat × MemoryManager} (hg : s.heap.manager.Granted n result) (hn : 0 < n)
    (hnull : result.1 = 0) : result.2 = s.heap.manager := by
  rcases hg with rfl | ⟨i, hfree, rfl⟩
  · rfl
  · have hi := run_ne_zero hz h (hfree i le_rfl (by omega))
    simp [hi, kFrameSize] at hnull

/-- After `Initialize`, in every admissible history: live regions own disjoint frames,
all of them free after initialization and below `range_end_ / 4096`, never frame 0; null
means that nothing was taken; the bitmap marks exactly the frames used after
initialization or owned; and releasing everything restores it. -/
theorem frame_ownership {memmap : List MemoryDescriptor} {kStart kEnd : Nat}
    (hinit : MemoryManager.initializeFrom memmap kStart kEnd = some m)
    (h : Session.Reachable m s) :
    (s.live.Pairwise fun r t => Disjoint r.frames t.frames) ∧
    (∀ r ∈ s.live, r.ptr ≠ 0 ∧ (∀ a, r.ptr ≤ a → a < r.ptr + r.size → a / kFrameSize ∈ r.frames) ∧
      ∀ f ∈ r.frames, f ≠ 0 ∧ f < s.heap.manager.rangeEnd / kFrameSize ∧
        m.bitmap.get f = false) ∧
    (s.heap.manager.allocateFrame.1 = 0 → s.heap.manager.allocateFrame.2 = s.heap.manager) ∧
    (∀ size, size + 4095 < 2 ^ 64 → (s.heap.manager.allocate size).1 = 0 →
      (s.heap.manager.allocate size).2 = s.heap.manager) ∧
    (∀ size, size + kHeaderSize + 4095 < 2 ^ 64 → (s.heap.operatorNew size).1 = 0 →
      (s.heap.operatorNew size).2 = s.heap) ∧
    (∀ f, s.heap.manager.bitmap.get f = true ↔
      m.bitmap.get f = true ∨ ∃ r ∈ s.live, f ∈ r.frames) ∧
    (s.live = [] → s.heap.manager.bitmap = m.bitmap) := by
  have hz : m.bitmap.get 0 = true := by
    by_contra hc
    have := MemoryManager.initializeFrom_free hinit (f := 0) (by simpa using hc)
    omega
  have hi := h.inv hz
  have hfree {r : Region} (hr : r ∈ s.live) {f : Nat} (hf : f ∈ r.frames) :
      m.bitmap.get f = false := by
    have := Set.disjoint_left.mp (hi.balanced.unreserved r hr) hf
    simpa [MemoryManager.usedFrames] using this
  have halloc (size : Nat) (hs : size + 4095 < 2 ^ 64)
      (hn : (s.heap.manager.allocate size).1 = 0) :
      (s.heap.manager.allocate size).2 = s.heap.manager := by
    rcases Nat.eq_zero_or_pos size with rfl | hp
    · rfl
    · refine granted_null hz hi (s.heap.manager.allocate_granted size) ?_ hn
      rw [MemoryManager.numFrames_eq hs]
      omega
  refine ⟨hi.balanced.disjoint, fun r hr => ⟨?_, fun a => (hi.proper r hr).byte_mem,
    fun f hf => ?_⟩, ?_, halloc, fun size hs hn => ?_, fun f => ?_, fun he => ?_⟩
  · intro hnull
    have hp := hi.proper r hr
    have hb : r.base = 0 := by have := hp.base_le; omega
    have hmem : 0 ∈ r.frames := by
      have := hp.count_pos
      simp only [Region.frames, Set.mem_ofPred_eq, hb, kFrameSize]
      omega
    rw [hfree hr hmem] at hz
    exact Bool.noConfusion hz
  · have hb := MemoryManager.initializeFrom_free hinit (hfree hr hf)
    rw [MemoryManager.totalFrames, ← hi.rangeEnd] at hb
    exact ⟨by omega, hb.2, hfree hr hf⟩
  · exact granted_null hz hi s.heap.manager.allocateFrame_granted (by decide)
  · have hmod : (size + kHeaderSize) % 2 ^ 64 = size + kHeaderSize := Nat.mod_eq_of_lt (by omega)
    simp only [Heap.operatorNew, hmod] at hn ⊢
    split at hn
    · next hp =>
      rw [if_pos hp, halloc _ hs hp]
    · simp [kHeaderSize] at hn
  · exact hi.balanced.accounts f
  · have hb := hi.balanced
    rw [he] at hb
    refine Bitmap.ext_get hi.size fun f => Bool.eq_iff_iff.mpr ?_
    exact Set.ext_iff.mp hb.eq_reserved f

end Run

/-- A machine with 64 KB of conventional memory above its first page. -/
def smallMap : List MemoryDescriptor := [⟨7, 4096, 16⟩]

/-- The manager of that machine: frames 2 to 16 are free, frame 1 holds the bitmap. -/
def smallManager : MemoryManager := ⟨⟨[0x03#8, 0x00#8, 0xFE#8]⟩, 17 * 4096⟩

/-- The small machine after three pages and an object have been allocated. -/
def smallSession : Session :=
  ((⟨⟨smallManager, fun _ => 0⟩, []⟩ : Session).step (.allocate 12288)).step (.operatorNew 100)

/-- The two live regions of the small machine own frames 2 to 4 and frame 5. -/
theorem frame_ownership_small :
    smallSession.live = [⟨.object, 5 * 4096 + 16, 100⟩, ⟨.bytes, 2 * 4096, 12288⟩] ∧
      smallSession.live.Pairwise fun r t => Disjoint r.frames t.frames :=
  ⟨by decide +kernel, (@frame_ownership smallManager smallSession smallMap 0x100000 0x200000
    (by decide +kernel)
    (.step (.operatorNew 100)
      (.step (.allocate 12288) (.start _) (show 12288 + 4095 < 2 ^ 64 by decide))
      (show 100 + 16 + 4095 < 2 ^ 64 by decide))).1⟩

end Sylphia
