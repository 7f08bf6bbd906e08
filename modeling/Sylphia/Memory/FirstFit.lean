import Mathlib.Order.Bounds.Basic
import Sylphia.Memory.Manager

/-!
# First fit

`Allocate` takes the lowest run of free frames that is long enough: neither the start of the
search nor the frames that its loop skips leave one out, and for a single frame the short way
round the loop gives the same.
-/

namespace Sylphia

namespace MemoryManager

/-- The bitmap has a bit for each frame of the range, and the bits behind it are set. -/
structure Sized (m : MemoryManager) : Prop where
  size : m.bitmap.bitmapSize = (m.totalFrames + 7) / 8
  padding : ∀ f, m.bitmap.get f = false → f < m.totalFrames

/-- The `k` frames from `i` on are in the range and free. -/
def Fits (m : MemoryManager) (k i : Nat) : Prop :=
  ∀ f, i ≤ f → f < i + k → f < m.totalFrames ∧ m.bitmap.get f = false

/-- The `k` frames from `i` on are marked used, and nothing else changes. -/
structure Marks (m : MemoryManager) (k i : Nat) (m' : MemoryManager) : Prop where
  rangeEnd : m'.rangeEnd = m.rangeEnd
  size : m'.bitmap.bitmapSize = m.bitmap.bitmapSize
  get : ∀ f, m'.bitmap.get f = (m.bitmap.get f || decide (i ≤ f ∧ f < i + k))

/-- The lowest `k` frames in a row are taken, and their address is given; without such frames
nothing changes, and the address is null. It is null too when the lowest ones start at frame 0. -/
structure FirstFit (m : MemoryManager) (k : Nat) (result : Nat × MemoryManager) : Prop where
  lowest : ∀ i, IsLeast {i | m.Fits k i} i → result.1 = i * kFrameSize ∧ m.Marks k i result.2
  none : (∀ i, ¬ m.Fits k i) → result = (0, m)
  null : result.1 = 0 ↔ (∀ i, ¬ m.Fits k i) ∨ IsLeast {i | m.Fits k i} 0

/-- `Allocate` for `k` frames without the short way for one frame. -/
def allocateRun (m : MemoryManager) (k : Nat) : Nat × MemoryManager :=
  match m.bitmap.findFreeFrame with
  | none => (0, m)
  | some startSearch =>
    match searchRun m.bitmap m.totalFrames k (m.totalFrames + 1) startSearch with
    | none => (0, m)
    | some i => (i * kFrameSize, { m with bitmap := m.bitmap.setRange i k true })

section Search

variable {m : MemoryManager} {k i j fuel count : Nat}

/-- The inner loop goes through exactly where the run fits. -/
theorem blockedAt_eq_none_iff_fits :
    blockedAt m.bitmap m.totalFrames i k 0 = none ↔ m.Fits k i := by
  rw [blockedAt_eq_none_iff]
  constructor
  · intro h f hlo hhi
    have hf := h (f - i) (Nat.zero_le _) (by omega)
    rwa [Nat.add_sub_cancel' hlo] at hf
  · intro h f _ hhi
    exact h (i + f) (Nat.le_add_right i f) (by omega)

/-- No run starts at the frame that blocks one or at a frame in front of it. -/
theorem not_fits_of_blocked (h : blockedAt m.bitmap m.totalFrames i k 0 = some j) {x : Nat}
    (hlo : i ≤ x) (hhi : x ≤ i + j) : ¬ m.Fits k x := by
  obtain ⟨-, hjk, hblocked⟩ := blockedAt_eq_some h
  intro hfits
  obtain ⟨hlt, hget⟩ := hfits (i + j) hhi (by omega)
  rcases hblocked with hle | hused
  · omega
  · exact absurd (hget.symm.trans hused) Bool.false_ne_true

/-- The outer loop with enough rounds gives the lowest start from `i` on; what it has skipped is
no start. -/
theorem searchRun_spec (hk : 1 ≤ k) (hfuel : m.totalFrames < i + fuel) :
    match searchRun m.bitmap m.totalFrames k fuel i with
    | some r => IsLeast {x | i ≤ x ∧ m.Fits k x} r
    | none => ∀ x, i ≤ x → ¬ m.Fits k x := by
  induction fuel generalizing i with
  | zero =>
    intro x hx hfits
    have hlt := (hfits x le_rfl (by omega)).1
    omega
  | succ fuel ih =>
    rw [searchRun]
    by_cases hi : i < m.totalFrames
    · rw [if_pos hi]
      cases hb : blockedAt m.bitmap m.totalFrames i k 0 with
      | none => exact ⟨⟨le_rfl, blockedAt_eq_none_iff_fits.mp hb⟩, fun x hx => hx.1⟩
      | some j =>
        dsimp only
        have hrest := ih (i := i + j + 1) (by omega)
        have hbehind {x : Nat} (hx : i ≤ x) (hfits : m.Fits k x) : i + j + 1 ≤ x := by
          by_contra hlt
          exact not_fits_of_blocked hb hx (by omega) hfits
        cases hs : searchRun m.bitmap m.totalFrames k fuel (i + j + 1) with
        | none =>
          rw [hs] at hrest
          exact fun x hx hfits => hrest x (hbehind hx hfits) hfits
        | some r =>
          rw [hs] at hrest
          refine ⟨⟨by have hle := hrest.1.1; omega, hrest.1.2⟩, fun x hx => ?_⟩
          exact hrest.2 ⟨hbehind hx.1 hx.2, hx.2⟩
    · rw [if_neg hi]
      intro x hx hfits
      have hlt := (hfits x le_rfl (by omega)).1
      omega

end Search

section Allocate

variable {m : MemoryManager} {k i : Nat}

theorem marks_setRange (h : m.Fits k i) :
    m.Marks k i { m with bitmap := m.bitmap.setRange i k true } := by
  refine ⟨rfl, Bitmap.bitmapSize_setRange _ _ _ _, fun f => ?_⟩
  rw [Bitmap.get_setRange]
  by_cases hf : i ≤ f ∧ f < i + k
  · rw [decide_eq_true hf, Bool.or_true, if_pos]
    exact ⟨hf.1, hf.2, Bitmap.lt_size_of_get (h f hf.1 hf.2).2⟩
  · rw [decide_eq_false hf, Bool.or_false, if_neg fun hin => hf ⟨hin.1, hin.2.1⟩]

/-- A run that is the lowest settles the result. -/
theorem firstFit_of_isLeast (h : IsLeast {i | m.Fits k i} i) :
    m.FirstFit k (i * kFrameSize, { m with bitmap := m.bitmap.setRange i k true }) := by
  refine ⟨fun i' hi' => ?_, fun hnone => absurd h.1 (hnone i), ?_⟩
  · obtain rfl := h.unique hi'
    exact ⟨rfl, marks_setRange h.1⟩
  · constructor
    · intro h0
      have hi : i = 0 := by
        rw [kFrameSize] at h0
        omega
      exact Or.inr (hi ▸ h)
    · rintro (hnone | hzero)
      · exact absurd h.1 (hnone i)
      · rw [h.unique hzero, Nat.zero_mul]

theorem firstFit_of_none (h : ∀ i, ¬ m.Fits k i) : m.FirstFit k (0, m) :=
  ⟨fun i hi => absurd hi.1 (h i), fun _ => rfl, fun _ => Or.inl h, fun _ => rfl⟩

/-- The search starts at the lowest free frame, in front of which no run starts. -/
theorem allocateRun_firstFit (hk : 1 ≤ k) : m.FirstFit k (m.allocateRun k) := by
  rw [allocateRun]
  cases hf : m.bitmap.findFreeFrame with
  | none =>
    refine firstFit_of_none fun i hfits => ?_
    have hget := (hfits i le_rfl (by omega)).2
    rw [Bitmap.findFreeFrame_eq_none hf i] at hget
    exact Bool.noConfusion hget
  | some start =>
    dsimp only
    have hstart {x : Nat} (hfits : m.Fits k x) : start ≤ x := by
      by_contra hlt
      have hget := (hfits x le_rfl (by omega)).2
      rw [(Bitmap.findFreeFrame_eq_some hf).2 x (by omega)] at hget
      exact Bool.noConfusion hget
    have hspec := @searchRun_spec m k start (m.totalFrames + 1) hk (by omega)
    cases hr : searchRun m.bitmap m.totalFrames k (m.totalFrames + 1) start with
    | none =>
      rw [hr] at hspec
      exact firstFit_of_none fun i hfits => hspec i (hstart hfits) hfits
    | some i =>
      rw [hr] at hspec
      exact firstFit_of_isLeast ⟨hspec.1.2, fun x hx => hspec.2 ⟨hstart hx, hx⟩⟩

/-- For one frame the short way gives what the loop gives. -/
theorem allocateFrame_eq_allocateRun (hs : m.Sized) : m.allocateFrame = m.allocateRun 1 := by
  rw [allocateFrame, allocateRun]
  cases hf : m.bitmap.findFreeFrame with
  | none => rfl
  | some start =>
    have hget := (Bitmap.findFreeFrame_eq_some hf).1
    have hlt := hs.padding start hget
    have hfits : m.Fits 1 start := by
      intro f hlo hhi
      obtain rfl : f = start := by omega
      exact ⟨hlt, hget⟩
    dsimp only
    rw [searchRun, if_pos hlt, blockedAt_eq_none_iff_fits.mpr hfits]
    rfl

/-- `Allocate` is first fit; the short way for one frame gives what the search gives, and the
search skips no start of a run. -/
theorem allocate_firstFit {m : MemoryManager} (hs : m.Sized) {size : Nat} (h1 : 1 ≤ size)
    (hsize : size + 4095 < 2 ^ 64) :
    m.FirstFit ((size + 4095) / 4096) (m.allocate size) ∧
      m.allocateFrame = m.allocateRun 1 ∧
      ∀ k i j, blockedAt m.bitmap m.totalFrames i k 0 = some j →
        ∀ x, i ≤ x → x ≤ i + j → ¬ m.Fits k x := by
  refine ⟨?_, allocateFrame_eq_allocateRun hs, fun k i j hb x => not_fits_of_blocked hb⟩
  have hk : 1 ≤ (size + 4095) / 4096 := by omega
  have hrun : m.allocate size = m.allocateRun ((size + 4095) / 4096) := by
    rw [allocate, if_neg (by omega), numFrames_eq hsize]
    split
    · rename_i hone
      rw [hone, allocateFrame_eq_allocateRun hs]
    · rfl
  rw [hrun]
  exact allocateRun_firstFit hk

/-- Sixteen frames of which 0, 4 and 5 are used: a request for three. -/
theorem allocate_firstFit_small :
    (⟨⟨[0x31#8, 0#8]⟩, 65536⟩ : MemoryManager).FirstFit 3
      (allocate ⟨⟨[0x31#8, 0#8]⟩, 65536⟩ 12288) := by
  have hsized : (⟨⟨[0x31#8, 0#8]⟩, 65536⟩ : MemoryManager).Sized := by
    refine ⟨rfl, fun f hf => ?_⟩
    have hlt : f / 8 < 2 := Bitmap.lt_size_of_get hf
    have htotal : totalFrames ⟨⟨[0x31#8, 0#8]⟩, 65536⟩ = 16 := by decide
    omega
  exact (allocate_firstFit hsized (by decide : 1 ≤ 12288) (by decide)).1

/-- With frame 0 free the address of the lowest run is null, though there is a run. -/
theorem allocate_frame_zero :
    (⟨⟨[0xFE#8]⟩, 4096⟩ : MemoryManager).Sized ∧
      ¬ ((allocate ⟨⟨[0xFE#8]⟩, 4096⟩ 1).1 = 0 ↔
        ∀ i, ¬ (⟨⟨[0xFE#8]⟩, 4096⟩ : MemoryManager).Fits ((1 + 4095) / 4096) i) := by
  have hget : ∀ f, (⟨[0xFE#8]⟩ : Bitmap).get f = false → f = 0 := by
    intro f hf
    have hlt : f / 8 < 1 := Bitmap.lt_size_of_get hf
    have hall : ∀ g < 8, (⟨[0xFE#8]⟩ : Bitmap).get g = false → g = 0 := by decide
    exact hall f (by omega) hf
  refine ⟨⟨rfl, fun f hf => ?_⟩, fun hnull => hnull.mp (by decide) 0 fun f _ hhi => ?_⟩
  · rw [hget f hf]
    decide
  · obtain rfl : f = 0 := by omega
    decide

end Allocate

end MemoryManager

end Sylphia
