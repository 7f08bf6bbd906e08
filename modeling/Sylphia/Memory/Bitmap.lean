import Mathlib.Data.Nat.Bitwise
import Mathlib.Data.List.Basic
import Mathlib.Tactic.IntervalCases

/-!
# The frame bitmap

`Bitmap` of `memory_manager.hpp`: one bit for each 4 KB frame, set when the frame
is used. Bits past the buffer read as used and cannot be changed. The search for
a free frame returns the lowest clear bit of the buffer.
-/

namespace Sylphia

/-- `Bitmap`: the bytes of `buffer_`, of which there are `bitmap_size_`. -/
structure Bitmap where
  buffer : List (BitVec 8)
  deriving DecidableEq, Repr

namespace Bitmap

/-- `bitmap_size_`, in bytes. -/
def bitmapSize (b : Bitmap) : Nat := b.buffer.length

/-- `Bitmap::Get`: is the frame used? Out of range counts as used. -/
def get (b : Bitmap) (index : Nat) : Bool :=
  if index / 8 ≥ b.bitmapSize then true
  else b.buffer.getD (index / 8) 0 &&& 1#8 <<< (index % 8) != 0

/-- `Bitmap::Set`: mark the frame used or free. Out of range is ignored. -/
def set (b : Bitmap) (index : Nat) (allocated : Bool) : Bitmap :=
  if index / 8 ≥ b.bitmapSize then b
  else if allocated then ⟨b.buffer.modify (index / 8) (· ||| 1#8 <<< (index % 8))⟩
  else ⟨b.buffer.modify (index / 8) (· &&& ~~~(1#8 <<< (index % 8)))⟩

/-- The inner loop of `FindFreeFrame`: the lowest clear bit of one byte. -/
def findClearBit (byte : BitVec 8) : Option Nat :=
  (List.range 8).find? fun bit => byte >>> bit &&& 1#8 == 0

/-- The outer loop of `FindFreeFrame`, over the bytes from number `i` on. -/
def findFreeFrom : List (BitVec 8) → Nat → Option Nat
  | [], _ => none
  | byte :: bytes, i =>
    if byte ≠ 0xFF#8 then
      match findClearBit byte with
      | some bit => some (i * 8 + bit)
      | none => findFreeFrom bytes (i + 1)
    else findFreeFrom bytes (i + 1)

/-- `Bitmap::FindFreeFrame`: the first clear bit, `none` for `-1`. -/
def findFreeFrame (b : Bitmap) : Option Nat := findFreeFrom b.buffer 0

/-- The loops of `Allocate`, `Free` and `Initialize` that set `count` bits from `start` on. -/
def setRange (b : Bitmap) (start : Nat) : Nat → Bool → Bitmap
  | 0, _ => b
  | count + 1, allocated => (b.setRange start count allocated).set (start + count) allocated

/-- A mask of one bit tests that bit. -/
private theorem and_bit_ne_zero (x : BitVec 8) {k : Nat} (hk : k < 8) :
    (x &&& 1#8 <<< k != 0) = x.getLsbD k := by
  rw [show 1#8 <<< k = BitVec.twoPow 8 k from rfl, BitVec.and_twoPow]
  cases hb : x.getLsbD k with
  | false => simp
  | true =>
    have hne : BitVec.twoPow 8 k ≠ 0#8 := by
      intro h
      have := congrArg (fun y => y.getLsbD k) h
      simp [hk] at this
    simpa using hne

private theorem shift_one_bit {k j : Nat} (hj : j < 8) :
    (1#8 <<< k).getLsbD j = decide (j = k) := by
  by_cases h : j = k
  · subst h
    simp [hj]
  · simp [hj, h]
    omega

@[simp] theorem bitmapSize_set (b : Bitmap) (i : Nat) (v : Bool) :
    (b.set i v).bitmapSize = b.bitmapSize := by
  unfold set
  split
  · rfl
  · split <;> simp [bitmapSize]

/-- Inside the buffer, `Get` reads one bit of one byte. -/
theorem get_eq_bit {b : Bitmap} {i : Nat} (hi : i / 8 < b.bitmapSize) :
    b.get i = (b.buffer.getD (i / 8) 0).getLsbD (i % 8) := by
  rw [get, if_neg (by omega), and_bit_ne_zero _ (by omega)]

/-- Past the buffer every frame reads as used. -/
theorem get_of_size_le {b : Bitmap} {i : Nat} (hi : b.bitmapSize ≤ i / 8) : b.get i = true := by
  rw [get, if_pos hi]

/-- The byte holding a bit after `Set`. -/
private theorem getD_set {b : Bitmap} {i : Nat} (v : Bool) (hi : i / 8 < b.bitmapSize)
    {n k : Nat} (hk : k < 8) :
    ((b.set i v).buffer.getD n 0).getLsbD k =
      if n = i / 8 ∧ k = i % 8 then v else (b.buffer.getD n 0).getLsbD k := by
  unfold bitmapSize at hi
  rw [set, if_neg (by simpa [bitmapSize] using hi)]
  by_cases hn : n = i / 8
  · subst hn
    cases v
    · simp [List.getD, hi, shift_one_bit hk]
      grind
    · simp [List.getD, hi, shift_one_bit hk]
      grind
  · cases v <;> simp [List.getD, Ne.symm hn, hn]

/-- `Set` changes exactly the named bit, and only when it lies in the buffer. -/
theorem get_set (b : Bitmap) (i j : Nat) (v : Bool) :
    (b.set i v).get j = if j = i ∧ i / 8 < b.bitmapSize then v else b.get j := by
  by_cases hi : i / 8 < b.bitmapSize
  · by_cases hj : j / 8 < b.bitmapSize
    · rw [get_eq_bit (by simpa using hj), get_eq_bit hj, getD_set v hi (by omega)]
      have he : (j / 8 = i / 8 ∧ j % 8 = i % 8) ↔ j = i := by omega
      simp [he, hi]
    · rw [get_of_size_le (by simpa using hj), get_of_size_le (by omega)]
      have hne : j ≠ i := by rintro rfl; exact hj hi
      simp [hne]
  · rw [set, if_pos (by omega)]
    simp [hi]

@[simp] theorem bitmapSize_setRange (b : Bitmap) (start count : Nat) (v : Bool) :
    (b.setRange start count v).bitmapSize = b.bitmapSize := by
  induction count with
  | zero => rfl
  | succ count ih => simp [setRange, ih]

/-- A range update changes exactly the bits of the range that lie in the buffer. -/
theorem get_setRange (b : Bitmap) (start count j : Nat) (v : Bool) :
    (b.setRange start count v).get j =
      if start ≤ j ∧ j < start + count ∧ j / 8 < b.bitmapSize then v else b.get j := by
  induction count with
  | zero => simp only [setRange]; rw [if_neg (by omega)]
  | succ count ih =>
    rw [setRange, get_set, ih]
    by_cases hj : j = start + count
    · subst hj
      by_cases hb : (start + count) / 8 < b.bitmapSize
      · simp [hb]
      · simp [hb]
    · have he : (start ≤ j ∧ j < start + (count + 1) ∧ j / 8 < b.bitmapSize) ↔
          (start ≤ j ∧ j < start + count ∧ j / 8 < b.bitmapSize) := by omega
      simp only [hj, false_and, if_false, he]

/-- Two bitmaps of one size that agree on every frame are the same bytes. -/
theorem ext_get {b c : Bitmap} (hs : b.bitmapSize = c.bitmapSize) (h : ∀ i, b.get i = c.get i) :
    b = c := by
  obtain ⟨bs⟩ := b
  obtain ⟨cs⟩ := c
  simp only [bitmapSize] at hs
  congr 1
  refine List.ext_getElem hs fun n hn hn' => ?_
  apply BitVec.eq_of_getLsbD_eq
  intro k hk
  have hb := h (n * 8 + k)
  have hd : (n * 8 + k) / 8 = n := by omega
  have hm : (n * 8 + k) % 8 = k := by omega
  rw [get_eq_bit (by simpa [bitmapSize, hd] using hn),
    get_eq_bit (by simpa [bitmapSize, hd] using hn'), hd, hm] at hb
  simpa [List.getD, hn, hn'] using hb

/-- The byte `0xFF` has no clear bit. -/
private theorem allOnes_bit {k : Nat} (hk : k < 8) : (0xFF#8).getLsbD k = true := by
  interval_cases k <;> rfl

/-- A buffer filled with `0xFF` marks every frame used. -/
theorem get_allOnes (n i : Nat) : (⟨List.replicate n 0xFF#8⟩ : Bitmap).get i = true := by
  by_cases hi : i / 8 < n
  · rw [get_eq_bit (by simpa [bitmapSize] using hi)]
    simp only [List.getD, List.getElem?_replicate, hi, if_true, Option.getD_some]
    exact allOnes_bit (by omega)
  · exact get_of_size_le (by simpa [bitmapSize] using hi)

private theorem shift_and_one (byte : BitVec 8) (k : Nat) :
    (byte >>> k &&& 1#8 == 0) = !byte.getLsbD k := by
  have h := and_bit_ne_zero (byte >>> k) (k := 0) (by decide)
  rw [show 1#8 <<< 0 = 1#8 from rfl, BitVec.getLsbD_ushiftRight, Nat.add_zero, bne] at h
  rw [← h, Bool.not_not]

private theorem findClearBit_eq_some {byte : BitVec 8} {k : Nat}
    (h : findClearBit byte = some k) :
    k < 8 ∧ byte.getLsbD k = false ∧ ∀ j < k, byte.getLsbD j = true := by
  simp only [findClearBit, shift_and_one, List.find?_range_eq_some] at h
  obtain ⟨hk, hm, hlow⟩ := h
  exact ⟨List.mem_range.mp hm, by simpa using hk, fun j hj => by simpa using hlow j hj⟩

private theorem findClearBit_eq_none {byte : BitVec 8} (h : findClearBit byte = none)
    {k : Nat} (hk : k < 8) : byte.getLsbD k = true := by
  simp only [findClearBit, shift_and_one, List.find?_range_eq_none] at h
  simpa using h k hk

/-- What the byte loop returns: the lowest clear bit from byte `i` on. -/
private theorem findFreeFrom_spec (bytes : List (BitVec 8)) (i : Nat) :
    match findFreeFrom bytes i with
    | some f => ∃ n k, f = (i + n) * 8 + k ∧ n < bytes.length ∧ k < 8 ∧
        (bytes.getD n 0).getLsbD k = false ∧
        ∀ m j, j < 8 → m * 8 + j < n * 8 + k → (bytes.getD m 0).getLsbD j = true
    | none => ∀ n k, n < bytes.length → k < 8 → (bytes.getD n 0).getLsbD k = true := by
  induction bytes generalizing i with
  | nil => simp [findFreeFrom]
  | cons byte bytes ih =>
    -- Both ways of leaving this byte behind, `0xFF` or no clear bit, make it full.
    have hskip (hfull : ∀ k < 8, byte.getLsbD k = true) :
        match findFreeFrom bytes (i + 1) with
        | some f => ∃ n k, f = (i + n) * 8 + k ∧ n < (byte :: bytes).length ∧ k < 8 ∧
            ((byte :: bytes).getD n 0).getLsbD k = false ∧
            ∀ m j, j < 8 → m * 8 + j < n * 8 + k → ((byte :: bytes).getD m 0).getLsbD j = true
        | none => ∀ n k, n < (byte :: bytes).length → k < 8 →
            ((byte :: bytes).getD n 0).getLsbD k = true := by
      have hrest := ih (i + 1)
      cases hf : findFreeFrom bytes (i + 1) with
      | none =>
        rw [hf] at hrest
        intro n k hn hk
        cases n with
        | zero => exact hfull k hk
        | succ n => exact hrest n k (by simpa using hn) hk
      | some f =>
        rw [hf] at hrest
        obtain ⟨n, k, hfe, hn, hk, hclear, hlow⟩ := hrest
        refine ⟨n + 1, k, by omega, by simpa using hn, hk, by simpa using hclear, ?_⟩
        intro m j hj hlt
        cases m with
        | zero => exact hfull j hj
        | succ m => exact hlow m j hj (by omega)
    rw [findFreeFrom]
    by_cases hff : byte ≠ 0xFF#8
    · rw [if_pos hff]
      cases hc : findClearBit byte with
      | some k =>
        obtain ⟨hk, hclear, hlow⟩ := findClearBit_eq_some hc
        refine ⟨0, k, rfl, by simp, hk, by simpa using hclear, ?_⟩
        intro m j hj hlt
        have hm : m = 0 := by omega
        subst hm
        exact hlow j (by omega)
      | none => exact hskip fun k hk => findClearBit_eq_none hc hk
    · rw [if_neg hff]
      rw [ne_eq, not_not] at hff
      exact hskip fun k hk => hff ▸ allOnes_bit hk

/-- `FindFreeFrame` returns the lowest free frame. -/
theorem findFreeFrame_eq_some {b : Bitmap} {f : Nat} (h : b.findFreeFrame = some f) :
    b.get f = false ∧ ∀ g < f, b.get g = true := by
  have hs := findFreeFrom_spec b.buffer 0
  rw [findFreeFrame] at h
  rw [h] at hs
  obtain ⟨n, k, rfl, hn, hk, hclear, hlow⟩ := hs
  have hd : ((0 + n) * 8 + k) / 8 = n := by omega
  have hm : ((0 + n) * 8 + k) % 8 = k := by omega
  refine ⟨?_, fun g hg => ?_⟩
  · rw [get_eq_bit (hd.symm ▸ hn), hd, hm, hclear]
  · by_cases hgs : g / 8 < b.bitmapSize
    · rw [get_eq_bit hgs]
      exact hlow (g / 8) (g % 8) (by omega) (by omega)
    · exact get_of_size_le (by omega)

/-- `FindFreeFrame` returns `-1` only when every frame is used. -/
theorem findFreeFrame_eq_none {b : Bitmap} (h : b.findFreeFrame = none) (g : Nat) :
    b.get g = true := by
  have hs := findFreeFrom_spec b.buffer 0
  rw [findFreeFrame] at h
  rw [h] at hs
  by_cases hgs : g / 8 < b.bitmapSize
  · rw [get_eq_bit hgs]
    exact hs (g / 8) (g % 8) hgs (by omega)
  · exact get_of_size_le (by omega)

/-- A free frame lies in the buffer. -/
theorem lt_size_of_get {b : Bitmap} {f : Nat} (h : b.get f = false) : f / 8 < b.bitmapSize := by
  by_contra hc
  rw [get_of_size_le (by omega)] at h
  exact Bool.noConfusion h

end Bitmap
end Sylphia
