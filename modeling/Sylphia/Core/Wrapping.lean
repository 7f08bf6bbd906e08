import Mathlib.Data.Nat.ModEq
import Mathlib.Order.Basic

/-!
# Ranges that wrap around

The numbers below `size` stand on a circle: behind the last one comes 0 again. A range is given
by its start and its length, and may go past the end.
-/

namespace Wrapping

/-- `x` is one of the `len` places from `start` on. -/
def InRange (size start len x : Nat) : Prop := (x + size - start % size) % size < len

instance decidableInRange (size start len x : Nat) : Decidable (InRange size start len x) :=
  inferInstanceAs (Decidable (_ < _))

variable {size start len len' off x lo hi : Nat}

/-- A range is in one piece, or goes past the end into a second one. -/
theorem inRange_iff (hx : x < size) : InRange size start len x ↔
    start % size ≤ x ∧ x < start % size + len ∨
      x < start % size ∧ x + size < start % size + len := by
  have hstart : start % size < size := Nat.mod_lt _ (Nat.zero_lt_of_lt hx)
  rw [InRange]
  by_cases hle : start % size ≤ x
  · rw [show x + size - start % size = x - start % size + size by omega, Nat.add_mod_right,
      Nat.mod_eq_of_lt (by omega)]
    omega
  · rw [Nat.mod_eq_of_lt (by omega)]
    omega

/-- A range that does not wrap around is an interval. -/
theorem inRange_of_le (hstart : start < size) (h : start + len ≤ size) (hx : x < size) :
    InRange size start len x ↔ start ≤ x ∧ x < start + len := by
  rw [inRange_iff hx, Nat.mod_eq_of_lt hstart]
  omega

theorem inRange_iff_exists (hx : x < size) :
    InRange size start len x ↔ ∃ k < len, x = (start + k) % size := by
  have hstart : start % size < size := Nat.mod_lt _ (Nat.zero_lt_of_lt hx)
  constructor
  · intro h
    refine ⟨_, h, ?_⟩
    rw [← Nat.mod_add_mod, Nat.add_mod_mod, show start % size + (x + size - start % size) = x + size
      by omega, Nat.add_mod_right, Nat.mod_eq_of_lt hx]
  · rintro ⟨k, hk, rfl⟩
    have hmod : (start + k) % size + size - start % size ≡ k [MOD size] := by
      refine Nat.ModEq.add_right_cancel' (start % size) ?_
      rw [Nat.sub_add_cancel (by omega), Nat.ModEq, Nat.add_mod_right, Nat.mod_mod,
        Nat.add_mod_mod, Nat.add_comm]
    rw [InRange, hmod]
    exact (Nat.mod_le _ _).trans_lt hk

@[simp] theorem inRange_mod_start :
    InRange size (start % size) len x ↔ InRange size start len x := by
  rw [InRange, InRange, Nat.mod_mod]

/-- Two ranges, one behind the other. -/
theorem inRange_add (hx : x < size) : InRange size start (len + len') x ↔
    InRange size start len x ∨ InRange size (start + len) len' x := by
  rw [inRange_iff_exists hx, inRange_iff_exists hx, inRange_iff_exists hx]
  constructor
  · rintro ⟨k, hk, hxk⟩
    by_cases hlt : k < len
    · exact Or.inl ⟨k, hlt, hxk⟩
    · exact Or.inr ⟨k - len, by omega,
        by rw [hxk, show start + len + (k - len) = start + k by omega]⟩
  · rintro (⟨k, hk, hxk⟩ | ⟨k, hk, hxk⟩)
    · exact ⟨k, by omega, hxk⟩
    · exact ⟨len + k, by omega, by rw [hxk, Nat.add_assoc]⟩

/-- A range meets no number of an interval when it ends in front of it, the first time around or
the second. -/
theorem avoids_iff (hlo : lo < hi) (hhi : hi ≤ size) :
    (∀ x, lo ≤ x → x < hi → ¬ InRange size start len x) ↔
      len = 0 ∨ start % size + len ≤ lo ∨ hi ≤ start % size ∧ start % size + len ≤ size + lo := by
  have hstart : start % size < size := Nat.mod_lt _ (by omega)
  constructor
  · intro h
    by_contra hc
    have hmeets {x : Nat} (h1 : lo ≤ x) (h2 : x < hi) :=
      mt (inRange_iff (h2.trans_le hhi)).mpr (h x h1 h2)
    by_cases hin : lo ≤ start % size ∧ start % size < hi
    · exact hmeets hin.1 hin.2 (by omega)
    · exact hmeets (Nat.le_refl lo) hlo (by omega)
  · intro h x h1 h2 hx
    have := (inRange_iff (h2.trans_le hhi)).mp hx
    omega

/-- A range that starts `off` places behind another lies in it when it ends in front of its end. -/
theorem subset_iff (hoff : off < size) (hlen : len < size) :
    (∀ x < size, InRange size (start + off) len' x → InRange size start len x) ↔
      len' = 0 ∨ off + len' ≤ len := by
  have hpos : 0 < size := Nat.zero_lt_of_lt hoff
  constructor
  · intro h
    by_contra hc
    have hout : ¬ InRange size start len ((start + max off len) % size) := by
      rw [inRange_iff_exists (Nat.mod_lt _ hpos)]
      rintro ⟨k, hk, he⟩
      have hmod : max off len % size = k % size :=
        Nat.ModEq.add_left_cancel' start he
      rw [Nat.mod_eq_of_lt (by omega), Nat.mod_eq_of_lt (by omega)] at hmod
      omega
    refine hout (h _ (Nat.mod_lt _ hpos) ((inRange_iff_exists (Nat.mod_lt _ hpos)).mpr
      ⟨max off len - off, by omega, ?_⟩))
    rw [show start + off + (max off len - off) = start + max off len by omega]
  · intro h x hx hin
    obtain ⟨k, hk, rfl⟩ := (inRange_iff_exists hx).mp hin
    refine (inRange_iff_exists hx).mpr ⟨off + k, by omega, by rw [Nat.add_assoc]⟩

/-- A range of whole blocks, in blocks and in single places. -/
theorem inRange_blocks {block blocks n : Nat} (hb : 0 < block) (hpos : 0 < blocks)
    (hs : start % block = 0) :
    InRange (block * blocks) start (block * n) x ↔
      InRange blocks (start / block) n (x / block) := by
  have hlt : start / block % blocks < blocks := Nat.mod_lt _ hpos
  have hstart : start % (block * blocks) = block * (start / block % blocks) := by
    rw [← Nat.mod_mul_right_div_self, Nat.mul_div_cancel']
    rw [Nat.dvd_iff_mod_eq_zero, Nat.mod_mul_right_mod]
    exact hs
  have hdiff : x + block * blocks - block * (start / block % blocks) =
      x + block * (blocks - start / block % blocks) := by
    rw [Nat.mul_sub, Nat.add_sub_assoc (Nat.mul_le_mul_left _ hlt.le)]
  rw [InRange, InRange, hstart, hdiff, Nat.mul_comm block n, ← Nat.div_lt_iff_lt_mul hb,
    Nat.mod_mul_right_div_self, Nat.add_mul_div_left _ _ hb, Nat.add_sub_assoc hlt.le]

end Wrapping
