import Mathlib.Algebra.CharP.Two
import Mathlib.Algebra.Field.ZMod
import Mathlib.Algebra.Polynomial.BigOperators
import Mathlib.Algebra.Polynomial.Div
import Mathlib.RingTheory.Coprime.Lemmas
import Mathlib.Tactic.LinearCombination

/-!
# Cyclic redundancy checks

The register of a reflected check of width `w`, whose bit `k` is the coefficient of
`X ^ (w - 1 - k)`, holds the remainder of a message by the generator. A generator with a
constant term tells messages apart that differ in a burst of at most `w` bits.
-/

namespace Crc

open Polynomial Finset

variable {w : Nat}

/-- The polynomial of a register. -/
noncomputable def poly (c : BitVec w) : (ZMod 2)[X] :=
  ∑ k ∈ range w, if c.getLsbD k then X ^ (w - 1 - k) else 0

/-- The generator: `X ^ w`, and below that what a register is xored with. -/
noncomputable def generator (g : BitVec w) : (ZMod 2)[X] := X ^ w + poly g

/-- The shift of a register by one bit. -/
def step (g c : BitVec w) : BitVec w := if c.getLsbD 0 then c >>> 1 ^^^ g else c >>> 1

/-- One byte of the message. -/
def byte (g c : BitVec w) (b : BitVec 8) : BitVec w := (step g)^[8] (c ^^^ b.setWidth w)

/-- The polynomial of a message, its first byte highest and the lowest bit of a byte first. -/
noncomputable def message : List (BitVec 8) → (ZMod 2)[X]
  | [] => 0
  | b :: bs => X ^ (8 * bs.length) * poly b + message bs

/-- The remainder of a message behind a register that starts as `c`. -/
noncomputable def remainder (g c : BitVec w) (bs : List (BitVec 8)) : (ZMod 2)[X] :=
  (X ^ (8 * bs.length) * poly c + X ^ w * message bs) %ₘ generator g

theorem poly_xor (c d : BitVec w) : poly (c ^^^ d) = poly c + poly d := by
  rw [poly, poly, poly, ← sum_add_distrib]
  refine sum_congr rfl fun k _ => ?_
  rw [BitVec.getLsbD_xor]
  cases c.getLsbD k <;> cases d.getLsbD k <;> simp [CharTwo.add_self_eq_zero]

theorem degree_poly_lt (c : BitVec w) : (poly c).degree < w := by
  rcases Nat.eq_zero_or_pos w with rfl | hw
  · simp [poly]
  · refine (degree_sum_le _ _).trans_lt ((Finset.sup_lt_iff ?_).mpr fun k hk => ?_)
    · exact WithBot.bot_lt_coe w
    · split
      · rw [degree_X_pow]
        exact_mod_cast (by have := Finset.mem_range.mp hk; omega : w - 1 - k < w)
      · rw [degree_zero]
        exact WithBot.bot_lt_coe w

/-- The polynomial of a register by its reflection, whose bit `k` is the coefficient of `X ^ k`. -/
theorem poly_eq_sum (c : BitVec w) :
    poly c = ∑ k ∈ range w, if c.getLsbD (w - 1 - k) then X ^ k else 0 := by
  rw [← sum_range_reflect, poly]
  refine sum_congr rfl fun k hk => ?_
  have hk := Finset.mem_range.mp hk
  rw [show w - 1 - (w - 1 - k) = k by omega]

theorem monic_generator (g : BitVec w) : (generator g).Monic :=
  monic_X_pow_add (degree_poly_lt g)

theorem degree_generator (g : BitVec w) : (generator g).degree = w := by
  rw [generator, degree_add_eq_left_of_degree_lt (by rw [degree_X_pow]; exact degree_poly_lt g),
    degree_X_pow]

/-- A shift multiplies by `X`; the bit that leaves the register is the coefficient of `X ^ w`. -/
theorem X_mul_poly (c : BitVec w) :
    X * poly c = (if c.getLsbD 0 then X ^ w else 0) + poly (c >>> 1) := by
  rcases w with _ | n
  · simp [poly]
  · have hlast : (c >>> 1).getLsbD n = false := by
      rw [BitVec.getLsbD_ushiftRight]
      exact BitVec.getLsbD_of_ge _ _ (by omega)
    have hterm : ∀ k ∈ range n, X * (if c.getLsbD (k + 1) then X ^ (n + 1 - 1 - (k + 1)) else 0) =
        (if (c >>> 1).getLsbD k then X ^ (n + 1 - 1 - k) else 0 : (ZMod 2)[X]) := by
      intro k hk
      have hexp : n + 1 - 1 - (k + 1) + 1 = n + 1 - 1 - k := by
        have := Finset.mem_range.mp hk
        omega
      rw [BitVec.getLsbD_ushiftRight, Nat.add_comm 1 k, mul_ite, mul_zero, ← pow_succ', hexp]
    rw [poly, poly, sum_range_succ', sum_range_succ, mul_add, mul_sum, sum_congr rfl hterm, hlast,
      if_neg Bool.false_ne_true, add_zero, add_comm, mul_ite, mul_zero, ← pow_succ',
      Nat.add_sub_cancel, Nat.sub_zero]

/-- The register follows the multiplication by `X`, up to the generator. -/
theorem generator_dvd_step (g c : BitVec w) : generator g ∣ poly (step g c) - X * poly c := by
  rw [X_mul_poly, step]
  split
  · rw [poly_xor, generator, CharTwo.sub_eq_add]
    refine dvd_of_eq ?_
    calc X ^ w + poly g = X ^ w + poly g + (poly (c >>> 1) + poly (c >>> 1)) := by
          rw [CharTwo.add_self_eq_zero, add_zero]
      _ = poly (c >>> 1) + poly g + (X ^ w + poly (c >>> 1)) := by ring
  · rw [zero_add, sub_self]
    exact dvd_zero _

theorem generator_dvd_iterate (g c : BitVec w) (n : Nat) :
    generator g ∣ poly ((step g)^[n] c) - X ^ n * poly c := by
  induction n with
  | zero => simp
  | succ n ih =>
    have hstep := generator_dvd_step g ((step g)^[n] c)
    have hsum := dvd_add hstep (dvd_mul_of_dvd_right ih X)
    rw [Function.iterate_succ_apply']
    convert hsum using 1
    ring

/-- A byte at the low end of the register, eight shifts on. -/
theorem X_pow_mul_poly_setWidth (hw : 8 ≤ w) (b : BitVec 8) :
    X ^ 8 * poly (b.setWidth w) = X ^ w * poly b := by
  obtain ⟨m, rfl⟩ := Nat.exists_eq_add_of_le hw
  have hhigh : ∀ k ∈ range m, (if (b.setWidth (8 + m)).getLsbD (8 + k) then
      X ^ (8 + m - 1 - (8 + k)) else 0 : (ZMod 2)[X]) = 0 := by
    intro k _
    rw [BitVec.getLsbD_setWidth, BitVec.getLsbD_of_ge b _ (by omega),
      Bool.and_false, if_neg Bool.false_ne_true]
  have hlow : ∀ k ∈ range 8, X ^ 8 * (if (b.setWidth (8 + m)).getLsbD k then
      X ^ (8 + m - 1 - k) else 0) =
        (X ^ (8 + m) * if b.getLsbD k then X ^ (8 - 1 - k) else 0 : (ZMod 2)[X]) := by
    intro k hk
    have hk := Finset.mem_range.mp hk
    have hexp : 8 + (8 + m - 1 - k) = 8 + m + (8 - 1 - k) := by omega
    rw [BitVec.getLsbD_setWidth, decide_eq_true (by omega),
      Bool.true_and, mul_ite, mul_ite, mul_zero, mul_zero, ← pow_add, ← pow_add, hexp]
  rw [poly, poly, sum_range_add, sum_eq_zero hhigh, add_zero, mul_sum, mul_sum,
    sum_congr rfl hlow]

theorem generator_dvd_byte (hw : 8 ≤ w) (g c : BitVec w) (b : BitVec 8) :
    generator g ∣ poly (byte g c b) - (X ^ 8 * poly c + X ^ w * poly b) := by
  have hiter := generator_dvd_iterate g (c ^^^ b.setWidth w) 8
  rwa [poly_xor, mul_add, X_pow_mul_poly_setWidth hw] at hiter

/-- After a message the register holds its remainder. -/
theorem poly_foldl (hw : 8 ≤ w) (g c : BitVec w) (bs : List (BitVec 8)) :
    poly (bs.foldl (byte g) c) = remainder g c bs := by
  have hdvd : generator g ∣ poly (bs.foldl (byte g) c) -
      (X ^ (8 * bs.length) * poly c + X ^ w * message bs) := by
    induction bs generalizing c with
    | nil => simp [message]
    | cons b bs ih =>
      have hbyte := dvd_mul_of_dvd_right (generator_dvd_byte hw g c b) (X ^ (8 * bs.length))
      have hsum := dvd_add (ih (byte g c b)) hbyte
      rw [List.foldl_cons, message, List.length_cons]
      convert hsum using 1
      ring
  obtain ⟨q, hq⟩ := hdvd
  have hlt : (poly (bs.foldl (byte g) c)).degree < (generator g).degree := by
    rw [degree_generator]
    exact degree_poly_lt _
  refine ((div_modByMonic_unique (-q) _ (monic_generator g) ⟨?_, hlt⟩).2).symm
  rw [mul_neg, ← hq]
  ring

theorem coeff_poly (c : BitVec w) (j : Nat) :
    (poly c).coeff j = if j < w ∧ c.getLsbD (w - 1 - j) = true then 1 else 0 := by
  have hterm : ∀ k ∈ range w, (if c.getLsbD k then X ^ (w - 1 - k) else 0 : (ZMod 2)[X]).coeff j =
      if w - 1 - j = k then (if j < w ∧ c.getLsbD k = true then 1 else 0) else 0 := by
    intro k hk
    have hk := Finset.mem_range.mp hk
    split
    · rename_i hbit
      rw [coeff_X_pow]
      by_cases hj : j < w
      · have hiff : j = w - 1 - k ↔ w - 1 - j = k := by omega
        simp only [hbit, hj, and_self, if_true, hiff]
      · rw [if_neg (by omega), if_neg (not_and_of_not_left _ hj), ite_self]
    · rename_i hbit
      simp [hbit]
  rw [poly, finsetSum_coeff, sum_congr rfl hterm, sum_ite_eq]
  split
  · rfl
  · rename_i hrange
    have : ¬ j < w := fun hj => hrange (Finset.mem_range.mpr (by omega))
    simp [this]

/-- Bit `i` of a message in the order of transmission, the lowest bit of a byte first. -/
def bit (bs : List (BitVec 8)) (i : Nat) : Bool := (bs.getD (i / 8) 0).getLsbD (i % 8)

/-- The bits of a message are the coefficients of its polynomial, the first one highest. -/
theorem coeff_message (bs : List (BitVec 8)) (j : Nat) :
    (message bs).coeff j =
      if j < 8 * bs.length ∧ bit bs (8 * bs.length - 1 - j) = true then 1 else 0 := by
  induction bs with
  | nil => simp [message]
  | cons b bs ih =>
    rw [message, coeff_add, coeff_X_pow_mul', coeff_poly, ih, List.length_cons]
    by_cases hlow : j < 8 * bs.length
    · have hdiv : (8 * (bs.length + 1) - 1 - j) / 8 = (8 * bs.length - 1 - j) / 8 + 1 := by omega
      have hmod : (8 * (bs.length + 1) - 1 - j) % 8 = (8 * bs.length - 1 - j) % 8 := by omega
      have hj : j < 8 * (bs.length + 1) := by omega
      simp only [bit, hdiv, hmod, List.getD_cons_succ, if_neg (Nat.not_le.mpr hlow), zero_add,
        hlow, hj, true_and]
    · have hdiv : ∀ h : j < 8 * (bs.length + 1), (8 * (bs.length + 1) - 1 - j) / 8 = 0 := by omega
      have hmod : ∀ h : j < 8 * (bs.length + 1),
          (8 * (bs.length + 1) - 1 - j) % 8 = 8 - 1 - (j - 8 * bs.length) := by omega
      rw [if_pos (Nat.not_lt.mp hlow), if_neg fun h : j < 8 * bs.length ∧ _ => hlow h.1, add_zero]
      by_cases hj : j < 8 * (bs.length + 1)
      · have hsub : j - 8 * bs.length < 8 := by omega
        simp only [bit, hdiv hj, hmod hj, List.getD_cons_zero, hsub, hj, true_and]
      · rw [if_neg (by omega), if_neg (by omega)]

theorem eq_of_bit {as bs : List (BitVec 8)} (hlength : as.length = bs.length)
    (h : ∀ i < 8 * bs.length, bit as i = bit bs i) : as = bs := by
  refine List.ext_getElem hlength fun n has hbs => BitVec.eq_of_getLsbD_eq fun k hk => ?_
  have hbit := h (8 * n + k) (by omega)
  have hdiv : (8 * n + k) / 8 = n := by omega
  have hmod : (8 * n + k) % 8 = k := by omega
  rwa [bit, bit, hdiv, hmod, ← List.getElem_eq_getD, ← List.getElem_eq_getD] at hbit

/-- A message is determined by its length and its polynomial. -/
theorem message_injective {as bs : List (BitVec 8)} (hlength : as.length = bs.length)
    (h : message as = message bs) : as = bs := by
  refine eq_of_bit hlength fun i hi => ?_
  have hcoeff := congrArg (fun p => p.coeff (8 * bs.length - 1 - i)) h
  have hpos : 8 * bs.length - 1 - i < 8 * bs.length := by omega
  have hidx : 8 * bs.length - 1 - (8 * bs.length - 1 - i) = i := by omega
  simp only [coeff_message, hlength, hpos, hidx, true_and] at hcoeff
  cases has : bit as i <;> cases hbs : bit bs i <;> simp_all

/-- A generator with a constant term is prime to `X`. -/
theorem isCoprime_generator_X {g : BitVec w} (hg : g.getLsbD (w - 1) = true) :
    IsCoprime (generator g) X := by
  have hw : 0 < w := by
    rcases Nat.eq_zero_or_pos w with rfl | hw
    · simp at hg
    · exact hw
  have hcoeff : (generator g).coeff 0 = 1 := by
    rw [generator, coeff_add, coeff_X_pow, coeff_poly, if_neg (by omega), Nat.sub_zero,
      if_pos ⟨hw, hg⟩, zero_add]
  have hdiv := divX_mul_X_add (generator g)
  rw [hcoeff, C_1] at hdiv
  refine ⟨1, -divX (generator g), ?_⟩
  linear_combination -hdiv

/-- Two messages that differ within `w` consecutive bits leave different remainders. -/
theorem eq_of_remainder_eq {g c : BitVec w} (hg : g.getLsbD (w - 1) = true)
    {as bs : List (BitVec 8)} (hlength : as.length = bs.length) {k : Nat}
    (hburst : ∀ i < 8 * bs.length, i < k ∨ k + w ≤ i → bit as i = bit bs i)
    (h : remainder g c as = remainder g c bs) : as = bs := by
  have hcoprime := isCoprime_generator_X hg
  -- What the messages differ by is a multiple of the generator, and of the power of `X`
  -- below the burst.
  have hdvd : generator g ∣ message as - message bs := by
    have hmod : (X ^ w * (message as - message bs)) %ₘ generator g = 0 := by
      have hsub : X ^ w * (message as - message bs) =
          X ^ (8 * as.length) * poly c + X ^ w * message as -
            (X ^ (8 * bs.length) * poly c + X ^ w * message bs) := by
        rw [hlength]
        ring
      rw [hsub, sub_modByMonic]
      exact sub_eq_zero.mpr h
    exact (hcoprime.pow_right).dvd_of_dvd_mul_left
      ((modByMonic_eq_zero_iff_dvd (monic_generator g)).mp hmod)
  have hcoeff : ∀ j, j < 8 * bs.length - (k + w) ∨ 8 * bs.length - k ≤ j →
      (message as - message bs).coeff j = 0 := by
    intro j hj
    rw [coeff_sub, coeff_message, coeff_message, hlength, sub_eq_zero]
    by_cases hlt : j < 8 * bs.length
    · rw [hburst (8 * bs.length - 1 - j) (by omega) (by omega)]
    · rw [if_neg (fun h => hlt h.1), if_neg (fun h => hlt h.1)]
  obtain ⟨e, he⟩ := X_pow_dvd_iff.mpr fun j hj => hcoeff j (Or.inl hj)
  have hdegree : e.degree < w := by
    refine (degree_lt_iff_coeff_zero _ _).mpr fun j hj => ?_
    have := hcoeff (j + (8 * bs.length - (k + w))) (Or.inr (by omega))
    rwa [he, coeff_X_pow_mul] at this
  have hzero : e = 0 := by
    by_contra hne
    rw [he] at hdvd
    refine (monic_generator g).not_dvd_of_degree_lt hne ?_
      ((hcoprime.pow_right).dvd_of_dvd_mul_left hdvd)
    rwa [degree_generator]
  refine message_injective hlength (sub_eq_zero.mp ?_)
  rw [he, hzero, mul_zero]

end Crc
