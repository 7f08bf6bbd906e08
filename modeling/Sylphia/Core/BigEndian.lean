import Sylphia.Core.Bytes

/-!
# Numbers with the most significant byte first

Command blocks keep their numbers in big-endian order. A field holds a number modulo the power
of 256 that its width gives.
-/

namespace Bytes

/-- The `n` lowest bytes of a number, the most significant of them first. -/
def toBE (n v : Nat) : List Byte := (toLE n v).reverse

/-- The number with these bytes, the most significant one first. -/
def ofBE (bytes : List Byte) : Nat := ofLE bytes.reverse

theorem ofBE_toBE (n v : Nat) : ofBE (toBE n v) = v % 256 ^ n := by
  rw [ofBE, toBE, List.reverse_reverse, ofLE_toLE]

/-- A field holds a number exactly when it is wide enough. -/
theorem ofBE_toBE_eq_iff {n v : Nat} : ofBE (toBE n v) = v ↔ v < 256 ^ n := by
  rw [ofBE_toBE]
  exact ⟨fun h => h ▸ Nat.mod_lt v (Nat.pow_pos (by decide)), Nat.mod_eq_of_lt⟩

theorem ofBE_lt (bytes : List Byte) : ofBE bytes < 256 ^ bytes.length := by
  rw [ofBE, ← List.length_reverse]
  exact ofLE_lt bytes.reverse

/-- A byte that is shifted down out of a word. -/
theorem byte_of_word {w : Nat} (x : BitVec w) (k : Nat) (hw : 8 ≤ w) :
    ((x >>> k) &&& 0xFF).setWidth 8 = BitVec.ofNat 8 (x.toNat / 2 ^ k) := by
  have hmask : (0xFF : BitVec w).toNat = 2 ^ 8 - 1 := by
    rw [show (0xFF : BitVec w) = BitVec.ofNat w 0xFF from rfl, BitVec.toNat_ofNat]
    exact Nat.mod_eq_of_lt (Nat.lt_of_lt_of_le (by decide) (Nat.pow_le_pow_right (by decide) hw))
  apply BitVec.eq_of_toNat_eq
  rw [BitVec.toNat_setWidth, BitVec.toNat_and, BitVec.toNat_ushiftRight, hmask,
    Nat.and_two_pow_sub_one_eq_mod, Nat.mod_mod, BitVec.toNat_ofNat, Nat.shiftRight_eq_div_pow]

private theorem or_shiftLeft {y : Nat} (x k : Nat) (hy : y < 256) :
    x <<< (k + 8) ||| y <<< k = (x * 256 + y) <<< k := by
  rw [Nat.add_comm k 8, Nat.shiftLeft_add, ← Nat.shiftLeft_or_distrib,
    ← Nat.shiftLeft_add_eq_or_of_lt (show y < 2 ^ 8 from hy), Nat.shiftLeft_eq x 8]

/-- Four bytes that are shifted up into a word. -/
theorem word_of_bytes (a b c d : Byte) :
    (a.setWidth 32 <<< 24 ||| b.setWidth 32 <<< 16 ||| c.setWidth 32 <<< 8 |||
      d.setWidth 32 : BitVec 32).toNat = ofBE [a, b, c, d] := by
  have ha := a.isLt
  have hb := b.isLt
  have hc := c.isLt
  have hd := d.isLt
  have hvalue : ofBE [a, b, c, d] =
      (((a.toNat * 256 + b.toNat) * 256 + c.toNat) * 256 + d.toNat) := by
    simp only [ofBE, ofLE, List.reverse_cons, List.reverse_nil, List.nil_append,
      List.cons_append]
    omega
  have hshift {x k : Nat} (hx : x < 256) (hk : k ≤ 24) : (x % 2 ^ 32) <<< k % 2 ^ 32 = x <<< k := by
    have hpow : 2 ^ k ≤ 2 ^ 24 := Nat.pow_le_pow_right (by decide) hk
    have hlt : x * 2 ^ k ≤ 255 * 2 ^ 24 := Nat.mul_le_mul (by omega) hpow
    rw [Nat.mod_eq_of_lt (show x < 2 ^ 32 by omega), Nat.shiftLeft_eq]
    exact Nat.mod_eq_of_lt (by omega)
  rw [hvalue]
  simp only [BitVec.toNat_or, BitVec.toNat_shiftLeft, BitVec.toNat_setWidth]
  rw [hshift ha (by decide), hshift hb (by decide), hshift hc (by decide),
    Nat.mod_eq_of_lt (show d.toNat < 2 ^ 32 by omega), or_shiftLeft _ 16 hb, or_shiftLeft _ 8 hc]
  exact or_shiftLeft _ 0 hd

end Bytes
