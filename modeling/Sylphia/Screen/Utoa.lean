import Sylphia.Core.Numeral
import Sylphia.Core.Terminated
import Sylphia.Core.WriteLog

/-!
# Numbers as text

`utoa` puts the digits of a number down from the least significant one on, and then turns them
around in place.
-/

namespace Sylphia.Screen

open Bytes WriteLog Logged Numeral

/-- `(remainder < 10) ? (remainder + '0') : (remainder - 10 + 'a')`. -/
def digitChar (remainder : Nat) : Byte :=
  BitVec.ofNat 8 (if remainder < 10 then remainder + 0x30 else remainder - 10 + 0x61)

/-- The loop that writes a digit for each turn, with fuel: the buffer and `ptr`. -/
def putDigits (base : Nat) : Nat → Nat → Logged Nat Byte → Nat → Logged Nat Byte × Nat
  | 0, _, str, ptr => (str, ptr)
  | fuel + 1, value, str, ptr =>
    let str := str.write ptr (digitChar (value % base))
    let value := value / base
    if value ≠ 0 then putDigits base fuel value str (ptr + 1) else (str, ptr + 1)

/-- The loop that turns the digits around, with fuel. -/
def swapEnds : Nat → Logged Nat Byte → Nat → Nat → Logged Nat Byte
  | 0, str, _, _ => str
  | fuel + 1, str, ptr1, ptr =>
    if ptr1 < ptr then
      let tmp := str.store ptr
      swapEnds fuel ((str.write ptr (str.store ptr1)).write ptr1 tmp) (ptr1 + 1) (ptr - 1)
    else str

/-- `utoa`. -/
def utoa (value : BitVec 64) (str : Logged Nat Byte) (base : Nat) : Logged Nat Byte :=
  let (str, ptr) := putDigits base 64 value.toNat str 0
  swapEnds ptr (str.write ptr 0) 0 (ptr - 1)

/-- The text of a number. -/
def numeral (base v : Nat) : List Byte := (digits base v).map digitChar

section

variable {base v fuel ptr ptr1 : Nat} {str : Logged Nat Byte}

theorem digitChar_ne_zero {d : Nat} (h : d < 36) : digitChar d ≠ 0 := by
  decide +revert

theorem slice_succ (buf : Buffer) (off n : Nat) :
    slice buf off (n + 1) = buf off :: slice buf (off + 1) n := by
  rw [slice, slice, List.range_succ_eq_map, List.map_cons, List.map_map, Nat.add_zero]
  congr 1
  refine List.map_congr_left fun k _ => congrArg buf ?_
  omega

/-- One after the other the digits are written, and nothing else. -/
theorem putDigits_run (hbase : 2 ≤ base) (hfuel : v < 2 ^ fuel) (hpos : 0 < fuel) :
    (putDigits base fuel v str ptr).2 = ptr + (lowDigits base v).length ∧
      slice (putDigits base fuel v str ptr).1.store ptr (lowDigits base v).length =
        (lowDigits base v).map digitChar ∧
      Logged.Within (fun k => ptr ≤ k ∧ k < ptr + (lowDigits base v).length) str
        (putDigits base fuel v str ptr).1 := by
  induction fuel generalizing v str ptr with
  | zero => exact absurd hpos (Nat.lt_irrefl 0)
  | succ fuel ih =>
    rw [putDigits]
    by_cases hlast : v < base
    · rw [if_neg (not_not_intro (Nat.div_eq_of_lt hlast)), lowDigits_of_lt hlast,
        Nat.mod_eq_of_lt hlast]
      refine ⟨rfl, ?_, within_write str _ ⟨Nat.le_refl ptr, Nat.lt_succ_self ptr⟩⟩
      rw [List.length_singleton, slice_succ, write_store_self]
      rfl
    · have hle : base ≤ v := Nat.le_of_not_lt hlast
      have hquot : 0 < v / base := Nat.div_pos hle (by omega)
      have hhalf : v / base ≤ v / 2 := Nat.div_le_div_left hbase (by decide)
      have hsmall : v / base < 2 ^ fuel := by
        rw [pow_succ] at hfuel
        omega
      have hfuel₁ : 0 < fuel := by
        rcases Nat.eq_zero_or_pos fuel with rfl | hpos₁
        · rw [pow_zero] at hsmall
          omega
        · exact hpos₁
      obtain ⟨hptr, hslice, hwithin⟩ :=
        @ih (v / base) (ptr + 1) (str.write ptr (digitChar (v % base))) hsmall hfuel₁
      rw [if_pos hquot.ne', lowDigits_of_le hbase hle, List.length_cons, List.map_cons]
      refine ⟨by rw [hptr]; omega, ?_, ?_⟩
      · rw [slice_succ, hslice, hwithin.store_eq (by omega), write_store_self]
      · refine (within_write str _ ?_).trans (hwithin.mono ?_)
        · omega
        · intro k hk
          omega

/-- What is between the ends is turned around. -/
theorem swapEnds_run (hfuel : ptr ≤ ptr1 + fuel) (k : Nat) :
    (swapEnds fuel str ptr1 ptr).store k =
      if ptr1 ≤ k ∧ k ≤ ptr then str.store (ptr1 + ptr - k) else str.store k := by
  induction fuel generalizing str ptr1 ptr with
  | zero =>
    rw [swapEnds]
    split
    · next hk => rw [show ptr1 + ptr - k = k from by omega]
    · rfl
  | succ fuel ih =>
    rw [swapEnds]
    split
    · next hlt =>
      rw [ih (by omega)]
      by_cases hinner : ptr1 + 1 ≤ k ∧ k ≤ ptr - 1
      · rw [if_pos hinner, if_pos (by omega), write_store_of_ne _ (by omega),
          write_store_of_ne _ (by omega),
          show ptr1 + 1 + (ptr - 1) - k = ptr1 + ptr - k from by omega]
      · rw [if_neg hinner]
        by_cases hleft : k = ptr1
        · subst hleft
          rw [write_store_self, if_pos (by omega), Nat.add_sub_cancel_left]
        · rw [write_store_of_ne _ hleft]
          by_cases hright : k = ptr
          · subst hright
            rw [write_store_self, if_pos (by omega), Nat.add_sub_cancel]
          · rw [write_store_of_ne _ hright, if_neg (by omega)]
    · next hge =>
      split
      · next hk => rw [show ptr1 + ptr - k = k from by omega]
      · rfl

theorem within_swapEnds (fuel : Nat) (str : Logged Nat Byte) (ptr1 ptr : Nat) :
    Logged.Within (· ≤ ptr) str (swapEnds fuel str ptr1 ptr) := by
  induction fuel generalizing str ptr1 ptr with
  | zero => exact Logged.Within.refl _ str
  | succ fuel ih =>
    rw [swapEnds]
    split
    · next hlt =>
      have hfirst : Logged.Within (fun k => k ≤ ptr) str (str.write ptr (str.store ptr1)) :=
        within_write str _ (Nat.le_refl ptr)
      have hsecond : Logged.Within (fun k => k ≤ ptr) (str.write ptr (str.store ptr1))
          ((str.write ptr (str.store ptr1)).write ptr1 (str.store ptr)) :=
        within_write _ _ hlt.le
      refine (hfirst.trans hsecond).trans ?_
      exact (ih _ _ _).mono fun k hk => hk.trans (Nat.sub_le ptr 1)
    · exact Logged.Within.refl _ str

theorem zero_not_mem_numeral (hbase : 2 ≤ base) (hmax : base ≤ 36) : 0#8 ∉ numeral base v := by
  intro hmem
  obtain ⟨d, hd, hzero⟩ := List.mem_map.mp hmem
  have hlt := lt_of_mem_lowDigits hbase (List.mem_reverse.mp hd)
  exact digitChar_ne_zero (hlt.trans_le hmax) hzero

/-- The text of the number is in the buffer, and a zero behind it. -/
theorem stringAt_utoa (hbase : 2 ≤ base) (hmax : base ≤ 36) (value : BitVec 64) :
    StringAt (utoa value str base).store 0 (numeral base value.toNat) := by
  obtain ⟨hptr, hslice, -⟩ :=
    @putDigits_run base value.toNat 64 0 str hbase value.isLt (by decide)
  rw [utoa]
  generalize putDigits base 64 value.toNat str 0 = written at hptr hslice ⊢
  obtain ⟨str₁, ptr⟩ := written
  dsimp only at hptr hslice ⊢
  rw [Nat.zero_add] at hptr
  subst hptr
  have hpos : 0 < (lowDigits base value.toNat).length := Nat.succ_pos _
  have hnumeral : numeral base value.toNat =
      ((lowDigits base value.toNat).map digitChar).reverse := List.map_reverse
  have hzero := @zero_not_mem_numeral base value.toNat hbase hmax
  rw [hnumeral] at hzero ⊢
  refine ⟨?_, ?_, hzero⟩
  · intro k hk
    rw [List.length_reverse, List.length_map] at hk
    rw [List.getElem_reverse, swapEnds_run (by omega), if_pos (by omega),
      write_store_of_ne _ (by omega)]
    simp only [← hslice, slice, List.getElem_map, List.getElem_range, List.length_map,
      List.length_range]
    congr 1
    omega
  · rw [List.length_reverse, List.length_map, swapEnds_run (by omega), if_neg (by omega),
      Nat.zero_add, write_store_self]

/-- In base 10 or more, `utoa` writes 21 bytes at most. -/
theorem within_utoa (hbase : 10 ≤ base) (value : BitVec 64) (str : Logged Nat Byte) :
    Logged.Within (· < 21) str (utoa value str base) := by
  obtain ⟨hptr, -, hwithin⟩ :=
    @putDigits_run base value.toNat 64 0 str (by omega) value.isLt (by decide)
  have hlen := length_lowDigits_le hbase value.isLt
  rw [utoa]
  generalize putDigits base 64 value.toNat str 0 = written at hptr hwithin ⊢
  obtain ⟨str₁, ptr⟩ := written
  dsimp only at hptr hwithin ⊢
  have hdigits : Logged.Within (· < 21) str str₁ := hwithin.mono fun k hk => by omega
  have hended : Logged.Within (· < 21) str₁ (str₁.write ptr 0) :=
    within_write str₁ 0 (show ptr < 21 by omega)
  have hswapped : Logged.Within (· < 21) (str₁.write ptr 0)
      (swapEnds ptr (str₁.write ptr 0) 0 (ptr - 1)) :=
    (within_swapEnds ptr _ 0 (ptr - 1)).mono fun k hk => by omega
  exact (hdigits.trans hended).trans hswapped

theorem length_numeral_le (hbase : 10 ≤ base) (hv : v < 2 ^ 64) : (numeral base v).length ≤ 20 := by
  rw [numeral, List.length_map, digits, List.length_reverse]
  exact length_lowDigits_le hbase hv

end

end Sylphia.Screen
