import Mathlib.Data.List.Basic
import Mathlib.Tactic.Ring

/-!
# Buffers of bytes

Parts of a buffer are read and written as lists of bytes, and numbers are kept in them
with the least significant byte first.
-/

namespace Bytes

abbrev Byte := BitVec 8

/-- A buffer gives a byte at every offset. -/
abbrev Buffer := Nat → Byte

/-- The `n` bytes from `off` on. -/
def slice (buf : Buffer) (off n : Nat) : List Byte := (List.range n).map fun k => buf (off + k)

/-- The buffer with the bytes from `off` on replaced. -/
def splice (buf : Buffer) (off : Nat) (bytes : List Byte) : Buffer := fun k =>
  if off ≤ k then (bytes[k - off]?).getD (buf k) else buf k

/-- The `n` lowest bytes of a number. -/
def toLE : Nat → Nat → List Byte
  | 0, _ => []
  | n + 1, v => BitVec.ofNat 8 v :: toLE n (v / 256)

/-- The number with these bytes. -/
def ofLE : List Byte → Nat
  | [] => 0
  | b :: bs => b.toNat + 256 * ofLE bs

variable {buf buf' : Buffer} {off n k v : Nat} {bytes : List Byte}

@[simp] theorem length_slice (buf : Buffer) (off n : Nat) : (slice buf off n).length = n := by
  simp [slice]

theorem getElem?_slice (buf : Buffer) (off n k : Nat) :
    (slice buf off n)[k]? = if k < n then some (buf (off + k)) else none := by
  by_cases hk : k < n
  · simp [slice, hk]
  · simp [slice, hk]

theorem slice_congr (h : ∀ k < n, buf' (off + k) = buf (off + k)) :
    slice buf' off n = slice buf off n := by
  refine List.map_congr_left fun k hk => h k ?_
  exact List.mem_range.mp hk

theorem slice_eq_iff : slice buf' 0 n = slice buf 0 n ↔ ∀ k < n, buf' k = buf k := by
  rw [slice, slice, List.map_inj_left]
  simp only [List.mem_range, Nat.zero_add]

theorem slice_add (buf : Buffer) (m n : Nat) :
    slice buf 0 (m + n) = slice buf 0 m ++ slice (fun k => buf (m + k)) 0 n := by
  rw [slice, slice, slice, List.range_add, List.map_append, List.map_map]
  congr 1
  refine List.map_congr_left fun k _ => ?_
  simp only [Function.comp_apply, Nat.zero_add]

theorem splice_of_lt (h : k < off) : splice buf off bytes k = buf k := if_neg (by omega)

theorem splice_of_ge (h : off + bytes.length ≤ k) : splice buf off bytes k = buf k := by
  rw [splice]
  split
  · rw [List.getElem?_eq_none (by omega), Option.getD_none]
  · rfl

/-- What is written is read back. -/
theorem slice_splice_self (buf : Buffer) (off : Nat) (bytes : List Byte) :
    slice (splice buf off bytes) off bytes.length = bytes := by
  refine List.ext_getElem? fun k => ?_
  rw [getElem?_slice]
  split
  · next hk =>
    rw [splice, if_pos (by omega), Nat.add_sub_cancel_left, List.getElem?_eq_getElem hk,
      Option.getD_some]
  · next hk => rw [List.getElem?_eq_none (by omega)]

/-- What lies before or behind the bytes written stays. -/
theorem slice_splice_of_disjoint {off' : Nat}
    (h : off' + n ≤ off ∨ off + bytes.length ≤ off') :
    slice (splice buf off bytes) off' n = slice buf off' n := by
  refine slice_congr fun k hk => ?_
  rcases h with h | h
  · exact splice_of_lt (by omega)
  · exact splice_of_ge (by omega)

@[simp] theorem length_toLE (n v : Nat) : (toLE n v).length = n := by
  induction n generalizing v with
  | zero => rfl
  | succ n ih => rw [toLE, List.length_cons, ih]

theorem ofLE_toLE (n v : Nat) : ofLE (toLE n v) = v % 256 ^ n := by
  induction n generalizing v with
  | zero => rw [toLE, ofLE, pow_zero, Nat.mod_one]
  | succ n ih =>
    have hsplit : v % 256 ^ (n + 1) = v % 256 + 256 * (v / 256 % 256 ^ n) := by
      rw [pow_succ', Nat.mod_mul]
    rw [toLE, ofLE, ih, BitVec.toNat_ofNat, hsplit]

theorem ofLE_lt (bytes : List Byte) : ofLE bytes < 256 ^ bytes.length := by
  induction bytes with
  | nil => exact Nat.one_pos
  | cons b bytes ih =>
    have hb := b.isLt
    rw [ofLE, List.length_cons, pow_succ']
    omega

end Bytes
