import Sylphia.Core.Bytes

/-!
# Packed structures

A packed structure is a list of fields, each a number with its width in bytes, with nothing
between them. A field is read at the sum of the widths before it.
-/

namespace Packed

open Bytes

/-- A field: its width in bytes, and its value. -/
abbrev Field := Nat × Nat

/-- The bytes of a structure. -/
def bytes (fs : List Field) : List Byte := fs.flatMap fun f => toLE f.1 f.2

/-- `sizeof`. -/
def size (fs : List Field) : Nat := (fs.map Prod.fst).sum

/-- The offset of the `i`-th field. -/
def offset (fs : List Field) (i : Nat) : Nat := size (fs.take i)

/-- The buffer with these bytes. -/
def buffer (bs : List Byte) : Buffer := fun k => (bs[k]?).getD 0

/-- The number of `n` bytes at `off`. -/
def fieldAt (buf : Buffer) (off n : Nat) : Nat := ofLE (slice buf off n)

variable {fs : List Field} {bs : List Byte} {i off n w v : Nat}

theorem fieldAt_lt (buf : Buffer) (off n : Nat) : fieldAt buf off n < 256 ^ n := by
  have h := ofLE_lt (slice buf off n)
  rwa [length_slice] at h

@[simp] theorem bytes_append (fs gs : List Field) : bytes (fs ++ gs) = bytes fs ++ bytes gs :=
  List.flatMap_append

@[simp] theorem length_bytes (fs : List Field) : (bytes fs).length = size fs := by
  simp [bytes, size, List.length_flatMap]

theorem size_append (fs gs : List Field) : size (fs ++ gs) = size fs + size gs := by
  rw [size, size, size, List.map_append, List.sum_append]

theorem size_replicate (n : Nat) (f : Field) : size (List.replicate n f) = n * f.1 := by
  rw [size, List.map_replicate, List.sum_replicate_nat]

theorem offset_eq (fs : List Field) (i : Nat) : offset fs i = ((fs.map Prod.fst).take i).sum := by
  rw [offset, size, List.map_take]

theorem offset_append_left (h : i ≤ fs.length) (gs : List Field) :
    offset (fs ++ gs) i = offset fs i := by
  rw [offset, offset, List.take_append_of_le_length h]

/-- The offsets behind a part of a structure. -/
theorem offset_append (fs gs : List Field) (i : Nat) :
    offset (fs ++ gs) (fs.length + i) = size fs + offset gs i := by
  rw [offset, offset, List.take_length_add_append, size_append]

theorem slice_buffer (h : off + n ≤ bs.length) :
    slice (buffer bs) off n = (bs.drop off).take n := by
  refine List.ext_getElem? fun k => ?_
  rw [getElem?_slice, List.getElem?_take]
  split
  · rw [buffer, List.getElem?_drop, List.getElem?_eq_getElem (by omega), Option.getD_some]
  · rfl

theorem buffer_append (as bs : List Byte) (k : Nat) :
    buffer (as ++ bs) k = if k < as.length then buffer as k else buffer bs (k - as.length) := by
  rw [buffer, List.getElem?_append]
  split <;> rfl

/-- The bytes in the middle of a buffer, replaced. -/
theorem splice_append {as cs ds : List Byte} (h : ds.length = cs.length) :
    splice (buffer (as ++ (cs ++ bs))) as.length ds = buffer (as ++ (ds ++ bs)) := by
  funext k
  rw [splice, buffer_append, buffer_append, buffer_append, buffer_append]
  by_cases hlo : k < as.length
  · rw [if_neg (by omega), if_pos hlo, if_pos hlo]
  · rw [if_pos (by omega), if_neg hlo, if_neg hlo, h]
    by_cases hhi : k - as.length < cs.length
    · have hget : ds[k - as.length]? = some (ds.get ⟨k - as.length, by omega⟩) :=
        List.getElem?_eq_getElem (by omega)
      rw [if_pos hhi, if_pos hhi, buffer, buffer, hget, Option.getD_some, Option.getD_some]
    · rw [if_neg hhi, if_neg hhi, List.getElem?_eq_none (by omega), Option.getD_none]

/-- The fields around the `i`-th one, which begins where those before it end. -/
private theorem split_at (h : fs[i]? = some (w, v)) :
    ∃ gs hs, (∀ v', fs.set i (w, v') = gs ++ (w, v') :: hs) ∧ fs = gs ++ (w, v) :: hs ∧
      offset fs i = (bytes gs).length := by
  obtain ⟨hi, hget⟩ := List.getElem?_eq_some_iff.mp h
  have hset (v' : Nat) : fs.set i (w, v') = fs.take i ++ (w, v') :: fs.drop (i + 1) := by
    rw [List.set_eq_take_append_cons_drop, if_pos hi]
  refine ⟨fs.take i, fs.drop (i + 1), hset, ?_, (length_bytes _).symm⟩
  rw [← hset, ← hget, List.set_getElem_self]

private theorem bytes_split (gs hs : List Field) (w v : Nat) :
    bytes (gs ++ (w, v) :: hs) = bytes gs ++ (toLE w v ++ bytes hs) := by
  rw [bytes_append]
  rfl

/-- A field reads as its value, cut to its width. -/
theorem fieldAt_buffer (h : fs[i]? = some (w, v)) (hoff : offset fs i = off) :
    fieldAt (buffer (bytes fs)) off w = v % 256 ^ w := by
  obtain ⟨gs, hs, -, hfs, hlen⟩ := split_at h
  rw [hoff] at hlen
  have htake : (toLE w v ++ bytes hs).take w = toLE w v := by
    rw [List.take_append_of_le_length (by rw [length_toLE]),
      List.take_of_length_le (by rw [length_toLE])]
  have hfit : off + w ≤ (bytes fs).length := by
    rw [hfs, bytes_split, List.length_append, List.length_append, length_toLE, ← hlen]
    omega
  rw [fieldAt, slice_buffer hfit, hfs, bytes_split, hlen, List.drop_left, htake, ofLE_toLE]

/-- A field behind a part of a structure. -/
theorem fieldAt_buffer_append {gs : List Field} (h : gs[i]? = some (w, v))
    (hoff : size fs + offset gs i = off) :
    fieldAt (buffer (bytes (fs ++ gs))) off w = v % 256 ^ w := by
  refine fieldAt_buffer (i := fs.length + i) ?_ ((offset_append fs gs i).trans hoff)
  rw [List.getElem?_append_right (Nat.le_add_right _ _), Nat.add_sub_cancel_left]
  exact h

/-- Writing a field changes that field. -/
theorem splice_buffer (h : fs[i]? = some (w, v)) (hoff : offset fs i = off) (v' : Nat) :
    splice (buffer (bytes fs)) off (toLE w v') = buffer (bytes (fs.set i (w, v'))) := by
  obtain ⟨gs, hs, hset, hfs, hlen⟩ := split_at h
  rw [hoff] at hlen
  rw [hset, hfs, bytes_split, bytes_split, hlen]
  refine splice_append ?_
  rw [length_toLE, length_toLE]

end Packed
