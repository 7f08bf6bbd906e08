import Sylphia.Core.Bytes

/-!
# Strings that end with a zero

A string in a buffer goes up to the first zero. Copied behind one another, strings stay apart
as long as each ends before the next one begins.
-/

namespace Bytes

/-- The bytes from `off` on up to a zero, `n` at most. -/
def cstring (buf : Buffer) (off : Nat) : Nat → List Byte
  | 0 => []
  | n + 1 => if buf off = 0 then [] else buf off :: cstring buf (off + 1) n

/-- The buffer with a string and a zero at `off`. -/
def strcpy (buf : Buffer) (off : Nat) (s : List Byte) : Buffer := splice buf off (s ++ [0])

/-- A string and the zero behind it are at `off`. -/
structure StringAt (buf : Buffer) (off : Nat) (s : List Byte) : Prop where
  bytes : ∀ k (hk : k < s.length), buf (off + k) = s[k]
  ended : buf (off + s.length) = 0
  noZero : 0#8 ∉ s

section

variable {buf buf' : Buffer} {off n : Nat} {s t : List Byte}

theorem zero_not_mem_cstring (buf : Buffer) (off n : Nat) : 0#8 ∉ cstring buf off n := by
  induction n generalizing off with
  | zero => simp [cstring]
  | succ n ih =>
    rw [cstring]
    split
    · simp
    · next hne =>
      rw [List.mem_cons, not_or]
      exact ⟨fun h0 => hne h0.symm, ih (off + 1)⟩

theorem length_cstring_le (buf : Buffer) (off n : Nat) : (cstring buf off n).length ≤ n := by
  induction n generalizing off with
  | zero => exact Nat.le_refl _
  | succ n ih =>
    rw [cstring]
    split
    · exact Nat.zero_le _
    · exact Nat.succ_le_succ (ih (off + 1))

/-- A string goes on behind bytes that are not zero. -/
theorem cstring_append (hbytes : ∀ k (hk : k < s.length), buf (off + k) = s[k]) (hs : 0#8 ∉ s)
    (n : Nat) : cstring buf off (s.length + n) = s ++ cstring buf (off + s.length) n := by
  induction s generalizing off with
  | nil => simp
  | cons b bs ih =>
    rw [List.mem_cons, not_or] at hs
    have hb : buf off = b := hbytes 0 (by simp)
    rw [List.length_cons, show bs.length + 1 + n = bs.length + n + 1 from by omega, cstring, hb,
      if_neg fun h0 => hs.1 h0.symm, ih (fun k hk => ?_) hs.2, List.cons_append,
      show off + 1 + bs.length = off + (bs.length + 1) from by omega]
    have := hbytes (k + 1) (by simpa using hk)
    rw [List.getElem_cons_succ] at this
    rw [← this]
    congr 1
    omega

theorem StringAt.cstring_eq (h : StringAt buf off s) (hn : s.length ≤ n) :
    cstring buf off n = s := by
  obtain ⟨m, rfl⟩ : ∃ m, n = s.length + m := ⟨n - s.length, by omega⟩
  rw [cstring_append h.bytes h.noZero]
  cases m with
  | zero => exact List.append_nil s
  | succ m => rw [cstring, if_pos h.ended, List.append_nil]

/-- What is read before its bound is a string. -/
theorem stringAt_of_cstring (h : cstring buf off n = s) (hn : s.length < n) :
    StringAt buf off s := by
  induction n generalizing off s with
  | zero => exact absurd hn (Nat.not_lt_zero _)
  | succ n ih =>
    rw [cstring] at h
    split at h
    · next h0 =>
      subst h
      exact ⟨nofun, h0, by simp⟩
    · next hne =>
      subst h
      rw [List.length_cons, Nat.add_lt_add_iff_right] at hn
      obtain ⟨hbytes, hended, hno⟩ := ih rfl hn
      refine ⟨?_, ?_, ?_⟩
      · intro k hk
        cases k with
        | zero => rfl
        | succ k =>
          rw [List.getElem_cons_succ, ← hbytes k (by simpa using hk)]
          congr 1
          omega
      · rw [← hended, List.length_cons]
        congr 1
        omega
      · rw [List.mem_cons, not_or]
        exact ⟨fun h0 => hne h0.symm, hno⟩

theorem StringAt.congr (h : StringAt buf off s)
    (hsame : ∀ k ≤ s.length, buf' (off + k) = buf (off + k)) :
    StringAt buf' off s where
  bytes := fun k hk => (hsame k hk.le).trans (h.bytes k hk)
  ended := (hsame _ (Nat.le_refl _)).trans h.ended
  noZero := h.noZero

/-- A string behind the bytes of another is the end of both. -/
theorem StringAt.append (h : StringAt buf (off + t.length) s)
    (hbytes : ∀ k (hk : k < t.length), buf (off + k) = t[k]) (ht : 0#8 ∉ t) :
    StringAt buf off (t ++ s) where
  bytes := fun k hk => by
    rw [List.getElem_append]
    split
    · next hlt => exact hbytes k hlt
    · next hge =>
      rw [List.length_append] at hk
      rw [← h.bytes (k - t.length) (by omega)]
      congr 1
      omega
  ended := by
    rw [List.length_append, ← Nat.add_assoc]
    exact h.ended
  noZero := by
    rw [List.mem_append, not_or]
    exact ⟨ht, h.noZero⟩

/-- The end of a string is a string. -/
theorem StringAt.drop (h : StringAt buf off (t ++ s)) : StringAt buf (off + t.length) s where
  bytes := fun k hk => by
    have := h.bytes (t.length + k) (by rw [List.length_append]; omega)
    rw [List.getElem_append_right (Nat.le_add_right _ _), ← Nat.add_assoc] at this
    simpa only [Nat.add_sub_cancel_left] using this
  ended := by
    rw [Nat.add_assoc, ← List.length_append]
    exact h.ended
  noZero := fun h0 => h.noZero (List.mem_append_right t h0)

/-- With a zero behind it, the front of a string is a string. -/
theorem StringAt.front (h : StringAt buf off (s ++ t))
    (hsame : ∀ k < off + s.length, buf' k = buf k) (hend : buf' (off + s.length) = 0) :
    StringAt buf' off s where
  bytes := fun k hk => by
    rw [hsame _ (Nat.add_lt_add_left hk off), h.bytes k (by rw [List.length_append]; omega),
      List.getElem_append_left hk]
  ended := hend
  noZero := fun h0 => h.noZero (List.mem_append_left t h0)

theorem StringAt.tail {b : Byte} (h : StringAt buf off (b :: s)) : StringAt buf (off + 1) s :=
  StringAt.drop (t := [b]) h

theorem StringAt.ne_zero (h : StringAt buf off s) (hne : s ≠ []) : buf off ≠ 0 := by
  have hpos := List.length_pos_iff.mpr hne
  have hhead := h.bytes 0 hpos
  rw [Nat.add_zero] at hhead
  rw [hhead]
  intro h0
  have hmem := List.getElem_mem hpos
  rw [h0] at hmem
  exact h.noZero hmem

/-- At most one string is at a place. -/
theorem StringAt.unique (hs : StringAt buf off s) (ht : StringAt buf off t) : s = t := by
  rw [← hs.cstring_eq (Nat.le_max_left s.length t.length)]
  exact ht.cstring_eq (Nat.le_max_right s.length t.length)

theorem slice_push (buf : Buffer) (n : Nat) (b : Byte) :
    slice (splice buf n [b]) 0 (n + 1) = slice buf 0 n ++ [b] := by
  have hfront : slice (splice buf n [b]) 0 n = slice buf 0 n :=
    slice_splice_of_disjoint (.inl (Nat.zero_add n).le)
  have hlast : splice buf n [b] n = b := by
    rw [splice, if_pos (Nat.le_refl n), Nat.sub_self]
    rfl
  rw [slice_add, hfront]
  simp [slice, hlast]

/-- A zero behind characters makes them a string. -/
theorem stringAt_terminate (h : 0#8 ∉ slice buf 0 n) :
    StringAt (splice buf n [0]) 0 (slice buf 0 n) where
  bytes := fun k hk => by
    have hlt := hk
    rw [length_slice] at hlt
    rw [Nat.zero_add, splice_of_lt hlt]
    simp [slice]
  ended := by
    rw [length_slice, Nat.zero_add, splice, if_pos (Nat.le_refl n), Nat.sub_self]
    rfl
  noZero := h

theorem strcpy_of_lt {k : Nat} (h : k < off) : strcpy buf off s k = buf k := splice_of_lt h

theorem strcpy_of_gt {k : Nat} (h : off + s.length < k) : strcpy buf off s k = buf k :=
  splice_of_ge (by rw [List.length_append, List.length_singleton]; omega)

theorem stringAt_strcpy (buf : Buffer) (off : Nat) (hs : 0#8 ∉ s) :
    StringAt (strcpy buf off s) off s where
  bytes := fun k hk => by
    rw [strcpy, splice, if_pos (by omega), Nat.add_sub_cancel_left,
      List.getElem?_append_left hk, List.getElem?_eq_getElem hk, Option.getD_some]
  ended := by
    rw [strcpy, splice, if_pos (by omega), Nat.add_sub_cancel_left,
      List.getElem?_append_right (Nat.le_refl _), Nat.sub_self]
    rfl
  noZero := hs

end

end Bytes
