import Mathlib.Data.List.Basic
import Mathlib.Data.List.TakeWhile

/-!
# Words between separators

The words of a list are its maximal runs without the separator. A splitter with room for so many
words may find the room full in front of the last of them, and then leaves all that follows to it.
-/

namespace Words

variable {α : Type*} [DecidableEq α] (sep : α)

/-- The maximal runs of elements other than the separator. -/
def words (l : List α) : List (List α) := (l.splitOn sep).filter fun w => !w.isEmpty

/-- As many words as there is room for; the last that has room goes on to the end of the list. -/
def wordsUpTo : Nat → List α → List (List α)
  | 0, _ => []
  | room + 1, l =>
    let word := l.dropWhile (· == sep)
    if word = [] then []
    else if room = 0 then [word]
    else word.takeWhile (· != sep) :: wordsUpTo room (word.dropWhile (· != sep))

variable {sep} {l w : List α}

theorem words_nil : words sep [] = [] := by
  rw [words, List.splitOn_nil]
  rfl

theorem words_sep (l : List α) : words sep (sep :: l) = words sep l := by
  have hsplit : (sep :: l).splitOn sep = [] :: l.splitOn sep :=
    List.splitOn_append_cons_self_of_not_mem List.not_mem_nil l
  rw [words, hsplit, List.filter_cons]
  simp [words]

theorem words_whole (hne : w ≠ []) (hw : sep ∉ w) : words sep w = [w] := by
  rw [words, List.splitOn_eq_singleton hw]
  simp [hne]

theorem words_append (hne : w ≠ []) (hw : sep ∉ w) (l : List α) :
    words sep (w ++ sep :: l) = w :: words sep l := by
  rw [words, List.splitOn_append_cons_self_of_not_mem hw, List.filter_cons]
  simp [hne, words]

/-- Separators in front do not matter. -/
theorem words_dropWhile (l : List α) : words sep (l.dropWhile (· == sep)) = words sep l := by
  induction l with
  | nil => rfl
  | cons a l ih =>
    by_cases ha : a = sep
    · subst ha
      rw [List.dropWhile_cons_of_pos (by simp), ih, words_sep]
    · rw [List.dropWhile_cons_of_neg (by simpa using ha)]

/-- What starts with a word. -/
theorem words_cons_word (h : l.takeWhile (· != sep) ≠ []) :
    words sep l = l.takeWhile (· != sep) :: words sep (l.dropWhile (· != sep)) := by
  have hnot : sep ∉ l.takeWhile (· != sep) := fun hmem => by
    simpa using List.mem_takeWhile_imp hmem
  have hsplit := @List.takeWhile_append_dropWhile _ (· != sep) l
  cases hrest : l.dropWhile (· != sep) with
  | nil =>
    rw [hrest, List.append_nil] at hsplit
    rw [words_nil]
    exact (congrArg (words sep) hsplit).symm.trans (words_whole h hnot)
  | cons a rest =>
    have ha : a = sep := by
      have hhead := List.head?_dropWhile_not (· != sep) l
      rw [hrest] at hhead
      simpa using hhead
    subst ha
    rw [hrest] at hsplit
    rw [words_sep]
    exact (congrArg (words a) hsplit).symm.trans (words_append h hnot rest)

/-- Behind the separators a word begins. -/
theorem takeWhile_dropWhile_ne_nil (hne : l.dropWhile (· == sep) ≠ []) :
    (l.dropWhile (· == sep)).takeWhile (· != sep) ≠ [] := by
  cases hword : l.dropWhile (· == sep) with
  | nil => exact absurd hword hne
  | cons b word =>
    have hhead := List.head?_dropWhile_not (· == sep) l
    rw [hword] at hhead
    rw [List.takeWhile_cons_of_pos (by simpa using hhead)]
    exact List.cons_ne_nil _ _

theorem words_of_dropWhile_ne_nil (hne : l.dropWhile (· == sep) ≠ []) :
    words sep l = (l.dropWhile (· == sep)).takeWhile (· != sep) ::
      words sep ((l.dropWhile (· == sep)).dropWhile (· != sep)) := by
  rw [← words_dropWhile]
  exact words_cons_word (takeWhile_dropWhile_ne_nil hne)

/-- A list without words has nothing but separators. -/
theorem eq_sep_of_words_eq_nil (h : words sep l = []) {a : α} (ha : a ∈ l) : a = sep := by
  by_cases hne : l.dropWhile (· == sep) = []
  · simpa using List.dropWhile_eq_nil_iff.mp hne a ha
  · rw [words_of_dropWhile_ne_nil hne] at h
    exact absurd h (List.cons_ne_nil _ _)

omit [DecidableEq α] in
theorem getLast?_suffix (h : w <:+ l) (hne : w ≠ []) : l.getLast? = w.getLast? := by
  obtain ⟨front, rfl⟩ := h
  rw [List.getLast?_append, List.getLast?_eq_some_getLast hne]
  rfl

/-- There are as many words as fit. -/
theorem length_wordsUpTo (room : Nat) (l : List α) :
    (wordsUpTo sep room l).length = min room (words sep l).length := by
  induction room generalizing l with
  | zero => rw [wordsUpTo, List.length_nil, Nat.zero_min]
  | succ room ih =>
    rw [wordsUpTo]
    split
    · next hnil => rw [← words_dropWhile, hnil, words_nil, List.length_nil, Nat.min_zero]
    · next hne =>
      rw [words_of_dropWhile_ne_nil hne, List.length_cons]
      split
      · next hroom =>
        subst hroom
        rw [List.length_singleton]
        omega
      · rw [List.length_cons, ih]
        omega

/-- A word is a part of the list. -/
theorem isInfix_of_mem_wordsUpTo {room : Nat} (h : w ∈ wordsUpTo sep room l) : w <:+: l := by
  induction room generalizing l with
  | zero => cases h
  | succ room ih =>
    have hword := (List.dropWhile_suffix (· == sep) (l := l)).isInfix
    rw [wordsUpTo] at h
    generalize l.dropWhile (· == sep) = word at h hword
    split_ifs at h
    · cases h
    · rw [List.mem_singleton] at h
      rwa [h]
    · rcases List.mem_cons.mp h with rfl | h
      · exact (List.takeWhile_prefix _).isInfix.trans hword
      · exact ((ih h).trans (List.dropWhile_suffix _).isInfix).trans hword

/-- The first of the words is whole if there is room for two. -/
theorem head?_wordsUpTo (room : Nat) (l : List α) :
    (wordsUpTo sep (room + 2) l).head? = (words sep l).head? := by
  rw [wordsUpTo]
  split
  · next hnil => rw [← words_dropWhile, hnil, words_nil]
  · next hne => rw [if_neg (Nat.succ_ne_zero room), words_of_dropWhile_ne_nil hne]; rfl

/-- The last word with room is whole and alone if nothing follows it. -/
private theorem wordsUpTo_one_iff (hne : l.dropWhile (· == sep) ≠ []) :
    wordsUpTo sep 1 l = (words sep l).take 1 ↔
      (words sep l).length = 1 ∧ l.getLast? ≠ some sep := by
  have hsplit := @List.takeWhile_append_dropWhile _ (· != sep) (l.dropWhile (· == sep))
  rw [wordsUpTo, if_neg hne, if_pos rfl, words_of_dropWhile_ne_nil hne, List.take_succ_cons,
    List.take_zero, List.length_cons, List.singleton_inj]
  generalize hrest : (l.dropWhile (· == sep)).dropWhile (· != sep) = rest at hsplit ⊢
  constructor
  · intro hwhole
    have hnil : rest = [] := by
      rw [← hwhole] at hsplit
      exact List.append_right_eq_self.mp hsplit
    refine ⟨by rw [hnil, words_nil, List.length_nil], fun hlast => ?_⟩
    rw [getLast?_suffix (List.dropWhile_suffix _) hne] at hlast
    have hmem := List.mem_of_getLast? hlast
    rw [hwhole] at hmem
    simpa using List.mem_takeWhile_imp hmem
  · rintro ⟨hlen, hlast⟩
    have hnone : words sep rest = [] := List.length_eq_zero_iff.mp (by omega)
    have hnil : rest = [] := by
      by_contra hsome
      have hsuffix : rest <:+ l :=
        (hrest ▸ List.dropWhile_suffix _).trans (List.dropWhile_suffix _)
      apply hlast
      rw [getLast?_suffix hsuffix hsome, List.getLast?_eq_some_getLast hsome,
        eq_sep_of_words_eq_nil hnone (List.getLast_mem hsome)]
    rw [hnil, List.append_nil] at hsplit
    exact hsplit.symm

/-- The words come out right if there is room for one more, or if there is room for just these
and no separator follows the last. -/
theorem wordsUpTo_eq_take_iff (room : Nat) (l : List α) :
    wordsUpTo sep (room + 1) l = (words sep l).take (room + 1) ↔
      (words sep l).length ≤ room ∨
        (words sep l).length = room + 1 ∧ l.getLast? ≠ some sep := by
  induction room generalizing l with
  | zero =>
    by_cases hne : l.dropWhile (· == sep) = []
    · rw [wordsUpTo, if_pos hne, ← words_dropWhile, hne, words_nil]
      simp
    · rw [Nat.zero_add, wordsUpTo_one_iff hne, words_of_dropWhile_ne_nil hne, List.length_cons]
      simp
  | succ room ih =>
    by_cases hne : l.dropWhile (· == sep) = []
    · rw [wordsUpTo, if_pos hne, ← words_dropWhile, hne, words_nil]
      simp
    · rw [wordsUpTo, if_neg hne, if_neg (Nat.succ_ne_zero room), words_of_dropWhile_ne_nil hne,
        List.take_succ_cons, List.cons_inj_right, ih, List.length_cons, Nat.add_le_add_iff_right,
        Nat.add_right_cancel_iff]
      generalize hrest : (l.dropWhile (· == sep)).dropWhile (· != sep) = rest
      have hsuffix : rest <:+ l :=
        (hrest ▸ List.dropWhile_suffix _).trans (List.dropWhile_suffix _)
      refine or_congr_right (and_congr_right fun hlen => ?_)
      rw [getLast?_suffix hsuffix]
      rintro rfl
      rw [words_nil] at hlen
      exact absurd hlen.symm (Nat.succ_ne_zero room)

end Words
