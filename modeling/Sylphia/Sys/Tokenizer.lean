import Mathlib.Data.List.Forall2
import Sylphia.Core.Terminated
import Sylphia.Core.Words

/-!
# Splitting a command line

Both shells split the line in place: spaces become zeros, and `argv` points at the words. A word
gets its end when the spaces behind it are passed over, which no longer happens once `argv` is full.
-/

namespace Sylphia.Shell

open Bytes Words

/-- The size of `argv`. -/
def maxArguments : Nat := 32

/-- `while (*p == ' ') *p++ = 0;`, with fuel. -/
def skipSpaces : Nat → Buffer → Nat → Option (Buffer × Nat)
  | 0, _, _ => none
  | fuel + 1, buf, p =>
    if buf p = 0x20 then skipSpaces fuel (splice buf p [0]) (p + 1) else some (buf, p)

/-- `while (*p && *p != ' ') p++;`, with fuel. -/
def skipWord : Nat → Buffer → Nat → Option Nat
  | 0, _, _ => none
  | fuel + 1, buf, p =>
    if buf p ≠ 0 ∧ buf p ≠ 0x20 then skipWord fuel buf (p + 1) else some p

/-- The loop of `ExecuteSingleCommand` and of `ExecuteCommand`: the buffer afterwards and `argv`,
whose length is `argc`. -/
def tokenize : Nat → Buffer → Nat → List Nat → Option (Buffer × List Nat)
  | 0, _, _, _ => none
  | fuel + 1, buf, p, argv =>
    if buf p = 0 then some (buf, argv)
    else
      match skipSpaces (fuel + 1) buf p with
      | none => none
      | some (buf, p) =>
        if buf p = 0 then some (buf, argv)
        else
          let argv := argv ++ [p]
          if argv.length ≥ maxArguments then some (buf, argv)
          else
            match skipWord (fuel + 1) buf p with
            | none => none
            | some p => tokenize fuel buf p argv

section

variable {buf buf' : Buffer} {p off fuel : Nat} {s t line : List Byte}

theorem splice_zero_self (buf : Buffer) (p : Nat) : splice buf p [0] p = 0 := by
  rw [splice, if_pos (Nat.le_refl p), Nat.sub_self]
  rfl

/-- Spaces in front become zeros. -/
theorem skipSpaces_run (hline : StringAt buf p line) (hfuel : line.length < fuel) :
    ∃ buf' q, skipSpaces fuel buf p = some (buf', q) ∧
      StringAt buf' q (line.dropWhile (· == 0x20)) ∧
      q + (line.dropWhile (· == 0x20)).length = p + line.length ∧
      (∀ k < p, buf' k = buf k) ∧ (line.head? = some 0x20 → buf' p = 0) := by
  induction fuel generalizing buf p line with
  | zero => exact absurd hfuel (Nat.not_lt_zero _)
  | succ fuel ih =>
    rw [skipSpaces]
    cases line with
    | nil =>
      have hended := hline.ended
      rw [List.length_nil, Nat.add_zero] at hended
      rw [if_neg (by rw [hended]; decide)]
      exact ⟨buf, p, rfl, hline, rfl, fun _ _ => rfl, fun h => absurd h (by simp)⟩
    | cons b line =>
      have hb : buf p = b := hline.bytes 0 (by simp)
      by_cases hspace : b = 0x20
      · subst hspace
        rw [if_pos hb, List.dropWhile_cons_of_pos (by simp)]
        have htail : StringAt (splice buf p [0]) (p + 1) line :=
          hline.tail.congr fun k _ => splice_of_ge (by simp)
        obtain ⟨buf', q, hrun, hat, hlen, hbelow, -⟩ := ih htail (by simpa using hfuel)
        refine ⟨buf', q, hrun, hat, by rw [hlen, List.length_cons]; omega, ?_, ?_⟩
        · intro k hk
          rw [hbelow k (by omega), splice_of_lt hk]
        · intro _
          rw [hbelow p (by omega), splice_zero_self]
      · rw [if_neg (by rw [hb]; exact hspace), List.dropWhile_cons_of_neg (by simpa using hspace)]
        exact ⟨buf, p, rfl, hline, rfl, fun _ _ => rfl, fun h => absurd (by simpa using h) hspace⟩

/-- A word goes up to a space or the end. -/
theorem skipWord_run (hline : StringAt buf p line) (hfuel : line.length < fuel) :
    skipWord fuel buf p = some (p + (line.takeWhile (· != 0x20)).length) := by
  induction fuel generalizing p line with
  | zero => exact absurd hfuel (Nat.not_lt_zero _)
  | succ fuel ih =>
    rw [skipWord]
    cases line with
    | nil =>
      have hended := hline.ended
      rw [List.length_nil, Nat.add_zero] at hended
      rw [if_neg (by rw [hended]; simp)]
      rfl
    | cons b line =>
      have hb : buf p = b := hline.bytes 0 (by simp)
      have hzero : b ≠ 0 := fun h0 => hline.noZero (by simp [h0])
      by_cases hspace : b = 0x20
      · rw [if_neg (by simp [hb, hspace]), List.takeWhile_cons_of_neg (by simp [hspace])]
        rfl
      · rw [if_pos ⟨hb ▸ hzero, hb ▸ hspace⟩, ih hline.tail (by simpa using hfuel),
          List.takeWhile_cons_of_pos (by simpa using hspace), List.length_cons]
        congr 1
        omega

/-- What the loop adds to `argv` are the words that fit, the last of them with all that follows
it if it is the last that fits. -/
theorem tokenize_run {argv : List Nat} (hline : StringAt buf p line) (hfuel : line.length < fuel)
    (hargv : argv.length < maxArguments) :
    ∃ buf' new, tokenize fuel buf p argv = some (buf', argv ++ new) ∧
      List.Forall₂ (StringAt buf') new (wordsUpTo 0x20 (maxArguments - argv.length) line) ∧
      (∀ k < p, buf' k = buf k) ∧ (line.head?.getD 0x20 = 0x20 → buf' p = 0) := by
  induction fuel generalizing buf p line argv with
  | zero => exact absurd hfuel (Nat.not_lt_zero _)
  | succ fuel ih =>
    obtain ⟨room, hroom⟩ : ∃ room, maxArguments - argv.length = room + 1 :=
      ⟨maxArguments - argv.length - 1, by omega⟩
    rw [tokenize, hroom, wordsUpTo]
    by_cases hempty : line = []
    · subst hempty
      have hended := hline.ended
      rw [List.length_nil, Nat.add_zero] at hended
      rw [if_pos hended]
      exact ⟨buf, [], by rw [List.append_nil], List.Forall₂.nil, fun _ _ => rfl, fun _ => hended⟩
    obtain ⟨buf₁, q, hskip, hat, hlen, hbelow, hzeroed⟩ := skipSpaces_run hline hfuel
    have hzero : line.head?.getD 0x20 = 0x20 → buf₁ p = 0 := by
      intro hhead
      apply hzeroed
      rw [List.head?_eq_some_head hempty] at hhead ⊢
      exact congrArg some hhead
    rw [if_neg (hline.ne_zero hempty), hskip]
    dsimp only
    have hle := List.length_dropWhile_le (· == 0x20) line
    have hfirst := @takeWhile_dropWhile_ne_nil _ _ 0x20 line
    generalize line.dropWhile (· == 0x20) = word at hat hlen hle hfirst ⊢
    by_cases hword : word = []
    · subst hword
      have hended := hat.ended
      rw [List.length_nil, Nat.add_zero] at hended
      rw [if_pos hended, if_pos rfl]
      exact ⟨buf₁, [], by rw [List.append_nil], List.Forall₂.nil, hbelow, hzero⟩
    rw [if_neg (hat.ne_zero hword), if_neg hword, List.length_append, List.length_singleton]
    by_cases hfull : room = 0
    · rw [if_pos (by omega), if_pos hfull]
      exact ⟨buf₁, [q], rfl, List.Forall₂.cons hat List.Forall₂.nil, hbelow, hzero⟩
    rw [if_neg (by omega), if_neg hfull, skipWord_run hat (by omega)]
    dsimp only
    have hsplit := @List.takeWhile_append_dropWhile _ (· != 0x20) word
    specialize hfirst hword
    have hnext := List.head?_dropWhile_not (· != 0x20) word
    generalize word.takeWhile (· != 0x20) = first at hsplit hfirst ⊢
    generalize word.dropWhile (· != 0x20) = rest at hsplit hnext ⊢
    subst hsplit
    have hpos := List.length_pos_iff.mpr hfirst
    rw [List.length_append] at hlen hle
    obtain ⟨buf₂, new, hrun, hnew, hbelow₂, hzero₂⟩ :=
      @ih buf₁ (q + first.length) rest (argv ++ [q]) hat.drop (by omega)
        (by rw [List.length_append, List.length_singleton]; omega)
    have hend : buf₂ (q + first.length) = 0 := by
      apply hzero₂
      cases rest with
      | nil => rfl
      | cons b rest => simpa using hnext
    have hat₂ : StringAt buf₂ q first := hat.front hbelow₂ hend
    refine ⟨buf₂, q :: new, ?_, ?_, ?_, ?_⟩
    · rw [hrun, List.append_assoc]
      rfl
    · rw [List.length_append, List.length_singleton, show maxArguments - (argv.length + 1) = room
        from by omega] at hnew
      exact List.Forall₂.cons hat₂ hnew
    · intro k hk
      rw [hbelow₂ k (by omega), hbelow k hk]
    · intro hhead
      rw [hbelow₂ p (by omega), hzero hhead]

/-- `argv` points at the first words of the line, at all of them if there is room. -/
def Splits (buf : Buffer) (argv : List Nat) (line : List Byte) : Prop :=
  argv.length = min maxArguments (words 0x20 line).length ∧
    List.Forall₂ (StringAt buf) argv ((words 0x20 line).take maxArguments)

theorem eq_of_forall₂_stringAt {argv : List Nat} {xs ys : List (List Byte)}
    (hx : List.Forall₂ (StringAt buf) argv xs) (hy : List.Forall₂ (StringAt buf) argv ys) :
    xs = ys := by
  induction hx generalizing ys with
  | nil => exact (List.forall₂_nil_left_iff.mp hy).symm
  | cons hat _ ih =>
    cases hy with
    | cons hat' hrest => rw [hat.unique hat', ih hrest]

theorem splits_iff_wordsUpTo {argv : List Nat}
    (h : List.Forall₂ (StringAt buf) argv (wordsUpTo 0x20 maxArguments line)) :
    Splits buf argv line ↔
      wordsUpTo 0x20 maxArguments line = (words 0x20 line).take maxArguments := by
  constructor
  · rintro ⟨-, hsplit⟩
    exact eq_of_forall₂_stringAt h hsplit
  · intro heq
    refine ⟨?_, heq ▸ h⟩
    rw [h.length_eq, length_wordsUpTo]

/-- `argc` and `argv` are right if there are fewer words than `argv` has room for, or just as
many and no space behind the last. -/
theorem tokenize_splits_iff (hline : StringAt buf p line) (hfuel : line.length < fuel) :
    (∃ buf' argv, tokenize fuel buf p [] = some (buf', argv) ∧ Splits buf' argv line) ↔
      (words 0x20 line).length < maxArguments ∨
        (words 0x20 line).length = maxArguments ∧ line.getLast? ≠ some 0x20 := by
  obtain ⟨buf', argv, hrun, hnew, -, -⟩ :=
    @tokenize_run _ _ _ _ [] hline hfuel (by decide)
  rw [List.nil_append] at hrun
  rw [List.length_nil, Nat.sub_zero] at hnew
  calc (∃ buf' argv, tokenize fuel buf p [] = some (buf', argv) ∧ Splits buf' argv line)
    _ ↔ Splits buf' argv line := by
      rw [hrun]
      constructor
      · rintro ⟨buf₁, argv₁, hsame, hsplit⟩
        cases hsame
        exact hsplit
      · exact fun hsplit => ⟨buf', argv, rfl, hsplit⟩
    _ ↔ wordsUpTo 0x20 maxArguments line = (words 0x20 line).take maxArguments :=
      splits_iff_wordsUpTo hnew
    _ ↔ _ := by
      rw [maxArguments, wordsUpTo_eq_take_iff, Nat.lt_succ_iff]

end

/-- Two words with spaces around them. -/
theorem tokenize_splits_iff_two :
    ∃ buf' argv,
      tokenize 9 (strcpy (fun _ => 1) 3 [0x20, 0x6c, 0x73, 0x20, 0x20, 0x2f, 0x20]) 3 [] =
        some (buf', argv) ∧ Splits buf' argv [0x20, 0x6c, 0x73, 0x20, 0x20, 0x2f, 0x20] :=
  (tokenize_splits_iff (stringAt_strcpy (fun _ => 1) 3 (by decide)) (by decide)).mpr
    (.inl (by decide))

/-- Words of one letter, as many as `argv` has room for, each with a space behind it. -/
def fullLine : List Byte := (List.replicate maxArguments [0x61, 0x20]).flatten

/-- The last of them keeps its space. -/
theorem tokenize_keeps_space : ¬ ∃ buf' argv,
    tokenize 65 (strcpy (fun _ => 0) 0 fullLine) 0 [] = some (buf', argv) ∧
      Splits buf' argv fullLine := by
  obtain ⟨buf', argv, hrun, hnew, -, -⟩ :=
    @tokenize_run _ 0 65 fullLine [] (stringAt_strcpy (fun _ => 0) 0 (by decide)) (by decide)
      (by decide)
  rw [List.nil_append] at hrun
  rw [List.length_nil, Nat.sub_zero] at hnew
  rintro ⟨buf₁, argv₁, hsame, hsplit⟩
  rw [hrun] at hsame
  cases hsame
  exact absurd ((splits_iff_wordsUpTo hnew).mp hsplit) (by decide +kernel)

end Sylphia.Shell
