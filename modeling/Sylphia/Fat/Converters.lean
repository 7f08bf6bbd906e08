import Sylphia.Fat.EnsureDirectory

/-!
# The two conversions of a name

`IsNameEqual` and `To83Format` each convert a name with loops of their own. They stop in
different places and have the same result, except for the names that `IsNameEqual` takes for
names in the 8.3 format already.
-/

namespace Sylphia

open Bytes

namespace Loops

/-- The loop of `IsNameEqual` over the base: the rest of the name, and `converted`. -/
def convertBase : List Byte → Nat → List Byte → List Byte × List Byte
  | [], _, converted => ([], converted)
  | c :: cs, j, converted =>
    if c = 0x2E#8 then (c :: cs, converted)
    else if j < 8 then convertBase cs (j + 1) (converted.set j (toUpper c))
    else convertBase cs j converted

/-- The loop of `IsNameEqual` over the extension. -/
def convertExtension : List Byte → Nat → List Byte → List Byte
  | [], _, converted => converted
  | c :: cs, j, converted =>
    if j < 11 then convertExtension cs (j + 1) (converted.set j (toUpper c))
    else convertExtension cs j converted

/-- `converted` of `IsNameEqual`. -/
def converted (target : List Byte) : List Byte :=
  if target.length = 11 ∧ target.any (· = 0x2E#8) = false then target.map toUpper
  else
    let (rest, converted) := convertBase target 0 (List.replicate 11 0x20#8)
    if rest.head? = some 0x2E#8 then convertExtension (rest.drop 1) 8 converted else converted

/-- `IsNameEqual`. -/
def isNameEqual (entryName target : List Byte) : Bool := entryName == converted target

/-- The first loop of `To83Format`: the rest of the name, and `dst`. -/
def formatBase : List Byte → Nat → List Byte → List Byte × List Byte
  | [], _, dst => ([], dst)
  | c :: cs, i, dst =>
    if c ≠ 0x2E#8 ∧ i < 8 then formatBase cs (i + 1) (dst.set i (toUpper c)) else (c :: cs, dst)

/-- The last loop of `To83Format`, which ends when `dst` is full. -/
def formatExtension : List Byte → Nat → List Byte → List Byte
  | [], _, dst => dst
  | c :: cs, i, dst =>
    if i < 11 then formatExtension cs (i + 1) (dst.set i (toUpper c)) else dst

/-- `To83Format`. -/
def to83Format (src : List Byte) : List Byte :=
  let (rest, dst) := formatBase src 0 (List.replicate 11 0x20#8)
  let rest := rest.dropWhile (· ≠ 0x2E#8)
  if rest.head? = some 0x2E#8 then formatExtension (rest.drop 1) 8 dst else dst

end Loops

section Loops

variable {pre ext cs : List Byte} {c : Byte} {j n : Nat}

/-- A character goes into the first blank. -/
theorem set_blank (hj : pre.length = j) :
    (pre ++ List.replicate (n + 1) 0x20#8 ++ ext).set j c =
      (pre ++ [c]) ++ List.replicate n 0x20#8 ++ ext := by
  subst hj
  simp [List.replicate_succ]

theorem padTo_cons (n : Nat) (c : Byte) (cs : List Byte) :
    padTo (n + 1) (c :: cs) = c :: padTo n cs := by
  rw [padTo, padTo, List.length_cons, Nat.add_sub_add_right, List.cons_append]

theorem padTo_nil (n : Nat) : padTo n [] = List.replicate n 0x20#8 := rfl

theorem convertBase_eq (cs : List Byte) (hj : pre.length + n = 8) (hpre : pre.length = j) :
    Loops.convertBase cs j (pre ++ List.replicate n 0x20#8 ++ ext) =
      (cs.dropWhile (· ≠ 0x2E#8),
        pre ++ padTo n (((cs.takeWhile (· ≠ 0x2E#8)).take n).map toUpper) ++ ext) := by
  induction cs generalizing pre n j with
  | nil => simp [Loops.convertBase, padTo_nil]
  | cons c cs ih =>
    rw [Loops.convertBase]
    by_cases hdot : c = 0x2E#8
    · simp [hdot, padTo_nil]
    · rw [if_neg hdot, List.dropWhile_cons_of_pos (by simpa using hdot),
        List.takeWhile_cons_of_pos (by simpa using hdot)]
      cases n with
      | zero =>
        rw [if_neg (by omega), ih hj hpre, List.take_zero, List.take_zero]
      | succ n =>
        rw [if_pos (by omega), set_blank hpre,
          ih (by rw [List.length_append, List.length_singleton]; omega)
            (by rw [List.length_append, List.length_singleton, hpre]),
          List.take_succ_cons, List.map_cons, padTo_cons]
        simp

theorem formatBase_eq (cs : List Byte) (hj : pre.length + n = 8) (hpre : pre.length = j) :
    ((Loops.formatBase cs j (pre ++ List.replicate n 0x20#8 ++ ext)).1.dropWhile (· ≠ 0x2E#8),
      (Loops.formatBase cs j (pre ++ List.replicate n 0x20#8 ++ ext)).2) =
      (cs.dropWhile (· ≠ 0x2E#8),
        pre ++ padTo n (((cs.takeWhile (· ≠ 0x2E#8)).take n).map toUpper) ++ ext) := by
  induction cs generalizing pre n j with
  | nil => simp [Loops.formatBase, padTo_nil]
  | cons c cs ih =>
    rw [Loops.formatBase]
    by_cases hdot : c = 0x2E#8
    · simp [hdot, padTo_nil]
    · cases n with
      | zero =>
        -- The loop ends, and the next one skips the rest of the base.
        rw [if_neg (by omega)]
        simp [padTo_nil]
      | succ n =>
        rw [if_pos ⟨hdot, by omega⟩, set_blank hpre,
          ih (by rw [List.length_append, List.length_singleton]; omega)
            (by rw [List.length_append, List.length_singleton, hpre]),
          List.dropWhile_cons_of_pos (by simpa using hdot),
          List.takeWhile_cons_of_pos (by simpa using hdot), List.take_succ_cons, List.map_cons,
          padTo_cons]
        simp

theorem convertExtension_eq (cs : List Byte) (hj : pre.length + n = 11) (hpre : pre.length = j) :
    Loops.convertExtension cs j (pre ++ List.replicate n 0x20#8) =
      pre ++ padTo n ((cs.take n).map toUpper) := by
  induction cs generalizing pre n j with
  | nil => rw [Loops.convertExtension, List.take_nil, List.map_nil, padTo_nil]
  | cons c cs ih =>
    rw [Loops.convertExtension]
    cases n with
    | zero => rw [if_neg (by omega), ih hj hpre, List.take_zero, List.take_zero]
    | succ n =>
      have hset := @set_blank pre [] (toUpper c) j n hpre
      rw [List.append_nil, List.append_nil] at hset
      rw [if_pos (by omega), hset,
        ih (by rw [List.length_append, List.length_singleton]; omega)
          (by rw [List.length_append, List.length_singleton, hpre]),
        List.take_succ_cons, List.map_cons, padTo_cons, List.append_assoc, List.singleton_append]

/-- As long as there is room, both loops over the extension do the same. -/
theorem formatExtension_eq (cs : List Byte) (j : Nat) (dst : List Byte) :
    Loops.formatExtension cs j dst = Loops.convertExtension cs j dst := by
  induction cs generalizing j dst with
  | nil => rfl
  | cons c cs ih =>
    rw [Loops.formatExtension, Loops.convertExtension]
    by_cases hj : j < 11
    · rw [if_pos hj, if_pos hj, ih]
    · rw [if_neg hj, if_neg hj]
      clear ih
      induction cs with
      | nil => rfl
      | cons d ds ih => rw [Loops.convertExtension, if_neg hj, ← ih]

end Loops

theorem rest_cases (s : List Byte) :
    s.dropWhile (· ≠ 0x2E#8) = [] ∨ ∃ ext, s.dropWhile (· ≠ 0x2E#8) = 0x2E#8 :: ext := by
  induction s with
  | nil => exact Or.inl rfl
  | cons c cs ih =>
    by_cases hc : c = 0x2E#8
    · exact Or.inr ⟨cs, by rw [List.dropWhile_cons_of_neg (by simpa using hc), hc]⟩
    · rw [List.dropWhile_cons_of_pos (by simpa using hc)]
      exact ih

/-- What both do with the extension. -/
theorem extension_eq (s base : List Byte) (hbase : base.length = 8) :
    (if (s.dropWhile (· ≠ 0x2E#8)).head? = some 0x2E#8 then
      Loops.convertExtension ((s.dropWhile (· ≠ 0x2E#8)).drop 1) 8
        (base ++ List.replicate 3 0x20#8)
    else base ++ List.replicate 3 0x20#8) =
      base ++ padTo 3 ((((s.dropWhile (· ≠ 0x2E#8)).drop 1).take 3).map toUpper) := by
  rcases rest_cases s with hrest | ⟨ext, hrest⟩
  · rw [hrest, if_neg (by simp), List.drop_nil, List.take_nil, List.map_nil, padTo_nil]
  · rw [hrest, if_pos List.head?_cons, List.drop_one, List.tail_cons,
      convertExtension_eq ext (by omega) hbase]

theorem length_padTo {n : Nat} {cs : List Byte} (h : cs.length ≤ n) : (padTo n cs).length = n := by
  rw [padTo, List.length_append, List.length_replicate]
  omega

theorem length_base (s : List Byte) :
    (padTo 8 (((s.takeWhile (· ≠ 0x2E#8)).take 8).map toUpper)).length = 8 := by
  refine length_padTo ?_
  rw [List.length_map]
  exact List.length_take_le _ _

/-- The loops of `IsNameEqual`. -/
theorem converted_eq (target : List Byte) : Loops.converted target = convertName target := by
  have hdot : target.any (· = 0x2E#8) = false ↔ 0x2E#8 ∉ target := by
    rw [List.any_eq_false]
    exact ⟨fun h hmem => h _ hmem (decide_eq_true rfl),
      fun h c hc heq => h (of_decide_eq_true heq ▸ hc)⟩
  rw [Loops.converted, convertName]
  by_cases hplain : target.length = 11 ∧ 0x2E#8 ∉ target
  · rw [if_pos hplain, if_pos ⟨hplain.1, hdot.mpr hplain.2⟩]
  · rw [if_neg hplain, if_neg fun h => hplain ⟨h.1, hdot.mp h.2⟩]
    have hloop := @convertBase_eq [] (List.replicate 3 0x20#8) 0 8 target rfl rfl
    rw [List.nil_append, List.nil_append, ← List.replicate_add] at hloop
    rw [hloop]
    exact extension_eq target _ (length_base target)

/-- The loops of `To83Format`. -/
theorem to83Format_eq (src : List Byte) : Loops.to83Format src = to83Format src := by
  have hloop := @formatBase_eq [] (List.replicate 3 0x20#8) 0 8 src rfl rfl
  rw [List.nil_append, List.nil_append, ← List.replicate_add, Prod.mk.injEq] at hloop
  rw [Loops.to83Format, to83Format]
  dsimp only
  rw [hloop.1, hloop.2, formatExtension_eq]
  exact extension_eq src _ (length_base src)

/-- Eleven characters without a dot, the last three not all blank. -/
def ElevenPlain (s : List Byte) : Prop :=
  s.length = 11 ∧ 0x2E#8 ∉ s ∧ s.drop 8 ≠ List.replicate 3 0x20#8

instance (s : List Byte) : Decidable (ElevenPlain s) := inferInstanceAs (Decidable (_ ∧ _ ∧ _))

theorem toUpper_eq_blank (c : Byte) : toUpper c = 0x20#8 ↔ c = 0x20#8 := by
  revert c
  decide

theorem map_toUpper_eq_blanks (cs : List Byte) (n : Nat) :
    cs.map toUpper = List.replicate n 0x20#8 ↔ cs = List.replicate n 0x20#8 := by
  rw [List.eq_replicate_iff, List.eq_replicate_iff, List.length_map, List.forall_mem_map]
  simp only [toUpper_eq_blank]

/-- The two conversions of a name without a dot that is eleven characters long. -/
theorem convertName_eq_iff (s : List Byte) : convertName s = to83Format s ↔ ¬ElevenPlain s := by
  by_cases heleven : s.length = 11 ∧ 0x2E#8 ∉ s
  · obtain ⟨hlen, hdot⟩ := heleven
    have hall : ∀ c ∈ s, decide (c ≠ 0x2E#8) = true := by
      rintro c hc
      rw [decide_eq_true_iff]
      rintro rfl
      exact hdot hc
    have hbase : padTo 8 ((s.take 8).map toUpper) = (s.take 8).map toUpper := by
      rw [padTo, List.length_map, List.length_take, hlen]
      exact List.append_nil _
    rw [convertName, if_pos ⟨hlen, hdot⟩, to83Format, List.takeWhile_eq_self_iff.mpr hall,
      List.dropWhile_eq_nil_iff.mpr hall, hbase, List.drop_nil, List.take_nil, List.map_nil,
      padTo_nil]
    conv_lhs => rw [← List.take_append_drop 8 s, List.map_append]
    rw [List.take_append_drop, List.append_right_inj, map_toUpper_eq_blanks, ElevenPlain]
    simp only [hlen, hdot, not_false_eq_true, true_and, ne_eq, not_not]
  · have hplain : ¬ElevenPlain s := fun h => heleven ⟨h.1, h.2.1⟩
    rw [convertName, if_neg heleven]
    exact iff_of_true rfl hplain

/-- `IsNameEqual` compares with what `To83Format` makes of the name, unless the name has eleven
characters without a dot and more than a base of eight. -/
theorem converters_agree_iff (s : List Byte) :
    (Loops.isNameEqual (Loops.to83Format s) s = true ↔ ¬ElevenPlain s) ∧
      (Loops.converted s = Loops.to83Format s ↔ ¬ElevenPlain s) := by
  rw [Loops.isNameEqual, beq_iff_eq, to83Format_eq, converted_eq]
  exact ⟨eq_comm.trans (convertName_eq_iff s), convertName_eq_iff s⟩

/-- `abcdefghijk`. -/
def elevenLetters : List Byte :=
  [0x61#8, 0x62#8, 0x63#8, 0x64#8, 0x65#8, 0x66#8, 0x67#8, 0x68#8, 0x69#8, 0x6A#8, 0x6B#8]

/-- The entry that is made for `abcdefghijk` does not match it; the directory is made and not
found. -/
theorem converters_differ : 0 ∉ elevenLetters ∧ 0x2F#8 ∉ elevenLetters ∧
    Loops.isNameEqual (Loops.to83Format elevenLetters) elevenLetters = false ∧
    (smallVolume.ensureDirectory ⟨blankDisk, []⟩ elevenLetters).1 = 3 ∧
    smallVolume.getDirectoryCluster (smallVolume.ensureDirectory ⟨blankDisk, []⟩ elevenLetters).2
      elevenLetters 0 = 0xFFFFFFFF := by
  decide +kernel

end Sylphia
