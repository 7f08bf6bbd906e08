import Sylphia.Screen.Formatted

/-!
# What kprintf passes on

The strings that go to the console make up the formatted text, if the format does not end within a
conversion and the widths fit into an `int`.
-/

namespace Sylphia.Screen.Kprintf

open Bytes WriteLog Logged Console

/-- The format is not read behind its zero, no character is written outside of the buffer, and the
strings that are printed make up the text. -/
structure Prints (result : Frame × Outcome) (text : List Byte) : Prop where
  returned : result.2 = .returned
  buffer : ∀ w ∈ result.1.buffer.log, w.1 < bufferSize
  chunks : result.1.chunks.flatten = text

/-- The widths that matter fit into an `int`. -/
def WidthsFit (ps : List Piece) : Prop :=
  ∀ p ∈ ps, p.fill.isSome → paramNumber p.width < 2 ^ 31

instance (ps : List Piece) : Decidable (WidthsFit ps) :=
  inferInstanceAs (Decidable (∀ p ∈ ps, p.fill.isSome → _))

theorem padLen_ofNat (x : BitVec 32) {n : Nat} (hn : n < 2 ^ 31) :
    padLen x (BitVec.ofNat 32 n) = x.toInt.toNat - n := by
  have hsign := BitVec.toInt_eq_toNat_cond x
  have hlen : (BitVec.ofNat 32 n).toNat = n := by
    rw [BitVec.toNat_ofNat, Nat.mod_eq_of_lt (by omega)]
  have hint : (BitVec.ofNat 32 n).toInt = n := by
    rw [BitVec.toInt_eq_toNat_of_lt (by omega), hlen]
  have hslt : (BitVec.ofNat 32 n).slt x = decide ((n : Int) < x.toInt) := by
    rw [BitVec.slt, hint]
  have hlt := x.isLt
  rw [padLen, hslt]
  split
  · next hmore =>
    rw [decide_eq_true_eq] at hmore
    have hsub : (x - BitVec.ofNat 32 n).toNat = x.toNat - n := by
      rw [BitVec.toNat_sub_of_le (BitVec.le_def.mpr (by omega)), hlen]
    rw [BitVec.toInt_eq_toNat_of_lt (by omega), hsub]
    omega
  · next hless =>
    rw [decide_eq_true_eq] at hless
    omega

theorem counted_le (width : List Byte) {n : Nat} (hn : n < 2 ^ 31) :
    counted width n ≤ missing width n := by
  have hsign := BitVec.toInt_eq_toNat_cond (BitVec.ofNat 32 (paramNumber width))
  have hmod : (BitVec.ofNat 32 (paramNumber width)).toNat = paramNumber width % 2 ^ 32 :=
    BitVec.toNat_ofNat ..
  rw [counted, padLen_ofNat _ hn, missing]
  omega

/-- A width that does not fit is counted too small. -/
theorem counted_eq_iff (width : List Byte) {n : Nat} (hn : n < 2 ^ 31) :
    counted width n = missing width n ↔ paramNumber width < 2 ^ 31 := by
  have hsign := BitVec.toInt_eq_toNat_cond (BitVec.ofNat 32 (paramNumber width))
  have hmod : (BitVec.ofNat 32 (paramNumber width)).toNat = paramNumber width % 2 ^ 32 :=
    BitVec.toNat_ofNat ..
  rw [counted, padLen_ofNat _ hn, missing]
  omega

/-- What is filled up has a length that is an `int`. -/
def Piece.Short (p : Piece) : Prop := ∀ c n, p.fill = some (c, n) → n < 2 ^ 31

theorem short_number {zeroPad : Bool} {sign digits width : List Byte}
    (h : sign.length + digits.length < 2 ^ 31) :
    (Piece.number zeroPad sign digits width).Short := by
  intro c n hfill
  cases zeroPad <;> cases hfill <;> exact h

theorem short_plain (s : List Byte) : (Piece.plain s).Short := fun _ _ hfill => by cases hfill

theorem short_of_numeral {base v : Nat} (hbase : 10 ≤ base) (hv : v < 2 ^ 64) (zeroPad : Bool)
    {sign width : List Byte} (hsign : sign.length ≤ 2) :
    (Piece.number zeroPad sign (numeral base v) width).Short := by
  have hlen := length_numeral_le hbase hv
  exact short_number (by omega)

/-- Numbers have at most 20 digits, and strings have a length that is an `int`. -/
theorem short_of_piece {d : Conversion} {args rest : List Arg} {p : Piece}
    (hp : d.piece args = some (p, rest)) : p.Short := by
  unfold Conversion.piece at hp
  split at hp
  · obtain ⟨⟨val, args'⟩, -, heq⟩ := Option.map_eq_some_iff.mp hp
    cases heq
    have hsign := BitVec.toInt_eq_toNat_cond val
    have hlt := val.isLt
    exact short_of_numeral (by decide) (by omega) _ (by split <;> decide)
  split at hp
  · obtain ⟨⟨val, args'⟩, -, heq⟩ := Option.map_eq_some_iff.mp hp
    cases heq
    exact short_of_numeral (by decide) val.isLt _ (by decide)
  split at hp
  · obtain ⟨⟨val, args'⟩, -, heq⟩ := Option.map_eq_some_iff.mp hp
    cases heq
    exact short_of_numeral (by decide) val.isLt _ (by decide)
  split at hp
  · split at hp
    · cases hp
      exact short_of_numeral (by decide) (BitVec.isLt _) _ (by decide)
    · cases hp
  split at hp
  · split at hp
    · next s args =>
      cases hp
      cases s with
      | none => exact short_number (by decide)
      | some s => exact short_number ((Nat.zero_add _).trans_lt s.length_lt)
    · cases hp
  split at hp
  · split at hp
    · cases hp
      exact short_number (by simp)
    · cases hp
  split at hp
  · cases hp
    exact short_plain _
  · cases hp
    exact short_plain _

theorem short_of_pieces {items : List Item} {args : List Arg} {ps : List Piece}
    (hps : pieces items args = some ps) : ∀ p ∈ ps, p.Short := by
  induction items generalizing args ps with
  | nil =>
    cases hps
    exact fun p hp => absurd hp List.not_mem_nil
  | cons item items ih =>
    cases item with
    | char c =>
      obtain ⟨ps', hps', rfl⟩ := Option.map_eq_some_iff.mp hps
      exact List.forall_mem_cons.mpr ⟨short_plain [c], ih hps'⟩
    | conversion d =>
      rw [pieces] at hps
      cases hpiece : d.piece args with
      | none =>
        rw [hpiece] at hps
        cases hps
      | some made =>
        obtain ⟨p, rest⟩ := made
        rw [hpiece] at hps
        obtain ⟨ps', hps', rfl⟩ := Option.map_eq_some_iff.mp hps
        exact List.forall_mem_cons.mpr ⟨short_of_piece hpiece, ih hps'⟩

theorem mem_text_missing {p : Piece} (hp : p.Short) {c : Byte} (hc : c ∈ p.text counted) :
    c ∈ p.text missing := by
  obtain ⟨before, fill, after, width⟩ := p
  cases fill with
  | none => exact hc
  | some fill =>
    obtain ⟨ch, n⟩ := fill
    have hle := counted_le width (hp ch n rfl)
    simp only [Piece.text, Option.elim_some, List.mem_append, List.mem_replicate] at hc ⊢
    rcases hc with (hc | ⟨hpos, rfl⟩) | hc
    · exact .inl (.inl hc)
    · exact .inl (.inr ⟨by omega, rfl⟩)
    · exact .inr hc

theorem length_text_le {p : Piece} (hp : p.Short) :
    (p.text counted).length ≤ (p.text missing).length := by
  obtain ⟨before, fill, after, width⟩ := p
  cases fill with
  | none => exact Nat.le_refl _
  | some fill =>
    obtain ⟨ch, n⟩ := fill
    have hle := counted_le width (hp ch n rfl)
    simp only [Piece.text, Option.elim_some, List.length_append, List.length_replicate]
    omega

theorem text_eq_iff {p : Piece} (hp : p.Short) :
    p.text counted = p.text missing ↔ (p.fill.isSome → paramNumber p.width < 2 ^ 31) := by
  obtain ⟨before, fill, after, width⟩ := p
  cases fill with
  | none => exact iff_of_true rfl fun hfill => by cases hfill
  | some fill =>
    obtain ⟨ch, n⟩ := fill
    have hiff := counted_eq_iff width (hp ch n rfl)
    simp only [Piece.text, Option.elim_some, List.append_cancel_right_eq,
      List.append_cancel_left_eq, Option.isSome_some, forall_const]
    rw [← hiff]
    constructor
    · intro heq
      have hlen := congrArg List.length heq
      rwa [List.length_replicate, List.length_replicate] at hlen
    · intro heq
      rw [heq]

theorem length_texts_le {ps : List Piece} (hps : ∀ p ∈ ps, p.Short) :
    (ps.flatMap (Piece.text counted)).length ≤ (formatted ps).length := by
  induction ps with
  | nil => exact Nat.le_refl 0
  | cons p ps ih =>
    obtain ⟨hp, hrest⟩ := List.forall_mem_cons.mp hps
    rw [formatted, List.flatMap_cons, List.flatMap_cons, List.length_append, List.length_append]
    exact Nat.add_le_add (length_text_le hp) (ih hrest)

/-- The texts have the same length only if no width is counted too small. -/
theorem texts_eq_iff {ps : List Piece} (hps : ∀ p ∈ ps, p.Short) :
    ps.flatMap (Piece.text counted) = formatted ps ↔ WidthsFit ps := by
  induction ps with
  | nil => exact iff_of_true rfl fun p hp => absurd hp List.not_mem_nil
  | cons p ps ih =>
    obtain ⟨hp, hrest⟩ := List.forall_mem_cons.mp hps
    have hfirst := length_text_le hp
    have hothers := length_texts_le hrest
    rw [formatted] at hothers ih
    rw [formatted, List.flatMap_cons, List.flatMap_cons, WidthsFit, List.forall_mem_cons,
      ← text_eq_iff hp]
    constructor
    · intro heq
      have hlen := congrArg List.length heq
      rw [List.length_append, List.length_append] at hlen
      obtain ⟨hsame, hsames⟩ := List.append_inj heq (by omega)
      exact ⟨hsame, (ih hrest).mp hsames⟩
    · rintro ⟨hsame, hfit⟩
      rw [hsame, (ih hrest).mpr hfit]

/-- What `kprintf` does with a format and arguments that match it. -/
theorem kprintf_run (format : List Byte) (args : List Arg) {ps : List Piece}
    (hps : pieces (items format) args = some ps) (hzero : 0#8 ∉ formatted ps)
    (buffer numBuf : Nat → Byte) :
    (EndsInConversion format →
      (kprintf format args (Frame.start buffer numBuf)).2 = .pastEnd) ∧
    (¬ EndsInConversion format →
      Prints (kprintf format args (Frame.start buffer numBuf))
        (ps.flatMap (Piece.text counted))) := by
  have hcounted : 0#8 ∉ ps.flatMap (Piece.text counted) := by
    intro hmem
    obtain ⟨p, hp, hchar⟩ := List.mem_flatMap.mp hmem
    exact hzero (List.mem_flatMap.mpr ⟨p, hp, mem_text_missing (short_of_pieces hps p hp) hchar⟩)
  obtain ⟨f, hrun, hholds⟩ :=
    printLoop_run (Nat.lt_add_one _) hps (Frame.holds_start buffer numBuf) hcounted
  rw [List.nil_append] at hholds
  rw [kprintf, hrun, EndsInConversion]
  generalize (parse (format.length + 1) format).2 = complete at hholds ⊢
  cases complete with
  | false => exact ⟨fun _ => rfl, fun h => absurd rfl h⟩
  | true =>
    refine ⟨fun h => absurd h (by decide), fun _ => ?_⟩
    exact ⟨rfl, (hholds rfl).toBounded.restart.log, (hholds rfl).flatten_flush⟩

/-- For every format and all arguments that match it and produce no zero, `kprintf` keeps to the
format and to its buffer and passes the formatted text on exactly if the format does not end within
a conversion and the widths fit into an `int`. -/
theorem kprintf_prints_iff (format : List Byte) (args : List Arg) {ps : List Piece}
    (hps : pieces (items format) args = some ps) (hzero : 0#8 ∉ formatted ps)
    (buffer numBuf : Nat → Byte) :
    Prints (kprintf format args (Frame.start buffer numBuf)) (formatted ps) ↔
      ¬ EndsInConversion format ∧ WidthsFit ps := by
  obtain ⟨hpast, hprints⟩ := kprintf_run format args hps hzero buffer numBuf
  rw [← texts_eq_iff (short_of_pieces hps)]
  constructor
  · intro h
    have hcomplete : ¬ EndsInConversion format := fun hends => by
      have hreturned := h.returned
      rw [hpast hends] at hreturned
      cases hreturned
    exact ⟨hcomplete, (hprints hcomplete).chunks.symm.trans h.chunks⟩
  · rintro ⟨hcomplete, heq⟩
    rw [← heq]
    exact hprints hcomplete

/-- The console shows the text as if it had come in one string. -/
theorem Prints.console {result : Frame × Outcome} {text : List Byte} (h : Prints result text)
    (font : Font) (c : Console) :
    result.1.chunks.foldl (putString font) c = c.putString font text := by
  rw [← h.chunks]
  generalize result.1.chunks = chunks
  induction chunks generalizing c with
  | nil => rfl
  | cons chunk chunks ih =>
    rw [List.foldl_cons, ih, List.flatten_cons, putString_append]

/-- `%05d` of -42, with a character in front. -/
theorem kprintf_prints_iff_padded :
    Prints (kprintf [0x61, 0x25, 0x30, 0x35, 0x64] [.int (-42)]
      (Frame.start (fun _ => 1) fun _ => 1)) [0x61, 0x2d, 0x30, 0x30, 0x34, 0x32] :=
  (@kprintf_prints_iff [0x61, 0x25, 0x30, 0x35, 0x64] [.int (-42)]
    [.plain [0x61], .number true [0x2d] [0x34, 0x32] [0x35]] rfl (by decide)
    (fun _ => 1) fun _ => 1).mpr ⟨by decide, by decide⟩

/-- A format that is a single `%` is read behind its zero. -/
theorem kprintf_reads_past_end :
    ¬ ∃ text, Prints (kprintf [0x25] [] (Frame.start (fun _ => 0) fun _ => 0)) text := by
  rintro ⟨text, h⟩
  exact absurd h.returned (by decide)

end Sylphia.Screen.Kprintf
