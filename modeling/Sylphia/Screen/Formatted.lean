import Sylphia.Screen.Ansi
import Sylphia.Screen.Printk

/-!
# The text of a format

A format is a list of characters and conversions, and each of them stands for a piece of text that
is filled up to its width. The loop of `kprintf` puts these pieces out, filled up by its own count.
-/

namespace Sylphia.Screen.Kprintf

open Bytes WriteLog Logged Console

/-- A conversion, with the digits of its width. -/
structure Conversion where
  zeroPad : Bool
  width : List Byte
  longMode : Nat
  ch : Byte

inductive Item
  | char (c : Byte)
  | conversion (d : Conversion)

def widthDigit (c : Byte) : Bool := decide (isDigit c)

/-- The items of a format, with fuel, and whether it ends behind one of them. -/
def parse : Nat → List Byte → List Item × Bool
  | 0, _ => ([], false)
  | _ + 1, [] => ([], true)
  | fuel + 1, c :: format =>
    if c = 0x25 then
      let (zeroPad, format) := takeFlag format
      let width := format.takeWhile widthDigit
      let (longMode, format) := takeSize (format.dropWhile widthDigit)
      match format with
      | [] => ([], false)
      | ch :: format =>
        let (items, complete) := parse fuel format
        (.conversion ⟨zeroPad, width, longMode, ch⟩ :: items, complete)
    else
      let (items, complete) := parse fuel format
      (.char c :: items, complete)

def items (format : List Byte) : List Item := (parse (format.length + 1) format).1

/-- A `%` with nothing behind it but a zero, a width and a size. -/
def EndsInConversion (format : List Byte) : Prop := (parse (format.length + 1) format).2 = false

instance (format : List Byte) : Decidable (EndsInConversion format) :=
  inferInstanceAs (Decidable (_ = _))

/-- A piece of text. Between its two parts a character fills it up to the width, from the length
that it has without. -/
structure Piece where
  before : List Byte
  fill : Option (Byte × Nat)
  after : List Byte
  width : List Byte

/-- A piece whose width does not matter. -/
def Piece.plain (s : List Byte) : Piece := ⟨s, none, [], []⟩

/-- A number behind its sign, filled up with zeros behind the sign or with spaces before it. -/
def Piece.number (zeroPad : Bool) (sign digits width : List Byte) : Piece :=
  if zeroPad then ⟨sign, some (0x30, sign.length + digits.length), digits, width⟩
  else ⟨[], some (0x20, sign.length + digits.length), sign ++ digits, width⟩

/-- What a conversion makes of the arguments, and those that it leaves. -/
def Conversion.piece (d : Conversion) (args : List Arg) : Option (Piece × List Arg) :=
  if d.ch = 0x64 then
    (takeSigned d.longMode args).map fun (val, args) =>
      (.number d.zeroPad (if val.toInt < 0 then [0x2d] else []) (numeral 10 val.toInt.natAbs)
        d.width, args)
  else if d.ch = 0x75 then
    (takeUnsigned d.longMode args).map fun (val, args) =>
      (.number d.zeroPad [] (numeral 10 val.toNat) d.width, args)
  else if d.ch = 0x78 then
    (takeUnsigned d.longMode args).map fun (val, args) =>
      (.number d.zeroPad [] (numeral 16 val.toNat) d.width, args)
  else if d.ch = 0x70 then
    match args with
    | .long val :: args => some (.number true [0x30, 0x78] (numeral 16 val.toNat) d.width, args)
    | _ => none
  else if d.ch = 0x73 then
    match args with
    | .str s :: args =>
      some (.number false [] ((s.map CString.chars).getD nullText) d.width, args)
    | _ => none
  else if d.ch = 0x63 then
    match args with
    | .int c :: args => some (.number false [] [c.setWidth 8] d.width, args)
    | _ => none
  else if d.ch = 0x25 then some (.plain [0x25], args)
  else some (.plain [0x25, d.ch], args)

/-- The pieces of a format with matching arguments. -/
def pieces : List Item → List Arg → Option (List Piece)
  | [], _ => some []
  | .char c :: items, args => (pieces items args).map (.plain [c] :: ·)
  | .conversion d :: items, args =>
    match d.piece args with
    | none => none
    | some (piece, args) => (pieces items args).map (piece :: ·)

/-- The characters of a piece, by how many fill a length up to a width. -/
def Piece.text (count : List Byte → Nat → Nat) (p : Piece) : List Byte :=
  p.before ++ (p.fill.elim [] fun (c, n) => List.replicate (count p.width n) c) ++ p.after

/-- As many as are missing. -/
def missing (width : List Byte) (n : Nat) : Nat := paramNumber width - n

/-- The formatted text. -/
def formatted (ps : List Piece) : List Byte := ps.flatMap (Piece.text missing)

/-! ## Conversions are put out -/

/-- As many as the loops over `pad_len` put out. -/
def counted (width : List Byte) (n : Nat) : Nat :=
  padLen (BitVec.ofNat 32 (paramNumber width)) (BitVec.ofNat 32 n)

section

variable {f : Frame} {text : List Byte} {width : List Byte}

theorem text_number (count : List Byte → Nat → Nat) (zeroPad : Bool)
    (sign digits width : List Byte) :
    (Piece.number zeroPad sign digits width).text count =
      if zeroPad then
        sign ++ List.replicate (count width (sign.length + digits.length)) 0x30 ++ digits
      else List.replicate (count width (sign.length + digits.length)) 0x20 ++ (sign ++ digits) := by
  cases zeroPad <;> rfl

theorem Frame.Holds.putUnsigned {base : Nat} (hbase : 10 ≤ base) (hmax : base ≤ 36)
    (h : f.Holds text) (zeroPad : Bool) (val : BitVec 64)
    (hzero : 0#8 ∉ (Piece.number zeroPad [] (numeral base val.toNat) width).text counted) :
    (putUnsigned base f zeroPad (BitVec.ofNat 32 (paramNumber width)) val).Holds
      (text ++ (Piece.number zeroPad [] (numeral base val.toNat) width).text counted) := by
  have hnum := Frame.numText_utoa hbase hmax f val
  simp only [Kprintf.putUnsigned, hnum]
  rw [text_number] at hzero ⊢
  cases zeroPad with
  | true =>
    simp only [if_true, List.length_nil, Nat.zero_add, List.nil_append, List.mem_append,
      not_or] at hzero ⊢
    have hrun := ((h.utoa val base).pad hzero.1).puts hzero.2
    rw [List.append_assoc] at hrun
    exact hrun
  | false =>
    simp only [Bool.false_eq_true, if_false, List.length_nil, Nat.zero_add, List.nil_append,
      List.mem_append, not_or] at hzero ⊢
    have hrun := ((h.utoa val base).pad hzero.1).puts hzero.2
    rw [List.append_assoc] at hrun
    exact hrun

theorem toNat_magnitude (val : BitVec 64) :
    (if val.slt 0 then -val else val).toNat = val.toInt.natAbs := by
  have hsign := BitVec.toInt_eq_toNat_cond val
  have hlt := val.isLt
  have hneg : val.slt 0 = decide (val.toInt < 0) := rfl
  rw [hneg]
  split
  · next hlow =>
    rw [decide_eq_true_eq] at hlow
    rw [BitVec.toNat_neg]
    omega
  · next hhigh =>
    rw [decide_eq_true_eq] at hhigh
    omega

theorem Frame.Holds.putSigned (h : f.Holds text) (zeroPad : Bool) (val : BitVec 64)
    (hzero : 0#8 ∉ (Piece.number zeroPad (if val.toInt < 0 then [0x2d] else [])
      (numeral 10 val.toInt.natAbs) width).text counted) :
    (putSigned f zeroPad (BitVec.ofNat 32 (paramNumber width)) val).Holds
      (text ++ (Piece.number zeroPad (if val.toInt < 0 then [0x2d] else [])
        (numeral 10 val.toInt.natAbs) width).text counted) := by
  have hneg : val.slt 0 = decide (val.toInt < 0) := rfl
  have hnum : (f.utoa (if val.slt 0 then -val else val) 10).numText =
      numeral 10 val.toInt.natAbs := by
    rw [Frame.numText_utoa (by decide) (by decide), toNat_magnitude]
  generalize numeral 10 val.toInt.natAbs = digits at hnum hzero ⊢
  have hsign : ∀ g : Frame, (if val.slt 0 then g.putc 0x2d else g) =
      g.puts (if val.toInt < 0 then [0x2d] else []) := fun g => by
    simp only [hneg, decide_eq_true_eq]
    split <;> rfl
  have hlen : len digits + (if val.slt 0 then 1 else 0) =
      BitVec.ofNat 32 ((if val.toInt < 0 then [(0x2d : Byte)] else []).length + digits.length) := by
    rw [Nat.add_comm, BitVec.ofNat_add, len]
    simp only [hneg, decide_eq_true_eq]
    split <;> rfl
  simp only [Kprintf.putSigned, hnum, hlen, hsign]
  generalize (if val.toInt < 0 then [(0x2d : Byte)] else []) = sign at hzero ⊢
  have hstart := h.utoa (if val.slt 0 then -val else val) 10
  rw [text_number] at hzero ⊢
  cases zeroPad with
  | true =>
    simp only [if_true, List.mem_append, not_or] at hzero ⊢
    have hrun := ((hstart.puts hzero.1.1).pad hzero.1.2).puts hzero.2
    rw [List.append_assoc, List.append_assoc] at hrun
    rw [List.append_assoc]
    exact hrun
  | false =>
    simp only [Bool.false_eq_true, if_false, List.mem_append, not_or] at hzero ⊢
    have hrun := ((hstart.pad hzero.1).puts hzero.2.1).puts hzero.2.2
    rw [List.append_assoc, List.append_assoc] at hrun
    exact hrun

theorem Frame.Holds.putPointer (h : f.Holds text) (val : BitVec 64)
    (hzero : 0#8 ∉ (Piece.number true [0x30, 0x78] (numeral 16 val.toNat) width).text counted) :
    (putPointer f (BitVec.ofNat 32 (paramNumber width)) val).Holds
      (text ++ (Piece.number true [0x30, 0x78] (numeral 16 val.toNat) width).text counted) := by
  have hhead := (h.putc (c := 0x30) (by decide)).putc (c := 0x78) (by decide)
  have hnum := Frame.numText_utoa (by decide : 10 ≤ 16) (by decide) ((f.putc 0x30).putc 0x78) val
  have hlen : len (numeral 16 val.toNat) + 2 =
      BitVec.ofNat 32 ([(0x30 : Byte), 0x78].length + (numeral 16 val.toNat).length) := by
    rw [Nat.add_comm, BitVec.ofNat_add, len]
    rfl
  simp only [Kprintf.putPointer, hnum, hlen]
  rw [text_number] at hzero ⊢
  simp only [if_true, List.mem_append, not_or] at hzero ⊢
  have hrun := ((hhead.utoa val 16).pad hzero.1.2).puts hzero.2
  simp only [List.append_assoc] at hrun ⊢
  exact hrun

theorem Frame.Holds.putStr (h : f.Holds text) (s : List Byte)
    (hzero : 0#8 ∉ (Piece.number false [] s width).text counted) :
    (putStr f (BitVec.ofNat 32 (paramNumber width)) s).Holds
      (text ++ (Piece.number false [] s width).text counted) := by
  rw [text_number] at hzero ⊢
  simp only [Bool.false_eq_true, if_false, List.length_nil, Nat.zero_add, List.nil_append,
    List.mem_append, not_or] at hzero ⊢
  have hrun := (h.pad hzero.1).puts hzero.2
  rw [List.append_assoc] at hrun
  exact hrun

/-- A conversion puts its piece out and leaves the same arguments. -/
theorem Frame.Holds.convert {d : Conversion} {args rest : List Arg} {p : Piece}
    (hp : d.piece args = some (p, rest)) (h : f.Holds text) (hzero : 0#8 ∉ p.text counted) :
    ∃ f', convert d.zeroPad (BitVec.ofNat 32 (paramNumber d.width)) d.longMode d.ch args f =
      some (rest, f') ∧ f'.Holds (text ++ p.text counted) := by
  unfold Conversion.piece at hp
  unfold Kprintf.convert
  by_cases hd : d.ch = 0x64
  · rw [if_pos hd] at hp ⊢
    obtain ⟨⟨val, args'⟩, htake, heq⟩ := Option.map_eq_some_iff.mp hp
    cases heq
    rw [htake]
    exact ⟨_, rfl, h.putSigned d.zeroPad val hzero⟩
  rw [if_neg hd] at hp ⊢
  by_cases hu : d.ch = 0x75
  · rw [if_pos hu] at hp ⊢
    obtain ⟨⟨val, args'⟩, htake, heq⟩ := Option.map_eq_some_iff.mp hp
    cases heq
    rw [htake]
    exact ⟨_, rfl, h.putUnsigned (by decide) (by decide) d.zeroPad val hzero⟩
  rw [if_neg hu] at hp ⊢
  by_cases hx : d.ch = 0x78
  · rw [if_pos hx] at hp ⊢
    obtain ⟨⟨val, args'⟩, htake, heq⟩ := Option.map_eq_some_iff.mp hp
    cases heq
    rw [htake]
    exact ⟨_, rfl, h.putUnsigned (by decide) (by decide) d.zeroPad val hzero⟩
  rw [if_neg hx] at hp ⊢
  by_cases hptr : d.ch = 0x70
  · rw [if_pos hptr] at hp ⊢
    split at hp
    · cases hp
      exact ⟨_, rfl, h.putPointer _ hzero⟩
    · cases hp
  rw [if_neg hptr] at hp ⊢
  by_cases hs : d.ch = 0x73
  · rw [if_pos hs] at hp ⊢
    split at hp
    · cases hp
      exact ⟨_, rfl, h.putStr _ hzero⟩
    · cases hp
  rw [if_neg hs] at hp ⊢
  by_cases hc : d.ch = 0x63
  · rw [if_pos hc] at hp ⊢
    split at hp
    · cases hp
      exact ⟨_, rfl, h.putStr [_] hzero⟩
    · cases hp
  rw [if_neg hc] at hp ⊢
  by_cases hpercent : d.ch = 0x25
  · rw [if_pos hpercent] at hp ⊢
    cases hp
    exact ⟨_, rfl, h.putc (by decide)⟩
  · rw [if_neg hpercent] at hp ⊢
    cases hp
    have hchars : 0#8 ∉ [0x25, d.ch] := by simpa [Piece.text, Piece.plain] using hzero
    exact ⟨_, rfl, h.puts hchars⟩

theorem takeWidth_eq (w : BitVec 32) (format : List Byte) :
    takeWidth w format =
      ((format.takeWhile widthDigit).foldl
        (fun w c => w * 10 + (c.signExtend 32 - 0x30)) w, format.dropWhile widthDigit) := by
  induction format generalizing w with
  | nil => rfl
  | cons c format ih =>
    rw [takeWidth]
    by_cases hdigit : isDigit c
    · have hpos : widthDigit c = true := decide_eq_true hdigit
      rw [if_pos hdigit, ih, List.takeWhile_cons_of_pos hpos, List.dropWhile_cons_of_pos hpos,
        List.foldl_cons]
    · have hnot : ¬ widthDigit c = true := by simpa [widthDigit] using hdigit
      rw [if_neg hdigit, List.takeWhile_cons_of_neg hnot, List.dropWhile_cons_of_neg hnot,
        List.foldl_nil]

/-- The width is the number of its digits, in 32 bits. -/
theorem takeWidth_zero (format : List Byte) :
    takeWidth 0 format =
      (BitVec.ofNat 32 (paramNumber (format.takeWhile widthDigit)),
        format.dropWhile widthDigit) := by
  rw [takeWidth_eq, ← paramValue_eq]
  · rfl
  · intro c hc
    have hdigit : widthDigit c = true := List.mem_takeWhile_imp hc
    exact of_decide_eq_true hdigit

theorem length_takeFlag_le (format : List Byte) : (takeFlag format).2.length ≤ format.length := by
  cases format with
  | nil => exact Nat.le_refl 0
  | cons c format =>
    rw [takeFlag]
    split
    · exact Nat.le_succ _
    · exact Nat.le_refl _

theorem length_takeSize_le (format : List Byte) : (takeSize format).2.length ≤ format.length := by
  unfold takeSize
  split
  · simp only [List.length_cons]
    omega
  · exact Nat.le_succ _
  · exact Nat.le_refl _

/-- How a loop ends, by whether the format ends behind an item. -/
def endOf : Bool → Outcome
  | true => .returned
  | false => .pastEnd

/-- The loop puts out the text of the items, and comes to the end of the format unless this ends
within a conversion. -/
theorem printLoop_run {fuel : Nat} {format : List Byte} {args : List Arg} {ps : List Piece}
    (hfuel : format.length < fuel) (hps : pieces (parse fuel format).1 args = some ps)
    (h : f.Holds text) (hzero : 0#8 ∉ ps.flatMap (Piece.text counted)) :
    ∃ f', printLoop fuel format args f =
        (f', endOf (parse fuel format).2) ∧
      ((parse fuel format).2 = true → f'.Holds (text ++ ps.flatMap (Piece.text counted))) := by
  induction fuel generalizing format args f text ps with
  | zero => exact absurd hfuel (Nat.not_lt_zero _)
  | succ fuel ih =>
    cases format with
    | nil =>
      cases hps
      exact ⟨f, rfl, fun _ => (List.append_nil text).symm ▸ h⟩
    | cons c format =>
      rw [List.length_cons, Nat.add_lt_add_iff_right] at hfuel
      unfold parse at hps ⊢
      unfold printLoop
      by_cases hpercent : c = 0x25
      · rw [if_pos hpercent] at hps ⊢
        rw [if_pos hpercent]
        have hflag := length_takeFlag_le format
        generalize takeFlag format = flag at hps hflag ⊢
        obtain ⟨zeroPad, format₁⟩ := flag
        dsimp only at hps hflag ⊢
        rw [takeWidth_zero]
        have hwidth := List.length_dropWhile_le widthDigit format₁
        have hsize := length_takeSize_le (format₁.dropWhile widthDigit)
        obtain ⟨longMode, format₂, htake⟩ :
            ∃ longMode rest, takeSize (format₁.dropWhile widthDigit) = (longMode, rest) :=
          ⟨_, _, rfl⟩
        rw [htake] at hps hsize
        dsimp only at hps hsize ⊢
        rw [htake]
        cases format₂ with
        | nil =>
          cases hps
          exact ⟨_, rfl, fun hcomplete => absurd hcomplete Bool.false_ne_true⟩
        | cons ch format₂ =>
          rw [List.length_cons] at hsize
          dsimp only at hps ⊢
          rw [pieces] at hps
          cases hpiece : Conversion.piece ⟨zeroPad, format₁.takeWhile widthDigit, longMode, ch⟩
              args with
          | none =>
            rw [hpiece] at hps
            cases hps
          | some made =>
            obtain ⟨p, rest⟩ := made
            rw [hpiece] at hps
            obtain ⟨ps', hps', rfl⟩ := Option.map_eq_some_iff.mp hps
            rw [List.flatMap_cons, List.mem_append, not_or] at hzero
            obtain ⟨f₁, hconvert, hf₁⟩ := h.convert hpiece hzero.1
            obtain ⟨f₂, hrun, hf₂⟩ := ih (by omega) hps' hf₁ hzero.2
            refine ⟨f₂, ?_, fun hcomplete => ?_⟩
            · rw [hconvert]
              exact hrun
            · rw [List.flatMap_cons, ← List.append_assoc]
              exact hf₂ hcomplete
      · rw [if_neg hpercent] at hps ⊢
        rw [if_neg hpercent]
        dsimp only at hps ⊢
        obtain ⟨ps', hps', rfl⟩ := Option.map_eq_some_iff.mp hps
        rw [List.flatMap_cons, List.mem_append, not_or] at hzero
        have hchar : c ≠ 0 := fun h0 => hzero.1 (h0 ▸ List.mem_singleton_self c)
        obtain ⟨f₂, hrun, hf₂⟩ := ih hfuel hps' (h.putc hchar) hzero.2
        refine ⟨f₂, hrun, fun hcomplete => ?_⟩
        rw [List.flatMap_cons, ← List.append_assoc]
        exact hf₂ hcomplete

end

end Sylphia.Screen.Kprintf
