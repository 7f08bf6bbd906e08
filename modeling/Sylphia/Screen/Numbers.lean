import Mathlib.Order.Bounds.Defs
import Sylphia.Screen.Kprintf

/-!
# Numbers that kprintf writes

`%d`, `%u` and `%x` write a text that is read as the number again. It is as short as the width
allows, and the digits stay within the first 21 bytes of `num_buf`.
-/

namespace Sylphia.Screen.Kprintf

open Bytes WriteLog Logged Console Numeral

/-- `%d`, `%u` and `%x`, of every size. -/
def Conversion.IsNumber (d : Conversion) : Prop := d.ch = 0x64 ∨ d.ch = 0x75 ∨ d.ch = 0x78

def Conversion.base (d : Conversion) : Nat := if d.ch = 0x78 then 16 else 10

/-- The argument that a value is passed as: without a size its low half, an `int`. -/
def Conversion.argument (d : Conversion) (v : BitVec 64) : Arg :=
  if d.longMode > 0 then .long v else .int (v.setWidth 32)

/-- The number that the argument is. -/
def Conversion.number (d : Conversion) (v : BitVec 64) : Int :=
  if d.ch = 0x64 then if d.longMode > 0 then v.toInt else (v.setWidth 32).toInt
  else if d.longMode > 0 then v.toNat else (v.setWidth 32).toNat

/-- A text that a conversion may write for a value. -/
structure Conversion.Writes (d : Conversion) (v : BitVec 64) (text : List Byte) : Prop where
  /-- Behind spaces it is read as the number. -/
  reads : readInt d.base (text.dropWhile (· = 0x20)) = some (d.number v)
  /-- It is as long as the width, or as the shortest text that is read as the number. -/
  length : ∃ n,
    IsLeast {n | ∃ s : List Byte, readInt d.base s = some (d.number v) ∧ s.length = n} n ∧
    text.length = max (paramNumber d.width) n
  /-- It has its sign behind spaces or before zeros, and digits that do not begin with a zero. -/
  layout : ∃ n digits, (digits.head? = some 0x30 → digits = [0x30]) ∧
    readNat d.base digits = some (d.number v).natAbs ∧
    text = if d.zeroPad then sign (d.number v) ++ List.replicate n 0x30 ++ digits
      else List.replicate n 0x20 ++ (sign (d.number v) ++ digits)

section

variable {base v : Nat}

theorem digitOf_digitChar (hmax : base ≤ 36) {d : Nat} (hd : d < base) :
    digitOf base (digitChar d) = some d := by
  have hvalue : ∀ d < 36, charValue (digitChar d) = some d := by decide
  rw [digitOf, hvalue d (hd.trans_le hmax), Option.filter_some, if_pos (decide_eq_true hd)]

/-- Zeros in front of the text of a number do not change what is read. -/
theorem readNat_numeral (hbase : 2 ≤ base) (hmax : base ≤ 36) (n : Nat) :
    readNat base (List.replicate n 0x30 ++ numeral base v) = some v := by
  have hzeros : List.replicate n 0x30 ++ numeral base v =
      (List.replicate n 0 ++ digits base v).map digitChar := by
    rw [List.map_append, List.map_replicate]
    rfl
  rw [hzeros, readNat_map fun d hd => digitOf_digitChar hmax hd, value_replicate_append,
    value_digits]
  · exact List.append_ne_nil_of_right_ne_nil _ (digits_ne_nil base v)
  · intro d hd
    rcases List.mem_append.mp hd with hd | hd
    · rw [List.eq_of_mem_replicate hd]
      omega
    · exact lt_of_mem_digits hbase hd

/-- Only the number zero is written with a zero in front. -/
theorem numeral_of_head (hbase : 2 ≤ base) (hmax : base ≤ 36)
    (h : (numeral base v).head? = some 0x30) : numeral base v = [0x30] := by
  rw [numeral, List.head?_map] at h
  obtain ⟨d, hd, hchar⟩ := Option.map_eq_some_iff.mp h
  have hlt := lt_of_mem_digits hbase (List.mem_of_mem_head? hd)
  have hread := digitOf_digitChar hmax hlt
  rw [hchar, show digitOf base 0x30 = some 0 by
    rw [digitOf, show charValue 0x30 = some 0 by decide, Option.filter_some,
      if_pos (decide_eq_true (by omega))]] at hread
  rw [← Option.some.inj hread] at hd
  rw [numeral, digits_of_head hd]
  rfl

end

section

variable {d : Conversion} (v : BitVec 64)

theorem Conversion.base_mem (d : Conversion) : 10 ≤ d.base ∧ d.base ≤ 36 := by
  rw [Conversion.base]
  split <;> decide

/-- The piece that a conversion makes of the argument. -/
def Conversion.written (d : Conversion) (v : BitVec 64) : Piece :=
  .number d.zeroPad (sign (d.number v)) (numeral d.base (d.number v).natAbs) d.width

theorem takeSigned_argument (args : List Arg) :
    takeSigned d.longMode (d.argument v :: args) =
      some (if d.longMode > 0 then v else (v.setWidth 32).signExtend 64, args) := by
  rw [Conversion.argument]
  split
  · next hlong => rw [takeSigned, if_pos hlong]
  · next hlong => rw [takeSigned, if_neg hlong]

theorem takeUnsigned_argument (args : List Arg) :
    takeUnsigned d.longMode (d.argument v :: args) =
      some (if d.longMode > 0 then v else (v.setWidth 32).setWidth 64, args) := by
  rw [Conversion.argument]
  split
  · next hlong => rw [takeUnsigned, if_pos hlong]
  · next hlong => rw [takeUnsigned, if_neg hlong]

theorem sign_natCast (n : Nat) : sign n = [] := if_neg (by omega)

theorem piece_argument (hd : d.IsNumber) (args : List Arg) :
    d.piece (d.argument v :: args) = some (d.written v, args) := by
  have hunsigned : ∀ w : BitVec 32, (w.setWidth 64).toNat = w.toNat := fun w => by
    rw [BitVec.toNat_setWidth_of_le (by decide)]
  unfold Conversion.piece
  rw [takeSigned_argument, takeUnsigned_argument, Conversion.written, Conversion.number,
    Conversion.base]
  rcases hd with hch | hch | hch
  · have hx : ¬ d.ch = 0x78 := by rw [hch]; decide
    have hsigned : ((v.setWidth 32).signExtend 64).toInt = (v.setWidth 32).toInt :=
      BitVec.toInt_signExtend_of_le (by decide)
    rw [if_pos hch, if_pos hch, if_neg hx]
    by_cases hlong : d.longMode > 0
    · simp only [if_pos hlong, Option.map_some]
      rfl
    · simp only [if_neg hlong, Option.map_some, hsigned]
      rfl
  · have hd : ¬ d.ch = 0x64 := by rw [hch]; decide
    have hx : ¬ d.ch = 0x78 := by rw [hch]; decide
    rw [if_neg hd, if_pos hch, if_neg hd, if_neg hx]
    by_cases hlong : d.longMode > 0
    · simp only [if_pos hlong, Option.map_some, sign_natCast, Int.natAbs_natCast]
    · simp only [if_neg hlong, Option.map_some, sign_natCast, Int.natAbs_natCast, hunsigned]
  · have hd : ¬ d.ch = 0x64 := by rw [hch]; decide
    have hu : ¬ d.ch = 0x75 := by rw [hch]; decide
    rw [if_neg hd, if_neg hu, if_pos hch, if_neg hd, if_pos hch]
    by_cases hlong : d.longMode > 0
    · simp only [if_pos hlong, Option.map_some, sign_natCast, Int.natAbs_natCast]
    · simp only [if_neg hlong, Option.map_some, sign_natCast, Int.natAbs_natCast, hunsigned]

/-- With a width that is an `int`, as many characters fill the number up as are missing. -/
theorem text_written (hd : d.IsNumber) (hfit : paramNumber d.width < 2 ^ 31) :
    (d.written v).text counted = (d.written v).text missing := by
  refine (text_eq_iff (short_of_piece (piece_argument v hd []))).mpr fun _ => ?_
  rw [Conversion.written, Piece.number]
  split <;> exact hfit

theorem length_text_written :
    ((d.written v).text missing).length = max (paramNumber d.width)
      ((sign (d.number v)).length + (numeral d.base (d.number v).natAbs).length) := by
  rw [Conversion.written, text_number]
  split
  · simp only [List.length_append, List.length_replicate, missing]
    omega
  · simp only [List.length_append, List.length_replicate, missing]
    omega

theorem readInt_written (n : Nat) :
    readInt d.base (sign (d.number v) ++
      (List.replicate n 0x30 ++ numeral d.base (d.number v).natAbs)) = some (d.number v) := by
  obtain ⟨hmin, hmax⟩ := d.base_mem
  exact readInt_sign_append (readNat_numeral (by omega) hmax n)

/-- The sign and the digits are the shortest text of the number. -/
theorem isLeast_written :
    IsLeast {n | ∃ s : List Byte, readInt d.base s = some (d.number v) ∧ s.length = n}
      ((sign (d.number v)).length + (numeral d.base (d.number v).natAbs).length) := by
  obtain ⟨hmin, hmax⟩ := d.base_mem
  constructor
  · exact ⟨_, readInt_written v 0, List.length_append⟩
  · rintro n ⟨s, hs, rfl⟩
    rw [numeral, List.length_map]
    exact length_le_of_readInt (by omega) hs

theorem writes_written (hd : d.IsNumber) (hfit : paramNumber d.width < 2 ^ 31) :
    d.Writes v ((d.written v).text counted) := by
  obtain ⟨hmin, hmax⟩ := d.base_mem
  have hbase : 2 ≤ d.base := by omega
  rw [text_written v hd hfit]
  refine ⟨?_, ⟨_, isLeast_written v, length_text_written v⟩, ?_⟩
  · rw [Conversion.written, text_number]
    split
    · rw [List.append_assoc, dropWhile_of_readInt (readInt_written v _), readInt_written]
    · have hread := readInt_written (d := d) v 0
      rw [List.replicate_zero, List.nil_append] at hread
      rw [List.dropWhile_append_of_pos fun c hc => decide_eq_true (List.eq_of_mem_replicate hc),
        dropWhile_of_readInt hread, hread]
  · exact ⟨_, numeral d.base (d.number v).natAbs, numeral_of_head hbase hmax,
      readNat_numeral hbase hmax 0, text_number missing d.zeroPad _ _ d.width⟩

theorem zero_not_mem_written : 0#8 ∉ (d.written v).text counted := by
  obtain ⟨hmin, hmax⟩ := d.base_mem
  have hdigits := @zero_not_mem_numeral d.base (d.number v).natAbs (by omega) hmax
  have hsign : 0#8 ∉ sign (d.number v) := by
    rw [sign]
    split <;> decide
  have hfill : ∀ n c, c ≠ 0#8 → 0#8 ∉ List.replicate n c := fun n c hc h0 =>
    hc (List.eq_of_mem_replicate h0).symm
  rw [Conversion.written, text_number]
  split
  · simp only [List.mem_append, not_or]
    exact ⟨⟨hsign, hfill _ _ (by decide)⟩, hdigits⟩
  · simp only [List.mem_append, not_or]
    exact ⟨hfill _ _ (by decide), hsign, hdigits⟩

end

section

variable {f f' : Frame}

theorem numBuf_putc (f : Frame) (c : Byte) : (f.putc c).numBuf = f.numBuf := by
  rw [Frame.putc]
  split <;> rfl

theorem numBuf_puts (f : Frame) (s : List Byte) : (f.puts s).numBuf = f.numBuf := by
  induction s generalizing f with
  | nil => rfl
  | cons c s ih => exact (ih (f.putc c)).trans (numBuf_putc f c)

theorem within_putUnsigned {base : Nat} (hbase : 10 ≤ base) (f : Frame) (zeroPad : Bool)
    (width : BitVec 32) (val : BitVec 64) :
    Logged.Within (· < 21) f.numBuf (putUnsigned base f zeroPad width val).numBuf := by
  rw [putUnsigned, numBuf_puts, Frame.pad, numBuf_puts]
  exact within_utoa hbase val f.numBuf

theorem within_putSigned (f : Frame) (zeroPad : Bool) (width : BitVec 32) (val : BitVec 64) :
    Logged.Within (· < 21) f.numBuf (putSigned f zeroPad width val).numBuf := by
  have hsign : ∀ (negative : Bool) (g : Frame),
      (if negative then g.putc 0x2d else g).numBuf = g.numBuf := by
    intro negative g
    split
    · exact numBuf_putc g 0x2d
    · rfl
  have hdigits := within_utoa (by decide : 10 ≤ 10) (if val.slt 0 then -val else val) f.numBuf
  rw [putSigned, numBuf_puts]
  cases zeroPad with
  | true =>
    rw [if_pos rfl, if_pos rfl, Frame.pad, numBuf_puts, hsign]
    exact hdigits
  | false =>
    rw [if_neg Bool.false_ne_true, if_neg Bool.false_ne_true, hsign, Frame.pad, numBuf_puts]
    exact hdigits

theorem within_putPointer (f : Frame) (width : BitVec 32) (val : BitVec 64) :
    Logged.Within (· < 21) f.numBuf (putPointer f width val).numBuf := by
  have hhead : ((f.putc 0x30).putc 0x78).numBuf = f.numBuf :=
    (numBuf_putc _ _).trans (numBuf_putc _ _)
  rw [putPointer, numBuf_puts, Frame.pad, numBuf_puts, ← hhead]
  exact within_utoa (by decide) val _

theorem within_convert {zeroPad : Bool} {width : BitVec 32} {longMode : Nat} {ch : Byte}
    {args rest : List Arg} (hconvert : convert zeroPad width longMode ch args f = some (rest, f')) :
    Logged.Within (· < 21) f.numBuf f'.numBuf := by
  obtain ⟨val, rfl⟩ | ⟨base, val, hbase, rfl⟩ | ⟨val, rfl⟩ | ⟨s, rfl⟩ | ⟨s, rfl⟩ :=
    convert_cases hconvert
  · exact within_putSigned f zeroPad width val
  · exact within_putUnsigned hbase f zeroPad width val
  · exact within_putPointer f width val
  · rw [putStr, numBuf_puts, Frame.pad, numBuf_puts]
    exact Logged.Within.refl _ _
  · rw [numBuf_puts]
    exact Logged.Within.refl _ _

theorem within_printLoop (fuel : Nat) (format : List Byte) (args : List Arg) (f : Frame) :
    Logged.Within (· < 21) f.numBuf (printLoop fuel format args f).1.numBuf := by
  induction fuel generalizing format args f with
  | zero => exact Logged.Within.refl _ _
  | succ fuel ih =>
    cases format with
    | nil => exact Logged.Within.refl _ _
    | cons c format =>
      unfold printLoop
      split
      · dsimp only
        split
        · rw [numBuf_putc, numBuf_putc]
          exact Logged.Within.refl _ _
        · split
          · next hconvert => exact (within_convert hconvert).trans (ih _ _ _)
          · exact Logged.Within.refl _ _
      · rw [← numBuf_putc f c]
        exact ih _ _ _

/-- Whatever is printed, `utoa` stays within the first 21 bytes of `num_buf`. -/
theorem within_kprintf (format : List Byte) (args : List Arg) (f : Frame) :
    Logged.Within (· < 21) f.numBuf (kprintf format args f).1.numBuf := by
  have hloop := within_printLoop (format.length + 1) format args f
  rw [kprintf]
  split
  · next hrun =>
    rw [hrun] at hloop
    exact hloop
  · exact hloop

end

/-- Every value is written by `%d`, `%u` and `%x` so that it can be read again, with every width
that is an `int`, behind any text and as a format of its own. -/
theorem kprintf_number (d : Conversion) (hd : d.IsNumber) (hfit : paramNumber d.width < 2 ^ 31)
    (v : BitVec 64) :
    ∃ text, d.Writes v text ∧
      (∀ (f : Frame) (before : List Byte) (args : List Arg), f.Holds before →
        ∃ f', convert d.zeroPad (BitVec.ofNat 32 (paramNumber d.width)) d.longMode d.ch
            (d.argument v :: args) f = some (args, f') ∧
          f'.Holds (before ++ text) ∧ Logged.Within (· < 21) f.numBuf f'.numBuf) ∧
      ∀ (format : List Byte) (buffer numBuf : Nat → Byte),
        parse (format.length + 1) format = ([.conversion d], true) →
          Prints (kprintf format [d.argument v] (Frame.start buffer numBuf)) text ∧
          ∀ w ∈ (kprintf format [d.argument v] (Frame.start buffer numBuf)).1.numBuf.log,
            w.1 < 21 := by
  have hzero := @zero_not_mem_written d v
  refine ⟨(d.written v).text counted, writes_written v hd hfit, ?_, ?_⟩
  · intro f before args hholds
    obtain ⟨f', hconvert, hf'⟩ := hholds.convert (piece_argument v hd args) hzero
    exact ⟨f', hconvert, hf', within_convert hconvert⟩
  · intro format buffer numBuf hparse
    have hpieces : pieces (items format) [d.argument v] = some [d.written v] := by
      rw [items, hparse, pieces, piece_argument v hd]
      rfl
    have hformatted : formatted [d.written v] = (d.written v).text counted := by
      rw [formatted, List.flatMap_singleton, text_written v hd hfit]
    have hcomplete : ¬ EndsInConversion format := by
      rw [EndsInConversion, hparse]
      exact Bool.noConfusion
    have hrun := kprintf_run format [d.argument v] hpieces (hformatted ▸ hzero) buffer numBuf
    rw [List.flatMap_singleton] at hrun
    have hempty : ∀ w ∈ (Frame.start buffer numBuf).numBuf.log, w.1 < 21 :=
      fun w hw => absurd hw List.not_mem_nil
    exact ⟨hrun.2 hcomplete, (within_kprintf _ _ _).forall_log hempty⟩

/-- `%024ld` of the least value. -/
theorem kprintf_number_least :
    ∃ text, Conversion.Writes ⟨true, [0x32, 0x34], 1, 0x64⟩ (BitVec.intMin 64) text ∧
      Prints (kprintf [0x25, 0x30, 0x32, 0x34, 0x6c, 0x64] [.long (BitVec.intMin 64)]
        (Frame.start (fun _ => 1) fun _ => 1)) text := by
  obtain ⟨text, hwrites, -, hprints⟩ := kprintf_number ⟨true, [0x32, 0x34], 1, 0x64⟩ (.inl rfl)
    (by decide) (BitVec.intMin 64)
  exact ⟨text, hwrites, (hprints _ _ _ rfl).1⟩

end Sylphia.Screen.Kprintf
