import Sylphia.Screen.Console
import Sylphia.Screen.Utoa

/-!
# kprintf

The format is read up to its zero, and what it stands for is collected in a buffer that goes to the
console whenever it holds 1000 characters.
-/

namespace Sylphia.Screen

open Bytes WriteLog Logged Console

/-- A string without a zero whose length is an `int`, as `strlen_local` counts it. -/
structure CString where
  chars : List Byte
  noZero : 0#8 ∉ chars
  length_lt : chars.length < 2 ^ 31

/-- An argument behind the format: an `int` or `unsigned int`, a `long long` or `unsigned long long`
(a pointer also), or a string, which may be null. -/
inductive Arg
  | int (v : BitVec 32)
  | long (v : BitVec 64)
  | str (s : Option CString)

namespace Kprintf

/-- The local variables, with what was passed to `PutString`. -/
structure Frame where
  buffer : Logged Nat Byte
  numBuf : Logged Nat Byte
  bufIdx : Nat
  chunks : List (List Byte)

/-- How a call ends: it returns, it reads the format behind its zero, or it has no argument of the
type that is read. -/
inductive Outcome
  | returned
  | pastEnd
  | noArgument
  | outOfFuel
  deriving Repr, DecidableEq

/-- `sizeof(buffer)`. -/
def bufferSize : Nat := 1024

/-- `sizeof(num_buf)`. -/
def numBufSize : Nat := 32

/-- The variables on the stack as they are found. -/
def Frame.start (buffer numBuf : Nat → Byte) : Frame := ⟨⟨buffer, []⟩, ⟨numBuf, []⟩, 0, []⟩

namespace Frame

/-- A zero goes behind the characters, and they go to `PutString`, which reads up to a zero. -/
def flush (f : Frame) : Frame :=
  let buffer := f.buffer.write f.bufIdx 0
  { f with buffer := buffer, chunks := f.chunks ++ [cstring buffer.store 0 bufferSize] }

/-- `buffer[buf_idx++] = c`. -/
def push (f : Frame) (c : Byte) : Frame :=
  { f with buffer := f.buffer.write f.bufIdx c, bufIdx := f.bufIdx + 1 }

/-- `putc`. -/
def putc (f : Frame) (c : Byte) : Frame :=
  if f.bufIdx ≥ 1000 then { f.flush with bufIdx := 0 }.push c else f.push c

/-- A loop of `putc` over a string. -/
def puts (f : Frame) (s : List Byte) : Frame := s.foldl putc f

/-- A loop of `putc` with the same character. -/
def pad (f : Frame) (n : Nat) (c : Byte) : Frame := f.puts (List.replicate n c)

/-- The text in `num_buf`. -/
def numText (f : Frame) : List Byte := cstring f.numBuf.store 0 numBufSize

/-- `utoa` into `num_buf`. -/
def utoa (f : Frame) (value : BitVec 64) (base : Nat) : Frame :=
  { f with numBuf := Screen.utoa value f.numBuf base }

end Frame

/-- `pad_len`, an `int`: `(width > len) ? (width - len) : 0`. -/
def padLen (width len : BitVec 32) : Nat :=
  if len.slt width then (width - len).toInt.toNat else 0

/-- The length of a string as an `int`. -/
def len (s : List Byte) : BitVec 32 := BitVec.ofNat 32 s.length

/-- `va_arg` for `%d`. -/
def takeSigned (longMode : Nat) : List Arg → Option (BitVec 64 × List Arg)
  | .long v :: args => if longMode > 0 then some (v, args) else none
  | .int v :: args => if longMode > 0 then none else some (v.signExtend 64, args)
  | _ => none

/-- `va_arg` for `%u` and `%x`. -/
def takeUnsigned (longMode : Nat) : List Arg → Option (BitVec 64 × List Arg)
  | .long v :: args => if longMode > 0 then some (v, args) else none
  | .int v :: args => if longMode > 0 then none else some (v.setWidth 64, args)
  | _ => none

/-- `(null)`. -/
def nullText : List Byte := [0x28, 0x6e, 0x75, 0x6c, 0x6c, 0x29]

/-- `%d`. -/
def putSigned (f : Frame) (zeroPad : Bool) (width : BitVec 32) (val : BitVec 64) : Frame :=
  let negative := val.slt 0
  let f := f.utoa (if negative then -val else val) 10
  let num := f.numText
  let padLen := padLen width (len num + if negative then 1 else 0)
  let f := if zeroPad then f else f.pad padLen 0x20
  let f := if negative then f.putc 0x2d else f
  let f := if zeroPad then f.pad padLen 0x30 else f
  f.puts num

/-- `%u` in base 10 and `%x` in base 16. -/
def putUnsigned (base : Nat) (f : Frame) (zeroPad : Bool) (width : BitVec 32) (val : BitVec 64) :
    Frame :=
  let f := f.utoa val base
  let num := f.numText
  let f := f.pad (padLen width (len num)) (if zeroPad then 0x30 else 0x20)
  f.puts num

/-- `%p`. -/
def putPointer (f : Frame) (width : BitVec 32) (val : BitVec 64) : Frame :=
  let f := (f.putc 0x30).putc 0x78
  let f := f.utoa val 16
  let num := f.numText
  let f := f.pad (padLen width (len num + 2)) 0x30
  f.puts num

/-- `%s`. -/
def putStr (f : Frame) (width : BitVec 32) (s : List Byte) : Frame :=
  (f.pad (padLen width (len s)) 0x20).puts s

/-- `%c`. -/
def putChar (f : Frame) (width : BitVec 32) (c : Byte) : Frame :=
  (f.pad (padLen width 1) 0x20).putc c

/-- The `switch`, for a character that is not the zero. -/
def convert (zeroPad : Bool) (width : BitVec 32) (longMode : Nat) (ch : Byte) (args : List Arg)
    (f : Frame) : Option (List Arg × Frame) :=
  if ch = 0x64 then
    match takeSigned longMode args with
    | some (val, args) => some (args, putSigned f zeroPad width val)
    | none => none
  else if ch = 0x75 then
    match takeUnsigned longMode args with
    | some (val, args) => some (args, putUnsigned 10 f zeroPad width val)
    | none => none
  else if ch = 0x78 then
    match takeUnsigned longMode args with
    | some (val, args) => some (args, putUnsigned 16 f zeroPad width val)
    | none => none
  else if ch = 0x70 then
    match args with
    | .long val :: args => some (args, putPointer f width val)
    | _ => none
  else if ch = 0x73 then
    match args with
    | .str s :: args => some (args, putStr f width ((s.map CString.chars).getD nullText))
    | _ => none
  else if ch = 0x63 then
    match args with
    | .int c :: args => some (args, putChar f width (c.setWidth 8))
    | _ => none
  else if ch = 0x25 then some (args, f.putc 0x25)
  else some (args, (f.putc 0x25).putc ch)

/-- `zero_pad`. -/
def takeFlag : List Byte → Bool × List Byte
  | [] => (false, [])
  | c :: format => if c = 0x30 then (true, format) else (false, c :: format)

/-- `width`, whose sums are those of 32 bits. -/
def takeWidth (width : BitVec 32) : List Byte → BitVec 32 × List Byte
  | [] => (width, [])
  | c :: format =>
    if isDigit c then takeWidth (width * 10 + (c.signExtend 32 - 0x30)) format
    else (width, c :: format)

/-- `long_mode`. -/
def takeSize : List Byte → Nat × List Byte
  | 0x6c :: 0x6c :: format => (2, format)
  | 0x6c :: format => (1, format)
  | format => (0, format)

/-- The loop over the format, which is given from `*format` up to its zero, with fuel. -/
def printLoop : Nat → List Byte → List Arg → Frame → Frame × Outcome
  | 0, _, _, f => (f, .outOfFuel)
  | _ + 1, [], _, f => (f, .returned)
  | fuel + 1, c :: format, args, f =>
    if c = 0x25 then
      let (zeroPad, format) := takeFlag format
      let (width, format) := takeWidth 0 format
      let (longMode, format) := takeSize format
      match format with
      -- At the zero the default case puts it out, and `format++` passes over it.
      | [] => ((f.putc 0x25).putc 0, .pastEnd)
      | ch :: format =>
        match convert zeroPad width longMode ch args f with
        | some (args, f) => printLoop fuel format args f
        | none => (f, .noArgument)
    else printLoop fuel format args (f.putc c)

/-- `kprintf`, with `g_console` set. The result is `bufIdx`. -/
def kprintf (format : List Byte) (args : List Arg) (f : Frame) : Frame × Outcome :=
  match printLoop (format.length + 1) format args f with
  | (f, .returned) => (f.flush, .returned)
  | other => other

namespace Frame

/-- The characters so far, those in the buffer included. -/
def text (f : Frame) : List Byte := f.chunks.flatten ++ slice f.buffer.store 0 f.bufIdx

/-- The buffer has room for a character and a zero, and nothing was written behind it. -/
structure Bounded (f : Frame) : Prop where
  bufIdx : f.bufIdx ≤ 1000
  log : ∀ w ∈ f.buffer.log, w.1 < bufferSize

/-- The text so far has no zero in the buffer. -/
structure Holds (f : Frame) (text : List Byte) : Prop extends Bounded f where
  text_eq : f.text = text
  clean : 0#8 ∉ slice f.buffer.store 0 f.bufIdx

variable {f : Frame} {text s : List Byte} {c : Byte}

theorem holds_start (buffer numBuf : Nat → Byte) : Holds (start buffer numBuf) [] :=
  ⟨⟨Nat.zero_le 1000, fun _ hw => absurd hw List.not_mem_nil⟩, rfl, List.not_mem_nil⟩

theorem forall_log_write {buffer : Logged Nat Byte} (h : ∀ w ∈ buffer.log, w.1 < bufferSize)
    {i : Nat} (hi : i ≤ 1000) (c : Byte) : ∀ w ∈ (buffer.write i c).log, w.1 < bufferSize := by
  have hlt : i < bufferSize := Nat.lt_of_le_of_lt hi (by decide)
  have hwithin : Logged.Within (fun k => k < bufferSize) buffer (buffer.write i c) :=
    within_write buffer c hlt
  exact hwithin.forall_log h

theorem Bounded.restart (h : Bounded f) : Bounded { f.flush with bufIdx := 0 } :=
  ⟨Nat.zero_le 1000, forall_log_write h.log h.bufIdx 0⟩

theorem Bounded.push (h : Bounded f) (hroom : f.bufIdx < 1000) (c : Byte) : Bounded (f.push c) :=
  ⟨hroom, forall_log_write h.log h.bufIdx c⟩

theorem Bounded.putc (h : Bounded f) (c : Byte) : Bounded (f.putc c) := by
  rw [Frame.putc]
  split
  · exact h.restart.push (show 0 < 1000 by decide) c
  · next hroom => exact h.push (Nat.lt_of_not_le hroom) c

theorem Bounded.puts (h : Bounded f) (s : List Byte) : Bounded (f.puts s) := by
  induction s generalizing f with
  | nil => exact h
  | cons c s ih => exact ih (h.putc c)

theorem Bounded.pad (h : Bounded f) (n : Nat) (c : Byte) : Bounded (f.pad n c) := h.puts _

theorem Bounded.utoa (h : Bounded f) (value : BitVec 64) (base : Nat) :
    Bounded (f.utoa value base) := ⟨h.bufIdx, h.log⟩

theorem store_write (buffer : Logged Nat Byte) (i : Nat) (c : Byte) :
    (buffer.write i c).store = splice buffer.store i [c] := by
  funext k
  by_cases hk : k = i
  · subst hk
    rw [write_store_self, splice, if_pos (Nat.le_refl k), Nat.sub_self]
    rfl
  · rw [write_store_of_ne buffer hk]
    rcases Nat.lt_or_gt_of_ne hk with hlt | hgt
    · exact (splice_of_lt hlt).symm
    · exact (splice_of_ge hgt).symm

/-- The buffer goes out as it is. -/
theorem Holds.flatten_flush (h : Holds f text) : f.flush.chunks.flatten = text := by
  have hprinted : cstring (f.buffer.write f.bufIdx 0).store 0 bufferSize =
      slice f.buffer.store 0 f.bufIdx := by
    rw [store_write]
    refine (stringAt_terminate h.clean).cstring_eq ?_
    rw [length_slice]
    exact h.bufIdx.trans (by decide)
  rw [← h.text_eq, flush, hprinted, List.flatten_append, List.flatten_singleton, Frame.text]

theorem Holds.restart (h : Holds f text) : Holds { f.flush with bufIdx := 0 } text where
  toBounded := h.toBounded.restart
  text_eq := (List.append_nil _).trans h.flatten_flush
  clean := List.not_mem_nil

theorem Holds.push (h : Holds f text) (hroom : f.bufIdx < 1000) (hc : c ≠ 0) :
    Holds (f.push c) (text ++ [c]) where
  toBounded := h.toBounded.push hroom c
  text_eq := by
    rw [Frame.text, Frame.push, store_write, slice_push, ← List.append_assoc, ← h.text_eq]
    rfl
  clean := by
    rw [Frame.push, store_write, slice_push, List.mem_append, not_or]
    exact ⟨h.clean, fun hmem => hc (List.mem_singleton.mp hmem).symm⟩

theorem Holds.putc (h : Holds f text) (hc : c ≠ 0) : Holds (f.putc c) (text ++ [c]) := by
  rw [Frame.putc]
  split
  · exact h.restart.push (show 0 < 1000 by decide) hc
  · next hroom => exact h.push (Nat.lt_of_not_le hroom) hc

theorem Holds.puts (h : Holds f text) (hs : 0#8 ∉ s) : Holds (f.puts s) (text ++ s) := by
  induction s generalizing f text with
  | nil => exact (List.append_nil text).symm ▸ h
  | cons c s ih =>
    rw [List.mem_cons, not_or] at hs
    have hnext := ih (h.putc (Ne.symm hs.1)) hs.2
    rw [List.append_assoc] at hnext
    exact hnext

theorem Holds.pad (h : Holds f text) {n : Nat} (hc : 0#8 ∉ List.replicate n c) :
    Holds (f.pad n c) (text ++ List.replicate n c) := h.puts hc

/-- The digits are in another buffer. -/
theorem Holds.utoa (h : Holds f text) (value : BitVec 64) (base : Nat) :
    Holds (f.utoa value base) text := ⟨⟨h.bufIdx, h.log⟩, h.text_eq, h.clean⟩

theorem numText_utoa {base : Nat} (hbase : 10 ≤ base) (hmax : base ≤ 36) (f : Frame)
    (value : BitVec 64) : (f.utoa value base).numText = numeral base value.toNat := by
  refine (stringAt_utoa (by omega) hmax value).cstring_eq ?_
  exact (length_numeral_le hbase value.isLt).trans (by decide)

end Frame

section

variable {f : Frame}

theorem Frame.Bounded.putSigned (h : f.Bounded) (zeroPad : Bool) (width : BitVec 32)
    (val : BitVec 64) : (putSigned f zeroPad width val).Bounded := by
  have hsign {g : Frame} (hg : g.Bounded) (negative : Bool) :
      (if negative then g.putc 0x2d else g).Bounded := by
    split
    · exact hg.putc 0x2d
    · exact hg
  rw [Kprintf.putSigned]
  cases zeroPad with
  | true => exact ((hsign (h.utoa _ 10) _).pad _ 0x30).puts _
  | false => exact (hsign ((h.utoa _ 10).pad _ 0x20) _).puts _

theorem Frame.Bounded.putUnsigned (h : f.Bounded) (base : Nat) (zeroPad : Bool)
    (width : BitVec 32) (val : BitVec 64) : (putUnsigned base f zeroPad width val).Bounded :=
  ((h.utoa val base).pad _ _).puts _

theorem Frame.Bounded.putPointer (h : f.Bounded) (width : BitVec 32) (val : BitVec 64) :
    (putPointer f width val).Bounded :=
  ((((h.putc 0x30).putc 0x78).utoa val 16).pad _ 0x30).puts _

theorem Frame.Bounded.putStr (h : f.Bounded) (width : BitVec 32) (s : List Byte) :
    (putStr f width s).Bounded := (h.pad _ 0x20).puts s

/-- What a conversion does: it writes a number or a string, or characters as they are. -/
theorem convert_cases {zeroPad : Bool} {width : BitVec 32} {longMode : Nat} {ch : Byte}
    {args rest : List Arg} {f' : Frame}
    (h : convert zeroPad width longMode ch args f = some (rest, f')) :
    (∃ val, f' = putSigned f zeroPad width val) ∨
    (∃ base val, 10 ≤ base ∧ f' = putUnsigned base f zeroPad width val) ∨
    (∃ val, f' = putPointer f width val) ∨ (∃ s, f' = putStr f width s) ∨ ∃ s, f' = f.puts s := by
  unfold convert at h
  split at h
  · split at h
    · cases h
      exact .inl ⟨_, rfl⟩
    · cases h
  split at h
  · split at h
    · cases h
      exact .inr (.inl ⟨10, _, by decide, rfl⟩)
    · cases h
  split at h
  · split at h
    · cases h
      exact .inr (.inl ⟨16, _, by decide, rfl⟩)
    · cases h
  split at h
  · split at h
    · cases h
      exact .inr (.inr (.inl ⟨_, rfl⟩))
    · cases h
  split at h
  · split at h
    · cases h
      exact .inr (.inr (.inr (.inl ⟨_, rfl⟩)))
    · cases h
  split at h
  · split at h
    · next c _ =>
      cases h
      exact .inr (.inr (.inr (.inl ⟨[c.setWidth 8], rfl⟩)))
    · cases h
  split at h
  · cases h
    exact .inr (.inr (.inr (.inr ⟨[0x25], rfl⟩)))
  · cases h
    exact .inr (.inr (.inr (.inr ⟨[0x25, ch], rfl⟩)))

theorem Frame.Bounded.convert {zeroPad : Bool} {width : BitVec 32} {longMode : Nat} {ch : Byte}
    {args rest : List Arg} {f' : Frame} (h : f.Bounded)
    (hconvert : convert zeroPad width longMode ch args f = some (rest, f')) : f'.Bounded := by
  obtain ⟨val, rfl⟩ | ⟨base, val, -, rfl⟩ | ⟨val, rfl⟩ | ⟨s, rfl⟩ | ⟨s, rfl⟩ :=
    convert_cases hconvert
  · exact h.putSigned zeroPad width val
  · exact h.putUnsigned base zeroPad width val
  · exact h.putPointer width val
  · exact h.putStr width s
  · exact h.puts s

theorem Frame.Bounded.printLoop (h : f.Bounded) (fuel : Nat) (format : List Byte)
    (args : List Arg) : (printLoop fuel format args f).1.Bounded := by
  induction fuel generalizing format args f with
  | zero => exact h
  | succ fuel ih =>
    cases format with
    | nil => exact h
    | cons c format =>
      unfold Kprintf.printLoop
      split
      · dsimp only
        split
        · exact (h.putc 0x25).putc 0
        · split
          · next hconvert => exact ih (h.convert hconvert) _ _
          · exact h
      · exact ih (h.putc c) _ _

/-- Whatever the format and the arguments are, nothing is written behind the buffer. -/
theorem kprintf_within_buffer (format : List Byte) (args : List Arg) (buffer numBuf : Nat → Byte) :
    ∀ w ∈ (kprintf format args (Frame.start buffer numBuf)).1.buffer.log, w.1 < bufferSize := by
  have hloop := (Frame.holds_start buffer numBuf).toBounded.printLoop (format.length + 1)
    format args
  rw [kprintf]
  split
  · next hrun =>
    rw [hrun] at hloop
    exact hloop.restart.log
  · exact hloop.log

end

end Kprintf

end Sylphia.Screen
