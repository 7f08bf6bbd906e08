import Mathlib.Data.List.TakeWhile
import Sylphia.Core.Bytes
import Sylphia.Core.Numeral

/-!
# Lines for the kernel log

`log_hex` and `log_bytes` of `kernel_api.rs` build a line in a buffer on the stack and pass it to
`kprintf_rust`. An index outside of an array panics, which is `none` here.
-/

namespace Sylphia.KernelApi

open Bytes Numeral

/-- `buf` and `pos`. -/
structure Line where
  buf : List Byte
  pos : Nat

/-- `[0u8; size]`. -/
def Line.new (size : Nat) : Line := ⟨List.replicate size 0, 0⟩

/-- `buf[pos] = b`. -/
def Line.set (l : Line) (b : Byte) : Option Line :=
  if l.pos < l.buf.length then some { l with buf := l.buf.set l.pos b } else none

/-- `buf[pos] = b` and `pos += 1`. -/
def Line.push (l : Line) (b : Byte) : Option Line :=
  (l.set b).map fun l => { l with pos := l.pos + 1 }

/-- The loop over `prefix`. -/
def copyPrefix (limit : Nat) : List Byte → Line → Option Line
  | [], l => some l
  | b :: bs, l =>
    if b = 0 ∨ l.pos ≥ limit then some l
    else do copyPrefix limit bs (← l.push b)

/-- A digit, of a value below 16. -/
def hexDigit (nibble : Byte) : Byte := if nibble < 10 then 0x30 + nibble else 0x41 + nibble - 10

/-- `((value >> (i * 4)) & 0xF) as u8`. -/
def nibble (value : BitVec 64) (i : Nat) : Byte := (value >>> (i * 4) &&& 0xF).setWidth 8

/-- The end of a line: the buffer as `kprintf_rust` finds it. -/
def Line.finish (l : Line) : Option (List Byte) := do
  let l ← l.push 0x0a
  let l ← l.set 0
  some l.buf

/-- `log_hex`. -/
def logHex (prefixBytes : List Byte) (value : BitVec 64) : Option (List Byte) := do
  let l ← copyPrefix 60 prefixBytes (Line.new 80)
  let l ← l.push 0x30
  let l ← l.push 0x78
  let l ← (List.range 16).reverse.foldlM (fun l i => l.push (hexDigit (nibble value i))) l
  l.finish

/-- The loop over `0..len`. -/
def dumpLoop (data : List Byte) : List Nat → Line → Option Line
  | [], l => some l
  | i :: is, l =>
    if l.pos ≥ 90 then some l
    else do
      let byte ← data[i]?
      let l ← l.push (hexDigit (byte >>> 4 &&& 0xF))
      let l ← l.push (hexDigit (byte &&& 0xF))
      let l ← l.push 0x20
      dumpLoop data is l

/-- `log_bytes`. -/
def logBytes (prefixBytes data : List Byte) (maxLen : Nat) : Option (List Byte) := do
  let l ← copyPrefix 40 prefixBytes (Line.new 100)
  let l ← dumpLoop data (List.range (min data.length maxLen)) l
  l.finish

example : logHex [0x3d] 0xBEEF = some ([0x3d, 0x30, 0x78] ++ List.replicate 12 0x30 ++
    [0x42, 0x45, 0x45, 0x46, 0x0a] ++ List.replicate 60 0) := by
  decide

/-- The bytes are in a buffer of this size, and zeros behind them. -/
structure Line.Holds (size : Nat) (l : Line) (s : List Byte) : Prop where
  pos : l.pos = s.length
  room : s.length ≤ size
  buf : l.buf = s ++ List.replicate (size - s.length) 0

section

variable {size : Nat} {l : Line} {s : List Byte}

theorem holds_new (size : Nat) : Line.Holds size (Line.new size) [] :=
  ⟨rfl, Nat.zero_le size, rfl⟩

theorem Line.Holds.set (h : l.Holds size s) (hroom : s.length < size) (b : Byte) :
    l.set b = some ⟨s ++ b :: List.replicate (size - (s.length + 1)) 0, l.pos⟩ := by
  have hlt : l.pos < l.buf.length := by
    rw [h.pos, h.buf, List.length_append, List.length_replicate]
    omega
  have hzeros : List.replicate (size - s.length) (0 : Byte) =
      0 :: List.replicate (size - (s.length + 1)) 0 := by
    rw [← List.replicate_succ]
    congr 1
    omega
  rw [Line.set, if_pos hlt, h.pos, h.buf, hzeros, List.set_append_right _ _ (Nat.le_refl _),
    Nat.sub_self, List.set_cons_zero]

theorem Line.Holds.push (h : l.Holds size s) (hroom : s.length < size) (b : Byte) :
    ∃ l', l.push b = some l' ∧ l'.Holds size (s ++ [b]) := by
  refine ⟨_, by rw [Line.push, h.set hroom]; rfl, ?_, ?_, ?_⟩
  · rw [List.length_append, h.pos]
    rfl
  · rw [List.length_append]
    exact hroom
  · rw [List.length_append, List.append_assoc]
    rfl

/-- A loop that appends a byte in each turn. -/
theorem Line.Holds.foldlM {A : Type*} {f : A → Byte} {xs : List A} (h : l.Holds size s)
    (hroom : s.length + xs.length ≤ size) :
    ∃ l', xs.foldlM (fun l x => l.push (f x)) l = some l' ∧ l'.Holds size (s ++ xs.map f) := by
  induction xs generalizing l s with
  | nil => exact ⟨l, rfl, (List.append_nil s).symm ▸ h⟩
  | cons x xs ih =>
    rw [List.length_cons] at hroom
    obtain ⟨l₁, hpush, hl₁⟩ := h.push (by omega) (f x)
    obtain ⟨l₂, hrun, hl₂⟩ := ih hl₁ (by rw [List.length_append, List.length_singleton]; omega)
    rw [List.append_assoc] at hl₂
    exact ⟨l₂, by rw [List.foldlM_cons, hpush]; exact hrun, hl₂⟩

/-- What is copied of a prefix. -/
def copied (limit : Nat) (bs : List Byte) : List Byte := (bs.takeWhile (· ≠ 0)).take limit

theorem copyPrefix_run {limit : Nat} (hlimit : limit ≤ size) (bs : List Byte)
    (h : l.Holds size s) :
    ∃ l', copyPrefix limit bs l = some l' ∧
      l'.Holds size (s ++ copied (limit - s.length) bs) := by
  induction bs generalizing l s with
  | nil => exact ⟨l, rfl, by rwa [copied, List.takeWhile_nil, List.take_nil, List.append_nil]⟩
  | cons b bs ih =>
    rw [copyPrefix]
    by_cases hstop : b = 0 ∨ l.pos ≥ limit
    · refine ⟨l, if_pos hstop, ?_⟩
      have hnone : copied (limit - s.length) (b :: bs) = [] := by
        rcases hstop with rfl | hfull
        · rw [copied, List.takeWhile_cons_of_neg (by decide), List.take_nil]
        · rw [h.pos] at hfull
          rw [copied, Nat.sub_eq_zero_of_le hfull, List.take_zero]
      rwa [hnone, List.append_nil]
    · rw [not_or, Nat.not_le, h.pos] at hstop
      obtain ⟨l₁, hpush, hl₁⟩ := h.push (hstop.2.trans_le hlimit) b
      obtain ⟨l₂, hrun, hl₂⟩ := ih hl₁
      refine ⟨l₂, ?_, ?_⟩
      · rw [if_neg (by rw [not_or, Nat.not_le, h.pos]; exact hstop), hpush]
        exact hrun
      · have hnext : limit - s.length = limit - (s ++ [b]).length + 1 := by
          rw [List.length_append, List.length_singleton]
          omega
        rw [List.append_assoc] at hl₂
        rwa [copied, hnext, List.takeWhile_cons_of_pos (by simpa using hstop.1),
          List.take_succ_cons]

theorem Line.Holds.finish (h : l.Holds size s) (hroom : s.length + 1 < size) :
    ∃ rest, l.finish = some (s ++ [0x0a] ++ 0 :: rest) ∧
      (s ++ [0x0a] ++ 0 :: rest).length = size := by
  obtain ⟨l₁, hpush, hl₁⟩ := h.push (by omega) 0x0a
  have hlength : (s ++ [(0x0a : Byte)]).length = s.length + 1 := List.length_append
  refine ⟨_, by rw [Line.finish, hpush, Option.bind_eq_bind, Option.bind_some,
    hl₁.set (by omega)]; rfl, ?_⟩
  rw [List.length_append, List.length_cons, List.length_replicate]
  omega

/-- A byte as two digits and a space. -/
def dumped (b : Byte) : List Byte := [hexDigit (b >>> 4 &&& 0xF), hexDigit (b &&& 0xF), 0x20]

/-- With `pos` below 93, the loop goes on for as many bytes as begin below 90. -/
theorem dumpLoop_run {data : List Byte} {is : List Nat} (his : ∀ i ∈ is, i < data.length)
    (h : l.Holds 100 s) (hs : s.length ≤ 92) :
    ∃ l', dumpLoop data is l = some l' ∧
      l'.Holds 100
        (s ++ (is.take ((92 - s.length) / 3)).flatMap fun i => dumped (data.getD i 0)) := by
  induction is generalizing l s with
  | nil => exact ⟨l, rfl, by rwa [List.take_nil, List.flatMap_nil, List.append_nil]⟩
  | cons i is ih =>
    obtain ⟨hi, his⟩ := List.forall_mem_cons.mp his
    rw [dumpLoop]
    by_cases hfull : l.pos ≥ 90
    · refine ⟨l, if_pos hfull, ?_⟩
      rw [h.pos] at hfull
      rwa [show (92 - s.length) / 3 = 0 by omega, List.take_zero, List.flatMap_nil,
        List.append_nil]
    · rw [if_neg hfull]
      rw [h.pos, Nat.not_le] at hfull
      obtain ⟨l₁, hpush₁, hl₁⟩ := h.push (by omega) (hexDigit (data[i] >>> 4 &&& 0xF))
      obtain ⟨l₂, hpush₂, hl₂⟩ := hl₁.push
        (by rw [List.length_append, List.length_singleton]; omega) (hexDigit (data[i] &&& 0xF))
      obtain ⟨l₃, hpush₃, hl₃⟩ := hl₂.push
        (by simp only [List.length_append, List.length_singleton]; omega) 0x20
      have hbyte : s ++ [hexDigit (data[i] >>> 4 &&& 0xF)] ++ [hexDigit (data[i] &&& 0xF)] ++
          [0x20] = s ++ dumped (data.getD i 0) := by
        rw [← List.getElem_eq_getD (h := hi), List.append_assoc, List.append_assoc]
        rfl
      rw [hbyte] at hl₃
      have hlength : (s ++ dumped (data.getD i 0)).length = s.length + 3 := List.length_append
      obtain ⟨l₄, hrun, hl₄⟩ := ih his hl₃ (by omega)
      refine ⟨l₄, ?_, ?_⟩
      · simp only [List.getElem?_eq_getElem hi, Option.bind_eq_bind, Option.bind_some, hpush₁,
          hpush₂, hpush₃, hrun]
      · have hnext : (92 - s.length) / 3 = (92 - (s ++ dumped (data.getD i 0)).length) / 3 + 1 := by
          omega
        rwa [hnext, List.take_succ_cons, List.flatMap_cons, ← List.append_assoc]

end

/-- `0` to `9` and `A` to `F`. -/
def IsUpperHex (c : Byte) : Prop := (0x30 ≤ c ∧ c ≤ 0x39) ∨ (0x41 ≤ c ∧ c ≤ 0x46)

instance (c : Byte) : Decidable (IsUpperHex c) := inferInstanceAs (Decidable (_ ∨ _))

theorem hexDigit_ofNat : ∀ d < 16, IsUpperHex (hexDigit (BitVec.ofNat 8 d)) ∧
    digitOf 16 (hexDigit (BitVec.ofNat 8 d)) = some d := by
  decide

theorem ne_zero_of_isUpperHex : ∀ c : Byte, IsUpperHex c → c ≠ 0 := by
  decide

/-- The 16 digits that `log_hex` writes. -/
def hexDigits (value : BitVec 64) : List Byte :=
  (List.range 16).reverse.map fun i => hexDigit (nibble value i)

theorem nibble_eq (value : BitVec 64) (i : Nat) :
    nibble value i = BitVec.ofNat 8 (value.toNat / 16 ^ i % 16) := by
  have hmask : (value >>> (i * 4) &&& 0xF).toNat = value.toNat / 16 ^ i % 16 := by
    rw [BitVec.toNat_and, BitVec.toNat_ushiftRight, Nat.shiftRight_eq_div_pow, Nat.mul_comm,
      pow_mul]
    exact Nat.and_two_pow_sub_one_eq_mod _ 4
  refine BitVec.eq_of_toNat_eq ?_
  rw [nibble, BitVec.toNat_setWidth, hmask, BitVec.toNat_ofNat]

/-- The digits are those of the value, zeros in front included. -/
theorem hexDigits_eq (value : BitVec 64) :
    hexDigits value = ((List.range 16).reverse.map fun i => value.toNat / 16 ^ i % 16).map
      fun d => hexDigit (BitVec.ofNat 8 d) := by
  rw [hexDigits, List.map_map]
  exact List.map_congr_left fun i _ => congrArg hexDigit (nibble_eq value i)

theorem isUpperHex_of_mem {value : BitVec 64} {c : Byte} (hc : c ∈ hexDigits value) :
    IsUpperHex c := by
  rw [hexDigits, List.mem_map] at hc
  obtain ⟨i, -, rfl⟩ := hc
  rw [nibble_eq]
  exact (hexDigit_ofNat _ (Nat.mod_lt _ (by decide))).1

theorem readNat_hexDigits (value : BitVec 64) :
    readNat 16 (hexDigits value) = some value.toNat := by
  have hlt : value.toNat < 16 ^ 16 := value.isLt
  rw [hexDigits_eq, readNat_map fun d hd => (hexDigit_ofNat d hd).2, value_map_range,
    Nat.mod_eq_of_lt hlt]
  · exact List.cons_ne_nil _ _
  · intro d hd
    obtain ⟨i, -, rfl⟩ := List.mem_map.mp hd
    exact Nat.mod_lt _ (by decide)

theorem zero_not_mem_copied (limit : Nat) (bs : List Byte) : 0#8 ∉ copied limit bs := by
  intro hmem
  have hkept := List.mem_takeWhile_imp (List.mem_of_mem_take hmem)
  exact absurd rfl (of_decide_eq_true hkept)

theorem length_copied_le (limit : Nat) (bs : List Byte) : (copied limit bs).length ≤ limit :=
  List.length_take_le _ _

theorem zero_not_mem_dumped (b : Byte) : 0#8 ∉ dumped b := by
  have hdigit : ∀ n : Byte, hexDigit (n &&& 0xF) ≠ 0 := by decide
  rw [dumped, List.mem_cons, List.mem_cons, List.mem_singleton, not_or, not_or]
  exact ⟨(hdigit _).symm, (hdigit _).symm, by decide⟩

/-- A buffer of this size with a string in it. -/
structure IsString (size : Nat) (buf text : List Byte) : Prop where
  length : buf.length = size
  noZero : 0#8 ∉ text
  ended : ∃ rest, buf = text ++ 0 :: rest

theorem logHex_run (prefixBytes : List Byte) (value : BitVec 64) :
    ∃ buf, logHex prefixBytes value = some buf ∧
      IsString 80 buf (copied 60 prefixBytes ++ [0x30, 0x78] ++ hexDigits value ++ [0x0a]) := by
  obtain ⟨l₁, hcopy, hl₁⟩ := copyPrefix_run (by decide : 60 ≤ 80) prefixBytes (holds_new 80)
  have hcopied := length_copied_le 60 prefixBytes
  rw [List.nil_append, List.length_nil, Nat.sub_zero] at hl₁
  obtain ⟨l₂, hpush₂, hl₂⟩ := hl₁.push (by omega) 0x30
  obtain ⟨l₃, hpush₃, hl₃⟩ :=
    hl₂.push (by rw [List.length_append, List.length_singleton]; omega) 0x78
  rw [List.append_assoc, List.singleton_append] at hl₃
  have hlength₃ : (copied 60 prefixBytes ++ [0x30, 0x78]).length =
      (copied 60 prefixBytes).length + 2 := List.length_append
  obtain ⟨l₄, hdigits, hl₄⟩ := @Line.Holds.foldlM 80 l₃ _ _ (fun i => hexDigit (nibble value i))
    (List.range 16).reverse hl₃ (by rw [List.length_reverse, List.length_range]; omega)
  rw [← hexDigits] at hl₄
  have hlength₄ : (copied 60 prefixBytes ++ [0x30, 0x78] ++ hexDigits value).length =
      (copied 60 prefixBytes).length + 2 + 16 :=
    List.length_append.trans (congrArg (· + 16) hlength₃)
  obtain ⟨rest, hfinish, hlength⟩ := Line.Holds.finish hl₄ (by omega)
  refine ⟨_, ?_, hlength, ?_, rest, rfl⟩
  · simp only [logHex, hcopy, Option.bind_eq_bind, Option.bind_some, hpush₂, hpush₃, hdigits,
      hfinish]
  · have hzero : 0#8 ∉ hexDigits value := fun h0 =>
      ne_zero_of_isUpperHex 0 (isUpperHex_of_mem h0) rfl
    simp only [List.mem_append, not_or]
    exact ⟨⟨⟨zero_not_mem_copied 60 prefixBytes, by decide⟩, hzero⟩, by decide⟩

theorem length_flatMap_dumped (bs : List Byte) : (bs.flatMap dumped).length = 3 * bs.length := by
  induction bs with
  | nil => rfl
  | cons b bs ih =>
    rw [List.flatMap_cons, List.length_append, ih, List.length_cons, dumped]
    simp only [List.length_cons, List.length_nil]
    omega

/-- The bytes at the first indices are the first bytes. -/
theorem flatMap_range (data : List Byte) (n : Nat) :
    (List.range (min data.length n)).flatMap (fun i => dumped (data.getD i 0)) =
      (data.take n).flatMap dumped := by
  have hbytes : data.take n = (List.range (min data.length n)).map fun i => data.getD i 0 := by
    refine List.ext_getElem (by simp [Nat.min_comm]) fun i hi _ => ?_
    rw [List.length_take] at hi
    rw [List.getElem_take, List.getElem_map, List.getElem_range, ← List.getElem_eq_getD]
  rw [hbytes, List.flatMap_map]

/-- How many bytes `log_bytes` has room for. -/
def dumpRoom (prefixBytes : List Byte) : Nat := (92 - (copied 40 prefixBytes).length) / 3

theorem logBytes_run (prefixBytes data : List Byte) (maxLen : Nat) :
    ∃ buf, logBytes prefixBytes data maxLen = some buf ∧
      IsString 100 buf (copied 40 prefixBytes ++
        (data.take (min maxLen (dumpRoom prefixBytes))).flatMap dumped ++ [0x0a]) := by
  obtain ⟨l₁, hcopy, hl₁⟩ := copyPrefix_run (by decide : 40 ≤ 100) prefixBytes (holds_new 100)
  have hcopied := length_copied_le 40 prefixBytes
  rw [List.nil_append, List.length_nil, Nat.sub_zero] at hl₁
  have hrange : ∀ i ∈ List.range (min data.length maxLen), i < data.length := fun i hi =>
    (List.mem_range.mp hi).trans_le (Nat.min_le_left _ _)
  obtain ⟨l₂, hdump, hl₂⟩ := dumpLoop_run hrange hl₁ (by omega)
  have htake : (List.range (min data.length maxLen)).take
      ((92 - (copied 40 prefixBytes).length) / 3) =
        List.range (min data.length (min maxLen (dumpRoom prefixBytes))) := by
    rw [List.take_range, dumpRoom]
    congr 1
    omega
  rw [htake, flatMap_range] at hl₂
  have hlength : (copied 40 prefixBytes ++
      (data.take (min maxLen (dumpRoom prefixBytes))).flatMap dumped).length ≤ 92 := by
    have hdumped := length_flatMap_dumped (data.take (min maxLen (dumpRoom prefixBytes)))
    have htaken := List.length_take_le (min maxLen (dumpRoom prefixBytes)) data
    rw [dumpRoom] at htaken
    rw [List.length_append, hdumped, dumpRoom]
    omega
  obtain ⟨rest, hfinish, hsize⟩ := Line.Holds.finish hl₂ (by omega)
  refine ⟨_, ?_, hsize, ?_, rest, rfl⟩
  · simp only [logBytes, hcopy, Option.bind_eq_bind, Option.bind_some, hdump, hfinish]
  · simp only [List.mem_append, List.mem_flatMap, not_or, not_exists, not_and]
    exact ⟨⟨zero_not_mem_copied 40 prefixBytes, fun b _ => zero_not_mem_dumped b⟩, by decide⟩

/-- For every prefix, value, data and limit, no index is outside of a buffer, and what is passed on
is a string: that of `log_hex` the prefix, `0x` and the value in 16 digits, at the end of a line. -/
theorem log_strings (prefixBytes data : List Byte) (value : BitVec 64) (maxLen : Nat) :
    (∃ buf digits, logHex prefixBytes value = some buf ∧
      IsString 80 buf
        ((prefixBytes.takeWhile (· ≠ 0)).take 60 ++ [0x30, 0x78] ++ digits ++ [0x0a]) ∧
      digits.length = 16 ∧ (∀ c ∈ digits, IsUpperHex c) ∧
      readNat 16 digits = some value.toNat) ∧
    ∃ buf text, logBytes prefixBytes data maxLen = some buf ∧ IsString 100 buf text := by
  obtain ⟨hexBuf, hhex, hstring⟩ := logHex_run prefixBytes value
  obtain ⟨dumpBuf, hdump, hdumpString⟩ := logBytes_run prefixBytes data maxLen
  refine ⟨⟨hexBuf, hexDigits value, hhex, hstring, ?_, fun c => isUpperHex_of_mem,
    readNat_hexDigits value⟩, dumpBuf, _, hdump, hdumpString⟩
  rw [hexDigits, List.length_map, List.length_reverse, List.length_range]

end Sylphia.KernelApi
