import Mathlib.Data.Fintype.Option
import Sylphia.Core.Numeral
import Sylphia.Screen.Console

/-!
# Colours by escape sequences

A sequence sets the colours with its parameters one after the other. A parameter is collected up
to its 31st digit and computed in 32 bits, so a long one can be taken for another.
-/

namespace Sylphia.Screen

open Bytes Numeral

/-- `ESC [ p1 ; ... ; pk m`. -/
def sequence (ps : List (List Byte)) : List Byte :=
  0x1b :: 0x5b :: (List.intercalate [0x3b] ps ++ [0x6d])

/-- The number that a parameter stands for. -/
def paramNumber (p : List Byte) : Nat := value 10 (p.map fun d => d.toNat - 0x30)

/-- The number of its first 31 digits, modulo 2^32. -/
def readNumber (p : List Byte) : Nat := paramNumber (p.take 31) % 2 ^ 32

/-- What a number sets of the foreground (`base` is 30) or of the background (40): the default or
one of the colours. -/
def setting (base n : Nat) : Option (Option (Fin 8)) :=
  if n = 0 then some none
  else if h : base ≤ n ∧ n ≤ base + 7 then some (some ⟨n - base, by omega⟩)
  else none

/-- The last that is set by numbers one after the other. -/
def lastSetting (base : Nat) (ns : List Nat) : Option (Option (Fin 8)) :=
  (ns.filterMap (setting base)).getLast?

/-- The colour that a setting makes of another. -/
def colourOf (default current : BitVec 32) : Option (Option (Fin 8)) → BitVec 32
  | none => current
  | some none => default
  | some (some i) => kAnsiColors.getD i 0

namespace Console

/-- The colours after applying numbers in order. -/
def coloursAfter (c : Console) (ns : List Nat) : BitVec 32 × BitVec 32 :=
  ns.foldl (fun colours n =>
    (colourOf c.defaultFgColor colours.1 (setting 30 n),
      colourOf c.defaultBgColor colours.2 (setting 40 n))) (c.fgColor, c.bgColor)

/-- A sequence draws nothing, leaves the cursor where it is, ends in `kNormal`, and sets the
colours. -/
structure Obeys (font : Font) (c : Console) (ps : List (List Byte)) : Prop where
  pixels : (c.putString font (sequence ps)).pixels = c.pixels
  cursorRow : (c.putString font (sequence ps)).cursorRow = c.cursorRow
  cursorColumn : (c.putString font (sequence ps)).cursorColumn = c.cursorColumn
  state : (c.putString font (sequence ps)).state = .normal
  colours : ((c.putString font (sequence ps)).fgColor, (c.putString font (sequence ps)).bgColor) =
    c.coloursAfter (ps.map paramNumber)

/-- The console while a sequence is read. -/
def reading (c : Console) (state : State) (escBuf : Buffer) (escBufIdx : Nat) : Console :=
  { c with state := state, escBuf := escBuf, escBufIdx := escBufIdx }

section

variable {c : Console} {state : State} {buf : Buffer} {idx : Nat} {ch : Byte}
  {p : List Byte}

theorem applyParam_reading (param : Int) :
    (c.reading state buf idx).applyParam param = (c.applyParam param).reading state buf idx := by
  rw [applyParam, applyParam]
  split
  · rfl
  · split
    · rfl
    · split <;> rfl

theorem cursorColumn_lt_of_screen {c' : Console} (h : c.cursorColumn < c.columns)
    (hscreen : c'.screen = c.screen) : c'.cursorColumn < c'.columns := by
  simp only [screen, Prod.mk.injEq] at hscreen
  obtain ⟨-, -, -, hcolumns, -, hcolumn⟩ := hscreen
  rw [hcolumns, hcolumn]
  exact h

/-- Within a sequence a character goes to `ProcessEscapeSequence` alone. -/
theorem putChar_of_ne_normal (font : Font) (h : c.cursorColumn < c.columns)
    (hstate : c.state ≠ .normal) :
    c.putChar font ch = c.processEscapeSequence ch := by
  have hlt := cursorColumn_lt_of_screen h (screen_processEscapeSequence c ch)
  rw [putChar, if_pos hstate]
  exact if_neg (Int.not_le.mpr hlt)

theorem putChar_reading (font : Font) (h : c.cursorColumn < c.columns) (hstate : state ≠ .normal) :
    (c.reading state buf idx).putChar font ch =
      (c.reading state buf idx).processEscapeSequence ch :=
  putChar_of_ne_normal font h hstate

theorem processEscapeSequence_param (c : Console) (buf : Buffer) (idx : Nat) (ch : Byte) :
    (c.reading .param buf idx).processEscapeSequence ch =
      if isDigit ch then (c.reading .param buf idx).pushDigit ch
      else if ch = 0x3b then { (c.reading .param buf idx).endParam with escBufIdx := 0 }
      else if ch = 0x6d then { (c.reading .param buf idx).endParam with state := .normal }
      else { c.reading .param buf idx with state := .normal } := rfl

/-- `esc_buf_` keeps the first 31 digits. -/
theorem pushDigit_reading (hbuf : slice buf 0 idx = p.take 31) :
    ∃ buf' idx', (c.reading state buf idx).pushDigit ch = c.reading state buf' idx' ∧
      slice buf' 0 idx' = (p ++ [ch]).take 31 := by
  have hidx := congrArg List.length hbuf
  rw [length_slice, List.length_take] at hidx
  by_cases hroom : idx < 31
  · refine ⟨splice buf idx [ch], idx + 1, if_pos hroom, ?_⟩
    rw [slice_push, hbuf, List.take_of_length_le (by omega),
      List.take_of_length_le (by rw [List.length_append, List.length_singleton]; omega)]
  · refine ⟨buf, idx, if_neg hroom, ?_⟩
    rw [hbuf, List.take_append_of_le_length (by omega)]

theorem putChar_digit (font : Font) (h : c.cursorColumn < c.columns)
    (hstate : state = .bracket ∨ state = .param) (hdigit : isDigit ch) :
    (c.reading state buf idx).putChar font ch = (c.reading .param buf idx).pushDigit ch := by
  obtain rfl | rfl := hstate
  · rw [putChar_reading font h (by decide)]
    exact if_pos hdigit
  · rw [putChar_reading font h (by decide)]
    exact if_pos hdigit

/-- Digits behind those that were collected. -/
theorem putString_digits (font : Font) (h : c.cursorColumn < c.columns) {digits : List Byte}
    (hdigits : ∀ d ∈ digits, isDigit d) (hbuf : slice buf 0 idx = p.take 31) :
    ∃ buf' idx', (c.reading .param buf idx).putString font digits = c.reading .param buf' idx' ∧
      slice buf' 0 idx' = (p ++ digits).take 31 := by
  induction digits generalizing buf idx p with
  | nil => exact ⟨buf, idx, rfl, by rw [List.append_nil, hbuf]⟩
  | cons d digits ih =>
    obtain ⟨hd, hrest⟩ := List.forall_mem_cons.mp hdigits
    obtain ⟨buf₁, idx₁, hpush, hbuf₁⟩ := @pushDigit_reading c .param buf idx d p hbuf
    obtain ⟨buf₂, idx₂, hrun, hbuf₂⟩ := ih hrest hbuf₁
    refine ⟨buf₂, idx₂, ?_, by rw [hbuf₂, List.append_assoc]; rfl⟩
    rw [← hrun, ← hpush, ← putChar_digit font h (.inr rfl) hd]
    rfl

theorem putString_param (font : Font) (buf : Buffer) (h : c.cursorColumn < c.columns)
    (hstate : state = .bracket ∨ state = .param) (hne : p ≠ []) (hdigits : ∀ d ∈ p, isDigit d) :
    ∃ buf' idx', (c.reading state buf 0).putString font p = c.reading .param buf' idx' ∧
      slice buf' 0 idx' = p.take 31 := by
  cases p with
  | nil => exact absurd rfl hne
  | cons d digits =>
    obtain ⟨hd, hrest⟩ := List.forall_mem_cons.mp hdigits
    obtain ⟨buf₁, idx₁, hpush, hbuf₁⟩ := @pushDigit_reading c .param buf 0 d [] rfl
    obtain ⟨buf₂, idx₂, hrun, hbuf₂⟩ := putString_digits font h hrest hbuf₁
    refine ⟨buf₂, idx₂, ?_, hbuf₂⟩
    rw [← hrun, ← hpush, ← putChar_digit font h hstate hd]
    rfl

theorem endParam_reading (hbuf : slice buf 0 idx = p.take 31) (hdigits : ∀ d ∈ p, isDigit d) :
    (c.reading state buf idx).endParam =
      (c.applyParam (paramValue (p.take 31)).toInt).reading state (splice buf idx [0]) idx := by
  have hidx := congrArg List.length hbuf
  rw [length_slice, List.length_take] at hidx
  have hzero : 0#8 ∉ slice buf 0 idx := by
    rw [hbuf]
    intro hmem
    exact absurd (hdigits _ (List.mem_of_mem_take hmem)) (by decide)
  have hread : cstring (splice buf idx [0]) 0 escBufSize = p.take 31 := by
    rw [(stringAt_terminate hzero).cstring_eq, hbuf]
    rw [length_slice, escBufSize]
    omega
  rw [endParam, executeAnsiCommand]
  simp only [reading] at hread ⊢
  rw [hread]
  exact applyParam_reading _

theorem putString_append (font : Font) (c : Console) (s t : List Byte) :
    c.putString font (s ++ t) = (c.putString font s).putString font t := List.foldl_append

/-- What a parameter is executed with. -/
def execParam (c : Console) (p : List Byte) : Console :=
  c.applyParam (paramValue (p.take 31)).toInt

theorem screen_execParam (c : Console) (p : List Byte) : (c.execParam p).screen = c.screen :=
  screen_applyParam c _

theorem putChar_semicolon (font : Font) (h : c.cursorColumn < c.columns)
    (hbuf : slice buf 0 idx = p.take 31) (hdigits : ∀ d ∈ p, isDigit d) :
    (c.reading .param buf idx).putChar font 0x3b =
      (c.execParam p).reading .param (splice buf idx [0]) 0 := by
  have hdigit : ¬ isDigit 0x3b := by decide
  rw [putChar_reading font h (by decide), processEscapeSequence_param, if_neg hdigit, if_pos rfl,
    endParam_reading hbuf hdigits]
  rfl

theorem putChar_m (font : Font) (h : c.cursorColumn < c.columns)
    (hbuf : slice buf 0 idx = p.take 31) (hdigits : ∀ d ∈ p, isDigit d) :
    (c.reading .param buf idx).putChar font 0x6d =
      (c.execParam p).reading .normal (splice buf idx [0]) idx := by
  have hdigit : ¬ isDigit 0x6d := by decide
  have hsemicolon : ¬ 0x6d = (0x3b : Byte) := by decide
  rw [putChar_reading font h (by decide), processEscapeSequence_param, if_neg hdigit,
    if_neg hsemicolon, if_pos rfl, endParam_reading hbuf hdigits]
  rfl

/-- The parameters are executed one after the other. -/
theorem putString_params (font : Font) {ps : List (List Byte)} (h : c.cursorColumn < c.columns)
    (hstate : state = .bracket ∨ state = .param) (hne : ps ≠ [])
    (hps : ∀ p ∈ ps, p ≠ [] ∧ ∀ d ∈ p, isDigit d) :
    ∃ buf' idx', (c.reading state buf 0).putString font (List.intercalate [0x3b] ps ++ [0x6d]) =
      (ps.foldl execParam c).reading .normal buf' idx' := by
  induction ps generalizing c state buf with
  | nil => exact absurd rfl hne
  | cons p ps ih =>
    obtain ⟨⟨hp, hdigits⟩, hrest⟩ := List.forall_mem_cons.mp hps
    obtain ⟨buf₁, idx₁, hrun, hbuf⟩ := putString_param font buf h hstate hp hdigits
    cases ps with
    | nil =>
      refine ⟨splice buf₁ idx₁ [0], idx₁, ?_⟩
      rw [List.intercalate_singleton, putString_append, hrun]
      exact putChar_m font h hbuf hdigits
    | cons q ps =>
      have hnext := cursorColumn_lt_of_screen h (screen_execParam c p)
      obtain ⟨buf₂, idx₂, hrest⟩ :=
        @ih (c.execParam p) .param (splice buf₁ idx₁ [0]) hnext (.inr rfl)
          (List.cons_ne_nil q ps) hrest
      refine ⟨buf₂, idx₂, ?_⟩
      rw [List.intercalate_cons_cons, List.append_assoc, List.append_assoc, putString_append, hrun,
        putString_append, List.foldl_cons, ← hrest, ← putChar_semicolon font h hbuf hdigits]
      rfl

private theorem digit_word : ∀ d : Byte, isDigit d →
    d.signExtend 32 - 0x30 = BitVec.ofNat 32 (d.toNat - 0x30) := by decide

theorem paramValue_eq (hdigits : ∀ d ∈ p, isDigit d) :
    paramValue p = BitVec.ofNat 32 (paramNumber p) := by
  rw [paramNumber, value, ← foldl_ofNat, List.foldl_map, paramValue]
  refine List.foldl_ext _ _ _ fun n d hd => ?_
  rw [digit_word d (hdigits d hd)]
  rfl

theorem toNat_paramValue (hdigits : ∀ d ∈ p, isDigit d) :
    (paramValue p).toNat = paramNumber p % 2 ^ 32 := by
  rw [paramValue_eq hdigits, BitVec.toNat_ofNat]

/-- A value of `param` sets what its number sets: one from 2^31 on is negative and sets nothing. -/
theorem colours_applyParam (c : Console) (param : BitVec 32) :
    (c.applyParam param.toInt).fgColor =
        colourOf c.defaultFgColor c.fgColor (setting 30 param.toNat) ∧
      (c.applyParam param.toInt).bgColor =
        colourOf c.defaultBgColor c.bgColor (setting 40 param.toNat) := by
  have hsign := BitVec.toInt_eq_toNat_cond param
  have hlt := param.isLt
  generalize param.toInt = value at hsign ⊢
  generalize param.toNat = n at hsign hlt ⊢
  rw [applyParam]
  split
  · next hreset =>
    obtain rfl : n = 0 := by omega
    exact ⟨rfl, rfl⟩
  · split
    · next hreset hfore =>
      have hindex : (value - 30).toNat = n - 30 := by omega
      rw [setting, setting, if_neg (by omega), if_neg (by omega), dif_pos (by omega),
        dif_neg (by omega), hindex]
      exact ⟨rfl, rfl⟩
    · split
      · next hreset hfore hback =>
        have hindex : (value - 40).toNat = n - 40 := by omega
        rw [setting, setting, if_neg (by omega), if_neg (by omega), dif_neg (by omega),
          dif_pos (by omega), hindex]
        exact ⟨rfl, rfl⟩
      · next hreset hfore hback =>
        rw [setting, setting, if_neg (by omega), if_neg (by omega), dif_neg (by omega),
          dif_neg (by omega)]
        exact ⟨rfl, rfl⟩

theorem defaults_applyParam (c : Console) (param : Int) :
    (c.applyParam param).defaultFgColor = c.defaultFgColor ∧
      (c.applyParam param).defaultBgColor = c.defaultBgColor := by
  rw [applyParam]
  split
  · exact ⟨rfl, rfl⟩
  · split
    · exact ⟨rfl, rfl⟩
    · split <;> exact ⟨rfl, rfl⟩

/-- What the executed parameters make of the colours. -/
theorem colours_execParams {ps : List (List Byte)} (hps : ∀ p ∈ ps, ∀ d ∈ p, isDigit d) :
    ((ps.foldl execParam c).fgColor, (ps.foldl execParam c).bgColor) =
      c.coloursAfter (ps.map readNumber) := by
  induction ps generalizing c with
  | nil => rfl
  | cons p ps ih =>
    obtain ⟨hdigits, hrest⟩ := List.forall_mem_cons.mp hps
    have htake : ∀ d ∈ p.take 31, isDigit d := fun d hd => hdigits d (List.mem_of_mem_take hd)
    obtain ⟨hfg, hbg⟩ := colours_applyParam c (paramValue (p.take 31))
    obtain ⟨hdfg, hdbg⟩ := defaults_applyParam c (paramValue (p.take 31)).toInt
    rw [toNat_paramValue htake] at hfg hbg
    rw [List.foldl_cons, ih hrest, coloursAfter, coloursAfter, List.map_cons, List.foldl_cons,
      execParam, hdfg, hdbg, hfg, hbg]
    rfl

theorem lastSetting_concat (base : Nat) (ns : List Nat) (n : Nat) :
    lastSetting base (ns ++ [n]) = (setting base n <|> lastSetting base ns) := by
  rw [lastSetting, List.filterMap_append, List.getLast?_append, lastSetting]
  cases h : setting base n <;> simp [h]

theorem colourOf_orElse (default current : BitVec 32) (s t : Option (Option (Fin 8))) :
    colourOf default current (s <|> t) = colourOf default (colourOf default current t) s := by
  cases s with
  | none => cases t <;> rfl
  | some s => cases s <;> rfl

/-- Only the last setting matters. -/
theorem coloursAfter_eq (c : Console) (ns : List Nat) :
    c.coloursAfter ns = (colourOf c.defaultFgColor c.fgColor (lastSetting 30 ns),
      colourOf c.defaultBgColor c.bgColor (lastSetting 40 ns)) := by
  induction ns using List.reverseRecOn with
  | nil => rfl
  | append_singleton ns n ih =>
    rw [lastSetting_concat, lastSetting_concat, colourOf_orElse, colourOf_orElse, coloursAfter,
      List.foldl_concat]
    rw [coloursAfter] at ih
    rw [ih]

end

theorem putChar_esc {c : Console} (font : Font) (hstate : c.state = .normal)
    (hcolumn : c.cursorColumn < c.columns) :
    c.putChar font 0x1b = c.reading .esc c.escBuf c.escBufIdx := by
  rw [putChar, if_neg (not_not_intro hstate), print, if_pos rfl]
  exact if_neg (Int.not_le.mpr hcolumn)

theorem putChar_bracket {c : Console} (font : Font) (hcolumn : c.cursorColumn < c.columns)
    (buf : Buffer) (idx : Nat) :
    (c.reading .esc buf idx).putChar font 0x5b = c.reading .bracket buf 0 := by
  rw [putChar_reading font hcolumn (by decide)]
  rfl

theorem screen_execParams (c : Console) (ps : List (List Byte)) :
    (ps.foldl execParam c).screen = c.screen := by
  induction ps generalizing c with
  | nil => rfl
  | cons p ps ih => exact (ih (c.execParam p)).trans (screen_execParam c p)

/-- A sequence executes its parameters and leaves the rest of the console as it was. -/
theorem putString_sequence {c : Console} (font : Font) {ps : List (List Byte)} (hne : ps ≠ [])
    (hps : ∀ p ∈ ps, p ≠ [] ∧ ∀ d ∈ p, isDigit d) (hstate : c.state = .normal)
    (hcolumn : c.cursorColumn < c.columns) :
    ∃ buf idx, c.putString font (sequence ps) =
      (ps.foldl execParam c).reading .normal buf idx := by
  obtain ⟨buf, idx, hrun⟩ :=
    @putString_params c .bracket c.escBuf font ps hcolumn (.inl rfl) hne hps
  refine ⟨buf, idx, ?_⟩
  rw [← hrun, ← putChar_bracket font hcolumn c.escBuf c.escBufIdx,
    ← putChar_esc font hstate hcolumn]
  rfl

/-- Everything but the colours is as it should be, and the colours are those of the numbers that
the code reads. -/
theorem obeys_iff_colours {c : Console} (font : Font) {ps : List (List Byte)} (hne : ps ≠ [])
    (hps : ∀ p ∈ ps, p ≠ [] ∧ ∀ d ∈ p, isDigit d) (hstate : c.state = .normal)
    (hcolumn : c.cursorColumn < c.columns) :
    Obeys font c ps ↔ c.coloursAfter (ps.map readNumber) = c.coloursAfter (ps.map paramNumber) := by
  obtain ⟨buf, idx, hrun⟩ := putString_sequence font hne hps hstate hcolumn
  have hcolours := colours_execParams (c := c) fun p hp => (hps p hp).2
  have hscreen := screen_execParams c ps
  simp only [screen, Prod.mk.injEq] at hscreen
  obtain ⟨-, hpixels, -, -, hrow, hcursor⟩ := hscreen
  rw [← hcolours]
  constructor
  · intro h
    have hfinal := h.colours
    rw [hrun] at hfinal
    exact hfinal
  · intro h
    refine ⟨?_, ?_, ?_, ?_, ?_⟩ <;> rw [hrun]
    · exact hpixels
    · exact hrow
    · exact hcursor
    · rfl
    · exact h

/-- A console whose colours are none of those that can be set. -/
def distinct : Console :=
  (create ⟨8, 16, 8⟩ 0x020202 0x020202 (fun _ => 0) fun _ => 0).setColor 0x010101 0x010101

theorem colourOf_injective : Function.Injective (colourOf 0x020202 0x010101) := by decide

/-- A sequence is obeyed in every state exactly when, for the foreground and for the background,
the last parameter that sets it is one and the same setting whether the parameters are taken as
numbers or by their first 31 digits in 32 bits. -/
theorem ansi_obeys_iff (font : Font) {ps : List (List Byte)} (hne : ps ≠ [])
    (hps : ∀ p ∈ ps, p ≠ [] ∧ ∀ d ∈ p, isDigit d) :
    (∀ c : Console, c.state = .normal → c.cursorColumn < c.columns → Obeys font c ps) ↔
      lastSetting 30 (ps.map readNumber) = lastSetting 30 (ps.map paramNumber) ∧
        lastSetting 40 (ps.map readNumber) = lastSetting 40 (ps.map paramNumber) := by
  constructor
  · intro h
    have hobeys := h distinct rfl (by decide)
    rw [obeys_iff_colours font hne hps rfl (by decide), coloursAfter_eq, coloursAfter_eq,
      Prod.mk.injEq] at hobeys
    exact ⟨colourOf_injective hobeys.1, colourOf_injective hobeys.2⟩
  · rintro ⟨hfore, hback⟩ c hstate hcolumn
    rw [obeys_iff_colours font hne hps hstate hcolumn, coloursAfter_eq, coloursAfter_eq, hfore,
      hback]

/-- Red on white. -/
theorem ansi_obeys_iff_red : Obeys (fun _ _ => 0) distinct [[0x33, 0x31], [0x34, 0x37]] :=
  (ansi_obeys_iff (fun _ _ => 0) (by decide) (by decide)).mpr ⟨by decide, by decide⟩ distinct rfl
    (by decide)

/-- `ESC [ 4294967326 m` sets the foreground to black, as 30 does. -/
theorem large_parameter_sets_colour : ¬ Obeys (fun _ _ => 0) distinct
    [[0x34, 0x32, 0x39, 0x34, 0x39, 0x36, 0x37, 0x33, 0x32, 0x36]] := by
  intro h
  exact absurd h.colours (by decide +kernel)

end Console

end Sylphia.Screen
