import Sylphia.Core.Terminated
import Sylphia.Screen.Graphics

/-!
# The console

`PutString` takes one character after the other: it draws, moves the cursor, scrolls, and collects
the parameters of an escape sequence in a buffer of 32 bytes.
-/

namespace Sylphia.Screen

open Bytes WriteLog Logged FrameBufferConfig

/-- `Console::State`. -/
inductive State
  | normal
  | esc
  | bracket
  | param
  deriving Repr, DecidableEq

/-- `Console`, with the frame buffer that it draws into. -/
structure Console where
  config : FrameBufferConfig
  fgColor : BitVec 32
  bgColor : BitVec 32
  cursorRow : Int
  cursorColumn : Int
  rows : Int
  columns : Int
  state : State
  escBuf : Buffer
  escBufIdx : Nat
  defaultFgColor : BitVec 32
  defaultBgColor : BitVec 32
  pixels : Pixels

/-- `kAnsiColors`. -/
def kAnsiColors : List (BitVec 32) :=
  [0x000000, 0xff0000, 0x00ff00, 0xffff00, 0x0000ff, 0xff00ff, 0x00ffff, 0xffffff]

namespace Console

/-- `sizeof(esc_buf_)`. -/
def escBufSize : Nat := 32

/-- The constructor, on the memory that it finds. -/
def create (config : FrameBufferConfig) (fgColor bgColor : BitVec 32) (escBuf : Buffer)
    (memory : BitVec 32 → BitVec 32) : Console where
  config := config
  fgColor := fgColor
  bgColor := bgColor
  cursorRow := 0
  cursorColumn := 0
  rows := (config.verticalResolution / 16).toInt
  columns := (config.horizontalResolution / 8).toInt
  state := .normal
  escBuf := escBuf
  escBufIdx := 0
  defaultFgColor := fgColor
  defaultBgColor := bgColor
  pixels := ⟨memory, []⟩

/-- `copy_height`. -/
def copyHeight (c : Console) : Int := (c.config.verticalResolution - 16).toInt

/-- The loops of `Refresh` that move the rows up. -/
def scroll (c : Console) : Pixels :=
  (List.range c.copyHeight.toNat).foldl (fun pixels (y : Nat) =>
    (List.range c.config.horizontalResolution.toNat).foldl (fun pixels (x : Nat) =>
      pixels.write (c.config.index y x) (pixels.store (c.config.index (y + 16) x))) pixels)
    c.pixels

/-- `Refresh`. -/
def refresh (c : Console) : Console :=
  { c with
    pixels := c.config.fillRectangle c.scroll 0 ((c.rows - 1) * 16)
      c.config.horizontalResolution.toInt 16 c.bgColor }

/-- `NewLine`. -/
def newLine (c : Console) : Console :=
  let c := { c with cursorColumn := 0 }
  if c.cursorRow < c.rows - 1 then { c with cursorRow := c.cursorRow + 1 } else c.refresh

/-- `param` in `ExecuteAnsiCommand`, whose sums are those of 32 bits. -/
def paramValue (digits : List Byte) : BitVec 32 :=
  digits.foldl (fun param c => param * 10 + (c.signExtend 32 - 0x30)) 0

/-- What `ExecuteAnsiCommand` does for a value of `param`. -/
def applyParam (c : Console) (param : Int) : Console :=
  if param = 0 then { c with fgColor := c.defaultFgColor, bgColor := c.defaultBgColor }
  else if 30 ≤ param ∧ param ≤ 37 then
    { c with fgColor := kAnsiColors.getD (param - 30).toNat 0 }
  else if 40 ≤ param ∧ param ≤ 47 then
    { c with bgColor := kAnsiColors.getD (param - 40).toNat 0 }
  else c

/-- `ExecuteAnsiCommand`, which reads `esc_buf_` up to its zero. -/
def executeAnsiCommand (c : Console) : Console :=
  c.applyParam (paramValue (cstring c.escBuf 0 escBufSize)).toInt

def isDigit (ch : Byte) : Prop := 0x30 ≤ ch.toInt ∧ ch.toInt ≤ 0x39

instance (ch : Byte) : Decidable (isDigit ch) := inferInstanceAs (Decidable (_ ∧ _))

/-- A digit goes into `esc_buf_` as long as there is room. -/
def pushDigit (c : Console) (ch : Byte) : Console :=
  if c.escBufIdx < escBufSize - 1 then
    { c with escBuf := splice c.escBuf c.escBufIdx [ch], escBufIdx := c.escBufIdx + 1 }
  else c

/-- The parameter ends, and is executed. -/
def endParam (c : Console) : Console :=
  { c with escBuf := splice c.escBuf c.escBufIdx [0] }.executeAnsiCommand

/-- `ProcessEscapeSequence`. -/
def processEscapeSequence (c : Console) (ch : Byte) : Console :=
  match c.state with
  | .esc =>
    if ch = 0x5b then { c with state := .bracket, escBufIdx := 0 } else { c with state := .normal }
  | .bracket =>
    if isDigit ch then { c with state := .param }.pushDigit ch
    else if ch = 0x6d then
      { { c with escBuf := splice c.escBuf 0 [0x30, 0] }.executeAnsiCommand with state := .normal }
    else { c with state := .normal }
  | .param =>
    if isDigit ch then c.pushDigit ch
    else if ch = 0x3b then { c.endParam with escBufIdx := 0 }
    else if ch = 0x6d then { c.endParam with state := .normal }
    else { c with state := .normal }
  | .normal => c

/-- A character that is not part of an escape sequence. -/
def print (font : Font) (c : Console) (ch : Byte) : Console :=
  if ch = 0x1b then { c with state := .esc }
  else if ch = 0x0a then c.newLine
  else if ch = 0x08 then
    if c.cursorColumn > 0 then
      let c := { c with cursorColumn := c.cursorColumn - 1 }
      { c with
        pixels := c.config.writeAscii font c.pixels (c.cursorColumn * 8) (c.cursorRow * 16) 0x20
          c.bgColor c.bgColor }
    else c
  else if c.cursorColumn < c.columns then
    { c with
      pixels := c.config.writeAscii font c.pixels (c.cursorColumn * 8) (c.cursorRow * 16) ch
        c.fgColor c.bgColor
      cursorColumn := c.cursorColumn + 1 }
  else c

/-- The body of the loop of `PutString`. -/
def putChar (font : Font) (c : Console) (ch : Byte) : Console :=
  let c := if c.state ≠ .normal then c.processEscapeSequence ch else c.print font ch
  if c.cursorColumn ≥ c.columns then c.newLine else c

/-- `PutString`, with the characters in front of the zero. -/
def putString (font : Font) (c : Console) (s : List Byte) : Console := s.foldl (putChar font) c

/-- `SetColor`. -/
def setColor (c : Console) (fgColor bgColor : BitVec 32) : Console :=
  { c with fgColor := fgColor, bgColor := bgColor }

/-- `Panic`. -/
def panic (c : Console) (fgColor bgColor : BitVec 32) : Console :=
  { c with
    fgColor := fgColor
    bgColor := bgColor
    pixels := c.config.fillRectangle c.pixels 0 0 c.config.horizontalResolution.toInt
      c.config.verticalResolution.toInt bgColor
    cursorRow := 0
    cursorColumn := 0 }

/-- The frame buffer, the size and the cursor. -/
def screen (c : Console) : FrameBufferConfig × Pixels × Int × Int × Int × Int :=
  (c.config, c.pixels, c.rows, c.columns, c.cursorRow, c.cursorColumn)

section

variable {c c' : Console} {ch : Byte} {font : Font}

theorem screen_applyParam (c : Console) (param : Int) : (c.applyParam param).screen = c.screen := by
  rw [applyParam]
  split
  · rfl
  · split
    · rfl
    · split <;> rfl

theorem escBufIdx_applyParam (c : Console) (param : Int) :
    (c.applyParam param).escBufIdx = c.escBufIdx := by
  rw [applyParam]
  split
  · rfl
  · split
    · rfl
    · split <;> rfl

theorem screen_executeAnsiCommand (c : Console) : c.executeAnsiCommand.screen = c.screen :=
  screen_applyParam c _

theorem escBufIdx_executeAnsiCommand (c : Console) :
    c.executeAnsiCommand.escBufIdx = c.escBufIdx :=
  escBufIdx_applyParam c _

theorem screen_with_state (c : Console) (state : State) :
    { c with state := state }.screen = c.screen := rfl

theorem screen_with_escBufIdx (c : Console) (i : Nat) :
    { c with escBufIdx := i }.screen = c.screen := rfl

theorem screen_pushDigit (c : Console) (ch : Byte) : (c.pushDigit ch).screen = c.screen := by
  rw [pushDigit]
  split <;> rfl

theorem screen_endParam (c : Console) : c.endParam.screen = c.screen :=
  screen_executeAnsiCommand { c with escBuf := splice c.escBuf c.escBufIdx [0] }

/-- An escape sequence does not touch the screen. -/
theorem screen_processEscapeSequence (c : Console) (ch : Byte) :
    (c.processEscapeSequence ch).screen = c.screen := by
  rw [processEscapeSequence]
  split
  · split <;> rfl
  · split
    · exact screen_pushDigit _ ch
    · split
      · rw [screen_with_state]
        exact screen_executeAnsiCommand { c with escBuf := splice c.escBuf 0 [0x30, 0] }
      · rfl
  · split
    · exact screen_pushDigit c ch
    · split
      · rw [screen_with_escBufIdx]
        exact screen_endParam c
      · split
        · rw [screen_with_state]
          exact screen_endParam c
        · rfl
  · rfl

/-! ## Bounds -/

/-- The console has the size of its frame buffer, and all but the column is in bounds. -/
structure Bounded (c : Console) : Prop where
  valid : c.config.Valid
  rows_eq : c.rows = (c.config.verticalResolution / 16).toInt
  columns_eq : c.columns = (c.config.horizontalResolution / 8).toInt
  row : 0 ≤ c.cursorRow ∧ c.cursorRow < c.rows
  escBufIdx : c.escBufIdx ≤ 31
  pixels : ∀ w ∈ c.pixels.log, c.config.InFrame w.1

/-- What holds after each character. -/
structure InBounds (c : Console) : Prop extends Bounded c where
  column : 0 ≤ c.cursorColumn ∧ c.cursorColumn < c.columns

theorem Bounded.congr (h : Bounded c) (hscreen : c'.screen = c.screen)
    (hidx : c'.escBufIdx ≤ 31) : Bounded c' := by
  simp only [screen, Prod.mk.injEq] at hscreen
  obtain ⟨hconfig, hpixels, hrows, hcolumns, hrow, -⟩ := hscreen
  refine ⟨?_, ?_, ?_, ?_, hidx, ?_⟩
  · rw [hconfig]
    exact h.valid
  · rw [hrows, hconfig]
    exact h.rows_eq
  · rw [hcolumns, hconfig]
    exact h.columns_eq
  · rw [hrow, hrows]
    exact h.row
  · rw [hpixels, hconfig]
    exact h.pixels

theorem InBounds.congr (h : InBounds c) (hscreen : c'.screen = c.screen)
    (hidx : c'.escBufIdx ≤ 31) : InBounds c' where
  toBounded := h.toBounded.congr hscreen hidx
  column := by
    simp only [screen, Prod.mk.injEq] at hscreen
    obtain ⟨-, -, -, hcolumns, -, hcolumn⟩ := hscreen
    rw [hcolumn, hcolumns]
    exact h.column

private theorem toInt_div_pos {x y : BitVec 32} (hy : 2 ≤ y.toNat) (h : y.toNat ≤ x.toNat) :
    0 < (x / y).toInt := by
  have hdiv : (x / y).toNat = x.toNat / y.toNat := BitVec.toNat_udiv
  have hpos : 0 < x.toNat / y.toNat := Nat.div_pos h (by omega)
  have hle : x.toNat / y.toNat ≤ x.toNat / 2 := Nat.div_le_div_left hy (by omega)
  have hlt := x.isLt
  rw [BitVec.toInt_eq_toNat_of_lt (by omega), hdiv]
  exact Int.natCast_pos.mpr hpos

theorem Bounded.rows_pos (h : Bounded c) : 0 < c.rows :=
  h.rows_eq ▸ toInt_div_pos (by decide) h.valid.vertical

theorem Bounded.columns_pos (h : Bounded c) : 0 < c.columns :=
  h.columns_eq ▸ toInt_div_pos (by decide) h.valid.horizontal

theorem toNat_copyHeight (hvalid : c.config.Valid) :
    c.copyHeight.toNat + 16 = c.config.verticalResolution.toNat := by
  have hheight := hvalid.verticalResolution_lt
  have hmin := hvalid.vertical
  have hsub : (c.config.verticalResolution - 16).toNat =
      c.config.verticalResolution.toNat - 16 := by
    rw [BitVec.toNat_sub_of_le]
    · rfl
    · exact hmin
  rw [copyHeight, BitVec.toInt_eq_toNat_of_lt (by omega), hsub, Int.toNat_natCast]
  omega

/-- Both pixels of a move are in the frame buffer. -/
theorem inFrame_scroll (hvalid : c.config.Valid) {y x : Nat} (hy : y < c.copyHeight.toNat)
    (hx : x < c.config.horizontalResolution.toNat) :
    c.config.InFrame (c.config.index y x) ∧ c.config.InFrame (c.config.index (y + 16) x) := by
  have hheight := toNat_copyHeight hvalid
  constructor
  · refine inFrame_index hvalid ?_ ?_
    · exact (toNat_ofInt_le y).trans_lt (by omega)
    · exact (toNat_ofInt_le x).trans_lt hx
  · refine inFrame_index hvalid ?_ ?_
    · exact (toNat_ofInt_le (y + 16)).trans_lt (by omega)
    · exact (toNat_ofInt_le x).trans_lt hx

theorem within_refresh (hvalid : c.config.Valid) :
    Logged.Within c.config.InFrame c.pixels c.refresh.pixels := by
  have hscroll : Logged.Within c.config.InFrame c.pixels c.scroll := by
    refine within_foldl (fun y hy pixels => ?_) c.pixels
    refine within_foldl (fun x hx pixels => ?_) pixels
    exact within_write pixels _
      (inFrame_scroll hvalid (List.mem_range.mp hy) (List.mem_range.mp hx)).1
  exact hscroll.trans (within_fillRectangle hvalid c.scroll _ _ _ _ _)

/-- Behind the last row the screen scrolls, so the cursor stays on it. -/
theorem Bounded.newLine (h : Bounded c) : InBounds c.newLine := by
  rw [Console.newLine]
  split
  · next hlast =>
    have hrow : 0 ≤ c.cursorRow ∧ c.cursorRow < c.rows - 1 := ⟨h.row.1, hlast⟩
    refine ⟨⟨h.valid, h.rows_eq, h.columns_eq, ?_, h.escBufIdx, h.pixels⟩, ?_⟩
    · dsimp only
      omega
    · exact ⟨Int.le_refl 0, h.columns_pos⟩
  · refine ⟨⟨h.valid, h.rows_eq, h.columns_eq, h.row, h.escBufIdx, ?_⟩, ?_⟩
    · exact (within_refresh (c := { c with cursorColumn := 0 }) h.valid).forall_log h.pixels
    · exact ⟨Int.le_refl 0, h.columns_pos⟩

theorem escBufIdx_pushDigit (h : c.escBufIdx ≤ 31) (ch : Byte) :
    (c.pushDigit ch).escBufIdx ≤ 31 := by
  rw [pushDigit]
  split
  · next hroom => exact Nat.lt_of_lt_of_le hroom (by decide)
  · exact h

theorem escBufIdx_endParam (c : Console) : c.endParam.escBufIdx = c.escBufIdx :=
  escBufIdx_executeAnsiCommand { c with escBuf := splice c.escBuf c.escBufIdx [0] }

theorem escBufIdx_processEscapeSequence (h : c.escBufIdx ≤ 31) (ch : Byte) :
    (c.processEscapeSequence ch).escBufIdx ≤ 31 := by
  rw [processEscapeSequence]
  split
  · split
    · exact Nat.zero_le 31
    · exact h
  · split
    · exact escBufIdx_pushDigit (c := { c with state := .param }) h ch
    · split
      · rw [escBufIdx_executeAnsiCommand { c with escBuf := splice c.escBuf 0 [0x30, 0] }]
        exact h
      · exact h
  · split
    · exact escBufIdx_pushDigit h ch
    · split
      · exact Nat.zero_le 31
      · split
        · exact (escBufIdx_endParam c).trans_le h
        · exact h
  · exact h

theorem within_writeAscii_log (h : Bounded c) (x y : Int) (ch : Byte)
    (fgColor bgColor : BitVec 32) :
    ∀ w ∈ (c.config.writeAscii font c.pixels x y ch fgColor bgColor).log, c.config.InFrame w.1 :=
  (within_writeAscii h.valid font c.pixels x y ch fgColor bgColor).forall_log h.pixels

/-- Printing leaves the column at most one behind the last. -/
theorem InBounds.print (h : InBounds c) (ch : Byte) :
    Bounded (c.print font ch) ∧ 0 ≤ (c.print font ch).cursorColumn := by
  have hcolumn := h.column.1
  rw [Console.print]
  split
  · exact ⟨h.toBounded.congr rfl h.escBufIdx, hcolumn⟩
  · split
    · exact ⟨h.toBounded.newLine.toBounded, h.toBounded.newLine.column.1⟩
    · split
      · split
        · next hpos =>
          refine ⟨⟨h.valid, h.rows_eq, h.columns_eq, h.row, h.escBufIdx, ?_⟩, by dsimp only; omega⟩
          exact within_writeAscii_log h.toBounded _ _ _ _ _
        · exact ⟨h.toBounded, hcolumn⟩
      · split
        · refine ⟨⟨h.valid, h.rows_eq, h.columns_eq, h.row, h.escBufIdx, ?_⟩, by dsimp only; omega⟩
          exact within_writeAscii_log h.toBounded _ _ _ _ _
        · exact ⟨h.toBounded, hcolumn⟩

theorem InBounds.putChar (h : InBounds c) (ch : Byte) : InBounds (c.putChar font ch) := by
  have hnext : Bounded (if c.state ≠ .normal then c.processEscapeSequence ch
      else c.print font ch) ∧ 0 ≤ (if c.state ≠ .normal then c.processEscapeSequence ch
        else c.print font ch).cursorColumn := by
    split
    · have hesc := h.congr (screen_processEscapeSequence c ch)
        (escBufIdx_processEscapeSequence h.escBufIdx ch)
      exact ⟨hesc.toBounded, hesc.column.1⟩
    · exact h.print ch
  rw [Console.putChar]
  generalize (if c.state ≠ .normal then c.processEscapeSequence ch
    else c.print font ch) = c' at hnext ⊢
  split
  · exact hnext.1.newLine
  · next hlast => exact ⟨hnext.1, hnext.2, Int.not_le.mp hlast⟩

theorem InBounds.putString (h : InBounds c) (s : List Byte) : InBounds (c.putString font s) := by
  induction s generalizing c with
  | nil => exact h
  | cons ch s ih => exact ih (h.putChar ch)

theorem InBounds.setColor (h : InBounds c) (fgColor bgColor : BitVec 32) :
    InBounds (c.setColor fgColor bgColor) := h.congr rfl h.escBufIdx

theorem InBounds.panic (h : InBounds c) (fgColor bgColor : BitVec 32) :
    InBounds (c.panic fgColor bgColor) := by
  refine ⟨⟨h.valid, h.rows_eq, h.columns_eq, ?_, h.escBufIdx, ?_⟩, ?_⟩
  · exact ⟨Int.le_refl 0, h.rows_pos⟩
  · exact (within_fillRectangle h.valid c.pixels _ _ _ _ _).forall_log h.pixels
  · exact ⟨Int.le_refl 0, h.columns_pos⟩

theorem inBounds_create {config : FrameBufferConfig} (hvalid : config.Valid)
    (fgColor bgColor : BitVec 32) (escBuf : Buffer) (memory : BitVec 32 → BitVec 32) :
    InBounds (create config fgColor bgColor escBuf memory) := by
  refine ⟨⟨hvalid, rfl, rfl, ?_, Nat.zero_le 31, ?_⟩, ?_⟩
  · exact ⟨Int.le_refl 0, toInt_div_pos (by decide) hvalid.vertical⟩
  · exact fun w hw => absurd hw List.not_mem_nil
  · exact ⟨Int.le_refl 0, toInt_div_pos (by decide) hvalid.horizontal⟩

end

/-- A call of the console. -/
inductive Call
  | putString (s : List Byte)
  | setColor (fgColor bgColor : BitVec 32)
  | panic (fgColor bgColor : BitVec 32)

def call (font : Font) (c : Console) : Call → Console
  | .putString s => c.putString font s
  | .setColor fgColor bgColor => c.setColor fgColor bgColor
  | .panic fgColor bgColor => c.panic fgColor bgColor

theorem InBounds.calls {c : Console} (h : InBounds c) (font : Font) (calls : List Call) :
    InBounds (calls.foldl (call font) c) := by
  induction calls generalizing c with
  | nil => exact h
  | cons next calls ih =>
    refine ih ?_
    cases next with
    | putString s => exact h.putString s
    | setColor fgColor bgColor => exact h.setColor fgColor bgColor
    | panic fgColor bgColor => exact h.panic fgColor bgColor

/-- On every frame buffer with room for a character, after any calls and any part of the string of
the next `PutString`, the cursor, the index into the buffer of the parameters and all pixels that
were written are in bounds. -/
theorem console_in_bounds {config : FrameBufferConfig} (hvalid : config.Valid) (font : Font)
    (fgColor bgColor : BitVec 32) (escBuf : Buffer) (memory : BitVec 32 → BitVec 32)
    (calls : List Call) (part : List Byte) :
    InBounds ((calls.foldl (call font) (create config fgColor bgColor escBuf memory)).putString
      font part) :=
  ((inBounds_create hvalid fgColor bgColor escBuf memory).calls font calls).putString part

/-- A sequence that is cut behind its parameter, on the smallest screen. -/
theorem console_in_bounds_small :
    InBounds ((create ⟨8, 16, 8⟩ 0xffffff 0 (fun _ => 0) fun _ => 0).putString (fun _ _ => 0)
      [0x61, 0x1b, 0x5b, 0x33]) :=
  console_in_bounds ⟨by decide, by decide, by decide, by decide⟩ (fun _ _ => 0) 0xffffff 0
    (fun _ => 0) (fun _ => 0) [] [0x61, 0x1b, 0x5b, 0x33]

end Console

end Sylphia.Screen
