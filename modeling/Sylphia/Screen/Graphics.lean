import Mathlib.Data.List.TakeWhile
import Sylphia.Core.Bytes
import Sylphia.Core.WriteLog

/-!
# Drawing into the frame buffer

A pixel is written by its index, which is computed in 32 bits. The loops stop at the resolution,
and with that every index is one of the frame buffer.
-/

namespace Sylphia.Screen

open Bytes WriteLog Logged

/-- `FrameBufferConfig`. -/
structure FrameBufferConfig where
  horizontalResolution : BitVec 32
  verticalResolution : BitVec 32
  pixelsPerScanLine : BitVec 32
  deriving Repr, DecidableEq

/-- The frame buffer by the index of a pixel, with the writes to it. -/
abbrev Pixels := Logged (BitVec 32) (BitVec 32)

/-- `kFontAscii`: the rows of the characters from the space on. -/
abbrev Font := Nat → Nat → Byte

/-- `GetFont`. A `char` has a sign. -/
def getFont (font : Font) (c : Byte) : Option (Nat → Byte) :=
  if 0x20 ≤ c.toInt ∧ c.toInt ≤ 0x7e then some (font (c.toInt - 0x20).toNat) else none

/-- The turns of a loop of `n` that is left where `start + d` comes to the resolution. -/
def turns (start : Int) (n : Nat) (resolution : BitVec 32) : List Nat :=
  (List.range n).takeWhile fun d => BitVec.ofInt 32 (start + d) < resolution

namespace FrameBufferConfig

variable (config : FrameBufferConfig)

/-- The index of the pixel in this row and this column. -/
def index (y x : Int) : BitVec 32 :=
  BitVec.ofInt 32 y * config.pixelsPerScanLine + BitVec.ofInt 32 x

/-- `FillRectangle`. -/
def fillRectangle (pixels : Pixels) (x y w h : Int) (color : BitVec 32) : Pixels :=
  (turns y h.toNat config.verticalResolution).foldl (fun pixels (dy : Nat) =>
    (turns x w.toNat config.horizontalResolution).foldl (fun pixels (dx : Nat) =>
      pixels.write (config.index (y + dy) (x + dx)) color) pixels) pixels

/-- `WriteAscii`. -/
def writeAscii (font : Font) (pixels : Pixels) (x y : Int) (c : Byte)
    (fgColor bgColor : BitVec 32) : Pixels :=
  match getFont font c with
  | none => pixels
  | some rows =>
    (turns y 16 config.verticalResolution).foldl (fun pixels (dy : Nat) =>
      (turns x 8 config.horizontalResolution).foldl (fun pixels (dx : Nat) =>
        let color := if (rows dy).getLsbD (7 - dx) then fgColor else bgColor
        pixels.write (config.index (y + dy) (x + dx)) color) pixels) pixels

/-- There is room for a character, and the pixels of a row do not reach into the next. -/
structure Valid : Prop where
  horizontal : 8 ≤ config.horizontalResolution.toNat
  vertical : 16 ≤ config.verticalResolution.toNat
  scanLine : config.horizontalResolution.toNat ≤ config.pixelsPerScanLine.toNat
  product : config.verticalResolution.toNat * config.pixelsPerScanLine.toNat < 2 ^ 31

/-- A pixel of the frame buffer. -/
def InFrame (i : BitVec 32) : Prop :=
  i.toNat < config.verticalResolution.toNat * config.pixelsPerScanLine.toNat

variable {config} {x y w h : Int}

theorem Valid.verticalResolution_lt (h : config.Valid) :
    config.verticalResolution.toNat < 2 ^ 31 := by
  obtain ⟨hhor, -, hscan, hprod⟩ := h
  exact (Nat.le_mul_of_pos_right _ (by omega)).trans_lt hprod

theorem toNat_ofInt_le (n : Nat) : (BitVec.ofInt 32 n).toNat ≤ n := by
  rw [BitVec.ofInt_natCast, BitVec.toNat_ofNat]
  exact Nat.mod_le n _

/-- A row and a column below the resolution are those of a pixel. -/
theorem inFrame_index (hvalid : config.Valid)
    (hy : (BitVec.ofInt 32 y).toNat < config.verticalResolution.toNat)
    (hx : (BitVec.ofInt 32 x).toNat < config.horizontalResolution.toNat) :
    config.InFrame (config.index y x) := by
  obtain ⟨-, -, hscan, hprod⟩ := hvalid
  rw [InFrame, index, BitVec.toNat_add, BitVec.toNat_mul]
  generalize (BitVec.ofInt 32 y).toNat = row at hy ⊢
  generalize (BitVec.ofInt 32 x).toNat = column at hx ⊢
  generalize config.pixelsPerScanLine.toNat = width at hscan hprod ⊢
  generalize config.verticalResolution.toNat = height at hy hprod ⊢
  have hlast : row * width + column < height * width :=
    calc row * width + column
      _ < row * width + width := Nat.add_lt_add_left (hx.trans_le hscan) _
      _ = (row + 1) * width := (Nat.succ_mul row width).symm
      _ ≤ height * width := Nat.mul_le_mul_right width hy
  rw [Nat.mod_add_mod, Nat.mod_eq_of_lt (by omega)]
  exact hlast

theorem lt_of_mem_turns {start : Int} {n d : Nat} {resolution : BitVec 32}
    (hd : d ∈ turns start n resolution) :
    (BitVec.ofInt 32 (start + d)).toNat < resolution.toNat := by
  have hlt := List.mem_takeWhile_imp hd
  exact of_decide_eq_true hlt

/-- Two loops that write a pixel each time stay in the frame buffer. -/
theorem within_loops (hvalid : config.Valid) (n m : Nat) (color : Nat → Nat → BitVec 32)
    (pixels : Pixels) :
    Logged.Within config.InFrame pixels (
      (turns y n config.verticalResolution).foldl (fun pixels (dy : Nat) =>
        (turns x m config.horizontalResolution).foldl (fun pixels (dx : Nat) =>
          pixels.write (config.index (y + dy) (x + dx)) (color dy dx)) pixels) pixels) := by
  refine within_foldl (fun dy hdy pixels => ?_) pixels
  refine within_foldl (fun dx hdx pixels => ?_) pixels
  exact within_write pixels _ (inFrame_index hvalid (lt_of_mem_turns hdy) (lt_of_mem_turns hdx))

theorem within_fillRectangle (hvalid : config.Valid) (pixels : Pixels) (x y w h : Int)
    (color : BitVec 32) :
    Logged.Within config.InFrame pixels (config.fillRectangle pixels x y w h color) :=
  within_loops hvalid h.toNat w.toNat (fun _ _ => color) pixels

theorem within_writeAscii (hvalid : config.Valid) (font : Font) (pixels : Pixels) (x y : Int)
    (c : Byte) (fgColor bgColor : BitVec 32) :
    Logged.Within config.InFrame pixels (config.writeAscii font pixels x y c fgColor bgColor) := by
  rw [writeAscii]
  cases getFont font c with
  | none => exact Logged.Within.refl _ pixels
  | some rows =>
    exact within_loops hvalid 16 8
      (fun dy dx => if (rows dy).getLsbD (7 - dx) then fgColor else bgColor) pixels

end FrameBufferConfig

end Sylphia.Screen
