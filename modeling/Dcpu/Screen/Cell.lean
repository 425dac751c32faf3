import Dcpu.Screen.Color
import Dcpu.Word

/-! # Character cells

A video word is laid out `ffffbbbbBccccccc`: foreground, background, blinking and character. A cell
holds exactly what its word says, so words and cells determine each other.
-/

namespace Dcpu

structure Cell where
  character : Fin 128
  blink : Bool
  background : Color
  foreground : Color
  deriving Repr, DecidableEq

structure Style where
  foreground : Color
  background : Color
  blink : Bool
  deriving Repr, DecidableEq

structure Glyph where
  character : Char
  style : Style
  deriving Repr, DecidableEq

namespace Cell

def ofWord (word : Word) : Cell where
  character := Fin.ofNat 128 word.toNat
  blink := word.toNat.testBit 7
  background := Color.ofIndex (word.toNat >>> 8)
  foreground := Color.ofIndex (word.toNat >>> 12)

def toWord (cell : Cell) : Word :=
  UInt16.ofNat <| cell.character + 128 * cell.blink.toNat + 256 * cell.background.index +
    4096 * cell.foreground.index

/-- A blank cell, black on black. -/
def blank : Cell where
  character := 0
  blink := false
  background := .black
  foreground := .black

/-- Something printable: control characters show as blanks. -/
def printable (cell : Cell) : Char :=
  if 0x20 ≤ cell.character ∧ cell.character ≤ 0x7e then Char.ofNat cell.character else ' '

def style (cell : Cell) : Style where
  foreground := cell.foreground
  background := cell.background
  blink := cell.blink

def glyph (cell : Cell) : Glyph where
  character := cell.printable
  style := cell.style

theorem ofWord_zero : ofWord 0 = blank := rfl

@[simp]
theorem toWord_ofWord (word : Word) : (ofWord word).toWord = word := by
  have lt := word.toNat_lt
  have bit : (word.toNat.testBit 7).toNat = word.toNat / 128 % 2 := by
    simp [Nat.testBit, Nat.shiftRight_eq_div_pow, Nat.one_and_eq_mod_two]
    rcases Nat.mod_two_eq_zero_or_one (word.toNat / 128) with h | h <;> simp [h]
  simp only [toWord, ofWord, Color.index_ofIndex, bit, Fin.val_ofNat, Nat.shiftRight_eq_div_pow]
  apply UInt16.toNat_inj.1
  rw [UInt16.toNat_ofNat']
  omega

end Cell
end Dcpu
