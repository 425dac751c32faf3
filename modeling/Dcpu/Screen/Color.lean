/-! # Colors

The sixteen colors of the text screen, numbered in the order of the old graphics cards: one bit each
for blue, green and red, and one for bright.
-/

namespace Dcpu

inductive Color where
  | black
  | blue
  | green
  | cyan
  | red
  | magenta
  | yellow
  | gray
  | darkGray
  | lightBlue
  | lightGreen
  | lightCyan
  | lightRed
  | lightMagenta
  | lightYellow
  | white
  deriving Repr, DecidableEq

namespace Color

/-- The color with an index, counting round the sixteen of them. -/
def ofIndex (index : Nat) : Color :=
  match index % 16 with
  | 0x0 => black
  | 0x1 => blue
  | 0x2 => green
  | 0x3 => cyan
  | 0x4 => red
  | 0x5 => magenta
  | 0x6 => yellow
  | 0x7 => gray
  | 0x8 => darkGray
  | 0x9 => lightBlue
  | 0xa => lightGreen
  | 0xb => lightCyan
  | 0xc => lightRed
  | 0xd => lightMagenta
  | 0xe => lightYellow
  | _ => white

def index : Color → Nat
  | black => 0x0
  | blue => 0x1
  | green => 0x2
  | cyan => 0x3
  | red => 0x4
  | magenta => 0x5
  | yellow => 0x6
  | gray => 0x7
  | darkGray => 0x8
  | lightBlue => 0x9
  | lightGreen => 0xa
  | lightCyan => 0xb
  | lightRed => 0xc
  | lightMagenta => 0xd
  | lightYellow => 0xe
  | white => 0xf

/-- The number of a color on a terminal, where red and blue have changed places. -/
def terminalNumber : Color → Nat
  | black => 0
  | red => 1
  | green => 2
  | yellow => 3
  | blue => 4
  | magenta => 5
  | cyan => 6
  | gray => 7
  | darkGray => 8
  | lightRed => 9
  | lightGreen => 10
  | lightYellow => 11
  | lightBlue => 12
  | lightMagenta => 13
  | lightCyan => 14
  | white => 15

theorem index_lt (color : Color) : color.index < 16 := by
  cases color <;> decide

@[simp]
theorem index_ofIndex (n : Nat) : (ofIndex n).index = n % 16 := by
  have wrap : ofIndex n = ofIndex (n % 16) := by simp only [ofIndex, Nat.mod_mod]
  have below : ∀ k < 16, (ofIndex k).index = k := by decide
  rw [wrap, below _ (Nat.mod_lt n (by decide))]

end Color
end Dcpu
