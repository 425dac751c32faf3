import Dcpu.Screen.TextScreen

/-! # Pictures

A picture is what stands on a terminal: rows of characters, each with its look. The picture of a
text screen is a titled box with one character for every cell inside it.
-/

namespace Dcpu

/-- How a character of a terminal looks. A missing color is the one the terminal starts with. -/
structure Look where
  foreground : Option Color := none
  background : Option Color := none
  blink : Bool := false
  deriving Repr, DecidableEq

structure Tile where
  character : Char
  look : Look := {}
  deriving Repr, DecidableEq

/-- Rows of characters, from the top left corner of a terminal on. -/
abbrev Picture := List (List Tile)

/-- Neighbouring characters of a row that look the same. -/
structure Stretch where
  column : Nat
  count : Nat
  look : Look
  deriving Repr, DecidableEq

/-- The character a cell shows on a terminal. -/
def Glyph.tile (glyph : Glyph) : Tile where
  character := glyph.character
  look :=
    { foreground := glyph.style.foreground
      background := glyph.style.background
      blink := glyph.style.blink }

namespace Picture

def border (character : Char) : Tile where
  character := character
  look := { background := some .black }

/-- Rows of tiles in a box of some width, with a title in its upper edge. -/
def box (title : String) (width : Nat) (rows : Picture) : Picture :=
  let title := title.toList.take width
  let top := ['┌'] ++ title ++ List.replicate (width - title.length) '─' ++ ['┐']
  let bottom := ['└'] ++ List.replicate width '─' ++ ['┘']
  [top.map border] ++ rows.map (fun row => border '│' :: row ++ [border '│']) ++ [bottom.map border]

def ofScreen (screen : TextScreen) : Picture :=
  box "DCPU-16" screen.columns (screen.glyphs.map fun row => row.map Glyph.tile)

/-- The text of a row, without the blanks at its end. -/
def rowText (row : List Tile) : String :=
  let characters := row.map Tile.character
  String.ofList (characters.reverse.dropWhile (· = ' ')).reverse

/-- The text of a picture, without the empty rows at its end. -/
def lines (picture : Picture) : List String :=
  ((picture.map rowText).reverse.dropWhile String.isEmpty).reverse

/-- The longest stretches of a row that look the same, from some column on. -/
def stretches (column : Nat) : List Tile → List Stretch
  | [] => []
  | tile :: rest =>
      match stretches (column + 1) rest with
      | [] => [{ column, count := 1, look := tile.look }]
      | next :: later =>
          if next.look = tile.look then { column, count := next.count + 1, look := tile.look } :: later
          else { column, count := 1, look := tile.look } :: next :: later

/-- The stretches of every row that do not look as the terminal started, with the number of the
    row. -/
def styled (picture : Picture) : List (Nat × Stretch) :=
  picture.zipIdx.flatMap fun (row, number) =>
    ((stretches 0 row).filter (·.look ≠ {})).map (number, ·)

end Picture
end Dcpu
