import Dcpu.Screen.Cell
import Dcpu.Screen.Display

/-! # The text screen

A grid of character cells, kept row after row. The offsets of the video window count through it in
that order. A word stored outside the grid is refused and changes nothing.
-/

namespace Dcpu

structure TextScreen where
  rows : Nat
  columns : Nat
  cells : Array Cell
  size_cells : cells.size = rows * columns

namespace TextScreen

def blank (rows columns : Nat) : TextScreen where
  rows := rows
  columns := columns
  cells := Array.replicate (rows * columns) Cell.blank
  size_cells := Array.size_replicate

/-- The cell at a position, if that is on the screen. -/
def cell? (screen : TextScreen) (row column : Nat) : Option Cell :=
  if row < screen.rows ∧ column < screen.columns then
    screen.cells[row * screen.columns + column]?
  else none

def cellsOfRow (screen : TextScreen) (row : Nat) : List Cell :=
  (screen.cells.extract (row * screen.columns) ((row + 1) * screen.columns)).toList

/-- A row as plain text, trailing blanks included, if it is on the screen. -/
def line? (screen : TextScreen) (row : Nat) : Option String :=
  if row < screen.rows then
    some <| String.ofList <| (screen.cellsOfRow row).map Cell.printable
  else none

def lines (screen : TextScreen) : List String :=
  (List.range screen.rows).filterMap screen.line?

def glyphs (screen : TextScreen) : List (List Glyph) :=
  (List.range screen.rows).map fun row => (screen.cellsOfRow row).map Cell.glyph

/-- Put the cell of a video word at an offset. -/
def put (screen : TextScreen) (offset : Nat) (value : Word) :
    TextScreen × Except DeviceError Unit :=
  if h : offset < screen.cells.size then
    let screen := { screen with
      cells := screen.cells.set offset (Cell.ofWord value) h
      size_cells := by rw [Array.size_set, screen.size_cells] }
    (screen, .ok ())
  else (screen, .error (.offScreen offset screen.columns screen.rows))

end TextScreen

instance : Display TextScreen where
  write := TextScreen.put

end Dcpu
