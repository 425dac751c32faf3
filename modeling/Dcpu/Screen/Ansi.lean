import Dcpu.Screen.Picture

/-! # Terminal control sequences

The texts that make a terminal show a picture.
-/

namespace Dcpu

/-- An escape and an opening bracket, then what the terminal is to do. -/
def Ansi.control (body : String) : String :=
  "\x1b[" ++ body

namespace Ansi

/-- Take over the whole terminal, and clear it. -/
def enter : String :=
  control "?1049h" ++ control "2J" ++ control "?25l"

/-- Give the terminal back as it was. -/
def leave : String :=
  control "0m" ++ control "?25h" ++ control "?1049l"

/-- Make the characters that follow look so. -/
def look (look : Look) : String :=
  let foreground := look.foreground.toList.map fun color => s!"38;5;{color.terminalNumber}"
  let background := look.background.toList.map fun color => s!"48;5;{color.terminalNumber}"
  let blink := if look.blink then ["5"] else []
  control (";".intercalate (["0"] ++ foreground ++ background ++ blink) ++ "m")

/-- Show a row, which starts in the first column. -/
def row (number : Nat) (tiles : List Tile) : String :=
  let texts := tiles.splitBy (·.look = ·.look) |>.map fun stretch =>
    stretch.head?.elim "" (look ·.look) ++ String.ofList (stretch.map Tile.character)
  control s!"{number + 1};1H" ++ String.join texts

def picture (picture : Picture) : String :=
  String.join (picture.zipIdx.map fun (tiles, number) => row number tiles) ++ control "0m"

end Ansi
end Dcpu
