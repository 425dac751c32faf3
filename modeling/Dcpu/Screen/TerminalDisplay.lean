import Dcpu.Screen.Picture

/-! # Displays on a terminal

A terminal display keeps a text screen and draws its picture when it is refreshed, but only if the
screen may have changed since it was last drawn. Drawing may fail, and is then due again.
-/

namespace Dcpu

universe u

/-- Something pictures can be drawn on. -/
class Terminal (τ : Type u) where
  draw : τ → Picture → τ × Except DeviceError Unit

/-- A terminal that remembers the picture it shows. Before the first one it is empty. -/
structure Canvas where
  picture : Picture := []
  deriving Repr, DecidableEq

instance : Terminal Canvas where
  draw _ picture := ({ picture }, .ok ())

structure TerminalDisplay (τ : Type u) where
  screen : TextScreen
  terminal : τ
  /-- Whether the terminal may show something else than the screen. -/
  dirty : Bool := true

namespace TerminalDisplay

variable {τ : Type u}

/-- A display that has not drawn anything yet. -/
def blank (rows columns : Nat) (terminal : τ) : TerminalDisplay τ where
  screen := TextScreen.blank rows columns
  terminal := terminal

/-- Put a word on the screen, which then has to be drawn again. -/
def put (display : TerminalDisplay τ) (offset : Nat) (value : Word) :
    TerminalDisplay τ × Except DeviceError Unit :=
  let { screen, terminal, dirty } := display
  match screen.put offset value with
  | (screen, .ok ()) => ({ screen, terminal, dirty := true }, .ok ())
  | (screen, .error cause) => ({ screen, terminal, dirty }, .error cause)

/-- Draw the screen if that is due. -/
def refresh [Terminal τ] (display : TerminalDisplay τ) :
    TerminalDisplay τ × Except DeviceError Unit :=
  if display.dirty then
    match Terminal.draw display.terminal (Picture.ofScreen display.screen) with
    | (terminal, .ok ()) => ({ display with terminal, dirty := false }, .ok ())
    | (terminal, .error cause) => ({ display with terminal }, .error cause)
  else (display, .ok ())

end TerminalDisplay

instance {τ : Type u} [Terminal τ] : Display (TerminalDisplay τ) where
  write := TerminalDisplay.put
  refresh := TerminalDisplay.refresh

end Dcpu
