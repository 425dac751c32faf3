import Dcpu.Keyboard.Key

/-! # Key presses

A key press is a key of an actual keyboard with the modifiers held down. Most keys mean nothing to
the machine: it knows the ASCII characters, enter, backspace and the arrows.
-/

namespace Dcpu

inductive KeyCode where
  | char (char : Char)
  | function (number : Nat)
  | backspace
  | enter
  | left
  | right
  | up
  | down
  | home
  | endKey
  | pageUp
  | pageDown
  | tab
  | backTab
  | delete
  | insert
  | null
  | escape
  deriving Repr, DecidableEq

structure Modifiers where
  shift : Bool := false
  control : Bool := false
  alt : Bool := false
  deriving Repr, DecidableEq

structure KeyPress where
  code : KeyCode
  modifiers : Modifiers := {}
  deriving Repr, DecidableEq

namespace KeyPress

/-- What a key press means to the machine, if anything. Escape and control-C leave. Otherwise an
    ASCII character is its own code, whatever the modifiers are. -/
def key? (press : KeyPress) : Option Key :=
  match press.code with
  | .char char =>
      if char = 'c' ∧ press.modifiers.control then some .quit
      else if char.toNat < 128 then some (.code (UInt16.ofNat char.toNat))
      else none
  | .escape => some .quit
  | .enter => some (.code 0x0a)
  | .backspace => some (.code 0x08)
  | .left => some (.code 37)
  | .up => some (.code 38)
  | .right => some (.code 39)
  | .down => some (.code 40)
  | _ => none

end KeyPress
end Dcpu
