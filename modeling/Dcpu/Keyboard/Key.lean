import Dcpu.Error

/-! # Keys

What a machine can learn from a keyboard. A keyboard is polled: it hands over what was pressed
since the last time, and never waits for more.
-/

namespace Dcpu

universe u

inductive Key where
  /-- A key for the program, as the code it expects. -/
  | code (code : Word)
  | quit
  deriving Repr, DecidableEq

/-- Something with keys. -/
class Keyboard (κ : Type u) where
  /-- Everything pressed since the last poll, oldest first. -/
  poll : κ → κ × Except DeviceError (List Key)

/-- A keyboard that hands over all its keys at the first poll. -/
structure PressedKeys where
  keys : List Key := []
  deriving Repr, DecidableEq

instance : Keyboard PressedKeys where
  poll keyboard := ({ keys := [] }, .ok keyboard.keys)

end Dcpu
