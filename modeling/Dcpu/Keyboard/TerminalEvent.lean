import Dcpu.Keyboard.KeyPress

/-! # Terminal events

A terminal sends more than key presses: it also tells what the mouse does, and where the cursor is
when a program has asked for it.
-/

namespace Dcpu

/-- Something a terminal tells. -/
inductive TerminalEvent where
  | press (press : KeyPress)
  | mouse
  | cursor
  deriving Repr, DecidableEq

namespace TerminalEvent

def key? : TerminalEvent → Option Key
  | .press p => p.key?
  | .mouse | .cursor => none

end TerminalEvent
end Dcpu
