import Dcpu.Image
import Dcpu.Settings

/-! # Command-line arguments

What a command line can ask for: a run of a program image with a few options, or a text about the
program.
-/

namespace Dcpu

/-- What is wrong with a command line. -/
inductive UsageError where
  | missingProgram
  /-- No option has this name, or the program was given already. -/
  | unknownArgument
  /-- A value that should be a number is none, or is out of range. -/
  | notANumber
  /-- An option lacks its value, or the name of the program is empty. -/
  | missingValue
  /-- A value was given to an option that takes none. -/
  | unexpectedValue
  | repeatedOption
  deriving Repr, DecidableEq

structure Arguments where
  program : String
  steps : Option Nat := none
  clockHz : Option Nat := none
  byteOrder : ByteOrder := .bigEndian
  deriving Repr, DecidableEq

inductive Command where
  | run (arguments : Arguments)
  | help
  | version
  deriving Repr, DecidableEq

namespace Arguments

/-- The settings of a run, with defaults for what the arguments leave open. -/
def settings (arguments : Arguments) : Settings :=
  let defaults : Settings := {}
  { defaults with
    steps := arguments.steps.getD defaults.steps
    clockHz := arguments.clockHz.getD defaults.clockHz }

end Arguments
end Dcpu
