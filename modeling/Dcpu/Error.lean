import Dcpu.Machine.Execution

/-! # Errors

What can go wrong with the devices around a machine, and what can end a run. The wording of every
error is here.
-/

namespace Dcpu

/-- What can go wrong with a screen, a keyboard or a file. -/
inductive DeviceError where
  | offScreen (offset columns rows : Nat)
  /-- A program image ends in the middle of a word. -/
  | oddImage
  | noSuchFile
  | lost (message : String)
  | other (message : String)
  deriving Repr, DecidableEq

/-- Why a run ended early. -/
inductive Error where
  | invalidOpcode (cause : InvalidOpcode)
  | display (cause : DeviceError)
  | io (cause : DeviceError)
  deriving Repr, DecidableEq

namespace DeviceError

def message : DeviceError → String
  | offScreen offset columns rows => s!"offset {offset} is off a {columns}x{rows} screen"
  | oddImage => "program image has an odd number of bytes"
  | noSuchFile => "No such file or directory (os error 2)"
  | lost message | other message => message

end DeviceError

namespace Error

def message : Error → String
  | invalidOpcode cause => s!"invalid opcode 0x{cause.word.hex} at 0x{cause.pc.hex}"
  | display cause => s!"display error: {cause.message}"
  | io cause => s!"io error: {cause.message}"

/-- Only a display makes the stores of a machine fail. -/
def ofFault : Fault DeviceError → Error
  | .invalidOpcode cause => invalidOpcode cause
  | .store cause => display cause

end Error
end Dcpu
