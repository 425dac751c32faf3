import Dcpu.Arguments
import Dcpu.Numeral

/-! # Reading command-line arguments

Arguments are read from left to right. The value of an option or of the program is looked at only
when the next argument has been recognised, so an argument that is unknown is found before a bad
value in front of it. After `--` no argument is an option.
-/

namespace Dcpu.Arguments

def steps? (text : String) : Option Nat :=
  (Numeral.natural? text.toList).filter (· < UInt64.size)

/-- A number of 32 bits. Zero may have a minus sign. -/
def clockHz? (text : String) : Option Nat :=
  let number := match text.toList with
    | '-' :: digits => (Numeral.digits? digits).filter (· = 0)
    | digits => Numeral.natural? digits
  number.filter (· < UInt32.size)

inductive NumberOption where
  | steps
  | clockHz
  deriving Repr, DecidableEq

/-- An argument that was recognised but whose value was not looked at yet. -/
inductive Pending where
  | program (name : String)
  /-- An option whose value comes next. -/
  | awaiting (option : NumberOption)
  | given (option : NumberOption) (value : String)
  deriving Repr, DecidableEq

/-- The arguments read so far. -/
structure Draft where
  program : Option String := none
  steps : Option Nat := none
  clockHz : Option Nat := none
  littleEndian : Bool := false
  pending : Option Pending := none
  deriving Repr, DecidableEq

namespace Draft

/-- Take the value of an option, which may be given once. -/
def setNumber (draft : Draft) (option : NumberOption) (value : String) : Except UsageError Draft :=
  match option with
  | .steps =>
      if draft.steps.isSome then .error .repeatedOption
      else match steps? value with
        | some steps => .ok { draft with steps }
        | none => .error .notANumber
  | .clockHz =>
      if draft.clockHz.isSome then .error .repeatedOption
      else match clockHz? value with
        | some clockHz => .ok { draft with clockHz }
        | none => .error .notANumber

def settle (draft : Draft) : Except UsageError Draft :=
  let settled := { draft with pending := none }
  match draft.pending with
  | none => .ok settled
  | some (.program name) =>
      if name.isEmpty then .error .missingValue else .ok { settled with program := name }
  | some (.awaiting _) => .error .missingValue
  | some (.given option value) => settled.setNumber option value

/-- Take the name of the program, of which there is one. -/
def setProgram (draft : Draft) (name : String) : Except UsageError Draft :=
  match draft.program, draft.pending with
  | some _, _ | none, some (.program _) => .error .unknownArgument
  | none, _ => do return { ← draft.settle with pending := some (.program name) }

/-- Take the byte order option, which may be given once. -/
def setLittleEndian (draft : Draft) : Except UsageError Draft := do
  let draft ← draft.settle
  if draft.littleEndian then .error .repeatedOption else .ok { draft with littleEndian := true }

def finish (draft : Draft) : Except UsageError Command := do
  let draft ← draft.settle
  match draft.program with
  | none => .error .missingProgram
  | some program =>
      let byteOrder := if draft.littleEndian then .littleEndian else .bigEndian
      return .run { program, steps := draft.steps, clockHz := draft.clockHz, byteOrder }

end Draft

/-- An argument by its first characters. -/
inductive Shape where
  /-- Two dashes alone: no option follows. -/
  | separator
  /-- A name after two dashes, and what follows an equals sign. -/
  | long (name : String) (value : Option String)
  /-- A letter after one dash. -/
  | short (letter : Char)
  | plain (text : String)
  deriving Repr, DecidableEq

namespace Shape

def ofString (text : String) : Shape :=
  match text.toList with
  | ['-', '-'] => separator
  | '-' :: '-' :: rest =>
      let name := String.ofList (rest.takeWhile (· ≠ '='))
      match rest.dropWhile (· ≠ '=') with
      | [] => long name none
      | _ :: value => long name (String.ofList value)
  | '-' :: letter :: _ => short letter
  | _ => plain text

end Shape

def numberOption? : String → Option NumberOption
  | "steps" => some .steps
  | "clock-hz" => some .clockHz
  | _ => none

/-- Read arguments none of which is an option. -/
def parsePlain (draft : Draft) : List String → Except UsageError Command
  | [] => draft.finish
  | text :: rest => do parsePlain (← draft.setProgram text) rest

def parseFrom (draft : Draft) : List String → Except UsageError Command
  | [] => draft.finish
  | argument :: rest =>
      match Shape.ofString argument with
      | .separator => parsePlain draft rest
      | .plain text =>
          match draft.pending with
          | some (.awaiting option) => parseFrom { draft with pending := some (.given option text) } rest
          | _ => do parseFrom (← draft.setProgram text) rest
      | .short 'h' => do
          let _ ← draft.settle
          return .help
      | .short 'V' => do
          let _ ← draft.settle
          return .version
      | .short _ => .error .unknownArgument
      | .long name value =>
          match numberOption? name, value with
          | some option, none => do
              parseFrom { ← draft.settle with pending := some (.awaiting option) } rest
          | some option, some value => do parseFrom (← (← draft.settle).setNumber option value) rest
          | none, some _ =>
              if name ∈ ["little-endian", "help", "version"] then .error .unexpectedValue
              else .error .unknownArgument
          | none, none =>
              match name with
              | "little-endian" => do parseFrom (← draft.setLittleEndian) rest
              | "help" => do
                  let _ ← draft.settle
                  return .help
              | "version" => do
                  let _ ← draft.settle
                  return .version
              | _ => .error .unknownArgument

def parse (arguments : List String) : Except UsageError Command :=
  parseFrom {} arguments

end Dcpu.Arguments
