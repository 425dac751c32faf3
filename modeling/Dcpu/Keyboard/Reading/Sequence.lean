import Dcpu.Keyboard.Reading
import Dcpu.Numeral

/-! # Escape sequences

What follows an escape is the escape key itself, a character with the alt key, or a sequence: of two
bytes after the letter O, and of any length after an opening bracket. The fields of a long sequence
are separated by semicolons, and its last byte tells what they are about.
-/

namespace Dcpu.Reading

/-- The arrow and function keys that a letter ends. -/
def letterKey? : Char → Option KeyCode
  | 'A' => some .up
  | 'B' => some .down
  | 'C' => some .right
  | 'D' => some .left
  | 'F' => some .endKey
  | 'H' => some .home
  | 'P' => some (.function 1)
  | 'Q' => some (.function 2)
  | 'S' => some (.function 4)
  | _ => none

def numberedKey? (n : Nat) : Option KeyCode :=
  if n = 1 ∨ n = 7 then some .home
  else if n = 2 then some .insert
  else if n = 3 then some .delete
  else if n = 4 ∨ n = 8 then some .endKey
  else if n = 5 then some .pageUp
  else if n = 6 then some .pageDown
  else if 11 ≤ n ∧ n ≤ 15 then some (.function (n - 10))
  else if 17 ≤ n ∧ n ≤ 21 then some (.function (n - 11))
  else if 23 ≤ n ∧ n ≤ 26 then some (.function (n - 12))
  else if 28 ≤ n ∧ n ≤ 29 then some (.function (n - 13))
  else if 31 ≤ n ∧ n ≤ 34 then some (.function (n - 14))
  else none

/-- The modifiers with a number: one more than a sum of 1 for shift, 2 for alt and 4 for control. -/
def modifiers (n : Nat) : Modifiers where
  shift := (n - 1).testBit 0
  alt := (n - 1).testBit 1
  control := (n - 1).testBit 2

/-- The fields of a sequence. It has none if it is no text. -/
def fields (bytes : List UInt8) : List (List Char) :=
  match String.fromUTF8? ⟨bytes.toArray⟩ with
  | some text => text.toList.splitOn ';'
  | none => []

/-- A number of 8 bits in a field. -/
def byte? (field? : Option (List Char)) : Option Nat :=
  (field?.bind Numeral.natural?).filter (· < UInt8.size)

/-- Whether the first two fields are a row and a column, numbers of 16 bits. -/
def isPlace (fields : List (List Char)) : Bool :=
  match fields with
  | row :: column :: _ =>
      [row, column].all fun field => (Numeral.natural? field).any (· < UInt16.size)
  | _ => false

/-- Read what a mouse does from its number. Bits 0, 1, 6 and 7 are the button; there are six. -/
def ofMouse (number : Nat) : Reading :=
  if number % 4 + 4 * (number / 64) < 6 then event .mouse else dropped

/-- Read what a mouse does from the number in the first field, which starts at `base`, and the place
    in the following two. -/
def ofMouseFields (base : Nat) (fields : List (List Char)) : Reading :=
  match byte? fields.head? with
  | some number =>
      if base ≤ number ∧ isPlace fields.tail then ofMouse (number - base) else dropped
  | none => dropped

/-- Read a sequence that starts with a digit from its fields and its last byte. -/
def ofFields (fields : List (List Char)) (final : Char) : Reading :=
  let modifiers := ((byte? fields[1]?).map modifiers).getD {}
  let ofKey? : Option KeyCode → Reading
    | some code => key code modifiers
    | none => dropped
  match final with
  | 'M' => ofMouseFields 32 fields
  | 'R' => if isPlace fields then event .cursor else dropped
  | '~' => ofKey? ((byte? fields.head?).bind numberedKey?)
  | letter => ofKey? (letterKey? letter)

/-- Read what follows an escape and an opening bracket. -/
def ofBracket : List UInt8 → Reading
  | [] => incomplete
  | first :: rest =>
      match Char.ofNat first.toNat with
      | '[' =>
          match rest with
          | [] => incomplete
          | letter :: _ =>
              if 0x41 ≤ letter ∧ letter ≤ 0x45 then key (.function (letter - 0x40).toNat) else dropped
      | 'A' => key .up
      | 'B' => key .down
      | 'C' => key .right
      | 'D' => key .left
      | 'H' => key .home
      | 'F' => key .endKey
      | 'Z' => key .backTab { shift := true }
      | 'M' =>
          match rest with
          | number :: _ :: _ :: _ => if 32 ≤ number then ofMouse (number - 32).toNat else dropped
          | _ => incomplete
      | '<' =>
          match rest.getLast? with
          | some 0x4d | some 0x6d => ofMouseFields 0 (fields rest.dropLast)
          | _ => incomplete
      | start =>
          if start.isDigit then
            match rest.getLast? with
            | some final =>
                if 64 ≤ final ∧ final ≤ 126 then
                  ofFields (fields (first :: rest.dropLast)) (Char.ofNat final.toNat)
                else incomplete
            | none => incomplete
          else dropped

/-- Read what follows an escape. Nothing following it is the escape key, unless more bytes are on
    their way. -/
def ofEscape (more : Bool) : List UInt8 → Reading
  | [] => if more then incomplete else key .escape
  | 0x1b :: _ => key .escape
  | 0x5b :: rest => ofBracket rest
  | 0x4f :: rest =>
      match rest with
      | [] => incomplete
      | letter :: _ =>
          if 0x50 ≤ letter ∧ letter ≤ 0x53 then key (.function (letter - 0x4f).toNat) else dropped
  | bytes => (ofPlain bytes).withAlt

/-- Read the bytes since the last event. -/
def ofBytes (more : Bool) : List UInt8 → Reading
  | 0x1b :: rest => ofEscape more rest
  | bytes => ofPlain bytes

end Dcpu.Reading
