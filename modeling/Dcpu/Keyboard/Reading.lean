import Dcpu.Keyboard.TerminalEvent

/-! # Reading terminal events

A terminal sends every event as a few bytes: a character in UTF-8, a control code, or a sequence
that starts with an escape. Bytes are read one by one until they are an event, or until it is clear
that they are none and they are dropped. Here are the characters and the control codes.
-/

namespace Dcpu

/-- What the bytes since the last event are. -/
inductive Reading where
  | event (event : TerminalEvent)
  | incomplete
  /-- Nothing a terminal tells. -/
  | dropped
  deriving Repr, DecidableEq

namespace Reading

def key (code : KeyCode) (modifiers : Modifiers := {}) : Reading :=
  event (.press { code, modifiers })

def control (char : Char) : Reading :=
  key (.char char) { control := true }

def withAlt : Reading → Reading
  | event (.press p) => key p.code { p.modifiers with alt := true }
  | reading => reading

/-- How many bytes the UTF-8 character that starts with a byte has. -/
def characterLength? (first : UInt8) : Option Nat :=
  if first < 0x80 then some 1
  else if first < 0xc0 then none
  else if first < 0xe0 then some 2
  else if first < 0xf0 then some 3
  else if first < 0xf8 then some 4
  else none

def ofCharacter (first : UInt8) (rest : List UInt8) : Reading :=
  match characterLength? first with
  | none => dropped
  | some length =>
      if rest.any fun byte => byte &&& 0xc0 ≠ 0x80 then dropped
      else if rest.length + 1 < length then incomplete
      else match (String.fromUTF8? ⟨(first :: rest).toArray⟩).bind (·.toList.head?) with
        | some char => key (.char char)
        | none => dropped

def ofPlain : List UInt8 → Reading
  | [] => incomplete
  | first :: rest =>
      if first = 0x0d then key .enter
      else if first = 0x09 then key .tab
      else if first = 0x7f then key .backspace
      else if first = 0x00 then control ' '
      else if first ≤ 0x1a then control (Char.ofNat ('a'.toNat + (first - 0x01).toNat))
      else if 0x1c ≤ first ∧ first ≤ 0x1f then control (Char.ofNat ('4'.toNat + (first - 0x1c).toNat))
      else ofCharacter first rest

end Reading
end Dcpu
