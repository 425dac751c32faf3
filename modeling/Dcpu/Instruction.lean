import Dcpu.Instruction.Opcode
import Dcpu.Instruction.Operand

/-! # Instructions

A basic instruction word is laid out `bbbbbbaaaaaaoooo`: an opcode and the codes of two operands.
Opcode 0 marks an extended instruction: the `a` bits then say which, and the `b` bits hold its only
operand. The only extended instruction is the subroutine call. Next words follow the instruction
word, the one of `a` before the one of `b`.
-/

namespace Dcpu

universe u

inductive Instruction where
  | basic (opcode : Opcode) (a b : Operand)
  /-- Push the return address and jump. -/
  | call (target : Operand)
  deriving Repr, DecidableEq

namespace Instruction

def opcodeBits (word : Word) : Word :=
  word &&& 0xf

def aBits (word : Word) : Word :=
  (word >>> 4) &&& 0x3f

def bBits (word : Word) : Word :=
  (word >>> 10) &&& 0x3f

/-- How many words the instruction that starts with `word` takes. Every word has a length, also
    one that is no instruction, so an instruction can be skipped unread. -/
def lengthOf (word : Word) : Word :=
  let next (code : Word) : Word := if Operand.needsNextWord code then 1 else 0
  if opcodeBits word = 0 then 1 + next (bBits word)
  else 1 + next (aBits word) + next (bBits word)

section Decode

variable {m : Type → Type u} [Monad m]

/-- Read an operand from its code, asking for its next word if it takes one. `taken` counts the
    next words asked for so far, and the new count is returned. -/
def decodeOperand (nextWord : Word → m Word) (code taken : Word) : m (Operand × Word) := do
  if Operand.needsNextWord code then
    let next ← nextWord (taken + 1)
    return (.decode code next, taken + 1)
  else
    return (.decode code 0, taken)

/-- Read the instruction that starts with `word`. `nextWord i` is asked for the `i`-th word after
    it, for the operands that take one and in their order. There is no answer for a word that is no
    instruction, and nothing is asked then. -/
def decode (word : Word) (nextWord : Word → m Word) : m (Option Instruction) := do
  match Opcode.ofNumber? (opcodeBits word).toNat with
  | some opcode =>
      let (a, taken) ← decodeOperand nextWord (aBits word) 0
      let (b, _) ← decodeOperand nextWord (bBits word) taken
      return some (.basic opcode a b)
  | none =>
      if aBits word = 1 then
        let (target, _) ← decodeOperand nextWord (bBits word) 0
        return some (.call target)
      else
        return none

end Decode

def encode : Instruction → List Word
  | basic opcode a b =>
      UInt16.ofNat (opcode.number + 16 * a.code + 1024 * b.code) ::
        (a.nextWord?.toList ++ b.nextWord?.toList)
  | call target => UInt16.ofNat (0x10 + 1024 * target.code) :: target.nextWord?.toList

/-- How many words an instruction takes, with its next words. -/
def length : Instruction → Word
  | basic _ a b => 1 + a.nextWords + b.nextWords
  | call target => 1 + target.nextWords

theorem toNat_length (instruction : Instruction) :
    instruction.length.toNat = instruction.encode.length := by
  cases instruction with
  | basic opcode a b =>
      cases ha : a.nextWord? <;> cases hb : b.nextWord? <;>
        simp [length, encode, Operand.nextWords, ha, hb]
  | call target =>
      cases h : target.nextWord? <;> simp [length, encode, Operand.nextWords, h]

def isConditional : Instruction → Bool
  | basic (.test _) _ _ => true
  | _ => false

def mnemonic : Instruction → String
  | basic opcode _ _ => opcode.mnemonic
  | call _ => "JSR"

end Instruction
end Dcpu
