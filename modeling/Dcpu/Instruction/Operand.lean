import Dcpu.Machine.Address

/-! # Operands

An operand is written as a six-bit code. Some codes take their value from the word that follows
the instruction. Writing an operand and reading it back gives the operand again.
-/

namespace Dcpu

/-- An operand of an instruction, with the next word it takes, if any. -/
inductive Operand where
  /-- A register: codes `0x00` to `0x07`. -/
  | register (register : Register)
  /-- The memory a register points at: codes `0x08` to `0x0f`. -/
  | indirect (register : Register)
  /-- The memory at the next word plus a register: codes `0x10` to `0x17`. -/
  | indexed (register : Register) (next : Word)
  /-- Take the top of the stack: code `0x18`. -/
  | pop
  /-- The top of the stack, left in place: code `0x19`. -/
  | peek
  /-- A new top of the stack: code `0x1a`. -/
  | push
  /-- The stack pointer: code `0x1b`. -/
  | sp
  /-- The program counter: code `0x1c`. -/
  | pc
  /-- The overflow register: code `0x1d`. -/
  | overflow
  /-- The memory at the next word: code `0x1e`. -/
  | direct (next : Word)
  /-- The next word itself: code `0x1f`. -/
  | literal (next : Word)
  /-- A number below 32, kept in the code itself: codes `0x20` to `0x3f`. -/
  | short (value : Fin 32)
  deriving Repr, DecidableEq

namespace Operand

/-- Whether an operand code takes the next word. All sixteen bits count, so a code that is wider
    than six bits takes none. -/
def needsNextWord (code : Word) : Bool :=
  (0x10 ≤ code ∧ code ≤ 0x17) ∨ code = 0x1e ∨ code = 0x1f

/-- The operand of a code. Only the low six bits of the code count, and `next` counts only if the
    operand takes a next word. -/
def decode (code next : Word) : Operand :=
  let code := code.toNat % 64
  if code < 0x08 then register (.ofIndex code)
  else if code < 0x10 then indirect (.ofIndex code)
  else if code < 0x18 then indexed (.ofIndex code) next
  else match code with
    | 0x18 => pop
    | 0x19 => peek
    | 0x1a => push
    | 0x1b => sp
    | 0x1c => pc
    | 0x1d => overflow
    | 0x1e => direct next
    | 0x1f => literal next
    | _ => short (Fin.ofNat 32 code)

def code : Operand → Nat
  | register r => r
  | indirect r => 0x08 + r
  | indexed r _ => 0x10 + r
  | pop => 0x18
  | peek => 0x19
  | push => 0x1a
  | sp => 0x1b
  | pc => 0x1c
  | overflow => 0x1d
  | direct _ => 0x1e
  | literal _ => 0x1f
  | short value => 0x20 + value

/-- The word an operand takes after the instruction, if it takes one. -/
def nextWord? : Operand → Option Word
  | indexed _ next | direct next | literal next => some next
  | _ => none

/-- How many words an operand takes after the instruction. -/
def nextWords (operand : Operand) : Word :=
  if operand.nextWord?.isSome then 1 else 0

theorem code_lt (operand : Operand) : operand.code < 64 := by
  cases operand <;> simp only [code] <;> omega

theorem needsNextWord_code (operand : Operand) :
    needsNextWord (UInt16.ofNat operand.code) = operand.nextWord?.isSome := by
  cases operand with
  | register r | indirect r | short r => decide +revert
  | indexed r next =>
      change needsNextWord (UInt16.ofNat (0x10 + r)) = true
      decide +revert
  | _ => rfl

/-- Reading the code of an operand, with its next word if it has one, gives the operand. -/
theorem decode_code (operand : Operand) (absent : Word) :
    decode (UInt16.ofNat operand.code) (operand.nextWord?.getD absent) = operand := by
  have sixBits : (UInt16.ofNat operand.code).toNat % 64 = operand.code := by
    have := operand.code_lt
    rw [UInt16.toNat_ofNat']
    omega
  simp only [decode, sixBits]
  cases operand with
  | register r => simp [code, Register.ofIndex]
  | indirect r =>
      rw [code, if_neg (by omega), if_pos (by omega)]
      simp [Register.ofIndex, Fin.ext_iff]
  | indexed r next =>
      rw [code, if_neg (by omega), if_neg (by omega), if_pos (by omega)]
      simp [Register.ofIndex, Fin.ext_iff, nextWord?]
      omega
  | short value =>
      rw [code, if_neg (by omega), if_neg (by omega), if_neg (by omega)]
      split <;> first | omega | simp [Fin.ext_iff]
  | _ => rfl

end Operand
end Dcpu
