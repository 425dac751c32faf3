import Dcpu.Word

/-! # Opcodes

The fifteen basic opcodes, numbered from 1. Eleven write a result and four are tests that decide
whether the next instruction runs. Number 0 is no basic opcode.
-/

namespace Dcpu

/-- An opcode that writes a result. -/
inductive Operation where
  | set
  | add
  | sub
  | mul
  | div
  | mod
  | shl
  | shr
  | and
  | bor
  | xor
  deriving Repr, DecidableEq

/-- An opcode that tests its operands. The next instruction is skipped when the test fails. -/
inductive Condition where
  | equal
  | notEqual
  /-- The first operand is the larger one, read without a sign. -/
  | greater
  | commonBit
  deriving Repr, DecidableEq

/-- What a basic instruction does with its two operands. -/
inductive Opcode where
  | compute (operation : Operation)
  | test (condition : Condition)
  deriving Repr, DecidableEq

namespace Operation

def mnemonic : Operation → String
  | set => "SET"
  | add => "ADD"
  | sub => "SUB"
  | mul => "MUL"
  | div => "DIV"
  | mod => "MOD"
  | shl => "SHL"
  | shr => "SHR"
  | and => "AND"
  | bor => "BOR"
  | xor => "XOR"

end Operation

namespace Condition

def mnemonic : Condition → String
  | equal => "IFE"
  | notEqual => "IFN"
  | greater => "IFG"
  | commonBit => "IFB"

end Condition

namespace Opcode

def number : Opcode → Nat
  | compute .set => 0x1
  | compute .add => 0x2
  | compute .sub => 0x3
  | compute .mul => 0x4
  | compute .div => 0x5
  | compute .mod => 0x6
  | compute .shl => 0x7
  | compute .shr => 0x8
  | compute .and => 0x9
  | compute .bor => 0xa
  | compute .xor => 0xb
  | test .equal => 0xc
  | test .notEqual => 0xd
  | test .greater => 0xe
  | test .commonBit => 0xf

def ofNumber? : Nat → Option Opcode
  | 0x1 => some (compute .set)
  | 0x2 => some (compute .add)
  | 0x3 => some (compute .sub)
  | 0x4 => some (compute .mul)
  | 0x5 => some (compute .div)
  | 0x6 => some (compute .mod)
  | 0x7 => some (compute .shl)
  | 0x8 => some (compute .shr)
  | 0x9 => some (compute .and)
  | 0xa => some (compute .bor)
  | 0xb => some (compute .xor)
  | 0xc => some (test .equal)
  | 0xd => some (test .notEqual)
  | 0xe => some (test .greater)
  | 0xf => some (test .commonBit)
  | _ => none

def mnemonic : Opcode → String
  | compute operation => operation.mnemonic
  | test condition => condition.mnemonic

theorem ofNumber?_number (opcode : Opcode) : ofNumber? opcode.number = some opcode := by
  rcases opcode with operation | condition
  · cases operation <;> rfl
  · cases condition <;> rfl

theorem number_of_ofNumber? {n : Nat} {opcode : Opcode} (h : ofNumber? n = some opcode) :
    opcode.number = n := by
  unfold ofNumber? at h
  split at h <;> simp_all [number]
  all_goals subst h; rfl

end Opcode
end Dcpu
