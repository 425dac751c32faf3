import Dcpu.Instruction.Opcode

/-! # The arithmetic unit

Results are sixteen bits wide. What does not fit goes to the overflow register: the carry of a sum,
the high word of a product or of a left shift, the fraction of a quotient or of a right shift.
-/

namespace Dcpu

/-- What an operation writes: its value, and the new overflow register if the operation sets it. -/
structure Result where
  value : Word
  overflow : Option Word := none
  deriving Repr, DecidableEq

namespace Result

/-- The low word of a number is the value, the next word overflows. -/
def overflowing (n : Nat) : Result where
  value := UInt16.ofNat n
  overflow := some (UInt16.ofNat (n >>> 16))

/-- A number with sixteen bits behind the point: its whole part is the value, and its fraction
    goes to the overflow register. -/
def fraction (n : Nat) : Result where
  value := UInt16.ofNat (n >>> 16)
  overflow := some (UInt16.ofNat n)

end Result

/-- The result of an operation on the values of its operands. Dividing by zero gives zero. -/
def Operation.apply (operation : Operation) (a b : Word) : Result :=
  match operation with
  | .set => { value := b }
  | .add => .overflowing (a.toNat + b.toNat)
  | .sub => { value := a - b, overflow := some (if a < b then 0xffff else 0) }
  | .mul => .overflowing (a.toNat * b.toNat)
  | .div => .fraction ((a.toNat <<< 16) / b.toNat)
  | .mod => { value := if b = 0 then 0 else a % b }
  | .shl => .overflowing (if b < 32 then a.toNat <<< b.toNat else 0)
  | .shr => .fraction ((a.toNat <<< 16) >>> b.toNat)
  | .and => { value := a &&& b }
  | .bor => { value := a ||| b }
  | .xor => { value := a ^^^ b }

/-- Whether a test on the values of its operands succeeds. -/
def Condition.holds (condition : Condition) (a b : Word) : Bool :=
  match condition with
  | .equal => a == b
  | .notEqual => a != b
  | .greater => b < a
  | .commonBit => a &&& b != 0

end Dcpu
