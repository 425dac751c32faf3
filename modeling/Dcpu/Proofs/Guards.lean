import Dcpu.Proofs.Arithmetic
import Dcpu.Proofs.Lengths

/-! # A processor that watches its numbers

Numbers are kept in so many bits and tables have an end. A sum or a product that does not fit, a
difference below zero, a shift by the whole width, a division by zero, an index past the end and a
case that should not be there each end a computation at once. Here the processor computes everything
with an eye on them, and they never come up: what it gets is what it gets without watching.
-/

namespace Dcpu

universe u

/-- What ends a computation at once. -/
inductive Panic where
  | overflow
  | divisionByZero
  | outOfRange
  | unreachable
  deriving Repr, DecidableEq

/-- A computation that may end at once. -/
abbrev Checked := Except Panic

namespace Checked

/-- A sum, for which there are so many bits. -/
def add (bits a b : Nat) : Checked Nat :=
  if a + b < 1 <<< bits then return a + b else throw .overflow

def sub (a b : Nat) : Checked Nat :=
  if b ≤ a then return a - b else throw .overflow

def mul (bits a b : Nat) : Checked Nat :=
  if a * b < 1 <<< bits then return a * b else throw .overflow

def div (a b : Nat) : Checked Nat :=
  if b = 0 then throw .divisionByZero else return a / b

def rem (a b : Nat) : Checked Nat :=
  if b = 0 then throw .divisionByZero else return a % b

/-- A shift to the left. The bits that it moves out are lost, but it has to leave some. -/
def shl (bits a count : Nat) : Checked Nat :=
  if count < bits then return (a <<< count) % 1 <<< bits else throw .overflow

def shr (bits a count : Nat) : Checked Nat :=
  if count < bits then return a >>> count else throw .overflow

/-- An index into a table of some size. -/
def index (size i : Nat) : Checked Nat :=
  if i < size then return i else throw .outOfRange

/-- The items of a table between two places. -/
def slice {α : Type u} (items : List α) (start stop : Nat) : Checked (List α) :=
  if start ≤ stop ∧ stop ≤ items.length then return (items.drop start).take (stop - start)
  else throw .outOfRange

def addWord (a b : Word) : Checked Word :=
  return UInt16.ofNat (← add 16 a.toNat b.toNat)

def subWord (a b : Word) : Checked Word :=
  return UInt16.ofNat (← sub a.toNat b.toNat)

def shrWord (a : Word) (count : Nat) : Checked Word :=
  return UInt16.ofNat (← shr 16 a.toNat count)

section Fine

variable {bits a b : Nat}

theorem add_of_lt (fits : a + b < 1 <<< bits) : add bits a b = pure (a + b) :=
  if_pos fits

theorem sub_of_le (le : b ≤ a) : sub a b = pure (a - b) :=
  if_pos le

theorem add_of_not_lt (wide : ¬ a + b < 1 <<< bits) : add bits a b = throw .overflow :=
  if_neg wide

theorem mul_of_lt (fits : a * b < 1 <<< bits) : mul bits a b = pure (a * b) :=
  if_pos fits

theorem div_of_pos (positive : 0 < b) : div a b = pure (a / b) :=
  if_neg (Nat.ne_of_gt positive)

theorem rem_of_pos (positive : 0 < b) : rem a b = pure (a % b) :=
  if_neg (Nat.ne_of_gt positive)

theorem shl_of_lt (small : b < bits) (fits : a <<< b < 1 <<< bits) :
    shl bits a b = pure (a <<< b) := by
  rw [shl, if_pos small, Nat.mod_eq_of_lt fits]

theorem shr_of_lt (small : b < bits) : shr bits a b = pure (a >>> b) :=
  if_pos small

theorem index_of_lt (lt : b < a) : index a b = pure b :=
  if_pos lt

theorem slice_of_le {α : Type u} {items : List α} {start stop : Nat} (forward : start ≤ stop)
    (inside : stop ≤ items.length) :
    slice items start stop = pure ((items.drop start).take (stop - start)) :=
  if_pos ⟨forward, inside⟩

theorem addWord_of_lt {a b : Word} (fits : a.toNat + b.toNat < 65536) :
    addWord a b = pure (a + b) := by
  rw [addWord, add_of_lt fits, pure_bind, UInt16.ofNat_add, UInt16.ofNat_toNat, UInt16.ofNat_toNat]

theorem addWord_of_not_lt {a b : Word} (wide : ¬ a.toNat + b.toNat < 65536) :
    addWord a b = throw .overflow := by
  rw [addWord, add_of_not_lt wide]
  rfl

theorem subWord_of_le {a b : Word} (le : b ≤ a) : subWord a b = pure (a - b) := by
  rw [subWord, sub_of_le (UInt16.le_iff_toNat_le.mp le), pure_bind, ← UInt16.toNat_sub_of_le a b le,
    UInt16.ofNat_toNat]

theorem shrWord_of_lt {count : Nat} (a : Word) (small : count < 16) :
    shrWord a count = pure (a >>> UInt16.ofNat count) := by
  rw [shrWord, shr_of_lt small, pure_bind]
  congr 1
  apply UInt16.toNat_inj.mp
  rw [UInt16.toNat_ofNat_of_lt' (Nat.lt_of_le_of_lt (Nat.shiftRight_le ..) a.toNat_lt),
    UInt16.toNat_shiftRight, UInt16.toNat_ofNat']
  congr 1
  omega

theorem mapM_of_forall {α β : Type} {f : α → Checked β} {g : α → β} {items : List α}
    (fine : ∀ item ∈ items, f item = pure (g item)) : items.mapM f = pure (items.map g) := by
  induction items with
  | nil => rfl
  | cons item rest ih =>
      rw [List.mapM_cons, fine item List.mem_cons_self, pure_bind,
        ih fun other member => fine other (List.mem_cons_of_mem item member), pure_bind,
        List.map_cons]

end Fine

/-- A computation gives this or ends at once. -/
def Gives {α : Type} (computation : Checked α) (value : α) : Prop :=
  ∀ given, computation = .ok given → given = value

section Gives

variable {α β : Type} {value : α}

theorem Gives.of_eq {computation : Checked α} (fine : computation = pure value) :
    Gives computation value := by
  rintro given answer
  exact (Except.ok.inj (fine.symm.trans answer)).symm

theorem Gives.bind {computation : Checked α} {next : α → Checked β} {last : β}
    (first : Gives computation value) (rest : Gives (next value) last) :
    Gives (computation >>= next) last := by
  rcases answer : computation with panic | given
  · exact nofun
  · obtain rfl := first given answer
    exact rest

theorem gives_ite (condition : Prop) [Decidable condition] (panic : Panic) :
    Gives (if condition then return value else throw panic) value := by
  split
  · exact .of_eq rfl
  · exact nofun

theorem Gives.mapM {f : α → Checked β} {g : α → β} {items : List α}
    (each : ∀ item ∈ items, Gives (f item) (g item)) : Gives (items.mapM f) (items.map g) := by
  induction items with
  | nil => exact .of_eq rfl
  | cons item rest ih =>
      rw [List.mapM_cons, List.map_cons]
      refine (each item List.mem_cons_self).bind (.bind (ih fun other member => ?_) (.of_eq rfl))
      exact each other (List.mem_cons_of_mem item member)

/-- What is done with a value takes nothing away from how the computation of the value ends. -/
theorem bind_pure_eq_error_iff {computation : Checked α} {next : α → β} {panic : Panic} :
    (computation >>= fun given => pure (next given)) = .error panic ↔
      computation = .error panic := by
  rcases computation with other | given
  · exact ⟨fun same => congrArg _ (Except.error.inj same), fun same =>
      congrArg _ (Except.error.inj same)⟩
  · exact iff_of_false nofun nofun

end Gives
end Checked

/-- An instruction as it comes out of the decoder, which does not yet say that the opcode and the
    operands go together. -/
structure Decoded where
  /-- The opcode of a basic instruction. A subroutine call has none. -/
  opcode : Option Opcode
  a : Operand
  b : Option Operand
  length : Word

def Decoded.ofInstruction (instruction : Instruction) : Decoded :=
  match instruction with
  | .basic opcode a b => { opcode, a, b, length := instruction.length }
  | .call target => { opcode := none, a := target, b := none, length := instruction.length }

namespace Guarded

open Checked

section Decode

def aBits (word : Word) : Checked Word :=
  return (← shrWord word 4) &&& 0x3f

def bBits (word : Word) : Checked Word :=
  return (← shrWord word 10) &&& 0x3f

theorem aBits_eq (word : Word) : aBits word = pure (Instruction.aBits word) := by
  rw [aBits, shrWord_of_lt word (by decide), pure_bind]
  rfl

theorem bBits_eq (word : Word) : bBits word = pure (Instruction.bBits word) := by
  rw [bBits, shrWord_of_lt word (by decide), pure_bind]
  rfl

/-- The operand of a code. What is left of the code, once it is known to be in a range of them, is
    the number of a register or the five bits of a short literal. -/
def operand (code next : Word) : Checked Operand := do
  let bits := (code &&& 0x3f).toNat
  if bits ≤ 0x07 then return .register (.ofIndex bits)
  else if bits ≤ 0x0f then return .indirect (.ofIndex (← sub bits 0x08))
  else if bits ≤ 0x17 then return .indexed (.ofIndex (← sub bits 0x10)) next
  else if bits ≤ 0x1f then return .decode code next
  else
    let value ← sub bits 0x20
    if short : value < 32 then return .short ⟨value, short⟩ else throw .outOfRange

theorem ofIndex_sub {index : Nat} (rounds : Nat) (le : 8 * rounds ≤ index) :
    Register.ofIndex (index - 8 * rounds) = .ofIndex index := by
  simp only [Register.ofIndex, Fin.ext_iff, Fin.val_ofNat]
  omega

theorem operand_eq (code next : Word) : operand code next = pure (Operand.decode code next) := by
  have masked : (code &&& 0x3f).toNat = code.toNat % 64 := by
    rw [UInt16.toNat_and]
    exact Nat.and_two_pow_sub_one_eq_mod code.toNat 6
  simp only [operand, masked]
  -- Codes without a number in them are decoded as before, so that below the bits alone matter.
  by_cases constant : 0x17 < code.toNat % 64 ∧ code.toNat % 64 ≤ 0x1f
  · rw [if_neg (by omega), if_neg (by omega), if_neg (by omega), if_pos constant.2]
  have sixBits : code.toNat % 64 < 64 := Nat.mod_lt _ (by decide)
  simp only [Operand.decode]
  generalize code.toNat % 64 = bits at constant sixBits
  by_cases register : bits < 0x08
  · rw [if_pos (Nat.le_of_lt_succ register), if_pos register]
  rw [if_neg (mt Nat.lt_succ_of_le register), if_neg register]
  by_cases indirect : bits < 0x10
  · have left : 0x08 ≤ bits := Nat.le_of_not_lt register
    have same : Register.ofIndex (bits - 0x08) = .ofIndex bits := ofIndex_sub 1 left
    rw [if_pos (Nat.le_of_lt_succ indirect), if_pos indirect, sub_of_le left, pure_bind, same]
  rw [if_neg (mt Nat.lt_succ_of_le indirect), if_neg indirect]
  by_cases indexed : bits < 0x18
  · have left : 0x10 ≤ bits := Nat.le_of_not_lt indirect
    have same : Register.ofIndex (bits - 0x10) = .ofIndex bits := ofIndex_sub 2 left
    rw [if_pos (Nat.le_of_lt_succ indexed), if_pos indexed, sub_of_le left, pure_bind, same]
  have left : 0x20 ≤ bits := by omega
  have short : bits - 0x20 < 32 := by omega
  have same : (⟨bits - 0x20, short⟩ : Fin 32) = Fin.ofNat 32 bits := by
    simp only [Fin.ext_iff, Fin.val_ofNat]
    omega
  rw [if_neg (mt Nat.lt_succ_of_le indexed), if_neg indexed, if_neg (by omega), sub_of_le left,
    pure_bind, dif_pos short, same]
  split
  case h_9 => rfl
  all_goals omega

/-- Read an operand. The cursor counts the next words asked for. -/
def takeOperand (nextWord : Word → Checked Word) (code cursor : Word) :
    Checked (Operand × Word) := do
  if Operand.needsNextWord code then
    let cursor ← addWord cursor 1
    let next ← nextWord cursor
    return (← operand code next, cursor)
  else
    return (← operand code 0, cursor)

/-- Read the instruction that starts with a word. -/
def decode (word : Word) (nextWord : Word → Checked Word) : Checked (Option Decoded) := do
  match Opcode.ofNumber? (Instruction.opcodeBits word).toNat with
  | some opcode =>
      let (a, cursor) ← takeOperand nextWord (← aBits word) 0
      let (b, cursor) ← takeOperand nextWord (← bBits word) cursor
      return some { opcode, a, b, length := ← addWord 1 cursor }
  | none =>
      if (← aBits word) = 1 then
        let (a, cursor) ← takeOperand nextWord (← bBits word) 0
        return some { opcode := none, a, b := none, length := ← addWord 1 cursor }
      else
        return none

/-- The length of the instruction that starts with a word, which need not be one. -/
def lengthOf (word : Word) : Checked Word := do
  let next (code : Word) : Word := if Operand.needsNextWord code then 1 else 0
  if Instruction.opcodeBits word = 0 then
    addWord 1 (next (← bBits word))
  else
    addWord (← addWord 1 (next (← aBits word))) (next (← bBits word))

variable (nextWord : Word → Word)

/-- The cursor counts the words that an operand takes. -/
theorem takeOperand_eq {code cursor : Word} (sixBits : code.toNat < 64)
    (small : cursor.toNat < 0xffff) :
    ∃ operand, takeOperand (fun i => pure (nextWord i)) code cursor =
        pure (operand, cursor + operand.nextWords) ∧
      Instruction.decodeOperand (m := Id) (fun i => pure (nextWord i)) code cursor =
        pure (operand, cursor + operand.nextWords) := by
  cases needs : Operand.needsNextWord code with
  | false =>
      have none : (Operand.decode code 0).nextWords = 0 := by
        rw [Operand.nextWords, Operand.nextWord?_decode_eq sixBits, needs]
        rfl
      refine ⟨.decode code 0, ?_, ?_⟩
      · simp only [takeOperand, needs, operand_eq, pure_bind, none, UInt16.add_zero,
          Bool.false_eq_true, if_false]
      · simp only [Instruction.decodeOperand, needs, none, UInt16.add_zero, Bool.false_eq_true,
          if_false]
  | true =>
      have one : (Operand.decode code (nextWord (cursor + 1))).nextWords = 1 := by
        rw [Operand.nextWords, Operand.nextWord?_decode_eq sixBits, needs]
        rfl
      refine ⟨.decode code (nextWord (cursor + 1)), ?_, ?_⟩
      · simp only [takeOperand, needs, operand_eq, pure_bind, one, if_true,
          addWord_of_lt (show cursor.toNat + (1 : Word).toNat < 65536 from Nat.succ_lt_succ small)]
      · simp only [Instruction.decodeOperand, needs, one, if_true]
        rfl

/-- The flags of a decoded instruction go together, and its length is that of its words. -/
theorem decode_eq (word : Word) :
    decode word (fun i => pure (nextWord i)) =
      pure ((Id.run (Instruction.decode word fun i => pure (nextWord i))).map
        Decoded.ofInstruction) := by
  have zero : (0 : Word).toNat < 0xffff := by decide
  simp only [decode, Instruction.decode, aBits_eq, bBits_eq, pure_bind]
  cases Opcode.ofNumber? (Instruction.opcodeBits word).toNat with
  | some opcode =>
      obtain ⟨a, first, sameA⟩ := takeOperand_eq nextWord (Instruction.toNat_aBits_lt word) zero
      have few : (0 + a.nextWords).toNat < 0xffff := by
        rw [Operand.nextWords]
        split <;> decide
      obtain ⟨b, second, sameB⟩ := takeOperand_eq nextWord (Instruction.toNat_bBits_lt word) few
      have fits : (1 : Word).toNat + (0 + a.nextWords + b.nextWords).toNat < 65536 := by
        rw [Operand.nextWords, Operand.nextWords]
        split <;> split <;> decide
      have length : 1 + (0 + a.nextWords + b.nextWords) = (Instruction.basic opcode a b).length := by
        rw [Instruction.length, UInt16.zero_add, UInt16.add_assoc]
      simp only [first, second, sameA, sameB, pure_bind, addWord_of_lt fits, length]
      rfl
  | none =>
      by_cases call : Instruction.aBits word = 1
      · obtain ⟨a, read, same⟩ := takeOperand_eq nextWord (Instruction.toNat_bBits_lt word) zero
        have fits : (1 : Word).toNat + (0 + a.nextWords).toNat < 65536 := by
          rw [Operand.nextWords]
          split <;> decide
        have length : 1 + (0 + a.nextWords) = (Instruction.call a).length := by
          rw [Instruction.length, UInt16.zero_add]
        simp only [call, if_true, read, same, pure_bind, addWord_of_lt fits, length]
        rfl
      · simp only [call, if_false]
        rfl

theorem lengthOf_eq (word : Word) : lengthOf word = pure (Instruction.lengthOf word) := by
  simp only [lengthOf, Instruction.lengthOf, aBits_eq, bBits_eq, pure_bind]
  cases Operand.needsNextWord (Instruction.aBits word) <;>
    cases Operand.needsNextWord (Instruction.bBits word) <;>
    split <;> rfl

end Decode
section Arithmetic

def isConditional : Opcode → Bool
  | .test _ => true
  | .compute _ => false

/-- What an opcode writes. Tests and subroutine calls write nothing. -/
def arithmetic (opcode : Option Opcode) (a b : Word) : Checked Result :=
  match opcode with
  | some (.compute .mul) => do
      let product ← mul 32 a.toNat b.toNat
      let high ← shr 32 product 16
      return { value := UInt16.ofNat product, overflow := UInt16.ofNat high }
  | some (.compute .div) =>
      if b = 0 then return { value := 0, overflow := some 0 }
      else do
        let quotient ← div a.toNat b.toNat
        let wide ← div (← shl 32 a.toNat 16) b.toNat
        return { value := UInt16.ofNat quotient, overflow := UInt16.ofNat wide }
  | some (.compute .mod) =>
      if b = 0 then return { value := 0 }
      else return { value := UInt16.ofNat (← rem a.toNat b.toNat) }
  | some (.compute .shl) => do
      -- a shift by the whole width or more is asked for here, and gives zero
      let shifted := (shl 32 a.toNat b.toNat).toOption.getD 0
      let high ← shr 32 shifted 16
      return { value := UInt16.ofNat shifted, overflow := UInt16.ofNat high }
  | some (.compute .shr) => do
      let shifted := (shr 32 a.toNat b.toNat).toOption.getD 0
      let fraction := (shr 32 (← shl 32 a.toNat 16) b.toNat).toOption.getD 0
      return { value := UInt16.ofNat shifted, overflow := UInt16.ofNat fraction }
  | some (.compute operation) => return operation.apply a b
  | some (.test _) | none => throw .unreachable

/-- Whether a test succeeds. Nothing else is one. -/
def condition (opcode : Option Opcode) (a b : Word) : Checked Bool :=
  match opcode with
  | some (.test condition) => return condition.holds a b
  | some (.compute _) | none => throw .unreachable

variable (a b : Word)

theorem shiftLeft_lt : a.toNat <<< 16 < 1 <<< 32 := by
  have := a.toNat_lt
  rw [Nat.shiftLeft_eq, Nat.shiftLeft_eq]
  omega

theorem toNat_pos {word : Word} (nonzero : word ≠ 0) : 0 < word.toNat :=
  Nat.pos_of_ne_zero fun same => nonzero (UInt16.toNat_inj.mp same)

theorem arithmetic_div : arithmetic (some (.compute .div)) a b = pure (Operation.div.apply a b) := by
  rw [arithmetic]
  split <;> rename_i zero
  · rw [zero, Operation.div_zero]
  · rw [div_of_pos (toNat_pos zero), shl_of_lt (by decide) (shiftLeft_lt a), pure_bind, pure_bind,
      div_of_pos (toNat_pos zero), pure_bind, ← Operation.value_div, UInt16.ofNat_toNat]
    rfl

theorem arithmetic_shl : arithmetic (some (.compute .shl)) a b = pure (Operation.shl.apply a b) := by
  have wide : ((shl 32 a.toNat b.toNat).toOption.getD 0) =
      (if b < 32 then a.toNat <<< b.toNat else 0) % 4294967296 := by
    rw [shl]
    split <;> rename_i small
    · rw [if_pos (UInt16.lt_iff_toNat_lt.mpr small)]
      rfl
    · rw [if_neg (mt UInt16.lt_iff_toNat_lt.mp small)]
      rfl
  rw [arithmetic, wide, shr_of_lt (by decide), pure_bind]
  congr 1
  have kept := Result.wide_overflowing ((if b < 32 then a.toNat <<< b.toNat else 0) % 4294967296)
  rw [Nat.mod_mod] at kept
  exact kept.unique (Result.wide_overflowing _)

theorem arithmetic_shr : arithmetic (some (.compute .shr)) a b = pure (Operation.shr.apply a b) := by
  rw [arithmetic, shl_of_lt (by decide) (shiftLeft_lt a), pure_bind, Operation.apply,
    Result.fraction]
  by_cases small : b.toNat < 32
  · have whole : a.toNat <<< 16 >>> b.toNat >>> 16 = a.toNat >>> b.toNat := by
      rw [← Nat.shiftRight_add, Nat.add_comm, Nat.shiftRight_add, Nat.shiftLeft_shiftRight]
    rw [shr_of_lt small, shr_of_lt small, whole]
    rfl
  · have nothing : a.toNat <<< 16 >>> b.toNat = 0 := by
      have bound : 1 <<< 32 ≤ Nat.pow 2 b.toNat :=
        Nat.pow_le_pow_right (n := 2) (by decide) (Nat.le_of_not_lt small)
      exact Nat.shiftRight_eq_zero _ _ (Nat.lt_of_lt_of_le (shiftLeft_lt a) bound)
    rw [shr, if_neg small, shr, if_neg small, nothing]
    rfl

theorem arithmetic_eq (operation : Operation) :
    arithmetic (some (.compute operation)) a b = pure (operation.apply a b) := by
  cases operation with
  | mul =>
      rw [arithmetic, mul_of_lt (Operation.product_lt a b), pure_bind, shr_of_lt (by decide)]
      rfl
  | div => exact arithmetic_div a b
  | mod =>
      rw [arithmetic, Operation.apply]
      split <;> rename_i zero
      · rfl
      · rw [rem_of_pos (toNat_pos zero), pure_bind, ← UInt16.toNat_mod, UInt16.ofNat_toNat]
  | shl => exact arithmetic_shl a b
  | shr => exact arithmetic_shr a b
  | _ => rfl

end Arithmetic
end Guarded

/-- A memory that looks where it loads from and stores to. -/
class GuardedMemory (σ : Type) (ε : outParam Type) where
  load : σ → Address → Checked Word
  store : σ → Address → Word → Checked (σ × Except ε Unit)

/-- Looking finds nothing wrong. -/
class FaultlessMemory (σ : Type) {ε : outParam Type} [Memory σ ε] [GuardedMemory σ ε] : Prop where
  load (m : σ) (address : Address) : GuardedMemory.load m address = pure (Memory.load m address)
  store (m : σ) (address : Address) (value : Word) :
    GuardedMemory.store m address value = pure (Memory.store m address value)

namespace Guarded

section Execution

variable {σ ε : Type} [GuardedMemory σ ε]

def load (e : Execution σ ε) (address : Address) : Checked Word :=
  GuardedMemory.load e.memory address

def store (e : Execution σ ε) (address : Address) (value : Word) : Checked (Execution σ ε) := do
  match ← GuardedMemory.store e.memory address value with
  | (memory, .ok ()) => return { e with memory }
  | (memory, .error cause) => return { memory, failure := e.failure.or (some cause) }

def read (e : Execution σ ε) : Target → Checked Word
  | .cell address => load e address
  | .value value => return value

def write (e : Execution σ ε) (target : Target) (value : Word) : Checked (Execution σ ε) :=
  match target with
  | .cell address => store e address value
  | .value _ => return e

def resolve (e : Execution σ ε) : Operand → Checked (Target × Execution σ ε)
  | .register r => return (.cell (.register r), e)
  | .indirect r => return (.cell (.ram (← load e (.register r))), e)
  | .indexed r next => return (.cell (.ram (next + (← load e (.register r)))), e)
  | .pop => do
      let sp ← load e .sp
      return (.cell (.ram sp), ← store e .sp (sp + 1))
  | .peek => return (.cell (.ram (← load e .sp)), e)
  | .push => do
      let sp := (← load e .sp) - 1
      return (.cell (.ram sp), ← store e .sp sp)
  | .sp => return (.cell .sp, e)
  | .pc => return (.cell .pc, e)
  | .overflow => return (.cell .overflow, e)
  | .direct next => return (.cell (.ram next), e)
  | .literal next => return (.value next, e)
  | .short value => return (.value (UInt16.ofNat value), e)

def skip (e : Execution σ ε) : Checked (Execution σ ε) := do
  let pc ← load e .pc
  let length ← lengthOf (← load e (.ram pc))
  store e .pc (pc + length)

/-- Do what an instruction says. A basic opcode without a second operand should not be there. -/
def perform (e : Execution σ ε) (instruction : Decoded) : Checked (Execution σ ε) := do
  let (a, e) ← resolve e instruction.a
  match instruction.opcode, instruction.b with
  | none, _ =>
      let destination ← read e a
      let returnAddress ← load e .pc
      let sp := (← load e .sp) - 1
      let e ← store e .sp sp
      let e ← store e (.ram sp) returnAddress
      store e .pc destination
  | some opcode, some b =>
      let (b, e) ← resolve e b
      let first ← read e a
      let second ← read e b
      if isConditional opcode then
        if ← condition opcode first second then return e else skip e
      else
        let result ← arithmetic opcode first second
        let e ← write e a result.value
        match result.overflow with
        | some overflow => store e .overflow overflow
        | none => return e
  | some _, none => throw .unreachable

def fetch (m : σ) (pc : Word) : Checked (Except InvalidOpcode Decoded) := do
  let word ← GuardedMemory.load m (.ram pc)
  match ← decode word fun i => GuardedMemory.load m (.ram (pc + i)) with
  | some instruction => return .ok instruction
  | none => return .error { pc, word }

def step (m : σ) : Checked (σ × Except (Fault ε) Unit) := do
  let pc ← GuardedMemory.load m .pc
  match ← fetch m pc with
  | .error cause => return (m, .error (.invalidOpcode cause))
  | .ok instruction =>
      let e ← store { memory := m } .pc (pc + instruction.length)
      let e ← perform e instruction
      return e.finish

def steps (m : σ) : Nat → Checked (σ × Except (Fault ε) Unit)
  | 0 => return (m, .ok ())
  | count + 1 => do
      match ← step m with
      | (m, .ok ()) => steps m count
      | (m, .error fault) => return (m, .error fault)

def run (m : σ) (budget : Nat) : Checked (σ × Except (Fault ε) Nat) := do
  let (m, result) ← steps m budget
  return (m, result.map fun _ => budget)

variable [Memory σ ε] [FaultlessMemory σ] (e : Execution σ ε)

theorem load_eq (address : Address) : load e address = pure (e.load address) :=
  FaultlessMemory.load e.memory address

theorem store_eq (address : Address) (value : Word) :
    store e address value = pure (e.store address value) := by
  simp only [store, FaultlessMemory.store, pure_bind, Execution.store]
  split <;> rename_i stored <;> simp only [stored]

theorem read_eq (target : Target) : read e target = pure (e.read target) := by
  cases target with
  | cell address => exact load_eq e address
  | value => rfl

theorem write_eq (target : Target) (value : Word) :
    write e target value = pure (e.write target value) := by
  cases target with
  | cell address => exact store_eq e address value
  | value => rfl

theorem resolve_eq (operand : Operand) : resolve e operand = pure (e.resolve operand) := by
  cases operand with
  | indirect | indexed | peek => simp only [resolve, load_eq, pure_bind, Execution.resolve]
  | pop | push => simp only [resolve, load_eq, store_eq, pure_bind, Execution.resolve]
  | _ => rfl

theorem skip_eq : skip e = pure e.skip := by
  simp only [skip, load_eq, store_eq, lengthOf_eq, pure_bind, Execution.skip]

/-- An instruction that was decoded has all that its opcode needs. -/
theorem perform_eq (instruction : Instruction) :
    perform e (.ofInstruction instruction) = pure (e.perform instruction) := by
  cases instruction with
  | call target =>
      simp only [perform, Decoded.ofInstruction, resolve_eq, read_eq, load_eq, store_eq, pure_bind,
        Execution.perform, Execution.call]
  | basic opcode a b =>
      simp only [perform, Decoded.ofInstruction, resolve_eq, read_eq, pure_bind]
      cases opcode with
      | test test =>
          simp only [isConditional, if_true, condition, pure_bind, skip_eq, Execution.perform]
          split <;> rfl
      | compute operation =>
          simp only [isConditional, arithmetic_eq, pure_bind, write_eq, Execution.perform,
            Execution.writeResult, Bool.false_eq_true, if_false]
          split <;> simp only [*, store_eq]

variable (m : σ)

theorem fetch_eq (pc : Word) :
    fetch m pc = pure ((Memory.fetch m pc).map Decoded.ofInstruction) := by
  simp only [fetch, FaultlessMemory.load, pure_bind, decode_eq, Memory.fetch]
  cases Id.run (Instruction.decode (Memory.load m (.ram pc))
    fun i => pure (Memory.load m (.ram (pc + i)))) <;> rfl

theorem step_eq : step m = pure (Memory.step m) := by
  simp only [step, FaultlessMemory.load, pure_bind, fetch_eq]
  cases decoded : Memory.fetch m (Memory.load m .pc) with
  | error cause =>
      rw [Memory.step_of_fetch_error decoded]
      rfl
  | ok instruction =>
      have length : (Decoded.ofInstruction instruction).length = instruction.length := by
        cases instruction <;> rfl
      simp only [Except.map, length, store_eq, perform_eq, pure_bind]
      rw [Memory.step_of_fetch_ok decoded]
      rfl

theorem steps_eq (count : Nat) : steps m count = pure (Memory.steps m count) := by
  induction count generalizing m with
  | zero => rfl
  | succ count ih =>
      simp only [steps, step_eq, pure_bind, Memory.steps]
      split <;> rename_i stepped <;> simp only [stepped, ih]

theorem run_eq (budget : Nat) : run m budget = pure (Memory.run m budget) := by
  simp only [run, steps_eq, pure_bind, Memory.run]

end Execution

end Guarded
end Dcpu
