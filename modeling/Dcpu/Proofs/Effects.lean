import Dcpu.Proofs.Failures

/-! # What basic instructions do

An operation reads its operands once both are resolved, and writes its result where the first one
was resolved to, then the overflow register. Read as one step from the machine before it, that
leaves no trace of the order: every cell afterwards is told by the cells before, also where the two
operands are one cell, or are the stack pointer or the program counter that the step itself moves.
A test resolves and reads its operands in the same way, and writes nothing.
-/

namespace Dcpu

universe u v

/-- Whether an operation gives the overflow register a new word. -/
def Operation.setsOverflow : Operation → Bool
  | .add | .sub | .mul | .div | .shl | .shr => true
  | .set | .mod | .and | .bor | .xor => false

theorem Operation.isSome_overflow (operation : Operation) (a b : Word) :
    (operation.apply a b).overflow.isSome = operation.setsOverflow := by
  cases operation <;> rfl

namespace Operand

def stackMove : Operand → Word
  | pop => 1
  | push => -1
  | _ => 0

theorem stackPointer_eq (operand : Operand) (sp : Word) :
    operand.stackPointer sp = sp + operand.stackMove := by
  cases operand with
  | pop => rfl
  | push => exact UInt16.sub_eq_add_neg sp 1
  | _ => exact (UInt16.add_zero sp).symm

/-- Only the operands that name them are at the cells an instruction moves by itself. -/
theorem place_eq_iff (operand : Operand) (load : Address → Word) :
    (operand.place load = .cell .pc ↔ operand = .pc) ∧
      (operand.place load = .cell .sp ↔ operand = .sp) ∧
      (operand.place load = .cell .overflow ↔ operand = .overflow) := by
  cases operand <;> simp only [place, Target.cell.injEq, reduceCtorEq, and_self]

end Operand

def State.read (s : State) : Target → Word
  | .cell address => s.load address
  | .value value => value

theorem State.read_store (s : State) {address : Address} {place : Target}
    (apart : place ≠ .cell address) (value : Word) :
    (s.store address value).read place = s.read place := by
  cases place with
  | cell other =>
      have different : other ≠ address := fun same => apart (congrArg Target.cell same)
      exact (s.load_store address other value).trans (if_neg different)
  | value => rfl

namespace Execution

variable {σ : Type u} {ε : Type v} [Memory σ ε] [LawfulMemory σ]

/-- A result is written to its place first and to the overflow register last. -/
theorem load_writeResult (e : Execution σ ε) (target : Target) (result : Result)
    (address : Address) :
    let written := if target = .cell address then result.value else e.load address
    (e.writeResult target result).load address =
      if address = .overflow then result.overflow.getD written else written := by
  intro written
  have first : (e.write target result.value).load address = written := by
    cases target with
    | cell place => simp only [write, load_store, written, Target.cell.injEq, eq_comm]
    | value => simp only [write, written, reduceCtorEq, if_false]
  simp only [writeResult]
  cases result.overflow with
  | none => simp only [first, Option.getD_none, ite_self]
  | some overflow => simp only [load_store, first, Option.getD_some]

theorem load_skip (e : Execution σ ε) (address : Address) :
    e.skip.load address =
      if address = .pc then e.load .pc + Instruction.lengthOf (e.load (.ram (e.load .pc)))
      else e.load address :=
  e.load_store ..

/-- Where no store can fail, resolving an operand is moving the stack pointer. -/
theorem resolve_memory (e : Execution State Empty) (operand : Operand) :
    (e.resolve operand).2.memory =
      { e.memory with sp := e.memory.sp + operand.stackMove } := by
  rw [← operand.stackPointer_eq]
  cases operand <;> rfl

theorem read_eq (e : Execution State Empty) (target : Target) :
    e.read target = e.memory.read target := by
  cases target <;> rfl

/-- The program counter has moved, but operands are placed as if it had not. -/
theorem resolve_place_of_moved {e : Execution State Empty} {s : State} {pc : Word}
    (moved : e.memory = { s with pc }) (operand : Operand) :
    (e.resolve operand).1 = operand.place s.load := by
  rw [resolve_place]
  apply Operand.place_congr
  intro address other
  rw [load, moved]
  exact (s.load_store .pc address pc).trans (if_neg other)

end Execution

namespace State

/-- A machine between resolving the operands of an instruction and doing what it says. -/
def resolved (s : State) (a b : Operand) (length : Word) : State :=
  { s with pc := s.pc + length, sp := s.sp + a.stackMove + b.stackMove }

/-- Where the operands of a basic instruction are resolved to, the first before the second. -/
def places (s : State) (a b : Operand) : Target × Target :=
  (a.place s.load, b.place (load { s with sp := s.sp + a.stackMove }))

/-- The values of the operands of a basic instruction of a length, read once both are resolved. -/
def values (s : State) (a b : Operand) (length : Word) : Word × Word :=
  let before := s.resolved a b length
  (before.read (s.places a b).1, before.read (s.places a b).2)

/-- Operands are placed by the registers and the stack pointer alone. -/
theorem places_store_ram (s : State) (offset value : Word) (a b : Operand) :
    (s.store (.ram offset) value).places a b = s.places a b := by
  refine Prod.ext ?_ ?_
  · cases a <;> rfl
  · cases b <;> rfl

/-- A word has no influence on operands that are placed elsewhere. -/
theorem values_store_ram (s : State) {offset : Word} {a b : Operand}
    (apartA : (s.places a b).1 ≠ .cell (.ram offset))
    (apartB : (s.places a b).2 ≠ .cell (.ram offset)) (value length : Word) :
    (s.store (.ram offset) value).values a b length = s.values a b length := by
  have before : (s.store (.ram offset) value).resolved a b length =
      (s.resolved a b length).store (.ram offset) value := rfl
  simp only [values, places_store_ram, before, read_store _ apartA, read_store _ apartB]

theorem execute_basic (s : State) (opcode : Opcode) (a b : Operand) :
    let instruction := Instruction.basic opcode a b
    let placeA := a.place s.load
    let placeB := b.place (load { s with sp := s.sp + a.stackMove })
    let before := s.resolved a b instruction.length
    let valueA := before.read placeA
    let valueB := before.read placeB
    ∃ e : Execution State Empty, e.memory = before ∧
      Memory.execute s instruction = match opcode with
        | .compute operation => e.writeResult placeA (operation.apply valueA valueB)
        | .test condition => if condition.holds valueA valueB then e else e.skip := by
  intro instruction placeA placeB before valueA valueB
  let start : Execution State Empty :=
    ({ memory := s } : Execution State Empty).store .pc (s.pc + instruction.length)
  let next := (start.resolve a).2
  let e := (next.resolve b).2
  have startMemory : start.memory = { s with pc := s.pc + instruction.length } := rfl
  have nextMemory : next.memory = { start.memory with sp := s.sp + a.stackMove } :=
    start.resolve_memory a
  have memory : e.memory = before := by
    rw [next.resolve_memory b, nextMemory]
    rfl
  have resolvedA : (start.resolve a).1 = placeA := Execution.resolve_place_of_moved startMemory a
  have resolvedB : (next.resolve b).1 = placeB := Execution.resolve_place_of_moved nextMemory b
  have readA : e.read (start.resolve a).1 = valueA := by
    rw [resolvedA, e.read_eq, memory]
  have readB : e.read (next.resolve b).1 = valueB := by
    rw [resolvedB, e.read_eq, memory]
  refine ⟨e, memory, ?_⟩
  rw [← readA, ← readB, ← resolvedA]
  rfl

theorem step_result (s : State) {instruction : Instruction}
    (decoded : Memory.fetch s s.pc = .ok instruction) : (Memory.step s).2 = .ok () := by
  rw [Memory.step_of_fetch_ok decoded, Execution.finish_result, Execution.outcome_private]

/-- Every cell after an operation, told by the cells before. -/
theorem load_step_compute (s : State) {operation : Operation} {a b : Operand}
    (decoded : Memory.fetch s s.pc = .ok (.basic (.compute operation) a b)) (address : Address) :
    let placeA := a.place s.load
    let placeB := b.place (load { s with sp := s.sp + a.stackMove })
    let before := s.resolved a b (Instruction.basic (.compute operation) a b).length
    let result := operation.apply (before.read placeA) (before.read placeB)
    let written := if placeA = .cell address then result.value else before.load address
    (Memory.step s).1.load address =
      if address = .overflow then result.overflow.getD written else written := by
  intro placeA placeB before result written
  obtain ⟨e, memory, executed⟩ := s.execute_basic (.compute operation) a b
  have stepped : (Memory.step s).1 = (e.writeResult placeA result).memory := by
    rw [Memory.step_of_fetch_ok decoded, Execution.finish_memory, executed]
  have written := e.load_writeResult placeA result address
  rw [Execution.load, Execution.load, memory, ← stepped] at written
  exact written

/-- Every cell after a test. All that a test does is to skip the next instruction if it fails. -/
theorem load_step_test (s : State) {condition : Condition} {a b : Operand}
    (decoded : Memory.fetch s s.pc = .ok (.basic (.test condition) a b)) (address : Address) :
    let placeA := a.place s.load
    let placeB := b.place (load { s with sp := s.sp + a.stackMove })
    let before := s.resolved a b (Instruction.basic (.test condition) a b).length
    let holds := condition.holds (before.read placeA) (before.read placeB)
    (Memory.step s).1.load address =
      if address = .pc ∧ holds = false then
        before.pc + Instruction.lengthOf (before.load (.ram before.pc))
      else before.load address := by
  intro placeA placeB before holds
  obtain ⟨e, memory, executed⟩ := s.execute_basic (.test condition) a b
  have stepped : (Memory.step s).1 = (if holds then e else e.skip).memory := by
    rw [Memory.step_of_fetch_ok decoded, Execution.finish_memory, executed]
  rw [stepped]
  cases holds with
  | true =>
      simp only [reduceCtorEq, and_false, if_false, if_true, memory]
      rfl
  | false =>
      have skipped := e.load_skip address
      simp only [Execution.load, memory] at skipped
      simp only [and_true]
      exact skipped

end State

namespace Memory

variable {σ : Type u} {ε : Type v} [Memory σ ε]

/-- The complete effect of an operation. The place of the second operand is taken with the stack
    pointer that the first one leaves, and the program counter and the stack pointer read as
    operands have both moved already. -/
theorem step_compute [LawfulMemory σ] (m : σ) {operation : Operation} {a b : Operand}
    (decoded : fetch m (load m .pc) = .ok (.basic (.compute operation) a b)) :
    let s := snapshot m
    let after := snapshot (step m).1
    let pc := s.pc + (Instruction.basic (.compute operation) a b).length
    let sp := s.sp + a.stackMove + b.stackMove
    let placeA := a.place s.load
    let placeB := b.place (State.load { s with sp := s.sp + a.stackMove })
    let value (place : Target) : Word := State.read { s with pc, sp } place
    let result := operation.apply (value placeA) (value placeB)
    step s = (after, .ok ()) ∧
    (∀ r, after.load (.register r) =
      if placeA = .cell (.register r) then result.value else s.load (.register r)) ∧
    (∀ offset, after.load (.ram offset) =
      if placeA = .cell (.ram offset) then result.value else s.load (.ram offset)) ∧
    after.sp = (if a = .sp then result.value else sp) ∧
    after.pc = (if a = .pc then result.value else pc) ∧
    result.overflow.isSome = operation.setsOverflow ∧
    after.overflow =
      result.overflow.getD (if a = .overflow then result.value else s.overflow) := by
  intro s after pc sp placeA placeB value result
  have decodedAlone : fetch s s.pc = .ok (.basic (.compute operation) a b) :=
    (fetch_snapshot m s.pc).trans decoded
  have same : after = (step s).1 := snapshot_step m
  have effect := s.load_step_compute decodedAlone
  rw [← same] at effect
  have stack : after.sp = if placeA = .cell .sp then result.value else sp := effect .sp
  have counter : after.pc = if placeA = .cell .pc then result.value else pc := effect .pc
  have overflow : after.overflow = result.overflow.getD
      (if placeA = .cell .overflow then result.value else s.overflow) := effect .overflow
  obtain ⟨atPc, atSp, atOverflow⟩ := a.place_eq_iff s.load
  simp only [placeA, atSp] at stack
  simp only [placeA, atPc] at counter
  simp only [placeA, atOverflow] at overflow
  refine ⟨?_, ?_, ?_, stack, counter, operation.isSome_overflow _ _, overflow⟩
  · rw [same, Prod.ext_iff]
    exact ⟨rfl, s.step_result decodedAlone⟩
  · intro r
    exact effect (.register r)
  · intro offset
    exact effect (.ram offset)

end Memory

/-- A machine that adds a pushed word to a popped one. Both are the instruction itself. -/
def State.doubling : State :=
  .boot [0x6982]

theorem Memory.step_compute_doubling :
    fetch State.doubling (load State.doubling .pc) =
        .ok (.basic (.compute .add) .pop .push) ∧
      (step State.doubling).2 = .ok () ∧
      (step State.doubling).1.load (.ram 0) = 0xd304 ∧ (step State.doubling).1.sp = 0 := by
  have decoded : fetch State.doubling (load State.doubling .pc) =
      .ok (.basic (.compute .add) .pop .push) := rfl
  obtain ⟨step, -, ram, sp, -⟩ := step_compute State.doubling decoded
  simp only [State.snapshot_eq] at step ram sp
  refine ⟨decoded, congrArg Prod.snd step, (ram 0).trans ?_, sp.trans ?_⟩
  · rfl
  · rfl

end Dcpu
