import Dcpu.Proofs.Observation

/-! # Where instructions store

The place of an operand depends on the registers and the stack pointer before the instruction. An
instruction stores into the memory at most once: the result of an operation whose first operand
lies there, or the return address of a call. All its other stores are into registers.
-/

namespace Dcpu

universe u v

namespace Operand

/-- The place of an operand, given the word in every cell. -/
def place (load : Address → Word) : Operand → Target
  | register r => .cell (.register r)
  | indirect r => .cell (.ram (load (.register r)))
  | indexed r next => .cell (.ram (next + load (.register r)))
  | pop | peek => .cell (.ram (load .sp))
  | push => .cell (.ram (load .sp - 1))
  | sp => .cell .sp
  | pc => .cell .pc
  | overflow => .cell .overflow
  | direct next => .cell (.ram next)
  | literal next => .value next
  | short value => .value (UInt16.ofNat value)

/-- The stack pointer after an operand is resolved, given the one before. -/
def stackPointer (operand : Operand) (sp : Word) : Word :=
  match operand with
  | pop => sp + 1
  | push => sp - 1
  | _ => sp

/-- The program counter has no part in the place of an operand. -/
theorem place_congr {load load' : Address → Word}
    (same : ∀ address, address ≠ .pc → load address = load' address) (operand : Operand) :
    operand.place load = operand.place load' := by
  cases operand <;> simp only [place, same, ne_eq, reduceCtorEq, not_false_eq_true]

end Operand

namespace Target

/-- What a write to a place puts into the memory: offset and word. -/
def stored (target : Target) (value : Word) : List (Word × Word) :=
  match target with
  | .cell address => address.stored value
  | .value _ => []

end Target

namespace Execution

variable {σ : Type u} {ε : Type v} [Memory σ ε]

theorem resolve_place (e : Execution σ ε) (operand : Operand) :
    (e.resolve operand).1 = operand.place e.load := by
  cases operand <;> rfl

section Lawful

variable [LawfulMemory σ]

@[simp]
theorem load_store (e : Execution σ ε) (a b : Address) (value : Word) :
    (e.store a value).load b = if b = a then value else e.load b := by
  simp only [load, store_memory, LawfulMemory.load_store]

/-- Resolving an operand moves the stack pointer and touches nothing else. -/
theorem load_resolve (e : Execution σ ε) (operand : Operand) (address : Address) :
    (e.resolve operand).2.load address =
      if address = .sp then operand.stackPointer (e.load .sp) else e.load address := by
  cases operand with
  | pop | push => simp only [resolve, load_store, Operand.stackPointer]
  | _ =>
      simp only [resolve, Operand.stackPointer]
      split
      · simp only [*]
      · rfl

theorem load_writeResult_ram (e : Execution σ ε) (offset : Word) (result : Result) :
    (e.writeResult (.cell (.ram offset)) result).load (.ram offset) = result.value := by
  simp only [writeResult, write]
  split <;> simp only [load_store, reduceCtorEq, if_true, if_false]

theorem load_call_ram (e : Execution σ ε) (destination : Word) :
    (e.call destination).load (.ram (e.load .sp - 1)) = e.load .pc := by
  simp only [call, load_store, reduceCtorEq, if_true, if_false]

end Lawful
end Execution

namespace Execution

variable {σ : Type u} {ε : Type v} [Memory σ ε]

/-- The words stored into a journaled memory so far. -/
def words (e : Execution (Journal σ ε) ε) : List (Word × Word) :=
  e.memory.words

variable (e : Execution (Journal σ ε) ε)

@[simp]
theorem words_store (address : Address) (value : Word) :
    (e.store address value).words = e.words ++ address.stored value := by
  simp only [words, store_memory, Journal.words_store]

theorem words_resolve (operand : Operand) : (e.resolve operand).2.words = e.words := by
  cases operand <;> simp only [resolve, words_store, Address.stored, List.append_nil]

theorem words_writeResult (target : Target) (result : Result) :
    (e.writeResult target result).words = e.words ++ target.stored result.value := by
  have written : (e.write target result.value).words = e.words ++ target.stored result.value := by
    cases target with
    | cell address => exact words_store e address _
    | value => exact (List.append_nil _).symm
  simp only [writeResult]
  split <;> simp only [words_store, written, Address.stored, List.append_nil]

theorem words_skip : e.skip.words = e.words := by
  simp only [skip, words_store, Address.stored, List.append_nil]

theorem words_call (destination : Word) :
    (e.call destination).words = e.words ++ [(e.load .sp - 1, e.load .pc)] := by
  simp only [call, words_store, Address.stored, List.append_nil]

end Execution

namespace Memory

variable {σ : Type u} {ε : Type v} [Memory σ ε]

/-- Where an instruction stores into the memory, if it does. -/
def storedBy? (load : Address → Word) : Instruction → Option Word
  | .call target => some (target.stackPointer (load .sp) - 1)
  | .basic (.test _) _ _ => none
  | .basic (.compute _) a _ =>
      match a.place load with
      | .cell (.ram offset) => some offset
      | _ => none

/-- Where the next step stores into the memory, if it does. -/
def stored? (m : σ) : Option Word :=
  match fetch m (load m .pc) with
  | .ok instruction => storedBy? (load m) instruction
  | .error _ => none

/-- The word that the next step stores into the memory, if it does, with its offset. -/
def stepWords (m : σ) : List (Word × Word) :=
  (stored? m).toList.map fun offset => (offset, load (step m).1 (.ram offset))

/-- An instruction stores into the memory where `storedBy?` says, once, and the word stays there
    to the end of the instruction. -/
theorem words_execute [LawfulMemory σ] (journal : Journal σ ε) (instruction : Instruction) :
    (execute journal instruction).words = journal.words ++
      (storedBy? (load journal) instruction).toList.map fun offset =>
        (offset, (execute journal instruction).load (.ram offset)) := by
  let start : Execution (Journal σ ε) ε :=
    ({ memory := journal } : Execution (Journal σ ε) ε).store .pc
      (load journal .pc + instruction.length)
  have words : start.words = journal.words :=
    (Execution.words_store ..).trans (List.append_nil _)
  have loads : ∀ address, address ≠ .pc → start.load address = load journal address := by
    intro address other
    exact (Execution.load_store ..).trans (if_neg other)
  have execution : execute journal instruction = start.perform instruction := rfl
  rw [execution, ← words]
  cases instruction with
  | call target =>
      have sp : (start.resolve target).2.load .sp = target.stackPointer (load journal .sp) := by
        rw [Execution.load_resolve, if_pos rfl, loads .sp (by decide)]
      simp only [Execution.perform, storedBy?, Option.toList_some, List.map_singleton, ← sp,
        Execution.words_call, Execution.words_resolve, Execution.load_call_ram]
  | basic opcode a b =>
      have place : (start.resolve a).1 = a.place (load journal) := by
        rw [Execution.resolve_place, Operand.place_congr loads]
      cases opcode with
      | test condition =>
          simp only [Execution.perform, storedBy?, Option.toList_none, List.map_nil,
            List.append_nil]
          split
          · simp only [Execution.words_resolve]
          · simp only [Execution.words_skip, Execution.words_resolve]
      | compute operation =>
          simp only [Execution.perform, storedBy?, place, Execution.words_writeResult,
            Execution.words_resolve]
          cases a.place (load journal) with
          | value => rfl
          | cell address =>
              cases address with
              | ram offset =>
                  simp only [Target.stored, Address.stored, Option.toList_some,
                    List.map_singleton, Execution.load_writeResult_ram]
              | _ => rfl

theorem words_step [LawfulMemory σ] (journal : Journal σ ε) :
    (step journal).1.words = journal.words ++ stepWords journal.memory := by
  have stepped : (step journal).1.memory = (step journal.memory).1 :=
    (congrArg Prod.fst (Journal.isView_memory.step journal)).symm
  have fetched : fetch journal (load journal .pc) = fetch journal.memory (load journal .pc) :=
    (Journal.isView_memory.fetch journal _).symm
  have stored : stepWords journal.memory =
      (stored? journal).toList.map fun offset => (offset, load (step journal).1 (.ram offset)) := by
    simp only [stepWords, stored?, Journal.isView_memory.load, fetched, ← stepped]
    rfl
  cases decoded : fetch journal (load journal .pc) with
  | error cause =>
      rw [stored, stored?, decoded, step_of_fetch_error decoded]
      exact (List.append_nil _).symm
  | ok instruction =>
      rw [stored, stored?, decoded, step_of_fetch_ok decoded, Execution.finish_memory]
      exact words_execute journal instruction

end Memory
end Dcpu
