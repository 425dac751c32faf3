import Dcpu.Error
import Dcpu.Proofs.Simulation

/-! # Failures that are put off

Whoever stores into a memory can give up as soon as a store fails. An instruction is written down here
in that way, with an early end behind each of its stores. It is carried out on a memory that says of
every store that it went well and keeps the first failure for later, so none of the early ends is
ever taken. What is left of it is the instruction as it is carried out straight on.
-/

namespace Dcpu

universe u v

/-- The error that a step ends with, be it its own or that of a store. -/
def Fault.merge : Fault Error → Error
  | .invalidOpcode cause => .invalidOpcode cause
  | .store cause => cause

/-- Something that is done to a memory, and may end early with an error. -/
def Attempt (σ : Type u) (ε : Type v) (α : Type) : Type (max u v) :=
  σ → σ × Except ε α

/-- A memory in the middle of an instruction is a memory itself, on which all stores go well. -/
instance {σ : Type u} {ε : Type v} [Memory σ ε] : Memory (Execution σ ε) ε where
  load := Execution.load
  store e address value := (e.store address value, .ok ())

namespace Attempt

variable {σ : Type u} {ε : Type v}

/-- What follows an early end is left out. -/
instance : Monad (Attempt σ ε) where
  pure a m := (m, .ok a)
  bind first next m :=
    match first m with
    | (m, .ok a) => next a m
    | (m, .error cause) => (m, .error cause)

theorem bind_of_ok {α β : Type} {first : Attempt σ ε α} {next : α → Attempt σ ε β} {m after : σ}
    {a : α} (fine : first m = (after, .ok a)) : (first >>= next) m = next a after := by
  change (match first m with | (m, .ok a) => next a m | (m, .error cause) => (m, .error cause)) = _
  rw [fine]

theorem bind_of_error {α β : Type} {first : Attempt σ ε α} {next : α → Attempt σ ε β} {m after : σ}
    {cause : ε} (failed : first m = (after, .error cause)) :
    (first >>= next) m = (after, .error cause) := by
  change (match first m with | (m, .ok a) => next a m | (m, .error cause) => (m, .error cause)) = _
  rw [failed]

section Instructions

variable [Memory σ ε]

def load (address : Address) : Attempt σ ε Word :=
  fun m => (m, .ok (Memory.load m address))

def store (address : Address) (value : Word) : Attempt σ ε Unit :=
  fun m => Memory.store m address value

def read : Target → Attempt σ ε Word
  | .cell address => load address
  | .value value => pure value

def write (target : Target) (value : Word) : Attempt σ ε Unit :=
  match target with
  | .cell address => store address value
  | .value _ => pure ()

def resolve : Operand → Attempt σ ε Target
  | .register r => pure (.cell (.register r))
  | .indirect r => do
      let offset ← load (.register r)
      return .cell (.ram offset)
  | .indexed r next => do
      let base ← load (.register r)
      return .cell (.ram (next + base))
  | .pop => do
      let sp ← load .sp
      store .sp (sp + 1)
      return .cell (.ram sp)
  | .peek => do
      let sp ← load .sp
      return .cell (.ram sp)
  | .push => do
      let sp ← load .sp
      store .sp (sp - 1)
      return .cell (.ram (sp - 1))
  | .sp => pure (.cell .sp)
  | .pc => pure (.cell .pc)
  | .overflow => pure (.cell .overflow)
  | .direct next => pure (.cell (.ram next))
  | .literal next => pure (.value next)
  | .short value => pure (.value (UInt16.ofNat value))

def skip : Attempt σ ε Unit := do
  let pc ← load .pc
  let word ← load (.ram pc)
  store .pc (pc + Instruction.lengthOf word)

/-- Do what an instruction says, up to the first store that fails. -/
def perform : Instruction → Attempt σ ε Unit
  | .call target => do
      let target ← resolve target
      let destination ← read target
      let returnAddress ← load .pc
      let sp ← load .sp
      store .sp (sp - 1)
      store (.ram (sp - 1)) returnAddress
      store .pc destination
  | .basic opcode a b => do
      let a ← resolve a
      let b ← resolve b
      let first ← read a
      let second ← read b
      match opcode with
      | .test condition => if condition.holds first second then pure () else skip
      | .compute operation =>
          let result := operation.apply first second
          write a result.value
          match result.overflow with
          | some overflow => store .overflow overflow
          | none => pure ()

end Instructions

variable [Memory σ Error]

def fetch (pc : Word) : Attempt σ Error Instruction :=
  fun m => (m, (Memory.fetch m pc).mapError .invalidOpcode)

/-- The next instruction, up to the first store that fails. -/
def execute : Attempt σ Error Unit := do
  let pc ← load .pc
  let instruction ← fetch pc
  store .pc (pc + instruction.length)
  perform instruction

end Attempt

namespace Execution

/-- What a step reports at its end, given the failure that was kept for it. -/
def report : Option Error → Except Error Unit
  | none => .ok ()
  | some cause => .error cause

theorem report_eq_ok_iff {failure : Option Error} : report failure = .ok () ↔ failure = none := by
  cases failure <;> simp only [report, reduceCtorEq]

theorem report_eq_error_iff {failure : Option Error} {cause : Error} :
    report failure = .error cause ↔ failure = some cause := by
  cases failure <;> simp only [report, reduceCtorEq, Except.error.injEq, Option.some.injEq]

theorem mapError_outcome (failure : Option Error) :
    (outcome failure).mapError Fault.merge = report failure := by
  cases failure <;> rfl

end Execution

/-- Carry the next instruction out on a memory whose failures are put off to its end. -/
def Memory.stepDeferring {σ : Type u} [Memory σ Error] (m : σ) : σ × Except Error Unit :=
  match (Attempt.execute : Attempt (Execution σ Error) Error Unit) { memory := m } with
  | (e, .error cause) => (e.memory, .error cause)
  | (e, .ok ()) => (e.memory, Execution.report e.failure)

namespace Attempt

section Deferred

variable {σ : Type u} {ε : Type v} [Memory σ ε] (e : Execution σ ε)

theorem read_deferred (target : Target) : read target e = (e, .ok (e.read target)) := by
  cases target <;> rfl

theorem write_deferred (target : Target) (value : Word) :
    write target value e = (e.write target value, .ok ()) := by
  cases target <;> rfl

theorem resolve_deferred (operand : Operand) :
    resolve operand e = ((e.resolve operand).2, .ok (e.resolve operand).1) := by
  cases operand <;> rfl

/-- Where failures are put off, an instruction never ends early. -/
theorem perform_deferred (instruction : Instruction) :
    perform instruction e = (e.perform instruction, .ok ()) := by
  cases instruction with
  | call target =>
      rw [perform, bind_of_ok (resolve_deferred e target), bind_of_ok (read_deferred _ _)]
      rfl
  | basic opcode a b =>
      rw [perform, bind_of_ok (resolve_deferred e a), bind_of_ok (resolve_deferred _ b),
        bind_of_ok (read_deferred _ _), bind_of_ok (read_deferred _ _), Execution.perform]
      cases opcode with
      | test condition =>
          simp only
          split <;> rfl
      | compute operation =>
          simp only
          rw [bind_of_ok (write_deferred _ _ _), Execution.writeResult]
          split <;> rename_i overflow <;> simp only [overflow] <;> rfl

end Deferred
end Attempt

namespace Memory

variable {σ : Type u} [Memory σ Error]

/-- Only a word that is no instruction ends an instruction early, and nothing is stored then. What
    the memory kept for the end is what a step reports. -/
theorem stepDeferring_eq (m : σ) :
    stepDeferring m = ((step m).1, (step m).2.mapError Fault.merge) := by
  let start : Execution σ Error := { memory := m }
  have read : Attempt.load .pc start = (start, .ok (load m .pc)) := rfl
  cases decoded : fetch m (load m .pc) with
  | error cause =>
      have fetched : Attempt.fetch (load m .pc) start = (start, .error (.invalidOpcode cause)) := by
        have same : fetch start (load m .pc) = .error cause := decoded
        rw [Attempt.fetch, same]
        rfl
      rw [stepDeferring, Attempt.execute, Attempt.bind_of_ok read, Attempt.bind_of_error fetched,
        step_of_fetch_error decoded]
      rfl
  | ok instruction =>
      have fetched : Attempt.fetch (load m .pc) start = (start, .ok instruction) := by
        have same : fetch start (load m .pc) = .ok instruction := decoded
        rw [Attempt.fetch, same]
        rfl
      have stored : Attempt.store .pc (load m .pc + instruction.length) start =
          (start.store .pc (load m .pc + instruction.length), .ok ()) := rfl
      rw [stepDeferring, Attempt.execute, Attempt.bind_of_ok read, Attempt.bind_of_ok fetched,
        Attempt.bind_of_ok stored, Attempt.perform_deferred, step_of_fetch_ok decoded]
      rw [Execution.finish_memory, Execution.finish_result, Execution.mapError_outcome]
      rfl

end Memory
end Dcpu
