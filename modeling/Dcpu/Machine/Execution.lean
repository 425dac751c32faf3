import Dcpu.Instruction
import Dcpu.Instruction.Arithmetic
import Dcpu.Machine.Memory

/-! # Executing instructions

A step reads the program counter, decodes the instruction there, moves the program counter past it,
resolves its operands, the first before the second, and then does what the instruction says. A word
that is no instruction stops the machine before anything is stored. A store that fails does not cut
the instruction short: all of it still happens, and the first failure is reported at its end.
-/

namespace Dcpu

universe u v

/-- A word that is no instruction, and where it stands. -/
structure InvalidOpcode where
  pc : Word
  word : Word
  deriving Repr, DecidableEq

/-- Why a machine stopped. -/
inductive Fault (ε : Type v) where
  | invalidOpcode (cause : InvalidOpcode)
  /-- A store failed after its write. -/
  | store (cause : ε)
  deriving Repr, DecidableEq

/-- Where an operand reads from and writes to. -/
inductive Target where
  | cell (address : Address)
  /-- A value of its own. Writing to it does nothing. -/
  | value (value : Word)
  deriving Repr, DecidableEq

/-- A memory in the middle of an instruction, with the first failure among the stores so far. -/
structure Execution (σ : Type u) (ε : Type v) where
  memory : σ
  failure : Option ε := none

namespace Execution

variable {σ : Type u} {ε : Type v} [Memory σ ε]

def load (e : Execution σ ε) (address : Address) : Word :=
  Memory.load e.memory address

/-- Store a word and carry on, keeping the failure only if it is the first. -/
def store (e : Execution σ ε) (address : Address) (value : Word) : Execution σ ε :=
  match Memory.store e.memory address value with
  | (memory, .ok ()) => { e with memory }
  | (memory, .error cause) => { memory, failure := e.failure.or (some cause) }

def read (e : Execution σ ε) : Target → Word
  | .cell address => e.load address
  | .value value => value

def write (e : Execution σ ε) (target : Target) (value : Word) : Execution σ ε :=
  match target with
  | .cell address => e.store address value
  | .value _ => e

/-- Turn an operand into a place. Taking from the stack and pushing onto it move the stack
    pointer here. -/
def resolve (e : Execution σ ε) : Operand → Target × Execution σ ε
  | .register r => (.cell (.register r), e)
  | .indirect r => (.cell (.ram (e.load (.register r))), e)
  | .indexed r next => (.cell (.ram (next + e.load (.register r))), e)
  | .pop =>
      let sp := e.load .sp
      (.cell (.ram sp), e.store .sp (sp + 1))
  | .peek => (.cell (.ram (e.load .sp)), e)
  | .push =>
      let sp := e.load .sp - 1
      (.cell (.ram sp), e.store .sp sp)
  | .sp => (.cell .sp, e)
  | .pc => (.cell .pc, e)
  | .overflow => (.cell .overflow, e)
  | .direct next => (.cell (.ram next), e)
  | .literal next => (.value next, e)
  | .short value => (.value (UInt16.ofNat value), e)

/-- Move the program counter past the instruction it is at, whatever that is. -/
def skip (e : Execution σ ε) : Execution σ ε :=
  let pc := e.load .pc
  e.store .pc (pc + Instruction.lengthOf (e.load (.ram pc)))

/-- Write a result, and the overflow register if the operation sets it. -/
def writeResult (e : Execution σ ε) (target : Target) (result : Result) : Execution σ ε :=
  let e := e.write target result.value
  match result.overflow with
  | some overflow => e.store .overflow overflow
  | none => e

/-- Push the program counter and continue at `destination`. -/
def call (e : Execution σ ε) (destination : Word) : Execution σ ε :=
  let returnAddress := e.load .pc
  let sp := e.load .sp - 1
  ((e.store .sp sp).store (.ram sp) returnAddress).store .pc destination

/-- Do what an instruction says. The program counter is already past it. -/
def perform (e : Execution σ ε) : Instruction → Execution σ ε
  | .call target =>
      let (target, e) := e.resolve target
      e.call (e.read target)
  | .basic opcode a b =>
      let (a, e) := e.resolve a
      let (b, e) := e.resolve b
      match opcode with
      | .compute operation => e.writeResult a (operation.apply (e.read a) (e.read b))
      | .test condition => if condition.holds (e.read a) (e.read b) then e else e.skip

/-- The memory at the end of an instruction, and the first failure. -/
def finish (e : Execution σ ε) : σ × Except (Fault ε) Unit :=
  match e.failure with
  | none => (e.memory, .ok ())
  | some cause => (e.memory, .error (.store cause))

end Execution

namespace Memory

variable {σ : Type u} {ε : Type v} [Memory σ ε]

/-- The instruction at an address. Next words wrap round the end of the memory. -/
def fetch (m : σ) (pc : Word) : Except InvalidOpcode Instruction :=
  let word := load m (.ram pc)
  match Id.run (Instruction.decode word fun i => load m (.ram (pc + i))) with
  | some instruction => .ok instruction
  | none => .error { pc, word }

def step (m : σ) : σ × Except (Fault ε) Unit :=
  let pc := load m .pc
  match fetch m pc with
  | .error cause => (m, .error (.invalidOpcode cause))
  | .ok instruction =>
      let e : Execution σ ε := { memory := m }
      ((e.store .pc (pc + instruction.length)).perform instruction).finish

/-- Execute so many instructions, or fewer when one of them stops the machine. -/
def steps (m : σ) : Nat → σ × Except (Fault ε) Unit
  | 0 => (m, .ok ())
  | count + 1 =>
      match step m with
      | (m, .ok ()) => steps m count
      | (m, .error fault) => (m, .error fault)

/-- Execute up to `budget` instructions, and say how many ran. What earlier instructions did stays
    done when one of them stops the machine. -/
def run (m : σ) (budget : Nat) : σ × Except (Fault ε) Nat :=
  match steps m budget with
  | (m, result) => (m, result.map fun _ => budget)

end Memory
end Dcpu
