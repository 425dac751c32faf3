import Dcpu.Keyboard.KeyRing
import Dcpu.Machine.Execution

/-! # What a program can see of its memory

An instruction reaches its memory through loads and stores only. Two executions that load the same
words, and still do after every store made in both, can therefore not be told apart by any
instruction. Invariants of stores are the case of one execution beside itself. In bisimulations
stores are answered alike, too, and a view of a memory is one in which one memory is an image of the
other.
-/

namespace Dcpu

universe u v w x

variable {σ : Type u} {ε : Type v}

/-- Of things in a row either all go well, or there is a first one that does not. -/
theorem all_or_first (P : Nat → Prop) (count : Nat) :
    (∀ i < count, P i) ∨ ∃ k < count, (∀ i < k, P i) ∧ ¬ P k := by
  induction count with
  | zero => exact .inl fun i lt => absurd lt (Nat.not_lt_zero i)
  | succ count ih =>
      rcases ih with all | ⟨k, lt, first⟩
      · by_cases last : P count
        · refine .inl fun i lt => ?_
          rcases Nat.lt_succ_iff_lt_or_eq.mp lt with lt | rfl
          · exact all i lt
          · exact last
        · exact .inr ⟨count, Nat.lt_succ_self count, all, last⟩
      · exact .inr ⟨k, Nat.lt_succ_of_lt lt, first⟩

namespace Memory

/-- The failure that a store reports, if it does. -/
def failure? : Except ε Unit → Option ε
  | .ok () => none
  | .error cause => some cause

@[simp]
theorem failure?_ok : failure? (.ok () : Except ε Unit) = none := rfl

@[simp]
theorem failure?_error (cause : ε) : failure? (.error cause) = some cause := rfl

end Memory

namespace Execution

@[simp]
theorem finish_memory (e : Execution σ ε) : e.finish.1 = e.memory := by
  simp only [finish]
  split <;> rfl

/-- What an instruction reports, given its first failure. -/
def outcome : Option ε → Except (Fault ε) Unit
  | none => .ok ()
  | some cause => .error (.store cause)

theorem finish_result (e : Execution σ ε) : e.finish.2 = outcome e.failure := by
  simp only [finish]
  split <;> rename_i failed <;> simp only [failed, outcome]

/-- Where no store can fail, every instruction ends well. -/
theorem outcome_private (failure : Option Empty) : outcome failure = .ok () := by
  cases failure with
  | none => rfl
  | some cause => contradiction

end Execution

variable {τ : Type w} {ε' : Type x} [Memory σ ε] [Memory τ ε']

namespace Memory

/-- An instruction that has run to its end on a memory, its failure not yet reported. -/
def execute (m : σ) (instruction : Instruction) : Execution σ ε :=
  (({ memory := m } : Execution σ ε).store .pc (load m .pc + instruction.length)).perform
    instruction

theorem step_of_fetch_error {m : σ} {cause : InvalidOpcode}
    (undecodable : fetch m (load m .pc) = .error cause) :
    step m = (m, .error (.invalidOpcode cause)) := by
  simp only [step, undecodable]

theorem step_of_fetch_ok {m : σ} {instruction : Instruction}
    (decoded : fetch m (load m .pc) = .ok instruction) :
    step m = (execute m instruction).finish := by
  simp only [step, decoded, execute]

/-- Fetching reads the memory and nothing else. -/
theorem fetch_congr {m : σ} {n : τ} (same : ∀ address, load m address = load n address)
    (pc : Word) : fetch m pc = fetch n pc := by
  simp only [fetch, same]

theorem fetch_snapshot (m : σ) (pc : Word) : fetch (snapshot m) pc = fetch m pc :=
  fetch_congr (load_snapshot m) pc

theorem steps_succ (m : σ) (count : Nat) :
    steps m (count + 1) = match (step m).2 with
      | .ok () => steps (step m).1 count
      | .error fault => ((step m).1, .error fault) := by
  simp only [steps]
  split <;> rename_i stepped <;> simp only [stepped]

end Memory

namespace Execution

@[simp]
theorem store_memory (e : Execution σ ε) (address : Address) (value : Word) :
    (e.store address value).memory = (Memory.store e.memory address value).1 := by
  simp only [store]
  split <;> rename_i stored <;> simp only [stored]

/-- A store adds its failure to the earlier ones, of which the first is kept. -/
theorem store_failure (e : Execution σ ε) (address : Address) (value : Word) :
    (e.store address value).failure =
      e.failure.or (Memory.failure? (Memory.store e.memory address value).2) := by
  simp only [store]
  split <;> rename_i stored <;>
    simp only [stored, Memory.failure?_ok, Memory.failure?_error, Option.or_none]

end Execution

/-- A push stores the key if the next slot is empty, and moves on if that went well. -/
theorem KeyRing.push_eq (ring : KeyRing) (m : σ) (key : Word) :
    ring.push m key =
      if Memory.load m ring.slot = 0 then
        ((match (Memory.store m ring.slot key).2 with
            | .ok () => ring.advance
            | .error _ => ring,
          (Memory.store m ring.slot key).1),
          (Memory.store m ring.slot key).2.map fun _ => true)
      else ((ring, m), .ok false) := by
  simp only [push]
  split
  · split <;> rename_i stored <;> simp only [stored] <;> rfl
  · rfl

namespace Execution

/-- A relation that no instruction can break: related executions load the same words, and are
    related again when both store the same word. -/
structure Simulation (R : Execution σ ε → Execution τ ε' → Prop) : Prop where
  load {e f} : R e f → ∀ address, e.load address = f.load address
  store {e f} : R e f → ∀ address value, R (e.store address value) (f.store address value)

namespace Simulation

variable {R : Execution σ ε → Execution τ ε' → Prop} {e : Execution σ ε} {f : Execution τ ε'}

theorem read (simulation : Simulation R) (related : R e f) (target : Target) :
    e.read target = f.read target := by
  cases target with
  | cell address => exact simulation.load related address
  | value => rfl

theorem write (simulation : Simulation R) (related : R e f) (target : Target) (value : Word) :
    R (e.write target value) (f.write target value) := by
  cases target with
  | cell address => exact simulation.store related address value
  | value => exact related

/-- Both resolve an operand to the same place. -/
theorem resolve (simulation : Simulation R) (related : R e f) (operand : Operand) :
    (e.resolve operand).1 = (f.resolve operand).1 ∧
      R (e.resolve operand).2 (f.resolve operand).2 := by
  have same := simulation.load related
  cases operand with
  | pop | push =>
      simp only [Execution.resolve, same, true_and]
      exact simulation.store related _ _
  | _ => exact ⟨by simp only [Execution.resolve, same], related⟩

theorem skip (simulation : Simulation R) (related : R e f) : R e.skip f.skip := by
  simp only [Execution.skip, simulation.load related]
  exact simulation.store related _ _

theorem writeResult (simulation : Simulation R) (related : R e f) (target : Target)
    (result : Result) : R (e.writeResult target result) (f.writeResult target result) := by
  have written := simulation.write related target result.value
  simp only [Execution.writeResult]
  cases result.overflow with
  | none => exact written
  | some overflow => exact simulation.store written _ _

theorem call (simulation : Simulation R) (related : R e f) (destination : Word) :
    R (e.call destination) (f.call destination) := by
  simp only [Execution.call, simulation.load related]
  exact simulation.store (simulation.store (simulation.store related _ _) _ _) _ _

theorem perform (simulation : Simulation R) (related : R e f) (instruction : Instruction) :
    R (e.perform instruction) (f.perform instruction) := by
  cases instruction with
  | call target =>
      obtain ⟨place, resolved⟩ := simulation.resolve related target
      simp only [Execution.perform, place, simulation.read resolved]
      exact simulation.call resolved _
  | basic opcode a b =>
      obtain ⟨placeA, resolvedA⟩ := simulation.resolve related a
      obtain ⟨placeB, resolved⟩ := simulation.resolve resolvedA b
      simp only [Execution.perform, placeA, placeB, simulation.read resolved]
      cases opcode with
      | compute operation => exact simulation.writeResult resolved _ _
      | test condition =>
          simp only
          split
          · exact resolved
          · exact simulation.skip resolved

/-- Memories that are related before an instruction are related after it. -/
theorem execute (simulation : Simulation R) {m : σ} {n : τ}
    (related : R { memory := m } { memory := n }) (instruction : Instruction) :
    R (Memory.execute m instruction) (Memory.execute n instruction) := by
  have pc : Memory.load m .pc = Memory.load n .pc := simulation.load related .pc
  simp only [Memory.execute, pc]
  exact simulation.perform (simulation.store related _ _) instruction

end Simulation
end Execution

namespace Memory

/-- What every store keeps. -/
def Stable (P : σ → Prop) : Prop :=
  ∀ m address value, P m → P (store m address value).1

namespace Stable

variable {P : σ → Prop}

theorem simulation (stable : Stable P) :
    Execution.Simulation fun e f : Execution σ ε => e = f ∧ P f.memory where
  load := by
    rintro e f ⟨rfl, -⟩ address
    rfl
  store := by
    rintro e f ⟨rfl, holds⟩ address value
    exact ⟨rfl, by simpa only [Execution.store_memory] using stable _ address value holds⟩

theorem step (stable : Stable P) {m : σ} (holds : P m) : P (Memory.step m).1 := by
  cases fetched : fetch m (load m .pc) with
  | error cause => simpa only [step_of_fetch_error fetched] using holds
  | ok instruction =>
      rw [step_of_fetch_ok fetched, Execution.finish_memory]
      exact (stable.simulation.execute ⟨rfl, holds⟩ instruction).2

theorem steps (stable : Stable P) {m : σ} (holds : P m) (count : Nat) :
    P (Memory.steps m count).1 := by
  induction count generalizing m with
  | zero => exact holds
  | succ count ih =>
      rw [steps_succ]
      split
      · exact ih (stable.step holds)
      · exact stable.step holds

theorem run (stable : Stable P) {m : σ} (holds : P m) (budget : Nat) :
    P (Memory.run m budget).1 :=
  stable.steps holds budget

theorem push (stable : Stable P) {m : σ} (holds : P m) (ring : KeyRing) (key : Word) :
    P (ring.push m key).1.2 := by
  rw [KeyRing.push_eq]
  split
  · exact stable m ring.slot key holds
  · exact holds

end Stable

/-- A relation that nobody can tell from equality: related memories show the same words, and a store
    made in both has one answer and leaves them related. -/
structure Bisimulation {τ : Type w} [Memory τ ε] (R : σ → τ → Prop) : Prop where
  load {m n} : R m n → ∀ address, load m address = load n address
  store {m n} : R m n → ∀ address value,
    R (store m address value).1 (store n address value).1 ∧
      (store m address value).2 = (store n address value).2

namespace Bisimulation

variable {τ : Type w} [Memory τ ε] {R : σ → τ → Prop} {m : σ} {n : τ}

theorem simulation (bisimulation : Bisimulation R) :
    Execution.Simulation fun (e : Execution σ ε) (f : Execution τ ε) =>
      R e.memory f.memory ∧ e.failure = f.failure where
  load := by
    rintro e f ⟨related, -⟩ address
    exact bisimulation.load related address
  store := by
    rintro e f ⟨related, failed⟩ address value
    obtain ⟨next, answer⟩ := bisimulation.store related address value
    simp only [Execution.store_memory, Execution.store_failure, failed, answer, and_true]
    exact next

theorem step (bisimulation : Bisimulation R) (related : R m n) :
    R (Memory.step m).1 (Memory.step n).1 ∧ (Memory.step m).2 = (Memory.step n).2 := by
  have fetched : Memory.fetch m (Memory.load m .pc) = Memory.fetch n (Memory.load n .pc) := by
    rw [bisimulation.load related, fetch_congr (bisimulation.load related)]
  cases decoded : Memory.fetch n (Memory.load n .pc) with
  | error cause =>
      rw [step_of_fetch_error decoded, step_of_fetch_error (fetched.trans decoded)]
      exact ⟨related, rfl⟩
  | ok instruction =>
      obtain ⟨next, failed⟩ :=
        bisimulation.simulation.execute (m := m) (n := n) ⟨related, rfl⟩ instruction
      rw [step_of_fetch_ok decoded, step_of_fetch_ok (fetched.trans decoded)]
      simp only [Execution.finish_memory, Execution.finish_result, failed, and_true]
      exact next

theorem steps (bisimulation : Bisimulation R) (related : R m n) (count : Nat) :
    R (Memory.steps m count).1 (Memory.steps n count).1 ∧
      (Memory.steps m count).2 = (Memory.steps n count).2 := by
  induction count generalizing m n with
  | zero => exact ⟨related, rfl⟩
  | succ count ih =>
      obtain ⟨next, answer⟩ := bisimulation.step related
      simp only [steps_succ, answer]
      split
      · exact ih next
      · exact ⟨next, rfl⟩

end Bisimulation

/-- A view of a memory shows its words and takes its stores, so that it can stand in its place. -/
structure View [Memory τ ε] (view : σ → τ) : Prop where
  load (m : σ) (address : Address) : load (view m) address = load m address
  store (m : σ) (address : Address) (value : Word) :
    store (view m) address value = (view (store m address value).1, (store m address value).2)

namespace View

variable {τ : Type w} [Memory τ ε] {view : σ → τ}

theorem bisimulation (isView : View view) : Bisimulation fun m n => m = view n where
  load := by
    rintro _ n rfl address
    exact isView.load n address
  store := by
    rintro _ n rfl address value
    rw [isView.store]
    exact ⟨rfl, rfl⟩

theorem fetch (isView : View view) (m : σ) (pc : Word) :
    Memory.fetch (view m) pc = Memory.fetch m pc :=
  fetch_congr (isView.load m) pc

theorem step (isView : View view) (m : σ) :
    Memory.step (view m) = (view (Memory.step m).1, (Memory.step m).2) :=
  Prod.ext_iff.mpr (isView.bisimulation.step rfl)

theorem steps (isView : View view) (m : σ) (count : Nat) :
    Memory.steps (view m) count = (view (Memory.steps m count).1, (Memory.steps m count).2) :=
  Prod.ext_iff.mpr (isView.bisimulation.steps rfl count)

theorem run (isView : View view) (m : σ) (budget : Nat) :
    Memory.run (view m) budget = (view (Memory.run m budget).1, (Memory.run m budget).2) := by
  simp only [Memory.run, isView.steps]

theorem push (isView : View view) (m : σ) (ring : KeyRing) (key : Word) :
    ring.push (view m) key =
      (((ring.push m key).1.1, view (ring.push m key).1.2), (ring.push m key).2) := by
  simp only [KeyRing.push_eq, isView.load, isView.store]
  split <;> rfl

end View
end Memory
end Dcpu
