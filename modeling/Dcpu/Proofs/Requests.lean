import Dcpu.Machine.Wired
import Dcpu.Proofs.Simulation

/-! # Histories of a machine

Whoever holds a machine can load from it and store into it, copy a program into it, look at an
instruction, let it step or run, and push keys through a ring. A history is a list of these, each
carried out on what the one before it left, failed ones included.
-/

namespace Dcpu

universe u v w

/-- A memory that a program can be copied into, which is no store. -/
class Loadable (σ : Type u) where
  loadProgram : σ → List Word → σ

instance : Loadable State where
  loadProgram := State.loadProgram

instance {δ : Type u} : Loadable (Wired δ) where
  loadProgram := Wired.loadProgram

/-- A program is copied to the start of the memory, and no other cell changes. -/
class LawfulLoadable (σ : Type u) {ε : outParam (Type v)} [Memory σ ε] [Loadable σ] : Prop where
  load_ram (m : σ) (program : List Word) (offset : Word) :
    Memory.load (Loadable.loadProgram m program) (.ram offset) =
      program[offset.toNat]?.getD (Memory.load m (.ram offset))
  load_other (m : σ) (program : List Word) {address : Address}
    (other : ∀ offset, address ≠ .ram offset) :
    Memory.load (Loadable.loadProgram m program) address = Memory.load m address

instance : LawfulLoadable State where
  load_ram := State.load_loadProgram_ram
  load_other := State.load_loadProgram

instance {δ : Type u} [Display δ] : LawfulLoadable (Wired δ) where
  load_ram machine := machine.state.load_loadProgram_ram
  load_other machine := machine.state.load_loadProgram

/-- What a machine can be asked to do in one go. -/
inductive Request where
  | load (address : Address)
  | store (address : Address) (value : Word)
  | loadProgram (program : List Word)
  | fetch (pc : Word)
  | step
  deriving Repr, DecidableEq

/-- What a machine answers to a request. -/
inductive Answer (ε : Type v) where
  | word (value : Word)
  | instruction (result : Except InvalidOpcode Instruction)
  | done (result : Except (Fault ε) Unit)

/-- What can happen to a machine. A push brings its ring, so any number of rings, at any of their
    slots, can take part in a history. -/
inductive Action where
  | request (request : Request)
  | run (budget : Nat)
  | push (ring : KeyRing) (key : Word)
  deriving Repr, DecidableEq

def Action.Loads : Action → Prop
  | .request (.loadProgram _) => True
  | _ => False

namespace Memory

variable {σ : Type u} {ε : Type v} [Memory σ ε] [Loadable σ]

def serve (m : σ) : Request → σ × Answer ε
  | .load address => (m, .word (load m address))
  | .store address value =>
      let (m, result) := store m address value
      (m, .done (result.mapError .store))
  | .loadProgram program => (Loadable.loadProgram m program, .done (.ok ()))
  | .fetch pc => (m, .instruction (fetch m pc))
  | .step =>
      let (m, result) := step m
      (m, .done result)

/-- Serve one request after the other, whatever is answered. -/
def serveAll (m : σ) : List Request → σ
  | [] => m
  | request :: rest => serveAll (serve m request).1 rest

def act (m : σ) : Action → σ
  | .request request => (serve m request).1
  | .run budget => (run m budget).1
  | .push ring key => (ring.push m key).1.2

/-- Carry out one action after the other, whatever comes of them. -/
def actAll (m : σ) : List Action → σ
  | [] => m
  | action :: rest => actAll (act m action) rest

namespace Stable

variable {P : σ → Prop}

theorem act (stable : Stable P) {m : σ} (holds : P m) {action : Action}
    (loading : action.Loads → ∀ program, P (Loadable.loadProgram m program)) :
    P (Memory.act m action) := by
  cases action with
  | run budget => exact stable.run holds budget
  | push ring key => exact stable.push holds ring key
  | request request =>
      cases request with
      | load | fetch => exact holds
      | store address value => exact stable m address value holds
      | step => exact stable.step holds
      | loadProgram program => exact loading trivial program

theorem actAll (stable : Stable P) {m : σ} (holds : P m) {actions : List Action}
    (loading : ∀ action ∈ actions, action.Loads →
      ∀ m program, P m → P (Loadable.loadProgram m program)) :
    P (Memory.actAll m actions) := by
  induction actions generalizing m with
  | nil => exact holds
  | cons action rest ih =>
      apply ih
      · exact stable.act holds fun loads program =>
          loading action List.mem_cons_self loads m program holds
      · exact fun other member => loading other (List.mem_cons_of_mem _ member)

end Stable

/-- A view of a whole machine: programs are seen to be copied into it, too. -/
structure MachineView {τ : Type w} [Memory τ ε] [Loadable τ] (view : σ → τ) : Prop
    extends View view where
  loadProgram (m : σ) (program : List Word) :
    Loadable.loadProgram (view m) program = view (Loadable.loadProgram m program)

namespace MachineView

variable {τ : Type w} [Memory τ ε] [Loadable τ] {view : σ → τ}

theorem serve (isView : MachineView view) (m : σ) (request : Request) :
    Memory.serve (view m) request =
      (view (Memory.serve m request).1, (Memory.serve m request).2) := by
  cases request with
  | load address => simp only [Memory.serve, isView.load]
  | store address value => simp only [Memory.serve, isView.store]
  | loadProgram program => simp only [Memory.serve, isView.loadProgram]
  | fetch pc => simp only [Memory.serve, isView.fetch]
  | step => simp only [Memory.serve, isView.step]

theorem act (isView : MachineView view) (m : σ) (action : Action) :
    Memory.act (view m) action = view (Memory.act m action) := by
  cases action with
  | request request => simp only [Memory.act, isView.serve]
  | run budget => simp only [Memory.act, isView.run]
  | push ring key => simp only [Memory.act, isView.push]

theorem actAll (isView : MachineView view) (m : σ) (actions : List Action) :
    Memory.actAll (view m) actions = view (Memory.actAll m actions) := by
  induction actions generalizing m with
  | nil => rfl
  | cons action rest ih => simp only [Memory.actAll, isView.act, ih]

end MachineView
end Memory
end Dcpu
