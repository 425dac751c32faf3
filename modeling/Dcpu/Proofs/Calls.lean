import Dcpu.Proofs.Encoding

/-! # Calls and returns

A call reads where to go before it pushes the return address, whatever its operand has to do with
the stack, the stack pointer or the program counter. Taking the program counter from the stack leads
back behind the call, with the stack as it was. Nothing but one word of the memory keeps the return
address, so it may also be the very instruction that returns.
-/

namespace Dcpu

universe u v

namespace State

/-- A machine in which the operand of a call is resolved. -/
def resolvedTarget (s : State) (target : Operand) : State :=
  { s with pc := s.pc + (Instruction.call target).length, sp := s.sp + target.stackMove }

/-- The complete effect of a call: it pushes the program counter and goes where its operand says. -/
theorem step_call (s : State) {target : Operand}
    (decoded : Memory.fetch s s.pc = .ok (.call target)) :
    let before := s.resolvedTarget target
    let top := before.sp - 1
    Memory.step s =
      ({ before.store (.ram top) before.pc with
          pc := before.read (target.place s.load), sp := top },
        .ok ()) := by
  intro before top
  let start : Execution State Empty :=
    ({ memory := s } : Execution State Empty).store .pc (s.pc + (Instruction.call target).length)
  let e := (start.resolve target).2
  have memory : e.memory = before := start.resolve_memory target
  have place : (start.resolve target).1 = target.place s.load :=
    Execution.resolve_place_of_moved rfl target
  have aim : e.read (start.resolve target).1 = before.read (target.place s.load) := by
    rw [place, e.read_eq, memory]
  have executed : Memory.execute s (.call target) =
      e.call (before.read (target.place s.load)) := by
    rw [← aim]
    rfl
  refine Prod.ext ?_ (s.step_result decoded)
  rw [Memory.step_of_fetch_ok decoded, Execution.finish_memory, executed]
  simp only [Execution.call, Execution.store_memory, Execution.load, memory]
  rfl

/-- The complete effect of taking the program counter from the stack, by the word that says so. -/
theorem step_return (s : State) (here : s.load (.ram s.pc) = 0x61c1) :
    Memory.step s = ({ s with pc := s.load (.ram s.sp), sp := s.sp + 1 }, .ok ()) := by
  have decoded : Memory.fetch s s.pc = .ok (.basic (.compute .set) .pc .pop) := by
    rw [Memory.fetch_eq_ok_iff_written]
    change Memory.wordsFrom s s.pc (0 + 1) = [0x61c1]
    rw [Memory.wordsFrom_succ]
    exact congrArg (· :: []) here
  rw [Memory.step_of_fetch_ok decoded]
  rfl

end State

namespace Memory

variable {σ : Type u} {ε : Type v} [Memory σ ε]

/-- The complete effect of a call, and of the return if one stands at its destination. The operand
    is read once the program counter and the stack pointer have moved for it, but before the return
    address is pushed. What stands at the destination counts as it is after the call, so the return
    address itself may stand there. -/
theorem call_and_return [LawfulMemory σ] (m : σ) {target : Operand}
    (decoded : fetch m (load m .pc) = .ok (.call target)) :
    let s := snapshot m
    let after := snapshot (step m).1
    let behind := s.pc + (Instruction.call target).length
    let sp := s.sp + target.stackMove
    let destination := State.read { s with pc := behind, sp } (target.place s.load)
    step s = (after, .ok ()) ∧
    after.pc = destination ∧
    after.sp = sp - 1 ∧
    (∀ offset, after.load (.ram offset) =
      if offset = sp - 1 then behind else s.load (.ram offset)) ∧
    after.registers = s.registers ∧
    after.overflow = s.overflow ∧
    (after.load (.ram destination) = 0x61c1 →
      step after = ({ after with pc := behind, sp }, .ok ()) ∧
      snapshot (step (step m).1).1 = { after with pc := behind, sp }) := by
  intro s after behind sp destination
  have decodedAlone : fetch s s.pc = .ok (.call target) := (fetch_snapshot m s.pc).trans decoded
  let called : State :=
    { (s.resolvedTarget target).store (.ram (sp - 1)) behind with pc := destination, sp := sp - 1 }
  have stepped : step s = (called, .ok ()) := s.step_call decodedAlone
  have same : after = called := (snapshot_step m).trans (congrArg Prod.fst stepped)
  have words (offset : Word) : after.load (.ram offset) =
      if offset = sp - 1 then behind else s.load (.ram offset) := by
    have stored := s.load_store (.ram (sp - 1)) (.ram offset) behind
    simp only [Address.ram.injEq] at stored
    rw [same]
    exact stored
  have pc : after.pc = destination := congrArg State.pc same
  have top : after.sp = sp - 1 := congrArg State.sp same
  have registers : after.registers = s.registers := by rw [same]; rfl
  have overflow : after.overflow = s.overflow := by rw [same]; rfl
  refine ⟨by rw [same, stepped], pc, top, words, registers, overflow, ?_⟩
  intro returns
  rw [← pc] at returns
  have returned : step after = ({ after with pc := behind, sp }, .ok ()) := by
    rw [after.step_return returns, top, words, if_pos rfl, UInt16.sub_add_cancel]
  exact ⟨returned, (snapshot_step _).trans (congrArg Prod.fst returned)⟩

end Memory

/-- A machine that calls a subroutine at the top of the stack, behind the address that spells a
    return. -/
def State.selfReturning : State :=
  { ((State.boot []).store (.ram 0x61bf) 0x7c10).store (.ram 0x61c0) 0x2000 with
    pc := 0x61bf, sp := 0x2001 }

theorem Memory.call_and_return_selfReturning :
    let after := (step State.selfReturning).1
    fetch State.selfReturning (load State.selfReturning .pc) = .ok (.call (.literal 0x2000)) ∧
      after.load (.ram 0x2000) = 0x61c1 ∧
      step after = ({ after with pc := 0x61c1, sp := 0x2001 }, .ok ()) := by
  intro after
  have decoded : fetch State.selfReturning (load State.selfReturning .pc) =
      .ok (.call (.literal 0x2000)) := rfl
  obtain ⟨-, -, -, words, -, -, returns⟩ := call_and_return State.selfReturning decoded
  simp only [State.snapshot_eq] at words returns
  have top : after.load (.ram 0x2000) = 0x61c1 := words 0x2000
  exact ⟨decoded, top, (returns top).1⟩

end Dcpu
