import Dcpu.Proofs.Forwarding
import Dcpu.Screen.TextScreen

/-! # Machines with and without a display

A display changes nothing about the machine behind it. A machine alone and a wired one that start
with the same words keep the same words, request by request, whatever the display refuses. Only the
answers tell them apart: a wired machine reports the call that its display refused. A run of the
wired machine is therefore the run of the machine alone, up to the end of the first step in which
the display refuses a call.
-/

namespace Dcpu

universe u

namespace Wired

variable {δ : Type u}

section Snapshot

variable [Display δ]

@[simp]
theorem snapshot_eq (machine : Wired δ) : Memory.snapshot machine = machine.state :=
  State.ext_load fun _ => Memory.load_snapshot machine _

end Snapshot

/-- What an instruction reports after its calls: the first refusal among them. -/
def report (calls : List Call) : Except (Fault DeviceError) Unit :=
  Execution.outcome (calls.findSome? Call.refusal?)

/-- How the answers of a machine alone and of a wired one compare, when `calls` are the calls that
    the wired one made for its answer. -/
structure Agrees (calls : List Call) (alone : Answer Empty) (wired : Answer DeviceError) : Prop where
  word (value : Word) : wired = .word value ↔ alone = .word value
  instruction (result : Except InvalidOpcode Instruction) :
    wired = .instruction result ↔ alone = .instruction result
  invalidOpcode (cause : InvalidOpcode) :
    wired = .done (.error (.invalidOpcode cause)) ↔ alone = .done (.error (.invalidOpcode cause))
  refused (cause : DeviceError) :
    wired = .done (.error (.store cause)) ↔
      alone = .done (.ok ()) ∧ ∃ call ∈ calls, call.answer = .error cause
  accepted :
    wired = .done (.ok ()) ↔ alone = .done (.ok ()) ∧ ∀ call ∈ calls, call.answer = .ok ()
  /-- Calls are made only on the way to success. -/
  silent : alone ≠ .done (.ok ()) → calls = []

namespace Agrees

theorem same_word (value : Word) : Agrees [] (.word value) (.word value) := by
  constructor <;> simp

theorem same_instruction (result : Except InvalidOpcode Instruction) :
    Agrees [] (.instruction result) (.instruction result) := by
  constructor <;> simp

theorem same_invalidOpcode (cause : InvalidOpcode) :
    Agrees [] (.done (.error (.invalidOpcode cause)))
      (.done (.error (.invalidOpcode cause))) := by
  constructor <;> simp

theorem reported {calls : List Call} (atMost : calls.length ≤ 1) :
    Agrees calls (.done (.ok ())) (.done (report calls)) := by
  match calls, atMost with
  | [], _ => constructor <;> simp [report, Execution.outcome]
  | [call], _ =>
      cases answer : call.answer <;> constructor <;>
        simp [report, Execution.outcome, Call.refusal?, Memory.failure?, answer]

end Agrees

variable [Display δ]

def requestCalls (machine : Wired δ) (request : Request) : List Call :=
  (Memory.serve machine.watched request).1.display.calls

/-- The next step makes a call that is refused for a cause. -/
def Refuses (machine : Wired δ) (cause : DeviceError) : Prop :=
  ∃ call ∈ machine.requestCalls .step, call.answer = .error cause

theorem length_requestCalls_le (machine : Wired δ) (request : Request) :
    (machine.requestCalls request).length ≤ 1 := by
  have calls := congrArg List.length (machine.calls_act (.request request))
  rw [List.length_map] at calls
  exact calls ▸ machine.length_contribution_le request

theorem store_answer (machine : Wired (Watched δ)) (address : Address) (value : Word)
    (outside : machine.videoOffset? address = none) :
    (Memory.store machine address value).2 = .ok () := by
  simp only [Memory.store, store, outside]

/-- A wired machine in the middle of an instruction has the words of the machine alone, and has
    kept the first refusal of its display. -/
theorem simulation_watched : Execution.Simulation
    fun (e : Execution (Wired (Watched δ)) DeviceError) (f : Execution State Empty) =>
      e.memory.state = f.memory ∧
        e.failure = e.memory.display.calls.findSome? Call.refusal? where
  load := by
    rintro e f ⟨same, -⟩ address
    exact congrArg (State.load · address) same
  store := by
    rintro e f ⟨same, failed⟩ address value
    simp only [Execution.store_memory, Execution.store_failure, store_state, same, failed,
      store_calls, List.findSome?_append]
    refine ⟨rfl, ?_⟩
    cases place : e.memory.videoOffset? address with
    | none => rw [store_answer e.memory address value place]; rfl
    | some offset => simp [Call.refusal?]

/-- A step of a wired machine beside that of the machine alone. -/
theorem step_beside (machine : Wired δ) :
    (Memory.step machine).1.state = (Memory.step machine.state).1 ∧
      ((∃ cause, (Memory.step machine.state).2 = .error (.invalidOpcode cause) ∧
          (Memory.step machine).2 = .error (.invalidOpcode cause) ∧
          machine.requestCalls .step = []) ∨
        (Memory.step machine.state).2 = .ok () ∧
          (Memory.step machine).2 = report (machine.requestCalls .step)) := by
  have seen : Memory.step machine =
      ((Memory.step machine.watched).1.unwatched, (Memory.step machine.watched).2) :=
    isMachineView_unwatched.step machine.watched
  have fetched : Memory.fetch machine.watched (Memory.load machine.watched .pc) =
      Memory.fetch machine.state (Memory.load machine.state .pc) :=
    Memory.fetch_congr (fun _ => rfl) _
  rw [seen, requestCalls, Memory.serve]
  cases decoded : Memory.fetch machine.state (Memory.load machine.state .pc) with
  | error cause =>
      rw [Memory.step_of_fetch_error decoded, Memory.step_of_fetch_error (fetched.trans decoded)]
      exact ⟨rfl, .inl ⟨cause, rfl, rfl, rfl⟩⟩
  | ok instruction =>
      obtain ⟨same, failed⟩ :=
        simulation_watched.execute (m := machine.watched) (n := machine.state) ⟨rfl, rfl⟩ instruction
      rw [Memory.step_of_fetch_ok decoded, Memory.step_of_fetch_ok (fetched.trans decoded)]
      simp only [Execution.finish_memory, Execution.finish_result, failed]
      exact ⟨same, .inr ⟨Execution.outcome_private _, rfl⟩⟩

theorem step_state (machine : Wired δ) :
    (Memory.step machine).1.state = (Memory.step machine.state).1 :=
  machine.step_beside.1

theorem step_agrees (machine : Wired δ) :
    Agrees (machine.requestCalls .step) (.done (Memory.step machine.state).2)
      (.done (Memory.step machine).2) := by
  obtain ⟨-, ⟨cause, alone, wired, silent⟩ | ⟨alone, wired⟩⟩ := machine.step_beside
  · rw [alone, wired, silent]
    exact .same_invalidOpcode cause
  · rw [alone, wired]
    exact .reported (machine.length_requestCalls_le .step)

/-- A step of a wired machine stops at the words at which the machine alone does. -/
theorem step_eq_invalidOpcode_iff (machine : Wired δ) (cause : InvalidOpcode) :
    (Memory.step machine).2 = .error (.invalidOpcode cause) ↔
      (Memory.step machine.state).2 = .error (.invalidOpcode cause) := by
  simpa only [Answer.done.injEq] using machine.step_agrees.invalidOpcode cause

theorem step_eq_store_iff (machine : Wired δ) (cause : DeviceError) :
    (Memory.step machine).2 = .error (.store cause) ↔
      (Memory.step machine.state).2 = .ok () ∧ machine.Refuses cause := by
  simpa only [Answer.done.injEq, Refuses] using machine.step_agrees.refused cause

theorem not_refuses_iff (machine : Wired δ) :
    (∀ cause, ¬ machine.Refuses cause) ↔
      ∀ call ∈ machine.requestCalls .step, call.answer = .ok () := by
  constructor
  · intro unrefused call member
    cases answer : call.answer with
    | ok => rfl
    | error cause => exact absurd ⟨call, member, answer⟩ (unrefused cause)
  · rintro accepted cause ⟨call, member, refused⟩
    rw [accepted call member] at refused
    cases refused

theorem step_eq_ok_iff (machine : Wired δ) :
    (Memory.step machine).2 = .ok () ↔
      (Memory.step machine.state).2 = .ok () ∧ ∀ cause, ¬ machine.Refuses cause := by
  simpa only [Answer.done.injEq, not_refuses_iff] using machine.step_agrees.accepted

theorem serve_state (machine : Wired δ) (request : Request) :
    (Memory.serve machine request).1.state = (Memory.serve machine.state request).1 := by
  cases request with
  | load | loadProgram | fetch => rfl
  | store address value => exact machine.state_store address value
  | step => exact machine.step_state

theorem serveAll_state (machine : Wired δ) (history : List Request) :
    (Memory.serveAll machine history).state = Memory.serveAll machine.state history := by
  induction history generalizing machine with
  | nil => rfl
  | cons request rest ih => rw [Memory.serveAll, ih, serve_state, Memory.serveAll]

theorem serve_agrees (machine : Wired δ) (request : Request) :
    Agrees (machine.requestCalls request) (Memory.serve machine.state request).2
      (Memory.serve machine request).2 := by
  cases request with
  | load address => exact .same_word _
  | loadProgram program => exact Agrees.reported (Nat.zero_le 1 : ([] : List Call).length ≤ 1)
  | fetch pc =>
      have fetched : Memory.fetch machine pc = Memory.fetch machine.state pc :=
        Memory.fetch_congr (fun _ => rfl) pc
      simp only [Memory.serve, fetched]
      exact .same_instruction _
  | store address value =>
      have calls := store_calls machine.watched address value
      have answer : (Memory.store machine address value).2 =
          (Memory.store machine.watched address value).2 :=
        congrArg Prod.snd (isMachineView_unwatched.store machine.watched address value)
      have reported : (Memory.store machine address value).2.mapError Fault.store =
          report (machine.requestCalls (.store address value)) := by
        rw [answer, requestCalls, Memory.serve, calls]
        cases place : machine.watched.videoOffset? address with
        | none => rw [store_answer _ _ _ place]; rfl
        | some offset =>
            cases (Memory.store machine.watched address value).2 <;> rfl
      have agrees := Agrees.reported (machine.length_requestCalls_le (.store address value))
      rw [← reported] at agrees
      exact agrees
  | step => exact machine.step_agrees

/-- After every history of requests, the next request leaves the same words in a wired machine and
    in one alone, and their answers agree up to the call that the display refused. -/
theorem histories_agree (alone : State) (wired : Wired δ)
    (same : Memory.snapshot wired = Memory.snapshot alone) (history : List Request)
    (request : Request) :
    let alone := Memory.serveAll alone history
    let wired := Memory.serveAll wired history
    Memory.snapshot wired = Memory.snapshot alone ∧
      Memory.snapshot (Memory.serve wired request).1 =
        Memory.snapshot (Memory.serve alone request).1 ∧
      (wired.requestCalls request).length ≤ 1 ∧
      Agrees (wired.requestCalls request) (Memory.serve alone request).2
        (Memory.serve wired request).2 := by
  simp only [snapshot_eq, State.snapshot_eq] at same ⊢
  subst same
  rw [← serveAll_state]
  exact ⟨rfl, serve_state _ request, length_requestCalls_le _ request, serve_agrees _ request⟩

/-- A machine whose screen has no place for the one word of its video window. Its second
    instruction stores there. -/
def offScreen : Wired TextScreen :=
  .boot [0x8401, 0x85e1, 0x8000, 0x8401] (.blank 0 0) 1

theorem histories_agree_off_screen :
    Memory.snapshot offScreen = Memory.snapshot offScreen.state ∧
      Memory.snapshot (Memory.serveAll offScreen [.store (.ram 0x8000) 7, .step]) =
        Memory.snapshot (Memory.serveAll offScreen.state [.store (.ram 0x8000) 7, .step]) ∧
      (Memory.serve (Memory.serveAll offScreen [.store (.ram 0x8000) 7, .step]) .step).2 =
        .done (.error (.store (.offScreen 0 0 0))) := by
  have same : Memory.snapshot offScreen = Memory.snapshot offScreen.state := by
    simp only [snapshot_eq, State.snapshot_eq]
  obtain ⟨words, -, -, agrees⟩ :=
    histories_agree offScreen.state offScreen same [.store (.ram 0x8000) 7, .step] .step
  refine ⟨same, words, (agrees.refused _).mpr ⟨?_, ?_⟩⟩
  · rfl
  · exact ⟨_, List.mem_singleton.mpr rfl, rfl⟩

end Wired
end Dcpu
