import Dcpu.Proofs.Deferral
import Dcpu.Proofs.Stores

/-! # Stores that fail

A store that fails has still written its word, so an instruction goes on after it. Beside a memory
that never fails, one that fails at any of its stores makes the same stores and ends with the same
words. What it reports at the end is the first failure, however many there were and whatever it is:
a memory that calls its failure an invalid opcode makes a step report one, where there is none.
-/

namespace Dcpu

universe u v w x

/-- A memory of which nothing is known but that it is one. -/
structure MemoryObject (ε : Type v) where
  Carrier : Type u
  [memory : Memory Carrier ε]
  [lawful : LawfulMemory Carrier]
  content : Carrier

namespace MemoryObject

attribute [instance] MemoryObject.memory MemoryObject.lawful

variable {ε : Type v}

instance : Memory (MemoryObject.{u, v} ε) ε where
  load object := Memory.load object.content
  store object address value :=
    let (content, answer) := Memory.store object.content address value
    ({ Carrier := object.Carrier, content }, answer)

instance : LawfulMemory (MemoryObject.{u, v} ε) where
  load_store object := LawfulMemory.load_store object.content

variable {σ : Type u} [Memory σ ε] [LawfulMemory σ]

def of (m : σ) : MemoryObject ε where
  Carrier := σ
  content := m

theorem isView_of : Memory.View (of : σ → MemoryObject ε) where
  load _ _ := rfl
  store _ _ _ := rfl

end MemoryObject

namespace Memory

variable {ε : Type v}

theorem failure?_eq_none_iff {answer : Except ε Unit} : failure? answer = none ↔ answer = .ok () := by
  rcases answer with cause | ⟨⟨⟩⟩
  · simp only [failure?_error, reduceCtorEq]
  · simp only [failure?_ok]

theorem failure?_eq_some_iff {answer : Except ε Unit} {cause : ε} :
    failure? answer = some cause ↔ answer = .error cause := by
  rcases answer with other | ⟨⟨⟩⟩
  · simp only [failure?_error, Option.some.injEq, Except.error.injEq]
  · simp only [failure?_ok, reduceCtorEq]

end Memory

namespace Execution

variable {ε : Type v} {failure : Option ε}

theorem outcome_ne_invalidOpcode {cause : InvalidOpcode} :
    outcome failure ≠ .error (.invalidOpcode cause) := by
  cases failure <;> simp only [outcome, ne_eq, reduceCtorEq, Except.error.injEq, not_false_eq_true]

end Execution

def Entry.written {ε : Type v} (entry : Entry ε) : Address × Word :=
  (entry.address, entry.value)

namespace Journal

variable {σ : Type u} {ε : Type v} [Memory σ ε]

def written (journal : Journal σ ε) : List (Address × Word) :=
  journal.entries.map Entry.written

def failure? (journal : Journal σ ε) : Option ε :=
  journal.entries.findSome? fun entry => Memory.failure? entry.answer

theorem written_store (journal : Journal σ ε) (address : Address) (value : Word) :
    (Memory.store journal address value).1.written = journal.written ++ [(address, value)] := by
  simp only [Memory.store, written, List.map_append, List.map_singleton, Entry.written]

theorem failure?_store (journal : Journal σ ε) (address : Address) (value : Word) :
    (Memory.store journal address value).1.failure? =
      journal.failure?.or (Memory.failure? (Memory.store journal address value).2) := by
  simp only [Memory.store, failure?, List.findSome?_append, List.findSome?_singleton]

end Journal

namespace Memory

variable {σ : Type u} {ε : Type v} [Memory σ ε] {τ : Type w} {ε' : Type x} [Memory τ ε']

/-- The next step of a memory whose stores are written down from here on. -/
def journaledStep (m : σ) : Journal σ ε :=
  (step ({ memory := m } : Journal σ ε)).1

/-- The stores of the next step, in the order in which they are made. -/
def stepStores (m : σ) : List (Entry ε) :=
  (journaledStep m).entries

/-- The first of the stores of the next step that fails, fails with this error. -/
def FirstFailure (m : σ) (cause : ε) : Prop :=
  ∃ before entry later, stepStores m = before ++ entry :: later ∧
    entry.answer = .error cause ∧ ∀ earlier ∈ before, earlier.answer = .ok ()

/-- Executions that have made the same stores so far, of which those on the right went well. -/
def StoresAlike (e : Execution (Journal σ ε) ε) (f : Execution (Journal τ ε') ε') : Prop :=
  (∀ address, e.load address = f.load address) ∧
    e.memory.written = f.memory.written ∧
    e.failure = e.memory.failure? ∧ f.failure = none

theorem simulation_storesAlike [LawfulMemory σ] [LawfulMemory τ]
    (never : ∀ (n : τ) address value, (store n address value).2 = .ok ()) :
    Execution.Simulation (StoresAlike (σ := σ) (τ := τ)) where
  load related := related.1
  store := by
    rintro e f ⟨same, written, first, fine⟩ address value
    refine ⟨?_, ?_, ?_, ?_⟩
    · intro other
      rw [Execution.load_store, Execution.load_store, same]
    · simp only [Execution.store_memory, Journal.written_store, written]
    · rw [Execution.store_failure, Execution.store_memory, Journal.failure?_store, first]
    · have answer : (store f.memory address value).2 = .ok () := never f.memory.memory address value
      rw [Execution.store_failure, fine, answer]
      rfl

theorem step_journaled (m : σ) :
    (journaledStep m).memory = (step m).1 ∧
      (step ({ memory := m } : Journal σ ε)).2 = (step m).2 := by
  have seen := Journal.isView_memory.step ({ memory := m } : Journal σ ε)
  exact ⟨(congrArg Prod.fst seen).symm, (congrArg Prod.snd seen).symm⟩

theorem stepStores_of_fetch_error {m : σ} {cause : InvalidOpcode}
    (undecodable : fetch m (load m .pc) = .error cause) : stepStores m = [] := by
  have fetched : fetch ({ memory := m } : Journal σ ε) (load m .pc) = .error cause :=
    (Journal.isView_memory.fetch _ _).symm.trans undecodable
  rw [stepStores, journaledStep, step_of_fetch_error fetched]

theorem journaledStep_of_fetch_ok {m : σ} {instruction : Instruction}
    (decoded : fetch m (load m .pc) = .ok instruction) :
    let e := execute ({ memory := m } : Journal σ ε) instruction
    journaledStep m = e.memory ∧ (step m).2 = Execution.outcome e.failure := by
  have fetched : fetch ({ memory := m } : Journal σ ε) (load m .pc) = .ok instruction :=
    (Journal.isView_memory.fetch _ _).symm.trans decoded
  rw [journaledStep, ← (step_journaled m).2, step_of_fetch_ok fetched]
  exact ⟨Execution.finish_memory _, Execution.finish_result _⟩

theorem failure?_journaledStep_eq_none_iff (m : σ) :
    (journaledStep m).failure? = none ↔ ∀ entry ∈ stepStores m, entry.answer = .ok () := by
  simp only [Journal.failure?, List.findSome?_eq_none_iff, failure?_eq_none_iff]
  rfl

theorem failure?_journaledStep_eq_some_iff (m : σ) (cause : ε) :
    (journaledStep m).failure? = some cause ↔ FirstFailure m cause := by
  simp only [Journal.failure?, List.findSome?_eq_some_iff, failure?_eq_none_iff,
    failure?_eq_some_iff]
  rfl

/-- Two memories with the same words, of which one never fails, make the same stores in a step and
    have the same words after it. Either both stop at a word that is no instruction, or both carry
    out the same one, and the first failure is reported. -/
theorem step_alike [LawfulMemory σ] [LawfulMemory τ] {m : σ} {n : τ}
    (same : ∀ address, load m address = load n address)
    (never : ∀ (n : τ) address value, (store n address value).2 = .ok ()) :
    (stepStores m).map Entry.written = (stepStores n).map Entry.written ∧
    (∀ address, load (step m).1 address = load (step n).1 address) ∧
    ((∃ cause, stepStores m = [] ∧ (step m).2 = .error (.invalidOpcode cause) ∧
        (step n).2 = .error (.invalidOpcode cause)) ∨
      (step m).2 = Execution.outcome (journaledStep m).failure? ∧ (step n).2 = .ok ()) := by
  have fetched : fetch n (load n .pc) = fetch m (load m .pc) := by
    rw [same, fetch_congr same]
  cases decoded : fetch m (load m .pc) with
  | error cause =>
      -- Neither machine has stored anything when it finds that the word is no instruction.
      have stores := stepStores_of_fetch_error decoded
      have storesBeside := stepStores_of_fetch_error (fetched.trans decoded)
      rw [stores, storesBeside, step_of_fetch_error decoded,
        step_of_fetch_error (fetched.trans decoded)]
      exact ⟨rfl, same, .inl ⟨cause, rfl, rfl, rfl⟩⟩
  | ok instruction =>
      -- From empty journals, both machines carry the instruction out side by side.
      obtain ⟨ends, answer⟩ := journaledStep_of_fetch_ok decoded
      obtain ⟨endsBeside, answerBeside⟩ := journaledStep_of_fetch_ok (fetched.trans decoded)
      obtain ⟨words, written, first, fine⟩ :=
        (simulation_storesAlike never).execute (m := { memory := m }) (n := { memory := n })
          ⟨same, rfl, rfl, rfl⟩ instruction
      rw [← ends, ← endsBeside] at written
      rw [← ends] at first
      rw [fine] at answerBeside
      rw [first] at answer
      refine ⟨written, fun address => ?_, .inr ⟨answer, answerBeside⟩⟩
      rw [← (step_journaled m).1, ← (step_journaled n).1, ends, endsBeside]
      exact words address

/-- Every memory does in a step what a machine alone would do to the same words. -/
theorem snapshot_step [LawfulMemory σ] (m : σ) : snapshot (step m).1 = (step (snapshot m)).1 := by
  have alike := step_alike (n := snapshot m) (fun address => (load_snapshot m address).symm)
    fun _ _ _ => rfl
  apply State.ext_load
  intro address
  rw [load_snapshot]
  exact alike.2.1 address

end Memory

namespace Memory

variable {σ : Type u} [Memory σ Error] {τ : Type w} {ε : Type x} [Memory τ ε]

/-- How a step of a memory whose stores may fail compares with a step of one that never fails. Its
    stores may fail with any error, also with one that a step has of its own. -/
structure CompletesLike (m : σ) (n : τ) : Prop where
  stores : (stepStores m).map Entry.written = (stepStores n).map Entry.written
  words (address : Address) : load (stepDeferring m).1 address = load (step n).1 address
  /-- Both stop at a word that is no instruction, and before any store. -/
  undecodable (cause : InvalidOpcode) : (step n).2 = .error (.invalidOpcode cause) →
    stepStores m = [] ∧ (stepDeferring m).2 = .error (.invalidOpcode cause)
  finished : (stepDeferring m).2 = .ok () ↔
    (step n).2 = .ok () ∧ ∀ entry ∈ stepStores m, entry.answer = .ok ()
  /-- The failure that is reported is that of the first store that failed. -/
  failed (cause : Error) : (step n).2 = .ok () →
    ((stepDeferring m).2 = .error cause ↔ FirstFailure m cause)
  /-- An invalid opcode is reported where the other one reports it, if no store says that it found
      one. -/
  invalidOpcode (cause : InvalidOpcode)
    (honest : ∀ entry ∈ stepStores m, ∀ other, entry.answer ≠ .error (.invalidOpcode other)) :
    (stepDeferring m).2 = .error (.invalidOpcode cause) ↔
      (step n).2 = .error (.invalidOpcode cause)

theorem completesLike [LawfulMemory σ] [LawfulMemory τ] {m : σ} {n : τ}
    (same : ∀ address, load m address = load n address)
    (never : ∀ (n : τ) address value, (store n address value).2 = .ok ()) : CompletesLike m n := by
  obtain ⟨stores, words, ⟨cause, none, stops, stopsBeside⟩ | ⟨answer, fine⟩⟩ :=
    step_alike same never
  · have reported : (stepDeferring m).2 = .error (.invalidOpcode cause) := by
      rw [stepDeferring_eq, stops]
      rfl
    constructor
    case stores => exact stores
    case words => exact (stepDeferring_eq m) ▸ words
    all_goals simp [none, reported, stopsBeside]
  · have reported : (stepDeferring m).2 = Execution.report (journaledStep m).failure? := by
      rw [stepDeferring_eq, answer]
      exact Execution.mapError_outcome _
    have failed (cause : Error) : (stepDeferring m).2 = .error cause ↔ FirstFailure m cause := by
      rw [reported, Execution.report_eq_error_iff, failure?_journaledStep_eq_some_iff]
    constructor
    case stores => exact stores
    case words => exact (stepDeferring_eq m) ▸ words
    case undecodable =>
        intro cause stops
        cases stops.symm.trans fine
    case finished =>
        rw [reported, Execution.report_eq_ok_iff, failure?_journaledStep_eq_none_iff, fine]
        exact (and_iff_right rfl).symm
    case failed => exact fun cause _ => failed cause
    case invalidOpcode =>
        intro cause honest
        rw [failed, fine]
        refine iff_of_false ?_ nofun
        rintro ⟨before, entry, later, split, answered, -⟩
        exact honest entry (split ▸ List.mem_append_right _ List.mem_cons_self) cause answered

/-- Beside a memory that never fails, one whose stores may fail carries every instruction through to
    its end, and then reports the first failure. It makes no difference whether the memory is known
    for what it is. Nor does it make one whether the failures are put off by the memory or kept aside
    by the step. -/
theorem step_completes_despite_failures [LawfulMemory σ] [LawfulMemory τ] (m : σ) (n : τ)
    (same : ∀ address, load m address = load n address)
    (never : ∀ (n : τ) address value, (store n address value).2 = .ok ()) :
    CompletesLike m n ∧ CompletesLike (MemoryObject.of m) n ∧
      stepDeferring m = ((step m).1, (step m).2.mapError Fault.merge) ∧
      (stepDeferring ({ memory := m } : Journal σ Error)).1.entries = stepStores m ∧
      step (MemoryObject.of m) = (MemoryObject.of (step m).1, (step m).2) := by
  refine ⟨completesLike same never, completesLike ?_ never, stepDeferring_eq m, ?_,
    MemoryObject.isView_of.step m⟩
  · intro address
    rw [MemoryObject.isView_of.load]
    exact same address
  · rw [stepDeferring_eq]
    rfl

end Memory

/-- A machine that answers its stores as planned, whatever they are, and well after the plan. -/
structure Planned where
  state : State
  plan : List (Except Error Unit)

namespace Planned

instance : Memory Planned Error where
  load machine := machine.state.load
  store machine address value :=
    ({ state := machine.state.store address value, plan := machine.plan.tail },
      machine.plan.headD (.ok ()))

instance : LawfulMemory Planned where
  load_store machine := machine.state.load_store

/-- A call to the top of the stack, of whose five stores three fail. -/
def calling : Planned where
  state := State.boot [0x6010]
  plan := [.ok (), .error (.display .noSuchFile), .ok (), .error (.io .oddImage),
    .error (.io .noSuchFile)]

/-- An instruction with a store that fails, and calls its failure an invalid opcode. -/
def misreporting : Planned where
  state := State.boot [0x8001]
  plan := [.error (.invalidOpcode { pc := 7, word := 0 })]

end Planned

namespace Memory

theorem step_completes_despite_failures_calling :
    (∀ address, load Planned.calling address = load (State.boot [0x6010]) address) ∧
      (∀ (n : State) address value, (store n address value).2 = .ok ()) ∧
      (stepDeferring Planned.calling).2 = .error (.display .noSuchFile) ∧
      load (stepDeferring Planned.calling).1 (.ram 0) = 1 := by
  have same : ∀ address,
      load Planned.calling address = load (State.boot [0x6010]) address :=
    fun _ => rfl
  have never : ∀ (n : State) address value, (store n address value).2 = .ok () :=
    fun _ _ _ => rfl
  obtain ⟨completes, -⟩ := step_completes_despite_failures _ _ same never
  refine ⟨same, never, (completes.failed _ rfl).mpr ?_, ?_⟩
  · refine ⟨[⟨.pc, 1, .ok ()⟩], ⟨.sp, 1, .error (.display .noSuchFile)⟩,
      [⟨.sp, 0, .ok ()⟩, ⟨.ram 0, 1, .error (.io .oddImage)⟩,
        ⟨.pc, 0x6010, .error (.io .noSuchFile)⟩], rfl, rfl, ?_⟩
    intro earlier member
    rw [List.mem_singleton.mp member]
  · rw [completes.words]
    rfl

/-- A step can report an invalid opcode where a machine that never fails has none to report. -/
theorem invalidOpcode_of_store :
    (∀ address, load Planned.misreporting address = load (State.boot [0x8001]) address) ∧
      (stepDeferring Planned.misreporting).2 = .error (.invalidOpcode { pc := 7, word := 0 }) ∧
      (step (State.boot [0x8001])).2 = .ok () ∧
      ¬ ∀ cause, (stepDeferring Planned.misreporting).2 = .error (.invalidOpcode cause) ↔
        (step (State.boot [0x8001])).2 = .error (.invalidOpcode cause) := by
  have reports : (stepDeferring Planned.misreporting).2 =
      .error (.invalidOpcode { pc := 7, word := 0 }) := rfl
  have fine : (step (State.boot [0x8001])).2 = .ok () := rfl
  refine ⟨fun _ => rfl, reports, fine, fun alike => ?_⟩
  cases ((alike _).mp reports).symm.trans fine

end Memory
end Dcpu
