import Dcpu.Proofs.Equivalence

/-! # Where a run stops

A run goes on until a step of it fails, and ends where that step ended. Beside a machine alone, a
wired machine stops early at the first step in which its display refuses a call: that step is
complete, and no other follows. Without such a step the two runs end alike.
-/

namespace Dcpu

universe u v w

namespace Memory

variable {σ : Type u} {ε : Type v} [Memory σ ε]

/-- A memory after so many steps, each taken whatever the one before it reported. -/
def stepped (m : σ) : Nat → σ
  | 0 => m
  | count + 1 => stepped (step m).1 count

/-- A run ends with the first step that fails. -/
theorem steps_of_first_error {m : σ} {fault : Fault ε} {j count : Nat} (lt : j < count)
    (before : ∀ i < j, (step (stepped m i)).2 = .ok ())
    (fails : (step (stepped m j)).2 = .error fault) :
    steps m count = (stepped m (j + 1), .error fault) := by
  obtain ⟨count, rfl⟩ : ∃ k, count = k + 1 := ⟨count - 1, by omega⟩
  rw [steps_succ]
  induction j generalizing m count with
  | zero =>
      simp only [stepped] at fails
      simp only [fails, stepped]
  | succ j ih =>
      obtain ⟨count, rfl⟩ : ∃ k, count = k + 1 := ⟨count - 1, by omega⟩
      have first : (step m).2 = .ok () := before 0 (by omega)
      simp only [first, steps_succ]
      exact ih (m := (step m).1) (fun i lt => before (i + 1) (by omega)) fails count (by omega)

theorem steps_of_all_ok {m : σ} {count : Nat}
    (fine : ∀ i < count, (step (stepped m i)).2 = .ok ()) :
    steps m count = (stepped m count, .ok ()) := by
  induction count generalizing m with
  | zero => rfl
  | succ count ih =>
      have first : (step m).2 = .ok () := fine 0 (by omega)
      simp only [steps_succ, first]
      exact ih fun i lt => fine (i + 1) (by omega)

/-- Either every step of a run goes well, or there is a first one that fails. -/
theorem all_ok_or_first_error (m : σ) (count : Nat) :
    (∀ i < count, (step (stepped m i)).2 = .ok ()) ∨
      ∃ j < count, ∃ fault, (∀ i < j, (step (stepped m i)).2 = .ok ()) ∧
        (step (stepped m j)).2 = .error fault := by
  rcases all_or_first (fun i => (step (stepped m i)).2 = .ok ()) count with
    fine | ⟨j, lt, before, fails⟩
  · exact .inl fine
  · cases answer : (step (stepped m j)).2 with
    | ok => exact absurd answer fails
    | error fault => exact .inr ⟨j, lt, fault, before, answer⟩

theorem steps_eq_ok_iff (m : σ) (count : Nat) :
    (steps m count).2 = .ok () ↔ ∀ i < count, (step (stepped m i)).2 = .ok () := by
  constructor
  · intro ended
    rcases all_ok_or_first_error m count with fine | ⟨j, lt, fault, before, fails⟩
    · exact fine
    · rw [steps_of_first_error lt before fails] at ended
      cases ended
  · exact fun fine => congrArg Prod.snd (steps_of_all_ok fine)

theorem View.stepped {τ : Type w} [Memory τ ε] {view : σ → τ} (isView : View view) (m : σ)
    (count : Nat) : Memory.stepped (view m) count = view (Memory.stepped m count) := by
  induction count generalizing m with
  | zero => rfl
  | succ count ih => simp only [Memory.stepped, isView.step, ih]

end Memory

namespace Wired

variable {δ : Type u} [Display δ]

theorem stepped_state (machine : Wired δ) (count : Nat) :
    (Memory.stepped machine count).state = Memory.stepped machine.state count := by
  induction count generalizing machine with
  | zero => rfl
  | succ count ih => rw [Memory.stepped, ih, step_state, Memory.stepped]

/-- A run of a machine alone and one of a wired machine end alike: with the same words, and either
    both at the end of their budget or both at the same word that is no instruction. -/
def EndsAlike (budget : Nat) (alone : State × Except (Fault Empty) Nat)
    (wired : Wired δ × Except (Fault DeviceError) Nat) : Prop :=
  Memory.snapshot wired.1 = Memory.snapshot alone.1 ∧
    (alone.2 = .ok budget ∧ wired.2 = .ok budget ∨
      ∃ cause, alone.2 = .error (.invalidOpcode cause) ∧ wired.2 = .error (.invalidOpcode cause))

/-- While neither stops, a wired machine steps as it would alone. -/
theorem step_stepped_ok (machine : Wired δ) {i : Nat}
    (alone : (Memory.step (Memory.stepped machine.state i)).2 = .ok ())
    (unrefused : ∀ cause, ¬ (Memory.stepped machine i).Refuses cause) :
    (Memory.step (Memory.stepped machine i)).2 = .ok () := by
  rw [step_eq_ok_iff, stepped_state]
  exact ⟨alone, unrefused⟩

/-- Until the display refuses a call, a wired machine runs as it would alone. -/
theorem run_unrefused (machine : Wired δ) (budget : Nat)
    (unrefused : ∀ j < budget, (Memory.steps machine.state (j + 1)).2 = .ok () →
      ∀ cause, ¬ (Memory.stepped machine j).Refuses cause) :
    EndsAlike budget (Memory.run machine.state budget) (Memory.run machine budget) := by
  simp only [Memory.steps_eq_ok_iff] at unrefused
  rcases Memory.all_ok_or_first_error machine.state budget with fine | ⟨j, lt, fault, before, fails⟩
  · have wired : ∀ i < budget, (Memory.step (Memory.stepped machine i)).2 = .ok () := by
      intro i lt
      exact machine.step_stepped_ok (fine i lt) (unrefused i lt fun k le => fine k (by omega))
    simp only [Memory.run, Memory.steps_of_all_ok fine, Memory.steps_of_all_ok wired, EndsAlike,
      snapshot_eq, State.snapshot_eq, stepped_state, true_and]
    exact .inl ⟨rfl, rfl⟩
  · obtain ⟨cause, rfl⟩ : ∃ cause, fault = .invalidOpcode cause := by
      cases fault with
      | invalidOpcode cause => exact ⟨cause, rfl⟩
      | store cause => contradiction
    have wired : ∀ i < j, (Memory.step (Memory.stepped machine i)).2 = .ok () := by
      intro i lt
      exact machine.step_stepped_ok (before i lt)
        (unrefused i (by omega) fun k le => before k (by omega))
    have wiredFails : (Memory.step (Memory.stepped machine j)).2 = .error (.invalidOpcode cause) := by
      rw [step_eq_invalidOpcode_iff, stepped_state, fails]
    simp only [Memory.run, Memory.steps_of_first_error lt before fails,
      Memory.steps_of_first_error lt wired wiredFails, EndsAlike, snapshot_eq, State.snapshot_eq,
      stepped_state, true_and]
    exact .inr ⟨cause, rfl, rfl⟩

/-- A watch on the display changes no answer of any step. -/
theorem step_stepped_watched (machine : Wired δ) (i : Nat) :
    (Memory.step (Memory.stepped machine.watched i)).2 =
      (Memory.step (Memory.stepped machine i)).2 := by
  have seen := isMachineView_unwatched.stepped machine.watched i
  have answer := isMachineView_unwatched.step (Memory.stepped machine.watched i)
  rw [← seen] at answer
  exact (congrArg Prod.snd answer).symm

/-- A run of a wired machine is complete up to the end of the step in which its display first
    refuses a call, and ends there. -/
theorem run_refused (machine : Wired δ) {j budget : Nat} {cause : DeviceError} (lt : j < budget)
    (alone : (Memory.steps machine.state (j + 1)).2 = .ok ())
    (before : ∀ i < j, ∀ cause, ¬ (Memory.stepped machine i).Refuses cause)
    (refuses : (Memory.stepped machine j).Refuses cause) :
    Memory.run machine budget = (Memory.stepped machine (j + 1), .error (.store cause)) ∧
      (Memory.run machine.watched budget).1 = Memory.stepped machine.watched (j + 1) ∧
      Memory.snapshot (Memory.run machine budget).1 =
        Memory.snapshot (Memory.steps machine.state (j + 1)).1 := by
  rw [Memory.steps_eq_ok_iff] at alone
  have fine : ∀ i < j, (Memory.step (Memory.stepped machine i)).2 = .ok () :=
    fun i le => machine.step_stepped_ok (alone i (by omega)) (before i le)
  have fails : (Memory.step (Memory.stepped machine j)).2 = .error (.store cause) := by
    rw [step_eq_store_iff, stepped_state]
    exact ⟨alone j (by omega), refuses⟩
  have run : Memory.run machine budget =
      (Memory.stepped machine (j + 1), .error (.store cause)) := by
    simp only [Memory.run, Memory.steps_of_first_error lt fine fails]
    rfl
  refine ⟨run, ?_, ?_⟩
  · have watchedFine : ∀ i < j, (Memory.step (Memory.stepped machine.watched i)).2 = .ok () :=
      fun i le => (machine.step_stepped_watched i).trans (fine i le)
    have watchedFails := (machine.step_stepped_watched j).trans fails
    simp only [Memory.run, Memory.steps_of_first_error lt watchedFine watchedFails]
  · rw [run, Memory.steps_of_all_ok alone, snapshot_eq, State.snapshot_eq, stepped_state]

/-- A display that refuses nothing refuses no call of any step. -/
theorem not_refuses_of_accepts (machine : Wired δ)
    (accepts : Display.Accepts machine.videoWords machine.display) (count : Nat)
    (cause : DeviceError) : ¬ (Memory.stepped machine count).Refuses cause := by
  induction count generalizing machine with
  | zero => exact machine.not_refuses_iff.mpr (machine.calls_accepted accepts [.request .step]) cause
  | succ count ih => exact ih (Memory.step machine).1 (stable_accepts.step accepts)

/-- A run of a wired machine beside that of the machine alone. If the display refuses no call in
    the steps that go well alone, the runs end alike, as they do whenever the display refuses
    nothing. Otherwise the wired machine stops at the end of the first step with a refused call. -/
theorem runs_beside (alone : State) (wired : Wired δ)
    (same : Memory.snapshot wired = Memory.snapshot alone) (budget : Nat) :
    ((∀ j < budget, (Memory.steps alone (j + 1)).2 = .ok () →
        ∀ cause, ¬ (Memory.stepped wired j).Refuses cause) →
      EndsAlike budget (Memory.run alone budget) (Memory.run wired budget)) ∧
    (∀ j < budget, ∀ cause, (Memory.steps alone (j + 1)).2 = .ok () →
      (∀ i < j, ∀ cause, ¬ (Memory.stepped wired i).Refuses cause) →
      (Memory.stepped wired j).Refuses cause →
        Memory.run wired budget = (Memory.stepped wired (j + 1), .error (.store cause)) ∧
        (Memory.run wired.watched budget).1.display.calls =
          (Memory.stepped wired.watched (j + 1)).display.calls ∧
        Memory.snapshot (Memory.run wired budget).1 =
          Memory.snapshot (Memory.steps alone (j + 1)).1) ∧
    (Display.Accepts wired.videoWords wired.display →
      EndsAlike budget (Memory.run alone budget) (Memory.run wired budget)) := by
  simp only [snapshot_eq, State.snapshot_eq] at same
  subst same
  refine ⟨wired.run_unrefused budget, ?_, ?_⟩
  · intro j lt cause completed before refuses
    obtain ⟨run, watched, words⟩ := wired.run_refused lt completed before refuses
    exact ⟨run, congrArg (·.display.calls) watched, words⟩
  · exact fun accepts => wired.run_unrefused budget fun j _ _ cause =>
      wired.not_refuses_of_accepts accepts j cause

theorem runs_beside_off_screen :
    Memory.snapshot offScreen = Memory.snapshot offScreen.state ∧
      Memory.run offScreen 5 =
        (Memory.stepped offScreen 2, .error (.store (.offScreen 0 0 0))) ∧
      (Memory.run offScreen.watched 5).1.display.calls.length = 1 ∧
      Memory.snapshot (Memory.run offScreen 5).1 =
        Memory.snapshot (Memory.steps offScreen.state 2).1 := by
  have same : Memory.snapshot offScreen = Memory.snapshot offScreen.state := by
    simp only [snapshot_eq, State.snapshot_eq]
  have completed : (Memory.steps offScreen.state 2).2 = .ok () := rfl
  have before : ∀ i < 1, ∀ cause, ¬ (Memory.stepped offScreen i).Refuses cause := by
    intro i lt
    obtain rfl := Nat.lt_one_iff.mp lt
    exact (not_refuses_iff offScreen).mpr fun _ member => absurd member List.not_mem_nil
  have refuses : (Memory.stepped offScreen 1).Refuses (.offScreen 0 0 0) :=
    ⟨_, List.mem_singleton.mpr rfl, rfl⟩
  obtain ⟨run, calls, words⟩ := (runs_beside offScreen.state offScreen same 5).2.1 1 (by decide)
    _ completed before refuses
  exact ⟨same, run, congrArg List.length calls, words⟩

end Wired
end Dcpu
