import Dcpu.Proofs.Equivalence
import Dcpu.Proofs.Failures

/-! # Words that are no instruction

A word is no instruction if its opcode bits are zero and its other bits do not say that it is a
call. A machine that comes to such a word stops there before anything is stored, and nothing else
makes it stop so. Once stopped it stays: however large the budget of its run, and however often it
runs again.
-/

namespace Dcpu

universe u v w

theorem Opcode.ofNumber?_eq_none_iff {n : Nat} (fourBits : n < 16) :
    ofNumber? n = none ↔ n = 0 := by
  decide +revert

namespace Instruction

theorem toNat_opcodeBits_lt (word : Word) : (opcodeBits word).toNat < 16 := by
  rw [opcodeBits, UInt16.toNat_and]
  exact Nat.and_lt_two_pow (n := 4) _ (by decide)

def Undecodable (word : Word) : Prop :=
  word &&& 0xf = 0 ∧ (word >>> 4) &&& 0x3f ≠ 1

theorem ofNumber?_opcodeBits_eq_none_iff (word : Word) :
    Opcode.ofNumber? (opcodeBits word).toNat = none ↔ word &&& 0xf = 0 := by
  rw [Opcode.ofNumber?_eq_none_iff (toNat_opcodeBits_lt word), opcodeBits, ← UInt16.toNat_inj]
  rfl

theorem decode_eq_none_iff (word : Word) (nextWord : Word → Id Word) :
    Id.run (decode word nextWord) = none ↔ Undecodable word := by
  have basic := ofNumber?_opcodeBits_eq_none_iff word
  simp only [decode, Undecodable, ← basic]
  cases number : Opcode.ofNumber? (opcodeBits word).toNat with
  | some opcode =>
      simp only [reduceCtorEq, false_and, iff_false]
      exact Option.some_ne_none _
  | none =>
      simp only [true_and]
      split
      · rename_i call
        exact iff_of_false (Option.some_ne_none _) fun other => other call
      · rename_i other
        exact iff_of_true rfl other

end Instruction

namespace Memory

variable {σ : Type u} {ε : Type v} [Memory σ ε]

def nextWord (m : σ) : InvalidOpcode where
  pc := load m .pc
  word := load m (.ram (load m .pc))

theorem fetch_eq_error_iff (m : σ) (cause : InvalidOpcode) :
    fetch m (load m .pc) = .error cause ↔
      Instruction.Undecodable (nextWord m).word ∧ cause = nextWord m := by
  rw [← Instruction.decode_eq_none_iff _ fun i => load m (.ram (load m .pc + i))]
  simp only [fetch, nextWord]
  split <;> rename_i decoded <;> simp only [decoded, reduceCtorEq, false_and, true_and,
    Except.error.injEq, eq_comm]

theorem step_of_undecodable {m : σ} (undecodable : Instruction.Undecodable (nextWord m).word) :
    step m = (m, .error (.invalidOpcode (nextWord m))) :=
  step_of_fetch_error ((fetch_eq_error_iff m _).mpr ⟨undecodable, rfl⟩)

/-- A step complains of the word at the program counter exactly if that is no instruction. -/
theorem step_result_eq_invalidOpcode_iff (m : σ) (cause : InvalidOpcode) :
    (step m).2 = .error (.invalidOpcode cause) ↔
      Instruction.Undecodable (nextWord m).word ∧ cause = nextWord m := by
  rw [← fetch_eq_error_iff]
  cases decoded : fetch m (load m .pc) with
  | error other =>
      rw [step_of_fetch_error decoded]
      simp only [Except.error.injEq, Fault.invalidOpcode.injEq]
  | ok instruction =>
      rw [step_of_fetch_ok decoded, Execution.finish_result]
      exact iff_of_false Execution.outcome_ne_invalidOpcode nofun

/-- Steps that go well can be taken one part after the other. -/
theorem steps_add {m after : σ} {count : Nat} (fine : steps m count = (after, .ok ()))
    (more : Nat) : steps m (count + more) = steps after more := by
  induction count generalizing m with
  | zero =>
      obtain rfl : m = after := congrArg Prod.fst fine
      rw [Nat.zero_add]
  | succ count ih =>
      rw [Nat.succ_add, steps_succ]
      rw [steps_succ] at fine
      cases first : (step m).2 with
      | ok =>
          rw [first] at fine
          exact ih fine
      | error fault =>
          rw [first] at fine
          cases congrArg Prod.snd fine

/-- Where a run comes to a word that is no instruction, all its steps so far went well. -/
theorem steps_of_invalidOpcode {m : σ} {budget : Nat} {cause : InvalidOpcode}
    (stopped : (steps m budget).2 = .error (.invalidOpcode cause)) :
    ∃ count < budget, steps m count = ((steps m budget).1, .ok ()) ∧
      (step (steps m budget).1).2 = .error (.invalidOpcode cause) := by
  induction budget generalizing m with
  | zero => cases stopped
  | succ budget ih =>
      rw [steps_succ] at stopped ⊢
      cases first : (step m).2 with
      | ok =>
          rw [first] at stopped
          obtain ⟨count, lt, fine, stops⟩ := ih stopped
          refine ⟨count + 1, Nat.succ_lt_succ lt, ?_, stops⟩
          rw [steps_succ, first]
          exact fine
      | error fault =>
          -- The step that stops the run is not one of its good ones and leaves the machine alone.
          rw [first] at stopped
          obtain rfl : fault = .invalidOpcode cause := Except.error.inj stopped
          have undecodable := ((step_result_eq_invalidOpcode_iff m cause).mp first).1
          have stays : (step m).1 = m := congrArg Prod.fst (step_of_undecodable undecodable)
          refine ⟨0, Nat.succ_pos _, ?_, ?_⟩
          · simp only [steps, stays]
          · simp only [stays, first]

/-- A machine at a word that is no instruction does not run. -/
theorem steps_of_undecodable {m : σ} (undecodable : Instruction.Undecodable (nextWord m).word)
    {count : Nat} (positive : 1 ≤ count) :
    steps m count = (m, .error (.invalidOpcode (nextWord m))) := by
  obtain ⟨rest, rfl⟩ : ∃ rest, count = rest + 1 := ⟨count - 1, by omega⟩
  simp only [steps_succ, step_of_undecodable undecodable]

theorem run_eq_error_iff (m after : σ) (budget : Nat) (fault : Fault ε) :
    run m budget = (after, .error fault) ↔ steps m budget = (after, .error fault) := by
  simp only [run, Prod.ext_iff]
  cases (steps m budget).2 <;> simp only [Except.map, reduceCtorEq, Except.error.injEq]

/-- A word that is no instruction is the only thing that stops a machine so, and stops it before
    anything happens: nothing is stored, no display is called, and the machine is what it was, with
    all that stands behind its memory. A run that comes to such a word has gone well up to it, and
    goes no further with a larger budget or when it is taken up again. -/
theorem stops_at_undecodable {δ : Type w} [Display δ] (m : σ) (machine : Wired δ) :
    (∀ cause, (step m).2 = .error (.invalidOpcode cause) ↔
      Instruction.Undecodable (nextWord m).word ∧ cause = nextWord m) ∧
    (Instruction.Undecodable (nextWord m).word → (step m).1 = m ∧ stepStores m = []) ∧
    (Instruction.Undecodable (nextWord machine).word → machine.requestCalls .step = []) ∧
    ∀ budget cause, (run m budget).2 = .error (.invalidOpcode cause) →
      let after := (run m budget).1
      (∃ count < budget, run m count = (after, .ok count)) ∧
      cause = nextWord after ∧
      (∀ larger, budget ≤ larger → run m larger = run m budget) ∧
      ∀ again, 1 ≤ again → run after again = (after, .error (.invalidOpcode cause)) := by
  refine ⟨step_result_eq_invalidOpcode_iff m, ?_, ?_, ?_⟩
  · intro undecodable
    have fetched := (fetch_eq_error_iff m _).mpr ⟨undecodable, rfl⟩
    exact ⟨congrArg Prod.fst (step_of_fetch_error fetched), stepStores_of_fetch_error fetched⟩
  · intro undecodable
    have stays : step machine.watched = _ := step_of_undecodable undecodable
    rw [Wired.requestCalls, serve, stays]
    rfl
  · intro budget cause stopped after
    have ended : run m budget = (after, .error (.invalidOpcode cause)) := Prod.ext rfl stopped
    have stepsEnded := (run_eq_error_iff ..).mp ended
    obtain ⟨count, lt, fine, stops⟩ := steps_of_invalidOpcode (congrArg Prod.snd stepsEnded)
    rw [stepsEnded] at fine stops
    obtain ⟨undecodable, rfl⟩ := (step_result_eq_invalidOpcode_iff after cause).mp stops
    refine ⟨⟨count, lt, by rw [run, fine]; rfl⟩, rfl, ?_, ?_⟩
    · intro larger le
      obtain ⟨more, rfl⟩ : ∃ more, larger = count + more := ⟨larger - count, by omega⟩
      rw [ended, run_eq_error_iff, steps_add fine]
      exact steps_of_undecodable undecodable (by omega)
    · intro again positive
      rw [run_eq_error_iff]
      exact steps_of_undecodable undecodable positive

end Memory

/-- A machine whose program ends after three steps. -/
def Wired.ending : Wired NoDisplay :=
  .boot [0xa461, 0x7001, 0x8403] {} 384

theorem Memory.stops_at_undecodable_ending :
    let machine := Wired.ending.watched
    let after := (run machine 1000).1
    (run machine 1000).2 = .error (.invalidOpcode { pc := 3, word := 0 }) ∧
      1000 ≤ 5000 ∧ run machine 5000 = run machine 1000 ∧
      1 ≤ 7 ∧ run after 7 = (after, .error (.invalidOpcode { pc := 3, word := 0 })) := by
  intro machine after
  have stopped : (run Wired.ending.watched 1000).2 =
      .error (.invalidOpcode { pc := 3, word := 0 }) := rfl
  obtain ⟨-, -, -, runs⟩ := stops_at_undecodable Wired.ending.watched Wired.ending
  obtain ⟨-, -, larger, again⟩ := runs 1000 _ stopped
  exact ⟨stopped, by decide, larger 5000 (by decide), by decide, again 7 (by decide)⟩

end Dcpu
