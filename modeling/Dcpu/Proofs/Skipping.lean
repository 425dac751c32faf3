import Dcpu.Proofs.Encoding

/-! # Tests and what they skip

A test moves the stack pointer as its operands say, and passes by the next instruction if it fails.
It changes nothing else, and no display hears of it. The instruction passed by is not decoded: its
first word tells how far to go, also if that word is no instruction, and none of its operands is
resolved. A test and its opposite read the same values, so of the two exactly one skips.
-/

namespace Dcpu

universe u v

namespace Condition

/-- What a test asks of the values of its operands. -/
def Asks (condition : Condition) (a b : Word) : Prop :=
  match condition with
  | equal => a = b
  | notEqual => a ≠ b
  | greater => b.toNat < a.toNat
  | commonBit => a &&& b ≠ 0

theorem holds_iff_asks (condition : Condition) (a b : Word) :
    condition.holds a b = true ↔ condition.Asks a b := by
  cases condition with
  | equal => exact beq_iff_eq
  | notEqual => exact bne_iff_ne
  | greater => exact decide_eq_true_iff.trans UInt16.lt_iff_toNat_lt
  | commonBit => exact bne_iff_ne

theorem holds_notEqual (a b : Word) : notEqual.holds a b = !equal.holds a b := rfl

end Condition

namespace Instruction

/-- An instruction is never so long that the one behind it begins where it began. -/
theorem add_lengthOf_ne (word pc : Word) : pc + lengthOf word ≠ pc := by
  intro same
  have bounds := toNat_lengthOf_le word
  have length : lengthOf word = 0 := by simpa using same
  rw [length] at bounds
  exact absurd bounds.1 (by decide)

end Instruction

namespace Memory

variable {σ : Type u} {ε : Type v} [Memory σ ε] [LawfulMemory σ]

theorem wordsFrom_store_first (m : σ) (pc value : Word) {count : Nat} (fits : count < 65536) :
    wordsFrom (store m (.ram pc) value).1 pc (count + 1) =
      value :: (wordsFrom m pc (count + 1)).tail := by
  rw [wordsFrom_succ, wordsFrom_succ, LawfulMemory.load_store, if_pos rfl, List.tail_cons]
  congr 1
  apply List.map_congr_left
  intro i member
  have range : 1 ≤ i ∧ i < 1 + count := List.mem_range'_1.mp member
  have apart : Address.ram (pc + UInt16.ofNat i) ≠ .ram pc := by
    intro here
    have zero : UInt16.ofNat i = 0 := by simpa using Address.ram.inj here
    have toNat := congrArg UInt16.toNat zero
    rw [UInt16.toNat_ofNat_of_lt' (by change _ < 65536; omega)] at toNat
    exact Nat.ne_of_gt range.1 toNat
  rw [LawfulMemory.load_store, if_neg apart]

/-- An instruction becomes another one with the same next words when its first word is replaced. -/
theorem fetch_store_first {m : σ} {pc : Word} {instruction other : Instruction}
    {word replacement : Word} {next : List Word}
    (fetched : fetch m pc = .ok instruction) (encoded : instruction.encode = word :: next)
    (encodedOther : other.encode = replacement :: next) :
    fetch (store m (.ram pc) replacement).1 pc = .ok other := by
  have count : instruction.length.toNat = next.length + 1 := by
    rw [Instruction.toNat_length, encoded, List.length_cons]
  have countOther : other.length.toNat = next.length + 1 := by
    rw [Instruction.toNat_length, encodedOther, List.length_cons]
  have fits : next.length < 65536 := by
    have sixteenBits : instruction.length.toNat < 65536 := instruction.length.toNat_lt
    omega
  rw [fetch_eq_ok_iff_written, count, encoded] at fetched
  rw [fetch_eq_ok_iff_written, countOther, wordsFrom_store_first m pc replacement fits, fetched,
    encodedOther, List.tail_cons]

end Memory

namespace State

/-- The complete effect of a test: it passes by the next instruction if it fails. -/
theorem step_test (s : State) {condition : Condition} {a b : Operand}
    (decoded : Memory.fetch s s.pc = .ok (.basic (.test condition) a b)) :
    let length := (Instruction.basic (.test condition) a b).length
    let next := s.pc + length
    let values := s.values a b length
    Memory.step s =
      ({ s.resolved a b length with
          pc := if condition.holds values.1 values.2 then next
            else next + Instruction.lengthOf (s.load (.ram next)) },
        .ok ()) := by
  intro length next values
  refine Prod.ext (ext_load fun address => ?_) (s.step_result decoded)
  rw [s.load_step_test decoded address]
  change (if address = .pc ∧ condition.holds values.1 values.2 = false then _ else _) = _
  cases condition.holds values.1 values.2 <;> cases address <;> rfl

/-- A machine whose next instruction has the next higher opcode. -/
def succOpcode (s : State) : State :=
  s.store (.ram s.pc) (s.load (.ram s.pc) + 1)

/-- The opposite of a test for equality has the next higher opcode. -/
theorem fetch_succOpcode {s : State} {a b : Operand}
    (decoded : Memory.fetch s s.pc = .ok (.basic (.test .equal) a b)) :
    Memory.fetch s.succOpcode s.succOpcode.pc = .ok (.basic (.test .notEqual) a b) := by
  have written := Memory.fetch_eq_ok_iff_written.mp decoded
  have count : (Instruction.basic (.test .equal) a b).length.toNat =
      (a.nextWord?.toList ++ b.nextWord?.toList).length + 1 := Instruction.toNat_length _
  rw [count, Memory.wordsFrom_succ] at written
  have word : s.load (.ram s.pc) = UInt16.ofNat (0xc + 16 * a.code + 1024 * b.code) :=
    (List.cons.inj written).1
  have succ : s.load (.ram s.pc) + 1 = UInt16.ofNat (0xd + 16 * a.code + 1024 * b.code) := by
    have sum : 0xd + 16 * a.code + 1024 * b.code = 0xc + 16 * a.code + 1024 * b.code + 1 := by
      omega
    rw [word, sum]
    exact (UInt16.ofNat_add _ 1).symm
  have encoded : (Instruction.basic (.test .notEqual) a b).encode =
      (s.load (.ram s.pc) + 1) :: (a.nextWord?.toList ++ b.nextWord?.toList) := by
    rw [succ]
    rfl
  exact Memory.fetch_store_first decoded rfl encoded

/-- Of a test for equality and its opposite exactly one skips, if neither operand is the word that
    tells them apart. -/
theorem step_succOpcode {s : State} {a b : Operand}
    (decoded : Memory.fetch s s.pc = .ok (.basic (.test .equal) a b))
    (apartA : (s.places a b).1 ≠ .cell (.ram s.pc))
    (apartB : (s.places a b).2 ≠ .cell (.ram s.pc)) :
    let next := s.pc + (Instruction.basic (.test .equal) a b).length
    let behind := next + Instruction.lengthOf (s.load (.ram next))
    (Memory.step s).1.pc = next ∧ (Memory.step s.succOpcode).1.pc = behind ∨
      (Memory.step s).1.pc = behind ∧ (Memory.step s.succOpcode).1.pc = next := by
  intro next behind
  have apart : Address.ram next ≠ .ram s.pc := by
    have length : next = s.pc + Instruction.lengthOf (s.load (.ram s.pc)) :=
      congrArg (s.pc + ·) (Memory.fetch_reads decoded).length
    rw [ne_eq, Address.ram.injEq, length]
    exact Instruction.add_lengthOf_ne _ _
  have kept : s.succOpcode.load (.ram next) = s.load (.ram next) :=
    (s.load_store (.ram s.pc) (.ram next) _).trans (if_neg apart)
  have skipped : next + Instruction.lengthOf (s.succOpcode.load (.ram next)) = behind := by
    rw [kept]
  let length := (Instruction.basic (.test .equal) a b).length
  let values := s.values a b length
  have same : s.succOpcode.values a b length = values :=
    s.values_store_ram apartA apartB _ length
  have pc : (Memory.step s).1.pc =
      if Condition.equal.holds values.1 values.2 then next else behind :=
    congrArg (·.1.pc) (s.step_test decoded)
  have pcOpposite : (Memory.step s.succOpcode).1.pc =
      if !Condition.equal.holds values.1 values.2 then next else behind := by
    rw [← Condition.holds_notEqual, ← same, ← skipped]
    exact congrArg (·.1.pc) (s.succOpcode.step_test (fetch_succOpcode decoded))
  rw [pc, pcOpposite]
  cases Condition.equal.holds values.1 values.2 with
  | true => exact .inl ⟨rfl, rfl⟩
  | false => exact .inr ⟨rfl, rfl⟩

end State

namespace Wired

variable {δ : Type u} [Display δ]

/-- A wired machine in the middle of an instruction that has stored into registers only: its state
    is that of the machine alone, and nothing has failed. -/
def around (machine : Wired δ) (e : Execution State Empty) : Execution (Wired δ) DeviceError where
  memory := { machine with state := e.memory }

theorem resolve_around (machine : Wired δ) (e : Execution State Empty) (operand : Operand) :
    (machine.around e).resolve operand =
      ((e.resolve operand).1, machine.around (e.resolve operand).2) := by
  cases operand <;> rfl

theorem read_around (machine : Wired δ) (e : Execution State Empty) (target : Target) :
    (machine.around e).read target = e.read target := by
  cases target <;> rfl

theorem perform_test_around (machine : Wired δ) (e : Execution State Empty) (condition : Condition)
    (a b : Operand) :
    (machine.around e).perform (.basic (.test condition) a b) =
      machine.around (e.perform (.basic (.test condition) a b)) := by
  simp only [Execution.perform, resolve_around, read_around]
  split <;> rfl

/-- A test is a matter of the machine alone. The display has no part in it. -/
theorem step_of_test (machine : Wired δ) {condition : Condition} {a b : Operand}
    (decoded : Memory.fetch machine machine.state.pc = .ok (.basic (.test condition) a b)) :
    Memory.step machine =
      ({ machine with state := (Memory.step machine.state).1 }, .ok ()) := by
  let start : Execution State Empty :=
    ({ memory := machine.state } : Execution State Empty).store .pc
      (machine.state.pc + (Instruction.basic (.test condition) a b).length)
  have decodedAlone :
      Memory.fetch machine.state machine.state.pc = .ok (.basic (.test condition) a b) := decoded
  have executed : Memory.execute machine (.basic (.test condition) a b) =
      machine.around (Memory.execute machine.state (.basic (.test condition) a b)) :=
    perform_test_around machine start condition a b
  rw [Memory.step_of_fetch_ok decoded, Memory.step_of_fetch_ok decodedAlone, executed,
    Execution.finish_memory]
  rfl

/-- The complete effect of a test, on every backend. Only the program counter and the stack pointer
    move. What stands behind a test that fails is passed by unread, whatever it is: all that counts
    is its length, which is the one it would be fetched with if it is an instruction. And of a test
    for equality and its opposite, with the next higher opcode in its place, exactly one skips. -/
theorem passes_or_skips (machine : Wired δ) {condition : Condition} {a b : Operand}
    (decoded : Memory.fetch machine machine.state.pc = .ok (.basic (.test condition) a b)) :
    let s := machine.state
    let next := s.pc + (Instruction.basic (.test condition) a b).length
    let sp := s.sp + a.stackMove + b.stackMove
    let placeA := a.place s.load
    let placeB := b.place (State.load { s with sp := s.sp + a.stackMove })
    let value (place : Target) : Word := State.read { s with pc := next, sp } place
    let holds := condition.holds (value placeA) (value placeB)
    let skipped := Instruction.lengthOf (s.load (.ram next))
    let after : State := { s with pc := if holds then next else next + skipped, sp }
    (holds = true ↔ condition.Asks (value placeA) (value placeB)) ∧
    Memory.step s = (after, .ok ()) ∧
    Memory.step machine = ({ machine with state := after }, .ok ()) ∧
    machine.requestCalls .step = [] ∧
    next + skipped ≠ next ∧
    (∀ instruction, Memory.fetch s next = .ok instruction → instruction.length = skipped) ∧
    (condition = .equal → placeA ≠ .cell (.ram s.pc) → placeB ≠ .cell (.ram s.pc) →
      Memory.fetch s.succOpcode s.pc = .ok (.basic (.test .notEqual) a b) ∧
      (after.pc = next ∧ (Memory.step s.succOpcode).1.pc = next + skipped ∨
        after.pc = next + skipped ∧ (Memory.step s.succOpcode).1.pc = next)) := by
  intro s next sp placeA placeB value holds skipped after
  have step : Memory.step s = (after, .ok ()) := s.step_test decoded
  refine ⟨condition.holds_iff_asks _ _, step, ?_, ?_, Instruction.add_lengthOf_ne _ _, ?_, ?_⟩
  · rw [machine.step_of_test decoded, step]
  · rw [requestCalls, Memory.serve, machine.watched.step_of_test decoded]
    rfl
  · exact fun instruction fetched => (Memory.fetch_reads fetched).length
  · rintro rfl apartA apartB
    refine ⟨State.fetch_succOpcode decoded, ?_⟩
    have opposite := State.step_succOpcode decoded apartA apartB
    rw [step] at opposite
    exact opposite

/-- A machine at the last word of its memory, with a test between a popped word and the stack
    pointer that the popping leaves. The word behind it is no instruction. -/
def testingStack : Wired Recorder where
  state := { (State.boot []).store (.ram 0xffff) 0x6d8c with pc := 0xffff, sp := 0x1000 }
  display := {}
  videoWords := 0x8000

theorem passes_or_skips_testingStack :
    Memory.fetch testingStack testingStack.state.pc = .ok (.basic (.test .equal) .pop .sp) ∧
      Memory.step testingStack =
        ({ testingStack with state := { testingStack.state with pc := 1, sp := 0x1001 } },
          .ok ()) ∧
      (Memory.step testingStack.state.succOpcode).1.pc = 0 := by
  have decoded : Memory.fetch testingStack testingStack.state.pc =
      .ok (.basic (.test .equal) .pop .sp) := rfl
  obtain ⟨-, -, step, -, -, -, opposite⟩ := testingStack.passes_or_skips decoded
  obtain ⟨-, one⟩ := opposite rfl (by decide) (by decide)
  refine ⟨decoded, step.trans rfl, ?_⟩
  rcases one with ⟨passes, -⟩ | ⟨-, skips⟩
  · exact absurd passes (by decide)
  · exact skips

end Wired
end Dcpu
