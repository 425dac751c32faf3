import Dcpu.Proofs.Encoding

/-! # The words an instruction depends on

Of all the memory an instruction has to do with six words at most: its own, the cells its operands
are resolved to, the word behind a test that fails, and the top of the stack under a call. A change
anywhere else goes unnoticed. The instruction does the same things with it and without it, and
leaves it as it is. So does a run whose steps all keep away from it, although where they go depends
on the words they find.
-/

namespace Dcpu

universe u v w

/-- The offset of a place in the memory. -/
def Target.offset? : Target → Option Word
  | .cell (.ram offset) => some offset
  | _ => none

theorem Target.ne_of_not_mem_offset? {place : Target} {offset : Word}
    (apart : offset ∉ place.offset?.toList) : place ≠ .cell (.ram offset) := by
  rintro rfl
  exact apart (List.mem_singleton.mpr rfl)

theorem Target.length_offset?_le (place : Target) : place.offset?.toList.length ≤ 1 := by
  cases place.offset? <;> simp

namespace State

/-- The offsets of so many words on end, round the end of the memory. -/
def span (start : Word) (count : Nat) : List Word :=
  (List.range count).map fun i => start + UInt16.ofNat i

/-- The offsets of the words that an instruction has to do with besides its own. -/
def touched (s : State) (instruction : Instruction) : List Word :=
  match instruction with
  | .call target => (target.place s.load).offset?.toList ++ [s.sp + target.stackMove - 1]
  | .basic opcode a b =>
      let (placeA, placeB) := s.places a b
      let (valueA, valueB) := s.values a b instruction.length
      placeA.offset?.toList ++ placeB.offset?.toList ++ match opcode with
        | .compute _ => []
        | .test condition =>
            if condition.holds valueA valueB then [] else [s.pc + instruction.length]

/-- The offsets of the words that the next step has to do with. -/
def footprint (s : State) : List Word :=
  match Memory.fetch s s.pc with
  | .error _ => [s.pc]
  | .ok instruction => span s.pc instruction.length.toNat ++ s.touched instruction

theorem footprint_of_fetch_error {s : State} {cause : InvalidOpcode}
    (undecodable : Memory.fetch s s.pc = .error cause) : s.footprint = [s.pc] := by
  simp only [footprint, undecodable]

theorem footprint_of_fetch_ok {s : State} {instruction : Instruction}
    (decoded : Memory.fetch s s.pc = .ok instruction) :
    s.footprint = span s.pc instruction.length.toNat ++ s.touched instruction := by
  simp only [footprint, decoded]

theorem length_touched_le (s : State) (instruction : Instruction) :
    (s.touched instruction).length ≤ 3 := by
  cases instruction with
  | call target =>
      have place := (target.place s.load).length_offset?_le
      simp only [touched, List.length_append, List.length_singleton]
      omega
  | basic opcode a b =>
      have placeA := (s.places a b).1.length_offset?_le
      have placeB := (s.places a b).2.length_offset?_le
      simp only [touched, List.length_append]
      cases opcode with
      | compute => simp only [List.length_nil]; omega
      | test => simp only; split <;> simp only [List.length_nil, List.length_singleton] <;> omega

theorem length_footprint_le (s : State) : s.footprint.length ≤ 6 := by
  cases fetched : Memory.fetch s s.pc with
  | error cause =>
      rw [footprint_of_fetch_error fetched]
      exact Nat.le_add_left 1 5
  | ok instruction =>
      have own : instruction.length.toNat ≤ 3 := by
        rw [(Memory.fetch_reads fetched).length]
        exact (Instruction.toNat_lengthOf_le _).2
      have others := s.length_touched_le instruction
      rw [footprint_of_fetch_ok fetched, span, List.length_append, List.length_map,
        List.length_range]
      omega

end State

namespace Memory

variable {σ : Type u} {ε : Type v} [Memory σ ε]

/-- A change of one cell, which is seen in no other one and stays as it is when one of those is
    stored into. -/
structure ChangeAt (cell : Address) (change : σ → σ) : Prop where
  load (m : σ) {address : Address} : address ≠ cell → load (change m) address = load m address
  store (m : σ) {address : Address} : address ≠ cell → ∀ value,
    store (change m) address value = (change (store m address value).1, (store m address value).2)

end Memory

namespace Execution

variable {σ : Type u} {ε : Type v} [Memory σ ε]

def map (change : σ → σ) (e : Execution σ ε) : Execution σ ε :=
  { e with memory := change e.memory }

omit [Memory σ ε] in
theorem finish_map (change : σ → σ) (e : Execution σ ε) :
    (e.map change).finish = (change e.finish.1, e.finish.2) := by
  simp only [finish, map]
  split <;> rfl

/-- A memory in the middle of an instruction has the words of a state. -/
def Shows (e : Execution σ ε) (s : State) : Prop :=
  ∀ address, e.load address = s.load address

namespace Shows

variable {e : Execution σ ε} {s : State}

theorem read (shows : e.Shows s) (place : Target) : e.read place = s.read place := by
  cases place with
  | cell address => exact shows address
  | value => rfl

theorem store [LawfulMemory σ] (shows : e.Shows s) (address : Address) (value : Word) :
    (e.store address value).Shows (s.store address value) := by
  intro other
  rw [load_store, State.load_store, shows]

theorem resolve [LawfulMemory σ] (shows : e.Shows s) (operand : Operand) :
    (e.resolve operand).1 = operand.place s.load ∧
      (e.resolve operand).2.Shows { s with sp := s.sp + operand.stackMove } := by
  constructor
  · rw [resolve_place]
    exact operand.place_congr fun address _ => shows address
  · intro address
    have sp : e.load .sp = s.sp := shows .sp
    rw [load_resolve, operand.stackPointer_eq, sp, shows]
    exact (s.load_store .sp address _).symm

/-- Operands are placed as if the program counter had not moved past the instruction yet. -/
theorem resolve_moved [LawfulMemory σ] {length : Word}
    (shows : e.Shows { s with pc := s.pc + length }) (operand : Operand) :
    (e.resolve operand).1 = operand.place s.load ∧
      (e.resolve operand).2.Shows
        { s with pc := s.pc + length, sp := s.sp + operand.stackMove } := by
  obtain ⟨place, resolved⟩ := shows.resolve operand
  refine ⟨place.trans (operand.place_congr fun address other => ?_), resolved⟩
  exact (s.load_store .pc address _).trans (if_neg other)

end Shows
end Execution

namespace Memory.ChangeAt

variable {σ : Type u} {ε : Type v} [Memory σ ε] {x : Word} {change : σ → σ}

section Execution

variable {e : Execution σ ε}

theorem load_map (isChange : ChangeAt (.ram x) change) {address : Address}
    (apart : address ≠ .ram x) : (e.map change).load address = e.load address :=
  isChange.load e.memory apart

theorem store_map (isChange : ChangeAt (.ram x) change) {address : Address}
    (apart : address ≠ .ram x) (value : Word) :
    (e.map change).store address value = (e.store address value).map change := by
  simp only [Execution.store, Execution.map, isChange.store e.memory apart]
  rcases Memory.store e.memory address value with ⟨memory, cause | ok⟩ <;> rfl

theorem read_map (isChange : ChangeAt (.ram x) change) {place : Target}
    (apart : place ≠ .cell (.ram x)) : (e.map change).read place = e.read place := by
  cases place with
  | cell address => exact isChange.load_map fun same => apart (congrArg Target.cell same)
  | value => rfl

/-- Operands are resolved without a look at the memory. -/
theorem resolve_map (isChange : ChangeAt (.ram x) change) (operand : Operand) :
    (e.map change).resolve operand =
      ((e.resolve operand).1, (e.resolve operand).2.map change) := by
  cases operand <;>
    simp only [Execution.resolve, isChange.load_map, isChange.store_map, ne_eq, reduceCtorEq,
      not_false_eq_true]

theorem writeResult_map (isChange : ChangeAt (.ram x) change) {place : Target}
    (apart : place ≠ .cell (.ram x)) (result : Result) :
    (e.map change).writeResult place result = (e.writeResult place result).map change := by
  have written : (e.map change).write place result.value =
      (e.write place result.value).map change := by
    cases place with
    | cell address => exact isChange.store_map (fun same => apart (congrArg Target.cell same)) _
    | value => rfl
  simp only [Execution.writeResult, written]
  cases result.overflow with
  | none => rfl
  | some overflow => exact isChange.store_map Address.noConfusion overflow

theorem skip_map (isChange : ChangeAt (.ram x) change) (apart : e.load .pc ≠ x) :
    (e.map change).skip = e.skip.map change := by
  have word : Address.ram (e.load .pc) ≠ .ram x := fun same => apart (Address.ram.inj same)
  simp only [Execution.skip, isChange.load_map, isChange.store_map, word, ne_eq, reduceCtorEq,
    not_false_eq_true]

theorem call_map (isChange : ChangeAt (.ram x) change) (apart : e.load .sp - 1 ≠ x)
    (destination : Word) :
    (e.map change).call destination = (e.call destination).map change := by
  have top : Address.ram (e.load .sp - 1) ≠ .ram x := fun same => apart (Address.ram.inj same)
  simp only [Execution.call, isChange.load_map, isChange.store_map, top, ne_eq, reduceCtorEq,
    not_false_eq_true]

variable [LawfulMemory σ] {s : State}

theorem perform_call_map (isChange : ChangeAt (.ram x) change) {target : Operand}
    (shows : e.Shows { s with pc := s.pc + (Instruction.call target).length })
    (outside : x ∉ s.touched (.call target)) :
    (e.map change).perform (.call target) = (e.perform (.call target)).map change := by
  obtain ⟨place, resolved⟩ := shows.resolve_moved target
  simp only [State.touched, List.mem_append, List.mem_singleton, not_or] at outside
  have apart : (e.resolve target).1 ≠ .cell (.ram x) := by
    rw [place]
    exact Target.ne_of_not_mem_offset? outside.1
  have top : (e.resolve target).2.load .sp - 1 ≠ x := by
    rw [resolved]
    exact fun same => outside.2 same.symm
  simp only [Execution.perform, isChange.resolve_map, isChange.read_map apart]
  exact isChange.call_map top _

theorem perform_basic_map (isChange : ChangeAt (.ram x) change) {opcode : Opcode} {a b : Operand}
    (shows : e.Shows { s with pc := s.pc + (Instruction.basic opcode a b).length })
    (outside : x ∉ s.touched (.basic opcode a b)) :
    (e.map change).perform (.basic opcode a b) =
      (e.perform (.basic opcode a b)).map change := by
  obtain ⟨placeA, next⟩ := shows.resolve_moved a
  obtain ⟨placeB, resolved⟩ :=
    Execution.Shows.resolve_moved (s := { s with sp := s.sp + a.stackMove }) next b
  simp only [State.touched, List.mem_append, not_or] at outside
  obtain ⟨⟨outsideA, outsideB⟩, outside⟩ := outside
  have apartA : (e.resolve a).1 ≠ .cell (.ram x) := by
    rw [placeA]
    exact Target.ne_of_not_mem_offset? outsideA
  have apartB : ((e.resolve a).2.resolve b).1 ≠ .cell (.ram x) := by
    rw [placeB]
    exact Target.ne_of_not_mem_offset? outsideB
  simp only [Execution.perform, isChange.resolve_map, isChange.read_map apartA,
    isChange.read_map apartB]
  cases opcode with
  | compute operation => exact isChange.writeResult_map apartA _
  | test condition =>
      let values := s.values a b (Instruction.basic (.test condition) a b).length
      simp only [resolved.read, placeA, placeB]
      change (if condition.holds values.1 values.2 then _ else _) =
        Execution.map change (if condition.holds values.1 values.2 then _ else _)
      change x ∉ if condition.holds values.1 values.2 then [] else _ at outside
      cases holds : condition.holds values.1 values.2 with
      | true => rfl
      | false =>
          rw [holds, if_neg Bool.false_ne_true, List.mem_singleton] at outside
          apply isChange.skip_map
          rw [resolved]
          exact fun same => outside same.symm

theorem execute_map (isChange : ChangeAt (.ram x) change) {m : σ} {instruction : Instruction}
    (outside : x ∉ (snapshot m).touched instruction) :
    execute (change m) instruction = (execute m instruction).map change := by
  let e : Execution σ ε := { memory := m }
  have loaded : e.Shows (snapshot m) := fun address => (load_snapshot m address).symm
  have shows := loaded.store .pc ((snapshot m).pc + instruction.length)
  have register : Address.pc ≠ .ram x := nofun
  have started : (e.map change).store .pc (Memory.load (change m) .pc + instruction.length) =
      (e.store .pc (Memory.load m .pc + instruction.length)).map change := by
    rw [isChange.load m register, isChange.store_map register]
  change ((e.map change).store .pc _).perform instruction = _
  rw [started]
  cases instruction with
  | call target => exact isChange.perform_call_map shows outside
  | basic opcode a b => exact isChange.perform_basic_map shows outside

end Execution

section Steps

variable {m : σ}

/-- An instruction is fetched from its own words, and a word that is none from that alone. -/
theorem fetch (isChange : ChangeAt (.ram x) change) (outside : x ∉ (snapshot m).footprint) :
    Memory.fetch (change m) (Memory.load (change m) .pc) = Memory.fetch m (Memory.load m .pc) := by
  have pc : Memory.load (change m) .pc = Memory.load m .pc := isChange.load m (by nofun)
  have apart {offset : Word} (own : offset ∈ (snapshot m).footprint) :
      Memory.load (change m) (.ram offset) = Memory.load m (.ram offset) := by
    apply isChange.load
    rintro ⟨rfl⟩
    exact outside own
  have alone := fetch_snapshot m (Memory.load m .pc)
  cases fetched : Memory.fetch m (Memory.load m .pc) with
  | error cause =>
      rw [State.footprint_of_fetch_error (alone.trans fetched)] at apart
      have same : nextWord (change m) = nextWord m := by
        simp only [nextWord, pc, InvalidOpcode.mk.injEq, true_and]
        exact apart (List.mem_singleton.mpr rfl)
      rw [fetch_eq_error_iff] at fetched ⊢
      rwa [same]
  | ok instruction =>
      rw [State.footprint_of_fetch_ok (alone.trans fetched)] at apart
      rw [pc]
      rw [fetch_eq_ok_iff_written] at fetched ⊢
      rw [← fetched]
      apply List.map_congr_left
      intro i member
      apply apart
      exact List.mem_append_left _ (List.mem_map_of_mem member)

variable [LawfulMemory σ]

theorem step (isChange : ChangeAt (.ram x) change) (outside : x ∉ (snapshot m).footprint) :
    Memory.step (change m) = (change (Memory.step m).1, (Memory.step m).2) := by
  have fetched := isChange.fetch outside
  cases decoded : Memory.fetch m (Memory.load m .pc) with
  | error cause =>
      rw [step_of_fetch_error decoded, step_of_fetch_error (fetched.trans decoded)]
  | ok instruction =>
      have alone := (fetch_snapshot m (Memory.load m .pc)).trans decoded
      rw [State.footprint_of_fetch_ok alone, List.mem_append, not_or] at outside
      rw [step_of_fetch_ok decoded, step_of_fetch_ok (fetched.trans decoded),
        isChange.execute_map outside.2, Execution.finish_map]

/-- A change stays unnoticed for as long as every step keeps away from it. -/
theorem steps (isChange : ChangeAt (.ram x) change) {count : Nat}
    (outside : ∀ i < count, (Memory.steps m i).2 = .ok () →
      x ∉ (snapshot (Memory.steps m i).1).footprint) :
    Memory.steps (change m) count =
      (change (Memory.steps m count).1, (Memory.steps m count).2) := by
  induction count generalizing m with
  | zero => rfl
  | succ count ih =>
      have first : Memory.step (change m) = (change (Memory.step m).1, (Memory.step m).2) :=
        isChange.step (outside 0 (Nat.succ_pos count) rfl)
      simp only [steps_succ, first]
      cases answer : (Memory.step m).2 with
      | error fault => rfl
      | ok =>
          apply ih
          intro i lt fine
          have later := outside (i + 1) (Nat.succ_lt_succ lt)
          rw [steps_succ, answer] at later
          exact later fine

theorem run (isChange : ChangeAt (.ram x) change) {budget : Nat}
    (outside : ∀ i < budget, (Memory.steps m i).2 = .ok () →
      x ∉ (snapshot (Memory.steps m i).1).footprint) :
    Memory.run (change m) budget = (change (Memory.run m budget).1, (Memory.run m budget).2) := by
  simp only [Memory.run, isChange.steps outside]

end Steps
end Memory.ChangeAt

/-- Put a word into the memory, unseen by the display. -/
def Wired.overwrite {δ : Type u} (machine : Wired δ) (offset value : Word) : Wired δ :=
  { machine with state := machine.state.store (.ram offset) value }

theorem State.store_comm (s : State) {a b : Address} (apart : a ≠ b) (value word : Word) :
    (s.store a value).store b word = (s.store b word).store a value := by
  apply ext_load
  intro address
  simp only [load_store]
  by_cases here : address = a
  · rw [here, if_pos rfl, if_pos rfl, if_neg apart]
  · rw [if_neg here, if_neg here]

theorem State.isChange (offset value : Word) :
    Memory.ChangeAt (.ram offset) fun s : State => s.store (.ram offset) value where
  load s _ apart := (s.load_store _ _ value).trans (if_neg apart)
  store s _ apart word := congrArg (·, Except.ok ()) (s.store_comm apart.symm value word)

namespace Wired

variable {δ : Type u} [Display δ]

theorem isChange (offset value : Word) :
    Memory.ChangeAt (.ram offset) fun machine : Wired δ => machine.overwrite offset value where
  load machine _ apart := (machine.state.load_store _ _ value).trans (if_neg apart)
  store := by
    intro machine address apart word
    have place : (machine.overwrite offset value).videoOffset? address =
        machine.videoOffset? address :=
      videoOffset?_congr rfl address
    simp only [Memory.store, store, place]
    cases machine.videoOffset? address <;>
      simp only [overwrite, machine.state.store_comm apart.symm]

/-- Nothing outside its footprint has a part in an instruction. With another word there, a step
    does the same and leaves that word in its place. So do all the steps of a run, each with a
    footprint of its own, and no display is told anything else. The step that stops a run counts
    among them, and those behind it do not. -/
theorem unnoticed_outside_footprint (s : State) (machine : Wired δ) (x value : Word) :
    s.footprint.length ≤ 6 ∧
    (x ∉ s.footprint →
      Memory.step (s.store (.ram x) value) =
        ((Memory.step s).1.store (.ram x) value, (Memory.step s).2)) ∧
    (∀ budget, (∀ i < budget, (Memory.steps s i).2 = .ok () →
        x ∉ (Memory.steps s i).1.footprint) →
      Memory.run (s.store (.ram x) value) budget =
        ((Memory.run s budget).1.store (.ram x) value, (Memory.run s budget).2)) ∧
    let other := machine.overwrite x value
    (x ∉ machine.state.footprint →
      Memory.step other = ((Memory.step machine).1.overwrite x value, (Memory.step machine).2)) ∧
    (∀ budget, (∀ i < budget, (Memory.steps machine i).2 = .ok () →
        x ∉ (Memory.steps machine i).1.state.footprint) →
      Memory.run other budget =
        ((Memory.run machine budget).1.overwrite x value, (Memory.run machine budget).2) ∧
      (Memory.run other.watched budget).1.display.calls =
        (Memory.run machine.watched budget).1.display.calls) := by
  refine ⟨s.length_footprint_le, ?step, ?run, ?stepWired, ?runWired⟩
  case step =>
      intro outside
      apply (State.isChange x value).step
      rwa [State.snapshot_eq]
  case run =>
      intro budget outside
      apply (State.isChange x value).run
      simpa only [State.snapshot_eq] using outside
  case stepWired =>
      intro outside
      apply (isChange x value).step
      rwa [snapshot_eq]
  case runWired =>
      intro budget outside
      constructor
      · apply (isChange x value).run
        simpa only [snapshot_eq] using outside
      · -- The machine whose display is watched goes through the same states.
        have watched : Memory.run (machine.watched.overwrite x value) budget =
            ((Memory.run machine.watched budget).1.overwrite x value,
              (Memory.run machine.watched budget).2) := by
          apply (isChange x value).run
          intro i lt fine
          have seen : Memory.steps machine i = ((Memory.steps machine.watched i).1.unwatched,
              (Memory.steps machine.watched i).2) :=
            isMachineView_unwatched.steps machine.watched i
          have apart := outside i lt
          rw [seen] at apart
          rw [snapshot_eq]
          exact apart fine
        exact congrArg (·.1.display.calls) watched

/-- A machine that stores through a pointer, then skips a word, then comes to one that is no
    instruction. -/
def pointing : Wired Recorder :=
  .boot [0x7c01, 0x8000, 0x7c81, 0x0041, 0x800c] {} 0x180

theorem unnoticed_outside_footprint_pointing :
    7 ∉ pointing.state.footprint ∧
      (∀ i < 2, (Memory.steps pointing.state i).2 = .ok () →
        7 ∉ (Memory.steps pointing.state i).1.footprint) ∧
      (∀ i < 5, (Memory.steps pointing i).2 = .ok () →
        7 ∉ (Memory.steps pointing i).1.state.footprint) ∧
      (Memory.step (pointing.overwrite 7 0x8401)).2 = .ok () ∧
      (Memory.run (pointing.state.store (.ram 7) 0x8401) 2).2 = .ok 2 ∧
      (Memory.run (pointing.overwrite 7 0x8401) 5).2 =
        .error (.invalidOpcode { pc := 6, word := 0 }) ∧
      (Memory.run (pointing.overwrite 7 0x8401).watched 5).1.display.calls =
        [{ offset := 0, value := 0x41, answer := .ok () }] := by
  have first : 7 ∉ pointing.state.footprint := by decide
  have alone : ∀ i < 2, (Memory.steps pointing.state i).2 = .ok () →
      7 ∉ (Memory.steps pointing.state i).1.footprint := by
    intro i lt _
    match i, lt with
    | 0, _ | 1, _ => decide
  have wired : ∀ i < 5, (Memory.steps pointing i).2 = .ok () →
      7 ∉ (Memory.steps pointing i).1.state.footprint := by
    intro i lt fine
    match i, lt with
    | 0, _ | 1, _ | 2, _ | 3, _ => decide
    | 4, _ => cases fine
  obtain ⟨-, -, run, step, runWired⟩ :=
    unnoticed_outside_footprint pointing.state pointing 7 0x8401
  obtain ⟨same, calls⟩ := runWired 5 wired
  refine ⟨first, alone, wired, ?_, ?_, ?_, calls.trans ?_⟩
  · rw [step first]
    rfl
  · rw [run 2 alone]
    rfl
  · rw [same]
    rfl
  · rfl

end Wired
end Dcpu
