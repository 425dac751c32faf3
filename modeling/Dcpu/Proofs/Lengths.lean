import Dcpu.Proofs.Effects
import Dcpu.Proofs.Undecodable

/-! # How long instructions are

The length of an instruction is computed twice: from the first word alone, to step over it unread,
and by counting the next words that decoding asks for. Both agree for every word. Decoding asks for
the words behind the first one by their places, each once and in order, and for nothing else.
-/

namespace Dcpu

universe u v w

namespace Operand

theorem code_decode (code next : Word) : (decode code next).code = code.toNat % 64 := by
  have sixBits : code.toNat % 64 < 64 := Nat.mod_lt _ (by decide)
  simp only [decode]
  generalize code.toNat % 64 = bits at sixBits ⊢
  by_cases register : bits < 0x08
  · simp only [register, if_true, Operand.code, Register.ofIndex, Fin.val_ofNat]
    omega
  by_cases indirect : bits < 0x10
  · simp only [register, indirect, if_true, if_false, Operand.code, Register.ofIndex, Fin.val_ofNat]
    omega
  by_cases indexed : bits < 0x18
  · simp only [register, indirect, indexed, if_true, if_false, Operand.code, Register.ofIndex,
      Fin.val_ofNat]
    omega
  simp only [register, indirect, indexed, if_false]
  split
  case h_9 =>
      simp only [Operand.code, Fin.val_ofNat]
      grind
  all_goals rfl

theorem nextWord?_decode (code next : Word) :
    (decode code next).nextWord? = none ∨ (decode code next).nextWord? = some next := by
  simp only [decode]
  split
  · exact .inl rfl
  split
  · exact .inl rfl
  split
  · exact .inr rfl
  split
  case h_7 | h_8 => exact .inr rfl
  all_goals exact .inl rfl

theorem nextWord?_decode_eq {code : Word} (sixBits : code.toNat < 64) (next : Word) :
    (decode code next).nextWord? = if needsNextWord code then some next else none := by
  have taken := needsNextWord_code (decode code next)
  rw [code_decode, Nat.mod_eq_of_lt sixBits, UInt16.ofNat_toNat] at taken
  rcases nextWord?_decode code next with none | some
  · rw [taken, none]
    rfl
  · rw [taken, some]
    rfl

theorem nextWords_decode {code : Word} (sixBits : code.toNat < 64) (next : Word) :
    (decode code next).nextWords = if needsNextWord code then 1 else 0 := by
  rw [nextWords, nextWord?_decode_eq sixBits]
  cases needsNextWord code <;> rfl

end Operand

namespace Instruction

/-- Where the words after an instruction word are, counted from it: as many as the length says. -/
def places (length : Word) : List Word :=
  (List.range' 1 (length.toNat - 1)).map UInt16.ofNat

/-- An operand, with the words that it leaves for those behind it. -/
def readOperand (code : Word) (next : List Word) : Operand × List Word :=
  if Operand.needsNextWord code then (.decode code (next.headD 0), next.tail)
  else (.decode code 0, next)

/-- The instruction that a word and those after it make, if they make one. -/
def ofWords? (word : Word) (next : List Word) : Option Instruction :=
  match Opcode.ofNumber? (opcodeBits word).toNat with
  | some opcode =>
      let (a, next) := readOperand (aBits word) next
      some (.basic opcode a (readOperand (bBits word) next).1)
  | none => if aBits word = 1 then some (.call (readOperand (bBits word) next).1) else none

def operands : Instruction → List Operand
  | basic _ a b => [a, b]
  | call target => [target]

theorem nextWords_basic (opcode : Opcode) (a b : Operand) :
    (basic opcode a b).operands.filterMap Operand.nextWord? =
      a.nextWord?.toList ++ b.nextWord?.toList := by
  cases first : a.nextWord? <;> cases second : b.nextWord? <;> simp [operands, first, second]

theorem nextWords_call (target : Operand) :
    (call target).operands.filterMap Operand.nextWord? = target.nextWord?.toList := by
  cases next : target.nextWord? <;> simp [operands, next]

/-- The operand codes in an instruction word. -/
def codesOf (word : Word) : List Word :=
  if opcodeBits word = 0 then [bBits word] else [aBits word, bBits word]

/-- An instruction that is made of a word and the words behind it. Its operands have the codes that
    the word gives them, whole, and each has its own next word. -/
structure Reads (word : Word) (next : List Word) (instruction : Instruction) : Prop where
  length : instruction.length = lengthOf word
  call : (∃ target, instruction = .call target) ↔ opcodeBits word = 0
  opcode {opcode : Opcode} {a b : Operand} : instruction = .basic opcode a b →
    opcode.number = (opcodeBits word).toNat
  codes : instruction.operands.map Operand.code = (codesOf word).map UInt16.toNat
  takes : instruction.operands.map (fun operand => operand.nextWord?.isSome) =
    (codesOf word).map Operand.needsNextWord
  next : instruction.operands.filterMap Operand.nextWord? = next

theorem toNat_aBits_lt (word : Word) : (aBits word).toNat < 64 := by
  rw [aBits, UInt16.toNat_and]
  exact Nat.and_lt_two_pow (n := 6) _ (by decide)

theorem toNat_bBits_lt (word : Word) : (bBits word).toNat < 64 := by
  rw [bBits, UInt16.toNat_and]
  exact Nat.and_lt_two_pow (n := 6) _ (by decide)

theorem opcodeBits_eq_zero_iff (word : Word) :
    opcodeBits word = 0 ↔ Opcode.ofNumber? (opcodeBits word).toNat = none :=
  (ofNumber?_opcodeBits_eq_none_iff word).symm

theorem code_readOperand {code : Word} (sixBits : code.toNat < 64) (next : List Word) :
    (readOperand code next).1.code = code.toNat := by
  unfold readOperand
  split <;> rw [Operand.code_decode, Nat.mod_eq_of_lt sixBits]

/-- The words in an operand and those left over are the words that were there. -/
theorem words_readOperand {code : Word} (sixBits : code.toNat < 64) (next : List Word)
    (enough : (Operand.needsNextWord code).toNat ≤ next.length) :
    (readOperand code next).1.nextWord?.toList ++ (readOperand code next).2 = next ∧
      (readOperand code next).2.length + (Operand.needsNextWord code).toNat = next.length := by
  unfold readOperand
  cases needs : Operand.needsNextWord code with
  | false => simp [Operand.nextWord?_decode_eq sixBits, needs]
  | true =>
      rw [needs] at enough
      obtain ⟨first, rest, rfl⟩ := List.exists_cons_of_length_pos enough
      simp [Operand.nextWord?_decode_eq sixBits, needs]

theorem toNat_lengthOf (word : Word) :
    (lengthOf word).toNat =
      1 + (codesOf word).foldr (fun code more => (Operand.needsNextWord code).toNat + more) 0 := by
  simp only [lengthOf, codesOf]
  split
  · cases needs : Operand.needsNextWord (bBits word) <;> simp [needs]
  · cases needsA : Operand.needsNextWord (aBits word) <;>
      cases needsB : Operand.needsNextWord (bBits word) <;> simp [needsA, needsB]

/-- A word that is an instruction is a basic one or a call. -/
theorem kind_of_decodable {word : Word} (decodable : ¬ Undecodable word) :
    (∃ opcode, Opcode.ofNumber? (opcodeBits word).toNat = some opcode ∧ opcodeBits word ≠ 0) ∨
      Opcode.ofNumber? (opcodeBits word).toNat = none ∧ opcodeBits word = 0 ∧ aBits word = 1 := by
  have kind := opcodeBits_eq_zero_iff word
  cases number : Opcode.ofNumber? (opcodeBits word).toNat with
  | some opcode =>
      refine .inl ⟨opcode, rfl, ?_⟩
      rw [ne_eq, kind, number]
      exact Option.some_ne_none opcode
  | none =>
      refine .inr ⟨rfl, kind.mpr number, ?_⟩
      apply Classical.byContradiction
      intro other
      exact decodable ⟨kind.mpr number, other⟩

theorem ofWords?_of_undecodable {word : Word} (undecodable : Undecodable word)
    (next : List Word) : ofWords? word next = none := by
  have number := (opcodeBits_eq_zero_iff word).mp undecodable.1
  have other : aBits word ≠ 1 := undecodable.2
  simp only [ofWords?, number, other, if_false]

section Asking

variable {m : Type → Type u} [Monad m]

theorem decode_of_undecodable {word : Word} (undecodable : Undecodable word)
    (nextWord : Word → m Word) : decode word nextWord = pure none := by
  have number := (opcodeBits_eq_zero_iff word).mp undecodable.1
  have other : aBits word ≠ 1 := undecodable.2
  simp only [decode, number, other, if_false]

/-- Read an instruction, and say how many words it takes by those that were asked for. -/
def decodeCounting (word : Word) (nextWord : Word → m Word) : m (Option (Instruction × Word)) := do
  match Opcode.ofNumber? (opcodeBits word).toNat with
  | some opcode =>
      let (a, taken) ← decodeOperand nextWord (aBits word) 0
      let (b, taken) ← decodeOperand nextWord (bBits word) taken
      return some (.basic opcode a b, 1 + taken)
  | none =>
      if aBits word = 1 then
        let (target, taken) ← decodeOperand nextWord (bBits word) 0
        return some (.call target, 1 + taken)
      else
        return none

/-- The words that are asked for are those that the instruction takes. -/
theorem decodeCounting_eq [LawfulMonad m] (word : Word) (nextWord : Word → m Word) :
    decodeCounting word nextWord = do
      let instruction ← decode word nextWord
      return instruction.map fun instruction => (instruction, instruction.length) := by
  have takesA := Operand.nextWords_decode (toNat_aBits_lt word)
  have takesB := Operand.nextWords_decode (toNat_bBits_lt word)
  simp only [decodeCounting, decode]
  cases Opcode.ofNumber? (opcodeBits word).toNat with
  | some opcode =>
      cases needsA : Operand.needsNextWord (aBits word) <;>
        cases needsB : Operand.needsNextWord (bBits word) <;>
        simp [decodeOperand, needsA, needsB, length, takesA, takesB]
  | none =>
      by_cases call : aBits word = 1
      · cases needsB : Operand.needsNextWord (bBits word) <;>
          simp [decodeOperand, call, needsB, length, takesB]
      · simp [call]

/-- An instruction word is read by asking for the words at its places, one after the other, and
    then as in the pure case. -/
theorem decode_asks [LawfulMonad m] {word : Word} (decodable : ¬ Undecodable word)
    (nextWord : Word → m Word) :
    decode word nextWord = do
      let next ← (places (lengthOf word)).mapM nextWord
      return ofWords? word next := by
  have one : places 1 = [] := rfl
  have two : places 2 = [1] := rfl
  have three : places 3 = [1, 2] := rfl
  unfold decode ofWords? lengthOf
  rcases kind_of_decodable decodable with ⟨opcode, number, basic⟩ | ⟨number, extended, call⟩
  · rw [number, if_neg basic]
    cases needsA : Operand.needsNextWord (aBits word) <;>
      cases needsB : Operand.needsNextWord (bBits word) <;>
      simp [decodeOperand, readOperand, needsA, needsB, one, two, three]
  · rw [number, if_pos extended]
    cases needs : Operand.needsNextWord (bBits word) <;>
      simp [decodeOperand, readOperand, call, needs, one, two]

end Asking

theorem Reads.of_basic {word : Word} {opcode : Opcode} {a b : Operand}
    (number : Opcode.ofNumber? (opcodeBits word).toNat = some opcode)
    (codeA : a.code = (aBits word).toNat) (codeB : b.code = (bBits word).toNat) :
    Reads word (a.nextWord?.toList ++ b.nextWord?.toList) (.basic opcode a b) := by
  have basic : opcodeBits word ≠ 0 := by
    simp only [ne_eq, opcodeBits_eq_zero_iff, number, reduceCtorEq, not_false_eq_true]
  have takesA := a.needsNextWord_code
  have takesB := b.needsNextWord_code
  rw [codeA, UInt16.ofNat_toNat] at takesA
  rw [codeB, UInt16.ofNat_toNat] at takesB
  constructor
  case length =>
      simp only [Instruction.length, lengthOf, basic, if_false, Operand.nextWords, takesA, takesB]
  case call => simp only [reduceCtorEq, exists_false, basic]
  case opcode =>
      rintro _ _ _ ⟨⟩
      exact Opcode.number_of_ofNumber? number
  case codes =>
      simp only [operands, codesOf, basic, if_false, List.map_cons, List.map_nil, codeA,
        codeB]
  case takes =>
      simp only [operands, codesOf, basic, if_false, List.map_cons, List.map_nil, takesA,
        takesB]
  case next => exact nextWords_basic opcode a b

theorem Reads.of_call {word : Word} {target : Operand} (extended : opcodeBits word = 0)
    (code : target.code = (bBits word).toNat) :
    Reads word target.nextWord?.toList (.call target) := by
  have takes := target.needsNextWord_code
  rw [code, UInt16.ofNat_toNat] at takes
  constructor
  case length =>
      simp only [Instruction.length, lengthOf, extended, if_true, Operand.nextWords, takes]
  case call => simp only [extended, Instruction.call.injEq, exists_eq']
  case opcode => rintro _ _ _ ⟨⟩
  case codes =>
      simp only [operands, codesOf, extended, if_true, List.map_cons, List.map_nil, code]
  case takes =>
      simp only [operands, codesOf, extended, if_true, List.map_cons, List.map_nil, takes]
  case next => exact nextWords_call target

theorem reads_ofWords? {word : Word} (decodable : ¬ Undecodable word) {next : List Word} :
    ∃ instruction, ofWords? word next = some instruction ∧
      (next.length + 1 = (lengthOf word).toNat → Reads word next instruction) := by
  have bitsA := toNat_aBits_lt word
  have bitsB := toNat_bBits_lt word
  rw [toNat_lengthOf]
  rcases kind_of_decodable decodable with ⟨opcode, number, basic⟩ | ⟨number, extended, call⟩
  · refine ⟨_, by simp only [ofWords?, number]; rfl, ?_⟩
    intro complete
    simp only [codesOf, basic, if_false, List.foldr_cons, List.foldr_nil] at complete
    obtain ⟨wordsA, leftA⟩ := words_readOperand bitsA next (by omega)
    have codeA := code_readOperand bitsA next
    generalize readOperand (aBits word) next = first at wordsA leftA codeA ⊢
    obtain ⟨wordsB, leftB⟩ := words_readOperand bitsB first.2 (by omega)
    have codeB := code_readOperand bitsB first.2
    generalize readOperand (bBits word) first.2 = second at wordsB leftB codeB ⊢
    have none : second.2 = [] := List.eq_nil_of_length_eq_zero (by omega)
    have reads := Reads.of_basic number codeA codeB
    rw [none, List.append_nil] at wordsB
    rw [wordsB, wordsA] at reads
    exact reads
  · refine ⟨_, by simp only [ofWords?, number, call, if_true]; rfl, ?_⟩
    intro complete
    simp only [codesOf, extended, if_true, List.foldr_cons, List.foldr_nil] at complete
    obtain ⟨words, left⟩ := words_readOperand bitsB next (by omega)
    have none : (readOperand (bBits word) next).2 = [] :=
      List.eq_nil_of_length_eq_zero (by omega)
    have reads := Reads.of_call extended (code_readOperand bitsB next)
    rw [none, List.append_nil] at words
    rw [words] at reads
    exact reads

theorem decodable_of_ofWords?_eq_some {word : Word} {next : List Word} {instruction : Instruction}
    (made : ofWords? word next = some instruction) : ¬ Undecodable word := by
  intro undecodable
  rw [ofWords?_of_undecodable undecodable] at made
  cases made

theorem reads_of_ofWords?_eq_some {word : Word} {next : List Word} {instruction : Instruction}
    (made : ofWords? word next = some instruction)
    (complete : next.length + 1 = (lengthOf word).toNat) : Reads word next instruction := by
  obtain ⟨read, same, reads⟩ := reads_ofWords? (decodable_of_ofWords?_eq_some made)
  obtain rfl : read = instruction := Option.some.inj (same.symm.trans made)
  exact reads complete

theorem length_places (word : Word) :
    (places (lengthOf word)).length + 1 = (lengthOf word).toNat := by
  rw [places, List.length_map, List.length_range', toNat_lengthOf]
  omega

theorem toNat_lengthOf_le (word : Word) :
    1 ≤ (lengthOf word).toNat ∧ (lengthOf word).toNat ≤ 3 := by
  have takesA : (Operand.needsNextWord (aBits word)).toNat ≤ 1 := Bool.toNat_le _
  have takesB : (Operand.needsNextWord (bBits word)).toNat ≤ 1 := Bool.toNat_le _
  rw [toNat_lengthOf, codesOf]
  split <;> simp only [List.foldr_cons, List.foldr_nil] <;> omega

end Instruction

namespace Memory

variable {σ : Type u} {ε : Type v} [Memory σ ε]

/-- The words behind the one at an address that belong to it by its length. -/
def wordsBehind (m : σ) (pc : Word) : List Word :=
  (Instruction.places (Instruction.lengthOf (load m (.ram pc)))).map fun i => load m (.ram (pc + i))

theorem length_wordsBehind (m : σ) (pc : Word) :
    (wordsBehind m pc).length + 1 = (Instruction.lengthOf (load m (.ram pc))).toNat := by
  rw [wordsBehind, List.length_map, Instruction.length_places]

/-- What is fetched is made of the words at the address, as many as the first of them says. -/
theorem fetch_eq (m : σ) (pc : Word) :
    fetch m pc = match Instruction.ofWords? (load m (.ram pc)) (wordsBehind m pc) with
      | some instruction => .ok instruction
      | none => .error { pc, word := load m (.ram pc) } := by
  let nextWord : Word → Id Word := fun i => pure (load m (.ram (pc + i)))
  have decoded : Id.run (Instruction.decode (load m (.ram pc)) nextWord) =
      Instruction.ofWords? (load m (.ram pc)) (wordsBehind m pc) := by
    by_cases undecodable : Instruction.Undecodable (load m (.ram pc))
    · rw [Instruction.decode_of_undecodable undecodable,
        Instruction.ofWords?_of_undecodable undecodable]
      rfl
    · rw [Instruction.decode_asks undecodable, List.mapM_pure, pure_bind]
      rfl
  rw [← decoded]
  rfl

theorem fetch_eq_ok_iff {m : σ} {pc : Word} {instruction : Instruction} :
    fetch m pc = .ok instruction ↔
      Instruction.ofWords? (load m (.ram pc)) (wordsBehind m pc) = some instruction := by
  rw [fetch_eq]
  cases Instruction.ofWords? (load m (.ram pc)) (wordsBehind m pc) with
  | none => simp only [reduceCtorEq]
  | some other => simp only [Except.ok.injEq, Option.some.injEq]

theorem fetch_reads {m : σ} {pc : Word} {instruction : Instruction}
    (decoded : fetch m pc = .ok instruction) :
    Instruction.Reads (load m (.ram pc)) (wordsBehind m pc) instruction := by
  rw [fetch_eq_ok_iff] at decoded
  exact Instruction.reads_of_ofWords?_eq_some decoded (length_wordsBehind m pc)

/-- The first thing that an instruction stores is the program counter. -/
theorem head?_stepStores {m : σ} {instruction : Instruction}
    (decoded : fetch m (load m .pc) = .ok instruction) :
    ((stepStores m).map Entry.written).head? = some (.pc, load m .pc + instruction.length) := by
  let journal : Journal σ ε := { memory := m }
  let start : Execution (Journal σ ε) ε :=
    ({ memory := journal } : Execution (Journal σ ε) ε).store .pc (load m .pc + instruction.length)
  have stable : Stable fun journal : Journal σ ε =>
      journal.written.head? = some (.pc, load m .pc + instruction.length) := by
    intro journal address value first
    rw [Journal.written_store, List.head?_append, first, Option.some_or]
  have first : start.memory.written.head? = some (.pc, load m .pc + instruction.length) := by
    rw [Execution.store_memory, Journal.written_store]
    rfl
  obtain ⟨ends, -⟩ := journaledStep_of_fetch_ok decoded
  rw [stepStores, ends]
  exact (stable.simulation.perform ⟨rfl, first⟩ instruction).2

theorem load_pc_step_test [LawfulMemory σ] {m : σ} {condition : Condition} {a b : Operand}
    (decoded : fetch m (load m .pc) = .ok (.basic (.test condition) a b)) :
    let s := snapshot m
    let next := load m .pc + (Instruction.basic (.test condition) a b).length
    let before := s.resolved a b (Instruction.basic (.test condition) a b).length
    let valueA := before.read (a.place s.load)
    let valueB := before.read (b.place (State.load { s with sp := s.sp + a.stackMove }))
    load (step m).1 .pc =
      if condition.holds valueA valueB then next
      else next + Instruction.lengthOf (load m (.ram next)) := by
  intro s next before valueA valueB
  have decodedAlone : fetch s s.pc = .ok (.basic (.test condition) a b) :=
    (fetch_snapshot m s.pc).trans decoded
  have effect := s.load_step_test decodedAlone .pc
  rw [← snapshot_step, load_snapshot] at effect
  have ram : State.load before (.ram next) = load m (.ram next) := load_snapshot m (.ram next)
  rw [← ram, effect]
  cases condition.holds valueA valueB with
  | true => exact if_neg fun fails => Bool.noConfusion fails.2
  | false => exact if_pos ⟨rfl, rfl⟩

end Memory

namespace Instruction

/-- The lengths of an instruction agree: what decoding asks for and counts, told by its first word
    alone, is what the instruction takes, what a step moves the program counter by before anything
    else, and what a failed test skips. Whatever asking for a word does besides, it is done for the
    places up to the length and for no others, and the answers are all that the instruction is made
    of. -/
theorem lengths_agree {m : Type → Type u} [Monad m] [LawfulMonad m] (word : Word)
    (nextWord : Word → m Word) {σ : Type v} {ε : Type w} [Memory σ ε] [LawfulMemory σ]
    (memory : σ) :
    (1 ≤ (lengthOf word).toNat ∧ (lengthOf word).toNat ≤ 3) ∧
    (Undecodable word → decode word nextWord = pure none) ∧
    (¬ Undecodable word →
      (decode word nextWord = do
        let next ← (places (lengthOf word)).mapM nextWord
        return ofWords? word next) ∧
      ∀ next, ∃ instruction, ofWords? word next = some instruction ∧
        (next.length + 1 = (lengthOf word).toNat → Reads word next instruction)) ∧
    (decodeCounting word nextWord = do
      let instruction ← decode word nextWord
      return instruction.map fun instruction => (instruction, instruction.length)) ∧
    (∀ pc instruction, Memory.fetch memory pc = .ok instruction →
      instruction.length = lengthOf (Memory.load memory (.ram pc))) ∧
    let pc := Memory.load memory .pc
    let behind := pc + lengthOf (Memory.load memory (.ram pc))
    (∀ instruction, Memory.fetch memory pc = .ok instruction →
      ((Memory.stepStores memory).map Entry.written).head? = some (.pc, behind)) ∧
    ∀ condition a b, Memory.fetch memory pc = .ok (.basic (.test condition) a b) →
      let s := Memory.snapshot memory
      let before := s.resolved a b (Instruction.basic (.test condition) a b).length
      let valueA := before.read (a.place s.load)
      let valueB := before.read (b.place (State.load { s with sp := s.sp + a.stackMove }))
      Memory.load (Memory.step memory).1 .pc =
        if condition.holds valueA valueB then behind
        else behind + lengthOf (Memory.load memory (.ram behind)) := by
  refine ⟨toNat_lengthOf_le word, ?_, ?_, decodeCounting_eq word nextWord, ?_, ?_, ?_⟩
  · exact fun undecodable => decode_of_undecodable undecodable nextWord
  · exact fun decodable => ⟨decode_asks decodable nextWord, fun _ => reads_ofWords? decodable⟩
  · exact fun _ _ decoded => (Memory.fetch_reads decoded).length
  · intro instruction decoded
    rw [← (Memory.fetch_reads decoded).length]
    exact Memory.head?_stepStores decoded
  · intro condition a b decoded
    rw [← (Memory.fetch_reads decoded).length]
    exact Memory.load_pc_step_test decoded

/-- A machine at the last word of its memory, where a failing test stands in front of an
    instruction of three words at the first one. -/
def wrapping : State :=
  ((State.boot [0x7de1, 0x1000, 0x0020]).store (.ram 0xffff) 0x840c).store .pc 0xffff

theorem lengths_agree_wrapping :
    let asking : Word → StateM (List Word) Word := fun i => do
      modify (· ++ [i])
      return 0x1000 * i
    ¬ Undecodable 0x7de1 ∧
      (decode 0x7de1 asking).run [] =
        (some (.basic (.compute .set) (.direct 0x1000) (.literal 0x2000)), [1, 2]) ∧
      (decodeCounting 0x7de1 asking).run [] =
        (some (.basic (.compute .set) (.direct 0x1000) (.literal 0x2000), 3), [1, 2]) ∧
      Memory.fetch wrapping (Memory.load wrapping .pc) =
        .ok (.basic (.test .equal) (.register 0) (.short 1)) ∧
      Memory.load (Memory.step wrapping).1 .pc = 3 := by
  intro asking
  have decodable : ¬ Undecodable 0x7de1 := by
    unfold Undecodable
    decide
  have decoded : Memory.fetch wrapping (Memory.load wrapping .pc) =
      .ok (.basic (.test .equal) (.register 0) (.short 1)) := rfl
  obtain ⟨-, -, asks, counts, -, -, tests⟩ := lengths_agree 0x7de1 asking wrapping
  refine ⟨decodable, ?_, ?_, decoded, ?_⟩
  · rw [(asks decodable).1]
    rfl
  · rw [counts]
    rfl
  · rw [tests _ _ _ decoded]
    rfl

end Instruction
end Dcpu
