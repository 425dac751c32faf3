import Dcpu.Proofs.Lengths

/-! # The instruction format

An instruction word is the sum of its opcode and of the codes of its operands, each times a power of
two of its own. No other fields that fit have the same sum, and each next word belongs to the one
operand whose code takes it. So the words of an instruction are read as that instruction and as no
other, wherever they stand in the memory, also round its end. What is fetched is written there.
-/

namespace Dcpu

universe u v

namespace Opcode

theorem number_lt (opcode : Opcode) : opcode.number < 16 := by
  rcases opcode with operation | condition
  · cases operation <;> decide
  · cases condition <;> decide

end Opcode

namespace Instruction

theorem toNat_opcodeBits (word : Word) : (opcodeBits word).toNat = word.toNat % 16 := by
  unfold opcodeBits
  rw [UInt16.toNat_and]
  exact Nat.and_two_pow_sub_one_eq_mod word.toNat 4

theorem toNat_aBits (word : Word) : (aBits word).toNat = word.toNat / 16 % 64 := by
  unfold aBits
  rw [UInt16.toNat_and, UInt16.toNat_shiftRight, Nat.shiftRight_eq_div_pow]
  exact Nat.and_two_pow_sub_one_eq_mod (word.toNat / 16) 6

theorem toNat_bBits (word : Word) : (bBits word).toNat = word.toNat / 1024 % 64 := by
  unfold bBits
  rw [UInt16.toNat_and, UInt16.toNat_shiftRight, Nat.shiftRight_eq_div_pow]
  exact Nat.and_two_pow_sub_one_eq_mod (word.toNat / 1024) 6

/-- A word is the sum of its fields, and of no others that fit. -/
theorem ofNat_fields_eq_iff {opcode a b : Nat} (word : Word) (fourBits : opcode < 16)
    (sixBitsA : a < 64) (sixBitsB : b < 64) :
    UInt16.ofNat (opcode + 16 * a + 1024 * b) = word ↔
      (opcodeBits word).toNat = opcode ∧ (aBits word).toNat = a ∧ (bBits word).toNat = b := by
  have sixteenBits := word.toNat_lt
  rw [toNat_opcodeBits, toNat_aBits, toNat_bBits, ← UInt16.toNat_inj, UInt16.toNat_ofNat']
  omega

theorem encode_basic_eq_iff {opcode : Opcode} {a b : Operand} {word : Word} {next : List Word} :
    encode (.basic opcode a b) = word :: next ↔
      ((opcodeBits word).toNat = opcode.number ∧ (aBits word).toNat = a.code ∧
        (bBits word).toNat = b.code) ∧
      a.nextWord?.toList ++ b.nextWord?.toList = next := by
  rw [← ofNat_fields_eq_iff word opcode.number_lt a.code_lt b.code_lt, ← List.cons.injEq]
  rfl

/-- A call is written with opcode 0, and with 1 for its first operand. -/
theorem encode_call_eq_iff {target : Operand} {word : Word} {next : List Word} :
    encode (.call target) = word :: next ↔
      ((opcodeBits word).toNat = 0 ∧ (aBits word).toNat = 1 ∧ (bBits word).toNat = target.code) ∧
      target.nextWord?.toList = next := by
  rw [← ofNat_fields_eq_iff word (by decide) (by decide) target.code_lt, ← List.cons.injEq]
  rfl

/-- An operand is read from its code and its next word, if it has one, and takes no other word. -/
theorem readOperand_code {code : Word} (operand : Operand) (same : code.toNat = operand.code)
    (rest : List Word) :
    readOperand code (operand.nextWord?.toList ++ rest) = (operand, rest) := by
  obtain rfl : UInt16.ofNat operand.code = code := by
    rw [← same, UInt16.ofNat_toNat]
  have read := operand.decode_code 0
  unfold readOperand
  rw [operand.needsNextWord_code]
  cases next : operand.nextWord? with
  | none | some =>
      rw [next] at read
      exact congrArg (·, rest) read

theorem ofWords?_of_encode {instruction : Instruction} {word : Word} {next : List Word}
    (encoded : instruction.encode = word :: next) : ofWords? word next = some instruction := by
  unfold ofWords?
  cases instruction with
  | basic opcode a b =>
      obtain ⟨⟨number, codeA, codeB⟩, rfl⟩ := encode_basic_eq_iff.mp encoded
      have onlyB := readOperand_code b codeB []
      rw [List.append_nil] at onlyB
      simp only [number, opcode.ofNumber?_number, readOperand_code a codeA, onlyB]
  | call target =>
      obtain ⟨⟨number, extended, code⟩, rfl⟩ := encode_call_eq_iff.mp encoded
      have only := readOperand_code target code []
      rw [List.append_nil] at only
      have one : aBits word = 1 := UInt16.toNat_inj.mp extended
      simp only [number, one, only]
      rfl

theorem encode_of_reads {instruction : Instruction} {word : Word} {next : List Word}
    (decodable : ¬ Undecodable word) (reads : Reads word next instruction) :
    instruction.encode = word :: next := by
  have codes := reads.codes
  have words := reads.next
  unfold codesOf at codes
  cases instruction with
  | basic opcode a b =>
      have basic : opcodeBits word ≠ 0 := by
        intro extended
        obtain ⟨_, ⟨⟩⟩ := reads.call.mpr extended
      rw [if_neg basic] at codes
      obtain ⟨codeA, codeB⟩ : a.code = (aBits word).toNat ∧ b.code = (bBits word).toNat := by
        simpa [operands] using codes
      apply encode_basic_eq_iff.mpr
      refine ⟨⟨(reads.opcode rfl).symm, codeA.symm, codeB.symm⟩, ?_⟩
      rw [← words, nextWords_basic]
  | call target =>
      have extended : opcodeBits word = 0 := reads.call.mp ⟨target, rfl⟩
      rw [if_pos extended] at codes
      have code : target.code = (bBits word).toNat := by
        simpa [operands] using codes
      have one : aBits word = 1 := by
        apply Classical.byContradiction
        intro other
        exact decodable ⟨extended, other⟩
      apply encode_call_eq_iff.mpr
      refine ⟨⟨congrArg UInt16.toNat extended, congrArg UInt16.toNat one, code.symm⟩, ?_⟩
      rw [← words, nextWords_call]

/-- A word and those behind it, as many as its length says, make the instruction that is written
    with them. -/
theorem ofWords?_eq_some_iff {instruction : Instruction} {word : Word} {next : List Word}
    (complete : next.length + 1 = (lengthOf word).toNat) :
    ofWords? word next = some instruction ↔ instruction.encode = word :: next := by
  constructor
  · intro made
    exact encode_of_reads (decodable_of_ofWords?_eq_some made)
      (reads_of_ofWords?_eq_some made complete)
  · exact ofWords?_of_encode

/-- The first word of an instruction tells how many there are. -/
theorem lengthOf_of_encode {instruction : Instruction} {word : Word} {next : List Word}
    (encoded : instruction.encode = word :: next) : lengthOf word = instruction.length := by
  cases instruction with
  | basic opcode a b =>
      obtain ⟨⟨number, codeA, codeB⟩, -⟩ := encode_basic_eq_iff.mp encoded
      have known := opcode.ofNumber?_number
      rw [← number] at known
      exact (Reads.of_basic known codeA.symm codeB.symm).length.symm
  | call target =>
      obtain ⟨⟨number, -, code⟩, -⟩ := encode_call_eq_iff.mp encoded
      have extended : opcodeBits word = 0 := UInt16.toNat_inj.mp number
      exact (Reads.of_call extended code.symm).length.symm

end Instruction

namespace Memory

variable {σ : Type u} {ε : Type v} [Memory σ ε]

/-- So many words in the memory from an address on, round its end. -/
def wordsFrom (m : σ) (start : Word) (count : Nat) : List Word :=
  (List.range count).map fun i => load m (.ram (start + UInt16.ofNat i))

theorem length_wordsFrom (m : σ) (start : Word) (count : Nat) :
    (wordsFrom m start count).length = count := by
  rw [wordsFrom, List.length_map, List.length_range]

theorem wordsFrom_succ (m : σ) (start : Word) (count : Nat) :
    wordsFrom m start (count + 1) = load m (.ram start) ::
      (List.range' 1 count).map fun i => load m (.ram (start + UInt16.ofNat i)) := by
  have first : start + UInt16.ofNat 0 = start := UInt16.add_zero start
  rw [wordsFrom, List.range_eq_range', List.range'_succ, List.map_cons, first]

theorem wordsFrom_lengthOf (m : σ) (pc : Word) :
    wordsFrom m pc (Instruction.lengthOf (load m (.ram pc))).toNat =
      load m (.ram pc) :: wordsBehind m pc := by
  obtain ⟨positive, -⟩ := Instruction.toNat_lengthOf_le (load m (.ram pc))
  rw [wordsBehind, Instruction.places, List.map_map]
  rw [← Nat.sub_add_cancel positive, wordsFrom_succ, Nat.add_sub_cancel]
  rfl

/-- An instruction is fetched exactly where its words stand. -/
theorem fetch_eq_ok_iff_written {m : σ} {pc : Word} {instruction : Instruction} :
    fetch m pc = .ok instruction ↔
      wordsFrom m pc instruction.length.toNat = instruction.encode := by
  rw [fetch_eq_ok_iff, Instruction.ofWords?_eq_some_iff (length_wordsBehind m pc),
    ← wordsFrom_lengthOf]
  constructor
  · intro encoded
    have length := congrArg List.length encoded
    rw [length_wordsFrom, ← Instruction.toNat_length] at length
    rw [encoded, length]
  · intro written
    -- Only the first word is known to be in the memory: it says how many of the others are.
    have first : ∃ next, instruction.encode = load m (.ram pc) :: next := by
      cases count : instruction.length.toNat with
      | zero =>
          rw [Instruction.toNat_length] at count
          cases instruction <;> cases count
      | succ count =>
          rw [← written, count, wordsFrom_succ]
          exact ⟨_, rfl⟩
    obtain ⟨next, encoded⟩ := first
    rw [Instruction.lengthOf_of_encode encoded, written]

/-- Fetching inverts the format. Where the words of an instruction stand, from any address on and
    round the end of the memory, that instruction is fetched; and of what is fetched the words stand
    there, and those of no other instruction. The words are the sum of the fields, without a carry
    out of it, and the next words in the order of the operands. -/
theorem fetch_inverts_encode (m : σ) (pc : Word) :
    (∀ instruction, wordsFrom m pc instruction.length.toNat = instruction.encode →
      fetch m pc = .ok instruction) ∧
    (∀ instruction, fetch m pc = .ok instruction →
      wordsFrom m pc instruction.length.toNat = instruction.encode ∧
      ∀ other, wordsFrom m pc other.length.toNat = other.encode → other = instruction) ∧
    (∀ opcode a b,
      let next := a.nextWord?.toList ++ b.nextWord?.toList
      (Instruction.basic opcode a b).length.toNat = 1 + next.length ∧
      ∃ word, (Instruction.basic opcode a b).encode = word :: next ∧
        word.toNat = opcode.number + 16 * a.code + 1024 * b.code) ∧
    (∀ target,
      let next := target.nextWord?.toList
      (Instruction.call target).length.toNat = 1 + next.length ∧
      ∃ word, (Instruction.call target).encode = word :: next ∧
        word.toNat = 0x10 + 1024 * target.code) := by
  refine ⟨?_, ?_, ?_, ?_⟩
  · intro instruction written
    exact fetch_eq_ok_iff_written.mpr written
  · intro instruction fetched
    refine ⟨fetch_eq_ok_iff_written.mp fetched, ?_⟩
    intro other written
    have fetchedOther := fetch_eq_ok_iff_written.mpr written
    exact Except.ok.inj (fetchedOther.symm.trans fetched)
  · intro opcode a b next
    refine ⟨?_, _, rfl, ?_⟩
    · rw [Instruction.toNat_length]
      exact Nat.add_comm next.length 1
    · have fourBits := opcode.number_lt
      have sixBitsA := a.code_lt
      have sixBitsB := b.code_lt
      apply UInt16.toNat_ofNat_of_lt'
      change _ < 65536
      omega
  · intro target next
    refine ⟨?_, _, rfl, ?_⟩
    · rw [Instruction.toNat_length]
      exact Nat.add_comm next.length 1
    · have sixBits := target.code_lt
      apply UInt16.toNat_ofNat_of_lt'
      change _ < 65536
      omega

end Memory

/-- A machine with an instruction at the last word of its memory. Its next words are at the
    start. -/
def State.straddling : State :=
  (State.boot [0x8000, 0xf041]).store (.ram 0xffff) 0x7d61

theorem Memory.fetch_inverts_encode_straddling :
    let instruction := Instruction.basic (.compute .set) (.indexed 6 0x8000) (.literal 0xf041)
    wordsFrom State.straddling 0xffff instruction.length.toNat = instruction.encode ∧
      fetch State.straddling 0xffff = .ok instruction ∧
      ∀ other, wordsFrom State.straddling 0xffff other.length.toNat = other.encode →
        other = instruction := by
  intro instruction
  have written : wordsFrom State.straddling 0xffff instruction.length.toNat =
      instruction.encode := rfl
  obtain ⟨reads, unique, -⟩ := fetch_inverts_encode State.straddling 0xffff
  have fetched := reads instruction written
  exact ⟨written, fetched, (unique instruction fetched).2⟩

end Dcpu
