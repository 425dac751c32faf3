import Dcpu.Proofs.Stores
import Mathlib.Data.List.Induction

/-! # The stack

The stack is the part of the memory that the stack pointer points into. It grows downwards and wraps
round the end of the memory, so it has room for as many words as there are cells: a word more takes
the cell of the oldest one.
-/

namespace Dcpu

universe u v

namespace Execution

variable {σ : Type u} {ε : Type v} [Memory σ ε]

/-- Write a word to the place that `PUSH` stands for. -/
def push (e : Execution σ ε) (word : Word) : Execution σ ε :=
  let (place, e) := e.resolve .push
  e.write place word

/-- Read a word from the place that `POP` stands for. -/
def pop (e : Execution σ ε) : Word × Execution σ ε :=
  let (place, e) := e.resolve .pop
  (e.read place, e)

/-- Read a word from the place that `PEEK` stands for. -/
def peek (e : Execution σ ε) : Word × Execution σ ε :=
  let (place, e) := e.resolve .peek
  (e.read place, e)

/-- Push words, the first one first. -/
def pushAll (e : Execution σ ε) (words : List Word) : Execution σ ε :=
  words.foldl push e

/-- Pop so many words. The first of the list is the one that was popped first. -/
def popAll (e : Execution σ ε) : Nat → List Word × Execution σ ε
  | 0 => ([], e)
  | count + 1 =>
      let (word, e) := e.pop
      let (words, e) := e.popAll count
      (word :: words, e)

theorem pushAll_concat (e : Execution σ ε) (words : List Word) (word : Word) :
    e.pushAll (words ++ [word]) = (e.pushAll words).push word := by
  simp only [pushAll, List.foldl_append, List.foldl_cons, List.foldl_nil]

/-- These words are on the stack, the top of the stack first. -/
def Holds (e : Execution σ ε) (words : List Word) : Prop :=
  ∀ i word, words[i]? = some word → e.load (.ram (e.load .sp + UInt16.ofNat i)) = word

theorem holds_nil (e : Execution σ ε) : e.Holds [] := by
  intro i word found
  cases found

section Lawful

variable [LawfulMemory σ] (e : Execution σ ε)

theorem load_push (word : Word) (address : Address) :
    (e.push word).load address =
      if address = .ram (e.load .sp - 1) then word
      else if address = .sp then e.load .sp - 1
      else e.load address := by
  simp only [push, resolve, write, load_store]

theorem sp_push (word : Word) : (e.push word).load .sp = e.load .sp - 1 := by
  simp only [load_push, reduceCtorEq, if_false, if_true]

theorem load_pop (address : Address) :
    e.pop.2.load address = if address = .sp then e.load .sp + 1 else e.load address := by
  simp only [pop, resolve, load_store]

theorem sp_pop : e.pop.2.load .sp = e.load .sp + 1 := by
  rw [load_pop, if_pos rfl]

theorem pop_word : e.pop.1 = e.load (.ram (e.load .sp)) := by
  simp only [pop, resolve, read, load_store, reduceCtorEq, if_false]

theorem peek_eq : e.peek = (e.pop.1, e) := by
  rw [pop_word]
  rfl

/-- A word that is pushed lies on top of those that were there. It leaves the lowest one its cell
    only if the stack did not fill the memory. -/
theorem Holds.push {e : Execution σ ε} {words : List Word} (holds : e.Holds words) (word : Word) :
    (e.push word).Holds ((word :: words).take 65536) := by
  intro i found here
  rw [List.getElem?_take, Option.ite_none_right_eq_some] at here
  obtain ⟨room, here⟩ := here
  rw [sp_push]
  cases i with
  | zero =>
      have top : e.load .sp - 1 + UInt16.ofNat 0 = e.load .sp - 1 := UInt16.add_zero _
      rw [load_push, if_pos (congrArg Address.ram top)]
      exact Option.some.inj here
  | succ i =>
      have below : e.load .sp - 1 + UInt16.ofNat (i + 1) = e.load .sp + UInt16.ofNat i := by
        rw [UInt16.ofNat_add]
        grind
      -- Only the 65536th word below the top would lie in the cell of the top.
      have apart : e.load .sp + UInt16.ofNat i ≠ e.load .sp - 1 := by
        intro same
        have zero : UInt16.ofNat (i + 1) = 0 := by
          rw [UInt16.ofNat_add]
          grind
        have := congrArg UInt16.toNat zero
        rw [UInt16.toNat_ofNat', Nat.mod_eq_of_lt room] at this
        cases this
      rw [load_push, below, if_neg (mt Address.ram.inj apart), if_neg Address.noConfusion]
      exact holds i found here

theorem Holds.pop {e : Execution σ ε} {word : Word} {words : List Word}
    (holds : e.Holds (word :: words)) : e.pop.1 = word ∧ e.pop.2.Holds words := by
  constructor
  · have top := holds 0 word rfl
    rw [show UInt16.ofNat 0 = 0 from rfl, UInt16.add_zero] at top
    rw [pop_word, top]
  · intro i found here
    have next := holds (i + 1) found here
    have above : e.load .sp + 1 + UInt16.ofNat i = e.load .sp + UInt16.ofNat (i + 1) := by
      rw [UInt16.ofNat_add]
      grind
    rw [sp_pop, load_pop, if_neg Address.noConfusion, above, next]

section Runs

variable (words : List Word)

theorem holds_pushAll : (e.pushAll words).Holds (words.reverse.take 65536) := by
  induction words using List.reverseRecOn with
  | nil => exact e.holds_nil
  | append_singleton words word ih =>
      have pushed := ih.push word
      rw [List.take_succ_cons, List.take_take] at pushed
      rw [pushAll_concat, List.reverse_concat]
      exact pushed

theorem popAll_words {e : Execution σ ε} {words : List Word} (holds : e.Holds words) {count : Nat}
    (enough : count ≤ words.length) : (e.popAll count).1 = words.take count := by
  induction count generalizing e words with
  | zero => rfl
  | succ count ih =>
      cases words with
      | nil => exact absurd enough (Nat.not_succ_le_zero count)
      | cons word words =>
          obtain ⟨top, rest⟩ := holds.pop
          simp only [popAll, top, ih rest (Nat.le_of_succ_le_succ enough), List.take_succ_cons]

theorem load_popAll (count : Nat) (address : Address) :
    (e.popAll count).2.load address =
      if address = .sp then e.load .sp + UInt16.ofNat count else e.load address := by
  induction count generalizing e with
  | zero =>
      rw [show UInt16.ofNat 0 = 0 from rfl, UInt16.add_zero]
      split <;> rename_i same
      · rw [same, popAll]
      · rfl
  | succ count ih =>
      have above : e.load .sp + 1 + UInt16.ofNat count = e.load .sp + UInt16.ofNat (count + 1) := by
        rw [UInt16.ofNat_add]
        grind
      simp only [popAll, ih, load_pop, if_true, above]
      split <;> rfl

theorem sp_pushAll : (e.pushAll words).load .sp = e.load .sp - UInt16.ofNat words.length := by
  induction words using List.reverseRecOn with
  | nil => exact (UInt16.sub_zero _).symm
  | append_singleton words word ih =>
      rw [pushAll_concat, sp_push, ih, List.length_append, List.length_singleton, UInt16.ofNat_add]
      grind

/-- Words that are pushed change no other cells than those they are pushed into. -/
theorem load_pushAll {address : Address} (other : address ≠ .sp)
    (outside : ∀ i < words.length, address ≠ .ram (e.load .sp - 1 - UInt16.ofNat i)) :
    (e.pushAll words).load address = e.load address := by
  induction words using List.reverseRecOn with
  | nil => rfl
  | append_singleton words word ih =>
      rw [List.length_append, List.length_singleton] at outside
      have here : address ≠ .ram ((e.pushAll words).load .sp - 1) := by
        have next : (e.pushAll words).load .sp - 1 =
            e.load .sp - 1 - UInt16.ofNat words.length := by
          rw [sp_pushAll]
          grind
        rw [next]
        exact outside words.length (Nat.lt_succ_self _)
      rw [pushAll_concat, load_push, if_neg here, if_neg other]
      exact ih fun i inside => outside i (Nat.lt_succ_of_lt inside)

/-- The cells that words are pushed into hold them, as long as they all have one. -/
theorem load_pushAll_cell (few : words.length ≤ 65536) {i : Nat} {word : Word}
    (here : words[i]? = some word) :
    (e.pushAll words).load (.ram (e.load .sp - 1 - UInt16.ofNat i)) = word := by
  obtain ⟨inside, -⟩ := List.getElem?_eq_some_iff.mp here
  -- The words pushed later lie above this one.
  obtain ⟨above, split⟩ : ∃ above, words.length = i + 1 + above := Nat.exists_eq_add_of_le inside
  have stacked : words.reverse[above]? = some word := by
    rw [List.getElem?_reverse (by omega), ← here]
    congr 1
    omega
  have holds := e.holds_pushAll words
  rw [List.take_of_length_le (by rwa [List.length_reverse])] at holds
  have cell : e.load .sp - UInt16.ofNat words.length + UInt16.ofNat above =
      e.load .sp - 1 - UInt16.ofNat i := by
    rw [split, UInt16.ofNat_add, UInt16.ofNat_add]
    grind
  rw [← cell, ← sp_pushAll]
  exact holds above word stacked

end Runs

/-- The stack gives words back in the reverse of the order in which it took them: all of them, and
    with everything else as it was, as long as the memory has room for them, and as many of the
    latest as it has room for otherwise. A peek shows the word that a pop would give. -/
theorem popAll_pushAll (words : List Word) :
    let (popped, after) := (e.pushAll words).popAll words.length
    (words.length ≤ 65536 →
      popped = words.reverse ∧
      after.load .sp = e.load .sp ∧
      (∀ i word, words[i]? = some word →
        after.load (.ram (e.load .sp - 1 - UInt16.ofNat i)) = word) ∧
      ∀ address, (∀ i < words.length, address ≠ .ram (e.load .sp - 1 - UInt16.ofNat i)) →
        after.load address = e.load address) ∧
    (65536 < words.length →
      ((e.pushAll words).popAll 65536).1 = words.reverse.take 65536) ∧
    ∀ between : Execution σ ε, between.peek = (between.pop.1, between) := by
  have holds := e.holds_pushAll words
  refine ⟨fun few => ?_, fun many => ?_, peek_eq⟩
  · have all : words.reverse.take 65536 = words.reverse :=
      List.take_of_length_le (by rwa [List.length_reverse])
    have loads := (e.pushAll words).load_popAll words.length
    have sp : ((e.pushAll words).popAll words.length).2.load .sp = e.load .sp := by
      rw [loads, if_pos rfl, sp_pushAll, UInt16.sub_add_cancel]
    refine ⟨?_, sp, fun i word here => ?_, fun address outside => ?_⟩
    · rw [all] at holds
      rw [popAll_words holds (Nat.le_of_eq List.length_reverse.symm), ← List.length_reverse,
        List.take_length]
    · rw [loads, if_neg Address.noConfusion, e.load_pushAll_cell words few here]
    · by_cases pointer : address = .sp
      · rw [pointer, sp]
      · rw [loads, if_neg pointer, e.load_pushAll words pointer outside]
  · have enough : 65536 ≤ (words.reverse.take 65536).length := by
      rw [List.length_take, List.length_reverse]
      omega
    rw [popAll_words holds enough, List.take_take, Nat.min_self]

end Lawful

/-- Two words pushed onto an empty stack, which wraps round to the end of the memory. -/
theorem popAll_pushAll_wrapping :
    let e : Execution State Empty := { memory := State.blank }
    let (popped, after) := (e.pushAll [3, 4]).popAll 2
    popped = [4, 3] ∧ after.load .sp = 0 ∧ after.load (.ram 0xfffe) = 4 := by
  intro e
  obtain ⟨order, sp, cells, -⟩ := (e.popAll_pushAll [3, 4]).1 (by decide)
  have second : (0xfffe : Word) = e.load .sp - 1 - UInt16.ofNat 1 := by decide
  exact ⟨order, sp, second ▸ cells 1 4 rfl⟩

end Execution
end Dcpu
