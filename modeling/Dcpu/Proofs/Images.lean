import Dcpu.Image
import Dcpu.Proofs.Equivalence

/-! # Program images in the memory

Reading the words of an image undoes writing them as bytes: an image is read exactly if it is
written so, which every image of an even length is. The other byte order gives the same words with
their bytes swapped. A machine that an image is loaded into has the word of each pair of bytes at
the place of the pair, as far as its memory reaches, and nothing else.
-/

namespace Dcpu

universe u

/-- The word with its two bytes the other way round. -/
def Word.swapBytes (word : Word) : Word :=
  UInt16.ofNat (word.toNat % 256 * 256 + word.toNat / 256)

namespace ByteOrder

def other : ByteOrder → ByteOrder
  | bigEndian => littleEndian
  | littleEndian => bigEndian

theorem toNat_word_bigEndian (first second : UInt8) :
    (bigEndian.word first second).toNat = 256 * first.toNat + second.toNat := by
  have high := first.toNat_lt
  have low := second.toNat_lt
  rw [word, UInt16.toNat_ofNat']
  omega

theorem toNat_word_littleEndian (first second : UInt8) :
    (littleEndian.word first second).toNat = 256 * second.toNat + first.toNat :=
  toNat_word_bigEndian second first

theorem bytes_bigEndian_eq_iff {first second : UInt8} {word : Word} :
    bigEndian.bytes word = [first, second] ↔ bigEndian.word first second = word := by
  have wide := word.toNat_lt
  have high := first.toNat_lt
  have low := second.toNat_lt
  simp only [bytes, List.cons.injEq, and_true, ← UInt8.toNat_inj, UInt8.toNat_ofNat',
    ← UInt16.toNat_inj, toNat_word_bigEndian]
  omega

/-- A word is made of its bytes, and of no others. -/
theorem bytes_eq_iff {order : ByteOrder} {first second : UInt8} {word : Word} :
    order.bytes word = [first, second] ↔ order.word first second = word := by
  cases order with
  | bigEndian => exact bytes_bigEndian_eq_iff
  | littleEndian =>
      have reversed : littleEndian.bytes word = [first, second] ↔
          bigEndian.bytes word = [second, first] := by
        simp only [bytes, List.cons.injEq, and_true]
        exact and_comm
      exact reversed.trans bytes_bigEndian_eq_iff

theorem exists_word_eq (order : ByteOrder) (word : Word) :
    ∃ first second, order.word first second = word := by
  cases order with
  | bigEndian => exact ⟨_, _, bytes_eq_iff.mp rfl⟩
  | littleEndian => exact ⟨_, _, bytes_eq_iff.mp rfl⟩

theorem swapBytes_word_bigEndian (first second : UInt8) :
    (bigEndian.word first second).swapBytes = bigEndian.word second first := by
  have high := first.toNat_lt
  have low := second.toNat_lt
  have quotient : (256 * first.toNat + second.toNat) / 256 = first.toNat := by omega
  have remainder : (256 * first.toNat + second.toNat) % 256 = second.toNat := by omega
  rw [Word.swapBytes, toNat_word_bigEndian, quotient, remainder]
  rfl

/-- The other order makes the same words with their bytes swapped. -/
theorem word_other (order : ByteOrder) (first second : UInt8) :
    order.other.word first second = (order.word first second).swapBytes := by
  cases order with
  | bigEndian => exact (swapBytes_word_bigEndian first second).symm
  | littleEndian => exact (swapBytes_word_bigEndian second first).symm

end ByteOrder

namespace Image

variable {order : ByteOrder}

theorem ofWords_cons (first second : UInt8) (words : List Word) :
    ofWords order (order.word first second :: words) = first :: second :: ofWords order words := by
  rw [ofWords, List.flatMap_cons, ByteOrder.bytes_eq_iff.mpr rfl]
  rfl

theorem length_ofWords (words : List Word) : (ofWords order words).length = 2 * words.length := by
  induction words with
  | nil => rfl
  | cons word rest ih =>
      obtain ⟨first, second, rfl⟩ := order.exists_word_eq word
      rw [ofWords_cons, List.length_cons, List.length_cons, ih]
      rfl

theorem pairs_ofWords (words : List Word) : order.pairs (ofWords order words) = words := by
  induction words with
  | nil => rfl
  | cons word rest ih =>
      obtain ⟨first, second, rfl⟩ := order.exists_word_eq word
      rw [ofWords_cons, ByteOrder.pairs, ih]

theorem ofWords_pairs {image : List UInt8} (even : image.length % 2 = 0) :
    ofWords order (order.pairs image) = image := by
  fun_induction ByteOrder.pairs order image with
  | case1 first second rest ih =>
      have evenRest : rest.length % 2 = 0 := by
        simp only [List.length_cons] at even
        omega
      rw [ofWords_cons, ih evenRest]
  | case2 image short =>
      match image with
      | [] => rfl
      | [last] => cases even
      | first :: second :: rest => exact absurd rfl (short first second rest)

theorem toWords_eq_error_iff {image : List UInt8} {cause : DeviceError} :
    toWords order image = .error cause ↔ image.length % 2 = 1 ∧ cause = .oddImage := by
  unfold toWords
  split <;> rename_i even
  · refine iff_of_false nofun fun other => ?_
    omega
  · have odd : image.length % 2 = 1 := by omega
    simp only [Except.error.injEq, odd, true_and]
    exact eq_comm

/-- An image is read as some words exactly if they are written so. -/
theorem toWords_eq_ok_iff {image : List UInt8} {words : List Word} :
    toWords order image = .ok words ↔ ofWords order words = image := by
  unfold toWords
  constructor
  · intro read
    split at read
    · rename_i even
      rw [← Except.ok.inj read, ofWords_pairs even]
    · cases read
  · rintro rfl
    have even : (ofWords order words).length % 2 = 0 := by
      rw [length_ofWords]
      exact Nat.mul_mod_right 2 words.length
    rw [if_pos even, pairs_ofWords]

theorem toWords_of_even {image : List UInt8} (even : image.length % 2 = 0) :
    ∃ words, toWords order image = .ok words :=
  ⟨order.pairs image, toWords_eq_ok_iff.mpr (ofWords_pairs even)⟩

theorem ofWords_append (words more : List Word) :
    ofWords order (words ++ more) = ofWords order words ++ ofWords order more :=
  List.flatMap_append

theorem ofWords_other (words : List Word) :
    ofWords order.other (words.map Word.swapBytes) = ofWords order words := by
  induction words with
  | nil => rfl
  | cons word rest ih =>
      obtain ⟨first, second, rfl⟩ := order.exists_word_eq word
      rw [List.map_cons, ← ByteOrder.word_other, ofWords_cons, ofWords_cons, ih]

/-- The word at a place in a program is made of the pair of bytes at that place in its image. -/
theorem getElem?_of_ofWords {words : List Word} {i : Nat} {first second : UInt8}
    (atFirst : (ofWords order words)[2 * i]? = some first)
    (atSecond : (ofWords order words)[2 * i + 1]? = some second) :
    words[i]? = some (order.word first second) := by
  induction words generalizing i with
  | nil => cases atFirst
  | cons word rest ih =>
      obtain ⟨first, second, rfl⟩ := order.exists_word_eq word
      rw [ofWords_cons] at atFirst atSecond
      cases i with
      | zero =>
          cases atFirst
          cases atSecond
          rfl
      | succ i => exact ih atFirst atSecond

/-- What an image becomes in a machine that has just been switched on, alone or wired to any
    display. Images are read exactly if their length is even, and then as the words that are written
    so; a longer image goes on where a shorter one ends, and the other byte order swaps the bytes of
    every word. Loaded, each word is at its place in the memory. What would be behind the last place
    is lost, all other cells are zero, and the display is not called. -/
theorem read_and_loaded {δ : Type u} [Display δ] (display : δ) (videoWords : Nat)
    (order : ByteOrder) (image : List UInt8) :
    (∀ first second,
      (ByteOrder.bigEndian.word first second).toNat = 256 * first.toNat + second.toNat ∧
      (ByteOrder.littleEndian.word first second).toNat = 256 * second.toNat + first.toNat) ∧
    (∀ cause, toWords order image = .error cause ↔ image.length % 2 = 1 ∧ cause = .oddImage) ∧
    (∀ words, toWords order (ofWords order words) = .ok words) ∧
    (image.length % 2 = 0 → ∃ words,
      toWords order image = .ok words ∧
      words.length = image.length / 2 ∧
      ofWords order words = image ∧
      toWords order.other image = .ok (words.map Word.swapBytes) ∧
      (∀ more moreWords, toWords order more = .ok moreWords →
        toWords order (image ++ more) = .ok (words ++ moreWords)) ∧
      let machine := Wired.boot [] display videoWords
      let loaded := machine.loadProgram words
      (∀ (offset : Word) first second, image[2 * offset.toNat]? = some first →
        image[2 * offset.toNat + 1]? = some second →
        Memory.load loaded (.ram offset) = order.word first second) ∧
      (∀ offset : Word, image.length ≤ 2 * offset.toNat →
        Memory.load loaded (.ram offset) = 0) ∧
      (∀ address, (∀ offset, address ≠ .ram offset) → Memory.load loaded address = 0) ∧
      loaded.state = State.boot words ∧
      loaded.display = display ∧ machine.requestCalls (.loadProgram words) = []) := by
  refine ⟨?_, ?_, ?_, ?_⟩
  · intro first second
    exact ⟨ByteOrder.toNat_word_bigEndian first second,
      ByteOrder.toNat_word_littleEndian first second⟩
  · intro cause
    exact toWords_eq_error_iff
  · intro words
    exact toWords_eq_ok_iff.mpr rfl
  · intro even
    obtain ⟨words, read⟩ : ∃ words, toWords order image = .ok words := toWords_of_even even
    have written := toWords_eq_ok_iff.mp read
    have length : image.length = 2 * words.length := by
      rw [← written, length_ofWords]
    refine ⟨words, read, by omega, written, ?_, ?_, ?_⟩
    · exact toWords_eq_ok_iff.mpr ((ofWords_other words).trans written)
    · intro more moreWords readMore
      apply toWords_eq_ok_iff.mpr
      rw [ofWords_append, written, toWords_eq_ok_iff.mp readMore]
    · intro machine loaded
      have ram (offset : Word) :
          Memory.load loaded (.ram offset) = words[offset.toNat]?.getD 0 :=
        State.load_boot_ram words offset
      refine ⟨?_, ?_, ?_, rfl, rfl, rfl⟩
      · intro offset first second atFirst atSecond
        rw [← written] at atFirst atSecond
        rw [ram, getElem?_of_ofWords atFirst atSecond]
        rfl
      · intro offset behind
        rw [ram, List.getElem?_eq_none (by omega)]
        rfl
      · intro address other
        exact State.load_boot words other

/-- An image of one word more than the memory holds. -/
def tooLong : List UInt8 :=
  List.replicate 131072 0x55 ++ [0x12, 0x34]

theorem read_and_loaded_tooLong :
    tooLong.length % 2 = 0 ∧ ∃ words, toWords .bigEndian tooLong = .ok words ∧
      words.length = 65537 ∧
      Memory.load ((Wired.boot [] NoDisplay.mk 384).loadProgram words) (.ram 0) = 0x5555 ∧
      toWords .bigEndian [0x70, 0x01] = .ok [0x7001] ∧
      toWords .bigEndian (tooLong ++ [0x70, 0x01]) = .ok (words ++ [0x7001]) := by
  have length : tooLong.length = 131074 := by
    rw [tooLong, List.length_append, List.length_replicate]
    rfl
  have even : tooLong.length % 2 = 0 := by
    rw [length]
  have stands (i : Nat) (inside : i < 131072) : tooLong[i]? = some 0x55 := by
    rw [tooLong, List.getElem?_append_left (by rw [List.length_replicate]; exact inside)]
    rw [List.getElem?_replicate, if_pos inside]
  obtain ⟨-, -, -, reads⟩ := read_and_loaded NoDisplay.mk 384 .bigEndian tooLong
  obtain ⟨words, read, count, -, -, more, ram, -⟩ := reads even
  have shortRead : toWords .bigEndian [0x70, 0x01] = .ok [0x7001] := rfl
  have filled : ByteOrder.bigEndian.word 0x55 0x55 = 0x5555 := rfl
  refine ⟨even, words, read, ?_, ?_, shortRead, more _ _ shortRead⟩
  · rw [count, length]
  · rw [← filled]
    exact ram 0 0x55 0x55 (stands (2 * (0 : Word).toNat) (by decide))
      (stands (2 * (0 : Word).toNat + 1) (by decide))

end Image
end Dcpu
