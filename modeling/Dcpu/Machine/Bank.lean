import Dcpu.Word

/-! # Banks of words

A bank holds `2 ^ bits` words. It is split in two at every address bit, highest bit first, so a
store rebuilds one path and shares the rest with the bank it came from.
-/

namespace Dcpu

/-- A memory of `2 ^ bits` words. -/
inductive Bank : Nat → Type where
  /-- One word, which needs no address. -/
  | word (value : Word) : Bank 0
  /-- The words whose highest address bit is clear, and those where it is set. -/
  | halves {bits : Nat} (low high : Bank bits) : Bank (bits + 1)
  deriving Repr, DecidableEq

namespace Bank

variable {bits : Nat}

def size (bits : Nat) : Nat :=
  1 <<< bits

def zero : (bits : Nat) → Bank bits
  | 0 => .word 0
  | bits + 1 =>
      let half := zero bits
      .halves half half

/-- The word at an address. Only the low `bits` bits of the address matter. -/
def get : {bits : Nat} → Bank bits → Nat → Word
  | 0, .word value, _ => value
  | bits + 1, .halves low high, address =>
      if address.testBit bits then high.get address else low.get address

def set : {bits : Nat} → Bank bits → Nat → Word → Bank bits
  | 0, .word _, _, value => .word value
  | bits + 1, .halves low high, address, value =>
      if address.testBit bits then .halves low (high.set address value)
      else .halves (low.set address value) high

def write (bank : Bank bits) (address : Nat) : List Word → Bank bits
  | [] => bank
  | value :: rest => (bank.set address value).write (address + 1) rest

/-- The bank whose words a function gives; `above` holds the address bits already fixed. -/
def ofFnAbove (f : Nat → Word) : (bits above : Nat) → Bank bits
  | 0, above => .word (f above)
  | bits + 1, above => .halves (ofFnAbove f bits (2 * above)) (ofFnAbove f bits (2 * above + 1))

/-- The bank that holds `f address` at every address. -/
def ofFn (bits : Nat) (f : Nat → Word) : Bank bits :=
  ofFnAbove f bits 0

end Bank
end Dcpu
