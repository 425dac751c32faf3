import Dcpu.Machine.Bank

/-! # Differences between banks

What changed from one bank to another, told as runs of neighbouring words that changed to one
value.
-/

namespace Dcpu

/-- A word that changed: where it is, and what is there now. -/
structure Change where
  address : Nat
  value : Word
  deriving Repr, DecidableEq

structure Run where
  start : Nat
  value : Word
  count : Nat
  deriving Repr, DecidableEq

namespace Bank

/-- The changes below the address bits in `above`, put before the later ones. -/
def changesBefore (later : List Change) : {bits : Nat} → (old new : Bank bits) → (above : Nat) →
    List Change
  | 0, .word old, .word new, above =>
      if old = new then later else { address := above, value := new } :: later
  | _ + 1, .halves low high, .halves low' high', above =>
      changesBefore (changesBefore later high high' (2 * above + 1)) low low' (2 * above)

/-- The words that changed from one bank to another, by ascending address. -/
def changes {bits : Nat} (old new : Bank bits) : List Change :=
  changesBefore [] old new 0

end Bank

namespace Run

/-- Put a change in front of the runs that follow it. -/
def cons (change : Change) : List Run → List Run
  | [] => [{ start := change.address, value := change.value, count := 1 }]
  | run :: rest =>
      if change.address + 1 = run.start ∧ change.value = run.value then
        { start := change.address, value := run.value, count := run.count + 1 } :: rest
      else { start := change.address, value := change.value, count := 1 } :: run :: rest

/-- The longest runs of changes that ascend by address. -/
def ofChanges (changes : List Change) : List Run :=
  changes.foldr cons []

end Run
end Dcpu
