import Dcpu.Word

/-! # Addresses

An address names one cell of the machine. There is no invalid address: an index outside the eight
registers wraps onto them, and an offset into the memory has sixteen bits.
-/

namespace Dcpu

/-- One of the general registers A, B, C, X, Y, Z, I, J. -/
abbrev Register := Fin 8

/-- The register an index names, counting round the eight of them. -/
def Register.ofIndex (index : Nat) : Register :=
  Fin.ofNat 8 index

/-- A cell of the machine. -/
inductive Address where
  | pc
  | sp
  /-- The overflow register O, which some arithmetic sets. -/
  | overflow
  | register (register : Register)
  | ram (offset : Word)
  deriving Repr, DecidableEq

namespace Address

def video : Word := 0x8000

def keyboard : Word := 0x9000

end Address
end Dcpu
