import Dcpu.Machine.Memory

/-! # The keyboard ring

Sixteen words of the memory hold the keys a program has not read yet. Keys go into successive slots,
and the program empties a slot by storing zero there. A slot that is not empty when its turn comes
means the ring is full.
-/

namespace Dcpu

universe u v

/-- Where the next key goes. -/
structure KeyRing where
  next : Fin 16 := ⟨0, by decide⟩
  deriving Repr, DecidableEq

namespace KeyRing

def slot (ring : KeyRing) : Address :=
  .ram (Address.keyboard + UInt16.ofNat ring.next)

def advance (ring : KeyRing) : KeyRing where
  next := ring.next + 1

variable {σ : Type u} {ε : Type v} [Memory σ ε]

/-- Store a key in the next slot. The answer is whether the slot was empty; the key is dropped if
    it was not. The ring moves on only after a store that went well. -/
def push (ring : KeyRing) (m : σ) (key : Word) : (KeyRing × σ) × Except ε Bool :=
  if Memory.load m ring.slot = 0 then
    match Memory.store m ring.slot key with
    | (m, .ok ()) => ((ring.advance, m), .ok true)
    | (m, .error cause) => ((ring, m), .error cause)
  else ((ring, m), .ok false)

end KeyRing
end Dcpu
