import Dcpu.Machine.State

/-! # Memories

A program runs on anything that can load and store words. The write of a store always happens;
what a memory does after it, such as telling a screen, may fail. The program never learns what is
behind its memory, so everything the processor does is stated for all of them at once.
-/

namespace Dcpu

universe u v w x

/-- Something a program can load from and store into. -/
class Memory (σ : Type u) (ε : outParam (Type v)) where
  load : σ → Address → Word
  /-- Write a word, and say whether what followed the write went well. -/
  store : σ → Address → Word → σ × Except ε Unit

/-- Stores are seen by later loads of the same cell, failed ones included, and by no others. -/
class LawfulMemory (σ : Type u) {ε : outParam (Type v)} [Memory σ ε] : Prop where
  load_store (m : σ) (a b : Address) (value : Word) :
    Memory.load (Memory.store m a value).1 b = if b = a then value else Memory.load m b

namespace Memory

variable {σ : Type u} {ε : Type v} [Memory σ ε]

/-- Everything in a memory, as plain values. -/
def snapshot (m : σ) : State where
  registers := Vector.ofFn fun r => load m (.register r)
  pc := load m .pc
  sp := load m .sp
  overflow := load m .overflow
  ram := Bank.ofFn 16 fun offset => load m (.ram (UInt16.ofNat offset))

@[simp]
theorem load_snapshot (m : σ) (address : Address) : (snapshot m).load address = load m address := by
  cases address with
  | ram offset => simp [snapshot, State.load, Bank.get_ofFn _ (Bank.toNat_lt_size offset)]
  | _ => simp [snapshot, State.load]

/-- Snapshots are equal exactly when the memories load the same from every cell. -/
theorem snapshot_eq_iff {τ : Type w} {ε' : Type x} [Memory τ ε'] {m : σ} {n : τ} :
    snapshot m = snapshot n ↔ ∀ address, load m address = load n address := by
  constructor
  · intro h address
    rw [← load_snapshot m, h, load_snapshot]
  · intro h
    exact State.ext_load (by simpa using h)

end Memory

/-- A private memory: nothing but the state, and nothing to go wrong. -/
instance : Memory State Empty where
  load := State.load
  store s address value := (s.store address value, .ok ())

instance : LawfulMemory State where
  load_store := State.load_store

/-- A private memory is its own snapshot. -/
@[simp]
theorem State.snapshot_eq (s : State) : Memory.snapshot s = s :=
  State.ext_load (by simp [Memory.load])

end Dcpu
