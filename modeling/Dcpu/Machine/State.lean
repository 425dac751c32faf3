import Dcpu.Machine.Address
import Dcpu.Machine.Bank.Lemmas

/-! # The state of a machine

Eight registers, the program counter, the stack pointer, the overflow register and 65536 words of
memory. Storing into a cell changes that cell and no other.
-/

namespace Dcpu

/-- Everything a machine remembers. -/
structure State where
  registers : Vector Word 8
  pc : Word
  sp : Word
  overflow : Word
  ram : Bank 16
  deriving Repr, DecidableEq

namespace State

def ramWords : Nat := Bank.size 16

/-- A machine as it is switched on: every cell zero. -/
def blank : State where
  registers := Vector.replicate 8 0
  pc := 0
  sp := 0
  overflow := 0
  ram := Bank.zero 16

def load (s : State) : Address → Word
  | .pc => s.pc
  | .sp => s.sp
  | .overflow => s.overflow
  | .register ⟨index, _⟩ => s.registers[index]
  | .ram offset => s.ram.get offset.toNat

def store (s : State) (address : Address) (value : Word) : State :=
  match address with
  | .pc => { s with pc := value }
  | .sp => { s with sp := value }
  | .overflow => { s with overflow := value }
  | .register ⟨index, _⟩ => { s with registers := s.registers.set index value }
  | .ram offset => { s with ram := s.ram.set offset.toNat value }

/-- Copy a program into the memory from its first word on. Words past the end of the memory are
    dropped, and no register changes. -/
def loadProgram (s : State) (program : List Word) : State :=
  { s with ram := s.ram.write 0 (program.take ramWords) }

def boot (program : List Word) : State :=
  blank.loadProgram program

@[simp]
theorem load_blank (address : Address) : blank.load address = 0 := by
  cases address <;> simp [blank, load, Bank.get_zero]

/-- A store is seen at its own cell only. -/
theorem load_store (s : State) (a b : Address) (value : Word) :
    (s.store a value).load b = if b = a then value else s.load b := by
  cases a <;> cases b <;> simp only [store, load, reduceCtorEq, if_false, if_true]
  case register.register r q =>
    simp [Vector.getElem_set, Fin.ext_iff, eq_comm]
  case ram.ram i j =>
    rw [Bank.get_set _ (Bank.toNat_lt_size i) (Bank.toNat_lt_size j)]
    simp [UInt16.toNat_inj, eq_comm]

theorem load_loadProgram_ram (s : State) (program : List Word) (offset : Word) :
    (s.loadProgram program).load (.ram offset) =
      program[offset.toNat]?.getD (s.load (.ram offset)) := by
  have lt : offset.toNat < ramWords := Bank.toNat_lt_size offset
  simp only [loadProgram, load]
  rw [Bank.get_write _ _ (by simp only [List.length_take, ramWords]; omega) lt]
  simp [lt]

theorem load_loadProgram (s : State) (program : List Word) {address : Address}
    (h : ∀ offset, address ≠ .ram offset) : (s.loadProgram program).load address = s.load address := by
  cases address with
  | ram offset => exact absurd rfl (h offset)
  | _ => rfl

theorem load_boot_ram (program : List Word) (offset : Word) :
    (boot program).load (.ram offset) = program[offset.toNat]?.getD 0 := by
  rw [boot, load_loadProgram_ram, load_blank]

theorem load_boot (program : List Word) {address : Address}
    (h : ∀ offset, address ≠ .ram offset) : (boot program).load address = 0 := by
  rw [boot, load_loadProgram blank program h, load_blank]

/-- States that load the same from every cell are the same state. -/
theorem ext_load {s t : State} (h : ∀ address, s.load address = t.load address) : s = t := by
  obtain ⟨registers, pc, sp, overflow, ram⟩ := s
  obtain ⟨registers', pc', sp', overflow', ram'⟩ := t
  simp only [mk.injEq]
  refine ⟨?_, h .pc, h .sp, h .overflow, ?_⟩
  · ext i hi : 1
    exact h (.register ⟨i, hi⟩)
  · apply Bank.ext_get
    intro address
    have same := h (.ram (UInt16.ofNat address))
    simp only [load, UInt16.toNat_ofNat'] at same
    change ram.get (address % Bank.size 16) = ram'.get (address % Bank.size 16) at same
    rwa [Bank.get_mod, Bank.get_mod] at same

end State
end Dcpu
