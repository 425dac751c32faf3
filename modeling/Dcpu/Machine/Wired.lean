import Dcpu.Machine.Memory
import Dcpu.Screen.Display

/-! # Machines wired to a display

Every store that lands in the video window is passed on to a display, straight after the write and
in the order of the writes. Loading a program is no store and shows nothing.
-/

namespace Dcpu

universe u

structure Wired (δ : Type u) where
  state : State
  display : δ
  /-- How many words the video window has. It ends at the end of the memory in any case. -/
  videoWords : Nat

namespace Wired

variable {δ : Type u}

def boot (program : List Word) (display : δ) (videoWords : Nat) : Wired δ where
  state := State.boot program
  display := display
  videoWords := videoWords

/-- Copy a program into the memory, unseen by the display. -/
def loadProgram (machine : Wired δ) (program : List Word) : Wired δ :=
  { machine with state := machine.state.loadProgram program }

/-- The offset into the video window of a cell that is in it. -/
def videoOffset? (machine : Wired δ) : Address → Option Nat
  | .ram offset =>
      if Address.video ≤ offset ∧ (offset - Address.video).toNat < machine.videoWords then
        some (offset - Address.video).toNat
      else none
  | _ => none

variable [Display δ]

/-- Write a word, and tell the display if it is in the video window. -/
def store (machine : Wired δ) (address : Address) (value : Word) :
    Wired δ × Except DeviceError Unit :=
  let place := machine.videoOffset? address
  let { state, display, videoWords } := machine
  let state := state.store address value
  match place with
  | none => ({ state, display, videoWords }, .ok ())
  | some offset =>
      let (display, result) := Display.write display offset value
      ({ state, display, videoWords }, result)

def refresh (machine : Wired δ) : Wired δ × Except DeviceError Unit :=
  let { state, display, videoWords } := machine
  let (display, result) := Display.refresh display
  ({ state, display, videoWords }, result)

instance : Memory (Wired δ) DeviceError where
  load machine := machine.state.load
  store := store

theorem state_store (machine : Wired δ) (address : Address) (value : Word) :
    (machine.store address value).1.state = machine.state.store address value := by
  simp only [store]
  split <;> rfl

instance : LawfulMemory (Wired δ) where
  load_store machine a b value := by
    simp only [Memory.load, Memory.store, state_store, State.load_store]

end Wired
end Dcpu
