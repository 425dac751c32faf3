import Dcpu.Keyboard.Key
import Dcpu.Keyboard.KeyRing
import Dcpu.Machine.Wired
import Dcpu.Settings

/-! # The console

A console runs a machine frame by frame. In every frame it polls the keyboard, puts the keys into
the ring of the machine, runs the instructions of the frame and refreshes the display. It ends when
all instructions of the settings have run, when the user leaves, or with the first error.
-/

namespace Dcpu

universe u v

structure Console (δ : Type u) (κ : Type v) where
  machine : Wired δ
  keyboard : κ
  ring : KeyRing := {}
  /-- Instructions that ran so far. -/
  done : Nat := 0

namespace Console

variable {δ : Type u} {κ : Type v}

def boot (program : List Word) (display : δ) (keyboard : κ) (settings : Settings) : Console δ κ where
  machine := Wired.boot program display settings.videoWords
  keyboard := keyboard

variable [Display δ] [Keyboard κ]

/-- Put the keys of a poll into the ring, up to one that quits. The answer is whether there was
    such a key. A key for which the ring is full is lost. -/
def press (console : Console δ κ) : List Key → Console δ κ × Except Error Bool
  | [] => (console, .ok false)
  | .quit :: _ => (console, .ok true)
  | .code code :: rest =>
      let { machine, keyboard, ring, done } := console
      match ring.push machine code with
      | ((ring, machine), .ok _) => press { machine, keyboard, ring, done } rest
      | ((ring, machine), .error cause) =>
          ({ machine, keyboard, ring, done }, .error (.display cause))

def advance (console : Console δ κ) (slice : Nat) : Console δ κ × Except Error Unit :=
  let { machine, keyboard, ring, done } := console
  match Memory.run machine slice with
  | (machine, .error fault) => ({ machine, keyboard, ring, done }, .error (.ofFault fault))
  | (machine, .ok count) =>
      match machine.refresh with
      | (machine, .ok ()) => ({ machine, keyboard, ring, done := done + count }, .ok ())
      | (machine, .error cause) =>
          ({ machine, keyboard, ring, done := done + count }, .error (.display cause))

/-- One frame. The answer is whether the user quit. -/
def frame (settings : Settings) (console : Console δ κ) : Console δ κ × Except Error Bool :=
  let { machine, keyboard, ring, done } := console
  match Keyboard.poll keyboard with
  | (keyboard, .error cause) => ({ machine, keyboard, ring, done }, .error (.io cause))
  | (keyboard, .ok keys) =>
      match press { machine, keyboard, ring, done } keys with
      | (console, .ok false) =>
          let (console, result) :=
            console.advance (min settings.stepsPerFrame (settings.steps - console.done))
          (console, result.map fun () => false)
      | stopped => stopped

/-- Run up to so many frames, and say how many instructions ran. -/
def runFrames (settings : Settings) :
    Nat → Console δ κ → Console δ κ × Except Error Nat
  | 0, console => (console, .ok console.done)
  | count + 1, console =>
      match console.frame settings with
      | (console, .ok false) => runFrames settings count console
      | (console, .ok true) => (console, .ok console.done)
      | (console, .error e) => (console, .error e)

/-- Run a console to its end, and say how many instructions ran. -/
def run (settings : Settings) (console : Console δ κ) : Console δ κ × Except Error Nat :=
  console.runFrames settings settings.frames

end Console
end Dcpu
