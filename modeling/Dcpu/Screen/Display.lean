import Dcpu.Error

/-! # Displays

A display is told about every word stored in the video window, in the order of the stores. What it
makes of them is its own affair, and it may refuse any of them.
-/

namespace Dcpu

universe u

class Display (δ : Type u) where
  /-- Take the word stored at an offset into the video window. -/
  write : δ → Nat → Word → δ × Except DeviceError Unit
  /-- Bring whatever has changed to the actual screen. -/
  refresh : δ → δ × Except DeviceError Unit := fun display => (display, .ok ())

structure NoDisplay where
  deriving Repr, DecidableEq

instance : Display NoDisplay where
  write display _ _ := (display, .ok ())

/-- A display that remembers every word it was given, with its offset. -/
structure Recorder where
  stores : Array (Nat × Word) := #[]
  deriving Repr, DecidableEq

instance : Display Recorder where
  write recorder offset value := ({ stores := recorder.stores.push (offset, value) }, .ok ())

end Dcpu
