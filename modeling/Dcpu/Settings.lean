/-! # Settings

The geometry of the text screen, the speed of the machine and how long it runs. A console polls its
keyboard and repaints its screen once a frame, sixty times a second.
-/

namespace Dcpu

/-- The settings of a machine and its console. -/
structure Settings where
  rows : Nat := 12
  columns : Nat := 32
  /-- Instructions per second. -/
  clockHz : Nat := 100000
  /-- How many instructions run before the machine stops. -/
  steps : Nat := 60000000
  deriving Repr, DecidableEq

namespace Settings

def framesPerSecond : Nat := 60

/-- How many words the screen takes in the memory. -/
def videoWords (settings : Settings) : Nat :=
  settings.rows * settings.columns

/-- Instructions that run between two repaints: at least one, however slow the clock is. -/
def stepsPerFrame (settings : Settings) : Nat :=
  max (settings.clockHz / framesPerSecond) 1

/-- Frames it takes to run all the instructions. The last one may be shorter than the others. -/
def frames (settings : Settings) : Nat :=
  (settings.steps + settings.stepsPerFrame - 1) / settings.stepsPerFrame

theorem stepsPerFrame_pos (settings : Settings) : 0 < settings.stepsPerFrame := by
  simp only [stepsPerFrame]
  omega

/-- There is a frame for every instruction, and none without one. -/
theorem lt_frames_iff (settings : Settings) (k : Nat) :
    k < settings.frames ↔ k * settings.stepsPerFrame < settings.steps := by
  have pos := settings.stepsPerFrame_pos
  rw [frames, ← Nat.succ_le_iff, Nat.le_div_iff_mul_le pos, Nat.succ_mul]
  omega

end Settings
end Dcpu
