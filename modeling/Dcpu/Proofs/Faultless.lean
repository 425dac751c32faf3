import Dcpu.Proofs.Guards
import Dcpu.Proofs.Redrawing

/-! # Machines and displays that watch their numbers

The memory, the keyboard ring, the text screen and the displays watch their numbers, too. Nearly all
of them stay in their bounds, because addresses, counters and positions are kept below the sizes of
the tables. The exception is the box that a terminal display draws around its screen. Its sides are
counted in sixteen bits, in which not every side has room for two more cells.
-/

namespace Dcpu

/-- A display that looks where it puts words, and watches what it computes for a drawing. -/
class GuardedDisplay (δ : Type) where
  write : δ → Nat → Word → Checked (δ × Except DeviceError Unit)
  refresh : δ → Checked (δ × Except DeviceError Unit) := fun display => return (display, .ok ())

/-- Nothing comes up when a display is told about a word. A refresh may end at once, but it gives
    nothing else than without watching. -/
class FaithfulDisplay (δ : Type) [Display δ] [GuardedDisplay δ] : Prop where
  write (display : δ) (offset : Nat) (value : Word) :
    GuardedDisplay.write display offset value = pure (Display.write display offset value)
  refresh (display : δ) :
    Checked.Gives (GuardedDisplay.refresh display) (Display.refresh display)

namespace Guarded

open Checked

section Machines

/-- The cell of an address. Registers count round, and the memory has a cell for every offset. -/
def cell : Address → Checked Address
  | .register r => return .register (.ofIndex (← index 8 (← rem r 8)))
  | .ram offset => return .ram (UInt16.ofNat (← index State.ramWords offset.toNat))
  | address => return address

theorem cell_eq (address : Address) : cell address = pure address := by
  cases address with
  | register r =>
      have same : Register.ofIndex ((r : Nat) % 8) = r := by
        simp only [Register.ofIndex, Fin.ext_iff, Fin.val_ofNat]
        omega
      rw [cell, rem_of_pos (by decide), pure_bind, index_of_lt (Nat.mod_lt _ (by decide)), pure_bind,
        same]
  | ram offset =>
      have inside : offset.toNat < State.ramWords := Bank.toNat_lt_size offset
      rw [cell, index_of_lt inside, pure_bind, UInt16.ofNat_toNat]
  | _ => rfl

instance : GuardedMemory State Empty where
  load s address := return s.load (← cell address)
  store s address value := return (s.store (← cell address) value, .ok ())

instance : FaultlessMemory State where
  load s address := by simp only [GuardedMemory.load, cell_eq, pure_bind, Memory.load]
  store s address value := by simp only [GuardedMemory.store, cell_eq, pure_bind, Memory.store]

/-- Copy a program into the memory, as far as it goes. -/
def loadProgram (s : State) (program : List Word) : Checked State := do
  let length := min program.length State.ramWords
  let cells ← slice (List.range State.ramWords) 0 length
  let words ← slice program 0 length
  if cells.length = words.length then return { s with ram := s.ram.write 0 words }
  else throw .outOfRange

theorem loadProgram_eq (s : State) (program : List Word) :
    loadProgram s program = pure (s.loadProgram program) := by
  have cells : min program.length State.ramWords ≤ (List.range State.ramWords).length := by
    rw [List.length_range]
    exact Nat.min_le_right ..
  have words : min program.length State.ramWords ≤ program.length := Nat.min_le_left ..
  simp only [loadProgram, slice_of_le (Nat.zero_le _) cells, slice_of_le (Nat.zero_le _) words,
    pure_bind, List.drop_zero, Nat.sub_zero, List.length_take, Nat.min_eq_left cells,
    Nat.min_eq_left words, if_true, State.loadProgram]
  rw [Nat.min_comm, ← List.take_eq_take_min]

variable {δ : Type}

def videoOffset? (machine : Wired δ) : Address → Checked (Option Nat)
  | .ram offset =>
      if Address.video ≤ offset then do
        let place := (← subWord offset Address.video).toNat
        return if place < machine.videoWords then some place else none
      else return none
  | _ => return none

theorem videoOffset?_eq (machine : Wired δ) (address : Address) :
    videoOffset? machine address = pure (machine.videoOffset? address) := by
  cases address with
  | ram offset =>
      simp only [videoOffset?, Wired.videoOffset?]
      split <;> rename_i above
      · simp only [subWord_of_le above, pure_bind, above, true_and]
      · simp only [above, false_and, if_false]
  | _ => rfl

/-- A machine with a program in its memory and a video window for the screen. -/
def boot (program : List Word) (display : δ) (settings : Settings) : Checked (Wired δ) := do
  let videoWords ← mul 64 settings.rows settings.columns
  let state ← loadProgram State.blank program
  return { state, display, videoWords }

theorem boot_eq (program : List Word) (display : δ) {settings : Settings}
    (fits : settings.rows * settings.columns < 1 <<< 64) :
    boot program display settings = pure (Wired.boot program display settings.videoWords) := by
  rw [boot, mul_of_lt fits, pure_bind, loadProgram_eq]
  rfl

variable [GuardedDisplay δ]

instance : GuardedMemory (Wired δ) DeviceError where
  load machine address := return machine.state.load (← cell address)
  store machine address value := do
    let state := machine.state.store (← cell address) value
    match ← videoOffset? machine address with
    | none => return ({ machine with state }, .ok ())
    | some offset =>
        let (display, result) ← GuardedDisplay.write machine.display offset value
        return ({ machine with state, display }, result)

instance [Display δ] [FaithfulDisplay δ] : FaultlessMemory (Wired δ) where
  load machine address := by simp only [GuardedMemory.load, cell_eq, pure_bind, Memory.load]
  store machine address value := by
    simp only [GuardedMemory.store, cell_eq, videoOffset?_eq, FaithfulDisplay.write, pure_bind,
      Memory.store, Wired.store]
    split <;> simp only [*]

end Machines

section Ring

variable {σ ε : Type} [GuardedMemory σ ε]

/-- Push a key into the ring whose next slot has a number. -/
def push (next : Word) (m : σ) (key : Word) : Checked ((Word × σ) × Except ε Bool) := do
  let slot : Address := .ram (← addWord Address.keyboard next)
  if (← GuardedMemory.load m slot) ≠ 0 then return ((next, m), .ok false)
  else
    match ← GuardedMemory.store m slot key with
    | (m, .ok ()) =>
        let next ← rem (← addWord next 1).toNat 16
        return ((UInt16.ofNat next, m), .ok true)
    | (m, .error cause) => return ((next, m), .error cause)

/-- The number of the next slot of a ring. -/
def counter (ring : KeyRing) : Word :=
  UInt16.ofNat ring.next

theorem toNat_counter (ring : KeyRing) : (counter ring).toNat = ring.next :=
  UInt16.toNat_ofNat_of_lt' (Nat.lt_trans ring.next.isLt (by decide))

variable [Memory σ ε] [FaultlessMemory σ]

theorem push_eq (ring : KeyRing) (m : σ) (key : Word) :
    push (counter ring) m key =
      let pushed := ring.push m key
      pure ((counter pushed.1.1, pushed.1.2), pushed.2) := by
  have small := ring.next.isLt
  have slotFits : Address.keyboard.toNat + (counter ring).toNat < 65536 := by
    rw [toNat_counter, show Address.keyboard.toNat = 0x9000 from rfl]
    omega
  have nextFits : (counter ring).toNat + (1 : Word).toNat < 65536 := by
    rw [toNat_counter, show (1 : Word).toNat = 1 from rfl]
    omega
  have next : UInt16.ofNat ((counter ring + 1).toNat % 16) = counter ring.advance := by
    rw [UInt16.toNat_add, Nat.mod_eq_of_lt nextFits, toNat_counter]
    rfl
  have slot : Address.ram (Address.keyboard + counter ring) = ring.slot := rfl
  simp only [push, KeyRing.push, addWord_of_lt slotFits, addWord_of_lt nextFits, slot,
    rem_of_pos (show 0 < 16 by decide), FaultlessMemory.load, FaultlessMemory.store, pure_bind, next]
  by_cases empty : Memory.load m ring.slot = 0
  · simp only [empty, ne_eq, not_true_eq_false, if_false, if_true]
    split <;> rename_i stored <;> simp only [stored]
  · simp only [empty, ne_eq, not_false_eq_true, if_true, if_false]

/-- The numbers that a new ring comes to by pushing keys. -/
inductive Reached : Word → Prop
  | new : Reached 0
  | push {σ ε : Type} [Memory σ ε] [GuardedMemory σ ε] [FaultlessMemory σ] {next later : Word}
      {m after : σ} {key : Word} {answer : Except ε Bool} (reached : Reached next)
      (pushed : Guarded.push next m key = .ok ((later, after), answer)) : Reached later

theorem Reached.exists_ring {next : Word} (reached : Reached next) :
    ∃ ring, next = counter ring := by
  induction reached with
  | new => exact ⟨{}, rfl⟩
  | push reached pushed ih =>
      obtain ⟨ring, rfl⟩ := ih
      rw [push_eq] at pushed
      exact ⟨_, congrArg (fun answer => answer.1.1) (Except.ok.inj pushed).symm⟩

end Ring

/-- The processor and the ring get on with a memory as they do without watching. -/
structure Serves {σ ε : Type} [Memory σ ε] [GuardedMemory σ ε] (m : σ) : Prop where
  fetch (pc : Word) : Guarded.fetch m pc = .ok ((Memory.fetch m pc).map Decoded.ofInstruction)
  step : Guarded.step m = .ok (Memory.step m)
  run (budget : Nat) : Guarded.run m budget = .ok (Memory.run m budget)
  push (ring : KeyRing) (key : Word) :
    Guarded.push (counter ring) m key =
      let pushed := ring.push m key
      .ok ((counter pushed.1.1, pushed.1.2), pushed.2)

theorem serves {σ ε : Type} [Memory σ ε] [GuardedMemory σ ε] [FaultlessMemory σ] (m : σ) :
    Serves m where
  fetch := fetch_eq m
  step := step_eq m
  run := run_eq m
  push ring := push_eq ring m

section Screen

/-- The cell of a video word. -/
def cellOf (word : Word) : Checked Cell := do
  let background ← shrWord word 8
  let foreground ← shrWord word 12
  return { Cell.ofWord word with
    background := .ofIndex (background &&& 0xf).toNat
    foreground := .ofIndex (foreground &&& 0xf).toNat }

theorem ofIndex_field (word : Word) {count : Nat} (small : count < 16) :
    Color.ofIndex (word >>> UInt16.ofNat count &&& 0xf).toNat =
      Color.ofIndex (word.toNat >>> count) := by
  have field : (word >>> UInt16.ofNat count &&& 0xf).toNat = word.toNat >>> count % 16 := by
    rw [UInt16.toNat_and, UInt16.toNat_shiftRight,
      UInt16.toNat_ofNat_of_lt' (Nat.lt_trans small (by decide)), Nat.mod_eq_of_lt small]
    exact Nat.and_two_pow_sub_one_eq_mod _ 4
  simp only [field, Color.ofIndex, Nat.mod_mod]

theorem cellOf_eq (word : Word) : cellOf word = pure (Cell.ofWord word) := by
  rw [cellOf, shrWord_of_lt word (by decide), shrWord_of_lt word (by decide), pure_bind, pure_bind,
    ofIndex_field word (by decide), ofIndex_field word (by decide)]
  rfl

def blank (rows columns : Nat) : Checked TextScreen := do
  let _ ← mul 64 rows columns
  return .blank rows columns

variable (screen : TextScreen)

def put (offset : Nat) (value : Word) : Checked (TextScreen × Except DeviceError Unit) := do
  if inside : offset < screen.cells.size then
    let cell ← cellOf value
    let screen := { screen with
      cells := screen.cells.set offset cell inside
      size_cells := by rw [Array.size_set, screen.size_cells] }
    return (screen, .ok ())
  else return (screen, .error (.offScreen offset screen.columns screen.rows))

def cell? (row column : Nat) : Checked (Option Cell) := do
  if screen.rows ≤ row ∨ screen.columns ≤ column then return none
  else return screen.cells[← add 64 (← mul 64 row screen.columns) column]?

def line? (row : Nat) : Checked (Option String) := do
  if screen.rows ≤ row then return none
  else
    let start ← mul 64 row screen.columns
    let stop ← add 64 start screen.columns
    match slice screen.cells.toList start stop with
    | .ok cells => return some (String.ofList (cells.map Cell.printable))
    | .error _ => return none

def glyphsOfRow (row : Nat) : Checked (List Glyph) := do
  let start ← mul 64 row screen.columns
  let stop ← mul 64 (← add 64 row 1) screen.columns
  let cells ← slice screen.cells.toList start stop
  return cells.map Cell.glyph

def glyphs : Checked (List (List Glyph)) :=
  (List.range screen.rows).mapM (glyphsOfRow screen)

variable {screen}

theorem put_eq (offset : Nat) (value : Word) :
    put screen offset value = pure (screen.put offset value) := by
  simp only [put, TextScreen.put, cellOf_eq, pure_bind]
  split <;> rfl

section Rows

variable {row : Nat} (inside : row < screen.rows)
include inside

/-- The places where a row starts and ends. -/
theorem row_bounds (fits : screen.rows * screen.columns < 1 <<< 64) :
    row * screen.columns < 1 <<< 64 ∧ (row + 1) * screen.columns < 1 <<< 64 := by
  have ends : (row + 1) * screen.columns ≤ screen.rows * screen.columns :=
    Nat.mul_le_mul_right _ inside
  have starts : row * screen.columns ≤ (row + 1) * screen.columns :=
    Nat.mul_le_mul_right _ (Nat.le_succ row)
  exact ⟨Nat.lt_of_le_of_lt (Nat.le_trans starts ends) fits, Nat.lt_of_le_of_lt ends fits⟩

theorem slice_row : slice screen.cells.toList (row * screen.columns) ((row + 1) * screen.columns) =
    pure (screen.cellsOfRow row) := by
  rw [slice_of_le (Nat.mul_le_mul_right _ (Nat.le_succ row)) (screen.row_end_le inside),
    TextScreen.cellsOfRow, Array.toList_extract]

theorem glyphsOfRow_eq (fits : screen.rows * screen.columns < 1 <<< 64)
    (rows : screen.rows < 1 <<< 64) :
    glyphsOfRow screen row = pure ((screen.cellsOfRow row).map Cell.glyph) := by
  obtain ⟨starts, ends⟩ := row_bounds inside fits
  rw [glyphsOfRow, mul_of_lt starts, pure_bind, add_of_lt (Nat.lt_of_le_of_lt inside rows),
    pure_bind, mul_of_lt ends, pure_bind, slice_row inside, pure_bind]

end Rows

variable (fits : screen.rows * screen.columns < 1 <<< 64)
include fits

theorem cell?_eq (row column : Nat) : cell? screen row column = pure (screen.cell? row column) := by
  by_cases shown : row < screen.rows ∧ column < screen.columns
  · have place := Nat.lt_trans (TextScreen.offset_lt shown.1 shown.2) fits
    have start := Nat.lt_of_le_of_lt (Nat.le_add_right ..) place
    rw [cell?, if_neg (by omega), mul_of_lt start, pure_bind, add_of_lt place, pure_bind,
      TextScreen.cell?, if_pos shown]
  · rw [cell?, if_pos (by omega), TextScreen.cell?, if_neg shown]

theorem line?_eq (row : Nat) : line? screen row = pure (screen.line? row) := by
  by_cases inside : row < screen.rows
  · obtain ⟨starts, ends⟩ := row_bounds inside fits
    have cut := slice_row inside
    rw [Nat.succ_mul] at ends cut
    rw [line?, if_neg (Nat.not_le_of_lt inside), mul_of_lt starts, pure_bind, add_of_lt ends,
      pure_bind, cut, TextScreen.line?, if_pos inside]
    rfl
  · rw [line?, if_pos (Nat.le_of_not_lt inside), TextScreen.line?, if_neg inside]

theorem glyphs_eq (rows : screen.rows < 1 <<< 64) : glyphs screen = pure screen.glyphs :=
  mapM_of_forall fun _ member => glyphsOfRow_eq (List.mem_range.mp member) fits rows

omit fits

/-- However many rows and columns a screen has, nothing else can be read off it. -/
theorem gives_glyphs : Gives (glyphs screen) screen.glyphs := by
  refine .mapM fun row member => ?_
  have start : Gives (mul 64 row screen.columns) (row * screen.columns) := gives_ite _ _
  have next : Gives (add 64 row 1) (row + 1) := gives_ite _ _
  have stop : Gives (mul 64 (row + 1) screen.columns) ((row + 1) * screen.columns) := gives_ite _ _
  have cells := Gives.of_eq (slice_row (List.mem_range.mp member))
  exact start.bind (next.bind (stop.bind (cells.bind (.of_eq rfl))))

end Screen

/-- A screen shows what it shows without watching. -/
structure Shows (screen : TextScreen) : Prop where
  put (offset : Nat) (value : Word) :
    Guarded.put screen offset value = .ok (screen.put offset value)
  cell? (row column : Nat) : Guarded.cell? screen row column = .ok (screen.cell? row column)
  line? (row : Nat) : Guarded.line? screen row = .ok (screen.line? row)
  glyphs : Guarded.glyphs screen = .ok screen.glyphs

theorem shows {screen : TextScreen} (fits : screen.rows * screen.columns < 1 <<< 64)
    (rows : screen.rows < 1 <<< 64) : Shows screen where
  put := put_eq
  cell? := cell?_eq fits
  line? := line?_eq fits
  glyphs := glyphs_eq fits rows

section Displays

instance : GuardedDisplay NoDisplay where
  write display _ _ := return (display, .ok ())

instance : FaithfulDisplay NoDisplay where
  write _ _ _ := rfl
  refresh _ := .of_eq rfl

instance : GuardedDisplay Recorder where
  write recorder offset value :=
    return ({ recorder with stores := recorder.stores.push (offset, value) }, .ok ())

instance : FaithfulDisplay Recorder where
  write _ _ _ := rfl
  refresh _ := .of_eq rfl

instance : GuardedDisplay TextScreen where
  write := put

instance : FaithfulDisplay TextScreen where
  write _ := put_eq
  refresh _ := .of_eq rfl

/-- The width and the height of the box around a screen. -/
def boxSize (screen : TextScreen) : Checked (Word × Word) :=
  return (← addWord 2 (UInt16.ofNat screen.columns), ← addWord 2 (UInt16.ofNat screen.rows))

/-- Paint a screen in its box, once the box has a size. -/
def paint (screen : TextScreen) : Checked Picture := do
  let _ ← boxSize screen
  let rows ← glyphs screen
  return .box "DCPU-16" screen.columns (rows.map fun row => row.map Glyph.tile)

/-- Neither side of the box leaves the sixteen bits in which it is counted. Longer sides of a screen
    are cut off to as many bits. -/
def BoxFits (rows columns : Nat) : Prop :=
  columns % 65536 < 65534 ∧ rows % 65536 < 65534

theorem boxSize_cases (screen : TextScreen) :
    (BoxFits screen.rows screen.columns ∧ ∃ size, boxSize screen = pure size) ∨
      ¬ BoxFits screen.rows screen.columns ∧ boxSize screen = throw .overflow := by
  have side (length : Nat) :
      (2 : Word).toNat + (UInt16.ofNat length).toNat < 65536 ↔ length % 65536 < 65534 := by
    rw [UInt16.toNat_ofNat', show (2 : Word).toNat = 2 from rfl]
    omega
  rw [BoxFits, ← side, ← side, boxSize]
  by_cases width : (2 : Word).toNat + (UInt16.ofNat screen.columns).toNat < 65536
  · rw [addWord_of_lt width, pure_bind]
    by_cases height : (2 : Word).toNat + (UInt16.ofNat screen.rows).toNat < 65536
    · rw [addWord_of_lt height, pure_bind]
      exact .inl ⟨⟨width, height⟩, _, rfl⟩
    · rw [addWord_of_not_lt height]
      exact .inr ⟨fun fits => height fits.2, rfl⟩
  · rw [addWord_of_not_lt width]
    exact .inr ⟨fun fits => width fits.1, rfl⟩

theorem gives_paint (screen : TextScreen) : Gives (paint screen) (.ofScreen screen) := by
  rw [paint]
  rcases boxSize_cases screen with ⟨-, size, fits⟩ | ⟨-, panics⟩
  · rw [fits, pure_bind]
    exact gives_glyphs.bind (.of_eq rfl)
  · rw [panics]
    exact nofun

theorem paint_eq_error_iff {screen : TextScreen} (fits : screen.rows * screen.columns < 1 <<< 64)
    (rows : screen.rows < 1 <<< 64) (panic : Panic) :
    paint screen = .error panic ↔ ¬ BoxFits screen.rows screen.columns ∧ panic = .overflow := by
  rw [paint]
  rcases boxSize_cases screen with ⟨small, size, given⟩ | ⟨wide, panics⟩
  · rw [given, pure_bind, glyphs_eq fits rows, pure_bind]
    exact iff_of_false nofun fun breaks => breaks.1 small
  · rw [panics]
    exact ⟨fun same => ⟨wide, (Except.error.inj same).symm⟩, fun breaks => congrArg _ breaks.2.symm⟩

/-- A terminal that asks for a picture once it is ready for it. It may fail before it asks, whatever
    the picture would have been. -/
class AskingTerminal (τ : Type) [Terminal τ] where
  asks : τ → Bool
  draw_of_unasked {terminal : τ} (unasked : asks terminal = false) (picture other : Picture) :
    Terminal.draw terminal picture = Terminal.draw terminal other

instance : AskingTerminal Canvas where
  asks _ := true
  draw_of_unasked := nofun

variable {τ : Type} [Terminal τ] [AskingTerminal τ]

/-- What comes of drawing a picture. -/
def drawn (display : TerminalDisplay τ) (picture : Picture) :
    TerminalDisplay τ × Except DeviceError Unit :=
  match Terminal.draw display.terminal picture with
  | (terminal, .ok ()) => ({ display with terminal, dirty := false }, .ok ())
  | (terminal, .error cause) => ({ display with terminal }, .error cause)

instance : GuardedDisplay (TerminalDisplay τ) where
  write display offset value := do
    match ← put display.screen offset value with
    | (screen, .ok ()) => return ({ display with screen, dirty := true }, .ok ())
    | (screen, .error cause) => return ({ display with screen }, .error cause)
  refresh display := do
    if display.dirty then
      if AskingTerminal.asks display.terminal then
        return drawn display (← paint display.screen)
      else return drawn display []
    else return (display, .ok ())

omit [AskingTerminal τ] in
theorem drawn_ofScreen {display : TerminalDisplay τ} (dirty : display.dirty = true) :
    drawn display (.ofScreen display.screen) = Display.refresh display := by
  change _ = display.refresh
  rw [TerminalDisplay.refresh, if_pos dirty]
  rfl

/-- A refresh paints the screen if a drawing is due and the terminal asks for it. -/
theorem refresh_eq (display : TerminalDisplay τ) :
    GuardedDisplay.refresh display =
      if display.dirty ∧ AskingTerminal.asks display.terminal then do
        return drawn display (← paint display.screen)
      else return Display.refresh display := by
  simp only [GuardedDisplay.refresh]
  cases dirty : display.dirty with
  | false =>
      rw [display.refresh_of_clean dirty]
      rfl
  | true =>
      cases asks : AskingTerminal.asks display.terminal with
      | true => rfl
      | false =>
          have same : drawn display [] = drawn display (.ofScreen display.screen) := by
            rw [drawn, drawn, AskingTerminal.draw_of_unasked asks]
          rw [← drawn_ofScreen dirty, ← same]
          rfl

instance : FaithfulDisplay (TerminalDisplay τ) where
  write display offset value := by
    simp only [GuardedDisplay.write, put_eq, pure_bind, Display.write, TerminalDisplay.put]
    rcases display.screen.put offset value with ⟨screen, _ | _⟩ <;> rfl
  refresh display := by
    rw [refresh_eq]
    split
    · rename_i due
      rw [← drawn_ofScreen due.1]
      exact (gives_paint display.screen).bind (.of_eq rfl)
    · exact .of_eq rfl

/-- A terminal display breaks down where it is asked for a box that does not fit. -/
theorem refresh_eq_error_iff {display : TerminalDisplay τ}
    (fits : display.screen.rows * display.screen.columns < 1 <<< 64)
    (rows : display.screen.rows < 1 <<< 64) (panic : Panic) :
    GuardedDisplay.refresh display = .error panic ↔
      display.dirty = true ∧ AskingTerminal.asks display.terminal = true ∧
        ¬ BoxFits display.screen.rows display.screen.columns ∧ panic = .overflow := by
  rw [refresh_eq, ← paint_eq_error_iff fits rows]
  split <;> rename_i due
  · rw [bind_pure_eq_error_iff]
    exact ⟨fun breaks => ⟨due.1, due.2, breaks⟩, fun breaks => breaks.2.2⟩
  · exact iff_of_false nofun fun breaks => due ⟨breaks.1, breaks.2.1⟩

end Displays

end Guarded
end Dcpu
