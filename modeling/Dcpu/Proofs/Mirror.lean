import Dcpu.Proofs.Observation
import Dcpu.Screen.TextScreen
import Dcpu.Settings

/-! # The screen as a mirror

A text screen behind a video window of its own size refuses nothing, and shows every word of the
window that was stored. The words of a program are loaded, not stored: where the machine has not
stored anything since, the screen is still blank.
-/

namespace Dcpu

universe u

namespace Address

/-- The cell at an offset into the video memory. -/
def inVideo (offset : Nat) : Address :=
  .ram (video + UInt16.ofNat offset)

theorem toNat_inVideo {offset : Nat} (small : offset < 0x8000) :
    (video + UInt16.ofNat offset).toNat = 0x8000 + offset := by
  have start : video.toNat = 0x8000 := rfl
  rw [UInt16.toNat_add, UInt16.toNat_ofNat', start]
  omega

end Address

/-- A machine that was just switched on has the words of its program in the video memory, too. -/
theorem State.load_boot_inVideo (program : List Word) {offset : Nat} (small : offset < 0x8000) :
    (State.boot program).load (.inVideo offset) = program[0x8000 + offset]?.getD 0 := by
  rw [Address.inVideo, State.load_boot_ram, Address.toNat_inVideo small]

namespace Cell

/-- The fields of a cell, each shifted to where a video word has it. -/
def packed (cell : Cell) : Nat :=
  cell.character ||| cell.blink.toNat <<< 7 ||| cell.background.index <<< 8 |||
    cell.foreground.index <<< 12

/-- A field above all the bits below it adds to them. -/
theorem or_shiftLeft {below : Nat} (width field : Nat) (fits : below < 1 <<< width) :
    below ||| field <<< width = below + (1 <<< width) * field := by
  rw [Nat.one_shiftLeft] at fits ⊢
  rw [Nat.or_comm, ← Nat.shiftLeft_add_eq_or_of_lt fits, Nat.shiftLeft_eq, Nat.mul_comm,
    Nat.add_comm]

theorem packed_eq (cell : Cell) :
    cell.packed = cell.character + 128 * cell.blink.toNat + 256 * cell.background.index +
      4096 * cell.foreground.index := by
  have character : (cell.character : Nat) < 128 := cell.character.isLt
  have blink := cell.blink.toNat_lt
  have background := cell.background.index_lt
  have bits7 : (1 <<< 7 : Nat) = 128 := rfl
  have bits8 : (1 <<< 8 : Nat) = 256 := rfl
  have bits12 : (1 <<< 12 : Nat) = 4096 := rfl
  rw [packed, or_shiftLeft 7 cell.blink.toNat (by omega), bits7,
    or_shiftLeft 8 cell.background.index (by omega), bits8,
    or_shiftLeft 12 cell.foreground.index (by omega), bits12]

/-- No bit of a video word is lost on the screen. -/
theorem packed_ofWord (word : Word) : (ofWord word).packed = word.toNat := by
  have small : (ofWord word).packed < 65536 := by
    have character := (ofWord word).character.isLt
    have blink := (ofWord word).blink.toNat_lt
    have background := (ofWord word).background.index_lt
    have foreground := (ofWord word).foreground.index_lt
    rw [packed_eq]
    omega
  have word := congrArg UInt16.toNat (toWord_ofWord word)
  rw [toWord, ← packed_eq, UInt16.toNat_ofNat', Nat.mod_eq_of_lt small] at word
  exact word

end Cell

namespace TextScreen

theorem getElem?_put (screen : TextScreen) {offset : Nat} (inside : offset < screen.cells.size)
    (value : Word) (i : Nat) :
    (screen.put offset value).1.cells[i]? =
      if offset = i then some (Cell.ofWord value) else screen.cells[i]? := by
  simp only [put, inside, dif_pos, Array.getElem?_set]

@[simp]
theorem put_rows (screen : TextScreen) (offset : Nat) (value : Word) :
    (screen.put offset value).1.rows = screen.rows := by
  simp only [put]
  split <;> rfl

@[simp]
theorem put_columns (screen : TextScreen) (offset : Nat) (value : Word) :
    (screen.put offset value).1.columns = screen.columns := by
  simp only [put]
  split <;> rfl

/-- Counting through the grid row after row reaches all of its cells. -/
theorem cell?_div_mod (screen : TextScreen) {i : Nat} (inside : i < screen.rows * screen.columns) :
    screen.cell? (i / screen.columns) (i % screen.columns) = screen.cells[i]? := by
  have row : i / screen.columns < screen.rows := Nat.div_lt_of_lt_mul (Nat.mul_comm .. ▸ inside)
  have column : i % screen.columns < screen.columns := by
    apply Nat.mod_lt
    apply Nat.pos_of_ne_zero
    intro none
    rw [none] at inside
    exact Nat.not_lt_zero i inside
  simp only [cell?, row, column, and_self, if_true, Nat.div_add_mod']

/-- A screen takes every word of a video window of its own size. -/
theorem accepts (screen : TextScreen) :
    Display.Accepts (screen.rows * screen.columns) screen := by
  intro given
  induction given generalizing screen with
  | nil =>
      intro _ offset inside value
      rw [← screen.size_cells] at inside
      simp only [Display.after, List.foldl_nil, Display.write, put, inside, dif_pos]
  | cons call rest ih =>
      intro within
      have next := ih (screen.put call.1 call.2).1
      rw [put_rows, put_columns] at next
      exact next fun other member => within other (List.mem_cons_of_mem _ member)

end TextScreen

namespace Wired

theorem videoOffset?_eq_some_iff {δ : Type u} (machine : Wired δ) (address : Address) (i : Nat) :
    machine.videoOffset? address = some i ↔
      i < machine.videoWords ∧ i < 0x8000 ∧ address = .inVideo i := by
  cases address with
  | ram offset =>
      have lt := offset.toNat_lt
      rw [videoOffset?_ram]
      constructor
      · intro inside
        split at inside
        · rename_i window
          obtain rfl := Option.some.inj inside
          refine ⟨window.2, by omega, ?_⟩
          rw [Address.inVideo, Address.ram.injEq, ← UInt16.toNat_inj,
            Address.toNat_inVideo (by omega)]
          omega
        · cases inside
      · rintro ⟨within, small, same⟩
        rw [Address.inVideo, Address.ram.injEq] at same
        rw [same, Address.toNat_inVideo small, if_pos (by omega), Nat.add_sub_cancel_left]
  | _ => simp only [videoOffset?, Address.inVideo, reduceCtorEq, and_false]

theorem store_geometry (machine : Wired TextScreen) (address : Address) (value : Word) :
    (Memory.store machine address value).1.display.rows = machine.display.rows ∧
      (Memory.store machine address value).1.display.columns = machine.display.columns := by
  rw [store_display]
  split
  · exact ⟨rfl, rfl⟩
  · exact ⟨TextScreen.put_rows .., TextScreen.put_columns ..⟩

/-- A store changes the cell of its offset, if it has one. -/
theorem getElem?_store (machine : Wired TextScreen)
    (fits : machine.display.cells.size = machine.videoWords) (address : Address) (value : Word)
    (i : Nat) :
    (Memory.store machine address value).1.display.cells[i]? =
      if machine.videoOffset? address = some i then some (Cell.ofWord value)
      else machine.display.cells[i]? := by
  rw [store_display]
  cases place : machine.videoOffset? address with
  | none => simp only [reduceCtorEq, if_false]
  | some offset =>
      have inside := videoOffset?_lt place
      rw [← fits] at inside
      simp only [Option.some.injEq]
      exact TextScreen.getElem?_put _ inside value i

end Wired

/-- A screen shows the stores into the video memory, and is blank elsewhere. -/
structure Mirrors (settings : Settings) (journal : Journal (Wired TextScreen) DeviceError) :
    Prop where
  videoWords : journal.memory.videoWords = settings.videoWords
  rows : journal.memory.display.rows = settings.rows
  columns : journal.memory.display.columns = settings.columns
  shown {i : Nat} : i < settings.videoWords → i < 0x8000 → journal.Stored (.inVideo i) →
    journal.memory.display.cells[i]? = some (Cell.ofWord (Memory.load journal (.inVideo i)))
  untouched {i : Nat} : i < settings.videoWords → (i < 0x8000 → ¬ journal.Stored (.inVideo i)) →
    journal.memory.display.cells[i]? = some Cell.blank

namespace Mirrors

variable {settings : Settings} {journal : Journal (Wired TextScreen) DeviceError}

theorem size_cells (mirrors : Mirrors settings journal) :
    journal.memory.display.cells.size = settings.videoWords := by
  rw [journal.memory.display.size_cells, mirrors.rows, mirrors.columns, Settings.videoWords]

/-- Once a program is loaded, the screen is blank and nothing is stored. -/
theorem boot (settings : Settings) (program : List Word) :
    Mirrors settings
      (Wired.journaled <|
        .boot program (.blank settings.rows settings.columns) settings.videoWords) where
  videoWords := rfl
  rows := rfl
  columns := rfl
  shown _ _ := by
    rintro ⟨entry, member, -⟩
    exact absurd member List.not_mem_nil
  untouched inside _ := by
    simp only [Wired.journaled, Wired.boot, TextScreen.blank, Array.getElem?_replicate]
    exact if_pos inside

theorem cell?_div_mod (mirrors : Mirrors settings journal) {i : Nat}
    (inside : i < settings.videoWords) :
    journal.memory.display.cell? (i / settings.columns) (i % settings.columns) =
      journal.memory.display.cells[i]? := by
  have position := journal.memory.display.cell?_div_mod (i := i)
  rw [mirrors.rows, mirrors.columns] at position
  exact position inside

theorem getElem?_store (mirrors : Mirrors settings journal) (address : Address) (value : Word)
    (i : Nat) :
    (Memory.store journal address value).1.memory.display.cells[i]? =
      if journal.memory.videoOffset? address = some i then some (Cell.ofWord value)
      else journal.memory.display.cells[i]? :=
  journal.memory.getElem?_store (mirrors.size_cells.trans mirrors.videoWords.symm) address value i

end Mirrors

theorem stable_mirrors (settings : Settings) : Memory.Stable (Mirrors settings) := by
  intro journal address value mirrors
  have place (i : Nat) : journal.memory.videoOffset? address = some i ↔
      i < settings.videoWords ∧ i < 0x8000 ∧ address = .inVideo i := by
    rw [Wired.videoOffset?_eq_some_iff, mirrors.videoWords]
  have geometry := journal.memory.store_geometry address value
  constructor
  case videoWords => rw [Journal.memory_store, Wired.store_videoWords, mirrors.videoWords]
  case rows => exact geometry.1.trans mirrors.rows
  case columns => exact geometry.2.trans mirrors.columns
  case shown =>
      intro i inside small stored
      rw [mirrors.getElem?_store, LawfulMemory.load_store]
      by_cases here : address = .inVideo i
      · rw [if_pos ((place i).mpr ⟨inside, small, here⟩), if_pos here.symm]
      · rw [Journal.stored_store] at stored
        rw [if_neg fun placed => here ((place i).mp placed).2.2, if_neg (Ne.symm here)]
        exact mirrors.shown inside small (stored.resolve_right here)
  case untouched =>
      intro i inside unstored
      simp only [Journal.stored_store, not_or] at unstored
      rw [mirrors.getElem?_store, if_neg]
      · exact mirrors.untouched inside fun small => (unstored small).1
      · intro placed
        obtain ⟨-, small, here⟩ := (place i).mp placed
        exact (unstored small).2 here

namespace Wired

/-- A text screen of the size of the video window mirrors what a machine stores there after its
    program was loaded. It refuses no store, and loses no bit of the words that it shows. -/
theorem screen_mirrors (settings : Settings) (program : List Word) (actions : List Action)
    (unloaded : ∀ action ∈ actions, ¬ action.Loads) :
    let machine : Wired TextScreen :=
      .boot program (.blank settings.rows settings.columns) settings.videoWords
    let journal := Memory.actAll machine.journaled actions
    let after := Memory.actAll machine actions
    (∀ call ∈ (Memory.actAll machine.watched actions).display.calls, call.answer = .ok ()) ∧
    ∀ i < settings.videoWords,
      let shown := after.display.cell? (i / settings.columns) (i % settings.columns)
      let word := Memory.load after (.inVideo i)
      let loaded := program[0x8000 + i]?.getD 0
      (i < 0x8000 → journal.Stored (.inVideo i) ∨ loaded = 0 →
        shown = some (Cell.ofWord word) ∧ shown.map Cell.packed = some word.toNat) ∧
      (i < 0x8000 → ¬ (journal.Stored (.inVideo i) ∨ loaded = 0) →
        shown = some Cell.blank ∧ word = loaded) ∧
      (0x8000 ≤ i → shown = some Cell.blank) := by
  intro machine journal after
  have seen : after = journal.memory :=
    Journal.isMachineView_memory.actAll machine.journaled actions
  have mirrors : Mirrors settings journal :=
    (stable_mirrors settings).actAll (.boot settings program)
      fun action member loads => absurd loads (unloaded action member)
  have kept : ∀ address, ¬ journal.Stored address →
      Memory.load journal address = machine.state.load address :=
    (Journal.stable_kept machine.state.load).actAll (fun _ _ => rfl)
      fun action member loads => absurd loads (unloaded action member)
  have accepts := TextScreen.accepts (.blank settings.rows settings.columns)
  refine ⟨machine.calls_accepted accepts actions, ?_⟩
  intro i inside shown word loaded
  have cell : shown = journal.memory.display.cells[i]? := by
    rw [← mirrors.cell?_div_mod inside, ← seen]
  have read : word = Memory.load journal (.inVideo i) := by
    simp only [word, seen]
    rfl
  have keeps (small : i < 0x8000) (unstored : ¬ journal.Stored (.inVideo i)) : word = loaded := by
    rw [read, kept _ unstored]
    exact State.load_boot_inVideo program small
  rw [cell]
  refine ⟨fun small written => ?_, fun small unwritten => ?_, fun beyond => ?_⟩
  · have shows : journal.memory.display.cells[i]? = some (Cell.ofWord word) := by
      by_cases stored : journal.Stored (.inVideo i)
      · rw [mirrors.shown inside small stored, read]
      · have zero : word = 0 := (keeps small stored).trans (written.resolve_left stored)
        rw [mirrors.untouched inside fun _ => stored, zero, Cell.ofWord_zero]
    rw [shows, Option.map_some, Cell.packed_ofWord]
    exact ⟨rfl, rfl⟩
  · rw [not_or] at unwritten
    exact ⟨mirrors.untouched inside fun _ => unwritten.1, keeps small unwritten.1⟩
  · exact mirrors.untouched inside fun small => absurd small (Nat.not_lt_of_le beyond)

theorem screen_mirrors_stored :
    let machine : Wired TextScreen := .boot [0x85e1, 0x8001] (.blank 1 2) 2
    let actions := [.run 1, .push {} 65, .request (.store (.ram 0x8000) 0x1fc1)]
    (∀ action ∈ actions, ¬ action.Loads) ∧
      (Memory.actAll machine actions).display.cell? 0 0 = some (Cell.ofWord 0x1fc1) ∧
      (Memory.actAll machine actions).display.cell? 0 1 = some (Cell.ofWord 1) := by
  intro machine actions
  have unloaded : ∀ action ∈ actions, ¬ action.Loads := by
    simp [actions, Action.Loads]
  obtain ⟨-, shown⟩ :=
    screen_mirrors { rows := 1, columns := 2 } [0x85e1, 0x8001] actions unloaded
  have first := (shown 0 (by decide)).1 (by decide)
    (.inl ⟨_, List.mem_of_getElem? (i := 3) rfl, rfl⟩)
  have second := (shown 1 (by decide)).1 (by decide)
    (.inl ⟨_, List.mem_of_getElem? (i := 1) rfl, rfl⟩)
  exact ⟨unloaded, first.1, second.1⟩

end Wired
end Dcpu
