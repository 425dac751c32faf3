import Dcpu.Proofs.Mirror

/-! # The text screen as a grid

A screen keeps its cells one behind the other, and cuts them up in three ways: into single cells, into
the texts of rows, and into rows of characters with their styles. All three show the same grid, also
where it has no rows or no columns. Every offset of the grid has one place in it, which shows the word
that was accepted there last.
-/

namespace Dcpu

namespace Cell

/-- Control characters never reach the screen. -/
theorem printable_bounds (cell : Cell) :
    0x20 ≤ cell.printable.toNat ∧ cell.printable.toNat ≤ 0x7e := by
  have bounds : ∀ character : Fin 128,
      let shown := if 0x20 ≤ character ∧ character ≤ 0x7e then Char.ofNat character else ' '
      0x20 ≤ shown.toNat ∧ shown.toNat ≤ 0x7e := by
    decide
  exact bounds cell.character

end Cell

namespace TextScreen

/-- Of the words that a screen is given one after the other, those that it accepts. -/
def accepted (screen : TextScreen) : List (Nat × Word) → List (Nat × Word)
  | [] => []
  | call :: rest =>
      match screen.put call.1 call.2 with
      | (screen, .ok ()) => call :: screen.accepted rest
      | (screen, .error _) => screen.accepted rest

section Put

variable (screen : TextScreen) (offset : Nat) (value : Word)

theorem put_answer :
    (screen.put offset value).2 = if offset < screen.rows * screen.columns then .ok ()
      else .error (.offScreen offset screen.columns screen.rows) := by
  rw [← screen.size_cells, put]
  split <;> rfl

theorem put_eq_ok_iff :
    (screen.put offset value).2 = .ok () ↔ offset < screen.rows * screen.columns := by
  rw [put_answer]
  split <;> simp only [*, reduceCtorEq]

/-- A word that is refused changes nothing. -/
theorem put_of_refused (refused : ¬ offset < screen.rows * screen.columns) :
    screen.put offset value = (screen, .error (.offScreen offset screen.columns screen.rows)) := by
  rw [← screen.size_cells] at refused
  simp only [put, refused, dif_neg, not_false_eq_true]

theorem accepted_cons (call : Nat × Word) (rest : List (Nat × Word)) :
    screen.accepted (call :: rest) =
      if call.1 < screen.rows * screen.columns then
        call :: (screen.put call.1 call.2).1.accepted rest
      else screen.accepted rest := by
  split <;> rename_i inside
  · have fine := (screen.put_eq_ok_iff call.1 call.2).mpr inside
    rw [accepted, show screen.put call.1 call.2 = (_, .ok ()) from Prod.ext rfl fine]
  · rw [accepted, screen.put_of_refused call.1 call.2 inside]

end Put

section After

variable (screen : TextScreen) (calls : List (Nat × Word))

theorem after_geometry :
    (Display.after screen calls).rows = screen.rows ∧
      (Display.after screen calls).columns = screen.columns := by
  induction calls generalizing screen with
  | nil => exact ⟨rfl, rfl⟩
  | cons call rest ih =>
      obtain ⟨rows, columns⟩ := ih (screen.put call.1 call.2).1
      exact ⟨rows.trans (screen.put_rows ..), columns.trans (screen.put_columns ..)⟩

theorem lookup_singleton (call : Nat × Word) (offset : Nat) :
    [call].lookup offset = if call.1 = offset then some call.2 else none := by
  obtain ⟨other, value⟩ := call
  by_cases here : other = offset
  · rw [here, List.lookup_cons_self, if_pos rfl]
  · rw [if_neg here, List.lookup_eq_none_iff]
    intro pair member
    rw [List.mem_singleton.mp member]
    exact bne_iff_ne.mpr (Ne.symm here)

/-- The cell at an offset is that of the last word accepted for it. -/
theorem getElem?_after {offset : Nat} (inside : offset < screen.rows * screen.columns) :
    (Display.after screen calls).cells[offset]? =
      (((screen.accepted calls).reverse.lookup offset).map Cell.ofWord).or
        screen.cells[offset]? := by
  induction calls generalizing screen with
  | nil => rfl
  | cons call rest ih =>
      have next := ih (screen.put call.1 call.2).1
      rw [put_rows, put_columns] at next
      rw [accepted_cons]
      change (Display.after (screen.put call.1 call.2).1 rest).cells[offset]? = _
      rw [next inside]
      split <;> rename_i accepts
      · rw [← screen.size_cells] at accepts
        rw [List.reverse_cons, List.lookup_append, screen.getElem?_put accepts, Option.map_or,
          Option.or_assoc]
        congr 1
        rw [lookup_singleton]
        split <;> rfl
      · rw [screen.put_of_refused call.1 call.2 accepts]

end After

section Rows

variable (screen : TextScreen)

theorem row_end_le {row : Nat} (inside : row < screen.rows) :
    (row + 1) * screen.columns ≤ screen.cells.size := by
  rw [screen.size_cells]
  exact Nat.mul_le_mul_right _ inside

theorem length_cellsOfRow {row : Nat} (inside : row < screen.rows) :
    (screen.cellsOfRow row).length = screen.columns := by
  rw [cellsOfRow, Array.length_toList, Array.size_extract, Nat.min_eq_left (screen.row_end_le inside),
    Nat.succ_mul, Nat.add_sub_cancel_left]

theorem getElem?_cellsOfRow {row : Nat} (inside : row < screen.rows) (column : Nat) :
    (screen.cellsOfRow row)[column]? = screen.cell? row column := by
  have reach := screen.row_end_le inside
  have width : (row + 1) * screen.columns - row * screen.columns = screen.columns := by
    rw [Nat.succ_mul, Nat.add_sub_cancel_left]
  simp only [cellsOfRow, cell?, Array.getElem?_toList, Array.getElem?_extract, Nat.min_eq_left reach,
    width, inside, true_and]

/-- A row is written out character by character. -/
theorem line?_spec (row : Nat) :
    (screen.line? row = none ↔ screen.rows ≤ row) ∧
      ∀ text, screen.line? row = some text →
        text.length = screen.columns ∧
          ∀ column, text.toList[column]? = (screen.cell? row column).map Cell.printable := by
  by_cases inside : row < screen.rows
  · simp only [line?, inside, if_true, reduceCtorEq, false_iff, Nat.not_le, Option.some.injEq,
      true_and]
    rintro text rfl
    refine ⟨?_, fun column => ?_⟩
    · rw [String.length_ofList, List.length_map, screen.length_cellsOfRow inside]
    · rw [String.toList_ofList, List.getElem?_map, screen.getElem?_cellsOfRow inside]
  · simp only [line?, inside, if_false, true_iff, reduceCtorEq, false_implies, implies_true, and_true]
    exact Nat.le_of_not_lt inside

theorem glyphs_spec :
    screen.glyphs.length = screen.rows ∧
      ∀ (row : Nat) (glyphs : List Glyph), screen.glyphs[row]? = some glyphs →
        glyphs.length = screen.columns ∧
          ∀ column, glyphs[column]? = (screen.cell? row column).map Cell.glyph := by
  refine ⟨by simp only [glyphs, List.length_map, List.length_range], ?_⟩
  intro row shown found
  rw [glyphs, List.getElem?_map, Option.map_eq_some_iff] at found
  obtain ⟨number, here, rfl⟩ := found
  obtain ⟨bounded, same⟩ := List.getElem?_eq_some_iff.mp here
  obtain rfl : row = number := by rw [← same, List.getElem_range]
  have inside : row < screen.rows := by rwa [List.length_range] at bounded
  refine ⟨?_, fun column => ?_⟩
  · rw [List.length_map, screen.length_cellsOfRow inside]
  · rw [List.getElem?_map, screen.getElem?_cellsOfRow inside]

end Rows

section Positions

theorem offset_lt {rows columns row column : Nat} (inRows : row < rows)
    (inColumns : column < columns) : row * columns + column < rows * columns :=
  calc row * columns + column
    _ < (row + 1) * columns := by rw [Nat.succ_mul]; exact Nat.add_lt_add_left inColumns _
    _ ≤ rows * columns := Nat.mul_le_mul_right columns inRows

variable (screen : TextScreen)

theorem cell?_put {offset : Nat} (inside : offset < screen.rows * screen.columns) (value : Word)
    (row column : Nat) :
    (screen.put offset value).1.cell? row column =
      if row = offset / screen.columns ∧ column = offset % screen.columns then
        some (Cell.ofWord value)
      else screen.cell? row column := by
  have wide : 0 < screen.columns := Nat.pos_of_lt_mul_left inside
  have tall : offset / screen.columns < screen.rows := Nat.div_lt_of_lt_mul (by rwa [Nat.mul_comm])
  rw [← screen.size_cells] at inside
  simp only [cell?, put_rows, put_columns, screen.getElem?_put inside]
  by_cases shown : row < screen.rows ∧ column < screen.columns
  · have place : offset = row * screen.columns + column ↔
        row = offset / screen.columns ∧ column = offset % screen.columns := by
      rw [eq_comm (a := row), eq_comm (a := column), Nat.div_mod_unique wide, Nat.add_comm,
        Nat.mul_comm, and_iff_left shown.2, eq_comm]
    simp only [shown, and_self, if_true, place]
  · have elsewhere : ¬ (row = offset / screen.columns ∧ column = offset % screen.columns) := by
      rintro ⟨rfl, rfl⟩
      exact shown ⟨tall, Nat.mod_lt offset wide⟩
    simp only [shown, elsewhere, if_false]

/-- The offsets of a grid and its positions belong together. -/
theorem exists_cell?_put {offset : Nat} (inside : offset < screen.rows * screen.columns)
    (value : Word) :
    ∃ row column, row < screen.rows ∧ column < screen.columns ∧
      row * screen.columns + column = offset ∧
      ∀ i j, (screen.put offset value).1.cell? i j =
        if i = row ∧ j = column then some (Cell.ofWord value) else screen.cell? i j := by
  have wide : 0 < screen.columns := Nat.pos_of_lt_mul_left inside
  refine ⟨offset / screen.columns, offset % screen.columns, ?_, Nat.mod_lt offset wide, ?_,
    screen.cell?_put inside value⟩
  · exact Nat.div_lt_of_lt_mul (by rwa [Nat.mul_comm])
  · rw [Nat.mul_comm]
    exact Nat.div_add_mod offset screen.columns

end Positions

theorem cell?_after_blank (rows columns : Nat) (calls : List (Nat × Word)) (row column : Nat) :
    (Display.after (blank rows columns) calls).cell? row column =
      if row < rows ∧ column < columns then
        some ((((blank rows columns).accepted calls).reverse.lookup (row * columns + column)).elim
          Cell.blank Cell.ofWord)
      else none := by
  obtain ⟨sameRows, sameColumns⟩ := (blank rows columns).after_geometry calls
  rw [cell?, sameRows, sameColumns]
  change (if row < rows ∧ column < columns then _ else none) = _
  split <;> rename_i shown
  · have inside := offset_lt shown.1 shown.2
    have start : (blank rows columns).cells[row * columns + column]? = some Cell.blank := by
      simp only [blank, Array.getElem?_replicate, inside, if_true]
    change (Display.after (blank rows columns) calls).cells[row * columns + column]? = _
    rw [getElem?_after _ calls inside, start]
    cases ((blank rows columns).accepted calls).reverse.lookup (row * columns + column) <;> rfl
  · rfl

/-- What a screen that started blank shows after any calls: it accepts what lies on it, and shows
    the last word it accepted for each position, as a cell, in its lines and with its style. -/
theorem grid_after_calls (rows columns : Nat) (calls : List (Nat × Word)) :
    let start := blank rows columns
    let screen := Display.after start calls
    let last offset := (start.accepted calls).reverse.lookup offset
    (∀ offset value,
      let next := screen.put offset value
      (next.2 = .ok () ↔ offset < rows * columns) ∧
      (next.2 ≠ .ok () → next = (screen, .error (.offScreen offset columns rows))) ∧
      (next.2 = .ok () → ∃ row column, row < rows ∧ column < columns ∧
        row * columns + column = offset ∧
        ∀ i j, next.1.cell? i j =
          if i = row ∧ j = column then some (Cell.ofWord value) else screen.cell? i j)) ∧
    (∀ row column, screen.cell? row column =
      if row < rows ∧ column < columns then
        some ((last (row * columns + column)).elim Cell.blank Cell.ofWord)
      else none) ∧
    (∀ row,
      (screen.line? row = none ↔ rows ≤ row) ∧
      ∀ text, screen.line? row = some text →
        text.length = columns ∧
        (∀ column, text.toList[column]? = (screen.cell? row column).map Cell.printable) ∧
        ∀ character ∈ text.toList, 0x20 ≤ character.toNat ∧ character.toNat ≤ 0x7e) ∧
    screen.glyphs.length = rows ∧
    ∀ row glyphs, screen.glyphs[row]? = some glyphs →
      glyphs.length = columns ∧
      ∀ column, glyphs[column]? = (screen.cell? row column).map
        fun cell => { character := cell.printable, style := cell.style } := by
  intro start screen last
  obtain ⟨sameRows, sameColumns⟩ : screen.rows = rows ∧ screen.columns = columns :=
    start.after_geometry calls
  refine ⟨fun offset value => ?_, cell?_after_blank rows columns calls, fun row => ?_, ?_, ?_⟩
  · have answer := screen.put_eq_ok_iff offset value
    have refused := screen.put_of_refused offset value
    have placed := @screen.exists_cell?_put offset
    rw [sameRows, sameColumns] at answer refused placed
    exact ⟨answer, fun failed => refused (mt answer.mpr failed),
      fun fine => placed (answer.mp fine) value⟩
  · have spelled := screen.line?_spec row
    rw [sameRows, sameColumns] at spelled
    refine ⟨spelled.1, fun text found => ?_⟩
    obtain ⟨width, characters⟩ := spelled.2 text found
    refine ⟨width, characters, fun character member => ?_⟩
    obtain ⟨column, here⟩ := List.getElem?_of_mem member
    rw [characters, Option.map_eq_some_iff] at here
    obtain ⟨cell, -, rfl⟩ := here
    exact cell.printable_bounds
  · exact screen.glyphs_spec.1.trans sameRows
  · have spelled := screen.glyphs_spec.2
    rw [sameColumns] at spelled
    exact spelled

/-- A row of two cells. Its second cell is written twice, and a word behind it is refused. -/
def twiceWritten : TextScreen :=
  Display.after (blank 1 2) [(1, 0xf048), (2, 0x2041), (1, 0x2169)]

theorem twiceWritten_second :
    twiceWritten.cell? 0 1 = some (Cell.ofWord 0x2169) ∧
      twiceWritten.put 2 0x2041 = (twiceWritten, .error (.offScreen 2 2 1)) := by
  obtain ⟨answers, cells, -⟩ := grid_after_calls 1 2 [(1, 0xf048), (2, 0x2041), (1, 0x2169)]
  have outside : (twiceWritten.put 2 0x2041).2 ≠ .ok () :=
    mt (answers 2 0x2041).1.mp (by decide)
  exact ⟨cells 0 1, (answers 2 0x2041).2.1 outside⟩

end TextScreen
end Dcpu
