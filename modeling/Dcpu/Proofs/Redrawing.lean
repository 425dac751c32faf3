import Dcpu.Proofs.Grid
import Dcpu.Proofs.Slices
import Dcpu.Screen.TerminalDisplay

/-! # Drawing only what is due

A terminal display draws its screen when it is refreshed, but not always. A drawing is due as long as
none has succeeded, and again as soon as the screen has accepted a word or a drawing has failed. What
a terminal shows after a refresh is then what it would show if every refresh had drawn.
-/

namespace Dcpu

universe u v

/-- The tiles in the middle of a boxed picture. -/
def Picture.inside (picture : Picture) : Picture :=
  picture.tail.dropLast.map fun row => row.tail.dropLast

theorem Picture.inside_ofScreen (screen : TextScreen) :
    (Picture.ofScreen screen).inside = screen.glyphs.map fun row => row.map Glyph.tile := by
  simp only [inside, ofScreen, box, List.cons_append, List.nil_append, List.tail_cons,
    List.dropLast_concat, List.map_map, Function.comp_def]

namespace Display

variable {δ : Type u} [Display δ]

def answer (display : δ) : Request → Except DeviceError Unit
  | .write offset value => (write display offset value).2
  | .refresh => (refresh display).2

end Display

/-- A picture that was to be drawn, and what came of it. -/
structure Drawing where
  picture : Picture
  answer : Except DeviceError Unit

/-- A terminal that remembers what was drawn on it, the oldest drawing first. -/
structure Sketched (τ : Type u) where
  terminal : τ
  drawings : List Drawing := []

instance {τ : Type u} [Terminal τ] : Terminal (Sketched τ) where
  draw sketched picture :=
    let (terminal, answer) := Terminal.draw sketched.terminal picture
    ({ terminal, drawings := sketched.drawings ++ [{ picture, answer }] }, answer)

/-- A display that does the same as a terminal display, but draws whenever it is refreshed. -/
structure EagerDisplay (τ : Type u) where
  screen : TextScreen
  terminal : τ

instance {τ : Type u} [Terminal τ] : Display (EagerDisplay τ) where
  write display offset value :=
    let (screen, answer) := display.screen.put offset value
    ({ display with screen }, answer)
  refresh display :=
    let (terminal, answer) := Terminal.draw display.terminal (Picture.ofScreen display.screen)
    ({ display with terminal }, answer)

/-- A request that a display was given: its answer, and the drawings that were made for it. -/
structure Moment where
  request : Display.Request
  answer : Except DeviceError Unit
  drawings : List Drawing

namespace Moment

/-- A word that the screen took. -/
def Accepts (moment : Moment) : Prop :=
  (∃ offset value, moment.request = .write offset value) ∧ moment.answer = .ok ()

def DrawsWell (moment : Moment) : Prop :=
  ∃ drawing ∈ moment.drawings, drawing.answer = .ok ()

def DrawsBadly (moment : Moment) : Prop :=
  ∃ drawing ∈ moment.drawings, drawing.answer ≠ .ok ()

/-- Whether a refresh has something to draw: nothing was drawn yet, or since the last drawing that
    succeeded a word was accepted or a drawing failed. -/
def Due (past : List Moment) : Prop :=
  (∀ moment ∈ past, ¬ moment.DrawsWell) ∨
    ∃ before drawn since, past = before ++ drawn :: since ∧
      drawn.DrawsWell ∧ (∀ moment ∈ since, ¬ moment.DrawsWell) ∧
      ∃ moment ∈ since, moment.Accepts ∨ moment.DrawsBadly

theorem due_nil : Due [] :=
  .inl fun _ member => absurd member List.not_mem_nil

/-- The last drawing that succeeded, if there was one. -/
theorem exists_last_drawing {past : List Moment} (drawn : ∃ moment ∈ past, moment.DrawsWell) :
    ∃ before last since, past = before ++ last :: since ∧
      last.DrawsWell ∧ ∀ moment ∈ since, ¬ moment.DrawsWell := by
  induction past with
  | nil =>
      obtain ⟨moment, member, -⟩ := drawn
      cases member
  | cons first rest ih =>
      by_cases later : ∃ moment ∈ rest, moment.DrawsWell
      · obtain ⟨before, last, since, rfl, drew, quiet⟩ := ih later
        exact ⟨first :: before, last, since, rfl, drew, quiet⟩
      · obtain ⟨moment, member, drew⟩ := drawn
        rcases List.mem_cons.mp member with rfl | member
        · exact ⟨[], moment, rest, rfl, drew, fun other inRest drewToo =>
            later ⟨other, inRest, drewToo⟩⟩
        · exact absurd ⟨moment, member, drew⟩ later

theorem due_concat (past : List Moment) (moment : Moment) :
    Due (past ++ [moment]) ↔
      ¬ moment.DrawsWell ∧ (Due past ∨ moment.Accepts ∨ moment.DrawsBadly) := by
  constructor
  · rintro (silent | ⟨before, drawn, since, parts, drew, quiet, cause, member, reason⟩)
    · simp only [List.mem_append, List.mem_singleton] at silent
      exact ⟨silent moment (.inr rfl), .inl (.inl fun other member => silent other (.inl member))⟩
    · -- The new moment is the last one since the drawing, so that the rest of them was there before.
      cases since using List.reverseRecOn with
      | nil => cases member
      | append_singleton since last =>
          rw [← List.cons_append, ← List.append_assoc, List.append_singleton_inj] at parts
          obtain ⟨rfl, rfl⟩ := parts
          simp only [List.mem_append, List.mem_singleton] at quiet member
          refine ⟨quiet moment (.inr rfl), ?_⟩
          rcases member with member | rfl
          · exact .inl (.inr ⟨before, drawn, since, rfl, drew,
              fun other inSince => quiet other (.inl inSince), cause, member, reason⟩)
          · exact .inr reason
  · rintro ⟨still, reason⟩
    have silent {since : List Moment} (quiet : ∀ other ∈ since, ¬ other.DrawsWell) :
        ∀ other ∈ since ++ [moment], ¬ other.DrawsWell := by
      intro other member
      rcases List.mem_append.mp member with member | member
      · exact quiet other member
      · exact List.mem_singleton.mp member ▸ still
    rcases reason with (nothing | ⟨before, drawn, since, rfl, drew, quiet, cause, member, reason⟩) |
      reason
    · exact .inl (silent nothing)
    · exact .inr ⟨before, drawn, since ++ [moment], List.append_assoc .., drew, silent quiet, cause,
        List.mem_append_left _ member, reason⟩
    · by_cases drawn : ∃ other ∈ past, other.DrawsWell
      · obtain ⟨before, last, since, rfl, drew, quiet⟩ := exists_last_drawing drawn
        exact .inr ⟨before, last, since ++ [moment], List.append_assoc .., drew, silent quiet, moment,
          List.mem_concat_self, reason⟩
      · exact .inl (silent fun other member drew => drawn ⟨other, member, drew⟩)

end Moment

namespace TerminalDisplay

variable {τ : Type u}

/-- The same display, on a terminal that remembers drawings from now on. -/
def sketched (display : TerminalDisplay τ) : TerminalDisplay (Sketched τ) :=
  { display with terminal := { terminal := display.terminal } }

def unsketched (display : TerminalDisplay (Sketched τ)) : TerminalDisplay τ :=
  { display with terminal := display.terminal.terminal }

variable [Terminal τ]

/-- What a request is answered and draws. -/
def moment (display : TerminalDisplay τ) (request : Display.Request) : Moment where
  request := request
  answer := Display.answer display request
  drawings := (Display.serve display.sketched request).terminal.drawings

/-- The requests of a history, each as it went. -/
def moments (display : TerminalDisplay τ) : List Display.Request → List Moment
  | [] => []
  | request :: rest => display.moment request :: moments (Display.serve display request) rest

theorem moments_concat (display : TerminalDisplay τ) (history : List Display.Request)
    (request : Display.Request) :
    display.moments (history ++ [request]) =
      display.moments history ++ [(Display.serveAll display history).moment request] := by
  induction history generalizing display with
  | nil => rfl
  | cons first rest ih =>
      rw [List.cons_append, moments, ih, moments]
      rfl

section Steps

variable (display : TerminalDisplay τ)

theorem write_accepted {offset : Nat} (value : Word)
    (inside : offset < display.screen.rows * display.screen.columns) :
    Display.write display offset value =
      ({ display with screen := (display.screen.put offset value).1, dirty := true }, .ok ()) := by
  have fine := (display.screen.put_eq_ok_iff offset value).mpr inside
  change display.put offset value = _
  rw [put, show display.screen.put offset value = (_, .ok ()) from Prod.ext rfl fine]

theorem write_refused {offset : Nat} (value : Word)
    (outside : ¬ offset < display.screen.rows * display.screen.columns) :
    Display.write display offset value =
      (display, .error (.offScreen offset display.screen.columns display.screen.rows)) := by
  change display.put offset value = _
  rw [put, display.screen.put_of_refused offset value outside]

theorem refresh_of_dirty (dirty : display.dirty = true) :
    let drawn := Terminal.draw display.terminal (Picture.ofScreen display.screen)
    Display.refresh display =
      ({ display with terminal := drawn.1, dirty := !drawn.2.isOk }, drawn.2) := by
  change display.refresh = _
  rw [refresh, if_pos dirty]
  rcases Terminal.draw display.terminal (Picture.ofScreen display.screen) with ⟨terminal, _ | _⟩
  · simp only [Except.isOk, Except.toBool, dirty]
    rfl
  · rfl

theorem refresh_of_clean (clean : display.dirty = false) :
    Display.refresh display = (display, .ok ()) := by
  change display.refresh = _
  rw [refresh, clean]
  rfl

/-- A word that is accepted makes a drawing due, whatever was due before. -/
theorem dirty_write (offset : Nat) (value : Word) :
    (Display.write display offset value).1.dirty = true ↔
      display.dirty = true ∨ (Display.write display offset value).2 = .ok () := by
  by_cases inside : offset < display.screen.rows * display.screen.columns
  · simp only [display.write_accepted value inside, or_true]
  · simp only [display.write_refused value inside, reduceCtorEq, or_false]

/-- Only a drawing that fails leaves another one due. -/
theorem dirty_refresh :
    (Display.refresh display).1.dirty = true ↔ (Display.refresh display).2 ≠ .ok () := by
  cases dirty : display.dirty with
  | false => simp only [display.refresh_of_clean dirty, dirty, Bool.false_eq_true, ne_eq,
      not_true_eq_false]
  | true =>
      rw [display.refresh_of_dirty dirty]
      rcases (Terminal.draw display.terminal (Picture.ofScreen display.screen)).2 with _ | _ <;>
        simp only [Except.isOk, Except.toBool] <;> simp

/-- A display does not notice that its drawings are remembered. -/
theorem serve_sketched (request : Display.Request) :
    (Display.serve display.sketched request).unsketched = Display.serve display request ∧
      Display.answer display.sketched request = Display.answer display request := by
  cases request with
  | write offset value =>
      by_cases inside : offset < display.screen.rows * display.screen.columns
      · simp only [Display.serve, Display.answer, display.write_accepted value inside,
          display.sketched.write_accepted value inside]
        exact ⟨rfl, trivial⟩
      · simp only [Display.serve, Display.answer, display.write_refused value inside,
          display.sketched.write_refused value inside]
        exact ⟨rfl, rfl⟩
  | refresh =>
      cases dirty : display.dirty with
      | false =>
          simp only [Display.serve, Display.answer, display.refresh_of_clean dirty,
            display.sketched.refresh_of_clean dirty]
          exact ⟨rfl, trivial⟩
      | true =>
          simp only [Display.serve, Display.answer, display.refresh_of_dirty dirty,
            display.sketched.refresh_of_dirty dirty]
          exact ⟨rfl, rfl⟩

theorem write_screen (offset : Nat) (value : Word) :
    (Display.write display offset value).1.screen = (Display.write display.screen offset value).1 ∧
      (Display.write display offset value).2 = (Display.write display.screen offset value).2 := by
  change _ ∧ _ = (display.screen.put offset value).2
  by_cases inside : offset < display.screen.rows * display.screen.columns
  · rw [display.write_accepted value inside, display.screen.put_answer, if_pos inside]
    exact ⟨rfl, rfl⟩
  · rw [display.write_refused value inside, display.screen.put_answer, if_neg inside]
    exact ⟨congrArg Prod.fst (display.screen.put_of_refused offset value inside).symm, rfl⟩

theorem refresh_screen : (Display.refresh display).1.screen = display.screen := by
  cases dirty : display.dirty with
  | false => rw [display.refresh_of_clean dirty]
  | true => rw [display.refresh_of_dirty dirty]

theorem write_terminal (offset : Nat) (value : Word) :
    (Display.write display offset value).1.terminal = display.terminal := by
  by_cases inside : offset < display.screen.rows * display.screen.columns
  · rw [display.write_accepted value inside]
  · rw [display.write_refused value inside]

theorem drawings_write (offset : Nat) (value : Word) :
    (display.moment (.write offset value)).drawings = [] := by
  by_cases inside : offset < display.screen.rows * display.screen.columns
  · simp only [moment, Display.serve, display.sketched.write_accepted value inside]
    rfl
  · simp only [moment, Display.serve, display.sketched.write_refused value inside]
    rfl

theorem drawings_refresh :
    (display.moment .refresh).drawings =
      if display.dirty then
        [{ picture := .ofScreen display.screen, answer := (Display.refresh display).2 }]
      else [] := by
  cases dirty : display.dirty with
  | false =>
      simp only [moment, Display.serve, display.sketched.refresh_of_clean dirty]
      rfl
  | true =>
      simp only [moment, Display.serve, display.sketched.refresh_of_dirty dirty,
        display.refresh_of_dirty dirty]
      rfl

/-- A request makes a drawing due, or leaves one due, exactly as it makes it due by what can be seen
    of the request. -/
theorem dirty_serve (request : Display.Request) :
    (Display.serve display request).dirty = true ↔
      ¬ (display.moment request).DrawsWell ∧
        (display.dirty = true ∨ (display.moment request).Accepts ∨
          (display.moment request).DrawsBadly) := by
  cases request with
  | write offset value =>
      have accepts : (display.moment (.write offset value)).Accepts ↔
          (Display.write display offset value).2 = .ok () :=
        ⟨And.right, fun fine => ⟨⟨offset, value, rfl⟩, fine⟩⟩
      rw [accepts, Moment.DrawsWell, Moment.DrawsBadly, display.drawings_write]
      simp only [List.not_mem_nil, false_and, exists_false, not_false_eq_true, true_and, or_false]
      exact display.dirty_write offset value
  | refresh =>
      have idle : ¬ (display.moment .refresh).Accepts := by
        rintro ⟨⟨offset, value, request⟩, -⟩
        cases request
      rw [Moment.DrawsWell, Moment.DrawsBadly, display.drawings_refresh]
      refine display.dirty_refresh.trans ?_
      cases dirty : display.dirty with
      | false => simp only [display.refresh_of_clean dirty, idle, ne_eq, not_true_eq_false,
          Bool.false_eq_true, if_false, List.not_mem_nil, false_and, exists_false, or_self, and_false]
      | true => simp only [if_true, List.mem_singleton, exists_eq_left, true_or, and_true, ne_eq]

/-- The terminal shows the screen, as far as that can be seen, unless a drawing is due. -/
def Current {π : Type v} (see : Picture → π) (shown : τ → π) : Prop :=
  display.dirty = false → shown display.terminal = see (.ofScreen display.screen)

/-- Terminals that show the screens that were drawn on them keep displays current. -/
theorem Current.serve {π : Type v} {see : Picture → π} {shown : τ → π}
    (faithful : ∀ terminal screen, (Terminal.draw terminal (.ofScreen screen)).2 = .ok () →
      shown (Terminal.draw terminal (.ofScreen screen)).1 = see (.ofScreen screen))
    {display : TerminalDisplay τ} (current : display.Current see shown)
    (request : Display.Request) : (Display.serve display request).Current see shown := by
  intro clean
  cases request with
  | write offset value =>
      rw [Display.serve] at clean ⊢
      by_cases inside : offset < display.screen.rows * display.screen.columns
      · rw [display.write_accepted value inside] at clean
        cases clean
      · rw [display.write_refused value inside] at clean ⊢
        exact current clean
  | refresh =>
      rw [Display.serve] at clean ⊢
      cases dirty : display.dirty with
      | false =>
          rw [display.refresh_of_clean dirty]
          exact current dirty
      | true =>
          have fine : (Display.refresh display).2 = .ok () := by
            by_contra failed
            rw [display.dirty_refresh.mpr failed] at clean
            cases clean
          rw [display.refresh_of_dirty dirty] at fine ⊢
          exact faithful _ _ fine

end Steps

section Histories

variable (display : TerminalDisplay τ) (history : List Display.Request)

theorem screen_serveAll :
    (Display.serveAll display history).screen = Display.unrefreshed display.screen history := by
  induction history using List.reverseRecOn with
  | nil => rfl
  | append_singleton history request ih =>
      rw [Display.serveAll_concat]
      cases request with
      | write offset value => rw [Display.unrefreshed_write, ← ih, Display.serve, (write_screen ..).1]
      | refresh => rw [Display.unrefreshed_refresh, ← ih, Display.serve, refresh_screen]

theorem dirty_serveAll (starts : display.dirty = true) :
    (Display.serveAll display history).dirty = true ↔ Moment.Due (display.moments history) := by
  induction history using List.reverseRecOn with
  | nil => exact iff_of_true starts Moment.due_nil
  | append_singleton history request ih =>
      rw [Display.serveAll_concat, dirty_serve, ih, moments_concat, Moment.due_concat]

theorem current_serveAll {shown : τ → Picture}
    (faithful : ∀ terminal picture, (Terminal.draw terminal picture).2 = .ok () →
      shown (Terminal.draw terminal picture).1 = picture)
    (current : display.Current id shown) :
    (Display.serveAll display history).Current id shown := by
  induction history using List.reverseRecOn with
  | nil => exact current
  | append_singleton history request ih =>
      rw [Display.serveAll_concat]
      exact ih.serve (fun terminal _ => faithful terminal _) request

end Histories
end TerminalDisplay

namespace EagerDisplay

variable {τ : Type u} [Terminal τ]

def blank (rows columns : Nat) (terminal : τ) : EagerDisplay τ where
  screen := TextScreen.blank rows columns
  terminal := terminal

theorem screen_serveAll (display : EagerDisplay τ) (history : List Display.Request) :
    (Display.serveAll display history).screen = Display.unrefreshed display.screen history := by
  induction history using List.reverseRecOn with
  | nil => rfl
  | append_singleton history request ih =>
      rw [Display.serveAll_concat]
      cases request with
      | write offset value =>
          rw [Display.unrefreshed_write, ← ih]
          rfl
      | refresh =>
          rw [Display.unrefreshed_refresh, ← ih]
          rfl

end EagerDisplay

namespace TerminalDisplay

variable {τ : Type u} [Terminal τ]

theorem not_drawsWell_of_unrefreshed (display : TerminalDisplay τ) {history : List Display.Request}
    (unrefreshed : .refresh ∉ history) :
    ∀ moment ∈ display.moments history, ¬ moment.DrawsWell := by
  induction history generalizing display with
  | nil => exact fun _ member => absurd member List.not_mem_nil
  | cons request rest ih =>
      obtain ⟨first, later⟩ := List.ne_and_not_mem_of_not_mem_cons unrefreshed
      intro moment member
      rcases List.mem_cons.mp member with rfl | member
      · cases request with
        | write offset value =>
            rw [Moment.DrawsWell, drawings_write]
            rintro ⟨drawing, none, -⟩
            cases none
        | refresh => exact absurd rfl first
      · exact ih _ later moment member

end TerminalDisplay

/-- A terminal that fails some times before it shows anything. -/
structure Reluctant where
  refusals : Nat
  picture : Picture := []

instance : Terminal Reluctant where
  draw terminal picture :=
    match terminal.refusals with
    | 0 => ({ terminal with picture }, .ok ())
    | refusals + 1 => ({ terminal with refusals }, .error (.other "busy"))

namespace TerminalDisplay

/-- A display of one cell whose first drawing failed. It has drawn an A since, and has refused a
    word. -/
def belated : TerminalDisplay Reluctant :=
  Display.serveAll (blank 1 1 { refusals := 1 })
    [.refresh, .write 0 0xf041, .refresh, .write 7 0x2041]

end TerminalDisplay
end Dcpu
