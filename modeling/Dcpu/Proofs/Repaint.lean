import Dcpu.Proofs.Frames
import Dcpu.Proofs.KeyQueue
import Dcpu.Proofs.Mirror
import Dcpu.Proofs.Redrawing

/-! # What the user sees

The user sees the screen as it was at its last refresh, also on a display that does not draw it again
where nothing has changed. A console refreshes behind the instructions of a frame, and the keys it
pushes before them go past the end of the largest window. So where a run ends well the user sees all
that was stored, and where a word is no instruction all that was stored up to the frame before.
-/

namespace Dcpu

universe u v w

namespace Display

/-- How a display shows a text screen to a user. It puts the words that it is given on the screen,
    and once it is refreshed the user sees the screen, until the next refresh. -/
structure Showing (δ : Type u) [Display δ] (ν : Type v) where
  screen : δ → TextScreen
  /-- What a screen looks like to the user. -/
  look : TextScreen → ν
  /-- What the user sees now, if anything was shown yet. -/
  visible : δ → Option ν
  /-- What holds of the display at all times. -/
  Sound : δ → Prop
  write_screen (display : δ) (offset : Nat) (value : Word) :
    screen (write display offset value).1 = ((screen display).put offset value).1
  write_answer (display : δ) (offset : Nat) (value : Word) :
    (write display offset value).2 = ((screen display).put offset value).2
  write_visible (display : δ) (offset : Nat) (value : Word) :
    visible (write display offset value).1 = visible display
  write_sound (display : δ) (offset : Nat) (value : Word) :
    Sound display → Sound (write display offset value).1
  refresh_screen (display : δ) : screen (refresh display).1 = screen display
  refresh_visible (display : δ) : Sound display → (refresh display).2 = .ok () →
    visible (refresh display).1 = some (look (screen display))
  refresh_sound (display : δ) : Sound display → Sound (refresh display).1

end Display

/-- A text screen with an audience, which sees the screen itself. -/
structure Stage where
  screen : TextScreen
  /-- The screen at its last refresh, if there was one. -/
  shown : Option TextScreen := none

namespace Stage

instance : Display Stage where
  write stage offset value :=
    let (screen, answer) := stage.screen.put offset value
    ({ stage with screen }, answer)
  refresh stage := ({ stage with shown := some stage.screen }, .ok ())

def showing : Display.Showing Stage TextScreen where
  screen := Stage.screen
  look := id
  visible := Stage.shown
  Sound _ := True
  write_screen _ _ _ := rfl
  write_answer _ _ _ := rfl
  write_visible _ _ _ := rfl
  write_sound _ _ _ := id
  refresh_screen _ := rfl
  refresh_visible _ _ _ := rfl
  refresh_sound _ := id

end Stage

/-- A terminal display shows the picture of its screen, drawn again or not, on a terminal that shows
    what is drawn on it. -/
def TerminalDisplay.showing {τ : Type u} [Terminal τ] (shown : τ → Option Picture)
    (faithful : ∀ terminal screen, (Terminal.draw terminal (.ofScreen screen)).2 = .ok () →
      shown (Terminal.draw terminal (.ofScreen screen)).1 = some (.ofScreen screen)) :
    Display.Showing (TerminalDisplay τ) Picture where
  screen := TerminalDisplay.screen
  look := Picture.ofScreen
  visible display := shown display.terminal
  Sound display := display.Current some shown
  write_screen display offset value := (display.write_screen offset value).1
  write_answer display offset value := (display.write_screen offset value).2
  write_visible display offset value := by rw [display.write_terminal]
  write_sound _ offset value current := current.serve faithful (.write offset value)
  refresh_screen := refresh_screen
  refresh_visible display current fine := by
    have clean : (Display.refresh display).1.dirty = false := by
      rw [← Bool.not_eq_true, display.dirty_refresh]
      exact not_not_intro fine
    rw [← display.refresh_screen]
    exact current.serve faithful .refresh clean
  refresh_sound _ current := current.serve faithful .refresh

/-- The picture that stands on a canvas, if one was drawn. -/
def Canvas.shown? (canvas : Canvas) : Option Picture :=
  if canvas.picture = [] then none else some canvas.picture

theorem Canvas.shown?_draw (canvas : Canvas) (screen : TextScreen) :
    (Terminal.draw canvas (.ofScreen screen)).2 = .ok () →
      (Terminal.draw canvas (.ofScreen screen)).1.shown? = some (.ofScreen screen) := by
  intro _
  have drawn : Picture.ofScreen screen ≠ [] := by
    simp only [Picture.ofScreen, Picture.box, List.cons_append, ne_eq, reduceCtorEq,
      not_false_eq_true]
  exact if_neg drawn

/-- A screen with the cells of all words in the video window. -/
structure Reflects (settings : Settings) (machine : Wired TextScreen) : Prop where
  videoWords : machine.videoWords = settings.videoWords
  rows : machine.display.rows = settings.rows
  columns : machine.display.columns = settings.columns
  cells {i : Nat} : i < settings.videoWords →
    machine.display.cells[i]? = some (Cell.ofWord (Memory.load machine (.inVideo i)))

namespace Reflects

variable {settings : Settings}

theorem stable (small : settings.videoWords ≤ 0x1000) : Memory.Stable (Reflects settings) := by
  intro machine address value reflects
  have fits : machine.display.cells.size = machine.videoWords := by
    rw [machine.display.size_cells, reflects.rows, reflects.columns, reflects.videoWords,
      Settings.videoWords]
  have geometry := machine.store_geometry address value
  constructor
  case videoWords => exact (Wired.store_videoWords ..).trans reflects.videoWords
  case rows => exact geometry.1.trans reflects.rows
  case columns => exact geometry.2.trans reflects.columns
  case cells =>
      intro i inside
      have place := machine.videoOffset?_eq_some_iff address i
      rw [reflects.videoWords] at place
      rw [machine.getElem?_store fits, LawfulMemory.load_store]
      by_cases here : address = .inVideo i
      · rw [if_pos (place.mpr ⟨inside, by omega, here⟩), if_pos here.symm]
      · rw [if_neg fun placed => here (place.mp placed).2.2, if_neg (Ne.symm here)]
        exact reflects.cells inside

theorem boot {program : List Word}
    (unloaded : ∀ i < settings.videoWords, program[0x8000 + i]?.getD 0 = 0)
    (small : settings.videoWords ≤ 0x1000) :
    Reflects settings
      (.boot program (.blank settings.rows settings.columns) settings.videoWords) where
  videoWords := rfl
  rows := rfl
  columns := rfl
  cells := by
    intro i inside
    have word : Memory.load (Wired.boot program (TextScreen.blank settings.rows settings.columns)
        settings.videoWords) (.inVideo i) = 0 :=
      (State.load_boot_inVideo program (by omega)).trans (unloaded i inside)
    rw [word, Cell.ofWord_zero]
    simp only [Wired.boot, TextScreen.blank, Array.getElem?_replicate]
    exact if_pos inside

end Reflects

/-- A screen with the cells of the words in the video memory, row after row. -/
structure TextScreen.Pictures (screen : TextScreen) (settings : Settings) (state : State) : Prop where
  rows : screen.rows = settings.rows
  columns : screen.columns = settings.columns
  cells : ∀ row < settings.rows, ∀ column < settings.columns,
    screen.cell? row column =
      some (Cell.ofWord (state.load (.inVideo (row * settings.columns + column))))

theorem Reflects.pictures {settings : Settings} {machine : Wired TextScreen}
    (reflects : Reflects settings machine) :
    machine.display.Pictures settings machine.state where
  rows := reflects.rows
  columns := reflects.columns
  cells := by
    intro row inRows column inColumns
    rw [TextScreen.cell?, reflects.rows, reflects.columns, if_pos ⟨inRows, inColumns⟩]
    exact reflects.cells (TextScreen.offset_lt inRows inColumns)

namespace Wired

variable {δ : Type u} [Display δ]

/-- A machine with nothing but the screen of its display. -/
def onScreen (screen : δ → TextScreen) (machine : Wired δ) : Wired TextScreen where
  state := machine.state
  display := screen machine.display
  videoWords := machine.videoWords

variable {ν : Type w} (showing : Display.Showing δ ν)

/-- The user sees the screen as it is. -/
def UpToDate (machine : Wired δ) : Prop :=
  showing.visible machine.display = some (showing.look (showing.screen machine.display))

theorem isView_onScreen : Memory.View (onScreen showing.screen : Wired δ → Wired TextScreen) where
  load _ _ := rfl
  store machine address value := by
    have place : (machine.onScreen showing.screen).videoOffset? address =
        machine.videoOffset? address :=
      videoOffset?_congr rfl address
    simp only [Memory.store, store, place]
    cases machine.videoOffset? address with
    | none => rfl
    | some offset =>
        refine Prod.ext ?_ (showing.write_answer machine.display offset value).symm
        simp only [onScreen, showing.write_screen]
        rfl

theorem stable_visible (seen : Option ν) :
    Memory.Stable fun machine : Wired δ => showing.visible machine.display = seen := by
  intro machine address value same
  rw [store_display]
  cases machine.videoOffset? address with
  | none => exact same
  | some offset => exact (showing.write_visible ..).trans same

theorem stable_sound :
    Memory.Stable fun machine : Wired δ => showing.Sound machine.display := by
  intro machine address value sound
  rw [store_display]
  cases machine.videoOffset? address with
  | none => exact sound
  | some offset => exact showing.write_sound _ _ _ sound

/-- Keys are not stored in the video window. -/
theorem push_display {machine : Wired δ} (small : machine.videoWords ≤ 0x1000) (ring : KeyRing)
    (key : Word) : (ring.push machine key).1.2.display = machine.display := by
  have outside : machine.videoOffset? ring.slot = none := by
    rw [KeyRing.videoOffset?_slot, if_neg (by omega)]
  rw [KeyRing.push_eq]
  split
  · simp only [store_display, outside]
  · rfl

end Wired

namespace Devices

variable {δ : Type u} {κ : Type v} [Display δ] [Keyboard κ] {ν : Type w}
  (showing : Display.Showing δ ν) {settings : Settings} {devices : Devices δ κ}

/-- Where nothing is refreshed, nothing is shown. -/
theorem performAll_visible (devices : Devices δ κ) {events : List Event}
    (unrefreshed : .refresh ∉ events) :
    showing.visible (devices.performAll events).1.machine.display =
      showing.visible devices.machine.display :=
  performAll_stable (Wired.stable_visible showing (showing.visible devices.machine.display))
    (fun member => absurd member unrefreshed) rfl

theorem performAll_sound (sound : showing.Sound devices.machine.display) {events : List Event}
    {after : Devices δ κ} {answer : Except Error Unit}
    (played : devices.performAll events = (after, answer)) : showing.Sound after.machine.display := by
  obtain rfl : (devices.performAll events).1 = after := congrArg Prod.fst played
  exact performAll_stable (Wired.stable_sound showing)
    (fun _ machine sound => showing.refresh_sound machine.display sound) sound

theorem performAll_reflects (small : settings.videoWords ≤ 0x1000)
    (reflects : Reflects settings (devices.machine.onScreen showing.screen))
    (events : List Event) :
    Reflects settings ((devices.performAll events).1.machine.onScreen showing.screen) := by
  refine performAll_stable
    (P := fun machine => Reflects settings (machine.onScreen showing.screen)) ?_ ?_ reflects
  · intro machine address value reflects
    have stored :=
      Reflects.stable small (machine.onScreen showing.screen) address value reflects
    rw [(Wired.isView_onScreen showing).store] at stored
    exact stored
  · intro _ machine reflects
    have kept : machine.refresh.1.onScreen showing.screen = machine.onScreen showing.screen :=
      congrArg (Wired.mk machine.state · machine.videoWords) (showing.refresh_screen machine.display)
    rw [kept]
    exact reflects

omit showing in
/-- Keys change nothing of what is on the screen. -/
theorem performAll_display (small : devices.machine.videoWords ≤ 0x1000) (events : List Event)
    (unstepped : .step ∉ events) (unrefreshed : .refresh ∉ events) :
    (devices.performAll events).1.machine.display = devices.machine.display := by
  induction events generalizing devices with
  | nil => rfl
  | cons event rest ih =>
      have kept : (devices.perform event).1.machine.display = devices.machine.display ∧
          (devices.perform event).1.machine.videoWords = devices.machine.videoWords := by
        cases event with
        | step => exact absurd List.mem_cons_self unstepped
        | refresh => exact absurd List.mem_cons_self unrefreshed
        | poll => exact ⟨rfl, rfl⟩
        | push code =>
            have fixed : Memory.Stable fun machine : Wired δ =>
                machine.videoWords = devices.machine.videoWords :=
              fun machine address value same => (Wired.store_videoWords ..).trans same
            exact ⟨Wired.push_display small devices.ring code, fixed.push rfl devices.ring code⟩
      rw [performAll_cons]
      split
      · rw [ih (by rw [kept.2]; exact small) (unstepped <| List.mem_cons_of_mem _ ·)
          (unrefreshed <| List.mem_cons_of_mem _ ·), kept.1]
      · exact kept.1

variable {showing}

/-- Where frames went on to the next, the last thing that happened was a refresh. -/
theorem upToDate_of_ofFrames (sound : showing.Sound devices.machine.display) {keyboard : κ} {k : Nat}
    (unquit : .quit ∉ Keyboard.keysAt keyboard k) {after : Devices δ κ}
    (played : devices.performAll (Event.ofFrames settings keyboard (k + 1)) = (after, .ok ())) :
    after.machine.UpToDate showing := by
  rw [Event.ofFrames, Event.ofFrameAt, Event.ofFrame_of_not_quit unquit, ← List.append_assoc]
    at played
  obtain ⟨between, before, refreshed⟩ := performAll_append_eq_ok played
  have stillSound := performAll_sound showing sound before
  rw [performAll_cons] at refreshed
  cases answer : (between.perform .refresh).2 with
  | error cause =>
      rw [answer] at refreshed
      cases congrArg Prod.snd refreshed
  | ok =>
      rw [answer] at refreshed
      obtain rfl : (between.perform .refresh).1 = after := congrArg Prod.fst refreshed
      have fine := showing.refresh_visible between.machine.display stillSound
        (verdict_eq_ok_iff.mp answer)
      rw [← showing.refresh_screen] at fine
      exact fine

end Devices

namespace Console

variable {δ : Type u} {κ : Type v} [Display δ] [Keyboard κ]

section Run

variable {ν : Type w} {showing : Display.Showing δ ν} {settings : Settings}
  {start : Console δ κ} {events : List Event} {ended : Console δ κ × Except Error Nat} {k : Nat}

theorem Completes.upToDate (completes : start.Completes settings events ended)
    (sound : showing.Sound start.machine.display) (positive : 0 < settings.steps) :
    ended.1.machine.UpToDate showing := by
  obtain ⟨last, frames⟩ : ∃ last, settings.frames = last + 1 := by
    have first := (settings.lt_frames_iff 0).mpr (by omega)
    exact ⟨settings.frames - 1, by omega⟩
  have played := completes.played
  rw [completes.happened, frames] at played
  exact Devices.upToDate_of_ofFrames sound (completes.unquit last (by omega)) played

theorem QuitsIn.upToDate (quits : start.QuitsIn settings (k + 1) events ended)
    (sound : showing.Sound start.machine.display) (small : settings.videoWords ≤ 0x1000)
    (booted : Reflects settings (start.devices.machine.onScreen showing.screen)) :
    ended.1.machine.UpToDate showing := by
  have played := quits.played
  rw [quits.happened] at played
  obtain ⟨between, frames, keys⟩ := Devices.performAll_append_eq_ok played
  have upToDate : between.machine.UpToDate showing :=
    Devices.upToDate_of_ofFrames sound (quits.unquit k (by omega)) frames
  have fits : between.machine.videoWords ≤ 0x1000 := by
    have reflects := Devices.performAll_reflects showing small booted
      (Event.ofFrames settings start.keyboard (k + 1))
    rw [frames] at reflects
    exact reflects.videoWords ▸ small
  have kept := Devices.performAll_display fits
    (.poll :: (Key.codes (Keyboard.keysAt start.keyboard (k + 1))).map .push) (by simp) (by simp)
  rw [keys] at kept
  change ended.1.machine.display = _ at kept
  rw [Wired.UpToDate, kept]
  exact upToDate

/-- A frame that stops at a word that is no instruction shows nothing any more. -/
theorem FailsIn.visible_eq {before : List Event} {event : Event} {cause : InvalidOpcode}
    (fails : start.FailsIn settings k before event (.invalidOpcode cause) ended)
    (fresh : start.done = 0) (showing : Display.Showing δ ν) :
    showing.visible ended.1.machine.display =
      showing.visible (start.afterFrames settings k).machine.display := by
  obtain ⟨earlier, later, split, rfl⟩ := fails.frame
  have step : event = .step := by
    have raises := fails.raises
    cases event with
    | step => rfl
    | poll | push | refresh => exact False.elim raises
  have unrefreshed : .refresh ∉ earlier ++ [event] := by
    have none := List.count_eq_zero.mp (Event.count_refresh_of_ofFrame_eq _ _ split)
    rw [step, List.mem_append, List.mem_singleton]
    rintro (member | ⟨⟨⟩⟩)
    exact none member
  have played := fails.played
  rw [List.append_assoc,
    Devices.performAll_append_of_ok (fails.begins.arrivesAt fresh).happened] at played
  have kept := (start.afterFrames settings k).devices.performAll_visible showing unrefreshed
  rw [played] at kept
  exact kept

end Run

/-- What the user sees is what the program stored. At the end of a run that went well the user sees
    a screen with the cells of the video memory, if anything ran at all. At a word that is no
    instruction it has those of the video memory behind the last frame that went on, and where no
    frame did nothing was shown. -/
theorem shown_is_stored {ν : Type w} (showing : Display.Showing δ ν) (program : List Word)
    (display : δ) (keyboard : κ) (settings : Settings)
    (blank : showing.screen display = .blank settings.rows settings.columns)
    (unshown : showing.visible display = none) (sound : showing.Sound display)
    (small : settings.rows * settings.columns ≤ 0x1000)
    (unloaded : ∀ i < settings.rows * settings.columns, program[0x8000 + i]?.getD 0 = 0) :
    let start := Console.boot program display keyboard settings
    let ended := start.run settings
    let seen := showing.visible ended.1.machine.display
    (∀ n, ended.2 = .ok n → 0 < n →
      ∃ last, seen = some (showing.look last) ∧
        last.Pictures settings ended.1.machine.state) ∧
    ∀ cause, ended.2 = .error (.invalidOpcode cause) →
      ∃ k, start.Begins settings k ∧
        ((start.afterFrames settings k).frame settings).2 = .error (.invalidOpcode cause) ∧
        (k = 0 → seen = none) ∧
        (0 < k → ∃ last, seen = some (showing.look last) ∧
          last.Pictures settings (start.afterFrames settings k).machine.state) := by
  intro start ended seen
  have booted : Reflects settings (start.devices.machine.onScreen showing.screen) := by
    have reflects := Reflects.boot unloaded small
    rw [← blank] at reflects
    exact reflects
  have pictures {after : Devices δ κ} {events : List Event} {answer : Except Error Unit}
      (played : start.devices.performAll events = (after, answer)) :
      (showing.screen after.machine.display).Pictures settings after.machine.state := by
    have reflects := Devices.performAll_reflects showing small booted events
    rw [played] at reflects
    exact reflects.pictures
  rcases start.run_cases settings rfl with
    ⟨-, events, completes⟩ | ⟨k, events, quits⟩ | ⟨k, before, event, cause, fails⟩
  · refine ⟨fun n result positive => ?_, fun cause result => ?_⟩
    · obtain rfl := Except.ok.inj (completes.result.symm.trans result)
      exact ⟨_, completes.upToDate sound positive, pictures completes.played⟩
    · cases completes.result.symm.trans result
  · refine ⟨fun n result positive => ?_, fun cause result => ?_⟩
    · obtain rfl := Except.ok.inj (quits.result.symm.trans result)
      cases k with
      | zero => exact absurd positive (by omega)
      | succ last => exact ⟨_, quits.upToDate sound small booted, pictures quits.played⟩
    · cases quits.result.symm.trans result
  · refine ⟨fun n result positive => ?_, fun opcode result => ?_⟩
    · cases fails.result.symm.trans result
    · obtain rfl := Except.error.inj (fails.result.symm.trans result)
      have visibleBefore := fails.visible_eq rfl showing
      refine ⟨k, fails.begins, fails.fails, ?_, ?_⟩
      · rintro rfl
        exact visibleBefore.trans unshown
      · intro positive
        obtain ⟨last, rfl⟩ : ∃ last, k = last + 1 := ⟨k - 1, by omega⟩
        have arrives := fails.begins.arrivesAt rfl
        have starts : showing.Sound start.devices.machine.display := sound
        have upToDate : (start.afterFrames settings (last + 1)).machine.UpToDate showing :=
          Devices.upToDate_of_ofFrames starts (arrives.unquit last (by omega)) arrives.happened
        exact ⟨_, visibleBefore.trans upToDate, pictures arrives.happened⟩

/-- Two cells, and a frame for every instruction. -/
def twoCells : Settings where
  rows := 1
  columns := 2
  clockHz := 60
  steps := 6

/-- A console whose program stores a letter on the screen. -/
def lettering {δ : Type} (display : δ) (keyboard : PlannedKeys) : Console δ PlannedKeys :=
  .boot [0x7de1, 0x8000, 0xf041] display keyboard twoCells

/-- The letter is seen by a user who quits behind a key that is pushed, and by one who looks at a
    terminal until the console comes to the end of its program. -/
theorem shown_is_stored_lettering :
    let quit := (lettering { screen := .blank 1 2 : Stage } .quitting).run twoCells
    let stopped := (lettering (TerminalDisplay.blank 1 2 ({} : Canvas)) {}).run twoCells
    twoCells.rows * twoCells.columns ≤ 0x1000 ∧
      (∀ i < twoCells.rows * twoCells.columns,
        [0x7de1, 0x8000, 0xf041][0x8000 + i]?.getD (0 : Word) = 0) ∧
      quit.2 = .ok 1 ∧
      (∃ last, quit.1.machine.display.shown = some last ∧
        last.cell? 0 0 = some (Cell.ofWord 0xf041)) ∧
      stopped.2 = .error (.invalidOpcode { pc := 3, word := 0 }) ∧
      ∃ last, stopped.1.machine.display.terminal.shown? = some (.ofScreen last) ∧
        last.cell? 0 0 = some (Cell.ofWord 0xf041) := by
  have small : twoCells.rows * twoCells.columns ≤ 0x1000 := by decide
  have unloaded : ∀ i < twoCells.rows * twoCells.columns,
      [0x7de1, 0x8000, 0xf041][0x8000 + i]?.getD (0 : Word) = 0 := by
    intro i _
    rw [List.getElem?_eq_none (Nat.le_trans (by decide) (Nat.le_add_right 0x8000 i))]
    rfl
  have quits : ((lettering { screen := .blank 1 2 : Stage } .quitting).run twoCells).2 = .ok 1 := rfl
  have stops : ((lettering (TerminalDisplay.blank 1 2 ({} : Canvas)) {}).run twoCells).2 =
      .error (.invalidOpcode { pc := 3, word := 0 }) := rfl
  have first : ((lettering (TerminalDisplay.blank 1 2 ({} : Canvas)) {}).frame twoCells).2 =
      .ok false := rfl
  have second : (((lettering (TerminalDisplay.blank 1 2 ({} : Canvas)) {}).afterFrames
      twoCells 1).frame twoCells).2 = .error (.invalidOpcode { pc := 3, word := 0 }) := rfl
  refine ⟨small, unloaded, quits, ?_, stops, ?_⟩
  · obtain ⟨last, shown, pictures⟩ := (shown_is_stored Stage.showing [0x7de1, 0x8000, 0xf041]
      { screen := .blank 1 2 } PlannedKeys.quitting twoCells rfl rfl trivial small unloaded).1 1
      quits (by decide)
    exact ⟨last, shown, pictures.cells 0 (by decide) 0 (by decide)⟩
  · obtain ⟨k, begins, fails, -, upToDate⟩ := (shown_is_stored
      (TerminalDisplay.showing Canvas.shown? Canvas.shown?_draw) [0x7de1, 0x8000, 0xf041]
      (TerminalDisplay.blank 1 2 {}) ({} : PlannedKeys) twoCells rfl rfl nofun small unloaded).2 _
      stops
    match k with
    | 0 => cases first.symm.trans fails
    | 1 =>
        obtain ⟨last, shown, pictures⟩ := upToDate (by decide)
        exact ⟨last, shown, pictures.cells 0 (by decide) 0 (by decide)⟩
    | k + 2 => cases second.symm.trans (begins.2 1 (by omega))

end Console
end Dcpu
