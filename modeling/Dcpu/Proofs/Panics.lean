import Dcpu.Proofs.Faultless

/-! # Where a console ends at once

A console watches its numbers, too. Those of its own stay in their bounds: the slice of a frame
because the loop ends when nothing is left to run, and the count of instructions because it ends
before the count leaves its width. So a run of a console ends at once only where a frame refreshes its
display and the display does so, and that is at a terminal display whose box does not fit.
-/

namespace Dcpu

namespace Console

variable {δ κ : Type} [Display δ]

/-- The display that is refreshed after so many instructions, if none of them fails. -/
def refreshedAfter? (console : Console δ κ) (slice : Nat) : Option δ :=
  match Memory.steps console.machine slice with
  | (machine, .ok ()) => some machine.display
  | (_, .error _) => none

theorem isSome_refreshedAfter? {console : Console δ κ} {slice : Nat}
    (fine : (console.advance slice).2 = .ok ()) : (console.refreshedAfter? slice).isSome := by
  rw [advance_eq] at fine
  rw [refreshedAfter?]
  rcases ran : Memory.steps console.machine slice with ⟨machine, fault | ⟨⟩⟩
  · simp only [ran] at fine
    cases fine
  · rfl

/-- The display that is refreshed once the keys of a poll are pushed, if it comes to that. -/
def refreshedOn? (settings : Settings) (console : Console δ κ) (keys : List Key) : Option δ :=
  match console.press keys with
  | (pressed, .ok false) => pressed.refreshedAfter? (settings.slice console.done)
  | _ => none

theorem refreshedOn?_of_pressed {settings : Settings} {console : Console δ κ} {keys : List Key}
    (pressed : (console.press keys).2 = .ok false) :
    console.refreshedOn? settings keys =
      (console.press keys).1.refreshedAfter? (settings.slice console.done) := by
  have press : console.press keys = ((console.press keys).1, .ok false) := Prod.ext rfl pressed
  rw [refreshedOn?, press]

theorem refreshedOn?_of_stopped {settings : Settings} {console : Console δ κ} {keys : List Key}
    (stopped : (console.press keys).2 ≠ .ok false) : console.refreshedOn? settings keys = none := by
  rw [refreshedOn?]
  split
  · rename_i pressed
    exact absurd (congrArg Prod.snd pressed) stopped
  · rfl

/-- The display that is refreshed in the next frame, as it is then, if the frame comes to that. -/
def refreshed? [Keyboard κ] (settings : Settings) (console : Console δ κ) : Option δ :=
  match (Keyboard.poll console.keyboard).2 with
  | .ok keys => console.polled.refreshedOn? settings keys
  | .error _ => none

section Stable

variable [Keyboard κ] {P : Wired δ → Prop} (stable : Memory.Stable P) {settings : Settings}
  {console : Console δ κ}
include stable

theorem Plays.keeps {events : List Event} {answer : Bool}
    {ended : Console δ κ × Except Error Bool} (plays : console.Plays events answer ended)
    (refreshed : .refresh ∈ events → ∀ machine : Wired δ, P machine → P machine.refresh.1)
    (holds : P console.machine) : P ended.1.machine := by
  have same : ended.1.machine = _ := congrArg Devices.machine plays.devices
  rw [same]
  exact Devices.performAll_stable stable refreshed holds

/-- What every store keeps still holds when a frame comes to its refresh. -/
theorem refreshed?_stable (holds : P console.machine) {display : δ}
    (comes : console.refreshed? settings = some display) :
    ∃ machine, P machine ∧ machine.display = display := by
  rw [refreshed?] at comes
  split at comes
  · rename_i keys polled
    have pressed : P (console.polled.press keys).1.machine :=
      (console.polled.press_plays keys).keeps stable (fun member => by simp at member) holds
    by_cases goesOn : (console.polled.press keys).2 = .ok false
    · rw [refreshedOn?_of_pressed goesOn, refreshedAfter?] at comes
      split at comes
      · rename_i machine stepped
        have kept := stable.steps pressed (settings.slice console.polled.done)
        rw [stepped] at kept
        exact ⟨machine, kept, Option.some.inj comes⟩
      · cases comes
    · rw [refreshedOn?_of_stopped goesOn] at comes
      cases comes
  · cases comes

theorem afterFrames_stable (refreshed : ∀ machine : Wired δ, P machine → P machine.refresh.1)
    (holds : P console.machine) (count : Nat) : P (console.afterFrames settings count).machine := by
  induction count with
  | zero => exact holds
  | succ count ih =>
      exact ((console.afterFrames settings count).frame_plays settings).keeps stable
        (fun _ => refreshed) ih

end Stable

/-- A frame that goes on has come to its refresh. -/
theorem GoesOn.refreshed? [Keyboard κ] {settings : Settings} {console : Console δ κ}
    (goesOn : console.GoesOn settings) : (console.refreshed? settings).isSome := by
  rw [GoesOn, frame_eq] at goesOn
  rw [Console.refreshed?]
  cases polled : (Keyboard.poll console.keyboard).2 with
  | error cause =>
      simp only [polled] at goesOn
      cases goesOn
  | ok keys =>
      simp only [polled] at goesOn ⊢
      by_cases pressed : (console.polled.press keys).2 = .ok false
      · rw [proceed_of_pressed pressed] at goesOn
        rw [refreshedOn?_of_pressed pressed]
        exact isSome_refreshedAfter? (Devices.map_eq_ok_iff.mp goesOn).1
      · rw [proceed_of_stopped pressed] at goesOn
        exact absurd goesOn pressed

end Console

/-- A console whose ring is known by the number of its next slot. -/
structure GuardedConsole (δ κ : Type) where
  machine : Wired δ
  keyboard : κ
  next : Word := 0
  done : Nat := 0

namespace Guarded

open Checked

variable {δ κ : Type}

def watched (console : Console δ κ) : GuardedConsole δ κ where
  machine := console.machine
  keyboard := console.keyboard
  next := counter console.ring
  done := console.done

section Loop

variable [GuardedDisplay δ]

def press (console : GuardedConsole δ κ) :
    List Key → Checked (GuardedConsole δ κ × Except Error Bool)
  | [] => return (console, .ok false)
  | .quit :: _ => return (console, .ok true)
  | .code code :: rest => do
      match ← push console.next console.machine code with
      | ((next, machine), .ok _) => press { console with machine, next } rest
      | ((next, machine), .error cause) =>
          return ({ console with machine, next }, .error (.display cause))

def stepsPerFrame (settings : Settings) : Checked Nat :=
  return max (← div settings.clockHz Settings.framesPerSecond) 1

def advance (console : GuardedConsole δ κ) (slice : Nat) :
    Checked (GuardedConsole δ κ × Except Error Unit) := do
  match ← run console.machine slice with
  | (machine, .error fault) => return ({ console with machine }, .error (.ofFault fault))
  | (machine, .ok count) =>
      let done ← add 64 console.done count
      match ← GuardedDisplay.refresh machine.display with
      | (display, .ok ()) =>
          return ({ console with machine := { machine with display }, done }, .ok ())
      | (display, .error cause) =>
          return ({ console with machine := { machine with display }, done },
            .error (.display cause))

/-- What a console does in a frame with the keys of its poll. -/
def proceed (settings : Settings) (console : GuardedConsole δ κ) (keys : List Key) :
    Checked (GuardedConsole δ κ × Except Error Bool) := do
  match ← press console keys with
  | (console, .ok false) =>
      let slice := min (← stepsPerFrame settings) (← sub settings.steps console.done)
      let (console, result) ← advance console slice
      return (console, result.map fun () => false)
  | stopped => return stopped

variable [Keyboard κ]

def frame (settings : Settings) (console : GuardedConsole δ κ) :
    Checked (GuardedConsole δ κ × Except Error Bool) :=
  match Keyboard.poll console.keyboard with
  | (keyboard, .error cause) => return ({ console with keyboard }, .error (.io cause))
  | (keyboard, .ok keys) => proceed settings { console with keyboard } keys

/-- Go on for so many turns of the loop of a console, or to its end. There is no answer if it has
    not come to its end. -/
def turns (settings : Settings) :
    Nat → GuardedConsole δ κ → Checked (GuardedConsole δ κ × Option (Except Error Nat))
  | 0, console => return (console, none)
  | count + 1, console => do
      if console.done < settings.steps then
        match ← frame settings console with
        | (console, .ok false) => turns settings count console
        | (console, .ok true) => return (console, some (.ok console.done))
        | (console, .error cause) => return (console, some (.error cause))
      else return (console, some (.ok console.done))

/-- Give an answer, if the refresh on the way to it does not end at once. -/
def refreshing {α : Type} : Option δ → α → Checked α
  | none, answer => return answer
  | some display, answer => do
      let _ ← GuardedDisplay.refresh display
      return answer

end Loop

section Frames

variable [GuardedDisplay δ]

theorem refreshing_bind {α β : Type} (refreshed : Option δ) (answer : α) (next : α → β) :
    (refreshing refreshed answer >>= fun given => pure (next given)) =
      refreshing refreshed (next answer) := by
  cases refreshed with
  | none => rfl
  | some display => exact bind_assoc ..

theorem refreshing_eq_error_iff {α : Type} (refreshed : Option δ) (answer : α) (panic : Panic) :
    refreshing refreshed answer = .error panic ↔
      ∃ display, refreshed = some display ∧ GuardedDisplay.refresh display = .error panic := by
  cases refreshed with
  | none => exact iff_of_false nofun fun ⟨_, comes, _⟩ => nomatch comes
  | some display =>
      rw [refreshing, bind_pure_eq_error_iff]
      simp only [Option.some.injEq, exists_eq_left']

theorem refreshing_of_unbroken {α : Type} {refreshed : Option δ}
    (unbroken : ∀ panic, ¬ ∃ display, refreshed = some display ∧
      GuardedDisplay.refresh display = .error panic)
    (answer : α) : refreshing refreshed answer = pure answer := by
  simp only [← refreshing_eq_error_iff refreshed answer] at unbroken
  cases refreshed with
  | none => rfl
  | some display =>
      rcases given : GuardedDisplay.refresh display with panic | after
      · rw [refreshing, given] at unbroken
        exact absurd rfl (unbroken panic)
      · rw [refreshing, given]
        rfl

variable [Display δ] [FaithfulDisplay δ]

theorem press_eq (console : Console δ κ) (keys : List Key) :
    press (watched console) keys =
      pure (watched (console.press keys).1, (console.press keys).2) := by
  induction keys generalizing console with
  | nil => rfl
  | cons key rest ih =>
      cases key with
      | quit => rfl
      | code code =>
          have pushed : push (watched console).next (watched console).machine code =
              pure ((counter (console.pushed code).ring, (console.pushed code).machine),
                (console.ring.push console.machine code).2) :=
            push_eq console.ring console.machine code
          rw [press, pushed, pure_bind, Console.press_code]
          cases (console.ring.push console.machine code).2 with
          | ok => exact ih (console.pushed code)
          | error cause => rfl

omit [GuardedDisplay δ] [Display δ] [FaithfulDisplay δ] in
theorem stepsPerFrame_eq (settings : Settings) :
    stepsPerFrame settings = pure settings.stepsPerFrame := by
  rw [stepsPerFrame, div_of_pos (by decide), pure_bind]
  rfl

theorem advance_eq (console : Console δ κ) {slice : Nat}
    (fits : console.done + slice < 1 <<< 64) :
    advance (watched console) slice =
      refreshing (console.refreshedAfter? slice)
        (watched (console.advance slice).1, (console.advance slice).2) := by
  have ran : run (watched console).machine slice = pure (Memory.run console.machine slice) :=
    run_eq console.machine slice
  have counts : add 64 (watched console).done slice = pure (console.done + slice) := add_of_lt fits
  rw [advance, ran, pure_bind, Console.advance_eq, Memory.run, Console.refreshedAfter?]
  rcases Memory.steps console.machine slice with ⟨machine, fault | ⟨⟩⟩
  · rfl
  · simp only [Except.map, counts, pure_bind, refreshing]
    rcases answer : GuardedDisplay.refresh machine.display with panic | given
    · rfl
    · obtain rfl := FaithfulDisplay.refresh machine.display given answer
      rw [Wired.refresh]
      rcases Display.refresh machine.display with ⟨display, cause | ⟨⟩⟩ <;> rfl

theorem proceed_eq (console : Console δ κ) {settings : Settings}
    (more : console.done ≤ settings.steps) (counted : settings.steps < 1 <<< 64)
    (keys : List Key) :
    proceed settings (watched console) keys =
      refreshing (console.refreshedOn? settings keys)
        (watched (console.proceed settings keys).1, (console.proceed settings keys).2) := by
  have done : (console.press keys).1.done = console.done := console.press_done keys
  rw [proceed, press_eq, pure_bind]
  by_cases pressed : (console.press keys).2 = .ok false
  · have left : sub settings.steps (watched (console.press keys).1).done =
        pure (settings.steps - console.done) := by
      rw [← done] at more ⊢
      exact sub_of_le more
    have within : (console.press keys).1.done + settings.slice console.done < 1 <<< 64 := by
      rw [done, Settings.slice]
      omega
    have advanced := advance_eq (console.press keys).1 within
    rw [Settings.slice] at advanced
    rw [Console.proceed_of_pressed pressed, Console.refreshedOn?_of_pressed pressed]
    simp only [pressed, stepsPerFrame_eq, left, pure_bind, advanced]
    exact refreshing_bind ..
  · rw [Console.proceed_of_stopped pressed, Console.refreshedOn?_of_stopped pressed]
    split
    · rename_i stopped
      exact absurd (congrArg Prod.snd stopped) pressed
    · rfl

variable [Keyboard κ]

theorem frame_eq (console : Console δ κ) {settings : Settings}
    (more : console.done ≤ settings.steps) (counted : settings.steps < 1 <<< 64) :
    frame settings (watched console) =
      refreshing (console.refreshed? settings)
        (watched (console.frame settings).1, (console.frame settings).2) := by
  have polled : Keyboard.poll (watched console).keyboard = Keyboard.poll console.keyboard := rfl
  rw [frame, polled, Console.frame_eq, Console.refreshed?]
  rcases answer : Keyboard.poll console.keyboard with ⟨keyboard, cause | keys⟩
  · simp only [Console.polled, answer]
    rfl
  · have same : { watched console with keyboard } = watched console.polled := by
      simp only [watched, Console.polled, answer]
    simp only [same]
    exact proceed_eq console.polled more counted keys

end Frames

section Runs

variable [GuardedDisplay δ] [Keyboard κ] {settings : Settings}

theorem turns_of_spent {console : Console δ κ} (spent : ¬ console.done < settings.steps)
    (count : Nat) :
    turns settings (count + 1) (watched console) =
      pure (watched console, some (.ok console.done)) := by
  have left : ¬ (watched console).done < settings.steps := spent
  rw [turns, if_neg left]
  rfl

variable [Display δ]

/-- A frame ends at once where it refreshes its display. -/
def BreaksOff (settings : Settings) (console : Console δ κ) (panic : Panic) : Prop :=
  ∃ display, console.refreshed? settings = some display ∧
    GuardedDisplay.refresh display = .error panic

/-- A frame that there is an instruction left for, and that has a next frame after it. -/
structure Passes (settings : Settings) (console : Console δ κ) : Prop where
  more : console.done < settings.steps
  goesOn : console.GoesOn settings
  unbroken : ∀ panic, ¬ BreaksOff settings console panic

/-- The first of the frames of a run that ends at once. -/
structure FirstBreak (settings : Settings) (start : Console δ κ) (k : Nat) (panic : Panic) :
    Prop where
  begins : start.Begins settings k
  before : ∀ i < k, ∀ other, ¬ BreaksOff settings (start.afterFrames settings i) other
  breaks : BreaksOff settings (start.afterFrames settings k) panic

/-- Where a frame ends at once, one of them is the first. -/
theorem unbroken_of_no_first {start : Console δ κ}
    (none : ∀ k panic, ¬ FirstBreak settings start k panic) (k : Nat)
    (begins : start.Begins settings k) (panic : Panic) :
    ¬ BreaksOff settings (start.afterFrames settings k) panic := by
  induction k using Nat.strongRecOn generalizing panic with
  | ind k ih =>
      intro breaks
      refine none k panic ⟨begins, fun i lt other => ?_, breaks⟩
      exact ih i lt (begins.mono (Nat.le_of_lt lt)) other

variable [FaithfulDisplay δ] (counted : settings.steps < 1 <<< 64)
include counted

section Turn

variable {console : Console δ κ} (more : console.done < settings.steps)
include more

theorem turns_of_breaksOff {panic : Panic} (breaks : BreaksOff settings console panic)
    (count : Nat) : turns settings (count + 1) (watched console) = .error panic := by
  have left : (watched console).done < settings.steps := more
  have broken := (refreshing_eq_error_iff (console.refreshed? settings)
    (watched (console.frame settings).1, (console.frame settings).2) panic).mpr breaks
  rw [turns, if_pos left, frame_eq console (Nat.le_of_lt more) counted, broken]
  rfl

/-- A turn goes through a frame if there is an instruction left for it. -/
theorem turns_of_more (unbroken : ∀ panic, ¬ BreaksOff settings console panic) (count : Nat) :
    turns settings (count + 1) (watched console) =
      let ended := console.frame settings
      match ended.2 with
      | .ok false => turns settings count (watched ended.1)
      | .ok true => pure (watched ended.1, some (.ok ended.1.done))
      | .error cause => pure (watched ended.1, some (.error cause)) := by
  have left : (watched console).done < settings.steps := more
  rw [turns, if_pos left, frame_eq console (Nat.le_of_lt more) counted,
    refreshing_of_unbroken unbroken, pure_bind]
  rcases console.frame settings with ⟨after, cause | _ | _⟩ <;> rfl

/-- The loop ends with a frame that does not go on. -/
theorem turns_of_stops (unbroken : ∀ panic, ¬ BreaksOff settings console panic)
    (stops : ¬ console.GoesOn settings) (count : Nat) :
    turns settings (count + 1) (watched console) =
      let ended := console.frame settings
      pure (watched ended.1, some (ended.2.map fun _ => ended.1.done)) := by
  rw [turns_of_more counted more unbroken]
  cases answer : (console.frame settings).2 with
  | error cause =>
      simp only [answer]
      rfl
  | ok quit =>
      cases quit with
      | true =>
          simp only [answer]
          rfl
      | false => exact absurd answer stops

end Turn

/-- Where a turn ends at once, it does so in its own frame, unless the frame passes. -/
theorem breaksOff_of_turns_eq_error {console : Console δ κ} {count : Nat} {panic : Panic}
    (ended : turns settings (count + 1) (watched console) = .error panic)
    (stops : ¬ Passes settings console) :
    console.done < settings.steps ∧ BreaksOff settings console panic := by
  by_cases more : console.done < settings.steps
  · by_cases broken : ∃ other, BreaksOff settings console other
    · obtain ⟨other, breaks⟩ := broken
      rw [turns_of_breaksOff counted more breaks] at ended
      obtain rfl := Except.error.inj ended
      exact ⟨more, breaks⟩
    · have unbroken := not_exists.mp broken
      rw [turns_of_stops counted more unbroken fun goesOn => stops ⟨more, goesOn, unbroken⟩] at ended
      cases ended
  · rw [turns_of_spent more] at ended
    cases ended

section Start

variable {start : Console δ κ} {k : Nat}

theorem turns_of_passes (passes : ∀ i < k, Passes settings (start.afterFrames settings i))
    (count : Nat) :
    turns settings (k + count) (watched start) =
      turns settings count (watched (start.afterFrames settings k)) := by
  induction k generalizing count with
  | zero => rw [Nat.zero_add, Console.afterFrames]
  | succ k ih =>
      obtain ⟨more, goesOn, unbroken⟩ := passes k (Nat.lt_succ_self k)
      rw [Console.GoesOn] at goesOn
      rw [Nat.succ_add, ← Nat.add_succ, ih fun i lt => passes i (Nat.lt_succ_of_lt lt),
        turns_of_more counted more unbroken, Console.afterFrames]
      simp only [goesOn]

variable (fresh : start.done = 0)
include fresh

omit [FaithfulDisplay δ] counted in
/-- The frames before one that begins pass if none of them ends at once. -/
theorem passes_of_begins (begins : start.Begins settings k)
    (unbroken : ∀ i < k, ∀ panic, ¬ BreaksOff settings (start.afterFrames settings i) panic) :
    ∀ i < k, Passes settings (start.afterFrames settings i) := by
  intro i lt
  exact ⟨(begins.mono (Nat.le_of_lt lt)).more fresh, begins.2 i lt, unbroken i lt⟩

/-- A run ends at once where the first of its frames does, and in no other way. -/
theorem turns_eq_error_iff (count : Nat) (panic : Panic) :
    turns settings count (watched start) = .error panic ↔
      ∃ k < count, FirstBreak settings start k panic := by
  constructor
  · intro ended
    rcases all_or_first (fun i => Passes settings (start.afterFrames settings i)) count with
      all | ⟨k, lt, passes, stops⟩
    · have through := turns_of_passes counted all 0
      rw [Nat.add_zero, ended] at through
      cases through
    · obtain ⟨rest, rfl⟩ : ∃ rest, count = k + (rest + 1) := ⟨count - k - 1, by omega⟩
      rw [turns_of_passes counted passes] at ended
      obtain ⟨more, breaks⟩ := breaksOff_of_turns_eq_error counted ended stops
      have goesOn (i : Nat) (lt : i < k) := (passes i lt).goesOn
      have done := (Console.arrivesAt fresh goesOn).done
      rw [Settings.doneBefore] at done
      exact ⟨k, lt, ⟨by omega, goesOn⟩, fun i lt => (passes i lt).unbroken, breaks⟩
  · rintro ⟨k, lt, first⟩
    obtain ⟨rest, rfl⟩ : ∃ rest, count = k + (rest + 1) := ⟨count - k - 1, by omega⟩
    rw [turns_of_passes counted (passes_of_begins fresh first.begins first.before)]
    exact turns_of_breaksOff counted (first.begins.more fresh) first.breaks rest

/-- A run in which no frame ends at once gives what it gives without watching. -/
theorem exists_turns_eq_run (none : ∀ k panic, ¬ FirstBreak settings start k panic) :
    ∃ count, turns settings count (watched start) =
      .ok (watched (start.run settings).1, some (start.run settings).2) := by
  have unbroken := unbroken_of_no_first none
  rcases all_or_first (fun i => (start.afterFrames settings i).GoesOn settings) settings.frames with
    goesOn | ⟨k, lt, goesOn, stops⟩
  · have passes (i : Nat) (lt : i < settings.frames) :
        Passes settings (start.afterFrames settings i) := by
      have begins : start.Begins settings i :=
        ⟨(settings.lt_frames_iff i).mp lt, fun j lt_i => goesOn j (Nat.lt_trans lt_i lt)⟩
      exact ⟨begins.more fresh, goesOn i lt, unbroken i begins⟩
    have spent : ¬ (start.afterFrames settings settings.frames).done < settings.steps := by
      rw [(Console.arrivesAt fresh goesOn).done, settings.doneBefore_frames]
      exact Nat.lt_irrefl _
    refine ⟨settings.frames + 1, ?_⟩
    rw [turns_of_passes counted passes, turns_of_spent spent, Console.run_of_all_goOn goesOn]
    rfl
  · have begins : start.Begins settings k := ⟨(settings.lt_frames_iff k).mp lt, goesOn⟩
    have passes := passes_of_begins fresh begins fun i lt =>
      unbroken i (begins.mono (Nat.le_of_lt lt))
    refine ⟨k + 1, ?_⟩
    rw [turns_of_passes counted passes,
      turns_of_stops counted (begins.more fresh) (unbroken k begins) stops,
      Console.run_of_begins begins stops]
    rfl

end Start
end Runs

section Terminals

open AskingTerminal

variable {τ : Type} [Terminal τ]

theorem stable_geometry (rows columns : Nat) :
    Memory.Stable fun machine : Wired (TerminalDisplay τ) =>
      machine.display.screen.rows = rows ∧ machine.display.screen.columns = columns := by
  rintro machine address value ⟨sameRows, sameColumns⟩
  rw [Wired.store_display]
  cases machine.videoOffset? address with
  | none => exact ⟨sameRows, sameColumns⟩
  | some offset =>
      simp only [(machine.display.write_screen offset value).1]
      exact ⟨(machine.display.screen.put_rows ..).trans sameRows,
        (machine.display.screen.put_columns ..).trans sameColumns⟩

/-- No store draws. -/
theorem stable_undrawn (terminal : τ) :
    Memory.Stable fun machine : Wired (TerminalDisplay τ) =>
      machine.display.dirty = true ∧ machine.display.terminal = terminal := by
  rintro machine address value ⟨dirty, same⟩
  rw [Wired.store_display]
  cases machine.videoOffset? address with
  | none => exact ⟨dirty, same⟩
  | some offset =>
      exact ⟨(machine.display.dirty_write offset value).mpr (.inl dirty),
        (machine.display.write_terminal offset value).trans same⟩

variable [Keyboard κ] {settings : Settings}

theorem geometry_afterFrames (start : Console (TerminalDisplay τ) κ) (k : Nat) :
    (start.afterFrames settings k).machine.display.screen.rows =
        start.machine.display.screen.rows ∧
      (start.afterFrames settings k).machine.display.screen.columns =
        start.machine.display.screen.columns := by
  refine Console.afterFrames_stable (stable_geometry _ _) ?_ ⟨rfl, rfl⟩ k
  intro machine same
  have kept : machine.refresh.1.display.screen = machine.display.screen :=
    machine.display.refresh_screen
  rw [kept]
  exact same

/-- Whatever a frame refreshes, it has the size that it had in the beginning. -/
theorem geometry_refreshed? {start : Console (TerminalDisplay τ) κ} {k : Nat}
    {display : TerminalDisplay τ}
    (comes : (start.afterFrames settings k).refreshed? settings = some display) :
    display.screen.rows = start.machine.display.screen.rows ∧
      display.screen.columns = start.machine.display.screen.columns := by
  obtain ⟨machine, same, rfl⟩ :=
    Console.refreshed?_stable (stable_geometry _ _) (geometry_afterFrames start k) comes
  exact same

variable [AskingTerminal τ] (counted : settings.steps < 1 <<< 64) {rows columns : Nat}
  (fits : rows * columns < 1 <<< 64) (held : rows < 1 <<< 64)
include counted fits held

/-- On a terminal that asks for its first picture, a run ends at once where its first frame comes to
    its refresh, if the box of the screen does not fit, and nowhere else. -/
theorem turns_terminal_eq_error_iff {terminal : τ} (asking : asks terminal = true)
    (program : List Word) (keyboard : κ) (count : Nat) (panic : Panic) :
    let start := Console.boot program (TerminalDisplay.blank rows columns terminal) keyboard settings
    turns settings count (watched start) = .error panic ↔
      0 < count ∧ 0 < settings.steps ∧ (start.refreshed? settings).isSome ∧
        ¬ BoxFits rows columns ∧ panic = .overflow := by
  intro start
  have breaks {k : Nat} {display : TerminalDisplay τ}
      (comes : (start.afterFrames settings k).refreshed? settings = some display) (other : Panic) :
      GuardedDisplay.refresh display = .error other ↔ display.dirty = true ∧
        asks display.terminal = true ∧ ¬ BoxFits rows columns ∧ other = .overflow := by
    obtain ⟨sameRows, sameColumns⟩ : display.screen.rows = rows ∧ display.screen.columns = columns :=
      geometry_refreshed? comes
    rw [← sameRows, ← sameColumns] at fits ⊢
    rw [← sameRows] at held
    exact refresh_eq_error_iff fits held other
  rw [turns_eq_error_iff counted rfl]
  constructor
  · rintro ⟨k, lt, begins, -, display, comes, broken⟩
    obtain ⟨-, -, wide, rfl⟩ := (breaks comes panic).mp broken
    refine ⟨Nat.zero_lt_of_lt lt, Nat.zero_lt_of_lt begins.1, ?_, wide, rfl⟩
    -- A later frame begins only if the first has gone on, past its refresh.
    cases k with
    | zero =>
        rw [Console.afterFrames] at comes
        rw [comes]
        rfl
    | succ k => exact (begins.2 0 (Nat.succ_pos k)).refreshed?
  · rintro ⟨some, steps, comes, wide, rfl⟩
    obtain ⟨display, comes⟩ := Option.isSome_iff_exists.mp comes
    have begins : start.Begins settings 0 :=
      ⟨by rw [Nat.zero_mul]; exact steps, fun i lt => absurd lt (Nat.not_lt_zero i)⟩
    refine ⟨0, some, begins, fun i lt => absurd lt (Nat.not_lt_zero i), display, comes, ?_⟩
    have broken := (breaks (k := 0) comes .overflow).mpr
    obtain ⟨machine, ⟨dirty, same⟩, rfl⟩ :=
      Console.refreshed?_stable (stable_undrawn terminal) ⟨rfl, rfl⟩ comes
    exact broken ⟨dirty, by rw [same]; exact asking, wide, rfl⟩

end Terminals

/-- Nothing that is watched comes up but the size of a box: not for the processor and the ring on a
    memory of their own or on a machine, not for a new ring after whatever keys, not for a screen of
    whatever size, and not for a console before it refreshes its display. A run ends at once with the
    first frame whose refresh does so, and otherwise gives what it gives without watching. Of the
    displays only those on a terminal ever do so, where the sides of their box do not fit. -/
theorem panics_only_at_boxes {δ κ τ : Type} [Display δ] [GuardedDisplay δ] [FaithfulDisplay δ]
    [Keyboard κ] [Terminal τ] [AskingTerminal τ] (settings : Settings)
    (fits : settings.rows * settings.columns < 1 <<< 64) (rows : settings.rows < 1 <<< 64)
    (counted : settings.steps < 1 <<< 64) :
    (∀ s : State, Serves s) ∧
    (∀ machine : Wired δ, Serves machine) ∧
    (∀ next, Reached next → ∃ ring, next = counter ring) ∧
    blank settings.rows settings.columns = .ok (.blank settings.rows settings.columns) ∧
    -- a console with whatever display and keyboard
    (∀ (program : List Word) (display : δ) (keyboard : κ),
      let start := Console.boot program display keyboard settings
      boot program display settings = .ok start.machine ∧
      (∀ count panic, turns settings count (watched start) = .error panic ↔
        ∃ k < count, FirstBreak settings start k panic) ∧
      ((∀ k panic, ¬ FirstBreak settings start k panic) →
        ∃ count, turns settings count (watched start) =
          .ok (watched (start.run settings).1, some (start.run settings).2))) ∧
    -- the refreshes of the displays
    (∀ display : NoDisplay, GuardedDisplay.refresh display = .ok (Display.refresh display)) ∧
    (∀ display : Recorder, GuardedDisplay.refresh display = .ok (Display.refresh display)) ∧
    (∀ display : TextScreen, GuardedDisplay.refresh display = .ok (Display.refresh display)) ∧
    (∀ screen : TextScreen, screen.rows = settings.rows → screen.columns = settings.columns →
      Shows screen ∧
      ∀ (terminal : τ) (dirty : Bool) (panic : Panic),
        GuardedDisplay.refresh ({ screen, terminal, dirty } : TerminalDisplay τ) = .error panic ↔
          dirty = true ∧ AskingTerminal.asks terminal = true ∧
            ¬ BoxFits settings.rows settings.columns ∧ panic = .overflow) ∧
    -- a console on a terminal that asks for its first picture
    ∀ (program : List Word) (terminal : τ) (keyboard : κ), AskingTerminal.asks terminal = true →
      let display := TerminalDisplay.blank settings.rows settings.columns terminal
      let start := Console.boot program display keyboard settings
      ∀ count panic, turns settings count (watched start) = .error panic ↔
        0 < count ∧ 0 < settings.steps ∧ (start.refreshed? settings).isSome ∧
          ¬ BoxFits settings.rows settings.columns ∧ panic = .overflow := by
  refine ⟨serves, serves, fun next => Reached.exists_ring, ?_, ?_, fun _ => rfl, fun _ => rfl,
    fun _ => rfl, ?_, ?_⟩
  · rw [blank, mul_of_lt fits]
    rfl
  · exact fun program display keyboard => ⟨boot_eq program display fits,
      turns_eq_error_iff counted rfl, exists_turns_eq_run counted rfl⟩
  · intro screen sameRows sameColumns
    rw [← sameRows, ← sameColumns] at fits ⊢
    rw [← sameRows] at rows
    exact ⟨shows fits rows, fun terminal dirty => refresh_eq_error_iff fits rows⟩
  · exact fun program terminal keyboard asking =>
      turns_terminal_eq_error_iff counted fits rows asking program keyboard

/-- A screen of one row, and a console that runs three instructions on it. -/
def oneRow : Settings where
  rows := 1
  columns := 2
  steps := 3

theorem panics_only_at_boxes_oneRow :
    let start := Console.boot [0x85e1, 0x8001] (TextScreen.blank 1 2) PlannedKeys.quitting oneRow
    let drawn := Console.boot [0x85e1, 0x8001] (TerminalDisplay.blank 1 2 ({} : Canvas))
      PlannedKeys.quitting oneRow
    oneRow.rows * oneRow.columns < 1 <<< 64 ∧ oneRow.rows < 1 <<< 64 ∧ oneRow.steps < 1 <<< 64 ∧
    step start.machine = .ok (Memory.step start.machine) ∧ Shows (.blank 1 2) ∧
    (∃ count ended, turns oneRow count (watched start) = .ok (ended, some (start.run oneRow).2)) ∧
    AskingTerminal.asks ({} : Canvas) = true ∧
    ∀ count panic, turns oneRow count (watched drawn) ≠ .error panic := by
  intro start drawn
  have fits : oneRow.rows * oneRow.columns < 1 <<< 64 := by decide
  have rows : oneRow.rows < 1 <<< 64 := by decide
  have counted : oneRow.steps < 1 <<< 64 := by decide
  have asking : AskingTerminal.asks ({} : Canvas) = true := rfl
  obtain ⟨-, serves, -, -, runs, -, -, steady, shows, draws⟩ :=
    @panics_only_at_boxes TextScreen PlannedKeys Canvas _ _ _ _ _ _ oneRow fits rows counted
  obtain ⟨-, -, ends⟩ := runs [0x85e1, 0x8001] (TextScreen.blank 1 2) PlannedKeys.quitting
  obtain ⟨count, ended⟩ := ends fun k panic first => by
    obtain ⟨display, -, broken⟩ := first.breaks
    rw [steady] at broken
    cases broken
  refine ⟨fits, rows, counted, (serves start.machine).step, (shows _ rfl rfl).1,
    ⟨count, _, ended⟩, asking, fun count panic broken => ?_⟩
  obtain ⟨-, -, -, wide, -⟩ :=
    (draws [0x85e1, 0x8001] {} PlannedKeys.quitting asking count panic).mp broken
  exact wide ⟨by decide, by decide⟩

/-- A screen whose only row is just too long for its box. -/
def wideRow : Settings where
  rows := 1
  columns := 65534
  steps := 1

/-- One instruction runs, which is fine, and the first refresh behind it ends the run at once. -/
theorem wide_row_panics :
    let start := Console.boot [0x8001] (TerminalDisplay.blank 1 65534 ({} : Canvas))
      ({} : PlannedKeys) wideRow
    wideRow.rows * wideRow.columns < 1 <<< 64 ∧
      turns wideRow 1 (watched start) = .error .overflow := by
  intro start
  have counted : wideRow.steps < 1 <<< 64 := by decide
  have fits : 1 * 65534 < 1 <<< 64 := by decide
  have asking : AskingTerminal.asks ({} : Canvas) = true := rfl
  have wide : ¬ BoxFits 1 65534 := fun box => absurd box.1 (by decide)
  have broken := turns_terminal_eq_error_iff counted fits (by decide) asking [0x8001]
    ({} : PlannedKeys) 1 .overflow
  exact ⟨fits, broken.mpr ⟨by decide, by decide, rfl, wide, rfl⟩⟩

end Guarded
end Dcpu
