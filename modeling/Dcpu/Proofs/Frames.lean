import Dcpu.Proofs.Events

/-! # How a run goes through its frames

A frame goes on to the next one if nobody quits in it and nothing fails. While frames go on, each of
them finds the counters where the ones before it left them, and each runs at least one instruction,
so a run comes to its end. It ends in one of three ways: with its last instruction, in a frame in
which the user quits, or with the first event that fails.
-/

namespace Dcpu

universe u v

variable {δ : Type u} {κ : Type v}

/-- A keyboard that hands over its keys as planned, and none after that. -/
structure PlannedKeys where
  polls : List (List Key) := []

namespace PlannedKeys

instance : Keyboard PlannedKeys where
  poll keyboard := ({ polls := keyboard.polls.tail }, .ok (keyboard.polls.headD []))

def quitting : PlannedKeys where
  polls := [[.code 65], [.code 66, .quit, .code 67]]

end PlannedKeys

namespace Console

open Devices

variable [Display δ] [Keyboard κ]

/-- Whether a console has a next frame after this one, if there is an instruction left. -/
def GoesOn (settings : Settings) (console : Console δ κ) : Prop :=
  (console.frame settings).2 = .ok false

theorem not_goesOn_of_quits {settings : Settings} {console : Console δ κ}
    (quits : (console.frame settings).2 = .ok true) : ¬ console.GoesOn settings := by
  rw [GoesOn, quits]
  exact nofun

theorem not_goesOn_of_fails {settings : Settings} {console : Console δ κ} {cause : Error}
    (fails : (console.frame settings).2 = .error cause) : ¬ console.GoesOn settings := by
  rw [GoesOn, fails]
  exact nofun

/-- A console after so many frames, each begun whatever the one before it reported. -/
def afterFrames (settings : Settings) (console : Console δ κ) : Nat → Console δ κ
  | 0 => console
  | count + 1 => ((afterFrames settings console count).frame settings).1

/-- The loop of a console, without a bound on its frames. -/
inductive Loop (settings : Settings) : Console δ κ → Console δ κ × Except Error Nat → Prop
  | finished {console} (spent : ¬ console.done < settings.steps) :
      Loop settings console (console, .ok console.done)
  | quit {console} (more : console.done < settings.steps)
      (quits : (console.frame settings).2 = .ok true) :
      Loop settings console
        ((console.frame settings).1, .ok (console.frame settings).1.done)
  | failed {console} {cause} (more : console.done < settings.steps)
      (fails : (console.frame settings).2 = .error cause) :
      Loop settings console ((console.frame settings).1, .error cause)
  | next {console} {result} (more : console.done < settings.steps)
      (goesOn : console.GoesOn settings)
      (rest : Loop settings (console.frame settings).1 result) :
      Loop settings console result

/-- How a console comes to a frame, counted from zero. -/
structure ArrivesAt (settings : Settings) (start : Console δ κ) (k : Nat) : Prop where
  done : (start.afterFrames settings k).done = settings.doneBefore k
  keyboard : (start.afterFrames settings k).keyboard = Keyboard.polled start.keyboard k
  happened : start.devices.performAll (Event.ofFrames settings start.keyboard k) =
    ((start.afterFrames settings k).devices, .ok ())
  unquit : ∀ i < k, .quit ∉ Keyboard.keysAt start.keyboard i

section Run

variable {settings : Settings} {start : Console δ κ} {k : Nat}

theorem ArrivesAt.plays (arrives : ArrivesAt settings start k) :
    let after := start.afterFrames settings k
    after.Plays (Event.ofFrameAt settings start.keyboard k)
      (decide (.quit ∈ Keyboard.keysAt start.keyboard k)) (after.frame settings) := by
  have plays := (start.afterFrames settings k).frame_plays settings
  rw [arrives.keyboard, arrives.done, Settings.slice_doneBefore] at plays
  exact plays

theorem ArrivesAt.next (arrives : ArrivesAt settings start k)
    (goesOn : (start.afterFrames settings k).GoesOn settings) :
    ArrivesAt settings start (k + 1) := by
  obtain ⟨devices, answer⟩ := arrives.plays
  obtain ⟨fine, unquit⟩ := map_eq_ok_iff.mp (answer.symm.trans goesOn)
  have done := ((start.afterFrames settings k).frame_done settings).1 goesOn
  constructor
  case done =>
      rw [afterFrames, done, arrives.done, Settings.slice_doneBefore,
        Settings.doneBefore_succ]
  case keyboard =>
      rw [afterFrames, frame_keyboard, arrives.keyboard, Keyboard.polled]
  case happened =>
      rw [Event.ofFrames, performAll_append_of_ok arrives.happened]
      exact Prod.ext devices.symm fine
  case unquit =>
      intro i lt
      rcases Nat.lt_succ_iff_lt_or_eq.mp lt with lt | rfl
      · exact arrives.unquit i lt
      · exact of_decide_eq_false unquit

theorem arrivesAt (fresh : start.done = 0)
    (goesOn : ∀ i < k, (start.afterFrames settings i).GoesOn settings) :
    ArrivesAt settings start k := by
  induction k with
  | zero =>
      constructor
      case done => simp only [afterFrames, fresh, Settings.doneBefore, Nat.zero_mul, Nat.min_zero]
      case keyboard => rfl
      case happened => rfl
      case unquit => exact fun i lt => absurd lt (Nat.not_lt_zero i)
  | succ k ih =>
      exact (ih fun i lt => goesOn i (Nat.lt_succ_of_lt lt)).next (goesOn k (Nat.lt_succ_self k))

theorem runFrames_succ (settings : Settings) (count : Nat) (console : Console δ κ) :
    console.runFrames settings (count + 1) =
      let ended := console.frame settings
      match ended.2 with
      | .ok false => ended.1.runFrames settings count
      | .ok true => (ended.1, .ok ended.1.done)
      | .error cause => (ended.1, .error cause) := by
  simp only [runFrames]
  split <;> rename_i ended <;> simp only [ended]

theorem runFrames_of_goesOn
    (goesOn : ∀ i < k, (start.afterFrames settings i).GoesOn settings) (count : Nat) :
    start.runFrames settings (k + count) =
      (start.afterFrames settings k).runFrames settings count := by
  induction k generalizing count with
  | zero => rw [Nat.zero_add, afterFrames]
  | succ k ih =>
      have last := goesOn k (Nat.lt_succ_self k)
      rw [GoesOn] at last
      rw [Nat.succ_add, ← Nat.add_succ, ih (fun i lt => goesOn i (Nat.lt_succ_of_lt lt)),
        runFrames_succ, afterFrames]
      simp only [last]

/-- A frame begins if there is an instruction left for it and the frames before it went on. -/
def Begins (settings : Settings) (start : Console δ κ) (k : Nat) : Prop :=
  k * settings.stepsPerFrame < settings.steps ∧
    ∀ i < k, (start.afterFrames settings i).GoesOn settings

theorem Begins.mono {i : Nat} (begins : start.Begins settings k) (le : i ≤ k) :
    start.Begins settings i := by
  have fewer : i * settings.stepsPerFrame ≤ k * settings.stepsPerFrame :=
    Nat.mul_le_mul_right _ le
  exact ⟨Nat.lt_of_le_of_lt fewer begins.1, fun j lt => begins.2 j (Nat.lt_of_lt_of_le lt le)⟩

theorem Begins.arrivesAt (begins : start.Begins settings k) (fresh : start.done = 0) :
    ArrivesAt settings start k :=
  Console.arrivesAt fresh begins.2

theorem Begins.done (begins : start.Begins settings k) (fresh : start.done = 0) :
    (start.afterFrames settings k).done = k * settings.stepsPerFrame := by
  rw [(begins.arrivesAt fresh).done, Settings.doneBefore_of_lt begins.1]

/-- There is an instruction left for a frame that begins. -/
theorem Begins.more (begins : start.Begins settings k) (fresh : start.done = 0) :
    (start.afterFrames settings k).done < settings.steps := by
  rw [begins.done fresh]
  exact begins.1

theorem run_of_all_goOn
    (goesOn : ∀ i < settings.frames, (start.afterFrames settings i).GoesOn settings) :
    start.run settings = (start.afterFrames settings settings.frames,
      .ok (start.afterFrames settings settings.frames).done) := by
  rw [run, ← Nat.add_zero settings.frames, runFrames_of_goesOn goesOn, runFrames, Nat.add_zero]

/-- A run ends with its first frame that does not go on. -/
theorem run_of_begins (begins : start.Begins settings k)
    (stops : ¬ (start.afterFrames settings k).GoesOn settings) :
    let ended := (start.afterFrames settings k).frame settings
    start.run settings = (ended.1, ended.2.map fun _ => ended.1.done) := by
  intro ended
  have lt := (settings.lt_frames_iff k).mpr begins.1
  obtain ⟨rest, frames⟩ : ∃ rest, settings.frames = k + (rest + 1) :=
    ⟨settings.frames - k - 1, by omega⟩
  rw [run, frames, runFrames_of_goesOn begins.2, runFrames_succ]
  change ended.2 ≠ .ok false at stops
  change (match ended.2 with | .ok false => _ | .ok true => _ | .error cause => _) = _
  cases answer : ended.2 with
  | error cause => rfl
  | ok quit =>
      cases quit with
      | true => rfl
      | false => exact absurd answer stops

/-- The loop goes through all frames that go on. -/
theorem Loop.of_goesOn {result : Console δ κ × Except Error Nat}
    (more : ∀ i < k, (start.afterFrames settings i).done < settings.steps)
    (goesOn : ∀ i < k, (start.afterFrames settings i).GoesOn settings)
    (rest : Loop settings (start.afterFrames settings k) result) : Loop settings start result := by
  induction k with
  | zero => exact rest
  | succ k ih =>
      apply ih (fun i lt => more i (Nat.lt_succ_of_lt lt))
        (fun i lt => goesOn i (Nat.lt_succ_of_lt lt))
      exact .next (more k (Nat.lt_succ_self k)) (goesOn k (Nat.lt_succ_self k)) rest

/-- The loop ends, and the frames of a run are enough for it. -/
theorem loop_run (fresh : start.done = 0) : Loop settings start (start.run settings) := by
  rcases all_or_first (fun i => (start.afterFrames settings i).GoesOn settings) settings.frames with
    goesOn | ⟨k, lt, goesOn, stops⟩
  · have begins {i : Nat} (lt : i < settings.frames) : start.Begins settings i :=
      ⟨(settings.lt_frames_iff i).mp lt, fun j lt_i => goesOn j (by omega)⟩
    apply Loop.of_goesOn (fun i lt => (begins lt).more fresh) goesOn
    rw [run_of_all_goOn goesOn]
    apply Loop.finished
    rw [(arrivesAt fresh goesOn).done, settings.doneBefore_frames]
    exact Nat.lt_irrefl _
  · have begins : start.Begins settings k := ⟨(settings.lt_frames_iff k).mp lt, goesOn⟩
    apply Loop.of_goesOn (fun i lt => (begins.mono (Nat.le_of_lt lt)).more fresh) goesOn
    rw [run_of_begins begins stops]
    cases answer : ((start.afterFrames settings k).frame settings).2 with
    | error cause => exact .failed (begins.more fresh) answer
    | ok quit =>
        cases quit with
        | false => exact absurd answer stops
        | true => exact .quit (begins.more fresh) answer

/-- A run in which nobody quits and nothing fails. -/
structure Completes (settings : Settings) (start : Console δ κ) (events : List Event)
    (ended : Console δ κ × Except Error Nat) : Prop where
  unquit : ∀ i < settings.frames, .quit ∉ Keyboard.keysAt start.keyboard i
  happened : events = Event.ofFrames settings start.keyboard settings.frames
  played : start.devices.performAll events = (ended.1.devices, .ok ())
  result : ended.2 = .ok settings.steps
  polls : events.count .poll = settings.frames
  refreshes : events.count .refresh = settings.frames
  steps : events.count .step = settings.steps

/-- A run that the user quits in a frame. -/
structure QuitsIn (settings : Settings) (start : Console δ κ) (k : Nat) (events : List Event)
    (ended : Console δ κ × Except Error Nat) : Prop where
  begins : start.Begins settings k
  quits : ((start.afterFrames settings k).frame settings).2 = .ok true
  unquit : ∀ i < k, .quit ∉ Keyboard.keysAt start.keyboard i
  quit : .quit ∈ Keyboard.keysAt start.keyboard k
  happened : events = Event.ofFrames settings start.keyboard k ++
    .poll :: (Key.codes (Keyboard.keysAt start.keyboard k)).map .push
  played : start.devices.performAll events = (ended.1.devices, .ok ())
  result : ended.2 = .ok (k * settings.stepsPerFrame)
  polls : events.count .poll = k + 1
  refreshes : events.count .refresh = k
  steps : events.count .step = k * settings.stepsPerFrame

/-- A run that ends with the error of an event in a frame. -/
structure FailsIn (settings : Settings) (start : Console δ κ) (k : Nat) (before : List Event)
    (event : Event) (cause : Error) (ended : Console δ κ × Except Error Nat) : Prop where
  begins : start.Begins settings k
  fails : ((start.afterFrames settings k).frame settings).2 = .error cause
  unquit : ∀ i < k, .quit ∉ Keyboard.keysAt start.keyboard i
  frame : ∃ earlier later, Event.ofFrameAt settings start.keyboard k = earlier ++ event :: later ∧
    before = Event.ofFrames settings start.keyboard k ++ earlier
  fine : (start.devices.performAll before).2 = .ok ()
  played : start.devices.performAll (before ++ [event]) = (ended.1.devices, .error cause)
  raises : event.Raises cause
  result : ended.2 = .error cause
  polls : (before ++ [event]).count .poll = k + 1
  refreshes : before.count .refresh = k

/-- What would have happened next, had nothing failed, belongs to the same frame. -/
theorem FailsIn.later {before : List Event} {event : Event} {cause : Error}
    {ended : Console δ κ × Except Error Nat}
    (fails : start.FailsIn settings k before event cause ended) :
    ∃ later, Event.ofFrames settings start.keyboard (k + 1) = before ++ [event] ++ later := by
  obtain ⟨earlier, later, split, rfl⟩ := fails.frame
  refine ⟨later, ?_⟩
  rw [Event.ofFrames, split]
  simp only [List.append_assoc, List.singleton_append]

theorem completes (fresh : start.done = 0)
    (goesOn : ∀ i < settings.frames, (start.afterFrames settings i).GoesOn settings) :
    start.Completes settings (Event.ofFrames settings start.keyboard settings.frames)
      (start.run settings) := by
  have arrives := arrivesAt fresh goesOn
  have done : (start.afterFrames settings settings.frames).done = settings.steps :=
    arrives.done.trans settings.doneBefore_frames
  have run : start.run settings =
      (start.afterFrames settings settings.frames, .ok settings.steps) := by
    rw [run_of_all_goOn goesOn, done]
  rw [run]
  constructor
  case unquit => exact arrives.unquit
  case happened => rfl
  case played => exact arrives.happened
  case result => rfl
  case polls => exact Event.count_poll_ofFrames _ _ _
  case refreshes => exact Event.count_refresh_ofFrames _ _ _ arrives.unquit
  case steps =>
      rw [Event.count_step_ofFrames _ _ _ arrives.unquit, settings.doneBefore_frames]

theorem quitsIn (fresh : start.done = 0) (begins : start.Begins settings k)
    (quits : ((start.afterFrames settings k).frame settings).2 = .ok true) :
    start.QuitsIn settings k (Event.ofFrames settings start.keyboard k ++
        Event.ofFrameAt settings start.keyboard k) (start.run settings) := by
  have arrives := begins.arrivesAt fresh
  obtain ⟨devices, answer⟩ := arrives.plays
  obtain ⟨fine, quit⟩ := map_eq_ok_iff.mp (answer.symm.trans quits)
  have quit := of_decide_eq_true quit
  have done : ((start.afterFrames settings k).frame settings).1.done =
      k * settings.stepsPerFrame := by
    rw [((start.afterFrames settings k).frame_done settings).2 quits, begins.done fresh]
  have run : start.run settings =
      (((start.afterFrames settings k).frame settings).1, .ok (k * settings.stepsPerFrame)) := by
    rw [run_of_begins begins (not_goesOn_of_quits quits), quits, done]
    rfl
  have pushes : Event.ofFrameAt settings start.keyboard k =
      .poll :: (Key.codes (Keyboard.keysAt start.keyboard k)).map .push :=
    Event.ofFrame_of_quit quit _
  rw [run]
  constructor
  case begins => exact begins
  case quits => exact quits
  case unquit => exact arrives.unquit
  case quit => exact quit
  case happened => rw [pushes]
  case played =>
      rw [performAll_append_of_ok arrives.happened]
      exact Prod.ext devices.symm fine
  case result => rfl
  case polls =>
      rw [List.count_append, Event.count_poll_ofFrames, Event.ofFrameAt, Event.count_poll_ofFrame]
  case refreshes =>
      rw [List.count_append, Event.count_refresh_ofFrames _ _ _ arrives.unquit, pushes,
        List.count_cons_of_ne Event.noConfusion, Event.count_map_push fun _ => Event.noConfusion,
        Nat.add_zero]
  case steps =>
      rw [List.count_append, Event.count_step_ofFrames _ _ _ arrives.unquit, pushes,
        List.count_cons_of_ne Event.noConfusion, Event.count_map_push fun _ => Event.noConfusion,
        Nat.add_zero, Settings.doneBefore_of_lt begins.1]

theorem failsIn (fresh : start.done = 0) (begins : start.Begins settings k) {cause : Error}
    (fails : ((start.afterFrames settings k).frame settings).2 = .error cause) :
    ∃ before event, start.FailsIn settings k before event cause (start.run settings) := by
  have arrives := begins.arrivesAt fresh
  obtain ⟨devices, answer⟩ := arrives.plays
  have failed := map_eq_error_iff.mp (answer.symm.trans fails)
  have run : start.run settings =
      (((start.afterFrames settings k).frame settings).1, .error cause) := by
    rw [run_of_begins begins (not_goesOn_of_fails fails), fails]
    rfl
  obtain ⟨earlier, event, later, between, split, fine, performed⟩ :=
    exists_first_error (Prod.ext devices.symm failed)
  have first : start.devices.performAll (Event.ofFrames settings start.keyboard k ++ earlier) =
      (between, .ok ()) := by
    rw [performAll_append_of_ok arrives.happened, fine]
  refine ⟨Event.ofFrames settings start.keyboard k ++ earlier, event, ?_⟩
  rw [run]
  constructor
  case begins => exact begins
  case fails => exact fails
  case unquit => exact arrives.unquit
  case frame => exact ⟨earlier, later, split, rfl⟩
  case fine => rw [first]
  case played =>
      rw [performAll_append_of_ok first, performAll_cons, performed]
      rfl
  case raises => exact perform_raises (congrArg Prod.snd performed)
  case result => rfl
  case polls =>
      rw [List.append_assoc, List.count_append, Event.count_poll_ofFrames,
        Event.count_poll_of_ofFrame_eq _ _ split]
  case refreshes =>
      rw [List.count_append, Event.count_refresh_ofFrames _ _ _ arrives.unquit,
        Event.count_refresh_of_ofFrame_eq _ _ split, Nat.add_zero]

/-- There is no other way for a run to end. -/
theorem run_cases (settings : Settings) (start : Console δ κ) (fresh : start.done = 0) :
    ((∀ i < settings.frames, (start.afterFrames settings i).GoesOn settings) ∧
        ∃ events, start.Completes settings events (start.run settings)) ∨
      (∃ k events, start.QuitsIn settings k events (start.run settings)) ∨
      ∃ k before event cause, start.FailsIn settings k before event cause (start.run settings) := by
  rcases all_or_first (fun i => (start.afterFrames settings i).GoesOn settings) settings.frames with
    goesOn | ⟨k, lt, goesOn, stops⟩
  · exact .inl ⟨goesOn, _, completes fresh goesOn⟩
  · have begins : start.Begins settings k := ⟨(settings.lt_frames_iff k).mp lt, goesOn⟩
    cases answer : ((start.afterFrames settings k).frame settings).2 with
    | error cause =>
        obtain ⟨before, event, fails⟩ := failsIn fresh begins answer
        exact .inr (.inr ⟨k, before, event, cause, fails⟩)
    | ok quit =>
        cases quit with
        | false => exact absurd answer stops
        | true => exact .inr (.inl ⟨k, _, quitsIn fresh begins answer⟩)

/-- A frame counts as begun with its poll. -/
theorem lt_succ_iff_begins (begins : start.Begins settings k)
    (stops : ¬ (start.afterFrames settings k).GoesOn settings) (i : Nat) :
    i < k + 1 ↔ start.Begins settings i := by
  constructor
  · exact fun lt => begins.mono (Nat.le_of_lt_succ lt)
  · intro later
    exact Nat.lt_succ_of_le (Nat.le_of_not_lt fun beyond => stops (later.2 k beyond))

end Run

/-- Every run of a console comes to an end, whatever its display and keyboard do. It takes up a
    frame if there is an instruction left and the frames before it went on, and it is decided by the
    events of its frames: either all of them happen, or the user quits in a frame, or an event of a
    frame fails. -/
theorem run_in_frames (program : List Word) (display : δ) (keyboard : κ) (settings : Settings) :
    let start := Console.boot program display keyboard settings
    let ended := start.run settings
    settings.stepsPerFrame = max 1 (settings.clockHz / 60) ∧
    Loop settings start ended ∧
    (∀ k, start.Begins settings k →
      (start.afterFrames settings k).done = k * settings.stepsPerFrame ∧
      (start.afterFrames settings k).keyboard = Keyboard.polled keyboard k) ∧
    ∃ events : List Event,
      (∀ k, k < events.count .poll ↔ start.Begins settings k) ∧
      (start.Completes settings events ended ∨
        (∃ k, start.QuitsIn settings k events ended) ∨
        ∃ k before event cause, events = before ++ [event] ∧
          start.FailsIn settings k before event cause ended) := by
  intro start ended
  have fresh : start.done = 0 := rfl
  refine ⟨Nat.max_comm .., loop_run fresh, ?_, ?_⟩
  · exact fun k begins => ⟨begins.done fresh, (begins.arrivesAt fresh).keyboard⟩
  · rcases start.run_cases settings fresh with
      ⟨goesOn, events, completes⟩ | ⟨k, events, quits⟩ | ⟨k, before, event, cause, fails⟩
    · refine ⟨events, fun k => ?_, .inl completes⟩
      rw [completes.polls, settings.lt_frames_iff]
      refine ⟨fun lt => ⟨lt, fun i lt_k => goesOn i ?_⟩, fun begins => begins.1⟩
      exact Nat.lt_trans lt_k ((settings.lt_frames_iff k).mpr lt)
    · refine ⟨events, fun i => ?_, .inr (.inl ⟨k, quits⟩)⟩
      rw [quits.polls, lt_succ_iff_begins quits.begins (not_goesOn_of_quits quits.quits)]
    · refine ⟨before ++ [event], fun i => ?_, .inr (.inr ⟨k, before, event, cause, rfl, fails⟩)⟩
      rw [fails.polls, lt_succ_iff_begins fails.begins (not_goesOn_of_fails fails.fails)]

/-- Two frames of two instructions, and one of one. -/
def threeFrames : Settings where
  clockHz := 120
  steps := 5

theorem run_in_frames_quitting :
    let start := Console.boot [0x81c1] NoDisplay.mk PlannedKeys.quitting threeFrames
    start.Begins threeFrames 1 ∧ (start.afterFrames threeFrames 1).done = 2 ∧
      ∃ events, start.QuitsIn threeFrames 1 events (start.run threeFrames) := by
  intro start
  obtain ⟨-, -, arrives, events, -, ends⟩ :=
    run_in_frames [0x81c1] NoDisplay.mk PlannedKeys.quitting threeFrames
  have result : (start.run threeFrames).2 = .ok 2 := by
    change ((Console.boot [0x81c1] NoDisplay.mk PlannedKeys.quitting threeFrames).run
      threeFrames).2 = .ok 2
    rfl
  rcases ends with completes | ⟨k, quits⟩ | ⟨k, before, event, cause, -, fails⟩
  · cases completes.result.symm.trans result
  · obtain rfl : k = 1 := by
      have perFrame : threeFrames.stepsPerFrame = 2 := rfl
      have done := Except.ok.inj (quits.result.symm.trans result)
      rw [perFrame] at done
      omega
    exact ⟨quits.begins, (arrives 1 quits.begins).1, events, quits⟩
  · cases fails.result.symm.trans result

end Console
end Dcpu
