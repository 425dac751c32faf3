import Dcpu.Console
import Dcpu.Proofs.Simulation

/-! # What happens in a frame

A console can do four things: poll its keyboard, push a code, take a step and refresh its display.
The keys of a poll and the number of instructions that are left say which of these events a frame
consists of. What a console does in a frame is to let them happen up to the first that fails.
-/

namespace Dcpu

universe u v w x

variable {δ : Type u} {κ : Type v}

namespace Key

/-- The codes before the first key that quits. -/
def codes : List Key → List Word
  | [] => []
  | .quit :: _ => []
  | .code word :: rest => word :: codes rest

end Key

namespace Keyboard

variable [Keyboard κ]

def polled (keyboard : κ) : Nat → κ
  | 0 => keyboard
  | count + 1 => (poll (polled keyboard count)).1

/-- The keys of the next poll. A poll that fails hands over none. -/
def keys (keyboard : κ) : List Key :=
  (poll keyboard).2.toOption.getD []

def keysAt (keyboard : κ) (count : Nat) : List Key :=
  keys (polled keyboard count)

end Keyboard

namespace Settings

/-- How many instructions a frame runs, after so many others. -/
def slice (settings : Settings) (done : Nat) : Nat :=
  min settings.stepsPerFrame (settings.steps - done)

/-- How many instructions the first frames have run. -/
def doneBefore (settings : Settings) (k : Nat) : Nat :=
  min settings.steps (k * settings.stepsPerFrame)

theorem slice_doneBefore (settings : Settings) (k : Nat) :
    settings.slice (settings.doneBefore k) = settings.slice (k * settings.stepsPerFrame) := by
  simp only [doneBefore, slice]
  omega

theorem doneBefore_succ (settings : Settings) (k : Nat) :
    settings.doneBefore (k + 1) =
      settings.doneBefore k + settings.slice (k * settings.stepsPerFrame) := by
  simp only [doneBefore, slice, Nat.succ_mul]
  omega

theorem doneBefore_of_lt {settings : Settings} {k : Nat}
    (lt : k * settings.stepsPerFrame < settings.steps) :
    settings.doneBefore k = k * settings.stepsPerFrame :=
  Nat.min_eq_right (Nat.le_of_lt lt)

theorem doneBefore_frames (settings : Settings) :
    settings.doneBefore settings.frames = settings.steps := by
  have reached := mt (settings.lt_frames_iff settings.frames).mpr (Nat.lt_irrefl _)
  simp only [doneBefore]
  omega

end Settings

/-- What can happen in a frame. -/
inductive Event where
  | poll
  | push (code : Word)
  | step
  | refresh
  deriving Repr, DecidableEq

namespace Event

/-- The kinds of errors that an event can end with. -/
def Raises : Event → Error → Prop
  | .poll, .io _ | .push _, .display _ | .refresh, .display _ => True
  | .step, .invalidOpcode _ | .step, .display _ => True
  | _, _ => False

/-- The events of a frame, by its keys and the number of its instructions. -/
def ofFrame (keys : List Key) (slice : Nat) : List Event :=
  .poll :: ((Key.codes keys).map .push ++
    if .quit ∈ keys then [] else List.replicate slice .step ++ [.refresh])

section OfFrame

variable (keys : List Key) (slice : Nat)

theorem ofFrame_of_quit {keys : List Key} (quit : .quit ∈ keys) (slice : Nat) :
    ofFrame keys slice = .poll :: (Key.codes keys).map .push := by
  rw [ofFrame, if_pos quit, List.append_nil]

theorem ofFrame_of_not_quit {keys : List Key} (unquit : .quit ∉ keys) (slice : Nat) :
    ofFrame keys slice =
      .poll :: ((Key.codes keys).map .push ++ List.replicate slice .step) ++ [.refresh] := by
  rw [ofFrame, if_neg unquit, List.cons_append, List.append_assoc]

theorem count_map_push {event : Event} (other : ∀ code, event ≠ .push code) (codes : List Word) :
    (codes.map .push).count event = 0 := by
  rw [List.count_eq_zero]
  intro member
  obtain ⟨code, -, rfl⟩ := List.mem_map.mp member
  exact other code rfl

theorem count_ofFrame_of_not_quit {event : Event} (other : ∀ code, event ≠ .push code)
    {keys : List Key} (unquit : .quit ∉ keys) :
    (ofFrame keys slice).count event =
      [.poll, .refresh].count event + (List.replicate slice .step).count event := by
  rw [ofFrame_of_not_quit unquit, List.count_append, List.count_cons, List.count_append,
    count_map_push other]
  simp only [List.count_cons, List.count_nil]
  omega

theorem count_poll_ofFrame : (ofFrame keys slice).count .poll = 1 := by
  by_cases quit : .quit ∈ keys
  · rw [ofFrame_of_quit quit, List.count_cons_self, count_map_push fun _ => Event.noConfusion]
  · rw [count_ofFrame_of_not_quit _ (fun _ => Event.noConfusion) quit, List.count_replicate]
    rfl

theorem count_refresh_ofFrame {keys : List Key} (unquit : .quit ∉ keys) :
    (ofFrame keys slice).count .refresh = 1 := by
  rw [count_ofFrame_of_not_quit _ (fun _ => Event.noConfusion) unquit, List.count_replicate]
  rfl

theorem count_step_ofFrame {keys : List Key} (unquit : .quit ∉ keys) :
    (ofFrame keys slice).count .step = slice := by
  rw [count_ofFrame_of_not_quit _ (fun _ => Event.noConfusion) unquit, List.count_replicate_self]
  exact Nat.zero_add slice

/-- The poll comes first. -/
theorem count_poll_of_ofFrame_eq {before later : List Event} {event : Event}
    (split : ofFrame keys slice = before ++ event :: later) :
    (before ++ [event]).count .poll = 1 := by
  have once := count_poll_ofFrame keys slice
  rw [split] at once
  cases before with
  | nil =>
      obtain ⟨rfl, -⟩ := List.cons.inj split
      rfl
  | cons first rest =>
      obtain ⟨rfl, -⟩ := List.cons.inj split
      simp only [List.cons_append, List.count_cons_self, List.count_append] at once ⊢
      simp only [List.count_cons, List.count_nil] at once ⊢
      omega

/-- The refresh comes last. -/
theorem count_refresh_of_ofFrame_eq {before later : List Event} {event : Event}
    (split : ofFrame keys slice = before ++ event :: later) : before.count .refresh = 0 := by
  have unrefreshed : .refresh ∉ (ofFrame keys slice).dropLast := by
    by_cases quit : .quit ∈ keys
    · rw [ofFrame_of_quit quit]
      intro member
      simpa using List.dropLast_subset _ member
    · rw [ofFrame_of_not_quit quit, List.dropLast_concat]
      simp
  rw [List.count_eq_zero]
  intro member
  apply unrefreshed
  rw [split, List.dropLast_append_of_ne_nil (List.cons_ne_nil event later)]
  exact List.mem_append_left _ member

end OfFrame

/-- The events of a frame, counted from zero. -/
def ofFrameAt [Keyboard κ] (settings : Settings) (keyboard : κ) (k : Nat) : List Event :=
  ofFrame (Keyboard.keysAt keyboard k) (settings.slice (k * settings.stepsPerFrame))

/-- The events of the first frames of a run. -/
def ofFrames [Keyboard κ] (settings : Settings) (keyboard : κ) : Nat → List Event
  | 0 => []
  | count + 1 => ofFrames settings keyboard count ++ ofFrameAt settings keyboard count

section OfFrames

variable [Keyboard κ] (settings : Settings) (keyboard : κ) (count : Nat)

theorem count_poll_ofFrames : (ofFrames settings keyboard count).count .poll = count := by
  induction count with
  | zero => rfl
  | succ count ih => rw [ofFrames, List.count_append, ih, ofFrameAt, count_poll_ofFrame]

theorem count_refresh_ofFrames
    (unquit : ∀ i < count, .quit ∉ Keyboard.keysAt keyboard i) :
    (ofFrames settings keyboard count).count .refresh = count := by
  induction count with
  | zero => rfl
  | succ count ih =>
      rw [ofFrames, List.count_append, ih fun i lt => unquit i (Nat.lt_succ_of_lt lt), ofFrameAt,
        count_refresh_ofFrame _ (unquit count (Nat.lt_succ_self count))]

theorem count_step_ofFrames
    (unquit : ∀ i < count, .quit ∉ Keyboard.keysAt keyboard i) :
    (ofFrames settings keyboard count).count .step = settings.doneBefore count := by
  induction count with
  | zero => simp only [ofFrames, List.count_nil, Settings.doneBefore, Nat.zero_mul, Nat.min_zero]
  | succ count ih =>
      rw [ofFrames, List.count_append, ih fun i lt => unquit i (Nat.lt_succ_of_lt lt), ofFrameAt,
        count_step_ofFrame _ (unquit count (Nat.lt_succ_self count)),
        Settings.doneBefore_succ]

end OfFrames
end Event

/-- What a console plays its events on. -/
structure Devices (δ : Type u) (κ : Type v) where
  machine : Wired δ
  keyboard : κ
  ring : KeyRing

namespace Devices

/-- Whether an answer was an error, and which one. -/
def verdict {α : Type w} {ε : Type x} (wrap : ε → Error) : Except ε α → Except Error Unit
  | .ok _ => .ok ()
  | .error cause => .error (wrap cause)

theorem map_eq_ok_iff {α : Type w} {result : Except Error Unit} {answer other : α} :
    result.map (fun () => answer) = .ok other ↔ result = .ok () ∧ answer = other := by
  cases result <;> simp only [Except.map, reduceCtorEq, Except.ok.injEq, false_and, true_and]

theorem map_eq_error_iff {α : Type w} {result : Except Error Unit} {answer : α} {cause : Error} :
    result.map (fun () => answer) = .error cause ↔ result = .error cause := by
  cases result <;> simp only [Except.map, reduceCtorEq, Except.error.injEq]

theorem map_map {α : Type w} {result : Except Error Unit} {answer : α} :
    (result.map fun () => ()).map (fun () => answer) = result.map fun () => answer := by
  cases result <;> rfl

theorem verdict_eq_ok_iff {ε : Type x} {wrap : ε → Error} {answer : Except ε Unit} :
    verdict wrap answer = .ok () ↔ answer = .ok () := by
  cases answer <;> simp only [verdict, reduceCtorEq]

theorem verdict_eq_error_iff {α : Type w} {ε : Type x} {wrap : ε → Error} {answer : Except ε α}
    {cause : Error} :
    verdict wrap answer = .error cause ↔ ∃ fault, answer = .error fault ∧ wrap fault = cause := by
  cases answer with
  | ok => simp only [verdict, reduceCtorEq, false_and, exists_false]
  | error fault => simp only [verdict, Except.error.injEq, exists_eq_left']

variable [Display δ] [Keyboard κ]

def perform (devices : Devices δ κ) : Event → Devices δ κ × Except Error Unit
  | .poll =>
      let (keyboard, answer) := Keyboard.poll devices.keyboard
      ({ devices with keyboard }, verdict .io answer)
  | .push code =>
      let ((ring, machine), answer) := devices.ring.push devices.machine code
      ({ devices with ring, machine }, verdict .display answer)
  | .step =>
      let (machine, answer) := Memory.step devices.machine
      ({ devices with machine }, verdict .ofFault answer)
  | .refresh =>
      let (machine, answer) := devices.machine.refresh
      ({ devices with machine }, verdict .display answer)

/-- Let events happen one after the other, up to the first that fails. -/
def performAll (devices : Devices δ κ) : List Event → Devices δ κ × Except Error Unit
  | [] => (devices, .ok ())
  | event :: rest =>
      match devices.perform event with
      | (devices, .ok ()) => performAll devices rest
      | (devices, .error cause) => (devices, .error cause)

variable {devices after : Devices δ κ} {before : List Event} {cause : Error}

theorem performAll_cons (devices : Devices δ κ) (event : Event) (rest : List Event) :
    devices.performAll (event :: rest) = match (devices.perform event).2 with
      | .ok () => (devices.perform event).1.performAll rest
      | .error cause => ((devices.perform event).1, .error cause) := by
  simp only [performAll]
  split <;> rename_i performed <;> simp only [performed]

theorem performAll_append_of_ok (fine : devices.performAll before = (after, .ok ()))
    (later : List Event) : devices.performAll (before ++ later) = after.performAll later := by
  induction before generalizing devices with
  | nil =>
      obtain rfl : devices = after := congrArg Prod.fst fine
      rfl
  | cons event rest ih =>
      rw [List.cons_append, performAll_cons]
      rw [performAll_cons] at fine
      cases first : (devices.perform event).2 with
      | ok =>
          rw [first] at fine
          exact ih fine
      | error cause =>
          rw [first] at fine
          cases congrArg Prod.snd fine

theorem performAll_append_of_error (failed : devices.performAll before = (after, .error cause))
    (later : List Event) :
    devices.performAll (before ++ later) = (after, .error cause) := by
  induction before generalizing devices with
  | nil => cases congrArg Prod.snd failed
  | cons event rest ih =>
      rw [List.cons_append, performAll_cons]
      rw [performAll_cons] at failed
      cases first : (devices.perform event).2 with
      | ok =>
          rw [first] at failed
          exact ih failed
      | error cause =>
          rw [first] at failed
          exact failed

theorem performAll_append_eq_ok {later : List Event}
    (fine : devices.performAll (before ++ later) = (after, .ok ())) :
    ∃ between, devices.performAll before = (between, .ok ()) ∧
      between.performAll later = (after, .ok ()) := by
  rcases first : devices.performAll before with ⟨between, cause | ⟨⟨⟩⟩⟩
  · rw [performAll_append_of_error first] at fine
    cases congrArg Prod.snd fine
  · rw [performAll_append_of_ok first] at fine
    exact ⟨between, rfl, fine⟩

/-- Where events fail, there is a first one that does. -/
theorem exists_first_error {events : List Event}
    (failed : devices.performAll events = (after, .error cause)) :
    ∃ before event later between, events = before ++ event :: later ∧
      devices.performAll before = (between, .ok ()) ∧
      between.perform event = (after, .error cause) := by
  induction events generalizing devices with
  | nil => cases congrArg Prod.snd failed
  | cons event rest ih =>
      rw [performAll_cons] at failed
      cases first : (devices.perform event).2 with
      | ok =>
          rw [first] at failed
          obtain ⟨before, failing, later, between, rfl, fine, fails⟩ := ih failed
          refine ⟨event :: before, failing, later, between, rfl, ?_, fails⟩
          rw [performAll_cons, first]
          exact fine
      | error cause =>
          rw [first] at failed
          refine ⟨[], event, rest, devices, rfl, rfl, ?_⟩
          rw [← failed]
          exact Prod.ext rfl first

theorem perform_raises {event : Event} (fails : (devices.perform event).2 = .error cause) :
    event.Raises cause := by
  cases event with
  | poll | push | refresh =>
      obtain ⟨fault, -, rfl⟩ := verdict_eq_error_iff.mp fails
      trivial
  | step =>
      obtain ⟨fault, -, rfl⟩ := verdict_eq_error_iff.mp fails
      cases fault <;> trivial

/-- Only a poll has to do with the keyboard. -/
theorem performAll_keyboard {events : List Event} (unpolled : .poll ∉ events) :
    (devices.performAll events).1.keyboard = devices.keyboard := by
  induction events generalizing devices with
  | nil => rfl
  | cons event rest ih =>
      have kept : (devices.perform event).1.keyboard = devices.keyboard := by
        cases event with
        | poll => exact absurd List.mem_cons_self unpolled
        | push | step | refresh => rfl
      rw [performAll_cons]
      split
      · rw [ih fun member => unpolled (List.mem_cons_of_mem _ member), kept]
      · exact kept

/-- What every store keeps and no refresh breaks is kept by all events. -/
theorem performAll_stable {P : Wired δ → Prop} (stable : Memory.Stable P) {events : List Event}
    (refreshed : .refresh ∈ events → ∀ machine : Wired δ, P machine → P machine.refresh.1)
    (holds : P devices.machine) : P (devices.performAll events).1.machine := by
  induction events generalizing devices with
  | nil => exact holds
  | cons event rest ih =>
      have kept : P (devices.perform event).1.machine := by
        cases event with
        | poll => exact holds
        | push code => exact stable.push holds devices.ring code
        | step => exact stable.step holds
        | refresh => exact refreshed List.mem_cons_self devices.machine holds
      rw [performAll_cons]
      split
      · exact ih (fun member => refreshed (List.mem_cons_of_mem _ member)) kept
      · exact kept

/-- A run of the machine is that many steps. -/
theorem performAll_replicate_step (devices : Devices δ κ) (count : Nat) :
    devices.performAll (List.replicate count .step) =
      ({ devices with machine := (Memory.steps devices.machine count).1 },
        verdict .ofFault (Memory.steps devices.machine count).2) := by
  induction count generalizing devices with
  | zero => rfl
  | succ count ih =>
      rw [List.replicate_succ, performAll_cons, Memory.steps_succ]
      simp only [perform]
      cases stepped : (Memory.step devices.machine).2 with
      | ok => simp only [verdict, ih]
      | error fault => simp only [verdict]

end Devices

namespace Console

open Devices

def devices (console : Console δ κ) : Devices δ κ where
  machine := console.machine
  keyboard := console.keyboard
  ring := console.ring

variable [Display δ] [Keyboard κ]

/-- What a console did is what comes of some events, with an answer if none of them failed. -/
structure Plays {α : Type w} (console : Console δ κ) (events : List Event) (answer : α)
    (ended : Console δ κ × Except Error α) : Prop where
  devices : ended.1.devices = (console.devices.performAll events).1
  result : ended.2 = (console.devices.performAll events).2.map fun () => answer

/-- A console after it pushed a code, whether that went well or not. -/
def pushed (console : Console δ κ) (code : Word) : Console δ κ :=
  { console with
    ring := (console.ring.push console.machine code).1.1
    machine := (console.ring.push console.machine code).1.2 }

omit [Keyboard κ] in
theorem press_code (console : Console δ κ) (code : Word) (rest : List Key) :
    console.press (.code code :: rest) =
      match (console.ring.push console.machine code).2 with
      | .ok _ => (console.pushed code).press rest
      | .error cause => (console.pushed code, .error (.display cause)) := by
  simp only [press]
  split <;> rename_i answer <;> simp only [pushed, answer]

theorem perform_push (console : Console δ κ) (code : Word) :
    console.devices.perform (.push code) =
      ((console.pushed code).devices,
        verdict .display (console.ring.push console.machine code).2) := rfl

/-- Keys are pushed one after the other, until one of them quits or one cannot be pushed. -/
theorem press_plays (console : Console δ κ) (keys : List Key) :
    console.Plays ((Key.codes keys).map .push) (decide (.quit ∈ keys)) (console.press keys) := by
  induction keys generalizing console with
  | nil => exact ⟨rfl, rfl⟩
  | cons key rest ih =>
      cases key with
      | quit =>
          have quit : (.quit : Key) ∈ .quit :: rest := List.mem_cons_self
          refine ⟨rfl, ?_⟩
          simp only [press, quit, decide_true]
          rfl
      | code code =>
          have later : (.quit : Key) ∈ .code code :: rest ↔ .quit ∈ rest := by
            simp only [List.mem_cons, reduceCtorEq, false_or]
          obtain ⟨devices, result⟩ := ih (console.pushed code)
          rw [press_code]
          constructor <;> simp only [Key.codes, List.map_cons, performAll_cons, perform_push, later]
          · cases (console.ring.push console.machine code).2 with
            | ok => exact devices
            | error cause => rfl
          · cases (console.ring.push console.machine code).2 with
            | ok => exact result
            | error cause => rfl

omit [Keyboard κ] in
theorem press_done (console : Console δ κ) (keys : List Key) :
    (console.press keys).1.done = console.done := by
  induction keys generalizing console with
  | nil => rfl
  | cons key rest ih =>
      cases key with
      | quit => rfl
      | code code =>
          rw [press_code]
          split
          · exact ih (console.pushed code)
          · rfl

omit [Keyboard κ] in
theorem advance_eq (console : Console δ κ) (slice : Nat) :
    console.advance slice =
      let ran := Memory.steps console.machine slice
      match ran.2 with
      | .ok () =>
          ({ console with machine := ran.1.refresh.1, done := console.done + slice },
            verdict .display ran.1.refresh.2)
      | .error fault => ({ console with machine := ran.1 }, .error (.ofFault fault)) := by
  simp only [advance, Memory.run]
  cases (Memory.steps console.machine slice).2 with
  | error fault => rfl
  | ok =>
      simp only [Except.map]
      split <;> rename_i refreshed <;> simp only [refreshed] <;> rfl

/-- The instructions of a frame, and its refresh. -/
theorem advance_plays (console : Console δ κ) (slice : Nat) :
    console.Plays (List.replicate slice .step ++ [.refresh]) () (console.advance slice) := by
  have stepped := console.devices.performAll_replicate_step slice
  change _ = ({ console.devices with machine := (Memory.steps console.machine slice).1 },
    verdict .ofFault (Memory.steps console.machine slice).2) at stepped
  rw [advance_eq]
  cases ran : (Memory.steps console.machine slice).2 with
  | ok =>
      rw [ran] at stepped
      constructor <;> rw [performAll_append_of_ok stepped] <;>
        simp only [performAll_cons, perform, ran]
      · cases (Memory.steps console.machine slice).1.refresh.2 <;> rfl
      · cases (Memory.steps console.machine slice).1.refresh.2 <;> rfl
  | error fault =>
      rw [ran] at stepped
      constructor <;> rw [performAll_append_of_error stepped] <;> simp only [ran]
      · rfl
      · rfl

omit [Keyboard κ] in
theorem advance_done {console : Console δ κ} {slice : Nat}
    (fine : (console.advance slice).2 = .ok ()) :
    (console.advance slice).1.done = console.done + slice := by
  rw [advance_eq] at fine ⊢
  cases ran : (Memory.steps console.machine slice).2 with
  | ok => simp only [ran]
  | error fault =>
      simp only [ran] at fine
      cases fine

/-- A console after a poll, whether that went well or not. -/
def polled (console : Console δ κ) : Console δ κ :=
  { console with keyboard := (Keyboard.poll console.keyboard).1 }

theorem perform_poll (console : Console δ κ) :
    console.devices.perform .poll =
      (console.polled.devices, verdict .io (Keyboard.poll console.keyboard).2) := rfl

/-- What a console does with the keys of a poll. -/
def proceed (settings : Settings) (console : Console δ κ) (keys : List Key) :
    Console δ κ × Except Error Bool :=
  match console.press keys with
  | (console, .ok false) =>
      let (console, result) := console.advance (settings.slice console.done)
      (console, result.map fun () => false)
  | stopped => stopped

theorem frame_eq (settings : Settings) (console : Console δ κ) :
    console.frame settings =
      match (Keyboard.poll console.keyboard).2 with
      | .error cause => (console.polled, .error (.io cause))
      | .ok keys => console.polled.proceed settings keys := by
  simp only [frame]
  split <;> rename_i answer <;> simp only [answer, polled]
  rfl

omit [Keyboard κ] in
theorem proceed_of_pressed {settings : Settings} {console : Console δ κ} {keys : List Key}
    (pressed : (console.press keys).2 = .ok false) :
    console.proceed settings keys =
      let advanced := (console.press keys).1.advance (settings.slice console.done)
      (advanced.1, advanced.2.map fun () => false) := by
  have press : console.press keys = ((console.press keys).1, .ok false) := Prod.ext rfl pressed
  rw [proceed, press]
  simp only [press_done]

omit [Keyboard κ] in
theorem proceed_of_stopped {settings : Settings} {console : Console δ κ} {keys : List Key}
    (stopped : (console.press keys).2 ≠ .ok false) :
    console.proceed settings keys = console.press keys := by
  rw [proceed]
  split
  · rename_i pressed
    exact absurd (congrArg Prod.snd pressed) stopped
  · rfl

/-- The pushes of a frame, and unless there was a key that quits its instructions and refresh. -/
theorem proceed_plays (settings : Settings) (console : Console δ κ) (keys : List Key) :
    console.Plays
      ((Key.codes keys).map .push ++ if .quit ∈ keys then []
        else List.replicate (settings.slice console.done) .step ++ [.refresh])
      (decide (.quit ∈ keys)) (console.proceed settings keys) := by
  obtain ⟨devices, result⟩ := console.press_plays keys
  rcases pushed : console.devices.performAll ((Key.codes keys).map .push) with ⟨after, cause | ⟨⟩⟩
  · simp only [pushed, Except.map] at devices result
    have stopped : (console.press keys).2 ≠ .ok false := by
      rw [result]
      exact nofun
    rw [proceed_of_stopped stopped]
    constructor <;> rw [performAll_append_of_error pushed]
    · exact devices
    · exact result
  · simp only [pushed, Except.map] at devices result
    by_cases quit : .quit ∈ keys
    · simp only [quit, decide_true] at result
      have stopped : (console.press keys).2 ≠ .ok false := by
        rw [result]
        exact nofun
      rw [proceed_of_stopped stopped]
      constructor <;> rw [performAll_append_of_ok pushed, if_pos quit]
      · exact devices
      · simp only [quit, decide_true]
        exact result
    · simp only [quit, decide_false] at result
      obtain ⟨played, answer⟩ :=
        (console.press keys).1.advance_plays (settings.slice console.done)
      rw [devices] at played answer
      rw [proceed_of_pressed result]
      constructor <;> rw [performAll_append_of_ok pushed, if_neg quit]
      · exact played
      · simp only [answer, map_map, quit, decide_false]

omit [Keyboard κ] in
theorem proceed_done (settings : Settings) (console : Console δ κ) (keys : List Key) :
    let ended := console.proceed settings keys
    (ended.2 = .ok false → ended.1.done = console.done + settings.slice console.done) ∧
      (ended.2 = .ok true → ended.1.done = console.done) := by
  by_cases pressed : (console.press keys).2 = .ok false
  · rw [proceed_of_pressed pressed]
    simp only [map_eq_ok_iff, and_true, Bool.false_eq_true, and_false]
    refine ⟨fun fine => ?_, False.elim⟩
    rw [advance_done fine, press_done]
  · rw [proceed_of_stopped pressed]
    exact ⟨fun other => absurd other pressed, fun _ => console.press_done keys⟩

/-- A console plays the events of its next frame. -/
theorem frame_plays (settings : Settings) (console : Console δ κ) :
    let keys := Keyboard.keys console.keyboard
    console.Plays (Event.ofFrame keys (settings.slice console.done)) (decide (.quit ∈ keys))
      (console.frame settings) := by
  intro keys
  rw [frame_eq]
  cases answer : (Keyboard.poll console.keyboard).2 with
  | error cause =>
      -- Nothing happens after a poll that failed.
      constructor <;>
        simp only [Event.ofFrame, performAll_cons, perform_poll, answer, verdict]
      rfl
  | ok delivered =>
      obtain rfl : keys = delivered := by
        simp only [keys, Keyboard.keys, answer, Except.toOption, Option.getD_some]
      obtain ⟨devices, result⟩ := console.polled.proceed_plays settings keys
      constructor <;>
        simp only [Event.ofFrame, performAll_cons, perform_poll, answer, verdict]
      · exact devices
      · exact result

theorem frame_done (settings : Settings) (console : Console δ κ) :
    let ended := console.frame settings
    (ended.2 = .ok false → ended.1.done = console.done + settings.slice console.done) ∧
      (ended.2 = .ok true → ended.1.done = console.done) := by
  rw [frame_eq]
  cases (Keyboard.poll console.keyboard).2 with
  | error cause => exact ⟨nofun, nofun⟩
  | ok keys => exact console.polled.proceed_done settings keys

theorem frame_keyboard (settings : Settings) (console : Console δ κ) :
    (console.frame settings).1.keyboard = (Keyboard.poll console.keyboard).1 := by
  have unpolled : .poll ∉ (Key.codes (Keyboard.keys console.keyboard)).map Event.push ++
      if .quit ∈ Keyboard.keys console.keyboard then []
      else List.replicate (settings.slice console.done) .step ++ [.refresh] := by
    split <;> simp
  change (console.frame settings).1.devices.keyboard = _
  rw [(console.frame_plays settings).devices, Event.ofFrame, performAll_cons]
  split
  · exact performAll_keyboard unpolled
  · rfl

end Console
end Dcpu
