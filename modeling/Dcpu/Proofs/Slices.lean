import Dcpu.Proofs.Frames
import Dcpu.Proofs.Observation
import Dcpu.Proofs.Undecodable
import Mathlib.Data.List.Induction

/-! # Slices of a run

Steps do not know how many others they are run with, so a run can be cut anywhere. The frames of a
console cut it into slices, with a poll before each of them and a refresh behind. Where polls bring
no keys and refreshes change no answer, a console does what one run of its machine would do.
-/

namespace Dcpu

universe u v w x

namespace Memory

variable {σ : Type u} {ε : Type v} [Memory σ ε]

/-- Steps that fail leave nothing to those that would have followed. -/
theorem steps_add_of_error {m after : σ} {count : Nat} {fault : Fault ε}
    (failed : steps m count = (after, .error fault)) (more : Nat) :
    steps m (count + more) = (after, .error fault) := by
  induction count generalizing m with
  | zero => cases congrArg Prod.snd failed
  | succ count ih =>
      rw [Nat.succ_add, steps_succ]
      rw [steps_succ] at failed
      cases first : (step m).2 with
      | ok =>
          rw [first] at failed
          exact ih failed
      | error fault =>
          rw [first] at failed
          exact failed

theorem run_eq_ok_iff (m after : σ) (budget : Nat) :
    run m budget = (after, .ok budget) ↔ steps m budget = (after, .ok ()) := by
  simp only [run, Prod.ext_iff]
  cases (steps m budget).2 <;> simp only [Except.map, reduceCtorEq]

theorem run_add {m after : σ} {count : Nat} (fine : run m count = (after, .ok count))
    (more : Nat) :
    run m (count + more) = ((run after more).1, (run after more).2.map fun _ => count + more) := by
  rw [run_eq_ok_iff] at fine
  simp only [run, steps_add fine]
  cases (steps after more).2 <;> rfl

theorem run_add_of_error {m after : σ} {count : Nat} {fault : Fault ε}
    (failed : run m count = (after, .error fault)) (more : Nat) :
    run m (count + more) = (after, .error fault) := by
  rw [run_eq_error_iff] at failed ⊢
  exact steps_add_of_error failed more

end Memory

namespace Keyboard

variable {κ : Type v} [Keyboard κ] {keyboard : κ}

/-- A keyboard on which nobody presses a key. -/
def Idle (keyboard : κ) : Prop :=
  ∀ count, (poll (polled keyboard count)).2 = .ok []

theorem idle_of_poll (nothing : poll keyboard = (keyboard, .ok [])) : Idle keyboard := by
  intro count
  have unchanged : polled keyboard count = keyboard := by
    induction count with
    | zero => rfl
    | succ count ih => rw [polled, ih, nothing]
  rw [unchanged, nothing]

theorem Idle.keysAt (idle : Idle keyboard) (k : Nat) : Keyboard.keysAt keyboard k = [] := by
  rw [Keyboard.keysAt, keys, idle]
  rfl

theorem Idle.push_not_mem_ofFrames (idle : Idle keyboard) (settings : Settings) (count : Nat)
    (code : Word) : .push code ∉ Event.ofFrames settings keyboard count := by
  induction count with
  | zero => exact List.not_mem_nil
  | succ count ih =>
      rw [Event.ofFrames, Event.ofFrameAt, idle.keysAt, List.mem_append]
      simp [Event.ofFrame, Key.codes, ih]

end Keyboard

namespace Display

/-- What a display can be asked to do. -/
inductive Request where
  | write (offset : Nat) (value : Word)
  | refresh

namespace Request

def written? : Request → Option (Nat × Word)
  | .write offset value => some (offset, value)
  | .refresh => none

end Request

variable {δ : Type u} [Display δ]

def serve (display : δ) : Request → δ
  | .write offset value => (write display offset value).1
  | .refresh => (refresh display).1

/-- A display after a history of requests. -/
def serveAll (display : δ) (history : List Request) : δ :=
  history.foldl serve display

/-- The same display, had it never been refreshed. -/
def unrefreshed (display : δ) (history : List Request) : δ :=
  after display (history.filterMap Request.written?)

/-- A display whose refreshes go well, whatever came before, and change none of its answers. -/
structure Steady (display : δ) : Prop where
  refresh (history : List Request) : (refresh (serveAll display history)).2 = .ok ()
  write (history : List Request) (offset : Nat) (value : Word) :
    (write (serveAll display history) offset value).2 =
      (write (unrefreshed display history) offset value).2

theorem serveAll_concat (display : δ) (history : List Request) (request : Request) :
    serveAll display (history ++ [request]) = serve (serveAll display history) request := by
  simp only [serveAll, List.foldl_append, List.foldl_cons, List.foldl_nil]

theorem unrefreshed_write (display : δ) (history : List Request) (offset : Nat) (value : Word) :
    unrefreshed display (history ++ [.write offset value]) =
      (write (unrefreshed display history) offset value).1 := by
  simp only [unrefreshed, after, List.filterMap_append, List.filterMap_cons, List.filterMap_nil,
    Request.written?, List.foldl_append, List.foldl_cons, List.foldl_nil]

theorem unrefreshed_refresh (display : δ) (history : List Request) :
    unrefreshed display (history ++ [.refresh]) = unrefreshed display history := by
  simp only [unrefreshed, List.filterMap_append, List.filterMap_cons, List.filterMap_nil,
    Request.written?, List.append_nil]

/-- A display for which a refresh is nothing does not mind it. -/
theorem steady_of_refresh (unchanged : ∀ display : δ, refresh display = (display, .ok ()))
    (display : δ) : Steady display := by
  have same (history : List Request) : serveAll display history = unrefreshed display history := by
    induction history using List.reverseRecOn with
    | nil => rfl
    | append_singleton history request ih =>
        rw [serveAll_concat]
        cases request with
        | write offset value => rw [unrefreshed_write, serve, ih]
        | refresh => rw [unrefreshed_refresh, serve, unchanged, ih]
  constructor
  case refresh => exact fun history => congrArg Prod.snd (unchanged _)
  case write => exact fun history offset value => by rw [same]

end Display

namespace Watched

variable {δ : Type u} [Display δ]

theorem display_serve (watched : Watched δ) (request : Display.Request) :
    (Display.serve watched request).display = Display.serve watched.display request := by
  cases request <;> rfl

/-- A display does not notice that it is watched. -/
theorem display_serveAll (watched : Watched δ) (history : List Display.Request) :
    (Display.serveAll watched history).display = Display.serveAll watched.display history := by
  induction history generalizing watched with
  | nil => rfl
  | cons request rest ih => exact (ih _).trans (by rw [display_serve]; rfl)

theorem display_after (watched : Watched δ) (given : List (Nat × Word)) :
    (Display.after watched given).display = Display.after watched.display given := by
  induction given generalizing watched with
  | nil => rfl
  | cons call rest ih => exact ih _

theorem steady {display : δ} (steady : Display.Steady display) :
    Display.Steady ({ display } : Watched δ) where
  refresh history := by
    have fine := steady.refresh history
    rw [← display_serveAll { display }] at fine
    exact fine
  write history offset value := by
    have same := steady.write history offset value
    rw [Display.unrefreshed, ← display_serveAll { display }, ← display_after { display }] at same
    exact same

theorem calls_write (watched : Watched δ) (offset : Nat) (value : Word) :
    (Display.write watched offset value).1.calls = watched.calls ++
      [{ offset, value, answer := (Display.write watched offset value).2 }] := rfl

theorem calls_serveAll {display : δ} (steady : Display.Steady display)
    (history : List Display.Request) :
    (Display.serveAll ({ display } : Watched δ) history).calls =
      (Display.unrefreshed ({ display } : Watched δ) history).calls := by
  induction history using List.reverseRecOn with
  | nil => rfl
  | append_singleton history request ih =>
      rw [Display.serveAll_concat]
      cases request with
      | refresh =>
          rw [Display.unrefreshed_refresh, ← ih]
          rfl
      | write offset value =>
          have same := (Watched.steady steady).write history offset value
          rw [Display.unrefreshed_write, Display.serve, calls_write, calls_write, ih, same]

end Watched

namespace Wired

variable {δ : Type u} [Display δ]

/-- A machine whose display is refreshed every now and then, beside one whose display never is. -/
structure Beside (display : δ) (refreshed machine : Wired δ) : Prop where
  state : refreshed.state = machine.state
  videoWords : refreshed.videoWords = machine.videoWords
  served : ∃ history, refreshed.display = Display.serveAll display history ∧
    machine.display = Display.unrefreshed display history

theorem bisimulation_beside {display : δ} (steady : Display.Steady display) :
    Memory.Bisimulation (Beside display) where
  load := by
    rintro refreshed machine beside address
    exact congrArg (State.load · address) beside.state
  store := by
    rintro refreshed machine ⟨state, videoWords, history, served, unrefreshed⟩ address value
    have place : refreshed.videoOffset? address = machine.videoOffset? address :=
      videoOffset?_congr videoWords address
    have kept : refreshed.state.store address value = machine.state.store address value := by
      rw [state]
    simp only [Memory.store, store, place]
    cases machine.videoOffset? address with
    | none => exact ⟨⟨kept, videoWords, history, served, unrefreshed⟩, rfl⟩
    | some offset =>
        refine ⟨⟨kept, videoWords, history ++ [.write offset value], ?_, ?_⟩, ?_⟩
        · rw [Display.serveAll_concat, ← served, Display.serve]
        · rw [Display.unrefreshed_write, ← unrefreshed]
        · rw [served, unrefreshed]
          exact steady.write history offset value

theorem Beside.refresh {display : δ} {refreshed machine : Wired δ}
    (beside : Beside display refreshed machine) : Beside display refreshed.refresh.1 machine := by
  obtain ⟨state, videoWords, history, served, unrefreshed⟩ := beside
  refine ⟨state, videoWords, history ++ [.refresh], ?_, ?_⟩
  · rw [Display.serveAll_concat, ← served]
    rfl
  · rw [Display.unrefreshed_refresh, unrefreshed]

theorem Beside.refresh_answer {display : δ} {refreshed machine : Wired δ}
    (beside : Beside display refreshed machine) (steady : Display.Steady display) :
    refreshed.refresh.2 = .ok () := by
  obtain ⟨-, -, history, served, -⟩ := beside
  have answer := steady.refresh history
  rw [← served] at answer
  exact answer

theorem Beside.calls {display : δ} {refreshed machine : Wired (Watched δ)}
    (beside : Beside { display } refreshed machine) (steady : Display.Steady display) :
    refreshed.display.calls = machine.display.calls := by
  obtain ⟨history, served, unrefreshed⟩ := beside.served
  rw [served, unrefreshed, Watched.calls_serveAll steady]

theorem Beside.boot (program : List Word) (display : δ) (videoWords : Nat) :
    Beside display (.boot program display videoWords) (.boot program display videoWords) :=
  ⟨rfl, rfl, [], rfl, rfl⟩

end Wired

namespace Devices

variable {δ : Type u} {κ : Type v} [Display δ] [Keyboard κ]

/-- The devices of a console on whose keyboard nobody presses a key, beside a machine alone. -/
structure Follows (display : δ) (keyboard : κ) (devices : Devices δ κ) (machine : Wired δ) :
    Prop where
  beside : Wired.Beside display devices.machine machine
  keyboard : ∃ count, devices.keyboard = Keyboard.polled keyboard count

/-- Of all that happens in the frames of a console, only the steps count. -/
theorem performAll_follows {display : δ} {keyboard : κ} (steady : Display.Steady display)
    (idle : Keyboard.Idle keyboard) {devices : Devices δ κ} {machine : Wired δ}
    (follows : Follows display keyboard devices machine) {events : List Event}
    (unpushed : ∀ code, .push code ∉ events) :
    let stepped := Memory.steps machine (events.count .step)
    Follows display keyboard (devices.performAll events).1 stepped.1 ∧
      (devices.performAll events).2 = verdict .ofFault stepped.2 := by
  induction events generalizing devices machine with
  | nil => exact ⟨follows, rfl⟩
  | cons event rest ih =>
      have later : ∀ code, .push code ∉ rest :=
        fun code member => unpushed code (List.mem_cons_of_mem _ member)
      obtain ⟨beside, count, polled⟩ := follows
      rw [performAll_cons]
      cases event with
      | push code => exact absurd List.mem_cons_self (unpushed code)
      | poll =>
          have answer : (devices.perform .poll).2 = .ok () := by
            have nothing := idle count
            rw [← polled] at nothing
            simp only [perform, nothing, verdict]
          rw [answer, List.count_cons_of_ne Event.noConfusion]
          refine ih ⟨beside, count + 1, ?_⟩ later
          simp only [perform, polled, Keyboard.polled]
      | refresh =>
          have answer : (devices.perform .refresh).2 = .ok () := by
            simp only [perform, beside.refresh_answer steady, verdict]
          rw [answer, List.count_cons_of_ne Event.noConfusion]
          exact ih ⟨beside.refresh, count, polled⟩ later
      | step =>
          obtain ⟨next, answer⟩ := (Wired.bisimulation_beside steady).step beside
          rw [List.count_cons_self, Memory.steps_succ]
          simp only [perform, answer]
          cases (Memory.step machine).2 with
          | ok => exact ih ⟨next, count, polled⟩ later
          | error fault => exact ⟨⟨next, count, polled⟩, rfl⟩

end Devices

namespace Console

variable {δ : Type u} {κ : Type v} [Display δ] [Keyboard κ]

/-- A console that nobody disturbs ends like one run of its machine. -/
theorem run_follows (start : Console δ κ) (fresh : start.done = 0) {display : δ}
    (steady : Display.Steady display) (idle : Keyboard.Idle start.keyboard) {machine : Wired δ}
    (beside : Wired.Beside display start.machine machine) (settings : Settings) :
    let ended := start.run settings
    let alone := Memory.run machine settings.steps
    ended.2 = alone.2.mapError .ofFault ∧ Wired.Beside display ended.1.machine alone.1 := by
  intro ended alone
  have follows : Devices.Follows display start.keyboard start.devices machine :=
    ⟨beside, 0, rfl⟩
  rcases start.run_cases settings fresh with
    ⟨-, events, completes⟩ | ⟨k, events, quits⟩ | ⟨k, before, event, cause, fails⟩
  · have unpushed (code : Word) : .push code ∉ events := by
      rw [completes.happened]
      exact idle.push_not_mem_ofFrames settings settings.frames code
    have played := Devices.performAll_follows steady idle follows unpushed
    rw [completes.played, completes.steps] at played
    obtain ⟨⟨beside, -⟩, fine⟩ := played
    have steps : Memory.steps machine settings.steps =
        ((Memory.steps machine settings.steps).1, .ok ()) :=
      Prod.ext rfl (Devices.verdict_eq_ok_iff.mp fine.symm)
    have ran : alone = ((Memory.steps machine settings.steps).1, .ok settings.steps) :=
      (Memory.run_eq_ok_iff ..).mpr steps
    rw [ran]
    exact ⟨completes.result, beside⟩
  · have quit := quits.quit
    rw [idle.keysAt] at quit
    cases quit
  · obtain ⟨later, whole⟩ := fails.later
    have unpushed (code : Word) : .push code ∉ before ++ [event] := by
      intro member
      apply idle.push_not_mem_ofFrames settings (k + 1) code
      rw [whole]
      exact List.mem_append_left later member
    have enough : (before ++ [event]).count .step ≤ settings.steps := by
      have total := Event.count_step_ofFrames settings start.keyboard (k + 1) fun i _ => by
        rw [idle.keysAt]
        exact List.not_mem_nil
      rw [whole, List.count_append, Settings.doneBefore] at total
      omega
    have played := Devices.performAll_follows steady idle follows unpushed
    rw [fails.played] at played
    obtain ⟨⟨beside, -⟩, failed⟩ := played
    obtain ⟨fault, stops, wrapped⟩ := Devices.verdict_eq_error_iff.mp failed.symm
    have steps := Memory.steps_add_of_error (Prod.ext rfl stops)
      (settings.steps - (before ++ [event]).count .step)
    rw [Nat.add_sub_cancel' enough] at steps
    have ran : alone = (_, .error fault) := (Memory.run_eq_error_iff ..).mpr steps
    rw [ran]
    exact ⟨fails.result.trans (congrArg _ wrapped.symm), beside⟩

/-- A run can be cut into two anywhere. So a console on which nobody presses a key, and whose
    display does not mind being refreshed, gives the result of one run of its machine, with the
    words of that run and the same calls to the display, however long the slices are into which
    its clock rate cuts the run. -/
theorem slices_unseen {σ : Type w} {ε : Type x} [Memory σ ε] (m : σ) (program : List Word)
    (display : δ) (keyboard : κ) (settings : Settings) (steady : Display.Steady display)
    (idle : Keyboard.Idle keyboard) :
    (∀ count more after, Memory.run m count = (after, .ok count) →
      Memory.run m (count + more) =
        ((Memory.run after more).1, (Memory.run after more).2.map fun _ => count + more)) ∧
    (∀ count more after fault, Memory.run m count = (after, .error fault) →
      Memory.run m (count + more) = (after, .error fault)) ∧
    let machine : Wired (Watched δ) := .boot program { display } settings.videoWords
    let alone := Memory.run machine settings.steps
    ∀ clockHz,
      let clocked := { settings with clockHz }
      let ended := (Console.boot program display keyboard clocked).run clocked
      let watched := (Console.boot program ({ display } : Watched δ) keyboard clocked).run clocked
      watched.2 = alone.2.mapError .ofFault ∧
        watched.1.machine.state = alone.1.state ∧
        watched.1.machine.display.calls = alone.1.display.calls ∧
        ended.2 = watched.2 ∧ ended.1.machine.state = watched.1.machine.state := by
  refine ⟨fun count more after fine => Memory.run_add fine more,
    fun count more after fault failed => Memory.run_add_of_error failed more, ?_⟩
  intro machine alone clockHz clocked ended watched
  have seen := Wired.isMachineView_unwatched.run machine settings.steps
  have besideAlone : watched.2 = alone.2.mapError .ofFault ∧
      Wired.Beside { display } watched.1.machine alone.1 :=
    run_follows _ rfl (Watched.steady steady) idle (.boot ..) clocked
  have besideUnwatched :
      let unwatched := Memory.run machine.unwatched settings.steps
      ended.2 = unwatched.2.mapError .ofFault ∧
        Wired.Beside display ended.1.machine unwatched.1 :=
    run_follows _ rfl steady idle (.boot ..) clocked
  rw [seen] at besideUnwatched
  obtain ⟨result, beside⟩ := besideAlone
  obtain ⟨unwatchedResult, unwatched⟩ := besideUnwatched
  refine ⟨result, beside.state, beside.calls steady, ?_, ?_⟩
  · rw [unwatchedResult, result]
  · rw [unwatched.state, beside.state]
    rfl

/-- Clocks that make frames of one and of two instructions. The word that is no instruction is alone
    in its slice with the one, and the second of its slice with the other. -/
theorem slices_unseen_ending :
    let settings : Settings := { steps := 7 }
    let console (clockHz : Nat) : Console Recorder PressedKeys × Except Error Nat :=
      (Console.boot [0xa461, 0x7001, 0x8403] {} {} { settings with clockHz }).run
        { settings with clockHz }
    (Memory.run Wired.ending 2).2 = .ok 2 ∧
      (Memory.run Wired.ending 3).2 = .ok 3 ∧
      (Memory.run Wired.ending 4).2 = .error (.invalidOpcode { pc := 3, word := 0 }) ∧
      Memory.run Wired.ending 9 = Memory.run Wired.ending 4 ∧
      Display.Steady ({} : Recorder) ∧ Keyboard.Idle ({} : PressedKeys) ∧
      (console 60).2 = .error (.invalidOpcode { pc := 3, word := 0 }) ∧
      (console 120).2 = (console 60).2 ∧
      (console 120).1.machine.state = (console 60).1.machine.state := by
  intro settings console
  have steady : Display.Steady ({} : Recorder) := Display.steady_of_refresh (fun _ => rfl) _
  have idle : Keyboard.Idle ({} : PressedKeys) := Keyboard.idle_of_poll rfl
  have fine : (Memory.run Wired.ending 2).2 = .ok 2 := rfl
  have one : (Memory.run (Memory.run Wired.ending 2).1 1).2 = .ok 1 := rfl
  have fault : (Memory.run Wired.ending 4).2 = .error (.invalidOpcode { pc := 3, word := 0 }) := rfl
  have single : (Memory.run (Wired.boot [0xa461, 0x7001, 0x8403]
      ({ display := {} } : Watched Recorder) 384) 7).2 =
        .error (.invalidOpcode { pc := 3, word := 0 }) := rfl
  obtain ⟨more, stops, clocked⟩ :=
    slices_unseen Wired.ending [0xa461, 0x7001, 0x8403] ({} : Recorder) ({} : PressedKeys) settings
      steady idle
  obtain ⟨slow, slowState, -, slowUnwatched, slowUnwatchedState⟩ := clocked 60
  obtain ⟨fast, fastState, -, fastUnwatched, fastUnwatchedState⟩ := clocked 120
  refine ⟨fine, ?_, fault, ?_, steady, idle, ?_, ?_, ?_⟩
  · rw [more 2 1 (Memory.run Wired.ending 2).1 (Prod.ext rfl fine), one]
    rfl
  · rw [stops 4 5 (Memory.run Wired.ending 4).1 _ (Prod.ext rfl fault)]
    exact Prod.ext rfl fault.symm
  · rw [slowUnwatched, slow]
    exact congrArg (Except.mapError Error.ofFault) single
  · rw [fastUnwatched, fast, slowUnwatched, slow]
  · rw [fastUnwatchedState, fastState, slowUnwatchedState, slowState]

end Console
end Dcpu
