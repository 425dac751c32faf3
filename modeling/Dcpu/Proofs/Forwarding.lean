import Dcpu.Proofs.Stores

/-! # What a display is told

Every action makes a definite contribution to what the display is told: a store or a push the word
it stores, a step the word its instruction stores, and a run what its steps contribute, each only
if it lies in the video window. Nothing else is ever told, and nothing is told twice or out of
order. Loads, fetched and copied words, tests and words that are no instruction tell nothing.
-/

namespace Dcpu

universe u v

namespace Memory

variable {σ : Type u} {ε : Type v} [Memory σ ε]

/-- The words that a run stores into the memory: those of its steps, with the one that stops it. -/
def runWords (m : σ) : Nat → List (Word × Word)
  | 0 => []
  | count + 1 =>
      stepWords m ++ match step m with
        | (m, .ok ()) => runWords m count
        | (_, .error _) => []

/-- The words that an action stores into the memory. A program that is copied is not stored. -/
def actionWords (m : σ) : Action → List (Word × Word)
  | .request (.store address value) => address.stored value
  | .request .step => stepWords m
  | .request (.load _) | .request (.loadProgram _) | .request (.fetch _) => []
  | .run budget => runWords m budget
  | .push ring key => if load m ring.slot = 0 then ring.slot.stored key else []

theorem words_steps [LawfulMemory σ] (journal : Journal σ ε) (count : Nat) :
    (steps journal count).1.words = journal.words ++ runWords journal.memory count := by
  induction count generalizing journal with
  | zero => exact (List.append_nil _).symm
  | succ count ih =>
      have stepped := Journal.isView_memory.step journal
      have words := words_step journal
      rw [steps_succ, runWords, stepped]
      cases answer : (step journal).2 with
      | ok => rw [ih, words, List.append_assoc]
      | error fault => simpa only [List.append_nil] using words

theorem words_act [LawfulMemory σ] [Loadable σ] (journal : Journal σ ε) (action : Action) :
    (act journal action).words = journal.words ++ actionWords journal.memory action := by
  cases action with
  | run budget => exact words_steps journal budget
  | push ring key =>
      simp only [act, actionWords, KeyRing.push_eq, ← Journal.isView_memory.load journal]
      split
      · exact Journal.words_store ..
      · exact (List.append_nil _).symm
  | request request =>
      cases request with
      | step => exact words_step journal
      | store address value => exact Journal.words_store ..
      | load | loadProgram | fetch => exact (List.append_nil _).symm

end Memory

namespace Wired

variable {δ : Type u} [Display δ]

def contribution (machine : Wired δ) (action : Action) : List (Nat × Word) :=
  (Memory.actionWords machine action).flatMap (window machine.videoWords)

def contributions (machine : Wired δ) : List Action → List (Nat × Word)
  | [] => []
  | action :: rest =>
      machine.contribution action ++ contributions (Memory.act machine action) rest

theorem videoWords_act (machine : Wired δ) (action : Action) :
    (Memory.act machine action).videoWords = machine.videoWords := by
  have stable : Memory.Stable fun m : Wired δ => m.videoWords = machine.videoWords :=
    fun m address value same => (store_videoWords m address value).trans same
  exact stable.act rfl fun _ _ => rfl

theorem words_actAll (machine : Wired δ) (actions : List Action)
    (journal : Journal (Wired δ) DeviceError) (start : journal.memory = machine) :
    (Memory.actAll journal actions).words.flatMap (window machine.videoWords) =
      journal.words.flatMap (window machine.videoWords) ++ machine.contributions actions := by
  induction actions generalizing machine journal with
  | nil => exact (List.append_nil _).symm
  | cons action rest ih =>
      subst start
      have acted := Journal.isMachineView_memory.act journal action
      have videoWords := videoWords_act journal.memory action
      rw [Memory.actAll, contributions, ← videoWords, ih _ _ acted.symm, videoWords,
        Memory.words_act, List.flatMap_append, List.append_assoc, contribution]

theorem calls_act (machine : Wired δ) (action : Action) :
    (Memory.act machine.watched action).display.calls.map Call.shown =
      machine.contribution action := by
  have calls := calls_actAll machine [action]
  rw [words_actAll machine [action] _ rfl] at calls
  exact calls.trans (List.append_nil _)

/-- A single request tells the display at most one word. -/
theorem length_contribution_le (machine : Wired δ) (request : Request) :
    (machine.contribution (.request request)).length ≤ 1 := by
  have words : (Memory.actionWords machine (.request request)).length ≤ 1 := by
    cases request with
    | load | loadProgram | fetch => exact Nat.zero_le 1
    | store address value => cases address <;> simp [Memory.actionWords, Address.stored]
    | step =>
        simp only [Memory.actionWords, Memory.stepWords, List.length_map]
        cases Memory.stored? machine <;> simp
  rw [contribution]
  cases stored : Memory.actionWords machine (.request request) with
  | nil => exact Nat.zero_le 1
  | cons word rest =>
      rw [stored, List.length_cons] at words
      obtain rfl : rest = [] := List.eq_nil_of_length_eq_zero (by omega)
      rw [List.flatMap_singleton, window]
      split <;> simp

/-- In the course of a history a display is told the contributions of the actions, one after the
    other, whatever it makes of them. -/
theorem calls_eq_contributions (machine : Wired δ) (actions : List Action) :
    (Memory.actAll machine.watched actions).display.calls.map Call.shown =
      machine.contributions actions := by
  rw [calls_actAll, words_actAll machine actions _ rfl]
  rfl

/-- A machine with a window of two words, whose program stores a letter into the first of them. -/
def lettering : Wired NoDisplay :=
  .boot [0x7de1, 0x8000, 0xf041] {} 2

/-- Its step, and stores behind the window and into its second word. -/
def lettering.actions : List Action :=
  [.request .step, .request (.store (.ram 0x8002) 5), .request (.store (.ram 0x8001) 7)]

theorem calls_eq_contributions_lettering :
    (Memory.step lettering).2 = .ok () ∧
      (Memory.actAll lettering.watched lettering.actions).display.calls.map Call.shown =
        [(0, 0xf041), (1, 7)] := by
  have told : lettering.contributions lettering.actions = [(0, 0xf041), (1, 7)] := rfl
  exact ⟨rfl, (lettering.calls_eq_contributions lettering.actions).trans told⟩

end Wired
end Dcpu
