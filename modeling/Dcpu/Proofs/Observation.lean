import Dcpu.Proofs.Requests

/-! # Watching a machine

Two observers can be put into a machine without it noticing: a watch between the machine and its
display, which writes down every call and its answer, and a journal in front of the memory, which
writes down every store. What a machine tells its display is then read off the journal: each store
into the video window, once and in order.
-/

namespace Dcpu

universe u v w

/-- What a store puts into the memory, if it is one into the memory: offset and word. -/
def Address.stored (address : Address) (value : Word) : List (Word × Word) :=
  match address with
  | .ram offset => [(offset, value)]
  | _ => []

namespace Display

variable {δ : Type u} [Display δ]

/-- A display after it was given some words, with their offsets. -/
def after (display : δ) (given : List (Nat × Word)) : δ :=
  given.foldl (fun display call => (write display call.1 call.2).1) display

/-- A display that refuses no word of a video window, whatever it was given of it before. -/
def Accepts (videoWords : Nat) (display : δ) : Prop :=
  ∀ given : List (Nat × Word), (∀ call ∈ given, call.1 < videoWords) →
    ∀ offset < videoWords, ∀ value, (write (after display given) offset value).2 = .ok ()

theorem Accepts.answer {videoWords : Nat} {display : δ} (accepts : Accepts videoWords display)
    {offset : Nat} (inside : offset < videoWords) (value : Word) :
    (write display offset value).2 = .ok () :=
  accepts [] (fun _ member => absurd member List.not_mem_nil) offset inside value

theorem Accepts.next {videoWords : Nat} {display : δ} (accepts : Accepts videoWords display)
    {offset : Nat} (inside : offset < videoWords) (value : Word) :
    Accepts videoWords (write display offset value).1 := by
  intro given within
  refine accepts ((offset, value) :: given) ?_
  intro call member
  rcases List.mem_cons.mp member with rfl | member
  · exact inside
  · exact within call member

end Display

/-- A word that a display was given, and what it answered. -/
structure Call where
  offset : Nat
  value : Word
  answer : Except DeviceError Unit

namespace Call

def shown (call : Call) : Nat × Word :=
  (call.offset, call.value)

def refusal? (call : Call) : Option DeviceError :=
  Memory.failure? call.answer

end Call

structure Watched (δ : Type u) where
  display : δ
  /-- All calls so far, the oldest first. Refused ones are among them. -/
  calls : List Call := []

instance {δ : Type u} [Display δ] : Display (Watched δ) where
  write watched offset value :=
    let (display, answer) := Display.write watched.display offset value
    ({ display, calls := watched.calls ++ [{ offset, value, answer }] }, answer)
  refresh watched :=
    let (display, answer) := Display.refresh watched.display
    ({ watched with display }, answer)

structure Entry (ε : Type v) where
  address : Address
  value : Word
  answer : Except ε Unit

structure Journal (σ : Type u) (ε : Type v) where
  memory : σ
  /-- All stores so far, the oldest first. Failed ones are among them. -/
  entries : List (Entry ε) := []

namespace Journal

variable {σ : Type u} {ε : Type v}

instance [Loadable σ] : Loadable (Journal σ ε) where
  loadProgram journal program :=
    { journal with memory := Loadable.loadProgram journal.memory program }

def map {τ : Type w} (view : σ → τ) (journal : Journal σ ε) : Journal τ ε where
  memory := view journal.memory
  entries := journal.entries

/-- The stores of a journal that went into the memory, as offsets and words. -/
def words (journal : Journal σ ε) : List (Word × Word) :=
  journal.entries.flatMap fun entry => entry.address.stored entry.value

/-- Whether a cell was stored to since the journal was begun. -/
def Stored (journal : Journal σ ε) (address : Address) : Prop :=
  ∃ entry ∈ journal.entries, entry.address = address

variable [Memory σ ε]

instance : Memory (Journal σ ε) ε where
  load journal := Memory.load journal.memory
  store journal address value :=
    let (memory, answer) := Memory.store journal.memory address value
    ({ memory, entries := journal.entries ++ [{ address, value, answer }] }, answer)

instance [LawfulMemory σ] : LawfulMemory (Journal σ ε) where
  load_store journal := LawfulMemory.load_store journal.memory

@[simp]
theorem words_store (journal : Journal σ ε) (address : Address) (value : Word) :
    (Memory.store journal address value).1.words = journal.words ++ address.stored value := by
  simp only [Memory.store, words, List.flatMap_append, List.flatMap_singleton]

theorem memory_store (journal : Journal σ ε) (address : Address) (value : Word) :
    (Memory.store journal address value).1.memory =
      (Memory.store journal.memory address value).1 := rfl

@[simp]
theorem stored_store (journal : Journal σ ε) (a b : Address) (value : Word) :
    (Memory.store journal a value).1.Stored b ↔ journal.Stored b ∨ a = b := by
  simp only [Memory.store, Stored, List.mem_append, List.mem_singleton, or_and_right, exists_or,
    exists_eq_left]

/-- A cell keeps its word until it is stored to. -/
theorem stable_kept [LawfulMemory σ] (original : Address → Word) :
    Memory.Stable fun journal : Journal σ ε =>
      ∀ address, ¬ journal.Stored address → Memory.load journal address = original address := by
  intro journal a value kept address unstored
  rw [stored_store, not_or] at unstored
  rw [LawfulMemory.load_store, if_neg (Ne.symm unstored.2)]
  exact kept address unstored.1

/-- A journal changes nothing for the memory. -/
theorem isView_memory : Memory.View (memory : Journal σ ε → σ) where
  load _ _ := rfl
  store _ _ _ := rfl

theorem isMachineView_memory [Loadable σ] : Memory.MachineView (memory : Journal σ ε → σ) where
  toView := isView_memory
  loadProgram _ _ := rfl

theorem isMachineView_map [Loadable σ] {τ : Type w} [Memory τ ε] [Loadable τ] {view : σ → τ}
    (isView : Memory.MachineView view) :
    Memory.MachineView (map view : Journal σ ε → Journal τ ε) where
  load journal := isView.load journal.memory
  store journal address value := by
    simp only [Memory.store, map, isView.store]
  loadProgram journal program := by
    simp only [Loadable.loadProgram, map, isView.loadProgram]

end Journal

namespace Memory

variable {σ : Type u} {ε : Type v} [Memory σ ε] [Loadable σ]

/-- Whether an action writes a cell, by one of its stores or with a program that reaches it. -/
def Writes (m : σ) (action : Action) (address : Address) : Prop :=
  match action with
  | .request (.loadProgram program) =>
      ∃ offset, address = .ram offset ∧ offset.toNat < program.length
  | action => (act ({ memory := m } : Journal σ ε) action).Stored address

variable [LawfulLoadable σ] {m : σ} {address : Address}

theorem load_loadProgram_of_not_writes {program : List Word}
    (unwritten : ¬ Writes m (.request (.loadProgram program)) address) :
    load (Loadable.loadProgram m program) address = load m address := by
  cases address with
  | ram offset =>
      have beyond : program.length ≤ offset.toNat :=
        Nat.le_of_not_lt fun reached => unwritten ⟨offset, rfl, reached⟩
      rw [LawfulLoadable.load_ram, List.getElem?_eq_none beyond, Option.getD_none]
  | _ => exact LawfulLoadable.load_other m program fun _ => Address.noConfusion

/-- A cell that an action does not write keeps its word. -/
theorem load_act_of_not_writes [LawfulMemory σ] {action : Action}
    (unwritten : ¬ Writes m action address) : load (act m action) address = load m address := by
  let journal : Journal σ ε := { memory := m }
  have kept (loads : ¬ action.Loads) (unstored : ¬ (act journal action).Stored address) :
      load (act m action) address = load m address := by
    have seen : act m action = (act journal action).memory :=
      Journal.isMachineView_memory.act journal action
    rw [seen]
    exact (Journal.stable_kept (load m)).act (fun _ _ => rfl)
      (fun copied => absurd copied loads) address unstored
  cases action with
  | run | push => exact kept id unwritten
  | request request =>
      cases request with
      | loadProgram program => exact load_loadProgram_of_not_writes unwritten
      | load | store | fetch | step => exact kept id unwritten

end Memory

namespace Wired

variable {δ : Type u}

def watched (machine : Wired δ) : Wired (Watched δ) where
  state := machine.state
  display := { display := machine.display }
  videoWords := machine.videoWords

def journaled (machine : Wired δ) : Journal (Wired δ) DeviceError where
  memory := machine

def unwatched (machine : Wired (Watched δ)) : Wired δ where
  state := machine.state
  display := machine.display.display
  videoWords := machine.videoWords

/-- What a display is told of a word stored into the memory: nothing, unless its offset lies in the
    video window. -/
def window (videoWords : Nat) : Word × Word → List (Nat × Word)
  | (offset, value) =>
      if 0x8000 ≤ offset.toNat ∧ offset.toNat - 0x8000 < videoWords then
        [(offset.toNat - 0x8000, value)]
      else []

theorem videoOffset?_ram (machine : Wired δ) (offset : Word) :
    machine.videoOffset? (.ram offset) =
      if 0x8000 ≤ offset.toNat ∧ offset.toNat - 0x8000 < machine.videoWords then
        some (offset.toNat - 0x8000)
      else none := by
  simp only [videoOffset?, Address.video]
  by_cases above : (0x8000 : Word) ≤ offset
  · have le : 0x8000 ≤ offset.toNat := UInt16.le_iff_toNat_le.mp above
    have difference : (offset - 0x8000).toNat = offset.toNat - 0x8000 :=
      UInt16.toNat_sub_of_le _ _ above
    simp only [above, le, difference]
  · have below : ¬ 0x8000 ≤ offset.toNat := fun le => above (UInt16.le_iff_toNat_le.mpr le)
    simp only [above, below, false_and, if_false]

/-- Where a cell is in the video window depends on nothing but how large that is. -/
theorem videoOffset?_congr {γ : Type v} {machine : Wired δ} {other : Wired γ}
    (same : machine.videoWords = other.videoWords) (address : Address) :
    machine.videoOffset? address = other.videoOffset? address := by
  cases address <;> simp only [videoOffset?, same]

theorem videoOffset?_lt {machine : Wired δ} {address : Address} {offset : Nat}
    (inside : machine.videoOffset? address = some offset) : offset < machine.videoWords := by
  cases address with
  | ram word =>
      rw [videoOffset?_ram] at inside
      split at inside
      · rename_i window
        exact Option.some.inj inside ▸ window.2
      · cases inside
  | _ => cases inside

variable [Display δ]

@[simp]
theorem store_state (machine : Wired δ) (address : Address) (value : Word) :
    (Memory.store machine address value).1.state = machine.state.store address value :=
  machine.state_store address value

@[simp]
theorem store_videoWords (machine : Wired δ) (address : Address) (value : Word) :
    (Memory.store machine address value).1.videoWords = machine.videoWords := by
  simp only [Memory.store, store]
  split <;> rfl

theorem store_display (machine : Wired δ) (address : Address) (value : Word) :
    (Memory.store machine address value).1.display =
      match machine.videoOffset? address with
      | none => machine.display
      | some offset => (Display.write machine.display offset value).1 := by
  simp only [Memory.store, store]
  cases machine.videoOffset? address <;> rfl

/-- The machine does not notice that its display is watched. -/
theorem isMachineView_unwatched : Memory.MachineView (unwatched : Wired (Watched δ) → Wired δ) where
  load _ _ := rfl
  store machine address value := by
    have place : machine.unwatched.videoOffset? address = machine.videoOffset? address :=
      videoOffset?_congr rfl address
    simp only [Memory.store, store, place]
    cases machine.videoOffset? address <;> rfl
  loadProgram _ _ := rfl

/-- A store makes at most one call, whose answer is that of the store. -/
theorem store_calls (machine : Wired (Watched δ)) (address : Address) (value : Word) :
    (Memory.store machine address value).1.display.calls =
      machine.display.calls ++ (machine.videoOffset? address).toList.map fun offset =>
        { offset, value, answer := (Memory.store machine address value).2 } := by
  simp only [Memory.store, store]
  cases machine.videoOffset? address with
  | none => simp
  | some offset => rfl

theorem store_shown (machine : Wired (Watched δ)) (address : Address) (value : Word) :
    (Memory.store machine address value).1.display.calls.map Call.shown =
      machine.display.calls.map Call.shown ++
        (address.stored value).flatMap (window machine.videoWords) := by
  rw [store_calls, List.map_append, List.append_cancel_left_eq, List.map_map]
  cases address with
  | ram offset =>
      simp only [videoOffset?_ram, Address.stored, List.flatMap_singleton, window]
      split <;> rfl
  | _ => rfl

/-- In the course of a history a display is told of the stores into the video window. -/
theorem calls_actAll (machine : Wired δ) (actions : List Action) :
    (Memory.actAll machine.watched actions).display.calls.map Call.shown =
      (Memory.actAll machine.journaled actions).words.flatMap (window machine.videoWords) := by
  let start : Journal (Wired (Watched δ)) DeviceError := machine.watched.journaled
  have forwarded : Memory.Stable fun journal : Journal (Wired (Watched δ)) DeviceError =>
      journal.memory.videoWords = machine.videoWords ∧
        journal.memory.display.calls.map Call.shown =
          journal.words.flatMap (window machine.videoWords) := by
    rintro journal address value ⟨videoWords, calls⟩
    refine ⟨(store_videoWords ..).trans videoWords, (store_shown ..).trans ?_⟩
    simp only [calls, videoWords, Journal.words_store, List.flatMap_append]
  have watched : Memory.actAll machine.watched actions = (Memory.actAll start actions).memory :=
    Journal.isMachineView_memory.actAll start actions
  have unwatched :
      (Memory.actAll machine.journaled actions).words = (Memory.actAll start actions).words :=
    congrArg Journal.words ((Journal.isMachineView_map isMachineView_unwatched).actAll start actions)
  rw [watched, unwatched]
  exact (forwarded.actAll (m := start) ⟨rfl, rfl⟩ fun _ _ _ _ _ holds => holds).2

theorem store_accepts (machine : Wired δ) (address : Address) (value : Word)
    (accepts : Display.Accepts machine.videoWords machine.display) :
    Display.Accepts machine.videoWords (Memory.store machine address value).1.display ∧
      (Memory.store machine address value).2 = .ok () := by
  simp only [Memory.store, store]
  cases place : machine.videoOffset? address with
  | none => exact ⟨accepts, rfl⟩
  | some offset =>
      have inside := videoOffset?_lt place
      exact ⟨accepts.next inside value, accepts.answer inside value⟩

theorem stable_accepts : Memory.Stable fun machine : Wired δ =>
    Display.Accepts machine.videoWords machine.display := by
  intro machine address value accepts
  rw [store_videoWords]
  exact (machine.store_accepts address value accepts).1

theorem stable_accepted : Memory.Stable fun machine : Wired (Watched δ) =>
    Display.Accepts machine.videoWords machine.display.display ∧
      ∀ call ∈ machine.display.calls, call.answer = .ok () := by
  rintro machine address value ⟨accepts, accepted⟩
  have seen := isMachineView_unwatched.store machine address value
  obtain ⟨next, answer⟩ := machine.unwatched.store_accepts address value accepts
  rw [seen] at next answer
  rw [store_videoWords, store_calls]
  refine ⟨next, fun call member => ?_⟩
  rcases List.mem_append.mp member with member | member
  · exact accepted call member
  · obtain ⟨offset, -, rfl⟩ := List.mem_map.mp member
    exact answer

/-- If a display refuses nothing, no call of a history is refused. -/
theorem calls_accepted (machine : Wired δ)
    (accepts : Display.Accepts machine.videoWords machine.display) (actions : List Action) :
    ∀ call ∈ (Memory.actAll machine.watched actions).display.calls, call.answer = .ok () := by
  have start : ∀ call ∈ machine.watched.display.calls, call.answer = .ok () :=
    fun _ member => absurd member List.not_mem_nil
  exact (stable_accepted.actAll (m := machine.watched) ⟨accepts, start⟩
    fun _ _ _ _ _ holds => holds).2

end Wired

namespace Memory

variable {σ : Type u} {ε : Type v} [Memory σ ε] [Loadable σ]

/-- A memory none of whose stores fails, whatever happens to it before. -/
def Accepting (m : σ) : Prop :=
  ∀ actions address value, (store (actAll m actions) address value).2 = .ok ()

namespace Accepting

variable {m : σ}

theorem act (accepting : Accepting m) (action : Action) : Accepting (Memory.act m action) :=
  fun actions => accepting (action :: actions)

theorem store (accepting : Accepting m) (address : Address) (value : Word) :
    Accepting (Memory.store m address value).1 :=
  accepting.act (.request (.store address value))

theorem answer (accepting : Accepting m) (address : Address) (value : Word) :
    (Memory.store m address value).2 = .ok () :=
  accepting [] address value

end Accepting
end Memory

/-- Nothing is behind a private memory that could fail. -/
theorem State.accepting (s : State) : Memory.Accepting s :=
  fun _ _ _ => rfl

theorem Wired.accepting {δ : Type u} [Display δ] (machine : Wired δ)
    (accepts : Display.Accepts machine.videoWords machine.display) : Memory.Accepting machine := by
  intro actions address value
  have kept : Display.Accepts (Memory.actAll machine actions).videoWords
      (Memory.actAll machine actions).display :=
    stable_accepts.actAll accepts fun _ _ _ _ _ holds => holds
  exact (Wired.store_accepts _ address value kept).2

end Dcpu
