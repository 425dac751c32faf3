import Dcpu.Proofs.KeyQueue
import Dcpu.Screen.TextScreen

/-! # Keys whose store fails

A push is whole if the key is in its slot and the ring has gone on, or if nothing has changed at all.
A push whose store fails is neither, since the store has written the key all the same: the key is in
its slot, and the ring has not gone on. A program that takes the key then goes on alone, and the
next key is put where the program has just been.
-/

namespace Dcpu

universe u v w

namespace KeyRing

section Push

variable {σ : Type u} {ε : Type v} [Memory σ ε]

/-- Nothing has come of a push. -/
def Untouched (ring : KeyRing) (m : σ) (key : Word) : Prop :=
  let after := (ring.push m key).1
  after.1 = ring ∧ ∀ address, Memory.load after.2 address = Memory.load m address

/-- The key of a push is in its slot, and the ring has gone on to the next one. -/
def Delivered (ring : KeyRing) (m : σ) (key : Word) : Prop :=
  let after := (ring.push m key).1
  Memory.load after.2 ring.slot = key ∧ (after.1.next : Nat) = (ring.next + 1) % 16

def Whole (ring : KeyRing) (m : σ) (key : Word) : Prop :=
  Untouched ring m key ∨ Delivered ring m key

theorem slot_advance_ne (ring : KeyRing) : ring.advance.slot ≠ ring.slot := by
  have apart := ring.slot_past_inj (i := 1) (j := 0) (by decide) (by decide)
  exact fun same => absurd (apart.mp same) Nat.one_ne_zero

theorem untouched_of_full {ring : KeyRing} {m : σ} (full : Memory.load m ring.slot ≠ 0)
    (key : Word) : Untouched ring m key := by
  simp only [Untouched, push_eq, if_neg full, implies_true, and_self]

theorem push_of_error {ring : KeyRing} {m : σ} {key : Word} {cause : ε}
    (empty : Memory.load m ring.slot = 0)
    (failed : (Memory.store m ring.slot key).2 = .error cause) :
    (ring.push m key).1.1 = ring ∧ (ring.push m key).2 = .error cause := by
  simp only [push_eq, if_pos empty, failed, Except.map, and_self]

variable [LawfulMemory σ] {ring : KeyRing} {m : σ}

/-- Into an empty slot the key is written in any case. -/
theorem load_push_of_empty (empty : Memory.load m ring.slot = 0) (key : Word)
    (address : Address) :
    Memory.load (ring.push m key).1.2 address =
      if address = ring.slot then key else Memory.load m address := by
  rw [push_eq, if_pos empty, LawfulMemory.load_store]

theorem delivered_of_ok {key : Word} (empty : Memory.load m ring.slot = 0)
    (fine : (Memory.store m ring.slot key).2 = .ok ()) : Delivered ring m key := by
  refine ⟨(load_push_of_empty empty key _).trans (if_pos rfl), ?_⟩
  rw [push_eq, if_pos empty, fine]
  rfl

theorem not_whole_of_error {key : Word} {cause : ε} (nonzero : key ≠ 0)
    (empty : Memory.load m ring.slot = 0)
    (failed : (Memory.store m ring.slot key).2 = .error cause) : ¬ Whole ring m key := by
  rintro (⟨-, same⟩ | ⟨-, gone⟩)
  · have written := load_push_of_empty empty key ring.slot
    rw [same, empty, if_pos rfl] at written
    exact nonzero written.symm
  · rw [(push_of_error empty failed).1] at gone
    omega

theorem whole_iff {key : Word} (nonzero : key ≠ 0) :
    Whole ring m key ↔
      Memory.load m ring.slot ≠ 0 ∨ (Memory.store m ring.slot key).2 = .ok () := by
  by_cases empty : Memory.load m ring.slot = 0
  · cases answer : (Memory.store m ring.slot key).2 with
    | ok => exact iff_of_true (.inr (delivered_of_ok empty answer)) (.inr rfl)
    | error cause =>
        refine iff_of_false (not_whole_of_error nonzero empty answer) ?_
        rintro (full | fine)
        · exact full empty
        · cases fine
  · exact iff_of_true (.inl (untouched_of_full empty key)) (.inl empty)

end Push

section Display

variable {δ : Type u} [Display δ]

/-- The store of a key fails only where the video window covers the slot. -/
theorem store_slot_eq_ok_iff (machine : Wired δ) (ring : KeyRing) (key : Word) :
    (Memory.store machine ring.slot key).2 = .ok () ↔
      machine.videoWords ≤ 0x1000 + ring.next ∨
        (Display.write machine.display (0x1000 + ring.next) key).2 = .ok () := by
  simp only [Memory.store, Wired.store, videoOffset?_slot]
  by_cases covered : 0x1000 + (ring.next : Nat) < machine.videoWords
  · simp only [if_pos covered, Nat.not_le.mpr covered, false_or]
  · simp only [if_neg covered, Nat.le_of_not_lt covered, true_or]

end Display

section Whole

variable {σ : Type u} {ε : Type v} [Memory σ ε] [LawfulMemory σ] {δ : Type w} [Display δ]

/-- A push is whole unless its store fails. If that fails, the key is in its slot, no other cell has
    changed, and the ring still points there. On a wired machine this takes a video window that
    covers the slot, and a display that refuses the key. -/
theorem push_whole_iff (m : σ) (machine : Wired δ) (ring : KeyRing) {key : Word}
    (nonzero : key ≠ 0) :
    (Whole ring m key ↔
      Memory.load m ring.slot ≠ 0 ∨ (Memory.store m ring.slot key).2 = .ok ()) ∧
    (Whole ring machine key ↔
      Memory.load machine ring.slot ≠ 0 ∨ machine.videoWords ≤ 0x1000 + ring.next ∨
        (Display.write machine.display (0x1000 + ring.next) key).2 = .ok ()) ∧
    (∀ cause, (ring.push m key).2 = .error cause →
      (ring.push m key).1.1 = ring ∧
      ∀ address, Memory.load (ring.push m key).1.2 address =
        if address = ring.slot then key else Memory.load m address) := by
  refine ⟨whole_iff nonzero, ?_, ?_⟩
  · rw [whole_iff nonzero, store_slot_eq_ok_iff]
  · intro cause failed
    have empty : Memory.load m ring.slot = 0 := by
      apply Classical.byContradiction
      intro full
      rw [push_eq, if_neg full] at failed
      cases failed
    cases answer : (Memory.store m ring.slot key).2 with
    | ok =>
        rw [push_eq, if_pos empty, answer] at failed
        cases failed
    | error other => exact ⟨(push_of_error empty answer).1, load_push_of_empty empty key⟩

end Whole

/-- A machine whose video window covers the keyboard ring, while its screen is a single cell. -/
def wideWindow : Wired TextScreen :=
  .boot [] (.blank 1 1) 0x2000

/-- A machine whose video window ends right before the keyboard ring. -/
def narrowWindow : Wired TextScreen :=
  .boot [] (.blank 1 1) 0x1000

theorem push_whole_iff_windows :
    (65 : Word) ≠ 0 ∧ Whole {} narrowWindow 65 ∧
      (push {} wideWindow 65).2 = .error (.offScreen 0x1000 1 1) ∧
      (push {} wideWindow 65).1.1 = {} ∧
      Memory.load (push {} wideWindow 65).1.2 (.ram 0x9000) = 65 := by
  have nonzero : (65 : Word) ≠ 0 := by decide
  obtain ⟨-, whole, failing⟩ := push_whole_iff wideWindow narrowWindow {} nonzero
  have failed : (push {} wideWindow 65).2 = .error (.offScreen 0x1000 1 1) := rfl
  obtain ⟨stays, written⟩ := failing _ failed
  exact ⟨nonzero, whole.mpr (.inr (.inl (Nat.le_refl _))), failed, stays,
    (written _).trans (if_pos rfl)⟩

end KeyRing

namespace Exchange

variable {σ : Type u} {ε : Type v} [Memory σ ε] [LawfulMemory σ]

omit [LawfulMemory σ] in
/-- Whatever its answer, a push leaves the reading of keys to the program. -/
theorem push_fields (x : Exchange σ) (key : Word) :
    (x.push key).ring = (x.ring.push x.memory key).1.1 ∧
      (x.push key).memory = (x.ring.push x.memory key).1.2 ∧
      (x.push key).reader = x.reader ∧ (x.push key).taken = x.taken := by
  unfold push
  split <;> rename_i pushed <;> simp only [pushed, and_self]

omit [LawfulMemory σ] in
theorem take_of_key {x : Exchange σ} {key : Word} (nonzero : key ≠ 0)
    (found : Memory.load x.memory x.reader.slot = key) :
    x.take = { x with
      memory := (Memory.store x.memory x.reader.slot 0).1
      reader := x.reader.advance
      taken := x.taken ++ [key] } := by
  simp only [take, found, nonzero, if_false]

omit [LawfulMemory σ] in
theorem take_of_empty {x : Exchange σ} (empty : Memory.load x.memory x.reader.slot = 0) :
    x.take = x := by
  simp only [take, empty, if_true]

/-- A program that is one slot ahead of the ring does not find what is pushed next. -/
theorem take_push_of_ahead {x : Exchange σ} (ahead : x.reader = x.ring.advance)
    (empty : ∀ index, Memory.load x.memory (KeyRing.slotAt index) = 0) (key : Word) :
    Memory.load (x.push key).memory x.ring.slot = key ∧ (x.push key).take = x.push key := by
  obtain ⟨-, memory, reader, -⟩ := x.push_fields key
  have written (index : Fin 16) : Memory.load (x.push key).memory (KeyRing.slotAt index) =
      if KeyRing.slotAt index = x.ring.slot then key else 0 := by
    rw [memory, KeyRing.load_push_of_empty (empty x.ring.next), empty index]
  have apart : x.reader.slot ≠ x.ring.slot := by
    rw [ahead]
    exact x.ring.slot_advance_ne
  refine ⟨(written x.ring.next).trans (if_pos rfl), take_of_empty ?_⟩
  rw [reader]
  exact (written x.reader.next).trans (if_neg apart)

/-- A ring and a program that are at the same slot of an empty ring part with a push whose store
    fails: the program takes the key and is ahead of the ring. Whatever is pushed then is put into
    the slot behind the program, which does not find it. -/
theorem parts_of_failed_push {x : Exchange σ} {key : Word} {cause : ε}
    (together : x.reader = x.ring)
    (empty : ∀ index, Memory.load x.memory (KeyRing.slotAt index) = 0) (nonzero : key ≠ 0)
    (failed : (Memory.store x.memory x.ring.slot key).2 = .error cause) :
    let y := (x.push key).take
    y.taken = x.taken ++ [key] ∧ y.ring = x.ring ∧ y.reader = x.ring.advance ∧
      ∀ later, Memory.load (y.push later).memory x.ring.slot = later ∧
        (y.push later).take = y.push later := by
  intro y
  have free : Memory.load x.memory x.ring.slot = 0 := empty x.ring.next
  obtain ⟨ring, memory, reader, taken⟩ := x.push_fields key
  rw [(KeyRing.push_of_error free failed).1] at ring
  have written (address : Address) : Memory.load (x.push key).memory address =
      if address = x.ring.slot then key else Memory.load x.memory address := by
    rw [memory, KeyRing.load_push_of_empty free]
  have here : (x.push key).reader.slot = x.ring.slot := by
    rw [reader, together]
  have found : Memory.load (x.push key).memory (x.push key).reader.slot = key := by
    rw [here, written, if_pos rfl]
  have took : y = _ := take_of_key nonzero found
  have sameRing : y.ring = x.ring := by
    rw [took, ring]
  have ahead : y.reader = x.ring.advance := by
    rw [took, reader, together]
  have emptied (index : Fin 16) : Memory.load y.memory (KeyRing.slotAt index) = 0 := by
    rw [took, LawfulMemory.load_store, here, written, empty index]
    by_cases same : KeyRing.slotAt index = x.ring.slot
    · rw [if_pos same]
    · rw [if_neg same, if_neg same]
  refine ⟨?_, sameRing, ahead, ?_⟩
  · rw [took, taken]
  · intro later
    rw [← sameRing] at ahead ⊢
    exact take_push_of_ahead ahead emptied later

/-- A key that a display refuses is delivered by halves: the program finds it, and the ring has not
    gone on. What is pushed next is put behind the program. -/
theorem refused_key_delivered_by_halves :
    let x : Exchange (Wired TextScreen) := { memory := KeyRing.wideWindow }
    ¬ KeyRing.Whole x.ring x.memory 65 ∧
      let y := (x.push 65).take
      y.taken = x.taken ++ [65] ∧ y.ring = x.ring ∧ y.reader = x.ring.advance ∧
        ∀ later, Memory.load (y.push later).memory x.ring.slot = later ∧
          (y.push later).take = y.push later := by
  have failed : (Memory.store KeyRing.wideWindow (KeyRing.slot {}) 65).2 =
      .error (.offScreen 0x1000 1 1) := rfl
  have empty : ∀ index, Memory.load KeyRing.wideWindow (KeyRing.slotAt index) = 0 := by decide
  have nonzero : (65 : Word) ≠ 0 := by decide
  have halved := KeyRing.not_whole_of_error nonzero (empty 0) failed
  exact ⟨halved, parts_of_failed_push rfl empty nonzero failed⟩

end Exchange
end Dcpu
