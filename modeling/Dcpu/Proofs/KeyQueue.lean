import Dcpu.Proofs.Observation

/-! # Keys on their way to a program

The keyboard ring keeps no count of its keys. All that the ring and the program share is the slots,
where zero means empty, and each of them only knows where it goes on itself. That is enough: as long
as nobody else writes the slots, the keys that wait are in successive slots from where the program
reads to where the ring writes, and the program takes them as they came.
-/

namespace Dcpu

universe u v

namespace KeyRing

def slotAt (index : Fin 16) : Address :=
  .ram (Address.keyboard + UInt16.ofNat index)

theorem slot_eq (ring : KeyRing) : ring.slot = slotAt ring.next := rfl

theorem toNat_offset (index : Fin 16) :
    (Address.keyboard + UInt16.ofNat index).toNat = 0x9000 + index := by
  have start : Address.keyboard.toNat = 0x9000 := rfl
  rw [UInt16.toNat_add, UInt16.toNat_ofNat', start]
  omega

theorem slotAt_inj {i j : Fin 16} : slotAt i = slotAt j ↔ i = j := by
  constructor
  · intro same
    have offsets := congrArg UInt16.toNat (Address.ram.inj same)
    rw [toNat_offset, toNat_offset] at offsets
    omega
  · rintro rfl
    rfl

def past (ring : KeyRing) : Nat → KeyRing
  | 0 => ring
  | distance + 1 => (ring.past distance).advance

theorem next_past (ring : KeyRing) (distance : Nat) :
    ((ring.past distance).next : Nat) = (ring.next + distance) % 16 := by
  induction distance with
  | zero => exact (Nat.mod_eq_of_lt ring.next.isLt).symm
  | succ distance ih =>
      rw [past, advance, Fin.val_add, ih]
      omega

theorem ext_next {ring other : KeyRing} (same : (ring.next : Nat) = other.next) : ring = other :=
  congrArg KeyRing.mk (Fin.ext same)

theorem past_advance (ring : KeyRing) (distance : Nat) :
    ring.advance.past distance = ring.past (distance + 1) := by
  apply ext_next
  rw [next_past, next_past, advance, Fin.val_add]
  omega

theorem past_round (ring : KeyRing) : ring.past 16 = ring := by
  apply ext_next
  rw [next_past]
  omega

theorem slot_past_inj (ring : KeyRing) {i j : Nat} (hi : i < 16) (hj : j < 16) :
    (ring.past i).slot = (ring.past j).slot ↔ i = j := by
  rw [slot_eq, slot_eq, slotAt_inj, Fin.ext_iff, next_past, next_past]
  omega

theorem videoOffset?_slot {δ : Type u} (machine : Wired δ) (ring : KeyRing) :
    machine.videoOffset? ring.slot =
      if 0x1000 + (ring.next : Nat) < machine.videoWords then
        some (0x1000 + (ring.next : Nat))
      else none := by
  have above : 0x9000 + (ring.next : Nat) - 0x8000 = 0x1000 + ring.next := by omega
  have within : 0x8000 ≤ 0x9000 + (ring.next : Nat) := by omega
  rw [slot, Wired.videoOffset?_ram, toNat_offset, above]
  simp only [within, true_and]

variable {σ : Type u} {ε : Type v} [Memory σ ε]

/-- A push stores into no cell but an empty slot. -/
theorem load_push [LawfulMemory σ] (ring : KeyRing) (m : σ) (key : Word) {address : Address}
    (changed : Memory.load (ring.push m key).1.2 address ≠ Memory.load m address) :
    address = slotAt ring.next ∧ Memory.load m address = 0 := by
  rw [push_eq] at changed
  split at changed
  · rename_i empty
    rw [LawfulMemory.load_store] at changed
    split at changed
    · rename_i here
      exact ⟨here, here ▸ empty⟩
    · exact absurd rfl changed
  · exact absurd rfl changed

/-- The keys in the slots, in the order in which a program comes to them. -/
def unread (m : σ) (reader : KeyRing) : List Word :=
  ((List.range 16).map fun i => Memory.load m (reader.past i).slot).filter (· ≠ 0)

/-- Keys that wait for a program: they are in successive slots from where it reads to where the ring
    writes, and the other slots are empty. -/
structure Waiting (m : σ) (reader ring : KeyRing) (keys : List Word) : Prop where
  nonzero : ∀ key ∈ keys, key ≠ 0
  fits : keys.length ≤ 16
  ring : ring = reader.past keys.length
  slots {i : Nat} : i < 16 → Memory.load m (reader.past i).slot = keys[i]?.getD 0

namespace Waiting

variable {m : σ} {reader ring : KeyRing} {keys : List Word} {key : Word}

/-- A program that looks at the ring finds the oldest key. -/
theorem load_reader (waiting : Waiting m reader ring keys) :
    Memory.load m reader.slot = keys.head?.getD 0 := by
  rw [List.head?_eq_getElem?]
  exact waiting.slots (i := 0) (by decide)

/-- A ring that has room is at an empty slot. -/
theorem load_ring (waiting : Waiting m reader ring keys) (room : keys.length < 16) :
    Memory.load m ring.slot = 0 := by
  rw [waiting.ring, waiting.slots room, List.getElem?_eq_none (Nat.le_refl _), Option.getD_none]

theorem push_of_room (waiting : Waiting m reader ring keys) (room : keys.length < 16)
    (accepted : (Memory.store m ring.slot key).2 = .ok ()) :
    ring.push m key = ((ring.advance, (Memory.store m ring.slot key).1), .ok true) := by
  rw [push_eq, if_pos (waiting.load_ring room), accepted]
  rfl

/-- The key is put behind those that wait. -/
theorem append [LawfulMemory σ] (waiting : Waiting m reader ring keys) (nonzero : key ≠ 0)
    (room : keys.length < 16) :
    Waiting (Memory.store m ring.slot key).1 reader ring.advance (keys ++ [key]) where
  nonzero := by
    intro other member
    rcases List.mem_append.mp member with member | member
    · exact waiting.nonzero other member
    · rw [List.mem_singleton.mp member]
      exact nonzero
  fits := by
    rw [List.length_append]
    exact room
  ring := by
    rw [List.length_append, List.length_singleton, past, ← waiting.ring]
  slots := by
    intro i lt
    rw [LawfulMemory.load_store, waiting.ring]
    simp only [reader.slot_past_inj lt room, waiting.slots lt]
    rcases Nat.lt_trichotomy i keys.length with before | rfl | behind
    · rw [if_neg (Nat.ne_of_lt before), List.getElem?_append_left before]
    · rw [if_pos rfl, List.getElem?_concat_length, Option.getD_some]
    · have beyond : (keys ++ [key]).length ≤ i := by
        rw [List.length_append]
        exact behind
      rw [if_neg (Nat.ne_of_gt behind), List.getElem?_eq_none (Nat.le_of_lt behind),
        List.getElem?_eq_none beyond]

theorem push_of_full (waiting : Waiting m reader ring keys) (full : keys.length = 16) :
    ring.push m key = ((ring, m), .ok false) := by
  have oldest : Memory.load m ring.slot ≠ 0 := by
    rw [waiting.ring, full, past_round, waiting.load_reader]
    cases keys with
    | nil => cases full
    | cons first rest => exact waiting.nonzero first List.mem_cons_self
  rw [push_eq, if_neg oldest]

/-- A program takes the oldest key by emptying its slot. -/
theorem take [LawfulMemory σ] (waiting : Waiting m reader ring (key :: keys)) :
    Waiting (Memory.store m reader.slot 0).1 reader.advance ring keys where
  nonzero other member := waiting.nonzero other (List.mem_cons_of_mem _ member)
  fits := Nat.le_of_succ_le waiting.fits
  ring := by
    rw [waiting.ring, List.length_cons, past_advance]
  slots := by
    intro i lt
    have fits := waiting.fits
    rw [List.length_cons] at fits
    rw [LawfulMemory.load_store, past_advance]
    by_cases last : i = 15
    · -- A round beyond the reader is the slot that has just been emptied.
      rw [last, past_round, if_pos rfl, List.getElem?_eq_none (by omega), Option.getD_none]
    · have apart : (reader.past (i + 1)).slot ≠ reader.slot := by
        intro same
        have back := (reader.slot_past_inj (by omega) (Nat.zero_lt_succ 15)).mp same
        exact Nat.succ_ne_zero i back
      rw [if_neg apart, waiting.slots (by omega), List.getElem?_cons_succ]

/-- Whoever leaves the slots alone leaves the keys where they are. -/
theorem keep {n : σ} (waiting : Waiting m reader ring keys)
    (kept : ∀ index, Memory.load n (slotAt index) = Memory.load m (slotAt index)) :
    Waiting n reader ring keys where
  nonzero := waiting.nonzero
  fits := waiting.fits
  ring := waiting.ring
  slots lt := (kept _).trans (waiting.slots lt)

/-- Behind the keys that wait, the slots hold zero all the way round. -/
theorem map_slots (waiting : Waiting m reader ring keys) :
    (List.range 16).map (fun i => Memory.load m (reader.past i).slot) =
      keys ++ List.replicate (16 - keys.length) 0 := by
  have fits := waiting.fits
  apply List.ext_getElem
  · simp only [List.length_map, List.length_range, List.length_append, List.length_replicate]
    omega
  · intro i lt _
    rw [List.length_map, List.length_range] at lt
    rw [List.getElem_map, List.getElem_range, waiting.slots lt, List.getElem_append]
    split
    · rename_i inside
      rw [List.getElem?_eq_getElem inside, Option.getD_some]
    · rename_i outside
      rw [List.getElem?_eq_none (Nat.le_of_not_lt outside), Option.getD_none,
        List.getElem_replicate]

theorem unread_eq (waiting : Waiting m reader ring keys) : unread m reader = keys := by
  have keep : keys.filter (· ≠ 0) = keys := by
    rw [List.filter_eq_self]
    intro key member
    exact decide_eq_true (waiting.nonzero key member)
  rw [unread, waiting.map_slots, List.filter_append, keep, List.filter_replicate]
  exact List.append_nil keys

end Waiting
end KeyRing

/-- A ring and a program that share a memory, with the keys that have come through so far. -/
structure Exchange (σ : Type u) where
  memory : σ
  ring : KeyRing := {}
  /-- Where the program looks next. -/
  reader : KeyRing := {}
  /-- The keys for which the ring had room, the oldest first. -/
  accepted : List Word := []
  /-- The keys that the program has taken, the oldest first. -/
  taken : List Word := []

namespace Exchange

variable {σ : Type u} {ε : Type v} [Memory σ ε]

def push (x : Exchange σ) (key : Word) : Exchange σ :=
  match x.ring.push x.memory key with
  | ((ring, memory), .ok true) => { x with ring, memory, accepted := x.accepted ++ [key] }
  | ((ring, memory), _) => { x with ring, memory }

/-- The program looks at one slot, and takes the key there if there is one. -/
def take (x : Exchange σ) : Exchange σ :=
  let key := Memory.load x.memory x.reader.slot
  if key = 0 then x
  else
    { x with
      memory := (Memory.store x.memory x.reader.slot 0).1
      reader := x.reader.advance
      taken := x.taken ++ [key] }

variable [Loadable σ]

def act (x : Exchange σ) (action : Action) : Exchange σ :=
  { x with memory := Memory.act x.memory action }

/-- What comes of an exchange that begins with a memory, while all other actions leave the slots
    alone. -/
inductive Reachable (m : σ) : Exchange σ → Prop where
  | start : Reachable m { memory := m }
  | push {x : Exchange σ} {key : Word} : Reachable m x → key ≠ 0 → Reachable m (x.push key)
  | take {x : Exchange σ} : Reachable m x → Reachable m x.take
  | act {x : Exchange σ} {action : Action} : Reachable m x →
      (∀ index, ¬ Memory.Writes x.memory action (KeyRing.slotAt index)) → Reachable m (x.act action)

/-- An exchange in which some keys wait, and all before them have been taken. -/
structure Orderly (x : Exchange σ) (keys : List Word) : Prop where
  accepting : Memory.Accepting x.memory
  order : x.taken ++ keys = x.accepted
  reader : (x.reader.next : Nat) = x.taken.length % 16
  waiting : KeyRing.Waiting x.memory x.reader x.ring keys

namespace Orderly

variable {m : σ} {x : Exchange σ} {keys : List Word} {key : Word}

theorem start (accepting : Memory.Accepting m)
    (empty : ∀ index, Memory.load m (KeyRing.slotAt index) = 0) :
    Orderly { memory := m } [] where
  accepting := accepting
  order := rfl
  reader := rfl
  waiting := {
    nonzero := fun _ member => absurd member List.not_mem_nil
    fits := Nat.zero_le 16
    ring := rfl
    slots := fun _ => empty _ }

/-- The ring has moved on by one slot for each key it accepted. -/
theorem next_ring (orderly : Orderly x keys) :
    (x.ring.next : Nat) = x.accepted.length % 16 := by
  rw [orderly.waiting.ring, KeyRing.next_past, orderly.reader, ← orderly.order, List.length_append]
  omega

/-- A push is refused just when the ring is full, and then does nothing. -/
theorem push_eq (orderly : Orderly x keys) (key : Word) :
    if keys.length = 16 then x.ring.push x.memory key = ((x.ring, x.memory), .ok false)
    else (x.ring.push x.memory key).2 = .ok true := by
  split
  · rename_i full
    exact orderly.waiting.push_of_full full
  · rename_i notFull
    have room := Nat.lt_of_le_of_ne orderly.waiting.fits notFull
    exact congrArg Prod.snd (orderly.waiting.push_of_room room (orderly.accepting.answer _ _))

variable [LawfulMemory σ]

theorem push (orderly : Orderly x keys) (nonzero : key ≠ 0) :
    ∃ keys, Orderly (x.push key) keys := by
  rcases Nat.lt_or_eq_of_le orderly.waiting.fits with room | full
  · have accepted := orderly.accepting.answer x.ring.slot key
    refine ⟨keys ++ [key], ?_⟩
    simp only [Exchange.push, orderly.waiting.push_of_room room accepted]
    constructor
    case accepting => exact orderly.accepting.store _ _
    case order => rw [← List.append_assoc, orderly.order]
    case reader => exact orderly.reader
    case waiting => exact orderly.waiting.append nonzero room
  · refine ⟨keys, ?_⟩
    simp only [Exchange.push, orderly.waiting.push_of_full full]
    exact orderly

theorem take (orderly : Orderly x keys) : ∃ keys, Orderly x.take keys := by
  have found := orderly.waiting.load_reader
  cases keys with
  | nil =>
      refine ⟨[], ?_⟩
      simp only [Exchange.take, found, List.head?_nil, Option.getD_none, if_true]
      exact orderly
  | cons key rest =>
      have nonzero := orderly.waiting.nonzero key List.mem_cons_self
      refine ⟨rest, ?_⟩
      simp only [Exchange.take, found, List.head?_cons, Option.getD_some, nonzero, if_false]
      constructor
      case accepting => exact orderly.accepting.store _ _
      case order => rw [List.append_assoc, List.singleton_append, orderly.order]
      case reader =>
          rw [List.length_append, List.length_singleton, KeyRing.advance, Fin.val_add,
            orderly.reader]
          omega
      case waiting => exact orderly.waiting.take

theorem act [LawfulLoadable σ] (orderly : Orderly x keys) {action : Action}
    (apart : ∀ index, ¬ Memory.Writes x.memory action (KeyRing.slotAt index)) :
    Orderly (x.act action) keys where
  accepting := orderly.accepting.act action
  order := orderly.order
  reader := orderly.reader
  waiting := orderly.waiting.keep fun index => Memory.load_act_of_not_writes (apart index)

end Orderly

variable [LawfulMemory σ] [LawfulLoadable σ]

theorem Reachable.orderly {m : σ} {x : Exchange σ} (reachable : Reachable m x)
    (accepting : Memory.Accepting m)
    (empty : ∀ index, Memory.load m (KeyRing.slotAt index) = 0) : ∃ keys, Orderly x keys := by
  induction reachable with
  | start => exact ⟨[], .start accepting empty⟩
  | push _ nonzero ih =>
      obtain ⟨keys, orderly⟩ := ih
      exact orderly.push nonzero
  | take _ ih =>
      obtain ⟨keys, orderly⟩ := ih
      exact orderly.take
  | act _ apart ih =>
      obtain ⟨keys, orderly⟩ := ih
      exact ⟨keys, orderly.act apart⟩

/-- The keys taken so far and those in the slots are the keys that were accepted, in their order. A
    key is refused exactly when sixteen others wait, which then stay as they are. And whoever shares
    the slots, and whatever stores fail, a push changes nothing but one empty slot. -/
theorem keys_in_order (m : σ) (accepting : Memory.Accepting m)
    (empty : ∀ index, Memory.load m (KeyRing.slotAt index) = 0) :
    (∀ x : Exchange σ, Reachable m x →
      x.taken ++ KeyRing.unread x.memory x.reader = x.accepted ∧
      (x.ring.next : Nat) = x.accepted.length % 16 ∧
      ∀ key,
        let pushed := x.ring.push x.memory key
        (pushed.2 = .ok false ↔ (KeyRing.unread x.memory x.reader).length = 16) ∧
        (pushed.2 = .ok false → pushed.1 = (x.ring, x.memory)) ∧
        (pushed.2 = .ok false ∨ pushed.2 = .ok true)) ∧
    ∀ (n : σ) (ring : KeyRing) (key : Word), ∃ index, ∀ address,
      Memory.load (ring.push n key).1.2 address ≠ Memory.load n address →
        address = KeyRing.slotAt index ∧ Memory.load n address = 0 := by
  refine ⟨?_, fun n ring key => ⟨ring.next, fun _ => ring.load_push n key⟩⟩
  intro x reachable
  obtain ⟨keys, orderly⟩ := reachable.orderly accepting empty
  rw [orderly.waiting.unread_eq]
  refine ⟨orderly.order, orderly.next_ring, ?_⟩
  intro key pushed
  have answer := orderly.push_eq key
  split at answer
  · rename_i full
    simp only [pushed, answer, full, true_and, implies_true, true_or]
  · rename_i notFull
    simp [pushed, answer, notFull]

/-- A machine whose display is told of every key, and whose program stores one word elsewhere. -/
def recordedKeys : Wired Recorder :=
  .boot [0x8401, 0x7de1, 0x1000, 0x0030] {} 0x8000

theorem keys_in_order_recordedKeys :
    let x := (((push { memory := recordedKeys } 65).push 66).take.act (.run 2)).push 67
    Memory.Accepting recordedKeys ∧ (∀ index, Memory.load recordedKeys (KeyRing.slotAt index) = 0) ∧
      Reachable recordedKeys x ∧
      x.taken ++ KeyRing.unread x.memory x.reader = [65, 66, 67] := by
  intro x
  have accepting : Memory.Accepting recordedKeys :=
    Wired.accepting _ fun _ _ _ _ _ => rfl
  have empty : ∀ index, Memory.load recordedKeys (KeyRing.slotAt index) = 0 := by
    decide
  have apart : ∀ index, KeyRing.slotAt index ∉ [.pc, .register 0, .pc, .ram 0x1000] := by
    decide
  have reachable : Reachable recordedKeys x := by
    refine .push (.act (.take (.push (.push .start ?_) ?_)) ?_) ?_
    · decide
    · decide
    · rintro index ⟨entry, member, here⟩
      have stored : entry.address ∈ [.pc, .register 0, .pc, .ram 0x1000] :=
        List.mem_map_of_mem member
      exact apart index (here ▸ stored)
    · decide
  obtain ⟨order, -, -⟩ := (keys_in_order recordedKeys accepting empty).1 x reachable
  exact ⟨accepting, empty, reachable, order.trans rfl⟩

end Exchange
end Dcpu
