import Dcpu.Proofs.Effects

/-! # What a machine has stored

Every cell of a machine holds the word that was written to it last, by a store or with a program,
and zero before the first. There is no more to a machine than that: two that load the same words are
equal as snapshots, and as long as no store fails they give the same replies to whatever is done to
them from then on.
-/

namespace Dcpu

universe u v w x y

namespace Address

/-- A cell as it is named from outside, where every index of eight bits names a register. -/
inductive Name where
  | pc
  | sp
  | overflow
  | register (index : UInt8)
  | ram (offset : Word)
  deriving Repr, DecidableEq

namespace Name

def address : Name → Address
  | pc => .pc
  | sp => .sp
  | overflow => .overflow
  | register index => .register (.ofIndex index.toNat)
  | ram offset => .ram offset

/-- Names of one cell. Indices count round the eight registers. -/
def Same : Name → Name → Prop
  | register i, register j => i.toNat % 8 = j.toNat % 8
  | a, b => a = b

theorem address_eq_iff {a b : Name} : a.address = b.address ↔ a.Same b := by
  cases a <;> cases b <;> simp [address, Same, Register.ofIndex, Fin.ext_iff]

theorem exists_address_eq (address : Address) : ∃ name : Name, name.address = address := by
  cases address with
  | pc => exact ⟨.pc, rfl⟩
  | sp => exact ⟨.sp, rfl⟩
  | overflow => exact ⟨.overflow, rfl⟩
  | register r =>
      refine ⟨.register (UInt8.ofNat r), ?_⟩
      simp only [Name.address, Register.ofIndex, UInt8.toNat_ofNat', Address.register.injEq,
        Fin.ext_iff, Fin.val_ofNat]
      omega
  | ram offset => exact ⟨.ram offset, rfl⟩

end Name

/-- What a list of writes leaves in a cell: the word of the last of them that goes there, and the
    word that was there before if none does. -/
inductive Leaves (writes : List (Name × Word)) (name : Name) (before : Word) : Word → Prop where
  | written (earlier later : List (Name × Word)) {other : Name} {value : Word} :
      writes = earlier ++ (other, value) :: later → other.Same name →
      (∀ write ∈ later, ¬ write.1.Same name) → Leaves writes name before value
  | untouched : (∀ write ∈ writes, ¬ write.1.Same name) → Leaves writes name before before

namespace Leaves

variable {writes more : List (Name × Word)} {name other : Name} {before between after value : Word}

theorem append (first : Leaves writes name before between) (rest : Leaves more name between after) :
    Leaves (writes ++ more) name before after := by
  cases rest with
  | written earlier later split same since =>
      apply Leaves.written (writes ++ earlier) later _ same since
      rw [split, List.append_assoc]
  | untouched unwritten =>
      cases first with
      | written earlier later split same since =>
          apply Leaves.written earlier (later ++ more) _ same
          · exact List.forall_mem_append.mpr ⟨since, unwritten⟩
          · rw [split, List.append_assoc, List.cons_append]
      | untouched unwrittenBefore =>
          exact .untouched (List.forall_mem_append.mpr ⟨unwrittenBefore, unwritten⟩)

theorem of_getElem? {i : Nat} (here : writes[i]? = some (other, value)) (same : other.Same name)
    (since : ∀ (j : Nat) (write : Name × Word), i < j → writes[j]? = some write →
      ¬ write.1.Same name) :
    Leaves writes name before value := by
  obtain ⟨lt, found⟩ := List.getElem?_eq_some_iff.mp here
  apply Leaves.written (writes.take i) (writes.drop (i + 1)) _ same
  · intro write member
    obtain ⟨j, there⟩ := List.mem_iff_getElem?.mp member
    rw [List.getElem?_drop] at there
    exact since (i + 1 + j) write (by omega) there
  · rw [← found, ← List.drop_eq_getElem_cons, List.take_append_drop]

theorem of_unwritten
    (unwritten : ∀ (i : Nat) (write : Name × Word), writes[i]? = some write →
      ¬ write.1.Same name) :
    Leaves writes name before before := by
  apply Leaves.untouched
  intro write member
  obtain ⟨i, here⟩ := List.mem_iff_getElem?.mp member
  exact unwritten i write here

theorem eq_of_splits {earlier later earlier' later' : List (Name × Word)}
    {write write' : Name × Word}
    (splits : earlier ++ write :: later = earlier' ++ write' :: later')
    (last : ∀ other ∈ later, ¬ other.1.Same name) (last' : ∀ other ∈ later', ¬ other.1.Same name)
    (same : write.1.Same name) (same' : write'.1.Same name) : write = write' := by
  -- Were one of the two places further on in the list, its write would come after the last one.
  rcases List.append_eq_append_iff.mp splits with ⟨between, -, rest⟩ | ⟨between, -, rest⟩
  · rcases List.cons_eq_append_iff.mp rest with ⟨-, tail⟩ | ⟨tail, -, rfl⟩
    · exact (List.cons_eq_cons.mp tail).1.symm
    · exact absurd same' (last write' (List.mem_append_right tail List.mem_cons_self))
  · rcases List.cons_eq_append_iff.mp rest with ⟨-, tail⟩ | ⟨tail, -, rfl⟩
    · exact (List.cons_eq_cons.mp tail).1
    · exact absurd same (last' write (List.mem_append_right tail List.mem_cons_self))

theorem unique {value' : Word} (left : Leaves writes name before value)
    (left' : Leaves writes name before value') : value = value' := by
  cases left with
  | written earlier later split same last =>
      cases left' with
      | written earlier' later' split' same' last' =>
          exact congrArg Prod.snd (eq_of_splits (split.symm.trans split') last last' same same')
      | untouched unwritten =>
          exact absurd same (unwritten _ (split ▸ List.mem_append_right _ List.mem_cons_self))
  | untouched unwritten =>
      cases left' with
      | written earlier later split same last =>
          exact absurd same (unwritten _ (split ▸ List.mem_append_right _ List.mem_cons_self))
      | untouched => rfl

end Leaves
end Address

/-- Words that a machine is given from outside. -/
inductive Deposit where
  | store (name : Address.Name) (value : Word)
  | program (words : List Word)
  deriving Repr, DecidableEq

namespace Deposit

def request : Deposit → Request
  | store name value => .store name.address value
  | program words => .loadProgram words

/-- What is written to which cell. A program is written from the first word of the memory on, and
    what does not fit is left out. -/
def writes : Deposit → List (Address.Name × Word)
  | store name value => [(name, value)]
  | program words =>
      (words.take 0x10000).zipIdx.map fun entry => (.ram (UInt16.ofNat entry.2), entry.1)

theorem getElem?_writes_program {words : List Word} {i : Nat} {name : Address.Name} {value : Word} :
    (program words).writes[i]? = some (name, value) ↔
      i < 0x10000 ∧ .ram (UInt16.ofNat i) = name ∧ words[i]? = some value := by
  simp only [writes, List.getElem?_map, List.getElem?_zipIdx, List.getElem?_take, Nat.zero_add]
  by_cases inside : i < 0x10000
  · cases words[i]? with
    | none => simp only [inside, if_true, Option.map_none, reduceCtorEq, and_false]
    | some word =>
        simp only [inside, if_true, Option.map_some, Option.some.injEq, Prod.mk.injEq, true_and]
  · simp only [inside, if_false, Option.map_none, reduceCtorEq, false_and]

section Leaves

variable {σ : Type u} {ε : Type v} [Memory σ ε] [Loadable σ] [LawfulLoadable σ]

theorem leaves_program (m : σ) (words : List Word) (name : Address.Name) :
    Address.Leaves (program words).writes name (Memory.load m name.address)
      (Memory.load (Loadable.loadProgram m words) name.address) := by
  cases name with
  | ram offset =>
      have place : UInt16.ofNat offset.toNat = offset := UInt16.ofNat_toNat
      have fits : offset.toNat < 0x10000 := offset.toNat_lt
      -- The words of a program go to different cells.
      have elsewhere {i : Nat} (small : i < 0x10000)
          (there : Address.Name.Same (.ram (UInt16.ofNat i)) (.ram offset)) : i = offset.toNat := by
        have same := congrArg UInt16.toNat (Address.Name.ram.inj there)
        rwa [UInt16.toNat_ofNat_of_lt' small] at same
      rw [Address.Name.address, LawfulLoadable.load_ram]
      cases reached : words[offset.toNat]? with
      | some word =>
          apply Address.Leaves.of_getElem?
          · exact getElem?_writes_program.mpr ⟨fits, congrArg _ place, reached⟩
          · rfl
          · rintro j ⟨other, value⟩ later there same
            obtain ⟨small, rfl, -⟩ := getElem?_writes_program.mp there
            exact Nat.ne_of_gt later (elsewhere small same)
      | none =>
          apply Address.Leaves.of_unwritten
          rintro i ⟨other, value⟩ there same
          obtain ⟨small, rfl, found⟩ := getElem?_writes_program.mp there
          rw [elsewhere small same, reached] at found
          cases found
  | _ =>
      rw [LawfulLoadable.load_other m words fun _ => Address.noConfusion]
      apply Address.Leaves.of_unwritten
      rintro i ⟨other, value⟩ there same
      obtain ⟨-, rfl, -⟩ := getElem?_writes_program.mp there
      cases same

variable [LawfulMemory σ]

theorem leaves_serve (m : σ) (deposit : Deposit) (name : Address.Name) :
    Address.Leaves deposit.writes name (Memory.load m name.address)
      (Memory.load (Memory.serve m deposit.request).1 name.address) := by
  cases deposit with
  | program words => exact leaves_program m words name
  | store other value =>
      have stored : Memory.load (Memory.serve m (store other value).request).1 name.address =
          if name.address = other.address then value else Memory.load m name.address :=
        LawfulMemory.load_store m other.address name.address value
      rw [stored]
      split <;> rename_i same
      · apply Address.Leaves.written [] [] rfl (Address.Name.address_eq_iff.mp same.symm)
        exact fun _ member => absurd member List.not_mem_nil
      · apply Address.Leaves.untouched
        intro write member
        obtain rfl := List.mem_singleton.mp member
        exact fun other => same (Address.Name.address_eq_iff.mpr other).symm

/-- After a history of deposits every cell holds what the last write to it has left. -/
theorem leaves_serveAll (m : σ) (history : List Deposit) (name : Address.Name) :
    Address.Leaves (history.flatMap writes) name (Memory.load m name.address)
      (Memory.load (Memory.serveAll m (history.map request)) name.address) := by
  induction history generalizing m with
  | nil => exact .untouched fun _ member => absurd member List.not_mem_nil
  | cons deposit rest ih =>
      rw [List.flatMap_cons]
      exact (leaves_serve m deposit name).append (ih _)

end Leaves
end Deposit

/-- A failure of a machine alone, as one that any machine can report. -/
def Fault.widen {ε : Type v} : Fault Empty → Fault ε
  | .invalidOpcode cause => .invalidOpcode cause

/-- An answer of a machine alone, as one that any machine can give. -/
def Answer.widen {ε : Type v} : Answer Empty → Answer ε
  | word value => word value
  | instruction result => instruction result
  | done result => done (result.mapError Fault.widen)

/-- What comes back from an action. -/
inductive Reply (ε : Type v) where
  | answer (answer : Answer ε)
  | ran (result : Except (Fault ε) Nat)
  | pushed (ring : KeyRing) (result : Except ε Bool)

def Reply.widen {ε : Type v} : Reply Empty → Reply ε
  | answer given => answer given.widen
  | ran result => ran (result.mapError Fault.widen)
  | pushed ring result => pushed ring (result.mapError Empty.elim)

namespace Memory

variable {σ : Type u} {ε : Type v} [Memory σ ε]

section Replies

variable [Loadable σ]

def reply (m : σ) : Action → Reply ε
  | .request request => .answer (serve m request).2
  | .run budget => .ran (run m budget).2
  | .push ring key => .pushed (ring.push m key).1.1 (ring.push m key).2

/-- The replies to one action after the other, whatever comes of them. -/
def replies (m : σ) : List Action → List (Reply ε)
  | [] => []
  | action :: rest => reply m action :: replies (act m action) rest

end Replies

theorem snapshot_eq_iff_names {τ : Type w} {ε' : Type x} [Memory τ ε'] {m : σ} {n : τ} :
    snapshot m = snapshot n ↔
      ∀ name : Address.Name, load m name.address = load n name.address := by
  rw [snapshot_eq_iff]
  constructor
  · exact fun same name => same name.address
  · intro same address
    obtain ⟨name, rfl⟩ := Address.Name.exists_address_eq address
    exact same name

theorem snapshot_store [LawfulMemory σ] (m : σ) (address : Address) (value : Word) :
    snapshot (store m address value).1 = (snapshot m).store address value := by
  apply State.ext_load
  intro other
  rw [load_snapshot, LawfulMemory.load_store, State.load_store, load_snapshot]

variable [Loadable σ]

theorem snapshot_loadProgram [LawfulLoadable σ] (m : σ) (program : List Word) :
    snapshot (Loadable.loadProgram m program) = (snapshot m).loadProgram program := by
  apply State.ext_load
  intro address
  cases address with
  | ram offset =>
      rw [load_snapshot, LawfulLoadable.load_ram, State.load_loadProgram_ram, load_snapshot]
  | _ =>
      rw [load_snapshot, LawfulLoadable.load_other, State.load_loadProgram, load_snapshot]
      all_goals exact fun _ => Address.noConfusion

namespace Accepting

/-- Instructions on a memory whose stores do not fail. -/
theorem simulation :
    Execution.Simulation fun e f : Execution σ ε =>
      e = f ∧ Accepting e.memory ∧ e.failure = none where
  load := by
    rintro e f ⟨rfl, -⟩ address
    rfl
  store := by
    rintro e f ⟨rfl, accepting, fine⟩ address value
    refine ⟨rfl, ?_, ?_⟩
    · rw [Execution.store_memory]
      exact accepting.store address value
    · rw [Execution.store_failure, fine, accepting.answer address value]
      rfl

variable {m : σ}

theorem step_eq (accepting : Accepting m) :
    (Memory.step m).2 = (Memory.step (snapshot m)).2.mapError Fault.widen := by
  have fetched := fetch_snapshot m (load m .pc)
  cases decoded : fetch m (load m .pc) with
  | error cause =>
      rw [decoded] at fetched
      rw [step_of_fetch_error decoded, step_of_fetch_error fetched]
      rfl
  | ok instruction =>
      rw [decoded] at fetched
      obtain ⟨-, -, fine⟩ := simulation.execute (m := m) ⟨rfl, accepting, rfl⟩ instruction
      rw [step_of_fetch_ok decoded, Execution.finish_result, fine, State.step_result _ fetched]
      rfl

variable [LawfulMemory σ]

theorem steps_eq (accepting : Accepting m) (count : Nat) :
    snapshot (steps m count).1 = (steps (snapshot m) count).1 ∧
      (steps m count).2 = (steps (snapshot m) count).2.mapError Fault.widen := by
  induction count generalizing m with
  | zero => exact ⟨rfl, rfl⟩
  | succ count ih =>
      have next : Accepting (Memory.step m).1 := accepting.act (.request .step)
      rw [steps_succ, steps_succ, ← snapshot_step, accepting.step_eq]
      cases (Memory.step (snapshot m)).2 with
      | ok => exact ih next
      | error fault => exact ⟨rfl, rfl⟩

theorem run_eq (accepting : Accepting m) (budget : Nat) :
    snapshot (Memory.run m budget).1 = (Memory.run (snapshot m) budget).1 ∧
      (Memory.run m budget).2 = (Memory.run (snapshot m) budget).2.mapError Fault.widen := by
  obtain ⟨same, answer⟩ := accepting.steps_eq budget
  refine ⟨same, ?_⟩
  simp only [run, answer]
  cases (steps (snapshot m) budget).2 <;> rfl

theorem push_eq (accepting : Accepting m) (ring : KeyRing) (key : Word) :
    snapshot (ring.push m key).1.2 = (ring.push (snapshot m) key).1.2 ∧
      (ring.push m key).1.1 = (ring.push (snapshot m) key).1.1 ∧
      (ring.push m key).2 = (ring.push (snapshot m) key).2.mapError Empty.elim := by
  have slot : load (snapshot m) ring.slot = load m ring.slot := load_snapshot m ring.slot
  rw [KeyRing.push_eq, KeyRing.push_eq, slot, accepting.answer]
  split
  · exact ⟨snapshot_store m ring.slot key, rfl, rfl⟩
  · exact ⟨rfl, rfl, rfl⟩

variable [LawfulLoadable σ]

/-- An action does to a machine that accepts every store what it does to the snapshot. -/
theorem act_eq (accepting : Accepting m) (action : Action) :
    snapshot (Memory.act m action) = Memory.act (snapshot m) action ∧
      reply m action = (reply (snapshot m) action).widen := by
  cases action with
  | run budget =>
      obtain ⟨same, answer⟩ := accepting.run_eq budget
      exact ⟨same, congrArg Reply.ran answer⟩
  | push ring key =>
      obtain ⟨same, moved, answer⟩ := accepting.push_eq ring key
      refine ⟨same, ?_⟩
      simp only [reply, moved, answer]
      rfl
  | request request =>
      cases request with
      | load address =>
          refine ⟨rfl, ?_⟩
          rw [reply, serve, ← load_snapshot m address]
          rfl
      | store address value =>
          refine ⟨snapshot_store m address value, ?_⟩
          simp only [reply, serve, accepting.answer]
          rfl
      | loadProgram program => exact ⟨snapshot_loadProgram m program, rfl⟩
      | fetch pc =>
          refine ⟨rfl, ?_⟩
          rw [reply, serve, ← fetch_snapshot m pc]
          rfl
      | step => exact ⟨snapshot_step m, congrArg (Reply.answer ∘ Answer.done) accepting.step_eq⟩

theorem actAll_eq (accepting : Accepting m) (actions : List Action) :
    snapshot (actAll m actions) = actAll (snapshot m) actions ∧
      replies m actions = (replies (snapshot m) actions).map Reply.widen := by
  induction actions generalizing m with
  | nil => exact ⟨rfl, rfl⟩
  | cons action rest ih =>
      obtain ⟨same, answer⟩ := accepting.act_eq action
      obtain ⟨later, answers⟩ := ih (accepting.act action)
      rw [same] at later answers
      exact ⟨later, List.cons_eq_cons.mpr ⟨answer, answers⟩⟩

/-- Two machines that accept every store and show the same words cannot be told apart by what is
    done to them. -/
theorem replies_eq {τ : Type w} {ε' : Type x} [Memory τ ε'] [Loadable τ] [LawfulMemory τ]
    [LawfulLoadable τ] {n : τ} (accepting : Accepting m) (acceptingToo : Accepting n)
    (same : snapshot m = snapshot n) (actions : List Action) :
    snapshot (actAll m actions) = snapshot (actAll n actions) ∧
      ∃ shared : List (Reply Empty), replies m actions = shared.map Reply.widen ∧
        replies n actions = shared.map Reply.widen := by
  obtain ⟨words, answers⟩ := accepting.actAll_eq actions
  obtain ⟨wordsToo, answersToo⟩ := acceptingToo.actAll_eq actions
  rw [← same] at wordsToo answersToo
  exact ⟨words.trans wordsToo.symm, _, answers, answersToo⟩

end Accepting

/-- A machine is what was last written into each of its cells, whether it is alone or behind a
    display. Its words are all that a memory has to show, and all that its replies depend on if no
    store fails. -/
theorem storage_model {δ : Type u} [Display δ] {σ : Type v} {ε : Type w} [Memory σ ε] [Loadable σ]
    [LawfulMemory σ] [LawfulLoadable σ] {τ : Type x} {ε' : Type y} [Memory τ ε'] [Loadable τ]
    [LawfulMemory τ] [LawfulLoadable τ] :
    (∀ (history : List Deposit) (name : Address.Name),
      Address.Leaves (history.flatMap Deposit.writes) name 0
        (load (serveAll State.blank (history.map Deposit.request)) name.address)) ∧
    (∀ (display : δ) (videoWords : Nat) (history : List Deposit) (name : Address.Name),
      Address.Leaves (history.flatMap Deposit.writes) name 0
        (load (serveAll (Wired.boot [] display videoWords) (history.map Deposit.request))
          name.address)) ∧
    (∀ (m : σ) (n : τ), snapshot m = snapshot n ↔
      ∀ name : Address.Name, load m name.address = load n name.address) ∧
    (∀ (m : σ) (n : τ), snapshot m = snapshot n → Accepting m → Accepting n →
      ∀ actions, snapshot (actAll m actions) = snapshot (actAll n actions) ∧
        ∃ shared : List (Reply Empty), replies m actions = shared.map Reply.widen ∧
          replies n actions = shared.map Reply.widen) ∧
    (∀ s : State, Accepting s) ∧
    (∀ machine : Wired δ, Display.Accepts machine.videoWords machine.display →
      Accepting machine) := by
  refine ⟨?alone, ?wired, ?shown, ?alike, State.accepting, Wired.accepting⟩
  case alone =>
      intro history name
      have left := Deposit.leaves_serveAll State.blank history name
      have blank : load State.blank name.address = 0 := State.load_blank name.address
      rwa [blank] at left
  case wired =>
      intro display videoWords history name
      have left := Deposit.leaves_serveAll (Wired.boot [] display videoWords) history name
      have blank : load (Wired.boot [] display videoWords) name.address = 0 := by
        cases name with
        | ram offset => exact State.load_boot_ram [] offset
        | _ => exact State.load_boot [] fun _ => Address.noConfusion
      rwa [blank] at left
  case shown =>
      intro m n
      exact snapshot_eq_iff_names
  case alike =>
      intro m n same accepting acceptingToo actions
      exact accepting.replies_eq acceptingToo same actions

end Memory

/-- Two stores into one register, by different indices, and a program between them. -/
def Deposit.aliased : List Deposit :=
  [.store (.register 1) 5, .program [0x8403], .store (.register 9) 7]

theorem Memory.storage_model_aliased :
    let alone := serveAll State.blank (Deposit.aliased.map Deposit.request)
    let wired := serveAll (Wired.boot [] NoDisplay.mk 384) (Deposit.aliased.map Deposit.request)
    load wired (.register 1) = 7 ∧ snapshot alone = snapshot wired ∧
      ∃ shared : List (Reply Empty),
        replies alone [.request .step, .run 2] = shared.map Reply.widen ∧
          replies wired [.request .step, .run 2] = shared.map Reply.widen := by
  intro alone wired
  obtain ⟨-, left, shown, alike, all, accepts⟩ :=
    storage_model (δ := NoDisplay) (σ := State) (τ := Wired NoDisplay)
  have same : snapshot alone = snapshot wired := (shown alone wired).mpr fun _ => rfl
  refine ⟨?_, same, ?_⟩
  · have last : Address.Leaves (Deposit.aliased.flatMap Deposit.writes) (.register 1) 0 7 := by
      apply Address.Leaves.written [(.register 1, 5), (.ram 0, 0x8403)] []
      · rfl
      · exact (rfl : 9 % 8 = 1 % 8)
      · exact fun _ member => absurd member List.not_mem_nil
    exact (left NoDisplay.mk 384 Deposit.aliased (.register 1)).unique last
  · have accepting : Accepting wired := accepts wired fun _ _ _ _ _ => rfl
    exact (alike alone wired same (all alone) accepting _).2

end Dcpu
