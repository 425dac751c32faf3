import Dcpu.Machine.Bank

/-! # What banks hold

A store is seen at its own address and at no other, a written list is read back, and banks that read
the same at every address are equal.
-/

namespace Dcpu.Bank

variable {bits : Nat}

@[simp]
theorem get_zero (address : Nat) : (zero bits).get address = 0 := by
  induction bits with
  | zero => rfl
  | succ bits ih => simp [zero, get, ih]

/-- Every word is an address into a bank of sixteen bits. -/
theorem toNat_lt_size (address : Word) : address.toNat < size 16 :=
  address.toNat_lt

theorem size_succ (bits : Nat) : size (bits + 1) = 2 * size bits := by
  simp only [size, Nat.shiftLeft_succ]

theorem testBit_of_lt {address k : Nat} (h : address < size bits) (hk : bits ≤ k) :
    address.testBit k = false := by
  rw [size, Nat.one_shiftLeft] at h
  exact Nat.testBit_lt_two_pow (Nat.lt_of_lt_of_le h (Nat.pow_le_pow_right (by decide) hk))

theorem testBit_mod_size (address k : Nat) :
    (address % size bits).testBit k = (decide (k < bits) && address.testBit k) := by
  rw [size, Nat.one_shiftLeft, Nat.testBit_mod_two_pow]

/-- Within a bank, addresses whose bits agree are the same. -/
theorem eq_of_testBit {i j : Nat} (hi : i < size bits) (hj : j < size bits)
    (h : ∀ k < bits, i.testBit k = j.testBit k) : i = j := by
  apply Nat.eq_of_testBit_eq
  intro k
  by_cases hk : k < bits
  · exact h k hk
  · rw [testBit_of_lt hi (by omega), testBit_of_lt hj (by omega)]

/-- A store is seen at the addresses that agree with it in every bit that matters. -/
theorem get_set_bits (bank : Bank bits) (i j : Nat) (value : Word) :
    (bank.set i value).get j =
      if ∀ k < bits, i.testBit k = j.testBit k then value else bank.get j := by
  induction bank with
  | word => simp [set, get]
  | @halves bits low high ihLow ihHigh =>
      have split : (∀ k < bits + 1, i.testBit k = j.testBit k) ↔
          i.testBit bits = j.testBit bits ∧ ∀ k < bits, i.testBit k = j.testBit k := by
        constructor
        · intro h
          exact ⟨h bits (by omega), fun k hk => h k (by omega)⟩
        · rintro ⟨top, rest⟩ k hk
          rcases Nat.lt_succ_iff_lt_or_eq.1 hk with hk | rfl
          · exact rest k hk
          · exact top
      simp only [split]
      cases hi : i.testBit bits <;> cases hj : j.testBit bits <;> simp [set, get, *]

theorem get_set (bank : Bank bits) {i j : Nat} (hi : i < size bits) (hj : j < size bits)
    (value : Word) : (bank.set i value).get j = if i = j then value else bank.get j := by
  have agree : (∀ k < bits, i.testBit k = j.testBit k) ↔ i = j :=
    ⟨eq_of_testBit hi hj, fun h _ _ => h ▸ rfl⟩
  rw [get_set_bits]
  simp only [agree]

/-- A written list is read back from its first address on, and nothing else changes. -/
theorem get_write (bank : Bank bits) (words : List Word) {start j : Nat}
    (fits : start + words.length ≤ size bits) (hj : j < size bits) :
    (bank.write start words).get j =
      if start ≤ j then words[j - start]?.getD (bank.get j) else bank.get j := by
  induction words generalizing bank start with
  | nil => simp [write]
  | cons value rest ih =>
      simp only [List.length_cons] at fits
      rw [write, ih _ (by omega), get_set _ (by omega) hj]
      by_cases here : start = j
      · subst here
        rw [if_neg (by omega)]
        simp
      · by_cases after : start ≤ j
        · have : j - start = (j - (start + 1)) + 1 := by omega
          rw [if_pos (by omega), if_pos after, if_neg here, this, List.getElem?_cons_succ]
        · rw [if_neg (by omega), if_neg after, if_neg here]

/-- Banks that agree at the bits that matter agree at the address. -/
theorem get_congr (bank : Bank bits) {i j : Nat} (h : ∀ k < bits, i.testBit k = j.testBit k) :
    bank.get i = bank.get j := by
  induction bank with
  | word => rfl
  | @halves bits low high ihLow ihHigh =>
      have rest : ∀ k < bits, i.testBit k = j.testBit k := fun k hk => h k (by omega)
      simp only [get, h bits (by omega), ihLow rest, ihHigh rest]

theorem get_mod (bank : Bank bits) (address : Nat) :
    bank.get (address % size bits) = bank.get address := by
  apply get_congr
  intro k hk
  simp [testBit_mod_size, hk]

theorem get_ofFnAbove (f : Nat → Word) (above : Nat) {address : Nat} (h : address < size bits) :
    (ofFnAbove f bits above).get address = f (size bits * above + address) := by
  induction bits generalizing above address with
  | zero =>
      have : address = 0 := by simpa [size] using h
      simp [ofFnAbove, get, this, size]
  | succ bits ih =>
      have half := size_succ bits
      simp only [ofFnAbove, get]
      by_cases low : address < size bits
      · rw [testBit_of_lt low (Nat.le_refl _), if_neg (by decide), ih _ low, half]
        rw [Nat.mul_left_comm, Nat.mul_assoc]
      · have rest : address - size bits < size bits := by omega
        have wrapped : address % size bits = address - size bits := by
          rw [Nat.mod_eq_sub_mod (by omega), Nat.mod_eq_of_lt rest]
        have top : address.testBit bits = true := by
          refine (Bool.not_eq_false _).mp fun clear => ?_
          have agree : ∀ k < bits + 1, address.testBit k = (address - size bits).testBit k := by
            intro k hk
            rw [← wrapped, testBit_mod_size]
            by_cases below : k < bits
            · simp [below]
            · have : k = bits := by omega
              simp [this, clear]
          have := eq_of_testBit h (by omega) agree
          have : 0 < size bits := by omega
          omega
        rw [top, if_pos rfl, ← get_mod, wrapped, ih _ rest, half]
        congr 1
        rw [Nat.mul_add, Nat.mul_left_comm, Nat.mul_assoc]
        omega

theorem get_ofFn (f : Nat → Word) {address : Nat} (h : address < size bits) :
    (ofFn bits f).get address = f address := by
  simp [ofFn, get_ofFnAbove f 0 h]

/-- Banks that read the same everywhere are the same bank. -/
theorem ext_get {a b : Bank bits} (h : ∀ address, a.get address = b.get address) : a = b := by
  induction a with
  | word =>
      cases b
      simpa [get] using h
  | @halves bits low high ihLow ihHigh =>
      cases b with
      | halves low' high' =>
          congr 1
          · apply ihLow
            intro address
            have := h (address % size bits)
            simpa [get, testBit_mod_size, get_mod] using this
          · apply ihHigh
            intro address
            have set : (address ||| 1 <<< bits).testBit bits = true := by
              simp [Nat.testBit_or, Nat.testBit_shiftLeft]
            have := h (address ||| 1 <<< bits)
            simp only [get, set, if_true] at this
            have agree : ∀ k < bits, (address ||| 1 <<< bits).testBit k = address.testBit k := by
              intro k hk
              have : ¬ k ≥ bits := by omega
              simp [Nat.testBit_or, Nat.testBit_shiftLeft, this]
            rwa [get_congr high agree, get_congr high' agree] at this

end Dcpu.Bank
