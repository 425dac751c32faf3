import Dcpu.Instruction.Arithmetic

/-! # The arithmetic unit in unbounded numbers

The value of a result and the overflow register beside it are the two words of one number, with the
overflow register in front where it takes a carry and behind the point where it takes a fraction.
Read so, nothing that an operation computes is lost, whatever its operands: not the carry of a sum,
not the high word of a product, and of a shift no more than what leaves both words.
-/

namespace Dcpu

namespace Result

/-- The overflow register is the high word of a number, and the value its low word. -/
def Wide (result : Result) (n : Nat) : Prop :=
  ∃ overflow, result.overflow = some overflow ∧ overflow.toNat * 65536 + result.value.toNat = n

/-- The value is the whole part of a number of 65536ths, and the overflow register its fraction. -/
def FixedPoint (result : Result) (n : Nat) : Prop :=
  ∃ overflow, result.overflow = some overflow ∧ result.value.toNat * 65536 + overflow.toNat = n

theorem toNat_words (n : Nat) :
    (UInt16.ofNat (n >>> 16)).toNat * 65536 + (UInt16.ofNat n).toNat = n % 4294967296 := by
  simp only [UInt16.toNat_ofNat', Nat.shiftRight_eq_div_pow]
  omega

theorem words_inj {high low high' low' : Word}
    (same : high.toNat * 65536 + low.toNat = high'.toNat * 65536 + low'.toNat) :
    high = high' ∧ low = low' := by
  have := low.toNat_lt
  have := low'.toNat_lt
  constructor <;> apply UInt16.toNat_inj.mp <;> omega

theorem wide_overflowing (n : Nat) : (overflowing n).Wide (n % 4294967296) :=
  ⟨_, rfl, toNat_words n⟩

theorem wide_of_lt {n : Nat} (fits : n < 4294967296) : (overflowing n).Wide n := by
  have wide := wide_overflowing n
  rwa [Nat.mod_eq_of_lt fits] at wide

theorem fixedPoint_fraction (n : Nat) : (fraction n).FixedPoint (n % 4294967296) :=
  ⟨_, rfl, toNat_words n⟩

theorem eq_of_words {result other : Result} {overflow overflow' : Word}
    (first : result.overflow = some overflow) (second : other.overflow = some overflow')
    (sameOverflow : overflow = overflow') (sameValue : result.value = other.value) :
    result = other := by
  cases result
  cases other
  cases first
  cases second
  cases sameOverflow
  cases sameValue
  rfl

/-- A number has only one result to stand for it. -/
theorem Wide.unique {result other : Result} {n : Nat} (wide : result.Wide n)
    (wideToo : other.Wide n) : result = other := by
  obtain ⟨overflow, first, number⟩ := wide
  obtain ⟨overflow', second, numberToo⟩ := wideToo
  obtain ⟨sameOverflow, sameValue⟩ := words_inj (number.trans numberToo.symm)
  exact eq_of_words first second sameOverflow sameValue

theorem FixedPoint.unique {result other : Result} {n : Nat} (fixed : result.FixedPoint n)
    (fixedToo : other.FixedPoint n) : result = other := by
  obtain ⟨overflow, first, number⟩ := fixed
  obtain ⟨overflow', second, numberToo⟩ := fixedToo
  obtain ⟨sameValue, sameOverflow⟩ := words_inj (number.trans numberToo.symm)
  exact eq_of_words first second sameOverflow sameValue

end Result

namespace Operation

variable (a b : Word)

theorem apply_add : (apply .add a b).Wide (a.toNat + b.toNat) := by
  have := a.toNat_lt
  have := b.toNat_lt
  apply Result.wide_of_lt
  omega

/-- The carry of a sum is one bit. -/
theorem overflow_add :
    (apply .add a b).overflow = some 0 ∨ (apply .add a b).overflow = some 1 := by
  obtain ⟨carry, found, sum⟩ := apply_add a b
  have := a.toNat_lt
  have := b.toNat_lt
  have bit : carry.toNat = 0 ∨ carry.toNat = 1 := by omega
  rw [found]
  rcases bit with zero | one
  · exact .inl (congrArg some (UInt16.toNat_inj.mp zero))
  · exact .inr (congrArg some (UInt16.toNat_inj.mp one))

theorem value_sub : ((apply .sub a b).value.toNat : Int) =
    a.toNat - b.toNat + if a.toNat < b.toNat then 65536 else 0 := by
  have := a.toNat_lt
  have := b.toNat_lt
  rw [apply, UInt16.toNat_sub]
  split <;> omega

theorem overflow_sub :
    (apply .sub a b).overflow = some (if a.toNat < b.toNat then 0xffff else 0) := by
  simp only [apply, UInt16.lt_iff_toNat_lt]

theorem product_lt : a.toNat * b.toNat < 4294967296 :=
  Nat.mul_lt_mul'' a.toNat_lt b.toNat_lt

theorem apply_mul : (apply .mul a b).Wide (a.toNat * b.toNat) :=
  Result.wide_of_lt (product_lt a b)

/-- What a left shift moves out of both words is lost, from a count of 32 on all of it. -/
theorem apply_shl : (apply .shl a b).Wide (a.toNat * Nat.pow 2 b.toNat % 4294967296) := by
  have shifted : a.toNat * Nat.pow 2 b.toNat % 4294967296 =
      (if b < 32 then a.toNat <<< b.toNat else 0) % 4294967296 := by
    split <;> rename_i small
    · rw [Nat.shiftLeft_eq]
      rfl
    · have large : 32 ≤ b.toNat :=
        Nat.le_of_not_lt fun less => small (UInt16.lt_iff_toNat_lt.mpr less)
      -- The power is a multiple of what two words hold, so that they keep nothing.
      have divides : 4294967296 ∣ Nat.pow 2 b.toNat := Nat.pow_dvd_pow 2 large
      exact Nat.mod_eq_zero_of_dvd (Nat.dvd_mul_left_of_dvd divides _)
  rw [shifted]
  exact Result.wide_overflowing _

/-- No part of a word with sixteen bits behind the point needs more than two words. -/
theorem fixedPoint_part {n : Nat} (part : n ≤ a.toNat * 65536) :
    (Result.fraction n).FixedPoint n := by
  have := a.toNat_lt
  have fits : n < 4294967296 := by omega
  have fixed := Result.fixedPoint_fraction n
  rwa [Nat.mod_eq_of_lt fits] at fixed

theorem apply_div : (apply .div a b).FixedPoint (a.toNat * 65536 / b.toNat) := by
  rw [apply, Nat.shiftLeft_eq]
  exact fixedPoint_part a (Nat.div_le_self ..)

theorem apply_shr : (apply .shr a b).FixedPoint (a.toNat * 65536 / Nat.pow 2 b.toNat) := by
  rw [apply, Nat.shiftLeft_eq, Nat.shiftRight_eq_div_pow]
  exact fixedPoint_part a (Nat.div_le_self ..)

theorem div_zero : apply .div a 0 = { value := 0, overflow := some 0 } := by
  have zero : Result.FixedPoint { value := 0, overflow := some 0 } (a.toNat * 65536 / 0) :=
    ⟨0, rfl, (Nat.div_zero _).symm⟩
  exact (apply_div a 0).unique zero

theorem value_div : (apply .div a b).value.toNat = a.toNat / b.toNat := by
  obtain ⟨fraction, -, quotient⟩ := apply_div a b
  have := fraction.toNat_lt
  calc (apply .div a b).value.toNat
    _ = a.toNat * 65536 / b.toNat / 65536 := by omega
    _ = a.toNat * 65536 / (b.toNat * 65536) := Nat.div_div_eq_div_mul ..
    _ = a.toNat / b.toNat := Nat.mul_div_mul_right _ _ (by decide)

theorem value_mod : (apply .mod a b).value.toNat = if b = 0 then 0 else a.toNat % b.toNat := by
  rw [apply]
  split
  · rfl
  · exact UInt16.toNat_mod ..

variable {b}

theorem div_mod (nonzero : b ≠ 0) :
    a.toNat = (apply .div a b).value.toNat * b.toNat + (apply .mod a b).value.toNat := by
  rw [value_div, value_mod, if_neg nonzero, Nat.div_add_mod']

theorem mod_lt (nonzero : b ≠ 0) : (apply .mod a b).value.toNat < b.toNat := by
  have positive : 0 < b.toNat := Nat.pos_of_ne_zero fun zero => nonzero (UInt16.toNat_inj.mp zero)
  rw [value_mod, if_neg nonzero]
  exact Nat.mod_lt a.toNat positive

/-- A shift by less than a word is a multiplication or a division by a power of two. -/
theorem shifts_eq (small : b.toNat < 16) :
    ∃ power : Word, power.toNat = Nat.pow 2 b.toNat ∧
      apply .shl a b = apply .mul a power ∧ apply .shr a b = apply .div a power := by
  have fits : Nat.pow 2 b.toNat < 65536 := Nat.pow_lt_pow_right (by decide) small
  have power : (UInt16.ofNat (Nat.pow 2 b.toNat)).toNat = Nat.pow 2 b.toNat :=
    UInt16.toNat_ofNat_of_lt' fits
  have left := apply_shl a b
  have product := apply_mul a (UInt16.ofNat (Nat.pow 2 b.toNat))
  have right := apply_shr a b
  have quotient := apply_div a (UInt16.ofNat (Nat.pow 2 b.toNat))
  rw [← power, Nat.mod_eq_of_lt (product_lt a _)] at left
  rw [← power] at right
  -- Each pair stands for one number, and a number has one result.
  exact ⟨_, power, left.unique product, right.unique quotient⟩

theorem overflow_eq_none_iff (operation : Operation) (a b : Word) :
    (operation.apply a b).overflow = none ↔ operation ∈ [.set, .mod, .and, .bor, .xor] := by
  cases operation <;> simp [apply, Result.overflowing, Result.fraction]

/-- Every operation on numbers is exact in the two words it gives, for all operands. -/
theorem apply_exact (a b : Word) :
    ((apply .add a b).Wide (a.toNat + b.toNat) ∧
      ((apply .add a b).overflow = some 0 ∨ (apply .add a b).overflow = some 1)) ∧
    (((apply .sub a b).value.toNat : Int) =
        a.toNat - b.toNat + (if a.toNat < b.toNat then 65536 else 0) ∧
      (apply .sub a b).overflow = some (if a.toNat < b.toNat then 0xffff else 0)) ∧
    (apply .mul a b).Wide (a.toNat * b.toNat) ∧
    ((b ≠ 0 → (apply .div a b).FixedPoint (a.toNat * 65536 / b.toNat)) ∧
      (b = 0 → apply .div a b = { value := 0, overflow := some 0 })) ∧
    ((apply .mod a b).value.toNat = (if b = 0 then 0 else a.toNat % b.toNat) ∧
      (b ≠ 0 →
        a.toNat = (apply .div a b).value.toNat * b.toNat + (apply .mod a b).value.toNat ∧
          (apply .mod a b).value.toNat < b.toNat)) ∧
    (apply .shl a b).Wide (a.toNat * Nat.pow 2 b.toNat % 4294967296) ∧
    (apply .shr a b).FixedPoint (a.toNat * 65536 / Nat.pow 2 b.toNat) ∧
    (b.toNat < 16 → ∃ power : Word, power.toNat = Nat.pow 2 b.toNat ∧
      apply .shl a b = apply .mul a power ∧ apply .shr a b = apply .div a power) ∧
    ∀ operation : Operation,
      (operation.apply a b).overflow = none ↔ operation ∈ [.set, .mod, .and, .bor, .xor] := by
  refine ⟨?add, ?sub, apply_mul a b, ?div, ?mod, apply_shl a b, apply_shr a b, shifts_eq a, ?unset⟩
  case add => exact ⟨apply_add a b, overflow_add a b⟩
  case sub => exact ⟨value_sub a b, overflow_sub a b⟩
  case div =>
      refine ⟨fun _ => apply_div a b, ?_⟩
      rintro rfl
      exact div_zero a
  case mod => exact ⟨value_mod a b, fun nonzero => ⟨div_mod a nonzero, mod_lt a nonzero⟩⟩
  case unset => exact fun operation => operation.overflow_eq_none_iff a b

/-- The largest shift that is still a product, of the largest word. -/
theorem apply_exact_largest :
    (∃ power : Word, power.toNat = 32768 ∧
      apply .shl 0xffff 15 = apply .mul 0xffff power ∧
        apply .shr 0xffff 15 = apply .div 0xffff power) ∧
    (apply .div 0xffff 15).value.toNat * 15 + (apply .mod 0xffff 15).value.toNat = 65535 ∧
    apply .div 0xffff 0 = { value := 0, overflow := some 0 } := by
  obtain ⟨-, -, -, -, ⟨-, divided⟩, -, -, shifts, -⟩ := apply_exact 0xffff 15
  obtain ⟨-, -, -, ⟨-, byZero⟩, -⟩ := apply_exact 0xffff 0
  exact ⟨shifts (by decide), (divided (by decide)).1.symm, byZero rfl⟩

end Operation
end Dcpu
