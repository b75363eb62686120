import Mathlib

/-!
# Numbers packed into a word

A program packs numbers into a 64-bit word with shifts, masks and bitwise or.
Each of these is an operation on numbers here: a shift multiplies or divides by
a power of two, a mask of ones takes the remainder, and parts that do not
overlap are added.
-/

namespace FuseeFs.Library.BitFields

variable {word high low shift mask : UInt64} {bits : ℕ}

theorem toNat_shiftRight_eq_div (amount : shift.toNat = bits) (small : bits < 64) :
    (word >>> shift).toNat = word.toNat / 2 ^ bits := by
  rw [UInt64.toNat_shiftRight, amount, Nat.mod_eq_of_lt small, Nat.shiftRight_eq_div_pow]

theorem toNat_shiftLeft_eq_mul (amount : shift.toNat = bits) (small : bits < 64)
    (fits : word.toNat * 2 ^ bits < 2 ^ 64) : (word <<< shift).toNat = word.toNat * 2 ^ bits := by
  rw [UInt64.toNat_shiftLeft, amount, Nat.mod_eq_of_lt small, Nat.shiftLeft_eq,
    Nat.mod_eq_of_lt fits]

theorem toNat_and_eq_mod (ones : mask.toNat = 2 ^ bits - 1) :
    (word &&& mask).toNat = word.toNat % 2 ^ bits := by
  rw [UInt64.toNat_and, ones, Nat.and_two_pow_sub_one_eq_mod]

theorem toNat_or_eq_add (multiple : 2 ^ bits ∣ high.toNat) (small : low.toNat < 2 ^ bits) :
    (high ||| low).toNat = high.toNat + low.toNat := by
  obtain ⟨count, split⟩ := multiple
  rw [UInt64.toNat_or, split]
  exact (Nat.two_pow_add_eq_or_of_lt small count).symm

theorem toNat_shiftLeft_or (amount : shift.toNat = bits) (small : bits < 64)
    (fits : high.toNat * 2 ^ bits < 2 ^ 64) (rest : low.toNat < 2 ^ bits) :
    (high <<< shift ||| low).toNat = high.toNat * 2 ^ bits + low.toNat := by
  have moved := toNat_shiftLeft_eq_mul amount small fits
  rw [toNat_or_eq_add (Dvd.intro_left _ moved.symm) rest, moved]

theorem toNat_shiftRight_and {width : ℕ} (amount : shift.toNat = bits) (small : bits < 64)
    (ones : mask.toNat = 2 ^ width - 1) :
    (word >>> shift &&& mask).toNat = word.toNat / 2 ^ bits % 2 ^ width := by
  rw [toNat_and_eq_mod ones, toNat_shiftRight_eq_div amount small]

theorem toNat_shiftRight_shiftLeft (amount : shift.toNat = bits) (small : bits < 64) :
    (word >>> shift <<< shift).toNat = word.toNat / 2 ^ bits * 2 ^ bits := by
  have quotient := @toNat_shiftRight_eq_div word shift bits amount small
  have fits : (word >>> shift).toNat * 2 ^ bits < 2 ^ 64 := by
    rw [quotient]
    exact (Nat.div_mul_le_self _ _).trans_lt word.toNat_lt
  rw [toNat_shiftLeft_eq_mul amount small fits, quotient]

end FuseeFs.Library.BitFields
