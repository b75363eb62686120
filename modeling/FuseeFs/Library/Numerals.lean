import Mathlib

/-!
# Numerals of finite index types

A numeral of `Fin n` rests on a proof that `n` is not zero.  These proofs have
names of their own here, for a successor and for the sizes that occur.
-/

namespace FuseeFs.Library

instance (priority := 2000) neZero_succ (n : ℕ) : NeZero (n + 1) :=
  ⟨Nat.succ_ne_zero n⟩

instance (priority := 3000) neZero_one : NeZero 1 :=
  neZero_succ 0

instance (priority := 3000) neZero_two : NeZero 2 :=
  neZero_succ 1

instance (priority := 3000) neZero_three : NeZero 3 :=
  neZero_succ 2

instance (priority := 3000) neZero_four : NeZero 4 :=
  neZero_succ 3

instance (priority := 3000) neZero_seven : NeZero 7 :=
  neZero_succ 6

instance (priority := 3000) neZero_sixteen : NeZero 16 :=
  neZero_succ 15

end FuseeFs.Library
