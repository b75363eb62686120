import Mathlib

/-!
# A ledger of replacements

Cells hold values, and agents replace the value of one cell after the other.  A
value counts as one unit, so that a replacement moves a unit from the old value
to the new one, and two cells differ by the replacements that have reached one
of them and not the other.
-/

namespace FuseeFs.Library

open Function

universe u v w

def unit {Value : Type u} [DecidableEq Value] (value : Value) : Value → ℤ :=
  Pi.single value 1

def replacement {Value : Type u} [DecidableEq Value] (old new : Value) : Value → ℤ :=
  unit new - unit old

theorem unit_injective {Value : Type u} [DecidableEq Value] :
    Injective (unit : Value → Value → ℤ) := by
  intro left right same
  by_contra ne
  have units := congrFun same left
  rw [unit, unit, Pi.single_eq_same, Pi.single_eq_of_ne ne] at units
  exact one_ne_zero units

theorem sum_comp_update {Agent : Type u} {Entry : Type v} {Total : Type w} [Fintype Agent]
    [DecidableEq Agent] [AddCommGroup Total] (entries : Agent → Entry) (weight : Entry → Total)
    (agent : Agent) (entry : Entry) :
    ∑ other, weight (update entries agent entry other) =
      ∑ other, weight (entries other) - weight (entries agent) + weight entry := by
  have changed : (fun other => weight (update entries agent entry other)) =
      update (weight ∘ entries) agent (weight entry) :=
    comp_update weight entries agent entry
  have split := Finset.add_sum_erase Finset.univ (weight ∘ entries) (Finset.mem_univ agent)
  rw [changed, Finset.sum_update_of_mem (Finset.mem_univ agent), Finset.sdiff_singleton_eq_erase]
  simp only [comp_apply] at split ⊢
  rw [← split]
  abel

end FuseeFs.Library
