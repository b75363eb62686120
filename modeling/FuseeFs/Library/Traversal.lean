import Mathlib

/-!
# Traversing a linked list

Cells that name their successor are followed from a first cell to one without a
successor.  The reader has room for a limited number of cells, so that a
traversal ends even if the list is a cycle.
-/

namespace FuseeFs.Library

universe u

variable {Cell : Type u}

/-- Follows the links.  `usable` says whether the reader can take a cell as the
one with the given number; there is no result if it cannot, or if there are more
cells than there is room for. -/
def traverse (next : Cell → Option Cell) (usable : ℕ → Cell → Bool) :
    ℕ → ℕ → Cell → Option (List Cell)
  | 0, _, _ => none
  | room + 1, count, cell =>
    if usable count cell then
      match next cell with
      | none => some [cell]
      | some successor => (traverse next usable room (count + 1) successor).map (cell :: ·)
    else none

variable {next : Cell → Option Cell} {usable : ℕ → Cell → Bool} {cells : List Cell} {first : Cell}

theorem traverse_eq_some {room count : ℕ} (begins : cells.head? = some first)
    (links : cells.IsChain fun cell successor => next cell = some successor)
    (ends : ∀ last ∈ cells.getLast?, next last = none)
    (readable : ∀ idx, ∀ cell ∈ cells[idx]?, usable (count + idx) cell)
    (enough : cells.length ≤ room) : traverse next usable room count first = some cells := by
  induction cells generalizing room count first with
  | nil => cases begins
  | cons cell rest ih =>
    obtain rfl := Option.some.inj begins
    obtain ⟨room, rfl⟩ : ∃ less, room = less + 1 :=
      Nat.exists_eq_succ_of_ne_zero (by rw [List.length_cons] at enough; omega)
    have usable_cell : usable count cell := readable 0 cell rfl
    rw [traverse, if_pos usable_cell]
    cases rest with
    | nil => rw [ends cell rfl]
    | cons second rest =>
      obtain ⟨link, links⟩ := List.isChain_cons_cons.mp links
      have readable' : ∀ idx, ∀ other ∈ (second :: rest)[idx]?,
          usable (count + 1 + idx) other := by
        intro idx other mem
        rw [Nat.add_right_comm, Nat.add_assoc]
        exact readable (idx + 1) other mem
      have whole := ih rfl links ends readable' (Nat.le_of_succ_le_succ enough)
      rw [link]
      exact congrArg (Option.map (cell :: ·)) whole

theorem traverse_eq_none {room count : ℕ} (begins : cells.head? = some first)
    (links : cells.IsChain fun cell successor => next cell = some successor)
    (long : room < cells.length) : traverse next usable room count first = none := by
  induction room generalizing cells count first with
  | zero => rfl
  | succ room ih =>
    rw [traverse]
    by_cases usable_first : usable count first
    · rw [if_pos usable_first]
      obtain ⟨rest, rfl⟩ := List.head?_eq_some_iff.mp begins
      cases rest with
      | nil =>
        rw [List.length_singleton] at long
        omega
      | cons second rest =>
        obtain ⟨link, links⟩ := List.isChain_cons_cons.mp links
        have short : traverse next usable room (count + 1) second = none :=
          ih rfl links (Nat.lt_of_succ_lt_succ long)
        rw [link]
        exact congrArg (Option.map (first :: ·)) short
    · rw [if_neg usable_first]

end FuseeFs.Library
