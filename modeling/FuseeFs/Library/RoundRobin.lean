import Mathlib

/-!
# Round-robin merging of queues

Several queues are merged by taking one element from each of them in turn,
until all are empty.
-/

namespace FuseeFs.Library

open List

universe u

variable {Element : Type u}

def roundRobin : ℕ → List (List Element) → List Element
  | 0, _ => []
  | rounds + 1, queues => queues.filterMap List.head? ++ roundRobin rounds (queues.map List.tail)

theorem flatten_perm_head_tail (queues : List (List Element)) :
    (queues.filterMap List.head? ++ (queues.map List.tail).flatten).Perm queues.flatten := by
  induction queues with
  | nil => exact List.Perm.refl []
  | cons queue queues ih =>
    cases queue with
    | nil => exact ih
    | cons first rest =>
      simp only [filterMap_cons, head?_cons, map_cons, tail_cons, flatten_cons, cons_append]
      refine List.Perm.cons first ?_
      refine List.Perm.trans ?_ (ih.append_left rest)
      rw [← append_assoc, ← append_assoc]
      exact perm_append_comm.append_right _

variable {queues : List (List Element)}

theorem roundRobin_perm {rounds : ℕ} (enough : ∀ queue ∈ queues, queue.length ≤ rounds) :
    (roundRobin rounds queues).Perm queues.flatten := by
  induction rounds generalizing queues with
  | zero =>
    have empty : queues.flatten = [] :=
      List.flatten_eq_nil_iff.mpr fun queue mem =>
        eq_nil_of_length_eq_zero (Nat.le_zero.mp (enough queue mem))
    rw [roundRobin, empty]
  | succ rounds ih =>
    have shorter : ∀ queue ∈ queues.map List.tail, queue.length ≤ rounds := by
      intro queue mem
      obtain ⟨longer, original, rfl⟩ := List.mem_map.mp mem
      rw [length_tail]
      have bound := enough longer original
      omega
    exact ((ih shorter).append_left _).trans (flatten_perm_head_tail queues)

theorem head?_roundRobin {rounds : ℕ} (pos : 0 < rounds) {first : Element}
    {rest : List Element} : (roundRobin rounds ((first :: rest) :: queues)).head? = some first := by
  obtain ⟨_, rfl⟩ := Nat.exists_eq_succ_of_ne_zero pos.ne'
  simp [roundRobin]

/-- Elements that were sorted by a key are those whose key is one of the list. -/
theorem flatMap_filter_perm {Key : Type*} [DecidableEq Key] (key : Element → Key)
    (elements : List Element) {keys : List Key} (nodup : keys.Nodup) :
    (keys.flatMap fun value => elements.filter (key · = value)).Perm
      (elements.filter (key · ∈ keys)) := by
  induction keys with
  | nil => simp
  | cons value keys ih =>
    obtain ⟨new, nodup⟩ := nodup_cons.mp nodup
    have first : (elements.filter (key · ∈ value :: keys)).filter (key · = value) =
        elements.filter (key · = value) := by
      rw [List.filter_filter]
      refine filter_congr fun element _ => ?_
      by_cases same : key element = value <;> simp [same]
    have others : (elements.filter (key · ∈ value :: keys)).filter
        (fun element => !decide (key element = value)) = elements.filter (key · ∈ keys) := by
      rw [List.filter_filter]
      refine filter_congr fun element _ => ?_
      by_cases same : key element = value <;> simp [same, new]
    have split := filter_append_perm (key · = value) (elements.filter (key · ∈ value :: keys))
    rw [first, others] at split
    rw [flatMap_cons]
    exact ((ih nodup).append_left _).trans split

theorem flatten_filter_perm (number : Element → ℕ) (elements : List Element) (queues : ℕ) :
    ((List.range queues).map fun queue => elements.filter (number · = queue)).flatten.Perm
      (elements.filter (number · < queues)) := by
  have sorted := flatMap_filter_perm number elements (@List.nodup_range queues)
  simpa only [flatMap_def, mem_range] using sorted

theorem eq_of_mem_of_nodup_flatten (nodup : queues.flatten.Nodup) {queue other : List Element}
    (mem : queue ∈ queues) (otherListed : other ∈ queues) {element : Element}
    (inQueue : element ∈ queue) (inOther : element ∈ other) : queue = other := by
  by_contra ne
  have symmetric : Std.Symm (@List.Disjoint Element) := ⟨fun _ _ => List.Disjoint.symm⟩
  have disjoint := (List.nodup_flatten.mp nodup).2
  exact disjoint.forall mem otherListed ne inQueue inOther

end FuseeFs.Library
