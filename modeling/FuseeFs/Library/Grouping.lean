import Mathlib

/-!
# Grouping with an ordered map

A C++ `std::map<Key, std::vector<Value>>` that is filled by
`groups[key].push_back(value)` is modelled by the list of its entries in key
order.  The values of a key stand in the order in which they were added.
-/

namespace FuseeFs.Library

open List Option

universe u v

section Groups

variable {Key : Type u} {Value : Type v} [LinearOrder Key] (keyOf : Value → Key)

def group (values : List Value) (key : Key) : List Value :=
  values.filter fun value => keyOf value = key

def groups (values : List Value) : List (Key × List Value) :=
  ((values.map keyOf).dedup.insertionSort (· ≤ ·)).map fun key => (key, group keyOf values key)

variable {keyOf} {values : List Value}

theorem mem_groups {key : Key} {members : List Value} :
    (key, members) ∈ groups keyOf values ↔
      (∃ value ∈ values, keyOf value = key) ∧ members = group keyOf values key := by
  constructor
  · intro mem
    obtain ⟨_, sorted, same⟩ := List.mem_map.mp mem
    cases same
    rw [mem_insertionSort, mem_dedup, List.mem_map] at sorted
    exact ⟨sorted, rfl⟩
  · rintro ⟨_, same⟩
    refine List.mem_map.mpr ⟨key, ?_, Prod.ext rfl same.symm⟩
    rwa [mem_insertionSort, mem_dedup, List.mem_map]

theorem head?_groups_le {entry : Key × List Value} (first : (groups keyOf values).head? = some entry)
    {value : Value} (present : value ∈ values) : entry.1 ≤ keyOf value := by
  have sorted := pairwise_insertionSort (· ≤ ·) (values.map keyOf).dedup
  have mem : keyOf value ∈ (values.map keyOf).dedup.insertionSort (· ≤ ·) := by
    rw [mem_insertionSort, mem_dedup]
    exact List.mem_map_of_mem present
  rw [groups, head?_map, map_eq_some_iff] at first
  obtain ⟨_, head, rfl⟩ := first
  cases keys : (values.map keyOf).dedup.insertionSort (· ≤ ·) with
  | nil => simp [keys] at head
  | cons least rest =>
    rw [keys] at head sorted mem
    cases head
    obtain same | later := mem_cons.mp mem
    · exact same.ge
    · exact rel_of_pairwise_cons sorted later

theorem head?_groups_isSome (keyOf : Value → Key) {value : Value} (present : value ∈ values) :
    ∃ entry, (groups keyOf values).head? = some entry := by
  have mem : (keyOf value, group keyOf values (keyOf value)) ∈ groups keyOf values :=
    mem_groups.mpr ⟨⟨value, present, rfl⟩, rfl⟩
  obtain ⟨entry, _, entries⟩ := exists_cons_of_ne_nil (ne_nil_of_mem mem)
  exact ⟨entry, by rw [entries, head?_cons]⟩

theorem length_group_add_le (keyOf : Value → Key) (values : List Value) {key other : Key}
    (ne : key ≠ other) :
    (group keyOf values key).length + (group keyOf values other).length ≤ values.length := by
  have outside : (group keyOf values other).Sublist
      (values.filter fun value => !decide (keyOf value = key)) := by
    apply monotone_filter_right
    intro value isOther
    rw [of_decide_eq_true isOther, decide_eq_false ne.symm]
    rfl
  have split := length_eq_length_filter_add (l := values) (fun value => decide (keyOf value = key))
  have bound := outside.length_le
  unfold group at bound ⊢
  omega

/-- A group with more than half of the values is the only one, so that a scan of
the map finds it. -/
theorem find?_groups_of_majority (keyOf : Value → Key) (values : List Value) {key : Key}
    (majority : values.length / 2 < (group keyOf values key).length) :
    (groups keyOf values).find? (fun entry => decide (values.length / 2 < entry.2.length)) =
      some (key, group keyOf values key) := by
  have inhabited : group keyOf values key ≠ [] := ne_nil_of_length_pos (by omega)
  obtain ⟨value, member⟩ := exists_mem_of_ne_nil _ inhabited
  obtain ⟨present, isKey⟩ := mem_filter.mp member
  have mem : (key, group keyOf values key) ∈ groups keyOf values :=
    mem_groups.mpr ⟨⟨value, present, of_decide_eq_true isKey⟩, rfl⟩
  have found : ((groups keyOf values).find? fun entry =>
      decide (values.length / 2 < entry.2.length)).isSome :=
    find?_isSome.mpr ⟨_, mem, decide_eq_true majority⟩
  obtain ⟨⟨other, _⟩, result⟩ := isSome_iff_exists.mp found
  have large := find?_some result
  simp only [decide_eq_true_eq] at large
  obtain ⟨-, rfl⟩ := mem_groups.mp (mem_of_find?_eq_some result)
  have same : key = other := by
    by_contra ne
    have bound := length_group_add_le keyOf values ne
    omega
  rw [result, same]

end Groups

end FuseeFs.Library
