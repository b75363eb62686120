import Mathlib

/-!
# Counting with an ordered map

A C++ `std::map<Key, int>` that is filled by `counts[key]++` is modelled by
the list of its entries in key order.  Only what a program can observe of such
a map is stated: the count of a key, the first key, and the entry at which a
scan for the strictly greatest count stops.
-/

namespace FuseeFs.Library

open List Option

universe u

/-- `counts[key]++` on the entry list. -/
def bumpEntries {Key : Type u} [LinearOrder Key] (key : Key) : List (Key × ℕ) → List (Key × ℕ)
  | [] => [(key, 1)]
  | (entry, count) :: rest =>
    if key < entry then (key, 1) :: (entry, count) :: rest
    else if key = entry then (entry, count + 1) :: rest
    else (entry, count) :: bumpEntries key rest

/-- `counts[key]` as a value; an absent key counts zero. -/
def countEntries {Key : Type u} [DecidableEq Key] (key : Key) : List (Key × ℕ) → ℕ
  | [] => 0
  | (entry, count) :: rest => if key = entry then count else countEntries key rest

section Entries

variable {Key : Type u} [LinearOrder Key] {entries : List (Key × ℕ)}

theorem keys_bumpEntries (key : Key) (entries : List (Key × ℕ)) (other : Key) :
    other ∈ (bumpEntries key entries).map Prod.fst ↔
      other = key ∨ other ∈ entries.map Prod.fst := by
  induction entries with
  | nil => simp [bumpEntries]
  | cons head rest ih =>
    obtain ⟨_, _⟩ := head
    simp only [bumpEntries]
    split_ifs with below same
    · simp
    · simp [same]
    · simp only [map_cons, mem_cons, ih]
      tauto

theorem sorted_bumpEntries (key : Key) (sorted : (entries.map Prod.fst).Pairwise (· < ·)) :
    ((bumpEntries key entries).map Prod.fst).Pairwise (· < ·) := by
  induction entries with
  | nil => simp [bumpEntries]
  | cons head rest ih =>
    obtain ⟨_, _⟩ := head
    obtain ⟨first, sortedRest⟩ := pairwise_cons.mp sorted
    simp only [bumpEntries]
    split_ifs with below same
    · refine pairwise_cons.mpr ⟨?_, sorted⟩
      intro other mem
      rcases mem_cons.mp mem with atHead | inRest
      · exact atHead ▸ below
      · exact below.trans (first other inRest)
    · exact sorted
    · refine pairwise_cons.mpr ⟨?_, ih sortedRest⟩
      intro other mem
      rcases (keys_bumpEntries key rest other).mp mem with isKey | inRest
      · exact isKey ▸ lt_of_le_of_ne (not_lt.mp below) (Ne.symm same)
      · exact first other inRest

theorem countEntries_of_not_mem {key : Key} (absent : key ∉ entries.map Prod.fst) :
    countEntries key entries = 0 := by
  induction entries with
  | nil => rfl
  | cons head rest ih =>
    simp only [map_cons, mem_cons, not_or] at absent
    simp only [countEntries, if_neg absent.1]
    exact ih absent.2

theorem countEntries_bumpEntries (key other : Key)
    (sorted : (entries.map Prod.fst).Pairwise (· < ·)) :
    countEntries other (bumpEntries key entries) =
      countEntries other entries + if other = key then 1 else 0 := by
  induction entries with
  | nil => simp [bumpEntries, countEntries]
  | cons head rest ih =>
    obtain ⟨entry, count⟩ := head
    obtain ⟨first, sortedRest⟩ := pairwise_cons.mp sorted
    simp only [bumpEntries]
    rcases lt_trichotomy key entry with below | same | above
    · -- the key is inserted in front, so it was absent from the whole map
      have absent : key ∉ ((entry, count) :: rest).map Prod.fst := by
        intro mem
        rcases mem_cons.mp mem with atHead | inRest
        · exact below.ne atHead
        · exact (below.trans (first key inRest)).false
      rw [if_pos below]
      by_cases isKey : other = key
      · rw [isKey, countEntries_of_not_mem absent]
        simp [countEntries]
      · simp [countEntries, isKey]
    · subst same
      simp only [lt_self_iff_false, if_false, if_true, countEntries]
      split_ifs <;> rfl
    · rw [if_neg above.not_gt, if_neg above.ne']
      simp only [countEntries]
      split_ifs with atHead isKey isKey
      · exact absurd (isKey.symm.trans atHead) above.ne'
      · rfl
      · simpa [isKey] using ih sortedRest
      · simpa [isKey] using ih sortedRest

theorem countEntries_of_mem {key : Key} {count : ℕ}
    (sorted : (entries.map Prod.fst).Pairwise (· < ·)) (mem : (key, count) ∈ entries) :
    countEntries key entries = count := by
  induction entries with
  | nil => cases mem
  | cons head rest ih =>
    obtain ⟨first, sortedRest⟩ := pairwise_cons.mp sorted
    rcases mem_cons.mp mem with atHead | inRest
    · simp [← atHead, countEntries]
    · have above := first key (List.mem_map_of_mem inRest)
      simp only [countEntries, if_neg above.ne']
      exact ih sortedRest inRest

end Entries

structure CountMap (Key : Type u) [LinearOrder Key] where
  entries : List (Key × ℕ)
  sorted : (entries.map Prod.fst).Pairwise (· < ·)

namespace CountMap

variable {Key : Type u} [LinearOrder Key]

def empty : CountMap Key := ⟨[], List.Pairwise.nil⟩

/-- `counts[key]++`. -/
def bump (counts : CountMap Key) (key : Key) : CountMap Key :=
  ⟨bumpEntries key counts.entries, sorted_bumpEntries key counts.sorted⟩

/-- `counts[key]` as a value. -/
def count (counts : CountMap Key) (key : Key) : ℕ :=
  countEntries key counts.entries

/-- `counts.begin()->first`. -/
def firstKey? (counts : CountMap Key) : Option Key :=
  counts.entries.head?.map Prod.fst

/-- The scan that keeps the first entry whose count is strictly greater than
the counts of all entries before it. -/
def leader? (counts : CountMap Key) : Option (Key × ℕ) :=
  counts.entries.foldl
    (fun best next => match best with
      | none => some next
      | some held => if held.2 < next.2 then some next else some held)
    none

def tally (ballots : List Key) : CountMap Key :=
  ballots.foldl bump empty

@[simp]
theorem count_empty (key : Key) : (empty : CountMap Key).count key = 0 := rfl

theorem count_bump (counts : CountMap Key) (key other : Key) :
    (counts.bump key).count other = counts.count other + if other = key then 1 else 0 :=
  countEntries_bumpEntries key other counts.sorted

theorem mem_keys_bump (counts : CountMap Key) (key other : Key) :
    other ∈ (counts.bump key).entries.map Prod.fst ↔
      other = key ∨ other ∈ counts.entries.map Prod.fst :=
  keys_bumpEntries key counts.entries other

theorem count_foldl_bump (ballots : List Key) (counts : CountMap Key) (key : Key) :
    (ballots.foldl bump counts).count key = counts.count key + ballots.count key := by
  induction ballots generalizing counts with
  | nil => simp
  | cons ballot rest ih =>
    simp only [foldl_cons, ih, count_bump, count_cons, beq_iff_eq]
    simp only [eq_comm (a := ballot)]
    omega

@[simp]
theorem count_tally (ballots : List Key) (key : Key) :
    (tally ballots).count key = ballots.count key := by
  simp [tally, count_foldl_bump]

theorem mem_keys_foldl_bump (ballots : List Key) (counts : CountMap Key) (key : Key) :
    key ∈ (ballots.foldl bump counts).entries.map Prod.fst ↔
      key ∈ ballots ∨ key ∈ counts.entries.map Prod.fst := by
  induction ballots generalizing counts with
  | nil => simp
  | cons ballot rest ih =>
    simp only [foldl_cons, ih, mem_keys_bump, mem_cons]
    tauto

theorem mem_keys_tally (ballots : List Key) (key : Key) :
    key ∈ (tally ballots).entries.map Prod.fst ↔ key ∈ ballots := by
  simp only [tally, mem_keys_foldl_bump]
  simp [empty]

theorem firstKey?_tally_le {ballots : List Key} {key ballot : Key}
    (first : (tally ballots).firstKey? = some key) (mem : ballot ∈ ballots) : key ≤ ballot := by
  have inKeys := (mem_keys_tally ballots ballot).mpr mem
  have sorted := (tally ballots).sorted
  unfold firstKey? at first
  cases shape : (tally ballots).entries with
  | nil => simp [shape] at first
  | cons head rest =>
    simp only [shape, head?_cons, map_some, Option.some.injEq] at first
    simp only [shape, map_cons, mem_cons, pairwise_cons] at inKeys sorted
    rcases inKeys with atHead | inRest
    · exact (first.symm.trans atHead.symm).le
    · exact first ▸ (sorted.1 ballot inRest).le

omit [LinearOrder Key] in
private theorem foldl_leader (entries : List (Key × ℕ)) (held : Key × ℕ) :
    ∃ best, entries.foldl
        (fun best next => match best with
          | none => some next
          | some held => if held.2 < next.2 then some next else some held)
        (some held) = some best ∧
      (best = held ∨ best ∈ entries) ∧ held.2 ≤ best.2 ∧ ∀ entry ∈ entries, entry.2 ≤ best.2 := by
  induction entries generalizing held with
  | nil => exact ⟨held, rfl, .inl rfl, le_rfl, by simp⟩
  | cons next rest ih =>
    simp only [foldl_cons]
    split_ifs with greater
    · obtain ⟨best, found, origin, above, bounds⟩ := ih next
      refine ⟨best, found, .inr ?_, greater.le.trans above, ?_⟩
      · rcases origin with isNext | inRest
        · exact isNext ▸ mem_cons_self
        · exact mem_cons_of_mem _ inRest
      · simpa using ⟨above, fun key count mem => bounds (key, count) mem⟩
    · obtain ⟨best, found, origin, above, bounds⟩ := ih held
      refine ⟨best, found, origin.imp_right (mem_cons_of_mem _), above, ?_⟩
      simpa using ⟨(not_lt.mp greater).trans above, fun key count mem => bounds (key, count) mem⟩

theorem leader?_tally {ballots : List Key} (nonempty : ballots ≠ []) :
    ∃ key, (tally ballots).leader? = some (key, ballots.count key) ∧
      ∀ other, ballots.count other ≤ ballots.count key := by
  have countAt : ∀ key count, (key, count) ∈ (tally ballots).entries →
      count = ballots.count key := fun key count mem => by
    rw [← count_tally, CountMap.count, countEntries_of_mem (tally ballots).sorted mem]
  cases shape : (tally ballots).entries with
  | nil =>
    obtain ⟨ballot, mem⟩ := exists_mem_of_ne_nil ballots nonempty
    simpa [shape] using (mem_keys_tally ballots ballot).mpr mem
  | cons head rest =>
    obtain ⟨⟨key, most⟩, found, origin, above, bounds⟩ := foldl_leader rest head
    rw [shape] at countAt
    have counted : most = ballots.count key := countAt key most (mem_cons.mpr origin)
    refine ⟨key, ?_, fun other => ?_⟩
    · simpa only [leader?, shape, foldl_cons, counted] using found
    · by_cases cast : other ∈ ballots
      · obtain ⟨⟨entry, count⟩, mem, rfl⟩ :=
          List.mem_map.mp ((mem_keys_tally ballots other).mpr cast)
        rw [shape] at mem
        rw [← countAt entry count mem, ← counted]
        rcases mem_cons.mp mem with isHead | inRest
        · exact (congrArg Prod.snd isHead).le.trans above
        · exact bounds (entry, count) inRest
      · simp [count_eq_zero_of_not_mem cast]

end CountMap

theorem count_ofFn {Key : Type u} [DecidableEq Key] {size : ℕ} (value : Fin size → Key)
    (key : Key) :
    (List.ofFn value).count key = (Finset.univ.filter fun index => value index = key).card := by
  rw [ofFn_eq_map, List.count, countP_map, countP_eq_length_filter,
    ← toFinset_card_of_nodup ((nodup_finRange size).filter _)]
  congr 1
  ext index
  simp

end FuseeFs.Library
