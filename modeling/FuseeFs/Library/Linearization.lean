import FuseeFs.Library.Reachability

/-!
# Linearizations

A concurrent history gives every operation an interval of time and, once it
has returned, a result.  A linearization lists the operations that have taken
effect so that the list contains all that have returned, respects the order of
disjoint intervals, and explains every result by a sequential object.  The
lemmas follow a history as it grows: operations are invoked, are appended to
the list when they take effect, and return.
-/

namespace FuseeFs.Library

open List Option Function

universe u v w

/-- A deterministic object that is used by one client at a time. -/
structure SequentialObject (State : Type u) (Operation : Type v) (Result : Type w) where
  initial : State
  apply : State → Operation → State × Result

/-- An operation of a history, with the times of its invocation and return. -/
structure Interval (Operation : Type v) (Result : Type w) where
  operation : Operation
  invoked : ℕ
  returned : Option (ℕ × Result)

abbrev History (Operation : Type v) (Result : Type w) := ℕ → Option (Interval Operation Result)

section Order

variable {Operation : Type v}

def names (order : List (ℕ × Operation)) : List ℕ := order.map Prod.fst

def earlier (order : List (ℕ × Operation)) (name : ℕ) : List (ℕ × Operation) :=
  order.takeWhile fun entry => entry.1 ≠ name

@[simp]
theorem names_singleton (entry : ℕ × Operation) : names [entry] = [entry.1] :=
  rfl

@[simp]
theorem names_append (order more : List (ℕ × Operation)) :
    names (order ++ more) = names order ++ names more :=
  map_append

variable {order : List (ℕ × Operation)}

theorem earlier_append_of_mem {name : ℕ} (membership : name ∈ names order)
    (more : List (ℕ × Operation)) : earlier (order ++ more) name = earlier order name := by
  induction order with
  | nil => simp [names] at membership
  | cons entry order ih =>
    by_cases same : entry.1 = name
    · simp [earlier, same]
    · have later : name ∈ names order := by
        simpa [names, Ne.symm same] using membership
      simpa [earlier, same] using ih later

theorem earlier_append_self {name : ℕ} (absent : name ∉ names order) (operation : Operation)
    (more : List (ℕ × Operation)) : earlier (order ++ (name, operation) :: more) name = order := by
  have passed : ∀ entry ∈ order, entry.1 ≠ name := by
    rintro entry membership rfl
    exact absent (List.mem_map_of_mem membership)
  rw [earlier, takeWhile_append_of_pos fun entry mem => by simpa using passed entry mem]
  simp

def listing (bound : ℕ) (pick : ℕ → Option Operation) : List (ℕ × Operation) :=
  (List.range bound).filterMap fun name => (pick name).map fun operation => (name, operation)

theorem mem_listing {bound : ℕ} {pick : ℕ → Option Operation} {entry : ℕ × Operation} :
    entry ∈ listing bound pick ↔ entry.1 < bound ∧ pick entry.1 = some entry.2 := by
  simp only [listing, mem_filterMap, mem_range, map_eq_some_iff]
  constructor
  · rintro ⟨_, small, _, picked, rfl⟩
    exact ⟨small, picked⟩
  · rintro ⟨small, picked⟩
    exact ⟨entry.1, small, entry.2, picked, rfl⟩

theorem nodup_names_listing (bound : ℕ) (pick : ℕ → Option Operation) :
    (names (listing bound pick)).Nodup := by
  have sublist : (names (listing bound pick)).Sublist (List.range bound) := by
    rw [listing]
    induction List.range bound with
    | nil => exact .slnil
    | cons name range ih =>
      cases picked : pick name with
      | none => simpa [names, filterMap_cons, picked] using ih.cons name
      | some operation =>
        simpa [names, filterMap_cons, picked] using ih
  exact sublist.nodup nodup_range

end Order

variable {State : Type u} {Operation : Type v} {Result : Type w}

def SequentialObject.run (object : SequentialObject State Operation Result)
    (order : List (ℕ × Operation)) : State :=
  order.foldl (fun s entry => (object.apply s entry.2).1) object.initial

@[simp]
theorem SequentialObject.run_append_singleton (object : SequentialObject State Operation Result)
    (order : List (ℕ × Operation)) (entry : ℕ × Operation) :
    object.run (order ++ [entry]) = (object.apply (object.run order) entry.2).1 := by
  simp [run]

structure Linearizes (object : SequentialObject State Operation Result)
    (history : History Operation Result) (order : List (ℕ × Operation)) : Prop where
  nodup : (names order).Nodup
  known : ∀ entry ∈ order, ∃ interval, history entry.1 = some interval ∧
    interval.operation = entry.2
  complete : ∀ name interval, history name = some interval → interval.returned.isSome →
    name ∈ names order
  /-- What returned before another was invoked is listed before it. -/
  respects : ∀ name interval other later time result, history name = some interval →
    history other = some later → interval.returned = some (time, result) → time < later.invoked →
    other ∈ names order → name ∈ names (earlier order other)
  legal : ∀ entry ∈ order, ∀ interval time result, history entry.1 = some interval →
    interval.returned = some (time, result) →
    (object.apply (object.run (earlier order entry.1)) entry.2).2 = result

namespace Linearizes

variable {object : SequentialObject State Operation Result} {history : History Operation Result}
  {order : List (ℕ × Operation)} {name : ℕ} {interval : Interval Operation Result}

theorem start : Linearizes object (fun _ => none) [] where
  nodup := nodup_nil
  known := by simp
  complete := by simp
  respects := by simp
  legal := by simp

section Linearizes

variable (linear : Linearizes object history order)
include linear

theorem not_mem_names_of_none (unknown : history name = none) : name ∉ names order := by
  intro membership
  obtain ⟨entry, mem, rfl⟩ := List.mem_map.mp membership
  obtain ⟨_, found, -⟩ := linear.known entry mem
  rw [unknown] at found
  cases found

theorem invoke (unknown : history name = none) (pending : interval.returned = none) :
    Linearizes object (update history name (some interval)) order := by
  have absent := linear.not_mem_names_of_none unknown
  have kept : ∀ other ∈ names order,
      update history name (some interval) other = history other := by
    intro other membership
    have apart : other ≠ name := fun same => absent (same ▸ membership)
    exact update_of_ne apart _ _
  -- an operation that has returned was known before
  have old : ∀ other found, update history name (some interval) other = some found →
      found.returned.isSome → history other = some found := by
    intro other found known returned
    rcases update_eq_some known with ⟨-, rfl⟩ | ⟨-, before⟩
    · simp [pending] at returned
    · exact before
  refine ⟨linear.nodup, ?_, ?_, ?_, ?_⟩
  · intro entry mem
    rw [kept entry.1 (List.mem_map_of_mem mem)]
    exact linear.known entry mem
  · intro other found known returned
    exact linear.complete other found (old other found known returned) returned
  · intro first found other later time result known knownLater returned before membership
    rw [kept other membership] at knownLater
    exact linear.respects first found other later time result
      (old first found known (by simp [returned])) knownLater returned before membership
  · intro entry mem found time result known returned
    rw [kept entry.1 (List.mem_map_of_mem mem)] at known
    exact linear.legal entry mem found time result known returned

theorem append (known : history name = some interval) (pending : interval.returned = none)
    (absent : name ∉ names order) :
    Linearizes object history (order ++ [(name, interval.operation)]) := by
  have self := earlier_append_self absent interval.operation []
  have others : ∀ other ∈ names order,
      earlier (order ++ [(name, interval.operation)]) other = earlier order other :=
    fun other membership => earlier_append_of_mem membership _
  refine ⟨?_, ?_, ?_, ?_, ?_⟩
  · rw [names_append, nodup_append]
    refine ⟨linear.nodup, by simp [names], fun other membership entry new same => absent ?_⟩
    have named : entry = name := mem_singleton.mp new
    rwa [← named, ← same]
  · intro entry mem
    rcases mem_append.mp mem with old | new
    · exact linear.known entry old
    · rw [mem_singleton.mp new]
      exact ⟨interval, known, rfl⟩
  · intro other found knownOther returned
    rw [names_append]
    exact mem_append_left _ (linear.complete other found knownOther returned)
  · intro first found other later time result knownFirst knownLater returned before membership
    rcases mem_append.mp (names_append _ _ ▸ membership) with old | new
    · rw [others other old]
      exact linear.respects first found other later time result knownFirst knownLater returned
        before old
    · rw [mem_singleton.mp new, self]
      exact linear.complete first found knownFirst (by simp [returned])
  · intro entry mem found time result knownEntry returned
    rcases mem_append.mp mem with old | new
    · rw [others entry.1 (List.mem_map_of_mem old)]
      exact linear.legal entry old found time result knownEntry returned
    · rw [mem_singleton.mp new, known] at knownEntry
      cases knownEntry
      rw [pending] at returned
      cases returned

theorem append_all (entries : List (ℕ × Operation)) (nodup : (names entries).Nodup)
    (pending : ∀ entry ∈ entries, entry.1 ∉ names order ∧ ∃ interval, history entry.1 = some
      interval ∧ interval.operation = entry.2 ∧ interval.returned = none) :
    Linearizes object history (order ++ entries) := by
  induction entries generalizing order with
  | nil => simpa using linear
  | cons entry entries ih =>
    obtain ⟨fresh, nodup⟩ := nodup_cons.mp nodup
    obtain ⟨absent, _, known, operation, flight⟩ := pending entry mem_cons_self
    have first := linear.append known flight absent
    rw [operation] at first
    have rest := ih first nodup fun other mem => by
      obtain ⟨absentOther, knownOther⟩ := pending other (mem_cons_of_mem _ mem)
      refine ⟨?_, knownOther⟩
      have apart : other.1 ≠ entry.1 := fun same => fresh (same ▸ List.mem_map_of_mem mem)
      simp [absentOther, apart]
    simpa using rest

theorem respond (known : history name = some interval) (mem : name ∈ names order) {now : ℕ}
    (latest : ∀ other later, history other = some later → later.invoked ≤ now) :
    Linearizes object
      (update history name (some { interval with
        returned := some (now,
          (object.apply (object.run (earlier order name)) interval.operation).2) })) order := by
  let responded : Interval Operation Result := { interval with
    returned := some (now, (object.apply (object.run (earlier order name)) interval.operation).2) }
  -- the operations and the times of invocation stay as they are
  have stays : ∀ other found, update history name (some responded) other = some found →
      ∃ before, history other = some before ∧ before.operation = found.operation ∧
        before.invoked = found.invoked ∧
        (other ≠ name → before.returned = found.returned) := by
    intro other found knownOther
    rcases update_eq_some knownOther with ⟨rfl, rfl⟩ | ⟨-, before⟩
    · exact ⟨interval, known, rfl, rfl, fun apart => absurd rfl apart⟩
    · exact ⟨found, before, rfl, rfl, fun _ => rfl⟩
  refine ⟨linear.nodup, ?_, ?_, ?_, ?_⟩
  · intro entry membership
    obtain ⟨found, knownEntry, operation⟩ := linear.known entry membership
    by_cases same : entry.1 = name
    · rw [same, known] at knownEntry
      cases knownEntry
      exact ⟨responded, by rw [same, update_self], operation⟩
    · exact ⟨found, by rw [update_of_ne same, knownEntry], operation⟩
  · intro other found knownOther returned
    by_cases same : other = name
    · exact same ▸ mem
    · obtain ⟨before, knownBefore, -, -, result⟩ := stays other found knownOther
      exact linear.complete other before knownBefore (by rw [result same]; exact returned)
  · intro first found other later time result knownFirst knownLater returned precedes membership
    obtain ⟨before, knownBefore, -, -, sameResult⟩ := stays first found knownFirst
    obtain ⟨laterBefore, knownLaterBefore, -, _, -⟩ := stays other later knownLater
    by_cases same : first = name
    · -- nothing was invoked after the operation that returns only now
      rw [same, update_self] at knownFirst
      cases knownFirst
      cases returned
      have bound := latest other laterBefore knownLaterBefore
      omega
    · exact linear.respects first before other laterBefore time result knownBefore knownLaterBefore
        (by rw [sameResult same, returned]) (by omega) membership
  · intro entry membership found time result knownEntry returned
    by_cases same : entry.1 = name
    · rw [same, update_self] at knownEntry
      cases knownEntry
      cases returned
      obtain ⟨_, knownOriginal, operation⟩ := linear.known entry membership
      rw [same, known] at knownOriginal
      cases knownOriginal
      rw [same, operation]
    · obtain ⟨before, knownBefore, -, -, sameResult⟩ := stays entry.1 found knownEntry
      exact linear.legal entry membership before time result knownBefore
        (by rw [sameResult same, returned])

end Linearizes

end Linearizes

end FuseeFs.Library
