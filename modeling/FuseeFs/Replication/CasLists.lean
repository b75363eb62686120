import FuseeFs.Replication.Protocol

/-!
# Lists of compare-and-swaps of `ClientCR`

`iteratively_cas_sync` and `iteratively_cas_async` take a list of
compare-and-swaps and repeat each of them with the value that it has found,
until it has replaced the value of its slot.  Between any two of them other
clients may change any slot.  The second function looks at the result of the
first request, whatever request it works on.
-/

namespace FuseeFs.Replication.CasLists

open Option Function Library

structure CasRequest (Slot : Type) where
  slot : Slot
  compareAdd : UInt64
  swap : UInt64

structure IssuedCas where
  index : ℕ
  expectedValue : UInt64
  found : UInt64
deriving DecidableEq

/-- The slots, and the variables of the function while it works on the request
with the index `i`. -/
structure State (Slot : Type) where
  memory : Slot → UInt64
  i : ℕ
  expectedValue : UInt64
  swapBack : ℕ → UInt64
  issued : List IssuedCas

inductive Event (Slot : Type)
  /-- A compare-and-swap of another client. -/
  | interfere (slot : Slot) (expectedValue swap : UInt64)
  /-- The next compare-and-swap is executed and its result tested. -/
  | cas

section Step

variable {Slot : Type} [DecidableEq Slot]

def casMemory (memory : Slot → UInt64) (slot : Slot) (expectedValue swap : UInt64) :
    Slot → UInt64 :=
  if memory slot = expectedValue then update memory slot swap else memory

def testedIndex (variant : Variant) (i : ℕ) : ℕ :=
  match variant with
  | .sync => i
  | .async => 0

def compareAddAt (requests : List (CasRequest Slot)) (i : ℕ) : UInt64 :=
  (requests[i]?).elim 0 CasRequest.compareAdd

variable (requests : List (CasRequest Slot)) (variant : Variant)

def casRound (s : State Slot) (req : CasRequest Slot) : State Slot :=
  let found := s.memory req.slot
  let swapBack := update s.swapBack s.i found
  let tested := swapBack (testedIndex variant s.i)
  { memory := casMemory s.memory req.slot s.expectedValue req.swap
    i := if tested = s.expectedValue then s.i + 1 else s.i
    expectedValue :=
      if tested = s.expectedValue then compareAddAt requests (s.i + 1) else tested
    swapBack := swapBack
    issued := ⟨s.i, s.expectedValue, found⟩ :: s.issued }

def step (s : State Slot) : Event Slot → Option (State Slot)
  | .interfere slot expectedValue swap =>
    some { s with memory := casMemory s.memory slot expectedValue swap }
  | .cas => (requests[s.i]?).map (casRound requests variant s)

def IsInitial (s : State Slot) : Prop :=
  s.i = 0 ∧ s.expectedValue = compareAddAt requests 0 ∧ s.issued = []

def Succeeded (s : State Slot) (index : ℕ) : Prop :=
  ∃ cas ∈ s.issued, cas.index = index ∧ cas.found = cas.expectedValue

instance (s : State Slot) (index : ℕ) : Decidable (Succeeded s index) :=
  inferInstanceAs (Decidable (∃ cas ∈ s.issued, _))

/-- What the slot of a request held when its compare-and-swaps were executed, the
latest of them first. -/
def foundAt (s : State Slot) (index : ℕ) : List UInt64 :=
  (s.issued.filter (·.index = index)).map IssuedCas.found

/-- For `iteratively_cas_async` and a request other than the first: if its compare
value is what the slot of the first request held in the end, its slot holds that
value, too.  Otherwise its slot held the compare value at its first
compare-and-swap, or holds at its second what the slot of the first request held. -/
def HoldsCompared (s : State Slot) : Event Slot → Prop
  | .interfere .. => True
  | .cas =>
    variant = .async → s.i ≠ 0 →
      ∀ req ∈ requests[s.i]?, ∀ replaced ∈ (foundAt s 0).head?,
        match foundAt s s.i with
        | [] => req.compareAdd = replaced → s.memory req.slot = replaced
        | earlier :: _ =>
          earlier = req.compareAdd ∨ s.memory req.slot = replaced

/-- The same in terms of the variables of the function. -/
def MeetsFirst (s : State Slot) : Event Slot → Prop
  | .interfere .. => True
  | .cas =>
    variant = .async → s.i ≠ 0 → s.swapBack 0 = s.expectedValue →
      Succeeded s s.i ∨ ∀ req ∈ requests[s.i]?, s.memory req.slot = s.expectedValue

end Step

section Rounds

variable {Slot : Type} [DecidableEq Slot] {requests : List (CasRequest Slot)} {variant : Variant}
  {s after : State Slot} {req : CasRequest Slot}

theorem succeeded_casRound_iff (index : ℕ) :
    Succeeded (casRound requests variant s req) index ↔
      s.i = index ∧ s.memory req.slot = s.expectedValue ∨ Succeeded s index :=
  List.exists_mem_cons_iff ..

def testedValue (variant : Variant) (s : State Slot) (req : CasRequest Slot) : UInt64 :=
  update s.swapBack s.i (s.memory req.slot) (testedIndex variant s.i)

theorem i_casRound :
    (casRound requests variant s req).i =
      if testedValue variant s req = s.expectedValue then s.i + 1 else s.i :=
  rfl

omit [DecidableEq Slot] in
theorem testedValue_eq (own : ¬(variant = .async ∧ s.i ≠ 0)) :
    testedValue variant s req = s.memory req.slot := by
  cases variant with
  | sync => exact update_self ..
  | async =>
    have first : s.i = 0 := not_not.mp fun later => own ⟨rfl, later⟩
    rw [testedValue, first]
    exact update_self ..

omit [DecidableEq Slot] in
theorem testedValue_async (later : s.i ≠ 0) : testedValue .async s req = s.swapBack 0 :=
  update_of_ne later.symm _ _

/-- The loop for a request ends with success if and only if its last round meets
the condition. -/
theorem succeeded_casRound_iff_meetsFirst (mem : requests[s.i]? = some req)
    (ended : testedValue variant s req = s.expectedValue) :
    Succeeded (casRound requests variant s req) s.i ↔ MeetsFirst requests variant s .cas := by
  rw [succeeded_casRound_iff, MeetsFirst, mem]
  simp only [mem_def, Option.some.injEq, forall_eq', true_and]
  by_cases later : variant = .async ∧ s.i ≠ 0
  · obtain ⟨rfl, later⟩ := later
    rw [testedValue_async later] at ended
    simp only [later, ended, ne_eq, not_false_eq_true, true_imp_iff]
    exact or_comm
  · rw [testedValue_eq later] at ended
    apply iff_of_true (.inl ended)
    intro async notFirst
    exact absurd ⟨async, notFirst⟩ later

omit [DecidableEq Slot] in
theorem meetsFirst_of_not_ended (goesOn : testedValue variant s req ≠ s.expectedValue) :
    MeetsFirst requests variant s .cas := by
  rintro rfl later same
  rw [testedValue_async later] at goesOn
  exact absurd same goesOn

def DoneSucceeded (s : State Slot) : Prop :=
  ∀ index < s.i, Succeeded s index

theorem doneSucceeded_casRound_iff (mem : requests[s.i]? = some req) :
    DoneSucceeded (casRound requests variant s req) ↔
      DoneSucceeded s ∧ MeetsFirst requests variant s .cas := by
  have kept : ∀ index < s.i, Succeeded (casRound requests variant s req) index ↔
      Succeeded s index := by
    intro index earlier
    rw [succeeded_casRound_iff, or_iff_right]
    rintro ⟨same, -⟩
    exact absurd same earlier.ne'
  by_cases ended : testedValue variant s req = s.expectedValue
  · rw [← succeeded_casRound_iff_meetsFirst mem ended]
    unfold DoneSucceeded
    rw [i_casRound, if_pos ended, Nat.forall_lt_succ_right, and_congr_left_iff]
    exact fun _ => forall₂_congr kept
  · rw [and_iff_left (meetsFirst_of_not_ended ended)]
    unfold DoneSucceeded
    rw [i_casRound, if_neg ended]
    exact forall₂_congr kept

theorem doneSucceeded_step_iff {event : Event Slot}
    (taken : step requests variant s event = some after) :
    DoneSucceeded after ↔ DoneSucceeded s ∧ MeetsFirst requests variant s event := by
  cases event with
  | interfere slot expectedValue swap =>
    obtain rfl := some.inj taken
    exact (and_iff_left trivial).symm
  | cas =>
    obtain ⟨_, mem, rfl⟩ := map_eq_some_iff.mp taken
    exact doneSucceeded_casRound_iff mem

omit [DecidableEq Slot] in
theorem doneSucceeded_of_isInitial (initial : IsInitial requests s) : DoneSucceeded s := by
  intro index bound
  rw [initial.1] at bound
  cases bound

theorem doneSucceeded_iff
    (reached : Reachable (step requests variant) (fun _ _ => True) (IsInitial requests) s) :
    DoneSucceeded s ↔
      Reachable (step requests variant) (MeetsFirst requests variant) (IsInitial requests) s := by
  constructor
  · intro done
    exact reached.restrict done fun _ _ _ later taken => (doneSucceeded_step_iff taken).mp later
  · intro restricted
    apply restricted.invariant
    · exact fun _ => doneSucceeded_of_isInitial
    · intro before event after done meets taken
      exact (doneSucceeded_step_iff taken).mpr ⟨done, meets⟩

omit [DecidableEq Slot] in
theorem meetsFirst_sync (event : Event Slot) : MeetsFirst requests .sync s event := by
  cases event with
  | interfere => trivial
  | cas =>
    intro async
    cases async

omit [DecidableEq Slot] in
theorem not_succeeded_of_foundAt {index : ℕ} (none : foundAt s index = []) :
    ¬ Succeeded s index := by
  rintro ⟨cas, mem, same, -⟩
  rw [foundAt, List.map_eq_nil_iff, List.filter_eq_nil_iff] at none
  exact none cas mem (decide_eq_true same)

theorem swapBack_casRound : (casRound requests variant s req).swapBack =
    update s.swapBack s.i (s.memory req.slot) :=
  rfl

theorem foundAt_casRound_self :
    foundAt (casRound requests variant s req) s.i = s.memory req.slot :: foundAt s s.i := by
  simp [foundAt, casRound]

theorem foundAt_casRound_of_ne {index : ℕ} (ne : s.i ≠ index) :
    foundAt (casRound requests variant s req) index = foundAt s index := by
  simp [foundAt, casRound, ne]

/-- The variables of `iteratively_cas_async` in terms of what its compare-and-swaps
have found.  A request other than the first is compared twice at most. -/
structure Tracks (requests : List (CasRequest Slot)) (s : State Slot) : Prop where
  later : ∀ index, s.i < index → foundAt s index = []
  replaced : s.i ≠ 0 → (foundAt s 0).head? = some (s.swapBack 0)
  compared : s.i ≠ 0 →
    foundAt s s.i = [] ∧ s.expectedValue = compareAddAt requests s.i ∨
      ∃ earlier, foundAt s s.i = [earlier] ∧ s.expectedValue = s.swapBack 0 ∧
        (Succeeded s s.i ↔ earlier = compareAddAt requests s.i)

omit [DecidableEq Slot] in
theorem tracks_of_isInitial (initial : IsInitial requests s) : Tracks requests s := by
  obtain ⟨first, -, none⟩ := initial
  refine ⟨?_, fun started => absurd first started, fun started => absurd first started⟩
  intro index _
  simp [foundAt, none]

theorem Tracks.casRound_of_ended (tracks : Tracks requests s)
    (ended : testedValue .async s req = s.expectedValue) :
    Tracks requests (casRound requests .async s req) := by
  have next : (casRound requests .async s req).i = s.i + 1 := by
    rw [i_casRound, if_pos ended]
  have fresh (index : ℕ) (past : s.i < index) :
      foundAt (casRound requests .async s req) index = [] := by
    rw [foundAt_casRound_of_ne past.ne, tracks.later index past]
  refine ⟨?_, fun _ => ?_, fun _ => .inl ⟨?_, ?_⟩⟩
  · rw [next]
    exact fun index past => fresh index (Nat.lt_of_succ_lt past)
  · by_cases first : s.i = 0
    · rw [← first, foundAt_casRound_self, swapBack_casRound, update_self]
      rfl
    · rw [foundAt_casRound_of_ne first, tracks.replaced first, swapBack_casRound,
        update_of_ne (Ne.symm first)]
  · rw [next]
    exact fresh _ (Nat.lt_succ_self _)
  · rw [next]
    exact if_pos ended

theorem Tracks.casRound_of_goesOn (tracks : Tracks requests s)
    (goesOn : testedValue .async s req ≠ s.expectedValue) :
    Tracks requests (casRound requests .async s req) := by
  have same : (casRound requests .async s req).i = s.i := by
    rw [i_casRound, if_neg goesOn]
  refine ⟨?_, ?_, ?_⟩
  · intro index past
    rw [same] at past
    rw [foundAt_casRound_of_ne past.ne, tracks.later index past]
  · rw [same]
    intro started
    rw [foundAt_casRound_of_ne started, tracks.replaced started, swapBack_casRound,
      update_of_ne started.symm]
  · rw [same]
    intro started
    rcases tracks.compared started with ⟨none, expected⟩ | ⟨earlier, -, expected, -⟩
    · refine .inr ⟨s.memory req.slot, ?_, ?_, ?_⟩
      · rw [foundAt_casRound_self, none]
      · exact if_neg goesOn
      · rw [succeeded_casRound_iff, ← expected]
        simp [not_succeeded_of_foundAt none]
    · rw [testedValue_async started, expected] at goesOn
      exact absurd rfl goesOn

theorem tracks_of_reachable {allowed : State Slot → Event Slot → Prop}
    (reached : Reachable (step requests .async) allowed (IsInitial requests) s) :
    Tracks requests s := by
  apply reached.invariant
  · exact fun _ => tracks_of_isInitial
  · intro before event after tracks _ taken
    cases event with
    | interfere slot expectedValue swap =>
      obtain rfl := some.inj taken
      exact ⟨tracks.later, tracks.replaced, tracks.compared⟩
    | cas =>
      obtain ⟨req, _, rfl⟩ := map_eq_some_iff.mp taken
      by_cases ended : testedValue .async before req = before.expectedValue
      · exact tracks.casRound_of_ended ended
      · exact tracks.casRound_of_goesOn ended

omit [DecidableEq Slot] in
theorem Tracks.meetsFirst_iff (tracks : Tracks requests s) (event : Event Slot) :
    MeetsFirst requests .async s event ↔ HoldsCompared requests .async s event := by
  cases event with
  | interfere => exact Iff.rfl
  | cas =>
    simp only [MeetsFirst, HoldsCompared, true_imp_iff]
    refine forall_congr' fun started => ?_
    cases mem : requests[s.i]? with
    | none => simp
    | some req =>
      have value : compareAddAt requests s.i = req.compareAdd := by
        simp [compareAddAt, mem]
      rcases tracks.compared started with ⟨none, expected⟩ | ⟨earlier, found, expected, done⟩
      · rw [none, expected, value, tracks.replaced started]
        simp only [not_succeeded_of_foundAt none, false_or, mem_def, Option.some.injEq, forall_eq']
        constructor
        · intro meets same
          rw [meets same.symm, same]
        · intro holds same
          rw [holds same.symm, same]
      · rw [found, expected, done, value, tracks.replaced started]
        simp only [true_imp_iff, mem_def, Option.some.injEq, forall_eq']

/-- When `iteratively_cas_sync` returns, all requests have succeeded.  When
`iteratively_cas_async` returns, they have if and only if the slots have held the
compared values. -/
theorem allSucceeded_iff
    (reached : Reachable (step requests variant) (fun _ _ => True) (IsInitial requests) s)
    (returned : s.i = requests.length) :
    (∀ index < requests.length, Succeeded s index) ↔
      variant = .sync ∨
        Reachable (step requests variant) (HoldsCompared requests variant) (IsInitial requests)
          s := by
  rw [← returned]
  apply (doneSucceeded_iff reached).trans
  cases variant with
  | sync =>
    refine iff_of_true ?_ (.inl rfl)
    exact reached.weaken (fun _ initial => initial) fun _ event _ => meetsFirst_sync event
  | async =>
    rw [or_iff_right nofun]
    constructor
    · intro restricted
      exact restricted.mono (fun _ => tracks_of_reachable) (fun _ initial => initial)
        fun _ event tracks => (tracks.meetsFirst_iff event).mp
    · intro restricted
      exact restricted.mono (fun _ => tracks_of_reachable) (fun _ initial => initial)
        fun _ event tracks => (tracks.meetsFirst_iff event).mpr

end Rounds

def twoRequests : List (CasRequest (Fin 2)) :=
  [⟨0, 1, 2⟩, ⟨1, 1, 2⟩]

def startWith (second : UInt64) : State (Fin 2) :=
  ⟨fun slot => if slot = 0 then 1 else second, 0, 1, fun _ => 0, []⟩

theorem isInitial_startWith (second : UInt64) : IsInitial twoRequests (startWith second) :=
  ⟨rfl, rfl, rfl⟩

/-- Another client has changed both slots to the same value. -/
theorem allSucceeded_iff_twoRequests :
    ∃ s, Reachable (step twoRequests .async) (fun _ _ => True) (IsInitial twoRequests) s ∧
      s.i = twoRequests.length ∧ (∀ index < twoRequests.length, Succeeded s index) ∧
      Reachable (step twoRequests .async) (HoldsCompared twoRequests .async)
        (IsInitial twoRequests) s := by
  obtain ⟨s, reached, returned, succeeded⟩ := Reachable.exists_of_run
    (step twoRequests .async) (fun _ _ => True)
    [.interfere 0 1 5, .cas, .cas, .interfere 1 1 5, .cas, .cas]
    (fun s : State (Fin 2) => s.i = twoRequests.length ∧
      ∀ index < twoRequests.length, Succeeded s index)
    (isInitial_startWith 1) (by decide +kernel)
  refine ⟨s, reached, returned, succeeded, ?_⟩
  obtain sync | restricted := (allSucceeded_iff reached returned).mp succeeded
  · cases sync
  · exact restricted

/-- Another client has changed the second slot.  The function does not notice
that its compare-and-swap has failed. -/
theorem not_allSucceeded_interfered :
    ∃ s, Reachable (step twoRequests .async) (fun _ _ => True) (IsInitial twoRequests) s ∧
      s.i = twoRequests.length ∧ s.memory 1 = 7 ∧
      ¬ ∀ index < twoRequests.length, Succeeded s index := by
  obtain ⟨s, reached, returned, kept, failed⟩ := Reachable.exists_of_run
    (step twoRequests .async) (fun _ _ => True) [.cas, .interfere 1 1 7, .cas]
    (fun s : State (Fin 2) => s.i = twoRequests.length ∧ s.memory 1 = 7 ∧
      ¬ ∀ index < twoRequests.length, Succeeded s index)
    (isInitial_startWith 1) (by decide +kernel)
  exact ⟨s, reached, returned, kept, failed⟩

end FuseeFs.Replication.CasLists
