import FuseeFs.Engine.InodeIds

/-!
# How many ids one engine can return

After `InitThread(0)` the threads of an engine draw their ids from one 64-bit
counter.  A call that finds the first group used up increments the counter
twice, so that it comes round long before 2 ^ 64 calls have been made.
-/

namespace FuseeFs.Engine.InodeIds

open Option Function Library

/-- The system together with the number of accesses that the calls have made to
the shared variables. -/
structure Tracked where
  state : System
  accesses : ℕ

namespace Tracked

def step (tracked : Tracked) (event : Event) : Option Tracked :=
  (tracked.state.step event).map fun after =>
    match event with
    | .act _ => ⟨after, tracked.accesses + 1⟩
    | _ => ⟨after, tracked.accesses⟩

/-- `InitThread(0)` of the engine has returned, and no id has been asked for. -/
def Initialised (engine : ℕ) (tracked : Tracked) : Prop :=
  tracked.state.engines engine = EngineVars.start.initThread ∧
    (∀ name, tracked.state.calls name = none) ∧ tracked.state.begun = 0 ∧ tracked.accesses = 0

def WithinEngine (engine : ℕ) (_ : Tracked) : Event → Prop
  | .initThread _ => False
  | .call caller => caller = engine
  | .act _ => True

instance (engine : ℕ) (tracked : Tracked) : (event : Event) →
    Decidable (WithinEngine engine tracked event)
  | .initThread _ => inferInstanceAs (Decidable False)
  | .call caller => inferInstanceAs (Decidable (caller = engine))
  | .act _ => inferInstanceAs (Decidable True)

end Tracked

def System.UniqueWithin (state : System) (engine : ℕ) : Prop :=
  (∀ {name other : ℕ} {id : UInt64},
    state.Returned name engine id → state.Returned other engine id → name = other) ∧
    ∀ {name : ℕ} {id : UInt64}, state.Returned name engine id → id ≠ kRootInodeId

theorem Phase.increments_le (phase : Phase) : phase.increments ≤ 2 := by
  cases phase with
  | loadGroup number | returned number =>
    rw [Phase.increments]
    split <;> omega
  | _ => simp [Phase.increments]

namespace System

variable {state : System}

def increments (state : System) : ℕ :=
  ∑ name ∈ Finset.range state.begun, (state.calls name).elim 0 (·.phase.increments)

theorem increments_le (state : System) : state.increments ≤ 2 * state.begun := by
  have each : ∀ name ∈ Finset.range state.begun,
      (state.calls name).elim 0 (·.phase.increments) ≤ 2 := by
    intro name _
    cases state.calls name with
    | none => exact Nat.zero_le 2
    | some call => exact call.phase.increments_le
  calc state.increments ≤ (Finset.range state.begun).card • 2 :=
        Finset.sum_le_card_nsmul _ _ 2 each
    _ = 2 * state.begun := by rw [Finset.card_range, smul_eq_mul, Nat.mul_comm]

theorem increments_call (engine : ℕ) :
    increments { state with
      calls := update state.calls state.begun (some ⟨engine, .fetchAdd⟩)
      begun := state.begun + 1 } = state.increments := by
  rw [increments, Finset.sum_range_succ, increments]
  simp only [update_self, elim_some, Phase.increments, Nat.add_zero]
  apply Finset.sum_congr rfl
  intro name earlier
  rw [update_of_ne (Finset.mem_range.mp earlier).ne]

theorem increments_act {central : Central} {engines : ℕ → EngineVars} {name engine : ℕ}
    {call : Call} {phase : Phase} (running : state.calls name = some call)
    (named : name < state.begun) :
    increments ⟨central, engines, update state.calls name (some ⟨engine, phase⟩),
        state.begun⟩ + call.phase.increments = state.increments + phase.increments := by
  have mem : name ∈ Finset.range state.begun := Finset.mem_range.mpr named
  rw [increments, increments, ← Finset.sum_erase_add _ _ mem, ← Finset.sum_erase_add _ _ mem]
  have others : ∀ other ∈ (Finset.range state.begun).erase name,
      (update state.calls name (some ⟨engine, phase⟩) other).elim 0
        (·.phase.increments) = (state.calls other).elim 0 (·.phase.increments) := by
    intro other erased
    rw [update_of_ne (Finset.ne_of_mem_erase erased)]
  simp only [Finset.sum_congr rfl others, update_self, running, elim_some]
  omega

/-- As long as the counter has not come round, its value tells how often it has
been incremented. -/
structure Totalled (engine : ℕ) (state : System) : Prop where
  group_zero : (state.engines engine).inodeIdGroup = 0
  counter_eq : (state.engines engine).inodeIdSeqInGroup = .ofNat (1 + state.increments)
  named : ∀ {name call}, state.calls name = some call → name < state.begun
  inEngine : ∀ {name call}, state.calls name = some call → call.engine = engine
  ready : ∀ {name call}, state.calls name = some call → call.phase.Ready (1 + state.increments)
  apart : DrawnApart state.calls

variable {engine : ℕ}

theorem Totalled.call (totalled : state.Totalled engine) :
    Totalled engine { state with
      calls := update state.calls state.begun (some ⟨engine, .fetchAdd⟩)
      begun := state.begun + 1 } := by
  constructor
  · exact totalled.group_zero
  · rw [increments_call]
    exact totalled.counter_eq
  · intro name call running
    rcases update_eq_some running with ⟨rfl, _⟩ | ⟨_, before⟩
    · exact Nat.lt_succ_self _
    · exact Nat.lt_succ_of_lt (totalled.named before)
  · intro name call running
    rcases update_eq_some running with ⟨_, rfl⟩ | ⟨_, before⟩
    · rfl
    · exact totalled.inEngine before
  · intro name call running
    rw [increments_call]
    rcases update_eq_some running with ⟨_, rfl⟩ | ⟨_, before⟩
    · trivial
    · exact totalled.ready before
  · apply DrawnApart.update totalled.apart
    intro other otherCall number _ _ drawn
    cases drawn

theorem increments_advanced {central : Central} {name later : ℕ} {vars : EngineVars}
    {phase before : Phase} (running : state.calls name = some ⟨engine, before⟩)
    (named : name < state.begun)
    (advanced : Advanced (1 + state.increments) later (state.engines engine) before vars phase) :
    1 + increments { state with
      central := central
      engines := update state.engines engine vars
      calls := update state.calls name (some ⟨engine, phase⟩) } = later := by
  have total := @increments_act _ central (update state.engines engine vars) _ engine _
    phase running named
  have same := advanced.increments_eq
  simp only at total same ⊢
  omega

theorem Totalled.act (totalled : state.Totalled engine) {central : Central} {name later : ℕ}
    {vars : EngineVars} {phase before : Phase} (running : state.calls name = some ⟨engine, before⟩)
    (advanced : Advanced (1 + state.increments) later (state.engines engine) before vars phase)
    (room : later ≤ 2 ^ 64) :
    Totalled engine { state with
      central := central
      engines := update state.engines engine vars
      calls := update state.calls name (some ⟨engine, phase⟩) } := by
  have later_eq := @increments_advanced _ _ central _ _ _ _ _ running (totalled.named running)
    advanced
  constructor
  · simpa using advanced.group_zero
  · rw [later_eq]
    simpa using advanced.counter_eq
  · intro other otherCall otherRunning
    rcases update_eq_some otherRunning with ⟨rfl, _⟩ | ⟨_, known⟩
    · exact totalled.named running
    · exact totalled.named known
  · intro other otherCall otherRunning
    rcases update_eq_some otherRunning with ⟨_, rfl⟩ | ⟨_, known⟩
    · rfl
    · exact totalled.inEngine known
  · intro other otherCall otherRunning
    rw [later_eq]
    rcases update_eq_some otherRunning with ⟨_, rfl⟩ | ⟨_, known⟩
    · exact advanced.ready room
    · exact (totalled.ready known).mono advanced.le_later
  · apply DrawnApart.update totalled.apart
    intro other otherCall number ne otherRunning drawn otherDrawn
    rcases advanced.drawn number drawn with earlier | ⟨rfl, rfl⟩
    · exact ne (totalled.apart otherRunning running otherDrawn earlier)
    · -- the counter was ahead of what the other call has drawn
      have ahead := (Phase.ready_of_drawn (totalled.ready otherRunning) otherDrawn).2
      rw [UInt64.toNat_ofNat_of_lt' room] at ahead
      exact lt_irrefl _ ahead

end System

namespace Tracked

variable {engine : ℕ} {tracked after : Tracked}

/-- Either both bounds are passed, or the counter has not come round. -/
def WithinBounds (engine : ℕ) (tracked : Tracked) : Prop :=
  (2 ^ 63 ≤ tracked.state.begun ∧ 2 ^ 64 ≤ tracked.accesses) ∨
    (tracked.state.increments ≤ tracked.accesses ∧ tracked.state.Totalled engine)

theorem withinBounds_of_initialised (initialised : Initialised engine tracked) :
    tracked.WithinBounds engine := by
  obtain ⟨vars, calls, begun, _⟩ := initialised
  have none : tracked.state.increments = 0 := by simp [System.increments, begun]
  refine .inr ⟨by simp [none], ?_⟩
  constructor
  · simp [vars, EngineVars.start, EngineVars.initThread]
  · simp [vars, none, EngineVars.start, EngineVars.initThread]
  · simp [calls]
  · simp [calls]
  · simp [calls]
  · simp [System.DrawnApart, calls]

theorem WithinBounds.step (bounds : tracked.WithinBounds engine) {event : Event}
    (within : WithinEngine engine tracked event) (taken : tracked.step event = some after) :
    after.WithinBounds engine := by
  obtain ⟨state, accesses⟩ := tracked
  obtain ⟨_, stepped, rfl⟩ := map_eq_some_iff.mp taken
  cases event with
  | initThread => exact within.elim
  | call caller =>
    obtain rfl : caller = engine := within
    obtain rfl := some.inj stepped
    rcases bounds with ⟨calls, steps⟩ | ⟨counted, totalled⟩
    · exact .inl ⟨Nat.le_succ_of_le calls, steps⟩
    · refine .inr ⟨?_, totalled.call⟩
      rwa [System.increments_call]
  | act name =>
    obtain ⟨⟨caller, _⟩, running, moved⟩ := bind_eq_some_iff.mp stepped
    obtain ⟨⟨central, vars, phase⟩, acted, result⟩ := bind_eq_some_iff.mp moved
    obtain rfl := some.inj result
    rcases bounds with ⟨calls, steps⟩ | ⟨counted, totalled⟩
    · exact .inl ⟨calls, Nat.le_succ_of_le steps⟩
    · obtain rfl : caller = engine := totalled.inEngine running
      obtain ⟨later, advanced⟩ := advanced_of_getNewInodeId totalled.group_zero (by omega)
        totalled.counter_eq (totalled.ready running) acted
      have later_eq := @System.increments_advanced _ _ central _ _ _ _ _ running
        (totalled.named running) advanced
      have later_le : later ≤ 1 + state.increments + 1 := advanced.later_le
      have steps : state.increments ≤ accesses := counted
      have calls := System.increments_le { state with
        central := central
        engines := update state.engines caller vars
        calls := update state.calls name (some ⟨caller, phase⟩) }
      by_cases passed : 2 ^ 63 ≤ state.begun ∧ 2 ^ 64 ≤ accesses + 1
      · exact .inl passed
      · simp only at later_eq calls
        refine .inr ⟨?_, totalled.act running advanced (by omega)⟩
        simp only
        omega

/-- Fewer than 2 ^ 63 calls, or fewer than 2 ^ 64 accesses to the shared
variables, return different ids, and none that of the root. -/
theorem uniqueWithin_of_bounded
    (reached : Reachable step (WithinEngine engine) (Initialised engine) tracked)
    (bounded : tracked.state.begun < 2 ^ 63 ∨ tracked.accesses < 2 ^ 64) :
    tracked.state.UniqueWithin engine := by
  have bounds : tracked.WithinBounds engine := by
    apply reached.invariant
    · intro tracked initialised
      exact withinBounds_of_initialised initialised
    · intro tracked event after bounds within taken
      exact bounds.step within taken
  rcases bounds with ⟨calls, steps⟩ | ⟨_, totalled⟩
  · omega
  · constructor
    · intro name other id returned otherReturned
      exact totalled.apart returned otherReturned rfl rfl
    · rintro _ _ returned rfl
      exact absurd (totalled.ready returned).1 (by decide)

def start : Tracked where
  state := { System.start ⟨0⟩ with engines := fun _ => EngineVars.start.initThread }
  accesses := 0

theorem initialised_start (engine : ℕ) : Initialised engine start :=
  ⟨rfl, fun _ => rfl, rfl, rfl⟩

/-- Two threads whose calls overlap. -/
theorem uniqueWithin_of_bounded_twoThreads :
    ∃ tracked, Reachable step (WithinEngine 4) (Initialised 4) tracked ∧
      (tracked.state.begun < 2 ^ 63 ∧ tracked.state.Returned 0 4 1 ∧
        tracked.state.Returned 1 4 2) ∧ tracked.state.UniqueWithin 4 := by
  obtain ⟨tracked, reached, returned⟩ := Reachable.exists_of_run step (WithinEngine 4)
    [.call 4, .call 4, .act 0, .act 1, .act 1, .act 0]
    (fun tracked => tracked.state.begun < 2 ^ 63 ∧ tracked.state.Returned 0 4 1 ∧
      tracked.state.Returned 1 4 2) (initialised_start 4) (by decide)
  exact ⟨tracked, reached, returned, uniqueWithin_of_bounded reached (.inl returned.1)⟩

/-- So many calls have been made, the mutex is free, and the counter is here. -/
@[mk_iff]
structure Settled (engine calls : ℕ) (counter : UInt64) (tracked : Tracked) : Prop where
  vars_eq : tracked.state.engines engine = ⟨0, counter, none, true⟩
  begun_eq : tracked.state.begun = calls

variable {calls : ℕ} {counter : UInt64}

theorem Settled.call (settled : Settled engine calls counter tracked)
    (inGroup : counter < kInodeIdGroupSize) :
    ∃ after, run step (WithinEngine engine) tracked [.call engine, .act calls, .act calls] =
      some after ∧ Settled engine (calls + 1) (counter + 1) after ∧
      after.state.Returned calls engine counter := by
  obtain ⟨vars_eq, rfl⟩ := settled
  simp [run, step, System.step, WithinEngine, getNewInodeId, whileExhausted, vars_eq,
    UInt64.not_le.mpr inGroup, System.Returned, settled_iff]

/-- A call that finds the first group used up increments the counter twice. -/
theorem Settled.call_exhausted (settled : Settled engine calls counter tracked)
    (exhausted : kInodeIdGroupSize ≤ counter) (stillExhausted : kInodeIdGroupSize ≤ counter + 1) :
    ∃ after, run step (WithinEngine engine) tracked [.call engine, .act calls, .act calls,
      .act calls, .act calls] = some after ∧ Settled engine (calls + 1) (counter + 2) after := by
  obtain ⟨vars_eq, rfl⟩ := settled
  simp [run, step, System.step, WithinEngine, getNewInodeId, whileExhausted, vars_eq, exhausted,
    stillExhausted, settled_iff, UInt64.add_assoc]

theorem toNat_kInodeIdGroupSize : kInodeIdGroupSize.toNat = 2 ^ 20 := by
  decide

theorem exists_settled (engine calls : ℕ) (inGroup : calls < 2 ^ 20) :
    ∃ tracked, Reachable step (WithinEngine engine) (Initialised engine) tracked ∧
      Settled engine calls (.ofNat (1 + calls)) tracked := by
  induction calls with
  | zero => exact ⟨start, .start (initialised_start engine), rfl, rfl⟩
  | succ calls ih =>
    obtain ⟨_, reached, settled⟩ := ih (by omega)
    have small : 1 + calls < 2 ^ 64 := by omega
    obtain ⟨after, executed, settled, -⟩ := settled.call (by
      rw [UInt64.lt_iff_toNat_lt, UInt64.toNat_ofNat_of_lt' small, toNat_kInodeIdGroupSize]
      omega)
    refine ⟨after, reached.of_run executed, ?_⟩
    rwa [← Nat.add_assoc, UInt64.ofNat_add (1 + calls)]

theorem exists_settled_exhausted (engine more : ℕ) (room : 2 ^ 20 + 2 * more ≤ 2 ^ 64) :
    ∃ tracked, Reachable step (WithinEngine engine) (Initialised engine) tracked ∧
      Settled engine (2 ^ 20 - 1 + more) (.ofNat (2 ^ 20 + 2 * more)) tracked := by
  induction more with
  | zero => exact exists_settled engine (2 ^ 20 - 1) (by omega)
  | succ more ih =>
    obtain ⟨_, reached, settled⟩ := ih (by omega)
    have exhausted : ∀ {number}, 2 ^ 20 ≤ number → number < 2 ^ 64 →
        kInodeIdGroupSize ≤ UInt64.ofNat number := by
      intro number le lt
      rwa [UInt64.le_iff_toNat_le, UInt64.toNat_ofNat_of_lt' lt, toNat_kInodeIdGroupSize]
    obtain ⟨after, executed, settled⟩ := settled.call_exhausted
      (exhausted (by omega) (by omega)) (by
        have next := @exhausted (2 ^ 20 + 2 * more + 1) (by omega) (by omega)
        rwa [UInt64.ofNat_add] at next)
    refine ⟨after, reached.of_run executed, ?_⟩
    rwa [Nat.mul_succ, ← Nat.add_assoc, ← Nat.add_assoc, UInt64.ofNat_add (2 ^ 20 + 2 * more)]

/-- After 2 ^ 63 + 2 ^ 19 calls the counter has come round, and the last of them
returns the id of the root. -/
theorem root_returned_before_counter_bound :
    ¬ ∀ engine tracked, Reachable step (WithinEngine engine) (Initialised engine) tracked →
      tracked.state.begun < 2 ^ 64 → tracked.state.UniqueWithin engine := by
  intro unique
  obtain ⟨_, reached, settled⟩ := exists_settled_exhausted 0 (2 ^ 63 - 2 ^ 19) (by omega)
  have round : UInt64.ofNat (2 ^ 20 + 2 * (2 ^ 63 - 2 ^ 19)) = 0 := by decide
  rw [round] at settled
  obtain ⟨after, executed, settled, returned⟩ := settled.call (by decide)
  have bounded : after.state.begun < 2 ^ 64 := by
    rw [settled.begun_eq]
    omega
  exact (unique 0 after (reached.of_run executed) bounded).2 returned rfl

end Tracked

end FuseeFs.Engine.InodeIds
