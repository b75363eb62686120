import FuseeFs.Engine.Meta
import FuseeFs.Library.Reachability

/-!
# New inode ids

`GetNewInodeId` draws numbers from a counter that all threads of an engine
share and combines them with the number of a group.  A new group comes from the
Central server when a group is used up.  Every access to an atomic variable and
to the mutex is a step of its own, and the calls of all engines are interleaved.
-/

namespace FuseeFs.Engine.InodeIds

open Option Function Library

def kInodeIdGroupSize : UInt64 := 1024 * 1024

/-! ## The Central server -/

inductive CentralErpcType
  | lock
  | unlock
  | getInodeIdGroup
deriving DecidableEq

/-- What the constructor of `Central` registers with its nexus.  A request of
another type is never answered. -/
def registeredReqFuncs : List CentralErpcType := [.lock, .unlock]

structure Central where
  inodeIdGroupSeq : UInt64

def getInodeIdGroupHandler (central : Central) : Central × UInt64 :=
  ({ inodeIdGroupSeq := central.inodeIdGroupSeq + 1 }, central.inodeIdGroupSeq)

/-! ## Calls -/

inductive Phase
  | fetchAdd
  /-- The group is used up. -/
  | lock
  /-- The mutex is held: the double check. -/
  | doubleCheck
  | awaitGroup
  | storeGroup (group : UInt64)
  | storeSeq
  | fetchAddInGroup
  | loadGroup (newInodeSeq : UInt64)
  | returned (id : UInt64)
deriving DecidableEq

/-- The shared variables of an engine. `rootCreated` records that
`InitThread(0)` has set the counter. -/
structure EngineVars where
  inodeIdGroup : UInt64
  inodeIdSeqInGroup : UInt64
  mtx : Option ℕ
  rootCreated : Bool

def EngineVars.start : EngineVars where
  inodeIdGroup := 0
  inodeIdSeqInGroup := 0
  mtx := none
  rootCreated := false

/-- The end of `InitThread(0)`, when the root inode has been inserted. -/
def EngineVars.initThread (vars : EngineVars) : EngineVars :=
  { vars with inodeIdSeqInGroup := 1, rootCreated := true }

/-- Where the loop of `GetNewInodeId` goes on with a number from the counter. -/
def whileExhausted (newInodeSeq : UInt64) : Phase :=
  if newInodeSeq ≥ kInodeIdGroupSize then .lock else .loadGroup newInodeSeq

def getNewInodeId (central : Central) (vars : EngineVars) (name : ℕ) :
    Phase → Option (Central × EngineVars × Phase)
  | .fetchAdd =>
    some (central, { vars with inodeIdSeqInGroup := vars.inodeIdSeqInGroup + 1 },
      whileExhausted vars.inodeIdSeqInGroup)
  | .lock =>
    if vars.mtx.isNone then some (central, { vars with mtx := some name }, .doubleCheck) else none
  | .doubleCheck =>
    if vars.inodeIdSeqInGroup ≥ kInodeIdGroupSize then
      -- the loop is left, with the number of a used-up group
      some (central, { vars with inodeIdSeqInGroup := vars.inodeIdSeqInGroup + 1, mtx := none },
        .loadGroup vars.inodeIdSeqInGroup)
    else
      some (central, { vars with inodeIdSeqInGroup := vars.inodeIdSeqInGroup + 1 }, .awaitGroup)
  | .awaitGroup =>
    if .getInodeIdGroup ∈ registeredReqFuncs then
      let (central, group) := getInodeIdGroupHandler central
      some (central, vars, .storeGroup group)
    else none
  | .storeGroup group => some (central, { vars with inodeIdGroup := group }, .storeSeq)
  | .storeSeq => some (central, { vars with inodeIdSeqInGroup := 0 }, .fetchAddInGroup)
  | .fetchAddInGroup =>
    some (central, { vars with inodeIdSeqInGroup := vars.inodeIdSeqInGroup + 1, mtx := none },
      whileExhausted vars.inodeIdSeqInGroup)
  | .loadGroup newInodeSeq =>
    some (central, vars, .returned (vars.inodeIdGroup * kInodeIdGroupSize + newInodeSeq))
  | .returned _ => none

structure Call where
  engine : ℕ
  phase : Phase
deriving DecidableEq

/-! ## The system -/

/-- The Central server and any number of engines.  Calls are numbered in the
order in which they begin. -/
structure System where
  central : Central
  engines : ℕ → EngineVars
  calls : ℕ → Option Call
  begun : ℕ

inductive Event
  | initThread (engine : ℕ)
  | call (engine : ℕ)
  | act (name : ℕ)

namespace System

def step (s : System) : Event → Option System
  | .initThread engine =>
    some { s with
      engines := update s.engines engine (s.engines engine).initThread }
  | .call engine =>
    some { s with
      calls := update s.calls s.begun (some ⟨engine, .fetchAdd⟩)
      begun := s.begun + 1 }
  | .act name => do
    let call ← s.calls name
    let (central, vars, phase) ←
      getNewInodeId s.central (s.engines call.engine) name call.phase
    some { s with
      central := central
      engines := update s.engines call.engine vars
      calls := update s.calls name (some ⟨call.engine, phase⟩) }

/-- All engines are new.  The counter of the Central server is not initialised. -/
def IsInitial (s : System) : Prop :=
  (∀ engine, s.engines engine = .start) ∧ (∀ name, s.calls name = none) ∧ s.begun = 0

def start (central : Central) : System where
  central := central
  engines := fun _ => .start
  calls := fun _ => none
  begun := 0

theorem isInitial_start (central : Central) : IsInitial (start central) :=
  ⟨fun _ => rfl, fun _ => rfl, rfl⟩

def Returned (s : System) (name engine : ℕ) (id : UInt64) : Prop :=
  s.calls name = some ⟨engine, .returned id⟩

instance (s : System) (name engine : ℕ) (id : UInt64) :
    Decidable (s.Returned name engine id) :=
  inferInstanceAs (Decidable (s.calls name = some ⟨engine, .returned id⟩))

def UniqueIds (s : System) : Prop :=
  (∀ {name other engine otherEngine : ℕ} {id otherId : UInt64},
    s.Returned name engine id → s.Returned other otherEngine otherId →
      engine ≠ otherEngine → id ≠ otherId) ∧
    ∀ {name engine : ℕ} {id : UInt64}, s.Returned name engine id → id ≠ kRootInodeId

/-- Ids are drawn in one engine only, after its `InitThread(0)`, which is not
called again, and the counter does not overflow. -/
def OneEngine (s : System) : Event → Prop
  | .initThread engine => ∀ name < s.begun, ∀ call ∈ s.calls name, call.engine ≠ engine
  | .call engine =>
    (s.engines engine).rootCreated ∧ ∀ name < s.begun, ∀ call ∈ s.calls name, call.engine = engine
  | .act name =>
    ∀ call ∈ s.calls name, (s.engines call.engine).inodeIdSeqInGroup ≠ 0xFFFFFFFFFFFFFFFF

instance (s : System) : (event : Event) → Decidable (s.OneEngine event)
  | .initThread engine =>
    inferInstanceAs (Decidable (∀ name < s.begun, ∀ call ∈ s.calls name, call.engine ≠ engine))
  | .call engine =>
    inferInstanceAs (Decidable ((s.engines engine).rootCreated ∧
      ∀ name < s.begun, ∀ call ∈ s.calls name, call.engine = engine))
  | .act name =>
    inferInstanceAs (Decidable (∀ call ∈ s.calls name,
      (s.engines call.engine).inodeIdSeqInGroup ≠ 0xFFFFFFFFFFFFFFFF))

end System

/-! ## The numbers that calls have drawn -/

def Phase.drawn : Phase → Option UInt64
  | .loadGroup newInodeSeq => some newInodeSeq
  | .returned id => some id
  | _ => none

def Phase.Ready (counter : ℕ) : Phase → Prop
  | .fetchAdd => True
  | .lock | .doubleCheck => kInodeIdGroupSize.toNat ≤ counter
  | .loadGroup number | .returned number => 0 < number.toNat ∧ number.toNat < counter
  | _ => False

variable {phase : Phase} {counter : ℕ}

theorem Phase.Ready.mono {later : ℕ} (ready : phase.Ready counter) (le : counter ≤ later) :
    phase.Ready later := by
  cases phase with
  | lock | doubleCheck => exact Nat.le_trans ready le
  | loadGroup number | returned number => exact ⟨ready.1, Nat.lt_of_lt_of_le ready.2 le⟩
  | _ => exact ready

variable {number : UInt64}

theorem Phase.ready_of_drawn (ready : phase.Ready counter) (drawn : phase.drawn = some number) :
    0 < number.toNat ∧ number.toNat < counter := by
  cases phase with
  | loadGroup newInodeSeq => exact some.inj drawn ▸ ready
  | returned id => exact some.inj drawn ▸ ready
  | _ => cases drawn

theorem toNat_succ (room : number ≠ 0xFFFFFFFFFFFFFFFF) :
    (number + 1).toNat = number.toNat + 1 := by
  have differs : number.toNat ≠ (0xFFFFFFFFFFFFFFFF : UInt64).toNat :=
    fun same => room (UInt64.toNat_inj.mp same)
  have bound := number.toNat_lt
  have max : (0xFFFFFFFFFFFFFFFF : UInt64).toNat = 2 ^ 64 - 1 := by decide
  rw [max] at differs
  rw [UInt64.toNat_add, UInt64.toNat_one]
  omega

theorem ready_whileExhausted (positive : 0 < number.toNat) (lt : number.toNat < counter) :
    (whileExhausted number).Ready counter := by
  rw [whileExhausted]
  split
  · rename_i exhausted
    exact Nat.le_trans (UInt64.le_iff_toNat_le.mp exhausted) lt.le
  · exact ⟨positive, lt⟩

theorem drawn_whileExhausted {drawn : UInt64} (some_eq : (whileExhausted number).drawn = some drawn)
    : drawn = number := by
  rw [whileExhausted] at some_eq
  split at some_eq
  · cases some_eq
  · exact (some.inj some_eq).symm

def Phase.increments : Phase → ℕ
  | .fetchAdd => 0
  | .lock | .doubleCheck => 1
  | .loadGroup number | .returned number => if number < kInodeIdGroupSize then 1 else 2
  | .awaitGroup | .storeGroup _ | .storeSeq | .fetchAddInGroup => 2

theorem increments_whileExhausted (number : UInt64) : (whileExhausted number).increments = 1 := by
  rw [whileExhausted]
  split
  · rfl
  · rename_i inGroup
    exact if_pos (UInt64.not_le.mp inGroup)

/-- What a step does in an engine that is still in its first group and whose
counter has been incremented to `count`, overflows included: the counter is now
at `later`, and as long as it has not overflowed no other group is asked for. -/
structure Advanced (count later : ℕ) (vars : EngineVars) (phase : Phase) (vars' : EngineVars)
    (phase' : Phase) : Prop where
  group_zero : vars'.inodeIdGroup = 0
  rootCreated_eq : vars'.rootCreated = vars.rootCreated
  counter_eq : vars'.inodeIdSeqInGroup = .ofNat later
  increments_eq : later + phase.increments = count + phase'.increments
  le_later : count ≤ later
  later_le : later ≤ count + 1
  ready : later ≤ 2 ^ 64 → phase'.Ready later
  drawn : ∀ number, phase'.drawn = some number →
    phase.drawn = some number ∨ (number = .ofNat count ∧ later = count + 1)

variable {central : Central} {vars : EngineVars} {name : ℕ}

theorem advanced_of_getNewInodeId {central' : Central} {vars' : EngineVars} {count : ℕ}
    {phase' : Phase} (group : vars.inodeIdGroup = 0) (positive : 0 < count)
    (counter : vars.inodeIdSeqInGroup = .ofNat count) (ready : phase.Ready count)
    (taken : getNewInodeId central vars name phase = some (central', vars', phase')) :
    ∃ later, Advanced count later vars phase vars' phase' := by
  have next : vars.inodeIdSeqInGroup + 1 = .ofNat (count + 1) := by
    rw [counter, UInt64.ofNat_add]
    rfl
  have value : count + 1 ≤ 2 ^ 64 → vars.inodeIdSeqInGroup.toNat = count := by
    intro room
    rw [counter, UInt64.toNat_ofNat_of_lt' room]
  cases phase with
  | fetchAdd =>
    obtain ⟨rfl, rfl, rfl⟩ : central = central' ∧ _ = vars' ∧ _ = phase' := by
      simpa [getNewInodeId] using taken
    refine ⟨count + 1, group, rfl, next, ?_, Nat.le_succ _, le_rfl, ?_, ?_⟩
    · rw [increments_whileExhausted, Phase.increments]
    · intro room
      apply ready_whileExhausted <;> rw [value room]
      · exact positive
      · exact Nat.lt_succ_self count
    · intro number some_eq
      exact .inr ⟨(drawn_whileExhausted some_eq).trans counter, rfl⟩
  | lock =>
    simp only [getNewInodeId] at taken
    split at taken
    · obtain ⟨rfl, rfl, rfl⟩ : central = central' ∧ _ = vars' ∧ _ = phase' := by
        simpa using taken
      exact ⟨count, group, rfl, counter, rfl, le_rfl, Nat.le_succ _, fun _ => ready,
        by simp [Phase.drawn]⟩
    · cases taken
  | doubleCheck =>
    by_cases exhausted : vars.inodeIdSeqInGroup ≥ kInodeIdGroupSize
    · obtain ⟨rfl, rfl, rfl⟩ : central = central' ∧ _ = vars' ∧ _ = phase' := by
        simpa [getNewInodeId, exhausted] using taken
      refine ⟨count + 1, group, rfl, next, ?_, Nat.le_succ _, le_rfl, ?_, ?_⟩
      · simp [Phase.increments, UInt64.not_lt.mpr exhausted]
      · intro room
        simp only [Phase.Ready, value room]
        exact ⟨positive, Nat.lt_succ_self count⟩
      · intro number some_eq
        exact .inr ⟨(some.inj some_eq).symm.trans counter, rfl⟩
    · obtain ⟨rfl, rfl, rfl⟩ : central = central' ∧ _ = vars' ∧ _ = phase' := by
        simpa [getNewInodeId, exhausted] using taken
      refine ⟨count + 1, group, rfl, next, rfl, Nat.le_succ _, le_rfl, ?_, by simp [Phase.drawn]⟩
      -- the counter is below the size of a group only when it has overflowed
      intro room
      refine absurd (UInt64.le_iff_toNat_le.mpr ?_) exhausted
      rw [value room]
      exact ready
  | loadGroup newInodeSeq =>
    obtain ⟨rfl, rfl, rfl⟩ : central = central' ∧ _ = vars' ∧ _ = phase' := by
      simpa [getNewInodeId] using taken
    have id_eq : vars.inodeIdGroup * kInodeIdGroupSize + newInodeSeq = newInodeSeq := by
      rw [group, UInt64.zero_mul, UInt64.zero_add]
    rw [id_eq]
    exact ⟨count, group, rfl, counter, rfl, le_rfl, Nat.le_succ _, fun _ => ready,
      fun number some_eq => .inl some_eq⟩
  | returned id => cases taken
  | awaitGroup | storeGroup | storeSeq | fetchAddInGroup => exact ready.elim

/-- What a step does in an engine that is still in its first group: it either
leaves the counter alone or takes one number from it, and it never asks for
another group. -/
structure Drew (vars : EngineVars) (phase : Phase) (vars' : EngineVars) (phase' : Phase) :
    Prop where
  group_zero : vars'.inodeIdGroup = 0
  rootCreated_eq : vars'.rootCreated = vars.rootCreated
  counter_le : vars.inodeIdSeqInGroup.toNat ≤ vars'.inodeIdSeqInGroup.toNat
  ready : phase'.Ready vars'.inodeIdSeqInGroup.toNat
  drawn : ∀ number, phase'.drawn = some number →
    phase.drawn = some number ∨ number = vars.inodeIdSeqInGroup

theorem drew_of_getNewInodeId {central' : Central} {vars' : EngineVars} {phase' : Phase}
    (group : vars.inodeIdGroup = 0) (positive : 0 < vars.inodeIdSeqInGroup.toNat)
    (room : vars.inodeIdSeqInGroup ≠ 0xFFFFFFFFFFFFFFFF)
    (ready : phase.Ready vars.inodeIdSeqInGroup.toNat)
    (taken : getNewInodeId central vars name phase = some (central', vars', phase')) :
    Drew vars phase vars' phase' := by
  have counter : vars.inodeIdSeqInGroup = .ofNat vars.inodeIdSeqInGroup.toNat :=
    UInt64.ofNat_toNat.symm
  obtain ⟨later, advanced⟩ := advanced_of_getNewInodeId group positive counter ready taken
  have below : later < 2 ^ 64 := by
    have next := toNat_succ room
    have bound := (vars.inodeIdSeqInGroup + 1).toNat_lt
    have le := advanced.later_le
    omega
  have value : vars'.inodeIdSeqInGroup.toNat = later := by
    rw [advanced.counter_eq, UInt64.toNat_ofNat_of_lt' below]
  constructor
  · exact advanced.group_zero
  · exact advanced.rootCreated_eq
  · rw [value]
    exact advanced.le_later
  · rw [value]
    exact advanced.ready below.le
  · intro number some_eq
    rcases advanced.drawn number some_eq with before | ⟨rfl, _⟩
    · exact .inl before
    · exact .inr counter.symm

/-! ## Runs in which one engine draws ids -/

namespace System

variable {s after : System}

def DrawnApart (calls : ℕ → Option Call) : Prop :=
  ∀ {name other call otherCall number}, calls name = some call →
    calls other = some otherCall → call.phase.drawn = some number →
    otherCall.phase.drawn = some number → name = other

theorem DrawnApart.update {calls : ℕ → Option Call} (apart : DrawnApart calls) {call : Call}
    (fresh : ∀ {other otherCall number}, other ≠ name → calls other = some otherCall →
      call.phase.drawn = some number → otherCall.phase.drawn ≠ some number) :
    DrawnApart (update calls name (some call)) := by
  intro first second firstCall secondCall number firstRunning secondRunning drawn otherDrawn
  rcases update_eq_some firstRunning with ⟨rfl, rfl⟩ | ⟨firstNe, first⟩
  · rcases update_eq_some secondRunning with ⟨rfl, _⟩ | ⟨secondNe, second⟩
    · rfl
    · exact absurd otherDrawn (fresh secondNe second drawn)
  · rcases update_eq_some secondRunning with ⟨rfl, rfl⟩ | ⟨_, second⟩
    · exact absurd drawn (fresh firstNe first otherDrawn)
    · exact apart first second drawn otherDrawn

structure Counted (s : System) : Prop where
  group_zero : ∀ engine, (s.engines engine).inodeIdGroup = 0
  positive : ∀ engine, (s.engines engine).rootCreated →
    0 < (s.engines engine).inodeIdSeqInGroup.toNat
  named : ∀ {name call}, s.calls name = some call → name < s.begun
  oneEngine : ∀ {name other call otherCall}, s.calls name = some call →
    s.calls other = some otherCall → call.engine = otherCall.engine
  rootCreated : ∀ {name call}, s.calls name = some call → (s.engines call.engine).rootCreated
  ready : ∀ {name call}, s.calls name = some call →
    call.phase.Ready (s.engines call.engine).inodeIdSeqInGroup.toNat
  apart : ∀ {name other call otherCall number}, s.calls name = some call →
    s.calls other = some otherCall → call.phase.drawn = some number →
    otherCall.phase.drawn = some number → name = other

theorem counted_of_isInitial (initial : s.IsInitial) : s.Counted := by
  obtain ⟨engines, calls, _⟩ := initial
  constructor <;> simp [engines, calls, EngineVars.start]

theorem Counted.initThread (counted : s.Counted) {engine : ℕ}
    (unused : s.OneEngine (.initThread engine)) :
    Counted { s with
      engines := update s.engines engine (s.engines engine).initThread } := by
  have elsewhere : ∀ {name call}, s.calls name = some call → call.engine ≠ engine :=
    fun {name call} running => unused name (counted.named running) call running
  constructor
  · intro other
    rcases eq_or_ne other engine with rfl | ne
    · simpa [EngineVars.initThread] using counted.group_zero other
    · simpa [ne] using counted.group_zero other
  · intro other
    rcases eq_or_ne other engine with rfl | ne
    · simp [EngineVars.initThread]
    · simpa [ne] using counted.positive other
  · exact counted.named
  · exact counted.oneEngine
  · intro name call running
    simpa [elsewhere running] using counted.rootCreated running
  · intro name call running
    simpa [elsewhere running] using counted.ready running
  · exact counted.apart

theorem Counted.call (counted : s.Counted) {engine : ℕ} (oneEngine : s.OneEngine (.call engine)) :
    Counted { s with
      calls := update s.calls s.begun (some ⟨engine, .fetchAdd⟩)
      begun := s.begun + 1 } := by
  -- a call after the step is the new one or one from before
  have known : ∀ {name call},
      update s.calls s.begun (some ⟨engine, .fetchAdd⟩) name = some call →
        (name = s.begun ∧ call = ⟨engine, .fetchAdd⟩) ∨
          (s.calls name = some call ∧ call.engine = engine) := by
    intro name call running
    rcases update_eq_some running with new | ⟨_, before⟩
    · exact .inl new
    · exact .inr ⟨before, oneEngine.2 name (counted.named before) call before⟩
  constructor
  · exact counted.group_zero
  · exact counted.positive
  · intro name call running
    rcases known running with ⟨rfl, _⟩ | ⟨before, _⟩
    · exact Nat.lt_succ_self _
    · exact Nat.lt_succ_of_lt (counted.named before)
  · intro name other call otherCall running otherRunning
    have same : ∀ {name call},
        update s.calls s.begun (some ⟨engine, .fetchAdd⟩) name = some call →
          call.engine = engine := by
      intro name call running
      rcases known running with ⟨_, rfl⟩ | ⟨_, same⟩
      · rfl
      · exact same
    rw [same running, same otherRunning]
  · intro name call running
    rcases known running with ⟨_, rfl⟩ | ⟨before, _⟩
    · exact oneEngine.1
    · exact counted.rootCreated before
  · intro name call running
    rcases known running with ⟨_, rfl⟩ | ⟨before, _⟩
    · trivial
    · exact counted.ready before
  · apply DrawnApart.update counted.apart
    intro other otherCall number _ _ drawn
    cases drawn

theorem Counted.act (counted : s.Counted) {call : Call} (running : s.calls name = some call)
    (drew : Drew (s.engines call.engine) call.phase vars phase) :
    Counted { s with
      central := central
      engines := update s.engines call.engine vars
      calls := update s.calls name (some ⟨call.engine, phase⟩) } := by
  -- a call after the step is this one, or another one that has not moved
  have known : ∀ {other otherCall},
      update s.calls name (some ⟨call.engine, phase⟩) other = some otherCall →
        (other = name ∧ otherCall = ⟨call.engine, phase⟩) ∨
          (s.calls other = some otherCall ∧ otherCall.engine = call.engine) := by
    intro other otherCall otherRunning
    rcases update_eq_some otherRunning with this | ⟨_, before⟩
    · exact .inl this
    · exact .inr ⟨before, counted.oneEngine before running⟩
  -- a number that this call has just drawn is none that another call has
  have fresh : ∀ {other otherCall number}, other ≠ name → s.calls other = some otherCall →
      phase.drawn = some number → otherCall.phase.drawn ≠ some number := by
    intro other otherCall number ne otherRunning drawn otherDrawn
    rcases drew.drawn number drawn with before | rfl
    · exact ne (counted.apart otherRunning running otherDrawn before)
    · have below := (Phase.ready_of_drawn (counted.ready otherRunning) otherDrawn).2
      rw [counted.oneEngine otherRunning running] at below
      exact lt_irrefl _ below
  constructor
  · intro engine
    rcases eq_or_ne engine call.engine with rfl | ne
    · simpa using drew.group_zero
    · simpa [ne] using counted.group_zero engine
  · intro engine
    rcases eq_or_ne engine call.engine with rfl | ne
    · simp only [update_self, drew.rootCreated_eq]
      intro created
      exact Nat.lt_of_lt_of_le (counted.positive _ created) drew.counter_le
    · simpa [ne] using counted.positive engine
  · intro other otherCall otherRunning
    rcases known otherRunning with ⟨rfl, _⟩ | ⟨before, _⟩
    · exact counted.named running
    · exact counted.named before
  · intro first second firstCall secondCall firstRunning secondRunning
    have same : ∀ {other otherCall},
        update s.calls name (some ⟨call.engine, phase⟩) other = some otherCall →
          otherCall.engine = call.engine := by
      intro other otherCall otherRunning
      rcases known otherRunning with ⟨_, rfl⟩ | ⟨_, same⟩
      · rfl
      · exact same
    rw [same firstRunning, same secondRunning]
  · intro other otherCall otherRunning
    rcases known otherRunning with ⟨_, rfl⟩ | ⟨before, same⟩
    · simpa [drew.rootCreated_eq] using counted.rootCreated running
    · have created := counted.rootCreated before
      rw [same] at created
      simpa [same, drew.rootCreated_eq] using created
  · intro other otherCall otherRunning
    rcases known otherRunning with ⟨_, rfl⟩ | ⟨before, same⟩
    · simpa using drew.ready
    · have ready := counted.ready before
      rw [same] at ready
      simpa [same] using ready.mono drew.counter_le
  · exact DrawnApart.update counted.apart fresh

theorem Counted.step (counted : s.Counted) {event : Event} (oneEngine : s.OneEngine event)
    (taken : s.step event = some after) : after.Counted := by
  cases event with
  | initThread engine =>
    obtain rfl := some.inj taken
    exact counted.initThread oneEngine
  | call engine =>
    obtain rfl := some.inj taken
    exact counted.call oneEngine
  | act name =>
    obtain ⟨call, running, moved⟩ := bind_eq_some_iff.mp taken
    obtain ⟨⟨_, _, _⟩, acted, result⟩ := bind_eq_some_iff.mp moved
    obtain rfl := some.inj result
    apply counted.act running
    apply drew_of_getNewInodeId (counted.group_zero _) _ (oneEngine call running)
      (counted.ready running) acted
    exact counted.positive _ (counted.rootCreated running)

/-- As long as a single engine draws ids, no id is returned twice or is that of
the root. -/
theorem uniqueIds_of_oneEngine (reached : Reachable step OneEngine IsInitial s) :
    s.UniqueIds ∧ ∀ {name other engine otherEngine : ℕ} {id : UInt64},
      s.Returned name engine id → s.Returned other otherEngine id → name = other := by
  have counted : s.Counted := by
    apply reached.invariant
    · intro s initial
      exact counted_of_isInitial initial
    · intro s event after counted oneEngine taken
      exact counted.step oneEngine taken
  refine ⟨⟨?_, ?_⟩, ?_⟩
  · intro name other engine otherEngine id otherId returned otherReturned ne
    exact absurd (counted.oneEngine returned otherReturned) ne
  · rintro name engine id returned rfl
    exact absurd (counted.ready returned).1 (by decide)
  · intro name other engine otherEngine id returned otherReturned
    exact counted.apart returned otherReturned rfl rfl

/-- Two calls in one engine that overlap. -/
theorem uniqueIds_of_oneEngine_twoCalls :
    ∃ s, Reachable step OneEngine IsInitial s ∧
      (s.Returned 0 4 1 ∧ s.Returned 1 4 2) ∧ s.UniqueIds := by
  obtain ⟨s, reached, returned⟩ := Reachable.exists_of_run step OneEngine
    [.initThread 4, .call 4, .call 4, .act 0, .act 1, .act 1, .act 0]
    (fun s => s.Returned 0 4 1 ∧ s.Returned 1 4 2) (isInitial_start ⟨0⟩) (by decide)
  exact ⟨s, reached, returned, (uniqueIds_of_oneEngine reached).1⟩

/-- Two engines begin with the same group: both return the id 1. -/
theorem engines_return_same_id :
    ¬ ∀ s, Reachable step (fun _ _ => True) IsInitial s → s.UniqueIds := by
  intro unique
  obtain ⟨s, reached, returned, otherReturned⟩ := Reachable.exists_of_run step
    (fun _ _ => True)
    [.initThread 0, .initThread 1, .call 0, .act 0, .act 0, .call 1, .act 1, .act 1]
    (fun s => s.Returned 0 0 1 ∧ s.Returned 1 1 1) (isInitial_start ⟨0⟩) (by decide)
  exact (unique s reached).1 returned otherReturned (by decide) rfl

end System

end FuseeFs.Engine.InodeIds
