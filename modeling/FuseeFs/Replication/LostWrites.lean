import FuseeFs.Index.Table
import FuseeFs.Replication.CasLists

/-!
# Inserts and updates of `ClientCR` that free their memory

An operation of `ClientCR` allocates a subblock for its log entry, lets the index
point to it with `iteratively_cas_sync` or `iteratively_cas_async`, first on the
backups and then on the primary, and gives the subblock back if it takes itself
for lost.  It does so if the value that it has replaced on the primary is not the
one that it had read.  Any number of operations are interleaved, on any slots.
-/

namespace FuseeFs.Replication.LostWrites

open List Option Function Library Index
open Replication.CasLists (CasRequest casMemory casRound compareAddAt testedValue
  testedValue_eq)

/-! ## Subblocks -/

def subblock (alloc : ClientMMAllocCtx) : Place :=
  (alloc.serverId, alloc.addr)

/-- `ConvertSlotToAddr`: where a slot points to. -/
def pointee (word : UInt64) : Place :=
  ((raceHashSlot word).serverId, rKvAddr word)

@[simp]
theorem pointee_fillSlot (alloc : ClientMMAllocCtx) (fp : UInt8) :
    pointee (fillSlot alloc fp) = subblock alloc := by
  rw [pointee, rKvAddr_fillSlot, raceHashSlot_fillSlot, subblock]

/-! ## Operations -/

inductive WriteType
  | insert
  | update
deriving DecidableEq

/-- The slot that an operation has found, with the value that it has read there
or in its cache. -/
structure Target (Slot : Type) where
  slot : Slot
  origValue : UInt64
deriving DecidableEq

structure Loop where
  i : ℕ
  expectedValue : UInt64
  swapBack : ℕ → UInt64

inductive Phase (Slot : Type)
  /-- The subblock is allocated and written, the buckets are being read. -/
  | lookup
  | backups (target : Target Slot) (loop : Loop)
  /-- Before the primary: `kv_log_commit`, which does not touch the index. -/
  | commit (target : Target Slot)
  | primary (target : Target Slot) (loop : Loop)
  /-- The end of `modify_primary_idx`, with the result of the last
  compare-and-swap. -/
  | check (target : Target Slot) (swapBack : UInt64)

structure Operation (Slot : Type) where
  variant : Variant
  reqType : WriteType
  alloc : ClientMMAllocCtx
  fp : UInt8
  phase : Phase Slot

namespace Operation

variable {Slot : Type} (k : ℕ)

def swapValue (op : Operation Slot) : UInt64 :=
  fillSlot op.alloc op.fp

def backupRequests (op : Operation Slot) (target : Target Slot) :
    List (CasRequest (Slot × Fin (k + 1))) :=
  (List.finRange k).map fun backup =>
    ⟨(target.slot, backup.succ), target.origValue, op.swapValue⟩

def primaryRequests (op : Operation Slot) (target : Target Slot) :
    List (CasRequest (Slot × Fin (k + 1))) :=
  [⟨(target.slot, 0), target.origValue, op.swapValue⟩]

/-- Where an operation stops when `should_stop` is set.  With a single replica
there is no log to commit. -/
def mayStop (op : Operation Slot) : Bool :=
  match op.variant, op.reqType, op.phase with
  | .async, .update, .lookup => true
  | .async, .update, .commit _ => true
  | .sync, .insert, .commit _ => k ≠ 0
  | _, _, _ => false

/-- Whether an operation that takes itself for lost calls `mm_free_cur`.
`ClientCR` never votes, so that `KV_CONSENSUS_FAIL` does not occur. -/
def freesWhenLost (op : Operation Slot) : Bool :=
  match op.reqType with
  | .insert => true
  | .update => k = 0

def lostRetCode (op : Operation Slot) : KVOpsRetCode :=
  match op.reqType with
  | .insert => .failRedo
  | .update => .success

end Operation

/-! ## The system -/

/-- The index on its `k + 1` replicas and the operations of all clients and
fibers. -/
structure State (Client Slot : Type) (k : ℕ) where
  index : Slot × Fin (k + 1) → UInt64
  inUse : Place → Bool
  running : Client → Option (Operation Slot)
  retCode : Client → Option KVOpsRetCode

inductive Event (Client Slot : Type)
  | mmAlloc (client : Client) (variant : Variant) (reqType : WriteType) (alloc : ClientMMAllocCtx)
      (fp : UInt8)
  /-- An insert has found an empty slot or an update its key, or none. -/
  | find (client : Client) (target : Option (Target Slot))
  /-- A compare-and-swap is executed and its result tested. -/
  | cas (client : Client)
  | commit (client : Client)
  /-- `should_stop` is set. -/
  | stop (client : Client)
  | check (client : Client)

section Step

variable {Client Slot : Type} {k : ℕ} [DecidableEq Client] [DecidableEq Slot]

namespace State

def setOperation (s : State Client Slot k) (client : Client) (op : Operation Slot) :
    State Client Slot k :=
  { s with running := update s.running client (some op) }

def setPhase (s : State Client Slot k) (client : Client) (op : Operation Slot)
    (phase : Phase Slot) : State Client Slot k :=
  s.setOperation client { op with phase := phase }

def finish (s : State Client Slot k) (client : Client) (retCode : Option KVOpsRetCode) :
    State Client Slot k :=
  { s with
    running := update s.running client none
    retCode := update s.retCode client retCode }

def mmFreeCur (s : State Client Slot k) (op : Operation Slot) : State Client Slot k :=
  { s with inUse := update s.inUse (subblock op.alloc) false }

def round (s : State Client Slot k) (variant : Variant)
    (requests : List (CasRequest (Slot × Fin (k + 1)))) (loop : Loop) :
    Option ((Slot × Fin (k + 1) → UInt64) × Loop) :=
  (CasLists.step requests variant ⟨s.index, loop.i, loop.expectedValue, loop.swapBack, []⟩
    .cas).map fun after => (after.memory, ⟨after.i, after.expectedValue, after.swapBack⟩)

def enter (requests : List (CasRequest (Slot × Fin (k + 1)))) : Loop where
  i := 0
  expectedValue := compareAddAt requests 0
  swapBack := fun _ => 0

end State

open State

def cas (s : State Client Slot k) (client : Client) (op : Operation Slot) :
    Option (State Client Slot k) :=
  match op.phase with
  | .backups target loop =>
    let requests := op.backupRequests k target
    (s.round op.variant requests loop).map fun (index, loop) =>
      { s with index := index }.setPhase client op
        (if loop.i = requests.length then .commit target else .backups target loop)
  | .primary target loop =>
    let requests := op.primaryRequests k target
    (s.round op.variant requests loop).map fun (index, loop) =>
      { s with index := index }.setPhase client op
        (if loop.i = requests.length then .check target (loop.swapBack 0)
        else .primary target loop)
  | _ => none

def step (s : State Client Slot k) : Event Client Slot → Option (State Client Slot k)
  | .mmAlloc client variant reqType alloc fp =>
    if (s.running client).isNone ∧ s.inUse (subblock alloc) = false then
      some ({ s with inUse := update s.inUse (subblock alloc) true }.setOperation
        client ⟨variant, reqType, alloc, fp, .lookup⟩)
    else none
  | .find client target => do
    let op ← s.running client
    match op.phase, target with
    | .lookup, some target =>
      some (s.setPhase client op
        (if k = 0 then .commit target
        else .backups target (enter (op.backupRequests k target))))
    | .lookup, none =>
      -- an update leaves its subblock allocated
      match op.reqType with
      | .insert => some ((s.mmFreeCur op).finish client (some .failReturn))
      | .update => some (s.finish client (some .failReturn))
    | _, _ => none
  | .cas client => do
    let op ← s.running client
    cas s client op
  | .commit client => do
    let op ← s.running client
    match op.phase with
    | .commit target =>
      some (s.setPhase client op (.primary target (enter (op.primaryRequests k target))))
    | _ => none
  | .stop client => do
    let op ← s.running client
    if op.mayStop k then some (s.finish client none) else none
  | .check client => do
    let op ← s.running client
    match op.phase with
    | .check target swapBack =>
      if swapBack ≠ target.origValue then
        let s := if op.freesWhenLost k then s.mmFreeCur op else s
        some (s.finish client (some op.lostRetCode))
      else some (s.finish client (some .success))
    | _ => none

/-- No operation is running, and the index points to allocated memory only.  The
address 0 of an empty slot is never handed out and counts as allocated. -/
def IsInitial (s : State Client Slot k) : Prop :=
  (∀ client, s.running client = none) ∧ ∀ pos, s.inUse (pointee (s.index pos))

/-- No replica points to a subblock that was given back and not allocated
again. -/
def NoDangling (s : State Client Slot k) : Prop :=
  ∀ pos, s.inUse (pointee (s.index pos))

/-- The next compare-and-swap of an operation replaces a value on the primary
that is not the one that the operation had read. -/
def replacesOther (s : State Client Slot k) (op : Operation Slot) : Bool :=
  match op.phase with
  | .primary target loop =>
    s.index (target.slot, 0) = loop.expectedValue ∧ loop.expectedValue ≠ target.origValue
  | _ => false

/-- An operation that frees its memory when it is lost replaces no value on the
primary but the one that it had read. -/
def ReplacesOriginal (s : State Client Slot k) : Event Client Slot → Prop
  | .cas client =>
    ∀ op ∈ s.running client, op.freesWhenLost k → replacesOther s op = false
  | _ => True

instance (s : State Client Slot k) :
    (event : Event Client Slot) → Decidable (ReplacesOriginal s event)
  | .cas client =>
    inferInstanceAs (Decidable (∀ op ∈ s.running client,
      op.freesWhenLost k → replacesOther s op = false))
  | .mmAlloc .. | .find .. | .commit _ | .stop _ | .check _ => inferInstanceAs (Decidable True)

end Step

section Effects

variable {Client Slot : Type} {k : ℕ} [DecidableEq Client] [DecidableEq Slot]
  {s after : State Client Slot k} {client : Client} {op : Operation Slot}

open State

omit [DecidableEq Client] in
theorem round_eq_some {variant : Variant} {requests : List (CasRequest (Slot × Fin (k + 1)))}
    {loop next : Loop} {index : Slot × Fin (k + 1) → UInt64}
    (taken : s.round variant requests loop = some (index, next)) :
    ∃ req, requests[loop.i]? = some req ∧
      index = casMemory s.index req.slot loop.expectedValue req.swap ∧
      next.i = (if testedValue variant
          ⟨s.index, loop.i, loop.expectedValue, loop.swapBack, []⟩ req =
            loop.expectedValue then loop.i + 1 else loop.i) ∧
      next.swapBack = update loop.swapBack loop.i (s.index req.slot) := by
  obtain ⟨_, stepped, equal⟩ := map_eq_some_iff.mp taken
  obtain ⟨req, mem, rfl⟩ := map_eq_some_iff.mp stepped
  obtain ⟨rfl, rfl⟩ := Prod.mk.inj equal
  exact ⟨req, mem, rfl, rfl, rfl⟩

omit [DecidableEq Client] in
theorem casMemory_eq_or {Position : Type} [DecidableEq Position] (memory : Position → UInt64)
    (slot : Position) (expectedValue swap : UInt64) (pos : Position) :
    casMemory memory slot expectedValue swap pos = memory pos ∨
      casMemory memory slot expectedValue swap pos = swap := by
  unfold casMemory
  split
  · by_cases same : pos = slot
    · rw [same, update_self]
      exact .inr rfl
    · rw [update_of_ne same]
      exact .inl rfl
  · exact .inl rfl

/-- What a step can do as long as no operation takes itself for lost after it has
replaced a value. -/
inductive Effect (s : State Client Slot k) : State Client Slot k → Prop
  | begin {client : Client} {op : Operation Slot} (idle : s.running client = none)
      (free : s.inUse (subblock op.alloc) = false)
      (lookup : op.phase = .lookup) :
      Effect s
        ({ s with
          inUse := update s.inUse (subblock op.alloc) true }.setOperation
            client op)
  | advance {client : Client} {op : Operation Slot}
      {index : Slot × Fin (k + 1) → UInt64} {phase : Phase Slot}
      (running : s.running client = some op)
      (installs : ∀ pos, index pos = s.index pos ∨ index pos = op.swapValue)
      (found : phase ≠ .lookup)
      (checked : ∀ target swapBack, phase = .check target swapBack →
        op.freesWhenLost k → swapBack = target.origValue) :
      Effect s ({ s with index := index }.setPhase client op phase)
  | leave {client : Client} {retCode : Option KVOpsRetCode} : Effect s (s.finish client retCode)
  | free {client : Client} {op : Operation Slot} {retCode : Option KVOpsRetCode}
      (running : s.running client = some op) (lookup : op.phase = .lookup) :
      Effect s ((s.mmFreeCur op).finish client retCode)

theorem effect_cas (running : s.running client = some op)
    (original : op.freesWhenLost k → replacesOther s op = false)
    (taken : cas s client op = some after) : Effect s after := by
  unfold cas at taken
  split at taken
  case h_1 target loop phase =>
      obtain ⟨⟨index, next⟩, rounded, rfl⟩ := map_eq_some_iff.mp taken
      obtain ⟨req, mem, rfl, -, -⟩ := round_eq_some rounded
      obtain ⟨_, -, rfl⟩ := List.mem_map.mp (mem_of_getElem? mem)
      refine .advance running (casMemory_eq_or _ _ _ _) ?_ ?_
      · split <;> simp
      · intro other swapBack equal
        split at equal <;> cases equal
  case h_2 target loop phase =>
      obtain ⟨⟨_, _⟩, rounded, rfl⟩ := map_eq_some_iff.mp taken
      obtain ⟨req, mem, rfl, moved, buffers⟩ := round_eq_some rounded
      -- there is only one request
      obtain ⟨bound, only⟩ := List.getElem?_eq_some_iff.mp mem
      have first : loop.i = 0 := Nat.lt_one_iff.mp bound
      have request_eq : req = ⟨(target.slot, 0), target.origValue, op.swapValue⟩ := by
        rw [first] at mem
        exact (some.inj mem).symm
      subst request_eq
      refine .advance running (casMemory_eq_or _ _ _ _) ?_ ?_
      · split <;> simp
      · intro other swapBack equal frees
        split at equal
        case isTrue ended =>
            obtain ⟨rfl, rfl⟩ := Phase.check.inj equal
            have own := @testedValue_eq (Slot × Fin (k + 1)) op.variant
              ⟨s.index, loop.i, loop.expectedValue, loop.swapBack, []⟩
              ⟨(target.slot, 0), target.origValue, op.swapValue⟩
              (fun later => later.2 first)
            have replaced : s.index (target.slot, 0) = loop.expectedValue := by
              by_contra failed
              rw [own, if_neg failed, first] at moved
              exact absurd (moved.symm.trans ended) (by simp [Operation.primaryRequests])
            have same := original frees
            simp only [replacesOther, phase, replaced, true_and, ne_eq, decide_not,
              Bool.not_eq_false', decide_eq_true_eq] at same
            rw [buffers, first, update_self, replaced, same]
        case isFalse => cases equal
  case h_3 => cases taken

def NoneLost (s : State Client Slot k) : Prop :=
  ∀ {client op target swapBack}, s.running client = some op →
    op.phase = .check target swapBack → op.freesWhenLost k → swapBack = target.origValue

theorem effect_check (running : s.running client = some op) (noneLost : NoneLost s)
    {target : Target Slot} {swapBack : UInt64} (phase : op.phase = .check target swapBack)
    (taken : step s (.check client) = some after) : Effect s after := by
  have checked := noneLost running phase
  simp only [step, running, bind_eq_bind, bind_some, phase] at taken
  split at taken
  case isTrue lost =>
      have keeps : op.freesWhenLost k = false := by
        by_contra frees
        exact lost (checked (Bool.not_eq_false _ ▸ frees))
      obtain rfl := some.inj taken
      simp only [keeps, Bool.false_eq_true, if_false]
      exact .leave
  case isFalse =>
      obtain rfl := some.inj taken
      exact .leave

theorem effect_find (running : s.running client = some op)
    {target : Option (Target Slot)} (taken : step s (.find client target) = some after) :
    Effect s after := by
  simp only [step, running, bind_eq_bind, bind_some] at taken
  split at taken
  case h_1 phase =>
      obtain rfl := some.inj taken
      refine .advance running (fun _ => .inl rfl) ?_ ?_
      · split <;> simp
      · intro other swapBack equal
        split at equal <;> cases equal
  case h_2 lookup =>
      split at taken
      · obtain rfl := some.inj taken
        exact .free running lookup
      · obtain rfl := some.inj taken
        exact .leave
  case h_3 => cases taken

theorem effect_step {event : Event Client Slot} (noneLost : NoneLost s)
    (original : ReplacesOriginal s event) (taken : step s event = some after) : Effect s after := by
  cases event with
  | mmAlloc client variant reqType alloc fp =>
    simp only [step] at taken
    split at taken
    case isTrue admitted =>
        obtain rfl := some.inj taken
        have idle := isNone_iff_eq_none.mp admitted.1
        exact @Effect.begin _ _ _ _ s client ⟨variant, reqType, alloc, fp, .lookup⟩ idle
          admitted.2 rfl
    case isFalse => cases taken
  | find client target =>
    obtain ⟨op, running, -⟩ := bind_eq_some_iff.mp taken
    exact effect_find running taken
  | cas client =>
    obtain ⟨op, running, moved⟩ := bind_eq_some_iff.mp taken
    exact effect_cas running (original op running) moved
  | commit client =>
    obtain ⟨op, running, moved⟩ := bind_eq_some_iff.mp taken
    split at moved
    case h_1 =>
        obtain rfl := some.inj moved
        exact .advance running (fun _ => .inl rfl) (by simp) (by simp)
    case h_2 => cases moved
  | stop client =>
    obtain ⟨op, running, moved⟩ := bind_eq_some_iff.mp taken
    split at moved
    case isTrue =>
        obtain rfl := some.inj moved
        exact .leave
    case isFalse => cases moved
  | check client =>
    obtain ⟨_, running, moved⟩ := bind_eq_some_iff.mp taken
    split at moved
    case h_1 phase => exact effect_check running noneLost phase taken
    case h_2 => cases moved

end Effects

section Runs

variable {Client Slot : Type} {k : ℕ} {s after : State Client Slot k}

/-- The index and the running operations have allocated subblocks, each operation
its own, and the index does not point to that of an operation that has not found
its slot yet. -/
structure Tidy (s : State Client Slot k) : Prop where
  noDangling : NoDangling s
  inUse : ∀ {client op}, s.running client = some op → s.inUse (subblock op.alloc)
  apart : ∀ {client other op otherOperation}, s.running client = some op →
    s.running other = some otherOperation →
    subblock op.alloc = subblock otherOperation.alloc → client = other
  fresh : ∀ {client op}, s.running client = some op →
    op.phase = .lookup → ∀ pos, pointee (s.index pos) ≠ subblock op.alloc
  noneLost : NoneLost s

theorem tidy_of_isInitial (initial : IsInitial s) : Tidy s := by
  obtain ⟨idle, noDangling⟩ := initial
  constructor
  · exact noDangling
  · simp [idle]
  · simp [idle]
  · simp [idle]
  · simp [NoneLost, idle]

variable [DecidableEq Client]

section Tidy

variable {client : Client} {op : Operation Slot} (tidy : Tidy s)
include tidy

theorem Tidy.leave (client : Client) (retCode : Option KVOpsRetCode) :
    Tidy (s.finish client retCode) := by
  constructor
  · exact tidy.noDangling
  · intro other op running
    exact tidy.inUse (update_none_eq_some running).2
  · intro first second op otherOperation running otherRunning
    exact tidy.apart (update_none_eq_some running).2 (update_none_eq_some otherRunning).2
  · intro other op running
    exact tidy.fresh (update_none_eq_some running).2
  · intro other op target swapBack running
    exact tidy.noneLost (update_none_eq_some running).2

theorem Tidy.free {retCode : Option KVOpsRetCode} (running : s.running client = some op)
    (lookup : op.phase = .lookup) : Tidy ((s.mmFreeCur op).finish client retCode) := by
  have left := tidy.leave client retCode
  constructor
  · intro pos
    have unreferenced := tidy.fresh running lookup pos
    exact (update_of_ne unreferenced _ _).trans (tidy.noDangling pos)
  · intro other otherOperation otherRunning
    obtain ⟨ne, before⟩ := update_none_eq_some otherRunning
    have apart : subblock otherOperation.alloc ≠ subblock op.alloc :=
      fun same => ne (tidy.apart before running same)
    exact (update_of_ne apart _ _).trans (tidy.inUse before)
  · exact left.apart
  · exact left.fresh
  · exact left.noneLost

theorem Tidy.begin (free : s.inUse (subblock op.alloc) = false) (lookup : op.phase = .lookup) :
    Tidy ({ s with
      inUse := update s.inUse (subblock op.alloc) true }.setOperation
        client op) := by
  -- what was allocated before is another subblock and still allocated
  have other_of_inUse : ∀ {place}, s.inUse place → place ≠ subblock op.alloc := by
    rintro place used rfl
    rw [free] at used
    cases used
  have still : ∀ {place}, s.inUse place →
      update s.inUse (subblock op.alloc) true place := by
    intro place used
    exact (update_of_ne (other_of_inUse used) _ _).trans used
  constructor
  · intro pos
    exact still (tidy.noDangling pos)
  · intro other otherOperation running
    rcases update_eq_some running with ⟨-, rfl⟩ | ⟨-, before⟩
    · exact update_self ..
    · exact still (tidy.inUse before)
  · intro first second firstOperation secondOperation running otherRunning same
    rcases update_eq_some running with ⟨rfl, rfl⟩ | ⟨-, before⟩
    · rcases update_eq_some otherRunning with ⟨rfl, -⟩ | ⟨-, otherBefore⟩
      · rfl
      · exact absurd same.symm (other_of_inUse (tidy.inUse otherBefore))
    · rcases update_eq_some otherRunning with ⟨rfl, rfl⟩ | ⟨-, otherBefore⟩
      · exact absurd same (other_of_inUse (tidy.inUse before))
      · exact tidy.apart before otherBefore same
  · intro other otherOperation running found pos
    rcases update_eq_some running with ⟨-, rfl⟩ | ⟨-, before⟩
    · exact other_of_inUse (tidy.noDangling pos)
    · exact tidy.fresh before found pos
  · intro other otherOperation target swapBack running phase
    rcases update_eq_some running with ⟨-, rfl⟩ | ⟨-, before⟩
    · rw [lookup] at phase
      cases phase
    · exact tidy.noneLost before phase

theorem Tidy.advance {index : Slot × Fin (k + 1) → UInt64} {phase : Phase Slot}
    (running : s.running client = some op)
    (installs : ∀ pos, index pos = s.index pos ∨ index pos = op.swapValue) (found : phase ≠ .lookup)
    (checked : ∀ target swapBack, phase = .check target swapBack → op.freesWhenLost k →
      swapBack = target.origValue) :
    Tidy ({ s with index := index }.setPhase client op phase) := by
  -- the operation that moves keeps its subblock
  have known : ∀ {other otherOperation},
      ({ s with index := index }.setPhase client op phase).running other = some otherOperation →
      ∃ before, s.running other = some before ∧ before.alloc = otherOperation.alloc ∧
        (other ≠ client → before = otherOperation) := by
    intro other otherOperation otherRunning
    rcases update_eq_some otherRunning with ⟨rfl, rfl⟩ | ⟨-, before⟩
    · exact ⟨op, running, rfl, fun ne => absurd rfl ne⟩
    · exact ⟨otherOperation, before, rfl, fun _ => rfl⟩
  constructor
  · intro pos
    rcases installs pos with same | new
    · have before := tidy.noDangling pos
      rwa [← same] at before
    · have used := tidy.inUse running
      rw [← pointee_fillSlot op.alloc op.fp] at used
      rwa [Operation.swapValue, ← new] at *
  · intro other otherOperation otherRunning
    obtain ⟨before, wasRunning, same, -⟩ := known otherRunning
    exact same ▸ tidy.inUse wasRunning
  · intro first second firstOperation secondOperation firstRunning secondRunning same
    obtain ⟨before, wasRunning, alloc, -⟩ := known firstRunning
    obtain ⟨_, otherWasRunning, otherAlloc, -⟩ := known secondRunning
    rw [← alloc, ← otherAlloc] at same
    exact tidy.apart wasRunning otherWasRunning same
  · intro other otherOperation otherRunning lookup pos
    rcases update_eq_some otherRunning with ⟨-, rfl⟩ | ⟨ne, before⟩
    · exact absurd lookup found
    · rcases installs pos with same | new
      · have fresh := tidy.fresh before lookup pos
        rwa [← same] at fresh
      · intro points
        refine ne (tidy.apart before running ?_)
        rw [← points]
        exact (congrArg pointee new).trans (pointee_fillSlot ..)
  · intro other otherOperation target swapBack otherRunning check
    rcases update_eq_some otherRunning with ⟨-, rfl⟩ | ⟨-, before⟩
    · exact checked target swapBack check
    · exact tidy.noneLost before check

theorem Tidy.effect (effect : Effect s after) : Tidy after := by
  cases effect with
  | begin idle free lookup => exact tidy.begin free lookup
  | advance running installs found checked => exact tidy.advance running installs found checked
  | leave => exact tidy.leave _ _
  | free running lookup => exact tidy.free running lookup

end Tidy

variable [DecidableEq Slot]

/-- As long as the operations that free their memory when they are lost replace
nothing on the primary but the value that they had read, the index never points to
memory that was given back. -/
theorem noDangling_of_replacesOriginal
    (reached : Reachable step ReplacesOriginal IsInitial s) : NoDangling s := by
  have tidy : Tidy s := by
    apply reached.invariant
    · intro s initial
      exact tidy_of_isInitial initial
    · intro s event after tidy original taken
      exact tidy.effect (effect_step tidy.noneLost original taken)
  exact tidy.noDangling

end Runs

/-! ## Two clients -/

def emptySlot (k : ℕ) : State (Fin 2) Unit k where
  index := fun _ => 0
  inUse := fun place => place = (0, 0)
  running := fun _ => none
  retCode := fun _ => none

theorem isInitial_emptySlot (k : ℕ) : IsInitial (emptySlot k) := by
  have nowhere : pointee 0 = (0, 0) := by decide
  exact ⟨fun _ => rfl, fun _ => decide_eq_true nowhere⟩

/-- One insert is successful and another finds no slot and frees its subblock. -/
theorem noDangling_of_replacesOriginal_noSlot :
    ∃ s : State (Fin 2) Unit 1, Reachable step ReplacesOriginal IsInitial s ∧
      (s.retCode 0 = some .success ∧ s.retCode 1 = some .failReturn ∧
        s.inUse (0, 512) = false) ∧ NoDangling s := by
  obtain ⟨s, reached, returned⟩ := Reachable.exists_of_run step ReplacesOriginal
    [.mmAlloc 0 .async .insert (sampleAlloc 1) 7, .mmAlloc 1 .sync .insert (sampleAlloc 2) 9,
      .find 0 (some ⟨(), 0⟩), .cas 0, .find 1 none, .commit 0, .cas 0, .check 0]
    (fun s : State (Fin 2) Unit 1 => s.retCode 0 = some .success ∧
      s.retCode 1 = some .failReturn ∧ s.inUse (0, 512) = false)
    (isInitial_emptySlot 1) (by decide +kernel)
  exact ⟨s, reached, returned, noDangling_of_replacesOriginal reached⟩

/-- Two inserts find the same empty slot.  The second one replaces the value of
the first one, returns `KV_OPS_FAIL_REDO` and frees the subblock that the index
points to. -/
theorem dangling_after_failRedo :
    ∃ s : State (Fin 2) Unit 0, Reachable step (fun _ _ => True) IsInitial s ∧
      s.retCode 1 = some .failRedo ∧ ¬ NoDangling s := by
  obtain ⟨s, reached, redo, freed⟩ := Reachable.exists_of_run step (fun _ _ => True)
    [.mmAlloc 0 .sync .insert (sampleAlloc 1) 7, .mmAlloc 1 .sync .insert (sampleAlloc 2) 9,
      .find 0 (some ⟨(), 0⟩), .find 1 (some ⟨(), 0⟩), .commit 0, .commit 1, .cas 0, .cas 1, .cas 1,
      .check 0, .check 1]
    (fun s : State (Fin 2) Unit 0 => s.retCode 1 = some .failRedo ∧
      s.inUse (pointee (s.index ((), 0))) = false)
    (isInitial_emptySlot 0) (by decide +kernel)
  refine ⟨s, reached, redo, fun noDangling => ?_⟩
  have used := noDangling ((), 0)
  rw [freed] at used
  cases used

end FuseeFs.Replication.LostWrites
