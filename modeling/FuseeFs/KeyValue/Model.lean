import FuseeFs.Index.Buckets
import FuseeFs.Library.Linearization
import FuseeFs.Replication.Protocol

/-!
# Searches and updates of one key

`kv_search` and `kv_update` without cache and with one index replica, as any
number of clients run them on one key.  Each request to remote memory is a step
of its own: a bucket read, the read or the write of a key-value pair, the
compare-and-swap of the slot and the write that invalidates the old pair.
Requests that are posted together may be executed in any order.
-/

namespace FuseeFs.KeyValue

open Function Index Library Replication

/-- What a log entry in remote memory says: the valid byte of its header, the
key and the value. -/
structure KVPair where
  isValid : Bool
  key : List UInt8
  value : List UInt8
deriving DecidableEq, Repr

abbrev Location := UInt8 × ℕ

def location (word : UInt64) : Location :=
  ((raceHashSlot word).serverId, rKvAddr word)

inductive Request
  | search
  | update (value : List UInt8) (mmAllocCtx : ClientMMAllocCtx)
deriving DecidableEq

inductive RetVal
  | value (value : Option (List UInt8))
  | retCode (code : KVOpsRetCode)
deriving DecidableEq, Repr

inductive RegisterOp
  | read
  | write (value : List UInt8)
deriving DecidableEq, Repr

theorem Request.eq_search_or_update (request : Request) :
    request = .search ∨ ∃ value mmAllocCtx, request = .update value mmAllocCtx := by
  cases request with
  | search => exact .inl rfl
  | update value mmAllocCtx => exact .inr ⟨value, mmAllocCtx, rfl⟩

def Request.operation : Request → RegisterOp
  | .search => .read
  | .update value _ => .write value

def register (initial : List UInt8) : SequentialObject (List UInt8) RegisterOp RetVal where
  initial := initial
  apply
    | current, .read => (current, .value (some current))
    | _, .write value => (value, .retCode .success)

structure ReqCtx where
  request : Request
  interval : Interval RegisterOp RetVal
  localBuckets : Option Buckets
  kvBuffers : Position → Option KVPair
  kvWritten : Bool
  swapBack : Option UInt64
  invalidated : Bool

namespace ReqCtx

def start (request : Request) (now : ℕ) : ReqCtx where
  request := request
  interval := { operation := request.operation, invoked := now, returned := none }
  localBuckets := none
  kvBuffers := fun _ => none
  kvWritten := false
  swapBack := none
  invalidated := false

def InFlight (ctx : ReqCtx) : Prop :=
  ctx.interval.returned = none

instance (ctx : ReqCtx) : Decidable ctx.InFlight :=
  decidable_of_iff (ctx.interval.returned.isNone) Option.isNone_iff_eq_none

section Key

variable (key : List UInt8) (fp : UInt8) (ctx : ReqCtx)

def kvIdxList : List Position :=
  (ctx.localBuckets.map (findKvInBuckets fp)).getD []

/-- The first batch is complete: an update has also written its pair. -/
def bucketsRead : Bool :=
  ctx.localBuckets.isSome &&
    match ctx.request with
    | .search => true
    | .update _ _ => ctx.kvWritten

def kvsRead : Bool :=
  ctx.bucketsRead && (ctx.kvIdxList fp).all fun pos => (ctx.kvBuffers pos).isSome

def findMatchKvIdx : Option Position :=
  (ctx.kvIdxList fp).find? fun pos => (ctx.kvBuffers pos).any fun pair => pair.key = key

/-- The slot that an update swaps and the value it expects there, once
`kv_update_backup_consensus_0` has found the key. -/
def casAddr : Option (Position × UInt64) :=
  if ctx.kvsRead fp then
    (ctx.findMatchKvIdx key fp).bind fun pos =>
      ctx.localBuckets.map fun buckets => (pos, buckets pos)
  else none

/-- What the request returns, as soon as it can: an update whose
compare-and-swap failed returns success like any other. -/
def retVal : Option RetVal :=
  if ctx.kvsRead fp then
    match ctx.request, ctx.findMatchKvIdx key fp with
    | .search, found =>
      some (.value (found.bind fun pos => (ctx.kvBuffers pos).map KVPair.value))
    | .update _ _, none => some (.retCode .failReturn)
    | .update _ _, some _ =>
      if ctx.swapBack.isSome ∧ ctx.invalidated then some (.retCode .success) else none
  else none

end Key

end ReqCtx

structure System where
  slots : Buckets
  memory : Location → KVPair
  requests : ℕ → Option ReqCtx
  clock : ℕ

namespace System

def put (s : System) (name : ℕ) (ctx : ReqCtx) : System :=
  { s with
    requests := update s.requests name (some ctx)
    clock := s.clock + 1 }

@[simp]
theorem requests_put_self (s : System) (name : ℕ) (ctx : ReqCtx) :
    (s.put name ctx).requests name = some ctx := by
  simp [put]

theorem requests_put_of_ne (s : System) {name other : ℕ} (ctx : ReqCtx)
    (apart : other ≠ name) : (s.put name ctx).requests other = s.requests other := by
  simp [put, apart]

def history (s : System) : History RegisterOp RetVal :=
  fun name => (s.requests name).map ReqCtx.interval

end System

inductive Event
  | search
  | update (value : List UInt8) (mmAllocCtx : ClientMMAllocCtx)
  | readBuckets (name : ℕ)
  | writeKv (name : ℕ)
  | readKv (name : ℕ) (pos : Position)
  | casSlot (name : ℕ)
  | writeInvalid (name : ℕ)
  | respond (name : ℕ)

def step (key : List UInt8) (fp : UInt8) (s : System) : Event → Option System
  | .search => some (s.put s.clock (.start .search s.clock))
  | .update value mmAllocCtx =>
    some (s.put s.clock (.start (.update value mmAllocCtx) s.clock))
  | .readBuckets name => do
    let ctx ← s.requests name
    if ctx.InFlight ∧ ctx.localBuckets.isNone then
      some (s.put name { ctx with localBuckets := some s.slots })
    else none
  | .writeKv name => do
    let ctx ← s.requests name
    match ctx.request with
    | .search => none
    | .update value mmAllocCtx =>
      if ctx.InFlight ∧ ctx.kvWritten = false then
        let written := update s.memory (location (fillSlot mmAllocCtx fp))
          ⟨true, key, value⟩
        some ({ s with memory := written }.put name { ctx with kvWritten := true })
      else none
  | .readKv name pos => do
    let ctx ← s.requests name
    let buckets ← ctx.localBuckets
    if ctx.InFlight ∧ ctx.bucketsRead ∧ pos ∈ ctx.kvIdxList fp ∧
        (ctx.kvBuffers pos).isNone then
      let pair := s.memory (location (buckets pos))
      some (s.put name { ctx with kvBuffers := update ctx.kvBuffers pos (some pair) })
    else none
  | .casSlot name => do
    let ctx ← s.requests name
    let (pos, origValue) ← ctx.casAddr key fp
    match ctx.request with
    | .search => none
    | .update _ mmAllocCtx =>
      if ctx.InFlight ∧ ctx.swapBack.isNone then
        let swapped := casSlot s.slots pos origValue (fillSlot mmAllocCtx fp)
        some ({ s with slots := swapped }.put name { ctx with swapBack := some (s.slots pos) })
      else none
  | .writeInvalid name => do
    let ctx ← s.requests name
    let (_, origValue) ← ctx.casAddr key fp
    match ctx.request with
    | .search => none
    | .update _ _ =>
      if ctx.InFlight ∧ ctx.invalidated = false then
        let invalid := { s.memory (location origValue) with isValid := false }
        some ({ s with
          memory := update s.memory (location origValue) invalid }.put name
          { ctx with invalidated := true })
      else none
  | .respond name => do
    let ctx ← s.requests name
    let retVal ← ctx.retVal key fp
    if ctx.InFlight then
      some (s.put name { ctx with interval.returned := some (s.clock, retVal) })
    else none

/-- The slot at a position, and no other of the four buckets, leads a lookup
of the key to its pair. -/
def Binds (key : List UInt8) (fp : UInt8) (keyAt : Location → List UInt8) (pos : Position)
    (buckets : Buckets) : Prop :=
  isCandidate fp (buckets pos) ∧ keyAt (location (buckets pos)) = key ∧
    ∀ other, other ≠ pos → isCandidate fp (buckets other) → keyAt (location (buckets other)) ≠ key

instance (key : List UInt8) (fp : UInt8) (keyAt : Location → List UInt8) (pos : Position)
    (buckets : Buckets) : Decidable (Binds key fp keyAt pos buckets) :=
  inferInstanceAs (Decidable (_ ∧ _ ∧ _))

def IsInitial (key : List UInt8) (fp : UInt8) (pos : Position) (value : List UInt8)
    (s : System) : Prop :=
  Binds key fp (fun place => (s.memory place).key) pos s.slots ∧
    (s.memory (location (s.slots pos))).value = value ∧
    ∀ name, s.requests name = none

def Referenced (fp : UInt8) (s : System) (place : Location) : Prop :=
  (∃ pos, location (s.slots pos) = place) ∨
    ∃ name < s.clock, ∃ ctx ∈ s.requests name, ctx.InFlight ∧
      ((∃ buckets ∈ ctx.localBuckets, ∃ pos, location (buckets pos) = place) ∨
        match ctx.request with
        | .search => False
        | .update _ mmAllocCtx => location (fillSlot mmAllocCtx fp) = place)

instance (fp : UInt8) (s : System) (place : Location) :
    Decidable (Referenced fp s place) :=
  have (ctx : ReqCtx) : Decidable (match ctx.request with
      | .search => False
      | .update _ mmAllocCtx => location (fillSlot mmAllocCtx fp) = place) := by
    split <;> infer_instance
  by unfold Referenced; infer_instance

/-- Memory that is still referred to is not allocated again. -/
def NotReused (fp : UInt8) (s : System) : Event → Prop
  | .update _ mmAllocCtx => ¬ Referenced fp s (location (fillSlot mmAllocCtx fp))
  | _ => True

instance (fp : UInt8) (s : System) (event : Event) : Decidable (NotReused fp s event) := by
  unfold NotReused
  split <;> infer_instance

end FuseeFs.KeyValue
