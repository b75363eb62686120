import FuseeFs.KeyValue.Model
import FuseeFs.Replication.Steps

/-!
# Searches and writes of one key by clients with a cache

`kv_search`, `kv_update` and `kv_delete` with `use_cache`, as any number of
clients run them on one key with any number of replicas of the index.  A client
remembers the slot of the key; a request first reads the pair that this slot
leads to, and believes it if its valid byte is set.  The byte is cleared by a
write that is posted together with the compare-and-swap of the primary slot, and
that is executed before or after it.
-/

namespace FuseeFs.KeyValue.Cached

open Function Index Library Replication

/-! ## The caches -/

/-- `LocalCacheEntry`.  The addresses of the slot are left out: nothing is
inserted, so that the key stays in its slot. -/
structure CacheEntry where
  lSlotPtr : UInt64
  missCnt : UInt32
  accCnt : UInt32
deriving DecidableEq

def CacheEntry.record (entry : CacheEntry) (slotInfo : UInt64) : CacheEntry :=
  if entry.lSlotPtr ≠ slotInfo then ⟨slotInfo, entry.missCnt + 1, entry.accCnt + 1⟩
  else { entry with accCnt := entry.accCnt + 1 }

theorem lSlotPtr_record (entry : CacheEntry) (slotInfo : UInt64) :
    (entry.record slotInfo).lSlotPtr = slotInfo := by
  unfold CacheEntry.record
  split_ifs with differs
  · rfl
  · exact not_not.mp differs

/-- The pointer in the `addr_cache_` of each client, and the entries that such
pointers refer to.  The requests of a client share its entry. -/
structure Caches where
  addrCache : ℕ → Option ℕ
  entries : ℕ → Option CacheEntry

namespace Caches

variable (caches : Caches) (client : ℕ)

/-- A missing entry is allocated at a new address. -/
def updateCache (new : ℕ) (slotInfo : UInt64) : Caches :=
  match caches.addrCache client with
  | some pointer =>
    { caches with
      entries := update caches.entries pointer
        ((caches.entries pointer).map (·.record slotInfo)) }
  | none =>
    { addrCache := update caches.addrCache client (some new)
      entries := update caches.entries new (some ⟨slotInfo, 0, 1⟩) }

/-- An entry with an empty pointer is freed; `missRateExceeds` compares the miss
rate with `miss_rate_threash_`. -/
def checkCache (missRateExceeds : UInt32 → UInt32 → Bool) : Caches × Option (ℕ × UInt64) :=
  match caches.addrCache client with
  | none => (caches, none)
  | some pointer =>
    match caches.entries pointer with
    | none => (caches, none)
    | some entry =>
      if rKvAddr entry.lSlotPtr = 0 then
        ({ addrCache := update caches.addrCache client none
           entries := update caches.entries pointer none }, none)
      else if missRateExceeds entry.missCnt entry.accCnt then (caches, none)
      else (caches, some (pointer, entry.lSlotPtr))

def removeCache : Caches :=
  { caches with addrCache := update caches.addrCache client none }

def countAccess (pointer : ℕ) : Caches :=
  { caches with
    entries := update caches.entries pointer
      ((caches.entries pointer).map fun entry => { entry with accCnt := entry.accCnt + 1 }) }

end Caches

/-! ## Requests -/

/-- What is fixed: the key, its fingerprint and its position, the slots of other
keys in the four buckets, and the test of the miss rate. -/
structure Setting where
  key : List UInt8
  fp : UInt8
  position : Position
  others : Buckets
  missRateExceeds : UInt32 → UInt32 → Bool

inductive WriteKind
  | update
  | delete
deriving DecidableEq, Repr

/-- An update or a delete.  The log entry of a delete has the key as well; its
`value` is whatever a reader would take for it. -/
structure Write where
  kind : WriteKind
  value : List UInt8
  mmAllocCtx : ClientMMAllocCtx
deriving DecidableEq

namespace Write

variable (write : Write) (fp : UInt8)

def reqType : KVRequestType :=
  match write.kind with
  | .update => .update
  | .delete => .delete

def ownSlot : UInt64 :=
  fillSlot write.mmAllocCtx fp

def swapValue : UInt64 :=
  match write.kind with
  | .update => write.ownSlot fp
  | .delete => 0

def newValue : Option (List UInt8) :=
  match write.kind with
  | .update => some write.value
  | .delete => none

end Write

inductive Request
  | search
  | write (write : Write)
deriving DecidableEq

variable {k : ℕ}

structure ReqCtx (k : ℕ) where
  client : ℕ
  request : Request
  invoked : ℕ
  /-- `cache_entry`, and the slot whose pair is read from the cache. -/
  cacheEntry : Option (ℕ × UInt64)
  localCache : Option KVPair
  localBuckets : Option Buckets
  kvBuffers : Position → Option KVPair
  kvWritten : Bool
  cas : Option (KVReqCtx k)
  casDone : Bool
  invalidated : Bool
  returned : Option (ℕ × RetVal)

namespace ReqCtx

def start (client : ℕ) (request : Request) (now : ℕ) (cacheEntry : Option (ℕ × UInt64)) :
    ReqCtx k where
  client := client
  request := request
  invoked := now
  cacheEntry := cacheEntry
  localCache := none
  localBuckets := none
  kvBuffers := fun _ => none
  kvWritten := false
  cas := none
  casDone := false
  invalidated := false
  returned := none

variable (setting : Setting) (ctx : ReqCtx k)

def InFlight : Prop :=
  ctx.returned = none

instance : Decidable ctx.InFlight :=
  decidable_of_iff (ctx.returned.isNone) Option.isNone_iff_eq_none

def kvIdxList : List Position :=
  (ctx.localBuckets.map (findKvInBuckets setting.fp)).getD []

def firstBatch : Bool :=
  ctx.localBuckets.isSome && (ctx.cacheEntry.isNone || ctx.localCache.isSome) &&
    match ctx.request with
    | .search => true
    | .write _ => ctx.kvWritten

def holdsCachedKv : Bool :=
  ctx.localCache.any fun pair => pair.isValid ∧ pair.key = setting.key

/-- The second batch is complete; there is none if the cached pair is taken. -/
def kvsRead : Bool :=
  ctx.firstBatch && !ctx.holdsCachedKv setting &&
    (ctx.kvIdxList setting).all fun position => (ctx.kvBuffers position).isSome

def findMatchKvIdx : Option Position :=
  (ctx.kvIdxList setting).find? fun position =>
    (ctx.kvBuffers position).any fun pair => pair.key = setting.key

/-- The slot that a write expects in the index.  After a hit in the cache it is
taken from the entry, which other requests of the client may have changed since.
A match at another position than that of the key does not occur. -/
def oldSlot (caches : Caches) : Option UInt64 :=
  if ctx.firstBatch ∧ ctx.holdsCachedKv setting then
    ctx.cacheEntry.bind fun cached => (caches.entries cached.1).map CacheEntry.lSlotPtr
  else if ctx.kvsRead setting ∧ ctx.findMatchKvIdx setting = some setting.position then
    ctx.localBuckets.map fun buckets => buckets setting.position
  else none

def searchResult : Option RetVal :=
  if ctx.firstBatch ∧ ctx.holdsCachedKv setting then
    some (.value (ctx.localCache.map KVPair.value))
  else if ctx.kvsRead setting then
    some (.value ((ctx.findMatchKvIdx setting).bind fun position =>
      (ctx.kvBuffers position).map KVPair.value))
  else none

/-- What an update or a delete returns: one that does not find the key at once,
any other when its compare-and-swaps are over and, if it has got to the primary
slot, the old pair is invalid. -/
def writeResult (write : Write) : Option RetVal :=
  match ctx.cas with
  | none =>
    if ctx.kvsRead setting ∧ ctx.findMatchKvIdx setting = none then
      match write.kind with
      | .update => some (.retCode .failReturn)
      | .delete => some (.retCode .success)
    else none
  | some cas =>
    if cas.phase = .finished ∧ (ctx.casDone → ctx.invalidated) then some (.retCode cas.retCode)
    else none

def retVal : Option RetVal :=
  match ctx.request with
  | .search => ctx.searchResult setting
  | .write write => ctx.writeResult setting write

def leaveCache (new : ℕ) (caches : Caches) : Caches :=
  match ctx.request with
  | .search =>
    if ctx.holdsCachedKv setting then
      (ctx.cacheEntry.map fun cached => caches.countAccess cached.1).getD caches
    else
      match ctx.findMatchKvIdx setting, ctx.localBuckets with
      | some position, some buckets => caches.updateCache ctx.client new (buckets position)
      | _, _ => caches
  | .write write =>
    if ctx.cas.any (·.prSwapped) then
      match write.kind with
      | .update => caches.updateCache ctx.client new (write.swapValue setting.fp)
      | .delete => caches.removeCache ctx.client
    else caches

end ReqCtx

/-! ## The system -/

def actAlone (slot : SlotSystem k) (cas : KVReqCtx k) (action : Action k) :
    Option (SlotSystem k × KVReqCtx k) := do
  let after ← SlotSystem.act { slot with ops := [cas] } 0 cas action
  let next ← after.ops.head?
  some ({ after with ops := [] }, next)

def isCasPrimary : Action k → Bool
  | .casPrimary => true
  | _ => false

/-- Requests are named by the time of their invocation.  Two fields are history
variables: the value of the key in each version of the primary slot, and when
the version was replaced. -/
structure System (k : ℕ) where
  slot : SlotSystem k
  memory : Location → KVPair
  caches : Caches
  requests : ℕ → Option (ReqCtx k)
  clock : ℕ
  valueOf : ℕ → Option (List UInt8)
  replacedAt : ℕ → Option ℕ

namespace System

def put (s : System k) (name : ℕ) (ctx : ReqCtx k) : System k :=
  { s with
    requests := update s.requests name (some ctx)
    clock := s.clock + 1 }

def invoke (setting : Setting) (s : System k) (client : ℕ) (request : Request) : System k :=
  let checked := s.caches.checkCache client setting.missRateExceeds
  { s with caches := checked.1 }.put s.clock
    (.start client request s.clock checked.2)

def buckets (setting : Setting) (s : System k) : Buckets :=
  update setting.others setting.position s.slot.primary

def replace (s : System k) (value : Option (List UInt8)) : System k :=
  { s with
    valueOf := update s.valueOf (s.slot.version + 1) value
    replacedAt := update s.replacedAt s.slot.version (some s.clock) }

end System

inductive Event (k : ℕ)
  | invoke (client : ℕ) (request : Request)
  | readCache (name : ℕ)
  | readBuckets (name : ℕ)
  | writeKv (name : ℕ)
  | readKv (name : ℕ) (position : Position)
  | fillCasAddr (name : ℕ)
  | act (name : ℕ) (action : Action k)
  | writeInvalid (name : ℕ)
  | respond (name : ℕ)

def step (setting : Setting) (s : System k) : Event k → Option (System k)
  | .invoke client request => some (s.invoke setting client request)
  | .readCache name => do
    let ctx ← s.requests name
    let cached ← ctx.cacheEntry
    if ctx.InFlight ∧ ctx.localCache.isNone then
      some (s.put name { ctx with localCache := some (s.memory (location cached.2)) })
    else none
  | .readBuckets name => do
    let ctx ← s.requests name
    if ctx.InFlight ∧ ctx.localBuckets.isNone then
      some (s.put name { ctx with localBuckets := some (s.buckets setting) })
    else none
  | .writeKv name => do
    let ctx ← s.requests name
    match ctx.request with
    | .search => none
    | .write write =>
      if ctx.InFlight ∧ ctx.kvWritten = false then
        let written := update s.memory (location (write.ownSlot setting.fp))
          ⟨true, setting.key, write.value⟩
        some ({ s with memory := written }.put name { ctx with kvWritten := true })
      else none
  | .readKv name position => do
    let ctx ← s.requests name
    let buckets ← ctx.localBuckets
    if ctx.InFlight ∧ ctx.firstBatch ∧ ctx.holdsCachedKv setting = false ∧
        isCandidate setting.fp (buckets position) ∧ (ctx.kvBuffers position).isNone then
      let pair := s.memory (location (buckets position))
      some (s.put name { ctx with kvBuffers := update ctx.kvBuffers position (some pair) })
    else none
  | .fillCasAddr name => do
    let ctx ← s.requests name
    let oldSlot ← ctx.oldSlot setting s.caches
    match ctx.request with
    | .search => none
    | .write write =>
      if ctx.InFlight ∧ ctx.cas.isNone then
        -- the fiber functions do not look at `op_laddr`
        let cas := KVReqCtx.start write.reqType .async oldSlot (write.swapValue setting.fp) 0
          s.slot.version
        let caches :=
          if ctx.holdsCachedKv setting then
            (ctx.cacheEntry.map fun cached => s.caches.countAccess cached.1).getD
              s.caches
          else s.caches
        some ({ s with caches := caches }.put name { ctx with cas := some cas })
      else none
  | .act name action => do
    let ctx ← s.requests name
    let cas ← ctx.cas
    let (slot, next) ← actAlone s.slot cas action
    match ctx.request with
    | .search => none
    | .write write =>
      if ctx.InFlight then
        let after := { ctx with cas := some next, casDone := ctx.casDone || isCasPrimary action }
        if isCasPrimary action ∧ s.slot.primary = cas.origValue then
          some ({ s.replace write.newValue with slot := slot }.put name after)
        else some ({ s with slot := slot }.put name after)
      else none
  | .writeInvalid name => do
    let ctx ← s.requests name
    let cas ← ctx.cas
    if ctx.InFlight ∧ ctx.invalidated = false ∧ (cas.phase = .casPrimary ∨ ctx.casDone) then
      let invalid := { s.memory (location cas.origValue) with isValid := false }
      some ({ s with
        memory := update s.memory (location cas.origValue) invalid }.put name
        { ctx with invalidated := true })
    else none
  | .respond name => do
    let ctx ← s.requests name
    let retVal ← ctx.retVal setting
    if ctx.InFlight then
      some ({ s with caches := ctx.leaveCache setting name s.caches }.put name
        { ctx with returned := some (s.clock, retVal) })
    else none

/-! ## The property and the environment -/

namespace System

def ReplacedBefore (s : System k) (version time : ℕ) : Prop :=
  ∃ replaced, s.replacedAt version = some replaced ∧ replaced < time

/-- A value that the key had in some version not replaced before a time. -/
def Current (s : System k) (time : ℕ) (value : List UInt8) : Prop :=
  ∃ version ≤ s.slot.version, s.valueOf version = some value ∧ ¬ s.ReplacedBefore version time

end System

def ReqCtx.Succeeded (ctx : ReqCtx k) (time : ℕ) : Prop :=
  (∃ value, ctx.returned = some (time, .value (some value))) ∨
    ctx.returned = some (time, .retCode .success)

/-- A search that starts after another request has succeeded does not return a
value that had been replaced by then. -/
def ReadsForward (s : System k) : Prop :=
  ∀ first earlier second later time, s.requests first = some earlier →
    s.requests second = some later → earlier.Succeeded time → later.request = .search →
    time < later.invoked → ∀ returned value, later.returned = some (returned, .value (some value)) →
    s.Current time value

/-- The key is in its slot, and in no other; nobody is accessing it.  What is
cached is the present slot. -/
structure IsInitial (setting : Setting) (s : System k) : Prop where
  agreed : s.slot = .initial k s.slot.primary
  candidate : isCandidate setting.fp s.slot.primary
  keyed : (s.memory (location s.slot.primary)).key = setting.key
  value : s.valueOf 0 = some (s.memory (location s.slot.primary)).value
  unreplaced : ∀ version, s.replacedAt version = none
  others : ∀ other, other ≠ setting.position → isCandidate setting.fp (setting.others other) →
    (s.memory (location (setting.others other))).key ≠ setting.key
  cached : ∀ pointer entry, s.caches.entries pointer = some entry →
    pointer < s.clock ∧ entry.lSlotPtr = s.slot.primary
  idle : ∀ name, s.requests name = none

namespace ReqCtx

variable (setting : Setting) (ctx : ReqCtx k)

def RefersTo (place : Location) : Prop :=
  (∃ cached ∈ ctx.cacheEntry, location cached.2 = place) ∨
    (∃ buckets ∈ ctx.localBuckets, ∃ position, location (buckets position) = place) ∨
    ∃ cas ∈ ctx.cas, location cas.origValue = place

def Owns (place : Location) : Prop :=
  match ctx.request with
  | .search => False
  | .write write => location (write.ownSlot setting.fp) = place

/-- A write that has swapped a word out of the primary slot and has not cleared
the valid byte of its pair. -/
def InWindow (word : UInt64) : Prop :=
  ctx.InFlight ∧ ctx.invalidated = false ∧ ∃ cas ∈ ctx.cas, cas.prSwapped ∧ cas.origValue = word

instance (place : Location) : Decidable (ctx.RefersTo place) :=
  inferInstanceAs (Decidable (_ ∨ _ ∨ _))

instance (place : Location) : Decidable (ctx.Owns setting place) := by
  unfold Owns
  split <;> infer_instance

instance (word : UInt64) : Decidable (ctx.InWindow word) :=
  inferInstanceAs (Decidable (_ ∧ _ ∧ _))

end ReqCtx

namespace System

variable (setting : Setting) (s : System k)

/-- Memory that the index or a cache refers to.  The null address is never used. -/
def Shared (place : Location) : Prop :=
  location 0 = place ∨ location s.slot.primary = place ∨
    (∃ position, location (setting.others position) = place) ∨
    ∃ pointer < s.clock, ∃ entry ∈ s.caches.entries pointer, location entry.lSlotPtr = place

def Referenced (place : Location) : Prop :=
  s.Shared setting place ∨ ∃ name < s.clock, ∃ ctx ∈ s.requests name,
    ctx.InFlight ∧ (ctx.RefersTo place ∨ ctx.Owns setting place)

/-- Some write has swapped the word out of the primary slot and has not cleared
the valid byte of its pair. -/
def InWindow (word : UInt64) : Prop :=
  ∃ name < s.clock, ∃ ctx ∈ s.requests name, ctx.InWindow word

instance (place : Location) : Decidable (s.Shared setting place) :=
  inferInstanceAs (Decidable (_ ∨ _ ∨ _ ∨ _))

instance (place : Location) : Decidable (s.Referenced setting place) :=
  inferInstanceAs (Decidable (_ ∨ _))

instance (word : UInt64) : Decidable (s.InWindow word) :=
  inferInstanceAs (Decidable (∃ name < s.clock, _))

end System

/-- Memory that is referred to is not allocated again. -/
def NotReused (setting : Setting) (s : System k) : Event k → Prop
  | .invoke _ (.write write) => ¬ s.Referenced setting (location (write.ownSlot setting.fp))
  | _ => True

/-- No search reads a pair from the cache between the compare-and-swap that
replaces it and the write that invalidates it. -/
def OutsideWindow (s : System k) : Event k → Prop
  | .readCache name => ∀ ctx ∈ s.requests name, ctx.request = .search →
      ∀ cached ∈ ctx.cacheEntry, ¬ s.InWindow cached.2
  | _ => True

def Permitted (setting : Setting) (s : System k) (event : Event k) : Prop :=
  NotReused setting s event ∧ OutsideWindow s event

instance (setting : Setting) (s : System k) : (event : Event k) →
    Decidable (NotReused setting s event)
  | .invoke _ (.write write) => inferInstanceAs (Decidable
      (¬ s.Referenced setting (location (write.ownSlot setting.fp))))
  | .invoke _ .search | .readCache _ | .readBuckets _ | .writeKv _ | .readKv _ _ | .fillCasAddr _
    | .act _ _ | .writeInvalid _ | .respond _ => inferInstanceAs (Decidable True)

instance (s : System k) : (event : Event k) → Decidable (OutsideWindow s event)
  | .readCache name => inferInstanceAs (Decidable (∀ ctx ∈ s.requests name, _))
  | .invoke _ _ | .readBuckets _ | .writeKv _ | .readKv _ _ | .fillCasAddr _ | .act _ _
    | .writeInvalid _ | .respond _ => inferInstanceAs (Decidable True)

instance (setting : Setting) (s : System k) (event : Event k) :
    Decidable (Permitted setting s event) :=
  inferInstanceAs (Decidable (_ ∧ _))

end FuseeFs.KeyValue.Cached
