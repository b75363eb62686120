import FuseeFs.Client.Cache
import FuseeFs.Index.Table

/-!
# The synchronous operations of a client

`kv_search_sync`, `kv_insert_sync`, `kv_update_sync` and `kv_delete_sync` of a
client that runs alone, on the memory of all servers.  The slots of the index
are found through the root of the hash table, and each slot has a copy on
`k + 1 = num_idx_rep_` replicas.
-/

namespace FuseeFs.Client

open Function Index KeyValue Replication

abbrev Words := Place → UInt64

structure Conf where
  raceRoot : RaceHashRoot
  numReplication : ℕ
  missRateExceeds : UInt32 → UInt32 → Bool

/-- Remote memory and the client's cache; `allocated` has the subblocks that
`mm_alloc` has handed out and that were not given back. -/
structure Store (k : ℕ) where
  words : Words
  pairs : Location → KVPair
  addrCache : AddrCache k
  allocated : List Location

def Store.IsInitial {k : ℕ} (store : Store k) : Prop :=
  (∀ place, store.words place = 0) ∧ (∀ name, store.addrCache name = none) ∧ store.allocated = []

def fingerprint (key : List UInt8) : UInt8 :=
  (getKvHashInfo key).fp

def readBuckets (raceRoot : RaceHashRoot) (words : Words) (key : List UInt8) : Buckets :=
  fun pos => words (raceRoot.slotAddr key 0 pos)

def findMatch (buckets : Buckets) (pairs : Location → KVPair) (key : List UInt8) :
    Option Position :=
  (findKvInBuckets (fingerprint key) buckets).find? fun pos =>
    (pairs (location (buckets pos))).key = key

/-- The compare-and-swaps for one slot: `kv_modify_pr_cas_list` at 0 and
`kv_modify_bk_0_cas_list`. -/
structure KVCASAddr (k : ℕ) where
  rKvAddr : Fin (k + 1) → Place
  origValue : UInt64
  swapValue : UInt64

def casWord (words : Words) (place : Place) (origValue swapValue : UInt64) : Words :=
  if words place = origValue then update words place swapValue else words

section Modify

variable {k : ℕ}

def casBackup (cas : KVCASAddr k) (expected : Fin k → Option UInt64)
    (done : Words × (Fin k → UInt64)) (backup : Fin k) : Words × (Fin k → UInt64) :=
  match expected backup with
  | none => done
  | some origValue =>
    (casWord done.1 (cas.rKvAddr backup.succ) origValue cas.swapValue,
      update done.2 backup (done.1 (cas.rKvAddr backup.succ)))

def casBackups (cas : KVCASAddr k) (expected : Fin k → Option UInt64) (words : Words) :
    Words × (Fin k → UInt64) :=
  (List.finRange k).foldl (casBackup cas expected) (words, fun _ => 0)

def KVCASAddr.slotCas (cas : KVCASAddr k) : SlotCas k Words where
  origValue := cas.origValue
  swapValue := cas.swapValue
  readPrimary words := words (cas.rKvAddr 0)
  casPrimary words := casWord words (cas.rKvAddr 0) cas.origValue cas.swapValue
  casBackups expected words := (casBackups cas expected words).1

/-- A request that writes; `opWord` is what its buffer holds at `op_laddr`. -/
structure WriteReq where
  key : List UInt8
  value : List UInt8
  useCache : Bool
  mmAllocCtx : ClientMMAllocCtx
  opWord : UInt64

def WriteReq.newSlot (req : WriteReq) : UInt64 :=
  fillSlot req.mmAllocCtx (fingerprint req.key)

def WriteReq.subblock (req : WriteReq) : Location :=
  (req.mmAllocCtx.serverId, req.mmAllocCtx.addr)

def writeKv (req : WriteReq) (store : Store k) : Store k :=
  { store with
    pairs := update store.pairs req.subblock ⟨true, req.key, req.value⟩
    allocated := req.subblock :: store.allocated }

def mmFreeCur (req : WriteReq) (store : Store k) : Store k :=
  { store with allocated := store.allocated.erase req.subblock }

def writeInvalid (reqType : KVRequestType) (cas : KVCASAddr k) (pairs : Location → KVPair) :
    Location → KVPair :=
  match reqType with
  | .insert => pairs
  | .update | .delete =>
    update pairs (location cas.origValue)
      { pairs (location cas.origValue) with isValid := false }

/-- The end of `modify_primary_idx_sync`, where the cache learns the new word. -/
def cacheModified (reqType : KVRequestType) (req : WriteReq) (cas : KVCASAddr k)
    (cache : AddrCache k) : AddrCache k :=
  if req.useCache then
    match reqType with
    | .insert | .update =>
      updateCache cache (keyStr req.key) cas.swapValue fun replica => (cas.rKvAddr replica).2
    | .delete => removeCache cache (keyStr req.key)
  else cache

def modifyPrimaryIdxSync (reqType : KVRequestType) (req : WriteReq) (cas : KVCASAddr k)
    (s : KVConsensusState) (store : Store k) : Store k × RetVal :=
  let (words, installed) := cas.slotCas.modifyPrimaryIdxSync s store.words
  let store :=
    { store with
      words := words
      pairs := if s = .fail then store.pairs else writeInvalid reqType cas store.pairs }
  if installed then
    ({ store with addrCache := cacheModified reqType req cas store.addrCache }, .retCode .success)
  else if reqType = .insert then (mmFreeCur req store, .retCode .failRedo)
  else (store, .retCode .success)

/-- What follows `fill_cas_addr` in `kv_insert_sync`, `kv_update_sync` and
`kv_delete_sync`.  Only an insert stops at `is_finished`. -/
def modifyIdxSync (reqType : KVRequestType) (req : WriteReq) (cas : KVCASAddr k)
    (store : Store k) : Option (Store k × RetVal) :=
  if k = 0 then some (modifyPrimaryIdxSync reqType req cas .winAll store)
  else
    let (words, swapBack) := casBackups cas (fun _ => some cas.origValue) store.words
    (cas.slotCas.modifyBackupIdxConsensus1Sync req.opWord words swapBack).map fun (s, words) =>
      if reqType = .insert ∧ s ≠ .winAll then ({ store with words := words }, .retCode .success)
      else modifyPrimaryIdxSync reqType req cas s { store with words := words }

end Modify

section Operations

variable {k : ℕ} (conf : Conf)

def remoteSlotAddr (key : List UInt8) (pos : Position) : Fin (k + 1) → Place :=
  fun replica => conf.raceRoot.slotAddr key replica pos

/-- Reads the pair that a cache entry points to, and gives the entry back if
the pair is valid and of the same key. -/
def readCachedKv (useCache : Bool) (key : List UInt8) (store : Store k) :
    Store k × Option (LocalCacheEntry k × KVPair) :=
  if useCache then
    let (cache, hit) := checkCache conf.missRateExceeds store.addrCache (keyStr key)
    match hit with
    | none => ({ store with addrCache := cache }, none)
    | some entry =>
      let pair := store.pairs (location entry.lSlotPtr)
      if pair.isValid ∧ pair.key = key then
        ({ store with addrCache := countAccess cache (keyStr key) }, some (entry, pair))
      else ({ store with addrCache := cache }, none)
  else (store, none)

/-- A search; `stack` is what stands behind the `num_replication_` entries of
`remote_slot_addr_list` in `kv_search_check_kv`. -/
structure SearchReq (k : ℕ) where
  key : List UInt8
  useCache : Bool
  stack : Fin (k + 1) → ℕ

def remoteSlotAddrList (req : SearchReq k) (pos : Position) (replica : Fin (k + 1)) : ℕ :=
  if replica.val < conf.numReplication then (remoteSlotAddr conf req.key pos replica).2
  else req.stack replica

def kvSearchSync (req : SearchReq k) (store : Store k) : Store k × RetVal :=
  let buckets := readBuckets conf.raceRoot store.words req.key
  match readCachedKv conf req.useCache req.key store with
  | (store, some (_, pair)) => (store, .value (some pair.value))
  | (store, none) =>
    match findMatch buckets store.pairs req.key with
    | none => (store, .value none)
    | some pos =>
      let pair := store.pairs (location (buckets pos))
      (if req.useCache then
        { store with
          addrCache := updateCache store.addrCache (keyStr req.key) (buckets pos)
            (remoteSlotAddrList conf req pos) }
      else store, .value (some pair.value))

def kvInsertSync (req : WriteReq) (store : Store k) : Option (Store k × RetVal) :=
  let buckets := readBuckets conf.raceRoot store.words req.key
  let info := getKvAddrInfo (getKvHashInfo req.key).hashValue
  let store := writeKv req store
  match findEmptySlot buckets info.fMainIdx info.sMainIdx with
  | none => some (mmFreeCur req store, .retCode .failReturn)
  | some pos =>
    modifyIdxSync .insert req
      { rKvAddr := remoteSlotAddr conf req.key pos
        origValue := buckets pos
        swapValue := req.newSlot } store

/-- The compare-and-swaps of an update or a delete: at the cached slot, or at
the slot a lookup finds. -/
def findCasAddr (req : WriteReq) (swapValue : UInt64) (buckets : Buckets) (store : Store k) :
    Store k × Option (KVCASAddr k) :=
  match readCachedKv conf req.useCache req.key store with
  | (store, some (entry, _)) =>
    (store, some
      { rKvAddr := fun replica =>
          ((remoteSlotAddr conf req.key 0 replica).1, entry.rSlotAddr replica)
        origValue := entry.lSlotPtr
        swapValue := swapValue })
  | (store, none) =>
    (store, (findMatch buckets store.pairs req.key).map fun pos =>
      { rKvAddr := remoteSlotAddr conf req.key pos
        origValue := buckets pos
        swapValue := swapValue })

/-- An update or a delete.  Both write a log entry, and differ in the word they
put into the slot and in what they return for a key that is not there. -/
def kvReplaceSync (reqType : KVRequestType) (notFound : KVOpsRetCode) (swapValue : UInt64)
    (req : WriteReq) (store : Store k) : Option (Store k × RetVal) :=
  let buckets := readBuckets conf.raceRoot store.words req.key
  match findCasAddr conf req swapValue buckets (writeKv req store) with
  | (store, none) => some (store, .retCode notFound)
  | (store, some cas) => modifyIdxSync reqType req cas store

def kvUpdateSync (req : WriteReq) : Store k → Option (Store k × RetVal) :=
  kvReplaceSync conf .update .failReturn req.newSlot req

def kvDeleteSync (req : WriteReq) : Store k → Option (Store k × RetVal) :=
  kvReplaceSync conf .delete .success 0 req

end Operations

inductive Operation (k : ℕ)
  | search (req : SearchReq k)
  | insert (req : WriteReq)
  | update (req : WriteReq)
  | delete (req : WriteReq)

/-- An operation returns nothing if it runs forever. -/
def exec {k : ℕ} (conf : Conf) (store : Store k) : Operation k → Option (Store k × RetVal)
  | .search req => some (kvSearchSync conf req store)
  | .insert req => kvInsertSync conf req store
  | .update req => kvUpdateSync conf req store
  | .delete req => kvDeleteSync conf req store

end FuseeFs.Client
