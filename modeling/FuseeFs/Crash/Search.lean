import FuseeFs.Client.Refinement
import FuseeFs.Crash.Copies
import FuseeFs.Crash.Lookup

/-!
# Searches after a crash of memory servers

Any number of clients use the store, one operation after the other.  When some
of the servers have crashed, a client that still has cached addresses runs
`kv_search_on_crash`, which may turn a cached address into that of a backup copy.
-/

namespace FuseeFs.Crash

open Function List Option Client Index KeyValue Library

/-! ## The search -/

structure CrashedSearch (k : ℕ) where
  req : SearchReq k
  subblockSz : ℕ
  subblockSz_pos : 0 < subblockSz
  subblockSz_lt : subblockSz < 2 ^ 24
  serverCrashMap : UInt8 → Bool
  ctx : LookupCtx
  /-- What the local buffer holds after a read that does not fill it with the pair
  of the candidate's slot. -/
  localBuf : Candidate → KVPair

section Search

variable {k : ℕ} (conf : Conf) (blocks : DataBlocks) (search : CrashedSearch k)

def CrashedSearch.serverIdList (replica : ℕ) : UInt8 :=
  (conf.raceRoot.slotAddr search.req.key replica 0).1

def CrashedSearch.Survives : Prop :=
  ∃ replica < k + 1, search.serverCrashMap (search.serverIdList conf replica) = false

instance : Decidable (search.Survives conf) :=
  inferInstanceAs (Decidable (∃ replica < k + 1, _))

def CrashedSearch.replicas (survives : search.Survives conf) : Replicas where
  numReplication := conf.numReplication
  numIdxRep := k + 1
  subblockSz := search.subblockSz
  subblockSz_pos := search.subblockSz_pos
  subblockSz_lt := search.subblockSz_lt
  serverIdList := search.serverIdList conf
  serverCrashMap := search.serverCrashMap
  survives := survives

def CrashedSearch.failedPrIndex : Bool :=
  search.serverCrashMap (search.serverIdList conf 0)

def CrashedSearch.buckets (store : Store k) (replica : ℕ) : Buckets := fun pos =>
  store.words (remoteSlotAddr conf search.req.key pos (Fin.ofNat (k + 1) replica))

def CrashedSearch.readCachedKv (store : Store k) : Option (AddrCache k × Option KVPair) :=
  if search.req.useCache then
    let name := keyStr search.req.key
    match checkCache conf.missRateExceeds store.addrCache name with
    | (cache, none) => some (cache, none)
    | (cache, some entry) =>
      (checkFailedCache blocks search.serverCrashMap entry.lSlotPtr).map fun healthySlot =>
        let cache := update cache name (some { entry with lSlotPtr := healthySlot })
        let pair := store.pairs (location healthySlot)
        if pair.isValid ∧ pair.key = search.req.key then (countAccess cache name, some pair)
        else (cache, none)
  else some (store.addrCache, none)

/-- `check_failed_data`.  The client never fills `meta_addr_info_`, so that a
candidate on a crashed server leads it to a null pointer. -/
def CrashedSearch.checkFailedData (found : List Candidate) : Option (List Candidate) :=
  if found.any fun candidate => search.serverCrashMap candidate.1.serverId then none
  else some found

def CrashedSearch.readKv (store : Store k) (buckets : Buckets) (candidate : Candidate) :
    Option KVPair :=
  if candidate.1 = .zero then none
  else if candidate.1 = readAddr search.subblockSz (buckets candidate.2) then
    some (store.pairs (location (buckets candidate.2)))
  else some (search.localBuf candidate)

def findMatchKvIdx (read : Candidate → Option KVPair) (key : List UInt8) :
    List Candidate → Option (Option (Candidate × KVPair))
  | [] => some none
  | candidate :: rest =>
    match read candidate with
    | none => none
    | some pair =>
      if pair.key = key then some (some (candidate, pair)) else findMatchKvIdx read key rest

def CrashedSearch.findKv (survives : search.Survives conf) (store : Store k) :
    Option (List Candidate) :=
  if search.failedPrIndex conf then
    findKvInBucketsOnCrash (search.replicas conf survives) search.ctx (fingerprint search.req.key)
      (search.buckets conf store)
  else some (candidates search.subblockSz (fingerprint search.req.key) (search.buckets conf store 0))

def kvSearchOnCrash (survives : search.Survives conf) (store : Store k) :
    Option (AddrCache k × RetVal) :=
  match search.readCachedKv conf blocks store with
  | none => none
  | some (cache, some pair) => some (cache, .value (some pair.value))
  | some (cache, none) =>
    -- the local buckets are those of the first replica that was read
    let buckets := search.buckets conf store
      ((search.replicas conf survives).checkFailedIndex.headD 0)
    ((search.findKv conf survives store).bind search.checkFailedData).bind fun found =>
      (findMatchKvIdx (search.readKv store buckets) search.req.key found).map fun
        | none => (cache, .value none)
        | some (candidate, pair) =>
          (if search.req.useCache then
            updateCache cache (keyStr search.req.key) (buckets candidate.2)
              (remoteSlotAddrList conf search.req candidate.2)
          else cache, .value (some pair.value))

/-- If the cached pair is read from a backup copy, the primary copy has not been
invalidated. -/
def CrashedSearch.CachedPairValid (store : Store k) : Prop :=
  search.req.useCache →
    ∀ entry ∈ (checkCache conf.missRateExceeds store.addrCache (keyStr search.req.key)).2,
      ∀ copy ∈ (checkFailedCache blocks search.serverCrashMap entry.lSlotPtr).map location,
        ∀ place ∈ store.allocated, copy ∈ blocks.copies place → (store.pairs place).isValid

/-- A lookup in the index backups starts with empty lists, and subblocks have the
size that it takes them to have. -/
def CrashedSearch.FreshLookup : Prop :=
  search.failedPrIndex conf → search.ctx.found = [] ∧ search.subblockSz = 256

instance (store : Store k) : Decidable (search.CachedPairValid conf blocks store) :=
  inferInstanceAs (Decidable (_ → ∀ entry ∈ _, ∀ copy ∈ _, ∀ place ∈ _, _ → _))

instance : Decidable (search.FreshLookup conf) :=
  inferInstanceAs (Decidable (_ → _ ∧ _))

end Search

/-! ## Clients with caches of their own -/

/-- The memory of all servers, with the backup blocks, and the clients' caches. -/
structure System (Client : Type) (k : ℕ) where
  words : Words
  pairs : Location → KVPair
  allocated : List Location
  addrCache : Client → AddrCache k

inductive Event (Client : Type) (k : ℕ)
  | operate (client : Client) (op : Operation k)
  | searchOnCrash (client : Client) (search : CrashedSearch k)

def writeReq {k : ℕ} : Operation k → Option WriteReq
  | .search _ => none
  | .insert req | .update req | .delete req => some req

/-- The requests that take the slot of their key from the cache. -/
def replaceReq {k : ℕ} : Operation k → Option WriteReq
  | .search _ | .insert _ => none
  | .update req | .delete req => some req

section Runs

variable {Client : Type} {k : ℕ}

def System.view (system : System Client k) (client : Client) : Store k where
  words := system.words
  pairs := system.pairs
  addrCache := system.addrCache client
  allocated := system.allocated

def writeCopies (blocks : DataBlocks) (req : WriteReq) (store : Store k) : Store k :=
  { store with
    pairs := fun place =>
      if (blocks.copies req.subblock).contains place then ⟨true, req.key, req.value⟩
      else store.pairs place }

variable {req : WriteReq} {place : Location}

theorem pairs_writeCopies {blocks : DataBlocks} (store : Store k)
    (isCopy : place ∈ blocks.copies req.subblock) :
    (writeCopies blocks req store).pairs place = ⟨true, req.key, req.value⟩ :=
  if_pos (contains_iff_mem.mpr isCopy)

theorem pairs_writeCopies_of_not_mem {blocks : DataBlocks} (store : Store k)
    (other : place ∉ blocks.copies req.subblock) :
    (writeCopies blocks req store).pairs place = store.pairs place :=
  if_neg fun isCopy => other (contains_iff_mem.mp isCopy)

def writeBackups (blocks : DataBlocks) (op : Operation k) (store : Store k) : Store k :=
  match writeReq op with
  | none => store
  | some req => writeCopies blocks req store

variable [DecidableEq Client] (conf : Conf) (blocks : DataBlocks)

def System.put (system : System Client k) (client : Client) (store : Store k) : System Client k where
  words := store.words
  pairs := store.pairs
  allocated := store.allocated
  addrCache := update system.addrCache client store.addrCache

def step (system : System Client k) : Event Client k → Option (System Client k)
  | .operate client op =>
    (exec conf (writeBackups blocks op (system.view client)) op).map fun result =>
      system.put client result.1
  | .searchOnCrash client search =>
    if survives : search.Survives conf then
      (kvSearchOnCrash conf blocks search survives (system.view client)).map fun result =>
        system.put client { system.view client with addrCache := result.1 }
    else none

/-- Operations on proper keys, with memory of primary blocks that is not in use.
Only absent keys are inserted, and an update or a delete does not go through a
cache entry that leads to a backup copy. -/
def Permitted (system : System Client k) : Event Client k → Prop
  | .operate client op =>
    Allowed conf (system.view client) op ∧
      (∀ req ∈ writeReq op, blocks.IsPrimary req.subblock) ∧
      ∀ req ∈ replaceReq op, req.useCache →
        ∀ entry ∈ system.addrCache client req.key, blocks.IsPrimary (location entry.lSlotPtr)
  | .searchOnCrash _ search => IsKey search.req.key ∧ search.FreshLookup conf

instance (system : System Client k) (event : Event Client k) :
    Decidable (Permitted conf blocks system event) :=
  match event with
  | .operate _ _ => inferInstanceAs (Decidable (_ ∧ _ ∧ ∀ req ∈ _, _ → ∀ entry ∈ _, _))
  | .searchOnCrash _ _ => inferInstanceAs (Decidable (_ ∧ _))

def System.IsInitial (system : System Client k) : Prop :=
  (∀ place, system.words place = 0) ∧ (∀ client name, system.addrCache client name = none) ∧
    system.allocated = []

/-! ## The copies of what is stored -/

/-- The entry is good, or would be if it led to the primary copy of its pair. -/
def EntryRedirected (store : Store k) (key : List UInt8) (lSlotPtr : UInt64)
    (rSlotAddr : Fin (k + 1) → ℕ) : Prop :=
  ∃ word, blocks.LeadsToCopy word lSlotPtr ∧ EntryGood conf store key word rSlotAddr

/-- The store is consistent, and the backups have what was written to the
primaries.  Their valid bytes are never cleared. -/
structure Replicated (system : System Client k) : Prop where
  consistent : ∀ client, Consistent conf (system.view client)
  cached : ∀ client key, ∀ entry ∈ system.addrCache client key,
    EntryRedirected conf blocks (system.view client) key entry.lSlotPtr entry.rSlotAddr
  primary : ∀ place ∈ system.allocated, blocks.IsPrimary place
  copied : ∀ place ∈ system.allocated, ∀ copy ∈ blocks.copies place,
    system.pairs copy = ⟨true, (system.pairs place).key, (system.pairs place).value⟩

variable {conf blocks} {system after : System Client k} {client : Client}

omit [DecidableEq Client] in
theorem replicated_of_isInitial (isInitial : system.IsInitial) : Replicated conf blocks system where
  consistent _ := consistent_of_empty isInitial.1
  cached client key entry present := by
    rw [isInitial.2.1] at present
    cases present
  primary place inUse := by
    rw [isInitial.2.2] at inUse
    cases inUse
  copied place inUse := by
    rw [isInitial.2.2] at inUse
    cases inUse

omit [DecidableEq Client] in
theorem Replicated.copy_not_allocated (replicated : Replicated conf blocks system) {copy : Location}
    (isCopy : copy ∈ blocks.copies place) : copy ∉ system.allocated :=
  fun inUse => DataBlocks.not_isPrimary_of_mem_copies isCopy (replicated.primary copy inUse)

omit [DecidableEq Client] in
theorem Replicated.backed (replicated : Replicated conf blocks system) (client : Client)
    (req : WriteReq) :
    Consistent conf (writeCopies blocks req (system.view client)) ∧
      KeepsEntries conf (system.view client) (writeCopies blocks req (system.view client)) ∧
      (writeCopies blocks req (system.view client)).contents conf =
        (system.view client).contents conf :=
  (replicated.consistent client).of_agree _ rfl (List.Subset.refl _) fun _ inUse =>
    pairs_writeCopies_of_not_mem _ fun isCopy => replicated.copy_not_allocated isCopy inUse

variable {store : Store k}

omit [DecidableEq Client] in
theorem Replicated.copied_of_preserves (replicated : Replicated conf blocks system)
    (primary : blocks.IsPrimary req.subblock) (fresh : req.subblock ∉ system.allocated)
    (preserves : Preserves conf (writeCopies blocks req (system.view client)) store req)
    (inUse : place ∈ store.allocated) {copy : Location} (isCopy : copy ∈ blocks.copies place) :
    store.pairs copy = ⟨true, (store.pairs place).key, (store.pairs place).value⟩ := by
  have notOwn : copy ≠ req.subblock := fun same =>
    DataBlocks.not_isPrimary_of_mem_copies isCopy (same ▸ primary)
  rw [preserves.elsewhere copy (replicated.copy_not_allocated isCopy) notOwn]
  obtain rfl | before := preserves.allocated place inUse
  · rw [pairs_writeCopies _ isCopy, preserves.written.1, preserves.written.2]
  · have otherCopy : copy ∉ blocks.copies req.subblock := fun own =>
      fresh (DataBlocks.eq_of_mem_copies isCopy own ▸ before)
    have notCopy : place ∉ blocks.copies req.subblock := fun own =>
      replicated.copy_not_allocated own before
    obtain ⟨key, value⟩ := preserves.inUse place before
    rw [key, value, pairs_writeCopies_of_not_mem _ otherCopy,
      pairs_writeCopies_of_not_mem _ notCopy]
    exact replicated.copied place before copy isCopy

theorem entryRedirected_of_entryGood {key : List UInt8} {lSlotPtr : UInt64}
    {rSlotAddr : Fin (k + 1) → ℕ} (good : EntryGood conf store key lSlotPtr rSlotAddr) :
    EntryRedirected conf blocks store key lSlotPtr rSlotAddr :=
  ⟨lSlotPtr, leadsToCopy_self blocks lSlotPtr, good⟩

theorem Replicated.cached_put (replicated : Replicated conf blocks system)
    (kept : KeepsEntries conf (system.view client) store)
    (learns : Learns (EntryRedirected conf blocks store) (system.addrCache client) store.addrCache)
    (other : Client) (key : List UInt8) (entry : LocalCacheEntry k)
    (present : entry ∈ (system.put client store).addrCache other key) :
    EntryRedirected conf blocks store key entry.lSlotPtr entry.rSlotAddr := by
  have before (name : Client) (key : List UInt8) (entry : LocalCacheEntry k)
      (old : entry ∈ system.addrCache name key) :
      EntryRedirected conf blocks store key entry.lSlotPtr entry.rSlotAddr := by
    obtain ⟨word, leads, good⟩ := replicated.cached name key entry old
    exact ⟨word, leads, kept key word _ good⟩
  by_cases same : other = client
  · have own : (system.put client store).addrCache other = store.addrCache := by
      rw [same]
      exact update_self ..
    rw [own] at present
    exact learns.forall (before client) present
  · have unchanged : (system.put client store).addrCache other = system.addrCache other :=
      update_of_ne same ..
    rw [unchanged] at present
    exact before other key entry present

theorem Replicated.putCache (replicated : Replicated conf blocks system) {cache : AddrCache k}
    (learns : Learns (EntryRedirected conf blocks (system.view client)) (system.addrCache client)
      cache) :
    Replicated conf blocks
      (system.put client { system.view client with addrCache := cache }) where
  consistent _ := (replicated.consistent client).withCache _
  cached := replicated.cached_put (fun _ _ _ => id) learns
  primary := replicated.primary
  copied := replicated.copied

theorem Replicated.put (replicated : Replicated conf blocks system)
    (primary : blocks.IsPrimary req.subblock) (fresh : req.subblock ∉ system.allocated)
    (consistent : Consistent conf store)
    (preserves : Preserves conf (writeCopies blocks req (system.view client)) store req) :
    Replicated conf blocks (system.put client store) where
  consistent _ := consistent.withCache _
  cached := by
    obtain ⟨-, backed, -⟩ := replicated.backed client req
    refine replicated.cached_put ?_
      (preserves.learns.trans (.refl _ _) fun _ _ _ => entryRedirected_of_entryGood)
    exact fun key word addresses good => preserves.entries _ _ _ (backed key word addresses good)
  primary place inUse :=
    (preserves.allocated place inUse).elim (fun same => same ▸ primary) (replicated.primary place)
  copied _ inUse _ isCopy := replicated.copied_of_preserves primary fresh preserves inUse isCopy

end Runs

/-! ## What the search returns and caches -/

section Results

variable {k : ℕ} {conf : Conf} {blocks : DataBlocks} {search : CrashedSearch k} {Client : Type}
  {system : System Client k} {client : Client}

theorem Replicated.contents_of_leadsToCopy (replicated : Replicated conf blocks system)
    {key : List UInt8} {word healthySlot : UInt64} {rSlotAddr : Fin (k + 1) → ℕ}
    (good : EntryGood conf (system.view client) key word rSlotAddr)
    (leads : blocks.LeadsToCopy word healthySlot)
    (current : ∀ place ∈ system.allocated, location healthySlot ∈ blocks.copies place →
      (system.pairs place).isValid)
    (readValid : (system.pairs (location healthySlot)).isValid)
    (same : (system.pairs (location healthySlot)).key = key) :
    (system.view client).contents conf key = some (system.pairs (location healthySlot)).value := by
  have consistent := replicated.consistent client
  obtain primary | isCopy := mem_cons.mp leads.1
  · rw [primary] at readValid same ⊢
    exact consistent.contents_of_entryGood good readValid same
  · have copied := replicated.copied _ good.1 _ isCopy
    rw [copied] at same ⊢
    exact consistent.contents_of_entryGood good (current _ good.1 isCopy) same

theorem Replicated.readCachedKv_spec (replicated : Replicated conf blocks system)
    (isKey : IsKey search.req.key) {cache : AddrCache k} {hit : Option KVPair}
    (read : search.readCachedKv conf blocks (system.view client) = some (cache, hit)) :
    Learns (EntryRedirected conf blocks (system.view client)) (system.addrCache client) cache ∧
      (search.CachedPairValid conf blocks (system.view client) → ∀ pair ∈ hit,
        (system.view client).contents conf search.req.key = some pair.value) := by
  rw [CrashedSearch.readCachedKv] at read
  split_ifs at read with useCache
  · unfold CrashedSearch.CachedPairValid
    rw [keyStr_eq_self isKey.2] at read ⊢
    dsimp only at read
    have learns := learns_checkCache (EntryRedirected conf blocks (system.view client))
      conf.missRateExceeds (system.view client).addrCache search.req.key
    have present := mem_of_checkCache conf.missRateExceeds (system.view client).addrCache
      search.req.key
    cases checked : checkCache conf.missRateExceeds (system.view client).addrCache
        search.req.key with
    | mk left found =>
    rw [checked] at learns present read
    cases found with
    | none =>
      obtain ⟨rfl, rfl⟩ := Prod.mk.inj (some.inj read)
      exact ⟨learns, by simp⟩
    | some entry =>
      obtain ⟨word, leads, good⟩ := replicated.cached client _ entry (present entry rfl)
      obtain ⟨healthySlot, redirected, outcome⟩ := map_eq_some_iff.mp read
      have leads := leads.checkFailedCache (replicated.primary _ good.1) redirected
      have learns : Learns (EntryRedirected conf blocks (system.view client))
          (system.addrCache client) (update left search.req.key
            (some { entry with lSlotPtr := healthySlot })) :=
        learns.update fun new same => some.inj same ▸ .inl ⟨word, leads, good⟩
      split_ifs at outcome with readable <;> obtain ⟨rfl, rfl⟩ := Prod.mk.inj outcome
      · refine ⟨learns.countAccess, fun valid pair same => ?_⟩
        rw [← some.inj same]
        exact replicated.contents_of_leadsToCopy good leads
          (valid useCache entry rfl _ (Option.mem_map_of_mem _ redirected))
          readable.1 readable.2
      · exact ⟨learns, by simp⟩
  · obtain ⟨rfl, rfl⟩ := Prod.mk.inj (some.inj read)
    exact ⟨.refl _ _, by simp⟩

variable {found : List Candidate} {candidate : Candidate}

theorem of_findMatchKvIdx {read : Candidate → Option KVPair} {key : List UInt8} {pair : KVPair}
    (matched : findMatchKvIdx read key found = some (some (candidate, pair))) :
    candidate ∈ found ∧ read candidate = some pair ∧ pair.key = key := by
  induction found with
  | nil => simp [findMatchKvIdx] at matched
  | cons first rest ih =>
    rw [findMatchKvIdx] at matched
    cases result : read first with
    | none => simp [result] at matched
    | some firstPair =>
      simp only [result] at matched
      split_ifs at matched with same
      · obtain ⟨rfl, rfl⟩ := Prod.mk.inj (some.inj (some.inj matched))
        exact ⟨mem_cons_self, result, same⟩
      · obtain ⟨mem, others⟩ := ih matched
        exact ⟨mem_cons_of_mem _ mem, others⟩

variable {store : Store k}

theorem buckets_eq (consistent : Consistent conf store) :
    search.buckets conf store = fun _ => store.slot conf search.req.key :=
  funext fun _ => funext fun pos => consistent.replicas search.req.key pos _

variable {survives : search.Survives conf}

theorem mem_findKv (consistent : Consistent conf store) (fresh : search.FreshLookup conf)
    (result : search.findKv conf survives store = some found) (mem : candidate ∈ found) :
    isCandidate (fingerprint search.req.key) (store.slot conf search.req.key candidate.2) ∧
      (candidate.1 = .zero ∨
        candidate.1 = readAddr search.subblockSz (store.slot conf search.req.key candidate.2)) := by
  rw [CrashedSearch.findKv, buckets_eq consistent] at result
  split_ifs at result with failed
  · obtain ⟨empty, size⟩ := fresh failed
    exact mem_findKvInBucketsOnCrash empty size result mem
  · rw [Option.some.injEq] at result
    subst result
    obtain ⟨candidate, address⟩ := mem_candidates mem
    exact ⟨candidate, Or.inr address⟩

theorem eq_of_checkFailedData {checked : List Candidate}
    (result : search.checkFailedData found = some checked) : checked = found := by
  rw [CrashedSearch.checkFailedData] at result
  split_ifs at result
  exact (some.inj result).symm

theorem contents_of_findMatchKvIdx (consistent : Consistent conf store)
    (fresh : search.FreshLookup conf) (result : search.findKv conf survives store = some found)
    {pair : KVPair}
    (matched : findMatchKvIdx (search.readKv store (store.slot conf search.req.key)) search.req.key
      found = some (some (candidate, pair))) :
    isCandidate (fingerprint search.req.key) (store.slot conf search.req.key candidate.2) ∧
      store.contents conf search.req.key = some pair.value := by
  obtain ⟨mem, read, same⟩ := of_findMatchKvIdx matched
  obtain ⟨isCandidate, address⟩ := mem_findKv consistent fresh result mem
  rw [CrashedSearch.readKv] at read
  by_cases null : candidate.1 = .zero
  · simp [null] at read
  · rw [if_neg null, if_pos (address.resolve_left null), Option.some.injEq] at read
    subst read
    have finds : store.Finds conf search.req.key candidate.2 := ⟨isCandidate, same⟩
    refine ⟨isCandidate, ?_⟩
    exact Store.contents_of_finds finds fun other => consistent.unique _ candidate.2 other finds

theorem Replicated.kvSearchOnCrash_spec (counts : k + 1 ≤ conf.numReplication)
    (replicated : Replicated conf blocks system) (isKey : IsKey search.req.key)
    (fresh : search.FreshLookup conf) {cache : AddrCache k} {result : RetVal}
    (returned : kvSearchOnCrash conf blocks search survives (system.view client) = some (cache,
      result)) :
    Learns (EntryRedirected conf blocks (system.view client)) (system.addrCache client) cache ∧
      (search.CachedPairValid conf blocks (system.view client) →
        result = .value none ∨
          result = .value ((system.view client).contents conf search.req.key)) := by
  have consistent := replicated.consistent client
  rw [kvSearchOnCrash] at returned
  cases read : search.readCachedKv conf blocks (system.view client) with
  | none => simp [read] at returned
  | some outcome =>
    obtain ⟨_, cached⟩ := outcome
    obtain ⟨learns, current⟩ := replicated.readCachedKv_spec isKey read
    cases cached with
    | some pair =>
      simp only [read, Option.some.injEq, Prod.mk.injEq] at returned
      obtain ⟨rfl, rfl⟩ := returned
      exact ⟨learns, fun valid => .inr (by rw [current valid pair rfl])⟩
    | none =>
      simp only [read, buckets_eq consistent] at returned
      obtain ⟨_, lookup, matching⟩ := bind_eq_some_iff.mp returned
      obtain ⟨_, mem, checked⟩ := bind_eq_some_iff.mp lookup
      obtain rfl := eq_of_checkFailedData checked
      obtain ⟨matched, idx, outcome⟩ := map_eq_some_iff.mp matching
      cases matched with
      | none =>
        obtain ⟨rfl, rfl⟩ := Prod.mk.inj outcome
        exact ⟨learns, fun _ => .inl rfl⟩
      | some hit =>
        obtain ⟨candidate, contents⟩ := contents_of_findMatchKvIdx consistent fresh mem idx
        obtain ⟨rfl, rfl⟩ := Prod.mk.inj outcome
        refine ⟨?_, fun _ => .inr (by rw [contents])⟩
        split_ifs
        · rw [keyStr_eq_self isKey.2]
          exact learns.updateCache
            (entryRedirected_of_entryGood (entryGood_of_finds counts consistent candidate))
        · exact learns

variable [DecidableEq Client] {after : System Client k}

theorem Replicated.operate (layout : Coherent conf.raceRoot k) (counts : k + 1 ≤ conf.numReplication)
    (replicated : Replicated conf blocks system) {op : Operation k}
    (permitted : Permitted conf blocks system (.operate client op))
    (taken : step conf blocks system (.operate client op) = some after) :
    Replicated conf blocks after := by
  obtain ⟨allowed, primary, direct⟩ := permitted
  have usable {req : WriteReq} (replaces : replaceReq op = some req) :
      (writeCopies blocks req (system.view client)).EntryUsable conf req.useCache req.key := by
    obtain ⟨-, backed, -⟩ := replicated.backed client req
    intro useCache entry present
    obtain ⟨_, leads, good⟩ := replicated.cached client _ entry present
    rw [leads.eq_of_isPrimary (direct req replaces useCache entry present)]
    exact backed _ _ _ good
  -- the store that a write starts from has the backup copies of its pair
  have write {req : WriteReq} (writes : writeReq op = some req)
      (fresh : req.subblock ∉ system.allocated)
      (allowed : Allowed conf (writeCopies blocks req (system.view client)) op)
      (usable : Usable conf (writeCopies blocks req (system.view client)) op)
      (keeps : ∀ store, Keeps conf (writeCopies blocks req (system.view client)) store
        op → Preserves conf (writeCopies blocks req (system.view client)) store req) :
      Replicated conf blocks after := by
    obtain ⟨backed, -, -⟩ := replicated.backed client req
    obtain ⟨store, result, executed, consistent, kept, -⟩ :=
      exec_spec layout counts backed allowed usable
    rw [step, writeBackups, writes] at taken
    dsimp only at taken
    rw [executed, map_some, Option.some.injEq] at taken
    exact taken ▸ replicated.put (primary req writes) fresh consistent (keeps store kept)
  cases op with
  | search req =>
    obtain ⟨cache, result, executed, learns, -⟩ :=
      kvSearchSync_spec counts (replicated.consistent client) req allowed
    have searched : exec conf (writeBackups blocks (.search req) (system.view client))
        (.search req) = some ({ system.view client with addrCache := cache }, result) :=
      congrArg some executed
    rw [step, searched, map_some, Option.some.injEq] at taken
    exact taken ▸ replicated.putCache
      (learns.trans (.refl _ _) fun _ _ _ => entryRedirected_of_entryGood)
  | insert req =>
    obtain ⟨isKey, fresh, absent⟩ := allowed
    obtain ⟨-, -, contents⟩ := replicated.backed client req
    exact write rfl fresh ⟨isKey, fresh, contents ▸ absent⟩ trivial fun _ => id
  | update req => exact write rfl allowed.2 allowed (usable rfl) fun _ => id
  | delete req => exact write rfl allowed.2 allowed (usable rfl) fun _ => id

theorem Replicated.step (layout : Coherent conf.raceRoot k) (counts : k + 1 ≤ conf.numReplication)
    (replicated : Replicated conf blocks system) {event : Event Client k}
    (permitted : Permitted conf blocks system event)
    (taken : step conf blocks system event = some after) : Replicated conf blocks after := by
  cases event with
  | operate client op => exact replicated.operate layout counts permitted taken
  | searchOnCrash client search =>
    rw [Crash.step] at taken
    split_ifs at taken with survives
    obtain ⟨⟨_, _⟩, returned, rfl⟩ := map_eq_some_iff.mp taken
    exact replicated.putCache
      (replicated.kvSearchOnCrash_spec counts permitted.1 permitted.2 returned).1

theorem replicated_of_reachable (layout : Coherent conf.raceRoot k)
    (counts : k + 1 ≤ conf.numReplication)
    (reached : Reachable (step conf blocks) (Permitted conf blocks) System.IsInitial system) :
    Replicated conf blocks system :=
  reached.invariant (fun _ => replicated_of_isInitial) fun _ _ _ replicated permitted taken =>
    replicated.step layout counts permitted taken

/-- After any run of any number of clients, searches after crashes among their
operations, and a crash of some of the servers, a search returns nothing or what
the store contains, unless the cache leads it to a backup copy of a pair that was
invalidated. -/
theorem kvSearchOnCrash_current (layout : Coherent conf.raceRoot k)
    (counts : k + 1 ≤ conf.numReplication)
    (reached : Reachable (step conf blocks) (Permitted conf blocks) System.IsInitial system)
    (isKey : IsKey search.req.key) (survives : search.Survives conf)
    (cachedPairValid : search.CachedPairValid conf blocks (system.view client))
    (fresh : search.FreshLookup conf) {cache : AddrCache k} {result : RetVal}
    (returned : kvSearchOnCrash conf blocks search survives (system.view client) =
      some (cache, result)) :
    result = .value none ∨ result = .value ((system.view client).contents conf search.req.key) := by
  have replicated := replicated_of_reachable layout counts reached
  exact (replicated.kvSearchOnCrash_spec counts isKey fresh returned).2 cachedPairValid

end Results

section Sample

def sampleBlocks : DataBlocks where
  mmBlockSz := 0x4000000
  groups := [[(0, 0x28000000), (1, 0x28000000)]]
  mmBlockSz_pos := by decide
  mmBlockSz_aligned := by decide
  nodup := by decide
  aligned := by decide
  bounded := by decide
  sameOffset := by decide

def sampleWrite (value : UInt8) (subblock : Fin 32) : WriteReq :=
  { sampleReq [107] subblock with
    value := [value]
    useCache := true }

def sampleSearch : CrashedSearch 1 where
  req := ⟨[107], true, fun _ => 0⟩
  subblockSz := 256
  subblockSz_pos := sampleSubblockSz_pos
  subblockSz_lt := sampleSubblockSz_lt
  serverCrashMap := fun server => server = 0
  ctx := ⟨true, []⟩
  localBuf := fun _ => ⟨false, [], []⟩

theorem survives_sampleSearch : sampleSearch.Survives (sampleConf 2) := by
  unfold CrashedSearch.Survives
  decide +kernel

def emptySystem : System (Fin 2) 1 where
  words _ := 0
  pairs _ := ⟨false, [], []⟩
  allocated := []
  addrCache _ _ := none

theorem isInitial_emptySystem : emptySystem.IsInitial :=
  ⟨fun _ => rfl, fun _ _ => rfl, rfl⟩

/-- The client has updated the pair itself, and an earlier search after the crash
has turned its cache to the backup of the new pair. -/
theorem kvSearchOnCrash_current_own_update :
    ∃ system : System (Fin 2) 1,
      Reachable (step (sampleConf 2) sampleBlocks) (Permitted (sampleConf 2) sampleBlocks)
        System.IsInitial system ∧
      (system.view 0).contents (sampleConf 2) [107] = some [2] := by
  obtain ⟨system, reached, valid, returned⟩ := Reachable.exists_of_run
    (step (sampleConf 2) sampleBlocks) (Permitted (sampleConf 2) sampleBlocks)
    [.operate 1 (.insert (sampleWrite 1 0)), .operate 0 (.update (sampleWrite 2 1)),
      .searchOnCrash 0 sampleSearch]
    (fun system => sampleSearch.CachedPairValid (sampleConf 2) sampleBlocks (system.view 0) ∧
      (kvSearchOnCrash (sampleConf 2) sampleBlocks sampleSearch survives_sampleSearch
        (system.view 0)).map Prod.snd = some (.value (some [2])))
    isInitial_emptySystem (by decide +kernel)
  have mirrored : Mirrored (sampleConf 2).raceRoot 1 := by decide +kernel
  obtain ⟨⟨_, result⟩, executed, same⟩ := map_eq_some_iff.mp returned
  have current := kvSearchOnCrash_current mirrored.coherent (by decide) reached
    (by decide : IsKey sampleSearch.req.key) survives_sampleSearch valid
    (fun _ => ⟨rfl, rfl⟩) executed
  have same : result = .value (some [2]) := same
  rw [same] at current
  refine ⟨system, reached, ?_⟩
  simpa [eq_comm, sampleSearch] using current

/-- Another client has updated the pair, which invalidated the primary copy only.
The backup copy of the old pair is still valid. -/
theorem kvSearchOnCrash_stale :
    ∃ system : System (Fin 2) 1,
      Reachable (step (sampleConf 2) sampleBlocks) (Permitted (sampleConf 2) sampleBlocks)
        System.IsInitial system ∧
      (system.view 0).contents (sampleConf 2) [107] = some [2] ∧
      (kvSearchOnCrash (sampleConf 2) sampleBlocks sampleSearch survives_sampleSearch
        (system.view 0)).map Prod.snd = some (.value (some [1])) :=
  Reachable.exists_of_run (step (sampleConf 2) sampleBlocks)
    (Permitted (sampleConf 2) sampleBlocks)
    [.operate 0 (.insert (sampleWrite 1 0)), .operate 1 (.update (sampleWrite 2 1))]
    (fun system => (system.view 0).contents (sampleConf 2) [107] = some [2] ∧
      (kvSearchOnCrash (sampleConf 2) sampleBlocks sampleSearch survives_sampleSearch
        (system.view 0)).map Prod.snd = some (.value (some [1])))
    isInitial_emptySystem (by decide +kernel)

end Sample

end FuseeFs.Crash
