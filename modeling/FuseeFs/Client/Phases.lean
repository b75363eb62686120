import FuseeFs.Client.Sync

/-!
# The phases of a write before its first compare-and-swap

A request that writes first allocates memory, writes its log entry and reads the
buckets of its key, then reads the pairs that the buckets lead to, and then
swaps the slots of the index.  The phases hand their findings to each other in
the context of the request, whose flags and buffers a coroutine uses again for
its next request.
-/

namespace FuseeFs.Client

open Index KeyValue Replication

/-- What the phases read besides the request: also the address range that
`mm_alloc` is checked against, and the servers in `server_mr_info_map_`.  A null
address is the sign of a failed allocation, and no server has one. -/
structure WriteConf extends Conf where
  serverStAddr : UInt64
  serverDataLen : UInt64
  connected : UInt8 → Bool
  serverStAddr_ne_zero : serverStAddr ≠ 0

/-- `KVReqCtx`: the request, the flags, and what the local buffers hold.  Before
the first phase all but the request is what earlier requests have left. -/
structure KVReqCtx (k : ℕ) where
  key : List UInt8
  useCache : Bool
  shouldStop : Bool
  localBucket : Buckets
  localCache : KVPair
  localKv : Location → KVPair
  mmAllocCtx : ClientMMAllocCtx
  cacheEntry : LocalCacheEntry k
  kvModifyCas : KVCASAddr k
  isFinished : Bool
  isCacheHit : Bool
  isLocalCacheHit : Bool
  retCode : KVOpsRetCode

/-- The answers of allocator, cache and servers.  The cached pair is read
together with the buckets, the other pairs later. -/
structure Answers (k : ℕ) where
  mmAlloc : ClientMMAllocCtx
  addrCache : AddrCache k
  bucket : Buckets
  cachedKv : Location → KVPair
  kv : Location → KVPair

/-- How a request goes on until its first compare-and-swap on the index. -/
inductive Ending (k : ℕ)
  | returned (retCode : KVOpsRetCode)
  | segmentationFault
  | postsCas (cas : KVCASAddr k)

section Phases

variable {k : ℕ} (conf : WriteConf) (variant : Variant) (answers : Answers k)

/-! ## Memory, buckets and the cached pair -/

/-- The check that follows `mm_alloc`. -/
def allocFailed (addr : ℕ) : Bool :=
  UInt64.ofNat addr < conf.serverStAddr ||
    UInt64.ofNat addr ≥ conf.serverStAddr + conf.serverDataLen

def KVReqCtx.refuse (ctx : KVReqCtx k) : KVReqCtx k :=
  { ctx with isFinished := true, retCode := .failReturn }

def readBucketsAndWriteKv (ctx : KVReqCtx k) : KVReqCtx k :=
  let ctx := { ctx with mmAllocCtx := answers.mmAlloc }
  if allocFailed conf ctx.mmAllocCtx.addr then ctx.refuse
  else { ctx with localBucket := answers.bucket, isFinished := false }

/-- `check_cache` and the read of the pair that a cache entry points to. -/
def readCacheKv (ctx : KVReqCtx k) : KVReqCtx k :=
  if ctx.useCache then
    match (checkCache conf.missRateExceeds answers.addrCache (keyStr ctx.key)).2 with
    | none => { ctx with isLocalCacheHit := false }
    | some entry =>
      { ctx with
        isLocalCacheHit := true
        cacheEntry := entry
        localCache := answers.cachedKv (location entry.lSlotPtr) }
  else ctx

/-- A first phase that also looks into the cache, if it has got memory. -/
def readBucketsAndCachedKv (ctx : KVReqCtx k) : KVReqCtx k :=
  let ctx := readBucketsAndWriteKv conf answers ctx
  if ctx.isFinished then ctx else readCacheKv conf answers ctx

def kvInsertReadBucketsAndWriteKv : KVReqCtx k → KVReqCtx k :=
  readBucketsAndWriteKv conf answers

/-- Only the fiber function stops at `should_stop`. -/
def kvUpdateReadBucketsAndWriteKv (ctx : KVReqCtx k) : KVReqCtx k :=
  let ctx := readBucketsAndCachedKv conf answers ctx
  if variant = .async ∧ ctx.shouldStop then { ctx with isFinished := true } else ctx

def kvDeleteReadBucketsWriteLog : KVReqCtx k → KVReqCtx k :=
  readBucketsAndCachedKv conf answers

/-! ## The pairs -/

def KVReqCtx.holdsCachedKv (ctx : KVReqCtx k) : Bool :=
  ctx.useCache ∧ ctx.isLocalCacheHit ∧ ctx.localCache.isValid ∧ ctx.localCache.key = ctx.key

/-- The servers that `find_kv_in_buckets` takes keys of. -/
def candidateServers (ctx : KVReqCtx k) : List UInt8 :=
  (findKvInBuckets (fingerprint ctx.key) ctx.localBucket).map fun pos =>
    (raceHashSlot (ctx.localBucket pos)).serverId

/-- `fill_cas_addr` for the slot of a cache entry. -/
def cachedCas (swapValue : UInt64) (ctx : KVReqCtx k) : KVCASAddr k where
  rKvAddr := fun replica =>
    ((remoteSlotAddr (k := k) conf.toConf ctx.key 0 replica).1, ctx.cacheEntry.rSlotAddr replica)
  origValue := ctx.cacheEntry.lSlotPtr
  swapValue := swapValue

/-- `fill_cas_addr` for a slot of the buckets. -/
def bucketCas (swapValue : UInt64) (ctx : KVReqCtx k) (pos : Position) : KVCASAddr k where
  rKvAddr := remoteSlotAddr conf.toConf ctx.key pos
  origValue := ctx.localBucket pos
  swapValue := swapValue

/-- The second phase of an update or a delete.  A server that is not in the map
has no key, and the access to it ends the client. -/
def readKv (swapValue : UInt64) (ctx : KVReqCtx k) : Option (KVReqCtx k) :=
  if ctx.holdsCachedKv then
    if conf.connected (raceHashSlot ctx.cacheEntry.lSlotPtr).serverId then
      some { ctx with isCacheHit := true, kvModifyCas := cachedCas conf swapValue ctx }
    else none
  else if (candidateServers ctx).all conf.connected then
    some { ctx with isCacheHit := false, localKv := answers.kv, isFinished := false }
  else none

def KVReqCtx.newSlot (ctx : KVReqCtx k) : UInt64 :=
  fillSlot ctx.mmAllocCtx (fingerprint ctx.key)

/-- Only the fiber function looks at the flags. -/
def kvUpdateReadKv (ctx : KVReqCtx k) : Option (KVReqCtx k) :=
  if variant = .async ∧ (ctx.shouldStop ∨ ctx.isFinished) then
    some { ctx with isFinished := true }
  else readKv conf answers ctx.newSlot ctx

def kvDeleteReadKv (ctx : KVReqCtx k) : Option (KVReqCtx k) :=
  readKv conf answers 0 ctx

/-! ## The compare-and-swaps -/

/-- The third phase of an update or a delete.  With one replica of the index the
compare-and-swap is that of `modify_primary_idx`, which follows at once. -/
def backupConsensus0 (notFound : KVOpsRetCode) (swapValue : UInt64) (ctx : KVReqCtx k) : Ending k :=
  if ctx.useCache ∧ ctx.isCacheHit then .postsCas ctx.kvModifyCas
  else
    match findMatch ctx.localBucket ctx.localKv ctx.key with
    | none => .returned notFound
    | some pos => .postsCas (bucketCas conf swapValue ctx pos)

def kvInsertBackupConsensus0 (ctx : KVReqCtx k) : Ending k :=
  let info := getKvAddrInfo (getKvHashInfo ctx.key).hashValue
  match findEmptySlot ctx.localBucket info.fMainIdx info.sMainIdx with
  | none => .returned .failReturn
  | some pos => .postsCas (bucketCas conf ctx.newSlot ctx pos)

def kvUpdateBackupConsensus0 (ctx : KVReqCtx k) : Ending k :=
  if variant = .async ∧ (ctx.shouldStop ∨ ctx.isFinished) then .returned ctx.retCode
  else backupConsensus0 conf .failReturn ctx.newSlot ctx

def kvDeleteBackupConsensus0 (ctx : KVReqCtx k) : Ending k :=
  backupConsensus0 conf .success 0 ctx

/-! ## The requests -/

def kvInsert (ctx : KVReqCtx k) : Ending k :=
  let ctx := kvInsertReadBucketsAndWriteKv conf answers ctx
  if ctx.isFinished then .returned ctx.retCode
  else kvInsertBackupConsensus0 conf ctx

def kvUpdate (ctx : KVReqCtx k) : Ending k :=
  let ctx := kvUpdateReadBucketsAndWriteKv conf variant answers ctx
  if ctx.isFinished then .returned ctx.retCode
  else
    match kvUpdateReadKv conf variant answers ctx with
    | none => .segmentationFault
    | some ctx => kvUpdateBackupConsensus0 conf variant ctx

/-- Unlike the others, a delete does not look at `is_finished` before the second
phase. -/
def kvDelete (ctx : KVReqCtx k) : Ending k :=
  let ctx := kvDeleteReadBucketsWriteLog conf answers ctx
  match kvDeleteReadKv conf answers ctx with
  | none => .segmentationFault
  | some ctx =>
    if ctx.isFinished then .returned ctx.retCode else kvDeleteBackupConsensus0 conf ctx

def write (ctx : KVReqCtx k) : KVRequestType → Ending k
  | .insert => kvInsert conf answers ctx
  | .update => kvUpdate conf variant answers ctx
  | .delete => kvDelete conf answers ctx

end Phases

section Granted

variable {k : ℕ} {conf : WriteConf} {ctx : KVReqCtx k} {req : WriteReq} {store : Store k}

def answersOf (conf : Conf) (req : WriteReq) (store : Store k) : Answers k where
  mmAlloc := req.mmAllocCtx
  addrCache := store.addrCache
  bucket := readBuckets conf.raceRoot store.words req.key
  cachedKv := (writeKv req store).pairs
  kv := (writeKv req store).pairs

def Ending.ofCas (notFound : KVOpsRetCode) : Option (KVCASAddr k) → Ending k
  | none => .returned notFound
  | some cas => .postsCas cas

/-- The context was made for the request, the subblock the request is given lies in
the range of the servers, and the client is connected to the servers that the
candidates in the buckets and the cache entry of the key name. -/
structure Serves (conf : WriteConf) (ctx : KVReqCtx k) (req : WriteReq) (store : Store k) :
    Prop where
  key : ctx.key = req.key
  useCache : ctx.useCache = req.useCache
  granted : allocFailed conf req.mmAllocCtx.addr = false
  candidates : ∀ pos ∈ findKvInBuckets (fingerprint req.key)
      (readBuckets conf.raceRoot store.words req.key),
    conf.connected
      (raceHashSlot (readBuckets conf.raceRoot store.words req.key pos)).serverId = true
  cached : ∀ entry ∈ store.addrCache (keyStr req.key),
    conf.connected (raceHashSlot entry.lSlotPtr).serverId = true

theorem Serves.readBucketsAndWriteKv_eq (serves : Serves conf ctx req store) :
    readBucketsAndWriteKv conf (answersOf conf.toConf req store) ctx =
      { ctx with
        mmAllocCtx := req.mmAllocCtx
        localBucket := readBuckets conf.raceRoot store.words req.key
        isFinished := false } := by
  simp [readBucketsAndWriteKv, answersOf, serves.granted]

theorem Serves.kvInsert_eq (serves : Serves conf ctx req store) :
    kvInsert conf (answersOf conf.toConf req store) ctx =
      Ending.ofCas .failReturn
        ((findEmptySlot (readBuckets conf.raceRoot store.words req.key)
            (getKvAddrInfo (getKvHashInfo req.key).hashValue).fMainIdx
            (getKvAddrInfo (getKvHashInfo req.key).hashValue).sMainIdx).map fun pos =>
          { rKvAddr := remoteSlotAddr conf.toConf req.key pos
            origValue := readBuckets conf.raceRoot store.words req.key pos
            swapValue := req.newSlot }) := by
  rw [kvInsert, kvInsertReadBucketsAndWriteKv, serves.readBucketsAndWriteKv_eq, if_neg (by simp)]
  simp only [kvInsertBackupConsensus0, serves.key]
  cases findEmptySlot _ _ _ with
  | none => rfl
  | some pos => simp [Ending.ofCas, bucketCas, KVReqCtx.newSlot, WriteReq.newSlot]

theorem isFinished_readCacheKv (conf : WriteConf) (answers : Answers k) (ctx : KVReqCtx k) :
    (readCacheKv conf answers ctx).isFinished = ctx.isFinished := by
  unfold readCacheKv
  split_ifs
  · split <;> rfl
  · rfl

theorem newSlot_readCacheKv (conf : WriteConf) (answers : Answers k) (ctx : KVReqCtx k) :
    (readCacheKv conf answers ctx).newSlot = ctx.newSlot := by
  unfold readCacheKv
  split_ifs
  · split <;> rfl
  · rfl

theorem Serves.isFinished_readBucketsAndCachedKv (serves : Serves conf ctx req store) :
    (readBucketsAndCachedKv conf (answersOf conf.toConf req store) ctx).isFinished = false := by
  rw [readBucketsAndCachedKv, serves.readBucketsAndWriteKv_eq, if_neg (by simp),
    isFinished_readCacheKv]

theorem Serves.newSlot_readBucketsAndCachedKv (serves : Serves conf ctx req store) :
    (readBucketsAndCachedKv conf (answersOf conf.toConf req store) ctx).newSlot = req.newSlot := by
  rw [readBucketsAndCachedKv, serves.readBucketsAndWriteKv_eq, if_neg (by simp),
    newSlot_readCacheKv, KVReqCtx.newSlot, WriteReq.newSlot, serves.key]

/-- What the second and the third phase do together. -/
structure Finds (conf : WriteConf) (answers : Answers k) (ctx : KVReqCtx k) (swapValue : UInt64)
    (cas : Option (KVCASAddr k)) (next : KVReqCtx k) : Prop where
  read : readKv conf answers swapValue ctx = some next
  isFinished : next.isFinished = false
  newSlot : next.newSlot = ctx.newSlot
  swaps : ∀ notFound, backupConsensus0 conf notFound swapValue next = Ending.ofCas notFound cas

theorem Finds.of_missed {answers : Answers k}
    (connected : ∀ server ∈ candidateServers ctx, conf.connected server = true)
    (missed : ctx.holdsCachedKv = false) (swapValue : UInt64) :
    ∃ next, Finds conf answers ctx swapValue
      ((findMatch ctx.localBucket answers.kv ctx.key).map (bucketCas conf swapValue ctx)) next := by
  have allConnected : (candidateServers ctx).all conf.connected = true :=
    List.all_eq_true.mpr connected
  refine ⟨{ ctx with isCacheHit := false, localKv := answers.kv, isFinished := false }, ?_, rfl,
    rfl, fun notFound => ?_⟩
  · simp [readKv, missed, allConnected]
  · rw [backupConsensus0, if_neg (by simp)]
    cases findMatch ctx.localBucket answers.kv ctx.key <;> rfl

theorem Finds.of_held {answers : Answers k}
    (connected : conf.connected (raceHashSlot ctx.cacheEntry.lSlotPtr).serverId = true)
    (held : ctx.holdsCachedKv = true) (running : ctx.isFinished = false) (swapValue : UInt64) :
    ∃ next, Finds conf answers ctx swapValue (some (cachedCas conf swapValue ctx)) next := by
  have used : ctx.useCache = true := (of_decide_eq_true held).1
  refine ⟨{ ctx with isCacheHit := true, kvModifyCas := cachedCas conf swapValue ctx }, ?_, running,
    rfl, fun notFound => ?_⟩
  · rw [readKv, if_pos held, if_pos connected]
  · exact if_pos ⟨used, rfl⟩

theorem Serves.finds (serves : Serves conf ctx req store) (swapValue : UInt64) :
    ∃ next, Finds conf (answersOf conf.toConf req store)
      (readBucketsAndCachedKv conf (answersOf conf.toConf req store) ctx) swapValue
      (findCasAddr conf.toConf req swapValue
        (readBuckets conf.raceRoot store.words req.key) (writeKv req store)).2 next := by
  have candidates : ∀ server ∈ (findKvInBuckets (fingerprint req.key)
      (readBuckets conf.raceRoot store.words req.key)).map (fun pos => (raceHashSlot
        (readBuckets conf.raceRoot store.words req.key pos)).serverId),
      conf.connected server = true :=
    List.forall_mem_map.mpr serves.candidates
  rw [readBucketsAndCachedKv, serves.readBucketsAndWriteKv_eq, if_neg (by simp), readCacheKv,
    findCasAddr, readCachedKv]
  -- the cache is not used, has no entry, has a stale entry, or has the pair
  simp only [serves.useCache, serves.key]
  cases cached : req.useCache with
  | false =>
    refine Finds.of_missed ?_ (by simp [KVReqCtx.holdsCachedKv]) swapValue
    exact candidates
  | true =>
    have sameCache : (writeKv req store).addrCache = store.addrCache := rfl
    simp only [if_true, answersOf, sameCache]
    rcases checked : checkCache conf.missRateExceeds store.addrCache (keyStr req.key) with
      ⟨cache, _ | entry⟩
    · refine Finds.of_missed ?_ (by simp [KVReqCtx.holdsCachedKv]) swapValue
      exact candidates
    · by_cases held : ((writeKv req store).pairs (location entry.lSlotPtr)).isValid = true ∧
          ((writeKv req store).pairs (location entry.lSlotPtr)).key = req.key
      · simp only [if_pos held]
        have stored := mem_of_checkCache _ _ _ entry (congrArg Prod.snd checked)
        apply Finds.of_held (serves.cached entry stored) _ rfl swapValue
        simpa [KVReqCtx.holdsCachedKv] using held
      · simp only [if_neg held]
        refine Finds.of_missed ?_ (by simpa [KVReqCtx.holdsCachedKv] using held) swapValue
        exact candidates

theorem Serves.kvUpdate_eq (serves : Serves conf ctx req store) :
    kvUpdate conf .sync (answersOf conf.toConf req store) ctx =
      Ending.ofCas .failReturn
        (findCasAddr conf.toConf req req.newSlot
          (readBuckets conf.raceRoot store.words req.key) (writeKv req store)).2 := by
  obtain ⟨next, finds⟩ := @Serves.finds k conf ctx req store serves req.newSlot
  have running := @Serves.isFinished_readBucketsAndCachedKv k conf ctx req store serves
  have sameSlot := @Serves.newSlot_readBucketsAndCachedKv k conf ctx req store serves
  have nextSlot : next.newSlot = req.newSlot := finds.newSlot.trans sameSlot
  have slotKnown := finds.swaps .failReturn
  simp [kvUpdate, kvUpdateReadBucketsAndWriteKv, running, kvUpdateReadKv, sameSlot, finds.read,
    kvUpdateBackupConsensus0, nextSlot, slotKnown]

theorem Serves.kvDelete_eq (serves : Serves conf ctx req store) :
    kvDelete conf (answersOf conf.toConf req store) ctx =
      Ending.ofCas .success
        (findCasAddr conf.toConf req 0
          (readBuckets conf.raceRoot store.words req.key) (writeKv req store)).2 := by
  obtain ⟨_, finds⟩ := @Serves.finds k conf ctx req store serves 0
  simp only [kvDelete, kvDeleteReadBucketsWriteLog, kvDeleteReadKv, finds.read, finds.isFinished]
  exact finds.swaps .success

end Granted

section NoMemory

variable {k : ℕ} {conf : WriteConf} {answers : Answers k}

theorem allocFailed_zero (conf : WriteConf) : allocFailed conf 0 = true := by
  have positive : (0 : UInt64) < conf.serverStAddr :=
    UInt64.pos_iff_ne_zero.mpr conf.serverStAddr_ne_zero
  simp [allocFailed, positive]

theorem readBucketsAndCachedKv_of_noMemory (noMemory : answers.mmAlloc.addr = 0)
    (ctx : KVReqCtx k) :
    readBucketsAndCachedKv conf answers ctx =
      KVReqCtx.refuse { ctx with mmAllocCtx := answers.mmAlloc } := by
  simp [readBucketsAndCachedKv, readBucketsAndWriteKv, noMemory, allocFailed_zero, KVReqCtx.refuse]

theorem kvInsert_of_noMemory (noMemory : answers.mmAlloc.addr = 0) (ctx : KVReqCtx k) :
    kvInsert conf answers ctx = .returned .failReturn := by
  simp [kvInsert, kvInsertReadBucketsAndWriteKv, readBucketsAndWriteKv, noMemory, allocFailed_zero,
    KVReqCtx.refuse]

theorem kvUpdate_of_noMemory (noMemory : answers.mmAlloc.addr = 0) (variant : Variant)
    (ctx : KVReqCtx k) : kvUpdate conf variant answers ctx = .returned .failReturn := by
  rw [kvUpdate, kvUpdateReadBucketsAndWriteKv, readBucketsAndCachedKv_of_noMemory noMemory]
  by_cases stops : variant = .async ∧ ctx.shouldStop = true
  · simp [KVReqCtx.refuse, stops]
  · simp [KVReqCtx.refuse, stops]

/-- The pair that an earlier request has read from the cache is still in the
buffer, and is the one that the request looks for. -/
def KVReqCtx.HoldsOwnKv (conf : WriteConf) (ctx : KVReqCtx k) : Prop :=
  ctx.holdsCachedKv = true ∧ conf.connected (raceHashSlot ctx.cacheEntry.lSlotPtr).serverId = true

theorem isFinished_of_readKv {ctx next : KVReqCtx k} {swapValue : UInt64}
    (missed : ¬ ctx.holdsCachedKv = true) (read : readKv conf answers swapValue ctx = some next) :
    next.isFinished = false := by
  rw [readKv, if_neg missed] at read
  split_ifs at read
  cases read
  rfl

theorem kvDeleteBackupConsensus0_ne (ctx : KVReqCtx k) :
    kvDeleteBackupConsensus0 conf ctx ≠ .returned .failReturn := by
  rw [kvDeleteBackupConsensus0, backupConsensus0]
  split_ifs
  · simp
  · split <;> simp

/-- A delete without memory goes on with the buckets of an earlier request,
unless a cached pair stops it. -/
theorem kvDelete_of_noMemory (noMemory : answers.mmAlloc.addr = 0) (ctx : KVReqCtx k) :
    kvDelete conf answers ctx = .returned .failReturn ↔ ctx.HoldsOwnKv conf := by
  rw [kvDelete, kvDeleteReadBucketsWriteLog, readBucketsAndCachedKv_of_noMemory noMemory]
  set refused := KVReqCtx.refuse { ctx with mmAllocCtx := answers.mmAlloc }
  have sameHolds : ctx.HoldsOwnKv conf ↔ refused.HoldsOwnKv conf := Iff.rfl
  rw [sameHolds, KVReqCtx.HoldsOwnKv]
  by_cases held : refused.holdsCachedKv = true
  · simp only [kvDeleteReadKv, readKv, if_pos held]
    split_ifs with connected
    · exact iff_of_true rfl ⟨held, connected⟩
    · simp [connected]
  · refine iff_of_false ?_ fun holds => held holds.1
    cases read : kvDeleteReadKv conf answers refused with
    | none => simp
    | some next =>
      have running : next.isFinished = false := isFinished_of_readKv held read
      simp only [running]
      exact kvDeleteBackupConsensus0_ne next

/-- A request that gets no memory returns `KV_OPS_FAIL_RETURN` and leaves the
index alone, with the exception of a delete for which no pair of its own key is
left in the buffer of the cache. -/
theorem write_of_noMemory_iff (conf : WriteConf) (reqType : KVRequestType) (variant : Variant)
    (answers : Answers k) (ctx : KVReqCtx k) (noMemory : answers.mmAlloc.addr = 0) :
    write conf variant answers ctx reqType = .returned .failReturn ↔
      (reqType = .delete → ctx.HoldsOwnKv conf) := by
  cases reqType with
  | insert => simp [write, kvInsert_of_noMemory noMemory]
  | update => simp [write, kvUpdate_of_noMemory noMemory]
  | delete => simp [write, kvDelete_of_noMemory noMemory]

def sampleWriteConf : WriteConf where
  raceRoot := ⟨fun _ _ => ⟨0, [0, 0, 0, 0, 0]⟩⟩
  numReplication := 1
  missRateExceeds := fun _ _ => false
  serverStAddr := 256
  serverDataLen := 4096
  connected := fun server => server = 0
  serverStAddr_ne_zero := by decide

def sampleAnswers : Answers 0 where
  mmAlloc := sampleAlloc 0
  addrCache := fun _ => none
  bucket := fun _ => 0
  cachedKv := fun _ => ⟨true, [1], [2]⟩
  kv := fun _ => ⟨true, [1], [2]⟩

def sampleCtx (useCache : Bool) (word : UInt64) : KVReqCtx k where
  key := [1]
  useCache := useCache
  shouldStop := false
  localBucket := fun _ => word
  localCache := ⟨true, [1], [2]⟩
  localKv := fun _ => ⟨true, [1], [2]⟩
  mmAllocCtx := sampleAlloc 0
  cacheEntry := ⟨word, fun _ => 0, 0, 0⟩
  kvModifyCas := ⟨fun _ => (0, 0), 0, 0⟩
  isFinished := true
  isCacheHit := useCache
  isLocalCacheHit := useCache
  retCode := .success

theorem write_of_noMemory_iff_cached :
    sampleAnswers.mmAlloc.addr = 0 ∧
      ∀ reqType, write sampleWriteConf .async sampleAnswers (sampleCtx true 0) reqType =
        .returned .failReturn :=
  ⟨rfl, fun reqType => (write_of_noMemory_iff sampleWriteConf reqType .async sampleAnswers
    (sampleCtx true 0) rfl).mpr fun _ => ⟨by decide, by decide⟩⟩

/-- Without a cached pair, a delete swaps the slot that it finds in the buckets
of an earlier request, and reports success if it finds none. -/
theorem kvDelete_noMemory_swaps :
    sampleAnswers.mmAlloc.addr = 0 ∧
      (∃ cas, write sampleWriteConf .sync sampleAnswers
        (sampleCtx false (fillSlot (sampleAlloc 1) (fingerprint [1]))) .delete = .postsCas cas) ∧
      write sampleWriteConf .sync sampleAnswers (sampleCtx false 0) .delete =
        .returned .success := by
  refine ⟨rfl, ⟨_, rfl⟩, rfl⟩

end NoMemory

section Agreement

variable {k : ℕ} {req : WriteReq} {store : Store k}

def WriteReq.operation (req : WriteReq) : KVRequestType → Operation k
  | .insert => .insert req
  | .update => .update req
  | .delete => .delete req

/-- The store when the phases are over: only an update and a delete look into the
cache. -/
def afterPhases (conf : Conf) (req : WriteReq) (store : Store k) : KVRequestType → Store k
  | .insert => writeKv req store
  | .update | .delete => (readCachedKv conf req.useCache req.key (writeKv req store)).1

/-- Only an insert gives its memory back before it returns. -/
def Ending.finish (reqType : KVRequestType) (req : WriteReq) (store : Store k) :
    Ending k → Option (Store k × RetVal)
  | .returned retCode =>
    some (if reqType = .insert then mmFreeCur req store else store, .retCode retCode)
  | .segmentationFault => none
  | .postsCas cas => modifyIdxSync reqType req cas store

theorem kvReplaceSync_eq (conf : Conf) (reqType : KVRequestType) (notInsert : reqType ≠ .insert)
    (notFound : KVOpsRetCode) (swapValue : UInt64) :
    kvReplaceSync conf reqType notFound swapValue req store =
      (Ending.ofCas notFound (findCasAddr conf req swapValue
        (readBuckets conf.raceRoot store.words req.key) (writeKv req store)).2).finish reqType req
        (readCachedKv conf req.useCache req.key (writeKv req store)).1 := by
  rw [kvReplaceSync, findCasAddr]
  rcases readCachedKv conf req.useCache req.key (writeKv req store) with ⟨read, _ | ⟨entry, pair⟩⟩
  · dsimp only
    cases findMatch (readBuckets conf.raceRoot store.words req.key) read.pairs req.key with
    | none => simp [Ending.ofCas, Ending.finish, notInsert]
    | some pos => rfl
  · rfl

/-- A request that gets memory does what the functions of a client that runs
alone do, whatever earlier requests have left in its context. -/
theorem exec_eq_finish_write (conf : WriteConf) (ctx : KVReqCtx k) (req : WriteReq)
    (store : Store k) (reqType : KVRequestType) (serves : Serves conf ctx req store) :
    exec conf.toConf store (req.operation reqType) =
      (write conf .sync (answersOf conf.toConf req store) ctx reqType).finish reqType req
        (afterPhases conf.toConf req store reqType) := by
  cases reqType with
  | insert =>
    rw [write, serves.kvInsert_eq]
    simp only [exec, WriteReq.operation, kvInsertSync, afterPhases]
    cases findEmptySlot _ _ _ <;> rfl
  | update =>
    rw [write, serves.kvUpdate_eq]
    exact kvReplaceSync_eq _ _ (by simp) _ _
  | delete =>
    rw [write, serves.kvDelete_eq]
    exact kvReplaceSync_eq _ _ (by simp) _ _

def replicatedConf : WriteConf :=
  { sampleWriteConf with
    raceRoot := ⟨fun _ replica => ⟨UInt8.ofNat replica, [0, 0, 0, 0, 0]⟩⟩ }

def insertReq : WriteReq := ⟨[1], [3], true, sampleAlloc 1, 0⟩

def updateReq : WriteReq := ⟨[1], [4], false, sampleAlloc 2, 0⟩

/-- The key was inserted, in two replicas of the index and the cache. -/
def insertedStore : Store 1 :=
  ((exec replicatedConf.toConf ⟨fun _ => 0, fun _ => ⟨false, [], []⟩, fun _ => none, []⟩
    (.insert insertReq)).map Prod.fst).getD ⟨fun _ => 0, fun _ => ⟨false, [], []⟩, fun _ => none, []⟩

/-- The slot of the key is found in the buckets and swapped in both replicas. -/
theorem exec_eq_finish_write_present :
    Serves replicatedConf (sampleCtx false 0) updateReq insertedStore ∧
      (exec replicatedConf.toConf insertedStore (updateReq.operation .update)).map
        (fun done => ((exec replicatedConf.toConf done.1 (.search ⟨[1], false, fun _ => 0⟩)).map
          Prod.snd, done.2)) = some (some (.value (some [4])), .retCode .success) := by
  have serves : Serves replicatedConf (sampleCtx false 0) updateReq insertedStore :=
    ⟨rfl, rfl, by decide, by decide +kernel, by decide +kernel⟩
  refine ⟨serves, ?_⟩
  rw [show exec replicatedConf.toConf insertedStore (updateReq.operation .update) = _ from
    exec_eq_finish_write _ _ _ _ .update serves]
  decide +kernel

end Agreement

end FuseeFs.Client
