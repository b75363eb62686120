import FuseeFs.Index.Table
import FuseeFs.Memory.AllocatorRecovery
import FuseeFs.Recovery.Written

/-!
# Inserts that failed before the crash

An insert that finds no empty slot gives its subblock back, but its entry stays
in the remote memory, linked from its predecessor.  When the client crashes
before it writes the subblock again, the recovery takes that entry for its last
operation and inserts the key, if there is an empty slot by then.
-/

namespace FuseeFs.Recovery

open List Option Function
open Index Library Library.Bytes FuseeFs.Memory FuseeFs.Memory.ChainSystem Replication

variable {k : ℕ} {layout : Layout}

/-! ## From the log to the request -/

/-- The operation in a tail; all that matters is whether it is an insert. -/
def kvLogOp (op : UInt8) : KVLogOp :=
  if op = 1 then .insert else if op = 2 then .update else if op = 3 then .delete else .finish

def readLogTail (entry : Image) : KVLogTail where
  oldValue := loadWord entry (tailOffset entry + offsetofOldValue)
  op := kvLogOp (entry (tailOffset entry + offsetofOp))

def entryKey (entry : Image) : List UInt8 :=
  load entry sizeofKVLogHeader (keyLength entry)

/-- `get_last_log_recover_info`.  The information about a log with fewer than two
entries is zero, and nothing is replayed then. -/
def getLastLogRecoverInfo (recoverLogInfoList : List SubblockInfo) : Option SubblockInfo :=
  if recoverLogInfoList.length > 1 then recoverLogInfoList[recoverLogInfoList.length - 2]?
  else none

/-- `mm_alloc_log_info`; a length that wraps around to no subblock is left out. -/
def mmAllocLogInfo (layout : Layout) (lastAllocatedInfo : SubblockInfo) (entry : Image) :
    Option ClientMMAllocCtx :=
  let size := (tailOffset entry + sizeofKVLogTail) % 2 ^ 32
  let numSubblocks := UInt8.ofNat (layout.getAlignedSize size / layout.subblockSz)
  if zero : numSubblocks = 0 then none
  else
    some ⟨numSubblocks, lastAllocatedInfo.serverId, lastAllocatedInfo.addr, zero,
      lastAllocatedInfo.addr_aligned, lastAllocatedInfo.addr_lt⟩

/-- `prepare_request` for a key.  What `CheckKey` says about other pairs than that
of the request is given. -/
def prepareRequest (numReplication : ℕ) (checkKey : List UInt8 → UInt64 → Bool)
    (mmAllocCtx : ClientMMAllocCtx) (key : List UInt8) : Request where
  numReplication := numReplication
  fMainIdx := (getKvAddrInfo (getKvHashInfo key).hashValue).fMainIdx
  sMainIdx := (getKvAddrInfo (getKvHashInfo key).hashValue).sMainIdx
  fp := (getKvHashInfo key).fp
  mmAllocCtx := mmAllocCtx
  checkKey word := word = fillSlot mmAllocCtx (getKvHashInfo key).fp || checkKey key word
  checkKey_fillSlot := by simp

/-- The word leads a lookup of the key to a pair with that key. -/
def BindsKey (memory : Subblocks) (key : List UInt8) (word : UInt64) : Prop :=
  isCandidate (getKvHashInfo key).fp word ∧ ∃ subblock : SubblockInfo,
    (raceHashSlot word).serverId = subblock.serverId ∧ rKvAddr word = subblock.addr ∧
      entryKey (memory subblock) = key

section Recover

variable (numReplication : ℕ) (checkKey : List UInt8 → UInt64 → Bool)
  (junk : Uninitialised) (index : List UInt8 → IndexReplicas k)

/-- The recovery of a client: the allocator, and then `client_recovery` on the
buckets of the key that it has found.  There is no result if an access leaves the
recovery buffer or the log is too short. -/
def recoverClient (s : ChainSystem layout) : Option (List UInt8 × Except Abort (KVReqCtx k)) :=
  s.logHead.bind fun head =>
    (mmTraverseLog layout.subblockSz s.memory head).bind fun recoverLogInfoList =>
      (mmRecoverMmBlocks s.area recoverLogInfoList).bind fun mm =>
        (getLastLogRecoverInfo recoverLogInfoList).bind fun last =>
          (mmAllocLogInfo layout mm.lastAllocatedInfo (s.memory last)).map fun mmAllocCtx =>
            let key := entryKey (s.memory last)
            (key, clientRecovery (prepareRequest numReplication checkKey mmAllocCtx key)
              junk ⟨index key, readLogTail (s.memory last)⟩)

/-- The recovery changes a slot into a word that binds the key. -/
def Resurrects (s : ChainSystem layout) (key : List UInt8) : Prop :=
  ∃ replayed recovered, recoverClient numReplication checkKey junk index s =
    some (replayed, .ok recovered) ∧ ∃ replica pos,
      recovered.index replica pos ≠ index replayed replica pos ∧
        BindsKey s.memory key (recovered.index replica pos)

/-- The replay of the entry in the subblock changes the index. -/
def RedoneAt (s : ChainSystem layout) (last : SubblockInfo) : Prop :=
  ∃ alloc, mmAllocLogInfo layout last (s.memory last) = some alloc ∧
    Redone (prepareRequest numReplication checkKey alloc (entryKey (s.memory last)))
      junk ⟨index (entryKey (s.memory last)), readLogTail (s.memory last)⟩

end Recover

def Replays (s : ChainSystem layout) (subblock : SubblockInfo) : Prop :=
  ∃ head recoverLogInfoList mm, s.logHead = some head ∧
    mmTraverseLog layout.subblockSz s.memory head = some recoverLogInfoList ∧
    mmRecoverMmBlocks s.area recoverLogInfoList = some mm ∧
    getLastLogRecoverInfo recoverLogInfoList = some subblock

variable {s : ChainSystem layout} {subblock : SubblockInfo}

theorem Replays.unique {other : SubblockInfo} (replays : Replays s subblock)
    (otherReplays : Replays s other) : subblock = other := by
  obtain ⟨_, _, _, isHead, traversed, -, isLast⟩ := replays
  obtain ⟨_, _, _, otherIsHead, otherTraversed, -, otherIsLast⟩ := otherReplays
  obtain rfl := some.inj (isHead.symm.trans otherIsHead)
  obtain rfl := some.inj (traversed.symm.trans otherTraversed)
  exact some.inj (isLast.symm.trans otherIsLast)

def oneSubblock (subblock : SubblockInfo) : ClientMMAllocCtx :=
  ⟨1, subblock.serverId, subblock.addr, one_subblock_ne_zero, subblock.addr_aligned,
    subblock.addr_lt⟩

/-! ## What is replayed -/

variable {recoverLogInfoList : List SubblockInfo}

theorem getLastLogRecoverInfo_eq {front : List SubblockInfo}
    {lastAllocated queueHead : SubblockInfo}
    (reversed : recoverLogInfoList.reverse = queueHead :: lastAllocated :: front) :
    getLastLogRecoverInfo recoverLogInfoList = some lastAllocated := by
  obtain rfl : recoverLogInfoList = front.reverse ++ [lastAllocated, queueHead] := by
    rw [← reverse_reverse recoverLogInfoList, reversed]
    simp
  simp [getLastLogRecoverInfo]

theorem tagged_of_findSubblock {subblocks : List SubblockInfo} {prAddr : ℕ} {found : SubblockInfo}
    (result : findSubblock subblocks prAddr = some found) : found.tagged = prAddr := by
  have matching := find?_some result
  simpa only [decide_eq_true_eq] using matching

variable {last : SubblockInfo}

theorem lastAllocatedInfo_eq {area : MetaArea (ClientMMBlock layout)} {mm : ClientMM layout}
    (rebuilt : mmRecoverMmBlocks area recoverLogInfoList = some mm)
    (isLast : getLastLogRecoverInfo recoverLogInfoList = some last) :
    mm.lastAllocatedInfo = last := by
  unfold mmRecoverMmBlocks at rebuilt
  split at rebuilt
  · rename_i queueHead lastAllocated front reversed
    rw [getLastLogRecoverInfo_eq reversed] at isLast
    obtain rfl := some.inj isLast
    obtain ⟨_, -, rebuilt⟩ := bind_eq_some_iff.mp rebuilt
    obtain ⟨_, found, rfl⟩ := map_eq_some_iff.mp rebuilt
    exact SubblockInfo.tagged_injective (tagged_of_findSubblock found)
  · cases rebuilt

theorem mmAllocLogInfo_eq {entry : Image} (subblock : SubblockInfo)
    (one : layout.getAlignedSize ((tailOffset entry + sizeofKVLogTail) % 2 ^ 32) /
      layout.subblockSz = 1) : mmAllocLogInfo layout subblock entry = some (oneSubblock subblock) := by
  have number : UInt8.ofNat (layout.getAlignedSize ((tailOffset entry + sizeofKVLogTail) % 2 ^ 32) /
      layout.subblockSz) = 1 := by
    rw [one]
    rfl
  unfold mmAllocLogInfo
  dsimp only
  rw [dif_neg (by rw [number]; exact one_subblock_ne_zero)]
  simp only [number]
  rfl

variable {alloc : ClientMMAllocCtx}

theorem of_mmAllocLogInfo {entry : Image}
    (allocated : mmAllocLogInfo layout subblock entry = some alloc) :
    alloc.serverId = subblock.serverId ∧ alloc.addr = subblock.addr := by
  unfold mmAllocLogInfo at allocated
  dsimp only at allocated
  split_ifs at allocated
  obtain rfl := some.inj allocated
  exact ⟨rfl, rfl⟩

section Replayed

variable {s : ChainSystem layout} {numReplication : ℕ} {checkKey : List UInt8 → UInt64 → Bool}
  {junk : Uninitialised} {index : List UInt8 → IndexReplicas k}

theorem of_recoverClient {key : List UInt8} {result : Except Abort (KVReqCtx k)}
    (recovered : recoverClient numReplication checkKey junk index s = some (key, result)) :
    ∃ last alloc, Replays s last ∧ entryKey (s.memory last) = key ∧
      mmAllocLogInfo layout last (s.memory last) = some alloc ∧
      clientRecovery (prepareRequest numReplication checkKey alloc key) junk
        ⟨index key, readLogTail (s.memory last)⟩ = result := by
  unfold recoverClient at recovered
  obtain ⟨head, isHead, recovered⟩ := bind_eq_some_iff.mp recovered
  obtain ⟨recoverLogInfoList, traversed, recovered⟩ := bind_eq_some_iff.mp recovered
  obtain ⟨mm, rebuilt, recovered⟩ := bind_eq_some_iff.mp recovered
  obtain ⟨last, isLast, recovered⟩ := bind_eq_some_iff.mp recovered
  obtain ⟨alloc, allocated, recovered⟩ := map_eq_some_iff.mp recovered
  obtain ⟨rfl, replayed⟩ := Prod.mk.inj recovered
  rw [lastAllocatedInfo_eq rebuilt isLast] at allocated
  exact ⟨last, alloc, ⟨head, recoverLogInfoList, mm, isHead, traversed, rebuilt, isLast⟩, rfl,
    allocated, replayed⟩

theorem recoverClient_of_replays (replays : Replays s last)
    (allocated : mmAllocLogInfo layout last (s.memory last) = some alloc) :
    recoverClient numReplication checkKey junk index s =
      some (entryKey (s.memory last),
        clientRecovery (prepareRequest numReplication checkKey alloc (entryKey (s.memory last)))
          junk ⟨index (entryKey (s.memory last)), readLogTail (s.memory last)⟩) := by
  obtain ⟨_, _, _, isHead, traversed, rebuilt, isLast⟩ := replays
  unfold recoverClient
  rw [isHead, bind_some, traversed, bind_some, rebuilt, bind_some, isLast,
    bind_some, lastAllocatedInfo_eq rebuilt isLast, allocated, map_some]

theorem resurrects_iff (agree : ∀ key replica, index key replica = index key 0) (key : List UInt8) :
    Resurrects numReplication checkKey junk index s key ↔
      ∃ last, Replays s last ∧ entryKey (s.memory last) = key ∧
        RedoneAt numReplication checkKey junk index s last := by
  constructor
  · rintro ⟨replayed, recovered, ran, replica, pos, changed, -, subblock, server, addr, held⟩
    obtain ⟨last, alloc, replays, rfl, allocated, returned⟩ := of_recoverClient ran
    have word := (wordsFrom_clientRecovery returned replica pos).resolve_left changed
    -- the word that binds the key is that of the replayed entry
    rw [word, Request.target, raceHashSlot_fillSlot] at server
    rw [word, Request.target, rKvAddr_fillSlot] at addr
    obtain ⟨ownServer, ownAddr⟩ := of_mmAllocLogInfo allocated
    obtain rfl : last = subblock :=
      SubblockInfo.ext (ownServer.symm.trans server) (ownAddr.symm.trans addr)
    exact ⟨last, replays, held, alloc, allocated,
      (changes_iff (agree _)).mp ⟨recovered, returned, replica, pos, changed⟩⟩
  · rintro ⟨last, replays, rfl, alloc, allocated, redone⟩
    obtain ⟨recovered, returned, replica, pos, changed⟩ := (changes_iff (agree _)).mpr redone
    have word := (wordsFrom_clientRecovery returned replica pos).resolve_left changed
    obtain ⟨server, addr⟩ := of_mmAllocLogInfo allocated
    refine ⟨_, recovered, ?_, replica, pos, changed, ?_, last, ?_, ?_, rfl⟩
    · rw [recoverClient_of_replays replays allocated, returned]
    · exact word ▸ isCandidate_fillSlot alloc _
    · rw [word, Request.target, raceHashSlot_fillSlot]
      exact server
    · rw [word, Request.target, rKvAddr_fillSlot]
      exact addr

end Replayed

section Entry

variable {subblockSz : ℕ} {kvInfo : KVInfo} {mmAllocCtx : LogAllocCtx}

theorem load_insert {offset width : ℕ} {variant : Variant} {old : Image}
    (small : subblockSz < 2 ^ 32) (covered : offset + width ≤ subblockSz)
    (apart : 0 < offset ∧ offset + width ≤ tailOffset kvInfo.lAddr ∨
      tailOffset kvInfo.lAddr + 12 ≤ offset ∧
        offset + width ≤ tailOffset kvInfo.lAddr + offsetofOp) :
    load ((writeEntry subblockSz kvInfo mmAllocCtx .insert variant).execute old) offset width =
      load kvInfo.lAddr offset width := by
  have req : writeEntry subblockSz kvInfo mmAllocCtx .insert variant =
      writeKv subblockSz kvInfo mmAllocCtx .insert := by
    cases variant <;> rfl
  have behind : 8 ≤ tailOffset kvInfo.lAddr := by
    rw [tailOffset, sizeofKVLogHeader]
    omega
  simp only [offsetofOp] at apart
  rw [req, WriteRequest.execute, writeKv, genWriteKvLength, Nat.mod_eq_of_lt small,
    load_copy covered, fillEntry, updateLogTail,
    load_store_of_disjoint (by rw [length_linkBytes, offsetofPrevAddr]; omega),
    load_store_of_disjoint (by rw [length_linkBytes]; omega),
    load_store_of_disjoint (by rw [length_singleton]; omega),
    load_store_of_disjoint (by rw [length_singleton, offsetofOp]; omega)]

variable (small : subblockSz < 2 ^ 32)
  (fits : tailOffset kvInfo.lAddr + sizeofKVLogTail ≤ subblockSz) (variant : Variant) (old : Image)
include small fits

theorem tailOffset_insert :
    tailOffset ((writeEntry subblockSz kvInfo mmAllocCtx .insert variant).execute old) =
      tailOffset kvInfo.lAddr := by
  apply tailOffset_execute (by decide)
  rw [Nat.mod_eq_of_lt small]
  rw [tailOffset] at fits
  omega

theorem readLogTail_insert :
    readLogTail ((writeEntry subblockSz kvInfo mmAllocCtx .insert variant).execute old) =
      ⟨loadWord kvInfo.lAddr (tailOffset kvInfo.lAddr + offsetofOldValue), .insert⟩ := by
  have tail := @tailOffset_insert subblockSz kvInfo mmAllocCtx small fits variant old
  have transferred : (traverseEntry
      ((writeEntry subblockSz kvInfo mmAllocCtx .insert variant).execute old)).op = 1 := by
    have covered : tailOffset kvInfo.lAddr + offsetofOp < subblockSz % 2 ^ 32 := by
      rw [Nat.mod_eq_of_lt small]
      simp only [sizeofKVLogTail] at fits
      rw [offsetofOp]
      omega
    have read := @traverseEntry_copy_fillEntry kvInfo.lAddr old _ _ .insert mmAllocCtx rfl covered
    cases variant <;> exact congrArg TailInfo.op read
  have word : load ((writeEntry subblockSz kvInfo mmAllocCtx .insert variant).execute old)
      (tailOffset kvInfo.lAddr + offsetofOldValue) 8 =
        load kvInfo.lAddr (tailOffset kvInfo.lAddr + offsetofOldValue) 8 := by
    simp only [sizeofKVLogTail] at fits
    apply load_insert small
    · rw [offsetofOldValue]
      omega
    · rw [offsetofOldValue, offsetofOp]
      omega
  rw [traverseEntry, readTail] at transferred
  dsimp only at transferred
  rw [readLogTail, transferred, tail, loadWord, loadWord, word]
  rfl

theorem entryKey_insert :
    entryKey ((writeEntry subblockSz kvInfo mmAllocCtx .insert variant).execute old) =
      entryKey kvInfo.lAddr := by
  have tail : tailOffset kvInfo.lAddr = 8 + keyLength kvInfo.lAddr + valueLength kvInfo.lAddr := rfl
  simp only [sizeofKVLogTail] at fits
  have length : keyLength ((writeEntry subblockSz kvInfo mmAllocCtx .insert variant).execute old) =
      keyLength kvInfo.lAddr := by
    apply congrArg Packed.ofBytes
    apply load_insert small
    · omega
    · omega
  rw [entryKey, length, entryKey]
  apply load_insert small
  · rw [sizeofKVLogHeader]
    omega
  · rw [sizeofKVLogHeader]
    omega

end Entry

/-! ## Operations one at a time -/

/-- An operation begins when no other is running. -/
def OneAtATime (s : ChainSystem layout) : ChainEvent layout → Prop
  | .mmAlloc .. => ∀ coro, s.requests coro = none
  | _ => True

/-- At most one request is running, in a subblock that it fits into.  Once it has
written its entry, the entry is there. -/
structure Running (s : ChainSystem layout) : Prop where
  unique : ∀ coro other, (s.requests coro).isSome → (s.requests other).isSome → coro = other
  fits : ∀ coro req, s.requests coro = some req →
    layout.getAlignedSize (kvBlockSize req.reqType req.variant req.kvInfo) /
      layout.subblockSz = 1
  written : ∀ coro req, s.requests coro = some req → req.written →
    ∃ old, s.memory req.mmAllocCtx.current =
      (writeEntry layout.subblockSz req.kvInfo req.mmAllocCtx req.reqType req.variant).execute old

namespace Running

variable {s after : ChainSystem layout}

theorem of_isInitial (initial : s.IsInitial) : Running s := by
  obtain ⟨_, _, rfl, -⟩ := initial
  constructor
  · intro coro other active
    cases active
  · intro coro req active
    cases active
  · intro coro req active
    cases active

variable {coro : ℕ} {req : ChainRequest}

theorem ended (running : Running s) (active : s.requests coro = some req)
    (requests : after.requests = update s.requests coro none) : Running after := by
  have idle : ∀ other, after.requests other = none := by
    intro other
    rw [requests]
    by_cases same : other = coro
    · rw [same, update_self]
    · rw [update_of_ne same]
      by_contra otherActive
      apply same
      apply running.unique other coro (isSome_iff_ne_none.mpr otherActive)
      rw [active]
      rfl
  constructor
  · intro first other active
    rw [idle first] at active
    cases active
  · intro first req active
    rw [idle first] at active
    cases active
  · intro first req active
    rw [idle first] at active
    cases active

theorem only (coro : ℕ) (new : ChainRequest)
    (isOnly : ∀ other found, after.requests other = some found → other = coro ∧ found = new)
    (fits : layout.getAlignedSize (kvBlockSize new.reqType new.variant new.kvInfo) /
      layout.subblockSz = 1)
    (written : new.written → ∃ old, after.memory new.mmAllocCtx.current =
      (writeEntry layout.subblockSz new.kvInfo new.mmAllocCtx new.reqType new.variant).execute old) :
    Running after := by
  constructor
  · intro first other firstActive otherActive
    obtain ⟨found, firstActive⟩ := isSome_iff_exists.mp firstActive
    obtain ⟨otherFound, otherActive⟩ := isSome_iff_exists.mp otherActive
    rw [(isOnly first found firstActive).1, (isOnly other otherFound otherActive).1]
  · intro other found active
    rw [(isOnly other found active).2]
    exact fits
  · intro other found active
    rw [(isOnly other found active).2]
    exact written

theorem isOnly_of_update (running : Running s) {new : ChainRequest}
    (active : s.requests coro = some req) (other : ℕ) (found : ChainRequest)
    (otherActive : update s.requests coro (some new) other = some found) :
    other = coro ∧ found = new := by
  obtain only | ⟨apart, otherActive⟩ := update_eq_some otherActive
  · exact only
  · apply absurd _ apart
    apply running.unique other coro
    · rw [otherActive]
      rfl
    · rw [active]
      rfl

theorem mmAlloc {reqType : KVRequestType} {variant : Variant} {kvInfo : KVInfo}
    {reply : Option (ClientMMBlock layout)} (running : Running s)
    (idle : ∀ coro, s.requests coro = none)
    (taken : s.step (.mmAlloc coro reqType variant kvInfo reply) = some after) : Running after := by
  obtain ⟨-, _, _, result, allocated, rfl⟩ := step_mmAlloc taken
  have fits := (ClientMM.mmAlloc_cases allocated).1
  cases result with
  | none => exact ⟨running.unique, running.fits, running.written⟩
  | some ctx =>
    apply only coro ⟨reqType, variant, kvInfo, ctx, false, false⟩ _ fits
    · intro written
      cases written
    · intro other found active
      obtain isNew | ⟨-, active⟩ := update_eq_some active
      · exact isNew
      · rw [show s.requests other = none from idle other] at active
        cases active

theorem step (running : Running s) {event : ChainEvent layout}
    (alone : OneAtATime s event) (taken : s.step event = some after) : Running after := by
  cases event with
  | mmAlloc coro reqType variant kvInfo reply => exact running.mmAlloc alone taken
  | writeKv coro =>
    obtain ⟨req, active, -, rfl⟩ := step_writeKv taken
    apply only coro { req with written := true } (running.isOnly_of_update active)
      (running.fits coro req active)
    exact fun _ => ⟨_, s.memory_write_self coro req⟩
  | install coro =>
    obtain ⟨req, active, written, -, rfl⟩ := step_install taken
    apply only coro { req with installed := true } (running.isOnly_of_update active)
      (running.fits coro req active)
    exact fun _ => running.written coro req active written
  | mmFreeCur coro =>
    obtain ⟨req, active, -, -, rfl⟩ := step_mmFreeCur taken
    exact running.ended active rfl
  | finish coro =>
    obtain ⟨_, active, -, rfl⟩ := step_finish taken
    exact running.ended active rfl
  | unreference subblock =>
    obtain rfl := some.inj taken
    exact ⟨running.unique, running.fits, running.written⟩
  | mmAllocSubtable space =>
    obtain rfl := some.inj taken
    exact ⟨running.unique, running.fits, running.written⟩

theorem of_reachable (reached : Reachable ChainSystem.step OneAtATime IsInitial s) : Running s := by
  apply reached.invariant
  · exact fun _ => of_isInitial
  · exact fun _ _ _ running alone taken => running.step alone taken

end Running

/-! ## The recovery after a failed insert -/

def insertRequest (numReplication : ℕ) (checkKey : List UInt8 → UInt64 → Bool)
    (req : ChainRequest) : Request :=
  prepareRequest numReplication checkKey (oneSubblock req.mmAllocCtx.current)
    (entryKey req.kvInfo.lAddr)

def insertTail (req : ChainRequest) : KVLogTail :=
  ⟨loadWord req.kvInfo.lAddr (tailOffset req.kvInfo.lAddr + offsetofOldValue), .insert⟩

theorem small_of_mmTraverseLog {subblockSz : ℕ} {memory : Subblocks} {head : SubblockInfo}
    (traversed : mmTraverseLog subblockSz memory head = some recoverLogInfoList)
    (isLast : getLastLogRecoverInfo recoverLogInfoList = some last) : subblockSz < 2 ^ 32 := by
  unfold mmTraverseLog at traversed
  split_ifs at traversed with zero
  · obtain rfl := some.inj traversed
    cases isLast
  · have capacity : tailCapacity = tailCapacity - 1 + 1 := by decide
    rw [capacity, Library.traverse.eq_2] at traversed
    split_ifs at traversed with readable
    simp only [isReadable, Bool.and_eq_true, decide_eq_true_eq] at readable
    have bound := readable.1.1
    unfold Memory.clientMetaLen recSpaceSize at bound
    omega

section Failed

variable {s : ChainSystem layout} {req : ChainRequest}
  (insert : req.reqType = .insert)
  (fits : layout.getAlignedSize (kvBlockSize req.reqType req.variant req.kvInfo) /
    layout.subblockSz = 1)
  (entry : ∃ old, s.memory req.mmAllocCtx.current =
    (writeEntry layout.subblockSz req.kvInfo req.mmAllocCtx req.reqType req.variant).execute old)
  (numReplication : ℕ) (checkKey : List UInt8 → UInt64 → Bool) (junk : Uninitialised)
  (index : List UInt8 → IndexReplicas k)
include insert fits entry

theorem replayed_of_replays (replays : Replays s req.mmAllocCtx.current) :
    entryKey (s.memory req.mmAllocCtx.current) = entryKey req.kvInfo.lAddr ∧
      readLogTail (s.memory req.mmAllocCtx.current) = insertTail req ∧
      mmAllocLogInfo layout req.mmAllocCtx.current
        (s.memory req.mmAllocCtx.current) = some (oneSubblock req.mmAllocCtx.current) := by
  obtain ⟨_, _, _, -, traversed, -, isLast⟩ := replays
  obtain ⟨_, entry⟩ := entry
  have small := small_of_mmTraverseLog traversed isLast
  rw [insert] at entry fits
  have size : kvBlockSize .insert req.variant req.kvInfo =
      tailOffset req.kvInfo.lAddr + sizeofKVLogTail := kvBlockSize_eq (by decide) _ _
  rw [size] at fits
  have inside := le_of_getAlignedSize fits
  rw [entry, entryKey_insert small inside, readLogTail_insert small inside]
  refine ⟨rfl, rfl, mmAllocLogInfo_eq _ ?_⟩
  rw [tailOffset_insert small inside, Nat.mod_eq_of_lt (inside.trans_lt small), fits]

theorem redoneAt_current_iff (replays : Replays s req.mmAllocCtx.current) :
    RedoneAt numReplication checkKey junk index s req.mmAllocCtx.current ↔
      InsertRedone (insertRequest numReplication checkKey req) junk
        ⟨index (entryKey req.kvInfo.lAddr), insertTail req⟩ := by
  obtain ⟨key, tail, alloc⟩ := replayed_of_replays insert fits entry replays
  unfold RedoneAt
  rw [key, tail, alloc]
  constructor
  · rintro ⟨_, ⟨⟩, redone⟩
    exact redone
  · intro redone
    exact ⟨_, rfl, redone⟩

end Failed

variable {req : ChainRequest} {before : ChainSystem layout}

theorem insert_of_mmFreeCur {coro : ℕ} (active : before.requests coro = some req)
    (failed : before.step (.mmFreeCur coro) = some s) :
    req.reqType = .insert ∧ req.written ∧ s = before.giveBack coro req := by
  obtain ⟨_, same, failed⟩ := bind_eq_some_iff.mp failed
  obtain rfl := some.inj (active.symm.trans same)
  split_ifs at failed with ready
  exact ⟨ready.1, ready.2.1, (some.inj failed).symm⟩

/-- The key of a failed insert is not installed if and only if the recovery does not
replay the entry of the insert in a way that does the insert again, nor an older
entry with the same key in a way that changes the index. -/
theorem not_resurrects_iff {before s : ChainSystem layout} {coro : ℕ} {req : ChainRequest}
    (reached : Reachable step OneAtATime IsInitial before)
    (active : before.requests coro = some req) (failed : before.step (.mmFreeCur coro) = some s)
    (numReplication : ℕ) (checkKey : List UInt8 → UInt64 → Bool) (junk : Uninitialised)
    {index : List UInt8 → IndexReplicas k}
    (agree : ∀ key replica, index key replica = index key 0) :
    ¬ Resurrects numReplication checkKey junk index s
        (entryKey req.kvInfo.lAddr) ↔
      (Replays s req.mmAllocCtx.current →
        ¬ InsertRedone (insertRequest numReplication checkKey req) junk
          ⟨index (entryKey req.kvInfo.lAddr), insertTail req⟩) ∧
      ∀ last ≠ req.mmAllocCtx.current, Replays s last →
        entryKey (s.memory last) = entryKey req.kvInfo.lAddr →
        ¬ RedoneAt numReplication checkKey junk index s last := by
  have running := Running.of_reachable reached
  obtain ⟨insert, written, rfl⟩ := insert_of_mmFreeCur active failed
  have entry := running.written coro req active written
  have fits := running.fits coro req active
  rw [resurrects_iff agree]
  constructor
  · intro never
    constructor
    · intro replays redone
      exact never ⟨_, replays, (replayed_of_replays insert fits entry replays).1,
        (redoneAt_current_iff insert fits entry _ _ _ _ replays).mpr redone⟩
    · intro last _ replays key redone
      exact never ⟨last, replays, key, redone⟩
  · rintro ⟨current, older⟩ ⟨last, replays, key, redone⟩
    by_cases same : last = req.mmAllocCtx.current
    · rw [same] at replays redone
      exact current replays ((redoneAt_current_iff insert fits entry _ _ _ _ replays).mp redone)
    · exact older last same replays key redone

/-! ## Runs within the recovery buffer -/

/-- After a run of inserts and updates within the limits of the recovery buffer,
the entry of the failed insert is always the one that is replayed. -/
theorem replays_of_permitted (small : layout.subblockSz ≤ Memory.clientMetaLen) {coro : ℕ}
    (reached : Reachable step Permitted Started before)
    (active : before.requests coro = some req)
    (failed : before.step (.mmFreeCur coro) = some s) : Replays s req.mmAllocCtx.current := by
  obtain ⟨order, touched, frontier⟩ := frontier_of_reachable small reached
  have permitted : before.Permitted (.mmFreeCur coro) := ⟨⟨trivial, trivial⟩, trivial⟩
  have chained := frontier.chained.step (frontier.ordered small permitted.1.1) failed
  have later := frontier.mmFreeCur chained failed
  obtain ⟨-, written, -⟩ := insert_of_mmFreeCur active failed
  obtain ⟨earlier, _, shape, length⟩ := frontier.order_eq active
  have touched_eq : touched = earlier.length + 1 := by
    rw [(frontier.inFlight coro req active).written written, length]
  have nonempty : order ≠ [] := by
    rw [shape]
    simp
  obtain ⟨isHead, traversed⟩ := later.traversed small nonempty
  have link : nextSubblock s.memory req.mmAllocCtx.current =
      some req.mmAllocCtx.next := by
    apply later.remote.links earlier.length (by omega)
    · rw [shape]
      simp
    · rw [shape]
      simp
  have hasEntry : s.HasEntry := by
    refine ⟨req.mmAllocCtx.current, fun zero => ?_⟩
    rw [nextSubblock_of_zero zero] at link
    cases link
  obtain ⟨_, _, mm, otherHead, otherTraversed, rebuilt, -⟩ := later.recovers small hasEntry
  obtain rfl := some.inj (isHead.symm.trans otherHead)
  obtain rfl := some.inj (traversed.symm.trans otherTraversed)
  have taken : order.take (touched + 1) =
      earlier ++ [req.mmAllocCtx.current, req.mmAllocCtx.next] := by
    have all : earlier.length + 1 + 1 - earlier.length = 2 := by omega
    rw [touched_eq, shape, take_append, all, take_of_length_le (by omega)]
    rfl
  refine ⟨_, _, mm, isHead, traversed, rebuilt, ?_⟩
  rw [taken]
  apply getLastLogRecoverInfo_eq
  rw [reverse_append]
  rfl

/-! ## One insert that fails -/

theorem oneAtATime_of_permitted (reached : Reachable step Permitted Started s) :
    Reachable step OneAtATime IsInitial s := by
  apply reached.weaken
  · exact fun s started => started.1
  · intro s event permitted
    cases event with
    | mmAlloc => exact permitted.1.2.2
    | writeKv | install | mmFreeCur | finish | unreference | mmAllocSubtable => trivial

/-- The first operation of a client is an insert, and it fails. -/
theorem exists_failedInsert : ∃ (before s : ChainSystem smallLayout)
    (req : ChainRequest),
    Reachable step Permitted Started before ∧
      before.requests 0 = some req ∧ before.step (.mmFreeCur 0) = some s ∧
      (insertTail req).oldValue = 0 := by
  obtain ⟨before, reached, active, fails⟩ := Reachable.exists_of_run step
    SingleCoroutine
    [.mmAlloc 0 .insert .async (headerInfo 1 1) none, .writeKv 0]
    (fun s : ChainSystem smallLayout =>
      (s.requests 0).any (fun req => (insertTail req).oldValue = 0) ∧
        (s.step (.mmFreeCur 0)).isSome)
    started_smallBlock (by decide +kernel)
  obtain ⟨req, active, unset⟩ := (Option.any_eq_true _ _).mp active
  obtain ⟨s, failed⟩ := isSome_iff_exists.mp fails
  exact ⟨before, s, req, permitted_of_singleCoroutine reached, active, failed,
    of_decide_eq_true unset⟩

def fullBuckets : Buckets := fun _ => 1

/-- Another client has deleted one pair. -/
def oneEmpty : Buckets := fun pos => if pos = (0, 0) then 0 else 1

theorem findEmptySlot_fullBuckets : ∀ fMainIdx sMainIdx,
    findEmptySlot fullBuckets fMainIdx sMainIdx = none := by
  decide

theorem findEmptySlot_oneEmpty : ∀ fMainIdx sMainIdx,
    findEmptySlot oneEmpty fMainIdx sMainIdx ≠ none := by
  decide

/-- While the buckets are full, nothing is inserted. -/
theorem not_resurrects_iff_full : ∃ (before s : ChainSystem smallLayout)
    (req : ChainRequest),
    Reachable step OneAtATime IsInitial before ∧
      before.requests 0 = some req ∧ before.step (.mmFreeCur 0) = some s ∧
      ¬ Resurrects 2 (fun _ _ => false) zeroed (fun _ (_ : Fin 2) => fullBuckets) s
        (entryKey req.kvInfo.lAddr) := by
  obtain ⟨before, s, req, reached, active, failed, -⟩ := exists_failedInsert
  refine ⟨before, s, req, oneAtATime_of_permitted reached, active, failed, ?_⟩
  rw [not_resurrects_iff (oneAtATime_of_permitted reached) active failed 2 (fun _ _ => false) zeroed
    (fun _ _ => rfl)]
  constructor
  · intro _ redone
    exact redone.free (findEmptySlot_fullBuckets _ _)
  · -- the log is within the recovery buffer, so that no older entry is replayed
    intro last older replays
    exact absurd (replays.unique (replays_of_permitted (by decide) reached active failed)) older

/-- The insert failed because the buckets were full.  One slot is free when the
client is recovered, and the recovery inserts the pair into it. -/
theorem resurrects_oneEmpty : ∃ (before s : ChainSystem smallLayout)
    (req : ChainRequest),
    Reachable step OneAtATime IsInitial before ∧
      before.requests 0 = some req ∧ before.step (.mmFreeCur 0) = some s ∧
      (∀ fMainIdx sMainIdx, findEmptySlot fullBuckets fMainIdx sMainIdx = none) ∧
      oneEmpty = update fullBuckets (0, 0) 0 ∧
      Resurrects 2 (fun _ _ => false) zeroed (fun _ (_ : Fin 2) => oneEmpty) s
        (entryKey req.kvInfo.lAddr) := by
  obtain ⟨before, s, req, reached, active, failed, uncommitted⟩ := exists_failedInsert
  have updated : oneEmpty = update fullBuckets (0, 0) 0 := by
    funext pos
    rw [update_apply]
    rfl
  refine ⟨before, s, req, oneAtATime_of_permitted reached, active, failed,
    findEmptySlot_fullBuckets, updated, ?_⟩
  have running := Running.of_reachable (oneAtATime_of_permitted reached)
  have replays := replays_of_permitted (by decide) reached active failed
  obtain ⟨insert, written, rfl⟩ := insert_of_mmFreeCur active failed
  have entry := running.written 0 req active written
  have fits := running.fits 0 req active
  have redone := (redoneAt_current_iff insert fits entry 2 (fun _ _ => false) zeroed
    (fun _ (_ : Fin 2) => oneEmpty) replays).mpr
    ⟨rfl, by simp [logIsCommitted, uncommitted], rfl, findEmptySlot_oneEmpty _ _, by decide⟩
  rw [resurrects_iff fun _ _ => rfl]
  exact ⟨_, replays, (replayed_of_replays insert fits entry replays).1, redone⟩

end FuseeFs.Recovery
