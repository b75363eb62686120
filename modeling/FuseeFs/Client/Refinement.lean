import FuseeFs.Client.Contents

/-!
# The operations of one client refine a map

Each operation is followed through the cache, the buckets and the replicas, and
is found to act on the contents of the store as on a map.
-/

namespace FuseeFs.Client

open List Option Function Index KeyValue Library Replication

/-! ## The map -/

def MapStep {k : ℕ} (before : Contents) (full : Prop) [Decidable full] (after : Contents)
    (result : RetVal) : Operation k → Prop
  | .search req => result = .value (before req.key) ∧ after = before
  | .insert req =>
    if full then result = .retCode .failReturn ∧ after = before
    else result = .retCode .success ∧ after = update before req.key (some req.value)
  | .update req =>
    if before req.key = none then result = .retCode .failReturn ∧ after = before
    else result = .retCode .success ∧ after = update before req.key (some req.value)
  | .delete req => result = .retCode .success ∧ after = update before req.key none

def Operation.key {k : ℕ} : Operation k → List UInt8
  | .search req => req.key
  | .insert req | .update req | .delete req => req.key

def ActsAsMap {k : ℕ} (conf : Conf) (store : Store k) (op : Operation k) : Prop :=
  ∃ after result, exec conf store op = some (after, result) ∧
    MapStep (store.contents conf) (store.BucketsFull conf op.key) (after.contents conf)
      result op

/-- Keys are shorter than the buffer for them and have no NUL. -/
def IsKey (key : List UInt8) : Prop :=
  key.length < 128 ∧ 0 ∉ key

instance (key : List UInt8) : Decidable (IsKey key) :=
  inferInstanceAs (Decidable (_ ∧ _))

/-- Operations on proper keys, with memory that is not in use; only absent keys
are inserted. -/
def Allowed {k : ℕ} (conf : Conf) (store : Store k) : Operation k → Prop
  | .search req => IsKey req.key
  | .insert req =>
    IsKey req.key ∧ req.subblock ∉ store.allocated ∧ store.contents conf req.key = none
  | .update req | .delete req => IsKey req.key ∧ req.subblock ∉ store.allocated

instance instDecidableAllowed {k : ℕ} (conf : Conf) (store : Store k) :
    (op : Operation k) → Decidable (Allowed conf store op)
  | .search _ => inferInstanceAs (Decidable (IsKey _))
  | .insert _ => inferInstanceAs (Decidable (_ ∧ _ ∧ _))
  | .update _ | .delete _ => inferInstanceAs (Decidable (_ ∧ _))

def step {k : ℕ} (conf : Conf) (store : Store k) (op : Operation k) : Option (Store k) :=
  (exec conf store op).map Prod.fst

section Replicas

variable {k : ℕ}
variable {cas : KVCASAddr k} {done : Words × (Fin k → UInt64)}

theorem casBackup_of_expected {backup : Fin k}
    (found : done.1 (cas.rKvAddr backup.succ) = cas.origValue) :
    casBackup cas (fun _ => some cas.origValue) done backup =
      (update done.1 (cas.rKvAddr backup.succ) cas.swapValue,
        update done.2 backup cas.origValue) := by
  simp [casBackup, casWord, found]

theorem foldl_casBackup_of_expected (distinct : Injective cas.rKvAddr)
    {backups : List (Fin k)} (once : backups.Nodup)
    (found : ∀ backup ∈ backups, done.1 (cas.rKvAddr backup.succ) = cas.origValue) :
    backups.foldl (casBackup cas fun _ => some cas.origValue) done =
      (fun place => if ∃ backup ∈ backups, cas.rKvAddr backup.succ = place then cas.swapValue
          else done.1 place,
        fun backup => if backup ∈ backups then cas.origValue else done.2 backup) := by
  induction backups generalizing done with
  | nil => simp
  | cons first backups ih =>
    obtain ⟨notAgain, once⟩ := nodup_cons.mp once
    have others : ∀ backup ∈ backups, cas.rKvAddr backup.succ ≠ cas.rKvAddr first.succ :=
      fun backup mem equal => notAgain (Fin.succ_injective _ (distinct equal) ▸ mem)
    rw [foldl_cons, casBackup_of_expected (found first mem_cons_self), ih once]
    · refine Prod.ext (funext fun place => ?_) (funext fun backup => ?_)
      · by_cases here : place = cas.rKvAddr first.succ
        · simp [here]
        · simp [here, Ne.symm here]
      · by_cases here : backup = first
        · simp [here]
        · simp [here]
    · intro backup mem
      exact (update_of_ne (others backup mem) _ _).trans (found backup (mem_cons_of_mem _ mem))

theorem casBackups_of_expected {words : Words} (distinct : Injective cas.rKvAddr)
    (expected : ∀ replica, words (cas.rKvAddr replica) = cas.origValue) :
    casBackups cas (fun _ => some cas.origValue) words =
      (fun place => if ∃ backup : Fin k, cas.rKvAddr backup.succ = place then cas.swapValue
          else words place, fun _ => cas.origValue) := by
  rw [casBackups, foldl_casBackup_of_expected distinct (nodup_finRange k)
    fun backup _ => expected backup.succ]
  simp

/-- A request whose slot has the same word on all replicas changes it on all of
them, and succeeds. -/
theorem modifyIdxSync_of_expected (reqType : KVRequestType) (req : WriteReq) {store : Store k}
    (distinct : Injective cas.rKvAddr)
    (expected : ∀ replica, store.words (cas.rKvAddr replica) = cas.origValue) :
    modifyIdxSync reqType req cas store =
      some ({ store with
        words := install store.words cas.rKvAddr cas.swapValue
        pairs := writeInvalid reqType cas store.pairs
        addrCache := cacheModified reqType req cas store.addrCache }, .retCode .success) := by
  have apart : ∀ backup : Fin k, cas.rKvAddr backup.succ ≠ cas.rKvAddr 0 :=
    fun backup equal => Fin.succ_ne_zero backup (distinct equal)
  -- the primary comes last and still has the old word
  have primary (words : Words) (found : words (cas.rKvAddr 0) = cas.origValue)
      (backups : ∀ place, place ≠ cas.rKvAddr 0 →
        words place = install store.words cas.rKvAddr cas.swapValue place) :
      modifyPrimaryIdxSync reqType req cas .winAll { store with words := words } =
        ({ store with
          words := install store.words cas.rKvAddr cas.swapValue
          pairs := writeInvalid reqType cas store.pairs
          addrCache := cacheModified reqType req cas store.addrCache }, .retCode .success) := by
    have swapped : update words (cas.rKvAddr 0) cas.swapValue =
        install store.words cas.rKvAddr cas.swapValue := by
      funext place
      by_cases here : place = cas.rKvAddr 0
      · rw [here, update_self, install_of_mem]
      · rw [update_of_ne here, backups place here]
    simp [modifyPrimaryIdxSync, SlotCas.modifyPrimaryIdxSync, KVCASAddr.slotCas, casWord, found,
      swapped]
  unfold modifyIdxSync
  split_ifs with single
  · subst single
    refine congrArg some (primary store.words (expected 0) fun place here => ?_)
    refine (install_of_not_mem fun replica equal => here ?_).symm
    rw [← equal, Fin.fin_one_eq_zero replica]
  · rw [casBackups_of_expected distinct expected]
    have unanimous := @SlotCas.modifyBackupIdxConsensus1Sync_of_unanimous k _ cas.slotCas
      (fun _ => cas.origValue) (Nat.pos_of_ne_zero single) fun _ => .inl rfl
    simp only [unanimous, map_some, ne_eq, not_true_eq_false, and_false, if_false]
    refine congrArg some (primary _ ?_ fun place here => ?_)
    · exact (if_neg fun ⟨backup, equal⟩ => apart backup equal).trans (expected 0)
    · simp [install, Fin.exists_fin_succ, Ne.symm here]

end Replicas

section Cache

variable {k : ℕ} {good : List UInt8 → UInt64 → (Fin (k + 1) → ℕ) → Prop}
  {before cache : AddrCache k} {key : List UInt8}

/-- An entry of a later cache is good or stood, up to its counters, in the earlier
one. -/
def Learns (good : List UInt8 → UInt64 → (Fin (k + 1) → ℕ) → Prop) (before cache : AddrCache k) :
    Prop :=
  ∀ key, ∀ entry ∈ cache key, good key entry.lSlotPtr entry.rSlotAddr ∨
    ∃ old ∈ before key, old.lSlotPtr = entry.lSlotPtr ∧ old.rSlotAddr = entry.rSlotAddr

theorem Learns.refl (good : List UInt8 → UInt64 → (Fin (k + 1) → ℕ) → Prop)
    (cache : AddrCache k) : Learns good cache cache :=
  fun _ entry present => .inr ⟨entry, present, rfl, rfl⟩

theorem Learns.trans {better : List UInt8 → UInt64 → (Fin (k + 1) → ℕ) → Prop}
    {after : AddrCache k} (first : Learns good before cache) (second : Learns better cache after)
    (kept : ∀ key lSlotPtr rSlotAddr, good key lSlotPtr rSlotAddr → better key lSlotPtr rSlotAddr) :
    Learns better before after := by
  intro key entry present
  obtain isGood | ⟨old, oldPresent, word, addresses⟩ := second key entry present
  · exact .inl isGood
  · rw [← word, ← addresses]
    exact (first key old oldPresent).imp_left (kept key _ _)

/-- What holds of all entries of the earlier cache and of all good ones holds of
all entries of the later cache. -/
theorem Learns.forall (learns : Learns good before cache)
    (old : ∀ key, ∀ entry ∈ before key, good key entry.lSlotPtr entry.rSlotAddr)
    {entry : LocalCacheEntry k} (present : entry ∈ cache key) :
    good key entry.lSlotPtr entry.rSlotAddr := by
  obtain isGood | ⟨entry, present, word, addresses⟩ := learns key entry present
  · exact isGood
  · rw [← word, ← addresses]
    exact old key entry present

theorem Learns.update (learns : Learns good before cache) {value : Option (LocalCacheEntry k)}
    (new : ∀ entry ∈ value, good key entry.lSlotPtr entry.rSlotAddr ∨
      ∃ old ∈ before key, old.lSlotPtr = entry.lSlotPtr ∧ old.rSlotAddr = entry.rSlotAddr) :
    Learns good before (update cache key value) := by
  intro other entry present
  by_cases same : other = key
  · subst same
    rw [update_self] at present
    exact new entry present
  · rw [update_of_ne same] at present
    exact learns other entry present

theorem Learns.countAccess (learns : Learns good before cache) :
    Learns good before (countAccess cache key) := by
  refine learns.update fun new present => ?_
  obtain ⟨entry, cached, rfl⟩ := map_eq_some_iff.mp present
  exact learns key entry cached

theorem Learns.removeCache (learns : Learns good before cache) :
    Learns good before (removeCache cache key) :=
  learns.update (by simp)

theorem learns_checkCache (good : List UInt8 → UInt64 → (Fin (k + 1) → ℕ) → Prop)
    (missRateExceeds : UInt32 → UInt32 → Bool) (cache : AddrCache k) (key : List UInt8) :
    Learns good cache (checkCache missRateExceeds cache key).1 := by
  unfold Client.checkCache
  cases cache key with
  | none => exact .refl good cache
  | some entry =>
    dsimp only
    split_ifs
    · exact (Learns.refl good cache).removeCache
    · exact .refl good cache
    · exact .refl good cache

theorem Learns.updateCache (learns : Learns good before cache) {slotInfo : UInt64}
    {rSlotAddrList : Fin (k + 1) → ℕ} (isGood : good key slotInfo rSlotAddrList) :
    Learns good before (updateCache cache key slotInfo rSlotAddrList) := by
  refine learns.update fun new present => ?_
  cases cached : cache key with
  | none =>
    simp only [cached, mem_def, Option.some.injEq] at present
    exact present ▸ .inl isGood
  | some entry =>
    simp only [cached, mem_def, Option.some.injEq] at present
    split_ifs at present
    · exact present ▸ .inl isGood
    · exact present ▸ learns key entry cached

variable {conf : Conf} {store : Store k}
variable (conf store) in
def CacheGood : Prop :=
  ∀ key, ∀ entry ∈ store.addrCache key, EntryGood conf store key entry.lSlotPtr entry.rSlotAddr

variable (conf) in
/-- An operation that reads the cache finds a good entry if it finds one. -/
def Store.EntryUsable (store : Store k) (useCache : Bool) (key : List UInt8) : Prop :=
  useCache → ∀ entry ∈ store.addrCache key, EntryGood conf store key entry.lSlotPtr entry.rSlotAddr

theorem readCachedKv_spec (good : List UInt8 → UInt64 → (Fin (k + 1) → ℕ) → Prop) (conf : Conf)
    (store : Store k) (isKey : IsKey key) (useCache : Bool) :
    ∃ cache, (readCachedKv conf useCache key store).1 = { store with addrCache := cache } ∧
      Learns good store.addrCache cache ∧
      ∀ entry pair, (readCachedKv conf useCache key store).2 = some (entry, pair) →
        useCache ∧ entry ∈ store.addrCache key ∧ pair = store.pairs (location entry.lSlotPtr) ∧
          pair.isValid ∧ pair.key = key := by
  unfold readCachedKv
  split_ifs with usesCache
  · rw [keyStr_eq_self isKey.2]
    have learns := learns_checkCache good conf.missRateExceeds store.addrCache key
    have present := mem_of_checkCache conf.missRateExceeds store.addrCache key
    cases result : checkCache conf.missRateExceeds store.addrCache key with
    | mk checked hit =>
    rw [result] at learns present
    cases hit with
    | none => exact ⟨checked, rfl, learns, by simp⟩
    | some entry =>
      dsimp only
      split_ifs with same
      · refine ⟨_, rfl, learns.countAccess, fun found pair equal => ?_⟩
        obtain ⟨rfl, rfl⟩ := Prod.mk.inj (some.inj equal)
        exact ⟨usesCache, present entry rfl, rfl, same⟩
      · exact ⟨checked, rfl, learns, by simp⟩
  · exact ⟨store.addrCache, rfl, .refl _ _, by simp⟩

end Cache

section Operations

variable {k : ℕ} {conf : Conf} {store : Store k}

def KeepsEntries (conf : Conf) (store after : Store k) : Prop :=
  ∀ key lSlotPtr rSlotAddr, EntryGood conf store key lSlotPtr rSlotAddr →
    EntryGood conf after key lSlotPtr rSlotAddr

/-- Writes to memory that nothing refers to make no difference. -/
theorem Consistent.of_agree (consistent : Consistent conf store) (after : Store k)
    (words : after.words = store.words) (allocated : store.allocated ⊆ after.allocated)
    (pairs : ∀ place ∈ store.allocated, after.pairs place = store.pairs place) :
    Consistent conf after ∧ KeepsEntries conf store after ∧
      after.contents conf = store.contents conf := by
  have slot : ∀ key pos, after.slot conf key pos = store.slot conf key pos := by
    intro key pos
    rw [Store.slot, Store.slot, words]
  have finds : ∀ key pos, after.Finds conf key pos ↔ store.Finds conf key pos := by
    intro key pos
    rw [Store.Finds, Store.Finds, slot]
    refine and_congr_right fun candidate => ?_
    rw [pairs _ (consistent.allocated key pos (ne_zero_of_isCandidate candidate))]
  have entries : KeepsEntries conf store after := by
    rintro key _ _ ⟨inUse, current⟩
    refine ⟨allocated inUse, fun valid same => ?_⟩
    rw [pairs _ inUse] at valid same
    obtain ⟨pos, found, word, addresses⟩ := current valid same
    exact ⟨pos, (finds key pos).mpr found, (slot key pos).trans word, addresses⟩
  refine ⟨⟨fun key pos replica => ?_, fun key pos nonzero => ?_,
    fun key pos other first second => ?_⟩, entries, ?_⟩
  · rw [words, slot]
    exact consistent.replicas key pos replica
  · rw [slot] at nonzero ⊢
    exact allocated (consistent.allocated key pos nonzero)
  · exact consistent.unique key pos other ((finds key pos).mp first) ((finds key other).mp second)
  · funext key
    cases before : store.contents conf key with
    | none =>
      rw [Store.contents_eq_none_iff] at before ⊢
      exact fun pos found => before pos ((finds key pos).mp found)
    | some value =>
      obtain ⟨pos, found⟩ : ∃ pos, store.Finds conf key pos := by
        rw [← not_forall_not, ← Store.contents_eq_none_iff, before]
        simp
      have only : ∀ other, store.Finds conf key other → other = pos :=
        fun other => consistent.unique key pos other found
      rw [Store.contents_of_finds ((finds key pos).mpr found)
        fun other also => only other ((finds key other).mp also), slot,
        pairs _ (consistent.allocated key pos found.ne_zero),
        ← Store.contents_of_finds found only, before]

theorem Consistent.contents_of_entryGood (consistent : Consistent conf store) {key : List UInt8}
    {lSlotPtr : UInt64} {rSlotAddr : Fin (k + 1) → ℕ}
    (good : EntryGood conf store key lSlotPtr rSlotAddr)
    (valid : (store.pairs (location lSlotPtr)).isValid)
    (same : (store.pairs (location lSlotPtr)).key = key) :
    store.contents conf key = some (store.pairs (location lSlotPtr)).value := by
  obtain ⟨pos, finds, word, -⟩ := good.2 valid same
  rw [Store.contents_of_finds finds fun other => consistent.unique key pos other finds, word]

theorem entryGood_of_finds (counts : k + 1 ≤ conf.numReplication)
    (consistent : Consistent conf store) {req : SearchReq k} {pos : Position}
    (candidate : isCandidate (fingerprint req.key) (store.slot conf req.key pos)) :
    EntryGood conf store req.key (store.slot conf req.key pos)
      (remoteSlotAddrList conf req pos) := by
  refine ⟨consistent.allocated _ _ (ne_zero_of_isCandidate candidate), fun _ same => ?_⟩
  exact ⟨pos, ⟨candidate, same⟩, rfl, fun replica => if_pos (by omega)⟩

/-- A search changes the cache only, and returns what is stored if the entry of its
key is good. -/
theorem kvSearchSync_spec (counts : k + 1 ≤ conf.numReplication)
    (consistent : Consistent conf store) (req : SearchReq k) (isKey : IsKey req.key) :
    ∃ cache result, kvSearchSync conf req store = ({ store with addrCache := cache }, result) ∧
      Learns (EntryGood conf store) store.addrCache cache ∧
      (store.EntryUsable conf req.useCache req.key → result = .value (store.contents conf req.key)) := by
  obtain ⟨cache, sameStore, learns, hit⟩ :=
    readCachedKv_spec (EntryGood conf store) conf store isKey req.useCache
  cases read : readCachedKv conf req.useCache req.key store with
  | mk checked cached =>
  rw [read] at sameStore hit
  obtain rfl : checked = { store with addrCache := cache } := sameStore
  cases cached with
  | some found =>
    obtain ⟨entry, pair⟩ := found
    obtain ⟨useCache, present, rfl, valid, same⟩ := hit entry pair rfl
    refine ⟨cache, .value (some (store.pairs (location entry.lSlotPtr)).value), ?_, learns, ?_⟩
    · simp only [kvSearchSync, read]
    · intro usable
      rw [consistent.contents_of_entryGood (usable useCache entry present) valid same]
  | none =>
    cases found : findMatch (readBuckets conf.raceRoot store.words req.key) store.pairs req.key with
    | none =>
      refine ⟨cache, .value none, ?_, learns, fun _ => ?_⟩
      · simp only [kvSearchSync, read, found]
      · rw [Store.contents, found, map_none]
    | some pos =>
      have finds : store.Finds conf req.key pos := pointsTo_of_findMatch found
      refine ⟨if req.useCache then updateCache cache req.key (store.slot conf req.key pos)
        (remoteSlotAddrList conf req pos) else cache,
        .value (some (store.pairs (location (store.slot conf req.key pos))).value),
        ?_, ?_, fun _ => ?_⟩
      · simp only [kvSearchSync, read, found, keyStr_eq_self isKey.2, Store.slot]
        split_ifs <;> rfl
      · split_ifs
        · exact learns.updateCache (entryGood_of_finds counts consistent finds.1)
        · exact learns
      · rw [Store.contents, found, map_some]

theorem findCasAddr_spec (req : WriteReq) (isKey : IsKey req.key)
    (usable : store.EntryUsable conf req.useCache req.key) (swapValue : UInt64) {buckets : Buckets}
    (read : buckets = readBuckets conf.raceRoot store.words req.key) :
    ∃ cache casAddr, Learns (EntryGood conf store) store.addrCache cache ∧
      findCasAddr conf req swapValue buckets store = ({ store with addrCache := cache }, casAddr) ∧
      (casAddr = none ∧ store.contents conf req.key = none ∨
        ∃ pos, store.Finds conf req.key pos ∧ casAddr = some
          { rKvAddr := remoteSlotAddr conf req.key pos
            origValue := store.slot conf req.key pos
            swapValue := swapValue }) := by
  subst read
  obtain ⟨cache, sameStore, learns, hit⟩ :=
    readCachedKv_spec (EntryGood conf store) conf store isKey req.useCache
  cases read : readCachedKv conf req.useCache req.key store with
  | mk checked cached =>
  rw [read] at sameStore hit
  obtain rfl : checked = { store with addrCache := cache } := sameStore
  refine ⟨cache, _, learns, Prod.ext ?_ rfl, ?_⟩
  · cases cached <;> simp only [findCasAddr, read]
  · cases cached with
    | some found =>
      obtain ⟨entry, pair⟩ := found
      obtain ⟨useCache, present, rfl, valid, same⟩ := hit entry pair rfl
      obtain ⟨pos, finds, word, addresses⟩ := (usable useCache entry present).2 valid same
      refine .inr ⟨pos, finds, ?_⟩
      simp only [findCasAddr, read, Option.some.injEq, KVCASAddr.mk.injEq, and_true]
      exact ⟨funext fun replica => Prod.ext rfl (addresses replica), word.symm⟩
    | none =>
      cases found : findMatch (readBuckets conf.raceRoot store.words req.key) store.pairs req.key with
      | none =>
        refine .inl ⟨?_, ?_⟩
        · simp only [findCasAddr, read, found, map_none]
        · rw [Store.contents, found, map_none]
      | some pos =>
        refine .inr ⟨pos, pointsTo_of_findMatch found, ?_⟩
        simp only [findCasAddr, read, found, map_some]
        rfl

theorem location_newSlot (req : WriteReq) : location req.newSlot = req.subblock := by
  simp [location, WriteReq.newSlot, WriteReq.subblock, raceHashSlot_fillSlot]

def Written (req : WriteReq) (store : Store k) : Prop :=
  req.subblock ∈ store.allocated ∧ store.pairs req.subblock = ⟨true, req.key, req.value⟩

theorem written_writeKv (req : WriteReq) (store : Store k) : Written req (writeKv req store) :=
  ⟨mem_cons_self, update_self ..⟩

variable {req : WriteReq}

theorem Written.pointsTo (written : Written req store) :
    location req.newSlot ∈ store.allocated ∧ PointsTo store.pairs req.key req.newSlot := by
  rw [PointsTo, location_newSlot, written.2]
  exact ⟨written.1, isCandidate_fillSlot .., rfl⟩

/-- What others see of a request: it writes its own memory, and otherwise at most
the valid bytes of pairs in use. -/
structure Preserves (conf : Conf) (store after : Store k) (req : WriteReq) : Prop where
  entries : KeepsEntries conf store after
  learns : Learns (EntryGood conf after) store.addrCache after.addrCache
  inUse : ∀ place ∈ store.allocated, (after.pairs place).key = (store.pairs place).key ∧
    (after.pairs place).value = (store.pairs place).value
  elsewhere : ∀ place ∉ store.allocated, place ≠ req.subblock →
    after.pairs place = store.pairs place
  allocated : ∀ place ∈ after.allocated, place = req.subblock ∨ place ∈ store.allocated
  written : (after.pairs req.subblock).key = req.key ∧ (after.pairs req.subblock).value = req.value

theorem Consistent.withCache (consistent : Consistent conf store) (cache : AddrCache k) :
    Consistent conf { store with addrCache := cache } :=
  ⟨consistent.replicas, consistent.allocated, consistent.unique⟩

variable {after : Store k}

theorem Preserves.trans {middle : Store k} (first : Preserves conf store middle req)
    (second : Preserves conf middle after req) (subset : store.allocated ⊆ middle.allocated) :
    Preserves conf store after req where
  entries key word addrs good := second.entries key word addrs (first.entries key word addrs good)
  learns := first.learns.trans second.learns second.entries
  inUse place allocated := by
    obtain ⟨key, value⟩ := second.inUse place (subset allocated)
    obtain ⟨keyBefore, valueBefore⟩ := first.inUse place allocated
    exact ⟨key.trans keyBefore, value.trans valueBefore⟩
  elsewhere place free other := by
    have free' : place ∉ middle.allocated := fun allocated =>
      (first.allocated place allocated).elim other free
    rw [second.elsewhere place free' other, first.elsewhere place free other]
  allocated place allocated :=
    (second.allocated place allocated).elim Or.inl (first.allocated place)
  written := second.written

theorem Preserves.withCache (preserves : Preserves conf store after req) {cache : AddrCache k}
    (learns : Learns (EntryGood conf after) after.addrCache cache) :
    Preserves conf store { after with addrCache := cache } req where
  entries := preserves.entries
  learns := preserves.learns.trans learns fun _ _ _ => id
  inUse := preserves.inUse
  elsewhere := preserves.elsewhere
  allocated := preserves.allocated
  written := preserves.written

section Modify

variable (conf) in
def slotCas (store : Store k) (key : List UInt8) (pos : Position) (swapValue : UInt64) :
    KVCASAddr k where
  rKvAddr := remoteSlotAddr conf key pos
  origValue := store.slot conf key pos
  swapValue := swapValue

variable (conf) in
def modified (reqType : KVRequestType) (req : WriteReq) (pos : Position) (swapValue : UInt64)
    (store : Store k) : Store k :=
  let cas := slotCas conf store req.key pos swapValue
  { store with
    words := install store.words cas.rKvAddr swapValue
    pairs := writeInvalid reqType cas store.pairs
    addrCache := cacheModified reqType req cas store.addrCache }

variable {req : WriteReq} {pos : Position}

theorem rewrites_insert (written : Written req store)
    (free : isFree (store.slot conf req.key pos)) (absent : store.contents conf req.key = none) :
    Rewrites conf store (modified conf .insert req pos req.newSlot store) req.key pos
      req.newSlot where
  words := rfl
  pairs _ _ := ⟨rfl, rfl, id⟩
  replaced _ _ points := not_isCandidate_of_isFree free points.1
  only other finds := absurd finds (Store.contents_eq_none_iff.mp absent other)
  invalidated finds := absurd finds (Store.contents_eq_none_iff.mp absent pos)
  allocated := List.Subset.refl _
  installed := .inr written.pointsTo

variable {reqType : KVRequestType} {swapValue : UInt64}

theorem rewrites_replace (consistent : Consistent conf store) (replaces : reqType ≠ .insert)
    (finds : store.Finds conf req.key pos)
    (installed : swapValue = 0 ∨ location swapValue ∈ store.allocated ∧ PointsTo store.pairs
      req.key swapValue) :
    Rewrites conf store (modified conf reqType req pos swapValue store) req.key pos
      swapValue := by
  have pairs : (modified conf reqType req pos swapValue store).pairs =
      update store.pairs (location (store.slot conf req.key pos))
        { store.pairs (location (store.slot conf req.key pos)) with isValid := false } := by
    cases reqType with
    | insert => exact absurd rfl replaces
    | update => rfl
    | delete => rfl
  -- only the valid byte of the old pair is written
  have kept : ∀ place, ((modified conf reqType req pos swapValue store).pairs place).key =
        (store.pairs place).key ∧
      ((modified conf reqType req pos swapValue store).pairs place).value =
        (store.pairs place).value ∧
      (((modified conf reqType req pos swapValue store).pairs place).isValid →
        (store.pairs place).isValid) := by
    intro place
    rw [pairs]
    by_cases old : place = location (store.slot conf req.key pos)
    · simp [old]
    · simp [old]
  refine ⟨rfl, fun place _ => kept place, fun other apart points => ?_, fun other => ?_,
    fun _ => ?_, List.Subset.refl _, ?_⟩
  · exact apart (points.2.symm.trans finds.2)
  · exact consistent.unique _ pos other finds
  · rw [pairs, update_self]
    simp
  · refine installed.imp_right fun ⟨allocated, candidate, key⟩ => ⟨allocated, candidate, ?_⟩
    rw [(kept _).1, key]

theorem preserves_modified (consistent : Consistent conf store) (written : Written req store)
    (rewrites : Rewrites conf store (modified conf reqType req pos swapValue store) req.key
      pos swapValue)
    (learns : Learns (EntryGood conf (modified conf reqType req pos swapValue store))
      store.addrCache (modified conf reqType req pos swapValue store).addrCache)
    (replaces : reqType = .insert ∨ store.Finds conf req.key pos) :
    Preserves conf store (modified conf reqType req pos swapValue store) req where
  entries _ _ _ good := rewrites.entryGood consistent good
  learns := learns
  inUse place allocated := by
    obtain ⟨key, value, -⟩ := rewrites.pairs place allocated
    exact ⟨key, value⟩
  elsewhere place free _ := by
    have other (finds : store.Finds conf req.key pos) :
        place ≠ location (store.slot conf req.key pos) := fun same =>
      free (same ▸ consistent.allocated _ _ finds.ne_zero)
    cases reqType with
    | insert => rfl
    | update => exact update_of_ne (other (replaces.resolve_left (by simp))) _ _
    | delete => exact update_of_ne (other (replaces.resolve_left (by simp))) _ _
  allocated _ allocated := Or.inr allocated
  written := by
    obtain ⟨key, value, -⟩ := rewrites.pairs req.subblock written.1
    rw [key, value, written.2]
    exact ⟨rfl, rfl⟩

theorem learns_modified (layout : Coherent conf.raceRoot k) (consistent : Consistent conf store)
    (isKey : IsKey req.key) (nonzero : reqType ≠ .delete → swapValue ≠ 0)
    (rewrites : Rewrites conf store (modified conf reqType req pos swapValue store) req.key
      pos swapValue) :
    Learns (EntryGood conf (modified conf reqType req pos swapValue store)) store.addrCache
      (modified conf reqType req pos swapValue store).addrCache := by
  generalize afterwards : modified conf reqType req pos swapValue store = after at rewrites ⊢
  have old := Learns.refl (EntryGood conf after) store.addrCache
  have new (writes : reqType ≠ .delete) : EntryGood conf after req.key swapValue fun replica =>
      (remoteSlotAddr conf req.key pos replica).2 := by
    have finds := (rewrites.finds_self_iff layout consistent pos).mpr ⟨rfl, nonzero writes⟩
    refine ⟨(rewrites.installed.resolve_left (nonzero writes)).1, fun _ _ => ?_⟩
    exact ⟨pos, finds, rewrites.slot_self, fun _ => rfl⟩
  have cache : after.addrCache =
      cacheModified reqType req (slotCas conf store req.key pos swapValue) store.addrCache := by
    rw [← afterwards]
    rfl
  rw [cache]
  unfold cacheModified
  rw [keyStr_eq_self isKey.2]
  split_ifs
  · cases reqType with
    | insert => exact old.updateCache (new (by simp))
    | update => exact old.updateCache (new (by simp))
    | delete => exact old.removeCache
  · exact old

theorem modifyIdxSync_slotCas (layout : Coherent conf.raceRoot k)
    (consistent : Consistent conf store) (reqType : KVRequestType) (req : WriteReq)
    (pos : Position) (swapValue : UInt64) :
    modifyIdxSync reqType req (slotCas conf store req.key pos swapValue) store =
      some (modified conf reqType req pos swapValue store, .retCode .success) := by
  refine modifyIdxSync_of_expected reqType req (fun replica other equal => ?_)
    (consistent.replicas req.key pos)
  have same : (replica, pos) = (other, pos) := layout.distinct req.key equal
  exact congrArg Prod.fst same

theorem modifyIdxSync_replace (layout : Coherent conf.raceRoot k)
    (consistent : Consistent conf store) (isKey : IsKey req.key) (written : Written req store)
    (finds : store.Finds conf req.key pos)
    (replaces : reqType = .update ∧ swapValue = req.newSlot ∨ reqType = .delete ∧ swapValue = 0) :
    ∃ after, modifyIdxSync reqType req (slotCas conf store req.key pos swapValue) store =
        some (after, .retCode .success) ∧ Consistent conf after ∧ Preserves conf store after req ∧
      after.contents conf = update (store.contents conf) req.key
        (if swapValue = 0 then none else some req.value) := by
  obtain ⟨allocated, points⟩ := written.pointsTo
  have notInsert : reqType ≠ .insert := by
    obtain ⟨rfl, -⟩ | ⟨rfl, -⟩ := replaces <;> simp
  have installed : swapValue = 0 ∨
      location swapValue ∈ store.allocated ∧ PointsTo store.pairs req.key swapValue := by
    obtain ⟨-, rfl⟩ | ⟨-, rfl⟩ := replaces
    · exact .inr ⟨allocated, points⟩
    · exact .inl rfl
  have nonzero (writes : reqType ≠ .delete) : swapValue ≠ 0 := by
    obtain ⟨-, rfl⟩ | ⟨rfl, -⟩ := replaces
    · exact points.ne_zero
    · exact absurd rfl writes
  have rewrites := rewrites_replace consistent notInsert finds installed
  have learns := learns_modified layout consistent isKey nonzero rewrites
  refine ⟨_, modifyIdxSync_slotCas layout consistent .., rewrites.consistent layout consistent,
    preserves_modified consistent written rewrites learns (.inr finds), ?_⟩
  rw [rewrites.contents_eq layout consistent]
  obtain ⟨-, rfl⟩ | ⟨-, rfl⟩ := replaces
  · rw [(rewrites.pairs _ allocated).2.1, location_newSlot, written.2]
  · rfl

end Modify

section Requests

variable (layout : Coherent conf.raceRoot k) (consistent : Consistent conf store) {req : WriteReq}
  (isKey : IsKey req.key) (fresh : req.subblock ∉ store.allocated)
include fresh

theorem pairs_writeKv {place : Location} (inUse : place ∈ store.allocated) :
    (writeKv req store).pairs place = store.pairs place := by
  refine update_of_ne (fun equal => ?_) _ _
  rw [equal] at inUse
  exact fresh inUse

include consistent

theorem writeKv_spec : Consistent conf (writeKv req store) ∧
    Preserves conf store (writeKv req store) req ∧
    (writeKv req store).contents conf = store.contents conf := by
  obtain ⟨kept, entries, contents⟩ := consistent.of_agree (writeKv req store) rfl
    (subset_cons_self _ _) fun _ => pairs_writeKv fresh
  refine ⟨kept, ⟨entries, .refl _ _, fun place allocated => ?_, fun place _ other => ?_,
    fun place => mem_cons.mp, ?_⟩, contents⟩
  · rw [pairs_writeKv fresh allocated]
    exact ⟨rfl, rfl⟩
  · exact update_of_ne other _ _
  · rw [(written_writeKv req store).2]
    exact ⟨rfl, rfl⟩

/-- A request that gives its memory back leaves the store as it was. -/
theorem mmFreeCur_writeKv_spec : Consistent conf (mmFreeCur req (writeKv req store)) ∧
    Preserves conf store (mmFreeCur req (writeKv req store)) req ∧
    (mmFreeCur req (writeKv req store)).contents conf = store.contents conf := by
  have allocated : (mmFreeCur req (writeKv req store)).allocated = store.allocated :=
    erase_cons_head ..
  obtain ⟨-, written, -⟩ := writeKv_spec consistent fresh
  obtain ⟨kept, entries, contents⟩ :=
    consistent.of_agree (mmFreeCur req (writeKv req store)) rfl
      (by rw [allocated]; exact List.Subset.refl _) fun _ => pairs_writeKv fresh
  refine ⟨kept, ⟨entries, .refl _ _, written.inUse, written.elsewhere, fun place inUse => ?_,
    written.written⟩, contents⟩
  rw [allocated] at inUse
  exact Or.inr inUse

include layout isKey

theorem kvInsertSync_spec (absent : store.contents conf req.key = none) :
    ∃ after result, kvInsertSync conf req store = some (after, result) ∧ Consistent conf after ∧
      Preserves conf store after req ∧
      MapStep (store.contents conf) (store.BucketsFull conf req.key) (after.contents conf) result
        (.insert (k := k) req) := by
  obtain ⟨written, preserves, unchanged⟩ := writeKv_spec consistent fresh
  cases found : findEmptySlot (readBuckets conf.raceRoot store.words req.key)
      (getKvAddrInfo (getKvHashInfo req.key).hashValue).fMainIdx
      (getKvAddrInfo (getKvHashInfo req.key).hashValue).sMainIdx with
  | none =>
    obtain ⟨kept, freed, same⟩ := mmFreeCur_writeKv_spec consistent fresh
    have full : store.BucketsFull conf req.key := (findEmptySlot_eq_none_iff ..).mp found
    refine ⟨mmFreeCur req (writeKv req store), .retCode .failReturn, ?_, kept, freed, ?_⟩
    · simp only [kvInsertSync, found]
    · rw [MapStep, if_pos full]
      exact ⟨rfl, same⟩
  | some pos =>
    have free : isFree (store.slot conf req.key pos) := isFree_of_findEmptySlot found
    have notFull : ¬ store.BucketsFull conf req.key := fun full => full pos free
    have log := written_writeKv req store
    have rewrites := rewrites_insert log free (unchanged ▸ absent)
    have nonzero : req.newSlot ≠ 0 := log.pointsTo.2.ne_zero
    have learns := learns_modified layout written isKey (fun _ => nonzero) rewrites
    refine ⟨modified conf .insert req pos req.newSlot (writeKv req store),
      .retCode .success, ?_, rewrites.consistent layout written,
      preserves.trans (preserves_modified written log rewrites learns (.inl rfl))
        (subset_cons_self _ _), ?_⟩
    · simp only [kvInsertSync, found]
      exact modifyIdxSync_slotCas layout written ..
    · rw [MapStep, if_neg notFull]
      refine ⟨rfl, ?_⟩
      rw [rewrites.contents_eq layout written, if_neg nonzero, unchanged, location_newSlot]
      exact congrArg (fun pair : KVPair => update (store.contents conf) req.key
        (some pair.value)) log.2

theorem kvReplaceSync_spec (usable : store.EntryUsable conf req.useCache req.key)
    {reqType : KVRequestType} (notFound : KVOpsRetCode) {swapValue : UInt64}
    (replaces : reqType = .update ∧ swapValue = req.newSlot ∨ reqType = .delete ∧ swapValue = 0) :
    ∃ after result, kvReplaceSync conf reqType notFound swapValue req store = some (after, result) ∧
      Consistent conf after ∧ Preserves conf store after req ∧
      if store.contents conf req.key = none then
        result = .retCode notFound ∧ after.contents conf = store.contents conf
      else result = .retCode .success ∧ after.contents conf = update (store.contents conf)
        req.key (if swapValue = 0 then none else some req.value) := by
  obtain ⟨written, preserves, unchanged⟩ := writeKv_spec consistent fresh
  obtain ⟨cache, _, learns, found, absent | ⟨pos, finds, rfl⟩⟩ :=
    findCasAddr_spec req isKey
      (fun useCache entry present => preserves.entries _ _ _ (usable useCache entry present))
      swapValue (rfl : readBuckets conf.raceRoot store.words req.key = _)
  · refine ⟨{ writeKv req store with addrCache := cache }, .retCode notFound, ?_,
      written.withCache cache, preserves.withCache learns, ?_⟩
    · simp only [kvReplaceSync, found, absent.1]
    · rw [if_pos (unchanged ▸ absent.2)]
      exact ⟨rfl, unchanged⟩
  · have present : ¬ store.contents conf req.key = none := by
      rw [← unchanged, Store.contents_eq_none_iff]
      exact fun absent => absent pos finds
    obtain ⟨after, executed, kept, modifies, contents⟩ := modifyIdxSync_replace layout
      (written.withCache cache) isKey (written_writeKv req store) finds replaces
    refine ⟨after, .retCode .success, ?_, kept,
      (preserves.withCache learns).trans modifies (subset_cons_self _ _), ?_⟩
    · simp only [kvReplaceSync, found]
      exact executed
    · rw [if_neg present]
      refine ⟨rfl, contents.trans ?_⟩
      rw [← unchanged]
      rfl

end Requests

def Keeps (conf : Conf) (store after : Store k) : Operation k → Prop
  | .search _ => ∃ cache, after = { store with addrCache := cache } ∧
      Learns (EntryGood conf store) store.addrCache cache
  | .insert req | .update req | .delete req => Preserves conf store after req

/-- An operation finds no entry in the cache, or a good one.  Inserts do not look
there. -/
def Usable (conf : Conf) (store : Store k) : Operation k → Prop
  | .search req => store.EntryUsable conf req.useCache req.key
  | .insert _ => True
  | .update req | .delete req => store.EntryUsable conf req.useCache req.key

theorem CacheGood.usable (good : CacheGood conf store) (op : Operation k) :
    Usable conf store op := by
  cases op with
  | insert => trivial
  | search => exact fun _ => good _
  | update => exact fun _ => good _
  | delete => exact fun _ => good _

variable {op : Operation k}

theorem Keeps.cacheGood (keeps : Keeps conf store after op) (good : CacheGood conf store) :
    CacheGood conf after := by
  have preserved {req : WriteReq} (preserves : Preserves conf store after req) :
      CacheGood conf after := fun _ _ present =>
    preserves.learns.forall (fun key entry old => preserves.entries _ _ _ (good key entry old)) present
  cases op with
  | search =>
    obtain ⟨_, rfl, learns⟩ := keeps
    exact fun _ _ present => learns.forall good present
  | insert => exact preserved keeps
  | update => exact preserved keeps
  | delete => exact preserved keeps

/-- In a consistent store every operation that the cache does not mislead acts as
on a map, and leaves the store consistent. -/
theorem exec_spec (layout : Coherent conf.raceRoot k) (counts : k + 1 ≤ conf.numReplication)
    (consistent : Consistent conf store) (allowed : Allowed conf store op)
    (usable : Usable conf store op) :
    ∃ after result, exec conf store op = some (after, result) ∧ Consistent conf after ∧
      Keeps conf store after op ∧
      MapStep (store.contents conf) (store.BucketsFull conf op.key) (after.contents conf)
        result op := by
  cases op with
  | search req =>
    obtain ⟨cache, result, executed, learns, current⟩ :=
      kvSearchSync_spec counts consistent req allowed
    exact ⟨_, _, congrArg some executed, consistent.withCache cache, ⟨cache, rfl, learns⟩,
      current usable, rfl⟩
  | insert req =>
    obtain ⟨isKey, fresh, absent⟩ := allowed
    exact kvInsertSync_spec layout consistent isKey fresh absent
  | update req =>
    obtain ⟨isKey, fresh⟩ := allowed
    obtain ⟨after, result, executed, kept, preserves, effect⟩ :=
      kvReplaceSync_spec layout consistent isKey fresh usable .failReturn (.inl ⟨rfl, rfl⟩)
    have nonzero : req.newSlot ≠ 0 := (written_writeKv req store).pointsTo.2.ne_zero
    rw [if_neg nonzero] at effect
    exact ⟨after, result, executed, kept, preserves, effect⟩
  | delete req =>
    obtain ⟨isKey, fresh⟩ := allowed
    obtain ⟨after, result, executed, kept, preserves, effect⟩ :=
      kvReplaceSync_spec layout consistent isKey fresh usable .success (.inr ⟨rfl, rfl⟩)
    refine ⟨after, result, executed, kept, preserves, ?_⟩
    rw [if_pos rfl] at effect
    split_ifs at effect with absent
    · refine ⟨effect.1, effect.2.trans ?_⟩
      rw [← absent]
      exact (update_eq_self _ _).symm
    · exact effect

end Operations

section Runs

variable {k : ℕ} {conf : Conf}
variable {store : Store k}

theorem consistent_of_empty (words : ∀ place, store.words place = 0) : Consistent conf store := by
  have empty : ∀ key pos, store.slot conf key pos = 0 := fun _ _ => words _
  refine ⟨fun key pos replica => ?_, fun key pos nonzero => ?_, fun key pos other finds => ?_⟩
  · rw [empty, words]
  · exact absurd (empty key pos) nonzero
  · exact absurd (empty key pos) finds.ne_zero

theorem contents_of_isInitial (isInitial : store.IsInitial) (key : List UInt8) :
    store.contents conf key = none :=
  Store.contents_eq_none_iff.mpr fun _ finds => finds.ne_zero (isInitial.1 _)

theorem consistent_of_reachable (layout : Coherent conf.raceRoot k)
    (counts : k + 1 ≤ conf.numReplication)
    (reached : Reachable (step conf) (Allowed conf) Store.IsInitial store) :
    Consistent conf store ∧ CacheGood conf store := by
  apply reached.invariant
  · intro store isInitial
    refine ⟨consistent_of_empty isInitial.1, fun key entry present => ?_⟩
    rw [isInitial.2.1] at present
    cases present
  · rintro _ op _ ⟨consistent, good⟩ allowed taken
    obtain ⟨_, _, executed, kept, keeps, -⟩ :=
      exec_spec layout counts consistent allowed (good.usable op)
    rw [step, executed, map_some, Option.some.injEq] at taken
    exact taken ▸ ⟨kept, keeps.cacheGood good⟩

theorem actsAsMap_of_reachable (layout : Coherent conf.raceRoot k)
    (counts : k + 1 ≤ conf.numReplication)
    (reached : Reachable (step conf) (Allowed conf) Store.IsInitial store) {op : Operation k}
    (allowed : Allowed conf store op) : ActsAsMap conf store op := by
  obtain ⟨consistent, good⟩ := consistent_of_reachable layout counts reached
  obtain ⟨after, result, executed, -, -, effect⟩ :=
    exec_spec layout counts consistent allowed (good.usable op)
  exact ⟨after, result, executed, effect⟩

/-- All runs of one client refine a map that is empty at first: every operation
returns what the map returns and changes it as the map changes. -/
def RefinesMap (conf : Conf) (k : ℕ) : Prop :=
  (∀ store : Store k, store.IsInitial → ∀ key, store.contents conf key = none) ∧
    ∀ (store : Store k) (op : Operation k),
      Reachable (step conf) (Allowed conf) Store.IsInitial store →
      Allowed conf store op → ActsAsMap conf store op

def sampleConfig (memoryNum : UInt32) : GlobalConfig where
  serverId := memoryNum
  memoryNum := memoryNum
  serverBaseAddr := 0x10000000
  serverDataLen := 0x800000000
  blockSize := 0x4000000
  numReplication := 2
  numIdxRep := 2
  mainCoreId := 0
  pollCoreId := 1

def sampleConf (memoryNum : UInt32) : Conf where
  raceRoot :=
    (initHashTable (sampleConfig memoryNum) ⟨fun _ _ => ⟨0, [0, 0, 0, 0, 0]⟩⟩ fun _ => initSubtable).1
  numReplication := 2
  missRateExceeds _ _ := false

def sampleKeys : List (List UInt8) :=
  [ [137, 215, 73, 77, 139, 93, 7, 227],
    [240, 114, 73, 148, 61, 144, 181, 24],
    [164, 179, 54, 198, 19, 58, 116, 25],
    [147, 170, 145, 84, 140, 125, 24, 158],
    [100, 208, 8, 218, 47, 65, 194, 90],
    [222, 70, 116, 88, 69, 88, 245, 28],
    [214, 156, 185, 98, 132, 139, 51, 4],
    [236, 119, 180, 14, 88, 220, 212, 212],
    [54, 247, 91, 109, 78, 109, 118, 181],
    [205, 154, 207, 202, 159, 129, 81, 156],
    [102, 126, 87, 74, 227, 116, 102, 222],
    [207, 250, 249, 134, 255, 32, 116, 169],
    [214, 190, 35, 214, 177, 133, 254, 176],
    [85, 255, 146, 131, 233, 19, 16, 12],
    [119, 250, 153, 32, 32, 211, 65, 148],
    [81, 122, 111, 11, 86, 139, 61, 190]]

def sampleVictim : List UInt8 :=
  [226, 222, 216, 119, 53, 32, 200, 241]

def sampleReq (key : List UInt8) (subblock : Fin 32) : WriteReq where
  key := key
  value := [1]
  useCache := false
  mmAllocCtx :=
    { numSubblocks := 1
      serverId := 0
      addr := 0x28008000 + 256 * subblock
      numSubblocks_ne_zero := one_subblock_ne_zero
      addr_aligned := by omega
      addr_lt := by omega }
  opWord := 0

def emptyStore {k : ℕ} : Store k where
  words _ := 0
  pairs _ := ⟨false, [], []⟩
  addrCache _ := none
  allocated := []

theorem isInitial_emptyStore {k : ℕ} : (emptyStore : Store k).IsInitial :=
  ⟨fun _ => rfl, fun _ => rfl, rfl⟩

end Runs

end FuseeFs.Client
