import FuseeFs.KeyValue.CachedInvariant

/-!
# The steps of cached searches and writes

Most steps only fill the local buffers of a request or change the cache of its
client.  Memory changes when a pair is written, in a place that nobody refers
to, and when a valid byte is cleared; the slot changes by a compare-and-swap,
whose write then is in its window until it has cleared the byte.
-/

namespace FuseeFs.KeyValue.Cached

open List Option Function Index Library Replication

variable {k : ℕ} {setting : Setting} {s after : System k}

section ActAlone

variable {slot next : SlotSystem k} {cas entry : KVReqCtx k} {action : Action k}

theorem prSwapped_leaveAsLoser (cas : KVReqCtx k) : cas.leaveAsLoser.prSwapped = cas.prSwapped := by
  obtain ⟨_, entryEq, -⟩ := cas.leaveAsLoser_eq
  rw [entryEq]

theorem prSwapped_modifyBackupIdxConsensus1 (cas : KVReqCtx k) (outcome : KVConsensusState) :
    (cas.modifyBackupIdxConsensus1 outcome).prSwapped = cas.prSwapped := by
  cases outcome with
  | finish => exact prSwapped_leaveAsLoser _
  | winAll => rw [KVReqCtx.modifyBackupIdxConsensus1, KVReqCtx.enterCommitLog_of_running _ rfl]
  | fail | winMajor | winLittle | non => rfl

theorem prSwapped_kvLogCommit (cas : KVReqCtx k) : cas.kvLogCommit.prSwapped = cas.prSwapped := by
  by_cases lost : cas.consensusState = .fail
  · obtain ⟨_, entryEq⟩ := cas.kvLogCommit_of_fail lost
    rw [entryEq]
  · rw [cas.kvLogCommit_of_ne_fail lost]

structure Stays (slot : SlotSystem k) (cas : KVReqCtx k) (next : SlotSystem k)
    (entry : KVReqCtx k) : Prop where
  primary : next.primary = slot.primary
  version : next.version = slot.version
  prSwapped : entry.prSwapped = cas.prSwapped
  running : cas.phase ≠ .finished

structure Swaps (slot : SlotSystem k) (cas : KVReqCtx k) (next : SlotSystem k)
    (entry : KVReqCtx k) : Prop where
  expected : slot.primary = cas.origValue
  running : cas.phase ≠ .finished
  primary : next.primary = cas.swapValue
  version : next.version = slot.version + 1
  prSwapped : entry.prSwapped = true
  phase : entry.phase = .finished

theorem actSpec_primary {op : ℕ} (acted : SlotSystem.ActSpec slot op cas action next)
    (found : slot.ops[op]? = some cas) :
    ∃ entry, next.ops = slot.ops.set op entry ∧
      (isCasPrimary action ∧ Swaps slot cas next entry ∨
        ¬(isCasPrimary action ∧ slot.primary = cas.origValue) ∧ Stays slot cas next entry) := by
  have apart : ∀ {phase : Phase k}, cas.phase = phase → phase ≠ .finished →
      cas.phase ≠ .finished := fun same differs => same ▸ differs
  cases acted with
  | casBackup0 phase | casBackup1 phase =>
    refine ⟨_, congrArg (List.set · op _) (SlotSystem.casBackup_ops ..), .inr ⟨by simp [isCasPrimary],
      ?_⟩⟩
    exact ⟨SlotSystem.casBackup_primary .., SlotSystem.casBackup_version .., rfl,
      apart phase (by simp)⟩
  | checkConsensus phase | readPrimary phase =>
    exact ⟨_, rfl, .inr ⟨by simp [isCasPrimary], rfl, rfl,
      prSwapped_modifyBackupIdxConsensus1 _ _, apart phase (by simp)⟩⟩
  | waitAgain phase =>
    refine ⟨cas, ?_, .inr ⟨by simp [isCasPrimary], rfl, rfl, rfl, apart phase (by simp)⟩⟩
    obtain ⟨inRange, held⟩ := List.getElem?_eq_some_iff.mp found
    exact (held ▸ set_getElem_self inRange).symm
  | waitOver phase =>
    exact ⟨_, rfl, .inr ⟨by simp [isCasPrimary], rfl, rfl, prSwapped_leaveAsLoser cas,
      apart phase (by simp)⟩⟩
  | checkSecondRound phase =>
    refine ⟨_, rfl, .inr ⟨by simp [isCasPrimary], rfl, rfl, ?_, apart phase (by simp)⟩⟩
    rw [KVReqCtx.finishSecondRound_eq]
  | commitLog phase =>
    exact ⟨_, rfl, .inr ⟨by simp [isCasPrimary], rfl, rfl, prSwapped_kvLogCommit cas,
      apart phase (by simp)⟩⟩
  | casPrimary phase =>
    have running := apart phase (by simp)
    by_cases same : slot.primary = cas.origValue
    · rw [SlotSystem.casPrimary_of_eq _ same, KVReqCtx.finishCasPrimary, if_pos same]
      exact ⟨_, rfl, .inl ⟨rfl, same, running, rfl, rfl, rfl, rfl⟩⟩
    · rw [SlotSystem.casPrimary_of_ne _ same, KVReqCtx.finishCasPrimary, if_neg same]
      refine ⟨_, rfl, .inr ⟨fun both => same both.2, rfl, rfl, ?_, running⟩⟩
      split_ifs <;> rfl

theorem actAlone_spec (acted : actAlone slot cas action = some (next, entry)) :
    cas.SameRequest entry ∧
      (isCasPrimary action ∧ Swaps slot cas next entry ∨
        ¬(isCasPrimary action ∧ slot.primary = cas.origValue) ∧ Stays slot cas next entry) := by
  obtain ⟨_, taken, acted⟩ := bind_eq_some_iff.mp acted
  obtain ⟨found, isHead, acted⟩ := bind_eq_some_iff.mp acted
  obtain ⟨rfl, rfl⟩ := Prod.mk.inj (some.inj acted)
  have spec := SlotSystem.act_spec taken
  obtain ⟨other, opsEq, same, -⟩ := spec.ops_eq rfl
  obtain ⟨again, opsAgain, effect⟩ := actSpec_primary spec rfl
  rw [opsEq] at isHead
  obtain rfl : other = found := some.inj isHead
  obtain rfl : other = again := by
    rw [opsEq] at opsAgain
    exact (List.cons.inj opsAgain).1
  refine ⟨same, ?_⟩
  rcases effect with ⟨isCas, swaps⟩ | ⟨notSwapped, stays⟩
  · exact .inl ⟨isCas, swaps.expected, swaps.running, swaps.primary, swaps.version,
      swaps.prSwapped, swaps.phase⟩
  · exact .inr ⟨notSwapped, stays.primary, stays.version, stays.prSwapped, stays.running⟩

end ActAlone

/-! ## The caches -/

def Within (before after : Caches) (new : ℕ) (fresh : UInt64 → Prop) : Prop :=
  ∀ pointer entry, after.entries pointer = some entry →
    (∃ old, before.entries pointer = some old ∧ old.lSlotPtr = entry.lSlotPtr) ∨
      (pointer = new ∨ (before.entries pointer).isSome) ∧ fresh entry.lSlotPtr

section Within

variable {before after : Caches} {new : ℕ} {fresh : UInt64 → Prop}

theorem Within.of_subset
    (subset : ∀ pointer entry, after.entries pointer = some entry →
      before.entries pointer = some entry) : Within before after new fresh :=
  fun pointer entry found => .inl ⟨entry, subset pointer entry found, rfl⟩

theorem within_refl (caches : Caches) : Within caches caches new fresh :=
  .of_subset fun _ _ found => found

theorem Within.of_update {own : ℕ} {changed : Option CacheEntry}
    (entries : after.entries = update before.entries own changed)
    (allowed : ∀ entry, changed = some entry →
      (∃ old, before.entries own = some old ∧ old.lSlotPtr = entry.lSlotPtr) ∨
        (own = new ∨ (before.entries own).isSome) ∧ fresh entry.lSlotPtr) :
    Within before after new fresh := by
  intro pointer entry found
  rw [entries] at found
  by_cases same : pointer = own
  · subst same
    rw [update_self] at found
    exact allowed entry found
  · rw [update_of_ne same] at found
    exact .inl ⟨entry, found, rfl⟩

theorem within_updateCache (caches : Caches) (client : ℕ) {slotInfo : UInt64}
    (isFresh : fresh slotInfo) : Within caches (caches.updateCache client new slotInfo) new fresh := by
  unfold Caches.updateCache
  split
  · apply Within.of_update rfl
    intro entry found
    obtain ⟨_, isOld, rfl⟩ := map_eq_some_iff.mp found
    rw [lSlotPtr_record]
    exact .inr ⟨.inr (isOld ▸ rfl), isFresh⟩
  · apply Within.of_update rfl
    intro entry found
    obtain rfl := some.inj found
    exact .inr ⟨.inl rfl, isFresh⟩

theorem within_countAccess (caches : Caches) (own : ℕ) :
    Within caches (caches.countAccess own) new fresh := by
  apply Within.of_update rfl
  intro entry found
  obtain ⟨old, isOld, rfl⟩ := map_eq_some_iff.mp found
  exact .inl ⟨old, isOld, rfl⟩

theorem within_countHit (caches : Caches) (cacheEntry : Option (ℕ × UInt64)) :
    Within caches
      ((cacheEntry.map fun cached => caches.countAccess cached.1).getD caches) new fresh := by
  cases cacheEntry with
  | none => exact within_refl caches
  | some cached => exact within_countAccess caches cached.1

theorem checkCache_spec (caches : Caches) (client : ℕ) (missRateExceeds : UInt32 → UInt32 → Bool) :
    (∀ pointer entry, (caches.checkCache client missRateExceeds).1.entries pointer = some entry →
        caches.entries pointer = some entry) ∧
      ∀ cached, (caches.checkCache client missRateExceeds).2 = some cached →
        ∃ entry, caches.entries cached.1 = some entry ∧ entry.lSlotPtr = cached.2 := by
  unfold Caches.checkCache
  split
  · exact ⟨fun _ _ found => found, fun _ found => by cases found⟩
  · rename_i own hit
    split
    · exact ⟨fun _ _ found => found, fun _ found => by cases found⟩
    · rename_i entry isEntry
      split_ifs
      · exact ⟨fun pointer other found => (update_none_eq_some found).2,
          fun _ found => by cases found⟩
      · exact ⟨fun _ _ found => found, fun _ found => by cases found⟩
      · refine ⟨fun _ _ found => found, fun cached found => ?_⟩
        obtain rfl := some.inj found
        exact ⟨entry, isEntry, rfl⟩

end Within

section Finds

variable {ctx : ReqCtx k}

theorem kvWritten_of_firstBatch {write : Write} (req : ctx.request = .write write)
    (complete : ctx.firstBatch) : ctx.kvWritten := by
  unfold ReqCtx.firstBatch at complete
  rw [req] at complete
  simp only [Bool.and_eq_true] at complete
  exact complete.2

theorem firstBatch_of_kvsRead (read : ctx.kvsRead setting) : ctx.firstBatch := by
  unfold ReqCtx.kvsRead at read
  simp only [Bool.and_eq_true] at read
  exact read.1.1

theorem findMatchKvIdx_spec {pos : Position} (found : ctx.findMatchKvIdx setting = some pos) :
    ∃ buckets pair, ctx.localBuckets = some buckets ∧ isCandidate setting.fp (buckets pos) ∧
      ctx.kvBuffers pos = some pair ∧ pair.key = setting.key := by
  have member := mem_of_find?_eq_some found
  have matching := find?_some found
  obtain ⟨pair, buffer, keyed⟩ := (Option.any_eq_true _ _).mp matching
  unfold ReqCtx.kvIdxList at member
  cases read : ctx.localBuckets with
  | none =>
    rw [read] at member
    cases member
  | some buckets =>
    rw [read] at member
    exact ⟨buckets, pair, rfl, (mem_findKvInBuckets _ _ _).mp member, buffer,
      of_decide_eq_true keyed⟩

theorem CtxOk.match_spec (ok : CtxOk setting s ctx) {pos : Position}
    (found : ctx.findMatchKvIdx setting = some pos) :
    ∃ buckets pair, pos = setting.position ∧ ctx.localBuckets = some buckets ∧
      ctx.kvBuffers pos = some pair ∧ s.Current ctx.invoked pair.value ∧
      Held setting s ctx.invoked (buckets pos) := by
  obtain ⟨buckets, pair, read, candidate, buffer, keyed⟩ := findMatchKvIdx_spec found
  obtain ⟨rfl, current⟩ := ok.buffered buckets pos pair read buffer candidate keyed
  exact ⟨buckets, pair, rfl, read, buffer, current,
    (ok.snapshot buckets read).2 (ne_zero_of_isCandidate candidate)⟩

theorem CtxOk.searchResult (ok : CtxOk setting s ctx) (search : ctx.request = .search)
    {value : List UInt8} (result : ctx.searchResult setting = some (.value (some value))) :
    s.Current ctx.invoked value := by
  unfold ReqCtx.searchResult at result
  split_ifs at result with hit read
  · obtain ⟨pair, cached, matching⟩ := (Option.any_eq_true _ _).mp hit.2
    obtain ⟨valid, -⟩ := of_decide_eq_true matching
    rw [cached] at result
    simp only [map_some, Option.some.injEq, RetVal.value.injEq] at result
    rw [← result]
    exact ok.localCache search pair cached valid
  · simp only [Option.some.injEq, RetVal.value.injEq] at result
    obtain ⟨_, found, result⟩ := bind_eq_some_iff.mp result
    obtain ⟨_, _, -, -, buffer, current, -⟩ := ok.match_spec found
    rw [buffer] at result
    simp only [map_some, Option.some.injEq] at result
    rw [← result]
    exact current

theorem CtxOk.oldSlot (inv : Inv setting s) (ok : CtxOk setting s ctx) {word : UInt64}
    (found : ctx.oldSlot setting s.caches = some word) :
    ctx.firstBatch ∧ Held setting s 0 word ∧
      (s.Shared setting (location word) ∨ ctx.RefersTo (location word)) := by
  unfold ReqCtx.oldSlot at found
  split_ifs at found with hit matched
  · obtain ⟨cached, -, found⟩ := bind_eq_some_iff.mp found
    obtain ⟨entry, isEntry, rfl⟩ := map_eq_some_iff.mp found
    exact ⟨hit.1, inv.cached cached.1 entry isEntry, .inl (shared_of_entry inv isEntry)⟩
  · obtain ⟨buckets, _, -, read, -, -, held⟩ := ok.match_spec matched.2
    rw [read] at found
    obtain rfl := some.inj found
    exact ⟨firstBatch_of_kvsRead matched.1, held.weaken,
      .inr (.inr (.inl ⟨buckets, read, setting.position, rfl⟩))⟩

theorem CtxOk.leaveCache (ok : CtxOk setting s ctx) (new : ℕ) :
    Within s.caches (ctx.leaveCache setting new s.caches) new fun word =>
      Held setting s 0 word ∧
        (ctx.RefersTo (location word) ∨ ctx.Owns setting (location word)) := by
  unfold ReqCtx.leaveCache
  split
  · split_ifs
    · exact within_countHit _ _
    · split
      · rename_i pos buckets found read
        apply within_updateCache
        obtain ⟨_, _, -, readAgain, -, -, held⟩ := ok.match_spec found
        obtain rfl := some.inj (read.symm.trans readAgain)
        exact ⟨held.weaken, .inl (.inr (.inl ⟨buckets, read, pos, rfl⟩))⟩
      · exact within_refl _
  · rename_i write req
    split_ifs with swapped
    · obtain ⟨cas, found, swapped⟩ := (Option.any_eq_true _ _).mp swapped
      split
      · rename_i update
        apply within_updateCache
        obtain ⟨same, casOk⟩ := ok.casOk cas found
        obtain rfl : write = same := Request.write.inj (req.symm.trans casOk.request)
        have own : write.swapValue setting.fp = write.ownSlot setting.fp := by
          unfold Write.swapValue
          rw [update]
        rw [own]
        refine ⟨casOk.installed swapped update, .inr ?_⟩
        unfold ReqCtx.Owns
        rw [req]
      · exact .of_subset fun _ _ found => found
    · exact within_refl _

end Finds

section Local

variable {name : ℕ} {ctx next : ReqCtx k}

theorem InWindow.put {word : UInt64} (inWindow : s.InWindow word)
    (known : s.requests name = some ctx)
    (requests : after.requests = update s.requests name (some next))
    (clock : after.clock = s.clock + 1) (kept : ctx.InWindow word → next.InWindow word) :
    after.InWindow word := by
  obtain ⟨other, _, found, knownOther, opened⟩ := inWindow
  refine ⟨other, by omega, ?_⟩
  rw [requests]
  by_cases same : other = name
  · subst same
    obtain rfl := some.inj (known.symm.trans knownOther)
    exact ⟨next, update_self .., kept opened⟩
  · exact ⟨found, (update_of_ne same ..).trans knownOther, opened⟩

variable {slot : SlotSystem k}

theorem frame_local (known : s.requests name = some ctx) (caches : Caches)
    (primary : slot.primary = s.slot.primary) (version : slot.version = s.slot.version)
    (window : ∀ word, ctx.InWindow word → next.InWindow word) :
    Frame s ({ s with slot := slot, caches := caches }.put name next) fun _ => False where
  version := version.symm.le
  present _ := primary
  valueOf _ _ := rfl
  replacedAt _ _ found := .inl found
  contents _ _ := ⟨rfl, rfl, id⟩
  windows word _ opened _ := InWindow.put opened known rfl rfl (window word)
  replaced later := absurd version (Nat.ne_of_gt later)

theorem Inv.stay (inv : Inv setting s) (known : s.requests name = some ctx)
    (flight : ctx.InFlight) {caches : Caches} (primary : slot.primary = s.slot.primary)
    (version : slot.version = s.slot.version)
    (window : ∀ word, ctx.InWindow word → next.InWindow word)
    (within : Within s.caches caches name fun word => Held setting s 0 word ∧ (ctx.RefersTo
      (location word) ∨ ctx.Owns setting (location word) ∧ ¬ next.InFlight))
    (invoked : next.invoked = ctx.invoked) (req : next.request = ctx.request)
    (unswapped : next.Unswapped → ctx.Unswapped)
    (refers : ∀ place, next.RefersTo place → s.Shared setting place ∨ ctx.RefersTo place)
    (ok : next.InFlight → CtxOk setting s next)
    (returned : next.request = .search → ∀ time value, next.returned = some (time, .value (some
      value)) → s.Current next.invoked value) :
    Inv setting ({ s with slot := slot, caches := caches }.put name next) := by
  have frame := frame_local known caches primary version window
  have owns : ∀ place, next.Owns setting place → ctx.Owns setting place := by
    intro place owned
    unfold ReqCtx.Owns at owned ⊢
    rw [← req]
    exact owned
  have past : next.invoked ≤ s.clock := by
    rw [invoked]
    exact (inv.named name ctx known).2.le
  have pointer_lt : ∀ pointer, (pointer = name ∨ (s.caches.entries pointer).isSome) →
      pointer < s.clock := by
    rintro pointer (rfl | old)
    · exact (inv.named pointer ctx known).1
    · obtain ⟨entry, found⟩ := isSome_iff_exists.mp old
      exact inv.pointers pointer entry found
  apply inv.put rfl rfl frame
  · exact fun _ impossible => impossible.elim
  · exact fun later bound => inv.unreplaced later (version ▸ bound)
  · intro filled
    have held := frame.heldAs (fun impossible => impossible) (inv.current (primary ▸ filled))
    rw [← primary, ← version] at held
    exact held
  · intro pointer entry found
    rcases within pointer entry found with ⟨old, isOld, sameSlot⟩ | ⟨place, held, -⟩
    · refine ⟨(inv.pointers pointer old isOld).trans (Nat.lt_succ_self _), ?_⟩
      rw [← sameSlot]
      exact frame.held (Nat.zero_le _) (fun impossible => impossible) (inv.cached pointer old isOld)
    · exact ⟨(pointer_lt pointer place).trans (Nat.lt_succ_self _),
        frame.held (Nat.zero_le _) (fun impossible => impossible) held⟩
  · apply inv.exclusive.put known flight rfl
    · rintro place ⟨stillFlight, owned, fresh⟩
      exact ⟨flight, owns place owned, unswapped fresh⟩
    · rintro _ (null | isPrimary | inOthers | ⟨pointer, -, entry, found, rfl⟩)
      · exact .inl (.inl null)
      · exact .inl (.inr (.inl (primary ▸ isPrimary)))
      · exact .inl (.inr (.inr (.inl inOthers)))
      · rcases within pointer entry found with ⟨old, isOld, sameSlot⟩ | ⟨-, -, referred | owned⟩
        · rw [← sameSlot]
          exact .inl (shared_of_entry inv isOld)
        · exact .inr (.inl referred)
        · exact .inr (.inr ⟨owned.1, fun isPending => owned.2 isPending.1⟩)
    · exact refers
    · exact owns
  · exact ⟨(inv.named name ctx known).1.trans (Nat.lt_succ_self _), Nat.lt_succ_of_le past⟩
  · intro stillFlight
    apply (ok stillFlight).frame frame past
    · exact fun _ _ impossible => impossible
    · exact fun _ _ _ impossible => impossible
  · intro search time value result
    exact frame.current past (returned search time value result)

theorem CtxOk.casOk_of_same (ok : CtxOk setting s ctx) (req : next.request = ctx.request)
    (kvWritten : next.kvWritten = ctx.kvWritten) (sameCas : next.cas = ctx.cas)
    (casDone : next.casDone = ctx.casDone) (invalidated : next.invalidated = ctx.invalidated) :
    ∀ cas, next.cas = some cas → ∃ write, CasOk setting s next write cas := by
  intro cas found
  obtain ⟨write, casOk⟩ := ok.casOk cas (sameCas ▸ found)
  refine ⟨write, req.trans casOk.request, ?_, casOk.held, casOk.swapValue, ?_, ?_, casOk.installed⟩
  · rw [kvWritten]
    exact casOk.kvWritten
  · rw [invalidated]
    exact casOk.invalid
  · rw [casDone]
    exact casOk.swapped

theorem not_returned (flight : ctx.InFlight) {result : ℕ × RetVal} {goal : Prop}
    (returned : ctx.returned = some result) : goal := by
  rw [flight] at returned
  cases returned

section InFlight

variable (inv : Inv setting s) (known : s.requests name = some ctx) (flight : ctx.InFlight)
include inv known flight

theorem Inv.readCache {cached : ℕ × UInt64} (found : ctx.cacheEntry = some cached)
    (settled : ctx.request = .search → ¬ s.InWindow cached.2) :
    Inv setting (s.put name { ctx with localCache := some (s.memory (location cached.2)) }) := by
  have ok := inv.requestsOk name ctx known flight
  refine inv.stay known flight rfl rfl (fun _ => id) (within_refl _) rfl rfl id (fun _ => .inr) ?_ ?_
  · intro _
    refine ⟨ok.cached, ?_, ok.unread, ok.snapshot, ok.buffered, ok.written, ok.uninvalidated,
      ok.casOk_of_same rfl rfl rfl rfl rfl⟩
    rintro search _ ⟨⟩ valid
    obtain ⟨version, held, -⟩ := ok.cached cached found
    have last := held.version_eq (settled search) valid
    refine ⟨version, held.le, held.value, ?_⟩
    rintro ⟨_, isReplaced, -⟩
    rw [inv.unreplaced version last.ge] at isReplaced
    cases isReplaced
  · exact fun _ _ _ result => not_returned flight result

theorem Inv.readBuckets (unread : ctx.localBuckets = none) :
    Inv setting (s.put name { ctx with localBuckets := some (s.buckets setting) }) := by
  have ok := inv.requestsOk name ctx known flight
  refine inv.stay known flight rfl rfl (fun _ => id) (within_refl _) rfl rfl id ?_ ?_ ?_
  · rintro _ (cached | ⟨_, ⟨⟩, pos, rfl⟩ | swapping)
    · exact .inr (.inl cached)
    · left
      unfold System.buckets
      by_cases own : pos = setting.position
      · rw [own, update_self]
        exact .inr (.inl rfl)
      · rw [update_of_ne own]
        exact .inr (.inr (.inl ⟨pos, rfl⟩))
    · exact .inr (.inr (.inr swapping))
  · intro _
    refine ⟨ok.cached, ok.localCache, by rintro ⟨⟩, ?_, ?_, ok.written, ok.uninvalidated,
      ok.casOk_of_same rfl rfl rfl rfl rfl⟩
    · rintro _ ⟨⟩
      refine ⟨fun other differs => update_of_ne differs .., ?_⟩
      unfold System.buckets
      rw [update_self]
      intro filled
      refine ⟨s.slot.version, inv.current filled, ?_⟩
      rintro ⟨_, isReplaced, -⟩
      rw [inv.unreplaced _ le_rfl] at isReplaced
      cases isReplaced
    · intro _ pos pair _ buffer
      rw [ok.unread unread pos] at buffer
      cases buffer
  · exact fun _ _ _ result => not_returned flight result

theorem Inv.readKv {buckets : Buckets} (read : ctx.localBuckets = some buckets) (pos : Position) :
    Inv setting (s.put name { ctx with
      kvBuffers := update ctx.kvBuffers pos
        (some (s.memory (location (buckets pos)))) }) := by
  have ok := inv.requestsOk name ctx known flight
  refine inv.stay known flight rfl rfl (fun _ => id) (within_refl _) rfl rfl id (fun _ => .inr) ?_ ?_
  · intro _
    refine ⟨ok.cached, ok.localCache, ?_, ok.snapshot, ?_, ok.written, ok.uninvalidated,
      ok.casOk_of_same rfl rfl rfl rfl rfl⟩
    · intro unread
      rw [read] at unread
      cases unread
    · intro other at_ pair readAgain buffer candidate keyed
      by_cases same : at_ = pos
      · subst same
        obtain rfl := some.inj (read.symm.trans readAgain)
        simp only [update_self, Option.some.injEq] at buffer
        subst buffer
        obtain ⟨others, held⟩ := ok.snapshot buckets read
        have own : at_ = setting.position := by
          by_contra differs
          rw [others at_ differs] at candidate keyed
          exact inv.others at_ differs candidate keyed
        subst own
        exact ⟨rfl, (held (ne_zero_of_isCandidate candidate)).current⟩
      · simp only [update_of_ne same] at buffer
        exact ok.buffered other at_ pair readAgain buffer candidate keyed
  · exact fun _ _ _ result => not_returned flight result

theorem Inv.fillCasAddr {write : Write} (req : ctx.request = .write write)
    (unfilled : ctx.cas = none) {oldSlot : UInt64}
    (found : ctx.oldSlot setting s.caches = some oldSlot) {caches : Caches}
    (within : ∀ fresh, Within s.caches caches name fresh) (version : ℕ) :
    Inv setting ({ s with caches := caches }.put name { ctx with
      cas := some (.start write.reqType .async oldSlot (write.swapValue setting.fp) 0 version) }) := by
  have ok := inv.requestsOk name ctx known flight
  obtain ⟨complete, held, refers⟩ := ok.oldSlot inv found
  refine inv.stay known flight rfl rfl ?_ (within _) rfl rfl ?_ ?_ ?_ ?_
  · rintro _ ⟨-, -, cas, isCas, -⟩
    rw [unfilled] at isCas
    cases isCas
  · intro _ cas isCas
    rw [unfilled] at isCas
    cases isCas
  · rintro _ (cached | read | ⟨_, ⟨⟩, rfl⟩)
    · exact .inr (.inl cached)
    · exact .inr (.inr (.inl read))
    · exact refers
  · intro _
    refine ⟨ok.cached, ok.localCache, ok.unread, ok.snapshot, ok.buffered, ?_, by rintro ⟨⟩, ?_⟩
    · intro other sameRequest written _
      apply ok.written other sameRequest written
      intro cas isCas
      rw [unfilled] at isCas
      cases isCas
    · rintro _ ⟨⟩
      refine ⟨write, req, kvWritten_of_firstBatch req complete, held, rfl, ?_,
        by rintro ⟨⟩, by rintro ⟨⟩⟩
      intro invalidated
      rw [ok.uninvalidated unfilled] at invalidated
      cases invalidated
  · intro search
    rw [req] at search
    cases search

theorem Inv.act_stays {cas entry : KVReqCtx k} (found : ctx.cas = some cas)
    (same : cas.SameRequest entry) (stays : Stays s.slot cas slot entry) (casDone : Bool) :
    Inv setting ({ s with slot := slot }.put name
      { ctx with cas := some entry, casDone := casDone }) := by
  have ok := inv.requestsOk name ctx known flight
  obtain ⟨write, casOk⟩ := ok.casOk cas found
  have unswapped : cas.prSwapped = false := by
    by_contra swapped
    exact stays.running (casOk.swapped (Bool.not_eq_false _ ▸ swapped)).1
  have wasUnswapped : ctx.Unswapped := by
    intro other isOther
    obtain rfl := some.inj (found.symm.trans isOther)
    exact unswapped
  refine inv.stay known flight stays.primary stays.version ?_ (within_refl _) rfl rfl
    (fun _ => wasUnswapped) ?_ ?_ ?_
  · rintro _ ⟨-, -, other, isOther, swapped, -⟩
    rw [wasUnswapped other isOther] at swapped
    cases swapped
  · rintro _ (cached | read | ⟨_, ⟨⟩, rfl⟩)
    · exact .inr (.inl cached)
    · exact .inr (.inr (.inl read))
    · rw [same.origValue]
      exact .inr (.inr (.inr ⟨cas, found, rfl⟩))
  · intro _
    refine ⟨ok.cached, ok.localCache, ok.unread, ok.snapshot, ok.buffered, ?_, by rintro ⟨⟩, ?_⟩
    · exact fun other sameRequest written _ => ok.written other sameRequest written wasUnswapped
    · rintro _ ⟨⟩
      have stillUnswapped := stays.prSwapped.trans unswapped
      refine ⟨write, casOk.request, casOk.kvWritten, ?_, same.swapValue.trans casOk.swapValue, ?_,
        ?_, ?_⟩
      · rw [same.origValue]
        exact casOk.held
      · rw [same.origValue]
        exact casOk.invalid
      · intro swapped
        rw [stillUnswapped] at swapped
        cases swapped
      · intro swapped
        rw [stillUnswapped] at swapped
        cases swapped
  · intro search
    rw [casOk.request] at search
    cases search

theorem Inv.respond {retVal : RetVal} (returns : ctx.retVal setting = some retVal) :
    Inv setting ({ s with caches := ctx.leaveCache setting name s.caches }.put name
      { ctx with returned := some (s.clock, retVal) }) := by
  have ok := inv.requestsOk name ctx known flight
  have ended : ¬ ReqCtx.InFlight { ctx with returned := some (s.clock, retVal) } := by
    rintro ⟨⟩
  refine inv.stay known flight rfl rfl ?_ ?_ rfl rfl id (fun _ => .inr) (absurd · ended) ?_
  · -- a write does not return before it has closed its window
    rintro _ ⟨-, opened, cas, found, swapped, -⟩
    obtain ⟨_, casOk⟩ := ok.casOk cas found
    unfold ReqCtx.retVal ReqCtx.writeResult at returns
    rw [casOk.request] at returns
    dsimp only at returns
    rw [found] at returns
    dsimp only at returns
    split_ifs at returns with finished
    rw [finished.2 (casOk.swapped swapped).2] at opened
    cases opened
  · intro pointer entry found
    rcases ok.leaveCache name pointer entry found with old | ⟨place, held, referred | owned⟩
    · exact .inl old
    · exact .inr ⟨place, held, .inl referred⟩
    · exact .inr ⟨place, held, .inr ⟨owned, ended⟩⟩
  · rintro search _ _ ⟨⟩
    unfold ReqCtx.retVal at returns
    have isSearch : ctx.request = .search := search
    rw [isSearch] at returns
    exact ok.searchResult isSearch returns

end InFlight

end Local

end FuseeFs.KeyValue.Cached
