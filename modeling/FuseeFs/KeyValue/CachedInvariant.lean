import FuseeFs.KeyValue.CachedModel

/-!
# What stays true of cached slots

Every word that a cache, a request or the index refers to was once in the primary
slot, and its pair is still in memory.  Unless the word is the present one, the
pair is invalid, or the write that has replaced the word is about to clear its
valid byte.
-/

namespace FuseeFs.KeyValue.Cached

open Index Library Replication

variable {k : ℕ} {setting : Setting} {s after : System k}

/-- The word was in the primary slot in a version, and its pair is still there. -/
structure HeldAs (setting : Setting) (s : System k) (version : ℕ) (word : UInt64) : Prop where
  le : version ≤ s.slot.version
  present : version = s.slot.version → word = s.slot.primary
  keyed : (s.memory (location word)).key = setting.key
  value : s.valueOf version = some (s.memory (location word)).value
  settled : version < s.slot.version → (s.memory (location word)).isValid → s.InWindow word

def Held (setting : Setting) (s : System k) (time : ℕ) (word : UInt64) : Prop :=
  ∃ version, HeldAs setting s version word ∧ ¬ s.ReplacedBefore version time

theorem not_replacedBefore_zero (s : System k) (version : ℕ) : ¬ s.ReplacedBefore version 0 := by
  rintro ⟨replaced, -, before⟩
  exact Nat.not_lt_zero replaced before

variable {word : UInt64}

theorem Held.weaken {time : ℕ} (held : Held setting s time word) : Held setting s 0 word := by
  obtain ⟨version, held, -⟩ := held
  exact ⟨version, held, not_replacedBefore_zero s version⟩

theorem Held.current {time : ℕ} (held : Held setting s time word) :
    s.Current time (s.memory (location word)).value := by
  obtain ⟨version, held, unreplaced⟩ := held
  exact ⟨version, held.le, held.value, unreplaced⟩

/-- A pair that is valid outside of a window is that of the present slot. -/
theorem HeldAs.version_eq {version : ℕ} (held : HeldAs setting s version word)
    (settled : ¬ s.InWindow word) (valid : (s.memory (location word)).isValid) :
    version = s.slot.version := by
  by_contra replaced
  exact settled (held.settled (Nat.lt_of_le_of_ne held.le replaced) valid)

/-- The history goes on, and memory stays as it is, except for valid bytes that
are cleared and for memory that is touched. -/
structure Frame (s after : System k) (touched : Location → Prop) : Prop where
  version : s.slot.version ≤ after.slot.version
  present : after.slot.version = s.slot.version → after.slot.primary = s.slot.primary
  valueOf : ∀ version ≤ s.slot.version, after.valueOf version = s.valueOf version
  replacedAt : ∀ version time, after.replacedAt version = some time →
    s.replacedAt version = some time ∨ s.clock ≤ time
  contents : ∀ place, ¬ touched place → (after.memory place).key = (s.memory place).key ∧
    (after.memory place).value = (s.memory place).value ∧
      ((after.memory place).isValid → (s.memory place).isValid)
  windows : ∀ word, ¬ touched (location word) → s.InWindow word →
    (after.memory (location word)).isValid → after.InWindow word
  replaced : s.slot.version < after.slot.version →
    (after.memory (location s.slot.primary)).isValid → after.InWindow s.slot.primary

section Frames

variable {touched : Location → Prop} {version time : ℕ} {word : UInt64}

theorem Frame.not_replacedBefore (frame : Frame s after touched) (past : time ≤ s.clock)
    (unreplaced : ¬ s.ReplacedBefore version time) : ¬ after.ReplacedBefore version time := by
  rintro ⟨replaced, found, before⟩
  rcases frame.replacedAt version replaced found with old | isNew
  · exact unreplaced ⟨replaced, old, before⟩
  · omega

theorem Frame.current (frame : Frame s after touched) (past : time ≤ s.clock)
    {value : List UInt8} (current : s.Current time value) : after.Current time value := by
  obtain ⟨version, le, value, unreplaced⟩ := current
  refine ⟨version, le.trans frame.version, ?_, frame.not_replacedBefore past unreplaced⟩
  rw [frame.valueOf version le, value]

theorem Frame.heldAs (frame : Frame s after touched) (untouched : ¬ touched (location word))
    (held : HeldAs setting s version word) : HeldAs setting after version word := by
  obtain ⟨sameKey, sameValue, stillValid⟩ := frame.contents (location word) untouched
  refine ⟨held.le.trans frame.version, ?_, sameKey.trans held.keyed, ?_, ?_⟩
  · intro last
    have same : after.slot.version = s.slot.version :=
      Nat.le_antisymm (last ▸ held.le) frame.version
    rw [frame.present same]
    exact held.present (last.trans same)
  · rw [frame.valueOf version held.le, held.value, sameValue]
  · intro replaced valid
    by_cases old : version < s.slot.version
    · exact frame.windows word untouched (held.settled old (stillValid valid)) valid
    · have last : version = s.slot.version := Nat.le_antisymm held.le (Nat.le_of_not_lt old)
      have isPrimary := held.present last
      rw [isPrimary] at valid ⊢
      exact frame.replaced (last ▸ replaced) valid

theorem Frame.held (frame : Frame s after touched) (past : time ≤ s.clock)
    (untouched : ¬ touched (location word)) (held : Held setting s time word) :
    Held setting after time word := by
  obtain ⟨version, held, unreplaced⟩ := held
  exact ⟨version, frame.heldAs untouched held, frame.not_replacedBefore past unreplaced⟩

end Frames

namespace ReqCtx

variable (setting : Setting) (ctx : ReqCtx k)

def Unswapped : Prop :=
  ∀ cas, ctx.cas = some cas → cas.prSwapped = false

def Pending (place : Location) : Prop :=
  ctx.InFlight ∧ ctx.Owns setting place ∧ ctx.Unswapped

end ReqCtx

structure CasOk (setting : Setting) (s : System k) (ctx : ReqCtx k) (write : Write)
    (cas : KVReqCtx k) : Prop where
  request : ctx.request = .write write
  kvWritten : ctx.kvWritten
  held : Held setting s 0 cas.origValue
  swapValue : cas.swapValue = write.swapValue setting.fp
  invalid : ctx.invalidated → (s.memory (location cas.origValue)).isValid = false
  swapped : cas.prSwapped → cas.phase = .finished ∧ ctx.casDone
  installed : cas.prSwapped → write.kind = .update → Held setting s 0 (write.ownSlot setting.fp)

structure CtxOk (setting : Setting) (s : System k) (ctx : ReqCtx k) : Prop where
  cached : ∀ cached, ctx.cacheEntry = some cached → Held setting s 0 cached.2
  /-- A search takes a cached pair only if it was not replaced before. -/
  localCache : ctx.request = .search → ∀ pair, ctx.localCache = some pair → pair.isValid →
    s.Current ctx.invoked pair.value
  unread : ctx.localBuckets = none → ∀ pos, ctx.kvBuffers pos = none
  snapshot : ∀ buckets, ctx.localBuckets = some buckets →
    (∀ other, other ≠ setting.position → buckets other = setting.others other) ∧
      (buckets setting.position ≠ 0 → Held setting s ctx.invoked (buckets setting.position))
  buffered : ∀ buckets pos pair, ctx.localBuckets = some buckets →
    ctx.kvBuffers pos = some pair → isCandidate setting.fp (buckets pos) →
    pair.key = setting.key → pos = setting.position ∧ s.Current ctx.invoked pair.value
  written : ∀ write, ctx.request = .write write → ctx.kvWritten → ctx.Unswapped →
    (s.memory (location (write.ownSlot setting.fp))).key = setting.key ∧
      (s.memory (location (write.ownSlot setting.fp))).value = write.value
  uninvalidated : ctx.cas = none → ctx.invalidated = false
  casOk : ∀ cas, ctx.cas = some cas → ∃ write, CasOk setting s ctx write cas

/-- Nobody refers to the memory of a write that is not in the index. -/
def Exclusive (setting : Setting) (s : System k) : Prop :=
  ∀ name ctx place, s.requests name = some ctx → ctx.Pending setting place →
    ¬ s.Shared setting place ∧
      ∀ other found, s.requests other = some found → found.InFlight →
        ¬ found.RefersTo place ∧ (other ≠ name → ¬ found.Owns setting place)

structure Inv (setting : Setting) (s : System k) : Prop where
  named : ∀ name ctx, s.requests name = some ctx → name < s.clock ∧ ctx.invoked < s.clock
  pointers : ∀ pointer entry, s.caches.entries pointer = some entry → pointer < s.clock
  unreplaced : ∀ version, s.slot.version ≤ version → s.replacedAt version = none
  current : s.slot.primary ≠ 0 → HeldAs setting s s.slot.version s.slot.primary
  cached : ∀ pointer entry, s.caches.entries pointer = some entry → Held setting s 0 entry.lSlotPtr
  others : ∀ other, other ≠ setting.position → isCandidate setting.fp (setting.others other) →
    (s.memory (location (setting.others other))).key ≠ setting.key
  exclusive : Exclusive setting s
  requestsOk : ∀ name ctx, s.requests name = some ctx → ctx.InFlight → CtxOk setting s ctx
  returned : ∀ name ctx, s.requests name = some ctx → ctx.request = .search →
    ∀ time value, ctx.returned = some (time, .value (some value)) → s.Current ctx.invoked value

theorem Inv.of_isInitial (initial : IsInitial setting s) : Inv setting s := by
  have version : s.slot.version = 0 := by
    rw [initial.agreed]
    rfl
  have unreplaced : ∀ version time, ¬ s.ReplacedBefore version time := by
    rintro version _ ⟨_, found, -⟩
    rw [initial.unreplaced version] at found
    cases found
  have held : HeldAs setting s s.slot.version s.slot.primary := by
    refine ⟨le_rfl, fun _ => rfl, initial.keyed, ?_, fun later => absurd later (lt_irrefl _)⟩
    rw [version, initial.value]
  refine ⟨?_, fun pointer entry found => (initial.cached pointer entry found).1,
    fun version _ => initial.unreplaced version, fun _ => held, ?_, initial.others, ?_, ?_, ?_⟩
  · intro name ctx known
    rw [initial.idle name] at known
    cases known
  · intro pointer entry found
    rw [(initial.cached pointer entry found).2]
    exact ⟨_, held, unreplaced _ _⟩
  · intro name ctx place known
    rw [initial.idle name] at known
    cases known
  · intro name ctx known
    rw [initial.idle name] at known
    cases known
  · intro name ctx known
    rw [initial.idle name] at known
    cases known

theorem shared_of_entry (inv : Inv setting s) {pointer : ℕ} {entry : CacheEntry}
    (found : s.caches.entries pointer = some entry) : s.Shared setting (location entry.lSlotPtr) :=
  .inr (.inr (.inr ⟨pointer, inv.pointers pointer entry found, entry, found, rfl⟩))

theorem shared_of_entries (inv : Inv setting s) {place : Location}
    (shared : after.Shared setting place) (primary : after.slot.primary = s.slot.primary)
    (entries : ∀ pointer entry, after.caches.entries pointer = some entry →
      s.caches.entries pointer = some entry) : s.Shared setting place := by
  rcases shared with null | isPrimary | inOthers | ⟨pointer, -, entry, found, rfl⟩
  · exact .inl null
  · exact .inr (.inl (primary ▸ isPrimary))
  · exact .inr (.inr (.inl inOthers))
  · exact shared_of_entry inv (entries pointer entry found)

variable {touched : Location → Prop}

/-- A request in flight is not disturbed by a step that leaves alone what it
refers to. -/
theorem CtxOk.frame {ctx : ReqCtx k} (ok : CtxOk setting s ctx) (frame : Frame s after touched)
    (past : ctx.invoked ≤ s.clock) (refers : ∀ place, ctx.RefersTo place → ¬ touched place)
    (owns : ctx.kvWritten → ∀ place, ctx.Owns setting place → ¬ touched place) :
    CtxOk setting after ctx := by
  have ownPlace : ∀ write, ctx.request = .write write → ctx.kvWritten →
      ¬ touched (location (write.ownSlot setting.fp)) := by
    intro write request written
    apply owns written
    unfold ReqCtx.Owns
    rw [request]
  refine ⟨?_, ?_, ok.unread, ?_, ?_, ?_, ok.uninvalidated, ?_⟩
  · intro cached found
    exact frame.held (Nat.zero_le _) (refers _ (.inl ⟨cached, found, rfl⟩)) (ok.cached cached found)
  · intro search pair read valid
    exact frame.current past (ok.localCache search pair read valid)
  · intro buckets read
    obtain ⟨same, held⟩ := ok.snapshot buckets read
    refine ⟨same, fun filled => frame.held past ?_ (held filled)⟩
    exact refers _ (.inr (.inl ⟨buckets, read, setting.position, rfl⟩))
  · intro buckets pos pair read buffer candidate keyed
    obtain ⟨own, current⟩ := ok.buffered buckets pos pair read buffer candidate keyed
    exact ⟨own, frame.current past current⟩
  · intro write request written unswapped
    obtain ⟨sameKey, sameValue, -⟩ := frame.contents _ (ownPlace write request written)
    rw [sameKey, sameValue]
    exact ok.written write request written unswapped
  · intro cas found
    obtain ⟨write, casOk⟩ := ok.casOk cas found
    have untouched : ¬ touched (location cas.origValue) := refers _ (.inr (.inr ⟨cas, found, rfl⟩))
    refine ⟨write, casOk.request, casOk.kvWritten, frame.held (Nat.zero_le _) untouched casOk.held,
      casOk.swapValue, ?_, casOk.swapped, ?_⟩
    · intro invalidated
      by_contra valid
      have wasValid := (frame.contents _ untouched).2.2 (Bool.not_eq_false _ ▸ valid)
      rw [casOk.invalid invalidated] at wasValid
      cases wasValid
    · intro swapped update
      exact frame.held (Nat.zero_le _) (ownPlace write casOk.request casOk.kvWritten)
        (casOk.installed swapped update)

section Put

variable {name : ℕ} {ctx next : ReqCtx k}

theorem Exclusive.put (exclusive : Exclusive setting s)
    (known : s.requests name = some ctx) (flight : ctx.InFlight)
    (requests : after.requests = Function.update s.requests name (some next))
    (pending : ∀ place, next.Pending setting place → ctx.Pending setting place)
    (shared : ∀ place, after.Shared setting place → s.Shared setting place ∨
      ctx.RefersTo place ∨ ctx.Owns setting place ∧ ¬ next.Pending setting place)
    (refers : ∀ place, next.RefersTo place → s.Shared setting place ∨ ctx.RefersTo place)
    (owns : ∀ place, next.Owns setting place → ctx.Owns setting place) :
    Exclusive setting after := by
  intro other found place knownOther isPending
  -- a pending write of the new state was pending before
  obtain ⟨old, knownOld, wasPending, isNext⟩ : ∃ old, s.requests other = some old ∧
      old.Pending setting place ∧ (other = name → found = next) := by
    rw [requests] at knownOther
    rcases update_eq_some knownOther with ⟨rfl, rfl⟩ | ⟨differs, knownBefore⟩
    · exact ⟨ctx, known, pending place isPending, fun _ => rfl⟩
    · exact ⟨found, knownBefore, isPending, fun same => absurd same differs⟩
  obtain ⟨unshared, apart⟩ := exclusive other old place knownOld wasPending
  obtain ⟨notReferred, notOwned⟩ := apart name ctx known flight
  constructor
  · intro isShared
    rcases shared place isShared with was | referred | ⟨owned, notPending⟩
    · exact unshared was
    · exact notReferred referred
    · by_cases same : other = name
      · exact notPending (isNext same ▸ isPending)
      · exact notOwned (Ne.symm same) owned
  · intro third request knownThird flightThird
    rw [requests] at knownThird
    rcases update_eq_some knownThird with ⟨rfl, rfl⟩ | ⟨-, knownBefore⟩
    · refine ⟨?_, fun differs owned => notOwned differs (owns place owned)⟩
      intro referred
      rcases refers place referred with was | old
      · exact unshared was
      · exact notReferred old
    · exact apart third request knownBefore flightThird

theorem Inv.put (inv : Inv setting s)
    (requests : after.requests = Function.update s.requests name (some next))
    (clock : after.clock = s.clock + 1) (frame : Frame s after touched)
    (apart : ∀ place, touched place → ¬ s.Shared setting place ∧ ∀ other found, s.requests
      other = some found → found.InFlight → other ≠ name → ¬ found.RefersTo place ∧ ¬ found.Owns
      setting place)
    (unreplaced : ∀ version, after.slot.version ≤ version → after.replacedAt version = none)
    (current : after.slot.primary ≠ 0 → HeldAs setting after after.slot.version after.slot.primary)
    (cached : ∀ pointer entry, after.caches.entries pointer = some entry → pointer < after.clock ∧
      Held setting after 0 entry.lSlotPtr) (exclusive : Exclusive setting after)
    (early : name < after.clock ∧ next.invoked < after.clock)
    (ok : next.InFlight → CtxOk setting after next)
    (returned : next.request = .search → ∀ time value, next.returned = some (time, .value (some
      value)) → after.Current next.invoked value) : Inv setting after := by
  have isNext : ∀ other found, after.requests other = some found →
      other = name ∧ found = next ∨ other ≠ name ∧ s.requests other = some found := by
    intro other found knownOther
    rw [requests] at knownOther
    exact update_eq_some knownOther
  refine ⟨?_, fun pointer entry found => (cached pointer entry found).1, unreplaced, current,
    fun pointer entry found => (cached pointer entry found).2, ?_, exclusive, ?_, ?_⟩
  · intro other found knownOther
    rcases isNext other found knownOther with ⟨rfl, rfl⟩ | ⟨-, knownBefore⟩
    · exact early
    · obtain ⟨_, _⟩ := inv.named other found knownBefore
      omega
  · intro other differs candidate
    have untouched : ¬ touched (location (setting.others other)) := by
      intro isTouched
      exact (apart _ isTouched).1 (.inr (.inr (.inl ⟨other, rfl⟩)))
    rw [(frame.contents _ untouched).1]
    exact inv.others other differs candidate
  · intro other found knownOther flight
    rcases isNext other found knownOther with ⟨rfl, rfl⟩ | ⟨differs, knownBefore⟩
    · exact ok flight
    · have untouched : ∀ place, touched place →
          ¬ found.RefersTo place ∧ ¬ found.Owns setting place := by
        intro place isTouched
        exact (apart place isTouched).2 other found knownBefore flight differs
      apply (inv.requestsOk other found knownBefore flight).frame frame
      · exact (inv.named other found knownBefore).2.le
      · exact fun place referred isTouched => (untouched place isTouched).1 referred
      · exact fun _ place owned isTouched => (untouched place isTouched).2 owned
  · intro other found knownOther search time value result
    rcases isNext other found knownOther with ⟨rfl, rfl⟩ | ⟨-, knownBefore⟩
    · exact returned search time value result
    · exact frame.current (inv.named other found knownBefore).2.le
        (inv.returned other found knownBefore search time value result)

end Put

end FuseeFs.KeyValue.Cached
