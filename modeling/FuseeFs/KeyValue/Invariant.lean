import FuseeFs.KeyValue.Model

/-!
# The order in which searches and updates take effect

A search takes effect when it reads the buckets.  An update whose
compare-and-swap succeeds takes effect then; all updates that have read the
same slot value and not tried to swap it yet take effect immediately before it,
so that nobody sees their values.  The invariant relates the requests in flight
to the list of requests that have taken effect.
-/

namespace FuseeFs.KeyValue

open Function Index Library Replication

/-- The key that is followed: its position in the index and its first value. -/
structure Tracked where
  key : List UInt8
  fp : UInt8
  position : Position
  initial : List UInt8

/-- What the requests share: the slots, the keys and values in memory, and the
requests that have taken effect. -/
structure View where
  slots : Buckets
  keyAt : Location → List UInt8
  valueAt : Location → List UInt8
  order : List (ℕ × RegisterOp)

def System.view (s : System) (order : List (ℕ × RegisterOp)) : View where
  slots := s.slots
  keyAt := fun place => (s.memory place).key
  valueAt := fun place => (s.memory place).value
  order := order

/-- The memory of an update in flight that is not in the index yet. -/
def ReqCtx.ownPlace (fp : UInt8) (ctx : ReqCtx) : Option Location :=
  match ctx.request with
  | .search => none
  | .update _ mmAllocCtx =>
    if ctx.InFlight ∧ ctx.swapBack = none then some (location (fillSlot mmAllocCtx fp)) else none

structure CtxOk (tracked : Tracked) (view : View) (name : ℕ) (ctx : ReqCtx) : Prop where
  snapshot : ∀ buckets, ctx.localBuckets = some buckets →
    Binds tracked.key tracked.fp view.keyAt tracked.position buckets
  buffered : ∀ buckets other pair, ctx.localBuckets = some buckets →
    ctx.kvBuffers other = some pair →
    pair.key = view.keyAt (location (buckets other)) ∧
      pair.value = view.valueAt (location (buckets other))
  unread : ctx.localBuckets = none → name ∉ names view.order ∧ ctx.swapBack = none ∧
    ∀ other, ctx.kvBuffers other = none
  /-- A search returns the value that was current when it took effect. -/
  searched : ctx.request = .search → ∀ buckets, ctx.localBuckets = some buckets →
    name ∈ names view.order ∧ view.valueAt (location (buckets tracked.position)) =
      (register tracked.initial).run (earlier view.order name)
  written : ∀ value mmAllocCtx, ctx.request = .update value mmAllocCtx → ctx.kvWritten →
    ctx.swapBack = none →
    view.keyAt (location (fillSlot mmAllocCtx tracked.fp)) = tracked.key ∧
      view.valueAt (location (fillSlot mmAllocCtx tracked.fp)) = value
  unwritten : ctx.kvWritten = false → ctx.swapBack = none
  /-- An update that has not tried to swap the slot has taken effect exactly if
  its compare-and-swap is going to fail. -/
  waiting : ∀ value mmAllocCtx buckets, ctx.request = .update value mmAllocCtx →
    ctx.localBuckets = some buckets → ctx.swapBack = none →
    (name ∈ names view.order ↔ buckets tracked.position ≠ view.slots tracked.position)
  swapped : ctx.swapBack.isSome → name ∈ names view.order

/-- Nobody else refers to the memory of an update that is not in the index. -/
def Exclusive (fp : UInt8) (slots : Buckets) (requests : ℕ → Option ReqCtx) : Prop :=
  ∀ name ctx place, requests name = some ctx → ctx.ownPlace fp = some place →
    (∀ position, location (slots position) ≠ place) ∧
    ∀ other ctx', requests other = some ctx' →
      (ctx'.InFlight → ∀ buckets, ctx'.localBuckets = some buckets →
        ∀ position, location (buckets position) ≠ place) ∧
      (other ≠ name → ctx'.ownPlace fp ≠ some place)

structure Inv (tracked : Tracked) (s : System) (order : List (ℕ × RegisterOp)) : Prop where
  linear : Linearizes (register tracked.initial) s.history order
  named : ∀ name ctx, s.requests name = some ctx → ctx.interval.invoked = name ∧
    name < s.clock ∧ ctx.interval.operation = ctx.request.operation
  bound : Binds tracked.key tracked.fp (s.view order).keyAt tracked.position s.slots
  current : (s.view order).valueAt (location (s.slots tracked.position)) =
    (register tracked.initial).run order
  exclusive : Exclusive tracked.fp s.slots s.requests
  requestsOk : ∀ name ctx, s.requests name = some ctx → ctx.InFlight →
    CtxOk tracked (s.view order) name ctx

variable {view : View} {name : ℕ}

theorem CtxOk.start {tracked : Tracked} {now : ℕ} {req : Request}
    (absent : name ∉ names view.order) : CtxOk tracked view name (.start req now) where
  snapshot := by rintro _ ⟨⟩
  buffered := by rintro _ _ _ ⟨⟩
  unread _ := ⟨absent, rfl, fun _ => rfl⟩
  searched := by rintro _ _ ⟨⟩
  written := by rintro _ _ _ ⟨⟩
  unwritten _ := rfl
  waiting := by rintro _ _ _ _ ⟨⟩
  swapped := by rintro ⟨⟩

theorem Inv.of_isInitial {tracked : Tracked} {s : System}
    (isInitial : IsInitial tracked.key tracked.fp tracked.position tracked.initial s) :
    Inv tracked s [] := by
  obtain ⟨bound, current, idle⟩ := isInitial
  have nothing : s.history = fun _ => none := by
    funext name
    simp [System.history, idle]
  refine ⟨nothing ▸ .start, ?_, bound, current, ?_, ?_⟩
  · intro name ctx known
    simp [idle] at known
  · intro name ctx place known
    simp [idle] at known
  · intro name ctx known
    simp [idle] at known

section Found

variable {tracked : Tracked} {view : View} {name : ℕ} {ctx : ReqCtx}

theorem ReqCtx.exists_buckets_of_kvsRead {fp : UInt8} (read : ctx.kvsRead fp) :
    ∃ buckets, ctx.localBuckets = some buckets ∧ (ctx.bucketsRead) ∧
      ∀ position ∈ findKvInBuckets fp buckets, (ctx.kvBuffers position).isSome := by
  simp only [kvsRead, Bool.and_eq_true, List.all_eq_true] at read
  obtain ⟨batch, all⟩ := read
  cases found : ctx.localBuckets with
  | none => simp [bucketsRead, found] at batch
  | some buckets => exact ⟨buckets, rfl, batch, by simpa [kvIdxList, found] using all⟩

theorem CtxOk.findMatchKvIdx (ok : CtxOk tracked view name ctx) (read : ctx.kvsRead tracked.fp) :
    ∃ buckets pair, ctx.localBuckets = some buckets ∧
      ctx.findMatchKvIdx tracked.key tracked.fp = some tracked.position ∧
      ctx.kvBuffers tracked.position = some pair ∧
      pair.value = view.valueAt (location (buckets tracked.position)) := by
  obtain ⟨buckets, found, -, all⟩ := ReqCtx.exists_buckets_of_kvsRead read
  obtain ⟨candidate, keyed, others⟩ := ok.snapshot buckets found
  have mem : tracked.position ∈ findKvInBuckets tracked.fp buckets := by simpa using candidate
  obtain ⟨pair, buffer⟩ := Option.isSome_iff_exists.mp (all tracked.position mem)
  obtain ⟨sameKey, sameValue⟩ := ok.buffered buckets tracked.position pair found buffer
  refine ⟨buckets, pair, found, ?_, buffer, sameValue⟩
  have idxList : ctx.kvIdxList tracked.fp = findKvInBuckets tracked.fp buckets := by
    simp [ReqCtx.kvIdxList, found]
  rw [ReqCtx.findMatchKvIdx, idxList]
  cases result : (findKvInBuckets tracked.fp buckets).find? fun position =>
      (ctx.kvBuffers position).any fun pair => pair.key = tracked.key with
  | none =>
    have missed := List.find?_eq_none.mp result tracked.position mem
    simp [buffer, sameKey, keyed] at missed
  | some other =>
    have member := List.mem_of_find?_eq_some result
    have holds := List.find?_some result
    obtain ⟨otherPair, otherBuffer⟩ := Option.isSome_iff_exists.mp (all other member)
    by_contra apart
    have apart' : other ≠ tracked.position := fun same => apart (congrArg some same)
    have unkeyed := others other apart' (by simpa using member)
    rw [← (ok.buffered buckets other otherPair found otherBuffer).1] at unkeyed
    simp [otherBuffer, unkeyed] at holds

theorem CtxOk.casAddr (ok : CtxOk tracked view name ctx) {position : Position} {origValue : UInt64}
    (found : ctx.casAddr tracked.key tracked.fp = some (position, origValue)) :
    position = tracked.position ∧ ctx.bucketsRead ∧
      ∃ buckets, ctx.localBuckets = some buckets ∧ origValue = buckets tracked.position := by
  unfold ReqCtx.casAddr at found
  split_ifs at found with read
  obtain ⟨buckets, _, known, matched, -, -⟩ := ok.findMatchKvIdx read
  obtain ⟨_, _, batch, -⟩ := ReqCtx.exists_buckets_of_kvsRead read
  rw [matched, known] at found
  cases found
  exact ⟨rfl, batch, buckets, known, rfl⟩

theorem CtxOk.retVal (ok : CtxOk tracked view name ctx) {retVal : RetVal}
    (returns : ctx.retVal tracked.key tracked.fp = some retVal) :
    name ∈ names view.order ∧
      ((register tracked.initial).apply ((register tracked.initial).run (earlier view.order name))
        ctx.request.operation).2 = retVal := by
  by_cases read : ctx.kvsRead tracked.fp
  swap
  · simp [ReqCtx.retVal, read] at returns
  rw [ReqCtx.retVal, if_pos read] at returns
  obtain ⟨buckets, _, known, matched, buffer, sameValue⟩ := ok.findMatchKvIdx read
  cases kind : ctx.request with
  | search =>
    obtain ⟨mem, value⟩ := ok.searched kind buckets known
    simp only [kind, matched, Option.bind_some, buffer, Option.map_some, Option.some.injEq]
      at returns
    refine ⟨mem, ?_⟩
    rw [← returns, sameValue, value]
    rfl
  | update value mmAllocCtx =>
    simp only [kind, matched] at returns
    split_ifs at returns with done
    cases returns
    exact ⟨ok.swapped done.1, rfl⟩

end Found

section Frames

variable {tracked : Tracked}
variable {fp : UInt8} {buckets : Buckets}

theorem Binds.congr {key : List UInt8} {before after : Location → List UInt8} {position : Position}
    (binds : Binds key fp before position buckets)
    (same : ∀ other, after (location (buckets other)) = before (location (buckets other))) :
    Binds key fp after position buckets := by
  obtain ⟨candidate, keyed, others⟩ := binds
  refine ⟨candidate, by rw [same, keyed], fun other apart candidateOther => ?_⟩
  rw [same]
  exact others other apart candidateOther

variable {word : UInt64}

theorem Binds.swap {key : List UInt8} {keyAt : Location → List UInt8} {position : Position}
    (binds : Binds key fp keyAt position buckets) (candidate : isCandidate fp word)
    (keyed : keyAt (location word) = key) :
    Binds key fp keyAt position (update buckets position word) := by
  refine ⟨by simpa using candidate, by simpa using keyed, fun other apart => ?_⟩
  rw [update_of_ne apart]
  exact binds.2.2 other apart

variable {ctx : ReqCtx}

/-- A request in flight is not disturbed by steps of others that leave alone
what it refers to. -/
theorem CtxOk.transport (ok : CtxOk tracked view name ctx) (after : View)
    (snapshots : ∀ buckets, ctx.localBuckets = some buckets → ∀ other, after.keyAt (location
      (buckets other)) = view.keyAt (location (buckets other)) ∧ after.valueAt (location (buckets
      other)) = view.valueAt (location (buckets other)))
    (own : ∀ value mmAllocCtx, ctx.request = .update value mmAllocCtx → ctx.kvWritten →
      ctx.swapBack = none → after.keyAt (location (fillSlot mmAllocCtx tracked.fp)) = view.keyAt
      (location (fillSlot mmAllocCtx tracked.fp)) ∧ after.valueAt (location (fillSlot mmAllocCtx
      tracked.fp)) = view.valueAt (location (fillSlot mmAllocCtx tracked.fp)))
    (unlisted : ctx.localBuckets = none → name ∉ names after.order)
    (mem : name ∈ names view.order → name ∈ names after.order ∧ earlier after.order name =
      earlier view.order name)
    (waiting : ∀ value mmAllocCtx buckets, ctx.request = .update value mmAllocCtx →
      ctx.localBuckets = some buckets → ctx.swapBack = none → (name ∈ names after.order ↔ buckets
      tracked.position ≠ after.slots tracked.position)) : CtxOk tracked after name ctx where
  snapshot buckets known :=
    (ok.snapshot buckets known).congr fun other => (snapshots buckets known other).1
  buffered buckets other pair known buffer := by
    rw [(snapshots buckets known other).1, (snapshots buckets known other).2]
    exact ok.buffered buckets other pair known buffer
  unread none := ⟨unlisted none, (ok.unread none).2⟩
  searched kind buckets known := by
    obtain ⟨before, value⟩ := ok.searched kind buckets known
    obtain ⟨after, same⟩ := mem before
    rw [(snapshots buckets known tracked.position).2, same]
    exact ⟨after, value⟩
  written value mmAllocCtx kind done pending := by
    rw [(own value mmAllocCtx kind done pending).1, (own value mmAllocCtx kind done pending).2]
    exact ok.written value mmAllocCtx kind done pending
  unwritten := ok.unwritten
  waiting := waiting
  swapped done := (mem (ok.swapped done)).1

theorem CtxOk.extend (ok : CtxOk tracked view name ctx) (more : List (ℕ × RegisterOp))
    (absent : name ∉ names more) :
    CtxOk tracked { view with order := view.order ++ more } name ctx := by
  have same : name ∈ names (view.order ++ more) ↔ name ∈ names view.order := by
    simp [absent]
  refine ok.transport _ (fun _ _ _ => ⟨rfl, rfl⟩) (fun _ _ _ _ _ => ⟨rfl, rfl⟩) ?_ ?_ ?_
  · intro none
    rw [same]
    exact (ok.unread none).1
  · intro mem
    exact ⟨same.mpr mem, earlier_append_of_mem mem more⟩
  · intro value mmAllocCtx buckets kind known pending
    rw [same]
    exact ok.waiting value mmAllocCtx buckets kind known pending

variable {mmAllocCtx : ClientMMAllocCtx}

theorem ReqCtx.ownPlace_update (ctx : ReqCtx) {value : List UInt8}
    (kind : ctx.request = .update value mmAllocCtx) (flight : ctx.InFlight)
    (pending : ctx.swapBack = none) :
    ctx.ownPlace fp = some (location (fillSlot mmAllocCtx fp)) := by
  simp [ownPlace, kind, flight, pending]

theorem ReqCtx.ownPlace_swapped (ctx : ReqCtx) :
    { ctx with swapBack := some word }.ownPlace fp = none := by
  unfold ownPlace
  split <;> simp

theorem CtxOk.swap (ok : CtxOk tracked view name ctx) {value : List UInt8}
    (kind : ctx.request = .update value mmAllocCtx) (read : ctx.localBuckets = some buckets)
    (written : ctx.kvWritten) (mem : name ∈ names view.order) (word : UInt64) :
    CtxOk tracked view name { ctx with swapBack := some word } where
  snapshot := ok.snapshot
  buffered := ok.buffered
  unread none := by
    rw [show ctx.localBuckets = some buckets from read] at none
    cases none
  searched search := by
    rw [show ctx.request = .update value mmAllocCtx from kind] at search
    cases search
  written := by rintro _ _ _ _ ⟨⟩
  unwritten unwritten := by
    rw [show ctx.kvWritten = true from written] at unwritten
    cases unwritten
  waiting := by rintro _ _ _ _ _ ⟨⟩
  swapped _ := mem

theorem ReqCtx.referenced_of_ownPlace (ctx : ReqCtx) {place : Location}
    (own : ctx.ownPlace fp = some place) :
    ctx.InFlight ∧
      match ctx.request with
      | .search => False
      | .update _ mmAllocCtx => location (fillSlot mmAllocCtx fp) = place := by
  cases kind : ctx.request with
  | search => simp [ownPlace, kind] at own
  | update value mmAllocCtx =>
    simp only [ownPlace, kind] at own
    split_ifs at own with waiting
    exact ⟨waiting.1, Option.some.inj own⟩

section Exclusive

variable {fp : UInt8} {slots : Buckets} {requests : ℕ → Option ReqCtx} {name : ℕ}
  (exclusive : Exclusive fp slots requests)
include exclusive

theorem Exclusive.put {after : ReqCtx} (known : requests name = some ctx)
    (own : ∀ place, after.ownPlace fp = some place → ctx.ownPlace fp = some place)
    (references : after.InFlight → ∀ buckets, after.localBuckets = some buckets → (ctx.InFlight ∧
      ctx.localBuckets = some buckets) ∨ buckets = slots) :
    Exclusive fp slots (update requests name (some after)) := by
  -- every request was there before, with no less of its own
  have before : ∀ other found, update requests name (some after) other = some found →
      ∃ old, requests other = some old ∧
        (∀ place, found.ownPlace fp = some place → old.ownPlace fp = some place) ∧
        (found.InFlight → ∀ buckets, found.localBuckets = some buckets →
          (old.InFlight ∧ old.localBuckets = some buckets) ∨ buckets = slots) := by
    intro other found knownOther
    rcases update_eq_some knownOther with ⟨rfl, rfl⟩ | ⟨-, unchanged⟩
    · exact ⟨ctx, known, own, references⟩
    · exact ⟨found, unchanged, fun _ => id, fun flight _ found => .inl ⟨flight, found⟩⟩
  intro first found place knownFirst ownFirst
  obtain ⟨old, knownOld, ownOld, -⟩ := before first found knownFirst
  obtain ⟨free, others⟩ := exclusive first old place knownOld (ownOld place ownFirst)
  refine ⟨free, fun other second knownSecond => ⟨?_, ?_⟩⟩
  · intro flight buckets snapshot
    obtain ⟨oldSecond, knownOldSecond, -, refers⟩ := before other second knownSecond
    rcases refers flight buckets snapshot with ⟨oldFlight, oldSnapshot⟩ | rfl
    · exact (others other oldSecond knownOldSecond).1 oldFlight buckets oldSnapshot
    · exact free
  · intro apart ownSecond
    obtain ⟨oldSecond, knownOldSecond, ownOldSecond, -⟩ := before other second knownSecond
    exact (others other oldSecond knownOldSecond).2 apart (ownOldSecond place ownSecond)

theorem Exclusive.swap (known : requests name = some ctx)
    (own : ctx.ownPlace fp = some (location word)) (swapBack : UInt64) (position : Position) :
    Exclusive fp (update slots position word)
      (update requests name (some { ctx with swapBack := some swapBack })) := by
  have given : ∀ place, { ctx with swapBack := some swapBack }.ownPlace fp ≠ some place := by
    simp [ctx.ownPlace_swapped]
  have put := exclusive.put known (fun place owned => absurd owned (given place))
    fun flight _ found => .inl ⟨flight, found⟩
  intro other found place knownOther owned
  refine ⟨fun here => ?_, (put other found place knownOther owned).2⟩
  rcases update_eq_some knownOther with ⟨rfl, rfl⟩ | ⟨apart, unchanged⟩
  · exact absurd owned (given place)
  · by_cases same : here = position
    · rw [same, update_self]
      rintro rfl
      exact ((exclusive name ctx _ known own).2 other found unchanged).2 apart owned
    · rw [update_of_ne same]
      exact (exclusive other found place unchanged owned).1 here

theorem Exclusive.invoke {after : ReqCtx} (unknown : requests name = none)
    (empty : after.localBuckets = none)
    (fresh : ∀ place, after.ownPlace fp = some place → (∀ position, location (slots position) ≠
      place) ∧ ∀ other ctx, requests other = some ctx → (ctx.InFlight → ∀ buckets, ctx.localBuckets
      = some buckets → ∀ position, location (buckets position) ≠ place) ∧ ctx.ownPlace fp ≠ some
      place) : Exclusive fp slots (update requests name (some after)) := by
  intro first found place knownFirst ownFirst
  rcases update_eq_some knownFirst with ⟨rfl, rfl⟩ | ⟨-, oldFirst⟩
  · obtain ⟨free, others⟩ := fresh place ownFirst
    refine ⟨free, fun other second knownSecond => ?_⟩
    rcases update_eq_some knownSecond with ⟨rfl, rfl⟩ | ⟨-, oldSecond⟩
    · simp [empty]
    · exact ⟨(others other second oldSecond).1, fun _ => (others other second oldSecond).2⟩
  · obtain ⟨free, others⟩ := exclusive first found place oldFirst ownFirst
    refine ⟨free, fun other second knownSecond => ?_⟩
    rcases update_eq_some knownSecond with ⟨rfl, rfl⟩ | ⟨-, oldSecond⟩
    · refine ⟨by simp [empty], fun _ owned => ?_⟩
      exact ((fresh place owned).2 first found oldFirst).2 ownFirst
    · exact others other second oldSecond

end Exclusive

theorem named_put (s : System)
    (named : ∀ other found, s.requests other = some found → found.interval.invoked = other ∧
      other < s.clock ∧ found.interval.operation = found.request.operation)
    (invoked : ctx.interval.invoked = name) (time : name ≤ s.clock)
    (op : ctx.interval.operation = ctx.request.operation) :
    ∀ other found, (s.put name ctx).requests other = some found →
      found.interval.invoked = other ∧ other < (s.put name ctx).clock ∧
        found.interval.operation = found.request.operation := by
  intro other found known
  by_cases same : other = name
  · subst same
    rw [System.requests_put_self] at known
    cases known
    exact ⟨invoked, Nat.lt_succ_of_le time, op⟩
  · rw [s.requests_put_of_ne ctx same] at known
    obtain ⟨invokedOther, early, operationOther⟩ := named other found known
    exact ⟨invokedOther, Nat.lt_succ_of_lt early, operationOther⟩

theorem history_put {s : System} (name : ℕ) (ctx : ReqCtx) :
    (s.put name ctx).history = update s.history name (some ctx.interval) := by
  funext other
  by_cases same : other = name
  · simp [System.history, same]
  · simp [System.history, s.requests_put_of_ne ctx same, same]

end Frames

end FuseeFs.KeyValue
