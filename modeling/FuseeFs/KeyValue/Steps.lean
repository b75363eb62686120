import FuseeFs.KeyValue.Invariant

/-!
# The steps of searches and updates

Every step keeps the invariant, with the same list of requests that have taken
effect or with a longer one.
-/

namespace FuseeFs.KeyValue

open List Option Function Index Library Replication

variable {tracked : Tracked} {s : System} {order : List (ℕ × RegisterOp)} {name : ℕ}
  {ctx : ReqCtx}

/-! ## Steps that only fill local buffers -/

theorem Inv.stay (inv : Inv tracked s order) (known : s.requests name = some ctx)
    {memory : Location → KVPair} {after : ReqCtx}
    (contents : ∀ place, (memory place).key = (s.memory place).key ∧
      (memory place).value = (s.memory place).value)
    (linear : Linearizes (register tracked.initial)
      (update s.history name (some after.interval)) order)
    (interval : after.interval.invoked = ctx.interval.invoked ∧
      after.interval.operation = ctx.interval.operation)
    (req : after.request = ctx.request)
    (own : ∀ place, after.ownPlace tracked.fp = some place → ctx.ownPlace tracked.fp = some place)
    (references : after.InFlight → ∀ buckets, after.localBuckets = some buckets →
      (ctx.InFlight ∧ ctx.localBuckets = some buckets) ∨ buckets = s.slots)
    (ok : after.InFlight → CtxOk tracked (s.view order) name after) :
    Inv tracked ({ s with memory := memory }.put name after) order := by
  obtain ⟨invoked, early, op⟩ := inv.named name ctx known
  have view : ({ s with memory := memory }.put name after).view order = s.view order := by
    simp only [System.view, System.put, View.mk.injEq, true_and, and_true]
    exact ⟨funext fun place => (contents place).1, funext fun place => (contents place).2⟩
  constructor
  · rw [history_put]
    exact linear
  · exact named_put { s with memory := memory } inv.named (interval.1.trans invoked)
      early.le (by rw [interval.2, req, op])
  · rw [view]
    exact inv.bound
  · rw [view]
    exact inv.current
  · exact inv.exclusive.put known own references
  · rw [view]
    intro other found knownOther flight
    by_cases same : other = name
    · subst same
      rw [System.requests_put_self] at knownOther
      cases knownOther
      exact ok flight
    · rw [System.requests_put_of_ne _ _ same] at knownOther
      exact inv.requestsOk other found knownOther flight

theorem Inv.invoked_le_clock (inv : Inv tracked s order) (other : ℕ)
    (later : Interval RegisterOp RetVal) (known : s.history other = some later) :
    later.invoked ≤ s.clock := by
  obtain ⟨found, knownFound, rfl⟩ := map_eq_some_iff.mp known
  obtain ⟨_, _, -⟩ := inv.named other found knownFound
  omega

theorem history_of_same_interval (known : s.requests name = some ctx) {after : ReqCtx}
    (same : after.interval = ctx.interval) :
    update s.history name (some after.interval) = s.history := by
  rw [update_eq_self_iff, same, System.history, known]
  rfl

section SameInterval

variable (inv : Inv tracked s order) (known : s.requests name = some ctx)
include inv known

theorem linear_of_same_interval {after : ReqCtx} (same : after.interval = ctx.interval) :
    Linearizes (register tracked.initial)
      (update s.history name (some after.interval)) order := by
  rw [history_of_same_interval known same]
  exact inv.linear

theorem Inv.readBuckets_update (flight : ctx.InFlight) (unread : ctx.localBuckets = none)
    {value : List UInt8} {mmAllocCtx : ClientMMAllocCtx}
    (kind : ctx.request = .update value mmAllocCtx) :
    Inv tracked (s.put name { ctx with localBuckets := some s.slots }) order := by
  have ok := inv.requestsOk name ctx known flight
  obtain ⟨unlisted, pending, empty⟩ := ok.unread unread
  refine inv.stay known (fun _ => ⟨rfl, rfl⟩) (linear_of_same_interval inv known rfl) ⟨rfl, rfl⟩ rfl
    (fun _ => id) (fun _ buckets found => .inr (some.inj found).symm) fun _ => ?_
  refine ⟨?_, ?_, by rintro ⟨⟩, ?_, ok.written, ok.unwritten, ?_, ?_⟩
  · rintro _ ⟨⟩
    exact inv.bound
  · intro _ other pair _ buffer
    rw [empty other] at buffer
    cases buffer
  · intro search
    rw [kind] at search
    cases search
  · rintro _ _ _ _ ⟨⟩ _
    exact iff_of_false unlisted (not_not.mpr rfl)
  · intro done
    simp [pending] at done

theorem Inv.readKv (flight : ctx.InFlight) {buckets : Buckets}
    (read : ctx.localBuckets = some buckets) (pos : Position) :
    Inv tracked (s.put name { ctx with
      kvBuffers := update ctx.kvBuffers pos
        (some (s.memory (location (buckets pos)))) }) order := by
  have ok := inv.requestsOk name ctx known flight
  refine inv.stay known (fun _ => ⟨rfl, rfl⟩) (linear_of_same_interval inv known rfl) ⟨rfl, rfl⟩ rfl
    (fun _ => id) (fun flight _ found => .inl ⟨flight, found⟩) fun _ => ?_
  refine ⟨ok.snapshot, ?_, ?_, ok.searched, ok.written, ok.unwritten, ok.waiting, ok.swapped⟩
  · intro snapshot other pair found buffer
    by_cases same : other = pos
    · subst same
      cases read.symm.trans found
      simp only [update_self, Option.some.injEq] at buffer
      rw [← buffer]
      exact ⟨rfl, rfl⟩
    · simp only [update_of_ne same] at buffer
      exact ok.buffered snapshot other pair found buffer
  · intro none
    rw [read] at none
    cases none

theorem Inv.writeInvalid (flight : ctx.InFlight) (place : Location) :
    Inv tracked ({ s with
      memory := update s.memory place
        ({ s.memory place with isValid := false }) }.put name { ctx with invalidated := true })
      order := by
  have ok := inv.requestsOk name ctx known flight
  refine inv.stay known (fun other => ?_) (linear_of_same_interval inv known rfl) ⟨rfl, rfl⟩ rfl
    (fun _ => id) (fun flight _ found => .inl ⟨flight, found⟩) fun _ => ?_
  · by_cases same : other = place
    · rw [same, update_self]
      exact ⟨rfl, rfl⟩
    · rw [update_of_ne same]
      exact ⟨rfl, rfl⟩
  · exact ⟨ok.snapshot, ok.buffered, ok.unread, ok.searched, ok.written, ok.unwritten, ok.waiting,
      ok.swapped⟩

theorem Inv.respond (flight : ctx.InFlight) {retVal : RetVal}
    (returns : ctx.retVal tracked.key tracked.fp = some retVal) :
    Inv tracked (s.put name { ctx with interval.returned := some (s.clock, retVal) }) order := by
  obtain ⟨mem, result⟩ := (inv.requestsOk name ctx known flight).retVal returns
  have knownHistory : s.history name = some ctx.interval := by simp [System.history, known]
  have linear := inv.linear.respond knownHistory mem inv.invoked_le_clock
  rw [← (inv.named name ctx known).2.2] at result
  subst result
  refine inv.stay known (fun _ => ⟨rfl, rfl⟩) linear ⟨rfl, rfl⟩ rfl ?_ (by rintro ⟨⟩) (by rintro ⟨⟩)
  intro place own
  unfold ReqCtx.ownPlace at own
  split at own
  · cases own
  · rw [if_neg (by simp [ReqCtx.InFlight])] at own
    cases own

end SameInterval

/-! ## Invocations -/

theorem Inv.invoke (inv : Inv tracked s order) {req : Request}
    (fresh : ∀ value mmAllocCtx, req = .update value mmAllocCtx →
      ¬ Referenced tracked.fp s (location (fillSlot mmAllocCtx tracked.fp))) :
    Inv tracked (s.put s.clock (.start req s.clock)) order := by
  have unknown : s.requests s.clock = none := by
    cases known : s.requests s.clock with
    | none => rfl
    | some ctx => exact absurd (inv.named _ ctx known).2.1 (lt_irrefl _)
  have unknownHistory : s.history s.clock = none := by simp [System.history, unknown]
  constructor
  · rw [history_put]
    exact inv.linear.invoke unknownHistory rfl
  · exact named_put s inv.named rfl le_rfl rfl
  · exact inv.bound
  · exact inv.current
  · refine inv.exclusive.invoke unknown rfl fun place own => ?_
    cases req with
    | search => cases own
    | update value mmAllocCtx =>
      have same : location (fillSlot mmAllocCtx tracked.fp) = place := by
        simpa [ReqCtx.ownPlace, ReqCtx.start, ReqCtx.InFlight] using own
      have unreferenced := same ▸ fresh value mmAllocCtx rfl
      refine ⟨fun pos refers => unreferenced (.inl ⟨pos, refers⟩),
        fun other ctx known => ⟨fun flight buckets read pos refers => ?_, fun owned => ?_⟩⟩
      · exact unreferenced (.inr ⟨other, (inv.named other ctx known).2.1, ctx, known, flight,
          .inl ⟨buckets, read, pos, refers⟩⟩)
      · obtain ⟨flight, refers⟩ := ctx.referenced_of_ownPlace owned
        exact unreferenced (.inr ⟨other, (inv.named other ctx known).2.1, ctx, known, flight,
          .inr refers⟩)
  · intro other found known flight
    by_cases same : other = s.clock
    · subst same
      rw [System.requests_put_self] at known
      cases known
      have absent := inv.linear.not_mem_names_of_none unknownHistory
      exact .start absent
    · rw [s.requests_put_of_ne _ same] at known
      exact inv.requestsOk other found known flight

section Effects

variable {value : List UInt8} {mmAllocCtx : ClientMMAllocCtx} (inv : Inv tracked s order)
  (known : s.requests name = some ctx) (flight : ctx.InFlight)
include inv known flight

/-- A search takes effect when it reads the buckets. -/
theorem Inv.readBuckets_search (unread : ctx.localBuckets = none) (kind : ctx.request = .search) :
    Inv tracked (s.put name { ctx with localBuckets := some s.slots })
      (order ++ [(name, .read)]) := by
  have ok := inv.requestsOk name ctx known flight
  obtain ⟨absent, pending, empty⟩ := ok.unread unread
  obtain ⟨invoked, early, op⟩ := inv.named name ctx known
  rw [kind] at op
  constructor
  · rw [history_put, ← show ctx.interval.operation = .read from op]
    exact (linear_of_same_interval inv known rfl).append (update_self ..) flight absent
  · exact named_put s inv.named invoked early.le (by rw [kind]; exact op)
  · exact inv.bound
  · rw [SequentialObject.run_append_singleton]
    exact inv.current
  · exact inv.exclusive.put known (fun _ => id) fun _ _ found => .inr (some.inj found).symm
  · intro other found knownOther flightOther
    by_cases same : other = name
    · subst same
      rw [System.requests_put_self] at knownOther
      cases knownOther
      refine ⟨?_, ?_, by rintro ⟨⟩, ?_, ?_, ok.unwritten, ?_, ?_⟩
      · rintro _ ⟨⟩
        exact inv.bound
      · intro _ pos pair _ buffer
        rw [empty pos] at buffer
        cases buffer
      · rintro _ _ ⟨⟩
        refine ⟨by simp [System.view], ?_⟩
        have before : earlier (order ++ [(other, .read)]) other = order :=
          earlier_append_self absent .read []
        exact inv.current.trans (congrArg (register tracked.initial).run before.symm)
      · intro value mmAllocCtx update
        rw [kind] at update
        cases update
      · intro value mmAllocCtx _ update
        rw [kind] at update
        cases update
      · intro done
        simp [pending] at done
    · rw [s.requests_put_of_ne _ same] at knownOther
      exact (inv.requestsOk other found knownOther flightOther).extend _ (by simpa using same)

theorem Inv.writeKv (unwritten : ctx.kvWritten = false)
    (kind : ctx.request = .update value mmAllocCtx) :
    Inv tracked ({ s with
      memory := update s.memory (location (fillSlot mmAllocCtx tracked.fp))
        ⟨true, tracked.key, value⟩ }.put name { ctx with kvWritten := true }) order := by
  have ok := inv.requestsOk name ctx known flight
  have pending := ok.unwritten unwritten
  have own : ctx.ownPlace tracked.fp = some (location (fillSlot mmAllocCtx tracked.fp)) :=
    ctx.ownPlace_update kind flight pending
  obtain ⟨free, others⟩ := inv.exclusive name ctx _ known own
  obtain ⟨invoked, early, op⟩ := inv.named name ctx known
  generalize written : update s.memory (location (fillSlot mmAllocCtx tracked.fp))
    ⟨true, tracked.key, value⟩ = memory
  -- pairs in other places stay as they are
  have kept : ∀ place, place ≠ location (fillSlot mmAllocCtx tracked.fp) →
      memory place = s.memory place := by
    intro place apart
    rw [← written, update_of_ne apart]
  have new : memory (location (fillSlot mmAllocCtx tracked.fp)) = ⟨true, tracked.key, value⟩ := by
    rw [← written, update_self]
  constructor
  · rw [history_put]
    exact linear_of_same_interval inv known rfl
  · exact named_put { s with memory := memory } inv.named invoked early.le op
  · exact inv.bound.congr fun pos => congrArg KVPair.key (kept _ (free pos))
  · exact (congrArg KVPair.value (kept _ (free tracked.position))).trans inv.current
  · refine inv.exclusive.put known (fun place owned => ?_) fun flight _ found => .inl ⟨flight, found⟩
    exact owned
  · intro other found knownOther flightOther
    by_cases same : other = name
    · subst same
      rw [System.requests_put_self] at knownOther
      cases knownOther
      have moved := ok.transport ({ s with memory := memory }.view order)
        (fun buckets read pos => by
          have apart := (others other ctx known).1 flight buckets read pos
          exact ⟨congrArg KVPair.key (kept _ apart), congrArg KVPair.value (kept _ apart)⟩)
        (fun _ _ _ done => by simp [unwritten] at done)
        (fun none => (ok.unread none).1) (fun mem => ⟨mem, rfl⟩) ok.waiting
      refine { moved with written := ?_, unwritten := by rintro ⟨⟩ }
      intro value' mmAllocCtx' kind' _ _
      cases kind.symm.trans kind'
      exact ⟨congrArg KVPair.key new, congrArg KVPair.value new⟩
    · rw [System.requests_put_of_ne _ _ same] at knownOther
      have okOther := inv.requestsOk other found knownOther flightOther
      refine okOther.transport _ ?_ ?_ (fun none => (okOther.unread none).1)
        (fun mem => ⟨mem, rfl⟩) okOther.waiting
      · intro buckets read pos
        have apart := (others other found knownOther).1 flightOther buckets read pos
        exact ⟨congrArg KVPair.key (kept _ apart), congrArg KVPair.value (kept _ apart)⟩
      · intro value' mmAllocCtx' kind' _ pending'
        have apart := (others other found knownOther).2 same
        rw [found.ownPlace_update kind' flightOther pending', Ne, Option.some.injEq] at apart
        exact ⟨congrArg KVPair.key (kept _ apart), congrArg KVPair.value (kept _ apart)⟩

theorem Inv.casSlot_fails (kind : ctx.request = .update value mmAllocCtx)
    (pending : ctx.swapBack = none) (written : ctx.kvWritten) {buckets : Buckets}
    (read : ctx.localBuckets = some buckets)
    (fails : buckets tracked.position ≠ s.slots tracked.position) (word : UInt64) :
    Inv tracked (s.put name { ctx with swapBack := some word }) order := by
  have ok := inv.requestsOk name ctx known flight
  have mem := (ok.waiting value mmAllocCtx buckets kind read pending).mpr fails
  refine inv.stay known (fun _ => ⟨rfl, rfl⟩) (linear_of_same_interval inv known rfl) ⟨rfl, rfl⟩ rfl
    ?_ (fun flight _ found => .inl ⟨flight, found⟩) fun _ => ok.swap kind read written mem word
  intro place owned
  rw [ctx.ownPlace_swapped] at owned
  cases owned

end Effects

/-! ## A successful compare-and-swap -/

/-- An update in flight that has read the present slot value and not tried to
swap it yet. -/
def Expects (tracked : Tracked) (slots : Buckets) (ctx : ReqCtx) : Prop :=
  ctx.InFlight ∧ ctx.request ≠ .search ∧ ctx.swapBack = none ∧
    ctx.localBuckets.map (fun buckets => buckets tracked.position) = some (slots tracked.position)

instance (tracked : Tracked) (slots : Buckets) (ctx : ReqCtx) :
    Decidable (Expects tracked slots ctx) :=
  inferInstanceAs (Decidable (_ ∧ _ ∧ _ ∧ _))

def loser (tracked : Tracked) (s : System) (winner name : ℕ) : Option RegisterOp := do
  let ctx ← s.requests name
  if name ≠ winner ∧ Expects tracked s.slots ctx then some ctx.interval.operation else none

def effects (tracked : Tracked) (s : System) (winner : ℕ) (value : List UInt8) :
    List (ℕ × RegisterOp) :=
  listing s.clock (loser tracked s winner) ++ [(winner, .write value)]

theorem loser_eq_some {winner : ℕ} {op : RegisterOp} :
    loser tracked s winner name = some op ↔
      ∃ ctx, s.requests name = some ctx ∧ name ≠ winner ∧ Expects tracked s.slots ctx ∧
        ctx.interval.operation = op := by
  simp only [loser, bind_eq_bind, bind_eq_some_iff, ite_none_right_eq_some,
    Option.some.injEq, and_assoc]

section Swap

variable {value : List UInt8}

section Expecting

variable {other : ℕ} {found : ReqCtx} (inv : Inv tracked s order)
  (known : s.requests name = some ctx) (expects : Expects tracked s.slots ctx)
include inv known expects

theorem Inv.not_mem_names : name ∉ names order := by
  obtain ⟨flight, kind, pending, same⟩ := expects
  obtain ⟨buckets, read, same⟩ := map_eq_some_iff.mp same
  cases update : ctx.request with
  | search => exact absurd update kind
  | update value mmAllocCtx =>
    intro mem
    have ok := inv.requestsOk name ctx known flight
    exact (ok.waiting value mmAllocCtx buckets update read pending).mp mem same

/-- The losers can be listed before the winner. -/
theorem Inv.linear_effects (op : ctx.interval.operation = .write value) :
    Linearizes (register tracked.initial) s.history
      (order ++ effects tracked s name value) := by
  have losers := inv.linear.append_all (listing s.clock (loser tracked s name))
    (nodup_names_listing _ _) fun entry mem => by
      obtain ⟨found, knownFound, -, expects, op⟩ := loser_eq_some.mp (mem_listing.mp mem).2
      exact ⟨inv.not_mem_names knownFound expects, found.interval,
        by simp [System.history, knownFound], op, expects.1⟩
  have absent : name ∉ names (order ++ listing s.clock (loser tracked s name)) := by
    rw [names_append, mem_append, not_or]
    refine ⟨inv.not_mem_names known expects, fun mem => ?_⟩
    obtain ⟨_, membership, named⟩ := List.mem_map.mp mem
    obtain ⟨-, -, apart, -⟩ := loser_eq_some.mp (mem_listing.mp membership).2
    exact apart named
  have winner := losers.append (by simp [System.history, known]) expects.1 absent
  rw [op] at winner
  rw [effects, ← append_assoc]
  exact winner

/-- With a swap all updates take effect that expected the old slot value. -/
theorem Inv.mem_names_effects (knownOther : s.requests other = some found) :
    other ∈ names (effects tracked s name value) ↔ Expects tracked s.slots found := by
  rw [effects, names_append, mem_append, names_singleton, mem_singleton]
  constructor
  · rintro (mem | rfl)
    · obtain ⟨_, membership, rfl⟩ := List.mem_map.mp mem
      obtain ⟨_, known', -, expects', -⟩ := loser_eq_some.mp (mem_listing.mp membership).2
      cases knownOther.symm.trans known'
      exact expects'
    · cases known.symm.trans knownOther
      exact expects
  · intro expectsOther
    by_cases self : other = name
    · exact .inr self
    · have picked : loser tracked s name other = some found.interval.operation :=
        loser_eq_some.mpr ⟨found, knownOther, self, expectsOther, rfl⟩
      have small := (inv.named other found knownOther).2.1
      exact .inl (List.mem_map.mpr ⟨(other, _), mem_listing.mpr ⟨small, picked⟩, rfl⟩)

theorem Inv.ctxOk_effects {slots : Buckets}
    (new : ∀ other found buckets, s.requests other = some found → found.InFlight →
      found.localBuckets = some buckets → buckets tracked.position ≠ slots tracked.position)
    (knownOther : s.requests other = some found) (flight : found.InFlight) :
    CtxOk tracked ({ s with slots := slots }.view (order ++ effects tracked s name value))
      other found := by
  have ok := inv.requestsOk other found knownOther flight
  have effected : other ∈ names (effects tracked s name value) ↔ _ :=
    inv.mem_names_effects known expects knownOther
  refine ok.transport _ (fun _ _ _ => ⟨rfl, rfl⟩) (fun _ _ _ _ _ => ⟨rfl, rfl⟩) ?_ ?_ ?_
  · intro none
    rw [System.view, names_append, mem_append, effected, not_or]
    refine ⟨(ok.unread none).1, fun expects => ?_⟩
    simp [Expects, none] at expects
  · intro mem
    rw [System.view, names_append]
    exact ⟨mem_append_left _ mem, earlier_append_of_mem mem _⟩
  · intro value' mmAllocCtx buckets kind read pending
    rw [System.view, names_append, mem_append, effected]
    refine iff_of_true ?_ (new other found buckets knownOther flight read)
    by_cases same : buckets tracked.position = s.slots tracked.position
    · exact .inr ⟨flight, by simp [kind], pending, by simp [read, same]⟩
    · exact .inl ((ok.waiting value' mmAllocCtx buckets kind read pending).mpr same)

end Expecting

/-- A successful compare-and-swap makes the update and all that expected the
same slot value take effect. -/
theorem Inv.casSlot_succeeds (inv : Inv tracked s order) (known : s.requests name = some ctx)
    {mmAllocCtx : ClientMMAllocCtx} (kind : ctx.request = .update value mmAllocCtx)
    (written : ctx.kvWritten) (expects : Expects tracked s.slots ctx) (word : UInt64) :
    Inv tracked ({ s with
      slots := update s.slots tracked.position (fillSlot mmAllocCtx tracked.fp) }.put
        name { ctx with swapBack := some word }) (order ++ effects tracked s name value) := by
  have ⟨flight, _, pending, same⟩ := expects
  obtain ⟨buckets, read, -⟩ := map_eq_some_iff.mp same
  have own : ctx.ownPlace tracked.fp = some (location (fillSlot mmAllocCtx tracked.fp)) :=
    ctx.ownPlace_update kind flight pending
  obtain ⟨-, others⟩ := inv.exclusive name ctx _ known own
  obtain ⟨invoked, early, op⟩ := inv.named name ctx known
  obtain ⟨keyed, valued⟩ :=
    (inv.requestsOk name ctx known flight).written value mmAllocCtx kind written pending
  have bound := inv.bound.swap (isCandidate_fillSlot mmAllocCtx tracked.fp) keyed
  have writes : ctx.interval.operation = .write value := by
    rw [op, kind]
    rfl
  have linear := inv.linear_effects known expects writes
  have exclusive := inv.exclusive.swap known own word tracked.position
  generalize swapped : update s.slots tracked.position
    (fillSlot mmAllocCtx tracked.fp) = slots at bound exclusive
  have new : slots tracked.position = fillSlot mmAllocCtx tracked.fp := by
    rw [← swapped, update_self]
  constructor
  · rw [history_put]
    rw [← history_of_same_interval known rfl] at linear
    exact linear
  · exact named_put { s with slots := slots } inv.named invoked early.le op
  · exact bound
  · change (s.view order).valueAt (location (slots tracked.position)) = _
    rw [new, effects, ← append_assoc, SequentialObject.run_append_singleton]
    exact valued
  · exact exclusive
  · intro other found knownOther flightOther
    have moved : ∀ other found, s.requests other = some found → found.InFlight →
        CtxOk tracked ({ s with slots := slots }.view
          (order ++ effects tracked s name value)) other found := by
      intro other found knownOther flightOther
      refine inv.ctxOk_effects known expects (fun other found buckets knownOther flight read => ?_)
        knownOther flightOther
      rw [new]
      exact fun same => (others other found knownOther).1 flight buckets read tracked.position
        (congrArg location same)
    by_cases self : other = name
    · subst self
      rw [System.requests_put_self] at knownOther
      cases knownOther
      exact (moved other ctx known flight).swap kind read written
        (by simp [System.view, effects]) word
    · rw [System.requests_put_of_ne _ _ self] at knownOther
      exact moved other found knownOther flightOther

end Swap

end FuseeFs.KeyValue
