import FuseeFs.KeyValue.CachedSteps

/-!
# Cached reads go forward

The steps that change memory or the primary slot keep the invariant as well.  So
a search never returns a value that was replaced before the search started, as
long as it does not read a cached pair in the window between the compare-and-swap
that replaces the pair and the write that clears its valid byte.
-/

namespace FuseeFs.KeyValue.Cached

open List Option Function Index Library Replication

variable {k : ℕ} {setting : Setting} {s : System k} {name : ℕ} {ctx next : ReqCtx k}
  {write : Write}

theorem owns_ownSlot (req : ctx.request = .write write) :
    ctx.Owns setting (location (write.ownSlot setting.fp)) := by
  unfold ReqCtx.Owns
  rw [req]

/-! ## Steps that change memory -/

/-- A write changes memory that nobody refers to, or clears a valid byte. -/
theorem Inv.put_memory (inv : Inv setting s) (known : s.requests name = some ctx)
    (flight : ctx.InFlight) {memory : Location → KVPair} {touched : Location → Prop}
    (frame : Frame s ({ s with memory := memory }.put name next) touched)
    (own : ∀ place, touched place → ctx.Pending setting place)
    (isWrite : ctx.request = .write write) (req : next.request = ctx.request)
    (invoked : next.invoked = ctx.invoked)
    (unswapped : next.Unswapped → ctx.Unswapped)
    (refers : ∀ place, next.RefersTo place → ctx.RefersTo place)
    (ok : CtxOk setting ({ s with memory := memory }.put name next) next) :
    Inv setting ({ s with memory := memory }.put name next) := by
  have owns : ∀ place, next.Owns setting place → ctx.Owns setting place := by
    intro place owned
    unfold ReqCtx.Owns at owned ⊢
    rw [← req]
    exact owned
  have apart : ∀ place, touched place → ¬ s.Shared setting place ∧
      ∀ other found, s.requests other = some found → found.InFlight → other ≠ name →
        ¬ found.RefersTo place ∧ ¬ found.Owns setting place := by
    intro place isTouched
    obtain ⟨unshared, apart⟩ := inv.exclusive name ctx place known (own place isTouched)
    refine ⟨unshared, fun other found knownOther otherFlight differs => ?_⟩
    obtain ⟨notReferred, notOwned⟩ := apart other found knownOther otherFlight
    exact ⟨notReferred, notOwned differs⟩
  obtain ⟨early, started⟩ := inv.named name ctx known
  apply inv.put rfl rfl frame apart inv.unreplaced
  · intro filled
    apply frame.heldAs _ (inv.current filled)
    exact fun isTouched => (apart _ isTouched).1 (.inr (.inl rfl))
  · intro pointer entry found
    refine ⟨(inv.pointers pointer entry found).trans (Nat.lt_succ_self _), ?_⟩
    apply frame.held (Nat.zero_le _) _ (inv.cached pointer entry found)
    exact fun isTouched => (apart _ isTouched).1 (shared_of_entry inv found)
  · apply inv.exclusive.put known flight rfl
    · rintro place ⟨-, owned, fresh⟩
      exact ⟨flight, owns place owned, unswapped fresh⟩
    · exact fun place shared => .inl (shared_of_entries inv shared rfl fun _ _ => id)
    · exact fun place referred => .inr (refers place referred)
    · exact owns
  · rw [invoked]
    exact ⟨early.trans (Nat.lt_succ_self _), started.trans (Nat.lt_succ_self _)⟩
  · exact fun _ => ok
  · intro search
    rw [req, isWrite] at search
    cases search

theorem frame_writeKv (known : s.requests name = some ctx) (place : Location) (pair : KVPair)
    (window : ∀ word, ctx.InWindow word → next.InWindow word) :
    Frame s ({ s with memory := update s.memory place pair }.put name next)
      (· = place) := by
  refine ⟨le_rfl, fun _ => rfl, fun _ _ => rfl, fun _ _ => .inl, ?_, ?_, ?_⟩
  · intro other untouched
    have same : update s.memory place pair other = s.memory other := update_of_ne untouched ..
    exact ⟨congrArg KVPair.key same, congrArg KVPair.value same,
      fun valid => congrArg KVPair.isValid same ▸ valid⟩
  · exact fun word _ opened _ => InWindow.put opened known rfl rfl (window word)
  · exact fun later => absurd later (lt_irrefl _)

theorem Inv.writeKv (inv : Inv setting s) (known : s.requests name = some ctx)
    (flight : ctx.InFlight) (req : ctx.request = .write write) (unwritten : ctx.kvWritten = false) :
    Inv setting ({ s with
      memory := update s.memory (location (write.ownSlot setting.fp))
        ⟨true, setting.key, write.value⟩ }.put name { ctx with kvWritten := true }) := by
  have ok := inv.requestsOk name ctx known flight
  have notWritten : ¬ ctx.kvWritten = true := by simp [unwritten]
  have unfilled : ctx.cas = none := by
    rw [eq_none_iff_forall_ne_some]
    intro cas found
    obtain ⟨other, casOk⟩ := ok.casOk cas found
    exact notWritten casOk.kvWritten
  have isPending : ctx.Pending setting (location (write.ownSlot setting.fp)) := by
    refine ⟨flight, owns_ownSlot req, ?_⟩
    intro cas found
    rw [unfilled] at found
    cases found
  obtain ⟨-, apart⟩ := inv.exclusive name ctx _ known isPending
  have frame := @frame_writeKv k s name ctx { ctx with kvWritten := true } known
    (location (write.ownSlot setting.fp)) ⟨true, setting.key, write.value⟩ (fun _ => id)
  refine inv.put_memory known flight frame ?_ req rfl rfl id (fun _ => id) ?_
  · rintro place rfl
    exact isPending
  have framed := ok.frame frame (inv.named name ctx known).2.le
    (fun place referred same => (apart name ctx known flight).1 (same ▸ referred))
    (fun written => absurd written notWritten)
  refine ⟨framed.cached, framed.localCache, framed.unread, framed.snapshot, framed.buffered, ?_,
    framed.uninvalidated, ?_⟩
  · intro other sameRequest _ _
    obtain rfl : write = other := Request.write.inj (req.symm.trans sameRequest)
    have own : update s.memory (location (write.ownSlot setting.fp))
        ⟨true, setting.key, write.value⟩ (location (write.ownSlot setting.fp)) =
          ⟨true, setting.key, write.value⟩ := update_self ..
    exact ⟨congrArg KVPair.key own, congrArg KVPair.value own⟩
  · intro cas found
    rw [unfilled] at found
    cases found

theorem frame_writeInvalid (known : s.requests name = some ctx) {place : Location}
    {pair : KVPair} (cleared : pair.isValid = false)
    (contents : pair.key = (s.memory place).key ∧ pair.value = (s.memory place).value)
    (window : ∀ word, ctx.InWindow word → location word = place) :
    Frame s ({ s with memory := update s.memory place pair }.put name next)
      fun _ => False := by
  have invalid : ¬ (update s.memory place pair place).isValid = true := by
    rw [update_self, cleared]
    exact Bool.false_ne_true
  refine ⟨le_rfl, fun _ => rfl, fun _ _ => rfl, fun _ _ => .inl, ?_, ?_, ?_⟩
  · intro other _
    by_cases same : other = place
    · subst same
      have isPair : update s.memory other pair other = pair := update_self ..
      exact ⟨(congrArg KVPair.key isPair).trans contents.1,
        (congrArg KVPair.value isPair).trans contents.2, fun valid => absurd valid invalid⟩
    · have isOld : update s.memory place pair other = s.memory other := update_of_ne same ..
      exact ⟨congrArg KVPair.key isOld, congrArg KVPair.value isOld,
        fun valid => congrArg KVPair.isValid isOld ▸ valid⟩
  · intro word _ opened valid
    apply InWindow.put opened known rfl rfl
    intro own
    rw [window word own] at valid
    exact absurd valid invalid
  · exact fun later => absurd later (lt_irrefl _)

theorem Inv.writeInvalid (inv : Inv setting s) (known : s.requests name = some ctx)
    (flight : ctx.InFlight) {cas : KVReqCtx k} (found : ctx.cas = some cas) :
    Inv setting ({ s with
      memory := update s.memory (location cas.origValue)
        ({ s.memory (location cas.origValue) with isValid := false }) }.put name
      { ctx with invalidated := true }) := by
  have ok := inv.requestsOk name ctx known flight
  obtain ⟨_, casOk⟩ := ok.casOk cas found
  have frame := @frame_writeInvalid k s name ctx { ctx with invalidated := true } known
    (location cas.origValue) { s.memory (location cas.origValue) with isValid := false } rfl
    ⟨rfl, rfl⟩ (by
      rintro _ ⟨-, -, other, isOther, -, rfl⟩
      rw [some.inj (found.symm.trans isOther)])
  refine inv.put_memory known flight frame (fun _ impossible => impossible.elim) casOk.request rfl
    rfl id (fun _ => id) ?_
  have framed := ok.frame frame (inv.named name ctx known).2.le
    (fun _ _ impossible => impossible) (fun _ _ _ impossible => impossible)
  refine ⟨framed.cached, framed.localCache, framed.unread, framed.snapshot, framed.buffered,
    framed.written, fun unfilled => ?_, ?_⟩
  · rw [found] at unfilled
    cases unfilled
  · intro other isOther
    obtain rfl := some.inj (found.symm.trans isOther)
    obtain ⟨same, framedOk⟩ := framed.casOk cas found
    have isPair : update s.memory (location cas.origValue)
        ({ s.memory (location cas.origValue) with isValid := false })
          (location cas.origValue) =
        { s.memory (location cas.origValue) with isValid := false } := update_self ..
    exact ⟨same, framedOk.request, framedOk.kvWritten, framedOk.held, framedOk.swapValue,
      fun _ => congrArg KVPair.isValid isPair, framedOk.swapped, framedOk.installed⟩

section Swap

variable {cas entry : KVReqCtx k} {slot : SlotSystem k}

def swapped (s : System k) (name : ℕ) (ctx : ReqCtx k) (write : Write) (slot : SlotSystem k)
    (entry : KVReqCtx k) : System k :=
  { s.replace write.newValue with slot := slot }.put name
    { ctx with cas := some entry, casDone := true }

theorem swapValue_eq_ownSlot (fp : UInt8) (filled : write.swapValue fp ≠ 0) :
    write.kind = .update ∧ write.swapValue fp = write.ownSlot fp := by
  unfold Write.swapValue at filled ⊢
  cases kind : write.kind with
  | update => exact ⟨rfl, rfl⟩
  | delete =>
    rw [kind] at filled
    exact absurd rfl filled

/-- The version that was present is replaced now, and the write is in its window
if it has not cleared the valid byte before. -/
theorem frame_swapped (inv : Inv setting s) (known : s.requests name = some ctx)
    (flight : ctx.InFlight) (unswapped : ctx.Unswapped) (same : cas.SameRequest entry)
    (swaps : Swaps s.slot cas slot entry)
    (invalid : ctx.invalidated → (s.memory (location cas.origValue)).isValid = false) :
    Frame s (swapped s name ctx write slot entry) fun _ => False := by
  have version : (swapped s name ctx write slot entry).slot.version = s.slot.version + 1 :=
    swaps.version
  refine ⟨?_, ?_, ?_, ?_, fun _ _ => ⟨rfl, rfl, id⟩, ?_, ?_⟩
  · omega
  · omega
  · intro earlier le
    exact update_of_ne (by omega) ..
  · intro earlier time replaced
    by_cases last : earlier = s.slot.version
    · subst last
      have now : (swapped s name ctx write slot entry).replacedAt s.slot.version =
          some s.clock := update_self ..
      exact .inr (some.inj (now.symm.trans replaced)).le
    · have old : (swapped s name ctx write slot entry).replacedAt earlier =
          s.replacedAt earlier := update_of_ne last ..
      exact .inl (old.symm.trans replaced)
  · intro word _ opened _
    apply InWindow.put opened known rfl rfl
    rintro ⟨-, -, old, isOld, wasSwapped, -⟩
    rw [unswapped old isOld] at wasSwapped
    cases wasSwapped
  · intro _ valid
    refine ⟨name, (inv.named name ctx known).1.trans (Nat.lt_succ_self _), _,
      update_self .., flight, ?_, entry, rfl, swaps.prSwapped, ?_⟩
    · -- a pair that was invalidated before the swap is not valid now
      by_contra invalidated
      have cleared := invalid (Bool.not_eq_false _ ▸ invalidated)
      rw [← swaps.expected] at cleared
      exact absurd (cleared.symm.trans valid) Bool.false_ne_true
    · rw [same.origValue, swaps.expected]

theorem heldAs_swapped (ok : CtxOk setting s ctx) (casOk : CasOk setting s ctx write cas)
    (unswapped : ctx.Unswapped) (swaps : Swaps s.slot cas slot entry) (filled : slot.primary ≠ 0) :
    write.kind = .update ∧ slot.primary = write.ownSlot setting.fp ∧
      HeldAs setting (swapped s name ctx write slot entry) slot.version slot.primary := by
  have isSwap : slot.primary = write.swapValue setting.fp := swaps.primary.trans casOk.swapValue
  obtain ⟨update, own⟩ := swapValue_eq_ownSlot setting.fp (isSwap ▸ filled)
  have installed := isSwap.trans own
  obtain ⟨keyed, value⟩ := ok.written write casOk.request casOk.kvWritten unswapped
  refine ⟨update, installed, le_rfl, fun _ => rfl, ?_, ?_, fun later => absurd later (lt_irrefl _)⟩
  · rw [installed]
    exact keyed
  · have latest : (swapped s name ctx write slot entry).valueOf slot.version =
        write.newValue := by
      rw [swaps.version]
      exact update_self ..
    have newValue : write.newValue = some write.value := by
      unfold Write.newValue
      rw [update]
    rw [latest, newValue, installed]
    exact congrArg some value.symm

theorem Inv.act_swaps (inv : Inv setting s) (known : s.requests name = some ctx)
    (flight : ctx.InFlight) (req : ctx.request = .write write) (found : ctx.cas = some cas)
    (same : cas.SameRequest entry) (swaps : Swaps s.slot cas slot entry) :
    Inv setting (swapped s name ctx write slot entry) := by
  have ok := inv.requestsOk name ctx known flight
  obtain ⟨other, casOk⟩ := ok.casOk cas found
  obtain rfl : write = other := Request.write.inj (req.symm.trans casOk.request)
  have unswapped : ctx.Unswapped := by
    intro other isOther
    obtain rfl := some.inj (found.symm.trans isOther)
    by_contra wasSwapped
    exact swaps.running (casOk.swapped (Bool.not_eq_false _ ▸ wasSwapped)).1
  have frame := @frame_swapped k setting s name ctx write cas entry slot inv known flight
    unswapped same swaps casOk.invalid
  have held := @heldAs_swapped k setting s name ctx write cas entry slot ok casOk unswapped swaps
  have notUnswapped : ¬ ReqCtx.Unswapped { ctx with cas := some entry, casDone := true } := by
    intro fresh
    exact absurd ((fresh entry rfl).symm.trans swaps.prSwapped) Bool.false_ne_true
  obtain ⟨early, started⟩ := inv.named name ctx known
  apply inv.put rfl rfl frame
  · exact fun _ impossible => impossible.elim
  · intro version later
    have isLast : (swapped s name ctx write slot entry).slot.version = s.slot.version + 1 :=
      swaps.version
    have old : (swapped s name ctx write slot entry).replacedAt version =
        s.replacedAt version := update_of_ne (by omega) ..
    rw [old]
    exact inv.unreplaced version (by omega)
  · exact fun filled => (held filled).2.2
  · intro pointer cached isEntry
    exact ⟨(inv.pointers pointer cached isEntry).trans (Nat.lt_succ_self _),
      frame.held (Nat.zero_le _) (fun impossible => impossible) (inv.cached pointer cached isEntry)⟩
  · apply inv.exclusive.put known flight rfl
    · exact fun place isPending => absurd isPending.2.2 notUnswapped
    · rintro place (null | isPrimary | inOthers | ⟨_, -, cached, isEntry, rfl⟩)
      · exact .inl (.inl null)
      · have isSlot : location slot.primary = place := isPrimary
        by_cases empty : slot.primary = 0
        · rw [empty] at isSlot
          exact .inl (.inl isSlot)
        · rw [(held empty).2.1] at isSlot
          rw [← isSlot]
          exact .inr (.inr ⟨owns_ownSlot req, fun isPending => notUnswapped isPending.2.2⟩)
      · exact .inl (.inr (.inr (.inl inOthers)))
      · exact .inl (shared_of_entry inv isEntry)
    · rintro place (cached | read | ⟨_, ⟨⟩, rfl⟩)
      · exact .inr (.inl cached)
      · exact .inr (.inr (.inl read))
      · rw [same.origValue]
        exact .inr (.inr (.inr ⟨cas, found, rfl⟩))
    · exact fun place => id
  · exact ⟨early.trans (Nat.lt_succ_self _), started.trans (Nat.lt_succ_self _)⟩
  · intro _
    have framed := ok.frame frame started.le
      (fun _ _ impossible => impossible) (fun _ _ _ impossible => impossible)
    obtain ⟨_, framedOk⟩ := framed.casOk cas found
    refine ⟨framed.cached, framed.localCache, framed.unread, framed.snapshot, framed.buffered,
      fun _ _ _ fresh => absurd fresh notUnswapped, by rintro ⟨⟩, ?_⟩
    rintro _ ⟨⟩
    refine ⟨write, req, casOk.kvWritten, ?_, same.swapValue.trans casOk.swapValue, ?_,
      fun _ => ⟨swaps.phase, rfl⟩, ?_⟩
    · rw [same.origValue]
      exact framedOk.held
    · rw [same.origValue]
      exact framedOk.invalid
    · intro _ update
      have own : slot.primary = write.ownSlot setting.fp := by
        refine swaps.primary.trans (casOk.swapValue.trans ?_)
        unfold Write.swapValue
        rw [update]
      have filled : slot.primary ≠ 0 := by
        rw [own]
        exact ne_zero_of_isCandidate (isCandidate_fillSlot _ _)
      rw [← own]
      exact ⟨_, (held filled).2.2, not_replacedBefore_zero _ _⟩
  · intro search
    have isSearch : ctx.request = .search := search
    rw [req] at isSearch
    cases isSearch

end Swap

section Invoke

variable {client : ℕ} {req : Request}

theorem frame_invoke (s : System k) (client : ℕ) (req : Request) :
    Frame s (s.invoke setting client req) fun _ => False := by
  refine ⟨le_rfl, fun _ => rfl, fun _ _ => rfl, fun _ _ => .inl, fun _ _ => ⟨rfl, rfl, id⟩, ?_, ?_⟩
  · rintro _ - ⟨other, early, found, knownOther, opened⟩ -
    refine ⟨other, early.trans (Nat.lt_succ_self _), found, ?_, opened⟩
    exact (update_of_ne (Nat.ne_of_lt early) ..).trans knownOther
  · exact fun later => absurd later (lt_irrefl _)

theorem shared_of_start (inv : Inv setting s) {place : Location}
    (refers : (ReqCtx.start client req s.clock
      (s.caches.checkCache client setting.missRateExceeds).2 : ReqCtx k).RefersTo place) :
    s.Shared setting place := by
  rcases refers with ⟨cached, found, rfl⟩ | ⟨buckets, read, -⟩ | ⟨cas, swapping, -⟩
  · obtain ⟨_, isEntry, sameSlot⟩ := (checkCache_spec _ _ _).2 cached found
    rw [← sameSlot]
    exact shared_of_entry inv isEntry
  · cases read
  · cases swapping

theorem shared_of_invoke (inv : Inv setting s) {place : Location}
    (shared : (s.invoke setting client req).Shared setting place) : s.Shared setting place :=
  shared_of_entries inv shared rfl (checkCache_spec _ _ _).1

theorem Exclusive.invoke (inv : Inv setting s)
    (notReused : ∀ write, req = .write write →
      ¬ s.Referenced setting (location (write.ownSlot setting.fp))) :
    Exclusive setting (s.invoke setting client req) := by
  have unreferenced : ∀ place, (ReqCtx.start client req s.clock
      (s.caches.checkCache client setting.missRateExceeds).2 : ReqCtx k).Owns setting place →
      ¬ s.Referenced setting place := by
    intro place owned
    unfold ReqCtx.Owns ReqCtx.start at owned
    cases req with
    | search => exact owned.elim
    | write write => exact owned ▸ notReused write rfl
  intro name ctx place known isPending
  rcases update_eq_some known with ⟨rfl, rfl⟩ | ⟨isOld, knownBefore⟩
  · -- the memory of the new request
    have fresh := unreferenced place isPending.2.1
    refine ⟨fun shared => fresh (.inl (shared_of_invoke inv shared)), ?_⟩
    intro other found knownOther flight
    rcases update_eq_some knownOther with ⟨rfl, rfl⟩ | ⟨-, knownBefore⟩
    · exact ⟨fun refers => fresh (.inl (shared_of_start inv refers)), fun differs => absurd rfl differs⟩
    · have early := (inv.named other found knownBefore).1
      exact ⟨fun refers => fresh (.inr ⟨other, early, found, knownBefore, flight, .inl refers⟩),
        fun _ owned => fresh (.inr ⟨other, early, found, knownBefore, flight, .inr owned⟩)⟩
  · obtain ⟨unshared, apart⟩ := inv.exclusive name ctx place knownBefore isPending
    refine ⟨fun shared => unshared (shared_of_invoke inv shared), ?_⟩
    intro other found knownOther flight
    rcases update_eq_some knownOther with ⟨rfl, rfl⟩ | ⟨-, otherBefore⟩
    · refine ⟨fun refers => unshared (shared_of_start inv refers), fun _ owned => ?_⟩
      exact unreferenced place owned (.inr ⟨name, (inv.named name ctx knownBefore).1, ctx,
        knownBefore, isPending.1, .inr isPending.2.1⟩)
    · exact apart other found otherBefore flight

theorem Inv.invoke (inv : Inv setting s)
    (notReused : ∀ write, req = .write write →
      ¬ s.Referenced setting (location (write.ownSlot setting.fp))) :
    Inv setting (s.invoke setting client req) := by
  have frame := @frame_invoke k setting s client req
  apply inv.put rfl rfl frame
  · exact fun _ impossible => impossible.elim
  · exact inv.unreplaced
  · exact fun filled => frame.heldAs (fun impossible => impossible) (inv.current filled)
  · intro pointer entry found
    have isEntry := (checkCache_spec _ _ _).1 pointer entry found
    exact ⟨(inv.pointers pointer entry isEntry).trans (Nat.lt_succ_self _),
      frame.held (Nat.zero_le _) (fun impossible => impossible) (inv.cached pointer entry isEntry)⟩
  · exact Exclusive.invoke inv notReused
  · exact ⟨Nat.lt_succ_self _, Nat.lt_succ_self _⟩
  · intro _
    refine ⟨?_, ?_, fun _ _ => rfl, ?_, ?_, ?_, fun _ => rfl, ?_⟩
    · intro cached found
      obtain ⟨entry, isEntry, sameSlot⟩ := (checkCache_spec _ _ _).2 cached found
      rw [← sameSlot]
      exact frame.held (Nat.zero_le _) (fun impossible => impossible) (inv.cached cached.1 entry isEntry)
    · rintro _ _ ⟨⟩
    · rintro _ ⟨⟩
    · rintro _ _ _ ⟨⟩
    · rintro _ _ ⟨⟩
    · rintro _ ⟨⟩
  · rintro _ _ _ ⟨⟩

end Invoke

/-! ## Runs -/

theorem Inv.step (inv : Inv setting s) {event : Event k} {after : System k}
    (permitted : Permitted setting s event) (taken : step setting s event = some after) :
    Inv setting after := by
  cases event with
  | invoke client req =>
    obtain rfl := some.inj taken
    apply inv.invoke
    rintro write rfl
    exact permitted.1
  | readCache name =>
    obtain ⟨ctx, known, taken⟩ := bind_eq_some_iff.mp taken
    obtain ⟨cached, found, taken⟩ := bind_eq_some_iff.mp taken
    split_ifs at taken with ready
    obtain rfl := some.inj taken
    exact inv.readCache known ready.1 found fun search =>
      permitted.2 ctx known search cached found
  | readBuckets name =>
    obtain ⟨ctx, known, taken⟩ := bind_eq_some_iff.mp taken
    split_ifs at taken with ready
    obtain rfl := some.inj taken
    exact inv.readBuckets known ready.1 (isNone_iff_eq_none.mp ready.2)
  | writeKv name =>
    obtain ⟨ctx, known, taken⟩ := bind_eq_some_iff.mp taken
    split at taken
    · cases taken
    · rename_i write req
      split_ifs at taken with ready
      obtain rfl := some.inj taken
      exact inv.writeKv known ready.1 req ready.2
  | readKv name position =>
    obtain ⟨ctx, known, taken⟩ := bind_eq_some_iff.mp taken
    obtain ⟨_, read, taken⟩ := bind_eq_some_iff.mp taken
    split_ifs at taken with ready
    obtain rfl := some.inj taken
    exact inv.readKv known ready.1 read position
  | fillCasAddr name =>
    obtain ⟨ctx, known, taken⟩ := bind_eq_some_iff.mp taken
    obtain ⟨_, found, taken⟩ := bind_eq_some_iff.mp taken
    split at taken
    · cases taken
    · rename_i write req
      split_ifs at taken with ready hit
      · obtain rfl := some.inj taken
        exact inv.fillCasAddr known ready.1 req (isNone_iff_eq_none.mp ready.2) found
          (fun fresh => within_countHit _ _) _
      · obtain rfl := some.inj taken
        exact inv.fillCasAddr known ready.1 req (isNone_iff_eq_none.mp ready.2) found
          (fun fresh => within_refl _) _
  | act name action =>
    obtain ⟨ctx, known, taken⟩ := bind_eq_some_iff.mp taken
    obtain ⟨cas, found, taken⟩ := bind_eq_some_iff.mp taken
    obtain ⟨⟨_, _⟩, acted, taken⟩ := bind_eq_some_iff.mp taken
    obtain ⟨same, effect⟩ := actAlone_spec acted
    dsimp only at taken
    split at taken
    · cases taken
    · rename_i write req
      rcases effect with ⟨isCas, swaps⟩ | ⟨notSwapped, stays⟩
      · rw [if_pos (And.intro isCas swaps.expected), isCas, Bool.or_true] at taken
        split_ifs at taken with flight
        obtain rfl := some.inj taken
        exact inv.act_swaps known flight req found same swaps
      · rw [if_neg notSwapped] at taken
        split_ifs at taken with flight
        obtain rfl := some.inj taken
        exact inv.act_stays known flight found same stays _
  | writeInvalid name =>
    obtain ⟨ctx, known, taken⟩ := bind_eq_some_iff.mp taken
    obtain ⟨_, found, taken⟩ := bind_eq_some_iff.mp taken
    split_ifs at taken with ready
    obtain rfl := some.inj taken
    exact inv.writeInvalid known ready.1 found
  | respond name =>
    obtain ⟨_, known, taken⟩ := bind_eq_some_iff.mp taken
    obtain ⟨_, returns, taken⟩ := bind_eq_some_iff.mp taken
    split_ifs at taken with flight
    obtain rfl := some.inj taken
    exact inv.respond known flight returns

theorem Inv.of_reachable
    (reached : Reachable (Cached.step setting) (Permitted setting) (IsInitial setting) s) :
    Inv setting s := by
  apply reached.invariant
  · exact fun _ => Inv.of_isInitial
  · exact fun _ _ _ inv permitted taken => inv.step permitted taken

/-- In every run in which memory is not reused while something refers to it, and
no search reads a cached pair in the window of a write that has replaced it, reads
go forward. -/
theorem readsForward_of_permitted
    (reached : Reachable (Cached.step setting) (Permitted setting) (IsInitial setting) s) :
    ReadsForward s := by
  have inv := Inv.of_reachable reached
  intro first earlier second later time _ known _ search started returned value result
  obtain ⟨version, le, isValue, unreplaced⟩ :=
    inv.returned second later known search returned value result
  refine ⟨version, le, isValue, ?_⟩
  rintro ⟨replaced, isReplaced, before⟩
  exact unreplaced ⟨replaced, isReplaced, before.trans started⟩

/-! ## An update between two searches of a client -/

def oneKeySetting : Setting where
  key := [1]
  fp := 7
  position := (0, 0)
  others := fun _ => 0
  missRateExceeds := fun _ _ => false

def uncached : System 1 where
  slot := .initial 1 (fillSlot (sampleAlloc 1) 7)
  memory := fun _ => ⟨true, [1], [10]⟩
  caches := ⟨fun _ => none, fun _ => none⟩
  requests := fun _ => none
  clock := 0
  valueOf := fun _ => some [10]
  replacedAt := fun _ => none

theorem isInitial_uncached : IsInitial oneKeySetting uncached where
  agreed := rfl
  candidate := by decide
  keyed := rfl
  value := rfl
  unreplaced := fun _ => rfl
  others := fun _ _ candidate => (ne_zero_of_isCandidate candidate rfl).elim
  cached := by rintro _ _ ⟨⟩
  idle := fun _ => rfl

def searchThenSwap : List (Event 1) :=
  [.invoke 0 .search, .readBuckets 0, .readKv 0 (0, 0), .respond 0,
    .invoke 1 (.write ⟨.update, [20], sampleAlloc 2⟩), .readBuckets 4, .writeKv 4,
    .readKv 4 (0, 0), .fillCasAddr 4, .act 4 (.casBackup0 0), .act 4 .checkConsensus,
    .act 4 .commitLog, .act 4 .casPrimary]

def results (s : System k) (names : List ℕ) : List (Option (ℕ × RetVal)) :=
  names.map fun name => (s.requests name).bind ReqCtx.returned

/-- The update returns, and client 0 finds that its cached pair is invalid. -/
theorem readsForward_of_permitted_invalidated :
    ∃ s : System 1,
      Reachable (Cached.step oneKeySetting) (Permitted oneKeySetting) (IsInitial oneKeySetting)
        s ∧
      results s [0, 4, 15] = [some (3, .value (some [10])), some (14, .retCode .success),
        some (19, .value (some [20]))] ∧
      ReadsForward s := by
  obtain ⟨s, reached, returned⟩ := Reachable.exists_of_run (Cached.step oneKeySetting)
    (Permitted oneKeySetting)
    (searchThenSwap ++ [.writeInvalid 4, .respond 4, .invoke 0 .search, .readCache 15,
      .readBuckets 15, .readKv 15 (0, 0), .respond 15])
    (fun s : System 1 => results s [0, 4, 15] = [some (3, .value (some [10])),
      some (14, .retCode .success), some (19, .value (some [20]))])
    isInitial_uncached (by decide +kernel)
  exact ⟨s, reached, returned, readsForward_of_permitted reached⟩

/-- Before the old pair is invalid, client 2 finds the new value in the index, and
then client 0 finds the old one by its cache. -/
theorem not_readsForward_inWindow :
    ∃ s : System 1,
      Reachable (Cached.step oneKeySetting) (NotReused oneKeySetting) (IsInitial oneKeySetting)
        s ∧
      results s [13, 17] = [some (16, .value (some [20])), some (20, .value (some [10]))] ∧
      ¬ ReadsForward s := by
  obtain ⟨s, reached, returned, searches, version, values, replaced⟩ :=
    Reachable.exists_of_run (Cached.step oneKeySetting) (NotReused oneKeySetting)
    (searchThenSwap ++ [.invoke 2 .search, .readBuckets 13, .readKv 13 (0, 0), .respond 13,
      .invoke 0 .search, .readCache 17, .readBuckets 17, .respond 17])
    (fun s : System 1 =>
      results s [13, 17] = [some (16, .value (some [20])), some (20, .value (some [10]))] ∧
      (s.requests 17).map (fun ctx => (ctx.request, ctx.invoked)) = some (.search, 17) ∧
      s.slot.version = 1 ∧ s.valueOf 1 = some [20] ∧ s.replacedAt 0 = some 12)
    isInitial_uncached (by decide +kernel)
  refine ⟨s, reached, returned, fun forward => ?_⟩
  simp only [results, map_cons, map_nil, List.cons.injEq, and_true] at returned
  obtain ⟨earlier, knownEarlier, found⟩ := bind_eq_some_iff.mp returned.1
  obtain ⟨later, knownLater, stale⟩ := bind_eq_some_iff.mp returned.2
  rw [knownLater, map_some, Option.some.injEq, Prod.mk.injEq] at searches
  obtain ⟨number, le, value, unreplaced⟩ := forward 13 earlier 17 later 16 knownEarlier knownLater
    (.inl ⟨_, found⟩) searches.1 (by rw [searches.2]; decide) 20 [10] stale
  rw [version] at le
  have first : number = 0 := by
    rcases Nat.le_one_iff_eq_zero_or_eq_one.mp le with first | rfl
    · exact first
    · rw [values] at value
      cases value
  subst first
  exact unreplaced ⟨12, replaced, by decide⟩

end FuseeFs.KeyValue.Cached
