import FuseeFs.Memory.ClientMM

/-!
# The chain of log entries

The entries that the index refers to are found by following the chain, as long
as subblocks are given back in the reverse order of their allocation and no
entry is installed while an earlier one has not been written.  Nothing in the
source makes the coroutines of a client keep to this order.
-/

namespace FuseeFs.Memory.ChainSystem

open List Option Function Library

variable {layout : Layout} {s after : ChainSystem layout}

def ChainComplete (s : ChainSystem layout) : Prop :=
  ∀ subblock ∈ s.referenced, ∃ head ∈ s.logHead, Visited s.memory head subblock

/-- Tails are transferred with their entries, an entry is installed when those
before it have been written, and the last allocation is given back first. -/
def InOrder (s : ChainSystem layout) : ChainEvent layout → Prop
  | .writeKv coro => ∀ req ∈ s.requests coro,
      TailTransferred layout.subblockSz req.reqType req.variant
        (UInt16.ofNat (keyLength req.kvInfo.lAddr))
        (UInt32.ofNat (valueLength req.kvInfo.lAddr))
  | .install coro => ∀ req ∈ s.requests coro,
      ∀ earlier ∈ s.log.takeWhile (·.current ≠ req.mmAllocCtx.current), s.isWritten earlier.current
  | .mmFreeCur coro => ∀ req ∈ s.requests coro, req.mmAllocCtx.current = s.mm.lastAllocatedInfo
  | _ => True

def Ordered (s : ChainSystem layout) (event : ChainEvent layout) : Prop :=
  s.FreshBlocks event ∧ s.InOrder event

instance (s : ChainSystem layout) : (event : ChainEvent layout) →
    Decidable (s.InOrder event)
  | .writeKv coro => inferInstanceAs (Decidable (∀ req ∈ s.requests coro,
      TailTransferred layout.subblockSz req.reqType req.variant
        (UInt16.ofNat (keyLength req.kvInfo.lAddr))
        (UInt32.ofNat (valueLength req.kvInfo.lAddr))))
  | .install coro => inferInstanceAs (Decidable (∀ req ∈ s.requests coro,
      ∀ earlier ∈ s.log.takeWhile (·.current ≠ req.mmAllocCtx.current),
        s.isWritten earlier.current))
  | .mmFreeCur coro => inferInstanceAs (Decidable (∀ req ∈ s.requests coro,
      req.mmAllocCtx.current = s.mm.lastAllocatedInfo))
  | .mmAlloc _ _ _ _ _ | .finish _ | .unreference _ | .mmAllocSubtable _ =>
    inferInstanceAs (Decidable True)

instance (s : ChainSystem layout) (event : ChainEvent layout) :
    Decidable (s.Ordered event) :=
  inferInstanceAs (Decidable (_ ∧ _))

/-! ## The invariant -/

def sequence (s : ChainSystem layout) : List SubblockInfo :=
  s.log.map LogAllocCtx.current ++ s.mm.subblockFreeQueue

/-- Every entry of the log points to the one allocated after it. -/
structure Chained (s : ChainSystem layout) : Prop where
  nodup : s.sequence.Nodup
  links : s.log.IsChain fun entry next => entry.next = next.current
  prevs : s.log.IsChain fun entry next => next.prev = entry.current
  front : ∀ entry ∈ s.log.getLast?, ∀ subblock ∈ s.mm.subblockFreeQueue.head?, entry.next = subblock
  last : ∀ entry ∈ s.log.getLast?, s.mm.lastAllocatedInfo = entry.current
  head : ∀ subblock ∈ s.sequence.head?, s.logHead = some subblock
  owned : ∀ subblock ∈ s.sequence, ∃ block ∈ s.mm.table.mmBlocks, subblock ∈ block.dataSubblocks
  nonzero : ∀ entry ∈ s.log, entry.next.addr ≠ 0
  tails : ∀ entry ∈ s.log, s.isWritten entry.current →
    nextSubblock s.memory entry.current = some entry.next
  requests : ∀ coro req, s.requests coro = some req →
    req.mmAllocCtx ∈ s.log ∧ s.isWritten req.mmAllocCtx.current = req.written
  distinct : ∀ coro req other otherRequest, s.requests coro = some req →
    s.requests other = some otherRequest →
    req.mmAllocCtx.current = otherRequest.mmAllocCtx.current → coro = other
  notInstalled : ∀ coro req, s.requests coro = some req →
    req.installed = false → req.mmAllocCtx.current ∉ s.referenced
  installed : ∀ subblock ∈ s.referenced, ∃ before entry later,
    s.log = before ++ entry :: later ∧ entry.current = subblock ∧
      ∀ earlier ∈ before, s.isWritten earlier.current

section Traversal

variable {memory other : Subblocks}

theorem nextSubblock_congr {subblock : SubblockInfo} (same : memory subblock = other subblock) :
    nextSubblock memory subblock = nextSubblock other subblock := by
  unfold nextSubblock
  simp only [same]

theorem visited_of_links {before : List LogAllocCtx} {entry first : LogAllocCtx}
    (links : (before ++ [entry]).IsChain fun entry next => entry.next = next.current)
    (written : ∀ earlier ∈ before, nextSubblock memory earlier.current = some earlier.next)
    (head : (before ++ [entry]).head? = some first) :
    Visited memory first.current entry.current := by
  induction before generalizing first with
  | nil =>
    obtain rfl := some.inj head
    exact .refl
  | cons earlier before ih =>
    obtain rfl := some.inj head
    rw [cons_append, isChain_cons] at links
    obtain ⟨next, second⟩ : ∃ next, (before ++ [entry]).head? = some next := by
      cases before with
      | nil => exact ⟨entry, rfl⟩
      | cons next before => exact ⟨next, rfl⟩
    have rest := ih links.2 (fun other mem => written other (mem_cons_of_mem _ mem)) second
    refine .head ?_ rest
    rw [written earlier mem_cons_self, links.1 next second]

theorem nextSubblock_write {req : ChainRequest}
    (transferred : TailTransferred layout.subblockSz req.reqType req.variant
      (UInt16.ofNat (keyLength req.kvInfo.lAddr))
      (UInt32.ofNat (valueLength req.kvInfo.lAddr)))
    (nonzero : req.mmAllocCtx.next.addr ≠ 0) (s : ChainSystem layout) (coro : ℕ) :
    nextSubblock (s.write coro req).memory req.mmAllocCtx.current = some req.mmAllocCtx.next := by
  have keyLen : keyLength req.kvInfo.lAddr < 2 ^ 16 := Bytes.ofBytes_load_lt
  have valueLen : valueLength req.kvInfo.lAddr < 2 ^ 32 := Bytes.ofBytes_load_lt
  have readBack := writtenWhereRead_of_tailTransferred transferred req.kvInfo
    req.mmAllocCtx (s.memory req.mmAllocCtx.current)
    (UInt16.toNat_ofNat_of_lt' keyLen).symm (UInt32.toNat_ofNat_of_lt' valueLen).symm
  have tail : traverseEntry ((s.write coro req).memory req.mmAllocCtx.current) =
      tailInfo req.reqType req.mmAllocCtx := by
    rw [memory_write_self]
    exact readBack.1
  exact nextSubblock_eq_some tail nonzero

end Traversal

namespace Chained

variable (chained : s.Chained)
include chained

theorem entry_eq {entry other : LogAllocCtx} (mem : entry ∈ s.log)
    (otherListed : other ∈ s.log) (same : entry.current = other.current) : entry = other :=
  inj_on_of_nodup_map (nodup_append'.mp chained.nodup).1 mem otherListed same

theorem chainComplete : s.ChainComplete := by
  intro subblock referenced
  obtain ⟨before, entry, later, log, rfl, written⟩ := chained.installed subblock referenced
  have split : s.log = (before ++ [entry]) ++ later := by
    rw [log, append_assoc, singleton_append]
  have links := chained.links
  rw [split] at links
  obtain ⟨first, front⟩ : ∃ first, (before ++ [entry]).head? = some first := by
    cases before with
    | nil => exact ⟨entry, rfl⟩
    | cons first before => exact ⟨first, rfl⟩
  have head : s.sequence.head? = some first.current := by
    obtain ⟨_, shape⟩ := head?_eq_some_iff.mp front
    rw [sequence, split, shape]
    rfl
  refine ⟨first.current, chained.head _ head, ?_⟩
  refine visited_of_links (isChain_append.mp links).1 ?_ front
  intro earlier mem
  refine chained.tails earlier ?_ (written earlier mem)
  rw [log]
  exact mem_append_left _ mem

/-! ## The steps -/

variable {req : ChainRequest} {coro : ℕ}

theorem distinct_update {new : ChainRequest} (active : s.requests coro = some req)
    (same : new.mmAllocCtx = req.mmAllocCtx) :
    ∀ left leftRequest right rightRequest,
      update s.requests coro (some new) left = some leftRequest →
      update s.requests coro (some new) right = some rightRequest →
      leftRequest.mmAllocCtx.current = rightRequest.mmAllocCtx.current → left = right := by
  have old : ∀ other otherRequest,
      update s.requests coro (some new) other = some otherRequest →
      ∃ before, s.requests other = some before ∧ before.mmAllocCtx = otherRequest.mmAllocCtx := by
    intro other otherRequest otherActive
    obtain ⟨rfl, rfl⟩ | ⟨-, otherActive⟩ := update_eq_some otherActive
    · exact ⟨req, active, same.symm⟩
    · exact ⟨otherRequest, otherActive, rfl⟩
  intro left leftRequest right rightRequest leftActive rightActive equal
  obtain ⟨oldLeft, leftBefore, leftCtx⟩ := old left leftRequest leftActive
  obtain ⟨oldRight, rightBefore, rightCtx⟩ := old right rightRequest rightActive
  rw [← leftCtx, ← rightCtx] at equal
  exact chained.distinct left oldLeft right oldRight leftBefore rightBefore equal

theorem begin {area : MetaArea (ClientMMBlock layout)} {mm : ClientMM layout} {ctx : LogAllocCtx}
    {rest more : List SubblockInfo} (queue : s.mm.subblockFreeQueue = ctx.current :: rest)
    (prev : ctx.prev = s.mm.lastAllocatedInfo) (grown : mm.subblockFreeQueue = rest ++ more)
    (front : mm.subblockFreeQueue.head? = some ctx.next) (last : mm.lastAllocatedInfo = ctx.current)
    (blocks : ∃ added, mm.table.mmBlocks = s.mm.table.mmBlocks ++ added)
    (owned : ∀ subblock ∈ more, ∃ block ∈ mm.table.mmBlocks, subblock ∈ block.dataSubblocks)
    (nodup : (s.sequence ++ more).Nodup) {coro : ℕ} (idle : s.requests coro = none)
    (reqType : Replication.KVRequestType) (variant : Replication.Variant) (kvInfo : KVInfo) :
    Chained ({ s with area := area, mm := mm }.begin coro reqType variant kvInfo (some ctx)) := by
  obtain ⟨_, table⟩ := blocks
  have sequence_eq : (s.log ++ [ctx]).map LogAllocCtx.current ++ mm.subblockFreeQueue =
      s.sequence ++ more := by
    rw [sequence, queue, grown, map_append]
    simp
  have allOwned : ∀ subblock ∈ s.sequence ++ more, ∃ block ∈ mm.table.mmBlocks,
      subblock ∈ block.dataSubblocks := by
    intro subblock mem
    obtain old | new := mem_append.mp mem
    · obtain ⟨block, registered, inside⟩ := chained.owned subblock old
      exact ⟨block, table ▸ mem_append_left _ registered, inside⟩
    · exact owned subblock new
  have free : ctx.current ∉ s.log.map LogAllocCtx.current := fun mem =>
    (nodup_append'.mp chained.nodup).2.2 mem (queue ▸ mem_cons_self)
  have others : ∀ entry ∈ s.log, entry.current ≠ ctx.current := fun entry mem same =>
    free (same ▸ List.mem_map_of_mem mem)
  have front' : ∀ entry ∈ s.log.getLast?, entry.next = ctx.current := fun entry isLast =>
    chained.front entry isLast ctx.current (by rw [queue]; rfl)
  have unreferenced : ctx.current ∉ s.referenced := by
    intro referenced
    obtain ⟨before, entry, later, log, same, -⟩ := chained.installed ctx.current referenced
    exact others entry (log ▸ mem_append_right _ mem_cons_self) same
  refine ⟨?_, ?_, ?_, ?_, ?_, ?_, ?_, ?_, ?_, ?_, ?_, ?_, ?_⟩
  · rw [sequence]
    exact sequence_eq ▸ nodup
  · refine isChain_append.mpr ⟨chained.links, isChain_singleton _, ?_⟩
    intro entry isLast new isNew
    obtain rfl := some.inj isNew
    exact front' entry isLast
  · refine isChain_append.mpr ⟨chained.prevs, isChain_singleton _, ?_⟩
    intro entry isLast new isNew
    obtain rfl := some.inj isNew
    exact prev.trans (chained.last entry isLast)
  · intro entry isLast subblock isFirst
    obtain rfl := some.inj (getLast?_concat.symm.trans isLast)
    exact some.inj (front.symm.trans isFirst)
  · intro entry isLast
    obtain rfl := some.inj (getLast?_concat.symm.trans isLast)
    exact last
  · intro subblock isFirst
    have shape : s.sequence = (s.log.map LogAllocCtx.current ++ [ctx.current]) ++ rest := by
      rw [sequence, queue, append_assoc, singleton_append]
    have nonempty : s.sequence ≠ [] := by
      rw [shape]
      simp
    have isFirst' : s.sequence.head? = some subblock := by
      have first : (s.sequence ++ more).head? = some subblock := sequence_eq ▸ isFirst
      rwa [head?_append_of_ne_nil _ nonempty] at first
    have old := chained.head subblock isFirst'
    obtain ⟨block, firstBlock, inside⟩ := bind_eq_some_iff.mp old
    refine bind_eq_some_iff.mpr ⟨block, ?_, inside⟩
    obtain ⟨others, mmBlocks⟩ := head?_eq_some_iff.mp firstBlock
    change mm.table.mmBlocks.head? = some block
    rw [table, mmBlocks]
    rfl
  · exact fun subblock mem => allOwned subblock (sequence_eq ▸ mem)
  · intro entry mem
    obtain old | new := mem_append.mp mem
    · exact chained.nonzero entry old
    · obtain rfl := mem_singleton.mp new
      have inQueue : entry.next ∈ s.sequence ++ more := by
        rw [← sequence_eq]
        exact mem_append_right _ (mem_of_head? front)
      obtain ⟨_, -, inside⟩ := allOwned entry.next inQueue
      exact ClientMMBlock.addr_ne_zero inside
  · intro entry mem written
    obtain old | new := mem_append.mp mem
    · have apart := others entry old
      refine chained.tails entry old ?_
      simpa only [ChainSystem.begin, update_of_ne apart] using written
    · obtain rfl := mem_singleton.mp new
      simp [ChainSystem.begin] at written
  · intro other req active
    obtain ⟨rfl, rfl⟩ | ⟨-, active⟩ := update_eq_some active
    · exact ⟨mem_append_right _ (mem_singleton.mpr rfl), by simp [ChainSystem.begin]⟩
    · obtain ⟨mem, written⟩ := chained.requests other req active
      refine ⟨mem_append_left _ mem, ?_⟩
      simpa only [ChainSystem.begin, update_of_ne (others _ mem)] using written
  · intro left leftRequest right rightRequest leftActive rightActive same
    obtain ⟨leftNew, rfl⟩ | ⟨-, leftActive⟩ := update_eq_some leftActive <;>
      obtain ⟨rightNew, rfl⟩ | ⟨-, rightActive⟩ := update_eq_some rightActive
    · exact leftNew.trans rightNew.symm
    · exact absurd same.symm (others _ (chained.requests right rightRequest rightActive).1)
    · exact absurd same (others _ (chained.requests left leftRequest leftActive).1)
    · exact chained.distinct left leftRequest right rightRequest leftActive rightActive same
  · intro other req active notInstalled
    obtain ⟨rfl, rfl⟩ | ⟨-, active⟩ := update_eq_some active
    · exact unreferenced
    · exact chained.notInstalled other req active notInstalled
  · intro subblock referenced
    obtain ⟨before, entry, later, log, same, written⟩ := chained.installed subblock referenced
    refine ⟨before, entry, later ++ [ctx], ?_, same, ?_⟩
    · simp only [ChainSystem.begin, log, append_assoc, cons_append]
    · intro earlier mem
      have apart := others earlier (log ▸ mem_append_left _ mem)
      simpa only [ChainSystem.begin, update_of_ne apart] using written earlier mem

theorem lost : Chained { s with mm := { s.mm with subblockFreeQueue := [] } } := by
  have shorter : (s.log.map LogAllocCtx.current ++ []).Sublist s.sequence :=
    (nil_sublist _).append_left _
  refine { chained with nodup := ?_, front := ?_, head := ?_, owned := ?_ }
  · exact chained.nodup.sublist shorter
  · rintro _ - _ ⟨⟩
  · intro first isFirst
    refine chained.head first ?_
    rw [sequence, append_nil] at isFirst
    obtain ⟨_, log⟩ := head?_eq_some_iff.mp isFirst
    rw [sequence, log]
    rfl
  · exact fun other mem => chained.owned other (shorter.subset mem)

theorem mmAlloc {reqType : Replication.KVRequestType} {variant : Replication.Variant}
    {kvInfo : KVInfo} {reply : Option (ClientMMBlock layout)}
    (fresh : s.FreshBlocks (.mmAlloc coro reqType variant kvInfo reply))
    (taken : s.step (.mmAlloc coro reqType variant kvInfo reply) = some after) : after.Chained := by
  obtain ⟨idle, _, _, _, allocated, rfl⟩ := step_mmAlloc taken
  obtain ⟨-, ⟨_, queue, rfl, rfl, rfl⟩ | ⟨current, next, rest, queue, rfl, rfl, rfl⟩ |
    ⟨_, block, _, _, queue, rfl, subblocks, rfl, rfl, rfl⟩⟩ :=
      ClientMM.mmAlloc_cases allocated
  · exact chained.lost
  · refine chained.begin queue rfl (by rw [append_nil]) rfl rfl ⟨[], ?_⟩ ?_ ?_ idle
      reqType variant kvInfo
    · rw [append_nil]
    · simp
    · rw [append_nil]
      exact chained.nodup
  · refine chained.begin queue rfl rfl rfl rfl ⟨[block], rfl⟩ ?_ ?_ idle reqType variant kvInfo
    · intro subblock mem
      refine ⟨block, mem_append_right _ (mem_singleton.mpr rfl), ?_⟩
      rwa [subblocks]
    · rw [← subblocks]
      refine nodup_append'.mpr ⟨chained.nodup, block.nodup_dataSubblocks, ?_⟩
      intro subblock mem again
      obtain ⟨old, registered, inside⟩ := chained.owned subblock mem
      exact (fresh block rfl).2 old registered again inside

theorem writeKv (transferred : s.InOrder (.writeKv coro))
    (taken : s.step (.writeKv coro) = some after) : after.Chained := by
  obtain ⟨req, active, -, rfl⟩ := step_writeKv taken
  obtain ⟨mem, -⟩ := chained.requests coro req active
  have written := nextSubblock_write (transferred req active) (chained.nonzero _ mem) s coro
  have monotone : ∀ subblock, s.isWritten subblock →
      (s.write coro req).isWritten subblock := by
    intro subblock before
    rw [isWritten_write]
    by_cases same : subblock = req.mmAllocCtx.current
    · rw [same, update_self]
    · rw [update_of_ne same]
      exact before
  refine { chained with
    tails := ?_, requests := ?_, distinct := ?_, notInstalled := ?_, installed := ?_ }
  · intro entry inLog isWritten
    by_cases same : entry.current = req.mmAllocCtx.current
    · rw [chained.entry_eq inLog mem same]
      exact written
    · rw [nextSubblock_congr (memory_write_of_ne s coro req same)]
      refine chained.tails entry inLog ?_
      rwa [isWritten_write, update_of_ne same] at isWritten
  · intro other otherRequest otherActive
    rw [isWritten_write]
    obtain ⟨rfl, rfl⟩ | ⟨apart, otherActive⟩ := update_eq_some otherActive
    · exact ⟨mem, update_self ..⟩
    · obtain ⟨inLog, flag⟩ := chained.requests other otherRequest otherActive
      refine ⟨inLog, ?_⟩
      rw [update_of_ne]
      · exact flag
      · exact fun same =>
          apart (chained.distinct other otherRequest coro req otherActive active same)
  · exact chained.distinct_update active rfl
  · intro other otherRequest otherActive notInstalled
    obtain ⟨rfl, rfl⟩ | ⟨-, otherActive⟩ := update_eq_some otherActive
    · exact chained.notInstalled other req active notInstalled
    · exact chained.notInstalled other otherRequest otherActive notInstalled
  · intro subblock referenced
    obtain ⟨before, entry, later, log, same, earlierWritten⟩ := chained.installed subblock referenced
    exact ⟨before, entry, later, log, same, fun earlier inBefore =>
      monotone _ (earlierWritten earlier inBefore)⟩

theorem install (ordered : s.InOrder (.install coro))
    (taken : s.step (.install coro) = some after) : after.Chained := by
  obtain ⟨req, active, -, -, rfl⟩ := step_install taken
  obtain ⟨mem, flag⟩ := chained.requests coro req active
  refine { chained with requests := ?_, distinct := ?_, notInstalled := ?_, installed := ?_ }
  · intro other otherRequest otherActive
    obtain ⟨rfl, rfl⟩ | ⟨-, otherActive⟩ := update_eq_some otherActive
    · exact ⟨mem, flag⟩
    · exact chained.requests other otherRequest otherActive
  · exact chained.distinct_update active rfl
  · intro other otherRequest otherActive notInstalled
    obtain ⟨rfl, rfl⟩ | ⟨apart, otherActive⟩ := update_eq_some otherActive
    · cases notInstalled
    · intro referenced
      obtain same | referenced := mem_cons.mp referenced
      · exact apart (chained.distinct other otherRequest coro req otherActive active same)
      · exact chained.notInstalled other otherRequest otherActive notInstalled referenced
  · intro subblock referenced
    obtain rfl | referenced := mem_cons.mp referenced
    · obtain ⟨before, later, log⟩ := append_of_mem mem
      refine ⟨before, req.mmAllocCtx, later, log, rfl, fun earlier inBefore => ?_⟩
      refine ordered req active earlier ?_
      -- the entries before are those with other subblocks
      have ne : ∀ entry ∈ before, entry.current ≠ req.mmAllocCtx.current := by
        intro entry inside same
        have nodup := (nodup_append'.mp chained.nodup).1
        rw [log, map_append, map_cons] at nodup
        exact (nodup_append'.mp nodup).2.2 (List.mem_map_of_mem inside) (same ▸ mem_cons_self)
      rw [log, takeWhile_append_of_pos]
      · exact mem_append_left _ inBefore
      · exact fun entry inside => decide_eq_true (ne entry inside)
    · exact chained.installed subblock referenced

theorem log_giveBack {before : List LogAllocCtx} (coro : ℕ)
    (log : s.log = before ++ [req.mmAllocCtx]) : (s.giveBack coro req).log = before := by
  have nodup := (nodup_append'.mp chained.nodup).1
  rw [log, map_append] at nodup
  have others : ∀ other ∈ before, other.current ≠ req.mmAllocCtx.current := by
    intro other inside same
    exact (nodup_append'.mp nodup).2.2 (List.mem_map_of_mem inside) (same ▸ mem_singleton.mpr rfl)
  rw [giveBack, log, filter_append, filter_eq_self.mpr fun other inside =>
    decide_eq_true (others other inside)]
  simp

theorem mmFreeCur (ordered : s.InOrder (.mmFreeCur coro))
    (taken : s.step (.mmFreeCur coro) = some after) : after.Chained := by
  obtain ⟨req, active, -, notInstalled, rfl⟩ := step_mmFreeCur taken
  obtain ⟨mem, -⟩ := chained.requests coro req active
  obtain ⟨before, entry, log⟩ := (eq_nil_or_concat' s.log).resolve_left (ne_nil_of_mem mem)
  have isLast : s.log.getLast? = some entry := by
    rw [log]
    exact getLast?_concat
  obtain rfl : entry = req.mmAllocCtx := by
    refine chained.entry_eq (mem_of_getLast? isLast) mem ?_
    exact (chained.last entry isLast).symm.trans (ordered req active).symm
  have links := chained.links
  have prevs := chained.prevs
  rw [log] at links prevs
  have shorter := chained.log_giveBack coro log
  have sequence_eq : (s.giveBack coro req).sequence = s.sequence := by
    rw [sequence, sequence, shorter, log, map_append, append_assoc]
    rfl
  have inLog : ∀ other ∈ before, other ∈ s.log := fun other inside =>
    log ▸ mem_append_left _ inside
  obtain ⟨linksBefore, -, lastLink⟩ := isChain_append.mp links
  obtain ⟨prevsBefore, -, lastPrev⟩ := isChain_append.mp prevs
  refine ⟨?_, ?_, ?_, ?_, ?_, ?_, ?_, ?_, ?_, ?_, ?_, ?_, ?_⟩
  · rw [sequence_eq]
    exact chained.nodup
  · rw [shorter]
    exact linksBefore
  · rw [shorter]
    exact prevsBefore
  · rw [shorter]
    intro entry isLast subblock isFirst
    obtain rfl := some.inj isFirst
    exact lastLink entry isLast _ rfl
  · rw [shorter]
    intro entry isLast
    exact lastPrev entry isLast _ rfl
  · rw [sequence_eq]
    exact chained.head
  · rw [sequence_eq]
    exact chained.owned
  · rw [shorter]
    exact fun entry inside => chained.nonzero entry (inLog entry inside)
  · rw [shorter]
    exact fun entry inside => chained.tails entry (inLog entry inside)
  · intro other otherRequest otherActive
    obtain ⟨apart, otherActive⟩ := update_none_eq_some otherActive
    obtain ⟨otherListed, flag⟩ := chained.requests other otherRequest otherActive
    refine ⟨?_, flag⟩
    rw [shorter]
    rw [log] at otherListed
    refine (mem_append.mp otherListed).resolve_right fun same => apart ?_
    refine chained.distinct other otherRequest coro req otherActive active ?_
    rw [mem_singleton.mp same]
  · intro left leftRequest right rightRequest leftActive rightActive same
    obtain ⟨-, leftActive⟩ := update_none_eq_some leftActive
    obtain ⟨-, rightActive⟩ := update_none_eq_some rightActive
    exact chained.distinct left leftRequest right rightRequest leftActive rightActive same
  · intro other otherRequest otherActive
    obtain ⟨-, otherActive⟩ := update_none_eq_some otherActive
    exact chained.notInstalled other otherRequest otherActive
  · intro subblock referenced
    obtain ⟨earlier, entry, later, split, same, written⟩ := chained.installed subblock referenced
    have kept : entry.current ≠ req.mmAllocCtx.current := fun equal =>
      chained.notInstalled coro req active notInstalled (equal ▸ same ▸ referenced)
    refine ⟨earlier.filter fun other => other.current ≠ req.mmAllocCtx.current, entry,
      later.filter fun other => other.current ≠ req.mmAllocCtx.current, ?_, same, ?_⟩
    · rw [giveBack, split, filter_append, filter_cons, if_pos (decide_eq_true kept)]
    · exact fun other inside => written other (mem_of_mem_filter inside)

theorem finish (taken : s.step (.finish coro) = some after) : after.Chained := by
  obtain ⟨_, -, -, rfl⟩ := step_finish taken
  refine { chained with requests := ?_, distinct := ?_, notInstalled := ?_ }
  · intro other otherRequest otherActive
    obtain ⟨-, otherActive⟩ := update_none_eq_some otherActive
    exact chained.requests other otherRequest otherActive
  · intro left leftRequest right rightRequest leftActive rightActive same
    obtain ⟨-, leftActive⟩ := update_none_eq_some leftActive
    obtain ⟨-, rightActive⟩ := update_none_eq_some rightActive
    exact chained.distinct left leftRequest right rightRequest leftActive rightActive same
  · intro other otherRequest otherActive
    obtain ⟨-, otherActive⟩ := update_none_eq_some otherActive
    exact chained.notInstalled other otherRequest otherActive

theorem unreference (subblock : SubblockInfo) :
    Chained { s with referenced := s.referenced.filter (· ≠ subblock) } := by
  refine { chained with notInstalled := ?_, installed := ?_ }
  · exact fun other req active notInstalled referenced =>
      chained.notInstalled other req active notInstalled (mem_of_mem_filter referenced)
  · exact fun other referenced => chained.installed other (mem_of_mem_filter referenced)

theorem mmAllocSubtable (space : ClientMMBlock layout)
    (taken : s.step (.mmAllocSubtable space) = some after) : after.Chained := by
  obtain rfl := some.inj taken
  have table : (Memory.regNewSpace (s.area, s.mm.table) (.subtable space)).2.mmBlocks =
      s.mm.table.mmBlocks := append_nil _
  refine { chained with head := ?_, owned := ?_ }
  · intro subblock isFirst
    rw [logHead, table]
    exact chained.head subblock isFirst
  · rw [table]
    exact chained.owned

theorem step {event : ChainEvent layout} (ordered : s.Ordered event)
    (taken : s.step event = some after) : after.Chained := by
  cases event with
  | mmAlloc coro reqType variant kvInfo reply => exact chained.mmAlloc ordered.1 taken
  | writeKv coro => exact chained.writeKv ordered.2 taken
  | install coro => exact chained.install ordered.2 taken
  | mmFreeCur coro => exact chained.mmFreeCur ordered.2 taken
  | finish coro => exact chained.finish taken
  | unreference subblock =>
    obtain rfl := some.inj taken
    exact chained.unreference subblock
  | mmAllocSubtable space => exact chained.mmAllocSubtable space taken

end Chained

theorem chained_of_isInitial (initial : s.IsInitial) : s.Chained := by
  obtain ⟨blocks, lastAllocatedInfo, rfl, disjoint, -⟩ := initial
  have queue := subblockFreeQueue_start_perm blocks lastAllocatedInfo
  refine ⟨queue.nodup_iff.mpr disjoint, isChain_nil, isChain_nil, ?_, ?_,
    logHead_start blocks lastAllocatedInfo, ?_, ?_, ?_, ?_, ?_, ?_, ?_⟩
  · rintro entry ⟨⟩
  · rintro entry ⟨⟩
  · intro subblock mem
    rw [mmBlocks_start]
    exact mem_flatMap.mp (queue.mem_iff.mp mem)
  · rintro entry ⟨⟩
  · rintro _ ⟨⟩
  · rintro coro req ⟨⟩
  · rintro coro req _ _ ⟨⟩
  · rintro _ _ ⟨⟩
  · rintro _ ⟨⟩

/-- In runs that keep to the order, the traversal misses no entry of the index. -/
theorem chainComplete_of_ordered (reached : Reachable step Ordered IsInitial s) :
    s.ChainComplete := by
  refine Chained.chainComplete ?_
  apply reached.invariant
  · exact fun s initial => chained_of_isInitial initial
  · exact fun s event after chained ordered taken => chained.step ordered taken

def smallLayout : Layout where
  numMemory := 1
  mmBlockSz := 1024
  subblockSz := 256
  subblockSz_aligned := by decide
  subblockSz_pos := by decide
  subblockNum_lt := by decide

def smallBlock : ClientMMBlock smallLayout where
  serverId := 0
  addr := 0x18000000
  addr_aligned := by decide
  addr_le := by decide

def smallSubblock (idx : Fin 4) : SubblockInfo :=
  smallBlock.genSubblockInfo idx

theorem isInitial_smallBlock : IsInitial (start [smallBlock] (smallSubblock 0)) :=
  ⟨[smallBlock], smallSubblock 0, rfl, by decide, by decide⟩

/-- Two coroutines, and a third one whose insert fails. -/
theorem chainComplete_of_ordered_twoCoroutines :
    ∃ s : ChainSystem smallLayout, Reachable step Ordered IsInitial s ∧
      s.referenced = [smallSubblock 2, smallSubblock 1] ∧ s.ChainComplete := by
  obtain ⟨s, reached, referenced⟩ := Reachable.exists_of_run step Ordered
    [.mmAlloc 0 .insert .async (headerInfo 1 1) none, .writeKv 0,
      .mmAlloc 1 .insert .async (headerInfo 1 1) none, .writeKv 1, .mmFreeCur 1,
      .mmAlloc 2 .update .async (headerInfo 1 1) none, .install 0, .writeKv 2, .install 2]
    (fun s : ChainSystem smallLayout =>
      s.referenced = [smallSubblock 2, smallSubblock 1])
    isInitial_smallBlock (by decide +kernel)
  exact ⟨s, reached, referenced, chainComplete_of_ordered reached⟩

/-- The second coroutine installs its entry while the first has not written: the
traversal ends at the first subblock. -/
theorem not_chainComplete_unwritten :
    ¬ ∀ s : ChainSystem smallLayout, Reachable step FreshBlocks IsInitial s → s.ChainComplete := by
  intro complete
  obtain ⟨s, reached, referenced, head, ends⟩ := Reachable.exists_of_run step FreshBlocks
    [.mmAlloc 0 .insert .async (headerInfo 1 1) none,
      .mmAlloc 1 .insert .async (headerInfo 1 1) none, .writeKv 1, .install 1]
    (fun s : ChainSystem smallLayout =>
      smallSubblock 2 ∈ s.referenced ∧ s.logHead = some (smallSubblock 1) ∧
        nextSubblock s.memory (smallSubblock 1) = none)
    isInitial_smallBlock (by decide +kernel)
  obtain ⟨_, isHead, visited⟩ := complete s reached _ referenced
  obtain rfl := some.inj (head.symm.trans isHead)
  obtain same | ⟨_, linked, -⟩ := visited.cases_head
  · exact absurd same (by decide)
  · rw [ends] at linked
    cases linked

end FuseeFs.Memory.ChainSystem
