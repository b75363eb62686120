import FuseeFs.Memory.Touched

/-!
# The allocator after a crash

A client that has run its inserts and updates one after the other crashes at any
point.  The queue that its recovery builds holds every data subblock that the
traversal did not leave behind as an entry.  This fails once the log is longer
than the recovery buffer.
-/

namespace FuseeFs.Memory.ChainSystem

open List Option Function Library Library.Bytes Replication

variable {layout : Layout} {s after : ChainSystem layout}

/-! ## The runs -/

/-- Inserts and updates one at a time, with blocks that are not handed out
twice. -/
def Sequential (s : ChainSystem layout) (event : ChainEvent layout) : Prop :=
  s.FreshBlocks event ∧
    match event with
    | .mmAlloc _ reqType _ _ _ => reqType ≠ .delete ∧ ∀ coro, s.requests coro = none
    | _ => True

/-- The lists that a recovery reads have room for what the step adds to them: a
new block, which is asked for with the last subblock of the queue, a subtable, or
an entry of the log. -/
def WithinBuffers (s : ChainSystem layout) : ChainEvent layout → Prop
  | .mmAlloc _ _ _ _ _ =>
    s.mm.subblockFreeQueue.length = 1 → s.mm.table.clientMetaAddr < metaCapacity
  | .mmAllocSubtable _ => s.mm.table.clientMetaAddr < metaCapacity
  | .writeKv _ => s.log.length < tailCapacity
  | _ => True

def Permitted (s : ChainSystem layout) (event : ChainEvent layout) : Prop :=
  s.Sequential event ∧ s.WithinBuffers event

def Started (s : ChainSystem layout) : Prop :=
  s.IsInitial ∧ s.mm.table.mmBlocks.length ≤ metaCapacity

def HasEntry (s : ChainSystem layout) : Prop :=
  ∃ subblock, s.memory subblock ≠ fun _ => 0

/-- What a recovery makes of the remote memory: every data subblock is either an
entry that was visited before the last one or free, no subblock is free twice,
those in the index are not free, and the first free one is what the last
allocated entry points to. -/
def Recovers (s : ChainSystem layout) : Prop :=
  ∃ head visited mm, s.logHead = some head ∧
    mmTraverseLog layout.subblockSz s.memory head = some visited ∧
    mmRecoverMmBlocks s.area visited = some mm ∧
    (∀ block ∈ s.mm.table.mmBlocks, ∀ subblock ∈ block.dataSubblocks,
      Xor (subblock ∈ visited.dropLast) (subblock ∈ mm.subblockFreeQueue)) ∧
    mm.subblockFreeQueue.Nodup ∧
    (∀ subblock ∈ s.referenced, subblock ∉ mm.subblockFreeQueue) ∧
    ∃ front, mm.subblockFreeQueue.head? = some front ∧
      nextSubblock s.memory mm.lastAllocatedInfo = some front

/-! ## The metadata -/

def MetaListed (area : MetaArea (ClientMMBlock layout)) (table : BlockTable (ClientMMBlock layout)) :
    Prop :=
  ∃ infos, MetaSystem.Listed ⟨area, some table, table.mmBlocks⟩ infos ∧
    table.clientMetaAddr = infos.length

theorem MetaListed.regInfo {area : MetaArea (ClientMMBlock layout)}
    {table : BlockTable (ClientMMBlock layout)} (mem : MetaListed area table)
    (room : table.clientMetaAddr < metaCapacity) (info : ClientMetaAddrInfo (ClientMMBlock layout)) :
    MetaListed (Memory.regInfo (area, table) info).1 (Memory.regInfo (area, table) info).2 := by
  obtain ⟨infos, mem, cursor⟩ := mem
  have unused : area table.clientMetaAddr = none := by
    have area_eq : area = fun pos => infos[pos]? := mem.area_eq
    rw [area_eq, cursor]
    exact getElem?_eq_none le_rfl
  refine ⟨infos ++ [info], mem.regInfo info room unused, ?_⟩
  rw [length_append, length_singleton, ← cursor]
  rfl

theorem clientMetaAddr_foldl (infos : List (ClientMetaAddrInfo (ClientMMBlock layout)))
    (memory : MetaArea (ClientMMBlock layout) × BlockTable (ClientMMBlock layout)) :
    (infos.foldl Memory.regInfo memory).2.clientMetaAddr =
      memory.2.clientMetaAddr + infos.length := by
  induction infos generalizing memory with
  | nil => rfl
  | cons info infos ih =>
    refine (ih (Memory.regInfo memory info)).trans ?_
    rw [length_cons, Nat.add_comm infos.length, ← Nat.add_assoc]
    rfl

theorem metaListed_start {blocks : List (ClientMMBlock layout)} (fits : blocks.length ≤ metaCapacity)
    (lastAllocatedInfo : SubblockInfo) :
    MetaListed (start blocks lastAllocatedInfo).area (start blocks lastAllocatedInfo).mm.table := by
  have empty : @MetaSystem.Listed (ClientMMBlock layout)
      ⟨fun _ => none, some ⟨0, []⟩, []⟩ [] := by
    refine ⟨rfl, Nat.zero_le _, rfl, ?_⟩
    intro table running
    obtain rfl := some.inj running
    exact le_rfl
  have filled := empty.foldl_regInfo (blocks.map .kvBlock) (by
    intro offset inside
    rw [length_map] at inside
    exact ⟨(Nat.zero_add offset).symm ▸ inside.trans_le fits, rfl⟩)
  refine ⟨blocks.map .kvBlock, ?_, ?_⟩
  · rw [mmBlocks_start]
    rw [nil_append, nil_append, ← MetaSystem.initRegSpace_eq] at filled
    have each : (blocks.map ClientMetaAddrInfo.kvBlock).filterMap ClientMetaAddrInfo.block? =
        blocks := by
      simp [filterMap_map, comp_def, ClientMetaAddrInfo.block?]
    rw [each] at filled
    exact filled
  · refine (congrArg (fun memory => memory.2.clientMetaAddr)
      (MetaSystem.initRegSpace_eq (fun _ => none, ⟨0, []⟩) blocks)).trans ?_
    rw [clientMetaAddr_foldl]
    exact Nat.zero_add _

/-! ## The invariant -/

/-- The request that is being run has the last entry of the log.  Before it is
written, its subblock may hold the entry of a request that has failed. -/
structure InFlight (s : ChainSystem layout) (touched : ℕ) (req : ChainRequest) : Prop where
  last : s.log.getLast? = some req.mmAllocCtx
  next : s.mm.subblockFreeQueue.head? = some req.mmAllocCtx.next
  fits : tailOffset req.kvInfo.lAddr + sizeofKVLogTail ≤ layout.subblockSz
  not_delete : req.reqType ≠ .delete
  unwritten : req.written = false → s.log.length ≤ touched + 1 ∧ touched ≤ s.log.length
  written : req.written → touched = s.log.length

/-- All data subblocks in the order in which they are handed out, as far as they
are known, with the number of those that have been written. -/
structure Frontier (s : ChainSystem layout) (order : List SubblockInfo) (touched : ℕ) :
    Prop where
  chained : s.Chained
  perm : order.Perm (s.mm.table.mmBlocks.flatMap ClientMMBlock.dataSubblocks)
  nodup : order.Nodup
  head : ∀ subblock ∈ order.head?, s.logHead = some subblock
  /-- The last subblock of the queue may have been lost. -/
  whole : s.mm.subblockFreeQueue ≠ [] → order = s.sequence
  remote : Touched layout.subblockSz s.memory order touched
  inside : order ≠ [] → touched < order.length
  room : touched < tailCapacity
  idle : (∀ coro, s.requests coro = none) → s.log.length ≤ touched ∧ touched ≤ s.log.length + 1
  inFlight : ∀ coro req, s.requests coro = some req → s.InFlight touched req
  written : ∀ entry ∈ s.log, s.isWritten entry.current ∨
    ∃ coro req, s.requests coro = some req ∧ req.mmAllocCtx = entry ∧ req.written = false
  referenced : ∀ subblock ∈ s.referenced, subblock ∈ order.take touched
  metaListed : MetaListed s.area s.mm.table
  servers : ∀ block ∈ s.mm.table.mmBlocks, block.serverId.toNat < layout.numMemory

theorem frontier_of_started (started : s.Started) : Frontier s s.mm.subblockFreeQueue 0 := by
  obtain ⟨initial, fits⟩ := started
  have chained := chained_of_isInitial initial
  obtain ⟨blocks, lastAllocatedInfo, rfl, _, servers⟩ := initial
  rw [mmBlocks_start] at fits
  have queue := subblockFreeQueue_start_perm blocks lastAllocatedInfo
  refine ⟨chained, ?_, chained.nodup, chained.head, fun _ => rfl, .initial _, length_pos_iff.mpr,
    by decide, fun _ => ⟨le_rfl, Nat.zero_le _⟩, ?_, ?_, ?_, metaListed_start fits lastAllocatedInfo, ?_⟩
  · rw [mmBlocks_start]
    exact queue
  · rintro _ _ ⟨⟩
  · rintro _ ⟨⟩
  · rintro _ ⟨⟩
  · rw [mmBlocks_start]
    exact servers

theorem le_of_getAlignedSize {size : ℕ} (one : layout.getAlignedSize size / layout.subblockSz = 1) :
    size ≤ layout.subblockSz := by
  have positive := layout.subblockSz_pos
  unfold BlockSizes.getAlignedSize at one
  split_ifs at one with aligned
  · have exact_multiple := Nat.div_add_mod size layout.subblockSz
    rw [one, aligned, Nat.mul_one, Nat.add_zero] at exact_multiple
    exact exact_multiple.ge
  · rw [Nat.mul_div_cancel _ positive] at one
    exact (Nat.lt_of_div_eq_zero positive (by omega)).le

variable {reqType : KVRequestType}

theorem kvBlockSize_eq (upsert : reqType ≠ .delete) (variant : Variant) (kvInfo : KVInfo) :
    kvBlockSize reqType variant kvInfo = tailOffset kvInfo.lAddr + sizeofKVLogTail := by
  cases reqType with
  | delete => exact absurd rfl upsert
  | insert | update => rfl

theorem tailOffset_execute {subblockSz : ℕ} (not_delete : reqType ≠ .delete)
    (covered : sizeofKVLogHeader ≤ subblockSz % 2 ^ 32) (variant : Variant) (kvInfo : KVInfo)
    (mmAllocCtx : LogAllocCtx) (subblock : Image) :
    tailOffset ((writeEntry subblockSz kvInfo mmAllocCtx reqType variant).execute subblock) =
      tailOffset kvInfo.lAddr := by
  have behind : sizeofKVLogHeader ≤ tailOffset kvInfo.lAddr := by
    rw [tailOffset, Nat.add_assoc]
    exact Nat.le_add_right _ _
  have req : writeEntry subblockSz kvInfo mmAllocCtx reqType variant =
      writeKv subblockSz kvInfo mmAllocCtx reqType := by
    cases reqType with
    | delete => exact absurd rfl not_delete
    | insert | update => cases variant <;> rfl
  rw [req, WriteRequest.execute]
  exact (tailOffset_copy covered).trans (tailOffset_fillEntry behind)

namespace Frontier

variable {order : List SubblockInfo} {touched : ℕ} (frontier : s.Frontier order touched)
include frontier

variable {coro : ℕ} {req : ChainRequest}

theorem unique {other : ℕ} {otherRequest : ChainRequest}
    (active : s.requests coro = some req)
    (otherActive : s.requests other = some otherRequest) : coro = other ∧ req = otherRequest := by
  have same : req.mmAllocCtx = otherRequest.mmAllocCtx :=
    some.inj ((frontier.inFlight coro req active).last.symm.trans
      (frontier.inFlight other otherRequest otherActive).last)
  obtain rfl := frontier.chained.distinct coro req other otherRequest active otherActive
    (congrArg LogAllocCtx.current same)
  exact ⟨rfl, some.inj (active.symm.trans otherActive)⟩

theorem isWritten_of_ne (active : s.requests coro = some req) {entry : LogAllocCtx}
    (mem : entry ∈ s.log) (apart : entry.current ≠ req.mmAllocCtx.current) :
    s.isWritten entry.current := by
  obtain done | ⟨_, _, otherActive, rfl, -⟩ := frontier.written entry mem
  · exact done
  · obtain ⟨-, rfl⟩ := frontier.unique active otherActive
    exact absurd rfl apart

theorem order_eq (active : s.requests coro = some req) :
    ∃ before rest, order = before ++ req.mmAllocCtx.current :: req.mmAllocCtx.next :: rest ∧
      s.log.length = before.length + 1 := by
  obtain ⟨last, next, -, -, -, -⟩ := frontier.inFlight coro req active
  obtain ⟨earlier, log⟩ := getLast?_eq_some_iff.mp last
  obtain ⟨rest, queue⟩ := head?_eq_some_iff.mp next
  refine ⟨earlier.map LogAllocCtx.current, rest, ?_, ?_⟩
  · rw [frontier.whole (queue ▸ cons_ne_nil _ _), sequence, log, queue]
    simp
  · rw [log]
    simp

variable {event : ChainEvent layout}

/-- Running one request at a time keeps to the order of the log. -/
theorem ordered (small : layout.subblockSz ≤ clientMetaLen) (fresh : s.FreshBlocks event) :
    s.Ordered event := by
  refine ⟨fresh, ?_⟩
  cases event with
  | mmAlloc | finish | unreference | mmAllocSubtable => trivial
  | writeKv coro =>
    intro req active
    obtain ⟨-, -, fits, not_delete, -, -⟩ := frontier.inFlight coro req active
    have keyLen : (UInt16.ofNat (keyLength req.kvInfo.lAddr)).toNat =
        keyLength req.kvInfo.lAddr := UInt16.toNat_ofNat_of_lt' Bytes.ofBytes_load_lt
    have valueLen : (UInt32.ofNat (valueLength req.kvInfo.lAddr)).toNat =
        valueLength req.kvInfo.lAddr := UInt32.toNat_ofNat_of_lt' Bytes.ofBytes_load_lt
    have reaches : sizeofKVLogHeader + keyLength req.kvInfo.lAddr +
        valueLength req.kvInfo.lAddr + offsetofOp < layout.subblockSz % 2 ^ 32 := by
      rw [Nat.mod_eq_of_lt (by unfold clientMetaLen at small; omega)]
      simp only [tailOffset, sizeofKVLogTail] at fits
      simp only [offsetofOp]
      omega
    cases kind : req.reqType with
    | delete => exact absurd kind not_delete
    | insert | update =>
      simp only [TailTransferred, keyLen, valueLen]
      exact reaches
  | install coro =>
    intro req active earlier before
    have apart := mem_takeWhile_imp before
    exact frontier.isWritten_of_ne active ((takeWhile_sublist _).subset before)
      (of_decide_eq_true apart)
  | mmFreeCur coro =>
    intro req active
    have last := (frontier.inFlight coro req active).last
    exact (frontier.chained.last _ last).symm

/-! ## The steps -/

theorem begin {area : MetaArea (ClientMMBlock layout)} {mm : ClientMM layout} {ctx : LogAllocCtx}
    {rest more : List SubblockInfo} {reqType : KVRequestType} {kvInfo : KVInfo} {coro : ℕ}
    {variant : Variant}
    (chained' : Chained ({ s with area := area, mm := mm }.begin coro reqType variant
      kvInfo (some ctx)))
    (queue : s.mm.subblockFreeQueue = ctx.current :: rest)
    (grown : mm.subblockFreeQueue = rest ++ more)
    (front : mm.subblockFreeQueue.head? = some ctx.next)
    (blocks : mm.table.mmBlocks.flatMap ClientMMBlock.dataSubblocks =
      s.mm.table.mmBlocks.flatMap ClientMMBlock.dataSubblocks ++ more)
    (mem : MetaListed area mm.table)
    (servers : ∀ block ∈ mm.table.mmBlocks, block.serverId.toNat < layout.numMemory)
    (idle : ∀ coro, s.requests coro = none) (not_delete : reqType ≠ .delete)
    (fits : tailOffset kvInfo.lAddr + sizeofKVLogTail ≤ layout.subblockSz) :
    Frontier ({ s with area := area, mm := mm }.begin coro reqType variant kvInfo
      (some ctx)) (order ++ more) touched := by
  have order_eq : order = s.sequence := frontier.whole (queue ▸ cons_ne_nil _ _)
  have nonempty : order ≠ [] := by
    rw [order_eq, sequence, queue]
    simp
  have inside := frontier.inside nonempty
  have sequence_eq : order ++ more =
      (s.log ++ [ctx]).map LogAllocCtx.current ++ mm.subblockFreeQueue := by
    rw [order_eq, sequence, queue, grown, map_append]
    simp
  obtain ⟨_, _⟩ := frontier.idle idle
  refine ⟨chained', ?_, ?_, ?_, fun _ => sequence_eq, frontier.remote.append inside more, ?_,
    frontier.room, ?_, ?_, ?_, ?_, mem, servers⟩
  · refine (frontier.perm.append_right more).trans ?_
    rw [← blocks]
    exact List.Perm.refl _
  · rw [sequence_eq]
    exact chained'.nodup
  · rw [sequence_eq]
    exact chained'.head
  · rw [length_append]
    omega
  · intro none
    have active := none coro
    simp [ChainSystem.begin] at active
  · intro other req active
    obtain ⟨rfl, rfl⟩ | ⟨-, active⟩ := update_eq_some active
    · refine ⟨getLast?_concat, front, fits, not_delete, fun _ => ?_, fun written => ?_⟩
      · simp only [ChainSystem.begin, length_append, length_singleton]
        omega
      · cases written
    · rw [show s.requests other = none from idle other] at active
      cases active
  · intro entry inLog
    obtain old | new := mem_append.mp inLog
    · refine .inl ?_
      have apart : entry.current ≠ ctx.current := by
        intro same
        have nodup := (nodup_append'.mp chained'.nodup).1
        simp only [ChainSystem.begin, map_append] at nodup
        exact (nodup_append'.mp nodup).2.2 (List.mem_map_of_mem old) (same ▸ mem_singleton.mpr rfl)
      obtain done | ⟨other, _, active, -⟩ := frontier.written entry old
      · simpa only [ChainSystem.begin, update_of_ne apart] using done
      · rw [idle other] at active
        cases active
    · obtain rfl := mem_singleton.mp new
      exact .inr ⟨coro, _, update_self .., rfl, rfl⟩
  · intro subblock referenced
    rw [take_append_of_le_length inside.le]
    exact frontier.referenced subblock referenced

theorem lost (chained' : Chained { s with mm := { s.mm with subblockFreeQueue := [] } })
    (idle : ∀ coro, s.requests coro = none) :
    Frontier { s with mm := { s.mm with subblockFreeQueue := [] } } order touched := by
  refine { frontier with chained := chained', whole := ?_, inFlight := ?_ }
  · exact fun nonempty => absurd rfl nonempty
  · intro coro req active
    rw [show s.requests coro = none from idle coro] at active
    cases active

theorem mmAlloc {variant : Variant} {kvInfo : KVInfo} {reply : Option (ClientMMBlock layout)}
    (chained' : after.Chained)
    (permitted : s.Permitted (.mmAlloc coro reqType variant kvInfo reply))
    (taken : s.step (.mmAlloc coro reqType variant kvInfo reply) = some after) :
    ∃ order, after.Frontier order touched := by
  obtain ⟨⟨fresh, not_delete, idle⟩, room⟩ := permitted
  obtain ⟨-, _, _, _, allocated, rfl⟩ := step_mmAlloc taken
  obtain ⟨one, cases⟩ := ClientMM.mmAlloc_cases allocated
  have fits := le_of_getAlignedSize one
  rw [kvBlockSize_eq not_delete] at fits
  obtain ⟨_, queue, rfl, rfl, rfl⟩ | ⟨current, next, rest, queue, rfl, rfl, rfl⟩ |
    ⟨_, _, next, rest, queue, rfl, subblocks, rfl, rfl, rfl⟩ := cases
  · exact ⟨order, frontier.lost chained' idle⟩
  · refine ⟨order ++ [], frontier.begin chained' queue ?_ rfl ?_ frontier.metaListed frontier.servers
      idle not_delete fits⟩
    · rw [append_nil]
    · rw [append_nil]
  · have entry : s.mm.table.clientMetaAddr < metaCapacity := room (by rw [queue, length_singleton])
    refine ⟨order ++ (next :: rest), frontier.begin chained' queue rfl rfl ?_
      (frontier.metaListed.regInfo entry _) ?_ idle not_delete fits⟩
    · rw [← subblocks]
      simp [Memory.dynRegNewSpace, Memory.regInfo, ClientMetaAddrInfo.block?]
    · intro other registered
      obtain old | new := mem_append.mp registered
      · exact frontier.servers other old
      · obtain rfl := mem_singleton.mp new
        exact (fresh other rfl).1

theorem writeKv (small : layout.subblockSz ≤ clientMetaLen) (chained' : after.Chained)
    (permitted : s.Permitted (.writeKv coro))
    (taken : s.step (.writeKv coro) = some after) : after.Frontier order s.log.length := by
  have transferred := (frontier.ordered small permitted.1.1).2
  obtain ⟨req, active, unwritten, rfl⟩ := step_writeKv taken
  obtain ⟨_, _, shape, length⟩ := frontier.order_eq active
  obtain ⟨last, next, fits, not_delete, bounds, -⟩ := frontier.inFlight coro req active
  obtain ⟨_, most⟩ := bounds unwritten
  have inLog : req.mmAllocCtx ∈ s.log := mem_of_getLast? last
  have link := nextSubblock_write (transferred req active) (frontier.chained.nonzero _ inLog) s coro
  have tail : tailOffset ((writeEntry layout.subblockSz req.kvInfo req.mmAllocCtx
      req.reqType req.variant).execute (s.memory req.mmAllocCtx.current)) +
        sizeofKVLogTail ≤ layout.subblockSz := by
    rw [tailOffset_execute not_delete]
    · exact fits
    · rw [Nat.mod_eq_of_lt (by unfold clientMetaLen at small; omega)]
      simp only [tailOffset] at fits
      omega
  have remote : Touched layout.subblockSz (s.write coro req).memory order
      s.log.length := by
    rw [length]
    exact frontier.remote.write shape frontier.nodup (by omega) (by omega) link tail
  refine { frontier with
    chained := chained', remote := remote, inside := ?_, room := permitted.2, idle := ?_,
    inFlight := ?_, written := ?_, referenced := ?_ }
  · rw [shape, length]
    simp
  · intro none
    have inFlight := none coro
    rw [requests_write, update_self] at inFlight
    cases inFlight
  · intro other otherRequest otherActive
    obtain ⟨rfl, rfl⟩ | ⟨apart, otherActive⟩ := update_eq_some otherActive
    · refine ⟨last, next, fits, not_delete, fun unwritten => ?_, fun _ => rfl⟩
      cases unwritten
    · exact absurd (frontier.unique active otherActive).1.symm apart
  · intro entry inLog
    refine .inl ?_
    rw [isWritten_write]
    by_cases same : entry.current = req.mmAllocCtx.current
    · rw [same, update_self]
    · rw [update_of_ne same]
      exact frontier.isWritten_of_ne active inLog same
  · intro subblock referenced
    exact (take_sublist_take_left most).subset (frontier.referenced subblock referenced)

section Written

variable {coro : ℕ} {req : ChainRequest}

theorem isWritten (active : s.requests coro = some req) (done : req.written)
    {entry : LogAllocCtx} (inLog : entry ∈ s.log) : s.isWritten entry.current := by
  by_cases same : entry.current = req.mmAllocCtx.current
  · rw [same, (frontier.chained.requests coro req active).2]
    exact done
  · exact frontier.isWritten_of_ne active inLog same

theorem idle_of_update (active : s.requests coro = some req) (other : ℕ) :
    update s.requests coro none other = none := by
  by_cases same : other = coro
  · rw [same, update_self]
  · rw [update_of_ne same]
    cases otherActive : s.requests other with
    | none => rfl
    | some otherRequest => exact absurd (frontier.unique active otherActive).1.symm same

end Written

theorem install (chained' : after.Chained) (taken : s.step (.install coro) = some after) :
    after.Frontier order touched := by
  obtain ⟨req, active, done, -, rfl⟩ := step_install taken
  obtain ⟨_, _, shape, length⟩ := frontier.order_eq active
  have inFlight := frontier.inFlight coro req active
  refine { frontier with
    chained := chained', idle := ?_, inFlight := ?_, written := ?_, referenced := ?_ }
  · intro none
    have inFlight := none coro
    rw [requests_refer, update_self] at inFlight
    cases inFlight
  · intro other otherRequest otherActive
    obtain ⟨rfl, rfl⟩ | ⟨apart, otherActive⟩ := update_eq_some otherActive
    · exact { inFlight with }
    · exact absurd (frontier.unique active otherActive).1.symm apart
  · exact fun entry inLog => .inl (frontier.isWritten active done inLog)
  · intro subblock referenced
    obtain rfl | referenced := mem_cons.mp referenced
    · rw [inFlight.written done, length, shape, take_append, take_of_length_le (by omega)]
      simp
    · exact frontier.referenced subblock referenced

/-- The entry of a failed insert stays in the remote memory. -/
theorem mmFreeCur (chained' : after.Chained)
    (taken : s.step (.mmFreeCur coro) = some after) : after.Frontier order touched := by
  obtain ⟨req, active, done, -, rfl⟩ := step_mmFreeCur taken
  obtain ⟨last, next, -, -, -, written⟩ := frontier.inFlight coro req active
  obtain ⟨_, log⟩ := getLast?_eq_some_iff.mp last
  have shorter := frontier.chained.log_giveBack coro log
  have sequence_eq : (s.giveBack coro req).sequence = s.sequence := by
    rw [sequence, sequence, shorter, log, map_append, append_assoc]
    rfl
  refine { frontier with
    chained := chained', whole := ?_, idle := ?_, inFlight := ?_, written := ?_ }
  · intro
    rw [sequence_eq]
    obtain ⟨_, queue⟩ := head?_eq_some_iff.mp next
    exact frontier.whole (queue ▸ cons_ne_nil _ _)
  · intro
    rw [shorter, written done, log, length_append, length_singleton]
    omega
  · intro other otherRequest otherActive
    have ended := (frontier.idle_of_update active other).symm.trans otherActive
    cases ended
  · intro entry inLog
    rw [shorter] at inLog
    exact .inl (frontier.isWritten active done (log ▸ mem_append_left _ inLog))

theorem finish (chained' : after.Chained) (taken : s.step (.finish coro) = some after) :
    after.Frontier order touched := by
  obtain ⟨req, active, done, rfl⟩ := step_finish taken
  have touched_eq := (frontier.inFlight coro req active).written done
  refine { frontier with chained := chained', idle := ?_, inFlight := ?_, written := ?_ }
  · intro
    rw [touched_eq]
    exact ⟨le_rfl, Nat.le_succ _⟩
  · intro other otherRequest otherActive
    have ended := (frontier.idle_of_update active other).symm.trans otherActive
    cases ended
  · exact fun entry inLog => .inl (frontier.isWritten active done inLog)

theorem unreference (subblock : SubblockInfo)
    (taken : s.step (.unreference subblock) = some after) : after.Frontier order touched := by
  obtain rfl := some.inj taken
  refine { frontier with
    chained := frontier.chained.unreference subblock, inFlight := ?_, referenced := ?_ }
  · exact fun coro req active => { frontier.inFlight coro req active with }
  · exact fun other referenced => frontier.referenced other (mem_of_mem_filter referenced)

theorem mmAllocSubtable (space : ClientMMBlock layout) (chained' : after.Chained)
    (permitted : s.Permitted (.mmAllocSubtable space))
    (taken : s.step (.mmAllocSubtable space) = some after) : after.Frontier order touched := by
  obtain rfl := some.inj taken
  have table : (Memory.regNewSpace (s.area, s.mm.table) (.subtable space)).2.mmBlocks =
      s.mm.table.mmBlocks := append_nil _
  refine { frontier with
    chained := chained', perm := ?_, head := ?_, inFlight := ?_, servers := ?_,
    metaListed := frontier.metaListed.regInfo permitted.2 _ }
  · rw [table]
    exact frontier.perm
  · intro subblock isFirst
    rw [logHead, table]
    exact frontier.head subblock isFirst
  · exact fun coro req active => { frontier.inFlight coro req active with }
  · rw [table]
    exact frontier.servers

theorem step (small : layout.subblockSz ≤ clientMetaLen) (permitted : s.Permitted event)
    (taken : s.step event = some after) : ∃ order touched, after.Frontier order touched := by
  have chained' := frontier.chained.step (frontier.ordered small permitted.1.1) taken
  cases event with
  | mmAlloc coro reqType variant kvInfo reply =>
    obtain ⟨longer, kept⟩ := frontier.mmAlloc chained' permitted taken
    exact ⟨longer, touched, kept⟩
  | writeKv coro => exact ⟨order, _, frontier.writeKv small chained' permitted taken⟩
  | install coro => exact ⟨order, touched, frontier.install chained' taken⟩
  | mmFreeCur coro => exact ⟨order, touched, frontier.mmFreeCur chained' taken⟩
  | finish coro => exact ⟨order, touched, frontier.finish chained' taken⟩
  | unreference subblock => exact ⟨order, touched, frontier.unreference subblock taken⟩
  | mmAllocSubtable space =>
    exact ⟨order, touched, frontier.mmAllocSubtable space chained' permitted taken⟩

/-! ## The recovery -/

theorem allSubblocks_eq :
    allSubblocks s.area = s.mm.table.mmBlocks.flatMap ClientMMBlock.dataSubblocks := by
  obtain ⟨_, mem, -⟩ := frontier.metaListed
  rw [allSubblocks, mem.recoveredBlocks_eq]

variable {subblock : SubblockInfo}

theorem mem_allSubblocks : subblock ∈ allSubblocks s.area ↔ subblock ∈ order := by
  rw [frontier.allSubblocks_eq]
  exact frontier.perm.mem_iff.symm

theorem addr_ne_zero_and_serverId_lt (mem : subblock ∈ allSubblocks s.area) :
    subblock.addr ≠ 0 ∧ subblock.serverId.toNat < layout.numMemory := by
  rw [frontier.allSubblocks_eq] at mem
  obtain ⟨block, registered, mem⟩ := mem_flatMap.mp mem
  rw [ClientMMBlock.serverId_eq mem]
  exact ⟨ClientMMBlock.addr_ne_zero mem, frontier.servers block registered⟩

/-- The traversal comes to the subblocks that have been written, and one more. -/
theorem traversed (small : layout.subblockSz ≤ clientMetaLen) (nonempty : order ≠ []) :
    s.logHead = some (order.head nonempty) ∧
      mmTraverseLog layout.subblockSz s.memory (order.head nonempty) =
        some (order.take (touched + 1)) := by
  have begins : order.head? = some (order.head nonempty) := head?_eq_some_head nonempty
  have nonzero : (order.head nonempty).addr ≠ 0 :=
    (frontier.addr_ne_zero_and_serverId_lt (frontier.mem_allSubblocks.mpr (head_mem nonempty))).1
  have large : sizeofKVLogHeader + sizeofKVLogTail ≤ layout.subblockSz := by
    have bound := Nat.le_of_dvd layout.subblockSz_pos layout.subblockSz_aligned
    simp only [sizeofKVLogHeader, sizeofKVLogTail]
    omega
  exact ⟨frontier.head _ begins, frontier.remote.mmTraverseLog_eq begins nonzero frontier.nodup
    (frontier.inside nonempty) frontier.room small large⟩

theorem recovers (small : layout.subblockSz ≤ clientMetaLen) (hasEntry : s.HasEntry) :
    s.Recovers := by
  obtain ⟨entry, written⟩ := hasEntry
  have mem : entry ∈ order.take touched := by
    by_contra unlisted
    exact written (frontier.remote.zero entry unlisted)
  obtain ⟨last, rfl⟩ : ∃ last, touched = last + 1 := by
    refine Nat.exists_eq_succ_of_ne_zero fun zero => ?_
    rw [zero, take_zero] at mem
    cases mem
  have nonempty : order ≠ [] := ne_nil_of_mem (mem_of_mem_take mem)
  have inside := frontier.inside nonempty
  obtain ⟨isHead, traversed⟩ := frontier.traversed small nonempty
  -- the entries before the last two, the last allocated one and the head of the queue
  have taken : order.take (last + 1) = order.take last ++ [order[last]] :=
    take_succ_eq_append_getElem (by omega)
  have visited : order.take (last + 1 + 1) = order.take last ++ [order[last], order[last + 1]] := by
    rw [take_succ_eq_append_getElem inside, taken, append_assoc]
    rfl
  have dropped : (order.take (last + 1 + 1)).dropLast = order.take (last + 1) := by
    rw [take_succ_eq_append_getElem inside, dropLast_concat]
  have sublist := take_sublist (last + 1 + 1) order
  rw [visited] at sublist
  have blocks_nodup : (allSubblocks s.area).Nodup := by
    rw [frontier.allSubblocks_eq]
    exact frontier.perm.nodup_iff.mp frontier.nodup
  obtain ⟨mm, rebuilt, lastAllocated, queueHead, queue_nodup, mem_queue⟩ :=
    mmRecoverMmBlocks_spec blocks_nodup
      (fun subblock inBlock => (frontier.addr_ne_zero_and_serverId_lt inBlock).2)
      (frontier.nodup.sublist sublist)
      (fun subblock inside => frontier.mem_allSubblocks.mpr (sublist.subset inside))
  rw [← taken] at mem_queue
  rw [← visited] at rebuilt
  refine ⟨_, _, mm, isHead, traversed, rebuilt, ?_, queue_nodup, ?_, _, queueHead, ?_⟩
  · intro block registered subblock inBlock
    have isKnown : subblock ∈ allSubblocks s.area := by
      rw [frontier.allSubblocks_eq]
      exact mem_flatMap.mpr ⟨block, registered, inBlock⟩
    rw [dropped, mem_queue]
    by_cases visited : subblock ∈ order.take (last + 1)
    · exact .inl ⟨visited, fun free => free.2 visited⟩
    · exact .inr ⟨⟨isKnown, visited⟩, visited⟩
  · intro subblock referenced free
    exact ((mem_queue subblock).mp free).2 (frontier.referenced subblock referenced)
  · rw [lastAllocated]
    exact frontier.remote.links last (Nat.lt_succ_self last) _ (getElem?_eq_getElem _) _
      (getElem?_eq_getElem inside)

end Frontier

theorem frontier_of_reachable (small : layout.subblockSz ≤ clientMetaLen)
    (reached : Reachable step Permitted Started s) : ∃ order touched, s.Frontier order touched := by
  apply reached.invariant
  · exact fun s started => ⟨_, 0, frontier_of_started started⟩
  · rintro _ _ _ ⟨_, _, frontier⟩ permitted taken
    exact frontier.step small permitted taken

/-- Within the limits of the recovery buffer the allocator is recovered. -/
theorem recovers_of_withinBuffers (small : layout.subblockSz ≤ clientMetaLen)
    (reached : Reachable step Permitted Started s) (hasEntry : s.HasEntry) : s.Recovers := by
  obtain ⟨_, _, frontier⟩ := frontier_of_reachable small reached
  exact frontier.recovers small hasEntry

/-! ## A run of one coroutine -/

def SingleCoroutine (s : ChainSystem layout) (event : ChainEvent layout) : Prop :=
  s.FreshBlocks event ∧ s.WithinBuffers event ∧
    match event with
    | .mmAlloc coro reqType _ _ _ =>
      coro = 0 ∧ reqType ≠ .delete ∧ (s.requests 0).isNone
    | _ => True

instance (s : ChainSystem layout) : (event : ChainEvent layout) →
    Decidable (s.WithinBuffers event)
  | .mmAlloc _ _ _ _ _ => inferInstanceAs (Decidable
      (s.mm.subblockFreeQueue.length = 1 → s.mm.table.clientMetaAddr < metaCapacity))
  | .mmAllocSubtable _ => inferInstanceAs (Decidable (s.mm.table.clientMetaAddr < metaCapacity))
  | .writeKv _ => inferInstanceAs (Decidable (s.log.length < tailCapacity))
  | .install _ | .mmFreeCur _ | .finish _ | .unreference _ => inferInstanceAs (Decidable True)

instance (s : ChainSystem layout) : (event : ChainEvent layout) →
    Decidable (s.SingleCoroutine event)
  | .mmAlloc coro reqType _ _ _ => inferInstanceAs (Decidable (_ ∧ _ ∧
      coro = 0 ∧ reqType ≠ .delete ∧ (s.requests 0).isNone = true))
  | .mmAllocSubtable _ | .writeKv _ | .install _ | .mmFreeCur _ | .finish _ | .unreference _ =>
    inferInstanceAs (Decidable (_ ∧ _ ∧ True))

theorem requests_of_ne_zero (reached : Reachable step SingleCoroutine Started s) :
    ∀ coro ≠ 0, s.requests coro = none := by
  apply reached.invariant
  · rintro s ⟨⟨_, _, rfl, -⟩, -⟩ coro -
    rfl
  · intro s event after others permitted taken coro other
    have kept : ∀ changed : ℕ, (s.requests changed).isSome → ∀ new,
        update s.requests changed new coro = none := by
      intro changed active new
      have apart : coro ≠ changed := by
        rintro rfl
        rw [others coro other] at active
        cases active
      rw [update_of_ne apart]
      exact others coro other
    cases event with
    | mmAlloc changed reqType variant kvInfo reply =>
      obtain ⟨-, _, _, result, -, rfl⟩ := step_mmAlloc taken
      obtain rfl : changed = 0 := permitted.2.2.1
      cases result with
      | none => exact others coro other
      | some ctx => exact (update_of_ne other _ _).trans (others coro other)
    | writeKv changed =>
      obtain ⟨req, active, -, rfl⟩ := step_writeKv taken
      exact kept changed (active ▸ rfl) _
    | install changed =>
      obtain ⟨req, active, -, -, rfl⟩ := step_install taken
      exact kept changed (active ▸ rfl) _
    | mmFreeCur changed =>
      obtain ⟨req, active, -, -, rfl⟩ := step_mmFreeCur taken
      exact kept changed (active ▸ rfl) _
    | finish changed =>
      obtain ⟨_, active, -, rfl⟩ := step_finish taken
      exact kept changed (active ▸ rfl) _
    | unreference subblock =>
      obtain rfl := some.inj taken
      exact others coro other
    | mmAllocSubtable space =>
      obtain rfl := some.inj taken
      exact others coro other

theorem permitted_of_singleCoroutine (reached : Reachable step SingleCoroutine Started s) :
    Reachable step Permitted Started s := by
  apply reached.mono (fun s => requests_of_ne_zero) (fun s started => started)
  intro s event others ⟨fresh, room, single⟩
  refine ⟨⟨fresh, ?_⟩, room⟩
  cases event with
  | mmAlloc coro reqType variant kvInfo reply =>
    refine ⟨single.2.1, fun coro => ?_⟩
    by_cases first : coro = 0
    · rw [first]
      exact isNone_iff_eq_none.mp single.2.2
    · exact others coro first
  | writeKv | install | mmFreeCur | finish | unreference | mmAllocSubtable => trivial

theorem started_smallBlock : Started (start [smallBlock] (smallSubblock 0)) :=
  ⟨isInitial_smallBlock, by decide⟩

def secondBlock : ClientMMBlock smallLayout where
  serverId := 0
  addr := 0x18000400
  addr_aligned := by decide
  addr_le := by decide

/-- One insert succeeds and one fails, and the client crashes in an update for
which it has got a new block. -/
theorem recovers_of_withinBuffers_newBlock :
    ∃ s : ChainSystem smallLayout, Reachable step Permitted Started s ∧
      s.HasEntry ∧ s.mm.table.mmBlocks = [smallBlock, secondBlock] ∧ s.Recovers := by
  obtain ⟨s, reached, written, blocks⟩ := Reachable.exists_of_run step SingleCoroutine
    [.mmAlloc 0 .insert .async (headerInfo 1 1) none, .writeKv 0, .install 0, .finish 0,
      .mmAlloc 0 .insert .async (headerInfo 1 1) none, .writeKv 0, .mmFreeCur 0,
      .mmAlloc 0 .update .async (headerInfo 1 1) none, .writeKv 0, .finish 0,
      .mmAlloc 0 .update .async (headerInfo 1 1) (some secondBlock)]
    (fun s : ChainSystem smallLayout => s.memory (smallSubblock 1) 0 = 1 ∧
      s.mm.table.mmBlocks = [smallBlock, secondBlock])
    started_smallBlock (by decide +kernel)
  have permitted := permitted_of_singleCoroutine reached
  have hasEntry : s.HasEntry := by
    refine ⟨smallSubblock 1, fun zero => ?_⟩
    rw [zero] at written
    cases written
  exact ⟨s, permitted, hasEntry, blocks, recovers_of_withinBuffers (by decide) permitted hasEntry⟩

/-! ## A log that is longer than the buffer -/

def longLayout : Layout where
  numMemory := 1
  mmBlockSz := 2 ^ 30
  subblockSz := 256
  subblockSz_aligned := smallLayout.subblockSz_aligned
  subblockSz_pos := Nat.succ_pos 255
  subblockNum_lt := by decide

def longBlock : ClientMMBlock longLayout where
  serverId := 0
  addr := 0x18000000
  addr_aligned := smallBlock.addr_aligned
  addr_le := by decide

structure Inserted (s : ChainSystem longLayout) (entries : ℕ) : Prop where
  reached : Reachable step Sequential IsInitial s
  chained : s.Chained
  idle : ∀ coro, s.requests coro = none
  length : s.log.length = entries
  written : ∀ entry ∈ s.log, s.isWritten entry.current
  queue : s.mm.subblockFreeQueue.length + entries = 4192256

theorem inserted_zero : ∃ s, Inserted s 0 := by
  have initial : IsInitial (start [longBlock] (longBlock.genSubblockInfo ⟨0, by decide⟩)) := by
    refine ⟨[longBlock], _, rfl, ?_, by decide⟩
    rw [DisjointBlocks, flatMap_singleton]
    exact longBlock.nodup_dataSubblocks
  refine ⟨_, .start initial, chained_of_isInitial initial, fun _ => rfl, rfl, ?_, ?_⟩
  · rintro _ ⟨⟩
  · rw [(subblockFreeQueue_start_perm _ _).length_eq, flatMap_singleton,
      ClientMMBlock.length_dataSubblocks]
    decide

section Insert

variable {s : ChainSystem longLayout} {current next : SubblockInfo} {rest : List SubblockInfo}

def allocated (s : ChainSystem longLayout) (current next : SubblockInfo)
    (rest : List SubblockInfo) : ChainSystem longLayout :=
  { s with mm := ⟨next :: rest, current, s.mm.table⟩ }.begin 0 .insert .async
    (headerInfo 1 1) (some ⟨current, next, s.mm.lastAllocatedInfo⟩)

theorem step_allocated (idle : s.requests 0 = none)
    (queue : s.mm.subblockFreeQueue = current :: next :: rest) :
    s.step (.mmAlloc 0 .insert .async (headerInfo 1 1) none) =
      some (allocated s current next rest) := by
  have size : kvBlockSize .insert .async (headerInfo 1 1) = 42 := rfl
  have one : longLayout.getAlignedSize 42 / longLayout.subblockSz = 1 := by decide
  have given : s.mm.mmAlloc s.area 42 none = some (s.area,
      ⟨next :: rest, current, s.mm.table⟩,
      some ⟨current, next, s.mm.lastAllocatedInfo⟩) := by
    simp [ClientMM.mmAlloc, SubblockAllocator.mmAlloc, SubblockAllocator.finish,
      ClientMM.subblockAllocator, one, queue]
  rw [step, idle, isNone_none, if_pos rfl, size, given]
  rfl

def insertRequest (s : ChainSystem longLayout) (current next : SubblockInfo) : ChainRequest :=
  ⟨.insert, .async, headerInfo 1 1, ⟨current, next, s.mm.lastAllocatedInfo⟩, false, false⟩

theorem step_written (s : ChainSystem longLayout) (current next : SubblockInfo)
    (rest : List SubblockInfo) :
    (allocated s current next rest).step (.writeKv 0) =
      some ((allocated s current next rest).write 0 (insertRequest s current next)) :=
  rfl

def insertedOne (s : ChainSystem longLayout) (current next : SubblockInfo)
    (rest : List SubblockInfo) : ChainSystem longLayout :=
  let written := (allocated s current next rest).write 0 (insertRequest s current next)
  { written with requests := update written.requests 0 none }

theorem step_insertedOne (s : ChainSystem longLayout) (current next : SubblockInfo)
    (rest : List SubblockInfo) :
    ((allocated s current next rest).write 0 (insertRequest s current next)).step
      (.finish 0) = some (insertedOne s current next rest) :=
  rfl

theorem inOrder_allocated (s : ChainSystem longLayout) (current next : SubblockInfo)
    (rest : List SubblockInfo) : (allocated s current next rest).InOrder (.writeKv 0) := by
  intro req active
  obtain rfl : insertRequest s current next = req := some.inj active
  change TailTransferred 256 .insert .async (UInt16.ofNat (keyLength (headerInfo 1 1).lAddr))
    (UInt32.ofNat (valueLength (headerInfo 1 1).lAddr))
  decide

theorem requests_insertedOne (idle : ∀ coro, s.requests coro = none) (coro : ℕ) :
    (insertedOne s current next rest).requests coro = none := by
  by_cases same : coro = 0
  · rw [same]
    rfl
  · have kept : (insertedOne s current next rest).requests coro =
        s.requests coro := by
      refine (update_of_ne same _ _).trans ?_
      refine (update_of_ne same _ _).trans ?_
      exact update_of_ne same _ _
    rw [kept]
    exact idle coro

theorem isWritten_insertedOne (written : ∀ entry ∈ s.log, s.isWritten entry.current) :
    ∀ entry ∈ (insertedOne s current next rest).log,
      (insertedOne s current next rest).isWritten entry.current := by
  intro entry mem
  by_cases same : entry.current = current
  · rw [same]
    exact update_self ..
  · have kept : (insertedOne s current next rest).isWritten entry.current =
        s.isWritten entry.current :=
      (update_of_ne same _ _).trans (update_of_ne same _ _)
    rw [kept]
    obtain old | new := mem_append.mp mem
    · exact written entry old
    · exact absurd (congrArg LogAllocCtx.current (mem_singleton.mp new)) same

end Insert

theorem Inserted.next {s : ChainSystem longLayout} {entries : ℕ}
    (inserted : Inserted s entries) (more : entries + 2 ≤ 4192256) :
    ∃ after, Inserted after (entries + 1) := by
  obtain ⟨reached, chained, idle, length, written, total⟩ := inserted
  obtain ⟨current, tail, queue⟩ : ∃ current tail, s.mm.subblockFreeQueue = current :: tail :=
    exists_cons_of_length_pos (by omega)
  obtain ⟨next, rest, rfl⟩ : ∃ next rest, tail = next :: rest := by
    refine exists_cons_of_length_pos ?_
    rw [queue, length_cons] at total
    omega
  have allocates := step_allocated (idle 0) queue
  have fresh : s.FreshBlocks (.mmAlloc 0 .insert .async (headerInfo 1 1) none) := by
    rintro _ ⟨⟩
  refine ⟨insertedOne s current next rest, ?_, ?_, requests_insertedOne idle, ?_,
    isWritten_insertedOne written, ?_⟩
  · have begins : s.Sequential (.mmAlloc 0 .insert .async (headerInfo 1 1) none) :=
      ⟨fresh, by decide, idle⟩
    have writes : (allocated s current next rest).Sequential (.writeKv 0) := ⟨trivial, trivial⟩
    have ends : ((allocated s current next rest).write 0
      (insertRequest s current next)).Sequential (.finish 0) := ⟨trivial, trivial⟩
    have first := reached.next begins allocates
    have second := first.next writes (step_written s current next rest)
    exact second.next ends (step_insertedOne s current next rest)
  · have first := chained.step ⟨fresh, trivial⟩ allocates
    have second := first.writeKv (inOrder_allocated s current next rest)
      (step_written s current next rest)
    exact second.finish (step_insertedOne s current next rest)
  · change (s.log ++ [_]).length = _
    rw [length_append, length_singleton, length]
  · change (next :: rest).length + _ = _
    rw [queue, length_cons] at total
    omega

theorem exists_inserted {entries : ℕ} (bound : entries < 4192256) : ∃ s, Inserted s entries := by
  induction entries with
  | zero => exact inserted_zero
  | succ entries ih =>
    obtain ⟨_, inserted⟩ := ih (by omega)
    exact inserted.next (by omega)

/-- The log of a client that has inserted 2031617 pairs runs out of the buffer. -/
theorem not_recovers_long_log :
    ∃ s : ChainSystem longLayout, Reachable step Sequential IsInitial s ∧
      s.HasEntry ∧ ¬ s.Recovers := by
  obtain ⟨s, inserted⟩ : ∃ s, Inserted s (tailCapacity + 1) := exists_inserted (by decide)
  have chained := inserted.chained
  have long : tailCapacity < (s.log.map LogAllocCtx.current).length := by
    rw [length_map, inserted.length]
    exact Nat.lt_succ_self _
  have linked : ∀ entry ∈ s.log,
      nextSubblock s.memory entry.current = some entry.next := fun entry mem =>
    chained.tails entry mem (inserted.written entry mem)
  have links : (s.log.map LogAllocCtx.current).IsChain fun entry next =>
      nextSubblock s.memory entry = some next := by
    rw [isChain_map, isChain_iff_getElem]
    intro idx bound
    rw [linked _ (getElem_mem _), isChain_iff_getElem.mp chained.links idx bound]
  obtain ⟨first, rest, log⟩ : ∃ first rest, s.log = first :: rest :=
    exists_cons_of_length_pos (by rw [inserted.length]; exact Nat.succ_pos _)
  have mem : first ∈ s.log := log ▸ mem_cons_self
  have begins : (s.log.map LogAllocCtx.current).head? = some first.current := by
    rw [log]
    rfl
  have isHead : s.logHead = some first.current := by
    refine chained.head _ ?_
    rw [sequence, log]
    rfl
  have nonzero : first.current.addr ≠ 0 := by
    obtain ⟨_, -, inside⟩ := chained.owned first.current
      (mem_append_left _ (List.mem_map_of_mem mem))
    exact ClientMMBlock.addr_ne_zero inside
  refine ⟨s, inserted.reached, ⟨first.current, fun zero => ?_⟩, ?_⟩
  · have ends := nextSubblock_of_zero zero
    rw [linked first mem] at ends
    cases ends
  · rintro ⟨_, _, _, logHead, traversed, -⟩
    obtain rfl := some.inj (isHead.symm.trans logHead)
    rw [mmTraverseLog, if_neg nonzero, traverse_eq_none begins links long] at traversed
    cases traversed

end FuseeFs.Memory.ChainSystem
