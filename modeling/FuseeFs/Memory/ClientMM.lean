import FuseeFs.Library.RoundRobin
import FuseeFs.Memory.LogEntry
import FuseeFs.Memory.Metadata

/-!
# A client's subblocks

A client cuts its blocks into subblocks, hands them out to its requests from
the front of a queue (`mm_alloc`) and takes the subblock of a failed insert back
(`mm_free_cur`).  What a request is given says which subblock comes next, so
that the entries in remote memory form a chain.  The requests of one client are
run by coroutines that share the queue.
-/

namespace FuseeFs.Memory

open List Option Function Index Library Library.Bytes Library.Packed
open Replication

/-! ## Blocks and subblocks -/

structure BlockSizes where
  mmBlockSz : ℕ
  subblockSz : ℕ
  subblockSz_pos : 0 < subblockSz
  /-- Subblocks are counted with an `int`. -/
  subblockNum_lt : mmBlockSz / subblockSz < 2 ^ 31

namespace BlockSizes

variable (sizes : BlockSizes)

def subblockNum : ℕ :=
  sizes.mmBlockSz / sizes.subblockSz

def bmapBlockNum : ℕ :=
  let bmapBlockNum := sizes.subblockNum / 8 / sizes.subblockSz
  if bmapBlockNum * 8 * sizes.subblockSz < sizes.subblockNum then bmapBlockNum + 1
  else bmapBlockNum

def getAlignedSize (size : ℕ) : ℕ :=
  if size % sizes.subblockSz = 0 then size
  else (size / sizes.subblockSz + 1) * sizes.subblockSz

theorem bmapBlockNum_pos (some : 0 < sizes.subblockNum) : 0 < sizes.bmapBlockNum := by
  unfold bmapBlockNum
  dsimp only
  split_ifs with short
  · exact Nat.succ_pos _
  · rw [Nat.pos_iff_ne_zero]
    intro zero
    rw [zero] at short
    omega

end BlockSizes

/-- Sizes with which the address of a subblock is one that a log entry can hold. -/
structure Layout extends BlockSizes where
  numMemory : ℕ
  subblockSz_aligned : 256 ∣ subblockSz

@[ext]
structure ClientMMBlock (layout : Layout) where
  serverId : UInt8
  addr : ℕ
  addr_aligned : 256 ∣ addr
  addr_le : addr + layout.mmBlockSz ≤ 2 ^ 48

instance (layout : Layout) : DecidableEq (ClientMMBlock layout) := fun block other =>
  decidable_of_iff (block.serverId = other.serverId ∧ block.addr = other.addr)
    ClientMMBlock.ext_iff.symm

namespace ClientMMBlock

variable {layout : Layout}

theorem offset_lt {idx : ℕ} (bound : idx < layout.subblockNum) :
    idx * layout.subblockSz < layout.mmBlockSz := by
  calc idx * layout.subblockSz
      < layout.subblockNum * layout.subblockSz :=
        Nat.mul_lt_mul_of_pos_right bound layout.subblockSz_pos
    _ ≤ layout.mmBlockSz := Nat.div_mul_le_self _ _

def genSubblockInfo (block : ClientMMBlock layout) (subblockIdx : Fin layout.subblockNum) :
    SubblockInfo where
  serverId := block.serverId
  addr := block.addr + subblockIdx * layout.subblockSz
  addr_aligned := Nat.dvd_add block.addr_aligned (layout.subblockSz_aligned.mul_left _)
  addr_lt := by
    have offset := offset_lt subblockIdx.isLt
    have bound := block.addr_le
    omega

def dataSubblocks (block : ClientMMBlock layout) : List SubblockInfo :=
  ((List.finRange layout.subblockNum).drop layout.bmapBlockNum).map block.genSubblockInfo

theorem genSubblockInfo_injective (block : ClientMMBlock layout) :
    Injective block.genSubblockInfo := by
  intro left right same
  have addrs : block.addr + left * layout.subblockSz = block.addr + right * layout.subblockSz :=
    congrArg SubblockInfo.addr same
  exact Fin.ext (Nat.eq_of_mul_eq_mul_right layout.subblockSz_pos (Nat.add_left_cancel addrs))

theorem nodup_dataSubblocks (block : ClientMMBlock layout) : block.dataSubblocks.Nodup :=
  ((nodup_finRange _).sublist (drop_sublist _ _)).map block.genSubblockInfo_injective

theorem length_dataSubblocks (block : ClientMMBlock layout) :
    block.dataSubblocks.length = layout.subblockNum - layout.bmapBlockNum := by
  simp [dataSubblocks]

variable {block : ClientMMBlock layout} {subblock : SubblockInfo}

theorem addr_ne_zero (mem : subblock ∈ block.dataSubblocks) : subblock.addr ≠ 0 := by
  obtain ⟨idx, dropped, rfl⟩ := List.mem_map.mp mem
  obtain ⟨pos, _, at_position⟩ := mem_drop_iff_getElem.mp dropped
  have positive := layout.bmapBlockNum_pos (Nat.zero_lt_of_lt idx.isLt)
  have value : (idx : ℕ) = layout.bmapBlockNum + pos := by
    rw [← at_position]
    simp
  have product : 0 < (idx : ℕ) * layout.subblockSz := Nat.mul_pos (by omega) layout.subblockSz_pos
  change block.addr + idx * layout.subblockSz ≠ 0
  omega

theorem serverId_eq (mem : subblock ∈ block.dataSubblocks) :
    subblock.serverId = block.serverId := by
  obtain ⟨_, -, rfl⟩ := List.mem_map.mp mem
  rfl

end ClientMMBlock

/-! ## Allocation -/

/-- What `mm_alloc` and `mm_free_cur` do to a client's memory and to the context of
a request. -/
structure SubblockAllocator (Memory Subblock Block AllocCtx : Type) where
  queue : Memory → List Subblock
  setQueue : Memory → List Subblock → Memory
  regNewSpace : Memory → Block → Memory
  /-- `current` becomes the last allocated subblock, and a request is given it with
  the `next` one. -/
  fillCtx (memory : Memory) (current next : Subblock) : Memory × AllocCtx
  current : AllocCtx → Subblock
  /-- The subblock that was allocated before is the last one again. -/
  restore : Memory → AllocCtx → Memory

namespace SubblockAllocator

variable {Memory Subblock Block AllocCtx : Type}
  (allocator : SubblockAllocator Memory Subblock Block AllocCtx) (sizes : BlockSizes)

/-- The end of `mm_alloc`: the subblock that was taken from the queue is given
to a request, with the one that is now at the front. -/
def finish (allocSubblock : Subblock) (memory : Memory) : Option (Memory × Option AllocCtx) :=
  (allocator.queue memory).head?.map fun nextSubblock =>
    (allocator.fillCtx memory allocSubblock nextSubblock).map id some

/-- `mm_alloc`, with the block that `dyn_get_new_block_from_server` gets when the
queue becomes empty.  There is no result if an assertion fails, and no allocation if
the server has no block; the subblock that was taken is lost then. -/
def mmAlloc (memory : Memory) (size : ℕ) (reply : Option Block) :
    Option (Memory × Option AllocCtx) :=
  if sizes.getAlignedSize size / sizes.subblockSz ≠ 1 then none
  else
    match allocator.queue memory with
    | [] => none
    | [allocSubblock] =>
      match reply with
      | none => some (allocator.setQueue memory [], none)
      | some block =>
        allocator.finish allocSubblock (allocator.regNewSpace (allocator.setQueue memory []) block)
    | allocSubblock :: rest => allocator.finish allocSubblock (allocator.setQueue memory rest)

def mmFreeCur (memory : Memory) (ctx : AllocCtx) : Memory :=
  allocator.restore
    (allocator.setQueue memory (allocator.current ctx :: allocator.queue memory)) ctx

variable {allocator sizes}

theorem mmAlloc_cases {memory after : Memory} {size : ℕ} {reply : Option Block}
    {result : Option AllocCtx}
    (allocated : allocator.mmAlloc sizes memory size reply = some (after, result)) :
    sizes.getAlignedSize size / sizes.subblockSz = 1 ∧
      ((∃ lost, allocator.queue memory = [lost] ∧ reply = none ∧
          after = allocator.setQueue memory [] ∧ result = none) ∨
        (∃ current next rest, allocator.queue memory = current :: rest ∧
          (allocator.queue (allocator.setQueue memory rest)).head? = some next ∧
          after = (allocator.fillCtx (allocator.setQueue memory rest) current next).1 ∧
          result = some (allocator.fillCtx (allocator.setQueue memory rest) current next).2) ∨
        ∃ current block next, allocator.queue memory = [current] ∧ reply = some block ∧
          let registered := allocator.regNewSpace (allocator.setQueue memory []) block
          (allocator.queue registered).head? = some next ∧
            after = (allocator.fillCtx registered current next).1 ∧
            result = some (allocator.fillCtx registered current next).2) := by
  unfold mmAlloc at allocated
  split_ifs at allocated with fits
  refine ⟨not_not.mp fits, ?_⟩
  split at allocated
  · cases allocated
  · rename_i current queue
    cases reply with
    | none =>
      cases allocated
      exact .inl ⟨current, queue, rfl, rfl, rfl⟩
    | some block =>
      obtain ⟨next, front, same⟩ := map_eq_some_iff.mp allocated
      cases same
      exact .inr (.inr ⟨current, block, next, queue, rfl, front, rfl, rfl⟩)
  · rename_i current rest more queue
    obtain ⟨next, front, same⟩ := map_eq_some_iff.mp allocated
    cases same
    exact .inr (.inl ⟨current, next, rest, queue, front, rfl, rfl⟩)

end SubblockAllocator

/-- `ClientMM`: the queue of free subblocks, the last one that was allocated and
the table of blocks. -/
structure ClientMM (layout : Layout) where
  subblockFreeQueue : List SubblockInfo
  lastAllocatedInfo : SubblockInfo
  table : BlockTable (ClientMMBlock layout)

namespace ClientMM

variable {layout : Layout}

/-- `dyn_reg_new_space`, followed by `local_reg_blocks`. -/
def dynRegNewSpace (area : MetaArea (ClientMMBlock layout)) (mm : ClientMM layout)
    (block : ClientMMBlock layout) : MetaArea (ClientMMBlock layout) × ClientMM layout :=
  let registered := Memory.dynRegNewSpace (area, mm.table) (.kvBlock block)
  (registered.1, { mm with
    table := registered.2
    subblockFreeQueue := mm.subblockFreeQueue ++ block.dataSubblocks })

def subblockAllocator : SubblockAllocator (MetaArea (ClientMMBlock layout) × ClientMM layout)
    SubblockInfo (ClientMMBlock layout) LogAllocCtx where
  queue memory := memory.2.subblockFreeQueue
  setQueue memory queue := (memory.1, { memory.2 with subblockFreeQueue := queue })
  regNewSpace memory block := memory.2.dynRegNewSpace memory.1 block
  fillCtx memory current next :=
    ((memory.1, { memory.2 with lastAllocatedInfo := current }),
      ⟨current, next, memory.2.lastAllocatedInfo⟩)
  current := LogAllocCtx.current
  restore memory ctx := (memory.1, { memory.2 with lastAllocatedInfo := ctx.prev })

def mmAlloc (area : MetaArea (ClientMMBlock layout)) (mm : ClientMM layout) (size : ℕ)
    (reply : Option (ClientMMBlock layout)) :
    Option (MetaArea (ClientMMBlock layout) × ClientMM layout × Option LogAllocCtx) :=
  (subblockAllocator.mmAlloc layout.toBlockSizes (area, mm) size reply).map fun allocated =>
    (allocated.1.1, allocated.1.2, allocated.2)

def mmFreeCur (area : MetaArea (ClientMMBlock layout)) (mm : ClientMM layout) (ctx : LogAllocCtx) :
    ClientMM layout :=
  (subblockAllocator.mmFreeCur (area, mm) ctx).2

theorem mmAlloc_cases {area after : MetaArea (ClientMMBlock layout)} {mm mm' : ClientMM layout}
    {size : ℕ} {reply : Option (ClientMMBlock layout)} {result : Option LogAllocCtx}
    (allocated : mmAlloc area mm size reply = some (after, mm', result)) :
    layout.getAlignedSize size / layout.subblockSz = 1 ∧
      ((∃ lost, mm.subblockFreeQueue = [lost] ∧ after = area ∧ result = none ∧
          mm' = { mm with subblockFreeQueue := [] }) ∨
        (∃ current next rest, mm.subblockFreeQueue = current :: next :: rest ∧ after = area ∧
          result = some ⟨current, next, mm.lastAllocatedInfo⟩ ∧
          mm' = { mm with subblockFreeQueue := next :: rest, lastAllocatedInfo := current }) ∨
        ∃ current block next rest, mm.subblockFreeQueue = [current] ∧ reply = some block ∧
          block.dataSubblocks = next :: rest ∧
          result = some ⟨current, next, mm.lastAllocatedInfo⟩ ∧
          after = (Memory.dynRegNewSpace (area, mm.table) (.kvBlock block)).1 ∧
          mm' = ⟨next :: rest, current,
            (Memory.dynRegNewSpace (area, mm.table) (.kvBlock block)).2⟩) := by
  obtain ⟨⟨⟨_, _⟩, _⟩, taken, same⟩ := map_eq_some_iff.mp allocated
  cases same
  obtain ⟨fits, ⟨lost, queue, -, s, rfl⟩ | ⟨current, next, rest, queue, front, s, rfl⟩ |
    ⟨current, block, next, queue, rfl, front, s, rfl⟩⟩ :=
    SubblockAllocator.mmAlloc_cases taken
  · cases s
    exact ⟨fits, .inl ⟨lost, queue, rfl, rfl, rfl⟩⟩
  · obtain ⟨others, subblocks⟩ := head?_eq_some_iff.mp front
    obtain rfl : rest = next :: others := subblocks
    cases s
    exact ⟨fits, .inr (.inl ⟨current, next, others, queue, rfl, rfl, rfl⟩)⟩
  · obtain ⟨rest, subblocks⟩ := head?_eq_some_iff.mp front
    obtain subblocks : block.dataSubblocks = next :: rest := subblocks
    cases s
    refine ⟨fits, .inr (.inr ⟨current, block, next, rest, queue, rfl, subblocks, rfl, rfl, ?_⟩)⟩
    simp only [subblockAllocator, dynRegNewSpace, nil_append, subblocks]

end ClientMM

/-! ## The chain in remote memory -/

abbrev Subblocks := SubblockInfo → Image

theorem nextAddr_aligned (subblock : Image) : 256 ∣ (traverseEntry subblock).nextAddr :=
  Dvd.intro _ rfl

theorem nextAddr_lt (subblock : Image) : (traverseEntry subblock).nextAddr < 2 ^ 48 := by
  have bound := ofBytes_lt (load subblock (tailOffset subblock) 5).reverse
  rw [length_reverse, length_load] at bound
  change 256 * ofBytes (load subblock (tailOffset subblock) 5).reverse < 2 ^ 48
  omega

/-- Where the traversal goes from a subblock; it ends at the address 0. -/
def nextSubblock (memory : Subblocks) (subblock : SubblockInfo) : Option SubblockInfo :=
  if (traverseEntry (memory subblock)).nextAddr = 0 then none
  else
    some ⟨(traverseEntry (memory subblock)).nextServerId, (traverseEntry (memory subblock)).nextAddr,
      nextAddr_aligned _, nextAddr_lt _⟩

variable {subblock : SubblockInfo} {reqType : KVRequestType}

theorem nextSubblock_eq_some {memory : Subblocks} {ctx : LogAllocCtx}
    (written : traverseEntry (memory subblock) = tailInfo reqType ctx) (nonzero : ctx.next.addr ≠ 0)
    : nextSubblock memory subblock = some ctx.next := by
  unfold nextSubblock
  simp only [written]
  exact if_neg nonzero

theorem nextSubblock_of_zero {memory : Subblocks} (unwritten : memory subblock = fun _ => 0) :
    nextSubblock memory subblock = none := by
  unfold nextSubblock
  exact if_pos (by rw [unwritten]; rfl)

def Visited (memory : Subblocks) (head subblock : SubblockInfo) : Prop :=
  Relation.ReflTransGen (fun entry next => nextSubblock memory entry = some next) head subblock

/-! ## Coroutines -/

structure ChainRequest where
  reqType : KVRequestType
  variant : Variant
  kvInfo : KVInfo
  mmAllocCtx : LogAllocCtx
  written : Bool
  installed : Bool

/-- How much a request asks `mm_alloc` for.  An asynchronous delete does not
count the value. -/
def kvBlockSize (reqType : KVRequestType) (variant : Variant) (kvInfo : KVInfo) : ℕ :=
  match reqType, variant with
  | .delete, .async => sizeofKVLogHeader + keyLength kvInfo.lAddr + sizeofKVLogTail
  | _, _ => tailOffset kvInfo.lAddr + sizeofKVLogTail

/-- One client with its coroutines, its part of the remote memory and the
subblocks that the index refers to. -/
structure ChainSystem (layout : Layout) where
  area : MetaArea (ClientMMBlock layout)
  mm : ClientMM layout
  memory : Subblocks
  requests : ℕ → Option ChainRequest
  referenced : List SubblockInfo
  /-- What was allocated and not given back, in the order of the allocations. -/
  log : List LogAllocCtx
  isWritten : SubblockInfo → Bool

inductive ChainEvent (layout : Layout)
  | mmAlloc (coro : ℕ) (reqType : KVRequestType) (variant : Variant) (kvInfo : KVInfo)
      (reply : Option (ClientMMBlock layout))
  | writeKv (coro : ℕ)
  | install (coro : ℕ)
  | mmFreeCur (coro : ℕ)
  | finish (coro : ℕ)
  /-- Some client has replaced a slot. -/
  | unreference (subblock : SubblockInfo)
  | mmAllocSubtable (space : ClientMMBlock layout)

namespace ChainSystem

variable {layout : Layout}

def begin (s : ChainSystem layout) (coro : ℕ) (reqType : KVRequestType)
    (variant : Variant) (kvInfo : KVInfo) : Option LogAllocCtx → ChainSystem layout
  | none => s
  | some ctx =>
    { s with
      requests := update s.requests coro
        (some ⟨reqType, variant, kvInfo, ctx, false, false⟩)
      log := s.log ++ [ctx]
      isWritten := update s.isWritten ctx.current false }

def write (s : ChainSystem layout) (coro : ℕ) (req : ChainRequest) :
    ChainSystem layout :=
  let place := req.mmAllocCtx.current
  { s with
    memory := update s.memory place
      ((writeEntry layout.subblockSz req.kvInfo req.mmAllocCtx req.reqType
        req.variant).execute (s.memory place))
    requests := update s.requests coro (some { req with written := true })
    isWritten := update s.isWritten place true }

def refer (s : ChainSystem layout) (coro : ℕ) (req : ChainRequest) :
    ChainSystem layout :=
  { s with
    requests := update s.requests coro (some { req with installed := true })
    referenced := req.mmAllocCtx.current :: s.referenced }

def giveBack (s : ChainSystem layout) (coro : ℕ) (req : ChainRequest) :
    ChainSystem layout :=
  { s with
    mm := s.mm.mmFreeCur s.area req.mmAllocCtx
    requests := update s.requests coro none
    log := s.log.filter fun ctx => ctx.current ≠ req.mmAllocCtx.current }

def step (s : ChainSystem layout) : ChainEvent layout → Option (ChainSystem layout)
  | .mmAlloc coro reqType variant kvInfo reply =>
    if (s.requests coro).isNone then
      (s.mm.mmAlloc s.area (kvBlockSize reqType variant kvInfo) reply).map fun result =>
        { s with area := result.1, mm := result.2.1 }.begin coro reqType variant kvInfo
          result.2.2
    else none
  | .writeKv coro =>
    (s.requests coro).bind fun req =>
      if req.written then none else some (s.write coro req)
  | .install coro =>
    (s.requests coro).bind fun req =>
      if req.written ∧ req.installed = false ∧ req.reqType ≠ .delete then
        some (s.refer coro req)
      else none
  | .mmFreeCur coro =>
    (s.requests coro).bind fun req =>
      if req.reqType = .insert ∧ req.written ∧ req.installed = false then
        some (s.giveBack coro req)
      else none
  | .finish coro =>
    (s.requests coro).bind fun req =>
      if req.written then
        some { s with requests := update s.requests coro none }
      else none
  | .unreference subblock =>
    some { s with referenced := s.referenced.filter (· ≠ subblock) }
  | .mmAllocSubtable space =>
    let registered := Memory.regNewSpace (s.area, s.mm.table) (.subtable space)
    some { s with area := registered.1, mm := { s.mm with table := registered.2 } }

section Fields

variable (s : ChainSystem layout) (coro : ℕ) (req : ChainRequest)

theorem requests_write : (s.write coro req).requests =
    update s.requests coro (some { req with written := true }) :=
  rfl

theorem isWritten_write : (s.write coro req).isWritten =
    update s.isWritten req.mmAllocCtx.current true :=
  rfl

theorem memory_write_self : (s.write coro req).memory req.mmAllocCtx.current =
    (writeEntry layout.subblockSz req.kvInfo req.mmAllocCtx req.reqType
      req.variant).execute (s.memory req.mmAllocCtx.current) :=
  update_self ..

theorem memory_write_of_ne (apart : subblock ≠ req.mmAllocCtx.current) :
    (s.write coro req).memory subblock = s.memory subblock :=
  update_of_ne apart _ _

theorem requests_refer : (s.refer coro req).requests =
    update s.requests coro (some { req with installed := true }) :=
  rfl

end Fields

section Steps

variable {s after : ChainSystem layout} {coro : ℕ}

theorem step_mmAlloc {variant : Variant} {kvInfo : KVInfo} {reply : Option (ClientMMBlock layout)}
    (taken : s.step (.mmAlloc coro reqType variant kvInfo reply) = some after) :
    s.requests coro = none ∧ ∃ area mm result,
      s.mm.mmAlloc s.area (kvBlockSize reqType variant kvInfo) reply = some (area, mm, result) ∧
      after = { s with area := area, mm := mm }.begin coro reqType variant kvInfo result := by
  simp only [step] at taken
  split_ifs at taken with idle
  obtain ⟨⟨area, mm, result⟩, allocated, rfl⟩ := map_eq_some_iff.mp taken
  exact ⟨isNone_iff_eq_none.mp idle, area, mm, result, allocated, rfl⟩

theorem step_writeKv (taken : s.step (.writeKv coro) = some after) :
    ∃ req, s.requests coro = some req ∧ req.written = false ∧ after = s.write coro req := by
  obtain ⟨req, active, taken⟩ := bind_eq_some_iff.mp taken
  split_ifs at taken with written
  exact ⟨req, active, Bool.eq_false_of_not_eq_true written, (some.inj taken).symm⟩

theorem step_install (taken : s.step (.install coro) = some after) :
    ∃ req, s.requests coro = some req ∧ req.written ∧
      req.installed = false ∧ after = s.refer coro req := by
  obtain ⟨req, active, taken⟩ := bind_eq_some_iff.mp taken
  split_ifs at taken with ready
  exact ⟨req, active, ready.1, ready.2.1, (some.inj taken).symm⟩

theorem step_mmFreeCur (taken : s.step (.mmFreeCur coro) = some after) :
    ∃ req, s.requests coro = some req ∧ req.written ∧
      req.installed = false ∧ after = s.giveBack coro req := by
  obtain ⟨req, active, taken⟩ := bind_eq_some_iff.mp taken
  split_ifs at taken with failed
  exact ⟨req, active, failed.2.1, failed.2.2, (some.inj taken).symm⟩

theorem step_finish (taken : s.step (.finish coro) = some after) :
    ∃ req, s.requests coro = some req ∧ req.written ∧
      after = { s with requests := update s.requests coro none } := by
  obtain ⟨req, active, taken⟩ := bind_eq_some_iff.mp taken
  split_ifs at taken with written
  exact ⟨req, active, written, (some.inj taken).symm⟩

end Steps

/-- The constructor of `ClientMM` has registered the first blocks; with more
than one block their subblocks are merged by `init_reg_space`. -/
def start (blocks : List (ClientMMBlock layout)) (lastAllocatedInfo : SubblockInfo) :
    ChainSystem layout :=
  let registered := Memory.initRegSpace (fun _ => none, ⟨0, []⟩) blocks
  { area := registered.1
    mm := ⟨roundRobin (layout.subblockNum - layout.bmapBlockNum)
      (blocks.map ClientMMBlock.dataSubblocks), lastAllocatedInfo, registered.2⟩
    memory := fun _ _ => 0
    requests := fun _ => none
    referenced := []
    log := []
    isWritten := fun _ => false }

def logHead (s : ChainSystem layout) : Option SubblockInfo :=
  s.mm.table.mmBlocks.head?.bind fun block => block.dataSubblocks.head?

def DisjointBlocks (blocks : List (ClientMMBlock layout)) : Prop :=
  (blocks.flatMap ClientMMBlock.dataSubblocks).Nodup

instance (blocks : List (ClientMMBlock layout)) : Decidable (DisjointBlocks blocks) :=
  inferInstanceAs (Decidable (List.Nodup _))

def IsInitial (s : ChainSystem layout) : Prop :=
  ∃ blocks lastAllocatedInfo, s = start blocks lastAllocatedInfo ∧ DisjointBlocks blocks ∧
    ∀ block ∈ blocks, block.serverId.toNat < layout.numMemory

/-- The servers do not hand out memory of the client's blocks again. -/
def FreshBlocks (s : ChainSystem layout) : ChainEvent layout → Prop
  | .mmAlloc _ _ _ _ reply => ∀ block ∈ reply, block.serverId.toNat < layout.numMemory ∧
      ∀ old ∈ s.mm.table.mmBlocks, List.Disjoint block.dataSubblocks old.dataSubblocks
  | _ => True

instance instDecidableDisjointSubblocks (blocks others : List SubblockInfo) :
    Decidable (List.Disjoint blocks others) :=
  decidable_of_iff (∀ subblock ∈ blocks, subblock ∉ others) Iff.rfl

instance (s : ChainSystem layout) : (event : ChainEvent layout) →
    Decidable (s.FreshBlocks event)
  | .mmAlloc _ _ _ _ reply =>
    inferInstanceAs (Decidable (∀ block ∈ reply, block.serverId.toNat < layout.numMemory ∧
      ∀ old ∈ s.mm.table.mmBlocks, List.Disjoint block.dataSubblocks old.dataSubblocks))
  | .writeKv _ | .install _ | .mmFreeCur _ | .finish _ | .unreference _ | .mmAllocSubtable _ =>
    inferInstanceAs (Decidable True)

/-! ## The first blocks -/

theorem mmBlocks_initRegSpace (memory : MetaArea (ClientMMBlock layout) × BlockTable (ClientMMBlock layout))
    (blocks : List (ClientMMBlock layout)) :
    (Memory.initRegSpace memory blocks).2.mmBlocks = memory.2.mmBlocks ++ blocks := by
  induction blocks generalizing memory with
  | nil => exact (append_nil _).symm
  | cons block blocks ih =>
    refine (ih (regInfo memory (.kvBlock block))).trans ?_
    exact append_assoc _ [block] blocks

section Start

variable (blocks : List (ClientMMBlock layout)) (lastAllocatedInfo : SubblockInfo)

theorem mmBlocks_start : (start blocks lastAllocatedInfo).mm.table.mmBlocks = blocks :=
  mmBlocks_initRegSpace _ blocks

theorem subblockFreeQueue_start_perm :
    (start blocks lastAllocatedInfo).mm.subblockFreeQueue.Perm
      (blocks.flatMap ClientMMBlock.dataSubblocks) := by
  rw [flatMap_def]
  apply roundRobin_perm
  intro queue mem
  obtain ⟨block, -, rfl⟩ := List.mem_map.mp mem
  exact block.length_dataSubblocks.le

theorem logHead_start : ∀ subblock ∈ (start blocks lastAllocatedInfo).mm.subblockFreeQueue.head?,
    (start blocks lastAllocatedInfo).logHead = some subblock := by
  intro subblock isFirst
  rw [logHead, mmBlocks_start]
  have nonempty : subblock ∈ blocks.flatMap ClientMMBlock.dataSubblocks :=
    (subblockFreeQueue_start_perm blocks lastAllocatedInfo).mem_iff.mp (mem_of_head? isFirst)
  obtain ⟨someBlock, someListed, inside⟩ := mem_flatMap.mp nonempty
  have positive : 0 < layout.subblockNum - layout.bmapBlockNum := by
    rw [← someBlock.length_dataSubblocks]
    exact length_pos_of_mem inside
  cases blocks with
  | nil => cases someListed
  | cons block blocks =>
    cases subblocks : block.dataSubblocks with
    | nil =>
      have none := block.length_dataSubblocks
      rw [subblocks, length_nil] at none
      omega
    | cons first rest =>
      have front := isFirst
      simp only [start, map_cons, subblocks] at front
      rw [head?_roundRobin positive] at front
      rw [head?_cons, bind_some, subblocks, head?_cons]
      exact front

end Start

end ChainSystem

end FuseeFs.Memory
