import FuseeFs.Memory.LogChain
import FuseeFs.Memory.Placement

/-!
# The pool of free subblocks

The allocator of a client with all replicas of its blocks.  Subblocks come into
the queue with the blocks that are registered, one by one or merged, and when an
allocation is given back; they leave it at the front.
-/

namespace FuseeFs.Memory.Pool

open List Option Library Memory.Placement

/-! ## Blocks with their replicas -/

structure Replica where
  serverId : UInt8
  addr : UInt64
  rkey : UInt32
deriving DecidableEq, Repr

/-- `ClientMMBlock`: `mr_info_list` and `server_id_list`. -/
abbrev Block := List Replica

abbrev Subblock := List Replica

section Sizes

variable (layout : BlockSizes)

def genSubblock (block : Block) (index : ℕ) : Subblock :=
  block.map fun replica =>
    { replica with addr := replica.addr + UInt64.ofNat (index * layout.subblockSz) }

/-- The loop from `bmap_block_num_` to `subblock_num_`. -/
def dataSubblocks (block : Block) : List Subblock :=
  ((List.range layout.subblockNum).drop layout.bmapBlockNum).map (genSubblock layout block)

theorem mem_dataSubblocks {block : Block} {subblock : Subblock} :
    subblock ∈ dataSubblocks layout block ↔ ∃ index, layout.bmapBlockNum ≤ index ∧
      index < layout.subblockNum ∧ subblock = genSubblock layout block index := by
  rw [dataSubblocks, List.mem_map]
  refine exists_congr fun index => ?_
  rw [mem_drop_iff_getElem]
  constructor
  · rintro ⟨⟨_, bound, at_position⟩, rfl⟩
    rw [getElem_range] at at_position
    rw [length_range] at bound
    exact ⟨by omega, by omega, rfl⟩
  · rintro ⟨_, _, rfl⟩
    refine ⟨⟨index - layout.bmapBlockNum, ?_, ?_⟩, rfl⟩
    · rw [length_range]
      omega
    · rw [getElem_range]
      omega

theorem length_dataSubblocks (block : Block) :
    (dataSubblocks layout block).length = layout.subblockNum - layout.bmapBlockNum := by
  rw [dataSubblocks, length_map, length_drop, length_range]

end Sizes

/-! ## The allocator -/

structure ClientMM where
  subblockFreeQueue : List Subblock
  lastAllocatedInfo : Subblock
  mmBlocks : List Block
deriving DecidableEq, Repr

/-- `ClientMMAllocCtx`.  The addresses of the neighbours are tagged with their
servers. -/
structure AllocCtx where
  /-- `addr_list`, `rkey_list` and `server_id_list` -/
  current : Subblock
  nextAddrList : List UInt64
  nextRkeyList : List UInt32
  prevAddrList : List UInt64
  prevRkeyList : List UInt32
  numSubblocks : ℕ
  needChangePrev : Bool
deriving DecidableEq, Repr

/-- `addr_list[i] | server_id_list[i]` -/
def tagReplica (replica : Replica) : UInt64 :=
  tagged (replica.serverId, replica.addr)

namespace ClientMM

variable (layout : BlockSizes)

def localRegBlocks (mm : ClientMM) (block : Block) : ClientMM :=
  { mm with
    subblockFreeQueue := mm.subblockFreeQueue ++ dataSubblocks layout block
    mmBlocks := mm.mmBlocks ++ [block] }

def initRegSpace (mm : ClientMM) (blocks : List Block) : ClientMM :=
  { mm with
    subblockFreeQueue := mm.subblockFreeQueue ++
      roundRobin (layout.subblockNum - layout.bmapBlockNum) (blocks.map (dataSubblocks layout))
    mmBlocks := mm.mmBlocks ++ blocks }

def subblockAllocator : SubblockAllocator ClientMM Subblock Block AllocCtx where
  queue := subblockFreeQueue
  setQueue mm queue := { mm with subblockFreeQueue := queue }
  regNewSpace := localRegBlocks layout
  fillCtx mm current next :=
    ({ mm with lastAllocatedInfo := current },
      { current := current
        nextAddrList := next.map tagReplica
        nextRkeyList := next.map Replica.rkey
        prevAddrList := mm.lastAllocatedInfo.map tagReplica
        prevRkeyList := mm.lastAllocatedInfo.map Replica.rkey
        numSubblocks := 1
        needChangePrev := false })
  current := AllocCtx.current
  restore mm ctx :=
    { mm with
      lastAllocatedInfo := List.zipWith
        (fun addr rkey => ⟨taggedSid addr, taggedAddr addr, rkey⟩) ctx.prevAddrList
        ctx.prevRkeyList }

/-- Without a block `addr_list[0]` becomes 0. -/
def mmAlloc (mm : ClientMM) (size : ℕ) (reply : Option Block) :
    Option (ClientMM × Option AllocCtx) :=
  (subblockAllocator layout).mmAlloc layout mm size reply

def mmFreeCur (mm : ClientMM) (ctx : AllocCtx) : ClientMM :=
  (subblockAllocator layout).mmFreeCur mm ctx

variable {layout} {mm after : ClientMM} {size : ℕ} {reply : Option Block}
  {result : Option AllocCtx}

theorem mmAlloc_cases (allocated : mm.mmAlloc layout size reply = some (after, result)) :
    (∃ lost, mm.subblockFreeQueue = [lost] ∧ reply = none ∧ result = none ∧
        after = { mm with subblockFreeQueue := [] }) ∨
      (∃ current next rest ctx, mm.subblockFreeQueue = current :: next :: rest ∧
        result = some ctx ∧ ctx.current = current ∧ after.subblockFreeQueue = next :: rest ∧
        after.mmBlocks = mm.mmBlocks) ∨
      ∃ current block ctx, mm.subblockFreeQueue = [current] ∧ reply = some block ∧
        result = some ctx ∧ ctx.current = current ∧
        after.subblockFreeQueue = dataSubblocks layout block ∧ after.subblockFreeQueue ≠ [] ∧
        after.mmBlocks = mm.mmBlocks ++ [block] := by
  obtain ⟨-, ⟨lost, queue, rfl, rfl, rfl⟩ | ⟨current, next, rest, queue, front, rfl, rfl⟩ |
    ⟨current, block, next, queue, rfl, front, rfl, rfl⟩⟩ := SubblockAllocator.mmAlloc_cases allocated
  · exact .inl ⟨lost, queue, rfl, rfl, rfl⟩
  · obtain ⟨others, subblocks⟩ := head?_eq_some_iff.mp front
    obtain rfl : rest = next :: others := subblocks
    exact .inr (.inl ⟨current, next, others, _, queue, rfl, rfl, rfl, rfl⟩)
  · refine .inr (.inr ⟨current, block, _, queue, rfl, rfl, rfl, rfl, ?_, rfl⟩)
    exact ne_nil_of_mem (mem_of_mem_head? front)

end ClientMM

section Geometry

variable (layout : BlockSizes)

def Apart (left right : Replica) : Prop :=
  left.serverId = right.serverId →
    left.addr.toNat + layout.mmBlockSz ≤ right.addr.toNat ∨
      right.addr.toNat + layout.mmBlockSz ≤ left.addr.toNat

instance (left right : Replica) : Decidable (Apart layout left right) :=
  inferInstanceAs (Decidable (_ → _))

theorem apart_symm {left right : Replica} (apart : Apart layout left right) :
    Apart layout right left :=
  fun same => (apart same.symm).symm

@[mk_iff]
structure ValidBlocks (blocks : List Block) : Prop where
  apart : blocks.flatten.Pairwise (Apart layout)
  nonempty : ∀ block ∈ blocks, block ≠ []
  fits : ∀ replica ∈ blocks.flatten, replica.addr.toNat + layout.mmBlockSz ≤ 2 ^ 64

instance (blocks : List Block) : Decidable (ValidBlocks layout blocks) :=
  decidable_of_iff _ (validBlocks_iff layout blocks).symm

theorem ValidBlocks.of_append {layout : BlockSizes} {blocks others : List Block}
    (valid : ValidBlocks layout (blocks ++ others)) : ValidBlocks layout blocks := by
  have apart := valid.apart
  rw [flatten_append] at apart
  refine ⟨(pairwise_append.mp apart).1, fun block mem => ?_, fun replica mem => ?_⟩
  · exact valid.nonempty block (mem_append_left _ mem)
  · refine valid.fits replica ?_
    rw [flatten_append]
    exact mem_append_left _ mem

variable {layout} {blocks : List Block} (valid : ValidBlocks layout blocks) {index otherIndex : ℕ}
  (bound : index < layout.subblockNum) (otherBound : otherIndex < layout.subblockNum)

theorem end_le (bound : index < layout.subblockNum) :
    index * layout.subblockSz + layout.subblockSz ≤ layout.mmBlockSz := by
  rw [← Nat.succ_mul]
  exact (Nat.mul_le_mul_right _ bound).trans (Nat.div_mul_le_self _ _)

include valid bound

theorem toNat_subblockAddr {replica : Replica} (mem : replica ∈ blocks.flatten) :
    (replica.addr + UInt64.ofNat (index * layout.subblockSz)).toNat =
      replica.addr.toNat + index * layout.subblockSz := by
  have fits := valid.fits replica mem
  have inside := end_le bound
  have pos := layout.subblockSz_pos
  have offset : (UInt64.ofNat (index * layout.subblockSz)).toNat = index * layout.subblockSz :=
    UInt64.toNat_ofNat_of_lt' (show _ < 2 ^ 64 by omega)
  rw [UInt64.toNat_add, offset]
  omega

theorem nodup_flatten : blocks.flatten.Nodup := by
  have inside := end_le bound
  have pos := layout.subblockSz_pos
  refine valid.apart.imp fun {left right} apart same => ?_
  have ends := apart (congrArg Replica.serverId same)
  rw [same] at ends
  omega

variable {block other : Block} (mem : block ∈ blocks) (otherListed : other ∈ blocks)
  {replica otherReplica : Replica} (inBlock : replica ∈ block) (inOther : otherReplica ∈ other)

include mem otherListed inBlock inOther in
theorem eq_or_apart :
    (block = other ∧ replica = otherReplica) ∨ Apart layout replica otherReplica := by
  have symmetric : Std.Symm (Apart layout) := ⟨fun _ _ => apart_symm layout⟩
  by_cases same : replica = otherReplica
  · subst same
    exact .inl ⟨eq_of_mem_of_nodup_flatten (nodup_flatten valid bound) mem otherListed inBlock
      inOther, rfl⟩
  · exact .inr (valid.apart.forall (mem_flatten_of_mem mem inBlock)
      (mem_flatten_of_mem otherListed inOther) same)

include otherBound mem otherListed

theorem genSubblock_inj
    (same : genSubblock layout block index = genSubblock layout other otherIndex) :
    block = other ∧ index = otherIndex := by
  obtain ⟨replica, inBlock⟩ := exists_mem_of_ne_nil block (valid.nonempty block mem)
  obtain ⟨otherReplica, inOther, equal⟩ : ∃ otherReplica ∈ other,
      { otherReplica with
        addr := otherReplica.addr + UInt64.ofNat (otherIndex * layout.subblockSz) } =
      { replica with addr := replica.addr + UInt64.ofNat (index * layout.subblockSz) } := by
    have mem : { replica with addr := replica.addr + UInt64.ofNat (index * layout.subblockSz) } ∈
        genSubblock layout other otherIndex := same ▸ List.mem_map_of_mem inBlock
    exact List.mem_map.mp mem
  obtain ⟨server, addr, -⟩ := Replica.mk.inj equal
  have sum := congrArg UInt64.toNat addr
  rw [toNat_subblockAddr valid bound (mem_flatten_of_mem mem inBlock),
    toNat_subblockAddr valid otherBound (mem_flatten_of_mem otherListed inOther)] at sum
  have inside := end_le bound
  have otherInside := end_le otherBound
  have pos := layout.subblockSz_pos
  obtain ⟨rfl, rfl⟩ | apart := eq_or_apart valid bound mem otherListed inBlock inOther
  · exact ⟨rfl, Nat.eq_of_mul_eq_mul_right pos (by omega)⟩
  · have ends := apart server.symm
    omega

theorem subblocks_apart (ne : block ≠ other ∨ index ≠ otherIndex)
    {left right : Replica} (inLeft : left ∈ genSubblock layout block index)
    (inRight : right ∈ genSubblock layout other otherIndex) (server : left.serverId = right.serverId) :
    left.addr.toNat + layout.subblockSz ≤ right.addr.toNat ∨
      right.addr.toNat + layout.subblockSz ≤ left.addr.toNat := by
  obtain ⟨_, inBlock, rfl⟩ := List.mem_map.mp inLeft
  obtain ⟨_, inOther, rfl⟩ := List.mem_map.mp inRight
  dsimp only at server ⊢
  rw [toNat_subblockAddr valid bound (mem_flatten_of_mem mem inBlock),
    toNat_subblockAddr valid otherBound (mem_flatten_of_mem otherListed inOther)]
  have inside := end_le bound
  have otherInside := end_le otherBound
  obtain ⟨rfl, rfl⟩ | apart := eq_or_apart valid bound mem otherListed inBlock inOther
  · rcases Nat.lt_or_gt_of_ne (ne.resolve_left fun unequal => unequal rfl) with less | more
    · have next := Nat.mul_le_mul_right layout.subblockSz (Nat.succ_le_of_lt less)
      rw [Nat.succ_mul] at next
      omega
    · have next := Nat.mul_le_mul_right layout.subblockSz (Nat.succ_le_of_lt more)
      rw [Nat.succ_mul] at next
      omega
  · have ends := apart server
    omega

end Geometry

/-! ## Free and allocated subblocks -/

/-- Subblocks that are listed once, each of them behind the bitmap of one of the
blocks. -/
structure Exclusive (layout : BlockSizes) (blocks : List Block) (entries : List Subblock) : Prop where
  valid : ValidBlocks layout blocks
  nodup : entries.Nodup
  data : ∀ subblock ∈ entries, ∃ block ∈ blocks, subblock ∈ dataSubblocks layout block

namespace Exclusive

variable {layout : BlockSizes} {blocks : List Block} {entries others : List Subblock}

theorem subperm (exclusive : Exclusive layout blocks entries) (fewer : others.Subperm entries) :
    Exclusive layout blocks others := by
  refine ⟨exclusive.valid, ?_, fun subblock mem =>
    exclusive.data subblock (fewer.subset mem)⟩
  obtain ⟨_, perm, sublist⟩ := fewer
  exact perm.nodup_iff.mp (exclusive.nodup.sublist sublist)

theorem register (exclusive : Exclusive layout blocks entries) {block : Block}
    (valid : ValidBlocks layout (blocks ++ [block]))
    (more : others.Perm (entries ++ dataSubblocks layout block)) :
    Exclusive layout (blocks ++ [block]) others := by
  have last : block ∈ blocks ++ [block] := mem_append_right _ mem_cons_self
  refine ⟨valid, more.nodup_iff.mpr (nodup_append'.mpr ⟨exclusive.nodup, ?_, ?_⟩), ?_⟩
  · refine List.Nodup.map_on ?_ (nodup_range.sublist (drop_sublist _ _))
    intro index inRange other otherInRange same
    exact (genSubblock_inj valid (mem_range.mp (mem_of_mem_drop inRange))
      (mem_range.mp (mem_of_mem_drop otherInRange)) last last same).2
  · -- a subblock of an old block is in none of the new ones
    intro subblock old new
    obtain ⟨oldBlock, oldListed, inside⟩ := exclusive.data subblock old
    obtain ⟨_, -, bound, rfl⟩ := (mem_dataSubblocks layout).mp inside
    obtain ⟨_, -, otherBound, same⟩ := (mem_dataSubblocks layout).mp new
    obtain ⟨rfl, -⟩ :=
      genSubblock_inj valid bound otherBound (mem_append_left _ oldListed) last same
    obtain ⟨_, inBlock⟩ := exists_mem_of_ne_nil _ (valid.nonempty _ last)
    have nodup := nodup_flatten valid bound
    rw [flatten_append, flatten_singleton] at nodup
    exact (nodup_append'.mp nodup).2.2 (mem_flatten_of_mem oldListed inBlock) inBlock
  · intro subblock mem
    obtain old | new := mem_append.mp (more.mem_iff.mp mem)
    · obtain ⟨oldBlock, oldListed, inside⟩ := exclusive.data subblock old
      exact ⟨oldBlock, mem_append_left _ oldListed, inside⟩
    · exact ⟨block, last, new⟩

theorem initial (valid : ValidBlocks layout blocks)
    (merged : entries.Perm (blocks.flatMap (dataSubblocks layout))) :
    Exclusive layout blocks entries := by
  refine subperm ?_ merged.subperm
  clear merged
  induction blocks using List.reverseRecOn with
  | nil => exact ⟨valid, nodup_nil, fun _ mem => absurd mem not_mem_nil⟩
  | append_singleton blocks block ih =>
    refine (ih valid.of_append).register valid ?_
    rw [flatMap_append, flatMap_singleton]

end Exclusive

/-! ## Coroutines -/

/-- The allocator and the allocations that were not given back, each with the
coroutine that has it. -/
structure PoolSystem where
  mm : ClientMM
  live : List (ℕ × AllocCtx)
deriving DecidableEq, Repr

inductive PoolEvent
  | mmAlloc (coro size : ℕ) (reply : Option Block)
  /-- A block is registered outside of `mm_alloc`. -/
  | regNewSpace (block : Block)
  | mmFreeCur (allocation : ℕ × AllocCtx)

def PoolEvent.block? : PoolEvent → Option Block
  | .mmAlloc _ _ reply => reply
  | .regNewSpace block => some block
  | .mmFreeCur _ => none

namespace PoolSystem

variable (layout : BlockSizes)

def step (s : PoolSystem) : PoolEvent → Option PoolSystem
  | .mmAlloc coro size reply =>
    (s.mm.mmAlloc layout size reply).map fun allocated =>
      ⟨allocated.1, allocated.2.toList.map (coro, ·) ++ s.live⟩
  | .regNewSpace block => some { s with mm := s.mm.localRegBlocks layout block }
  | .mmFreeCur allocation =>
    if allocation ∈ s.live then
      some ⟨s.mm.mmFreeCur layout allocation.2, s.live.erase allocation⟩
    else none

def start (blocks : List Block) (lastAllocatedInfo : Subblock) : PoolSystem :=
  ⟨ClientMM.initRegSpace layout ⟨[], lastAllocatedInfo, []⟩ blocks, []⟩

def IsInitial (s : PoolSystem) : Prop :=
  ∃ blocks lastAllocatedInfo, s = start layout blocks lastAllocatedInfo ∧ ValidBlocks layout blocks

def Fresh (s : PoolSystem) (event : PoolEvent) : Prop :=
  ∀ block ∈ event.block?, ValidBlocks layout (s.mm.mmBlocks ++ [block])

instance (s : PoolSystem) (event : PoolEvent) : Decidable (s.Fresh layout event) :=
  inferInstanceAs (Decidable (∀ block ∈ event.block?, _))

def entries (s : PoolSystem) : List Subblock :=
  s.mm.subblockFreeQueue ++ s.live.map fun allocation => allocation.2.current

def IsExclusive (s : PoolSystem) : Prop :=
  Exclusive layout s.mm.mmBlocks s.entries

variable {layout} {s after : PoolSystem}

theorem isExclusive_start {blocks : List Block} (valid : ValidBlocks layout blocks)
    (lastAllocatedInfo : Subblock) : (start layout blocks lastAllocatedInfo).IsExclusive layout := by
  have merged : (start layout blocks lastAllocatedInfo).entries =
      roundRobin (layout.subblockNum - layout.bmapBlockNum)
        (blocks.map (dataSubblocks layout)) := append_nil _
  rw [IsExclusive, merged]
  refine .initial valid (roundRobin_perm fun queue mem => ?_)
  obtain ⟨block, -, rfl⟩ := List.mem_map.mp mem
  exact (length_dataSubblocks layout block).le

theorem isExclusive_step {event : PoolEvent} (exclusive : s.IsExclusive layout)
    (fresh : s.Fresh layout event) (taken : s.step layout event = some after) :
    after.IsExclusive layout := by
  rw [IsExclusive] at exclusive ⊢
  cases event with
  | mmAlloc coro size reply =>
    obtain ⟨⟨_, _⟩, allocated, rfl⟩ := map_eq_some_iff.mp taken
    obtain ⟨lost, queue, -, rfl, rfl⟩ | ⟨current, _, _, ctx, queue, rfl, rfl, tail, blocks⟩ |
      ⟨_, block, _, queue, rfl, rfl, rfl, tail, -, blocks⟩ := ClientMM.mmAlloc_cases allocated
    · have mem : s.entries =
          lost :: s.live.map fun allocation => allocation.2.current := by
        rw [entries, queue, singleton_append]
      refine exclusive.subperm (List.Sublist.subperm ?_)
      rw [mem]
      exact sublist_cons_self _ _
    · rw [blocks]
      refine exclusive.subperm (List.Perm.subperm ?_)
      rw [entries, tail, entries, queue]
      exact perm_middle
    · rw [blocks]
      refine exclusive.register (fresh block rfl) ?_
      rw [entries, tail, entries, queue]
      exact perm_append_comm
  | regNewSpace block =>
    obtain rfl := some.inj taken
    refine exclusive.register (fresh block rfl) ?_
    rw [entries, entries, append_assoc]
    refine List.Perm.trans ?_ (perm_append_comm.append_left _)
    rw [← append_assoc]
    exact List.Perm.refl _
  | mmFreeCur allocation =>
    simp only [step] at taken
    split_ifs at taken with mem
    obtain rfl := some.inj taken
    refine exclusive.subperm (List.Perm.subperm ?_)
    have once := (perm_cons_erase mem).map fun allocation => allocation.2.current
    exact perm_middle.symm.trans (once.symm.append_left _)

structure PoolSound (layout : BlockSizes) (s : PoolSystem) : Prop where
  distinct : s.entries.Nodup
  /-- They do not share memory on any server either. -/
  apart : s.entries.Pairwise fun left right => ∀ replica ∈ left, ∀ other ∈ right,
    replica.serverId = other.serverId →
      replica.addr.toNat + layout.subblockSz ≤ other.addr.toNat ∨
        other.addr.toNat + layout.subblockSz ≤ replica.addr.toNat
  notBitmap : ∀ subblock ∈ s.entries, ∀ block ∈ s.mm.mmBlocks,
    ∀ index < layout.bmapBlockNum, subblock ≠ genSubblock layout block index
  sameOffset : ∀ subblock ∈ s.entries, ∃ block ∈ s.mm.mmBlocks, ∃ index,
    layout.bmapBlockNum ≤ index ∧ index < layout.subblockNum ∧
      subblock = genSubblock layout block index

theorem poolSound_of_isExclusive (exclusive : s.IsExclusive layout) : PoolSound layout s := by
  have place : ∀ subblock ∈ s.entries, ∃ block ∈ s.mm.mmBlocks, ∃ index,
      layout.bmapBlockNum ≤ index ∧ index < layout.subblockNum ∧
        subblock = genSubblock layout block index := by
    intro subblock mem
    obtain ⟨block, registered, inside⟩ := exclusive.data subblock mem
    exact ⟨block, registered, (mem_dataSubblocks layout).mp inside⟩
  refine ⟨exclusive.nodup, ?_, ?_, place⟩
  · refine exclusive.nodup.pairwise_of_forall_ne fun left mem right otherListed ne => ?_
    obtain ⟨block, registered, index, -, bound, rfl⟩ := place left mem
    obtain ⟨other, otherRegistered, otherIndex, -, otherBound, rfl⟩ := place right otherListed
    intro replica inLeft otherReplica inRight
    refine subblocks_apart exclusive.valid bound otherBound registered otherRegistered ?_ inLeft
      inRight
    by_contra same
    obtain ⟨rfl, rfl⟩ : block = other ∧ index = otherIndex := by
      rw [not_or, not_not, not_not] at same
      exact same
    exact ne rfl
  · intro subblock mem other otherRegistered index isBitmap same
    obtain ⟨_, registered, _, _, bound, rfl⟩ := place subblock mem
    have equal := (genSubblock_inj exclusive.valid bound (by omega) registered otherRegistered same).2
    omega

/-- In every run the subblocks of the queue and those that are in use are
different. -/
theorem poolSound_of_reachable
    (reachable : Reachable (step layout) (Fresh layout) (IsInitial layout) s) :
    PoolSound layout s := by
  have exclusive : s.IsExclusive layout := by
    refine reachable.invariant ?_ fun _ _ _ => isExclusive_step
    rintro _ ⟨_, lastAllocatedInfo, rfl, valid⟩
    exact isExclusive_start valid lastAllocatedInfo
  exact poolSound_of_isExclusive exclusive

def poolBlock (addr : UInt64) : Block :=
  [⟨0, addr, 7⟩, ⟨1, addr, 8⟩]

def smallSizes : BlockSizes :=
  ChainSystem.smallLayout.toBlockSizes

def poolCtx (addr : UInt64) : AllocCtx where
  current := genSubblock smallSizes (poolBlock addr) 1
  nextAddrList := (genSubblock smallSizes (poolBlock addr) 2).map tagReplica
  nextRkeyList := [7, 8]
  prevAddrList := []
  prevRkeyList := []
  numSubblocks := 1
  needChangePrev := false

theorem poolSound_of_reachable_newBlock :
    ∃ s, Reachable (step smallSizes) (Fresh smallSizes) (IsInitial smallSizes) s ∧
      (s.mm.subblockFreeQueue.length = 4 ∧ s.live.length = 2) ∧
      PoolSound smallSizes s := by
  have initial : IsInitial smallSizes (start smallSizes [poolBlock 0x28000000] []) :=
    ⟨_, [], rfl, by decide⟩
  obtain ⟨s, reachable, lengths⟩ := Reachable.exists_of_run (step smallSizes)
    (Fresh smallSizes)
    [.mmAlloc 0 256 none, .mmAlloc 1 256 none, .mmAlloc 2 256 (some (poolBlock 0x28000400)),
      .mmFreeCur (0, poolCtx 0x28000000)]
    (fun s => s.mm.subblockFreeQueue.length = 4 ∧ s.live.length = 2) initial
    (by decide +kernel)
  exact ⟨s, reachable, lengths, poolSound_of_reachable reachable⟩

/-! ## Allocations that fail -/

def Started (layout : BlockSizes) (s : PoolSystem) : Prop :=
  ∃ blocks lastAllocatedInfo, s = start layout blocks lastAllocatedInfo ∧ blocks ≠ []

def Answered (s : PoolSystem) : PoolEvent → Prop
  | .mmAlloc _ _ reply => 1 < s.mm.subblockFreeQueue.length ∨ reply.isSome
  | _ => True

instance (s : PoolSystem) : (event : PoolEvent) → Decidable (s.Answered event)
  | .mmAlloc _ _ _ => inferInstanceAs (Decidable (_ ∨ _))
  | .regNewSpace _ | .mmFreeCur _ => inferInstanceAs (Decidable True)

/-- The call passes its assertions, changes nothing if it reports a failure, and
leaves a subblock for the next one. -/
def AllocAtomic (layout : BlockSizes) (mm : ClientMM) (size : ℕ) (reply : Option Block) : Prop :=
  ∃ after result, mm.mmAlloc layout size reply = some (after, result) ∧
    (result = none → after.subblockFreeQueue = mm.subblockFreeQueue ∧
      after.lastAllocatedInfo = mm.lastAllocatedInfo) ∧
    after.subblockFreeQueue ≠ []

section Failures

variable (hasData : layout.bmapBlockNum < layout.subblockNum)
include hasData

theorem dataSubblocks_ne_nil (block : Block) : dataSubblocks layout block ≠ [] := by
  refine ne_nil_of_length_pos ?_
  rw [length_dataSubblocks]
  omega

theorem queue_ne_nil (reachable : Reachable (step layout) Answered (Started layout) s) :
    s.mm.subblockFreeQueue ≠ [] := by
  refine @Reachable.invariant PoolSystem PoolEvent _ _ _
    (fun s => s.mm.subblockFreeQueue ≠ []) s reachable ?_ ?_
  · rintro _ ⟨blocks, _, rfl, nonempty⟩ empty
    obtain ⟨block, mem⟩ := exists_mem_of_ne_nil blocks nonempty
    have merged : (roundRobin (layout.subblockNum - layout.bmapBlockNum)
        (blocks.map (dataSubblocks layout))).Perm (blocks.map (dataSubblocks layout)).flatten := by
      refine roundRobin_perm fun queue mem => ?_
      obtain ⟨block, -, rfl⟩ := List.mem_map.mp mem
      exact (length_dataSubblocks layout block).le
    have none : roundRobin (layout.subblockNum - layout.bmapBlockNum)
        (blocks.map (dataSubblocks layout)) = [] := empty
    rw [none] at merged
    exact dataSubblocks_ne_nil hasData block
      (List.flatten_eq_nil_iff.mp merged.nil_eq.symm _ (List.mem_map_of_mem mem))
  · intro s event after nonempty answered taken
    cases event with
    | mmAlloc coro size reply =>
      obtain ⟨⟨_, _⟩, allocated, rfl⟩ := map_eq_some_iff.mp taken
      obtain ⟨_, queue, rfl, -, -⟩ | ⟨current, _, _, ctx, -, -, -, tail, -⟩ |
        ⟨_, block, _, -, -, -, -, -, tail, -⟩ := ClientMM.mmAlloc_cases allocated
      · rw [Answered, queue] at answered
        exact absurd answered (by simp)
      · rw [tail]
        exact cons_ne_nil _ _
      · exact tail
    | regNewSpace block =>
      obtain rfl := some.inj taken
      exact append_ne_nil_of_left_ne_nil nonempty _
    | mmFreeCur allocation =>
      simp only [step] at taken
      split_ifs at taken
      obtain rfl := some.inj taken
      exact cons_ne_nil _ _

/-- A call fails halfway if it takes the last subblock and gets no block. -/
theorem allocAtomic_iff (reachable : Reachable (step layout) Answered (Started layout) s) :
    s.mm.subblockFreeQueue ≠ [] ∧ ∀ size reply,
      layout.getAlignedSize size / layout.subblockSz = 1 →
        (AllocAtomic layout s.mm size reply ↔
          1 < s.mm.subblockFreeQueue.length ∨ reply.isSome) := by
  have nonempty := queue_ne_nil hasData reachable
  refine ⟨nonempty, fun size reply fits => ?_⟩
  obtain ⟨_, rest, queue⟩ := exists_cons_of_ne_nil nonempty
  cases rest with
  | cons next rest =>
    refine iff_of_true ?_ (.inl (by rw [queue]; simp))
    simp [AllocAtomic, ClientMM.mmAlloc, SubblockAllocator.mmAlloc, SubblockAllocator.finish,
      ClientMM.subblockAllocator, fits, queue]
  | nil =>
    cases reply with
    | none =>
      refine iff_of_false ?_ (by rw [queue]; simp)
      simp [AllocAtomic, ClientMM.mmAlloc, SubblockAllocator.mmAlloc, ClientMM.subblockAllocator, fits,
        queue]
    | some block =>
        refine iff_of_true ?_ (.inr rfl)
        obtain ⟨_, _, data⟩ := exists_cons_of_ne_nil (dataSubblocks_ne_nil hasData block)
        simp [AllocAtomic, ClientMM.mmAlloc, SubblockAllocator.mmAlloc, SubblockAllocator.finish,
      ClientMM.subblockAllocator, ClientMM.localRegBlocks, fits, queue, data]

end Failures

theorem allocAtomic_iff_lastSubblock :
    ∃ s, Reachable (step smallSizes) Answered (Started smallSizes)
        s ∧ s.mm.subblockFreeQueue.length = 1 ∧
      AllocAtomic smallSizes s.mm 256 (some (poolBlock 0x28000400)) := by
  have started : Started smallSizes
      (start smallSizes [poolBlock 0x28000000] []) :=
    ⟨_, [], rfl, cons_ne_nil _ _⟩
  obtain ⟨s, reachable, length⟩ := Reachable.exists_of_run (step smallSizes)
    Answered [.mmAlloc 0 256 none, .mmAlloc 1 256 none]
    (fun s => s.mm.subblockFreeQueue.length = 1) started (by decide +kernel)
  exact ⟨s, reachable, length,
    ((allocAtomic_iff (by decide) reachable).2 256 _ (by decide)).mpr (.inr rfl)⟩

/-- The last subblock is lost, and the next call finds the queue empty. -/
theorem not_allocAtomic_refused :
    ∃ s, Reachable (step smallSizes) (fun _ _ => True)
        (Started smallSizes) s ∧ s.mm.subblockFreeQueue.length = 1 ∧
      s.mm.mmAlloc smallSizes 256 none = some ({ s.mm with subblockFreeQueue := [] }, none) ∧
      ∀ reply, ClientMM.mmAlloc smallSizes
        { s.mm with subblockFreeQueue := [] } 256 reply = none := by
  have started : Started smallSizes
      (start smallSizes [poolBlock 0x28000000] []) :=
    ⟨_, [], rfl, cons_ne_nil _ _⟩
  obtain ⟨s, reachable, length, refused⟩ := Reachable.exists_of_run
    (step smallSizes) (fun _ _ => True) [.mmAlloc 0 256 none, .mmAlloc 1 256 none]
    (fun s => s.mm.subblockFreeQueue.length = 1 ∧
      s.mm.mmAlloc smallSizes 256 none =
        some ({ s.mm with subblockFreeQueue := [] }, none)) started (by decide +kernel)
  refine ⟨s, reachable, length, refused, fun reply => ?_⟩
  simp [ClientMM.mmAlloc, SubblockAllocator.mmAlloc, ClientMM.subblockAllocator]

end PoolSystem

end FuseeFs.Memory.Pool
