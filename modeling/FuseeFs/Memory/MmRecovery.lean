import FuseeFs.Library.Traversal
import FuseeFs.Memory.ClientMM

/-!
# Recovery of the allocator

A recovering client walks along its log (`mm_traverse_log`) and rebuilds the
queue of free subblocks from the list of its blocks (`mm_recover_mm_blocks`):
what was not visited is free, and so is the last subblock that was visited.  The
metadata, the subblock that is being read and the tails of all entries share one
buffer of fixed size.
-/

namespace FuseeFs.Memory

open List Option Library Library.Bytes

variable {layout : Layout}

def recSpaceSize : ℕ := 64 * 1024 * 1024

/-- `CLIENT_META_LEN`: `tmp_buf_` begins that far into `recover_buf_`, and
`log_tail_st_ptr_` that far behind `tmp_buf_`. -/
def clientMetaLen : ℕ := 1024 * 1024

/-- How many tails fit between `log_tail_st_ptr_` and the end of the buffer. -/
def tailCapacity : ℕ := (recSpaceSize - 2 * clientMetaLen) / sizeofKVLogTail

/-- The subblock is read into the buffer, and `memcpy` moves its tail to the
place of number `cnt`.  The two places must not overlap. -/
def isReadable (subblockSz cnt : ℕ) (entry : Image) : Bool :=
  clientMetaLen + subblockSz ≤ recSpaceSize &&
    tailOffset entry + sizeofKVLogTail ≤ subblockSz &&
      (tailOffset entry + sizeofKVLogTail ≤ clientMetaLen + cnt * sizeofKVLogTail ||
        clientMetaLen + (cnt + 1) * sizeofKVLogTail ≤ tailOffset entry)

/-- The subblocks in `recover_log_info_list_`.  There is no result if an access
leaves the buffer. -/
def mmTraverseLog (subblockSz : ℕ) (memory : Subblocks) (head : SubblockInfo) :
    Option (List SubblockInfo) :=
  if head.addr = 0 then some []
  else
    traverse (nextSubblock memory) (fun cnt subblock => isReadable subblockSz cnt (memory subblock))
      tailCapacity 0 head

theorem isReadable_of_le {subblockSz : ℕ} {entry : Image} (small : subblockSz ≤ clientMetaLen)
    (inside : tailOffset entry + sizeofKVLogTail ≤ subblockSz) (cnt : ℕ) :
    isReadable subblockSz cnt entry := by
  have buffer : clientMetaLen + subblockSz ≤ recSpaceSize := by
    unfold recSpaceSize
    unfold clientMetaLen at small ⊢
    omega
  have before : tailOffset entry + sizeofKVLogTail ≤ clientMetaLen + cnt * sizeofKVLogTail := by
    omega
  simp [isReadable, buffer, inside, before]

def allSubblocks (area : MetaArea (ClientMMBlock layout)) : List SubblockInfo :=
  (recoveredBlocks area).flatMap ClientMMBlock.dataSubblocks

def recoverAddrIsAllocated (visited : List SubblockInfo) (subblock : SubblockInfo) : Bool :=
  (visited.map SubblockInfo.tagged).contains subblock.tagged

/-- `all_subblock_queue` of one server.  The two subblocks that get a place of
their own have been visited as well. -/
def allSubblockQueue (visited subblocks : List SubblockInfo) (serverId : ℕ) : List SubblockInfo :=
  (subblocks.filter fun subblock => !recoverAddrIsAllocated visited subblock).filter
    (·.serverId.toNat = serverId)

/-- The subblock with the given address; a later match replaces an earlier one. -/
def findSubblock (subblocks : List SubblockInfo) (prAddr : ℕ) : Option SubblockInfo :=
  subblocks.reverse.find? (·.tagged = prAddr)

/-- `mm_recover_mm_blocks`.  A log with fewer than two entries leaves
`last_allocated_pr_addr` undefined. -/
def mmRecoverMmBlocks (area : MetaArea (ClientMMBlock layout)) (visited : List SubblockInfo) :
    Option (ClientMM layout) :=
  match visited.reverse with
  | queueHead :: lastAllocated :: _ =>
    (findSubblock (allSubblocks area) queueHead.tagged).bind fun queueHeadInfo =>
      (findSubblock (allSubblocks area) lastAllocated.tagged).map fun lastAllocatedInfo =>
        { subblockFreeQueue := queueHeadInfo :: roundRobin (allSubblocks area).length
            ((List.range layout.numMemory).map (allSubblockQueue visited (allSubblocks area)))
          lastAllocatedInfo := lastAllocatedInfo
          table := mmRecovery area }
  | _ => none

theorem findSubblock_tagged {subblocks : List SubblockInfo} {subblock : SubblockInfo}
    (mem : subblock ∈ subblocks) : findSubblock subblocks subblock.tagged = some subblock := by
  have found : (findSubblock subblocks subblock.tagged).isSome :=
    find?_isSome.mpr ⟨subblock, mem_reverse.mpr mem, decide_eq_true rfl⟩
  obtain ⟨other, result⟩ := isSome_iff_exists.mp found
  have same : other.tagged = subblock.tagged := by
    have matching := find?_some result
    simpa only [decide_eq_true_eq] using matching
  rw [result, SubblockInfo.tagged_injective same]

section Rebuilt

variable {subblocks visited : List SubblockInfo}

theorem allSubblockQueues_perm (servers : ∀ subblock ∈ subblocks,
      subblock.serverId.toNat < layout.numMemory) :
    (roundRobin subblocks.length
      ((List.range layout.numMemory).map (allSubblockQueue visited subblocks))).Perm
        (subblocks.filter fun subblock => !recoverAddrIsAllocated visited subblock) := by
  have rounds : ∀ queue ∈ (List.range layout.numMemory).map (allSubblockQueue visited subblocks),
      queue.length ≤ subblocks.length := by
    intro queue mem
    obtain ⟨_, -, rfl⟩ := List.mem_map.mp mem
    exact (length_filter_le _ _).trans (length_filter_le _ _)
  refine (roundRobin_perm rounds).trans ?_
  refine (flatten_filter_perm (fun subblock : SubblockInfo => subblock.serverId.toNat) _
    layout.numMemory).trans ?_
  rw [filter_eq_self.mpr]
  intro subblock mem
  exact decide_eq_true (servers subblock (mem_of_mem_filter mem))

theorem recoverAddrIsAllocated_iff {subblock : SubblockInfo} :
    recoverAddrIsAllocated visited subblock ↔ subblock ∈ visited := by
  rw [recoverAddrIsAllocated, contains_iff_mem, List.mem_map]
  constructor
  · rintro ⟨_, mem, same⟩
    exact SubblockInfo.tagged_injective same ▸ mem
  · exact fun mem => ⟨subblock, mem, rfl⟩

/-- The rebuilt queue begins with the last subblock that was visited, and
consists of those that are not among the other visited ones. -/
theorem mmRecoverMmBlocks_spec {area : MetaArea (ClientMMBlock layout)} {front : List SubblockInfo}
    {lastAllocated queueHead : SubblockInfo} (nodup : (allSubblocks area).Nodup)
    (servers : ∀ subblock ∈ allSubblocks area, subblock.serverId.toNat < layout.numMemory)
    (distinct : (front ++ [lastAllocated, queueHead]).Nodup)
    (known : ∀ subblock ∈ front ++ [lastAllocated, queueHead], subblock ∈ allSubblocks area) :
    ∃ mm, mmRecoverMmBlocks area (front ++ [lastAllocated, queueHead]) = some mm ∧
      mm.lastAllocatedInfo = lastAllocated ∧ mm.subblockFreeQueue.head? = some queueHead ∧
      mm.subblockFreeQueue.Nodup ∧ ∀ subblock, subblock ∈ mm.subblockFreeQueue ↔
        subblock ∈ allSubblocks area ∧ subblock ∉ front ++ [lastAllocated] := by
  have headKnown : queueHead ∈ allSubblocks area := known queueHead (by simp)
  have lastKnown : lastAllocated ∈ allSubblocks area := known lastAllocated (by simp)
  have reversed : (front ++ [lastAllocated, queueHead]).reverse =
      queueHead :: lastAllocated :: front.reverse := by simp
  have rebuilt : mmRecoverMmBlocks area (front ++ [lastAllocated, queueHead]) = some
      { subblockFreeQueue := queueHead :: roundRobin (allSubblocks area).length
          ((List.range layout.numMemory).map
            (allSubblockQueue (front ++ [lastAllocated, queueHead]) (allSubblocks area)))
        lastAllocatedInfo := lastAllocated
        table := mmRecovery area } := by
    simp only [mmRecoverMmBlocks, reversed, findSubblock_tagged headKnown,
      findSubblock_tagged lastKnown, bind_some, map_some]
  have rest := @allSubblockQueues_perm layout (allSubblocks area)
    (front ++ [lastAllocated, queueHead]) servers
  have mem_rest : ∀ subblock, subblock ∈ roundRobin (allSubblocks area).length
      ((List.range layout.numMemory).map
        (allSubblockQueue (front ++ [lastAllocated, queueHead]) (allSubblocks area))) ↔
      subblock ∈ allSubblocks area ∧ subblock ∉ front ++ [lastAllocated, queueHead] := by
    intro subblock
    rw [rest.mem_iff, mem_filter, Bool.not_eq_true', ← Bool.not_eq_true, recoverAddrIsAllocated_iff]
  refine ⟨_, rebuilt, rfl, rfl, ?_, ?_⟩
  · refine nodup_cons.mpr ⟨?_, rest.nodup_iff.mpr (nodup.filter _)⟩
    rw [mem_rest]
    exact fun free => free.2 (by simp)
  · intro subblock
    have split : front ++ [lastAllocated, queueHead] = (front ++ [lastAllocated]) ++ [queueHead] := by
      simp
    rw [split] at distinct
    have headApart : queueHead ∉ front ++ [lastAllocated] := fun mem =>
      (nodup_append'.mp distinct).2.2 mem (mem_singleton.mpr rfl)
    rw [mem_cons, mem_rest, split, mem_append, mem_singleton]
    constructor
    · rintro (rfl | ⟨mem, free⟩)
      · exact ⟨headKnown, headApart⟩
      · exact ⟨mem, fun visited => free (.inl visited)⟩
    · rintro ⟨mem, free⟩
      by_cases same : subblock = queueHead
      · exact .inl same
      · exact .inr ⟨mem, fun visited => visited.elim free same⟩

end Rebuilt

end FuseeFs.Memory
