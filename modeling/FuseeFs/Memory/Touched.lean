import FuseeFs.Memory.LogChain
import FuseeFs.Memory.MmRecovery

/-!
# How far the remote memory has been written

A client that runs its requests one after the other writes its subblocks in the
order in which it hands them out.  A subblock that was given back keeps its
entry, and will be written again with the same link.  The remote memory is
therefore described by one number: the subblocks before it are linked, and the
others have never been written.
-/

namespace FuseeFs.Memory

open List Option Function Library Library.Bytes

variable {layout : Layout}

/-- The first subblocks of the order are linked to their successors, and nothing
else has been written. -/
structure Touched (subblockSz : ℕ) (memory : Subblocks) (order : List SubblockInfo)
    (touched : ℕ) : Prop where
  links : ∀ idx < touched, ∀ entry ∈ order[idx]?, ∀ next ∈ order[idx + 1]?,
    nextSubblock memory entry = some next
  tails : ∀ subblock ∈ order.take touched,
    tailOffset (memory subblock) + sizeofKVLogTail ≤ subblockSz
  zero : ∀ subblock, subblock ∉ order.take touched → memory subblock = fun _ => 0

theorem tailOffset_zero : tailOffset (fun _ => 0) = sizeofKVLogHeader :=
  rfl

namespace Touched

variable {subblockSz touched : ℕ} {memory : Subblocks} {order : List SubblockInfo}

theorem initial (order : List SubblockInfo) : Touched subblockSz (fun _ _ => 0) order 0 := by
  refine ⟨?_, ?_, fun _ _ => rfl⟩
  · intro idx before
    omega
  · intro subblock mem
    rw [take_zero] at mem
    cases mem

section Extension

variable (remote : Touched subblockSz memory order touched)
include remote

theorem append (inside : touched < order.length) (more : List SubblockInfo) :
    Touched subblockSz memory (order ++ more) touched := by
  have taken : (order ++ more).take touched = order.take touched :=
    take_append_of_le_length inside.le
  refine ⟨?_, ?_, ?_⟩
  · intro idx before entry isEntry next isNext
    rw [getElem?_append_left (by omega)] at isEntry isNext
    exact remote.links idx before entry isEntry next isNext
  · rw [taken]
    exact remote.tails
  · rw [taken]
    exact remote.zero

theorem write {before rest : List SubblockInfo} {current next : SubblockInfo} {entry : Image}
    (shape : order = before ++ current :: next :: rest) (nodup : order.Nodup)
    (least : before.length ≤ touched) (most : touched ≤ before.length + 1)
    (link : nextSubblock (update memory current entry) current = some next)
    (fits : tailOffset entry + sizeofKVLogTail ≤ subblockSz) :
    Touched subblockSz (update memory current entry) order (before.length + 1) := by
  have taken : order.take (before.length + 1) = before ++ [current] := by
    rw [shape, take_append, take_of_length_le (by omega)]
    simp
  have pos : ∀ idx < order.length, order[idx]? = some current → idx = before.length := by
    intro idx bound found
    refine (getElem?_inj bound nodup).mp ?_
    rw [found, shape]
    simp
  have larger : ∀ subblock ∈ order.take touched, subblock ∈ order.take (before.length + 1) :=
    fun subblock mem => (take_sublist_take_left most).subset mem
  refine ⟨?_, ?_, ?_⟩
  · intro idx inside other isOther successor isNext
    have bound : idx < order.length := (List.getElem?_eq_some_iff.mp isOther).1
    by_cases same : other = current
    · obtain rfl := same
      obtain rfl := pos idx bound isOther
      have isNext' : order[before.length + 1]? = some next := by
        rw [shape]
        simp
      rw [link, some.inj (isNext'.symm.trans isNext)]
    · have earlier : idx < before.length := by
        refine Nat.lt_of_le_of_ne (by omega) fun last => same ?_
        rw [last, shape] at isOther
        simpa using isOther.symm
      refine (ChainSystem.nextSubblock_congr (update_of_ne same _ _)).trans ?_
      exact remote.links idx (by omega) other isOther successor isNext
  · intro subblock mem
    by_cases same : subblock = current
    · rw [same, update_self]
      exact fits
    · rw [update_of_ne same]
      rw [taken] at mem
      have earlier : subblock ∈ before :=
        (mem_append.mp mem).resolve_right fun last => same (mem_singleton.mp last)
      refine remote.tails subblock ((take_sublist_take_left least).subset ?_)
      rw [shape, take_left]
      exact earlier
  · intro subblock outside
    have apart : subblock ≠ current := fun same =>
      outside (taken ▸ mem_append_right _ (mem_singleton.mpr same))
    rw [update_of_ne apart]
    exact remote.zero subblock fun mem => outside (larger subblock mem)

/-- The traversal ends at the first subblock that has not been written. -/
theorem mmTraverseLog_eq {head : SubblockInfo} (begins : order.head? = some head)
    (nonzero : head.addr ≠ 0) (nodup : order.Nodup) (inside : touched < order.length)
    (room : touched < tailCapacity) (small : subblockSz ≤ clientMetaLen)
    (large : sizeofKVLogHeader + sizeofKVLogTail ≤ subblockSz) :
    mmTraverseLog subblockSz memory head = some (order.take (touched + 1)) := by
  have untouched : memory order[touched] = fun _ => 0 := by
    refine remote.zero _ fun mem => ?_
    obtain ⟨idx, bound, same⟩ := mem_take_iff_getElem.mp mem
    have equal := (List.Nodup.getElem_inj_iff nodup).mp same
    omega
  have tail : ∀ idx (bound : idx < order.length), idx ≤ touched →
      tailOffset (memory order[idx]) + sizeofKVLogTail ≤ subblockSz := by
    intro idx bound before
    rcases Nat.lt_or_eq_of_le before with earlier | rfl
    · exact remote.tails _ (mem_take_iff_getElem.mpr ⟨idx, by omega, rfl⟩)
    · rw [untouched, tailOffset_zero]
      exact large
  rw [mmTraverseLog, if_neg nonzero]
  apply traverse_eq_some
  · rw [head?_take, if_neg (Nat.succ_ne_zero _)]
    exact begins
  · rw [isChain_iff_getElem]
    intro idx bound
    rw [length_take] at bound
    simp only [getElem_take]
    exact remote.links idx (by omega) _ (getElem?_eq_getElem _) _ (getElem?_eq_getElem _)
  · intro last isLast
    rw [getLast?_take, if_neg (Nat.succ_ne_zero _), Nat.add_sub_cancel,
      getElem?_eq_getElem inside] at isLast
    obtain rfl := some.inj isLast
    exact nextSubblock_of_zero untouched
  · intro idx subblock found
    obtain ⟨bound, rfl⟩ := List.getElem?_eq_some_iff.mp found
    rw [length_take] at bound
    rw [getElem_take]
    exact isReadable_of_le small (tail idx (by omega) (by omega)) _
  · rw [length_take]
    omega

end Extension

end Touched

end FuseeFs.Memory
