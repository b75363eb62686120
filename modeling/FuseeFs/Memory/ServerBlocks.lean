import FuseeFs.Index.Subtables
import FuseeFs.Memory.Ownership

/-!
# The bookkeeping of a server

A server hands out the blocks that `get_allocable_blocks` has listed from a
queue and remembers in a map which of them are allocated.  Looking an address up
in that map enters it, so that the map also has entries for addresses that were
never blocks.  Subtables are handed out by number and never come back.
-/

namespace FuseeFs.Memory.ServerBlocks

open Function List Option Library Memory.Placement Memory.Ownership
open Index (initSubtable maxSubtables serverAllocSubtable serverAllocSubtable_cases
  subtableAddr subtableAddr_eq maxSubtables_eq)

structure ServerMM where
  allocableBlocks : List UInt64
  allocatedBlocks : UInt64 → Option Bool
  subtableAllocMap : List Bool

namespace ServerMM

/-- `allocated_blocks_[addr]`, and the map with the entry that it makes. -/
def lookup (allocatedBlocks : UInt64 → Option Bool) (addr : UInt64) :
    Bool × (UInt64 → Option Bool) :=
  let value := (allocatedBlocks addr).getD false
  (value, update allocatedBlocks addr (some value))

def mmAlloc (mm : ServerMM) : UInt64 × ServerMM :=
  match mm.allocableBlocks with
  | [] => (0, mm)
  | retAddr :: allocableBlocks =>
    (retAddr, { mm with
      allocableBlocks := allocableBlocks
      allocatedBlocks := update mm.allocatedBlocks retAddr (some true) })

def mmFree (mm : ServerMM) (stAddr : UInt64) : Int × ServerMM :=
  let (allocated, allocatedBlocks) := lookup mm.allocatedBlocks stAddr
  if allocated ≠ true then (-1, { mm with allocatedBlocks := allocatedBlocks })
  else
    (0, { mm with
      allocatedBlocks := update allocatedBlocks stAddr (some false)
      allocableBlocks := mm.allocableBlocks ++ [stAddr] })

def mmAllocSubtable (baseAddr : UInt64) (mm : ServerMM) : UInt64 × ServerMM :=
  let (subtableAllocMap, addr) := serverAllocSubtable baseAddr.toNat mm.subtableAllocMap
  (UInt64.ofNat addr, { mm with subtableAllocMap := subtableAllocMap })

def Allocated (mm : ServerMM) (addr : UInt64) : Prop :=
  mm.allocatedBlocks addr = some true

instance (mm : ServerMM) (addr : UInt64) : Decidable (mm.Allocated addr) :=
  inferInstanceAs (Decidable (mm.allocatedBlocks addr = some true))

@[simp]
theorem subtableAllocMap_mmAlloc (mm : ServerMM) :
    mm.mmAlloc.2.subtableAllocMap = mm.subtableAllocMap := by
  rw [mmAlloc]
  split <;> rfl

@[simp]
theorem subtableAllocMap_mmFree (mm : ServerMM) (stAddr : UInt64) :
    (mm.mmFree stAddr).2.subtableAllocMap = mm.subtableAllocMap := by
  simp only [mmFree]
  split <;> rfl

/-- The blocks are divided into those in the queue and those in `handedOut`, each
of them once, and the map has the latter as allocated. -/
structure Divided (blocks handedOut : List UInt64) (mm : ServerMM) : Prop where
  nodup : mm.allocableBlocks.Nodup
  handedOut_nodup : handedOut.Nodup
  separate : ∀ addr ∈ mm.allocableBlocks, addr ∉ handedOut
  whole : ∀ addr, addr ∈ blocks ↔ addr ∈ mm.allocableBlocks ∨ addr ∈ handedOut
  allocated_iff : ∀ addr, mm.Allocated addr ↔ addr ∈ handedOut

variable {blocks handedOut : List UInt64} {mm : ServerMM}

theorem mmAlloc_cases (mm : ServerMM) :
    (mm.allocableBlocks = [] ∧ mm.mmAlloc = (0, mm)) ∨
      (∃ rest, mm.allocableBlocks = mm.mmAlloc.1 :: rest ∧
        mm.mmAlloc.2.allocableBlocks = rest ∧
        ∀ addr, mm.mmAlloc.2.Allocated addr ↔ addr = mm.mmAlloc.1 ∨ mm.Allocated addr) := by
  obtain ⟨allocableBlocks, _, _⟩ := mm
  cases allocableBlocks with
  | nil => exact .inl ⟨rfl, rfl⟩
  | cons retAddr rest =>
    refine .inr ⟨rest, rfl, rfl, ?_⟩
    intro addr
    by_cases same : addr = retAddr
    · simp [mmAlloc, Allocated, same]
    · simp [mmAlloc, Allocated, same]

theorem Divided.mmAlloc_of_ne_zero (divided : mm.Divided blocks handedOut)
    (nonzero : mm.mmAlloc.1 ≠ 0) : mm.mmAlloc.2.Divided blocks (handedOut ++ [mm.mmAlloc.1]) := by
  rcases mm.mmAlloc_cases with ⟨-, empty⟩ | ⟨rest, queue, after, map⟩
  · rw [empty] at nonzero
    exact absurd rfl nonzero
  · have nodup := divided.nodup
    rw [queue] at nodup
    obtain ⟨new, nodup⟩ := nodup_cons.mp nodup
    have free : mm.mmAlloc.1 ∉ handedOut := divided.separate _ (queue ▸ mem_cons_self)
    constructor
    · rwa [after]
    · exact nodup_append.mpr ⟨divided.handedOut_nodup, nodup_singleton _,
        fun addr mem other single same =>
          free (mem_singleton.mp single ▸ same ▸ mem)⟩
    · intro addr mem
      rw [after] at mem
      rw [mem_append, mem_singleton]
      rintro (before | rfl)
      · exact divided.separate addr (queue ▸ mem_cons_of_mem _ mem) before
      · exact new mem
    · intro addr
      rw [divided.whole, after, queue, mem_cons, mem_append, mem_singleton]
      tauto
    · intro addr
      rw [map, divided.allocated_iff, mem_append, mem_singleton]
      exact or_comm

theorem Divided.mmAlloc_eq_zero_iff (divided : mm.Divided blocks handedOut)
    (nonzero : ∀ addr ∈ blocks, addr ≠ 0) :
    mm.mmAlloc.1 = 0 ↔ ∀ addr ∈ blocks, addr ∈ handedOut := by
  rcases mm.mmAlloc_cases with ⟨empty, answer⟩ | ⟨rest, queue, -⟩
  · refine iff_of_true (by rw [answer]) ?_
    intro addr mem
    simpa [empty] using (divided.whole addr).mp mem
  · have queued : mm.mmAlloc.1 ∈ mm.allocableBlocks := queue ▸ mem_cons_self
    have mem : mm.mmAlloc.1 ∈ blocks := (divided.whole _).mpr (.inl queued)
    apply iff_of_false
    · exact nonzero _ mem
    · intro all
      exact divided.separate _ queued (all _ mem)

theorem mmAlloc_of_eq_zero (nonzero : ∀ addr ∈ mm.allocableBlocks, addr ≠ 0)
    (zero : mm.mmAlloc.1 = 0) : mm.mmAlloc.2 = mm := by
  rcases mm.mmAlloc_cases with ⟨-, answer⟩ | ⟨rest, queue, -⟩
  · rw [answer]
  · exact absurd zero (nonzero _ (queue ▸ mem_cons_self))

theorem mmFree_cases (mm : ServerMM) (stAddr : UInt64) :
    (mm.Allocated stAddr ∧ (mm.mmFree stAddr).1 = 0 ∧
        (mm.mmFree stAddr).2.allocableBlocks = mm.allocableBlocks ++ [stAddr] ∧
        ∀ addr, (mm.mmFree stAddr).2.Allocated addr ↔ addr ≠ stAddr ∧ mm.Allocated addr) ∨
      (¬ mm.Allocated stAddr ∧ (mm.mmFree stAddr).1 = -1 ∧
        (mm.mmFree stAddr).2.allocableBlocks = mm.allocableBlocks ∧
        ∀ addr, (mm.mmFree stAddr).2.Allocated addr ↔ mm.Allocated addr) := by
  by_cases allocated : mm.allocatedBlocks stAddr = some true
  · refine .inl ⟨allocated, ?_, ?_, ?_⟩
    · simp [mmFree, lookup, allocated]
    · simp [mmFree, lookup, allocated]
    · intro addr
      by_cases same : addr = stAddr
      · simp [mmFree, lookup, Allocated, allocated, same]
      · simp [mmFree, lookup, Allocated, allocated, same]
  · have value : (mm.allocatedBlocks stAddr).getD false = false := by
      cases entry : mm.allocatedBlocks stAddr with
      | none => rfl
      | some value =>
        cases value with
        | false => rfl
        | true => exact absurd entry allocated
    refine .inr ⟨allocated, ?_, ?_, ?_⟩
    · simp [mmFree, lookup, value]
    · simp [mmFree, lookup, value]
    · intro addr
      by_cases same : addr = stAddr
      · simp [mmFree, lookup, Allocated, value, same, allocated]
      · simp [mmFree, lookup, Allocated, value, same]

theorem Divided.mmFree_of_mem (divided : mm.Divided blocks handedOut) {stAddr : UInt64}
    (given : stAddr ∈ handedOut) :
    (mm.mmFree stAddr).1 = 0 ∧ (mm.mmFree stAddr).2.Divided blocks (handedOut.erase stAddr) := by
  rcases mm.mmFree_cases stAddr with ⟨-, zero, queue, map⟩ | ⟨free, -⟩
  · have erased (addr : UInt64) : addr ∈ handedOut.erase stAddr ↔ addr ≠ stAddr ∧ addr ∈ handedOut :=
      divided.handedOut_nodup.mem_erase_iff
    refine ⟨zero, ?_, divided.handedOut_nodup.erase stAddr, ?_, ?_, ?_⟩
    · rw [queue]
      exact nodup_append.mpr ⟨divided.nodup, nodup_singleton _,
        fun addr mem other single same =>
          divided.separate addr mem (same ▸ mem_singleton.mp single ▸ given)⟩
    · intro addr mem still
      rw [queue, mem_append, mem_singleton] at mem
      obtain ⟨ne, before⟩ := (erased addr).mp still
      rcases mem with mem | same
      · exact divided.separate addr mem before
      · exact ne same
    · intro addr
      rw [queue, erased, divided.whole, mem_append, mem_singleton]
      by_cases same : addr = stAddr
      · simp [same, given]
      · simp [same]
    · intro addr
      rw [map, erased, divided.allocated_iff]
  · exact absurd ((divided.allocated_iff stAddr).mpr given) free

theorem Divided.mmFree_of_not_mem (divided : mm.Divided blocks handedOut) {stAddr : UInt64}
    (foreign : stAddr ∉ handedOut) :
    (mm.mmFree stAddr).1 = -1 ∧ (mm.mmFree stAddr).2.allocableBlocks = mm.allocableBlocks ∧
      (mm.mmFree stAddr).2.Divided blocks handedOut := by
  rcases mm.mmFree_cases stAddr with ⟨allocated, -⟩ | ⟨-, refused, queue, map⟩
  · exact absurd ((divided.allocated_iff stAddr).mp allocated) foreign
  · refine ⟨refused, queue, ?_, divided.handedOut_nodup, ?_, ?_, ?_⟩
    · exact queue ▸ divided.nodup
    · exact queue ▸ divided.separate
    · exact queue ▸ divided.whole
    · intro addr
      rw [map, divided.allocated_iff]

end ServerMM

/-- The answers are different until there is no subtable left, and from then on
they are 0. -/
def DistinctUntilZero (answers : List UInt64) : Prop :=
  answers.Pairwise fun earlier later =>
    (earlier = 0 → later = 0) ∧ (earlier ≠ 0 → earlier ≠ later)

structure Recorded (baseAddr : UInt64) (subtableAllocMap : List Bool) (answers : List UInt64) :
    Prop where
  length_eq : subtableAllocMap.length = maxSubtables
  distinct : DistinctUntilZero answers
  full : 0 ∈ answers → false ∉ subtableAllocMap
  allocated : ∀ addr ∈ answers, addr ≠ 0 → ∃ index,
    addr = UInt64.ofNat (subtableAddr baseAddr.toNat index) ∧ subtableAllocMap[index]? = some true

variable {baseAddr : UInt64} {mm : ServerMM} {answers : List UInt64}

theorem toNat_subtableAddr (bound : baseAddr.toNat ≤ 2 ^ 63) {index : ℕ}
    (small : index < maxSubtables) :
    (UInt64.ofNat (subtableAddr baseAddr.toNat index)).toNat =
      subtableAddr baseAddr.toNat index := by
  rw [maxSubtables_eq] at small
  apply UInt64.toNat_ofNat_of_lt'
  rw [subtableAddr_eq]
  have size : UInt64.size = 2 ^ 64 := rfl
  omega

theorem Recorded.mmAllocSubtable (recorded : Recorded baseAddr mm.subtableAllocMap answers)
    (bound : baseAddr.toNat ≤ 2 ^ 63) :
    Recorded baseAddr (mm.mmAllocSubtable baseAddr).2.subtableAllocMap
      (answers ++ [(mm.mmAllocSubtable baseAddr).1]) := by
  rcases serverAllocSubtable_cases baseAddr.toNat mm.subtableAllocMap with
    ⟨full, step⟩ | ⟨index, free, step⟩
  · have answer : mm.mmAllocSubtable baseAddr = (0, mm) := by
      simp [ServerMM.mmAllocSubtable, step]
    rw [answer]
    constructor
    · exact recorded.length_eq
    · refine pairwise_append.mpr ⟨recorded.distinct, pairwise_singleton _ _, ?_⟩
      intro earlier _ later single
      rw [mem_singleton.mp single]
      exact ⟨fun _ => rfl, fun nonzero => nonzero⟩
    · intro _
      exact full
    · intro addr mem nonzero
      rcases mem_append.mp mem with before | single
      · exact recorded.allocated addr before nonzero
      · exact absurd (mem_singleton.mp single) nonzero
  · obtain ⟨small, -⟩ := List.getElem?_eq_some_iff.mp free
    rw [recorded.length_eq] at small
    have value := toNat_subtableAddr bound small
    have answer : mm.mmAllocSubtable baseAddr =
        (UInt64.ofNat (subtableAddr baseAddr.toNat index),
          { mm with subtableAllocMap := mm.subtableAllocMap.set index true }) := by
      simp [ServerMM.mmAllocSubtable, step]
    rw [answer]
    have nonzero : UInt64.ofNat (subtableAddr baseAddr.toNat index) ≠ 0 := by
      intro zero
      rw [zero, UInt64.toNat_zero, subtableAddr_eq] at value
      omega
    have notFull : (0 : UInt64) ∉ answers := by
      intro zero
      exact recorded.full zero (mem_of_getElem? free)
    constructor
    · exact (length_set ..).trans recorded.length_eq
    · refine pairwise_append.mpr ⟨recorded.distinct, pairwise_singleton _ _, ?_⟩
      intro earlier mem later single
      rw [mem_singleton.mp single]
      refine ⟨?_, ?_⟩
      · rintro rfl
        exact absurd mem notFull
      · -- an address that was returned before belongs to an allocated subtable
        intro earlierNonzero same
        obtain ⟨other, rfl, taken⟩ := recorded.allocated earlier mem earlierNonzero
        obtain ⟨otherSmall, -⟩ := List.getElem?_eq_some_iff.mp taken
        rw [recorded.length_eq] at otherSmall
        have addrs := congrArg UInt64.toNat same
        rw [toNat_subtableAddr bound otherSmall, value, subtableAddr_eq, subtableAddr_eq] at addrs
        obtain rfl : other = index := by omega
        rw [taken] at free
        cases free
    · intro zero
      rcases mem_append.mp zero with before | single
      · exact absurd before notFull
      · exact absurd (mem_singleton.mp single).symm nonzero
    · intro addr mem addrNonzero
      rcases mem_append.mp mem with before | single
      · obtain ⟨other, rfl, taken⟩ := recorded.allocated addr before addrNonzero
        refine ⟨other, rfl, ?_⟩
        have ne : index ≠ other := by
          rintro rfl
          rw [taken] at free
          cases free
        exact (getElem?_set_ne ne).trans taken
      · refine ⟨index, mem_singleton.mp single, ?_⟩
        exact getElem?_set_self (recorded.length_eq ▸ small)

inductive Request
  | mmAlloc
  | mmFree (stAddr : UInt64)
  | mmAllocSubtable

/-- A server with what it has answered: the blocks that it has handed out and that
were not freed since, and all the subtables. -/
structure Served where
  mm : ServerMM
  handedOut : List UInt64
  subtables : List UInt64

namespace Served

def step (baseAddr : UInt64) (served : Served) : Request → Option Served
  | .mmAlloc =>
    some { served with
      mm := served.mm.mmAlloc.2
      handedOut :=
        if served.mm.mmAlloc.1 = 0 then served.handedOut
        else served.handedOut ++ [served.mm.mmAlloc.1] }
  | .mmFree stAddr =>
    some { served with
      mm := (served.mm.mmFree stAddr).2
      handedOut :=
        if (served.mm.mmFree stAddr).1 = 0 then served.handedOut.erase stAddr
        else served.handedOut }
  | .mmAllocSubtable =>
    let (addr, mm) := served.mm.mmAllocSubtable baseAddr
    some { served with mm := mm, subtables := served.subtables ++ [addr] }

def IsInitial (blocks : List UInt64) (served : Served) : Prop :=
  served = ⟨⟨blocks, fun _ => none, initSubtable⟩, [], []⟩

/-- The allocated blocks are the ones that were handed out and not freed since. -/
structure BookKept (blocks : List UInt64) (served : Served) : Prop where
  divided : served.mm.Divided blocks served.handedOut
  alloc_iff : served.mm.mmAlloc.1 = 0 ↔ ∀ addr ∈ blocks, addr ∈ served.handedOut
  alloc_new : served.mm.mmAlloc.1 ≠ 0 →
    served.mm.mmAlloc.1 ∈ blocks ∧ served.mm.mmAlloc.1 ∉ served.handedOut
  free_iff (addr : UInt64) : (served.mm.mmFree addr).1 = 0 ↔ addr ∈ served.handedOut
  free_refused (addr : UInt64) : addr ∉ served.handedOut →
    (served.mm.mmFree addr).2.allocableBlocks = served.mm.allocableBlocks ∧
      ∀ other, (served.mm.mmFree addr).2.Allocated other ↔ other ∈ served.handedOut
  subtables_distinct : DistinctUntilZero served.subtables

variable {blocks : List UInt64} {baseAddr : UInt64} {served after : Served}

theorem divided_of_isInitial (nodup : blocks.Nodup) (initial : IsInitial blocks served) :
    served.mm.Divided blocks served.handedOut := by
  obtain rfl := initial
  exact ⟨nodup, nodup_nil, by simp, by simp, by simp [ServerMM.Allocated]⟩

theorem recorded_of_isInitial (initial : IsInitial blocks served) :
    Recorded baseAddr served.mm.subtableAllocMap served.subtables := by
  obtain rfl := initial
  exact ⟨length_replicate, List.Pairwise.nil, by simp, by simp⟩

theorem divided_step (divided : served.mm.Divided blocks served.handedOut)
    (nonzero : ∀ addr ∈ blocks, addr ≠ 0) {req : Request}
    (taken : served.step baseAddr req = some after) : after.mm.Divided blocks after.handedOut := by
  cases req with
  | mmAlloc =>
    obtain rfl := some.inj taken
    by_cases zero : served.mm.mmAlloc.1 = 0
    · have queued : ∀ addr ∈ served.mm.allocableBlocks, addr ≠ 0 :=
        fun addr mem => nonzero addr ((divided.whole addr).mpr (.inl mem))
      simpa [zero, ServerMM.mmAlloc_of_eq_zero queued zero] using divided
    · simpa [zero] using divided.mmAlloc_of_ne_zero zero
  | mmFree stAddr =>
    obtain rfl := some.inj taken
    by_cases given : stAddr ∈ served.handedOut
    · obtain ⟨zero, kept⟩ := divided.mmFree_of_mem given
      simpa [zero] using kept
    · obtain ⟨refused, -, kept⟩ := divided.mmFree_of_not_mem given
      simpa [refused] using kept
  | mmAllocSubtable =>
    obtain rfl := some.inj taken
    exact ⟨divided.nodup, divided.handedOut_nodup, divided.separate, divided.whole,
      divided.allocated_iff⟩

theorem recorded_step (recorded : Recorded baseAddr served.mm.subtableAllocMap served.subtables)
    (bound : baseAddr.toNat ≤ 2 ^ 63) {req : Request}
    (taken : served.step baseAddr req = some after) :
    Recorded baseAddr after.mm.subtableAllocMap after.subtables := by
  cases req with
  | mmAlloc =>
    obtain rfl := some.inj taken
    simpa using recorded
  | mmFree stAddr =>
    obtain rfl := some.inj taken
    simpa using recorded
  | mmAllocSubtable =>
    obtain rfl := some.inj taken
    exact recorded.mmAllocSubtable bound

/-- Whatever a server is asked for, blocks that were never handed out included,
its books are in order. -/
theorem bookKept_of_reachable {conf : GlobalConfig} {mySid : ℕ}
    (built : getAllocableBlocks conf mySid = some blocks)
    (reached : Reachable (step conf.serverBaseAddr) (fun _ _ => True) (IsInitial blocks) served) :
    served.BookKept blocks := by
  obtain ⟨nodup, nonzero⟩ := allocable_getAllocableBlocks built
  obtain ⟨-, -, mapped⟩ := of_getAllocableBlocks built
  have bound : conf.serverBaseAddr.toNat ≤ 2 ^ 63 := (Nat.le_add_right _ _).trans mapped
  have divided : served.mm.Divided blocks served.handedOut := by
    apply reached.invariant
    · intro served initial
      exact divided_of_isInitial nodup initial
    · intro served req after divided _ taken
      exact divided_step divided nonzero taken
  have recorded : Recorded conf.serverBaseAddr served.mm.subtableAllocMap served.subtables := by
    apply reached.invariant
    · intro served initial
      exact recorded_of_isInitial initial
    · intro served req after recorded _ taken
      exact recorded_step recorded bound taken
  constructor
  · exact divided
  · exact divided.mmAlloc_eq_zero_iff nonzero
  · intro answer
    rcases served.mm.mmAlloc_cases with ⟨-, empty⟩ | ⟨rest, queue, -⟩
    · rw [empty] at answer
      exact absurd rfl answer
    · have queued : served.mm.mmAlloc.1 ∈ served.mm.allocableBlocks := queue ▸ mem_cons_self
      exact ⟨(divided.whole _).mpr (.inl queued), divided.separate _ queued⟩
  · intro addr
    by_cases given : addr ∈ served.handedOut
    · exact iff_of_true (divided.mmFree_of_mem given).1 given
    · refine iff_of_false ?_ given
      rw [(divided.mmFree_of_not_mem given).1]
      decide
  · intro addr foreign
    obtain ⟨-, queue, kept⟩ := divided.mmFree_of_not_mem foreign
    exact ⟨queue, kept.allocated_iff⟩
  · exact recorded.distinct

/-- A server with one block that is freed twice, a foreign address, and a second
request for the block. -/
theorem bookKept_of_reachable_freedTwice :
    ∃ blocks served, getAllocableBlocks twoServers 1 = some blocks ∧
      Reachable (step twoServers.serverBaseAddr) (fun _ _ => True) (IsInitial blocks) served ∧
      (served.mm.allocableBlocks = [] ∧ served.handedOut = [0x2C000000] ∧
        served.mm.mmAlloc.1 = 0 ∧ served.subtables = [0x20000B00, 0x20213F00]) ∧
      served.BookKept blocks := by
  have built : getAllocableBlocks twoServers 1 = some [0x2C000000] := by decide +kernel
  have isInitial : IsInitial [0x2C000000] ⟨⟨[0x2C000000], fun _ => none, initSubtable⟩, [], []⟩ :=
    rfl
  obtain ⟨served, reached, known⟩ := Reachable.exists_of_run (step twoServers.serverBaseAddr)
    (fun _ _ => True)
    [.mmAlloc, .mmAllocSubtable, .mmFree 0x28000000, .mmFree 0x2C000000, .mmFree 0x2C000000,
      .mmAllocSubtable, .mmAlloc]
    (fun served : Served => served.mm.allocableBlocks = [] ∧ served.handedOut = [0x2C000000] ∧
      served.mm.mmAlloc.1 = 0 ∧ served.subtables = [0x20000B00, 0x20213F00])
    isInitial (by decide +kernel)
  exact ⟨_, served, built, reached, known, bookKept_of_reachable built reached⟩

end Served

end FuseeFs.Memory.ServerBlocks
