import FuseeFs.Index.Table

/-!
# Subtables in the hash area

A server hands out its subtables one by one, each as far from the next as
`SUBTABLE_LEN` says.  The buckets of a subtable need one and a half times that
room: the upper third of them are the first buckets of the next subtable.
-/

namespace FuseeFs.Index

open List Option Function Library.Packed

/-! ## Allocation on a server -/

def subtableAddr (baseAddr index : ℕ) : ℕ :=
  baseAddr + metaAreaLen + gcAreaLen + roundup256 rootResLen + index * roundup256 subtableLen

theorem subtableAddr_eq (baseAddr index : ℕ) :
    subtableAddr baseAddr index = baseAddr + 268438272 + index * 2176000 := by
  have root : metaAreaLen + gcAreaLen + roundup256 rootResLen = 268438272 := by decide
  have stride : roundup256 subtableLen = 2176000 := by decide
  rw [subtableAddr, stride]
  omega

theorem maxSubtables_eq : maxSubtables = 61 := by
  decide

theorem serverAllocSubtable_cases (baseAddr : ℕ) (subtableAllocMap : List Bool) :
    (false ∉ subtableAllocMap ∧
        serverAllocSubtable baseAddr subtableAllocMap = (subtableAllocMap, 0)) ∨
      ∃ index, subtableAllocMap[index]? = some false ∧
        serverAllocSubtable baseAddr subtableAllocMap =
          (subtableAllocMap.set index true, subtableAddr baseAddr index) := by
  unfold serverAllocSubtable
  split
  case h_1 full =>
      refine .inl ⟨fun free => ?_, rfl⟩
      have taken := findIdx?_eq_none_iff.mp full false free
      cases taken
  case h_2 index found =>
      obtain ⟨bound, free, -⟩ := findIdx?_eq_some_iff_getElem.mp found
      refine .inr ⟨index, ?_, rfl⟩
      rw [getElem?_eq_getElem bound]
      exact congrArg some (of_decide_eq_true free)

structure SubtableAllocMaps.Grow (maps after : SubtableAllocMaps) : Prop where
  length (server : ℕ) : (after server).length = (maps server).length
  allocated {server index : ℕ} :
    (maps server)[index]? = some true → (after server)[index]? = some true

namespace SubtableAllocMaps.Grow

variable {maps middle after : SubtableAllocMaps}

theorem refl (maps : SubtableAllocMaps) : Grow maps maps :=
  ⟨fun _ => rfl, fun allocated => allocated⟩

theorem trans (first : Grow maps middle) (second : Grow middle after) : Grow maps after :=
  ⟨fun server => (second.length server).trans (first.length server),
    fun allocated => second.allocated (first.allocated allocated)⟩

theorem free (grow : Grow maps after) {server index : ℕ}
    (later : (after server)[index]? = some false) : (maps server)[index]? = some false := by
  have bound : index < (maps server).length := by
    rw [← grow.length server]
    exact (List.getElem?_eq_some_iff.mp later).1
  cases was : (maps server).get ⟨index, bound⟩ with
  | false => exact (getElem?_eq_getElem bound).trans (congrArg some was)
  | true =>
    have kept := grow.allocated ((getElem?_eq_getElem bound).trans (congrArg some was))
    rw [later] at kept
    cases kept

theorem serverAllocSubtable (maps : SubtableAllocMaps) (baseAddr server : ℕ) :
    Grow maps (update maps server (serverAllocSubtable baseAddr (maps server)).1) := by
  constructor
  · intro other
    by_cases same : other = server
    · subst same
      rw [update_self]
      rcases serverAllocSubtable_cases baseAddr (maps other) with ⟨-, none⟩ | ⟨index, free, step⟩
      · rw [none]
      · rw [step, length_set]
    · rw [update_of_ne same]
  · intro other index allocated
    by_cases same : other = server
    · subst same
      rw [update_self]
      rcases serverAllocSubtable_cases baseAddr (maps other) with ⟨-, none⟩ | ⟨chosen, free, step⟩
      · rw [none]
        exact allocated
      · have ne : chosen ≠ index := by
          rintro rfl
          rw [allocated] at free
          cases free
        rw [step, getElem?_set_ne ne]
        exact allocated
    · rw [update_of_ne same]
      exact allocated

end SubtableAllocMaps.Grow

/-- The server has handed out the address between two states of the maps, unless
there was no subtable left. -/
def HandedOut (baseAddr server : ℕ) (maps after : SubtableAllocMaps) (addr : ℕ) : Prop :=
  addr ≠ 0 → ∃ index, addr = subtableAddr baseAddr index ∧ (maps server)[index]? = some false ∧
    (after server)[index]? = some true

variable {server addr : ℕ}

theorem HandedOut.widen {baseAddr : ℕ} {earlier maps after later : SubtableAllocMaps}
    (handedOut : HandedOut baseAddr server maps after addr)
    (before : SubtableAllocMaps.Grow earlier maps) (behind : SubtableAllocMaps.Grow after later) :
    HandedOut baseAddr server earlier later addr := by
  intro nonzero
  obtain ⟨index, same, free, allocated⟩ := handedOut nonzero
  exact ⟨index, same, before.free free, behind.allocated allocated⟩

theorem handedOut_serverAllocSubtable (maps : SubtableAllocMaps) (baseAddr server : ℕ) :
    HandedOut baseAddr server maps
      (update maps server (serverAllocSubtable baseAddr (maps server)).1)
      (serverAllocSubtable baseAddr (maps server)).2 := by
  intro nonzero
  rw [update_self]
  rcases serverAllocSubtable_cases baseAddr (maps server) with ⟨-, none⟩ | ⟨index, free, step⟩
  · rw [none] at nonzero
    exact absurd rfl nonzero
  · have bound : index < (maps server).length := (List.getElem?_eq_some_iff.mp free).1
    rw [step]
    exact ⟨index, rfl, free, getElem?_set_self bound⟩

section Allocation

variable (conf : GlobalConfig)

def copyServer (prServerId replica : ℕ) : ℕ :=
  (prServerId + replica) % conf.memoryNum.toNat

def allocCopies (prServerId : ℕ) (maps : SubtableAllocMaps) (count : ℕ) :
    SubtableAllocMaps × List Place :=
  (List.range count).foldl
    (fun (maps, places) replica =>
      let serverId := (prServerId + replica) % conf.memoryNum.toNat
      let (map, addr) := serverAllocSubtable conf.serverBaseAddr.toNat (maps serverId)
      (update maps serverId map, places ++ [(UInt8.ofNat serverId, addr)]))
    (maps, [])

structure CopiesPlaced (prServerId : ℕ) (maps : SubtableAllocMaps) (count : ℕ)
    (result : SubtableAllocMaps × List Place) : Prop where
  grow : SubtableAllocMaps.Grow maps result.1
  length : result.2.length = count
  handedOut {replica : ℕ} {place : Place} : result.2[replica]? = some place →
    place.1 = UInt8.ofNat (copyServer conf prServerId replica) ∧
      HandedOut conf.serverBaseAddr.toNat (copyServer conf prServerId replica) maps result.1 place.2

theorem copiesPlaced_allocCopies (prServerId : ℕ) (maps : SubtableAllocMaps) (count : ℕ) :
    CopiesPlaced conf prServerId maps count (allocCopies conf prServerId maps count) := by
  induction count with
  | zero => exact ⟨.refl maps, rfl, fun listed => by cases listed⟩
  | succ count ih =>
    unfold allocCopies at ih ⊢
    rw [range_succ, foldl_append, foldl_cons, foldl_nil]
    generalize (List.range count).foldl _ _ = result at ih ⊢
    obtain ⟨grow, length, handedOut⟩ := ih
    have next := SubtableAllocMaps.Grow.serverAllocSubtable result.1
      conf.serverBaseAddr.toNat (copyServer conf prServerId count)
    refine ⟨grow.trans next, ?_, fun {replica place} listed => ?_⟩
    · exact length_append.trans (congrArg (· + 1) length)
    · change (result.2 ++ [_])[replica]? = some place at listed
      by_cases earlier : replica < result.2.length
      · rw [getElem?_append_left earlier] at listed
        obtain ⟨server, handed⟩ := handedOut listed
        exact ⟨server, handed.widen (.refl maps) next⟩
      · rw [getElem?_append_right (Nat.le_of_not_lt earlier), getElem?_singleton] at listed
        split_ifs at listed with last
        obtain rfl := some.inj listed
        have newest : replica = count := by omega
        rw [newest]
        have handed := handedOut_serverAllocSubtable result.1
          conf.serverBaseAddr.toNat (copyServer conf prServerId count)
        exact ⟨rfl, handed.widen grow (.refl _)⟩

theorem copiesPlaced_clientAllocSubtable (prServerId : ℕ) (maps : SubtableAllocMaps) :
    CopiesPlaced conf prServerId maps conf.numIdxRep.toNat
      (clientAllocSubtable conf prServerId maps) :=
  copiesPlaced_allocCopies conf prServerId maps _

def prServer (subtable : ℕ) : ℕ :=
  (lastAllocated conf + subtable) % conf.memoryNum.toNat

def mapsBefore : ℕ → SubtableAllocMaps
  | 0 => fun _ => initSubtable
  | subtable + 1 =>
    (clientAllocSubtable conf (prServer conf subtable) (mapsBefore subtable)).1

def subtablePlaces (subtable : ℕ) : List Place :=
  (clientAllocSubtable conf (prServer conf subtable) (mapsBefore conf subtable)).2

theorem copiesPlaced_subtable (subtable : ℕ) :
    CopiesPlaced conf (prServer conf subtable) (mapsBefore conf subtable) conf.numIdxRep.toNat
      (mapsBefore conf (subtable + 1), subtablePlaces conf subtable) :=
  copiesPlaced_clientAllocSubtable conf _ _

theorem mapsBefore_grow {first last : ℕ} (ordered : first ≤ last) :
    SubtableAllocMaps.Grow (mapsBefore conf first) (mapsBefore conf last) := by
  induction ordered with
  | refl => exact .refl _
  | step _ ih =>
    exact ih.trans (copiesPlaced_subtable conf _).grow

def initSubtables (root : RaceHashRoot) (count : ℕ) : RaceHashRoot × SubtableAllocMaps :=
  (List.range count).foldl
    (fun (root, maps) subtable =>
      let (maps, places) :=
        clientAllocSubtable conf ((lastAllocated conf + subtable) % conf.memoryNum.toNat) maps
      (fillSubtableEntries root subtable places, maps))
    (root, fun _ => initSubtable)

theorem initSubtables_succ (root : RaceHashRoot) (count : ℕ) :
    (initSubtables conf root (count + 1)).1 =
      fillSubtableEntries (initSubtables conf root count).1 count
        (clientAllocSubtable conf (prServer conf count) (initSubtables conf root count).2).2 ∧
    (initSubtables conf root (count + 1)).2 =
      (clientAllocSubtable conf (prServer conf count) (initSubtables conf root count).2).1 := by
  unfold initSubtables
  rw [range_succ, foldl_append, foldl_cons, foldl_nil]
  exact ⟨rfl, rfl⟩

theorem initSubtables_snd (root : RaceHashRoot) (count : ℕ) :
    (initSubtables conf root count).2 = mapsBefore conf count := by
  induction count with
  | zero => rfl
  | succ count ih =>
    rw [(initSubtables_succ conf root count).2, ih]
    rfl

variable {subtable : ℕ}

theorem fillSubtableEntries_of_ne (root : RaceHashRoot) {other : ℕ} (ne : other ≠ subtable)
    (places : List Place) (replica : ℕ) :
    (fillSubtableEntries root subtable places).subtableEntry other replica =
      root.subtableEntry other replica := by
  unfold fillSubtableEntries
  dsimp only
  cases places[replica]? with
  | none => rfl
  | some place => exact if_neg ne

variable {replica : ℕ}

theorem fillSubtableEntries_self (root : RaceHashRoot) {places : List Place} {place : Place}
    (listed : places[replica]? = some place) :
    (fillSubtableEntries root subtable places).subtableEntry subtable replica =
      ⟨place.1, hashIndexConvert64To40Bits place.2⟩ := by
  unfold fillSubtableEntries
  dsimp only
  rw [listed]
  exact if_pos rfl

theorem subtableEntry_initSubtables (root : RaceHashRoot) {count : ℕ} (bound : subtable < count)
    {place : Place} (listed : (subtablePlaces conf subtable)[replica]? = some place) :
    (initSubtables conf root count).1.subtableEntry subtable replica =
      ⟨place.1, hashIndexConvert64To40Bits place.2⟩ := by
  induction count with
  | zero => cases bound
  | succ count ih =>
    rw [(initSubtables_succ conf root count).1, initSubtables_snd]
    by_cases newest : subtable = count
    · subst newest
      exact fillSubtableEntries_self _ listed
    · rw [fillSubtableEntries_of_ne _ newest]
      apply ih
      omega

structure IsAllocated (subtable replica server addr : ℕ) : Prop where
  server_eq : server = copyServer conf (prServer conf subtable) replica
  listed : (subtablePlaces conf subtable)[replica]? = some (UInt8.ofNat server, addr)
  nonzero : addr ≠ 0

variable {conf}

theorem length_mapsBefore (subtable server : ℕ) :
    (mapsBefore conf subtable server).length = 61 := by
  rw [(mapsBefore_grow conf (Nat.zero_le subtable)).length server]
  exact length_replicate.trans maxSubtables_eq

theorem IsAllocated.handedOut (isAllocated : IsAllocated conf subtable replica server addr) :
    ∃ index, addr = subtableAddr conf.serverBaseAddr.toNat index ∧
      (mapsBefore conf subtable server)[index]? = some false ∧
      (mapsBefore conf (subtable + 1) server)[index]? = some true := by
  obtain ⟨rfl, listed, nonzero⟩ := isAllocated
  exact ((copiesPlaced_subtable conf subtable).handedOut listed).2 nonzero

theorem IsAllocated.exists_index (isAllocated : IsAllocated conf subtable replica server addr) :
    ∃ index < 61, addr = subtableAddr conf.serverBaseAddr.toNat index := by
  obtain ⟨index, same, free, -⟩ := isAllocated.handedOut
  have length : (mapsBefore conf subtable server).length = 61 := length_mapsBefore subtable server
  exact ⟨index, length ▸ (List.getElem?_eq_some_iff.mp free).1, same⟩

theorem IsAllocated.addr_ne_of_lt {first last otherReplica otherAddr : ℕ} (ordered : first < last)
    (isAllocated : IsAllocated conf first replica server addr)
    (otherAllocated : IsAllocated conf last otherReplica server otherAddr) : addr ≠ otherAddr := by
  obtain ⟨index, rfl, -, allocated⟩ := isAllocated.handedOut
  obtain ⟨other, rfl, free, -⟩ := otherAllocated.handedOut
  have still := (mapsBefore_grow conf ordered).allocated allocated
  intro same
  have indices : index = other := by
    rw [subtableAddr_eq, subtableAddr_eq] at same
    omega
  rw [indices, free] at still
  cases still

theorem IsAllocated.addr_ne {other otherReplica otherAddr : ℕ} (ne : subtable ≠ other)
    (isAllocated : IsAllocated conf subtable replica server addr)
    (otherAllocated : IsAllocated conf other otherReplica server otherAddr) : addr ≠ otherAddr := by
  obtain before | behind := Nat.lt_or_gt_of_ne ne
  · exact isAllocated.addr_ne_of_lt before otherAllocated
  · exact (otherAllocated.addr_ne_of_lt behind isAllocated).symm

end Allocation

/-! ## Combined buckets -/

/-- The subtable of a hash value, with the global depth 5. -/
def hashPrefix (hashValue : UInt64) : ℕ :=
  (hashValue >>> 32).toNat % 32

section Buckets

variable (root : RaceHashRoot) (hashValue : UInt64) (replica : ℕ)

def RaceHashRoot.subtableOff : ℕ :=
  (root.subtableEntry (hashPrefix hashValue) replica).place.2

def RaceHashRoot.fBucketAddr : ℕ :=
  root.subtableOff hashValue replica + (getKvAddrInfo hashValue).fIdx * sizeofRaceHashBucket

def RaceHashRoot.sBucketAddr : ℕ :=
  root.subtableOff hashValue replica + (getKvAddrInfo hashValue).sIdx * sizeofRaceHashBucket

def InCombinedBucket (bucketAddr byte : ℕ) : Prop :=
  bucketAddr ≤ byte ∧ byte < bucketAddr + 2 * sizeofRaceHashBucket

def RaceHashRoot.InBuckets (byte : ℕ) : Prop :=
  InCombinedBucket (root.fBucketAddr hashValue replica) byte ∨
    InCombinedBucket (root.sBucketAddr hashValue replica) byte

end Buckets

def InHashArea (conf : GlobalConfig) (byte : ℕ) : Prop :=
  conf.serverBaseAddr.toNat + metaAreaLen + gcAreaLen ≤ byte ∧
    byte < conf.serverBaseAddr.toNat + metaAreaLen + gcAreaLen + hashAreaLen

theorem fIdx_eq (hashValue : UInt64) :
    (getKvAddrInfo hashValue).fIdx =
      subtableFirstIndex hashValue / 2 * 3 + subtableFirstIndex hashValue % 2 :=
  rfl

def secondIndex (hashValue : UInt64) : ℕ :=
  subtableSecondIndex hashValue (subtableFirstIndex hashValue)

theorem sIdx_eq (hashValue : UInt64) :
    (getKvAddrInfo hashValue).sIdx = secondIndex hashValue / 2 * 3 + secondIndex hashValue % 2 :=
  rfl

theorem subtableFirstIndex_lt (hashValue : UInt64) : subtableFirstIndex hashValue < 17000 :=
  Nat.mod_lt _ (by decide)

theorem secondIndex_lt (hashValue : UInt64) : secondIndex hashValue < 34000 :=
  Nat.add_lt_add_right (Nat.mod_lt _ (by decide : 0 < 17000)) 17000

theorem le_secondIndex (hashValue : UInt64) : 17000 ≤ secondIndex hashValue :=
  Nat.le_add_left 17000 _

def CombinedApart (left right : ℕ) : Prop :=
  left + 128 ≤ right ∨ right + 128 ≤ left

theorem combinedApart_iff (left right : ℕ) :
    CombinedApart left right ↔
      ∀ byte, ¬(InCombinedBucket left byte ∧ InCombinedBucket right byte) := by
  unfold CombinedApart InCombinedBucket sizeofRaceHashBucket
  constructor
  · intro apart byte
    omega
  · intro apart
    have bounds := apart (max left right)
    omega

def BucketsApart (root : RaceHashRoot) (hashValue other : UInt64) (replica otherReplica : ℕ) : Prop :=
  ∀ byte, ¬(root.InBuckets hashValue replica byte ∧ root.InBuckets other otherReplica byte)

variable {replica otherReplica : ℕ} {root : RaceHashRoot} {hashValue other : UInt64}

theorem BucketsApart.symm (apart : BucketsApart root hashValue other replica otherReplica) :
    BucketsApart root other hashValue otherReplica replica :=
  fun byte both => apart byte both.symm

theorem bucketsApart_comm :
    BucketsApart root hashValue other replica otherReplica ↔
      BucketsApart root other hashValue otherReplica replica :=
  ⟨.symm, .symm⟩

theorem bucketsApart_iff (root : RaceHashRoot) (hashValue other : UInt64)
    (replica otherReplica : ℕ) :
    BucketsApart root hashValue other replica otherReplica ↔
      (CombinedApart (root.fBucketAddr hashValue replica) (root.fBucketAddr other otherReplica) ∧
        CombinedApart (root.sBucketAddr hashValue replica) (root.fBucketAddr other otherReplica)) ∧
      CombinedApart (root.fBucketAddr hashValue replica) (root.sBucketAddr other otherReplica) ∧
        CombinedApart (root.sBucketAddr hashValue replica) (root.sBucketAddr other otherReplica) := by
  simp only [combinedApart_iff, BucketsApart, RaceHashRoot.InBuckets, or_and_right, and_or_left,
    not_or, forall_and]

def MeetBehind (hashValue other : UInt64) : Prop :=
  secondIndex hashValue = subtableFirstIndex other + 22666 ∨
    secondIndex hashValue = subtableFirstIndex other + 22667

theorem bucketsApart_of_lt {start index otherIndex : ℕ} (ordered : index < otherIndex)
    (off : root.subtableOff hashValue replica = start + index * 2176000)
    (otherOff : root.subtableOff other otherReplica = start + otherIndex * 2176000) :
    BucketsApart root hashValue other replica otherReplica ↔
      ¬(otherIndex = index + 1 ∧ MeetBehind hashValue other) := by
  have first := subtableFirstIndex_lt hashValue
  have otherFirst := subtableFirstIndex_lt other
  have second := secondIndex_lt hashValue
  have otherSecond := le_secondIndex other
  simp only [bucketsApart_iff, CombinedApart, RaceHashRoot.fBucketAddr, RaceHashRoot.sBucketAddr,
    off, otherOff, fIdx_eq, sIdx_eq, sizeofRaceHashBucket, MeetBehind]
  by_cases next : otherIndex = index + 1
  · subst next
    omega
  · have far : index + 2 ≤ otherIndex := by omega
    omega

section Table

variable {conf : GlobalConfig} (root : RaceHashRoot) {hashValue : UInt64} {replica server addr : ℕ}

abbrev initialTable (conf : GlobalConfig) (root : RaceHashRoot) : RaceHashRoot :=
  (initHashTable conf root fun _ => initSubtable).1

theorem subtableOff_initialTable
    (isAllocated : IsAllocated conf (hashPrefix hashValue) replica server addr) :
    (initialTable conf root).subtableOff hashValue replica = 256 * (addr / 256 % 256 ^ 5) := by
  have entry := subtableEntry_initSubtables conf root (Nat.mod_lt _ (by decide : 0 < 32))
    isAllocated.listed
  rw [← hashIndexConvert40To64Bits_eq]
  exact congrArg (fun entry => entry.place.2) entry

/-- The room behind the last subtable is enough for its buckets, but a pointer
has no room for an address of more than 48 bits. -/
theorem inHashArea_iff (isAllocated : IsAllocated conf (hashPrefix hashValue) replica server addr) :
    (∀ byte, (initialTable conf root).InBuckets hashValue replica byte → InHashArea conf byte) ↔
      addr < 2 ^ 48 := by
  have off := subtableOff_initialTable root isAllocated
  obtain ⟨_, _, same⟩ := isAllocated.exists_index
  rw [subtableAddr_eq] at same
  have first := subtableFirstIndex_lt hashValue
  have second := secondIndex_lt hashValue
  have area : metaAreaLen = 268435456 ∧ gcAreaLen = 0 ∧ hashAreaLen = 134217728 := by decide
  simp only [InHashArea, area, RaceHashRoot.InBuckets, InCombinedBucket, RaceHashRoot.fBucketAddr,
    RaceHashRoot.sBucketAddr, off, fIdx_eq, sIdx_eq, sizeofRaceHashBucket]
  constructor
  · intro inside
    have start := inside _ (.inl ⟨Nat.le_refl _, Nat.lt_add_of_pos_right (by decide)⟩)
    omega
  · intro fits byte within
    omega

theorem subtableOff_eq_start
    (isAllocated : IsAllocated conf (hashPrefix hashValue) replica server addr)
    (fits : addr < 2 ^ 48) {index : ℕ}
    (same : addr = subtableAddr conf.serverBaseAddr.toNat index) :
    (initialTable conf root).subtableOff hashValue replica =
      (conf.serverBaseAddr.toNat + 268438272) / 256 * 256 + index * 2176000 := by
  rw [subtableAddr_eq] at same
  rw [subtableOff_initialTable root isAllocated]
  omega

theorem bucketsApart_initialTable {otherAddr : ℕ} (ne : hashPrefix hashValue ≠ hashPrefix other)
    (isAllocated : IsAllocated conf (hashPrefix hashValue) replica server addr)
    (otherAllocated : IsAllocated conf (hashPrefix other) otherReplica server otherAddr)
    (fits : addr < 2 ^ 48) (otherFits : otherAddr < 2 ^ 48) :
    BucketsApart (initialTable conf root) hashValue other replica otherReplica ↔
      ¬(otherAddr = addr + subtableLen ∧ MeetBehind hashValue other) ∧
        ¬(addr = otherAddr + subtableLen ∧ MeetBehind other hashValue) := by
  have addrs := isAllocated.addr_ne ne otherAllocated
  obtain ⟨index, -, same⟩ := isAllocated.exists_index
  obtain ⟨otherIndex, -, otherSame⟩ := otherAllocated.exists_index
  have off := subtableOff_eq_start root isAllocated fits same
  have otherOff := subtableOff_eq_start root otherAllocated otherFits otherSame
  have stride : subtableLen = 2176000 := by decide
  rw [subtableAddr_eq] at same otherSame
  have indices : index ≠ otherIndex := by
    rintro rfl
    exact addrs (same.trans otherSame.symm)
  have next : otherAddr = addr + subtableLen ↔ otherIndex = index + 1 := by omega
  have previous : addr = otherAddr + subtableLen ↔ index = otherIndex + 1 := by omega
  rw [next, previous]
  obtain before | behind := Nat.lt_or_gt_of_ne indices
  · have forward : ¬(index = otherIndex + 1 ∧ MeetBehind other hashValue) := by omega
    rw [bucketsApart_of_lt before off otherOff]
    exact (and_iff_left forward).symm
  · have backward : ¬(otherIndex = index + 1 ∧ MeetBehind hashValue other) := by omega
    rw [bucketsApart_comm, bucketsApart_of_lt behind otherOff off]
    exact (and_iff_right backward).symm

/-- The buckets lie in the hash area as long as the pointer to their subtable is
not truncated.  The second buckets of a hash value and the first buckets of another
one may be the same, if the subtable of the other one is the next on the server. -/
theorem buckets_iff (conf : GlobalConfig) (root : RaceHashRoot) :
    (∀ hashValue replica server addr,
      IsAllocated conf (hashPrefix hashValue) replica server addr →
        ((∀ byte, (initialTable conf root).InBuckets hashValue replica byte →
          InHashArea conf byte) ↔ addr < 2 ^ 48)) ∧
    ∀ hashValue other replica otherReplica server addr otherAddr,
      hashPrefix hashValue ≠ hashPrefix other →
      IsAllocated conf (hashPrefix hashValue) replica server addr →
      IsAllocated conf (hashPrefix other) otherReplica server otherAddr →
      addr < 2 ^ 48 → otherAddr < 2 ^ 48 →
        (BucketsApart (initialTable conf root) hashValue other replica otherReplica ↔
          ¬(otherAddr = addr + subtableLen ∧ MeetBehind hashValue other) ∧
            ¬(addr = otherAddr + subtableLen ∧ MeetBehind other hashValue)) := by
  constructor
  · intro hashValue replica server addr isAllocated
    exact inHashArea_iff root isAllocated
  · intro hashValue other replica otherReplica server addr otherAddr ne isAllocated
      otherAllocated fits otherFits
    exact bucketsApart_initialTable root ne isAllocated otherAllocated fits otherFits

end Table

/-! ## Two servers -/

def twoServersConfig : GlobalConfig where
  serverId := 2
  memoryNum := 2
  serverBaseAddr := 0x10000000
  serverDataLen := 0x800000000
  blockSize := 0x4000000
  numReplication := 1
  numIdxRep := 1
  mainCoreId := 0
  pollCoreId := 1

def emptyRoot : RaceHashRoot :=
  ⟨fun _ _ => ⟨0, [0, 0, 0, 0, 0]⟩⟩

theorem isAllocated_twoServers :
    IsAllocated twoServersConfig 0 0 0 0x20000b00 ∧
      IsAllocated twoServersConfig 2 0 0 (0x20000b00 + subtableLen) :=
  ⟨⟨by decide +kernel, by decide +kernel, by decide +kernel⟩,
    ⟨by decide +kernel, by decide +kernel, by decide +kernel⟩⟩

theorem buckets_iff_twoServers :
    (∀ byte, (initialTable twoServersConfig emptyRoot).InBuckets 0 0 byte →
      InHashArea twoServersConfig byte) ∧
    BucketsApart (initialTable twoServersConfig emptyRoot) 0 0x200000000 0 0 := by
  obtain ⟨inside, apart⟩ := buckets_iff twoServersConfig emptyRoot
  obtain ⟨first, second⟩ := isAllocated_twoServers
  refine ⟨(inside 0 0 0 _ first).mpr (by decide), ?_⟩
  apply (apart 0 0x200000000 0 0 0 _ _ (by decide) first second (by decide) (by decide)).mpr
  unfold MeetBehind
  decide +kernel

/-- The second buckets of the hash value 0 are the first buckets of another hash
value with the prefix 2. -/
theorem not_bucketsApart_twoServers :
    IsAllocated twoServersConfig (hashPrefix 0) 0 0 0x20000b00 ∧
      IsAllocated twoServersConfig (hashPrefix 0x2000008bb) 0 0 (0x20000b00 + subtableLen) ∧
      ¬ BucketsApart (initialTable twoServersConfig emptyRoot) 0 0x2000008bb 0 0 := by
  obtain ⟨first, second⟩ := isAllocated_twoServers
  refine ⟨first, second, fun apart => ?_⟩
  rw [bucketsApart_iff] at apart
  unfold CombinedApart at apart
  revert apart
  decide +kernel

end FuseeFs.Index
