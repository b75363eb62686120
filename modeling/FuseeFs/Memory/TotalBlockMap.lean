import FuseeFs.Library.RoundRobin
import FuseeFs.Memory.Ownership

/-!
# The replicas of every block

Besides the backups of the primary blocks, `get_block_map` records for every
block the other blocks of its group (`total_block_map_`).  The loop is the one
that fills `alloc_block_map_`, with another step at the end of a round.
-/

namespace FuseeFs.Memory.Placement

open List Option Library Memory.Ownership

section Loop

variable {Map : Type} {area : Area} {enter : Map → List UInt64 → Map}

theorem isSome_mapLoop {Other : Type} {enterOther : Other → List UInt64 → Other}
    {remaining blockCnt : ℕ} {mnAddrPtr : MnAddrPtr} (map : Map) (other : Other) :
    (mapLoop area enter remaining blockCnt mnAddrPtr map).isSome =
      (mapLoop area enterOther remaining blockCnt mnAddrPtr other).isSome := by
  induction remaining generalizing blockCnt mnAddrPtr map other with
  | zero => rfl
  | succ remaining ih =>
    rw [mapLoop, mapLoop]
    cases skipFull area mnAddrPtr (blockCnt % area.numMemory) with
    | none => rfl
    | some stSid =>
      rw [bind_some, bind_some]
      cases takeBlocks area mnAddrPtr (replicaSids area stSid) with
      | none => rfl
      | some taken =>
        dsimp only [bind_some]
        split_ifs
        · rfl
        · exact ih _ _

end Loop

abbrev TotalBlockMap := UInt64 → Option (List UInt64)

/-- The two loops over a group: `total_block_map_[addr_list[i]]` gets all
`addr_list[j]` with another index. -/
def enterTotal (map : TotalBlockMap) (addrList : List UInt64) : TotalBlockMap :=
  (List.finRange addrList.length).foldl
    (fun map i => (((List.finRange addrList.length).filter (· ≠ i)).map addrList.get).foldl
      (pushBack (addrList.get i)) map)
    map

def totalBlockMapOf (groups : List (List BlockAddr)) : TotalBlockMap :=
  groups.foldl (fun map group => enterTotal map (group.map tagged)) fun _ => none

def getTotalBlockMap (conf : GlobalConfig) : Option TotalBlockMap :=
  if conf.blockSize.toUInt32 = 0 ∨ conf.numReplication = 0 then none
  else
    mapLoop (clientArea conf) enterTotal (clientArea conf).numRepBlocks 0
      (fun _ => (clientArea conf).kvAreaAddr) fun _ => none

def TotalBlockMap.others (map : TotalBlockMap) (key : UInt64) : List UInt64 :=
  (map key).getD []

section Others

variable (map : TotalBlockMap)

theorem others_pushBack (key value other : UInt64) :
    TotalBlockMap.others (pushBack key map value) other =
      map.others other ++ if other = key then [value] else [] := by
  by_cases same : other = key
  · simp [TotalBlockMap.others, pushBack, same]
  · simp [TotalBlockMap.others, pushBack, same]

theorem others_foldl_pushBack (key other : UInt64) (values : List UInt64) :
    TotalBlockMap.others (values.foldl (pushBack key) map) other =
      map.others other ++ if other = key then values else [] := by
  induction values generalizing map with
  | nil => simp
  | cons value values ih =>
    rw [foldl_cons, ih, others_pushBack]
    split_ifs <;> simp

variable {addrList : List UInt64}

/-- The rounds of the outer loop: only the one for the block adds to its entry. -/
theorem others_foldl (nodup : addrList.Nodup) (indices : List (Fin addrList.length))
    (distinct : indices.Nodup) (i : Fin addrList.length) :
    TotalBlockMap.others (indices.foldl (fun map i =>
      (((List.finRange addrList.length).filter (· ≠ i)).map addrList.get).foldl
        (pushBack (addrList.get i)) map) map) (addrList.get i) =
      map.others (addrList.get i) ++
        if i ∈ indices then ((List.finRange addrList.length).filter (· ≠ i)).map addrList.get
        else [] := by
  induction indices generalizing map with
  | nil => simp
  | cons first rest ih =>
    obtain ⟨new, distinct⟩ := nodup_cons.mp distinct
    rw [foldl_cons, ih _ distinct, others_foldl_pushBack]
    by_cases same : i = first
    · subst same
      simp [new]
    · have apart : addrList.get i ≠ addrList.get first := fun equal =>
        same (nodup_iff_injective_get.mp nodup equal)
      rw [if_neg apart, append_nil]
      simp [same]

variable {key : UInt64}

theorem others_foldl_of_not_mem (absent : key ∉ addrList) (indices : List (Fin addrList.length)) :
    TotalBlockMap.others (indices.foldl (fun map i =>
      (((List.finRange addrList.length).filter (· ≠ i)).map addrList.get).foldl
        (pushBack (addrList.get i)) map) map) key = map.others key := by
  induction indices generalizing map with
  | nil => rfl
  | cons first rest ih =>
    have apart : key ≠ addrList.get first := fun equal => absent (equal ▸ List.get_mem _ _)
    rw [foldl_cons, ih, others_foldl_pushBack, if_neg apart, append_nil]

theorem map_get_filter_finRange (nodup : addrList.Nodup) (i : Fin addrList.length) :
    ((List.finRange addrList.length).filter (· ≠ i)).map addrList.get =
      addrList.filter (· ≠ addrList.get i) := by
  have mem : (List.finRange addrList.length).map addrList.get = addrList := by simp
  have whole := congrArg (List.filter (· ≠ addrList.get i)) mem
  rw [← whole, List.filter_map]
  congr 1
  refine filter_congr fun j _ => ?_
  have injective := nodup_iff_injective_get.mp nodup
  by_cases same : j = i
  · simp [same]
  · have apart : addrList.get j ≠ addrList.get i := fun equal => same (injective equal)
    simpa [same] using apart

theorem others_enterTotal (nodup : addrList.Nodup) (mem : key ∈ addrList) :
    (enterTotal map addrList).others key = map.others key ++ addrList.filter (· ≠ key) := by
  obtain ⟨i, rfl⟩ := List.get_of_mem mem
  rw [enterTotal, others_foldl map nodup _ (nodup_finRange _), if_pos (mem_finRange i),
    map_get_filter_finRange nodup]

theorem others_enterTotal_of_not_mem (absent : key ∉ addrList) :
    (enterTotal map addrList).others key = map.others key :=
  others_foldl_of_not_mem map absent _

end Others

section Sound

variable {conf : GlobalConfig} {groups : List (List BlockAddr)}

theorem others_foldl_enterTotal_of_not_mem (map : TotalBlockMap) {key : UInt64}
    (absent : key ∉ groups.flatten.map tagged) :
    TotalBlockMap.others (groups.foldl (fun map group => enterTotal map (group.map tagged)) map)
      key = map.others key := by
  induction groups generalizing map with
  | nil => rfl
  | cons group groups ih =>
    rw [flatten_cons, map_append, mem_append, not_or] at absent
    rw [foldl_cons, ih _ absent.2, others_enterTotal_of_not_mem map absent.1]

variable {group : List BlockAddr}

theorem others_foldl_enterTotal (map : TotalBlockMap) (nodup : (groups.flatten.map tagged).Nodup)
    (mem : group ∈ groups) {key : UInt64} (inGroup : key ∈ group.map tagged) :
    TotalBlockMap.others (groups.foldl (fun map group => enterTotal map (group.map tagged)) map)
      key = map.others key ++ (group.map tagged).filter (· ≠ key) := by
  induction groups generalizing map with
  | nil => cases mem
  | cons first groups ih =>
    rw [flatten_cons, map_append] at nodup
    obtain ⟨firstNodup, restNodup, apart⟩ := nodup_append'.mp nodup
    obtain rfl | mem := mem_cons.mp mem
    · rw [foldl_cons, others_foldl_enterTotal_of_not_mem _ (apart inGroup),
        others_enterTotal map firstNodup inGroup]
    · have later : key ∈ groups.flatten.map tagged :=
        (sublist_flatten_of_mem mem).map tagged |>.subset inGroup
      rw [foldl_cons, ih _ restNodup mem,
        others_enterTotal_of_not_mem map fun again => apart again later]

theorem others_totalBlockMapOf (sound : Sound conf groups) (mem : group ∈ groups)
    {block : BlockAddr} (inGroup : block ∈ group) :
    (totalBlockMapOf groups).others (tagged block) = (group.filter (· ≠ block)).map tagged := by
  have aligned : ∀ other ∈ group, other.2.toNat % 256 = 0 := fun other inside =>
    sound.aligned other (mem_flatten_of_mem mem inside)
  have nodup : (groups.flatten.map tagged).Nodup := by
    refine List.Nodup.map_on ?_ sound.nodup
    exact fun block mem other otherListed same =>
      tagged_inj (sound.aligned block mem) (sound.aligned other otherListed) same
  refine (others_foldl_enterTotal _ nodup mem (List.mem_map_of_mem inGroup)).trans ?_
  rw [List.filter_map]
  refine congrArg (List.map tagged) (filter_congr fun other inside => ?_)
  by_cases same : other = block
  · simp [same]
  · have apart : tagged other ≠ tagged block := fun equal =>
      same (tagged_inj (aligned other inside) (aligned block inGroup) equal)
    simp [same, apart]

structure PlacementSound (conf : GlobalConfig) (groups : List (List BlockAddr))
    (map : TotalBlockMap) : Prop where
  replicas : ∀ group ∈ groups, group.length = conf.numReplication.toNat ∧
    (group.map Prod.fst).Nodup ∧ ∀ block ∈ group, block.1.toNat < conf.memoryNum.toNat
  once : groups.flatten.Nodup
  disjoint : groups.flatten.Pairwise (Apart conf.blockSize)
  complete : ∀ group ∈ groups, ∀ block ∈ group,
    map.others (tagged block) = (group.filter (· ≠ block)).map tagged
  symmetric : ∀ block ∈ groups.flatten, ∀ other ∈ groups.flatten,
    tagged other ∈ map.others (tagged block) ↔ tagged block ∈ map.others (tagged other)

theorem serverId_lt (sound : Sound conf groups) (few : conf.memoryNum.toNat ≤ 256)
    (enough : conf.numReplication.toNat ≤ conf.memoryNum.toNat) (mem : group ∈ groups)
    {block : BlockAddr} (inGroup : block ∈ group) : block.1.toNat < conf.memoryNum.toNat := by
  obtain ⟨stSid, servers⟩ := sound.servers group mem
  have sid : block.1 ∈ replicaSids (clientArea conf) stSid := servers ▸ List.mem_map_of_mem inGroup
  obtain ⟨index, inRange, same⟩ := List.mem_map.mp sid
  have bound : index < conf.numReplication.toNat := mem_range.mp inRange
  have less : (stSid + index) % (clientArea conf).numMemory < conf.memoryNum.toNat :=
    Nat.mod_lt _ (show 0 < conf.memoryNum.toNat by omega)
  rw [← same, UInt8.toNat_ofNat_of_lt' (less.trans_le few)]
  exact less

theorem PlacementSound.of_sound (sound : Sound conf groups) (few : conf.memoryNum.toNat ≤ 256)
    (enough : conf.numReplication.toNat ≤ conf.memoryNum.toNat) :
    PlacementSound conf groups (totalBlockMapOf groups) := by
  have complete : ∀ group ∈ groups, ∀ block ∈ group,
      (totalBlockMapOf groups).others (tagged block) = (group.filter (· ≠ block)).map tagged :=
    fun group mem block inGroup => others_totalBlockMapOf sound mem inGroup
  -- an entry lists the tags of blocks, which are different for different blocks
  have mem_others : ∀ group ∈ groups, ∀ block ∈ group, ∀ other ∈ groups.flatten,
      tagged other ∈ (totalBlockMapOf groups).others (tagged block) ↔
        other ∈ group ∧ other ≠ block := by
    intro group mem block inGroup other otherListed
    rw [complete group mem block inGroup, List.mem_map]
    constructor
    · rintro ⟨same, inside, tags⟩
      obtain ⟨inside, apart⟩ := mem_filter.mp inside
      obtain rfl := tagged_inj (sound.aligned same (mem_flatten_of_mem mem inside))
        (sound.aligned other otherListed) tags
      exact ⟨inside, of_decide_eq_true apart⟩
    · exact fun ⟨inside, apart⟩ =>
        ⟨other, mem_filter.mpr ⟨inside, decide_eq_true apart⟩, rfl⟩
  refine ⟨?_, sound.nodup, ?_, complete, ?_⟩
  · exact fun group mem => ⟨sound.length_eq mem, sound.nodup_servers few enough mem,
      fun block inGroup => serverId_lt sound few enough mem inGroup⟩
  · refine sound.nodup.pairwise_of_forall_ne fun block mem other otherListed ne => ?_
    exact @apart_of_ne (clientArea conf) block other (sound.onGrid block mem)
      (sound.onGrid other otherListed) ne
  · intro block mem other otherListed
    obtain ⟨group, inGroups, inGroup⟩ := List.mem_flatten.mp mem
    obtain ⟨otherGroup, otherInGroups, otherInGroup⟩ := List.mem_flatten.mp otherListed
    rw [mem_others group inGroups block inGroup other otherListed,
      mem_others otherGroup otherInGroups other otherInGroup block mem]
    constructor
    · rintro ⟨inside, apart⟩
      obtain rfl := eq_of_mem_of_nodup_flatten sound.nodup inGroups otherInGroups inside otherInGroup
      exact ⟨inGroup, apart.symm⟩
    · rintro ⟨inside, apart⟩
      obtain rfl := eq_of_mem_of_nodup_flatten sound.nodup inGroups otherInGroups inGroup inside
      exact ⟨otherInGroup, apart.symm⟩

theorem getTotalBlockMap_eq {map : TotalBlockMap} (mapped : getTotalBlockMap conf = some map) :
    0 < conf.blockSize.toUInt32.toNat ∧ 0 < conf.numReplication.toNat ∧
      ∃ groups, placements (clientArea conf) = some groups ∧ map = totalBlockMapOf groups := by
  unfold getTotalBlockMap at mapped
  split_ifs at mapped with degenerate
  obtain ⟨blockSize, numReplication⟩ := not_or.mp degenerate
  exact ⟨toNat_pos_of_ne_zero blockSize, toNat_pos_of_ne_zero numReplication, mapLoop_eq mapped⟩

theorem isSome_getTotalBlockMap (conf : GlobalConfig) :
    (getTotalBlockMap conf).isSome = (getBlockMap conf).isSome := by
  unfold getTotalBlockMap getBlockMap
  split_ifs
  · rfl
  · rw [getBlockMapLoop_eq_mapLoop]
    exact isSome_mapLoop _ _

theorem placementSound_of_getTotalBlockMap (baseAligned : conf.serverBaseAddr.toNat % 256 = 0)
    (blockAligned : conf.blockSize.toNat % 256 = 0) (few : conf.memoryNum.toNat ≤ 256)
    (enough : conf.numReplication.toNat ≤ conf.memoryNum.toNat)
    (bound : conf.serverBaseAddr.toNat + conf.serverDataLen.toNat ≤ 2 ^ 63)
    {map : TotalBlockMap} (mapped : getTotalBlockMap conf = some map) :
    ∃ groups, placements (clientArea conf) = some groups ∧ PlacementSound conf groups map := by
  obtain ⟨pos, replicas, groups, finished, rfl⟩ := getTotalBlockMap_eq mapped
  refine ⟨groups, finished, .of_sound ?_ few enough⟩
  exact sound_of_placements pos replicas bound finished baseAligned blockAligned

theorem placementSound_of_getTotalBlockMap_twoServers :
    ∃ map groups, getTotalBlockMap twoServers = some map ∧
      placements (clientArea twoServers) = some groups ∧ groups.length = 2 ∧
      PlacementSound twoServers groups map := by
  have mapped : (getTotalBlockMap twoServers).isSome := by
    rw [isSome_getTotalBlockMap]
    decide +kernel
  obtain ⟨map, mapped⟩ := isSome_iff_exists.mp mapped
  obtain ⟨groups, finished, sound⟩ := placementSound_of_getTotalBlockMap (by decide) (by decide)
    (by decide) (by decide) (by decide) mapped
  refine ⟨map, groups, mapped, finished, ?_, sound⟩
  exact (length_placeLoop finished).trans (by decide)

end Sound

end FuseeFs.Memory.Placement
