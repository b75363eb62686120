import FuseeFs.Library.BitFields
import FuseeFs.Memory.TotalBlockMap

/-!
# The words of the block maps

`get_block_map` stores a block as one word, its address with the server in the
lowest byte, and is meant to stop at an address that has no room for the server.
Its test `addr & 0xFF != 0` only looks at the lowest bit.  Which words can be
decoded therefore depends on the configuration.
-/

namespace FuseeFs.Memory.Placement

open List Function Library.BitFields Memory.Ownership

section Placed

variable {area : Area}
variable {mnAddrPtr after : MnAddrPtr} {blocks : List BlockAddr}
  (placed : Placed area mnAddrPtr blocks after)
include placed

theorem Placed.exists_first {sid : UInt8} (present : sid ∈ blocks.map Prod.fst) :
    (sid, mnAddrPtr sid.toNat) ∈ blocks := by
  induction placed with
  | nil => cases present
  | cons first _ rest ih =>
    by_cases same : sid = first
    · rw [same]
      exact mem_cons_self
    · have later := ih (mem_of_ne_of_mem same present)
      rw [update_of_ne (mt UInt8.toNat_inj.mp same)] at later
      exact mem_cons_of_mem _ later

theorem Placed.exists_next (twice : ¬ (blocks.map Prod.fst).Nodup) :
    ∃ block ∈ blocks, ∃ next ∈ blocks, next.2 = block.2 + area.blockSize := by
  induction placed with
  | nil => exact absurd nodup_nil twice
  | @cons mnAddrPtr after blocks sid _ rest ih =>
    by_cases again : sid ∈ blocks.map Prod.fst
    · have next := rest.exists_first again
      rw [update_self] at next
      exact ⟨_, mem_cons_self, _, mem_cons_of_mem _ next, rfl⟩
    · have later : ¬ (blocks.map Prod.fst).Nodup := fun nodup =>
        twice (nodup_cons.mpr ⟨again, nodup⟩)
      obtain ⟨block, mem, next, nextListed, step⟩ := ih later
      exact ⟨block, mem_cons_of_mem _ mem, next, mem_cons_of_mem _ nextListed, step⟩

theorem Placed.eq_first (once : (blocks.map Prod.fst).Nodup) {block : BlockAddr}
    (mem : block ∈ blocks) : block.2 = mnAddrPtr block.1.toNat := by
  induction placed with
  | nil => cases mem
  | cons sid _ rest ih =>
    obtain ⟨new, once⟩ := nodup_cons.mp once
    obtain rfl | mem := mem_cons.mp mem
    · rfl
    · have server : block.1 ∈ _ := mem_map_of_mem mem
      have ne : block.1 ≠ sid := ne_of_mem_of_not_mem server new
      rw [ih once mem, update_of_ne (mt UInt8.toNat_inj.mp ne)]

omit placed in
theorem Placed.nodup_of_full (full : area.kvAreaAddr + area.blockSize = area.limitAddr)
    (placed : Placed area mnAddrPtr blocks after)
    (start : ∀ sid, mnAddrPtr sid = area.kvAreaAddr ∨ mnAddrPtr sid = area.limitAddr) :
    (blocks.map Prod.fst).Nodup := by
  induction placed with
  | nil => exact nodup_nil
  | @cons mnAddrPtr _ _ sid below rest ih =>
    have first : mnAddrPtr sid.toNat + area.blockSize = area.limitAddr := by
      obtain empty | taken := start sid.toNat
      · rw [empty, full]
      · rw [taken] at below
        exact absurd below (lt_irrefl _)
    rw [first] at rest ih
    refine nodup_cons.mpr ⟨fun again => ?_, ih fun other => ?_⟩
    · have below := rest.lt_limitAddr _ (rest.exists_first again)
      rw [update_self] at below
      exact lt_irrefl _ below
    · by_cases same : other = sid.toNat
      · rw [same, update_self]
        exact .inr rfl
      · rw [update_of_ne same]
        exact start other

/-- The next addresses of the servers when each of those in `seen` has one block. -/
def OneEach (area : Area) (seen : List UInt8) (mnAddrPtr : MnAddrPtr) : Prop :=
  ∀ sid, mnAddrPtr sid =
    if sid ∈ seen.map UInt8.toNat then area.kvAreaAddr + area.blockSize else area.kvAreaAddr

theorem Placed.oneEach {seen : List UInt8} (start : OneEach area seen mnAddrPtr)
    (once : (seen ++ blocks.map Prod.fst).Nodup) :
    OneEach area (seen ++ blocks.map Prod.fst) after := by
  induction placed generalizing seen with
  | nil =>
    rw [map_nil, append_nil]
    exact start
  | @cons mnAddrPtr _ blocks sid _ rest ih =>
    rw [map_cons, append_cons] at once ⊢
    refine ih (fun other => ?_) once
    have new : sid.toNat ∉ seen.map UInt8.toNat := by
      rw [mem_map_of_injective fun _ _ => UInt8.toNat_inj.mp]
      exact fun mem => (nodup_append'.mp (nodup_append'.mp once).1).2.2 mem mem_cons_self
    by_cases same : other = sid.toNat
    · simp [same, start sid.toNat, new]
    · simp [start other, same]

end Placed

section Servers

variable {area : Area}

theorem skipFull_eq_start {mnAddrPtr : MnAddrPtr} {blockCnt stSid : ℕ}
    (notFull : mnAddrPtr (blockCnt % area.numMemory) ≠ area.limitAddr)
    (skipped : skipFull area mnAddrPtr (blockCnt % area.numMemory) = some stSid) :
    stSid = blockCnt % area.numMemory := by
  have pos := Nat.zero_lt_of_lt (skipFull_lt skipped).1
  obtain ⟨_, equal⟩ := Nat.exists_eq_succ_of_ne_zero pos.ne'
  rw [skipFull, equal, range_succ_eq_map, map_cons, Nat.add_zero, Nat.mod_mod, ← equal,
    find?_cons, decide_eq_true notFull] at skipped
  exact (Option.some.inj skipped).symm

/-- The servers of the groups if no server becomes full. -/
def roundSids (area : Area) (blockCnt remaining : ℕ) : List UInt8 :=
  (List.range' blockCnt remaining).flatMap fun cnt => replicaSids area (cnt % area.numMemory)

/-- No server becomes full before one of them is used twice. -/
theorem nodup_placeLoop_iff (notFull : area.kvAreaAddr ≠ area.limitAddr)
    (spacious : area.kvAreaAddr + area.blockSize ≠ area.limitAddr) {remaining blockCnt : ℕ}
    {mnAddrPtr : MnAddrPtr} {groups : List (List BlockAddr)} {seen : List UInt8}
    (finished : placeLoop area remaining blockCnt mnAddrPtr = some groups)
    (start : OneEach area seen mnAddrPtr) :
    (seen ++ groups.flatten.map Prod.fst).Nodup ↔
      (seen ++ roundSids area blockCnt remaining).Nodup := by
  induction remaining generalizing blockCnt mnAddrPtr groups seen with
  | zero =>
    obtain rfl := Option.some.inj finished
    rfl
  | succ remaining ih =>
    obtain ⟨stSid, skipped, finished⟩ := Option.bind_eq_some_iff.mp finished
    obtain ⟨taken, placed, finished⟩ := Option.bind_eq_some_iff.mp finished
    obtain ⟨_, later, rfl⟩ := Option.map_eq_some_iff.mp finished
    have first : stSid = blockCnt % area.numMemory := by
      refine skipFull_eq_start ?_ skipped
      rw [start]
      split_ifs
      · exact spacious
      · exact notFull
    have sids := first ▸ map_fst_takeBlocks placed
    rw [roundSids, range'_succ, flatMap_cons, flatten_cons, map_append, ← sids,
      ← append_assoc, ← append_assoc]
    by_cases once : (seen ++ taken.1.map Prod.fst).Nodup
    · exact ih later ((placed_takeBlocks placed).oneEach start once)
    · exact iff_of_false (fun nodup => once nodup.of_append_left)
        fun nodup => once nodup.of_append_left

theorem nodup_sids_iff {servers : ℕ} (pos : 0 < servers) (count : ℕ) :
    ((List.range count).map fun index => UInt8.ofNat (index % servers)).Nodup ↔
      count ≤ min servers 256 := by
  constructor
  · intro nodup
    by_contra more
    have zero : UInt8.ofNat (0 % servers) = UInt8.ofNat (min servers 256 % servers) := by
      obtain few | many := Nat.le_total servers 256
      · rw [min_eq_left few, Nat.mod_self, Nat.zero_mod]
      · obtain rfl | many := many.eq_or_lt
        · rfl
        · rw [min_eq_right many.le, Nat.mod_eq_of_lt many, Nat.zero_mod]
          rfl
    have same := inj_on_of_nodup_map nodup (mem_range.mpr (by omega))
      (mem_range.mpr (by omega)) zero
    omega
  · intro few
    refine nodup_range.map_on fun left inRange right otherInRange same => ?_
    rw [mem_range] at inRange otherInRange
    have sids := congrArg UInt8.toNat same
    have small : ∀ index < count, (UInt8.ofNat (index % servers)).toNat = index := by
      intro index bound
      rw [Nat.mod_eq_of_lt (by omega)]
      exact UInt8.toNat_ofNat_of_lt' (show index < 256 by omega)
    rwa [small left inRange, small right otherInRange] at sids

/-- No server has more than one block: the area has room for one, or there is one
group, or a group for each server. -/
def OneBlockEach (area : Area) : Prop :=
  area.kvAreaAddr + area.blockSize = area.limitAddr ∨
    (area.numRepBlocks = 1 ∧ area.numReplication ≤ min area.numMemory 256) ∨
    (area.numReplication = 1 ∧ area.numRepBlocks ≤ min area.numMemory 256)

theorem nodup_roundSids_iff (servers : 0 < area.numMemory) (replicas : 0 < area.numReplication)
    (blocks : 0 < area.numRepBlocks) :
    (roundSids area 0 area.numRepBlocks).Nodup ↔
      (area.numRepBlocks = 1 ∧ area.numReplication ≤ min area.numMemory 256) ∨
        (area.numReplication = 1 ∧ area.numRepBlocks ≤ min area.numMemory 256) := by
  by_cases group : area.numRepBlocks = 1
  · have sids : roundSids area 0 area.numRepBlocks =
        (List.range area.numReplication).map fun index => UInt8.ofNat (index % area.numMemory) := by
      simp [roundSids, group, replicaSids]
    rw [sids, nodup_sids_iff servers]
    omega
  by_cases single : area.numReplication = 1
  · have sids : roundSids area 0 area.numRepBlocks =
        (List.range area.numRepBlocks).map fun index => UInt8.ofNat (index % area.numMemory) := by
      simp [roundSids, single, replicaSids, ← range_eq_range', map_eq_flatMap]
    rw [sids, nodup_sids_iff servers]
    omega
  refine iff_of_false (fun nodup => ?_) (by omega)
  -- the second group begins where the first one goes on
  obtain ⟨others, equal⟩ : ∃ others, area.numRepBlocks = others + 2 := ⟨area.numRepBlocks - 2, by omega⟩
  have disjoint := (nodup_flatMap.mp nodup).2
  rw [equal, range'_succ, range'_succ] at disjoint
  have apart := (pairwise_cons.mp disjoint).1 1 mem_cons_self
  refine apart (mem_map.mpr ⟨1, mem_range.mpr (by omega), rfl⟩)
    (mem_map.mpr ⟨0, mem_range.mpr replicas, ?_⟩)
  simp

theorem nodup_servers_iff {groups : List (List BlockAddr)} (finished : placements area = some groups)
    (replicas : 0 < area.numReplication) {block : BlockAddr} (mem : block ∈ groups.flatten) :
    (groups.flatten.map Prod.fst).Nodup ↔ OneBlockEach area := by
  obtain ⟨_, placed⟩ := placed_placeLoop finished
  by_cases full : area.kvAreaAddr + area.blockSize = area.limitAddr
  · exact iff_of_true (placed.nodup_of_full full fun _ => .inl rfl) (.inl full)
  have blocks : 0 < area.numRepBlocks := by
    obtain ⟨_, inGroups, -⟩ := List.mem_flatten.mp mem
    rw [← length_placeLoop finished]
    exact length_pos_of_mem inGroups
  have notFull : area.kvAreaAddr ≠ area.limitAddr := by
    intro same
    have below := placed.lt_limitAddr _ (placed.exists_first (mem_map_of_mem mem))
    exact absurd (congrArg UInt64.toNat same) below.ne
  have servers : 0 < area.numMemory := by
    obtain ⟨_, equal⟩ := Nat.exists_eq_succ_of_ne_zero blocks.ne'
    rw [placements, equal] at finished
    obtain ⟨_, skipped, -⟩ := Option.bind_eq_some_iff.mp finished
    exact Nat.zero_lt_of_lt (skipFull_lt skipped).1
  have rounds := @nodup_placeLoop_iff area notFull full _ _ _ _ [] finished fun _ => rfl
  rw [nil_append, nil_append, nodup_roundSids_iff servers replicas blocks] at rounds
  exact rounds.trans (or_iff_right full).symm

end Servers

section Words

def Words (second : UInt64 → Option (List UInt64)) : Set UInt64 :=
  {word | (second word).isSome ∨ ∃ key, word ∈ (second key).getD []}

theorem words_empty : Words (fun _ => none) = ∅ := by
  simp [Words]

theorem words_pushBack (key value : UInt64) (second : UInt64 → Option (List UInt64)) :
    Words (pushBack key second value) = insert key (insert value (Words second)) := by
  ext word
  have keys : (pushBack key second value word).isSome ↔ word = key ∨ (second word).isSome := by
    by_cases same : word = key <;> simp [pushBack, same]
  have mem : ∀ other, word ∈ (pushBack key second value other).getD [] ↔
      word ∈ (second other).getD [] ∨ other = key ∧ word = value := by
    intro other
    by_cases same : other = key <;> simp [pushBack, same]
  simp only [Words, Set.mem_ofPred_eq, Set.mem_insert_iff, keys, mem, exists_or, exists_eq_left]
  tauto

variable {word : UInt64}

theorem mem_words_foldl_pushBack {key : UInt64} (values : List UInt64)
    (second : UInt64 → Option (List UInt64)) :
    word ∈ Words (values.foldl (pushBack key) second) ↔
      word ∈ Words second ∨ ∃ value ∈ values, word = key ∨ word = value := by
  induction values generalizing second with
  | nil => simp
  | cons value values ih =>
    rw [foldl_cons, ih, words_pushBack, Set.mem_insert_iff, Set.mem_insert_iff, exists_mem_cons_iff]
    simp only [or_assoc, or_left_comm]

theorem mem_words_enterTotal (map : TotalBlockMap) (addrList : List UInt64) :
    word ∈ Words (enterTotal map addrList) ↔
      word ∈ Words map ∨ ∃ i j : Fin addrList.length, j ≠ i ∧ word = addrList.get i := by
  have rounds : ∀ (indices : List (Fin addrList.length)) (map : TotalBlockMap),
      word ∈ Words (indices.foldl (fun map i =>
        (((List.finRange addrList.length).filter (· ≠ i)).map addrList.get).foldl
          (pushBack (addrList.get i)) map) map) ↔
      word ∈ Words map ∨ ∃ i ∈ indices, ∃ j, j ≠ i ∧
        (word = addrList.get i ∨ word = addrList.get j) := by
    intro indices
    induction indices with
    | nil => simp
    | cons first rest ih =>
      intro map
      rw [foldl_cons, ih, mem_words_foldl_pushBack, exists_mem_cons_iff]
      simp [or_assoc]
  rw [enterTotal, rounds]
  refine or_congr_right ⟨?_, ?_⟩
  · rintro ⟨i, -, j, ne, same | same⟩
    · exact ⟨i, j, ne, same⟩
    · exact ⟨j, i, ne.symm, same⟩
  · rintro ⟨i, j, ne, same⟩
    exact ⟨i, mem_finRange i, j, ne, .inl same⟩

theorem exists_ne_get_iff {addrList : List UInt64} :
    (∃ i j : Fin addrList.length, j ≠ i ∧ word = addrList.get i) ↔
      1 < addrList.length ∧ word ∈ addrList := by
  constructor
  · rintro ⟨i, j, ne, rfl⟩
    refine ⟨?_, get_mem _ _⟩
    have := Fin.val_ne_of_ne ne
    omega
  · rintro ⟨several, mem⟩
    obtain ⟨i, rfl⟩ := get_of_mem mem
    have nontrivial : Nontrivial (Fin addrList.length) := Fin.nontrivial_iff_two_le.mpr several
    obtain ⟨j, ne⟩ := exists_ne i
    exact ⟨i, j, ne, rfl⟩

/-- `total_block_map_` has the blocks of all groups, unless there is one replica. -/
theorem mem_words_totalBlockMapOf (groups : List (List BlockAddr)) :
    word ∈ Words (totalBlockMapOf groups) ↔
      ∃ group ∈ groups, 1 < group.length ∧ word ∈ group.map tagged := by
  have rounds : ∀ map : TotalBlockMap,
      word ∈ Words (groups.foldl (fun map group => enterTotal map (group.map tagged)) map) ↔
        word ∈ Words map ∨ ∃ group ∈ groups, 1 < group.length ∧ word ∈ group.map tagged := by
    induction groups with
    | nil => simp
    | cons group groups ih =>
      intro map
      rw [foldl_cons, ih, mem_words_enterTotal, exists_ne_get_iff,
        length_map, exists_mem_cons_iff, or_assoc]
  rw [totalBlockMapOf, rounds, words_empty]
  simp

theorem isSome_blockMapOf_iff (groups : List (List BlockAddr)) :
    ((blockMapOf groups ⟨[], fun _ => none⟩).second word).isSome ↔
      word ∈ (primaries groups).map tagged := by
  constructor
  · intro present
    by_contra absent
    rw [second_blockMapOf_of_not_mem _ absent] at present
    cases present
  · exact fun primary => isSome_blockMapOf (.inr primary)

variable {groups : List (List BlockAddr)}

theorem words_blockMapOf_subset (backups : ∀ group ∈ groups, group.length ≠ 1) {map : AllocBlockMap}
    (stored : word ∈ Words (blockMapOf groups map).second) :
    word ∈ Words map.second ∨ word ∈ groups.flatten.map tagged := by
  induction groups generalizing map with
  | nil => exact .inl stored
  | cons group groups ih =>
    obtain ⟨several, backups⟩ := forall_mem_cons.mp backups
    rw [flatten_cons, map_append, mem_append, ← or_assoc]
    refine (ih backups stored).imp_left fun stored => ?_
    match group, several with
    | [], _ => exact .inl stored
    | primary :: backup :: others, _ =>
      refine ((mem_words_foldl_pushBack _ _).mp stored).imp_right ?_
      rintro ⟨_, mem, rfl | rfl⟩
      · exact mem_cons_self
      · exact mem_cons_of_mem _ mem

/-- The words with an address and a server in the two maps.  With one replica,
`alloc_block_map_` lists a 0 that stands for no block. -/
def Stored (conf : GlobalConfig) (alloc : AllocBlockMap) (total : TotalBlockMap)
    (word : UInt64) : Prop :=
  (alloc.second word).isSome ∨
    (conf.numReplication ≠ 1 ∧ ∃ key, word ∈ (alloc.second key).getD []) ∨ word ∈ Words total

theorem primaries_eq_flatten (single : ∀ group ∈ groups, group.length = 1) :
    primaries groups = groups.flatten := by
  induction groups with
  | nil => rfl
  | cons group groups ih =>
    have later := ih fun group mem => single group (mem_cons_of_mem _ mem)
    obtain ⟨block, rfl⟩ := length_eq_one_iff.mp (single group mem_cons_self)
    exact congrArg (List.cons block) later

theorem stored_iff {conf : GlobalConfig}
    (length : ∀ group ∈ groups, group.length = conf.numReplication.toNat)
    (replicas : 0 < conf.numReplication.toNat) :
    Stored conf (blockMapOf groups ⟨[], fun _ => none⟩) (totalBlockMapOf groups) word ↔
      word ∈ groups.flatten.map tagged := by
  rw [Stored, isSome_blockMapOf_iff, mem_words_totalBlockMapOf]
  by_cases single : conf.numReplication = 1
  · have one : ∀ group ∈ groups, group.length = 1 := fun group mem => by
      rw [length group mem, single]
      rfl
    rw [primaries_eq_flatten one]
    refine or_iff_left ?_
    rintro (⟨several, -⟩ | ⟨group, mem, several, -⟩)
    · exact several single
    · exact several.ne' (one group mem)
  · have several : ∀ group ∈ groups, 1 < group.length := fun group mem => by
      have ne : conf.numReplication.toNat ≠ 1 := fun one => single (UInt32.toNat_inj.mp one)
      rw [length group mem]
      omega
    have backups : ∀ group ∈ groups, group.length ≠ 1 := fun group mem =>
      (several group mem).ne'
    constructor
    · rintro (primary | ⟨-, mem⟩ | ⟨group, mem, -, inGroup⟩)
      · have key := (isSome_blockMapOf_iff groups).mpr primary
        obtain stored | stored := words_blockMapOf_subset backups (.inl key)
        · simp [words_empty] at stored
        · exact stored
      · obtain stored | stored := words_blockMapOf_subset backups (.inr mem)
        · simp [words_empty] at stored
        · exact stored
      · exact (sublist_flatten_of_mem mem).map tagged |>.subset inGroup
    · intro stored
      obtain ⟨_, mem, rfl⟩ := mem_map.mp stored
      obtain ⟨group, inGroups, inGroup⟩ := List.mem_flatten.mp mem
      exact .inr (.inr ⟨group, inGroups, several group inGroups, mem_map_of_mem inGroup⟩)

end Words

section Decoding

variable {conf : GlobalConfig}

def decodeWord (word : UInt64) : BlockAddr :=
  (taggedSid word, taggedAddr word)

theorem decodeWord_tagged_iff {block : BlockAddr} :
    decodeWord (tagged block) = block ↔ block.2.toNat % 256 = 0 := by
  constructor
  · intro decoded
    have cleared : taggedAddr (tagged block) = block.2 := congrArg Prod.snd decoded
    rw [← cleared, taggedAddr, toNat_shiftRight_shiftLeft rfl (by decide)]
    exact Nat.mul_mod_left _ _
  · exact fun aligned => Prod.ext (taggedSid_tagged aligned) (taggedAddr_tagged aligned)

/-- The words of the maps belong to placed blocks, and each decodes to the block
it was made from. -/
structure WordsDecode (conf : GlobalConfig) (alloc : AllocBlockMap) (total : TotalBlockMap)
    (groups : List (List BlockAddr)) : Prop where
  built : ∀ word, Stored conf alloc total word → ∃ block ∈ groups.flatten, word = tagged block
  decodes : ∀ word, Stored conf alloc total word → ∀ block ∈ groups.flatten,
    word = tagged block → decodeWord word = block

/-- Which configurations have aligned blocks: those without a block, and those
with an aligned area and either aligned blocks or one block a server. -/
def AlignedBlocks (conf : GlobalConfig) : Prop :=
  (clientArea conf).numRepBlocks = 0 ∨ (clientArea conf).kvAreaAddr.toNat % 256 = 0 ∧
    (conf.blockSize.toNat % 256 = 0 ∨ OneBlockEach (clientArea conf))

variable {groups : List (List BlockAddr)}

theorem length_of_placements {area : Area} (finished : placements area = some groups) :
    ∀ group ∈ groups, group.length = area.numReplication := by
  refine forall_placeLoop (fun mnAddrPtr stSid taken _ placed => ?_) finished
  have servers := congrArg List.length (map_fst_takeBlocks placed)
  rw [length_map, replicaSids, length_map, length_range] at servers
  exact servers

theorem flatten_eq_nil_iff {area : Area} (finished : placements area = some groups)
    (replicas : 0 < area.numReplication) : groups.flatten = [] ↔ area.numRepBlocks = 0 := by
  have length := length_placeLoop finished
  constructor
  · intro empty
    by_contra pos
    obtain ⟨group, mem⟩ := exists_mem_of_length_pos (by omega : 0 < groups.length)
    have none := List.flatten_eq_nil_iff.mp empty group mem
    have size := length_of_placements finished group mem
    rw [none, length_nil] at size
    omega
  · intro zero
    rw [eq_nil_of_length_eq_zero (length.trans zero), flatten_nil]

theorem aligned_iff (finished : placements (clientArea conf) = some groups)
    (replicas : 0 < conf.numReplication.toNat) :
    (∀ block ∈ groups.flatten, block.2.toNat % 256 = 0) ↔ AlignedBlocks conf := by
  obtain ⟨_, placed⟩ := placed_placeLoop finished
  rw [AlignedBlocks, ← flatten_eq_nil_iff finished replicas]
  constructor
  · intro aligned
    by_cases empty : groups.flatten = []
    · exact .inl empty
    · obtain ⟨block, mem⟩ := exists_mem_of_ne_nil _ empty
      have first := placed.exists_first (mem_map_of_mem mem)
      refine .inr ⟨aligned _ first, ?_⟩
      by_cases once : (groups.flatten.map Prod.fst).Nodup
      · exact .inr ((nodup_servers_iff finished replicas mem).mp once)
      · obtain ⟨block, mem, next, nextListed, step⟩ := placed.exists_next once
        have blockAligned := aligned block mem
        have nextAligned := aligned next nextListed
        have size : (clientArea conf).blockSize = conf.blockSize := rfl
        rw [step, size, UInt64.toNat_add] at nextAligned
        exact .inl (by omega)
  · rintro (empty | ⟨area, blockAligned | once⟩) block mem
    · rw [empty] at mem
      cases mem
    · exact placed.aligned blockAligned (fun _ => area) block mem
    · rw [placed.eq_first ((nodup_servers_iff finished replicas mem).mpr once) mem]
      exact area

theorem wordsDecode_iff_aligned
    (length : ∀ group ∈ groups, group.length = conf.numReplication.toNat)
    (replicas : 0 < conf.numReplication.toNat) :
    WordsDecode conf (blockMapOf groups ⟨[], fun _ => none⟩) (totalBlockMapOf groups) groups ↔
      ∀ block ∈ groups.flatten, block.2.toNat % 256 = 0 := by
  constructor
  · intro decode block mem
    have stored := (stored_iff length replicas).mpr (mem_map_of_mem mem)
    exact decodeWord_tagged_iff.mp (decode.decodes _ stored block mem rfl)
  · intro aligned
    refine ⟨fun word stored => ?_, ?_⟩
    · obtain ⟨block, mem, same⟩ := mem_map.mp ((stored_iff length replicas).mp stored)
      exact ⟨block, mem, same.symm⟩
    · rintro _ - block mem rfl
      exact decodeWord_tagged_iff.mpr (aligned block mem)

theorem exists_groups {alloc : AllocBlockMap} {total : TotalBlockMap}
    (mapped : getBlockMap conf = some alloc) (totalMapped : getTotalBlockMap conf = some total) :
    0 < conf.numReplication.toNat ∧ ∃ groups, placements (clientArea conf) = some groups ∧
      alloc = blockMapOf groups ⟨[], fun _ => none⟩ ∧ total = totalBlockMapOf groups := by
  obtain ⟨-, groups, finished, rfl⟩ := getBlockMap_eq mapped
  obtain ⟨-, replicas, _, again, rfl⟩ := getTotalBlockMap_eq totalMapped
  obtain rfl := Option.some.inj (finished.symm.trans again)
  exact ⟨replicas, groups, finished, rfl, rfl⟩

/-- On which of the accepted configurations the words can be decoded. -/
theorem blockWords_decode_iff {alloc : AllocBlockMap} {total : TotalBlockMap}
    (mapped : getBlockMap conf = some alloc) (totalMapped : getTotalBlockMap conf = some total) :
    ∃ groups, placements (clientArea conf) = some groups ∧
      (WordsDecode conf alloc total groups ↔ AlignedBlocks conf) := by
  obtain ⟨replicas, groups, finished, rfl, rfl⟩ := exists_groups mapped totalMapped
  refine ⟨groups, finished, ?_⟩
  rw [wordsDecode_iff_aligned (length_of_placements finished) replicas, aligned_iff finished replicas]

theorem blockWords_decode_iff_twoServers :
    ∃ alloc total groups, getBlockMap twoServers = some alloc ∧
      getTotalBlockMap twoServers = some total ∧
      placements (clientArea twoServers) = some groups ∧ AlignedBlocks twoServers ∧
      WordsDecode twoServers alloc total groups := by
  have accepted : (getBlockMap twoServers).isSome := by decide +kernel
  obtain ⟨alloc, mapped⟩ := Option.isSome_iff_exists.mp accepted
  obtain ⟨total, totalMapped⟩ :=
    Option.isSome_iff_exists.mp ((isSome_getTotalBlockMap twoServers).trans accepted)
  obtain ⟨groups, finished, decode⟩ := blockWords_decode_iff mapped totalMapped
  have aligned : AlignedBlocks twoServers := .inr ⟨by decide +kernel, .inl (by decide)⟩
  exact ⟨alloc, total, groups, mapped, totalMapped, finished, aligned, decode.mpr aligned⟩

def evenBase : GlobalConfig :=
  { twoServers with serverBaseAddr := 0x10000002 }

/-- The client accepts the base address, and the word of a block on server 1
decodes to server 3 and to another address. -/
theorem not_wordsDecode_evenBase :
    ∃ alloc total groups, getBlockMap evenBase = some alloc ∧
      getTotalBlockMap evenBase = some total ∧
      placements (clientArea evenBase) = some groups ∧ (1, 0x28000002) ∈ groups.flatten ∧
      Stored evenBase alloc total (tagged (1, 0x28000002)) ∧
      decodeWord (tagged (1, 0x28000002)) = (3, 0x28000000) ∧
      ¬ WordsDecode evenBase alloc total groups := by
  have accepted : (getBlockMap evenBase).isSome := by decide +kernel
  obtain ⟨_, mapped⟩ := Option.isSome_iff_exists.mp accepted
  obtain ⟨_, totalMapped⟩ :=
    Option.isSome_iff_exists.mp ((isSome_getTotalBlockMap evenBase).trans accepted)
  obtain ⟨replicas, _, finished, rfl, rfl⟩ := exists_groups mapped totalMapped
  have placed : placements (clientArea evenBase) =
      some [[(0, 0x28000002), (1, 0x28000002)], [(1, 0x2C000002), (0, 0x2C000002)]] := by
    decide +kernel
  obtain rfl := Option.some.inj (finished.symm.trans placed)
  have mem : ((1, 0x28000002) : BlockAddr) ∈
      [[(0, 0x28000002), (1, 0x28000002)], [(1, 0x2C000002), (0, 0x2C000002)]].flatten := by decide
  have stored := (stored_iff (length_of_placements finished) replicas).mpr (mem_map_of_mem mem)
  refine ⟨_, _, _, mapped, totalMapped, finished, mem, stored, by decide, fun decode => ?_⟩
  exact absurd (decode.decodes _ stored _ mem rfl) (by decide)

end Decoding

end FuseeFs.Memory.Placement
