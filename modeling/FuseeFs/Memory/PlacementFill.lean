import FuseeFs.Library.Rotation
import FuseeFs.Memory.TotalBlockMap

/-!
# How the placement fills the servers

Each group takes the next block of consecutive servers, a window on the ring of
servers.  The loops finish if no window reaches a full server, and all blocks lie
in the area if no server is asked for a block that does not fit any more.
-/

namespace FuseeFs.Memory.Placement

open Nat List Option Function Library Memory.Ownership

section Windows

variable {area : Area}

def Usable (area : Area) (addr : UInt64) : Prop :=
  addr < area.limitAddr ∧ addr &&& 1 = 0

instance (area : Area) (addr : UInt64) : Decidable (Usable area addr) :=
  inferInstanceAs (Decidable (_ ∧ _))

def advance (area : Area) (mnAddrPtr : MnAddrPtr) (sids : List UInt8) : MnAddrPtr := fun sid =>
  if sid ∈ sids.map UInt8.toNat then mnAddrPtr sid + area.blockSize else mnAddrPtr sid

theorem advance_nil (mnAddrPtr : MnAddrPtr) : advance area mnAddrPtr [] = mnAddrPtr := by
  funext sid
  exact if_neg not_mem_nil

variable {mnAddrPtr : MnAddrPtr}

theorem advance_cons {sid : UInt8} {sids : List UInt8} (new : sid ∉ sids) :
    advance area (update mnAddrPtr sid.toNat (mnAddrPtr sid.toNat + area.blockSize)) sids =
      advance area mnAddrPtr (sid :: sids) := by
  have absent : sid.toNat ∉ sids.map UInt8.toNat := by
    intro mem
    obtain ⟨other, inSids, same⟩ := List.mem_map.mp mem
    exact new (UInt8.toNat_inj.mp same ▸ inSids)
  funext other
  by_cases same : other = sid.toNat
  · subst same
    simp [advance, absent]
  · simp [advance, same]

theorem takeBlocks_eq {sids : List UInt8} (nodup : sids.Nodup) :
    takeBlocks area mnAddrPtr sids =
      if ∀ sid ∈ sids, Usable area (mnAddrPtr sid.toNat) then
        some (sids.map fun sid => (sid, mnAddrPtr sid.toNat), advance area mnAddrPtr sids)
      else none := by
  induction sids generalizing mnAddrPtr with
  | nil => simp [takeBlocks, advance_nil]
  | cons sid sids ih =>
    obtain ⟨new, nodup⟩ := nodup_cons.mp nodup
    have unchanged : ∀ other ∈ sids, update mnAddrPtr sid.toNat
        (mnAddrPtr sid.toNat + area.blockSize) other.toNat = mnAddrPtr other.toNat := by
      intro other mem
      refine update_of_ne (fun same => new ?_) _ _
      exact UInt8.toNat_inj.mp same ▸ mem
    have others : (∀ other ∈ sids, Usable area (update mnAddrPtr sid.toNat
        (mnAddrPtr sid.toNat + area.blockSize) other.toNat)) ↔
        ∀ other ∈ sids, Usable area (mnAddrPtr other.toNat) := by
      refine forall₂_congr fun other mem => ?_
      rw [unchanged other mem]
    have blocks : sids.map (fun other => (other, update mnAddrPtr sid.toNat
        (mnAddrPtr sid.toNat + area.blockSize) other.toNat)) =
        sids.map fun other => (other, mnAddrPtr other.toNat) := by
      refine map_congr_left fun other mem => ?_
      rw [unchanged other mem]
    by_cases usable : Usable area (mnAddrPtr sid.toNat)
    · have passes : ¬(mnAddrPtr sid.toNat ≥ area.limitAddr ∨ mnAddrPtr sid.toNat &&& 1 ≠ 0) := by
        rw [not_or, not_not, ge_iff_le, UInt64.not_le]
        exact usable
      simp only [takeBlocks, if_neg passes, ih nodup, blocks, advance_cons new,
        others, forall_mem_cons, usable, true_and, map_cons]
      split_ifs <;> rfl
    · have stops : mnAddrPtr sid.toNat ≥ area.limitAddr ∨ mnAddrPtr sid.toNat &&& 1 ≠ 0 := by
        by_contra passes
        rw [not_or, not_not, ge_iff_le, UInt64.not_le] at passes
        exact usable passes
      simp only [takeBlocks, if_pos stops, forall_mem_cons, usable, false_and, if_false]

variable (servers : area.numMemory ≤ 256) (replicas : area.numReplication ≤ area.numMemory)
  {start : ℕ} (begins : start < area.numMemory)
include servers begins

theorem toNat_replica (index : ℕ) :
    (UInt8.ofNat ((start + index) % area.numMemory)).toNat = (start + index) % area.numMemory :=
  UInt8.toNat_ofNat_of_lt' ((mod_lt _ (zero_lt_of_lt begins)).trans_le servers)

theorem toNat_lt_of_mem {sid : UInt8} (mem : sid ∈ replicaSids area start) :
    sid.toNat < area.numMemory := by
  obtain ⟨_, -, rfl⟩ := List.mem_map.mp mem
  rw [toNat_replica servers begins]
  exact mod_lt _ (zero_lt_of_lt begins)

include replicas

theorem nodup_replicaSids : (replicaSids area start).Nodup := by
  refine List.Nodup.map_on ?_ nodup_range
  intro index inRange other otherInRange same
  have positions := congrArg UInt8.toNat same
  rw [toNat_replica servers begins, toNat_replica servers begins] at positions
  exact window_injOn replicas (mem_range.mp inRange) (mem_range.mp otherInRange) positions

theorem mem_map_replicaSids_iff {sid : ℕ} (inside : sid < area.numMemory) :
    sid ∈ (replicaSids area start).map UInt8.toNat ↔
      InWindow area.numMemory area.numReplication start sid := by
  rw [inWindow_iff replicas begins inside, replicaSids, List.map_map, List.mem_map]
  refine exists_congr fun index => ?_
  rw [mem_range, comp_apply, toNat_replica servers begins]

theorem mem_blocks_iff {block : BlockAddr} :
    block ∈ (replicaSids area start).map (fun sid => (sid, mnAddrPtr sid.toNat)) ↔
      block.1.toNat < area.numMemory ∧
      InWindow area.numMemory area.numReplication start block.1.toNat ∧
      block.2 = mnAddrPtr block.1.toNat := by
  constructor
  · intro mem
    obtain ⟨sid, inSids, rfl⟩ := List.mem_map.mp mem
    have inside := toNat_lt_of_mem servers begins inSids
    exact ⟨inside, (mem_map_replicaSids_iff servers replicas begins inside).mp
      (List.mem_map_of_mem inSids), rfl⟩
  · rintro ⟨inside, covered, addr⟩
    obtain ⟨_, inSids, same⟩ :=
      List.mem_map.mp ((mem_map_replicaSids_iff servers replicas begins inside).mpr covered)
    obtain rfl := UInt8.toNat_inj.mp same
    exact List.mem_map.mpr ⟨_, inSids, Prod.ext rfl addr.symm⟩

theorem forall_mem_replicaSids (property : ℕ → Prop) :
    (∀ sid ∈ replicaSids area start, property sid.toNat) ↔
      ∀ sid < area.numMemory, InWindow area.numMemory area.numReplication start sid →
        property sid := by
  constructor
  · intro all sid inside covered
    obtain ⟨replica, mem, rfl⟩ :=
      List.mem_map.mp ((mem_map_replicaSids_iff servers replicas begins inside).mpr covered)
    exact all replica mem
  · intro all sid mem
    have inside := toNat_lt_of_mem servers begins mem
    exact all _ inside ((mem_map_replicaSids_iff servers replicas begins inside).mp
      (List.mem_map_of_mem mem))

end Windows

/-! ## Counting the blocks of a server -/

def Counted (area : Area) (mnAddrPtr : MnAddrPtr) (counts : ℕ → ℕ) : Prop :=
  ∀ sid < area.numMemory,
    (mnAddrPtr sid).toNat = area.kvAreaAddr.toNat + counts sid * area.blockSize.toNat

section Counting

variable {area : Area} {mnAddrPtr : MnAddrPtr} {counts : ℕ → ℕ}

theorem counted_zero : Counted area (fun _ => area.kvAreaAddr) fun _ => 0 := by
  intro sid _
  rw [Nat.zero_mul, Nat.add_zero]

variable (servers : area.numMemory ≤ 256) (replicas : area.numReplication ≤ area.numMemory)
  (noWrap : NoWrap area) (counted : Counted area mnAddrPtr counts)
include servers replicas

theorem takeBlocks_eq_some {start : ℕ} (begins : start < area.numMemory)
    {taken : List BlockAddr × MnAddrPtr}
    (placed : takeBlocks area mnAddrPtr (replicaSids area start) = some taken) :
    (∀ sid ∈ replicaSids area start, Usable area (mnAddrPtr sid.toNat)) ∧
      taken.1 = (replicaSids area start).map (fun sid => (sid, mnAddrPtr sid.toNat)) ∧
      taken.2 = advance area mnAddrPtr (replicaSids area start) := by
  rw [takeBlocks_eq (nodup_replicaSids servers replicas begins)] at placed
  split_ifs at placed with usable
  obtain rfl := some.inj placed
  exact ⟨usable, rfl, rfl⟩

include noWrap counted

theorem counted_advance {start : ℕ} (begins : start < area.numMemory)
    (usable : ∀ sid ∈ replicaSids area start, Usable area (mnAddrPtr sid.toNat)) :
    Counted area (advance area mnAddrPtr (replicaSids area start))
      (lay area.numMemory area.numReplication start counts) := by
  intro sid inside
  have window := mem_map_replicaSids_iff servers replicas begins inside
  by_cases covered : InWindow area.numMemory area.numReplication start sid
  · obtain ⟨replica, mem, rfl⟩ := List.mem_map.mp (window.mpr covered)
    have below := UInt64.lt_iff_toNat_lt.mp (usable replica mem).1
    rw [counted _ inside] at below
    have fits := noWrap _ below
    rw [advance, if_pos (window.mpr covered), lay, if_pos covered, UInt64.toNat_add,
      counted _ inside]
    rw [succ_mul] at fits ⊢
    rw [mod_eq_of_lt (by omega)]
    omega
  · rw [advance, if_neg fun mem => covered (window.mp mem), lay, if_neg covered,
      Nat.add_zero, counted sid inside]

end Counting

section Whole

variable {area : Area} {blocks : ℕ} (servers : area.numMemory ≤ 256)
  (replicas : area.numReplication ≤ area.numMemory) (pos : 0 < area.blockSize.toNat)
  (whole : area.limitAddr.toNat = area.kvAreaAddr.toNat + blocks * area.blockSize.toNat)
include whole

theorem noWrap_of_whole : NoWrap area := by
  intro number below
  have fewer : number < blocks := by
    by_contra more
    have le := Nat.mul_le_mul_right area.blockSize.toNat (Nat.le_of_not_lt more)
    omega
  have le := Nat.mul_le_mul_right area.blockSize.toNat (succ_le_of_lt fewer)
  have bound := area.limitAddr.toNat_lt
  rw [succ_eq_add_one] at le
  omega

variable {mnAddrPtr : MnAddrPtr} {counts : ℕ → ℕ} (counted : Counted area mnAddrPtr counts)
include pos counted

theorem eq_limitAddr_iff {sid : ℕ} (inside : sid < area.numMemory) :
    mnAddrPtr sid = area.limitAddr ↔ counts sid = blocks := by
  rw [← UInt64.toNat_inj, counted sid inside, whole, Nat.add_left_cancel_iff,
    Nat.mul_right_cancel_iff pos]

theorem lt_limitAddr_iff {sid : ℕ} (inside : sid < area.numMemory) :
    mnAddrPtr sid < area.limitAddr ↔ counts sid < blocks := by
  rw [UInt64.lt_iff_toNat_lt, counted sid inside, whole, Nat.add_lt_add_iff_left,
    Nat.mul_lt_mul_right pos]

theorem skipFull_eq_nextOpen (start : ℕ) :
    skipFull area mnAddrPtr start = nextOpen area.numMemory blocks counts start := by
  refine find?_congr fun sid mem => ?_
  obtain ⟨offset, inRange, rfl⟩ := List.mem_map.mp mem
  have inside := mod_lt (start + offset) (zero_lt_of_lt (mem_range.mp inRange))
  exact decide_eq_decide.mpr (not_congr (eq_limitAddr_iff pos whole counted inside))

variable (kvAligned : area.kvAreaAddr.toNat % 256 = 0)
  (blockAligned : area.blockSize.toNat % 256 = 0)
include kvAligned blockAligned

theorem usable_iff {sid : ℕ} (inside : sid < area.numMemory) :
    Usable area (mnAddrPtr sid) ↔ counts sid < blocks := by
  have even : mnAddrPtr sid &&& 1 = 0 := by
    have product : 2 ∣ counts sid * area.blockSize.toNat := Dvd.dvd.mul_left (by omega) _
    rw [← UInt64.toNat_inj, UInt64.toNat_and, UInt64.toNat_one, and_one_is_mod, counted sid inside]
    exact mod_eq_zero_of_dvd (by omega)
  rw [Usable, and_iff_left even, lt_limitAddr_iff pos whole counted inside]

include servers replicas

theorem isSome_placeLoop (remaining blockCnt : ℕ) :
    (placeLoop area remaining blockCnt mnAddrPtr).isSome =
      canLay area.numMemory area.numReplication blocks remaining blockCnt counts := by
  induction remaining generalizing blockCnt mnAddrPtr counts with
  | zero => rfl
  | succ remaining ih =>
    rw [placeLoop, canLay, skipFull_eq_nextOpen pos whole counted]
    cases found : nextOpen area.numMemory blocks counts (blockCnt % area.numMemory) with
    | none => rfl
    | some start =>
      have begins := nextOpen_lt found
      have noWrap := noWrap_of_whole whole
      have usable : (∀ sid ∈ replicaSids area start, Usable area (mnAddrPtr sid.toNat)) ↔
          ∀ sid < area.numMemory, InWindow area.numMemory area.numReplication start sid →
            counts sid < blocks := by
        refine (forall_mem_replicaSids servers replicas begins fun sid => Usable area (mnAddrPtr sid)).trans ?_
        refine forall₂_congr fun sid inside => imp_congr_right fun _ => ?_
        exact usable_iff pos whole counted kvAligned blockAligned inside
      rw [bind_some, takeBlocks_eq (nodup_replicaSids servers replicas begins)]
      by_cases placed : ∀ sid ∈ replicaSids area start, Usable area (mnAddrPtr sid.toNat)
      · have next := counted_advance servers replicas noWrap counted begins placed
        rw [if_pos placed, bind_some, isSome_map, ih next]
        dsimp only
        rw [decide_eq_true (usable.mp placed), Bool.true_and]
      · rw [if_neg placed]
        dsimp only
        rw [decide_eq_false fun room => placed (usable.mpr room)]
        rfl

/-- The groups behind the whole turns do not get in each other's way. -/
def GroupsFit (numMemory numReplication blocks : ℕ) : Prop :=
  blocks % numReplication * (numMemory % numReplication) < numReplication ∨
    (numReplication - blocks % numReplication) * (numReplication - numMemory % numReplication) <
      numReplication

instance (numMemory numReplication blocks : ℕ) :
    Decidable (GroupsFit numMemory numReplication blocks) :=
  inferInstanceAs (Decidable (_ ∨ _))

omit counted in
theorem isSome_placements_iff (atLeastOne : 0 < area.numReplication)
    (count : area.numRepBlocks = blocks * area.numMemory / area.numReplication) :
    (placements area).isSome ↔ GroupsFit area.numMemory area.numReplication blocks := by
  rw [placements, isSome_placeLoop servers replicas pos whole counted_zero kvAligned
    blockAligned, count]
  exact canLay_room_iff atLeastOne replicas

end Whole

section Configurations

def ClientPlaces (conf : GlobalConfig) (groups : ℕ) : Prop :=
  ∃ map, getBlockMap conf = some map ∧ map.keys.length = groups

def ServersPlace (conf : GlobalConfig) (groups : ℕ) : Prop :=
  ∃ queues : ℕ → List UInt64,
    (∀ sid < conf.memoryNum.toNat, getAllocableBlocks conf sid = some (queues sid)) ∧
      ∑ sid ∈ Finset.range conf.memoryNum.toNat, (queues sid).length = groups

variable {groups : List (List BlockAddr)}

/-- Nothing but the placement of the groups can make the client exit. -/
theorem getBlockMapLoop_eq_some {area : Area} {remaining blockCnt : ℕ} {mnAddrPtr : MnAddrPtr}
    (finished : placeLoop area remaining blockCnt mnAddrPtr = some groups)
    (nonzero : ∀ group ∈ groups, ∀ block ∈ group, tagged block ≠ 0) (map : AllocBlockMap) :
    getBlockMapLoop area remaining blockCnt mnAddrPtr map = some (blockMapOf groups map) := by
  induction remaining generalizing blockCnt mnAddrPtr groups map with
  | zero =>
    obtain rfl := some.inj finished
    rfl
  | succ remaining ih =>
    obtain ⟨_, skipped, finished⟩ := bind_eq_some_iff.mp finished
    obtain ⟨taken, placed, finished⟩ := bind_eq_some_iff.mp finished
    obtain ⟨_, later, rfl⟩ := map_eq_some_iff.mp finished
    have passes : ¬(taken.1.map tagged).tail.any (· = 0) := by
      intro fails
      obtain ⟨_, mem, zero⟩ := List.any_eq_true.mp fails
      obtain ⟨block, inGroup, rfl⟩ := List.mem_map.mp (mem_of_mem_tail mem)
      exact nonzero taken.1 mem_cons_self block inGroup (of_decide_eq_true zero)
    rw [getBlockMapLoop, skipped, bind_some, placed, bind_some]
    dsimp only
    rw [if_neg passes, ih later fun group mem =>
      nonzero group (mem_cons_of_mem _ mem)]
    rfl

variable {conf : GlobalConfig} {blocks : ℕ}

theorem numRepBlocks_clientArea_mod (few : blocks * conf.memoryNum.toNat < 2 ^ 64)
    (count : (serverNumBlocks conf).toNat = blocks) :
    (clientArea conf).numRepBlocks =
      blocks * conf.memoryNum.toNat / conf.numReplication.toNat % 2 ^ 32 := by
  rw [clientArea, UInt64.toNat_toUInt32, UInt64.toNat_div, UInt64.toNat_mul, UInt32.toNat_toUInt64,
    UInt32.toNat_toUInt64, count, mod_eq_of_lt few]

theorem numRepBlocks_serverArea_mod
    (count : (kvAreaLen conf / conf.blockSize.toUInt32.toUInt64).toNat = blocks) :
    (serverArea conf).numRepBlocks =
      blocks * conf.memoryNum.toNat % 2 ^ 32 / conf.numReplication.toNat := by
  rw [serverArea, UInt32.toNat_div, UInt32.toNat_mul, numBlocks, UInt64.toNat_toUInt32, count,
    mod_mul_mod]

theorem kvArea_bounds {length : ℕ} (pos : 0 < conf.blockSize.toUInt32.toNat)
    (bound : conf.serverBaseAddr.toNat + conf.serverDataLen.toNat ≤ 2 ^ 63)
    (exactly : conf.serverDataLen.toNat = (kvAreaOff conf).toNat + length) :
    (kvAreaLen conf).toNat = length ∧ 0 < (clientArea conf).kvAreaAddr.toNat ∧
      (clientArea conf).limitAddr.toNat = (clientArea conf).kvAreaAddr.toNat + length := by
  obtain ⟨_, -⟩ := kvAreaOff_bounds pos
  refine ⟨?_, ?_, ?_⟩
  · rw [kvAreaLen, UInt64.toNat_sub_of_le]
    · omega
    · rw [UInt64.le_iff_toNat_le]
      omega
  · rw [toNat_kvAreaAddr pos bound]
    omega
  · rw [toNat_limitAddr bound, toNat_kvAreaAddr pos bound]
    omega

theorem length_primaries {area : Area} (servers : area.numMemory ≤ 256)
    (atLeastOne : 0 < area.numReplication) {groups : List (List BlockAddr)}
    (finished : placements area = some groups) : (primaries groups).length = area.numRepBlocks := by
  rw [← length_placeLoop finished]
  refine filterMap_length_eq_length.mpr fun group mem => ?_
  obtain ⟨_, first, -⟩ := primary_of_placements servers atLeastOne finished group mem
  rw [first]
  rfl

theorem length_keys (servers : conf.memoryNum.toNat ≤ 256)
    (atLeastOne : 1 ≤ conf.numReplication.toNat)
    (finished : placements (clientArea conf) = some groups) :
    (blockMapOf groups ⟨[], fun _ => none⟩).keys.length = (clientArea conf).numRepBlocks := by
  rw [keys_blockMapOf, nil_append, length_map]
  exact @length_primaries (clientArea conf) servers atLeastOne groups finished

theorem numReplication_ne_zero (atLeastOne : 1 ≤ conf.numReplication.toNat) :
    conf.numReplication ≠ 0 := by
  intro zero
  rw [zero] at atLeastOne
  exact absurd atLeastOne (by decide)

theorem getBlockMap_eq_some (nonzero : conf.blockSize.toUInt32 ≠ 0)
    (atLeastOne : 1 ≤ conf.numReplication.toNat)
    (finished : placements (clientArea conf) = some groups)
    (tags : ∀ group ∈ groups, ∀ block ∈ group, tagged block ≠ 0) :
    getBlockMap conf = some (blockMapOf groups ⟨[], fun _ => none⟩) := by
  rw [getBlockMap, if_neg]
  · exact getBlockMapLoop_eq_some finished tags _
  · exact not_or.mpr ⟨nonzero, numReplication_ne_zero atLeastOne⟩

theorem getAllocableBlocks_eq_map (nonzero : conf.blockSize.toUInt32 ≠ 0)
    (few : conf.memoryNum.toNat ≤ 256) (atLeastOne : 1 ≤ conf.numReplication.toNat)
    (bound : conf.serverBaseAddr.toNat + conf.serverDataLen.toNat ≤ 2 ^ 63) (sid : ℕ) :
    getAllocableBlocks conf sid =
      (placements (serverArea conf)).map fun groups => primariesOn groups sid := by
  rw [getAllocableBlocks, if_neg]
  · exact getAllocableBlocksLoop_eq (serverArea conf) few atLeastOne sid _ 0 _ []
  · exact not_or.mpr ⟨nonzero, not_or.mpr ⟨numReplication_ne_zero atLeastOne, not_lt.mpr bound⟩⟩

theorem lt_of_mod_div_eq {dividend divisor modulus : ℕ} (pos : 0 < divisor)
    (smaller : divisor ≤ modulus) (same : dividend % modulus / divisor = dividend / divisor) :
    dividend < modulus := by
  by_contra larger
  have split := div_add_mod dividend modulus
  have turns : modulus ≤ modulus * (dividend / modulus) :=
    Nat.le_mul_of_pos_right _ (Nat.div_pos (Nat.le_of_not_lt larger) (by omega))
  have less : (dividend % modulus + divisor) / divisor ≤ dividend / divisor :=
    Nat.div_le_div_right (by omega)
  rw [add_div_right _ pos] at less
  omega

variable (baseAligned : conf.serverBaseAddr.toNat % 256 = 0)
  (blockAligned : conf.blockSize.toNat % 256 = 0) (few : conf.memoryNum.toNat ≤ 256)
  (replicas : 1 ≤ conf.numReplication.toNat ∧ conf.numReplication.toNat ≤ conf.memoryNum.toNat)
  (bound : conf.serverBaseAddr.toNat + conf.serverDataLen.toNat ≤ 2 ^ 63)

include baseAligned blockAligned few replicas bound

theorem clientPlaces_iff
    (exactly : conf.serverDataLen.toNat = (kvAreaOff conf).toNat + blocks * conf.blockSize.toNat) :
    ClientPlaces conf (blocks * conf.memoryNum.toNat / conf.numReplication.toNat) ↔
      conf.blockSize.toUInt32 ≠ 0 ∧
      blocks * conf.memoryNum.toNat / conf.numReplication.toNat < 2 ^ 32 ∧
      GroupsFit conf.memoryNum.toNat conf.numReplication.toNat blocks := by
  by_cases nonzero : conf.blockSize.toUInt32 = 0
  · refine iff_of_false ?_ fun holds => holds.1 nonzero
    rintro ⟨map, mapped, -⟩
    exact (getBlockMap_eq mapped).1 nonzero
  have narrow := toNat_pos_of_ne_zero nonzero
  have pos : 0 < conf.blockSize.toNat := by
    rw [UInt64.toNat_toUInt32] at narrow
    omega
  obtain ⟨length, kvPositive, whole⟩ := kvArea_bounds narrow bound exactly
  have count : (serverNumBlocks conf).toNat = blocks := by
    rw [serverNumBlocks, UInt64.toNat_div, length, Nat.mul_div_cancel _ pos]
  have product : blocks * conf.memoryNum.toNat < 2 ^ 64 := by
    have le : blocks * conf.memoryNum.toNat ≤ blocks * conf.blockSize.toNat :=
      Nat.mul_le_mul_left _ (by omega)
    omega
  have numRepBlocks := numRepBlocks_clientArea_mod product count
  have kvAligned := aligned_kvAreaAddr baseAligned blockAligned nonzero
  have places : (clientArea conf).numRepBlocks = _ → _ := @isSome_placements_iff (clientArea conf)
    blocks few replicas.2 pos whole kvAligned blockAligned replicas.1
  constructor
  · rintro ⟨_, mapped, keys⟩
    obtain ⟨-, groups, finished, rfl⟩ := getBlockMap_eq mapped
    rw [length_keys few replicas.1 finished] at keys
    refine ⟨nonzero, ?_, (places keys).mp (isSome_of_eq_some finished)⟩
    rw [← keys, numRepBlocks]
    exact mod_lt _ (by decide)
  · rintro ⟨-, small, fit⟩
    rw [mod_eq_of_lt small] at numRepBlocks
    obtain ⟨groups, finished⟩ := isSome_iff_exists.mp ((places numRepBlocks).mpr fit)
    obtain ⟨_, taken⟩ := taken_placements pos (noWrap_of_whole whole) finished
    have tags : ∀ group ∈ groups, ∀ block ∈ group, tagged block ≠ 0 := by
      intro group mem block inGroup zero
      have lower := (taken.between block (mem_flatten_of_mem mem inGroup)).2.1
      have addr : block.2 = 0 := (UInt64.or_eq_zero_iff.mp zero).1
      rw [addr] at lower
      exact absurd kvPositive (not_lt.mpr lower)
    exact ⟨_, getBlockMap_eq_some nonzero replicas.1 finished tags, (length_keys few replicas.1 finished).trans numRepBlocks⟩

theorem serversPlace_iff
    (exactly : conf.serverDataLen.toNat =
      (kvAreaOff conf).toNat + blocks * conf.blockSize.toUInt32.toNat) :
    ServersPlace conf (blocks * conf.memoryNum.toNat / conf.numReplication.toNat) ↔
      conf.blockSize.toUInt32 ≠ 0 ∧ blocks * conf.memoryNum.toNat < 2 ^ 32 ∧
      GroupsFit conf.memoryNum.toNat conf.numReplication.toNat blocks := by
  have one : 0 < conf.memoryNum.toNat := by omega
  by_cases nonzero : conf.blockSize.toUInt32 = 0
  · refine iff_of_false ?_ fun holds => holds.1 nonzero
    rintro ⟨queues, built, -⟩
    have first := built 0 one
    rw [getAllocableBlocks, if_pos (.inl nonzero)] at first
    cases first
  have pos := toNat_pos_of_ne_zero nonzero
  obtain ⟨length, -, whole⟩ := kvArea_bounds pos bound exactly
  have size : (serverArea conf).blockSize.toNat = conf.blockSize.toUInt32.toNat :=
    UInt32.toNat_toUInt64 _
  have count : (kvAreaLen conf / conf.blockSize.toUInt32.toUInt64).toNat = blocks := by
    rw [UInt64.toNat_div, UInt32.toNat_toUInt64, length, Nat.mul_div_cancel _ pos]
  have numRepBlocks := numRepBlocks_serverArea_mod count
  have kvAligned := aligned_kvAreaAddr baseAligned blockAligned nonzero
  have aligned : (serverArea conf).blockSize.toNat % 256 = 0 := by
    rw [size, UInt64.toNat_toUInt32]
    omega
  have places : (serverArea conf).numRepBlocks = _ → _ := @isSome_placements_iff (serverArea conf)
    blocks few replicas.2 (size ▸ pos) (size ▸ whole) kvAligned aligned replicas.1
  have started := getAllocableBlocks_eq_map nonzero few replicas.1 bound
  constructor
  · rintro ⟨queues, built, total⟩
    have first := built 0 one
    rw [started] at first
    obtain ⟨groups, finished, -⟩ := map_eq_some_iff.mp first
    have same : ∀ sid ∈ Finset.range conf.memoryNum.toNat,
        (queues sid).length = (primariesOn groups sid).length := by
      intro sid inRange
      have queue := built sid (Finset.mem_range.mp inRange)
      rw [started, finished, map_some] at queue
      rw [some.inj queue]
    have sum : _ = (serverArea conf).numRepBlocks :=
      @sum_primariesOn (serverArea conf) few replicas.1 groups finished
    rw [Finset.sum_congr rfl same] at total
    have untruncated := sum.symm.trans total
    refine ⟨nonzero, ?_, (places untruncated).mp (isSome_of_eq_some finished)⟩
    rw [numRepBlocks] at untruncated
    exact lt_of_mod_div_eq replicas.1 (by omega) untruncated
  · rintro ⟨-, small, fit⟩
    rw [mod_eq_of_lt small] at numRepBlocks
    obtain ⟨groups, finished⟩ := isSome_iff_exists.mp ((places numRepBlocks).mpr fit)
    refine ⟨fun sid => primariesOn groups sid, fun sid _ => ?_, ?_⟩
    · rw [started, finished, map_some]
    · exact (@sum_primariesOn (serverArea conf) few replicas.1 groups finished).trans numRepBlocks

/-- In an area of whole blocks all groups that there is room for are placed,
unless the numbers of 32 bits are too small or the groups do not fit. -/
theorem places_iff (blocks : ℕ) :
    (conf.serverDataLen.toNat = (kvAreaOff conf).toNat + blocks * conf.blockSize.toNat →
      (ClientPlaces conf (blocks * conf.memoryNum.toNat / conf.numReplication.toNat) ↔
        conf.blockSize.toUInt32 ≠ 0 ∧
        blocks * conf.memoryNum.toNat / conf.numReplication.toNat < 2 ^ 32 ∧
        GroupsFit conf.memoryNum.toNat conf.numReplication.toNat blocks)) ∧
    (conf.serverDataLen.toNat =
        (kvAreaOff conf).toNat + blocks * conf.blockSize.toUInt32.toNat →
      (ServersPlace conf (blocks * conf.memoryNum.toNat / conf.numReplication.toNat) ↔
        conf.blockSize.toUInt32 ≠ 0 ∧ blocks * conf.memoryNum.toNat < 2 ^ 32 ∧
        GroupsFit conf.memoryNum.toNat conf.numReplication.toNat blocks)) :=
  ⟨clientPlaces_iff baseAligned blockAligned few replicas bound,
    serversPlace_iff baseAligned blockAligned few replicas bound⟩

omit baseAligned blockAligned few replicas bound

theorem places_iff_twoServers : ClientPlaces twoServers 2 ∧ ServersPlace twoServers 2 := by
  obtain ⟨client, servers⟩ := @places_iff twoServers (by decide) (by decide) (by decide)
    (by decide) (by decide) 2
  exact ⟨(client (by decide)).mpr (by decide), (servers (by decide)).mpr (by decide)⟩

/-- Six servers with two blocks of 64 MiB each and four replicas.  The third group
begins at server 4 and reaches server 1, whose blocks are taken. -/
def sixServers : GlobalConfig :=
  { twoServers with memoryNum := 6, numReplication := 4 }

theorem not_places_sixServers :
    sixServers.serverDataLen.toNat = (kvAreaOff sixServers).toNat + 2 * sixServers.blockSize.toNat ∧
    (1 ≤ sixServers.numReplication.toNat ∧
      sixServers.numReplication.toNat ≤ sixServers.memoryNum.toNat) ∧
    getBlockMap sixServers = none ∧ ∀ sid < 6, getAllocableBlocks sixServers sid = none := by
  have unmapped : (getBlockMap sixServers).isNone := by decide +kernel
  exact ⟨by decide, by decide, isNone_iff_eq_none.mp unmapped, by decide +kernel⟩

end Configurations

/-! ## Blocks that reach over the end of the area -/

def Inside (area : Area) (block : BlockAddr) : Prop :=
  area.kvAreaAddr.toNat ≤ block.2.toNat ∧
    block.2.toNat + area.blockSize.toNat ≤ area.limitAddr.toNat

instance (area : Area) (block : BlockAddr) : Decidable (Inside area block) :=
  inferInstanceAs (Decidable (_ ∧ _))

/-- The area has whole blocks only, or no server is asked for more than it has. -/
def RoomForAll (area : Area) : Prop :=
  (area.limitAddr.toNat - area.kvAreaAddr.toNat) % area.blockSize.toNat = 0 ∨
    area.numRepBlocks / area.numMemory * area.numReplication +
        min area.numReplication (area.numRepBlocks % area.numMemory) ≤
      (area.limitAddr.toNat - area.kvAreaAddr.toNat) / area.blockSize.toNat

instance (area : Area) : Decidable (RoomForAll area) :=
  inferInstanceAs (Decidable (_ ∨ _))

section Rest

variable {area : Area} {groups : List (List BlockAddr)}
variable (pos : 0 < area.blockSize.toNat) (noWrap : NoWrap area)
include pos noWrap

theorem inside_of_whole (finished : placements area = some groups)
    (whole : (area.limitAddr.toNat - area.kvAreaAddr.toNat) % area.blockSize.toNat = 0) :
    ∀ block ∈ groups.flatten, Inside area block := by
  intro block mem
  obtain ⟨_, taken⟩ := taken_placements pos noWrap finished
  obtain ⟨⟨number, _⟩, lower, -⟩ := taken.between block mem
  have below := lt_limitAddr_of_placements finished block mem
  refine ⟨lower, ?_⟩
  obtain ⟨blocks, _⟩ := dvd_of_mod_eq_zero whole
  have fewer : number < blocks := by
    refine Nat.lt_of_mul_lt_mul_left (a := area.blockSize.toNat) ?_
    rw [Nat.mul_comm _ number]
    omega
  have le := Nat.mul_le_mul_left area.blockSize.toNat (succ_le_of_lt fewer)
  rw [mul_succ, Nat.mul_comm _ number] at le
  omega

variable (servers : area.numMemory ≤ 256) (replicas : area.numReplication ≤ area.numMemory)
  (rest : (area.limitAddr.toNat - area.kvAreaAddr.toNat) % area.blockSize.toNat ≠ 0)
  {mnAddrPtr : MnAddrPtr} {counts : ℕ → ℕ}

omit pos noWrap in
include rest in
theorem skipFull_eq_self (counted : Counted area mnAddrPtr counts) {start : ℕ}
    (begins : start < area.numMemory) : skipFull area mnAddrPtr start = some start := by
  obtain ⟨_, total⟩ := exists_eq_succ_of_ne_zero (Nat.ne_zero_of_lt begins)
  have notFull : mnAddrPtr start ≠ area.limitAddr := by
    intro full
    refine rest ?_
    rw [← full, counted start begins, Nat.add_sub_cancel_left, mul_mod_left]
  have first : (start + 0) % area.numMemory = start := mod_eq_of_lt begins
  rw [skipFull, total, range_succ_eq_map, map_cons, ← total, first, find?_cons_of_pos]
  exact decide_eq_true notFull

omit pos in
include servers replicas rest in
/-- The blocks of a server that the loop takes are consecutive, and their number
is that of the rotation. -/
theorem mem_placeLoop_iff {remaining blockCnt : ℕ} {groups : List (List BlockAddr)}
    (counted : Counted area mnAddrPtr (rotationCount area.numMemory area.numReplication blockCnt))
    (finished : placeLoop area remaining blockCnt mnAddrPtr = some groups) {block : BlockAddr} :
    block ∈ groups.flatten ↔ block.1.toNat < area.numMemory ∧ ∃ number,
      rotationCount area.numMemory area.numReplication blockCnt block.1.toNat ≤ number ∧
      number < rotationCount area.numMemory area.numReplication (blockCnt + remaining)
        block.1.toNat ∧
      block.2.toNat = area.kvAreaAddr.toNat + number * area.blockSize.toNat := by
  induction remaining generalizing blockCnt mnAddrPtr groups with
  | zero =>
    obtain rfl := some.inj finished
    rw [flatten_nil, Nat.add_zero]
    refine iff_of_false not_mem_nil ?_
    rintro ⟨-, number, lower, upper, -⟩
    exact absurd lower (Nat.not_le_of_lt upper)
  | succ remaining ih =>
    obtain ⟨_, skipped, finished⟩ := bind_eq_some_iff.mp finished
    obtain ⟨taken, placed, finished⟩ := bind_eq_some_iff.mp finished
    obtain ⟨_, final, rfl⟩ := map_eq_some_iff.mp finished
    have begins := mod_lt blockCnt (zero_lt_of_lt (skipFull_lt skipped).1)
    rw [skipFull_eq_self rest counted begins] at skipped
    obtain rfl := some.inj skipped
    obtain ⟨usable, blocks, after⟩ := takeBlocks_eq_some servers replicas begins placed
    have next : Counted area taken.2
        (rotationCount area.numMemory area.numReplication (blockCnt + 1)) := by
      intro sid inside
      rw [after, counted_advance servers replicas noWrap counted begins usable sid inside,
        rotationCount_succ replicas inside, lay]
    have total : blockCnt + (remaining + 1) = blockCnt + 1 + remaining := by omega
    rw [flatten_cons, mem_append, ih next final, blocks,
      mem_blocks_iff servers replicas begins, total]
    by_cases inside : block.1.toNat < area.numMemory
    · have count := rotationCount_succ replicas inside blockCnt
      have mono := rotationCount_mono replicas inside (Nat.le_add_right (blockCnt + 1) remaining)
      dsimp only at mono
      constructor
      · rintro (⟨-, covered, addr⟩ | ⟨-, number, lower, upper, addr⟩)
        · rw [if_pos covered] at count
          exact ⟨inside, _, le_rfl, by omega, addr ▸ counted _ inside⟩
        · exact ⟨inside, number, by omega, upper, addr⟩
      · rintro ⟨-, number, lower, upper, addr⟩
        -- a block below the next one is the one that the group has taken
        rcases Nat.lt_or_ge number
            (rotationCount area.numMemory area.numReplication (blockCnt + 1) block.1.toNat)
          with here | behind
        · have covered : InWindow area.numMemory area.numReplication
              (blockCnt % area.numMemory) block.1.toNat := by
            by_contra outside
            rw [if_neg outside] at count
            omega
          rw [if_pos covered] at count
          obtain rfl : number = _ := Nat.le_antisymm (by omega) lower
          exact .inl ⟨inside, covered, UInt64.toNat_inj.mp (addr.trans (counted _ inside).symm)⟩
        · exact .inr ⟨inside, number, behind, upper, addr⟩
    · simp [inside]

include servers replicas in
theorem forall_inside_iff (atLeastOne : 0 < area.numReplication)
    (finished : placements area = some groups) :
    (∀ block ∈ groups.flatten, Inside area block) ↔ RoomForAll area := by
  by_cases rest : (area.limitAddr.toNat - area.kvAreaAddr.toNat) % area.blockSize.toNat = 0
  · exact iff_of_true (inside_of_whole pos noWrap finished rest) (.inl rest)
  have counted : Counted area (fun _ => area.kvAreaAddr)
      (rotationCount area.numMemory area.numReplication 0) := by
    intro sid inside
    rw [rotationCount_zero, Nat.zero_mul, Nat.add_zero]
  have listed_iff (block : BlockAddr) :=
    @mem_placeLoop_iff area noWrap servers replicas rest _ _ _ groups counted finished block
  rw [RoomForAll, or_iff_right rest]
  have quotient := div_mul_le_self (area.limitAddr.toNat - area.kvAreaAddr.toNat)
    area.blockSize.toNat
  have beyond := lt_mul_div_succ (area.limitAddr.toNat - area.kvAreaAddr.toNat) pos
  rw [Nat.mul_comm, succ_mul] at beyond
  generalize (area.limitAddr.toNat - area.kvAreaAddr.toNat) / area.blockSize.toNat = blocks
    at quotient beyond ⊢
  constructor
  · -- otherwise the last server of the first group has a block behind the whole ones
    intro inside
    by_contra more
    rw [← rotationCount_last atLeastOne replicas] at more
    have number : (UInt8.ofNat (area.numReplication - 1)).toNat = area.numReplication - 1 :=
      UInt8.toNat_ofNat_of_lt' (show area.numReplication - 1 < 256 by omega)
    have addr : (UInt64.ofNat (area.kvAreaAddr.toNat + blocks * area.blockSize.toNat)).toNat =
        area.kvAreaAddr.toNat + blocks * area.blockSize.toNat := by
      have start := area.kvAreaAddr.toNat_lt
      have limit := area.limitAddr.toNat_lt
      exact UInt64.toNat_ofNat_of_lt' (show _ < 2 ^ 64 by omega)
    have last := inside (UInt8.ofNat (area.numReplication - 1),
      UInt64.ofNat (area.kvAreaAddr.toNat + blocks * area.blockSize.toNat))
    rw [listed_iff, Inside, number, addr] at last
    have fits := last ⟨by omega, blocks, rotationCount_zero.trans_le (Nat.zero_le _),
      by rw [Nat.zero_add]; omega, rfl⟩
    omega
  · intro room block mem
    obtain ⟨bound, number, -, upper, _⟩ := (listed_iff block).mp mem
    rw [Nat.zero_add] at upper
    have most := rotationCount_le replicas bound area.numRepBlocks
    have fits := Nat.mul_le_mul_right area.blockSize.toNat (show number + 1 ≤ blocks by omega)
    rw [succ_mul] at fits
    exact ⟨by omega, by omega⟩

omit pos noWrap in
theorem roomForAll_of_numRepBlocks (none : area.numRepBlocks = 0) : RoomForAll area := by
  refine .inr ?_
  rw [none, Nat.zero_div, zero_mod, Nat.zero_mul, Nat.min_zero]
  exact Nat.zero_le _

end Rest

section Configurations

variable {conf : GlobalConfig} {groups : List (List BlockAddr)}

theorem noWrap_serverArea (bound : conf.serverBaseAddr.toNat + conf.serverDataLen.toNat ≤ 2 ^ 63) :
    NoWrap (serverArea conf) := by
  intro number below
  have limit : (serverArea conf).limitAddr.toNat =
      conf.serverBaseAddr.toNat + conf.serverDataLen.toNat := toNat_limitAddr bound
  have size : (serverArea conf).blockSize.toNat = conf.blockSize.toUInt32.toNat :=
    UInt32.toNat_toUInt64 _
  have narrow := conf.blockSize.toUInt32.toNat_lt
  rw [succ_mul]
  omega

variable (few : conf.memoryNum.toNat ≤ 256)
  (replicas : 1 ≤ conf.numReplication.toNat ∧ conf.numReplication.toNat ≤ conf.memoryNum.toNat)
  (pos : 0 < conf.blockSize.toUInt32.toNat)
  (bound : conf.serverBaseAddr.toNat + conf.serverDataLen.toNat ≤ 2 ^ 63)
include few replicas pos bound

theorem forall_inside_serverArea (finished : placements (serverArea conf) = some groups) :
    (∀ block ∈ groups.flatten, Inside (serverArea conf) block) ↔ RoomForAll (serverArea conf) := by
  refine forall_inside_iff ?_ (noWrap_serverArea bound) few replicas.2 replicas.1 finished
  rw [serverArea, UInt32.toNat_toUInt64]
  exact pos

theorem forall_inside_clientArea (finished : placements (clientArea conf) = some groups) :
    (∀ block ∈ groups.flatten, Inside (clientArea conf) block) ↔ RoomForAll (clientArea conf) := by
  have count : groups.length = (clientArea conf).numRepBlocks := length_placeLoop finished
  cases groups with
  | nil =>
    refine iff_of_true (fun block mem => absurd mem not_mem_nil) ?_
    exact roomForAll_of_numRepBlocks count.symm
  | cons group groups =>
    have room := (@kvAreaAddr_lt_of_placements (clientArea conf) replicas.1 _ finished
      (cons_ne_nil _ _)).2
    have nonzero : (clientArea conf).numRepBlocks ≠ 0 := by
      rw [← count]
      exact succ_ne_zero _
    have wide : 0 < (clientArea conf).blockSize.toNat := by
      have truncated := UInt64.toNat_toUInt32 conf.blockSize
      change 0 < conf.blockSize.toNat
      omega
    exact forall_inside_iff wide (noWrap_clientArea pos bound nonzero room).1 few replicas.2
      replicas.1 finished

omit pos bound

/-- Blocks that client and servers place lie in the area if it has whole blocks
only, or if the rotation leaves each server with blocks it has. -/
theorem inside_iff_roomForAll {map : AllocBlockMap} (mapped : getBlockMap conf = some map)
    {queues : ℕ → List UInt64}
    (built : ∀ sid < conf.memoryNum.toNat, getAllocableBlocks conf sid = some (queues sid)) :
    ∃ groups serverGroups, placements (clientArea conf) = some groups ∧
      map = blockMapOf groups ⟨[], fun _ => none⟩ ∧
      placements (serverArea conf) = some serverGroups ∧
      (∀ sid < conf.memoryNum.toNat, queues sid = primariesOn serverGroups sid) ∧
      ((∀ block ∈ groups.flatten, Inside (clientArea conf) block) ∧
          (∀ block ∈ serverGroups.flatten, Inside (serverArea conf) block) ↔
        RoomForAll (clientArea conf) ∧ RoomForAll (serverArea conf)) := by
  obtain ⟨nonzero, groups, finished, rfl⟩ := getBlockMap_eq mapped
  have pos := toNat_pos_of_ne_zero nonzero
  have bound : conf.serverBaseAddr.toNat + conf.serverDataLen.toNat ≤ 2 ^ 63 := by
    have first := built 0 (by omega)
    unfold getAllocableBlocks at first
    split_ifs at first with degenerate
    exact not_lt.mp (not_or.mp (not_or.mp degenerate).2).2
  obtain ⟨serverGroups, serverFinished, queuesEq⟩ := queues_eq_primariesOn built few replicas
  exact ⟨groups, serverGroups, finished, rfl, serverFinished, queuesEq,
    and_congr (forall_inside_clientArea few replicas pos bound finished)
      (forall_inside_serverArea few replicas pos bound serverFinished)⟩

omit few replicas

def twoServersRest : GlobalConfig :=
  { twoServers with serverDataLen := 512 * 1024 * 1024 + 256 }

theorem inside_iff_roomForAll_twoServersRest :
    ∃ groups, placements (clientArea twoServersRest) = some groups ∧ groups.length = 2 ∧
      ∀ block ∈ groups.flatten, Inside (clientArea twoServersRest) block := by
  have mapped : (getBlockMap twoServersRest).isSome := by decide +kernel
  obtain ⟨_, mapped⟩ := isSome_iff_exists.mp mapped
  have built : ∀ sid < 2, getAllocableBlocks twoServersRest sid =
      some ((getAllocableBlocks twoServersRest sid).getD []) := by decide +kernel
  obtain ⟨groups, _, finished, -, -, -, inside⟩ :=
    inside_iff_roomForAll (by decide) (by decide) mapped built
  exact ⟨groups, finished, (length_placeLoop finished).trans (by decide),
    (inside.mpr (by decide)).1⟩

def fiveServersRest : GlobalConfig :=
  { twoServers with memoryNum := 5, serverDataLen := 448 * 1024 * 1024 + 256 }

theorem not_inside_fiveServersRest :
    (getBlockMap fiveServersRest).isSome ∧
    placements (clientArea fiveServersRest) =
      some [[(0, 0x28000000), (1, 0x28000000)], [(1, 0x2C000000), (2, 0x28000000)]] ∧
    (∀ sid < 5, (getAllocableBlocks fiveServersRest sid).isSome) ∧
    getAllocableBlocks fiveServersRest 1 = some [0x2C000000] ∧
    ¬ Inside (clientArea fiveServersRest) (1, 0x2C000000) ∧
    ¬ Inside (serverArea fiveServersRest) (1, 0x2C000000) := by
  decide +kernel

end Configurations

end FuseeFs.Memory.Placement
