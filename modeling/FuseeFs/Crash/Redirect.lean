import FuseeFs.Crash.Copies
import FuseeFs.Memory.PlacementFill

/-!
# Redirecting cached addresses

`check_failed_cache` looks the block of an address up in `total_block_map_`,
under the tagged address that the block would have if blocks began at multiples
of their size.  The groups that `get_block_map` has formed are the `DataBlocks`
of a client, and the function does on the map what `checkFailedCache` does on
them.
-/

namespace FuseeFs.Crash

open List Option
open Index KeyValue Library.Packed Memory.Ownership Memory.Placement

def checkFailedCacheMap (conf : GlobalConfig) (map : TotalBlockMap)
    (serverCrashMap : UInt8 → Bool) (cachedSlot : UInt64) : Option UInt64 :=
  let slot := raceHashSlot cachedSlot
  let targetServer := slot.serverId
  if serverCrashMap targetServer = false then some cachedSlot
  else
    let targetAddr := UInt64.ofNat (rKvAddr cachedSlot)
    let targetOffset := (targetAddr % conf.blockSize).toUInt32
    let targetBlockAddr := targetAddr - targetOffset.toUInt64
    (map (targetBlockAddr ||| targetServer.toUInt64)).bind fun second =>
      ((second.take (conf.numReplication.toNat - 1)).find? fun other =>
        serverCrashMap (taggedSid other) = false).map fun other =>
          convertSlotToInt
            { slot with
              serverId := taggedSid other
              pointer :=
                hashIndexConvert64To40Bits (taggedAddr other + targetOffset.toUInt64).toNat }

def toLocation (block : BlockAddr) : Location :=
  (block.1, block.2.toNat)

theorem toLocation_injective : Function.Injective toLocation := by
  intro block other same
  obtain ⟨server, addr⟩ := Prod.ext_iff.mp same
  exact Prod.ext server (UInt64.toNat_inj.mp addr)

section Groups

variable {conf : GlobalConfig} {groups : List (List BlockAddr)}

def Pointable (conf : GlobalConfig) (groups : List (List BlockAddr)) : Prop :=
  ∀ block ∈ groups.flatten, block.2.toNat + conf.blockSize.toNat ≤ 2 ^ 48

theorem flatten_map_toLocation :
    (groups.map (List.map toLocation)).flatten = groups.flatten.map toLocation :=
  map_flatten.symm

variable (pos : 0 < conf.blockSize.toNat) (blockAligned : conf.blockSize.toNat % 256 = 0)
  (sound : Sound conf groups) (pointable : Pointable conf groups)

def dataBlocks : DataBlocks where
  mmBlockSz := conf.blockSize.toNat
  groups := groups.map (List.map toLocation)
  mmBlockSz_pos := pos
  mmBlockSz_aligned := Nat.dvd_of_mod_eq_zero blockAligned
  nodup := by
    rw [flatten_map_toLocation]
    exact sound.nodup.map toLocation_injective
  aligned := by
    rw [flatten_map_toLocation, List.forall_mem_map]
    exact fun block mem => Nat.dvd_of_mod_eq_zero (sound.aligned block mem)
  bounded := by
    rw [flatten_map_toLocation, List.forall_mem_map]
    exact pointable
  sameOffset := by
    have offset : ∀ block ∈ groups.flatten, block.2.toNat % conf.blockSize.toNat =
        (clientArea conf).kvAreaAddr.toNat % conf.blockSize.toNat := by
      intro block mem
      obtain ⟨_, addr⟩ := sound.onGrid block mem
      rw [addr]
      exact Nat.add_mul_mod_self_right _ _ _
    rw [flatten_map_toLocation, List.forall_mem_map]
    intro block mem
    rw [List.forall_mem_map]
    exact fun other otherListed => (offset block mem).trans (offset other otherListed).symm

theorem map_find?_map {α β γ δ : Type*} {first : α → β} {second : α → γ} {test : β → Bool}
    {otherTest : γ → Bool} {result : β → δ} {otherResult : γ → δ} {entries : List α}
    (tests : ∀ entry ∈ entries, test (first entry) = otherTest (second entry))
    (results : ∀ entry ∈ entries, result (first entry) = otherResult (second entry)) :
    ((entries.map first).find? test).map result =
      ((entries.map second).find? otherTest).map otherResult := by
  induction entries with
  | nil => rfl
  | cons entry entries ih =>
    obtain ⟨test_eq, tests⟩ := forall_mem_cons.mp tests
    obtain ⟨result_eq, results⟩ := forall_mem_cons.mp results
    rw [map_cons, map_cons, find?_cons, find?_cons, test_eq]
    cases otherTest (second entry) with
    | true => exact congrArg some result_eq
    | false => exact ih tests results

theorem bind_find?_eq {map : TotalBlockMap} {key : UInt64} {count : ℕ} {test : UInt64 → Bool}
    {result : UInt64 → UInt64} :
    ((map key).bind fun second => ((second.take count).find? test).map result) =
      (((map.others key).take count).find? test).map result := by
  rw [TotalBlockMap.others]
  cases map key with
  | none => rw [getD_none, take_nil]; rfl
  | some second => rfl

theorem toNat_targetOffset (conf : GlobalConfig) (word : UInt64) :
    (UInt64.ofNat (rKvAddr word) % conf.blockSize).toUInt32.toUInt64.toNat =
      rKvAddr word % conf.blockSize.toNat % 2 ^ 32 := by
  have small := rKvAddr_lt word
  rw [UInt32.toNat_toUInt64, UInt64.toNat_toUInt32, UInt64.toNat_mod,
    UInt64.toNat_ofNat_of_lt' (show _ < 2 ^ 64 by omega)]

theorem toNat_targetBlockAddr (conf : GlobalConfig) (word : UInt64) :
    (UInt64.ofNat (rKvAddr word) -
        (UInt64.ofNat (rKvAddr word) % conf.blockSize).toUInt32.toUInt64).toNat =
      rKvAddr word - rKvAddr word % conf.blockSize.toNat % 2 ^ 32 := by
  have small := rKvAddr_lt word
  have number : (UInt64.ofNat (rKvAddr word)).toNat = rKvAddr word :=
    UInt64.toNat_ofNat_of_lt' (show _ < 2 ^ 64 by omega)
  rw [UInt64.toNat_sub_of_le, toNat_targetOffset, number]
  rw [UInt64.le_iff_toNat_le, toNat_targetOffset, number]
  exact (Nat.mod_le _ _).trans (Nat.mod_le _ _)

include sound in
theorem others_of_not_mem {block : BlockAddr} (aligned : block.2.toNat % 256 = 0)
    (absent : block ∉ groups.flatten) : (totalBlockMapOf groups).others (tagged block) = [] := by
  refine others_foldl_enterTotal_of_not_mem _ fun mem => absent ?_
  obtain ⟨other, otherListed, same⟩ := List.mem_map.mp mem
  rwa [← tagged_inj (sound.aligned other otherListed) aligned same]

theorem filter_map_toLocation (group : List BlockAddr) (block : BlockAddr) :
    (group.map toLocation).filter (· ≠ toLocation block) =
      (group.filter (· ≠ block)).map toLocation := by
  rw [List.filter_map]
  refine congrArg (List.map toLocation) (filter_congr fun other _ => ?_)
  exact decide_eq_decide.mpr (not_congr toLocation_injective.eq_iff)

theorem redirect_others_eq (serverCrashMap : UInt8 → Bool) (slot : RaceHashSlot)
    (block : BlockAddr) (aligned : block.2.toNat % 256 = 0) {targetOffset : UInt64}
    (less : targetOffset.toNat < conf.blockSize.toNat) :
    ((((totalBlockMapOf groups).others (tagged block)).take
        (conf.numReplication.toNat - 1)).find? fun other =>
          serverCrashMap (taggedSid other) = false).map (fun other =>
        convertSlotToInt
          { slot with
            serverId := taggedSid other
            pointer := hashIndexConvert64To40Bits (taggedAddr other + targetOffset).toNat }) =
      ((dataBlocks pos blockAligned sound pointable).totalBlockMap (toLocation block)).bind
        fun others => (others.find? fun other => serverCrashMap other.1 = false).map fun other =>
          convertSlotToInt
            { slot with
              serverId := other.1
              pointer := hashIndexConvert64To40Bits (other.2 + targetOffset.toNat) } := by
  by_cases mem : block ∈ groups.flatten
  · obtain ⟨group, inGroups, inGroup⟩ := List.mem_flatten.mp mem
    have length : ((group.filter (· ≠ block)).map tagged).length ≤
        conf.numReplication.toNat - 1 := by
      rw [length_map, ← sound.length_eq inGroups]
      refine Nat.le_sub_one_of_lt (length_filter_lt_length_iff_exists.mpr ⟨block, inGroup, ?_⟩)
      simp
    have mapped : (dataBlocks pos blockAligned sound pointable).totalBlockMap
        (toLocation block) = some ((group.filter (· ≠ block)).map toLocation) := by
      rw [DataBlocks.totalBlockMap_eq (List.mem_map_of_mem inGroups) (List.mem_map_of_mem inGroup),
        filter_map_toLocation]
    rw [others_totalBlockMapOf sound inGroups inGroup, take_of_length_le length, mapped, bind_some]
    have others : ∀ other ∈ group.filter (· ≠ block), other ∈ groups.flatten :=
      fun other kept => mem_flatten_of_mem inGroups (mem_of_mem_filter kept)
    refine map_find?_map (fun other kept => ?_) fun other kept => ?_
    · rw [taggedSid_tagged (sound.aligned other (others other kept))]
      rfl
    · have bounded := pointable other (others other kept)
      have sum : (other.2 + targetOffset).toNat = other.2.toNat + targetOffset.toNat := by
        rw [UInt64.toNat_add]
        omega
      rw [taggedSid_tagged (sound.aligned other (others other kept)),
        taggedAddr_tagged (sound.aligned other (others other kept)), sum]
      rfl
  · have unmapped : (dataBlocks pos blockAligned sound pointable).totalBlockMap
        (toLocation block) = none := by
      refine map_eq_none_iff.mpr (find?_eq_none.mpr fun group inGroups inGroup => ?_)
      obtain ⟨_, othersListed, rfl⟩ := List.mem_map.mp inGroups
      obtain ⟨_, inOthers, same⟩ := List.mem_map.mp (of_decide_eq_true inGroup)
      rw [toLocation_injective same] at inOthers
      exact mem (mem_flatten_of_mem othersListed inOthers)
    rw [others_of_not_mem sound aligned mem, unmapped, take_nil]
    rfl

theorem checkFailedCacheMap_eq (serverCrashMap : UInt8 → Bool) (cachedSlot : UInt64) :
    checkFailedCacheMap conf (totalBlockMapOf groups) serverCrashMap cachedSlot =
      checkFailedCache (dataBlocks pos blockAligned sound pointable) serverCrashMap
        cachedSlot := by
  unfold checkFailedCacheMap checkFailedCache
  by_cases healthy : serverCrashMap (raceHashSlot cachedSlot).serverId = false
  · rw [if_pos healthy, if_pos healthy]
  rw [if_neg healthy, if_neg healthy]
  have offset := toNat_targetOffset conf cachedSlot
  have addr := toNat_targetBlockAddr conf cachedSlot
  have size : (dataBlocks pos blockAligned sound pointable).mmBlockSz = conf.blockSize.toNat := rfl
  have less := targetOffset_lt (dataBlocks pos blockAligned sound pointable) (rKvAddr cachedSlot)
  have dvd := dvd_targetOffset (dataBlocks pos blockAligned sound pointable)
    (show 256 ∣ rKvAddr cachedSlot from Nat.dvd_mul_right 256 _)
  have within : rKvAddr cachedSlot % conf.blockSize.toNat % 2 ^ 32 ≤ rKvAddr cachedSlot :=
    (Nat.mod_le _ _).trans (Nat.mod_le _ _)
  have pointed : 256 ∣ rKvAddr cachedSlot := Nat.dvd_mul_right 256 _
  rw [size] at less dvd
  dsimp only
  rw [bind_find?_eq, size]
  generalize (UInt64.ofNat (rKvAddr cachedSlot) % conf.blockSize).toUInt32.toUInt64 = targetOffset
    at offset addr ⊢
  generalize UInt64.ofNat (rKvAddr cachedSlot) - targetOffset = targetBlockAddr at addr ⊢
  rw [← offset] at less dvd within addr ⊢
  rw [← addr]
  have aligned : targetBlockAddr.toNat % 256 = 0 := by omega
  exact redirect_others_eq pos blockAligned sound pointable serverCrashMap
    (raceHashSlot cachedSlot) ((raceHashSlot cachedSlot).serverId, targetBlockAddr) aligned less

end Groups

/-- The cached slot of a subblock leads to the same subblock of a block of the
group, on a server that has not crashed. -/
def Redirected (conf : GlobalConfig) (map : TotalBlockMap) (serverCrashMap : UInt8 → Bool)
    (group : List BlockAddr) (offset : ℕ) (cachedSlot : UInt64) : Prop :=
  ∃ healthySlot, checkFailedCacheMap conf map serverCrashMap cachedSlot = some healthySlot ∧
    ∃ other ∈ group, serverCrashMap other.1 = false ∧
      location healthySlot = (other.1, other.2.toNat + offset)

section Configurations

variable {conf : GlobalConfig} {groups : List (List BlockAddr)}

/-- Addresses of a process have 47 bits, so that the index can point to all
blocks, even to those that reach over the end of the area. -/
theorem pointable_of_placements (pos : 0 < conf.blockSize.toUInt32.toNat)
    (replicas : 0 < conf.numReplication.toNat)
    (bound : conf.serverBaseAddr.toNat + conf.serverDataLen.toNat ≤ 2 ^ 47)
    (finished : placements (clientArea conf) = some groups) : Pointable conf groups := by
  intro block mem
  have nonempty : groups ≠ [] := by
    rintro rfl
    exact absurd mem not_mem_nil
  have some : (clientArea conf).numRepBlocks ≠ 0 := by
    rw [← length_placeLoop finished]
    exact mt eq_nil_of_length_eq_zero nonempty
  have size := blockSize_le_kvAreaLen some
  have room := (@kvAreaAddr_lt_of_placements (clientArea conf) replicas _ finished nonempty).2
  have ends := toNat_kvAreaLen pos (by omega) room
  have limit := @toNat_limitAddr conf (by omega)
  have below := lt_limitAddr_of_placements finished block mem
  omega

variable {group : List BlockAddr} {serverCrashMap : UInt8 → Bool}

theorem redirected_of_healthy {block : BlockAddr} (inGroup : block ∈ group) {map : TotalBlockMap}
    {offset : ℕ} {cachedSlot : UInt64} (healthy : serverCrashMap block.1 = false)
    (pointed : location cachedSlot = (block.1, block.2.toNat + offset)) :
    Redirected conf map serverCrashMap group offset cachedSlot := by
  have server : (raceHashSlot cachedSlot).serverId = block.1 := congrArg Prod.fst pointed
  refine ⟨cachedSlot, ?_, block, inGroup, healthy, pointed⟩
  rw [checkFailedCacheMap, server, if_pos healthy]

theorem redirected_iff_of_aligned (baseAligned : conf.serverBaseAddr.toNat % 256 = 0)
    (blockAligned : conf.blockSize.toNat % 256 = 0)
    (bound : conf.serverBaseAddr.toNat + conf.serverDataLen.toNat ≤ 2 ^ 47)
    (pos : 0 < conf.blockSize.toUInt32.toNat) (replicas : 0 < conf.numReplication.toNat)
    (finished : placements (clientArea conf) = some groups) (mem : group ∈ groups)
    {block : BlockAddr} (inGroup : block ∈ group) {offset : ℕ} (aligned : 256 ∣ offset)
    (inside : offset < conf.blockSize.toNat)
    (alive : ∃ other ∈ group, serverCrashMap other.1 = false) {cachedSlot : UInt64}
    (pointed : location cachedSlot = (block.1, block.2.toNat + offset)) :
    Redirected conf (totalBlockMapOf groups) serverCrashMap group offset cachedSlot ↔
      serverCrashMap block.1 = false ∨
        ((clientArea conf).kvAreaAddr.toNat + offset) % conf.blockSize.toNat % 2 ^ 32 = offset := by
  have sound := sound_of_placements pos replicas (by omega) finished baseAligned blockAligned
  have pointable := pointable_of_placements pos replicas bound finished
  have wide : 0 < conf.blockSize.toNat := by
    rw [UInt64.toNat_toUInt32] at pos
    omega
  obtain ⟨_, addr⟩ := sound.onGrid block (mem_flatten_of_mem mem inGroup)
  have start : (block.2.toNat + offset) % conf.blockSize.toNat =
      ((clientArea conf).kvAreaAddr.toNat + offset) % conf.blockSize.toNat := by
    rw [addr, Nat.add_right_comm]
    exact Nat.add_mul_mod_self_right _ _ _
  rw [← start, Redirected, checkFailedCacheMap_eq wide blockAligned sound pointable]
  have left : ∃ other ∈ group.map toLocation, serverCrashMap other.1 = false := by
    obtain ⟨other, inOther, healthy⟩ := alive
    exact ⟨_, List.mem_map_of_mem inOther, healthy⟩
  have redirected := @redirected_iff (dataBlocks wide blockAligned sound pointable) serverCrashMap
    cachedSlot _ (List.mem_map_of_mem mem) (toLocation block) (List.mem_map_of_mem inGroup) offset
    aligned inside left pointed
  refine Iff.trans ?_ redirected
  refine exists_congr fun healthySlot => and_congr_right fun _ => ?_
  constructor
  · rintro ⟨other, inOther, found⟩
    exact ⟨_, List.mem_map_of_mem inOther, found⟩
  · rintro ⟨_, mem, found⟩
    obtain ⟨other, inOther, rfl⟩ := List.mem_map.mp mem
    exact ⟨other, inOther, found⟩

/-- An address on a crashed server is redirected if blocks are a multiple of 256 bytes
long and the offset that the function computes, from the address and with 32 bits, is
the offset in the block.  With such blocks it is redirected in no other case. -/
theorem redirected_iff_targetOffset (baseAligned : conf.serverBaseAddr.toNat % 256 = 0)
    (bound : conf.serverBaseAddr.toNat + conf.serverDataLen.toNat ≤ 2 ^ 47)
    {map : TotalBlockMap} (mapped : getTotalBlockMap conf = some map) :
    ∃ groups, placements (clientArea conf) = some groups ∧
      ∀ group ∈ groups, ∀ block ∈ group, ∀ offset, 256 ∣ offset → offset < conf.blockSize.toNat →
      ∀ serverCrashMap : UInt8 → Bool, (∃ other ∈ group, serverCrashMap other.1 = false) →
      ∀ cachedSlot, location cachedSlot = (block.1, block.2.toNat + offset) →
        (serverCrashMap block.1 = false ∨ conf.blockSize.toNat % 256 = 0 ∧
            ((clientArea conf).kvAreaAddr.toNat + offset) % conf.blockSize.toNat % 2 ^ 32 = offset →
          Redirected conf map serverCrashMap group offset cachedSlot) ∧
        (conf.blockSize.toNat % 256 = 0 →
          Redirected conf map serverCrashMap group offset cachedSlot →
          serverCrashMap block.1 = false ∨
            ((clientArea conf).kvAreaAddr.toNat + offset) % conf.blockSize.toNat % 2 ^ 32 =
              offset) := by
  obtain ⟨pos, replicas, groups, finished, rfl⟩ := getTotalBlockMap_eq mapped
  refine ⟨groups, finished, ?_⟩
  intro group mem block inGroup offset aligned inside serverCrashMap alive cachedSlot pointed
  have redirected (blockAligned : conf.blockSize.toNat % 256 = 0) :=
    redirected_iff_of_aligned baseAligned blockAligned bound pos replicas finished mem
      inGroup aligned inside alive pointed
  refine ⟨?_, fun blockAligned => (redirected blockAligned).mp⟩
  rintro (healthy | ⟨blockAligned, computed⟩)
  · exact redirected_of_healthy inGroup healthy pointed
  · exact (redirected blockAligned).mpr (.inr computed)

def firstCrashed (sid : UInt8) : Bool :=
  sid = 0

def slotAt (serverId : UInt8) (addr : ℕ) : UInt64 :=
  convertSlotToInt ⟨1, 1, serverId, hashIndexConvert64To40Bits addr⟩

/-- The blocks of `twoServers` begin at multiples of their size. -/
theorem redirected_iff_targetOffset_twoServers :
    ∃ map, getTotalBlockMap twoServers = some map ∧
      Redirected twoServers map firstCrashed [(0, 0x28000000), (1, 0x28000000)] 0x8000
        (slotAt 0 0x28008000) := by
  have mapped : (getTotalBlockMap twoServers).isSome := by
    rw [isSome_getTotalBlockMap]
    decide +kernel
  obtain ⟨map, mapped⟩ := isSome_iff_exists.mp mapped
  obtain ⟨_, finished, redirects⟩ := redirected_iff_targetOffset (by decide) (by decide) mapped
  have placed : placements (clientArea twoServers) =
      some [[(0, 0x28000000), (1, 0x28000000)], [(1, 0x2C000000), (0, 0x2C000000)]] := by
    decide +kernel
  obtain rfl := some.inj (finished.symm.trans placed)
  refine ⟨map, mapped, ?_⟩
  exact (redirects _ mem_cons_self _ mem_cons_self 0x8000 (by decide) (by decide)
    firstCrashed ⟨(1, 0x28000000), by simp, by decide⟩ _ (by decide +kernel)).1
    (.inr ⟨by decide, by decide⟩)

def testServers : GlobalConfig :=
  { twoServers with serverBaseAddr := 0x100000 }

/-- The client exits: the block is not found, although its copy on server 1 is
there. -/
theorem not_redirected_testServers :
    placements (clientArea testServers) =
      some [[(0, 0x18100000), (1, 0x18100000)], [(1, 0x1C100000), (0, 0x1C100000)]] ∧
    location (slotAt 0 0x18108000) = (0, 0x18100000 + 0x8000) ∧
    ∃ map, getTotalBlockMap testServers = some map ∧
      checkFailedCacheMap testServers map firstCrashed (slotAt 0 0x18108000) = none := by
  have mapped : (getTotalBlockMap testServers).isSome := by
    rw [isSome_getTotalBlockMap]
    decide +kernel
  obtain ⟨map, mapped⟩ := isSome_iff_exists.mp mapped
  have exits : (getTotalBlockMap testServers).bind (fun map =>
      checkFailedCacheMap testServers map firstCrashed (slotAt 0 0x18108000)) = none := by
    decide +kernel
  rw [mapped, bind_some] at exits
  exact ⟨by decide +kernel, by decide +kernel, map, mapped, exits⟩

end Configurations

end FuseeFs.Crash
