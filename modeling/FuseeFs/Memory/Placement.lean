import FuseeFs.Config

/-!
# Placement of memory blocks

The blocks of all servers are grouped into replicas by a loop that client and
server run separately: the client maps every primary block to its backups
(`get_block_map`), and a server lists the primary blocks it may hand out
(`get_allocable_blocks`).  Both loops visit the groups of `placeLoop`.
-/

namespace FuseeFs.Memory.Placement

open Nat List Option Function

/-! ## Groups of replicas -/

abbrev MnAddrPtr := ℕ → UInt64

abbrev BlockAddr := UInt8 × UInt64

structure Area where
  numMemory : ℕ
  numReplication : ℕ
  kvAreaAddr : UInt64
  limitAddr : UInt64
  blockSize : UInt64
  numRepBlocks : ℕ
deriving DecidableEq

section Groups

variable (area : Area)

/-- `while (mn_addr_ptr[st_sid] == limit)`: the next server that is not full.
With no such server the loop does not end. -/
def skipFull (mnAddrPtr : MnAddrPtr) (stSid : ℕ) : Option ℕ :=
  ((List.range area.numMemory).map fun offset => (stSid + offset) % area.numMemory).find? fun sid =>
    mnAddrPtr sid ≠ area.limitAddr

def replicaSids (stSid : ℕ) : List UInt8 :=
  (List.range area.numReplication).map fun index => UInt8.ofNat ((stSid + index) % area.numMemory)

/-- The `for` loop that takes one block from each server of a group, or exits.
The test `& 0xFF != 0` is one of the lowest bit. -/
def takeBlocks (mnAddrPtr : MnAddrPtr) : List UInt8 → Option (List BlockAddr × MnAddrPtr)
  | [] => some ([], mnAddrPtr)
  | sid :: sids =>
    let addr := mnAddrPtr sid.toNat
    if addr ≥ area.limitAddr ∨ addr &&& 1 ≠ 0 then none
    else
      (takeBlocks (update mnAddrPtr sid.toNat (addr + area.blockSize)) sids).map
        fun rest => ((sid, addr) :: rest.1, rest.2)

def placeLoop : ℕ → ℕ → MnAddrPtr → Option (List (List BlockAddr))
  | 0, _, _ => some []
  | remaining + 1, blockCnt, mnAddrPtr =>
    (skipFull area mnAddrPtr (blockCnt % area.numMemory)).bind fun stSid =>
      (takeBlocks area mnAddrPtr (replicaSids area stSid)).bind fun taken =>
        (placeLoop remaining (blockCnt + 1) taken.2).map (taken.1 :: ·)

def placements : Option (List (List BlockAddr)) :=
  placeLoop area area.numRepBlocks 0 fun _ => area.kvAreaAddr

end Groups

/-! ## The client -/

/-- `alloc_block_map_`, with the keys in the order in which they are entered. -/
structure AllocBlockMap where
  keys : List UInt64
  second : UInt64 → Option (List UInt64)

def pushBack (key : UInt64) (second : UInt64 → Option (List UInt64)) (value : UInt64) :
    UInt64 → Option (List UInt64) :=
  update second key (some ((second key).getD [] ++ [value]))

/-- `mn_addr_ptr[sid] | sid` -/
def tagged (block : BlockAddr) : UInt64 :=
  block.2 ||| block.1.toUInt64

/-- The end of a round of `get_block_map`; a single replica is mapped to 0. -/
def enterBlocks (map : AllocBlockMap) (addrList : List UInt64) : AllocBlockMap :=
  match addrList with
  | [] => map
  | [addr] => ⟨map.keys ++ [addr], pushBack addr map.second 0⟩
  | addr :: backups => ⟨map.keys ++ [addr], backups.foldl (pushBack addr) map.second⟩

def getBlockMapLoop (area : Area) : ℕ → ℕ → MnAddrPtr → AllocBlockMap → Option AllocBlockMap
  | 0, _, _, map => some map
  | remaining + 1, blockCnt, mnAddrPtr, map =>
    (skipFull area mnAddrPtr (blockCnt % area.numMemory)).bind fun stSid =>
      (takeBlocks area mnAddrPtr (replicaSids area stSid)).bind fun taken =>
        let addrList := taken.1.map tagged
        if addrList.tail.any (· = 0) then none
        else getBlockMapLoop area remaining (blockCnt + 1) taken.2 (enterBlocks map addrList)

/-! ## The server -/

def getAllocableBlocksLoop (area : Area) (mySid : ℕ) :
    ℕ → ℕ → MnAddrPtr → List UInt64 → Option (List UInt64)
  | 0, _, _, allocableBlocks => some allocableBlocks
  | remaining + 1, blockCnt, mnAddrPtr, allocableBlocks =>
    (skipFull area mnAddrPtr (blockCnt % area.numMemory)).bind fun stSid =>
      (takeBlocks area mnAddrPtr (replicaSids area stSid)).bind fun taken =>
        getAllocableBlocksLoop area mySid remaining (blockCnt + 1) taken.2
          (if stSid = mySid then allocableBlocks ++ (taken.1.map Prod.snd).take 1
          else allocableBlocks)

def mmAlloc : List UInt64 → UInt64 × List UInt64
  | [] => (0, [])
  | addr :: allocableBlocks => (addr, allocableBlocks)

section Configurations

variable (conf : GlobalConfig)

/-- `round_up`, whose second parameter has 32 bits. -/
def roundUp (addr : UInt64) (align : UInt32) : UInt64 :=
  addr + align.toUInt64 - 1 - (addr + align.toUInt64 - 1) % align.toUInt64

def kvAreaOff : UInt64 :=
  roundUp (UInt64.ofNat (metaAreaLen + gcAreaLen + hashAreaLen)) conf.blockSize.toUInt32

def kvAreaLen : UInt64 :=
  conf.serverDataLen - kvAreaOff conf

/-- `server_num_blocks_` of the client. -/
def serverNumBlocks : UInt64 :=
  kvAreaLen conf / conf.blockSize

/-- `num_blocks_` of the server, whose block size has 32 bits. -/
def numBlocks : UInt32 :=
  (kvAreaLen conf / conf.blockSize.toUInt32.toUInt64).toUInt32

def clientArea : Area where
  numMemory := conf.memoryNum.toNat
  numReplication := conf.numReplication.toNat
  kvAreaAddr := conf.serverBaseAddr + kvAreaOff conf
  limitAddr := conf.serverBaseAddr + conf.serverDataLen
  blockSize := conf.blockSize
  numRepBlocks :=
    (serverNumBlocks conf * conf.memoryNum.toUInt64 / conf.numReplication.toUInt64).toUInt32.toNat

def serverArea : Area where
  numMemory := conf.memoryNum.toNat
  numReplication := conf.numReplication.toNat
  kvAreaAddr := conf.serverBaseAddr + kvAreaOff conf
  limitAddr := conf.serverBaseAddr + conf.serverDataLen
  blockSize := conf.blockSize.toUInt32.toUInt64
  numRepBlocks := (numBlocks conf * conf.memoryNum / conf.numReplication).toNat

/-- `ClientMM::get_block_map`, after the divisions of the constructor. -/
def getBlockMap : Option AllocBlockMap :=
  if conf.blockSize.toUInt32 = 0 ∨ conf.numReplication = 0 then none
  else
    getBlockMapLoop (clientArea conf) (clientArea conf).numRepBlocks 0
      (fun _ => (clientArea conf).kvAreaAddr) ⟨[], fun _ => none⟩

/-- `ServerMM::get_allocable_blocks`.  The constructor has mapped the memory
before, and a process has only the lower half of the address space. -/
def getAllocableBlocks (mySid : ℕ) : Option (List UInt64) :=
  if conf.blockSize.toUInt32 = 0 ∨ conf.numReplication = 0 ∨
      2 ^ 63 < conf.serverBaseAddr.toNat + conf.serverDataLen.toNat then none
  else
    getAllocableBlocksLoop (serverArea conf) mySid (serverArea conf).numRepBlocks 0
      (fun _ => (serverArea conf).kvAreaAddr) []

end Configurations

section Loop

variable {Map : Type} (area : Area) (enter : Map → List UInt64 → Map)

def mapLoop : ℕ → ℕ → MnAddrPtr → Map → Option Map
  | 0, _, _, map => some map
  | remaining + 1, blockCnt, mnAddrPtr, map =>
    (skipFull area mnAddrPtr (blockCnt % area.numMemory)).bind fun stSid =>
      (takeBlocks area mnAddrPtr (replicaSids area stSid)).bind fun taken =>
        let addrList := taken.1.map tagged
        if addrList.tail.any (· = 0) then none
        else mapLoop remaining (blockCnt + 1) taken.2 (enter map addrList)

variable {area enter}

theorem mapLoop_eq {remaining blockCnt : ℕ} {mnAddrPtr : MnAddrPtr} {map final : Map}
    (finished : mapLoop area enter remaining blockCnt mnAddrPtr map = some final) :
    ∃ groups, placeLoop area remaining blockCnt mnAddrPtr = some groups ∧
      final = groups.foldl (fun map group => enter map (group.map tagged)) map := by
  induction remaining generalizing blockCnt mnAddrPtr map with
  | zero => exact ⟨[], rfl, (some.inj finished).symm⟩
  | succ remaining ih =>
    obtain ⟨_, skipped, finished⟩ := bind_eq_some_iff.mp finished
    obtain ⟨taken, placed, finished⟩ := bind_eq_some_iff.mp finished
    dsimp only at finished
    split_ifs at finished
    obtain ⟨groups, later, rfl⟩ := ih finished
    refine ⟨taken.1 :: groups, ?_, rfl⟩
    simp [placeLoop, skipped, placed, later]

theorem getBlockMapLoop_eq_mapLoop (remaining blockCnt : ℕ) (mnAddrPtr : MnAddrPtr)
    (map : AllocBlockMap) :
    getBlockMapLoop area remaining blockCnt mnAddrPtr map =
      mapLoop area enterBlocks remaining blockCnt mnAddrPtr map := by
  induction remaining generalizing blockCnt mnAddrPtr map with
  | zero => rfl
  | succ remaining ih =>
    simp only [getBlockMapLoop, mapLoop, ih]

end Loop

section Refinement

variable {area : Area}

def blockMapOf (groups : List (List BlockAddr)) (map : AllocBlockMap) : AllocBlockMap :=
  groups.foldl (fun map group => enterBlocks map (group.map tagged)) map

variable {mnAddrPtr : MnAddrPtr}

theorem getBlockMapLoop_eq {remaining blockCnt : ℕ} {map final : AllocBlockMap}
    (finished : getBlockMapLoop area remaining blockCnt mnAddrPtr map = some final) :
    ∃ groups, placeLoop area remaining blockCnt mnAddrPtr = some groups ∧
      final = blockMapOf groups map := by
  rw [getBlockMapLoop_eq_mapLoop] at finished
  exact mapLoop_eq finished

def primariesOn (groups : List (List BlockAddr)) (sid : ℕ) : List UInt64 :=
  ((groups.filterMap List.head?).filter fun block => block.1.toNat = sid).map Prod.snd

variable {taken : List BlockAddr × MnAddrPtr}

theorem map_fst_takeBlocks {sids : List UInt8}
    (placed : takeBlocks area mnAddrPtr sids = some taken) : taken.1.map Prod.fst = sids := by
  induction sids generalizing mnAddrPtr taken with
  | nil => rw [← some.inj placed, map_nil]
  | cons sid sids ih =>
    simp only [takeBlocks] at placed
    split_ifs at placed
    obtain ⟨_, later, rfl⟩ := map_eq_some_iff.mp placed
    rw [map_cons, ih later]

variable {stSid : ℕ}

theorem skipFull_lt {start : ℕ} (skipped : skipFull area mnAddrPtr start = some stSid) :
    stSid < area.numMemory ∧ mnAddrPtr stSid ≠ area.limitAddr := by
  have mem := mem_of_find?_eq_some skipped
  have notFull := find?_some skipped
  obtain ⟨_, bound, rfl⟩ := List.mem_map.mp mem
  have pos : 0 < area.numMemory := zero_lt_of_lt (mem_range.mp bound)
  exact ⟨mod_lt _ pos, of_decide_eq_true notFull⟩

theorem primary_takeBlocks (replicas : 0 < area.numReplication) (bound : stSid < area.numMemory)
    (placed : takeBlocks area mnAddrPtr (replicaSids area stSid) = some taken) :
    ∃ primary, taken.1.head? = some primary ∧ primary.1 = UInt8.ofNat stSid ∧
      primary.2 = mnAddrPtr (UInt8.ofNat stSid).toNat := by
  obtain ⟨_, equal⟩ := exists_eq_succ_of_ne_zero replicas.ne'
  rw [replicaSids, equal, range_succ_eq_map, map_cons, Nat.add_zero, mod_eq_of_lt bound] at placed
  simp only [takeBlocks] at placed
  split_ifs at placed
  obtain ⟨_, -, rfl⟩ := map_eq_some_iff.mp placed
  exact ⟨_, rfl, rfl, rfl⟩

theorem head?_takeBlocks (servers : area.numMemory ≤ 256) (replicas : 0 < area.numReplication)
    (bound : stSid < area.numMemory)
    (placed : takeBlocks area mnAddrPtr (replicaSids area stSid) = some taken) :
    ∃ primary, taken.1.head? = some primary ∧ primary.1.toNat = stSid := by
  obtain ⟨primary, first, sid, -⟩ := primary_takeBlocks replicas bound placed
  refine ⟨primary, first, ?_⟩
  rw [sid]
  exact UInt8.toNat_ofNat_of_lt' (bound.trans_le servers)

variable (area) in
theorem getAllocableBlocksLoop_eq (servers : area.numMemory ≤ 256)
    (replicas : 0 < area.numReplication) (mySid : ℕ) (remaining blockCnt : ℕ)
    (mnAddrPtr : MnAddrPtr) (allocableBlocks : List UInt64) :
    getAllocableBlocksLoop area mySid remaining blockCnt mnAddrPtr allocableBlocks =
      (placeLoop area remaining blockCnt mnAddrPtr).map fun groups =>
        allocableBlocks ++ primariesOn groups mySid := by
  induction remaining generalizing blockCnt mnAddrPtr allocableBlocks with
  | zero => simp [getAllocableBlocksLoop, placeLoop, primariesOn]
  | succ remaining ih =>
    rw [getAllocableBlocksLoop, placeLoop]
    cases skipped : skipFull area mnAddrPtr (blockCnt % area.numMemory) with
    | none => rfl
    | some stSid =>
      rw [bind_some, bind_some]
      cases placed : takeBlocks area mnAddrPtr (replicaSids area stSid) with
      | none => rfl
      | some taken =>
        obtain ⟨primary, first, sid⟩ :=
          head?_takeBlocks servers replicas (skipFull_lt skipped).1 placed
        have firstAddr : (taken.1.map Prod.snd).take 1 = [primary.2] := by
          obtain ⟨_, blocks⟩ := head?_eq_some_iff.mp first
          simp [blocks]
        rw [bind_some, bind_some, ih, Option.map_map]
        congr 1
        funext groups
        by_cases mine : stSid = mySid
        · simp [primariesOn, mine, first, sid, firstAddr]
        · simp [primariesOn, mine, first, sid]

end Refinement

section Groups

variable {area : Area}
variable {remaining blockCnt : ℕ} {mnAddrPtr : MnAddrPtr} {groups : List (List BlockAddr)}

theorem forall_placeLoop {Property : List BlockAddr → Prop}
    (each : ∀ mnAddrPtr stSid taken, stSid < area.numMemory → takeBlocks area mnAddrPtr
      (replicaSids area stSid) = some taken → Property taken.1)
    (finished : placeLoop area remaining blockCnt mnAddrPtr = some groups) :
    ∀ group ∈ groups, Property group := by
  induction remaining generalizing blockCnt mnAddrPtr groups with
  | zero =>
    obtain rfl := some.inj finished
    simp
  | succ remaining ih =>
    obtain ⟨stSid, skipped, finished⟩ := bind_eq_some_iff.mp finished
    obtain ⟨taken, placed, finished⟩ := bind_eq_some_iff.mp finished
    obtain ⟨_, later, rfl⟩ := map_eq_some_iff.mp finished
    exact forall_mem_cons.mpr ⟨each _ stSid taken (skipFull_lt skipped).1 placed, ih later⟩

theorem length_placeLoop (finished : placeLoop area remaining blockCnt mnAddrPtr = some groups) :
    groups.length = remaining := by
  induction remaining generalizing blockCnt mnAddrPtr groups with
  | zero =>
    obtain rfl := some.inj finished
    rfl
  | succ remaining ih =>
    obtain ⟨_, _, finished⟩ := bind_eq_some_iff.mp finished
    obtain ⟨_, _, finished⟩ := bind_eq_some_iff.mp finished
    obtain ⟨_, later, rfl⟩ := map_eq_some_iff.mp finished
    rw [length_cons, ih later]

abbrev primaries (groups : List (List BlockAddr)) : List BlockAddr :=
  groups.filterMap List.head?

theorem primary_of_placements (servers : area.numMemory ≤ 256) (replicas : 0 < area.numReplication)
    (finished : placements area = some groups) :
    ∀ group ∈ groups, ∃ primary, group.head? = some primary ∧ primary.1.toNat < area.numMemory := by
  refine forall_placeLoop (fun mnAddrPtr stSid taken bound placed => ?_) finished
  obtain ⟨primary, first, sid⟩ := head?_takeBlocks servers replicas bound placed
  exact ⟨primary, first, sid ▸ bound⟩

theorem sum_primariesOn (servers : area.numMemory ≤ 256) (replicas : 0 < area.numReplication)
    {groups : List (List BlockAddr)} (finished : placements area = some groups) :
    ∑ sid ∈ Finset.range area.numMemory, (primariesOn groups sid).length = area.numRepBlocks := by
  have located := primary_of_placements servers replicas finished
  rw [← length_placeLoop finished]
  clear finished
  induction groups with
  | nil => simp [primariesOn]
  | cons group groups ih =>
    obtain ⟨primary, first, bound⟩ := located group mem_cons_self
    have counted : ∀ sid, (primariesOn (group :: groups) sid).length =
        (if primary.1.toNat = sid then 1 else 0) + (primariesOn groups sid).length := by
      intro sid
      simp only [primariesOn, filterMap_cons, first, filter_cons, decide_eq_true_eq]
      split_ifs <;> simp [Nat.add_comm]
    rw [Finset.sum_congr rfl fun sid _ => counted sid, Finset.sum_add_distrib,
      ih fun other mem => located other (mem_cons_of_mem _ mem),
      Finset.sum_ite_eq, if_pos (Finset.mem_range.mpr bound), length_cons, Nat.add_comm]

/-- Blocks that were taken one after the other, each the next one of its server. -/
inductive Placed (area : Area) : MnAddrPtr → List BlockAddr → MnAddrPtr → Prop
  | nil (mnAddrPtr : MnAddrPtr) : Placed area mnAddrPtr [] mnAddrPtr
  | cons {mnAddrPtr after : MnAddrPtr} {blocks : List BlockAddr} (sid : UInt8)
      (below : (mnAddrPtr sid.toNat).toNat < area.limitAddr.toNat)
      (rest : Placed area (update mnAddrPtr sid.toNat
        (mnAddrPtr sid.toNat + area.blockSize)) blocks after) :
      Placed area mnAddrPtr ((sid, mnAddrPtr sid.toNat) :: blocks) after

section Placed

variable {before between after : MnAddrPtr} {blocks others : List BlockAddr}

theorem Placed.append (placed : Placed area before blocks between)
    (later : Placed area between others after) : Placed area before (blocks ++ others) after := by
  induction placed with
  | nil => exact later
  | cons sid below _ ih => exact .cons sid below (ih later)

theorem Placed.lt_limitAddr (placed : Placed area before blocks after) :
    ∀ block ∈ blocks, block.2.toNat < area.limitAddr.toNat := by
  induction placed with
  | nil => simp
  | cons sid below _ ih => exact forall_mem_cons.mpr ⟨below, ih⟩

theorem Placed.aligned (blockSize : area.blockSize.toNat % 256 = 0)
    (placed : Placed area before blocks after) (aligned : ∀ sid, (before sid).toNat % 256 = 0) :
    ∀ block ∈ blocks, block.2.toNat % 256 = 0 := by
  induction placed with
  | nil => simp
  | @cons mnAddrPtr _ _ sid _ _ ih =>
    have here := aligned sid.toNat
    refine forall_mem_cons.mpr ⟨here, ih fun other => ?_⟩
    by_cases same : other = sid.toNat
    · rw [same, update_self, UInt64.toNat_add]
      omega
    · rw [update_of_ne same]
      exact aligned other

end Placed

theorem placed_takeBlocks {sids : List UInt8} {taken : List BlockAddr × MnAddrPtr}
    (finished : takeBlocks area mnAddrPtr sids = some taken) :
    Placed area mnAddrPtr taken.1 taken.2 := by
  induction sids generalizing mnAddrPtr taken with
  | nil =>
    obtain rfl := some.inj finished
    exact .nil mnAddrPtr
  | cons sid sids ih =>
    simp only [takeBlocks] at finished
    split_ifs at finished with stops
    obtain ⟨_, later, rfl⟩ := map_eq_some_iff.mp finished
    have below := UInt64.lt_iff_toNat_lt.mp (UInt64.not_le.mp (not_or.mp stops).1)
    exact .cons sid below (ih later)

theorem placed_placeLoop (finished : placeLoop area remaining blockCnt mnAddrPtr = some groups) :
    ∃ after, Placed area mnAddrPtr groups.flatten after := by
  induction remaining generalizing blockCnt mnAddrPtr groups with
  | zero =>
    obtain rfl := some.inj finished
    exact ⟨mnAddrPtr, .nil mnAddrPtr⟩
  | succ remaining ih =>
    obtain ⟨_, -, finished⟩ := bind_eq_some_iff.mp finished
    obtain ⟨_, placed, finished⟩ := bind_eq_some_iff.mp finished
    obtain ⟨_, later, rfl⟩ := map_eq_some_iff.mp finished
    obtain ⟨after, others⟩ := ih later
    exact ⟨after, (placed_takeBlocks placed).append others⟩

theorem aligned_placements (blockSize : area.blockSize.toNat % 256 = 0)
    (kvArea : area.kvAreaAddr.toNat % 256 = 0) {groups : List (List BlockAddr)}
    (finished : placements area = some groups) :
    ∀ block ∈ groups.flatten, block.2.toNat % 256 = 0 := by
  obtain ⟨_, placed⟩ := placed_placeLoop finished
  exact placed.aligned blockSize fun _ => kvArea

theorem lt_limitAddr_of_placements (finished : placements area = some groups) :
    ∀ block ∈ groups.flatten, block.2.toNat < area.limitAddr.toNat := by
  obtain ⟨_, placed⟩ := placed_placeLoop finished
  exact placed.lt_limitAddr

end Groups

/-! ## Tagged addresses -/

/-- `addr & 0xFF` -/
def taggedSid (key : UInt64) : UInt8 :=
  (key &&& 0xFF).toUInt8

/-- `(addr >> 8) << 8` -/
def taggedAddr (key : UInt64) : UInt64 :=
  key >>> 8 <<< 8

section Tagged

variable {block : BlockAddr} (aligned : block.2.toNat % 256 = 0)
include aligned

theorem toNat_tagged : (tagged block).toNat = block.2.toNat + block.1.toNat := by
  have small : block.1.toNat < 2 ^ 8 := block.1.toNat_lt
  have multiple : block.2.toNat = 2 ^ 8 * (block.2.toNat / 2 ^ 8) := by omega
  rw [tagged, UInt64.toNat_or, UInt8.toNat_toUInt64, multiple, two_pow_add_eq_or_of_lt small]

theorem taggedSid_tagged : taggedSid (tagged block) = block.1 := by
  have small := block.1.toNat_lt
  rw [taggedSid, ← UInt8.toNat_inj, UInt64.toNat_toUInt8, UInt64.toNat_and, toNat_tagged aligned]
  have mask : (0xFF : UInt64).toNat = 2 ^ 8 - 1 := rfl
  rw [mask, and_two_pow_sub_one_eq_mod]
  omega

theorem taggedAddr_tagged : taggedAddr (tagged block) = block.2 := by
  have small := block.1.toNat_lt
  have bound := block.2.toNat_lt
  rw [taggedAddr, ← UInt64.toNat_inj, UInt64.toNat_shiftLeft, UInt64.toNat_shiftRight,
    toNat_tagged aligned]
  have eight : (8 : UInt64).toNat % 64 = 8 := rfl
  rw [eight, shiftRight_eq_div_pow, shiftLeft_eq]
  omega

end Tagged

theorem tagged_inj {block other : BlockAddr} (aligned : block.2.toNat % 256 = 0)
    (otherAligned : other.2.toNat % 256 = 0) (same : tagged block = tagged other) :
    block = other := by
  refine Prod.ext ?_ ?_
  · rw [← taggedSid_tagged aligned, same, taggedSid_tagged otherAligned]
  · rw [← taggedAddr_tagged aligned, same, taggedAddr_tagged otherAligned]

section BlockMap

theorem keys_enterBlocks (map : AllocBlockMap) (addrList : List UInt64) :
    (enterBlocks map addrList).keys = map.keys ++ addrList.head?.toList := by
  match addrList with
  | [] => simp [enterBlocks]
  | [addr] => rfl
  | addr :: backup :: backups => rfl

theorem keys_blockMapOf (groups : List (List BlockAddr)) (map : AllocBlockMap) :
    (blockMapOf groups map).keys = map.keys ++ (primaries groups).map tagged := by
  induction groups generalizing map with
  | nil => simp [blockMapOf]
  | cons group groups ih =>
    have rest := ih (enterBlocks map (group.map tagged))
    rw [keys_enterBlocks] at rest
    refine Eq.trans rest ?_
    cases group <;> simp [primaries, filterMap_cons]

variable {second : UInt64 → Option (List UInt64)} {key : UInt64}

theorem isSome_pushBack {other value : UInt64} (present : (second other).isSome ∨ other = key) :
    (pushBack key second value other).isSome := by
  by_cases same : other = key
  · simp [pushBack, same]
  · simpa [pushBack, same] using present

theorem isSome_foldl_pushBack {other : UInt64} (values : List UInt64)
    (present : (second other).isSome) : (values.foldl (pushBack key) second other).isSome := by
  induction values generalizing second with
  | nil => exact present
  | cons value values ih =>
    exact ih (isSome_pushBack (.inl present))

theorem isSome_enterBlocks {map : AllocBlockMap} {addrList : List UInt64}
    (present : (map.second key).isSome ∨ addrList.head? = some key) :
    ((enterBlocks map addrList).second key).isSome := by
  match addrList with
  | [] => simpa [enterBlocks] using present
  | [addr] => exact isSome_pushBack (present.imp_right fun first => (some.inj first).symm)
  | addr :: backup :: backups =>
    exact isSome_foldl_pushBack backups
      (isSome_pushBack (present.imp_right fun first => (some.inj first).symm))

variable {groups : List (List BlockAddr)}

theorem isSome_blockMapOf {map : AllocBlockMap}
    (present : (map.second key).isSome ∨ key ∈ (primaries groups).map tagged) :
    ((blockMapOf groups map).second key).isSome := by
  induction groups generalizing map with
  | nil => simpa [blockMapOf] using present
  | cons group groups ih =>
    refine ih ?_
    rw [primaries, filterMap_cons] at present
    cases group with
    | nil => simpa [enterBlocks] using present
    | cons primary backups =>
      simp only [head?_cons, map_cons, mem_cons] at present
      obtain before | rfl | later := present
      · exact .inl (isSome_enterBlocks (.inl before))
      · exact .inl (isSome_enterBlocks (.inr rfl))
      · exact .inr later

def primaryBlocks (map : AllocBlockMap) (sid : ℕ) : List UInt64 :=
  (map.keys.filter fun key => (taggedSid key).toNat = sid).map taggedAddr

theorem primaryBlocks_blockMapOf (aligned : ∀ block ∈ groups.flatten, block.2.toNat % 256 = 0)
    (sid : ℕ) :
    primaryBlocks (blockMapOf groups ⟨[], fun _ => none⟩) sid = primariesOn groups sid := by
  have alignedPrimaries : ∀ block ∈ primaries groups, block.2.toNat % 256 = 0 := by
    intro block mem
    obtain ⟨_, inGroups, first⟩ := mem_filterMap.mp mem
    exact aligned block (mem_flatten_of_mem inGroups (mem_of_head? first))
  rw [primaryBlocks, keys_blockMapOf, nil_append, primariesOn, List.filter_map, List.map_map]
  have filtered : (primaries groups).filter ((fun key => decide ((taggedSid key).toNat = sid)) ∘ tagged) =
      (primaries groups).filter fun block => block.1.toNat = sid := by
    refine filter_congr fun block mem => ?_
    rw [comp_apply, taggedSid_tagged (alignedPrimaries block mem)]
  rw [filtered]
  refine map_congr_left fun block mem => ?_
  exact taggedAddr_tagged (alignedPrimaries block (mem_of_mem_filter mem))

end BlockMap

section Agreement

variable {conf : GlobalConfig}

/-- The configurations that client and server share: up to 256 servers, and
numbers of blocks that fit 32 bits. -/
structure SharedConfig (conf : GlobalConfig) : Prop where
  baseAligned : conf.serverBaseAddr.toNat % 256 = 0
  blockAligned : conf.blockSize.toNat % 256 = 0
  servers : conf.memoryNum.toNat ≤ 256
  replicas : 1 ≤ conf.numReplication.toNat ∧ conf.numReplication.toNat ≤ conf.memoryNum.toNat
  clientBlocks : (serverNumBlocks conf).toNat * conf.memoryNum.toNat < 2 ^ 32
  serverBlocks : (kvAreaLen conf).toNat / conf.blockSize.toUInt32.toNat * conf.memoryNum.toNat < 2 ^ 32

def returned (allocableBlocks : List UInt64) : ℕ → UInt64
  | 0 => (mmAlloc allocableBlocks).1
  | calls + 1 => returned (mmAlloc allocableBlocks).2 calls

variable {allocableBlocks : List UInt64}

theorem returned_mem {calls : ℕ} (nonzero : returned allocableBlocks calls ≠ 0) :
    returned allocableBlocks calls ∈ allocableBlocks := by
  induction calls generalizing allocableBlocks with
  | zero =>
    cases allocableBlocks with
    | nil => exact absurd rfl nonzero
    | cons addr rest => exact mem_cons_self
  | succ calls ih =>
    cases allocableBlocks with
    | nil => exact ih nonzero
    | cons addr rest => exact mem_cons_of_mem _ (ih nonzero)

/-- The server hands out the primary blocks of the client's map in their order,
and the client finds every block it is given. -/
def PlacementAgrees (conf : GlobalConfig) (map : AllocBlockMap) (queues : ℕ → List UInt64) : Prop :=
  ∀ sid < conf.memoryNum.toNat, queues sid = primaryBlocks map sid ∧
    ∀ calls, returned (queues sid) calls ≠ 0 →
      (map.second (tagged (UInt8.ofNat sid, returned (queues sid) calls))).isSome

/-- The number of blocks that the server would have with a large enough type. -/
theorem numRepBlocks_serverArea (shared : SharedConfig conf) :
    (serverArea conf).numRepBlocks = (kvAreaLen conf).toNat / conf.blockSize.toUInt32.toNat *
      conf.memoryNum.toNat / conf.numReplication.toNat := by
  have product := shared.serverBlocks
  have one : 1 ≤ conf.memoryNum.toNat := shared.replicas.1.trans shared.replicas.2
  have few : (kvAreaLen conf).toNat / conf.blockSize.toUInt32.toNat < 2 ^ 32 :=
    (Nat.le_mul_of_pos_right _ one).trans_lt product
  have blocks : (numBlocks conf).toNat = (kvAreaLen conf).toNat / conf.blockSize.toUInt32.toNat := by
    rw [numBlocks, UInt64.toNat_toUInt32, UInt64.toNat_div, UInt32.toNat_toUInt64, mod_eq_of_lt few]
  rw [serverArea, UInt32.toNat_div, UInt32.toNat_mul, blocks, mod_eq_of_lt product]

theorem numRepBlocks_clientArea (shared : SharedConfig conf) :
    (clientArea conf).numRepBlocks =
      (serverNumBlocks conf).toNat * conf.memoryNum.toNat / conf.numReplication.toNat := by
  have product := shared.clientBlocks
  have quotient : (serverNumBlocks conf).toNat * conf.memoryNum.toNat / conf.numReplication.toNat <
      2 ^ 32 := (Nat.div_le_self _ _).trans_lt product
  have wide : (serverNumBlocks conf).toNat * conf.memoryNum.toNat < 2 ^ 64 := by omega
  rw [clientArea, UInt64.toNat_toUInt32, UInt64.toNat_div, UInt64.toNat_mul, UInt32.toNat_toUInt64,
    UInt32.toNat_toUInt64, mod_eq_of_lt wide, mod_eq_of_lt quotient]

theorem toNat_pos_of_ne_zero {word : UInt32} (nonzero : word ≠ 0) : 0 < word.toNat :=
  Nat.pos_of_ne_zero fun zero => nonzero (UInt32.toNat_inj.mp zero)

theorem toNat_roundUp {addr : UInt64} (small : addr.toNat < 2 ^ 63) {align : UInt32}
    (nonzero : align ≠ 0) :
    (roundUp addr align).toNat = addr.toNat + align.toNat - 1 -
      (addr.toNat + align.toNat - 1) % align.toNat := by
  have alignBound := align.toNat_lt
  have pos := toNat_pos_of_ne_zero nonzero
  have wide : align.toUInt64.toNat = align.toNat := UInt32.toNat_toUInt64 align
  have sum : (addr + align.toUInt64).toNat = addr.toNat + align.toNat := by
    rw [UInt64.toNat_add, wide]
    omega
  have top : (addr + align.toUInt64 - 1).toNat = addr.toNat + align.toNat - 1 := by
    rw [UInt64.toNat_sub_of_le _ _ (by rw [UInt64.le_iff_toNat_le, sum, UInt64.toNat_one]; omega), sum,
      UInt64.toNat_one]
  rw [roundUp, UInt64.toNat_sub_of_le, UInt64.toNat_mod, top, wide]
  rw [UInt64.le_iff_toNat_le, UInt64.toNat_mod, top, wide]
  exact mod_le _ _

theorem aligned_roundUp {addr : UInt64} (small : addr.toNat < 2 ^ 63) {align : UInt32}
    (nonzero : align ≠ 0) (aligned : align.toNat % 256 = 0) :
    (roundUp addr align).toNat % 256 = 0 := by
  have multiple : align.toNat ∣ addr.toNat + align.toNat - 1 -
      (addr.toNat + align.toNat - 1) % align.toNat := dvd_sub_mod _
  rw [toNat_roundUp small nonzero]
  exact mod_eq_zero_of_dvd ((dvd_of_mod_eq_zero aligned).trans multiple)

theorem aligned_kvAreaAddr (baseAligned : conf.serverBaseAddr.toNat % 256 = 0)
    (blockAligned : conf.blockSize.toNat % 256 = 0) (nonzero : conf.blockSize.toUInt32 ≠ 0) :
    (conf.serverBaseAddr + kvAreaOff conf).toNat % 256 = 0 := by
  have aligned : (kvAreaOff conf).toNat % 256 = 0 := by
    refine aligned_roundUp (by decide) nonzero ?_
    rw [UInt64.toNat_toUInt32]
    omega
  rw [UInt64.toNat_add]
  omega

theorem clientArea_eq_serverArea (shared : SharedConfig conf) (narrow : conf.blockSize.toNat < 2 ^ 32) :
    clientArea conf = serverArea conf := by
  have size : conf.blockSize.toUInt32.toNat = conf.blockSize.toNat := by
    rw [UInt64.toNat_toUInt32, mod_eq_of_lt narrow]
  have blockSize : conf.blockSize = conf.blockSize.toUInt32.toUInt64 := by
    rw [← UInt64.toNat_inj, UInt32.toNat_toUInt64, size]
  have count : (clientArea conf).numRepBlocks = (serverArea conf).numRepBlocks := by
    rw [numRepBlocks_clientArea shared, numRepBlocks_serverArea shared, serverNumBlocks,
      UInt64.toNat_div, size]
  have fields : clientArea conf = { serverArea conf with
      blockSize := conf.blockSize, numRepBlocks := (clientArea conf).numRepBlocks } := rfl
  rw [fields, count]
  exact congrArg (fun size => { serverArea conf with blockSize := size }) blockSize

/-- A wider block size counts for more blocks on the server, unless there are
none. -/
theorem numRepBlocks_lt (shared : SharedConfig conf) (nonzero : conf.blockSize.toUInt32 ≠ 0)
    (wide : 2 ^ 32 ≤ conf.blockSize.toNat)
    (some : (kvAreaLen conf).toNat / conf.blockSize.toUInt32.toNat ≠ 0) :
    (clientArea conf).numRepBlocks < (serverArea conf).numRepBlocks := by
  have pos := toNat_pos_of_ne_zero nonzero
  have narrow := conf.blockSize.toUInt32.toNat_lt
  have more : (serverNumBlocks conf).toNat + 1 ≤
      (kvAreaLen conf).toNat / conf.blockSize.toUInt32.toNat := by
    rw [serverNumBlocks, UInt64.toNat_div]
    have quotient := div_mul_le_self (kvAreaLen conf).toNat conf.blockSize.toNat
    generalize (kvAreaLen conf).toNat / conf.blockSize.toNat = blocks at quotient
    by_cases none : blocks = 0
    · rw [none]
      exact one_le_iff_ne_zero.mpr some
    · rw [Nat.le_div_iff_mul_le pos, succ_mul]
      refine le_trans ?_ quotient
      have split : conf.blockSize.toUInt32.toNat + 2 ^ 32 ≤ conf.blockSize.toNat := by
        rw [UInt64.toNat_toUInt32]
        omega
      calc blocks * conf.blockSize.toUInt32.toNat + conf.blockSize.toUInt32.toNat
          ≤ blocks * conf.blockSize.toUInt32.toNat + blocks * 2 ^ 32 := by omega
        _ = blocks * (conf.blockSize.toUInt32.toNat + 2 ^ 32) := (Nat.mul_add ..).symm
        _ ≤ blocks * conf.blockSize.toNat := Nat.mul_le_mul_left _ split
  obtain ⟨one, _⟩ := shared.replicas
  rw [numRepBlocks_clientArea shared, numRepBlocks_serverArea shared, ← succ_le_iff,
    succ_eq_add_one, ← add_div_right _ one]
  refine Nat.div_le_div_right ?_
  calc (serverNumBlocks conf).toNat * conf.memoryNum.toNat + conf.numReplication.toNat
      ≤ (serverNumBlocks conf).toNat * conf.memoryNum.toNat + conf.memoryNum.toNat := by omega
    _ = ((serverNumBlocks conf).toNat + 1) * conf.memoryNum.toNat := (succ_mul ..).symm
    _ ≤ _ := Nat.mul_le_mul_right _ more

theorem getBlockMap_eq {map : AllocBlockMap} (mapped : getBlockMap conf = some map) :
    conf.blockSize.toUInt32 ≠ 0 ∧ ∃ groups, placements (clientArea conf) = some groups ∧
      map = blockMapOf groups ⟨[], fun _ => none⟩ := by
  unfold getBlockMap at mapped
  split_ifs at mapped with degenerate
  exact ⟨fun zero => degenerate (.inl zero), getBlockMapLoop_eq mapped⟩

theorem getAllocableBlocks_eq (servers : conf.memoryNum.toNat ≤ 256)
    (replicas : 1 ≤ conf.numReplication.toNat) {mySid : ℕ}
    (built : getAllocableBlocks conf mySid = some allocableBlocks) :
    ∃ groups, placements (serverArea conf) = some groups ∧
      allocableBlocks = primariesOn groups mySid := by
  unfold getAllocableBlocks at built
  split_ifs at built
  rw [getAllocableBlocksLoop_eq (serverArea conf) servers replicas] at built
  obtain ⟨groups, finished, rfl⟩ := map_eq_some_iff.mp built
  exact ⟨groups, finished, rfl⟩

theorem numRepBlocks_eq_zero (shared : SharedConfig conf) (nonzero : conf.blockSize.toUInt32 ≠ 0)
    (none : (kvAreaLen conf).toNat / conf.blockSize.toUInt32.toNat = 0) :
    (clientArea conf).numRepBlocks = 0 ∧ (serverArea conf).numRepBlocks = 0 := by
  have pos := toNat_pos_of_ne_zero nonzero
  have smaller : conf.blockSize.toUInt32.toNat ≤ conf.blockSize.toNat := by
    rw [UInt64.toNat_toUInt32]
    exact mod_le _ _
  have noBlocks : (serverNumBlocks conf).toNat = 0 := by
    rw [serverNumBlocks, UInt64.toNat_div]
    exact eq_zero_of_le_zero (none ▸ div_le_div_left smaller pos)
  rw [numRepBlocks_clientArea shared, numRepBlocks_serverArea shared, none, noBlocks]
  simp

/-- The client finds every block that is handed out if the server lists the
primary blocks of its map. -/
theorem isSome_returned {groups : List (List BlockAddr)} {sid calls : ℕ}
    (nonzero : returned (primariesOn groups sid) calls ≠ 0) :
    ((blockMapOf groups ⟨[], fun _ => none⟩).second
      (tagged (UInt8.ofNat sid, returned (primariesOn groups sid) calls))).isSome := by
  obtain ⟨block, mem, same⟩ := List.mem_map.mp (returned_mem nonzero)
  obtain ⟨entered, located⟩ := mem_filter.mp mem
  refine isSome_blockMapOf (.inr (List.mem_map.mpr ⟨block, entered, ?_⟩))
  have addr : returned (primariesOn groups sid) calls = block.2 := same.symm
  rw [addr, ← of_decide_eq_true located, UInt8.ofNat_toNat]

theorem primaryBlocks_eq_primariesOn (shared : SharedConfig conf) {map : AllocBlockMap}
    (mapped : getBlockMap conf = some map) :
    ∃ groups, placements (clientArea conf) = some groups ∧
      map = blockMapOf groups ⟨[], fun _ => none⟩ ∧
      ∀ sid, primaryBlocks map sid = primariesOn groups sid := by
  obtain ⟨nonzero, groups, finished, rfl⟩ := getBlockMap_eq mapped
  exact ⟨groups, finished, rfl, primaryBlocks_blockMapOf (@aligned_placements (clientArea conf)
    shared.blockAligned (aligned_kvAreaAddr shared.baseAligned shared.blockAligned nonzero) groups
    finished)⟩

section Built

variable (shared : SharedConfig conf) {map : AllocBlockMap} (mapped : getBlockMap conf = some map)
  {queues : ℕ → List UInt64}
  (built : ∀ sid < conf.memoryNum.toNat, getAllocableBlocks conf sid = some (queues sid))
include built

theorem queues_eq_primariesOn (servers : conf.memoryNum.toNat ≤ 256)
    (replicas : 1 ≤ conf.numReplication.toNat ∧ conf.numReplication.toNat ≤ conf.memoryNum.toNat) :
    ∃ groups, placements (serverArea conf) = some groups ∧
      ∀ sid < conf.memoryNum.toNat, queues sid = primariesOn groups sid := by
  obtain ⟨one, fewer⟩ := replicas
  obtain ⟨groups, finished, -⟩ := getAllocableBlocks_eq servers one (built 0 (one.trans fewer))
  refine ⟨groups, finished, fun sid bound => ?_⟩
  obtain ⟨_, otherFinished, queue⟩ := getAllocableBlocks_eq servers one (built sid bound)
  rw [queue, some.inj (otherFinished.symm.trans finished)]

include shared mapped

theorem narrow_of_placementAgrees (agrees : PlacementAgrees conf map queues) :
    conf.blockSize.toNat < 2 ^ 32 ∨ (kvAreaLen conf).toNat / conf.blockSize.toUInt32.toNat = 0 := by
  obtain ⟨one, _⟩ := shared.replicas
  obtain ⟨serverGroups, serverFinished, queuesEq⟩ :=
    queues_eq_primariesOn built shared.servers shared.replicas
  obtain ⟨groups, finished, -, mapBlocks⟩ := primaryBlocks_eq_primariesOn shared mapped
  by_contra wide
  obtain ⟨wide, some⟩ := not_or.mp wide
  have more := numRepBlocks_lt shared (getBlockMap_eq mapped).1 (not_lt.mp wide) some
  have clientTotal := @sum_primariesOn (clientArea conf) shared.servers one groups finished
  have serverTotal :=
    @sum_primariesOn (serverArea conf) shared.servers one serverGroups serverFinished
  have same : ∀ sid ∈ Finset.range conf.memoryNum.toNat,
      (primariesOn groups sid).length = (primariesOn serverGroups sid).length := by
    intro sid mem
    have bound := Finset.mem_range.mp mem
    rw [← queuesEq sid bound, (agrees sid bound).1, mapBlocks]
  have equal : (clientArea conf).numRepBlocks = (serverArea conf).numRepBlocks :=
    clientTotal.symm.trans ((Finset.sum_congr rfl same).trans serverTotal)
  omega

theorem placementAgrees_of_narrow (condition : conf.blockSize.toNat < 2 ^ 32 ∨
      (kvAreaLen conf).toNat / conf.blockSize.toUInt32.toNat = 0) :
    PlacementAgrees conf map queues := by
  obtain ⟨serverGroups, serverFinished, queuesEq⟩ :=
    queues_eq_primariesOn built shared.servers shared.replicas
  obtain ⟨groups, finished, rfl, mapBlocks⟩ := primaryBlocks_eq_primariesOn shared mapped
  have same : serverGroups = groups := by
    obtain narrow | none := condition
    · rw [← clientArea_eq_serverArea shared narrow] at serverFinished
      exact some.inj (serverFinished.symm.trans finished)
    · obtain ⟨noClient, noServer⟩ := numRepBlocks_eq_zero shared (getBlockMap_eq mapped).1 none
      rw [eq_nil_of_length_eq_zero ((length_placeLoop finished).trans noClient),
        eq_nil_of_length_eq_zero ((length_placeLoop serverFinished).trans noServer)]
  intro sid bound
  rw [queuesEq sid bound, same, mapBlocks]
  exact ⟨rfl, fun calls => isSome_returned⟩

/-- Client and server agree exactly if the block size fits the 32 bits that the
server has for it, or the server has no block. -/
theorem placementAgrees_iff :
    PlacementAgrees conf map queues ↔ conf.blockSize.toNat < 2 ^ 32 ∨
      (kvAreaLen conf).toNat / conf.blockSize.toUInt32.toNat = 0 :=
  ⟨narrow_of_placementAgrees shared mapped built, placementAgrees_of_narrow shared mapped built⟩

end Built

def twoServers : GlobalConfig where
  serverId := 2
  memoryNum := 2
  serverBaseAddr := 0x10000000
  serverDataLen := 512 * 1024 * 1024
  blockSize := 64 * 1024 * 1024
  numReplication := 2
  numIdxRep := 1
  mainCoreId := 0
  pollCoreId := 1

theorem sharedConfig_twoServers : SharedConfig twoServers where
  baseAligned := by decide
  blockAligned := by decide
  servers := by decide
  replicas := by decide
  clientBlocks := by decide
  serverBlocks := by decide

theorem placementAgrees_iff_twoServers :
    ∃ map queues, getBlockMap twoServers = some map ∧
      queues 1 = [0x2C000000] ∧ PlacementAgrees twoServers map queues := by
  have mapped : (getBlockMap twoServers).isSome := by decide +kernel
  obtain ⟨map, mapped⟩ := isSome_iff_exists.mp mapped
  have built : ∀ sid < 2, getAllocableBlocks twoServers sid =
      some ((getAllocableBlocks twoServers sid).getD []) := by decide +kernel
  refine ⟨map, fun sid => (getAllocableBlocks twoServers sid).getD [], mapped, by decide +kernel, ?_⟩
  exact (placementAgrees_iff sharedConfig_twoServers mapped built).mpr (.inl (by decide))

def wideBlocks : GlobalConfig where
  serverId := 1
  memoryNum := 1
  serverBaseAddr := 0x10000000
  serverDataLen := 3 * 1024 * 1024 * 1024
  blockSize := 5 * 1024 * 1024 * 1024
  numReplication := 1
  numIdxRep := 1
  mainCoreId := 0
  pollCoreId := 1

theorem sharedConfig_wideBlocks : SharedConfig wideBlocks where
  baseAligned := by decide
  blockAligned := by decide
  servers := by decide
  replicas := by decide
  clientBlocks := by decide
  serverBlocks := by decide

/-- The server hands out two blocks and the client knows none. -/
theorem not_placementAgrees_wideBlocks :
    ∃ map queues, SharedConfig wideBlocks ∧ getBlockMap wideBlocks = some map ∧
      (∀ sid < wideBlocks.memoryNum.toNat, getAllocableBlocks wideBlocks sid = some (queues sid)) ∧
      ¬ PlacementAgrees wideBlocks map queues := by
  have mapped : (getBlockMap wideBlocks).isSome := by decide +kernel
  obtain ⟨map, mapped⟩ := isSome_iff_exists.mp mapped
  have built : ∀ sid < 1, getAllocableBlocks wideBlocks sid =
      some ((getAllocableBlocks wideBlocks sid).getD []) := by decide +kernel
  refine ⟨map, fun sid => (getAllocableBlocks wideBlocks sid).getD [], sharedConfig_wideBlocks,
    mapped, built, fun agrees => ?_⟩
  have narrow := narrow_of_placementAgrees sharedConfig_wideBlocks mapped built agrees
  exact absurd narrow (by decide)

end Agreement

end FuseeFs.Memory.Placement
