import FuseeFs.Config
import FuseeFs.Index.Buckets

/-!
# The hash table on the servers

The hash value of a key selects one of 32 subtables, of which every index
replica has a copy, and two pairs of neighbouring buckets in it.  The subtables
are taken from the servers by the first client (`init_hash_table`), and the
root of the table says where they are.
-/

namespace FuseeFs.Index

open Function Library.Packed

abbrev Place := UInt8 × ℕ

def NUMBER64_1 : UInt64 := 11400714785074694791
def NUMBER64_2 : UInt64 := 14029467366897019727
def NUMBER64_3 : UInt64 := 1609587929392839161
def NUMBER64_4 : UInt64 := 9650029242287828579
def NUMBER64_5 : UInt64 := 2870177450012600261

def shiftingHash (value bits : UInt64) : UInt64 :=
  value <<< bits ||| value >>> (64 - bits)

def hashGetBits (data : List UInt8) (offset width : ℕ) : UInt64 :=
  UInt64.ofNat (ofBytes ((data.drop offset).take width))

def hashLane (lane word : UInt64) : UInt64 :=
  shiftingHash (lane + word * NUMBER64_2) 31 * NUMBER64_1

def hashMerge (hash lane : UInt64) : UInt64 :=
  (hash ^^^ shiftingHash (lane * NUMBER64_2) 31 * NUMBER64_1) * NUMBER64_1 + NUMBER64_4

/-- The branch for data of at least 32 bytes. -/
def hashLanes (data : List UInt8) (seed : UInt64) : UInt64 :=
  let lanes (index : ℕ) (start : UInt64) : UInt64 :=
    (List.range (data.length / 32)).foldl
      (fun lane block => hashLane lane (hashGetBits data (32 * block + 8 * index) 8)) start
  let v1 := lanes 0 (seed + NUMBER64_1 + NUMBER64_2)
  let v2 := lanes 1 (seed + NUMBER64_2)
  let v3 := lanes 2 seed
  let v4 := lanes 3 (seed - NUMBER64_1)
  [v1, v2, v3, v4].foldl hashMerge
    (shiftingHash v1 1 + shiftingHash v2 7 + shiftingHash v3 12 + shiftingHash v4 18)

def hashTail (data : List UInt8) (hash : UInt64) : UInt64 :=
  let words := data.length / 8
  let hash := (List.range words).foldl
    (fun hash index =>
      let word := shiftingHash (hashGetBits data (8 * index) 8 * NUMBER64_2) 31 * NUMBER64_1
      shiftingHash (hash ^^^ word) 27 * NUMBER64_1 + NUMBER64_4) hash
  let data := data.drop (8 * words)
  let hash :=
    if data.length ≥ 4 then
      shiftingHash (hash ^^^ hashGetBits data 0 4 * NUMBER64_1) 23 * NUMBER64_2 + NUMBER64_3
    else hash
  let data := if data.length ≥ 4 then data.drop 4 else data
  data.foldl
    (fun hash byte => shiftingHash (hash ^^^ byte.toUInt64 * NUMBER64_5) 11 * NUMBER64_1) hash

def hashAvalanche (hash : UInt64) : UInt64 :=
  let hash := (hash ^^^ hash >>> 33) * NUMBER64_2
  let hash := (hash ^^^ hash >>> 29) * NUMBER64_3
  hash ^^^ hash >>> 32

/-- `VariableLengthHash`; the alignment of the data makes no difference. -/
def variableLengthHash (data : List UInt8) (seed : UInt64) : UInt64 :=
  let start := if data.length ≥ 32 then hashLanes data seed else seed + NUMBER64_5
  hashAvalanche
    (hashTail (data.drop (data.length / 32 * 32)) (start + UInt64.ofNat data.length))

def hashIndexComputeFp (hash : UInt64) : UInt8 :=
  (hash >>> 48).toUInt8 ^^^ (hash >>> 56).toUInt8

structure KVHashInfo where
  hashValue : UInt64
  subtable : ℕ
  fp : UInt8

/-- `get_kv_hash_info`, with the global depth 5. -/
def getKvHashInfo (key : List UInt8) : KVHashInfo where
  hashValue := variableLengthHash key 0
  subtable := (variableLengthHash key 0 >>> 32).toNat % 32
  fp := hashIndexComputeFp (variableLengthHash key 0)

/-- `RACE_HASH_ADDRESSABLE_BUCKET_NUM`, which is also `subtable_hash_range`. -/
def addressableBucketNum : ℕ := 34000

def subtableFirstIndex (hashValue : UInt64) : ℕ :=
  hashValue.toNat % (addressableBucketNum / 2)

def subtableSecondIndex (hashValue : UInt64) (fIndex : ℕ) : ℕ :=
  let tag := hashValue.toNat / 2 ^ 16 % 2 ^ 16 / 2 * 2 + 1
  let hashOfTag := UInt64.ofNat tag * 0xc6a4a7935bd1e995
  (UInt64.ofNat fIndex ^^^ hashOfTag).toNat % (addressableBucketNum / 2) + addressableBucketNum / 2

/-- The first bucket of a combined bucket: two main buckets share one overflow
bucket between them. -/
def combinedIdx (index : ℕ) : ℕ :=
  index / 2 * 3 + index % 2

structure KVTableAddrInfo where
  fMainIdx : Fin 2
  sMainIdx : Fin 2
  fIdx : ℕ
  sIdx : ℕ

/-- The part of `get_kv_addr_info` that does not depend on the replica. -/
def getKvAddrInfo (hashValue : UInt64) : KVTableAddrInfo :=
  let fIndex := subtableFirstIndex hashValue
  let sIndex := subtableSecondIndex hashValue fIndex
  { fMainIdx := ⟨fIndex % 2, Nat.mod_lt _ (by decide)⟩
    sMainIdx := ⟨sIndex % 2, Nat.mod_lt _ (by decide)⟩
    fIdx := combinedIdx fIndex
    sIdx := combinedIdx sIndex }

def KVTableAddrInfo.bucketIdx (info : KVTableAddrInfo) (bucket : Fin 4) : ℕ :=
  if bucket.val < 2 then info.fIdx + bucket else info.sIdx + (bucket - 2)

/-- `sizeof(RaceHashBucket)`: a depth, a prefix and seven slots. -/
def sizeofRaceHashBucket : ℕ := 64

def slotOffset (bucketIdx : ℕ) (slot : Fin 7) : ℕ :=
  bucketIdx * sizeofRaceHashBucket + 8 + slot * 8

structure RaceHashSubtableEntry where
  serverId : UInt8
  pointer : List UInt8
deriving DecidableEq, Repr

/-- The copies of a subtable by their replica number. -/
structure RaceHashRoot where
  subtableEntry : ℕ → ℕ → RaceHashSubtableEntry

def RaceHashSubtableEntry.place (entry : RaceHashSubtableEntry) : Place :=
  (entry.serverId, hashIndexConvert40To64Bits entry.pointer)

def RaceHashRoot.slotAddr (root : RaceHashRoot) (key : List UInt8) (replica : ℕ)
    (pos : Position) : Place :=
  let hashInfo := getKvHashInfo key
  let start := (root.subtableEntry hashInfo.subtable replica).place
  (start.1, start.2 + slotOffset ((getKvAddrInfo hashInfo.hashValue).bucketIdx pos.1) pos.2)

theorem fIdx_lt_sIdx (hashValue : UInt64) :
    (getKvAddrInfo hashValue).fIdx + 1 < (getKvAddrInfo hashValue).sIdx := by
  have first : subtableFirstIndex hashValue < 17000 := Nat.mod_lt _ (by decide)
  have second : 17000 ≤ subtableSecondIndex hashValue (subtableFirstIndex hashValue) :=
    Nat.le_add_left 17000 _
  simp only [getKvAddrInfo, combinedIdx]
  omega

theorem bucketIdx_injective (hashValue : UInt64) :
    Injective (getKvAddrInfo hashValue).bucketIdx := by
  intro bucket other equal
  have apart := fIdx_lt_sIdx hashValue
  simp only [KVTableAddrInfo.bucketIdx] at equal
  ext
  split_ifs at equal <;> omega

theorem RaceHashRoot.slotAddr_injective (root : RaceHashRoot) (key : List UInt8) (replica : ℕ) :
    Injective (root.slotAddr key replica) := by
  rintro ⟨bucket, slot⟩ ⟨otherBucket, otherSlot⟩ equal
  simp only [slotAddr, Prod.mk.injEq, true_and, slotOffset, sizeofRaceHashBucket] at equal
  have sameIdx : (getKvAddrInfo (getKvHashInfo key).hashValue).bucketIdx bucket =
      (getKvAddrInfo (getKvHashInfo key).hashValue).bucketIdx otherBucket := by omega
  obtain rfl := bucketIdx_injective _ sameIdx
  have slots : slot = otherSlot := by
    ext
    omega
  rw [slots]

/-- `SUBTABLE_LEN`: room for the addressable buckets only, not for the overflow
bucket between every two of them. -/
def subtableLen : ℕ := addressableBucketNum * sizeofRaceHashBucket

/-- `sizeof(RaceHashRoot)`: 16 words and 32 times 10 entries of eight bytes. -/
def rootResLen : ℕ := 16 * 8 + 32 * 10 * 8

def maxSubtables : ℕ :=
  (hashAreaLen - roundup256 rootResLen) / roundup256 subtableLen

/-- `subtable_alloc_map_` after `init_subtable`. -/
def initSubtable : List Bool :=
  List.replicate maxSubtables false

/-- `ServerMM::mm_alloc_subtable`: the first subtable that is not allocated, or
the address 0. -/
def serverAllocSubtable (baseAddr : ℕ) (subtableAllocMap : List Bool) : List Bool × ℕ :=
  match subtableAllocMap.findIdx? (· = false) with
  | none => (subtableAllocMap, 0)
  | some index =>
    (subtableAllocMap.set index true,
      baseAddr + metaAreaLen + gcAreaLen + roundup256 rootResLen + index * roundup256 subtableLen)

abbrev SubtableAllocMaps := ℕ → List Bool

section Init

variable (conf : GlobalConfig)

/-- `ClientMM::mm_alloc_subtable`: one subtable from each of as many servers as
there are replicas. -/
def clientAllocSubtable (prServerId : ℕ) (maps : SubtableAllocMaps) :
    SubtableAllocMaps × List Place :=
  (List.range conf.numIdxRep.toNat).foldl
    (fun (maps, places) replica =>
      let serverId := (prServerId + replica) % conf.memoryNum.toNat
      let (map, addr) := serverAllocSubtable conf.serverBaseAddr.toNat (maps serverId)
      (update maps serverId map, places ++ [(UInt8.ofNat serverId, addr)]))
    (maps, [])

def fillSubtableEntries (root : RaceHashRoot) (subtable : ℕ) (places : List Place) :
    RaceHashRoot where
  subtableEntry index replica :=
    match places[replica]? with
    | some place =>
      if index = subtable then ⟨place.1, hashIndexConvert64To40Bits place.2⟩
      else root.subtableEntry index replica
    | none => root.subtableEntry index replica

/-- `last_allocated_` of the first client when it has its first block from every
server. -/
def lastAllocated : ℕ :=
  conf.serverId.toNat + conf.memoryNum.toNat

def initHashTable (root : RaceHashRoot) (maps : SubtableAllocMaps) :
    RaceHashRoot × SubtableAllocMaps :=
  (List.range 32).foldl
    (fun (root, maps) subtable =>
      let (maps, places) :=
        clientAllocSubtable conf ((lastAllocated conf + subtable) % conf.memoryNum.toNat) maps
      (fillSubtableEntries root subtable places, maps))
    (root, maps)

end Init

end FuseeFs.Index
