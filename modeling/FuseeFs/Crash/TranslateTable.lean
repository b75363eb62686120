import FuseeFs.Crash.Redirect
import FuseeFs.Memory.Metadata

/-!
# The address translation table

The coroutine client reads the metadata of all clients into a table of memory
blocks with their replicas.  When the server of a pair it wants to read has
crashed, it looks the block up and takes another replica.
-/

namespace FuseeFs.Crash.Translate

open List Option
open Index Library Memory Memory.Ownership Memory.Placement

/-! ## The table -/

/-- `server_id_list` and `addr_list` of a `ClientMetaAddrInfo`, as far as the
registration has filled them. -/
abbrev ReplicaList := List BlockAddr

def healthyMetaServer (numReplication : ℕ) (serverCrashMap : UInt8 → Bool) : ℕ :=
  ((List.range numReplication).find? fun sid => serverCrashMap (UInt8.ofNat sid) = false).getD
    numReplication

/-- `ClientCR::get_addr_translate_table`, with the metadata area that each server
has for a client. -/
def getAddrTranslateTable (numReplication : ℕ) (serverCrashMap : UInt8 → Bool)
    (metaArea : ℕ → UInt8 → MetaArea ReplicaList) (serverIdList : List UInt8) :
    List ReplicaList :=
  serverIdList.flatMap fun client =>
    recoveredBlocks (metaArea (healthyMetaServer numReplication serverCrashMap) client)

theorem exists_of_mem_readMetaList {Block : Type} {area : MetaArea Block}
    {info : ClientMetaAddrInfo Block} {unread pos : ℕ}
    (listed : info ∈ readMetaList area unread pos) : ∃ pos, area pos = some info := by
  induction unread generalizing pos with
  | zero => cases listed
  | succ unread ih =>
    rw [readMetaList] at listed
    cases entry : area pos with
    | none =>
      rw [entry] at listed
      cases listed
    | some first =>
      rw [entry] at listed
      obtain rfl | later := mem_cons.mp listed
      · exact ⟨pos, entry⟩
      · exact ih later

theorem exists_of_mem_recoveredBlocks {Block : Type} {area : MetaArea Block} {block : Block}
    (listed : block ∈ recoveredBlocks area) : ∃ pos, area pos = some (.kvBlock block) := by
  obtain ⟨info, inList, isBlock⟩ := mem_filterMap.mp listed
  obtain ⟨pos, entry⟩ := exists_of_mem_readMetaList inList
  cases info with
  | subtable space => cases isBlock
  | kvBlock other =>
    obtain rfl := some.inj isBlock
    exact ⟨pos, entry⟩

/-! ## Reading from another replica -/

structure TranslateClient where
  numIdxRep : ℕ
  mmBlockSz : UInt64
  serverCrashMap : UInt8 → Bool
  rkey : UInt8 → UInt32
  metaAddrInfo : List ReplicaList

section Translate

variable (client : TranslateClient)

def TranslateClient.InBlock (targetServer : UInt8) (targetAddr : UInt64) (block : BlockAddr) :
    Prop :=
  block.1 = targetServer ∧ block.2 ≤ targetAddr ∧ targetAddr < block.2 + client.mmBlockSz

instance (targetServer : UInt8) (targetAddr : UInt64) (block : BlockAddr) :
    Decidable (client.InBlock targetServer targetAddr block) :=
  inferInstanceAs (Decidable (_ ∧ _ ∧ _))

def findCorrespondingAddrInfo (targetServer : UInt8) (targetAddr : UInt64) : Option ReplicaList :=
  client.metaAddrInfo.find? fun info =>
    info.head?.any fun block => client.InBlock targetServer targetAddr block

def healthyReplica (info : ReplicaList) (index : ℕ) : Bool :=
  info[index]?.any fun replica => client.serverCrashMap replica.1 = false

def healthyIdxLoop (info : ReplicaList) : ℕ → ℕ → ℕ
  | 0, healthyIdx => healthyIdx
  | remaining + 1, healthyIdx =>
    if healthyReplica client info healthyIdx then healthyIdx
    else healthyIdxLoop info remaining (healthyIdx + 1)

def findHealthyIdx (targetServer : UInt8) (targetAddr : UInt64) : Option ℕ :=
  (findCorrespondingAddrInfo client targetServer targetAddr).map fun info =>
    healthyIdxLoop client info (client.numIdxRep - 1) 1

/-- A round of the loop of `check_failed_data`.  There is no result if a null
pointer is followed, or an index that the registration has not filled. -/
def checkFailedEntry (kv : KVRWAddr) : Option KVRWAddr :=
  if client.serverCrashMap kv.serverId = false then some kv
  else
    (findCorrespondingAddrInfo client kv.serverId kv.rKvAddr).bind fun addrInfo =>
      (findHealthyIdx client kv.serverId kv.rKvAddr).bind fun healthyIdx =>
        addrInfo[healthyIdx]?.bind fun replica =>
          addrInfo.head?.map fun primary =>
            { kv with
              serverId := replica.1
              rKvAddr := replica.2 + (kv.rKvAddr - primary.2)
              rkey := client.rkey replica.1 }

def checkFailedData (kvReadAddrList : List KVRWAddr) : Option (List KVRWAddr) :=
  kvReadAddrList.mapM (checkFailedEntry client)

/-! ## The index of a replica -/

variable {client} {info : ReplicaList}

theorem healthyIdxLoop_spec (remaining healthyIdx : ℕ) :
    healthyIdx ≤ healthyIdxLoop client info remaining healthyIdx ∧
      healthyIdxLoop client info remaining healthyIdx ≤ healthyIdx + remaining ∧
      (∀ index, healthyIdx ≤ index → index < healthyIdxLoop client info remaining healthyIdx →
        ¬ healthyReplica client info index) ∧
      (healthyIdxLoop client info remaining healthyIdx < healthyIdx + remaining →
        healthyReplica client info (healthyIdxLoop client info remaining healthyIdx)) := by
  induction remaining generalizing healthyIdx with
  | zero =>
    refine ⟨le_rfl, le_rfl, fun index lower upper => absurd lower (Nat.not_le_of_lt upper), ?_⟩
    exact fun less => absurd less (lt_irrefl _)
  | succ remaining ih =>
    rw [healthyIdxLoop]
    by_cases healthy : healthyReplica client info healthyIdx
    · rw [if_pos healthy]
      exact ⟨le_rfl, by omega, fun index lower upper => absurd lower (Nat.not_le_of_lt upper),
        fun _ => healthy⟩
    · rw [if_neg healthy]
      obtain ⟨_, _, skipped, stopped⟩ := ih (healthyIdx + 1)
      refine ⟨by omega, by omega, fun index from_ below => ?_, fun less => stopped (by omega)⟩
      rcases Nat.eq_or_lt_of_le from_ with rfl | later
      · exact healthy
      · exact skipped index later below

/-- The bound is that of the index, and the replica behind it is taken unseen. -/
theorem healthyReplica_healthyIdxLoop :
    healthyReplica client info (healthyIdxLoop client info (client.numIdxRep - 1) 1) ↔
      ∃ index, 1 ≤ index ∧ index ≤ max 1 client.numIdxRep ∧ healthyReplica client info index := by
  obtain ⟨lower, _, skipped, stopped⟩ := @healthyIdxLoop_spec client info (client.numIdxRep - 1) 1
  constructor
  · intro healthy
    exact ⟨_, lower, by omega, healthy⟩
  · rintro ⟨index, one, _, healthy⟩
    have notBefore : healthyIdxLoop client info (client.numIdxRep - 1) 1 ≤ index := by
      by_contra before
      exact skipped index one (by omega) healthy
    by_cases early : healthyIdxLoop client info (client.numIdxRep - 1) 1 < 1 + (client.numIdxRep - 1)
    · exact stopped early
    · obtain rfl : index = healthyIdxLoop client info (client.numIdxRep - 1) 1 := by omega
      exact healthy

end Translate

/-! ## Replicas of a table of groups -/

/-- The table has groups of the placement only, and all clients use the same
block size. -/
structure Registered (conf : GlobalConfig) (groups : List (List BlockAddr))
    (client : TranslateClient) : Prop where
  mmBlockSz : client.mmBlockSz = conf.blockSize
  listed : ∀ info ∈ client.metaAddrInfo, info ∈ groups

/-- The entry leads to the same offset in a replica of the same block, on a
server that has not crashed. -/
def RedirectedData (client : TranslateClient) (kv redirected : KVRWAddr) : Prop :=
  client.serverCrashMap redirected.serverId = false ∧
    ∃ info ∈ client.metaAddrInfo, ∃ block ∈ info, client.InBlock kv.serverId kv.rKvAddr block ∧
      ∃ replica ∈ info, redirected.serverId = replica.1 ∧
        redirected.rKvAddr.toNat = replica.2.toNat + (kv.rKvAddr.toNat - block.2.toNat)

/-- A primary block has the address, and one of the replicas that the loop can
return is on a server that has not crashed. -/
def WithinBound (client : TranslateClient) (kv : KVRWAddr) : Prop :=
  ∃ info ∈ client.metaAddrInfo,
    (∃ primary ∈ info.head?, client.InBlock kv.serverId kv.rKvAddr primary) ∧
    ∃ index, 1 ≤ index ∧ index ≤ max 1 client.numIdxRep ∧ healthyReplica client info index

section Registered

variable {conf : GlobalConfig} {groups : List (List BlockAddr)} {client : TranslateClient}
  (spaced : Spaced conf groups) (pointable : Pointable conf groups)
  (registered : Registered conf groups client)
  {targetServer : UInt8} {targetAddr : UInt64} {block other : BlockAddr}

include pointable registered in
theorem inBlock_iff (listed : block ∈ groups.flatten) :
    client.InBlock targetServer targetAddr block ↔ block.1 = targetServer ∧
      block.2.toNat ≤ targetAddr.toNat ∧
      targetAddr.toNat < block.2.toNat + conf.blockSize.toNat := by
  have bounded := pointable block listed
  have sum : (block.2 + conf.blockSize).toNat = block.2.toNat + conf.blockSize.toNat := by
    rw [UInt64.toNat_add]
    omega
  rw [TranslateClient.InBlock, registered.mmBlockSz, UInt64.le_iff_toNat_le,
    UInt64.lt_iff_toNat_lt, sum]

include spaced pointable registered

theorem inBlock_unique (inBlock : client.InBlock targetServer targetAddr block)
    (inOther : client.InBlock targetServer targetAddr other) (listed : block ∈ groups.flatten)
    (otherListed : other ∈ groups.flatten) : block = other := by
  obtain ⟨server, _, _⟩ := (inBlock_iff pointable registered listed).mp inBlock
  obtain ⟨otherServer, _, _⟩ := (inBlock_iff pointable registered otherListed).mp inOther
  by_contra ne
  have apart := @apart_of_ne (clientArea conf) block other (spaced.onGrid block listed)
    (spaced.onGrid other otherListed) ne (server.trans otherServer.symm)
  change block.2.toNat + conf.blockSize.toNat ≤ _ ∨ other.2.toNat + conf.blockSize.toNat ≤ _ at apart
  omega

variable {info : ReplicaList}

omit spaced pointable registered in
theorem of_findCorrespondingAddrInfo
    (found : findCorrespondingAddrInfo client targetServer targetAddr = some info) :
    info ∈ client.metaAddrInfo ∧
      ∃ primary ∈ info.head?, client.InBlock targetServer targetAddr primary := by
  have here := find?_some found
  obtain ⟨primary, first, inBlock⟩ := (Option.any_eq_true _ _).mp here
  exact ⟨mem_of_find?_eq_some found, primary, first, of_decide_eq_true inBlock⟩

theorem findCorrespondingAddrInfo_eq (listed : info ∈ client.metaAddrInfo) {primary : BlockAddr}
    (first : primary ∈ info.head?) (inBlock : client.InBlock targetServer targetAddr primary) :
    findCorrespondingAddrInfo client targetServer targetAddr = some info := by
  cases found : findCorrespondingAddrInfo client targetServer targetAddr with
  | none =>
    refine absurd ((Option.any_eq_true _ _).mpr ?_) (find?_eq_none.mp found info listed)
    exact ⟨primary, first, decide_eq_true inBlock⟩
  | some chosen =>
    obtain ⟨chosenListed, _, chosenFirst, inChosen⟩ := of_findCorrespondingAddrInfo found
    have inInfo := mem_of_mem_head? first
    have inChosenInfo := mem_of_mem_head? chosenFirst
    have same := inBlock_unique spaced pointable registered inChosen inBlock
      (mem_flatten_of_mem (registered.listed _ chosenListed) inChosenInfo)
      (mem_flatten_of_mem (registered.listed _ listed) inInfo)
    rw [eq_of_mem_of_nodup_flatten spaced.nodup (registered.listed _ chosenListed) (registered.listed _ listed)
      (same ▸ inChosenInfo) inInfo]

/-- An entry whose server has crashed is redirected if the loop reaches a replica
that is left. -/
theorem checkFailedEntry_iff {kv : KVRWAddr} (listed : info ∈ client.metaAddrInfo)
    (inInfo : block ∈ info) (inBlock : client.InBlock kv.serverId kv.rKvAddr block) :
    (∃ redirected, checkFailedEntry client kv = some redirected ∧
        RedirectedData client kv redirected) ↔
      client.serverCrashMap kv.serverId = false ∨ WithinBound client kv := by
  have inGroups := fun (info : ReplicaList) (listed : info ∈ client.metaAddrInfo)
    (block : BlockAddr) (inInfo : block ∈ info) =>
    mem_flatten_of_mem (registered.listed info listed) inInfo
  by_cases healthy : client.serverCrashMap kv.serverId = false
  · refine iff_of_true ⟨kv, if_pos healthy, healthy, info, listed, block, inInfo, inBlock, block,
      inInfo, ?_, ?_⟩ (.inl healthy)
    · exact inBlock.1.symm
    · have low := UInt64.le_iff_toNat_le.mp inBlock.2.1
      omega
  rw [or_iff_right healthy, checkFailedEntry, if_neg healthy]
  constructor
  · rintro ⟨_, result, alive, -⟩
    obtain ⟨chosen, found, result⟩ := bind_eq_some_iff.mp result
    rw [findHealthyIdx, found, map_some, bind_some] at result
    obtain ⟨replica, atIndex, result⟩ := bind_eq_some_iff.mp result
    obtain ⟨primary, -, rfl⟩ := map_eq_some_iff.mp result
    obtain ⟨chosenListed, inPrimary⟩ := of_findCorrespondingAddrInfo found
    refine ⟨chosen, chosenListed, inPrimary, healthyReplica_healthyIdxLoop.mp ?_⟩
    rw [healthyReplica, atIndex]
    exact decide_eq_true alive
  · rintro ⟨chosen, chosenListed, ⟨primary, first, inPrimary⟩, reached⟩
    have found := findCorrespondingAddrInfo_eq spaced pointable registered chosenListed first inPrimary
    obtain ⟨replica, atIndex, alive⟩ :=
      (Option.any_eq_true _ _).mp (healthyReplica_healthyIdxLoop.mpr reached)
    have inChosen := mem_of_getElem? atIndex
    have inHead := mem_of_mem_head? first
    obtain ⟨-, low, _⟩ := (inBlock_iff pointable registered
      (inGroups chosen chosenListed primary inHead)).mp inPrimary
    have bounded := pointable replica (inGroups chosen chosenListed replica inChosen)
    have offset : (kv.rKvAddr - primary.2).toNat = kv.rKvAddr.toNat - primary.2.toNat :=
      UInt64.toNat_sub_of_le _ _ (UInt64.le_iff_toNat_le.mpr low)
    rw [findHealthyIdx, found, bind_some, map_some, bind_some, atIndex, bind_some, first, map_some]
    refine ⟨_, rfl, of_decide_eq_true alive, chosen, chosenListed, primary, inHead, inPrimary,
      replica, inChosen, rfl, ?_⟩
    change (replica.2 + (kv.rKvAddr - primary.2)).toNat = _
    rw [UInt64.toNat_add, offset]
    omega

end Registered

theorem exists_mapM_forall₂ {α β : Type} {round : α → Option β} {Fits : α → β → Prop}
    (entries : List α) :
    (∃ results, entries.mapM round = some results ∧ List.Forall₂ Fits entries results) ↔
      ∀ entry ∈ entries, ∃ result, round entry = some result ∧ Fits entry result := by
  induction entries with
  | nil => exact iff_of_true ⟨[], rfl, .nil⟩ fun _ listed => absurd listed not_mem_nil
  | cons entry entries ih =>
    rw [forall_mem_cons, ← ih]
    constructor
    · rintro ⟨_, mapped, fits⟩
      rw [mapM_cons] at mapped
      obtain ⟨first, firstResult, mapped⟩ := bind_eq_some_iff.mp mapped
      obtain ⟨rest, restResult, mapped⟩ := bind_eq_some_iff.mp mapped
      obtain rfl := some.inj mapped
      obtain ⟨firstFits, restFits⟩ := forall₂_cons.mp fits
      exact ⟨⟨first, firstResult, firstFits⟩, rest, restResult, restFits⟩
    · rintro ⟨⟨first, firstResult, firstFits⟩, rest, restResult, restFits⟩
      refine ⟨first :: rest, ?_, .cons firstFits restFits⟩
      rw [mapM_cons, firstResult, restResult]
      rfl

section Reads

variable {conf : GlobalConfig} {groups : List (List BlockAddr)}

/-- The reads are redirected if their servers have not crashed, or one of the
replicas up to the number of index replicas has not. -/
theorem checkFailedData_iff
    (bound : conf.serverBaseAddr.toNat + conf.serverDataLen.toNat ≤ 2 ^ 47)
    (mapped : (getBlockMap conf).isSome) (finished : placements (clientArea conf) = some groups)
    {client : TranslateClient} (mmBlockSz : client.mmBlockSz = conf.blockSize)
    {metaArea : ℕ → UInt8 → MetaArea ReplicaList} {serverIdList : List UInt8}
    (table : client.metaAddrInfo = getAddrTranslateTable conf.numReplication.toNat
      client.serverCrashMap metaArea serverIdList)
    (registered : ∀ sid clientId pos info,
      metaArea sid clientId pos = some (.kvBlock info) → info ∈ groups)
    {kvReadAddrList : List KVRWAddr}
    (inTable : ∀ kv ∈ kvReadAddrList, ∃ info ∈ client.metaAddrInfo,
      (∃ block ∈ info, client.InBlock kv.serverId kv.rKvAddr block) ∧
      ∃ replica ∈ info, client.serverCrashMap replica.1 = false) :
    (∃ redirected, checkFailedData client kvReadAddrList = some redirected ∧
        List.Forall₂ (RedirectedData client) kvReadAddrList redirected) ↔
      ∀ kv ∈ kvReadAddrList, client.serverCrashMap kv.serverId = false ∨ WithinBound client kv := by
  rw [← isSome_getTotalBlockMap] at mapped
  obtain ⟨_, mapped⟩ := isSome_iff_exists.mp mapped
  obtain ⟨positive, replicas, -⟩ := getTotalBlockMap_eq mapped
  have spaced := spaced_of_placements positive replicas (by omega) finished
  have pointable := pointable_of_placements positive replicas bound finished
  have groupsOnly : Registered conf groups client := by
    refine ⟨mmBlockSz, fun info listed => ?_⟩
    rw [table] at listed
    obtain ⟨_, -, inArea⟩ := mem_flatMap.mp listed
    obtain ⟨pos, entry⟩ := exists_of_mem_recoveredBlocks inArea
    exact registered _ _ pos info entry
  refine (exists_mapM_forall₂ kvReadAddrList).trans (forall₂_congr fun kv listed => ?_)
  obtain ⟨_, inMeta, ⟨_, inInfo, inBlock⟩, -⟩ := inTable kv listed
  exact checkFailedEntry_iff spaced pointable groupsOnly inMeta inInfo inBlock

def sampleMetaArea (info : ReplicaList) : ℕ → UInt8 → MetaArea ReplicaList := fun _ _ pos =>
  if pos = 0 then some (.kvBlock info) else none

def sampleTranslateClient (conf : GlobalConfig) (serverCrashMap : UInt8 → Bool)
    (info : ReplicaList) : TranslateClient where
  numIdxRep := 1
  mmBlockSz := conf.blockSize
  serverCrashMap := serverCrashMap
  rkey := fun _ => 0
  metaAddrInfo := getAddrTranslateTable conf.numReplication.toNat serverCrashMap
    (sampleMetaArea info) [3]

theorem eq_of_sampleMetaArea {info other : ReplicaList} {sid : ℕ} {clientId : UInt8} {pos : ℕ}
    (entry : sampleMetaArea info sid clientId pos = some (.kvBlock other)) : other = info := by
  rw [sampleMetaArea] at entry
  split_ifs at entry
  exact (ClientMetaAddrInfo.kvBlock.inj (some.inj entry)).symm

def sampleRead : KVRWAddr :=
  ⟨⟨0, 0x28008000, 256⟩, 0, 0, 0⟩

theorem checkFailedData_iff_twoServers :
    ∃ redirected, checkFailedData
        (sampleTranslateClient twoServers firstCrashed [(0, 0x28000000), (1, 0x28000000)])
        [sampleRead] = some redirected ∧
      List.Forall₂ (RedirectedData
        (sampleTranslateClient twoServers firstCrashed [(0, 0x28000000), (1, 0x28000000)]))
        [sampleRead] redirected := by
  have placed : placements (clientArea twoServers) =
      some [[(0, 0x28000000), (1, 0x28000000)], [(1, 0x2C000000), (0, 0x2C000000)]] := by
    decide +kernel
  have listed : [(0, 0x28000000), (1, 0x28000000)] ∈ (sampleTranslateClient twoServers firstCrashed
      [(0, 0x28000000), (1, 0x28000000)]).metaAddrInfo := by
    decide +kernel
  have mapped : (getBlockMap twoServers).isSome := by decide +kernel
  refine (checkFailedData_iff (by decide) mapped placed rfl rfl ?_ ?_).mpr ?_
  · intro sid clientId pos info entry
    rw [eq_of_sampleMetaArea entry]
    exact mem_cons_self
  · intro kv inList
    obtain rfl := mem_singleton.mp inList
    exact ⟨_, listed, ⟨(0, 0x28000000), mem_cons_self, by decide⟩, (1, 0x28000000), by simp,
      by decide⟩
  · intro kv inList
    obtain rfl := mem_singleton.mp inList
    exact .inr ⟨_, listed, ⟨(0, 0x28000000), rfl, by decide⟩, 1, le_rfl, by decide, by decide⟩

def threeServers : GlobalConfig :=
  { twoServers with memoryNum := 3, numReplication := 3 }

def firstTwoCrashed (sid : UInt8) : Bool :=
  sid < 2

/-- With one index replica the second replica is taken, although only the third
one is left. -/
theorem not_checkFailedData_threeServers :
    placements (clientArea threeServers) =
      some [[(0, 0x28000000), (1, 0x28000000), (2, 0x28000000)],
        [(1, 0x2C000000), (2, 0x2C000000), (0, 0x2C000000)]] ∧
    (sampleTranslateClient threeServers firstTwoCrashed
      [(0, 0x28000000), (1, 0x28000000), (2, 0x28000000)]).metaAddrInfo =
        [[(0, 0x28000000), (1, 0x28000000), (2, 0x28000000)]] ∧
    firstTwoCrashed 2 = false ∧
    checkFailedData (sampleTranslateClient threeServers firstTwoCrashed
      [(0, 0x28000000), (1, 0x28000000), (2, 0x28000000)]) [sampleRead] =
        some [⟨⟨1, 0x28008000, 256⟩, 0, 0, 0⟩] ∧
    firstTwoCrashed 1 = true := by
  decide +kernel

end Reads

end FuseeFs.Crash.Translate
