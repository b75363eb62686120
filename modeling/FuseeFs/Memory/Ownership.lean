import FuseeFs.Library.Reachability
import FuseeFs.Memory.Placement

/-!
# Who owns which memory

Clients ask servers for primary blocks and look the backups up in their own
maps.  No server knows about the backups that it holds for others, so that
blocks can only be exclusive because the groups of the placement are disjoint
and no primary block is handed out twice.
-/

namespace FuseeFs.Memory.Ownership

open List Option Function Library Memory.Placement

section Grid

variable {area : Area}

def OnGrid (area : Area) (addr : UInt64) : Prop :=
  ∃ number, addr.toNat = area.kvAreaAddr.toNat + number * area.blockSize.toNat

def NoWrap (area : Area) : Prop :=
  ∀ number, area.kvAreaAddr.toNat + number * area.blockSize.toNat < area.limitAddr.toNat →
    area.kvAreaAddr.toNat + (number + 1) * area.blockSize.toNat < 2 ^ 64

def Apart (blockSize : UInt64) (left right : BlockAddr) : Prop :=
  left.1 = right.1 → left.2.toNat + blockSize.toNat ≤ right.2.toNat ∨
    right.2.toNat + blockSize.toNat ≤ left.2.toNat

instance (blockSize : UInt64) (left right : BlockAddr) : Decidable (Apart blockSize left right) :=
  inferInstanceAs (Decidable (_ → _))

theorem apart_of_ne {left right : BlockAddr} (leftGrid : OnGrid area left.2)
    (rightGrid : OnGrid area right.2) (ne : left ≠ right) : Apart area.blockSize left right := by
  intro server
  obtain ⟨leftNumber, leftAddr⟩ := leftGrid
  obtain ⟨rightNumber, rightAddr⟩ := rightGrid
  have numbers : leftNumber ≠ rightNumber := by
    rintro rfl
    exact ne (Prod.ext server (UInt64.toNat_inj.mp (leftAddr.trans rightAddr.symm)))
  rw [leftAddr, rightAddr]
  rcases Nat.lt_or_gt_of_ne numbers with before | behind
  · have next := Nat.mul_le_mul_right area.blockSize.toNat (Nat.succ_le_of_lt before)
    rw [Nat.succ_mul] at next
    omega
  · have next := Nat.mul_le_mul_right area.blockSize.toNat (Nat.succ_le_of_lt behind)
    rw [Nat.succ_mul] at next
    omega

structure Taken (area : Area) (before after : MnAddrPtr) (blocks : List BlockAddr) : Prop where
  onGrid : ∀ sid, OnGrid area (after sid)
  le : ∀ sid, (before sid).toNat ≤ (after sid).toNat
  between : ∀ block ∈ blocks, OnGrid area block.2 ∧
    (before block.1.toNat).toNat ≤ block.2.toNat ∧ block.2.toNat < (after block.1.toNat).toNat
  nodup : blocks.Nodup

theorem Taken.refl {mnAddrPtr : MnAddrPtr} (onGrid : ∀ sid, OnGrid area (mnAddrPtr sid)) :
    Taken area mnAddrPtr mnAddrPtr [] :=
  ⟨onGrid, fun _ => le_rfl, by simp, nodup_nil⟩

variable {blocks : List BlockAddr}

theorem Taken.append {first second third : MnAddrPtr} {more : List BlockAddr}
    (before : Taken area first second blocks) (after : Taken area second third more) :
    Taken area first third (blocks ++ more) where
  onGrid := after.onGrid
  le sid := (before.le sid).trans (after.le sid)
  between := by
    intro block mem
    obtain mem | mem := mem_append.mp mem
    · obtain ⟨grid, lower, upper⟩ := before.between block mem
      exact ⟨grid, lower, upper.trans_le (after.le _)⟩
    · obtain ⟨grid, lower, upper⟩ := after.between block mem
      exact ⟨grid, (before.le _).trans lower, upper⟩
  nodup := by
    refine nodup_append'.mpr ⟨before.nodup, after.nodup, ?_⟩
    intro block mem again
    have below := (before.between block mem).2.2
    have above := (after.between block again).2.1
    omega

variable (pos : 0 < area.blockSize.toNat) (noWrap : NoWrap area)
include pos noWrap

theorem taken_singleton {mnAddrPtr : MnAddrPtr} (onGrid : ∀ sid, OnGrid area (mnAddrPtr sid))
    {sid : UInt8} (below : (mnAddrPtr sid.toNat).toNat < area.limitAddr.toNat) :
    Taken area mnAddrPtr
      (update mnAddrPtr sid.toNat (mnAddrPtr sid.toNat + area.blockSize))
      [(sid, mnAddrPtr sid.toNat)] := by
  obtain ⟨number, addr⟩ := onGrid sid.toNat
  have next : (mnAddrPtr sid.toNat + area.blockSize).toNat =
      area.kvAreaAddr.toNat + (number + 1) * area.blockSize.toNat := by
    have fits := noWrap number (addr ▸ below)
    rw [Nat.succ_mul] at fits ⊢
    rw [UInt64.toNat_add, addr, Nat.mod_eq_of_lt (by omega)]
    omega
  have larger : (mnAddrPtr sid.toNat).toNat < (mnAddrPtr sid.toNat + area.blockSize).toNat := by
    rw [next, addr, Nat.succ_mul]
    omega
  refine ⟨fun other => ?_, fun other => ?_, ?_, nodup_singleton _⟩
  · by_cases same : other = sid.toNat
    · rw [same, update_self]
      exact ⟨number + 1, next⟩
    · rw [update_of_ne same]
      exact onGrid other
  · by_cases same : other = sid.toNat
    · rw [same, update_self]
      exact larger.le
    · rw [update_of_ne same]
  · intro block mem
    obtain rfl := mem_singleton.mp mem
    rw [update_self]
    exact ⟨⟨number, addr⟩, le_rfl, larger⟩

theorem taken_of_placed {before after : MnAddrPtr} (placed : Placed area before blocks after)
    (onGrid : ∀ sid, OnGrid area (before sid)) : Taken area before after blocks := by
  induction placed with
  | nil => exact .refl onGrid
  | cons sid below _ ih =>
    have first := taken_singleton pos noWrap onGrid below
    exact first.append (ih first.onGrid)

theorem taken_placements {groups : List (List BlockAddr)} (finished : placements area = some groups) :
    ∃ after, Taken area (fun _ => area.kvAreaAddr) after groups.flatten := by
  obtain ⟨after, placed⟩ := placed_placeLoop finished
  exact ⟨after, taken_of_placed pos noWrap placed fun _ =>
    ⟨0, by rw [Nat.zero_mul, Nat.add_zero]⟩⟩

end Grid

section Lookup

variable {key : UInt64}

theorem pushBack_of_ne {other : UInt64} (second : UInt64 → Option (List UInt64)) (value : UInt64)
    (ne : other ≠ key) : pushBack key second value other = second other :=
  update_of_ne ne _ _

theorem foldl_pushBack_of_ne {other : UInt64} (ne : other ≠ key) (values : List UInt64)
    (second : UInt64 → Option (List UInt64)) :
    values.foldl (pushBack key) second other = second other := by
  induction values generalizing second with
  | nil => rfl
  | cons value values ih =>
    rw [foldl_cons, ih, pushBack_of_ne second value ne]

theorem foldl_pushBack_self (values : List UInt64) {second : UInt64 → Option (List UInt64)}
    {before : List UInt64} (present : second key = some before) :
    values.foldl (pushBack key) second key = some (before ++ values) := by
  induction values generalizing second before with
  | nil => rw [foldl_nil, present, append_nil]
  | cons value values ih =>
    have pushed : pushBack key second value key = some (before ++ [value]) := by
      simp [pushBack, present]
    rw [foldl_cons, ih pushed, append_assoc, singleton_append]

def entered : List UInt64 → List UInt64
  | [] => [0]
  | backups => backups

theorem second_enterBlocks_of_ne (map : AllocBlockMap) {addr : UInt64} (backups : List UInt64)
    (ne : key ≠ addr) : (enterBlocks map (addr :: backups)).second key = map.second key := by
  cases backups with
  | nil => exact pushBack_of_ne map.second 0 ne
  | cons backup backups => exact foldl_pushBack_of_ne ne (backup :: backups) map.second

theorem second_enterBlocks_self {map : AllocBlockMap} {addr : UInt64} (backups : List UInt64)
    (absent : map.second addr = none) :
    (enterBlocks map (addr :: backups)).second addr = some (entered backups) := by
  cases backups with
  | nil => simp [enterBlocks, pushBack, entered, absent]
  | cons backup backups =>
    have first : pushBack addr map.second backup addr = some [backup] := by
      simp [pushBack, absent]
    exact foldl_pushBack_self backups first

variable {groups : List (List BlockAddr)}

theorem second_blockMapOf_of_not_mem (map : AllocBlockMap)
    (absent : key ∉ (primaries groups).map tagged) :
    (blockMapOf groups map).second key = map.second key := by
  induction groups generalizing map with
  | nil => rfl
  | cons group groups ih =>
    cases group with
    | nil => exact ih map absent
    | cons primary backups =>
      simp only [primaries, filterMap_cons, head?_cons, map_cons, mem_cons, not_or] at absent
      exact (ih _ absent.2).trans (second_enterBlocks_of_ne map (backups.map tagged) absent.1)

theorem second_blockMapOf {map : AllocBlockMap} (nodup : ((primaries groups).map tagged).Nodup)
    {primary : BlockAddr} {backups : List BlockAddr} (mem : primary :: backups ∈ groups)
    (absent : map.second (tagged primary) = none) :
    (blockMapOf groups map).second (tagged primary) = some (entered (backups.map tagged)) := by
  induction groups generalizing map with
  | nil => cases mem
  | cons group groups ih =>
    cases group with
    | nil =>
      refine ih nodup ?_ absent
      simpa using mem
    | cons other others =>
      simp only [primaries, filterMap_cons, head?_cons, map_cons, nodup_cons] at nodup
      obtain ⟨new, nodup⟩ := nodup
      obtain same | mem := mem_cons.mp mem
      · obtain ⟨rfl, rfl⟩ := List.cons.inj same
        exact (second_blockMapOf_of_not_mem _ new).trans
          (second_enterBlocks_self (backups.map tagged) absent)
      · refine ih nodup mem ?_
        have ne : tagged primary ≠ tagged other := by
          intro same
          refine new (same ▸ List.mem_map_of_mem ?_)
          exact mem_filterMap.mpr ⟨_, mem, rfl⟩
        exact (second_enterBlocks_of_ne map (others.map tagged) ne).trans absent

end Lookup

/-! ## Clients and servers -/

def maxRepNum : ℕ := 10

section Client

variable (conf : GlobalConfig) (map : AllocBlockMap) (prServerId : ℕ) (addr : UInt64)

/-- The part that the three functions below share: the backups are looked up
under the address that was allocated, and the client exits if there are none. -/
def lookupReplicas : Option (List BlockAddr) :=
  if addr &&& 0xFF ≠ 0 then none
  else
    (map.second (tagged (UInt8.ofNat prServerId, addr))).bind fun second =>
      if second.length < conf.numReplication.toNat - 1 then none
      else
        some ((UInt8.ofNat prServerId, addr) ::
          (second.take (conf.numReplication.toNat - 1)).map fun backup =>
            (taggedSid backup, taggedAddr backup))

/-- The registration fills arrays with `MAX_REP_NUM` elements and writes to one
server for each replica. -/
def regSpace (replicas : List BlockAddr) : Option (List BlockAddr) :=
  if conf.numReplication.toNat ≤ maxRepNum ∧ conf.numReplication.toNat ≤ conf.memoryNum.toNat then
    some replicas
  else none

def getNewBlockFromServer : Option (List BlockAddr) :=
  (lookupReplicas conf map prServerId addr).bind (regSpace conf)

/-- A server without blocks is no reason to exit. -/
def dynGetNewBlockFromServer : Option (List BlockAddr) :=
  if addr = 0 then none
  else (lookupReplicas conf map prServerId addr).bind (regSpace conf)

/-- One round of the loop; the registration follows after the last one. -/
def initGetNewBlockFromServer : Option (List BlockAddr) :=
  (lookupReplicas conf map prServerId addr).bind (regSpace conf)

end Client

inductive Caller
  | initGetNewBlock
  | getNewBlock
  | dynGetNewBlock
deriving DecidableEq, Repr

structure Reply where
  client : ℕ
  server : ℕ
  addr : UInt64
deriving DecidableEq, Repr

structure ClientBlock where
  client : ℕ
  replicas : List BlockAddr
deriving DecidableEq, Repr

structure System where
  /-- `allocable_blocks_` of every server. -/
  allocableBlocks : ℕ → List UInt64
  requests : List (ℕ × ℕ)
  replies : List Reply
  collected : List ClientBlock
  registered : List ClientBlock

inductive Event
  | sendRequest (client server : ℕ)
  | serverOnAlloc (client server : ℕ)
  | receiveReply (reply : Reply) (caller : Caller)
  | initRegSpace (client : ℕ)

namespace System

def receive (conf : GlobalConfig) (map : AllocBlockMap) (s : System) (reply : Reply) :
    Caller → System
  | .initGetNewBlock =>
    match initGetNewBlockFromServer conf map reply.server reply.addr with
    | none => s
    | some replicas => { s with collected := ⟨reply.client, replicas⟩ :: s.collected }
  | .getNewBlock =>
    match getNewBlockFromServer conf map reply.server reply.addr with
    | none => s
    | some replicas => { s with registered := ⟨reply.client, replicas⟩ :: s.registered }
  | .dynGetNewBlock =>
    match dynGetNewBlockFromServer conf map reply.server reply.addr with
    | none => s
    | some replicas => { s with registered := ⟨reply.client, replicas⟩ :: s.registered }

/-- Every request and every reply is delivered once, in any order. -/
def step (conf : GlobalConfig) (map : AllocBlockMap) (s : System) : Event → Option System
  | .sendRequest client server =>
    if server < conf.memoryNum.toNat then
      some { s with requests := (client, server) :: s.requests }
    else none
  | .serverOnAlloc client server =>
    if (client, server) ∈ s.requests then
      let allocated := mmAlloc (s.allocableBlocks server)
      some { s with
        allocableBlocks := update s.allocableBlocks server allocated.2
        requests := s.requests.erase (client, server)
        replies := ⟨client, server, allocated.1⟩ :: s.replies }
    else none
  | .receiveReply reply caller =>
    if reply ∈ s.replies then
      some ({ s with replies := s.replies.erase reply }.receive conf map reply caller)
    else none
  | .initRegSpace client =>
    some { s with
      collected := s.collected.filter (·.client ≠ client)
      registered := s.collected.filter (·.client = client) ++ s.registered }

def IsInitial (queues : ℕ → List UInt64) (s : System) : Prop :=
  s = ⟨queues, [], [], [], []⟩

/-- The replicas of all clients' blocks are disjoint, and the replicas of one
block are on different servers. -/
structure Exclusive (conf : GlobalConfig) (s : System) : Prop where
  disjoint : (s.registered.flatMap ClientBlock.replicas).Pairwise (Apart conf.blockSize)
  distinct : ∀ block ∈ s.registered, block.replicas.length = conf.numReplication.toNat ∧
    (block.replicas.map Prod.fst).Nodup

end System

section Deployment

variable {conf : GlobalConfig}

structure Deployed (conf : GlobalConfig) : Prop where
  baseAligned : conf.serverBaseAddr.toNat % 256 = 0
  blockAligned : conf.blockSize.toNat % 256 = 0
  whole : (kvAreaLen conf).toNat % conf.blockSize.toNat = 0
  servers : conf.memoryNum.toNat ≤ 256

variable {allocableBlocks : List UInt64}

theorem of_getAllocableBlocks {sid : ℕ} (built : getAllocableBlocks conf sid = some allocableBlocks)
    :
    0 < conf.blockSize.toUInt32.toNat ∧ 0 < conf.numReplication.toNat ∧
      conf.serverBaseAddr.toNat + conf.serverDataLen.toNat ≤ 2 ^ 63 := by
  unfold getAllocableBlocks at built
  split_ifs at built with degenerate
  obtain ⟨blockSize, numReplication, bound⟩ : conf.blockSize.toUInt32 ≠ 0 ∧
      conf.numReplication ≠ 0 ∧
      ¬ 2 ^ 63 < conf.serverBaseAddr.toNat + conf.serverDataLen.toNat := by
    simpa only [not_or] using degenerate
  exact ⟨toNat_pos_of_ne_zero blockSize, toNat_pos_of_ne_zero numReplication, not_lt.mp bound⟩

theorem kvAreaOff_bounds (pos : 0 < conf.blockSize.toUInt32.toNat) :
    0 < (kvAreaOff conf).toNat ∧ (kvAreaOff conf).toNat < 2 ^ 33 := by
  have narrow := conf.blockSize.toUInt32.toNat_lt
  have nonzero : conf.blockSize.toUInt32 ≠ 0 := by
    intro zero
    rw [zero] at pos
    exact absurd pos (by decide)
  have small : (UInt64.ofNat (metaAreaLen + gcAreaLen + hashAreaLen)).toNat = 402653184 := by decide
  have rounded := toNat_roundUp
    (show (UInt64.ofNat (metaAreaLen + gcAreaLen + hashAreaLen)).toNat < 2 ^ 63 by decide) nonzero
  have rest := Nat.mod_lt (402653184 + conf.blockSize.toUInt32.toNat - 1) pos
  rw [kvAreaOff, rounded, small]
  omega

theorem noWrap_serverArea (bound : conf.serverBaseAddr.toNat + conf.serverDataLen.toNat ≤ 2 ^ 63) :
    NoWrap (serverArea conf) := by
  intro number below
  have narrow := conf.blockSize.toUInt32.toNat_lt
  have limit : (serverArea conf).limitAddr.toNat ≤ 2 ^ 63 := by
    rw [serverArea, UInt64.toNat_add]
    exact (Nat.mod_le _ _).trans bound
  have size : (serverArea conf).blockSize.toNat < 2 ^ 32 := by
    rw [serverArea, UInt32.toNat_toUInt64]
    exact narrow
  rw [Nat.succ_mul]
  omega

theorem blockSize_le_kvAreaLen (some : (clientArea conf).numRepBlocks ≠ 0) :
    conf.blockSize.toNat ≤ (kvAreaLen conf).toNat := by
  by_contra larger
  have none : (serverNumBlocks conf).toNat = 0 := by
    rw [serverNumBlocks, UInt64.toNat_div]
    exact Nat.div_eq_of_lt (not_le.mp larger)
  have zero : serverNumBlocks conf = 0 := UInt64.toNat_inj.mp none
  refine some ?_
  simp [clientArea, zero]

section Bounds

variable (pos : 0 < conf.blockSize.toUInt32.toNat)
  (bound : conf.serverBaseAddr.toNat + conf.serverDataLen.toNat ≤ 2 ^ 63)
include bound

theorem toNat_limitAddr : (clientArea conf).limitAddr.toNat =
    conf.serverBaseAddr.toNat + conf.serverDataLen.toNat := by
  rw [clientArea, UInt64.toNat_add]
  omega

include pos

theorem toNat_kvAreaAddr : (clientArea conf).kvAreaAddr.toNat =
    conf.serverBaseAddr.toNat + (kvAreaOff conf).toNat := by
  obtain ⟨-, _⟩ := kvAreaOff_bounds pos
  rw [clientArea, UInt64.toNat_add]
  omega

theorem toNat_kvAreaLen
    (room : (clientArea conf).kvAreaAddr.toNat < (clientArea conf).limitAddr.toNat) :
    (clientArea conf).limitAddr.toNat =
      (clientArea conf).kvAreaAddr.toNat + (kvAreaLen conf).toNat := by
  rw [toNat_kvAreaAddr pos bound, toNat_limitAddr bound] at room ⊢
  have length : (kvAreaLen conf).toNat = conf.serverDataLen.toNat - (kvAreaOff conf).toNat := by
    rw [kvAreaLen, UInt64.toNat_sub_of_le]
    rw [UInt64.le_iff_toNat_le]
    omega
  omega

theorem noWrap_clientArea (some : (clientArea conf).numRepBlocks ≠ 0)
    (room : (clientArea conf).kvAreaAddr.toNat < (clientArea conf).limitAddr.toNat) :
    NoWrap (clientArea conf) ∧ 0 < (clientArea conf).kvAreaAddr.toNat := by
  have limit := toNat_limitAddr bound
  have ends := toNat_kvAreaLen pos bound room
  have size := blockSize_le_kvAreaLen some
  refine ⟨fun number below => ?_, ?_⟩
  · have blockSize : (clientArea conf).blockSize = conf.blockSize := rfl
    rw [blockSize] at below ⊢
    rw [Nat.succ_mul]
    omega
  · rw [toNat_kvAreaAddr pos bound]
    obtain ⟨_, -⟩ := kvAreaOff_bounds pos
    omega

end Bounds

theorem kvAreaAddr_lt_of_placements {area : Area} (replicas : 0 < area.numReplication)
    {groups : List (List BlockAddr)} (finished : placements area = some groups)
    (nonempty : groups ≠ []) :
    0 < area.numMemory ∧ area.kvAreaAddr.toNat < area.limitAddr.toNat := by
  obtain ⟨remaining, count⟩ : ∃ remaining, area.numRepBlocks = remaining + 1 := by
    rw [← length_placeLoop finished]
    exact Nat.exists_eq_succ_of_ne_zero (mt eq_nil_of_length_eq_zero nonempty)
  rw [placements, count] at finished
  obtain ⟨_, skipped, finished⟩ := bind_eq_some_iff.mp finished
  obtain ⟨_, placed, -⟩ := bind_eq_some_iff.mp finished
  obtain ⟨_, equal⟩ := Nat.exists_eq_succ_of_ne_zero replicas.ne'
  rw [replicaSids, equal, range_succ_eq_map, map_cons] at placed
  simp only [takeBlocks] at placed
  split_ifs at placed with stops
  exact ⟨Nat.zero_lt_of_lt (skipFull_lt skipped).1,
    UInt64.lt_iff_toNat_lt.mp (UInt64.not_le.mp (not_or.mp stops).1)⟩

structure Spaced (conf : GlobalConfig) (groups : List (List BlockAddr)) : Prop where
  nodup : groups.flatten.Nodup
  onGrid : ∀ block ∈ groups.flatten, OnGrid (clientArea conf) block.2
  nonzero : ∀ block ∈ groups.flatten, block.2 ≠ 0

structure Sound (conf : GlobalConfig) (groups : List (List BlockAddr)) : Prop extends
    Spaced conf groups where
  aligned : ∀ block ∈ groups.flatten, block.2.toNat % 256 = 0
  servers : ∀ group ∈ groups, ∃ stSid, group.map Prod.fst = replicaSids (clientArea conf) stSid

section Placements

variable (pos : 0 < conf.blockSize.toUInt32.toNat) (replicas : 0 < conf.numReplication.toNat)
  (bound : conf.serverBaseAddr.toNat + conf.serverDataLen.toNat ≤ 2 ^ 63)
  {groups : List (List BlockAddr)} (finished : placements (clientArea conf) = some groups)
include pos replicas bound finished

theorem spaced_of_placements : Spaced conf groups := by
  by_cases empty : groups = []
  · subst empty
    exact ⟨nodup_nil, by simp, by simp⟩
  obtain ⟨_, room⟩ :=
    kvAreaAddr_lt_of_placements (show 0 < (clientArea conf).numReplication from replicas) finished
      empty
  have some : (clientArea conf).numRepBlocks ≠ 0 := by
    rw [← length_placeLoop finished]
    exact mt eq_nil_of_length_eq_zero empty
  obtain ⟨noWrap, kvAreaPositive⟩ := noWrap_clientArea pos bound some room
  have blockSizePositive : 0 < (clientArea conf).blockSize.toNat := by
    have narrow : conf.blockSize.toUInt32.toNat ≤ conf.blockSize.toNat := by
      rw [UInt64.toNat_toUInt32]
      exact Nat.mod_le _ _
    exact pos.trans_le narrow
  obtain ⟨_, taken⟩ := taken_placements blockSizePositive noWrap finished
  refine ⟨taken.nodup, fun block mem => (taken.between block mem).1, ?_⟩
  intro block mem zero
  have lower := (taken.between block mem).2.1
  rw [zero] at lower
  exact absurd (Nat.le_zero.mp lower) kvAreaPositive.ne'

theorem sound_of_placements (baseAligned : conf.serverBaseAddr.toNat % 256 = 0)
    (blockAligned : conf.blockSize.toNat % 256 = 0) : Sound conf groups := by
  have nonzero : conf.blockSize.toUInt32 ≠ 0 := by
    intro zero
    rw [zero] at pos
    exact absurd pos (by decide)
  exact ⟨spaced_of_placements pos replicas bound finished,
    @aligned_placements (clientArea conf) blockAligned
      (aligned_kvAreaAddr baseAligned blockAligned nonzero) groups finished,
    forall_placeLoop (fun _ stSid _ _ placed => ⟨stSid, map_fst_takeBlocks placed⟩) finished⟩

end Placements

theorem sound_of_getBlockMap (deployed : Deployed conf) {map : AllocBlockMap}
    (mapped : getBlockMap conf = some map)
    (built : ∀ sid < conf.memoryNum.toNat, (getAllocableBlocks conf sid).isSome) :
    ∃ groups, map = blockMapOf groups ⟨[], fun _ => none⟩ ∧ Sound conf groups := by
  have replicas : 0 < conf.numReplication.toNat := by
    unfold getBlockMap at mapped
    split_ifs at mapped with degenerate
    exact Nat.pos_of_ne_zero fun zero => degenerate (.inr (UInt32.toNat_inj.mp zero))
  obtain ⟨_, groups, finished, rfl⟩ := getBlockMap_eq mapped
  refine ⟨groups, rfl, ?_⟩
  by_cases empty : groups = []
  · subst empty
    exact ⟨⟨nodup_nil, by simp, by simp⟩, by simp, by simp⟩
  obtain ⟨someServer, -⟩ :=
    kvAreaAddr_lt_of_placements (show 0 < (clientArea conf).numReplication from replicas) finished
      empty
  obtain ⟨_, started⟩ := isSome_iff_exists.mp (built 0 someServer)
  obtain ⟨pos, -, bound⟩ := of_getAllocableBlocks started
  exact sound_of_placements pos replicas bound finished deployed.baseAligned deployed.blockAligned

theorem primaries_sublist (groups : List (List BlockAddr)) :
    (primaries groups).Sublist groups.flatten := by
  induction groups with
  | nil => exact List.Sublist.refl []
  | cons group groups ih =>
    cases group with
    | nil => exact ih
    | cons primary backups =>
      exact (ih.trans (sublist_append_right _ _)).cons_cons primary

/-- The loop of a server lists the blocks of the area in ascending order. -/
theorem allocable_getAllocableBlocksLoop {area : Area} (pos : 0 < area.blockSize.toNat)
    (noWrap : NoWrap area) (replicas : 0 < area.numReplication) {mySid remaining blockCnt : ℕ}
    {mnAddrPtr : MnAddrPtr} (onGrid : ∀ sid, OnGrid area (mnAddrPtr sid)) {final : List UInt64}
    (nodup : allocableBlocks.Nodup)
    (below : ∀ addr ∈ allocableBlocks, OnGrid area addr ∧ addr.toNat < (mnAddrPtr (UInt8.ofNat
      mySid).toNat).toNat)
    (finished : getAllocableBlocksLoop area mySid remaining blockCnt mnAddrPtr allocableBlocks =
      some final) : final.Nodup ∧ ∀ addr ∈ final, OnGrid area addr := by
  induction remaining generalizing blockCnt mnAddrPtr allocableBlocks with
  | zero =>
    obtain rfl := some.inj finished
    exact ⟨nodup, fun addr mem => (below addr mem).1⟩
  | succ remaining ih =>
    obtain ⟨_, skipped, finished⟩ := bind_eq_some_iff.mp finished
    obtain ⟨taken, placed, finished⟩ := bind_eq_some_iff.mp finished
    have step := taken_of_placed pos noWrap (placed_takeBlocks placed) onGrid
    have still : ∀ addr ∈ allocableBlocks, OnGrid area addr ∧
        addr.toNat < (taken.2 (UInt8.ofNat mySid).toNat).toNat := by
      intro addr mem
      obtain ⟨grid, lt⟩ := below addr mem
      exact ⟨grid, lt.trans_le (step.le _)⟩
    split_ifs at finished with mine
    · subst mine
      -- the block of this group is the next one of the server
      obtain ⟨primary, first, server, next⟩ :=
        primary_takeBlocks replicas (skipFull_lt skipped).1 placed
      obtain ⟨_, blocks⟩ := head?_eq_some_iff.mp first
      obtain ⟨grid, -, lt⟩ := step.between primary (blocks ▸ mem_cons_self)
      have only : (taken.1.map Prod.snd).take 1 = [primary.2] := by
        rw [blocks]
        rfl
      rw [only] at finished
      refine ih step.onGrid ?_ ?_ finished
      · refine nodup_append.mpr ⟨nodup, nodup_singleton _, ?_⟩
        rintro addr mem _ single rfl
        have earlier := (below addr mem).2
        rw [mem_singleton.mp single, next] at earlier
        exact lt_irrefl _ earlier
      · intro addr mem
        obtain mem | single := mem_append.mp mem
        · exact still addr mem
        · rw [mem_singleton.mp single, ← server]
          exact ⟨grid, lt⟩
    · exact ih step.onGrid nodup still finished

theorem allocable_getAllocableBlocks {sid : ℕ}
    (built : getAllocableBlocks conf sid = some allocableBlocks) :
    allocableBlocks.Nodup ∧ ∀ addr ∈ allocableBlocks, addr ≠ 0 := by
  obtain ⟨pos, replicas, bound⟩ := of_getAllocableBlocks built
  have blockSize : 0 < (serverArea conf).blockSize.toNat := by
    rw [serverArea, UInt32.toNat_toUInt64]
    exact pos
  unfold getAllocableBlocks at built
  split_ifs at built
  obtain ⟨nodup, onGrid⟩ := allocable_getAllocableBlocksLoop blockSize (noWrap_serverArea bound)
    replicas (fun _ => ⟨0, by rw [Nat.zero_mul, Nat.add_zero]⟩) nodup_nil (by simp) built
  refine ⟨nodup, ?_⟩
  rintro _ mem rfl
  obtain ⟨_, zero⟩ := onGrid 0 mem
  have kvArea : (serverArea conf).kvAreaAddr.toNat =
      conf.serverBaseAddr.toNat + (kvAreaOff conf).toNat := toNat_kvAreaAddr pos bound
  obtain ⟨_, -⟩ := kvAreaOff_bounds pos
  rw [UInt64.toNat_zero] at zero
  omega

end Deployment

section Sound

variable {conf : GlobalConfig} {groups : List (List BlockAddr)} (sound : Sound conf groups)
include sound

variable {group : List BlockAddr}

theorem Sound.length_eq (mem : group ∈ groups) : group.length = conf.numReplication.toNat := by
  obtain ⟨_, servers⟩ := sound.servers group mem
  rw [← length_map Prod.fst, servers, replicaSids, length_map, length_range]
  rfl

theorem Sound.nodup_servers (few : conf.memoryNum.toNat ≤ 256)
    (enough : conf.numReplication.toNat ≤ conf.memoryNum.toNat) (mem : group ∈ groups) :
    (group.map Prod.fst).Nodup := by
  obtain ⟨stSid, servers⟩ := sound.servers group mem
  rw [servers, replicaSids]
  refine List.Nodup.map_on ?_ nodup_range
  intro index bound other otherBound same
  have indexBound : index < conf.numReplication.toNat := mem_range.mp bound
  have otherIndexBound : other < conf.numReplication.toNat := mem_range.mp otherBound
  have memory : (clientArea conf).numMemory = conf.memoryNum.toNat := rfl
  have someServer : 0 < conf.memoryNum.toNat := by omega
  have values := congrArg UInt8.toNat same
  have small : ∀ value, (stSid + value) % conf.memoryNum.toNat < 256 := fun value =>
    (Nat.mod_lt _ someServer).trans_le few
  rw [memory, UInt8.toNat_ofNat_of_lt' (small _), UInt8.toNat_ofNat_of_lt' (small _)] at values
  have congruent : index ≡ other [MOD conf.memoryNum.toNat] := Nat.ModEq.add_left_cancel' stSid values
  exact Nat.ModEq.eq_of_lt_of_lt congruent (indexBound.trans_le enough)
    (otherIndexBound.trans_le enough)

theorem Sound.nodup_tagged_primaries : ((primaries groups).map tagged).Nodup := by
  refine List.Nodup.map_on ?_ (sound.nodup.sublist (primaries_sublist groups))
  intro block mem other otherListed same
  exact tagged_inj (sound.aligned block ((primaries_sublist groups).subset mem))
    (sound.aligned other ((primaries_sublist groups).subset otherListed)) same

theorem Sound.lookupReplicas_mem {prServerId : ℕ} {addr : UInt64} {replicas : List BlockAddr}
    (found : lookupReplicas conf (blockMapOf groups ⟨[], fun _ => none⟩) prServerId addr =
      some replicas) :
    replicas ∈ groups ∧ replicas.head? = some (UInt8.ofNat prServerId, addr) := by
  unfold lookupReplicas at found
  split_ifs at found with unaligned
  obtain ⟨_, looked, found⟩ := bind_eq_some_iff.mp found
  have addrAligned : addr.toNat % 256 = 0 := by
    have masked := congrArg UInt64.toNat (not_not.mp unaligned)
    have mask : (0xFF : UInt64).toNat = 2 ^ 8 - 1 := rfl
    rw [UInt64.toNat_and, mask, Nat.and_two_pow_sub_one_eq_mod] at masked
    exact masked
  -- only the addresses of primary blocks are keys
  have key : tagged (UInt8.ofNat prServerId, addr) ∈ (primaries groups).map tagged := by
    by_contra absent
    rw [second_blockMapOf_of_not_mem _ absent] at looked
    cases looked
  obtain ⟨primary, mem, same⟩ := List.mem_map.mp key
  obtain ⟨_, inGroups, first⟩ := mem_filterMap.mp mem
  obtain ⟨backups, rfl⟩ := head?_eq_some_iff.mp first
  have aligned : ∀ block ∈ primary :: backups, block.2.toNat % 256 = 0 := fun block inside =>
    sound.aligned block (mem_flatten_of_mem inGroups inside)
  have isPrimary : primary = (UInt8.ofNat prServerId, addr) := by
    have pairAligned : (UInt8.ofNat prServerId, addr).2.toNat % 256 = 0 := addrAligned
    exact tagged_inj (aligned primary mem_cons_self) pairAligned same
  rw [← same, second_blockMapOf sound.nodup_tagged_primaries inGroups rfl] at looked
  obtain rfl := some.inj looked
  have length := sound.length_eq inGroups
  rw [length_cons] at length
  -- a block without backups has an entry all the same
  have read : (entered (backups.map tagged)).take (conf.numReplication.toNat - 1) =
      backups.map tagged := by
    rw [← length, Nat.add_sub_cancel]
    cases backups with
    | nil => rfl
    | cons backup backups => simp [entered]
  have decoded : (backups.map tagged).map (fun backup => (taggedSid backup, taggedAddr backup)) =
      backups := by
    rw [List.map_map]
    refine (map_congr_left fun block inside => ?_).trans (List.map_id backups)
    have blockAligned := aligned block (mem_cons_of_mem primary inside)
    exact Prod.ext (taggedSid_tagged blockAligned) (taggedAddr_tagged blockAligned)
  split_ifs at found
  rw [read, decoded, ← isPrimary] at found
  obtain rfl := some.inj found
  exact ⟨inGroups, by rw [head?_cons, isPrimary]⟩

end Sound

/-! ## Exclusive blocks -/

def ClientBlock.primary (block : ClientBlock) : Option (ℕ × UInt64) :=
  block.replicas.head?.map fun primary => (primary.1.toNat, primary.2)

def Reply.allocated (reply : Reply) : Option (ℕ × UInt64) :=
  if reply.addr = 0 then none else some (reply.server, reply.addr)

namespace System

/-- The primary blocks that servers have handed out and clients have not lost. -/
def handedOut (s : System) : List (ℕ × UInt64) :=
  s.replies.filterMap Reply.allocated ++ (s.collected ++ s.registered).filterMap ClientBlock.primary

structure Tracked (conf : GlobalConfig) (groups : List (List BlockAddr)) (s : System) : Prop where
  requests_lt : ∀ req ∈ s.requests, req.2 < conf.memoryNum.toNat
  replies_lt : ∀ reply ∈ s.replies, reply.server < conf.memoryNum.toNat
  allocable : ∀ sid < conf.memoryNum.toNat, (s.allocableBlocks sid).Nodup
  handedOut_nodup : s.handedOut.Nodup
  handedOut_once : ∀ block ∈ s.handedOut, block.2 ∉ s.allocableBlocks block.1
  mem_groups : ∀ block ∈ s.collected ++ s.registered, block.replicas ∈ groups ∧
    conf.numReplication.toNat ≤ conf.memoryNum.toNat

section Invariant

variable {conf : GlobalConfig} {groups : List (List BlockAddr)} {s after : System}

theorem receive_cases (sound : Sound conf groups) (few : conf.memoryNum.toNat ≤ 256)
    (reply : Reply) (bound : reply.server < conf.memoryNum.toNat) (caller : Caller) :
    let after := s.receive conf (blockMapOf groups ⟨[], fun _ => none⟩) reply caller
    after = s ∨ ∃ block : ClientBlock,
      (after = { s with collected := block :: s.collected } ∨
        after = { s with registered := block :: s.registered }) ∧
      block.primary = reply.allocated ∧ block.replicas ∈ groups ∧
      conf.numReplication.toNat ≤ conf.memoryNum.toNat := by
  have kept : ∀ replicas, (lookupReplicas conf (blockMapOf groups ⟨[], fun _ => none⟩) reply.server
      reply.addr).bind (regSpace conf) = some replicas →
      (ClientBlock.mk reply.client replicas).primary = reply.allocated ∧ replicas ∈ groups ∧
        conf.numReplication.toNat ≤ conf.memoryNum.toNat := by
    intro replicas found
    obtain ⟨_, lookedUp, registered⟩ := bind_eq_some_iff.mp found
    unfold regSpace at registered
    split_ifs at registered with room
    obtain rfl := some.inj registered
    obtain ⟨mem, first⟩ := sound.lookupReplicas_mem lookedUp
    have nonzero : reply.addr ≠ 0 := sound.nonzero _ (mem_flatten_of_mem mem (mem_of_head? first))
    have server : (UInt8.ofNat reply.server).toNat = reply.server :=
      UInt8.toNat_ofNat_of_lt' (bound.trans_le few)
    refine ⟨?_, mem, room.2⟩
    rw [ClientBlock.primary, Reply.allocated, if_neg nonzero, first, map_some, server]
  intro after
  cases caller with
  | initGetNewBlock =>
    cases found : initGetNewBlockFromServer conf (blockMapOf groups ⟨[], fun _ => none⟩)
        reply.server reply.addr with
    | none => exact .inl (by simp only [after, receive, found])
    | some replicas =>
      exact .inr ⟨⟨reply.client, replicas⟩, .inl (by simp only [after, receive, found]),
        kept replicas found⟩
  | getNewBlock =>
    cases found : getNewBlockFromServer conf (blockMapOf groups ⟨[], fun _ => none⟩)
        reply.server reply.addr with
    | none => exact .inl (by simp only [after, receive, found])
    | some replicas =>
      exact .inr ⟨⟨reply.client, replicas⟩, .inr (by simp only [after, receive, found]),
        kept replicas found⟩
  | dynGetNewBlock =>
    cases found : dynGetNewBlockFromServer conf (blockMapOf groups ⟨[], fun _ => none⟩)
        reply.server reply.addr with
    | none => exact .inl (by simp only [after, receive, found])
    | some replicas =>
      refine .inr ⟨⟨reply.client, replicas⟩, .inr (by simp only [after, receive, found]), ?_⟩
      unfold dynGetNewBlockFromServer at found
      split_ifs at found
      exact kept replicas found

theorem Tracked.of_subperm (tracked : s.Tracked conf groups)
    (requests : after.requests = s.requests)
    (replies : after.replies ⊆ s.replies)
    (allocable : after.allocableBlocks = s.allocableBlocks)
    (fewer : after.handedOut.Subperm s.handedOut)
    (mem_groups : ∀ block ∈ after.collected ++ after.registered, block.replicas ∈ groups ∧
      conf.numReplication.toNat ≤ conf.memoryNum.toNat) : after.Tracked conf groups where
  requests_lt := requests ▸ tracked.requests_lt
  replies_lt reply mem := tracked.replies_lt reply (replies mem)
  allocable := allocable ▸ tracked.allocable
  handedOut_nodup := by
    obtain ⟨_, perm, sublist⟩ := fewer
    exact perm.nodup_iff.mp (tracked.handedOut_nodup.sublist sublist)
  handedOut_once block mem := allocable ▸ tracked.handedOut_once block (fewer.subset mem)
  mem_groups := mem_groups

theorem mmAlloc_spec {allocableBlocks : List UInt64} (nodup : allocableBlocks.Nodup) :
    (mmAlloc allocableBlocks).2.Sublist allocableBlocks ∧
      ((mmAlloc allocableBlocks).1 ≠ 0 → (mmAlloc allocableBlocks).1 ∈ allocableBlocks ∧
        (mmAlloc allocableBlocks).1 ∉ (mmAlloc allocableBlocks).2) := by
  cases allocableBlocks with
  | nil => exact ⟨List.Sublist.refl [], fun nonzero => absurd rfl nonzero⟩
  | cons addr rest =>
    exact ⟨sublist_cons_self addr rest, fun _ => ⟨mem_cons_self, (nodup_cons.mp nodup).1⟩⟩

theorem Tracked.serverOnAlloc (tracked : s.Tracked conf groups) {client server : ℕ}
    (sent : (client, server) ∈ s.requests) :
    Tracked conf groups { s with
      allocableBlocks := update s.allocableBlocks server
        (mmAlloc (s.allocableBlocks server)).2
      requests := s.requests.erase (client, server)
      replies := ⟨client, server, (mmAlloc (s.allocableBlocks server)).1⟩ :: s.replies } := by
  have bound := tracked.requests_lt _ sent
  obtain ⟨rest, allocated⟩ := mmAlloc_spec (tracked.allocable server bound)
  have fewer : ∀ sid, (update s.allocableBlocks server
      (mmAlloc (s.allocableBlocks server)).2 sid).Sublist (s.allocableBlocks sid) := by
    intro sid
    by_cases same : sid = server
    · rw [same, update_self]
      exact rest
    · rw [update_of_ne same]
  have once : ∀ block ∈ s.handedOut, block.2 ∉ update s.allocableBlocks server
      (mmAlloc (s.allocableBlocks server)).2 block.1 := fun block mem inside =>
    tracked.handedOut_once block mem ((fewer block.1).subset inside)
  refine ⟨?_, ?_, fun sid few => (tracked.allocable sid few).sublist (fewer sid), ?_, ?_,
    tracked.mem_groups⟩
  · exact fun req mem => tracked.requests_lt req (mem_of_mem_erase mem)
  · intro reply mem
    obtain rfl | mem := mem_cons.mp mem
    · exact bound
    · exact tracked.replies_lt reply mem
  all_goals simp only [handedOut, filterMap_cons, Reply.allocated]
  · by_cases empty : (mmAlloc (s.allocableBlocks server)).1 = 0
    · rw [if_pos empty]
      exact tracked.handedOut_nodup
    · rw [if_neg empty]
      refine nodup_cons.mpr ⟨fun mem => ?_, tracked.handedOut_nodup⟩
      exact tracked.handedOut_once _ mem (allocated empty).1
  · by_cases empty : (mmAlloc (s.allocableBlocks server)).1 = 0
    · rw [if_pos empty]
      exact once
    · rw [if_neg empty]
      intro block mem
      obtain rfl | mem := mem_cons.mp mem
      · rw [update_self]
        exact (allocated empty).2
      · exact once block mem

theorem Tracked.receiveReply (tracked : s.Tracked conf groups) (sound : Sound conf groups)
    (few : conf.memoryNum.toNat ≤ 256) {reply : Reply} (sent : reply ∈ s.replies)
    (caller : Caller) :
    Tracked conf groups ({ s with replies := s.replies.erase reply }.receive conf
      (blockMapOf groups ⟨[], fun _ => none⟩) reply caller) := by
  have subset : s.replies.erase reply ⊆ s.replies := erase_subset
  have split := ((perm_cons_erase sent).filterMap Reply.allocated).symm
  rcases @receive_cases conf groups { s with replies := s.replies.erase reply } sound few
      reply (tracked.replies_lt reply sent) caller with
    dropped | ⟨block, kept, primary, mem, enough⟩
  · rw [dropped]
    refine tracked.of_subperm rfl subset rfl ?_ tracked.mem_groups
    exact ((erase_sublist.filterMap _).append_right _).subperm
  · have members : ∀ other ∈ block :: (s.collected ++ s.registered),
        other.replicas ∈ groups ∧ conf.numReplication.toNat ≤ conf.memoryNum.toNat := by
      intro other inside
      obtain rfl | inside := mem_cons.mp inside
      · exact ⟨mem, enough⟩
      · exact tracked.mem_groups other inside
    have moved : ((s.replies.erase reply).filterMap Reply.allocated ++
        (block :: (s.collected ++ s.registered)).filterMap ClientBlock.primary).Perm
          s.handedOut := by
      refine List.Perm.trans ?_ (split.append_right _)
      rw [filterMap_cons, filterMap_cons, primary]
      cases reply.allocated with
      | none => exact List.Perm.refl _
      | some allocated => exact perm_middle
    rcases kept with kept | kept <;> rw [kept]
    · exact tracked.of_subperm rfl subset rfl moved.subperm members
    · have order : (s.collected ++ block :: s.registered).Perm
          (block :: (s.collected ++ s.registered)) := perm_middle
      refine tracked.of_subperm rfl subset rfl ?_ fun other inside =>
        members other (order.mem_iff.mp inside)
      exact ((order.filterMap _).append_left _ |>.trans moved).subperm

theorem Tracked.initRegSpace (tracked : s.Tracked conf groups) (client : ℕ) :
    Tracked conf groups { s with
      collected := s.collected.filter (·.client ≠ client)
      registered := s.collected.filter (·.client = client) ++ s.registered } := by
  have order : (s.collected.filter (·.client ≠ client) ++
      (s.collected.filter (·.client = client) ++ s.registered)).Perm
        (s.collected ++ s.registered) := by
    rw [← append_assoc]
    refine List.Perm.append_right _ ?_
    refine perm_append_comm.trans ?_
    simpa using filter_append_perm (fun block : ClientBlock => decide (block.client = client))
      s.collected
  refine tracked.of_subperm rfl (List.Subset.refl _) rfl ?_ fun block inside =>
    tracked.mem_groups block (order.mem_iff.mp inside)
  exact ((order.filterMap _).append_left _).subperm

theorem Tracked.step (tracked : s.Tracked conf groups) (sound : Sound conf groups)
    (few : conf.memoryNum.toNat ≤ 256) {event : Event}
    (taken : s.step conf (blockMapOf groups ⟨[], fun _ => none⟩) event = some after) :
    after.Tracked conf groups := by
  cases event with
  | sendRequest client server =>
    simp only [System.step] at taken
    split_ifs at taken with bound
    obtain rfl := some.inj taken
    refine { tracked with requests_lt := fun req mem => ?_ }
    obtain rfl | mem := mem_cons.mp mem
    · exact bound
    · exact tracked.requests_lt req mem
  | serverOnAlloc client server =>
    simp only [System.step] at taken
    split_ifs at taken with sent
    obtain rfl := some.inj taken
    exact tracked.serverOnAlloc sent
  | receiveReply reply caller =>
    simp only [System.step] at taken
    split_ifs at taken with sent
    obtain rfl := some.inj taken
    exact tracked.receiveReply sound few sent caller
  | initRegSpace client =>
    obtain rfl := some.inj taken
    exact tracked.initRegSpace client

theorem Tracked.exclusive (tracked : s.Tracked conf groups) (sound : Sound conf groups)
    (few : conf.memoryNum.toNat ≤ 256) : s.Exclusive conf := by
  have mem_groups : ∀ block ∈ s.registered, block.replicas ∈ groups ∧
      conf.numReplication.toNat ≤ conf.memoryNum.toNat := fun block mem =>
    tracked.mem_groups block (mem_append_right _ mem)
  obtain ⟨eachNodup, disjoint⟩ := List.nodup_flatten.mp sound.nodup
  have primaries : s.registered.Pairwise fun left right =>
      left.replicas ≠ [] → left.replicas ≠ right.replicas := by
    have nodup : (s.registered.filterMap ClientBlock.primary).Nodup :=
      tracked.handedOut_nodup.sublist
        (((sublist_append_right _ _).filterMap _).trans (sublist_append_right _ _))
    refine (pairwise_filterMap.mp nodup).imp ?_
    intro left right ne nonempty same
    obtain ⟨primary, _, replicas⟩ := exists_cons_of_ne_nil nonempty
    refine ne (primary.1.toNat, primary.2) ?_ (primary.1.toNat, primary.2) ?_ rfl
    · rw [ClientBlock.primary, replicas, head?_cons, map_some]
    · rw [ClientBlock.primary, ← same, replicas, head?_cons, map_some]
  have nodup : (s.registered.flatMap ClientBlock.replicas).Nodup := by
    refine nodup_flatMap.mpr ⟨fun block mem => eachNodup _ (mem_groups block mem).1, ?_⟩
    refine primaries.imp_of_mem ?_
    intro left right leftListed rightListed ne
    by_cases empty : left.replicas = []
    · rw [onFun, empty]
      exact disjoint_nil_left _
    · have symm : Std.Symm (List.Disjoint : List BlockAddr → List BlockAddr → Prop) :=
        ⟨fun _ _ => List.Disjoint.symm⟩
      exact disjoint.forall (mem_groups left leftListed).1 (mem_groups right rightListed).1
        (ne empty)
  have onGrid : ∀ replica ∈ s.registered.flatMap ClientBlock.replicas,
      OnGrid (clientArea conf) replica.2 := by
    intro replica mem
    obtain ⟨block, registered, inside⟩ := mem_flatMap.mp mem
    exact sound.onGrid replica (mem_flatten_of_mem (mem_groups block registered).1 inside)
  refine ⟨nodup.imp_of_mem ?_, fun block mem => ?_⟩
  · intro left right leftListed rightListed ne
    exact apart_of_ne (onGrid left leftListed) (onGrid right rightListed) ne
  · obtain ⟨inGroups, enough⟩ := mem_groups block mem
    exact ⟨sound.length_eq inGroups, sound.nodup_servers few enough inGroups⟩

end Invariant

/-- Whatever clients ask for, and in whatever order the messages arrive, no
memory is given to two clients. -/
theorem exclusive_of_reachable {conf : GlobalConfig} (deployed : Deployed conf)
    {map : AllocBlockMap} (mapped : getBlockMap conf = some map) {queues : ℕ → List UInt64}
    (built : ∀ sid < conf.memoryNum.toNat, getAllocableBlocks conf sid = some (queues sid))
    {s : System} (reached : Reachable (step conf map) (fun _ _ => True) (IsInitial queues) s) :
    s.Exclusive conf := by
  obtain ⟨_, rfl, sound⟩ := sound_of_getBlockMap deployed mapped fun sid bound =>
    isSome_iff_exists.mpr ⟨_, built sid bound⟩
  refine Tracked.exclusive ?_ sound deployed.servers
  apply reached.invariant
  · rintro s rfl
    exact ⟨by simp, by simp, fun sid bound => (allocable_getAllocableBlocks (built sid bound)).1,
      nodup_nil, by simp [handedOut], by simp⟩
  · intro s event after tracked _ taken
    exact tracked.step sound deployed.servers taken

theorem deployed_twoServers : Deployed twoServers where
  baseAligned := by decide
  blockAligned := by decide
  whole := by decide
  servers := by decide

/-- Two clients that use the two servers as primaries. -/
theorem exclusive_of_reachable_twoServers :
    ∃ map queues s, getBlockMap twoServers = some map ∧
      Reachable (step twoServers map) (fun _ _ => True) (IsInitial queues) s ∧
      s.registered = [⟨2, [(0, 0x28000000), (1, 0x28000000)]⟩,
        ⟨3, [(1, 0x2C000000), (0, 0x2C000000)]⟩] ∧ s.Exclusive twoServers := by
  have isSome : (getBlockMap twoServers).isSome := by decide +kernel
  have mapped : getBlockMap twoServers = some ((getBlockMap twoServers).getD ⟨[], fun _ => none⟩) := by
    obtain ⟨_, mapped⟩ := isSome_iff_exists.mp isSome
    rw [mapped, getD_some]
  have built : ∀ sid < 2, getAllocableBlocks twoServers sid =
      some ((getAllocableBlocks twoServers sid).getD []) := by decide +kernel
  have isInitial : IsInitial (fun sid => (getAllocableBlocks twoServers sid).getD [])
    ⟨fun sid => (getAllocableBlocks twoServers sid).getD [], [], [], [], []⟩ := rfl
  obtain ⟨s, reached, registered⟩ := Reachable.exists_of_run
    (step twoServers ((getBlockMap twoServers).getD ⟨[], fun _ => none⟩)) (fun _ _ => True)
    [.sendRequest 2 0, .sendRequest 3 1, .serverOnAlloc 3 1, .serverOnAlloc 2 0,
      .receiveReply ⟨2, 0, 0x28000000⟩ .initGetNewBlock,
      .receiveReply ⟨3, 1, 0x2C000000⟩ .dynGetNewBlock, .initRegSpace 2]
    (fun s : System => s.registered = [⟨2, [(0, 0x28000000), (1, 0x28000000)]⟩,
      ⟨3, [(1, 0x2C000000), (0, 0x2C000000)]⟩]) isInitial (by decide +kernel)
  exact ⟨_, _, s, mapped, reached, registered,
    exclusive_of_reachable deployed_twoServers mapped built reached⟩

end System

end FuseeFs.Memory.Ownership
