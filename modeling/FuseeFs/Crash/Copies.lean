import FuseeFs.KeyValue.Model
import FuseeFs.Library.RoundRobin

/-!
# Copies of the data

`get_block_map` forms groups of memory blocks, one on each of several servers.
A log entry is written to all blocks of a group, at the same offset.  When the
server of the first copy has crashed, a cached address is turned into that of
another one.
-/

namespace FuseeFs.Crash

open List Option Index KeyValue Library

/-- The groups that `get_block_map` forms, each with the primary block first.
All blocks of all servers start at the same place modulo their size. -/
structure DataBlocks where
  mmBlockSz : ℕ
  groups : List (List Location)
  mmBlockSz_pos : 0 < mmBlockSz
  mmBlockSz_aligned : 256 ∣ mmBlockSz
  nodup : groups.flatten.Nodup
  aligned : ∀ block ∈ groups.flatten, 256 ∣ block.2
  bounded : ∀ block ∈ groups.flatten, block.2 + mmBlockSz ≤ 2 ^ 48
  sameOffset : ∀ block ∈ groups.flatten, ∀ other ∈ groups.flatten,
    block.2 % mmBlockSz = other.2 % mmBlockSz

namespace DataBlocks

variable (blocks : DataBlocks)

def Contains (block place : Location) : Prop :=
  block.1 = place.1 ∧ block.2 ≤ place.2 ∧ place.2 < block.2 + blocks.mmBlockSz

instance (block place : Location) : Decidable (blocks.Contains block place) :=
  inferInstanceAs (Decidable (_ ∧ _ ∧ _))

def primaryGroup (place : Location) : Option (List Location) :=
  blocks.groups.find? fun group => group.head?.any fun block => blocks.Contains block place

def copies (place : Location) : List Location :=
  match blocks.primaryGroup place with
  | some (primary :: backups) =>
    backups.map fun backup => (backup.1, backup.2 + (place.2 - primary.2))
  | _ => []

/-- `total_block_map_`: the other blocks of a block's group. -/
def totalBlockMap (block : Location) : Option (List Location) :=
  (blocks.groups.find? fun group => block ∈ group).map fun group => group.filter (· ≠ block)

def IsPrimary (place : Location) : Prop :=
  ∃ group ∈ blocks.groups, ∃ primary ∈ group.head?, blocks.Contains primary place

instance (place : Location) : Decidable (blocks.IsPrimary place) :=
  inferInstanceAs (Decidable (∃ group ∈ blocks.groups, ∃ primary ∈ group.head?, _))

variable {blocks} {block other place copy : Location}

theorem Contains.unique (inBlock : blocks.Contains block place)
    (inOther : blocks.Contains other place) (mem : block ∈ blocks.groups.flatten)
    (otherListed : other ∈ blocks.groups.flatten) : block = other := by
  have same : block.2 ≡ other.2 [MOD blocks.mmBlockSz] :=
    blocks.sameOffset block mem other otherListed
  obtain ⟨server, _, _⟩ := inBlock
  obtain ⟨otherServer, _, _⟩ := inOther
  refine Prod.ext (server.trans otherServer.symm) (same.eq_of_abs_lt ?_)
  rw [abs_lt]
  omega

variable {group : List Location}

theorem group_unique {otherGroup : List Location} (mem : group ∈ blocks.groups)
    (otherListed : otherGroup ∈ blocks.groups) (inGroup : block ∈ group)
    (inOther : block ∈ otherGroup) : group = otherGroup :=
  eq_of_mem_of_nodup_flatten blocks.nodup mem otherListed inGroup inOther

theorem mem_flatten (mem : group ∈ blocks.groups) (inGroup : block ∈ group) :
    block ∈ blocks.groups.flatten :=
  List.mem_flatten.mpr ⟨group, mem, inGroup⟩

theorem of_primaryGroup (found : blocks.primaryGroup place = some group) :
    ∃ primary backups, group = primary :: backups ∧ (primary :: backups) ∈ blocks.groups ∧
      blocks.Contains primary place := by
  have mem := mem_of_find?_eq_some found
  have here := find?_some found
  cases group with
  | nil => simp at here
  | cons primary backups =>
    simp only [head?_cons, any_some, decide_eq_true_eq] at here
    exact ⟨primary, backups, rfl, mem, here⟩

variable {backups : List Location}

theorem copies_eq {primary : Location} (mem : (primary :: backups) ∈ blocks.groups)
    (inBlock : blocks.Contains primary place) :
    blocks.copies place =
      backups.map fun backup => (backup.1, backup.2 + (place.2 - primary.2)) := by
  cases found : blocks.primaryGroup place with
  | none =>
    have missed := find?_eq_none.mp found _ mem
    simp [inBlock] at missed
  | some group =>
    obtain ⟨first, _, rfl, firstListed, inFirst⟩ := of_primaryGroup found
    obtain rfl : first = primary := inFirst.unique inBlock
      (mem_flatten firstListed mem_cons_self) (mem_flatten mem mem_cons_self)
    obtain ⟨-, rfl⟩ := List.cons.inj (group_unique firstListed mem mem_cons_self mem_cons_self)
    rw [copies, found]

theorem mem_copies (isCopy : copy ∈ blocks.copies place) :
    ∃ primary backups, (primary :: backups) ∈ blocks.groups ∧ blocks.Contains primary place ∧
      ∃ backup ∈ backups, copy = (backup.1, backup.2 + (place.2 - primary.2)) := by
  cases found : blocks.primaryGroup place with
  | none => simp [copies, found] at isCopy
  | some group =>
    obtain ⟨primary, backups, rfl, mem, inBlock⟩ := of_primaryGroup found
    rw [copies_eq mem inBlock, List.mem_map] at isCopy
    obtain ⟨backup, inGroup, same⟩ := isCopy
    exact ⟨primary, backups, mem, inBlock, backup, inGroup, same.symm⟩

/-- A primary place and its copies are the places of a group's blocks with one
offset. -/
theorem mem_cons_copies_iff {primary : Location} (mem : (primary :: backups) ∈ blocks.groups)
    (inBlock : blocks.Contains primary place) :
    copy ∈ place :: blocks.copies place ↔
      ∃ block ∈ primary :: backups, copy = (block.1, block.2 + (place.2 - primary.2)) := by
  have own : place = (primary.1, primary.2 + (place.2 - primary.2)) :=
    Prod.ext inBlock.1.symm (Nat.add_sub_of_le inBlock.2.1).symm
  simp only [copies_eq mem inBlock, List.mem_map, mem_cons, exists_eq_or_imp,
    ← own, @eq_comm _ copy]

theorem contains_copy {primary backup : Location} (inBlock : blocks.Contains primary place) :
    blocks.Contains backup (backup.1, backup.2 + (place.2 - primary.2)) := by
  obtain ⟨-, _, _⟩ := inBlock
  refine ⟨rfl, ?_, ?_⟩ <;> dsimp only <;> omega

theorem eq_of_mem_copies {otherPlace : Location} (isCopy : copy ∈ blocks.copies place)
    (also : copy ∈ blocks.copies otherPlace) : place = otherPlace := by
  obtain ⟨primary, _, mem, inBlock, backup, inGroup, rfl⟩ := mem_copies isCopy
  obtain ⟨_, _, otherListed, otherInBlock, otherBackup, otherInGroup, same⟩ := mem_copies also
  have backupEq : backup = otherBackup :=
    (contains_copy inBlock).unique (same ▸ contains_copy otherInBlock)
      (mem_flatten mem (mem_cons_of_mem _ inGroup))
      (mem_flatten otherListed (mem_cons_of_mem _ otherInGroup))
  subst backupEq
  have groupEq := group_unique mem otherListed (mem_cons_of_mem _ inGroup)
    (mem_cons_of_mem _ otherInGroup)
  obtain ⟨rfl, -⟩ := List.cons.inj groupEq
  obtain ⟨server, _, -⟩ := inBlock
  obtain ⟨otherServer, _, -⟩ := otherInBlock
  have offset : backup.2 + (place.2 - primary.2) = backup.2 + (otherPlace.2 - primary.2) :=
    congrArg Prod.snd same
  exact Prod.ext (server.symm.trans otherServer) (by omega)

theorem not_isPrimary_of_mem_copies (isCopy : copy ∈ blocks.copies place) :
    ¬ blocks.IsPrimary copy := by
  rintro ⟨otherGroup, otherListed, otherPrimary, first, otherInBlock⟩
  obtain ⟨primary, _, mem, inBlock, backup, inGroup, rfl⟩ := mem_copies isCopy
  have otherInGroup : otherPrimary ∈ otherGroup := mem_of_mem_head? first
  have backupEq : backup = otherPrimary :=
    (contains_copy inBlock).unique otherInBlock
      (mem_flatten mem (mem_cons_of_mem _ inGroup)) (mem_flatten otherListed otherInGroup)
  subst backupEq
  have groupEq := group_unique mem otherListed (mem_cons_of_mem _ inGroup) otherInGroup
  subst groupEq
  obtain rfl : primary = backup := some.inj first
  have once := (List.nodup_flatten.mp blocks.nodup).1 _ mem
  exact (nodup_cons.mp once).1 inGroup

theorem of_totalBlockMap {others : List Location} (mapped : blocks.totalBlockMap block = some others) :
    ∃ group ∈ blocks.groups, block ∈ group ∧ others = group.filter (· ≠ block) := by
  obtain ⟨group, found, rfl⟩ := map_eq_some_iff.mp mapped
  have inGroup := find?_some found
  simp only [decide_eq_true_eq] at inGroup
  exact ⟨group, mem_of_find?_eq_some found, inGroup, rfl⟩

theorem totalBlockMap_eq (mem : group ∈ blocks.groups) (inGroup : block ∈ group) :
    blocks.totalBlockMap block = some (group.filter (· ≠ block)) := by
  rw [totalBlockMap]
  cases found : blocks.groups.find? fun group => block ∈ group with
  | none =>
    have missed := find?_eq_none.mp found _ mem
    simp [inGroup] at missed
  | some other =>
    have inOther := find?_some found
    simp only [decide_eq_true_eq] at inOther
    rw [group_unique (mem_of_find?_eq_some found) mem inOther inGroup, map_some]

end DataBlocks

/-- `check_failed_cache`.  There is no result if the program exits because it
does not know the block, or follows the null pointer that is returned when all
copies are lost.  The offset is kept in a `uint32_t`. -/
def checkFailedCache (blocks : DataBlocks) (serverCrashMap : UInt8 → Bool) (cachedSlot : UInt64) :
    Option UInt64 :=
  let slot := raceHashSlot cachedSlot
  if serverCrashMap slot.serverId = false then some cachedSlot
  else
    let targetAddr := rKvAddr cachedSlot
    let targetOffset := targetAddr % blocks.mmBlockSz % 2 ^ 32
    (blocks.totalBlockMap (slot.serverId, targetAddr - targetOffset)).bind fun others =>
      (others.find? fun block => serverCrashMap block.1 = false).map fun block =>
        convertSlotToInt
          { slot with
            serverId := block.1
            pointer := hashIndexConvert64To40Bits (block.2 + targetOffset) }

section CheckFailedCache

variable {blocks : DataBlocks} {serverCrashMap : UInt8 → Bool} {cachedSlot healthySlot : UInt64}

theorem checkFailedCache_of_healthy
    (healthy : serverCrashMap (raceHashSlot cachedSlot).serverId = false) :
    checkFailedCache blocks serverCrashMap cachedSlot = some cachedSlot :=
  if_pos healthy

/-- The word of a slot that leads to another place. -/
def redirect (word : UInt64) (place : Location) : UInt64 :=
  convertSlotToInt
    { raceHashSlot word with
      serverId := place.1
      pointer := hashIndexConvert64To40Bits place.2 }

theorem redirect_location (word : UInt64) : redirect word (location word) = word := by
  have pointer : hashIndexConvert64To40Bits (rKvAddr word) = (raceHashSlot word).pointer :=
    hashIndexConvert64To40Bits_40To64 rfl
  rw [redirect, location, pointer]
  exact convertSlotToInt_raceHashSlot word

theorem redirect_redirect (word : UInt64) (place other : Location) :
    redirect (redirect word place) other = redirect word other := by
  rw [redirect, redirect, raceHashSlot_convertSlotToInt rfl, redirect]

theorem location_redirect (word : UInt64) {place : Location} (aligned : 256 ∣ place.2)
    (bound : place.2 < 2 ^ 48) : location (redirect word place) = place := by
  rw [location, rKvAddr, redirect, raceHashSlot_convertSlotToInt rfl]
  simp only
  rw [hashIndexConvert40To64Bits_64To40 aligned bound]

theorem location_redirected (word : UInt64) {block : Location} (mem : block ∈ blocks.groups.flatten)
    {targetOffset : ℕ} (aligned : 256 ∣ targetOffset) (less : targetOffset < blocks.mmBlockSz) :
    location (redirect word (block.1, block.2 + targetOffset)) =
      (block.1, block.2 + targetOffset) := by
  have bounded := blocks.bounded block mem
  refine location_redirect word (Nat.dvd_add (blocks.aligned block mem) aligned) ?_
  dsimp only
  omega

theorem dvd_targetOffset (blocks : DataBlocks) {targetAddr : ℕ} (aligned : 256 ∣ targetAddr) :
    256 ∣ targetAddr % blocks.mmBlockSz % 2 ^ 32 :=
  (Nat.dvd_mod_iff (by decide)).mpr ((Nat.dvd_mod_iff blocks.mmBlockSz_aligned).mpr aligned)

theorem targetOffset_lt (blocks : DataBlocks) (targetAddr : ℕ) :
    targetAddr % blocks.mmBlockSz % 2 ^ 32 < blocks.mmBlockSz :=
  (Nat.mod_le _ _).trans_lt (Nat.mod_lt _ blocks.mmBlockSz_pos)

theorem of_checkFailedCache (crashed : serverCrashMap (raceHashSlot cachedSlot).serverId = true)
    (result : checkFailedCache blocks serverCrashMap cachedSlot = some healthySlot) :
    let targetOffset := rKvAddr cachedSlot % blocks.mmBlockSz % 2 ^ 32
    ∃ group ∈ blocks.groups,
      ((raceHashSlot cachedSlot).serverId, rKvAddr cachedSlot - targetOffset) ∈ group ∧
      ∃ chosen ∈ group, healthySlot = redirect cachedSlot (chosen.1, chosen.2 + targetOffset) ∧
        location healthySlot = (chosen.1, chosen.2 + targetOffset) := by
  rw [checkFailedCache, if_neg (by simp [crashed])] at result
  obtain ⟨_, mapped, result⟩ := bind_eq_some_iff.mp result
  obtain ⟨chosen, found, rfl⟩ := map_eq_some_iff.mp result
  obtain ⟨group, mem, inGroup, rfl⟩ := DataBlocks.of_totalBlockMap mapped
  have inChosen := (mem_filter.mp (mem_of_find?_eq_some found)).1
  refine ⟨group, mem, inGroup, chosen, inChosen, rfl, ?_⟩
  exact location_redirected cachedSlot (DataBlocks.mem_flatten mem inChosen)
    (dvd_targetOffset blocks (Nat.dvd_mul_right 256 _)) (targetOffset_lt blocks _)

/-- The second word leads to the pair of the first one, or to a copy of it. -/
def DataBlocks.LeadsToCopy (blocks : DataBlocks) (word lSlotPtr : UInt64) : Prop :=
  location lSlotPtr ∈ location word :: blocks.copies (location word) ∧
    lSlotPtr = redirect word (location lSlotPtr)

theorem leadsToCopy_self (blocks : DataBlocks) (word : UInt64) : blocks.LeadsToCopy word word :=
  ⟨mem_cons_self, (redirect_location word).symm⟩

theorem DataBlocks.LeadsToCopy.eq_of_isPrimary {word lSlotPtr : UInt64}
    (leads : blocks.LeadsToCopy word lSlotPtr) (primary : blocks.IsPrimary (location lSlotPtr)) :
    lSlotPtr = word := by
  obtain ⟨place, pointed⟩ := leads
  obtain same | isCopy := mem_cons.mp place
  · rw [pointed, same, redirect_location]
  · exact absurd primary (DataBlocks.not_isPrimary_of_mem_copies isCopy)

theorem DataBlocks.LeadsToCopy.checkFailedCache {word : UInt64}
    (leads : blocks.LeadsToCopy word cachedSlot) (inUse : blocks.IsPrimary (location word))
    (result : checkFailedCache blocks serverCrashMap cachedSlot = some healthySlot) :
    blocks.LeadsToCopy word healthySlot := by
  by_cases healthy : serverCrashMap (raceHashSlot cachedSlot).serverId = false
  · rw [checkFailedCache_of_healthy healthy, Option.some.injEq] at result
    exact result ▸ leads
  have crashed : serverCrashMap (raceHashSlot cachedSlot).serverId = true := by simpa using healthy
  obtain ⟨_, mem, inGroup, chosen, inChosen, redirected, there⟩ :=
    of_checkFailedCache crashed result
  obtain ⟨primaryGroup, primaryListed, primary, isFirst, inBlock⟩ := inUse
  obtain ⟨backups, rfl⟩ : ∃ backups, primaryGroup = primary :: backups :=
    head?_eq_some_iff.mp isFirst
  obtain ⟨isCopy, pointed⟩ := leads
  obtain ⟨block, inPrimaryGroup, here⟩ :=
    (DataBlocks.mem_cons_copies_iff primaryListed inBlock).mp isCopy
  have addr : rKvAddr cachedSlot = block.2 + ((location word).2 - primary.2) :=
    congrArg Prod.snd here
  have less := targetOffset_lt blocks (rKvAddr cachedSlot)
  have within : rKvAddr cachedSlot % blocks.mmBlockSz % 2 ^ 32 ≤ rKvAddr cachedSlot :=
    (Nat.mod_le _ _).trans (Nat.mod_le _ _)
  generalize rKvAddr cachedSlot % blocks.mmBlockSz % 2 ^ 32 = targetOffset
    at inGroup redirected there less within
  -- the block that the address is rounded down to is the one of the copy
  have rounded : block = ((raceHashSlot cachedSlot).serverId, rKvAddr cachedSlot - targetOffset) := by
    have inBoth := @DataBlocks.contains_copy blocks _ primary block inBlock
    rw [← here] at inBoth
    refine inBoth.unique ⟨rfl, Nat.sub_le _ _, ?_⟩
      (DataBlocks.mem_flatten primaryListed inPrimaryGroup) (DataBlocks.mem_flatten mem inGroup)
    simp only [location]
    omega
  rw [← rounded] at inGroup
  obtain rfl := DataBlocks.group_unique mem primaryListed inGroup inPrimaryGroup
  have offset : targetOffset = (location word).2 - primary.2 := by
    have start := congrArg Prod.snd rounded
    dsimp only at start
    omega
  rw [offset] at redirected there
  refine ⟨(DataBlocks.mem_cons_copies_iff mem inBlock).mpr ⟨chosen, inChosen, there⟩, ?_⟩
  rw [there, redirected, pointed, redirect_redirect]

theorem checkFailedCache_of_crashed {block : Location} {targetOffset : ℕ} {group : List Location}
    (crashed : serverCrashMap (raceHashSlot cachedSlot).serverId = true)
    (offset : rKvAddr cachedSlot % blocks.mmBlockSz % 2 ^ 32 = targetOffset)
    (rounded : ((raceHashSlot cachedSlot).serverId, rKvAddr cachedSlot - targetOffset) = block)
    (mem : group ∈ blocks.groups) (inGroup : block ∈ group) :
    checkFailedCache blocks serverCrashMap cachedSlot =
      ((group.filter (· ≠ block)).find? fun other => serverCrashMap other.1 = false).map fun other =>
        convertSlotToInt
          { raceHashSlot cachedSlot with
            serverId := other.1
            pointer := hashIndexConvert64To40Bits (other.2 + targetOffset) } := by
  rw [checkFailedCache, if_neg (by simp [crashed])]
  dsimp only
  rw [offset, rounded, DataBlocks.totalBlockMap_eq mem inGroup, bind_some]

/-- A subblock is redirected to the same subblock of a block of its group if its
server has not crashed or the offset in the address is that in the block. -/
theorem redirected_iff {group : List Location} (mem : group ∈ blocks.groups) {block : Location}
    (inGroup : block ∈ group) {offset : ℕ} (aligned : 256 ∣ offset)
    (inside : offset < blocks.mmBlockSz) (alive : ∃ other ∈ group, serverCrashMap other.1 = false)
    (pointed : location cachedSlot = (block.1, block.2 + offset)) :
    (∃ healthySlot, checkFailedCache blocks serverCrashMap cachedSlot = some healthySlot ∧
      ∃ other ∈ group, serverCrashMap other.1 = false ∧
        location healthySlot = (other.1, other.2 + offset)) ↔
      serverCrashMap block.1 = false ∨ (block.2 + offset) % blocks.mmBlockSz % 2 ^ 32 = offset := by
  obtain ⟨server, addr⟩ := Prod.ext_iff.mp pointed
  change (raceHashSlot cachedSlot).serverId = block.1 at server
  change rKvAddr cachedSlot = block.2 + offset at addr
  by_cases healthy : serverCrashMap block.1 = false
  · refine iff_of_true ⟨cachedSlot, ?_, block, inGroup, healthy, pointed⟩ (.inl healthy)
    exact checkFailedCache_of_healthy (server ▸ healthy)
  have crashed : serverCrashMap (raceHashSlot cachedSlot).serverId = true := by
    rw [server]
    simpa using healthy
  rw [or_iff_right healthy, ← addr]
  constructor
  · rintro ⟨_, result, other, inOther, -, redirected⟩
    obtain ⟨_, chosenListed, -, chosen, inChosen, -, there⟩ := of_checkFailedCache crashed result
    have less := targetOffset_lt blocks (rKvAddr cachedSlot)
    rw [there] at redirected
    -- the place is in one block only
    obtain ⟨sameServer, sameAddr⟩ := Prod.ext_iff.mp redirected
    dsimp only at sameServer sameAddr
    have inChosenBlock : blocks.Contains chosen (other.1, other.2 + offset) := by
      refine ⟨sameServer, ?_, ?_⟩ <;> dsimp only <;> omega
    have inOtherBlock : blocks.Contains other (other.1, other.2 + offset) :=
      ⟨rfl, Nat.le_add_right _ _, Nat.add_lt_add_left inside _⟩
    have same : chosen = other := inChosenBlock.unique inOtherBlock
      (DataBlocks.mem_flatten chosenListed inChosen) (DataBlocks.mem_flatten mem inOther)
    rw [same] at sameAddr
    exact Nat.add_left_cancel sameAddr
  · intro kept
    have rounded : ((raceHashSlot cachedSlot).serverId, rKvAddr cachedSlot - offset) = block := by
      rw [server, addr, Nat.add_sub_cancel]
    rw [checkFailedCache_of_crashed crashed kept rounded mem inGroup]
    obtain ⟨other, inOther, otherHealthy⟩ := alive
    have candidate : other ∈ group.filter (· ≠ block) := by
      refine mem_filter.mpr ⟨inOther, decide_eq_true ?_⟩
      rintro rfl
      exact healthy otherHealthy
    obtain ⟨chosen, found⟩ : ∃ chosen, (group.filter (· ≠ block)).find?
        (fun other => serverCrashMap other.1 = false) = some chosen := by
      refine isSome_iff_exists.mp (find?_isSome.mpr ⟨other, candidate, ?_⟩)
      exact decide_eq_true otherHealthy
    have inChosen := (mem_filter.mp (mem_of_find?_eq_some found)).1
    have chosenHealthy := find?_some found
    rw [found]
    refine ⟨_, rfl, chosen, inChosen, of_decide_eq_true chosenHealthy, ?_⟩
    exact location_redirected cachedSlot (DataBlocks.mem_flatten mem inChosen) aligned inside

end CheckFailedCache

end FuseeFs.Crash
