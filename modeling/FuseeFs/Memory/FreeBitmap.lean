import FuseeFs.KeyValue.Model
import FuseeFs.Memory.LogChain

/-!
# The bitmaps of freed subblocks

The first subblocks of a block hold a bitmap of the subblocks that were freed.
`mm_free` collects what is to be added to each 64-bit word of a bitmap, and
`free_batch` adds it with one fetch-and-add a word.
-/

namespace FuseeFs.Memory.FreeBitmap

open List Option Function Index KeyValue

/-! ## What is added to a word -/

/-- The value of `1 << n` in a `uint64_t`.  The 1 is an `int`: the result is
converted from 32 bits with its sign, and from 32 on it is undefined. -/
def addValue (count : ℕ) : Option (BitVec 64) :=
  if count < 32 then some ((1#32 <<< count).signExtend 64) else none

/-- `free_faa_map_`.  A key stands for the string that is made of the address of
a word and its server. -/
structure FreeFaaMap where
  keys : List Location
  value : Location → BitVec 64

namespace FreeFaaMap

def empty : FreeFaaMap :=
  ⟨[], fun _ => 0⟩

/-- `free_faa_map_[key] += value` -/
def add (map : FreeFaaMap) (key : Location) (value : BitVec 64) : FreeFaaMap where
  keys := map.keys.insert key
  value := update map.value key (map.value key + value)

end FreeFaaMap

section Free

variable (layout : Layout)

/-- `(kv_raddr % mm_block_sz_) / subblock_sz_` -/
def subblockId (origSlotVal : UInt64) : ℕ :=
  rKvAddr origSlotVal % layout.mmBlockSz / layout.subblockSz

def blockRaddr (origSlotVal : UInt64) : ℕ :=
  rKvAddr origSlotVal - rKvAddr origSlotVal % layout.mmBlockSz

def bmapKey (origSlotVal : UInt64) : Location :=
  ((raceHashSlot origSlotVal).serverId,
    blockRaddr layout origSlotVal + subblockId layout origSlotVal / 64 * 8)

/-- `mm_free`.  There is no result if the client exits or the shift is undefined. -/
def mmFree (map : FreeFaaMap) (origSlotVal : UInt64) : Option FreeFaaMap :=
  (addValue (subblockId layout origSlotVal % 64)).bind fun value =>
    if (bmapKey layout origSlotVal).2 >
        blockRaddr layout origSlotVal + layout.subblockSz * layout.bmapBlockNum then none
    else some (map.add (bmapKey layout origSlotVal) value)

def mmFreeAll (origSlotVals : List UInt64) : Option FreeFaaMap :=
  origSlotVals.foldlM (mmFree layout) FreeFaaMap.empty

end Free

abbrev Words := Location → BitVec 64

/-- The word that `free_batch` adds to.  `sscanf` stores the four bytes of a `%d` at
`target_sid`, which has one: the upper three, which are 0, go to what lies behind
it, so that the compiler's layout decides how many low bytes of `target_addr` are
`overwritten`. -/
def target (overwritten : ℕ) (key : Location) : Location :=
  (key.1, key.2 / 256 ^ overwritten * 256 ^ overwritten)

/-- `free_batch`, with the keys in the order of the iteration over the map. -/
def freeBatch (overwritten : ℕ) (map : FreeFaaMap) (order : List Location) (words : Words) :
    Words :=
  order.foldl (fun words key =>
    update words (target overwritten key)
      (words (target overwritten key) + map.value key)) words

/-! ## The batch -/

variable {overwritten : ℕ} {key : Location}

theorem target_eq_iff : target overwritten key = key ↔ 256 ^ overwritten ∣ key.2 := by
  rw [Nat.dvd_iff_div_mul_eq, target, Prod.ext_iff]
  exact and_iff_right rfl

variable {order : List Location}

theorem freeBatch_of_ne (map : FreeFaaMap) (unmet : ∀ other ∈ order, target overwritten other ≠ key)
    (words : Words) : freeBatch overwritten map order words key = words key := by
  induction order generalizing words with
  | nil => rfl
  | cons first order ih =>
    obtain ⟨ne, unmet⟩ := forall_mem_cons.mp unmet
    apply (ih unmet _).trans
    exact update_of_ne ne.symm _ _

/-- Nothing is added to a word whose address has a low byte that is overwritten. -/
theorem freeBatch_of_not_dvd (map : FreeFaaMap) (order : List Location)
    (low : ¬ 256 ^ overwritten ∣ key.2) (words : Words) :
    freeBatch overwritten map order words key = words key := by
  refine freeBatch_of_ne map (fun other _ same => low ?_) words
  rw [← same]
  exact Nat.dvd_mul_left _ _

theorem freeBatch_of_mem (map : FreeFaaMap) (nodup : order.Nodup)
    (kept : ∀ key ∈ order, target overwritten key = key) (mem : key ∈ order) (words : Words) :
    freeBatch overwritten map order words key = words key + map.value key := by
  induction order generalizing words with
  | nil => cases mem
  | cons first order ih =>
    obtain ⟨new, nodup⟩ := nodup_cons.mp nodup
    obtain ⟨same, restKept⟩ := forall_mem_cons.mp kept
    rcases mem_cons.mp mem with rfl | later
    · have unmet : ∀ other ∈ order, target overwritten other ≠ key := by
        intro other earlier met
        rw [restKept other earlier] at met
        exact new (met ▸ earlier)
      apply (freeBatch_of_ne map unmet _).trans
      dsimp only
      rw [same, update_self]
    · have ne : key ≠ first := fun same => new (same ▸ later)
      apply (ih nodup restKept later _).trans
      dsimp only
      rw [same, update_of_ne ne]

structure FreeFaaMap.Proper (map : FreeFaaMap) : Prop where
  nodup : map.keys.Nodup
  zero : ∀ key, key ∉ map.keys → map.value key = 0

theorem FreeFaaMap.Proper.empty : FreeFaaMap.empty.Proper :=
  ⟨nodup_nil, fun _ _ => rfl⟩

variable {map : FreeFaaMap}

theorem FreeFaaMap.Proper.add (proper : map.Proper) (key : Location) (value : BitVec 64) :
    (map.add key value).Proper := by
  by_cases present : key ∈ map.keys
  · have keys : (map.add key value).keys = map.keys := insert_of_mem present
    refine ⟨keys ▸ proper.nodup, fun other absent => ?_⟩
    rw [keys] at absent
    have ne : other ≠ key := fun same => absent (same ▸ present)
    exact (update_of_ne ne _ _).trans (proper.zero other absent)
  · have keys : (map.add key value).keys = key :: map.keys := insert_of_not_mem present
    refine ⟨keys ▸ nodup_cons.mpr ⟨present, proper.nodup⟩, fun other absent => ?_⟩
    rw [keys, mem_cons, not_or] at absent
    exact (update_of_ne absent.1 _ _).trans (proper.zero other absent.2)

/-- Bitmaps that were zero hold what was collected, in whatever order it is
added. -/
theorem freeBatch_zero (proper : map.Proper) (kept : ∀ key ∈ map.keys, target overwritten key = key)
    (perm : order.Perm map.keys) (key : Location) :
    freeBatch overwritten map order (fun _ => 0) key = map.value key := by
  have keptInOrder : ∀ key ∈ order, target overwritten key = key :=
    fun key mem => kept key (perm.mem_iff.mp mem)
  by_cases mem : key ∈ order
  · rw [freeBatch_of_mem map (perm.nodup_iff.mpr proper.nodup) keptInOrder mem]
    exact BitVec.zero_add _
  · rw [proper.zero key (mt perm.mem_iff.mpr mem)]
    refine freeBatch_of_ne map (fun other met same => mem ?_) _
    rwa [← same, keptInOrder other met]

/-! ## Bits of a sum -/

def AddedBit (count bit : ℕ) : Prop :=
  bit = count ∨ count = 31 ∧ 31 ≤ bit

instance (count bit : ℕ) : Decidable (AddedBit count bit) :=
  inferInstanceAs (Decidable (_ ∨ _))

theorem getLsbD_addValue {count bit : ℕ} (bound : bit < 64) {value : BitVec 64}
    (added : addValue count = some value) : value.getLsbD bit = decide (AddedBit count bit) := by
  unfold addValue at added
  split_ifs at added with small
  obtain rfl := some.inj added
  rw [BitVec.getLsbD_signExtend, ← BitVec.twoPow_eq, BitVec.getLsbD_twoPow, BitVec.msb_twoPow,
    Bool.eq_iff_iff, decide_eq_true_eq]
  unfold AddedBit
  grind

theorem getLsbD_add_of_disjoint {left right : BitVec 64}
    (disjoint : ∀ bit < 64, ¬(left.getLsbD bit ∧ right.getLsbD bit)) (bit : ℕ) :
    (left + right).getLsbD bit = (left.getLsbD bit || right.getLsbD bit) := by
  have none : left &&& right = 0#64 := by
    refine BitVec.eq_of_getLsbD_eq fun bit bound => ?_
    rw [BitVec.getLsbD_and, BitVec.getLsbD_zero]
    have apart := disjoint bit bound
    simpa using apart
  rw [BitVec.add_eq_or_of_and_eq_zero _ _ none, BitVec.getLsbD_or]

/-! ## Freed subblocks -/

def IsDataSubblock (layout : Layout) (origSlotVal : UInt64) : Prop :=
  ∃ block index, layout.mmBlockSz ∣ block ∧ layout.bmapBlockNum ≤ index ∧
    index < layout.subblockNum ∧ rKvAddr origSlotVal = block + index * layout.subblockSz

def IsBitOf (layout : Layout) (key : Location) (bit : ℕ) (origSlotVal : UInt64) : Prop :=
  ∃ block index, layout.mmBlockSz ∣ block ∧ index < layout.subblockNum ∧
    location origSlotVal = (key.1, block + index * layout.subblockSz) ∧
    key.2 = block + index / 64 * 8 ∧ bit = index % 64

section Slots

variable {layout : Layout} {origSlotVal : UInt64}

theorem subblockId_eq {block index : ℕ} (multiple : layout.mmBlockSz ∣ block)
    (bound : index < layout.subblockNum)
    (addr : rKvAddr origSlotVal = block + index * layout.subblockSz) :
    subblockId layout origSlotVal = index ∧ blockRaddr layout origSlotVal = block := by
  have offset : rKvAddr origSlotVal % layout.mmBlockSz = index * layout.subblockSz := by
    rw [addr, Nat.add_mod, Nat.mod_eq_zero_of_dvd multiple, Nat.zero_add, Nat.mod_mod,
      Nat.mod_eq_of_lt (ClientMMBlock.offset_lt bound)]
  rw [subblockId, blockRaddr, offset, addr, Nat.add_sub_cancel]
  exact ⟨Nat.mul_div_cancel _ layout.subblockSz_pos, rfl⟩

theorem isBitOf_iff (isData : IsDataSubblock layout origSlotVal) (key : Location) (bit : ℕ) :
    IsBitOf layout key bit origSlotVal ↔
      bmapKey layout origSlotVal = key ∧ subblockId layout origSlotVal % 64 = bit := by
  constructor
  · rintro ⟨block, index, multiple, bound, pointed, word, rfl⟩
    obtain ⟨server, addr⟩ := Prod.ext_iff.mp pointed
    obtain ⟨same, base⟩ := subblockId_eq multiple bound addr
    rw [bmapKey, base, same, ← word]
    exact ⟨Prod.ext server rfl, rfl⟩
  · rintro ⟨rfl, rfl⟩
    obtain ⟨block, index, multiple, -, bound, addr⟩ := isData
    obtain ⟨same, base⟩ := subblockId_eq multiple bound addr
    exact ⟨block, index, multiple, bound, Prod.ext rfl addr, by rw [bmapKey, base, same],
      by rw [same]⟩

theorem word_mod {block index : ℕ} (multiple : layout.mmBlockSz ∣ block)
    (bound : index < layout.subblockNum) :
    (block + index / 64 * 8) % layout.mmBlockSz = index / 64 * 8 := by
  have inside : index * layout.subblockSz < layout.mmBlockSz := ClientMMBlock.offset_lt bound
  have scaled : index ≤ index * layout.subblockSz :=
    Nat.le_mul_of_pos_right index layout.subblockSz_pos
  rw [Nat.add_mod, Nat.mod_eq_zero_of_dvd multiple, Nat.zero_add, Nat.mod_mod]
  apply Nat.mod_eq_of_lt
  omega

theorem location_eq_of_bit {other : UInt64} (isData : IsDataSubblock layout origSlotVal)
    (otherData : IsDataSubblock layout other)
    (word : bmapKey layout origSlotVal = bmapKey layout other)
    (bit : subblockId layout origSlotVal % 64 = subblockId layout other % 64) :
    location origSlotVal = location other := by
  obtain ⟨block, index, multiple, -, bound, addr⟩ := isData
  obtain ⟨otherBlock, otherIndex, otherMultiple, -, otherBound, otherAddr⟩ := otherData
  obtain ⟨same, base⟩ := subblockId_eq multiple bound addr
  obtain ⟨otherSame, otherBase⟩ := subblockId_eq otherMultiple otherBound otherAddr
  obtain ⟨server, words⟩ := Prod.ext_iff.mp word
  rw [bmapKey, bmapKey, base, same, otherBase, otherSame] at words
  rw [same, otherSame] at bit
  have offsets : index / 64 * 8 = otherIndex / 64 * 8 := by
    rw [← word_mod multiple bound, ← word_mod otherMultiple otherBound]
    exact congrArg (· % layout.mmBlockSz) words
  have blocks : block = otherBlock := by
    rw [offsets] at words
    exact Nat.add_right_cancel words
  have indices : index = otherIndex := by omega
  have servers : (raceHashSlot origSlotVal).serverId = (raceHashSlot other).serverId := server
  have addrs : rKvAddr origSlotVal = rKvAddr other := by
    rw [addr, otherAddr, blocks, indices]
  exact Prod.ext servers addrs

theorem bmapKey_le (isData : IsDataSubblock layout origSlotVal) :
    (bmapKey layout origSlotVal).2 ≤
      blockRaddr layout origSlotVal + layout.subblockSz * layout.bmapBlockNum := by
  obtain ⟨_, _, multiple, -, bound, addr⟩ := isData
  obtain ⟨same, base⟩ := subblockId_eq multiple bound addr
  have room : layout.subblockNum ≤ 8 * (layout.subblockSz * layout.bmapBlockNum) := by
    unfold BlockSizes.bmapBlockNum
    dsimp only
    split_ifs with short
    · have next := Nat.lt_mul_div_succ (layout.subblockNum / 8) layout.subblockSz_pos
      omega
    · rw [Nat.mul_right_comm, Nat.mul_comm _ 8, Nat.mul_comm (_ / _)] at short
      exact Nat.le_of_not_lt short
  rw [bmapKey, base, same]
  dsimp only
  omega

theorem mmFree_eq (isData : IsDataSubblock layout origSlotVal) (map : FreeFaaMap) :
    mmFree layout map origSlotVal = (addValue (subblockId layout origSlotVal % 64)).map
      fun value => map.add (bmapKey layout origSlotVal) value := by
  rw [mmFree, map_eq_bind]
  refine Option.bind_congr fun value _ => ?_
  rw [if_neg (Nat.not_lt_of_le (bmapKey_le isData))]
  rfl

end Slots

/-! ## What is collected -/

structure Collected (layout : Layout) (slots : List UInt64) (map : FreeFaaMap) : Prop where
  proper : map.Proper
  keys : ∀ key ∈ map.keys, ∃ slot ∈ slots, bmapKey layout slot = key
  defined : ∀ slot ∈ slots, subblockId layout slot % 64 < 32
  bits : ∀ key, ∀ bit < 64, (map.value key).getLsbD bit ↔ ∃ slot ∈ slots,
    bmapKey layout slot = key ∧ AddedBit (subblockId layout slot % 64) bit

section Collected

variable {layout : Layout} {slots : List UInt64}

theorem Collected.empty : Collected layout [] FreeFaaMap.empty := by
  refine ⟨.empty, by simp [FreeFaaMap.empty], by simp, fun key bit bound => ?_⟩
  simp [FreeFaaMap.empty]

variable {slot : UInt64}

theorem Collected.step {after : FreeFaaMap} (collected : Collected layout slots map)
    (data : ∀ freed ∈ slot :: slots, IsDataSubblock layout freed)
    (new : ∀ freed ∈ slots, location slot ≠ location freed)
    (freed : mmFree layout map slot = some after) : Collected layout (slot :: slots) after := by
  rw [mmFree_eq (data slot mem_cons_self)] at freed
  obtain ⟨value, added, rfl⟩ := map_eq_some_iff.mp freed
  have small : subblockId layout slot % 64 < 32 := by
    unfold addValue at added
    split_ifs at added with small
    exact small
  refine ⟨collected.proper.add _ _, fun key mem => ?_, ?_, fun key bit bound => ?_⟩
  · rcases mem_insert_iff.mp mem with rfl | before
    · exact ⟨slot, mem_cons_self, rfl⟩
    · obtain ⟨freed, mem, word⟩ := collected.keys key before
      exact ⟨freed, mem_cons_of_mem _ mem, word⟩
  · exact forall_mem_cons.mpr ⟨small, collected.defined⟩
  · rw [exists_mem_cons_iff, ← collected.bits key bit bound]
    by_cases same : bmapKey layout slot = key
    · subst same
      have sum : (map.add (bmapKey layout slot) value).value (bmapKey layout slot) =
          map.value (bmapKey layout slot) + value := update_self ..
      rw [sum, getLsbD_add_of_disjoint, Bool.or_eq_true, getLsbD_addValue bound added,
        decide_eq_true_eq, or_comm]
      · simp
      · rintro bit bound ⟨before, now⟩
        obtain ⟨freed, mem, word, theirs⟩ := (collected.bits _ bit bound).mp before
        rw [getLsbD_addValue bound added, decide_eq_true_eq] at now
        have known := collected.defined freed mem
        have counts : subblockId layout slot % 64 = subblockId layout freed % 64 := by
          unfold AddedBit at theirs now
          omega
        apply new freed mem
        apply location_eq_of_bit _ _ word.symm counts
        · exact data slot mem_cons_self
        · exact data freed (mem_cons_of_mem _ mem)
    · have other : (map.add (bmapKey layout slot) value).value key = map.value key :=
        update_of_ne (Ne.symm same) _ _
      rw [other]
      simp [same]

theorem Collected.steps {rest : List UInt64} {after : FreeFaaMap}
    (collected : Collected layout slots map)
    (data : ∀ freed ∈ rest ++ slots, IsDataSubblock layout freed)
    (distinct : ((rest ++ slots).map location).Nodup)
    (freed : rest.foldlM (mmFree layout) map = some after) :
    ∃ all, all.Perm (rest ++ slots) ∧ Collected layout all after := by
  induction rest generalizing slots map with
  | nil =>
    obtain rfl := some.inj freed
    exact ⟨slots, .refl _, collected⟩
  | cons slot rest ih =>
    rw [foldlM_cons] at freed
    obtain ⟨next, step, freed⟩ := bind_eq_some_iff.mp freed
    have moved : (rest ++ slot :: slots).Perm (slot :: rest ++ slots) := perm_middle
    have all : ∀ freed ∈ rest ++ slot :: slots, IsDataSubblock layout freed :=
      fun freed mem => data freed (moved.mem_iff.mp mem)
    have apart : ((rest ++ slot :: slots).map location).Nodup :=
      (moved.map location).nodup_iff.mpr distinct
    have later : Collected layout (slot :: slots) next := by
      refine collected.step (fun freed mem => ?_) (fun freed mem same => ?_) step
      · exact all freed (mem_append_right _ mem)
      · rw [map_append, map_cons] at apart
        have unlisted := (nodup_cons.mp apart.of_append_right).1
        exact unlisted (List.mem_map.mpr ⟨freed, mem, same.symm⟩)
    obtain ⟨every, perm, done⟩ := ih later all apart freed
    exact ⟨every, perm.trans moved, done⟩

theorem Collected.perm {other : List UInt64} (collected : Collected layout slots map)
    (perm : slots.Perm other) : Collected layout other map := by
  refine ⟨collected.proper, fun key mem => ?_, fun slot mem => ?_, fun key bit bound => ?_⟩
  · simpa only [perm.mem_iff] using collected.keys key mem
  · exact collected.defined slot (perm.mem_iff.mpr mem)
  · rw [collected.bits key bit bound]
    simp only [perm.mem_iff]

theorem collected_of_mmFreeAll (data : ∀ slot ∈ slots, IsDataSubblock layout slot)
    (distinct : (slots.map location).Nodup) (freed : mmFreeAll layout slots = some map) :
    Collected layout slots map := by
  have whole : slots ++ [] = slots := append_nil slots
  obtain ⟨_, perm, collected⟩ := Collected.empty.steps (by rwa [whole]) (by rwa [whole]) freed
  exact collected.perm (whole ▸ perm)

theorem exists_foldlM (data : ∀ slot ∈ slots, IsDataSubblock layout slot)
    (defined : ∀ slot ∈ slots, subblockId layout slot % 64 < 32) (map : FreeFaaMap) :
    ∃ after, slots.foldlM (mmFree layout) map = some after := by
  induction slots generalizing map with
  | nil => exact ⟨map, rfl⟩
  | cons slot slots ih =>
    obtain ⟨isData, data⟩ := forall_mem_cons.mp data
    obtain ⟨small, defined⟩ := forall_mem_cons.mp defined
    rw [foldlM_cons, mmFree_eq isData, addValue, if_pos small]
    exact ih data defined _

/-- After the batch the bits that are set in the bitmaps, which were zero, are those of
the freed subblocks. -/
def BitsOfFreed (overwritten : ℕ) (layout : Layout) (slots : List UInt64) : Prop :=
  ∃ map, mmFreeAll layout slots = some map ∧
    ∀ order : List Location, order.Perm map.keys → ∀ key, ∀ bit < 64,
      (freeBatch overwritten map order (fun _ => 0) key).getLsbD bit ↔
        ∃ slot ∈ slots, IsBitOf layout key bit slot

variable {overwritten : ℕ}

theorem Collected.target_eq (collected : Collected layout slots map)
    (kept : ∀ slot ∈ slots, 256 ^ overwritten ∣ (bmapKey layout slot).2) :
    ∀ key ∈ map.keys, target overwritten key = key := by
  intro key mem
  obtain ⟨slot, freed, rfl⟩ := collected.keys key mem
  exact target_eq_iff.mpr (kept slot freed)

/-- A word to which nothing is added lacks the bit of the freed subblock. -/
theorem dvd_of_bitsOfFreed (data : ∀ slot ∈ slots, IsDataSubblock layout slot)
    (exact : BitsOfFreed overwritten layout slots) (mem : slot ∈ slots) :
    256 ^ overwritten ∣ (bmapKey layout slot).2 := by
  obtain ⟨map, -, exact⟩ := exact
  by_contra low
  have isBit := (isBitOf_iff (data slot mem) _ _).mpr ⟨rfl, rfl⟩
  have set := (exact map.keys (.refl _) _ _ (Nat.mod_lt _ (by decide))).mpr ⟨slot, mem, isBit⟩
  rw [freeBatch_of_not_dvd map _ low] at set
  simp at set

theorem bitsOfFreed_iff_subblockId (data : ∀ slot ∈ slots, IsDataSubblock layout slot)
    (distinct : (slots.map location).Nodup) :
    BitsOfFreed overwritten layout slots ↔ ∀ slot ∈ slots, subblockId layout slot % 64 < 31 ∧
      256 ^ overwritten ∣ (bmapKey layout slot).2 := by
  constructor
  · intro bits
    have kept : ∀ slot ∈ slots, 256 ^ overwritten ∣ (bmapKey layout slot).2 :=
      fun _ => dvd_of_bitsOfFreed data bits
    obtain ⟨map, freed, exact⟩ := bits
    intro slot mem
    refine ⟨?_, kept slot mem⟩
    have collected := collected_of_mmFreeAll data distinct freed
    by_contra large
    have small := collected.defined slot mem
    have last : subblockId layout slot % 64 = 31 := by omega
    -- the sign of the shifted 1 has set bit 32, which is the bit of no freed subblock
    have set : (map.value (bmapKey layout slot)).getLsbD 32 :=
      (collected.bits _ 32 (by decide)).mpr ⟨slot, mem, rfl, .inr ⟨last, by decide⟩⟩
    rw [← freeBatch_zero collected.proper (collected.target_eq kept) (.refl _)] at set
    obtain ⟨other, otherListed, isBit⟩ := (exact _ (.refl _) _ 32 (by decide)).mp set
    have count := ((isBitOf_iff (data other otherListed) _ _).mp isBit).2
    have otherSmall := collected.defined other otherListed
    omega
  · intro low
    obtain ⟨map, freed⟩ := exists_foldlM data
      (fun slot mem => (low slot mem).1.trans (by decide)) FreeFaaMap.empty
    refine ⟨map, freed, fun order perm key bit bound => ?_⟩
    have collected := collected_of_mmFreeAll data distinct freed
    have kept := collected.target_eq fun slot mem => (low slot mem).2
    rw [freeBatch_zero collected.proper kept perm, collected.bits key bit bound]
    refine exists_congr fun slot => and_congr_right fun mem => ?_
    rw [isBitOf_iff (data slot mem)]
    have small := (low slot mem).1
    unfold AddedBit
    grind

def HasIndex (layout : Layout) (origSlotVal : UInt64) (block index : ℕ) : Prop :=
  layout.mmBlockSz ∣ block ∧ index < layout.subblockNum ∧
    rKvAddr origSlotVal = block + index * layout.subblockSz

theorem hasIndex_iff (isData : IsDataSubblock layout slot) (block index : ℕ) :
    HasIndex layout slot block index ↔
      block = blockRaddr layout slot ∧ index = subblockId layout slot := by
  constructor
  · rintro ⟨multiple, bound, addr⟩
    obtain ⟨same, base⟩ := subblockId_eq multiple bound addr
    exact ⟨base.symm, same.symm⟩
  · rintro ⟨rfl, rfl⟩
    obtain ⟨_, _, multiple, -, bound, addr⟩ := isData
    obtain ⟨same, base⟩ := subblockId_eq multiple bound addr
    rw [same, base]
    exact ⟨multiple, bound, addr⟩

/-- A subblock whose bit is one of the upper 33 of its word is freed wrongly or
not at all, and the bit of one whose word has an address with low bytes that are
overwritten goes to another word. -/
theorem bitsOfFreed_iff (data : ∀ slot ∈ slots, IsDataSubblock layout slot)
    (distinct : (slots.map location).Nodup) :
    BitsOfFreed overwritten layout slots ↔
      ∀ slot ∈ slots, ∀ block index, HasIndex layout slot block index →
        index % 64 ≤ 30 ∧ 256 ^ overwritten ∣ block + index / 64 * 8 := by
  apply (bitsOfFreed_iff_subblockId data distinct).trans
  refine forall₂_congr fun slot mem => ?_
  simp only [hasIndex_iff (data slot mem), Nat.lt_succ_iff]
  constructor
  · rintro low _ _ ⟨rfl, rfl⟩
    exact low
  · intro low
    exact low _ _ ⟨rfl, rfl⟩

end Collected

/-! ## Blocks of 128 subblocks

`target_sid` lies directly below `target_addr`. -/

def twoWordLayout : Layout where
  numMemory := 1
  mmBlockSz := 32768
  subblockSz := 256
  subblockSz_aligned := ChainSystem.smallLayout.subblockSz_aligned
  subblockSz_pos := ChainSystem.smallLayout.subblockSz_pos
  subblockNum_lt := by decide

def twoWordSlot (index : ℕ) : UInt64 :=
  convertSlotToInt ⟨1, 1, 0, hashIndexConvert64To40Bits (0x18000000 + index * 256)⟩

theorem isDataSubblock_twoWordSlot {index : ℕ} (data : 1 ≤ index) (bound : index < 128)
    (addr : rKvAddr (twoWordSlot index) = 0x18000000 + index * 256) :
    IsDataSubblock twoWordLayout (twoWordSlot index) :=
  ⟨0x18000000, index, by decide, data, bound, addr⟩

theorem bitsOfFreed_iff_twoWord : BitsOfFreed 3 twoWordLayout ([30, 7].map twoWordSlot) := by
  have data : ∀ slot ∈ [30, 7].map twoWordSlot, IsDataSubblock twoWordLayout slot := by
    refine forall_mem_cons.mpr ⟨?_, forall_mem_singleton.mpr ?_⟩
    · exact isDataSubblock_twoWordSlot (by decide) (by decide) (by decide +kernel)
    · exact isDataSubblock_twoWordSlot (by decide) (by decide) (by decide +kernel)
  apply (bitsOfFreed_iff data (by decide +kernel)).mpr
  intro slot mem block index hasIndex
  obtain ⟨rfl, rfl⟩ := (hasIndex_iff (data slot mem) block index).mp hasIndex
  obtain ⟨index, mem, rfl⟩ := List.mem_map.mp mem
  clear hasIndex
  revert index
  decide +kernel

/-- Subblock 31 sets all the upper bits, and subblock 74 sets the bit of
subblock 10. -/
theorem not_bitsOfFreed_signBit :
    (∀ index ∈ [31, 74], IsDataSubblock twoWordLayout (twoWordSlot index) ∧
      ¬ BitsOfFreed 3 twoWordLayout [twoWordSlot index]) ∧
    (mmFreeAll twoWordLayout [twoWordSlot 31]).map (fun map =>
      freeBatch 3 map map.keys (fun _ => 0) (0, 0x18000000)) = some 0xFFFFFFFF80000000#64 ∧
    (mmFreeAll twoWordLayout [twoWordSlot 74]).map (fun map =>
      freeBatch 3 map map.keys (fun _ => 0) (0, 0x18000000)) = some 0x400#64 := by
  refine ⟨fun index mem => ?_, by decide +kernel, by decide +kernel⟩
  have isData : IsDataSubblock twoWordLayout (twoWordSlot index) := by
    revert index
    refine forall_mem_cons.mpr ⟨?_, forall_mem_singleton.mpr ?_⟩
    · exact isDataSubblock_twoWordSlot (by decide) (by decide) (by decide +kernel)
    · exact isDataSubblock_twoWordSlot (by decide) (by decide) (by decide +kernel)
  refine ⟨isData, fun exact => ?_⟩
  have low := (bitsOfFreed_iff_subblockId (forall_mem_singleton.mpr isData)
    (nodup_singleton _)).mp exact _ mem_cons_self
  clear isData exact
  revert index
  decide +kernel

end FuseeFs.Memory.FreeBitmap
