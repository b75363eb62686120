import FuseeFs.Library.Numerals
import FuseeFs.Library.Packed

/-!
# Slots and buckets of the hash index

A key is looked up in four buckets of seven slots each, two neighbouring ones
for each of its two hash values.  A slot is a packed structure of eight bytes
that is compared and swapped as one 64-bit word (`ConvertSlotToInt`).
-/

namespace FuseeFs.Index

open List Option Library.Packed

structure RaceHashSlot where
  fp : UInt8
  kvLen : UInt8
  serverId : UInt8
  /-- The bits 8 to 47 of an address, highest byte first. -/
  pointer : List UInt8
deriving DecidableEq, Repr

def raceHashSlot (word : UInt64) : RaceHashSlot :=
  let bytes := toBytes 8 word.toNat
  ⟨bytes.getD 0 0, bytes.getD 1 0, bytes.getD 2 0, bytes.drop 3⟩

def convertSlotToInt (slot : RaceHashSlot) : UInt64 :=
  UInt64.ofNat (ofBytes (slot.fp :: slot.kvLen :: slot.serverId :: slot.pointer))

def hashIndexConvert64To40Bits (addr : ℕ) : List UInt8 :=
  (toBytes 5 (addr / 256)).reverse

def hashIndexConvert40To64Bits (pointer : List UInt8) : ℕ :=
  256 * ofBytes pointer.reverse

theorem raceHashSlot_convertSlotToInt {slot : RaceHashSlot} (width : slot.pointer.length = 5) :
    raceHashSlot (convertSlotToInt slot) = slot := by
  have length : (slot.fp :: slot.kvLen :: slot.serverId :: slot.pointer).length = 8 := by
    simp [width]
  have word : (convertSlotToInt slot).toNat =
      ofBytes (slot.fp :: slot.kvLen :: slot.serverId :: slot.pointer) := by
    have bound := ofBytes_lt (slot.fp :: slot.kvLen :: slot.serverId :: slot.pointer)
    rw [length] at bound
    exact UInt64.toNat_ofNat_of_lt bound
  have bytes := toBytes_ofBytes (slot.fp :: slot.kvLen :: slot.serverId :: slot.pointer)
  rw [length] at bytes
  simp [raceHashSlot, word, bytes]

theorem convertSlotToInt_raceHashSlot (word : UInt64) :
    convertSlotToInt (raceHashSlot word) = word := by
  have number : ofBytes (toBytes 8 word.toNat) = word.toNat := by
    rw [ofBytes_toBytes_eq_mod]
    exact Nat.mod_eq_of_lt word.toNat_lt
  exact (congrArg UInt64.ofNat number).trans (UInt64.ofNat_toNat ..)

theorem hashIndexConvert64To40Bits_40To64 {pointer : List UInt8} (size : pointer.length = 5) :
    hashIndexConvert64To40Bits (hashIndexConvert40To64Bits pointer) = pointer := by
  have restored := toBytes_ofBytes pointer.reverse
  rw [length_reverse, size] at restored
  rw [hashIndexConvert64To40Bits, hashIndexConvert40To64Bits,
    Nat.mul_div_cancel_left _ (by decide), restored, reverse_reverse]

theorem hashIndexConvert40To64Bits_eq (addr : ℕ) :
    hashIndexConvert40To64Bits (hashIndexConvert64To40Bits addr) = 256 * (addr / 256 % 256 ^ 5) := by
  rw [hashIndexConvert40To64Bits, hashIndexConvert64To40Bits, reverse_reverse,
    ofBytes_toBytes_eq_mod]

/-- An address survives the 40-bit pointer if it is that of a subblock: a
multiple of 256 that fits 48 bits. -/
theorem hashIndexConvert40To64Bits_64To40 {addr : ℕ} (aligned : 256 ∣ addr) (bound : addr < 2 ^ 48) :
    hashIndexConvert40To64Bits (hashIndexConvert64To40Bits addr) = addr := by
  have fits : addr / 256 < 256 ^ 5 := by omega
  rw [hashIndexConvert40To64Bits_eq, Nat.mod_eq_of_lt fits]
  exact Nat.mul_div_cancel' aligned

/-- The test of `GetFreeSlotNum`, which does not look at `server_id`. -/
def isFree (word : UInt64) : Bool :=
  let slot := raceHashSlot word
  slot.fp = 0 ∧ slot.kvLen = 0 ∧ slot.pointer.all (· = 0)

/-- The test of `find_kv_in_buckets`. -/
def isCandidate (fp : UInt8) (word : UInt64) : Bool :=
  (raceHashSlot word).fp = fp ∧ (raceHashSlot word).kvLen ≠ 0

theorem not_isCandidate_of_isFree {fp : UInt8} {word : UInt64} (free : isFree word) :
    ¬ isCandidate fp word := by
  have empty := (of_decide_eq_true free).2.1
  simp [isCandidate, empty]

theorem ne_zero_of_isCandidate {fp : UInt8} {word : UInt64} (candidate : isCandidate fp word) :
    word ≠ 0 := by
  rintro rfl
  exact (of_decide_eq_true candidate).2 (by decide)

/-- The memory that was allocated for a log entry: subblocks of 256 bytes at
48-bit addresses. -/
structure ClientMMAllocCtx where
  numSubblocks : UInt8
  serverId : UInt8
  addr : ℕ
  numSubblocks_ne_zero : numSubblocks ≠ 0
  addr_aligned : 256 ∣ addr
  addr_lt : addr < 2 ^ 48
deriving DecidableEq

theorem one_subblock_ne_zero : (1 : UInt8) ≠ 0 := by
  decide

def sampleAlloc (subblock : Fin 16) : ClientMMAllocCtx where
  numSubblocks := 1
  serverId := 0
  addr := 256 * subblock
  numSubblocks_ne_zero := one_subblock_ne_zero
  addr_aligned := Nat.dvd_mul_right 256 subblock
  addr_lt := by omega

/-- The word of the slot that `fill_slot` points at allocated memory. -/
def fillSlot (mmAllocCtx : ClientMMAllocCtx) (fp : UInt8) : UInt64 :=
  convertSlotToInt
    { fp := fp
      kvLen := mmAllocCtx.numSubblocks
      serverId := mmAllocCtx.serverId
      pointer := hashIndexConvert64To40Bits mmAllocCtx.addr }

def rKvAddr (word : UInt64) : ℕ :=
  hashIndexConvert40To64Bits (raceHashSlot word).pointer

theorem length_pointer (word : UInt64) : (raceHashSlot word).pointer.length = 5 := by
  simp [raceHashSlot]

/-- The memory of a server that a `KVRWAddr` stands for. -/
structure RemoteAddr where
  serverId : UInt8
  rKvAddr : UInt64
  length : UInt32
deriving DecidableEq, Repr

namespace RemoteAddr

def zero : RemoteAddr := ⟨0, 0, 0⟩

/-- `r_kv_addr | server_id` -/
def target (addr : RemoteAddr) : ℕ :=
  addr.rKvAddr.toNat ||| addr.serverId.toNat

end RemoteAddr

structure KVRWAddr extends RemoteAddr where
  lKvAddr : UInt64
  rkey : UInt32
  lkey : UInt32
deriving DecidableEq, Repr

theorem rKvAddr_lt (word : UInt64) : rKvAddr word < 2 ^ 48 := by
  have bound := ofBytes_lt (raceHashSlot word).pointer.reverse
  rw [length_reverse, length_pointer] at bound
  rw [rKvAddr, hashIndexConvert40To64Bits]
  omega

section FillSlot

variable (mmAllocCtx : ClientMMAllocCtx) (fp : UInt8)

theorem raceHashSlot_fillSlot :
    raceHashSlot (fillSlot mmAllocCtx fp) =
      { fp := fp
        kvLen := mmAllocCtx.numSubblocks
        serverId := mmAllocCtx.serverId
        pointer := hashIndexConvert64To40Bits mmAllocCtx.addr } :=
  raceHashSlot_convertSlotToInt (by simp [hashIndexConvert64To40Bits])

@[simp]
theorem isCandidate_fillSlot : isCandidate fp (fillSlot mmAllocCtx fp) := by
  simp [isCandidate, raceHashSlot_fillSlot, mmAllocCtx.numSubblocks_ne_zero]

@[simp]
theorem rKvAddr_fillSlot : rKvAddr (fillSlot mmAllocCtx fp) = mmAllocCtx.addr := by
  rw [rKvAddr, raceHashSlot_fillSlot]
  exact hashIndexConvert40To64Bits_64To40 mmAllocCtx.addr_aligned mmAllocCtx.addr_lt

end FillSlot

abbrev Position := Fin 4 × Fin 7

abbrev Buckets := Position → UInt64

def casSlot (buckets : Buckets) (pos : Position) (origValue swapValue : UInt64) : Buckets :=
  if buckets pos = origValue then Function.update buckets pos swapValue else buckets

variable {buckets : Buckets} {pos : Position}

theorem casSlot_of_eq {origValue swapValue : UInt64} (expected : buckets pos = origValue) :
    casSlot buckets pos origValue swapValue = Function.update buckets pos swapValue :=
  if_pos expected

theorem casSlot_of_ne {origValue swapValue : UInt64} (changed : buckets pos ≠ origValue) :
    casSlot buckets pos origValue swapValue = buckets :=
  if_neg changed

def positions : List Position :=
  (List.finRange 4).flatMap fun bucket => (List.finRange 7).map fun slot => (bucket, slot)

@[simp]
theorem mem_positions (pos : Position) : pos ∈ positions := by
  simp [positions]

theorem filter_positions (pos : Position) : positions.filter (· = pos) = [pos] := by
  have each : ∀ (bucket : Fin 4) (slot : Fin 7),
      positions.filter (· = (bucket, slot)) = [(bucket, slot)] := by decide
  exact each pos.1 pos.2

def countFreeSlot (buckets : Buckets) (bucket : Fin 4) (free : ℕ × Option (Fin 7)) (slot : Fin 7) :
    ℕ × Option (Fin 7) :=
  if isFree (buckets (bucket, slot)) then (free.1 + 1, some slot) else free

/-- `GetFreeSlotNum`: the number of free slots of a bucket, and the last of them. -/
def getFreeSlotNum (buckets : Buckets) (bucket : Fin 4) : ℕ × Option (Fin 7) :=
  (List.finRange 7).foldl (countFreeSlot buckets bucket) (0, none)

def findEmptySlotRound (buckets : Buckets) (fMainIdx sMainIdx : Fin 2) (found : Option Position) :
    Option Position :=
  let fBucket : Fin 4 := fMainIdx.castAdd 2
  let sBucket : Fin 4 := sMainIdx.natAdd 2
  let (fFreeNum, fFreeSlotIdx) := getFreeSlotNum buckets fBucket
  let (sFreeNum, sFreeSlotIdx) := getFreeSlotNum buckets sBucket
  if fFreeNum > 0 ∨ sFreeNum > 0 then
    if fFreeNum ≥ sFreeNum then fFreeSlotIdx.map (fBucket, ·)
    else sFreeSlotIdx.map (sBucket, ·)
  else found

/-- `find_empty_slot`: a second round looks at the other bucket of each pair
and overrides the first. -/
def findEmptySlot (buckets : Buckets) (fMainIdx sMainIdx : Fin 2) : Option Position :=
  findEmptySlotRound buckets (fMainIdx + 1) (sMainIdx + 1)
    (findEmptySlotRound buckets fMainIdx sMainIdx none)

theorem isFree_of_getFreeSlotNum {bucket : Fin 4} {slot : Fin 7}
    (found : (getFreeSlotNum buckets bucket).2 = some slot) : isFree (buckets (bucket, slot)) := by
  -- the accumulated index is always that of a free slot
  have invariant : ∀ slot, (getFreeSlotNum buckets bucket).2 = some slot →
      isFree (buckets (bucket, slot)) := by
    apply List.foldlRecOn (List.finRange 7) (countFreeSlot buckets bucket)
      (motive := fun free => ∀ slot, free.2 = some slot → isFree (buckets (bucket, slot)))
    · simp
    · intro free ih slot _ last result
      unfold countFreeSlot at result
      split_ifs at result with current
      · rw [← some.inj result]
        exact current
      · exact ih last result
  exact invariant slot found

theorem isFree_of_findEmptySlotRound {fMainIdx sMainIdx : Fin 2} {found : Option Position}
    (free : ∀ pos, found = some pos → isFree (buckets pos))
    (result : findEmptySlotRound buckets fMainIdx sMainIdx found = some pos) :
    isFree (buckets pos) := by
  simp only [findEmptySlotRound] at result
  split_ifs at result
  · obtain ⟨slot, last, rfl⟩ := map_eq_some_iff.mp result
    exact isFree_of_getFreeSlotNum last
  · obtain ⟨_, last, rfl⟩ := map_eq_some_iff.mp result
    exact isFree_of_getFreeSlotNum last
  · exact free pos result

theorem isFree_of_findEmptySlot {fMainIdx sMainIdx : Fin 2}
    (found : findEmptySlot buckets fMainIdx sMainIdx = some pos) : isFree (buckets pos) :=
  isFree_of_findEmptySlotRound (fun _ => isFree_of_findEmptySlotRound (by simp)) found

theorem getFreeSlotNum_iff (buckets : Buckets) (bucket : Fin 4) :
    (0 < (getFreeSlotNum buckets bucket).1 ↔ ∃ slot, isFree (buckets (bucket, slot))) ∧
      ((getFreeSlotNum buckets bucket).2.isSome ↔ ∃ slot, isFree (buckets (bucket, slot))) := by
  -- the loop may begin with any slots already counted
  have counted : ∀ (slots : List (Fin 7)) (free : ℕ × Option (Fin 7)),
      (0 < (slots.foldl (countFreeSlot buckets bucket) free).1 ↔
        0 < free.1 ∨ ∃ slot ∈ slots, isFree (buckets (bucket, slot))) ∧
      ((slots.foldl (countFreeSlot buckets bucket) free).2.isSome ↔
        free.2.isSome ∨ ∃ slot ∈ slots, isFree (buckets (bucket, slot))) := by
    intro slots
    induction slots with
    | nil => simp
    | cons slot slots ih =>
      intro free
      rw [foldl_cons, (ih _).1, (ih _).2, countFreeSlot]
      split_ifs with current <;> simp [current]
  simpa [getFreeSlotNum] using counted (List.finRange 7) (0, none)

theorem findEmptySlotRound_eq_none_iff (buckets : Buckets) (fMainIdx sMainIdx : Fin 2)
    (found : Option Position) :
    findEmptySlotRound buckets fMainIdx sMainIdx found = none ↔
      found = none ∧ (∀ slot, ¬ isFree (buckets (fMainIdx.castAdd 2, slot))) ∧
        ∀ slot, ¬ isFree (buckets (sMainIdx.natAdd 2, slot)) := by
  obtain ⟨fCount, fLast⟩ := getFreeSlotNum_iff buckets (fMainIdx.castAdd 2)
  obtain ⟨sCount, sLast⟩ := getFreeSlotNum_iff buckets (sMainIdx.natAdd 2)
  rw [← not_exists, ← not_exists, ← fCount, ← sCount]
  rw [← fCount] at fLast
  rw [← sCount] at sLast
  simp only [findEmptySlotRound]
  split_ifs with any more
  · have some := fLast.mpr (by omega)
    rw [map_eq_none_iff, ← not_isSome_iff_eq_none]
    constructor
    · exact fun empty => absurd some empty
    · intro empty
      omega
  · have some := sLast.mpr (by omega)
    rw [map_eq_none_iff, ← not_isSome_iff_eq_none]
    constructor
    · exact fun empty => absurd some empty
    · intro empty
      omega
  · exact ⟨fun none => ⟨none, fun free => any (.inl free), fun free => any (.inr free)⟩, And.left⟩

theorem findEmptySlot_eq_none_iff (buckets : Buckets) (fMainIdx sMainIdx : Fin 2) :
    findEmptySlot buckets fMainIdx sMainIdx = none ↔ ∀ pos, ¬ isFree (buckets pos) := by
  have covered : ∀ (fMainIdx sMainIdx : Fin 2) (bucket : Fin 4),
      bucket = fMainIdx.castAdd 2 ∨ bucket = (fMainIdx + 1).castAdd 2 ∨
        bucket = sMainIdx.natAdd 2 ∨ bucket = (sMainIdx + 1).natAdd 2 := by decide
  rw [findEmptySlot, findEmptySlotRound_eq_none_iff, findEmptySlotRound_eq_none_iff]
  constructor
  · rintro ⟨⟨-, fMain, sMain⟩, fOther, sOther⟩ ⟨bucket, slot⟩
    obtain rfl | rfl | rfl | rfl := covered fMainIdx sMainIdx bucket
    · exact fMain slot
    · exact fOther slot
    · exact sMain slot
    · exact sOther slot
  · intro full
    exact ⟨⟨rfl, fun slot => full (_, slot), fun slot => full (_, slot)⟩,
      fun slot => full (_, slot), fun slot => full (_, slot)⟩

/-- `kv_idx_list` after `find_kv_in_buckets`. -/
def findKvInBuckets (fp : UInt8) (buckets : Buckets) : List Position :=
  positions.filter fun pos => isCandidate fp (buckets pos)

@[simp]
theorem mem_findKvInBuckets (fp : UInt8) (buckets : Buckets) (pos : Position) :
    pos ∈ findKvInBuckets fp buckets ↔ isCandidate fp (buckets pos) := by
  simp [findKvInBuckets]

end FuseeFs.Index
