import FuseeFs.Index.Buckets

/-!
# The search for a free slot in the local buffer

The four buckets of a key are read into a local buffer, the two of the first
index value in front of the two of the second.  `find_empty_slot` finds a bucket
by its pointer, but it gives a number as the result; later phases look this number
up in `slot_arr`, which `get_local_bucket_info` has filled.  Slots and pointers are
as in the source here, and the search over `Buckets` is what it amounts to.
-/

namespace FuseeFs.Index.FreeSlots

abbrev Slots := Fin 7 → UInt64

abbrev BucketMemory := ℕ → Slots

structure LocalBucketInfo where
  fComBucket : ℕ
  sComBucket : ℕ
  slotArr : List Slots

def getLocalBucketInfo (memory : BucketMemory) (localBucketAddr : ℕ) : LocalBucketInfo :=
  let fComBucket := localBucketAddr
  let sComBucket := localBucketAddr + 2
  { fComBucket := fComBucket
    sComBucket := sComBucket
    slotArr := [memory fComBucket, memory (fComBucket + 1), memory sComBucket,
      memory (sComBucket + 1)] }

def isEmptyPointer (pointer : List UInt8) (num : ℕ) : Bool :=
  (pointer.take num).all (· = 0)

/-- A slot counts as free whatever its server is. -/
def isFreeSlot (slot : RaceHashSlot) : Bool :=
  slot.fp = 0 && slot.kvLen = 0 && isEmptyPointer slot.pointer 5

def countFree (slots : Slots) (free : ℕ × ℕ) (slot : Fin 7) : ℕ × ℕ :=
  if isFreeSlot (raceHashSlot (slots slot)) then (free.1 + 1, slot) else free

/-- `GetFreeSlotNum`: the number of free slots and the index of the last one,
which is `RACE_HASH_ASSOC_NUM` if there is none. -/
def getFreeSlotNum (slots : Slots) : ℕ × ℕ :=
  (List.finRange 7).foldl (countFree slots) (0, 7)

/-- The variables of `find_empty_slot` that live through its loop. -/
structure Search where
  fMainIdx : ℕ
  sMainIdx : ℕ
  bucketIdx : ℤ
  slotIdx : ℤ

def Search.round (memory : BucketMemory) (info : LocalBucketInfo) (search : Search) : Search :=
  let (fFreeNum, fFreeSlotIdx) := getFreeSlotNum (memory (info.fComBucket + search.fMainIdx))
  let (sFreeNum, sFreeSlotIdx) := getFreeSlotNum (memory (info.sComBucket + search.sMainIdx))
  let (bucketIdx, slotIdx) : ℤ × ℤ :=
    if fFreeNum > 0 ∨ sFreeNum > 0 then
      if fFreeNum ≥ sFreeNum then (search.fMainIdx, fFreeSlotIdx)
      else (2 + search.sMainIdx, sFreeSlotIdx)
    else (search.bucketIdx, search.slotIdx)
  { fMainIdx := (search.fMainIdx + 1) % 2
    sMainIdx := (search.sMainIdx + 1) % 2
    bucketIdx := bucketIdx
    slotIdx := slotIdx }

/-- `find_empty_slot`, with `bucket_idx` and `slot_idx` as the result. -/
def findEmptySlot (memory : BucketMemory) (localBucketAddr : ℕ) (fMainIdx sMainIdx : Fin 2) :
    ℤ × ℤ :=
  let info := getLocalBucketInfo memory localBucketAddr
  let search := ((⟨fMainIdx, sMainIdx, -1, -1⟩ : Search).round memory info).round memory info
  (search.bucketIdx, search.slotIdx)

def bucketsAt (memory : BucketMemory) (localBucketAddr : ℕ) : Buckets := fun pos =>
  memory (localBucketAddr + pos.1) pos.2

def coordinates : Option Position → ℤ × ℤ
  | none => (-1, -1)
  | some (bucket, slot) => (bucket, slot)

def slotNumber (free : ℕ × Option (Fin 7)) : ℕ × ℕ :=
  (free.1, free.2.elim 7 Fin.val)

theorem isFreeSlot_eq (word : UInt64) : isFreeSlot (raceHashSlot word) = isFree word := by
  have whole : (raceHashSlot word).pointer.take 5 = (raceHashSlot word).pointer :=
    List.take_of_length_le (by simp [raceHashSlot])
  rw [Bool.eq_iff_iff]
  simp [isFreeSlot, isFree, isEmptyPointer, whole, and_assoc]

section Search

variable (memory : BucketMemory) (localBucketAddr : ℕ)

theorem getFreeSlotNum_eq (bucket : Fin 4) :
    getFreeSlotNum (memory (localBucketAddr + bucket)) =
      slotNumber (Index.getFreeSlotNum (bucketsAt memory localBucketAddr) bucket) := by
  have step : ∀ free slot, countFree (memory (localBucketAddr + bucket)) (slotNumber free) slot =
      slotNumber (countFreeSlot (bucketsAt memory localBucketAddr) bucket free slot) := by
    intro free slot
    rw [countFree, isFreeSlot_eq, countFreeSlot, bucketsAt]
    split_ifs
    · rfl
    · rfl
  exact (List.foldl_hom slotNumber step :
    (List.finRange 7).foldl _ (slotNumber (0, none)) = slotNumber _)

theorem exists_last_of_pos {buckets : Buckets} {bucket : Fin 4}
    (positive : 0 < (Index.getFreeSlotNum buckets bucket).1) :
    ∃ slot, (Index.getFreeSlotNum buckets bucket).2 = some slot := by
  obtain ⟨count, last⟩ := getFreeSlotNum_iff buckets bucket
  exact Option.isSome_iff_exists.mp (last.mpr (count.mp positive))

theorem round_eq {fMainIdx sMainIdx : Fin 2} {found : Option Position} {search : Search}
    (fMain : search.fMainIdx = fMainIdx) (sMain : search.sMainIdx = sMainIdx)
    (current : (search.bucketIdx, search.slotIdx) = coordinates found) :
    let next := search.round memory (getLocalBucketInfo memory localBucketAddr)
    next.fMainIdx = (fMainIdx + 1 : Fin 2) ∧ next.sMainIdx = (sMainIdx + 1 : Fin 2) ∧
      (next.bucketIdx, next.slotIdx) = coordinates (findEmptySlotRound
        (bucketsAt memory localBucketAddr) fMainIdx sMainIdx found) := by
  have fBucket : getFreeSlotNum (memory (localBucketAddr + search.fMainIdx)) = slotNumber
      (Index.getFreeSlotNum (bucketsAt memory localBucketAddr) (fMainIdx.castAdd 2)) := by
    rw [fMain]
    exact getFreeSlotNum_eq memory localBucketAddr (fMainIdx.castAdd 2)
  have sBucket : getFreeSlotNum (memory (localBucketAddr + 2 + search.sMainIdx)) = slotNumber
      (Index.getFreeSlotNum (bucketsAt memory localBucketAddr) (sMainIdx.natAdd 2)) := by
    rw [sMain, Nat.add_assoc]
    exact getFreeSlotNum_eq memory localBucketAddr (sMainIdx.natAdd 2)
  dsimp only
  refine ⟨?_, ?_, ?_⟩
  · rw [Search.round, fMain]
    rfl
  · rw [Search.round, sMain]
    rfl
  · simp only [Search.round, getLocalBucketInfo, fBucket, sBucket, slotNumber, findEmptySlotRound]
    split_ifs with any more
    · obtain ⟨slot, last⟩ := @exists_last_of_pos (bucketsAt memory localBucketAddr)
        (fMainIdx.castAdd 2) (by omega)
      rw [last, fMain]
      rfl
    · obtain ⟨_, last⟩ := @exists_last_of_pos (bucketsAt memory localBucketAddr)
        (sMainIdx.natAdd 2) (by omega)
      rw [last, sMain]
      simp [coordinates, add_comm]
    · exact current

theorem findEmptySlot_eq (fMainIdx sMainIdx : Fin 2) :
    findEmptySlot memory localBucketAddr fMainIdx sMainIdx =
      coordinates (Index.findEmptySlot (bucketsAt memory localBucketAddr) fMainIdx sMainIdx) := by
  obtain ⟨fMain, sMain, found⟩ := @round_eq memory localBucketAddr fMainIdx sMainIdx none
    ⟨fMainIdx, sMainIdx, -1, -1⟩ rfl rfl rfl
  exact (round_eq memory localBucketAddr fMain sMain found).2.2

end Search

/-- The result of a search in the four buckets that were read: two numbers that
find a free slot by way of `slot_arr`, or -1 twice if there is no free slot. -/
structure FindsFreeSlot (slotArr : List Slots) (result : ℤ × ℤ) : Prop where
  none_iff : result = (-1, -1) ↔ ∀ slots ∈ slotArr, ∀ slot, ¬ isFree (slots slot)
  found : result = (-1, -1) ∨ ∃ (bucketIdx : ℕ) (slots : Slots) (slotIdx : Fin 7),
    result = (↑bucketIdx, ↑slotIdx.val) ∧ slotArr[bucketIdx]? = some slots ∧ isFree (slots slotIdx)

section Sound

variable (memory : BucketMemory) (localBucketAddr : ℕ)

theorem slotArr_eq : (getLocalBucketInfo memory localBucketAddr).slotArr =
    (List.finRange 4).map fun bucket : Fin 4 => memory (localBucketAddr + bucket) :=
  rfl

theorem forall_slotArr : (∀ slots ∈ (getLocalBucketInfo memory localBucketAddr).slotArr, ∀ slot,
      ¬ isFree (slots slot)) ↔ ∀ pos, ¬ isFree (bucketsAt memory localBucketAddr pos) := by
  simp only [slotArr_eq, List.forall_mem_map, List.mem_finRange, true_imp_iff, Prod.forall, bucketsAt]

/-- `find_empty_slot` finds a free slot of the four buckets if there is one. -/
theorem findEmptySlot_finds (fMainIdx sMainIdx : Fin 2) :
    FindsFreeSlot (getLocalBucketInfo memory localBucketAddr).slotArr
      (findEmptySlot memory localBucketAddr fMainIdx sMainIdx) := by
  have full := findEmptySlot_eq_none_iff (bucketsAt memory localBucketAddr) fMainIdx sMainIdx
  rw [← forall_slotArr] at full
  rw [findEmptySlot_eq]
  cases found : Index.findEmptySlot (bucketsAt memory localBucketAddr) fMainIdx sMainIdx with
  | none => exact ⟨⟨fun _ => full.mp found, fun _ => rfl⟩, .inl rfl⟩
  | some pos =>
    obtain ⟨bucket, slot⟩ := pos
    have free := isFree_of_findEmptySlot found
    constructor
    · constructor
      · intro minus
        have negative : ((bucket : ℕ) : ℤ) = -1 := congrArg Prod.fst minus
        omega
      · intro none
        rw [full.mpr none] at found
        cases found
    · refine .inr ⟨bucket, memory (localBucketAddr + bucket), slot, rfl, ?_, free⟩
      rw [slotArr_eq]
      simp

end Sound

def oneFree : BucketMemory := fun bucket slot =>
  if bucket = 12 ∧ slot = 3 then 0 else 1

theorem findEmptySlot_finds_oneFree :
    findEmptySlot oneFree 10 1 0 = (2, 3) ∧
      FindsFreeSlot (getLocalBucketInfo oneFree 10).slotArr (findEmptySlot oneFree 10 1 0) :=
  ⟨by decide, findEmptySlot_finds oneFree 10 1 0⟩

end FuseeFs.Index.FreeSlots
