import FuseeFs.Client.Sync

/-!
# What is stored

The contents of a store are what lookups without the cache find in it.  This
module has the invariant that ties the replicas of the index and the key-value
pairs together, what makes an entry of a cache good, and what is left of both
when one slot gets a new word on all replicas.
-/

namespace FuseeFs.Client

open Function Index KeyValue

def PointsTo (pairs : Location → KVPair) (key : List UInt8) (word : UInt64) : Prop :=
  isCandidate (fingerprint key) word ∧ (pairs (location word)).key = key

instance (pairs : Location → KVPair) (key : List UInt8) (word : UInt64) :
    Decidable (PointsTo pairs key word) :=
  inferInstanceAs (Decidable (_ ∧ _))

theorem PointsTo.ne_zero {pairs : Location → KVPair} {key : List UInt8} {word : UInt64}
    (points : PointsTo pairs key word) : word ≠ 0 :=
  ne_zero_of_isCandidate points.1

section FindMatch

variable {buckets : Buckets} {pairs : Location → KVPair} {key : List UInt8} {pos : Position}

theorem pointsTo_of_findMatch (found : findMatch buckets pairs key = some pos) :
    PointsTo pairs key (buckets pos) := by
  have mem := List.mem_of_find?_eq_some found
  have same := List.find?_some found
  exact ⟨(mem_findKvInBuckets _ _ _).mp mem, of_decide_eq_true same⟩

theorem findMatch_eq_none_iff :
    findMatch buckets pairs key = none ↔ ∀ pos, ¬ PointsTo pairs key (buckets pos) := by
  simp [findMatch, PointsTo]

end FindMatch

abbrev Contents := List UInt8 → Option (List UInt8)

section Store

variable {k : ℕ} (conf : Conf)

def Store.slot (store : Store k) (key : List UInt8) (pos : Position) : UInt64 :=
  readBuckets conf.raceRoot store.words key pos

def Store.Finds (store : Store k) (key : List UInt8) (pos : Position) : Prop :=
  PointsTo store.pairs key (store.slot conf key pos)

def Store.contents (store : Store k) : Contents := fun key =>
  (findMatch (readBuckets conf.raceRoot store.words key) store.pairs key).map fun pos =>
    (store.pairs (location (store.slot conf key pos))).value

def Store.BucketsFull (store : Store k) (key : List UInt8) : Prop :=
  ∀ pos, ¬ isFree (store.slot conf key pos)

instance (store : Store k) (key : List UInt8) : Decidable (store.BucketsFull conf key) :=
  inferInstanceAs (Decidable (∀ _, _))

variable {conf} {store : Store k} {key : List UInt8} {pos : Position}

theorem Store.contents_eq_none_iff :
    store.contents conf key = none ↔ ∀ pos, ¬ store.Finds conf key pos := by
  rw [contents, Option.map_eq_none_iff, findMatch_eq_none_iff]
  rfl

theorem Store.contents_of_finds (finds : store.Finds conf key pos)
    (only : ∀ other, store.Finds conf key other → other = pos) :
    store.contents conf key = some (store.pairs (location (store.slot conf key pos))).value := by
  cases found : findMatch (readBuckets conf.raceRoot store.words key) store.pairs key with
  | none => exact absurd finds (findMatch_eq_none_iff.mp found pos)
  | some other =>
    obtain rfl := only other (pointsTo_of_findMatch found)
    rw [contents, found, Option.map_some]

end Store

/-- The copies of the subtables may overlap, but then in the same way on all
replicas: slots that share one of their copies share them all. -/
structure Coherent (raceRoot : RaceHashRoot) (k : ℕ) : Prop where
  distinct : ∀ key, Injective fun slot : Fin (k + 1) × Position =>
    raceRoot.slotAddr key slot.1 slot.2
  together : ∀ (key other : List UInt8) (pos otherPosition : Position)
    (replica otherReplica : Fin (k + 1)),
    raceRoot.slotAddr key replica pos = raceRoot.slotAddr other otherReplica otherPosition →
      ∀ copy : Fin (k + 1), ∃ otherCopy : Fin (k + 1),
        raceRoot.slotAddr key copy pos = raceRoot.slotAddr other otherCopy otherPosition

def Mirrored (raceRoot : RaceHashRoot) (k : ℕ) : Prop :=
  ∀ subtable < 32, ∀ replica : Fin (k + 1),
    (∀ other : Fin (k + 1),
      (raceRoot.subtableEntry subtable replica).place.2 =
          (raceRoot.subtableEntry subtable other).place.2 ∧
        ((raceRoot.subtableEntry subtable replica).place.1 =
          (raceRoot.subtableEntry subtable other).place.1 → replica = other)) ∧
    ∀ otherSubtable < 32, ∃ other : Fin (k + 1),
      (raceRoot.subtableEntry subtable replica).place.1 =
        (raceRoot.subtableEntry otherSubtable other).place.1

instance (raceRoot : RaceHashRoot) (k : ℕ) : Decidable (Mirrored raceRoot k) := by
  unfold Mirrored
  infer_instance

theorem Mirrored.coherent {raceRoot : RaceHashRoot} {k : ℕ} (mirrored : Mirrored raceRoot k) :
    Coherent raceRoot k := by
  have bound : ∀ key, (getKvHashInfo key).subtable < 32 := fun key => Nat.mod_lt _ (by decide)
  refine ⟨fun key => ?_, fun key other pos otherPosition replica otherReplica shared copy => ?_⟩
  · rintro ⟨replica, _⟩ ⟨otherReplica, _⟩ equal
    obtain rfl := ((mirrored _ (bound key) replica).1 otherReplica).2 (Prod.ext_iff.mp equal).1
    obtain rfl := raceRoot.slotAddr_injective key replica equal
    rfl
  · obtain ⟨otherCopy, server⟩ := (mirrored _ (bound key) copy).2 _ (bound other)
    refine ⟨otherCopy, Prod.ext server ?_⟩
    have address := congrArg Prod.snd shared
    simp only [RaceHashRoot.slotAddr] at address ⊢
    rw [((mirrored _ (bound key) copy).1 replica).1,
      ((mirrored _ (bound other) otherCopy).1 otherReplica).1, address]

section Invariant

variable {k : ℕ}

def install (words : Words) (places : Fin (k + 1) → Place) (word : UInt64) : Words :=
  fun place => if ∃ replica, places replica = place then word else words place

theorem install_of_mem (words : Words) (places : Fin (k + 1) → Place) (word : UInt64)
    (replica : Fin (k + 1)) : install words places word (places replica) = word :=
  if_pos ⟨replica, rfl⟩

theorem install_of_not_mem {words : Words} {places : Fin (k + 1) → Place} {word : UInt64}
    {place : Place} (apart : ∀ replica, places replica ≠ place) :
    install words places word place = words place :=
  if_neg fun ⟨replica, equal⟩ => apart replica equal

variable (conf : Conf)

/-- What a cache entry has refers to memory that is still allocated, and if it
points to a valid pair of the key, it is the word and the addresses of the key's
slot. -/
def EntryGood (store : Store k) (key : List UInt8) (lSlotPtr : UInt64)
    (rSlotAddr : Fin (k + 1) → ℕ) : Prop :=
  location lSlotPtr ∈ store.allocated ∧
    ((store.pairs (location lSlotPtr)).isValid → (store.pairs (location lSlotPtr)).key = key →
      ∃ pos, store.Finds conf key pos ∧ store.slot conf key pos = lSlotPtr ∧
        ∀ replica, rSlotAddr replica = (remoteSlotAddr conf key pos replica).2)

/-- The invariant of the memory that clients use. -/
structure Consistent (store : Store k) : Prop where
  replicas : ∀ key pos (replica : Fin (k + 1)),
    store.words (remoteSlotAddr conf key pos replica) = store.slot conf key pos
  allocated : ∀ key pos, store.slot conf key pos ≠ 0 →
    location (store.slot conf key pos) ∈ store.allocated
  unique : ∀ key pos other, store.Finds conf key pos → store.Finds conf key other → other = pos

/-- The slot of a key gets a new word on all replicas, and nothing that other
keys rely on changes. -/
structure Rewrites (store after : Store k) (key : List UInt8) (pos : Position)
    (word : UInt64) : Prop where
  words : after.words = install store.words (remoteSlotAddr conf key pos : Fin (k + 1) → Place) word
  /-- Pairs keep their keys and values, and do not become valid. -/
  pairs : ∀ place ∈ store.allocated, (after.pairs place).key = (store.pairs place).key ∧
    (after.pairs place).value = (store.pairs place).value ∧
    ((after.pairs place).isValid → (store.pairs place).isValid)
  replaced : ∀ other, other ≠ key → ¬ PointsTo store.pairs other (store.slot conf key pos)
  only : ∀ other, store.Finds conf key other → other = pos
  invalidated : store.Finds conf key pos →
    ¬ (after.pairs (location (store.slot conf key pos))).isValid
  allocated : store.allocated ⊆ after.allocated
  installed : word = 0 ∨ location word ∈ after.allocated ∧ PointsTo after.pairs key word

variable {conf} {store after : Store k} {key : List UInt8} {pos : Position} {word : UInt64}

namespace Rewrites

variable (rewrites : Rewrites conf store after key pos word)
include rewrites

theorem slot_self : after.slot conf key pos = word := by
  rw [Store.slot, readBuckets, rewrites.words]
  exact install_of_mem _ (remoteSlotAddr conf key pos) word 0

variable {other : List UInt8}

theorem slot_of_apart {otherPosition : Position}
    (apart : ∀ replica : Fin (k + 1), remoteSlotAddr conf key pos replica ≠
      conf.raceRoot.slotAddr other 0 otherPosition) :
    after.slot conf other otherPosition = store.slot conf other otherPosition := by
  rw [Store.slot, readBuckets, rewrites.words]
  exact install_of_not_mem apart

theorem slot_of_ne (layout : Coherent conf.raceRoot k) {other : Position} (apart : other ≠ pos) :
    after.slot conf key other = store.slot conf key other := by
  refine rewrites.slot_of_apart fun replica equal => apart ?_
  have same : (replica, pos) = ((0 : Fin (k + 1)), other) := layout.distinct key equal
  exact (congrArg Prod.snd same).symm

theorem finds_self_iff (layout : Coherent conf.raceRoot k) (consistent : Consistent conf store)
    (other : Position) : after.Finds conf key other ↔ other = pos ∧ word ≠ 0 := by
  constructor
  · intro finds
    by_cases same : other = pos
    · subst same
      exact ⟨rfl, rewrites.slot_self ▸ finds.ne_zero⟩
    · have kept := rewrites.slot_of_ne layout same
      have allocated := consistent.allocated key other (kept ▸ finds.ne_zero)
      refine absurd (rewrites.only other ?_) same
      rw [Store.Finds, PointsTo, kept] at finds
      exact ⟨finds.1, (rewrites.pairs _ allocated).1 ▸ finds.2⟩
  · rintro ⟨rfl, nonzero⟩
    rw [Store.Finds, rewrites.slot_self]
    exact (rewrites.installed.resolve_left nonzero).2

theorem finds_of_ne (consistent : Consistent conf store) (apart : other ≠ key)
    (otherPosition : Position) :
    (after.Finds conf other otherPosition ↔ store.Finds conf other otherPosition) ∧
      (store.Finds conf other otherPosition →
        after.slot conf other otherPosition = store.slot conf other otherPosition) := by
  by_cases shared : ∃ replica : Fin (k + 1), remoteSlotAddr conf key pos replica =
      conf.raceRoot.slotAddr other 0 otherPosition
  · -- the old and the new word of a shared slot belong to the rewritten key
    obtain ⟨replica, equal⟩ := shared
    have before : store.slot conf other otherPosition = store.slot conf key pos := by
      rw [← consistent.replicas key pos replica, equal]
      rfl
    have afterwards : after.slot conf other otherPosition = word := by
      rw [Store.slot, readBuckets, rewrites.words, ← equal]
      exact install_of_mem _ _ word replica
    have notBefore : ¬ store.Finds conf other otherPosition := by
      rw [Store.Finds, before]
      exact rewrites.replaced other apart
    have notAfter : ¬ after.Finds conf other otherPosition := by
      rw [Store.Finds, afterwards]
      intro points
      have own := (rewrites.installed.resolve_left points.ne_zero).2
      exact apart (points.2.symm.trans own.2)
    exact ⟨iff_of_false notAfter notBefore, fun finds => absurd finds notBefore⟩
  · have kept := rewrites.slot_of_apart fun replica equal => shared ⟨replica, equal⟩
    refine ⟨?_, fun _ => kept⟩
    rw [Store.Finds, Store.Finds, kept]
    refine and_congr_right fun candidate => ?_
    have allocated := consistent.allocated other otherPosition (ne_zero_of_isCandidate candidate)
    rw [(rewrites.pairs _ allocated).1]

theorem contents_eq (layout : Coherent conf.raceRoot k) (consistent : Consistent conf store) :
    after.contents conf = update (store.contents conf) key
      (if word = 0 then none else some (after.pairs (location word)).value) := by
  funext other
  by_cases same : other = key
  · subst same
    rw [update_self]
    split_ifs with empty
    · refine Store.contents_eq_none_iff.mpr fun otherPosition finds => ?_
      exact ((rewrites.finds_self_iff layout consistent otherPosition).mp finds).2 empty
    · have finds := (rewrites.finds_self_iff layout consistent pos).mpr ⟨rfl, empty⟩
      rw [Store.contents_of_finds finds fun otherPosition otherFinds =>
        ((rewrites.finds_self_iff layout consistent otherPosition).mp otherFinds).1,
        rewrites.slot_self]
  · rw [update_of_ne same]
    have lookups := rewrites.finds_of_ne consistent same
    cases before : store.contents conf other with
    | none =>
      refine Store.contents_eq_none_iff.mpr fun otherPosition finds => ?_
      exact Store.contents_eq_none_iff.mp before otherPosition ((lookups otherPosition).1.mp finds)
    | some value =>
      have present : ¬ ∀ otherPosition, ¬ store.Finds conf other otherPosition := by
        rw [← Store.contents_eq_none_iff, before]
        simp
      obtain ⟨otherPosition, finds⟩ := not_forall_not.mp present
      have only := consistent.unique other otherPosition
      rw [Store.contents_of_finds finds fun another => only another finds] at before
      rw [Store.contents_of_finds ((lookups otherPosition).1.mpr finds) fun another anotherFinds =>
        only another finds ((lookups another).1.mp anotherFinds), (lookups otherPosition).2 finds]
      have allocated := consistent.allocated other otherPosition finds.ne_zero
      rw [(rewrites.pairs _ allocated).2.1]
      exact before

/-- Cache entries stay good, also those of the rewritten key, whose old pair is
not valid any more. -/
theorem entryGood (consistent : Consistent conf store) {lSlotPtr : UInt64}
    {rSlotAddr : Fin (k + 1) → ℕ} (good : EntryGood conf store other lSlotPtr rSlotAddr) :
    EntryGood conf after other lSlotPtr rSlotAddr := by
  obtain ⟨allocated, current⟩ := good
  refine ⟨rewrites.allocated allocated, fun valid sameKey => ?_⟩
  obtain ⟨keys, -, validity⟩ := rewrites.pairs _ allocated
  obtain ⟨otherPosition, finds, word, addresses⟩ := current (validity valid) (keys ▸ sameKey)
  by_cases same : other = key
  · subst same
    obtain rfl := rewrites.only otherPosition finds
    rw [← word] at valid
    exact absurd valid (rewrites.invalidated finds)
  · have lookups := rewrites.finds_of_ne consistent same otherPosition
    exact ⟨otherPosition, lookups.1.mpr finds, (lookups.2 finds).trans word, addresses⟩

theorem consistent (layout : Coherent conf.raceRoot k) (consistent : Consistent conf store) :
    Consistent conf after where
  replicas other otherPosition replica := by
    rw [Store.slot, readBuckets, rewrites.words]
    have before := consistent.replicas other otherPosition replica
    by_cases shared : ∃ copy : Fin (k + 1), remoteSlotAddr conf key pos copy =
        conf.raceRoot.slotAddr other 0 otherPosition
    · obtain ⟨copy, equal⟩ := shared
      obtain ⟨otherCopy, also⟩ := layout.together other key otherPosition pos 0 copy
        equal.symm replica
      rw [← equal, install_of_mem, remoteSlotAddr, also]
      exact install_of_mem _ (remoteSlotAddr conf key pos) word otherCopy
    · rw [install_of_not_mem fun copy equal => shared ⟨copy, equal⟩, install_of_not_mem]
      · exact before
      · intro copy equal
        obtain ⟨otherCopy, also⟩ := layout.together other key otherPosition pos replica copy
          equal.symm 0
        exact shared ⟨otherCopy, also.symm⟩
  allocated other otherPosition nonzero := by
    rw [Store.slot, readBuckets, rewrites.words] at nonzero ⊢
    by_cases shared : ∃ copy : Fin (k + 1), remoteSlotAddr conf key pos copy =
        conf.raceRoot.slotAddr other 0 otherPosition
    · obtain ⟨copy, equal⟩ := shared
      rw [← equal, install_of_mem] at nonzero ⊢
      exact (rewrites.installed.resolve_left nonzero).1
    · rw [install_of_not_mem fun copy equal => shared ⟨copy, equal⟩] at nonzero ⊢
      exact rewrites.allocated (consistent.allocated other otherPosition nonzero)
  unique other first second finds otherFinds := by
    by_cases same : other = key
    · subst same
      rw [((rewrites.finds_self_iff layout consistent _).mp finds).1,
        ((rewrites.finds_self_iff layout consistent _).mp otherFinds).1]
    · exact consistent.unique other first second
        ((rewrites.finds_of_ne consistent same first).1.mp finds)
        ((rewrites.finds_of_ne consistent same second).1.mp otherFinds)

end Rewrites

end Invariant

end FuseeFs.Client
