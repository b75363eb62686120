import FuseeFs.Index.Table

/-!
# The buckets of a subtable

The buckets of a subtable come in groups of three, a main bucket, an overflow
bucket and another main bucket.  Each of the two index values of a key stands for
a main bucket, and the key is also looked for in the overflow bucket next to it.
The first index value lies in the first half of the subtable, the second one in
the second half.
-/

namespace FuseeFs.Index

inductive Choice
  | first
  | second
deriving DecidableEq, Repr

def Choice.index (hashValue : UInt64) : Choice → ℕ
  | first => subtableFirstIndex hashValue
  | second => subtableSecondIndex hashValue (subtableFirstIndex hashValue)

def KVTableAddrInfo.idx (info : KVTableAddrInfo) : Choice → ℕ
  | .first => info.fIdx
  | .second => info.sIdx

def KVTableAddrInfo.mainIdx (info : KVTableAddrInfo) : Choice → Fin 2
  | .first => info.fMainIdx
  | .second => info.sMainIdx

def KVTableAddrInfo.mainBucket (info : KVTableAddrInfo) (choice : Choice) : ℕ :=
  info.idx choice + info.mainIdx choice

def KVTableAddrInfo.otherBucket (info : KVTableAddrInfo) (choice : Choice) : ℕ :=
  info.idx choice + (info.mainIdx choice + 1 : Fin 2)

def Choice.start : Choice → ℕ
  | first => 0
  | second => addressableBucketNum / 2

section Indices

variable (hashValue : UInt64) (choice : Choice)

theorem idx_getKvAddrInfo :
    (getKvAddrInfo hashValue).idx choice = combinedIdx (choice.index hashValue) := by
  cases choice with
  | first => rfl
  | second => rfl

theorem mainIdx_getKvAddrInfo :
    ((getKvAddrInfo hashValue).mainIdx choice : ℕ) = choice.index hashValue % 2 := by
  cases choice with
  | first => rfl
  | second => rfl

theorem mainBucket_getKvAddrInfo :
    (getKvAddrInfo hashValue).mainBucket choice =
      choice.index hashValue / 2 * 3 + choice.index hashValue % 2 * 2 := by
  rw [KVTableAddrInfo.mainBucket, idx_getKvAddrInfo, mainIdx_getKvAddrInfo, combinedIdx]
  omega

theorem otherBucket_getKvAddrInfo :
    (getKvAddrInfo hashValue).otherBucket choice = choice.index hashValue / 2 * 3 + 1 := by
  have opposite : (((getKvAddrInfo hashValue).mainIdx choice + 1 : Fin 2) : ℕ) =
      (choice.index hashValue % 2 + 1) % 2 := by
    rw [Fin.val_add, mainIdx_getKvAddrInfo]
    rfl
  rw [KVTableAddrInfo.otherBucket, idx_getKvAddrInfo, opposite, combinedIdx]
  omega

theorem index_bounds : choice.start ≤ choice.index hashValue ∧
    choice.index hashValue < choice.start + addressableBucketNum / 2 := by
  cases choice with
  | first => exact ⟨Nat.zero_le _, (Nat.mod_lt _ (by decide)).trans_eq (Nat.zero_add _).symm⟩
  | second =>
    refine ⟨Nat.le_add_left _ _, ?_⟩
    rw [Choice.start, Choice.index, subtableSecondIndex]
    exact Nat.add_lt_add_right (Nat.mod_lt _ (by decide)) _

end Indices

theorem xor_one_div_two (value : ℕ) : (value ^^^ 1) / 2 = value / 2 := by
  have shifted := Nat.shiftRight_xor_distrib (a := value) (b := 1) (i := 1)
  simpa [Nat.shiftRight_eq_div_pow] using shifted

theorem xor_one_mod_two (value : ℕ) : (value ^^^ 1) % 2 = (value + 1) % 2 :=
  Nat.xor_mod_two_eq

/-- The halves of a subtable have an even number of index values. -/
theorem xor_one_mod (value : ℕ) : (value ^^^ 1) % 17000 = value % 17000 ^^^ 1 := by
  have quotient := xor_one_div_two value
  have parity := xor_one_mod_two value
  have restQuotient := xor_one_div_two (value % 17000)
  have restParity := xor_one_mod_two (value % 17000)
  omega

theorem add_xor_one (value : ℕ) : (value ^^^ 1) + 17000 = (value + 17000) ^^^ 1 := by
  have quotient := xor_one_div_two value
  have parity := xor_one_mod_two value
  have sumQuotient := xor_one_div_two (value + 17000)
  have sumParity := xor_one_mod_two (value + 17000)
  omega

section Neighbour

variable (hashValue : UInt64)

theorem toNat_xor_one : (hashValue ^^^ 1).toNat = hashValue.toNat ^^^ 1 :=
  UInt64.toNat_xor ..

theorem subtableFirstIndex_xor_one :
    subtableFirstIndex (hashValue ^^^ 1) = subtableFirstIndex hashValue ^^^ 1 :=
  (congrArg (· % 17000) (toNat_xor_one hashValue)).trans (xor_one_mod hashValue.toNat)

theorem subtableSecondIndex_xor_one (fIndex : ℕ) (bound : fIndex < 17000) :
    subtableSecondIndex (hashValue ^^^ 1) (fIndex ^^^ 1) =
      subtableSecondIndex hashValue fIndex ^^^ 1 := by
  have quotient := xor_one_div_two hashValue.toNat
  have sameTag : (hashValue ^^^ 1).toNat / 2 ^ 16 = hashValue.toNat / 2 ^ 16 := by
    rw [toNat_xor_one]
    omega
  have flipped : UInt64.ofNat (fIndex ^^^ 1) = UInt64.ofNat fIndex ^^^ 1 := by
    have indexQuotient := xor_one_div_two fIndex
    have small : fIndex < 2 ^ 64 := by omega
    have smallFlipped : fIndex ^^^ 1 < 2 ^ 64 := by omega
    apply UInt64.toNat_inj.mp
    rw [toNat_xor_one, UInt64.toNat_ofNat_of_lt' small, UInt64.toNat_ofNat_of_lt' smallFlipped]
  have swapped (tag : UInt64) : (UInt64.ofNat (fIndex ^^^ 1) ^^^ tag).toNat =
      (UInt64.ofNat fIndex ^^^ tag).toNat ^^^ 1 := by
    rw [flipped, UInt64.xor_assoc, UInt64.xor_comm 1, ← UInt64.xor_assoc, toNat_xor_one]
  unfold subtableSecondIndex
  dsimp only
  rw [sameTag, swapped]
  exact (congrArg (· + 17000) (xor_one_mod _)).trans (add_xor_one _)

theorem index_xor_one (choice : Choice) :
    choice.index (hashValue ^^^ 1) = choice.index hashValue ^^^ 1 := by
  cases choice with
  | first => exact subtableFirstIndex_xor_one hashValue
  | second =>
    rw [Choice.index, subtableFirstIndex_xor_one]
    exact subtableSecondIndex_xor_one hashValue _ (Nat.mod_lt _ (by decide))

end Neighbour

/-- Where the buckets of a key lie among the buckets of its subtable. -/
structure BucketGeometry (hashValue : UInt64) : Prop where
  firstHalf : (getKvAddrInfo hashValue).fIdx + 1 < 25500
  secondHalf : 25500 ≤ (getKvAddrInfo hashValue).sIdx ∧ (getKvAddrInfo hashValue).sIdx + 1 < 51000
  distinct : Function.Injective (getKvAddrInfo hashValue).bucketIdx
  main_mod : ∀ choice, (getKvAddrInfo hashValue).mainBucket choice % 3 ≠ 1
  determined : ∀ choice otherHash otherChoice,
    (getKvAddrInfo otherHash).mainBucket otherChoice = (getKvAddrInfo hashValue).mainBucket choice →
      otherChoice.index otherHash = choice.index hashValue
  other_mod : ∀ choice, (getKvAddrInfo hashValue).otherBucket choice % 3 = 1
  /-- Only the two neighbouring main buckets have this overflow bucket. -/
  shared : ∀ choice otherHash otherChoice,
    (getKvAddrInfo otherHash).otherBucket otherChoice =
        (getKvAddrInfo hashValue).otherBucket choice ↔
      (getKvAddrInfo otherHash).mainBucket otherChoice + 1 =
          (getKvAddrInfo hashValue).otherBucket choice ∨
        (getKvAddrInfo otherHash).mainBucket otherChoice =
          (getKvAddrInfo hashValue).otherBucket choice + 1
  neighbours : ∀ choice, ∃ lower upper,
    (getKvAddrInfo lower).mainBucket choice + 1 = (getKvAddrInfo hashValue).otherBucket choice ∧
      (getKvAddrInfo upper).mainBucket choice = (getKvAddrInfo hashValue).otherBucket choice + 1

theorem exists_neighbours (hashValue : UInt64) (choice : Choice) : ∃ lower upper,
    (getKvAddrInfo lower).mainBucket choice + 1 = (getKvAddrInfo hashValue).otherBucket choice ∧
      (getKvAddrInfo upper).mainBucket choice =
        (getKvAddrInfo hashValue).otherBucket choice + 1 := by
  have other := otherBucket_getKvAddrInfo hashValue choice
  have main := mainBucket_getKvAddrInfo hashValue choice
  have neighbour := mainBucket_getKvAddrInfo (hashValue ^^^ 1) choice
  have quotient := xor_one_div_two (choice.index hashValue)
  have parity := xor_one_mod_two (choice.index hashValue)
  rw [index_xor_one] at neighbour
  obtain _ | _ := Nat.mod_two_eq_zero_or_one (choice.index hashValue)
  · exact ⟨hashValue, hashValue ^^^ 1, by omega, by omega⟩
  · exact ⟨hashValue ^^^ 1, hashValue, by omega, by omega⟩

theorem bucket_geometry (hashValue : UInt64) : BucketGeometry hashValue where
  firstHalf := by
    have bounds := index_bounds hashValue .first
    have idx := idx_getKvAddrInfo hashValue .first
    simp only [KVTableAddrInfo.idx, combinedIdx, Choice.start, addressableBucketNum] at bounds idx
    omega
  secondHalf := by
    have bounds := index_bounds hashValue .second
    have idx := idx_getKvAddrInfo hashValue .second
    simp only [KVTableAddrInfo.idx, combinedIdx, Choice.start, addressableBucketNum] at bounds idx
    omega
  distinct := bucketIdx_injective hashValue
  main_mod choice := by
    rw [mainBucket_getKvAddrInfo]
    omega
  determined choice otherHash otherChoice same := by
    rw [mainBucket_getKvAddrInfo, mainBucket_getKvAddrInfo] at same
    omega
  other_mod choice := by
    rw [otherBucket_getKvAddrInfo]
    omega
  shared choice otherHash otherChoice := by
    rw [otherBucket_getKvAddrInfo, otherBucket_getKvAddrInfo, mainBucket_getKvAddrInfo]
    omega
  neighbours := exists_neighbours hashValue

end FuseeFs.Index
