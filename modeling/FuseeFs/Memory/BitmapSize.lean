import FuseeFs.Memory.FreeBitmap
import FuseeFs.Memory.Packings

/-!
# The size of the bitmaps

The constructor of a client reserves the first `bmap_block_num_` subblocks of a
block for its bitmap, and `mm_free` exits if a word of the bitmap is behind
them.  Both are modelled with the widths of their variables here; the other
modules use them as functions on numbers.
-/

namespace FuseeFs.Memory.BitmapSize

open Nat Index Memory.FreeBitmap

section Functions

variable (mmBlockSz subblockSz : UInt64)

def subblockNum : UInt32 :=
  (mmBlockSz / subblockSz).toUInt32

def bmapBlockNum : UInt32 :=
  let bmapBlockNum := ((subblockNum mmBlockSz subblockSz / 8).toUInt64 / subblockSz).toUInt32
  if (bmapBlockNum * 8).toUInt64 * subblockSz < (subblockNum mmBlockSz subblockSz).toUInt64 then
    bmapBlockNum + 1
  else bmapBlockNum

variable (origSlotVal : UInt64)

def kvRaddr : UInt64 :=
  Packings.hashIndexConvert40To64Bits (raceHashSlot origSlotVal).pointer

def subblockId : UInt32 :=
  (kvRaddr origSlotVal % mmBlockSz / subblockSz).toUInt32

def blockRaddr : UInt64 :=
  kvRaddr origSlotVal - kvRaddr origSlotVal % mmBlockSz

def bmapAddr : UInt64 :=
  blockRaddr mmBlockSz origSlotVal + (subblockId mmBlockSz subblockSz origSlotVal / 64).toUInt64 * 8

def ErrorFree : Prop :=
  bmapAddr mmBlockSz subblockSz origSlotVal >
    blockRaddr mmBlockSz origSlotVal + subblockSz * (bmapBlockNum mmBlockSz subblockSz).toUInt64

instance : Decidable (ErrorFree mmBlockSz subblockSz origSlotVal) :=
  inferInstanceAs (Decidable (_ > _))

/-- `mm_free`, with undefined shifts as in `FreeBitmap.mmFree`. -/
def mmFree (map : FreeFaaMap) : Option FreeFaaMap :=
  (addValue (subblockId mmBlockSz subblockSz origSlotVal % 64).toNat).bind fun value =>
    if ErrorFree mmBlockSz subblockSz origSlotVal then none
    else
      some (map.add ((raceHashSlot origSlotVal).serverId,
        (bmapAddr mmBlockSz subblockSz origSlotVal).toNat) value)

end Functions

section Numbers

/-- The division of the constructor and its correction round up. -/
theorem roundUp_eq_ceilDiv {num size : ℕ} (positive : 0 < size) :
    (if num / 8 / size * 8 * size < num then num / 8 / size + 1 else num / 8 / size) =
      num ⌈/⌉ (8 * size) := by
  have wide : 0 < 8 * size := by omega
  have quotient : num / 8 / size = num / (8 * size) := Nat.div_div_eq_div_mul num 8 size
  have below := div_mul_le_self num (8 * size)
  have above : num < (num / (8 * size) + 1) * (8 * size) := 
    (Nat.div_lt_iff_lt_mul wide).mp (lt_succ_self _)
  rw [quotient, Nat.mul_assoc]
  refine eq_of_forall_ge_iff fun count => ?_
  rw [ceilDiv_le_iff_le_mul wide, Nat.mul_comm (8 * size)]
  split_ifs with short
  · constructor
    · exact fun more => above.le.trans (Nat.mul_le_mul_right _ more)
    · exact fun enough => Nat.lt_of_mul_lt_mul_right (short.trans_le enough)
  · rw [← Nat.mul_le_mul_right_iff wide, Nat.le_antisymm below (Nat.le_of_not_lt short)]

def WordInside (size index count : ℕ) : Prop :=
  index / 64 * 8 + 8 ≤ count * size

/-- The words of all subblocks lie in as many bytes as there are subblocks,
divided by 8. -/
theorem forall_wordInside_iff {num size count : ℕ} (multiple : 8 ∣ size) :
    (∀ index < num, WordInside size index count) ↔ num ≤ 8 * size * count := by
  obtain ⟨words, rfl⟩ := multiple
  have bytes : ∀ index, WordInside (8 * words) index count ↔ index < 64 * (words * count) := by
    intro index
    rw [WordInside, Nat.mul_left_comm, Nat.mul_comm count]
    omega
  have bits : 8 * (8 * words) * count = 64 * (words * count) := by ring
  rw [bits]
  constructor
  · intro inside
    by_contra more
    exact absurd ((bytes _).mp (inside _ (Nat.lt_of_not_le more))) (lt_irrefl _)
  · exact fun enough index bound => (bytes index).mpr (bound.trans_le enough)

theorem isLeast_ceilDiv {num size : ℕ} (positive : 0 < size) (multiple : 8 ∣ size) :
    IsLeast {count | ∀ index < num, WordInside size index count} (num ⌈/⌉ (8 * size)) := by
  have wide : 0 < 8 * size := by omega
  constructor
  · exact (forall_wordInside_iff multiple).mpr ((ceilDiv_le_iff_le_mul wide).mp le_rfl)
  · intro count inside
    exact (ceilDiv_le_iff_le_mul wide).mpr ((forall_wordInside_iff multiple).mp inside)

theorem toNat_kvRaddr (origSlotVal : UInt64) : (kvRaddr origSlotVal).toNat = rKvAddr origSlotVal := by
  have number := Packings.toNat_hashIndexConvert40To64Bits (length_pointer origSlotVal) []
  rw [List.append_nil] at number
  exact number

variable {mmBlockSz subblockSz : UInt64} (positive : 0 < subblockSz.toNat)
  (narrow : mmBlockSz.toNat / subblockSz.toNat < 2 ^ 32)
include narrow

theorem toNat_subblockNum :
    (subblockNum mmBlockSz subblockSz).toNat = mmBlockSz.toNat / subblockSz.toNat := by
  rw [subblockNum, UInt64.toNat_toUInt32, UInt64.toNat_div, mod_eq_of_lt narrow]

include positive

theorem toNat_bmapBlockNum :
    (bmapBlockNum mmBlockSz subblockSz).toNat =
      (mmBlockSz.toNat / subblockSz.toNat) ⌈/⌉ (8 * subblockSz.toNat) := by
  have num := toNat_subblockNum narrow
  rw [← roundUp_eq_ceilDiv positive, ← num]
  rw [← num] at narrow
  unfold bmapBlockNum
  generalize subblockNum mmBlockSz subblockSz = subblockNum at narrow ⊢
  have below : subblockNum.toNat / 8 / subblockSz.toNat * subblockSz.toNat ≤ subblockNum.toNat / 8 :=
    div_mul_le_self _ _
  have quotient : ((subblockNum / 8).toUInt64 / subblockSz).toUInt32.toNat =
      subblockNum.toNat / 8 / subblockSz.toNat := by
    have small := Nat.div_le_self (subblockNum.toNat / 8) subblockSz.toNat
    rw [UInt64.toNat_toUInt32, UInt64.toNat_div, UInt32.toNat_toUInt64, UInt32.toNat_div,
      mod_eq_of_lt]
    · rfl
    · exact small.trans_lt (by omega)
  have bits : (((subblockNum / 8).toUInt64 / subblockSz).toUInt32 * 8).toUInt64.toNat =
      subblockNum.toNat / 8 / subblockSz.toNat * 8 := by
    have small := Nat.div_le_self (subblockNum.toNat / 8) subblockSz.toNat
    rw [UInt32.toNat_toUInt64, UInt32.toNat_mul, quotient, mod_eq_of_lt]
    · rfl
    · exact (Nat.mul_le_mul_right 8 small).trans_lt (by omega)
  have product : ((((subblockNum / 8).toUInt64 / subblockSz).toUInt32 * 8).toUInt64 *
      subblockSz).toNat = subblockNum.toNat / 8 / subblockSz.toNat * 8 * subblockSz.toNat := by
    rw [UInt64.toNat_mul, bits, Nat.mul_right_comm, mod_eq_of_lt]
    omega
  dsimp only
  simp only [UInt64.lt_iff_toNat_lt, product, UInt32.toNat_toUInt64]
  split_ifs with short
  · have small := Nat.div_le_self (subblockNum.toNat / 8) subblockSz.toNat
    rw [UInt32.toNat_add, quotient, mod_eq_of_lt]
    · rfl
    · exact (succ_le_succ small).trans_lt (by omega)
  · exact quotient

theorem bitmap_le :
    subblockSz.toNat * (bmapBlockNum mmBlockSz subblockSz).toNat ≤ mmBlockSz.toNat := by
  have fewer : (bmapBlockNum mmBlockSz subblockSz).toNat ≤ mmBlockSz.toNat / subblockSz.toNat := by
    rw [toNat_bmapBlockNum positive narrow, ceilDiv_le_iff_le_mul (by omega)]
    exact Nat.le_mul_of_pos_left _ (by omega)
  calc subblockSz.toNat * (bmapBlockNum mmBlockSz subblockSz).toNat
      ≤ subblockSz.toNat * (mmBlockSz.toNat / subblockSz.toNat) := Nat.mul_le_mul_left _ fewer
    _ ≤ mmBlockSz.toNat := mul_div_le _ _

variable (nonempty : mmBlockSz ≠ 0) (origSlotVal : UInt64)
include nonempty

omit positive in
theorem toNat_subblockId :
    (subblockId mmBlockSz subblockSz origSlotVal).toNat =
      rKvAddr origSlotVal % mmBlockSz.toNat / subblockSz.toNat := by
  have inBlock : rKvAddr origSlotVal % mmBlockSz.toNat < mmBlockSz.toNat :=
    mod_lt _ (Nat.pos_of_ne_zero fun zero => nonempty (UInt64.toNat_inj.mp zero))
  have small := (Nat.div_le_div_right inBlock.le).trans_lt narrow
  rw [subblockId, UInt64.toNat_toUInt32, UInt64.toNat_div, UInt64.toNat_mod, toNat_kvRaddr,
    mod_eq_of_lt small]

omit positive narrow nonempty in
theorem toNat_blockRaddr :
    (blockRaddr mmBlockSz origSlotVal).toNat =
      rKvAddr origSlotVal - rKvAddr origSlotVal % mmBlockSz.toNat := by
  have less : kvRaddr origSlotVal % mmBlockSz ≤ kvRaddr origSlotVal := by
    rw [UInt64.le_iff_toNat_le, UInt64.toNat_mod]
    exact mod_le _ _
  rw [blockRaddr, UInt64.toNat_sub_of_le _ _ less, UInt64.toNat_mod, toNat_kvRaddr]

omit positive in
theorem toNat_bmapAddr :
    (bmapAddr mmBlockSz subblockSz origSlotVal).toNat =
      (blockRaddr mmBlockSz origSlotVal).toNat +
        (subblockId mmBlockSz subblockSz origSlotVal).toNat / 64 * 8 := by
  have id := toNat_subblockId narrow nonempty origSlotVal
  have base := @toNat_blockRaddr mmBlockSz origSlotVal
  have fewer : (subblockId mmBlockSz subblockSz origSlotVal).toNat ≤ rKvAddr origSlotVal :=
    id.trans_le ((Nat.div_le_self _ _).trans (mod_le _ _))
  have addr := rKvAddr_lt origSlotVal
  have offset : ((subblockId mmBlockSz subblockSz origSlotVal / 64).toUInt64 * 8).toNat =
      (subblockId mmBlockSz subblockSz origSlotVal).toNat / 64 * 8 := by
    have constants : UInt32.toNat 64 = 64 ∧ UInt64.toNat 8 = 8 := ⟨rfl, rfl⟩
    rw [UInt64.toNat_mul, UInt32.toNat_toUInt64, UInt32.toNat_div, constants.1, constants.2]
    exact mod_eq_of_lt (by omega)
  rw [bmapAddr, UInt64.toNat_add, offset]
  exact mod_eq_of_lt (by omega)

omit nonempty in
/-- The end of the bitmap is an address: a block behind the first one is not
larger than its own address. -/
theorem toNat_bitmapEnd :
    (blockRaddr mmBlockSz origSlotVal +
        subblockSz * (bmapBlockNum mmBlockSz subblockSz).toUInt64).toNat =
      (blockRaddr mmBlockSz origSlotVal).toNat +
        subblockSz.toNat * (bmapBlockNum mmBlockSz subblockSz).toNat := by
  have inBlock := bitmap_le positive narrow
  have size := mmBlockSz.toNat_lt
  have product : (subblockSz * (bmapBlockNum mmBlockSz subblockSz).toUInt64).toNat =
      subblockSz.toNat * (bmapBlockNum mmBlockSz subblockSz).toNat := by
    rw [UInt64.toNat_mul, UInt32.toNat_toUInt64]
    exact mod_eq_of_lt (inBlock.trans_lt size)
  have addr := rKvAddr_lt origSlotVal
  rw [UInt64.toNat_add, product]
  refine mod_eq_of_lt ?_
  rw [toNat_blockRaddr]
  by_cases first : rKvAddr origSlotVal < mmBlockSz.toNat
  · rw [mod_eq_of_lt first]
    omega
  · omega

theorem errorFree_iff :
    ErrorFree mmBlockSz subblockSz origSlotVal ↔
      subblockSz.toNat * (bmapBlockNum mmBlockSz subblockSz).toNat <
        (subblockId mmBlockSz subblockSz origSlotVal).toNat / 64 * 8 := by
  rw [ErrorFree, gt_iff_lt, UInt64.lt_iff_toNat_lt, toNat_bitmapEnd positive narrow,
    toNat_bmapAddr narrow nonempty]
  exact Nat.add_lt_add_iff_left

end Numbers

section Layouts

variable {layout : Layout} {mmBlockSz subblockSz : UInt64} (blockSize : mmBlockSz.toNat = layout.mmBlockSz)
  (subblockSize : subblockSz.toNat = layout.subblockSz)
include blockSize subblockSize

theorem toNat_bmapBlockNum_eq_layout :
    (bmapBlockNum mmBlockSz subblockSz).toNat = layout.bmapBlockNum := by
  have positive : 0 < subblockSz.toNat := subblockSize ▸ layout.subblockSz_pos
  have narrow : mmBlockSz.toNat / subblockSz.toNat < 2 ^ 32 := by
    rw [blockSize, subblockSize]
    exact layout.subblockNum_lt.trans (by decide)
  rw [toNat_bmapBlockNum positive narrow, blockSize, subblockSize,
    ← roundUp_eq_ceilDiv layout.subblockSz_pos]
  rfl

/-- On the layouts of the other modules, `mm_free` does with words what it does
with numbers. -/
theorem mmFree_eq_mmFree (nonempty : mmBlockSz ≠ 0) (map : FreeFaaMap) (origSlotVal : UInt64) :
    mmFree mmBlockSz subblockSz origSlotVal map = FreeBitmap.mmFree layout map origSlotVal := by
  have positive : 0 < subblockSz.toNat := subblockSize ▸ layout.subblockSz_pos
  have narrow : mmBlockSz.toNat / subblockSz.toNat < 2 ^ 32 := by
    rw [blockSize, subblockSize]
    exact layout.subblockNum_lt.trans (by decide)
  have id : (subblockId mmBlockSz subblockSz origSlotVal).toNat =
      FreeBitmap.subblockId layout origSlotVal := by
    rw [toNat_subblockId narrow nonempty, blockSize, subblockSize]
    rfl
  have base : (blockRaddr mmBlockSz origSlotVal).toNat = FreeBitmap.blockRaddr layout origSlotVal := by
    rw [toNat_blockRaddr, blockSize]
    rfl
  have key : ((raceHashSlot origSlotVal).serverId,
      (bmapAddr mmBlockSz subblockSz origSlotVal).toNat) = bmapKey layout origSlotVal := by
    rw [toNat_bmapAddr narrow nonempty, id, base]
    rfl
  have exits : ErrorFree mmBlockSz subblockSz origSlotVal ↔ (bmapKey layout origSlotVal).2 >
      FreeBitmap.blockRaddr layout origSlotVal + layout.subblockSz * layout.bmapBlockNum := by
    rw [errorFree_iff positive narrow nonempty, toNat_bmapBlockNum_eq_layout blockSize subblockSize,
      subblockSize, id]
    exact Nat.add_lt_add_iff_left.symm
  have bit : (subblockId mmBlockSz subblockSz origSlotVal % 64).toNat =
      FreeBitmap.subblockId layout origSlotVal % 64 := by
    rw [UInt32.toNat_mod, id]
    rfl
  rw [mmFree, FreeBitmap.mmFree, bit, key]
  simp only [exits]

end Layouts

theorem mmFree_eq_mmFree_twoWord :
    mmFree 0x8000 256 (twoWordSlot 74) ⟨[], fun _ => 0⟩ =
      FreeBitmap.mmFree twoWordLayout ⟨[], fun _ => 0⟩ (twoWordSlot 74) :=
  mmFree_eq_mmFree rfl rfl (by decide) _ _

/-- Subblocks of whole words that divide a block and can be counted in 32 bits. -/
structure Sizes (mmBlockSz subblockSz : UInt64) : Prop where
  positive : 0 < subblockSz.toNat
  multiple : 8 ∣ subblockSz.toNat
  divides : subblockSz.toNat ∣ mmBlockSz.toNat
  narrow : mmBlockSz.toNat / subblockSz.toNat < 2 ^ 32

structure BitmapFits (mmBlockSz subblockSz : UInt64) : Prop where
  least : IsLeast {count | ∀ index < mmBlockSz.toNat / subblockSz.toNat,
    WordInside subblockSz.toNat index count} (bmapBlockNum mmBlockSz subblockSz).toNat
  /-- `mm_free` uses the word of the subblock that is freed. -/
  word : ∀ origSlotVal, mmBlockSz ≠ 0 →
    (subblockId mmBlockSz subblockSz origSlotVal).toNat < mmBlockSz.toNat / subblockSz.toNat ∧
    (bmapAddr mmBlockSz subblockSz origSlotVal).toNat =
      (blockRaddr mmBlockSz origSlotVal).toNat +
        (subblockId mmBlockSz subblockSz origSlotVal).toNat / 64 * 8
  accepted : ∀ origSlotVal, mmBlockSz ≠ 0 → ¬ ErrorFree mmBlockSz subblockSz origSlotVal

theorem bitmap_fits {mmBlockSz subblockSz : UInt64} (sizes : Sizes mmBlockSz subblockSz) :
    BitmapFits mmBlockSz subblockSz := by
  obtain ⟨positive, multiple, divides, narrow⟩ := sizes
  have least : IsLeast {count | ∀ index < mmBlockSz.toNat / subblockSz.toNat,
      WordInside subblockSz.toNat index count} (bmapBlockNum mmBlockSz subblockSz).toNat := by
    rw [toNat_bmapBlockNum positive narrow]
    exact isLeast_ceilDiv positive multiple
  have bound : ∀ origSlotVal, mmBlockSz ≠ 0 →
      (subblockId mmBlockSz subblockSz origSlotVal).toNat < mmBlockSz.toNat / subblockSz.toNat := by
    intro origSlotVal nonempty
    have some : 0 < mmBlockSz.toNat :=
      Nat.pos_of_ne_zero fun zero => nonempty (UInt64.toNat_inj.mp zero)
    rw [toNat_subblockId narrow nonempty]
    exact div_lt_div_of_lt_of_dvd divides (mod_lt _ some)
  refine ⟨least, fun origSlotVal nonempty => ⟨bound origSlotVal nonempty, ?_⟩, ?_⟩
  · exact toNat_bmapAddr narrow nonempty origSlotVal
  · intro origSlotVal nonempty
    have inside := least.1 _ (bound origSlotVal nonempty)
    rw [errorFree_iff positive narrow nonempty, Nat.mul_comm]
    rw [WordInside] at inside
    omega

/-- Blocks of 64 MiB with subblocks of 256 bytes. -/
theorem bitmap_fits_configured :
    Sizes 0x4000000 256 ∧ (bmapBlockNum 0x4000000 256).toNat = 128 ∧ BitmapFits 0x4000000 256 := by
  have sizes : Sizes 0x4000000 256 := ⟨by decide, by decide, by decide, by decide⟩
  exact ⟨sizes, by decide +kernel, bitmap_fits sizes⟩

end FuseeFs.Memory.BitmapSize
