import FuseeFs.Library.BitFields

/-!
# Slots for the garbage collection

A garbage collection slot names the two replicas of freed memory and its length
in one 64-bit word (`encode_gc_slot`, `decode_gc_slot`).  The offset in the block
is stored once, for both replicas.
-/

namespace FuseeFs.Memory

open Library.BitFields

def blockAddrBmask : UInt64 := 0x1FFFFF

def blockOffBmask : UInt64 := 0x3FFFF

def subblockNumBmask : UInt64 := 0xF

@[ext]
structure DecodedClientGCSlot where
  prAddr : UInt64
  bkAddr : UInt64
  numSubblocks : UInt8
deriving DecidableEq, Repr

def encodeGcSlot (slot : DecodedClientGCSlot) : UInt64 :=
  let maskedBlockOff := slot.prAddr >>> 8 &&& blockOffBmask
  let maskedPrAddr := slot.prAddr >>> 26 &&& blockAddrBmask
  let maskedBkAddr := slot.bkAddr >>> 26 &&& blockAddrBmask
  let maskedNumSubblock := slot.numSubblocks.toUInt64 &&& subblockNumBmask
  maskedBlockOff <<< 46 ||| maskedPrAddr <<< 25 ||| maskedBkAddr <<< 4 ||| maskedNumSubblock

def decodeGcSlot (word : UInt64) : DecodedClientGCSlot :=
  let blockOffset := word >>> 46
  let prBlockAddr := word >>> 25 &&& blockAddrBmask
  let bkBlockAddr := word >>> 4 &&& blockAddrBmask
  let numSubblocks := (word &&& subblockNumBmask).toUInt8
  { prAddr := prBlockAddr <<< 26 ||| blockOffset <<< 8
    bkAddr := bkBlockAddr <<< 26 ||| blockOffset <<< 8
    numSubblocks := numSubblocks }

/-- The slots that fit: 47-bit addresses of subblocks at the same offset. -/
structure DecodedClientGCSlot.Fits (slot : DecodedClientGCSlot) : Prop where
  prAddr_lt : slot.prAddr.toNat < 2 ^ 47
  bkAddr_lt : slot.bkAddr.toNat < 2 ^ 47
  prAddr_aligned : 256 ∣ slot.prAddr.toNat
  bkAddr_aligned : 256 ∣ slot.bkAddr.toNat
  sameOffset : slot.prAddr.toNat % 2 ^ 26 = slot.bkAddr.toNat % 2 ^ 26
  numSubblocks_lt : slot.numSubblocks.toNat < 16

theorem toNat_encodeGcSlot (slot : DecodedClientGCSlot) :
    (encodeGcSlot slot).toNat =
      slot.prAddr.toNat / 2 ^ 8 % 2 ^ 18 * 2 ^ 46 + (slot.prAddr.toNat / 2 ^ 26 % 2 ^ 21 * 2 ^ 25 +
        (slot.bkAddr.toNat / 2 ^ 26 % 2 ^ 21 * 2 ^ 4 + slot.numSubblocks.toNat % 2 ^ 4)) := by
  have off : (slot.prAddr >>> 8 &&& blockOffBmask).toNat = slot.prAddr.toNat / 2 ^ 8 % 2 ^ 18 :=
    toNat_shiftRight_and rfl (by decide) rfl
  have pr : (slot.prAddr >>> 26 &&& blockAddrBmask).toNat =
      slot.prAddr.toNat / 2 ^ 26 % 2 ^ 21 := toNat_shiftRight_and rfl (by decide) rfl
  have bk : (slot.bkAddr >>> 26 &&& blockAddrBmask).toNat =
      slot.bkAddr.toNat / 2 ^ 26 % 2 ^ 21 := toNat_shiftRight_and rfl (by decide) rfl
  have num : (slot.numSubblocks.toUInt64 &&& subblockNumBmask).toNat =
      slot.numSubblocks.toNat % 2 ^ 4 := by
    rw [@toNat_and_eq_mod _ _ 4 rfl, UInt8.toNat_toUInt64]
  -- each part is above all that follow it
  have third := @toNat_shiftLeft_or (slot.bkAddr >>> 26 &&& blockAddrBmask)
    (slot.numSubblocks.toUInt64 &&& subblockNumBmask) 4 4 rfl (by decide) (by omega) (by omega)
  have second := @toNat_shiftLeft_or (slot.prAddr >>> 26 &&& blockAddrBmask) _ 25 25 rfl
    (by decide) (by omega) (third.trans_lt (by omega))
  have first := @toNat_shiftLeft_or (slot.prAddr >>> 8 &&& blockOffBmask) _ 46 46 rfl
    (by decide) (by omega) (second.trans_lt (by omega))
  unfold encodeGcSlot
  dsimp only
  rw [UInt64.or_assoc, UInt64.or_assoc, first, second, third, off, pr, bk, num]

theorem toNat_decoded {block offset : UInt64} (blockBound : block.toNat < 2 ^ 21)
    (offsetBound : offset.toNat < 2 ^ 18) :
    (block <<< 26 ||| offset <<< 8).toNat = block.toNat * 2 ^ 26 + offset.toNat * 2 ^ 8 := by
  have low := @toNat_shiftLeft_eq_mul offset 8 8 rfl (by decide) (by omega)
  have whole := @toNat_shiftLeft_or block (offset <<< 8) 26 26 rfl (by decide) (by omega) (by omega)
  rw [whole, low]

section Decode

variable (word : UInt64)

theorem toNat_prAddr_decodeGcSlot :
    (decodeGcSlot word).prAddr.toNat =
      word.toNat / 2 ^ 25 % 2 ^ 21 * 2 ^ 26 + word.toNat / 2 ^ 46 * 2 ^ 8 := by
  have bound := word.toNat_lt
  have off := @toNat_shiftRight_eq_div word 46 46 rfl (by decide)
  have pr := @toNat_shiftRight_and word 25 blockAddrBmask 25 21 rfl (by decide) rfl
  unfold decodeGcSlot
  dsimp only
  rw [toNat_decoded (by omega) (by omega), off, pr]

theorem toNat_bkAddr_decodeGcSlot :
    (decodeGcSlot word).bkAddr.toNat =
      word.toNat / 2 ^ 4 % 2 ^ 21 * 2 ^ 26 + word.toNat / 2 ^ 46 * 2 ^ 8 := by
  have bound := word.toNat_lt
  have off := @toNat_shiftRight_eq_div word 46 46 rfl (by decide)
  have bk := @toNat_shiftRight_and word 4 blockAddrBmask 4 21 rfl (by decide) rfl
  unfold decodeGcSlot
  dsimp only
  rw [toNat_decoded (by omega) (by omega), off, bk]

theorem toNat_numSubblocks_decodeGcSlot :
    (decodeGcSlot word).numSubblocks.toNat = word.toNat % 2 ^ 4 := by
  have num := @toNat_and_eq_mod word subblockNumBmask 4 rfl
  unfold decodeGcSlot
  dsimp only
  rw [UInt64.toNat_toUInt8, num]
  omega

end Decode

theorem fits_decodeGcSlot (word : UInt64) : (decodeGcSlot word).Fits := by
  have bound := word.toNat_lt
  have pr := toNat_prAddr_decodeGcSlot word
  have bk := toNat_bkAddr_decodeGcSlot word
  have num := toNat_numSubblocks_decodeGcSlot word
  constructor <;> omega

theorem parts_of_sum {word off pr bk num : ℕ} (prBound : pr < 2 ^ 21) (bkBound : bk < 2 ^ 21)
    (numBound : num < 2 ^ 4) (sum : word = off * 2 ^ 46 + (pr * 2 ^ 25 + (bk * 2 ^ 4 + num))) :
    word / 2 ^ 46 = off ∧ word / 2 ^ 25 % 2 ^ 21 = pr ∧ word / 2 ^ 4 % 2 ^ 21 = bk ∧
      word % 2 ^ 4 = num := by
  have upper : word / 2 ^ 25 = off * 2 ^ 21 + pr := by omega
  have middle : word / 2 ^ 4 = (off * 2 ^ 21 + pr) * 2 ^ 21 + bk := by omega
  refine ⟨by omega, ?_, ?_, by omega⟩
  · omega
  · omega

theorem parts_of_addr {addr block off : ℕ} (offBound : off < 2 ^ 18)
    (sum : addr = block * 2 ^ 26 + off * 2 ^ 8) :
    addr / 2 ^ 26 = block ∧ addr / 2 ^ 8 % 2 ^ 18 = off := by
  have quotient : addr / 2 ^ 8 = block * 2 ^ 18 + off := by omega
  exact ⟨by omega, by omega⟩

theorem addr_eq_of_parts {addr : ℕ} (bound : addr < 2 ^ 47) (aligned : 256 ∣ addr) :
    addr / 2 ^ 26 % 2 ^ 21 * 2 ^ 26 + addr % 2 ^ 26 / 2 ^ 8 * 2 ^ 8 = addr := by
  have block : addr / 2 ^ 26 % 2 ^ 21 = addr / 2 ^ 26 := Nat.mod_eq_of_lt (by omega)
  rw [block]
  omega

theorem decodeGcSlot_encodeGcSlot {slot : DecodedClientGCSlot} (fits : slot.Fits) :
    decodeGcSlot (encodeGcSlot slot) = slot := by
  obtain ⟨prBound, bkBound, prAligned, bkAligned, sameOffset, numBound⟩ := fits
  obtain ⟨off, prBlock, bkBlock, num⟩ := parts_of_sum (Nat.mod_lt _ (by decide))
    (Nat.mod_lt _ (by decide)) (Nat.mod_lt _ (by decide)) (toNat_encodeGcSlot slot)
  have pr := toNat_prAddr_decodeGcSlot (encodeGcSlot slot)
  have bk := toNat_bkAddr_decodeGcSlot (encodeGcSlot slot)
  have count := toNat_numSubblocks_decodeGcSlot (encodeGcSlot slot)
  rw [prBlock, off] at pr
  rw [bkBlock, off] at bk
  rw [num] at count
  have offset : slot.prAddr.toNat / 2 ^ 8 % 2 ^ 18 = slot.prAddr.toNat % 2 ^ 26 / 2 ^ 8 := by omega
  rw [offset] at pr
  rw [offset, sameOffset] at bk
  apply DecodedClientGCSlot.ext
  · exact UInt64.toNat_inj.mp (pr.trans (addr_eq_of_parts prBound prAligned))
  · exact UInt64.toNat_inj.mp (bk.trans (addr_eq_of_parts bkBound bkAligned))
  · exact UInt8.toNat_inj.mp (count.trans (Nat.mod_eq_of_lt numBound))

theorem encodeGcSlot_decodeGcSlot (word : UInt64) : encodeGcSlot (decodeGcSlot word) = word := by
  have bound := word.toNat_lt
  have small : word.toNat / 2 ^ 46 < 2 ^ 18 := by omega
  obtain ⟨prBlock, off⟩ := parts_of_addr small (toNat_prAddr_decodeGcSlot word)
  obtain ⟨bkBlock, -⟩ := parts_of_addr small (toNat_bkAddr_decodeGcSlot word)
  apply UInt64.toNat_inj.mp
  rw [toNat_encodeGcSlot, off, prBlock, bkBlock, toNat_numSubblocks_decodeGcSlot]
  omega

/-- The slots that fit and the 64-bit words are encoded and decoded one to one. -/
theorem gcSlot_bijective :
    (∀ slot : DecodedClientGCSlot, slot.Fits → decodeGcSlot (encodeGcSlot slot) = slot) ∧
      ∀ word, (decodeGcSlot word).Fits ∧ encodeGcSlot (decodeGcSlot word) = word :=
  ⟨fun _ fits => decodeGcSlot_encodeGcSlot fits,
    fun word => ⟨fits_decodeGcSlot word, encodeGcSlot_decodeGcSlot word⟩⟩

def sampleGCSlot : DecodedClientGCSlot where
  prAddr := 0x10000500
  bkAddr := 0x20000500
  numSubblocks := 5

theorem gcSlot_bijective_sample :
    sampleGCSlot.Fits ∧ encodeGcSlot sampleGCSlot = 0x1400008000085 ∧
      decodeGcSlot 0x1400008000085 = sampleGCSlot := by
  have fits : sampleGCSlot.Fits := by constructor <;> decide
  have encoded : encodeGcSlot sampleGCSlot = 0x1400008000085 := by decide
  refine ⟨fits, encoded, ?_⟩
  rw [← encoded]
  exact gcSlot_bijective.1 sampleGCSlot fits

end FuseeFs.Memory
