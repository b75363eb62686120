import FuseeFs.Library.BitFields
import FuseeFs.Memory.LogEntry
import FuseeFs.Memory.Placement

/-!
# Packed addresses

An address and a server are packed in three ways: as the pointer and the server
of an index slot, as the six bytes of a link in a log tail, and as one word with
the server in the lowest byte of the address.  The functions are modelled with
the shifts and masks of the source here; the other modules use them as functions
on numbers.
-/

namespace FuseeFs.Memory.Packings

open List Index Library.BitFields Library.Packed Memory.Placement

def byteAt (bytes : List UInt8) (index : ℕ) : UInt64 :=
  (bytes.getD index 0).toUInt64

def hashIndexConvert40To64Bits (addr : List UInt8) : UInt64 :=
  byteAt addr 0 <<< 40 ||| byteAt addr 1 <<< 32 ||| byteAt addr 2 <<< 24 |||
    byteAt addr 3 <<< 16 ||| byteAt addr 4 <<< 8

def hashIndexConvert64To40Bits (addr : UInt64) : List UInt8 :=
  [(addr >>> 40 &&& 0xFF).toUInt8, (addr >>> 32 &&& 0xFF).toUInt8, (addr >>> 24 &&& 0xFF).toUInt8,
    (addr >>> 16 &&& 0xFF).toUInt8, (addr >>> 8 &&& 0xFF).toUInt8]

theorem toUInt8_shiftRight_and (word shift : UInt64) (bits : ℕ) (amount : shift.toNat = bits)
    (small : bits < 64) :
    (word >>> shift &&& 0xFF).toUInt8 = UInt8.ofNat (word.toNat / 2 ^ bits) := by
  have part : (word >>> shift &&& 0xFF).toNat = word.toNat / 2 ^ bits % 2 ^ 8 :=
    toNat_shiftRight_and amount small rfl
  apply UInt8.toNat_inj.mp
  rw [UInt64.toNat_toUInt8, part, UInt8.toNat_ofNat', Nat.mod_mod]

theorem hashIndexConvert64To40Bits_eq (addr : UInt64) :
    hashIndexConvert64To40Bits addr = Index.hashIndexConvert64To40Bits addr.toNat := by
  unfold hashIndexConvert64To40Bits
  rw [toUInt8_shiftRight_and addr 40 40 rfl (by decide),
    toUInt8_shiftRight_and addr 32 32 rfl (by decide),
    toUInt8_shiftRight_and addr 24 24 rfl (by decide),
    toUInt8_shiftRight_and addr 16 16 rfl (by decide),
    toUInt8_shiftRight_and addr 8 8 rfl (by decide)]
  simp only [Index.hashIndexConvert64To40Bits, toBytes, Nat.div_div_eq_div_mul, reverse_cons,
    reverse_nil, nil_append, cons_append]
  norm_num

theorem toNat_byteAt (bytes : List UInt8) (index : ℕ) :
    (byteAt bytes index).toNat = (bytes.getD index 0).toNat :=
  UInt8.toNat_toUInt64 _

theorem toNat_hashIndexConvert40To64Bits_eq_sum (addr : List UInt8) :
    (hashIndexConvert40To64Bits addr).toNat =
      (byteAt addr 0).toNat * 2 ^ 40 + ((byteAt addr 1).toNat * 2 ^ 32 +
        ((byteAt addr 2).toNat * 2 ^ 24 + ((byteAt addr 3).toNat * 2 ^ 16 +
          (byteAt addr 4).toNat * 2 ^ 8))) := by
  have small : ∀ index, (byteAt addr index).toNat < 2 ^ 8 := fun index =>
    (toNat_byteAt addr index).trans_lt (UInt8.toNat_lt _)
  have byte0 := small 0
  have byte1 := small 1
  have byte2 := small 2
  have byte3 := small 3
  have byte4 := small 4
  -- each byte is above all that follow it
  have fifth := @toNat_shiftLeft_eq_mul (byteAt addr 4) 8 8 rfl (by decide) (by omega)
  have fourth := @toNat_shiftLeft_or (byteAt addr 3) (byteAt addr 4 <<< 8) 16 16 rfl (by decide)
    (by omega) (fifth.trans_lt (by omega))
  have third := @toNat_shiftLeft_or (byteAt addr 2) _ 24 24 rfl (by decide) (by omega)
    (fourth.trans_lt (by omega))
  have second := @toNat_shiftLeft_or (byteAt addr 1) _ 32 32 rfl (by decide) (by omega)
    (third.trans_lt (by omega))
  have first := @toNat_shiftLeft_or (byteAt addr 0) _ 40 40 rfl (by decide) (by omega)
    (second.trans_lt (by omega))
  rw [hashIndexConvert40To64Bits, UInt64.or_assoc, UInt64.or_assoc, UInt64.or_assoc, first, second,
    third, fourth, fifth]

theorem toNat_hashIndexConvert40To64Bits {pointer : List UInt8} (size : pointer.length = 5)
    (rest : List UInt8) :
    (hashIndexConvert40To64Bits (pointer ++ rest)).toNat =
      Index.hashIndexConvert40To64Bits pointer := by
  match pointer, size with
  | [first, second, third, fourth, fifth], _ =>
    rw [toNat_hashIndexConvert40To64Bits_eq_sum]
    simp only [toNat_byteAt, Index.hashIndexConvert40To64Bits]
    simp [ofBytes]
    omega

/-- A pointer that is decoded and encoded again keeps its bytes. -/
theorem hashIndexConvert64To40Bits_40To64 {pointer : List UInt8} (size : pointer.length = 5) :
    hashIndexConvert64To40Bits (hashIndexConvert40To64Bits pointer) = pointer := by
  have number := toNat_hashIndexConvert40To64Bits size []
  rw [append_nil] at number
  rw [hashIndexConvert64To40Bits_eq, number]
  exact Index.hashIndexConvert64To40Bits_40To64 size

@[simp]
theorem length_hashIndexConvert64To40Bits (addr : UInt64) :
    (hashIndexConvert64To40Bits addr).length = 5 :=
  rfl

/-- A subblock's address survives, whatever byte follows the pointer. -/
theorem hashIndexConvert40To64Bits_64To40 {addr word : UInt64} (aligned : 256 ∣ addr.toNat)
    (bound : addr.toNat < 2 ^ 48) (same : word.toNat / 256 = addr.toNat / 256) (rest : List UInt8) :
    hashIndexConvert40To64Bits (hashIndexConvert64To40Bits word ++ rest) = addr := by
  have bytes : hashIndexConvert64To40Bits word = Index.hashIndexConvert64To40Bits addr.toNat := by
    rw [hashIndexConvert64To40Bits_eq, Index.hashIndexConvert64To40Bits, same]
    rfl
  apply UInt64.toNat_inj.mp
  rw [toNat_hashIndexConvert40To64Bits rfl, bytes]
  exact Index.hashIndexConvert40To64Bits_64To40 aligned bound

def fillSlot (fp kvLen serverId : UInt8) (addr : UInt64) : RaceHashSlot where
  fp := fp
  kvLen := kvLen
  serverId := serverId
  pointer := hashIndexConvert64To40Bits addr

def convertSlotToAddr (slot : RaceHashSlot) : BlockAddr :=
  (slot.serverId, hashIndexConvert40To64Bits slot.pointer)

/-- The links of a `KVLogTail`, six bytes each. -/
structure KVLogTail where
  nextAddr : List UInt8
  prevAddr : List UInt8
  nextAddr_length : nextAddr.length = 6
  prevAddr_length : prevAddr.length = 6

/-- `HashIndexConvert64To40Bits` into the first five of six bytes. -/
def storePointer (link : List UInt8) (word : UInt64) : List UInt8 :=
  hashIndexConvert64To40Bits word ++ link.drop 5

def storeLink (link : List UInt8) (word : UInt64) : List UInt8 :=
  (storePointer link word).set 5 (word &&& 0xFF).toUInt8

variable {link : List UInt8}

theorem length_storePointer (size : link.length = 6) (word : UInt64) :
    (storePointer link word).length = 6 := by
  simp [storePointer, size]

theorem length_storeLink (size : link.length = 6) (word : UInt64) :
    (storeLink link word).length = 6 := by
  rw [storeLink, length_set, length_storePointer size]

theorem storeLink_eq (size : link.length = 6) (word : UInt64) :
    storeLink link word = hashIndexConvert64To40Bits word ++ [(word &&& 0xFF).toUInt8] := by
  have last : (link.drop 5).length = 1 := by simp [size]
  obtain ⟨_, single⟩ := length_eq_one_iff.mp last
  rw [storeLink, storePointer, single]
  rfl

/-- `Client::update_log_tail`, with the words of `next_addr_list` and `prev_addr_list`. -/
def updateLogTail (tail : KVLogTail) (next prev : UInt64) : KVLogTail where
  nextAddr := storeLink tail.nextAddr next
  prevAddr := storeLink tail.prevAddr prev
  nextAddr_length := length_storeLink tail.nextAddr_length next
  prevAddr_length := length_storeLink tail.prevAddr_length prev

/-- `ClientCR::update_log_tail`, which leaves the server as it is. -/
def updateLogTailCR (tail : KVLogTail) (next prev : UInt64) : KVLogTail where
  nextAddr := storePointer tail.nextAddr next
  prevAddr := storePointer tail.prevAddr prev
  nextAddr_length := length_storePointer tail.nextAddr_length next
  prevAddr_length := length_storePointer tail.prevAddr_length prev

/-- How `mm_traverse_log` and `mm_alloc_log_info` read a link. -/
def readLink (link : List UInt8) : BlockAddr :=
  (link.getD 5 0, hashIndexConvert40To64Bits link)

/-- `prev_addr_list[0]` after `mm_alloc_log_info` -/
def mmAllocLogInfo (tail : KVLogTail) : UInt64 :=
  hashIndexConvert40To64Bits tail.prevAddr ||| (tail.prevAddr.getD 5 0).toUInt64

theorem tagged_div {addr : UInt64} (aligned : addr.toNat % 256 = 0) (serverId : UInt8) :
    (tagged (serverId, addr)).toNat / 256 = addr.toNat / 256 := by
  have small := serverId.toNat_lt
  rw [@toNat_tagged (serverId, addr) aligned]
  dsimp only
  omega

section Agreement

variable {addr : UInt64} (bound : addr.toNat < 2 ^ 48) (aligned : addr.toNat % 256 = 0)
include bound aligned

theorem convertSlotToAddr_fillSlot (fp kvLen serverId : UInt8) :
    convertSlotToAddr (raceHashSlot (convertSlotToInt (fillSlot fp kvLen serverId addr))) =
      (serverId, addr) := by
  have pointer := @hashIndexConvert40To64Bits_64To40 addr addr (Nat.dvd_of_mod_eq_zero aligned)
    bound rfl []
  rw [raceHashSlot_convertSlotToInt rfl, convertSlotToAddr]
  exact Prod.ext rfl ((congrArg _ (append_nil _).symm).trans pointer)

theorem readLink_storeLink (serverId : UInt8) (size : link.length = 6) :
    readLink (storeLink link (tagged (serverId, addr))) = (serverId, addr) := by
  rw [storeLink_eq size]
  apply Prod.ext
  · exact @taggedSid_tagged (serverId, addr) aligned
  · exact hashIndexConvert40To64Bits_64To40 (Nat.dvd_of_mod_eq_zero aligned) bound
      (tagged_div aligned serverId) _

end Agreement

structure PackingsAgree (addr : UInt64) (serverId : UInt8) : Prop where
  slot : ∀ fp kvLen,
    convertSlotToAddr (raceHashSlot (convertSlotToInt (fillSlot fp kvLen serverId addr))) =
      (serverId, addr)
  next : ∀ tail prev,
    readLink (updateLogTail tail (tagged (serverId, addr)) prev).nextAddr = (serverId, addr)
  prev : ∀ tail next,
    readLink (updateLogTail tail next (tagged (serverId, addr))).prevAddr = (serverId, addr)
  recovered : ∀ tail next,
    mmAllocLogInfo (updateLogTail tail next (tagged (serverId, addr))) = tagged (serverId, addr)
  /-- `get_new_block_from_server` decodes the words of the block maps and
  `mm_free_cur` those of `prev_addr_list` in the same way. -/
  word : (taggedSid (tagged (serverId, addr)), taggedAddr (tagged (serverId, addr))) =
    (serverId, addr)

/-- The three packings decode to the same address and server. -/
theorem packings_agree :
    (∀ (addr : UInt64) (serverId : UInt8), addr.toNat < 2 ^ 48 → addr.toNat % 256 = 0 →
      PackingsAgree addr serverId) ∧
    ∀ pointer : List UInt8, pointer.length = 5 →
      hashIndexConvert64To40Bits (hashIndexConvert40To64Bits pointer) = pointer := by
  refine ⟨fun addr serverId bound aligned => ?_, fun _ => hashIndexConvert64To40Bits_40To64⟩
  exact
    { slot := fun fp kvLen => convertSlotToAddr_fillSlot bound aligned fp kvLen serverId
      next := fun tail _ => readLink_storeLink bound aligned serverId tail.nextAddr_length
      prev := fun tail _ => readLink_storeLink bound aligned serverId tail.prevAddr_length
      recovered := fun tail next => by
        have read := readLink_storeLink bound aligned serverId tail.prevAddr_length
        obtain ⟨sid, pointer⟩ := Prod.ext_iff.mp read
        rw [mmAllocLogInfo, tagged]
        exact congrArg₂ (· ||| UInt8.toUInt64 ·) pointer sid
      word := Prod.ext (@taggedSid_tagged (serverId, addr) aligned)
        (@taggedAddr_tagged (serverId, addr) aligned) }

/-- The links of a subblock on server 3, and its other packings. -/
theorem packings_agree_sample :
    PackingsAgree 0x20213F00 3 ∧ hashIndexConvert64To40Bits 0x20213F00 = [0, 0, 0x20, 0x21, 0x3F] ∧
      hashIndexConvert64To40Bits (hashIndexConvert40To64Bits [1, 2, 3, 4, 5]) = [1, 2, 3, 4, 5] :=
  ⟨packings_agree.1 _ _ (by decide) (by decide), by decide, packings_agree.2 _ rfl⟩

section LogLinks

def linkWord (subblock : SubblockInfo) : UInt64 :=
  tagged (subblock.serverId, UInt64.ofNat subblock.addr)

variable (subblock : SubblockInfo)

theorem toNat_addr : (UInt64.ofNat subblock.addr).toNat = subblock.addr :=
  UInt64.toNat_ofNat_of_lt' (subblock.addr_lt.trans (by decide))

theorem addr_mod : (UInt64.ofNat subblock.addr).toNat % 256 = 0 := by
  rw [toNat_addr]
  exact Nat.mod_eq_zero_of_dvd subblock.addr_aligned

theorem linkBytes_eq :
    linkBytes subblock = hashIndexConvert64To40Bits (linkWord subblock) ++ [subblock.serverId] := by
  have word := @toNat_tagged (subblock.serverId, UInt64.ofNat subblock.addr) (addr_mod subblock)
  dsimp only at word
  rw [toNat_addr, ← SubblockInfo.tagged_eq] at word
  have server : UInt8.ofNat (subblock.tagged % 256) = subblock.serverId := by
    have small := subblock.serverId.toNat_lt
    have multiple := Nat.mod_eq_zero_of_dvd subblock.addr_aligned
    apply UInt8.toNat_inj.mp
    rw [UInt8.toNat_ofNat', SubblockInfo.tagged_eq]
    omega
  rw [linkBytes, hashIndexConvert64To40Bits_eq, linkWord, word, server]

variable {link : List UInt8} (size : link.length = 6)
include size

theorem storeLink_eq_linkBytes : storeLink link (linkWord subblock) = linkBytes subblock := by
  rw [storeLink_eq size, linkBytes_eq]
  exact congrArg (fun byte => _ ++ [byte])
    (@taggedSid_tagged (subblock.serverId, UInt64.ofNat subblock.addr) (addr_mod subblock))

theorem storePointer_eq_linkBytes_iff :
    storePointer link (linkWord subblock) = linkBytes subblock ↔
      link.getD 5 0 = subblock.serverId := by
  obtain ⟨server, last⟩ := length_eq_one_iff.mp (show (link.drop 5).length = 1 by simp [size])
  have behind : link.getD 5 0 = server := by
    have first : link[5]? = (link.drop 5)[0]? := by simp
    rw [getD_eq_getElem?_getD, first, last]
    rfl
  rw [storePointer, linkBytes_eq, last, behind, append_cancel_left_eq, singleton_inj]

end LogLinks

/-- `Client::update_log_tail` writes the links of the log.  Those of `ClientCR`
name whatever servers the buffer has named before. -/
theorem updateLogTail_links (tail : KVLogTail) (next prev : SubblockInfo) :
    ((updateLogTail tail (linkWord next) (linkWord prev)).nextAddr = linkBytes next ∧
      (updateLogTail tail (linkWord next) (linkWord prev)).prevAddr = linkBytes prev) ∧
    ((updateLogTailCR tail (linkWord next) (linkWord prev)).nextAddr = linkBytes next ↔
      tail.nextAddr.getD 5 0 = next.serverId) ∧
    ((updateLogTailCR tail (linkWord next) (linkWord prev)).prevAddr = linkBytes prev ↔
      tail.prevAddr.getD 5 0 = prev.serverId) :=
  ⟨⟨storeLink_eq_linkBytes next tail.nextAddr_length,
      storeLink_eq_linkBytes prev tail.prevAddr_length⟩,
    storePointer_eq_linkBytes_iff next tail.nextAddr_length,
    storePointer_eq_linkBytes_iff prev tail.prevAddr_length⟩

end FuseeFs.Memory.Packings
