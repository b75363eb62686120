import FuseeFs.Index.Buckets
import FuseeFs.Library.Bytes
import FuseeFs.Replication.Protocol

/-!
# Log entries in remote memory

A request writes its key-value pair and a log tail into the subblock that was
allocated for it.  The tail links the entry to the ones before and after it, so
that a recovering client can walk along the entries (`mm_traverse_log`).  The
request functions, the commit record and the recovery each compute for
themselves where the tail lies; all of them are modelled on the bytes.
-/

namespace FuseeFs.Memory

open Index Library.Bytes Library.Packed Replication

/-! ## Subblocks -/

/-- The primary replica of a subblock: a server and an address on it, which is
a multiple of 256 that fits 48 bits. -/
@[ext]
structure SubblockInfo where
  serverId : UInt8
  addr : ℕ
  addr_aligned : 256 ∣ addr
  addr_lt : addr < 2 ^ 48

instance : DecidableEq SubblockInfo := fun info other =>
  decidable_of_iff (info.serverId = other.serverId ∧ info.addr = other.addr)
    SubblockInfo.ext_iff.symm

namespace SubblockInfo

/-- The address with the server in its lowest byte, as `mm_alloc` puts it into
`next_addr_list` and `prev_addr_list`. -/
def tagged (subblock : SubblockInfo) : ℕ :=
  subblock.addr ||| subblock.serverId.toNat

theorem tagged_eq (subblock : SubblockInfo) :
    subblock.tagged = subblock.addr + subblock.serverId.toNat := by
  obtain ⟨block, split⟩ := subblock.addr_aligned
  have small : subblock.serverId.toNat < 2 ^ 8 := subblock.serverId.toNat_lt
  rw [tagged, split]
  exact (Nat.two_pow_add_eq_or_of_lt small block).symm

theorem tagged_div (subblock : SubblockInfo) : subblock.tagged / 256 = subblock.addr / 256 := by
  obtain ⟨_, _⟩ := subblock.addr_aligned
  have small := subblock.serverId.toNat_lt
  rw [tagged_eq]
  omega

theorem tagged_injective : Function.Injective tagged := by
  rintro ⟨serverId, _, aligned, _⟩ ⟨serverId', _, aligned', _⟩ same
  simp only [tagged_eq] at same
  have small := serverId.toNat_lt
  have small' := serverId'.toNat_lt
  obtain ⟨block, rfl⟩ := aligned
  obtain ⟨block', rfl⟩ := aligned'
  obtain ⟨rfl, servers⟩ : block = block' ∧ serverId.toNat = serverId'.toNat := by omega
  obtain rfl := UInt8.toNat_inj.mp servers
  rfl

end SubblockInfo

/-! ## Layout -/

/-- `sizeof(KVLogHeader)`, with the fields at the offsets 0, 2 and 4. -/
def sizeofKVLogHeader : ℕ := 8

/-- `sizeof(KVLogTail)`: `next_addr` at 0, `prev_addr` at 6, `old_value` at 16,
`crc` at 24, `op` at 25, and padding. -/
def sizeofKVLogTail : ℕ := 32

def offsetofPrevAddr : ℕ := 6

def offsetofOldValue : ℕ := 16

def offsetofOp : ℕ := 25

def keyLength (entry : Image) : ℕ :=
  ofBytes (load entry 2 2)

def valueLength (entry : Image) : ℕ :=
  ofBytes (load entry 4 4)

def tailOffset (entry : Image) : ℕ :=
  sizeofKVLogHeader + keyLength entry + valueLength entry

def kvOp : KVRequestType → UInt8
  | .insert => 1
  | .update => 2
  | .delete => 3

structure KVInfo where
  lAddr : Image
  keyLen : ℕ
  keyLen_eq : keyLength lAddr = keyLen

structure LogAllocCtx where
  current : SubblockInfo
  next : SubblockInfo
  prev : SubblockInfo

/-! ## Writing an entry -/

/-- The six bytes of a link: the 40 middle bits of an address and the server. -/
def linkBytes (subblock : SubblockInfo) : List UInt8 :=
  hashIndexConvert64To40Bits subblock.tagged ++ [UInt8.ofNat (subblock.tagged % 256)]

@[simp]
theorem length_linkBytes (subblock : SubblockInfo) : (linkBytes subblock).length = 6 := by
  simp [linkBytes, hashIndexConvert64To40Bits]

def updateLogTail (entry : Image) (tail : ℕ) (mmAllocCtx : LogAllocCtx) : Image :=
  store (store entry tail (linkBytes mmAllocCtx.next)) (tail + offsetofPrevAddr)
    (linkBytes mmAllocCtx.prev)

structure WriteRequest where
  lAddr : Image
  tail : ℕ
  length : ℕ

/-- The statements that all request functions share: the operation goes into
the tail, the header becomes valid and the tail is linked. -/
def fillEntry (entry : Image) (tail : ℕ) (reqType : KVRequestType) (mmAllocCtx : LogAllocCtx) :
    Image :=
  updateLogTail (store (store entry (tail + offsetofOp) [kvOp reqType]) 0 [1]) tail mmAllocCtx

section Requests

variable (subblockSz : ℕ) (kvInfo : KVInfo) (mmAllocCtx : LogAllocCtx)

/-- `gen_write_kv_sr_lists`: one whole subblock.  The length of a transfer is a
32-bit number. -/
def genWriteKvLength : ℕ :=
  subblockSz % 2 ^ 32

/-- `gen_write_del_log_sr_lists`: no room for a value. -/
def genWriteDelLogLength : ℕ :=
  sizeofKVLogHeader + sizeofKVLogTail + kvInfo.keyLen

def writeKv (reqType : KVRequestType) : WriteRequest where
  lAddr := fillEntry kvInfo.lAddr (tailOffset kvInfo.lAddr) reqType mmAllocCtx
  tail := tailOffset kvInfo.lAddr
  length := genWriteKvLength subblockSz

def kvInsertReadBucketsAndWriteKv : WriteRequest :=
  writeKv subblockSz kvInfo mmAllocCtx .insert

def kvInsertReadBucketsAndWriteKvSync : WriteRequest :=
  writeKv subblockSz kvInfo mmAllocCtx .insert

def kvUpdateReadBucketsAndWriteKv : WriteRequest :=
  writeKv subblockSz kvInfo mmAllocCtx .update

def kvUpdateReadBucketsAndWriteKvSync : WriteRequest :=
  writeKv subblockSz kvInfo mmAllocCtx .update

/-- The tail is cleared and lies directly behind the key. -/
def kvDeleteReadBucketsWriteLog : WriteRequest :=
  let tail := sizeofKVLogHeader + keyLength kvInfo.lAddr
  { lAddr := fillEntry (store kvInfo.lAddr tail (List.replicate sizeofKVLogTail 0)) tail .delete
      mmAllocCtx
    tail := tail
    length := genWriteDelLogLength kvInfo }

/-- The tail lies behind key and value, but the transfer is as short as in the
asynchronous function. -/
def kvDeleteReadBucketsWriteLogSync : WriteRequest where
  lAddr := fillEntry kvInfo.lAddr (tailOffset kvInfo.lAddr) .delete mmAllocCtx
  tail := tailOffset kvInfo.lAddr
  length := genWriteDelLogLength kvInfo

def writeEntry : KVRequestType → Variant → WriteRequest
  | .insert, .async => kvInsertReadBucketsAndWriteKv subblockSz kvInfo mmAllocCtx
  | .insert, .sync => kvInsertReadBucketsAndWriteKvSync subblockSz kvInfo mmAllocCtx
  | .update, .async => kvUpdateReadBucketsAndWriteKv subblockSz kvInfo mmAllocCtx
  | .update, .sync => kvUpdateReadBucketsAndWriteKvSync subblockSz kvInfo mmAllocCtx
  | .delete, .async => kvDeleteReadBucketsWriteLog kvInfo mmAllocCtx
  | .delete, .sync => kvDeleteReadBucketsWriteLogSync kvInfo mmAllocCtx

/-- `prepare_log_commit_addrs`: where the commit record will be written, with
offsets computed in 32 bits. -/
def prepareLogCommitAddrs : ℕ :=
  mmAllocCtx.current.addr + (tailOffset kvInfo.lAddr % 2 ^ 32 + offsetofOldValue) % 2 ^ 32

end Requests

def WriteRequest.execute (req : WriteRequest) (subblock : Image) : Image :=
  copy req.lAddr subblock req.length

/-! ## Reading an entry -/

structure TailInfo where
  nextAddr : ℕ
  nextServerId : UInt8
  prevAddr : ℕ
  prevServerId : UInt8
  op : UInt8
deriving DecidableEq, Repr

def readTail (entry : Image) (tail : ℕ) : TailInfo where
  nextAddr := hashIndexConvert40To64Bits (load entry tail 5)
  nextServerId := entry (tail + 5)
  prevAddr := hashIndexConvert40To64Bits (load entry (tail + offsetofPrevAddr) 5)
  prevServerId := entry (tail + offsetofPrevAddr + 5)
  op := entry (tail + offsetofOp)

/-- The part of `mm_traverse_log` that reads one subblock. -/
def traverseEntry (subblock : Image) : TailInfo :=
  readTail subblock (tailOffset subblock)

def tailInfo (reqType : KVRequestType) (mmAllocCtx : LogAllocCtx) : TailInfo where
  nextAddr := mmAllocCtx.next.addr
  nextServerId := mmAllocCtx.next.serverId
  prevAddr := mmAllocCtx.prev.addr
  prevServerId := mmAllocCtx.prev.serverId
  op := kvOp reqType

/-! ## Tails that are read back -/

variable {entry : Image} {offset : ℕ}

theorem load_five_of_load_six {link : List UInt8} {last : UInt8}
    (six : load entry offset 6 = link ++ [last]) :
    load entry offset 5 = link ∧ entry (offset + 5) = last := by
  have split : load entry offset 6 = load entry offset 5 ++ [entry (offset + 5)] := by
    simp [load, List.range_succ]
  rw [split] at six
  simpa using List.append_inj' six rfl

theorem link_of_load {subblock : SubblockInfo} (stored : load entry offset 6 = linkBytes subblock) :
    hashIndexConvert40To64Bits (load entry offset 5) = subblock.addr ∧
      entry (offset + 5) = subblock.serverId := by
  obtain ⟨address, server⟩ := load_five_of_load_six stored
  have middle : hashIndexConvert64To40Bits subblock.tagged =
      hashIndexConvert64To40Bits subblock.addr := by
    rw [hashIndexConvert64To40Bits, hashIndexConvert64To40Bits, subblock.tagged_div]
  have lowest : subblock.tagged % 256 = subblock.serverId.toNat := by
    obtain ⟨_, _⟩ := subblock.addr_aligned
    have small := subblock.serverId.toNat_lt
    rw [subblock.tagged_eq]
    omega
  refine ⟨?_, ?_⟩
  · rw [address, middle]
    exact hashIndexConvert40To64Bits_64To40 subblock.addr_aligned subblock.addr_lt
  · rw [server, lowest]
    exact UInt8.ofNat_toNat

section FillEntry

variable {entry : Image} {tail : ℕ} {reqType : KVRequestType} {mmAllocCtx : LogAllocCtx}

theorem load_fillEntry_of_header {width : ℕ} (pos : 0 < offset)
    (header : offset + width ≤ sizeofKVLogHeader) (behind : sizeofKVLogHeader ≤ tail) :
    load (fillEntry entry tail reqType mmAllocCtx) offset width = load entry offset width := by
  simp only [sizeofKVLogHeader] at header behind
  rw [fillEntry, updateLogTail, load_store_of_disjoint (by simp [offsetofPrevAddr]; omega),
    load_store_of_disjoint (by omega), load_store_of_disjoint (by simp; omega),
    load_store_of_disjoint (by simp [offsetofOp]; omega)]

theorem tailOffset_fillEntry (behind : sizeofKVLogHeader ≤ tail) :
    tailOffset (fillEntry entry tail reqType mmAllocCtx) = tailOffset entry := by
  simp only [tailOffset, keyLength, valueLength]
  rw [load_fillEntry_of_header (by decide) (by decide) behind,
    load_fillEntry_of_header (by decide) (by decide) behind]

theorem op_fillEntry (behind : sizeofKVLogHeader ≤ tail) :
    fillEntry entry tail reqType mmAllocCtx (tail + offsetofOp) = kvOp reqType := by
  simp only [sizeofKVLogHeader] at behind
  rw [fillEntry, updateLogTail, store_of_not_mem (by simp [offsetofOp, offsetofPrevAddr]),
    store_of_not_mem (by simp [offsetofOp]), store_of_not_mem (by simp; omega)]
  simp [store]

theorem readTail_fillEntry (behind : sizeofKVLogHeader ≤ tail) :
    readTail (fillEntry entry tail reqType mmAllocCtx) tail = tailInfo reqType mmAllocCtx := by
  have next : load (fillEntry entry tail reqType mmAllocCtx) tail 6 =
      linkBytes mmAllocCtx.next := by
    rw [fillEntry, updateLogTail, load_store_of_disjoint (by simp [offsetofPrevAddr]),
      load_store_self (length_linkBytes _)]
  have prev : load (fillEntry entry tail reqType mmAllocCtx) (tail + offsetofPrevAddr) 6 =
      linkBytes mmAllocCtx.prev := by
    rw [fillEntry, updateLogTail, load_store_self (length_linkBytes _)]
  simp only [readTail, tailInfo, link_of_load next, link_of_load prev, op_fillEntry behind]

end FillEntry

variable {source : Image} {length : ℕ}

theorem readTail_copy {target : Image} {tail : ℕ} (covered : tail + offsetofOp < length) :
    readTail (copy source target length) tail = readTail source tail := by
  simp only [offsetofOp] at covered
  simp only [readTail, offsetofPrevAddr, offsetofOp]
  rw [load_copy (by omega), load_copy (by omega), copy_of_lt (by omega), copy_of_lt (by omega),
    copy_of_lt (by omega)]

theorem tailOffset_copy {target : Image} (covered : sizeofKVLogHeader ≤ length) :
    tailOffset (copy source target length) = tailOffset source := by
  simp only [sizeofKVLogHeader] at covered
  simp only [tailOffset, keyLength, valueLength]
  rw [load_copy (by omega), load_copy (by omega)]

/-- An entry is found by the traversal if its header says where the tail was
put and the transfer reaches behind the operation. -/
theorem traverseEntry_copy_fillEntry {entry subblock : Image} {tail length : ℕ}
    {reqType : KVRequestType} {mmAllocCtx : LogAllocCtx}
    (placed : tailOffset entry = tail) (covered : tail + offsetofOp < length) :
    traverseEntry (copy (fillEntry entry tail reqType mmAllocCtx) subblock length) =
      tailInfo reqType mmAllocCtx := by
  have behind : sizeofKVLogHeader ≤ tail := by
    rw [← placed, tailOffset, Nat.add_assoc]
    exact Nat.le_add_right _ _
  have header : sizeofKVLogHeader ≤ length := by omega
  rw [traverseEntry, tailOffset_copy header, tailOffset_fillEntry behind, placed,
    readTail_copy covered, readTail_fillEntry behind]

theorem op_traverseEntry_copy {subblock : Image}
    (short : length ≤ tailOffset (copy source subblock length) + offsetofOp) :
    (traverseEntry (copy source subblock length)).op =
      subblock (tailOffset (copy source subblock length) + offsetofOp) :=
  copy_of_le short

/-! ## Which entries are written where they are read -/

/-- The traversal reads the tail that a request has written, and the commit
record goes into that tail. -/
def ReadBack (subblockSz : ℕ) (reqType : KVRequestType) (variant : Variant) (kvInfo : KVInfo)
    (mmAllocCtx : LogAllocCtx) (subblock : Image) : Prop :=
  let req := writeEntry subblockSz kvInfo mmAllocCtx reqType variant
  traverseEntry (req.execute subblock) = tailInfo reqType mmAllocCtx ∧
    prepareLogCommitAddrs kvInfo mmAllocCtx = mmAllocCtx.current.addr + req.tail + offsetofOldValue

/-- All entries with the given lengths are read back, whatever is in them, in
the links and in the memory they go to. -/
def WrittenWhereRead (subblockSz : ℕ) (reqType : KVRequestType) (variant : Variant)
    (keyLen : UInt16) (valueLen : UInt32) : Prop :=
  ∀ (kvInfo : KVInfo) (mmAllocCtx : LogAllocCtx) (subblock : Image),
    keyLength kvInfo.lAddr = keyLen.toNat → valueLength kvInfo.lAddr = valueLen.toNat →
      ReadBack subblockSz reqType variant kvInfo mmAllocCtx subblock

/-- The transfer of an insert or an update reaches behind the operation in the
tail, as it does for every subblock below 4 GiB that the pair fits into.  A
delete must not bring a value along; the synchronous one has six bytes of
padding to spare. -/
def TailTransferred (subblockSz : ℕ) (reqType : KVRequestType) (variant : Variant)
    (keyLen : UInt16) (valueLen : UInt32) : Prop :=
  match reqType, variant with
  | .delete, .async => valueLen = 0
  | .delete, .sync => valueLen.toNat ≤ 6
  | _, _ => sizeofKVLogHeader + keyLen.toNat + valueLen.toNat + offsetofOp < subblockSz % 2 ^ 32

instance (subblockSz : ℕ) (keyLen : UInt16) (valueLen : UInt32) :
    (reqType : KVRequestType) → (variant : Variant) →
      Decidable (TailTransferred subblockSz reqType variant keyLen valueLen)
  | .delete, .async => inferInstanceAs (Decidable (valueLen = 0))
  | .delete, .sync => inferInstanceAs (Decidable (valueLen.toNat ≤ 6))
  | .insert, _ | .update, _ => inferInstanceAs (Decidable
      (sizeofKVLogHeader + keyLen.toNat + valueLen.toNat + offsetofOp < subblockSz % 2 ^ 32))

def headerEntry (keyLen : UInt16) (valueLen : UInt32) : Image :=
  store (store (fun _ => 0) 2 (toBytes 2 keyLen.toNat)) 4 (toBytes 4 valueLen.toNat)

theorem keyLength_headerEntry (keyLen : UInt16) (valueLen : UInt32) :
    keyLength (headerEntry keyLen valueLen) = keyLen.toNat := by
  rw [keyLength, headerEntry, load_store_of_disjoint (by simp), load_store_self (by simp)]
  exact ofBytes_toBytes keyLen.toNat_lt

theorem valueLength_headerEntry (keyLen : UInt16) (valueLen : UInt32) :
    valueLength (headerEntry keyLen valueLen) = valueLen.toNat := by
  rw [valueLength, headerEntry, load_store_self (by simp)]
  exact ofBytes_toBytes valueLen.toNat_lt

section Transferred

variable {subblockSz : ℕ} {kvInfo : KVInfo} {mmAllocCtx : LogAllocCtx} {subblock : Image}

theorem prepareLogCommitAddrs_eq (small : tailOffset kvInfo.lAddr + offsetofOp < 2 ^ 32) :
    prepareLogCommitAddrs kvInfo mmAllocCtx =
      mmAllocCtx.current.addr + tailOffset kvInfo.lAddr + offsetofOldValue := by
  simp only [offsetofOp] at small
  simp only [prepareLogCommitAddrs, offsetofOldValue]
  omega

theorem readBack_of_covered {reqType : KVRequestType} {variant : Variant}
    (req : writeEntry subblockSz kvInfo mmAllocCtx reqType variant = ⟨fillEntry kvInfo.lAddr
      (tailOffset kvInfo.lAddr) reqType mmAllocCtx, tailOffset kvInfo.lAddr, length⟩)
    (covered : tailOffset kvInfo.lAddr + offsetofOp < length) (small : length < 2 ^ 32) :
    ReadBack subblockSz reqType variant kvInfo mmAllocCtx subblock := by
  rw [ReadBack, req]
  exact ⟨traverseEntry_copy_fillEntry rfl covered, prepareLogCommitAddrs_eq (covered.trans small)⟩

/-- An asynchronous delete puts its tail where the value should begin. -/
theorem readBack_kvDelete (empty : valueLength kvInfo.lAddr = 0) :
    ReadBack subblockSz .delete .async kvInfo mmAllocCtx subblock := by
  have keyLen_lt : keyLength kvInfo.lAddr < 256 ^ 2 := ofBytes_load_lt
  have tail : tailOffset kvInfo.lAddr = sizeofKVLogHeader + keyLength kvInfo.lAddr := by
    rw [tailOffset, empty, Nat.add_zero]
  have cleared : tailOffset (store kvInfo.lAddr (tailOffset kvInfo.lAddr)
      (List.replicate sizeofKVLogTail 0)) = tailOffset kvInfo.lAddr := by
    have behind : 8 ≤ tailOffset kvInfo.lAddr := by simp [tail, sizeofKVLogHeader]
    simp only [tailOffset, keyLength, valueLength] at behind ⊢
    rw [load_store_of_disjoint (by omega), load_store_of_disjoint (by omega)]
  have covered : tailOffset kvInfo.lAddr + offsetofOp < genWriteDelLogLength kvInfo := by
    simp only [genWriteDelLogLength, ← kvInfo.keyLen_eq, tail, sizeofKVLogHeader, sizeofKVLogTail,
      offsetofOp]
    omega
  have small : genWriteDelLogLength kvInfo < 2 ^ 32 := by
    simp only [genWriteDelLogLength, ← kvInfo.keyLen_eq, sizeofKVLogHeader, sizeofKVLogTail]
    omega
  refine ⟨?_, ?_⟩
  · simp only [writeEntry, kvDeleteReadBucketsWriteLog, WriteRequest.execute, ← tail]
    exact traverseEntry_copy_fillEntry cleared covered
  · simp only [writeEntry, kvDeleteReadBucketsWriteLog, ← tail]
    exact prepareLogCommitAddrs_eq (covered.trans small)

end Transferred

variable {reqType : KVRequestType}

theorem writtenWhereRead_of_tailTransferred {subblockSz : ℕ} {variant : Variant} {keyLen : UInt16}
    {valueLen : UInt32} (transferred : TailTransferred subblockSz reqType variant keyLen valueLen) :
    WrittenWhereRead subblockSz reqType variant keyLen valueLen := by
  intro kvInfo mmAllocCtx subblock keyLen_eq valueLen_eq
  have tail : tailOffset kvInfo.lAddr = sizeofKVLogHeader + keyLen.toNat + valueLen.toNat := by
    rw [tailOffset, keyLen_eq, valueLen_eq]
  have word : subblockSz % 2 ^ 32 < 2 ^ 32 := Nat.mod_lt _ (by decide)
  cases reqType with
  | insert => cases variant <;> exact readBack_of_covered rfl (tail ▸ transferred) word
  | update => cases variant <;> exact readBack_of_covered rfl (tail ▸ transferred) word
  | delete =>
    cases variant with
    | async =>
      have empty : valueLen = 0 := transferred
      exact readBack_kvDelete (by rw [valueLen_eq, empty]; rfl)
    | sync =>
      have room : valueLen.toNat ≤ 6 := transferred
      have keyLen_lt := keyLen.toNat_lt
      apply readBack_of_covered rfl
      · rw [tail, genWriteDelLogLength, ← kvInfo.keyLen_eq, keyLen_eq]
        simp only [sizeofKVLogHeader, sizeofKVLogTail, offsetofOp]
        omega
      · rw [genWriteDelLogLength, ← kvInfo.keyLen_eq, keyLen_eq]
        simp only [sizeofKVLogHeader, sizeofKVLogTail]
        omega

section Lost

variable (subblockSz : ℕ) (keyLen : UInt16) (valueLen : UInt32) (mmAllocCtx : LogAllocCtx)

def headerInfo : KVInfo where
  lAddr := headerEntry keyLen valueLen
  keyLen := keyLen.toNat
  keyLen_eq := keyLength_headerEntry keyLen valueLen

theorem tailOffset_headerInfo :
    tailOffset (headerInfo keyLen valueLen).lAddr =
      sizeofKVLogHeader + keyLen.toNat + valueLen.toNat := by
  rw [tailOffset, headerInfo, keyLength_headerEntry, valueLength_headerEntry]

variable {subblockSz keyLen valueLen}

theorem op_traverseEntry_of_short {tail : ℕ} (behind : sizeofKVLogHeader ≤ tail)
    (short : length ≤ tailOffset entry + offsetofOp) :
    (traverseEntry (copy (fillEntry entry tail reqType mmAllocCtx) (fun _ => 0) length)).op = 0 := by
  apply op_traverseEntry_copy
  rcases Nat.lt_or_ge length sizeofKVLogHeader with shorter | header
  · rw [tailOffset]
    omega
  · rwa [tailOffset_copy header, tailOffset_fillEntry behind]

/-- Where an asynchronous delete with a value expects the operation, there is
padding of its own tail or nothing. -/
theorem op_traverseEntry_kvDelete (value : valueLen ≠ 0) :
    (traverseEntry ((kvDeleteReadBucketsWriteLog (headerInfo keyLen valueLen) mmAllocCtx).execute
      fun _ => 0)).op = 0 := by
  have pos : 0 < valueLen.toNat := by
    rcases Nat.eq_zero_or_pos valueLen.toNat with zero | pos
    · exact absurd (UInt32.toNat_inj.mp zero) value
    · exact pos
  have tail : sizeofKVLogHeader + keyLength (headerInfo keyLen valueLen).lAddr =
      8 + keyLen.toNat := by
    rw [headerInfo, keyLength_headerEntry, sizeofKVLogHeader]
  have length : genWriteDelLogLength (headerInfo keyLen valueLen) = 40 + keyLen.toNat := rfl
  have cleared : tailOffset (store (headerInfo keyLen valueLen).lAddr (8 + keyLen.toNat)
      (List.replicate sizeofKVLogTail 0)) = 8 + keyLen.toNat + valueLen.toNat := by
    rw [tailOffset, keyLength, valueLength, load_store_of_disjoint (by omega),
      load_store_of_disjoint (by omega)]
    exact tailOffset_headerInfo keyLen valueLen
  simp only [kvDeleteReadBucketsWriteLog, WriteRequest.execute, tail, length]
  rcases Nat.lt_or_ge 6 valueLen.toNat with long | padding
  · apply op_traverseEntry_of_short _ (by simp [sizeofKVLogHeader])
    rw [cleared, offsetofOp]
    omega
  · -- the operation is looked for in the six bytes of padding
    rw [traverseEntry, tailOffset_copy (by rw [sizeofKVLogHeader]; omega),
      tailOffset_fillEntry (by simp [sizeofKVLogHeader]), cleared]
    simp only [readTail, offsetofOp]
    rw [copy_of_lt (by omega), fillEntry, updateLogTail,
      store_of_not_mem (by simp [offsetofPrevAddr]; omega), store_of_not_mem (by simp; omega),
      store_of_not_mem (by simp), store_of_not_mem (by simp [offsetofOp]; omega)]
    exact store_replicate_of_mem (by omega) (by simp [sizeofKVLogTail]; omega)

variable (reqType : KVRequestType) (variant : Variant)

theorem op_traverseEntry_of_not_tailTransferred
    (lost : ¬ TailTransferred subblockSz reqType variant keyLen valueLen) :
    (traverseEntry ((writeEntry subblockSz (headerInfo keyLen valueLen) mmAllocCtx reqType
      variant).execute fun _ => 0)).op = 0 := by
  have placed := tailOffset_headerInfo keyLen valueLen
  have behind : sizeofKVLogHeader ≤ tailOffset (headerInfo keyLen valueLen).lAddr := by
    rw [placed]
    omega
  cases reqType with
  | insert =>
    cases variant <;>
      exact op_traverseEntry_of_short _ behind (placed ▸ Nat.le_of_not_lt lost)
  | update =>
    cases variant <;>
      exact op_traverseEntry_of_short _ behind (placed ▸ Nat.le_of_not_lt lost)
  | delete =>
    cases variant with
    | async => exact op_traverseEntry_kvDelete _ lost
    | sync =>
      apply op_traverseEntry_of_short _ behind
      have long : 6 < valueLen.toNat := Nat.lt_of_not_le lost
      have length : genWriteDelLogLength (headerInfo keyLen valueLen) = 40 + keyLen.toNat := rfl
      simp only [writeEntry, kvDeleteReadBucketsWriteLogSync, placed, length,
        sizeofKVLogHeader, offsetofOp]
      omega

end Lost

theorem kvOp_ne_zero (reqType : KVRequestType) : kvOp reqType ≠ 0 := by
  cases reqType <;> decide

/-- Log entries are written where they are read exactly if the tail that the
header announces is transferred. -/
theorem writtenWhereRead_iff_tailTransferred (subblockSz : ℕ) (reqType : KVRequestType)
    (variant : Variant) (keyLen : UInt16) (valueLen : UInt32) :
    WrittenWhereRead subblockSz reqType variant keyLen valueLen ↔
      TailTransferred subblockSz reqType variant keyLen valueLen := by
  constructor
  · intro written
    by_contra lost
    let nowhere : SubblockInfo := ⟨0, 0, by decide, by decide⟩
    have found := (written (headerInfo keyLen valueLen) ⟨nowhere, nowhere, nowhere⟩ (fun _ => 0)
      (keyLength_headerEntry keyLen valueLen) (valueLength_headerEntry keyLen valueLen)).1
    have missing := op_traverseEntry_of_not_tailTransferred ⟨nowhere, nowhere, nowhere⟩ reqType
      variant lost
    rw [found] at missing
    exact kvOp_ne_zero reqType missing
  · exact writtenWhereRead_of_tailTransferred

/-- A delete of a key of one byte that brings a value of one byte along, in
subblocks of 256 bytes: its entry cannot be read. -/
theorem not_writtenWhereRead_delete_value : ¬ WrittenWhereRead 256 .delete .async 1 1 := by
  intro written
  have found := written (headerInfo 1 1)
    ⟨⟨0, 256, by decide, by decide⟩, ⟨0, 512, by decide, by decide⟩, ⟨0, 0, by decide, by decide⟩⟩
    (fun _ => 0) (keyLength_headerEntry 1 1) (valueLength_headerEntry 1 1)
  exact absurd found.1 (by decide)

end FuseeFs.Memory
