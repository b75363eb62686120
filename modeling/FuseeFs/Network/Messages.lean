import FuseeFs.Library.BitFields
import FuseeFs.Library.ByteOrder

/-!
# Messages

Clients and servers set up connections and allocate memory with `KVMsg`
structures, which they send over UDP.  The sender converts the numbers in a
message in place (`serialize_kvmsg`) and the receiver converts them back
(`deserialize_kvmsg`); which ones these are depends on the type of the message.
A message is the memory from its first byte on.
-/

namespace FuseeFs.Network

open List Library.BitFields Library.Bytes Library.Packed

section ByteOrder

variable (host : ByteOrder)

def bswap (width value : ℕ) : ℕ :=
  ofBytes (toBytes width value).reverse

def htons (val : UInt16) : UInt16 :=
  match host with
  | .littleEndian => .ofNat (bswap 2 val.toNat)
  | .bigEndian => val

def htonl (val : UInt32) : UInt32 :=
  match host with
  | .littleEndian => .ofNat (bswap 4 val.toNat)
  | .bigEndian => val

def ntohs : UInt16 → UInt16 := htons host

def ntohl : UInt32 → UInt32 := htonl host

/-- The argument of `htonl` has 32 bits. -/
def htonll (val : UInt64) : UInt64 :=
  (htonl host val.toUInt32).toUInt64 <<< 32 + (htonl host (val >>> 32).toUInt32).toUInt64

def ntohll (val : UInt64) : UInt64 :=
  (ntohl host val.toUInt32).toUInt64 <<< 32 + (ntohl host (val >>> 32).toUInt32).toUInt64

end ByteOrder

inductive KVMsgType
  | reqConnect
  | reqAlloc
  | reqAllocSubtable
  | repConnect
  | repAlloc
  | repAllocSubtable
  | reqRegister
  | repRegister
  | reqRecover
  | repRecover
  | reqHeartbeat
  | repHeaetbeat
deriving DecidableEq, Repr

def KVMsgType.all : List KVMsgType :=
  [reqConnect, reqAlloc, reqAllocSubtable, repConnect, repAlloc, repAllocSubtable, reqRegister,
    repRegister, reqRecover, repRecover, reqHeartbeat, repHeaetbeat]

def offsetofType : ℕ := 0

def offsetofId : ℕ := 2

/-- `offsetof(KVMsg, body)`: the body is aligned for the addresses in it. -/
def offsetofBody : ℕ := 8

def offsetofQpNum : ℕ := 0

def offsetofLid : ℕ := 4

def offsetofAddr : ℕ := 0

def offsetofRkey : ℕ := 8

def offsetofQpInfo : ℕ := 0

/-- `offsetof(ConnInfo, gc_info)`, behind the 24 bytes of a `QpInfo`. -/
def offsetofGcInfo : ℕ := 24

inductive Body
  | connInfo
  | mrInfo
deriving DecidableEq, Repr

def bodyOf (type : UInt16) : Option Body :=
  match KVMsgType.all[type.toNat]? with
  | some .reqConnect | some .repConnect => some .connInfo
  | some .reqAlloc | some .repAlloc | some .reqAllocSubtable | some .repAllocSubtable =>
    some .mrInfo
  | _ => none

section Conversion

variable (host : ByteOrder)

def convert16 (convert : UInt16 → UInt16) (memory : Image) (offset : ℕ) : Image :=
  storeNumber host memory offset 2 (convert (.ofNat (loadNumber host memory offset 2))).toNat

def convert32 (convert : UInt32 → UInt32) (memory : Image) (offset : ℕ) : Image :=
  storeNumber host memory offset 4 (convert (.ofNat (loadNumber host memory offset 4))).toNat

def convert64 (convert : UInt64 → UInt64) (memory : Image) (offset : ℕ) : Image :=
  storeNumber host memory offset 8 (convert (.ofNat (loadNumber host memory offset 8))).toNat

def serializeQpInfo (memory : Image) (qpInfo : ℕ) : Image :=
  let memory := convert32 host (htonl host) memory (qpInfo + offsetofQpNum)
  convert16 host (htons host) memory (qpInfo + offsetofLid)

def deserializeQpInfo (memory : Image) (qpInfo : ℕ) : Image :=
  let memory := convert32 host (ntohl host) memory (qpInfo + offsetofQpNum)
  convert16 host (ntohs host) memory (qpInfo + offsetofLid)

def serializeMrInfo (memory : Image) (mrInfo : ℕ) : Image :=
  let memory := convert64 host (htonll host) memory (mrInfo + offsetofAddr)
  convert32 host (htonl host) memory (mrInfo + offsetofRkey)

def deserializeMrInfo (memory : Image) (mrInfo : ℕ) : Image :=
  let memory := convert64 host (ntohll host) memory (mrInfo + offsetofAddr)
  convert32 host (ntohl host) memory (mrInfo + offsetofRkey)

def serializeConnInfo (memory : Image) (connInfo : ℕ) : Image :=
  let memory := serializeQpInfo host memory (connInfo + offsetofQpInfo)
  serializeMrInfo host memory (connInfo + offsetofGcInfo)

def deserializeConnInfo (memory : Image) (connInfo : ℕ) : Image :=
  let memory := deserializeQpInfo host memory (connInfo + offsetofQpInfo)
  deserializeMrInfo host memory (connInfo + offsetofGcInfo)

def msgType (kvmsg : Image) : UInt16 :=
  .ofNat (loadNumber host kvmsg offsetofType 2)

def serializeBody (kvmsg : Image) : Option Body → Image
  | some .connInfo => serializeConnInfo host kvmsg offsetofBody
  | some .mrInfo => serializeMrInfo host kvmsg offsetofBody
  | none => kvmsg

def deserializeBody (kvmsg : Image) : Option Body → Image
  | some .connInfo => deserializeConnInfo host kvmsg offsetofBody
  | some .mrInfo => deserializeMrInfo host kvmsg offsetofBody
  | none => kvmsg

def serializeKvmsg (kvmsg : Image) : Image :=
  let kvmsg := serializeBody host kvmsg (bodyOf (msgType host kvmsg))
  let kvmsg := convert16 host (htons host) kvmsg offsetofType
  convert16 host (htons host) kvmsg offsetofId

def deserializeKvmsg (kvmsg : Image) : Image :=
  let kvmsg := convert16 host (ntohs host) kvmsg offsetofType
  let kvmsg := convert16 host (ntohs host) kvmsg offsetofId
  deserializeBody host kvmsg (bodyOf (msgType host kvmsg))

end Conversion

structure Field where
  offset : ℕ
  width : ℕ
deriving DecidableEq, Repr

def bodyFields : Option Body → List Field
  | some .connInfo =>
    [⟨offsetofBody + offsetofQpInfo + offsetofQpNum, 4⟩,
      ⟨offsetofBody + offsetofQpInfo + offsetofLid, 2⟩,
      ⟨offsetofBody + offsetofGcInfo + offsetofAddr, 8⟩,
      ⟨offsetofBody + offsetofGcInfo + offsetofRkey, 4⟩]
  | some .mrInfo => [⟨offsetofBody + offsetofAddr, 8⟩, ⟨offsetofBody + offsetofRkey, 4⟩]
  | none => []

def typeField : Field := ⟨offsetofType, 2⟩

def idField : Field := ⟨offsetofId, 2⟩

def headerFields : List Field := [typeField, idField]

/-- What the conversions do to the bytes of a field.  On a host with the highest
byte first `htonll` exchanges the two halves. -/
def exchange (host : ByteOrder) (width : ℕ) (bytes : List UInt8) : List UInt8 :=
  match host with
  | .littleEndian => bytes.reverse
  | .bigEndian => if width = 8 then bytes.drop 4 ++ bytes.take 4 else bytes

theorem length_exchange (host : ByteOrder) (width : ℕ) (bytes : List UInt8) :
    (exchange host width bytes).length = bytes.length := by
  cases host with
  | littleEndian => exact length_reverse
  | bigEndian =>
    unfold exchange
    split_ifs
    · rw [length_append, length_drop, length_take]
      omega
    · rfl

theorem exchange_exchange (host : ByteOrder) {width : ℕ} {bytes : List UInt8}
    (size : bytes.length = width) : exchange host width (exchange host width bytes) = bytes := by
  cases host with
  | littleEndian => exact reverse_reverse bytes
  | bigEndian =>
    unfold exchange
    dsimp only
    split_ifs with wide
    · have upper : (bytes.drop 4).length = 4 := by
        rw [length_drop]
        omega
      rw [drop_left' upper, take_left' upper, take_append_drop]
    · rfl

def Field.conversion (host : ByteOrder) (field : Field) : Conversion where
  offset := field.offset
  width := field.width
  change := exchange host field.width
  length_change _ size := (length_exchange host field.width _).trans size
  change_change _ size := exchange_exchange host size

theorem toBytes_bswap (width value : ℕ) :
    toBytes width (bswap width value) = (toBytes width value).reverse := by
  have restored := toBytes_ofBytes (toBytes width value).reverse
  rwa [length_reverse, length_toBytes] at restored

theorem bswap_lt (width value : ℕ) : bswap width value < 256 ^ width := by
  simpa [bswap] using ofBytes_lt (toBytes width value).reverse

section Hosts

variable (host : ByteOrder)

theorem arrange_htons (val : UInt16) :
    host.arrange (toBytes 2 (htons host val).toNat) =
      exchange host 2 (host.arrange (toBytes 2 val.toNat)) := by
  cases host with
  | littleEndian =>
    have value : (htons .littleEndian val).toNat = bswap 2 val.toNat :=
      UInt16.toNat_ofNat_of_lt' (bswap_lt 2 _)
    rw [value, toBytes_bswap]
    rfl
  | bigEndian => rfl

theorem toBytes_htonl_littleEndian (val : UInt32) :
    toBytes 4 (htonl .littleEndian val).toNat = (toBytes 4 val.toNat).reverse := by
  have value : (htonl .littleEndian val).toNat = bswap 4 val.toNat :=
    UInt32.toNat_ofNat_of_lt' (bswap_lt 4 _)
  rw [value, toBytes_bswap]

theorem arrange_htonl (val : UInt32) :
    host.arrange (toBytes 4 (htonl host val).toNat) =
      exchange host 4 (host.arrange (toBytes 4 val.toNat)) := by
  cases host with
  | littleEndian => exact toBytes_htonl_littleEndian val
  | bigEndian => rfl

/-- The halves of the result are the converted halves of the argument, in the
other order. -/
theorem toBytes_htonll (val : UInt64) :
    toBytes 8 (htonll host val).toNat =
      toBytes 4 (htonl host (val >>> 32).toUInt32).toNat ++
        toBytes 4 (htonl host val.toUInt32).toNat := by
  have low := (htonl host (val >>> 32).toUInt32).toNat_lt
  have high := (htonl host val.toUInt32).toNat_lt
  have moved : ((htonl host val.toUInt32).toUInt64 <<< 32).toNat =
      (htonl host val.toUInt32).toNat * 2 ^ 32 :=
    toNat_shiftLeft_eq_mul rfl (by decide) (by rw [UInt32.toNat_toUInt64]; omega)
  have value : (htonll host val).toNat = (htonl host val.toUInt32).toNat * 2 ^ 32 +
      (htonl host (val >>> 32).toUInt32).toNat := by
    rw [htonll, UInt64.toNat_add, moved, UInt32.toNat_toUInt64]
    omega
  have lower : (htonll host val).toNat % 256 ^ 4 =
      (htonl host (val >>> 32).toUInt32).toNat := by omega
  have upper : (htonll host val).toNat / 256 ^ 4 = (htonl host val.toUInt32).toNat := by omega
  rw [toBytes_add 4 4, ← toBytes_mod 4 (htonll host val).toNat, lower, upper]

theorem toBytes_halves (val : UInt64) :
    toBytes 8 val.toNat =
      toBytes 4 val.toUInt32.toNat ++ toBytes 4 (val >>> 32).toUInt32.toNat := by
  have upper : (val >>> 32).toUInt32.toNat = val.toNat / 256 ^ 4 := by
    have bound := val.toNat_lt
    have quotient : (val >>> 32).toNat = val.toNat / 2 ^ 32 :=
      toNat_shiftRight_eq_div rfl (by decide)
    rw [UInt64.toNat_toUInt32, quotient]
    omega
  have lower : toBytes 4 val.toUInt32.toNat = toBytes 4 val.toNat := by
    rw [UInt64.toNat_toUInt32]
    exact toBytes_mod 4 val.toNat
  rw [toBytes_add 4 4, lower, upper]

theorem arrange_htonll (val : UInt64) :
    host.arrange (toBytes 8 (htonll host val).toNat) =
      exchange host 8 (host.arrange (toBytes 8 val.toNat)) := by
  rw [toBytes_htonll, toBytes_halves]
  cases host with
  | littleEndian =>
    rw [toBytes_htonl_littleEndian, toBytes_htonl_littleEndian, ← reverse_append]
    rfl
  | bigEndian =>
    have size : (toBytes 4 (val >>> 32).toUInt32.toNat).reverse.length = 4 := by simp
    simp only [ByteOrder.arrange, exchange, if_true, reverse_append]
    rw [drop_left' size, take_left' size]
    rfl

variable (memory : Image) (offset : ℕ)

theorem convert16_htons : convert16 host (htons host) memory offset =
    Conversion.apply memory (Field.conversion host ⟨offset, 2⟩) := by
  have value : (UInt16.ofNat (loadNumber host memory offset 2)).toNat =
      loadNumber host memory offset 2 :=
    UInt16.toNat_ofNat_of_lt' (loadNumber_lt host memory offset 2)
  rw [convert16, storeNumber, arrange_htons, value, toBytes_loadNumber, ByteOrder.arrange_arrange]
  rfl

theorem convert32_htonl : convert32 host (htonl host) memory offset =
    Conversion.apply memory (Field.conversion host ⟨offset, 4⟩) := by
  have value : (UInt32.ofNat (loadNumber host memory offset 4)).toNat =
      loadNumber host memory offset 4 :=
    UInt32.toNat_ofNat_of_lt' (loadNumber_lt host memory offset 4)
  rw [convert32, storeNumber, arrange_htonl, value, toBytes_loadNumber, ByteOrder.arrange_arrange]
  rfl

theorem convert64_htonll : convert64 host (htonll host) memory offset =
    Conversion.apply memory (Field.conversion host ⟨offset, 8⟩) := by
  have value : (UInt64.ofNat (loadNumber host memory offset 8)).toNat =
      loadNumber host memory offset 8 :=
    UInt64.toNat_ofNat_of_lt' (loadNumber_lt host memory offset 8)
  rw [convert64, storeNumber, arrange_htonll, value, toBytes_loadNumber, ByteOrder.arrange_arrange]
  rfl

end Hosts

theorem pairwise_apart (host : ByteOrder) (body : Option Body) :
    ((bodyFields body ++ headerFields).map (Field.conversion host)).Pairwise Conversion.Apart := by
  have fields : (bodyFields body ++ headerFields).Pairwise fun field other =>
      field.offset + field.width ≤ other.offset ∨ other.offset + other.width ≤ field.offset := by
    cases body with
    | none => decide
    | some body =>
      cases body with
      | connInfo => decide
      | mrInfo => decide
  exact pairwise_map.mpr fields

section Messages

variable (host : ByteOrder) (kvmsg : Image)

theorem htons_htons (val : UInt16) : htons host (htons host val) = val := by
  have bytes := arrange_htons host (htons host val)
  rw [arrange_htons host val, exchange_exchange host (by simp)] at bytes
  have same := congrArg (fun bytes => ofBytes (host.arrange bytes)) bytes
  simp only [ByteOrder.arrange_arrange] at same
  rw [ofBytes_toBytes (UInt16.toNat_lt _), ofBytes_toBytes (UInt16.toNat_lt _)] at same
  exact UInt16.toNat_inj.mp same

theorem msgType_eq_htons {after : Image}
    (converted : load after offsetofType 2 = exchange host 2 (load kvmsg offsetofType 2)) :
    msgType host after = htons host (msgType host kvmsg) := by
  have value : (msgType host kvmsg).toNat = loadNumber host kvmsg offsetofType 2 :=
    UInt16.toNat_ofNat_of_lt' (loadNumber_lt host kvmsg offsetofType 2)
  have bytes := arrange_htons host (msgType host kvmsg)
  rw [value, toBytes_loadNumber, ByteOrder.arrange_arrange, ← converted] at bytes
  rw [msgType, loadNumber, ← bytes, ByteOrder.arrange_arrange,
    ofBytes_toBytes (UInt16.toNat_lt _), UInt16.ofNat_toNat]

theorem serializeBody_eq (body : Option Body) :
    serializeBody host kvmsg body =
      Conversion.applyAll kvmsg ((bodyFields body).map (Field.conversion host)) := by
  cases body with
  | none => rfl
  | some body =>
    cases body with
    | connInfo =>
      simp only [serializeBody, serializeConnInfo, serializeQpInfo, serializeMrInfo,
        convert16_htons, convert32_htonl, convert64_htonll]
      rfl
    | mrInfo =>
      simp only [serializeBody, serializeMrInfo, convert32_htonl, convert64_htonll]
      rfl

theorem deserializeBody_eq (body : Option Body) :
    deserializeBody host kvmsg body =
      Conversion.applyAll kvmsg ((bodyFields body).map (Field.conversion host)) :=
  serializeBody_eq host kvmsg body

theorem serializeKvmsg_eq :
    serializeKvmsg host kvmsg = Conversion.applyAll kvmsg
      ((bodyFields (bodyOf (msgType host kvmsg)) ++ headerFields).map (Field.conversion host)) := by
  simp only [serializeKvmsg, serializeBody_eq, convert16_htons]
  rw [map_append, Conversion.applyAll_append]
  rfl

theorem deserializeKvmsg_eq :
    deserializeKvmsg host kvmsg = Conversion.applyAll kvmsg
      ((headerFields ++ bodyFields (bodyOf (ntohs host (msgType host kvmsg)))).map
        (Field.conversion host)) := by
  have type : msgType host (Conversion.applyAll kvmsg
      (headerFields.map (Field.conversion host))) = ntohs host (msgType host kvmsg) := by
    apply msgType_eq_htons
    exact Conversion.load_applyAll kvmsg (typeField.conversion host)
      (pairwise_apart host none) (by simp [headerFields])
  have header : deserializeKvmsg host kvmsg =
      deserializeBody host (Conversion.applyAll kvmsg (headerFields.map (Field.conversion host)))
        (bodyOf (msgType host
          (Conversion.applyAll kvmsg (headerFields.map (Field.conversion host))))) := by
    simp only [deserializeKvmsg, ntohs, convert16_htons]
    rfl
  rw [header, type, deserializeBody_eq, map_append, Conversion.applyAll_append]

theorem msgType_serializeKvmsg :
    msgType host (serializeKvmsg host kvmsg) = htons host (msgType host kvmsg) := by
  apply msgType_eq_htons
  rw [serializeKvmsg_eq]
  exact Conversion.load_applyAll kvmsg (typeField.conversion host) (pairwise_apart host _)
    (List.mem_map_of_mem (by simp [headerFields]))

theorem msgType_deserializeKvmsg :
    msgType host (deserializeKvmsg host kvmsg) = ntohs host (msgType host kvmsg) := by
  apply msgType_eq_htons
  rw [deserializeKvmsg_eq, ← Conversion.applyAll_perm kvmsg (pairwise_apart host _)
    (perm_append_comm.map _)]
  exact Conversion.load_applyAll kvmsg (typeField.conversion host) (pairwise_apart host _)
    (List.mem_map_of_mem (by simp [headerFields]))

theorem deserializeKvmsg_serializeKvmsg :
    deserializeKvmsg host (serializeKvmsg host kvmsg) = kvmsg := by
  rw [deserializeKvmsg_eq, msgType_serializeKvmsg, ntohs, htons_htons, serializeKvmsg_eq]
  exact Conversion.applyAll_applyAll kvmsg (pairwise_apart host _) (perm_append_comm.map _)

theorem serializeKvmsg_deserializeKvmsg :
    serializeKvmsg host (deserializeKvmsg host kvmsg) = kvmsg := by
  rw [serializeKvmsg_eq, msgType_deserializeKvmsg, deserializeKvmsg_eq,
    ← Conversion.applyAll_perm kvmsg (pairwise_apart host _) (perm_append_comm.map _)]
  exact Conversion.applyAll_applyAll kvmsg (pairwise_apart host _) (List.Perm.refl _)

end Messages

def networkOrder (width value : ℕ) : List UInt8 :=
  (toBytes width value).reverse

/-- On a host with the lowest byte first, the number at the offset is sent with the
highest byte first. -/
def SentInNetworkOrder (kvmsg : Image) (offset width : ℕ) : Prop :=
  load (serializeKvmsg .littleEndian kvmsg) offset width =
    networkOrder width (loadNumber .littleEndian kvmsg offset width)

theorem sentInNetworkOrder_of_mem (kvmsg : Image) {field : Field}
    (mem : field ∈ headerFields ++ bodyFields (bodyOf (msgType .littleEndian kvmsg))) :
    SentInNetworkOrder kvmsg field.offset field.width := by
  have member := perm_append_comm.mem_iff.mp mem
  rw [SentInNetworkOrder, serializeKvmsg_eq, networkOrder, toBytes_loadNumber]
  exact Conversion.load_applyAll kvmsg (field.conversion .littleEndian) (pairwise_apart _ _)
    (List.mem_map_of_mem member)

def HasType (kvmsg : Image) (type : KVMsgType) : Prop :=
  KVMsgType.all[(msgType .littleEndian kvmsg).toNat]? = some type

instance (kvmsg : Image) (type : KVMsgType) : Decidable (HasType kvmsg type) :=
  inferInstanceAs (Decidable (_ = _))

theorem sentInNetworkOrder_of_hasType (kvmsg : Image) {type : KVMsgType} {body : Body}
    (typed : HasType kvmsg type) (served : ∀ code : UInt16,
      KVMsgType.all[code.toNat]? = some type → bodyOf code = some body) :
    ∀ field ∈ bodyFields (some body), SentInNetworkOrder kvmsg field.offset field.width := by
  intro field mem
  apply sentInNetworkOrder_of_mem
  rw [served _ typed]
  exact mem_append_right _ mem

/-- Messages come back as they were sent.  The type and the id of every message, the
`qp_num`, `lid`, `addr` and `rkey` of the two connect messages and the `addr` and
`rkey` of the four alloc messages travel in network order. -/
theorem kvmsg_codec :
    (∀ host kvmsg, deserializeKvmsg host (serializeKvmsg host kvmsg) = kvmsg ∧
      serializeKvmsg host (deserializeKvmsg host kvmsg) = kvmsg) ∧
    ∀ kvmsg,
      (SentInNetworkOrder kvmsg offsetofType 2 ∧ SentInNetworkOrder kvmsg offsetofId 2) ∧
      (HasType kvmsg .reqConnect ∨ HasType kvmsg .repConnect →
        SentInNetworkOrder kvmsg (offsetofBody + offsetofQpInfo + offsetofQpNum) 4 ∧
        SentInNetworkOrder kvmsg (offsetofBody + offsetofQpInfo + offsetofLid) 2 ∧
        SentInNetworkOrder kvmsg (offsetofBody + offsetofGcInfo + offsetofAddr) 8 ∧
        SentInNetworkOrder kvmsg (offsetofBody + offsetofGcInfo + offsetofRkey) 4) ∧
      (HasType kvmsg .reqAlloc ∨ HasType kvmsg .repAlloc ∨
          HasType kvmsg .reqAllocSubtable ∨ HasType kvmsg .repAllocSubtable →
        SentInNetworkOrder kvmsg (offsetofBody + offsetofAddr) 8 ∧
        SentInNetworkOrder kvmsg (offsetofBody + offsetofRkey) 4) := by
  refine ⟨fun host kvmsg => ⟨deserializeKvmsg_serializeKvmsg host kvmsg,
    serializeKvmsg_deserializeKvmsg host kvmsg⟩, fun kvmsg => ⟨⟨?_, ?_⟩, ?_, ?_⟩⟩
  · have mem : typeField ∈ headerFields := by simp [headerFields]
    exact sentInNetworkOrder_of_mem kvmsg (mem_append_left _ mem)
  · have mem : idField ∈ headerFields := by simp [headerFields]
    exact sentInNetworkOrder_of_mem kvmsg (mem_append_left _ mem)
  · intro typed
    have sent : ∀ field ∈ bodyFields (some .connInfo),
        SentInNetworkOrder kvmsg field.offset field.width := by
      rcases typed with typed | typed <;>
        exact sentInNetworkOrder_of_hasType kvmsg typed (by intro code known; rw [bodyOf, known])
    simpa [bodyFields] using sent
  · intro typed
    have sent : ∀ field ∈ bodyFields (some .mrInfo),
        SentInNetworkOrder kvmsg field.offset field.width := by
      rcases typed with typed | typed | typed | typed <;>
        exact sentInNetworkOrder_of_hasType kvmsg typed (by intro code known; rw [bodyOf, known])
    simpa [bodyFields] using sent

def sampleMsg (type : UInt8) : Image := fun place =>
  if place = 0 then type else if place = 1 then 0 else UInt8.ofNat place

theorem kvmsg_codec_connect_alloc :
    HasType (sampleMsg 3) .repConnect ∧ HasType (sampleMsg 5) .repAllocSubtable ∧
      deserializeKvmsg .littleEndian (serializeKvmsg .littleEndian (sampleMsg 3)) = sampleMsg 3 ∧
      load (serializeKvmsg .littleEndian (sampleMsg 3)) 32 8 = [39, 38, 37, 36, 35, 34, 33, 32] ∧
      load (serializeKvmsg .littleEndian (sampleMsg 5)) 8 8 = [15, 14, 13, 12, 11, 10, 9, 8] := by
  refine ⟨by decide, by decide, (kvmsg_codec.1 _ _).1, ?_, ?_⟩
  · obtain ⟨-, -, addr, -⟩ := (kvmsg_codec.2 (sampleMsg 3)).2.1 (.inr (by decide))
    exact addr.trans (by decide)
  · obtain ⟨addr, -⟩ := (kvmsg_codec.2 (sampleMsg 5)).2.2 (.inr (.inr (.inr (by decide))))
    exact addr.trans (by decide)

end FuseeFs.Network
