import FuseeFs.Library.BitFields
import FuseeFs.Library.RoundRobin
import FuseeFs.Library.Splicing

/-!
# Batches of requests

A client builds lists of requests, each for one server, and posts a batch of them
at once.  The lists for a server are linked to one chain in place, by changing the
`next` pointers of their last requests, and only the last request of a chain is
signalled.  The client then waits for one completion from each server.
-/

namespace FuseeFs.Network

open List Option Function Library Library.BitFields

section WrId

def ibGenWrId (coroId : UInt32) (dstServerId : UInt8) (reqTypeSt reqSeq : UInt32) : UInt64 :=
  ((coroId.toUInt64 <<< 8) + dstServerId.toUInt64) * 1000 + reqTypeSt.toUInt64 + reqSeq.toUInt64

def wridToFiberId (wrId : UInt64) : UInt32 :=
  ((wrId / 1000) >>> 8).toUInt32

def wridToDstSid (wrId : UInt64) : UInt8 :=
  (wrId / 1000 &&& 0xFF).toUInt8

def wridToReqSeq (wrId : UInt64) : UInt32 :=
  (wrId % 1000).toUInt32

variable (coroId : UInt32) (dstServerId : UInt8) {reqTypeSt reqSeq : UInt32}
  (small : reqTypeSt.toNat + reqSeq.toNat < 1000)
include small

theorem toNat_ibGenWrId :
    (ibGenWrId coroId dstServerId reqTypeSt reqSeq).toNat =
      (coroId.toNat * 2 ^ 8 + dstServerId.toNat) * 1000 + (reqTypeSt.toNat + reqSeq.toNat) := by
  have coro := coroId.toNat_lt
  have server := dstServerId.toNat_lt
  have word : coroId.toUInt64.toNat = coroId.toNat := UInt32.toNat_toUInt64 _
  have moved := @toNat_shiftLeft_eq_mul coroId.toUInt64 8 8 rfl (by decide) (by omega)
  have thousand : (1000 : UInt64).toNat = 1000 := rfl
  rw [ibGenWrId, UInt64.toNat_add, UInt64.toNat_add, UInt64.toNat_mul, UInt64.toNat_add, moved, word,
    UInt8.toNat_toUInt64, UInt32.toNat_toUInt64, UInt32.toNat_toUInt64, thousand]
  omega

theorem toNat_ibGenWrId_div :
    (ibGenWrId coroId dstServerId reqTypeSt reqSeq / 1000).toNat =
      coroId.toNat * 2 ^ 8 + dstServerId.toNat := by
  have thousand : (1000 : UInt64).toNat = 1000 := rfl
  rw [UInt64.toNat_div, toNat_ibGenWrId coroId dstServerId small, thousand]
  omega

theorem wrid_decoded :
    wridToFiberId (ibGenWrId coroId dstServerId reqTypeSt reqSeq) = coroId ∧
      wridToDstSid (ibGenWrId coroId dstServerId reqTypeSt reqSeq) = dstServerId ∧
      wridToReqSeq (ibGenWrId coroId dstServerId reqTypeSt reqSeq) = reqTypeSt + reqSeq := by
  have coro := coroId.toNat_lt
  have server := dstServerId.toNat_lt
  have quotient := toNat_ibGenWrId_div coroId dstServerId small
  have thousand : (1000 : UInt64).toNat = 1000 := rfl
  refine ⟨UInt32.toNat_inj.mp ?_, UInt8.toNat_inj.mp ?_, UInt32.toNat_inj.mp ?_⟩
  · rw [wridToFiberId, UInt64.toNat_toUInt32, @toNat_shiftRight_eq_div _ 8 8 rfl (by decide),
      quotient]
    omega
  · rw [wridToDstSid, UInt64.toNat_toUInt8, @toNat_and_eq_mod _ 0xFF 8 rfl, quotient]
    omega
  · rw [wridToReqSeq, UInt64.toNat_toUInt32, UInt64.toNat_mod, thousand,
      toNat_ibGenWrId coroId dstServerId small, UInt32.toNat_add]
    omega

end WrId

/-! ## Lists of requests -/

structure WrPtr where
  array : ℕ
  index : ℕ
deriving DecidableEq

def WrPtr.offset (ptr : WrPtr) (count : ℕ) : WrPtr :=
  ⟨ptr.array, ptr.index + count⟩

/-- `ibv_send_wr`.  The payload has the operation with its addresses and keys. -/
structure IbvSendWr (Payload : Type) where
  wrId : UInt64
  next : Option WrPtr
  sendFlags : UInt32
  payload : Payload
deriving DecidableEq

def ibvSendSignaled : UInt32 := 2

abbrev WrMemory (Payload : Type) := WrPtr → IbvSendWr Payload

structure IbvSrList where
  srList : WrPtr
  numSr : UInt32
  serverId : UInt32
deriving DecidableEq

namespace IbvSrList

/-- `&sr_list[num_sr - 1]`, with the subtraction in 32 bits. -/
def last (list : IbvSrList) : WrPtr :=
  list.srList.offset (list.numSr - 1).toNat

def requests (list : IbvSrList) : List WrPtr :=
  (List.range list.numSr.toNat).map list.srList.offset

def server (list : IbvSrList) : UInt8 :=
  list.serverId.toUInt8

variable {list : IbvSrList} (nonempty : list.numSr ≠ 0)
include nonempty

theorem numSr_pos : 0 < list.numSr.toNat :=
  Nat.pos_of_ne_zero fun zero => nonempty (UInt32.toNat_inj.mp zero)

theorem head?_requests : list.requests.head? = some list.srList := by
  obtain ⟨_, size⟩ := Nat.exists_eq_succ_of_ne_zero (numSr_pos nonempty).ne'
  rw [requests, size, range_succ_eq_map]
  rfl

theorem getLast?_requests : list.requests.getLast? = some list.last := by
  obtain ⟨count, size⟩ := Nat.exists_eq_succ_of_ne_zero (numSr_pos nonempty).ne'
  have one : 1 ≤ list.numSr := by
    rw [UInt32.le_iff_toNat_le]
    exact numSr_pos nonempty
  have index : (list.numSr - 1).toNat = count := by
    rw [UInt32.toNat_sub_of_le _ _ one, size]
    rfl
  rw [requests, size, range_succ, map_append, map_singleton, getLast?_concat, last, index]

theorem last_mem_requests : list.last ∈ list.requests :=
  mem_of_mem_getLast? (getLast?_requests nonempty)

theorem requests_ne_nil : list.requests ≠ [] :=
  ne_nil_of_mem (last_mem_requests nonempty)

end IbvSrList

section Merge

variable {Payload : Type}

def setNext (memory : WrMemory Payload) (ptr : WrPtr) (next : Option WrPtr) : WrMemory Payload :=
  update memory ptr { memory ptr with next := next }

def linkSrLists (memory : WrMemory Payload) : List IbvSrList → WrMemory Payload
  | previous :: current :: rest =>
    linkSrLists (setNext memory previous.last (some current.srList)) (current :: rest)
  | _ => memory

/-- `ib_merge_sr_lists`, with the head of the chain and `last_wr_id`.  It is not
defined for no list. -/
def ibMergeSrLists (memory : WrMemory Payload) (srLists : List IbvSrList) :
    Option (WrMemory Payload × WrPtr × UInt64) :=
  srLists.head?.bind fun first => srLists.getLast?.map fun final =>
    let linked := setNext (linkSrLists memory srLists) final.last none
    let last := linked final.last
    (update linked final.last { last with sendFlags := last.sendFlags ||| ibvSendSignaled },
      first.srList, last.wrId)

def chainOf (srLists : List IbvSrList) : List WrPtr :=
  srLists.flatMap IbvSrList.requests

theorem next_setNext (memory : WrMemory Payload) (ptr : WrPtr) (next : Option WrPtr) :
    (fun cell => (setNext memory ptr next cell).next) =
      update (fun cell => (memory cell).next) ptr next := by
  funext cell
  by_cases same : cell = ptr
  · rw [same, setNext, update_self, update_self]
  · rw [setNext, update_of_ne same, update_of_ne same]

theorem setNext_eq (memory : WrMemory Payload) (ptr : WrPtr) (next : Option WrPtr) (cell : WrPtr) :
    setNext memory ptr next cell =
      { memory cell with next := (setNext memory ptr next cell).next } := by
  by_cases same : cell = ptr
  · rw [same, setNext, update_self]
  · rw [setNext, update_of_ne same]

theorem linkSrLists_eq (memory : WrMemory Payload) (srLists : List IbvSrList) (cell : WrPtr) :
    linkSrLists memory srLists cell =
      { memory cell with next := (linkSrLists memory srLists cell).next } := by
  induction srLists generalizing memory with
  | nil => rfl
  | cons previous rest ih =>
    cases rest with
    | nil => rfl
    | cons current rest =>
      rw [linkSrLists, ih, setNext_eq]

variable {srLists : List IbvSrList} (filled : ∀ list ∈ srLists, list.numSr ≠ 0)
include filled

theorem linkSrLists_of_not_mem {cell : WrPtr} (absent : cell ∉ chainOf srLists)
    (memory : WrMemory Payload) : linkSrLists memory srLists cell = memory cell := by
  induction srLists generalizing memory with
  | nil => rfl
  | cons previous rest ih =>
    obtain ⟨nonempty, filled⟩ := forall_mem_cons.mp filled
    rw [chainOf, flatMap_cons, mem_append, not_or] at absent
    cases rest with
    | nil => rfl
    | cons current rest =>
      have ne : cell ≠ previous.last := fun same =>
        absent.1 (same ▸ IbvSrList.last_mem_requests nonempty)
      rw [linkSrLists, ih filled absent.2]
      exact update_of_ne ne _ _

theorem head?_chainOf : (chainOf srLists).head? = srLists.head?.map IbvSrList.srList := by
  cases srLists with
  | nil => rfl
  | cons first rest =>
    have nonempty := filled first mem_cons_self
    rw [chainOf, flatMap_cons,
      head?_append_of_ne_nil _ (IbvSrList.requests_ne_nil nonempty),
      IbvSrList.head?_requests nonempty]
    rfl

theorem getLast?_chainOf : (chainOf srLists).getLast? = srLists.getLast?.map IbvSrList.last := by
  obtain rfl | ⟨_, final, rfl⟩ := eq_nil_or_concat' srLists
  · rfl
  · have nonempty := filled final (mem_append_right _ mem_cons_self)
    rw [chainOf, flatMap_append, flatMap_singleton,
      getLast?_append_of_ne_nil _ (IbvSrList.requests_ne_nil nonempty),
      IbvSrList.getLast?_requests nonempty, getLast?_concat]
    rfl

theorem next_linkSrLists {final : IbvSrList} (isFinal : srLists.getLast? = some final)
    (memory : WrMemory Payload) :
    (fun cell => (setNext (linkSrLists memory srLists) final.last none cell).next) =
      splice (fun cell => (memory cell).next) (srLists.map IbvSrList.requests) := by
  induction srLists generalizing memory with
  | nil => cases isFinal
  | cons previous rest ih =>
    obtain ⟨nonempty, restFilled⟩ := forall_mem_cons.mp filled
    have behind := head?_chainOf restFilled
    rw [chainOf, flatMap_def] at behind
    rw [map_cons, splice, IbvSrList.getLast?_requests nonempty]
    dsimp only
    rw [behind]
    cases rest with
    | nil =>
      obtain rfl := some.inj isFinal
      exact next_setNext memory previous.last none
    | cons current rest =>
      rw [getLast?_cons_cons] at isFinal
      rw [linkSrLists, ih restFilled isFinal, next_setNext]
      rfl

end Merge

/-- A chain that the network card follows to its end, where it is to report the
completion. -/
structure Chained {Payload : Type} (memory : WrMemory Payload) (chain : List WrPtr) : Prop where
  linked : Linked (fun cell => (memory cell).next) chain
  ends : ∀ last ∈ chain.getLast?, (memory last).next = none
  signalled : ∀ last ∈ chain.getLast?, (memory last).sendFlags &&& ibvSendSignaled = ibvSendSignaled

/-- What merging does to the requests: links inside the chains, and a flag of the
last request of each. -/
structure OnlyLinks {Payload : Type} (before after : WrMemory Payload)
    (chains : List (List WrPtr)) : Prop where
  outside : ∀ cell ∉ chains.flatten, after cell = before cell
  wrId : ∀ cell, (after cell).wrId = (before cell).wrId
  payload : ∀ cell, (after cell).payload = (before cell).payload
  sendFlags : ∀ cell, (∀ chain ∈ chains, chain.getLast? ≠ some cell) →
    (after cell).sendFlags = (before cell).sendFlags

theorem OnlyLinks.refl {Payload : Type} (memory : WrMemory Payload) : OnlyLinks memory memory [] :=
  ⟨fun _ _ => rfl, fun _ => rfl, fun _ => rfl, fun _ _ => rfl⟩

theorem OnlyLinks.cons {Payload : Type} {before between after : WrMemory Payload}
    {chain : List WrPtr} {chains : List (List WrPtr)} (first : OnlyLinks before between [chain])
    (rest : OnlyLinks between after chains) : OnlyLinks before after (chain :: chains) where
  outside cell absent := by
    rw [flatten_cons, mem_append, not_or] at absent
    rw [rest.outside cell absent.2, first.outside cell (by simpa using absent.1)]
  wrId cell := (rest.wrId cell).trans (first.wrId cell)
  payload cell := (rest.payload cell).trans (first.payload cell)
  sendFlags cell other := by
    obtain ⟨notFirst, notRest⟩ := forall_mem_cons.mp other
    rw [rest.sendFlags cell notRest, first.sendFlags cell (by simpa using notFirst)]

section Merge

variable {Payload : Type} {srLists : List IbvSrList} {memory : WrMemory Payload}

theorem or_and_self (flags signal : UInt32) : (flags ||| signal) &&& signal = signal := by
  apply UInt32.toBitVec_inj.mp
  ext index bound
  rw [UInt32.toBitVec_and, UInt32.toBitVec_or, BitVec.getElem_and, BitVec.getElem_or]
  exact inf_eq_right.mpr le_sup_right

def mergedMemory (memory : WrMemory Payload) (srLists : List IbvSrList) (last : WrPtr) :
    WrMemory Payload :=
  update (setNext (linkSrLists memory srLists) last none) last
    { memory last with
      next := none
      sendFlags := (memory last).sendFlags ||| ibvSendSignaled }

theorem ibMergeSrLists_eq {first final : IbvSrList} (isFirst : srLists.head? = some first)
    (isFinal : srLists.getLast? = some final) :
    ibMergeSrLists memory srLists =
      some (mergedMemory memory srLists final.last, first.srList, (memory final.last).wrId) := by
  have last : setNext (linkSrLists memory srLists) final.last none final.last =
      { memory final.last with next := none } := by
    rw [setNext, update_self, linkSrLists_eq]
  rw [ibMergeSrLists, isFirst, isFinal, bind_some, map_some]
  dsimp only
  rw [last]
  rfl

theorem mergedMemory_of_ne {last cell : WrPtr} (ne : cell ≠ last) :
    mergedMemory memory srLists last cell = linkSrLists memory srLists cell := by
  rw [mergedMemory, update_of_ne ne, setNext, update_of_ne ne]

theorem next_mergedMemory (last : WrPtr) :
    (fun cell => (mergedMemory memory srLists last cell).next) =
      fun cell => (setNext (linkSrLists memory srLists) last none cell).next := by
  funext cell
  by_cases same : cell = last
  · rw [same, mergedMemory, update_self, setNext, update_self]
  · rw [mergedMemory, update_of_ne same]

theorem onlyLinks_mergedMemory (filled : ∀ list ∈ srLists, list.numSr ≠ 0) {last : WrPtr}
    (isLast : (chainOf srLists).getLast? = some last) :
    OnlyLinks memory (mergedMemory memory srLists last) [chainOf srLists] where
  outside cell absent := by
    rw [flatten_singleton] at absent
    have ne : cell ≠ last := fun same =>
      absent (same ▸ mem_of_mem_getLast? isLast)
    rw [mergedMemory_of_ne ne, linkSrLists_of_not_mem filled absent]
  wrId cell := by
    by_cases same : cell = last
    · rw [same, mergedMemory, update_self]
    · rw [mergedMemory_of_ne same, linkSrLists_eq]
  payload cell := by
    by_cases same : cell = last
    · rw [same, mergedMemory, update_self]
    · rw [mergedMemory_of_ne same, linkSrLists_eq]
  sendFlags cell other := by
    have ne : cell ≠ last := fun same => other _ mem_cons_self (same ▸ isLast)
    rw [mergedMemory_of_ne ne, linkSrLists_eq]

theorem ibMergeSrLists_spec (nonempty : srLists ≠ []) (filled : ∀ list ∈ srLists, list.numSr ≠ 0)
    (nodup : (chainOf srLists).Nodup)
    (linked : ∀ list ∈ srLists, Linked (fun cell => (memory cell).next) list.requests) :
    ∃ after head last, ibMergeSrLists memory srLists = some (after, head, (memory last).wrId) ∧
      (chainOf srLists).head? = some head ∧ (chainOf srLists).getLast? = some last ∧
      Chained after (chainOf srLists) ∧ OnlyLinks memory after [chainOf srLists] := by
  have isFirst := head?_eq_some_head nonempty
  have isFinal := getLast?_eq_getLast_of_ne_nil nonempty
  have head := head?_chainOf filled
  have last := getLast?_chainOf filled
  rw [isFirst, map_some] at head
  rw [isFinal, map_some] at last
  have next := (next_mergedMemory _).trans (next_linkSrLists filled isFinal memory)
  have spliced := @linked_splice _ _ (srLists.map IbvSrList.requests) (fun cell => (memory cell).next)
    (List.forall_mem_map.mpr fun list mem => IbvSrList.requests_ne_nil (filled list mem))
    (by rwa [chainOf, flatMap_def] at nodup) (List.forall_mem_map.mpr linked)
  rw [← flatMap_def, ← next] at spliced
  refine ⟨_, _, _, ibMergeSrLists_eq isFirst isFinal, head, last, ⟨spliced.1, spliced.2, ?_⟩,
    onlyLinks_mergedMemory filled last⟩
  intro other isLast
  obtain rfl := some.inj (last.symm.trans isLast)
  rw [mergedMemory, update_self]
  exact or_and_self _ _

end Merge

section Functions

variable {Payload Value : Type}

/-- `server_id_sr_list_map[server_id].push_back(list)` -/
def pushSrList (map : Std.TreeMap UInt8 (List IbvSrList)) (list : IbvSrList) :
    Std.TreeMap UInt8 (List IbvSrList) :=
  map.alter list.server fun lists => some (lists.getD [] ++ [list])

def serverIdSrListMap (srListBatch : List (List IbvSrList)) : Std.TreeMap UInt8 (List IbvSrList) :=
  srListBatch.foldl (fun map lists => lists.foldl pushSrList map) ∅

def addRtt (rtt : UInt64) (srListBatch : List (List IbvSrList)) : UInt64 :=
  srListBatch.foldl (fun rtt lists => lists.foldl (fun rtt list => rtt + list.numSr.toUInt64) rtt) rtt

/-- The requests, `post_sr_map`, and the map of the numbers that are awaited. -/
structure Posting (Payload Value : Type) where
  memory : WrMemory Payload
  postSrMap : Std.TreeMap UInt8 WrPtr
  awaited : Std.TreeMap UInt64 Value

def mergeServer (pending : Value) (posting : Posting Payload Value)
    (entry : UInt8 × List IbvSrList) : Option (Posting Payload Value) :=
  entry.2.head?.bind fun first => (ibMergeSrLists posting.memory entry.2).map fun merged =>
    { memory := merged.1
      postSrMap := posting.postSrMap.insert first.server merged.2.1
      awaited := posting.awaited.insert merged.2.2 pending }

def postSrListBatch (pending : Value) (awaited : Std.TreeMap UInt64 Value)
    (memory : WrMemory Payload) (srListBatch : List (List IbvSrList)) :
    Option (Posting Payload Value) :=
  (serverIdSrListMap srListBatch).toList.foldlM (mergeServer pending) ⟨memory, ∅, awaited⟩

def Posting.posts (posting : Posting Payload Value) : List (UInt8 × WrPtr) :=
  posting.postSrMap.toList

/-- The requests that `ibv_post_send` takes, if they are not more than `room`. -/
def ibvPostSend (memory : WrMemory Payload) (room : ℕ) (head : WrPtr) : Option (List WrPtr) :=
  traverse (fun cell => (memory cell).next) (fun _ _ => true) room 0 head

def isAllComplete (compWridMap : Std.TreeMap UInt64 Bool) : Bool :=
  compWridMap.toList.all fun entry => entry.2 ≠ false

/-- The loop that polls, with the numbers of the requests that each poll reports.
The result is what was not polled, or nothing if the loop does not end. -/
def pollCq (compWridMap : Std.TreeMap UInt64 Bool) : List (List UInt64) → Option (List (List UInt64))
  | [] => none
  | polled :: later =>
    let compWridMap := polled.foldl (fun map wrId => map.insert wrId true) compWridMap
    if isAllComplete compWridMap then some later else pollCq compWridMap later

def rdmaPostSrListBatchSync (memory : WrMemory Payload) (rtt : UInt64)
    (srListBatch : List (List IbvSrList)) (polls : List (List UInt64)) :
    Option (Posting Payload Bool × UInt64 × Option (List (List UInt64))) :=
  (postSrListBatch false ∅ memory srListBatch).map fun posting =>
    (posting, addRtt rtt srListBatch, pollCq posting.awaited polls)

/-- `wait_wrid_wc_map` has a pointer to the completion, which is null here. -/
def rdmaPostSrListBatchAsync {Wc : Type} (memory : WrMemory Payload) (rtt : UInt64)
    (srListBatch : List (List IbvSrList)) (waitWridWcMap : Std.TreeMap UInt64 (Option Wc)) :
    Option (Posting Payload (Option Wc) × UInt64) :=
  (postSrListBatch none waitWridWcMap memory srListBatch).map fun posting =>
    (posting, addRtt rtt srListBatch)

end Functions

section Servers

def listsTo (srListBatch : List (List IbvSrList)) (server : UInt8) : List IbvSrList :=
  srListBatch.flatten.filter (·.server = server)

theorem getElem?_foldl_pushSrList (lists : List IbvSrList)
    (map : Std.TreeMap UInt8 (List IbvSrList)) (server : UInt8) :
    (lists.foldl pushSrList map)[server]? =
      if lists.filter (·.server = server) = [] then map[server]?
      else some (map[server]?.getD [] ++ lists.filter (·.server = server)) := by
  induction lists generalizing map with
  | nil => rfl
  | cons list lists ih =>
    rw [foldl_cons, ih, pushSrList, Std.TreeMap.getElem?_alter]
    by_cases same : list.server = server
    · subst same
      rw [if_pos Std.compare_self, filter_cons_of_pos (by simp),
        if_neg (cons_ne_nil _ _), getD_some, append_assoc]
      by_cases alone : lists.filter (·.server = list.server) = []
      · rw [if_pos alone, alone]
      · rw [if_neg alone, singleton_append]
    · have ne : compare list.server server ≠ .eq := fun equal =>
        same (Std.LawfulEqCmp.eq_of_compare equal)
      rw [if_neg ne, filter_cons_of_neg (by simpa using same)]

variable (srListBatch : List (List IbvSrList))

theorem getElem?_serverIdSrListMap (server : UInt8) :
    (serverIdSrListMap srListBatch)[server]? =
      if listsTo srListBatch server = [] then none else some (listsTo srListBatch server) := by
  rw [serverIdSrListMap, ← foldl_flatten, getElem?_foldl_pushSrList, listsTo,
    Std.TreeMap.getElem?_emptyc]
  rfl

theorem mem_toList_serverIdSrListMap {entry : UInt8 × List IbvSrList} :
    entry ∈ (serverIdSrListMap srListBatch).toList ↔
      entry.2 = listsTo srListBatch entry.1 ∧ entry.2 ≠ [] := by
  rw [Std.TreeMap.mem_toList_iff_getElem?_eq_some, getElem?_serverIdSrListMap]
  split_ifs with none
  · simp [none]
  · constructor
    · intro same
      obtain same := some.inj same
      exact ⟨same.symm, same ▸ none⟩
    · exact fun same => congrArg some same.1.symm

theorem nodup_map_fst_toList {Key Value : Type} {cmp : Key → Key → Ordering} [Std.TransCmp cmp]
    (map : Std.TreeMap Key Value cmp) : (map.toList.map Prod.fst).Nodup := by
  rw [Std.TreeMap.map_fst_toList_eq_keys]
  exact Std.TreeMap.nodup_keys

theorem flatMap_listsTo_perm {servers : List UInt8} (nodup : servers.Nodup)
    (all : ∀ list ∈ srListBatch.flatten, list.server ∈ servers) :
    (servers.flatMap (listsTo srListBatch)).Perm srListBatch.flatten := by
  have sorted := flatMap_filter_perm IbvSrList.server srListBatch.flatten nodup
  rwa [filter_eq_self.mpr fun list mem => decide_eq_true (all list mem)] at sorted

theorem listsTo_ne_nil_iff {server : UInt8} :
    listsTo srListBatch server ≠ [] ↔ ∃ list ∈ srListBatch.flatten, list.server = server := by
  rw [listsTo, Ne, filter_eq_nil_iff]
  simp only [decide_eq_true_eq, not_forall, not_not, exists_prop]

end Servers

section Merges

variable {Payload Value : Type}

def lastWrId (memory : WrMemory Payload) (srLists : List IbvSrList) : Option UInt64 :=
  (chainOf srLists).getLast?.map fun last => (memory last).wrId

structure Mergeable (memory : WrMemory Payload) (entries : List (UInt8 × List IbvSrList)) :
    Prop where
  nonempty : ∀ entry ∈ entries, entry.2 ≠ []
  servers : ∀ entry ∈ entries, ∀ list ∈ entry.2, list.server = entry.1
  filled : ∀ entry ∈ entries, ∀ list ∈ entry.2, list.numSr ≠ 0
  linked : ∀ entry ∈ entries, ∀ list ∈ entry.2,
    Linked (fun cell => (memory cell).next) list.requests
  keys : (entries.map Prod.fst).Nodup
  nodup : (entries.map fun entry => chainOf entry.2).flatten.Nodup

structure Merges (pending : Value) (before after : Posting Payload Value)
    (entries : List (UInt8 × List IbvSrList)) : Prop where
  links : OnlyLinks before.memory after.memory (entries.map fun entry => chainOf entry.2)
  chained : ∀ entry ∈ entries, Chained after.memory (chainOf entry.2)
  posts : ∀ entry ∈ entries, after.postSrMap[entry.1]? = (chainOf entry.2).head?
  otherPosts : ∀ server ∉ entries.map Prod.fst, after.postSrMap[server]? = before.postSrMap[server]?
  awaited : ∀ wrId, (∃ entry ∈ entries, lastWrId before.memory entry.2 = some wrId) →
    after.awaited[wrId]? = some pending
  otherAwaited : ∀ wrId, (∀ entry ∈ entries, lastWrId before.memory entry.2 ≠ some wrId) →
    after.awaited[wrId]? = before.awaited[wrId]?

theorem getElem?_insert_of_ne {Key Other : Type} {cmp : Key → Key → Ordering} [Std.TransCmp cmp]
    [Std.LawfulEqCmp cmp] (map : Std.TreeMap Key Other cmp) {key other : Key} (value : Other)
    (ne : key ≠ other) : (map.insert key value)[other]? = map[other]? := by
  rw [Std.TreeMap.getElem?_insert, if_neg (mt Std.LawfulEqCmp.eq_of_compare ne)]

theorem lastWrId_eq {before after : WrMemory Payload} {chains : List (List WrPtr)}
    (links : OnlyLinks before after chains) (srLists : List IbvSrList) :
    lastWrId after srLists = lastWrId before srLists := by
  unfold lastWrId
  simp only [links.wrId]

theorem Chained.congr {memory other : WrMemory Payload} {chain : List WrPtr}
    (agree : ∀ cell ∈ chain, other cell = memory cell) (chained : Chained memory chain) :
    Chained other chain where
  linked := chained.linked.congr fun cell mem => congrArg IbvSendWr.next (agree cell mem)
  ends last isLast := by
    rw [agree last (mem_of_mem_getLast? isLast)]
    exact chained.ends last isLast
  signalled last isLast := by
    rw [agree last (mem_of_mem_getLast? isLast)]
    exact chained.signalled last isLast

variable {pending : Value} {before between after : Posting Payload Value}
  {entry : UInt8 × List IbvSrList} {entries : List (UInt8 × List IbvSrList)}

theorem Merges.refl (pending : Value) (posting : Posting Payload Value) :
    Merges pending posting posting [] :=
  ⟨OnlyLinks.refl _, by simp, by simp, fun _ _ => rfl, by simp, fun _ _ => rfl⟩

theorem Merges.cons (newKey : entry.1 ∉ entries.map Prod.fst)
    (apart : (chainOf entry.2).Disjoint (entries.map fun entry => chainOf entry.2).flatten)
    (first : Merges pending before between [entry]) (rest : Merges pending between after entries) :
    Merges pending before after (entry :: entries) where
  links := first.links.cons rest.links
  chained := by
    refine forall_mem_cons.mpr ⟨?_, rest.chained⟩
    refine (first.chained entry mem_cons_self).congr fun cell mem => ?_
    exact rest.links.outside cell (apart mem)
  posts := by
    refine forall_mem_cons.mpr ⟨?_, rest.posts⟩
    rw [rest.otherPosts entry.1 newKey, first.posts entry mem_cons_self]
  otherPosts server absent := by
    rw [map_cons, mem_cons, not_or] at absent
    rw [rest.otherPosts server absent.2, first.otherPosts server (by simpa using absent.1)]
  awaited wrId found := by
    by_cases later : ∃ entry ∈ entries, lastWrId between.memory entry.2 = some wrId
    · exact rest.awaited wrId later
    · simp only [lastWrId_eq first.links] at later
      rw [exists_mem_cons_iff] at found
      rw [rest.otherAwaited wrId fun entry mem same =>
        later ⟨entry, mem, (lastWrId_eq first.links _).symm.trans same⟩]
      exact first.awaited wrId ⟨entry, mem_cons_self, found.resolve_right later⟩
  otherAwaited wrId absent := by
    obtain ⟨notFirst, notLater⟩ := forall_mem_cons.mp absent
    rw [rest.otherAwaited wrId, first.otherAwaited wrId (by simpa using notFirst)]
    intro entry mem
    rw [lastWrId_eq first.links]
    exact notLater entry mem

theorem mergeServer_spec (pending : Value) (mergeable : Mergeable before.memory (entry :: entries)) :
    ∃ between, mergeServer pending before entry = some between ∧
      Merges pending before between [entry] ∧ Mergeable between.memory entries := by
  obtain ⟨nonempty, othersNonempty⟩ := forall_mem_cons.mp mergeable.nonempty
  obtain ⟨servers, othersServers⟩ := forall_mem_cons.mp mergeable.servers
  obtain ⟨filled, othersFilled⟩ := forall_mem_cons.mp mergeable.filled
  obtain ⟨linked, othersLinked⟩ := forall_mem_cons.mp mergeable.linked
  obtain ⟨-, keys⟩ := nodup_cons.mp mergeable.keys
  obtain ⟨nodup, othersNodup, apart⟩ := nodup_append'.mp mergeable.nodup
  obtain ⟨memory, head, last, merged, isHead, isLast, chained, links⟩ :=
    ibMergeSrLists_spec nonempty filled nodup linked
  have awaits : lastWrId before.memory entry.2 = some (before.memory last).wrId := by
    rw [lastWrId, isLast, map_some]
  have isFirst := head?_eq_some_head nonempty
  have key := servers _ (head_mem nonempty)
  refine ⟨⟨memory, before.postSrMap.insert entry.1 head,
    before.awaited.insert (before.memory last).wrId pending⟩, ?_, ⟨links, ?_, ?_, ?_, ?_, ?_⟩, ?_⟩
  · rw [mergeServer, isFirst, merged, bind_some, map_some, key]
  · simpa using chained
  · intro other mem
    obtain rfl := mem_singleton.mp mem
    rw [isHead]
    exact Std.TreeMap.getElem?_insert_self
  · intro server other
    exact getElem?_insert_of_ne _ _ (by simpa [eq_comm] using other)
  · rintro wrId ⟨other, mem, same⟩
    obtain rfl := mem_singleton.mp mem
    rw [awaits] at same
    obtain rfl := some.inj same
    exact Std.TreeMap.getElem?_insert_self
  · intro wrId other
    refine getElem?_insert_of_ne _ _ fun same => other entry mem_cons_self ?_
    rw [awaits, same]
  · refine ⟨othersNonempty, othersServers, othersFilled, ?_, keys, othersNodup⟩
    intro other mem list inOther
    refine (othersLinked other mem list inOther).congr fun cell req => ?_
    have cellOther : cell ∈ chainOf other.2 := mem_flatMap.mpr ⟨list, inOther, req⟩
    have notHere : cell ∉ chainOf entry.2 := fun here =>
      apart here (mem_flatten_of_mem (List.mem_map_of_mem mem) cellOther)
    exact congrArg IbvSendWr.next (links.outside cell (by simpa using notHere))

theorem mergeServers_spec (pending : Value) (mergeable : Mergeable before.memory entries) :
    ∃ after, entries.foldlM (mergeServer pending) before = some after ∧
      Merges pending before after entries := by
  induction entries generalizing before with
  | nil => exact ⟨before, rfl, .refl pending before⟩
  | cons entry entries ih =>
    obtain ⟨newKey, -⟩ := nodup_cons.mp mergeable.keys
    obtain ⟨-, -, apart⟩ := nodup_append'.mp mergeable.nodup
    obtain ⟨_, step, first, others⟩ := mergeServer_spec pending mergeable
    obtain ⟨after, run, rest⟩ := ih others
    refine ⟨after, ?_, first.cons newKey apart rest⟩
    rw [foldlM_cons, step]
    exact run

end Merges

section Polling

variable {compWridMap : Std.TreeMap UInt64 Bool}

theorem isAllComplete_iff : isAllComplete compWridMap ↔
    ∀ wrId : UInt64, compWridMap[wrId]? ≠ some false := by
  simp only [isAllComplete, List.all_eq_true, decide_eq_true_eq, Prod.forall,
    Std.TreeMap.mem_toList_iff_getElem?_eq_some]
  constructor
  · exact fun complete wrId found => complete wrId false found rfl
  · rintro complete wrId _ found rfl
    exact complete wrId found

theorem getElem?_foldl_insert (polled : List UInt64) (compWridMap : Std.TreeMap UInt64 Bool)
    (wrId : UInt64) :
    (polled.foldl (fun map wrId => map.insert wrId true) compWridMap)[wrId]? = some false ↔
      wrId ∉ polled ∧ compWridMap[wrId]? = some false := by
  induction polled generalizing compWridMap with
  | nil => simp
  | cons first polled ih =>
    rw [foldl_cons, ih, mem_cons, not_or]
    by_cases same : first = wrId
    · rw [same, Std.TreeMap.getElem?_insert_self]
      simp
    · rw [getElem?_insert_of_ne _ _ same]
      simp [Ne.symm same]

theorem isSome_pollCq (compWridMap : Std.TreeMap UInt64 Bool) (polls : List (List UInt64)) :
    (pollCq compWridMap polls).isSome ↔
      polls ≠ [] ∧ ∀ wrId, compWridMap[wrId]? = some false → wrId ∈ polls.flatten := by
  induction polls generalizing compWridMap with
  | nil => simp [pollCq]
  | cons polled later ih =>
    rw [pollCq]
    split_ifs with complete
    · simp only [isAllComplete_iff, ne_eq, getElem?_foldl_insert] at complete
      refine iff_of_true rfl ⟨cons_ne_nil _ _, fun wrId pending => ?_⟩
      rw [flatten_cons, mem_append]
      by_contra! missing
      exact complete wrId ⟨missing.1, pending⟩
    · rw [ih]
      simp only [isAllComplete_iff, ne_eq, getElem?_foldl_insert, not_forall, not_not] at complete ⊢
      obtain ⟨open_, notPolled, pending⟩ := complete
      constructor
      · rintro ⟨-, rest⟩
        refine ⟨cons_ne_nil _ _, fun wrId pending => ?_⟩
        rw [flatten_cons, mem_append]
        by_cases now : wrId ∈ polled
        · exact .inl now
        · exact .inr (rest wrId ⟨now, pending⟩)
      · rintro ⟨-, all⟩
        have rest : ∀ wrId, wrId ∉ polled ∧ compWridMap[wrId]? = some false →
            wrId ∈ later.flatten := by
          rintro wrId ⟨notNow, pending⟩
          exact (mem_append.mp (flatten_cons ▸ all wrId pending)).resolve_left notNow
        refine ⟨?_, rest⟩
        rintro rfl
        simpa using rest open_ ⟨notPolled, pending⟩

end Polling

section Posted

variable {Payload Value : Type} {memory : WrMemory Payload} {srListBatch : List (List IbvSrList)}

structure BatchReady (memory : WrMemory Payload) (srListBatch : List (List IbvSrList)) : Prop where
  nonempty : ∀ list ∈ srListBatch.flatten, list.numSr ≠ 0
  linked : ∀ list ∈ srListBatch.flatten, Linked (fun cell => (memory cell).next) list.requests
  nodup : (chainOf srListBatch.flatten).Nodup
  wrId : ∀ list ∈ srListBatch.flatten, ∀ cell ∈ list.requests, ∃ coroId reqTypeSt reqSeq : UInt32,
    reqTypeSt.toNat + reqSeq.toNat < 1000 ∧
      (memory cell).wrId = ibGenWrId coroId list.server reqTypeSt reqSeq

def requestsTo (srListBatch : List (List IbvSrList)) (server : UInt8) : List WrPtr :=
  chainOf (listsTo srListBatch server)

structure BatchPosted (pending : Value) (awaited : Std.TreeMap UInt64 Value)
    (memory : WrMemory Payload) (srListBatch : List (List IbvSrList))
    (posting : Posting Payload Value) : Prop where
  servers : (posting.posts.map Prod.fst).Nodup ∧ ∀ server,
    server ∈ posting.posts.map Prod.fst ↔ ∃ list ∈ srListBatch.flatten, list.server = server
  chains : ∀ post ∈ posting.posts, ∀ room ≥ (requestsTo srListBatch post.1).length,
    ibvPostSend posting.memory room post.2 = some (requestsTo srListBatch post.1)
  /-- Every request is posted, and none twice. -/
  once : (posting.posts.flatMap fun post => requestsTo srListBatch post.1).Perm
      (chainOf srListBatch.flatten) ∧
    (posting.posts.flatMap fun post => requestsTo srListBatch post.1).Nodup
  /-- The requests themselves stay as they were, apart from the flag. -/
  unchanged : OnlyLinks memory posting.memory
    (posting.posts.map fun post => requestsTo srListBatch post.1)
  signalled : ∀ post ∈ posting.posts, ∃ last,
    (requestsTo srListBatch post.1).getLast? = some last ∧
      (posting.memory last).sendFlags &&& ibvSendSignaled = ibvSendSignaled
  waits : ∃ wrIds : List UInt64, wrIds.Nodup ∧
    posting.posts.map (fun post => lastWrId memory (listsTo srListBatch post.1)) = wrIds.map some ∧
    ∀ wrId, posting.awaited[wrId]? = if wrId ∈ wrIds then some pending else awaited[wrId]?

theorem mergeable_toList (ready : BatchReady memory srListBatch) :
    Mergeable memory (serverIdSrListMap srListBatch).toList := by
  have entries := fun entry => @mem_toList_serverIdSrListMap srListBatch entry
  have mem : ∀ entry ∈ (serverIdSrListMap srListBatch).toList, ∀ list ∈ entry.2,
      list ∈ srListBatch.flatten ∧ list.server = entry.1 := by
    intro entry inMap list inEntry
    rw [((entries entry).mp inMap).1, listsTo, mem_filter] at inEntry
    exact ⟨inEntry.1, of_decide_eq_true inEntry.2⟩
  have keys := nodup_map_fst_toList (serverIdSrListMap srListBatch)
  refine ⟨fun entry inMap => ((entries entry).mp inMap).2,
    fun entry inMap list inEntry => (mem entry inMap list inEntry).2,
    fun entry inMap list inEntry => ready.nonempty list (mem entry inMap list inEntry).1,
    fun entry inMap list inEntry => ready.linked list (mem entry inMap list inEntry).1, keys, ?_⟩
  have all : ∀ list ∈ srListBatch.flatten,
      list.server ∈ (serverIdSrListMap srListBatch).toList.map Prod.fst := by
    intro list inBatch
    have own := (listsTo_ne_nil_iff srListBatch).mpr ⟨list, inBatch, rfl⟩
    exact List.mem_map_of_mem ((entries (list.server, _)).mpr ⟨rfl, own⟩)
  have chains : ((serverIdSrListMap srListBatch).toList.map fun entry => chainOf entry.2).flatten =
      chainOf (((serverIdSrListMap srListBatch).toList.map Prod.fst).flatMap
        (listsTo srListBatch)) := by
    rw [chainOf, flatMap_assoc, flatMap_map, ← flatMap_def]
    exact flatMap_congr fun entry inMap => congrArg chainOf ((entries entry).mp inMap).1
  rw [chains]
  exact ((flatMap_listsTo_perm srListBatch keys all).flatMap_right _).nodup_iff.mpr ready.nodup

theorem wridToDstSid_lastWrId (ready : BatchReady memory srListBatch) {server : UInt8} {wrId : UInt64}
    (last : lastWrId memory (listsTo srListBatch server) = some wrId) :
    wridToDstSid wrId = server := by
  obtain ⟨cell, isLast, rfl⟩ := map_eq_some_iff.mp last
  obtain ⟨list, inLists, req⟩ := mem_flatMap.mp (mem_of_mem_getLast? isLast)
  obtain ⟨inBatch, sameServer⟩ := mem_filter.mp inLists
  obtain ⟨coroId, _, _, small, number⟩ := ready.wrId list inBatch cell req
  rw [number, (wrid_decoded coroId list.server small).2.1]
  exact of_decide_eq_true sameServer

theorem OnlyLinks.of_mem_iff {before after : WrMemory Payload} {chains others : List (List WrPtr)}
    (same : ∀ chain, chain ∈ chains ↔ chain ∈ others) (links : OnlyLinks before after chains) :
    OnlyLinks before after others where
  outside cell absent := by
    refine links.outside cell fun present => absent ?_
    obtain ⟨chain, inChains, inChain⟩ := List.mem_flatten.mp present
    exact mem_flatten_of_mem ((same chain).mp inChains) inChain
  wrId := links.wrId
  payload := links.payload
  sendFlags cell other := links.sendFlags cell fun chain inChains => other chain ((same chain).mp inChains)

section Merged

variable {pending : Value} {awaited : Std.TreeMap UInt64 Value} {posting : Posting Payload Value}
  (ready : BatchReady memory srListBatch)
  (merges : Merges pending ⟨memory, ∅, awaited⟩ posting (serverIdSrListMap srListBatch).toList)
variable {post : UInt8 × WrPtr}

include merges in
theorem mem_posts_iff :
    post ∈ posting.posts ↔ (requestsTo srListBatch post.1).head? = some post.2 := by
  rw [Posting.posts, Std.TreeMap.mem_toList_iff_getElem?_eq_some]
  by_cases addressed : listsTo srListBatch post.1 = []
  · have absent : post.1 ∉ (serverIdSrListMap srListBatch).toList.map Prod.fst := by
      intro present
      obtain ⟨entry, inMap, same⟩ := List.mem_map.mp present
      obtain ⟨lists, nonempty⟩ := (mem_toList_serverIdSrListMap srListBatch).mp inMap
      rw [lists, same] at nonempty
      exact nonempty addressed
    rw [merges.otherPosts post.1 absent, requestsTo, addressed]
    simp [chainOf]
  · have entry : (post.1, listsTo srListBatch post.1) ∈ (serverIdSrListMap srListBatch).toList :=
      (mem_toList_serverIdSrListMap srListBatch).mpr ⟨rfl, addressed⟩
    rw [merges.posts _ entry]
    rfl

include merges in
theorem entry_of_mem_posts (posted : post ∈ posting.posts) :
    (post.1, listsTo srListBatch post.1) ∈ (serverIdSrListMap srListBatch).toList := by
  have head := (mem_posts_iff merges).mp posted
  have addressed : listsTo srListBatch post.1 ≠ [] := by
    intro none
    rw [requestsTo, none] at head
    cases head
  exact (mem_toList_serverIdSrListMap srListBatch).mpr ⟨rfl, addressed⟩

include ready merges

theorem mem_map_fst_posts_iff {server : UInt8} :
    server ∈ posting.posts.map Prod.fst ↔ listsTo srListBatch server ≠ [] := by
  constructor
  · intro present
    obtain ⟨_, posted, rfl⟩ := List.mem_map.mp present
    exact ((mem_toList_serverIdSrListMap srListBatch).mp (entry_of_mem_posts merges posted)).2
  · intro addressed
    have filled : ∀ list ∈ listsTo srListBatch server, list.numSr ≠ 0 := fun list mem =>
      ready.nonempty list (mem_of_mem_filter mem)
    have head := head?_chainOf filled
    rw [head?_eq_some_head addressed, map_some] at head
    have posted : (server, _) ∈ posting.posts := (mem_posts_iff merges).mpr head
    exact List.mem_map_of_mem posted

theorem onlyLinks_posts :
    OnlyLinks memory posting.memory (posting.posts.map fun post => requestsTo srListBatch post.1) := by
  refine merges.links.of_mem_iff fun chain => ?_
  constructor
  · intro mem
    obtain ⟨_, inMap, rfl⟩ := List.mem_map.mp mem
    obtain ⟨lists, nonempty⟩ := (mem_toList_serverIdSrListMap srListBatch).mp inMap
    rw [lists] at nonempty ⊢
    obtain ⟨post, posted, same⟩ :=
      List.mem_map.mp ((mem_map_fst_posts_iff ready merges).mpr nonempty)
    exact List.mem_map.mpr ⟨post, posted, congrArg (requestsTo srListBatch) same⟩
  · intro mem
    obtain ⟨_, posted, rfl⟩ := List.mem_map.mp mem
    exact List.mem_map.mpr ⟨_, entry_of_mem_posts merges posted, rfl⟩

omit ready in
theorem ibvPostSend_eq (posted : post ∈ posting.posts) {room : ℕ}
    (enough : (requestsTo srListBatch post.1).length ≤ room) :
    ibvPostSend posting.memory room post.2 = some (requestsTo srListBatch post.1) := by
  have chained := merges.chained _ (entry_of_mem_posts merges posted)
  exact traverse_eq_some ((mem_posts_iff merges).mp posted) chained.linked chained.ends
    (fun _ _ _ => rfl) enough

theorem posts_perm :
    (posting.posts.flatMap fun post => requestsTo srListBatch post.1).Perm
      (chainOf srListBatch.flatten) := by
  have all : ∀ list ∈ srListBatch.flatten, list.server ∈ posting.posts.map Prod.fst :=
    fun list inBatch => (mem_map_fst_posts_iff ready merges).mpr
      ((listsTo_ne_nil_iff srListBatch).mpr ⟨list, inBatch, rfl⟩)
  have sorted := flatMap_listsTo_perm srListBatch (nodup_map_fst_toList posting.postSrMap) all
  have requests := sorted.flatMap_right IbvSrList.requests
  rw [flatMap_assoc, flatMap_map] at requests
  exact requests

theorem exists_lastWrId {post : UInt8 × WrPtr} (posted : post ∈ posting.posts) :
    ∃ wrId, lastWrId memory (listsTo srListBatch post.1) = some wrId := by
  have addressed := (mem_map_fst_posts_iff ready merges).mp (List.mem_map_of_mem posted)
  have filled : ∀ list ∈ listsTo srListBatch post.1, list.numSr ≠ 0 := fun list mem =>
    ready.nonempty list (mem_of_mem_filter mem)
  have last := getLast?_chainOf filled
  rw [getLast?_eq_getLast_of_ne_nil addressed, map_some] at last
  rw [lastWrId, last, map_some]
  exact ⟨_, rfl⟩

theorem waits_of_merges :
    ∃ wrIds : List UInt64, wrIds.Nodup ∧
      posting.posts.map (fun post => lastWrId memory (listsTo srListBatch post.1)) =
        wrIds.map some ∧
      ∀ wrId, posting.awaited[wrId]? = if wrId ∈ wrIds then some pending else awaited[wrId]? := by
  have exists_wrId := fun post => @exists_lastWrId _ _ _ _ _ _ _ ready merges post
  choose! wrIdOf found using exists_wrId
  have keys := nodup_map_fst_toList posting.postSrMap
  refine ⟨posting.posts.map wrIdOf, ?_, ?_, fun wrId => ?_⟩
  · refine List.Nodup.map_on ?_ (List.Nodup.of_map _ keys)
    intro post posted other otherPosted same
    have server := wridToDstSid_lastWrId ready (found post posted)
    rw [same, wridToDstSid_lastWrId ready (found other otherPosted)] at server
    exact inj_on_of_nodup_map keys posted otherPosted server.symm
  · rw [List.map_map]
    exact map_congr_left found
  · split_ifs with waited
    · obtain ⟨post, posted, rfl⟩ := List.mem_map.mp waited
      exact merges.awaited _ ⟨_, entry_of_mem_posts merges posted, found post posted⟩
    · refine merges.otherAwaited wrId fun entry inMap same => waited ?_
      obtain ⟨lists, nonempty⟩ := (mem_toList_serverIdSrListMap srListBatch).mp inMap
      rw [lists] at nonempty same
      obtain ⟨post, posted, server⟩ :=
        List.mem_map.mp ((mem_map_fst_posts_iff ready merges).mpr nonempty)
      refine List.mem_map.mpr ⟨post, posted, some.inj ((found post posted).symm.trans ?_)⟩
      rw [server]
      exact same

theorem BatchPosted.of_merges : BatchPosted pending awaited memory srListBatch posting where
  servers := by
    refine ⟨nodup_map_fst_toList posting.postSrMap, fun server => ?_⟩
    rw [mem_map_fst_posts_iff ready merges, listsTo_ne_nil_iff]
  chains post posted room enough := ibvPostSend_eq merges posted enough
  once :=
    have perm := posts_perm ready merges
    ⟨perm, perm.nodup_iff.mpr ready.nodup⟩
  unchanged := onlyLinks_posts ready merges
  signalled post posted := by
    have chained := merges.chained _ (entry_of_mem_posts merges posted)
    obtain ⟨_, awaits⟩ := exists_lastWrId ready merges posted
    obtain ⟨last, isLast, -⟩ := map_eq_some_iff.mp awaits
    exact ⟨last, isLast, chained.signalled last isLast⟩
  waits := waits_of_merges ready merges

end Merged

theorem postSrListBatch_spec (ready : BatchReady memory srListBatch) (pending : Value)
    (awaited : Std.TreeMap UInt64 Value) :
    ∃ posting, postSrListBatch pending awaited memory srListBatch = some posting ∧
      BatchPosted pending awaited memory srListBatch posting := by
  have mergeable := mergeable_toList ready
  obtain ⟨posting, run, merges⟩ :=
    @mergeServers_spec Payload Value ⟨memory, ∅, awaited⟩ _ pending mergeable
  exact ⟨posting, run, .of_merges ready merges⟩

theorem BatchPosted.mem_awaited_iff {posting : Posting Payload Bool}
    (posted : BatchPosted false ∅ memory srListBatch posting) {wrId : UInt64} :
    wrId ∈ posting.awaited ↔ posting.awaited[wrId]? = some false := by
  obtain ⟨_, -, -, lookup⟩ := posted.waits
  rw [Std.TreeMap.mem_iff_isSome_getElem?, lookup]
  split_ifs
  · simp
  · simp

/-- Both functions post every request of a batch once and in order, and wait for
the last request of each server. -/
theorem batch_posted (ready : BatchReady memory srListBatch) (rtt : UInt64) :
    (∀ polls, ∃ posting ended,
      rdmaPostSrListBatchSync memory rtt srListBatch polls =
        some (posting, addRtt rtt srListBatch, ended) ∧
      BatchPosted false ∅ memory srListBatch posting ∧
      (ended.isSome ↔ polls ≠ [] ∧ ∀ wrId ∈ posting.awaited, wrId ∈ polls.flatten)) ∧
    ∀ {Wc : Type} (waitWridWcMap : Std.TreeMap UInt64 (Option Wc)), ∃ posting,
      rdmaPostSrListBatchAsync memory rtt srListBatch waitWridWcMap =
        some (posting, addRtt rtt srListBatch) ∧
      BatchPosted none waitWridWcMap memory srListBatch posting := by
  constructor
  · intro polls
    obtain ⟨posting, run, posted⟩ := postSrListBatch_spec ready false ∅
    refine ⟨posting, pollCq posting.awaited polls, ?_, posted, ?_⟩
    · rw [rdmaPostSrListBatchSync, run, map_some]
    · simp only [isSome_pollCq, posted.mem_awaited_iff]
  · intro Wc waitWridWcMap
    obtain ⟨posting, run, posted⟩ := postSrListBatch_spec ready none waitWridWcMap
    refine ⟨posting, ?_, posted⟩
    rw [rdmaPostSrListBatchAsync, run, map_some]

end Posted

/-! ## A batch for two servers -/

def twoServerBatch : List (List IbvSrList) :=
  [[⟨⟨0, 0⟩, 2, 0⟩, ⟨⟨1, 0⟩, 1, 1⟩], [⟨⟨2, 0⟩, 1, 0⟩]]

def twoServerMemory : WrMemory Unit := fun ptr =>
  { wrId := ibGenWrId 3 (if ptr.array = 1 then 1 else 0) 100 (UInt32.ofNat ptr.index)
    next := if ptr = ⟨0, 0⟩ then some ⟨0, 1⟩ else none
    sendFlags := 0
    payload := () }

theorem batchReady_twoServers : BatchReady twoServerMemory twoServerBatch where
  nonempty := by decide
  linked := by
    unfold Linked
    decide
  nodup := by decide
  wrId := by
    intro list inBatch cell req
    refine ⟨3, 100, UInt32.ofNat cell.index, ?_, ?_⟩
    · revert list cell
      decide
    · revert list cell
      decide

theorem batch_posted_twoServers :
    BatchReady twoServerMemory twoServerBatch ∧
      requestsTo twoServerBatch 0 = [⟨0, 0⟩, ⟨0, 1⟩, ⟨2, 0⟩] ∧
      requestsTo twoServerBatch 1 = [⟨1, 0⟩] ∧
      ∃ posting ended, rdmaPostSrListBatchSync twoServerMemory 0 twoServerBatch [] =
        some (posting, 4, ended) ∧ BatchPosted false ∅ twoServerMemory twoServerBatch posting := by
  obtain ⟨posting, ended, run, posted, -⟩ := (batch_posted batchReady_twoServers 0).1 []
  exact ⟨batchReady_twoServers, by decide, by decide, posting, ended, run, posted⟩

end FuseeFs.Network
