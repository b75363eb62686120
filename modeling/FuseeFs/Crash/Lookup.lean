import FuseeFs.KeyValue.Model
import FuseeFs.Library.Grouping

/-!
# Lookups after a crash of the primary index

If the server of the primary index has crashed, a search reads the buckets of
all replicas that are left.  Each slot is put to a vote in which the survivors
also vote for the failed replicas.
-/

namespace FuseeFs.Crash

open Function List Option Index KeyValue Library

/-! ## What a lookup finds -/

abbrev Candidate := RemoteAddr × Position

def readAddr (subblockSz : ℕ) (word : UInt64) : RemoteAddr where
  serverId := (raceHashSlot word).serverId
  rKvAddr := UInt64.ofNat (rKvAddr word)
  length := UInt32.ofNat ((raceHashSlot word).kvLen.toNat * subblockSz)

def candidates (subblockSz : ℕ) (fp : UInt8) (buckets : Buckets) : List Candidate :=
  (findKvInBuckets fp buckets).map fun pos => (readAddr subblockSz (buckets pos), pos)

/-! ## Replicas -/

/-- The replicas of a subtable of the index, and the servers that have crashed;
not all replicas are lost. -/
structure Replicas where
  numReplication : ℕ
  numIdxRep : ℕ
  subblockSz : ℕ
  subblockSz_pos : 0 < subblockSz
  /-- The length of a pair fits into 32 bits. -/
  subblockSz_lt : subblockSz < 2 ^ 24
  serverIdList : ℕ → UInt8
  serverCrashMap : UInt8 → Bool
  survives : ∃ replica < numIdxRep, serverCrashMap (serverIdList replica) = false

/-- `healthy_idx_server_id_list` after `check_failed_index`. -/
def Replicas.checkFailedIndex (replicas : Replicas) : List ℕ :=
  (List.range replicas.numIdxRep).filter fun replica =>
    !replicas.serverCrashMap (replicas.serverIdList replica)

/-- What a context has from earlier requests: whether `slot_arr` was set to the
local buckets, and the two lists. -/
structure LookupCtx where
  hasSlotArr : Bool
  found : List Candidate

/-! ## The vote on one slot -/

structure Found where
  addr : ℕ → RemoteAddr
  bmap : ℕ → Bool
  idx : List ℕ

def Found.empty : Found := ⟨fun _ => .zero, fun _ => false, []⟩

def foundAddr (word : UInt64) : RemoteAddr where
  serverId := (raceHashSlot word).serverId
  rKvAddr := UInt64.ofNat (rKvAddr word)
  length := (raceHashSlot word).kvLen.toUInt32 <<< 8

section Vote

variable (numReplication : ℕ) (fp : UInt8)

/-- One iteration of the loop over the survivors: the replica number and its
place in the list of survivors.  `slotArr` is the word that `slot_arr` of the
context leads to, which is not set by this function.  The arrays have
`num_replication_` elements. -/
def findInReplica (slotArr : Option UInt64) (words : ℕ → UInt64) (found : Found)
    (survivor : ℕ × ℕ) : Option Found :=
  let (origBkIdx, index) := survivor
  if (raceHashSlot (words origBkIdx)).fp = fp then
    match slotArr with
    | none => none
    | some slot =>
      if (raceHashSlot slot).kvLen ≠ 0 then
        if origBkIdx < numReplication then
          some
            { addr := update found.addr origBkIdx (foundAddr (words origBkIdx))
              bmap := update found.bmap origBkIdx true
              idx := found.idx ++ [index] }
        else none
      else some found
  else some found

def findInReplicas (slotArr : Option UInt64) (words : ℕ → UInt64) (healthy : List ℕ) :
    Option Found :=
  healthy.zipIdx.foldlM (findInReplica numReplication fp slotArr words) .empty

/-- `found_addr` after the loop that virtually recovers the failed replicas. -/
def Found.recovered (found : Found) (replica : ℕ) : RemoteAddr :=
  if found.bmap replica then found.addr replica else found.addr (found.idx.headD 0)

def smallIt (first : ℕ × List ℕ) (entries : List (ℕ × List ℕ)) : ℕ × List ℕ :=
  entries.foldl
    (fun small entry => if first.1 / 256 * 256 > entry.1 / 256 * 256 then entry else small) first

def winIt (entries : List (ℕ × List ℕ)) : Option (ℕ × List ℕ) :=
  match entries.find? fun entry => numReplication / 2 < entry.2.length with
  | some entry => some entry
  | none => entries.head?.map fun first => smallIt first entries

/-- The address for which a slot votes, if it was found at all. -/
def gainConsensus (found : Found) : Option RemoteAddr :=
  (winIt numReplication
      (groups (fun replica => (found.recovered replica).target) (List.range numReplication))).map
    fun win => found.recovered (win.2.headD 0)

def vote (slotArr : Option UInt64) (words : ℕ → UInt64) (healthy : List ℕ) :
    Option (Option RemoteAddr) :=
  (findInReplicas numReplication fp slotArr words healthy).bind fun found =>
    if found.idx = [] then some none else (gainConsensus numReplication found).map some

end Vote

def scan (voteAt : Position → Option (Option RemoteAddr)) :
    List Position → List Candidate → Option (List Candidate)
  | [], found => some found
  | pos :: rest, found =>
    match voteAt pos with
    | none => none
    | some none => scan voteAt rest found
    | some (some addr) => scan voteAt rest (found ++ [(addr, pos)])

/-- `find_kv_in_buckets_on_crash` appends to the lists of the context.  The
result is undefined if a null pointer is followed or an array overrun. -/
def findKvInBucketsOnCrash (replicas : Replicas) (ctx : LookupCtx) (fp : UInt8)
    (contents : ℕ → Buckets) : Option (List Candidate) :=
  let healthy := replicas.checkFailedIndex
  scan
    (fun pos =>
      vote replicas.numReplication fp
        (if ctx.hasSlotArr then some (contents (healthy.headD 0) pos) else none)
        (fun replica => contents replica pos) healthy)
    positions ctx.found

section SameContents

variable {numReplication : ℕ} {fp : UInt8} {word : UInt64} {healthy : List ℕ}

theorem vote_of_not_isCandidate {slotArr : Option UInt64}
    (readable : (raceHashSlot word).fp = fp → slotArr = some word)
    (skipped : ¬ isCandidate fp word) :
    vote numReplication fp slotArr (fun _ => word) healthy = some none := by
  have unchanged : ∀ (found : Found) (survivor : ℕ × ℕ),
      findInReplica numReplication fp slotArr (fun _ => word) found survivor = some found := by
    intro found survivor
    by_cases sameFp : (raceHashSlot word).fp = fp
    · have noLength : ¬ (raceHashSlot word).kvLen ≠ 0 := fun length =>
        skipped (decide_eq_true ⟨sameFp, length⟩)
      simp only [findInReplica, if_pos sameFp, readable sameFp, if_neg noLength]
    · simp only [findInReplica, if_neg sameFp]
  have loop : ∀ (survivors : List (ℕ × ℕ)) (found : Found),
      survivors.foldlM (findInReplica numReplication fp slotArr fun _ => word) found =
        some found := by
    intro survivors
    induction survivors with
    | nil => exact fun found => rfl
    | cons survivor rest ih =>
      intro found
      rw [foldlM_cons, unchanged]
      exact ih found
  rw [vote, findInReplicas, loop]
  rfl

theorem vote_of_unset (sameFp : (raceHashSlot word).fp = fp) (alive : healthy ≠ []) :
    vote numReplication fp none (fun _ => word) healthy = none := by
  obtain ⟨_, _, rfl⟩ := exists_cons_of_ne_nil alive
  simp [vote, findInReplicas, zipIdx_cons, findInReplica, sameFp]

def Found.after (found : Found) (word : UInt64) (survivors : List (ℕ × ℕ)) : Found where
  addr := fun replica =>
    if replica ∈ survivors.map Prod.fst then foundAddr word else found.addr replica
  bmap := fun replica => decide (replica ∈ survivors.map Prod.fst) || found.bmap replica
  idx := found.idx ++ survivors.map Prod.snd

theorem findInReplica_of_isCandidate (candidate : isCandidate fp word) (found : Found)
    (survivor : ℕ × ℕ) :
    findInReplica numReplication fp (some word) (fun _ => word) found survivor =
      if survivor.1 < numReplication then some (found.after word [survivor]) else none := by
  obtain ⟨sameFp, length⟩ := of_decide_eq_true candidate
  obtain ⟨origBkIdx, _⟩ := survivor
  simp only [findInReplica, if_pos sameFp, if_pos length]
  congr 2
  simp only [Found.after, map_cons, map_nil, mem_singleton]
  congr 1
  · funext replica
    rw [update_apply]
  · funext replica
    by_cases same : replica = origBkIdx <;> simp [same]

theorem Found.after_after (found : Found) (word : UInt64) (survivors others : List (ℕ × ℕ)) :
    (found.after word survivors).after word others = found.after word (survivors ++ others) := by
  simp only [Found.after, map_append, mem_append, append_assoc]
  congr 1
  · funext replica
    split_ifs <;> tauto
  · funext replica
    by_cases first : replica ∈ survivors.map Prod.fst <;> simp [first]

theorem foldlM_findInReplica (candidate : isCandidate fp word) (survivors : List (ℕ × ℕ))
    (found : Found) :
    survivors.foldlM (findInReplica numReplication fp (some word) fun _ => word) found =
      if ∀ survivor ∈ survivors, survivor.1 < numReplication then some (found.after word survivors)
      else none := by
  induction survivors generalizing found with
  | nil => simp [Found.after]
  | cons survivor rest ih =>
    rw [foldlM_cons, findInReplica_of_isCandidate candidate]
    by_cases fits : survivor.1 < numReplication
    · simp only [fits, if_true, bind_eq_bind, bind_some, ih,
        Found.after_after, singleton_append, forall_mem_cons, true_and]
    · simp [fits]

theorem vote_of_overrun (candidate : isCandidate fp word)
    (overrun : ∃ replica ∈ healthy, numReplication ≤ replica) :
    vote numReplication fp (some word) (fun _ => word) healthy = none := by
  obtain ⟨_, alive, beyond⟩ := overrun
  have outside : ¬ ∀ survivor ∈ healthy.zipIdx, survivor.1 < numReplication := by
    intro inside
    obtain ⟨index, pos, rfl⟩ := mem_iff_getElem.mp alive
    have mem : (healthy[index], index) ∈ healthy.zipIdx := by
      simp [mem_zipIdx_iff_getElem?, pos]
    exact absurd (inside _ mem) (Nat.not_lt.mpr beyond)
  rw [vote, findInReplicas, foldlM_findInReplica candidate, if_neg outside]
  rfl

/-- The survivors' notes.  A failed replica gets a copy of entry 0, which is
the primary's, whether the primary was read or not. -/
theorem recovered_after (alive : healthy ≠ []) (replica : ℕ) :
    (Found.empty.after word healthy.zipIdx).recovered replica =
      if replica ∈ healthy ∨ 0 ∈ healthy then foundAddr word else .zero := by
  obtain ⟨survivor, rest, rfl⟩ := exists_cons_of_ne_nil alive
  simp only [Found.recovered, Found.after, Found.empty, zipIdx_map_fst, zipIdx_map_snd]
  by_cases own : replica ∈ survivor :: rest
  · simp [own]
  · simp [own, range'_succ]

section Consensus

variable {found : Found}

def Found.voters (found : Found) (numReplication target : ℕ) : List ℕ :=
  group (fun replica => (found.recovered replica).target) (List.range numReplication) target

theorem gainConsensus_of_majority (target : ℕ)
    (majority : numReplication / 2 < (found.voters numReplication target).length) :
    gainConsensus numReplication found =
      some (found.recovered ((found.voters numReplication target).headD 0)) := by
  have won := find?_groups_of_majority (fun replica => (found.recovered replica).target)
    (List.range numReplication) (by rwa [length_range] : _ < (group _ _ target).length)
  rw [length_range] at won
  rw [gainConsensus, winIt, won]
  rfl

theorem headD_voters_zero (positive : 0 < numReplication)
    (null : (found.recovered 0).target = 0) : (found.voters numReplication 0).headD 0 = 0 := by
  obtain ⟨_, rfl⟩ := Nat.exists_eq_succ_of_ne_zero positive.ne'
  simp [Found.voters, group, range_succ_eq_map, null]

theorem smallIt_of_zero {first : ℕ × List ℕ} (zero : first.1 = 0) (entries : List (ℕ × List ℕ)) :
    smallIt first entries = first := by
  have stays : ∀ entry : ℕ × List ℕ, ¬ first.1 / 256 * 256 > entry.1 / 256 * 256 := by
    intro entry
    rw [zero]
    omega
  unfold smallIt
  induction entries with
  | nil => rfl
  | cons entry rest ih =>
    rw [foldl_cons, if_neg (stays entry)]
    exact ih

/-- Without a majority for another address, the null entry of a failed primary
wins. -/
theorem gainConsensus_of_null (positive : 0 < numReplication)
    (null : (found.recovered 0).target = 0)
    (minority : ∀ target ≠ 0, (found.voters numReplication target).length ≤ numReplication / 2) :
    gainConsensus numReplication found = some (found.recovered 0) := by
  have present : 0 ∈ List.range numReplication := mem_range.mpr positive
  -- whichever way the winner is chosen, it is the entry of address 0
  have won : winIt numReplication
      (groups (fun replica => (found.recovered replica).target) (List.range numReplication)) =
      some (0, found.voters numReplication 0) := by
    rw [winIt]
    split
    · rename_i entry result
      obtain ⟨target, members⟩ := entry
      obtain ⟨-, rfl⟩ := mem_groups.mp (mem_of_find?_eq_some result)
      have large := find?_some result
      simp only [decide_eq_true_eq] at large
      have isNull : target = 0 := by
        by_contra other
        exact absurd large (Nat.not_lt.mpr (minority target other))
      rw [isNull]
      rfl
    · obtain ⟨⟨target, _⟩, first⟩ := head?_groups_isSome
        (fun replica => (found.recovered replica).target) present
      have isNull : target = 0 := Nat.le_zero.mp (null ▸ head?_groups_le first present)
      obtain ⟨-, rfl⟩ := mem_groups.mp (mem_of_mem_head? first)
      rw [first, map_some, smallIt_of_zero isNull, isNull]
      rfl
  rw [gainConsensus, won, map_some, headD_voters_zero positive null]

end Consensus

def Outvotes (numReplication : ℕ) (healthy : List ℕ) (word : UInt64) : Prop :=
  0 ∈ healthy ∨ (numReplication / 2 < healthy.length ∧ location word ≠ (0, 0))

instance : Decidable (Outvotes numReplication healthy word) :=
  inferInstanceAs (Decidable (_ ∨ _))

theorem target_foundAddr (word : UInt64) :
    (foundAddr word).target = 0 ↔ location word = (0, 0) := by
  have noServer : (raceHashSlot word).serverId.toNat = 0 ↔ (raceHashSlot word).serverId = 0 :=
    UInt8.toNat_inj (b := 0)
  have bound := rKvAddr_lt word
  have address : (UInt64.ofNat (rKvAddr word)).toNat = rKvAddr word :=
    UInt64.toNat_ofNat_of_lt' (show _ < 2 ^ 64 by omega)
  rw [RemoteAddr.target, foundAddr, Nat.or_eq_zero_iff, address, location, Prod.mk.injEq, and_comm,
    noServer]

/-- With a failed primary, every survivor votes for the address it has, and
nobody else for an address that is not null. -/
theorem voters_after (alive : healthy ≠ []) (failed : 0 ∉ healthy) {target : ℕ}
    (notNull : target ≠ 0) :
    (Found.empty.after word healthy.zipIdx).voters numReplication target =
      (List.range numReplication).filter fun replica =>
        decide (replica ∈ healthy ∧ (foundAddr word).target = target) := by
  rw [Found.voters, group]
  congr 1
  funext replica
  rw [recovered_after alive]
  by_cases own : replica ∈ healthy
  · simp [own]
  · have null : RemoteAddr.zero.target ≠ target := fun same => notNull same.symm
    simp [own, failed, null]

theorem length_filter_range (nodup : healthy.Nodup)
    (inside : ∀ replica ∈ healthy, replica < numReplication) :
    ((List.range numReplication).filter fun replica => decide (replica ∈ healthy)).length =
      healthy.length := by
  apply List.Perm.length_eq
  rw [perm_ext_iff_of_nodup (nodup_range.filter _) nodup]
  intro replica
  simp only [mem_filter, mem_range, decide_eq_true_eq]
  exact ⟨fun both => both.2, fun own => ⟨inside replica own, own⟩⟩

theorem gainConsensus_of_primary (alive : healthy ≠ []) (own : 0 ∈ healthy)
    (positive : 0 < numReplication) :
    gainConsensus numReplication (Found.empty.after word healthy.zipIdx) =
      some (foundAddr word) := by
  have unanimous : ∀ replica,
      (Found.empty.after word healthy.zipIdx).recovered replica = foundAddr word := fun replica => by
    rw [recovered_after alive, if_pos (Or.inr own)]
  have voters : (Found.empty.after word healthy.zipIdx).voters numReplication
      (foundAddr word).target = List.range numReplication := by
    simp [Found.voters, group, unanimous]
  rw [gainConsensus_of_majority (foundAddr word).target, unanimous]
  rw [voters, length_range]
  omega

theorem gainConsensus_of_failed (alive : healthy ≠ []) (failed : 0 ∉ healthy)
    (nodup : healthy.Nodup) (inside : ∀ replica ∈ healthy, replica < numReplication) :
    gainConsensus numReplication (Found.empty.after word healthy.zipIdx) =
      some (if numReplication / 2 < healthy.length ∧ location word ≠ (0, 0) then foundAddr word
        else .zero) := by
  have null : (Found.empty.after word healthy.zipIdx).recovered 0 = .zero := by
    rw [recovered_after alive, if_neg (by simp [failed])]
  have positive : 0 < numReplication := by
    obtain ⟨replica, own⟩ := exists_mem_of_ne_nil _ alive
    exact Nat.zero_lt_of_lt (inside replica own)
  have count := length_filter_range nodup inside
  split_ifs with outvoted
  · have notNull : (foundAddr word).target ≠ 0 := fun zero =>
      outvoted.2 ((target_foundAddr word).mp zero)
    have voters : (Found.empty.after word healthy.zipIdx).voters numReplication
        (foundAddr word).target =
          (List.range numReplication).filter fun replica => decide (replica ∈ healthy) := by
      simp [voters_after alive failed notNull]
    rw [gainConsensus_of_majority (foundAddr word).target (by rw [voters, count]; exact outvoted.1),
      voters]
    -- the first voter is a survivor
    have some : 0 < ((List.range numReplication).filter fun replica =>
        decide (replica ∈ healthy)).length := by omega
    obtain ⟨first, _, split⟩ := exists_cons_of_ne_nil (ne_nil_of_length_pos some)
    have mem : first ∈ (List.range numReplication).filter fun replica =>
        decide (replica ∈ healthy) := by
      rw [split]
      exact mem_cons_self
    have own : first ∈ healthy := by simpa using (mem_filter.mp mem).2
    rw [split, headD_cons, recovered_after alive, if_pos (Or.inl own)]
  · rw [gainConsensus_of_null positive (by rw [null]; rfl), null]
    intro target notNull
    rw [voters_after alive failed notNull]
    by_cases same : (foundAddr word).target = target
    · have large : ¬ numReplication / 2 < healthy.length := fun large =>
        outvoted ⟨large, fun zero => notNull (same ▸ (target_foundAddr word).mpr zero)⟩
      simp only [same, and_true, count]
      exact Nat.not_lt.mp large
    · simp [same]

theorem vote_of_isCandidate (candidate : isCandidate fp word) (alive : healthy ≠ [])
    (nodup : healthy.Nodup) (inside : ∀ replica ∈ healthy, replica < numReplication) :
    vote numReplication fp (some word) (fun _ => word) healthy =
      some (some (if Outvotes numReplication healthy word then foundAddr word else .zero)) := by
  have fits : ∀ survivor ∈ healthy.zipIdx, survivor.1 < numReplication := fun survivor mem =>
    inside _ (fst_mem_of_mem_zipIdx mem)
  have noted : (Found.empty.after word healthy.zipIdx).idx ≠ [] := by
    simp [Found.after, Found.empty, alive]
  rw [vote, findInReplicas, foldlM_findInReplica candidate, if_pos fits, bind_some, if_neg noted]
  by_cases own : 0 ∈ healthy
  · have outvotes : Outvotes numReplication healthy word := Or.inl own
    rw [gainConsensus_of_primary alive own (inside 0 own), if_pos outvotes]
    rfl
  · rw [gainConsensus_of_failed alive own nodup inside]
    simp [Outvotes, own]

end SameContents

section Agreement

variable {voteAt : Position → Option (Option RemoteAddr)}

theorem scan_eq_some_iff {order : List Position} {found result : List Candidate} :
    scan voteAt order found = some result ↔
      (∀ pos ∈ order, voteAt pos ≠ none) ∧
        result = found ++ order.filterMap fun pos =>
          ((voteAt pos).getD none).map fun addr => (addr, pos) := by
  induction order generalizing found with
  | nil => simp [scan, eq_comm]
  | cons pos rest ih =>
    cases voted : voteAt pos with
    | none => simp [scan, voted]
    | some named =>
      cases named with
      | none => simp [scan, voted, ih]
      | some addr => simp [scan, voted, ih]

variable {left right : Position → Option RemoteAddr}

theorem filterMap_eq_iff (sameSlots : ∀ pos, (left pos).isSome = (right pos).isSome)
    (order : List Position) :
    (order.filterMap fun pos => (left pos).map fun addr => (addr, pos)) =
        (order.filterMap fun pos => (right pos).map fun addr => (addr, pos)) ↔
      ∀ pos ∈ order, left pos = right pos := by
  induction order with
  | nil => simp
  | cons pos rest ih =>
    have same := sameSlots pos
    cases leftAddr : left pos with
    | none =>
      cases rightAddr : right pos with
      | none => simp [leftAddr, rightAddr, ih]
      | some addr => simp [leftAddr, rightAddr] at same
    | some addr =>
      cases rightAddr : right pos with
      | none => simp [leftAddr, rightAddr] at same
      | some other => simp [leftAddr, rightAddr, ih]

theorem append_filterMap_eq_iff (sameSlots : ∀ pos, (left pos).isSome = (right pos).isSome)
    (found : List Candidate) :
    (positions.filterMap fun pos => (right pos).map fun addr => (addr, pos)) =
        (found ++ positions.filterMap fun pos =>
          (left pos).map fun addr => (addr, pos)) ↔
      found = [] ∧ ∀ pos, left pos = right pos := by
  constructor
  · intro same
    have lengths := congrArg List.length same
    rw [length_append] at lengths
    simp only [length_filterMap_eq_countP, isSome_map, sameSlots] at lengths
    have nothing : found = [] := length_eq_zero_iff.mp (by omega)
    rw [nothing, nil_append] at same
    refine ⟨nothing, fun pos => ?_⟩
    exact (filterMap_eq_iff sameSlots positions).mp same.symm pos (mem_positions pos)
  · rintro ⟨rfl, agree⟩
    simp [agree]

def Replicas.AgreesOn (replicas : Replicas) (ctx : LookupCtx) (fp : UInt8) (word : UInt64) : Prop :=
  ((raceHashSlot word).fp = fp → ctx.hasSlotArr = true) ∧
    (isCandidate fp word →
      replicas.subblockSz = 256 ∧
        (∀ replica ∈ replicas.checkFailedIndex, replica < replicas.numReplication) ∧
        Outvotes replicas.numReplication replicas.checkFailedIndex word)

section OneSlot

variable {replicas : Replicas} {ctx : LookupCtx} {fp : UInt8} {word : UInt64}

theorem checkFailedIndex_ne_nil (replicas : Replicas) : replicas.checkFailedIndex ≠ [] := by
  obtain ⟨_, bound, alive⟩ := replicas.survives
  exact ne_nil_of_mem (mem_filter.mpr ⟨mem_range.mpr bound, by simp [alive]⟩)

theorem nodup_checkFailedIndex (replicas : Replicas) : replicas.checkFailedIndex.Nodup :=
  nodup_range.filter _

def primaryAddr (replicas : Replicas) (fp : UInt8) (word : UInt64) : Option RemoteAddr :=
  if isCandidate fp word then some (readAddr replicas.subblockSz word) else none

def slotVote (replicas : Replicas) (ctx : LookupCtx) (fp : UInt8) (word : UInt64) :
    Option (Option RemoteAddr) :=
  vote replicas.numReplication fp (if ctx.hasSlotArr then some word else none) (fun _ => word)
    replicas.checkFailedIndex

theorem kvLen_pos (candidate : isCandidate fp word) : 0 < (raceHashSlot word).kvLen.toNat := by
  rw [Nat.pos_iff_ne_zero]
  exact fun noLength => (of_decide_eq_true candidate).2 (UInt8.toNat_inj.mp noLength)

theorem toNat_length_readAddr (replicas : Replicas) (word : UInt64) :
    (readAddr replicas.subblockSz word).length.toNat =
      (raceHashSlot word).kvLen.toNat * replicas.subblockSz := by
  have short := (raceHashSlot word).kvLen.toNat_lt
  have size := replicas.subblockSz_lt
  refine UInt32.toNat_ofNat_of_lt' (show _ < 2 ^ 32 from ?_)
  calc (raceHashSlot word).kvLen.toNat * replicas.subblockSz
      ≤ 255 * 2 ^ 24 := Nat.mul_le_mul (by omega) size.le
    _ < 2 ^ 32 := by decide

theorem toNat_length_foundAddr (word : UInt64) :
    (foundAddr word).length.toNat = (raceHashSlot word).kvLen.toNat * 256 := by
  have short := (raceHashSlot word).kvLen.toNat_lt
  rw [foundAddr, UInt32.toNat_shiftLeft, UInt8.toNat_toUInt32, Nat.shiftLeft_eq]
  exact Nat.mod_eq_of_lt (show _ * 256 < 2 ^ 32 by omega)

theorem readAddr_ne_zero (replicas : Replicas) (candidate : isCandidate fp word) :
    readAddr replicas.subblockSz word ≠ .zero := by
  intro same
  have length := toNat_length_readAddr replicas word
  rw [same] at length
  exact (Nat.mul_pos (kvLen_pos candidate) replicas.subblockSz_pos).ne length

theorem foundAddr_eq_readAddr_iff (replicas : Replicas) (candidate : isCandidate fp word) :
    foundAddr word = readAddr replicas.subblockSz word ↔ replicas.subblockSz = 256 := by
  have lengths : foundAddr word = readAddr replicas.subblockSz word ↔
      (foundAddr word).length = (readAddr replicas.subblockSz word).length := by
    rw [foundAddr, readAddr, RemoteAddr.mk.injEq]
    simp only [true_and]
  rw [lengths, ← UInt32.toNat_inj, toNat_length_foundAddr, toNat_length_readAddr,
    Nat.mul_right_inj (kvLen_pos candidate).ne', eq_comm]

theorem slotVote_of_unset (sameFp : (raceHashSlot word).fp = fp) (unset : ¬ ctx.hasSlotArr = true) :
    slotVote replicas ctx fp word = none := by
  rw [slotVote, if_neg unset]
  exact vote_of_unset sameFp (checkFailedIndex_ne_nil replicas)

theorem slotVote_of_skipped (readable : (raceHashSlot word).fp = fp → ctx.hasSlotArr = true)
    (skipped : ¬ isCandidate fp word) : slotVote replicas ctx fp word = some none :=
  vote_of_not_isCandidate (fun sameFp => if_pos (readable sameFp)) skipped

theorem slotVote_of_isCandidate (readable : ctx.hasSlotArr = true) (candidate : isCandidate fp word) :
    slotVote replicas ctx fp word =
      if ∀ replica ∈ replicas.checkFailedIndex, replica < replicas.numReplication then
        some (some (if Outvotes replicas.numReplication replicas.checkFailedIndex word then
          foundAddr word else .zero))
      else none := by
  rw [slotVote, if_pos readable]
  by_cases inside : ∀ replica ∈ replicas.checkFailedIndex, replica < replicas.numReplication
  · rw [if_pos inside]
    exact vote_of_isCandidate candidate (checkFailedIndex_ne_nil replicas)
      (nodup_checkFailedIndex replicas) inside
  · rw [if_neg inside]
    apply vote_of_overrun candidate
    simpa using inside

theorem isSome_slotVote {named : Option RemoteAddr}
    (voted : slotVote replicas ctx fp word = some named) :
    named.isSome = (primaryAddr replicas fp word).isSome := by
  by_cases readable : (raceHashSlot word).fp = fp → ctx.hasSlotArr = true
  · by_cases candidate : isCandidate fp word
    · rw [slotVote_of_isCandidate (readable (of_decide_eq_true candidate).1) candidate] at voted
      split_ifs at voted <;> cases voted <;> simp [primaryAddr, candidate]
    · rw [slotVote_of_skipped readable candidate] at voted
      cases voted
      simp [primaryAddr, candidate]
  · obtain ⟨sameFp, unset⟩ := Classical.not_imp.mp readable
    rw [slotVote_of_unset sameFp unset] at voted
    cases voted

theorem slotVote_eq_iff :
    slotVote replicas ctx fp word = some (primaryAddr replicas fp word) ↔
      replicas.AgreesOn ctx fp word := by
  rw [Replicas.AgreesOn]
  by_cases readable : (raceHashSlot word).fp = fp → ctx.hasSlotArr = true
  · by_cases candidate : isCandidate fp word
    · rw [slotVote_of_isCandidate (readable (of_decide_eq_true candidate).1) candidate,
        primaryAddr, if_pos candidate]
      have wrong := (readAddr_ne_zero replicas candidate).symm
      have right := foundAddr_eq_readAddr_iff replicas candidate
      split_ifs with inside outvotes
      · rw [some_inj, some_inj, right]
        exact ⟨fun size => ⟨readable, fun _ => ⟨size, inside, outvotes⟩⟩,
          fun agrees => (agrees.2 candidate).1⟩
      · simp [wrong, candidate, outvotes]
      · simp [candidate, inside]
    · rw [slotVote_of_skipped readable candidate, primaryAddr, if_neg candidate]
      exact iff_of_true rfl ⟨readable, fun isCandidate => absurd isCandidate candidate⟩
  · obtain ⟨sameFp, unset⟩ := Classical.not_imp.mp readable
    rw [slotVote_of_unset sameFp unset]
    exact iff_of_false (by simp) fun agrees => readable agrees.1

end OneSlot

theorem candidates_eq (replicas : Replicas) (fp : UInt8) (buckets : Buckets) :
    candidates replicas.subblockSz fp buckets =
      positions.filterMap fun pos =>
        (primaryAddr replicas fp (buckets pos)).map fun addr => (addr, pos) := by
  rw [candidates, findKvInBuckets]
  induction positions with
  | nil => rfl
  | cons pos rest ih =>
    by_cases candidate : isCandidate fp (buckets pos) <;>
      simp [candidate, primaryAddr, ih]

/-- If all replicas hold the same buckets, a lookup after a crash finds what
`find_kv_in_buckets` finds, under these conditions: the context has empty lists
and has seen a lookup before, subblocks have 256 bytes, the survivors are among
the first `num_replication_` replicas, and the primary is one of them or they
are more than half of `num_replication_`. -/
theorem findKvInBucketsOnCrash_eq_iff (replicas : Replicas) (ctx : LookupCtx) (fp : UInt8)
    (buckets : Buckets) :
    findKvInBucketsOnCrash replicas ctx fp (fun _ => buckets) =
        some (candidates replicas.subblockSz fp buckets) ↔
      ctx.found = [] ∧ ∀ pos, replicas.AgreesOn ctx fp (buckets pos) := by
  have lookup : findKvInBucketsOnCrash replicas ctx fp (fun _ => buckets) =
      scan (fun pos => slotVote replicas ctx fp (buckets pos)) positions ctx.found := rfl
  rw [lookup, scan_eq_some_iff, candidates_eq]
  constructor
  · rintro ⟨ends, same⟩
    have votes : ∀ pos, slotVote replicas ctx fp (buckets pos) =
        some ((slotVote replicas ctx fp (buckets pos)).getD none) := by
      intro pos
      obtain ⟨_, voted⟩ := ne_none_iff_exists'.mp (ends pos (mem_positions pos))
      rw [voted, getD_some]
    obtain ⟨empty, agree⟩ := (append_filterMap_eq_iff
      (fun pos => isSome_slotVote (votes pos)) ctx.found).mp same
    exact ⟨empty, fun pos =>
      slotVote_eq_iff.mp ((votes pos).trans (congrArg some (agree pos)))⟩
  · rintro ⟨empty, agrees⟩
    have votes : ∀ pos, slotVote replicas ctx fp (buckets pos) =
        some (primaryAddr replicas fp (buckets pos)) := fun pos =>
      slotVote_eq_iff.mpr (agrees pos)
    simp [votes, empty]

end Agreement

theorem mem_candidates {subblockSz : ℕ} {fp : UInt8} {buckets : Buckets} {candidate : Candidate}
    (mem : candidate ∈ candidates subblockSz fp buckets) :
    isCandidate fp (buckets candidate.2) ∧
      candidate.1 = readAddr subblockSz (buckets candidate.2) := by
  obtain ⟨_, found, rfl⟩ := List.mem_map.mp mem
  exact ⟨(mem_findKvInBuckets _ _ _).mp found, rfl⟩

/-- A slot in which a lookup after a crash finds something, with empty lists and
subblocks of 256 bytes: the address is the right one or null. -/
theorem mem_findKvInBucketsOnCrash {replicas : Replicas} {ctx : LookupCtx} {fp : UInt8}
    {buckets : Buckets} {found : List Candidate} (empty : ctx.found = [])
    (size : replicas.subblockSz = 256)
    (result : findKvInBucketsOnCrash replicas ctx fp (fun _ => buckets) = some found)
    {candidate : Candidate} (mem : candidate ∈ found) :
    isCandidate fp (buckets candidate.2) ∧
      (candidate.1 = .zero ∨ candidate.1 = readAddr replicas.subblockSz (buckets candidate.2)) := by
  obtain ⟨ends, rfl⟩ := scan_eq_some_iff.mp result
  rw [empty, nil_append, mem_filterMap] at mem
  obtain ⟨pos, inOrder, named⟩ := mem
  obtain ⟨addr, voted, rfl⟩ := map_eq_some_iff.mp named
  have vote : slotVote replicas ctx fp (buckets pos) = some (some addr) := by
    obtain ⟨_, ended⟩ := ne_none_iff_exists'.mp (ends pos inOrder)
    rw [ended, getD_some] at voted
    rw [← voted]
    exact ended
  have inPrimary := isSome_slotVote vote
  have isCandidate : isCandidate fp (buckets pos) := by
    by_contra skipped
    simp [primaryAddr, skipped] at inPrimary
  refine ⟨isCandidate, ?_⟩
  by_cases readable : ctx.hasSlotArr = true
  · rw [slotVote_of_isCandidate readable isCandidate] at vote
    split_ifs at vote with inside outvotes
    · right
      rw [← some.inj (some.inj vote)]
      exact (foundAddr_eq_readAddr_iff replicas isCandidate).mpr size
    · exact Or.inl (some.inj (some.inj vote)).symm
  · rw [slotVote_of_unset (of_decide_eq_true isCandidate).1 readable] at vote
    cases vote

theorem sampleSubblockSz_pos : 0 < 256 :=
  Nat.succ_pos 255

theorem sampleSubblockSz_lt : 256 < 2 ^ 24 := by
  decide

def sampleReplicas : Replicas where
  numReplication := 2
  numIdxRep := 2
  subblockSz := 256
  subblockSz_pos := sampleSubblockSz_pos
  subblockSz_lt := sampleSubblockSz_lt
  serverIdList := fun replica => if replica = 0 then 0 else 1
  serverCrashMap := fun server => server = 0
  survives := ⟨1, by decide, rfl⟩

/-- The survivor is outvoted by the null entry of the primary, so that the pair
is looked for at address 0 of server 0. -/
theorem findKvInBucketsOnCrash_null :
    findKvInBucketsOnCrash sampleReplicas ⟨true, []⟩ 1
        (fun _ pos => if pos = (0, 0) then fillSlot (sampleAlloc 1) 1 else 0) =
        some [(⟨0, 0, 0⟩, (0, 0))] ∧
      candidates sampleReplicas.subblockSz 1
        (fun pos => if pos = (0, 0) then fillSlot (sampleAlloc 1) 1 else 0) =
        [(⟨0, 256, 256⟩, (0, 0))] := by
  decide +kernel

end FuseeFs.Crash
