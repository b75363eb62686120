import FuseeFs.Index.Buckets
import FuseeFs.Replication.Consensus

/-!
# Requests on the replicated index

A request on one key works on the four buckets of that key, of which every
index replica has a copy.  The phases that `kv_insert`, `kv_delete` and the
recovery of a crashed client have in common are modelled here for a client
that runs alone.  A phase either returns or ends in one of the ways listed by
`Abort`.
-/

namespace FuseeFs.Recovery

open Function Index Replication

/-- The buckets of the key on the primary, replica `0`, and on `k` backups. -/
abbrev IndexReplicas (k : ℕ) := Fin (k + 1) → Buckets

inductive KVLogOp
  | insert
  | update
  | delete
  | finish
deriving DecidableEq, Repr

structure KVLogTail where
  oldValue : UInt64
  op : KVLogOp
deriving DecidableEq, Repr

def logIsCommitted (tail : KVLogTail) : Bool :=
  tail.oldValue ≠ 0

def logIsInsert (tail : KVLogTail) : Bool :=
  tail.op = .insert

/-- What outlives the client: the index and the tail of its last log entry. -/
structure Memory (k : ℕ) where
  index : IndexReplicas k
  tail : KVLogTail

/-- The key of a request and the log entry that was written for it, which
holds the key. -/
structure Request where
  numReplication : ℕ
  fMainIdx : Fin 2
  sMainIdx : Fin 2
  fp : UInt8
  mmAllocCtx : ClientMMAllocCtx
  /-- `CheckKey` on the key-value pair that a slot points to. -/
  checkKey : UInt64 → Bool
  checkKey_fillSlot : checkKey (fillSlot mmAllocCtx fp)

def Request.target (req : Request) : UInt64 :=
  fillSlot req.mmAllocCtx req.fp

/-- A slot word that binds the key of the request: a lookup takes it for a
candidate and finds the key behind it. -/
def Request.Binds (req : Request) (word : UInt64) : Prop :=
  isCandidate req.fp word ∧ req.checkKey word

instance (req : Request) (word : UInt64) : Decidable (req.Binds word) :=
  inferInstanceAs (Decidable (_ ∧ _))

theorem Request.binds_target (req : Request) : req.Binds req.target :=
  ⟨isCandidate_fillSlot req.mmAllocCtx req.fp, req.checkKey_fillSlot⟩

theorem Request.not_binds_of_isFree {req : Request} {word : UInt64} (free : isFree word) :
    ¬ req.Binds word :=
  fun binds => not_isCandidate_of_isFree free binds.1

inductive Abort
  /-- `gen_read_all_bucket_sr_lists` allocates and announces one list for each
  data replica but fills one for each index replica. -/
  | replicaCounts
  /-- `recover_match_idx_list[0]` of an empty vector. -/
  | emptyMatchList
  /-- A slot at the index `-1`. -/
  | noEmptySlot
  /-- A compare-and-swap result is read through a null `l_kv_addr`. -/
  | nullCasAddr
  /-- `*(ctx->should_stop)` through a pointer that was never set. -/
  | shouldStop
  /-- Completions are awaited that only a polling thread would deliver. -/
  | noPollingThread
  /-- The loop after a lost vote tests a word that it does not read. -/
  | lostVote
deriving DecidableEq, Repr

/-- An entry of the compare-and-swap lists.  The lists of the primary and of
the backups are always filled together, with the same position and values. -/
structure KVCASAddr where
  position : Position
  origValue : UInt64
  swapValue : UInt64
deriving DecidableEq, Repr

/-- The parts of a request's context that decide what it does to the index,
and the remote memory it works on. -/
structure KVReqCtx (k : ℕ) extends Memory k where
  /-- `req_type` is `KV_REQ_RECOVER_COMMITTED`. -/
  recoverCommitted : Bool
  localBuckets : IndexReplicas k
  kvIdxList : List Position
  kvRead : Bool
  /-- Whether a key was compared with a buffer into which nothing was read. -/
  comparedUnread : Bool
  consensusState : KVConsensusState
  /-- `kv_modify_pr_cas_list[0]`; `none` while it has only been zeroed. -/
  casAddr : Option KVCASAddr
  swapBack : Fin k → UInt64
  isFinished : Bool
  committedNeedCasPr : Bool
  hasModifiedBkIdx : Bool
  recoverMatchIdxList : List Position

section Phases

variable {k : ℕ}

/-- The context of a request that has written its log entry, with whatever its
`old_value` was, and has read the buckets. -/
def KVReqCtx.logged (index : IndexReplicas k) (tail : KVLogTail) : KVReqCtx k :=
  { index := index
    tail := tail
    recoverCommitted := false
    localBuckets := index
    kvIdxList := []
    kvRead := false
    comparedUnread := false
    consensusState := .non
    casAddr := none
    swapBack := fun _ => 0
    isFinished := false
    committedNeedCasPr := false
    hasModifiedBkIdx := false
    recoverMatchIdxList := [] }

/-- Compare-and-swaps to the backups; `expected` gives the value each of them
expects, and `none` where no request is sent. -/
def casBackups (cas : KVCASAddr) (expected : Fin k → Option UInt64) (index : IndexReplicas k) :
    IndexReplicas k :=
  Fin.cons (index 0) fun backup =>
    match expected backup with
    | some origValue => casSlot (index backup.succ) cas.position origValue cas.swapValue
    | none => index backup.succ

@[simp]
theorem casBackups_zero (cas : KVCASAddr) (expected : Fin k → Option UInt64)
    (index : IndexReplicas k) : casBackups cas expected index 0 = index 0 :=
  rfl

@[simp]
theorem casBackups_succ (cas : KVCASAddr) (origValue : UInt64) (index : IndexReplicas k)
    (backup : Fin k) : casBackups cas (fun _ => some origValue) index backup.succ =
      casSlot (index backup.succ) cas.position origValue cas.swapValue :=
  rfl

def installed (index : IndexReplicas k) (position : Position) (word : UInt64) : IndexReplicas k :=
  fun replica => update (index replica) position word

/-- The compare-and-swaps of a client that every backup lets through, or has
let through before, install its value everywhere. -/
theorem casBackups_installed (cas : KVCASAddr) {index : IndexReplicas k}
    (primary : index 0 cas.position = cas.origValue)
    (own : ∀ backup : Fin k, index backup.succ cas.position = cas.origValue ∨
      index backup.succ cas.position = cas.swapValue) :
    update (casBackups cas (fun _ => some cas.origValue) index) 0
        (casSlot (index 0) cas.position cas.origValue cas.swapValue) =
      installed index cas.position cas.swapValue := by
  funext replica
  refine Fin.cases ?_ (fun backup => ?_) replica
  · simp [installed, casSlot_of_eq primary]
  · rw [update_of_ne (Fin.succ_ne_zero backup), casBackups_succ]
    by_cases expected : index backup.succ cas.position = cas.origValue
    · rw [casSlot_of_eq expected, installed]
    · have before := (own backup).resolve_left expected
      rw [casSlot_of_ne expected, installed, ← before, update_eq_self]

/-- `fill_cas_addr` and the first round of compare-and-swaps. -/
def modifyBackupIdx (cas : KVCASAddr) (ctx : KVReqCtx k) : KVReqCtx k :=
  { ctx with
    casAddr := some cas
    swapBack := fun backup => ctx.index backup.succ cas.position
    index := casBackups cas (fun _ => some cas.origValue) ctx.index }

/-- The end of `kv_insert_backup_consensus_0_sync` and of its delete
counterpart: a client without backups has won. -/
def startCas (cas : KVCASAddr) (ctx : KVReqCtx k) : KVReqCtx k :=
  if k = 0 then { ctx with casAddr := some cas, consensusState := .winAll }
  else modifyBackupIdx cas ctx

def KVCASAddr.slotCas (cas : KVCASAddr) : SlotCas k (IndexReplicas k) where
  origValue := cas.origValue
  swapValue := cas.swapValue
  readPrimary index := index 0 cas.position
  casPrimary index :=
    update index 0 (casSlot (index 0) cas.position cas.origValue cas.swapValue)
  casBackups := casBackups cas

@[simp]
theorem modifyPrimaryIdxSync_slotCas (cas : KVCASAddr) {s : KVConsensusState}
    (unfailed : s ≠ .fail) (index : IndexReplicas k) :
    (cas.slotCas.modifyPrimaryIdxSync s index).1 =
      update index 0 (casSlot (index 0) cas.position cas.origValue cas.swapValue) := by
  rw [SlotCas.modifyPrimaryIdxSync, if_neg unfailed]
  rfl

def modifyBackupIdxConsensus1Sync (opWord : UInt64) (ctx : KVReqCtx k) :
    Except Abort (KVReqCtx k) :=
  match ctx.casAddr with
  | none => .error .nullCasAddr
  | some cas =>
    match cas.slotCas.modifyBackupIdxConsensus1Sync opWord ctx.index ctx.swapBack with
    | none => .error .lostVote
    | some (.winAll, index) =>
      .ok { ctx with index := index, consensusState := .winAll, isFinished := false }
    | some (s, index) =>
      .ok { ctx with
        index := index, consensusState := s, isFinished := true
        tail := { ctx.tail with op := .finish } }

theorem modifyBackupIdxConsensus1Sync_unanimous (opWord : UInt64) (backups : 0 < k)
    (cas : KVCASAddr) (ctx : KVReqCtx k)
    (own : ∀ backup : Fin k, ctx.index backup.succ cas.position = cas.origValue ∨
      ctx.index backup.succ cas.position = cas.swapValue) :
    modifyBackupIdxConsensus1Sync opWord (modifyBackupIdx cas ctx) =
      .ok { modifyBackupIdx cas ctx with consensusState := .winAll, isFinished := false } := by
  have won := @SlotCas.modifyBackupIdxConsensus1Sync_of_unanimous k _ cas.slotCas _ backups own
    opWord (modifyBackupIdx cas ctx).index
  simp only [modifyBackupIdxConsensus1Sync, modifyBackupIdx] at won ⊢
  rw [won]

def kvLogCommitSync (ctx : KVReqCtx k) : KVReqCtx k :=
  { ctx with
    tail := { ctx.tail with oldValue := (ctx.casAddr.map KVCASAddr.origValue).getD 0 }
    isFinished := false }

/-- `modify_primary_idx_sync`, the last phase of every request. -/
def modifyPrimaryIdxSync (ctx : KVReqCtx k) : Except Abort (KVReqCtx k) :=
  if ctx.consensusState = .fail then .ok ctx
  else
    match ctx.casAddr with
    | none => .error .nullCasAddr
    | some cas =>
      .ok { ctx with index := (cas.slotCas.modifyPrimaryIdxSync ctx.consensusState ctx.index).1 }

/-- `find_match_kv_idx`: the first candidate whose buffer holds the key.  What
`CheckKey` says about a buffer that was not read is up to its old content. -/
def findMatchKvIdx (req : Request) (unread : ℕ → Bool) (ctx : KVReqCtx k) : Option Position :=
  if ctx.kvRead then
    ctx.kvIdxList.find? fun position => req.checkKey (ctx.localBuckets 0 position)
  else
    (ctx.kvIdxList.zipIdx.find? fun entry => unread entry.2).map Prod.fst

end Phases

end FuseeFs.Recovery
