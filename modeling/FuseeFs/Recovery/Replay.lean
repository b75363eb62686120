import FuseeFs.Recovery.Request

/-!
# Replaying the last log entry

`client_recovery` reads the last log entry of the crashed client and replays
it, as an insert or, whatever else the entry says, as an update.  An entry
counts as committed if its `old_value` is not zero.
-/

namespace FuseeFs.Recovery

open Index Replication

/-- Memory that recovery uses before anything was stored in it: two members of
`rec_ctx`, the word at `op_laddr`, and what `CheckKey` says about each of the
key-value buffers. -/
structure Uninitialised where
  hasModifiedBkIdx : Bool
  consensusState : KVConsensusState
  opWord : UInt64
  kvBuffer : ℕ → Bool

variable {k : ℕ}

/-- The context built by `client_recovery` and `init_recover_req_ctx`. -/
def initRecoverReqCtx (junk : Uninitialised) (memory : Memory k) : KVReqCtx k :=
  { memory with
    recoverCommitted := logIsCommitted memory.tail
    localBuckets := fun _ _ => 0
    kvIdxList := []
    kvRead := false
    comparedUnread := false
    consensusState := junk.consensusState
    casAddr := none
    swapBack := fun _ => 0
    isFinished := false
    committedNeedCasPr := false
    hasModifiedBkIdx := junk.hasModifiedBkIdx
    recoverMatchIdxList := [] }

def kvRecoverReadAllBuckets (req : Request) (ctx : KVReqCtx k) : Except Abort (KVReqCtx k) :=
  if k + 1 = req.numReplication then
    .ok { ctx with localBuckets := ctx.index, isFinished := false }
  else .error .replicaCounts

def matchingSlots (target : UInt64) (buckets : Buckets) : List Position :=
  positions.filter fun pos => buckets pos = target

def backupMatches (target : UInt64) (index : IndexReplicas k) : List Position :=
  (List.finRange k).flatMap fun backup => matchingSlots target (index backup.succ)

/-- `check_recover_need_cas_pr`.  The backups are only searched if the primary
does not hold the target. -/
def checkRecoverNeedCasPr (req : Request) (ctx : KVReqCtx k) : KVReqCtx k :=
  if matchingSlots req.target (ctx.localBuckets 0) ≠ [] then
    { ctx with committedNeedCasPr := false }
  else
    let found := backupMatches req.target ctx.localBuckets
    { ctx with
      recoverMatchIdxList := ctx.recoverMatchIdxList ++ found
      hasModifiedBkIdx := ctx.hasModifiedBkIdx || !found.isEmpty
      committedNeedCasPr := found.length = req.numReplication - 1 }

def firstMatch (ctx : KVReqCtx k) : Except Abort Position :=
  match ctx.recoverMatchIdxList with
  | [] => .error .emptyMatchList
  | pos :: _ => .ok pos

def recoverCas (req : Request) (ctx : KVReqCtx k) (pos : Position) : KVCASAddr :=
  ⟨pos, ctx.localBuckets 0 pos, req.target⟩

def recoverUpdateGenCasPrAddr (req : Request) (ctx : KVReqCtx k) : Except Abort (KVReqCtx k) := do
  let pos ← firstMatch ctx
  .ok { ctx with casAddr := some (recoverCas req ctx pos) }

def kvRecoverCasPrimary (req : Request) (ctx : KVReqCtx k) : Except Abort (KVReqCtx k) :=
  if ctx.recoverCommitted then
    if ctx.committedNeedCasPr then do
      modifyPrimaryIdxSync (← recoverUpdateGenCasPrAddr req ctx)
    else .ok ctx
  else modifyPrimaryIdxSync ctx

def kvRecoverCommitLog (ctx : KVReqCtx k) : KVReqCtx k :=
  if ctx.recoverCommitted then { ctx with isFinished := false } else kvLogCommitSync ctx

/-- `kv_recover_insert_backup_consensus_1` and its update counterpart, which
differ in how they count the votes. -/
def kvRecoverBackupConsensus1 (count : KVReqCtx k → Except Abort (KVReqCtx k)) (ctx : KVReqCtx k) :
    Except Abort (KVReqCtx k) :=
  if ctx.recoverCommitted then .ok { ctx with consensusState := .winAll, isFinished := false }
  else count ctx

/-- The phases after the first round on the backups, which both replays end with. -/
def kvRecoverFinish (req : Request) (count : KVReqCtx k → Except Abort (KVReqCtx k))
    (ctx : KVReqCtx k) : Except Abort (KVReqCtx k) :=
  if 0 < k then do
    kvRecoverCasPrimary req (kvRecoverCommitLog (← kvRecoverBackupConsensus1 count ctx))
  else kvRecoverCasPrimary req ctx

def kvRecoverInsertBackupConsensus0 (req : Request) (ctx : KVReqCtx k) :
    Except Abort (KVReqCtx k) :=
  if ctx.recoverCommitted then .ok (checkRecoverNeedCasPr req ctx)
  else do
    let pos ←
      if ctx.hasModifiedBkIdx then firstMatch ctx
      else
        match findEmptySlot (ctx.localBuckets 0) req.fMainIdx req.sMainIdx with
        | none => .error .noEmptySlot
        | some pos => .ok pos
    .ok (modifyBackupIdx (recoverCas req ctx pos) ctx)

def kvRecoverInsert (req : Request) (junk : Uninitialised) (ctx : KVReqCtx k) :
    Except Abort (KVReqCtx k) := do
  let ctx ← kvRecoverReadAllBuckets req ctx
  let ctx ← kvRecoverInsertBackupConsensus0 req ctx
  kvRecoverFinish req (modifyBackupIdxConsensus1Sync junk.opWord) ctx

/-- `modify_backup_idx_consensus_1` as it runs in the constructor of the
client, where no polling thread has been started and `should_stop` is not set. -/
def modifyBackupIdxConsensus1 (ctx : KVReqCtx k) : Except Abort (KVReqCtx k) :=
  match ctx.casAddr with
  | none => .error .nullCasAddr
  | some cas =>
    match checkCasConsensus0 cas.origValue cas.swapValue ctx.swapBack with
    | .winAll => .ok { ctx with consensusState := .winAll, isFinished := false }
    | .fail => .error .shouldStop
    | .winMajor | .winLittle | .finish | .non => .error .noPollingThread

/-- Whether a candidate lies at the address of the log entry, on whichever server. -/
def ownAddress (req : Request) (buckets : Buckets) : Bool :=
  (findKvInBuckets req.fp buckets).any fun pos => rKvAddr (buckets pos) = req.mmAllocCtx.addr

/-- `kv_recover_update_read_kv`.  The key-value pairs stay unread if the log
entry seems to be installed already. -/
def kvRecoverUpdateReadKv (req : Request) (ctx : KVReqCtx k) : KVReqCtx k :=
  if ctx.recoverCommitted then checkRecoverNeedCasPr req ctx
  else
    let kvIdxList := findKvInBuckets req.fp (ctx.localBuckets 0)
    if ownAddress req (ctx.localBuckets 0) then
      { ctx with kvIdxList := kvIdxList, isFinished := true }
    else { ctx with kvIdxList := kvIdxList, kvRead := true, isFinished := false }

/-- `kv_recover_update_backup_consensus_0`, which does not test `is_finished`. -/
def kvRecoverUpdateBackupConsensus0 (req : Request) (junk : Uninitialised)
    (ctx : KVReqCtx k) : KVReqCtx k :=
  if ctx.recoverCommitted then ctx
  else
    let compared := { ctx with comparedUnread := !ctx.kvRead && !ctx.kvIdxList.isEmpty }
    match findMatchKvIdx req junk.kvBuffer compared with
    | none => { compared with isFinished := true }
    | some pos => modifyBackupIdx (recoverCas req compared pos) compared

def kvRecoverUpdate (req : Request) (junk : Uninitialised) (ctx : KVReqCtx k) :
    Except Abort (KVReqCtx k) := do
  let ctx ← kvRecoverReadAllBuckets req ctx
  let ctx := kvRecoverUpdateReadKv req ctx
  let ctx := kvRecoverUpdateBackupConsensus0 req junk ctx
  kvRecoverFinish req modifyBackupIdxConsensus1 ctx

def clientRecovery (req : Request) (junk : Uninitialised) (memory : Memory k) :
    Except Abort (KVReqCtx k) :=
  let ctx := initRecoverReqCtx junk memory
  if logIsInsert memory.tail then kvRecoverInsert req junk ctx
  else kvRecoverUpdate req junk ctx

def sampleRequest (numReplication : ℕ) : Request where
  numReplication := numReplication
  fMainIdx := 0
  sMainIdx := 0
  fp := 1
  mmAllocCtx := sampleAlloc 1
  checkKey := fun _ => true
  checkKey_fillSlot := rfl

def zeroed : Uninitialised where
  hasModifiedBkIdx := false
  consensusState := .winAll
  opWord := 0
  kvBuffer := fun _ => false

end FuseeFs.Recovery
