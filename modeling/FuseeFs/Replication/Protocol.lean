import FuseeFs.Replication.Consensus
import FuseeFs.Library.Reachability

/-!
# Clients changing one replicated index slot

The model follows `kv_insert`, `kv_update` and `kv_delete`, with their `_sync`
forms, from the moment the primary copy of the slot is read.  Every
compare-and-swap and every read at a replica is one event, so that events of
different clients and at different backups may come in any order.  Computation
between two remote accesses is local to the client and belongs to the event
that starts it.
-/

namespace FuseeFs.Replication

open Function

/-- The requests that write a slot, from `KVRequestType`. -/
inductive KVRequestType
  | insert
  | update
  | delete
  deriving DecidableEq, Repr

inductive KVOpsRetCode
  | success
  | failReturn
  | failRedo
  deriving DecidableEq, Repr

/-- The fiber functions and their `_sync` counterparts test different flags. -/
inductive Variant
  | async
  | sync
  deriving DecidableEq, Repr

/-- Where a request stands.  A pending set holds the backups at which a
compare-and-swap of the current batch has not been executed yet. -/
inductive Phase (k : ℕ)
  | bkConsensus0 (pending : Finset (Fin k))
  | readPrimary
  | waitPrimary
  | bkConsensus1 (pending : Finset (Fin k))
  | commitLog
  | casPrimary
  | finished
  | exited
  deriving DecidableEq

/-- The part of `KVReqCtx` that the consensus phases read and write, for
`k = num_idx_rep_ - 1` backups.  Two fields are history variables: `version`,
the number of changes of the primary before this request read it, and
`prSwapped`, whether its own swap of the primary took effect. -/
structure KVReqCtx (k : ℕ) where
  reqType : KVRequestType
  variant : Variant
  origValue : UInt64
  swapValue : UInt64
  /-- The buffers behind `kv_modify_bk_0_cas_list`, which the second round reuses. -/
  bkReturn : Fin k → UInt64
  /-- Whatever the buffer `op_laddr` holds. -/
  opBuffer : UInt64
  /-- `kv_modify_bk_1_cas_list`, as the expected value for each backup in it. -/
  bk1CasList : Fin k → Option UInt64
  consensusState : KVConsensusState
  isFinished : Bool
  retCode : KVOpsRetCode
  /-- Whether "backup is not consistent!" was printed. -/
  notConsistent : Bool
  phase : Phase k
  version : ℕ
  prSwapped : Bool

namespace KVReqCtx

variable {k : ℕ}

/-- Whether `kv_*_commit_log` returns without writing the record. -/
def skipsCommitLog (ctx : KVReqCtx k) : Bool :=
  match ctx.reqType, ctx.variant with
  | .insert, _ | .update, .async | .delete, .async => ctx.isFinished
  | .update, .sync | .delete, .sync => false

/-- Whether `kv_*_cas_primary` returns without calling `modify_primary_idx`. -/
def skipsCasPrimary (ctx : KVReqCtx k) : Bool :=
  match ctx.reqType, ctx.variant with
  | .insert, _ | .update, .async => ctx.isFinished
  | .update, .sync | .delete, _ => false

/-- `kv_*_cas_primary` up to the compare-and-swap of `modify_primary_idx`. -/
def enterCasPrimary (ctx : KVReqCtx k) : KVReqCtx k :=
  if ctx.skipsCasPrimary then { ctx with phase := .finished }
  else if ctx.consensusState = .fail then
    { ctx with
      phase := .finished
      retCode := if ctx.reqType = .insert then .failRedo else ctx.retCode }
  else { ctx with phase := .casPrimary }

/-- `kv_*_commit_log` up to the write of the commit record. -/
def enterCommitLog (ctx : KVReqCtx k) : KVReqCtx k :=
  if ctx.skipsCommitLog then ctx.enterCasPrimary else { ctx with phase := .commitLog }

/-- `kv_log_commit` once the record is written. -/
def kvLogCommit (ctx : KVReqCtx k) : KVReqCtx k :=
  { ctx with isFinished := false }.enterCasPrimary

/-- The exit of the losing branches of `modify_backup_idx_consensus_1`. -/
def leaveAsLoser (ctx : KVReqCtx k) : KVReqCtx k :=
  { ctx with isFinished := true, retCode := .success }.enterCommitLog

/-- `modify_backup_idx_consensus_1` once `check_cas_consensus_0` has set the
consensus state; `non` goes back to that function to read the primary. -/
def modifyBackupIdxConsensus1 (ctx : KVReqCtx k) (outcome : KVConsensusState) : KVReqCtx k :=
  match outcome with
  | .finish => { ctx with consensusState := .finish }.leaveAsLoser
  | .fail => { ctx with consensusState := .fail, phase := .waitPrimary }
  | .winAll => { ctx with consensusState := .winAll, isFinished := false }.enterCommitLog
  | .winMajor | .winLittle =>
    { ctx with
      consensusState := outcome
      phase := .bkConsensus1 (Finset.univ.filter fun backup => (ctx.bk1CasList backup).isSome) }
  | .non => { ctx with consensusState := .non, phase := .readPrimary }

def returnBackup0 (ctx : KVReqCtx k) (pending : Finset (Fin k)) (backup : Fin k)
    (found : UInt64) : KVReqCtx k :=
  { ctx with
    bkReturn := update ctx.bkReturn backup found
    phase := .bkConsensus0 (pending.erase backup) }

def returnBackup1 (ctx : KVReqCtx k) (pending : Finset (Fin k)) (backup : Fin k)
    (found : UInt64) : KVReqCtx k :=
  { ctx with
    bkReturn := update ctx.bkReturn backup found
    phase := .bkConsensus1 (pending.erase backup) }

def runCheckCasConsensus0 (ctx : KVReqCtx k) : KVReqCtx k :=
  { ctx with
    bk1CasList := secondRoundCas ctx.origValue ctx.swapValue ctx.bkReturn }.modifyBackupIdxConsensus1
      (checkCasConsensus0 ctx.origValue ctx.swapValue ctx.bkReturn)

def runCheckPrimaryValue (ctx : KVReqCtx k) (checkValue : UInt64) : KVReqCtx k :=
  ctx.modifyBackupIdxConsensus1
    (checkPrimaryValue ctx.origValue ctx.swapValue ctx.bkReturn checkValue)

/-- The value tested by the loop that waits for the winner: the fiber function
looks at what it has just read, the `_sync` one at `op_laddr`. -/
def loopValue (ctx : KVReqCtx k) (readValue : UInt64) : UInt64 :=
  match ctx.variant with
  | .async => readValue
  | .sync => ctx.opBuffer

/-- `check_cas_consensus_1`: some second-round swap found another value than expected. -/
def checkCasConsensus1 (ctx : KVReqCtx k) : Bool :=
  decide (∃ backup, (ctx.bk1CasList backup).any fun expected => ctx.bkReturn backup ≠ expected)

/-- The end of `modify_backup_idx_consensus_1`, after the second round; the
`_sync` form does not check it. -/
def finishSecondRound (ctx : KVReqCtx k) : KVReqCtx k :=
  { ctx with
    notConsistent := ctx.notConsistent || (ctx.variant = Variant.async && ctx.checkCasConsensus1)
    isFinished := false
    consensusState := .winAll }.enterCommitLog

/-- `modify_primary_idx` when the swap of the primary has returned `found`. -/
def finishCasPrimary (ctx : KVReqCtx k) (found : UInt64) : KVReqCtx k :=
  if found = ctx.origValue then
    { ctx with isFinished := true, retCode := .success, phase := .finished, prSwapped := true }
  else if ctx.variant = .async ∧ 0 < k then { ctx with phase := .exited }
  else
    { ctx with
      isFinished := true
      retCode := if ctx.reqType = .insert then .failRedo else .success
      phase := .finished }

/-- A request that has read `origValue` at the primary.  With a single index
replica `kv_*_backup_consensus_0` sets the state to `KV_CONSENSUS_WIN_ALL`
and the two backup phases and the log commit are left out. -/
def start (reqType : KVRequestType) (variant : Variant)
    (origValue swapValue opBuffer : UInt64) (version : ℕ) : KVReqCtx k where
  reqType
  variant
  origValue
  swapValue
  bkReturn _ := 0
  opBuffer
  bk1CasList _ := none
  consensusState := if k = 0 then .winAll else .non
  isFinished := false
  retCode := .success
  notConsistent := false
  phase := if k = 0 then .casPrimary else .bkConsensus0 Finset.univ
  version
  prSwapped := false

end KVReqCtx

/-- One index slot with its primary and backup replicas, and the requests on
it in the order in which they read the primary.  `history` and `version`
record the values the primary has held. -/
structure SlotSystem (k : ℕ) where
  primary : UInt64
  backup : Fin k → UInt64
  ops : List (KVReqCtx k)
  history : ℕ → UInt64
  version : ℕ

inductive Action (k : ℕ)
  | casBackup0 (backup : Fin k)
  | checkConsensus
  | readPrimary
  | waitPrimary
  | casBackup1 (backup : Fin k)
  | checkSecondRound
  | commitLog
  | casPrimary

inductive SlotEvent (k : ℕ)
  | start (reqType : KVRequestType) (variant : Variant) (swapValue opBuffer : UInt64)
  | act (op : ℕ) (action : Action k)

namespace SlotSystem

variable {k : ℕ}

def initial (k : ℕ) (value : UInt64) : SlotSystem k where
  primary := value
  backup _ := value
  ops := []
  history _ := value
  version := 0

def Fresh (s : SlotSystem k) (value : UInt64) : Prop :=
  value ≠ 0 ∧ (∀ ctx ∈ s.ops, ctx.swapValue ≠ value) ∧ ∀ v ≤ s.version, s.history v ≠ value

/-- What a request writes and where it can start: an insert takes an empty
slot, an update or delete one that holds a key-value pair.  A delete writes
the empty slot; the others write the address of the pair they allocated. -/
def CanStart (s : SlotSystem k) (reqType : KVRequestType) (swapValue : UInt64) : Prop :=
  match reqType with
  | .insert => s.primary = 0 ∧ s.Fresh swapValue
  | .update => s.primary ≠ 0 ∧ s.Fresh swapValue
  | .delete => s.primary ≠ 0 ∧ swapValue = 0

instance (s : SlotSystem k) (value : UInt64) : Decidable (s.Fresh value) := by
  unfold Fresh; infer_instance

instance (s : SlotSystem k) (reqType : KVRequestType) (swapValue : UInt64) :
    Decidable (s.CanStart reqType swapValue) := by
  unfold CanStart; split <;> infer_instance

def setCtx (s : SlotSystem k) (op : ℕ) (ctx : KVReqCtx k) : SlotSystem k :=
  { s with ops := s.ops.set op ctx }

def casBackup (s : SlotSystem k) (backup : Fin k) (expected swap : UInt64) : SlotSystem k :=
  if s.backup backup = expected then { s with backup := update s.backup backup swap }
  else s

def casPrimary (s : SlotSystem k) (expected swap : UInt64) : SlotSystem k :=
  if s.primary = expected then
    { s with
      primary := swap
      history := update s.history (s.version + 1) swap
      version := s.version + 1 }
  else s

def act (s : SlotSystem k) (op : ℕ) (ctx : KVReqCtx k) : Action k → Option (SlotSystem k)
  | .casBackup0 backup =>
    match ctx.phase with
    | .bkConsensus0 pending =>
      if backup ∈ pending then
        some ((s.casBackup backup ctx.origValue ctx.swapValue).setCtx op
          (ctx.returnBackup0 pending backup (s.backup backup)))
      else none
    | _ => none
  | .checkConsensus =>
    if ctx.phase = .bkConsensus0 ∅ then some (s.setCtx op ctx.runCheckCasConsensus0) else none
  | .readPrimary =>
    if ctx.phase = .readPrimary then some (s.setCtx op (ctx.runCheckPrimaryValue s.primary))
    else none
  | .waitPrimary =>
    if ctx.phase = .waitPrimary then
      if ctx.loopValue s.primary = ctx.origValue then some s
      else some (s.setCtx op ctx.leaveAsLoser)
    else none
  | .casBackup1 backup =>
    match ctx.phase, ctx.bk1CasList backup with
    | .bkConsensus1 pending, some expected =>
      if backup ∈ pending then
        some ((s.casBackup backup expected ctx.swapValue).setCtx op
          (ctx.returnBackup1 pending backup (s.backup backup)))
      else none
    | _, _ => none
  | .checkSecondRound =>
    if ctx.phase = .bkConsensus1 ∅ then some (s.setCtx op ctx.finishSecondRound) else none
  | .commitLog =>
    if ctx.phase = .commitLog then some (s.setCtx op ctx.kvLogCommit) else none
  | .casPrimary =>
    if ctx.phase = .casPrimary then
      some ((s.casPrimary ctx.origValue ctx.swapValue).setCtx op (ctx.finishCasPrimary s.primary))
    else none

def step (s : SlotSystem k) : SlotEvent k → Option (SlotSystem k)
  | .start reqType variant swapValue opBuffer =>
    if s.CanStart reqType swapValue then
      some { s with
        ops := s.ops ++ [.start reqType variant s.primary swapValue opBuffer s.version] }
    else none
  | .act op action => (s.ops[op]?).bind fun ctx => s.act op ctx action

def Quiescent (s : SlotSystem k) : Prop :=
  ∀ ctx ∈ s.ops, ctx.phase = .finished ∨ ctx.phase = .exited

def ReplicasEqual (s : SlotSystem k) : Prop :=
  ∀ backup, s.backup backup = s.primary

instance (s : SlotSystem k) : Decidable s.Quiescent := by
  unfold Quiescent; infer_instance

instance (s : SlotSystem k) : Decidable s.ReplicasEqual := by
  unfold ReplicasEqual; infer_instance

end SlotSystem

end FuseeFs.Replication
