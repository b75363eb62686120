import FuseeFs.Recovery.Replay

/-!
# What replaying does to the index

One equation for each way in which `client_recovery` can go.  Only the index
replicas and the use of unread buffers are recorded of its result.
-/

namespace FuseeFs.Recovery

open Index Replication

variable {k : ℕ} {req : Request} {junk : Uninitialised} {memory : Memory k}

/-- The index replicas after a recovery, and whether it compared a key with an
unread buffer. -/
def outcome (result : Except Abort (KVReqCtx k)) : Except Abort (IndexReplicas k × Bool) :=
  result.map fun ctx => (ctx.index, ctx.comparedUnread)

@[simp]
theorem outcome_ok (ctx : KVReqCtx k) : outcome (.ok ctx) = .ok (ctx.index, ctx.comparedUnread) :=
  rfl

@[simp]
theorem outcome_error (abort : Abort) : outcome (k := k) (.error abort) = .error abort :=
  rfl

def bucketsRead (junk : Uninitialised) (memory : Memory k) : KVReqCtx k :=
  { initRecoverReqCtx junk memory with localBuckets := memory.index }

theorem outcome_replicaCounts (counts : k + 1 ≠ req.numReplication) :
    outcome (clientRecovery req junk memory) = .error .replicaCounts := by
  have unread : kvRecoverReadAllBuckets req (initRecoverReqCtx junk memory) =
      .error .replicaCounts := if_neg counts
  simp only [clientRecovery, kvRecoverInsert, kvRecoverUpdate, unread]
  split_ifs <;> rfl

theorem kvRecoverReadAllBuckets_init (counts : k + 1 = req.numReplication) :
    kvRecoverReadAllBuckets req (initRecoverReqCtx junk memory) = .ok (bucketsRead junk memory) :=
  if_pos counts

theorem clientRecovery_insert (counts : k + 1 = req.numReplication)
    (insert : logIsInsert memory.tail) :
    clientRecovery req junk memory =
      kvRecoverInsertBackupConsensus0 req (bucketsRead junk memory) >>=
        kvRecoverFinish req (modifyBackupIdxConsensus1Sync junk.opWord) := by
  simp only [clientRecovery, insert, kvRecoverInsert, kvRecoverReadAllBuckets_init counts]
  rfl

theorem clientRecovery_update (counts : k + 1 = req.numReplication)
    (update : ¬ logIsInsert memory.tail) :
    clientRecovery req junk memory =
      kvRecoverFinish req modifyBackupIdxConsensus1
        (kvRecoverUpdateBackupConsensus0 req junk
          (kvRecoverUpdateReadKv req (bucketsRead junk memory))) := by
  simp only [clientRecovery, update, kvRecoverUpdate, kvRecoverReadAllBuckets_init counts]
  rfl

section Finish

variable {count : KVReqCtx k → Except Abort (KVReqCtx k)} {ctx : KVReqCtx k}
  (committed : ctx.recoverCommitted)
include committed

theorem outcome_kvRecoverFinish_noNeed (noNeed : ctx.committedNeedCasPr = false) :
    outcome (kvRecoverFinish req count ctx) = .ok (ctx.index, ctx.comparedUnread) := by
  unfold kvRecoverFinish kvRecoverBackupConsensus1
  rw [if_pos committed]
  split_ifs
  · simp [kvRecoverCommitLog, kvRecoverCasPrimary, committed, noNeed, bind, Except.bind]
  · simp [kvRecoverCasPrimary, committed, noNeed]

theorem outcome_kvRecoverFinish_noMatch (need : ctx.committedNeedCasPr)
    (noMatch : ctx.recoverMatchIdxList = []) :
    outcome (kvRecoverFinish req count ctx) = .error .emptyMatchList := by
  unfold kvRecoverFinish kvRecoverBackupConsensus1
  rw [if_pos committed]
  split_ifs
  · simp [kvRecoverCommitLog, kvRecoverCasPrimary, recoverUpdateGenCasPrAddr, firstMatch,
      committed, need, noMatch, bind, Except.bind]
  · simp [kvRecoverCasPrimary, recoverUpdateGenCasPrAddr, firstMatch, committed, need, noMatch,
      bind, Except.bind]

theorem outcome_kvRecoverFinish_match (backups : 0 < k) (need : ctx.committedNeedCasPr)
    {pos : Position} {rest : List Position} (found : ctx.recoverMatchIdxList = pos :: rest) :
    outcome (kvRecoverFinish req count ctx) =
      .ok (Function.update ctx.index 0
        (casSlot (ctx.index 0) pos (ctx.localBuckets 0 pos) req.target),
        ctx.comparedUnread) := by
  unfold kvRecoverFinish kvRecoverBackupConsensus1
  rw [if_pos committed, if_pos backups]
  simp [kvRecoverCommitLog, kvRecoverCasPrimary, recoverUpdateGenCasPrAddr, firstMatch, recoverCas,
    modifyPrimaryIdxSync, committed, need, found, bind, Except.bind]

end Finish

theorem matchingSlots_eq_nil_iff {target : UInt64} {buckets : Buckets} :
    matchingSlots target buckets = [] ↔ ∀ pos, buckets pos ≠ target := by
  simp [matchingSlots, List.filter_eq_nil_iff]

variable {pos : Position}

theorem checkRecoverNeedCasPr_of_present (ctx : KVReqCtx k)
    (present : ctx.localBuckets 0 pos = req.target) :
    checkRecoverNeedCasPr req ctx = { ctx with committedNeedCasPr := false } :=
  if_pos fun none => matchingSlots_eq_nil_iff.mp none pos present

theorem checkRecoverNeedCasPr_of_absent (ctx : KVReqCtx k)
    (absent : ∀ pos, ctx.localBuckets 0 pos ≠ req.target) :
    checkRecoverNeedCasPr req ctx =
      let found := backupMatches req.target ctx.localBuckets
      { ctx with
        recoverMatchIdxList := ctx.recoverMatchIdxList ++ found
        hasModifiedBkIdx := ctx.hasModifiedBkIdx || !found.isEmpty
        committedNeedCasPr := found.length = req.numReplication - 1 } :=
  if_neg (not_not.mpr (matchingSlots_eq_nil_iff.mpr absent))

section Committed

variable (counts : k + 1 = req.numReplication) (committed : logIsCommitted memory.tail)
include counts committed

variable (junk) in
/-- Whatever operation a committed entry is of, only its primary may be written. -/
theorem exists_clientRecovery_committed :
    ∃ count, clientRecovery req junk memory =
      kvRecoverFinish req count
        (checkRecoverNeedCasPr req (bucketsRead junk memory)) := by
  have isCommitted : (bucketsRead junk memory).recoverCommitted := committed
  by_cases insert : logIsInsert memory.tail
  · refine ⟨modifyBackupIdxConsensus1Sync junk.opWord, ?_⟩
    rw [clientRecovery_insert counts insert, kvRecoverInsertBackupConsensus0, if_pos isCommitted]
    rfl
  · have kept : (checkRecoverNeedCasPr req
        (bucketsRead junk memory)).recoverCommitted := by
      unfold checkRecoverNeedCasPr
      split_ifs <;> exact committed
    refine ⟨modifyBackupIdxConsensus1, ?_⟩
    rw [clientRecovery_update counts insert, kvRecoverUpdateReadKv, if_pos isCommitted,
      kvRecoverUpdateBackupConsensus0, if_pos kept]

variable (junk) in
/-- Nothing is written if the primary holds the logged value, or if the
backups do not hold it as often as there are backups. -/
theorem outcome_committed_unchanged
    (unneeded : (∃ pos, memory.index 0 pos = req.target) ∨
      (backupMatches req.target memory.index).length ≠ k) :
    outcome (clientRecovery req junk memory) = .ok (memory.index, false) := by
  obtain ⟨_, replay⟩ := exists_clientRecovery_committed junk counts committed
  rw [replay]
  by_cases primary : ∃ pos, memory.index 0 pos = req.target
  · obtain ⟨_, present⟩ := primary
    rw [checkRecoverNeedCasPr_of_present (bucketsRead junk memory) present]
    exact outcome_kvRecoverFinish_noNeed committed rfl
  · have few := unneeded.resolve_left primary
    rw [checkRecoverNeedCasPr_of_absent (bucketsRead junk memory) (not_exists.mp primary)]
    apply outcome_kvRecoverFinish_noNeed committed
    exact decide_eq_false (by rw [← counts]; exact few)

variable (junk) in
theorem outcome_committed_completed (absent : ∀ pos, memory.index 0 pos ≠ req.target)
    (backups : 0 < k) (all : (backupMatches req.target memory.index).length = k)
    {rest : List Position} (found : backupMatches req.target memory.index = pos :: rest) :
    outcome (clientRecovery req junk memory) =
      .ok (Function.update memory.index 0
        (Function.update (memory.index 0) pos req.target), false) := by
  obtain ⟨_, replay⟩ := exists_clientRecovery_committed junk counts committed
  have swapped : casSlot (memory.index 0) pos (memory.index 0 pos) req.target =
      Function.update (memory.index 0) pos req.target := casSlot_of_eq rfl
  rw [replay, checkRecoverNeedCasPr_of_absent (bucketsRead junk memory) absent, ← swapped]
  exact outcome_kvRecoverFinish_match committed backups
    (decide_eq_true (by rw [← counts]; exact all)) found

end Committed

/-- Without backups an empty list of matches is taken for a complete one. -/
theorem outcome_committed_single {memory : Memory 0} (counts : 1 = req.numReplication)
    (committed : logIsCommitted memory.tail) (absent : ∀ pos, memory.index 0 pos ≠ req.target) :
    outcome (clientRecovery req junk memory) = .error .emptyMatchList := by
  obtain ⟨_, replay⟩ := exists_clientRecovery_committed junk counts committed
  rw [replay, checkRecoverNeedCasPr_of_absent (bucketsRead junk memory) absent]
  exact outcome_kvRecoverFinish_noMatch committed (decide_eq_true (by rw [← counts]; rfl)) rfl

/-! ## Uncommitted entries -/

theorem index_ext_of_single {index index' : IndexReplicas 0} (primary : index 0 = index' 0) :
    index = index' :=
  funext (Fin.cases primary fun backup => backup.elim0)

variable {ctx : KVReqCtx k}

theorem outcome_modifyPrimaryIdxSync_failed (failed : ctx.consensusState = .fail) :
    outcome (modifyPrimaryIdxSync ctx) = .ok (ctx.index, ctx.comparedUnread) := by
  rw [modifyPrimaryIdxSync, if_pos failed, outcome_ok]

theorem outcome_modifyPrimaryIdxSync {cas : KVCASAddr} (unfailed : ctx.consensusState ≠ .fail)
    (target : ctx.casAddr = some cas) :
    outcome (modifyPrimaryIdxSync ctx) =
      .ok (Function.update ctx.index 0
        (casSlot (ctx.index 0) cas.position cas.origValue cas.swapValue), ctx.comparedUnread) := by
  simp [modifyPrimaryIdxSync, unfailed, target]

section Redo

variable {count : KVReqCtx k → Except Abort (KVReqCtx k)} {ctx : KVReqCtx k} {cas : KVCASAddr}
  (uncommitted : ctx.recoverCommitted = false)
include uncommitted

theorem outcome_kvRecoverFinish_won (backups : 0 < k) (target : ctx.casAddr = some cas)
    (won : count ctx = .ok { ctx with consensusState := .winAll, isFinished := false }) :
    outcome (kvRecoverFinish req count ctx) =
      .ok (Function.update ctx.index 0
        (casSlot (ctx.index 0) cas.position cas.origValue cas.swapValue), ctx.comparedUnread) := by
  unfold kvRecoverFinish kvRecoverBackupConsensus1
  rw [if_pos backups, uncommitted, if_neg Bool.false_ne_true, won]
  simp [kvRecoverCommitLog, kvLogCommitSync, kvRecoverCasPrimary, modifyPrimaryIdxSync,
    uncommitted, target, bind, Except.bind]

theorem outcome_kvRecoverFinish_lost (backups : 0 < k) {abort : Abort}
    (lost : count ctx = .error abort) : outcome (kvRecoverFinish req count ctx) = .error abort := by
  unfold kvRecoverFinish kvRecoverBackupConsensus1
  rw [if_pos backups, uncommitted, if_neg Bool.false_ne_true, lost]
  rfl

theorem outcome_kvRecoverFinish_single (single : k = 0) :
    outcome (kvRecoverFinish req count ctx) = outcome (modifyPrimaryIdxSync ctx) := by
  unfold kvRecoverFinish kvRecoverCasPrimary
  rw [if_neg (by omega), uncommitted, if_neg Bool.false_ne_true]

end Redo

section Insert

variable (counts : k + 1 = req.numReplication) (insert : logIsInsert memory.tail)
  (uncommitted : logIsCommitted memory.tail = false)
include counts insert uncommitted

theorem outcome_insert_modified (modified : junk.hasModifiedBkIdx) :
    outcome (clientRecovery req junk memory) = .error .emptyMatchList := by
  have isUncommitted : (bucketsRead junk memory).recoverCommitted = false := uncommitted
  have isModified : (bucketsRead junk memory).hasModifiedBkIdx := modified
  rw [clientRecovery_insert counts insert, kvRecoverInsertBackupConsensus0, isUncommitted,
    isModified]
  rfl

section Unmodified

variable (unmodified : junk.hasModifiedBkIdx = false)
include unmodified

theorem outcome_insert_full
    (full : findEmptySlot (memory.index 0) req.fMainIdx req.sMainIdx = none) :
    outcome (clientRecovery req junk memory) = .error .noEmptySlot := by
  have isUncommitted : (bucketsRead junk memory).recoverCommitted = false := uncommitted
  have isUnmodified : (bucketsRead junk memory).hasModifiedBkIdx = false := unmodified
  have noSlot : findEmptySlot ((bucketsRead junk memory).localBuckets 0)
      req.fMainIdx req.sMainIdx = none := full
  rw [clientRecovery_insert counts insert, kvRecoverInsertBackupConsensus0, isUncommitted,
    isUnmodified, noSlot]
  rfl

variable {pos : Position}
  (free : findEmptySlot (memory.index 0) req.fMainIdx req.sMainIdx = some pos)
include free

theorem clientRecovery_insert_free :
    clientRecovery req junk memory =
      kvRecoverFinish req (modifyBackupIdxConsensus1Sync junk.opWord)
        (modifyBackupIdx ⟨pos, memory.index 0 pos, req.target⟩ (bucketsRead junk memory)) := by
  have isUncommitted : (bucketsRead junk memory).recoverCommitted = false := uncommitted
  have isUnmodified : (bucketsRead junk memory).hasModifiedBkIdx = false := unmodified
  have slot : findEmptySlot ((bucketsRead junk memory).localBuckets 0)
      req.fMainIdx req.sMainIdx = some pos := free
  rw [clientRecovery_insert counts insert, kvRecoverInsertBackupConsensus0, isUncommitted,
    isUnmodified, slot]
  rfl

/-- With backups the logged value is installed in the free slot of every
replica, unless another value got there. -/
theorem outcome_insert_backups (backups : 0 < k)
    (own : ∀ backup : Fin k, memory.index backup.succ pos = memory.index 0 pos ∨
      memory.index backup.succ pos = req.target) :
    outcome (clientRecovery req junk memory) =
      .ok (installed memory.index pos req.target, false) := by
  let cas : KVCASAddr := ⟨pos, memory.index 0 pos, req.target⟩
  have won := modifyBackupIdxConsensus1Sync_unanimous junk.opWord backups cas
    (bucketsRead junk memory) own
  rw [clientRecovery_insert_free counts insert uncommitted unmodified free,
    outcome_kvRecoverFinish_won uncommitted backups rfl won, ← casBackups_installed cas rfl own]
  rfl

/-- Without backups the logged value is installed unless the consensus state,
which nothing has set, happens to be `KV_CONSENSUS_FAIL`. -/
theorem outcome_insert_single (single : k = 0) :
    outcome (clientRecovery req junk memory) =
      .ok (if junk.consensusState = .fail then memory.index
        else installed memory.index pos req.target, false) := by
  subst single
  let cas : KVCASAddr := ⟨pos, memory.index 0 pos, req.target⟩
  let ctx := modifyBackupIdx cas (bucketsRead junk memory)
  have unchanged : ctx.index = memory.index := index_ext_of_single rfl
  rw [clientRecovery_insert_free counts insert uncommitted unmodified free,
    outcome_kvRecoverFinish_single uncommitted rfl]
  split_ifs with failed
  · exact (outcome_modifyPrimaryIdxSync_failed failed).trans (by rw [unchanged]; rfl)
  · rw [← casBackups_installed cas rfl fun backup => backup.elim0]
    exact outcome_modifyPrimaryIdxSync failed rfl

end Unmodified

end Insert

section Update

theorem ne_target_of_mem {buckets : Buckets} (other : ownAddress req buckets = false)
    (mem : pos ∈ findKvInBuckets req.fp buckets) : buckets pos ≠ req.target := by
  intro same
  have apart := List.any_eq_false.mp other pos mem
  rw [same, Request.target, rKvAddr_fillSlot] at apart
  simp at apart

theorem mem_of_findMatchKvIdx {unread : ℕ → Bool} (read : ctx.kvRead)
    (found : findMatchKvIdx req unread ctx = some pos) : pos ∈ ctx.kvIdxList := by
  rw [findMatchKvIdx, if_pos read] at found
  exact List.mem_of_find?_eq_some found

theorem modifyBackupIdxConsensus1_cases (ctx : KVReqCtx k) :
    (∃ cas, ctx.casAddr = some cas ∧ modifyBackupIdxConsensus1 ctx =
      .ok { ctx with consensusState := .winAll, isFinished := false }) ∨
    ∃ abort, modifyBackupIdxConsensus1 ctx = .error abort := by
  unfold modifyBackupIdxConsensus1
  cases ctx.casAddr with
  | none => exact .inr ⟨_, rfl⟩
  | some cas =>
    dsimp only
    split
    · exact .inl ⟨cas, rfl, rfl⟩
    all_goals exact .inr ⟨_, rfl⟩

variable (uncommitted : logIsCommitted memory.tail = false)
include uncommitted

theorem kvRecoverUpdateReadKv_uncommitted :
    kvRecoverUpdateReadKv req (bucketsRead junk memory) =
      { bucketsRead junk memory with
        kvIdxList := findKvInBuckets req.fp (memory.index 0)
        kvRead := !ownAddress req (memory.index 0)
        isFinished := ownAddress req (memory.index 0) } := by
  have isUncommitted : (bucketsRead junk memory).recoverCommitted ≠ true :=
    Bool.eq_false_iff.mp uncommitted
  have read : (bucketsRead junk memory).localBuckets 0 = memory.index 0 := rfl
  rw [kvRecoverUpdateReadKv, if_neg isUncommitted, read]
  cases ownAddress req (memory.index 0) <;> rfl

variable (req junk) in
/-- The context of a replayed update after its first round on the backups.  It
has compared unread buffers exactly if a candidate lies at its own address. -/
theorem updateRedone_spec :
    let ctx := kvRecoverUpdateBackupConsensus0 req junk
      (kvRecoverUpdateReadKv req (bucketsRead junk memory))
    ctx.recoverCommitted = false ∧ ctx.consensusState = junk.consensusState ∧
    ctx.index 0 = memory.index 0 ∧ ctx.comparedUnread = ownAddress req (memory.index 0) ∧
    ∀ cas, ctx.casAddr = some cas →
      cas.swapValue = req.target ∧ cas.origValue = memory.index 0 cas.position ∧
      (ownAddress req (memory.index 0) = false → cas.origValue ≠ req.target) := by
  intro ctx
  have isUncommitted : (kvRecoverUpdateReadKv req
      (bucketsRead junk memory)).recoverCommitted ≠ true := by
    rw [kvRecoverUpdateReadKv_uncommitted uncommitted]
    exact Bool.eq_false_iff.mp uncommitted
  have compared : (!!ownAddress req (memory.index 0) &&
      !(findKvInBuckets req.fp (memory.index 0)).isEmpty) = ownAddress req (memory.index 0) := by
    unfold ownAddress
    cases findKvInBuckets req.fp (memory.index 0) <;> simp
  simp only [ctx, kvRecoverUpdateBackupConsensus0, if_neg isUncommitted]
  rw [kvRecoverUpdateReadKv_uncommitted uncommitted]
  cases found : findMatchKvIdx req junk.kvBuffer _ with
  | none => exact ⟨uncommitted, rfl, rfl, compared, by rintro _ ⟨⟩⟩
  | some pos =>
    refine ⟨uncommitted, rfl, rfl, compared, ?_⟩
    rintro _ ⟨⟩
    refine ⟨rfl, rfl, fun other => ne_target_of_mem other ?_⟩
    exact mem_of_findMatchKvIdx (by simp [other]) found

variable (counts : k + 1 = req.numReplication) (update : ¬ logIsInsert memory.tail)
include counts update

/-- A redone update that returns has installed its log entry, unless there are
no backups and the consensus state happens to be `KV_CONSENSUS_FAIL`. -/
theorem outcome_update_installed (proceeds : 0 < k ∨ junk.consensusState ≠ .fail)
    {index : IndexReplicas k} {compared : Bool}
    (returned : outcome (clientRecovery req junk memory) = .ok (index, compared)) :
    ∃ pos, index 0 pos = req.target ∧ (compared = false → memory.index 0 pos ≠ req.target) := by
  rw [clientRecovery_update counts update] at returned
  obtain ⟨isUncommitted, s, primary, unread, redone⟩ := updateRedone_spec req junk uncommitted
  generalize kvRecoverUpdateBackupConsensus0 req junk
    (kvRecoverUpdateReadKv req (bucketsRead junk memory)) = ctx at *
  have written : ∀ cas, ctx.casAddr = some cas →
      outcome (kvRecoverFinish req modifyBackupIdxConsensus1 ctx) =
        .ok (Function.update ctx.index 0
          (casSlot (ctx.index 0) cas.position cas.origValue cas.swapValue), ctx.comparedUnread) →
      ∃ pos, index 0 pos = req.target ∧ (compared = false → memory.index 0 pos ≠ req.target) := by
    intro cas target result
    obtain ⟨swaps, expects, other⟩ := redone cas target
    rw [result] at returned
    cases returned
    refine ⟨cas.position, ?_, fun read => expects ▸ other (unread ▸ read)⟩
    rw [Function.update_self, casSlot_of_eq (by rw [primary, expects]), Function.update_self, swaps]
  by_cases backups : 0 < k
  · obtain ⟨cas, target, won⟩ | ⟨_, lost⟩ := modifyBackupIdxConsensus1_cases ctx
    · exact written cas target (outcome_kvRecoverFinish_won isUncommitted backups target won)
    · rw [outcome_kvRecoverFinish_lost isUncommitted backups lost] at returned
      cases returned
  · have unfailed : ctx.consensusState ≠ .fail := s ▸ proceeds.resolve_left backups
    have single : outcome (kvRecoverFinish req modifyBackupIdxConsensus1 ctx) =
        outcome (modifyPrimaryIdxSync ctx) :=
      outcome_kvRecoverFinish_single isUncommitted (by omega)
    cases target : ctx.casAddr with
    | none =>
      rw [single, modifyPrimaryIdxSync, if_neg unfailed, target] at returned
      cases returned
    | some cas => exact written cas target (single.trans (outcome_modifyPrimaryIdxSync unfailed target))

theorem outcome_update_unchanged (single : k = 0) (failed : junk.consensusState = .fail) :
    outcome (clientRecovery req junk memory) =
      .ok (memory.index, ownAddress req (memory.index 0)) := by
  subst single
  obtain ⟨isUncommitted, s, primary, unread, -⟩ := updateRedone_spec req junk uncommitted
  rw [clientRecovery_update counts update, outcome_kvRecoverFinish_single isUncommitted rfl,
    outcome_modifyPrimaryIdxSync_failed (s.trans failed), index_ext_of_single primary, unread]

end Update

end FuseeFs.Recovery
