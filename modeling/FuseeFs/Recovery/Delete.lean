import FuseeFs.Recovery.Outcomes

/-!
# Recovery of a delete

The log entry of a delete is a key-value pair with an empty value, and
recovery has no branch for it: a committed one is looked for in the index, where
it never was, and an uncommitted one is installed like the value of an update.
-/

namespace FuseeFs.Recovery

open Function Index Replication

variable {k : ℕ}

/-- The points after the log entry was written at which `kv_delete_sync` may
stop. -/
inductive KVDeleteCrash (k : ℕ)
  /-- Some of the compare-and-swaps to the backups were executed. -/
  | backupCas (executed : Finset (Fin k))
  /-- The phases up to the commit of the log entry were executed. -/
  | logCommit
  | primaryCas
deriving DecidableEq

def kvDeleteReadKvSync (req : Request) (ctx : KVReqCtx k) : KVReqCtx k :=
  { ctx with
    kvIdxList := findKvInBuckets req.fp (ctx.localBuckets 0)
    kvRead := true
    isFinished := false }

/-- The vote and the commit, which a client without backups skips. -/
def kvDeleteCommitSync (opWord : UInt64) (ctx : KVReqCtx k) : Except Abort (KVReqCtx k) :=
  if 0 < k then do .ok (kvLogCommitSync (← modifyBackupIdxConsensus1Sync opWord ctx))
  else .ok ctx

def kvDeleteCasCrash (opWord : UInt64) (crash : KVDeleteCrash k) (cas : KVCASAddr)
    (ctx : KVReqCtx k) : Except Abort (KVReqCtx k) :=
  match crash with
  | .backupCas executed =>
    let expected (backup : Fin k) := if backup ∈ executed then some cas.origValue else none
    .ok { ctx with index := casBackups cas expected ctx.index }
  | .logCommit => kvDeleteCommitSync opWord (startCas cas ctx)
  | .primaryCas => do modifyPrimaryIdxSync (← kvDeleteCommitSync opWord (startCas cas ctx))

def kvDeleteSyncCrash (req : Request) (opWord : UInt64) (crash : KVDeleteCrash k)
    (ctx : KVReqCtx k) : Except Abort (KVReqCtx k) :=
  let ctx := kvDeleteReadKvSync req ctx
  match findMatchKvIdx req (fun _ => false) ctx with
  | none => .ok { ctx with isFinished := true }
  | some pos => kvDeleteCasCrash opWord crash ⟨pos, ctx.localBuckets 0 pos, 0⟩ ctx

def RemovedFrom (removed : Fin (k + 1) → Bool) (content : Buckets) (pos : Position)
    (index : IndexReplicas k) : Prop :=
  ∀ replica, index replica =
    if removed replica then update content pos 0 else content

section Crash

variable {req : Request} {content : Buckets} {pos : Position}

theorem findMatchKvIdx_unique (binds : req.Binds (content pos))
    (unique : ∀ other, req.Binds (content other) → other = pos)
    (ctx : KVReqCtx k) (read : ctx.localBuckets 0 = content) (unread : ℕ → Bool) :
    findMatchKvIdx req unread (kvDeleteReadKvSync req ctx) = some pos := by
  simp only [findMatchKvIdx, kvDeleteReadKvSync, read, if_true]
  cases found : (findKvInBuckets req.fp content).find? fun other =>
      req.checkKey (content other) with
  | none =>
    have missed := List.find?_eq_none.mp found pos ((mem_findKvInBuckets _ _ _).mpr binds.1)
    exact absurd binds.2 missed
  | some other =>
    have candidate := (mem_findKvInBuckets _ _ _).mp (List.mem_of_find?_eq_some found)
    have key := List.find?_some found
    rw [unique other ⟨candidate, key⟩]

variable (cas : KVCASAddr) (ctx : KVReqCtx k)

theorem kvDeleteCommitSync_single (opWord : UInt64) (single : k = 0) :
    kvDeleteCommitSync opWord (startCas cas ctx) =
      .ok { ctx with casAddr := some cas, consensusState := .winAll } := by
  rw [kvDeleteCommitSync, if_neg (by omega), startCas, if_pos single]

theorem kvDeleteCommitSync_backups (opWord : UInt64) (backups : 0 < k)
    (own : ∀ backup : Fin k, ctx.index backup.succ cas.position = cas.origValue ∨
      ctx.index backup.succ cas.position = cas.swapValue) :
    kvDeleteCommitSync opWord (startCas cas ctx) =
      .ok (kvLogCommitSync
        { modifyBackupIdx cas ctx with consensusState := .winAll, isFinished := false }) := by
  rw [kvDeleteCommitSync, if_pos backups, startCas, if_neg backups.ne',
    modifyBackupIdxConsensus1Sync_unanimous opWord backups cas ctx own]
  rfl

theorem kvDeleteCasCrash_removed (opWord : UInt64) (crash : KVDeleteCrash k)
    (uniform : ctx.index = fun _ => content) (expects : cas.origValue = content cas.position)
    (clears : cas.swapValue = 0) :
    ∃ crashed : KVReqCtx k, kvDeleteCasCrash opWord crash cas ctx = .ok crashed ∧
      crashed.tail.op = ctx.tail.op ∧
      ∃ removed, RemovedFrom removed content cas.position crashed.index := by
  have primary : ctx.index 0 cas.position = cas.origValue := by rw [uniform, expects]
  have own : ∀ backup : Fin k, ctx.index backup.succ cas.position = cas.origValue ∨
      ctx.index backup.succ cas.position = cas.swapValue := by
    rw [uniform, expects]
    exact fun _ => .inl rfl
  cases crash with
  | backupCas executed =>
    refine ⟨_, rfl, rfl, Fin.cons false fun backup => backup ∈ executed, fun replica => ?_⟩
    refine Fin.cases ?_ (fun backup => ?_) replica
    · simp [uniform]
    · by_cases mem : backup ∈ executed <;>
        simp [casBackups, casSlot, mem, uniform, expects, clears]
  | logCommit =>
    rcases Nat.eq_zero_or_pos k with single | backups
    · refine ⟨_, kvDeleteCommitSync_single cas ctx opWord single, rfl, fun _ => false, fun replica => ?_⟩
      simp [uniform]
    · refine ⟨_, kvDeleteCommitSync_backups cas ctx opWord backups own, rfl,
        Fin.cons false fun _ => true, fun replica => ?_⟩
      refine Fin.cases ?_ (fun backup => ?_) replica
      · simp [kvLogCommitSync, modifyBackupIdx, uniform]
      · simp [kvLogCommitSync, modifyBackupIdx, uniform, casSlot, expects, clears]
  | primaryCas =>
    rcases Nat.eq_zero_or_pos k with rfl | backups
    · simp only [kvDeleteCasCrash, kvDeleteCommitSync_single cas ctx opWord rfl]
      refine ⟨_, rfl, rfl, fun _ => true, fun replica => ?_⟩
      refine Fin.cases ?_ (fun backup => backup.elim0) replica
      simp [uniform, casSlot, expects, clears]
    · simp only [kvDeleteCasCrash, kvDeleteCommitSync_backups cas ctx opWord backups own]
      refine ⟨_, rfl, rfl, fun _ => true, fun replica => ?_⟩
      refine (congrFun (casBackups_installed cas primary own) replica).trans ?_
      simp [installed, uniform, clears]

theorem kvDeleteSyncCrash_removed (opWord staleValue : UInt64) (crash : KVDeleteCrash k)
    (binds : req.Binds (content pos)) (unique : ∀ other, req.Binds (content other) → other = pos) :
    ∃ crashed : KVReqCtx k,
      kvDeleteSyncCrash req opWord crash
        (.logged (fun _ => content) ⟨staleValue, .delete⟩) = .ok crashed ∧
      crashed.tail.op = .delete ∧
      ∃ removed, RemovedFrom removed content pos crashed.index := by
  have found := findMatchKvIdx_unique binds unique
    (.logged (k := k) (fun _ => content) ⟨staleValue, .delete⟩) rfl fun _ => false
  simp only [kvDeleteSyncCrash, found]
  exact kvDeleteCasCrash_removed ⟨pos, content pos, 0⟩ _ opWord crash rfl rfl rfl

end Crash

/-- On all replicas alike the key is either absent or bound to its value, and
never to the log entry of the delete. -/
def DeleteLegal (req : Request) (value : UInt64) (index : IndexReplicas k) : Prop :=
  ((∀ replica pos, ¬ req.Binds (index replica pos)) ∨
    ∀ replica, ∃ pos, index replica pos = value ∧
      ∀ other, req.Binds (index replica other) → other = pos) ∧
  (∀ replica pos, index replica pos ≠ req.target) ∧
  ∀ replica, index replica = index 0

def DeleteRecovered (req : Request) (value : UInt64) (result : Except Abort (KVReqCtx k)) :
    Prop :=
  ∃ recovered, result = .ok recovered ∧ DeleteLegal req value recovered.index

def DeleteRecoverable (req : Request) (junk : Uninitialised) (memory : Memory k) :
    Prop :=
  k + 1 = req.numReplication ∧
  (logIsCommitted memory.tail → 0 < k ∧ ∀ replica, memory.index replica = memory.index 0) ∧
  (¬ logIsCommitted memory.tail → k = 0 ∧ junk.consensusState = .fail)

section Recovery

variable {req : Request} {junk : Uninitialised} {content : Buckets}
  {pos : Position}
variable {value : UInt64} {result : Except Abort (KVReqCtx k)}

theorem deleteRecovered_iff :
    DeleteRecovered req value result ↔ ∃ index compared, outcome result = .ok (index, compared) ∧
      DeleteLegal req value index := by
  cases result with
  | error abort => simp [DeleteRecovered]
  | ok recovered => simp [DeleteRecovered]

theorem deleteRecovered_iff_of_outcome {index : IndexReplicas k} {compared : Bool}
    (returned : outcome result = .ok (index, compared)) :
    DeleteRecovered req value result ↔ DeleteLegal req value index := by
  rw [deleteRecovered_iff, returned]
  constructor
  · rintro ⟨_, _, ⟨⟩, legal⟩
    exact legal
  · exact fun legal => ⟨index, compared, rfl, legal⟩

theorem not_deleteRecovered_of_error {abort : Abort} (aborted : outcome result = .error abort) :
    ¬ DeleteRecovered req value result := by
  rw [deleteRecovered_iff, aborted]
  simp

theorem not_binds_zero : ¬ req.Binds 0 :=
  req.not_binds_of_isFree (by decide)

section Removed

variable {removed : Fin (k + 1) → Bool} {index : IndexReplicas k}
  (deleted : RemovedFrom removed content pos index)
  (unique : ∀ other, req.Binds (content other) → other = pos)
include deleted unique

theorem not_binds_of_removed {replica : Fin (k + 1)} (gone : removed replica) (other : Position) :
    ¬ req.Binds (index replica other) := by
  rw [deleted, if_pos gone]
  by_cases same : other = pos
  · rw [same, update_self]
    exact not_binds_zero
  · rw [update_of_ne same]
    exact fun bound => same (unique other bound)

theorem ne_target_of_removed (fresh : content pos ≠ req.target) (replica : Fin (k + 1))
    (other : Position) : index replica other ≠ req.target := by
  intro installed
  have bound : req.Binds (index replica other) := installed ▸ req.binds_target
  by_cases gone : removed replica
  · exact not_binds_of_removed deleted unique gone other bound
  · rw [deleted, if_neg gone] at bound installed
    rw [unique other bound] at installed
    exact fresh installed

/-- Replicas that agree are legal: the key is on all of them or on none. -/
theorem deleteLegal_iff_agree (fresh : content pos ≠ req.target) :
    DeleteLegal req (content pos) index ↔ ∀ replica, index replica = index 0 := by
  refine ⟨fun legal => legal.2.2, fun agree =>
    ⟨?_, ne_target_of_removed deleted unique fresh, agree⟩⟩
  by_cases gone : removed 0
  · refine .inl fun replica other => ?_
    rw [agree replica]
    exact not_binds_of_removed deleted unique gone other
  · have kept : index 0 = content := by rw [deleted, if_neg gone]
    refine .inr fun replica => ⟨pos, ?_, ?_⟩
    · rw [agree replica, kept]
    · rw [agree replica, kept]
      exact unique

end Removed

/-- The recovery of a delete that has removed the key from some replicas. -/
theorem deleteRecovered_iff_recoverable {memory : Memory k} {removed : Fin (k + 1) → Bool}
    (deleted : RemovedFrom removed content pos memory.index)
    (unique : ∀ other, req.Binds (content other) → other = pos)
    (fresh : content pos ≠ req.target) (delete : memory.tail.op = .delete) :
    DeleteRecovered req (content pos) (clientRecovery req junk memory) ↔
      DeleteRecoverable req junk memory := by
  have notTarget := ne_target_of_removed deleted unique fresh
  have notInsert : ¬ logIsInsert memory.tail := by simp [logIsInsert, delete]
  by_cases counts : k + 1 = req.numReplication
  swap
  · exact iff_of_false (not_deleteRecovered_of_error (outcome_replicaCounts counts))
      fun recoverable => counts recoverable.1
  cases committed : logIsCommitted memory.tail with
  | true =>
    have reduced : DeleteRecoverable req junk memory ↔
        0 < k ∧ ∀ replica, memory.index replica = memory.index 0 := by
      simp [DeleteRecoverable, counts, committed]
    rw [reduced]
    cases k with
    | zero =>
      exact iff_of_false (not_deleteRecovered_of_error
        (outcome_committed_single counts committed (notTarget 0))) fun both => both.1.false
    | succ k =>
      -- the log entry was never installed, so that no replica matches it
      have noMatch : backupMatches req.target memory.index = [] :=
        List.flatMap_eq_nil_iff.mpr fun backup _ =>
          matchingSlots_eq_nil_iff.mpr (notTarget backup.succ)
      have unchanged := outcome_committed_unchanged junk counts committed
        (.inr (by rw [noMatch]; exact k.succ_ne_zero.symm))
      rw [deleteRecovered_iff_of_outcome unchanged, deleteLegal_iff_agree deleted unique fresh]
      simp
  | false =>
    have reduced : DeleteRecoverable req junk memory ↔
        k = 0 ∧ junk.consensusState = .fail := by
      simp [DeleteRecoverable, counts, committed]
    rw [reduced]
    by_cases idle : k = 0 ∧ junk.consensusState = .fail
    · obtain ⟨rfl, failed⟩ := idle
      have unchanged := outcome_update_unchanged committed counts notInsert rfl failed
      rw [deleteRecovered_iff_of_outcome unchanged, deleteLegal_iff_agree deleted unique fresh]
      exact iff_of_true (Fin.cases rfl fun backup => backup.elim0) ⟨rfl, failed⟩
    · refine iff_of_false ?_ idle
      rw [deleteRecovered_iff]
      rintro ⟨_, _, returned, legal⟩
      have proceeds : 0 < k ∨ junk.consensusState ≠ .fail := by
        by_contra neither
        push Not at neither
        exact idle ⟨by omega, neither.2⟩
      obtain ⟨other, installed, -⟩ :=
        outcome_update_installed committed counts notInsert proceeds returned
      exact legal.2.1 0 other installed

end Recovery

/-- Crash recovery of a delete: the key and the replicas are left in a legal
state from exactly the states that are `DeleteRecoverable`. -/
theorem delete_recovered_iff (req : Request) (junk : Uninitialised) (opWord staleValue : UInt64)
    (content : Buckets) (pos : Position) (binds : req.Binds (content pos))
    (unique : ∀ other, req.Binds (content other) → other = pos) (fresh : content pos ≠ req.target)
    (crash : KVDeleteCrash k) :
    ∃ crashed : KVReqCtx k,
      kvDeleteSyncCrash req opWord crash
        (.logged (fun _ => content) ⟨staleValue, .delete⟩) = .ok crashed ∧
      (DeleteRecovered req (content pos)
          (clientRecovery req junk crashed.toMemory) ↔
        DeleteRecoverable req junk crashed.toMemory) := by
  obtain ⟨crashed, ran, op, _, deleted⟩ :=
    kvDeleteSyncCrash_removed opWord staleValue crash binds unique
  exact ⟨crashed, ran, deleteRecovered_iff_recoverable deleted unique fresh op⟩

def sampleContent : Buckets :=
  update (fun _ => 0) (0, 0) (fillSlot (sampleAlloc 2) 1)

theorem delete_recovered_iff_complete :
    (sampleRequest 2).Binds (sampleContent (0, 0)) ∧
    (∀ other, (sampleRequest 2).Binds (sampleContent other) → other = (0, 0)) ∧
    sampleContent (0, 0) ≠ (sampleRequest 2).target ∧
    ∃ crashed : KVReqCtx 1,
      kvDeleteSyncCrash (sampleRequest 2) 0 .primaryCas
        (.logged (fun _ => sampleContent) ⟨0, .delete⟩) = .ok crashed ∧
      DeleteRecovered (sampleRequest 2) (sampleContent (0, 0))
        (clientRecovery (sampleRequest 2) zeroed crashed.toMemory) := by
  have binds : (sampleRequest 2).Binds (sampleContent (0, 0)) := by decide
  have unique : ∀ other, (sampleRequest 2).Binds (sampleContent other) → other = (0, 0) := by decide
  have fresh : sampleContent (0, 0) ≠ (sampleRequest 2).target := by decide
  obtain ⟨crashed, ran, recovered⟩ :=
    delete_recovered_iff (k := 1) (sampleRequest 2) zeroed 0 0 sampleContent (0, 0) binds unique
      fresh .primaryCas
  refine ⟨binds, unique, fresh, crashed, ran, recovered.mpr ?_⟩
  obtain rfl := Except.ok.inj ran
  exact ⟨rfl, fun _ => ⟨by decide, by decide⟩, fun uncommitted => absurd (by decide) uncommitted⟩

/-- A delete that crashed right after its log entry was written is redone as an
update: recovery binds the key to the log entry. -/
theorem logged_delete_installed :
    ∃ crashed : KVReqCtx 1,
      kvDeleteSyncCrash (sampleRequest 2) 0 (.backupCas ∅)
        (.logged (fun _ => sampleContent) ⟨0, .delete⟩) = .ok crashed ∧
      ¬ DeleteRecovered (sampleRequest 2) (sampleContent (0, 0))
        (clientRecovery (sampleRequest 2) zeroed crashed.toMemory) := by
  obtain ⟨crashed, ran⟩ : ∃ crashed : KVReqCtx 1, kvDeleteSyncCrash (sampleRequest 2) 0
      (.backupCas ∅) (.logged (fun _ => sampleContent) ⟨0, .delete⟩) = .ok crashed := ⟨_, rfl⟩
  refine ⟨crashed, ran, ?_⟩
  have word : (clientRecovery (sampleRequest 2) zeroed crashed.toMemory).map
      (fun ctx => ctx.index 0 (0, 0)) = .ok (sampleRequest 2).target := by
    obtain rfl := Except.ok.inj ran
    decide
  rintro ⟨_, returned, legal⟩
  rw [returned] at word
  exact legal.2.1 0 (0, 0) (Except.ok.inj word)

end FuseeFs.Recovery
