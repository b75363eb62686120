import FuseeFs.Recovery.Outcomes

/-!
# Recovery of an insert

`kv_insert_w_crash` stops an insert after one of its phases.  Its replay looks
for a free slot again unless the entry is committed, which an entry whose old
value is an empty slot never is.
-/

namespace FuseeFs.Recovery

open Function Index Replication

inductive KVCrashPoint
  | uncommittedBkConsensus0
  | uncommittedBkConsensus1
  | committedPrCas
  | committedAllFinish
deriving DecidableEq, Repr

variable {k : ℕ}

/-! ## The crashed insert -/

def kvInsertBackupConsensus0Sync (req : Request) (ctx : KVReqCtx k) : KVReqCtx k :=
  if ctx.isFinished then ctx
  else
    match findEmptySlot (ctx.localBuckets 0) req.fMainIdx req.sMainIdx with
    | none => { ctx with isFinished := true }
    | some pos => startCas ⟨pos, ctx.localBuckets 0 pos, req.target⟩ ctx

def kvInsertBackupConsensus1Sync (opWord : UInt64) (ctx : KVReqCtx k) : Except Abort (KVReqCtx k) :=
  if ctx.isFinished then .ok ctx else modifyBackupIdxConsensus1Sync opWord ctx

def kvInsertCommitLogSync (ctx : KVReqCtx k) : KVReqCtx k :=
  if ctx.isFinished then ctx else kvLogCommitSync ctx

def kvInsertCasPrimarySync (ctx : KVReqCtx k) : Except Abort (KVReqCtx k) :=
  if ctx.isFinished then .ok ctx else modifyPrimaryIdxSync ctx

/-- `kv_insert_w_crash` from the point where the log entry is written. -/
def kvInsertWCrash (req : Request) (opWord : UInt64) (crashPoint : KVCrashPoint)
    (ctx : KVReqCtx k) : Except Abort (KVReqCtx k) :=
  let ctx := kvInsertBackupConsensus0Sync req ctx
  if crashPoint = .uncommittedBkConsensus0 then .ok ctx
  else if 0 < k then do
    let ctx ← kvInsertBackupConsensus1Sync opWord ctx
    if crashPoint = .uncommittedBkConsensus1 then .ok ctx
    else
      let ctx := kvInsertCommitLogSync ctx
      if crashPoint = .committedPrCas then .ok ctx
      else kvInsertCasPrimarySync ctx
  else kvInsertCasPrimarySync ctx

def backupsInstalled (content : Buckets) (pos : Position) (word : UInt64) : IndexReplicas k :=
  Fin.cons content fun _ => update content pos word

def primaryWritten (k : ℕ) : KVCrashPoint → Bool
  | .uncommittedBkConsensus0 => false
  | .uncommittedBkConsensus1 | .committedPrCas => k = 0
  | .committedAllFinish => true

def oldValueLogged (k : ℕ) : KVCrashPoint → Bool
  | .uncommittedBkConsensus0 | .uncommittedBkConsensus1 => false
  | .committedPrCas | .committedAllFinish => k ≠ 0

section Crash

variable {req : Request} (opWord staleValue : UInt64) {content : Buckets}

theorem kvInsertWCrash_full (full : findEmptySlot content req.fMainIdx req.sMainIdx = none)
    (crashPoint : KVCrashPoint) :
    ∃ crashed : KVReqCtx k,
      kvInsertWCrash req opWord crashPoint
        (.logged (fun _ => content) ⟨staleValue, .insert⟩) = .ok crashed ∧
      crashed.toMemory = ⟨fun _ => content, ⟨staleValue, .insert⟩⟩ := by
  refine ⟨{ KVReqCtx.logged (fun _ => content) ⟨staleValue, .insert⟩ with isFinished := true },
    ?_, rfl⟩
  have finished : kvInsertBackupConsensus0Sync req
      (.logged (k := k) (fun _ => content) ⟨staleValue, .insert⟩) =
      { KVReqCtx.logged (fun _ => content) ⟨staleValue, .insert⟩ with isFinished := true } := by
    simp [kvInsertBackupConsensus0Sync, KVReqCtx.logged, full]
  simp only [kvInsertWCrash, finished, kvInsertBackupConsensus1Sync, kvInsertCommitLogSync,
    kvInsertCasPrimarySync, if_true]
  split_ifs <;> rfl

variable {pos : Position}
  (free : findEmptySlot content req.fMainIdx req.sMainIdx = some pos)
include free

theorem kvInsertBackupConsensus0Sync_free :
    kvInsertBackupConsensus0Sync req
        (.logged (k := k) (fun _ => content) ⟨staleValue, .insert⟩) =
      startCas ⟨pos, content pos, req.target⟩
        (.logged (fun _ => content) ⟨staleValue, .insert⟩) := by
  simp [kvInsertBackupConsensus0Sync, KVReqCtx.logged, free]

/-- An insert that finds a free slot has written its value to all backups, to
the primary, and the old value to its log entry as far as it got. -/
theorem kvInsertWCrash_free (crashPoint : KVCrashPoint) :
    ∃ crashed : KVReqCtx k,
      kvInsertWCrash req opWord crashPoint
        (.logged (fun _ => content) ⟨staleValue, .insert⟩) = .ok crashed ∧
      crashed.toMemory =
        ⟨if primaryWritten k crashPoint then installed (fun _ => content) pos req.target
          else backupsInstalled content pos req.target,
        ⟨if oldValueLogged k crashPoint then content pos else staleValue, .insert⟩⟩ := by
  simp only [kvInsertWCrash, kvInsertBackupConsensus0Sync_free staleValue free]
  let cas : KVCASAddr := ⟨pos, content pos, req.target⟩
  let started : KVReqCtx k := .logged (fun _ => content) ⟨staleValue, .insert⟩
  have own : ∀ backup : Fin k, started.index backup.succ cas.position = cas.origValue ∨
      started.index backup.succ cas.position = cas.swapValue := fun _ => .inl rfl
  have written := casBackups_installed cas rfl own
  rcases Nat.eq_zero_or_pos k with rfl | backups
  · have half : (fun _ => content : IndexReplicas 0) =
        backupsInstalled content pos req.target := index_ext_of_single rfl
    cases crashPoint with
    | uncommittedBkConsensus0 => exact ⟨_, rfl, congrArg (Memory.mk · _) half⟩
    | uncommittedBkConsensus1 | committedPrCas | committedAllFinish =>
      refine ⟨_, rfl, congrArg (Memory.mk · _) (Eq.trans ?_ written)⟩
      exact index_ext_of_single rfl
  · have half : casBackups (k := k) cas (fun _ => some cas.origValue) (fun _ => content) =
        backupsInstalled content pos req.target := by
      funext replica
      refine Fin.cases rfl (fun backup => ?_) replica
      exact casSlot_of_eq rfl
    have won := modifyBackupIdxConsensus1Sync_unanimous opWord backups cas started own
    have notFinished : (modifyBackupIdx cas started).isFinished = false := rfl
    have start : startCas cas started = modifyBackupIdx cas started := if_neg backups.ne'
    have single : k ≠ 0 := backups.ne'
    simp only [cas, started] at won start notFinished
    rw [start, if_pos backups, kvInsertBackupConsensus1Sync, notFinished, if_neg Bool.false_ne_true,
      won]
    cases crashPoint with
    | uncommittedBkConsensus0 => exact ⟨_, rfl, congrArg (Memory.mk · _) half⟩
    | uncommittedBkConsensus1 | committedPrCas =>
      simp [primaryWritten, oldValueLogged, single]
      exact ⟨_, rfl, congrArg (Memory.mk · _) half⟩
    | committedAllFinish =>
      simp [primaryWritten, oldValueLogged, single]
      exact ⟨_, rfl, congrArg (Memory.mk · _) written⟩

end Crash

/-! ## Its recovery -/

def BoundOnceAt (req : Request) (index : IndexReplicas k) (pos : Position) : Prop :=
  (∀ replica, index replica pos = req.target) ∧
    ∀ replica other, req.Binds (index replica other) → other = pos

def InsertRecovered (req : Request) (result : Except Abort (KVReqCtx k)) : Prop :=
  ∃ recovered, result = .ok recovered ∧ ∃ pos, BoundOnceAt req recovered.index pos

def PrimaryHolds (req : Request) (memory : Memory k) : Prop :=
  ∃ pos, memory.index 0 pos = req.target

def InsertRecoverable (req : Request) (junk : Uninitialised) (content : Buckets)
    (memory : Memory k) : Prop :=
  k + 1 = req.numReplication ∧
  findEmptySlot content req.fMainIdx req.sMainIdx ≠ none ∧
  (logIsCommitted memory.tail → PrimaryHolds req memory ∨ 0 < k) ∧
  (¬ logIsCommitted memory.tail →
    junk.hasModifiedBkIdx = false ∧
    findEmptySlot (memory.index 0) req.fMainIdx req.sMainIdx ≠ none ∧
    (PrimaryHolds req memory ↔ k = 0 ∧ junk.consensusState = .fail))

section Recovery

variable {req : Request} {junk : Uninitialised} {content : Buckets}
variable {result : Except Abort (KVReqCtx k)}

theorem insertRecovered_iff :
    InsertRecovered req result ↔ ∃ index compared, outcome result = .ok (index, compared) ∧
      ∃ pos, BoundOnceAt req index pos := by
  cases result with
  | error abort => simp [InsertRecovered]
  | ok recovered => simp [InsertRecovered]

variable {index : IndexReplicas k}

theorem InsertRecovered.of_outcome {compared : Bool} {pos : Position}
    (returned : outcome result = .ok (index, compared)) (once : BoundOnceAt req index pos)
    : InsertRecovered req result :=
  insertRecovered_iff.mpr ⟨index, compared, returned, pos, once⟩

theorem not_insertRecovered_of_error {abort : Abort} (aborted : outcome result = .error abort) :
    ¬ InsertRecovered req result := by
  rw [insertRecovered_iff, aborted]
  simp

theorem not_insertRecovered_of_outcome {compared : Bool}
    (returned : outcome result = .ok (index, compared))
    (never : ∀ pos, ¬ BoundOnceAt req index pos) : ¬ InsertRecovered req result := by
  rw [insertRecovered_iff, returned]
  rintro ⟨_, _, ⟨⟩, pos, once⟩
  exact never pos once

variable {pos : Position}

section Absent

variable (absent : ∀ pos, ¬ req.Binds (content pos))
include absent

theorem ne_target_of_absent (other : Position) : content other ≠ req.target :=
  fun same => absent other (same ▸ req.binds_target)

theorem boundOnceAt_installed :
    BoundOnceAt req (installed (fun _ : Fin (k + 1) => content) pos req.target)
      pos := by
  constructor
  · intro replica
    exact update_self pos req.target content
  · intro replica other binds
    by_contra apart
    rw [installed, update_of_ne apart] at binds
    exact absent other binds

theorem matchingSlots_update :
    matchingSlots req.target (update content pos req.target) = [pos] := by
  rw [matchingSlots, ← filter_positions pos]
  refine List.filter_congr fun other _ => decide_eq_decide.mpr ?_
  by_cases same : other = pos
  · simp [same]
  · simp [same, ne_target_of_absent absent other]

theorem backupMatches_backupsInstalled :
    backupMatches req.target (backupsInstalled (k := k) content pos req.target) =
      List.replicate k pos := by
  have each : ∀ backup : Fin k, matchingSlots req.target
      (backupsInstalled (k := k) content pos req.target backup.succ) = [pos] :=
    fun _ => matchingSlots_update absent
  simp only [backupMatches, each]
  rw [← List.map_eq_flatMap, List.map_const', List.length_finRange]

end Absent

variable {memory : Memory k}

theorem insertRecoverable_of_committed (counts : k + 1 = req.numReplication)
    (found : findEmptySlot content req.fMainIdx req.sMainIdx ≠ none)
    (committed : logIsCommitted memory.tail) :
    InsertRecoverable req junk content memory ↔ PrimaryHolds req memory ∨ 0 < k := by
  simp [InsertRecoverable, counts, found, committed]

theorem insertRecoverable_of_uncommitted (counts : k + 1 = req.numReplication)
    (found : findEmptySlot content req.fMainIdx req.sMainIdx ≠ none)
    (uncommitted : logIsCommitted memory.tail = false) :
    InsertRecoverable req junk content memory ↔
      junk.hasModifiedBkIdx = false ∧
      findEmptySlot (memory.index 0) req.fMainIdx req.sMainIdx ≠ none ∧
      (PrimaryHolds req memory ↔ k = 0 ∧ junk.consensusState = .fail) := by
  simp [InsertRecoverable, counts, found, uncommitted]

/-! ### Crashes before the primary is written -/

section BeforePrimary

variable {memory : Memory k}
  (half : memory.index = backupsInstalled content pos req.target)
include half

theorem primary_half : memory.index 0 = content := by
  rw [half]
  rfl

theorem installed_half :
    installed memory.index pos req.target = installed (fun _ => content) pos req.target := by
  funext replica
  rw [half]
  refine Fin.cases rfl (fun backup => ?_) replica
  exact update_idem _ _ _

theorem update_half :
    update memory.index 0 (update (memory.index 0) pos req.target) =
      installed (fun _ => content) pos req.target := by
  funext replica
  rw [half]
  refine Fin.cases ?_ (fun backup => ?_) replica
  · exact update_self _ _ _
  · exact update_of_ne (Fin.succ_ne_zero backup) _ _

variable (absent : ∀ pos, ¬ req.Binds (content pos))
include absent

theorem not_primaryHolds_of_half : ¬ PrimaryHolds req memory := by
  rintro ⟨other, same⟩
  rw [primary_half half] at same
  exact ne_target_of_absent absent other same

variable (counts : k + 1 = req.numReplication)
include counts

/-- A committed entry is completed from the backups, if there are any. -/
theorem insertRecovered_half_committed (committed : logIsCommitted memory.tail) :
    InsertRecovered req (clientRecovery req junk memory) ↔ 0 < k := by
  have absentPrimary : ∀ other, memory.index 0 other ≠ req.target := by
    rw [primary_half half]
    exact ne_target_of_absent absent
  cases k with
  | zero =>
    exact iff_of_false
      (not_insertRecovered_of_error (outcome_committed_single counts committed absentPrimary))
      (Nat.lt_irrefl 0)
  | succ k =>
    have all : backupMatches req.target memory.index =
        pos :: List.replicate k pos := by
      rw [half, backupMatches_backupsInstalled absent, List.replicate_succ]
    have completed := outcome_committed_completed junk counts committed absentPrimary k.succ_pos
      (by rw [all]; simp) all
    rw [update_half half] at completed
    exact iff_of_true (.of_outcome completed (boundOnceAt_installed absent)) k.succ_pos

/-- An uncommitted entry is redone in the same slot, unless there are no
backups and the consensus state happens to be `KV_CONSENSUS_FAIL`. -/
theorem insertRecovered_half_uncommitted (insert : logIsInsert memory.tail)
    (uncommitted : logIsCommitted memory.tail = false) (unmodified : junk.hasModifiedBkIdx = false)
    (free : findEmptySlot content req.fMainIdx req.sMainIdx = some pos) :
    InsertRecovered req (clientRecovery req junk memory) ↔
      ¬ (k = 0 ∧ junk.consensusState = .fail) := by
  rw [← primary_half half] at free
  rcases Nat.eq_zero_or_pos k with single | backups
  · have redone := outcome_insert_single counts insert uncommitted unmodified free single
    by_cases failed : junk.consensusState = .fail
    · rw [if_pos failed] at redone
      refine iff_of_false (not_insertRecovered_of_outcome redone ?_) (not_not.mpr ⟨single, failed⟩)
      intro other once
      refine ne_target_of_absent absent other ?_
      rw [← primary_half half]
      exact once.1 0
    · rw [if_neg failed, installed_half half] at redone
      exact iff_of_true (.of_outcome redone (boundOnceAt_installed absent)) fun both => failed both.2
  · have own : ∀ backup : Fin k, memory.index backup.succ pos = memory.index 0 pos ∨
        memory.index backup.succ pos = req.target := by
      intro backup
      rw [half]
      exact .inr (update_self _ _ _)
    have redone := outcome_insert_backups counts insert uncommitted unmodified free backups own
    rw [installed_half half] at redone
    exact iff_of_true (.of_outcome redone (boundOnceAt_installed absent))
      fun both => backups.ne' both.1

end BeforePrimary

/-! ### Crashes after the primary is written -/

section AfterPrimary

variable {memory : Memory k}
  (complete : memory.index = installed (fun _ => content) pos req.target)
  (absent : ∀ pos, ¬ req.Binds (content pos))
  (counts : k + 1 = req.numReplication)
include complete

theorem primaryHolds_of_complete : PrimaryHolds req memory := by
  refine ⟨pos, ?_⟩
  rw [complete]
  exact update_self pos req.target content

include absent counts

theorem insertRecovered_complete_committed (committed : logIsCommitted memory.tail) :
    InsertRecovered req (clientRecovery req junk memory) := by
  have unchanged := outcome_committed_unchanged junk counts committed
    (.inl (primaryHolds_of_complete complete))
  rw [complete] at unchanged
  exact .of_outcome unchanged (boundOnceAt_installed absent)

/-- An uncommitted entry is redone in another slot, so that the key is bound
twice, unless there are no backups and the consensus state happens to be
`KV_CONSENSUS_FAIL`. -/
theorem insertRecovered_complete_uncommitted (insert : logIsInsert memory.tail)
    (uncommitted : logIsCommitted memory.tail = false)
    (unmodified : junk.hasModifiedBkIdx = false) {next : Position}
    (free : findEmptySlot (memory.index 0) req.fMainIdx req.sMainIdx = some next) :
    InsertRecovered req (clientRecovery req junk memory) ↔ k = 0 ∧ junk.consensusState = .fail := by
  have apart : pos ≠ next := by
    rintro rfl
    have taken : memory.index 0 pos = req.target := by
      rw [complete]
      exact update_self pos req.target content
    have empty := isFree_of_findEmptySlot free
    rw [taken] at empty
    exact req.not_binds_of_isFree empty req.binds_target
  have twice : ∀ other,
      ¬ BoundOnceAt req (installed memory.index next req.target) other := by
    intro other once
    have bindsNext : req.Binds (installed memory.index next req.target 0 next) := by
      rw [installed, update_self]
      exact req.binds_target
    have bindsFirst : req.Binds (installed memory.index next req.target 0 pos) := by
      rw [installed, update_of_ne apart, complete, installed, update_self]
      exact req.binds_target
    exact apart ((once.2 0 pos bindsFirst).trans (once.2 0 next bindsNext).symm)
  rcases Nat.eq_zero_or_pos k with single | backups
  · have redone := outcome_insert_single counts insert uncommitted unmodified free single
    by_cases failed : junk.consensusState = .fail
    · rw [if_pos failed, complete] at redone
      exact iff_of_true (.of_outcome redone (boundOnceAt_installed absent)) ⟨single, failed⟩
    · rw [if_neg failed] at redone
      exact iff_of_false (not_insertRecovered_of_outcome redone twice) fun both => failed both.2
  · have own : ∀ backup : Fin k, memory.index backup.succ next = memory.index 0 next ∨
        memory.index backup.succ next = req.target := by
      intro backup
      rw [complete]
      exact .inl rfl
    have redone := outcome_insert_backups counts insert uncommitted unmodified free backups own
    exact iff_of_false (not_insertRecovered_of_outcome redone twice) fun both => backups.ne' both.1

end AfterPrimary

theorem insertRecovered_iff_recoverable (absent : ∀ pos, ¬ req.Binds (content pos))
    (insert : logIsInsert memory.tail)
    (free : findEmptySlot content req.fMainIdx req.sMainIdx = some pos)
    (crashed : memory.index = backupsInstalled content pos req.target ∨ memory.index =
      installed (fun _ => content) pos req.target) :
    InsertRecovered req (clientRecovery req junk memory) ↔
      InsertRecoverable req junk content memory := by
  have found : findEmptySlot content req.fMainIdx req.sMainIdx ≠ none := by simp [free]
  by_cases counts : k + 1 = req.numReplication
  swap
  · exact iff_of_false (not_insertRecovered_of_error (outcome_replicaCounts counts))
      fun recoverable => counts recoverable.1
  cases committed : logIsCommitted memory.tail with
  | true =>
    rw [insertRecoverable_of_committed counts found committed]
    rcases crashed with half | complete
    · have unheld := not_primaryHolds_of_half half absent
      rw [insertRecovered_half_committed half absent counts committed]
      simp [unheld]
    · exact iff_of_true (insertRecovered_complete_committed complete absent counts committed)
        (.inl (primaryHolds_of_complete complete))
  | false =>
    rw [insertRecoverable_of_uncommitted counts found committed]
    cases modified : junk.hasModifiedBkIdx with
    | true =>
      exact iff_of_false (not_insertRecovered_of_error
        (outcome_insert_modified counts insert committed modified)) fun both => by simp at both
    | false =>
      rcases crashed with half | complete
      · have unheld := not_primaryHolds_of_half half absent
        rw [insertRecovered_half_uncommitted half absent counts insert committed modified free,
          primary_half half]
        simp [unheld, found]
      · have held := primaryHolds_of_complete complete
        cases next : findEmptySlot (memory.index 0) req.fMainIdx req.sMainIdx with
        | none =>
          exact iff_of_false (not_insertRecovered_of_error
            (outcome_insert_full counts insert committed modified next)) fun both => by simp at both
        | some next =>
          rw [insertRecovered_complete_uncommitted complete absent counts insert committed
            modified next]
          simp [held]

theorem not_insertRecovered_of_full (absent : ∀ pos, ¬ req.Binds (content pos))
    (insert : logIsInsert memory.tail)
    (full : findEmptySlot content req.fMainIdx req.sMainIdx = none)
    (untouched : memory.index = fun _ => content) :
    ¬ InsertRecovered req (clientRecovery req junk memory) := by
  have primary : memory.index 0 = content := by rw [untouched]
  have absentPrimary : ∀ other, memory.index 0 other ≠ req.target := by
    rw [primary]
    exact ne_target_of_absent absent
  by_cases counts : k + 1 = req.numReplication
  swap
  · exact not_insertRecovered_of_error (outcome_replicaCounts counts)
  cases committed : logIsCommitted memory.tail with
  | true =>
    cases k with
    | zero =>
      exact not_insertRecovered_of_error (outcome_committed_single counts committed absentPrimary)
    | succ k =>
      have noMatch : backupMatches req.target memory.index = [] := by
        refine List.flatMap_eq_nil_iff.mpr fun backup _ => matchingSlots_eq_nil_iff.mpr ?_
        rw [untouched]
        exact ne_target_of_absent absent
      have unchanged := outcome_committed_unchanged junk counts committed
        (.inr (by rw [noMatch]; exact k.succ_ne_zero.symm))
      exact not_insertRecovered_of_outcome unchanged fun other once =>
        absentPrimary other (once.1 0)
  | false =>
    cases modified : junk.hasModifiedBkIdx with
    | true =>
      exact not_insertRecovered_of_error (outcome_insert_modified counts insert committed modified)
    | false =>
      exact not_insertRecovered_of_error
        (outcome_insert_full counts insert committed modified (primary ▸ full))

end Recovery

/-- Crash recovery of an insert: an insert of an absent key is recovered from
exactly the states that are `InsertRecoverable`. -/
theorem insert_recovered_iff (req : Request) (junk : Uninitialised) (opWord staleValue : UInt64)
    (content : Buckets) (absent : ∀ pos, ¬ req.Binds (content pos)) (crashPoint : KVCrashPoint) :
    ∃ crashed : KVReqCtx k,
      kvInsertWCrash req opWord crashPoint
        (.logged (fun _ => content) ⟨staleValue, .insert⟩) = .ok crashed ∧
      (InsertRecovered req (clientRecovery req junk crashed.toMemory) ↔
        InsertRecoverable req junk content crashed.toMemory) := by
  cases free : findEmptySlot content req.fMainIdx req.sMainIdx with
  | none =>
    obtain ⟨crashed, ran, left⟩ :=  kvInsertWCrash_full (k := k) opWord staleValue free crashPoint
    refine ⟨crashed, ran, iff_of_false ?_ fun recoverable => recoverable.2.1 free⟩
    rw [left]
    exact not_insertRecovered_of_full absent rfl free rfl
  | some pos =>
    obtain ⟨crashed, ran, left⟩ :=  kvInsertWCrash_free (k := k) opWord staleValue free crashPoint
    refine ⟨crashed, ran, ?_⟩
    rw [left]
    refine insertRecovered_iff_recoverable absent rfl free ?_
    cases primaryWritten k crashPoint
    · exact .inl rfl
    · exact .inr rfl

theorem insert_recovered_iff_empty :
    (∀ pos : Position, ¬ (sampleRequest 2).Binds ((fun _ => 0 : Buckets) pos)) ∧
    ∃ crashed : KVReqCtx 1,
      kvInsertWCrash (sampleRequest 2) 0 .committedPrCas (.logged (fun _ _ => 0) ⟨0, .insert⟩) =
        .ok crashed ∧
      InsertRecovered (sampleRequest 2) (clientRecovery (sampleRequest 2) zeroed crashed.toMemory) := by
  have empty : ¬ (sampleRequest 2).Binds 0 := by decide
  obtain ⟨crashed, ran, recovered⟩ :=
    insert_recovered_iff (k := 1) (sampleRequest 2) zeroed 0 0 (fun _ => 0) (fun _ => empty)
      .committedPrCas
  refine ⟨fun _ => empty, crashed, ran, recovered.mpr ?_⟩
  obtain rfl := Except.ok.inj ran
  refine ⟨rfl, by decide, fun committed => absurd committed (by decide), fun _ => ⟨rfl, by decide, ?_⟩⟩
  refine iff_of_false ?_ (by decide)
  rintro ⟨_, held⟩
  have unequal : (0 : UInt64) ≠ (sampleRequest 2).target := by decide
  exact unequal held

/-- An insert into an empty index that was complete is done again in another
slot: its logged old value is that of an empty slot, which is zero. -/
theorem complete_insert_done_twice :
    ∃ crashed : KVReqCtx 1,
      kvInsertWCrash (sampleRequest 2) 0 .committedAllFinish (.logged (fun _ _ => 0) ⟨0, .insert⟩) =
        .ok crashed ∧
      ¬ InsertRecovered (sampleRequest 2)
        (clientRecovery (sampleRequest 2) zeroed crashed.toMemory) := by
  obtain ⟨crashed, ran⟩ : ∃ crashed : KVReqCtx 1, kvInsertWCrash (sampleRequest 2) 0
      .committedAllFinish (.logged (fun _ _ => 0) ⟨0, .insert⟩) = .ok crashed := ⟨_, rfl⟩
  refine ⟨crashed, ran, ?_⟩
  have words : (clientRecovery (sampleRequest 2) zeroed crashed.toMemory).map
      (fun ctx => (ctx.index 0 (1, 6), ctx.index 0 (3, 6))) =
        .ok ((sampleRequest 2).target, (sampleRequest 2).target) := by
    obtain rfl := Except.ok.inj ran
    decide
  rintro ⟨_, returned, _, once⟩
  rw [returned] at words
  obtain ⟨first, second⟩ := Prod.mk.inj (Except.ok.inj words)
  have binds := (sampleRequest 2).binds_target
  have same := (once.2 0 (1, 6) (first ▸ binds)).trans (once.2 0 (3, 6) (second ▸ binds)).symm
  exact absurd same (by decide)

end FuseeFs.Recovery
