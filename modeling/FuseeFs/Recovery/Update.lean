import FuseeFs.Recovery.Outcomes

/-!
# Recovery after a finished update

An update that has returned should not be replayed.  Recovery leaves it alone if
its entry is committed; but with one index replica no entry is ever committed,
and an asynchronous update that has lost the vote does not commit its entry
either.
-/

namespace FuseeFs.Recovery

open Index Replication

variable {k : ℕ}

/-- The tail of the log entry of an update that has returned success, as
`kv_update` and, where `sync` holds, `kv_update_sync` leave it.  A client that has lost
the vote marks its entry as finished; only the synchronous variant still
commits it. -/
def finishedUpdateTail (k : ℕ) (sync won : Bool) (staleValue origValue : UInt64) : KVLogTail where
  op := if k = 0 ∨ won then .update else .finish
  oldValue := if 0 < k ∧ (won ∨ sync) then origValue else staleValue

theorem not_logIsInsert_finishedUpdateTail (sync won : Bool) (staleValue origValue : UInt64) :
    ¬ logIsInsert (finishedUpdateTail k sync won staleValue origValue) := by
  unfold logIsInsert finishedUpdateTail
  split_ifs <;> simp

/-- The recovery returned, changed no slot of any replica, and compared no key
with a buffer it had not read. -/
def LeftAlone (index : IndexReplicas k) (result : Except Abort (KVReqCtx k)) : Prop :=
  ∃ recovered, result = .ok recovered ∧ recovered.index = index ∧ recovered.comparedUnread = false

def backupCopies (target : UInt64) (index : IndexReplicas k) : ℕ :=
  ∑ backup : Fin k, (positions.countP fun pos => index backup.succ pos = target)

def UpdateLeftAlone (req : Request) (junk : Uninitialised) (memory : Memory k) : Prop :=
  k + 1 = req.numReplication ∧
  (logIsCommitted memory.tail →
    (∃ pos, memory.index 0 pos = req.target) ∨ backupCopies req.target memory.index ≠ k) ∧
  (¬ logIsCommitted memory.tail →
    k = 0 ∧ junk.consensusState = .fail ∧ ownAddress req (memory.index 0) = false)

theorem length_backupMatches (target : UInt64) (index : IndexReplicas k) :
    (backupMatches target index).length = backupCopies target index := by
  simp [backupMatches, backupCopies, matchingSlots, List.length_flatMap, Fin.sum_univ_def,
    List.countP_eq_length_filter]

theorem leftAlone_iff {index : IndexReplicas k} {result : Except Abort (KVReqCtx k)} :
    LeftAlone index result ↔ outcome result = .ok (index, false) := by
  cases result with
  | error abort => simp [LeftAlone]
  | ok recovered => simp [LeftAlone]

section Memory

variable {req : Request} {junk : Uninitialised} {memory : Memory k}
  (counts : k + 1 = req.numReplication)
include counts

theorem leftAlone_committed (committed : logIsCommitted memory.tail) :
    LeftAlone memory.index (clientRecovery req junk memory) ↔
      (∃ pos, memory.index 0 pos = req.target) ∨ backupCopies req.target memory.index ≠ k := by
  rw [leftAlone_iff, ← length_backupMatches]
  by_cases unneeded : (∃ pos, memory.index 0 pos = req.target) ∨
      (backupMatches req.target memory.index).length ≠ k
  · exact iff_of_true (outcome_committed_unchanged junk counts committed unneeded) unneeded
  · refine iff_of_false ?_ unneeded
    push Not at unneeded
    obtain ⟨absent, all⟩ := unneeded
    cases found : backupMatches req.target memory.index with
    | nil =>
      rw [found] at all
      subst all
      rw [outcome_committed_single counts committed absent]
      rintro ⟨⟩
    | cons pos rest =>
      have backups : 0 < k := by
        rw [← all, found]
        simp
      rw [outcome_committed_completed junk counts committed absent backups all found]
      intro same
      -- the primary now holds the logged value, which it did not before
      have primary := congrFun (congrArg (fun pair => pair.1 0) (Except.ok.inj same)) pos
      simp only [Function.update_self] at primary
      exact absent pos primary.symm

theorem leftAlone_uncommitted (update : ¬ logIsInsert memory.tail)
    (uncommitted : logIsCommitted memory.tail = false) :
    LeftAlone memory.index (clientRecovery req junk memory) ↔
      k = 0 ∧ junk.consensusState = .fail ∧ ownAddress req (memory.index 0) = false := by
  rw [leftAlone_iff]
  by_cases idle : k = 0 ∧ junk.consensusState = .fail
  · rw [outcome_update_unchanged uncommitted counts update idle.1 idle.2]
    simp [idle]
  · have proceeds : 0 < k ∨ junk.consensusState ≠ .fail := by
      by_contra neither
      push Not at neither
      exact idle ⟨by omega, neither.2⟩
    refine iff_of_false (fun returned => ?_) fun alone => idle ⟨alone.1, alone.2.1⟩
    obtain ⟨_, installed, changed⟩ :=
      outcome_update_installed uncommitted counts update proceeds returned
    exact changed rfl installed

omit counts in
theorem leftAlone_iff_updateLeftAlone (update : ¬ logIsInsert memory.tail) :
    LeftAlone memory.index (clientRecovery req junk memory) ↔ UpdateLeftAlone req junk memory := by
  by_cases counts : k + 1 = req.numReplication
  swap
  · rw [leftAlone_iff, outcome_replicaCounts counts]
    exact iff_of_false (by rintro ⟨⟩) fun alone => counts alone.1
  cases committed : logIsCommitted memory.tail with
  | true => simp [UpdateLeftAlone, counts, committed, leftAlone_committed counts committed]
  | false => simp [UpdateLeftAlone, counts, committed, leftAlone_uncommitted counts update committed]

end Memory

/-- Recovery and finished updates: for any content of the index, an update that
has returned is left alone in exactly the states that are `UpdateLeftAlone`. -/
theorem finished_update_left_alone_iff (req : Request) (junk : Uninitialised)
    (index : IndexReplicas k) (sync won : Bool) (staleValue origValue : UInt64) :
    LeftAlone index (clientRecovery req junk
        ⟨index, finishedUpdateTail k sync won staleValue origValue⟩) ↔
      UpdateLeftAlone req junk
        ⟨index, finishedUpdateTail k sync won staleValue origValue⟩ :=
  leftAlone_iff_updateLeftAlone
    (not_logIsInsert_finishedUpdateTail sync won staleValue origValue)

/-- With one index replica a finished update is replayed over the newer value
that another client has installed since. -/
theorem finished_update_replayed :
    let initial : Buckets := Function.update (fun _ => 0) (0, 0) (fillSlot (sampleAlloc 2) 1)
    let updated := casSlot initial (0, 0) (fillSlot (sampleAlloc 2) 1) (sampleRequest 1).target
    let newer := casSlot updated (0, 0) (sampleRequest 1).target (fillSlot (sampleAlloc 4) 1)
    ¬ LeftAlone (fun _ : Fin 1 => newer) (clientRecovery (sampleRequest 1) zeroed
      ⟨fun _ => newer, finishedUpdateTail 0 true true 0 (fillSlot (sampleAlloc 2) 1)⟩) := by
  intro initial updated newer
  have word : (clientRecovery (sampleRequest 1) zeroed
      ⟨fun _ : Fin 1 => newer, finishedUpdateTail 0 true true 0 (fillSlot (sampleAlloc 2) 1)⟩).map
        (fun ctx => ctx.index 0 (0, 0)) = .ok (sampleRequest 1).target := by decide
  rintro ⟨_, returned, unchanged, -⟩
  rw [returned] at word
  have kept : newer (0, 0) = (sampleRequest 1).target :=
    (congrFun (congrFun unchanged.symm 0) (0, 0)).trans (Except.ok.inj word)
  exact absurd kept (by decide)

end FuseeFs.Recovery
