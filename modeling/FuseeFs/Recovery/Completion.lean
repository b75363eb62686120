import FuseeFs.Recovery.Update

/-!
# Completing a committed update

A client that crashes after it has committed its log entry has already swapped
the backups.  Recovery has to swap the primary in just this case, which
`check_recover_need_cas_pr` recognises by counting the slots of all backups that
hold the logged word.
-/

namespace FuseeFs.Recovery

open Function Index Replication

section Completion

variable {k : ℕ}

def committedUpdateTail (oldValue : { word : UInt64 // word ≠ 0 }) : KVLogTail where
  oldValue := oldValue
  op := .update

def LacksPrimary (req : Request) (index : IndexReplicas k) : Prop :=
  (∀ backup : Fin k, ∃ pos, index backup.succ pos = req.target) ∧ ∀ pos, index 0 pos ≠ req.target

def committedNeedCasPr (req : Request) (junk : Uninitialised) (memory : Memory k) :
    Bool :=
  (checkRecoverNeedCasPr req (bucketsRead junk memory)).committedNeedCasPr

/-- The replay returned, and the primary holds the logged word where all backups
hold it. -/
def PrimaryCompleted (req : Request) (index : IndexReplicas k)
    (result : Except Abort (KVReqCtx k)) : Prop :=
  ∃ recovered, result = .ok recovered ∧
    ∃ pos, (∀ backup : Fin k, index backup.succ pos = req.target) ∧
      recovered.index 0 pos = req.target

/-- The check finds out whether the primary lacks the logged word, and if it
does the replay completes the update. -/
def Completes (req : Request) (junk : Uninitialised) (memory : Memory k) : Prop :=
  (committedNeedCasPr req junk memory = true ↔ LacksPrimary req memory.index) ∧
    (LacksPrimary req memory.index →
      PrimaryCompleted req memory.index
        (kvRecoverUpdate req junk (initRecoverReqCtx junk memory)))

def HeldInOneSlot (req : Request) (index : IndexReplicas k) : Prop :=
  ∃ pos, ∀ backup : Fin k, matchingSlots req.target (index backup.succ) = [pos]

def CanComplete (req : Request) (index : IndexReplicas k) : Prop :=
  (∃ pos, index 0 pos = req.target) ∨
    (k + 1 = req.numReplication ∧ HeldInOneSlot req index) ∨
    ((∃ backup : Fin k, ∀ pos, index backup.succ pos ≠ req.target) ∧
      backupCopies req.target index ≠ req.numReplication - 1)

variable {req : Request} {junk : Uninitialised} {memory : Memory k}
  {index : IndexReplicas k}
variable {pos : Position}

theorem committedNeedCasPr_of_present (present : memory.index 0 pos = req.target) :
    committedNeedCasPr req junk memory = false := by
  rw [committedNeedCasPr, checkRecoverNeedCasPr_of_present (bucketsRead junk memory) present]

theorem committedNeedCasPr_of_absent (absent : ∀ pos, memory.index 0 pos ≠ req.target) :
    committedNeedCasPr req junk memory = true ↔
      backupCopies req.target memory.index = req.numReplication - 1 := by
  rw [committedNeedCasPr,
    checkRecoverNeedCasPr_of_absent (bucketsRead junk memory) absent,
    ← length_backupMatches]
  exact decide_eq_true_iff

theorem length_matchingSlots (target : UInt64) (buckets : Buckets) :
    (matchingSlots target buckets).length = positions.countP fun pos => buckets pos = target := by
  rw [matchingSlots, List.countP_eq_length_filter]

theorem mem_matchingSlots {target : UInt64} {buckets : Buckets} :
    pos ∈ matchingSlots target buckets ↔ buckets pos = target := by
  simp [matchingSlots]

theorem backupCopies_eq_sum (target : UInt64) (index : IndexReplicas k) :
    backupCopies target index =
      ∑ backup : Fin k, (matchingSlots target (index backup.succ)).length := by
  simp [backupCopies, length_matchingSlots]

theorem HeldInOneSlot.backupCopies_eq (held : HeldInOneSlot req index) :
    backupCopies req.target index = k := by
  obtain ⟨_, slots⟩ := held
  simp [backupCopies_eq_sum, slots]

/-- If all backups hold the word and there are only as many copies, every backup
has one. -/
theorem exists_matchingSlots_eq (all : ∀ backup : Fin k, ∃ pos, index backup.succ pos = req.target)
    (copies : backupCopies req.target index = k) (backup : Fin k) :
    ∃ pos, matchingSlots req.target (index backup.succ) = [pos] := by
  have atLeast : ∀ other ∈ Finset.univ,
      1 ≤ (matchingSlots req.target (index (Fin.succ other))).length := by
    intro other _
    obtain ⟨_, held⟩ := all other
    exact List.length_pos_of_mem (mem_matchingSlots.mpr held)
  have total : ∑ _other : Fin k, 1 =
      ∑ other : Fin k, (matchingSlots req.target (index other.succ)).length := by
    rw [← backupCopies_eq_sum, copies]
    simp
  have single := (Finset.sum_eq_sum_iff_of_le atLeast).mp total backup (Finset.mem_univ backup)
  exact List.length_eq_one_iff.mp single.symm

theorem exists_of_outcome {result : Except Abort (KVReqCtx k)} {unread : Bool}
    (returned : outcome result = .ok (index, unread)) :
    ∃ recovered, result = .ok recovered ∧ recovered.index = index := by
  cases result with
  | error abort => cases returned
  | ok recovered =>
    rw [outcome_ok] at returned
    exact ⟨recovered, rfl, congrArg Prod.fst (Except.ok.inj returned)⟩

theorem heldInOneSlot_of_common
    (common : ∀ backup : Fin k, index backup.succ pos = req.target)
    (copies : backupCopies req.target index = k) : HeldInOneSlot req index := by
  refine ⟨pos, fun backup => ?_⟩
  obtain ⟨_, single⟩ := exists_matchingSlots_eq (fun other => ⟨pos, common other⟩) copies backup
  have mem : pos ∈ matchingSlots req.target (index backup.succ) :=
    mem_matchingSlots.mpr (common backup)
  rw [single, List.mem_singleton] at mem
  rw [single, mem]

section Committed

variable {index : IndexReplicas (k + 1)} {oldValue : { word : UInt64 // word ≠ 0 }}

theorem clientRecovery_committedUpdate :
    kvRecoverUpdate req junk
        (initRecoverReqCtx junk ⟨index, committedUpdateTail oldValue⟩) =
      clientRecovery req junk ⟨index, committedUpdateTail oldValue⟩ :=
  rfl

theorem logIsCommitted_committedUpdateTail (oldValue : { word : UInt64 // word ≠ 0 }) :
    logIsCommitted (committedUpdateTail oldValue) = true :=
  decide_eq_true oldValue.2

/-- A word in one slot of every backup gets into that slot of the primary. -/
theorem primaryCompleted_of_heldInOneSlot (counts : k + 1 + 1 = req.numReplication)
    (absent : ∀ pos, index 0 pos ≠ req.target) (held : HeldInOneSlot req index) :
    PrimaryCompleted req index (kvRecoverUpdate req junk
      (initRecoverReqCtx junk ⟨index, committedUpdateTail oldValue⟩)) := by
  have all : (backupMatches req.target index).length = k + 1 := by
    rw [length_backupMatches, held.backupCopies_eq]
  obtain ⟨pos, slots⟩ := held
  obtain ⟨rest, found⟩ : ∃ rest, backupMatches req.target index = pos :: rest := by
    rw [backupMatches, List.finRange_succ, List.flatMap_cons, slots 0]
    exact ⟨_, rfl⟩
  have completed : outcome (clientRecovery req junk
      ⟨index, committedUpdateTail oldValue⟩) =
      .ok (update index 0 (update (index 0) pos req.target), false) :=
    outcome_committed_completed junk counts (logIsCommitted_committedUpdateTail oldValue)
      absent (Nat.succ_pos k) all found
  obtain ⟨recovered, returned, replaced⟩ := exists_of_outcome completed
  refine ⟨recovered, clientRecovery_committedUpdate.trans returned, pos, ?_, ?_⟩
  · intro backup
    rw [← mem_matchingSlots, slots backup]
    exact List.mem_singleton_self pos
  · simp [replaced]

theorem HeldInOneSlot.all (held : HeldInOneSlot req index) (backup : Fin (k + 1)) :
    ∃ pos, index backup.succ pos = req.target := by
  obtain ⟨pos, slots⟩ := held
  refine ⟨pos, ?_⟩
  rw [← mem_matchingSlots, slots backup]
  exact List.mem_singleton_self pos

theorem PrimaryCompleted.counts (completed : PrimaryCompleted req index
    (kvRecoverUpdate req junk (initRecoverReqCtx junk ⟨index, committedUpdateTail oldValue⟩))) :
    k + 1 + 1 = req.numReplication := by
  obtain ⟨_, returned, -⟩ := completed
  by_contra other
  have aborted : outcome (clientRecovery req junk
      ⟨index, committedUpdateTail oldValue⟩) = .error .replicaCounts := outcome_replicaCounts other
  rw [← clientRecovery_committedUpdate, returned] at aborted
  cases aborted

theorem completes_of_absent (absent : ∀ pos, index 0 pos ≠ req.target) :
    Completes req junk ⟨index, committedUpdateTail oldValue⟩ ↔
      (k + 1 + 1 = req.numReplication ∧ HeldInOneSlot req index) ∨
        ((∃ backup : Fin (k + 1), ∀ pos, index backup.succ pos ≠ req.target) ∧
          backupCopies req.target index ≠ req.numReplication - 1) := by
  have decision : committedNeedCasPr req junk ⟨index, committedUpdateTail oldValue⟩ =
      true ↔ backupCopies req.target index = req.numReplication - 1 :=
    committedNeedCasPr_of_absent absent
  rw [Completes, decision]
  by_cases all : ∀ backup : Fin (k + 1), ∃ pos, index backup.succ pos = req.target
  · have lacks : LacksPrimary req index := ⟨all, absent⟩
    constructor
    · rintro ⟨decides, completes⟩
      have completed := completes lacks
      have counts := completed.counts
      obtain ⟨-, -, pos, common, -⟩ := completed
      have copies : backupCopies req.target index = k + 1 := by
        rw [decides.mpr lacks, ← counts, Nat.add_sub_cancel]
      exact Or.inl ⟨counts, heldInOneSlot_of_common common copies⟩
    · rintro (⟨counts, held⟩ | ⟨⟨backup, missing⟩, -⟩)
      · have copies : backupCopies req.target index = req.numReplication - 1 := by
          rw [held.backupCopies_eq, ← counts, Nat.add_sub_cancel]
        exact ⟨iff_of_true copies lacks,
          fun _ => primaryCompleted_of_heldInOneSlot counts absent held⟩
      · obtain ⟨pos, held⟩ := all backup
        exact absurd held (missing pos)
  · have complete : ¬ LacksPrimary req index := fun lacks => all lacks.1
    have missing : ∃ backup : Fin (k + 1), ∀ pos,
        index backup.succ pos ≠ req.target := by
      push Not at all
      exact all
    constructor
    · rintro ⟨decides, -⟩
      exact Or.inr ⟨missing, fun copies => complete (decides.mp copies)⟩
    · rintro (⟨-, held⟩ | ⟨-, copies⟩)
      · exact absurd held.all all
      · exact ⟨iff_of_false copies complete, fun lacks => absurd lacks complete⟩

/-- For every number of replicas above one and every content of the index, a
committed update is completed in exactly the states that are `CanComplete`. -/
theorem completes_iff (req : Request) (junk : Uninitialised)
    (index : IndexReplicas (k + 1)) (oldValue : { word : UInt64 // word ≠ 0 }) :
    Completes req junk ⟨index, committedUpdateTail oldValue⟩ ↔ CanComplete req index := by
  by_cases present : ∃ pos, index 0 pos = req.target
  · obtain ⟨pos, held⟩ := present
    have complete : ¬ LacksPrimary req index := fun lacks => lacks.2 pos held
    have decision : committedNeedCasPr req junk
        ⟨index, committedUpdateTail oldValue⟩ = false := committedNeedCasPr_of_present held
    refine iff_of_true ⟨?_, fun lacks => absurd lacks complete⟩ (Or.inl ⟨pos, held⟩)
    rw [decision]
    exact iff_of_false (by simp) complete
  · have absent : ∀ pos, index 0 pos ≠ req.target := not_exists.mp present
    rw [completes_of_absent absent, CanComplete, or_iff_right present]

end Committed

def sampleOldValue : { word : UInt64 // word ≠ 0 } :=
  ⟨1, by decide⟩

/-- With more data replicas than index replicas, the only backup holds the word
and the count is still too low. -/
theorem not_completes_three_data_replicas :
    ¬ Completes (sampleRequest 3) zeroed
      ⟨fun replica : Fin 2 =>
          if replica = 0 then fun _ => 0
          else update (fun _ => 0) (0, 0) (sampleRequest 3).target,
        committedUpdateTail sampleOldValue⟩ := by
  rintro ⟨decides, -⟩
  have undecided : committedNeedCasPr (sampleRequest 3) zeroed
      ⟨fun replica : Fin 2 =>
          if replica = 0 then fun _ => 0
          else update (fun _ => 0) (0, 0) (sampleRequest 3).target,
        committedUpdateTail sampleOldValue⟩ = false := by decide +kernel
  rw [undecided] at decides
  refine absurd (decides.mpr ⟨fun backup => ⟨(0, 0), ?_⟩, fun pos => ?_⟩) (by simp)
  · simp
  · have word : (sampleRequest 3).target ≠ 0 := by decide +kernel
    simpa using word.symm

end Completion

end FuseeFs.Recovery
