import FuseeFs.Replication.Steps

/-!
# Inserts that choose the same empty slot

`modify_backup_idx_consensus_1` lets an insert that lost the vote return
`KV_OPS_SUCCESS`, as it does for an update, where losing to a newer value is
harmless.  It gets there when it reads the primary again, to decide the vote or to
wait for the winner, and finds another value than before.  As long as no insert
does, the ones that return success are installed; the losers are still waiting.
-/

namespace FuseeFs.Replication

open Library

variable {k : ℕ}

namespace SlotSystem

variable {s : SlotSystem k} {outcome : KVConsensusState}

def InsertsOnly (_ : SlotSystem k) : SlotEvent k → Prop
  | .start reqType _ _ _ => reqType = .insert
  | .act _ _ => True

def Empty (s : SlotSystem k) : Prop :=
  s = initial k 0

/-- An insert that reads the primary again finds the value that it has found before;
the loop of `kv_insert_sync` looks for it in the buffer `op_laddr`. -/
def FindsExpected (s : SlotSystem k) : SlotEvent k → Prop
  | .act op .readPrimary => ∀ ctx ∈ s.ops[op]?, s.primary = ctx.origValue
  | .act op .waitPrimary => ∀ ctx ∈ s.ops[op]?, ctx.loopValue s.primary = ctx.origValue
  | _ => True

instance (s : SlotSystem k) : (event : SlotEvent k) → Decidable (s.InsertsOnly event)
  | .start _ _ _ _ => inferInstanceAs (Decidable (_ = _))
  | .act _ _ => inferInstanceAs (Decidable True)

instance (s : SlotSystem k) : (event : SlotEvent k) → Decidable (s.FindsExpected event)
  | .act op .readPrimary | .act op .waitPrimary =>
    inferInstanceAs (Decidable (∀ ctx ∈ s.ops[op]?, _))
  | .start _ _ _ _ | .act _ (.casBackup0 _) | .act _ .checkConsensus | .act _ (.casBackup1 _)
    | .act _ .checkSecondRound | .act _ .commitLog | .act _ .casPrimary => inferInstanceAs (Decidable True)

/-- The request's value was at the primary at some moment after it began. -/
def Installed (s : SlotSystem k) (ctx : KVReqCtx k) : Prop :=
  ∃ version ≤ s.version, ctx.version < version ∧ s.history version = ctx.swapValue

instance (s : SlotSystem k) (ctx : KVReqCtx k) : Decidable (s.Installed ctx) :=
  inferInstanceAs (Decidable (∃ version ≤ s.version, _))

/-- What holds of every insert while the primary is found unchanged: one that has
lost the vote waits. -/
structure InsertOk (s : SlotSystem k) (ctx : KVReqCtx k) : Prop where
  isInsert : ctx.reqType = .insert
  version_le : ctx.version ≤ s.version
  not_finish : ctx.consensusState ≠ .finish
  waits : ctx.consensusState = .fail → ctx.phase = .waitPrimary
  done : ctx.phase = .finished → ctx.retCode = .success ∧ s.Installed ctx ∨ ctx.retCode = .failRedo

variable {after : SlotSystem k} {ctx : KVReqCtx k}

theorem InsertOk.mono (ok : s.InsertOk ctx) (later : s.version ≤ after.version)
    (history : ∀ version ≤ s.version, after.history version = s.history version) :
    after.InsertOk ctx :=
  { ok with
    version_le := ok.version_le.trans later
    done := fun phase => (ok.done phase).imp_left fun ⟨returned, version, bound, started, held⟩ =>
      ⟨returned, version, bound.trans later, started, (history version bound).trans held⟩ }

variable {entry : KVReqCtx k}

theorem InsertOk.running (ok : s.InsertOk ctx) (same : ctx.SameRequest entry)
    (later : s.version ≤ after.version) (notFinish : entry.consensusState ≠ .finish)
    (waits : entry.consensusState = .fail → entry.phase = .waitPrimary)
    (phase : entry.phase ≠ .finished) : after.InsertOk entry where
  isInsert := same.reqType.trans ok.isInsert
  version_le := same.version ▸ ok.version_le.trans later
  not_finish := notFinish
  waits := waits
  done := fun finished => absurd finished phase

theorem InsertOk.not_fail (ok : s.InsertOk ctx) (phase : ctx.phase ≠ .waitPrimary) :
    ctx.consensusState ≠ .fail :=
  fun lost => phase (ok.waits lost)

theorem InsertOk.modifyBackupIdxConsensus1 (ok : s.InsertOk ctx)
    (same : ctx.SameRequest (entry.modifyBackupIdxConsensus1 outcome))
    (notFinish : outcome ≠ .finish) : s.InsertOk (entry.modifyBackupIdxConsensus1 outcome) := by
  refine ok.running same le_rfl ?_ ?_ ?_
  · rwa [KVReqCtx.modifyBackupIdxConsensus1_consensusState]
  · rw [KVReqCtx.modifyBackupIdxConsensus1_consensusState]
    rintro rfl
    rfl
  · cases outcome with
    | finish => exact absurd rfl notFinish
    | winAll =>
      rw [KVReqCtx.modifyBackupIdxConsensus1, KVReqCtx.enterCommitLog_of_running _ rfl]
      simp
    | fail | winMajor | winLittle | non => simp [KVReqCtx.modifyBackupIdxConsensus1]

theorem InsertOk.goesOn (ok : s.InsertOk ctx) (same : ctx.SameRequest entry)
    (later : s.version ≤ after.version)
    (state : entry.consensusState = ctx.consensusState ∨ entry.consensusState = .winAll)
    (before : ctx.phase ≠ .waitPrimary) (phase : entry.phase ≠ .finished) :
    after.InsertOk entry := by
  have notFail := ok.not_fail before
  refine ok.running same later ?_ (fun lost => ?_) phase
  · rcases state with state | state
    · exact state ▸ ok.not_finish
    · simp [state]
  · rcases state with state | state
    · exact absurd (state ▸ lost) notFail
    · simp [state] at lost

theorem InsertOk.casPrimary (ok : s.InsertOk ctx) (phase : ctx.phase = .casPrimary) :
    (s.casPrimary ctx.origValue ctx.swapValue).InsertOk (ctx.finishCasPrimary s.primary) := by
  have notFail := ok.not_fail (by simp [phase])
  by_cases same : s.primary = ctx.origValue
  · rw [casPrimary_of_eq _ same, KVReqCtx.finishCasPrimary, if_pos same]
    refine
      { ok with
        version_le := ok.version_le.trans (Nat.le_succ _)
        waits := fun lost => absurd lost notFail
        done := fun _ => .inl ⟨rfl, s.version + 1, le_rfl, Nat.lt_succ_of_le ok.version_le, ?_⟩ }
    exact Function.update_self ..
  · rw [casPrimary_of_ne _ same, KVReqCtx.finishCasPrimary, if_neg same]
    split_ifs with exits isInsert
    · exact { ok with waits := fun lost => absurd lost notFail, done := by rintro ⟨⟩ }
    · exact { ok with waits := fun lost => absurd lost notFail, done := fun _ => .inr rfl }
    · exact absurd ok.isInsert isInsert

theorem insertOk_step {event : SlotEvent k} (inserts : ∀ ctx ∈ s.ops, s.InsertOk ctx)
    (permitted : s.InsertsOnly event ∧ s.FindsExpected event) (taken : s.step event = some after) :
    ∀ ctx ∈ after.ops, after.InsertOk ctx := by
  rcases step_cases taken with
    ⟨reqType, variant, swapValue, opBuffer, rfl, -, rfl⟩ | ⟨op, ctx, action, rfl, found, acted⟩
  · intro ctx member
    rcases List.mem_append.mp member with old | isNew
    · exact (inserts ctx old).mono le_rfl fun _ _ => rfl
    · rw [List.mem_singleton] at isNew
      subst isNew
      refine ⟨permitted.1, le_rfl, ?_, ?_, ?_⟩ <;> simp only [KVReqCtx.start] <;> split_ifs <;> simp
  · have ok := inserts ctx (List.mem_of_getElem? found)
    -- the other inserts are as before, and so is the past of the primary
    have others : ∀ {base : SlotSystem k} {entry : KVReqCtx k}, base.ops = s.ops →
        s.version ≤ base.version →
        (∀ version ≤ s.version, base.history version = s.history version) →
        base.InsertOk entry → ∀ req ∈ (base.setCtx op entry).ops,
          (base.setCtx op entry).InsertOk req := by
      intro base entry sameOps later history entryOk req member
      rcases List.mem_or_eq_of_mem_set member with old | rfl
      · exact (inserts req (sameOps ▸ old)).mono later history
      · exact entryOk.mono le_rfl fun _ _ => rfl
    cases acted with
    | casBackup0 phase member =>
      exact others (by simp) (by simp) (by simp)
        (ok.goesOn ⟨rfl, rfl, rfl, rfl, rfl⟩ (by simp) (.inl rfl) (by simp [phase]) (by rintro ⟨⟩))
    | checkConsensus phase =>
      exact others rfl le_rfl (fun _ _ => rfl) (ok.modifyBackupIdxConsensus1
        (KVReqCtx.sameRequest_modifyBackupIdxConsensus1 _ _).of_bk1CasList
        checkCasConsensus0_ne_finish)
    | readPrimary phase =>
      have unchanged : s.primary = ctx.origValue := permitted.2 ctx found
      refine others rfl le_rfl (fun _ _ => rfl) (ok.modifyBackupIdxConsensus1
        (ctx.sameRequest_modifyBackupIdxConsensus1 _) ?_)
      rw [checkPrimaryValue, if_neg (not_not.mpr unchanged)]
      split_ifs <;> simp
    | waitAgain => exact inserts
    | waitOver phase left => exact absurd (permitted.2 ctx found) left
    | casBackup1 phase req member =>
      exact others (by simp) (by simp) (by simp)
        (ok.goesOn ⟨rfl, rfl, rfl, rfl, rfl⟩ (by simp) (.inl rfl) (by simp [phase]) (by rintro ⟨⟩))
    | checkSecondRound phase =>
      rw [KVReqCtx.finishSecondRound_eq]
      exact others rfl le_rfl (fun _ _ => rfl)
        (ok.goesOn ⟨rfl, rfl, rfl, rfl, rfl⟩ le_rfl (.inr rfl) (by simp [phase]) (by rintro ⟨⟩))
    | commitLog phase =>
      rw [ctx.kvLogCommit_of_ne_fail (ok.not_fail (by simp [phase]))]
      exact others rfl le_rfl (fun _ _ => rfl)
        (ok.goesOn ⟨rfl, rfl, rfl, rfl, rfl⟩ le_rfl (.inl rfl) (by simp [phase]) (by rintro ⟨⟩))
    | casPrimary phase =>
      refine others ?_ ?_ ?_ (ok.casPrimary phase) <;> unfold SlotSystem.casPrimary <;> split_ifs
      · rfl
      · rfl
      · exact Nat.le_succ _
      · exact le_rfl
      · exact fun version bound => Function.update_of_ne (by omega) ..
      · exact fun _ _ => rfl

def racingInserts : List (SlotEvent 0) :=
  [.start .insert .async 1 0, .start .insert .async 2 0, .act 0 .casPrimary, .act 1 .casPrimary]

def waitingInsert : List (SlotEvent 2) :=
  [.start .insert .async 1 0, .start .insert .async 2 0, .act 0 (.casBackup0 1),
    .act 1 (.casBackup0 1), .act 0 (.casBackup0 0), .act 1 (.casBackup0 0), .act 1 .checkConsensus,
    .act 0 .checkConsensus, .act 1 .waitPrimary, .act 0 .commitLog, .act 0 .casPrimary]

def twoInserts : List (SlotEvent 1) :=
  [.start .insert .async 1 0, .start .insert .async 2 0,
    .act 0 (.casBackup0 0), .act 1 (.casBackup0 0), .act 0 .checkConsensus, .act 1 .checkConsensus,
    .act 0 .commitLog, .act 0 .casPrimary, .act 1 .waitPrimary]

end SlotSystem

end FuseeFs.Replication
