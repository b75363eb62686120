import FuseeFs.Replication.Protocol

/-!
# What one event can do

`ActSpec` lists the effects of an action once, with what the phase and the
replicas must have been.  The local functions of a request are reduced to the
phase in which they leave it.
-/

namespace FuseeFs.Replication

open List Option Library

variable {k : ℕ}

namespace KVReqCtx

variable (ctx : KVReqCtx k)

theorem enterCommitLog_of_running (running : ctx.isFinished = false) :
    ctx.enterCommitLog = { ctx with phase := .commitLog } := by
  have commits : ctx.skipsCommitLog = false := by
    unfold skipsCommitLog
    split <;> first | exact running | rfl
  simp [enterCommitLog, commits]

/-- A loser ends, except that the `_sync` update and delete go on to write a
commit record, and that a delete overtaken by another client goes on to the
primary. -/
theorem leaveAsLoser_eq :
    ∃ phase, ctx.leaveAsLoser =
        { ctx with isFinished := true, retCode := .success, phase := phase } ∧
      (phase = .finished ∨
        phase = .casPrimary ∧ ctx.reqType = .delete ∧ ctx.consensusState ≠ .fail ∨
        phase = .commitLog ∧ ctx.reqType ≠ .insert ∧ ctx.variant = .sync) := by
  unfold leaveAsLoser enterCommitLog enterCasPrimary
  cases ctx.reqType <;> cases ctx.variant <;> by_cases lost : ctx.consensusState = .fail <;>
    simp [skipsCommitLog, skipsCasPrimary, lost]

theorem kvLogCommit_of_ne_fail (decided : ctx.consensusState ≠ .fail) :
    ctx.kvLogCommit = { ctx with isFinished := false, phase := .casPrimary } := by
  unfold kvLogCommit enterCasPrimary skipsCasPrimary
  cases ctx.reqType <;> cases ctx.variant <;> simp [decided]

theorem kvLogCommit_of_fail (lost : ctx.consensusState = .fail) :
    ∃ retCode, ctx.kvLogCommit =
      { ctx with isFinished := false, retCode := retCode, phase := .finished } := by
  unfold kvLogCommit enterCasPrimary skipsCasPrimary
  cases ctx.reqType <;> cases ctx.variant <;> simp [lost]

theorem finishSecondRound_eq :
    ctx.finishSecondRound =
      { ctx with
        notConsistent := ctx.notConsistent || (ctx.variant = Variant.async && ctx.checkCasConsensus1)
        isFinished := false
        consensusState := .winAll
        phase := .commitLog } :=
  enterCommitLog_of_running _ rfl

structure SameRequest (ctx entry : KVReqCtx k) : Prop where
  reqType : entry.reqType = ctx.reqType
  variant : entry.variant = ctx.variant
  origValue : entry.origValue = ctx.origValue
  swapValue : entry.swapValue = ctx.swapValue
  version : entry.version = ctx.version

theorem SameRequest.of_bk1CasList {ctx entry : KVReqCtx k} {list : Fin k → Option UInt64}
    (same : SameRequest { ctx with bk1CasList := list } entry) : ctx.SameRequest entry :=
  ⟨same.reqType, same.variant, same.origValue, same.swapValue, same.version⟩

theorem leaveAsLoser_consensusState : ctx.leaveAsLoser.consensusState = ctx.consensusState := by
  obtain ⟨_, entryEq, -⟩ := ctx.leaveAsLoser_eq
  rw [entryEq]

theorem modifyBackupIdxConsensus1_consensusState (outcome : KVConsensusState) :
    (ctx.modifyBackupIdxConsensus1 outcome).consensusState = outcome := by
  cases outcome with
  | finish => exact leaveAsLoser_consensusState _
  | winAll => rw [modifyBackupIdxConsensus1, enterCommitLog_of_running _ rfl]
  | fail | winMajor | winLittle | non => rfl

theorem kvLogCommit_consensusState : ctx.kvLogCommit.consensusState = ctx.consensusState := by
  by_cases lost : ctx.consensusState = .fail
  · obtain ⟨_, entryEq⟩ := ctx.kvLogCommit_of_fail lost
    rw [entryEq]
  · rw [ctx.kvLogCommit_of_ne_fail lost]

theorem finishCasPrimary_consensusState (found : UInt64) :
    (ctx.finishCasPrimary found).consensusState = ctx.consensusState := by
  unfold finishCasPrimary
  split_ifs <;> rfl

theorem sameRequest_leaveAsLoser : ctx.SameRequest ctx.leaveAsLoser := by
  obtain ⟨_, entryEq, -⟩ := ctx.leaveAsLoser_eq
  rw [entryEq]
  exact ⟨rfl, rfl, rfl, rfl, rfl⟩

theorem sameRequest_modifyBackupIdxConsensus1 (outcome : KVConsensusState) :
    ctx.SameRequest (ctx.modifyBackupIdxConsensus1 outcome) := by
  cases outcome with
  | finish =>
    have same := sameRequest_leaveAsLoser { ctx with consensusState := .finish }
    exact ⟨same.reqType, same.variant, same.origValue, same.swapValue, same.version⟩
  | winAll =>
    rw [modifyBackupIdxConsensus1, enterCommitLog_of_running _ rfl]
    exact ⟨rfl, rfl, rfl, rfl, rfl⟩
  | fail | winMajor | winLittle | non => exact ⟨rfl, rfl, rfl, rfl, rfl⟩

theorem sameRequest_kvLogCommit : ctx.SameRequest ctx.kvLogCommit := by
  by_cases lost : ctx.consensusState = .fail
  · obtain ⟨_, entryEq⟩ := ctx.kvLogCommit_of_fail lost
    rw [entryEq]
    exact ⟨rfl, rfl, rfl, rfl, rfl⟩
  · rw [ctx.kvLogCommit_of_ne_fail lost]
    exact ⟨rfl, rfl, rfl, rfl, rfl⟩

theorem sameRequest_finishCasPrimary (found : UInt64) :
    ctx.SameRequest (ctx.finishCasPrimary found) := by
  unfold finishCasPrimary
  split_ifs <;> exact ⟨rfl, rfl, rfl, rfl, rfl⟩

end KVReqCtx

namespace SlotSystem

section CasBackup

variable (s : SlotSystem k) (backup : Fin k) (expected swap : UInt64)

@[simp]
theorem casBackup_ops : (s.casBackup backup expected swap).ops = s.ops := by
  unfold casBackup; split_ifs <;> rfl

@[simp]
theorem casBackup_version : (s.casBackup backup expected swap).version = s.version := by
  unfold casBackup; split_ifs <;> rfl

@[simp]
theorem casBackup_primary : (s.casBackup backup expected swap).primary = s.primary := by
  unfold casBackup; split_ifs <;> rfl

@[simp]
theorem casBackup_history : (s.casBackup backup expected swap).history = s.history := by
  unfold casBackup; split_ifs <;> rfl

@[simp]
theorem casBackup_backup :
    (s.casBackup backup expected swap).backup =
      if s.backup backup = expected then Function.update s.backup backup swap else s.backup := by
  unfold casBackup; split_ifs <;> rfl

end CasBackup

section CasPrimary

variable {s : SlotSystem k} {expected : UInt64} (swap : UInt64)

theorem casPrimary_of_eq (same : s.primary = expected) :
    s.casPrimary expected swap =
      { s with
        primary := swap
        history := Function.update s.history (s.version + 1) swap
        version := s.version + 1 } :=
  if_pos same

theorem casPrimary_of_ne (differs : s.primary ≠ expected) : s.casPrimary expected swap = s :=
  if_neg differs

end CasPrimary

/-- The effects of the actions of request `op`, found in state `ctx`. -/
inductive ActSpec (s : SlotSystem k) (op : ℕ) (ctx : KVReqCtx k) :
    Action k → SlotSystem k → Prop
  | casBackup0 {backup : Fin k} {pending : Finset (Fin k)}
      (phase : ctx.phase = .bkConsensus0 pending) (member : backup ∈ pending) :
      ActSpec s op ctx (.casBackup0 backup)
        ((s.casBackup backup ctx.origValue ctx.swapValue).setCtx op
          (ctx.returnBackup0 pending backup (s.backup backup)))
  | checkConsensus (phase : ctx.phase = .bkConsensus0 ∅) :
      ActSpec s op ctx .checkConsensus (s.setCtx op ctx.runCheckCasConsensus0)
  | readPrimary (phase : ctx.phase = .readPrimary) :
      ActSpec s op ctx .readPrimary (s.setCtx op (ctx.runCheckPrimaryValue s.primary))
  | waitAgain (phase : ctx.phase = .waitPrimary)
      (unchanged : ctx.loopValue s.primary = ctx.origValue) : ActSpec s op ctx .waitPrimary s
  | waitOver (phase : ctx.phase = .waitPrimary)
      (changed : ctx.loopValue s.primary ≠ ctx.origValue) :
      ActSpec s op ctx .waitPrimary (s.setCtx op ctx.leaveAsLoser)
  | casBackup1 {backup : Fin k} {pending : Finset (Fin k)} {expected : UInt64}
      (phase : ctx.phase = .bkConsensus1 pending)
      (req : ctx.bk1CasList backup = some expected) (member : backup ∈ pending) :
      ActSpec s op ctx (.casBackup1 backup)
        ((s.casBackup backup expected ctx.swapValue).setCtx op
          (ctx.returnBackup1 pending backup (s.backup backup)))
  | checkSecondRound (phase : ctx.phase = .bkConsensus1 ∅) :
      ActSpec s op ctx .checkSecondRound (s.setCtx op ctx.finishSecondRound)
  | commitLog (phase : ctx.phase = .commitLog) :
      ActSpec s op ctx .commitLog (s.setCtx op ctx.kvLogCommit)
  | casPrimary (phase : ctx.phase = .casPrimary) :
      ActSpec s op ctx .casPrimary
        ((s.casPrimary ctx.origValue ctx.swapValue).setCtx op (ctx.finishCasPrimary s.primary))

variable {s after : SlotSystem k}

theorem act_spec {op : ℕ} {ctx : KVReqCtx k} {action : Action k}
    (taken : s.act op ctx action = some after) : ActSpec s op ctx action after := by
  cases action <;> simp only [act] at taken
  case casBackup0 backup =>
    split at taken
    · rename_i pending phase
      split_ifs at taken with member
      exact some.inj taken ▸ .casBackup0 phase member
    · cases taken
  case checkConsensus =>
    split_ifs at taken with phase
    exact some.inj taken ▸ .checkConsensus phase
  case readPrimary =>
    split_ifs at taken with phase
    exact some.inj taken ▸ .readPrimary phase
  case waitPrimary =>
    split_ifs at taken with phase unchanged
    · exact some.inj taken ▸ .waitAgain phase unchanged
    · exact some.inj taken ▸ .waitOver phase unchanged
  case casBackup1 backup =>
    split at taken
    · rename_i pending expected phase req
      split_ifs at taken with member
      exact some.inj taken ▸ .casBackup1 phase req member
    · cases taken
  case checkSecondRound =>
    split_ifs at taken with phase
    exact some.inj taken ▸ .checkSecondRound phase
  case commitLog =>
    split_ifs at taken with phase
    exact some.inj taken ▸ .commitLog phase
  case casPrimary =>
    split_ifs at taken with phase
    exact some.inj taken ▸ .casPrimary phase

theorem step_cases {event : SlotEvent k} (taken : s.step event = some after) :
    (∃ reqType variant swapValue opBuffer, event = .start reqType variant swapValue opBuffer ∧
      s.CanStart reqType swapValue ∧
      after = { s with
        ops := s.ops ++ [.start reqType variant s.primary swapValue opBuffer s.version] }) ∨
    ∃ op ctx action, event = .act op action ∧ s.ops[op]? = some ctx ∧
      ActSpec s op ctx action after := by
  cases event with
  | start reqType variant swapValue opBuffer =>
    simp only [step] at taken
    split_ifs at taken with admitted
    exact .inl ⟨reqType, variant, swapValue, opBuffer, rfl, admitted, (some.inj taken).symm⟩
  | act op action =>
    obtain ⟨ctx, found, acted⟩ := bind_eq_some_iff.mp taken
    exact .inr ⟨op, ctx, action, rfl, found, act_spec acted⟩

/-- An action changes the entry of its request and no other, and only a vote or
a completed second round changes the consensus state. -/
theorem ActSpec.ops_eq {op : ℕ} {ctx : KVReqCtx k} {action : Action k}
    (acted : ActSpec s op ctx action after) (found : s.ops[op]? = some ctx) :
    ∃ entry, after.ops = s.ops.set op entry ∧ ctx.SameRequest entry ∧
      (entry.consensusState = ctx.consensusState ∨ entry.consensusState = .winAll ∨
        action = .checkConsensus ∧ entry.consensusState =
          checkCasConsensus0 ctx.origValue ctx.swapValue ctx.bkReturn ∨
        action = .readPrimary ∧ entry.consensusState =
          checkPrimaryValue ctx.origValue ctx.swapValue ctx.bkReturn s.primary) := by
  cases acted with
  | casBackup0 | casBackup1 =>
    exact ⟨_, congrArg (List.set · op _) (casBackup_ops ..), ⟨rfl, rfl, rfl, rfl, rfl⟩, .inl rfl⟩
  | checkConsensus =>
    exact ⟨_, rfl, (KVReqCtx.sameRequest_modifyBackupIdxConsensus1 _ _).of_bk1CasList,
      .inr (.inr (.inl ⟨rfl, KVReqCtx.modifyBackupIdxConsensus1_consensusState _ _⟩))⟩
  | readPrimary =>
    exact ⟨_, rfl, ctx.sameRequest_modifyBackupIdxConsensus1 _,
      .inr (.inr (.inr ⟨rfl, KVReqCtx.modifyBackupIdxConsensus1_consensusState _ _⟩))⟩
  | waitAgain =>
    refine ⟨ctx, ?_, ⟨rfl, rfl, rfl, rfl, rfl⟩, .inl rfl⟩
    obtain ⟨inRange, held⟩ := List.getElem?_eq_some_iff.mp found
    exact (held ▸ set_getElem_self inRange).symm
  | waitOver =>
    exact ⟨_, rfl, ctx.sameRequest_leaveAsLoser, .inl ctx.leaveAsLoser_consensusState⟩
  | checkSecondRound =>
    refine ⟨_, rfl, ?_, .inr (.inl (congrArg _ ctx.finishSecondRound_eq))⟩
    rw [KVReqCtx.finishSecondRound_eq]
    exact ⟨rfl, rfl, rfl, rfl, rfl⟩
  | commitLog =>
    exact ⟨_, rfl, ctx.sameRequest_kvLogCommit, .inl ctx.kvLogCommit_consensusState⟩
  | casPrimary =>
    refine ⟨_, ?_, ctx.sameRequest_finishCasPrimary s.primary,
      .inl (ctx.finishCasPrimary_consensusState s.primary)⟩
    unfold SlotSystem.casPrimary
    split_ifs <;> rfl

theorem forall_requests (Request : KVRequestType → Variant → Prop)
    {allowed : SlotSystem k → SlotEvent k → Prop} {started : SlotSystem k → Prop}
    (reached : Reachable step allowed started s) (empty : ∀ s, started s → s.ops = [])
    (starts : ∀ s reqType variant swapValue opBuffer, allowed s (.start reqType variant swapValue
      opBuffer) → Request reqType variant) : ∀ ctx ∈ s.ops, Request ctx.reqType ctx.variant := by
  induction reached with
  | start isInitial => simp [empty _ isInitial]
  | next reached permitted taken ih =>
    rcases step_cases taken with
      ⟨reqType, variant, swapValue, opBuffer, rfl, -, rfl⟩ | ⟨op, ctx, action, rfl, found, acted⟩
    · intro ctx member
      rcases mem_append.mp member with old | isNew
      · exact ih ctx old
      · rw [mem_singleton] at isNew
        subst isNew
        exact starts _ reqType variant swapValue opBuffer permitted
    · obtain ⟨_, opsEq, same, -⟩ := acted.ops_eq found
      intro req member
      rw [opsEq] at member
      rcases mem_or_eq_of_mem_set member with old | rfl
      · exact ih req old
      · rw [same.reqType, same.variant]
        exact ih ctx (mem_of_getElem? found)

end SlotSystem

end FuseeFs.Replication
