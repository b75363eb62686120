import FuseeFs.Replication.Invariant

/-!
# Agreement of the replicas

What the invariant says about whole runs: one winner per original value,
swaps of a winner that cannot fail, and equal replicas whenever nothing is in
flight.  The environments differ in the requests they start and in what they
assume about steps that may meet the value `0`.
-/

namespace FuseeFs.Replication

open Library Library.Election

variable {k : ℕ}

namespace SlotSystem

variable {s : SlotSystem k}

theorem Inv.winner_unique (inv : s.Inv) {first second : ℕ} {ctx other : KVReqCtx k}
    (found : s.ops[first]? = some ctx) (otherFound : s.ops[second]? = some other)
    (same : ctx.origValue = other.origValue) (nonzero : ctx.origValue ≠ 0)
    (won : ctx.consensusState.isWin = true) (otherWon : other.consensusState.isWin = true) :
    first = second := by
  have voterOk := inv.boardOk.voterOk first ctx.voter (board_at found)
  have otherOk := inv.boardOk.voterOk second other.voter (board_at otherFound)
  have sameRound : ctx.version = other.version := by
    refine inv.boardOk.history_injective _ voterOk.version_le _ otherOk.version_le ?_ ?_
    · exact voterOk.history_version.trans (same.trans otherOk.history_version.symm)
    · exact voterOk.history_version ▸ nonzero
  refine inv.boardOk.winner_unique _ _ _ _ (board_at found) (board_at otherFound) sameRound ?_ ?_
  · simp only [KVReqCtx.voter, KVReqCtx.standing, won, if_true]
    split_ifs <;> simp
  · simp only [KVReqCtx.voter, KVReqCtx.standing, otherWon, if_true]
    split_ifs <;> simp

/-- Every swap of the second round expects what the backup holds. -/
theorem Inv.secondRound_succeeds (inv : s.Inv) {op : ℕ} {ctx : KVReqCtx k}
    {pending : Finset (Fin k)} {backup : Fin k} (found : s.ops[op]? = some ctx)
    (phase : ctx.phase = .bkConsensus1 pending) (member : backup ∈ pending) :
    ctx.bk1CasList backup = some (s.backup backup) := by
  have req := (inv.ctxOk op ctx found).bk1_pending backup (by
    simpa [KVReqCtx.pending1, phase] using member)
  obtain ⟨_, req⟩ := Option.isSome_iff_exists.mp req
  rw [req, inv.backup_eq_request found phase req member]

theorem Inv.replicasEqual (inv : s.Inv) (async : ∀ ctx ∈ s.ops, ctx.variant = .async)
    (quiescent : s.Quiescent) : s.ReplicasEqual := by
  intro backup
  refine inv.boardOk.backup_free backup fun index voter current => ?_
  obtain ⟨ctx, found, rfl⟩ : ∃ ctx, s.ops[index]? = some ctx ∧ ctx.voter = voter := by
    simpa [Board.At, board] using current.1
  have member := List.mem_of_getElem? found
  have old := (inv.ctxOk index ctx found).async_old (async ctx member) (quiescent ctx member)
  exact absurd current.2 old.ne

def UpdatesOnly (_ : SlotSystem k) : SlotEvent k → Prop
  | .start reqType variant _ _ => reqType = .update ∧ variant = .async
  | .act _ _ => True

instance (s : SlotSystem k) : (event : SlotEvent k) → Decidable (s.UpdatesOnly event)
  | .start _ _ _ _ => inferInstanceAs (Decidable (_ ∧ _))
  | .act _ _ => inferInstanceAs (Decidable True)

def HoldsPair (s : SlotSystem k) : Prop :=
  ∃ value, value ≠ 0 ∧ s = initial k value

theorem updates_of_reachable (reached : Reachable step UpdatesOnly HoldsPair s) :
    ∀ ctx ∈ s.ops, ctx.reqType = .update ∧ ctx.variant = .async :=
  forall_requests _ reached (fun _ ⟨_, _, isInitial⟩ => isInitial ▸ rfl)
    (fun _ _ _ _ _ permitted => permitted)

theorem inv_of_updates (pos : 0 < k) (reached : Reachable step UpdatesOnly HoldsPair s) :
    s.Inv := by
  refine inv_of_reachable pos (reached.mono (fun _ => updates_of_reachable)
    (fun _ ⟨value, _, isInitial⟩ => ⟨value, isInitial⟩) fun s event updates _ => ?_)
  exact ⟨deleteMeetsPair_of_forall (fun ctx member => by simp [(updates ctx member).1]) event,
    insertMeetsRound_of_forall (fun ctx member => by simp [(updates ctx member).1]) event⟩

/-- Concurrent updates of one pair elect one writer per original value, whose
swaps take effect, and leave equal replicas when all have returned. -/
theorem updates_agree (pos : 0 < k) (reached : Reachable step UpdatesOnly HoldsPair s) :
    (∀ (first second : ℕ) (ctx other : KVReqCtx k), s.ops[first]? = some ctx →
      s.ops[second]? = some other → ctx.origValue = other.origValue →
      ctx.consensusState.isWin = true → other.consensusState.isWin = true → first = second) ∧
    (∀ ctx ∈ s.ops, ∀ pending, ctx.phase = .bkConsensus1 pending → ∀ backup ∈ pending,
      ctx.bk1CasList backup = some (s.backup backup)) ∧
    (∀ ctx ∈ s.ops, ctx.phase = .casPrimary → s.primary = ctx.origValue) ∧
    (∀ ctx ∈ s.ops, ctx.phase ≠ .exited ∧ ctx.notConsistent = false) ∧
    (s.Quiescent → s.ReplicasEqual) := by
  have inv := inv_of_updates pos reached
  have updates := updates_of_reachable reached
  have nonzero : ∀ (op : ℕ) (ctx : KVReqCtx k), s.ops[op]? = some ctx → ctx.origValue ≠ 0 := by
    intro op ctx found zero
    have isInsert := (inv.ctxOk op ctx found).kindOk.insert_of_orig zero
    simp [(updates ctx (List.mem_of_getElem? found)).1] at isInsert
  refine ⟨?_, ?_, ?_, ?_, inv.replicasEqual fun ctx member => (updates ctx member).2⟩
  · intro first second ctx other found otherFound same won otherWon
    exact inv.winner_unique found otherFound same (nonzero first ctx found) won otherWon
  · intro ctx member pending phase backup inPending
    obtain ⟨op, found⟩ := List.mem_iff_getElem?.mp member
    exact inv.secondRound_succeeds found phase inPending
  · intro ctx member phase
    obtain ⟨op, found⟩ := List.mem_iff_getElem?.mp member
    have state := (inv.ctxOk op ctx found).phaseOk
    simp only [KVReqCtx.PhaseOk, phase] at state
    rcases state with won | ⟨-, -, asyncDelete⟩
    · exact (inv.primary_eq_of_winAll found phase won).2
    · simp [(updates ctx member).1, (updates ctx member).2] at asyncDelete
  · intro ctx member
    obtain ⟨op, found⟩ := List.mem_iff_getElem?.mp member
    have ok := inv.ctxOk op ctx found
    refine ⟨fun phase => ?_, ok.consistent⟩
    have state := ok.phaseOk
    simp [KVReqCtx.PhaseOk, phase, (updates ctx member).1] at state

def tiedUpdates : List (SlotEvent 2) :=
  [.start .update .async 6 0, .start .update .async 7 0,
    .act 0 (.casBackup0 0), .act 1 (.casBackup0 1), .act 0 (.casBackup0 1), .act 1 (.casBackup0 0),
    .act 0 .checkConsensus, .act 1 .checkConsensus, .act 0 .readPrimary, .act 1 .readPrimary,
    .act 0 (.casBackup1 1), .act 0 .checkSecondRound, .act 0 .commitLog, .act 0 .casPrimary,
    .act 1 .waitPrimary]

theorem updates_agree_tiedUpdates :
    ∃ s : SlotSystem 2, Reachable step UpdatesOnly HoldsPair s ∧
      (s.primary = 6 ∧ s.ops.length = 2 ∧ s.Quiescent) ∧ s.ReplicasEqual := by
  have isInitial : HoldsPair (initial 2 5) := ⟨5, by decide, rfl⟩
  obtain ⟨s, reached, holds⟩ := Reachable.exists_of_run step UpdatesOnly tiedUpdates
    (fun s => s.primary = 6 ∧ s.ops.length = 2 ∧ s.Quiescent) isInitial (by decide)
  exact ⟨s, reached, holds, (updates_agree (by decide) reached).2.2.2.2 holds.2.2⟩

def FiberRequests (_ : SlotSystem k) : SlotEvent k → Prop
  | .start _ variant _ _ => variant = .async
  | .act _ _ => True

instance (s : SlotSystem k) : (event : SlotEvent k) → Decidable (s.FiberRequests event)
  | .start _ _ _ _ => inferInstanceAs (Decidable (_ = _))
  | .act _ _ => inferInstanceAs (Decidable True)

def sequentialReuse : List (SlotEvent 1) :=
  [.start .insert .async 1 0, .act 0 (.casBackup0 0), .act 0 .checkConsensus, .act 0 .commitLog,
    .act 0 .casPrimary,
    .start .update .async 2 0, .act 1 (.casBackup0 0), .act 1 .checkConsensus, .act 1 .commitLog,
    .act 1 .casPrimary,
    .start .delete .async 0 0, .act 2 (.casBackup0 0), .act 2 .checkConsensus, .act 2 .commitLog,
    .act 2 .casPrimary,
    .start .insert .async 3 0, .act 3 (.casBackup0 0), .act 3 .checkConsensus, .act 3 .commitLog,
    .act 3 .casPrimary]

/-- The insert of 1 reaches one backup after the insert of 2, which wins and is
deleted again; its other swap then finds an emptied slot, and it wins the tie
of a round that is over. -/
def lateInsert : List (SlotEvent 2) :=
  [.start .insert .async 1 0, .start .insert .async 2 0,
    .act 1 (.casBackup0 0), .act 1 (.casBackup0 1), .act 0 (.casBackup0 1),
    .act 1 .checkConsensus, .act 1 .commitLog, .act 1 .casPrimary,
    .start .delete .async 0 0, .act 2 (.casBackup0 0), .act 2 (.casBackup0 1),
    .act 2 .checkConsensus, .act 2 .commitLog, .act 2 .casPrimary,
    .act 0 (.casBackup0 0), .act 0 .checkConsensus, .act 0 .readPrimary,
    .act 0 (.casBackup1 1), .act 0 .checkSecondRound, .act 0 .commitLog, .act 0 .casPrimary]

end SlotSystem

end FuseeFs.Replication
