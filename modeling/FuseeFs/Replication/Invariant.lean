import FuseeFs.Replication.Refinement

/-!
# The invariant of the slot protocol

Each action of a request keeps `SlotSystem.Inv`; together with the start of a
request this gives the invariant in every run whose steps are `Guarded`.
-/

namespace FuseeFs.Replication

open Library Library.Election KVReqCtx KVConsensusState

variable {k : ℕ}

namespace SlotSystem

variable {s : SlotSystem k} {op : ℕ} {ctx : KVReqCtx k}

theorem Inv.casBackup0 (inv : s.Inv) (found : s.ops[op]? = some ctx) {backup : Fin k}
    {pending : Finset (Fin k)} (phase : ctx.phase = .bkConsensus0 pending)
    (member : backup ∈ pending) (guarded : s.Guarded (.act op (.casBackup0 backup))) :
    Inv ((s.casBackup backup ctx.origValue ctx.swapValue).setCtx op
      (ctx.returnBackup0 pending backup (s.backup backup))) := by
  have ok := inv.ctxOk op ctx found
  have state : ctx.consensusState = .non := by simpa [PhaseOk, phase] using ok.phaseOk
  have undecided : ctx.voter.standing = .undecided := by
    simp [voter, standing, state, isWin]
  have reaches : backup ∈ ctx.voter.pending := by
    simpa [voter, pending0, phase] using member
  have boardEq : ((s.casBackup backup ctx.origValue ctx.swapValue).setCtx op
      (ctx.returnBackup0 pending backup (s.backup backup))).board =
        s.board.cast op ctx.voter backup := by
    simp [board, SlotSystem.setCtx, Board.cast, voter, pending0,
      standing, returnBackup0, List.map_set, phase, state,
      isWin]
  have entryOk : (ctx.returnBackup0 pending backup (s.backup backup)).Ok s.version :=
    { ok with
      phaseOk := state
      tie := by rintro ⟨⟩
      bk1_readPrimary := by rintro ⟨⟩
      bk1_empty := fun _ _ => ok.bk1_empty pending phase
      bk1_pending := by rintro _ ⟨⟩
      bk1_return := by simp [returnBackup0, ok.bk1_empty pending phase]
      finish_old := by simp [returnBackup0, state]
      swapped := by simp [returnBackup0, ok.not_swapped (by simp [phase])]
      async_old := by simp [returnBackup0] }
  refine inv.setCtx found (by simp) (by simp) (by simpa using entryOk) ?_
  rw [boardEq]
  by_cases hit : s.backup backup = ctx.origValue
  · exact inv.boardOk.cast_vote (board_at found) undecided reaches hit fun old zero =>
      guarded.2 ctx found (ok.kindOk.insert_of_orig zero) old
  · exact inv.boardOk.cast_miss (board_at found) undecided reaches hit fun zero =>
      guarded.1 ctx found (ok.kindOk.delete_of_swap zero)

theorem Inv.bkReturn_ne_swapValue (inv : s.Inv) (found : s.ops[op]? = some ctx)
    (reached : ctx.pending0 = ∅) (backup : Fin k) : ctx.bkReturn backup ≠ ctx.swapValue :=
  (inv.boardOk.voterOk op ctx.voter (board_at found)).seen_ne_swap backup
    (by simp [voter, reached])

/-- A request that has all its first-round ballots and has stored the requests
of the second round. -/
structure Counted (s : SlotSystem k) (ctx base : KVReqCtx k) : Prop where
  voter : base.voter = ctx.voter
  reached : base.pending0 = ∅
  state : base.consensusState = .non
  kindOk : base.KindOk
  consistent : base.notConsistent = false
  notSwapped : base.prSwapped = false
  bk1 : base.bk1CasList = secondRoundCas base.origValue base.swapValue base.bkReturn

theorem Counted.bk1_return {base : KVReqCtx k} (counted : s.Counted ctx base) (backup : Fin k)
    (expected : UInt64) (req : base.bk1CasList backup = some expected) :
    base.bkReturn backup = expected := by
  rw [counted.bk1, secondRoundCas] at req
  split_ifs at req
  exact Option.some.inj req

section Actions

variable {base : KVReqCtx k} {outcome : KVConsensusState} {backup : Fin k}
  {pending : Finset (Fin k)} {expected : UInt64} (inv : s.Inv)
include inv

theorem Inv.outcome_lost (found : s.ops[op]? = some ctx) (counted : s.Counted ctx base)
    (lost : outcome.isWin = false)
    (tie : outcome = .non → 0 < base.voter.votes.card ∧ ∀ value, 2 * (ballotsFor base.origValue
      base.swapValue base.bkReturn value).card ≤ k)
    (old : outcome = .finish → base.version < s.version) :
    Inv (s.setCtx op (base.modifyBackupIdxConsensus1 outcome)) := by
  have undecided : base.standing = .undecided := by
    simp [standing, counted.state, isWin]
  have sameVoter : ∀ entry : KVReqCtx k, entry.version = base.version →
      entry.origValue = base.origValue → entry.swapValue = base.swapValue →
      entry.bkReturn = base.bkReturn → entry.pending0 = ∅ → entry.consensusState.isWin = false →
      entry.voter = ctx.voter := by
    intro entry version orig swap seen reached state
    have standing : entry.standing = .undecided := by simp [standing, state]
    rw [← counted.voter]
    simp only [voter, version, orig, swap, seen, reached, counted.reached, undecided, standing]
  cases outcome with
  | winAll | winMajor | winLittle => cases lost
  | fail =>
    refine inv.setCtx_same found ?_ (sameVoter _ rfl rfl rfl rfl rfl rfl)
    exact
      { kindOk := counted.kindOk
        phaseOk := rfl
        tie := by rintro ⟨⟩
        bk1_readPrimary := by rintro ⟨⟩
        bk1_empty := by rintro _ ⟨⟩
        bk1_pending := by rintro _ ⟨⟩
        bk1_return := counted.bk1_return
        consistent := counted.consistent
        finish_old := by rintro ⟨⟩
        swapped := by simp [modifyBackupIdxConsensus1, counted.notSwapped]
        async_old := by simp [modifyBackupIdxConsensus1] }
  | finish =>
    obtain ⟨_, entryEq, reason⟩ := leaveAsLoser_eq { base with consensusState := .finish }
    simp only [modifyBackupIdxConsensus1, entryEq]
    have early := old rfl
    refine inv.setCtx_same found ?_ (sameVoter _ rfl rfl rfl rfl ?_ rfl)
    · refine
        { kindOk := counted.kindOk
          phaseOk := ?_, tie := ?_, bk1_readPrimary := ?_, bk1_empty := ?_, bk1_pending := ?_
          bk1_return := counted.bk1_return
          consistent := counted.consistent
          finish_old := fun _ => early
          swapped := by simp [counted.notSwapped, isWin]
          async_old := fun _ _ => early }
      all_goals
        rcases reason with rfl | ⟨rfl, isDelete, -⟩ | ⟨rfl, notInsert, isSync⟩ <;>
          simp_all [PhaseOk, pending1]
    · rcases reason with rfl | ⟨rfl, -⟩ | ⟨rfl, -⟩ <;> rfl
  | non =>
    have voter : (base.modifyBackupIdxConsensus1 .non).voter = ctx.voter :=
      sameVoter _ rfl rfl rfl rfl rfl rfl
    refine inv.setCtx_same found ?_ voter
    exact
      { kindOk := counted.kindOk
        phaseOk := rfl
        tie := fun _ => voter ▸ counted.voter ▸ tie rfl
        bk1_readPrimary := fun _ => counted.bk1
        bk1_empty := by rintro _ ⟨⟩
        bk1_pending := by rintro _ ⟨⟩
        bk1_return := counted.bk1_return
        consistent := counted.consistent
        finish_old := by rintro ⟨⟩
        swapped := by simp [modifyBackupIdxConsensus1, counted.notSwapped]
        async_old := by simp [modifyBackupIdxConsensus1] }

theorem Inv.outcome_won (found : s.ops[op]? = some ctx) (counted : s.Counted ctx base)
    (won : outcome.isWin = true) (wins : s.board.Wins ctx.voter)
    (all : outcome = .winAll → ctx.voter.votes = Finset.univ) :
    Inv (s.setCtx op (base.modifyBackupIdxConsensus1 outcome)) := by
  have differs : ∀ backup, base.bkReturn backup ≠ base.swapValue := by
    have seen := (inv.boardOk.voterOk op ctx.voter (board_at found)).seen_ne_swap
    rw [← counted.voter] at seen
    exact fun backup => seen backup (by simp [voter, counted.reached])
  have undecided : ctx.voter.standing = .undecided := by
    rw [← counted.voter]
    simp [voter, standing, counted.state, isWin]
  have complete : ctx.voter.pending = ∅ := by
    rw [← counted.voter]
    exact counted.reached
  have becomesWinner : ∀ entry : KVReqCtx k, entry.Ok s.version →
      entry.voter = { ctx.voter with standing := .won (Finset.univ \ ctx.voter.votes) } →
      (s.setCtx op entry).Inv := by
    intro entry entryOk voter
    refine inv.setCtx found rfl le_rfl entryOk ?_
    rw [board_setCtx, voter]
    exact inv.boardOk.win (board_at found) undecided complete wins
  have secondRound : (Finset.univ.filter fun backup => (base.bk1CasList backup).isSome) =
      Finset.univ \ ctx.voter.votes := by
    rw [← counted.voter, counted.bk1]
    exact filter_secondRoundCas counted.reached differs
  have entryVoter : ∀ entry : KVReqCtx k, entry.version = base.version →
      entry.origValue = base.origValue → entry.swapValue = base.swapValue →
      entry.bkReturn = base.bkReturn → entry.pending0 = ∅ → entry.consensusState.isWin = true →
      entry.phase ≠ .finished → entry.pending1 = Finset.univ \ ctx.voter.votes →
      entry.voter = { ctx.voter with standing := .won (Finset.univ \ ctx.voter.votes) } := by
    intro entry version orig swap seen reached state running rest
    have standing : entry.standing = .won (Finset.univ \ ctx.voter.votes) := by
      simp [standing, state, running, rest]
    rw [← counted.voter] at standing ⊢
    simp only [voter, version, orig, swap, seen, reached, counted.reached, standing]
  cases outcome with
  | fail | finish | non => cases won
  | winAll =>
    have entryEq : base.modifyBackupIdxConsensus1 .winAll =
        { base with consensusState := .winAll, isFinished := false, phase := .commitLog } :=
      enterCommitLog_of_running _ rfl
    rw [entryEq]
    refine becomesWinner _ ?_ (entryVoter _ rfl rfl rfl rfl rfl rfl (by rintro ⟨⟩) ?_)
    · exact
        { kindOk := counted.kindOk
          phaseOk := .inl rfl
          tie := by rintro ⟨⟩
          bk1_readPrimary := by rintro ⟨⟩
          bk1_empty := by rintro _ ⟨⟩
          bk1_pending := by rintro _ ⟨⟩
          bk1_return := counted.bk1_return
          consistent := counted.consistent
          finish_old := by rintro ⟨⟩
          swapped := by simp [counted.notSwapped]
          async_old := by simp }
    · simp [all rfl, pending1]
  | winMajor | winLittle =>
    refine becomesWinner _ ?_ (entryVoter _ rfl rfl rfl rfl rfl rfl (by rintro ⟨⟩) secondRound)
    exact
      { kindOk := counted.kindOk
        phaseOk := by simp [PhaseOk, modifyBackupIdxConsensus1]
        tie := by rintro ⟨⟩
        bk1_readPrimary := by rintro ⟨⟩
        bk1_empty := by rintro _ ⟨⟩
        bk1_pending := by simp [pending1, modifyBackupIdxConsensus1]
        bk1_return := counted.bk1_return
        consistent := counted.consistent
        finish_old := by rintro ⟨⟩
        swapped := by simp [modifyBackupIdxConsensus1, counted.notSwapped]
        async_old := by simp [modifyBackupIdxConsensus1] }

theorem Inv.checkConsensus (pos : 0 < k) (found : s.ops[op]? = some ctx)
    (phase : ctx.phase = .bkConsensus0 ∅) : Inv (s.setCtx op ctx.runCheckCasConsensus0) := by
  have ok := inv.ctxOk op ctx found
  have reached : ctx.pending0 = ∅ := by simp [pending0, phase]
  have state : ctx.consensusState = .non := by simpa [PhaseOk, phase] using ok.phaseOk
  have differs := inv.bkReturn_ne_swapValue found reached
  have counted : s.Counted ctx
      { ctx with bk1CasList := secondRoundCas ctx.origValue ctx.swapValue ctx.bkReturn } :=
    ⟨rfl, reached, state, ok.kindOk, ok.consistent, ok.not_swapped (by simp [phase]), rfl⟩
  have votes := ballotsFor_swapValue reached differs
  have spec := checkCasConsensus0_spec ctx.origValue ctx.swapValue ctx.bkReturn pos
  unfold runCheckCasConsensus0
  cases outcome : checkCasConsensus0 ctx.origValue ctx.swapValue ctx.bkReturn with
  | winAll =>
    simp only [outcome, votes] at spec
    refine inv.outcome_won found counted rfl (.inl ?_) fun _ => ?_
    · rw [spec, Fintype.card_fin]
      omega
    · exact Finset.eq_univ_of_card _ (by rw [spec, Fintype.card_fin])
  | winMajor =>
    simp only [outcome, votes] at spec
    exact inv.outcome_won found counted rfl (.inl (by rwa [Fintype.card_fin])) (by rintro ⟨⟩)
  | winLittle => simp [outcome] at spec
  | fail => exact inv.outcome_lost found counted rfl (by rintro ⟨⟩) (by rintro ⟨⟩)
  | finish => simp [outcome] at spec
  | non =>
    simp only [outcome, votes] at spec
    exact inv.outcome_lost found counted rfl (fun _ => spec) (by rintro ⟨⟩)

theorem Inv.readPrimary (found : s.ops[op]? = some ctx) (phase : ctx.phase = .readPrimary)
    (guarded : s.Guarded (.act op .readPrimary)) :
    Inv (s.setCtx op (ctx.runCheckPrimaryValue s.primary)) := by
  have ok := inv.ctxOk op ctx found
  have reached : ctx.pending0 = ∅ := by simp [pending0, phase]
  have state : ctx.consensusState = .non := by simpa [PhaseOk, phase] using ok.phaseOk
  have differs := inv.bkReturn_ne_swapValue found reached
  have counted : s.Counted ctx ctx :=
    ⟨rfl, reached, state, ok.kindOk, ok.consistent, ok.not_swapped (by simp [phase]),
      ok.bk1_readPrimary phase⟩
  obtain ⟨nonempty, few⟩ := ok.tie phase
  unfold runCheckPrimaryValue
  cases outcome : checkPrimaryValue ctx.origValue ctx.swapValue ctx.bkReturn s.primary with
  | winAll | winMajor | non => simp [checkPrimaryValue, ite_eq_iff] at outcome
  | fail => exact inv.outcome_lost found counted rfl (by rintro ⟨⟩) (by rintro ⟨⟩)
  | finish =>
    refine inv.outcome_lost found counted rfl (by rintro ⟨⟩) fun _ => ?_
    have changed := (checkPrimaryValue_eq_finish_iff _).mp outcome
    refine (inv.boardOk.voterOk op ctx.voter (board_at found)).version_le.lt_of_ne fun same => ?_
    exact changed (inv.boardOk.orig_eq_primary ⟨board_at found, same⟩).symm
  | winLittle =>
    obtain ⟨unchanged, least⟩ := checkPrimaryValue_winLittle outcome
    have current := inv.boardOk.current_of_primary (board_at found) unchanged fun old zero =>
      guarded.2 ctx found (ok.kindOk.insert_of_orig zero) old
    refine inv.outcome_won found counted rfl (.inr ⟨current.2, Finset.card_pos.mp nonempty,
      ?_, fun value => ?_, fun backup other => ?_⟩) (by rintro ⟨⟩)
    · rw [Fintype.card_fin, ← ballotsFor_swapValue reached differs]
      exact few _
    · rw [Fintype.card_fin]
      exact (Nat.mul_le_mul_left 2 (Finset.card_le_card
        (filter_seen_subset reached differs value))).trans (few value)
    · rw [mem_votes_iff reached] at other
      have bound := least backup
      rwa [ballot, if_neg (not_or.mpr ⟨other, differs backup⟩)] at bound

theorem Inv.waitOver (found : s.ops[op]? = some ctx) (phase : ctx.phase = .waitPrimary)
    (changed : ctx.loopValue s.primary ≠ ctx.origValue) : Inv (s.setCtx op ctx.leaveAsLoser) := by
  have ok := inv.ctxOk op ctx found
  have state : ctx.consensusState = .fail := by simpa [PhaseOk, phase] using ok.phaseOk
  obtain ⟨_, entryEq, reason⟩ := ctx.leaveAsLoser_eq
  have early : ctx.variant = .async → ctx.version < s.version := by
    intro async
    refine (inv.boardOk.voterOk op ctx.voter (board_at found)).version_le.lt_of_ne fun same => ?_
    rw [loopValue, async] at changed
    exact changed (inv.boardOk.orig_eq_primary ⟨board_at found, same⟩).symm
  rw [entryEq]
  refine inv.setCtx_same found ?_ ?_
  · refine
      { ok with
        phaseOk := ?_, tie := ?_, bk1_readPrimary := ?_, bk1_empty := ?_, bk1_pending := ?_
        swapped := by simp [ok.not_swapped (by simp [phase]), state, isWin]
        async_old := fun async _ => early async }
    all_goals
      rcases reason with rfl | ⟨rfl, -, decided⟩ | ⟨rfl, notInsert, isSync⟩ <;>
        simp_all [PhaseOk, pending1]
  · rcases reason with rfl | ⟨rfl, -⟩ | ⟨rfl, -⟩ <;>
      simp [voter, pending0, standing, phase, state, isWin]

omit inv in
theorem isWin_of_bkConsensus1 {version : ℕ} (ok : ctx.Ok version)
    (phase : ctx.phase = .bkConsensus1 pending) :
    ctx.consensusState.isWin = true ∧ ctx.voter.standing = .won pending := by
  have state : ctx.consensusState = .winMajor ∨ ctx.consensusState = .winLittle := by
    simpa [PhaseOk, phase] using ok.phaseOk
  rcases state with state | state <;> simp [voter, standing, pending1, phase, state, isWin]

theorem Inv.backup_eq_request (found : s.ops[op]? = some ctx)
    (phase : ctx.phase = .bkConsensus1 pending) (req : ctx.bk1CasList backup = some expected)
    (member : backup ∈ pending) : s.backup backup = expected := by
  have ok := inv.ctxOk op ctx found
  obtain ⟨-, won⟩ := isWin_of_bkConsensus1 ok phase
  rw [← ok.bk1_return backup expected req]
  exact (inv.boardOk.winnerOk op ctx.voter pending (board_at found) won).backup_rest backup member

theorem Inv.casBackup1 (found : s.ops[op]? = some ctx) (phase : ctx.phase = .bkConsensus1 pending)
    (req : ctx.bk1CasList backup = some expected) (member : backup ∈ pending) :
    Inv ((s.casBackup backup expected ctx.swapValue).setCtx op
      (ctx.returnBackup1 pending backup (s.backup backup))) := by
  have ok := inv.ctxOk op ctx found
  have held := inv.backup_eq_request found phase req member
  have returned : Function.update ctx.bkReturn backup (s.backup backup) = ctx.bkReturn := by
    rw [held, ← ok.bk1_return backup expected req, Function.update_eq_self]
  obtain ⟨isWin, won⟩ := isWin_of_bkConsensus1 ok phase
  have boardEq : ((s.casBackup backup expected ctx.swapValue).setCtx op
      (ctx.returnBackup1 pending backup (s.backup backup))).board =
        s.board.overwrite op ctx.voter pending backup := by
    simp [board, SlotSystem.setCtx, Board.overwrite, voter, pending0,
      pending1, standing, returnBackup1, List.map_set, phase, isWin,
      returned]
    simp [held]
  have entryOk : (ctx.returnBackup1 pending backup (s.backup backup)).Ok s.version :=
    { ok with
      phaseOk := by simpa [PhaseOk, returnBackup1, phase] using ok.phaseOk
      tie := by rintro ⟨⟩
      bk1_readPrimary := by rintro ⟨⟩
      bk1_empty := by rintro _ ⟨⟩
      bk1_pending := fun other still => ok.bk1_pending other (by
        simpa [pending1, phase] using Finset.mem_of_mem_erase still)
      bk1_return := by simpa [returnBackup1, returned] using ok.bk1_return
      swapped := by simp [returnBackup1, ok.not_swapped (by simp [phase])]
      async_old := by simp [returnBackup1] }
  refine inv.setCtx found (by simp) (by simp) (by simpa using entryOk) ?_
  rw [boardEq]
  exact inv.boardOk.overwrite (board_at found) won backup

theorem Inv.checkSecondRound (found : s.ops[op]? = some ctx) (phase : ctx.phase = .bkConsensus1 ∅) :
    Inv (s.setCtx op ctx.finishSecondRound) := by
  have ok := inv.ctxOk op ctx found
  obtain ⟨isWin, -⟩ := isWin_of_bkConsensus1 ok phase
  have matched : ctx.checkCasConsensus1 = false := by
    refine decide_eq_false ?_
    rintro ⟨backup, differs⟩
    cases req : ctx.bk1CasList backup with
    | none => simp [req] at differs
    | some expected =>
      simp only [req, Option.any_some] at differs
      exact of_decide_eq_true differs (ok.bk1_return backup expected req)
  rw [finishSecondRound_eq]
  refine inv.setCtx_same found ?_ ?_
  · exact
      { ok with
        phaseOk := .inl rfl
        tie := by rintro ⟨⟩
        bk1_readPrimary := by rintro ⟨⟩
        bk1_empty := by rintro _ ⟨⟩
        bk1_pending := by rintro _ ⟨⟩
        consistent := by simp [ok.consistent, matched]
        finish_old := by rintro ⟨⟩
        swapped := by simp [ok.not_swapped (by simp [phase])]
        async_old := by simp }
  · have allWin : winAll.isWin = true := rfl
    simp [voter, pending0, pending1, standing, phase, isWin, allWin]

theorem Inv.commitLog (found : s.ops[op]? = some ctx) (phase : ctx.phase = .commitLog) :
    Inv (s.setCtx op ctx.kvLogCommit) := by
  have ok := inv.ctxOk op ctx found
  have state : ctx.consensusState = .winAll ∨ ctx.variant = .sync ∧ ctx.reqType ≠ .insert ∧
      (ctx.consensusState = .finish ∨ ctx.consensusState = .fail) := by
    simpa [PhaseOk, phase] using ok.phaseOk
  by_cases lost : ctx.consensusState = .fail
  · obtain ⟨_, entryEq⟩ := ctx.kvLogCommit_of_fail lost
    have isSync : ctx.variant = .sync := (state.resolve_left (by simp [lost])).1
    rw [entryEq]
    refine inv.setCtx_same found ?_ ?_
    · exact
        { ok with
          phaseOk := .inr (.inl lost)
          tie := by rintro ⟨⟩
          bk1_readPrimary := by rintro ⟨⟩
          bk1_empty := by rintro _ ⟨⟩
          bk1_pending := by rintro _ ⟨⟩
          swapped := by simp [ok.not_swapped (by simp [phase]), lost, isWin]
          async_old := fun async => by simp [isSync] at async }
    · simp [voter, pending0, standing, phase, lost, isWin]
  · rw [ctx.kvLogCommit_of_ne_fail lost]
    refine inv.setCtx_same found ?_ ?_
    · refine
        { ok with
          phaseOk := ?_
          tie := by rintro ⟨⟩
          bk1_readPrimary := by rintro ⟨⟩
          bk1_empty := by rintro _ ⟨⟩
          bk1_pending := by rintro _ ⟨⟩
          swapped := by simp [ok.not_swapped (by simp [phase])]
          async_old := by simp }
      rcases state with all | ⟨isSync, notInsert, finish | fail⟩
      · exact .inl all
      · exact .inr ⟨finish, notInsert, fun async => by simp [isSync] at async⟩
      · exact absurd fail lost
    · simp [voter, pending0, pending1, standing, phase]

theorem Inv.primary_eq_of_winAll (found : s.ops[op]? = some ctx) (phase : ctx.phase = .casPrimary)
    (won : ctx.consensusState = .winAll) :
    ctx.voter.standing = .won ∅ ∧ s.primary = ctx.origValue := by
  have standing : ctx.voter.standing = .won ∅ := by
    simp [voter, standing, pending1, phase, won, isWin]
  refine ⟨standing, (inv.boardOk.orig_eq_primary ⟨board_at found, ?_⟩).symm⟩
  exact ((inv.boardOk.voterOk op ctx.voter (board_at found)).won_current ∅ standing).1

theorem Inv.primary_ne_of_finish (found : s.ops[op]? = some ctx)
    (finish : ctx.consensusState = .finish) (notInsert : ctx.reqType ≠ .insert) :
    s.primary ≠ ctx.origValue := by
  have ok := inv.ctxOk op ctx found
  exact inv.boardOk.primary_ne_orig (board_at found) (ok.finish_old finish)
    fun zero => notInsert (ok.kindOk.insert_of_orig zero)

theorem Inv.casPrimary (found : s.ops[op]? = some ctx) (phase : ctx.phase = .casPrimary) :
    Inv ((s.casPrimary ctx.origValue ctx.swapValue).setCtx op
      (ctx.finishCasPrimary s.primary)) := by
  have ok := inv.ctxOk op ctx found
  have state : ctx.consensusState = .winAll ∨ ctx.consensusState = .finish ∧
      ctx.reqType ≠ .insert ∧ (ctx.variant = .async → ctx.reqType = .delete) := by
    simpa [PhaseOk, phase] using ok.phaseOk
  rcases state with won | ⟨finish, notInsert, asyncDelete⟩
  · obtain ⟨standing, same⟩ := inv.primary_eq_of_winAll found phase won
    have version := (inv.boardOk.voterOk op ctx.voter (board_at found)).version_le
    rw [casPrimary_of_eq _ same, finishCasPrimary, if_pos same]
    refine inv.setCtx found rfl (Nat.le_succ _) ?_ ?_
    · exact
        { ok with
          phaseOk := .inl won
          tie := by rintro ⟨⟩
          bk1_readPrimary := by rintro ⟨⟩
          bk1_empty := by rintro _ ⟨⟩
          bk1_pending := by rintro _ ⟨⟩
          finish_old := by simp [won]
          swapped := by simp [won, isWin]
          async_old := fun _ _ => Nat.lt_succ_of_le version }
    · have boardEq := inv.boardOk.install (board_at found) standing
      simpa [board, SlotSystem.setCtx, Board.install, List.map_set, voter,
        pending0, KVReqCtx.standing, phase, won, isWin] using boardEq
  · have differs := inv.primary_ne_of_finish found finish notInsert
    have old := ok.finish_old finish
    rw [casPrimary_of_ne _ differs, finishCasPrimary, if_neg differs]
    split_ifs with exits
    · refine inv.setCtx_same found ?_ ?_
      · exact
          { ok with
            phaseOk := ⟨finish, asyncDelete exits.1⟩
            tie := by rintro ⟨⟩
            bk1_readPrimary := by rintro ⟨⟩
            bk1_empty := by rintro _ ⟨⟩
            bk1_pending := by rintro _ ⟨⟩
            swapped := by simp [ok.not_swapped (by simp [phase]), finish, isWin]
            async_old := fun _ _ => old }
      · simp [voter, pending0, standing, phase, finish, isWin]
    all_goals
      refine inv.setCtx_same found ?_ ?_
      · exact
          { ok with
            phaseOk := .inr (.inr finish)
            tie := by rintro ⟨⟩
            bk1_readPrimary := by rintro ⟨⟩
            bk1_empty := by rintro _ ⟨⟩
            bk1_pending := by rintro _ ⟨⟩
            swapped := by simp [ok.not_swapped (by simp [phase]), finish, isWin]
            async_old := fun _ _ => old }
      · simp [voter, pending0, standing, phase, finish, isWin]

theorem Inv.step (pos : 0 < k) {event : SlotEvent k} {after : SlotSystem k}
    (guarded : s.Guarded event) (taken : s.step event = some after) : after.Inv := by
  rcases step_cases taken with
    ⟨reqType, variant, swapValue, opBuffer, rfl, admitted, rfl⟩ | ⟨op, ctx, action, rfl, found, acted⟩
  · exact inv.start pos admitted variant opBuffer
  · cases acted with
    | casBackup0 phase member => exact inv.casBackup0 found phase member guarded
    | checkConsensus phase => exact inv.checkConsensus pos found phase
    | readPrimary phase => exact inv.readPrimary found phase guarded
    | waitAgain => exact inv
    | waitOver phase changed => exact inv.waitOver found phase changed
    | casBackup1 phase req member => exact inv.casBackup1 found phase req member
    | checkSecondRound phase => exact inv.checkSecondRound found phase
    | commitLog phase => exact inv.commitLog found phase
    | casPrimary phase => exact inv.casPrimary found phase

end Actions

def IsInitial (s : SlotSystem k) : Prop :=
  ∃ value, s = initial k value

theorem inv_of_reachable (pos : 0 < k)
    (reached : Reachable SlotSystem.step Guarded IsInitial s) : s.Inv :=
  reached.invariant
    (fun _ ⟨value, isInitial⟩ => isInitial ▸ inv_initial k value)
    (fun _ _ _ inv guarded taken => inv.step pos guarded taken)

end SlotSystem

end FuseeFs.Replication
