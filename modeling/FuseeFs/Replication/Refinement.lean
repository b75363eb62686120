import FuseeFs.Library.Election.Winner
import FuseeFs.Replication.Steps

/-!
# The slot protocol as an election

Every reachable state of a slot with backups is read as a board of an election
whose voters are the requests.  The actions of a request are moves of its
voter, or leave the board alone, provided two assumptions about the value `0`
hold where the step is taken; `Guarded` states them in terms of the slot.
-/

namespace FuseeFs.Replication

open List Option Library.Election

variable {k : ℕ}

namespace KVReqCtx

def pending0 (ctx : KVReqCtx k) : Finset (Fin k) :=
  match ctx.phase with
  | .bkConsensus0 pending => pending
  | _ => ∅

def pending1 (ctx : KVReqCtx k) : Finset (Fin k) :=
  match ctx.phase with
  | .bkConsensus1 pending => pending
  | _ => ∅

def standing (ctx : KVReqCtx k) : Standing (Fin k) :=
  if ctx.consensusState.isWin then
    if ctx.phase = .finished then .installed else .won ctx.pending1
  else .undecided

def voter (ctx : KVReqCtx k) : Voter UInt64 (Fin k) :=
  ⟨ctx.version, ctx.origValue, ctx.swapValue, ctx.pending0, ctx.bkReturn, ctx.standing⟩

def PhaseOk (ctx : KVReqCtx k) : Prop :=
  match ctx.phase with
  | .bkConsensus0 _ | .readPrimary => ctx.consensusState = .non
  | .waitPrimary => ctx.consensusState = .fail
  | .bkConsensus1 _ => ctx.consensusState = .winMajor ∨ ctx.consensusState = .winLittle
  | .commitLog => ctx.consensusState = .winAll ∨
      ctx.variant = .sync ∧ ctx.reqType ≠ .insert ∧
        (ctx.consensusState = .finish ∨ ctx.consensusState = .fail)
  | .casPrimary => ctx.consensusState = .winAll ∨
      ctx.consensusState = .finish ∧ ctx.reqType ≠ .insert ∧
        (ctx.variant = .async → ctx.reqType = .delete)
  | .finished => ctx.consensusState = .winAll ∨ ctx.consensusState = .fail ∨
      ctx.consensusState = .finish
  | .exited => ctx.consensusState = .finish ∧ ctx.reqType = .delete

def KindOk (ctx : KVReqCtx k) : Prop :=
  match ctx.reqType with
  | .insert => ctx.origValue = 0 ∧ ctx.swapValue ≠ 0
  | .update => ctx.origValue ≠ 0 ∧ ctx.swapValue ≠ 0
  | .delete => ctx.origValue ≠ 0 ∧ ctx.swapValue = 0

/-- What holds of one request when the primary has changed `version` times. -/
structure Ok (ctx : KVReqCtx k) (version : ℕ) : Prop where
  kindOk : ctx.KindOk
  phaseOk : ctx.PhaseOk
  tie : ctx.phase = .readPrimary → 0 < ctx.voter.votes.card ∧
    ∀ value, 2 * (ballotsFor ctx.origValue ctx.swapValue ctx.bkReturn value).card ≤ k
  bk1_readPrimary : ctx.phase = .readPrimary →
    ctx.bk1CasList = secondRoundCas ctx.origValue ctx.swapValue ctx.bkReturn
  bk1_empty : ∀ pending, ctx.phase = .bkConsensus0 pending → ctx.bk1CasList = fun _ => none
  bk1_pending : ∀ backup ∈ ctx.pending1, (ctx.bk1CasList backup).isSome
  bk1_return : ∀ backup expected, ctx.bk1CasList backup = some expected →
    ctx.bkReturn backup = expected
  consistent : ctx.notConsistent = false
  finish_old : ctx.consensusState = .finish → ctx.version < version
  swapped : ctx.prSwapped = true ↔ ctx.phase = .finished ∧ ctx.consensusState.isWin = true
  async_old : ctx.variant = .async → ctx.phase = .finished ∨ ctx.phase = .exited →
    ctx.version < version

section Ballots

variable {ctx : KVReqCtx k} (reached : ctx.pending0 = ∅)
  (differs : ∀ backup, ctx.bkReturn backup ≠ ctx.swapValue)

include reached

theorem mem_votes_iff (backup : Fin k) :
    backup ∈ ctx.voter.votes ↔ ctx.bkReturn backup = ctx.origValue := by
  simp [voter, reached]

include differs

theorem ballotsFor_swapValue :
    ballotsFor ctx.origValue ctx.swapValue ctx.bkReturn ctx.swapValue = ctx.voter.votes := by
  ext backup
  rw [mem_ballotsFor, ballot_eq_target_iff, mem_votes_iff reached]
  simp [differs backup]

theorem filter_seen_subset (value : UInt64) :
    (Finset.univ.filter fun backup =>
        backup ∉ ctx.voter.votes ∧ ctx.voter.seen backup = value) ⊆
      ballotsFor ctx.origValue ctx.swapValue ctx.bkReturn value := by
  intro backup member
  rw [Finset.mem_filter, mem_votes_iff reached] at member
  rw [mem_ballotsFor, ballot, if_neg (not_or.mpr ⟨member.2.1, differs backup⟩)]
  exact member.2.2

theorem filter_secondRoundCas :
    (Finset.univ.filter fun backup =>
        (secondRoundCas ctx.origValue ctx.swapValue ctx.bkReturn backup).isSome) =
      Finset.univ \ ctx.voter.votes := by
  ext backup
  rw [Finset.mem_filter, Finset.mem_sdiff, mem_votes_iff reached]
  simp [secondRoundCas, differs backup]

end Ballots

variable {ctx : KVReqCtx k}

theorem KindOk.delete_of_swap (kindOk : ctx.KindOk) (zero : ctx.swapValue = 0) :
    ctx.reqType = .delete := by
  unfold KindOk at kindOk
  cases kind : ctx.reqType <;> simp_all

theorem KindOk.insert_of_orig (kindOk : ctx.KindOk) (zero : ctx.origValue = 0) :
    ctx.reqType = .insert := by
  unfold KindOk at kindOk
  cases kind : ctx.reqType <;> simp_all

theorem Ok.not_swapped {version : ℕ} (ok : ctx.Ok version) (running : ctx.phase ≠ .finished) :
    ctx.prSwapped = false := by
  simpa [running] using ok.swapped

theorem Ok.mono {version later : ℕ} (ok : ctx.Ok version) (bound : version ≤ later) :
    ctx.Ok later :=
  { ok with
    finish_old := fun finish => (ok.finish_old finish).trans_le bound
    async_old := fun async done => (ok.async_old async done).trans_le bound }

end KVReqCtx

namespace SlotSystem

def board (s : SlotSystem k) : Board UInt64 (Fin k) :=
  ⟨s.primary, s.backup, s.history, s.version, s.ops.map KVReqCtx.voter⟩

/-- No delete finds the empty slot at a backup, which it would count as its
own vote. -/
def DeleteMeetsPair (s : SlotSystem k) : SlotEvent k → Prop
  | .act op (.casBackup0 backup) =>
    ∀ ctx ∈ s.ops[op]?, ctx.reqType = .delete → s.backup backup ≠ 0
  | _ => True

/-- No insert that read the primary in an earlier round finds the slot empty
again, at a backup or at the primary. -/
def InsertMeetsRound (s : SlotSystem k) : SlotEvent k → Prop
  | .act op (.casBackup0 backup) =>
    ∀ ctx ∈ s.ops[op]?, ctx.reqType = .insert → ctx.version < s.version → s.backup backup ≠ 0
  | .act op .readPrimary =>
    ∀ ctx ∈ s.ops[op]?, ctx.reqType = .insert → ctx.version < s.version → s.primary ≠ 0
  | _ => True

/-- The assumptions on a step under which the protocol is an election. -/
def Guarded (s : SlotSystem k) (event : SlotEvent k) : Prop :=
  s.DeleteMeetsPair event ∧ s.InsertMeetsRound event

instance (s : SlotSystem k) : (event : SlotEvent k) → Decidable (s.DeleteMeetsPair event)
  | .act op (.casBackup0 _) => inferInstanceAs (Decidable (∀ ctx ∈ s.ops[op]?, _))
  | .start _ _ _ _ | .act _ .checkConsensus | .act _ .readPrimary | .act _ .waitPrimary
    | .act _ (.casBackup1 _) | .act _ .checkSecondRound | .act _ .commitLog
    | .act _ .casPrimary => inferInstanceAs (Decidable True)

instance (s : SlotSystem k) : (event : SlotEvent k) → Decidable (s.InsertMeetsRound event)
  | .act op (.casBackup0 _) => inferInstanceAs (Decidable (∀ ctx ∈ s.ops[op]?, _))
  | .act op .readPrimary => inferInstanceAs (Decidable (∀ ctx ∈ s.ops[op]?, _))
  | .start _ _ _ _ | .act _ .checkConsensus | .act _ .waitPrimary | .act _ (.casBackup1 _)
    | .act _ .checkSecondRound | .act _ .commitLog | .act _ .casPrimary => inferInstanceAs (Decidable True)

instance (s : SlotSystem k) (event : SlotEvent k) : Decidable (s.Guarded event) :=
  inferInstanceAs (Decidable (_ ∧ _))

variable {s : SlotSystem k}

theorem deleteMeetsPair_of_forall (noDelete : ∀ ctx ∈ s.ops, ctx.reqType ≠ .delete)
    (event : SlotEvent k) : s.DeleteMeetsPair event := by
  unfold DeleteMeetsPair
  split
  · exact fun ctx found isDelete => absurd isDelete (noDelete ctx (mem_of_getElem? found))
  · trivial

theorem insertMeetsRound_of_forall (noInsert : ∀ ctx ∈ s.ops, ctx.reqType ≠ .insert)
    (event : SlotEvent k) : s.InsertMeetsRound event := by
  unfold InsertMeetsRound
  split
  · exact fun ctx found isInsert => absurd isInsert (noInsert ctx (mem_of_getElem? found))
  · exact fun ctx found isInsert => absurd isInsert (noInsert ctx (mem_of_getElem? found))
  · trivial

structure Inv (s : SlotSystem k) : Prop where
  boardOk : s.board.Ok
  ctxOk : ∀ (op : ℕ) (ctx : KVReqCtx k), s.ops[op]? = some ctx → ctx.Ok s.version

variable {ctx : KVReqCtx k} {op : ℕ}

theorem board_at (found : s.ops[op]? = some ctx) : s.board.At op ctx.voter := by
  simp [Board.At, board, found]

theorem getElem?_setCtx (found : s.ops[op]? = some ctx) (entry : KVReqCtx k) (other : ℕ) :
    (s.setCtx op entry).ops[other]? = if op = other then some entry else s.ops[other]? := by
  have inRange := (List.getElem?_eq_some_iff.mp found).1
  rw [setCtx, getElem?_set]
  split_ifs with same <;> simp_all

theorem board_setCtx (s : SlotSystem k) (op : ℕ) (entry : KVReqCtx k) :
    (s.setCtx op entry).board = { s.board with voters := s.board.voters.set op entry.voter } := by
  simp [board, setCtx, map_set]

variable {entry : KVReqCtx k}

theorem board_setCtx_of_voter_eq (found : s.ops[op]? = some ctx) (same : entry.voter = ctx.voter) :
    (s.setCtx op entry).board = s.board := by
  rw [board_setCtx, same]
  have unchanged : s.board.voters.set op ctx.voter = s.board.voters := by
    refine ext_getElem? fun other => ?_
    rw [getElem?_set]
    split_ifs with here inRange
    · subst here
      exact (board_at found).symm
    · subst here
      exact absurd (List.getElem?_eq_some_iff.mp (board_at found)).1 inRange
    · rfl
  rw [unchanged]

theorem Inv.setCtx {base : SlotSystem k} (inv : s.Inv) (found : s.ops[op]? = some ctx)
    (sameOps : base.ops = s.ops) (later : s.version ≤ base.version)
    (entryOk : entry.Ok base.version) (boardOk : (base.setCtx op entry).board.Ok) :
    (base.setCtx op entry).Inv := by
  refine ⟨boardOk, fun other req lookup => ?_⟩
  rw [getElem?_setCtx (sameOps ▸ found)] at lookup
  split_ifs at lookup
  · exact some.inj lookup ▸ entryOk
  · exact (inv.ctxOk other req (sameOps ▸ lookup)).mono later

theorem Inv.setCtx_same (inv : s.Inv) (found : s.ops[op]? = some ctx) (entryOk : entry.Ok s.version)
    (same : entry.voter = ctx.voter) : (s.setCtx op entry).Inv :=
  inv.setCtx found rfl le_rfl entryOk (board_setCtx_of_voter_eq found same ▸ inv.boardOk)

theorem inv_initial (k : ℕ) (value : UInt64) : (initial k value).Inv where
  boardOk :=
    { history_version := rfl
      history_injective := fun first firstBound second secondBound _ _ => by
        simp only [board, initial, Nat.le_zero] at firstBound secondBound
        rw [firstBound, secondBound]
      voterOk := by simp [Board.At, board, initial]
      swap_unique := by simp [Board.At, board, initial]
      vote_unique := by simp [Board.At, board, initial]
      winner_unique := by simp [Board.At, board, initial]
      installer := by simp [board, initial]
      backup_free := fun _ _ => rfl
      backup_voted := by simp [Board.Current, Board.At, board, initial]
      seen_other := by simp [Board.Current, Board.At, board, initial]
      winnerOk := by simp [Board.At, board, initial] }
  ctxOk := by simp [initial]

theorem Inv.start (inv : s.Inv) (pos : 0 < k) {reqType : KVRequestType} {swapValue : UInt64}
    (admitted : s.CanStart reqType swapValue) (variant : Variant) (opBuffer : UInt64) :
    Inv { s with
      ops := s.ops ++ [.start reqType variant s.primary swapValue opBuffer s.version] } := by
  have nonzero : k ≠ 0 := pos.ne'
  set entry : KVReqCtx k := .start reqType variant s.primary swapValue opBuffer s.version
    with entryEq
  have phase : entry.phase = .bkConsensus0 Finset.univ := by simp [entryEq, KVReqCtx.start, nonzero]
  have state : entry.consensusState = .non := by simp [entryEq, KVReqCtx.start, nonzero]
  have voter : entry.voter =
      ⟨s.version, s.primary, swapValue, Finset.univ, fun _ => 0, .undecided⟩ := by
    simp [KVReqCtx.voter, KVReqCtx.pending0, KVReqCtx.standing, phase, state,
      KVConsensusState.isWin]
    simp [entryEq, KVReqCtx.start]
  have boardEq : board { s with ops := s.ops ++ [entry] } = s.board.enter swapValue fun _ => 0 := by
    simp [board, Board.enter, voter]
  have fresh : swapValue ≠ 0 → s.Fresh swapValue := by
    intro nonzero
    cases reqType <;> simp_all [CanStart]
  refine ⟨boardEq ▸ inv.boardOk.enter _ ?_ fun nonzero => ⟨?_, (fresh nonzero).2.2⟩, ?_⟩
  · show swapValue ≠ s.primary
    cases reqType <;> simp only [CanStart] at admitted
    · exact admitted.1.symm ▸ admitted.2.1
    · exact fun same => admitted.2.2.2 s.version le_rfl (inv.boardOk.history_version.trans same.symm)
    · exact admitted.2 ▸ admitted.1.symm
  · intro index rival lookup
    obtain ⟨ctx, found, rfl⟩ : ∃ ctx, s.ops[index]? = some ctx ∧ ctx.voter = rival := by
      simpa [Board.At, board] using lookup
    exact (fresh nonzero).2.1 ctx (mem_of_getElem? found)
  · intro other req lookup
    rw [getElem?_append] at lookup
    split_ifs at lookup with inRange
    · exact inv.ctxOk other req lookup
    · obtain rfl : entry = req := by
        rw [getElem?_singleton] at lookup
        split_ifs at lookup
        exact some.inj lookup
      refine
        { kindOk := ?_
          phaseOk := by simp [KVReqCtx.PhaseOk, phase, state]
          tie := by simp [phase]
          bk1_readPrimary := by simp [phase]
          bk1_empty := fun _ _ => rfl
          bk1_pending := by simp [KVReqCtx.pending1, phase]
          bk1_return := by simp [entryEq, KVReqCtx.start]
          consistent := rfl
          finish_old := by simp [state]
          swapped := by simp [entryEq, KVReqCtx.start, nonzero]
          async_old := by simp [phase] }
      cases reqType <;> simp_all [CanStart, KVReqCtx.KindOk, KVReqCtx.start, Fresh]

end SlotSystem

end FuseeFs.Replication
