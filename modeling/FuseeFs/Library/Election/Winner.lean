import FuseeFs.Library.Election.Moves

/-!
# At most one winner per round

The winning conditions are met by one voter at most.  Its swaps at the
remaining backups and at the primary all take effect, and they leave every
replica with its value.
-/

namespace FuseeFs.Library.Election

open Function

universe u v

variable {Value : Type u} {Replica : Type v}
variable [LinearOrder Value] [Fintype Replica] [DecidableEq Replica] [Zero Value]

namespace Board

variable {board : Board Value Replica} {index : ℕ} {voter : Voter Value Replica}

theorem Ok.current_of_primary (ok : board.Ok) (found : board.At index voter)
    (unchanged : board.primary = voter.orig)
    (guarded : voter.version < board.version → voter.orig = 0 → board.primary ≠ 0) :
    board.Current index voter := by
  refine ⟨found, (ok.voterOk index voter found).version_le.eq_of_not_lt fun old => ?_⟩
  by_cases zero : voter.orig = 0
  · exact guarded old zero (unchanged.trans zero)
  · exact ok.primary_ne_orig found old zero unchanged

theorem Ok.wins_current (ok : board.Ok) (found : board.At index voter)
    (undecided : voter.standing = .undecided) (wins : board.Wins voter) :
    board.Current index voter := by
  have voterOk := ok.voterOk index voter found
  rcases wins with majority | ⟨inRound, -⟩
  · refine ⟨found, voterOk.version_le.eq_of_not_lt fun old => ?_⟩
    exact absurd (voterOk.minority old undecided) (not_le.mpr majority)
  · exact ⟨found, inRound⟩

variable {rival : Voter Value Replica}

theorem Ok.seen_vote (ok : board.Ok) (current : board.Current index voter)
    (complete : voter.pending = ∅) {other : ℕ} (opponentCurrent : board.Current other rival)
    (distinct : index ≠ other)
    (alone : ∀ winning winner rest, board.At winning winner → winner.standing = .won rest → winning
      = other) {replica : Replica} (voted : replica ∈ rival.votes) :
    replica ∉ voter.votes ∧ voter.seen replica = rival.swap := by
  have sameRound := current.2.trans opponentCurrent.2.symm
  have notOwn : replica ∉ voter.votes := fun own =>
    distinct (ok.vote_unique _ _ _ _ current.1 opponentCurrent.1 sameRound replica own voted)
  refine ⟨notOwn, ?_⟩
  obtain ⟨source, sender, -, sourceCurrent, held, reason⟩ :=
    ok.seen_other index voter replica current (by simp [complete])
      (fun same => notOwn (by simp [complete, same]))
  have isOpponent : source = other := by
    rcases reason with senderVoted | ⟨rest, won⟩
    · exact ok.vote_unique _ _ _ _ sourceCurrent.1 opponentCurrent.1
        (sourceCurrent.2.trans opponentCurrent.2.symm) replica senderVoted voted
    · exact alone source sender rest sourceCurrent.1 won
  subst isOpponent
  obtain rfl : sender = rival := Option.some.inj (sourceCurrent.1.symm.trans opponentCurrent.1)
  exact held

omit [Zero Value] in
theorem two_mul_card_votes_le
    (noMajority : ∀ value, 2 * (Finset.univ.filter fun replica => replica ∉ voter.votes ∧
      voter.seen replica = value).card ≤ Fintype.card Replica)
    (saw : ∀ replica ∈ rival.votes, replica ∉ voter.votes ∧ voter.seen replica = rival.swap) :
    2 * rival.votes.card ≤ Fintype.card Replica := by
  refine le_trans (Nat.mul_le_mul_left 2 (Finset.card_le_card fun replica voted => ?_))
    (noMajority rival.swap)
  simpa using saw replica voted

/-- At most one voter of a round meets the winning conditions. -/
theorem Ok.no_other_winner (ok : board.Ok) (current : board.Current index voter)
    (undecided : voter.standing = .undecided) (complete : voter.pending = ∅)
    (wins : board.Wins voter) {other : ℕ} {winner : Voter Value Replica} {rest : Finset Replica}
    (found : board.At other winner) : winner.standing ≠ .won rest := by
  intro won
  have winnerCurrent := ok.current_of_won found won
  have sameRound := current.2.trans winnerCurrent.2.symm
  have distinct : index ≠ other := by
    rintro rfl
    obtain rfl : voter = winner := Option.some.inj (current.1.symm.trans found)
    simp [undecided] at won
  have saw : ∀ {replica}, replica ∈ winner.votes →
      replica ∉ voter.votes ∧ voter.seen replica = winner.swap := fun voted =>
    ok.seen_vote current complete winnerCurrent distinct
      (fun _ _ _ opponentFound opponentWon => ok.won_unique found won opponentFound opponentWon)
      voted
  have disjoint := ok.votes_disjoint current.1 found sameRound distinct
  rcases (ok.winnerOk other winner rest found won).beats with majority | ⟨nonempty, others⟩
  · rcases wins with ownMajority | ⟨-, -, -, noMajority, -⟩
    · omega
    · have := two_mul_card_votes_le noMajority fun _ => saw
      omega
  · obtain ⟨_, least⟩ := others index voter current
    rcases wins with ownMajority | ⟨-, ownNonempty, -, -, ownLeast⟩
    · omega
    · -- both values are least, so they are equal, and only `0` is shared
      obtain ⟨replica, voted⟩ := nonempty
      obtain ⟨notOwn, held⟩ := saw voted
      have equal : voter.swap = winner.swap :=
        le_antisymm (held ▸ ownLeast replica notOwn) (least ownNonempty)
      exact (ok.voterOk index voter current.1).seen_ne_swap replica (by simp [complete])
        (held.trans equal.symm)

theorem Ok.win (ok : board.Ok) (found : board.At index voter)
    (undecided : voter.standing = .undecided) (complete : voter.pending = ∅)
    (wins : board.Wins voter) : (board.win index voter).Ok := by
  have current := ok.wins_current found undecided wins
  have noWinner : ∀ {other rival rest}, board.At other rival →
      rival.standing ≠ .won rest := fun lookup =>
    ok.no_other_winner current undecided complete wins lookup
  have voterOk := ok.voterOk index voter found
  set entry : Voter Value Replica :=
    { voter with standing := .won (Finset.univ \ voter.votes) } with entryEq
  have replaces : board.Replaces (board.win index voter) index voter entry :=
    ⟨found, rfl, rfl, rfl, rfl, fun rest won => ⟨_, rfl⟩, by simp [undecided]⟩
  have sawVotes : ∀ replica, replica ∈ voter.votes ∨
      ∃ other rival, other ≠ index ∧ board.Current other rival ∧
        replica ∈ rival.votes ∧ voter.seen replica = rival.swap := by
    intro replica
    by_cases own : voter.seen replica = voter.orig
    · exact .inl (by simp [complete, own])
    · obtain ⟨other, rival, distinct, opponentCurrent, held, voted | ⟨rest, won⟩⟩ :=
        ok.seen_other index voter replica current (by simp [complete]) own
      · exact .inr ⟨other, rival, distinct, opponentCurrent, voted, held⟩
      · exact absurd won (noWinner opponentCurrent.1)
  refine
    { history_version := ok.history_version
      history_injective := ok.history_injective
      voterOk := ?_
      swap_unique := ok.swap_unique_set found rfl rfl
      vote_unique := ok.vote_unique_set found rfl rfl rfl
      winner_unique := ?_
      installer := ok.installer_set found rfl (by simp [undecided])
      backup_free := fun place free => replaces.backup_free ok rfl free
      backup_voted := fun other rival place current voted =>
        replaces.backup_voted ok rfl current voted
      seen_other := replaces.seen_other ok rfl rfl rfl rfl
      winnerOk := ?_ }
  · intro other rival lookup
    rcases replaces.cases lookup with ⟨rfl, rfl⟩ | ⟨-, old⟩
    · exact
        { voterOk with
          installed_of_history := fun nonzero version bound held =>
            absurd (ok.history_ne_swap current bound held) nonzero
          won_current := fun rest won => ⟨current.2, complete⟩
          installed_old := by rintro ⟨⟩
          minority := fun old => absurd current.2 old.ne }
    · exact (ok.voterOk other rival old).congr rfl rfl
  · have onlyEntry : ∀ {other rival}, board.At other rival →
        rival.version = voter.version → rival.standing = .undecided := by
      intro other rival old same
      cases standing : rival.standing with
      | undecided => rfl
      | won rest => exact absurd standing (noWinner old)
      | installed => exact absurd standing (ok.not_installed ⟨old, same.trans current.2⟩)
    intro first firstVoter second secondVoter firstFound secondFound same inFirst inSecond
    rcases replaces.cases firstFound with ⟨rfl, rfl⟩ | ⟨-, firstOld⟩ <;>
      rcases replaces.cases secondFound with ⟨rfl, rfl⟩ | ⟨-, secondOld⟩
    · rfl
    · exact absurd (onlyEntry secondOld same.symm) inSecond
    · exact absurd (onlyEntry firstOld same) inFirst
    · exact ok.winner_unique _ _ _ _ firstOld secondOld same inFirst inSecond
  · intro other rival rest lookup won
    rcases replaces.cases lookup with ⟨rfl, rfl⟩ | ⟨-, old⟩
    · obtain rfl : Finset.univ \ voter.votes = rest := by simpa [entryEq] using won
      refine
        { backup_rest := fun replica member => ?_
          backup_own := fun replica absent => ?_
          saw_votes := fun replica => (sawVotes replica).imp_right (replaces.saw_votes rfl)
          beats := wins.imp_right ?_ }
      · rcases sawVotes replica with own | ⟨source, sender, -, senderCurrent, voted, held⟩
        · simp [own] at member
        · exact (ok.backup_eq_swap noWinner senderCurrent voted).trans held.symm
      · have voted : replica ∈ voter.votes := by simpa using absent
        exact (ok.backup_eq_swap noWinner current voted : board.backup replica = voter.swap)
      · rintro ⟨-, nonempty, few, noMajority, least⟩
        refine ⟨nonempty, replaces.beats rfl fun source sender senderCurrent => ?_⟩
        by_cases same : other = source
        · subst same
          obtain rfl : voter = sender := Option.some.inj (found.symm.trans senderCurrent.1)
          exact ⟨few, fun _ => le_rfl⟩
        · have saw : ∀ {replica}, replica ∈ sender.votes →
              replica ∉ voter.votes ∧ voter.seen replica = sender.swap := fun voted =>
            ok.seen_vote current complete senderCurrent same
              (fun _ _ _ winnerFound winnerWon => absurd winnerWon (noWinner winnerFound)) voted
          refine ⟨two_mul_card_votes_le noMajority fun _ => saw, fun ⟨replica, voted⟩ => ?_⟩
          exact (saw voted).2 ▸ least replica (saw voted).1
    · exact absurd won (noWinner old)

theorem Ok.overwrite (ok : board.Ok) (found : board.At index voter) {rest : Finset Replica}
    (won : voter.standing = .won rest) (replica : Replica) :
    (board.overwrite index voter rest replica).Ok := by
  have voterOk := ok.voterOk index voter found
  have winnerOk := ok.winnerOk index voter rest found won
  set entry : Voter Value Replica := { voter with standing := .won (rest.erase replica) } with entryEq
  have replaces :
      board.Replaces (board.overwrite index voter rest replica) index voter entry :=
    ⟨found, rfl, rfl, rfl, rfl, fun _ _ => ⟨_, rfl⟩, by simp [won]⟩
  refine
    { history_version := ok.history_version
      history_injective := ok.history_injective
      voterOk := ?_
      swap_unique := ok.swap_unique_set found rfl rfl
      vote_unique := ok.vote_unique_set found rfl rfl rfl
      winner_unique := ok.winner_unique_set found rfl rfl (by simp [won])
      installer := ok.installer_set found rfl (by simp [won])
      backup_free := fun place free => absurd (replaces.backup_free ok rfl free)
        (ok.backup_ne_primary_of_won found won place)
      backup_voted := ?_
      seen_other := replaces.seen_other ok rfl rfl rfl rfl
      winnerOk := ?_ }
  · intro other rival lookup
    rcases replaces.cases lookup with ⟨rfl, rfl⟩ | ⟨-, old⟩
    · exact
        { voterOk with
          installed_of_history := fun nonzero version bound held =>
            absurd (voterOk.installed_of_history nonzero version bound held) (by simp [won])
          won_current := fun _ _ => voterOk.won_current rest won
          installed_old := by rintro ⟨⟩
          minority := fun old => absurd (voterOk.won_current rest won).1 old.ne }
    · exact (ok.voterOk other rival old).congr rfl rfl
  · intro other rival place current voted
    by_cases same : place = replica
    · exact .inr ⟨index, entry, _, replaces.entry_at, rfl, same ▸ update_self ..⟩
    · have unchanged : (board.overwrite index voter rest replica).backup place =
          board.backup place := update_of_ne same ..
      rw [unchanged]
      exact replaces.backup_voted ok rfl current voted
  · intro other rival left lookup opponentWon
    rcases replaces.cases lookup with ⟨rfl, rfl⟩ | ⟨distinct, old⟩
    · obtain rfl : rest.erase replica = left := by simpa [entryEq] using opponentWon
      refine
        { backup_rest := fun place member => ?_
          backup_own := fun place absent => ?_
          saw_votes := fun place => (winnerOk.saw_votes place).imp_right (replaces.saw_votes rfl)
          beats := winnerOk.beats.imp_right (And.imp_right (replaces.beats rfl)) }
      · rw [Finset.mem_erase] at member
        exact (update_of_ne member.1 ..).trans (winnerOk.backup_rest place member.2)
      · by_cases same : place = replica
        · exact same ▸ update_self ..
        · exact (update_of_ne same ..).trans
            (winnerOk.backup_own place fun member => absent (Finset.mem_erase.mpr ⟨same, member⟩))
    · exact absurd (ok.won_unique found won old opponentWon) distinct

/-- The winner writes the primary; every voter of the round is out of date. -/
theorem Ok.install (ok : board.Ok) (found : board.At index voter)
    (won : voter.standing = .won ∅) : (board.install index voter).Ok := by
  have voterOk := ok.voterOk index voter found
  have winnerOk := ok.winnerOk index voter ∅ found won
  have current := ok.current_of_won found won
  set entry : Voter Value Replica := { voter with standing := .installed } with entryEq
  have voters : (board.install index voter).voters = board.voters.set index entry := rfl
  have oldVersion : ∀ {other rival}, (board.install index voter).At other rival →
      rival.version ≤ board.version := by
    intro other rival lookup
    rcases at_cases voters lookup with ⟨-, rfl⟩ | ⟨-, old⟩
    · exact voterOk.version_le
    · exact (ok.voterOk other rival old).version_le
  have noCurrent : ∀ {other rival}, ¬ (board.install index voter).Current other rival :=
    fun now => absurd (oldVersion now.1) (by rw [now.2]; exact Nat.not_succ_le_self _)
  have oldHistory : ∀ {version}, version ≤ board.version →
      (board.install index voter).history version = board.history version := fun bound =>
    update_of_ne (by omega) ..
  have newHistory : (board.install index voter).history (board.version + 1) = voter.swap :=
    update_self ..
  refine
    { history_version := newHistory
      history_injective := ?_, voterOk := ?_
      swap_unique := ok.swap_unique_set found voters rfl
      vote_unique := ok.vote_unique_set found voters rfl rfl
      winner_unique := ok.winner_unique_set found voters rfl (by simp [won])
      installer := ?_
      backup_free := fun place _ => winnerOk.backup_own place (Finset.notMem_empty place)
      backup_voted := fun other rival place now => absurd now noCurrent
      seen_other := fun other rival place now => absurd now noCurrent
      winnerOk := ?_ }
  · have fresh : ∀ {version}, version ≤ board.version → voter.swap ≠ 0 →
        board.history version ≠ voter.swap := fun bound nonzero held =>
      nonzero (ok.history_ne_swap current bound held)
    intro first firstBound second secondBound same nonzero
    rcases Nat.le_succ_iff.mp firstBound with firstOld | rfl <;>
      rcases Nat.le_succ_iff.mp secondBound with secondOld | rfl
    · rw [oldHistory firstOld, oldHistory secondOld] at same
      exact ok.history_injective first firstOld second secondOld same
        (oldHistory firstOld ▸ nonzero)
    · rw [oldHistory firstOld] at same nonzero
      exact absurd (same.trans newHistory) (fresh firstOld (newHistory ▸ same ▸ nonzero))
    · rw [oldHistory secondOld] at same
      exact absurd (same.symm.trans newHistory) (fresh secondOld (newHistory ▸ nonzero))
    · rfl
  · intro other rival lookup
    rcases at_cases voters lookup with ⟨rfl, rfl⟩ | ⟨distinct, old⟩
    · exact
        { voterOk with
          version_le := voterOk.version_le.trans (Nat.le_succ _)
          history_version := (oldHistory voterOk.version_le).trans voterOk.history_version
          installed_of_history := fun _ _ _ _ => rfl
          won_current := by rintro _ ⟨⟩
          installed_old := fun _ => Nat.lt_succ_of_le voterOk.version_le
          minority := by rintro _ ⟨⟩ }
    · have opponentOk := ok.voterOk other rival old
      refine
        { opponentOk with
          version_le := opponentOk.version_le.trans (Nat.le_succ _)
          history_version := (oldHistory opponentOk.version_le).trans opponentOk.history_version
          installed_of_history := ?_
          won_current := fun rest now => absurd (ok.won_unique found won old now) distinct
          installed_old := fun now => (opponentOk.installed_old now).trans (Nat.lt_succ_self _)
          minority := ?_ }
      · intro nonzero version bound held
        rcases Nat.le_succ_iff.mp bound with inPast | rfl
        · exact opponentOk.installed_of_history nonzero version inPast
            ((oldHistory inPast).symm.trans held)
        · exact absurd (ok.swap_unique _ _ _ _ old found (held.symm.trans newHistory) nonzero)
            distinct
      · intro _ standing
        rcases opponentOk.version_le.lt_or_eq with past | now
        · exact opponentOk.minority past standing
        · have disjoint := ok.votes_disjoint old found (now.trans current.2.symm) distinct
          rcases winnerOk.beats with majority | ⟨-, others⟩
          · omega
          · exact (others other rival ⟨old, now⟩).1
  · intro version past
    rcases (Nat.le_of_lt_succ past).lt_or_eq with before | rfl
    · exact ok.installer_set found voters (by simp [won]) version before
    · exact ⟨index, entry, at_self voters found, current.2, rfl⟩
  · intro other rival left lookup opponentWon
    rcases at_cases voters lookup with ⟨-, rfl⟩ | ⟨distinct, old⟩
    · cases opponentWon
    · exact absurd (ok.won_unique found won old opponentWon) distinct

end Board

end FuseeFs.Library.Election
