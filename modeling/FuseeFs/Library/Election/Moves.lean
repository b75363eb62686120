import FuseeFs.Library.Election.Invariant

/-!
# The moves of a voter, and how far they keep the invariant

Entering a round and casting a ballot.  The moves of a winner follow in
`FuseeFs.Library.Election.Winner`.
-/

namespace FuseeFs.Library.Election

open List Option Function

universe u v

variable {Value : Type u} {Replica : Type v}
variable [LinearOrder Value] [Fintype Replica] [DecidableEq Replica]

namespace Board

def enter (board : Board Value Replica) (swap : Value) (seen : Replica → Value) :
    Board Value Replica :=
  { board with
    voters := board.voters ++
      [⟨board.version, board.primary, swap, Finset.univ, seen, .undecided⟩] }

def cast (board : Board Value Replica) (index : ℕ) (voter : Voter Value Replica)
    (replica : Replica) : Board Value Replica :=
  { board with
    backup := if board.backup replica = voter.orig then
        update board.backup replica voter.swap
      else board.backup
    voters := board.voters.set index
      { voter with
        pending := voter.pending.erase replica
        seen := update voter.seen replica (board.backup replica) } }

def win (board : Board Value Replica) (index : ℕ) (voter : Voter Value Replica) :
    Board Value Replica :=
  { board with
    voters := board.voters.set index { voter with standing := .won (Finset.univ \ voter.votes) } }

def overwrite (board : Board Value Replica) (index : ℕ) (voter : Voter Value Replica)
    (rest : Finset Replica) (replica : Replica) : Board Value Replica :=
  { board with
    backup := update board.backup replica voter.swap
    voters := board.voters.set index { voter with standing := .won (rest.erase replica) } }

def install (board : Board Value Replica) (index : ℕ) (voter : Voter Value Replica) :
    Board Value Replica where
  primary := voter.swap
  backup := board.backup
  history := update board.history (board.version + 1) voter.swap
  version := board.version + 1
  voters := board.voters.set index { voter with standing := .installed }

/-- The winning conditions: a majority, or else the round is still open, nobody
is seen to have a majority, and no smaller value is seen. -/
def Wins (board : Board Value Replica) (voter : Voter Value Replica) : Prop :=
  Fintype.card Replica < 2 * voter.votes.card ∨
    voter.version = board.version ∧ voter.votes.Nonempty ∧
      2 * voter.votes.card ≤ Fintype.card Replica ∧
      (∀ value, 2 * (Finset.univ.filter fun replica =>
        replica ∉ voter.votes ∧ voter.seen replica = value).card ≤ Fintype.card Replica) ∧
      ∀ replica, replica ∉ voter.votes → voter.swap ≤ voter.seen replica

section Edited

variable {board after : Board Value Replica} {index other : ℕ}
  {voter entry rival : Voter Value Replica}
  (voters : after.voters = board.voters.set index entry)
include voters
omit [LinearOrder Value] [Fintype Replica] [DecidableEq Replica]

theorem at_cases (lookup : after.At other rival) :
    other = index ∧ rival = entry ∨ other ≠ index ∧ board.At other rival := by
  rw [At, voters, getElem?_set] at lookup
  split_ifs at lookup with same inRange
  · exact .inl ⟨same.symm, (some.inj lookup).symm⟩
  · exact .inr ⟨fun equal => same equal.symm, lookup⟩

theorem at_self (found : board.At index voter) : after.At index entry := by
  rw [At, voters, getElem?_set, if_pos rfl, if_pos (List.getElem?_eq_some_iff.mp found).1]

theorem at_of_ne (distinct : other ≠ index) (lookup : board.At other rival) :
    after.At other rival := by
  rw [At, voters, getElem?_set, if_neg (Ne.symm distinct)]
  exact lookup

end Edited

section Replaced

variable {board : Board Value Replica} {index : ℕ} {voter : Voter Value Replica}

/-- The entry of one voter is replaced by one of the same round, with the
same values and votes; a winner stays a winner. -/
structure Replaces (board after : Board Value Replica) (index : ℕ)
    (voter entry : Voter Value Replica) : Prop where
  found : board.At index voter
  voters : after.voters = board.voters.set index entry
  version : entry.version = voter.version
  swap : entry.swap = voter.swap
  votes : entry.votes = voter.votes
  won : ∀ rest, voter.standing = .won rest → ∃ left, entry.standing = .won left
  notInstalled : voter.standing ≠ .installed

namespace Replaces

variable {after : Board Value Replica} {entry : Voter Value Replica}
  (replaces : board.Replaces after index voter entry)
include replaces

variable {other : ℕ} {rival : Voter Value Replica}

theorem cases (lookup : after.At other rival) :
    other = index ∧ rival = entry ∨ other ≠ index ∧ board.At other rival :=
  at_cases replaces.voters lookup

theorem entry_at : after.At index entry :=
  at_self replaces.voters replaces.found

theorem keep (lookup : board.At other rival) :
    ∃ kept, after.At other kept ∧ kept.version = rival.version ∧
      kept.swap = rival.swap ∧ kept.votes = rival.votes ∧
      ∀ rest, rival.standing = .won rest → ∃ left, kept.standing = .won left := by
  by_cases same : other = index
  · subst same
    obtain rfl : voter = rival := some.inj (replaces.found.symm.trans lookup)
    exact ⟨entry, replaces.entry_at, replaces.version, replaces.swap, replaces.votes, replaces.won⟩
  · exact ⟨rival, at_of_ne replaces.voters same lookup, rfl, rfl, rfl, fun rest won => ⟨rest, won⟩⟩

theorem back (lookup : after.At other rival) :
    ∃ old, board.At other old ∧ rival.version = old.version ∧
      rival.swap = old.swap ∧ rival.votes = old.votes := by
  rcases replaces.cases lookup with ⟨rfl, rfl⟩ | ⟨-, old⟩
  · exact ⟨voter, replaces.found, replaces.version, replaces.swap, replaces.votes⟩
  · exact ⟨rival, old, rfl, rfl, rfl⟩

variable (sameVersion : after.version = board.version)
include sameVersion

theorem source {replica : Replica} {value : Value}
    (origin : ∃ source sender, source ≠ other ∧ board.Current source sender ∧ value = sender.swap ∧
      (replica ∈ sender.votes ∨ ∃ rest, sender.standing = .won rest)) :
    ∃ source sender, source ≠ other ∧ after.Current source sender ∧
      value = sender.swap ∧ (replica ∈ sender.votes ∨ ∃ rest, sender.standing = .won rest) := by
  obtain ⟨source, _, distinct, current, held, reason⟩ := origin
  obtain ⟨kept, keptAt, version, swap, votes, stays⟩ := replaces.keep current.1
  refine ⟨source, kept, distinct, ⟨keptAt, (version.trans current.2).trans sameVersion.symm⟩,
    held.trans swap.symm, reason.imp (fun voted => votes ▸ voted) ?_⟩
  rintro ⟨rest, won⟩
  exact stays rest won

theorem saw_votes {replica : Replica} {value : Value}
    (origin : ∃ source sender, source ≠ other ∧ board.Current source sender ∧ replica ∈
      sender.votes ∧ value = sender.swap) :
    ∃ source sender, source ≠ other ∧ after.Current source sender ∧
      replica ∈ sender.votes ∧ value = sender.swap := by
  obtain ⟨source, _, distinct, current, voted, held⟩ := origin
  obtain ⟨kept, keptAt, version, swap, votes, -⟩ := replaces.keep current.1
  exact ⟨source, kept, distinct, ⟨keptAt, (version.trans current.2).trans sameVersion.symm⟩,
    votes ▸ voted, held.trans swap.symm⟩

theorem beats {least : Value}
    (others : ∀ other rival, board.Current other rival →
      2 * rival.votes.card ≤ Fintype.card Replica ∧ (rival.votes.Nonempty → least ≤ rival.swap))
    (other : ℕ) (rival : Voter Value Replica) (current : after.Current other rival) :
    2 * rival.votes.card ≤ Fintype.card Replica ∧ (rival.votes.Nonempty → least ≤ rival.swap) := by
  obtain ⟨old, oldAt, version, swap, votes⟩ := replaces.back current.1
  rw [swap, votes]
  exact others other old ⟨oldAt, version.symm.trans (current.2.trans sameVersion)⟩

end Replaces

end Replaced

variable [Zero Value]

theorem VoterOk.congr {board after : Board Value Replica} {voter : Voter Value Replica}
    (ok : board.VoterOk voter) (sameVersion : after.version = board.version)
    (sameHistory : after.history = board.history) : after.VoterOk voter where
  version_le := sameVersion ▸ ok.version_le
  history_version := sameHistory ▸ ok.history_version
  swap_ne_orig := ok.swap_ne_orig
  seen_ne_swap := ok.seen_ne_swap
  installed_of_history := by simpa only [sameVersion, sameHistory] using ok.installed_of_history
  won_current := sameVersion ▸ ok.won_current
  installed_old := sameVersion ▸ ok.installed_old
  minority := sameVersion ▸ ok.minority

section Edited

variable {board after : Board Value Replica} {index : ℕ} {voter entry : Voter Value Replica}
  (ok : board.Ok) (found : board.At index voter)
  (voters : after.voters = board.voters.set index entry)
include ok found voters

theorem Ok.swap_unique_set (swap : entry.swap = voter.swap) (first : ℕ)
    (firstVoter : Voter Value Replica) (second : ℕ) (secondVoter : Voter Value Replica)
    (firstFound : after.At first firstVoter) (secondFound : after.At second secondVoter)
    (same : firstVoter.swap = secondVoter.swap) (nonzero : firstVoter.swap ≠ 0) :
    first = second := by
  rcases at_cases voters firstFound with ⟨rfl, rfl⟩ | ⟨-, firstOld⟩ <;>
    rcases at_cases voters secondFound with ⟨rfl, rfl⟩ | ⟨-, secondOld⟩
  · rfl
  · exact ok.swap_unique _ _ _ _ found secondOld (swap ▸ same) (swap ▸ nonzero)
  · exact ok.swap_unique _ _ _ _ firstOld found (same.trans swap) nonzero
  · exact ok.swap_unique _ _ _ _ firstOld secondOld same nonzero

theorem Ok.vote_unique_set (version : entry.version = voter.version)
    (votes : entry.votes = voter.votes) (first : ℕ) (firstVoter : Voter Value Replica) (second : ℕ)
    (secondVoter : Voter Value Replica) (firstFound : after.At first firstVoter)
    (secondFound : after.At second secondVoter) (same : firstVoter.version = secondVoter.version)
    (replica : Replica) (inFirst : replica ∈ firstVoter.votes)
    (inSecond : replica ∈ secondVoter.votes) : first = second := by
  rcases at_cases voters firstFound with ⟨rfl, rfl⟩ | ⟨-, firstOld⟩ <;>
    rcases at_cases voters secondFound with ⟨rfl, rfl⟩ | ⟨-, secondOld⟩
  · rfl
  · exact ok.vote_unique _ _ _ _ found secondOld (version ▸ same) replica (votes ▸ inFirst) inSecond
  · exact ok.vote_unique _ _ _ _ firstOld found (same.trans version) replica inFirst
      (votes ▸ inSecond)
  · exact ok.vote_unique _ _ _ _ firstOld secondOld same replica inFirst inSecond

theorem Ok.winner_unique_set (version : entry.version = voter.version)
    (decided : entry.standing ≠ .undecided → voter.standing ≠ .undecided) (first : ℕ)
    (firstVoter : Voter Value Replica) (second : ℕ) (secondVoter : Voter Value Replica)
    (firstFound : after.At first firstVoter) (secondFound : after.At second secondVoter)
    (same : firstVoter.version = secondVoter.version) (inFirst : firstVoter.standing ≠ .undecided)
    (inSecond : secondVoter.standing ≠ .undecided) : first = second := by
  rcases at_cases voters firstFound with ⟨rfl, rfl⟩ | ⟨-, firstOld⟩ <;>
    rcases at_cases voters secondFound with ⟨rfl, rfl⟩ | ⟨-, secondOld⟩
  · rfl
  · exact ok.winner_unique _ _ _ _ found secondOld (version ▸ same) (decided inFirst) inSecond
  · exact ok.winner_unique _ _ _ _ firstOld found (same.trans version) inFirst (decided inSecond)
  · exact ok.winner_unique _ _ _ _ firstOld secondOld same inFirst inSecond

theorem Ok.installer_set (notInstalled : voter.standing ≠ .installed) (version : ℕ)
    (past : version < board.version) :
    ∃ other rival, after.At other rival ∧ rival.version = version ∧
      rival.standing = .installed := by
  obtain ⟨other, rival, lookup, sameVersion, installed⟩ := ok.installer version past
  refine ⟨other, rival, at_of_ne voters ?_ lookup, sameVersion, installed⟩
  rintro rfl
  obtain rfl : voter = rival := some.inj (found.symm.trans lookup)
  exact notInstalled installed

end Edited

section Moves

variable {board : Board Value Replica} {index : ℕ} {voter : Voter Value Replica}

theorem Ok.enter (ok : board.Ok) {swap : Value}
    (seen : Replica → Value) (changes : swap ≠ board.primary)
    (fresh : swap ≠ 0 → (∀ index voter, board.At index voter → voter.swap ≠ swap) ∧
      ∀ version ≤ board.version, board.history version ≠ swap) :
    (board.enter swap seen).Ok := by
  set entered : Voter Value Replica :=
    ⟨board.version, board.primary, swap, Finset.univ, seen, .undecided⟩ with enteredEq
  have noVotes : entered.votes = ∅ := by ext; simp [enteredEq]
  have cases : ∀ {other rival}, (board.enter swap seen).At other rival →
      board.At other rival ∨ other = board.voters.length ∧ rival = entered := by
    intro other rival found
    simp only [At, Board.enter, getElem?_append] at found
    split_ifs at found with inRange
    · exact .inl found
    · rw [getElem?_singleton] at found
      split_ifs at found with isLast
      exact .inr ⟨by omega, (some.inj found).symm⟩
  have keep : ∀ {other rival}, board.At other rival →
      (board.enter swap seen).At other rival := by
    intro other rival found
    have inRange := (List.getElem?_eq_some_iff.mp found).1
    simp only [At, Board.enter, getElem?_append_left inRange]
    exact found
  have voted : ∀ {other rival replica}, (board.enter swap seen).At other rival →
      replica ∈ rival.votes → board.At other rival := by
    intro other rival replica found member
    rcases cases found with old | ⟨-, rfl⟩
    · exact old
    · simp [noVotes] at member
  have decided : ∀ {other rival}, (board.enter swap seen).At other rival →
      rival.standing ≠ .undecided → board.At other rival := by
    intro other rival found standing
    rcases cases found with old | ⟨-, rfl⟩
    · exact old
    · exact absurd rfl standing
  refine
    { history_version := ok.history_version
      history_injective := ok.history_injective
      voterOk := ?_, swap_unique := ?_, vote_unique := ?_, winner_unique := ?_
      installer := ?_
      backup_free := ?_, backup_voted := ?_, seen_other := ?_, winnerOk := ?_ }
  · intro other rival found
    rcases cases found with old | ⟨-, rfl⟩
    · exact (ok.voterOk other rival old).congr rfl rfl
    · exact
        { version_le := le_rfl
          history_version := ok.history_version
          swap_ne_orig := changes
          seen_ne_swap := fun replica absent => absurd (Finset.mem_univ replica) absent
          installed_of_history := fun nonzero version bound held =>
            absurd held ((fresh nonzero).2 version bound)
          won_current := by rintro _ ⟨⟩
          installed_old := by rintro ⟨⟩
          minority := fun old => absurd old (lt_irrefl _) }
  · intro first firstVoter second secondVoter firstFound secondFound same nonzero
    rcases cases firstFound with firstOld | ⟨rfl, rfl⟩ <;>
      rcases cases secondFound with secondOld | ⟨rfl, rfl⟩
    · exact ok.swap_unique _ _ _ _ firstOld secondOld same nonzero
    · exact absurd same ((fresh fun zero => nonzero (same.trans zero)).1 _ _ firstOld)
    · exact absurd same.symm ((fresh nonzero).1 _ _ secondOld)
    · rfl
  · intro first firstVoter second secondVoter firstFound secondFound same replica inFirst inSecond
    exact ok.vote_unique _ _ _ _ (voted firstFound inFirst) (voted secondFound inSecond) same
      replica inFirst inSecond
  · intro first firstVoter second secondVoter firstFound secondFound same inFirst inSecond
    exact ok.winner_unique _ _ _ _ (decided firstFound inFirst) (decided secondFound inSecond) same
      inFirst inSecond
  · intro version past
    obtain ⟨other, rival, found, rest⟩ := ok.installer version past
    exact ⟨other, rival, keep found, rest⟩
  · intro replica free
    exact ok.backup_free replica fun other rival current =>
      free other rival ⟨keep current.1, current.2⟩
  · intro other rival replica current member
    rcases ok.backup_voted other rival replica ⟨voted current.1 member, current.2⟩ member with
      own | ⟨winning, winner, rest, found, won, held⟩
    · exact .inl own
    · exact .inr ⟨winning, winner, rest, keep found, won, held⟩
  · intro other rival replica current reached differs
    rcases cases current.1 with old | ⟨-, rfl⟩
    · obtain ⟨source, sender, distinct, sourceCurrent, rest⟩ :=
        ok.seen_other other rival replica ⟨old, current.2⟩ reached differs
      exact ⟨source, sender, distinct, ⟨keep sourceCurrent.1, sourceCurrent.2⟩, rest⟩
    · exact absurd (Finset.mem_univ replica) reached
  · intro other rival rest found won
    have winnerOk := ok.winnerOk other rival rest (decided found (by simp [won])) won
    refine ⟨winnerOk.backup_rest, winnerOk.backup_own, fun replica => ?_, ?_⟩
    · refine (winnerOk.saw_votes replica).imp_right ?_
      rintro ⟨source, sender, distinct, current, rest⟩
      exact ⟨source, sender, distinct, ⟨keep current.1, current.2⟩, rest⟩
    · refine winnerOk.beats.imp_right ?_
      rintro ⟨nonempty, others⟩
      refine ⟨nonempty, fun source sender current => ?_⟩
      rcases cases current.1 with old | ⟨-, rfl⟩
      · exact others source sender ⟨old, current.2⟩
      · simp [noVotes]

namespace Replaces

variable {after : Board Value Replica} {entry : Voter Value Replica}
  (replaces : board.Replaces after index voter entry) (ok : board.Ok)
  (sameVersion : after.version = board.version)
include replaces ok sameVersion

theorem backup_free {replica : Replica}
    (free : ∀ other rival, after.Current other rival → replica ∉ rival.votes) :
    board.backup replica = board.primary := by
  refine ok.backup_free replica fun other rival current => ?_
  obtain ⟨kept, keptAt, version, -, votes, -⟩ := replaces.keep current.1
  exact votes ▸ free other kept ⟨keptAt, (version.trans current.2).trans sameVersion.symm⟩

theorem backup_voted {other : ℕ} {rival : Voter Value Replica} {replica : Replica}
    (current : after.Current other rival) (voted : replica ∈ rival.votes) :
    board.backup replica = rival.swap ∨
      ∃ winning winner rest, after.At winning winner ∧ winner.standing = .won rest ∧
        board.backup replica = winner.swap := by
  obtain ⟨old, oldAt, version, swap, votes⟩ := replaces.back current.1
  have oldCurrent : board.Current other old :=
    ⟨oldAt, version.symm.trans (current.2.trans sameVersion)⟩
  rcases ok.backup_voted other old replica oldCurrent (votes ▸ voted) with
    own | ⟨winning, winner, rest, winnerAt, won, held⟩
  · exact .inl (own.trans swap.symm)
  · obtain ⟨kept, keptAt, -, keptSwap, -, stays⟩ := replaces.keep winnerAt
    obtain ⟨left, keptWon⟩ := stays rest won
    exact .inr ⟨winning, kept, left, keptAt, keptWon, held.trans keptSwap.symm⟩

theorem seen_other (orig : entry.orig = voter.orig) (pending : entry.pending = voter.pending)
    (seen : entry.seen = voter.seen) (other : ℕ) (rival : Voter Value Replica)
    (replica : Replica) (current : after.Current other rival)
    (reached : replica ∉ rival.pending) (differs : rival.seen replica ≠ rival.orig) :
    ∃ source sender, source ≠ other ∧ after.Current source sender ∧
      rival.seen replica = sender.swap ∧
      (replica ∈ sender.votes ∨ ∃ rest, sender.standing = .won rest) := by
  have inRound := current.2.trans sameVersion
  refine replaces.source sameVersion ?_
  rcases replaces.cases current.1 with ⟨rfl, rfl⟩ | ⟨-, old⟩
  · rw [seen, orig] at differs
    rw [seen]
    exact ok.seen_other other voter replica ⟨replaces.found, replaces.version.symm.trans inRound⟩
      (pending ▸ reached) differs
  · exact ok.seen_other other rival replica ⟨old, inRound⟩ reached differs

end Replaces

theorem Ok.cast_miss (ok : board.Ok) (found : board.At index voter)
    (undecided : voter.standing = .undecided) {replica : Replica}
    (reaches : replica ∈ voter.pending) (misses : board.backup replica ≠ voter.orig)
    (guarded : voter.swap = 0 → board.backup replica ≠ 0) :
    (board.cast index voter replica).Ok := by
  set entry : Voter Value Replica :=
    { voter with
      pending := voter.pending.erase replica
      seen := update voter.seen replica (board.backup replica) } with entryEq
  have sameVotes : entry.votes = voter.votes := by
    ext other
    by_cases same : other = replica
    · subst same
      simp [entryEq, misses, reaches]
    · simp [entryEq, same]
  have notVoted : replica ∉ voter.votes := by simp [reaches]
  have sameBackup : (board.cast index voter replica).backup = board.backup := if_neg misses
  have replaces : board.Replaces (board.cast index voter replica) index voter entry :=
    ⟨found, rfl, rfl, rfl, sameVotes, fun rest won => absurd (undecided.symm.trans won) (by simp),
      by simp [undecided]⟩
  have voterOk := ok.voterOk index voter found
  have opponents : ∀ other rival, board.Current other rival →
      (replica ∈ rival.votes ∨ ∃ rest, rival.standing = .won rest) → other ≠ index := by
    rintro other rival current reason rfl
    obtain rfl : voter = rival := some.inj (found.symm.trans current.1)
    rcases reason with voted | ⟨rest, won⟩
    · exact notVoted voted
    · simp [undecided] at won
  -- the backup holds the primary's value or that of another voter of this round
  have differs : board.backup replica ≠ voter.swap := by
    intro same
    by_cases zero : voter.swap = 0
    · exact guarded zero (same.trans zero)
    rcases ok.backup_cases replica with atPrimary | ⟨other, rival, current, held, reason⟩
    · have installed := voterOk.installed_of_history zero board.version le_rfl
        (by rw [ok.history_version, ← atPrimary, same])
      simp [undecided] at installed
    · exact opponents other rival current reason
        (ok.swap_unique index voter other rival found current.1 (same.symm.trans held) zero).symm
  refine
    { history_version := ok.history_version
      history_injective := ok.history_injective
      voterOk := ?_
      swap_unique := ok.swap_unique_set found rfl rfl
      vote_unique := ok.vote_unique_set found rfl rfl sameVotes
      winner_unique := ok.winner_unique_set found rfl rfl id
      installer := ok.installer_set found rfl (by simp [undecided])
      backup_free := fun place free => sameBackup ▸ replaces.backup_free ok rfl free
      backup_voted := fun other rival place current voted =>
        sameBackup ▸ replaces.backup_voted ok rfl current voted
      seen_other := ?_
      winnerOk := ?_ }
  · intro other rival lookup
    rcases replaces.cases lookup with ⟨rfl, rfl⟩ | ⟨-, old⟩
    · refine
        { voterOk with
          seen_ne_swap := ?_
          won_current := fun rest won => absurd (undecided.symm.trans won) (by simp)
          minority := fun old standing => sameVotes ▸ voterOk.minority old standing }
      intro place reached
      by_cases same : place = replica
      · subst same
        simpa [entryEq] using differs
      · have := voterOk.seen_ne_swap place (by simpa [entryEq, same] using reached)
        simpa [entryEq, same] using this
    · exact (ok.voterOk other rival old).congr rfl rfl
  · intro other rival place current reached differs
    refine replaces.source rfl ?_
    rcases replaces.cases current.1 with ⟨rfl, rfl⟩ | ⟨-, old⟩
    · by_cases same : place = replica
      · subst same
        have atPrimary := ok.orig_eq_primary ⟨found, current.2⟩
        rcases ok.backup_cases place with free | ⟨source, sender, sourceCurrent, held, reason⟩
        · exact absurd (free.trans atPrimary.symm) misses
        · refine ⟨source, sender, opponents source sender sourceCurrent reason, sourceCurrent, ?_,
            reason⟩
          simpa [entryEq] using held
      · have seenSame : entry.seen place = voter.seen place := by simp [entryEq, same]
        rw [seenSame] at differs ⊢
        exact ok.seen_other other voter place ⟨found, current.2⟩
          (by simpa [entryEq, same] using reached) differs
    · exact ok.seen_other other rival place ⟨old, current.2⟩ reached differs
  · intro other rival rest lookup won
    rcases replaces.cases lookup with ⟨rfl, rfl⟩ | ⟨-, old⟩
    · exact absurd (undecided.symm.trans won) (by simp)
    · have winnerOk := ok.winnerOk other rival rest old won
      exact
        { backup_rest := sameBackup ▸ winnerOk.backup_rest
          backup_own := sameBackup ▸ winnerOk.backup_own
          saw_votes := fun place => (winnerOk.saw_votes place).imp_right (replaces.saw_votes rfl)
          beats := winnerOk.beats.imp_right (And.imp_right (replaces.beats rfl)) }

/-- A swap that succeeds is a vote of the present round; nobody can have won
that round yet. -/
theorem Ok.cast_vote (ok : board.Ok) (found : board.At index voter)
    (undecided : voter.standing = .undecided) {replica : Replica}
    (reaches : replica ∈ voter.pending) (hits : board.backup replica = voter.orig)
    (guarded : voter.version < board.version → voter.orig = 0 → board.backup replica ≠ 0) :
    (board.cast index voter replica).Ok := by
  have voterOk := ok.voterOk index voter found
  have inRound : voter.version = board.version := by
    refine voterOk.version_le.eq_of_not_lt fun old => ?_
    exact ok.backup_ne_orig found old (guarded old) hits
  have atPrimary : board.backup replica = board.primary :=
    hits.trans (ok.orig_eq_primary ⟨found, inRound⟩)
  have noWinner : ∀ {other rival rest}, board.At other rival →
      rival.standing ≠ .won rest := fun lookup won =>
    ok.backup_ne_primary_of_won lookup won replica atPrimary
  have noVote : ∀ {other rival}, board.Current other rival → replica ∉ rival.votes :=
    fun current voted => ok.backup_ne_primary current voted atPrimary
  set entry : Voter Value Replica :=
    { voter with
      pending := voter.pending.erase replica
      seen := update voter.seen replica (board.backup replica) } with entryEq
  have newVotes : ∀ place, place ∈ entry.votes ↔ place = replica ∨ place ∈ voter.votes := by
    intro place
    by_cases same : place = replica
    · subst same
      simp [entryEq, hits]
    · simp [entryEq, same]
  have newBackup : (board.cast index voter replica).backup =
      update board.backup replica voter.swap := if_pos hits
  have voters : (board.cast index voter replica).voters = board.voters.set index entry := rfl
  have keep : ∀ {other rival}, board.Current other rival → ∃ kept,
      (board.cast index voter replica).Current other kept ∧ kept.swap = rival.swap ∧
        rival.votes ⊆ kept.votes := by
    intro other rival current
    by_cases same : other = index
    · subst same
      obtain rfl : voter = rival := some.inj (found.symm.trans current.1)
      exact ⟨entry, ⟨at_self voters found, inRound⟩, rfl,
        fun place voted => (newVotes place).mpr (.inr voted)⟩
    · exact ⟨rival, ⟨at_of_ne voters same current.1, current.2⟩, rfl, Finset.Subset.refl _⟩
  have undecidedAll : ∀ {other rival rest},
      (board.cast index voter replica).At other rival → rival.standing ≠ .won rest := by
    intro other rival rest lookup won
    rcases at_cases voters lookup with ⟨-, rfl⟩ | ⟨-, old⟩
    · exact absurd (undecided.symm.trans won) (by simp)
    · exact noWinner old won
  refine
    { history_version := ok.history_version
      history_injective := ok.history_injective
      voterOk := ?_
      swap_unique := ok.swap_unique_set found voters rfl
      vote_unique := ?_
      winner_unique := ok.winner_unique_set found voters rfl id
      installer := ok.installer_set found voters (by simp [undecided])
      backup_free := ?_, backup_voted := ?_, seen_other := ?_
      winnerOk := fun other rival rest lookup won => absurd won (undecidedAll lookup) }
  · intro other rival lookup
    rcases at_cases voters lookup with ⟨rfl, rfl⟩ | ⟨-, old⟩
    · refine
        { voterOk with
          seen_ne_swap := ?_
          won_current := fun rest won => absurd won (undecidedAll lookup)
          minority := fun old => absurd inRound old.ne }
      intro place reached
      by_cases same : place = replica
      · subst same
        simpa [entryEq, hits] using voterOk.swap_ne_orig.symm
      · have := voterOk.seen_ne_swap place (by simpa [entryEq, same] using reached)
        simpa [entryEq, same] using this
    · exact (ok.voterOk other rival old).congr rfl rfl
  · -- a second vote at this backup would have changed it already
    have fromOther : ∀ {other rival place}, other ≠ index → board.At other rival →
        rival.version = voter.version → place ∈ rival.votes → place ∉ entry.votes := by
      intro other rival place distinct old same voted byEntry
      rcases (newVotes place).mp byEntry with rfl | byVoter
      · exact noVote ⟨old, same.trans inRound⟩ voted
      · exact distinct (ok.vote_unique _ _ _ _ old found same place voted byVoter)
    intro first firstVoter second secondVoter firstFound secondFound same place inFirst inSecond
    rcases at_cases voters firstFound with ⟨rfl, rfl⟩ | ⟨firstNe, firstOld⟩ <;>
      rcases at_cases voters secondFound with ⟨rfl, rfl⟩ | ⟨secondNe, secondOld⟩
    · rfl
    · exact absurd inFirst (fromOther secondNe secondOld same.symm inSecond)
    · exact absurd inSecond (fromOther firstNe firstOld same inFirst)
    · exact ok.vote_unique _ _ _ _ firstOld secondOld same place inFirst inSecond
  · intro place free
    have distinct : place ≠ replica := by
      rintro rfl
      exact free index entry ⟨at_self voters found, inRound⟩ ((newVotes place).mpr (.inl rfl))
    rw [newBackup, update_of_ne distinct]
    refine ok.backup_free place fun other rival current voted => ?_
    obtain ⟨kept, keptCurrent, -, more⟩ := keep current
    exact free other kept keptCurrent (more voted)
  · intro other rival place current voted
    left
    rw [newBackup]
    rcases at_cases voters current.1 with ⟨rfl, rfl⟩ | ⟨-, old⟩
    · rcases (newVotes place).mp voted with rfl | votedBefore
      · exact update_self ..
      · rw [update_of_ne, ok.backup_eq_swap noWinner ⟨found, inRound⟩ votedBefore]
        rintro rfl
        exact noVote ⟨found, inRound⟩ votedBefore
    · rw [update_of_ne, ok.backup_eq_swap noWinner ⟨old, current.2⟩ voted]
      rintro rfl
      exact noVote ⟨old, current.2⟩ voted
  · intro other rival place current reached differs
    have lift : ∀ {value}, (∃ source sender, source ≠ other ∧ board.Current source sender ∧
        value = sender.swap ∧ (place ∈ sender.votes ∨ ∃ rest, sender.standing = .won rest)) →
        ∃ source sender, source ≠ other ∧ (board.cast index voter replica).Current source sender ∧
          value = sender.swap ∧ (place ∈ sender.votes ∨ ∃ rest, sender.standing = .won rest) := by
      rintro _ ⟨source, _, distinct, sourceCurrent, held, voted | ⟨_, won⟩⟩
      · obtain ⟨kept, keptCurrent, swap, more⟩ := keep sourceCurrent
        exact ⟨source, kept, distinct, keptCurrent, held.trans swap.symm, .inl (more voted)⟩
      · exact absurd won (noWinner sourceCurrent.1)
    rcases at_cases voters current.1 with ⟨rfl, rfl⟩ | ⟨-, old⟩
    · have distinct : place ≠ replica := by
        rintro rfl
        exact differs (by simp [entryEq, hits])
      have seenSame : entry.seen place = voter.seen place := by simp [entryEq, distinct]
      rw [seenSame] at differs ⊢
      exact lift (ok.seen_other other voter place ⟨found, inRound⟩
        (by simpa [entryEq, distinct] using reached) differs)
    · exact lift (ok.seen_other other rival place ⟨old, current.2⟩ reached differs)

end Moves

end Board

end FuseeFs.Library.Election
