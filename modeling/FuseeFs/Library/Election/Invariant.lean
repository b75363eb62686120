import Mathlib

/-!
# Electing one writer by compare-and-swap on replicas

A value is kept at a primary and at finitely many backups.  A voter reads the
primary, casts one compare-and-swap per backup from the value it read to a
value of its own, and may go on to overwrite the remaining backups and the
primary when a majority of its swaps succeeded, or when nobody has a majority
and its value is the least it saw.  Reading the primary opens a round; a round
ends when the primary changes.

The value `0` may be written again and again; every other value is written
once.  Two assumptions on a swap are therefore needed, and are stated where a
ballot is cast: it does not find `0` when `0` is the voter's own value, nor
when the voter expects `0` from an earlier round.
-/

namespace FuseeFs.Library.Election

universe u v

/-- A voter has not been told the outcome, or has won and still has to
overwrite `rest`, or has written the primary. -/
inductive Standing (Replica : Type v)
  | undecided
  | won (rest : Finset Replica)
  | installed

/-- One voter: the round it belongs to, the value it expects and the value it
writes, the backups it has not reached, and what it saw at the others. -/
structure Voter (Value : Type u) (Replica : Type v) where
  version : ℕ
  orig : Value
  swap : Value
  pending : Finset Replica
  seen : Replica → Value
  standing : Standing Replica

structure Board (Value : Type u) (Replica : Type v) where
  primary : Value
  backup : Replica → Value
  history : ℕ → Value
  version : ℕ
  voters : List (Voter Value Replica)

variable {Value : Type u} {Replica : Type v}
variable [LinearOrder Value] [Fintype Replica] [DecidableEq Replica]

def Voter.votes (voter : Voter Value Replica) : Finset Replica :=
  Finset.univ.filter fun replica => replica ∉ voter.pending ∧ voter.seen replica = voter.orig

@[simp]
theorem Voter.mem_votes (voter : Voter Value Replica) (replica : Replica) :
    replica ∈ voter.votes ↔ replica ∉ voter.pending ∧ voter.seen replica = voter.orig := by
  simp [Voter.votes]

namespace Board

variable [Zero Value]

def At (board : Board Value Replica) (index : ℕ) (voter : Voter Value Replica) : Prop :=
  board.voters[index]? = some voter

def Current (board : Board Value Replica) (index : ℕ) (voter : Voter Value Replica) : Prop :=
  board.At index voter ∧ voter.version = board.version

structure VoterOk (board : Board Value Replica) (voter : Voter Value Replica) : Prop where
  version_le : voter.version ≤ board.version
  history_version : board.history voter.version = voter.orig
  swap_ne_orig : voter.swap ≠ voter.orig
  seen_ne_swap : ∀ replica ∉ voter.pending, voter.seen replica ≠ voter.swap
  installed_of_history : voter.swap ≠ 0 → ∀ version ≤ board.version,
    board.history version = voter.swap → voter.standing = .installed
  won_current : ∀ rest, voter.standing = .won rest →
    voter.version = board.version ∧ voter.pending = ∅
  installed_old : voter.standing = .installed → voter.version < board.version
  minority : voter.version < board.version → voter.standing = .undecided →
    2 * voter.votes.card ≤ Fintype.card Replica

/-- What a winner knows until it writes the primary: it saw every vote of the
round, the backups hold what it saw or its own value, and it beats every other
voter. -/
structure WinnerOk (board : Board Value Replica) (index : ℕ) (voter : Voter Value Replica)
    (rest : Finset Replica) : Prop where
  backup_rest : ∀ replica ∈ rest, board.backup replica = voter.seen replica
  backup_own : ∀ replica ∉ rest, board.backup replica = voter.swap
  saw_votes : ∀ replica, replica ∈ voter.votes ∨
    ∃ other rival, other ≠ index ∧ board.Current other rival ∧
      replica ∈ rival.votes ∧ voter.seen replica = rival.swap
  beats : Fintype.card Replica < 2 * voter.votes.card ∨
    voter.votes.Nonempty ∧ ∀ other rival, board.Current other rival →
      2 * rival.votes.card ≤ Fintype.card Replica ∧ (rival.votes.Nonempty → voter.swap ≤ rival.swap)

structure Ok (board : Board Value Replica) : Prop where
  history_version : board.history board.version = board.primary
  history_injective : ∀ first ≤ board.version, ∀ second ≤ board.version,
    board.history first = board.history second → board.history first ≠ 0 → first = second
  voterOk : ∀ index voter, board.At index voter → board.VoterOk voter
  swap_unique : ∀ index voter other rival, board.At index voter → board.At other rival →
    voter.swap = rival.swap → voter.swap ≠ 0 → index = other
  vote_unique : ∀ index voter other rival, board.At index voter → board.At other rival →
    voter.version = rival.version → ∀ replica, replica ∈ voter.votes →
      replica ∈ rival.votes → index = other
  winner_unique : ∀ index voter other rival, board.At index voter → board.At other rival →
    voter.version = rival.version → voter.standing ≠ .undecided →
      rival.standing ≠ .undecided → index = other
  installer : ∀ version < board.version, ∃ index voter, board.At index voter ∧
    voter.version = version ∧ voter.standing = .installed
  backup_free : ∀ replica, (∀ index voter, board.Current index voter → replica ∉ voter.votes) →
    board.backup replica = board.primary
  backup_voted : ∀ index voter replica, board.Current index voter → replica ∈ voter.votes →
    board.backup replica = voter.swap ∨
      ∃ other winner rest, board.At other winner ∧ winner.standing = .won rest ∧
        board.backup replica = winner.swap
  seen_other : ∀ index voter replica, board.Current index voter → replica ∉ voter.pending →
    voter.seen replica ≠ voter.orig →
      ∃ other rival, other ≠ index ∧ board.Current other rival ∧
        voter.seen replica = rival.swap ∧
        (replica ∈ rival.votes ∨ ∃ rest, rival.standing = .won rest)
  winnerOk : ∀ index voter rest, board.At index voter → voter.standing = .won rest →
    board.WinnerOk index voter rest

section Consequences

variable {board : Board Value Replica} {index : ℕ} {voter : Voter Value Replica}

variable {replica : Replica} {rest : Finset Replica} (ok : board.Ok)
include ok

theorem Ok.orig_eq_primary (current : board.Current index voter) : voter.orig = board.primary := by
  rw [← (ok.voterOk index voter current.1).history_version, current.2, ok.history_version]

theorem Ok.not_installed (current : board.Current index voter) :
    voter.standing ≠ .installed := fun installed =>
  ((ok.voterOk index voter current.1).installed_old installed).ne current.2

theorem Ok.current_of_won (found : board.At index voter) (won : voter.standing = .won rest) :
    board.Current index voter :=
  ⟨found, ((ok.voterOk index voter found).won_current rest won).1⟩

theorem Ok.won_unique (found : board.At index voter) (won : voter.standing = .won rest) {other : ℕ}
    {rival : Voter Value Replica} {left : Finset Replica} (lookup : board.At other rival)
    (opponentWon : rival.standing = .won left) : other = index := by
  refine ok.winner_unique _ _ _ _ lookup found ?_ (by simp [opponentWon]) (by simp [won])
  rw [(ok.current_of_won lookup opponentWon).2, (ok.current_of_won found won).2]

/-- The value of a voter of the present round has never been at the primary,
unless it is `0`. -/
theorem Ok.history_ne_swap (current : board.Current index voter) {version : ℕ}
    (bound : version ≤ board.version) (held : board.history version = voter.swap) :
    voter.swap = 0 := by
  by_contra nonzero
  exact ok.not_installed current
    ((ok.voterOk index voter current.1).installed_of_history nonzero version bound held)

theorem Ok.swap_ne_primary (current : board.Current index voter) : voter.swap ≠ board.primary := by
  rw [← ok.orig_eq_primary current]
  exact (ok.voterOk index voter current.1).swap_ne_orig

/-- A voter of an earlier round that expects a value other than `0` expects
something else than what the primary holds. -/
theorem Ok.primary_ne_orig (found : board.At index voter) (old : voter.version < board.version)
    (nonzero : voter.orig ≠ 0) : board.primary ≠ voter.orig := by
  have voterOk := ok.voterOk index voter found
  intro same
  refine old.ne (ok.history_injective _ voterOk.version_le _ le_rfl ?_ ?_)
  · rw [voterOk.history_version, ok.history_version, same]
  · rwa [voterOk.history_version]

theorem Ok.backup_cases (replica : Replica) :
    board.backup replica = board.primary ∨
      ∃ other rival, board.Current other rival ∧ board.backup replica = rival.swap ∧
        (replica ∈ rival.votes ∨ ∃ rest, rival.standing = .won rest) := by
  by_cases free : ∀ index voter, board.Current index voter → replica ∉ voter.votes
  · exact .inl (ok.backup_free replica free)
  · push Not at free
    obtain ⟨other, rival, current, voted⟩ := free
    rcases ok.backup_voted other rival replica current voted with
      own | ⟨winning, winner, rest, found, won, held⟩
    · exact .inr ⟨other, rival, current, own, .inl voted⟩
    · exact .inr ⟨winning, winner, ok.current_of_won found won, held, .inr ⟨rest, won⟩⟩

theorem Ok.backup_ne_primary (current : board.Current index voter) (voted : replica ∈ voter.votes) :
    board.backup replica ≠ board.primary := by
  rcases ok.backup_voted index voter replica current voted with
    own | ⟨winning, winner, rest, found, won, held⟩
  · exact own ▸ ok.swap_ne_primary current
  · exact held ▸ ok.swap_ne_primary (ok.current_of_won found won)

theorem Ok.backup_eq_swap
    (noWinner : ∀ {other rival rest}, board.At other rival → rival.standing ≠ .won rest)
    (current : board.Current index voter) (voted : replica ∈ voter.votes) :
    board.backup replica = voter.swap := by
  rcases ok.backup_voted index voter replica current voted with own | ⟨_, _, _, found, won, -⟩
  · exact own
  · exact absurd won (noWinner found)

theorem Ok.backup_ne_orig (found : board.At index voter) (old : voter.version < board.version)
    (guarded : voter.orig = 0 → board.backup replica ≠ 0) : board.backup replica ≠ voter.orig := by
  intro same
  by_cases zero : voter.orig = 0
  · exact guarded zero (same.trans zero)
  rcases ok.backup_cases replica with atPrimary | ⟨other, rival, current, held, -⟩
  · exact ok.primary_ne_orig found old zero (atPrimary.symm.trans same)
  · have voterOk := ok.voterOk index voter found
    refine zero ((same.symm.trans held).trans (ok.history_ne_swap current voterOk.version_le ?_))
    rw [voterOk.history_version, ← same, held]

/-- While somebody has won, every backup has been voted for. -/
theorem Ok.backup_ne_primary_of_won (found : board.At index voter)
    (won : voter.standing = .won rest) (replica : Replica) :
    board.backup replica ≠ board.primary := by
  rcases (ok.winnerOk index voter rest found won).saw_votes replica with
    own | ⟨other, rival, -, opponentCurrent, voted, -⟩
  · exact ok.backup_ne_primary (ok.current_of_won found won) own
  · exact ok.backup_ne_primary opponentCurrent voted

theorem Ok.votes_disjoint {other : ℕ} {rival : Voter Value Replica}
    (found : board.At index voter) (opponentFound : board.At other rival)
    (sameRound : voter.version = rival.version) (distinct : index ≠ other) :
    voter.votes.card + rival.votes.card ≤ Fintype.card Replica := by
  have disjoint : Disjoint voter.votes rival.votes :=
    Finset.disjoint_left.mpr fun replica voted opponentVoted =>
      distinct (ok.vote_unique index voter other rival found opponentFound sameRound
        replica voted opponentVoted)
  rw [← Finset.card_union_of_disjoint disjoint]
  exact Finset.card_le_univ _

end Consequences

end Board

end FuseeFs.Library.Election
