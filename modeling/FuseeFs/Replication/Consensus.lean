import FuseeFs.Library.Numerals
import FuseeFs.Library.Tally

/-!
# The vote over the backup replicas of an index slot

A client that changes an index slot first sends one compare-and-swap to every
backup replica, all with the value it read at the primary as expected value.
The values swapped back are the ballots of `check_cas_consensus_0`: they are
counted in a `std::map`, and the client has won, has lost, or must read the
primary again before the smallest value decides.
-/

namespace FuseeFs.Replication

open Library

/-- Slot values are compared as unsigned 64-bit words, as `std::map` does. -/
instance instLinearOrderUInt64 : LinearOrder UInt64 where
  le_refl _ := UInt64.le_refl _
  le_trans _ _ _ := UInt64.le_trans
  lt_iff_le_not_ge _ _ := by grind
  le_antisymm _ _ := UInt64.le_antisymm
  le_total := UInt64.le_total
  toDecidableLE := inferInstance
  toDecidableLT := inferInstance
  toDecidableEq := inferInstance

inductive KVConsensusState
  | winAll
  | winMajor
  | winLittle
  | fail
  | finish
  | non
  deriving DecidableEq, Repr

def KVConsensusState.isWin : KVConsensusState → Bool
  | .winAll | .winMajor | .winLittle => true
  | .fail | .finish | .non => false

/-- The key a swapped-back value is counted under.  A value equal to the
target "can only happen under recovery" according to the source, and counts
as a vote for the client itself. -/
def ballot (expected target swapBack : UInt64) : UInt64 :=
  if swapBack = expected ∨ swapBack = target then target else swapBack

section Vote

variable {k : ℕ} (expected target : UInt64) (swapBack : Fin k → UInt64)

def winAddrCnt : CountMap UInt64 :=
  CountMap.tally (List.ofFn fun backup => ballot expected target (swapBack backup))

/-- The request pushed onto `kv_modify_bk_1_cas_list_` for a backup: a second
compare-and-swap that expects what the first one found. -/
def secondRoundCas (backup : Fin k) : Option UInt64 :=
  if swapBack backup = expected ∨ swapBack backup = target then none else some (swapBack backup)

/-- `check_cas_consensus_0` up to the point where the primary is read: `non`
asks for that read. -/
def checkCasConsensus0 : KVConsensusState :=
  let counts := winAddrCnt expected target swapBack
  match counts.leader? with
  | none => .non
  | some (majVal, _) =>
    if counts.count majVal = k then
      if majVal = target then .winAll else .fail
    else if k < 2 * counts.count majVal then
      if majVal = target then .winMajor else .fail
    else if counts.count target = 0 then .fail
    else .non

/-- The end of `check_cas_consensus_0`, after the primary was read again. -/
def checkPrimaryValue (checkValue : UInt64) : KVConsensusState :=
  if checkValue ≠ expected then .finish
  else if (winAddrCnt expected target swapBack).firstKey? = some target then .winLittle
  else .fail

def ballotsFor (value : UInt64) : Finset (Fin k) :=
  Finset.univ.filter fun backup => ballot expected target (swapBack backup) = value

variable {expected target : UInt64} {swapBack : Fin k → UInt64}

@[simp]
theorem mem_ballotsFor (value : UInt64) (backup : Fin k) :
    backup ∈ ballotsFor expected target swapBack value ↔
      ballot expected target (swapBack backup) = value := by
  rw [ballotsFor, Finset.mem_filter]
  simp

theorem ballot_eq_target_iff (value : UInt64) :
    ballot expected target value = target ↔ value = expected ∨ value = target := by
  unfold ballot
  split_ifs with own
  · simp [own]
  · simpa [own] using fun equal => own (.inr equal)

@[simp]
theorem count_winAddrCnt (value : UInt64) :
    (winAddrCnt expected target swapBack).count value =
      (ballotsFor expected target swapBack value).card := by
  simp [winAddrCnt, count_ofFn, ballotsFor]

variable (expected target swapBack)

theorem exists_leader (pos : 0 < k) :
    ∃ value, (winAddrCnt expected target swapBack).leader? =
        some (value, (ballotsFor expected target swapBack value).card) ∧
      ∀ other, (ballotsFor expected target swapBack other).card ≤
        (ballotsFor expected target swapBack value).card := by
  have nonempty : (List.ofFn fun backup => ballot expected target (swapBack backup)) ≠ [] := by
    simpa [List.ofFn_eq_nil_iff] using pos.ne'
  obtain ⟨value, found, most⟩ := CountMap.leader?_tally nonempty
  simp only [count_ofFn] at found most
  exact ⟨value, found, most⟩

theorem card_ballotsFor_add_le {value other : UInt64} (distinct : value ≠ other) :
    (ballotsFor expected target swapBack value).card +
      (ballotsFor expected target swapBack other).card ≤ k := by
  have disjoint : Disjoint (ballotsFor expected target swapBack value)
      (ballotsFor expected target swapBack other) := by
    refine Finset.disjoint_left.mpr fun backup forValue forOther => distinct ?_
    rw [← (mem_ballotsFor value backup).mp forValue, ← (mem_ballotsFor other backup).mp forOther]
  rw [← Finset.card_union_of_disjoint disjoint]
  exact (Finset.card_le_univ _).trans_eq (Fintype.card_fin k)

theorem checkCasConsensus0_spec (pos : 0 < k) :
    match checkCasConsensus0 expected target swapBack with
    | .winAll => (ballotsFor expected target swapBack target).card = k
    | .winMajor => k < 2 * (ballotsFor expected target swapBack target).card
    | .non => 0 < (ballotsFor expected target swapBack target).card ∧
        ∀ value, 2 * (ballotsFor expected target swapBack value).card ≤ k
    | .fail => 2 * (ballotsFor expected target swapBack target).card ≤ k
    | .winLittle | .finish => False := by
  obtain ⟨value, found, most⟩ := exists_leader expected target swapBack pos
  have others : value ≠ target → _ := card_ballotsFor_add_le expected target swapBack
  have atTarget := most target
  simp only [checkCasConsensus0, found, count_winAddrCnt]
  split_ifs with all isTarget major isTarget noVote
  · exact isTarget ▸ all
  · have := others isTarget
    simp only
    omega
  · exact isTarget ▸ major
  · have := others isTarget
    simp only
    omega
  · simp [noVote]
  · refine ⟨Nat.pos_of_ne_zero noVote, fun other => ?_⟩
    have := most other
    omega

variable {expected target swapBack}

/-- A client that every backup voted for has won, whoever else may look. -/
theorem checkCasConsensus0_of_unanimous (pos : 0 < k)
    (own : ∀ backup, swapBack backup = expected ∨ swapBack backup = target) :
    checkCasConsensus0 expected target swapBack = .winAll := by
  have all : (ballotsFor expected target swapBack target).card = k := by
    have everyone : ballotsFor expected target swapBack target = Finset.univ :=
      Finset.eq_univ_of_forall fun backup =>
        (mem_ballotsFor target backup).mpr ((ballot_eq_target_iff _).mpr (own backup))
    rw [everyone, Finset.card_univ, Fintype.card_fin]
  obtain ⟨value, found, most⟩ := exists_leader expected target swapBack pos
  have leads : value = target := by
    by_contra distinct
    have both := card_ballotsFor_add_le expected target swapBack distinct
    have atTarget := most target
    omega
  simp [checkCasConsensus0, found, leads, all]

theorem checkCasConsensus0_ne_finish : checkCasConsensus0 expected target swapBack ≠ .finish := by
  simp only [checkCasConsensus0]
  split
  · simp
  · split_ifs <;> simp

theorem checkPrimaryValue_eq_finish_iff (checkValue : UInt64) :
    checkPrimaryValue expected target swapBack checkValue = .finish ↔ checkValue ≠ expected := by
  unfold checkPrimaryValue
  split_ifs <;> simp_all

theorem checkPrimaryValue_winLittle {checkValue : UInt64}
    (won : checkPrimaryValue expected target swapBack checkValue = .winLittle) :
    checkValue = expected ∧ ∀ backup, target ≤ ballot expected target (swapBack backup) := by
  unfold checkPrimaryValue at won
  split_ifs at won with changed smallest
  refine ⟨not_not.mp changed, fun backup => ?_⟩
  exact CountMap.firstKey?_tally_le smallest (List.mem_ofFn.mpr ⟨backup, rfl⟩)

end Vote

/-! ## The synchronous phases -/

/-- The compare-and-swaps of one request, in a memory that holds the replicas of its
slot. -/
structure SlotCas (k : ℕ) (Memory : Type) where
  origValue : UInt64
  swapValue : UInt64
  readPrimary : Memory → UInt64
  casPrimary : Memory → Memory
  /-- Takes the value that each backup is expected to have, and `none` where no
  request is sent. -/
  casBackups : (Fin k → Option UInt64) → Memory → Memory

namespace SlotCas

variable {k : ℕ} {Memory : Type} (slot : SlotCas k Memory)

def checkCasConsensus0Sync (memory : Memory) (swapBack : Fin k → UInt64) : KVConsensusState :=
  match checkCasConsensus0 slot.origValue slot.swapValue swapBack with
  | .non => checkPrimaryValue slot.origValue slot.swapValue swapBack (slot.readPrimary memory)
  | s => s

/-- `modify_backup_idx_consensus_1_sync`.  The loop after a lost vote tests the
word at `op_laddr`, which it does not read, and need not end. -/
def modifyBackupIdxConsensus1Sync (opWord : UInt64) (memory : Memory) (swapBack : Fin k → UInt64) :
    Option (KVConsensusState × Memory) :=
  match slot.checkCasConsensus0Sync memory swapBack with
  | .finish => some (.finish, memory)
  | .fail => if opWord = slot.origValue then none else some (.fail, memory)
  | .winAll => some (.winAll, memory)
  | .winMajor | .winLittle | .non =>
    some (.winAll, slot.casBackups (secondRoundCas slot.origValue slot.swapValue swapBack) memory)

/-- The compare-and-swap of `modify_primary_idx_sync`, and whether it installs the
new value. -/
def modifyPrimaryIdxSync (s : KVConsensusState) (memory : Memory) : Memory × Bool :=
  if s = .fail then (memory, false)
  else (slot.casPrimary memory, slot.readPrimary memory = slot.origValue)

variable {slot} {swapBack : Fin k → UInt64}

theorem modifyBackupIdxConsensus1Sync_of_unanimous (pos : 0 < k)
    (own : ∀ backup, swapBack backup = slot.origValue ∨ swapBack backup = slot.swapValue)
    (opWord : UInt64) (memory : Memory) :
    slot.modifyBackupIdxConsensus1Sync opWord memory swapBack = some (.winAll, memory) := by
  rw [modifyBackupIdxConsensus1Sync, checkCasConsensus0Sync,
    checkCasConsensus0_of_unanimous pos own]

theorem modifyBackupIdxConsensus1Sync_cases {opWord : UInt64} {s : KVConsensusState}
    {memory after : Memory}
    (counted : slot.modifyBackupIdxConsensus1Sync opWord memory swapBack = some (s, after)) :
    after = memory ∨ ∃ expected, after = slot.casBackups expected memory := by
  unfold modifyBackupIdxConsensus1Sync at counted
  split at counted
  · exact .inl (congrArg Prod.snd (Option.some.inj counted)).symm
  · split_ifs at counted
    exact .inl (congrArg Prod.snd (Option.some.inj counted)).symm
  · exact .inl (congrArg Prod.snd (Option.some.inj counted)).symm
  all_goals exact .inr ⟨_, (congrArg Prod.snd (Option.some.inj counted)).symm⟩

end SlotCas

end FuseeFs.Replication
