import FuseeFs.Library.Bytes
import FuseeFs.Replication.Protocol

/-!
# The loop in which a loser waits for the winner

A request that has lost the vote reads the primary slot again and again until
the winner has changed it.  The read goes to the buffer of the primary's
compare-and-swap; the fiber function tests that buffer, the `_sync` one tests
the word at `op_laddr`.  Where these buffers lie is set by the functions that
initialise the space of a request.
-/

namespace FuseeFs.Replication

open Library Library.Bytes

structure RequestSpace where
  localCasReturnValueAddr : ℕ
  opLaddr : ℕ

def sizeofRaceHashBucket : ℕ := 64

def initSpace (buckets coroLocalAddr numReplication : ℕ) : RequestSpace :=
  let localCasTargetValueAddr := coroLocalAddr + buckets * sizeofRaceHashBucket
  let localCasReturnValueAddr := localCasTargetValueAddr + 8
  { localCasReturnValueAddr := localCasReturnValueAddr
    opLaddr := localCasReturnValueAddr + 8 * numReplication }

def initKvInsertSpace : ℕ → ℕ → RequestSpace := initSpace 4

def initKvUpdateSpace : ℕ → ℕ → RequestSpace := initSpace 16

def initKvDeleteSpace : ℕ → ℕ → RequestSpace := initSpace 4

def initKvreqSpace : KVRequestType → ℕ → ℕ → RequestSpace
  | .insert => initKvInsertSpace
  | .update => initKvUpdateSpace
  | .delete => initKvDeleteSpace

/-- Whatever the request, `op_laddr` lies one word behind the buffer of the
primary for each data replica. -/
theorem opLaddr_initKvreqSpace (reqType : KVRequestType) (coroLocalAddr numReplication : ℕ) :
    (initKvreqSpace reqType coroLocalAddr numReplication).opLaddr =
      (initKvreqSpace reqType coroLocalAddr numReplication).localCasReturnValueAddr +
        8 * numReplication := by
  cases reqType <;> rfl

structure Loser where
  variant : Variant
  reqType : KVRequestType
  coroLocalAddr : ℕ
  numReplication : ℕ
  origValue : UInt64

namespace Loser

def space (loser : Loser) : RequestSpace :=
  initKvreqSpace loser.reqType loser.coroLocalAddr loser.numReplication

/-- `l_kv_addr` as `fill_cas_addr` sets it: replica 0 is the primary. -/
def lKvAddr (loser : Loser) (replica : ℕ) : ℕ :=
  loser.space.localCasReturnValueAddr + replica * 8

def testedAddr (loser : Loser) : ℕ :=
  match loser.variant with
  | .async => loser.lKvAddr 0
  | .sync => loser.space.opLaddr

/-- The primary slot, which other clients change, the loser's buffer, the values
that it has read in the loop, and whether it has left the loop. -/
structure WaitState where
  primary : UInt64
  buffer : Image
  reads : List UInt64
  left : Bool

inductive WaitEvent
  | modify (value : UInt64)
  | iterate

def enter (primary : UInt64) (buffer : Image) : WaitState where
  primary
  buffer
  reads := []
  left := false

def leaves (loser : Loser) (buffer : Image) : Bool :=
  loadWord buffer loser.testedAddr ≠ loser.origValue

theorem leaves_eq_true_iff (loser : Loser) (buffer : Image) :
    loser.leaves buffer = true ↔ loadWord buffer loser.testedAddr ≠ loser.origValue :=
  decide_eq_true_iff

def iterate (loser : Loser) (s : WaitState) : WaitState :=
  let buffer := storeWord s.buffer (loser.lKvAddr 0) s.primary
  { s with
    buffer
    reads := s.primary :: s.reads
    left := loser.leaves buffer }

@[simp]
theorem buffer_iterate (loser : Loser) (s : WaitState) :
    (loser.iterate s).buffer = storeWord s.buffer (loser.lKvAddr 0) s.primary :=
  rfl

theorem left_iterate (loser : Loser) (s : WaitState) :
    (loser.iterate s).left = loser.leaves (loser.iterate s).buffer := by
  simp only [iterate]

def step (loser : Loser) (s : WaitState) : WaitEvent → Option WaitState
  | .modify value => some { s with primary := value }
  | .iterate => if s.left then none else some (loser.iterate s)

/-- If the loser has left the loop, then it has read another value than the
original one there. -/
def SawWinner (loser : Loser) (s : WaitState) : Prop :=
  s.left = true → ∃ value ∈ s.reads, value ≠ loser.origValue

/-- The loser leaves the loop only after the winner, whatever others do. -/
def WaitsForWinner (loser : Loser) (primary : UInt64) (buffer : Image) : Prop :=
  ∀ s, Reachable loser.step (fun _ _ => True) (· = enter primary buffer) s → loser.SawWinner s

variable {loser : Loser} {primary : UInt64} {buffer : Image} {s after : WaitState}

theorem step_iterate (taken : loser.step s .iterate = some after) : after = loser.iterate s := by
  rw [step] at taken
  split_ifs at taken
  exact (Option.some.inj taken).symm

theorem waitsForWinner_of_testedAddr (tested : loser.testedAddr = loser.lKvAddr 0) :
    loser.WaitsForWinner primary buffer := by
  have entry : ∀ start, start = enter primary buffer → loser.SawWinner start := by
    rintro _ rfl ⟨⟩
  intro s reached
  refine reached.invariant entry ?_
  intro before event after saw _ taken left
  cases event with
  | modify value =>
    obtain rfl := Option.some.inj taken
    exact saw left
  | iterate =>
    obtain rfl := step_iterate taken
    refine ⟨before.primary, List.mem_cons_self, fun same => ?_⟩
    rw [left_iterate, leaves_eq_true_iff, buffer_iterate, tested, loadWord_storeWord_self] at left
    exact left same

def Stuck (loser : Loser) (s : WaitState) : Prop :=
  loadWord s.buffer loser.testedAddr = loser.origValue ∧ s.left = false

/-- A loop whose reads do not reach the tested word is never left. -/
theorem waitsForWinner_of_stuck (apart : loser.lKvAddr 0 + 8 ≤ loser.testedAddr)
    (same : loadWord buffer loser.testedAddr = loser.origValue) :
    loser.WaitsForWinner primary buffer := by
  have entry : ∀ start, start = enter primary buffer → loser.Stuck start := by
    rintro _ rfl
    exact ⟨same, rfl⟩
  intro s reached left
  have stuck : loser.Stuck s := by
    refine reached.invariant entry ?_
    intro before event after stuck _ taken
    cases event with
    | modify value =>
      obtain rfl := Option.some.inj taken
      exact stuck
    | iterate =>
      obtain rfl := step_iterate taken
      have kept : loadWord (loser.iterate before).buffer loser.testedAddr = loser.origValue := by
        rw [buffer_iterate, loadWord_storeWord_of_disjoint _ (.inr apart), stuck.1]
      refine ⟨kept, ?_⟩
      rw [left_iterate, ← Bool.not_eq_true, leaves_eq_true_iff, not_not, kept]
  rw [stuck.2] at left
  cases left

theorem not_waitsForWinner (apart : loser.lKvAddr 0 + 8 ≤ loser.testedAddr)
    (ne : loadWord buffer loser.testedAddr ≠ loser.origValue) :
    ¬ loser.WaitsForWinner primary buffer := by
  intro waits
  -- The primary holds the original value when it is read.
  have executed : run loser.step (fun _ _ => True) (enter primary buffer)
      [.modify loser.origValue, .iterate] =
        some (loser.iterate (enter loser.origValue buffer)) := rfl
  have left : (loser.iterate (enter loser.origValue buffer)).left = true := by
    rw [left_iterate, leaves_eq_true_iff, buffer_iterate,
      loadWord_storeWord_of_disjoint _ (.inr apart)]
    exact ne
  have reads : (loser.iterate (enter loser.origValue buffer)).reads = [loser.origValue] := rfl
  obtain ⟨_, read, changed⟩ := waits _ (.of_run (.start rfl) executed) left
  rw [reads, List.mem_singleton] at read
  exact changed read

/-- The fiber function waits for the winner.  The `_sync` one does so only if it
waits forever: its buffers coincide only without data replicas. -/
theorem waitsForWinner_iff (loser : Loser) (primary : UInt64) (buffer : Image) :
    loser.WaitsForWinner primary buffer ↔
      loser.variant = .async ∨ loser.numReplication = 0 ∨
        loadWord buffer loser.space.opLaddr = loser.origValue := by
  have layout : loser.space.opLaddr = loser.lKvAddr 0 + 8 * loser.numReplication :=
    opLaddr_initKvreqSpace _ _ _
  cases variant : loser.variant with
  | async => exact iff_of_true (waitsForWinner_of_testedAddr (by rw [testedAddr, variant])) (.inl rfl)
  | sync =>
    have tested : loser.testedAddr = loser.space.opLaddr := by
      rw [testedAddr, variant]
    by_cases noReplica : loser.numReplication = 0
    · refine iff_of_true (waitsForWinner_of_testedAddr ?_) (.inr (.inl noReplica))
      rw [tested, layout, noReplica]
      rfl
    have apart : loser.lKvAddr 0 + 8 ≤ loser.testedAddr := by
      rw [tested, layout]
      omega
    rw [← tested]
    by_cases same : loadWord buffer loser.testedAddr = loser.origValue
    · exact iff_of_true (waitsForWinner_of_stuck apart same) (.inr (.inr same))
    · refine iff_of_false (not_waitsForWinner apart same) ?_
      rintro (isAsync | isZero | isSame)
      · cases isAsync
      · exact noReplica isZero
      · exact same isSame

def staleLoser : Loser where
  variant := .sync
  reqType := .update
  coroLocalAddr := 0
  numReplication := 2
  origValue := 5

def staleBuffer : Image :=
  storeWord (fun _ => 0) (staleLoser.lKvAddr 1) 7

/-- The vote is lost, and the loser leaves although the primary still holds 5. -/
theorem not_waitsForWinner_stale :
    checkCasConsensus0 staleLoser.origValue 9
      (fun backup : Fin 1 => loadWord staleBuffer (staleLoser.lKvAddr (backup + 1))) = .fail ∧
    ¬ staleLoser.WaitsForWinner 5 staleBuffer :=
  ⟨by decide +kernel, not_waitsForWinner (by decide) (by decide +kernel)⟩

end Loser

end FuseeFs.Replication
