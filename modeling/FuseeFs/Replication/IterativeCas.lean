import FuseeFs.Library.Ledger
import FuseeFs.Replication.Protocol

/-!
# Updates of `ClientCR`

A `ClientCR` client overwrites the replicas of a slot one after the other, the
backups first and the primary last.  On each replica it repeats its
compare-and-swap with the value that it has found there.  Any number of clients
update one slot; their compare-and-swaps are interleaved in any way.
-/

namespace FuseeFs.Replication.ClientCR

open Library

/-- An update in `iteratively_cas_sync` or `iteratively_cas_async`.  There are
`k + 2` replicas, numbered in the order in which they are overwritten, so that
the last one is the primary. -/
structure Update (k : ℕ) where
  variant : Variant
  origValue : UInt64
  swapValue : UInt64
  replica : Fin (k + 2)
  expectedValue : UInt64
  firstSwapBack : UInt64
deriving DecidableEq

structure State (Client : Type) (k : ℕ) where
  slot : Fin (k + 2) → UInt64
  running : Client → Option (Update k)

inductive Event (Client : Type)
  /-- An update whose lookup has found `orig_value` in the index or the cache. -/
  | start (client : Client) (variant : Variant) (origValue swapValue : UInt64)
  /-- A compare-and-swap is executed and its result tested. -/
  | cas (client : Client)

section Step

variable {k : ℕ}

/-- The value that is compared with `expected_value`.  The fiber function looks
at the buffer of the first list, also when it works on another backup; the
primary is in a list of its own. -/
def Update.tested (update : Update k) (found : UInt64) : UInt64 :=
  match update.variant with
  | .sync => found
  | .async =>
    if update.replica = 0 ∨ update.replica = Fin.last (k + 1) then found
    else update.firstSwapBack

def Update.next (update : Update k) (found : UInt64) : Option (Update k) :=
  let firstSwapBack := if update.replica = 0 then found else update.firstSwapBack
  if update.tested found = update.expectedValue then
    if more : update.replica.val + 1 < k + 2 then
      some
        { update with
          replica := ⟨update.replica.val + 1, more⟩
          expectedValue := update.origValue
          firstSwapBack := firstSwapBack }
    else none
  else
    some { update with expectedValue := update.tested found, firstSwapBack := firstSwapBack }

variable {Client : Type} [DecidableEq Client]

def step (s : State Client k) : Event Client → Option (State Client k)
  | .start client variant origValue swapValue =>
    match s.running client with
    | some _ => none
    | none =>
      some
        { s with
          running := Function.update s.running client
            (some ⟨variant, origValue, swapValue, 0, origValue, 0⟩) }
  | .cas client =>
    match s.running client with
    | none => none
    | some update =>
      let found := s.slot update.replica
      some
        { slot :=
            if found = update.expectedValue then
              Function.update s.slot update.replica update.swapValue
            else s.slot
          running := Function.update s.running client (update.next found) }

def IsInitial (s : State Client k) : Prop :=
  (∀ replica, s.slot replica = s.slot 0) ∧ ∀ client, s.running client = none

/-- On a later replica, a compare-and-swap is executed while the replica holds
the value that the update has replaced on the first one. -/
def InOrder (s : State Client k) : Event Client → Prop
  | .start .. => True
  | .cas client =>
    ∀ update ∈ s.running client, update.replica ≠ 0 → s.slot update.replica = update.firstSwapBack

instance (s : State Client k) : ∀ event, Decidable (InOrder s event)
  | .start .. => inferInstanceAs (Decidable True)
  | .cas client =>
    inferInstanceAs
      (Decidable (∀ update ∈ s.running client, update.replica ≠ 0 →
        s.slot update.replica = update.firstSwapBack))

end Step

section Ledger

variable {k : ℕ}

def owed (replica : Fin (k + 2)) : Option (Update k) → UInt64 → ℤ
  | none => 0
  | some update =>
    if 0 < update.replica.val ∧ update.replica.val ≤ replica.val then
      replacement update.firstSwapBack update.swapValue
    else 0

variable {update : Update k}

theorem owed_first (replica : Fin (k + 2)) (first : update.replica = 0) :
    owed replica (some update) = 0 :=
  if_neg fun later => later.1.ne' (congrArg Fin.val first)

theorem tested_eq {found : UInt64} (inOrder : update.replica ≠ 0 → found = update.firstSwapBack) :
    update.tested found = found := by
  unfold Update.tested
  cases update.variant with
  | sync => rfl
  | async =>
    dsimp only
    split_ifs with ownBuffer
    · rfl
    · exact (inOrder fun first => ownBuffer (Or.inl first)).symm

section Next

variable {update : Update k} {found : UInt64} (replica : Fin (k + 2))
  (inOrder : update.replica ≠ 0 → found = update.firstSwapBack)
include inOrder

theorem owed_next_of_failed (failed : found ≠ update.expectedValue) :
    owed replica (update.next found) = owed replica (some update) := by
  rw [Update.next, tested_eq inOrder, if_neg failed]
  by_cases first : update.replica = 0
  · rw [owed_first replica first]
    exact owed_first replica first
  · simp [owed, first]

theorem owed_next_of_first (swapped : found = update.expectedValue) (first : update.replica = 0) :
    owed replica (update.next found) =
      if replica = 0 then 0 else replacement found update.swapValue := by
  have more : update.replica.val + 1 < k + 2 := by
    rw [first]
    exact Nat.succ_lt_succ (Nat.succ_pos k)
  rw [Update.next, tested_eq inOrder, if_pos swapped, dif_pos more]
  by_cases own : replica = 0
  · rw [if_pos own]
    refine if_neg fun later => ?_
    have bound : update.replica.val + 1 ≤ replica.val := later.2
    rw [own] at bound
    exact Nat.not_succ_le_zero _ bound
  · rw [if_neg own]
    have bound : update.replica.val + 1 ≤ replica.val := by
      rw [first]
      exact Nat.pos_of_ne_zero fun zero => own (Fin.ext zero)
    simp only [owed, if_pos first, if_pos (And.intro (Nat.succ_pos _) bound)]

theorem owed_next_of_later (swapped : found = update.expectedValue) (later : update.replica ≠ 0) :
    owed replica (update.next found) =
      owed replica (some update) -
        if replica = update.replica then replacement update.firstSwapBack update.swapValue else 0 := by
  have pos : 0 < update.replica.val := Nat.pos_of_ne_zero fun zero => later (Fin.ext zero)
  have same : replica = update.replica ↔ replica.val = update.replica.val := Fin.ext_iff
  have bound := replica.isLt
  rw [Update.next, tested_eq inOrder, if_pos swapped]
  by_cases more : update.replica.val + 1 < k + 2
  · rw [dif_pos more]
    simp only [owed, if_neg later]
    split_ifs <;> first | omega | simp
  · -- the primary is the last replica of the list
    rw [dif_neg more]
    simp only [owed]
    split_ifs <;> first | omega | simp

end Next

section Runs

variable {Client : Type} [DecidableEq Client] [Fintype Client] {s after : State Client k}

/-- Every replica differs from the first one by what the running updates owe it. -/
def Balanced (s : State Client k) : Prop :=
  ∀ replica, unit (s.slot 0) - unit (s.slot replica) = ∑ client, owed replica (s.running client)

omit [DecidableEq Client] in
theorem balanced_of_isInitial (initial : IsInitial s) : Balanced s := by
  intro replica
  rw [initial.1 replica, sub_self]
  refine (Finset.sum_eq_zero fun client _ => ?_).symm
  rw [initial.2 client]
  rfl

theorem Balanced.start (balanced : Balanced s) {client : Client}
    (idle : s.running client = none) (update : Update k) (first : update.replica = 0) :
    Balanced { s with running := Function.update s.running client (some update) } := by
  intro replica
  rw [sum_comp_update s.running (owed replica), idle, owed_first replica first]
  simp only [owed, sub_zero, add_zero]
  exact balanced replica

theorem Balanced.cas (balanced : Balanced s) {client : Client}
    (running : s.running client = some update)
    (inOrder : update.replica ≠ 0 → s.slot update.replica = update.firstSwapBack) :
    Balanced
      { slot :=
          if s.slot update.replica = update.expectedValue then
            Function.update s.slot update.replica update.swapValue
          else s.slot
        running := Function.update s.running client
          (update.next (s.slot update.replica)) } := by
  intro replica
  rw [sum_comp_update s.running (owed replica), running, ← balanced replica]
  by_cases swapped : s.slot update.replica = update.expectedValue
  · simp only [if_pos swapped]
    by_cases first : update.replica = 0
    · rw [owed_next_of_first replica inOrder swapped first, owed_first replica first, first]
      by_cases own : replica = 0
      · simp [own]
      · rw [if_neg own, Function.update_self, Function.update_of_ne own, replacement]
        abel
    · rw [owed_next_of_later replica inOrder swapped first, Function.update_of_ne (Ne.symm first)]
      by_cases own : replica = update.replica
      · rw [if_pos own, own, Function.update_self, inOrder first, replacement]
        abel
      · rw [if_neg own, Function.update_of_ne own]
        abel
  · rw [if_neg swapped, owed_next_of_failed replica inOrder swapped]
    abel

theorem Balanced.step (balanced : Balanced s) {event : Event Client}
    (inOrder : InOrder s event) (taken : step s event = some after) : Balanced after := by
  cases event with
  | start client variant origValue swapValue =>
    cases idle : s.running client with
    | some update => simp [ClientCR.step, idle] at taken
    | none =>
      simp only [ClientCR.step, idle, Option.some.injEq] at taken
      rw [← taken]
      exact balanced.start idle _ rfl
  | cas client =>
    cases running : s.running client with
    | none => simp [ClientCR.step, running] at taken
    | some update =>
      simp only [ClientCR.step, running, Option.some.injEq] at taken
      rw [← taken]
      exact balanced.cas running (inOrder update running)

end Runs

end Ledger

def sampleState : State (Fin 2) 0 := ⟨fun _ => 1, fun _ => none⟩

theorem isInitial_sampleState : IsInitial sampleState :=
  ⟨fun _ => rfl, fun _ => rfl⟩

end FuseeFs.Replication.ClientCR
