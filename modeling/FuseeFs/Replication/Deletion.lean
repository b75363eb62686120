import FuseeFs.Replication.Agreement

/-!
# Deletes and updates of one pair

All deletes write the same value, the empty slot.  The error exit of
`modify_primary_idx` is unreachable in the runs in which no delete finds a
backup emptied by another one, and no delete finds the primary changed when it
reads it again; it is reachable otherwise.
-/

namespace FuseeFs.Replication

open Library Library.Election

variable {k : ℕ}

namespace SlotSystem

variable {s : SlotSystem k}

def UpdatesAndDeletes (_ : SlotSystem k) : SlotEvent k → Prop
  | .start reqType variant _ _ => reqType ≠ .insert ∧ variant = .async
  | .act _ _ => True

/-- No delete that asks for the primary's value finds it changed, which would
send it to the primary in the state `KV_CONSENSUS_FINISH`. -/
def DeleteInRound (s : SlotSystem k) : SlotEvent k → Prop
  | .act op .readPrimary =>
    ∀ ctx ∈ s.ops[op]?, ctx.reqType = .delete → s.primary = ctx.origValue
  | _ => True

def SeparateDeletes (s : SlotSystem k) (event : SlotEvent k) : Prop :=
  s.UpdatesAndDeletes event ∧ s.DeleteMeetsPair event ∧ s.DeleteInRound event

instance (s : SlotSystem k) : (event : SlotEvent k) → Decidable (s.UpdatesAndDeletes event)
  | .start _ _ _ _ => inferInstanceAs (Decidable (_ ∧ _))
  | .act _ _ => inferInstanceAs (Decidable True)

instance (s : SlotSystem k) : (event : SlotEvent k) → Decidable (s.DeleteInRound event)
  | .act op .readPrimary => inferInstanceAs (Decidable (∀ ctx ∈ s.ops[op]?, _))
  | .start _ _ _ _ | .act _ (.casBackup0 _) | .act _ .checkConsensus | .act _ .waitPrimary
    | .act _ (.casBackup1 _) | .act _ .checkSecondRound | .act _ .commitLog
    | .act _ .casPrimary => inferInstanceAs (Decidable True)

instance (s : SlotSystem k) (event : SlotEvent k) : Decidable (s.SeparateDeletes event) :=
  inferInstanceAs (Decidable (_ ∧ _ ∧ _))

theorem requests_of_separateDeletes (reached : Reachable step SeparateDeletes HoldsPair s) :
    ∀ ctx ∈ s.ops, ctx.reqType ≠ .insert ∧ ctx.variant = .async :=
  forall_requests _ reached (fun _ ⟨_, _, isInitial⟩ => isInitial ▸ rfl)
    (fun _ _ _ _ _ permitted => permitted.1)

theorem inv_of_separateDeletes (pos : 0 < k)
    (reached : Reachable step SeparateDeletes HoldsPair s) : s.Inv := by
  refine inv_of_reachable pos (reached.mono (fun _ => requests_of_separateDeletes)
    (fun _ ⟨value, _, isInitial⟩ => ⟨value, isInitial⟩) fun s event requests permitted => ?_)
  exact ⟨permitted.2.1, insertMeetsRound_of_forall (fun ctx member => (requests ctx member).1) event⟩

theorem delete_not_finish (reached : Reachable step SeparateDeletes HoldsPair s) :
    ∀ ctx ∈ s.ops, ctx.reqType = .delete → ctx.consensusState ≠ .finish := by
  induction reached with
  | start isInitial =>
    obtain ⟨_, -, rfl⟩ := isInitial
    simp [initial]
  | next reached permitted taken ih =>
    rcases step_cases taken with
      ⟨reqType, variant, swapValue, opBuffer, rfl, -, rfl⟩ | ⟨op, ctx, action, rfl, found, acted⟩
    · intro ctx member
      rcases List.mem_append.mp member with old | isNew
      · exact ih ctx old
      · rw [List.mem_singleton] at isNew
        subst isNew
        simp only [KVReqCtx.start]
        split_ifs <;> simp
    · obtain ⟨_, opsEq, same, state⟩ := acted.ops_eq found
      intro req member isDelete
      rw [opsEq] at member
      rcases List.mem_or_eq_of_mem_set member with old | rfl
      · exact ih req old isDelete
      · rw [same.reqType] at isDelete
        rcases state with kept | won | ⟨rfl, voted⟩ | ⟨rfl, reread⟩
        · exact kept ▸ ih ctx (List.mem_of_getElem? found) isDelete
        · simp [won]
        · exact voted ▸ checkCasConsensus0_ne_finish
        · rw [reread, Ne, checkPrimaryValue_eq_finish_iff, not_not]
          exact permitted.2.2 ctx found isDelete

def deleteThenUpdate : List (SlotEvent 1) :=
  [.start .delete .async 0 0, .start .update .async 6 0,
    .act 0 (.casBackup0 0), .act 1 (.casBackup0 0), .act 0 .checkConsensus, .act 1 .checkConsensus,
    .act 0 .commitLog, .act 0 .casPrimary, .act 1 .waitPrimary]

/-- Two deletes of the value 5: the second finds the backup emptied by the
first and takes this for its own vote. -/
def twoDeletes : List (SlotEvent 1) :=
  [.start .delete .async 0 0, .start .delete .async 0 0,
    .act 0 (.casBackup0 0), .act 1 (.casBackup0 0), .act 0 .checkConsensus, .act 1 .checkConsensus,
    .act 0 .commitLog, .act 1 .commitLog, .act 0 .casPrimary, .act 1 .casPrimary]

/-- One delete that casts its last ballot after an update has replaced the value
5 and while a second update is voting: it sees three different values, and
then another value at the primary. -/
def overtakenDelete : List (SlotEvent 3) :=
  [.start .delete .async 0 0, .start .update .async 6 0,
    .act 0 (.casBackup0 0), .act 1 (.casBackup0 1), .act 1 (.casBackup0 2), .act 1 (.casBackup0 0),
    .act 0 (.casBackup0 1), .act 1 .checkConsensus, .act 1 (.casBackup1 0),
    .act 1 .checkSecondRound, .act 1 .commitLog, .act 1 .casPrimary,
    .start .update .async 7 0, .act 2 (.casBackup0 2), .act 0 (.casBackup0 2),
    .act 0 .checkConsensus, .act 0 .readPrimary, .act 0 .casPrimary]

end SlotSystem

end FuseeFs.Replication
