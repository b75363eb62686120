import FuseeFs.Library.Store.Failures

/-!
# The locks that a program takes

`execFaulty` runs a program on a map that may fail at every call, a search
included, and records the locks that the program takes and releases.  `holding`
replays such a record on the names that are held.
-/

namespace FuseeFs.Library.Store

open Function

variable {Key Value Name Code Result Other : Type}

inductive LockCall (Name : Type) where
  | lock (name : Name)
  | unlock (name : Name)
deriving DecidableEq, Repr

section Holding

variable [DecidableEq Name]

/-- The names that are held after some calls, once for each time that they were
locked.  There is no result if a name is released that is not held or, unless
locks are `reentrant`, if a name is locked that is held already. -/
def holding (reentrant : Bool) : List Name → List (LockCall Name) → Option (List Name)
  | held, [] => some held
  | held, .lock name :: rest =>
    if !reentrant && held.contains name then none else holding reentrant (name :: held) rest
  | held, .unlock name :: rest =>
    if held.contains name then holding reentrant (held.erase name) rest else none

example : holding false [] [.lock 1, .lock 2, .unlock 1, .unlock 2] = some [] := by decide

example : holding true [] [.lock 1, .unlock 1, .unlock 1] = none := by decide

end Holding

namespace Call

def lockCall : Call Key Value Name → Option (LockCall Name)
  | .lock name => some (.lock name)
  | .unlock name => some (.unlock name)
  | .search _ | .insert _ _ | .update _ _ | .delete _ | .fresh => none

def isStored : Call Key Value Name → Bool
  | .search _ | .insert _ _ | .update _ _ | .delete _ => true
  | .lock _ | .unlock _ | .fresh => false

variable [DecidableEq Key] [DecidableEq Code] [ReplyCode Code]

/-- The answer to a call when the map has settled on `code` for it; a search that
fails finds nothing. -/
def answerFaulty (code : Code) (store : Key → Option Value) (newName : Name) :
    (req : Call Key Value Name) → req.Reply Code × (Key → Option Value)
  | .search key => (if code = ReplyCode.success then store key else none, store)
  | .insert key value => (Call.insert key value).answerWith code store newName
  | .update key value => (Call.update key value).answerWith code store newName
  | .delete key => (Call.delete key).answerWith code store newName
  | .lock _ | .unlock _ => ((), store)
  | .fresh => (newName, store)

/-- The reply to an update of a key with the value `stored`; the update of an absent
key fails on its own. -/
def updateCode (code : Code) (stored : Option Value) : Code :=
  if code = ReplyCode.success ∧ ¬ stored.isSome then ReplyCode.absent else code

omit [DecidableEq Key] in
theorem updateCode_of_isSome {code : Code} {stored : Option Value} (present : stored.isSome) :
    updateCode code stored = code :=
  if_neg fun fails => fails.2 present

end Call

/-- How a program ended, how many calls it made to the map, and its locks. -/
structure FaultyRun (Key Value Name Result : Type) where
  result : Result
  store : Key → Option Value
  calls : ℕ
  locks : List (LockCall Name)

def FaultyRun.count (run : FaultyRun Key Value Name Result) : FaultyRun Key Value Name Result :=
  { run with calls := run.calls + 1 }

@[simp]
theorem FaultyRun.count_result (run : FaultyRun Key Value Name Result) :
    run.count.result = run.result :=
  rfl

@[simp]
theorem FaultyRun.count_locks (run : FaultyRun Key Value Name Result) :
    run.count.locks = run.locks :=
  rfl

namespace Program

variable [DecidableEq Key] [DecidableEq Code] [ReplyCode Code]

def execFaulty (newName : Name) (outcomes : ℕ → Code) (store : Key → Option Value) :
    Program Key Value Name Code Result → FaultyRun Key Value Name Result
  | .done result => ⟨result, store, 0, []⟩
  | .call req next =>
    let answer := req.answerFaulty (outcomes 0) store newName
    let made := if req.isStored then 1 else 0
    let run := (next answer.1).execFaulty newName (fun call => outcomes (call + made)) answer.2
    ⟨run.result, run.store, run.calls + made, req.lockCall.toList ++ run.locks⟩

variable {newName : Name} {outcomes : ℕ → Code} {store : Key → Option Value}

@[simp]
theorem locks_lock (name : Name) (next : Unit → Program Key Value Name Code Result) :
    ((Program.call (.lock name) next).execFaulty newName outcomes store).locks =
      .lock name :: ((next ()).execFaulty newName outcomes store).locks :=
  rfl

@[simp]
theorem locks_fresh (next : Name → Program Key Value Name Code Result) :
    ((Program.call .fresh next).execFaulty newName outcomes store).locks =
      ((next newName).execFaulty newName outcomes store).locks :=
  rfl

theorem execFaulty_search (key : Key) (next : Option Value → Program Key Value Name Code Result) :
    (Program.call (.search key) next).execFaulty newName outcomes store =
      ((next (if outcomes 0 = ReplyCode.success then store key else none)).execFaulty newName
        (fun call => outcomes (call + 1)) store).count :=
  rfl

section Writes

variable (key : Key) (value : Value) (next : Code → Program Key Value Name Code Result)

theorem locks_insert :
    ((Program.call (.insert key value) next).execFaulty newName outcomes store).locks =
      ((next (outcomes 0)).execFaulty newName (fun call => outcomes (call + 1))
        (if outcomes 0 = ReplyCode.success then update store key (some value)
          else store)).locks := by
  split_ifs with success <;>
    simp [execFaulty, Call.answerFaulty, Call.answerWith, Call.answer, Call.isStored, Call.lockCall,
      success]

theorem locks_delete :
    ((Program.call (.delete key) next).execFaulty newName outcomes store).locks =
      ((next (outcomes 0)).execFaulty newName (fun call => outcomes (call + 1))
        (if outcomes 0 = ReplyCode.success then update store key none
          else store)).locks := by
  split_ifs with success <;>
    simp [execFaulty, Call.answerFaulty, Call.answerWith, Call.answer, Call.isStored, Call.lockCall,
      success]

theorem locks_update :
    ((Program.call (.update key value) next).execFaulty newName outcomes store).locks =
      ((next (Call.updateCode (outcomes 0) (store key))).execFaulty newName
        (fun call => outcomes (call + 1))
        (if outcomes 0 = ReplyCode.success ∧ (store key).isSome then
          update store key (some value) else store)).locks := by
  by_cases success : outcomes 0 = ReplyCode.success <;> by_cases present : (store key).isSome <;>
    simp [execFaulty, Call.answerFaulty, Call.answerWith, Call.answer, Call.isStored, Call.lockCall,
      Call.updateCode, success, present]

end Writes

theorem locks_bind (program : Program Key Value Name Code Result)
    (after : Result → Program Key Value Name Code Other) :
    ((program >>= after).execFaulty newName outcomes store).locks =
      (program.execFaulty newName outcomes store).locks ++
        ((after (program.execFaulty newName outcomes store).result).execFaulty newName
          (fun call => outcomes (call + (program.execFaulty newName outcomes store).calls))
          (program.execFaulty newName outcomes store).store).locks := by
  induction program generalizing outcomes store with
  | done result => rfl
  | call req next ih =>
    rw [call_bind]
    simp only [execFaulty, ih, List.append_assoc, Nat.add_assoc]

def calls (newName : Name) (store : Key → Option Value) :
    Program Key Value Name Code Result → ℕ
  | .done _ => 0
  | .call req next =>
    let answer := req.answer Code store newName
    (next answer.1).calls newName answer.2 + if req.isStored then 1 else 0

omit [DecidableEq Code] in
theorem calls_search (key : Key) (next : Option Value → Program Key Value Name Code Result) :
    (Program.call (.search key) next).calls newName store =
      (next (store key)).calls newName store + 1 :=
  rfl

variable {isError : Result → Prop} {program : Program Key Value Name Code Result}

theorem Reads.faulty_locks (reads : program.Reads) :
    (program.execFaulty newName outcomes store).locks = [] := by
  induction reads generalizing outcomes with
  | done result => rfl
  | search _ ih => exact ih _

theorem Reads.faulty_store (reads : program.Reads) :
    (program.execFaulty newName outcomes store).store = store := by
  induction reads generalizing outcomes with
  | done result => rfl
  | search _ ih => exact ih _

theorem Strict.faulty_of_succeed (strict : program.Strict isError)
    (succeed : ∀ call < program.calls newName store, outcomes call = ReplyCode.success) :
    (program.execFaulty newName outcomes store).result = (program.exec newName store).1 ∧
      (program.execFaulty newName outcomes store).calls = program.calls newName store := by
  induction strict generalizing outcomes with
  | done result => exact ⟨rfl, rfl⟩
  | search missed error rest ih =>
    have first : outcomes 0 = ReplyCode.success := succeed 0 (Nat.succ_pos _)
    rw [execFaulty_search, if_pos first]
    obtain ⟨result, calls⟩ := ih _ fun call lt =>
      succeed (call + 1) (Nat.succ_lt_succ lt)
    exact ⟨result, congrArg (· + 1) calls⟩

theorem Strict.succeed_of_faulty (strict : program.Strict isError)
    (noError : ¬ isError (program.execFaulty newName outcomes store).result) :
    ∀ call < program.calls newName store, outcomes call = ReplyCode.success := by
  induction strict generalizing outcomes with
  | done result =>
    intro call lt
    cases lt
  | search missed error rest ih =>
    rw [execFaulty_search, FaultyRun.count_result] at noError
    split_ifs at noError with first
    · intro call lt
      cases call with
      | zero => exact first
      | succ call => exact ih _ noError call (Nat.lt_of_succ_lt_succ lt)
    · rw [missed] at noError
      exact absurd error noError

end Program

end FuseeFs.Library.Store
