import FuseeFs.Library.Store.Program

/-!
# Stores whose writes may fail

`execFailing` answers the calls of a program from a map that may refuse writes.
`outcomes` has a code for each write that `governed` selects, in the order of
the calls: the map carries out a write only if its code says success, and
replies with the code otherwise.
-/

namespace FuseeFs.Library.Store

variable {Key Value Name Code Result Other : Type}

namespace Call

def isInsert : Call Key Value Name → Bool
  | .insert _ _ => true
  | _ => false

def draws (governed : Call Key Value Name → Bool) : Call Key Value Name → Bool
  | .insert key value => governed (.insert key value)
  | .update key value => governed (.update key value)
  | .delete key => governed (.delete key)
  | .search _ | .lock _ | .unlock _ | .fresh => false

variable [DecidableEq Code] [ReplyCode Code]

def failed : (req : Call Key Value Name) → req.Reply Code → Bool
  | .insert _ _, code | .update _ _, code | .delete _, code => code ≠ ReplyCode.success
  | .search _, _ | .lock _, _ | .unlock _, _ | .fresh, _ => false

variable [DecidableEq Key]

/-- The answer to a call when the map has settled on `code` for it. -/
def answerWith (code : Code) (store : Key → Option Value) (newName : Name) :
    (req : Call Key Value Name) → req.Reply Code × (Key → Option Value)
  | .insert key value =>
    if code = ReplyCode.success then (Call.insert key value).answer Code store newName
    else (code, store)
  | .update key value =>
    if code = ReplyCode.success then (Call.update key value).answer Code store newName
    else (code, store)
  | .delete key =>
    if code = ReplyCode.success then (Call.delete key).answer Code store newName
    else (code, store)
  | .search key => (store key, store)
  | .lock _ | .unlock _ => ((), store)
  | .fresh => (newName, store)

end Call

/-- How a program ended: with a result, a store, and some writes that failed. -/
structure Execution (Stored Result : Type) where
  result : Result
  store : Stored
  failures : ℕ

namespace Execution

variable {Stored : Type} (run : Execution Stored Result)

def fail : Execution Stored Result :=
  { run with failures := run.failures + 1 }

@[simp]
theorem fail_result : run.fail.result = run.result :=
  rfl

@[simp]
theorem fail_store : run.fail.store = run.store :=
  rfl

end Execution

namespace Program

variable [DecidableEq Key] [DecidableEq Code] [ReplyCode Code]

def execFailing (governed : Call Key Value Name → Bool) (newName : Name) (outcomes : ℕ → Code)
    (store : Key → Option Value) :
    Program Key Value Name Code Result → Execution (Key → Option Value) Result
  | .done result => ⟨result, store, 0⟩
  | .call req next =>
    let drawn := req.draws governed
    let code := if drawn then outcomes 0 else ReplyCode.success
    let answer := req.answerWith code store newName
    let run := (next answer.1).execFailing governed newName
      (if drawn then fun write => outcomes (write + 1) else outcomes) answer.2
    if req.failed answer.1 then run.fail else run

variable {governed : Call Key Value Name → Bool} {newName : Name} {outcomes : ℕ → Code}
variable {store : Key → Option Value}

@[simp]
theorem execFailing_search (key : Key) (next : Option Value → Program Key Value Name Code Result) :
    (Program.call (.search key) next).execFailing governed newName outcomes store =
      (next (store key)).execFailing governed newName outcomes store :=
  rfl

@[simp]
theorem execFailing_lock (name : Name) (next : Unit → Program Key Value Name Code Result) :
    (Program.call (.lock name) next).execFailing governed newName outcomes store =
      (next ()).execFailing governed newName outcomes store :=
  rfl

variable {program : Program Key Value Name Code Result}

theorem Reads.execFailing_store (reads : program.Reads) :
    (program.execFailing governed newName outcomes store).store = store := by
  induction reads with
  | done result => rfl
  | search _ ih => exact ih _

theorem execFailing_insert {key : Key} {value : Value}
    (next : Code → Program Key Value Name Code Result)
    (drawn : governed (.insert key value) = true) :
    (Program.call (.insert key value) next).execFailing governed newName outcomes store =
      if outcomes 0 = ReplyCode.success then
        (next ReplyCode.success).execFailing governed newName (fun write => outcomes (write + 1))
          (Function.update store key (some value))
      else
        ((next (outcomes 0)).execFailing governed newName (fun write => outcomes (write + 1))
          store).fail := by
  split_ifs with code <;>
    simp [execFailing, Call.draws, Call.answerWith, Call.answer, Call.failed, drawn, code]

theorem execFailing_update_of_not_drawn {key : Key} {value : Value}
    (next : Code → Program Key Value Name Code Result)
    (notDrawn : governed (.update key value) = false) (present : (store key).isSome) :
    (Program.call (.update key value) next).execFailing governed newName outcomes store =
      (next ReplyCode.success).execFailing governed newName outcomes
        (Function.update store key (some value)) := by
  simp [execFailing, Call.draws, Call.answerWith, Call.answer, Call.failed, notDrawn, present]

theorem Reads.execFailing_bind (reads : program.Reads)
    (after : Result → Program Key Value Name Code Other) :
    (program >>= after).execFailing governed newName outcomes store =
      (after (program.exec newName store).1).execFailing governed newName outcomes store := by
  induction reads with
  | done result => rfl
  | search _ ih => exact ih _

end Program

end FuseeFs.Library.Store
