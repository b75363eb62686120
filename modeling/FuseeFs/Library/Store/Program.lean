import Mathlib

/-!
# Programs over a key-value store

A client of a key-value store is a tree of calls: each node names one call and
goes on with its reply.  Besides the store it may lock and unlock names and ask
for a new name.  The tree leaves open who answers; `exec` answers every call
from a map, one after the other.
-/

namespace FuseeFs.Library.Store

inductive Call (Key Value Name : Type) where
  | search (key : Key)
  | insert (key : Key) (value : Value)
  | update (key : Key) (value : Value)
  | delete (key : Key)
  | lock (name : Name)
  | unlock (name : Name)
  | fresh
deriving DecidableEq, Repr

variable {Key Value Name Code : Type}

@[reducible]
def Call.Reply (Code : Type) : Call Key Value Name → Type
  | .search _ => Option Value
  | .insert _ _ | .update _ _ | .delete _ => Code
  | .lock _ | .unlock _ => Unit
  | .fresh => Name

class ReplyCode (Code : Type) where
  success : Code
  absent : Code

/-- A tree of calls that ends in a result. -/
inductive Program (Key Value Name Code Result : Type) where
  | done (result : Result)
  | call (req : Call Key Value Name)
      (next : req.Reply Code → Program Key Value Name Code Result)

namespace Program

variable {Result Other : Type}

protected def bind (program : Program Key Value Name Code Result)
    (after : Result → Program Key Value Name Code Other) : Program Key Value Name Code Other :=
  match program with
  | .done result => after result
  | .call req next => .call req fun reply => (next reply).bind after

instance : Monad (Program Key Value Name Code) where
  pure := .done
  bind := .bind

@[simp]
theorem done_bind (result : Result) (after : Result → Program Key Value Name Code Other) :
    (.done result : Program Key Value Name Code Result) >>= after = after result :=
  rfl

@[simp]
theorem call_bind (req : Call Key Value Name)
    (next : req.Reply Code → Program Key Value Name Code Result)
    (after : Result → Program Key Value Name Code Other) :
    (.call req next : Program Key Value Name Code Result) >>= after =
      .call req fun reply => next reply >>= after :=
  rfl

inductive Reads : Program Key Value Name Code Result → Prop
  | done (result : Result) : Reads (.done result)
  | search {key : Key} {next : Option Value → Program Key Value Name Code Result}
      (rest : ∀ reply, Reads (next reply)) : Reads (.call (.search key) next)

variable {program : Program Key Value Name Code Result}

theorem Reads.bind {after : Result → Program Key Value Name Code Other} (reads : program.Reads)
    (afterReads : ∀ result, (after result).Reads) : (program >>= after).Reads := by
  induction reads with
  | done result => exact afterReads result
  | search _ ih => exact .search ih

/-- A program that only searches and ends with an error when it finds nothing. -/
inductive Strict (isError : Result → Prop) : Program Key Value Name Code Result → Prop
  | done (result : Result) : Strict isError (.done result)
  | search {key : Key} {next : Option Value → Program Key Value Name Code Result} {result : Result}
      (missed : next none = .done result) (error : isError result)
      (rest : ∀ reply, Strict isError (next reply)) : Strict isError (.call (.search key) next)

theorem Strict.reads {isError : Result → Prop} (strict : program.Strict isError) :
    program.Reads := by
  induction strict with
  | done result => exact .done result
  | search _ _ _ ih => exact .search ih

end Program

variable [DecidableEq Key]

/-- The answer of a map to one call, and the map after it.  Locks are of no
concern to the map, and `newName` is what a request for a name gets. -/
def Call.answer (Code : Type) [ReplyCode Code] (store : Key → Option Value) (newName : Name) :
    (req : Call Key Value Name) → req.Reply Code × (Key → Option Value)
  | .search key => (store key, store)
  | .insert key value => (ReplyCode.success, Function.update store key (some value))
  | .update key value =>
    if (store key).isSome then (ReplyCode.success, Function.update store key (some value))
    else (ReplyCode.absent, store)
  | .delete key => (ReplyCode.success, Function.update store key none)
  | .lock _ | .unlock _ => ((), store)
  | .fresh => (newName, store)

namespace Program

variable [ReplyCode Code] {Result Other : Type}

def exec (newName : Name) (store : Key → Option Value) :
    Program Key Value Name Code Result → Result × (Key → Option Value)
  | .done result => (result, store)
  | .call req next =>
    (next (req.answer Code store newName).1).exec newName (req.answer Code store newName).2

variable {newName : Name} {store : Key → Option Value}

@[simp]
theorem exec_done (result : Result) :
    (.done result : Program Key Value Name Code Result).exec newName store = (result, store) :=
  rfl

theorem exec_call (req : Call Key Value Name)
    (next : req.Reply Code → Program Key Value Name Code Result) :
    (Program.call req next).exec newName store =
      (next (req.answer Code store newName).1).exec newName (req.answer Code store newName).2 :=
  rfl

@[simp]
theorem exec_search (key : Key) (next : Option Value → Program Key Value Name Code Result) :
    (Program.call (.search key) next).exec newName store = (next (store key)).exec newName store :=
  rfl

@[simp]
theorem exec_lock (name : Name) (next : Unit → Program Key Value Name Code Result) :
    (Program.call (.lock name) next).exec newName store = (next ()).exec newName store :=
  rfl

@[simp]
theorem exec_fresh (next : Name → Program Key Value Name Code Result) :
    (Program.call .fresh next).exec newName store = (next newName).exec newName store :=
  rfl

@[simp]
theorem exec_insert (key : Key) (value : Value) (next : Code → Program Key Value Name Code Result) :
    (Program.call (.insert key value) next).exec newName store =
      (next ReplyCode.success).exec newName (Function.update store key (some value)) :=
  rfl

@[simp]
theorem exec_delete (key : Key) (next : Code → Program Key Value Name Code Result) :
    (Program.call (.delete key) next).exec newName store =
      (next ReplyCode.success).exec newName (Function.update store key none) :=
  rfl

theorem exec_update (key : Key) (value : Value)
    (next : Code → Program Key Value Name Code Result) (present : (store key).isSome) :
    (Program.call (.update key value) next).exec newName store =
      (next ReplyCode.success).exec newName (Function.update store key (some value)) := by
  simp [exec_call, Call.answer, present]

theorem exec_bind (program : Program Key Value Name Code Result)
    (after : Result → Program Key Value Name Code Other) :
    (program >>= after).exec newName store =
      (after (program.exec newName store).1).exec newName (program.exec newName store).2 := by
  induction program generalizing store with
  | done result => rfl
  | call req next ih => exact ih _

variable {program : Program Key Value Name Code Result}

theorem Reads.exec_fst (reads : program.Reads) (other : Name) :
    (program.exec newName store).1 = (program.exec other store).1 := by
  induction reads with
  | done result => rfl
  | search _ ih => exact ih _

theorem Reads.exec_snd (reads : program.Reads) : (program.exec newName store).2 = store := by
  induction reads with
  | done result => rfl
  | search _ ih => exact ih _

end Program

end FuseeFs.Library.Store
