import FuseeFs.Library.Store.Clients

/-!
# Programs that write under locks

A discipline says which name guards which key and which stores are legal.  A
program follows it if it writes in transactions: groups of writes at keys that
it has locked, which together turn every legal store into a legal one.  What a
program reads under a lock it may rely on until it unlocks.  A name that was
just handed out needs no lock: its own key is entered by the first write of a
transaction.

`Safe` states this of a program tree, with one clause for each call.
-/

namespace FuseeFs.Library.Store

variable {Key Value Name Code Result Other : Type}

structure Discipline (Key Value Name : Type) where
  guards : Name → Key → Prop
  guards_unique : ∀ first second key, guards first key → guards second key → first = second
  own : Name → Key
  guards_own : ∀ name, guards name (own name)
  legal : (Key → Option Value) → Prop

inductive Write (Key Value : Type) where
  | insert (key : Key) (value : Value)
  | update (key : Key) (value : Value)
  | delete (key : Key)

namespace Write

def key : Write Key Value → Key
  | .insert key _ | .update key _ | .delete key => key

def value : Write Key Value → Option Value
  | .insert _ value | .update _ value => some value
  | .delete _ => none

def Fits (store : Key → Option Value) : Write Key Value → Prop
  | .insert key _ => store key = none
  | .update key _ | .delete key => store key ≠ none

def Enters (discipline : Discipline Key Value Name) (name : Name) : Write Key Value → Prop
  | .insert key _ => key = discipline.own name
  | _ => False

variable {discipline : Discipline Key Value Name} {write : Write Key Value}

theorem Enters.key_eq {name : Name} (enters : write.Enters discipline name) :
    write.key = discipline.own name := by
  cases write with
  | insert key value => exact enters
  | update key value => exact enters.elim
  | delete key => exact enters.elim

variable {store : Key → Option Value}

theorem Fits.congr {other : Key → Option Value} (fits : write.Fits store)
    (same : other write.key = store write.key) : write.Fits other := by
  cases write with
  | insert key value => exact same.trans fits
  | update key value => exact fun absent => fits (same.symm.trans absent)
  | delete key => exact fun absent => fits (same.symm.trans absent)

theorem Fits.enters {name : Name} (fits : write.Fits store) (own : write.key = discipline.own name)
    (absent : store (discipline.own name) = none) : write.Enters discipline name := by
  rw [← own] at absent
  cases write with
  | insert key value => exact own
  | update key value => exact absurd absent fits
  | delete key => exact absurd absent fits

variable [DecidableEq Key]

def apply (store : Key → Option Value) (write : Write Key Value) : Key → Option Value :=
  Function.update store write.key write.value

def applyAll (store : Key → Option Value) (writes : List (Write Key Value)) :
    Key → Option Value :=
  writes.foldl apply store

variable {store : Key → Option Value} {writes : List (Write Key Value)}

theorem applyAll_of_notMem {key : Key} (absent : key ∉ writes.map Write.key) :
    applyAll store writes key = store key := by
  induction writes generalizing store with
  | nil => rfl
  | cons write writes ih =>
    simp only [List.map_cons, List.mem_cons, not_or] at absent
    exact (ih absent.2).trans (Function.update_of_ne absent.1 _ _)

theorem applyAll_of_mem (distinct : (writes.map Write.key).Nodup) (member : write ∈ writes) :
    applyAll store writes write.key = write.value := by
  induction writes generalizing store with
  | nil => cases member
  | cons head writes ih =>
    obtain ⟨notLater, distinctRest⟩ := List.nodup_cons.mp distinct
    rcases List.mem_cons.mp member with rfl | later
    · exact (applyAll_of_notMem notLater).trans (Function.update_self ..)
    · exact ih distinctRest later

end Write

/-- What a program may rely on, the new name it has not entered yet, and the
writes that are left of its transaction. -/
structure Mode (Key Value Name : Type) where
  known : (Key → Option Value) → Prop
  owned : Option Name
  todo : List (Write Key Value)

namespace Mode

def writing (todo : List (Write Key Value)) : Mode Key Value Name :=
  ⟨fun _ => True, none, todo⟩

def idle : Mode Key Value Name :=
  writing []

/-- A reply under a lock is remembered, except that the own key of a name is
absent, since its owner may enter it. -/
def learn (discipline : Discipline Key Value Name) (mode : Mode Key Value Name) (key : Key)
    (reply : Option Value) : Mode Key Value Name :=
  { mode with known := fun store => mode.known store ∧
      (store key = reply ∨ reply = none ∧ ∃ name, key = discipline.own name) }

def receive (mode : Mode Key Value Name) (name : Name) : Mode Key Value Name :=
  { mode with owned := some name }

end Mode

namespace Discipline

variable (discipline : Discipline Key Value Name)

def Guarded (held : List Name) (key : Key) : Prop :=
  ∃ name ∈ held, discipline.guards name key

/-- The writes `first :: rest` may be committed: the keys are locked, the first
one may be the own key of the new name, and a legal store in which everything
known holds becomes a legal one. -/
structure Transaction [DecidableEq Key] (held : List Name) (mode : Mode Key Value Name)
    (first : Write Key Value) (rest : List (Write Key Value)) : Prop where
  first_guarded : discipline.Guarded held first.key ∨
    ∃ name, mode.owned = some name ∧ first.Enters discipline name
  first_owned : ∀ name, first.Enters discipline name → mode.owned = some name
  rest_guarded : ∀ write ∈ rest, discipline.Guarded held write.key
  rest_owned : ∀ write ∈ rest, ∀ name, ¬ write.Enters discipline name
  sound : ∀ store, discipline.legal store → mode.known store →
    (∀ name, mode.owned = some name → store (discipline.own name) = none) →
    ((first :: rest).map Write.key).Nodup ∧ (∀ write ∈ first :: rest, write.Fits store) ∧
      discipline.legal (Write.applyAll store (first :: rest))

def SafeWrite [DecidableEq Key] (held : List Name) (mode : Mode Key Value Name)
    (write : Write Key Value) (after : Mode Key Value Name → Prop) : Prop :=
  ∃ rest, after (.writing rest) ∧
    (mode.todo = write :: rest ∨ mode.todo = [] ∧ discipline.Transaction held mode write rest)

variable [DecidableEq Key] [DecidableEq Name] [ReplyCode Code]

def Safe : List Name → Mode Key Value Name → Program Key Value Name Code Result → Prop
  | held, mode, .done _ => held = [] ∧ mode.todo = []
  | held, mode, .call (.search key) next =>
    mode.todo = [] ∧ ((∀ reply, Safe held mode (next reply)) ∨
      discipline.Guarded held key ∧
        ∀ reply, Safe held (mode.learn discipline key reply) (next reply))
  | held, mode, .call (.insert key value) next =>
    discipline.SafeWrite held mode (.insert key value) fun after =>
      Safe held after (next ReplyCode.success)
  | held, mode, .call (.update key value) next =>
    discipline.SafeWrite held mode (.update key value) fun after =>
      Safe held after (next ReplyCode.success)
  | held, mode, .call (.delete key) next =>
    discipline.SafeWrite held mode (.delete key) fun after =>
      Safe held after (next ReplyCode.success)
  | held, mode, .call (.lock name) next => mode.todo = [] ∧ Safe (name :: held) mode (next ())
  | held, mode, .call (.unlock name) next =>
    mode.todo = [] ∧ name ∈ held ∧ Safe (held.erase name) .idle (next ())
  | held, mode, .call .fresh next =>
    mode.todo = [] ∧ ∀ name, Safe held (mode.receive name) (next name)

variable {discipline} {held : List Name} {mode : Mode Key Value Name}
variable {program : Program Key Value Name Code Result}

theorem Safe.of_reads (reads : program.Reads) {after : Result → Program Key Value Name Code Other}
    (free : mode.todo = []) (safe : ∀ result, discipline.Safe held mode (after result)) :
    discipline.Safe held mode (program >>= after) := by
  induction reads with
  | done result => exact safe result
  | search _ ih => exact ⟨free, Or.inl ih⟩

theorem Safe.of_only_reads (reads : program.Reads) (free : mode.todo = []) :
    discipline.Safe [] mode program := by
  induction reads with
  | done result => exact ⟨rfl, free⟩
  | search _ ih => exact ⟨free, Or.inl ih⟩

end Discipline

end FuseeFs.Library.Store
