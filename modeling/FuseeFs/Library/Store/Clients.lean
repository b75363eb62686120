import FuseeFs.Library.Reachability
import FuseeFs.Library.Store.Program

/-!
# Clients that share a store

Any number of programs run on one map.  A step answers one call of one client,
so the calls of different clients interleave in every possible way.  Locking
does nothing to the store and nothing in the system waits for a lock; the
system only records which names a client has locked.  Whether locks exclude
each other, and whether new names are new, is a condition on runs.
-/

namespace FuseeFs.Library.Store

variable {Key Value Name Code Result Operation : Type}

/-- A running program and the names it has locked and not unlocked. -/
structure Client (Key Value Name Code Result : Type) where
  program : Program Key Value Name Code Result
  held : List Name

def Client.request? (client : Client Key Value Name Code Result) :
    Option (Call Key Value Name) :=
  match client.program with
  | .done _ => none
  | .call req _ => some req

def Client.result? (client : Client Key Value Name Code Result) : Option Result :=
  match client.program with
  | .done result => some result
  | .call _ _ => none

/-- The store, the clients, and two histories: the names that were handed out,
and for every key the clients that inserted it since it was last deleted. -/
structure System (Key Value Name Code Result : Type) where
  store : Key → Option Value
  clients : List (Client Key Value Name Code Result)
  issued : List Name
  given : Key → List ℕ

/-- A client starts an operation, or the next call of a client is answered;
`newName` is the answer if the call asks for a name. -/
inductive Event (Name Operation : Type) where
  | start (op : Operation)
  | act (client : ℕ) (newName : Name)
deriving DecidableEq, Repr

def Call.heldAfter [DecidableEq Name] (held : List Name) : Call Key Value Name → List Name
  | .lock name => name :: held
  | .unlock name => held.erase name
  | _ => held

def Call.issuedAfter (issued : List Name) (newName : Name) : Call Key Value Name → List Name
  | .fresh => newName :: issued
  | _ => issued

def Call.givenAfter [DecidableEq Key] (given : Key → List ℕ) (client : ℕ) :
    Call Key Value Name → Key → List ℕ
  | .insert key _ => Function.update given key (client :: given key)
  | .delete key => Function.update given key []
  | _ => given

namespace System

section Accessors

variable (s : System Key Value Name Code Result)

def request? (client : ℕ) : Option (Call Key Value Name) :=
  s.clients[client]?.bind Client.request?

def result? (client : ℕ) : Option Result :=
  s.clients[client]?.bind Client.result?

def held (client : ℕ) : List Name :=
  (s.clients[client]?.map Client.held).getD []

def Quiescent : Prop :=
  ∀ client ∈ s.clients, client.result?.isSome

instance : Decidable s.Quiescent := by
  unfold Quiescent; infer_instance

end Accessors

variable [DecidableEq Key] [DecidableEq Name] [ReplyCode Code]

def answer (s : System Key Value Name Code Result) (client : ℕ) (held : List Name) (newName : Name)
    (req : Call Key Value Name) (next : req.Reply Code → Program Key Value Name Code Result) :
    System Key Value Name Code Result where
  store := (req.answer Code s.store newName).2
  clients := s.clients.set client
    ⟨next (req.answer Code s.store newName).1, req.heldAfter held⟩
  issued := req.issuedAfter s.issued newName
  given := req.givenAfter s.given client

def step (programOf : Operation → Program Key Value Name Code Result)
    (s : System Key Value Name Code Result) :
    Event Name Operation → Option (System Key Value Name Code Result)
  | .start op => some { s with clients := s.clients ++ [⟨programOf op, []⟩] }
  | .act client newName =>
    match s.clients[client]? with
    | some ⟨.call req next, held⟩ => some (s.answer client held newName req next)
    | _ => none

def FreshNames (s : System Key Value Name Code Result) : Event Name Operation → Prop
  | .start _ => True
  | .act client newName =>
    match s.request? client with
    | some .fresh => newName ∉ s.issued
    | _ => True

/-- A name is locked only while no other client holds it. -/
def Exclusive (s : System Key Value Name Code Result) : Event Name Operation → Prop
  | .start _ => True
  | .act client _ =>
    match s.request? client with
    | some (.lock name) =>
      ∀ other < s.clients.length, other ≠ client → name ∉ s.held other
    | _ => True

instance (s : System Key Value Name Code Result) (event : Event Name Operation) :
    Decidable (s.FreshNames event) := by
  unfold FreshNames; split
  · infer_instance
  · split <;> infer_instance

instance (s : System Key Value Name Code Result) (event : Event Name Operation) :
    Decidable (s.Exclusive event) := by
  unfold Exclusive; split
  · infer_instance
  · split <;> infer_instance

end System

end FuseeFs.Library.Store
