import FuseeFs.Engine.Meta
import FuseeFs.Library.Reachability

/-!
# The locks of the Central server

`LockHandler` and `UnlockHandler` of `fs/central/central.cc` and the clients that
send them requests.  Requests and responses travel on their own: any number of
them may be on their way, and the server executes each request once, in any order.
-/

namespace FuseeFs.Engine.CentralLocks

open List Option Function Library

structure Central where
  lockSet : Finset UInt64

def lockHandler (central : Central) (id : UInt64) : Central × UInt8 :=
  if id ∈ central.lockSet then (central, 1)
  else ({ lockSet := insert id central.lockSet }, 0)

def unlockHandler (central : Central) (id : UInt64) : Central × UInt8 :=
  ({ lockSet := central.lockSet.erase id }, 0)

inductive Request
  | lock (id : UInt64)
  | unlock (id : UInt64)
deriving DecidableEq

def handler (central : Central) : Request → Central × UInt8
  | .lock id => lockHandler central id
  | .unlock id => unlockHandler central id

/-- `held` has the ids that a client has been told that it holds and that it has
not asked the server to unlock. -/
structure System (Client : Type) where
  central : Central
  requests : List (Client × Request)
  responses : List (Client × Request × UInt8)
  held : Client → Finset UInt64

inductive Event (Client : Type)
  | send (client : Client) (req : Request)
  | execute (client : Client) (req : Request)
  | receive (client : Client) (req : Request) (status : UInt8)

namespace System

variable {Client : Type}

def start : System Client where
  central := { lockSet := ∅ }
  requests := []
  responses := []
  held := fun _ => ∅

def IsInitial (s : System Client) : Prop :=
  s = start

theorem isInitial_start : IsInitial (start : System Client) :=
  rfl

variable [DecidableEq Client]

def sent (held : Finset UInt64) : Request → Finset UInt64
  | .lock _ => held
  | .unlock id => held.erase id

def told (held : Finset UInt64) (status : UInt8) : Request → Finset UInt64
  | .lock id => if status = 0 then insert id held else held
  | .unlock _ => held

def step (s : System Client) : Event Client → Option (System Client)
  | .send client req =>
    some { s with
      requests := (client, req) :: s.requests
      held := update s.held client (sent (s.held client) req) }
  | .execute client req =>
    if s.requests.contains (client, req) then
      some { s with
        central := (handler s.central req).1
        requests := s.requests.erase (client, req)
        responses := (client, req, (handler s.central req).2) :: s.responses }
    else none
  | .receive client req status =>
    if s.responses.contains (client, req, status) then
      some { s with
        responses := s.responses.erase (client, req, status)
        held := update s.held client (told (s.held client) status req) }
    else none

def UnlocksHeld (s : System Client) : Event Client → Prop
  | .send client (.unlock id) => id ∈ s.held client
  | _ => True

instance (s : System Client) : (event : Event Client) → Decidable (s.UnlocksHeld event)
  | .send client (.unlock id) => inferInstanceAs (Decidable (id ∈ s.held client))
  | .send _ (.lock _) => inferInstanceAs (Decidable True)
  | .execute _ _ => inferInstanceAs (Decidable True)
  | .receive _ _ _ => inferInstanceAs (Decidable True)

/-- A client holds an id from the moment when the server grants it to the moment
when the server executes the client's unlock request. -/
def Holds (s : System Client) (client : Client) (id : UInt64) : Prop :=
  (client, .lock id, 0) ∈ s.responses ∨ id ∈ s.held client ∨ (client, .unlock id) ∈ s.requests

/-- How often a client has been granted an id and the server has not yet taken it
back: the grant is on its way, the client knows of it, or its unlock request is on
its way. -/
def grants (s : System Client) (client : Client) (id : UInt64) : ℕ :=
  s.responses.count (client, .lock id, 0) + (if id ∈ s.held client then 1 else 0) +
    s.requests.count (client, .unlock id)

theorem holds_iff {s : System Client} {client : Client} {id : UInt64} :
    s.Holds client id ↔ s.grants client id ≠ 0 := by
  rw [Holds, grants, ← count_pos_iff, ← count_pos_iff]
  by_cases known : id ∈ s.held client
  · simp [known]
  · simp only [known, false_or, if_false]
    omega

structure Inv (s : System Client) : Prop where
  once : ∀ client id, s.grants client id ≤ 1
  exclusive : ∀ {client other id}, s.grants client id ≠ 0 → s.grants other id ≠ 0 → client = other
  table : ∀ id, id ∈ s.central.lockSet ↔ ∃ client, s.grants client id ≠ 0

variable {s after : System Client}

theorem inv_start : Inv (start : System Client) := by
  constructor <;> simp [grants, start]

section Steps

variable {client : Client} {req : Request} {id : UInt64} (inv : s.Inv)
include inv

theorem Inv.of_grants_eq (sameTable : after.central = s.central)
    (same : ∀ client id, after.grants client id = s.grants client id) : after.Inv := by
  constructor
  · intro client id
    rw [same]
    exact inv.once client id
  · intro client other id
    rw [same, same]
    exact inv.exclusive
  · intro id
    simp only [same, sameTable]
    exact inv.table id

theorem Inv.send (unlocksHeld : s.UnlocksHeld (.send client req)) :
    Inv { s with
      requests := (client, req) :: s.requests
      held := update s.held client (sent (s.held client) req) } := by
  refine inv.of_grants_eq rfl fun other id => ?_
  cases req with
  | lock locked =>
    have ne : (client, Request.lock locked) ≠ (other, .unlock id) := by simp
    simp only [grants, sent, update_eq_self, count_cons_of_ne ne]
  | unlock unlocked =>
    -- the grant moves from the client's knowledge to the request
    by_cases same : (client, Request.unlock unlocked) = (other, .unlock id)
    · obtain ⟨rfl, rfl⟩ : client = other ∧ unlocked = id := by simpa using same
      have known : unlocked ∈ s.held client := unlocksHeld
      simp only [grants, sent, update_self, count_cons_self, known, if_true,
        Finset.notMem_erase, if_false]
      omega
    · rw [grants, grants, count_cons_of_ne same]
      by_cases isClient : other = client
      · subst isClient
        have ne : id ≠ unlocked := by
          rintro rfl
          exact same rfl
        simp [sent, ne]
      · simp [isClient]

theorem Inv.receive {status : UInt8} (arrived : (client, req, status) ∈ s.responses) :
    Inv { s with
      responses := s.responses.erase (client, req, status)
      held := update s.held client (told (s.held client) status req) } := by
  refine inv.of_grants_eq rfl fun other id => ?_
  by_cases same : (client, req, status) = (other, .lock id, 0)
  · -- the grant moves from the response to the client's knowledge
    obtain ⟨rfl, rfl, rfl⟩ : client = other ∧ req = .lock id ∧ status = 0 := by simpa using same
    have pending : 0 < s.responses.count (client, .lock id, 0) := count_pos_iff.mpr arrived
    have unknown : id ∉ s.held client := by
      intro known
      have once := inv.once client id
      rw [grants, if_pos known] at once
      omega
    simp only [grants, told, update_self, count_erase_self, if_true,
      Finset.mem_insert_self, unknown, if_false]
    omega
  · rw [grants, grants, count_erase_of_ne (Ne.symm same)]
    by_cases isClient : other = client
    · subst isClient
      cases req with
      | unlock unlocked => simp [told]
      | lock locked =>
        by_cases granted : status = 0
        · have ne : id ≠ locked := by
            rintro rfl
            exact same (by rw [granted])
          simp [told, granted, ne]
        · simp [told, granted]
    · simp [isClient]

theorem Inv.refuse :
    Inv { s with
      requests := s.requests.erase (client, .lock id)
      responses := (client, .lock id, 1) :: s.responses } := by
  refine inv.of_grants_eq rfl fun other otherId => ?_
  have notGrant : (client, Request.lock id, (1 : UInt8)) ≠ (other, .lock otherId, 0) := by simp
  have notUnlock : (other, Request.unlock otherId) ≠ (client, .lock id) := by simp
  simp only [grants, count_cons_of_ne notGrant, count_erase_of_ne notUnlock]

theorem Inv.grant (free : id ∉ s.central.lockSet) :
    Inv { s with
      central := { lockSet := insert id s.central.lockSet }
      requests := s.requests.erase (client, .lock id)
      responses := (client, .lock id, 0) :: s.responses } := by
  have unheld (other : Client) : s.grants other id = 0 := by
    by_contra held
    exact free ((inv.table id).mpr ⟨other, held⟩)
  have changed (other : Client) (otherId : UInt64) :
      grants { s with
        central := { lockSet := insert id s.central.lockSet }
        requests := s.requests.erase (client, .lock id)
        responses := (client, .lock id, 0) :: s.responses } other otherId =
      s.grants other otherId + if other = client ∧ otherId = id then 1 else 0 := by
    have notUnlock : (other, Request.unlock otherId) ≠ (client, .lock id) := by simp
    simp only [grants, count_erase_of_ne notUnlock]
    by_cases same : other = client ∧ otherId = id
    · obtain ⟨rfl, rfl⟩ := same
      simp only [count_cons_self, and_self, if_true]
      omega
    · have notGrant : (client, Request.lock id, (0 : UInt8)) ≠ (other, .lock otherId, 0) := by
        rintro equal
        obtain ⟨rfl, rfl⟩ : client = other ∧ id = otherId := by simpa using equal
        exact same ⟨rfl, rfl⟩
      simp only [count_cons_of_ne notGrant, same, if_false, Nat.add_zero]
  constructor
  · intro other otherId
    rw [changed]
    split_ifs with same
    · rw [same.2, unheld]
    · exact inv.once other otherId
  · intro first second otherId
    rw [changed, changed]
    by_cases isId : otherId = id
    · subst isId
      rw [unheld, unheld]
      intro firstHolds secondHolds
      obtain isFirst : first = client := by simpa using firstHolds
      obtain isSecond : second = client := by simpa using secondHolds
      rw [isFirst, isSecond]
    · simp only [isId, and_false, if_false, Nat.add_zero]
      exact inv.exclusive
  · intro otherId
    simp only [changed, Finset.mem_insert]
    by_cases isId : otherId = id
    · subst isId
      exact iff_of_true (.inl rfl) ⟨client, by simp⟩
    · simp only [isId, false_or, and_false, if_false, Nat.add_zero]
      exact inv.table otherId

theorem Inv.release (sent : (client, .unlock id) ∈ s.requests) :
    Inv { s with
      central := { lockSet := s.central.lockSet.erase id }
      requests := s.requests.erase (client, .unlock id)
      responses := (client, .unlock id, 0) :: s.responses } := by
  have pending : 0 < s.requests.count (client, .unlock id) := count_pos_iff.mpr sent
  have holder : s.grants client id = 1 := by
    have once := inv.once client id
    rw [grants] at once ⊢
    omega
  have changed (other : Client) (otherId : UInt64) :
      grants { s with
        central := { lockSet := s.central.lockSet.erase id }
        requests := s.requests.erase (client, .unlock id)
        responses := (client, .unlock id, 0) :: s.responses } other otherId =
      s.grants other otherId - if other = client ∧ otherId = id then 1 else 0 := by
    have notGrant : (client, Request.unlock id, (0 : UInt8)) ≠ (other, .lock otherId, 0) := by simp
    simp only [grants, count_cons_of_ne notGrant]
    by_cases same : other = client ∧ otherId = id
    · obtain ⟨rfl, rfl⟩ := same
      simp only [count_erase_self, and_self, if_true]
      omega
    · have notUnlock : (other, Request.unlock otherId) ≠ (client, .unlock id) := by
        rintro equal
        exact same (by simpa using equal)
      simp only [count_erase_of_ne notUnlock, same, if_false, Nat.sub_zero]
  -- no client is left that holds the id
  have unheld (other : Client) :
      s.grants other id - (if other = client then 1 else 0) = 0 := by
    by_cases isClient : other = client
    · simp [isClient, holder]
    · have notHolder : s.grants other id = 0 := by
        by_contra held
        exact isClient (inv.exclusive held (by simp [holder]))
      simp [isClient, notHolder]
  constructor
  · intro other otherId
    rw [changed]
    exact (Nat.sub_le _ _).trans (inv.once other otherId)
  · intro first second otherId
    rw [changed, changed]
    intro firstHolds secondHolds
    have firstHeld : s.grants first otherId ≠ 0 := by omega
    have secondHeld : s.grants second otherId ≠ 0 := by omega
    exact inv.exclusive firstHeld secondHeld
  · intro otherId
    simp only [changed, Finset.mem_erase]
    by_cases isId : otherId = id
    · subst isId
      simpa using unheld
    · simp only [isId, ne_eq, not_false_eq_true, true_and, and_false, if_false, Nat.sub_zero]
      exact inv.table otherId

theorem Inv.execute (sent : (client, req) ∈ s.requests) :
    Inv { s with
      central := (handler s.central req).1
      requests := s.requests.erase (client, req)
      responses := (client, req, (handler s.central req).2) :: s.responses } := by
  cases req with
  | lock id =>
    by_cases locked : id ∈ s.central.lockSet
    · rw [handler, lockHandler, if_pos locked]
      exact inv.refuse
    · rw [handler, lockHandler, if_neg locked]
      exact inv.grant locked
  | unlock id => exact inv.release sent

theorem Inv.step {event : Event Client} (unlocksHeld : s.UnlocksHeld event)
    (taken : s.step event = some after) : after.Inv := by
  cases event with
  | send client req =>
    obtain rfl := some.inj taken
    exact inv.send unlocksHeld
  | execute client req =>
    rw [System.step] at taken
    split_ifs at taken with sent
    obtain rfl := some.inj taken
    exact inv.execute (contains_iff_mem.mp sent)
  | receive client req status =>
    rw [System.step] at taken
    split_ifs at taken with arrived
    obtain rfl := some.inj taken
    exact inv.receive (contains_iff_mem.mp arrived)

end Steps

theorem inv_of_reachable (reached : Reachable step UnlocksHeld IsInitial s) : s.Inv := by
  apply reached.invariant
  · rintro _ rfl
    exact inv_start
  · intro before event after inv unlocksHeld taken
    exact inv.step unlocksHeld taken

theorem lockHandler_eq_zero_iff {central : Central} {id : UInt64} :
    (lockHandler central id).2 = 0 ↔ id ∉ central.lockSet := by
  rw [lockHandler]
  split_ifs with locked <;> simp [locked]

/-- In every state that clients reach that unlock only what they hold, at most one
client holds an id, the table of the server has the ids that are held, and a lock
request is granted just when no client holds the id. -/
theorem mutual_exclusion (reached : Reachable step UnlocksHeld IsInitial s) :
    (∀ id client other, s.Holds client id → s.Holds other id → client = other) ∧
    (∀ id, id ∈ s.central.lockSet ↔ ∃ client, s.Holds client id) ∧
    (∀ id, (lockHandler s.central id).2 = 0 ↔ ∀ client, ¬ s.Holds client id) := by
  have inv := inv_of_reachable reached
  simp only [holds_iff, lockHandler_eq_zero_iff]
  refine ⟨fun id client other => inv.exclusive, inv.table, fun id => ?_⟩
  rw [inv.table, not_exists]

/-- Two clients ask for the id 5, the second one in vain. -/
theorem mutual_exclusion_twoClients :
    ∃ s : System ℕ, Reachable step UnlocksHeld IsInitial s ∧
      ((5 ∈ s.held 1 ∧ (2, .lock 5, 1) ∈ s.responses) ∧ ∀ other, s.Holds other 5 → other = 1) := by
  obtain ⟨s, reached, known, refused⟩ := Reachable.exists_of_run step UnlocksHeld
    [.send 1 (.lock 5), .send 2 (.lock 5), .execute 1 (.lock 5), .execute 2 (.lock 5),
      .receive 1 (.lock 5) 0]
    (fun s : System ℕ => 5 ∈ s.held 1 ∧ (2, .lock 5, 1) ∈ s.responses) isInitial_start
    (by decide)
  refine ⟨s, reached, ⟨known, refused⟩, fun other holds => ?_⟩
  exact (mutual_exclusion reached).1 5 other 1 holds (.inr (.inl known))

end System

end FuseeFs.Engine.CentralLocks
