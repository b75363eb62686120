import FuseeFs.Library.Store.Invariant

/-!
# Locked transactions keep the store legal

If every operation follows a discipline, locks exclude each other and new names
are new, then the store is legal whenever no operation is in flight, and no key
was given to two clients.
-/

namespace FuseeFs.Library.Store

open List Option

variable {Key Value Name Code Result Operation : Type}
variable [DecidableEq Key] [DecidableEq Name] [ReplyCode Code]

namespace System

variable {s : System Key Value Name Code Result} {index : ℕ} {held : List Name}
variable {discipline : Discipline Key Value Name} {virtual : Key → Option Value}
variable {modes : ℕ → Mode Key Value Name} {newName : Name}

section Calls

variable {key : Key} {value : Value} {name : Name} (inv : s.InvAt discipline virtual modes)
include inv

theorem InvAt.search {next : Option Value → Program Key Value Name Code Result}
    (found : s.clients[index]? = some ⟨.call (.search key) next, held⟩) :
    ∃ mode, InvAt discipline (s.answer index held newName (.search key) next) virtual
      (Function.update modes index mode) := by
  have heldNow : s.held index = held := held_of_found found
  have ok := inv.clientOk index
  rw [heldNow] at ok
  obtain ⟨free, unlocked | ⟨guarded, locked⟩⟩ := inv.safe index _ found
  · refine ⟨modes index, inv.quiet found ?_⟩
    exact ⟨free, free, unlocked (s.store key), ok.known, ok.stable,
      fun _ member => Or.inl (heldNow ▸ member), fun _ => id, fun _ => Or.inl⟩
  · refine ⟨(modes index).learn discipline key (s.store key), inv.quiet found ?_⟩
    have seen : virtual key = s.store key := (inv.store_eq free (heldNow ▸ guarded)).symm
    exact ⟨free, free, locked (s.store key), ⟨ok.known, Or.inl seen⟩, ok.stable.learn _ guarded,
      fun _ member => Or.inl (heldNow ▸ member), fun _ => id, fun _ => Or.inl⟩

variable {next : Unit → Program Key Value Name Code Result}

theorem InvAt.lock (found : s.clients[index]? = some ⟨.call (.lock name) next, held⟩)
    (nobody : ∀ other, other ≠ index → name ∉ s.held other) :
    ∃ mode, InvAt discipline (s.answer index held newName (.lock name) next) virtual
      (Function.update modes index mode) := by
  have heldNow : s.held index = held := held_of_found found
  have ok := inv.clientOk index
  rw [heldNow] at ok
  obtain ⟨free, safe⟩ := inv.safe index _ found
  refine ⟨modes index, inv.quiet found ⟨free, free, safe, ok.known, ?_, ?_, fun _ => id,
    fun _ => Or.inl⟩⟩
  · exact ok.stable.mono fun _ => mem_cons_of_mem name
  · intro locked member
    rcases mem_cons.mp member with rfl | before
    · exact Or.inr nobody
    · exact Or.inl (heldNow ▸ before)

theorem InvAt.unlock (found : s.clients[index]? = some ⟨.call (.unlock name) next, held⟩) :
    ∃ mode, InvAt discipline (s.answer index held newName (.unlock name) next) virtual
      (Function.update modes index mode) := by
  have heldNow : s.held index = held := held_of_found found
  obtain ⟨free, -, safe⟩ := inv.safe index _ found
  refine ⟨.idle, inv.quiet found ⟨free, rfl, safe, trivial, fun _ _ _ => id, ?_, fun _ => id,
    by rintro _ ⟨⟩⟩⟩
  exact fun locked member => Or.inl (heldNow ▸ mem_of_mem_erase member)

theorem InvAt.fresh {next : Name → Program Key Value Name Code Result}
    (found : s.clients[index]? = some ⟨.call .fresh next, held⟩) (isNew : newName ∉ s.issued) :
    ∃ mode, InvAt discipline (s.answer index held newName .fresh next) virtual
      (Function.update modes index mode) := by
  have heldNow : s.held index = held := held_of_found found
  have ok := inv.clientOk index
  rw [heldNow] at ok
  obtain ⟨free, safe⟩ := inv.safe index _ found
  refine ⟨(modes index).receive newName, inv.quiet found ⟨free, free, safe newName, ok.known,
    ok.stable, fun _ member => Or.inl (heldNow ▸ member), fun _ => mem_cons_of_mem newName,
    ?_⟩⟩
  intro name owned
  obtain rfl : newName = name := some.inj owned
  exact Or.inr ⟨isNew, mem_cons_self⟩

variable {next : Code → Program Key Value Name Code Result}

theorem InvAt.insert (found : s.clients[index]? = some ⟨.call (.insert key value) next, held⟩) :
    ∃ after mode, InvAt discipline (s.answer index held newName (.insert key value) next) after
      (Function.update modes index mode) := by
  obtain ⟨rest, after, safe, executes⟩ := inv.executes found (inv.safe index _ found)
  have absent : s.store key = none := executes.fits _ mem_cons_self
  refine ⟨after, .writing rest, inv.execute found executes safe
    (fun other ne => Function.update_of_ne ne _ _) ?_ (by rintro ⟨⟩)⟩
  simp [Write.key, Call.givenAfter, (inv.given key).2 absent]

theorem InvAt.delete (found : s.clients[index]? = some ⟨.call (.delete key) next, held⟩) :
    ∃ after mode, InvAt discipline (s.answer index held newName (.delete key) next) after
      (Function.update modes index mode) := by
  obtain ⟨rest, after, safe, executes⟩ := inv.executes found (inv.safe index _ found)
  refine ⟨after, .writing rest, inv.execute found executes safe
    (fun other ne => Function.update_of_ne ne _ _) ?_ fun _ => ?_⟩
  all_goals simp [Write.key, Call.givenAfter]

theorem InvAt.update (found : s.clients[index]? = some ⟨.call (.update key value) next, held⟩) :
    ∃ after mode, InvAt discipline (s.answer index held newName (.update key value) next) after
      (Function.update modes index mode) := by
  obtain ⟨rest, after, safe, executes⟩ := inv.executes found (inv.safe index _ found)
  have present : s.store key ≠ none := executes.fits _ mem_cons_self
  have stored : Call.answer Code s.store newName (.update key value) =
      (ReplyCode.success, Function.update s.store key (some value)) :=
    if_pos (isSome_iff_ne_none.mpr present)
  refine ⟨after, .writing rest, ?_⟩
  rw [answer, stored]
  exact inv.execute found executes safe (fun _ _ => rfl) (inv.given key).1 (by rintro ⟨⟩)

end Calls

def Inv (discipline : Discipline Key Value Name) (s : System Key Value Name Code Result) : Prop :=
  ∃ virtual modes, s.InvAt discipline virtual modes

structure Starts (discipline : Discipline Key Value Name)
    (s : System Key Value Name Code Result) : Prop where
  no_clients : s.clients = []
  legal : discipline.legal s.store
  vacant : ∀ name, name ∉ s.issued → s.store (discipline.own name) = none
  given : ∀ key, s.given key = []

theorem Starts.inv (starts : Starts discipline s) : s.Inv discipline := by
  have noHeld : ∀ index, s.held index = [] := by simp [System.held, starts.no_clients]
  refine ⟨s.store, fun _ => .idle, ?_⟩
  constructor
  case legal => exact starts.legal
  case safe => simp [starts.no_clients]
  case idle => exact fun _ _ => rfl
  case clientOk => exact fun _ => .of_free rfl trivial fun _ _ _ => id
  case exclusive => simp [noHeld]
  case agree => exact fun _ => Or.inl rfl
  case vacant =>
    rintro name (notIssued | ⟨_, owned⟩)
    · exact ⟨starts.vacant name notIssued, starts.vacant name notIssued⟩
    · cases owned
  case owned_issued => exact by rintro _ _ ⟨⟩
  case owned_unique => exact by rintro _ _ _ ⟨⟩
  case given => simp [starts.given]

theorem Inv.start (inv : s.Inv discipline) {program : Program Key Value Name Code Result}
    (safe : discipline.Safe [] .idle program) :
    Inv discipline { s with clients := s.clients ++ [⟨program, []⟩] } := by
  obtain ⟨virtual, modes, inv⟩ := inv
  have heldAfter : System.held { s with clients := s.clients ++ [⟨program, []⟩] } = s.held := by
    funext index
    cases found : (s.clients ++ [⟨program, []⟩])[index]? with
    | none =>
      have missing : s.clients[index]? = none := by
        simp only [List.getElem?_eq_none_iff, length_append] at found ⊢
        omega
      simp [System.held, missing, found]
    | some client =>
      rcases clients_started found with before | ⟨missing, rfl⟩
      · simp [System.held, found, before]
      · simp [System.held, found, missing]
  refine ⟨virtual, modes, ?_⟩
  constructor
  case legal => exact inv.legal
  case safe =>
    intro index client found
    rcases clients_started found with before | ⟨missing, rfl⟩
    · exact inv.safe index client before
    · rw [inv.idle index missing]
      exact safe
  case idle =>
    intro index missing
    refine inv.idle index ?_
    simp only [List.getElem?_eq_none_iff, length_append] at missing ⊢
    omega
  case clientOk =>
    rw [heldAfter]
    exact inv.clientOk
  case exclusive =>
    rw [heldAfter]
    exact inv.exclusive
  case agree => exact inv.agree
  case vacant => exact inv.vacant
  case owned_issued => exact inv.owned_issued
  case owned_unique => exact inv.owned_unique
  case given => exact inv.given

theorem Inv.act (inv : s.Inv discipline) {req : Call Key Value Name}
    {next : req.Reply Code → Program Key Value Name Code Result}
    (found : s.clients[index]? = some ⟨.call req next, held⟩)
    (isNew : req = .fresh → newName ∉ s.issued)
    (nobody : ∀ name, req = .lock name → ∀ other, other ≠ index → name ∉ s.held other) :
    (s.answer index held newName req next).Inv discipline := by
  obtain ⟨virtual, _, inv⟩ := inv
  cases req with
  | search key =>
    obtain ⟨mode, after⟩ := inv.search found
    exact ⟨virtual, _, after⟩
  | insert key value =>
    obtain ⟨virtual, mode, after⟩ := inv.insert found
    exact ⟨virtual, _, after⟩
  | update key value =>
    obtain ⟨virtual, mode, after⟩ := inv.update found
    exact ⟨virtual, _, after⟩
  | delete key =>
    obtain ⟨virtual, mode, after⟩ := inv.delete found
    exact ⟨virtual, _, after⟩
  | lock name =>
    obtain ⟨mode, after⟩ := inv.lock found (nobody name rfl)
    exact ⟨virtual, _, after⟩
  | unlock name =>
    obtain ⟨mode, after⟩ := inv.unlock found
    exact ⟨virtual, _, after⟩
  | fresh =>
    obtain ⟨_, after⟩ := inv.fresh found (isNew rfl)
    exact ⟨virtual, _, after⟩

/-- The invariant holds in every run of safe operations in which locks exclude
each other and new names are new. -/
theorem inv_of_reachable {programOf : Operation → Program Key Value Name Code Result}
    {initial : System Key Value Name Code Result → Prop}
    (safe : ∀ op, discipline.Safe [] .idle (programOf op))
    (starts : ∀ s, initial s → Starts discipline s)
    (reached : Reachable (step programOf) (fun s event => s.FreshNames event ∧ s.Exclusive event)
      initial s) : s.Inv discipline := by
  refine reached.invariant (fun s isInitial => (starts s isInitial).inv) ?_
  rintro before event _ inv ⟨isFresh, exclusive⟩ taken
  cases event with
  | start op =>
    obtain rfl := some.inj taken
    exact inv.start (safe op)
  | act index newName =>
    simp only [step] at taken
    split at taken
    · rename_i req next held found
      obtain rfl := some.inj taken
      have requested : before.request? index = some req := by
        simp [request?, found, Client.request?]
      simp only [FreshNames, Exclusive, requested] at isFresh exclusive
      refine inv.act found ?_ ?_
      · rintro rfl
        exact isFresh
      · rintro _ rfl other ne member
        refine exclusive other ?_ ne member
        by_contra outside
        simp [System.held, List.getElem?_eq_none_iff.mpr (Nat.not_lt.mp outside)] at member
    · cases taken

theorem Inv.legal_of_quiescent (inv : s.Inv discipline) (quiescent : s.Quiescent) :
    discipline.legal s.store := by
  obtain ⟨virtual, modes, inv⟩ := inv
  have nothingPending : ∀ index, (modes index).todo = [] := by
    intro index
    cases found : s.clients[index]? with
    | none => rw [inv.idle index found]; rfl
    | some client =>
      have safe := inv.safe index client found
      have finished := quiescent client (mem_of_getElem? found)
      obtain ⟨program, _⟩ := client
      cases program with
      | done result => exact safe.2
      | call req next => simp [Client.result?] at finished
  have same : s.store = virtual := by
    funext key
    rcases inv.agree key with agrees | ⟨index, pending⟩
    · exact agrees
    · simp [nothingPending] at pending
  exact same ▸ inv.legal

theorem Inv.given_length_le (inv : s.Inv discipline) (key : Key) : (s.given key).length ≤ 1 := by
  obtain ⟨_, _, inv⟩ := inv
  exact (inv.given key).1

end System

end FuseeFs.Library.Store
