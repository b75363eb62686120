import FuseeFs.Library.Store.Discipline

/-!
# The invariant of locked transactions

A virtual store runs alongside the store of the clients.  A transaction takes
effect there as a whole when its first write is executed, so the virtual store
is always legal, and the store differs from it only at keys with a write still
to come.  Calls that do not write keep this invariant (`InvAt.quiet`), and so do
writes (`InvAt.execute`).
-/

namespace FuseeFs.Library.Store

open List Option Function

variable {Key Value Name Code Result Operation : Type}

namespace Discipline

variable (discipline : Discipline Key Value Name)

/-- What other clients may do to the keys that the names guard: nothing, but
for entering a new name. -/
def Interferes (held : List Name) (before after : Key → Option Value) : Prop :=
  ∀ key, discipline.Guarded held key →
    after key = before key ∨ before key = none ∧ ∃ name, key = discipline.own name

def Stable (held : List Name) (known : (Key → Option Value) → Prop) : Prop :=
  ∀ before after, discipline.Interferes held before after → known before → known after

variable {discipline} {held : List Name}

theorem Stable.learn {mode : Mode Key Value Name} {key : Key} (reply : Option Value)
    (stable : discipline.Stable held mode.known) (guarded : discipline.Guarded held key) :
    discipline.Stable held (mode.learn discipline key reply).known := by
  rintro before after interferes ⟨known, learnt⟩
  refine ⟨stable before after interferes known, ?_⟩
  rcases interferes key guarded with same | ⟨absent, own⟩
  · rw [same]
    exact learnt
  · rcases learnt with read | nothing
    · exact Or.inr ⟨read.symm.trans absent, own⟩
    · exact Or.inr nothing

theorem Stable.mono {more : List Name} {known : (Key → Option Value) → Prop}
    (stable : discipline.Stable held known) (subset : ∀ name ∈ held, name ∈ more) :
    discipline.Stable more known := by
  intro before after interferes
  refine stable before after fun key guarded => interferes key ?_
  obtain ⟨name, member, guards⟩ := guarded
  exact ⟨name, subset name member, guards⟩

/-- What holds of one client: what it knows is true and protected, and the
writes it still has to make are locked and missing in the store. -/
structure ClientOk (discipline : Discipline Key Value Name) (store virtual : Key → Option Value)
    (held : List Name) (mode : Mode Key Value Name) : Prop where
  known : mode.known virtual
  stable : discipline.Stable held mode.known
  guarded : ∀ write ∈ mode.todo, discipline.Guarded held write.key
  not_enters : ∀ write ∈ mode.todo, ∀ name, ¬ write.Enters discipline name
  fits : ∀ write ∈ mode.todo, write.Fits store
  value : ∀ write ∈ mode.todo, virtual write.key = write.value
  nodup : (mode.todo.map Write.key).Nodup

theorem ClientOk.of_free {store virtual : Key → Option Value} {mode : Mode Key Value Name}
    (free : mode.todo = []) (known : mode.known virtual)
    (stable : discipline.Stable held mode.known) : discipline.ClientOk store virtual held mode := by
  constructor
  case known => exact known
  case stable => exact stable
  all_goals simp [free]

end Discipline

namespace System

variable {s : System Key Value Name Code Result} {index other : ℕ}
variable {client : Client Key Value Name Code Result}

theorem held_of_found (found : s.clients[index]? = some client) : s.held index = client.held := by
  simp [held, found]

theorem clients_set_self (found : s.clients[index]? = some client)
    (after : Client Key Value Name Code Result) :
    (s.clients.set index after)[index]? = some after := by
  rw [getElem?_set_self (List.getElem?_eq_some_iff.mp found).1]

theorem held_of_set (found : s.clients[index]? = some client)
    (after : Client Key Value Name Code Result) {next : System Key Value Name Code Result}
    (changed : next.clients = s.clients.set index after) :
    next.held = update s.held index after.held := by
  funext other
  by_cases same : other = index
  · subst same
    rw [update_self, held, changed, clients_set_self found]
    rfl
  · rw [update_of_ne same, held, changed, getElem?_set_ne (Ne.symm same)]
    rfl

theorem clients_started {client new : Client Key Value Name Code Result}
    (found : (s.clients ++ [new])[index]? = some client) :
    s.clients[index]? = some client ∨ s.clients[index]? = none ∧ client = new := by
  rw [getElem?_append] at found
  split at found
  · exact Or.inl found
  · rename_i behind
    exact Or.inr ⟨List.getElem?_eq_none_iff.mpr (Nat.not_lt.mp behind),
      mem_singleton.mp (mem_of_getElem? found)⟩

variable [DecidableEq Key] [DecidableEq Name] [ReplyCode Code]

/-- The invariant, with the virtual store and the mode of every client. -/
structure InvAt (discipline : Discipline Key Value Name) (s : System Key Value Name Code Result)
    (virtual : Key → Option Value) (modes : ℕ → Mode Key Value Name) : Prop where
  legal : discipline.legal virtual
  safe : ∀ index client, s.clients[index]? = some client →
    discipline.Safe client.held (modes index) client.program
  idle : ∀ index, s.clients[index]? = none → modes index = .idle
  clientOk : ∀ index, discipline.ClientOk s.store virtual (s.held index) (modes index)
  exclusive : ∀ first second name, first ≠ second → name ∈ s.held first → name ∉ s.held second
  agree : ∀ key, s.store key = virtual key ∨ ∃ index, key ∈ (modes index).todo.map Write.key
  vacant : ∀ name, (name ∉ s.issued ∨ ∃ index, (modes index).owned = some name) →
    virtual (discipline.own name) = none ∧ s.store (discipline.own name) = none
  owned_issued : ∀ index name, (modes index).owned = some name → name ∈ s.issued
  owned_unique : ∀ first second name, (modes first).owned = some name →
    (modes second).owned = some name → first = second
  given : ∀ key, (s.given key).length ≤ 1 ∧ (s.store key = none → s.given key = [])

variable {discipline : Discipline Key Value Name} {virtual : Key → Option Value}
variable {modes : ℕ → Mode Key Value Name}

section Clients

variable {key : Key} {after : Client Key Value Name Code Result} {mode : Mode Key Value Name}
  (inv : s.InvAt discipline virtual modes)
include inv

theorem InvAt.not_guarded (ne : index ≠ other) (guarded : discipline.Guarded (s.held index) key) :
    ¬ discipline.Guarded (s.held other) key := by
  rintro ⟨_, member, guards⟩
  obtain ⟨_, firstMember, firstGuards⟩ := guarded
  obtain rfl := discipline.guards_unique _ _ _ firstGuards guards
  exact inv.exclusive _ _ _ ne firstMember member

/-- A client outside of a transaction sees the virtual store under its locks. -/
theorem InvAt.store_eq (free : (modes index).todo = [])
    (guarded : discipline.Guarded (s.held index) key) : s.store key = virtual key := by
  rcases inv.agree key with same | ⟨writer, pending⟩
  · exact same
  · obtain ⟨write, member, rfl⟩ := List.mem_map.mp pending
    have ne : index ≠ writer := by
      rintro rfl
      simp [free] at member
    exact absurd ((inv.clientOk writer).guarded write member) (inv.not_guarded ne guarded)

theorem InvAt.safe_set (found : s.clients[index]? = some client)
    (safe : discipline.Safe after.held mode after.program) (other : ℕ)
    (otherClient : Client Key Value Name Code Result)
    (otherFound : (s.clients.set index after)[other]? = some otherClient) :
    discipline.Safe otherClient.held (update modes index mode other)
      otherClient.program := by
  by_cases same : other = index
  · subst same
    rw [clients_set_self found] at otherFound
    obtain rfl := some.inj otherFound
    rwa [update_self]
  · rw [getElem?_set_ne (Ne.symm same)] at otherFound
    rw [update_of_ne same]
    exact inv.safe other otherClient otherFound

theorem InvAt.idle_set (found : s.clients[index]? = some client) (other : ℕ)
    (missing : (s.clients.set index after)[other]? = none) :
    update modes index mode other = .idle := by
  have ne : other ≠ index := by
    rintro rfl
    rw [clients_set_self found] at missing
    cases missing
  rw [getElem?_set_ne (Ne.symm ne)] at missing
  rw [update_of_ne ne]
  exact inv.idle other missing

end Clients

/-! ## Calls that do not write -/

/-- What a call other than a write does: the client goes on outside of a
transaction, with locks that nobody else holds and with a name that nobody else
owns. -/
structure Quiet (discipline : Discipline Key Value Name) (s : System Key Value Name Code Result)
    (virtual : Key → Option Value) (modes : ℕ → Mode Key Value Name) (index : ℕ)
    (after : Client Key Value Name Code Result) (mode : Mode Key Value Name)
    (issued : List Name) : Prop where
  free : (modes index).todo = []
  free_after : mode.todo = []
  safe : discipline.Safe after.held mode after.program
  known : mode.known virtual
  stable : discipline.Stable after.held mode.known
  exclusive : ∀ name ∈ after.held, name ∈ s.held index ∨ ∀ other ≠ index, name ∉ s.held other
  grown : ∀ name ∈ s.issued, name ∈ issued
  owned : ∀ name, mode.owned = some name →
    (modes index).owned = some name ∨ name ∉ s.issued ∧ name ∈ issued

theorem InvAt.quiet (inv : s.InvAt discipline virtual modes)
    (found : s.clients[index]? = some client) {after : Client Key Value Name Code Result}
    {mode : Mode Key Value Name} {issued : List Name}
    (quiet : Quiet discipline s virtual modes index after mode issued) :
    InvAt discipline { s with clients := s.clients.set index after, issued := issued } virtual
      (update modes index mode) := by
  have heldAfter := held_of_set found after (rfl : (System.clients
    { s with clients := s.clients.set index after, issued := issued }) = _)
  have exclusive : ∀ name ∈ after.held, ∀ other, other ≠ index → name ∉ s.held other := by
    intro name member other ne
    rcases quiet.exclusive name member with before | nobody
    · exact inv.exclusive index other name (Ne.symm ne) before
    · exact nobody other ne
  have ownedUnique : ∀ name, mode.owned = some name → ∀ other, other ≠ index →
      (modes other).owned ≠ some name := by
    intro name owned other ne otherOwned
    rcases quiet.owned name owned with before | ⟨notIssued, -⟩
    · exact ne (inv.owned_unique _ _ _ otherOwned before)
    · exact notIssued (inv.owned_issued other name otherOwned)
  constructor
  case legal => exact inv.legal
  case safe => exact inv.safe_set found quiet.safe
  case idle => exact inv.idle_set found
  case clientOk =>
    intro other
    rw [heldAfter]
    by_cases same : other = index
    · subst same
      rw [update_self, update_self]
      exact .of_free quiet.free_after quiet.known quiet.stable
    · rw [update_of_ne same, update_of_ne same]
      exact inv.clientOk other
  case exclusive =>
    intro first second name ne member
    rw [heldAfter] at member ⊢
    by_cases isFirst : first = index
    · subst isFirst
      rw [update_self] at member
      rw [update_of_ne (Ne.symm ne)]
      exact exclusive name member second (Ne.symm ne)
    · rw [update_of_ne isFirst] at member
      by_cases isSecond : second = index
      · subst isSecond
        rw [update_self]
        exact fun otherMember => exclusive name otherMember first isFirst member
      · rw [update_of_ne isSecond]
        exact inv.exclusive first second name ne member
  case agree =>
    intro key
    refine (inv.agree key).imp_right ?_
    rintro ⟨writer, pending⟩
    refine ⟨writer, ?_⟩
    rw [update_of_ne]
    · exact pending
    · rintro rfl
      simp [quiet.free] at pending
  case vacant =>
    rintro name (notIssued | ⟨owner, owned⟩)
    · exact inv.vacant name (Or.inl fun member => notIssued (quiet.grown name member))
    · by_cases same : owner = index
      · subst same
        rw [update_self] at owned
        refine inv.vacant name ((quiet.owned name owned).symm.imp And.left fun before => ?_)
        exact ⟨owner, before⟩
      · rw [update_of_ne same] at owned
        exact inv.vacant name (Or.inr ⟨owner, owned⟩)
  case owned_issued =>
    intro owner name owned
    by_cases same : owner = index
    · subst same
      rw [update_self] at owned
      rcases quiet.owned name owned with before | ⟨-, isIssued⟩
      · exact quiet.grown name (inv.owned_issued owner name before)
      · exact isIssued
    · rw [update_of_ne same] at owned
      exact quiet.grown name (inv.owned_issued owner name owned)
  case owned_unique =>
    intro first second name owned otherOwned
    by_cases isFirst : first = index <;> by_cases isSecond : second = index
    · exact isFirst.trans isSecond.symm
    · subst isFirst
      rw [update_self] at owned
      rw [update_of_ne isSecond] at otherOwned
      exact absurd otherOwned (ownedUnique name owned second isSecond)
    · subst isSecond
      rw [update_self] at otherOwned
      rw [update_of_ne isFirst] at owned
      exact absurd owned (ownedUnique name otherOwned first isFirst)
    · rw [update_of_ne isFirst] at owned
      rw [update_of_ne isSecond] at otherOwned
      exact inv.owned_unique first second name owned otherOwned
  case given => exact inv.given

/-! ## Writes -/

/-- What the execution of `write` needs, with `rest` still to come: the two
together take the virtual store to the legal store `after`. -/
structure Executes (discipline : Discipline Key Value Name)
    (s : System Key Value Name Code Result) (virtual : Key → Option Value)
    (modes : ℕ → Mode Key Value Name) (index : ℕ) (write : Write Key Value)
    (rest : List (Write Key Value)) (after : Key → Option Value) : Prop where
  legal : discipline.legal after
  value : ∀ other ∈ write :: rest, after other.key = other.value
  unchanged : ∀ key, key ∉ (write :: rest).map Write.key → after key = virtual key
  nodup : ((write :: rest).map Write.key).Nodup
  fits : ∀ other ∈ write :: rest, other.Fits s.store
  guarded : ∀ other ∈ write :: rest, discipline.Guarded (s.held index) other.key ∨
    ∃ name, (modes index).owned = some name ∧ other.key = discipline.own name
  write_owned : ∀ name, write.Enters discipline name → (modes index).owned = some name
  rest_guarded : ∀ other ∈ rest, discipline.Guarded (s.held index) other.key
  rest_not_enters : ∀ other ∈ rest, ∀ name, ¬ other.Enters discipline name
  todo_subset : ∀ key ∈ (modes index).todo.map Write.key, key ∈ (write :: rest).map Write.key

section Execute

variable {write : Write Key Value} {rest : List (Write Key Value)} {after : Key → Option Value}

section Executes

variable (inv : s.InvAt discipline virtual modes)
  (executes : Executes discipline s virtual modes index write rest after)
include inv executes

/-- A write touches a key that another client has locked only by entering a
new name there. -/
theorem Executes.vacant_of_guarded (ne : index ≠ other) {touched : Write Key Value}
    (member : touched ∈ write :: rest) (guarded : discipline.Guarded (s.held other) touched.key) :
    ∃ name, touched.key = discipline.own name ∧ virtual touched.key = none ∧
      s.store touched.key = none := by
  rcases executes.guarded touched member with own | ⟨name, owned, isOwn⟩
  · exact absurd guarded (inv.not_guarded ne own)
  · rw [isOwn]
    exact ⟨name, rfl, inv.vacant name (Or.inr ⟨index, owned⟩)⟩

theorem Executes.notMem_of_pending (ne : index ≠ other) {pending : Write Key Value}
    (member : pending ∈ (modes other).todo) : pending.key ∉ (write :: rest).map Write.key := by
  have ok := inv.clientOk other
  intro touches
  obtain ⟨_, touchedMember, same⟩ := List.mem_map.mp touches
  obtain ⟨name, own, -, absent⟩ := executes.vacant_of_guarded inv ne touchedMember
    (same ▸ ok.guarded pending member)
  rw [same] at own absent
  exact ok.not_enters pending member name ((ok.fits pending member).enters own (own ▸ absent))

theorem Executes.notMem_of_vacant {name : Name}
    (vacant : name ∉ s.issued ∨ ∃ owner ≠ index, (modes owner).owned = some name) :
    discipline.own name ∉ (write :: rest).map Write.key := by
  have absent : s.store (discipline.own name) = none :=
    (inv.vacant name (vacant.imp_right fun ⟨owner, _, owned⟩ => ⟨owner, owned⟩)).2
  intro touches
  obtain ⟨touched, member, own⟩ := List.mem_map.mp touches
  have enters := (executes.fits touched member).enters own absent
  rcases mem_cons.mp member with rfl | later
  · have owned := executes.write_owned name enters
    rcases vacant with notIssued | ⟨owner, ne, otherOwned⟩
    · exact notIssued (inv.owned_issued index name owned)
    · exact ne (inv.owned_unique _ _ _ otherOwned owned)
  · exact executes.rest_not_enters touched later name enters

end Executes

theorem InvAt.execute (inv : s.InvAt discipline virtual modes)
    (found : s.clients[index]? = some client)
    (executes : Executes discipline s virtual modes index write rest after)
    {program : Program Key Value Name Code Result}
    (safe : discipline.Safe client.held (.writing rest) program) {given : Key → List ℕ}
    (givenOther : ∀ key, key ≠ write.key → given key = s.given key)
    (givenOne : (given write.key).length ≤ 1)
    (givenNone : write.value = none → given write.key = []) :
    InvAt discipline
      { s with
        store := write.apply s.store, clients := s.clients.set index ⟨program, client.held⟩,
        given := given }
      after (update modes index (.writing rest)) := by
  have heldAfter : System.held { s with
      store := write.apply s.store, clients := s.clients.set index ⟨program, client.held⟩,
      given := given } = s.held := by
    rw [held_of_set found ⟨program, client.held⟩ rfl, ← held_of_found found]
    exact update_eq_self index s.held
  have storeOther : ∀ key, key ≠ write.key → write.apply s.store key = s.store key :=
    fun key ne => update_of_ne ne _ _
  have storeWritten : write.apply s.store write.key = write.value := update_self ..
  obtain ⟨notLater, restNodup⟩ := nodup_cons.mp executes.nodup
  -- a client that writes owns no name
  have ownedBefore : ∀ {owner name}, (update modes index (.writing rest) owner).owned =
      some name → owner ≠ index ∧ (modes owner).owned = some name := by
    intro owner name owned
    have ne : owner ≠ index := by
      rintro rfl
      rw [update_self] at owned
      cases owned
    rw [update_of_ne ne] at owned
    exact ⟨ne, owned⟩
  constructor
  case legal => exact executes.legal
  case safe => exact inv.safe_set found safe
  case idle => exact inv.idle_set found
  case clientOk =>
    intro other
    rw [heldAfter]
    by_cases same : other = index
    · subst same
      rw [update_self]
      constructor
      case known => trivial
      case stable => exact fun _ _ _ known => known
      case guarded => exact executes.rest_guarded
      case not_enters => exact executes.rest_not_enters
      case fits =>
        intro pending member
        refine (executes.fits pending (mem_cons_of_mem _ member)).congr (storeOther _ ?_)
        exact fun equal => notLater (equal ▸ List.mem_map_of_mem member)
      case value => exact fun pending member => executes.value _ (mem_cons_of_mem _ member)
      case nodup => exact restNodup
    · rw [update_of_ne same]
      have ok := inv.clientOk other
      have elsewhere := fun pending (member : pending ∈ (modes other).todo) =>
        executes.notMem_of_pending inv (Ne.symm same) member
      constructor
      case known =>
        refine ok.stable virtual after (fun key guarded => ?_) ok.known
        by_cases touches : key ∈ (write :: rest).map Write.key
        · obtain ⟨_, member, rfl⟩ := List.mem_map.mp touches
          obtain ⟨name, own, absent, -⟩ :=
            executes.vacant_of_guarded inv (Ne.symm same) member guarded
          exact Or.inr ⟨absent, name, own⟩
        · exact Or.inl (executes.unchanged key touches)
      case stable => exact ok.stable
      case guarded => exact ok.guarded
      case not_enters => exact ok.not_enters
      case fits =>
        intro pending member
        refine (ok.fits pending member).congr (storeOther _ fun equal => ?_)
        exact elsewhere pending member (by simp [equal])
      case value =>
        intro pending member
        rw [executes.unchanged _ (elsewhere pending member)]
        exact ok.value pending member
      case nodup => exact ok.nodup
  case exclusive =>
    rw [heldAfter]
    exact inv.exclusive
  case agree =>
    intro key
    by_cases isWritten : key = write.key
    · subst isWritten
      apply Or.inl
      rw [executes.value write mem_cons_self]
      exact storeWritten
    by_cases isPending : key ∈ rest.map Write.key
    · exact Or.inr ⟨index, by rwa [update_self]⟩
    have untouched : key ∉ (write :: rest).map Write.key := by simp [isWritten, isPending]
    rcases inv.agree key with agrees | ⟨writer, pending⟩
    · apply Or.inl
      rw [executes.unchanged key untouched, ← agrees]
      exact storeOther key isWritten
    · refine Or.inr ⟨writer, ?_⟩
      rw [update_of_ne]
      · exact pending
      · rintro rfl
        exact untouched (executes.todo_subset key pending)
  case vacant =>
    intro name vacant
    have vacantBefore : name ∉ s.issued ∨ ∃ owner ≠ index, (modes owner).owned = some name := by
      exact vacant.imp_right fun ⟨owner, owned⟩ => ⟨owner, ownedBefore owned⟩
    have untouched := executes.notMem_of_vacant inv vacantBefore
    have absent := inv.vacant name (vacantBefore.imp_right fun ⟨owner, _, owned⟩ => ⟨owner, owned⟩)
    rw [executes.unchanged _ untouched]
    refine ⟨absent.1, (storeOther _ fun equal => ?_).trans absent.2⟩
    simp [equal] at untouched
  case owned_issued =>
    intro owner name owned
    exact inv.owned_issued owner name (ownedBefore owned).2
  case owned_unique =>
    intro first second name owned otherOwned
    exact inv.owned_unique first second name (ownedBefore owned).2 (ownedBefore otherOwned).2
  case given =>
    intro key
    by_cases isWritten : key = write.key
    · subst isWritten
      exact ⟨givenOne, fun absent => givenNone (storeWritten.symm.trans absent)⟩
    · change (given key).length ≤ 1 ∧ (write.apply s.store key = none → given key = [])
      rw [givenOther key isWritten, storeOther key isWritten]
      exact inv.given key

/-- A write of a safe program is executed as part of a transaction that was
committed before or is committed now. -/
theorem InvAt.executes (inv : s.InvAt discipline virtual modes)
    (found : s.clients[index]? = some client) {continues : Mode Key Value Name → Prop}
    (safe : discipline.SafeWrite client.held (modes index) write continues) :
    ∃ rest after, continues (.writing rest) ∧
      Executes discipline s virtual modes index write rest after := by
  obtain ⟨rest, continued, pending | ⟨free, transaction⟩⟩ := safe
  · refine ⟨rest, virtual, continued, ?_⟩
    have ok := inv.clientOk index
    have later : ∀ other ∈ rest, other ∈ (modes index).todo := by simp +contextual [pending]
    constructor
    case legal => exact inv.legal
    case value => exact fun other member => ok.value other (pending ▸ member)
    case unchanged => exact fun _ _ => rfl
    case nodup => exact pending ▸ ok.nodup
    case fits => exact fun other member => ok.fits other (pending ▸ member)
    case guarded => exact fun other member => Or.inl (ok.guarded other (pending ▸ member))
    case write_owned =>
      exact fun name enters => absurd enters (ok.not_enters write (by simp [pending]) name)
    case rest_guarded => exact fun other member => ok.guarded other (later other member)
    case rest_not_enters => exact fun other member => ok.not_enters other (later other member)
    case todo_subset => exact fun key member => pending ▸ member
  · refine ⟨rest, Write.applyAll virtual (write :: rest), continued, ?_⟩
    have vacant := fun name owned => inv.vacant name (Or.inr ⟨index, owned⟩)
    obtain ⟨nodup, fits, legal⟩ := transaction.sound virtual inv.legal (inv.clientOk index).known
      fun name owned => (vacant name owned).1
    have guarded : ∀ other ∈ write :: rest, discipline.Guarded (s.held index) other.key ∨
        ∃ name, (modes index).owned = some name ∧ other.key = discipline.own name := by
      rw [held_of_found found]
      intro other member
      rcases mem_cons.mp member with rfl | later
      · refine transaction.first_guarded.imp_right fun ⟨name, owned, enters⟩ => ⟨name, owned, ?_⟩
        exact enters.key_eq
      · exact Or.inl (transaction.rest_guarded other later)
    constructor
    case legal => exact legal
    case value => exact fun other member => Write.applyAll_of_mem nodup member
    case unchanged => exact fun key absent => Write.applyAll_of_notMem absent
    case nodup => exact nodup
    case fits =>
      intro other member
      refine (fits other member).congr ?_
      rcases guarded other member with locked | ⟨name, owned, own⟩
      · exact inv.store_eq free locked
      · rw [own, (vacant name owned).1, (vacant name owned).2]
    case guarded => exact guarded
    case write_owned => exact transaction.first_owned
    case rest_guarded =>
      rw [held_of_found found]
      exact transaction.rest_guarded
    case rest_not_enters => exact transaction.rest_owned
    case todo_subset => simp [free]

end Execute

end System

end FuseeFs.Library.Store
