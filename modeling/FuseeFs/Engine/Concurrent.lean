import FuseeFs.Engine.Namespace
import FuseeFs.Library.Store.Runs

/-!
# Concurrent operations

Any number of clients run the operations of `Engine` on one store.  The bodies
of `CentralLockInode` and `CentralUnlockInode` are empty, so that calls of
different clients interleave freely.  The namespace stays consistent in the runs
in which the locks would never have had to wait; otherwise two clients can both
create one name.
-/

namespace FuseeFs.Engine

open List Option Library Library.Store

/-- The lock of an inode guards its own key and the keys of its entries. -/
def namespaceDiscipline : Discipline (List Char) (List UInt8) UInt64 where
  guards id key := key = getInodeKey id ∨ ∃ name, key = getDentryKey id name
  guards_unique := by
    rintro _ _ _ (rfl | ⟨_, rfl⟩) (same | ⟨_, same⟩)
    · exact getInodeKey_inj.mp same
    · exact absurd same (getInodeKey_ne_getDentryKey _ _ _)
    · exact absurd same (getDentryKey_ne_getInodeKey _ _ _)
    · exact (getDentryKey_inj.mp same).1
  own := getInodeKey
  guards_own _ := Or.inl rfl
  legal := Consistent

abbrev NamespaceMode : Type := Mode (List Char) (List UInt8) UInt64

variable {mode : NamespaceMode} {held : List UInt64} {path name : List Char}
variable {uid gid : UInt32} {parentId targetId : UInt64}
variable {parentInode targetInode : Inode}

theorem guarded_inode (member : parentId ∈ held) :
    namespaceDiscipline.Guarded held (getInodeKey parentId) :=
  ⟨parentId, member, Or.inl rfl⟩

theorem guarded_dentry (member : parentId ∈ held) :
    namespaceDiscipline.Guarded held (getDentryKey parentId name) :=
  ⟨parentId, member, Or.inr ⟨name, rfl⟩⟩

theorem not_enters_dentry (value : List UInt8) (id : UInt64) :
    ¬ (Write.insert (getDentryKey parentId name) value).Enters namespaceDiscipline id :=
  getDentryKey_ne_getInodeKey _ _ _

/-! ## What is known after a search under a lock -/

variable {reply : Option (List UInt8)} {store : Store}

theorem known_inode (found : foundInode reply = .ok parentInode)
    (known : (mode.learn namespaceDiscipline (getInodeKey parentId) reply).known store) :
    (tree store).node parentId = some parentInode := by
  obtain ⟨-, stored | ⟨rfl, -⟩⟩ := known
  · exact foundInode_eq_ok.mp (stored ▸ found)
  · cases found

theorem known_dentry (found : foundDentry reply = .ok targetId)
    (known : (mode.learn namespaceDiscipline (getDentryKey parentId name) reply).known store) :
    (tree store).edge parentId name = some targetId := by
  obtain ⟨-, stored | ⟨-, _, own⟩⟩ := known
  · exact foundDentry_eq_ok.mp (stored ▸ found)
  · exact absurd own (getDentryKey_ne_getInodeKey _ _ _)

theorem known_no_dentry {ret : Int} (missing : foundDentry reply = .error ret)
    (known : (mode.learn namespaceDiscipline (getDentryKey parentId name) reply).known store) :
    (tree store).edge parentId name = none := by
  obtain ⟨-, stored | ⟨-, _, own⟩⟩ := known
  · cases reply with
    | none => simp [tree, stored]
    | some value => cases missing
  · exact absurd own (getDentryKey_ne_getInodeKey _ _ _)

/-! ## The parts of an operation follow the discipline -/

theorem safe_unlockAndReturn {inodeIds : List UInt64} (ret : Int) (free : mode.todo = [])
    (all : inodeIds.Perm held) :
    namespaceDiscipline.Safe held mode (unlockAndReturn inodeIds ret) := by
  induction inodeIds generalizing held mode with
  | nil => exact ⟨nil_perm.mp all, free⟩
  | cons inodeId rest ih =>
    obtain ⟨member, others⟩ := cons_perm_iff_perm_erase.mp all
    exact ⟨free, member, ih rfl others⟩

theorem safe_withParent (body : UInt64 → Inode → List Char → EngineProgram Int)
    (safe : ∀ parentId parentInode name (mode : NamespaceMode), mode.todo = [] →
      (∀ store, mode.known store → (tree store).node parentId = some parentInode) →
      isDir parentInode.mode = true →
      namespaceDiscipline.Safe [parentId] mode (body parentId parentInode name)) :
    namespaceDiscipline.Safe [] .idle (withParent path uid gid body) := by
  unfold withParent
  obtain ⟨parentPath, _⟩ := separateLastComponent (formatPath path)
  refine .of_reads (pathLookupToDentry_reads parentPath uid gid) rfl fun found => ?_
  cases found with
  | error ret => exact ⟨rfl, rfl⟩
  | ok parentId =>
    refine ⟨rfl, rfl, Or.inr ⟨guarded_inode (mem_singleton_self _), fun reply => ?_⟩⟩
    dsimp only [Program.bind]
    cases found : foundInode reply with
    | error ret => exact safe_unlockAndReturn ret rfl (List.Perm.refl _)
    | ok parentInode =>
      dsimp only
      split_ifs with notDir denied
      · exact safe_unlockAndReturn _ rfl (List.Perm.refl _)
      · exact safe_unlockAndReturn _ rfl (List.Perm.refl _)
      · exact safe _ _ _ _ rfl (fun store known => known_inode found known) (by simpa using notDir)

theorem transaction_create (newInode : UInt64 → Inode) (newInodeId : UInt64)
    (empty : isDir (newInode newInodeId).mode = true → (newInode newInodeId).children = 0)
    (parentKnown : ∀ store, mode.known store → (tree store).node parentId = some parentInode)
    (dir : isDir parentInode.mode = true)
    (nameKnown : ∀ store, mode.known store → (tree store).edge parentId name = none) :
    namespaceDiscipline.Transaction [parentId] (mode.receive newInodeId)
      (.insert (getInodeKey newInodeId) (encodeInode (newInode newInodeId)))
      [.insert (getDentryKey parentId name) (encodeId newInodeId),
        .update (getInodeKey parentId)
          (encodeInode { parentInode with children := parentInode.children + 1 })] := by
  have locked := mem_singleton_self parentId
  constructor
  case first_guarded => exact Or.inr ⟨newInodeId, rfl, rfl⟩
  case first_owned =>
    intro id enters
    rw [getInodeKey_inj.mp enters]
    rfl
  case rest_guarded => simp [Write.key, guarded_dentry locked, guarded_inode locked]
  case rest_owned =>
    simp only [mem_cons, not_mem_nil, or_false, forall_eq_or_imp, forall_eq]
    exact ⟨not_enters_dentry _, fun _ => id⟩
  case sound =>
    intro store consistent known vacant
    have parentFound := parentKnown store known
    have nameFree := nameKnown store known
    have idAbsent : store (getInodeKey newInodeId) = none := vacant newInodeId rfl
    have idFree : (tree store).node newInodeId = none := by simp [tree, idAbsent]
    have distinct : newInodeId ≠ parentId := by
      rintro rfl
      simp [idFree] at parentFound
    refine ⟨?_, ?_, Consistent.created consistent parentFound dir nameFree idFree empty⟩
    · simp [Write.key, distinct]
    · have parentPresent : store (getInodeKey parentId) ≠ none := by
        intro absent
        simp [tree, absent] at parentFound
      have nameAbsent : store (getDentryKey parentId name) = none := by
        simpa [tree] using nameFree
      simp [Write.Fits, idAbsent, nameAbsent, parentPresent]

theorem safe_createEntry (newInode : UInt64 → Inode)
    (empty : ∀ id, isDir (newInode id).mode = true → (newInode id).children = 0)
    (free : mode.todo = [])
    (parentKnown : ∀ store, mode.known store → (tree store).node parentId = some parentInode)
    (dir : isDir parentInode.mode = true) :
    namespaceDiscipline.Safe [parentId] mode
      (createEntry newInode parentId parentInode name) := by
  have locked := mem_singleton_self parentId
  refine ⟨free, Or.inr ⟨guarded_dentry locked, fun reply => ?_⟩⟩
  dsimp only [Program.bind]
  cases found : foundDentry reply with
  | ok _ => exact safe_unlockAndReturn _ free (List.Perm.refl _)
  | error ret =>
    refine ⟨free, fun newInodeId => ?_⟩
    refine ⟨_, ?_, Or.inr ⟨free, transaction_create newInode newInodeId (empty newInodeId)
      (fun store known => parentKnown store known.1) dir
      (fun store known => known_no_dentry found known)⟩⟩
    refine ⟨_, ?_, Or.inl rfl⟩
    refine ⟨_, ?_, Or.inl rfl⟩
    exact safe_unlockAndReturn _ rfl (List.Perm.refl _)

theorem safe_withTarget (body : UInt64 → Inode → EngineProgram Int) (free : mode.todo = [])
    (safe : ∀ targetId targetInode (after : NamespaceMode), after.todo = [] →
      (∀ store, after.known store → mode.known store ∧
        (tree store).edge parentId name = some targetId ∧
        (tree store).node targetId = some targetInode) →
      namespaceDiscipline.Safe [targetId, parentId] after
        (body targetId targetInode)) :
    namespaceDiscipline.Safe [parentId] mode (withTarget parentId name body) := by
  have locked := mem_singleton_self parentId
  refine ⟨free, Or.inr ⟨guarded_dentry locked, fun reply => ?_⟩⟩
  dsimp only [Program.bind]
  cases linked : foundDentry reply with
  | error ret => exact safe_unlockAndReturn ret free (List.Perm.refl _)
  | ok targetId =>
    refine ⟨free, free, Or.inr ⟨guarded_inode mem_cons_self, fun reply => ?_⟩⟩
    dsimp only [Program.bind]
    cases found : foundInode reply with
    | error ret => exact safe_unlockAndReturn ret free (List.Perm.swap ..)
    | ok targetInode =>
      refine safe _ _ _ free fun store known => ⟨known.1.1, ?_, known_inode found known⟩
      exact known_dentry linked known.1

/-- The three writes of `Rmdir` and `Unlink` are a transaction when the target
is a leaf. -/
theorem transaction_remove (parentKnown : ∀ store, mode.known store →
      (tree store).node parentId = some parentInode)
    (dir : isDir parentInode.mode = true)
    (targetKnown : ∀ store, mode.known store →
      (tree store).edge parentId name = some targetId ∧
        (tree store).node targetId = some targetInode)
    (leaf : ∀ store, Consistent store → mode.known store → (tree store).IsLeaf targetId) :
    namespaceDiscipline.Transaction [targetId, parentId] mode
      (.delete (getInodeKey targetId))
      [.delete (getDentryKey parentId name),
        .update (getInodeKey parentId)
          (encodeInode { parentInode with children := parentInode.children - 1 })] := by
  have locked : parentId ∈ [targetId, parentId] := by simp
  constructor
  case first_guarded => exact Or.inl (guarded_inode mem_cons_self)
  case first_owned => exact fun _ enters => enters.elim
  case rest_guarded => simp [Write.key, guarded_dentry locked, guarded_inode locked]
  case rest_owned => simp [Write.Enters]
  case sound =>
    intro store consistent known _
    have parentFound := parentKnown store known
    obtain ⟨linked, found⟩ := targetKnown store known
    have isLeaf := leaf store consistent known
    have distinct : targetId ≠ parentId := by
      rintro rfl
      simp [isLeaf name] at linked
    refine ⟨?_, ?_, Consistent.removed consistent parentFound dir linked isLeaf⟩
    · simp [Write.key, distinct]
    · have present : ∀ id inode, (tree store).node id = some inode →
          store (getInodeKey id) ≠ none := by
        intro id inode node absent
        simp [tree, absent] at node
      have entryPresent : store (getDentryKey parentId name) ≠ none := by
        intro absent
        simp [tree, absent] at linked
      simp [Write.Fits, present _ _ found, present _ _ parentFound, entryPresent]

theorem safe_removeEntry (free : mode.todo = []) (inodeIds : List UInt64)
    (restored : Int → EngineProgram Int)
    (all : inodeIds.Perm [targetId, parentId])
    (transaction : namespaceDiscipline.Transaction [targetId, parentId] mode
      (.delete (getInodeKey targetId))
      [.delete (getDentryKey parentId name),
        .update (getInodeKey parentId)
          (encodeInode { parentInode with children := parentInode.children - 1 })]) :
    namespaceDiscipline.Safe [targetId, parentId] mode
      (removeEntry parentId parentInode name targetId targetInode
        (unlockAndReturn inodeIds 0) restored) := by
  refine ⟨_, ?_, Or.inr ⟨free, transaction⟩⟩
  refine ⟨_, ?_, Or.inl rfl⟩
  refine ⟨_, ?_, Or.inl rfl⟩
  exact safe_unlockAndReturn _ rfl all

/-! ## The operations follow the discipline -/

theorem safe_rmdir : namespaceDiscipline.Safe [] .idle (rmdir path uid gid) := by
  refine safe_withParent _ fun parentId parentInode name mode free parentKnown dir => ?_
  refine safe_withTarget _ free fun targetId targetInode mode free known => ?_
  have swapped : [parentId, targetId].Perm [targetId, parentId] := List.Perm.swap ..
  split_ifs with notDir occupied
  · exact safe_unlockAndReturn _ free swapped
  · exact safe_unlockAndReturn _ free swapped
  · refine safe_removeEntry free _ _ (List.Perm.refl _) (transaction_remove
      (fun store now => parentKnown store (known store now).1) dir
      (fun store now => (known store now).2) fun store consistent now => ?_)
    exact consistent.isLeaf_of_children (known store now).2.1 (known store now).2.2
      (by simpa using notDir) occupied

theorem safe_unlink : namespaceDiscipline.Safe [] .idle (unlink path uid gid) := by
  refine safe_withParent _ fun parentId parentInode name mode free parentKnown dir => ?_
  refine safe_withTarget _ free fun targetId targetInode mode free known => ?_
  have swapped : [parentId, targetId].Perm [targetId, parentId] := List.Perm.swap ..
  split_ifs with isDirectory
  · exact safe_unlockAndReturn _ free swapped
  · refine safe_removeEntry free _ _ swapped (transaction_remove
      (fun store now => parentKnown store (known store now).1) dir
      (fun store now => (known store now).2) fun store consistent now => ?_)
    exact consistent.isLeaf_of_file (known store now).2.2 isDirectory

theorem safe_operation (op : Operation) : namespaceDiscipline.Safe [] .idle op.program := by
  cases op with
  | mkdir path uid gid mode now =>
    exact safe_withParent _ fun _ _ _ _ free parentKnown dir =>
      safe_createEntry _ (fun _ _ => rfl) free parentKnown dir
  | rmdir path uid gid => exact safe_rmdir
  | creat path uid gid mode now uninitChildren =>
    refine safe_withParent _ fun _ _ _ _ free parentKnown dir =>
      safe_createEntry _ (fun _ isDirectory => ?_) free parentKnown dir
    simp [isDir_creat] at isDirectory
  | unlink path uid gid => exact safe_unlink
  | stat path uid gid => exact .of_only_reads (stat_program_reads path uid gid) rfl

/-! ## Runs of all clients -/

abbrev NamespaceSystem : Type :=
  System (List Char) (List UInt8) UInt64 Replication.KVOpsRetCode Int

abbrev NamespaceEvent : Type := Event UInt64 Operation

namespace NamespaceSystem

/-- The store that `InitThread(0)` leaves, and no operation yet; the id of the
root inode is taken. -/
def IsInitial (s : NamespaceSystem) : Prop :=
  ∃ store, IsInitialStore store ∧ s = ⟨store, [], [kRootInodeId], fun _ => []⟩

/-- One call of one client to the key-value store, to `CentralLockInode`, to
`CentralUnlockInode` or to `GetNewInodeId`. -/
def step : NamespaceSystem → NamespaceEvent → Option NamespaceSystem :=
  System.step Operation.program

/-- The condition under which locks and new ids behave as they should: a lock
is never taken while another client holds it, and an id is never handed out
twice. -/
def Locked (s : NamespaceSystem) (event : NamespaceEvent) : Prop :=
  s.FreshNames event ∧ s.Exclusive event

instance (s : NamespaceSystem) (event : NamespaceEvent) : Decidable (Locked s event) := by
  unfold Locked; infer_instance

/-- The operations that returned success after they inserted an entry that has
not been deleted since. -/
def creators (s : NamespaceSystem) (pid : UInt64) (name : List Char) : List ℕ :=
  (s.given (getDentryKey pid name)).filter fun client => s.result? client = some 0

variable {s : NamespaceSystem}

theorem starts_of_isInitial (isInitial : IsInitial s) : System.Starts namespaceDiscipline s := by
  obtain ⟨store, initialStore, rfl⟩ := isInitial
  refine ⟨rfl, consistent_of_isInitialStore initialStore, fun id notRoot => ?_, fun _ => rfl⟩
  obtain ⟨_, -, shown⟩ := tree_of_isInitialStore initialStore
  have ne : id ≠ kRootInodeId := by simpa using notRoot
  have absent : (tree store).node id = none := by simp [shown, ne]
  exact map_eq_none_iff.mp absent

/-- Concurrent operations keep the namespace consistent in the runs in which
locks are taken only while nobody else holds them. -/
theorem locked_operations_consistent (reached : Reachable step Locked IsInitial s)
    (quiescent : s.Quiescent) :
    (∀ pid name, (creators s pid name).length ≤ 1) ∧
    (∀ pid name id, (tree s.store).edge pid name = some id →
      ∃ inode, (tree s.store).node id = some inode) ∧
    (∀ id inode, id ≠ kRootInodeId → (tree s.store).node id = some inode →
      ∃! link : UInt64 × List Char, (tree s.store).edge link.1 link.2 = some id) ∧
    (∀ id inode, id ≠ kRootInodeId → (tree s.store).node id = some inode →
      isDir inode.mode = true → ((tree s.store).names id).encard = inode.children.toNat) := by
  have inv : s.Inv namespaceDiscipline :=
    System.inv_of_reachable safe_operation (fun _ => starts_of_isInitial) reached
  have consistent : Consistent s.store := inv.legal_of_quiescent quiescent
  refine ⟨?_, ?_, ?_, ?_⟩
  · intro pid name
    exact (length_filter_le ..).trans (inv.given_length_le _)
  · exact consistent.target_exists
  · intro id inode notRoot found
    exact consistent.existsUnique_edge found notRoot
  · intro id inode notRoot found dir
    exact consistent.encard_names notRoot found dir

def acts (client : ℕ) (newId : UInt64) (count : ℕ) : List NamespaceEvent :=
  List.replicate count (.act client newId)

def createInTurns : List NamespaceEvent :=
  [.start (.mkdir "/a".toList 0 0 0o755 7)] ++ acts 0 1 8 ++
    [.start (.creat "/a/f".toList 0 0 0o644 8 99), .start (.mkdir "/b".toList 0 0 0o755 8)] ++
    acts 1 2 4 ++ acts 2 3 4 ++ acts 1 2 3 ++ acts 2 3 2 ++ acts 1 2 3 ++ acts 2 3 2

theorem locked_operations_consistent_createInTurns :
    ∃ s : NamespaceSystem, Reachable step Locked IsInitial s ∧
      (s.Quiescent ∧ s.clients.length = 3 ∧ (tree s.store).edge 1 ['f'] = some 2) ∧
      ∃! link : UInt64 × List Char, (tree s.store).edge link.1 link.2 = some 2 := by
  have isInitial : IsInitial ⟨((initThread 0 7 99).exec 0 fun _ => none).2, [], [0],
    fun _ => []⟩ := ⟨_, ⟨7, 99, 0, rfl⟩, rfl⟩
  obtain ⟨s, reached, ⟨quiescent, count, linked⟩, found⟩ :=
    Reachable.exists_of_run step Locked createInTurns
    (fun s => (s.Quiescent ∧ s.clients.length = 3 ∧ (tree s.store).edge 1 ['f'] = some 2) ∧
      ((tree s.store).node 2).isSome) isInitial (by decide)
  obtain ⟨inode, node⟩ := isSome_iff_exists.mp found
  have consistent := locked_operations_consistent reached quiescent
  exact ⟨s, reached, ⟨quiescent, count, linked⟩, consistent.2.2.1 2 inode (by decide) node⟩

def createTwice : List NamespaceEvent :=
  [.start (.mkdir "/a".toList 0 0 0o755 7), .start (.mkdir "/a".toList 0 0 0o755 7)] ++
    acts 0 1 3 ++ acts 1 2 3 ++ acts 0 1 5 ++ acts 1 2 5

/-- Since the locks are not taken, two clients can both be told that they
created one name. -/
theorem unlocked_operations_create_twice :
    ∃ s : NamespaceSystem, Reachable step (fun s event => s.FreshNames event) IsInitial s ∧
      s.Quiescent ∧ (creators s kRootInodeId ['a']).length = 2 :=
  Reachable.exists_of_run step (fun s event => s.FreshNames event) createTwice
    (fun s => s.Quiescent ∧ (creators s kRootInodeId ['a']).length = 2)
    (⟨_, ⟨7, 99, 0, rfl⟩, rfl⟩ : IsInitial ⟨((initThread 0 7 99).exec 0 fun _ => none).2, [], [0],
      fun _ => []⟩) (by decide)

end NamespaceSystem

end FuseeFs.Engine
