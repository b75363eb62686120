import FuseeFs.Engine.Lookup

/-!
# One operation after the other

What each operation does when it runs alone on a store whose calls do not fail,
and the tree invariant of all sequences of operations.
-/

namespace FuseeFs.Engine

open Library Library.Store Program

variable {store : Store} {newId parentId targetId : UInt64}
variable {parentInode targetInode : Inode} {path name : List Char} {uid gid : UInt32}

/-! ## The directory of an operation -/

/-- The directory in which an operation on `path` works, or the error for which
it returns before it looks at an entry. -/
def parentDirectory (store : Store) (path : List Char) (uid gid : UInt32) :
    Except Int (UInt64 × Inode) :=
  match ((pathLookupToDentry (separateLastComponent (formatPath path)).1 uid gid).exec 0
    store).1 with
  | .error ret => .error ret
  | .ok parentId =>
    match foundInode (store (getInodeKey parentId)) with
    | .error ret => .error ret
    | .ok parentInode =>
      if !isDir parentInode.mode then .error (-ENOTDIR)
      else if !checkWritePermission parentInode uid gid then .error (-EACCES)
      else .ok (parentId, parentInode)

def entryName (path : List Char) : List Char :=
  (separateLastComponent (formatPath path)).2

theorem parentDirectory_eq_ok :
    parentDirectory store path uid gid = .ok (parentId, parentInode) ↔
      ((pathLookupToDentry (separateLastComponent (formatPath path)).1 uid gid).exec 0 store).1 =
          .ok parentId ∧
        (tree store).node parentId = some parentInode ∧ isDir parentInode.mode = true ∧
        checkWritePermission parentInode uid gid = true := by
  rw [parentDirectory]
  cases ((pathLookupToDentry (separateLastComponent (formatPath path)).1 uid gid).exec 0
    store).1 with
  | error ret => simp
  | ok lookedUp =>
    dsimp only
    constructor
    · intro admitted
      cases found : foundInode (store (getInodeKey lookedUp)) with
      | error ret => simp [found] at admitted
      | ok inode =>
        simp only [found] at admitted
        split_ifs at admitted with notDir denied
        obtain ⟨rfl, rfl⟩ := Prod.mk.inj (Except.ok.inj admitted)
        exact ⟨rfl, foundInode_eq_ok.mp found, by simpa using notDir, by simpa using denied⟩
    · rintro ⟨isLookedUp, found, dir, allowed⟩
      obtain rfl := Except.ok.inj isLookedUp
      simp [foundInode_eq_ok.mpr found, dir, allowed]

theorem parentDirectory_error {ret : Int}
    (refused : parentDirectory store path uid gid = .error ret) : ret ≠ 0 := by
  rw [parentDirectory] at refused
  cases lookedUp : ((pathLookupToDentry (separateLastComponent (formatPath path)).1 uid gid).exec 0
    store).1 with
  | error code =>
    simp only [lookedUp] at refused
    obtain rfl := Except.error.inj refused
    exact pathLookupToDentry_error lookedUp
  | ok parentId =>
    simp only [lookedUp] at refused
    cases found : foundInode (store (getInodeKey parentId)) with
    | error code =>
      simp only [found] at refused
      obtain rfl := Except.error.inj refused
      exact foundInode_error found
    | ok parentInode =>
      simp only [found] at refused
      split_ifs at refused
      · obtain rfl := Except.error.inj refused
        decide
      · obtain rfl := Except.error.inj refused
        decide

/-! ## The parts of an operation -/

@[simp]
theorem exec_unlockAndReturn (inodeIds : List UInt64) (ret : Int) :
    (unlockAndReturn inodeIds ret).exec newId store = (ret, store) := by
  induction inodeIds with
  | nil => rfl
  | cons inodeId rest ih => exact ih

theorem exec_withParent (body : UInt64 → Inode → List Char → EngineProgram Int) :
    (withParent path uid gid body).exec newId store =
      match parentDirectory store path uid gid with
      | .error ret => (ret, store)
      | .ok dir => (body dir.1 dir.2 (entryName path)).exec newId store := by
  unfold withParent
  rw [exec_bind, (pathLookupToDentry_reads _ uid gid).exec_snd, parentDirectory,
    (pathLookupToDentry_reads _ uid gid).exec_fst 0]
  cases ((pathLookupToDentry (separateLastComponent (formatPath path)).1 uid gid).exec 0
    store).1 with
  | error ret => rfl
  | ok parentId =>
    simp only [centralLockInode, getInodeById, call_bind, done_bind, exec_lock, exec_search]
    cases foundInode (store (getInodeKey parentId)) with
    | error ret => simp
    | ok parentInode =>
      dsimp only
      split_ifs <;> simp [entryName]

theorem exec_createEntry (newInode : UInt64 → Inode)
    (parentFound : (tree store).node parentId = some parentInode)
    (idFree : (tree store).node newId = none) :
    (createEntry newInode parentId parentInode name).exec newId store =
      match (tree store).edge parentId name with
      | some _ => (-EEXIST, store)
      | none => (0, created store parentId parentInode name newId (newInode newId)) := by
  have distinct : parentId ≠ newId := by
    rintro rfl
    simp [idFree] at parentFound
  have present : (store (getInodeKey parentId)).isSome := by
    simpa [tree] using Option.isSome_of_eq_some parentFound
  simp only [createEntry, getDentryByParentIdAndName, call_bind, done_bind, exec_search]
  cases stored : store (getDentryKey parentId name) with
  | some value => simp [foundDentry, tree, stored]
  | none =>
    simp only [foundDentry, tree, stored, getNewInodeId, insertInode, insertDentry,
      call_bind, done_bind, exec_fresh, exec_insert, retOf,
      replyCode_success, reduceCtorEq, if_false, ne_eq, not_true_eq_false, Option.map_none]
    rw [updateInode, call_bind, exec_update _ _ _ (by simpa [distinct])]
    simp [retOf, created]

theorem exec_removeEntry (finish : EngineProgram Int) (restored : Int → EngineProgram Int)
    (parentFound : (tree store).node parentId = some parentInode) (distinct : targetId ≠ parentId) :
    (removeEntry parentId parentInode name targetId targetInode finish restored).exec
        newId store =
      finish.exec newId (removed store parentId parentInode name targetId) := by
  have present : (store (getInodeKey parentId)).isSome := by
    simpa [tree] using Option.isSome_of_eq_some parentFound
  simp only [removeEntry, deleteInode, deleteDentry, call_bind, done_bind,
    exec_delete, retOf, replyCode_success, reduceCtorEq, if_false, ne_eq,
    not_true_eq_false]
  rw [updateInode, call_bind, exec_update _ _ _ (by simpa [distinct.symm])]
  simp [retOf, removed]

theorem exec_withTarget (body : UInt64 → Inode → EngineProgram Int) :
    (withTarget parentId name body).exec newId store =
      match foundDentry (store (getDentryKey parentId name)) with
      | .error ret => (ret, store)
      | .ok targetId =>
        match foundInode (store (getInodeKey targetId)) with
        | .error ret => (ret, store)
        | .ok targetInode => (body targetId targetInode).exec newId store := by
  simp only [withTarget, getDentryByParentIdAndName, call_bind, done_bind, exec_search]
  cases foundDentry (store (getDentryKey parentId name)) with
  | error ret => simp
  | ok targetId =>
    simp only [centralLockInode, getInodeById, call_bind, done_bind, exec_lock, exec_search]
    cases foundInode (store (getInodeKey targetId)) with
    | error ret => simp
    | ok targetInode => rfl

/-! ## What an operation does to the store -/

/-- The changes that operations make: none, a new leaf in a directory, or a
leaf less. -/
inductive Effect (newId : UInt64) (store : Store) : Store → Prop
  | unchanged : Effect newId store store
  | create {parentId : UInt64} {parentInode inode : Inode} {name : List Char}
      (parentFound : (tree store).node parentId = some parentInode)
      (dir : isDir parentInode.mode = true)
      (nameFree : (tree store).edge parentId name = none)
      (empty : isDir inode.mode = true → inode.children = 0) :
      Effect newId store (created store parentId parentInode name newId inode)
  | remove {parentId inodeId : UInt64} {parentInode : Inode} {name : List Char}
      (parentFound : (tree store).node parentId = some parentInode)
      (dir : isDir parentInode.mode = true)
      (linked : (tree store).edge parentId name = some inodeId)
      (leaf : (tree store).IsLeaf inodeId) :
      Effect newId store (removed store parentId parentInode name inodeId)

section Motive

variable {motive : Store → Prop} (unchanged : motive store)
include unchanged

theorem withParent_motive (body : UInt64 → Inode → List Char → EngineProgram Int)
    (bodyMotive : ∀ parentId parentInode,
      parentDirectory store path uid gid = .ok (parentId, parentInode) →
      motive ((body parentId parentInode (entryName path)).exec newId store).2) :
    motive ((withParent path uid gid body).exec newId store).2 := by
  rw [exec_withParent]
  cases admitted : parentDirectory store path uid gid with
  | error ret => exact unchanged
  | ok dir => exact bodyMotive _ _ admitted

theorem createEntry_motive (newInode : UInt64 → Inode)
    (idFree : (tree store).node newId = none)
    (parentFound : (tree store).node parentId = some parentInode)
    (isCreated : (tree store).edge parentId name = none →
      motive (created store parentId parentInode name newId (newInode newId))) :
    motive ((createEntry newInode parentId parentInode name).exec newId store).2 := by
  rw [exec_createEntry newInode parentFound idFree]
  cases linked : (tree store).edge parentId name with
  | some _ => exact unchanged
  | none => exact isCreated linked

theorem withTarget_motive (body : UInt64 → Inode → EngineProgram Int)
    (bodyMotive : ∀ targetId targetInode,
      (tree store).edge parentId name = some targetId →
      (tree store).node targetId = some targetInode →
      motive ((body targetId targetInode).exec newId store).2) :
    motive ((withTarget parentId name body).exec newId store).2 := by
  rw [exec_withTarget]
  cases linked : foundDentry (store (getDentryKey parentId name)) with
  | error ret => exact unchanged
  | ok targetId =>
    dsimp only
    cases found : foundInode (store (getInodeKey targetId)) with
    | error ret => exact unchanged
    | ok targetInode =>
      exact bodyMotive _ _ (foundDentry_eq_ok.mp linked) (foundInode_eq_ok.mp found)

omit unchanged in
theorem removeEntry_motive (inodeIds : List UInt64) (restored : Int → EngineProgram Int)
    (parentFound : (tree store).node parentId = some parentInode)
    (linked : (tree store).edge parentId name = some targetId) (leaf : (tree store).IsLeaf targetId)
    (isRemoved : motive (removed store parentId parentInode name targetId)) :
    motive ((removeEntry parentId parentInode name targetId targetInode
      (unlockAndReturn inodeIds 0) restored).exec newId store).2 := by
  have distinct : targetId ≠ parentId := by
    rintro rfl
    simp [leaf name] at linked
  rw [exec_removeEntry _ _ parentFound distinct, exec_unlockAndReturn]
  exact isRemoved

variable (consistent : Consistent store)
variable (isRemoved : ∀ parentId parentInode targetId,
  parentDirectory store path uid gid = .ok (parentId, parentInode) →
  (tree store).edge parentId (entryName path) = some targetId →
  (tree store).IsLeaf targetId →
  motive (removed store parentId parentInode (entryName path) targetId))
include consistent isRemoved

theorem rmdir_motive : motive ((rmdir path uid gid).exec newId store).2 := by
  refine withParent_motive unchanged _ fun parentId parentInode admitted => ?_
  refine withTarget_motive unchanged _ fun targetId targetInode linked found => ?_
  split_ifs with notDir occupied
  · simpa using unchanged
  · simpa using unchanged
  · have leaf := consistent.isLeaf_of_children linked found (by simpa using notDir) occupied
    exact removeEntry_motive _ _ (parentDirectory_eq_ok.mp admitted).2.1 linked leaf
      (isRemoved _ _ _ admitted linked leaf)

theorem unlink_motive : motive ((unlink path uid gid).exec newId store).2 := by
  refine withParent_motive unchanged _ fun parentId parentInode admitted => ?_
  refine withTarget_motive unchanged _ fun targetId targetInode linked found => ?_
  split_ifs with isDirectory
  · simpa using unchanged
  · have leaf := consistent.isLeaf_of_file found isDirectory
    exact removeEntry_motive _ _ (parentDirectory_eq_ok.mp admitted).2.1 linked leaf
      (isRemoved _ _ _ admitted linked leaf)

end Motive

/-- The change that an operation makes, with the directory that its path leads to:
none, a new leaf in this directory, or a leaf less. -/
inductive Change (operation : Operation) (newId : UInt64) (store : Store) : Store → Prop
  | unchanged : Change operation newId store store
  | create {parentId : UInt64} {parentInode inode : Inode}
      (admitted : parentDirectory store operation.path operation.caller.1 operation.caller.2 =
        .ok (parentId, parentInode))
      (nameFree : (tree store).edge parentId (entryName operation.path) = none)
      (sameId : inode.id = newId) (empty : isDir inode.mode = true → inode.children = 0) :
      Change operation newId store
        (created store parentId parentInode (entryName operation.path) newId inode)
  | remove {parentId targetId : UInt64} {parentInode : Inode}
      (admitted : parentDirectory store operation.path operation.caller.1 operation.caller.2 =
        .ok (parentId, parentInode))
      (linked : (tree store).edge parentId (entryName operation.path) = some targetId)
      (leaf : (tree store).IsLeaf targetId) :
      Change operation newId store
        (removed store parentId parentInode (entryName operation.path) targetId)

theorem change_rmdir (consistent : Consistent store) :
    Change (.rmdir path uid gid) newId store ((rmdir path uid gid).exec newId store).2 := by
  apply rmdir_motive .unchanged consistent
  intro parentId parentInode targetId admitted linked leaf
  exact .remove admitted linked leaf

theorem change_operation (operation : Operation) (consistent : Consistent store)
    (idFree : (tree store).node newId = none) :
    Change operation newId store (operation.program.exec newId store).2 := by
  cases operation with
  | mkdir path uid gid mode now =>
    refine withParent_motive .unchanged _ fun _ _ admitted => ?_
    have parentFound := (parentDirectory_eq_ok.mp admitted).2.1
    refine createEntry_motive .unchanged _ idFree parentFound fun nameFree => ?_
    exact .create admitted nameFree rfl fun _ => rfl
  | rmdir path uid gid => exact change_rmdir consistent
  | creat path uid gid mode now uninitChildren =>
    refine withParent_motive .unchanged _ fun _ _ admitted => ?_
    have parentFound := (parentDirectory_eq_ok.mp admitted).2.1
    refine createEntry_motive .unchanged _ idFree parentFound fun nameFree => ?_
    refine .create admitted nameFree rfl fun isDirectory => ?_
    simp [isDir_creat] at isDirectory
  | unlink path uid gid =>
    apply unlink_motive .unchanged consistent
    intro parentId parentInode targetId admitted linked leaf
    exact .remove admitted linked leaf
  | stat path uid gid =>
    rw [(stat_program_reads path uid gid).exec_snd]
    exact .unchanged

theorem Change.effect {operation : Operation} {after : Store}
    (change : Change operation newId store after) : Effect newId store after := by
  cases change with
  | unchanged => exact .unchanged
  | create admitted nameFree _ empty =>
    obtain ⟨-, parentFound, dir, -⟩ := parentDirectory_eq_ok.mp admitted
    exact .create parentFound dir nameFree empty
  | remove admitted linked leaf =>
    obtain ⟨-, parentFound, dir, -⟩ := parentDirectory_eq_ok.mp admitted
    exact .remove parentFound dir linked leaf

theorem Effect.consistent {after : Store} (effect : Effect newId store after)
    (consistent : Consistent store) (idFree : (tree store).node newId = none) :
    Consistent after := by
  cases effect with
  | unchanged => exact consistent
  | create parentFound dir nameFree empty =>
    exact consistent.created parentFound dir nameFree idFree empty
  | remove parentFound dir linked leaf =>
    exact consistent.removed parentFound dir linked leaf

theorem Effect.isLeaf_of_gone {after : Store} (effect : Effect newId store after) {id : UInt64}
    {inode : Inode} (found : (tree store).node id = some inode)
    (gone : (tree after).node id = none) : (tree store).IsLeaf id := by
  cases effect with
  | unchanged => simp [found] at gone
  | create parentFound dir nameFree empty =>
    rw [tree_created] at gone
    cases (LinkedTree.relink_node_gone found gone).2
  | remove parentFound dir linked leaf =>
    rw [tree_removed] at gone
    rw [(LinkedTree.relink_node_gone found gone).1]
    exact leaf

/-! ## Sequences of operations -/

structure Request where
  operation : Operation
  newId : UInt64

def sequentialStep (store : Store) (req : Request) : Option Store :=
  some (req.operation.program.exec req.newId store).2

def FreshId (store : Store) (req : Request) : Prop :=
  store (getInodeKey req.newId) = none

instance (store : Store) (req : Request) : Decidable (FreshId store req) := by
  unfold FreshId; infer_instance

theorem consistent_of_reachable
    (reached : Reachable sequentialStep FreshId IsInitialStore store) : Consistent store := by
  refine reached.invariant (fun _ => consistent_of_isInitialStore) ?_
  intro before req after consistent fresh taken
  obtain rfl := Option.some.inj taken
  have idFree : (tree before).node req.newId = none := by
    simp [tree, show before (getInodeKey req.newId) = none from fresh]
  exact (change_operation req.operation consistent idFree).effect.consistent consistent idFree

/-- In every state that a sequence of operations reaches, inodes and directory
entries form a tree in which every directory but the root counts its entries,
and `Rmdir` removes no directory that has an entry. -/
theorem sequential_namespace (reached : Reachable sequentialStep FreshId IsInitialStore store) :
    (∀ pid name id, (tree store).edge pid name = some id →
      (∃ inode, (tree store).node id = some inode) ∧
        ∃ parent, (tree store).node pid = some parent ∧ isDir parent.mode = true) ∧
    (∀ id inode, id ≠ kRootInodeId → (tree store).node id = some inode →
      (∃! link : UInt64 × List Char, (tree store).edge link.1 link.2 = some id) ∧
        (tree store).Descends kRootInodeId id) ∧
    (∀ id inode, id ≠ kRootInodeId → (tree store).node id = some inode →
      isDir inode.mode = true → ((tree store).names id).encard = inode.children.toNat) ∧
    (∀ pid name id parent, pid ≠ kRootInodeId → (tree store).edge pid name = some id →
      (tree store).node pid = some parent → 0 < parent.children) ∧
    (∀ path uid gid newId id inode, (tree store).node id = some inode →
      (tree ((rmdir path uid gid).exec newId store).2).node id = none →
      ∀ name, (tree store).edge id name = none) := by
  have consistent := consistent_of_reachable reached
  refine ⟨?_, ?_, ?_, ?_, ?_⟩
  · intro pid name id linked
    exact ⟨consistent.target_exists _ _ _ linked, consistent.source_branch _ _ _ linked⟩
  · intro id inode notRoot found
    exact ⟨consistent.existsUnique_edge found notRoot, consistent.descends _ _ found⟩
  · intro id inode notRoot found dir
    exact consistent.encard_names notRoot found dir
  · intro pid name id parent notRoot linked found
    rw [UInt64.lt_iff_toNat_lt]
    exact consistent.degree_pos notRoot found linked
  · intro path uid gid newId id inode found gone
    exact (change_rmdir consistent).effect.isLeaf_of_gone found gone

def makeAndRemove : List Request :=
  [⟨.mkdir "/a".toList 0 0 0o755 7, 1⟩, ⟨.mkdir "/b".toList 0 0 0o755 7, 2⟩,
    ⟨.creat "a//f".toList 0 0 0o644 7 99, 3⟩, ⟨.rmdir "/a".toList 0 0, 4⟩,
    ⟨.rmdir "/b/".toList 0 0, 4⟩, ⟨.stat "/a/f".toList 5 5, 4⟩]

theorem sequential_namespace_makeAndRemove :
    ∃ store, Reachable sequentialStep FreshId IsInitialStore store ∧
      ((tree store).edge 0 ['a'] = some 1 ∧ (tree store).edge 0 ['b'] = none ∧
        (tree store).edge 1 ['f'] = some 3) ∧
      ((tree store).names 1).encard = 1 := by
  have isInitial : IsInitialStore ((initThread 0 7 99).exec 0 fun _ => none).2 := ⟨7, 99, 0, rfl⟩
  obtain ⟨store, reached, holds, found⟩ := Reachable.exists_of_run sequentialStep FreshId
    makeAndRemove (fun store => ((tree store).edge 0 ['a'] = some 1 ∧
      (tree store).edge 0 ['b'] = none ∧ (tree store).edge 1 ['f'] = some 3) ∧
      ((tree store).node 1).map (fun inode => (isDir inode.mode, inode.children)) =
        some (true, 1)) isInitial (by decide)
  obtain ⟨inode, node, recorded⟩ := Option.map_eq_some_iff.mp found
  obtain ⟨dir, children⟩ := Prod.mk.inj recorded
  have counted := (sequential_namespace reached).2.2.1 1 inode (by decide) node dir
  rw [children] at counted
  exact ⟨store, reached, holds, counted⟩

end FuseeFs.Engine
