import FuseeFs.Engine.Operations
import FuseeFs.Library.LinkedTree

/-!
# The directory tree in the store

The tree of a file system exists only as two families of keys.  `tree` reads it
off the store, `Consistent` says that it is one, and the writes of `Mkdir` and
`Creat`, and those of `Rmdir` and `Unlink`, taken together hang in a leaf or cut
one off.
-/

namespace FuseeFs.Engine

open Function Library LinkedTree

def tree (store : Store) : LinkedTree UInt64 (List Char) Inode where
  node id := (store (getInodeKey id)).map decodeInode
  edge pid name := (store (getDentryKey pid name)).map decodeId

/-- Directories are the branches, and `children` counts their entries. -/
def shape : TreeShape UInt64 Inode where
  root := kRootInodeId
  isBranch inode := isDir inode.mode = true
  degree inode := inode.children.toNat

/-- The inodes and entries form one tree under the root, and every directory
but the root counts its entries. -/
def Consistent (store : Store) : Prop :=
  (tree store).Ok shape

variable {store : Store} {parentId inodeId : UInt64} {name : List Char}
variable {parentInode inode : Inode}

theorem foundInode_eq_ok {id : UInt64} {inode : Inode} :
    foundInode (store (getInodeKey id)) = .ok inode ↔ (tree store).node id = some inode := by
  cases stored : store (getInodeKey id) <;> simp [foundInode, tree, stored]

theorem foundDentry_eq_ok {pid id : UInt64} {name : List Char} :
    foundDentry (store (getDentryKey pid name)) = .ok id ↔
      (tree store).edge pid name = some id := by
  cases stored : store (getDentryKey pid name) <;> simp [foundDentry, tree, stored]

def created (store : Store) (parentId : UInt64) (parentInode : Inode) (name : List Char)
    (inodeId : UInt64) (inode : Inode) : Store :=
  update
    (update
      (update store (getInodeKey inodeId) (some (encodeInode inode)))
      (getDentryKey parentId name) (some (encodeId inodeId)))
    (getInodeKey parentId)
    (some (encodeInode { parentInode with children := parentInode.children + 1 }))

def removed (store : Store) (parentId : UInt64) (parentInode : Inode) (name : List Char)
    (inodeId : UInt64) : Store :=
  update
    (update
      (update store (getInodeKey inodeId) none)
      (getDentryKey parentId name) none)
    (getInodeKey parentId)
    (some (encodeInode { parentInode with children := parentInode.children - 1 }))

/-- Three writes, at an inode, at an entry and at the inode of the directory,
change one edge of the tree and the nodes at its ends. -/
theorem tree_update (value target : Option (List UInt8)) (newParent : Inode) :
    tree (update
      (update
        (update store (getInodeKey inodeId) value)
        (getDentryKey parentId name) target)
      (getInodeKey parentId) (some (encodeInode newParent))) =
    (tree store).relink parentId name (target.map decodeId) inodeId (value.map decodeInode)
      newParent := by
  unfold tree relink
  congr 1
  · funext id
    simp only [update_apply, getInodeKey_inj, getInodeKey_ne_getDentryKey, if_false]
    split_ifs <;> simp
  · funext pid entry
    simp only [update_apply, getDentryKey_inj, getDentryKey_ne_getInodeKey, if_false]
    split_ifs <;> rfl

theorem tree_created :
    tree (created store parentId parentInode name inodeId inode) =
      (tree store).attach parentId name inodeId inode
        { parentInode with children := parentInode.children + 1 } := by
  rw [created, tree_update, attach]
  simp

theorem tree_removed :
    tree (removed store parentId parentInode name inodeId) =
      (tree store).detach parentId name inodeId
        { parentInode with children := parentInode.children - 1 } := by
  rw [removed, tree_update, detach]
  rfl

section Consistent

variable (consistent : Consistent store)
include consistent

theorem Consistent.encard_names (notRoot : inodeId ≠ kRootInodeId)
    (found : (tree store).node inodeId = some inode) (dir : isDir inode.mode = true) :
    ((tree store).names inodeId).encard = inode.children.toNat := by
  rw [← (consistent.finite_names inodeId).cast_ncard_eq,
    ← consistent.degree_eq inodeId inode notRoot found dir]
  rfl

theorem Consistent.children_add_one (notRoot : parentId ≠ kRootInodeId)
    (parentFound : (tree store).node parentId = some parentInode)
    (dir : isDir parentInode.mode = true) (free : (tree store).node inodeId = none) :
    (parentInode.children + 1).toNat = parentInode.children.toNat + 1 := by
  have counted := consistent.degree_eq _ _ notRoot parentFound dir
  have bound := consistent.ncard_names_add_one_lt parentId free
  have card : Nat.card UInt64 = 2 ^ 64 := by
    rw [Nat.card_eq_fintype_card, ← FinEnum.card_eq_fintypeCard]
    rfl
  rw [← counted, card] at bound
  rw [UInt64.toNat_add]
  exact Nat.mod_eq_of_lt bound

theorem Consistent.created (parentFound : (tree store).node parentId = some parentInode)
    (dir : isDir parentInode.mode = true) (nameFree : (tree store).edge parentId name = none)
    (idFree : (tree store).node inodeId = none)
    (empty : isDir inode.mode = true → inode.children = 0) :
    Consistent (created store parentId parentInode name inodeId inode) := by
  rw [Consistent, tree_created]
  refine consistent.attach ⟨⟨parentInode, parentFound, dir, fun notRoot => ?_⟩,
    dir, nameFree, idFree, fun isDirectory => ?_⟩
  · exact consistent.children_add_one notRoot parentFound dir idFree
  · simp [shape, empty isDirectory]

theorem Consistent.children_sub_one (notRoot : parentId ≠ kRootInodeId)
    (parentFound : (tree store).node parentId = some parentInode)
    (linked : (tree store).edge parentId name = some inodeId) :
    (parentInode.children - 1).toNat + 1 = parentInode.children.toNat := by
  have pos : 0 < parentInode.children.toNat := consistent.degree_pos notRoot parentFound linked
  have atLeastOne : (1 : UInt64) ≤ parentInode.children := by
    rw [UInt64.le_iff_toNat_le]
    exact pos
  rw [UInt64.toNat_sub_of_le _ _ atLeastOne]
  exact Nat.sub_add_cancel pos

theorem Consistent.removed (parentFound : (tree store).node parentId = some parentInode)
    (dir : isDir parentInode.mode = true) (linked : (tree store).edge parentId name = some inodeId)
    (leaf : (tree store).IsLeaf inodeId) :
    Consistent (removed store parentId parentInode name inodeId) := by
  rw [Consistent, tree_removed]
  refine consistent.detach ⟨⟨parentInode, parentFound, dir, fun notRoot => ?_⟩, dir, linked, leaf⟩
  exact consistent.children_sub_one notRoot parentFound linked

/-- What `Rmdir` tests before it removes: a directory that counts no entries has
none, unless it is the root. -/
theorem Consistent.isLeaf_of_children (linked : (tree store).edge parentId name = some inodeId)
    (found : (tree store).node inodeId = some inode) (dir : isDir inode.mode = true)
    (empty : ¬ inode.children > 0) : (tree store).IsLeaf inodeId := by
  have notRoot : inodeId ≠ kRootInodeId := by
    rintro rfl
    exact consistent.target_ne_root _ _ linked
  refine consistent.isLeaf_of_degree notRoot found dir ?_
  simpa [shape, UInt64.lt_iff_toNat_lt] using empty

theorem Consistent.isLeaf_of_file (found : (tree store).node inodeId = some inode)
    (file : ¬ isDir inode.mode = true) : (tree store).IsLeaf inodeId := by
  refine consistent.isLeaf_of_node fun other sameFound => ?_
  obtain rfl : inode = other := Option.some.inj (found.symm.trans sameFound)
  exact file

end Consistent

def IsInitialStore (store : Store) : Prop :=
  ∃ now uninitChildren newId, store = ((initThread 0 now uninitChildren).exec newId fun _ => none).2

theorem tree_of_isInitialStore (isInitial : IsInitialStore store) :
    ∃ root, isDir root.mode = true ∧
      tree store = ⟨update (fun _ => none) kRootInodeId (some root), fun _ _ => none⟩ := by
  obtain ⟨now, uninitChildren, _, rfl⟩ := isInitial
  have dir : isDir (S_IFDIR ||| 0o755) = true := by decide
  refine ⟨rootInode now uninitChildren, dir, ?_⟩
  unfold tree
  congr 1
  · funext id
    simp only [initThread, insertInode, if_true, Library.Store.Program.exec_insert,
      Library.Store.Program.exec_done, update_apply, getInodeKey_inj]
    split_ifs <;> simp
  · funext pid name
    simp [initThread, insertInode]

theorem consistent_of_isInitialStore (isInitial : IsInitialStore store) : Consistent store := by
  obtain ⟨root, dir, shown⟩ := tree_of_isInitialStore isInitial
  rw [Consistent, shown]
  constructor
  case root_branch => exact ⟨root, by simp [shape], dir⟩
  case descends =>
    intro id inode found
    by_cases isRoot : id = kRootInodeId
    · rw [isRoot]
      exact .root
    · simp [isRoot] at found
  case degree_eq =>
    intro id inode notRoot found
    simp [show id ≠ kRootInodeId from notRoot] at found
  all_goals simp

end FuseeFs.Engine
