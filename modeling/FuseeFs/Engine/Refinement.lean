import FuseeFs.Engine.Sequential

/-!
# The files that a store stands for

Seen from outside there are no inode ids: a list of names either leads to a file
or does not.  `FileTree.step` says what the operations mean on this level.  In
every sequence of operations the engine returns the same codes and leaves the
same files, whichever ids `GetNewInodeId` returns.
-/

namespace FuseeFs.Engine

open Function Library Library.Store LinkedTree

/-- The fields that a directory entry cannot change: all but `id` and `children`. -/
def attributes (inode : Inode) : Inode :=
  { inode with id := 0, children := 0 }

/-- Lists of names, with the attributes of the file they lead to. -/
abbrev FileTree : Type := List (List Char) → Option Inode

namespace FileTree

variable (files : FileTree) (uid gid : UInt32)

/-- Every directory that is passed must be readable. -/
def lookup (place : List (List Char)) : List (List Char) → Except Int Inode
  | [] =>
    match files place with
    | none => .error (-ENOENT)
    | some file => .ok file
  | name :: rest =>
    match files place with
    | none => .error (-ENOENT)
    | some file =>
      if !checkReadPermission file uid gid then .error (-EACCES)
      else if !isDir file.mode then .error (-ENOTDIR)
      else lookup (place ++ [name]) rest

/-- An operation on an entry of a directory that the caller may write. -/
def withParent (path : List Char) (body : List (List Char) → Int × FileTree) : Int × FileTree :=
  let parent := splitPath (separateLastComponent (formatPath path)).1
  match files.lookup uid gid [] parent with
  | .error ret => (ret, files)
  | .ok dir =>
    if !isDir dir.mode then (-ENOTDIR, files)
    else if !checkWritePermission dir uid gid then (-EACCES, files)
    else body (parent ++ [entryName path])

def create (file : Inode) (place : List (List Char)) : Int × FileTree :=
  match files place with
  | some _ => (-EEXIST, files)
  | none => (0, update files place (some file))

/-- `refuse` is the error for a file that the operation does not remove. -/
def remove (refuse : Inode → Option Int) (place : List (List Char)) : Int × FileTree :=
  match files place with
  | none => (-ENOENT, files)
  | some file =>
    match refuse file with
    | some ret => (ret, files)
    | none => (0, update files place none)

def newFile (mode uid gid : UInt32) (now : UInt64) : Inode :=
  { id := 0, mode := mode, uid := uid, gid := gid, size := 0,
    atime := now, mtime := now, ctime := now, children := 0 }

open Classical in
/-- What the operations return and what they do to the files. -/
noncomputable def step : Operation → Int × FileTree
  | .mkdir path uid gid mode now =>
    files.withParent uid gid path (files.create (newFile (S_IFDIR ||| mode) uid gid now))
  | .creat path uid gid mode now _ =>
    files.withParent uid gid path (files.create (newFile (S_IFREG ||| mode) uid gid now))
  | .rmdir path uid gid =>
    files.withParent uid gid path fun place => files.remove (fun file =>
      if !isDir file.mode then some (-ENOTDIR)
      else if ∃ name, files (place ++ [name]) ≠ none then some (-ENOTEMPTY) else none) place
  | .unlink path uid gid =>
    files.withParent uid gid path (files.remove fun file =>
      if isDir file.mode then some (-EISDIR) else none)
  | .stat path uid gid =>
    match files.lookup uid gid [] (splitPath path) with
    | .error ret => (ret, files)
    | .ok _ => (0, files)

noncomputable def run (files : FileTree) : List Operation → List Int × FileTree
  | [] => ([], files)
  | op :: rest =>
    let further := run (files.step op).2 rest
    ((files.step op).1 :: further.1, further.2)

end FileTree

def fileTree (store : Store) : FileTree := fun names =>
  ((tree store).walk kRootInodeId names).bind fun id => ((tree store).node id).map attributes

variable {store : Store} {newId parentId inodeId : UInt64} {uid gid : UInt32}
variable {path name : List Char} {front : List (List Char)} {inode : Inode}

theorem fileTree_concat (led : (tree store).walk kRootInodeId front = some parentId) :
    fileTree store (front ++ [name]) =
      ((tree store).edge parentId name).bind fun id =>
        ((tree store).node id).map attributes := by
  rw [fileTree, walk_concat_eq, led]
  rfl

/-- The entries of a directory are its files. -/
theorem entry_cases (consistent : Consistent store)
    (led : (tree store).walk kRootInodeId front = some parentId) (name : List Char) :
    ((tree store).edge parentId name = none ∧
        foundDentry (store (getDentryKey parentId name)) = .error (-ENOENT) ∧
        fileTree store (front ++ [name]) = none) ∨
      ∃ id inode, (tree store).edge parentId name = some id ∧
        foundDentry (store (getDentryKey parentId name)) = .ok id ∧
        (tree store).node id = some inode ∧
        fileTree store (front ++ [name]) = some (attributes inode) := by
  rw [fileTree_concat led]
  cases stored : store (getDentryKey parentId name) with
  | none => exact .inl (by simp [tree, stored, foundDentry])
  | some value =>
    have linked : (tree store).edge parentId name = some (decodeId value) := by
      simp [tree, stored]
    obtain ⟨inode, found⟩ := consistent.target_exists _ _ _ linked
    exact .inr ⟨_, inode, linked, rfl, found, by rw [linked, Option.bind_some, found]; rfl⟩

def fileOf (store : Store) (found : Except Int UInt64) : Except Int Inode :=
  found.bind fun id => (foundInode (store (getInodeKey id))).map attributes

theorem fileOf_ok (found : (tree store).node inodeId = some inode) :
    fileOf store (.ok inodeId) = .ok (attributes inode) := by
  simp [fileOf, Except.bind, foundInode_eq_ok.mpr found, Except.map]

theorem lookup_lookupComponents {rest : List (List Char)} (consistent : Consistent store)
    (led : (tree store).walk kRootInodeId front = some parentId) :
    (fileTree store).lookup uid gid (front ++ [name]) rest =
      fileOf store ((lookupComponents uid gid parentId name rest).exec newId store).1 := by
  induction rest generalizing front parentId name with
  | nil =>
    rw [FileTree.lookup]
    change _ = fileOf store (foundDentry (store (getDentryKey parentId name)))
    obtain ⟨-, missing, noFile⟩ | ⟨id, inode, -, entry, found, file⟩ :=
      entry_cases consistent led name
    · rw [noFile, missing]
      rfl
    · rw [file, entry, fileOf_ok found]
  | cons next rest ih =>
    rw [FileTree.lookup, exec_lookupComponents]
    obtain ⟨-, missing, noFile⟩ | ⟨_, _, linked, entry, found, file⟩ :=
      entry_cases consistent led name
    · rw [noFile, missing]
      rfl
    · simp only [file, entry, foundInode_eq_ok.mpr found]
      rw [ih (walk_concat.mpr ⟨_, led, linked⟩)]
      simp only [apply_ite (fileOf store)]
      rfl

theorem lookup_pathLookupToDentry (consistent : Consistent store) :
    (fileTree store).lookup uid gid [] (splitPath path) =
      fileOf store ((pathLookupToDentry path uid gid).exec newId store).1 := by
  obtain ⟨root, rootFound, dir⟩ := consistent.root_branch
  have rootFile : fileTree store [] = some (attributes root) :=
    congrArg (Option.map attributes) rootFound
  cases components : splitPath path with
  | nil =>
    rw [exec_pathLookupToDentry_nil components, FileTree.lookup, rootFile]
    exact (fileOf_ok rootFound).symm
  | cons first rest =>
    have isDirectory : isDir (attributes root).mode = true := dir
    rw [exec_pathLookupToDentry components, FileTree.lookup, rootFile]
    rw [show kRootInodeId = shape.root from rfl, foundInode_eq_ok.mpr rootFound]
    simp only [isDirectory, Bool.not_true, Bool.false_eq_true, if_false, apply_ite (fileOf store)]
    rw [lookup_lookupComponents consistent rfl]
    rfl

section Changes

variable {parentInode : Inode} (consistent : Consistent store)
include consistent

/-- Both sides take the same way to the parent directory. -/
theorem withParent_fileTree (body : UInt64 → Inode → List Char → EngineProgram Int)
    (change : List (List Char) → Int × FileTree)
    (agrees : ∀ parentId parentInode front,
      (tree store).walk kRootInodeId front = some parentId →
      (tree store).node parentId = some parentInode →
      change (front ++ [entryName path]) =
        Prod.map id fileTree ((body parentId parentInode (entryName path)).exec newId store)) :
    (fileTree store).withParent uid gid path change =
      Prod.map id fileTree ((withParent path uid gid body).exec newId store) := by
  rw [FileTree.withParent, lookup_pathLookupToDentry consistent, exec_withParent, parentDirectory]
  cases lookedUp : ((pathLookupToDentry (separateLastComponent (formatPath path)).1 uid gid).exec 0
    store).1 with
  | error ret => rfl
  | ok id =>
    have led := (traverses_of_pathLookupToDentry lookedUp).led
    obtain ⟨inode, found⟩ := consistent.node_of_walk led
    simp only [fileOf_ok found, foundInode_eq_ok.mpr found]
    rw [agrees id inode _ led found]
    change (if !isDir inode.mode then _ else if !checkWritePermission inode uid gid then _
      else _) = _
    split_ifs <;> rfl

variable (led : (tree store).walk kRootInodeId front = some parentId)
include led

/-- A directory has a file below it if it counts entries. -/
theorem exists_file_iff (linked : (tree store).edge parentId name = some inodeId)
    (found : (tree store).node inodeId = some inode) (dir : isDir inode.mode = true) :
    (∃ entry, fileTree store (front ++ [name] ++ [entry]) ≠ none) ↔ inode.children > 0 := by
  have notRoot : inodeId ≠ kRootInodeId := by
    rintro rfl
    exact consistent.target_ne_root _ _ linked
  have named (entry : List Char) : fileTree store (front ++ [name] ++ [entry]) ≠ none ↔
      entry ∈ (tree store).names inodeId := by
    obtain ⟨below, -, file⟩ | ⟨_, _, below, -, -, file⟩ :=
      entry_cases consistent (walk_concat.mpr ⟨_, led, linked⟩) entry
    all_goals
      rw [file]
      simp [LinkedTree.names, below]
  calc (∃ entry, fileTree store (front ++ [name] ++ [entry]) ≠ none)
      ↔ ((tree store).names inodeId).Nonempty := exists_congr named
    _ ↔ inode.children.toNat ≠ 0 := by
        rw [← Set.encard_ne_zero, consistent.encard_names notRoot found dir, Nat.cast_ne_zero]
    _ ↔ inode.children > 0 := by
        rw [gt_iff_lt, UInt64.lt_iff_toNat_lt]
        exact Nat.pos_iff_ne_zero.symm

variable (parentFound : (tree store).node parentId = some parentInode)
include parentFound

/-- An entry that is linked or unlinked is one file more or less. -/
theorem fileTree_relink {after : Store} (target : Option UInt64) (info : Option Inode)
    {children : UInt64} (leaf : (tree store).IsLeaf inodeId) (distinct : inodeId ≠ parentId)
    (linked : ∀ other ∈ (tree store).edge parentId name, other = inodeId)
    (relinked : ∀ other ∈ target, other = inodeId)
    (notElsewhere : ∀ names, (tree store).walk kRootInodeId names = some inodeId →
      names = front ++ [name])
    (shown : tree after = (tree store).relink parentId name target inodeId info
      { parentInode with children := children }) :
    fileTree after = update (fileTree store) (front ++ [name])
      (target.bind fun _ => info.map attributes) := by
  funext names
  have walked : (tree after).walk kRootInodeId names = _ :=
    shown ▸ consistent.walk_relink led leaf distinct linked relinked names
  rw [update_apply, fileTree, walked, shown]
  split_ifs with isEntry
  · cases target with
    | none => rfl
    | some other =>
      obtain rfl := relinked other rfl
      rw [Option.bind_some, relink_node_child distinct]
      rfl
  · apply Option.bind_congr
    intro id reached
    by_cases isParent : id = parentId
    · rw [isParent, relink_node_parent, parentFound]
      rfl
    · rw [relink_node_of_ne id isParent]
      rintro rfl
      exact isEntry (notElsewhere names reached)

theorem createEntry_fileTree {file : Inode} (newInode : UInt64 → Inode)
    (idFree : (tree store).node newId = none) (made : attributes (newInode newId) = file) :
    (fileTree store).create file (front ++ [name]) =
      Prod.map id fileTree
        ((createEntry newInode parentId parentInode name).exec newId store) := by
  rw [exec_createEntry newInode parentFound idFree, FileTree.create]
  obtain ⟨unlinked, -, noFile⟩ | ⟨_, _, linked, -, -, file⟩ := entry_cases consistent led name
  · have leaf : (tree store).IsLeaf newId := consistent.isLeaf_of_node (by simp [idFree])
    simp only [unlinked, noFile]
    rw [Prod.map_apply, fileTree_relink consistent led parentFound (some newId)
      (some (newInode newId)) leaf _ (by simp [unlinked]) (by simp) _ tree_created]
    · rw [← made]
      rfl
    · rintro rfl
      simp [idFree] at parentFound
    · intro names reached
      obtain ⟨_, found⟩ := consistent.node_of_walk reached
      simp [idFree] at found
  · simp only [linked, file]
    rfl

theorem removeEntry_fileTree {targetInode : Inode} (inodeIds : List UInt64)
    (restored : Int → EngineProgram Int) (linked : (tree store).edge parentId name = some inodeId)
    (leaf : (tree store).IsLeaf inodeId) :
    Prod.map id fileTree ((removeEntry parentId parentInode name inodeId targetInode
        (unlockAndReturn inodeIds 0) restored).exec newId store) =
      (0, update (fileTree store) (front ++ [name]) none) := by
  have distinct : inodeId ≠ parentId := by
    rintro rfl
    simp [leaf name] at linked
  have reached := walk_concat.mpr ⟨_, led, linked⟩
  rw [exec_removeEntry _ _ parentFound distinct, exec_unlockAndReturn, Prod.map_apply,
    fileTree_relink consistent led parentFound none none leaf distinct (by simp [linked])
      (by simp) (fun names other => consistent.walk_unique other reached) tree_removed]
  rfl

omit parentFound in
theorem withTarget_fileTree (refuse : Inode → Option Int)
    (body : UInt64 → Inode → EngineProgram Int)
    (removes : ∀ targetId targetInode,
      (tree store).edge parentId name = some targetId →
      (tree store).node targetId = some targetInode →
      Prod.map id fileTree ((body targetId targetInode).exec newId store) =
        match refuse (attributes targetInode) with
        | some ret => (ret, fileTree store)
        | none => (0, update (fileTree store) (front ++ [name]) none)) :
    (fileTree store).remove refuse (front ++ [name]) =
      Prod.map id fileTree ((withTarget parentId name body).exec newId store) := by
  rw [exec_withTarget, FileTree.remove]
  obtain ⟨-, missing, noFile⟩ | ⟨id, inode, linked, entry, found, file⟩ :=
    entry_cases consistent led name
  · rw [noFile, missing]
    rfl
  · simp only [entry, foundInode_eq_ok.mpr found, removes id inode linked found, file]

end Changes

section Operations

variable (consistent : Consistent store)
include consistent

theorem rmdir_fileTree :
    (fileTree store).step (.rmdir path uid gid) =
      Prod.map id fileTree ((rmdir path uid gid).exec newId store) := by
  rw [FileTree.step, rmdir]
  apply withParent_fileTree consistent
  intro parentId parentInode front led parentFound
  apply withTarget_fileTree consistent led
  intro targetId targetInode linked found
  rw [show isDir (attributes targetInode).mode = isDir targetInode.mode from rfl]
  by_cases dir : isDir targetInode.mode = true
  · simp only [dir, exists_file_iff consistent led linked found dir]
    by_cases occupied : targetInode.children > 0
    · simp [occupied]
    · simp only [occupied, Bool.not_true, Bool.false_eq_true, if_false]
      exact removeEntry_fileTree consistent led parentFound _ _ linked
        (consistent.isLeaf_of_children linked found dir occupied)
  · simp [dir]

theorem unlink_fileTree :
    (fileTree store).step (.unlink path uid gid) =
      Prod.map id fileTree ((unlink path uid gid).exec newId store) := by
  rw [FileTree.step, unlink]
  apply withParent_fileTree consistent
  intro parentId parentInode front led parentFound
  apply withTarget_fileTree consistent led
  intro targetId targetInode linked found
  rw [show isDir (attributes targetInode).mode = isDir targetInode.mode from rfl]
  by_cases dir : isDir targetInode.mode = true
  · simp [dir]
  · simp only [dir, Bool.false_eq_true, if_false]
    exact removeEntry_fileTree consistent led parentFound _ _ linked
      (consistent.isLeaf_of_file found dir)

omit consistent in
theorem map_stat :
    ((stat path uid gid).exec newId store).1.map attributes =
      fileOf store ((pathLookupToDentry path uid gid).exec newId store).1 := by
  cases lookedUp : ((pathLookupToDentry path uid gid).exec newId store).1 with
  | error ret =>
    rw [exec_stat_error lookedUp]
    rfl
  | ok id =>
    rw [exec_stat lookedUp]
    rfl

theorem stat_fileTree :
    (fileTree store).step (.stat path uid gid) =
      Prod.map id fileTree ((Operation.stat path uid gid).program.exec newId store) := by
  have same : ((Operation.stat path uid gid).program.exec newId store).2 = store :=
    (stat_program_reads path uid gid).exec_snd
  rw [Prod.map, same, FileTree.step, @lookup_pathLookupToDentry store newId _ _ _ consistent,
    ← map_stat]
  simp only [Operation.program, Program.exec_bind]
  cases ((stat path uid gid).exec newId store).1 <;> rfl

/-- On the files that the store stands for, an operation does what
`FileTree.step` says. -/
theorem step_fileTree (idFree : (tree store).node newId = none) (op : Operation) :
    (fileTree store).step op = Prod.map id fileTree (op.program.exec newId store) := by
  cases op with
  | mkdir path uid gid mode now =>
    apply withParent_fileTree consistent
    intro parentId parentInode front led parentFound
    exact createEntry_fileTree consistent led parentFound _ idFree rfl
  | creat path uid gid mode now uninitChildren =>
    apply withParent_fileTree consistent
    intro parentId parentInode front led parentFound
    exact createEntry_fileTree consistent led parentFound _ idFree rfl
  | rmdir path uid gid => exact rmdir_fileTree consistent
  | unlink path uid gid => exact unlink_fileTree consistent
  | stat path uid gid => exact stat_fileTree consistent

end Operations

def codes (store : Store) : List Request → List Int
  | [] => []
  | req :: rest =>
    let done := req.operation.program.exec req.newId store
    done.1 :: codes done.2 rest

theorem run_fileTree {after : Store} (consistent : Consistent store) (requests : List Request)
    (ran : run sequentialStep FreshId store requests = some after) :
    (fileTree store).run (requests.map Request.operation) =
      (codes store requests, fileTree after) ∧ Consistent after := by
  induction requests generalizing store with
  | nil =>
    obtain rfl := Option.some.inj ran
    exact ⟨rfl, consistent⟩
  | cons req rest ih =>
    rw [run] at ran
    split_ifs at ran with fresh
    have idFree : (tree store).node req.newId = none := by
      simp [tree, show store (getInodeKey req.newId) = none from fresh]
    have change := change_operation req.operation consistent idFree
    obtain ⟨further, consistentAfter⟩ := ih (change.effect.consistent consistent idFree) ran
    refine ⟨?_, consistentAfter⟩
    rw [List.map_cons, FileTree.run, step_fileTree consistent idFree req.operation]
    dsimp only [Prod.map]
    rw [further]
    rfl

def FileTree.initial (now : UInt64) : FileTree :=
  update (fun _ => none) [] (some (FileTree.newFile (S_IFDIR ||| 0o755) 0 0 now))

theorem fileTree_initThread (now uninitChildren newId : UInt64) :
    fileTree ((initThread 0 now uninitChildren).exec newId fun _ => none).2 = .initial now := by
  funext names
  cases names with
  | nil => simp [fileTree, walk, tree, initThread, insertInode, rootInode, attributes,
      FileTree.initial, FileTree.newFile]
  | cons name rest => simp [fileTree, walk, tree, initThread, insertInode, FileTree.initial]

/-- Any sequence of operations on a new file system returns the codes of the
abstract operations and leaves the files that they leave, and `Stat` reports these
files.  In particular no code depends on the ids of the inodes. -/
theorem operations_refine_fileTree (now uninitChildren newId : UInt64) (requests : List Request)
    (after : Store)
    (ran : run sequentialStep FreshId ((initThread 0 now uninitChildren).exec newId
      fun _ => none).2 requests = some after) :
    (FileTree.initial now).run (requests.map Request.operation) =
        (codes ((initThread 0 now uninitChildren).exec newId fun _ => none).2 requests,
          fileTree after) ∧
      ∀ path uid gid unusedId, ((stat path uid gid).exec unusedId after).1.map attributes =
        (fileTree after).lookup uid gid [] (splitPath path) := by
  rw [← fileTree_initThread now uninitChildren newId]
  have isInitial : IsInitialStore ((initThread 0 now uninitChildren).exec newId fun _ => none).2 :=
    ⟨now, uninitChildren, newId, rfl⟩
  obtain ⟨refined, consistent⟩ := run_fileTree (consistent_of_isInitialStore isInitial) requests ran
  exact ⟨refined, fun _ _ _ _ => map_stat.trans (lookup_pathLookupToDentry consistent).symm⟩

theorem operations_refine_fileTree_makeAndRemove :
    ∃ after, (FileTree.initial 7).run (makeAndRemove.map Request.operation) =
      ([0, 0, 0, -ENOTEMPTY, 0, 0], fileTree after) := by
  obtain ⟨after, ran⟩ := Option.isSome_iff_exists.mp
    (show (run sequentialStep FreshId ((initThread 0 7 99).exec 0 fun _ => none).2
      makeAndRemove).isSome = true from by decide)
  refine ⟨after, (operations_refine_fileTree 7 99 0 makeAndRemove after ran).1.trans ?_⟩
  rw [show codes ((initThread 0 7 99).exec 0 fun _ => none).2 makeAndRemove =
    [0, 0, 0, -ENOTEMPTY, 0, 0] from by decide]

end FuseeFs.Engine
