import FuseeFs.Engine.Sequential

/-!
# Entries that were created can be found

`Mkdir` and `Creat` take a path apart with `SeparateLastComponent`, `Stat` with
`SplitPath`, which drops empty components.  The two agree on the paths that name
an entry.
-/

namespace FuseeFs.Engine

open Library Library.Store LinkedTree

variable {store after : Store} {newId otherId parentId targetId : UInt64}
variable {parentInode : Inode} {path name : List Char} {uid gid otherGid : UInt32}

/-! ## Requests that create -/

inductive FileType
  | directory
  | regular
deriving DecidableEq, Repr

def FileType.bits : FileType → UInt32
  | .directory => S_IFDIR
  | .regular => S_IFREG

/-- The arguments of a call of `Mkdir` or `Creat`, with the time of day and the
uninitialised field that it meets. -/
structure CreateRequest where
  fileType : FileType
  path : List Char
  uid : UInt32
  gid : UInt32
  mode : UInt32
  now : UInt64
  uninitChildren : UInt64

namespace CreateRequest

def program (req : CreateRequest) : EngineProgram Int :=
  match req.fileType with
  | .directory => mkdir req.path req.uid req.gid req.mode req.now
  | .regular =>
    creat req.path req.uid req.gid req.mode req.now req.uninitChildren

def newInode (req : CreateRequest) (newInodeId : UInt64) : Inode where
  id := newInodeId
  mode := req.fileType.bits ||| req.mode
  uid := req.uid
  gid := req.gid
  size := 0
  atime := req.now
  mtime := req.now
  ctime := req.now
  children := if req.fileType = .directory then 0 else req.uninitChildren

theorem program_eq (req : CreateRequest) :
    req.program = withParent req.path req.uid req.gid (createEntry req.newInode) := by
  rcases req with ⟨fileType, _⟩
  cases fileType <;> rfl

theorem type_newInode (req : CreateRequest) (noTypeBits : req.mode &&& S_IFMT = 0) :
    (req.newInode newId).mode &&& S_IFMT = req.fileType.bits := by
  have typeBits : req.fileType.bits &&& S_IFMT = req.fileType.bits := by
    cases req.fileType <;> decide
  calc (req.fileType.bits ||| req.mode) &&& S_IFMT
      = (req.fileType.bits &&& S_IFMT) ||| (req.mode &&& S_IFMT) := by
        apply UInt32.toBitVec_inj.mp
        simp only [UInt32.toBitVec_and, UInt32.toBitVec_or]
        ext bit
        simp [Bool.and_or_distrib_right]
    _ = req.fileType.bits := by rw [typeBits, noTypeBits, UInt32.or_zero]

end CreateRequest

/-! ## Stores that grow -/

structure Grown (store after : Store) : Prop where
  edge : ∀ pid name id, (tree store).edge pid name = some id → (tree after).edge pid name = some id
  node : ∀ id inode, (tree store).node id = some inode →
    ∃ other, (tree after).node id = some other ∧ other.mode = inode.mode

variable {inode : Inode}

theorem node_created_parent :
    (tree (created store parentId parentInode name newId inode)).node parentId =
      some { parentInode with children := parentInode.children + 1 } := by
  rw [tree_created]
  exact relink_node_parent

theorem node_created_new (distinct : newId ≠ parentId) :
    (tree (created store parentId parentInode name newId inode)).node newId = some inode := by
  rw [tree_created]
  exact relink_node_child distinct

theorem edge_created :
    (tree (created store parentId parentInode name newId inode)).edge parentId name =
      some newId := by
  rw [tree_created]
  exact relink_edge_self

theorem grown_created (parentFound : (tree store).node parentId = some parentInode)
    (nameFree : (tree store).edge parentId name = none) (idFree : (tree store).node newId = none) :
    Grown store (created store parentId parentInode name newId inode) := by
  constructor
  · intro pid entry id linked
    have ne : ¬ (pid = parentId ∧ entry = name) := by
      rintro ⟨rfl, rfl⟩
      simp [nameFree] at linked
    rw [tree_created, attach, relink_edge_of_ne ne]
    exact linked
  · intro id other found
    rw [tree_created, attach]
    by_cases isParent : id = parentId
    · subst isParent
      obtain rfl := Option.some.inj (parentFound.symm.trans found)
      exact ⟨_, relink_node_parent, rfl⟩
    · have notNew : id ≠ newId := by
        rintro rfl
        simp [idFree] at found
      rw [relink_node_of_ne _ isParent notNew]
      exact ⟨other, found, rfl⟩

namespace Grown

variable (grown : Grown store after)
include grown

variable {rest : List (List Char)}

theorem lookupComponents
    (lookedUp : ((lookupComponents uid gid parentId name rest).exec newId store).1 = .ok targetId) :
    ((Engine.lookupComponents 0 otherGid parentId name rest).exec newId after).1 =
      .ok targetId := by
  induction rest generalizing parentId name with
  | nil =>
    rw [exec_lookupComponents_nil] at lookedUp ⊢
    exact grown.edge _ _ _ lookedUp
  | cons next rest ih =>
    rw [exec_lookupComponents_cons] at lookedUp ⊢
    obtain ⟨curInodeId, _, linked, found, -, dir, further⟩ := lookedUp
    obtain ⟨other, otherFound, sameMode⟩ := grown.node _ _ found
    refine ⟨curInodeId, other, grown.edge _ _ _ linked, otherFound, rfl, ?_, ih further⟩
    rw [sameMode, dir]

theorem lookupComponents_append {entry : List Char} {dir : Inode}
    (lookedUp : ((Engine.lookupComponents uid gid parentId name rest).exec newId store).1 =
      .ok otherId) (directoryFound : (tree after).node otherId = some dir)
    (isDirectory : isDir dir.mode = true)
    (linked : (tree after).edge otherId entry = some targetId) :
    ((Engine.lookupComponents 0 otherGid parentId name (rest ++ [entry])).exec newId
      after).1 = .ok targetId := by
  induction rest generalizing parentId name with
  | nil =>
    rw [exec_lookupComponents_nil] at lookedUp
    rw [List.nil_append, exec_lookupComponents_cons]
    exact ⟨otherId, dir, grown.edge _ _ _ lookedUp, directoryFound, rfl, isDirectory,
      exec_lookupComponents_nil.mpr linked⟩
  | cons next rest ih =>
    rw [exec_lookupComponents_cons] at lookedUp
    rw [List.cons_append, exec_lookupComponents_cons]
    obtain ⟨curInodeId, _, curLinked, found, -, curDirectory, further⟩ := lookedUp
    obtain ⟨other, otherFound, sameMode⟩ := grown.node _ _ found
    refine ⟨curInodeId, other, grown.edge _ _ _ curLinked, otherFound, rfl, ?_, ih further⟩
    rw [sameMode, curDirectory]

theorem pathLookupToDentry {otherPath : List Char}
    (lookedUp : ((pathLookupToDentry path uid gid).exec otherId store).1 = .ok targetId)
    (components : splitPath otherPath = splitPath path) :
    ((Engine.pathLookupToDentry otherPath 0 otherGid).exec newId after).1 = .ok targetId := by
  rw [(pathLookupToDentry_reads _ _ _).exec_fst newId] at lookedUp
  cases shown : splitPath path with
  | nil =>
    rw [exec_pathLookupToDentry_nil shown] at lookedUp
    rw [exec_pathLookupToDentry_nil (components.trans shown), lookedUp]
  | cons first rest =>
    obtain ⟨_, found, -, further⟩ := (exec_pathLookupToDentry_cons shown).mp lookedUp
    obtain ⟨other, otherFound, -⟩ := grown.node _ _ found
    rw [exec_pathLookupToDentry_cons (components.trans shown)]
    exact ⟨other, otherFound, rfl, grown.lookupComponents further⟩

theorem pathLookupToDentry_append {longer entry : List Char} {dir : Inode}
    (lookedUp : ((Engine.pathLookupToDentry path uid gid).exec otherId store).1 = .ok parentId)
    (components : splitPath longer = splitPath path ++ [entry])
    (directoryFound : (tree after).node parentId = some dir) (isDirectory : isDir dir.mode = true)
    (linked : (tree after).edge parentId entry = some targetId) :
    ((Engine.pathLookupToDentry longer 0 otherGid).exec newId after).1 = .ok targetId := by
  rw [(pathLookupToDentry_reads _ _ _).exec_fst newId] at lookedUp
  cases shown : splitPath path with
  | nil =>
    rw [exec_pathLookupToDentry_nil shown] at lookedUp
    obtain rfl := Except.ok.inj lookedUp
    rw [shown] at components
    rw [exec_pathLookupToDentry_cons components]
    exact ⟨dir, directoryFound, rfl, exec_lookupComponents_nil.mpr linked⟩
  | cons first rest =>
    obtain ⟨_, found, -, further⟩ := (exec_pathLookupToDentry_cons shown).mp lookedUp
    obtain ⟨other, otherFound, -⟩ := grown.node _ _ found
    rw [shown] at components
    rw [exec_pathLookupToDentry_cons components]
    exact ⟨other, otherFound, rfl,
      grown.lookupComponents_append further directoryFound isDirectory linked⟩

end Grown

/-! ## Stored ids -/

def IdsStored (store : Store) : Prop :=
  ∀ id inode, (tree store).node id = some inode → inode.id = id

section IdsStored

variable (stored : IdsStored store)
  (parentFound : (tree store).node parentId = some parentInode)
include stored parentFound

theorem IdsStored.relink {target : Option UInt64} {childInfo : Option Inode} {newParent : Inode}
    (shown : tree after = (tree store).relink parentId name target targetId childInfo
      newParent) (sameParent : newParent.id = parentInode.id)
    (sameChild : ∀ inode ∈ childInfo, inode.id = targetId) : IdsStored after := by
  intro id other found
  rw [shown] at found
  by_cases isParent : id = parentId
  · subst isParent
    rw [relink_node_parent] at found
    rw [← Option.some.inj found, sameParent]
    exact stored _ _ parentFound
  by_cases isTarget : id = targetId
  · subst isTarget
    rw [relink_node_child isParent] at found
    exact sameChild _ found
  · rw [relink_node_of_ne _ isParent isTarget] at found
    exact stored _ _ found

theorem IdsStored.created (sameId : inode.id = newId) :
    IdsStored (created store parentId parentInode name newId inode) := by
  refine stored.relink parentFound tree_created rfl ?_
  rintro _ ⟨⟩
  exact sameId

theorem IdsStored.removed : IdsStored (removed store parentId parentInode name targetId) := by
  refine stored.relink parentFound tree_removed rfl ?_
  rintro _ ⟨⟩

end IdsStored

theorem IdsStored.change {op : Operation} (stored : IdsStored store)
    (change : Change op newId store after) : IdsStored after := by
  cases change with
  | unchanged => exact stored
  | create admitted _ sameId _ =>
    exact stored.created (parentDirectory_eq_ok.mp admitted).2.1 sameId
  | remove admitted _ _ => exact stored.removed (parentDirectory_eq_ok.mp admitted).2.1

theorem idsStored_of_isInitialStore (isInitial : IsInitialStore store) : IdsStored store := by
  obtain ⟨_, _, _, rfl⟩ := isInitial
  intro id inode found
  simp only [tree, initThread, insertInode, if_true, Program.exec_insert, Program.exec_done,
    Function.update_apply, getInodeKey_inj] at found
  split_ifs at found with isRoot
  · rw [← Option.some.inj found, decodeInode_encodeInode, isRoot]
    rfl
  · cases found

theorem idsStored_of_reachable
    (reached : Reachable sequentialStep FreshId IsInitialStore store) : IdsStored store := by
  have start : ∀ start, IsInitialStore start → Consistent start ∧ IdsStored start :=
    fun _ isInitial =>
      ⟨consistent_of_isInitialStore isInitial, idsStored_of_isInitialStore isInitial⟩
  refine (reached.invariant start ?_).2
  rintro before req _ ⟨consistent, stored⟩ fresh taken
  obtain rfl := Option.some.inj taken
  have idFree : (tree before).node req.newId = none := by
    simp [tree, show before (getInodeKey req.newId) = none from fresh]
  have change := change_operation req.operation consistent idFree
  exact ⟨change.effect.consistent consistent idFree, stored.change change⟩

/-! ## The search for a new entry -/

def CanCreate (store : Store) (path : List Char) (uid gid : UInt32) : Prop :=
  ∃ dir, parentDirectory store path uid gid = .ok dir ∧
    store (getDentryKey dir.1 (entryName path)) = none

/-- If the request returns 0, then the superuser finds the new inode. -/
def CreateRequest.FoundByStat (req : CreateRequest) (newId : UInt64) (store : Store) : Prop :=
  (req.program.exec newId store).1 = 0 → ∀ gid, ∃ found,
    ((stat req.path 0 gid).exec newId (req.program.exec newId store).2).1 = .ok found ∧
      found.id = newId ∧ found.mode &&& S_IFMT = req.fileType.bits ∧
      found.uid = req.uid ∧ found.gid = req.gid

theorem CreateRequest.exec_program (req : CreateRequest) (idFree : (tree store).node newId = none) :
    (∃ dir, parentDirectory store req.path req.uid req.gid = .ok dir ∧
      store (getDentryKey dir.1 (entryName req.path)) = none ∧
      req.program.exec newId store = (0, created store dir.1 dir.2
        (entryName req.path) newId (req.newInode newId))) ∨
    ¬ CanCreate store req.path req.uid req.gid ∧ (req.program.exec newId store).1 ≠ 0 := by
  rw [req.program_eq, exec_withParent]
  cases admitted : parentDirectory store req.path req.uid req.gid with
  | error ret =>
    refine .inr ⟨?_, parentDirectory_error admitted⟩
    rintro ⟨dir, isAdmitted, -⟩
    rw [admitted] at isAdmitted
    cases isAdmitted
  | ok dir =>
    have parentFound := (parentDirectory_eq_ok.mp admitted).2.1
    dsimp only
    rw [exec_createEntry req.newInode parentFound idFree]
    cases stored : store (getDentryKey dir.1 (entryName req.path)) with
    | none =>
      refine .inl ⟨dir, rfl, stored, ?_⟩
      simp [tree, stored]
    | some value =>
      refine .inr ⟨?_, ?_⟩
      · rintro ⟨_, isAdmitted, nameFree⟩
        rw [admitted] at isAdmitted
        obtain rfl := Except.ok.inj isAdmitted
        simp [stored] at nameFree
      · simp only [tree, stored, Option.map_some]
        decide

section Found

variable {req : CreateRequest} {dir : UInt64 × Inode}
variable (admitted : parentDirectory store req.path req.uid req.gid = .ok dir)
variable (nameFree : store (getDentryKey dir.1 (entryName req.path)) = none)
variable (idFree : (tree store).node newId = none)
include admitted nameFree idFree

theorem grown_directory :
    Grown store (created store dir.1 dir.2 (entryName req.path) newId (req.newInode newId)) := by
  refine grown_created (parentDirectory_eq_ok.mp admitted).2.1 ?_ idFree
  simp [tree, nameFree]

theorem stat_created (names : entryName req.path ≠ []) :
    ((stat req.path 0 gid).exec newId (created store dir.1 dir.2
      (entryName req.path) newId (req.newInode newId))).1 =
      .ok (req.newInode newId) := by
  obtain ⟨lookedUp, parentFound, isDirectory, -⟩ := parentDirectory_eq_ok.mp admitted
  have components : splitPath req.path =
      splitPath (separateLastComponent (formatPath req.path)).1 ++ [entryName req.path] :=
    splitPath_of_namesEntry ((namesEntry_iff _).mpr names)
  have distinct : newId ≠ dir.1 := by
    rintro rfl
    simp [idFree] at parentFound
  have grown := grown_directory admitted nameFree idFree
  rw [exec_stat (grown.pathLookupToDentry_append lookedUp components node_created_parent
    isDirectory edge_created), foundInode_eq_ok]
  exact node_created_new distinct

theorem stat_directory (noName : entryName req.path = []) :
    ((stat req.path 0 gid).exec newId (created store dir.1 dir.2
      (entryName req.path) newId (req.newInode newId))).1 =
      .ok { dir.2 with children := dir.2.children + 1 } := by
  obtain ⟨lookedUp, -⟩ := parentDirectory_eq_ok.mp admitted
  have components : splitPath req.path =
      splitPath (separateLastComponent (formatPath req.path)).1 := by
    rw [← splitPath_formatPath req.path, splitPath_separateLastComponent (formatPath _)]
    exact (congrArg _ (if_pos noName)).trans (List.append_nil _)
  have grown := grown_directory admitted nameFree idFree
  rw [exec_stat (grown.pathLookupToDentry lookedUp components), foundInode_eq_ok]
  exact node_created_parent

end Found

/-- What `Mkdir` or `Creat` created is found under the same path, unless the path
does not name an entry: then the entry has the empty name, and `Stat` finds the
directory. -/
theorem foundByStat_iff (reached : Reachable sequentialStep FreshId IsInitialStore store)
    (req : CreateRequest) (fresh : store (getInodeKey newId) = none)
    (noTypeBits : req.mode &&& S_IFMT = 0) :
    req.FoundByStat newId store ↔
      NamesEntry req.path ∨ ¬ CanCreate store req.path req.uid req.gid := by
  have idFree : (tree store).node newId = none := by
    simp [tree, fresh]
  rw [CreateRequest.FoundByStat, namesEntry_iff]
  obtain ⟨dir, admitted, nameFree, executed⟩ | ⟨refused, nonzero⟩ := req.exec_program idFree
  · have canCreate : CanCreate store req.path req.uid req.gid := ⟨dir, admitted, nameFree⟩
    rw [executed]
    constructor
    · intro found
      refine .inl fun noName => ?_
      obtain ⟨_, isFound, sameId, -⟩ := found rfl 0
      rw [stat_directory admitted nameFree idFree noName] at isFound
      obtain rfl := Except.ok.inj isFound
      have parentFound := (parentDirectory_eq_ok.mp admitted).2.1
      have stored : dir.2.id = dir.1 := idsStored_of_reachable reached _ _ parentFound
      rw [← show dir.1 = newId from stored.symm.trans sameId] at idFree
      simp [idFree] at parentFound
    · rintro (names | refused) - _
      · exact ⟨req.newInode newId, stat_created admitted nameFree idFree names, rfl,
          req.type_newInode noTypeBits, rfl, rfl⟩
      · exact absurd canCreate refused
  · exact ⟨fun _ => .inr refused, fun _ isZero => absurd isZero nonzero⟩

def sampleStore : Store :=
  ((initThread 0 7 99).exec 0 fun _ => none).2

theorem isInitialStore_sampleStore : IsInitialStore sampleStore :=
  ⟨7, 99, 0, rfl⟩

theorem foundByStat_iff_file :
    CreateRequest.FoundByStat ⟨.regular, "f".toList, 0, 0, 0o644, 7, 99⟩ 1 sampleStore :=
  (foundByStat_iff (.start isInitialStore_sampleStore) _ (by decide) (by decide)).mpr
    (.inl (by decide))

/-- `Mkdir("a")` and `Mkdir("a//")` succeed, but `Stat("a//")` finds the first
directory, with inode 1, instead of the second. -/
theorem not_foundByStat_trailingSlashes :
    ∃ store, Reachable sequentialStep FreshId IsInitialStore store ∧
      store (getInodeKey 2) = none ∧
      ¬ CreateRequest.FoundByStat ⟨.directory, "a//".toList, 0, 0, 0o755, 7, 0⟩ 2 store := by
  obtain ⟨store, reached, fresh, returned, found⟩ :=
    Reachable.exists_of_run sequentialStep FreshId [⟨.mkdir "a".toList 0 0 0o755 7, 1⟩]
      (fun store => store (getInodeKey 2) = none ∧
        ((mkdir "a//".toList 0 0 0o755 7).exec 2 store).1 = 0 ∧
        ((stat "a//".toList 0 0).exec 2 ((mkdir "a//".toList 0 0 0o755 7).exec 2 store).2).1.map
          Inode.id = .ok 1)
      isInitialStore_sampleStore (by decide)
  refine ⟨store, reached, fresh, fun isFound => ?_⟩
  obtain ⟨inode, statFound, isNew, -⟩ := isFound returned 0
  have isOld : (Except.ok inode.id : Except Int UInt64) = .ok 1 :=
    (congrArg (Except.map Inode.id) statFound).symm.trans found
  rw [Except.ok.inj isOld] at isNew
  exact absurd isNew (by decide)

end FuseeFs.Engine
