import FuseeFs.Engine.Creation

/-!
# What operations leave alone

An operation changes one entry of one directory, the inode of this entry and the
`children` field of the directory.  The caller may write the directory and read
the directories above it, what was created can be removed without a trace, and
other paths lead where they led before.
-/

namespace FuseeFs.Engine

open List Option Function Library Library.Store

variable {store after : Store} {newId parentId targetId : UInt64}
variable {parentInode inode : Inode} {path name : List Char} {uid gid : UInt32}
variable {op : Operation}

/-! ## Permission and extent of a change -/

/-- The caller may write the directory that a path without its last name leads to,
and read every directory above it. -/
structure Authorised (store : Store) (path : List Char) (uid gid : UInt32)
    (parentId : UInt64) (parentInode : Inode) : Prop where
  traversed : ∃ components,
    splitPath path = components ++ (if entryName path = [] then [] else [entryName path]) ∧
      Traverses store uid gid components parentId
  found : (tree store).node parentId = some parentInode
  writable : checkWritePermission parentInode uid gid = true

/-- Nothing changes but the entry `name` of a directory, the inode of this entry
and the number of entries of the directory. -/
structure Confined (store after : Store) (parentId : UInt64) (parentInode : Inode)
    (name : List Char) (targetId : UInt64) : Prop where
  linked : (tree store).edge parentId name = some targetId ∨
    (tree after).edge parentId name = some targetId
  frame : ∀ key, key ≠ getInodeKey parentId → key ≠ getDentryKey parentId name →
    key ≠ getInodeKey targetId → after key = store key
  parent : ∃ children,
    (children = parentInode.children + 1 ∨ children = parentInode.children - 1) ∧
      (tree after).node parentId = some { parentInode with children := children }

theorem splitPath_eq_append_entryName (path : List Char) :
    splitPath path = splitPath (separateLastComponent (formatPath path)).1 ++
      if entryName path = [] then [] else [entryName path] := by
  rw [← splitPath_formatPath path]
  exact splitPath_separateLastComponent (formatPath path)

theorem authorised_of_parentDirectory
    (admitted : parentDirectory store path uid gid = .ok (parentId, parentInode)) :
    Authorised store path uid gid parentId parentInode := by
  obtain ⟨lookedUp, found, -, writable⟩ := parentDirectory_eq_ok.mp admitted
  exact ⟨⟨_, splitPath_eq_append_entryName path, traverses_of_pathLookupToDentry lookedUp⟩, found,
    writable⟩

theorem confined_created :
    Confined store (created store parentId parentInode name newId inode) parentId
      parentInode name newId := by
  refine ⟨.inr edge_created, ?_, ⟨_, .inl rfl, node_created_parent⟩⟩
  intro key notParent notEntry notTarget
  simp [created, notParent, notEntry, notTarget]

theorem confined_removed (linked : (tree store).edge parentId name = some targetId) :
    Confined store (removed store parentId parentInode name targetId) parentId
      parentInode name targetId := by
  refine ⟨.inl linked, ?_, ⟨_, .inr rfl, ?_⟩⟩
  · intro key notParent notEntry notTarget
    simp [removed, notParent, notEntry, notTarget]
  · rw [tree_removed]
    exact LinkedTree.relink_node_parent

/-- A change takes place in the directory that the path leads to, and no other
entry leads to the inode that comes or goes. -/
theorem Change.confined (change : Change op newId store after)
    (consistent : Consistent store) (idFree : (tree store).node newId = none) :
    after = store ∨ ∃ parentId parentInode targetId,
      parentDirectory store op.path op.caller.1 op.caller.2 = .ok (parentId, parentInode) ∧
      Confined store after parentId parentInode (entryName op.path) targetId ∧
      targetId ≠ kRootInodeId ∧
      ∀ pid entry, (tree store).edge pid entry = some targetId →
        pid = parentId ∧ entry = entryName op.path := by
  cases change with
  | unchanged => exact .inl rfl
  | create admitted nameFree sameId empty =>
    refine .inr ⟨_, _, newId, admitted, confined_created, ?_, ?_⟩
    · rintro rfl
      obtain ⟨root, found, -⟩ := consistent.root_branch
      have absent : some root = none := found.symm.trans idFree
      cases absent
    · intro pid entry linked
      obtain ⟨_, found⟩ := consistent.target_exists _ _ _ linked
      rw [idFree] at found
      cases found
  | remove admitted linked leaf =>
    refine .inr ⟨_, _, _, admitted, confined_removed linked, ?_, ?_⟩
    · rintro rfl
      exact consistent.target_ne_root _ _ linked
    · intro pid entry otherLinked
      exact consistent.edge_unique _ _ _ _ _ otherLinked linked

/-- If an operation changes the store, then its caller may write the parent
directory and read the directories above it, and only the entry, its inode and
the `children` field of the parent have changed. -/
theorem authorised_and_confined (op : Operation) (consistent : Consistent store)
    (fresh : store (getInodeKey newId) = none) (changed : (op.program.exec newId store).2 ≠ store) :
    ∃ parentId parentInode targetId,
      Authorised store op.path op.caller.1 op.caller.2 parentId
        parentInode ∧
      Confined store (op.program.exec newId store).2 parentId parentInode
        (entryName op.path) targetId := by
  have idFree : (tree store).node newId = none := by
    simp [tree, fresh]
  obtain same | ⟨parentId, parentInode, targetId, admitted, confined, -⟩ :=
    (change_operation op consistent idFree).confined consistent idFree
  · exact absurd same changed
  · exact ⟨parentId, parentInode, targetId, authorised_of_parentDirectory admitted, confined⟩

theorem authorised_and_confined_mkdir :
    ∃ parentId parentInode targetId,
      Authorised sampleStore "/a".toList 0 0 parentId parentInode ∧
      Confined sampleStore ((mkdir "/a".toList 0 0 0o755 7).exec 1 sampleStore).2 parentId
        parentInode (entryName "/a".toList) targetId :=
  authorised_and_confined (.mkdir "/a".toList 0 0 0o755 7)
    (consistent_of_isInitialStore isInitialStore_sampleStore) (by decide)
    fun same => absurd (congrFun same (getInodeKey 1)) (by decide)

/-! ## Other paths -/

/-- A change seen from a path that does not lead to its entry. -/
structure Elsewhere (store after : Store) (parentId targetId : UInt64)
    (parentComponents : List (List Char)) (name : List Char) (components : List (List Char)) :
    Prop where
  consistent : Consistent store
  parentLed : (tree store).walk kRootInodeId parentComponents = some parentId
  parentNode : Option.Rel SameButChildren ((tree store).node parentId)
    ((tree after).node parentId)
  frame : ∀ key, key ≠ getInodeKey parentId → key ≠ getDentryKey parentId name →
    key ≠ getInodeKey targetId → after key = store key
  targetNotRoot : targetId ≠ kRootInodeId
  targetLinked : ∀ pid entry, (tree store).edge pid entry = some targetId →
    pid = parentId ∧ entry = name
  notBelow : ¬ parentComponents ++ [name] <+: components

namespace Elsewhere

variable {parentComponents components : List (List Char)}
variable (elsewhere : Elsewhere store after parentId targetId parentComponents name
  components)
include elsewhere

variable {front : List (List Char)}

theorem entry_ne {pid : UInt64} {entry : List Char}
    (led : (tree store).walk kRootInodeId front = some pid)
    (shown : front ++ [entry] <+: components) : ¬ (pid = parentId ∧ entry = name) := by
  rintro ⟨rfl, rfl⟩
  apply elsewhere.notBelow
  rw [← elsewhere.consistent.walk_unique led elsewhere.parentLed]
  exact shown

variable {id : UInt64}

theorem walk_ne (led : (tree store).walk kRootInodeId front = some id)
    (shown : front <+: components) : id ≠ targetId := by
  rintro rfl
  rcases eq_nil_or_concat' front with rfl | ⟨above, entry, rfl⟩
  · exact elsewhere.targetNotRoot (some.inj led).symm
  · obtain ⟨_, aboveLed, linked⟩ := LinkedTree.walk_concat.mp led
    exact elsewhere.entry_ne aboveLed shown (elsewhere.targetLinked _ _ linked)

theorem node_eq (notParent : id ≠ parentId) (notTarget : id ≠ targetId) :
    after (getInodeKey id) = store (getInodeKey id) := by
  apply elsewhere.frame
  · simpa using notParent
  · simp
  · simpa using notTarget

theorem node_rel (notTarget : id ≠ targetId) :
    Option.Rel SameButChildren ((tree store).node id) ((tree after).node id) := by
  by_cases isParent : id = parentId
  · rw [isParent]
    exact elsewhere.parentNode
  · rw [show (tree after).node id = (tree store).node id from
      congrArg (Option.map decodeInode) (elsewhere.node_eq isParent notTarget)]
    exact SameButChildren.rel_refl _

theorem alike (uid gid : UInt32) :
    Alike store after uid gid fun pid entry rest =>
      ∃ front, (tree store).walk kRootInodeId front = some pid ∧
        components = front ++ entry :: rest := by
  have isPrefix {front rest : List (List Char)} {entry : List Char}
      (shown : components = front ++ entry :: rest) : front ++ [entry] <+: components :=
    ⟨rest, by rw [shown, append_assoc, singleton_append]⟩
  constructor
  · rintro pid entry rest ⟨front, led, shown⟩
    have ne := elsewhere.entry_ne led (isPrefix shown)
    apply elsewhere.frame
    · simp
    · simpa using ne
    · simp
  · rintro pid entry next rest id ⟨front, led, shown⟩ linked
    apply elsewhere.node_rel
    exact elsewhere.walk_ne (LinkedTree.walk_concat.mpr ⟨pid, led, linked⟩) (isPrefix shown)
  · rintro pid entry _ _ _ _ ⟨front, led, shown⟩ linked - -
    refine ⟨front ++ [entry], LinkedTree.walk_concat.mpr ⟨pid, led, linked⟩, ?_⟩
    rw [shown, append_assoc, singleton_append]

theorem pathLookupToDentry (shown : splitPath path = components) :
    ((pathLookupToDentry path uid gid).exec newId after).1 =
      ((Engine.pathLookupToDentry path uid gid).exec newId store).1 := by
  apply (elsewhere.alike uid gid).pathLookupToDentry
  · exact elsewhere.node_rel elsewhere.targetNotRoot.symm
  · intro first rest inode split _ _
    exact ⟨[], rfl, shown.symm.trans split⟩

theorem stat (shown : splitPath path = components) :
    ((stat path uid gid).exec newId after).1 = ((Engine.stat path uid gid).exec newId store).1 ∨
      components = parentComponents ∧ ∃ inode other,
        ((Engine.stat path uid gid).exec newId store).1 = .ok inode ∧
        ((Engine.stat path uid gid).exec newId after).1 = .ok other ∧
        SameButChildren inode other := by
  have same : ((Engine.pathLookupToDentry path uid gid).exec newId after).1 = _ :=
    elsewhere.pathLookupToDentry shown
  cases lookedUp : ((Engine.pathLookupToDentry path uid gid).exec newId store).1 with
  | error ret =>
    left
    rw [exec_stat_error lookedUp, exec_stat_error (same.trans lookedUp)]
  | ok id =>
    have led := (traverses_of_pathLookupToDentry lookedUp).led
    rw [shown] at led
    have notTarget := elsewhere.walk_ne led List.prefix_rfl
    rw [exec_stat lookedUp, exec_stat (same.trans lookedUp)]
    by_cases isParent : id = parentId
    · obtain ⟨_, before, later⟩ | ⟨inode, other, before, later, alike⟩ :=
        foundInode_cases (elsewhere.node_rel notTarget)
      · left
        rw [before, later]
      · right
        rw [isParent] at led
        exact ⟨elsewhere.consistent.walk_unique led elsewhere.parentLed, inode, other, before,
          later, alike⟩
    · left
      rw [elsewhere.node_eq isParent notTarget]

end Elsewhere

/-- After an operation on a path every other path, unless it leads through this
one, has the code and the inode that it had before; only the `children` field of
the parent directory may differ. -/
theorem stat_other_path (op : Operation) (consistent : Consistent store)
    (fresh : store (getInodeKey newId) = none) (other : List Char)
    (notBelow : ¬ splitPath op.path <+: splitPath other) (uid gid : UInt32) (otherId : UInt64) :
    ((stat other uid gid).exec otherId (op.program.exec newId store).2).1 =
        ((stat other uid gid).exec otherId store).1 ∨
      splitPath other = (splitPath op.path).dropLast ∧ ∃ inode later,
        ((stat other uid gid).exec otherId store).1 = .ok inode ∧
        ((stat other uid gid).exec otherId (op.program.exec newId store).2).1 = .ok later ∧
        SameButChildren inode later := by
  have idFree : (tree store).node newId = none := by
    simp [tree, fresh]
  obtain same | ⟨parentId, _, targetId, admitted, confined, notRoot, unique⟩ :=
    (change_operation op consistent idFree).confined consistent idFree
  · left
    rw [same]
  obtain ⟨⟨components, split, traverses⟩, found, -⟩ := authorised_of_parentDirectory admitted
  obtain ⟨_, -, later⟩ := confined.parent
  have parentNode : Option.Rel SameButChildren ((tree store).node parentId)
      ((tree (op.program.exec newId store).2).node parentId) := by
    rw [found, later]
    exact .some rfl
  have notAbove : entryName op.path = [] → ¬ components <+: splitPath other := by
    intro noName isPrefix
    rw [split, if_pos noName, append_nil] at notBelow
    exact notBelow isPrefix
  have elsewhere : Elsewhere store (op.program.exec newId store).2 parentId
      targetId components (entryName op.path) (splitPath other) := by
    refine ⟨consistent, traverses.led, parentNode, confined.frame, notRoot, unique, ?_⟩
    intro below
    by_cases noName : entryName op.path = []
    · exact notAbove noName ((List.prefix_append _ _).trans below)
    · rw [split, if_neg noName] at notBelow
      exact notBelow below
  refine (elsewhere.stat rfl).imp_right ?_
  rintro ⟨isParent, alike⟩
  refine ⟨?_, alike⟩
  have named : entryName op.path ≠ [] := by
    intro noName
    exact notAbove noName (isParent ▸ List.prefix_rfl)
  rw [split, if_neg named, dropLast_concat, isParent]

/-- A new directory changes what `Stat` says about the root by its `children`
field at most. -/
theorem stat_other_path_root :
    ((stat "/".toList 5 5).exec 0 ((mkdir "/a".toList 0 0 0o755 7).exec 1 sampleStore).2).1 =
        ((stat "/".toList 5 5).exec 0 sampleStore).1 ∨
      splitPath "/".toList = (splitPath "/a".toList).dropLast ∧ ∃ inode later,
        ((stat "/".toList 5 5).exec 0 sampleStore).1 = .ok inode ∧
        ((stat "/".toList 5 5).exec 0
          ((mkdir "/a".toList 0 0 0o755 7).exec 1 sampleStore).2).1 = .ok later ∧
        SameButChildren inode later :=
  stat_other_path (.mkdir "/a".toList 0 0 0o755 7)
    (consistent_of_isInitialStore isInitialStore_sampleStore) (by decide) "/".toList (by decide) 5 5 0

/-! ## Values of the right size -/

/-- The values in a store have the sizes of the types through which they are
read. -/
structure WellTyped (store : Store) : Prop where
  inode : ∀ id value, store (getInodeKey id) = some value → value.length = sizeofInode
  dentry : ∀ pid name value, store (getDentryKey pid name) = some value → value.length = sizeofId

abbrev TypedStore : Type := { store : Store // WellTyped store }

theorem length_encodeInode (inode : Inode) : (encodeInode inode).length = sizeofInode := by
  apply (encodeInode_decodeInode_eq_iff _).mp
  rw [decodeInode_encodeInode]

theorem length_encodeId (id : UInt64) : (encodeId id).length = sizeofId := by
  apply (encodeId_decodeId_eq_iff _).mp
  rw [decodeId_encodeId]

variable {value : Option (List UInt8)}

theorem WellTyped.update_inode (typed : WellTyped store) {id : UInt64}
    (size : ∀ bytes ∈ value, bytes.length = sizeofInode) :
    WellTyped (update store (getInodeKey id) value) := by
  constructor
  · intro other bytes stored
    by_cases same : other = id
    · rw [same, update_self] at stored
      exact size bytes stored
    · rw [update_of_ne (by simpa using same)] at stored
      exact typed.inode other bytes stored
  · intro pid name bytes stored
    rw [update_of_ne (by simp)] at stored
    exact typed.dentry pid name bytes stored

theorem WellTyped.update_dentry (typed : WellTyped store) {pid : UInt64}
    (size : ∀ bytes ∈ value, bytes.length = sizeofId) :
    WellTyped (update store (getDentryKey pid name) value) := by
  constructor
  · intro id bytes stored
    rw [update_of_ne (by simp)] at stored
    exact typed.inode id bytes stored
  · intro other entry bytes stored
    by_cases same : other = pid ∧ entry = name
    · rw [same.1, same.2, update_self] at stored
      exact size bytes stored
    · rw [update_of_ne (by simpa using same)] at stored
      exact typed.dentry other entry bytes stored

theorem WellTyped.change (typed : WellTyped store) (change : Change op newId store after) :
    WellTyped after := by
  have inodeSize (inode : Inode) : ∀ bytes ∈ some (encodeInode inode),
      bytes.length = sizeofInode := by
    rintro bytes ⟨⟩
    exact length_encodeInode inode
  have idSize (id : UInt64) : ∀ bytes ∈ some (encodeId id), bytes.length = sizeofId := by
    rintro _ ⟨⟩
    exact length_encodeId id
  cases change with
  | unchanged => exact typed
  | create admitted nameFree sameId empty =>
    exact ((typed.update_inode (inodeSize _)).update_dentry (idSize _)).update_inode (inodeSize _)
  | remove admitted linked leaf =>
    exact ((typed.update_inode (by simp)).update_dentry (by simp)).update_inode (inodeSize _)

theorem wellTyped_of_isInitialStore (isInitial : IsInitialStore store) : WellTyped store := by
  obtain ⟨_, _, _, rfl⟩ := isInitial
  have empty : WellTyped fun _ => none := ⟨by simp, by simp⟩
  apply empty.update_inode
  rintro _ ⟨⟩
  exact length_encodeInode _

theorem wellTyped_of_reachable (reached : Reachable sequentialStep FreshId IsInitialStore store) :
    WellTyped store := by
  have start : ∀ start, IsInitialStore start → Consistent start ∧ WellTyped start :=
    fun _ isInitial =>
      ⟨consistent_of_isInitialStore isInitial, wellTyped_of_isInitialStore isInitial⟩
  refine (reached.invariant start ?_).2
  rintro before req _ ⟨consistent, typed⟩ fresh taken
  obtain rfl := some.inj taken
  have idFree : (tree before).node req.newId = none := by
    simp [tree, show before (getInodeKey req.newId) = none from fresh]
  have change := change_operation req.operation consistent idFree
  exact ⟨change.effect.consistent consistent idFree, typed.change change⟩

theorem wellTyped_of_reachable_makeAndRemove :
    ∃ store, WellTyped store ∧ (tree store).edge 1 ['f'] = some 3 := by
  have isInitial : IsInitialStore ((initThread 0 7 99).exec 0 fun _ => none).2 := ⟨7, 99, 0, rfl⟩
  obtain ⟨store, reached, linked⟩ := Reachable.exists_of_run sequentialStep FreshId
    makeAndRemove (fun store => (tree store).edge 1 ['f'] = some 3) isInitial (by decide)
  exact ⟨store, wellTyped_of_reachable reached, linked⟩

/-! ## Removal of what was created -/

def CreateRequest.remove (req : CreateRequest) : EngineProgram Int :=
  match req.fileType with
  | .directory => rmdir req.path req.uid req.gid
  | .regular => unlink req.path req.uid req.gid

section Cancel

variable (parentFound : (tree store).node parentId = some parentInode)
variable (nameFree : store (getDentryKey parentId name) = none)
variable (idFree : store (getInodeKey newId) = none)
include parentFound nameFree idFree

theorem lookup_created
    (lookedUp : ((pathLookupToDentry path uid gid).exec 0 store).1 = .ok targetId) :
    ((pathLookupToDentry path uid gid).exec 0
      (created store parentId parentInode name newId inode)).1 = .ok targetId := by
  have notNew {id : UInt64} {other : Inode} (found : (tree store).node id = some other) :
      id ≠ newId := by
    rintro rfl
    simp [tree, idFree] at found
  have nodeRel {id : UInt64} {other : Inode} (found : (tree store).node id = some other) :
      Option.Rel SameButChildren ((tree store).node id)
        ((tree (created store parentId parentInode name newId inode)).node id) := by
    by_cases isParent : id = parentId
    · rw [isParent, parentFound, node_created_parent]
      exact .some rfl
    · rw [tree_created, LinkedTree.attach, LinkedTree.relink_node_of_ne _ isParent (notNew found)]
      exact SameButChildren.rel_refl _
  have alike : Alike store (created store parentId parentInode name newId inode) uid gid
      fun pid entry rest => ∃ id, ((lookupComponents uid gid pid entry rest).exec 0 store).1 =
        .ok id := by
    constructor
    · rintro pid entry rest ⟨id, further⟩
      have used : store (getDentryKey pid entry) ≠ none := by
        obtain ⟨next, linked, -⟩ := LinkedTree.walk_cons.mp (readable_of_lookupComponents further).1
        intro absent
        simp [tree, absent] at linked
      have ne : ¬ (pid = parentId ∧ entry = name) := by
        rintro ⟨rfl, rfl⟩
        exact used nameFree
      simp [created, ne]
    · rintro pid entry next rest id ⟨_, further⟩ linked
      obtain ⟨cur, other, curLinked, found, -⟩ := exec_lookupComponents_cons.mp further
      obtain rfl := some.inj (linked.symm.trans curLinked)
      exact nodeRel found
    · rintro _ _ _ rest _ _ ⟨last, further⟩ linked - -
      obtain ⟨_, -, curLinked, -, -, -, rest⟩ := exec_lookupComponents_cons.mp further
      obtain rfl := some.inj (linked.symm.trans curLinked)
      exact ⟨last, rest⟩
  rw [← lookedUp]
  cases components : splitPath path with
  | nil => rw [exec_pathLookupToDentry_nil components, exec_pathLookupToDentry_nil components]
  | cons first rest =>
    obtain ⟨_, rootFound, -, further⟩ := (exec_pathLookupToDentry_cons components).mp lookedUp
    apply alike.pathLookupToDentry (nodeRel rootFound)
    intro otherFirst otherRest _ split _ _
    obtain ⟨rfl, rfl⟩ := List.cons.inj (components.symm.trans split)
    exact ⟨_, further⟩

omit parentFound in
theorem parentDirectory_created
    (admitted : parentDirectory store path uid gid = .ok (parentId, parentInode)) :
    parentDirectory (created store parentId parentInode name newId inode) path uid gid =
      .ok (parentId, { parentInode with children := parentInode.children + 1 }) := by
  obtain ⟨lookedUp, parentFound, dir, writable⟩ := parentDirectory_eq_ok.mp admitted
  apply parentDirectory_eq_ok.mpr
  exact ⟨lookup_created parentFound nameFree idFree lookedUp, node_created_parent, dir, writable⟩

/-- Removing the entry restores the three keys, if the inode of the directory had
its size. -/
theorem removed_created
    (size : ∀ value, store (getInodeKey parentId) = some value → value.length = sizeofInode) :
    removed (created store parentId parentInode name newId inode) parentId
      { parentInode with children := parentInode.children + 1 } name newId = store := by
  have parentStored : store (getInodeKey parentId) = some (encodeInode parentInode) := by
    obtain ⟨value, stored, rfl⟩ := map_eq_some_iff.mp parentFound
    rw [stored, (encodeInode_decodeInode_eq_iff value).mpr (size value stored)]
  have restored : parentInode.children + 1 - 1 = parentInode.children := by
    rw [UInt64.add_sub_cancel]
  funext key
  by_cases isParent : key = getInodeKey parentId
  · rw [isParent, parentStored, removed, update_self, restored]
  by_cases isEntry : key = getDentryKey parentId name
  · rw [isEntry, nameFree]
    simp [removed]
  by_cases isNew : key = getInodeKey newId
  · rw [isNew] at isParent ⊢
    rw [idFree]
    simp [removed, isParent]
  · simp [removed, created, isParent, isEntry, isNew]

end Cancel

theorem CreateRequest.exec_remove (req : CreateRequest)
    (admitted : parentDirectory store req.path req.uid req.gid = .ok (parentId, parentInode))
    (linked : (tree store).edge parentId (entryName req.path) = some targetId)
    (found : (tree store).node targetId = some inode)
    (type : isDir inode.mode = true ↔ req.fileType = .directory)
    (empty : req.fileType = .directory → inode.children = 0) (distinct : targetId ≠ parentId) :
    req.remove.exec newId store =
      (0, removed store parentId parentInode (entryName req.path) targetId) := by
  have parentFound := (parentDirectory_eq_ok.mp admitted).2.1
  cases sort : req.fileType with
  | directory =>
    have isDirectory : isDir inode.mode = true := type.mpr sort
    simp only [remove, sort, rmdir, exec_withParent, admitted, exec_withTarget,
      foundDentry_eq_ok.mpr linked, foundInode_eq_ok.mpr found]
    rw [if_neg (by simp [isDirectory]), if_neg (by simp [empty sort]),
      exec_removeEntry _ _ parentFound distinct, exec_unlockAndReturn]
  | regular =>
    have isFile : ¬ isDir inode.mode = true := by
      rw [type, sort]
      exact FileType.noConfusion
    simp only [remove, sort, unlink, exec_withParent, admitted, exec_withTarget,
      foundDentry_eq_ok.mpr linked, foundInode_eq_ok.mpr found]
    rw [if_neg isFile, exec_removeEntry _ _ parentFound distinct, exec_unlockAndReturn]

/-- `Rmdir` after a successful `Mkdir`, and `Unlink` after a successful `Creat`, of
the same path by the same caller succeed and leave the store as it was before. -/
theorem remove_cancels_create (store : TypedStore) (req : CreateRequest)
    (fresh : store.1 (getInodeKey newId) = none) (noTypeBits : req.mode &&& S_IFMT = 0)
    (returned : (req.program.exec newId store.1).1 = 0) (otherId : UInt64) :
    req.remove.exec otherId (req.program.exec newId store.1).2 = (0, store.1) := by
  have idFree : (tree store.1).node newId = none := by
    simp [tree, fresh]
  obtain ⟨⟨parentId, _⟩, admitted, nameFree, executed⟩ | ⟨-, nonzero⟩ := req.exec_program idFree
  · have parentFound := (parentDirectory_eq_ok.mp admitted).2.1
    have distinct : newId ≠ parentId := by
      rintro rfl
      simp [idFree] at parentFound
    have type : isDir (req.newInode newId).mode = true ↔ req.fileType = .directory := by
      rw [isDir, req.type_newInode noTypeBits, decide_eq_true_eq]
      cases req.fileType <;> decide
    have empty : req.fileType = .directory → (req.newInode newId).children = 0 :=
      fun isDirectory => if_pos isDirectory
    rw [executed, req.exec_remove (parentDirectory_created nameFree fresh admitted)
      edge_created (node_created_new distinct) type empty distinct]
    congr 1
    exact removed_created parentFound nameFree fresh (store.2.inode parentId)
  · exact absurd returned nonzero

theorem remove_cancels_create_directory :
    (rmdir "//a/".toList 0 0).exec 2 ((mkdir "//a/".toList 0 0 0o755 7).exec 1 sampleStore).2 =
      (0, sampleStore) :=
  remove_cancels_create ⟨sampleStore, wellTyped_of_isInitialStore isInitialStore_sampleStore⟩
    ⟨.directory, "//a/".toList, 0, 0, 0o755, 7, 0⟩ (by decide) (by decide) (by decide) 2

end FuseeFs.Engine
