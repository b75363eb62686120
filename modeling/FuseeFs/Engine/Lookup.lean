import FuseeFs.Engine.Namespace

/-!
# Lookups

What `PathLookupToDentry` and `Stat` find, and what they depend on.  The lookup
checks the read permission of every directory before it searches an entry in it.
-/

namespace FuseeFs.Engine

open Library Library.Store Program LinkedTree

variable {store after : Store} {newId parentId targetId : UInt64}
variable {path name : List Char} {uid gid : UInt32}

theorem exec_lookupComponents_nil :
    ((lookupComponents uid gid parentId name []).exec newId store).1 = .ok targetId ↔
      (tree store).edge parentId name = some targetId :=
  foundDentry_eq_ok

variable {rest : List (List Char)}

theorem exec_lookupComponents {next : List Char} :
    ((lookupComponents uid gid parentId name (next :: rest)).exec newId store).1 =
      match foundDentry (store (getDentryKey parentId name)) with
      | .error ret => .error ret
      | .ok curInodeId =>
        match foundInode (store (getInodeKey curInodeId)) with
        | .error ret => .error ret
        | .ok inode =>
          if !checkReadPermission inode uid gid then .error (-EACCES)
          else if !isDir inode.mode then .error (-ENOTDIR)
          else ((lookupComponents uid gid curInodeId next rest).exec newId store).1 := by
  simp only [lookupComponents, getDentryByParentIdAndName, call_bind, done_bind, exec_search]
  cases foundDentry (store (getDentryKey parentId name)) with
  | error ret => rfl
  | ok curInodeId =>
    simp only [getInodeById, call_bind, done_bind, exec_search]
    cases foundInode (store (getInodeKey curInodeId)) with
    | error ret => rfl
    | ok inode =>
      dsimp only
      split_ifs <;> rfl

theorem exec_lookupComponents_cons {next : List Char} :
    ((lookupComponents uid gid parentId name (next :: rest)).exec newId store).1 =
        .ok targetId ↔
      ∃ curInodeId inode, (tree store).edge parentId name = some curInodeId ∧
        (tree store).node curInodeId = some inode ∧
        checkReadPermission inode uid gid = true ∧ isDir inode.mode = true ∧
        ((lookupComponents uid gid curInodeId next rest).exec newId store).1 = .ok targetId := by
  simp only [exec_lookupComponents, ← foundDentry_eq_ok, ← foundInode_eq_ok]
  cases foundDentry (store (getDentryKey parentId name)) with
  | error ret => simp
  | ok curInodeId =>
    simp only [Except.ok.injEq, exists_and_left, exists_eq_left']
    cases foundInode (store (getInodeKey curInodeId)) with
    | error ret => simp
    | ok inode =>
      simp only [Except.ok.injEq, exists_eq_left']
      by_cases readable : checkReadPermission inode uid gid = true
      · by_cases dir : isDir inode.mode = true <;> simp [readable, dir]
      · simp [readable]

theorem exec_pathLookupToDentry {first : List Char} (components : splitPath path = first :: rest) :
    ((pathLookupToDentry path uid gid).exec newId store).1 =
      match foundInode (store (getInodeKey kRootInodeId)) with
      | .error ret => .error ret
      | .ok root =>
        if !checkReadPermission root uid gid then .error (-EACCES)
        else ((lookupComponents uid gid kRootInodeId first rest).exec newId store).1 := by
  rw [pathLookupToDentry, splitPath_formatPath, components]
  simp only [getInodeById, call_bind, done_bind, exec_search]
  cases foundInode (store (getInodeKey kRootInodeId)) with
  | error ret => rfl
  | ok root =>
    dsimp only
    split_ifs <;> rfl

theorem exec_pathLookupToDentry_cons {first : List Char}
    (components : splitPath path = first :: rest) :
    ((pathLookupToDentry path uid gid).exec newId store).1 = .ok targetId ↔
      ∃ root, (tree store).node kRootInodeId = some root ∧
        checkReadPermission root uid gid = true ∧
        ((lookupComponents uid gid kRootInodeId first rest).exec newId store).1 = .ok targetId := by
  simp only [exec_pathLookupToDentry components, ← foundInode_eq_ok]
  cases foundInode (store (getInodeKey kRootInodeId)) with
  | error ret => simp
  | ok root =>
    simp only [Except.ok.injEq, exists_eq_left']
    by_cases readable : checkReadPermission root uid gid = true <;> simp [readable]

theorem exec_pathLookupToDentry_nil (components : splitPath path = []) :
    ((pathLookupToDentry path uid gid).exec newId store).1 = .ok kRootInodeId := by
  rw [pathLookupToDentry, splitPath_formatPath, components]
  rfl

variable {value : Option (List UInt8)} {ret : Int}

theorem foundInode_error (failed : foundInode value = .error ret) : ret ≠ 0 := by
  cases value with
  | none =>
    obtain rfl := Except.error.inj failed
    decide
  | some value => cases failed

theorem foundDentry_error (failed : foundDentry value = .error ret) : ret ≠ 0 := by
  cases value with
  | none =>
    obtain rfl := Except.error.inj failed
    decide
  | some value => cases failed

theorem lookupComponents_error
    (failed : ((lookupComponents uid gid parentId name rest).exec newId store).1 = .error ret)
    : ret ≠ 0 := by
  induction rest generalizing parentId name with
  | nil => exact foundDentry_error failed
  | cons next rest ih =>
    rw [exec_lookupComponents] at failed
    cases linked : foundDentry (store (getDentryKey parentId name)) with
    | error code =>
      simp only [linked] at failed
      obtain rfl := Except.error.inj failed
      exact foundDentry_error linked
    | ok curInodeId =>
      simp only [linked] at failed
      cases found : foundInode (store (getInodeKey curInodeId)) with
      | error code =>
        simp only [found] at failed
        obtain rfl := Except.error.inj failed
        exact foundInode_error found
      | ok inode =>
        simp only [found] at failed
        split_ifs at failed
        · obtain rfl := Except.error.inj failed
          decide
        · obtain rfl := Except.error.inj failed
          decide
        · exact ih failed

theorem pathLookupToDentry_error
    (failed : ((pathLookupToDentry path uid gid).exec newId store).1 = .error ret) : ret ≠ 0 := by
  cases components : splitPath path with
  | nil =>
    rw [exec_pathLookupToDentry_nil components] at failed
    cases failed
  | cons first rest =>
    rw [exec_pathLookupToDentry components] at failed
    cases found : foundInode (store (getInodeKey kRootInodeId)) with
    | error code =>
      simp only [found] at failed
      obtain rfl := Except.error.inj failed
      exact foundInode_error found
    | ok root =>
      simp only [found] at failed
      split_ifs at failed
      · obtain rfl := Except.error.inj failed
        decide
      · exact lookupComponents_error failed

theorem exec_stat (lookedUp : ((pathLookupToDentry path uid gid).exec newId store).1 =
    .ok targetId) :
    ((stat path uid gid).exec newId store).1 = foundInode (store (getInodeKey targetId)) := by
  rw [stat, exec_bind, (pathLookupToDentry_reads path uid gid).exec_snd, lookedUp]
  rfl

theorem exec_stat_error
    (failed : ((pathLookupToDentry path uid gid).exec newId store).1 = .error ret) :
    ((stat path uid gid).exec newId store).1 = .error ret := by
  rw [stat, exec_bind, failed]
  rfl

/-- The components lead from the root to an inode, and the caller may read every
directory above it. -/
structure Traverses (store : Store) (uid gid : UInt32) (components : List (List Char))
    (id : UInt64) : Prop where
  led : (tree store).walk kRootInodeId components = some id
  readable : ∀ front, front <+: components → front ≠ components →
    ∃ above inode, (tree store).walk kRootInodeId front = some above ∧
      (tree store).node above = some inode ∧ checkReadPermission inode uid gid = true

theorem readable_of_lookupComponents
    (lookedUp : ((lookupComponents uid gid parentId name rest).exec newId store).1 = .ok targetId) :
    (tree store).walk parentId (name :: rest) = some targetId ∧
      ∀ front, front <+: rest → front ≠ rest →
        ∃ above inode, (tree store).walk parentId (name :: front) = some above ∧
          (tree store).node above = some inode ∧ checkReadPermission inode uid gid = true := by
  induction rest generalizing parentId name with
  | nil =>
    rw [exec_lookupComponents_nil] at lookedUp
    refine ⟨walk_cons.mpr ⟨targetId, lookedUp, rfl⟩, fun front isPrefix proper => ?_⟩
    exact absurd (List.prefix_nil.mp isPrefix) proper
  | cons next rest ih =>
    rw [exec_lookupComponents_cons] at lookedUp
    obtain ⟨curInodeId, inode, linked, found, allowed, -, further⟩ := lookedUp
    obtain ⟨led, readable⟩ := ih further
    refine ⟨walk_cons.mpr ⟨curInodeId, linked, led⟩, fun front isPrefix proper => ?_⟩
    cases front with
    | nil => exact ⟨curInodeId, inode, walk_cons.mpr ⟨curInodeId, linked, rfl⟩, found, allowed⟩
    | cons first front =>
      obtain ⟨rfl, restPrefix⟩ := List.cons_prefix_cons.mp isPrefix
      have ne : front ≠ rest := fun same => proper (congrArg _ same)
      obtain ⟨above, aboveInode, aboveLed, aboveFound⟩ := readable front restPrefix ne
      exact ⟨above, aboveInode, walk_cons.mpr ⟨curInodeId, linked, aboveLed⟩, aboveFound⟩

theorem traverses_of_pathLookupToDentry
    (lookedUp : ((pathLookupToDentry path uid gid).exec newId store).1 = .ok targetId) :
    Traverses store uid gid (splitPath path) targetId := by
  cases components : splitPath path with
  | nil =>
    rw [exec_pathLookupToDentry_nil components] at lookedUp
    refine ⟨congrArg some (Except.ok.inj lookedUp), fun front isPrefix proper => ?_⟩
    exact absurd (List.prefix_nil.mp isPrefix) proper
  | cons first rest =>
    rw [exec_pathLookupToDentry_cons components] at lookedUp
    obtain ⟨root, found, allowed, further⟩ := lookedUp
    obtain ⟨led, readable⟩ := readable_of_lookupComponents further
    refine ⟨led, fun front isPrefix proper => ?_⟩
    cases front with
    | nil => exact ⟨kRootInodeId, root, rfl, found, allowed⟩
    | cons name front =>
      obtain ⟨rfl, restPrefix⟩ := List.cons_prefix_cons.mp isPrefix
      exact readable front restPrefix fun same => proper (congrArg _ same)

def SameButChildren (inode other : Inode) : Prop :=
  other = { inode with children := other.children }

theorem SameButChildren.refl (inode : Inode) : SameButChildren inode inode :=
  rfl

theorem SameButChildren.rel_refl (found : Option Inode) :
    Option.Rel SameButChildren found found := by
  cases found with
  | none => exact .none
  | some inode => exact .some (.refl inode)

theorem SameButChildren.checkReadPermission {inode other : Inode}
    (same : SameButChildren inode other) :
    checkReadPermission other uid gid = checkReadPermission inode uid gid := by
  rw [same]
  rfl

theorem SameButChildren.isDir {inode other : Inode} (same : SameButChildren inode other) :
    isDir other.mode = isDir inode.mode := by
  rw [same]

/-- Two stores that look alike to a lookup at the places that it visits: a
directory, the name it searches there and the components that follow. -/
structure Alike (store after : Store) (uid gid : UInt32)
    (Visits : UInt64 → List Char → List (List Char) → Prop) : Prop where
  entry : ∀ {pid name rest}, Visits pid name rest →
    after (getDentryKey pid name) = store (getDentryKey pid name)
  inode : ∀ {pid name next rest id}, Visits pid name (next :: rest) →
    (tree store).edge pid name = some id →
    Option.Rel SameButChildren ((tree store).node id) ((tree after).node id)
  further : ∀ {pid name next rest id inode}, Visits pid name (next :: rest) →
    (tree store).edge pid name = some id → (tree store).node id = some inode →
    checkReadPermission inode uid gid = true → Visits id next rest

theorem foundInode_cases {id : UInt64}
    (same : Option.Rel SameButChildren ((tree store).node id) ((tree after).node id)) :
    (∃ ret, foundInode (store (getInodeKey id)) = .error ret ∧
      foundInode (after (getInodeKey id)) = .error ret) ∨
    ∃ inode other, foundInode (store (getInodeKey id)) = .ok inode ∧
      foundInode (after (getInodeKey id)) = .ok other ∧ SameButChildren inode other := by
  rw [tree, tree] at same
  cases before : store (getInodeKey id) with
  | none =>
    cases later : after (getInodeKey id) with
    | none => exact .inl ⟨-ENOENT, rfl, rfl⟩
    | some value =>
      simp only [before, later, Option.map_none, Option.map_some] at same
      cases same
  | some value =>
    cases later : after (getInodeKey id) with
    | none =>
      simp only [before, later, Option.map_none, Option.map_some] at same
      cases same
    | some other =>
      simp only [before, later, Option.map_some] at same
      obtain ⟨same⟩ := same
      exact .inr ⟨_, _, rfl, rfl, same⟩

namespace Alike

variable {Visits : UInt64 → List Char → List (List Char) → Prop}
variable (alike : Alike store after uid gid Visits)
include alike

theorem lookupComponents (visits : Visits parentId name rest) :
    ((lookupComponents uid gid parentId name rest).exec newId after).1 =
      ((Engine.lookupComponents uid gid parentId name rest).exec newId store).1 := by
  induction rest generalizing parentId name with
  | nil => exact congrArg foundDentry (alike.entry visits)
  | cons next rest ih =>
    rw [exec_lookupComponents, exec_lookupComponents, alike.entry visits]
    cases found : foundDentry (store (getDentryKey parentId name)) with
    | error ret => rfl
    | ok curInodeId =>
      have linked := foundDentry_eq_ok.mp found
      obtain ⟨_, before, later⟩ | ⟨_, _, before, later, same⟩ :=
        foundInode_cases (alike.inode visits linked)
      · simp only [before, later]
      · simp only [before, later, same.checkReadPermission, same.isDir]
        split_ifs with denied notDirectory
        · rfl
        · rfl
        · apply ih
          apply alike.further visits linked (foundInode_eq_ok.mp before)
          simpa using denied

theorem pathLookupToDentry
    (root : Option.Rel SameButChildren ((tree store).node kRootInodeId)
      ((tree after).node kRootInodeId))
    (start : ∀ {first rest inode}, splitPath path = first :: rest →
      (tree store).node kRootInodeId = some inode → checkReadPermission inode uid gid = true →
      Visits kRootInodeId first rest) :
    ((pathLookupToDentry path uid gid).exec newId after).1 =
      ((Engine.pathLookupToDentry path uid gid).exec newId store).1 := by
  cases components : splitPath path with
  | nil => rw [exec_pathLookupToDentry_nil components, exec_pathLookupToDentry_nil components]
  | cons first rest =>
    rw [exec_pathLookupToDentry components, exec_pathLookupToDentry components]
    obtain ⟨_, before, later⟩ | ⟨_, _, before, later, same⟩ := foundInode_cases root
    · simp only [before, later]
    · simp only [before, later, same.checkReadPermission]
      split_ifs with denied
      · rfl
      · apply alike.lookupComponents
        exact start components (foundInode_eq_ok.mp before) (by simpa using denied)

end Alike

/-- `Stat` tells nothing about the entries of directories that the caller may
not read: two stores that differ only in such entries give the same code and the
same inode. -/
theorem stat_eq_of_unreadable {hidden : Set UInt64}
    (denied : ∀ id ∈ hidden, ∀ inode, (tree store).node id = some inode →
      checkReadPermission inode uid gid = false)
    (agree : ∀ key, (∀ id ∈ hidden, ∀ name, key ≠ getDentryKey id name) → after key = store key)
    (path : List Char) :
    ((stat path uid gid).exec newId after).1 = ((stat path uid gid).exec newId store).1 := by
  have sameInode (id : UInt64) : after (getInodeKey id) = store (getInodeKey id) := by
    apply agree
    intro pid _ name
    exact getInodeKey_ne_getDentryKey id pid name
  have sameNode (id : UInt64) :
      Option.Rel SameButChildren ((tree store).node id) ((tree after).node id) := by
    rw [show (tree after).node id = (tree store).node id from
      congrArg (Option.map decodeInode) (sameInode id)]
    exact SameButChildren.rel_refl _
  have readable {id : UInt64} {inode : Inode} (found : (tree store).node id = some inode)
      (allowed : checkReadPermission inode uid gid = true) : id ∉ hidden := by
    intro isHidden
    rw [denied id isHidden inode found] at allowed
    cases allowed
  have alike : Alike store after uid gid fun pid _ _ => pid ∉ hidden := by
    constructor
    · intro pid name _ visible
      apply agree
      rintro id isHidden _ same
      rw [(getDentryKey_inj.mp same).1] at visible
      exact visible isHidden
    · intro pid name _ _ id _ _
      exact sameNode id
    · intro pid name _ _ id inode _ _ found allowed
      exact readable found allowed
  have lookedUp : ((pathLookupToDentry path uid gid).exec newId after).1 =
      ((pathLookupToDentry path uid gid).exec newId store).1 := by
    apply alike.pathLookupToDentry (sameNode kRootInodeId)
    intro first rest inode _ found allowed
    exact readable found allowed
  cases result : ((pathLookupToDentry path uid gid).exec newId store).1 with
  | error ret => rw [exec_stat_error result, exec_stat_error (lookedUp.trans result)]
  | ok id => rw [exec_stat result, exec_stat (lookedUp.trans result), sameInode]

def privateStore : Store :=
  ((mkdir "/a".toList 0 0 0o700 7).exec 1 ((initThread 0 7 99).exec 0 fun _ => none).2).2

/-- Another user does not notice a new entry in the directory. -/
theorem stat_eq_of_unreadable_private :
    ((stat "/a/x".toList 5 5).exec 0
        (Function.update privateStore (getDentryKey 1 ['x']) (some (encodeId 2)))).1 =
      ((stat "/a/x".toList 5 5).exec 0 privateStore).1 := by
  have denied : ∀ id ∈ ({1} : Set UInt64), ∀ inode, (tree privateStore).node id = some inode →
      checkReadPermission inode 5 5 = false := by
    rintro _ rfl _ found
    have refused : ((tree privateStore).node 1).map (checkReadPermission · 5 5) = some false := by
      decide
    rw [found] at refused
    exact Option.some.inj refused
  refine stat_eq_of_unreadable denied (fun key ne => ?_) _
  exact Function.update_of_ne (ne 1 rfl ['x']) _ _

end FuseeFs.Engine
