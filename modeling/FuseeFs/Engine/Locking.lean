import FuseeFs.Engine.Failures
import FuseeFs.Library.Store.Locking

/-!
# Locks that operations release

`Mkdir`, `Rmdir`, `Creat` and `Unlink` lock the parent directory and, where they
remove an entry, its inode.  Every way out releases the locks by hand.  Here every
call to the key-value store may fail, a search included.
-/

namespace FuseeFs.Engine

open Library Library.Store Replication Program

variable {store : Store} {newId parentId targetId : UInt64}
variable {parentInode targetInode : Inode} {path name : List Char} {uid gid : UInt32}
variable {outcomes : ℕ → KVOpsRetCode}

/-! ## Lookups on a store that may fail -/

def AllSucceed (outcomes : ℕ → KVOpsRetCode) (count : ℕ) : Prop :=
  ∀ call < count, outcomes call = .success

theorem allSucceed_succ {count : ℕ} :
    AllSucceed outcomes (count + 1) ↔ AllSucceed outcomes count ∧ outcomes count = .success := by
  constructor
  · intro all
    exact ⟨fun call lt => all call (Nat.lt_succ_of_lt lt), all count (Nat.lt_succ_self count)⟩
  · rintro ⟨all, last⟩ call lt
    rcases Nat.lt_succ_iff_lt_or_eq.mp lt with before | rfl
    · exact all call before
    · exact last

theorem allSucceed_add {first second : ℕ} :
    AllSucceed outcomes (first + second) ↔
      AllSucceed outcomes first ∧ AllSucceed (fun call => outcomes (call + first)) second := by
  induction second with
  | zero => simp [AllSucceed]
  | succ second ih =>
    rw [← Nat.add_assoc, allSucceed_succ, allSucceed_succ, ih, and_assoc, Nat.add_comm second]

/-- A lookup that succeeds searches an entry and an inode for each component but
the last. -/
theorem calls_lookupComponents {rest : List (List Char)}
    (lookedUp : ((lookupComponents uid gid parentId name rest).exec newId store).1 = .ok targetId) :
    (lookupComponents uid gid parentId name rest).calls newId store = 2 * rest.length + 1 := by
  induction rest generalizing parentId name with
  | nil => rfl
  | cons next rest ih =>
    obtain ⟨_, _, linked, found, allowed, dir, further⟩ := exec_lookupComponents_cons.mp lookedUp
    simp only [lookupComponents, getDentryByParentIdAndName, call_bind, done_bind,
      calls_search, foundDentry_eq_ok.mpr linked, getInodeById,
      foundInode_eq_ok.mpr found]
    rw [if_neg (by simp [allowed]), if_neg (by simp [dir]), ih further, List.length_cons]
    ring

theorem calls_pathLookupToDentry
    (lookedUp : ((pathLookupToDentry path uid gid).exec newId store).1 = .ok targetId) :
    (pathLookupToDentry path uid gid).calls newId store = 2 * (splitPath path).length := by
  cases components : splitPath path with
  | nil =>
    rw [pathLookupToDentry, splitPath_formatPath, components]
    rfl
  | cons first rest =>
    obtain ⟨_, found, allowed, further⟩ := (exec_pathLookupToDentry_cons components).mp lookedUp
    rw [pathLookupToDentry, splitPath_formatPath, components]
    simp only [getInodeById, call_bind, done_bind, calls_search, foundInode_eq_ok.mpr found]
    rw [if_neg (by simp [allowed]), calls_lookupComponents further, List.length_cons]
    ring

/-! ## The parts of an operation -/

def parentSearches (path : List Char) : ℕ :=
  2 * (splitPath (separateLastComponent (formatPath path)).1).length + 1

@[simp]
theorem locks_unlockAndReturn (inodeIds : List UInt64) (ret : Int) :
    ((unlockAndReturn inodeIds ret).execFaulty newId outcomes store).locks =
      inodeIds.map .unlock := by
  induction inodeIds with
  | nil => rfl
  | cons inodeId rest ih => exact congrArg _ ih

theorem locks_withParent (body : UInt64 → Inode → List Char → EngineProgram Int) :
    (∃ parentId parentInode,
      parentDirectory store path uid gid = .ok (parentId, parentInode) ∧
      AllSucceed outcomes (parentSearches path) ∧
      ((withParent path uid gid body).execFaulty newId outcomes store).locks =
        .lock parentId ::
          ((body parentId parentInode (entryName path)).execFaulty newId
            (fun call => outcomes (call + parentSearches path)) store).locks) ∨
    ((∃ dir, parentDirectory store path uid gid = .ok dir) →
        ¬ AllSucceed outcomes (parentSearches path)) ∧
      (((withParent path uid gid body).execFaulty newId outcomes store).locks = [] ∨
        ∃ parentId, ((withParent path uid gid body).execFaulty newId outcomes store).locks =
          [.lock parentId, .unlock parentId]) := by
  have strict := pathLookupToDentry_strict (separateLastComponent (formatPath path)).1 uid gid
  rw [parentSearches, allSucceed_succ]
  unfold withParent
  rw [locks_bind, strict.reads.faulty_locks, strict.reads.faulty_store, List.nil_append]
  cases result : ((pathLookupToDentry (separateLastComponent (formatPath path)).1 uid gid).execFaulty
    newId outcomes store).result with
  | error ret =>
    refine .inr ⟨?_, .inl rfl⟩
    rintro ⟨dir, admitted⟩ ⟨succeed, -⟩
    have lookedUp := (parentDirectory_eq_ok.mp admitted).1
    rw [strict.reads.exec_fst newId] at lookedUp
    rw [← calls_pathLookupToDentry lookedUp] at succeed
    rw [(strict.faulty_of_succeed succeed).1, lookedUp] at result
    cases result
  | ok parentId =>
    have noError : ¬ Failed ((pathLookupToDentry (separateLastComponent (formatPath path)).1 uid
        gid).execFaulty newId outcomes store).result := by
      rw [result]
      rintro ⟨ret, failed⟩
      cases failed
    have succeed := strict.succeed_of_faulty noError
    obtain ⟨same, calls⟩ := strict.faulty_of_succeed succeed
    have lookedUp := same.symm.trans result
    rw [calls_pathLookupToDentry lookedUp] at calls succeed
    rw [strict.reads.exec_fst 0] at lookedUp
    simp only [calls, centralLockInode, getInodeById, call_bind, done_bind,
      locks_lock, execFaulty_search, FaultyRun.count_locks, Nat.zero_add,
      replyCode_success]
    -- what an admitted directory says about the inode that was looked up
    have admittedAt {dir : UInt64 × Inode}
        (admitted : parentDirectory store path uid gid = .ok dir) :
        foundInode (store (getInodeKey parentId)) = .ok dir.2 ∧
          isDir dir.2.mode = true ∧ checkWritePermission dir.2 uid gid = true := by
      obtain ⟨sameLookup, found, isDirectory, writable⟩ := parentDirectory_eq_ok.mp admitted
      obtain rfl := Except.ok.inj (lookedUp.symm.trans sameLookup)
      exact ⟨foundInode_eq_ok.mpr found, isDirectory, writable⟩
    by_cases read : outcomes (2 * (splitPath (separateLastComponent (formatPath path)).1).length) =
      .success
    · rw [if_pos read]
      cases found : foundInode (store (getInodeKey parentId)) with
      | error ret =>
        refine .inr ⟨?_, .inr ⟨parentId, by simp⟩⟩
        rintro ⟨dir, admitted⟩ -
        have sameFound := (admittedAt admitted).1
        rw [found] at sameFound
        cases sameFound
      | ok parentInode =>
        dsimp only
        split_ifs with notDir denied
        · refine .inr ⟨?_, .inr ⟨parentId, by simp⟩⟩
          rintro ⟨dir, admitted⟩ -
          obtain ⟨sameFound, isDirectory, -⟩ := admittedAt admitted
          obtain rfl := Except.ok.inj (found.symm.trans sameFound)
          simp [isDirectory] at notDir
        · refine .inr ⟨?_, .inr ⟨parentId, by simp⟩⟩
          rintro ⟨_, admitted⟩ -
          obtain ⟨sameFound, -, writable⟩ := admittedAt admitted
          obtain rfl := Except.ok.inj (found.symm.trans sameFound)
          simp [writable] at denied
        · refine .inl ⟨parentId, parentInode, parentDirectory_eq_ok.mpr ⟨lookedUp,
            foundInode_eq_ok.mp found, by simpa using notDir, by simpa using denied⟩,
            ⟨succeed, read⟩, ?_⟩
          simp only [entryName, Nat.add_assoc, Nat.add_comm 1]
    · rw [if_neg read]
      exact .inr ⟨fun _ all => read all.2, .inr ⟨parentId, by simp [foundInode]⟩⟩

theorem locks_createWrites (newInode : Inode) :
    ((createWrites newInode parentId parentInode name newId).execFaulty newId outcomes
      store).locks = [.unlock parentId] := by
  rw [createWrites, locks_insert]
  by_cases first : outcomes 0 = .failReturn
  · rw [if_pos first]
    simp
  rw [if_neg first, locks_insert]
  by_cases second : outcomes 1 = .failReturn
  · rw [if_pos second, locks_delete]
    simp
  rw [if_neg second, locks_update]
  generalize (Call.updateCode _ _ : KVOpsRetCode) = third
  by_cases failed : third = .failReturn
  · rw [if_pos failed, locks_delete, locks_delete]
    simp
  · rw [if_neg failed]
    simp

theorem locks_createEntry (newInode : UInt64 → Inode) :
    ((createEntry newInode parentId parentInode name).execFaulty newId outcomes store).locks =
      [.unlock parentId] := by
  rw [createEntry_eq, execFaulty_search, FaultyRun.count_locks]
  cases foundDentry (if outcomes 0 = ReplyCode.success then store (getDentryKey parentId name)
    else none) with
  | ok id => simp
  | error ret =>
    dsimp only
    rw [locks_fresh, locks_createWrites]

theorem locks_removeWrites {finish restored : List UInt64}
    (present : (store (getInodeKey parentId)).isSome) :
    ∃ third, (targetId ≠ parentId → third = outcomes 2) ∧
      ((removeWrites parentId parentInode name targetId targetInode finish
          restored).execFaulty newId outcomes store).locks =
        (if outcomes 0 = .failReturn ∨ outcomes 1 = .failReturn then
          [parentId, targetId]
        else if third = .failReturn then restored else finish).map .unlock := by
  rw [removeWrites, locks_delete]
  by_cases first : outcomes 0 = .failReturn
  · exact ⟨outcomes 2, fun _ => rfl, by simp [first]⟩
  rw [if_neg first, locks_delete]
  by_cases second : outcomes 1 = .failReturn
  · refine ⟨outcomes 2, fun _ => rfl, ?_⟩
    rw [if_pos second, locks_insert]
    simp [second]
  rw [if_neg second, locks_update]
  generalize answered : (Call.updateCode _ _ : KVOpsRetCode) = third
  refine ⟨third, fun distinct => ?_, ?_⟩
  · have other : getInodeKey parentId ≠ getInodeKey targetId := by
      simpa using distinct.symm
    rw [← answered]
    apply Call.updateCode_of_isSome
    split_ifs <;> simp [other, present]
  · rw [if_neg (not_or.mpr ⟨first, second⟩)]
    by_cases failed : third = .failReturn
    · rw [if_pos failed, if_pos failed, locks_insert, locks_insert]
      simp
    · rw [if_neg failed, if_neg failed]
      simp

theorem locks_withTarget (body : UInt64 → Inode → EngineProgram Int) :
    (∃ targetId targetInode,
      (tree store).edge parentId name = some targetId ∧
      (tree store).node targetId = some targetInode ∧ AllSucceed outcomes 2 ∧
      ((withTarget parentId name body).execFaulty newId outcomes store).locks =
        .lock targetId :: ((body targetId targetInode).execFaulty newId
          (fun call => outcomes (call + 2)) store).locks) ∨
    (∀ targetId targetInode, (tree store).edge parentId name = some targetId →
        (tree store).node targetId = some targetInode → ¬ AllSucceed outcomes 2) ∧
      (((withTarget parentId name body).execFaulty newId outcomes store).locks =
          [.unlock parentId] ∨
        ∃ targetId, (tree store).edge parentId name = some targetId ∧
          ((withTarget parentId name body).execFaulty newId outcomes store).locks =
            [.lock targetId, .unlock parentId, .unlock targetId]) := by
  have first {count : ℕ} (all : AllSucceed outcomes (count + 1)) : outcomes 0 = .success :=
    all 0 (Nat.succ_pos count)
  simp only [withTarget, getDentryByParentIdAndName, call_bind, done_bind,
    execFaulty_search, FaultyRun.count_locks, replyCode_success]
  by_cases searched : outcomes 0 = .success
  · rw [if_pos searched]
    cases found : foundDentry (store (getDentryKey parentId name)) with
    | error ret =>
      refine .inr ⟨?_, .inl (by simp)⟩
      intro targetId targetInode linked
      rw [foundDentry_eq_ok.mpr linked] at found
      cases found
    | ok targetId =>
      have linked := foundDentry_eq_ok.mp found
      simp only [centralLockInode, getInodeById, call_bind, done_bind,
        locks_lock, execFaulty_search, FaultyRun.count_locks, replyCode_success]
      by_cases read : outcomes 1 = .success
      · rw [if_pos read]
        cases targetFound : foundInode (store (getInodeKey targetId)) with
        | error ret =>
          refine .inr ⟨?_, .inr ⟨targetId, linked, by simp⟩⟩
          intro other targetInode otherLinked otherFound
          obtain rfl := Option.some.inj (linked.symm.trans otherLinked)
          rw [foundInode_eq_ok.mpr otherFound] at targetFound
          cases targetFound
        | ok targetInode =>
          refine .inl ⟨targetId, targetInode, linked, foundInode_eq_ok.mp targetFound, ?_, rfl⟩
          exact allSucceed_succ.mpr ⟨allSucceed_succ.mpr ⟨fun _ lt => (by cases lt), searched⟩,
            read⟩
      · rw [if_neg read]
        refine .inr ⟨fun _ _ _ _ all => read (allSucceed_succ.mp all).2, ?_⟩
        exact .inr ⟨targetId, linked, by simp [foundInode]⟩
  · rw [if_neg searched]
    exact .inr ⟨fun _ _ _ _ all => searched (first all), .inl (by simp [foundDentry])⟩

/-! ## Whole operations -/

/-- The locks of an operation that releases each of them once. -/
inductive Released (store : Store) : List (LockCall UInt64) → Prop
  | nothing : Released store []
  | parent (parentId : UInt64) : Released store [.lock parentId, .unlock parentId]
  | parentFirst {parentId targetId : UInt64} {name : List Char}
      (linked : (tree store).edge parentId name = some targetId) :
      Released store [.lock parentId, .lock targetId, .unlock parentId, .unlock targetId]
  | targetFirst {parentId targetId : UInt64} {name : List Char}
      (linked : (tree store).edge parentId name = some targetId) :
      Released store [.lock parentId, .lock targetId, .unlock targetId, .unlock parentId]

def Operation.LocksBalanced (op : Operation) (newId : UInt64) (store : Store)
    (outcomes : ℕ → KVOpsRetCode) : Prop :=
  holding true [] (op.program.execFaulty newId outcomes store).locks = some [] ∧
    (Consistent store →
      holding false [] (op.program.execFaulty newId outcomes store).locks = some [])

theorem Released.holding {calls : List (LockCall UInt64)} (released : Released store calls) :
    holding true [] calls = some [] ∧ (Consistent store → holding false [] calls = some []) := by
  cases released with
  | nothing => exact ⟨rfl, fun _ => rfl⟩
  | parent parentId => simp [Store.holding]
  | @parentFirst parentId targetId name linked =>
    constructor
    · by_cases same : targetId = parentId <;> simp [Store.holding, same]
    · intro consistent
      have distinct : targetId ≠ parentId := by
        rintro rfl
        exact consistent.edge_ne_self linked
      simp [Store.holding, distinct, distinct.symm]
  | @targetFirst parentId targetId name linked =>
    constructor
    · by_cases same : targetId = parentId <;> simp [Store.holding, same]
    · intro consistent
      have distinct : targetId ≠ parentId := by
        rintro rfl
        exact consistent.edge_ne_self linked
      simp [Store.holding, distinct]

/-- `Rmdir` or `Unlink` finds its target, does not refuse it, and all its searches
succeed. -/
structure ReachesWrites (store : Store) (outcomes : ℕ → KVOpsRetCode) (path : List Char)
    (uid gid : UInt32) (refusal : Inode → Option Int) (parentId : UInt64)
    (parentInode : Inode) (targetId : UInt64) (targetInode : Inode) : Prop where
  admitted : parentDirectory store path uid gid = .ok (parentId, parentInode)
  linked : (tree store).edge parentId (entryName path) = some targetId
  found : (tree store).node targetId = some targetInode
  accepted : refusal targetInode = none
  succeed : AllSucceed outcomes (parentSearches path + 2)

theorem locks_removal (refusal : Inode → Option Int)
    (finish restored : UInt64 → UInt64 → List UInt64) :
    (∃ parentId parentInode targetId targetInode,
      ReachesWrites store outcomes path uid gid refusal parentId parentInode targetId
        targetInode ∧
      ((removal path uid gid refusal finish restored).execFaulty newId outcomes store).locks =
        .lock parentId :: .lock targetId ::
          ((removeWrites parentId parentInode (entryName path) targetId targetInode
            (finish parentId targetId) (restored parentId targetId)).execFaulty
            newId (fun call => outcomes (call + (parentSearches path + 2))) store).locks) ∨
    (∀ parentId parentInode targetId targetInode,
      ¬ ReachesWrites store outcomes path uid gid refusal parentId parentInode targetId
        targetInode) ∧
      Released store
        ((removal path uid gid refusal finish restored).execFaulty newId outcomes store).locks := by
  rw [removal]
  obtain ⟨parentId, parentInode, admitted, searched, executed⟩ | ⟨refused, released⟩ :=
    @locks_withParent store newId path uid gid outcomes _
  · rw [executed]
    obtain ⟨targetId, targetInode, linked, found, read, further⟩ | ⟨missed, released⟩ :=
      @locks_withTarget store newId parentId (entryName path)
        (fun call => outcomes (call + parentSearches path)) _
    · rw [further]
      cases decision : refusal targetInode with
      | some ret =>
        refine .inr ⟨fun _ _ _ _ reaches => ?_, ?_⟩
        · obtain ⟨rfl, rfl⟩ := Prod.mk.inj (Except.ok.inj (admitted.symm.trans reaches.admitted))
          obtain rfl := Option.some.inj (linked.symm.trans reaches.linked)
          obtain rfl := Option.some.inj (found.symm.trans reaches.found)
          have accepted := reaches.accepted
          rw [decision] at accepted
          cases accepted
        · dsimp only
          rw [locks_unlockAndReturn]
          exact .parentFirst linked
      | none =>
        refine .inl ⟨parentId, parentInode, targetId, targetInode,
          ⟨admitted, linked, found, decision, allSucceed_add.mpr ⟨searched, read⟩⟩, ?_⟩
        rw [removeEntry_eq_removeWrites]
        simp only [Nat.add_assoc, Nat.add_comm 2]
    · refine .inr ⟨fun _ _ _ _ reaches => ?_, ?_⟩
      · obtain ⟨rfl, rfl⟩ := Prod.mk.inj (Except.ok.inj (admitted.symm.trans reaches.admitted))
        exact missed _ _ reaches.linked reaches.found (allSucceed_add.mp reaches.succeed).2
      · rcases released with parent | ⟨targetId, linked, both⟩
        · rw [parent]
          exact .parent parentId
        · rw [both]
          exact .parentFirst linked
  · refine .inr ⟨fun parentId parentInode _ _ reaches => ?_, ?_⟩
    · exact refused ⟨_, reaches.admitted⟩ (allSucceed_add.mp reaches.succeed).1
    · rcases released with nothing | ⟨parentId, parent⟩
      · rw [nothing]
        exact .nothing
      · rw [parent]
        exact .parent parentId

/-- `Unlink` comes to the update of the parent directory, and the update fails. -/
def Operation.UpdateFails (store : Store) (outcomes : ℕ → KVOpsRetCode) : Operation → Prop
  | .unlink path uid gid =>
    (∃ parentId parentInode targetId targetInode,
      ReachesWrites store outcomes path uid gid unlinkRefusal parentId parentInode
        targetId targetInode) ∧
    outcomes (parentSearches path + 2) ≠ .failReturn ∧
    outcomes (parentSearches path + 3) ≠ .failReturn ∧
    outcomes (parentSearches path + 4) = .failReturn
  | _ => False

theorem released_withParent (body : UInt64 → Inode → List Char → EngineProgram Int)
    (releases : ∀ parentId parentInode name outcomes,
      ((body parentId parentInode name).execFaulty newId outcomes store).locks =
        [.unlock parentId]) :
    Released store ((withParent path uid gid body).execFaulty newId outcomes store).locks := by
  obtain ⟨parentId, _, -, -, executed⟩ | ⟨-, nothing | ⟨parentId, parent⟩⟩ :=
    @locks_withParent store newId path uid gid outcomes body
  · rw [executed, releases]
    exact .parent parentId
  · rw [nothing]
    exact .nothing
  · rw [parent]
    exact .parent parentId

theorem released_rmdir :
    Released store ((rmdir path uid gid).execFaulty newId outcomes store).locks := by
  rw [rmdir_eq_removal]
  obtain ⟨_, _, _, _, reaches, executed⟩ |
    ⟨-, released⟩ := @locks_removal store newId path uid gid outcomes rmdirRefusal _ _
  · obtain ⟨_, -, unlocked⟩ := locks_removeWrites (isSome_parentDirectory reaches.admitted)
    rw [executed, unlocked]
    split_ifs
    · exact .parentFirst reaches.linked
    · exact .parentFirst reaches.linked
    · exact .targetFirst reaches.linked
  · exact released

theorem ReachesWrites.distinct
    (reaches : ReachesWrites store outcomes path uid gid unlinkRefusal parentId parentInode
      targetId targetInode) : targetId ≠ parentId := by
  rintro rfl
  obtain ⟨-, parentFound, dir, -⟩ := parentDirectory_eq_ok.mp reaches.admitted
  obtain rfl := Option.some.inj (parentFound.symm.trans reaches.found)
  have accepted := reaches.accepted
  rw [unlinkRefusal, if_pos dir] at accepted
  cases accepted

/-- If the update of the parent fails, `Unlink` releases both inodes twice. -/
theorem locks_unlink :
    (Operation.unlink path uid gid).UpdateFails store outcomes ∧
      (∃ parentId targetId, targetId ≠ parentId ∧
        ((unlink path uid gid).execFaulty newId outcomes store).locks =
          [.lock parentId, .lock targetId, .unlock parentId, .unlock targetId,
            .unlock parentId, .unlock targetId]) ∨
    ¬ (Operation.unlink path uid gid).UpdateFails store outcomes ∧
      Released store ((unlink path uid gid).execFaulty newId outcomes store).locks := by
  rw [unlink_eq_removal]
  obtain ⟨parentId, _, targetId, _, reaches, executed⟩ |
    ⟨never, released⟩ := @locks_removal store newId path uid gid outcomes unlinkRefusal _ _
  · obtain ⟨_, isThird, unlocked⟩ := locks_removeWrites (isSome_parentDirectory reaches.admitted)
    rw [executed, unlocked, isThird reaches.distinct, Nat.zero_add, Nat.add_comm 1,
      Nat.add_comm 2 (_ + 2)]
    split_ifs with deletes update
    · refine .inr ⟨?_, .parentFirst reaches.linked⟩
      rintro ⟨-, first, second, -⟩
      exact deletes.elim first second
    · obtain ⟨first, second⟩ := not_or.mp deletes
      exact .inl ⟨⟨⟨_, _, _, _, reaches⟩, first, second, update⟩, parentId, targetId,
        reaches.distinct, rfl⟩
    · refine .inr ⟨?_, .parentFirst reaches.linked⟩
      rintro ⟨-, -, -, fails⟩
      exact update fails
  · refine .inr ⟨?_, released⟩
    rintro ⟨⟨_, _, _, _, reaches⟩, -⟩
    exact never _ _ _ _ reaches

/-- The locks of an operation are balanced for every pattern of failures, except
that `Unlink` releases its two locks twice when the update of the parent fails. -/
theorem locksBalanced_iff (op : Operation) :
    op.LocksBalanced newId store outcomes ↔ ¬ op.UpdateFails store outcomes := by
  cases op with
  | mkdir path uid gid mode now =>
    refine iff_of_true (Released.holding ?_) id
    exact released_withParent _ fun _ _ _ _ => locks_createEntry _
  | rmdir path uid gid => exact iff_of_true released_rmdir.holding id
  | creat path uid gid mode now uninitChildren =>
    refine iff_of_true (Released.holding ?_) id
    exact released_withParent _ fun _ _ _ _ => locks_createEntry _
  | unlink path uid gid =>
    rw [Operation.LocksBalanced]
    obtain ⟨fails, _, _, distinct, executed⟩ | ⟨updated, released⟩ :=
      @locks_unlink store newId path uid gid outcomes
    · refine iff_of_false (fun balanced => ?_) (not_not.mpr fails)
      have held := balanced.1
      rw [show (Operation.unlink path uid gid).program = unlink path uid gid from rfl,
        executed] at held
      simp [holding, distinct, distinct.symm] at held
    · exact iff_of_true released.holding updated
  | stat path uid gid =>
    refine iff_of_true ?_ id
    rw [Operation.LocksBalanced, (stat_program_reads path uid gid).faulty_locks]
    exact ⟨rfl, fun _ => rfl⟩

def fileStore : Store :=
  ((creat "/f".toList 0 0 0o644 7 99).exec 1 sampleStore).2

def failAt (pos write : ℕ) : KVOpsRetCode :=
  if write = pos then .failReturn else .success

/-- `Unlink("/f")` makes three searches and two deletes; the sixth call, the update
of the root inode, fails. -/
theorem not_locksBalanced_updateFails :
    ¬ (Operation.unlink "/f".toList 0 0).LocksBalanced 2 fileStore (failAt 5) := by
  intro balanced
  exact absurd balanced.1 (by decide)

end FuseeFs.Engine
