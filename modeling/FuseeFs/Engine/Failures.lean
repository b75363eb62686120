import FuseeFs.Engine.Creation
import FuseeFs.Library.Store.Bindings

/-!
# Operations whose writes fail

`Mkdir`, `Creat`, `Rmdir` and `Unlink` make three writes each and undo the
earlier ones when a later one fails.  The wrappers around the key-value store
tell only `KV_OPS_FAIL_RETURN` from the other codes.
-/

namespace FuseeFs.Engine

open Function Library.Store Replication Program

variable {store : Store} {newId parentId targetId : UInt64}
variable {parentInode targetInode : Inode} {path name : List Char} {uid gid : UInt32}
variable {governed : EngineCall → Bool} {outcomes : ℕ → KVOpsRetCode}

@[simp]
theorem execFailing_unlockAndReturn (inodeIds : List UInt64) (ret : Int) :
    (unlockAndReturn inodeIds ret).execFailing governed newId outcomes store = ⟨ret, store, 0⟩ := by
  induction inodeIds with
  | nil => rfl
  | cons inodeId rest ih => exact ih

theorem execFailing_withParent (body : UInt64 → Inode → List Char → EngineProgram Int) :
    (withParent path uid gid body).execFailing governed newId outcomes store =
      match parentDirectory store path uid gid with
      | .error ret => ⟨ret, store, 0⟩
      | .ok dir =>
        (body dir.1 dir.2 (entryName path)).execFailing governed newId outcomes
          store := by
  unfold withParent
  rw [(pathLookupToDentry_reads _ uid gid).execFailing_bind, parentDirectory,
    (pathLookupToDentry_reads _ uid gid).exec_fst 0]
  cases ((pathLookupToDentry (separateLastComponent (formatPath path)).1 uid gid).exec 0
    store).1 with
  | error ret => rfl
  | ok parentId =>
    simp only [centralLockInode, getInodeById, call_bind, done_bind,
      execFailing_lock, execFailing_search]
    cases foundInode (store (getInodeKey parentId)) with
    | error ret => simp
    | ok parentInode =>
      dsimp only
      split_ifs <;> simp [entryName]

theorem retOf_ne_zero_iff {code : KVOpsRetCode} : retOf code ≠ 0 ↔ code = .failReturn := by
  cases code <;> decide

def createWrites (newInode : Inode) (parentId : UInt64) (parentInode : Inode)
    (name : List Char) (newInodeId : UInt64) : EngineProgram Int :=
  .call (.insert (getInodeKey newInodeId) (encodeInode newInode)) fun first =>
    if first = .failReturn then unlockAndReturn [parentId] (retOf first)
    else
      .call (.insert (getDentryKey parentId name) (encodeId newInodeId)) fun second =>
        if second = .failReturn then
          .call (.delete (getInodeKey newInodeId)) fun _ =>
            unlockAndReturn [parentId] (retOf second)
        else
          .call (.update (getInodeKey parentId)
              (encodeInode { parentInode with children := parentInode.children + 1 })) fun third =>
            if third = .failReturn then
              .call (.delete (getInodeKey newInodeId)) fun _ =>
                .call (.delete (getDentryKey parentId name)) fun _ =>
                  unlockAndReturn [parentId] (retOf third)
            else unlockAndReturn [parentId] 0

variable {newInode : UInt64 → Inode}

theorem createEntry_eq :
    createEntry newInode parentId parentInode name =
      .call (.search (getDentryKey parentId name)) fun value =>
        match foundDentry value with
        | .ok _ => unlockAndReturn [parentId] (-EEXIST)
        | .error _ =>
          .call .fresh fun newInodeId =>
            createWrites (newInode newInodeId) parentId parentInode name newInodeId := by
  simp only [createEntry, getDentryByParentIdAndName, call_bind, done_bind,
    getNewInodeId, insertInode, retOf_ne_zero_iff, insertDentry, updateInode, deleteInode,
    deleteDentry]
  rfl

theorem execFailing_createEntry (nameFree : store (getDentryKey parentId name) = none) :
    (createEntry newInode parentId parentInode name).execFailing governed newId outcomes
        store =
      (createWrites (newInode newId) parentId parentInode name newId).execFailing governed
        newId outcomes store := by
  rw [createEntry_eq, execFailing_search, nameFree]
  rfl

theorem execFailing_createEntry_exists (taken : store (getDentryKey parentId name) ≠ none) :
    (createEntry newInode parentId parentInode name).execFailing governed newId outcomes
      store = ⟨-EEXIST, store, 0⟩ := by
  obtain ⟨_, stored⟩ := Option.ne_none_iff_exists'.mp taken
  rw [createEntry_eq, execFailing_search, stored]
  exact execFailing_unlockAndReturn _ _

theorem CreateRequest.execFailing_program (req : CreateRequest) :
    (∃ dir, parentDirectory store req.path req.uid req.gid = .ok dir ∧
      store (getDentryKey dir.1 (entryName req.path)) = none ∧
      req.program.execFailing governed newId outcomes store =
        (createWrites (req.newInode newId) dir.1 dir.2 (entryName req.path)
          newId).execFailing governed newId outcomes store) ∨
    ¬ CanCreate store req.path req.uid req.gid ∧
      ∃ ret ≠ 0, req.program.execFailing governed newId outcomes store = ⟨ret, store, 0⟩ := by
  rw [req.program_eq, execFailing_withParent]
  cases admitted : parentDirectory store req.path req.uid req.gid with
  | error ret =>
    refine .inr ⟨?_, ret, parentDirectory_error admitted, rfl⟩
    rintro ⟨dir, isAdmitted, -⟩
    rw [admitted] at isAdmitted
    cases isAdmitted
  | ok dir =>
    by_cases nameFree : store (getDentryKey dir.1 (entryName req.path)) = none
    · exact .inl ⟨dir, rfl, nameFree, execFailing_createEntry nameFree⟩
    · refine .inr ⟨?_, -EEXIST, by decide, execFailing_createEntry_exists nameFree⟩
      rintro ⟨_, isAdmitted, otherFree⟩
      rw [admitted] at isAdmitted
      obtain rfl := Except.ok.inj isAdmitted
      exact nameFree otherFree

/-! ## Success of a create -/

/-- If the request returns 0, then its inode and its entry are in the store. -/
def CreateRequest.EntriesExist (req : CreateRequest) (newId : UInt64) (store : Store)
    (outcomes : ℕ → KVOpsRetCode) : Prop :=
  (req.program.execFailing Call.isInsert newId outcomes store).result = 0 →
    ((req.program.execFailing Call.isInsert newId outcomes store).store
      (getInodeKey newId)).isSome ∧
    ∀ dir, parentDirectory store req.path req.uid req.gid = .ok dir →
      ((req.program.execFailing Call.isInsert newId outcomes store).store
        (getDentryKey dir.1 (entryName req.path))).isSome

def written (store : Store) (code : KVOpsRetCode) (key : List Char) (value : List UInt8) : Store :=
  if code = .success then update store key (some value) else store

variable {key : List Char} {value : List UInt8}

theorem isSome_written {code : KVOpsRetCode} {other : List Char} :
    (written store code key value other).isSome ↔
      code = .success ∧ other = key ∨ (store other).isSome := by
  by_cases same : other = key <;> by_cases success : code = .success <;>
    simp [written, same, success]

theorem execFailing_insert_written (next : KVOpsRetCode → EngineProgram Int) :
    let run := (Program.call (.insert key value) next).execFailing Call.isInsert newId outcomes store
    let rest := (next (outcomes 0)).execFailing Call.isInsert newId
      (fun write => outcomes (write + 1)) (written store (outcomes 0) key value)
    run.result = rest.result ∧ run.store = rest.store := by
  dsimp only
  rw [execFailing_insert next rfl, written]
  by_cases success : outcomes 0 = .success <;> simp [success]

section CreateWrites

variable {newInode : Inode}

theorem createWrites_of_failReturn (failed : outcomes 0 = .failReturn ∨ outcomes 1 = .failReturn) :
    ((createWrites newInode parentId parentInode name newId).execFailing Call.isInsert newId
      outcomes store).result ≠ 0 := by
  rw [createWrites, (execFailing_insert_written _).1]
  by_cases first : outcomes 0 = .failReturn
  · rw [if_pos first, execFailing_unlockAndReturn]
    exact retOf_ne_zero_iff.mpr first
  · have second := failed.resolve_left first
    rw [if_neg first, (execFailing_insert_written _).1, if_pos second]
    exact retOf_ne_zero_iff.mpr second

/-- Otherwise each insert has stored its value if its code was success, and the
parent is updated. -/
theorem createWrites_of_not_failReturn (parentFound : (store (getInodeKey parentId)).isSome)
    (first : outcomes 0 ≠ .failReturn) (second : outcomes 1 ≠ .failReturn) :
    ((createWrites newInode parentId parentInode name newId).execFailing Call.isInsert newId
      outcomes store).store = update
        (written (written store (outcomes 0) (getInodeKey newId) (encodeInode newInode))
          (outcomes 1) (getDentryKey parentId name) (encodeId newId))
        (getInodeKey parentId)
        (some (encodeInode { parentInode with children := parentInode.children + 1 })) ∧
    ((createWrites newInode parentId parentInode name newId).execFailing Call.isInsert newId
      outcomes store).result = 0 := by
  have present : (written (written store (outcomes 0) (getInodeKey newId) (encodeInode newInode))
      (outcomes 1) (getDentryKey parentId name) (encodeId newId)
      (getInodeKey parentId)).isSome :=
    isSome_written.mpr (.inr (isSome_written.mpr (.inr parentFound)))
  rw [createWrites, (execFailing_insert_written _).1, (execFailing_insert_written _).2,
    if_neg first, (execFailing_insert_written _).1, (execFailing_insert_written _).2,
    if_neg second, execFailing_update_of_not_drawn _ rfl present]
  exact ⟨rfl, rfl⟩

end CreateWrites

theorem isSome_parentDirectory {dir : UInt64 × Inode}
    (admitted : parentDirectory store path uid gid = .ok dir) :
    (store (getInodeKey dir.1)).isSome := by
  have parentFound := (parentDirectory_eq_ok.mp admitted).2.1
  simpa [tree] using Option.isSome_of_eq_some parentFound

section Written

variable {first second : KVOpsRetCode} {newInode newParent : Inode}

theorem isSome_inode_after (parentFound : (store (getInodeKey parentId)).isSome) :
    (update (written (written store first (getInodeKey newId) (encodeInode newInode))
        second (getDentryKey parentId name) (encodeId newId))
      (getInodeKey parentId) (some (encodeInode newParent)) (getInodeKey newId)).isSome ↔
      first = .success ∨ (store (getInodeKey newId)).isSome := by
  by_cases isParent : newId = parentId
  · subst isParent
    simp [parentFound]
  · rw [update_of_ne (by simpa using isParent), isSome_written, isSome_written]
    simp

theorem isSome_dentry_after (nameFree : store (getDentryKey parentId name) = none) :
    (update (written (written store first (getInodeKey newId) (encodeInode newInode))
        second (getDentryKey parentId name) (encodeId newId))
      (getInodeKey parentId) (some (encodeInode newParent))
      (getDentryKey parentId name)).isSome ↔ second = .success := by
  rw [update_of_ne (by simp), isSome_written, isSome_written]
  simp [nameFree]

end Written

/-- A request that returns 0 has stored its inode and its entry, unless an insert
was answered with `KV_OPS_FAIL_REDO`, which counts as success. -/
theorem entriesExist_iff (req : CreateRequest) :
    req.EntriesExist newId store outcomes ↔
      (CanCreate store req.path req.uid req.gid →
        outcomes 0 ≠ .failReturn → outcomes 1 ≠ .failReturn →
        outcomes 1 = .success ∧ (outcomes 0 = .success ∨ (store (getInodeKey newId)).isSome)) := by
  rw [CreateRequest.EntriesExist]
  obtain ⟨dir, admitted, nameFree, executed⟩ | ⟨refused, _, nonzero, executed⟩ :=
    req.execFailing_program
  · have canCreate : CanCreate store req.path req.uid req.gid := ⟨dir, admitted, nameFree⟩
    have parentFound := isSome_parentDirectory admitted
    rw [executed]
    by_cases failed : outcomes 0 = .failReturn ∨ outcomes 1 = .failReturn
    · refine ⟨fun _ _ first second => ?_, fun _ isZero => ?_⟩
      · exact (failed.elim first second).elim
      · exact absurd isZero (createWrites_of_failReturn failed)
    · obtain ⟨first, second⟩ := not_or.mp failed
      obtain ⟨stored, isZero⟩ := createWrites_of_not_failReturn parentFound first second
      rw [stored, isZero]
      rw [isSome_inode_after parentFound]
      constructor
      · intro exist _ _ _
        obtain ⟨inodeExists, dentryExists⟩ := exist rfl
        exact ⟨(isSome_dentry_after nameFree).mp (dentryExists dir admitted), inodeExists⟩
      · intro holds _
        obtain ⟨dentryStored, inodeExists⟩ := holds canCreate first second
        refine ⟨inodeExists, fun other isAdmitted => ?_⟩
        rw [admitted] at isAdmitted
        obtain rfl := Except.ok.inj isAdmitted
        exact (isSome_dentry_after nameFree).mpr dentryStored
  · rw [executed]
    exact ⟨fun _ canCreate => absurd canCreate refused, fun _ isZero => absurd isZero nonzero⟩

/-- `Creat` returns 0 although another client took the slot of the new inode. -/
theorem not_entriesExist_redo :
    ¬ CreateRequest.EntriesExist ⟨.regular, "/f".toList, 0, 0, 0o644, 7, 99⟩ 1 sampleStore
      (fun write => if write = 0 then .failRedo else .success) := by
  intro exist
  exact absurd (exist (by decide)).1 (by decide)

/-! ## Failed operations -/

/-- If at most one write fails and the operation reports an error, then the store
is as before.  `kv_insert` does not look for the key, so that a key that is in use
has two values after it. -/
def Operation.LeavesNoTrace (op : Operation) (newId : UInt64) (store : Store) : Prop :=
  ∀ environment : ℕ → EngineCall → Choice,
    (op.program.execAmong .failReturn newId environment (.ofMap store)).failures ≤ 1 →
    (op.program.execAmong .failReturn newId environment (.ofMap store)).result ≠ 0 →
    (op.program.execAmong .failReturn newId environment (.ofMap store)).store = .ofMap store

def rmdirRefusal (targetInode : Inode) : Option Int :=
  if !isDir targetInode.mode then some (-ENOTDIR)
  else if targetInode.children > 0 then some (-ENOTEMPTY)
  else none

def unlinkRefusal (targetInode : Inode) : Option Int :=
  if isDir targetInode.mode then some (-EISDIR) else none

/-- The values that `Rmdir` and `Unlink` would write back have the sizes of the
types through which they were read. -/
def Restorable (store : Store) (path : List Char) (uid gid : UInt32)
    (refusal : Inode → Option Int) : Prop :=
  ∀ dir entry value, parentDirectory store path uid gid = .ok dir →
    store (getDentryKey dir.1 (entryName path)) = some entry →
    store (getInodeKey (decodeId entry)) = some value → refusal (decodeInode value) = none →
    entry.length = sizeofId ∧ value.length = sizeofInode

/-- A new inode has a key that is not in use, or is stored there already. -/
def CreateRequest.Undoable (req : CreateRequest) (newId : UInt64) (store : Store) : Prop :=
  CanCreate store req.path req.uid req.gid →
    store (getInodeKey newId) = none ∨
      store (getInodeKey newId) = some (encodeInode (req.newInode newId))

def Operation.Undoable (newId : UInt64) (store : Store) : Operation → Prop
  | .mkdir path uid gid mode now =>
    CreateRequest.Undoable ⟨.directory, path, uid, gid, mode, now, 0⟩ newId store
  | .creat path uid gid mode now uninitChildren =>
    CreateRequest.Undoable ⟨.regular, path, uid, gid, mode, now, uninitChildren⟩ newId store
  | .rmdir path uid gid => Restorable store path uid gid rmdirRefusal
  | .unlink path uid gid => Restorable store path uid gid unlinkRefusal
  | .stat _ _ _ => True

abbrev Undoes (newId : UInt64) (limit : ℕ) (before bindings : Bindings (List Char) (List UInt8))
    (program : EngineProgram Int) : Prop :=
  program.Undoes .failReturn newId (· ≠ 0) limit before bindings

theorem failReturn_ne_success : KVOpsRetCode.failReturn ≠ ReplyCode.success := by
  decide

section Undoes

variable {limit : ℕ} {before bindings : Bindings (List Char) (List UInt8)}

theorem undoes_unlockAndReturn_iff {inodeIds : List UInt64} {ret : Int} :
    Undoes newId limit before bindings (unlockAndReturn inodeIds ret) ↔
      (ret ≠ 0 → bindings = before) := by
  induction inodeIds with
  | nil => exact undoes_done_iff
  | cons inodeId rest ih => exact (undoes_quiet_iff (fun _ => rfl) rfl).trans ih

theorem undoes_withParent_iff {body : UInt64 → Inode → List Char → EngineProgram Int} :
    Undoes newId limit (.ofMap store) (.ofMap store) (withParent path uid gid body) ↔
      ∀ dir, parentDirectory store path uid gid = .ok dir →
        Undoes newId limit (.ofMap store) (.ofMap store)
          (body dir.1 dir.2 (entryName path)) := by
  unfold withParent
  rw [Undoes, (pathLookupToDentry_reads _ uid gid).undoes_bind_iff, parentDirectory,
    (pathLookupToDentry_reads _ uid gid).exec_fst 0]
  cases ((pathLookupToDentry (separateLastComponent (formatPath path)).1 uid gid).exec 0
    store).1 with
  | error ret => exact iff_of_true (undoes_done_iff.mpr fun _ => rfl) (by simp)
  | ok parentId =>
    simp only [centralLockInode, getInodeById, call_bind, done_bind]
    refine (undoes_quiet_iff (fun _ => rfl) rfl).trans (undoes_search_iff.trans ?_)
    cases foundInode (store (getInodeKey parentId)) with
    | error ret => simp [undoes_unlockAndReturn_iff]
    | ok parentInode =>
      dsimp only
      split_ifs <;> simp [undoes_unlockAndReturn_iff, entryName]

end Undoes

theorem ofMap_eq_toList : Bindings.ofMap store key = (store key).toList :=
  rfl

theorem createWrites_undoes_iff {newInode : Inode}
    (nameFree : store (getDentryKey parentId name) = none) :
    Undoes newId 1 (.ofMap store) (.ofMap store)
        (createWrites newInode parentId parentInode name newId) ↔
      store (getInodeKey newId) = none ∨ store (getInodeKey newId) = some (encodeInode newInode) := by
  rw [← eraseIdx_toList_iff]
  constructor
  · -- the second insert fails, and the first one is taken back
    intro undoes pick
    have inserted := ((undoes_insert_iff failReturn_ne_success).mp undoes).1
    have refused := ((undoes_insert_iff failReturn_ne_success).mp inserted).2 0 rfl
    have deleted := ((undoes_delete_iff failReturn_ne_success).mp refused).1 pick
    have restored := congrFun (undoes_unlockAndReturn_iff.mp deleted (by decide)) (getInodeKey newId)
    simpa [ofMap_eq_toList] using restored.symm
  · intro restored
    refine (undoes_insert_iff failReturn_ne_success).mpr ⟨?_, fun rest _ => ?_⟩
    · refine (undoes_insert_iff failReturn_ne_success).mpr ⟨?_, ?_⟩
      · refine undoes_update failReturn_ne_success rfl (fun values => ?_) ?_
        · exact undoes_unlockAndReturn_iff.mpr fun nonzero => absurd rfl nonzero
        · rintro rest ⟨⟩
          refine (undoes_delete_iff failReturn_ne_success).mpr ⟨fun pick => ?_, nofun⟩
          refine (undoes_delete_iff failReturn_ne_success).mpr ⟨fun other => ?_, nofun⟩
          refine undoes_unlockAndReturn_iff.mpr fun _ => ?_
          rw [update_rewritten, update_update_eq_self_iff (by simp)]
          constructor
          · simpa [ofMap_eq_toList] using restored pick
          · simp [ofMap_eq_toList, nameFree, Nat.mod_one]
      · rintro _ ⟨⟩
        refine (undoes_delete_iff failReturn_ne_success).mpr ⟨fun pick => ?_, nofun⟩
        refine undoes_unlockAndReturn_iff.mpr fun _ => ?_
        rw [update_idem, update_eq_self_iff]
        simpa [ofMap_eq_toList] using (restored pick).symm
    · exact undoes_unlockAndReturn_iff.mpr fun _ => rfl

theorem CreateRequest.undoes_iff (req : CreateRequest) :
    Undoes newId 1 (.ofMap store) (.ofMap store) req.program ↔ req.Undoable newId store := by
  have entry {dir : UInt64 × Inode} :
      Undoes newId 1 (.ofMap store) (.ofMap store)
          (createEntry req.newInode dir.1 dir.2 (entryName req.path)) ↔
        (store (getDentryKey dir.1 (entryName req.path)) = none →
          store (getInodeKey newId) = none ∨
            store (getInodeKey newId) = some (encodeInode (req.newInode newId))) := by
    rw [createEntry_eq, Undoes, undoes_search_iff]
    cases stored : store (getDentryKey dir.1 (entryName req.path)) with
    | some value => simp [foundDentry, undoes_unlockAndReturn_iff]
    | none =>
      refine (undoes_quiet_iff (fun _ => rfl) rfl).trans ?_
      exact (createWrites_undoes_iff stored).trans (by simp)
  rw [req.program_eq, undoes_withParent_iff]
  simp only [entry]
  constructor
  · rintro undoes ⟨dir, admitted, nameFree⟩
    exact undoes dir admitted nameFree
  · exact fun undoable dir admitted nameFree => undoable ⟨dir, admitted, nameFree⟩

/-! ### Removal -/

def removal (path : List Char) (uid gid : UInt32) (refusal : Inode → Option Int)
    (finish restored : UInt64 → UInt64 → List UInt64) : EngineProgram Int :=
  withParent path uid gid fun parentId parentInode name =>
    withTarget parentId name fun targetId targetInode =>
      match refusal targetInode with
      | some ret => unlockAndReturn [parentId, targetId] ret
      | none =>
        removeEntry parentId parentInode name targetId targetInode
          (unlockAndReturn (finish parentId targetId) 0)
          (unlockAndReturn (restored parentId targetId))

theorem rmdir_eq_removal :
    rmdir path uid gid = removal path uid gid rmdirRefusal
      (fun parentId targetId => [targetId, parentId])
      (fun parentId targetId => [parentId, targetId]) := by
  unfold rmdir removal rmdirRefusal
  congr 1
  funext parentId parentInode name
  congr 1
  funext targetId targetInode
  split_ifs <;> rfl

theorem unlink_eq_removal :
    unlink path uid gid = removal path uid gid unlinkRefusal
      (fun parentId targetId => [parentId, targetId])
      (fun parentId targetId =>
        [parentId, targetId, parentId, targetId]) := by
  unfold unlink removal unlinkRefusal
  congr 1
  funext parentId parentInode name
  congr 1
  funext targetId targetInode
  split_ifs <;> rfl

def removeWrites (parentId : UInt64) (parentInode : Inode) (name : List Char)
    (targetId : UInt64) (targetInode : Inode) (finish restored : List UInt64) :
    EngineProgram Int :=
  .call (.delete (getInodeKey targetId)) fun first =>
    if first = .failReturn then unlockAndReturn [parentId, targetId] (retOf first)
    else
      .call (.delete (getDentryKey parentId name)) fun second =>
        if second = .failReturn then
          .call (.insert (getInodeKey targetId) (encodeInode targetInode)) fun _ =>
            unlockAndReturn [parentId, targetId] (retOf second)
        else
          .call (.update (getInodeKey parentId)
              (encodeInode { parentInode with children := parentInode.children - 1 })) fun third =>
            if third = .failReturn then
              .call (.insert (getInodeKey targetId) (encodeInode targetInode)) fun _ =>
                .call (.insert (getDentryKey parentId name) (encodeId targetId)) fun _ =>
                  unlockAndReturn restored (retOf third)
            else unlockAndReturn finish 0

variable {restored : List UInt64}

theorem removeEntry_eq_removeWrites {finish : List UInt64} :
    removeEntry parentId parentInode name targetId targetInode
        (unlockAndReturn finish 0) (unlockAndReturn restored) =
      removeWrites parentId parentInode name targetId targetInode finish restored := by
  simp only [removeEntry, deleteInode, deleteDentry, insertInode, insertDentry, updateInode,
    call_bind, done_bind, retOf_ne_zero_iff]
  rfl

theorem removeWrites_undoes_iff {finish : List UInt64} {entry : List UInt8}
    (inodeStored : store (getInodeKey targetId) = some value)
    (dentryStored : store (getDentryKey parentId name) = some entry) :
    Undoes newId 1 (.ofMap store) (.ofMap store)
        (removeWrites parentId parentInode name targetId targetInode finish restored) ↔
      value = encodeInode targetInode ∧ entry = encodeId targetId := by
  constructor
  · -- the update fails, and both values are written again
    intro undoes
    have first := ((undoes_delete_iff failReturn_ne_success).mp undoes).1 0
    have second := ((undoes_delete_iff failReturn_ne_success).mp first).1 0
    have refused := Program.Undoes.of_update failReturn_ne_success second
    have inode := ((undoes_insert_iff failReturn_ne_success).mp refused).1
    have dentry := ((undoes_insert_iff failReturn_ne_success).mp inode).1
    have same := undoes_unlockAndReturn_iff.mp dentry (by decide)
    rw [update_rewritten, update_update_eq_self_iff (by simp)] at same
    simpa [ofMap_eq_toList, inodeStored, dentryStored, Nat.mod_one] using same
  · rintro ⟨rfl, rfl⟩
    refine (undoes_delete_iff failReturn_ne_success).mpr ⟨fun pick => ?_, fun _ _ => ?_⟩
    · refine (undoes_delete_iff failReturn_ne_success).mpr ⟨fun other => ?_, ?_⟩
      · refine undoes_update failReturn_ne_success rfl (fun values => ?_) ?_
        · exact undoes_unlockAndReturn_iff.mpr fun nonzero => absurd rfl nonzero
        · rintro rest ⟨⟩
          refine (undoes_insert_iff failReturn_ne_success).mpr ⟨?_, nofun⟩
          refine (undoes_insert_iff failReturn_ne_success).mpr ⟨?_, nofun⟩
          refine undoes_unlockAndReturn_iff.mpr fun _ => ?_
          rw [update_rewritten, update_update_eq_self_iff (by simp)]
          simp [ofMap_eq_toList, inodeStored, dentryStored, Nat.mod_one]
      · rintro _ ⟨⟩
        refine (undoes_insert_iff failReturn_ne_success).mpr ⟨?_, nofun⟩
        refine undoes_unlockAndReturn_iff.mpr fun _ => ?_
        rw [update_idem, update_eq_self_iff]
        simp [ofMap_eq_toList, inodeStored, Nat.mod_one]
    · exact undoes_unlockAndReturn_iff.mpr fun _ => rfl

/-- `Rmdir` and `Unlink` can be undone if the values are written back as they
were. -/
theorem removal_undoes_iff {refusal : Inode → Option Int}
    {finish restored : UInt64 → UInt64 → List UInt64} :
    Undoes newId 1 (.ofMap store) (.ofMap store) (removal path uid gid refusal finish restored) ↔
      Restorable store path uid gid refusal := by
  have target {parentId : UInt64} {parentInode : Inode} {name : List Char} :
      Undoes newId 1 (.ofMap store) (.ofMap store)
          (withTarget parentId name fun targetId targetInode =>
            match refusal targetInode with
            | some ret => unlockAndReturn [parentId, targetId] ret
            | none =>
              removeEntry parentId parentInode name targetId targetInode
                (unlockAndReturn (finish parentId targetId) 0)
                (unlockAndReturn (restored parentId targetId))) ↔
        ∀ entry, store (getDentryKey parentId name) = some entry → ∀ value,
          store (getInodeKey (decodeId entry)) = some value → refusal (decodeInode value) = none →
          entry.length = sizeofId ∧ value.length = sizeofInode := by
    simp only [withTarget, getDentryByParentIdAndName, call_bind, done_bind]
    refine undoes_search_iff.trans ?_
    cases dentryStored : store (getDentryKey parentId name) with
    | none => simp [foundDentry, undoes_unlockAndReturn_iff]
    | some entry =>
      simp only [foundDentry, centralLockInode, getInodeById, call_bind, done_bind]
      refine (undoes_quiet_iff (fun _ => rfl) rfl).trans (undoes_search_iff.trans ?_)
      cases inodeStored : store (getInodeKey (decodeId entry)) with
      | none => simp [foundInode, undoes_unlockAndReturn_iff, inodeStored]
      | some value =>
        simp only [foundInode]
        cases decision : refusal (decodeInode value) with
        | some ret => simp [undoes_unlockAndReturn_iff, inodeStored, decision]
        | none =>
          dsimp only
          rw [removeEntry_eq_removeWrites]
          refine (removeWrites_undoes_iff inodeStored dentryStored).trans ?_
          rw [eq_comm, encodeInode_decodeInode_eq_iff, @eq_comm _ entry, encodeId_decodeId_eq_iff]
          simp [inodeStored, decision, and_comm]
  rw [removal, undoes_withParent_iff]
  simp only [target]
  exact ⟨fun undoes dir entry value admitted dentryStored =>
      undoes dir admitted entry dentryStored value,
    fun restorable dir admitted entry dentryStored value =>
      restorable dir entry value admitted dentryStored⟩

/-- An operation that fails leaves no trace if it can undo its writes: the id of
a new inode was not in use, or the values to restore are those that were read. -/
theorem leavesNoTrace_iff (op : Operation) :
    op.LeavesNoTrace newId store ↔ op.Undoable newId store := by
  cases op with
  | mkdir path uid gid mode now =>
    exact CreateRequest.undoes_iff ⟨.directory, path, uid, gid, mode, now, 0⟩
  | rmdir path uid gid =>
    change Undoes newId 1 (.ofMap store) (.ofMap store) (rmdir path uid gid) ↔ _
    rw [rmdir_eq_removal]
    exact removal_undoes_iff
  | creat path uid gid mode now uninitChildren =>
    exact CreateRequest.undoes_iff ⟨.regular, path, uid, gid, mode, now, uninitChildren⟩
  | unlink path uid gid =>
    change Undoes newId 1 (.ofMap store) (.ofMap store) (unlink path uid gid) ↔ _
    rw [unlink_eq_removal]
    exact removal_undoes_iff
  | stat path uid gid =>
    refine iff_of_true (fun environment _ _ => ?_) trivial
    exact (stat_program_reads path uid gid).execAmong_store environment

def usedIdStore : Store :=
  ((mkdir "/a".toList 0 0 0o755 7).exec 1 sampleStore).2

def deletesOther (_ : ℕ) (req : EngineCall) : Choice :=
  ⟨req = .insert (getDentryKey 0 "b".toList) (encodeId 1), 1⟩

/-- `Mkdir` cannot insert its entry and deletes the inode of the other directory,
whose id it was given, instead of the one that it has inserted. -/
theorem not_leavesNoTrace_usedId :
    ¬ (Operation.mkdir "/b".toList 0 0 0o700 9).LeavesNoTrace 1 usedIdStore := by
  intro noTrace
  have same := noTrace deletesOther (by decide) (by decide)
  exact absurd (congrFun same (getInodeKey 1)) (by decide)

end FuseeFs.Engine
