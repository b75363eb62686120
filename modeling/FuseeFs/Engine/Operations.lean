import FuseeFs.Engine.Meta
import FuseeFs.Engine.Path
import FuseeFs.Library.Store.Program
import FuseeFs.Replication.Protocol

/-!
# The operations of `Engine`

The functions of `fs/engine/engine.cc` as trees of the calls they make: searches
and writes in the key-value store, `CentralLockInode`, `CentralUnlockInode` and
`GetNewInodeId`.  A function that returns an error number and fills an output
argument returns one or the other here.  The time of day and the fields that the
code leaves uninitialised are arguments.
-/

namespace FuseeFs.Engine

open Library.Store Replication

/-- A map answers the update of an absent key with `KV_OPS_FAIL_RETURN`. -/
instance : ReplyCode KVOpsRetCode where
  success := .success
  absent := .failReturn

@[simp]
theorem replyCode_success : (ReplyCode.success : KVOpsRetCode) = .success :=
  rfl

abbrev Store : Type := List Char → Option (List UInt8)

abbrev EngineCall : Type := Call (List Char) (List UInt8) UInt64

abbrev EngineProgram : Type → Type := Program (List Char) (List UInt8) UInt64 KVOpsRetCode

def centralLockInode (inodeId : UInt64) : EngineProgram Unit :=
  .call (.lock inodeId) .done

def centralUnlockInode (inodeId : UInt64) : EngineProgram Unit :=
  .call (.unlock inodeId) .done

def getNewInodeId : EngineProgram UInt64 :=
  .call .fresh .done

def foundInode : Option (List UInt8) → Except Int Inode
  | none => .error (-ENOENT)
  | some value => .ok (decodeInode value)

def foundDentry : Option (List UInt8) → Except Int UInt64
  | none => .error (-ENOENT)
  | some value => .ok (decodeId value)

def getInodeById (id : UInt64) : EngineProgram (Except Int Inode) :=
  .call (.search (getInodeKey id)) fun value => .done (foundInode value)

def getDentryByParentIdAndName (pid : UInt64) (name : List Char) :
    EngineProgram (Except Int UInt64) :=
  .call (.search (getDentryKey pid name)) fun value => .done (foundDentry value)

/-- The error number for the code of a write; a redo code counts as success. -/
def retOf (code : KVOpsRetCode) : Int :=
  if code = .failReturn then - EIO else 0

def insertInode (id : UInt64) (inode : Inode) : EngineProgram Int :=
  .call (.insert (getInodeKey id) (encodeInode inode)) fun code => .done (retOf code)

def updateInode (id : UInt64) (inode : Inode) : EngineProgram Int :=
  .call (.update (getInodeKey id) (encodeInode inode)) fun code => .done (retOf code)

def deleteInode (id : UInt64) : EngineProgram Int :=
  .call (.delete (getInodeKey id)) fun code => .done (retOf code)

def insertDentry (parentId : UInt64) (name : List Char) (inodeId : UInt64) : EngineProgram Int :=
  .call (.insert (getDentryKey parentId name) (encodeId inodeId)) fun code => .done (retOf code)

def deleteDentry (parentId : UInt64) (name : List Char) : EngineProgram Int :=
  .call (.delete (getDentryKey parentId name)) fun code => .done (retOf code)

/-- The loop of `PathLookupToDentry` with a component left to look up. -/
def lookupComponents (uid gid : UInt32) (curParentInodeId : UInt64) (name : List Char) :
    List (List Char) → EngineProgram (Except Int UInt64)
  | [] => getDentryByParentIdAndName curParentInodeId name
  | next :: rest => do
    match ← getDentryByParentIdAndName curParentInodeId name with
    | .error ret => return .error ret
    | .ok curInodeId =>
      match ← getInodeById curInodeId with
      | .error ret => return .error ret
      | .ok inode =>
        if !checkReadPermission inode uid gid then return .error (-EACCES)
        else if !isDir inode.mode then return .error (-ENOTDIR)
        else lookupComponents uid gid curInodeId next rest

def pathLookupToDentry (path : List Char) (uid gid : UInt32) :
    EngineProgram (Except Int UInt64) :=
  match splitPath (formatPath path) with
  | [] => return .ok kRootInodeId
  | name :: rest => do
    match ← getInodeById kRootInodeId with
    | .error ret => return .error ret
    | .ok inode =>
      if !checkReadPermission inode uid gid then return .error (-EACCES)
      else lookupComponents uid gid kRootInodeId name rest

def Failed {Result : Type} (result : Except Int Result) : Prop :=
  ∃ ret, result = .error ret

theorem lookupComponents_strict (uid gid : UInt32) (parent : UInt64) (name : List Char)
    (rest : List (List Char)) : (lookupComponents uid gid parent name rest).Strict Failed := by
  induction rest generalizing parent name with
  | nil => exact .search rfl ⟨-ENOENT, rfl⟩ fun _ => .done _
  | cons next rest ih =>
    refine .search rfl ⟨-ENOENT, rfl⟩ fun reply => ?_
    change Program.Strict Failed (match foundDentry reply with | .error ret => _ | .ok id => _)
    cases foundDentry reply with
    | error ret => exact .done _
    | ok curInodeId =>
      refine .search rfl ⟨-ENOENT, rfl⟩ fun reply => ?_
      change Program.Strict Failed (match foundInode reply with | .error ret => _ | .ok inode => _)
      cases foundInode reply with
      | error ret => exact .done _
      | ok inode =>
        dsimp only
        split_ifs
        · exact .done _
        · exact .done _
        · exact ih curInodeId next

theorem pathLookupToDentry_strict (path : List Char) (uid gid : UInt32) :
    (pathLookupToDentry path uid gid).Strict Failed := by
  unfold pathLookupToDentry
  cases splitPath (formatPath path) with
  | nil => exact .done _
  | cons name rest =>
    refine .search rfl ⟨-ENOENT, rfl⟩ fun reply => ?_
    change Program.Strict Failed (match foundInode reply with | .error ret => _ | .ok inode => _)
    cases foundInode reply with
    | error ret => exact .done _
    | ok inode =>
      dsimp only
      split_ifs
      · exact .done _
      · exact lookupComponents_strict uid gid kRootInodeId name rest

theorem pathLookupToDentry_reads (path : List Char) (uid gid : UInt32) :
    (pathLookupToDentry path uid gid).Reads :=
  (pathLookupToDentry_strict path uid gid).reads

def stat (path : List Char) (uid gid : UInt32) : EngineProgram (Except Int Inode) := do
  match ← pathLookupToDentry path uid gid with
  | .error ret => return .error ret
  | .ok inodeId => getInodeById inodeId

def unlockAndReturn (inodeIds : List UInt64) (ret : Int) : EngineProgram Int :=
  match inodeIds with
  | [] => return ret
  | inodeId :: rest => do
    centralUnlockInode inodeId
    unlockAndReturn rest ret

/-- The part that `Mkdir`, `Rmdir`, `Creat` and `Unlink` share: the parent is
looked up and locked, and must be a directory that the caller may write. -/
def withParent (path : List Char) (uid gid : UInt32)
    (body : UInt64 → Inode → List Char → EngineProgram Int) : EngineProgram Int := do
  let (parentPath, name) := separateLastComponent (formatPath path)
  match ← pathLookupToDentry parentPath uid gid with
  | .error ret => return ret
  | .ok parentInodeId =>
    centralLockInode parentInodeId
    match ← getInodeById parentInodeId with
    | .error ret => unlockAndReturn [parentInodeId] ret
    | .ok parentInode =>
      if !isDir parentInode.mode then unlockAndReturn [parentInodeId] (-ENOTDIR)
      else if !checkWritePermission parentInode uid gid then
        unlockAndReturn [parentInodeId] (-EACCES)
      else body parentInodeId parentInode name

/-- The part of `Mkdir` and `Creat` from the test whether the name exists; they
differ in the inode they insert. -/
def createEntry (newInode : UInt64 → Inode) (parentInodeId : UInt64) (parentInode : Inode)
    (name : List Char) : EngineProgram Int := do
  match ← getDentryByParentIdAndName parentInodeId name with
  | .ok _ => unlockAndReturn [parentInodeId] (-EEXIST)
  | .error _ =>
    let newInodeId ← getNewInodeId
    let ret ← insertInode newInodeId (newInode newInodeId)
    if ret ≠ 0 then unlockAndReturn [parentInodeId] ret
    else
      let ret ← insertDentry parentInodeId name newInodeId
      if ret ≠ 0 then
        let _ ← deleteInode newInodeId
        unlockAndReturn [parentInodeId] ret
      else
        let ret ← updateInode parentInodeId
          { parentInode with children := parentInode.children + 1 }
        if ret ≠ 0 then
          let _ ← deleteInode newInodeId
          let _ ← deleteDentry parentInodeId name
          unlockAndReturn [parentInodeId] ret
        else unlockAndReturn [parentInodeId] 0

def mkdir (path : List Char) (uid gid mode : UInt32) (now : UInt64) : EngineProgram Int :=
  withParent path uid gid <| createEntry fun newInodeId =>
    { id := newInodeId, mode := S_IFDIR ||| mode, uid := uid, gid := gid, size := 0,
      atime := now, mtime := now, ctime := now, children := 0 }

/-- `Creat` does not set `children`. -/
def creat (path : List Char) (uid gid mode : UInt32) (now uninitChildren : UInt64) :
    EngineProgram Int :=
  withParent path uid gid <| createEntry fun newInodeId =>
    { id := newInodeId, mode := S_IFREG ||| mode, uid := uid, gid := gid, size := 0,
      atime := now, mtime := now, ctime := now, children := uninitChildren }

/-- The part of `Rmdir` and `Unlink` up to the target inode, which is locked and
handed to `body`. -/
def withTarget (parentInodeId : UInt64) (name : List Char)
    (body : UInt64 → Inode → EngineProgram Int) : EngineProgram Int := do
  match ← getDentryByParentIdAndName parentInodeId name with
  | .error ret => unlockAndReturn [parentInodeId] ret
  | .ok targetInodeId =>
    centralLockInode targetInodeId
    match ← getInodeById targetInodeId with
    | .error ret => unlockAndReturn [parentInodeId, targetInodeId] ret
    | .ok targetInode => body targetInodeId targetInode

/-- The writes of `Rmdir` and `Unlink`.  They differ in what follows when the
parent inode was updated (`finish`) and when that failed (`restored`). -/
def removeEntry (parentInodeId : UInt64) (parentInode : Inode) (name : List Char)
    (targetInodeId : UInt64) (targetInode : Inode) (finish : EngineProgram Int)
    (restored : Int → EngineProgram Int) : EngineProgram Int := do
  let ret ← deleteInode targetInodeId
  if ret ≠ 0 then unlockAndReturn [parentInodeId, targetInodeId] ret
  else
    let ret ← deleteDentry parentInodeId name
    if ret ≠ 0 then
      let _ ← insertInode targetInodeId targetInode
      unlockAndReturn [parentInodeId, targetInodeId] ret
    else
      let ret ← updateInode parentInodeId
        { parentInode with children := parentInode.children - 1 }
      if ret ≠ 0 then
        let _ ← insertInode targetInodeId targetInode
        let _ ← insertDentry parentInodeId name targetInodeId
        restored ret
      else finish

def rmdir (path : List Char) (uid gid : UInt32) : EngineProgram Int :=
  withParent path uid gid fun parentInodeId parentInode name =>
    withTarget parentInodeId name fun targetInodeId targetInode =>
      if !isDir targetInode.mode then
        unlockAndReturn [parentInodeId, targetInodeId] (-ENOTDIR)
      else if targetInode.children > 0 then
        unlockAndReturn [parentInodeId, targetInodeId] (-ENOTEMPTY)
      else
        removeEntry parentInodeId parentInode name targetInodeId targetInode
          (unlockAndReturn [targetInodeId, parentInodeId] 0)
          (unlockAndReturn [parentInodeId, targetInodeId])

/-- After a failed update of the parent `Unlink` does not return but runs on
into the final unlocks. -/
def unlink (path : List Char) (uid gid : UInt32) : EngineProgram Int :=
  withParent path uid gid fun parentInodeId parentInode name =>
    withTarget parentInodeId name fun targetInodeId targetInode =>
      if isDir targetInode.mode then
        unlockAndReturn [parentInodeId, targetInodeId] (-EISDIR)
      else
        removeEntry parentInodeId parentInode name targetInodeId targetInode
          (unlockAndReturn [parentInodeId, targetInodeId] 0)
          (unlockAndReturn [parentInodeId, targetInodeId, parentInodeId, targetInodeId])

/-- The inode that `InitThread(0)` makes; it does not set `children`. -/
def rootInode (now uninitChildren : UInt64) : Inode :=
  { id := kRootInodeId, mode := S_IFDIR ||| 0o755, uid := 0, gid := 0, size := 0,
    atime := now, mtime := now, ctime := now, children := uninitChildren }

/-- What `InitThread` does to the store. -/
def initThread (threadId now uninitChildren : UInt64) : EngineProgram Int :=
  if threadId = 0 then insertInode kRootInodeId (rootInode now uninitChildren) else return 0

/-- The calls of the public interface, with the time of day and the
uninitialised `children` field that they meet. -/
inductive Operation
  | mkdir (path : List Char) (uid gid mode : UInt32) (now : UInt64)
  | rmdir (path : List Char) (uid gid : UInt32)
  | creat (path : List Char) (uid gid mode : UInt32) (now uninitChildren : UInt64)
  | unlink (path : List Char) (uid gid : UInt32)
  | stat (path : List Char) (uid gid : UInt32)
deriving DecidableEq, Repr

def Operation.program : Operation → EngineProgram Int
  | .mkdir path uid gid mode now => Engine.mkdir path uid gid mode now
  | .rmdir path uid gid => Engine.rmdir path uid gid
  | .creat path uid gid mode now uninitChildren =>
    Engine.creat path uid gid mode now uninitChildren
  | .unlink path uid gid => Engine.unlink path uid gid
  | .stat path uid gid => do
    match ← Engine.stat path uid gid with
    | .error ret => return ret
    | .ok _ => return 0

def Operation.path : Operation → List Char
  | .mkdir path _ _ _ _ | .rmdir path _ _ | .creat path _ _ _ _ _ | .unlink path _ _
  | .stat path _ _ => path

def Operation.caller : Operation → UInt32 × UInt32
  | .mkdir _ uid gid _ _ | .rmdir _ uid gid | .creat _ uid gid _ _ _ | .unlink _ uid gid
  | .stat _ uid gid => (uid, gid)

theorem stat_program_reads (path : List Char) (uid gid : UInt32) :
    (Operation.stat path uid gid).program.Reads := by
  refine .bind (.bind (pathLookupToDentry_reads path uid gid) fun found => ?_) fun found => ?_
  · cases found with
    | error ret => exact .done _
    | ok inodeId => exact .search fun _ => .done _
  · cases found <;> exact .done _

end FuseeFs.Engine
