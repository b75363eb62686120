import FuseeFs.Client.Contents
import FuseeFs.Engine.Meta

/-!
# Threads of an engine

Every thread of an engine calls `InitThread`, which makes a client of its own.
`InitThread` computes a configuration for the thread, but the client is made
from the configuration of the engine, so that with `server_id = memory_num`
each client takes itself for the first one and initialises the hash table.
-/

namespace FuseeFs.Engine.Threads

open List Option Index Client KeyValue

abbrev backups (conf : GlobalConfig) : ℕ :=
  conf.numIdxRep.toNat - 1

structure FuseeClient (k : ℕ) where
  remoteMetaAddr : UInt64
  raceRoot : RaceHashRoot
  addrCache : AddrCache k

/-- The servers, and the clients of one engine by their thread ids; `tableInits`
counts the calls of `init_hash_table`. -/
structure Deployment (conf : GlobalConfig) where
  subtableAllocMaps : SubtableAllocMaps
  raceRoot : RaceHashRoot
  words : Words
  pairs : Location → KVPair
  allocated : List Location
  clients : UInt64 → Option (FuseeClient (backups conf))
  tableInits : ℕ

section Model

variable {conf : GlobalConfig} (missRateExceeds : UInt32 → UInt32 → Bool)

def Deployment.IsFresh (s : Deployment conf) : Prop :=
  (∀ serverId, s.subtableAllocMaps serverId = initSubtable) ∧
    (∀ thread, s.clients thread = none) ∧ s.tableInits = 0

def FuseeClient.toConf (client : FuseeClient (backups conf)) : Conf where
  raceRoot := client.raceRoot
  numReplication := conf.numReplication.toNat
  missRateExceeds := missRateExceeds

def Deployment.store (s : Deployment conf) (client : FuseeClient (backups conf)) :
    Client.Store (backups conf) where
  words := s.words
  pairs := s.pairs
  addrCache := client.addrCache
  allocated := s.allocated

def Deployment.withStore (s : Deployment conf) (thread : UInt64)
    (client : FuseeClient (backups conf)) (store : Client.Store (backups conf)) : Deployment conf :=
  { s with
    words := store.words
    pairs := store.pairs
    allocated := store.allocated
    clients := Function.update s.clients thread
      (some { client with addrCache := store.addrCache }) }

/-- `remote_meta_addr_`, computed with 32-bit integers. -/
def remoteMetaAddr (conf : GlobalConfig) : UInt64 :=
  conf.serverBaseAddr + (UInt32.ofNat clientMetaLen * (conf.serverId - conf.memoryNum + 1)).toUInt64

def newClient (clientConf : GlobalConfig) (s : Deployment conf) :
    Deployment conf × FuseeClient (backups conf) :=
  if clientConf.serverId - clientConf.memoryNum = 0 then
    let (raceRoot, maps) := initHashTable clientConf s.raceRoot s.subtableAllocMaps
    ({ s with
        subtableAllocMaps := maps
        raceRoot := raceRoot
        tableInits := s.tableInits + 1 },
      { remoteMetaAddr := remoteMetaAddr clientConf, raceRoot := raceRoot, addrCache := fun _ => none })
  else
    (s, { remoteMetaAddr := remoteMetaAddr clientConf, raceRoot := s.raceRoot,
          addrCache := fun _ => none })

/-- The configuration that `InitThread` computes and does not use. -/
def threadLocalFuseeClientConf (conf : GlobalConfig) (thread : UInt64) : GlobalConfig :=
  { conf with
    serverId := thread.toUInt32
    mainCoreId := conf.mainCoreId + (thread * 2).toUInt32
    pollCoreId := conf.pollCoreId + (thread * 2).toUInt32 }

def rootInodeKey : List UInt8 :=
  (getInodeKey kRootInodeId).map fun digit => UInt8.ofNat digit.toNat

inductive Event (k : ℕ)
  /-- The memory and the buffer are for the root inode, which thread 0 inserts. -/
  | initThread (thread : UInt64) (inode : Inode) (mmAllocCtx : ClientMMAllocCtx) (opWord : UInt64)
  | exec (thread : UInt64) (op : Client.Operation k)

def insertRootInode (inode : Inode) (mmAllocCtx : ClientMMAllocCtx) (opWord : UInt64) : WriteReq where
  key := rootInodeKey
  value := encodeInode inode
  useCache := false
  mmAllocCtx := mmAllocCtx
  opWord := opWord

/-- `Engine::InitThread`.  The thread's own configuration is made, but the
engine's one is passed to the client. -/
def initThread (thread : UInt64) (inode : Inode) (mmAllocCtx : ClientMMAllocCtx) (opWord : UInt64)
    (s : Deployment conf) : Option (Deployment conf) :=
  let _ := threadLocalFuseeClientConf conf thread
  let created := newClient conf s
  let s := { created.1 with clients := Function.update created.1.clients thread (some created.2) }
  if thread = 0 then
    (kvInsertSync (created.2.toConf missRateExceeds) (insertRootInode inode mmAllocCtx opWord)
      (s.store created.2)).map fun result => s.withStore thread created.2 result.1
  else some s

def step (s : Deployment conf) : Event (backups conf) → Option (Deployment conf)
  | .initThread thread inode mmAllocCtx opWord =>
    initThread missRateExceeds thread inode mmAllocCtx opWord s
  | .exec thread op =>
    (s.clients thread).bind fun client =>
      (exec (client.toConf missRateExceeds) (s.store client) op).map fun result =>
        s.withStore thread client result.1

def run (s : Deployment conf) : List (Event (backups conf)) → Option (Deployment conf)
  | [] => some s
  | event :: events => (step missRateExceeds s event).bind (run · events)

def DisjointAreas (s : Deployment conf) : Prop :=
  ∀ thread other client otherClient, thread ≠ other → s.clients thread = some client →
    s.clients other = some otherClient →
      client.remoteMetaAddr.toNat + clientMetaLen ≤ otherClient.remoteMetaAddr.toNat ∨
        otherClient.remoteMetaAddr.toNat + clientMetaLen ≤ client.remoteMetaAddr.toNat

def Findable (s : Deployment conf) (thread : UInt64) (key : List UInt8) : Prop :=
  ∃ client ∈ s.clients thread,
    ((s.store client).contents (client.toConf missRateExceeds) key).isSome

def KeepsKeys (s after : Deployment conf) : Prop :=
  ∀ key, (∃ thread, Findable missRateExceeds s thread key) →
    ∀ thread, (after.clients thread).isSome → Findable missRateExceeds after thread key

def Event.StartsThread {k : ℕ} : Event k → Prop
  | .initThread _ _ _ _ => True
  | .exec _ _ => False

/-- In all states of a run the areas are disjoint and the table is initialised
once, and no start of a thread loses a key. -/
def StorePreserved : Deployment conf → List (Event (backups conf)) → Prop
  | s, [] => DisjointAreas s ∧ s.tableInits = 1
  | s, event :: events =>
    (DisjointAreas s ∧ s.tableInits = 1) ∧
      ∀ after ∈ step missRateExceeds s event,
        (event.StartsThread → KeepsKeys missRateExceeds s after) ∧ StorePreserved after events

end Model

section Clients

variable {conf : GlobalConfig} {missRateExceeds : UInt32 → UInt32 → Bool}

theorem tableInits_newClient (first : conf.serverId = conf.memoryNum) (s : Deployment conf) :
    (newClient conf s).1.tableInits = s.tableInits + 1 := by
  simp [newClient, first]

theorem clients_newClient (s : Deployment conf) : (newClient conf s).1.clients = s.clients := by
  unfold newClient
  split_ifs <;> rfl

variable {s after : Deployment conf} {mmAllocCtx : ClientMMAllocCtx}

/-- Every start of a thread initialises the table, and leaves other clients
alone. -/
theorem initThread_spec (first : conf.serverId = conf.memoryNum) {thread : UInt64} {inode : Inode}
    {opWord : UInt64}
    (taken : initThread missRateExceeds thread inode mmAllocCtx opWord s = some after) :
    after.tableInits = s.tableInits + 1 ∧
      ∀ other, other ≠ thread → after.clients other = s.clients other := by
  have counted := tableInits_newClient first s
  have clients := clients_newClient s
  unfold initThread at taken
  generalize newClient conf s = created at counted clients taken
  dsimp only at taken
  split_ifs at taken
  · obtain ⟨_, -, rfl⟩ := map_eq_some_iff.mp taken
    refine ⟨counted, fun other apart => ?_⟩
    simp [Deployment.withStore, apart, clients]
  · obtain rfl := some.inj taken
    refine ⟨counted, fun other apart => ?_⟩
    simp [apart, clients]

variable {event : Event (backups conf)}

theorem tableInits_of_startsThread (first : conf.serverId = conf.memoryNum)
    (starts : event.StartsThread) (taken : step missRateExceeds s event = some after) :
    after.tableInits = s.tableInits + 1 := by
  cases event with
  | exec => exact starts.elim
  | initThread => exact (initThread_spec first taken).1

theorem step_exec (operates : ¬ event.StartsThread)
    (taken : step missRateExceeds s event = some after) :
    after.tableInits = s.tableInits ∧
      ∀ thread, (after.clients thread).isSome = (s.clients thread).isSome := by
  cases event with
  | initThread => exact absurd trivial operates
  | exec thread op =>
    obtain ⟨_, present, taken⟩ := bind_eq_some_iff.mp taken
    obtain ⟨_, -, rfl⟩ := map_eq_some_iff.mp taken
    refine ⟨rfl, fun other => ?_⟩
    by_cases same : other = thread
    · simp [Deployment.withStore, same, present]
    · simp [Deployment.withStore, same]

def OnlyFirst (s : Deployment conf) : Prop :=
  s.tableInits = 1 ∧ ∀ thread, (s.clients thread).isSome → thread = 0

theorem OnlyFirst.safe (only : OnlyFirst s) : DisjointAreas s ∧ s.tableInits = 1 := by
  refine ⟨fun thread other client otherClient apart present otherPresent => absurd ?_ apart, only.1⟩
  rw [only.2 thread (by simp [present]), only.2 other (by simp [otherPresent])]

theorem OnlyFirst.step_exec (only : OnlyFirst s) (operates : ¬ event.StartsThread)
    (taken : step missRateExceeds s event = some after) : OnlyFirst after := by
  obtain ⟨inits, clients⟩ := Threads.step_exec operates taken
  refine ⟨inits.trans only.1, fun thread present => only.2 thread ?_⟩
  rw [← clients]
  exact present

theorem onlyFirst_of_isFresh (first : conf.serverId = conf.memoryNum) {fresh : Deployment conf}
    (isFresh : fresh.IsFresh) {inode : Inode} {opWord : UInt64}
    (started : initThread missRateExceeds 0 inode mmAllocCtx opWord fresh = some s) :
    OnlyFirst s := by
  obtain ⟨counted, others⟩ := initThread_spec first started
  refine ⟨by rw [counted, isFresh.2.2], fun thread present => ?_⟩
  by_contra other
  rw [others thread other, isFresh.2.1] at present
  cases present

variable {events : List (Event (backups conf))}

/-- Once a further thread has been started, the table has been initialised
again, and every later state tells. -/
theorem onlyFirst_of_storePreserved (first : conf.serverId = conf.memoryNum)
    (executed : (run missRateExceeds s events).isSome)
    (preserved : StorePreserved missRateExceeds s events) :
    ∀ event ∈ events, ¬ event.StartsThread := by
  induction events generalizing s with
  | nil => simp
  | cons event events ih =>
    obtain ⟨⟨-, _⟩, later⟩ := preserved
    rw [run] at executed
    cases taken : step missRateExceeds s event with
    | none => simp [taken] at executed
    | some after =>
      rw [taken, bind_some] at executed
      obtain ⟨-, preserved⟩ := later after taken
      intro other mem
      obtain rfl | mem := mem_cons.mp mem
      · intro starts
        have twice := tableInits_of_startsThread first starts taken
        have stillOnce : after.tableInits = 1 := by
          cases events with
          | nil => exact preserved.2
          | cons => exact preserved.1.2
        omega
      · exact ih executed preserved other mem

theorem OnlyFirst.storePreserved (only : OnlyFirst s)
    (operates : ∀ event ∈ events, ¬ event.StartsThread) :
    StorePreserved missRateExceeds s events := by
  induction events generalizing s with
  | nil => exact only.safe
  | cons event events ih =>
    refine ⟨only.safe, fun after taken => ⟨fun starts => ?_, ?_⟩⟩
    · exact absurd starts (operates event mem_cons_self)
    · refine ih (only.step_exec (operates event mem_cons_self) taken) ?_
      exact fun other mem => operates other (mem_cons_of_mem _ mem)

/-- After `InitThread(0)` the store is preserved exactly in the runs in which no
further thread is started. -/
theorem storePreserved_iff_no_thread_started (first : conf.serverId = conf.memoryNum)
    {fresh s : Deployment conf} (isFresh : fresh.IsFresh) {inode : Inode}
    {mmAllocCtx : ClientMMAllocCtx} {opWord : UInt64}
    (started : initThread missRateExceeds 0 inode mmAllocCtx opWord fresh = some s)
    {events : List (Event (backups conf))} (executed : (run missRateExceeds s events).isSome) :
    StorePreserved missRateExceeds s events ↔ ∀ event ∈ events, ¬ event.StartsThread :=
  ⟨onlyFirst_of_storePreserved first executed,
    (onlyFirst_of_isFresh first isFresh started).storePreserved⟩

end Clients

instance {conf : GlobalConfig} (missRateExceeds : UInt32 → UInt32 → Bool) (s : Deployment conf)
    (thread : UInt64) (key : List UInt8) : Decidable (Findable missRateExceeds s thread key) := by
  unfold Findable
  infer_instance

def sampleConfig : GlobalConfig where
  serverId := 1
  memoryNum := 1
  serverBaseAddr := 0x10000000
  serverDataLen := 0x800000000
  blockSize := 0x4000000
  numReplication := 1
  numIdxRep := 1
  mainCoreId := 0
  pollCoreId := 1

def sampleServers : Deployment sampleConfig where
  subtableAllocMaps _ := initSubtable
  raceRoot := ⟨fun _ _ => ⟨0, [0, 0, 0, 0, 0]⟩⟩
  words _ := 0
  pairs _ := ⟨false, [], []⟩
  allocated := []
  clients _ := none
  tableInits := 0

theorem isFresh_sampleServers : sampleServers.IsFresh :=
  ⟨fun _ => rfl, fun _ => rfl, rfl⟩

def sampleRootInode : Inode where
  id := kRootInodeId
  size := 0
  atime := 1
  mtime := 1
  ctime := 1
  children := 0
  mode := S_IFDIR ||| 0o755
  uid := 0
  gid := 0

def sampleSubblock : ClientMMAllocCtx where
  numSubblocks := 1
  serverId := 0
  addr := 0x28008000
  numSubblocks_ne_zero := one_subblock_ne_zero
  addr_aligned := by decide
  addr_lt := by decide

def sampleInitThread (thread : UInt64) (s : Deployment sampleConfig) :
    Option (Deployment sampleConfig) :=
  initThread (fun _ _ => false) thread sampleRootInode sampleSubblock 0 s

theorem isSome_sampleInitThread : (sampleInitThread 0 sampleServers).isSome := by
  decide +kernel

theorem storePreserved_iff_no_thread_started_sample : ∃ s,
    sampleInitThread 0 sampleServers = some s ∧
      ¬ StorePreserved (fun _ _ => false) s
        [.initThread 1 sampleRootInode sampleSubblock 0] := by
  obtain ⟨s, started⟩ := isSome_iff_exists.mp isSome_sampleInitThread
  refine ⟨s, started, fun preserved => ?_⟩
  exact (storePreserved_iff_no_thread_started rfl isFresh_sampleServers started rfl).mp preserved _
    mem_cons_self trivial

/-- A second thread uses the same metadata area as the first, initialises the
table again and does not find the root inode. -/
theorem second_thread_loses_root_inode : ∃ s after,
    sampleInitThread 0 sampleServers = some s ∧ sampleInitThread 1 s = some after ∧
      ¬ DisjointAreas after ∧ after.tableInits = 2 ∧
      Findable (fun _ _ => false) s 0 rootInodeKey ∧
      ¬ Findable (fun _ _ => false) after 1 rootInodeKey := by
  obtain ⟨s, started⟩ := isSome_iff_exists.mp isSome_sampleInitThread
  have executed : (sampleInitThread 0 sampleServers).any fun s =>
      Findable (fun _ _ => false) s 0 rootInodeKey ∧
        (sampleInitThread 1 s).any fun after =>
          (after.clients 0).map FuseeClient.remoteMetaAddr = some (remoteMetaAddr sampleConfig) ∧
            (after.clients 1).map FuseeClient.remoteMetaAddr = some (remoteMetaAddr sampleConfig) ∧
            after.tableInits = 2 ∧ ¬ Findable (fun _ _ => false) after 1 rootInodeKey := by
    decide +kernel
  rw [started, any_some, decide_eq_true_eq] at executed
  obtain ⟨found, executed⟩ := executed
  obtain ⟨after, second⟩ : ∃ after, sampleInitThread 1 s = some after := ⟨_, rfl⟩
  rw [second, any_some, decide_eq_true_eq] at executed
  obtain ⟨first, other, inits, lost⟩ := executed
  refine ⟨s, after, started, second, fun disjoint => ?_, inits, found, lost⟩
  obtain ⟨client, present, addr⟩ := map_eq_some_iff.mp first
  obtain ⟨otherClient, otherPresent, otherAddr⟩ := map_eq_some_iff.mp other
  have apart := disjoint 0 1 client otherClient (by decide) present otherPresent
  rw [addr, otherAddr, clientMetaLen] at apart
  omega

end FuseeFs.Engine.Threads
