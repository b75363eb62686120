import FuseeFs.Recovery.Insert

/-!
# The words that a replay writes

Whatever entry `client_recovery` replays, the only word it ever writes to the
index is the slot of that entry.  An insert is installed if it finds an empty
slot, whether or not the insert had returned before the crash.
-/

namespace FuseeFs.Recovery

open Function Index Replication

variable {k : ℕ} {req : Request}

theorem casSlot_words (buckets : Buckets) (pos : Position) (origValue swapValue : UInt64)
    (other : Position) :
    casSlot buckets pos origValue swapValue other = buckets other ∨
      casSlot buckets pos origValue swapValue other = swapValue := by
  unfold casSlot
  split_ifs
  · by_cases same : other = pos
    · rw [same]
      exact .inr (update_self ..)
    · exact .inl (update_of_ne same _ _)
  · exact .inl rfl

def WordsFrom (req : Request) (before index : IndexReplicas k) : Prop :=
  ∀ replica pos, index replica pos = before replica pos ∨ index replica pos = req.target

section Words

variable {before index : IndexReplicas k} (words : WordsFrom req before index)
  {cas : KVCASAddr} (swaps : cas.swapValue = req.target)
include words swaps

theorem WordsFrom.casSlot (replica : Fin (k + 1)) (origValue : UInt64) (other : Position) :
    Index.casSlot (index replica) cas.position origValue cas.swapValue other =
        before replica other ∨
      Index.casSlot (index replica) cas.position origValue cas.swapValue other = req.target := by
  obtain kept | written := casSlot_words (index replica) cas.position origValue cas.swapValue other
  · rw [kept]
    exact words replica other
  · exact .inr (written.trans swaps)

theorem WordsFrom.casBackups (expected : Fin k → Option UInt64) :
    WordsFrom req before (casBackups cas expected index) := by
  intro replica pos
  refine Fin.cases (words 0 pos) (fun backup => ?_) replica
  unfold Recovery.casBackups
  rw [Fin.cons_succ]
  cases expected backup with
  | none => exact words backup.succ pos
  | some origValue => exact words.casSlot swaps backup.succ origValue pos

theorem WordsFrom.casPrimary :
    WordsFrom req before (update index 0
      (Index.casSlot (index 0) cas.position cas.origValue cas.swapValue)) := by
  intro replica pos
  by_cases primary : replica = 0
  · rw [primary, update_self]
    exact words.casSlot swaps 0 cas.origValue pos
  · rw [update_of_ne primary]
    exact words replica pos

end Words

theorem bind_eq_ok {First Second : Type} {first : Except Abort First}
    {second : First → Except Abort Second} {result : Second}
    (returned : first >>= second = .ok result) :
    ∃ middle, first = .ok middle ∧ second middle = .ok result := by
  cases first with
  | error abort => cases returned
  | ok middle => exact ⟨middle, rfl, returned⟩

structure WritesTarget (req : Request) (before : IndexReplicas k) (ctx : KVReqCtx k) : Prop where
  words : WordsFrom req before ctx.index
  swaps : ∀ cas, ctx.casAddr = some cas → cas.swapValue = req.target

namespace WritesTarget

variable {before : IndexReplicas k} {ctx after : KVReqCtx k}
  (writes : WritesTarget req before ctx)
include writes

theorem modifyBackupIdx (pos : Position) :
    WritesTarget req before (modifyBackupIdx (recoverCas req ctx pos) ctx) := by
  have swaps : (recoverCas req ctx pos).swapValue = req.target := rfl
  constructor
  · exact writes.words.casBackups swaps fun _ => some _
  · intro cas same
    obtain rfl := Option.some.inj same
    exact swaps

theorem modifyBackupIdxConsensus1Sync {opWord : UInt64}
    (counted : modifyBackupIdxConsensus1Sync opWord ctx = .ok after) :
    WritesTarget req before after := by
  unfold Recovery.modifyBackupIdxConsensus1Sync at counted
  split at counted
  · cases counted
  · rename_i cas target
    split at counted
    · cases counted
    all_goals
      rename_i voted
      obtain rfl := Except.ok.inj counted
      refine ⟨?_, writes.swaps⟩
      obtain rfl | ⟨expected, rfl⟩ := SlotCas.modifyBackupIdxConsensus1Sync_cases voted
      · exact writes.words
      · exact writes.words.casBackups (writes.swaps cas target) expected

theorem modifyBackupIdxConsensus1 (counted : modifyBackupIdxConsensus1 ctx = .ok after) :
    WritesTarget req before after := by
  obtain ⟨_, -, won⟩ | ⟨_, lost⟩ := modifyBackupIdxConsensus1_cases ctx
  · rw [won] at counted
    obtain rfl := Except.ok.inj counted
    exact ⟨writes.words, writes.swaps⟩
  · rw [lost] at counted
    cases counted

theorem modifyPrimaryIdxSync (modified : modifyPrimaryIdxSync ctx = .ok after) :
    WritesTarget req before after := by
  unfold Recovery.modifyPrimaryIdxSync at modified
  split_ifs at modified
  · obtain rfl := Except.ok.inj modified
    exact writes
  · rename_i unfailed
    split at modified
    · cases modified
    · rename_i cas target
      obtain rfl := Except.ok.inj modified
      refine ⟨?_, writes.swaps⟩
      dsimp only
      rw [modifyPrimaryIdxSync_slotCas cas unfailed]
      exact writes.words.casPrimary (writes.swaps cas target)

theorem recoverUpdateGenCasPrAddr (filled : recoverUpdateGenCasPrAddr req ctx = .ok after) :
    WritesTarget req before after := by
  unfold Recovery.recoverUpdateGenCasPrAddr at filled
  obtain ⟨_, -, filled⟩ := bind_eq_ok filled
  obtain rfl := Except.ok.inj filled
  refine ⟨writes.words, ?_⟩
  intro cas same
  obtain rfl := Option.some.inj same
  rfl

theorem kvRecoverCasPrimary (modified : kvRecoverCasPrimary req ctx = .ok after) :
    WritesTarget req before after := by
  unfold Recovery.kvRecoverCasPrimary at modified
  split_ifs at modified
  · obtain ⟨_, generated, modified⟩ := bind_eq_ok modified
    exact (writes.recoverUpdateGenCasPrAddr generated).modifyPrimaryIdxSync modified
  · obtain rfl := Except.ok.inj modified
    exact writes
  · exact writes.modifyPrimaryIdxSync modified

theorem kvRecoverCommitLog : WritesTarget req before (kvRecoverCommitLog ctx) := by
  unfold Recovery.kvRecoverCommitLog
  split_ifs
  · exact ⟨writes.words, writes.swaps⟩
  · exact ⟨writes.words, writes.swaps⟩

theorem kvRecoverFinish {count : KVReqCtx k → Except Abort (KVReqCtx k)}
    (counts : ∀ counted, count ctx = .ok counted → WritesTarget req before counted)
    (finished : kvRecoverFinish req count ctx = .ok after) : WritesTarget req before after := by
  unfold Recovery.kvRecoverFinish at finished
  split_ifs at finished
  · obtain ⟨won, counted, finished⟩ := bind_eq_ok finished
    have writesWon : WritesTarget req before won := by
      unfold kvRecoverBackupConsensus1 at counted
      split_ifs at counted
      · obtain rfl := Except.ok.inj counted
        exact ⟨writes.words, writes.swaps⟩
      · exact counts won counted
    exact writesWon.kvRecoverCommitLog.kvRecoverCasPrimary finished
  · exact writes.kvRecoverCasPrimary finished

theorem checkRecoverNeedCasPr : WritesTarget req before (checkRecoverNeedCasPr req ctx) := by
  unfold Recovery.checkRecoverNeedCasPr
  split_ifs
  · exact ⟨writes.words, writes.swaps⟩
  · exact ⟨writes.words, writes.swaps⟩

theorem kvRecoverInsertBackupConsensus0
    (begun : kvRecoverInsertBackupConsensus0 req ctx = .ok after) :
    WritesTarget req before after := by
  unfold Recovery.kvRecoverInsertBackupConsensus0 at begun
  by_cases committed : ctx.recoverCommitted
  · rw [if_pos committed] at begun
    obtain rfl := Except.ok.inj begun
    exact writes.checkRecoverNeedCasPr
  · rw [if_neg committed] at begun
    dsimp only at begun
    split_ifs at begun
    · obtain ⟨pos, -, begun⟩ := bind_eq_ok begun
      obtain rfl := Except.ok.inj begun
      exact writes.modifyBackupIdx pos
    · split at begun
      · cases begun
      · rename_i pos found
        obtain rfl := Except.ok.inj begun
        exact writes.modifyBackupIdx pos

theorem kvRecoverUpdateReadKv : WritesTarget req before (kvRecoverUpdateReadKv req ctx) := by
  unfold Recovery.kvRecoverUpdateReadKv
  dsimp only
  split_ifs
  · exact writes.checkRecoverNeedCasPr
  · exact ⟨writes.words, writes.swaps⟩
  · exact ⟨writes.words, writes.swaps⟩

theorem kvRecoverUpdateBackupConsensus0 (junk : Uninitialised) :
    WritesTarget req before (kvRecoverUpdateBackupConsensus0 req junk ctx) := by
  unfold Recovery.kvRecoverUpdateBackupConsensus0
  split_ifs
  · exact writes
  · have compared : WritesTarget req before
        { ctx with comparedUnread := !ctx.kvRead && !ctx.kvIdxList.isEmpty } :=
      ⟨writes.words, writes.swaps⟩
    dsimp only
    split
    · exact ⟨writes.words, writes.swaps⟩
    · rename_i pos found
      exact compared.modifyBackupIdx pos

end WritesTarget

/-- A replay writes nothing but the slot of the entry that it replays. -/
theorem wordsFrom_clientRecovery {junk : Uninitialised} {memory : Memory k}
    {recovered : KVReqCtx k} (returned : clientRecovery req junk memory = .ok recovered) :
    WordsFrom req memory.index recovered.index := by
  have initial : WritesTarget req memory.index (initRecoverReqCtx junk memory) :=
    ⟨fun _ _ => .inl rfl, fun cas absent => by cases absent⟩
  have read : ∀ ctx, kvRecoverReadAllBuckets req (initRecoverReqCtx junk memory) =
      .ok ctx → WritesTarget req memory.index ctx := by
    intro ctx counted
    unfold kvRecoverReadAllBuckets at counted
    split_ifs at counted
    obtain rfl := Except.ok.inj counted
    exact ⟨initial.words, initial.swaps⟩
  unfold clientRecovery at returned
  dsimp only at returned
  by_cases insert : logIsInsert memory.tail
  · rw [if_pos insert] at returned
    obtain ⟨ctx, counted, returned⟩ := bind_eq_ok returned
    obtain ⟨_, cas, returned⟩ := bind_eq_ok returned
    have writes := (read ctx counted).kvRecoverInsertBackupConsensus0 cas
    apply WritesTarget.words
    apply writes.kvRecoverFinish _ returned
    exact fun _ => writes.modifyBackupIdxConsensus1Sync
  · rw [if_neg insert] at returned
    obtain ⟨ctx, counted, returned⟩ := bind_eq_ok returned
    have writes := (read ctx counted).kvRecoverUpdateReadKv.kvRecoverUpdateBackupConsensus0 junk
    apply WritesTarget.words
    apply writes.kvRecoverFinish _ returned
    exact fun _ => writes.modifyBackupIdxConsensus1

/-- The recovery returned and has changed some slot of some replica. -/
def Changes (before : IndexReplicas k) (result : Except Abort (KVReqCtx k)) : Prop :=
  ∃ recovered, result = .ok recovered ∧ ∃ replica pos,
    recovered.index replica pos ≠ before replica pos

/-- When the replay of an insert does it again. -/
structure InsertRedone (req : Request) (junk : Uninitialised) (memory : Memory k) :
    Prop where
  counts : k + 1 = req.numReplication
  uncommitted : logIsCommitted memory.tail = false
  unmodified : junk.hasModifiedBkIdx = false
  free : findEmptySlot (memory.index 0) req.fMainIdx req.sMainIdx ≠ none
  unfailed : ¬(k = 0 ∧ junk.consensusState = .fail)

/-- The slot that the replay of an update takes for that of the key: the first
candidate that points to the key or, where a candidate lies at the address of the
log entry, the first whose unread buffer seems to hold the key. -/
def updateMatch (req : Request) (junk : Uninitialised) (buckets : Buckets) :
    Option Position :=
  let candidates := findKvInBuckets req.fp buckets
  if ownAddress req buckets then
    (candidates.zipIdx.find? fun entry => junk.kvBuffer entry.2).map Prod.fst
  else candidates.find? fun pos => req.checkKey (buckets pos)

/-- When the replay of another operation changes a slot. -/
structure UpdateRedone (req : Request) (junk : Uninitialised) (memory : Memory k) :
    Prop where
  counts : k + 1 = req.numReplication
  uncommitted : logIsCommitted memory.tail = false
  matched : ∃ pos, updateMatch req junk (memory.index 0) = some pos ∧
    memory.index 0 pos ≠ req.target
  unfailed : ¬(k = 0 ∧ junk.consensusState = .fail)

def Redone (req : Request) (junk : Uninitialised) (memory : Memory k) : Prop :=
  if logIsInsert memory.tail then InsertRedone req junk memory
  else UpdateRedone req junk memory

section Changes

variable {junk : Uninitialised} {memory : Memory k} {before : IndexReplicas k}
  {result : Except Abort (KVReqCtx k)}

theorem not_changes_of_error {abort : Abort} (aborted : outcome result = .error abort) :
    ¬ Changes before result := by
  rintro ⟨_, rfl, -⟩
  cases aborted

theorem not_changes_of_unchanged {compared : Bool}
    (returned : outcome result = .ok (before, compared)) : ¬ Changes before result := by
  rintro ⟨_, rfl, _, _, changed⟩
  obtain ⟨same, -⟩ := Prod.mk.inj (Except.ok.inj returned)
  rw [same] at changed
  exact changed rfl

theorem changes_of_installed {compared : Bool} {pos : Position} {word : UInt64}
    (ne : before 0 pos ≠ word)
    (returned : outcome result = .ok (installed before pos word, compared)) :
    Changes before result := by
  cases result with
  | error abort => cases returned
  | ok recovered =>
    obtain ⟨same, -⟩ := Prod.mk.inj (Except.ok.inj returned)
    refine ⟨recovered, rfl, 0, pos, ?_⟩
    rw [same, installed, update_self]
    exact ne.symm

theorem not_changes_of_committed (counts : k + 1 = req.numReplication)
    (committed : logIsCommitted memory.tail)
    (agree : ∀ replica, memory.index replica = memory.index 0) :
    ¬ Changes memory.index (clientRecovery req junk memory) := by
  by_cases present : ∃ pos, memory.index 0 pos = req.target
  · exact not_changes_of_unchanged
      (outcome_committed_unchanged junk counts committed (.inl present))
  · have absent : ∀ pos, memory.index 0 pos ≠ req.target := not_exists.mp present
    cases k with
    | zero => exact not_changes_of_error (outcome_committed_single counts committed absent)
    | succ k =>
      have noMatch : backupMatches req.target memory.index = [] := by
        refine List.flatMap_eq_nil_iff.mpr fun backup _ => matchingSlots_eq_nil_iff.mpr ?_
        rw [agree]
        exact absent
      apply not_changes_of_unchanged
      apply outcome_committed_unchanged junk counts committed
      rw [noMatch]
      exact .inr k.succ_ne_zero.symm

theorem ne_target_of_findEmptySlot {buckets : Buckets} {fMainIdx sMainIdx : Fin 2}
    {pos : Position} (free : findEmptySlot buckets fMainIdx sMainIdx = some pos) :
    buckets pos ≠ req.target := by
  intro same
  have empty := isFree_of_findEmptySlot free
  rw [same] at empty
  exact req.not_binds_of_isFree empty req.binds_target

variable (agree : ∀ replica, memory.index replica = memory.index 0)
include agree

theorem Changes.begun (changes : Changes memory.index (clientRecovery req junk memory)) :
    k + 1 = req.numReplication ∧ logIsCommitted memory.tail = false := by
  have counts : k + 1 = req.numReplication := by
    by_contra counts
    exact not_changes_of_error (outcome_replicaCounts counts) changes
  refine ⟨counts, ?_⟩
  by_contra committed
  exact not_changes_of_committed counts (Bool.not_eq_false _ ▸ committed) agree changes

theorem changes_insert_iff (insert : logIsInsert memory.tail) :
    Changes memory.index (clientRecovery req junk memory) ↔ InsertRedone req junk memory := by
  constructor
  · intro changes
    obtain ⟨counts, uncommitted⟩ := changes.begun agree
    have unmodified : junk.hasModifiedBkIdx = false := by
      by_contra modified
      exact not_changes_of_error (outcome_insert_modified counts insert uncommitted
        (Bool.not_eq_false _ ▸ modified)) changes
    cases free : findEmptySlot (memory.index 0) req.fMainIdx req.sMainIdx with
    | none =>
      have full := outcome_insert_full counts insert uncommitted unmodified free
      exact absurd changes (not_changes_of_error full)
    | some pos =>
      refine ⟨counts, uncommitted, unmodified, by simp [free], ?_⟩
      rintro ⟨single, failed⟩
      have unchanged := outcome_insert_single counts insert uncommitted unmodified free single
      rw [if_pos failed] at unchanged
      exact not_changes_of_unchanged unchanged changes
  · rintro ⟨counts, uncommitted, unmodified, found, unfailed⟩
    obtain ⟨_, free⟩ := Option.ne_none_iff_exists'.mp found
    apply changes_of_installed (ne_target_of_findEmptySlot free)
    by_cases single : k = 0
    · have redone := outcome_insert_single counts insert uncommitted unmodified free single
      rw [if_neg fun failed => unfailed ⟨single, failed⟩] at redone
      exact redone
    · apply outcome_insert_backups counts insert uncommitted unmodified free
        (Nat.pos_of_ne_zero single)
      intro backup
      rw [agree]
      exact .inl rfl

omit agree in
variable (req junk) in
/-- The context of a replayed update after its first round on the backups. -/
theorem exists_updateRedone (uncommitted : logIsCommitted memory.tail = false) :
    ∃ base : KVReqCtx k, base.index = memory.index ∧ base.recoverCommitted = false ∧
      base.casAddr = none ∧ base.consensusState = junk.consensusState ∧
      kvRecoverUpdateBackupConsensus0 req junk
          (kvRecoverUpdateReadKv req (bucketsRead junk memory)) =
        (updateMatch req junk (memory.index 0)).elim base fun pos =>
          modifyBackupIdx ⟨pos, memory.index 0 pos, req.target⟩ base := by
  have read := @kvRecoverUpdateReadKv_uncommitted k req junk memory uncommitted
  generalize kvRecoverUpdateReadKv req (bucketsRead junk memory) = ctx at read ⊢
  have isUncommitted : ctx.recoverCommitted = false := by
    rw [read]
    exact uncommitted
  have chosen : findMatchKvIdx req junk.kvBuffer
      { ctx with comparedUnread := !ctx.kvRead && !ctx.kvIdxList.isEmpty } =
        updateMatch req junk (memory.index 0) := by
    rw [findMatchKvIdx, updateMatch, read]
    dsimp only
    cases ownAddress req (memory.index 0) <;> rfl
  have kept : ctx.index = memory.index ∧ ctx.casAddr = none ∧
      ctx.consensusState = junk.consensusState ∧ ctx.localBuckets = memory.index := by
    rw [read]
    exact ⟨rfl, rfl, rfl, rfl⟩
  obtain ⟨index, unset, s, buckets⟩ := kept
  rw [kvRecoverUpdateBackupConsensus0, if_neg (by simp [isUncommitted])]
  dsimp only
  rw [chosen, ← buckets]
  cases updateMatch req junk (ctx.localBuckets 0) with
  | none =>
    exact ⟨{ ctx with comparedUnread := !ctx.kvRead && !ctx.kvIdxList.isEmpty, isFinished := true },
      index.trans buckets.symm, isUncommitted, unset, s, rfl⟩
  | some pos =>
    exact ⟨{ ctx with comparedUnread := !ctx.kvRead && !ctx.kvIdxList.isEmpty },
      index.trans buckets.symm, isUncommitted, unset, s, rfl⟩

omit agree in
theorem modifyBackupIdxConsensus1_unanimous (backups : 0 < k) (cas : KVCASAddr) (ctx : KVReqCtx k)
    (own : ∀ backup : Fin k, ctx.index backup.succ cas.position = cas.origValue ∨
      ctx.index backup.succ cas.position = cas.swapValue) :
    modifyBackupIdxConsensus1 (modifyBackupIdx cas ctx) =
      .ok { modifyBackupIdx cas ctx with consensusState := .winAll, isFinished := false } := by
  have unanimous := checkCasConsensus0_of_unanimous backups own
  simp only [modifyBackupIdxConsensus1, modifyBackupIdx]
  rw [unanimous]

section Finish

variable {base : KVReqCtx k} (index : base.index = memory.index)
  (uncommitted : base.recoverCommitted = false)
  (unfailed : ¬(k = 0 ∧ base.consensusState = .fail))
include index uncommitted unfailed

theorem outcome_kvRecoverFinish_found (pos : Position) :
    outcome (kvRecoverFinish req modifyBackupIdxConsensus1
        (modifyBackupIdx ⟨pos, memory.index 0 pos, req.target⟩ base)) =
      .ok (installed memory.index pos req.target, base.comparedUnread) := by
  have own (backup : Fin k) : base.index backup.succ pos = memory.index 0 pos ∨
      base.index backup.succ pos = req.target := by
    rw [index, agree]
    exact .inl rfl
  rw [← index, ← casBackups_installed ⟨pos, base.index 0 pos, req.target⟩ rfl (index ▸ own)]
  have stillUncommitted : (modifyBackupIdx ⟨pos, base.index 0 pos, req.target⟩
      base).recoverCommitted = false := uncommitted
  by_cases backups : 0 < k
  · exact outcome_kvRecoverFinish_won stillUncommitted backups rfl
      (modifyBackupIdxConsensus1_unanimous backups _ base (index ▸ own))
  · have single : k = 0 := by omega
    refine (outcome_kvRecoverFinish_single stillUncommitted single).trans ?_
    exact outcome_modifyPrimaryIdxSync (fun failed => unfailed ⟨single, failed⟩) rfl

omit agree index in
theorem outcome_kvRecoverFinish_notFound (unset : base.casAddr = none) :
    outcome (kvRecoverFinish req modifyBackupIdxConsensus1 base) = .error .nullCasAddr := by
  by_cases backups : 0 < k
  · apply outcome_kvRecoverFinish_lost uncommitted backups
    rw [modifyBackupIdxConsensus1, unset]
  · have single : k = 0 := by omega
    rw [outcome_kvRecoverFinish_single uncommitted single, modifyPrimaryIdxSync,
      if_neg fun failed => unfailed ⟨single, failed⟩, unset]
    rfl

end Finish

theorem changes_update_iff (update : ¬ logIsInsert memory.tail) :
    Changes memory.index (clientRecovery req junk memory) ↔ UpdateRedone req junk memory := by
  by_cases begun : k + 1 = req.numReplication ∧ logIsCommitted memory.tail = false
  swap
  · exact iff_of_false (fun changes => begun (changes.begun agree))
      fun redone => begun ⟨redone.counts, redone.uncommitted⟩
  obtain ⟨counts, uncommitted⟩ := begun
  by_cases failed : k = 0 ∧ junk.consensusState = .fail
  · refine iff_of_false ?_ fun redone => redone.unfailed failed
    exact not_changes_of_unchanged
      (outcome_update_unchanged uncommitted counts update failed.1 failed.2)
  obtain ⟨base, index, isUncommitted, unset, s, redone⟩ := exists_updateRedone req junk uncommitted
  rw [← s] at failed
  rw [clientRecovery_update counts update, redone]
  cases found : updateMatch req junk (memory.index 0) with
  | none =>
    refine iff_of_false (not_changes_of_error
      (outcome_kvRecoverFinish_notFound isUncommitted failed unset)) ?_
    rintro ⟨-, -, ⟨pos, matched, -⟩, -⟩
    rw [found] at matched
    cases matched
  | some pos =>
    have returned := @outcome_kvRecoverFinish_found k req memory agree base index
      isUncommitted failed pos
    constructor
    · intro changes
      refine ⟨counts, uncommitted, ⟨pos, found, fun same => ?_⟩, s ▸ failed⟩
      -- the slot holds the target already, in all replicas
      have unchanged : installed memory.index pos req.target = memory.index := by
        funext replica
        rw [installed, ← same, ← agree replica, update_eq_self]
      rw [unchanged] at returned
      exact not_changes_of_unchanged returned changes
    · rintro ⟨-, -, ⟨_, matched, ne⟩, -⟩
      obtain rfl := Option.some.inj (found.symm.trans matched)
      exact changes_of_installed ne returned

theorem changes_iff :
    Changes memory.index (clientRecovery req junk memory) ↔ Redone req junk memory := by
  by_cases insert : logIsInsert memory.tail
  · rw [Redone, if_pos insert]
    exact changes_insert_iff agree insert
  · rw [Redone, if_neg insert]
    exact changes_update_iff agree insert

end Changes

end FuseeFs.Recovery
