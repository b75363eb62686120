import FuseeFs.Client.Refinement
import FuseeFs.Engine.Operations
import FuseeFs.Library.Store.Interpretation

/-!
# The engine on the client's store

The calls of an operation go to `kv_search_sync`, `kv_insert_sync`,
`kv_update_sync` and `kv_delete_sync` of the client, which work on the replicated
index, the log entries and the cache.  The engine cannot tell this from a map
that refuses some inserts.

There is one index replica: the engine leaves `should_stop` unset in its writes, and
with more replicas `kv_insert_backup_consensus_1_sync` and `kv_insert_commit_log_sync`
follow that pointer.
-/

namespace FuseeFs.Engine

open Function Index KeyValue Library Library.Store Replication

def keyBytes (key : List Char) : List UInt8 :=
  key.flatMap String.utf8EncodeChar

theorem keyBytes_injective : Injective keyBytes := by
  intro first second same
  have encoded : first.utf8Encode = second.utf8Encode := congrArg List.toByteArray same
  rw [← String.toByteArray_ofList, ← String.toByteArray_ofList, String.toByteArray_inj,
    String.ofList_inj] at encoded
  exact encoded

/-- What a call of the client meets besides its key and value. -/
structure CallCtx where
  useCache : Bool
  mmAllocCtx : ClientMMAllocCtx
  opWord : UInt64
  stack : Fin 1 → ℕ

structure ClientState where
  store : Client.Store 0
  /-- What the calls that are still to come will meet. -/
  contexts : ℕ → CallCtx

section Answers

variable (conf : Client.Conf) (newId : UInt64)

/-- `PrepareFuseeReq` -/
def CallCtx.prepareFuseeReq (ctx : CallCtx) (key : List Char) (value : List UInt8) :
    Client.WriteReq :=
  ⟨keyBytes key, value, ctx.useCache, ctx.mmAllocCtx, ctx.opWord⟩

def CallCtx.operation (ctx : CallCtx) : EngineCall → Option (Client.Operation 0)
  | .search key => some (.search ⟨keyBytes key, ctx.useCache, ctx.stack⟩)
  | .insert key value => some (.insert (ctx.prepareFuseeReq key value))
  | .update key value => some (.update (ctx.prepareFuseeReq key value))
  | .delete key => some (.delete (ctx.prepareFuseeReq key []))
  | .lock _ | .unlock _ | .fresh => none

def replyOf (retVal : RetVal) : (req : EngineCall) → req.Reply KVOpsRetCode
  | .search _ => match retVal with
      | .value value => value
      | .retCode _ => none
  | .insert _ _ | .update _ _ | .delete _ => match retVal with
      | .value _ => .failReturn
      | .retCode code => code
  | .lock _ | .unlock _ => ()
  | .fresh => newId

/-- There is no answer to a call that the client is not prepared for. -/
def answer (s : ClientState) (req : EngineCall) :
    Option (req.Reply KVOpsRetCode × ClientState) :=
  match (s.contexts 0).operation req with
  | none => some (replyOf newId (.value none) req, s)
  | some op =>
    if Client.Allowed conf s.store op then
      (Client.exec conf s.store op).map fun done =>
        (replyOf newId done.2 req, ⟨done.1, fun call => s.contexts (call + 1)⟩)
    else none

/-- The map that a store of the client stands for. -/
def mapOf (store : Client.Store 0) : Store :=
  store.contents conf ∘ keyBytes

end Answers

section Simulation

variable {conf : Client.Conf} {newId : UInt64} {s after : ClientState}
variable (layout : Client.Coherent conf.raceRoot 0) (counts : 1 ≤ conf.numReplication)

abbrev Reached (conf : Client.Conf) (s : ClientState) : Prop :=
  Reachable (Client.step conf) (Client.Allowed conf) Client.Store.IsInitial s.store

include layout counts

theorem answer_operation {req : EngineCall} {reply : req.Reply KVOpsRetCode}
    {op : Client.Operation 0} (reached : Reached conf s)
    (made : (s.contexts 0).operation req = some op)
    (answered : answer conf newId s req = some (reply, after)) :
    Reached conf after ∧ ∃ retVal, reply = replyOf newId retVal req ∧
      Client.MapStep (s.store.contents conf) (s.store.BucketsFull conf op.key)
        (after.store.contents conf) retVal op := by
  rw [answer, made] at answered
  dsimp only at answered
  split_ifs at answered with allowed
  obtain ⟨⟨_, retVal⟩, executed, same⟩ := Option.map_eq_some_iff.mp answered
  obtain ⟨rfl, rfl⟩ := Prod.mk.inj same
  obtain ⟨_, _, specified, effect⟩ := Client.actsAsMap_of_reachable layout counts reached allowed
  obtain ⟨rfl, rfl⟩ := Prod.mk.inj (Option.some.inj (executed.symm.trans specified))
  refine ⟨.next reached allowed ?_, retVal, rfl, effect⟩
  rw [Client.step, executed]
  rfl

theorem answersAs_answer (req : EngineCall) (reply : req.Reply KVOpsRetCode)
    (reached : Reached conf s) (answered : answer conf newId s req = some (reply, after)) :
    Reached conf after ∧ Program.AnswersAs Call.isInsert
      (fun code => code = .success ∨ code = .failReturn) newId (mapOf conf s.store)
      (mapOf conf after.store) req reply := by
  have kept (same : after.store.contents conf = s.store.contents conf) :
      mapOf conf s.store = mapOf conf after.store := by
    rw [mapOf, mapOf, same]
  have updated {key : List Char} {value : Option (List UInt8)}
      (changed : after.store.contents conf = update (s.store.contents conf) (keyBytes key) value) :
      update (mapOf conf s.store) key value = mapOf conf after.store := by
    rw [mapOf, mapOf, changed, update_comp_eq_of_injective _ keyBytes_injective]
  cases req with
  | search key =>
    obtain ⟨further, _, rfl, rfl, same⟩ := answer_operation layout counts reached rfl answered
    exact ⟨further, .success, rfl, Prod.ext rfl (kept same)⟩
  | insert key value =>
    obtain ⟨further, _, rfl, effect⟩ := answer_operation layout counts reached rfl answered
    rw [Client.MapStep] at effect
    split_ifs at effect with full
    · obtain ⟨rfl, same⟩ := effect
      exact ⟨further, .failReturn, .inr rfl, Prod.ext rfl (kept same)⟩
    · obtain ⟨rfl, changed⟩ := effect
      exact ⟨further, .success, .inl rfl, Prod.ext rfl (updated changed)⟩
  | update key value =>
    obtain ⟨further, _, rfl, effect⟩ := answer_operation layout counts reached rfl answered
    refine ⟨further, .success, rfl, ?_⟩
    rw [Client.MapStep] at effect
    split_ifs at effect with absent
    · obtain ⟨rfl, same⟩ := effect
      simp only [Call.answerWith, Call.answer, show mapOf conf s.store key = none from absent]
      exact Prod.ext rfl (kept same)
    · obtain ⟨rfl, changed⟩ := effect
      have present : (mapOf conf s.store key).isSome = true := Option.isSome_iff_ne_none.mpr absent
      simp only [Call.answerWith, Call.answer, present]
      exact Prod.ext rfl (updated changed)
  | delete key =>
    obtain ⟨further, _, rfl, rfl, changed⟩ := answer_operation layout counts reached rfl answered
    exact ⟨further, .success, rfl, Prod.ext rfl (updated changed)⟩
  | lock inodeId | unlock inodeId | fresh =>
    obtain ⟨rfl, rfl⟩ := Prod.mk.inj (Option.some.inj answered)
    exact ⟨reached, .success, rfl, rfl⟩

end Simulation

/-- On any store that a client has come to, a program of the engine returns what it
returns on a map that refuses some inserts with `KV_OPS_FAIL_RETURN`, and leaves
what it leaves there. -/
theorem client_refines_failing_map {Result : Type} (conf : Client.Conf)
    (layout : Client.Coherent conf.raceRoot 0) (counts : 1 ≤ conf.numReplication)
    (newId : UInt64) (program : EngineProgram Result) (s after : ClientState)
    (result : Result) (reached : Reached conf s)
    (ran : program.interpret (answer conf newId) s = some (result, after)) :
    Reached conf after ∧
      ∃ outcomes : ℕ → KVOpsRetCode,
        (∀ write, outcomes write = .success ∨ outcomes write = .failReturn) ∧
        (program.execFailing Call.isInsert newId outcomes (mapOf conf s.store)).result = result ∧
        (program.execFailing Call.isInsert newId outcomes (mapOf conf s.store)).store =
          mapOf conf after.store :=
  Program.interpret_eq_execFailing (.inl rfl)
    (fun _ req reply _ => answersAs_answer layout counts req reply) reached ran

def oneReplica : Client.Conf :=
  { Client.sampleConf 1 with
    raceRoot := (initHashTable { Client.sampleConfig 1 with numReplication := 1, numIdxRep := 1 }
      ⟨fun _ _ => ⟨0, [0, 0, 0, 0, 0]⟩⟩ fun _ => initSubtable).1
    numReplication := 1 }

theorem client_refines_failing_map_initThread :
    ∃ (after : ClientState) (outcomes : ℕ → KVOpsRetCode),
      ((initThread 0 7 99).execFailing Call.isInsert 0 outcomes
        (mapOf oneReplica Client.emptyStore)).store = mapOf oneReplica after.store := by
  have mirrored : Client.Mirrored oneReplica.raceRoot 0 := by decide +kernel
  obtain ⟨⟨_, after⟩, ran⟩ := Option.isSome_iff_exists.mp
    (show ((initThread 0 7 99).interpret (answer oneReplica 0)
      ⟨Client.emptyStore, fun _ => ⟨true, sampleAlloc 1, 0, fun _ => 0⟩⟩).isSome = true
      from by decide +kernel)
  obtain ⟨-, outcomes, -, -, left⟩ := client_refines_failing_map _ mirrored.coherent (by decide) 0 _
    _ _ _ (.start Client.isInitial_emptyStore) ran
  exact ⟨after, outcomes, left⟩

end FuseeFs.Engine
