import FuseeFs.Library.Store.Failures

/-!
# Stores with several values for a key

An insert that does not look for its key adds a value to those that the key has.
A later call is about one of them, and the environment decides which; it also
decides which writes fail.
-/

namespace FuseeFs.Library.Store

variable {Key Value Name Code Result Other : Type}

abbrev Bindings (Key Value : Type) := Key → List Value

def Bindings.ofMap (store : Key → Option Value) : Bindings Key Value :=
  fun key => (store key).toList

structure Choice where
  fails : Bool
  /-- The number of the value that the call is about, modulo their count. -/
  pick : ℕ

def Choice.index (choice : Choice) (values : List Value) : ℕ :=
  choice.pick % values.length

variable [DecidableEq Key] [ReplyCode Code]

/-- The answer to a call; a write that fails has no effect and is answered with
`refused`. -/
def Call.answerAmong (refused : Code) (choice : Choice) (bindings : Bindings Key Value)
    (newName : Name) : (req : Call Key Value Name) → req.Reply Code × Bindings Key Value
  | .search key => ((bindings key)[choice.index (bindings key)]?, bindings)
  | .insert key value =>
    if choice.fails then (refused, bindings)
    else (ReplyCode.success, Function.update bindings key (value :: bindings key))
  | .update key value =>
    if choice.fails then (refused, bindings)
    else if (bindings key).isEmpty then (ReplyCode.absent, bindings)
    else (ReplyCode.success, Function.update bindings key
      ((bindings key).set (choice.index (bindings key)) value))
  | .delete key =>
    if choice.fails then (refused, bindings)
    else (ReplyCode.success, Function.update bindings key
      ((bindings key).eraseIdx (choice.index (bindings key))))
  | .lock _ | .unlock _ => ((), bindings)
  | .fresh => (newName, bindings)

namespace Program

variable [DecidableEq Code]

def execAmong (refused : Code) (newName : Name) (environment : ℕ → Call Key Value Name → Choice)
    (bindings : Bindings Key Value) :
    Program Key Value Name Code Result → Execution (Bindings Key Value) Result
  | .done result => ⟨result, bindings, 0⟩
  | .call req next =>
    let answer := req.answerAmong refused (environment 0 req) bindings newName
    let run := (next answer.1).execAmong refused newName
      (fun pos => environment (pos + 1)) answer.2
    if req.failed answer.1 then run.fail else run

/-- If at most `limit` writes of the program fail and the program ends with an
error, then the store is as `before`. -/
def Undoes (refused : Code) (newName : Name) (isError : Result → Prop) (limit : ℕ)
    (before bindings : Bindings Key Value) (program : Program Key Value Name Code Result) : Prop :=
  ∀ environment : ℕ → Call Key Value Name → Choice,
    (program.execAmong refused newName environment bindings).failures ≤ limit →
    isError (program.execAmong refused newName environment bindings).result →
    (program.execAmong refused newName environment bindings).store = before

variable {refused : Code} {newName : Name} {isError : Result → Prop} {limit : ℕ}
variable {before bindings : Bindings Key Value}

theorem undoes_done_iff {result : Result} :
    Undoes refused newName isError limit before bindings (.done result) ↔
      (isError result → bindings = before) :=
  ⟨fun undoes => undoes (fun _ _ => ⟨false, 0⟩) (Nat.zero_le _), fun same _ _ => same⟩

/-- A program undoes its writes if what follows its first call does, for every
choice of the environment. -/
theorem undoes_call_iff {req : Call Key Value Name}
    {next : req.Reply Code → Program Key Value Name Code Result} :
    Undoes refused newName isError limit before bindings (.call req next) ↔
      ∀ (choice : Choice) (rest : ℕ),
        (if req.failed (req.answerAmong refused choice bindings newName).1 then rest + 1
          else rest) = limit →
        Undoes refused newName isError rest before
          (req.answerAmong refused choice bindings newName).2
          (next (req.answerAmong refused choice bindings newName).1) := by
  constructor
  · intro undoes choice rest count environment atMost error
    let started (pos : ℕ) : Call Key Value Name → Choice :=
      if pos = 0 then fun _ => choice else environment (pos - 1)
    have ends := undoes started
    have first : started 0 req = choice := rfl
    have others : (fun pos => started (pos + 1)) = environment := rfl
    simp only [execAmong, first, others] at ends
    subst count
    split_ifs at ends
    · exact ends (Nat.succ_le_succ atMost) error
    · exact ends atMost error
  · intro later environment atMost error
    have undoes := later (environment 0 req)
    simp only [execAmong] at atMost error ⊢
    split_ifs at atMost error ⊢ with failed
    · obtain ⟨rest, rfl⟩ : ∃ rest, limit = rest + 1 :=
        Nat.exists_eq_succ_of_ne_zero (Nat.ne_zero_of_lt atMost)
      exact undoes rest (if_pos failed) _ (Nat.le_of_succ_le_succ atMost) error
    · exact undoes limit (if_neg failed) _ atMost error

/-- A call that does not write. -/
theorem undoes_quiet_iff {req : Call Key Value Name} {reply : req.Reply Code}
    {next : req.Reply Code → Program Key Value Name Code Result}
    (quiet : ∀ choice, req.answerAmong refused choice bindings newName = (reply, bindings))
    (carriedOut : req.failed reply = false) :
    Undoes refused newName isError limit before bindings (.call req next) ↔
      Undoes refused newName isError limit before bindings (next reply) := by
  rw [undoes_call_iff]
  simp only [quiet, carriedOut, Bool.false_eq_true, if_false, forall_eq]
  exact ⟨fun undoes => undoes ⟨false, 0⟩, fun undoes _ => undoes⟩

section Map

variable {store : Key → Option Value}

theorem undoes_search_iff {key : Key} {next : Option Value → Program Key Value Name Code Result} :
    Undoes refused newName isError limit before (.ofMap store) (.call (.search key) next) ↔
      Undoes refused newName isError limit before (.ofMap store) (next (store key)) := by
  refine @undoes_quiet_iff _ _ _ _ _ _ _ _ _ _ _ _ _ _ (.search key) (store key) next ?_ rfl
  intro choice
  cases stored : store key <;> simp [Call.answerAmong, Bindings.ofMap, Choice.index, stored, Nat.mod_one]

theorem Reads.execAmong_store {program : Program Key Value Name Code Result}
    (reads : program.Reads) (environment : ℕ → Call Key Value Name → Choice) :
    (program.execAmong refused newName environment bindings).store = bindings := by
  induction reads generalizing environment with
  | done result => rfl
  | search _ ih => exact ih _ _

theorem Reads.undoes_bind_iff {program : Program Key Value Name Code Other} (reads : program.Reads)
    {after : Other → Program Key Value Name Code Result} :
    Undoes refused newName isError limit before (.ofMap store) (program >>= after) ↔
      Undoes refused newName isError limit before (.ofMap store)
        (after (program.exec newName store).1) := by
  induction reads with
  | done result => rfl
  | search _ ih => exact undoes_search_iff.trans (ih _)

end Map

section Writes

variable {key : Key} {value : Value} {next : Code → Program Key Value Name Code Result}
  (failure : refused ≠ ReplyCode.success)
include failure

theorem undoes_insert_iff :
    Undoes refused newName isError limit before bindings (.call (.insert key value) next) ↔
      Undoes refused newName isError limit before
        (Function.update bindings key (value :: bindings key)) (next ReplyCode.success) ∧
      ∀ rest, rest + 1 = limit →
        Undoes refused newName isError rest before bindings (next refused) := by
  rw [undoes_call_iff]
  constructor
  · intro undoes
    constructor
    · simpa [Call.answerAmong, Call.failed] using undoes ⟨false, 0⟩ limit
    · simpa [Call.answerAmong, Call.failed, failure] using undoes ⟨true, 0⟩
  · rintro ⟨success, refusal⟩ ⟨fails, _⟩ rest
    cases fails
    · simpa [Call.answerAmong, Call.failed] using fun same => same ▸ success
    · simpa [Call.answerAmong, Call.failed, failure] using refusal rest

theorem undoes_delete_iff :
    Undoes refused newName isError limit before bindings (.call (.delete key) next) ↔
      (∀ pick, Undoes refused newName isError limit before
        (Function.update bindings key
          ((bindings key).eraseIdx (pick % (bindings key).length))) (next ReplyCode.success)) ∧
      ∀ rest, rest + 1 = limit →
        Undoes refused newName isError rest before bindings (next refused) := by
  rw [undoes_call_iff]
  constructor
  · intro undoes
    constructor
    · intro pick
      simpa [Call.answerAmong, Call.failed, Choice.index] using undoes ⟨false, pick⟩ limit
    · simpa [Call.answerAmong, Call.failed, failure] using undoes ⟨true, 0⟩
  · rintro ⟨success, refusal⟩ ⟨fails, pick⟩ rest
    cases fails
    · simpa [Call.answerAmong, Call.failed, Choice.index] using fun same => same ▸ success pick
    · simpa [Call.answerAmong, Call.failed, failure] using refusal rest

/-- An update of a key without a value fails, too. -/
theorem undoes_update (absent : (ReplyCode.absent : Code) = refused)
    (success : ∀ values, Undoes refused newName isError limit before
      (Function.update bindings key values) (next ReplyCode.success))
    (refusal : ∀ rest, rest + 1 = limit →
      Undoes refused newName isError rest before bindings (next refused)) :
    Undoes refused newName isError limit before bindings (.call (.update key value) next) := by
  rw [undoes_call_iff]
  rintro ⟨fails, _⟩ rest
  cases fails
  · by_cases empty : bindings key = []
    · simpa [Call.answerAmong, Call.failed, empty, absent, failure] using refusal rest
    · simpa [Call.answerAmong, Call.failed, empty] using fun same => same ▸ success _
  · simpa [Call.answerAmong, Call.failed, failure] using refusal rest

theorem Undoes.of_update
    (undoes : Undoes refused newName isError (limit + 1) before bindings
      (.call (.update key value) next)) :
    Undoes refused newName isError limit before bindings (next refused) := by
  have refusal := undoes_call_iff.mp undoes ⟨true, 0⟩ limit
  simpa [Call.answerAmong, Call.failed, failure] using refusal

end Writes

end Program

section Restored

variable {bindings : Bindings Key Value} {store : Key → Option Value} {first second : Key}
variable {firstValues secondValues firstLater secondLater : List Value} {value : Value}

theorem update_rewritten :
    Function.update (Function.update (Function.update (Function.update bindings first firstValues)
      second secondValues) first firstLater) second secondLater =
    Function.update (Function.update bindings first firstLater) second secondLater := by
  funext key
  simp only [Function.update_apply]
  split_ifs <;> rfl

theorem update_update_eq_self_iff (distinct : first ≠ second) :
    Function.update (Function.update bindings first firstLater) second secondLater = bindings ↔
      bindings first = firstLater ∧ bindings second = secondLater := by
  constructor
  · intro same
    constructor
    · conv_lhs => rw [← same]
      simp [distinct]
    · conv_lhs => rw [← same]
      simp
  · rintro ⟨rfl, rfl⟩
    simp

/-- A value that was added is taken out again, whichever of the values is
deleted, if the key had none before or the same one. -/
theorem eraseIdx_toList_iff {stored : Option Value} :
    (∀ pick, stored.toList =
        (value :: stored.toList).eraseIdx (pick % (value :: stored.toList).length)) ↔
      stored = none ∨ stored = some value := by
  cases stored with
  | none => simp [Nat.mod_one]
  | some old =>
    simp only [Option.toList_some, List.length_cons, List.length_nil, reduceCtorEq, false_or,
      Option.some.injEq]
    constructor
    · intro restored
      simpa using restored 1
    · rintro rfl pick
      obtain parity | parity := Nat.mod_two_eq_zero_or_one pick <;> simp [parity]

end Restored

end FuseeFs.Library.Store
