import FuseeFs.Library.Store.Failures

/-!
# Stores that act like a map

`interpret` runs a program on anything that answers its calls.  If the answers are
those of a map that the states stand for, so are the results of programs; writes
may fail.
-/

namespace FuseeFs.Library.Store.Program

variable {Key Value Name Code Result State : Type}

def interpret
    (answer : State → (req : Call Key Value Name) → Option (req.Reply Code × State))
    (s : State) : Program Key Value Name Code Result → Option (Result × State)
  | .done result => some (result, s)
  | .call req next =>
    (answer s req).bind fun replied => interpret answer replied.2 (next replied.1)

variable [DecidableEq Key] [DecidableEq Code] [ReplyCode Code]

/-- A call is answered as by the map, for a code that a governed write may get. -/
def AnswersAs (governed : Call Key Value Name → Bool) (possible : Code → Prop) (newName : Name)
    (before after : Key → Option Value) (req : Call Key Value Name)
    (reply : req.Reply Code) : Prop :=
  ∃ code, (if req.draws governed then possible code else code = ReplyCode.success) ∧
    req.answerWith code before newName = (reply, after)

theorem interpret_eq_execFailing {governed : Call Key Value Name → Bool} {possible : Code → Prop}
    {newName : Name} {view : State → Key → Option Value} {Invariant : State → Prop}
    {answer : State → (req : Call Key Value Name) → Option (req.Reply Code × State)}
    (maySucceed : possible ReplyCode.success)
    (simulates : ∀ s req reply after, Invariant s →
      answer s req = some (reply, after) →
      Invariant after ∧ AnswersAs governed possible newName (view s) (view after) req reply)
    {program : Program Key Value Name Code Result} {s after : State} {result : Result}
    (holds : Invariant s) (ran : program.interpret answer s = some (result, after)) :
    Invariant after ∧ ∃ outcomes, (∀ write, possible (outcomes write)) ∧
      (program.execFailing governed newName outcomes (view s)).result = result ∧
      (program.execFailing governed newName outcomes (view s)).store = view after := by
  induction program generalizing s with
  | done value =>
    obtain ⟨rfl, rfl⟩ := Prod.mk.inj (Option.some.inj ran)
    exact ⟨holds, fun _ => ReplyCode.success, fun _ => maySucceed, rfl, rfl⟩
  | call req next ih =>
    obtain ⟨⟨reply, _⟩, answered, rest⟩ := Option.bind_eq_some_iff.mp ran
    obtain ⟨holdsMiddle, code, drawn, agrees⟩ := simulates _ _ _ _ holds answered
    obtain ⟨holdsAfter, outcomes, allPossible, sameResult, sameStore⟩ := ih reply holdsMiddle rest
    refine ⟨holdsAfter, ?_⟩
    by_cases governs : req.draws governed = true
    · rw [if_pos governs] at drawn
      refine ⟨fun write => write.casesOn code outcomes, ?_, ?_⟩
      · rintro (_ | write)
        · exact drawn
        · exact allPossible write
      · simp only [execFailing, governs, if_true, Nat.rec_zero, agrees]
        split_ifs <;> exact ⟨sameResult, sameStore⟩
    · rw [if_neg governs] at drawn
      subst drawn
      refine ⟨outcomes, allPossible, ?_⟩
      simp only [execFailing, governs, if_false, agrees, Bool.false_eq_true]
      split_ifs <;> exact ⟨sameResult, sameStore⟩

end FuseeFs.Library.Store.Program
