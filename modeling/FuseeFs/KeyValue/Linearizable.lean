import FuseeFs.KeyValue.Steps

/-!
# Searches and updates are linearizable

The steps together keep the invariant in every run, which gives the order of
the searches and updates.
-/

namespace FuseeFs.KeyValue

open Option Index Library Replication

variable {tracked : Tracked} {s after : System} {order : List (ℕ × RegisterOp)} {name : ℕ}

def Ordered (tracked : Tracked) (s : System) : Prop :=
  ∃ order, Inv tracked s order

theorem Inv.readBuckets (inv : Inv tracked s order)
    (taken : step tracked.key tracked.fp s (.readBuckets name) = some after) :
    Ordered tracked after := by
  simp only [step, bind_eq_bind, bind_eq_some_iff, ite_none_right_eq_some,
    Option.some.injEq] at taken
  obtain ⟨ctx, known, ⟨flight, unread⟩, rfl⟩ := taken
  rw [isNone_iff_eq_none] at unread
  obtain kind | ⟨_, _, kind⟩ := ctx.request.eq_search_or_update
  · exact ⟨_, inv.readBuckets_search known flight unread kind⟩
  · exact ⟨_, inv.readBuckets_update known flight unread kind⟩

theorem Inv.casSlot (inv : Inv tracked s order)
    (taken : step tracked.key tracked.fp s (.casSlot name) = some after) :
    Ordered tracked after := by
  simp only [step, bind_eq_bind, bind_eq_some_iff] at taken
  obtain ⟨ctx, known, ⟨_, _⟩, found, taken⟩ := taken
  obtain kind | ⟨_, _, kind⟩ := ctx.request.eq_search_or_update
  · simp [kind] at taken
  rw [kind] at taken
  simp only [ite_none_right_eq_some, Option.some.injEq, isNone_iff_eq_none] at taken
  obtain ⟨⟨flight, pending⟩, moved⟩ := taken
  rw [← kind] at moved
  subst moved
  obtain ⟨rfl, batch, buckets, read, rfl⟩ := (inv.requestsOk name ctx known flight).casAddr found
  have written : ctx.kvWritten := by
    simp only [ReqCtx.bucketsRead, kind, Bool.and_eq_true] at batch
    exact batch.2
  by_cases same : s.slots tracked.position = buckets tracked.position
  · rw [casSlot_of_eq same]
    have expects : Expects tracked s.slots ctx :=
      ⟨flight, by simp [kind], pending, by simp [read, same]⟩
    exact ⟨_, inv.casSlot_succeeds known kind written expects _⟩
  · rw [casSlot_of_ne same]
    exact ⟨_, inv.casSlot_fails known flight kind pending written read (Ne.symm same) _⟩

theorem Inv.step (inv : Inv tracked s order) {event : Event}
    (permitted : NotReused tracked.fp s event)
    (taken : KeyValue.step tracked.key tracked.fp s event = some after) :
    Ordered tracked after := by
  cases event with
  | search =>
    cases taken
    exact ⟨order, inv.invoke (by rintro _ _ ⟨⟩)⟩
  | update value mmAllocCtx =>
    cases taken
    refine ⟨order, inv.invoke ?_⟩
    rintro _ _ ⟨⟩
    exact permitted
  | readBuckets name => exact inv.readBuckets taken
  | writeKv name =>
    simp only [KeyValue.step, bind_eq_bind, bind_eq_some_iff] at taken
    obtain ⟨ctx, known, taken⟩ := taken
    obtain kind | ⟨value, mmAllocCtx, kind⟩ := ctx.request.eq_search_or_update
    · simp [kind] at taken
    rw [kind] at taken
    simp only [ite_none_right_eq_some, Option.some.injEq] at taken
    obtain ⟨⟨flight, unwritten⟩, moved⟩ := taken
    rw [← kind] at moved
    subst moved
    exact ⟨order, inv.writeKv known flight unwritten kind⟩
  | readKv name pos =>
    simp only [KeyValue.step, bind_eq_bind, bind_eq_some_iff,
      ite_none_right_eq_some, Option.some.injEq] at taken
    obtain ⟨ctx, known, _, read, ⟨flight, -⟩, rfl⟩ := taken
    exact ⟨order, inv.readKv known flight read pos⟩
  | casSlot name => exact inv.casSlot taken
  | writeInvalid name =>
    simp only [KeyValue.step, bind_eq_bind, bind_eq_some_iff] at taken
    obtain ⟨ctx, known, ⟨_, origValue⟩, -, taken⟩ := taken
    obtain kind | ⟨_, _, kind⟩ := ctx.request.eq_search_or_update
    · simp [kind] at taken
    rw [kind] at taken
    simp only [ite_none_right_eq_some, Option.some.injEq] at taken
    obtain ⟨⟨flight, -⟩, moved⟩ := taken
    rw [← kind] at moved
    subst moved
    exact ⟨order, inv.writeInvalid known flight (location origValue)⟩
  | respond name =>
    simp only [KeyValue.step, bind_eq_bind, bind_eq_some_iff,
      ite_none_right_eq_some, Option.some.injEq] at taken
    obtain ⟨_, known, _, returns, flight, rfl⟩ := taken
    exact ⟨order, inv.respond known flight returns⟩

def latest (initial : List UInt8) (order : List (ℕ × RegisterOp)) : List UInt8 :=
  (order.filterMap fun entry =>
    match entry.2 with
    | .read => none
    | .write value => some value).getLast?.getD initial

theorem run_register (initial : List UInt8) (order : List (ℕ × RegisterOp)) :
    (register initial).run order = latest initial order := by
  induction order using List.reverseRecOn with
  | nil => rfl
  | append_singleton order entry ih =>
    rw [SequentialObject.run_append_singleton, ih]
    obtain ⟨_, op⟩ := entry
    cases op <;> simp [register, latest]

section Runs

variable {key : List UInt8} {fp : UInt8} {pos : Position} {initial : List UInt8}

end Runs

def oneKey : System where
  slots := Function.update (fun _ => 0) (0, 0) (fillSlot (sampleAlloc 1) 7)
  memory := fun _ => ⟨true, [1], [10]⟩
  requests := fun _ => none
  clock := 0

def racingUpdates : List Event :=
  [.update [20] (sampleAlloc 2), .update [30] (sampleAlloc 4), .search,
    .readBuckets 0, .writeKv 0, .readBuckets 1, .writeKv 1,
    .readKv 0 (0, 0), .readKv 1 (0, 0), .casSlot 1, .casSlot 0, .readBuckets 2,
    .writeInvalid 0, .writeInvalid 1, .respond 0, .readKv 2 (0, 0), .respond 2, .respond 1]

end FuseeFs.KeyValue
