import FuseeFs.Library.Reachability
import FuseeFs.Network.Requests

/-!
# Completions

The fibers of a client post requests and wait for them in `poll_completion`.  The
polling thread moves completions from the queue of the network card to
`wrid_wc_map_`, where `nm_check_completion` looks for the numbers that its fiber
waits for.  A number names the fiber, so that every request gets its own
completion, however the fibers, the card and the polling thread take turns.
-/

namespace FuseeFs.Network.Completions

open List Option Function Library

/-- A signalled request, which is also its completion.  `serial` tells it from
earlier requests with the same number. -/
@[ext]
structure Wc where
  wrId : UInt64
  serial : ℕ
deriving DecidableEq

/-- An entry of `wait_wrid_wc_map`, with the request that it was made for and the
completion that was found under its number. -/
@[ext]
structure Wait where
  request : Wc
  found : Option ℕ
deriving DecidableEq

structure System where
  /-- The requests that the card is working on. -/
  posted : List Wc
  /-- The completion queue `ib_cq_`. -/
  cq : List Wc
  wridWcMap : UInt64 → Option ℕ
  waits : UInt32 → List Wait
  posts : ℕ

inductive Event
  /-- `rdma_post_sr_lists_async` or `rdma_post_sr_list_batch_async` posts a list for
  a server and enters the number of its last request. -/
  | post (coroId : UInt32) (dstServerId : UInt8) (reqTypeSt reqSeq : UInt32)
  /-- The card completes a request; the order is only fixed for each server. -/
  | complete (index : ℕ)
  /-- A round of the loop of `nm_thread_polling` or `nm_fiber_polling`. -/
  | poll
  /-- A round of the loop of `nm_check_completion`. -/
  | check (fiber : UInt32) (index : ℕ)
  /-- `poll_completion` returns. -/
  | leave (fiber : UInt32)

/-- `insert` keeps what it finds under the number. -/
def insertWc (map : UInt64 → Option ℕ) (wc : Wc) : UInt64 → Option ℕ :=
  if (map wc.wrId).isSome then map else update map wc.wrId (some wc.serial)

def ibIsAllWridFinished (waits : List Wait) : Bool :=
  waits.all fun wait => wait.found.isSome

def step (s : System) : Event → Option System
  | .post coroId dstServerId reqTypeSt reqSeq =>
    let request : Wc := ⟨ibGenWrId coroId dstServerId reqTypeSt reqSeq, s.posts⟩
    some { s with
      posted := request :: s.posted
      waits := update s.waits coroId
        (⟨request, none⟩ :: (s.waits coroId).filter fun wait => wait.request.wrId ≠ request.wrId)
      posts := s.posts + 1 }
  | .complete index =>
    s.posted[index]?.map fun wc =>
      { s with posted := s.posted.eraseIdx index, cq := s.cq ++ [wc] }
  | .poll =>
    match s.cq with
    | [] => none
    | wc :: rest => some { s with cq := rest, wridWcMap := insertWc s.wridWcMap wc }
  | .check fiber index =>
    (s.waits fiber)[index]?.map fun wait =>
      match s.wridWcMap wait.request.wrId with
      | none => s
      | some serial =>
        { s with
          waits := update s.waits fiber
            ((s.waits fiber).set index { wait with found := some serial })
          wridWcMap := update s.wridWcMap wait.request.wrId none }
  | .leave fiber =>
    if ibIsAllWridFinished (s.waits fiber) then
      some { s with waits := update s.waits fiber [] }
    else none

/-- The types of requests leave room for their sequence numbers, and the lists of a
batch are merged by their servers. -/
def Numbered (s : System) : Event → Prop
  | .post coroId dstServerId reqTypeSt reqSeq =>
    reqTypeSt.toNat + reqSeq.toNat < 1000 ∧
      ∀ wait ∈ s.waits coroId, wridToDstSid wait.request.wrId ≠ dstServerId
  | _ => True

instance instDecidableNumbered (s : System) : (event : Event) → Decidable (Numbered s event)
  | .post _ _ _ _ => inferInstanceAs (Decidable (_ ∧ _))
  | .complete _ | .poll | .check _ _ | .leave _ => inferInstanceAs (Decidable True)

def IsInitial (s : System) : Prop :=
  s.posted = [] ∧ s.cq = [] ∧ (∀ wrId, s.wridWcMap wrId = none) ∧ ∀ fiber, s.waits fiber = []

/-- How often the card, the queue and the map have a request. -/
def copies (s : System) (wc : Wc) : ℕ :=
  s.posted.count wc + s.cq.count wc + if s.wridWcMap wc.wrId = some wc.serial then 1 else 0

/-- The entries of a fiber are for requests of its own, with different numbers, and
have found nothing but these. -/
structure OwnWaits (fiber : UInt32) (waits : List Wait) : Prop where
  fiber : ∀ wait ∈ waits, wridToFiberId wait.request.wrId = fiber
  once : (waits.map fun wait => wait.request.wrId).Nodup
  found : ∀ wait ∈ waits, ∀ serial ∈ wait.found, serial = wait.request.serial

structure Inv (s : System) : Prop where
  waits : ∀ fiber, OwnWaits fiber (s.waits fiber)
  counted : ∀ wc, copies s wc = (s.waits (wridToFiberId wc.wrId)).count ⟨wc, none⟩

variable {s after : System}

theorem Inv.awaited (inv : Inv s) {wc : Wc} (present : 0 < copies s wc) :
    ⟨wc, none⟩ ∈ s.waits (wridToFiberId wc.wrId) := by
  rw [inv.counted] at present
  exact count_pos_iff.mp present

theorem Inv.copies_le_one (inv : Inv s) (wc : Wc) : copies s wc ≤ 1 := by
  rw [inv.counted]
  exact nodup_iff_count_le_one.mp ((inv.waits (wridToFiberId wc.wrId)).once.of_map _) _

/-- What the map has under an awaited number is the request that is awaited. -/
theorem Inv.wait_eq (inv : Inv s) {fiber : UInt32} {wait : Wait} {serial : ℕ}
    (mem : wait ∈ s.waits fiber) (stored : s.wridWcMap wait.request.wrId = some serial) :
    wait = ⟨⟨wait.request.wrId, serial⟩, none⟩ := by
  have awaited := inv.awaited (show 0 < copies s ⟨wait.request.wrId, serial⟩ by
    simp [copies, stored])
  rw [(inv.waits fiber).fiber wait mem] at awaited
  exact inj_on_of_nodup_map (inv.waits fiber).once mem awaited rfl

theorem Inv.post (inv : Inv s) {coroId : UInt32} {dstServerId : UInt8} {reqTypeSt reqSeq : UInt32}
    (numbered : Numbered s (.post coroId dstServerId reqTypeSt reqSeq))
    (taken : step s (.post coroId dstServerId reqTypeSt reqSeq) = some after) : Inv after := by
  obtain ⟨small, servers⟩ := numbered
  obtain ⟨fiber, server, -⟩ := wrid_decoded coroId dstServerId small
  have unused : ∀ wait ∈ s.waits coroId,
      wait.request.wrId ≠ ibGenWrId coroId dstServerId reqTypeSt reqSeq :=
    fun wait mem same => servers wait mem (same ▸ server)
  simp only [step, filter_eq_self.mpr fun wait mem => decide_eq_true (unused wait mem),
    Option.some.injEq] at taken
  subst taken
  obtain ⟨fibers, once, found⟩ := inv.waits coroId
  refine ⟨(forall_update_iff _ _).mpr ⟨?_, fun other _ => inv.waits other⟩, fun wc => ?_⟩
  · exact ⟨forall_mem_cons.mpr ⟨fiber, fibers⟩,
      nodup_cons.mpr ⟨by simpa using unused, once⟩, forall_mem_cons.mpr ⟨by simp, found⟩⟩
  · have before := inv.counted wc
    simp only [copies, count_cons] at before ⊢
    by_cases own : wridToFiberId wc.wrId = coroId
    · rw [own] at before ⊢
      rw [update_self, count_cons, ← before]
      simp [Wait.ext_iff]
      omega
    · have ne : (⟨ibGenWrId coroId dstServerId reqTypeSt reqSeq, s.posts⟩ : Wc) ≠ wc := by
        rintro rfl
        exact own fiber
      rw [update_of_ne own]
      simp [ne, before]

theorem Inv.complete (inv : Inv s) {index : ℕ} (taken : step s (.complete index) = some after) :
    Inv after := by
  obtain ⟨_, posted, rfl⟩ := map_eq_some_iff.mp taken
  obtain ⟨inside, isPosted⟩ := List.getElem?_eq_some_iff.mp posted
  refine ⟨inv.waits, fun other => Eq.trans ?_ (inv.counted other)⟩
  have counts := (getElem_cons_eraseIdx_perm inside).count_eq other
  rw [isPosted, count_cons] at counts
  simp only [copies, count_append, count_singleton]
  omega

theorem Inv.poll (inv : Inv s) (taken : step s .poll = some after) : Inv after := by
  cases queue : s.cq with
  | nil => simp [step, queue] at taken
  | cons wc rest =>
    simp only [step, queue, Option.some.injEq] at taken
    obtain rfl := taken
    have queued : s.cq.count wc = rest.count wc + 1 := by simp [queue]
    have awaited := inv.awaited (show 0 < copies s wc by rw [copies, queued]; omega)
    -- a second copy in the map would be a second entry of the fiber
    have absent : s.wridWcMap wc.wrId = none := by
      cases stored : s.wridWcMap wc.wrId with
      | none => rfl
      | some serial =>
        have same : wc.serial = serial :=
          congrArg (fun wait => wait.request.serial) (inv.wait_eq awaited stored)
        have once := inv.copies_le_one wc
        rw [copies, queued, stored, same, if_pos rfl] at once
        omega
    refine ⟨inv.waits, fun other => Eq.trans ?_ (inv.counted other)⟩
    simp only [copies, queue, insertWc, absent, count_cons]
    by_cases same : other.wrId = wc.wrId
    · have iff : wc = other ↔ wc.serial = other.serial := by
        rw [Wc.ext_iff, and_iff_right same.symm]
      simp [same, absent, iff]
      omega
    · have ne : wc ≠ other := fun equal => same (congrArg Wc.wrId equal.symm)
      simp [same, ne]

theorem Inv.check (inv : Inv s) {fiber : UInt32} {index : ℕ}
    (taken : step s (.check fiber index) = some after) : Inv after := by
  obtain ⟨wait, shown, rfl⟩ := map_eq_some_iff.mp taken
  cases stored : s.wridWcMap wait.request.wrId with
  | none => exact inv
  | some serial =>
    obtain ⟨wrId, rfl⟩ : ∃ wrId, wait = ⟨⟨wrId, serial⟩, none⟩ :=
      ⟨_, inv.wait_eq (mem_of_getElem? shown) stored⟩
    obtain ⟨inside, isWait⟩ := List.getElem?_eq_some_iff.mp shown
    obtain ⟨fibers, once, found⟩ := inv.waits fiber
    have owned := fibers ⟨⟨wrId, serial⟩, none⟩ (mem_of_getElem? shown)
    refine ⟨(forall_update_iff _ _).mpr ⟨⟨?_, ?_, ?_⟩, fun other _ => inv.waits other⟩,
      fun wc => ?_⟩
    · intro other mem
      obtain mem | rfl := mem_or_eq_of_mem_set mem
      · exact fibers other mem
      · exact owned
    · have number : ((s.waits fiber).map fun wait => wait.request.wrId)[index]? = some wrId := by
        simp [shown]
      obtain ⟨_, isNumber⟩ := List.getElem?_eq_some_iff.mp number
      rw [map_set, ← isNumber, set_getElem_self]
      exact once
    · intro other mem
      obtain mem | rfl := mem_or_eq_of_mem_set mem
      · exact found other mem
      · rintro _ ⟨⟩
        rfl
    · have before := inv.counted wc
      by_cases own : wridToFiberId wc.wrId = fiber
      · simp only [copies, own, update_self] at before ⊢
        rw [count_set inside, isWait, ← before]
        by_cases same : wc.wrId = wrId
        · have stored : s.wridWcMap wrId = some serial := stored
          simp [same, stored, Wait.ext_iff, Wc.ext_iff]
        · have ne : wrId ≠ wc.wrId := fun equal => same equal.symm
          simp [same, ne, Wait.ext_iff, Wc.ext_iff]
      · have ne : wc.wrId ≠ wrId := by
          rintro rfl
          exact own owned
        simpa [copies, own, ne] using before

theorem Inv.leave (inv : Inv s) {fiber : UInt32} (taken : step s (.leave fiber) = some after) :
    Inv after := by
  simp only [step] at taken
  split_ifs at taken with finished
  obtain rfl := some.inj taken
  refine ⟨(forall_update_iff _ _).mpr ⟨⟨by simp, by simp, by simp⟩,
    fun other _ => inv.waits other⟩, fun wc => (inv.counted wc).trans ?_⟩
  by_cases own : wridToFiberId wc.wrId = fiber
  · rw [own]
    simp only [update_self, count_nil, count_eq_zero]
    intro mem
    simpa using List.all_eq_true.mp finished _ mem
  · simp only [update_of_ne own]

theorem inv_of_reachable (reached : Reachable step Numbered IsInitial s) : Inv s := by
  refine reached.invariant ?_ ?_
  · rintro s ⟨posted, cq, map, waits⟩
    exact ⟨fun fiber => waits fiber ▸ ⟨by simp, by simp, by simp⟩,
      fun wc => by simp [copies, posted, cq, map, waits]⟩
  · intro s event after inv numbered taken
    cases event with
    | post => exact inv.post numbered taken
    | complete => exact inv.complete taken
    | poll => exact inv.poll taken
    | check => exact inv.check taken
    | leave => exact inv.leave taken

/-- A fiber finds no completion but that of the request for which it waits.  Until
then the request is with the card, in the queue or in the map, and nowhere twice;
what is there is awaited by the fiber that has posted it. -/
theorem completions_delivered (reached : Reachable step Numbered IsInitial s) :
    (∀ fiber, ∀ wait ∈ s.waits fiber, ∀ serial ∈ wait.found, serial = wait.request.serial) ∧
      (∀ fiber, ∀ wait ∈ s.waits fiber, wait.found = none → copies s wait.request = 1) ∧
      ∀ wc, 0 < copies s wc → ⟨wc, none⟩ ∈ s.waits (wridToFiberId wc.wrId) := by
  have inv := inv_of_reachable reached
  refine ⟨fun fiber => (inv.waits fiber).found, fun fiber wait mem unfinished => ?_,
    fun wc => inv.awaited⟩
  apply (inv.copies_le_one wait.request).antisymm
  have same : (⟨wait.request, none⟩ : Wait) = wait := Wait.ext rfl unfinished.symm
  rw [inv.counted, (inv.waits fiber).fiber wait mem, same]
  exact one_le_count_iff.mpr mem

/-- Two fibers read buckets on one server; the completions arrive in the other
order, and the second fiber returns and posts again. -/
def twoFibers : List Event :=
  [.post 1 0 100 0, .post 2 0 100 0, .complete 0, .complete 0, .poll, .check 1 0, .poll,
    .check 2 0, .leave 2, .post 2 0 100 0, .check 1 0]

theorem completions_delivered_twoFibers :
    ∃ s, Reachable step Numbered IsInitial s ∧
      s.waits 1 = [⟨⟨ibGenWrId 1 0 100 0, 0⟩, some 0⟩] ∧
      copies s ⟨ibGenWrId 2 0 100 0, 2⟩ = 1 := by
  obtain ⟨s, reached, found, again⟩ := Reachable.exists_of_run step Numbered twoFibers
    (fun s => s.waits 1 = [⟨⟨ibGenWrId 1 0 100 0, 0⟩, some 0⟩] ∧
      ⟨⟨ibGenWrId 2 0 100 0, 2⟩, none⟩ ∈ s.waits 2)
    (show IsInitial ⟨[], [], fun _ => none, fun _ => [], 0⟩ from by simp [IsInitial]) (by decide)
  exact ⟨s, reached, found, (completions_delivered reached).2.1 2 _ again rfl⟩

end FuseeFs.Network.Completions
