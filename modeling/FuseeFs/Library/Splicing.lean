import FuseeFs.Library.Traversal

/-!
# Splicing linked lists

Linked lists become one if the last cell of each gets the first cell of the
following list as its successor.  Only the last cells change, so that lists
without a common cell can be spliced in any number of places.
-/

namespace FuseeFs.Library

open List Option Function

universe u

variable {Cell : Type u}

def Linked (next : Cell → Option Cell) (cells : List Cell) : Prop :=
  cells.IsChain fun cell successor => next cell = some successor

variable {next other : Cell → Option Cell}

theorem Linked.congr {cells : List Cell} (agree : ∀ cell ∈ cells, other cell = next cell)
    (linked : Linked next cells) : Linked other cells :=
  linked.imp_of_mem_imp fun cell _ mem _ link => (agree cell mem).trans link

theorem Linked.congr_of_mem_init {cells : List Cell} {last : Cell}
    (agree : ∀ cell ∈ cells, other cell = next cell) (linked : Linked next (cells ++ [last])) :
    Linked other (cells ++ [last]) := by
  obtain ⟨first, -, link⟩ := isChain_append.mp linked
  refine isChain_append.mpr ⟨Linked.congr agree first, isChain_singleton _, ?_⟩
  intro cell isLast successor follows
  rw [agree cell (mem_of_mem_getLast? isLast)]
  exact link cell isLast successor follows

section Splicing

variable [DecidableEq Cell]

/-- Links the last cell of each list to the first one of those that follow.  The
last cell of all lists gets no successor. -/
def splice (next : Cell → Option Cell) : List (List Cell) → Cell → Option Cell
  | [] => next
  | cells :: rest =>
    match cells.getLast? with
    | none => splice next rest
    | some last => splice (update next last rest.flatten.head?) rest

theorem splice_cons (next : Cell → Option Cell) (cells : List Cell) (last : Cell)
    (rest : List (List Cell)) :
    splice next ((cells ++ [last]) :: rest) =
      splice (update next last rest.flatten.head?) rest := by
  rw [splice, getLast?_concat]

theorem splice_of_not_mem {lists : List (List Cell)} {cell : Cell}
    (absent : cell ∉ lists.flatten) (next : Cell → Option Cell) :
    splice next lists cell = next cell := by
  induction lists generalizing next with
  | nil => rfl
  | cons cells rest ih =>
    rw [flatten_cons, mem_append, not_or] at absent
    rw [splice]
    cases found : cells.getLast? with
    | none => exact ih absent.2 next
    | some last =>
      have ne : cell ≠ last := fun same =>
        absent.1 (same ▸ mem_of_mem_getLast? found)
      exact (ih absent.2 _).trans (update_of_ne ne _ _)

section First

variable {cells : List Cell} {last : Cell} {rest : List (List Cell)}
  (nodup : ((cells ++ [last]) :: rest).flatten.Nodup) (next : Cell → Option Cell)
include nodup

theorem splice_cons_of_mem {cell : Cell} (mem : cell ∈ cells ++ [last]) :
    splice next ((cells ++ [last]) :: rest) cell = update next last rest.flatten.head? cell := by
  obtain ⟨-, -, apart⟩ := nodup_append'.mp nodup
  rw [splice_cons]
  exact splice_of_not_mem (apart mem) _

theorem splice_cons_last : splice next ((cells ++ [last]) :: rest) last = rest.flatten.head? := by
  rw [splice_cons_of_mem nodup next (mem_append_right _ mem_cons_self), update_self]

theorem splice_cons_init {cell : Cell} (mem : cell ∈ cells) :
    splice next ((cells ++ [last]) :: rest) cell = next cell := by
  have ne : cell ≠ last := by
    obtain ⟨firstNodup, -, -⟩ := nodup_append'.mp nodup
    rintro rfl
    exact (nodup_append'.mp firstNodup).2.2 mem mem_cons_self
  rw [splice_cons_of_mem nodup next (mem_append_left _ mem), update_of_ne ne]

end First

theorem linked_splice {lists : List (List Cell)} {next : Cell → Option Cell}
    (filled : ∀ cells ∈ lists, cells ≠ []) (nodup : lists.flatten.Nodup)
    (linked : ∀ cells ∈ lists, Linked next cells) :
    Linked (splice next lists) lists.flatten ∧
      ∀ last ∈ lists.flatten.getLast?, splice next lists last = none := by
  induction lists generalizing next with
  | nil => exact ⟨isChain_nil, by simp⟩
  | cons cells rest ih =>
    obtain ⟨filledFirst, restFilled⟩ := forall_mem_cons.mp filled
    obtain ⟨firstLinked, restLinked⟩ := forall_mem_cons.mp linked
    obtain ⟨cells, last, rfl⟩ := (eq_nil_or_concat' cells).resolve_left filledFirst
    obtain ⟨-, restNodup, apart⟩ := nodup_append'.mp nodup
    have link := splice_cons_last nodup next
    have init := fun cell => @splice_cons_init _ _ _ _ _ nodup next cell
    simp only [splice_cons] at link init ⊢
    -- the successor of `last` changes, and `last` is in no other list
    have stillLinked : ∀ others ∈ rest,
        Linked (update next last rest.flatten.head?) others := by
      intro others mem
      refine Linked.congr (fun cell inOthers => update_of_ne ?_ _ _) (restLinked others mem)
      rintro rfl
      exact apart (mem_append_right _ mem_cons_self) (mem_flatten_of_mem mem inOthers)
    obtain ⟨restChain, restEnd⟩ := ih restFilled restNodup stillLinked
    rw [flatten_cons]
    refine ⟨isChain_append.mpr ⟨?_, restChain, ?_⟩, ?_⟩
    · exact Linked.congr_of_mem_init init firstLinked
    · intro cell isLast successor follows
      obtain rfl := some.inj ((getLast?_concat ..).symm.trans isLast)
      exact link.trans follows
    · intro final isFinal
      by_cases behind : rest.flatten = []
      · rw [behind, append_nil, getLast?_concat] at isFinal
        obtain rfl := some.inj isFinal
        rw [link, behind, head?_nil]
      · rw [getLast?_append_of_ne_nil _ behind] at isFinal
        exact restEnd final isFinal

end Splicing

end FuseeFs.Library
