import Mathlib

/-!
# Windows on a ring

Windows of a fixed width are laid on a ring of positions, one after the other.
If each window begins one position behind the one before, every position is
covered about equally often (`rotationCount`).  If a position may be covered only
so many times and the windows avoid beginning at a position that has reached the
limit, the counts have the form of stairs (`stairCount`).
-/

namespace FuseeFs.Library

open Nat List Option

/-! ## One window -/

/-- Whether a window covers a position.  It may reach over the end of the ring. -/
def InWindow (size width start pos : ℕ) : Prop :=
  start ≤ pos ∧ pos < start + width ∨ pos + size < start + width

instance (size width start pos : ℕ) : Decidable (InWindow size width start pos) :=
  inferInstanceAs (Decidable (_ ∨ _))

section Window

variable {size width start pos : ℕ} (enough : width ≤ size)
include enough

theorem inWindow_iff (begins : start < size) (inside : pos < size) :
    InWindow size width start pos ↔ ∃ offset < width, (start + offset) % size = pos := by
  constructor
  · rintro (⟨lower, _⟩ | _)
    · refine ⟨pos - start, by omega, ?_⟩
      rw [Nat.add_sub_cancel' lower, mod_eq_of_lt inside]
    · refine ⟨pos + size - start, by omega, ?_⟩
      rw [Nat.add_sub_cancel' (by omega), add_mod_right, mod_eq_of_lt inside]
  · rintro ⟨offset, _, rfl⟩
    by_cases before : start + offset < size
    · rw [mod_eq_of_lt before]
      exact .inl ⟨Nat.le_add_right _ _, by omega⟩
    · rw [mod_eq_sub_mod (by omega), mod_eq_of_lt (by omega)]
      exact .inr (by omega)

theorem window_injOn : Set.InjOn (fun offset => (start + offset) % size) {offset | offset < width} := by
  intro offset bound other otherBound same
  have congruent : offset ≡ other [MOD size] := Nat.ModEq.add_left_cancel' start same
  exact Nat.ModEq.eq_of_lt_of_lt congruent (lt_of_lt_of_le bound enough)
    (lt_of_lt_of_le otherBound enough)

end Window

/-! ## Rotation -/

def turnCount (size width windows pos : ℕ) : ℕ :=
  (min windows (pos + 1) - (pos + 1 - width)) + (windows - (size + pos + 1 - width))

/-- The same for any number of windows, the next one always beginning one
position further. -/
def rotationCount (size width windows pos : ℕ) : ℕ :=
  windows / size * width + turnCount size width (windows % size) pos

section Rotation

variable {size width pos : ℕ} (enough : width ≤ size) (inside : pos < size)

theorem turnCount_zero : turnCount size width 0 pos = 0 := by
  unfold turnCount
  omega

include enough inside

theorem turnCount_succ {windows : ℕ} (more : windows < size) :
    turnCount size width (windows + 1) pos = turnCount size width windows pos +
      if InWindow size width windows pos then 1 else 0 := by
  by_cases covered : InWindow size width windows pos
  · rw [if_pos covered]
    unfold InWindow at covered
    unfold turnCount
    omega
  · rw [if_neg covered]
    unfold InWindow at covered
    unfold turnCount
    omega

theorem turnCount_size : turnCount size width size pos = width := by
  unfold turnCount
  omega

theorem turnCount_le {windows : ℕ} (turn : windows ≤ size) :
    turnCount size width windows pos ≤ min width windows := by
  unfold turnCount
  omega

omit enough inside in
theorem rotationCount_zero : rotationCount size width 0 pos = 0 := by
  rw [rotationCount, Nat.zero_div, zero_mod, turnCount_zero, Nat.zero_mul]

theorem rotationCount_succ (windows : ℕ) :
    rotationCount size width (windows + 1) pos = rotationCount size width windows pos +
      if InWindow size width (windows % size) pos then 1 else 0 := by
  have bound : windows % size < size := mod_lt _ (by omega)
  have split := div_add_mod windows size
  have step := turnCount_succ enough inside bound
  by_cases last : windows % size + 1 = size
  · have next : windows + 1 = size * (windows / size + 1) := by
      rw [Nat.mul_add, Nat.mul_one]
      omega
    have quotient : (windows + 1) / size = windows / size + 1 := by
      rw [next, Nat.mul_div_cancel_left _ (by omega)]
    have rest : (windows + 1) % size = 0 := by
      rw [next, mul_mod_right]
    rw [rotationCount, quotient, rest, turnCount_zero, rotationCount, succ_mul]
    rw [last, turnCount_size enough inside] at step
    omega
  · have quotient : (windows + 1) / size = windows / size := by
      rw [Nat.succ_div, if_neg, Nat.add_zero]
      rw [dvd_iff_mod_eq_zero, add_mod, mod_eq_of_lt (show 1 < size by omega),
        mod_eq_of_lt (by omega)]
      omega
    have rest : (windows + 1) % size = windows % size + 1 := by
      rw [add_mod, mod_eq_of_lt (show 1 < size by omega), mod_eq_of_lt (by omega)]
    rw [rotationCount, quotient, rest, step, rotationCount, Nat.add_assoc]

theorem rotationCount_mono : Monotone fun windows => rotationCount size width windows pos := by
  refine monotone_nat_of_le_succ fun windows => ?_
  rw [rotationCount_succ enough inside]
  exact Nat.le_add_right _ _

omit enough in
theorem rotationCount_mul (turns : ℕ) :
    rotationCount size width (turns * size) pos = turns * width := by
  rw [rotationCount, Nat.mul_div_cancel _ (by omega), mul_mod_left, turnCount_zero, Nat.add_zero]

theorem rotationCount_le (windows : ℕ) :
    rotationCount size width windows pos ≤ windows / size * width + min width (windows % size) :=
  Nat.add_le_add_left (turnCount_le enough inside (mod_lt _ (by omega)).le) _

end Rotation

theorem rotationCount_last {size width : ℕ} (positive : 0 < width) (enough : width ≤ size)
    (windows : ℕ) : rotationCount size width windows (width - 1) =
      windows / size * width + min width (windows % size) := by
  have bound : windows % size < size := mod_lt _ (by omega)
  unfold rotationCount turnCount
  omega

/-- Before a window is laid, none of its positions has been covered as often as
the positions will be at the end of the turn. -/
theorem rotationCount_lt {size width windows pos : ℕ} (enough : width ≤ size)
    (inside : pos < size) (covered : InWindow size width (windows % size) pos) :
    rotationCount size width windows pos < (windows / size + 1) * width := by
  have bound : windows % size < size := mod_lt _ (by omega)
  have step := turnCount_succ enough inside bound
  have most := turnCount_le enough inside (show windows % size + 1 ≤ size by omega)
  rw [if_pos covered] at step
  rw [rotationCount, succ_mul]
  omega

section Laying

variable (size width depth : ℕ)

/-- The first position from a given one on that has not reached the limit. -/
def nextOpen (counts : ℕ → ℕ) (start : ℕ) : Option ℕ :=
  ((List.range size).map fun offset => (start + offset) % size).find? fun pos =>
    counts pos ≠ depth

def lay (start : ℕ) (counts : ℕ → ℕ) (pos : ℕ) : ℕ :=
  counts pos + if InWindow size width start pos then 1 else 0

/-- Whether the given number of windows can be laid.  Each is to begin one
position behind the one before, or at the next position that is open. -/
def canLay : ℕ → ℕ → (ℕ → ℕ) → Bool
  | 0, _, _ => true
  | remaining + 1, number, counts =>
    match nextOpen size depth counts (number % size) with
    | none => false
    | some start =>
      decide (∀ pos < size, InWindow size width start pos → counts pos < depth) &&
        canLay remaining (number + 1) (lay size width start counts)

variable {size width depth} {counts others : ℕ → ℕ} {remaining number start : ℕ}

theorem nextOpen_lt (found : nextOpen size depth counts number = some start) : start < size := by
  obtain ⟨_, inRange, rfl⟩ := List.mem_map.mp (mem_of_find?_eq_some found)
  exact mod_lt _ (zero_lt_of_lt (mem_range.mp inRange))

theorem nextOpen_eq (inside : start < size) (later : number ≤ start)
    (full : ∀ pos, number ≤ pos → pos < start → counts pos = depth)
    (isOpen : counts start ≠ depth) : nextOpen size depth counts number = some start := by
  obtain ⟨gap, rfl⟩ := Nat.exists_eq_add_of_le later
  obtain ⟨rest, total⟩ := Nat.exists_eq_add_of_le (show gap + 1 ≤ size by omega)
  have positions : List.range size =
      List.range gap ++ gap :: (List.range rest).map (gap + 1 + ·) := by
    rw [total, range_add, range_succ, append_assoc, singleton_append]
  rw [nextOpen, positions, map_append, map_cons, find?_append]
  have skipped : ((List.range gap).map fun offset => (number + offset) % size).find?
      (fun pos => counts pos ≠ depth) = none := by
    refine find?_eq_none.mpr fun pos mem => ?_
    obtain ⟨offset, inRange, rfl⟩ := List.mem_map.mp mem
    have bound := mem_range.mp inRange
    rw [mod_eq_of_lt (by omega), full (number + offset) (by omega) (by omega)]
    simp
  rw [skipped, none_or, mod_eq_of_lt inside, find?_cons_of_pos]
  exact decide_eq_true isOpen

theorem nextOpen_congr (agree : ∀ pos < size, counts pos = others pos) :
    nextOpen size depth counts number = nextOpen size depth others number := by
  refine find?_congr fun pos mem => ?_
  obtain ⟨_, inRange, rfl⟩ := List.mem_map.mp mem
  rw [agree _ (mod_lt _ (zero_lt_of_lt (mem_range.mp inRange)))]

theorem canLay_succ (found : nextOpen size depth counts (number % size) = some start)
    (room : ∀ pos < size, InWindow size width start pos → counts pos < depth) :
    canLay size width depth (remaining + 1) number counts =
      canLay size width depth remaining (number + 1) (lay size width start counts) := by
  rw [canLay, found]
  dsimp only
  rw [decide_eq_true room, Bool.true_and]

theorem canLay_blocked (found : nextOpen size depth counts (number % size) = some start) {pos : ℕ}
    (inside : pos < size) (covered : InWindow size width start pos) (full : counts pos = depth) :
    canLay size width depth (remaining + 1) number counts = false := by
  rw [canLay, found]
  dsimp only
  rw [decide_eq_false, Bool.false_and]
  intro room
  exact absurd full (room pos inside covered).ne

theorem canLay_of_le {fewer : ℕ} (le : fewer ≤ remaining)
    (laid : canLay size width depth remaining number counts) :
    canLay size width depth fewer number counts := by
  induction remaining generalizing fewer number counts with
  | zero =>
    rw [le_zero.mp le]
    rfl
  | succ remaining ih =>
    cases fewer with
    | zero => rfl
    | succ fewer =>
      rw [canLay] at laid ⊢
      cases found : nextOpen size depth counts (number % size) with
      | none =>
        rw [found] at laid
        exact absurd laid Bool.false_ne_true
      | some start =>
        rw [found] at laid
        dsimp only at laid ⊢
        rw [Bool.and_eq_true] at laid ⊢
        exact ⟨laid.1, ih (le_of_succ_le_succ le) laid.2⟩

theorem canLay_congr (agree : ∀ pos < size, counts pos = others pos) :
    canLay size width depth remaining number counts =
      canLay size width depth remaining number others := by
  induction remaining generalizing number counts others with
  | zero => rfl
  | succ remaining ih =>
    rw [canLay, canLay, nextOpen_congr agree]
    cases nextOpen size depth others (number % size) with
    | none => rfl
    | some start =>
      have laid : ∀ pos < size, lay size width start counts pos =
          lay size width start others pos := by
        intro pos inside
        rw [lay, lay, agree pos inside]
      dsimp only
      rw [ih laid]
      congr 1
      refine decide_eq_decide.mpr (forall₂_congr fun pos inside => ?_)
      rw [agree pos inside]

end Laying

section Turns

variable {size width depth : ℕ} (enough : width ≤ size)
include enough

/-- As long as there is room for a whole turn, no position is skipped. -/
theorem canLay_turns {windows remaining : ℕ} (turns : windows ≤ depth / width * size) :
    canLay size width depth (remaining + windows) 0 (fun _ => 0) =
      canLay size width depth remaining windows (rotationCount size width windows) := by
  induction windows generalizing remaining with
  | zero => exact canLay_congr fun pos _ => rotationCount_zero.symm
  | succ windows ih =>
    have positive : 0 < size := by
      refine Nat.pos_of_ne_zero fun zero => ?_
      rw [zero, Nat.mul_zero] at turns
      omega
    -- the turn that the window belongs to leaves room up to the limit
    have turn : (windows / size + 1) * width ≤ depth := by
      have before : windows / size < depth / width := Nat.div_lt_of_lt_mul (by
        rw [Nat.mul_comm]
        omega)
      exact (Nat.mul_le_mul_right width (succ_le_of_lt before)).trans (div_mul_le_self _ _)
    have room : ∀ pos < size, InWindow size width (windows % size) pos →
        rotationCount size width windows pos < depth := fun pos inside covered =>
      (rotationCount_lt enough inside covered).trans_le turn
    have begins : windows % size < size := mod_lt _ positive
    have widthPositive : 0 < width := by
      refine Nat.pos_of_ne_zero fun zero => ?_
      rw [zero, Nat.div_zero, Nat.zero_mul] at turns
      omega
    have isOpen : rotationCount size width windows (windows % size) ≠ depth :=
      (room _ begins (.inl ⟨le_rfl, by omega⟩)).ne
    have found := nextOpen_eq begins le_rfl (fun pos lower upper => by omega) isOpen
    rw [← Nat.add_assoc, Nat.add_right_comm, ih (by omega), canLay_succ found room]
    refine canLay_congr fun pos inside => ?_
    rw [lay, rotationCount_succ enough inside]

end Turns

/-! ## Stairs -/

/-- How often a position of the unrolled ring is covered if windows begin at the
first `depth` positions of each part of `width` positions below `base`, and at
the first `placed` positions from `base` on. -/
def stairCount (width depth base placed pos : ℕ) : ℕ :=
  if pos < base then min (pos + 1) depth
  else if pos < base + width then
    (if base = 0 then 0 else depth - 1 - (pos - base)) + min (pos - base + 1) placed
  else placed - 1 - (pos - base - width)

def ringStairs (size width depth base placed pos : ℕ) : ℕ :=
  stairCount width depth base placed pos + stairCount width depth base placed (pos + size)

section Stairs

variable {size width depth base placed pos : ℕ} (narrow : depth < width)

theorem stairCount_zero : stairCount width depth 0 0 pos = 0 := by
  unfold stairCount
  split_ifs <;> omega

include narrow

theorem stairCount_next (parts : base = 0 ∨ width ≤ base) :
    stairCount width depth base depth pos = stairCount width depth (base + width) 0 pos := by
  unfold stairCount
  split_ifs <;> omega

theorem stairCount_succ (more : placed < depth) :
    stairCount width depth base (placed + 1) pos =
      stairCount width depth base placed pos +
        if base + placed ≤ pos ∧ pos < base + placed + width then 1 else 0 := by
  unfold stairCount
  split_ifs <;> omega

variable (enough : width ≤ size) (more : placed < depth)
include enough more

theorem ringStairs_succ (begins : base + placed < size) :
    ringStairs size width depth base (placed + 1) pos =
      ringStairs size width depth base placed pos +
        if InWindow size width (base + placed) pos then 1 else 0 := by
  rw [ringStairs, stairCount_succ narrow more, stairCount_succ narrow more, ringStairs]
  by_cases covered : InWindow size width (base + placed) pos
  · rw [if_pos covered]
    unfold InWindow at covered
    split_ifs <;> omega
  · rw [if_neg covered]
    unfold InWindow at covered
    split_ifs <;> omega

/-- Behind the first steps, all positions before the next window are full. -/
theorem ringStairs_full (nonzero : base ≠ 0) (fits : base ≤ size)
    (clear : placed = 0 ∨ base + placed + width ≤ size + depth)
    (later : depth ≤ pos + 1) (before : pos < base + placed) :
    ringStairs size width depth base placed pos = depth := by
  unfold ringStairs stairCount
  split_ifs <;> omega

theorem ringStairs_start : ringStairs size width depth base placed (base + placed) < depth := by
  unfold ringStairs stairCount
  split_ifs <;> omega

theorem ringStairs_lt (parts : base = 0 ∨ width ≤ base)
    (fits : base + placed + 1 + width ≤ size + depth)
    (covered : InWindow size width (base + placed) pos) (inside : pos < size) :
    ringStairs size width depth base placed pos < depth := by
  unfold InWindow at covered
  unfold ringStairs stairCount
  split_ifs <;> omega

end Stairs

/-! ## How many windows can be laid -/

/-- The counts after as many whole turns as fit, a number of whole parts and some
further windows. -/
def stairs (size width depth parts placed pos : ℕ) : ℕ :=
  depth / width * width + ringStairs size width (depth % width) (parts * width) placed pos

section Greedy

variable {size width depth parts placed remaining : ℕ}
  (positive : 0 < width) (enough : width ≤ size)

theorem base_eq_zero_or (width parts : ℕ) : parts * width = 0 ∨ width ≤ parts * width := by
  cases parts with
  | zero => exact .inl (Nat.zero_mul _)
  | succ parts => exact .inr (Nat.le_mul_of_pos_left _ parts.succ_pos)

theorem stairs_zero : stairs size width depth 0 0 = fun _ => depth / width * width := by
  funext pos
  rw [stairs, ringStairs, Nat.zero_mul, stairCount_zero, stairCount_zero]
  rfl

include positive

theorem stairs_next : stairs size width depth parts (depth % width) =
    stairs size width depth (parts + 1) 0 := by
  have narrow : depth % width < width := mod_lt _ positive
  have either := base_eq_zero_or width parts
  funext pos
  rw [stairs, ringStairs, stairCount_next narrow either, stairCount_next narrow either, stairs,
    ringStairs, succ_mul]

include enough

theorem nextOpen_stairs (more : placed < depth % width)
    (clear : placed = 0 ∨ parts * width + placed + width ≤ size + depth % width)
    (begins : parts * width + placed < size) :
    nextOpen size depth (stairs size width depth parts placed)
      ((depth / width * size + (parts * (depth % width) + placed)) % size) =
        some (parts * width + placed) := by
  have narrow : depth % width < width := mod_lt _ positive
  have total := div_add_mod' depth width
  have fewer : parts * (depth % width) ≤ parts * width := Nat.mul_le_mul_left _ narrow.le
  rw [mul_add_mod', mod_eq_of_lt (by omega)]
  refine nextOpen_eq begins (by omega) (fun pos later before => ?_) ?_
  · cases parts with
    | zero => omega
    | succ parts =>
      have first : depth % width ≤ (parts + 1) * (depth % width) :=
        Nat.le_mul_of_pos_left _ parts.succ_pos
      have nonzero : (parts + 1) * width ≠ 0 := Nat.mul_ne_zero parts.succ_ne_zero positive.ne'
      rw [stairs, ringStairs_full narrow enough more nonzero (by omega) clear (by omega) before]
      exact total
  · have lower : ringStairs size width (depth % width) (parts * width) placed
        (parts * width + placed) < depth % width := ringStairs_start narrow enough more
    rw [stairs]
    omega

theorem canLay_part (few : placed ≤ depth % width)
    (fits : placed = 0 ∨ parts * width + placed + width ≤ size + depth % width) :
    canLay size width depth (remaining + placed) (depth / width * size + parts * (depth % width))
        (stairs size width depth parts 0) =
      canLay size width depth remaining
        (depth / width * size + (parts * (depth % width) + placed))
        (stairs size width depth parts placed) := by
  have narrow : depth % width < width := mod_lt _ positive
  have total := div_add_mod' depth width
  induction placed generalizing remaining with
  | zero => rfl
  | succ placed ih =>
    have begins : parts * width + placed < size := by omega
    have laid : lay size width (parts * width + placed) (stairs size width depth parts placed) =
        stairs size width depth parts (placed + 1) := by
      funext pos
      rw [lay, stairs, stairs, ringStairs_succ narrow enough few begins, Nat.add_assoc]
    have shift : remaining + (placed + 1) = remaining + 1 + placed := by omega
    rw [shift, ih (by omega) (.inr (by omega)),
      canLay_succ (nextOpen_stairs positive enough few (.inr (by omega)) begins), laid]
    · rfl
    · intro pos inside covered
      have lower := ringStairs_lt narrow enough few (base_eq_zero_or width parts) (by omega)
        covered inside
      rw [stairs]
      omega

theorem canLay_parts (fits : parts * width ≤ size) :
    canLay size width depth (remaining + parts * (depth % width)) (depth / width * size)
        (fun _ => depth / width * width) =
      canLay size width depth remaining (depth / width * size + parts * (depth % width))
        (stairs size width depth parts 0) := by
  induction parts generalizing remaining with
  | zero => rw [stairs_zero, Nat.zero_mul, Nat.add_zero, Nat.add_zero]
  | succ parts ih =>
    rw [succ_mul] at fits
    rw [succ_mul, Nat.add_comm (parts * _), ← Nat.add_assoc, ih (by omega),
      canLay_part positive enough le_rfl (.inr (by omega)), stairs_next positive,
      Nat.add_comm (depth % width)]

/-- How many windows can be laid behind the whole turns. -/
def stairsRoom (size width depth : ℕ) : ℕ :=
  size / width * (depth % width) + (depth % width + size % width - width)

theorem canLay_stairs (remaining : ℕ) :
    canLay size width depth (remaining + stairsRoom size width depth) (depth / width * size)
        (fun _ => depth / width * width) =
      canLay size width depth remaining (depth / width * size + stairsRoom size width depth)
        (stairs size width depth (size / width) (depth % width + size % width - width)) := by
  have narrow : depth % width < width := mod_lt _ positive
  have less : size % width < width := mod_lt _ positive
  have total := div_add_mod' size width
  rw [stairsRoom, Nat.add_comm (size / width * _), ← Nat.add_assoc,
    canLay_parts positive enough (by omega), canLay_part positive enough (by omega) (by omega),
    Nat.add_comm (depth % width + _ - _)]

/-- Behind them the next window reaches a full position. -/
theorem canLay_stairs_blocked (rest : 0 < depth % width) (wider : 0 < size % width) :
    canLay size width depth (remaining + 1)
      (depth / width * size + stairsRoom size width depth)
      (stairs size width depth (size / width) (depth % width + size % width - width)) = false := by
  have narrow : depth % width < width := mod_lt _ positive
  have less : size % width < width := mod_lt _ positive
  have total := div_add_mod' size width
  have height := div_add_mod' depth width
  have first : width ≤ size / width * width :=
    Nat.le_mul_of_pos_left _ (Nat.div_pos enough positive)
  have covered : InWindow size width
      (size / width * width + (depth % width + size % width - width)) (depth % width - 1) :=
    .inr (by omega)
  have full : stairs size width depth (size / width) (depth % width + size % width - width)
      (depth % width - 1) = depth := by
    rw [stairs, ringStairs_full narrow enough (by omega) (by omega) (by omega) (by omega) (by omega)
      (by omega)]
    exact height
  exact canLay_blocked (nextOpen_stairs positive enough (by omega) (by omega) (by omega))
    (by omega) covered full

omit positive enough in
theorem room_eq (size width depth : ℕ) : depth * size =
    (depth / width * size + size / width * (depth % width)) * width +
      depth % width * (size % width) := by
  calc depth * size = (depth / width * width + depth % width) * size := by
        rw [div_add_mod']
    _ = depth / width * width * size + depth % width * (size / width * width + size % width) := by
        rw [Nat.add_mul, div_add_mod' size]
    _ = _ := by ring

/-- If there is room for the windows in all, they can be laid if those behind the
whole turns do not reach a full position. -/
theorem canLay_iff {windows : ℕ} (room : windows * width ≤ depth * size) :
    canLay size width depth windows 0 (fun _ => 0) ↔
      windows ≤ depth / width * size + stairsRoom size width depth := by
  have turns (remaining : ℕ) : canLay size width depth (remaining + depth / width * size) 0
      (fun _ => 0) = canLay size width depth remaining (depth / width * size)
        (fun _ => depth / width * width) := by
    rw [canLay_turns enough le_rfl, canLay_congr fun pos inside => rotationCount_mul inside _]
  constructor
  · intro laid
    by_contra beyond
    obtain ⟨more, rfl⟩ := Nat.exists_eq_add_of_lt (Nat.lt_of_not_le beyond)
    -- Otherwise the windows laid so far use all the room.
    have both : 0 < depth % width * (size % width) := by
      by_contra none
      rw [room_eq size width depth, Nat.eq_zero_of_not_pos none, Nat.add_zero] at room
      have le := Nat.le_of_mul_le_mul_right room positive
      rw [stairsRoom] at le
      omega
    have rest := Nat.pos_of_mul_pos_right both
    have wider := Nat.pos_of_mul_pos_left both
    have total : depth / width * size + stairsRoom size width depth + more + 1 =
        more + 1 + stairsRoom size width depth + depth / width * size := by omega
    rw [total, turns, canLay_stairs positive enough,
      canLay_stairs_blocked positive enough rest wider] at laid
    exact Bool.false_ne_true laid
  · intro le
    refine canLay_of_le le ?_
    rw [Nat.add_comm, turns, ← Nat.zero_add (stairsRoom size width depth),
      canLay_stairs positive enough]
    rfl

omit positive enough in
theorem div_le_iff_lt_or {rest wider : ℕ} (narrow : rest < width) (less : wider < width) :
    rest * wider / width ≤ rest + wider - width ↔
      rest * wider < width ∨ (width - rest) * (width - wider) < width := by
  rcases Nat.le_total (rest + wider) width with few | many
  · have none : rest + wider - width = 0 := Nat.sub_eq_zero_of_le few
    rw [none, le_zero, div_eq_zero_iff_lt (by omega)]
    refine (or_iff_left_of_imp fun gaps => lt_of_le_of_lt ?_ gaps).symm
    rw [Nat.mul_comm rest]
    exact Nat.mul_le_mul (by omega) (by omega)
  · obtain ⟨extra, excess⟩ := Nat.exists_eq_add_of_le many
    obtain ⟨gap, rfl⟩ := Nat.exists_eq_add_of_le narrow.le
    obtain ⟨other, _⟩ := Nat.exists_eq_add_of_le less.le
    have product : rest * wider = gap * other + extra * (rest + gap) := by
      obtain rfl : wider = gap + extra := by omega
      obtain rfl : rest = other + extra := by omega
      ring
    have between : gap * other ≤ rest * wider := product ▸ Nat.le_add_right _ _
    have gaps : rest + gap - wider = other := by omega
    rw [excess, Nat.add_sub_cancel_left, Nat.add_sub_cancel_left, gaps, ← Nat.lt_succ_iff,
      Nat.div_lt_iff_lt_mul (by omega), product, succ_mul]
    omega

/-- Whether the room can be used up to less than a window. -/
theorem canLay_room_iff : canLay size width depth (depth * size / width) 0 (fun _ => 0) ↔
    depth % width * (size % width) < width ∨
      (width - depth % width) * (width - size % width) < width := by
  rw [canLay_iff positive enough (div_mul_le_self _ _), room_eq size width depth,
    Nat.add_comm (_ * width), add_mul_div_right _ _ positive, stairsRoom,
    ← div_le_iff_lt_or (mod_lt _ positive) (mod_lt _ positive)]
  omega

end Greedy

end FuseeFs.Library
