import Mathlib

/-!
# Path strings

The string functions of `fs/common/path.cc`.  A string is the list of its
characters.
-/

namespace FuseeFs.Engine

open List Option

/-- `SplitPath`: the non-empty pieces between slashes. -/
def splitPath (path : List Char) : List (List Char) :=
  (path.splitOn '/').filter (· ≠ [])

/-- `SeparateLastComponent`: what stands before and after the last slash. -/
def separateLastComponent (path : List Char) : List Char × List Char :=
  if path = [] then ([], [])
  else if '/' ∉ path then ([], path)
  else ((path.rdropWhile (· ≠ '/')).dropLast, path.rtakeWhile (· ≠ '/'))

/-- The loop of `FormatPath`: a slash after a slash is erased.  `previous` is
the last character that was kept. -/
def eraseDoubleSlashes (previous : Char) : List Char → List Char
  | [] => []
  | char :: rest =>
    if char = '/' ∧ previous = '/' then eraseDoubleSlashes previous rest
    else char :: eraseDoubleSlashes char rest

/-- `FormatPath`: a leading slash, no double slashes, and one trailing slash
less. -/
def formatPath (path : List Char) : List Char :=
  if path = [] then []
  else
    let rooted := if path.head? ≠ some '/' then '/' :: path else path
    let popped := if rooted.getLast? = some '/' then rooted.dropLast else rooted
    match popped with
    | [] => []
    | first :: rest => first :: eraseDoubleSlashes first rest

example : formatPath "a//b/".toList = "/a/b".toList := by decide

-- The trailing slash is popped before double slashes are erased.
example : formatPath "a///".toList = "/a/".toList := by decide

example : separateLastComponent "/a/b".toList = ("/a".toList, ['b']) := by decide

example : splitPath "/a//b/".toList = [['a'], ['b']] := by decide

theorem splitPath_append (front back : List Char) :
    splitPath (front ++ '/' :: back) = splitPath front ++ splitPath back := by
  rw [splitPath, splitOn_append_cons_self, filter_append]
  rfl

theorem splitPath_of_notMem {piece : List Char} (noSlash : '/' ∉ piece) :
    splitPath piece = if piece = [] then [] else [piece] := by
  rw [splitPath, splitOn_eq_singleton noSlash]
  split_ifs with empty <;> simp [empty]

theorem splitPath_eraseDoubleSlashes (front : List Char) (previous : Char) (rest : List Char) :
    splitPath (front ++ previous :: eraseDoubleSlashes previous rest) =
      splitPath (front ++ previous :: rest) := by
  induction rest generalizing front previous with
  | nil => rfl
  | cons char rest ih =>
    rw [eraseDoubleSlashes]
    split_ifs with double
    · obtain ⟨rfl, rfl⟩ := double
      rw [ih, splitPath_append, splitPath_append]
      exact congrArg _ (splitPath_append [] rest).symm
    · have moved := ih (front ++ [previous]) char
      simpa using moved

def rooted (path : List Char) : List Char :=
  if path.head? ≠ some '/' then '/' :: path else path

def popped (path : List Char) : List Char :=
  if path.getLast? = some '/' then path.dropLast else path

def collapsed : List Char → List Char
  | [] => []
  | first :: rest => first :: eraseDoubleSlashes first rest

variable {path : List Char}

theorem formatPath_of_ne_nil (nonempty : path ≠ []) :
    formatPath path = collapsed (popped (rooted path)) :=
  if_neg nonempty

theorem splitPath_rooted (path : List Char) : splitPath (rooted path) = splitPath path := by
  rw [rooted]
  split_ifs
  · exact splitPath_append [] path
  · rfl

theorem splitPath_popped (path : List Char) : splitPath (popped path) = splitPath path := by
  rw [popped]
  split_ifs with trailing
  · conv_rhs => rw [← dropLast_append_getLast? _ trailing, splitPath_append]
    exact (append_nil _).symm
  · rfl

theorem splitPath_collapsed (path : List Char) : splitPath (collapsed path) = splitPath path := by
  cases path with
  | nil => rfl
  | cons first rest => exact splitPath_eraseDoubleSlashes [] first rest

theorem splitPath_formatPath (path : List Char) : splitPath (formatPath path) = splitPath path := by
  by_cases empty : path = []
  · rw [empty]
    rfl
  · rw [formatPath_of_ne_nil empty, splitPath_collapsed, splitPath_popped, splitPath_rooted]

theorem append_separateLastComponent (slash : '/' ∈ path) :
    (separateLastComponent path).1 ++ '/' :: (separateLastComponent path).2 = path := by
  have front : path.rdropWhile (· ≠ '/') ≠ [] := by
    intro gone
    simpa using rdropWhile_eq_nil_iff.mp gone '/' slash
  have last : (path.rdropWhile (· ≠ '/')).getLast front = '/' := by
    simpa using rdropWhile_last_not (· ≠ '/') path front
  have whole := dropLast_append_getLast front
  rw [last] at whole
  rw [separateLastComponent, if_neg (ne_nil_of_mem slash), if_neg (not_not.mpr slash)]
  calc (path.rdropWhile (· ≠ '/')).dropLast ++ '/' :: path.rtakeWhile (· ≠ '/')
      = (path.rdropWhile (· ≠ '/')).dropLast ++ ['/'] ++ path.rtakeWhile (· ≠ '/') := by simp
    _ = path.rdropWhile (· ≠ '/') ++ path.rtakeWhile (· ≠ '/') := by rw [whole]
    _ = path := rdropWhile_append_rtakeWhile

theorem notMem_separateLastComponent (path : List Char) : '/' ∉ (separateLastComponent path).2 := by
  rw [separateLastComponent]
  split_ifs with empty slash
  · exact not_mem_nil
  · intro member
    simpa using mem_rtakeWhile_imp member
  · exact slash

theorem splitPath_separateLastComponent (path : List Char) :
    splitPath path = splitPath (separateLastComponent path).1 ++
      if (separateLastComponent path).2 = [] then [] else [(separateLastComponent path).2] := by
  rw [← splitPath_of_notMem (notMem_separateLastComponent path)]
  by_cases slash : '/' ∈ path
  · conv_lhs => rw [← append_separateLastComponent slash, splitPath_append]
  · rw [separateLastComponent]
    split_ifs with empty
    · rw [empty]
      rfl
    · rfl

theorem getLast?_eraseDoubleSlashes (previous : Char) (rest : List Char) :
    (previous :: eraseDoubleSlashes previous rest).getLast? = (previous :: rest).getLast? := by
  induction rest generalizing previous with
  | nil => rfl
  | cons char rest ih =>
    rw [eraseDoubleSlashes]
    split_ifs with double
    · obtain ⟨rfl, rfl⟩ := double
      rw [ih, getLast?_cons_cons]
    · rw [getLast?_cons_cons, ih, getLast?_cons_cons]

/-- Paths that name an entry: not the empty path, not the root, and at most one
slash at the end. -/
def NamesEntry (path : List Char) : Prop :=
  path ≠ [] ∧ path ≠ ['/'] ∧ ¬ ['/', '/'] <:+ path

instance (path : List Char) : Decidable (NamesEntry path) :=
  inferInstanceAs (Decidable (_ ∧ _ ∧ _))

theorem separateLastComponent_snd_eq_nil_iff (slash : '/' ∈ path) :
    (separateLastComponent path).2 = [] ↔ path.getLast? = some '/' := by
  have noSlash := notMem_separateLastComponent path
  conv_rhs => rw [← append_separateLastComponent slash]
  constructor
  · intro empty
    rw [empty, getLast?_append]
    rfl
  · intro trailing
    by_contra nonempty
    rw [getLast?_append, getLast?_cons, getLast?_eq_some_getLast nonempty] at trailing
    refine noSlash ?_
    rw [← some.inj trailing]
    exact getLast_mem nonempty

theorem getLast?_popped_eq_slash_iff (path : List Char) :
    (popped path).getLast? = some '/' ↔ ['/', '/'] <:+ path := by
  rw [popped]
  split_ifs with trailing
  · have whole := dropLast_append_getLast? _ trailing
    constructor
    · intro double
      refine ⟨path.dropLast.dropLast, ?_⟩
      have front := dropLast_append_getLast? _ double
      calc path.dropLast.dropLast ++ ['/', '/']
          = path.dropLast.dropLast ++ ['/'] ++ ['/'] := by simp
        _ = path.dropLast ++ ['/'] := by rw [front]
        _ = path := whole
    · rintro ⟨front, rfl⟩
      simp
  · constructor
    · exact fun last => absurd last trailing
    · rintro ⟨_, rfl⟩
      exact absurd (by simp) trailing

theorem suffix_rooted_iff (path : List Char) :
    ['/', '/'] <:+ rooted path ↔ ['/', '/'] <:+ path := by
  rw [rooted]
  split_ifs with relative
  · rw [suffix_cons_iff]
    constructor
    · rintro (same | suffix)
      · rw [← (List.cons.inj same).2] at relative
        exact absurd rfl relative
      · exact suffix
    · exact Or.inr
  · rfl

theorem rooted_eq_cons (path : List Char) : ∃ rest, rooted path = '/' :: rest := by
  rw [rooted]
  split_ifs with relative
  · exact ⟨path, rfl⟩
  · exact head?_eq_some_iff.mp (not_not.mp relative)

theorem popped_rooted_eq_cons (nonempty : path ≠ []) (notRoot : path ≠ ['/']) :
    ∃ rest, popped (rooted path) = '/' :: rest := by
  obtain ⟨rest, isRooted⟩ := rooted_eq_cons path
  have longer : rest ≠ [] := by
    rintro rfl
    rw [rooted] at isRooted
    split_ifs at isRooted
    · exact nonempty (List.cons.inj isRooted).2
    · exact notRoot isRooted
  rw [popped, isRooted]
  split_ifs
  · exact ⟨rest.dropLast, dropLast_cons_of_ne_nil longer⟩
  · exact ⟨rest, rfl⟩

theorem formatPath_eq_cons (nonempty : path ≠ []) (notRoot : path ≠ ['/']) :
    ∃ rest, formatPath path = '/' :: eraseDoubleSlashes '/' rest := by
  obtain ⟨rest, isPopped⟩ := popped_rooted_eq_cons nonempty notRoot
  exact ⟨rest, by rw [formatPath_of_ne_nil nonempty, isPopped, collapsed]⟩

/-- Only one trailing slash is removed. -/
theorem getLast?_formatPath_eq_slash_iff (nonempty : path ≠ []) (notRoot : path ≠ ['/']) :
    (formatPath path).getLast? = some '/' ↔ ['/', '/'] <:+ path := by
  obtain ⟨_, isPopped⟩ := popped_rooted_eq_cons nonempty notRoot
  rw [← suffix_rooted_iff, ← getLast?_popped_eq_slash_iff, formatPath_of_ne_nil nonempty, isPopped,
    collapsed, getLast?_eraseDoubleSlashes]

theorem namesEntry_iff (path : List Char) :
    NamesEntry path ↔ (separateLastComponent (formatPath path)).2 ≠ [] := by
  by_cases empty : path = []
  · subst empty
    decide
  by_cases root : path = ['/']
  · subst root
    decide
  obtain ⟨_, formatted⟩ := formatPath_eq_cons empty root
  have slash : '/' ∈ formatPath path := by
    rw [formatted]
    exact mem_cons_self
  rw [NamesEntry, ne_eq (Prod.snd _), separateLastComponent_snd_eq_nil_iff slash,
    getLast?_formatPath_eq_slash_iff empty root]
  exact ⟨fun names => names.2.2, fun last => ⟨empty, root, last⟩⟩

theorem eraseDoubleSlashes_idem (previous : Char) (rest : List Char) :
    eraseDoubleSlashes previous (eraseDoubleSlashes previous rest) =
      eraseDoubleSlashes previous rest := by
  induction rest generalizing previous with
  | nil => rfl
  | cons char rest ih =>
    by_cases double : char = '/' ∧ previous = '/'
    · rw [eraseDoubleSlashes, if_pos double, ih]
    · rw [eraseDoubleSlashes, if_neg double, eraseDoubleSlashes, if_neg double, ih]

theorem length_eraseDoubleSlashes_le (previous : Char) (rest : List Char) :
    (eraseDoubleSlashes previous rest).length ≤ rest.length := by
  induction rest generalizing previous with
  | nil => exact le_rfl
  | cons char rest ih =>
    rw [eraseDoubleSlashes]
    split_ifs
    · exact Nat.le_succ_of_le (ih previous)
    · exact Nat.succ_le_succ (ih char)

theorem length_collapsed_le (path : List Char) : (collapsed path).length ≤ path.length := by
  cases path with
  | nil => exact le_rfl
  | cons first rest => exact Nat.succ_le_succ (length_eraseDoubleSlashes_le first rest)

theorem length_formatPath_lt {rest : List Char} (trailing : ('/' :: rest).getLast? = some '/') :
    (formatPath ('/' :: rest)).length < ('/' :: rest).length := by
  have isRooted : rooted ('/' :: rest) = '/' :: rest := if_neg (by simp)
  have isPopped : popped ('/' :: rest) = ('/' :: rest).dropLast := if_pos trailing
  rw [formatPath_of_ne_nil (cons_ne_nil _ _), isRooted, isPopped]
  apply lt_of_le_of_lt (length_collapsed_le _)
  rw [length_dropLast, length_cons]
  exact Nat.lt_succ_self _

theorem formatPath_of_getLast?_ne {rest : List Char}
    (noTrailing : ('/' :: eraseDoubleSlashes '/' rest).getLast? ≠ some '/') :
    formatPath ('/' :: eraseDoubleSlashes '/' rest) = '/' :: eraseDoubleSlashes '/' rest := by
  have isRooted : rooted ('/' :: eraseDoubleSlashes '/' rest) = '/' :: eraseDoubleSlashes '/' rest :=
    if_neg (by simp)
  have isPopped : popped ('/' :: eraseDoubleSlashes '/' rest) = '/' :: eraseDoubleSlashes '/' rest :=
    if_neg noTrailing
  rw [formatPath_of_ne_nil (cons_ne_nil _ _), isRooted, isPopped, collapsed,
    eraseDoubleSlashes_idem]

theorem formatPath_idem_iff (path : List Char) :
    formatPath (formatPath path) = formatPath path ↔ ¬ ['/', '/'] <:+ path := by
  by_cases empty : path = []
  · subst empty
    decide
  by_cases root : path = ['/']
  · subst root
    decide
  rw [← getLast?_formatPath_eq_slash_iff empty root]
  obtain ⟨_, formatted⟩ := formatPath_eq_cons empty root
  rw [formatted]
  constructor
  · intro same trailing
    have shorter := length_formatPath_lt trailing
    rw [same] at shorter
    exact lt_irrefl _ shorter
  · exact formatPath_of_getLast?_ne

/-- `SeparateLastComponent` splits off the last of the components that
`SplitPath` finds, and formatting a formatted path changes nothing. -/
def SplitsConsistently (path : List Char) : Prop :=
  (splitPath path ≠ [] →
    (splitPath path).getLast? = some (separateLastComponent (formatPath path)).2 ∧
      splitPath (separateLastComponent (formatPath path)).1 = (splitPath path).dropLast) ∧
  formatPath (formatPath path) = formatPath path

theorem splitPath_of_namesEntry (names : NamesEntry path) :
    splitPath path = splitPath (separateLastComponent (formatPath path)).1 ++
      [(separateLastComponent (formatPath path)).2] := by
  rw [← splitPath_formatPath path, splitPath_separateLastComponent (formatPath path),
    if_neg ((namesEntry_iff path).mp names)]

/-- The string functions agree on the paths that do not end in two slashes. -/
theorem splitsConsistently_iff (path : List Char) :
    SplitsConsistently path ↔ ¬ ['/', '/'] <:+ path := by
  rw [SplitsConsistently, formatPath_idem_iff]
  refine ⟨And.right, fun noDouble => ⟨fun components => ?_, noDouble⟩⟩
  have names : NamesEntry path := by
    refine ⟨?_, ?_, noDouble⟩
    · rintro rfl
      exact components rfl
    · rintro rfl
      exact components rfl
  rw [splitPath_of_namesEntry names]
  exact ⟨getLast?_concat, dropLast_concat.symm⟩

/-- `FormatPath("a//")` is `"/a/"`, of which `SeparateLastComponent` makes the
directory `"/a"` and an empty name. -/
theorem not_splitsConsistently_trailingSlashes : ¬ SplitsConsistently "a//".toList := by
  rintro ⟨separated, -⟩
  exact absurd (separated (by decide)).1 (by decide)

end FuseeFs.Engine
