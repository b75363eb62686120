import Mathlib

/-!
# Trees kept as nodes and named edges

A tree whose nodes and edges are two partial maps, as a file system or an
object store keeps it: an edge leads from a node and a name to another node.
`Ok` says that the two maps form one tree under a root and that every branch
but the root records its number of children.  Hanging a new leaf into such a
tree and cutting a leaf off keep it well formed.
-/

namespace FuseeFs.Library

open List Option

universe u v w

structure LinkedTree (Id : Type u) (Name : Type v) (Info : Type w) where
  node : Id → Option Info
  edge : Id → Name → Option Id

structure TreeShape (Id : Type u) (Info : Type w) where
  root : Id
  isBranch : Info → Prop
  degree : Info → ℕ

namespace LinkedTree

variable {Id : Type u} {Name : Type v} {Info : Type w}
variable {tree : LinkedTree Id Name Info} {shape : TreeShape Id Info}
variable {parent child id : Id} {name : Name} {info parentInfo newParentInfo : Info}

def names (tree : LinkedTree Id Name Info) (id : Id) : Set Name :=
  {name | tree.edge id name ≠ none}

def IsLeaf (tree : LinkedTree Id Name Info) (id : Id) : Prop :=
  ∀ name, tree.edge id name = none

inductive Descends (tree : LinkedTree Id Name Info) (root : Id) : Id → Prop
  | root : Descends tree root root
  | child {parent child : Id} {name : Name} (above : Descends tree root parent)
      (linked : tree.edge parent name = some child) : Descends tree root child

structure Ok (tree : LinkedTree Id Name Info) (shape : TreeShape Id Info) : Prop where
  root_branch : ∃ info, tree.node shape.root = some info ∧ shape.isBranch info
  target_exists : ∀ parent name child, tree.edge parent name = some child →
    ∃ info, tree.node child = some info
  source_branch : ∀ parent name child, tree.edge parent name = some child →
    ∃ info, tree.node parent = some info ∧ shape.isBranch info
  target_ne_root : ∀ parent name, tree.edge parent name ≠ some shape.root
  edge_unique : ∀ parent name other otherName child, tree.edge parent name = some child →
    tree.edge other otherName = some child → parent = other ∧ name = otherName
  descends : ∀ id info, tree.node id = some info → tree.Descends shape.root id
  degree_eq : ∀ id info, id ≠ shape.root → tree.node id = some info → shape.isBranch info →
    shape.degree info = (tree.names id).ncard

theorem Ok.existsUnique_edge (ok : tree.Ok shape) (found : tree.node id = some info)
    (notRoot : id ≠ shape.root) : ∃! link : Id × Name, tree.edge link.1 link.2 = some id := by
  cases ok.descends id info found with
  | root => exact absurd rfl notRoot
  | @child parent _ name above linked =>
    refine ⟨(parent, name), linked, fun other otherLinked => ?_⟩
    obtain ⟨sameParent, sameName⟩ := ok.edge_unique _ _ _ _ _ otherLinked linked
    exact Prod.ext sameParent sameName

theorem Ok.edge_ne_self (ok : tree.Ok shape) : tree.edge id name ≠ some id := by
  intro linked
  obtain ⟨info, found⟩ := ok.target_exists _ _ _ linked
  induction ok.descends id info found with
  | root => exact ok.target_ne_root _ _ linked
  | child above otherLinked ih =>
    obtain ⟨rfl, -⟩ := ok.edge_unique _ _ _ _ _ linked otherLinked
    exact ih linked found

theorem Ok.isLeaf_of_node (ok : tree.Ok shape)
    (barren : ∀ info, tree.node id = some info → ¬ shape.isBranch info) : tree.IsLeaf id := by
  intro name
  cases linked : tree.edge id name with
  | none => rfl
  | some child =>
    obtain ⟨info, found, branch⟩ := ok.source_branch _ _ _ linked
    exact absurd branch (barren info found)

theorem Ok.injOn_names (ok : tree.Ok shape) (id : Id) :
    Set.InjOn (tree.edge id) (tree.names id) := by
  intro name mem other _ same
  obtain ⟨_, linked⟩ := ne_none_iff_exists'.mp mem
  exact (ok.edge_unique _ _ _ _ _ linked (same ▸ linked)).2

section Finite

variable [Finite Id]

theorem Ok.finite_names (ok : tree.Ok shape) (id : Id) : (tree.names id).Finite :=
  Set.Finite.of_finite_image (Set.toFinite _) (ok.injOn_names id)

/-- While some identifier is free, no node has so many children that all other
identifiers are taken. -/
theorem Ok.ncard_names_add_one_lt (ok : tree.Ok shape) (id : Id) (free : tree.node child = none) :
    (tree.names id).ncard + 1 < Nat.card Id := by
  obtain ⟨info, rootFound, -⟩ := ok.root_branch
  have distinct : shape.root ≠ child := by
    rintro rfl
    simp [rootFound] at free
  have targets : tree.edge id '' tree.names id ⊆ some '' ({shape.root, child} : Set Id)ᶜ := by
    rintro _ ⟨_, mem, rfl⟩
    obtain ⟨other, linked⟩ := ne_none_iff_exists'.mp mem
    refine ⟨other, ?_, linked.symm⟩
    rintro (rfl | rfl)
    · exact ok.target_ne_root _ _ linked
    · obtain ⟨_, found⟩ := ok.target_exists _ _ _ linked
      simp [free] at found
  have bound : (tree.names id).ncard ≤ (({shape.root, child} : Set Id)ᶜ).ncard := by
    rw [← (ok.injOn_names id).ncard_image,
      ← Set.ncard_image_of_injective ({shape.root, child} : Set Id)ᶜ (some_injective Id)]
    exact Set.ncard_le_ncard targets (Set.toFinite _)
  have complement := Set.ncard_add_ncard_compl ({shape.root, child} : Set Id)
  rw [Set.ncard_pair distinct] at complement
  omega

theorem Ok.isLeaf_of_degree (ok : tree.Ok shape) (notRoot : id ≠ shape.root)
    (found : tree.node id = some info) (branch : shape.isBranch info)
    (zero : shape.degree info = 0) : tree.IsLeaf id := by
  have empty : tree.names id = ∅ := by
    rw [← Set.ncard_eq_zero (ok.finite_names id), ← ok.degree_eq id info notRoot found branch]
    exact zero
  intro name
  by_contra linked
  exact Set.notMem_empty name (empty ▸ linked)

theorem Ok.degree_pos (ok : tree.Ok shape) (notRoot : id ≠ shape.root)
    (found : tree.node id = some info) (linked : tree.edge id name = some child) :
    0 < shape.degree info := by
  obtain ⟨other, sameFound, branch⟩ := ok.source_branch _ _ _ linked
  obtain rfl : info = other := some.inj (found.symm.trans sameFound)
  rw [ok.degree_eq id info notRoot found branch, Set.ncard_pos (ok.finite_names id)]
  exact ⟨name, by simp [names, linked]⟩

end Finite

/-! ## Walks -/

def walk (tree : LinkedTree Id Name Info) : Id → List Name → Option Id
  | id, [] => some id
  | id, name :: rest => (tree.edge id name).bind fun next => tree.walk next rest

theorem walk_cons {names : List Name} :
    tree.walk id (name :: names) = some child ↔
      ∃ next, tree.edge id name = some next ∧ tree.walk next names = some child := by
  rw [walk, bind_eq_some_iff]

variable {front : List Name}

theorem walk_append {back : List Name} :
    tree.walk id (front ++ back) = some child ↔
      ∃ next, tree.walk id front = some next ∧ tree.walk next back = some child := by
  induction front generalizing id with
  | nil => simp [walk]
  | cons name front ih =>
    rw [cons_append, walk_cons]
    constructor
    · rintro ⟨next, linked, further⟩
      obtain ⟨last, led, rest⟩ := ih.mp further
      exact ⟨last, walk_cons.mpr ⟨next, linked, led⟩, rest⟩
    · rintro ⟨last, led, rest⟩
      obtain ⟨next, linked, further⟩ := walk_cons.mp led
      exact ⟨next, linked, ih.mpr ⟨last, further, rest⟩⟩

theorem walk_concat :
    tree.walk id (front ++ [name]) = some child ↔
      ∃ parent, tree.walk id front = some parent ∧ tree.edge parent name = some child := by
  rw [walk_append]
  simp [walk]

theorem walk_concat_eq :
    tree.walk id (front ++ [name]) = (tree.walk id front).bind fun next => tree.edge next name := by
  ext child
  rw [bind_eq_some_iff]
  exact walk_concat

theorem Ok.node_of_walk (ok : tree.Ok shape) {names : List Name}
    (led : tree.walk shape.root names = some id) : ∃ info, tree.node id = some info := by
  rcases eq_nil_or_concat' names with rfl | ⟨front, name, rfl⟩
  · obtain ⟨info, found, -⟩ := ok.root_branch
    exact ⟨info, some.inj led ▸ found⟩
  · obtain ⟨_, -, linked⟩ := walk_concat.mp led
    exact ok.target_exists _ _ _ linked

theorem Ok.walk_unique (ok : tree.Ok shape) {first second : List Name}
    (led : tree.walk shape.root first = some id) (otherLed : tree.walk shape.root second = some id) :
    first = second := by
  -- the last edges agree, because a node has one edge to it and the root has none
  induction first using List.reverseRecOn generalizing id second with
  | nil =>
    rcases eq_nil_or_concat' second with rfl | ⟨front, name, rfl⟩
    · rfl
    · obtain ⟨parent, -, linked⟩ := walk_concat.mp otherLed
      obtain rfl := some.inj led
      exact absurd linked (ok.target_ne_root _ _)
  | append_singleton front name ih =>
    obtain ⟨_, above, linked⟩ := walk_concat.mp led
    rcases eq_nil_or_concat' second with rfl | ⟨otherFront, otherName, rfl⟩
    · obtain rfl := some.inj otherLed
      exact absurd linked (ok.target_ne_root _ _)
    · obtain ⟨_, otherAbove, otherLinked⟩ := walk_concat.mp otherLed
      obtain ⟨rfl, rfl⟩ := ok.edge_unique _ _ _ _ _ linked otherLinked
      rw [ih above otherAbove]

/-! ## When a leaf can be hung in and cut off -/

/-- What a new leaf needs: a branch with the name and an identifier that are
both free. -/
structure CanAttach (tree : LinkedTree Id Name Info) (shape : TreeShape Id Info) (parent : Id)
    (name : Name) (child : Id) (info newParentInfo : Info) : Prop where
  parent_branch : ∃ parentInfo, tree.node parent = some parentInfo ∧ shape.isBranch parentInfo ∧
    (parent ≠ shape.root → shape.degree newParentInfo = shape.degree parentInfo + 1)
  newParent_branch : shape.isBranch newParentInfo
  name_free : tree.edge parent name = none
  child_free : tree.node child = none
  child_degree : shape.isBranch info → shape.degree info = 0

theorem CanAttach.child_ne_parent
    (can : tree.CanAttach shape parent name child info newParentInfo) : child ≠ parent := by
  rintro rfl
  obtain ⟨_, found, -⟩ := can.parent_branch
  simp [can.child_free] at found

/-- What cutting off `child` needs: an edge to it, and no children of its own. -/
structure CanDetach (tree : LinkedTree Id Name Info) (shape : TreeShape Id Info) (parent : Id)
    (name : Name) (child : Id) (newParentInfo : Info) : Prop where
  parent_branch : ∃ parentInfo, tree.node parent = some parentInfo ∧ shape.isBranch parentInfo ∧
    (parent ≠ shape.root → shape.degree newParentInfo + 1 = shape.degree parentInfo)
  newParent_branch : shape.isBranch newParentInfo
  linked : tree.edge parent name = some child
  child_leaf : tree.IsLeaf child

theorem CanDetach.child_ne_parent
    (can : tree.CanDetach shape parent name child newParentInfo) : child ≠ parent := by
  rintro rfl
  simpa [can.child_leaf name] using can.linked

/-! ## One edge and the two nodes at its ends -/

variable [DecidableEq Id] [DecidableEq Name]

/-- The edge of `parent` with one name becomes `target`, the node `child`
becomes `info`, and `parent` gets new information. -/
def relink (tree : LinkedTree Id Name Info) (parent : Id) (name : Name) (target : Option Id)
    (child : Id) (info : Option Info) (parentInfo : Info) : LinkedTree Id Name Info where
  node := Function.update (Function.update tree.node child info) parent (some parentInfo)
  edge other otherName :=
    if other = parent ∧ otherName = name then target else tree.edge other otherName

section Relink

variable {target : Option Id} {childInfo : Option Info}

theorem relink_node_of_ne (other : Id) (notParent : other ≠ parent) (notChild : other ≠ child) :
    (tree.relink parent name target child childInfo newParentInfo).node other =
      tree.node other := by
  simp [relink, notParent, notChild]

theorem relink_node_parent :
    (tree.relink parent name target child childInfo newParentInfo).node parent =
      some newParentInfo := by
  simp [relink]

theorem relink_node_child (distinct : child ≠ parent) :
    (tree.relink parent name target child childInfo newParentInfo).node child = childInfo := by
  simp [relink, distinct]

variable {other : Id}

theorem relink_node_gone {otherInfo : Info} (found : tree.node other = some otherInfo)
    (gone : (tree.relink parent name target child childInfo newParentInfo).node other = none) :
    other = child ∧ childInfo = none := by
  have notParent : other ≠ parent := by
    rintro rfl
    simp [relink_node_parent] at gone
  by_cases isChild : other = child
  · subst isChild
    rw [relink_node_child notParent] at gone
    exact ⟨rfl, gone⟩
  · rw [relink_node_of_ne other notParent isChild, found] at gone
    cases gone

theorem relink_edge_of_ne {otherName : Name} (ne : ¬ (other = parent ∧ otherName = name)) :
    (tree.relink parent name target child childInfo newParentInfo).edge other otherName =
      tree.edge other otherName := by
  simp only [relink, ne, if_false]

theorem relink_edge_self :
    (tree.relink parent name target child childInfo newParentInfo).edge parent name = target := by
  simp [relink]

theorem relink_names_of_ne (notParent : other ≠ parent) :
    (tree.relink parent name target child childInfo newParentInfo).names other =
      tree.names other := by
  ext otherName
  simp [names, relink, notParent]

/-- Hanging a leaf in or cutting it off changes where its own path leads, and no
other path. -/
theorem Ok.walk_relink (ok : tree.Ok shape) (led : tree.walk shape.root front = some parent)
    (leaf : tree.IsLeaf child) (distinct : child ≠ parent)
    (linked : ∀ other ∈ tree.edge parent name, other = child)
    (relinked : ∀ other ∈ target, other = child) (names : List Name) :
    (tree.relink parent name target child childInfo newParentInfo).walk shape.root names =
      if names = front ++ [name] then target else tree.walk shape.root names := by
  induction names using List.reverseRecOn with
  | nil => simp [walk]
  | append_singleton above last ih =>
    rw [walk_concat_eq, ih, walk_concat_eq]
    by_cases below : above = front ++ [name]
    · -- nothing is below the leaf
      have noEdge : ∀ other, other = child → tree.edge other last = none := by
        rintro other rfl
        exact leaf last
      subst below
      rw [if_pos rfl, if_neg (by simp), walk_concat_eq, led]
      rw [bind_eq_none_iff.mpr, bind_eq_none_iff.mpr]
      · exact fun other found => noEdge other (linked other found)
      · intro other found
        obtain rfl := relinked other found
        rw [relink_edge_of_ne (by simp [distinct])]
        exact leaf last
    · rw [if_neg below]
      cases reached : tree.walk shape.root above with
      | none =>
        rw [if_neg]
        · rfl
        · intro same
          rw [(append_inj_left' same rfl), led] at reached
          cases reached
      | some next =>
        simp only [bind_some, relink]
        congr 1
        rw [eq_iff_iff]
        constructor
        · rintro ⟨rfl, rfl⟩
          rw [ok.walk_unique reached led]
        · intro same
          obtain ⟨rfl, sameName⟩ := append_inj' same rfl
          exact ⟨some.inj (reached.symm.trans led), singleton_inj.mp sameName⟩

end Relink

section Attach

def attach (tree : LinkedTree Id Name Info) (parent : Id) (name : Name) (child : Id)
    (info parentInfo : Info) : LinkedTree Id Name Info :=
  tree.relink parent name (some child) child (some info) parentInfo

variable {other : Id}

theorem edge_attach_cases {target : Id} {otherName : Name}
    (linked : (tree.attach parent name child info newParentInfo).edge other otherName = some target)
    :
    (other = parent ∧ otherName = name ∧ target = child) ∨
      tree.edge other otherName = some target := by
  by_cases same : other = parent ∧ otherName = name
  · obtain ⟨rfl, rfl⟩ := same
    rw [attach, relink_edge_self] at linked
    exact Or.inl ⟨rfl, rfl, (some.inj linked).symm⟩
  · rw [attach, relink_edge_of_ne same] at linked
    exact Or.inr linked

section CanAttach

variable (can : tree.CanAttach shape parent name child info newParentInfo)
include can

theorem CanAttach.edge_kept {target : Id} {otherName : Name}
    (linked : tree.edge other otherName = some target) :
    (tree.attach parent name child info newParentInfo).edge other otherName = some target := by
  rw [attach, relink_edge_of_ne]
  · exact linked
  · rintro ⟨rfl, rfl⟩
    simp [can.name_free] at linked

theorem CanAttach.node_kept {otherInfo : Info} (found : tree.node other = some otherInfo) :
    ∃ after, (tree.attach parent name child info newParentInfo).node other = some after ∧
      (shape.isBranch otherInfo → shape.isBranch after) := by
  by_cases isParent : other = parent
  · subst isParent
    exact ⟨newParentInfo, relink_node_parent, fun _ => can.newParent_branch⟩
  · have notChild : other ≠ child := by
      rintro rfl
      simp [can.child_free] at found
    refine ⟨otherInfo, ?_, id⟩
    rw [attach, relink_node_of_ne other isParent notChild, found]

theorem CanAttach.descends_kept (reached : tree.Descends shape.root id) :
    (tree.attach parent name child info newParentInfo).Descends shape.root id := by
  induction reached with
  | root => exact .root
  | child _ linked ih => exact .child ih (can.edge_kept linked)

theorem CanAttach.names_parent [Finite Id] (ok : tree.Ok shape) :
    ((tree.attach parent name child info newParentInfo).names parent).ncard =
      (tree.names parent).ncard + 1 := by
  have grown : (tree.attach parent name child info newParentInfo).names parent =
      insert name (tree.names parent) := by
    ext otherName
    by_cases same : otherName = name
    · subst same
      simp [names, attach, relink_edge_self]
    · simp [names, attach, relink_edge_of_ne fun both => same both.2, same]
  rw [grown, Set.ncard_insert_of_notMem _ (ok.finite_names parent)]
  simp [names, can.name_free]

end CanAttach

theorem Ok.attach [Finite Id] (ok : tree.Ok shape)
    (can : tree.CanAttach shape parent name child info newParentInfo) :
    (tree.attach parent name child info newParentInfo).Ok shape := by
  have distinct := can.child_ne_parent
  obtain ⟨_, parentFound, parentBranch, counted⟩ := can.parent_branch
  constructor
  case root_branch =>
    obtain ⟨rootInfo, found, branch⟩ := ok.root_branch
    obtain ⟨after, foundAfter, branchAfter⟩ := can.node_kept found
    exact ⟨after, foundAfter, branchAfter branch⟩
  case target_exists =>
    intro other otherName target linked
    rcases edge_attach_cases linked with ⟨-, -, rfl⟩ | old
    · exact ⟨info, relink_node_child distinct⟩
    · obtain ⟨_, found⟩ := ok.target_exists _ _ _ old
      obtain ⟨after, foundAfter, -⟩ := can.node_kept found
      exact ⟨after, foundAfter⟩
  case source_branch =>
    intro other otherName target linked
    rcases edge_attach_cases linked with ⟨rfl, -, -⟩ | old
    · exact ⟨newParentInfo, relink_node_parent, can.newParent_branch⟩
    · obtain ⟨_, found, branch⟩ := ok.source_branch _ _ _ old
      obtain ⟨after, foundAfter, branchAfter⟩ := can.node_kept found
      exact ⟨after, foundAfter, branchAfter branch⟩
  case target_ne_root =>
    intro other otherName linked
    rcases edge_attach_cases linked with ⟨-, -, isRoot⟩ | old
    · obtain ⟨_, found, -⟩ := ok.root_branch
      simp [isRoot, can.child_free] at found
    · exact ok.target_ne_root _ _ old
  case edge_unique =>
    intro first firstName second secondName target linked otherLinked
    -- The new child was no node before, so no old edge leads to it.
    have noOldEdge : ∀ other otherName, tree.edge other otherName ≠ some child := by
      intro other otherName old
      obtain ⟨_, found⟩ := ok.target_exists _ _ _ old
      simp [can.child_free] at found
    rcases edge_attach_cases linked with ⟨rfl, rfl, rfl⟩ | old <;>
      rcases edge_attach_cases otherLinked with ⟨rfl, rfl, isChild⟩ | otherOld
    · exact ⟨rfl, rfl⟩
    · exact absurd otherOld (noOldEdge _ _)
    · exact absurd (isChild ▸ old) (noOldEdge _ _)
    · exact ok.edge_unique _ _ _ _ _ old otherOld
  case descends =>
    intro other otherInfo found
    by_cases isChild : other = child
    · subst isChild
      exact .child (can.descends_kept (ok.descends _ _ parentFound)) relink_edge_self
    · refine can.descends_kept ?_
      by_cases isParent : other = parent
      · exact isParent ▸ ok.descends _ _ parentFound
      · rw [LinkedTree.attach, relink_node_of_ne other isParent isChild] at found
        exact ok.descends _ _ found
  case degree_eq =>
    intro other otherInfo notRoot found branch
    by_cases isParent : other = parent
    · subst isParent
      rw [LinkedTree.attach, relink_node_parent] at found
      obtain rfl := some.inj found
      rw [can.names_parent ok, counted notRoot, ok.degree_eq _ _ notRoot parentFound parentBranch]
    · rw [LinkedTree.attach, relink_names_of_ne isParent]
      by_cases isChild : other = child
      · subst isChild
        rw [LinkedTree.attach, relink_node_child distinct] at found
        obtain rfl := some.inj found
        have leaf : tree.IsLeaf other := ok.isLeaf_of_node (by simp [can.child_free])
        rw [can.child_degree branch]
        simp [names, leaf _]
      · rw [LinkedTree.attach, relink_node_of_ne other isParent isChild] at found
        exact ok.degree_eq _ _ notRoot found branch

end Attach

section Detach

def detach (tree : LinkedTree Id Name Info) (parent : Id) (name : Name) (child : Id)
    (parentInfo : Info) : LinkedTree Id Name Info :=
  tree.relink parent name none child none parentInfo

variable {other : Id}

theorem edge_of_detach {target : Id} {otherName : Name}
    (linked : (tree.detach parent name child newParentInfo).edge other otherName = some target) :
    ¬ (other = parent ∧ otherName = name) ∧ tree.edge other otherName = some target := by
  by_cases same : other = parent ∧ otherName = name
  · obtain ⟨rfl, rfl⟩ := same
    simp [detach, relink_edge_self] at linked
  · rw [detach, relink_edge_of_ne same] at linked
    exact ⟨same, linked⟩

section CanDetach

variable (can : tree.CanDetach shape parent name child newParentInfo)
include can

theorem CanDetach.edge_kept {target : Id} {otherName : Name}
    (linked : tree.edge other otherName = some target) (notChild : target ≠ child) :
    (tree.detach parent name child newParentInfo).edge other otherName = some target := by
  rw [detach, relink_edge_of_ne]
  · exact linked
  · rintro ⟨rfl, rfl⟩
    exact notChild (some.inj (linked.symm.trans can.linked))

theorem CanDetach.node_kept {otherInfo : Info} (found : tree.node other = some otherInfo)
    (notChild : other ≠ child) :
    ∃ after, (tree.detach parent name child newParentInfo).node other = some after ∧
      (shape.isBranch otherInfo → shape.isBranch after) := by
  by_cases isParent : other = parent
  · subst isParent
    exact ⟨newParentInfo, relink_node_parent, fun _ => can.newParent_branch⟩
  · refine ⟨otherInfo, ?_, id⟩
    rw [detach, relink_node_of_ne other isParent notChild, found]

theorem CanDetach.descends_kept (reached : tree.Descends shape.root id) (notChild : id ≠ child) :
    (tree.detach parent name child newParentInfo).Descends shape.root id := by
  induction reached with
  | root => exact .root
  | @child above below otherName _ linked ih =>
    -- The way to another node does not lead through the child, which is a leaf.
    have aboveNotChild : above ≠ child := by
      rintro rfl
      simp [can.child_leaf otherName] at linked
    exact .child (ih aboveNotChild) (can.edge_kept linked notChild)

theorem CanDetach.names_parent [Finite Id] (ok : tree.Ok shape) :
    ((tree.detach parent name child newParentInfo).names parent).ncard + 1 =
      (tree.names parent).ncard := by
  have shrunk : (tree.detach parent name child newParentInfo).names parent =
      tree.names parent \ {name} := by
    ext otherName
    by_cases same : otherName = name
    · subst same
      simp [names, detach, relink_edge_self]
    · simp [names, detach, relink_edge_of_ne fun both => same both.2, same]
  have member : name ∈ tree.names parent := by simp [names, can.linked]
  rw [shrunk, Set.ncard_sdiff_singleton_add_one member (ok.finite_names parent)]

end CanDetach

theorem Ok.detach [Finite Id] (ok : tree.Ok shape)
    (can : tree.CanDetach shape parent name child newParentInfo) :
    (tree.detach parent name child newParentInfo).Ok shape := by
  obtain ⟨_, parentFound, parentBranch, counted⟩ := can.parent_branch
  have distinct := can.child_ne_parent
  have childNotRoot : shape.root ≠ child := by
    rintro rfl
    exact ok.target_ne_root _ _ can.linked
  -- No other edge leads to the child.
  have notChild : ∀ other otherName target, ¬ (other = parent ∧ otherName = name) →
      tree.edge other otherName = some target → target ≠ child := by
    rintro other otherName target ne old rfl
    exact ne (ok.edge_unique _ _ _ _ _ old can.linked)
  constructor
  case root_branch =>
    obtain ⟨_, found, branch⟩ := ok.root_branch
    obtain ⟨after, foundAfter, branchAfter⟩ := can.node_kept found childNotRoot
    exact ⟨after, foundAfter, branchAfter branch⟩
  case target_exists =>
    intro other otherName target linked
    obtain ⟨ne, old⟩ := edge_of_detach linked
    obtain ⟨_, found⟩ := ok.target_exists _ _ _ old
    obtain ⟨after, foundAfter, -⟩ := can.node_kept found (notChild _ _ _ ne old)
    exact ⟨after, foundAfter⟩
  case source_branch =>
    intro other otherName target linked
    obtain ⟨-, old⟩ := edge_of_detach linked
    have sourceNotChild : other ≠ child := by
      rintro rfl
      simp [can.child_leaf otherName] at old
    obtain ⟨_, found, branch⟩ := ok.source_branch _ _ _ old
    obtain ⟨after, foundAfter, branchAfter⟩ := can.node_kept found sourceNotChild
    exact ⟨after, foundAfter, branchAfter branch⟩
  case target_ne_root =>
    intro other otherName linked
    exact ok.target_ne_root _ _ (edge_of_detach linked).2
  case edge_unique =>
    intro first firstName second secondName target linked otherLinked
    exact ok.edge_unique _ _ _ _ _ (edge_of_detach linked).2 (edge_of_detach otherLinked).2
  case descends =>
    intro other otherInfo found
    have otherNotChild : other ≠ child := by
      rintro rfl
      simp [LinkedTree.detach, relink_node_child distinct] at found
    refine can.descends_kept ?_ otherNotChild
    by_cases isParent : other = parent
    · exact isParent ▸ ok.descends _ _ parentFound
    · rw [LinkedTree.detach, relink_node_of_ne other isParent otherNotChild] at found
      exact ok.descends _ _ found
  case degree_eq =>
    intro other otherInfo notRoot found branch
    by_cases isParent : other = parent
    · subst isParent
      rw [LinkedTree.detach, relink_node_parent] at found
      obtain rfl := some.inj found
      have before := ok.degree_eq _ _ notRoot parentFound parentBranch
      have names := can.names_parent ok
      have recorded := counted notRoot
      omega
    · rw [LinkedTree.detach, relink_names_of_ne isParent]
      have otherNotChild : other ≠ child := by
        rintro rfl
        simp [LinkedTree.detach, relink_node_child distinct] at found
      rw [LinkedTree.detach, relink_node_of_ne other isParent otherNotChild] at found
      exact ok.degree_eq _ _ notRoot found branch

end Detach

end LinkedTree

end FuseeFs.Library
