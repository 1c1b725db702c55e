import Mathlib.Data.List.Nodup
import Mathlib.Data.List.Pairwise

/-!
# Trees with labelled children

A tree has a kind and children, each in a field.  A position names a tree
inside another one by the indices of the children on the way, and `lookup`
returns this tree and the kinds and fields that are passed.

A traversal computes a result for every child and combines those of the
fields it visits.  `inOrder` appends the results field by field, and
`firstInOrder` stops at the first one.
-/

namespace LabelledTree

mutual

inductive Tree (Kind Field : Type) where
  | node (kind : Kind) (children : Forest Kind Field)

/-- A list of trees, each with the field that holds it. -/
inductive Forest (Kind Field : Type) where
  | nil
  | cons (field : Field) (tree : Tree Kind Field) (rest : Forest Kind Field)

end

variable {Kind Field Result : Type}

/-! ## Structural equality -/

mutual

def Tree.equal [DecidableEq Kind] [DecidableEq Field] :
    Tree Kind Field → Tree Kind Field → Bool
  | .node leftKind leftChildren, .node rightKind rightChildren =>
    leftKind = rightKind && leftChildren.equal rightChildren

def Forest.equal [DecidableEq Kind] [DecidableEq Field] :
    Forest Kind Field → Forest Kind Field → Bool
  | .nil, .nil => true
  | .cons leftField leftTree leftRest, .cons rightField rightTree rightRest =>
    leftField = rightField && leftTree.equal rightTree && leftRest.equal rightRest
  | _, _ => false

end

mutual

theorem Tree.equal_iff [DecidableEq Kind] [DecidableEq Field] :
    ∀ left right : Tree Kind Field, left.equal right = true ↔ left = right
  | .node _ leftChildren, .node _ rightChildren => by
    simp [Tree.equal, Forest.equal_iff leftChildren rightChildren]

theorem Forest.equal_iff [DecidableEq Kind] [DecidableEq Field] :
    ∀ left right : Forest Kind Field, left.equal right = true ↔ left = right
  | .nil, right => by
    cases right <;> simp [Forest.equal]
  | .cons _ leftTree leftRest, right => by
    cases right with
    | nil => simp [Forest.equal]
    | cons _ rightTree rightRest =>
      simp [Forest.equal, Tree.equal_iff leftTree rightTree,
        Forest.equal_iff leftRest rightRest, and_assoc]

end

instance [DecidableEq Kind] [DecidableEq Field] : DecidableEq (Tree Kind Field) :=
  fun left right => decidable_of_iff _ (Tree.equal_iff left right)

instance [DecidableEq Kind] [DecidableEq Field] : DecidableEq (Forest Kind Field) :=
  fun left right => decidable_of_iff _ (Forest.equal_iff left right)

/-! ## Children -/

def Forest.entries : Forest Kind Field → List (Field × Tree Kind Field)
  | .nil => []
  | .cons field tree rest => (field, tree) :: rest.entries

def Tree.kind : Tree Kind Field → Kind
  | .node kind _ => kind

def Tree.children : Tree Kind Field → Forest Kind Field
  | .node _ children => children

def Tree.entries (tree : Tree Kind Field) : List (Field × Tree Kind Field) :=
  tree.children.entries

mutual

theorem Tree.childInduction {motive : Tree Kind Field → Prop}
    (step : ∀ tree, (∀ entry ∈ tree.entries, motive entry.2) → motive tree) :
    ∀ tree, motive tree
  | .node kind children =>
    step (.node kind children) (Forest.childInduction step children)

theorem Forest.childInduction {motive : Tree Kind Field → Prop}
    (step : ∀ tree, (∀ entry ∈ tree.entries, motive entry.2) → motive tree) :
    ∀ forest : Forest Kind Field, ∀ entry ∈ forest.entries, motive entry.2
  | .nil => by simp [Forest.entries]
  | .cons field tree rest => by
    intro entry member
    rcases List.mem_cons.1 member with rfl | member
    · exact Tree.childInduction step tree
    · exact Forest.childInduction step rest entry member

end

mutual

/-- A condition on the kind of a node, a field and the child in it holds everywhere. -/
def Tree.check (accepts : Kind → Field → Tree Kind Field → Bool) :
    Tree Kind Field → Bool
  | .node kind children => children.check accepts kind

def Forest.check (accepts : Kind → Field → Tree Kind Field → Bool)
    (kind : Kind) : Forest Kind Field → Bool
  | .nil => true
  | .cons field tree rest =>
    accepts kind field tree && tree.check accepts && rest.check accepts kind

end

theorem Forest.check_iff (accepts : Kind → Field → Tree Kind Field → Bool) (kind : Kind) :
    ∀ forest : Forest Kind Field, forest.check accepts kind = true ↔
      ∀ entry ∈ forest.entries, accepts kind entry.1 entry.2 = true ∧ entry.2.check accepts = true
  | .nil => by simp [Forest.check, Forest.entries]
  | .cons field tree rest => by
    simp [Forest.check, Forest.entries, Forest.check_iff accepts kind rest]

theorem Tree.check_of_entry {accepts : Kind → Field → Tree Kind Field → Bool}
    {tree : Tree Kind Field} (checked : tree.check accepts = true) {entry : Field × Tree Kind Field}
    (member : entry ∈ tree.entries) :
    accepts tree.kind entry.1 entry.2 = true ∧ entry.2.check accepts = true := by
  cases tree with
  | node kind children =>
    exact (Forest.check_iff accepts kind children).1 checked entry member

/-! ## Positions -/

/-- The index of a child at every node on the way. -/
abbrev Position := List Nat

/-- The position of the direct parent; the root has none. -/
def Position.parent : Position → Option Position
  | [] => none
  | position => some position.dropLast

/-- The tree at a position, with the kinds and fields on the way to it. -/
def Tree.lookup :
    Position → Tree Kind Field → Option (List (Kind × Field) × Tree Kind Field)
  | [], tree => some ([], tree)
  | index :: rest, tree =>
    (tree.entries[index]?).bind fun entry =>
      (entry.2.lookup rest).map fun found =>
        ((tree.kind, entry.1) :: found.1, found.2)

theorem Tree.lookup_cons_iff {tree target : Tree Kind Field} {index : Nat} {rest : Position}
    {steps : List (Kind × Field)} :
    tree.lookup (index :: rest) = some (steps, target) ↔
      ∃ (entry : Field × Tree Kind Field) (further : List (Kind × Field)),
        tree.entries[index]? = some entry ∧
        entry.2.lookup rest = some (further, target) ∧
        steps = (tree.kind, entry.1) :: further := by
  simp only [Tree.lookup, Option.bind_eq_some_iff, Option.map_eq_some_iff,
    Prod.mk.injEq, Prod.exists]
  constructor
  · rintro ⟨field, child, isEntry, further, found, isFound, rfl, rfl⟩
    exact ⟨field, child, further, isEntry, isFound, rfl⟩
  · rintro ⟨field, child, further, isEntry, isFound, rfl⟩
    exact ⟨field, child, isEntry, further, target, isFound, rfl, rfl⟩

/-- A condition that passes to the children holds for the parent of a tree. -/
theorem Tree.lookup_parent {P : Tree Kind Field → Prop}
    (step : ∀ tree, P tree → ∀ entry ∈ tree.entries, P entry.2) :
    ∀ {path : Position} {tree target : Tree Kind Field} {steps : List (Kind × Field)},
      P tree → path ≠ [] → tree.lookup path = some (steps, target) →
      ∃ way above field, tree.lookup path.dropLast = some (way, above) ∧ P above ∧
        (field, target) ∈ above.entries
  | [], _, _, _, _, nonempty, _ => absurd rfl nonempty
  | [index], tree, target, _, holds, _, found => by
    rcases Tree.lookup_cons_iff.1 found with ⟨⟨field, child⟩, _, isEntry, here, -⟩
    rcases Prod.mk.inj (Option.some.inj here) with ⟨-, rfl⟩
    exact ⟨[], tree, field, rfl, holds, List.mem_of_getElem? isEntry⟩
  | index :: next :: rest, tree, target, _, holds, _, found => by
    rcases Tree.lookup_cons_iff.1 found with ⟨entry, further, isEntry, below, -⟩
    rcases Tree.lookup_parent step (step tree holds entry (List.mem_of_getElem? isEntry))
      (by simp) below with ⟨way, above, field, isAbove, aboveHolds, member⟩
    exact ⟨_, above, field, Tree.lookup_cons_iff.2 ⟨entry, way, isEntry, isAbove, rfl⟩,
      aboveHolds, member⟩

/-! ## Results of the children -/

/-- The results of the selected fields, selector by selector. -/
def inOrder (selectors : List (Field → Bool)) (results : List (Field × List Result)) :
    List Result :=
  selectors.flatMap fun selects =>
    (results.filter fun result => selects result.1).flatMap Prod.snd

theorem mem_inOrder {selectors : List (Field → Bool)} {results : List (Field × List Result)}
    {value : Result} :
    value ∈ inOrder selectors results ↔
      ∃ result ∈ results, (∃ selects ∈ selectors, selects result.1 = true) ∧ value ∈ result.2 := by
  simp only [inOrder, List.mem_flatMap, List.mem_filter]
  constructor
  · rintro ⟨selects, isSelector, result, ⟨member, selected⟩, found⟩
    exact ⟨result, member, ⟨selects, isSelector, selected⟩, found⟩
  · rintro ⟨result, member, ⟨selects, isSelector, selected⟩, found⟩
    exact ⟨selects, isSelector, result, ⟨member, selected⟩, found⟩

/-- Results are not repeated if no field is selected twice. -/
theorem nodup_inOrder {selectors : List (Field → Bool)} {results : List (Field × List Result)}
    (selectorsApart : selectors.Pairwise fun left right =>
      ∀ field, left field = true → right field = false)
    (nodup : ∀ result ∈ results, result.2.Nodup)
    (disjoint : results.Pairwise fun left right => left.2.Disjoint right.2) :
    (inOrder selectors results).Nodup := by
  have symmetric : Std.Symm fun left right : Field × List Result =>
      left.2.Disjoint right.2 := ⟨fun _ _ apart => List.disjoint_symm apart⟩
  refine List.nodup_flatMap.2 ⟨fun selects _ => ?_, ?_⟩
  · refine List.nodup_flatMap.2 ⟨fun result member => ?_, disjoint.filter _⟩
    exact nodup result (List.mem_filter.1 member).1
  · refine selectorsApart.imp ?_
    intro left right apart value inLeft inRight
    simp only [List.mem_flatMap, List.mem_filter] at inLeft inRight
    rcases inLeft with ⟨leftResult, ⟨isLeft, leftSelected⟩, inLeft⟩
    rcases inRight with ⟨rightResult, ⟨isRight, rightSelected⟩, inRight⟩
    refine disjoint.forall isLeft isRight ?_ inLeft inRight
    rintro rfl
    rw [apart _ leftSelected] at rightSelected
    exact nomatch rightSelected

/-- The first result of the selected fields, selector by selector. -/
def firstInOrder (selectors : List (Field → Bool)) (results : List (Field × Option Result)) :
    Option Result :=
  selectors.findSome? fun selects =>
    (results.filter fun result => selects result.1).findSome? Prod.snd

theorem exists_of_firstInOrder {selectors : List (Field → Bool)}
    {results : List (Field × Option Result)} {value : Result}
    (found : firstInOrder selectors results = some value) :
    ∃ result ∈ results, (∃ selects ∈ selectors, selects result.1 = true) ∧
      result.2 = some value := by
  rcases List.exists_of_findSome?_eq_some found with ⟨selects, isSelector, found⟩
  rcases List.exists_of_findSome?_eq_some found with ⟨result, member, isValue⟩
  rcases List.mem_filter.1 member with ⟨member, selected⟩
  exact ⟨result, member, ⟨selects, isSelector, selected⟩, isValue⟩

theorem isSome_firstInOrder {selectors : List (Field → Bool)}
    {results : List (Field × Option Result)} {result : Field × Option Result}
    (member : result ∈ results) (selected : ∃ selects ∈ selectors, selects result.1 = true)
    (isSome : result.2.isSome = true) :
    (firstInOrder selectors results).isSome = true := by
  rcases selected with ⟨selects, isSelector, selected⟩
  refine List.findSome?_isSome_iff.2 ⟨selects, isSelector, ?_⟩
  refine List.findSome?_isSome_iff.2 ⟨result, ?_, isSome⟩
  exact List.mem_filter.2 ⟨member, selected⟩

/-! ## Traversals of the children -/

/-- A result for every child, which may depend on the child's index. -/
def visit (visitor : Nat → Field → Tree Kind Field → Result)
    (entries : List (Field × Tree Kind Field)) :
    List (Field × Result) :=
  entries.zipIdx.map fun entry =>
    (entry.1.1, visitor entry.2 entry.1.1 entry.1.2)

/-- A recursion over a forest that counts the children visits them. -/
theorem eq_visit {visitor : Nat → Field → Tree Kind Field → Result}
    (results : Nat → Forest Kind Field → List (Field × Result))
    (nil : ∀ index, results index .nil = [])
    (cons : ∀ index field tree rest, results index (.cons field tree rest) =
      (field, visitor index field tree) :: results (index + 1) rest) :
    ∀ (forest : Forest Kind Field) (index : Nat), results index forest =
      (forest.entries.zipIdx index).map fun entry =>
        (entry.1.1, visitor entry.2 entry.1.1 entry.1.2)
  | .nil, index => nil index
  | .cons field tree rest, index => by
    rw [cons, eq_visit results nil cons rest]
    rfl

theorem mem_visit {visitor : Nat → Field → Tree Kind Field → Result}
    {entries : List (Field × Tree Kind Field)} {result : Field × Result} :
    result ∈ visit visitor entries ↔
      ∃ (index : Nat) (entry : Field × Tree Kind Field),
        entries[index]? = some entry ∧
        result = (entry.1, visitor index entry.1 entry.2) := by
  simp only [visit, List.mem_map, Prod.exists]
  constructor
  · rintro ⟨field, tree, index, member, rfl⟩
    exact ⟨index, field, tree, List.mk_mem_zipIdx_iff_getElem?.1 member, rfl⟩
  · rintro ⟨index, field, tree, isEntry, rfl⟩
    exact ⟨field, tree, index, List.mk_mem_zipIdx_iff_getElem?.2 isEntry, rfl⟩

theorem mem_inOrder_visit {selectors : List (Field → Bool)}
    {visitor : Nat → Field → Tree Kind Field → List Result}
    {entries : List (Field × Tree Kind Field)} {value : Result} :
    value ∈ inOrder selectors (visit visitor entries) ↔
      ∃ (index : Nat) (entry : Field × Tree Kind Field),
        entries[index]? = some entry ∧
        (∃ selects ∈ selectors, selects entry.1 = true) ∧
        value ∈ visitor index entry.1 entry.2 := by
  rw [mem_inOrder]
  constructor
  · rintro ⟨result, member, selected, found⟩
    rcases mem_visit.1 member with ⟨index, entry, isEntry, rfl⟩
    exact ⟨index, entry, isEntry, selected, found⟩
  · rintro ⟨index, entry, isEntry, selected, found⟩
    exact ⟨_, mem_visit.2 ⟨index, entry, isEntry, rfl⟩, selected, found⟩

/-- Results that name the child they are from are not repeated. -/
theorem nodup_inOrder_visit {selectors : List (Field → Bool)}
    {visitor : Nat → Field → Tree Kind Field → List Result}
    {entries : List (Field × Tree Kind Field)}
    (selectorsApart : selectors.Pairwise fun left right =>
      ∀ field, left field = true → right field = false)
    (nodup : ∀ entry ∈ entries, ∀ index, (visitor index entry.1 entry.2).Nodup)
    (childOf : Result → Nat)
    (isChild : ∀ entry ∈ entries, ∀ index,
      ∀ value ∈ visitor index entry.1 entry.2, childOf value = index) :
    (inOrder selectors (visit visitor entries)).Nodup := by
  refine nodup_inOrder selectorsApart ?_ ?_
  · intro result member
    rcases mem_visit.1 member with ⟨index, entry, isEntry, rfl⟩
    exact nodup entry (List.mem_of_getElem? isEntry) index
  · refine List.pairwise_map.2 (List.pairwise_iff_getElem.2 ?_)
    intro left right leftBound rightBound less value inLeft inRight
    simp only [List.getElem_zipIdx, Nat.zero_add] at inLeft inRight
    have isLeft := isChild _ (List.getElem_mem _) _ _ inLeft
    have isRight := isChild _ (List.getElem_mem _) _ _ inRight
    omega

end LabelledTree
