import Ldv.Library.LabelledTree
import Ldv.Sublink.Syntax

/-!
# Moving a query one level down

`increaseSublevelsUpMutator` adapts a query that becomes a subquery of a new
top query.  It changes variables in place and copies the other nodes, so in
a tree without shared nodes the original and the returned tree are equal
afterwards.

The nodes other than variables, aggregates and queries are of one kind,
labelled with what the mutator does not read.
-/

namespace Ldv.Sublink.Sublevels

open LabelledTree

inductive Kind (Label : Type) where
  | var (ref : Var)
  | aggref (agglevelsup : Nat) (label : Label)
  | query (label : Label)
  | node (label : Label)
deriving DecidableEq

/-- The fields of queries and range table entries; `arg` is any field of another node. -/
inductive Field where
  | arg
  | targetList
  | returningList
  | jointree
  | setOperations
  | havingQual
  | limitOffset
  | limitCount
  | rtable
  | subquery
  | joinaliasvars
  | funcexpr
  | valuesLists
deriving DecidableEq

/-- `QTW_IGNORE_JOINALIASES` leaves out one of the fields. -/
def Field.isMutated (field : Field) : Bool :=
  field ≠ .joinaliasvars

abbrev Node (Label : Type) := Tree (Kind Label) Field

abbrev Children (Label : Type) := Forest (Kind Label) Field

variable {Label : Type}

mutual

def increaseSublevelsUpMutator (context : Int) : Node Label → Node Label
  | .node (.var ref) children =>
    let varlevelsup :=
      if context < ref.varlevelsup then ref.varlevelsup + 1 else ref.varlevelsup
    .node (.var { ref with varlevelsup }) children
  | .node (.query label) children => .node (.query label) (mutateChildren (context + 1) children)
  | .node (.aggref agglevelsup label) children =>
    .node (.aggref agglevelsup label) (mutateChildren context children)
  | .node (.node label) children => .node (.node label) (mutateChildren context children)

/-- The children of a node, as the tree mutators of the planner visit them. -/
def mutateChildren (context : Int) : Children Label → Children Label
  | .nil => .nil
  | .cons field child rest =>
    .cons field (if field.isMutated then increaseSublevelsUpMutator context child else child)
      (mutateChildren context rest)

end

/-! ## References and their shift -/

def shiftLevel (depth levelsup : Nat) : Nat :=
  if depth ≤ levelsup then levelsup + 1 else levelsup

/-- A variable or aggregate with `depth` query levels of the tree around it. -/
structure Reference where
  isAggregate : Bool
  isMutated : Bool
  depth : Nat
  levelsup : Nat
deriving DecidableEq

namespace Reference

def IsOutside (reference : Reference) : Prop :=
  reference.depth ≤ reference.levelsup

instance (reference : Reference) : Decidable reference.IsOutside :=
  inferInstanceAs (Decidable (reference.depth ≤ reference.levelsup))

def shift (reference : Reference) : Reference :=
  { reference with levelsup := shiftLevel reference.depth reference.levelsup }

/-- A query level of the tree, by its distance, or one of the levels outside. -/
def resolve {Level : Type} (outer : List Level) (reference : Reference) : Nat ⊕ Option Level :=
  if reference.IsOutside then .inr outer[reference.levelsup - reference.depth]?
  else .inl reference.levelsup

theorem resolve_shift {Level : Type} (top : Level) (outer : List Level) (reference : Reference) :
    reference.shift.resolve (top :: outer) = reference.resolve outer := by
  by_cases outside : reference.depth ≤ reference.levelsup
  · have still := Nat.le_succ_of_le outside
    simp [resolve, shift, shiftLevel, IsOutside, outside, still, Nat.succ_sub outside]
  · simp [resolve, shift, shiftLevel, IsOutside, outside]

end Reference

mutual

/-- The shift of all references to levels outside the tree; a variable has no children. -/
def shift (depth : Nat) : Node Label → Node Label
  | .node (.var ref) children =>
    .node (.var { ref with varlevelsup := shiftLevel depth ref.varlevelsup }) children
  | .node (.aggref agglevelsup label) children =>
    .node (.aggref (shiftLevel depth agglevelsup) label) (shiftChildren depth children)
  | .node (.query label) children => .node (.query label) (shiftChildren (depth + 1) children)
  | .node (.node label) children => .node (.node label) (shiftChildren depth children)

def shiftChildren (depth : Nat) : Children Label → Children Label
  | .nil => .nil
  | .cons field child rest => .cons field (shift depth child) (shiftChildren depth rest)

end

mutual

def references (isMutated : Bool) (depth : Nat) : Node Label → List Reference
  | .node (.var ref) _ => [⟨false, isMutated, depth, ref.varlevelsup⟩]
  | .node (.aggref agglevelsup _) children =>
    ⟨true, isMutated, depth, agglevelsup⟩ :: childReferences isMutated depth children
  | .node (.query _) children => childReferences isMutated (depth + 1) children
  | .node (.node _) children => childReferences isMutated depth children

def childReferences (isMutated : Bool) (depth : Nat) : Children Label → List Reference
  | .nil => []
  | .cons field child rest =>
    references (isMutated && field.isMutated) depth child ++ childReferences isMutated depth rest

end

/--
The query is moved down correctly: exactly the references to levels outside
are increased, and below a new level `top` all mean what they meant before.
-/
def MovesDown (query : Node Label) : Prop :=
  increaseSublevelsUpMutator (-1) query = shift 0 query ∧
    ∀ {Level : Type} (top : Level) (outer : List Level),
      (references true 0 (increaseSublevelsUpMutator (-1) query)).map (·.resolve (top :: outer)) =
        (references true 0 query).map (·.resolve outer)

mutual

theorem references_shift (isMutated : Bool) (depth : Nat) : ∀ node : Node Label,
    references isMutated depth (shift depth node) =
      (references isMutated depth node).map Reference.shift
  | .node (.var _) _ => rfl
  | .node (.aggref _ _) children => by
    rw [shift, references, references, childReferences_shift isMutated depth children]
    rfl
  | .node (.query _) children => by
    rw [shift, references, references, childReferences_shift isMutated (depth + 1) children]
  | .node (.node _) children => by
    rw [shift, references, references, childReferences_shift isMutated depth children]

theorem childReferences_shift (isMutated : Bool) (depth : Nat) : ∀ children : Children Label,
    childReferences isMutated depth (shiftChildren depth children) =
      (childReferences isMutated depth children).map Reference.shift
  | .nil => rfl
  | .cons field child rest => by
    rw [shiftChildren, childReferences, childReferences, List.map_append,
      references_shift _ depth child, childReferences_shift isMutated depth rest]

end

/-! ## What the mutator reaches -/

/-- The mutator increases variables only, and not those in join aliases. -/
def Reference.IsReached (reference : Reference) : Prop :=
  reference.IsOutside → reference.isAggregate = false ∧ reference.isMutated = true

theorem self_eq_shiftLevel_iff {depth levelsup : Nat} :
    levelsup = shiftLevel depth levelsup ↔ ¬ depth ≤ levelsup := by
  unfold shiftLevel
  split <;> simp_all

mutual

/-- Both for a tree that is mutated and for one that is left as it is. -/
theorem mutated_eq_shift_iff (isMutated : Bool) (depth : Nat) : ∀ node : Node Label,
    (if isMutated then increaseSublevelsUpMutator (depth - 1) node else node) =
        shift depth node ↔
      ∀ reference ∈ references isMutated depth node, reference.IsReached
  | .node (.var ref) children => by
    cases isMutated with
    | true =>
      have same : ((depth : Int) - 1 < ref.varlevelsup) ↔ depth ≤ ref.varlevelsup := by omega
      simp [increaseSublevelsUpMutator, shift, references, Reference.IsReached, shiftLevel, same]
    | false =>
      obtain ⟨varlevelsup, varno, varattno⟩ := ref
      simp [shift, references, Reference.IsReached, Reference.IsOutside, self_eq_shiftLevel_iff]
  | .node (.aggref agglevelsup label) children => by
    have below := mutatedChildren_eq_shift_iff isMutated depth children
    cases isMutated <;>
      simp_all [increaseSublevelsUpMutator, shift, references, Reference.IsReached,
        Reference.IsOutside, self_eq_shiftLevel_iff]
  | .node (.query label) children => by
    have below := mutatedChildren_eq_shift_iff isMutated (depth + 1) children
    cases isMutated <;> simp_all [increaseSublevelsUpMutator, shift, references]
  | .node (.node label) children => by
    have below := mutatedChildren_eq_shift_iff isMutated depth children
    cases isMutated <;> simp_all [increaseSublevelsUpMutator, shift, references]

theorem mutatedChildren_eq_shift_iff (isMutated : Bool) (depth : Nat) :
    ∀ children : Children Label,
    (if isMutated then mutateChildren (depth - 1) children else children) =
        shiftChildren depth children ↔
      ∀ reference ∈ childReferences isMutated depth children, reference.IsReached
  | .nil => by simp [mutateChildren, shiftChildren, childReferences]
  | .cons field child rest => by
    have first := mutated_eq_shift_iff (isMutated && field.isMutated) depth child
    have others := mutatedChildren_eq_shift_iff isMutated depth rest
    rw [childReferences, List.forall_mem_append, ← first, ← others]
    cases isMutated <;> simp [mutateChildren, shiftChildren]

end

/--
A query is moved down correctly just if no aggregate and no join alias in it
refers to a level outside.
-/
theorem movesDown_iff (label : Label) (children : Children Label) :
    MovesDown (.node (.query label) children) ↔
      ∀ reference ∈ references true 0 (.node (.query label) children), reference.IsReached := by
  rw [← mutated_eq_shift_iff true 0 (.node (.query label) children)]
  refine ⟨fun moves => moves.1, fun same => ?_⟩
  have same : increaseSublevelsUpMutator (-1) (.node (.query label) children) =
      shift 0 (.node (.query label) children) := same
  refine ⟨same, fun top outer => ?_⟩
  rw [same, references_shift, List.map_map]
  exact List.map_congr_left fun reference _ => reference.resolve_shift top outer

/-- `SELECT 1 FROM s HAVING sum(t.b) > 0`, below a query that groups `t`. -/
def outerAggregate : Node String :=
  .node (.query "SELECT") (.cons .havingQual (.node (.aggref 1 "sum") (.cons .arg
    (.node (.var { varlevelsup := 1, varno := 1, varattno := 2 }) .nil) .nil)) .nil)

/-- The argument of the aggregate is moved, the aggregate itself is not. -/
theorem not_movesDown_outerAggregate : ¬ MovesDown outerAggregate := by
  rintro ⟨same, -⟩
  revert same
  decide

end Ldv.Sublink.Sublevels
