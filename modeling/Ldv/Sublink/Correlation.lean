import Ldv.Library.LabelledTree
import Ldv.Sublink.Syntax

/-!
# Correlation of a sublink

`makeSublinkInfo` walks the query below a sublink and records the variables
that refer to outer query levels.  The walker hands a context down the
tree.  It allocates a new one at every node and does not set the flags
`belowAgg` and `belowSet` of the new context unless the node is a query, so
that what it reads there is what the allocated memory contained.  These
contents are a parameter of the model.

A query node has its range table entries, target entries and clauses as
children.  All nodes of expressions and clauses other than variables and
sublinks are of one kind.
-/

namespace Ldv.Sublink.Correlation

open LabelledTree

inductive Kind where
  | var (ref : Var)
  | expr
  | subLink
  | query (hasAggs setOperations : Bool) (groupClause : List Nat)
deriving DecidableEq

/-- The fields that hold children; a target entry has its `ressortgroupref`. -/
inductive Field where
  | arg
  | testexpr
  | subselect
  | rtable
  | target (ressortgroupref : Nat)
  | jointree
  | havingQual
  | limitOffset
  | limitCount
deriving DecidableEq

abbrev Node := Tree Kind Field

def Field.is (field other : Field) : Bool :=
  decide (other = field)

/-- A target entry that GROUP BY does not use. -/
def Field.isTargetOutside (groupClause : List Nat) : Field → Bool
  | .target ressortgroupref => decide (ressortgroupref ∉ groupClause)
  | _ => false

namespace Kind

def isQuery : Kind → Bool
  | .query _ _ _ => true
  | _ => false

def hasAggs : Kind → Bool
  | .query hasAggs _ _ => hasAggs
  | _ => false

def setOperations : Kind → Bool
  | .query _ setOperations _ => setOperations
  | _ => false

/--
The children that parse analysis puts into a field.  Queries are below
sublinks and in range table entries only.
-/
def accepts (kind : Kind) (field : Field) (child : Node) : Bool :=
  match kind with
  | .var _ => false
  | .expr => field = .arg && !child.kind.isQuery
  | .subLink =>
    (field = .testexpr && !child.kind.isQuery) || (field = .subselect && child.kind.isQuery)
  | .query _ _ groupClause =>
    decide groupClause.Nodup &&
      match field with
      | .rtable => true
      | .target _ | .jointree | .havingQual | .limitOffset | .limitCount =>
        !child.kind.isQuery
      | .arg | .testexpr | .subselect => false

/--
The children that the walkers visit, in their order.  For a query these
are the range table, the target entries outside GROUP BY, those in GROUP
BY, the join tree and HAVING.
-/
def selectors : Kind → List (Field → Bool)
  | .var _ => []
  | .expr => [Field.is .arg]
  | .subLink => [Field.is .testexpr, Field.is .subselect]
  | .query _ _ groupClause =>
    [Field.is .rtable, Field.isTargetOutside groupClause] ++
      groupClause.map (fun ressortgroupref => Field.is (.target ressortgroupref)) ++
      [Field.is .jointree, Field.is .havingQual]

end Kind

/-- The query below a sublink. -/
structure Subselect where
  root : Node
  isQuery : root.kind.isQuery = true
  analyzed : root.check Kind.accepts = true

/-! ## The walker -/

inductive SublinkLocation where
  | select
  | groupBy
  | where
  | having
deriving DecidableEq, Repr

/-- The two flags of a context. -/
structure Flags where
  belowAgg : Bool
  belowSet : Bool
deriving DecidableEq

/-- What the memory allocated for the context of a node contains. -/
abbrev Memory := Position → Flags

/-- The walker context; location and expression are not set at the start. -/
structure Context where
  parent : Position
  exprRoot : Option Position
  location : Option SublinkLocation
  varlevelsUp : Nat
  realLevelsUp : List Nat
  flags : Flags

/-- What is recorded for the variable at `place`. -/
structure CorrVarInfo where
  corrVar : Var
  place : Position
  parent : Position
  exprRoot : Option Position
  location : Option SublinkLocation
  outside : Bool
  trueVarLevelsUp : Nat
  flags : Flags
deriving DecidableEq

namespace Context

/-- The context allocated for a node. -/
def enter (memory : Memory) (context : Context) (position : Position)
    (kind : Kind) : Context :=
  let newContext := { context with
    parent := position
    flags := memory position }
  match kind with
  | .var _ | .expr => newContext
  | .subLink =>
    { newContext with
      realLevelsUp := (newContext.varlevelsUp + 1) :: newContext.realLevelsUp }
  | .query hasAggs setOperations _ =>
    { newContext with
      varlevelsUp := newContext.varlevelsUp + 1
      flags :=
        { belowAgg := context.flags.belowAgg || hasAggs
          belowSet := context.flags.belowSet || setOperations } }

/-- The context in which a clause of a query is walked. -/
def inClause (context : Context) (kind : Kind) (field : Field)
    (child : Position) : Context :=
  match kind, field with
  | .query _ _ groupClause, .target ressortgroupref =>
    { context with
      exprRoot := some child
      location := some (if ressortgroupref ∈ groupClause then .groupBy else .select) }
  | .query _ _ _, .jointree =>
    { context with exprRoot := some child, location := some .where }
  | .query _ _ _, .havingQual =>
    { context with exprRoot := some child, location := some .having }
  | _, _ => context

/-- The record for a variable; the loop counts the sublinks it leaves. -/
def makeCorrVar (context : Context) (ref : Var) (place : Position) :
    CorrVarInfo where
  corrVar := ref
  place := place
  parent := context.parent
  exprRoot := context.exprRoot
  location := context.location
  outside := decide (context.varlevelsUp ≤ ref.varlevelsup)
  trueVarLevelsUp :=
    context.realLevelsUp.findIdx fun level : Nat =>
      decide ((level : Int) ≤ context.varlevelsUp - ref.varlevelsup)
  flags := context.flags

end Context

mutual

/-- The walker `findSublevelsUpVarWalker`, as the list it appends. -/
def findSublevelsUpVarWalker (memory : Memory) (context : Context)
    (position : Position) : Node → List CorrVarInfo
  | .node (.var ref) _ =>
    if 0 < ref.varlevelsup then [context.makeCorrVar ref position] else []
  | .node .expr children =>
    inOrder Kind.expr.selectors
      (walkChildren memory (context.enter memory position .expr) .expr position 0 children)
  | .node .subLink children =>
    inOrder Kind.subLink.selectors
      (walkChildren memory (context.enter memory position .subLink) .subLink position 0 children)
  | .node (.query hasAggs setOperations groupClause) children =>
    inOrder (Kind.query hasAggs setOperations groupClause).selectors
      (walkChildren memory
        (context.enter memory position (.query hasAggs setOperations groupClause))
        (.query hasAggs setOperations groupClause) position 0 children)

def walkChildren (memory : Memory) (context : Context) (kind : Kind)
    (position : Position) (index : Nat) :
    Forest Kind Field → List (Field × List CorrVarInfo)
  | .nil => []
  | .cons field child rest =>
    (field, findSublevelsUpVarWalker memory
      (context.inClause kind field (position ++ [index]))
      (position ++ [index]) child) ::
      walkChildren memory context kind position (index + 1) rest

end

/-- The context with which the walk of a sublink query starts. -/
def initialContext (kind : Kind) : Context where
  parent := []
  exprRoot := none
  location := none
  varlevelsUp := 0
  realLevelsUp := [0]
  flags := { belowAgg := kind.hasAggs, belowSet := kind.setOperations }

/-- The variables recorded for the query of a sublink. -/
def Subselect.findVarsSublevelsUp (memory : Memory) (query : Subselect) :
    List CorrVarInfo :=
  inOrder query.root.kind.selectors
    (walkChildren memory (initialContext query.root.kind) query.root.kind [] 0 query.root.children)

inductive SublinkCategory where
  | uncorrelated
  | correlated
  | correlatedInside
deriving DecidableEq, Repr

/-- The classification in `makeSublinkInfo`. -/
def Subselect.category (memory : Memory) (query : Subselect) :
    SublinkCategory :=
  let corrVarInfos := query.findVarsSublevelsUp memory
  if corrVarInfos ≠ [] then
    if 0 < (corrVarInfos.filter CorrVarInfo.outside).length then .correlated
    else .correlatedInside
  else .uncorrelated

/-! ## Variables of the query -/

/-- There is a variable at a position, reached by these steps. -/
def VarAt (root : Node) (position : Position)
    (steps : List (Kind × Field)) (ref : Var) : Prop :=
  ∃ target, root.lookup position = some (steps, target) ∧ target.kind = .var ref

/--
The variable refers to a query level outside: it goes up at least as many
levels as there are queries around it, the query of the sublink included.
-/
def RefersOutside (steps : List (Kind × Field)) (ref : Var) : Prop :=
  (steps.countP fun step => step.1.isQuery) ≤ ref.varlevelsup

/-- The sublinks whose queries contain the variable, the given one included. -/
def sublinksAround (steps : List (Kind × Field)) : Nat :=
  1 + steps.countP fun step => step.2 = .subselect

/-- The aggregation and set operation queries around the variable. -/
def flagsAround (steps : List (Kind × Field)) : Flags where
  belowAgg := steps.any fun step => step.1.hasAggs
  belowSet := steps.any fun step => step.1.setOperations

def Flags.or (left right : Flags) : Flags where
  belowAgg := left.belowAgg || right.belowAgg
  belowSet := left.belowSet || right.belowSet

/--
The memory of the nearest node around the variable that is no query gives,
with the queries below that node, the flags for all queries around.
-/
def MemoryFits (memory : Memory) (position : Position) (steps : List (Kind × Field)) : Prop :=
  ∀ above kind field queries, steps = above ++ (kind, field) :: queries →
    kind.isQuery = false → (∀ step ∈ queries, step.1.isQuery = true) →
    (memory (position.take above.length)).or (flagsAround queries) = flagsAround steps

/--
The recorded variables are those that refer to the outside of the sublink,
each once, with the number of sublinks it leaves and the right flags, and
the sublink is classified as uncorrelated if and only if there is none.
-/
def Subselect.ClassifiedExactly (memory : Memory) (query : Subselect) : Prop :=
  let recorded := query.findVarsSublevelsUp memory
  (recorded.map CorrVarInfo.place).Nodup ∧
  (∀ position ref,
    (∃ info ∈ recorded, info.place = position ∧ info.corrVar = ref) ↔
      ∃ steps, VarAt query.root position steps ref ∧ RefersOutside steps ref) ∧
  (∀ info ∈ recorded, ∀ steps, VarAt query.root info.place steps info.corrVar →
    info.trueVarLevelsUp = sublinksAround steps ∧ info.flags = flagsAround steps) ∧
  (query.category memory = .uncorrelated ↔
    ¬ ∃ position steps ref, VarAt query.root position steps ref ∧ RefersOutside steps ref)

/-! ## Contexts along a path -/

/-- The context that reaches the node at the end of a path. -/
def Context.follow (memory : Memory) :
    Context → Position → List (Kind × Field) → Position → Context
  | context, _, [], _ => context
  | context, position, (kind, field) :: steps, path =>
    let child := position ++ [path.headD 0]
    ((context.enter memory position kind).inClause kind field child).follow
      memory child steps path.tail

/-- The walkers visit the fields on the way. -/
def Walked (steps : List (Kind × Field)) : Prop :=
  ∀ step ∈ steps, ∃ selects ∈ step.1.selectors, selects step.2 = true

theorem varAt_nil_iff {root : Node} {steps : List (Kind × Field)} {ref : Var} :
    VarAt root [] steps ref ↔ steps = [] ∧ root.kind = .var ref := by
  simp [VarAt, Tree.lookup, eq_comm]

theorem varAt_cons_iff {root : Node} {index : Nat} {rest : Position} {steps : List (Kind × Field)}
    {ref : Var} :
    VarAt root (index :: rest) steps ref ↔
      ∃ (entry : Field × Node) (further : List (Kind × Field)),
        root.entries[index]? = some entry ∧ VarAt entry.2 rest further ref ∧
          steps = (root.kind, entry.1) :: further := by
  simp only [VarAt, Tree.lookup_cons_iff]
  constructor
  · rintro ⟨target, ⟨entry, further, isEntry, found, rfl⟩, isVar⟩
    exact ⟨entry, further, isEntry, ⟨target, found, isVar⟩, rfl⟩
  · rintro ⟨entry, further, isEntry, ⟨target, found, isVar⟩, rfl⟩
    exact ⟨target, ⟨entry, further, isEntry, found, rfl⟩, isVar⟩

/-- A position holds one variable, reached by the same steps. -/
theorem VarAt.unique {root : Node} {position : Position}
    {leftSteps rightSteps : List (Kind × Field)} {leftRef rightRef : Var}
    (left : VarAt root position leftSteps leftRef)
    (right : VarAt root position rightSteps rightRef) :
    leftSteps = rightSteps ∧ leftRef = rightRef := by
  rcases left with ⟨leftTarget, leftFound, leftVar⟩
  rcases right with ⟨rightTarget, rightFound, rightVar⟩
  rw [leftFound] at rightFound
  rcases Prod.mk.inj (Option.some.inj rightFound) with ⟨rfl, rfl⟩
  rw [leftVar] at rightVar
  exact ⟨rfl, Kind.var.inj rightVar⟩

theorem walkChildren_eq_visit (memory : Memory) (context : Context) (kind : Kind)
    (position : Position) (children : Forest Kind Field) :
    walkChildren memory context kind position 0 children =
      visit (fun index field => findSublevelsUpVarWalker memory
        (context.inClause kind field (position ++ [index])) (position ++ [index]))
        children.entries :=
  eq_visit (walkChildren memory context kind position) (fun _ => rfl) (fun _ _ _ _ => rfl)
    children 0

/-- One step of the walker. -/
theorem findSublevelsUpVarWalker_step (memory : Memory) (context : Context) (position : Position)
    (root : Node) :
    findSublevelsUpVarWalker memory context position root =
      (match root.kind with
        | .var ref =>
          if 0 < ref.varlevelsup then [context.makeCorrVar ref position] else []
        | _ => []) ++
      inOrder root.kind.selectors
        (visit (fun index field => findSublevelsUpVarWalker memory
          ((context.enter memory position root.kind).inClause root.kind field
            (position ++ [index])) (position ++ [index])) root.entries) := by
  rcases root with ⟨kind, children⟩
  cases kind with
  | var ref => simp [findSublevelsUpVarWalker, Tree.kind, Kind.selectors, inOrder]
  | expr =>
    rw [findSublevelsUpVarWalker, walkChildren_eq_visit]
    rfl
  | subLink =>
    rw [findSublevelsUpVarWalker, walkChildren_eq_visit]
    rfl
  | query hasAggs setOperations groupClause =>
    rw [findSublevelsUpVarWalker, walkChildren_eq_visit]
    rfl

/-- The walked children of a node give what is recorded below it. -/
theorem mem_children_iff {memory : Memory} {root : Node} {info : CorrVarInfo}
    (below : ∀ entry ∈ root.entries, ∀ context position,
      info ∈ findSublevelsUpVarWalker memory context position entry.2 ↔
        ∃ path steps ref, VarAt entry.2 path steps ref ∧ Walked steps ∧
          0 < ref.varlevelsup ∧
          info = (context.follow memory position steps path).makeCorrVar ref (position ++ path))
    (context : Context) (position : Position) :
    info ∈ inOrder root.kind.selectors
        (visit (fun index field => findSublevelsUpVarWalker memory
          (context.inClause root.kind field (position ++ [index]))
          (position ++ [index])) root.entries) ↔
      ∃ index rest field steps ref,
        VarAt root (index :: rest) ((root.kind, field) :: steps) ref ∧
        Walked ((root.kind, field) :: steps) ∧ 0 < ref.varlevelsup ∧
        info = ((context.inClause root.kind field (position ++ [index])).follow
          memory (position ++ [index]) steps rest).makeCorrVar ref (position ++ index :: rest) := by
  rw [mem_inOrder_visit]
  constructor
  · rintro ⟨index, entry, isEntry, selected, found⟩
    rcases (below entry (List.mem_of_getElem? isEntry) _ _).1 found
      with ⟨path, steps, ref, isVar, walked, isUp, isInfo⟩
    exact ⟨index, path, entry.1, steps, ref, varAt_cons_iff.2 ⟨entry, steps, isEntry, isVar, rfl⟩,
      List.forall_mem_cons.2 ⟨selected, walked⟩, isUp, by simpa using isInfo⟩
  · rintro ⟨index, rest, field, steps, ref, isVar, walked, isUp, isInfo⟩
    rcases varAt_cons_iff.1 isVar with ⟨entry, further, isEntry, inChild, isSteps⟩
    rcases List.cons.inj isSteps with ⟨isStep, rfl⟩
    rcases Prod.mk.inj isStep with ⟨-, rfl⟩
    refine ⟨index, entry, isEntry, walked _ List.mem_cons_self, ?_⟩
    exact (below entry (List.mem_of_getElem? isEntry) _ _).2 ⟨rest, steps, ref, inChild,
      fun step member => walked step (List.mem_cons_of_mem _ member), isUp,
      by simpa using isInfo⟩

/-- The walker records the variables of outer levels that it reaches. -/
theorem mem_findSublevelsUpVarWalker (memory : Memory) (root : Node) (info : CorrVarInfo) :
    ∀ (context : Context) (position : Position),
      info ∈ findSublevelsUpVarWalker memory context position root ↔
        ∃ path steps ref, VarAt root path steps ref ∧ Walked steps ∧
          0 < ref.varlevelsup ∧
          info = (context.follow memory position steps path).makeCorrVar ref
            (position ++ path) := by
  induction root using Tree.childInduction with
  | step root ih =>
  intro context position
  rw [findSublevelsUpVarWalker_step, List.mem_append, mem_children_iff ih]
  constructor
  · rintro (isOwn | ⟨index, rest, field, steps, ref, isVar, walked, isUp, isInfo⟩)
    · cases isKind : root.kind with
      | var ref =>
        rw [isKind] at isOwn
        dsimp only at isOwn
        split_ifs at isOwn with isUp
        · refine ⟨[], [], ref, varAt_nil_iff.2 ⟨rfl, isKind⟩, by simp [Walked], isUp, ?_⟩
          simpa [Context.follow] using isOwn
        · exact nomatch isOwn
      | _ => simp [isKind] at isOwn
    · exact ⟨index :: rest, (root.kind, field) :: steps, ref, isVar, walked, isUp, isInfo⟩
  · rintro ⟨path, steps, ref, isVar, walked, isUp, isInfo⟩
    cases path with
    | nil =>
      rcases varAt_nil_iff.1 isVar with ⟨rfl, isKind⟩
      left
      rw [isKind]
      dsimp only
      rw [if_pos isUp]
      simpa [Context.follow] using isInfo
    | cons index rest =>
      rcases varAt_cons_iff.1 isVar with ⟨entry, further, -, -, rfl⟩
      exact .inr ⟨index, rest, entry.1, further, ref, isVar, walked, isUp, isInfo⟩

/-! ## What is recorded for a query -/

/-- The context in which the variable at a position of the query is met. -/
def Subselect.contextAt (memory : Memory) (query : Subselect)
    (steps : List (Kind × Field)) (position : Position) : Context :=
  match steps with
  | [] => initialContext query.root.kind
  | (kind, field) :: steps =>
    ((initialContext query.root.kind).inClause kind field
      [position.headD 0]).follow memory [position.headD 0] steps position.tail

/-- A variable of the query is below its root. -/
theorem Subselect.exists_first_step {query : Subselect} {position : Position}
    {steps : List (Kind × Field)} {ref : Var} (isVar : VarAt query.root position steps ref) :
    ∃ index rest field further, position = index :: rest ∧
      steps = (query.root.kind, field) :: further := by
  cases position with
  | nil =>
    have isQuery := query.isQuery
    rw [(varAt_nil_iff.1 isVar).2] at isQuery
    exact nomatch isQuery
  | cons index rest =>
    rcases varAt_cons_iff.1 isVar with ⟨entry, further, -, -, rfl⟩
    exact ⟨index, rest, entry.1, further, rfl, rfl⟩

theorem mem_findVarsSublevelsUp {memory : Memory} {query : Subselect} {info : CorrVarInfo} :
    info ∈ query.findVarsSublevelsUp memory ↔
      ∃ position steps ref, VarAt query.root position steps ref ∧ Walked steps ∧
        0 < ref.varlevelsup ∧
        info = (query.contextAt memory steps position).makeCorrVar ref position := by
  have isChildren : query.root.children.entries = query.root.entries := rfl
  rw [Subselect.findVarsSublevelsUp, walkChildren_eq_visit, isChildren,
    mem_children_iff fun entry _ => mem_findSublevelsUpVarWalker memory entry.2 info]
  constructor
  · rintro ⟨index, rest, field, steps, ref, isVar, walked, isUp, isInfo⟩
    exact ⟨index :: rest, _, ref, isVar, walked, isUp, isInfo⟩
  · rintro ⟨position, steps, ref, isVar, walked, isUp, isInfo⟩
    rcases Subselect.exists_first_step isVar with ⟨index, rest, field, further, rfl, rfl⟩
    exact ⟨index, rest, field, further, ref, isVar, walked, isUp, isInfo⟩

/-- A clause changes neither the levels nor the flags. -/
theorem Context.same_inClause (context : Context) (kind : Kind) (field : Field)
    (child : Position) :
    (context.inClause kind field child).varlevelsUp = context.varlevelsUp ∧
      (context.inClause kind field child).realLevelsUp = context.realLevelsUp ∧
      (context.inClause kind field child).flags = context.flags := by
  unfold Context.inClause
  split <;> exact ⟨rfl, rfl, rfl⟩

/-- Each query and each sublink on the way is one more level. -/
theorem Context.levels_follow (memory : Memory) (steps : List (Kind × Field)) :
    ∀ (context : Context) (position path : Position),
      (context.follow memory position steps path).varlevelsUp =
          context.varlevelsUp + steps.countP (fun step => step.1.isQuery) ∧
        (context.follow memory position steps path).realLevelsUp.length =
          context.realLevelsUp.length + steps.countP fun step => step.1 = .subLink := by
  induction steps with
  | nil => exact fun _ _ _ => ⟨rfl, rfl⟩
  | cons step steps ih =>
    rcases step with ⟨kind, field⟩
    intro context position path
    rw [Context.follow, (ih _ _ _).1, (ih _ _ _).2, (Context.same_inClause _ _ _ _).1,
      (Context.same_inClause _ _ _ _).2.1, List.countP_cons, List.countP_cons]
    cases kind <;> simp [Context.enter, Kind.isQuery] <;> omega

/-! ## The flags that are read -/

theorem Context.follow_append (memory : Memory) (above below : List (Kind × Field)) :
    ∀ (context : Context) (position path : Position), above.length ≤ path.length →
      context.follow memory position (above ++ below) path =
        (context.follow memory position above path).follow memory
          (position ++ path.take above.length) below (path.drop above.length) := by
  induction above with
  | nil => simp [Context.follow]
  | cons step above ih =>
    intro context position path long
    rcases path with _ | ⟨index, path⟩
    · simp at long
    · simp only [List.length_cons, Nat.add_le_add_iff_right] at long
      simp only [List.cons_append, Context.follow, List.headD_cons, List.tail_cons,
        ih _ _ path long, List.length_cons, List.take_succ_cons, List.drop_succ_cons,
        List.append_assoc, List.nil_append]

theorem Flags.or_assoc (first second third : Flags) :
    (first.or second).or third = first.or (second.or third) := by
  simp [Flags.or, Bool.or_assoc]

theorem flagsAround_cons (step : Kind × Field) (steps : List (Kind × Field)) :
    flagsAround (step :: steps) =
      (⟨step.1.hasAggs, step.1.setOperations⟩ : Flags).or (flagsAround steps) := by
  simp [flagsAround, Flags.or]

/-- Queries add their flags to those of the context. -/
theorem Context.flags_follow_queries (memory : Memory) {queries : List (Kind × Field)}
    (areQueries : ∀ step ∈ queries, step.1.isQuery = true) :
    ∀ (context : Context) (position path : Position),
      (context.follow memory position queries path).flags =
        context.flags.or (flagsAround queries) := by
  induction queries with
  | nil => simp [Context.follow, flagsAround, Flags.or]
  | cons step queries ih =>
    rcases step with ⟨kind, field⟩
    rcases List.forall_mem_cons.1 areQueries with ⟨isQuery, others⟩
    intro context position path
    rw [Context.follow, ih others, (Context.same_inClause _ _ _ _).2.2, flagsAround_cons,
      ← Flags.or_assoc]
    cases kind with
    | query hasAggs setOperations groupClause => rfl
    | _ => exact nomatch isQuery

theorem queries_or_split (steps : List (Kind × Field)) :
    (∀ step ∈ steps, step.1.isQuery = true) ∨
      ∃ above kind field queries, steps = above ++ (kind, field) :: queries ∧
        kind.isQuery = false ∧ ∀ step ∈ queries, step.1.isQuery = true := by
  induction steps with
  | nil => exact .inl (by simp)
  | cons step steps ih =>
    rcases ih with areQueries | ⟨above, kind, field, queries, rfl, notQuery, areQueries⟩
    · cases isQuery : step.1.isQuery with
      | true => exact .inl (List.forall_mem_cons.2 ⟨isQuery, areQueries⟩)
      | false => exact .inr ⟨[], step.1, step.2, steps, rfl, isQuery, areQueries⟩
    · exact .inr ⟨step :: above, kind, field, queries, rfl, notQuery, areQueries⟩

theorem split_unique {above above' queries queries' : List (Kind × Field)}
    {step step' : Kind × Field} (same : above ++ step :: queries = above' ++ step' :: queries')
    (notQuery : step.1.isQuery = false) (areQueries : ∀ step ∈ queries, step.1.isQuery = true)
    (notQuery' : step'.1.isQuery = false)
    (areQueries' : ∀ step ∈ queries', step.1.isQuery = true) :
    above = above' ∧ queries = queries' := by
  rcases List.append_eq_append_iff.1 same with
    ⟨_ | ⟨first, between⟩, rfl, rest⟩ | ⟨_ | ⟨first, between⟩, rfl, rest⟩
  · simp only [List.nil_append, List.cons.injEq] at rest
    simp [rest.2]
  · have isQuery := areQueries step' (by simp [(List.cons.inj rest).2])
    exact nomatch notQuery'.symm.trans isQuery
  · simp only [List.nil_append, List.cons.injEq] at rest
    simp [rest.2]
  · have isQuery := areQueries' step (by simp [(List.cons.inj rest).2])
    exact nomatch notQuery.symm.trans isQuery

/-- All sublinks around a variable are counted if it refers to the outside. -/
theorem Context.trueVarLevelsUp_makeCorrVar {context : Context} {ref : Var}
    (outside : context.varlevelsUp < ref.varlevelsup) (place : Position) :
    (context.makeCorrVar ref place).trueVarLevelsUp =
      context.realLevelsUp.length := by
  rw [Context.makeCorrVar, List.findIdx_eq_length]
  intro level _
  rw [decide_eq_false_iff_not]
  omega

/-- The steps to a variable are taken in fields that analysis fills. -/
theorem accepted_of_varAt {ref : Var} :
    ∀ {position : Position} {root : Node} {steps : List (Kind × Field)},
      root.check Kind.accepts = true →
      VarAt root position steps ref →
      ∀ step ∈ steps, ∃ child, Kind.accepts step.1 step.2 child = true
  | [], _, _, _, isVar => by
    rw [(varAt_nil_iff.1 isVar).1]
    simp
  | index :: rest, root, steps, analyzed, isVar => by
    rcases varAt_cons_iff.1 isVar with ⟨entry, further, isEntry, inChild, rfl⟩
    have checked := Tree.check_of_entry analyzed (List.mem_of_getElem? isEntry)
    exact List.forall_mem_cons.2 ⟨⟨entry.2, checked.1⟩, accepted_of_varAt checked.2 inChild⟩

theorem countP_subLink {steps : List (Kind × Field)}
    (accepted : ∀ step ∈ steps, ∃ child, Kind.accepts step.1 step.2 child = true) :
    (steps.countP fun step => step.1 = .subLink) =
      (steps.countP fun step => step.2 = .subselect) +
        steps.countP fun step => step.2 = .testexpr := by
  induction steps with
  | nil => rfl
  | cons step steps ih =>
    rcases step with ⟨kind, field⟩
    rcases List.forall_mem_cons.1 accepted with ⟨⟨child, accepted⟩, others⟩
    simp only [List.countP_cons, ih others]
    cases kind <;> cases field <;> simp [Kind.accepts] at accepted ⊢ <;> omega

/-- The variable is in an expression of LIMIT or OFFSET. -/
def BelowLimit (steps : List (Kind × Field)) : Prop :=
  ∃ step ∈ steps, step.2 = .limitOffset ∨ step.2 = .limitCount

/-- The variable is in the test expression of a nested sublink. -/
def InTest (steps : List (Kind × Field)) : Prop :=
  ∃ step ∈ steps, step.2 = .testexpr

/-- All children but those of LIMIT and OFFSET are visited. -/
theorem Kind.exists_selectors_iff {kind : Kind} {field : Field} {child : Node}
    (accepted : kind.accepts field child = true) :
    (∃ selects ∈ kind.selectors, selects field = true) ↔
      ¬ (field = .limitOffset ∨ field = .limitCount) := by
  rw [← List.any_eq_true]
  cases kind with
  | var ref => exact nomatch accepted
  | expr =>
    cases field <;> simp [Kind.accepts, Kind.selectors, Field.is] at accepted ⊢
  | subLink =>
    cases field <;> simp [Kind.accepts, Kind.selectors, Field.is] at accepted ⊢
  | query hasAggs setOperations groupClause =>
    cases field <;>
      simp [Kind.accepts, Kind.selectors, Field.is, Field.isTargetOutside,
        List.any_map, Function.comp_def] at accepted ⊢
    exact (Classical.em _).symm

theorem walked_iff_not_belowLimit {steps : List (Kind × Field)}
    (accepted : ∀ step ∈ steps, ∃ child, Kind.accepts step.1 step.2 child = true) :
    Walked steps ↔ ¬ BelowLimit steps := by
  simp only [Walked, BelowLimit, not_exists, not_and]
  refine forall₂_congr fun step member => ?_
  rcases accepted step member with ⟨child, accepted⟩
  exact Kind.exists_selectors_iff accepted

/-! ## Every variable is recorded once -/

theorem Field.is_apart {left right : Field} (different : left ≠ right) :
    ∀ field, Field.is left field = true → Field.is right field = false := by
  intro field isLeft
  rw [of_decide_eq_true isLeft]
  exact decide_eq_false different

theorem Kind.selectors_apart {kind : Kind} {field : Field} {child : Node}
    (accepted : kind.accepts field child = true) :
    kind.selectors.Pairwise fun left right =>
      ∀ field, left field = true → right field = false := by
  cases kind with
  | var ref => exact nomatch accepted
  | expr => exact List.pairwise_singleton _ _
  | subLink => exact List.pairwise_pair.2 (Field.is_apart (by decide))
  | query hasAggs setOperations groupClause =>
    simp only [Kind.accepts, Bool.and_eq_true, decide_eq_true_eq] at accepted
    refine List.pairwise_append.2 ⟨List.pairwise_append.2 ⟨?_, ?_, ?_⟩, ?_, ?_⟩
    · refine List.pairwise_pair.2 fun field isTable => ?_
      rw [of_decide_eq_true isTable]
      rfl
    · refine List.pairwise_map.2 (accepted.1.imp fun different => ?_)
      exact Field.is_apart fun same => different (Field.target.inj same)
    · intro left isLeft right isRight
      rcases List.mem_map.1 isRight with ⟨ressortgroupref, grouped, rfl⟩
      simp only [List.mem_cons, List.not_mem_nil, or_false] at isLeft
      rcases isLeft with rfl | rfl
      · exact Field.is_apart (by simp)
      · intro field isOutside
        refine decide_eq_false ?_
        rintro rfl
        exact of_decide_eq_true isOutside grouped
    · exact List.pairwise_pair.2 (Field.is_apart (by decide))
    · intro left isLeft right isRight field isField
      have isEarlier : field = .rtable ∨ ∃ ressortgroupref, field = .target ressortgroupref := by
        simp only [List.mem_append, List.mem_cons, List.not_mem_nil, or_false,
          List.mem_map] at isLeft
        rcases isLeft with (rfl | rfl) | ⟨ressortgroupref, -, rfl⟩
        · exact .inl (of_decide_eq_true isField)
        · cases field with
          | target ressortgroupref => exact .inr ⟨ressortgroupref, rfl⟩
          | _ => exact nomatch isField
        · exact .inr ⟨ressortgroupref, of_decide_eq_true isField⟩
      simp only [List.mem_cons, List.not_mem_nil, or_false] at isRight
      rcases isEarlier with rfl | ⟨ressortgroupref, rfl⟩ <;>
        rcases isRight with rfl | rfl <;> rfl

theorem nodup_children {memory : Memory} {root : Node} (analyzed : root.check Kind.accepts = true)
    (nodup : ∀ entry ∈ root.entries, ∀ context position,
      (findSublevelsUpVarWalker memory context position entry.2).Nodup)
    (context : Context) (position : Position) :
    (inOrder root.kind.selectors
      (visit (fun index field => findSublevelsUpVarWalker memory
        (context.inClause root.kind field (position ++ [index]))
        (position ++ [index])) root.entries)).Nodup := by
  cases isEntries : root.entries with
  | nil =>
    have isEmpty : ∀ selectors : List (Field → Bool),
        inOrder selectors ([] : List (Field × List CorrVarInfo)) = [] := by
      simp [inOrder, List.flatMap_eq_nil_iff]
    exact (isEmpty _).symm ▸ List.nodup_nil
  | cons first others =>
    have member : first ∈ root.entries := isEntries ▸ List.mem_cons_self
    rw [← isEntries]
    refine nodup_inOrder_visit (Kind.selectors_apart (Tree.check_of_entry analyzed member).1)
      (fun entry member index => nodup entry member _ _)
      (fun info => info.place.getD position.length 0) ?_
    intro entry member index info isInfo
    rcases (mem_findSublevelsUpVarWalker _ _ _ _ _).1 isInfo
      with ⟨path, steps, ref, -, -, -, rfl⟩
    simp [Context.makeCorrVar]

theorem nodup_findSublevelsUpVarWalker (memory : Memory) (root : Node) :
    root.check Kind.accepts = true →
    ∀ context position, (findSublevelsUpVarWalker memory context position root).Nodup := by
  induction root using Tree.childInduction with
  | step root ih =>
  intro analyzed context position
  have below := nodup_children analyzed
    (fun entry member => ih entry member (Tree.check_of_entry analyzed member).2)
    (context.enter memory position root.kind) position
  rw [findSublevelsUpVarWalker_step]
  cases isKind : root.kind with
  | var ref =>
    dsimp only
    split_ifs <;> simp [Kind.selectors, inOrder]
  | expr => simpa [isKind] using below
  | subLink => simpa [isKind] using below
  | query hasAggs setOperations groupClause => simpa [isKind] using below

theorem nodup_place_findVarsSublevelsUp (memory : Memory) (query : Subselect) :
    ((query.findVarsSublevelsUp memory).map CorrVarInfo.place).Nodup := by
  refine List.Nodup.map_on ?_ ?_
  · intro left isLeft right isRight samePlace
    rcases mem_findVarsSublevelsUp.1 isLeft with ⟨_, _, _, leftVar, -, -, rfl⟩
    rcases mem_findVarsSublevelsUp.1 isRight with ⟨_, _, _, rightVar, -, -, rfl⟩
    dsimp only [Context.makeCorrVar] at samePlace
    subst samePlace
    rcases leftVar.unique rightVar with ⟨rfl, rfl⟩
    rfl
  · rw [Subselect.findVarsSublevelsUp, walkChildren_eq_visit]
    exact nodup_children query.analyzed
      (fun entry member => nodup_findSublevelsUpVarWalker memory entry.2
        (Tree.check_of_entry query.analyzed member).2) _ _

/-! ## The classification -/

theorem category_eq_uncorrelated_iff (memory : Memory) (query : Subselect) :
    query.category memory = .uncorrelated ↔ query.findVarsSublevelsUp memory = [] := by
  unfold Subselect.category
  dsimp only
  split_ifs with isEmpty <;> simp_all

/-- The levels counted for a variable that refers to the outside. -/
theorem trueVarLevelsUp_eq_iff {memory : Memory} {query : Subselect} {position : Position}
    {steps : List (Kind × Field)} {ref : Var} (isVar : VarAt query.root position steps ref)
    (outside : RefersOutside steps ref) :
    ((query.contextAt memory steps position).makeCorrVar ref
        position).trueVarLevelsUp = sublinksAround steps ↔
      ¬ InTest steps := by
  have accepted := accepted_of_varAt query.analyzed isVar
  rcases Subselect.exists_first_step isVar with ⟨index, rest, field, further, rfl, rfl⟩
  have isQuery := query.isQuery
  have levels : (query.contextAt memory ((query.root.kind, field) :: further)
      (index :: rest)).varlevelsUp = further.countP fun step => step.1.isQuery := by
    simp [Subselect.contextAt, (Context.levels_follow _ _ _ _ _).1, Context.same_inClause,
      initialContext]
  have sublinks : (query.contextAt memory ((query.root.kind, field) :: further)
      (index :: rest)).realLevelsUp.length = 1 + further.countP fun step => step.1 = .subLink := by
    simp [Subselect.contextAt, (Context.levels_follow _ _ _ _ _).2, Context.same_inClause,
      initialContext]
  have isAbove : (query.contextAt memory ((query.root.kind, field) :: further)
      (index :: rest)).varlevelsUp < ref.varlevelsup := by
    rw [levels]
    simp only [RefersOutside, List.countP_cons, isQuery, if_true] at outside
    omega
  have notSubLink : query.root.kind ≠ .subLink := by
    intro isSubLink
    rw [isSubLink] at isQuery
    exact nomatch isQuery
  have counted := countP_subLink accepted
  rw [List.countP_cons_of_neg (by simpa using notSubLink)] at counted
  rw [Context.trueVarLevelsUp_makeCorrVar isAbove, sublinks, sublinksAround, counted]
  simp only [Nat.add_left_cancel_iff, Nat.add_eq_left, List.countP_eq_zero,
    decide_eq_true_eq, InTest, not_exists, not_and]

theorem VarAt.length_eq {ref : Var} :
    ∀ {position : Position} {root : Node} {steps : List (Kind × Field)},
      VarAt root position steps ref → position.length = steps.length
  | [], _, _, isVar => congrArg List.length (varAt_nil_iff.1 isVar).1.symm
  | index :: rest, _, _, isVar => by
    rcases varAt_cons_iff.1 isVar with ⟨entry, further, -, inChild, rfl⟩
    rw [List.length_cons, List.length_cons, inChild.length_eq]

/-- The flags recorded for a variable are those that the memory gives. -/
theorem flags_contextAt_iff {memory : Memory} {query : Subselect} {position : Position}
    {steps : List (Kind × Field)} {ref : Var} (isVar : VarAt query.root position steps ref) :
    (query.contextAt memory steps position).flags = flagsAround steps ↔
      MemoryFits memory position steps := by
  have sameLength := isVar.length_eq
  rcases Subselect.exists_first_step isVar with ⟨index, rest, first, further, rfl, rfl⟩
  have initial : (initialContext query.root.kind).flags =
      ⟨query.root.kind.hasAggs, query.root.kind.setOperations⟩ := rfl
  rcases queries_or_split further with
    areQueries | ⟨above, kind, field, queries, rfl, notQuery, areQueries⟩
  · refine iff_of_true ?_ ?_
    · rw [Subselect.contextAt, Context.flags_follow_queries memory areQueries,
        (Context.same_inClause _ _ _ _).2.2, flagsAround_cons, initial]
    · rintro above kind field queries isSteps notQuery -
      have all : ∀ step ∈ (query.root.kind, first) :: further, step.1.isQuery = true :=
        List.forall_mem_cons.2 ⟨query.isQuery, areQueries⟩
      exact nomatch notQuery.symm.trans (all (kind, field) (by simp [isSteps]))
  · have long : above.length ≤ rest.length := by
      simp only [List.length_cons, List.length_append] at sameLength
      omega
    have flags : (query.contextAt memory
        ((query.root.kind, first) :: (above ++ (kind, field) :: queries)) (index :: rest)).flags =
          (memory ((index :: rest).take (above.length + 1))).or (flagsAround queries) := by
      rw [Subselect.contextAt, List.headD_cons, List.tail_cons,
        Context.follow_append _ _ _ _ _ _ long, Context.follow,
        Context.flags_follow_queries memory areQueries, (Context.same_inClause _ _ _ _).2.2]
      cases kind with
      | query hasAggs setOperations groupClause => exact nomatch notQuery
      | _ => rfl
    rw [flags]
    constructor
    · intro same above' kind' field' queries' isSteps notQuery' areQueries'
      have twoSplits : ((query.root.kind, first) :: above) ++ (kind, field) :: queries =
          above' ++ (kind', field') :: queries' := isSteps
      obtain ⟨rfl, rfl⟩ := split_unique twoSplits notQuery areQueries notQuery' areQueries'
      exact same
    · intro fits
      exact fits ((query.root.kind, first) :: above) kind field queries rfl notQuery areQueries

/--
The classification is exact if and only if every variable that refers to
the outside is not in LIMIT or OFFSET and not in the test of a nested
sublink, the memory of the nearest node around it that is no query gives the
right flags, and every other variable that is walked refers to its own query
level.
-/
theorem Subselect.classifiedExactly_iff (memory : Memory) (query : Subselect) :
    query.ClassifiedExactly memory ↔
      (∀ position steps ref, VarAt query.root position steps ref →
        RefersOutside steps ref →
        ¬ BelowLimit steps ∧ ¬ InTest steps ∧ MemoryFits memory position steps) ∧
      ∀ position steps ref, VarAt query.root position steps ref →
        ¬ RefersOutside steps ref → ¬ BelowLimit steps → ref.varlevelsup = 0 := by
  have walked : ∀ {position steps ref}, VarAt query.root position steps ref →
      (Walked steps ↔ ¬ BelowLimit steps) := fun isVar =>
    walked_iff_not_belowLimit (accepted_of_varAt query.analyzed isVar)
  have isUp : ∀ {position steps ref}, VarAt query.root position steps ref →
      RefersOutside steps ref → 0 < ref.varlevelsup := by
    intro position steps ref isVar outside
    rcases Subselect.exists_first_step isVar with ⟨index, rest, field, further, rfl, rfl⟩
    simp only [RefersOutside, List.countP_cons, query.isQuery, if_true] at outside
    omega
  constructor
  · rintro ⟨-, exact, described, -⟩
    constructor
    · intro position steps ref isVar outside
      rcases (exact position ref).2 ⟨steps, isVar, outside⟩ with ⟨info, recorded, rfl, rfl⟩
      rcases mem_findVarsSublevelsUp.1 recorded
        with ⟨place, ownSteps, ownRef, ownVar, ownWalked, -, rfl⟩
      rcases isVar.unique ownVar with ⟨rfl, -⟩
      have right := described _ recorded steps isVar
      exact ⟨(walked ownVar).1 ownWalked,
        (trueVarLevelsUp_eq_iff ownVar outside).1 right.1, (flags_contextAt_iff ownVar).1 right.2⟩
    · intro position steps ref isVar inside notBelow
      by_contra isUp
      have recorded : (query.contextAt memory steps position).makeCorrVar ref position ∈
          query.findVarsSublevelsUp memory :=
        mem_findVarsSublevelsUp.2 ⟨position, steps, ref, isVar,
          (walked isVar).2 notBelow, Nat.pos_of_ne_zero isUp, rfl⟩
      rcases (exact position ref).1 ⟨_, recorded, rfl, rfl⟩ with ⟨ownSteps, ownVar, outside⟩
      rcases isVar.unique ownVar with ⟨rfl, -⟩
      exact inside outside
  · rintro ⟨outsideRight, insideRight⟩
    have recorded_iff : ∀ position ref,
        (∃ info ∈ query.findVarsSublevelsUp memory, info.place = position ∧ info.corrVar = ref) ↔
        ∃ steps, VarAt query.root position steps ref ∧ RefersOutside steps ref := by
      intro position ref
      constructor
      · rintro ⟨info, recorded, rfl, rfl⟩
        rcases mem_findVarsSublevelsUp.1 recorded
          with ⟨place, steps, ref, isVar, isWalked, isUp, rfl⟩
        refine ⟨steps, isVar, ?_⟩
        by_contra inside
        have := insideRight _ _ _ isVar inside ((walked isVar).1 isWalked)
        omega
      · rintro ⟨steps, isVar, outside⟩
        exact ⟨_, mem_findVarsSublevelsUp.2 ⟨position, steps, ref, isVar,
          (walked isVar).2 (outsideRight _ _ _ isVar outside).1, isUp isVar outside, rfl⟩,
          rfl, rfl⟩
    refine ⟨nodup_place_findVarsSublevelsUp memory query, recorded_iff, ?_, ?_⟩
    · intro info recorded steps isVar
      rcases (recorded_iff _ _).1 ⟨info, recorded, rfl, rfl⟩ with ⟨ownSteps, ownVar, outside⟩
      rcases isVar.unique ownVar with ⟨rfl, -⟩
      rcases mem_findVarsSublevelsUp.1 recorded
        with ⟨place, otherSteps, ref, otherVar, -, -, rfl⟩
      rcases isVar.unique otherVar with ⟨rfl, -⟩
      rcases outsideRight _ _ _ isVar outside with ⟨-, notInTest, fits⟩
      exact ⟨(trueVarLevelsUp_eq_iff otherVar outside).2 notInTest,
        (flags_contextAt_iff otherVar).2 fits⟩
    · rw [category_eq_uncorrelated_iff, List.eq_nil_iff_forall_not_mem]
      constructor
      · rintro none ⟨position, steps, ref, isVar, outside⟩
        rcases (recorded_iff position ref).2 ⟨steps, isVar, outside⟩ with ⟨info, recorded, -⟩
        exact none info recorded
      · intro none info recorded
        rcases (recorded_iff _ _).1 ⟨info, recorded, rfl, rfl⟩ with ⟨steps, isVar, outside⟩
        exact none ⟨_, _, _, isVar, outside⟩

/--
`SELECT 1 FROM s WHERE EXISTS (SELECT 1 FROM t WHERE t.a = s.a)`: the
variable of the inner query refers to the entry of the outer one.
-/
def nestedExists : Subselect where
  root := .node (.query false false [])
    (.cons .jointree (.node .expr
      (.cons .arg (.node .subLink
        (.cons .subselect (.node (.query false false [])
          (.cons .jointree (.node .expr
            (.cons .arg (.node .expr
              (.cons .arg (.node (.var { varno := 1, varattno := 1 }) .nil)
              (.cons .arg (.node (.var
                { varlevelsup := 1, varno := 1, varattno := 1 }) .nil) .nil)))
              .nil)) .nil)) .nil)) .nil)) .nil)
  isQuery := rfl
  analyzed := by decide

/-- The sublink over the query is not correlated, but the variable is recorded. -/
theorem not_classifiedExactly_nestedExists :
    ¬ ∃ memory, nestedExists.ClassifiedExactly memory := by
  rintro ⟨memory, -, exact, -⟩
  have isVar : VarAt nestedExists.root [0, 0, 0, 0, 0, 1]
      [(.query false false [], .jointree), (.expr, .arg), (.subLink, .subselect),
        (.query false false [], .jointree), (.expr, .arg), (.expr, .arg)]
      { varlevelsup := 1, varno := 1, varattno := 1 } := ⟨_, rfl, rfl⟩
  have walked := (walked_iff_not_belowLimit
    (accepted_of_varAt nestedExists.analyzed isVar)).2 (by simp [BelowLimit])
  rcases (exact _ _).1 ⟨_, mem_findVarsSublevelsUp.2 ⟨_, _, _, isVar, walked,
    Nat.one_pos, rfl⟩, rfl, rfl⟩ with ⟨steps, ownVar, outside⟩
  rcases isVar.unique ownVar with ⟨rfl, -⟩
  simp [RefersOutside, Kind.isQuery, Context.makeCorrVar] at outside

end Ldv.Sublink.Correlation
