import Mathlib.Data.List.Dedup
import Mathlib.Data.List.Sort
import Ldv.Sql.Syntax
import Ldv.Library.Lifting

/-!
# Meaning of query trees

A query denotes a list of rows over an `Instance`: the contents of the base
relations together with the meaning of the operator, aggregate and function
symbols.  Rows carry the values of all target entries, junk entries
included, so that a `Var` of an outer query reads a subquery column by its
`resno`.

The executor is free to produce rows in any order.  This is the field
`order` of an instance, an arbitrary permutation applied to the rows of
every query node before its ORDER BY; nothing proved here may depend on it.
DISTINCT removes rows which equal their predecessor on the distinct columns,
as the executor's unique step does.
-/

namespace Ldv.Sql

open Relational

/-- Values of the columns in scope, by range-table position and number. -/
abbrev Lookup := Nat → Nat → Datum

/-- Contents of a database and meaning of the symbols of a query. -/
structure Instance where
  table : Oid → List Row
  op : Oid → List Datum → Datum
  agg : Oid → List (List Datum) → Datum
  func : Oid → List Row
  sortLe : SortClause → Datum → Datum → Bool
  sortLe_total :
    ∀ clause left right, sortLe clause left right = true ∨ sortLe clause right left = true
  sortLe_trans :
    ∀ clause left middle right,
      sortLe clause left middle = true →
      sortLe clause middle right = true →
      sortLe clause left right = true
  order : List Row → List Row
  order_perm : ∀ rows, (order rows).Perm rows

/-! ## Expressions -/

/-- Value of a CASE whose conditions and results have been evaluated. -/
def chooseCase (defresult : Datum) : List Datum → List Datum → Datum
  | cond :: conds, result :: results =>
    if cond.isTrue then result else chooseCase defresult conds results
  | _, _ => defresult

def chooseCoalesce : List Datum → Datum
  | [] => .null
  | value :: rest =>
    if value = .null then chooseCoalesce rest else value

def evalBoolExpr : BoolExprType → List Datum → Datum
  | .and, values => values.foldr Datum.sqlAnd (.bool true)
  | .or, values => values.foldr Datum.sqlOr (.bool false)
  | .not, values => Datum.sqlNot (values.headD .null)

mutual

/--
Value of an expression.  Column references are resolved by `lookup`;
aggregate functions range over the rows of `group`.
-/
def Expr.eval (inst : Instance) (lookup : Lookup) (group : List Lookup) :
    Expr → Datum
  | .var varno varattno _ => lookup varno varattno
  | .const _ value => value
  | .opExpr opno _ args =>
    inst.op opno (Expr.evalList inst lookup group args)
  | .distinctExpr left right =>
    Datum.distinct (left.eval inst lookup group) (right.eval inst lookup group)
  | .boolExpr boolop args =>
    evalBoolExpr boolop (Expr.evalList inst lookup group args)
  | .caseExpr _ conds results defresult =>
    chooseCase (defresult.eval inst lookup group)
      (Expr.evalList inst lookup group conds)
      (Expr.evalList inst lookup group results)
  | .coalesceExpr _ args =>
    chooseCoalesce (Expr.evalList inst lookup group args)
  | .aggref aggfnoid _ args aggdistinct =>
    let values := group.map fun member =>
      Expr.evalList inst member [] args
    inst.agg aggfnoid (if aggdistinct then values.dedup else values)

def Expr.evalList (inst : Instance) (lookup : Lookup)
    (group : List Lookup) :
    List Expr → List Datum
  | [] => []
  | expr :: rest =>
    expr.eval inst lookup group :: Expr.evalList inst lookup group rest

end

theorem Expr.evalList_eq_map (inst : Instance) (lookup : Lookup) (group : List Lookup)
    (exprs : List Expr) :
    Expr.evalList inst lookup group exprs = exprs.map (Expr.eval inst lookup group) := by
  induction exprs with
  | nil => rfl
  | cons expr rest ih =>
    simp [Expr.evalList, ih]

/-- Two lookups give the same values to some column references. -/
def Agree (refs : List VarRef) (left right : Lookup) : Prop :=
  ∀ ref ∈ refs, left ref.varno ref.varattno = right ref.varno ref.varattno

theorem Agree.mono {refs refs' : List VarRef} {left right : Lookup} (agree : Agree refs left right)
    (subset : refs' ⊆ refs) :
    Agree refs' left right :=
  fun ref member => agree ref (subset member)

/-- Does a WHERE, ON or HAVING condition accept the row? -/
def passes (inst : Instance) (lookup : Lookup) (group : List Lookup) :
    Option Expr → Bool
  | none => true
  | some quals => (quals.eval inst lookup group).isTrue

/-- Column references of an optional condition. -/
def qualVars : Option Expr → List VarRef
  | none => []
  | some quals => quals.vars

/-! ## Join trees -/

/-- The row each range-table entry contributes to a combination. -/
abbrev Env := Nat → Option Row

namespace Env

def empty : Env := fun _ => none

def single (rtindex : Nat) (row : Row) : Env :=
  fun i => if i = rtindex then some row else none

def merge (left right : Env) : Env := fun i => (left i).or (right i)

def set (env : Env) (rtindex : Nat) (row : Row) : Env :=
  fun i => if i = rtindex then some row else env i

/-- Entries without a row were null-extended by an outer join. -/
def lookup (env : Env) : Lookup :=
  fun varno varattno =>
    match env varno with
    | some row => row.column varattno
    | none => .null

end Env

namespace JoinType

def keepsLeft : JoinType → Bool
  | .left | .full => true
  | .inner | .right => false

def keepsRight : JoinType → Bool
  | .right | .full => true
  | .inner | .left => false

end JoinType

/-- Gives a join entry its row, the values of its alias expressions. -/
def Env.setJoin (inst : Instance) (aliasvars : List Expr) (rtindex : Nat) (env : Env) :
    Env :=
  env.set rtindex (aliasvars.map (Expr.eval inst env.lookup []))

/-- All row combinations of a FROM item. -/
def JoinTreeNode.eval (inst : Instance) (aliasvars : Nat → List Expr) (input : Nat → List Row) :
    JoinTreeNode → List Env
  | .rangeTblRef rtindex => (input rtindex).map (Env.single rtindex)
  | .joinExpr jointype rtindex larg rarg quals =>
    (joinWith jointype.keepsLeft jointype.keepsRight
      (fun left right => passes inst (left.merge right).lookup [] quals)
      Env.merge id id
      (larg.eval inst aliasvars input)
      (rarg.eval inst aliasvars input)).map (Env.setJoin inst (aliasvars rtindex) rtindex)

/-- All row combinations of a FROM clause. -/
def evalFromlist (inst : Instance) (aliasvars : Nat → List Expr) (input : Nat → List Row) :
    List JoinTreeNode → List Env
  | [] => [Env.empty]
  | item :: rest =>
    crossWith Env.merge (item.eval inst aliasvars input) (evalFromlist inst aliasvars input rest)

/-! ## Query nodes -/

/-- Values of all target entries. -/
def targetRow (inst : Instance) (lookup : Lookup) (group : List Lookup)
    (targetList : List TargetEntry) :
    Row :=
  targetList.map fun te => te.expr.eval inst lookup group

/-- Values of the grouping expressions on one row combination. -/
def Query.groupKey (inst : Instance) (query : Query) (env : Env) : Row :=
  query.groupClause.map fun clause =>
    match targetForRef query.targetList clause.tleSortGroupRef with
    | some te => te.expr.eval inst env.lookup []
    | none => .null

/-- Does the node form groups? -/
def Query.isGrouped (query : Query) : Bool :=
  query.hasAggs || !query.groupClause.isEmpty || query.havingQual.isSome

/-- The groups of a node; without GROUP BY there is exactly one. -/
def Query.groups (inst : Instance) (query : Query) (envs : List Env) :
    List (List Env) :=
  if query.groupClause.isEmpty then
    [envs]
  else
    (envs.map (query.groupKey inst)).dedup.map fun key =>
      envs.filter fun env => query.groupKey inst env = key

/-- Columns outside of aggregates are read from any row of the group. -/
def groupLookup (group : List Env) : Lookup := (group.headD Env.empty).lookup

/-- Row combinations of FROM and WHERE. -/
def Query.combinations (inst : Instance) (query : Query) (aliasvars : Nat → List Expr)
    (input : Nat → List Row) :
    List Env :=
  (evalFromlist inst aliasvars input query.fromlist).filter fun env =>
    passes inst env.lookup [] query.quals

/-- The groups HAVING lets through. -/
def Query.survivingGroups (inst : Instance) (query : Query) (envs : List Env) :
    List (List Env) :=
  (query.groups inst envs).filter fun group =>
    passes inst (groupLookup group) (group.map Env.lookup) query.havingQual

/-- Target rows of a node which is not a set operation. -/
def Query.selectRows (inst : Instance) (query : Query) (envs : List Env) :
    List Row :=
  if query.isGrouped then
    (query.survivingGroups inst envs).map fun group =>
      targetRow inst (groupLookup group) (group.map Env.lookup) query.targetList
  else
    envs.map fun env => targetRow inst env.lookup [] query.targetList

/-- UNION, INTERSECT and EXCEPT on lists of rows. -/
def combineRows :
    SetOperation → Bool → List Row → List Row → List Row
  | .union, true, left, right => left ++ right
  | .union, false, left, right => (left ++ right).dedup
  | .intersect, true, left, right => left.bagInter right
  | .intersect, false, left, right =>
    (left.filter fun row => row ∈ right).dedup
  | .except, true, left, right => left.diff right
  | .except, false, left, right =>
    (left.filter fun row => row ∉ right).dedup

/-- Rows of a set-operation tree over inputs with `width` columns. -/
def SetOpNode.eval (width : Nat) (input : Nat → List Row) :
    SetOpNode → List Row
  | .rangeTblRef rtindex => (input rtindex).map fun row => row.take width
  | .setOperationStmt op all _ larg rarg =>
    combineRows op all (larg.eval width input) (rarg.eval width input)

/-! ## ORDER BY, DISTINCT and LIMIT -/

/-- The column a sort, group or distinct item refers to. -/
def columnForRef (targetList : List TargetEntry) (ref : Nat) (row : Row) :
    Datum :=
  match targetList.findIdx? fun te => te.ressortgroupref == ref with
  | some position => row.getD position .null
  | none => .null

/-- Lexicographic comparison by the items of an ORDER BY clause. -/
def rowLe (inst : Instance) (targetList : List TargetEntry) :
    List SortClause → Row → Row → Bool
  | [], _, _ => true
  | clause :: rest, left, right =>
    let leftKey := columnForRef targetList clause.tleSortGroupRef left
    let rightKey := columnForRef targetList clause.tleSortGroupRef right
    inst.sortLe clause leftKey rightKey &&
      (!inst.sortLe clause rightKey leftKey || rowLe inst targetList rest left right)

def sortRows (inst : Instance) (query : Query) (rows : List Row) :
    List Row :=
  rows.insertionSort fun left right =>
    rowLe inst query.targetList query.sortClause left right = true

/-- The values DISTINCT compares. -/
def Query.distinctKey (query : Query) (row : Row) : Row :=
  query.distinctClause.map fun clause =>
    columnForRef query.targetList clause.tleSortGroupRef row

/-- Drops rows with the key of the row kept before them. -/
def uniqueAfter (key : Row → Row) (previous : Row) :
    List Row → List Row
  | [] => []
  | row :: rest =>
    if key row = key previous then
      uniqueAfter key previous rest
    else
      row :: uniqueAfter key row rest

def uniqueRows (query : Query) (rows : List Row) : List Row :=
  if query.distinctClause.isEmpty then
    rows
  else
    match rows with
    | [] => []
    | row :: rest => row :: uniqueAfter query.distinctKey row rest

def offsetRows : Option (Option Nat) → List Row → List Row
  | some (some offset), rows => rows.drop offset
  | _, rows => rows

def countRows : Option (Option Nat) → List Row → List Row
  | some (some count), rows => rows.take count
  | _, rows => rows

def limitRows (query : Query) (rows : List Row) : List Row :=
  countRows query.limitCount (offsetRows query.limitOffset rows)

/-! ## Queries -/

/-- Rows of a node before ORDER BY, DISTINCT and LIMIT. -/
def Query.plainRows (inst : Instance) (query : Query) (input : Nat → List Row) :
    List Row :=
  match query.setOperations with
  | some tree => tree.eval query.targetList.length input
  | none =>
    query.selectRows inst (query.combinations inst (aliasvarsAt query.rtable) input)

/-- Rows of a node, given the rows of its range-table entries. -/
def Query.nodeRows (inst : Instance) (query : Query) (input : Nat → List Row) :
    List Row :=
  limitRows query (uniqueRows query (sortRows inst query (inst.order (query.plainRows inst input))))

mutual

/-- Rows of a query. -/
def Query.eval (inst : Instance) (query : Query) : List Row :=
  match query with
  | { rtable := rtable, .. } =>
    query.nodeRows inst fun rtindex =>
      (rtFetch (Query.evalRtable inst rtable) rtindex).getD []

def Query.evalRtable (inst : Instance) :
    List (RangeTblEntry Query) → List (List Row)
  | [] => []
  | rte :: rest => Query.evalRTE inst rte :: Query.evalRtable inst rest

/-- Rows of a range-table entry; a join entry has none of its own. -/
def Query.evalRTE (inst : Instance) : RangeTblEntry Query → List Row
  | { kind := .relation relid, .. } => inst.table relid
  | { kind := .subquery query, .. } => query.eval inst
  | { kind := .join _ _, .. } => []
  | { kind := .function funcid _, .. } => inst.func funcid
  | { kind := .values lists, .. } =>
    lists.map (Expr.evalList inst Env.empty.lookup [])

end

/-- Rows of the range-table entries of a query. -/
def inputRows (inst : Instance) (rtable : List RTE) (rtindex : Nat) :
    List Row :=
  match rtFetch rtable rtindex with
  | some rte => Query.evalRTE inst rte
  | none => []

theorem Query.evalRtable_eq_map (inst : Instance) (rtable : List RTE) :
    Query.evalRtable inst rtable = rtable.map (Query.evalRTE inst) := by
  induction rtable with
  | nil => rfl
  | cons rte rest ih =>
    simp [Query.evalRtable, ih]

/-- A query is evaluated from the rows of its range-table entries. -/
theorem Query.eval_eq_nodeRows (inst : Instance) (query : Query) :
    query.eval inst = query.nodeRows inst (inputRows inst query.rtable) := by
  have inputs :
      (fun rtindex =>
        (rtFetch (Query.evalRtable inst query.rtable) rtindex).getD []) =
        inputRows inst query.rtable := by
    funext rtindex
    rw [Query.evalRtable_eq_map, rtFetch_map, inputRows]
    cases rtFetch query.rtable rtindex <;> rfl
  rw [← inputs]
  cases query
  rfl

/-- Number of columns a client sees. -/
def Query.visibleCount (query : Query) : Nat :=
  (query.targetList.filter fun te => !te.resjunk).length

/-!
## Congruence of query evaluation

Two evaluations of the same FROM clause over inputs that agree on the
columns in use give row combinations that agree on these columns.  The
statement holds for any `Lifting`, so it covers comparisons with and without
multiplicities.

The second evaluation may know more columns than the first: rows may be
longer, and join entries may have further alias columns behind the ones they
share.
-/

/-! ## Expressions -/

mutual

/-- The value of an expression depends only on the columns it mentions. -/
theorem Expr.eval_congr (inst : Instance) {lookup lookup' : Lookup} (group : List Lookup) :
    (expr : Expr) →
    Agree expr.vars lookup lookup' →
    expr.eval inst lookup group = expr.eval inst lookup' group
  | .var varno varattno vartype, agree =>
    agree ⟨varno, varattno, vartype⟩ (by simp [Expr.vars])
  | .const _ _, _ => rfl
  | .opExpr _ _ args, agree => by
    simp only [Expr.eval]
    rw [Expr.evalList_congr inst group args agree]
  | .distinctExpr left right, agree => by
    simp only [Expr.eval]
    rw [Expr.eval_congr inst group left
        (agree.mono (by simp [Expr.vars])),
      Expr.eval_congr inst group right (agree.mono (by simp [Expr.vars]))]
  | .boolExpr _ args, agree => by
    simp only [Expr.eval]
    rw [Expr.evalList_congr inst group args agree]
  | .caseExpr _ conds results defresult, agree => by
    simp only [Expr.eval]
    rw [Expr.eval_congr inst group defresult
        (agree.mono (by simp [Expr.vars])),
      Expr.evalList_congr inst group conds (agree.mono (by simp [Expr.vars])),
      Expr.evalList_congr inst group results
        (agree.mono (by
          intro ref member
          simp [Expr.vars, member]))]
  | .coalesceExpr _ args, agree => by
    simp only [Expr.eval]
    rw [Expr.evalList_congr inst group args agree]
  | .aggref _ _ _ _, _ => rfl

theorem Expr.evalList_congr (inst : Instance) {lookup lookup' : Lookup} (group : List Lookup) :
    (exprs : List Expr) →
    Agree (Expr.varsList exprs) lookup lookup' →
    Expr.evalList inst lookup group exprs = Expr.evalList inst lookup' group exprs
  | [], _ => rfl
  | expr :: rest, agree => by
    simp only [Expr.evalList]
    rw [Expr.eval_congr inst group expr
        (agree.mono (by simp [Expr.varsList])),
      Expr.evalList_congr inst group rest (agree.mono (by simp [Expr.varsList]))]

end

theorem Expr.mem_varsList {exprs : List Expr} {ref : VarRef} :
    ref ∈ Expr.varsList exprs ↔ ∃ expr ∈ exprs, ref ∈ expr.vars := by
  induction exprs with
  | nil => simp [Expr.varsList]
  | cons expr rest ih =>
    simp [Expr.varsList, ih]

theorem passes_congr (inst : Instance) {lookup lookup' : Lookup} (group : List Lookup)
    {quals : Option Expr} (agree : Agree (qualVars quals) lookup lookup') :
    passes inst lookup group quals = passes inst lookup' group quals := by
  cases quals with
  | none => rfl
  | some expr => simp only [passes, Expr.eval_congr inst group expr agree]

/-! ## Rows and row combinations -/

/-- The rows agree on their first `width` columns. -/
def RowSim (width : Nat) (left right : Row) : Prop :=
  left.take width = right.take width

theorem RowSim.column_eq {width attno : Nat} {left right : Row} (similar : RowSim width left right)
    (positive : 1 ≤ attno) (bounded : attno ≤ width) :
    left.column attno = right.column attno := by
  have inside : attno - 1 < width := by omega
  have values := congrArg (fun row : Row => row[attno - 1]?) similar
  simp only [List.getElem?_take, inside, if_true] at values
  simp [Row.column, List.getD_eq_getElem?_getD, values]

theorem RowSim.mono {width width' : Nat} {left right : Row} (similar : RowSim width left right)
    (smaller : width' ≤ width) :
    RowSim width' left right := by
  have shortened := congrArg (List.take width') similar
  rwa [List.take_take, List.take_take, Nat.min_eq_left smaller] at shortened

/-- The rows agree on a set of columns. -/
def ColSim (cols : Nat → Prop) (left right : Row) : Prop :=
  ∀ attno, cols attno → left.column attno = right.column attno

/-- The first `width` columns. -/
def FirstColumns (width attno : Nat) : Prop := 1 ≤ attno ∧ attno ≤ width

theorem RowSim.colSim {width : Nat} {left right : Row} (similar : RowSim width left right) :
    ColSim (FirstColumns width) left right :=
  fun _ inside => similar.column_eq inside.1 inside.2

/-- Optional rows are both absent or agree on a set of columns. -/
def OptionColSim (cols : Nat → Prop) : Option Row → Option Row → Prop
  | none, none => True
  | some left, some right => ColSim cols left right
  | _, _ => False

/-- The combinations agree on a set of columns of every entry. -/
def EnvSim (cols : Nat → Nat → Prop) (left right : Env) : Prop :=
  ∀ rtindex, OptionColSim (cols rtindex) (left rtindex) (right rtindex)

/-- All references are to columns on which combinations agree. -/
def RefsIn (cols : Nat → Nat → Prop) (refs : List VarRef) : Prop :=
  ∀ ref ∈ refs, cols ref.varno ref.varattno

namespace EnvSim

variable
  {cols : Nat → Nat → Prop}
  {left right left' right' : Env}

theorem agree (similar : EnvSim cols left right) {refs : List VarRef} (inside : RefsIn cols refs) :
    Agree refs left.lookup right.lookup := by
  intro ref member
  have rows := similar ref.varno
  unfold Env.lookup
  cases leftRow : left ref.varno <;> cases rightRow : right ref.varno <;>
    simp only [leftRow, rightRow, OptionColSim] at rows ⊢
  exact rows ref.varattno (inside ref member)

theorem empty : EnvSim cols Env.empty Env.empty := fun _ => trivial

theorem single {rtindex : Nat} {row row' : Row} (similar : ColSim (cols rtindex) row row') :
    EnvSim cols (Env.single rtindex row) (Env.single rtindex row') := by
  intro i
  unfold Env.single
  by_cases same : i = rtindex
  · subst same
    simpa [OptionColSim] using similar
  · simp [same, OptionColSim]

theorem merge (similar : EnvSim cols left right) (similar' : EnvSim cols left' right') :
    EnvSim cols (left.merge left') (right.merge right') := by
  intro i
  have first := similar i
  have second := similar' i
  unfold Env.merge
  cases leftRow : left i <;> cases rightRow : right i <;>
    rw [leftRow, rightRow] at first
  · simpa using second
  · exact first.elim
  · exact first.elim
  · exact first

theorem set (similar : EnvSim cols left right) {rtindex : Nat} {row row' : Row}
    (rows : ColSim (cols rtindex) row row') :
    EnvSim cols (left.set rtindex row) (right.set rtindex row') := by
  intro i
  unfold Env.set
  by_cases same : i = rtindex
  · subst same
    simpa [OptionColSim] using rows
  · simpa [same] using similar i

end EnvSim

/-! ## FROM clauses -/

/--
The conditions and the alias columns of a FROM item mention only columns of
a set.
-/
def JoinTreeNode.Scoped (cols : Nat → Nat → Prop)
    (aliasvars : Nat → List Expr) :
    JoinTreeNode → Prop
  | .rangeTblRef _ => True
  | .joinExpr _ rtindex larg rarg quals =>
    larg.Scoped cols aliasvars ∧ rarg.Scoped cols aliasvars ∧
      RefsIn cols (qualVars quals) ∧
      RefsIn cols (Expr.varsList (aliasvars rtindex))

/-- A set of columns has only alias columns of joins. -/
def AliasBounded (cols : Nat → Nat → Prop) (aliasvars : Nat → List Expr)
    (joins : List Nat) :
    Prop :=
  ∀ join ∈ joins, ∀ attno, cols join attno → FirstColumns (aliasvars join).length attno

section Lifted

variable
  (lift : Lifting)
  (inst : Instance)
  {cols : Nat → Nat → Prop}
  {aliasvars aliasvars' : Nat → List Expr}
  {input input' : Nat → List Row}

theorem EnvSim.setJoin {left right : Env} {rtindex : Nat} {shared extended : List Expr}
    (similar : EnvSim cols left right) (inside : RefsIn cols (Expr.varsList shared))
    (bounded : ∀ attno, cols rtindex attno → FirstColumns shared.length attno)
    (aliasExtend : shared <+: extended) :
    EnvSim cols (left.setJoin inst shared rtindex) (right.setJoin inst extended rtindex) := by
  rcases aliasExtend with ⟨extra, rfl⟩
  apply similar.set
  have values :
      shared.map (Expr.eval inst left.lookup []) = shared.map (Expr.eval inst right.lookup []) := by
    apply List.map_congr_left
    intro expr member
    apply Expr.eval_congr
    apply similar.agree
    intro ref refMember
    exact inside ref (Expr.mem_varsList.2 ⟨expr, member, refMember⟩)
  have rows :
      RowSim shared.length (shared.map (Expr.eval inst left.lookup []))
        ((shared ++ extra).map (Expr.eval inst right.lookup [])) := by
    rw [RowSim, values, List.map_append, List.take_append_of_le_length (by simp)]
  exact fun attno inCols => rows.colSim attno (bounded attno inCols)

/-- Similar inputs give similar combinations of a FROM item. -/
theorem JoinTreeNode.eval_lift (aliasExtend : ∀ rtindex, aliasvars rtindex <+: aliasvars' rtindex)
    (node : JoinTreeNode) (inScope : node.Scoped cols aliasvars)
    (bounded : AliasBounded cols aliasvars node.joins)
    (inputs :
      ∀ rtindex ∈ node.leaves,
        lift.rel (ColSim (cols rtindex)) (input rtindex)
          (input' rtindex)) :
    lift.rel (EnvSim cols) (node.eval inst aliasvars input) (node.eval inst aliasvars' input') := by
  induction node with
  | rangeTblRef rtindex =>
    exact lift.map (inputs rtindex (by simp [JoinTreeNode.leaves]))
      fun _ _ _ _ similar => EnvSim.single similar
  | joinExpr jointype rtindex larg rarg quals leftIH rightIH =>
    rcases inScope with
      ⟨leftScoped, rightScoped, qualsInside, aliasInside⟩
    have leftRelated := leftIH leftScoped
      (fun join member => bounded join (by simp [JoinTreeNode.joins, member]))
      (fun i member => inputs i (by simp [JoinTreeNode.leaves, member]))
    have rightRelated := rightIH rightScoped
      (fun join member => bounded join (by simp [JoinTreeNode.joins, member]))
      (fun i member => inputs i (by simp [JoinTreeNode.leaves, member]))
    refine lift.map
      (lift.join jointype.keepsLeft jointype.keepsRight leftRelated rightRelated ?_ ?_ ?_ ?_)
      fun _ _ _ _ similar =>
        EnvSim.setJoin inst similar aliasInside (bounded rtindex (by simp [JoinTreeNode.joins]))
          (aliasExtend rtindex)
    · intro a b c d relatedLeft relatedRight
      exact passes_congr inst [] ((relatedLeft.merge relatedRight).agree qualsInside)
    · intro a b c d relatedLeft relatedRight
      exact relatedLeft.merge relatedRight
    · intro a b related
      exact related
    · intro c d related
      exact related

theorem evalFromlist_lift (aliasExtend : ∀ rtindex, aliasvars rtindex <+: aliasvars' rtindex)
    (fromlist : List JoinTreeNode) (inScope : ∀ item ∈ fromlist, item.Scoped cols aliasvars)
    (bounded : ∀ item ∈ fromlist, AliasBounded cols aliasvars item.joins)
    (inputs :
      ∀ item ∈ fromlist, ∀ rtindex ∈ item.leaves,
        lift.rel (ColSim (cols rtindex)) (input rtindex)
          (input' rtindex)) :
    lift.rel (EnvSim cols) (evalFromlist inst aliasvars input fromlist)
      (evalFromlist inst aliasvars' input' fromlist) := by
  induction fromlist with
  | nil =>
    have related := lift.map (S := EnvSim cols) (f := id) (g := id) (lift.ofEq [Env.empty])
      (by
        rintro a aIn b bIn rfl
        rw [List.mem_singleton] at aIn
        subst aIn
        exact EnvSim.empty)
    simpa [evalFromlist] using related
  | cons item rest ih =>
    exact lift.cross
      (JoinTreeNode.eval_lift lift inst aliasExtend item
        (inScope item (by simp)) (bounded item (by simp))
        (inputs item (by simp)))
      (ih (fun item' member => inScope item' (by simp [member]))
        (fun item' member => bounded item' (by simp [member]))
        (fun item' member => inputs item' (by simp [member])))
      fun _ _ _ _ relatedLeft relatedRight =>
        relatedLeft.merge relatedRight

end Lifted

/-!
## Row combinations of FROM items

A combination of a FROM item binds rows to the entries of the item only.
Seen from one input of a join, a combination of the join is a combination of
that input, or binds nothing there because the input was null-extended.
-/

variable {env : Env} {rtindex varno : Nat}

/-! ## Entries of a FROM item -/

theorem JoinTreeNode.rtindex_mem (node : JoinTreeNode) :
    node.rtindex ∈ node.rtindexes := by
  cases node <;> simp [JoinTreeNode.rtindex, JoinTreeNode.rtindexes]

theorem JoinTreeNode.mem_rtindexes (node : JoinTreeNode) (rtindex : Nat) :
    rtindex ∈ node.rtindexes ↔ rtindex ∈ node.leaves ∨ rtindex ∈ node.joins := by
  induction node with
  | rangeTblRef _ => simp [JoinTreeNode.leaves, JoinTreeNode.joins, JoinTreeNode.rtindexes]
  | joinExpr _ _ _ _ _ leftIH rightIH =>
    simp only [JoinTreeNode.rtindexes, JoinTreeNode.leaves, JoinTreeNode.joins,
      List.mem_append, leftIH, rightIH]
    tauto

theorem JoinTreeNode.leaves_subset (node : JoinTreeNode) : node.leaves ⊆ node.rtindexes :=
  fun rtindex member => (node.mem_rtindexes rtindex).2 (.inl member)

theorem JoinTreeNode.joins_subset (node : JoinTreeNode) : node.joins ⊆ node.rtindexes :=
  fun rtindex member => (node.mem_rtindexes rtindex).2 (.inr member)

/-! ## Row combinations of a FROM item -/

/-- A FROM item has rows for its own entries only. -/
theorem JoinTreeNode.eval_eq_none {inst : Instance} {aliasvars : Nat → List Expr}
    {input : Nat → List Row} {node : JoinTreeNode}
    (member : env ∈ node.eval inst aliasvars input)
    (outside : rtindex ∉ node.rtindexes) :
    env rtindex = none := by
  induction node generalizing env with
  | rangeTblRef rtindex' =>
    rcases List.mem_map.1 member with ⟨row, _, rfl⟩
    have different : ¬ rtindex = rtindex' := by
      simpa [JoinTreeNode.rtindexes] using outside
    simp [Env.single, different]
  | joinExpr jointype joinRTindex larg rarg quals leftIH rightIH =>
    simp only [JoinTreeNode.rtindexes, List.mem_append, List.mem_singleton, not_or] at outside
    rcases outside with ⟨⟨outsideLeft, outsideRight⟩, different⟩
    rcases List.mem_map.1 member with ⟨merged, mergedIn, rfl⟩
    simp only [Env.setJoin, Env.set, different, if_false]
    rcases mem_joinWith.1 mergedIn with
      ⟨left, leftIn, right, rightIn, _, rfl⟩ |
        ⟨_, left, leftIn, _, rfl⟩ | ⟨_, right, rightIn, _, rfl⟩
    · simp [Env.merge, leftIH leftIn outsideLeft, rightIH rightIn outsideRight]
    · exact leftIH leftIn outsideLeft
    · exact rightIH rightIn outsideRight

theorem Env.lookup_congr {env' : Env} (same : env varno = env' varno)
    (varattno : Nat) :
    env.lookup varno varattno = env'.lookup varno varattno := by
  simp [Env.lookup, same]

theorem Env.lookup_none (absent : env varno = none) (varattno : Nat) :
    env.lookup varno varattno = .null := by
  simp [Env.lookup, absent]

/-- An alias column has the value of the column it stands for. -/
theorem Env.lookup_setJoin (inst : Instance) {aliasvars : List Expr}
    {position : Nat} {expr : Expr} (present : aliasvars[position - 1]? = some expr) :
    (env.setJoin inst aliasvars rtindex).lookup rtindex position =
      expr.eval inst env.lookup [] := by
  simp [Env.setJoin, Env.set, Env.lookup, Row.column, List.getD_eq_getElem?_getD, present]

/--
On the entries of an input of a join, a combination of the join is a
combination of the input, or the input was null-extended.
-/
def RestrictsTo (inst : Instance) (aliasvars : Nat → List Expr) (input : Nat → List Row)
    (merged : Env) (node : JoinTreeNode) :
    Prop :=
  (∃ env ∈ node.eval inst aliasvars input,
    ∀ rtindex ∈ node.rtindexes, merged rtindex = env rtindex) ∨
  ∀ rtindex ∈ node.rtindexes, merged rtindex = none

section Restriction

variable
  {inst : Instance}
  {aliasvars : Nat → List Expr}
  {input : Nat → List Row}
  {merged : Env}

theorem RestrictsTo.lookup_eq {node : JoinTreeNode}
    (restricts : RestrictsTo inst aliasvars input merged node)
    {varattno varno' varattno' : Nat} (inside : varno ∈ node.rtindexes)
    (inside' : varno' ∈ node.rtindexes)
    (agree :
      ∀ env ∈ node.eval inst aliasvars input,
        env.lookup varno varattno = env.lookup varno' varattno') :
    merged.lookup varno varattno = merged.lookup varno' varattno' := by
  rcases restricts with ⟨env, member, same⟩ | absent
  · rw [Env.lookup_congr (same varno inside), Env.lookup_congr (same varno' inside')]
    exact agree env member
  · rw [Env.lookup_none (absent varno inside), Env.lookup_none (absent varno' inside')]

theorem restrictsTo_of_mem_joinWith {jointype : JoinType} {larg rarg : JoinTreeNode}
    {cond : Env → Env → Bool} (disjoint : ∀ i ∈ larg.rtindexes, i ∉ rarg.rtindexes)
    (member :
      merged ∈ joinWith jointype.keepsLeft jointype.keepsRight
        cond Env.merge id id
        (larg.eval inst aliasvars input)
        (rarg.eval inst aliasvars input)) :
    RestrictsTo inst aliasvars input merged larg ∧
      RestrictsTo inst aliasvars input merged rarg := by
  have disjoint' : ∀ i ∈ rarg.rtindexes, i ∉ larg.rtindexes :=
    fun i inRight inLeft => disjoint i inLeft inRight
  rcases mem_joinWith.1 member with
    ⟨left, leftIn, right, rightIn, _, rfl⟩ |
      ⟨_, left, leftIn, _, rfl⟩ | ⟨_, right, rightIn, _, rfl⟩
  · constructor
    · left
      refine ⟨left, leftIn, fun i inside => ?_⟩
      simp [Env.merge, JoinTreeNode.eval_eq_none rightIn (disjoint i inside)]
    · left
      refine ⟨right, rightIn, fun i inside => ?_⟩
      simp [Env.merge, JoinTreeNode.eval_eq_none leftIn (disjoint' i inside)]
  · constructor
    · exact .inl ⟨left, leftIn, fun _ _ => rfl⟩
    · exact .inr fun i inside =>
        JoinTreeNode.eval_eq_none leftIn (disjoint' i inside)
  · constructor
    · exact .inr fun i inside =>
        JoinTreeNode.eval_eq_none rightIn (disjoint i inside)
    · exact .inl ⟨right, rightIn, fun _ _ => rfl⟩

end Restriction

/-! ## Choosing a row for one entry -/

/-- A combination with a row, or no row, chosen for one entry. -/
def Env.choose (env : Env) (rtindex : Nat) (choice : Option Row) : Env :=
  fun i => if i = rtindex then choice else env i

theorem Env.merge_single (absent : env rtindex = none) {row : Row} :
    env.merge (Env.single rtindex row) = env.choose rtindex (some row) := by
  funext i
  by_cases same : i = rtindex
  · simp [Env.merge, Env.single, Env.choose, same, absent]
  · simp [Env.merge, Env.single, Env.choose, same]

theorem Env.setJoin_choose_of_ne (inst : Instance) (env : Env) {join other : Nat}
    (choice : Option Row) (aliasvars : List Expr) (notInput : other ≠ rtindex)
    (notJoin : other ≠ join) :
    (env.choose rtindex choice).setJoin inst aliasvars join other = env other := by
  simp [Env.setJoin, Env.set, Env.choose, notInput, notJoin]

theorem Env.setJoin_choose_self (inst : Instance) (env : Env) {join : Nat}
    (choice : Option Row) (aliasvars : List Expr) (notJoin : rtindex ≠ join) :
    (env.choose rtindex choice).setJoin inst aliasvars join rtindex =
      choice := by
  simp [Env.setJoin, Env.set, Env.choose, notJoin]

theorem Env.choose_none (absent : env rtindex = none) :
    env.choose rtindex none = env := by
  funext i
  by_cases same : i = rtindex
  · simp [Env.choose, same, absent]
  · simp [Env.choose, same]

/-! ## FROM clauses -/

theorem evalFromlist_eq_none {inst : Instance} {aliasvars : Nat → List Expr}
    {input : Nat → List Row} {fromlist : List JoinTreeNode}
    (member : env ∈ evalFromlist inst aliasvars input fromlist)
    (outside : rtindex ∉ fromlist.flatMap JoinTreeNode.rtindexes) :
    env rtindex = none := by
  induction fromlist generalizing env with
  | nil =>
    rw [evalFromlist, List.mem_singleton] at member
    subst member
    rfl
  | cons item rest ih =>
    rcases mem_crossWith.1 member with ⟨left, leftIn, right, rightIn, rfl⟩
    rw [List.flatMap_cons, List.mem_append, not_or] at outside
    simp [Env.merge, JoinTreeNode.eval_eq_none leftIn outside.1, ih rightIn outside.2]

/-- On its entries, a combination of a FROM clause is one of the item. -/
theorem evalFromlist_restrict {inst : Instance} {aliasvars : Nat → List Expr}
    {input : Nat → List Row} {fromlist : List JoinTreeNode}
    (nodup : (fromlist.flatMap JoinTreeNode.rtindexes).Nodup)
    (member : env ∈ evalFromlist inst aliasvars input fromlist) {item : JoinTreeNode}
    (isItem : item ∈ fromlist) :
    ∃ part ∈ item.eval inst aliasvars input,
      ∀ rtindex ∈ item.rtindexes, env rtindex = part rtindex := by
  induction fromlist generalizing env with
  | nil => simp at isItem
  | cons first rest ih =>
    rw [List.flatMap_cons, List.nodup_append] at nodup
    rcases nodup with ⟨_, restNodup, disjoint⟩
    rcases mem_crossWith.1 member with ⟨left, leftIn, right, rightIn, rfl⟩
    rcases List.mem_cons.1 isItem with rfl | inRest
    · refine ⟨left, leftIn, fun rtindex inside => ?_⟩
      have outside : rtindex ∉ rest.flatMap JoinTreeNode.rtindexes :=
        fun inRest => disjoint rtindex inside rtindex inRest rfl
      simp [Env.merge, evalFromlist_eq_none rightIn outside]
    · rcases ih restNodup rightIn inRest with
        ⟨part, partIn, same⟩
      refine ⟨part, partIn, fun rtindex inside => ?_⟩
      have outside : rtindex ∉ first.rtindexes := fun inFirst =>
        disjoint rtindex inFirst rtindex (List.mem_flatMap.2 ⟨item, inRest, inside⟩) rfl
      simp [Env.merge, JoinTreeNode.eval_eq_none leftIn outside, same rtindex inside]

end Ldv.Sql
