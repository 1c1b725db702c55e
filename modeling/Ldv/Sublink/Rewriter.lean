import Ldv.Perm.Preservation
import Ldv.Sublink.Semantics

/-!
# Sublink queries and the rewriter

The query below a sublink is rewritten like any other one.  `permQueries`
reads what the strategies need from the query trees of the rewriter, whose
expressions hold no sublinks and no references to enclosing queries, and
rewrites them by `Perm.rewriteQueryNode`.  A query on which the rewriter
stops, such as a VALUES list, has no rewritten form.

The strategies rely on rewritten queries which append columns to the tuples
of the original.  The rewriter keeps this promise for the queries whose
result it preserves.
-/

namespace Ldv.Sql

/-! ## Structural equality -/

mutual

/-- The comparison `equal` of two expressions. -/
def Expr.equal : Expr → Expr → Bool
  | .var varno varattno vartype, .var varno' varattno' vartype' =>
    varno = varno' && varattno = varattno' && vartype = vartype'
  | .const consttype value, .const consttype' value' =>
    consttype = consttype' && value = value'
  | .opExpr opno opresulttype args, .opExpr opno' opresulttype' args' =>
    opno = opno' && opresulttype = opresulttype' && Expr.equalList args args'
  | .distinctExpr left right, .distinctExpr left' right' =>
    left.equal left' && right.equal right'
  | .boolExpr boolop args, .boolExpr boolop' args' =>
    boolop = boolop' && Expr.equalList args args'
  | .caseExpr casetype conds results defresult,
      .caseExpr casetype' conds' results' defresult' =>
    casetype = casetype' && Expr.equalList conds conds' &&
      Expr.equalList results results' && defresult.equal defresult'
  | .coalesceExpr coalescetype args, .coalesceExpr coalescetype' args' =>
    coalescetype = coalescetype' && Expr.equalList args args'
  | .aggref aggfnoid aggtype args aggdistinct,
      .aggref aggfnoid' aggtype' args' aggdistinct' =>
    aggfnoid = aggfnoid' && aggtype = aggtype' &&
      Expr.equalList args args' && aggdistinct = aggdistinct'
  | _, _ => false

def Expr.equalList : List Expr → List Expr → Bool
  | [], [] => true
  | expr :: rest, expr' :: rest' =>
    expr.equal expr' && Expr.equalList rest rest'
  | _, _ => false

end

mutual

theorem Expr.equal_iff : ∀ left right : Expr, left.equal right = true ↔ left = right
  | .var .., right => by cases right <;> simp [Expr.equal, and_assoc]
  | .const .., right => by cases right <;> simp [Expr.equal]
  | .opExpr _ _ args, right => by
    cases right <;> simp [Expr.equal, Expr.equalList_iff args, and_assoc]
  | .distinctExpr left right, other => by
    cases other <;> simp [Expr.equal, left.equal_iff, right.equal_iff]
  | .boolExpr _ args, right => by
    cases right <;> simp [Expr.equal, Expr.equalList_iff args]
  | .caseExpr _ conds results defresult, right => by
    cases right <;>
      simp [Expr.equal, Expr.equalList_iff conds, Expr.equalList_iff results,
        defresult.equal_iff, and_assoc]
  | .coalesceExpr _ args, right => by
    cases right <;> simp [Expr.equal, Expr.equalList_iff args]
  | .aggref _ _ args _, right => by
    cases right <;> simp [Expr.equal, Expr.equalList_iff args, and_assoc]

theorem Expr.equalList_iff :
    ∀ left right : List Expr, Expr.equalList left right = true ↔ left = right
  | [], right => by cases right <;> simp [Expr.equalList]
  | expr :: rest, right => by
    cases right <;> simp [Expr.equalList, expr.equal_iff, Expr.equalList_iff rest]

end

instance : DecidableEq Expr :=
  fun left right => decidable_of_iff _ (Expr.equal_iff left right)

deriving instance DecidableEq for TargetEntry
deriving instance DecidableEq for JoinTreeNode

mutual

/-- The comparison `equal` of two queries. -/
def Query.equal : Query → Query → Bool
  | ⟨hasAggs, rtable, fromlist, quals, targetList, groupClause, havingQual,
      distinctClause, sortClause, limitOffset, limitCount, setOperations,
      shouldRewrite, contribution⟩, right =>
    hasAggs = right.hasAggs && Query.equalRtable rtable right.rtable &&
      fromlist = right.fromlist && quals = right.quals &&
      targetList = right.targetList && groupClause = right.groupClause &&
      havingQual = right.havingQual && distinctClause = right.distinctClause &&
      sortClause = right.sortClause && limitOffset = right.limitOffset &&
      limitCount = right.limitCount && setOperations = right.setOperations &&
      shouldRewrite = right.shouldRewrite && contribution = right.contribution
termination_by structural left => left

def Query.equalRtable : List (RangeTblEntry Query) → List (RangeTblEntry Query) → Bool
  | [], [] => true
  | rte :: rest, rte' :: rest' =>
    Query.equalRTE rte rte' && Query.equalRtable rest rest'
  | _, _ => false
termination_by structural left => left

def Query.equalRTE : RangeTblEntry Query → RangeTblEntry Query → Bool
  | ⟨kind, userAlias, eref, isProvBase, provAttrs⟩, right =>
    Query.equalKind kind right.kind && userAlias = right.userAlias &&
      eref = right.eref && isProvBase = right.isProvBase &&
      provAttrs = right.provAttrs
termination_by structural left => left

def Query.equalKind : RTEKind Query → RTEKind Query → Bool
  | .relation relid, .relation relid' => relid = relid'
  | .subquery query, .subquery query' => query.equal query'
  | .join jointype aliasvars, .join jointype' aliasvars' =>
    jointype = jointype' && aliasvars = aliasvars'
  | .function funcid coltypes, .function funcid' coltypes' =>
    funcid = funcid' && coltypes = coltypes'
  | .values lists, .values lists' => lists = lists'
  | _, _ => false
termination_by structural left => left

end

mutual

theorem Query.equal_iff : ∀ left right : Query, left.equal right = true ↔ left = right
  | ⟨_, rtable, _, _, _, _, _, _, _, _, _, _, _, _⟩, right => by
    cases right
    simp [Query.equal, Query.equalRtable_iff rtable, and_assoc]

theorem Query.equalRtable_iff :
    ∀ left right : List (RangeTblEntry Query),
      Query.equalRtable left right = true ↔ left = right
  | [], right => by cases right <;> simp [Query.equalRtable]
  | rte :: rest, right => by
    cases right <;>
      simp [Query.equalRtable, Query.equalRTE_iff rte, Query.equalRtable_iff rest]

theorem Query.equalRTE_iff :
    ∀ left right : RangeTblEntry Query, Query.equalRTE left right = true ↔ left = right
  | ⟨kind, _, _, _, _⟩, right => by
    cases right
    simp [Query.equalRTE, Query.equalKind_iff kind, and_assoc]

theorem Query.equalKind_iff :
    ∀ left right : RTEKind Query, Query.equalKind left right = true ↔ left = right
  | .subquery query, right => by cases right <;> simp [Query.equalKind, query.equal_iff]
  | .relation _, right => by cases right <;> simp [Query.equalKind]
  | .join _ _, right => by cases right <;> simp [Query.equalKind]
  | .function _ _, right => by cases right <;> simp [Query.equalKind]
  | .values _, right => by cases right <;> simp [Query.equalKind]

end

instance : DecidableEq Query :=
  fun left right => decidable_of_iff _ (Query.equal_iff left right)

end Ldv.Sql

namespace Ldv.Sublink

open Ldv.Sql

variable
  {Sub : Type}
  {subs : Subqueries Sub}

/-! ## Rewritten sublink queries -/

/-- The rows of the second query are those of the first with columns added. -/
def Instance.AppendsColumns (inst : Instance subs) (sub rewrittenSub : Sub) : Prop :=
  ∀ scope row,
    row ∈ inst.rows sub scope ↔
      ∃ full ∈ inst.rows rewrittenSub scope, full.take (subs.targetListLength sub) = row

/-- The provenance rewrite returns and appends columns to the tuples of a query. -/
def Instance.KeepsTuples (inst : Instance subs) (sub : Sub) : Prop :=
  ∃ rewrittenSub,
    subs.rewriteQueryNode sub = some rewrittenSub ∧ inst.AppendsColumns sub rewrittenSub

/-! ## Query trees below sublinks -/

section Rewriter

variable
  (cat : Perm.Catalog)
  (state : Perm.RewriteState)

/-- Query trees without sublinks, rewritten in a state of the rewriter. -/
def permQueries : Subqueries Sql.Query where
  targetListLength query := query.targetList.length
  columns query :=
    ((query.targetList.zipIdx 1).filter fun entry => !entry.1.resjunk).map Prod.snd
  corrVars _ := []
  isSetOperation query := query.setOperations.isSome
  containsGenCorrSublink _ := false
  uncorrelatedAfterChildRewrite _ := false
  rewriteQueryNode query :=
    ((Perm.rewriteQueryNode cat query.size query).run state).toOption.map Prod.fst
  corrVars_rewriteQueryNode _ _ _ := List.Subset.refl _

/-- A database, with the functions of scalar expressions. -/
def permInstance (inst : Sql.Instance) (func : Oid → List Datum → Datum) :
    Instance (permQueries cat state) where
  table := inst.table
  op := inst.op
  func := func
  rows query _ := query.eval inst
  rows_congr _ _ _ _ := rfl

variable
  {cat : Perm.Catalog}
  {query : Sql.Query}

theorem fullRows_permInstance (wellFormed : Perm.WellFormed cat query) (inst : Sql.Instance)
    (func : Oid → List Datum → Datum) :
    (permInstance cat state inst func).FullRows query :=
  fun _ _ member => wellFormed.length_of_mem_eval member

/-- A query whose result is preserved keeps its tuples. -/
theorem keepsTuples_permInstance (wellFormed : Perm.WellFormed cat query)
    (visible : ∀ te ∈ query.targetList, te.resjunk = false)
    (preserves : Perm.PreservesResult cat query) (inst : Sql.Instance)
    (func : Oid → List Datum → Datum) :
    (permInstance cat state inst func).KeepsTuples query := by
  rcases preserves query.size le_rfl state with ⟨query', final, ran, -, same⟩
  refine ⟨query', ?_, fun scope row => ?_⟩
  · simp [permQueries, ran, Except.toOption]
  · have width : query.visibleCount = query.targetList.length :=
      congrArg List.length (Perm.nonJunk_of_visible visible)
    have long : ∀ row ∈ query.eval inst, row.take query.targetList.length = row :=
      fun row member => List.take_of_length_le (wellFormed.length_of_mem_eval member).le
    have kept := same inst row
    rw [width, List.map_congr_left long, List.map_id', List.mem_map] at kept
    exact kept

end Rewriter

/-!
## Sublinks over one column

Sublinks `SELECT c FROM u` and `SELECT v`, on which the strategies can be
run.
-/

/-- Relations with a column `c` of the type. -/
def columnCatalog (type : Oid) : Perm.Catalog where
  namespaceName _ := "public"
  relName relid := if relid = 1 then "r" else if relid = 2 then "s" else "u"
  attributes _ := [⟨"c", type, false⟩]
  equalityOper _ := some 96
  orderingOper _ := some 97

/-- The query `SELECT c FROM` the relation. -/
def selectFrom (relid type : Oid) : Sql.Query where
  rtable := [{
    kind := .relation relid
    userAlias := none
    eref := { aliasname := some "u", colnames := [some "c"] } }]
  fromlist := [.rangeTblRef 1]
  targetList := [{ expr := .var 1 1 type, resno := 1, resname := some "c" }]

/-- The query `SELECT v`. -/
def selectValue (type : Oid) (value : Datum) : Sql.Query where
  targetList := [{ expr := .const type value, resno := 1, resname := some "c" }]

/-- The query `VALUES (v)`. -/
def selectValues (type : Oid) (value : Datum) : Sql.Query where
  rtable := [{
    kind := .values [[.const type value]]
    userAlias := none
    eref := { aliasname := some "*VALUES*", colnames := [some "column1"] } }]
  fromlist := [.rangeTblRef 1]
  targetList := [{ expr := .var 1 1 type, resno := 1, resname := some "column1" }]

example :
    (permQueries (columnCatalog 23) {}).rewriteQueryNode (selectValues 23 (.int 9)) = none := by
  decide +kernel

/-- The operators `=` (96) and `<` (97) of integers and `=` (91) of booleans. -/
def valueOp (opno : Oid) (values : List Datum) : Datum :=
  match values with
  | [.int left, .int right] =>
    if opno = 96 then .bool (left = right)
    else if opno = 97 then .bool (left < right)
    else .null
  | [.bool left, .bool right] =>
    if opno = 91 then .bool (left = right) else .null
  | _ => .null

/-- Sublink queries over columns of the type. -/
abbrev columnQueries (type : Oid) : Subqueries Sql.Query := permQueries (columnCatalog type) {}

/-- A database with the rows of each relation. -/
def columnInstance (type : Oid) (table : Oid → List Row) : Instance (columnQueries type) :=
  permInstance (columnCatalog type) {}
    { table := table
      op := valueOp
      agg := fun _ _ => .null
      func := fun _ => []
      sortLe := fun _ _ _ => true
      sortLe_total := by simp
      sortLe_trans := by simp
      order := id
      order_perm := fun _ => .refl _ }
    fun _ _ => .null

/-- The values of the outermost query level: there are none above it. -/
def topScope : Scope := fun _ => .null

end Ldv.Sublink
