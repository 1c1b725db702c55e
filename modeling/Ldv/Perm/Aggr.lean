import Ldv.Perm.SortList
import Ldv.Perm.Spj

/-!
# Rewriting of aggregation nodes

An aggregation is joined, unchanged, with the rewritten version of its input
on the grouping columns.  The input is obtained from a copy of the node by
removing the aggregation together with all target entries that contain
aggregate functions.  The grouping columns of the two sides are paired by
position, after each side was sorted by sort-group reference.
-/

namespace Ldv.Perm

open Ldv.Sql

/-- The target entries used in GROUP BY. -/
def getGroupByTLEs (query : Query) : List TargetEntry :=
  query.groupClause.flatMap fun groupby =>
    query.targetList.filter fun te =>
      te.ressortgroupref == groupby.tleSortGroupRef

/-- Is the target entry used in ORDER BY? -/
def isUsedInOrderBy (query : Query) (te : TargetEntry) : Bool :=
  query.sortClause.any fun clause =>
    clause.tleSortGroupRef == te.ressortgroupref

/-- Does the expression contain an aggregate function? -/
def isAggrExpr (expr : Expr) : Bool := expr.hasAggref

/-- The aggregate-free target entries, renumbered and made visible. -/
def stripAggregates : Nat → List TargetEntry → Rewrite (List TargetEntry)
  | _, [] => pure []
  | curResno, te :: rest =>
    if isAggrExpr te.expr then
      stripAggregates curResno rest
    else do
      let resname ←
        if te.resjunk then
          some <$> uniqueAttrName "skippedGroupBy"
        else
          pure te.resname
      let entries ← stripAggregates (curResno + 1) rest
      return { te with
        resno := curResno, resname := resname, resjunk := false } ::
        entries

/-- Strips the aggregation from a query node. -/
def rewriteAggrSubqueryForRewrite (query : Query) : Rewrite Query := do
  let targetList ← stripAggregates 1 query.targetList
  return { query with
    hasAggs := false
    groupClause := []
    havingQual := none
    distinctClause := []
    sortClause := []
    targetList := targetList }

/-- The ORDER BY items that refer to a visible target entry. -/
def checkOrderClause (query : Query) :
    List SortClause → Option (List SortClause)
  | [] => some []
  | orderBy :: rest => do
    let te ← targetForRef query.targetList orderBy.tleSortGroupRef
    let clauses ← checkOrderClause query rest
    return if te.resjunk then clauses else orderBy :: clauses

/--
Target entries for the visible columns of a subquery.  Its hidden columns
are made visible there, so that the join can use them.
-/
def addSubqueryTargetListToTargetList (rtindex : Nat) (subquery : Query) :
    Nat → List TargetEntry → Rewrite (List TargetEntry × List TargetEntry)
  | _, [] => pure ([], [])
  | curResno, subTe :: rest =>
    if subTe.resjunk then do
      let resname ← uniqueAttrName "skippedGroupBy"
      let (entries, subEntries) ← addSubqueryTargetListToTargetList rtindex subquery curResno rest
      return (entries, { subTe with resjunk := false, resname := some resname } :: subEntries)
    else do
      let ref :=
        if isUsedInOrderBy subquery subTe then subTe.ressortgroupref
        else 0
      let newTe : TargetEntry := {
        expr := .var rtindex subTe.resno (exprType subTe.expr)
        resno := curResno
        resname := subTe.resname
        ressortgroupref := ref }
      let (entries, subEntries) ←
        addSubqueryTargetListToTargetList rtindex subquery (curResno + 1) rest
      return (newTe :: entries, subTe :: subEntries)

/-! ## Sorting by sort-group reference -/

def sortTargetListOnGroupBy : List TargetEntry → List TargetEntry :=
  sortList compareTeOnRessortgroupref true

/-! ## The join -/

/-- The two sides of the join condition, paired by position. -/
def joinAttributes (joinAttrsLeft joinAttrsRight : List TargetEntry) :
    List (Expr × Expr) :=
  ((sortTargetListOnGroupBy joinAttrsLeft).zip
    (sortTargetListOnGroupBy joinAttrsRight)).map fun (left, right) =>
      (.var 1 left.resno (exprType left.expr), .var 2 right.resno (exprType right.expr))

/-- Nested conjunction of the conditions; TRUE if there is none. -/
def conjunction : List Expr → Expr
  | [] => .const BOOLOID (.bool true)
  | first :: rest =>
    rest.foldl (fun root node => .boolExpr .and [root, node]) first

/-- Left join of the original aggregation with its rewritten input. -/
def addJoinOnAttributes (cat : Catalog) (joinAttrsLeft joinAttrsRight : List TargetEntry) :
    Option JoinTreeNode := do
  let conditions ← notDistinctConditions cat (joinAttributes joinAttrsLeft joinAttrsRight)
  return .joinExpr .left 3 (.rangeTblRef 1) (.rangeTblRef 2) (some (conjunction conditions))

/-- Removes all sort-group references. -/
def clearGrouprefs (targetList : List TargetEntry) : List TargetEntry :=
  targetList.map fun te => { te with ressortgroupref := 0 }

/-- Rewrites an aggregation node. -/
def rewriteAggregateQuery (cat : Catalog) (recur : Query → Rewrite Query) (query : Query) :
    Rewrite Query := do
  let groupByTLEs := getGroupByTLEs query
  let newRewriteQuery ← rewriteAggrSubqueryForRewrite
    { query with limitCount := none, limitOffset := none }
  let sortClause ← orCrash (checkOrderClause query query.sortClause)
  let originalAggr ← uniqueRelName "originalAggr"
  let (targetList, subTargetList) ← addSubqueryTargetListToTargetList 1 query 1 query.targetList
  let query := { query with
    targetList := subTargetList, shouldRewrite := false }
  let join ← orCrash (addJoinOnAttributes cat groupByTLEs newRewriteQuery.targetList)
  let newRewriteQuery ← recur { newRewriteQuery with
    targetList := clearGrouprefs newRewriteQuery.targetList }
  let newRewriteQuery := { newRewriteQuery with shouldRewrite := false }
  let rewrittenAggr ← uniqueRelName "rewrittenAggrSubquery"
  let newTop : Query := {
    targetList := targetList, sortClause := sortClause,
    fromlist := [join] }
  let newTop := addSubqueryToRT newTop query originalAggr
  let newTop := addSubqueryToRT newTop newRewriteQuery rewrittenAggr
  let newTop := correctSubQueryAlias newTop
  let newTop := { newTop with rtable := newTop.rtable ++ [joinRTE .left] }
  let newTop ← orCrash (adaptRTEsForJoins cat newTop join "joinAggAndRewrite")
  let (newTop, pList) ← addProvenanceAttrs newTop [2]
  push pList
  return newTop

end Ldv.Perm
