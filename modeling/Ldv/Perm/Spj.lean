import Ldv.Perm.RangeTable

/-!
# Rewriting of select-project-join nodes

The rewrite of a node adds the provenance attributes of all of its inputs to
its target list.  The inputs are rewritten first, from left to right; each
of them pushes the list of its provenance attributes.  The attributes are
then led through the alias columns of the joins above an input, and popped
into the target list.

A node with LIMIT or OFFSET whose rewriting may duplicate rows is joined,
unchanged, with its rewritten copy.

The recursive call on a subquery is the parameter `recur`.
-/

namespace Ldv.Perm

open Ldv.Sql

/-! ## Inputs -/

/-- Provenance attributes of a base relation, numbered from `curResno`. -/
def baseRelationEntries (cat : Catalog) (rte : RTE) :
    Nat → List (String × Expr) → Rewrite (List TargetEntry)
  | _, [] => pure []
  | curResno, (name, var) :: rest => do
    let provName ← createProvAttrName cat rte name
    let entries ← baseRelationEntries cat rte (curResno + 1) rest
    return { expr := var, resno := curResno, resname := some provName } :: entries

/-- Pushes the attributes of a base relation as provenance attributes. -/
def rewriteBaseRelation (cat : Catalog) (rtindex : Nat) (rte : RTE) :
    Rewrite RTE := do
  let (names, vars) ← orCrash (expandRTEWithParam cat rtindex rte)
  let (_, rte) ← getQueryRefNum cat rte true
  let pList ← baseRelationEntries cat rte 1 (names.zip vars)
  push pList
  return rte

def getAlias (rte : RTE) : String :=
  ((rte.userAlias.bind Alias.aliasname).or rte.eref.aliasname).getD ""

/-- Column number of a column reference. -/
def varattnoOf : Expr → Nat
  | .var _ varattno _ => varattno
  | _ => 0

/-- The columns with the name of a listed provenance attribute. -/
def listedEntries (provAttr : String) (columns : List (String × Expr)) :
    List TargetEntry :=
  (columns.filter fun column => column.1 == provAttr).map fun column =>
    { expr := column.2
      resno := varattnoOf column.2
      resname := some (createExternalProvAttrName column.1) }

/-- Provenance attributes of an entry with an attribute list. -/
def provAttrEntries (rte : RTE) (columns : List (String × Expr)) :
    List String → Rewrite (List TargetEntry)
  | [] => pure []
  | provAttr :: rest => do
    let found := listedEntries provAttr columns
    if found.isEmpty then
      throw (.elog ("Provenance attribute " ++ provAttr ++
        " given in the PROVENANCE attribute list is not found in " ++
        getAlias rte))
    let entries ← provAttrEntries rte columns rest
    return found ++ entries

/-- Names and column references for the columns of a subquery. -/
def subqueryColumns (rtindex : Nat) (query : Query) :
    Option (List (String × Expr)) := do
  let names ← allLabels (query.targetList.map TargetEntry.resname)
  return names.zip (query.targetList.map fun te =>
    .var rtindex te.resno (exprType te.expr))

/-- Rewrites an entry for which the user listed provenance attributes. -/
def rewriteRTEwithProvenance (cat : Catalog) (recur : Query → Rewrite Query) (rtindex : Nat)
    (rte : RTE) :
    Rewrite RTE := do
  match rte.kind with
  | .subquery query =>
    if query.shouldRewrite then
      let query ← recur query
      return { rte with kind := .subquery query }
    else
      let columns ← orCrash (subqueryColumns rtindex query)
      let provAttrs ← orCrash (allLabels rte.provAttrs)
      let pList ← provAttrEntries rte columns provAttrs
      push pList
      return rte
  | .relation _ =>
    let (names, vars) ← orCrash (expandRTEWithParam cat rtindex rte)
    let provAttrs ← orCrash (allLabels rte.provAttrs)
    let pList ← provAttrEntries rte (names.zip vars) provAttrs
    push pList
    return rte
  | _ =>
    throw (.elog ("PROVENANCE construct in FROM clause is only allowed" ++
      "for base relations and subqueries"))

/-- Is the entry marked as one the rewriter has to leave alone? -/
def ignoreRTE (rte : RTE) : Bool := rte.provAttrs == [none]

/-- Entries of view rules and ignored entries are skipped. -/
def skipsRTE (rte : RTE) : Bool :=
  rte.eref.aliasname == some "*NEW*" || rte.eref.aliasname == some "*OLD*" || ignoreRTE rte

/-- Rewrites a single range-table entry. -/
def rewriteRTE (cat : Catalog) (recur : Query → Rewrite Query) (rtindex : Nat) (rte : RTE) :
    Rewrite RTE := do
  if !rte.provAttrs.isEmpty then
    rewriteRTEwithProvenance cat recur rtindex rte
  else
    match rte.kind, rte.isProvBase with
    | .relation _, _ => rewriteBaseRelation cat rtindex rte
    | _, true => rewriteBaseRelation cat rtindex rte
    | .subquery query, false =>
      let query ← recur query
      return { rte with kind := .subquery query }
    | _, false => return rte

/--
Rewrites the entries from position `rtindex` on.  Returns the new entries
and the positions of those which are counted as inputs.
-/
def rewriteRTEs (cat : Catalog) (recur : Query → Rewrite Query) :
    Nat → List RTE → Rewrite (List RTE × List Nat)
  | _, [] => pure ([], [])
  | rtindex, rte :: rest =>
    if skipsRTE rte then do
      let (rtable, subList) ← rewriteRTEs cat recur (rtindex + 1) rest
      return (rte :: rtable, subList)
    else do
      let rte' ← rewriteRTE cat recur rtindex rte
      let (rtable, subList) ← rewriteRTEs cat recur (rtindex + 1) rest
      if rte.isJoin then
        return (rte' :: rtable, subList)
      else
        return (rte' :: rtable, rtindex :: subList)

/-! ## Joins -/

def setVarno (varno : Nat) : Expr → Expr
  | .var _ varattno vartype => .var varno varattno vartype
  | expr => expr

def setVarattno (varattno : Nat) : Expr → Expr
  | .var varno _ vartype => .var varno varattno vartype
  | expr => expr

/-- The list on the stack which belongs to an input. -/
def stackListFor (pStack : List (List TargetEntry)) (subList : List Nat) (rtindex : Nat) :
    Option (List TargetEntry) :=
  match (subList.zipIdx.filter fun sub => sub.1 == rtindex).getLast? with
  | none => some []
  | some (_, counter) => pStack[(subList.length - 1) - counter]?

/-- Appends provenance attributes to the alias columns of a join entry. -/
def appendAliasvars (rte : RTE) (pList : List TargetEntry) : RTE :=
  match rte.kind with
  | .join jointype aliasvars =>
    { rte with
      kind := .join jointype (aliasvars ++ pList.map TargetEntry.expr)
      eref := { rte.eref with
        colnames := rte.eref.colnames ++ pList.map TargetEntry.resname } }
  | _ => rte

/-- The alias columns of a join as provenance attributes. -/
def joinEntries (joinRTindex counter : Nat) (pList : List TargetEntry) :
    List TargetEntry :=
  (pList.zipIdx counter).map fun (te, attno) =>
    { expr := .var joinRTindex attno (exprType te.expr)
      resno := attno
      resname := te.resname }

/--
Provenance attributes of a FROM item.  At a join, the attributes of both
inputs become new alias columns of the join.
-/
def computeJoinPAttrs (pStack : List (List TargetEntry)) (subList : List Nat) :
    JoinTreeNode → List RTE → Option (List TargetEntry × List RTE)
  | .rangeTblRef rtindex, rtable => do
    let pList ← stackListFor pStack subList rtindex
    let pAttrs := pList.map fun te =>
      { te with expr := setVarno rtindex te.expr }
    return (pAttrs, rtable)
  | .joinExpr _ rtindex larg rarg _, rtable => do
    let (leftAttrs, rtable) ← computeJoinPAttrs pStack subList larg rtable
    let (rightAttrs, rtable) ← computeJoinPAttrs pStack subList rarg rtable
    let rte ← rtFetch rtable rtindex
    let pList := (leftAttrs ++ rightAttrs).map fun te =>
      { te with expr := setVarattno te.resno te.expr }
    let pAttrs := joinEntries rtindex (rte.joinaliasvars.length + 1) pList
    return (pAttrs, rtReplace rtable rtindex (appendAliasvars rte pList))

/-- Adds provenance attributes to the join entries of a FROM list. -/
def correctJoinRTEs (pStack : List (List TargetEntry)) (subList : List Nat) :
    List JoinTreeNode → List RTE → Option (List RTE)
  | [], rtable => some rtable
  | .rangeTblRef _ :: rest, rtable =>
    correctJoinRTEs pStack subList rest rtable
  | item :: rest, rtable => do
    let (_, rtable) ← computeJoinPAttrs pStack subList item rtable
    correctJoinRTEs pStack subList rest rtable

/-! ## DISTINCT -/

/-- The largest sort-group reference of a target list. -/
def maxGroupref (targetList : List TargetEntry) : Nat :=
  targetList.foldl (fun cur te => max cur te.ressortgroupref) 0

/--
Gives each provenance attribute a sort-group reference, and returns the
DISTINCT items for them.
-/
def distinctEntries (cat : Catalog) :
    Nat → List TargetEntry → Rewrite (List TargetEntry × List SortClause)
  | _, [] => pure ([], [])
  | curGroupref, te :: rest => do
    let sortop ←
      match cat.orderingOper (exprType te.expr) with
      | some sortop => pure sortop
      | none => throw (.noOrderingOperator (exprType te.expr))
    let fresh := te.ressortgroupref == 0
    let curGroupref := if fresh then curGroupref + 1 else curGroupref
    let ref := if fresh then curGroupref else te.ressortgroupref
    let (entries, clauses) ← distinctEntries cat curGroupref rest
    return ({ te with ressortgroupref := ref } :: entries,
      { tleSortGroupRef := ref, sortop := sortop,
        nulls_first := false } :: clauses)

/--
Extends DISTINCT to the provenance attributes.  The entries on top of the
stack are the last entries of the target list, so both are updated.
-/
def rewriteDistinctClause (cat : Catalog) (query : Query) :
    Rewrite Query := do
  let state ← get
  match state.pStack with
  | [] => crash
  | pList :: stack =>
    let (entries, clauses) ← distinctEntries cat (maxGroupref query.targetList) pList
    modifyThe RewriteState fun state =>
      { state with pStack := entries :: stack }
    return { query with
      targetList := query.targetList.take (query.targetList.length - pList.length) ++ entries
      distinctClause := query.distinctClause ++ clauses }

/-! ## The node -/

/-- Rewrites a node without regard to LIMIT. -/
def rewriteSPJrestrict (cat : Catalog) (recur : Query → Rewrite Query) (query : Query) :
    Rewrite Query := do
  let (rtable, subList) ← rewriteRTEs cat recur 1 query.rtable
  let query := correctSubQueryAlias { query with rtable := rtable }
  let state ← get
  let rtable ← orCrash (correctJoinRTEs state.pStack subList query.fromlist query.rtable)
  let (query, pList) ← addProvenanceAttrs { query with rtable := rtable } subList
  push pList
  if query.distinctClause.isEmpty then
    return query
  else
    rewriteDistinctClause cat query

mutual

/-- Does the query contain constructs that may duplicate result rows? -/
def checkForNTupleDupConstructs : Query → Bool
  | { distinctClause := distinctClause, hasAggs := hasAggs,
      rtable := rtable, .. } =>
      !distinctClause.isEmpty || hasAggs || checkRtableForDupConstructs rtable

def checkRtableForDupConstructs : List (RangeTblEntry Query) → Bool
  | [] => false
  | rte :: rest =>
    checkRTEForDupConstructs rte || checkRtableForDupConstructs rest

def checkRTEForDupConstructs : RangeTblEntry Query → Bool
  | { kind := .subquery query, .. } => checkForNTupleDupConstructs query
  | { kind := .function _ _, .. } => true
  | _ => false

end

/-- Does the LIMIT of the node need the original query? -/
def checkLimit (query : Query) : Bool :=
  (query.limitCount.isSome || query.limitOffset.isSome) && checkForNTupleDupConstructs query

/-! ## LIMIT -/

/-- The elements at the given positions. -/
def getAllInList {Elem : Type} (list : List Elem) :
    List Nat → Option (List Elem)
  | [] => some []
  | position :: rest => do
    let elem ← list[position]?
    let elems ← getAllInList list rest
    return elem :: elems

/-- Joins two subquery entries on columns given by position. -/
def createJoinOnAttrs (cat : Catalog) (query : Query) (joinType : JoinType) (leftRT rightRT : Nat)
    (leftAttrs rightAttrs : List Nat) :
    Rewrite (Query × JoinTreeNode) := do
  let rtindex := query.rtable.length + 1
  let query := { query with rtable := query.rtable ++ [joinRTE joinType] }
  let leftRTE ← orCrash (rtFetch query.rtable leftRT)
  recountMarkedRTE cat leftRTE
  let rightRTE ← orCrash (rtFetch query.rtable rightRT)
  recountMarkedRTE cat rightRTE
  let leftVars ← orCrash (getAllInList (expandRTEVars cat leftRT leftRTE) leftAttrs)
  let rightVars ← orCrash (getAllInList (expandRTEVars cat rightRT rightRTE) rightAttrs)
  let comparisons ← orCrash (notDistinctConditions cat (leftVars.zip rightVars))
  return (query, .joinExpr joinType rtindex (.rangeTblRef leftRT)
    (.rangeTblRef rightRT) (some (.boolExpr .and comparisons)))

/-- Target list of the top node: all columns of the rewritten copy. -/
def limitTargetList : Nat → List TargetEntry → Option (List TargetEntry)
  | _, [] => some []
  | attno, te :: rest => do
    let resname ← te.resname
    let entries ← limitTargetList (attno + 1) rest
    return {
      expr := .var 2 attno (exprType te.expr)
      resno := attno
      resname := some resname
      resjunk := te.resjunk } :: entries

/--
Joins a node with LIMIT with its rewritten copy without LIMIT on all of its
result columns.
-/
def handleLimit (cat : Catalog) (recur : Query → Rewrite Query) (query : Query) :
    Rewrite Query := do
  let rewrittenQuery ← rewriteSPJrestrict cat recur
    { query with limitCount := none, limitOffset := none }
  let targetList ← orCrash (limitTargetList 1 rewrittenQuery.targetList)
  let newTop : Query := { targetList := targetList }
  let newTop := addSubqueryToRT newTop query "originalQuery"
  let newTop := addSubqueryToRT newTop rewrittenQuery "rewrittenQuery"
  let newTop := correctSubQueryAlias newTop
  let attrsPos := List.range query.targetList.length
  let (newTop, join) ← createJoinOnAttrs cat newTop .inner 1 2 attrsPos attrsPos
  let newTop := { newTop with fromlist := [join] }
  orCrash (adaptRTEsForJoins cat newTop join "newJoin")

/-- Rewrites a select-project-join node. -/
def rewriteSPJQuery (cat : Catalog) (recur : Query → Rewrite Query) (query : Query) :
    Rewrite Query :=
  if checkLimit query then
    handleLimit cat recur query
  else
    rewriteSPJrestrict cat recur query

end Ldv.Perm
