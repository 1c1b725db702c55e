import Ldv.Perm.Aggr

/-!
# Rewriting of set-operation nodes

A set operation is joined, unchanged, with its rewritten inputs.  This works
on trees whose operators are all UNION or all INTERSECT, and on a single
EXCEPT.  Any other tree is restructured first: the subtrees that do not fit
are taken out into query nodes of their own, one at a time, and after each
step the range table and all references to it are renumbered from left to
right.

The definitions describe the default settings, with the optimized set
rewrites enabled and the alternative union semantics disabled.
-/

namespace Ldv.Perm

open Ldv.Sql

/-! ## Restructuring -/

/-- Steps from a set-operation node to one of its inputs. -/
inductive Side where
  | left
  | right
deriving DecidableEq, Repr

def shiftVarno : Expr → Expr
  | .var varno varattno vartype => .var (varno - 2) varattno vartype
  | expr => expr

def shiftRefs : SetOpNode → SetOpNode
  | .rangeTblRef rtindex => .rangeTblRef (rtindex - 2)
  | .setOperationStmt op all colTypes larg rarg =>
    .setOperationStmt op all colTypes (shiftRefs larg) (shiftRefs rarg)

/-- Removes the entries a view expansion left in the range table. -/
def removeDummyRewriterRTEs (query : Query) : Option Query := do
  let rte ← query.rtable.head?
  let userAlias ← rte.userAlias
  let aliasname ← userAlias.aliasname
  if aliasname = "*OLD*" then
    return { query with
      rtable := query.rtable.drop 2
      targetList := query.targetList.map fun te =>
        { te with expr := shiftVarno te.expr }
      setOperations := query.setOperations.map shiftRefs }
  else
    return query

/-- The node a path leads to. -/
def subtreeAt : SetOpNode → List Side → Option SetOpNode
  | node, [] => some node
  | .rangeTblRef _, _ :: _ => none
  | .setOperationStmt _ _ _ larg _, .left :: path => subtreeAt larg path
  | .setOperationStmt _ _ _ _ rarg, .right :: path => subtreeAt rarg path

/-- Puts another node where a path leads to. -/
def replaceAt (new : SetOpNode) : SetOpNode → List Side → SetOpNode
  | _, [] => new
  | .rangeTblRef rtindex, _ :: _ => .rangeTblRef rtindex
  | .setOperationStmt op all colTypes larg rarg, .left :: path =>
    .setOperationStmt op all colTypes (replaceAt new larg path) rarg
  | .setOperationStmt op all colTypes larg rarg, .right :: path =>
    .setOperationStmt op all colTypes larg (replaceAt new rarg path)

/-- Numbers the references of a tree from left to right. -/
def renumber : SetOpNode → Nat → SetOpNode
  | .rangeTblRef _, counter => .rangeTblRef counter
  | .setOperationStmt op all colTypes larg rarg, counter =>
    .setOperationStmt op all colTypes (renumber larg counter)
      (renumber rarg (counter + larg.refs.length))

/-- The entries at the given positions. -/
def fetchAll (rtable : List RTE) : List Nat → Option (List RTE)
  | [] => some []
  | rtindex :: rest => do
    let rte ← rtFetch rtable rtindex
    let rtes ← fetchAll rtable rest
    return rte :: rtes

/-- Takes a subtree out into a subquery of its own. -/
def replaceSetOperatorSubtree (query : Query) (path : List Side) :
    Option Query := do
  let tree ← query.setOperations
  let setOp ← subtreeAt tree path
  let subTreeRTEs ← fetchAll query.rtable setOp.refs
  let newSub := { query with
    rtable := subTreeRTEs, setOperations := some (renumber setOp 1) }
  let query := addSubqueryToRT query newSub "newSub"
  let tree := replaceAt (.rangeTblRef query.rtable.length) tree path
  let newRtable ← fetchAll query.rtable tree.refs
  return { query with
    rtable := newRtable, setOperations := some (renumber tree 1) }

def isSetOperationStmt : SetOpNode → Bool
  | .rangeTblRef _ => false
  | .setOperationStmt _ _ _ _ _ => true

/-- Takes an input of an operator out, if it is an operator itself. -/
def replaceInput (query : Query) (path : List Side) (input : SetOpNode) :
    Option Query :=
  if isSetOperationStmt input then
    replaceSetOperatorSubtree query path
  else
    some query

/--
Takes all subtrees out that do not fit the operator at the root.  The
recursion follows the shape of the original tree; `path` leads to the node
in the tree of the query, in which references are renumbered meanwhile.
-/
def replaceSetOperationSubTrees (rootType : SetOperation) :
    SetOpNode → List Side → Query → Option Query
  | .rangeTblRef _, _, query => some query
  | .setOperationStmt .except _ _ larg rarg, path, query =>
    if rootType = .except then do
      let query ← replaceInput query (path ++ [.left]) larg
      replaceInput query (path ++ [.right]) rarg
    else
      replaceSetOperatorSubtree query path
  | .setOperationStmt op _ _ larg rarg, path, query =>
    if op = rootType then do
      let query ← replaceSetOperationSubTrees rootType larg (path ++ [.left]) query
      replaceSetOperationSubTrees rootType rarg (path ++ [.right]) query
    else
      replaceSetOperatorSubtree query path

/-! ## Joins -/

/-- Column references and names for all columns of an entry. -/
def makeRTEVars (rte : RTE) (rtindex : Nat) :
    List (Expr × Option String) :=
  match rte.kind with
  | .subquery query =>
    query.targetList.map fun te =>
      (.var (rtindex + 1) te.resno (exprType te.expr), te.resname)
  | _ =>
    ((rte.joinaliasvars.zip rte.eref.colnames).zipIdx 1).map
      fun ((var, name), curAttno) =>
        (.var (rtindex + 1) curAttno (exprType var), name)

/-- Appends an entry for a join of two entries given by list position. -/
def createRTEforJoin (query : Query) (jointype : JoinType)
    (leftIndex rightIndex : Nat) :
    Option Query := do
  let leftRTE ← query.rtable[leftIndex]?
  let rightRTE ← query.rtable[rightIndex]?
  let columns := makeRTEVars leftRTE leftIndex ++ makeRTEVars rightRTE rightIndex
  let newRte : RTE := {
    kind := .join jointype (columns.map fun column => column.1)
    userAlias := some { aliasname := some "LEFT_JOIN_RIGHT" }
    eref := {
      aliasname := some "LEFT_JOIN_RIGHT"
      colnames := columns.map fun column => column.2 } }
  return { query with rtable := query.rtable ++ [newRte] }

/-- The columns of an entry as target entries. -/
def getAttributesForJoin (rte : RTE) : List TargetEntry :=
  match rte.kind with
  | .subquery query => query.targetList
  | _ =>
    ((rte.joinaliasvars.zip rte.eref.colnames).zipIdx 1).map
      fun ((var, name), curAttno) =>
        { expr := var, resno := curAttno, resname := name }

/-- Null-safe equality of two lists of columns, or its negation. -/
def createEqualityCondition (cat : Catalog) (leftAttrs rightAttrs : List TargetEntry)
    (leftIndex rightIndex : Nat) (neq : Bool) :
    Option (Option Expr) := do
  let equalConds ← notDistinctConditions cat
    ((leftAttrs.zip rightAttrs).map fun (left, right) =>
      (.var (leftIndex + 1) left.resno (exprType left.expr),
        .var (rightIndex + 1) right.resno (exprType right.expr)))
  let curRoot := createAndFromList equalConds
  if neq then
    let curRoot ← curRoot
    return some (.boolExpr .not [curRoot])
  else
    return curRoot

/-- Condition on the original columns of two entries. -/
def createSetJoinCondition (cat : Catalog) (query : Query) (leftIndex rightIndex : Nat)
    (neq : Bool) :
    Option (Option Expr) := do
  let origTlength := query.targetList.length
  let leftRTE ← query.rtable[leftIndex]?
  let rightRTE ← query.rtable[rightIndex]?
  createEqualityCondition cat
    ((getAttributesForJoin leftRTE).take origTlength)
    ((getAttributesForJoin rightRTE).take origTlength)
    leftIndex rightIndex neq

/-- Joins the join built so far with the entries at further positions. -/
def joinFurtherInputs (cat : Catalog) (joinType : JoinType) :
    List Nat → Nat → Query → JoinTreeNode → Option (Query × JoinTreeNode)
  | [], _, query, curJoin => some (query, curJoin)
  | i :: rest, rtableLength, query, curJoin => do
    let query ← createRTEforJoin query joinType rtableLength i
    let quals ← createSetJoinCondition cat query rtableLength i false
    let newJoin := JoinTreeNode.joinExpr joinType (rtableLength + 2)
      curJoin (.rangeTblRef (i + 1)) quals
    joinFurtherInputs cat joinType rest (rtableLength + 1) query newJoin

/-- Joins the original query with all rewritten inputs. -/
def createInputJoins (cat : Catalog) (query : Query)
    (joinType : JoinType) :
    Option Query := do
  let rtableLength := query.rtable.length
  let query ← createRTEforJoin query joinType 0 1
  let quals ← createSetJoinCondition cat query 0 1 false
  let newJoin := JoinTreeNode.joinExpr joinType (rtableLength + 1)
    (.rangeTblRef 1) (.rangeTblRef 2) quals
  let (query, curJoin) ← joinFurtherInputs cat joinType
    (List.range' 2 (rtableLength - 2)) rtableLength query newJoin
  return { query with fromlist := [curJoin] }

/-- Does the original set operation keep duplicates? -/
def originalIsAll (query : Query) : Option Bool := do
  let rte ← query.rtable.head?
  let orig ← rte.subquery?
  match orig.setOperations with
  | some (.setOperationStmt _ all _ _ _) => some all
  | _ => none

/-- Joins the original set difference with its two rewritten inputs. -/
def createSetDiffJoin (cat : Catalog) (query : Query) : Option Query := do
  let all ← originalIsAll query
  let innerIndex := query.rtable.length + 1
  let query ← createRTEforJoin query .inner 0 1
  let innerQuals ← createSetJoinCondition cat query 0 1 false
  let innerJoin := JoinTreeNode.joinExpr .inner innerIndex
    (.rangeTblRef 1) (.rangeTblRef 2) innerQuals
  let query ← createRTEforJoin query .left 3 2
  let outerQuals ←
    if all then
      createSetJoinCondition cat query 3 2 true
    else
      some (some (.const BOOLOID (.bool true)))
  return { query with
    fromlist := [.joinExpr .left 5 innerJoin (.rangeTblRef 3) outerQuals] }

def createJoinsForSetOp (cat : Catalog) (query : Query) :
    SetOperation → Option Query
  | .union => createInputJoins cat query .left
  | .intersect => createInputJoins cat query .inner
  | .except => createSetDiffJoin cat query

/-! ## The node -/

/-- Rewrites the inputs, from left to right. -/
def rewriteSetRTEs (recur : Query → Rewrite Query) :
    List RTE → Rewrite (List RTE)
  | [] => pure []
  | rte :: rest => do
    let query ← orCrash rte.subquery?
    let query ← recur query
    let rtes ← rewriteSetRTEs recur rest
    return { rte with kind := .subquery query } :: rtes

/-- Rewrites a set-operation node. -/
def rewriteSetQuery (cat : Catalog) (recur : Query → Rewrite Query) (query : Query) :
    Rewrite Query := do
  let orig := query
  let query ← orCrash (removeDummyRewriterRTEs query)
  match query.setOperations with
  | some (.setOperationStmt op all colTypes larg rarg) =>
    let query ← orCrash (replaceSetOperationSubTrees op
      (.setOperationStmt op all colTypes larg rarg) [] query)
    let rtable ← rewriteSetRTEs recur query.rtable
    let numSubs := rtable.length
    let newTop : Query := {
      rtable := subqueryRTE orig "originalSet" :: rtable
      targetList := query.targetList }
    let newTop := correctSubQueryAlias newTop
    let newTop ← orCrash (createJoinsForSetOp cat newTop op)
    let (newTop, pList) ← addProvenanceAttrs newTop (List.range' 2 numSubs)
    push pList
    return newTop
  | _ => crash

/-!
## The provenance rewriter

`rewriteQueryNode` selects the rewrite for a query node.  It recurses into
subqueries, and into query nodes which the aggregation and set-operation
rewrites create, so it carries a bound on the depth of the recursion;
`Query.size` is always enough.
-/

/-- Rewrites a query node for influence contribution semantics. -/
def rewriteQueryNode (cat : Catalog) : Nat → Query → Rewrite Query
  | 0, _ => throw .outOfFuel
  | fuel + 1, query =>
    if query.hasAggs then
      rewriteAggregateQuery cat (rewriteQueryNode cat fuel) query
    else if query.setOperations.isSome then
      rewriteSetQuery cat (rewriteQueryNode cat fuel) query
    else
      rewriteSPJQuery cat (rewriteQueryNode cat fuel) query

end Ldv.Perm
