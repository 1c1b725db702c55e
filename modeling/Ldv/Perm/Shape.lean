import Ldv.Perm.OpTree

/-!
# The shape of rewritten queries

`Rewritten cat n query query' pList` describes, without the rewriter's
state, which queries `query'` and which lists `pList` of provenance
attributes a rewrite of `query` can produce: everything is determined but
the generated names.  Like the rewriter itself it is built from one relation
per query type, each of which takes the relation for subqueries as a
parameter.

The properties of rewritten queries are proved from this description; that
the rewriter keeps to it is proved once.
-/

namespace Ldv.Perm

open Ldv.Sql

/-- The relation between a query, its rewritten form and its attributes. -/
abbrev Rel := Query → Query → List TargetEntry → Prop

/-- Provenance attributes are visible, and nothing is sorted by them. -/
def Plain (te : TargetEntry) : Prop :=
  te.ressortgroupref = 0 ∧ te.resjunk = false

/-! ## Inputs -/

/-- The column names a PROVENANCE attribute list may use. -/
def listableNames (cat : Catalog) (rte : RTE) : Option (List String) :=
  match rte.kind with
  | .subquery query => allLabels (query.targetList.map TargetEntry.resname)
  | _ => allLabels (expandRTENames cat rte)

/-- The columns with these names. -/
def listableVars (cat : Catalog) (rtindex : Nat) (rte : RTE) :
    List Expr :=
  match rte.kind with
  | .subquery query =>
    query.targetList.map fun te =>
      .var rtindex te.resno (exprType te.expr)
  | _ => expandRTEVars cat rtindex rte

def namedColumns (cat : Catalog) (rtindex : Nat) (rte : RTE) :
    Option (List (String × Expr)) :=
  (listableNames cat rte).map fun names =>
    names.zip (listableVars cat rtindex rte)

/-- Provenance attributes of an entry which is not rewritten itself. -/
inductive KeptAttrs (cat : Catalog) (rtindex : Nat) (rte : RTE) :
    List TargetEntry → Prop where
  | base {pList : List TargetEntry}
      (unlisted : rte.provAttrs = [])
      (exprs : pList.map TargetEntry.expr = expandRTEVars cat rtindex rte)
      (resnos : pList.map TargetEntry.resno = List.range' 1 pList.length)
      (plain : ∀ te ∈ pList, Plain te)
      (named : ∀ te ∈ pList, te.resname.isSome = true) :
      KeptAttrs cat rtindex rte pList
  | listed {columns : List (String × Expr)} {provAttrs : List String}
      (named : namedColumns cat rtindex rte = some columns)
      (labels : allLabels rte.provAttrs = some provAttrs)
      (present : rte.provAttrs ≠ []) :
      KeptAttrs cat rtindex rte (provAttrs.flatMap fun provAttr => listedEntries provAttr columns)

/-- The subquery of an entry that is rewritten recursively. -/
def recursesInto (rte : RTE) : Option Query :=
  match rte.kind with
  | .subquery query =>
    if rte.provAttrs.isEmpty then
      if rte.isProvBase then none else some query
    else
      if query.shouldRewrite then some query else none
  | _ => none

/-- Is the entry counted as an input of its query? -/
def isCounted (rte : RTE) : Bool := !skipsRTE rte && !rte.isJoin

/-- Kinds of entry that provenance attributes can come from. -/
def hasProvenance (rte : RTE) : Bool :=
  match rte.kind with
  | .relation _ => true
  | .subquery _ => true
  | _ => false

/-- How an input is rewritten, and the attributes pushed for it. -/
inductive EntryShape (cat : Catalog) (R : Rel) (rtindex : Nat) :
    RTE → RTE → List TargetEntry → Prop where
  | kept {rte rte' : RTE} {pList : List TargetEntry}
      (provenance : hasProvenance rte = true)
      (leaf : recursesInto rte = none)
      (kind : rte'.kind = rte.kind)
      (eref : rte'.eref = rte.eref)
      (attrs : KeptAttrs cat rtindex rte pList) :
      EntryShape cat R rtindex rte rte' pList
  | recursed {rte : RTE} {query query' : Query}
      {pList : List TargetEntry}
      (descends : recursesInto rte = some query)
      (related : R query query' pList) :
      EntryShape cat R rtindex rte { rte with kind := .subquery query' } pList

/-- How the entries from position `rtindex` on are rewritten. -/
inductive InputsFrom (cat : Catalog) (R : Rel) :
    Nat → List RTE → List RTE → List Nat → List (List TargetEntry) → Prop where
  | nil {rtindex : Nat} : InputsFrom cat R rtindex [] [] [] []
  | other {rtindex : Nat} {rte : RTE} {rest rest' : List RTE}
      {subList : List Nat} {lists : List (List TargetEntry)}
      (uncounted : isCounted rte = false)
      (tail : InputsFrom cat R (rtindex + 1) rest rest' subList lists) :
      InputsFrom cat R rtindex (rte :: rest) (rte :: rest') subList lists
  | counted {rtindex : Nat} {rte rte' : RTE} {rest rest' : List RTE}
      {subList : List Nat} {pList : List TargetEntry}
      {lists : List (List TargetEntry)}
      (isInput : isCounted rte = true)
      (entry : EntryShape cat R rtindex rte rte' pList)
      (tail : InputsFrom cat R (rtindex + 1) rest rest' subList lists) :
      InputsFrom cat R rtindex (rte :: rest) (rte' :: rest') (rtindex :: subList) (pList :: lists)

/-! ## Select-project-join nodes -/

/-- Numbers the provenance attributes as DISTINCT items. -/
def numberEntries (start : Nat) (entries : List TargetEntry) :
    List TargetEntry :=
  (entries.zipIdx start).map fun (te, ref) =>
    { te with ressortgroupref := ref }

/-- What DISTINCT does to the provenance attributes. -/
inductive DistinctShape (query : Query) (entries : List TargetEntry) :
    List TargetEntry → List SortClause → Prop where
  | absent (none : query.distinctClause = []) :
      DistinctShape query entries entries []
  | present {clauses : List SortClause}
      (some : query.distinctClause ≠ [])
      (refs :
        clauses.map SortClause.tleSortGroupRef =
          List.range' (maxGroupref query.targetList + 1) entries.length) :
      DistinctShape query entries (numberEntries (maxGroupref query.targetList + 1) entries) clauses

/-- The result of rewriting a node, its LIMIT left in place. -/
inductive SpjShape (cat : Catalog) (R : Rel) (query : Query) :
    Query → List TargetEntry → Prop where
  | intro {rtable' rtable'' : List RTE} {subList : List Nat}
      {lists : List (List TargetEntry)}
      {entries pList : List TargetEntry} {clauses : List SortClause}
      (inputs : InputsFrom cat R 1 query.rtable rtable' subList lists)
      (joins :
        correctJoinRTEs lists.reverse subList query.fromlist
          (rtable'.map correctRTEAlias) = some rtable'')
      (attrs :
        provenanceEntries { query with rtable := rtable'' }
          (query.targetList.length + 1) (attributesOf subList lists) = some entries)
      (distinct : DistinctShape query entries pList clauses) :
      SpjShape cat R query
        { query with
          rtable := rtable''
          targetList := query.targetList ++ pList
          distinctClause := query.distinctClause ++ clauses }
        pList

/-! ## The join of two queries -/

/-- Null-safe equality of two expressions. -/
def notDistinct (pair : Expr × Expr) : Expr :=
  .boolExpr .not [.distinctExpr pair.1 pair.2]

/-- The entry for the join of two entries; it has all of their columns. -/
def pairJoinRTE (cat : Catalog) (jointype : JoinType) (name : String)
    (left right : RTE) :
    RTE :=
  { kind := .join jointype
      (expandRTEVars cat 1 left ++ expandRTEVars cat 2 right)
    userAlias := none
    eref := {
      aliasname := some name
      colnames := expandRTENames cat left ++ expandRTENames cat right } }

/-- The entries of two subqueries and of their join. -/
def pairRtable (cat : Catalog) (jointype : JoinType) (name : String) (left right : Query)
    (leftName rightName : String) :
    List RTE :=
  let leftEntry := correctRTEAlias (subqueryRTE left leftName)
  let rightEntry := correctRTEAlias (subqueryRTE right rightName)
  [leftEntry, rightEntry, pairJoinRTE cat jointype name leftEntry rightEntry]

/-- A query over two subqueries and their join. -/
def pairTop (cat : Catalog) (jointype : JoinType) (name : String)
    (left right : RTE) (quals : Expr) (targetList : List TargetEntry)
    (sortClause : List SortClause) :
    Query :=
  { targetList := targetList
    sortClause := sortClause
    fromlist := [.joinExpr jointype 3 (.rangeTblRef 1) (.rangeTblRef 2) (some quals)]
    rtable := [left, right, pairJoinRTE cat jointype name left right] }

/-! ## Nodes with LIMIT -/

/-- A node without its LIMIT and OFFSET. -/
def withoutLimit (query : Query) : Query :=
  { query with limitCount := none, limitOffset := none }

/-- All columns of the second entry. -/
def secondColumns (targetList : List TargetEntry) : List TargetEntry :=
  (targetList.zipIdx 1).map fun (te, attno) =>
    { expr := .var 2 attno (exprType te.expr)
      resno := attno
      resname := te.resname
      resjunk := te.resjunk }

/-- The columns of the original in both entries. -/
def columnPairs (targetList : List TargetEntry) : List (Expr × Expr) :=
  (targetList.zipIdx 1).map fun (te, attno) =>
    (.var 1 attno (exprType te.expr), .var 2 attno (exprType te.expr))

/-- The join of a node with its rewritten copy. -/
def limitTop (cat : Catalog) (query rewrittenQuery : Query) : Query :=
  pairTop cat .inner "newJoin"
    (correctRTEAlias (subqueryRTE query "originalQuery"))
    (correctRTEAlias (subqueryRTE rewrittenQuery "rewrittenQuery"))
    (.boolExpr .and ((columnPairs query.targetList).map notDistinct))
    (secondColumns rewrittenQuery.targetList) []

/-! ## Aggregation nodes -/

/-- Are the lists equal up to the names of their entries? -/
def SameButNames (left right : List TargetEntry) : Prop :=
  left.map (fun te => { te with resname := none }) = right.map fun te => { te with resname := none }

/-- The aggregate-free entries, renumbered and made visible. -/
def strippedEntries (targetList : List TargetEntry) : List TargetEntry :=
  ((targetList.filter fun te => !isAggrExpr te.expr).zipIdx 1).map
    fun (te, resno) => { te with resno := resno, resjunk := false }

/-- Entries for the visible columns of the original aggregation. -/
def visibleEntries (query : Query) : List TargetEntry :=
  ((nonJunk query.targetList).zipIdx 1).map fun (te, resno) =>
    { expr := .var 1 te.resno (exprType te.expr)
      resno := resno
      resname := te.resname
      ressortgroupref := if isUsedInOrderBy query te then te.ressortgroupref else 0 }

/-- The input of an aggregation as a query of its own. -/
def aggregationInput (query : Query) (targetList : List TargetEntry) :
    Query :=
  { query with
    limitCount := none
    limitOffset := none
    hasAggs := false
    groupClause := []
    havingQual := none
    distinctClause := []
    sortClause := []
    targetList := clearGrouprefs targetList }

/-- The original aggregation, with hidden columns made visible. -/
def originalAggregation (query : Query) (targetList : List TargetEntry) :
    Query :=
  { query with targetList := targetList, shouldRewrite := false }

/-- The left join of an aggregation with its rewritten input. -/
def aggTop (cat : Catalog) (query : Query)
    (stripped shown : List TargetEntry) (sortClause : List SortClause)
    (input : Query) (originalName inputName : String) :
    Query :=
  pairTop cat .left "joinAggAndRewrite"
    (correctRTEAlias (subqueryRTE (originalAggregation query shown) originalName))
    (correctRTEAlias (subqueryRTE { input with shouldRewrite := false } inputName))
    (conjunction ((joinAttributes (getGroupByTLEs query) stripped).map notDistinct))
    (visibleEntries query) sortClause

inductive AggShape (cat : Catalog) (R : Rel) (query : Query) :
    Query → List TargetEntry → Prop where
  | intro {stripped shown : List TargetEntry}
      {sortClause : List SortClause} {input : Query}
      {inputAttrs pList : List TargetEntry}
      {originalName inputName : String}
      (strip : SameButNames stripped (strippedEntries query.targetList))
      (named : ∀ te ∈ stripped, te.resname.isSome = true)
      (show_ : SameButNames shown (query.targetList.map fun te => { te with resjunk := false }))
      (shownNamed : ∀ te ∈ shown, te.resname.isSome = true)
      (order : checkOrderClause query query.sortClause = some sortClause)
      (rewritten : R (aggregationInput query stripped) input inputAttrs)
      (attrs :
        provenanceEntries
          (aggTop cat query stripped shown sortClause input originalName inputName)
          ((visibleEntries query).length + 1)
          (attributesOf [2] [inputAttrs]) = some pList) :
      AggShape cat R query
        { aggTop cat query stripped shown sortClause input originalName
            inputName with
          targetList := visibleEntries query ++ pList }
        pList

/-! ## Set-operation nodes -/

/-- The inputs of a set operation are all rewritten. -/
inductive SetInputs (R : Rel) :
    List RTE → List RTE → List (List TargetEntry) → Prop where
  | nil : SetInputs R [] [] []
  | cons {rte : RTE} {query query' : Query} {rest rest' : List RTE}
      {pList : List TargetEntry} {lists : List (List TargetEntry)}
      (kind : rte.kind = .subquery query)
      (related : R query query' pList)
      (tail : SetInputs R rest rest' lists) :
      SetInputs R (rte :: rest)
        ({ rte with kind := .subquery query' } :: rest')
        (pList :: lists)

/-- The entry for a join with the given alias columns. -/
def setJoinRTE (jointype : JoinType)
    (columns : List (Expr × Option String)) :
    RTE :=
  { kind := .join jointype (columns.map fun column => column.1)
    userAlias := some { aliasname := some "LEFT_JOIN_RIGHT" }
    eref := {
      aliasname := some "LEFT_JOIN_RIGHT"
      colnames := columns.map fun column => column.2 } }

/-- The columns compared by a join of two entries given by list position. -/
def setPairs (width leftIndex rightIndex : Nat) (left right : RTE) :
    List (Expr × Expr) :=
  (((getAttributesForJoin left).take width).zip
    ((getAttributesForJoin right).take width)).map fun (left, right) =>
      (.var (leftIndex + 1) left.resno (exprType left.expr),
        .var (rightIndex + 1) right.resno (exprType right.expr))

/-- The condition of a join of two entries. -/
def setCondition (width leftIndex rightIndex : Nat) (left right : RTE)
    (neq : Bool) :
    Option Expr :=
  (createAndFromList
    ((setPairs width leftIndex rightIndex left right).map
      notDistinct)).map fun condition =>
        if neq then .boolExpr .not [condition] else condition

/--
Joins the entry `last` at list position `lastIndex`, the join built so far,
with further inputs given with their list positions.
-/
def chainJoins (jointype : JoinType) (width : Nat) :
    List (RTE × Nat) → Nat → RTE → JoinTreeNode → List RTE × JoinTreeNode
  | [], _, _, node => ([], node)
  | (input, index) :: rest, lastIndex, last, node =>
    let join := setJoinRTE jointype (makeRTEVars last lastIndex ++ makeRTEVars input index)
    let built := chainJoins jointype width rest (lastIndex + 1) join
      (.joinExpr jointype (lastIndex + 2) node
        (.rangeTblRef (index + 1))
        (setCondition width lastIndex index last input false))
    (join :: built.1, built.2)

/-- Joins the original set operation with all inputs. -/
def inputJoins (jointype : JoinType) (width : Nat) (original : RTE) :
    List RTE → List RTE × JoinTreeNode
  | [] => ([], .rangeTblRef 1)
  | first :: rest =>
    let join := setJoinRTE jointype (makeRTEVars original 0 ++ makeRTEVars first 1)
    let built := chainJoins jointype width (rest.zipIdx 2)
      (rest.length + 2) join
      (.joinExpr jointype (rest.length + 3) (.rangeTblRef 1)
        (.rangeTblRef 2) (setCondition width 0 1 original first false))
    (join :: built.1, built.2)

/-- Joins the original set difference with its two inputs. -/
def differenceJoins (all : Bool) (width : Nat)
    (original left right : RTE) :
    List RTE × JoinTreeNode :=
  let inner := setJoinRTE .inner (makeRTEVars original 0 ++ makeRTEVars left 1)
  let outer := setJoinRTE .left (makeRTEVars inner 3 ++ makeRTEVars right 2)
  ([inner, outer],
    .joinExpr .left 5
      (.joinExpr .inner 4 (.rangeTblRef 1) (.rangeTblRef 2)
        (setCondition width 0 1 original left false))
      (.rangeTblRef 3)
      (if all then setCondition width 3 2 inner right true
        else some (.const BOOLOID (.bool true))))

def setJoins (op : SetOperation) (all : Bool) (width : Nat)
    (original : RTE) (inputs : List RTE) :
    List RTE × JoinTreeNode :=
  match op, inputs with
  | .except, [left, right] =>
    differenceJoins all width original left right
  | .union, inputs => inputJoins .left width original inputs
  | _, inputs => inputJoins .inner width original inputs

/-- The query over a set operation and its rewritten inputs. -/
def setTop (query : Query) (op : SetOperation) (all : Bool)
    (inputs : List RTE) :
    Query :=
  let original := correctRTEAlias (subqueryRTE query "originalSet")
  let inputs := inputs.map correctRTEAlias
  let joins := setJoins op all query.targetList.length original inputs
  { rtable := original :: inputs ++ joins.1
    fromlist := [joins.2]
    targetList := query.targetList }

inductive SetShape (cat : Catalog) (R : Rel) (query : Query) :
    Query → List TargetEntry → Prop where
  | intro {op : SetOperation} {all : Bool} {colTypes : List Oid}
      {larg rarg : OpTree} {rtable : List RTE}
      {lists : List (List TargetEntry)} {pList : List TargetEntry}
      (tree : query = ofTree query (.node op all colTypes larg rarg))
      (inputs :
        SetInputs R
          (restructure query op (.node op all colTypes larg rarg)).leaves
          rtable lists)
      (attrs :
        provenanceEntries (setTop query op all rtable)
          (query.targetList.length + 1)
          (attributesOf (List.range' 2 rtable.length) lists) = some pList) :
      SetShape cat R query
        { setTop query op all rtable with
          targetList := query.targetList ++ pList }
        pList

/-! ## All nodes -/

/-- The result of rewriting a query node. -/
inductive NodeShape (cat : Catalog) (R : Rel) (query : Query) :
    Query → List TargetEntry → Prop where
  | spj {query' : Query} {pList : List TargetEntry}
      (noAggs : query.hasAggs = false)
      (noSetOp : query.setOperations = none)
      (noLimit : checkLimit query = false)
      (shape : SpjShape cat R query query' pList) :
      NodeShape cat R query query' pList
  | limit {rewrittenQuery : Query} {pList : List TargetEntry}
      (noAggs : query.hasAggs = false)
      (noSetOp : query.setOperations = none)
      (limited : checkLimit query = true)
      (visible : ∀ te ∈ query.targetList, te.resjunk = false)
      (shape : SpjShape cat R (withoutLimit query) rewrittenQuery pList) :
      NodeShape cat R query (limitTop cat query rewrittenQuery) pList
  | agg {query' : Query} {pList : List TargetEntry}
      (aggs : query.hasAggs = true)
      (shape : AggShape cat R query query' pList) :
      NodeShape cat R query query' pList
  | set {query' : Query} {pList : List TargetEntry}
      (noAggs : query.hasAggs = false)
      (setOp : query.setOperations.isSome = true)
      (shape : SetShape cat R query query' pList) :
      NodeShape cat R query query' pList

/-- The result of rewriting a query with at most `n` nested rewrites. -/
def Rewritten (cat : Catalog) : Nat → Rel
  | 0 => fun _ _ _ => False
  | n + 1 => NodeShape cat (Rewritten cat n)

end Ldv.Perm
