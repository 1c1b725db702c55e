import Ldv.Perm.AttrName

/-!
# Range-table utilities of the rewriter

Column expansion of range-table entries, correction of the column names of
rewritten subqueries, routing of provenance attributes through the join
tree, and construction of the joins which the aggregation, set-operation and
LIMIT rewrites add.
-/

namespace Ldv.Perm

open Ldv.Sql

/-! ## Columns of a range-table entry -/

/-- Is the expression a constant?  Such join columns were dropped. -/
def isConst : Expr → Bool
  | .const _ _ => true
  | _ => false

/-- Column references for the live columns of a relation. -/
def expandTupleDesc (attributes : List Attribute) (rtindex : Nat) :
    List Expr :=
  (attributes.zipIdx 1).filterMap fun (attr, attnum) =>
    if attr.attisdropped then none
    else some (.var rtindex attnum attr.atttypid)

/-- Labels of the live columns of a relation. -/
def tupleDescNames (attributes : List Attribute) (eref : Alias) :
    List (Option String) :=
  attributes.zipIdx.filterMap fun (attr, position) =>
    if attr.attisdropped then none
    else if position < eref.colnames.length then
      some (eref.colnames.getD position none)
    else some (some attr.attname)

/-- Column references for a list of column types. -/
def numberedVars (rtindex : Nat) (types : List Oid) : List Expr :=
  (types.zipIdx 1).map fun (type, attnum) => .var rtindex attnum type

/-- The target entries a subquery shows to its parent. -/
def nonJunk (targetList : List TargetEntry) : List TargetEntry :=
  targetList.filter fun te => !te.resjunk

/-- The `colvars` output of `expandRTEWithParam`. -/
def expandRTEVars (cat : Catalog) (rtindex : Nat) (rte : RTE) :
    List Expr :=
  match rte.kind with
  | .relation relid => expandTupleDesc (cat.attributes relid) rtindex
  | .subquery query =>
    numberedVars rtindex ((nonJunk query.targetList).map fun te => exprType te.expr)
  | .function _ coltypes => numberedVars rtindex coltypes
  | .values lists => numberedVars rtindex ((lists.headD []).map exprType)
  | .join _ aliasvars =>
    ((rte.eref.colnames.zip aliasvars).zipIdx 1).filterMap
      fun ((_, aliasvar), attnum) =>
        if isConst aliasvar then none
        else some (.var rtindex attnum (exprType aliasvar))

/--
The `colnames` output of `expandRTEWithParam`; a missing or null label is
`none`.
-/
def expandRTENames (cat : Catalog) (rte : RTE) : List (Option String) :=
  match rte.kind with
  | .relation relid => tupleDescNames (cat.attributes relid) rte.eref
  | .subquery query =>
    (List.range (nonJunk query.targetList).length).map fun position =>
      rte.eref.colnames.getD position none
  | .function _ _ => rte.eref.colnames
  | .values lists =>
    (List.range (lists.headD []).length).map fun position =>
      rte.eref.colnames.getD position none
  | .join _ aliasvars =>
    (rte.eref.colnames.zip aliasvars).filterMap fun (label, aliasvar) =>
      if isConst aliasvar then none else some label

/-- The labels, if none of them is null. -/
def allLabels : List (Option String) → Option (List String)
  | [] => some []
  | label :: rest => do
    let label ← label
    let rest ← allLabels rest
    return label :: rest

theorem allLabels_eq_some_iff {labels : List (Option String)} {names : List String} :
    allLabels labels = some names ↔ labels = names.map some := by
  induction labels generalizing names with
  | nil => cases names <;> simp [allLabels]
  | cons label rest ih =>
    cases label with
    | none => cases names <;> simp [allLabels]
    | some name =>
      cases names with
      | nil =>
        simp [allLabels, Option.bind_eq_some_iff]
      | cons name' names =>
        simp [allLabels, Option.bind_eq_some_iff, ih, and_comm]

/-- Names and column references for the columns of an entry. -/
def expandRTEWithParam (cat : Catalog) (rtindex : Nat) (rte : RTE) :
    Option (List String × List Expr) := do
  let names ← allLabels (expandRTENames cat rte)
  return (names, expandRTEVars cat rtindex rte)

/-! ## Column names of subqueries -/

/-- Takes over the column names of a subquery into its entry. -/
def correctRTEAlias (rte : RTE) : RTE :=
  match rte.kind with
  | .subquery query =>
    let colnames := query.targetList.map TargetEntry.resname
    let eref := { rte.eref with colnames := colnames }
    let userAlias :=
      match rte.userAlias with
      | none => eref
      | some userAlias =>
        if userAlias.colnames.isEmpty then userAlias
        else { userAlias with colnames := colnames }
    { rte with eref := eref, userAlias := some userAlias }
  | _ => rte

def correctSubQueryAlias (query : Query) : Query :=
  { query with rtable := query.rtable.map correctRTEAlias }

/-! ## Routing of provenance attributes -/

/--
The joins above a range-table reference, innermost first, if the join tree
holds the reference.
-/
def findRTindexInJoin (rtindex : Nat) : JoinTreeNode → Option (List Nat)
  | .rangeTblRef rtindex' => if rtindex' = rtindex then some [] else none
  | .joinExpr _ joinRTindex larg rarg _ =>
    match findRTindexInJoin rtindex larg with
    | some path => some (path ++ [joinRTindex])
    | none =>
      (findRTindexInJoin rtindex rarg).map fun path =>
        path ++ [joinRTindex]

/-- The joins above an entry, in the first FROM item which is a join on it. -/
def joinRTElist (rtindex : Nat) : List JoinTreeNode → List Nat
  | [] => []
  | .rangeTblRef _ :: rest => joinRTElist rtindex rest
  | item :: rest =>
    match findRTindexInJoin rtindex item with
    | some path => path
    | none => joinRTElist rtindex rest

def isVarOf (varno varattno : Nat) : Expr → Bool
  | .var varno' varattno' _ => varno' == varno && varattno' == varattno
  | _ => false

/-- Number of the last alias column which is the given column. -/
def lastAliasPosition (varno varattno : Nat) (aliasvars : List Expr) :
    Option Nat :=
  ((aliasvars.zipIdx 1).filter fun (aliasvar, _) =>
    isVarOf varno varattno aliasvar).getLast?.map fun found => found.2

/--
Moves a column reference up through a list of joins.  A join without a
matching alias column leaves the number found before in place, and there is
none at the innermost join.
-/
def routeVar (rtable : List RTE) :
    List Nat → Option Nat → Nat × Nat → Option (Nat × Nat)
  | [], _, var => some var
  | join :: joins, foundAttrNum, (varno, varattno) =>
    let foundAttrNum :=
      (lastAliasPosition varno varattno (aliasvarsAt rtable join)).or foundAttrNum
    match foundAttrNum with
    | none => none
    | some attrNum =>
      routeVar rtable joins (some attrNum) (join, attrNum)

/-- Where the query level sees a column of one of its entries. -/
def getRTindexForProvTE (query : Query) (varno varattno : Nat) :
    Option (Nat × Nat) :=
  routeVar query.rtable (joinRTElist varno query.fromlist) none (varno, varattno)

/-- New target entries for provenance attributes of entries. -/
def provenanceEntries (query : Query) :
    Nat → List (Nat × TargetEntry) → Option (List TargetEntry)
  | _, [] => some []
  | curResno, (curSubquery, te) :: rest => do
    let (varno, varattno) ← getRTindexForProvTE query curSubquery te.resno
    let entries ← provenanceEntries query (curResno + 1) rest
    return {
      expr := .var varno varattno (exprType te.expr)
      resno := curResno
      resname := te.resname } :: entries

/-- Pairs each provenance attribute with the entry it belongs to. -/
def attributesOf (subList : List Nat) (lists : List (List TargetEntry)) :
    List (Nat × TargetEntry) :=
  (subList.zip lists).flatMap fun (rtindex, pSet) =>
    pSet.map fun te => (rtindex, te)

/--
Appends the provenance attributes of the entries in `subList` to the target
list, and returns the new target entries.
-/
def addProvenanceAttrs (query : Query) (subList : List Nat) :
    Rewrite (Query × List TargetEntry) := do
  let lists ← popListAndReverse subList.length
  let pList ← orCrash
    (provenanceEntries query (query.targetList.length + 1) (attributesOf subList lists))
  return ({ query with targetList := query.targetList ++ pList }, pList)

/-! ## Construction of joins -/

/-- A fresh entry for a subquery. -/
def subqueryRTE (subQuery : Query) (aliasName : String) : RTE :=
  { kind := .subquery subQuery
    userAlias := some { aliasname := some aliasName }
    eref := { aliasname := some aliasName } }

/-- A fresh entry for a join, without columns. -/
def joinRTE (jointype : JoinType) : RTE := { kind := .join jointype [] }

/-- Appends a subquery to the range table of a query. -/
def addSubqueryToRT (query subQuery : Query) (aliasName : String) : Query :=
  { query with rtable := query.rtable ++ [subqueryRTE subQuery aliasName] }

/-- Null-safe equality, built on the equality operator of the left type. -/
def createNotDistinctConditionForVars (cat : Catalog) (left right : Expr) :
    Option Expr :=
  (cat.equalityOper (exprType left)).map fun _ =>
    .boolExpr .not [.distinctExpr left right]

/-- Null-safe equality for each pair of columns. -/
def notDistinctConditions (cat : Catalog) :
    List (Expr × Expr) → Option (List Expr)
  | [] => some []
  | (left, right) :: rest => do
    let condition ← createNotDistinctConditionForVars cat left right
    let conditions ← notDistinctConditions cat rest
    return condition :: conditions

/-- Nested conjunction of a list of conditions, or no condition at all. -/
def createAndFromList : List Expr → Option Expr
  | [] => none
  | first :: rest =>
    some (rest.foldl (fun result node => .boolExpr .and [node, result]) first)

/-- Replaces the entry at a position counted from one. -/
def rtReplace {Entry : Type} (rtable : List Entry) (rtindex : Nat)
    (rte : Entry) :
    List Entry :=
  match rtindex with
  | 0 => rtable
  | position + 1 => rtable.set position rte

/-- The alias columns of a join are all columns of its two inputs. -/
def adaptRTEsForJoins (cat : Catalog) (query : Query)
    (join : JoinTreeNode) (joinRTEname : String) :
    Option Query :=
  match join with
  | .rangeTblRef _ => none
  | .joinExpr jointype rtindex larg rarg _ => do
    let rte ← rtFetch query.rtable rtindex
    let lRTE ← rtFetch query.rtable larg.rtindex
    let rRTE ← rtFetch query.rtable rarg.rtindex
    let (lNames, lVars) ← expandRTEWithParam cat larg.rtindex lRTE
    let (rNames, rVars) ← expandRTEWithParam cat rarg.rtindex rRTE
    let rte := { rte with
      kind := .join jointype (lVars ++ rVars)
      eref := {
        aliasname := some joinRTEname
        colnames := (lNames ++ rNames).map some }
      isProvBase := false
      provAttrs := []
      userAlias := none }
    return { query with rtable := rtReplace query.rtable rtindex rte }

/-!
## Provenance columns announced during parse analysis

Before a marked subquery is rewritten, the parser has to know the columns it
will have.  `expandProvenanceRTE` predicts them: it collects the base
relations the subquery accesses and generates names for all of their
attributes, with the same counters which the rewriter uses later.
-/

mutual

/-- The entries from which a marked query takes its provenance. -/
def findBaseRelationsForProvenanceQuery : Query → List RTE
  | { rtable := rtable, .. } => findBaseRelationsForRtable rtable

def findBaseRelationsForRtable : List (RangeTblEntry Query) → List RTE
  | [] => []
  | rte :: rest =>
    findBaseRelationsForProvenanceRTE rte ++ findBaseRelationsForRtable rest

def findBaseRelationsForProvenanceRTE :
    RangeTblEntry Query → List RTE
  | { kind := kind, userAlias := userAlias, eref := eref,
      isProvBase := true, provAttrs := provAttrs } =>
      [{ kind := kind, userAlias := userAlias, eref := eref,
         isProvBase := true, provAttrs := provAttrs }]
  | { kind := .subquery query, .. } =>
    findBaseRelationsForProvenanceQuery query
  | { kind := .relation relid, userAlias := userAlias, eref := eref,
      isProvBase := false, provAttrs := provAttrs } =>
      [{ kind := .relation relid, userAlias := userAlias, eref := eref,
         isProvBase := false, provAttrs := provAttrs }]
  | _ => []

end

def resetRelReferences : Rewrite PUnit :=
  modifyThe RewriteState fun state =>
    { state with relRefCount := [], queryRefCount := [] }

/-- Names for the attributes of one base relation. -/
def provAttrNames (cat : Catalog) (rte : RTE) :
    List String → Rewrite (List String)
  | [] => pure []
  | name :: rest => do
    let provName ← createProvAttrName cat rte name
    let names ← provAttrNames cat rte rest
    return provName :: names

/-- Names and types of the provenance columns of a list of base relations. -/
def announceBaseRelations (cat : Catalog) :
    List RTE → Rewrite (List (String × Oid))
  | [] => pure []
  | rte :: rest => do
    let (_, rte) ← getQueryRefNum cat rte true
    let (names, vars) ← orCrash (expandRTEWithParam cat 1 rte)
    let provNames ← provAttrNames cat rte names
    let columns ← announceBaseRelations cat rest
    return provNames.zip (vars.map exprType) ++ columns

/-- The provenance columns announced for a subquery entry. -/
def expandProvenanceRTE (cat : Catalog) (rte : RTE) :
    Rewrite (List (String × Oid)) := do
  let baseRelRTEs := findBaseRelationsForProvenanceRTE rte
  resetRelReferences
  announceBaseRelations cat baseRelRTEs

/-- Counts the references to base relations without making names. -/
def countBaseRelations (cat : Catalog) : List RTE → Rewrite PUnit
  | [] => pure ⟨⟩
  | rte :: rest => do
    let (_, rte) ← getQueryRefNum cat rte true
    let _ ← orCrash (expandRTEWithParam cat 1 rte)
    countBaseRelations cat rest

/--
The effect of expanding a marked subquery entry when no names are asked
for: the reference counters start again.
-/
def recountMarkedRTE (cat : Catalog) (rte : RTE) : Rewrite PUnit := do
  match rte.kind with
  | .subquery query =>
    if query.shouldRewrite then
      match query.contribution with
      | .influence | .copyPartialTransitive | .copyPartialNontransitive
      | .copyCompleteTransitive | .copyCompleteNontransitive =>
        resetRelReferences
        countBaseRelations cat (findBaseRelationsForProvenanceRTE rte)
      | _ => pure ⟨⟩
    else
      pure ⟨⟩
  | _ => pure ⟨⟩

end Ldv.Perm
