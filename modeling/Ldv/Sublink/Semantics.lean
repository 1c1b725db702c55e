import Ldv.Sublink.Syntax
import Ldv.Sql.Semantics

/-!
# Meaning of queries with sublinks

A sublink query denotes a list of rows which depends on the columns of the
enclosing queries it refers to.  An ANY or ALL sublink is the three-valued
disjunction or conjunction of its test over these rows.  A scalar sublink
has the value of the first column, and `null` without a row; PostgreSQL
raises an error if there are several rows, so statements about queries
which drop such a sublink ask for at most one.

The planner rejects an ON condition which refers to an entry outside of its
join, and a set operation with a target entry of its own.  A query has a
result only if it is `plannable`.
-/

namespace Ldv.Sublink

open Ldv.Sql
open Relational

variable {Sub : Type}

/-- Values of all columns in scope. -/
abbrev Scope := Var → Datum

/-- The scope of a query level within enclosing levels. -/
def Scope.push (env : Env) (outer : Scope) : Scope :=
  fun ref =>
    match ref.varlevelsup with
    | 0 => env.lookup ref.varno ref.varattno
    | level + 1 => outer { ref with varlevelsup := level }

/--
A database with the meaning of operators, functions and sublink queries.
The rows of a query depend on the columns it refers to only.
-/
structure Instance (subs : Subqueries Sub) where
  table : Oid → List Row
  op : Oid → List Datum → Datum
  func : Oid → List Datum → Datum
  rows : Sub → Scope → List Row
  rows_congr :
    ∀ sub scope scope',
      (∀ ref ∈ subs.corrVars sub, scope ref = scope' ref) →
      rows sub scope = rows sub scope'

variable {subs : Subqueries Sub}

/-- The rows of a query have a value for each of its target entries. -/
def Instance.FullRows (inst : Instance subs) (sub : Sub) : Prop :=
  ∀ scope, ∀ row ∈ inst.rows sub scope, row.length = subs.targetListLength sub

/-- The rows of the rewritten query; there are none if the rewriter stops. -/
def Instance.rewrittenRows (inst : Instance subs) (sub : Sub)
    (scope : Scope) : List Row :=
  match subs.rewriteQueryNode sub with
  | some rewrittenSub => inst.rows rewrittenSub scope
  | none => []

theorem Instance.rewrittenRows_eq (inst : Instance subs) {sub rewrittenSub : Sub}
    (rewrites : subs.rewriteQueryNode sub = some rewrittenSub) (scope : Scope) :
    inst.rewrittenRows sub scope = inst.rows rewrittenSub scope := by
  simp [Instance.rewrittenRows, rewrites]

/-! ## Expressions -/

/-- The value of a CASE with the given conditions, results and default. -/
def chooseWhen : List Datum → Datum
  | [] => .null
  | [defresult] => defresult
  | cond :: result :: rest =>
    if cond.isTrue then result else chooseWhen rest

/-- The value of a node, given the values of its arguments. -/
def Instance.apply (inst : Instance subs) (values : List Datum) :
    Head → Datum
  | .opExpr opno => inst.op opno values
  | .funcExpr funcid _ => inst.func funcid values
  | .boolExpr boolop => evalBoolExpr boolop values
  | .nullTest => .bool (values.headD .null = .null)
  | .distinctExpr =>
    Datum.distinct (values.headD .null) (values.tail.headD .null)
  | .caseExpr => chooseWhen values
  | .coalesceExpr => chooseCoalesce values

/-- The value of a sublink, given the rows of its query and the test. -/
def sublinkValue (subLinkType : SubLinkType) (test : Row → Datum)
    (rows : List Row) : Datum :=
  match subLinkType with
  | .exists => .bool (!rows.isEmpty)
  | .any =>
    rows.foldr (fun row value => Datum.sqlOr (test row) value) (.bool false)
  | .all =>
    rows.foldr (fun row value => Datum.sqlAnd (test row) value) (.bool true)
  | .expr => Row.column (rows.headD []) 1

mutual

/-- Value of an expression; `params` is the row a test is applied to. -/
def Expr.eval (inst : Instance subs) (scope : Scope) (params : Row) :
    Expr Sub → Datum
  | .var ref => scope ref
  | .const value => value
  | .param paramid => params.column paramid
  | .node head args => inst.apply (Expr.evalList inst scope params args) head
  | .subLink subLinkType testexpr subselect =>
    sublinkValue subLinkType
      (fun row => testexpr.eval inst scope row)
      (inst.rows subselect scope)
  | .existsQuery quals subselect =>
    .bool ((inst.rows subselect scope).any fun row =>
      (quals.eval inst (Scope.push (Env.single 1 row) scope) []).isTrue)

def Expr.evalList (inst : Instance subs) (scope : Scope) (params : Row) :
    List (Expr Sub) → List Datum
  | [] => []
  | expr :: rest =>
    expr.eval inst scope params :: Expr.evalList inst scope params rest

end

/-- Does a condition accept the row combination? -/
def passes (inst : Instance subs) (scope : Scope) :
    Option (Expr Sub) → Bool
  | none => true
  | some quals => (quals.eval inst scope []).isTrue

/-! ## FROM clauses -/

/-- Rows of a range-table entry; a join has none of its own. -/
def RangeTblEntry.rows (inst : Instance subs) (outer : Scope) :
    RangeTblEntry Sub → List Row
  | .relation relid _ => inst.table relid
  | .subquery query added =>
    (inst.rows query (Scope.push Env.empty outer)).map fun row =>
      row ++ added
  | .baseRelUnionNull relid attnums =>
    (inst.table relid).map (fun row => attnums.map row.column) ++
      [attnums.map fun _ => Datum.null]
  | .join _ => []

/-- Rows of the entry at a range-table position. -/
def inputRows (inst : Instance subs) (outer : Scope)
    (rtable : List (RangeTblEntry Sub)) (rtindex : Nat) : List Row :=
  match rtFetch rtable rtindex with
  | some rte => rte.rows inst outer
  | none => []

/-- Gives a join entry its row. -/
def setJoin (inst : Instance subs) (outer : Scope)
    (rtable : List (RangeTblEntry Sub)) (rtindex : Nat) (env : Env) : Env :=
  env.set rtindex ((aliasvarsAt rtable rtindex).map (Expr.eval inst (Scope.push env outer) []))

/-- All row combinations of a FROM item. -/
def JoinTreeNode.eval (inst : Instance subs) (outer : Scope)
    (rtable : List (RangeTblEntry Sub)) :
    JoinTreeNode Sub → List Env
  | .rangeTblRef rtindex =>
    (inputRows inst outer rtable rtindex).map (Env.single rtindex)
  | .joinExpr jointype rtindex larg rarg quals =>
    (joinWith jointype.keepsLeft jointype.keepsRight
      (fun left right =>
        passes inst (Scope.push (left.merge right) outer) quals)
      Env.merge id id
      (larg.eval inst outer rtable)
      (rarg.eval inst outer rtable)).map (setJoin inst outer rtable rtindex)

/-- All row combinations of a FROM clause. -/
def evalFromlist (inst : Instance subs) (outer : Scope)
    (rtable : List (RangeTblEntry Sub)) :
    List (JoinTreeNode Sub) → List Env
  | [] => [Env.empty]
  | item :: rest =>
    crossWith Env.merge (item.eval inst outer rtable) (evalFromlist inst outer rtable rest)

/-! ## Queries -/

namespace Query

/-- Row combinations of FROM and WHERE. -/
def combinations (inst : Instance subs) (outer : Scope)
    (query : Query Sub) : List Env :=
  (evalFromlist inst outer query.rtable query.fromlist).filter fun env =>
    passes inst (Scope.push env outer) query.quals

/-- The target entries a client sees. -/
def visible (query : Query Sub) : List (TargetEntry Sub) :=
  query.targetList.filter fun te => !te.resjunk

/-- Values of the visible target entries. -/
def targetRow (inst : Instance subs) (outer : Scope) (query : Query Sub)
    (env : Env) : Row :=
  query.visible.map fun te => te.expr.eval inst (Scope.push env outer) []

/-- The tuples of a query. -/
def tuples (inst : Instance subs) (outer : Scope) (query : Query Sub) :
    List Row :=
  (query.combinations inst outer).map (query.targetRow inst outer)

end Query

/-! ## Queries the planner accepts -/

/-- ON conditions refer to entries below their join. -/
def JoinTreeNode.plannable (subs : Subqueries Sub) :
    JoinTreeNode Sub → Bool
  | .rangeTblRef _ => true
  | .joinExpr _ _ larg rarg quals =>
    larg.plannable subs && rarg.plannable subs &&
      (qualVarnos subs quals).all fun varno =>
        (larg.rtindexes ++ rarg.rtindexes).contains varno

/-- A FROM subquery refers to enclosing queries only. -/
def RangeTblEntry.plannable (subs : Subqueries Sub) :
    RangeTblEntry Sub → Bool
  | .subquery query added =>
    (added.isEmpty || !subs.isSetOperation query) &&
      (subs.corrVars query).all fun ref => 0 < ref.varlevelsup
  | _ => true

/-- Range-table positions of a FROM clause. -/
def Query.rtindexes (query : Query Sub) : List Nat :=
  query.fromlist.flatMap JoinTreeNode.rtindexes

/-- Range-table positions the WHERE clause and the target list read. -/
def Query.varnos (subs : Subqueries Sub) (query : Query Sub) : List Nat :=
  qualVarnos subs query.quals ++ query.targetList.flatMap fun te => te.expr.varnos subs

/-- Does the planner accept the query? -/
def Query.plannable (subs : Subqueries Sub) (query : Query Sub) : Bool :=
  query.rtable.all (RangeTblEntry.plannable subs) &&
    query.fromlist.all (JoinTreeNode.plannable subs) &&
    (query.varnos subs).all fun varno => query.rtindexes.contains varno

theorem Query.plannable_iff {query : Query Sub} :
    query.plannable subs = true ↔
      (∀ rte ∈ query.rtable, rte.plannable subs = true) ∧
        (∀ item ∈ query.fromlist, item.plannable subs = true) ∧
        ∀ varno ∈ query.varnos subs, varno ∈ query.rtindexes := by
  simp [Query.plannable, and_assoc]

/--
A rewrite of a query came to an end, and its result is a query the planner
accepts with the same distinct tuples.
-/
def SameTuples (inst : Instance subs) (outer : Scope) (query : Query Sub)
    (result : Option (Query Sub)) : Prop :=
  ∃ rewritten, result = some rewritten ∧
    rewritten.plannable subs = true ∧
    ∀ row, row ∈ rewritten.tuples inst outer ↔ row ∈ query.tuples inst outer

/-!
## Row combinations which agree on the entries of a query

The strategies append entries to the range table and never renumber the
ones they find.  So a row combination of a rewritten query stands for the
row combination of the original query with which it agrees on the first
positions, and an expression of the original query has the same value in
both.
-/

variable
  {Sub : Type}
  {subs : Subqueries Sub}

/-! ## Values depend on the columns read -/

theorem Expr.evalList_eq_map (inst : Instance subs) (scope : Scope) (params : Row)
    (exprs : List (Expr Sub)) :
    Expr.evalList inst scope params exprs = exprs.map (Expr.eval inst scope params) := by
  induction exprs with
  | nil => rfl
  | cons expr rest ih =>
    simp [Expr.evalList, ih]

theorem Expr.mem_varsList {exprs : List (Expr Sub)} {ref : Var} :
    ref ∈ Expr.varsList subs exprs ↔ ∃ expr ∈ exprs, ref ∈ expr.vars subs := by
  induction exprs with
  | nil => simp [Expr.varsList]
  | cons expr rest ih =>
    simp [Expr.varsList, ih]

theorem Expr.eval_congr (inst : Instance subs) {scope scope' : Scope} (params : Row)
    (expr : Expr Sub) (agree : ∀ ref ∈ expr.vars subs, scope ref = scope' ref) :
    expr.eval inst scope params = expr.eval inst scope' params := by
  induction expr generalizing scope scope' params with
  | var ref => exact agree ref (by simp [Expr.vars])
  | const _ => rfl
  | param _ => rfl
  | node head args ih =>
    simp only [Expr.eval, Expr.evalList_eq_map]
    rw [List.map_congr_left fun arg member => ih arg member params
      fun ref isVar => agree ref (Expr.mem_varsList.2 ⟨arg, member, isVar⟩)]
  | subLink subLinkType testexpr subselect ih =>
    have test :
        (fun row => testexpr.eval inst scope row) = fun row => testexpr.eval inst scope' row := by
      funext row
      exact ih row fun ref member =>
        agree ref (by simp [Expr.vars, member])
    have rows : inst.rows subselect scope = inst.rows subselect scope' :=
      inst.rows_congr subselect scope scope' fun ref member =>
        agree ref (by simp [Expr.vars, member])
    simp only [Expr.eval, test, rows]
  | existsQuery quals subselect ih =>
    have test :
        (fun row => (quals.eval inst (Scope.push (Env.single 1 row) scope) []).isTrue) =
          fun row => (quals.eval inst (Scope.push (Env.single 1 row) scope') []).isTrue := by
      funext row
      rw [ih [] fun ref member => ?_]
      cases level : ref.varlevelsup with
      | zero => simp only [Scope.push, level]
      | succ above =>
        simp only [Scope.push, level]
        refine agree _ ?_
        simp only [Expr.vars, List.mem_append, List.mem_filterMap]
        exact .inl ⟨ref, member, by simp only [Var.lower, level]⟩
    have rows : inst.rows subselect scope = inst.rows subselect scope' :=
      inst.rows_congr subselect scope scope' fun ref member =>
        agree ref (by simp [Expr.vars, member])
    simp only [Expr.eval, test, rows]

theorem Expr.mem_varnos {expr : Expr Sub} {varno : Nat} :
    varno ∈ expr.varnos subs ↔ ∃ ref ∈ expr.vars subs, ref.varlevelsup = 0 ∧ ref.varno = varno := by
  simp [Expr.varnos, and_assoc]

/-! ## Agreement below a position -/

/-- The combinations have the same rows up to a range-table position. -/
def AgreeUpTo (limit : Nat) (left right : Env) : Prop :=
  ∀ rtindex ≤ limit, left rtindex = right rtindex

namespace AgreeUpTo

variable {limit : Nat} {left middle right : Env}

theorem refl (limit : Nat) (env : Env) :
    AgreeUpTo limit env env :=
  fun _ _ => rfl

theorem trans (first : AgreeUpTo limit left middle) (second : AgreeUpTo limit middle right) :
    AgreeUpTo limit left right :=
  fun rtindex below => (first rtindex below).trans (second rtindex below)

theorem mono {limit' : Nat} (agree : AgreeUpTo limit left right) (smaller : limit' ≤ limit) :
    AgreeUpTo limit' left right :=
  fun rtindex below => agree rtindex (below.trans smaller)

/-- A row at a later position does not matter. -/
theorem set {rtindex : Nat} (agree : AgreeUpTo limit left right) (later : limit < rtindex)
    (row : Row) :
    AgreeUpTo limit left (right.set rtindex row) := by
  intro position below
  rw [agree position below, Env.set, if_neg]
  omega

theorem merge {left' right' : Env} (first : AgreeUpTo limit left left')
    (second : AgreeUpTo limit right right') :
    AgreeUpTo limit (left.merge right) (left'.merge right') := by
  intro position below
  simp only [Env.merge, first position below, second position below]

theorem merge_single {rtindex : Nat} (later : limit < rtindex) (env : Env) (row : Row) :
    AgreeUpTo limit env (env.merge (Env.single rtindex row)) := by
  intro position below
  have other : position ≠ rtindex := by omega
  simp [Env.merge, Env.single, other]

end AgreeUpTo

/-- The expression reads positions up to the limit only. -/
def Expr.Within (subs : Subqueries Sub) (limit : Nat) (expr : Expr Sub) :
    Prop :=
  ∀ varno ∈ expr.varnos subs, varno ≤ limit

theorem push_eq_of_agreeUpTo {limit : Nat} {env env' : Env} {outer : Scope} {expr : Expr Sub}
    (agree : AgreeUpTo limit env env') (inside : expr.Within subs limit) (ref : Var)
    (member : ref ∈ expr.vars subs) :
    Scope.push env outer ref = Scope.push env' outer ref := by
  rcases ref with ⟨_ | level, varno, varattno⟩
  · have below : varno ≤ limit := inside varno (Expr.mem_varnos.2 ⟨_, member, rfl, rfl⟩)
    simp only [Scope.push, Env.lookup, agree varno below]
  · rfl

theorem Expr.eval_of_agreeUpTo (inst : Instance subs) {limit : Nat} {env env' : Env} {outer : Scope}
    {expr : Expr Sub} (agree : AgreeUpTo limit env env') (inside : expr.Within subs limit)
    (params : Row) :
    expr.eval inst (Scope.push env outer) params = expr.eval inst (Scope.push env' outer) params :=
  Expr.eval_congr inst params expr (push_eq_of_agreeUpTo agree inside)

theorem passes_of_agreeUpTo (inst : Instance subs) {limit : Nat} {env env' : Env} {outer : Scope}
    {quals : Option (Expr Sub)} (agree : AgreeUpTo limit env env')
    (inside : ∀ expr ∈ quals, expr.Within subs limit) :
    passes inst (Scope.push env outer) quals = passes inst (Scope.push env' outer) quals := by
  cases quals with
  | none => rfl
  | some expr =>
    simp only [passes]
    rw [Expr.eval_of_agreeUpTo inst agree (inside expr rfl)]

/-! ## Range tables which grow at the end -/

theorem rtFetch_append {Entry : Type} {rtable : List Entry} {rtindex : Nat}
    (inside : rtindex ≤ rtable.length) (added : List Entry) :
    rtFetch (rtable ++ added) rtindex = rtFetch rtable rtindex := by
  cases rtindex with
  | zero => rfl
  | succ position =>
    exact List.getElem?_append_left (by omega)

theorem rtFetch_append_length {Entry : Type} (rtable : List Entry) (entry : Entry)
    (added : List Entry) :
    rtFetch (rtable ++ entry :: added) (rtable.length + 1) = some entry := by
  simp [rtFetch]

/-- A FROM item depends on the entries it refers to. -/
theorem JoinTreeNode.eval_of_sameEntries (inst : Instance subs) (outer : Scope)
    {rtable rtable' : List (RangeTblEntry Sub)} (item : JoinTreeNode Sub)
    (same : ∀ rtindex ∈ item.rtindexes, rtFetch rtable' rtindex = rtFetch rtable rtindex) :
    item.eval inst outer rtable' = item.eval inst outer rtable := by
  induction item with
  | rangeTblRef rtindex =>
    simp only [JoinTreeNode.eval, inputRows]
    rw [same rtindex (by simp [JoinTreeNode.rtindexes])]
  | joinExpr jointype rtindex larg rarg quals leftHypothesis rightHypothesis =>
    have sameJoin : setJoin inst outer rtable' rtindex = setJoin inst outer rtable rtindex := by
      funext env
      simp only [setJoin, aliasvarsAt]
      rw [same rtindex (by simp [JoinTreeNode.rtindexes])]
    simp only [JoinTreeNode.eval]
    rw [sameJoin,
      leftHypothesis fun rtindex member =>
        same rtindex (by simp [JoinTreeNode.rtindexes, member]),
      rightHypothesis fun rtindex member =>
        same rtindex (by simp [JoinTreeNode.rtindexes, member])]

theorem evalFromlist_of_sameEntries (inst : Instance subs) (outer : Scope)
    {rtable rtable' : List (RangeTblEntry Sub)} (fromlist : List (JoinTreeNode Sub))
    (same :
      ∀ item ∈ fromlist, ∀ rtindex ∈ item.rtindexes,
        rtFetch rtable' rtindex = rtFetch rtable rtindex) :
    evalFromlist inst outer rtable' fromlist = evalFromlist inst outer rtable fromlist := by
  induction fromlist with
  | nil => rfl
  | cons item rest ih =>
    simp only [evalFromlist]
    rw [JoinTreeNode.eval_of_sameEntries inst outer item (same item (by simp)),
      ih fun other member =>
        same other (by simp [member])]

/-! ## Entries a combination has a row for -/

theorem setJoin_of_ne (inst : Instance subs) (outer : Scope) (rtable : List (RangeTblEntry Sub))
    {rtindex position : Nat} (other : position ≠ rtindex) (env : Env) :
    setJoin inst outer rtable rtindex env position = env position := by
  simp [setJoin, Env.set, other]

theorem JoinTreeNode.eval_outside (inst : Instance subs) (outer : Scope)
    (rtable : List (RangeTblEntry Sub)) (item : JoinTreeNode Sub) :
    ∀ env ∈ item.eval inst outer rtable, ∀ position ∉ item.rtindexes, env position = none := by
  induction item with
  | rangeTblRef rtindex =>
    intro env member position outside
    rcases List.mem_map.1 member with ⟨row, -, rfl⟩
    simp only [JoinTreeNode.rtindexes, List.mem_singleton] at outside
    simp [Env.single, outside]
  | joinExpr jointype rtindex larg rarg quals leftHypothesis rightHypothesis =>
    intro env member position outside
    rcases List.mem_map.1 member with ⟨joined, isJoined, rfl⟩
    simp only [JoinTreeNode.rtindexes, List.mem_append, List.mem_singleton, not_or] at outside
    rw [setJoin_of_ne inst outer rtable outside.2]
    rcases mem_joinWith.1 isJoined with
      ⟨left, leftIn, right, rightIn, -, rfl⟩ |
        ⟨-, left, leftIn, -, rfl⟩ | ⟨-, right, rightIn, -, rfl⟩
    · simp [Env.merge, leftHypothesis left leftIn position outside.1.1,
        rightHypothesis right rightIn position outside.1.2]
    · exact leftHypothesis left leftIn position outside.1.1
    · exact rightHypothesis right rightIn position outside.1.2

theorem JoinTreeNode.eval_beyond (inst : Instance subs) (outer : Scope)
    {rtable : List (RangeTblEntry Sub)} {item : JoinTreeNode Sub} {count : Nat}
    (inRange : ∀ rtindex ∈ item.rtindexes, rtindex ≤ count) {env : Env}
    (member : env ∈ item.eval inst outer rtable) : env (count + 1) = none :=
  item.eval_outside inst outer rtable env member _ fun inItem =>
    absurd (inRange _ inItem) (Nat.not_succ_le_self count)

theorem evalFromlist_outside (inst : Instance subs) (outer : Scope)
    (rtable : List (RangeTblEntry Sub)) (fromlist : List (JoinTreeNode Sub)) :
    ∀ env ∈ evalFromlist inst outer rtable fromlist,
      ∀ position, (∀ item ∈ fromlist, position ∉ item.rtindexes) → env position = none := by
  induction fromlist with
  | nil =>
    intro env member position _
    rw [List.mem_singleton.1 member]
    rfl
  | cons item rest ih =>
    intro env member position outside
    rcases mem_crossWith.1 member with ⟨left, leftIn, right, rightIn, rfl⟩
    simp [Env.merge,
      JoinTreeNode.eval_outside inst outer rtable item left leftIn
        position (outside item (by simp)),
      ih right rightIn position fun other isOther =>
        outside other (by simp [isOther])]

/-! ## Queries as the parser builds them -/

/--
The query comes from the parser: the planner accepts it, and no two FROM
items share an entry.
-/
structure Query.WellFormed (subs : Subqueries Sub) (query : Query Sub) :
    Prop where
  plannable : query.plannable subs = true
  nodup : query.rtindexes.Nodup
  inRange : ∀ item ∈ query.fromlist, ∀ rtindex ∈ item.rtindexes, rtindex ≤ query.rtable.length

namespace Query.WellFormed

variable {query : Query Sub}

theorem le_length (wellFormed : query.WellFormed subs) {rtindex : Nat}
    (member : rtindex ∈ query.rtindexes) :
    rtindex ≤ query.rtable.length := by
  rcases List.mem_flatMap.1 member with ⟨item, isItem, inItem⟩
  exact wellFormed.inRange item isItem rtindex inItem

/-- The WHERE clause refers to entries of the FROM clause. -/
theorem quals_mem (wellFormed : query.WellFormed subs) {expr : Expr Sub}
    (isQuals : query.quals = some expr) {varno : Nat} (member : varno ∈ expr.varnos subs) :
    varno ∈ query.rtindexes := by
  refine (Query.plannable_iff.1 wellFormed.plannable).2.2 varno ?_
  simp [Query.varnos, isQuals, qualVarnos, member]

theorem quals (wellFormed : query.WellFormed subs) (expr : Expr Sub)
    (isQuals : expr ∈ query.quals) :
    expr.Within subs query.rtable.length :=
  fun _ member => wellFormed.le_length (wellFormed.quals_mem isQuals member)

theorem targets (wellFormed : query.WellFormed subs) (te : TargetEntry Sub)
    (isTarget : te ∈ query.targetList) :
    te.expr.Within subs query.rtable.length := by
  intro varno member
  refine wellFormed.le_length ((Query.plannable_iff.1 wellFormed.plannable).2.2 varno ?_)
  simp only [Query.varnos, List.mem_append, List.mem_flatMap]
  exact .inr ⟨te, isTarget, member⟩

end Query.WellFormed

/--
Two queries with the same target list have the same tuples if their row
combinations correspond on the entries the first one has.
-/
theorem tuples_iff_of_sameUpTo (inst : Instance subs) (outer : Scope) {query rewritten : Query Sub}
    (targets : ∀ te ∈ query.targetList, te.expr.Within subs query.rtable.length)
    (sameTargets : rewritten.targetList = query.targetList)
    (same :
      SameUpTo (AgreeUpTo query.rtable.length)
        (query.combinations inst outer)
        (rewritten.combinations inst outer))
    (row : Row) :
    row ∈ rewritten.tuples inst outer ↔ row ∈ query.tuples inst outer := by
  have rows :
      ∀ env env', AgreeUpTo query.rtable.length env env' →
        rewritten.targetRow inst outer env' = query.targetRow inst outer env := by
    intro env env' agree
    simp only [Query.targetRow, Query.visible, sameTargets]
    refine List.map_congr_left fun te member => ?_
    exact (Expr.eval_of_agreeUpTo inst agree (targets te (List.mem_of_mem_filter member)) []).symm
  constructor
  · intro member
    rcases List.mem_map.1 member with ⟨env', isCombination, rfl⟩
    rcases same.2 env' isCombination with ⟨env, original, agree⟩
    rw [rows env env' agree]
    exact List.mem_map_of_mem original
  · intro member
    rcases List.mem_map.1 member with ⟨env, isCombination, rfl⟩
    rcases same.1 env isCombination with ⟨env', combined, agree⟩
    rw [← rows env env' agree]
    exact List.mem_map_of_mem combined

/-!
## Replacing parts of expressions

The strategies take a conjunct out of a condition and put another condition
in its place.  `exprInAndOrTop` asks that the last occurrence of the
conjunct is below AND nodes only; then the condition holds only where the
conjunct does, and the new condition only where the replacement does.
-/

variable
  {Sub : Type}
  {subs : Subqueries Sub}

variable {expr root search replacement : Expr Sub} {path : List (Expr Sub)} {scope scope' : Scope}
  {pairs : List (Expr Sub × Expr Sub)}

/-! ## Three-valued conjunction and disjunction -/

theorem and_isTrue_iff (values : List Datum) :
    (evalBoolExpr .and values).isTrue = true ↔ ∀ value ∈ values, value.isTrue = true := by
  induction values with
  | nil => simp [evalBoolExpr]
  | cons value rest ih =>
    simp only [evalBoolExpr] at ih ⊢
    simp [Datum.sqlAnd_isTrue_iff, ih]

theorem sqlOr_isTrue_iff (left right : Datum) :
    (Datum.sqlOr left right).isTrue = true ↔ left.isTrue = true ∨ right.isTrue = true := by
  rcases left with _ | (_ | _) | _ | _ <;>
    rcases right with _ | (_ | _) | _ | _ <;>
    simp [Datum.sqlOr, Datum.isTrue]

theorem or_isTrue_iff (values : List Datum) :
    (evalBoolExpr .or values).isTrue = true ↔ ∃ value ∈ values, value.isTrue = true := by
  induction values with
  | nil => simp [evalBoolExpr]
  | cons value rest ih =>
    simp only [evalBoolExpr] at ih ⊢
    simp [sqlOr_isTrue_iff, ih]

theorem isTrue_iff (value : Datum) :
    value.isTrue = true ↔ value = .bool true := by
  simp [Datum.isTrue]

/-! ## Places of an expression in another one -/

/-- The expressions right below one, without those in added conditions. -/
def Expr.children : Expr Sub → List (Expr Sub)
  | .node _ args => args
  | .subLink _ testexpr _ => [testexpr]
  | _ => []

@[elab_as_elim]
theorem Expr.childInduction {P : Expr Sub → Prop}
    (step : ∀ expr, (∀ child ∈ expr.children, P child) → P expr) (expr : Expr Sub) :
    P expr := by
  induction expr with
  | node head args ih => exact step _ ih
  | subLink _ _ _ ih =>
    exact step _ (by simpa [Expr.children] using ih)
  | _ => exact step _ (by simp [Expr.children])

def Expr.isAnd : Expr Sub → Bool
  | .node (.boolExpr .and) _ => true
  | _ => false

theorem Expr.vars_subset_of_child {child : Expr Sub} (isChild : child ∈ expr.children) :
    child.vars subs ⊆ expr.vars subs := by
  intro ref isVar
  cases expr with
  | node head args => exact Expr.mem_varsList.2 ⟨child, isChild, isVar⟩
  | subLink _ testexpr _ =>
    rw [List.mem_singleton.1 isChild] at isVar
    simp [Expr.vars, isVar]
  | _ => simp [Expr.children] at isChild

section Search

variable [DecidableEq Sub]

mutual

/--
The nodes above each occurrence of an expression, from the top, in the
order in which `getPathToExprWalker` meets the occurrences.
-/
def pathsToExpr (target : Expr Sub) : Expr Sub → List (List (Expr Sub))
  | .node head args =>
    if .node head args = target then [[]]
    else
      (pathsToExprList target args).map fun path =>
        .node head args :: path
  | .subLink subLinkType testexpr subselect =>
    if .subLink subLinkType testexpr subselect = target then [[]]
    else
      (pathsToExpr target testexpr).map fun path =>
        .subLink subLinkType testexpr subselect :: path
  | .var ref => if .var ref = target then [[]] else []
  | .const value => if .const value = target then [[]] else []
  | .existsQuery quals subselect =>
    if .existsQuery quals subselect = target then [[]] else []
  | .param paramid => if .param paramid = target then [[]] else []

def pathsToExprList (target : Expr Sub) :
    List (Expr Sub) → List (List (Expr Sub))
  | [] => []
  | expr :: rest => pathsToExpr target expr ++ pathsToExprList target rest

end

/--
Is the expression the whole condition, or are the nodes above its last
occurrence all AND nodes?
-/
def exprInAndOrTop (expr root : Expr Sub) : Bool :=
  expr = root ||
    match (pathsToExpr expr root).getLast? with
    | none => false
    | some path => path.all Expr.isAnd

theorem pathsToExprList_eq_flatMap (target : Expr Sub) (exprs : List (Expr Sub)) :
    pathsToExprList target exprs = exprs.flatMap (pathsToExpr target) := by
  induction exprs with
  | nil => rfl
  | cons expr rest ih =>
    simp [pathsToExprList, ih]

/-- An expression is found at the top, or in the children. -/
theorem pathsToExpr_eq (target expr : Expr Sub) :
    pathsToExpr target expr =
      if expr = target then [[]]
      else (expr.children.flatMap (pathsToExpr target)).map (expr :: ·) := by
  cases expr <;> simp [pathsToExpr, Expr.children, pathsToExprList_eq_flatMap]

theorem pathsToExpr_self (target : Expr Sub) :
    pathsToExpr target target = [[]] := by
  cases target <;> simp [pathsToExpr]

/-- An accepted expression has a place below AND nodes only. -/
theorem exists_andPath (accepted : exprInAndOrTop expr root = true) :
    ∃ path ∈ pathsToExpr expr root, path.all Expr.isAnd = true := by
  simp only [exprInAndOrTop, Bool.or_eq_true, decide_eq_true_eq] at accepted
  rcases accepted with rfl | accepted
  · exact ⟨[], by simp [pathsToExpr_self], rfl⟩
  · split at accepted
    · exact absurd accepted (by simp)
    · rename_i path last
      exact ⟨path, List.mem_of_getLast? last, accepted⟩

/-- A place below AND nodes is the expression itself or in a conjunct. -/
theorem andPath_cases
    (isPath : path ∈ pathsToExpr expr root) (conjunct : path.all Expr.isAnd = true) :
    root = expr ∨
      ∃ args below, root = Expr.and args ∧ root ≠ expr ∧
        path = root :: below ∧
        ∃ arg ∈ args, below ∈ pathsToExpr expr arg := by
  cases root with
  | node head args =>
    simp only [pathsToExpr] at isPath
    split at isPath
    · exact .inl (by assumption)
    · rename_i different
      rw [pathsToExprList_eq_flatMap] at isPath
      rcases List.mem_map.1 isPath with ⟨below, inArgs, rfl⟩
      simp only [List.all_cons, Bool.and_eq_true] at conjunct
      have isAnd := conjunct.1
      unfold Expr.isAnd at isAnd
      split at isAnd
      · rename_i equal
        cases equal
        exact .inr ⟨args, below, rfl, different, rfl, List.mem_flatMap.1 inArgs⟩
      · exact absurd isAnd (by simp)
  | subLink subLinkType testexpr subselect =>
    simp only [pathsToExpr] at isPath
    split at isPath
    · exact .inl (by assumption)
    · rcases List.mem_map.1 isPath with ⟨below, -, rfl⟩
      simp [Expr.isAnd] at conjunct
  | _ =>
    simp only [pathsToExpr] at isPath
    split at isPath
    · exact .inl (by assumption)
    · simp at isPath

/-- A conjunct is true where the condition is. -/
theorem isTrue_of_andPath (inst : Instance subs) (scope : Scope) (params : Row)
    (isPath : path ∈ pathsToExpr expr root)
    (conjunct : path.all Expr.isAnd = true) (holds : (root.eval inst scope params).isTrue = true) :
    (expr.eval inst scope params).isTrue = true := by
  induction path generalizing root with
  | nil =>
    rcases andPath_cases isPath conjunct with rfl | ⟨_, _, _, _, ⟨⟩, _⟩
    exact holds
  | cons step below ih =>
    rcases andPath_cases isPath conjunct with
      rfl | ⟨args, _, rfl, _, equal, arg, isArg, isBelow⟩
    · exact holds
    · cases equal
      simp only [List.all_cons, Bool.and_eq_true] at conjunct
      refine ih isBelow conjunct.2 ?_
      simp only [Expr.and, Expr.eval, Instance.apply, and_isTrue_iff,
        Expr.evalList_eq_map] at holds
      exact holds _ (List.mem_map_of_mem isArg)

/-! ## Replacement -/

/--
What takes the place of a node: itself if the flags of the source ask to
keep replacements and it is one, else the replacement for it.
-/
def replacementFor (keep : Bool) (pairs : List (Expr Sub × Expr Sub))
    (expr : Expr Sub) : Option (Expr Sub) :=
  if keep && pairs.any fun pair => pair.2 = expr then some expr
  else (pairs.find? fun pair => pair.1 = expr).map Prod.snd

mutual

/--
Replaces the first expression of each pair by the second one.  The flag
`keep` says whether the source was called with a flag other than zero.
The test expressions of other sublinks stay as they are.
-/
def replaceSubExpression (keep : Bool)
    (pairs : List (Expr Sub × Expr Sub)) : Expr Sub → Expr Sub
  | .node head args =>
    (replacementFor keep pairs (.node head args)).getD
      (.node head (replaceSubExpressionList keep pairs args))
  | .subLink subLinkType testexpr subselect =>
    (replacementFor keep pairs
      (.subLink subLinkType testexpr subselect)).getD (.subLink subLinkType testexpr subselect)
  | .var ref => (replacementFor keep pairs (.var ref)).getD (.var ref)
  | .const value =>
    (replacementFor keep pairs (.const value)).getD (.const value)
  | .existsQuery quals subselect =>
    (replacementFor keep pairs (.existsQuery quals subselect)).getD (.existsQuery quals subselect)
  | .param paramid =>
    (replacementFor keep pairs (.param paramid)).getD (.param paramid)

def replaceSubExpressionList (keep : Bool)
    (pairs : List (Expr Sub × Expr Sub)) :
    List (Expr Sub) → List (Expr Sub)
  | [] => []
  | expr :: rest =>
    replaceSubExpression keep pairs expr :: replaceSubExpressionList keep pairs rest

end

theorem replaceSubExpressionList_eq_map (keep : Bool) (pairs : List (Expr Sub × Expr Sub))
    (exprs : List (Expr Sub)) :
    replaceSubExpressionList keep pairs exprs = exprs.map (replaceSubExpression keep pairs) := by
  induction exprs with
  | nil => rfl
  | cons expr rest ih =>
    simp [replaceSubExpressionList, ih]

/-- The replacement of a node has the value of the node. -/
theorem eval_replacementFor (inst : Instance subs) (params : Row)
    {keep : Bool} {replaced : Expr Sub}
    (agree : ∀ ref ∈ expr.vars subs, scope ref = scope' ref)
    (same : ∀ pair ∈ pairs, pair.1.eval inst scope params = pair.2.eval inst scope' params)
    (found : replacementFor keep pairs expr = some replaced) :
    replaced.eval inst scope' params = expr.eval inst scope params := by
  unfold replacementFor at found
  split at found
  · cases found
    exact (Expr.eval_congr inst params expr agree).symm
  · rcases Option.map_eq_some_iff.1 found with ⟨pair, isFirst, rfl⟩
    have isExpr := List.find?_some isFirst
    simp only [decide_eq_true_eq] at isExpr
    rw [← isExpr, same pair (List.mem_of_find?_eq_some isFirst)]

/-- A node is replaced, its arguments are searched, or it stays as it is. -/
theorem replaceSubExpression_cases (keep : Bool) (pairs : List (Expr Sub × Expr Sub))
    (expr : Expr Sub) :
    replacementFor keep pairs expr = some (replaceSubExpression keep pairs expr) ∨
      (∃ head args, expr = .node head args ∧
        replaceSubExpression keep pairs expr =
          .node head (args.map (replaceSubExpression keep pairs))) ∨
      replaceSubExpression keep pairs expr = expr := by
  cases found : replacementFor keep pairs expr <;> cases expr <;>
    simp [replaceSubExpression, found, replaceSubExpressionList_eq_map]

/-- Replacing expressions by equal ones does not change the value. -/
theorem eval_replaceSubExpression (inst : Instance subs) (params : Row)
    (keep : Bool)
    (same : ∀ pair ∈ pairs, pair.1.eval inst scope params = pair.2.eval inst scope' params)
    (expr : Expr Sub) (agree : ∀ ref ∈ expr.vars subs, scope ref = scope' ref) :
    (replaceSubExpression keep pairs expr).eval inst scope' params =
      expr.eval inst scope params := by
  induction expr using Expr.childInduction with
  | step expr ih =>
    rcases replaceSubExpression_cases keep pairs expr with
      found | ⟨head, args, rfl, equal⟩ | equal
    · exact eval_replacementFor inst params agree same found
    · simp only [equal, Expr.eval, Expr.evalList_eq_map, List.map_map]
      congr 1
      exact List.map_congr_left fun arg member => ih arg member
        fun ref isVar => agree ref (Expr.mem_varsList.2 ⟨arg, member, isVar⟩)
    · rw [equal]
      exact (Expr.eval_congr inst params expr agree).symm

theorem vars_replacementFor {keep : Bool}
    {replaced : Expr Sub} (found : replacementFor keep pairs expr = some replaced) {ref : Var}
    (member : ref ∈ replaced.vars subs) :
    ref ∈ expr.vars subs ∨ ∃ pair ∈ pairs, ref ∈ pair.2.vars subs := by
  unfold replacementFor at found
  split at found
  · cases found
    exact .inl member
  · rcases Option.map_eq_some_iff.1 found with ⟨pair, isFirst, rfl⟩
    exact .inr ⟨pair, List.mem_of_find?_eq_some isFirst, member⟩

theorem vars_replaceSubExpression (keep : Bool) (pairs : List (Expr Sub × Expr Sub)) {ref : Var}
    (expr : Expr Sub) (member : ref ∈ (replaceSubExpression keep pairs expr).vars subs) :
    ref ∈ expr.vars subs ∨ ∃ pair ∈ pairs, ref ∈ pair.2.vars subs := by
  induction expr using Expr.childInduction with
  | step expr ih =>
    rcases replaceSubExpression_cases keep pairs expr with
      found | ⟨head, args, rfl, equal⟩ | equal
    · exact vars_replacementFor found member
    · rw [equal, Expr.vars, Expr.mem_varsList] at member
      rcases member with ⟨_, isArg, isVar⟩
      rcases List.mem_map.1 isArg with ⟨arg, isChild, rfl⟩
      rcases ih arg isChild isVar with old | new
      · exact .inl (Expr.mem_varsList.2 ⟨arg, isChild, old⟩)
      · exact .inr new
    · rw [equal] at member
      exact .inl member

theorem varnos_replaceSubExpression (keep : Bool) {varno : Nat}
    (member : varno ∈ (replaceSubExpression keep [(search, replacement)] expr).varnos subs) :
    varno ∈ expr.varnos subs ∨ varno ∈ replacement.varnos subs := by
  rcases Expr.mem_varnos.1 member with ⟨ref, isVar, ownLevel, rfl⟩
  rcases vars_replaceSubExpression keep _ expr isVar with
    old | ⟨pair, isPair, new⟩
  · exact .inl (Expr.mem_varnos.2 ⟨ref, old, ownLevel, rfl⟩)
  · rw [List.mem_singleton.1 isPair] at new
    exact .inr (Expr.mem_varnos.2 ⟨ref, new, ownLevel, rfl⟩)

/-- The new condition holds only where the replacement of a conjunct does. -/
theorem isTrue_replacement_of_andPath (inst : Instance subs) (scope : Scope) (keep : Bool)
    (isPath : path ∈ pathsToExpr expr root) (conjunct : path.all Expr.isAnd = true)
    (holds :
      ((replaceSubExpression keep [(expr, replacement)] root).eval inst scope []).isTrue = true) :
    (replacement.eval inst scope []).isTrue = true := by
  have kept :
      ∀ root replaced : Expr Sub, replacementFor keep [(expr, replacement)] root = some replaced →
        replaced = replacement := by
    intro root replaced found
    simp only [replacementFor, List.any_cons, List.any_nil, Bool.or_false,
      Bool.and_eq_true, decide_eq_true_eq, List.find?_cons,
      List.find?_nil] at found
    split at found
    · rename_i isReplacement
      cases found
      exact isReplacement.2.symm
    · split at found
      · cases found
        rfl
      · exact absurd found (by simp)
  have atExpr :
      ∀ root : Expr Sub, root = expr →
        replaceSubExpression keep [(expr, replacement)] root =
          replacement := by
    rintro root rfl
    have found : ∃ replaced, replacementFor keep [(root, replacement)] root = some replaced := by
      simp only [replacementFor]
      split <;> simp
    rcases found with ⟨replaced, found⟩
    cases root <;>
      simp only [replaceSubExpression, found, Option.getD_some] <;>
      exact kept _ _ found
  induction path generalizing root with
  | nil =>
    rcases andPath_cases isPath conjunct with
      isExpr | ⟨_, _, _, _, ⟨⟩, _⟩
    rwa [atExpr root isExpr] at holds
  | cons step below ih =>
    rcases andPath_cases isPath conjunct with
      isExpr | ⟨args, _, rfl, _, equal, arg, isArg, isBelow⟩
    · rwa [atExpr root isExpr] at holds
    · cases equal
      simp only [List.all_cons, Bool.and_eq_true] at conjunct
      rw [Expr.and, replaceSubExpression] at holds
      cases found : replacementFor keep [(expr, replacement)] (.node (.boolExpr .and) args) with
      | some replaced =>
        rw [found, Option.getD_some, kept _ _ found] at holds
        exact holds
      | none =>
        rw [found, Option.getD_none, replaceSubExpressionList_eq_map] at holds
        simp only [Expr.eval, Instance.apply, and_isTrue_iff,
          Expr.evalList_eq_map, List.map_map] at holds
        exact ih isBelow conjunct.2 (holds _ (List.mem_map_of_mem isArg))

/--
A conjunct is replaced by a condition which is at least as strong: the new
condition asks for the old one and for the replacement.
-/
theorem isTrue_replace_iff (inst : Instance subs) (keep : Bool)
    (accepted : exprInAndOrTop expr root = true)
    (agree : ∀ ref ∈ root.vars subs, scope ref = scope' ref)
    (stronger :
      (replacement.eval inst scope' []).isTrue = true →
        (expr.eval inst scope []).isTrue = true) :
    ((replaceSubExpression keep [(expr, replacement)] root).eval inst
        scope' []).isTrue = true ↔
      (root.eval inst scope []).isTrue = true ∧
        (replacement.eval inst scope' []).isTrue = true := by
  rcases exists_andPath accepted with ⟨path, isPath, conjunct⟩
  have sameValue :
      (replacement.eval inst scope' []).isTrue = true →
        ((replaceSubExpression keep [(expr, replacement)] root).eval inst
            scope' []) = root.eval inst scope [] := by
    intro holds
    refine eval_replaceSubExpression inst [] keep ?_ root agree
    intro pair isPair
    rw [List.mem_singleton.1 isPair]
    rw [(isTrue_iff _).1 holds, (isTrue_iff _).1 (stronger holds)]
  constructor
  · intro holds
    have replaced := isTrue_replacement_of_andPath inst scope' keep isPath conjunct holds
    rw [sameValue replaced] at holds
    exact ⟨holds, replaced⟩
  · rintro ⟨holds, replaced⟩
    rw [sameValue replaced]
    exact holds

/-! ## Expressions without the one looked for -/

theorem replaceSubExpression_of_not_occurs (keep : Bool)
    (expr : Expr Sub) (absent : pathsToExpr search expr = []) :
    replaceSubExpression keep [(search, replacement)] expr = expr := by
  induction expr using Expr.childInduction with
  | step expr ih =>
    have different : expr ≠ search := by
      rintro rfl
      simp [pathsToExpr_self] at absent
    rw [pathsToExpr_eq, if_neg different, List.map_eq_nil_iff, List.flatMap_eq_nil_iff] at absent
    rcases replaceSubExpression_cases keep [(search, replacement)] expr with
      found | ⟨head, args, rfl, equal⟩ | equal
    · simp only [replacementFor, List.find?_cons, different.symm, decide_false,
        List.find?_nil] at found
      split at found
      · exact (Option.some.inj found).symm
      · exact absurd found (by simp)
    · have args_eq : args.map (replaceSubExpression keep [(search, replacement)]) = args :=
        (List.map_congr_left fun arg isChild =>
          ih arg isChild (absent arg isChild)).trans (List.map_id' args)
      rw [equal, args_eq]
    · exact equal

end Search

mutual

/-- Number of nodes of an expression. -/
def Expr.size : Expr Sub → Nat
  | .node _ args => Expr.sizeList args + 1
  | .subLink _ testexpr _ => testexpr.size + 1
  | _ => 1

def Expr.sizeList : List (Expr Sub) → Nat
  | [] => 0
  | expr :: rest => expr.size + Expr.sizeList rest

end

theorem Expr.size_lt_of_child {child : Expr Sub} (isChild : child ∈ expr.children) :
    child.size < expr.size := by
  cases expr with
  | node head args =>
    simp only [Expr.size, Nat.lt_succ_iff]
    induction args with
    | nil => simp [Expr.children] at isChild
    | cons arg rest ih =>
      simp only [Expr.children, List.mem_cons] at isChild ih
      rcases isChild with rfl | inRest
      · exact Nat.le_add_right _ _
      · exact (ih inRest).trans (Nat.le_add_left _ _)
  | subLink _ testexpr _ =>
    rw [List.mem_singleton.1 isChild]
    exact Nat.lt_succ_self _
  | _ => simp [Expr.children] at isChild

/-- An expression is no part of a smaller one. -/
theorem pathsToExpr_of_size_lt [DecidableEq Sub] (expr : Expr Sub)
    (smaller : expr.size < search.size) :
    pathsToExpr search expr = [] := by
  induction expr using Expr.childInduction with
  | step expr ih =>
    have different : expr ≠ search := by
      rintro rfl
      exact absurd smaller (lt_irrefl _)
    rw [pathsToExpr_eq, if_neg different, List.map_eq_nil_iff, List.flatMap_eq_nil_iff]
    exact fun child isChild =>
      ih child isChild ((Expr.size_lt_of_child isChild).trans smaller)

end Ldv.Sublink
