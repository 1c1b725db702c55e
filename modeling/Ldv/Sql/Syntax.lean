import Mathlib.Data.List.Basic

/-!
# Analyzed query trees

The part of PostgreSQL's `Query` tree which the provenance rewriter reads
and writes: expressions, target lists, range tables, join trees and set
operation trees.  Range-table positions and attribute numbers count from
one, as in the source.  Expressions hold no sublinks, so every `Var` belongs
to the query level it stands in.
-/

namespace Ldv.Sql

/-!
## SQL values and three-valued logic

A column value is a datum, possibly `null`.  Conditions evaluate to a datum
as well; a row passes a condition exactly when the condition is the datum
`bool true`, so `null` and `false` both reject.  Equality of data is the
equality of the value domain, and `null` is only ever compared by the
null-safe `IS NOT DISTINCT FROM`.
-/

/-- Object identifiers of the system catalogs. -/
abbrev Oid := Nat

/-- The value of one column. -/
inductive Datum where
  | null
  | bool (value : Bool)
  | int (value : Int)
  | text (value : String)
deriving DecidableEq, Repr

/-- A tuple, by column position. -/
abbrev Row := List Datum

namespace Datum

/-- Only the datum `true` passes a condition. -/
def isTrue (datum : Datum) : Bool := datum = .bool true

/-- Three-valued negation. -/
def sqlNot : Datum → Datum
  | .bool value => .bool (!value)
  | _ => .null

/-- Three-valued conjunction. -/
def sqlAnd : Datum → Datum → Datum
  | .bool false, _ => .bool false
  | _, .bool false => .bool false
  | .bool true, .bool true => .bool true
  | _, _ => .null

/-- Three-valued disjunction. -/
def sqlOr : Datum → Datum → Datum
  | .bool true, _ => .bool true
  | _, .bool true => .bool true
  | .bool false, .bool false => .bool false
  | _, _ => .null

/-- `IS DISTINCT FROM`: never `null`, and `null` is not distinct from `null`. -/
def distinct (left right : Datum) : Datum := .bool (decide (left ≠ right))

@[simp]
theorem isTrue_bool (value : Bool) :
    (Datum.bool value).isTrue = value := by
  cases value <;> rfl

theorem sqlAnd_isTrue_iff (left right : Datum) :
    (sqlAnd left right).isTrue = true ↔ left.isTrue = true ∧ right.isTrue = true := by
  rcases left with _ | (_ | _) | _ | _ <;>
    rcases right with _ | (_ | _) | _ | _ <;>
    simp [sqlAnd, isTrue]

end Datum

/-- Column `attno` of a row, counted from one; `null` past its end. -/
def Row.column (row : Row) (attno : Nat) : Datum := row.getD (attno - 1) .null

/-! ## Query trees -/

inductive BoolExprType where
  | and
  | or
  | not
deriving DecidableEq, Repr

/--
Analyzed expressions.  Operators, functions and casts are all an `opExpr`:
a symbol with a result type and a list of arguments.
-/
inductive Expr where
  | var (varno varattno : Nat) (vartype : Oid)
  | const (consttype : Oid) (value : Datum)
  | opExpr (opno opresulttype : Oid) (args : List Expr)
  | distinctExpr (left right : Expr)
  | boolExpr (boolop : BoolExprType) (args : List Expr)
  | caseExpr (casetype : Oid) (conds results : List Expr)
      (defresult : Expr)
  | coalesceExpr (coalescetype : Oid) (args : List Expr)
  | aggref (aggfnoid aggtype : Oid) (args : List Expr)
      (aggdistinct : Bool)
deriving Repr, BEq

/-- The type `bool` of the system catalogs. -/
def BOOLOID : Oid := 16

/-- The type of an expression. -/
def exprType : Expr → Oid
  | .var _ _ vartype => vartype
  | .const consttype _ => consttype
  | .opExpr _ opresulttype _ => opresulttype
  | .distinctExpr _ _ => BOOLOID
  | .boolExpr _ _ => BOOLOID
  | .caseExpr casetype _ _ _ => casetype
  | .coalesceExpr coalescetype _ => coalescetype
  | .aggref _ aggtype _ _ => aggtype

@[simp]
theorem exprType_var (varno varattno : Nat) (vartype : Oid) :
    exprType (.var varno varattno vartype) = vartype :=
  rfl

/-- A column reference taken out of an expression. -/
structure VarRef where
  varno : Nat
  varattno : Nat
  vartype : Oid
deriving DecidableEq, Repr

mutual

/-- All column references of an expression, aggregate arguments included. -/
def Expr.vars : Expr → List VarRef
  | .var varno varattno vartype => [⟨varno, varattno, vartype⟩]
  | .const _ _ => []
  | .opExpr _ _ args => Expr.varsList args
  | .distinctExpr left right => left.vars ++ right.vars
  | .boolExpr _ args => Expr.varsList args
  | .caseExpr _ conds results defresult =>
    Expr.varsList conds ++ Expr.varsList results ++ defresult.vars
  | .coalesceExpr _ args => Expr.varsList args
  | .aggref _ _ args _ => Expr.varsList args

def Expr.varsList : List Expr → List VarRef
  | [] => []
  | expr :: rest => expr.vars ++ Expr.varsList rest

end

mutual

/-- Does the expression contain an aggregate function? -/
def Expr.hasAggref : Expr → Bool
  | .var _ _ _ => false
  | .const _ _ => false
  | .opExpr _ _ args => Expr.hasAggrefList args
  | .distinctExpr left right => left.hasAggref || right.hasAggref
  | .boolExpr _ args => Expr.hasAggrefList args
  | .caseExpr _ conds results defresult =>
    Expr.hasAggrefList conds || Expr.hasAggrefList results || defresult.hasAggref
  | .coalesceExpr _ args => Expr.hasAggrefList args
  | .aggref _ _ _ _ => true

def Expr.hasAggrefList : List Expr → Bool
  | [] => false
  | expr :: rest => expr.hasAggref || Expr.hasAggrefList rest

end

/-- An entry of a target list; entries the parser adds have no name. -/
structure TargetEntry where
  expr : Expr
  resno : Nat
  resname : Option String
  ressortgroupref : Nat := 0
  resjunk : Bool := false
deriving Repr, BEq

/-- An item of an ORDER BY, GROUP BY or DISTINCT clause. -/
structure SortClause where
  tleSortGroupRef : Nat
  sortop : Oid
  nulls_first : Bool
deriving DecidableEq, Repr

inductive JoinType where
  | inner
  | left
  | full
  | right
deriving DecidableEq, Repr

/-- An item of a FROM list. -/
inductive JoinTreeNode where
  | rangeTblRef (rtindex : Nat)
  | joinExpr (jointype : JoinType) (rtindex : Nat)
      (larg rarg : JoinTreeNode) (quals : Option Expr)
deriving Repr, BEq

inductive SetOperation where
  | union
  | intersect
  | except
deriving DecidableEq, Repr

/-- A node of a set-operation tree. -/
inductive SetOpNode where
  | rangeTblRef (rtindex : Nat)
  | setOperationStmt (op : SetOperation) (all : Bool)
      (colTypes : List Oid) (larg rarg : SetOpNode)
deriving DecidableEq, Repr

/-- Correlation name and column names of a range-table entry. -/
structure Alias where
  aliasname : Option String := none
  colnames : List (Option String) := []
deriving DecidableEq, Repr

/-- The kinds of range-table entry, with the fields each kind uses. -/
inductive RTEKind (Sub : Type) where
  | relation (relid : Oid)
  | subquery (query : Sub)
  | join (jointype : JoinType) (joinaliasvars : List Expr)
  | function (funcid : Oid) (coltypes : List Oid)
  | values (lists : List (List Expr))
deriving Repr, BEq

/--
A range-table entry.  `userAlias` is the `alias` field of the source;
`provAttrs` holds the names of a PROVENANCE attribute list, and the single
entry `none` on entries the rewriter has to ignore.
-/
structure RangeTblEntry (Sub : Type) where
  kind : RTEKind Sub
  userAlias : Option Alias := some {}
  eref : Alias := {}
  isProvBase : Bool := false
  provAttrs : List (Option String) := []
deriving Repr, BEq

/-- Contribution semantics a query may be rewritten for. -/
inductive ContributionType where
  | influence
  | copyPartialTransitive
  | copyPartialNontransitive
  | copyCompleteTransitive
  | copyCompleteNontransitive
  | transSet
  | transSql
  | transXml
  | transXmlSimple
  | map
deriving DecidableEq, Repr

/--
An analyzed SELECT.  A LIMIT or OFFSET clause is recorded by the value of
its expression, where `some none` is `LIMIT ALL`.
-/
structure Query where
  hasAggs : Bool := false
  rtable : List (RangeTblEntry Query) := []
  fromlist : List JoinTreeNode := []
  quals : Option Expr := none
  targetList : List TargetEntry := []
  groupClause : List SortClause := []
  havingQual : Option Expr := none
  distinctClause : List SortClause := []
  sortClause : List SortClause := []
  limitOffset : Option (Option Nat) := none
  limitCount : Option (Option Nat) := none
  setOperations : Option SetOpNode := none
  shouldRewrite : Bool := false
  contribution : ContributionType := .influence
deriving Repr, BEq

abbrev RTE := RangeTblEntry Query

namespace RangeTblEntry

variable {Sub : Type}

def isJoin (rte : RangeTblEntry Sub) : Bool :=
  match rte.kind with
  | .join _ _ => true
  | _ => false

/-- The query of a subquery entry. -/
def subquery? (rte : RangeTblEntry Sub) : Option Sub :=
  match rte.kind with
  | .subquery query => some query
  | _ => none

/-- The alias expressions of a join entry. -/
def joinaliasvars (rte : RangeTblEntry Sub) : List Expr :=
  match rte.kind with
  | .join _ aliasvars => aliasvars
  | _ => []

end RangeTblEntry

/-- The target entry a sort, group or distinct item refers to. -/
def targetForRef (targetList : List TargetEntry) (ref : Nat) :
    Option TargetEntry :=
  targetList.find? fun te => te.ressortgroupref == ref

/-- The range-table entry at a position counted from one. -/
def rtFetch {Entry : Type} (rtable : List Entry) : Nat → Option Entry
  | 0 => none
  | position + 1 => rtable[position]?

/-- Alias expressions of the join entry at a position. -/
def aliasvarsAt (rtable : List RTE) (rtindex : Nat) : List Expr :=
  match rtFetch rtable rtindex with
  | some rte => rte.joinaliasvars
  | none => []

theorem rtFetch_map {Entry Entry' : Type} (f : Entry → Entry') (rtable : List Entry)
    (rtindex : Nat) :
    rtFetch (rtable.map f) rtindex = (rtFetch rtable rtindex).map f := by
  cases rtindex with
  | zero => rfl
  | succ position => simp [rtFetch]

/-- Range-table positions below a join-tree node, joins included. -/
def JoinTreeNode.rtindexes : JoinTreeNode → List Nat
  | .rangeTblRef rtindex => [rtindex]
  | .joinExpr _ rtindex larg rarg _ =>
    larg.rtindexes ++ rarg.rtindexes ++ [rtindex]

/-- Entries a FROM item refers to directly. -/
def JoinTreeNode.leaves : JoinTreeNode → List Nat
  | .rangeTblRef rtindex => [rtindex]
  | .joinExpr _ _ larg rarg _ => larg.leaves ++ rarg.leaves

/-- Entries for the joins of a FROM item, inner joins first. -/
def JoinTreeNode.joins : JoinTreeNode → List Nat
  | .rangeTblRef _ => []
  | .joinExpr _ rtindex larg rarg _ => larg.joins ++ rarg.joins ++ [rtindex]

/-- The range-table position a join-tree node itself stands for. -/
def JoinTreeNode.rtindex : JoinTreeNode → Nat
  | .rangeTblRef rtindex => rtindex
  | .joinExpr _ rtindex _ _ _ => rtindex

/-- Positions a set-operation tree refers to, from left to right. -/
def SetOpNode.refs : SetOpNode → List Nat
  | .rangeTblRef rtindex => [rtindex]
  | .setOperationStmt _ _ _ larg rarg => larg.refs ++ rarg.refs

/-- Number of inputs of a set-operation tree, if there is one. -/
def inputCount : Option SetOpNode → Nat
  | none => 0
  | some tree => tree.refs.length

mutual

/--
A bound on the nesting the rewriter descends through: query levels, the
aggregation of a level, and the operators of its set-operation tree.
-/
def Query.size : Query → Nat
  | { hasAggs := hasAggs, rtable := rtable,
      setOperations := setOperations, .. } =>
      1 + (if hasAggs then 1 else 0) + inputCount setOperations + Query.sizeRtable rtable

def Query.sizeRtable : List (RangeTblEntry Query) → Nat
  | [] => 0
  | rte :: rest => Query.sizeRTE rte + Query.sizeRtable rest

def Query.sizeRTE : RangeTblEntry Query → Nat
  | { kind := .subquery query, .. } => query.size
  | _ => 0

end

theorem Query.size_eq (query : Query) :
    query.size =
      1 + (if query.hasAggs then 1 else 0) +
        inputCount query.setOperations +
        Query.sizeRtable query.rtable := by
  cases query
  rfl

/-!
## Conditions on all nodes of a query tree

`Query.EverywhereIn` extends a condition on one query node to the nodes of a
tree which are reached through entries chosen by a test, and keeps it
decidable.  `Query.Everywhere` extends it to all nodes.
-/

/-! ## Induction over subqueries -/

theorem sizeRtable_le_of_sublist {rtable rtable' : List RTE} (part : rtable.Sublist rtable') :
    Query.sizeRtable rtable ≤ Query.sizeRtable rtable' := by
  induction part with
  | slnil => exact Nat.le_refl _
  | cons rte part ih =>
    exact Nat.le_trans ih (Nat.le_add_left _ _)
  | cons_cons rte part ih =>
    exact Nat.add_le_add_left ih _

theorem size_le_of_mem {rtable : List RTE} {rte : RTE} {sub : Query} (member : rte ∈ rtable)
    (kind : rte.kind = .subquery sub) :
    sub.size ≤ Query.sizeRtable rtable := by
  have single := sizeRtable_le_of_sublist (List.singleton_sublist.mpr member)
  rcases rte with ⟨kind', userAlias, eref, isProvBase, provAttrs⟩
  cases kind
  simpa [Query.sizeRtable, Query.sizeRTE] using single

theorem Query.size_lt_of_mem {query sub : Query} {rte : RTE} (member : rte ∈ query.rtable)
    (kind : rte.kind = .subquery sub) :
    sub.size < query.size := by
  have size := size_le_of_mem member kind
  rw [query.size_eq]
  omega

theorem Query.subqueryInduction {motive : Query → Prop}
    (step :
      ∀ query : Query,
        (∀ rte ∈ query.rtable, ∀ sub, rte.kind = .subquery sub → motive sub) →
        motive query)
    (query : Query) :
    motive query := by
  generalize size : query.size = n
  induction n using Nat.strongRecOn generalizing query with
  | _ n ih =>
    refine step query fun rte member sub kind => ?_
    exact ih sub.size (size ▸ Query.size_lt_of_mem member kind) sub rfl

/-! ## Chosen subqueries -/

mutual

/-- The condition holds for the query and all subqueries entered from it. -/
def Query.EverywhereIn (enters : RTE → Bool) (P : Query → Prop)
    (query : Query) :
    Prop :=
  match query with
  | { rtable := rtable, .. } =>
    P query ∧ Query.EverywhereInRtable enters P rtable

def Query.EverywhereInRtable (enters : RTE → Bool) (P : Query → Prop) :
    List (RangeTblEntry Query) → Prop
  | [] => True
  | rte :: rest =>
    Query.EverywhereInRTE enters P rte ∧ Query.EverywhereInRtable enters P rest

def Query.EverywhereInRTE (enters : RTE → Bool) (P : Query → Prop)
    (rte : RangeTblEntry Query) :
    Prop :=
  match rte with
  | { kind := .subquery query, .. } =>
    enters rte = true → query.EverywhereIn enters P
  | { kind := .relation _, .. } => True
  | { kind := .join _ _, .. } => True
  | { kind := .function _ _, .. } => True
  | { kind := .values _, .. } => True

end

section Characterization

variable
  {enters : RTE → Bool}
  {P : Query → Prop}

theorem Query.everywhereInRTE_iff {rte : RTE} :
    Query.EverywhereInRTE enters P rte ↔
      enters rte = true → ∀ sub, rte.kind = .subquery sub → sub.EverywhereIn enters P := by
  cases rte with
  | mk kind userAlias eref isProvBase provAttrs =>
    cases kind <;> simp [Query.EverywhereInRTE]

theorem Query.everywhereInRtable_iff {rtable : List RTE} :
    Query.EverywhereInRtable enters P rtable ↔
      ∀ rte ∈ rtable, enters rte = true →
        ∀ sub, rte.kind = .subquery sub → sub.EverywhereIn enters P := by
  induction rtable with
  | nil => simp [Query.EverywhereInRtable]
  | cons rte rest ih =>
    simp [Query.EverywhereInRtable, Query.everywhereInRTE_iff, ih]

theorem Query.everywhereIn_iff {query : Query} :
    query.EverywhereIn enters P ↔
      P query ∧ ∀ rte ∈ query.rtable, enters rte = true →
        ∀ sub, rte.kind = .subquery sub → sub.EverywhereIn enters P := by
  rw [← Query.everywhereInRtable_iff]
  cases query
  rfl

/-- Conditions on the same nodes are combined node by node. -/
theorem Query.EverywhereIn.imp₂ {enters' : RTE → Bool} {Q S : Query → Prop}
    (combined : ∀ query, P query → Q query → S query)
    (fewer : ∀ rte, enters' rte = true → enters rte = true) {query : Query}
    (first : query.EverywhereIn enters P) (second : query.EverywhereIn enters' Q) :
    query.EverywhereIn enters' S := by
  induction query using Query.subqueryInduction with
  | step query ih =>
    rw [Query.everywhereIn_iff] at first second ⊢
    refine ⟨combined query first.1 second.1, ?_⟩
    intro rte member isEntered sub kind
    exact ih rte member sub kind (first.2 rte member (fewer rte isEntered) sub kind)
      (second.2 rte member isEntered sub kind)

end Characterization

mutual

def Query.decideEverywhereIn (enters : RTE → Bool) (P : Query → Prop)
    [DecidablePred P] (query : Query) :
    Decidable (query.EverywhereIn enters P) :=
  match query with
  | ⟨_, rtable, _, _, _, _, _, _, _, _, _, _, _, _⟩ =>
    letI := Query.decideEverywhereInRtable enters P rtable
    inferInstanceAs (Decidable (P _ ∧ Query.EverywhereInRtable enters P rtable))

def Query.decideEverywhereInRtable (enters : RTE → Bool)
    (P : Query → Prop) [DecidablePred P] :
    (rtable : List (RangeTblEntry Query)) →
    Decidable (Query.EverywhereInRtable enters P rtable)
  | [] => inferInstanceAs (Decidable True)
  | rte :: rest =>
    letI := Query.decideEverywhereInRTE enters P rte
    letI := Query.decideEverywhereInRtable enters P rest
    inferInstanceAs (Decidable
      (Query.EverywhereInRTE enters P rte ∧ Query.EverywhereInRtable enters P rest))

def Query.decideEverywhereInRTE (enters : RTE → Bool) (P : Query → Prop)
    [DecidablePred P] (rte : RangeTblEntry Query) :
    Decidable (Query.EverywhereInRTE enters P rte) :=
  match rte with
  | ⟨.subquery query, userAlias, eref, isProvBase, provAttrs⟩ =>
    letI := Query.decideEverywhereIn enters P query
    inferInstanceAs (Decidable
      (enters ⟨.subquery query, userAlias, eref, isProvBase, provAttrs⟩ =
        true → query.EverywhereIn enters P))
  | ⟨.relation _, _, _, _, _⟩ => inferInstanceAs (Decidable True)
  | ⟨.join _ _, _, _, _, _⟩ => inferInstanceAs (Decidable True)
  | ⟨.function _ _, _, _, _, _⟩ => inferInstanceAs (Decidable True)
  | ⟨.values _, _, _, _, _⟩ => inferInstanceAs (Decidable True)

end

instance (enters : RTE → Bool) (P : Query → Prop) [DecidablePred P]
    (query : Query) :
    Decidable (query.EverywhereIn enters P) :=
  query.decideEverywhereIn enters P

/-! ## All subqueries -/

/-- The condition holds for the query and all of its subqueries. -/
def Query.Everywhere (P : Query → Prop) (query : Query) : Prop :=
  query.EverywhereIn (fun _ => true) P

theorem Query.everywhere_iff {P : Query → Prop} {query : Query} :
    query.Everywhere P ↔
      P query ∧ ∀ rte ∈ query.rtable, ∀ sub, rte.kind = .subquery sub → sub.Everywhere P := by
  rw [Query.Everywhere, Query.everywhereIn_iff]
  simp only [true_implies]
  rfl

instance (P : Query → Prop) [DecidablePred P] (query : Query) :
    Decidable (query.Everywhere P) :=
  inferInstanceAs (Decidable (query.EverywhereIn _ P))

end Ldv.Sql
