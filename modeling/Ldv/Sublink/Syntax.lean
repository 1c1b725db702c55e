import Ldv.Sql.Syntax

/-!
# Query trees with sublinks

The sublink strategies rewrite one select-project-join query: its range
table, join tree, conditions and target list.  They take the query below a
sublink as a whole, so the type `Sub` of these queries is a parameter, and
a `Subqueries` record says what the strategies read of such a query.

Expressions are trees of column references, constants and function-like
nodes.  The test expression of an ANY or ALL sublink refers to the columns
of the sublink query by `param`.
-/

namespace Ldv.Sublink

open Ldv.Sql

inductive SubLinkType where
  | exists
  | all
  | any
  | expr
deriving DecidableEq, Repr

/-- A column reference, `varlevelsup` query levels above its place. -/
structure Var where
  varlevelsup : Nat := 0
  varno : Nat
  varattno : Nat
deriving DecidableEq, Repr

/--
The inner nodes of expressions.  The arguments of `caseExpr` are its
conditions and results in turn, followed by the default.
-/
inductive Head where
  | opExpr (opno : Oid)
  | funcExpr (funcid : Oid) (explicitCall : Bool)
  | boolExpr (boolop : BoolExprType)
  | nullTest
  | distinctExpr
  | caseExpr
  | coalesceExpr
deriving DecidableEq, Repr

/--
Expressions over sublink queries `Sub`.  Only ANY and ALL sublinks have a
test.  `existsQuery` is an EXISTS sublink built by the rewriter: its query
is a sublink query with conditions added to the WHERE clause, in which the
columns of the query are those of entry 1, and other columns are one level
further away.
-/
inductive Expr (Sub : Type) where
  | var (ref : Var)
  | const (value : Datum)
  | param (paramid : Nat)
  | node (head : Head) (args : List (Expr Sub))
  | subLink (subLinkType : SubLinkType) (testexpr : Expr Sub)
      (subselect : Sub)
  | existsQuery (quals : Expr Sub) (subselect : Sub)

variable {Sub : Type}

namespace Expr

/-- The constant built by `makeBoolConst(true, false)`. -/
def trueConst : Expr Sub := .const (.bool true)

def and (args : List (Expr Sub)) : Expr Sub := .node (.boolExpr .and) args

def or (args : List (Expr Sub)) : Expr Sub := .node (.boolExpr .or) args

def not (arg : Expr Sub) : Expr Sub := .node (.boolExpr .not) [arg]

def isNull (arg : Expr Sub) : Expr Sub := .node .nullTest [arg]

/-- A reference to a column of the same query level. -/
def column (varno varattno : Nat) : Expr Sub :=
  .var { varno := varno, varattno := varattno }

end Expr

/-! ## Structural equality -/

mutual

/-- The comparison `equal` of two expression trees. -/
def Expr.equal [DecidableEq Sub] : Expr Sub → Expr Sub → Bool
  | .var left, .var right => left = right
  | .const left, .const right => left = right
  | .param left, .param right => left = right
  | .node left leftArgs, .node right rightArgs =>
    left = right && Expr.equalList leftArgs rightArgs
  | .subLink left leftTest leftSub, .subLink right rightTest rightSub =>
    left = right && leftTest.equal rightTest && leftSub = rightSub
  | .existsQuery leftQuals leftSub, .existsQuery rightQuals rightSub =>
    leftQuals.equal rightQuals && leftSub = rightSub
  | _, _ => false

def Expr.equalList [DecidableEq Sub] :
    List (Expr Sub) → List (Expr Sub) → Bool
  | [], [] => true
  | left :: leftRest, right :: rightRest =>
    left.equal right && Expr.equalList leftRest rightRest
  | _, _ => false

end

/-- Induction over the arguments of nodes and the tests of sublinks. -/
@[induction_eliminator]
theorem Expr.argInduction {P : Expr Sub → Prop} (var : ∀ ref, P (.var ref))
    (const : ∀ value, P (.const value)) (param : ∀ paramid, P (.param paramid))
    (node : ∀ head args, (∀ arg ∈ args, P arg) → P (.node head args))
    (subLink :
      ∀ subLinkType testexpr subselect, P testexpr → P (.subLink subLinkType testexpr subselect))
    (existsQuery : ∀ quals subselect, P quals → P (.existsQuery quals subselect))
    (expr : Expr Sub) :
    P expr :=
  @Expr.rec Sub P (fun args => ∀ arg ∈ args, P arg) var const param node subLink existsQuery
    (fun _ member => absurd member List.not_mem_nil)
    (fun _ _ first others => List.forall_mem_cons.2 ⟨first, others⟩) expr

theorem Expr.equal_iff [DecidableEq Sub] (left right : Expr Sub) :
    left.equal right = true ↔ left = right := by
  induction left generalizing right with
  | node left leftArgs ih =>
    have args : ∀ rightArgs, Expr.equalList leftArgs rightArgs = true ↔ leftArgs = rightArgs := by
      induction leftArgs with
      | nil => intro rightArgs; cases rightArgs <;> simp [Expr.equalList]
      | cons left leftRest others =>
        rw [List.forall_mem_cons] at ih
        intro rightArgs
        cases rightArgs with
        | nil => simp [Expr.equalList]
        | cons right rightRest =>
          simp [Expr.equalList, ih.1, others ih.2]
    cases right <;> simp [Expr.equal, args]
  | subLink left leftTest leftSub ih =>
    cases right <;> simp [Expr.equal, ih, and_assoc]
  | existsQuery leftQuals leftSub ih =>
    cases right <;> simp [Expr.equal, ih]
  | _ => cases right <;> simp [Expr.equal]

instance [DecidableEq Sub] : DecidableEq (Expr Sub) :=
  fun left right => decidable_of_iff _ (Expr.equal_iff left right)

/-! ## Queries -/

/-- An item of a FROM list. -/
inductive JoinTreeNode (Sub : Type) where
  | rangeTblRef (rtindex : Nat)
  | joinExpr (jointype : JoinType) (rtindex : Nat)
      (larg rarg : JoinTreeNode Sub) (quals : Option (Expr Sub))

/--
A range-table entry.  A relation lists the numbers of its live columns, a
subquery the constants the rewriter has appended to its target list, and a
join the expressions of its columns.  `baseRelUnionNull` is the subquery
which returns the live columns of a relation and one row of nulls.
-/
inductive RangeTblEntry (Sub : Type) where
  | relation (relid : Oid) (attnums : List Nat)
  | subquery (query : Sub) (added : List Datum)
  | baseRelUnionNull (relid : Oid) (attnums : List Nat)
  | join (joinaliasvars : List (Expr Sub))

/-- An entry of a target list; its `resno` is its position. -/
structure TargetEntry (Sub : Type) where
  expr : Expr Sub
  resjunk : Bool := false

/-- An analyzed select-project-join query. -/
structure Query (Sub : Type) where
  rtable : List (RangeTblEntry Sub) := []
  fromlist : List (JoinTreeNode Sub) := []
  quals : Option (Expr Sub) := none
  targetList : List (TargetEntry Sub) := []

/-- What the strategies read of the queries below sublinks. -/
structure Subqueries (Sub : Type) where
  /-- Length of the target list, junk entries included. -/
  targetListLength : Sub → Nat
  /-- Positions of the target entries which are not junk. -/
  columns : Sub → List Nat
  /-- Columns of enclosing queries, as seen from the query of the sublink. -/
  corrVars : Sub → List Var
  /-- Is the query a set operation? -/
  isSetOperation : Sub → Bool
  /-- Does it hold a sublink which refers to it and cannot be unnested? -/
  containsGenCorrSublink : Sub → Bool
  /-- Is it uncorrelated once its own sublinks are decorrelated? -/
  uncorrelatedAfterChildRewrite : Sub → Bool
  /-- The provenance rewrite of the query, if it does not stop. -/
  rewriteQueryNode : Sub → Option Sub
  /-- The rewrite adds no references to enclosing queries. -/
  corrVars_rewriteQueryNode :
    ∀ sub sub', rewriteQueryNode sub = some sub' → corrVars sub' ⊆ corrVars sub

/-! ## Column references and range-table positions -/

/-- A column reference as seen from the enclosing query. -/
def Var.lower (ref : Var) : Option Var :=
  match ref.varlevelsup with
  | 0 => none
  | level + 1 => some { ref with varlevelsup := level }

mutual

/-- Column references of an expression, those of sublink queries included. -/
def Expr.vars (subs : Subqueries Sub) : Expr Sub → List Var
  | .var ref => [ref]
  | .const _ => []
  | .param _ => []
  | .node _ args => Expr.varsList subs args
  | .subLink _ testexpr subselect =>
    testexpr.vars subs ++ subs.corrVars subselect
  | .existsQuery quals subselect =>
    (quals.vars subs).filterMap Var.lower ++ subs.corrVars subselect

def Expr.varsList (subs : Subqueries Sub) : List (Expr Sub) → List Var
  | [] => []
  | expr :: rest => expr.vars subs ++ Expr.varsList subs rest

end

/-- Range-table positions an expression reads at its own query level. -/
def Expr.varnos (subs : Subqueries Sub) (expr : Expr Sub) : List Nat :=
  ((expr.vars subs).filter fun var => var.varlevelsup = 0).map Var.varno

/-- Range-table positions an optional condition reads. -/
def qualVarnos (subs : Subqueries Sub) : Option (Expr Sub) → List Nat
  | none => []
  | some quals => quals.varnos subs

namespace JoinTreeNode

/-- The range-table position a join-tree node itself stands for. -/
def rtindex : JoinTreeNode Sub → Nat
  | .rangeTblRef rtindex => rtindex
  | .joinExpr _ rtindex _ _ _ => rtindex

/-- Range-table positions below a join-tree node, joins included. -/
def rtindexes : JoinTreeNode Sub → List Nat
  | .rangeTblRef rtindex => [rtindex]
  | .joinExpr _ rtindex larg rarg _ =>
    larg.rtindexes ++ rarg.rtindexes ++ [rtindex]

/-- The ON conditions of a FROM item. -/
def onQuals : JoinTreeNode Sub → List (Expr Sub)
  | .rangeTblRef _ => []
  | .joinExpr _ _ larg rarg quals =>
    quals.toList ++ larg.onQuals ++ rarg.onQuals

end JoinTreeNode

/-- Column expressions of the join entry at a position. -/
def aliasvarsAt (rtable : List (RangeTblEntry Sub)) (rtindex : Nat) :
    List (Expr Sub) :=
  match rtFetch rtable rtindex with
  | some (.join joinaliasvars) => joinaliasvars
  | _ => []

end Ldv.Sublink
