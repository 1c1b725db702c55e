import Ldv.Perm.Shape
import Ldv.Sql.NodeRows

/-!
# Meaning of the join conditions built by the rewriter

The rewriter compares columns by negated `IS DISTINCT FROM`, and conjoins
the comparisons in three different ways.  All of them accept a row exactly
if the compared columns are equal.
-/

namespace Ldv.Perm

open Ldv.Sql

section Conditions

variable
  (inst : Instance)
  (lookup : Lookup)

/-- The columns of all pairs are equal. -/
def AllEqual (pairs : List (Expr × Expr)) : Prop :=
  ∀ pair ∈ pairs, pair.1.eval inst lookup [] = pair.2.eval inst lookup []

instance (pairs : List (Expr × Expr)) :
    Decidable (AllEqual inst lookup pairs) :=
  inferInstanceAs (Decidable (∀ pair ∈ pairs, _))

theorem eval_notDistinct (pair : Expr × Expr) :
    (notDistinct pair).eval inst lookup [] =
      .bool (decide (pair.1.eval inst lookup [] = pair.2.eval inst lookup [])) := by
  simp [notDistinct, Expr.eval, Expr.evalList, evalBoolExpr, Datum.sqlNot, Datum.distinct]

theorem sqlAnd_bool (left right : Bool) :
    Datum.sqlAnd (.bool left) (.bool right) = .bool (left && right) := by
  cases left <;> cases right <;> rfl

theorem eval_and (left right : Expr) :
    (Expr.boolExpr .and [left, right]).eval inst lookup [] =
      Datum.sqlAnd (left.eval inst lookup [])
        (Datum.sqlAnd (right.eval inst lookup []) (.bool true)) := by
  simp [Expr.eval, Expr.evalList, evalBoolExpr]

theorem decide_allEqual_cons (pair : Expr × Expr) (rest : List (Expr × Expr)) :
    decide (AllEqual inst lookup (pair :: rest)) =
      (decide (pair.1.eval inst lookup [] = pair.2.eval inst lookup []) &&
        decide (AllEqual inst lookup rest)) := by
  rw [Bool.eq_iff_iff, Bool.and_eq_true, decide_eq_true_iff, decide_eq_true_iff, decide_eq_true_iff]
  exact List.forall_mem_cons

/-- A flat conjunction. -/
theorem eval_boolExpr_and (pairs : List (Expr × Expr)) :
    (Expr.boolExpr .and (pairs.map notDistinct)).eval inst lookup [] =
      .bool (decide (AllEqual inst lookup pairs)) := by
  rw [Expr.eval, Expr.evalList_eq_map, evalBoolExpr, List.map_map]
  induction pairs with
  | nil => simp [AllEqual]
  | cons pair rest ih =>
    rw [List.map_cons, List.foldr_cons, ih, Function.comp_apply, eval_notDistinct, sqlAnd_bool,
      decide_allEqual_cons]

/-- A nested conjunction, however its operands are ordered. -/
theorem eval_foldl_and {combine : Expr → Expr → Expr}
    (conjoins :
      ∀ root node value value',
        root.eval inst lookup [] = .bool value →
        node.eval inst lookup [] = .bool value' →
        (combine root node).eval inst lookup [] = .bool (value && value'))
    (pairs : List (Expr × Expr)) {first : Expr} {value : Bool}
    (atFirst : first.eval inst lookup [] = .bool value) :
    ((pairs.map notDistinct).foldl combine first).eval inst lookup [] =
      .bool (value && decide (AllEqual inst lookup pairs)) := by
  induction pairs generalizing first value with
  | nil => simp [AllEqual, atFirst]
  | cons pair rest ih =>
    have extended := conjoins first (notDistinct pair) value _ atFirst
      (eval_notDistinct inst lookup pair)
    rw [List.map_cons, List.foldl_cons, ih extended, decide_allEqual_cons, Bool.and_assoc]

theorem eval_createAndFromList {pairs : List (Expr × Expr)} {condition : Expr}
    (created : createAndFromList (pairs.map notDistinct) = some condition) :
    condition.eval inst lookup [] = .bool (decide (AllEqual inst lookup pairs)) := by
  cases pairs with
  | nil => simp [createAndFromList] at created
  | cons pair rest =>
    rw [List.map_cons, createAndFromList] at created
    cases created
    rw [decide_allEqual_cons]
    refine eval_foldl_and inst lookup ?_ rest (eval_notDistinct inst lookup pair)
    intro root node value value' atRoot atNode
    rw [eval_and, atRoot, atNode, sqlAnd_bool, sqlAnd_bool, Bool.and_true, Bool.and_comm]

/-! ## Conditions of joins -/

theorem passes_flat_iff (pairs : List (Expr × Expr)) :
    passes inst lookup []
        (some (.boolExpr .and (pairs.map notDistinct))) = true ↔
      AllEqual inst lookup pairs := by
  rw [passes, eval_boolExpr_and]
  simp

/-- The condition of a set operation, or its negation. -/
theorem passes_setCondition_iff {width leftIndex rightIndex : Nat} {left right : RTE}
    (nonempty : setPairs width leftIndex rightIndex left right ≠ []) (neq : Bool) :
    passes inst lookup []
        (setCondition width leftIndex rightIndex left right neq) = true ↔
      if neq then
        ¬ AllEqual inst lookup (setPairs width leftIndex rightIndex left right)
      else
        AllEqual inst lookup (setPairs width leftIndex rightIndex left right) := by
  rw [setCondition]
  cases created : createAndFromList
    ((setPairs width leftIndex rightIndex left right).map notDistinct) with
  | none =>
    cases pairs : setPairs width leftIndex rightIndex left right with
    | nil => contradiction
    | cons pair rest => simp [pairs, createAndFromList] at created
  | some condition =>
    have value := eval_createAndFromList inst lookup created
    cases neq with
    | false => simp [passes, value]
    | true =>
      simp [passes, Expr.eval, Expr.evalList, evalBoolExpr, value, Datum.sqlNot]

end Conditions

end Ldv.Perm
