import Ldv.Sublink.Search

/-!
# The Unn strategy

An uncorrelated EXISTS, ANY or scalar sublink which is a conjunct is
replaced by a join with its rewritten query.  In the WHERE clause the query
becomes a new FROM item and the sublink a condition on its rows.  In the ON
condition of a join the query is joined on this condition above that join,
and the sublink becomes TRUE.
-/

namespace Ldv.Sublink

open Ldv.Sql

variable
  {Sub : Type}
  {subs : Subqueries Sub}

/-! ## Preconditions -/

mutual

/--
A column of the same query level, possibly below implicit casts.  All other
nodes but function calls pass as well.
-/
def isVarOrCasts : Expr Sub → Bool
  | .var ref => ref.varlevelsup = 0
  | .node (.funcExpr _ explicitCall) args =>
    !explicitCall && isVarOrCastsList args
  | _ => true

def isVarOrCastsList : List (Expr Sub) → Bool
  | [] => true
  | expr :: rest => isVarOrCasts expr && isVarOrCastsList rest

end

section Strategy

variable [DecidableEq Sub]

mutual

/-- Is the first occurrence of the sublink within the test of another? -/
def insideTest (search : Expr Sub) (inSub : Bool) :
    Expr Sub → Option Bool
  | .node _ args => insideTestList search inSub args
  | .subLink subLinkType testexpr subselect =>
    if .subLink subLinkType testexpr subselect = search then some inSub
    else insideTestBelow search testexpr
  | _ => none

def insideTestList (search : Expr Sub) (inSub : Bool) :
    List (Expr Sub) → Option Bool
  | [] => none
  | expr :: rest =>
    match insideTest search inSub expr with
    | some found => some found
    | none => insideTestList search inSub rest

/-- The walk over the children of a test. -/
def insideTestBelow (search : Expr Sub) : Expr Sub → Option Bool
  | .node _ args => insideTestList search true args
  | .subLink _ testexpr _ => insideTest search true testexpr
  | _ => none

end

def sublinkHasSublinksInTestOrInTest (info : SublinkInfo Sub) : Bool :=
  !(findExprSublinks info.sublink.testexpr).isEmpty ||
    insideTest info.sublink.expr false info.exprRoot = some true

/-- Is the sublink, or the comparison with a scalar one, a conjunct? -/
def sublinkInAndOrTop (info : SublinkInfo Sub) : Bool :=
  match info.sublink.subLinkType, info.parent with
  | .expr, some (.node (.opExpr opno) args) =>
    (args.all fun arg => arg = info.sublink.expr || isVarOrCasts arg) &&
      exprInAndOrTop (.node (.opExpr opno) args) info.exprRoot
  | .expr, some (.node (.boolExpr _) _) =>
    exprInAndOrTop info.sublink.expr info.exprRoot
  | .expr, some _ => false
  | _, _ => exprInAndOrTop info.sublink.expr info.exprRoot

def checkUnnStrategyPreconditions (subs : Subqueries Sub)
    (query : Query Sub) (info : SublinkInfo Sub) : Bool :=
  (info.isUncorrelated subs ||
      subs.uncorrelatedAfterChildRewrite info.sublink.subselect) &&
    info.location = .where && info.sublink.subLinkType ≠ .all &&
    sublinkInAndOrTop info && !inOuterJoin query info &&
    !subs.containsGenCorrSublink info.sublink.subselect &&
    !sublinkHasSublinksInTestOrInTest info

/-! ## The rewrite -/

/-- Applies a function to the join `getJoinForJoinQual` finds. -/
def JoinTreeNode.updateJoinForQual (expr : Expr Sub)
    (f : JoinTreeNode Sub → JoinTreeNode Sub) :
    JoinTreeNode Sub → Option (JoinTreeNode Sub)
  | .rangeTblRef _ => none
  | .joinExpr jointype rtindex larg rarg quals =>
    if quals = some expr then
      some (f (.joinExpr jointype rtindex larg rarg quals))
    else
      match rarg.updateJoinForQual expr f with
      | some rarg => some (.joinExpr jointype rtindex larg rarg quals)
      | none =>
        (larg.updateJoinForQual expr f).map fun larg =>
          .joinExpr jointype rtindex larg rarg quals

def updateJoinForQual (expr : Expr Sub)
    (f : JoinTreeNode Sub → JoinTreeNode Sub) :
    List (JoinTreeNode Sub) → Option (List (JoinTreeNode Sub))
  | [] => none
  | item :: rest =>
    match item.updateJoinForQual expr f with
    | some item => some (item :: rest)
    | none => (updateJoinForQual expr f rest).map (item :: ·)

omit [DecidableEq Sub] in
/-- What a sublink becomes for a row of the entry `rtIndex`. -/
def cSubPlus (info : SublinkInfo Sub) (rtIndex : Nat) : Expr Sub :=
  match info.sublink.subLinkType with
  | .any | .all => replaceParams rtIndex info.sublink.testexpr
  | .expr => Expr.column rtIndex 1
  | .exists => Expr.trueConst

/-- A condition with TRUE for the sublink, or none if it is the sublink. -/
def withoutSublink (info : SublinkInfo Sub) (quals : Option (Expr Sub)) : Option (Expr Sub) :=
  if info.exprRoot = info.sublink.expr then none
  else quals.map (replaceSubExpression true [(info.sublink.expr, Expr.trueConst)])

/-- The join of the ON condition below its join with the sublink query. -/
def joinWithSublink (info : SublinkInfo Sub) (rtIndex : Nat) :
    JoinTreeNode Sub → JoinTreeNode Sub
  | .rangeTblRef rtindex => .rangeTblRef rtindex
  | .joinExpr jointype rtindex larg rarg quals =>
    .joinExpr .inner (rtIndex + 1)
      (.joinExpr jointype rtindex larg rarg
        (withoutSublink info quals))
      (.rangeTblRef rtIndex) (some (cSubPlus info rtIndex))

/-- The query with a reference to the sublink query in its FROM clause. -/
def replaceSublinkWithCsub (subs : Subqueries Sub) (query : Query Sub)
    (info : SublinkInfo Sub) (rtIndex : Nat) : Query Sub :=
  match updateJoinForQual info.exprRoot (joinWithSublink info rtIndex) query.fromlist with
  | some fromlist =>
    recreateJoinRTEs subs
      { query with
        rtable := query.rtable ++ [.join []]
        fromlist := fromlist }
  | none =>
    let query : Query Sub := { query with
      fromlist := query.fromlist ++ [.rangeTblRef rtIndex] }
    if info.exprRoot = info.sublink.expr then
      { query with quals := some (cSubPlus info rtIndex) }
    else
      query.mapQuals (replaceSubExpression true [(info.sublink.expr, cSubPlus info rtIndex)])

/-- What stands for the sublink in the expression it was found in. -/
def sublinkReplacement (query : Query Sub) (info : SublinkInfo Sub)
    (rtIndex : Nat) : Expr Sub :=
  match query.fromlist.findSome? (JoinTreeNode.joinForQual info.exprRoot) with
  | some _ => Expr.trueConst
  | none => cSubPlus info rtIndex

/-- Is this another sublink of the same expression? -/
def hasSameExprRoot (info : SublinkInfo Sub) (sublinkPos : Nat)
    (position : Nat) (other : SublinkInfo Sub) : Bool :=
  position ≠ sublinkPos && other.exprRoot = info.exprRoot

/--
The Unn rewrite of the sublink at a position of the list, and the list with
the sublink replaced in the expressions of the others.  If the sublink is
the whole condition and another sublink has the same one, the list of
replacements is read before it is set, which is `none` here, as is a sublink
query on which the rewriter stops.
-/
def rewriteUnnStrategy (subs : Subqueries Sub) (query : Query Sub)
    (infos : List (SublinkInfo Sub)) (sublinkPos : Nat) :
    Option (Query Sub × List (SublinkInfo Sub)) := do
  let info ← infos[sublinkPos]?
  let rewrittenSub ← subs.rewriteQueryNode info.sublink.subselect
  if info.exprRoot = info.sublink.expr &&
      infos.zipIdx.any fun (other, position) =>
        hasSameExprRoot info sublinkPos position other then
    none
  else
    let rtable := query.rtable ++ [.subquery rewrittenSub []]
    let replacement := sublinkReplacement query info rtable.length
    some
      (replaceSublinkWithCsub subs { query with rtable := rtable } info rtable.length,
      infos.mapIdx fun position other =>
        if hasSameExprRoot info sublinkPos position other then
          { other with
            exprRoot := replaceSubExpression true
              [(info.sublink.expr, replacement)] other.exprRoot }
        else other)

end Strategy

/-! ## The replaced condition -/

section Condition

variable
  {inst : Instance subs}
  {info : SublinkInfo Sub}
  {scope outer : Scope}
  {entry : Nat}
  {row : Row}
  {env : Env}

/-- A scalar sublink with one row has the value of its first column. -/
theorem eval_scalar (isScalar : info.sublink.subLinkType = .expr)
    (member : row ∈ inst.rows info.sublink.subselect scope)
    (single : (inst.rows info.sublink.subselect scope).length ≤ 1) :
    info.sublink.expr.eval inst scope [] = row.column 1 := by
  simp only [SubLink.expr, isScalar, Expr.eval, sublinkValue]
  rcases rows : inst.rows info.sublink.subselect scope with
    _ | ⟨first, _ | ⟨second, rest⟩⟩
  · rw [rows] at member
    exact absurd member (by simp)
  · rw [rows] at member
    rw [List.mem_singleton.1 member]
    rfl
  · rw [rows] at single
    simp at single

theorem exists_isTrue_iff (isExists : info.sublink.subLinkType = .exists) :
    (info.sublink.expr.eval inst scope []).isTrue = true ↔
      ∃ row, row ∈ inst.rows info.sublink.subselect scope := by
  simp [SubLink.expr, isExists, Expr.eval, sublinkValue, List.eq_nil_iff_forall_not_mem]

theorem any_sublink_isTrue_iff (isAny : info.sublink.subLinkType = .any) :
    (info.sublink.expr.eval inst scope []).isTrue = true ↔
      ∃ row ∈ inst.rows info.sublink.subselect scope,
        (info.sublink.testexpr.eval inst scope row).isTrue = true := by
  simp only [SubLink.expr, isAny, Expr.eval, any_isTrue_iff]

/-- The condition on a row is the sublink restricted to this row. -/
theorem isTrue_cSubPlus_iff (carries : Carries inst info.sublink scope outer entry row env)
    (wellTyped : info.sublink.WellTyped subs) (notAll : info.sublink.subLinkType ≠ .all)
    (single :
      info.sublink.subLinkType = .expr →
        (inst.rows info.sublink.subselect scope).length ≤ 1) :
    ((cSubPlus info entry).eval inst (Scope.push env outer) []).isTrue =
        true ↔
      (info.sublink.expr.eval inst scope []).isTrue = true ∧
        (info.sublink.subLinkType = .any →
          (info.sublink.testexpr.eval inst scope row).isTrue = true) := by
  cases kind : info.sublink.subLinkType with
  | «exists» =>
    have holds := (exists_isTrue_iff kind).2 ⟨row, carries.member⟩
    simp [cSubPlus, kind, holds, Expr.trueConst, Expr.eval]
  | all => exact absurd kind notAll
  | any =>
    simp only [cSubPlus, kind, carries.eval_test (wellTyped.params (.inl kind)),
      any_sublink_isTrue_iff kind, forall_const]
    exact ⟨fun holds => ⟨⟨row, carries.member, holds⟩, holds⟩, And.right⟩
  | expr =>
    simp [cSubPlus, kind, eval_scalar kind carries.member (single kind),
      carries.eval_column (Nat.le_refl 1) (wellTyped.scalar kind)]

section Accepted

variable [DecidableEq Sub]

/-- The comparison with a scalar sublink is true of a value only. -/
def StrictComparison (inst : Instance subs) (info : SublinkInfo Sub) :
    Prop :=
  info.sublink.subLinkType = .expr →
    ∀ opno args, info.parent = some (.node (.opExpr opno) args) →
      ∀ values : List Datum, Datum.null ∈ values → (inst.op opno values).isTrue = false

/-- An accepted sublink, or the comparison with a scalar one, is true. -/
theorem isTrue_of_sublinkInAndOrTop (accepted : sublinkInAndOrTop info = true)
    (holds : (info.exprRoot.eval inst scope []).isTrue = true) :
    (info.sublink.expr.eval inst scope []).isTrue = true ∨
      info.sublink.subLinkType = .expr ∧
        ∃ opno args, info.parent = some (.node (.opExpr opno) args) ∧
          ((Expr.node (.opExpr opno) args).eval inst scope []).isTrue =
            true := by
  have conjunct : ∀ expr, exprInAndOrTop expr info.exprRoot = true →
      (expr.eval inst scope []).isTrue = true := by
    intro expr top
    rcases exists_andPath top with ⟨path, isPath, isConjunct⟩
    exact isTrue_of_andPath inst scope [] isPath isConjunct holds
  unfold sublinkInAndOrTop at accepted
  split at accepted
  · rename_i opno args kind parent
    simp only [Bool.and_eq_true] at accepted
    exact .inr ⟨kind, opno, args, parent, conjunct _ accepted.2⟩
  · exact .inl (conjunct _ accepted)
  · exact absurd accepted (by simp)
  · exact .inl (conjunct _ accepted)

omit [DecidableEq Sub] in
theorem exists_row_of_ne_null (isScalar : info.sublink.subLinkType = .expr)
    (notNull : info.sublink.expr.eval inst scope [] ≠ .null) :
    ∃ row, row ∈ inst.rows info.sublink.subselect scope := by
  refine List.exists_mem_of_ne_nil _ fun empty => notNull ?_
  simp [SubLink.expr, isScalar, Expr.eval, sublinkValue, empty, Row.column]

omit [DecidableEq Sub] in
/-- A sublink which is true has a row, for ANY one that passes the test. -/
theorem exists_row_of_isTrue (notAll : info.sublink.subLinkType ≠ .all)
    (holds : (info.sublink.expr.eval inst scope []).isTrue = true) :
    ∃ row ∈ inst.rows info.sublink.subselect scope,
      info.sublink.subLinkType = .any →
        (info.sublink.testexpr.eval inst scope row).isTrue = true := by
  cases kind : info.sublink.subLinkType with
  | «exists» =>
    rcases (exists_isTrue_iff kind).1 holds with ⟨row, member⟩
    exact ⟨row, member, by simp⟩
  | all => exact absurd kind notAll
  | any =>
    rcases (any_sublink_isTrue_iff kind).1 holds with ⟨row, member, test⟩
    exact ⟨row, member, fun _ => test⟩
  | expr =>
    have notNull : info.sublink.expr.eval inst scope [] ≠ .null := by
      intro isNull
      rw [isNull] at holds
      cases holds
    rcases exists_row_of_ne_null kind notNull with ⟨row, member⟩
    exact ⟨row, member, by simp⟩

/-- Where the whole condition is true, the sublink query has a row. -/
theorem exists_row_of_root (accepted : sublinkInAndOrTop info = true)
    (extracted : extractSublinks info.sublink info.exprRoot = some info.parent)
    (notAll : info.sublink.subLinkType ≠ .all) (strict : StrictComparison inst info)
    (holds : (info.exprRoot.eval inst scope []).isTrue = true) :
    ∃ row ∈ inst.rows info.sublink.subselect scope,
      info.sublink.subLinkType = .any →
        (info.sublink.testexpr.eval inst scope row).isTrue = true := by
  rcases isTrue_of_sublinkInAndOrTop accepted holds with
    sublinkHolds | ⟨kind, opno, args, parent, comparison⟩
  · exact exists_row_of_isTrue notAll sublinkHolds
  · have inArgs : info.sublink.expr ∈ args := by
      rcases extractSublinks_parent (P := fun _ => True) (by simp) trivial extracted with
        ⟨noParent, -⟩ | ⟨node, isNode, member, -⟩
      · rw [parent] at noParent
        cases noParent
      · rw [parent] at isNode
        cases isNode
        exact member
    have notNull : info.sublink.expr.eval inst scope [] ≠ .null := by
      intro isNull
      have strictHere := strict kind opno args parent
        (Expr.evalList inst scope [] args) (by
          rw [Expr.evalList_eq_map, ← isNull]
          exact List.mem_map_of_mem inArgs)
      simp only [Expr.eval, Instance.apply] at comparison
      rw [strictHere] at comparison
      cases comparison
    rcases exists_row_of_ne_null kind notNull with ⟨row, member⟩
    exact ⟨row, member, by simp [kind]⟩

/-- The condition after the replacement, for a row of the sublink query. -/
theorem isTrue_replaceSublink_iff (carries : Carries inst info.sublink scope outer entry row env)
    (agree : ∀ ref ∈ info.exprRoot.vars subs, scope ref = Scope.push env outer ref)
    (accepted : sublinkInAndOrTop info = true) (wellTyped : info.sublink.WellTyped subs)
    (notAll : info.sublink.subLinkType ≠ .all)
    (single :
      info.sublink.subLinkType = .expr →
        (inst.rows info.sublink.subselect scope).length ≤ 1) :
    ((replaceSubExpression true [(info.sublink.expr, cSubPlus info entry)]
        info.exprRoot).eval inst (Scope.push env outer) []).isTrue = true ↔
      (info.exprRoot.eval inst scope []).isTrue = true ∧
        (info.sublink.subLinkType = .any →
          (info.sublink.testexpr.eval inst scope row).isTrue = true) := by
  have restricted := isTrue_cSubPlus_iff carries wellTyped notAll single
  cases kind : info.sublink.subLinkType with
  | expr =>
    have same :
        info.sublink.expr.eval inst scope [] =
          (cSubPlus info entry).eval inst (Scope.push env outer) [] := by
      simp only [cSubPlus, kind]
      rw [eval_scalar kind carries.member (single kind),
        carries.eval_column (Nat.le_refl 1) (wellTyped.scalar kind)]
    rw [eval_replaceSubExpression inst [] true (by simpa using same) info.exprRoot agree]
    simp
  | all => exact absurd kind notAll
  | «exists» =>
    have top : exprInAndOrTop info.sublink.expr info.exprRoot = true := by
      simpa [sublinkInAndOrTop, kind] using accepted
    rw [isTrue_replace_iff inst true top agree fun holds =>
      (restricted.1 holds).1, restricted]
    have holds := (exists_isTrue_iff kind).2 ⟨row, carries.member⟩
    simp [kind, holds]
  | any =>
    have top : exprInAndOrTop info.sublink.expr info.exprRoot = true := by
      simpa [sublinkInAndOrTop, kind] using accepted
    rw [isTrue_replace_iff inst true top agree fun holds =>
      (restricted.1 holds).1, restricted]
    simp only [kind, forall_const]
    refine and_congr_right fun _ => ⟨And.right, fun test => ⟨?_, test⟩⟩
    exact (any_sublink_isTrue_iff kind).2 ⟨row, carries.member, test⟩

end Accepted

end Condition

end Ldv.Sublink
