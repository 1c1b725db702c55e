import Ldv.Sublink.Correlation
import Ldv.Sublink.Discovery
import Ldv.Sublink.Joins
import Ldv.Sublink.Rewriter

/-!
# Sublinks of a query and the preconditions of the strategies

`findSublinkLocations` collects the sublinks of a query with the expression
each one stands in.  The preconditions of the unnesting strategies look at
the place of the sublink in this expression and at the join the expression
belongs to.
-/

namespace Ldv.Sublink

open Ldv.Sql LabelledTree

variable
  {Sub : Type}
  {subs : Subqueries Sub}

variable {found : Option (Expr Sub)} {query : Query Sub}

inductive SublinkLocation where
  | select
  | where
deriving DecidableEq, Repr

/-- A sublink node. -/
structure SubLink (Sub : Type) where
  subLinkType : SubLinkType
  testexpr : Expr Sub
  subselect : Sub

def SubLink.expr (sublink : SubLink Sub) : Expr Sub :=
  .subLink sublink.subLinkType sublink.testexpr sublink.subselect

/-- A sublink together with the expression it was found in. -/
structure SublinkInfo (Sub : Type) where
  sublink : SubLink Sub
  exprRoot : Expr Sub
  parent : Option (Expr Sub)
  location : SublinkLocation

/-- No column of an enclosing query is used in the sublink query. -/
def SublinkInfo.isUncorrelated (subs : Subqueries Sub)
    (info : SublinkInfo Sub) : Bool :=
  (subs.corrVars info.sublink.subselect).isEmpty

/-!
## Finding sublinks

The searches of `Ldv.Sublink.Discovery` run on the tree of an expression.
Every node is labelled by its expression, and a branch of a CASE by the CASE.
-/

def Head.tag : Head → Discovery.NodeTag
  | .opExpr _ => .opExpr
  | .funcExpr _ _ => .funcExpr
  | .boolExpr _ => .boolExpr
  | .nullTest => .nullTest
  | .distinctExpr => .distinctExpr
  | .caseExpr => .caseExpr
  | .coalesceExpr => .coalesceExpr

mutual

/-- Added EXISTS conditions, which are built after the searches, are leaves. -/
def Expr.tree : Expr Sub → Discovery.Node (Expr Sub) Sub
  | .var ref => .node (.node .var (.var ref)) .nil
  | .const value => .node (.node .const (.const value)) .nil
  | .param paramid => .node (.node .param (.param paramid)) .nil
  | .node head args =>
    .node (.node head.tag (.node head args))
      (match head with
      | .caseExpr => caseTrees (.node .caseExpr args) args
      | .nullTest => argTrees .arg args
      | _ => argTrees .args args)
  | .subLink subLinkType testexpr subselect =>
    .node (.subLink (.subLink subLinkType testexpr subselect) subselect)
      (.cons .testexpr testexpr.tree .nil)
  | .existsQuery quals subselect => .node (.node .const (.existsQuery quals subselect)) .nil

def argTrees (field : Discovery.Field) : List (Expr Sub) → Discovery.Args (Expr Sub) Sub
  | [] => .nil
  | arg :: args => .cons field arg.tree (argTrees field args)

/-- The branches of a CASE, and its default. -/
def caseTrees (label : Expr Sub) : List (Expr Sub) → Discovery.Args (Expr Sub) Sub
  | expr :: result :: args =>
    .cons .args (.node (.node .caseWhen label)
      (.cons .expr expr.tree (.cons .result result.tree .nil))) (caseTrees label args)
  | [defresult] => .cons .defresult defresult.tree .nil
  | [] => .nil

end

def Expr.asSubLink : Expr Sub → Option (SubLink Sub)
  | .subLink subLinkType testexpr subselect => some ⟨subLinkType, testexpr, subselect⟩
  | _ => none

/-- The sublinks of an expression, with those of test expressions. -/
def findExprSublinks (expr : Expr Sub) : List (SubLink Sub) :=
  (Discovery.findExprSublinkWalker [] expr.tree).filterMap fun found =>
    found.sublink.label.asSubLink

@[simp]
theorem label_tree (expr : Expr Sub) : expr.tree.kind.label = expr := by
  cases expr <;> rfl

/-- The tree is that of a child of the expression. -/
def Expr.HasChild (expr : Expr Sub) (node : Discovery.Node (Expr Sub) Sub) : Prop :=
  ∃ child ∈ expr.children, node = child.tree

/-- A branch of a CASE, with its condition and result. -/
def IsBranch (expr : Expr Sub) (node : Discovery.Node (Expr Sub) Sub) : Prop :=
  node.kind = .node .caseWhen expr ∧ ∀ entry ∈ node.entries, expr.HasChild entry.2

theorem hasChild_argTrees {expr : Expr Sub} {field : Discovery.Field} :
    ∀ {args : List (Expr Sub)}, args ⊆ expr.children →
      ∀ entry ∈ (argTrees field args).entries, expr.HasChild entry.2
  | [], _, _, member => nomatch member
  | arg :: args, below, entry, member => by
    rcases List.mem_cons.1 member with rfl | member
    · exact ⟨arg, below List.mem_cons_self, rfl⟩
    · exact hasChild_argTrees (List.subset_of_cons_subset below) entry member

theorem hasChild_caseTrees {expr : Expr Sub} :
    ∀ {args : List (Expr Sub)}, args ⊆ expr.children →
      ∀ entry ∈ (caseTrees expr args).entries, expr.HasChild entry.2 ∨ IsBranch expr entry.2
  | [], _, _, member => nomatch member
  | [defresult], below, entry, member => by
    rw [List.mem_singleton.1 member]
    exact .inl ⟨defresult, below List.mem_cons_self, rfl⟩
  | condition :: result :: args, below, entry, member => by
    rw [List.cons_subset, List.cons_subset] at below
    rcases List.mem_cons.1 member with rfl | member
    · refine .inr ⟨rfl, fun entry member => ?_⟩
      rcases List.mem_cons.1 member with rfl | member
      · exact ⟨condition, below.1, rfl⟩
      · rw [List.mem_singleton.1 member]
        exact ⟨result, below.2.1, rfl⟩
    · exact hasChild_caseTrees below.2.2 entry member

theorem hasChild_tree (expr : Expr Sub) :
    ∀ entry ∈ expr.tree.entries, expr.HasChild entry.2 ∨ IsBranch expr entry.2 := by
  intro entry member
  cases expr with
  | node head args =>
    cases head with
    | caseExpr => exact hasChild_caseTrees (List.Subset.refl args) entry member
    | _ => exact .inl (hasChild_argTrees (List.Subset.refl args) entry member)
  | subLink subLinkType testexpr subselect =>
    rw [List.mem_singleton.1 member]
    exact .inl ⟨testexpr, List.mem_singleton_self _, rfl⟩
  | _ => cases member

/-- The tree of an expression or a branch, for an expression with a property. -/
def IsPart (P : Expr Sub → Prop) (node : Discovery.Node (Expr Sub) Sub) : Prop :=
  (node = node.kind.label.tree ∨ IsBranch node.kind.label node) ∧ P node.kind.label

theorem isPart_tree {P : Expr Sub → Prop} {expr : Expr Sub} (holds : P expr) :
    IsPart P expr.tree :=
  ⟨.inl (by rw [label_tree]), by rwa [label_tree]⟩

theorem IsPart.entry {P : Expr Sub → Prop} {node : Discovery.Node (Expr Sub) Sub}
    (isPart : IsPart P node) {entry : Discovery.Field × Discovery.Node (Expr Sub) Sub}
    (member : entry ∈ node.entries) :
    node.kind.label.HasChild entry.2 ∨ IsBranch node.kind.label entry.2 := by
  rcases isPart.1 with isTree | isBranch
  · rw [isTree] at member
    exact hasChild_tree _ entry member
  · exact .inl (isBranch.2 entry member)

theorem IsPart.step {P : Expr Sub → Prop}
    (below : ∀ expr, P expr → ∀ child ∈ expr.children, P child)
    (node : Discovery.Node (Expr Sub) Sub) (isPart : IsPart P node) :
    ∀ entry ∈ node.entries, IsPart P entry.2 := by
  intro entry member
  rcases isPart.entry member with ⟨child, isChild, isTree⟩ | isBranch
  · rw [isTree]
    exact isPart_tree (below _ isPart.2 child isChild)
  · have sameLabel : entry.2.kind.label = node.kind.label := by
      simp [isBranch.1, Discovery.Kind.label]
    exact ⟨.inr (sameLabel ▸ isBranch), sameLabel ▸ isPart.2⟩

section Extraction

variable [DecidableEq Sub]

/-- The node above the first place of a sublink that the search reaches. -/
def extractSublinks (sublink : SubLink Sub) (expr : Expr Sub) : Option (Option (Expr Sub)) :=
  (Discovery.extractSublinks [] none
    ⟨sublink.expr, .cons .testexpr sublink.testexpr.tree .nil, sublink.subselect⟩ none
    expr.tree).map fun info =>
      info.parent.bind fun position =>
        (expr.tree.lookup position).map fun found => found.2.kind.label

/-- Descriptions of the sublinks of an expression, unless one is missed. -/
def findSublinksForExpr (location : SublinkLocation) (expr : Expr Sub) :
    Option (List (SublinkInfo Sub)) :=
  (findExprSublinks expr).mapM fun sublink =>
    (extractSublinks sublink expr).map fun parent =>
      { sublink := sublink, exprRoot := expr, parent := parent,
        location := location }

/-- Descriptions of the sublinks of a query. -/
def findSublinkLocations (query : Query Sub) :
    Option (List (SublinkInfo Sub)) := do
  let select ← query.targetList.mapM fun te =>
    findSublinksForExpr .select te.expr
  let whereInfos ← (query.quals.toList ++ query.onQuals).mapM (findSublinksForExpr .where)
  return select.flatten ++ whereInfos.flatten

/-- The description is one `findSublinkLocations` may give for a query. -/
structure SublinkInfo.FoundIn (info : SublinkInfo Sub) (query : Query Sub) :
    Prop where
  extracted : extractSublinks info.sublink info.exprRoot = some info.parent
  inSelect : info.location = .select → ∃ te ∈ query.targetList, te.expr = info.exprRoot
  inWhere : info.location = .where → info.exprRoot ∈ query.quals.toList ++ query.onQuals

theorem foundIn_of_findSublinkLocations {infos : List (SublinkInfo Sub)}
    (located : findSublinkLocations query = some infos) {info : SublinkInfo Sub}
    (isInfo : info ∈ infos) : info.FoundIn query := by
  simp only [findSublinkLocations, Option.bind_eq_bind, Option.bind_eq_some_iff, Option.pure_def,
    Option.some.injEq] at located
  rcases located with ⟨selects, inSelects, wheres, inWheres, rfl⟩
  rcases List.mem_append.1 isInfo with isInfo | isInfo
  · rcases List.mem_flatten.1 isInfo with ⟨infos, areFound, isInfo⟩
    rcases Effect.exists_of_mem_mapM inSelects areFound with ⟨te, isTarget, described⟩
    rcases Effect.exists_of_mem_mapM described isInfo with ⟨sublink, -, described⟩
    rcases Option.map_eq_some_iff.1 described with ⟨parent, extracted, rfl⟩
    exact ⟨extracted, fun _ => ⟨te, isTarget, rfl⟩, nofun⟩
  · rcases List.mem_flatten.1 isInfo with ⟨infos, areFound, isInfo⟩
    rcases Effect.exists_of_mem_mapM inWheres areFound with ⟨expr, isCondition, described⟩
    rcases Effect.exists_of_mem_mapM described isInfo with ⟨sublink, -, described⟩
    rcases Option.map_eq_some_iff.1 described with ⟨parent, extracted, rfl⟩
    exact ⟨extracted, nofun, fun _ => isCondition⟩

/--
The node above a sublink that is found has the sublink as a child, and every
property of the root that passes to children.
-/
theorem extractSublinks_parent {P : Expr Sub → Prop}
    (below : ∀ expr, P expr → ∀ child ∈ expr.children, P child) {sublink : SubLink Sub}
    {expr : Expr Sub} (holds : P expr) (extracted : extractSublinks sublink expr = some found) :
    (found = none ∧ expr = sublink.expr) ∨
      ∃ node, found = some node ∧ sublink.expr ∈ node.children ∧ P node := by
  rcases Option.map_eq_some_iff.1 extracted with ⟨info, isInfo, rfl⟩
  rcases Discovery.extractSublinks_sound _ _ _ _ _ _ isInfo with
    ⟨path, steps, -, -, isParent, isNode, -⟩
  by_cases top : path = []
  · rw [top, Tree.lookup, Option.some.injEq, Prod.mk.injEq] at isNode
    refine .inl ⟨by simp [isParent, top], ?_⟩
    rw [← label_tree expr, isNode.2]
    rfl
  · rcases Tree.lookup_parent (IsPart.step below) (isPart_tree holds) top isNode with
      ⟨way, above, field, isAbove, isPart, member⟩
    refine .inr ⟨above.kind.label, by simp [isParent, top, isAbove], ?_, isPart.2⟩
    rcases isPart.entry member with ⟨child, isChild, isTree⟩ | isBranch
    · have isSublink : sublink.expr = child := by
        rw [← label_tree child, ← isTree]
        rfl
      exact isSublink ▸ isChild
    · cases isBranch.1

theorem SublinkInfo.FoundIn.vars {info : SublinkInfo Sub}
    (found : info.FoundIn query) (ref : Var) (member : ref ∈ info.sublink.expr.vars subs) :
    ref ∈ info.exprRoot.vars subs := by
  rcases extractSublinks_parent (P := fun expr => expr.vars subs ⊆ info.exprRoot.vars subs)
      (fun _ within _ isChild _ isVar => within (Expr.vars_subset_of_child isChild isVar))
      (List.Subset.refl _) found.extracted with
    ⟨-, isRoot⟩ | ⟨node, -, isChild, within⟩
  · exact isRoot ▸ member
  · exact within (Expr.vars_subset_of_child isChild member)

theorem SublinkInfo.FoundIn.testVars {info : SublinkInfo Sub}
    (found : info.FoundIn query) (ref : Var) (member : ref ∈ info.sublink.testexpr.vars subs) :
    ref ∈ info.exprRoot.vars subs :=
  found.vars ref (by simp [SubLink.expr, Expr.vars, member])

theorem SublinkInfo.FoundIn.testVarnos {info : SublinkInfo Sub} {query : Query Sub}
    (found : info.FoundIn query) (varno : Nat)
    (member : varno ∈ info.sublink.testexpr.varnos subs) :
    varno ∈ info.exprRoot.varnos subs := by
  rcases Expr.mem_varnos.1 member with ⟨ref, isVar, rest⟩
  exact Expr.mem_varnos.2 ⟨ref, found.testVars ref isVar, rest⟩

end Extraction

/-! ## Conditions of joins -/

/-- Applies a function to the ON conditions of a FROM item. -/
def JoinTreeNode.mapQuals (f : Expr Sub → Expr Sub) :
    JoinTreeNode Sub → JoinTreeNode Sub
  | .rangeTblRef rtindex => .rangeTblRef rtindex
  | .joinExpr jointype rtindex larg rarg quals =>
    .joinExpr jointype rtindex (larg.mapQuals f) (rarg.mapQuals f) (quals.map f)

/-- Applies a function to the ON and WHERE conditions of a query. -/
def Query.mapQuals (f : Expr Sub → Expr Sub) (query : Query Sub) :
    Query Sub :=
  { query with
    fromlist := query.fromlist.map (JoinTreeNode.mapQuals f)
    quals := query.quals.map f }

theorem JoinTreeNode.mapQuals_of_fixed {f : Expr Sub → Expr Sub} {item : JoinTreeNode Sub}
    (fixed : ∀ quals ∈ item.onQuals, f quals = quals) :
    item.mapQuals f = item := by
  induction item with
  | rangeTblRef rtindex => rfl
  | joinExpr jointype rtindex larg rarg quals leftHypothesis rightHypothesis =>
    simp only [JoinTreeNode.onQuals, List.mem_append, Option.mem_toList] at fixed
    simp only [JoinTreeNode.mapQuals]
    rw [leftHypothesis fun expr member => fixed expr (.inl (.inr member)),
      rightHypothesis fun expr member => fixed expr (.inr member)]
    cases quals with
    | none => rfl
    | some expr => rw [Option.map_some, fixed expr (.inl (.inl rfl))]

section Joined

variable [DecidableEq Sub]

/-- The type of the join whose ON condition is the expression. -/
def JoinTreeNode.joinForQual (expr : Expr Sub) :
    JoinTreeNode Sub → Option JoinType
  | .rangeTblRef _ => none
  | .joinExpr jointype _ larg rarg quals =>
    if quals = some expr then some jointype
    else
      match rarg.joinForQual expr with
      | some found => some found
      | none => larg.joinForQual expr

/-- Is the expression the ON condition of an outer join? -/
def inOuterJoin (query : Query Sub) (info : SublinkInfo Sub) : Bool :=
  match query.fromlist.findSome? (JoinTreeNode.joinForQual info.exprRoot) with
  | some jointype => jointype ≠ .inner
  | none => false

end Joined

/-- ON conditions read entries of their FROM item. -/
theorem JoinTreeNode.varnos_onQuals {item : JoinTreeNode Sub}
    (plannable : item.plannable subs = true) {quals : Expr Sub} (member : quals ∈ item.onQuals)
    {varno : Nat} (isVarno : varno ∈ quals.varnos subs) :
    varno ∈ item.rtindexes := by
  induction item with
  | rangeTblRef rtindex => exact absurd member (by simp [onQuals])
  | joinExpr jointype rtindex larg rarg condition leftHypothesis rightHypothesis =>
    simp only [JoinTreeNode.plannable, Bool.and_eq_true,
      List.all_eq_true, List.contains_eq_mem, decide_eq_true_eq]
      at plannable
    simp only [JoinTreeNode.onQuals, List.mem_append, Option.mem_toList] at member
    simp only [JoinTreeNode.rtindexes, List.mem_append]
    rcases member with (rfl | inLeft) | inRight
    · exact .inl (List.mem_append.1 (plannable.2 varno isVarno))
    · exact .inl (.inl (leftHypothesis plannable.1.1 inLeft))
    · exact .inl (.inr (rightHypothesis plannable.1.2 inRight))

/-- The test of a sublink reads entries of the FROM clause. -/
theorem SublinkInfo.FoundIn.testVarnos_mem [DecidableEq Sub] {info : SublinkInfo Sub}
    (found : info.FoundIn query) (wellFormed : query.WellFormed subs)
    (varno : Nat) (member : varno ∈ info.sublink.testexpr.varnos subs) :
    varno ∈ query.rtindexes := by
  have inRoot := found.testVarnos varno member
  rcases Query.plannable_iff.1 wellFormed.plannable with ⟨-, items, reads⟩
  cases location : info.location with
  | select =>
    rcases found.inSelect location with ⟨te, isTarget, isRoot⟩
    refine reads varno (List.mem_append_right _ ?_)
    exact List.mem_flatMap.2 ⟨te, isTarget, isRoot ▸ inRoot⟩
  | «where» =>
    rcases List.mem_append.1 (found.inWhere location) with
      isQuals | inOn
    · exact wellFormed.quals_mem (Option.mem_toList.1 isQuals) inRoot
    · rcases List.mem_flatMap.1 inOn with ⟨item, isItem, inItem⟩
      exact List.mem_flatMap.2 ⟨item, isItem,
        JoinTreeNode.varnos_onQuals (items item isItem) inItem inRoot⟩

/-!
## Tests of sublinks as join conditions

The strategies turn the test of an ANY or ALL sublink into a condition on a
row of a range-table entry by replacing the parameters of the test by
columns of the entry.  The replacement also goes into the tests of sublinks
within the test, where a parameter stands for a column of another query; it
is right only if there is none.
-/

variable
  {Sub : Type}
  {subs : Subqueries Sub}

/-! ## Truth values of sublinks -/

theorem sqlNot_isTrue_iff (value : Datum) :
    (Datum.sqlNot value).isTrue = true ↔ value = .bool false := by
  rcases value with _ | (_ | _) | _ | _ <;> simp [Datum.sqlNot, Datum.isTrue]

theorem sqlOr_eq_false_iff (left right : Datum) :
    Datum.sqlOr left right = .bool false ↔ left = .bool false ∧ right = .bool false := by
  rcases left with _ | (_ | _) | _ | _ <;>
    rcases right with _ | (_ | _) | _ | _ <;> simp [Datum.sqlOr]

theorem any_isTrue_iff (test : Row → Datum) (rows : List Row) :
    (sublinkValue .any test rows).isTrue = true ↔ ∃ row ∈ rows, (test row).isTrue = true := by
  induction rows with
  | nil => simp [sublinkValue]
  | cons row rest ih =>
    simp only [sublinkValue] at ih ⊢
    simp [sqlOr_isTrue_iff, ih]

theorem any_eq_false_iff (test : Row → Datum) (rows : List Row) :
    sublinkValue .any test rows = .bool false ↔ ∀ row ∈ rows, test row = .bool false := by
  induction rows with
  | nil => simp [sublinkValue]
  | cons row rest ih =>
    simp only [sublinkValue] at ih ⊢
    simp [sqlOr_eq_false_iff, ih]

theorem isTrue_or_iff (inst : Instance subs) (scope : Scope) (left right : Expr Sub) :
    ((Expr.or [left, right]).eval inst scope []).isTrue = true ↔
      (left.eval inst scope []).isTrue = true ∨ (right.eval inst scope []).isTrue = true := by
  simp [Expr.or, Expr.eval, Expr.evalList, Instance.apply, or_isTrue_iff]

theorem isTrue_not_iff (inst : Instance subs) (scope : Scope) (arg : Expr Sub) :
    ((Expr.not arg).eval inst scope []).isTrue = true ↔ arg.eval inst scope [] = .bool false := by
  simp only [Expr.not, Expr.eval, Expr.evalList, Instance.apply,
    evalBoolExpr, List.headD_cons, sqlNot_isTrue_iff]

/-- A value of type boolean. -/
def IsBoolean (value : Datum) : Prop :=
  value = .null ∨ ∃ truth, value = .bool truth

/-! ## Parameters -/

mutual

/-- Replaces parameters by columns of the entry `rtIndex`. -/
def replaceParams (rtIndex : Nat) : Expr Sub → Expr Sub
  | .param paramid => Expr.column rtIndex paramid
  | .node head args => .node head (replaceParamsList rtIndex args)
  | .subLink subLinkType testexpr subselect =>
    .subLink subLinkType (replaceParams rtIndex testexpr) subselect
  | .var ref => .var ref
  | .const value => .const value
  | .existsQuery quals subselect => .existsQuery quals subselect

def replaceParamsList (rtIndex : Nat) : List (Expr Sub) → List (Expr Sub)
  | [] => []
  | expr :: rest =>
    replaceParams rtIndex expr :: replaceParamsList rtIndex rest

end

mutual

theorem size_replaceParams (rtIndex : Nat) :
    ∀ expr : Expr Sub, (replaceParams rtIndex expr).size = expr.size
  | .param _ => rfl
  | .node _ args => by
    simp only [replaceParams, Expr.size, size_replaceParamsList rtIndex args]
  | .subLink _ testexpr _ => by
    simp only [replaceParams, Expr.size, size_replaceParams rtIndex testexpr]
  | .var _ => rfl
  | .const _ => rfl
  | .existsQuery _ _ => rfl

theorem size_replaceParamsList (rtIndex : Nat) :
    ∀ exprs : List (Expr Sub), Expr.sizeList (replaceParamsList rtIndex exprs) = Expr.sizeList exprs
  | [] => rfl
  | expr :: rest => by
    simp only [replaceParamsList, Expr.sizeList,
      size_replaceParams rtIndex expr, size_replaceParamsList rtIndex rest]

end

theorem replaceParamsList_eq_map (rtIndex : Nat) (exprs : List (Expr Sub)) :
    replaceParamsList rtIndex exprs = exprs.map (replaceParams rtIndex) := by
  induction exprs with
  | nil => rfl
  | cons expr rest ih => simp [replaceParamsList, ih]

/-- Column references of a test whose parameters are replaced. -/
theorem vars_replaceParams (rtIndex : Nat) (expr : Expr Sub) (ref : Var)
    (member : ref ∈ (replaceParams rtIndex expr).vars subs) :
    ref ∈ expr.vars subs ∨ ref.varlevelsup = 0 ∧ ref.varno = rtIndex := by
  induction expr with
  | param paramid =>
    simp only [replaceParams, Expr.column, Expr.vars, List.mem_singleton] at member
    exact .inr (by simp [member])
  | node _ args ih =>
    rw [replaceParams, Expr.vars, replaceParamsList_eq_map, Expr.mem_varsList] at member
    rcases member with ⟨_, isNew, isVar⟩
    rcases List.mem_map.1 isNew with ⟨arg, isArg, rfl⟩
    rcases ih arg isArg isVar with old | isEntry
    · exact .inl (Expr.mem_varsList.2 ⟨arg, isArg, old⟩)
    · exact .inr isEntry
  | subLink _ testexpr subselect ih =>
    simp only [replaceParams, Expr.vars, List.mem_append] at member ⊢
    rcases member with inTest | inQuery
    · rcases ih inTest with old | isEntry
      · exact .inl (.inl old)
      · exact .inr isEntry
    · exact .inl (.inr inQuery)
  | _ => exact .inl member

mutual

/-- Is there a parameter anywhere in the expression? -/
def hasParam : Expr Sub → Bool
  | .param _ => true
  | .node _ args => hasParamList args
  | .subLink _ testexpr _ => hasParam testexpr
  | _ => false

def hasParamList : List (Expr Sub) → Bool
  | [] => false
  | expr :: rest => hasParam expr || hasParamList rest

end

mutual

/--
The parameters of the test are columns of a query with `width` columns, and
there is none in the test of another sublink.
-/
def isPlainTest (width : Nat) : Expr Sub → Bool
  | .param paramid => 1 ≤ paramid && paramid ≤ width
  | .node _ args => isPlainTestList width args
  | .subLink _ testexpr _ => !hasParam testexpr
  | _ => true

def isPlainTestList (width : Nat) : List (Expr Sub) → Bool
  | [] => true
  | expr :: rest => isPlainTest width expr && isPlainTestList width rest

end

theorem hasParamList_eq_any (exprs : List (Expr Sub)) :
    hasParamList exprs = exprs.any hasParam := by
  induction exprs with
  | nil => rfl
  | cons expr rest ih => simp [hasParamList, ih]

theorem isPlainTestList_eq_all (width : Nat) (exprs : List (Expr Sub)) :
    isPlainTestList width exprs = exprs.all (isPlainTest width) := by
  induction exprs with
  | nil => rfl
  | cons expr rest ih => simp [isPlainTestList, ih]

theorem replaceParams_of_not_hasParam (rtIndex : Nat) (expr : Expr Sub)
    (free : hasParam expr = false) :
    replaceParams rtIndex expr = expr := by
  induction expr with
  | param _ => simp [hasParam] at free
  | node head args ih =>
    rw [hasParam, hasParamList_eq_any, List.any_eq_false] at free
    rw [replaceParams, replaceParamsList_eq_map, List.map_congr_left fun arg isArg =>
      ih arg isArg (by simpa using free arg isArg), List.map_id']
  | subLink _ _ _ ih => rw [replaceParams, ih free]
  | _ => rfl

/-- A plain test becomes a condition on the row of the entry. -/
theorem eval_replaceParams (inst : Instance subs) {scope scope' : Scope} {rtIndex width : Nat}
    {row : Row}
    (atEntry :
      ∀ paramid, 1 ≤ paramid → paramid ≤ width →
        scope' { varno := rtIndex, varattno := paramid } = row.column paramid)
    (params : Row) (expr : Expr Sub) (plain : isPlainTest width expr = true)
    (agree : ∀ ref ∈ expr.vars subs, scope ref = scope' ref) :
    (replaceParams rtIndex expr).eval inst scope' params = expr.eval inst scope row := by
  induction expr with
  | param paramid =>
    simp only [isPlainTest, Bool.and_eq_true, decide_eq_true_eq] at plain
    exact atEntry paramid plain.1 plain.2
  | node head args ih =>
    rw [isPlainTest, isPlainTestList_eq_all, List.all_eq_true] at plain
    simp only [replaceParams, replaceParamsList_eq_map, Expr.eval, Expr.evalList_eq_map,
      List.map_map]
    congr 1
    exact List.map_congr_left fun arg isArg => ih arg isArg (plain arg isArg)
      fun ref isVar => agree ref (Expr.mem_varsList.2 ⟨arg, isArg, isVar⟩)
  | subLink subLinkType testexpr subselect =>
    simp only [isPlainTest, Bool.not_eq_true'] at plain
    rw [replaceParams, replaceParams_of_not_hasParam rtIndex testexpr plain]
    refine (Expr.eval_congr inst params _ agree).symm.trans ?_
    simp only [Expr.eval]
  | var ref => exact (agree ref (by simp [Expr.vars])).symm
  | const _ => rfl
  | existsQuery quals subselect =>
    rw [replaceParams]
    refine (Expr.eval_congr inst params _ agree).symm.trans ?_
    simp only [Expr.eval]

/-! ## Rows of one entry -/

theorem Env.merge_single_self {env : Env} {rtindex : Nat} (absent : env rtindex = none)
    (row : Row) :
    env.merge (Env.single rtindex row) rtindex = some row := by
  simp [Env.merge, Env.single, absent]

theorem Env.merge_single_of_ne (env : Env) {rtindex position : Nat} (other : position ≠ rtindex)
    (row : Row) :
    env.merge (Env.single rtindex row) position = env position := by
  simp [Env.merge, Env.single, other]

theorem Env.push_column {env : Env} {rtindex : Nat} {row : Row} (present : env rtindex = some row)
    (outer : Scope) (attno : Nat) :
    Scope.push env outer { varno := rtindex, varattno := attno } = row.column attno := by
  simp [Scope.push, Env.lookup, present]

/-- Columns a query had before constants were appended to it. -/
theorem column_append {row : Row} {attno : Nat} (positive : 1 ≤ attno) (inside : attno ≤ row.length)
    (added : Row) :
    Row.column (row ++ added) attno = Row.column row attno := by
  simp only [Row.column, List.getD_eq_getElem?_getD]
  rw [List.getElem?_append_left (by omega)]

/-! ## Uncorrelated sublinks -/

/-- The rows of an uncorrelated query are the same in every scope. -/
theorem rows_of_isUncorrelated {info : SublinkInfo Sub} (inst : Instance subs)
    (uncorrelated : info.isUncorrelated subs = true) (scope scope' : Scope) :
    inst.rows info.sublink.subselect scope = inst.rows info.sublink.subselect scope' := by
  refine inst.rows_congr _ _ _ fun ref member => ?_
  rw [List.isEmpty_iff.1 uncorrelated] at member
  exact absurd member (by simp)

theorem corrVars_of_isUncorrelated {info : SublinkInfo Sub}
    (uncorrelated : info.isUncorrelated subs = true) :
    subs.corrVars info.sublink.subselect = [] :=
  List.isEmpty_iff.1 uncorrelated

/-- The rewrite of an uncorrelated query may stand in a FROM clause. -/
theorem corrVars_rewritten {info : SublinkInfo Sub} {rewrittenSub : Sub}
    (uncorrelated : info.isUncorrelated subs = true)
    (rewrites : subs.rewriteQueryNode info.sublink.subselect = some rewrittenSub) :
    subs.corrVars rewrittenSub = [] := by
  refine List.eq_nil_iff_forall_not_mem.2 fun ref member => ?_
  have original := subs.corrVars_rewriteQueryNode _ _ rewrites member
  rw [corrVars_of_isUncorrelated uncorrelated] at original
  exact absurd original (by simp)

/-! ## Rewritten sublink queries -/

/--
A sublink as the parser builds it: the parameters of a test are columns of
the query, and a scalar query has a column.
-/
structure SubLink.WellTyped (subs : Subqueries Sub)
    (sublink : SubLink Sub) : Prop where
  params :
    sublink.subLinkType = .any ∨ sublink.subLinkType = .all →
      isPlainTest (subs.targetListLength sublink.subselect) sublink.testexpr = true
  scalar : sublink.subLinkType = .expr → 1 ≤ subs.targetListLength sublink.subselect

theorem column_take (row : Row) {attno width : Nat} (positive : 1 ≤ attno)
    (inside : attno ≤ width) :
    Row.column (row.take width) attno = Row.column row attno := by
  cases attno with
  | zero => omega
  | succ index =>
    simp only [Row.column, Nat.add_one_sub_one]
    rw [List.getD_eq_getElem?_getD, List.getD_eq_getElem?_getD,
      List.getElem?_take_of_lt (by omega)]

/--
A combination of rows which has, at the position `entry`, a row of the
rewritten sublink query that extends `row`, and otherwise agrees with the
scope of the sublink on the columns of its test.
-/
structure Carries (inst : Instance subs) (sublink : SubLink Sub)
    (scope outer : Scope) (entry : Nat) (row : Row) (env : Env) :
    Prop where
  member : row ∈ inst.rows sublink.subselect scope
  present :
    ∃ full, env entry = some full ∧ full.take (subs.targetListLength sublink.subselect) = row
  agree : ∀ ref ∈ sublink.testexpr.vars subs, scope ref = Scope.push env outer ref

namespace Carries

variable
  {inst : Instance subs}
  {sublink : SubLink Sub}
  {scope outer : Scope}
  {entry : Nat}
  {row : Row}
  {env : Env}

theorem eval_column (carries : Carries inst sublink scope outer entry row env) {attno : Nat}
    (positive : 1 ≤ attno) (inside : attno ≤ subs.targetListLength sublink.subselect) :
    (Expr.column entry attno : Expr Sub).eval inst (Scope.push env outer)
      [] = row.column attno := by
  rcases carries.present with ⟨full, present, rfl⟩
  rw [column_take full positive inside]
  exact Env.push_column present outer attno

theorem eval_test (carries : Carries inst sublink scope outer entry row env)
    (plain : isPlainTest (subs.targetListLength sublink.subselect) sublink.testexpr = true) :
    (replaceParams entry sublink.testexpr).eval inst (Scope.push env outer)
      [] = sublink.testexpr.eval inst scope row :=
  eval_replaceParams inst
    (fun _ positive inside => carries.eval_column positive inside) [] _
    plain carries.agree

end Carries

theorem isBoolean_valueOp (opno : Oid) (values : List Datum) :
    IsBoolean (valueOp opno values) := by
  unfold valueOp
  split
  · split_ifs
    · exact .inr ⟨_, rfl⟩
    · exact .inr ⟨_, rfl⟩
    · exact .inl rfl
  · split_ifs
    · exact .inr ⟨_, rfl⟩
    · exact .inl rfl
  · exact .inl rfl

theorem valueOp_null (opno : Oid) {values : List Datum} (hasNull : Datum.null ∈ values) :
    (valueOp opno values).isTrue = false := by
  unfold valueOp
  split
  · simp at hasNull
  · simp at hasNull
  · rfl

/-- The sublink `expr = ANY` of the query. -/
def equalsAny (opno : Oid) (expr : Expr Sql.Query) (query : Sql.Query) :
    SubLink Sql.Query where
  subLinkType := .any
  testexpr := .node (.opExpr opno) [expr, .param 1]
  subselect := query

/-! ## Conjuncts of a condition -/

/--
An expression accepted by `exprInAndOrTop` is true for every row and
database for which the root is, wherever else copies of it occur.
-/
theorem isTrue_of_exprInAndOrTop {Sub : Type} [DecidableEq Sub] {subs : Subqueries Sub}
    (inst : Instance subs) (scope : Scope) (params : Row) {expr root : Expr Sub}
    (accepted : exprInAndOrTop expr root = true)
    (holds : (root.eval inst scope params).isTrue = true) :
    (expr.eval inst scope params).isTrue = true := by
  rcases exists_andPath accepted with ⟨path, isPath, conjunct⟩
  exact isTrue_of_andPath inst scope params isPath conjunct holds

/-- The condition `a = 1` on the first column of the first entry. -/
def equalsOne : Expr Sql.Query :=
  .node (.opExpr 96) [.column 1 1, .const (.int 1)]

/-- Four copies of `a = 1`, of which only the last is a conjunct. -/
def equalsOneCopies : Expr Sql.Query :=
  .and [.or [equalsOne, .not equalsOne], .not (.node .nullTest [equalsOne]), equalsOne]

theorem isTrue_equalsOne_of_equalsOneCopies :
    (equalsOne.eval (columnInstance 23 fun _ => [])
      (Scope.push (Env.single 1 [.int 1]) topScope) []).isTrue = true :=
  isTrue_of_exprInAndOrTop _ _ _
    (show exprInAndOrTop equalsOne equalsOneCopies = true by decide +kernel) (by decide +kernel)

/-! ## Correlation -/

/--
The columns of enclosing queries are those that go up out of the tree of the
sublink query, as they are seen from outside.
-/
def DescribedBy (subs : Subqueries Sub) (sub : Sub) (query : Correlation.Subselect) : Prop :=
  ∀ ref, ref ∈ subs.corrVars sub ↔
    ∃ position steps inner, Correlation.VarAt query.root position steps inner ∧
      Correlation.RefersOutside steps inner ∧
      ref = { inner with
        varlevelsup := inner.varlevelsup - steps.countP fun step => step.1.isQuery }

/-- If a sublink is classified exactly, it is uncorrelated in both models or in none. -/
theorem isUncorrelated_iff_category {info : SublinkInfo Sub} {query : Correlation.Subselect}
    {memory : Correlation.Memory} (described : DescribedBy subs info.sublink.subselect query)
    (exact : query.ClassifiedExactly memory) :
    info.isUncorrelated subs = true ↔ query.category memory = .uncorrelated := by
  rw [exact.2.2.2, SublinkInfo.isUncorrelated, List.isEmpty_iff, List.eq_nil_iff_forall_not_mem]
  constructor
  · rintro none ⟨position, steps, inner, isVar, outside⟩
    exact none _ ((described _).2 ⟨position, steps, inner, isVar, outside, rfl⟩)
  · rintro none ref member
    obtain ⟨position, steps, inner, isVar, outside, -⟩ := (described ref).1 member
    exact none ⟨position, steps, inner, isVar, outside⟩

end Ldv.Sublink
