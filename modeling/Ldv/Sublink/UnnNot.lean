import Ldv.Sublink.Search

/-!
# The Unn-Not strategy

A conjunct NOT (x op ANY (query)) is turned into a left join with the query
on "the test is true or null".  The query gets a column which is never
null, so that this column is null exactly for the rows without a partner,
which are the rows on which the test is false throughout.
-/

namespace Ldv.Sublink

open Ldv.Sql

variable
  {Sub : Type}
  {subs : Subqueries Sub}

/-! ## The rewrite -/

section Strategy

variable [DecidableEq Sub]

/-- Is the sublink below a NOT node which is a conjunct? -/
def sublinkInNegAndOrTop (info : SublinkInfo Sub) : Bool :=
  match info.parent with
  | some (.node (.boolExpr .not) [arg]) =>
    exprInAndOrTop (Expr.not arg) info.exprRoot
  | _ => false

def checkUnnNotStrategyPreconditions (subs : Subqueries Sub)
    (query : Query Sub) (info : SublinkInfo Sub) : Bool :=
  info.isUncorrelated subs && info.location = .where &&
    info.sublink.subLinkType = .any && sublinkInNegAndOrTop info &&
    !inOuterJoin query info &&
    !subs.containsGenCorrSublink info.sublink.subselect

/-- "The test is true or null" for a row of the entry `rtIndex`. -/
def generateCsubPlusForNot (info : SublinkInfo Sub) (rtIndex : Nat) :
    Expr Sub :=
  replaceParams rtIndex (Expr.or [info.sublink.testexpr, Expr.isNull info.sublink.testexpr])

/--
Joins a FROM item with the sublink query on "the test is true or null", and
the result with the rewritten sublink query.
-/
def addNotAnyJoins (subs : Subqueries Sub) (query : Query Sub)
    (info : SublinkInfo Sub) (rewrittenSub : Sub) (item : JoinTreeNode Sub) : Query Sub :=
  let subselect := info.sublink.subselect
  let subIndex := query.rtable.length + 1
  let sublinkIndex := query.rtable.length + 3
  recreateJoinRTEs subs
    { query with
      rtable := query.rtable ++
        [.subquery subselect [.bool false], .join [],
          .subquery rewrittenSub [], .join []]
      fromlist :=
        [.joinExpr .left (sublinkIndex + 1)
          (.joinExpr .left (subIndex + 1) item (.rangeTblRef subIndex)
            (some (generateCsubPlusForNot info subIndex)))
          (.rangeTblRef sublinkIndex) (some Expr.trueConst)] }

/--
The Unn-Not rewrite.  Without a FROM item `linitial` reads through a null
pointer, which is `none` here, as is a sublink query on which the rewriter
stops.
-/
def rewriteUnnNotStrategy (subs : Subqueries Sub) (query : Query Sub)
    (info : SublinkInfo Sub) : Option (Query Sub) := do
  let rewrittenSub ← subs.rewriteQueryNode info.sublink.subselect
  let query := joinQueryRTEs subs query
  match query.fromlist, info.parent with
  | item :: _, some parent =>
    let nullTest := Expr.isNull
      (Expr.column (query.rtable.length + 1) (subs.targetListLength info.sublink.subselect + 1))
    some ((addNotAnyJoins subs query info rewrittenSub item).mapQuals
      (replaceSubExpression true [(parent, nullTest)]))
  | _, _ => none

end Strategy

/-! ## The joins -/

section Joined

variable
  {query : Query Sub}
  {info : SublinkInfo Sub}
  {rewrittenSub : Sub}
  {item : JoinTreeNode Sub}

theorem rtFetch_addNotAnyJoins (plain : item.Plain subs query.rtable)
    (inRange : ∀ rtindex ∈ item.rtindexes, rtindex ≤ query.rtable.length) {rtindex : Nat}
    (notFirst : rtindex ≠ query.rtable.length + 2) (notSecond : rtindex ≠ query.rtable.length + 4) :
    rtFetch (addNotAnyJoins subs query info rewrittenSub item).rtable rtindex =
      rtFetch (query.rtable ++
        [.subquery info.sublink.subselect [.bool false], .join [],
          .subquery rewrittenSub [],
          .join []]) rtindex := by
  have plain' :=
    plain.of_sameEntries fun rtindex member =>
      rtFetch_append (inRange rtindex member)
        [.subquery info.sublink.subselect [.bool false], .join [],
          .subquery rewrittenSub [],
          .join []]
  simp only [addNotAnyJoins, recreateJoinRTEs, List.foldl_cons, List.foldl_nil, recreateJoinRTE]
  rw [recreateJoinRTE_of_plain plain', rtFetch_set_of_ne (by omega), rtFetch_set_of_ne (by omega)]

/-! ## Rows without a partner -/

theorem not_isTrue_iff (inst : Instance subs) (scope : Scope)
    (isAny : info.sublink.subLinkType = .any) :
    ((Expr.not info.sublink.expr).eval inst scope []).isTrue = true ↔
      ∀ row ∈ inst.rows info.sublink.subselect scope,
        info.sublink.testexpr.eval inst scope row = .bool false := by
  simp only [Expr.not, SubLink.expr, isAny, Expr.eval, Expr.evalList,
    Instance.apply, evalBoolExpr, List.headD_cons, sqlNot_isTrue_iff,
    any_eq_false_iff]

/-- The join condition asks for a test which is true or null. -/
theorem passes_csubPlusForNot_iff (inst : Instance subs) {outer : Scope} {limit : Nat}
    {env joined : Env} {row : Row} (agree : AgreeUpTo limit env joined)
    (inside : info.sublink.testexpr.Within subs limit)
    (plain :
      isPlainTest (subs.targetListLength info.sublink.subselect) info.sublink.testexpr = true)
    (width : row.length = subs.targetListLength info.sublink.subselect) {entry : Nat}
    (later : limit < entry) (absent : joined entry = none) :
    passes inst
        (Scope.push (joined.merge (Env.single entry (row ++ [.bool false]))) outer)
        (some (generateCsubPlusForNot info entry)) = true ↔
      (info.sublink.testexpr.eval inst (Scope.push env outer)
          row).isTrue = true ∨
        info.sublink.testexpr.eval inst (Scope.push env outer) row = .null := by
  have test :
      (replaceParams entry info.sublink.testexpr).eval inst
          (Scope.push (joined.merge (Env.single entry (row ++ [.bool false]))) outer) [] =
        info.sublink.testexpr.eval inst (Scope.push env outer) row := by
    refine eval_replaceParams inst ?_ [] _ plain ?_
    · intro paramid positive below
      rw [Env.push_column (Env.merge_single_self absent _), column_append positive (by omega)]
    · exact push_eq_of_agreeUpTo (agree.trans (AgreeUpTo.merge_single later joined _)) inside
  simp [generateCsubPlusForNot, Expr.or, Expr.isNull, replaceParams,
    replaceParamsList, passes, Expr.eval, Expr.evalList, Instance.apply,
    or_isTrue_iff, test]

/-- No row of the sublink query fits the combination. -/
def NoPartner (inst : Instance subs) (outer : Scope)
    (info : SublinkInfo Sub) (entry : Nat) (env : Env) : Prop :=
  ∀ row ∈ inst.rows info.sublink.subselect (Scope.push Env.empty outer),
    passes inst
      (Scope.push (env.merge (Env.single entry (row ++ [.bool false]))) outer)
      (some (generateCsubPlusForNot info entry)) = false

/-- A combination has no partner exactly where NOT ANY is true. -/
theorem noPartner_iff (inst : Instance subs) {outer : Scope}
    (isAny : info.sublink.subLinkType = .any) (uncorrelated : info.isUncorrelated subs = true)
    (full : inst.FullRows info.sublink.subselect)
    (boolean : ∀ scope row, IsBoolean (info.sublink.testexpr.eval inst scope row))
    (plain :
      isPlainTest (subs.targetListLength info.sublink.subselect) info.sublink.testexpr = true)
    {limit entry : Nat} {env left : Env} (agree : AgreeUpTo limit env left)
    (inside : info.sublink.testexpr.Within subs limit) (later : limit < entry)
    (absent : left entry = none) :
    NoPartner inst outer info entry left ↔
      ((Expr.not info.sublink.expr).eval inst (Scope.push env outer) []).isTrue = true := by
  rw [not_isTrue_iff inst _ isAny,
    rows_of_isUncorrelated inst uncorrelated _ (Scope.push Env.empty outer)]
  refine forall₂_congr fun row rowIn => ?_
  have width := full _ row rowIn
  rw [← Bool.not_eq_true, passes_csubPlusForNot_iff inst agree inside plain width later absent]
  rcases boolean (Scope.push env outer) row with isNull | ⟨truth, isBool⟩
  · simp [isNull]
  · rw [isBool]
    cases truth <;> simp

section Rows

variable
  (inst : Instance subs)
  (outer : Scope)
  (plain : item.Plain subs query.rtable)
  (inRange : ∀ rtindex ∈ item.rtindexes, rtindex ≤ query.rtable.length)

include plain inRange

theorem eval_item_addNotAnyJoins :
    item.eval inst outer (addNotAnyJoins subs query info rewrittenSub item).rtable =
      item.eval inst outer query.rtable := by
  refine JoinTreeNode.eval_of_sameEntries inst outer item ?_
  intro rtindex member
  have inside := inRange rtindex member
  rw [rtFetch_addNotAnyJoins plain inRange (by omega) (by omega), rtFetch_append inside]

theorem inputRows_addNotAnyJoins :
    inputRows inst outer (addNotAnyJoins subs query info rewrittenSub item).rtable
        (query.rtable.length + 1) =
      (inst.rows info.sublink.subselect
        (Scope.push Env.empty outer)).map fun row => row ++ [.bool false] := by
  simp only [inputRows]
  rw [rtFetch_addNotAnyJoins plain inRange (by omega) (by omega), rtFetch_append_length]
  rfl

omit plain inRange in
theorem fromlist_addNotAnyJoins :
    (addNotAnyJoins subs query info rewrittenSub item).fromlist =
      [.joinExpr .left (query.rtable.length + 4)
        (.joinExpr .left (query.rtable.length + 2) item (.rangeTblRef (query.rtable.length + 1))
          (some (generateCsubPlusForNot info (query.rtable.length + 1))))
        (.rangeTblRef (query.rtable.length + 3))
        (some Expr.trueConst)] := rfl

/-- A combination whose added column is null has no partner. -/
theorem exists_item_of_mem_addNotAnyJoins (full : inst.FullRows info.sublink.subselect)
    {env : Env}
    (member :
      env ∈ evalFromlist inst outer
        (addNotAnyJoins subs query info rewrittenSub item).rtable
        (addNotAnyJoins subs query info rewrittenSub item).fromlist) :
    ∃ left ∈ item.eval inst outer query.rtable,
      AgreeUpTo query.rtable.length left env ∧
        (env.lookup (query.rtable.length + 1)
            (subs.targetListLength info.sublink.subselect + 1) = .null →
          NoPartner inst outer info (query.rtable.length + 1) left) := by
  rw [fromlist_addNotAnyJoins, evalFromlist_singleton] at member
  rcases exists_left_of_mem_leftJoin inst outer _
    (show query.rtable.length + 2 < query.rtable.length + 4 by omega)
    (by omega) member with ⟨first, firstIn, agree⟩
  rcases mem_eval_leftJoin.1 firstIn with ⟨left, leftIn, cases⟩
  rw [inputRows_addNotAnyJoins inst outer plain inRange] at cases
  rw [eval_item_addNotAnyJoins inst outer plain inRange] at leftIn
  have absent : left (query.rtable.length + 1) = none :=
    JoinTreeNode.eval_beyond inst outer inRange leftIn
  refine ⟨left, leftIn, ?_, ?_⟩
  · refine AgreeUpTo.trans ?_ (agree.mono (by omega))
    rcases cases with ⟨row, -, -, rfl⟩ | ⟨-, rfl⟩
    · exact agreeUpTo_setJoin inst outer _ (AgreeUpTo.merge_single (by omega) left row) (by omega)
    · exact agreeUpTo_setJoin inst outer _ (AgreeUpTo.refl _ left) (by omega)
  · intro isNull
    rcases cases with ⟨row, rowIn, -, rfl⟩ | ⟨alone, -⟩
    · rcases List.mem_map.1 rowIn with ⟨base, baseIn, rfl⟩
      have width := full _ base baseIn
      have present : env (query.rtable.length + 1) = some (base ++ [.bool false]) := by
        rw [← agree _ (by omega), setJoin_of_ne inst outer _ (by omega),
          Env.merge_single_self absent]
      simp [Env.lookup, present, Row.column, ← width] at isNull
    · exact fun row rowIn => alone _ (List.mem_map_of_mem rowIn)

/-- A combination without a partner goes on with an added null column. -/
theorem exists_mem_addNotAnyJoins {left : Env} (member : left ∈ item.eval inst outer query.rtable)
    (alone : NoPartner inst outer info (query.rtable.length + 1) left) :
    ∃ env ∈ evalFromlist inst outer
        (addNotAnyJoins subs query info rewrittenSub item).rtable
        (addNotAnyJoins subs query info rewrittenSub item).fromlist,
      AgreeUpTo query.rtable.length left env ∧ env (query.rtable.length + 1) = none := by
  have absent : left (query.rtable.length + 1) = none :=
    JoinTreeNode.eval_beyond inst outer inRange member
  rw [← eval_item_addNotAnyJoins inst outer plain inRange] at member
  have first :
      setJoin inst outer (addNotAnyJoins subs query info rewrittenSub item).rtable
          (query.rtable.length + 2) left ∈
        (JoinTreeNode.joinExpr .left (query.rtable.length + 2) item
          (.rangeTblRef (query.rtable.length + 1))
          (some (generateCsubPlusForNot info
            (query.rtable.length + 1)))).eval inst outer
              (addNotAnyJoins subs query info rewrittenSub item).rtable := by
    refine mem_eval_leftJoin.2 ⟨left, member, .inr ⟨?_, rfl⟩⟩
    rw [inputRows_addNotAnyJoins inst outer plain inRange]
    intro row rowIn
    rcases List.mem_map.1 rowIn with ⟨base, baseIn, rfl⟩
    exact alone base baseIn
  rw [fromlist_addNotAnyJoins, evalFromlist_singleton]
  rcases exists_mem_leftJoin inst outer _
    (show query.rtable.length + 2 < query.rtable.length + 4 by omega)
    (show query.rtable.length + 2 < query.rtable.length + 3 by omega)
    _ (some Expr.trueConst) first with ⟨env, member', agree⟩
  refine ⟨env, member', ?_, ?_⟩
  · exact AgreeUpTo.trans (agreeUpTo_setJoin inst outer _ (AgreeUpTo.refl _ left) (by omega))
      (agree.mono (by omega))
  · rw [← agree _ (by omega), setJoin_of_ne inst outer _ (by omega), absent]

end Rows

end Joined

/-! ## The rewritten query -/

section Result

variable
  [DecidableEq Sub]
  {query : Query Sub}
  {info : SublinkInfo Sub}
  {rewrittenSub : Sub}

/-- An accepted sublink is the argument of a NOT node in a conjunct. -/
theorem parent_of_sublinkInNegAndOrTop (found : info.FoundIn query)
    (accepted : sublinkInNegAndOrTop info = true) :
    info.parent = some (Expr.not info.sublink.expr) ∧
      exprInAndOrTop (Expr.not info.sublink.expr) info.exprRoot = true := by
  unfold sublinkInNegAndOrTop at accepted
  split at accepted
  · rename_i arg isParent
    rcases extractSublinks_parent (P := fun _ => True) (by simp) trivial found.extracted with
      ⟨noParent, -⟩ | ⟨node, isNode, member, -⟩
    · rw [isParent] at noParent
      cases noParent
    · rw [isParent] at isNode
      cases isNode
      rw [List.mem_singleton.1 member]
      exact ⟨isParent, accepted⟩
  · exact absurd accepted (by simp)

/--
When the Unn-Not rewrite is right: there is a FROM item, joins have no
USING list, the NOT node stands in no ON condition, the sublink query is no
set operation, and its test has no parameter within a sublink of its own.
-/
structure UnnNotApplies (subs : Subqueries Sub) (query : Query Sub)
    (info : SublinkInfo Sub) : Prop where
  hasFrom : query.fromlist ≠ []
  plainJoins : query.Plain subs
  notInOn : ∀ quals ∈ query.onQuals, pathsToExpr (Expr.not info.sublink.expr) quals = []
  notSetOperation : subs.isSetOperation info.sublink.subselect = false
  plainTest :
    isPlainTest (subs.targetListLength info.sublink.subselect) info.sublink.testexpr = true

/-- The NOT node is no part of the join condition made from its test. -/
theorem pathsToExpr_csubPlusForNot (entry : Nat) :
    pathsToExpr (Expr.not info.sublink.expr) (generateCsubPlusForNot info entry) = [] := by
  have inTest :
      pathsToExpr (Expr.not info.sublink.expr)
        (replaceParams entry info.sublink.testexpr) = [] := by
    refine pathsToExpr_of_size_lt _ ?_
    rw [size_replaceParams]
    simp only [Expr.not, SubLink.expr, Expr.size, Expr.sizeList]
    omega
  simp only [generateCsubPlusForNot, Expr.or, Expr.isNull, replaceParams,
    replaceParamsList, pathsToExpr, pathsToExprList, inTest]
  simp [Expr.not]

variable
  (wellFormed : query.WellFormed subs)
  (found : info.FoundIn query)
  (accepted : checkUnnNotStrategyPreconditions subs query info = true)
  (applies : UnnNotApplies subs query info)

include found accepted applies in
/-- The sublink stands in the WHERE clause. -/
theorem quals_of_unnNotApplies :
    query.quals = some info.exprRoot := by
  simp only [checkUnnNotStrategyPreconditions, Bool.and_eq_true, decide_eq_true_eq] at accepted
  rcases parent_of_sublinkInNegAndOrTop found accepted.1.1.2 with
    ⟨-, conjunct⟩
  rcases List.mem_append.1 (found.inWhere accepted.1.1.1.1.2) with
    isQuals | inOn
  · exact Option.mem_toList.1 isQuals
  · rcases exists_andPath conjunct with ⟨path, isPath, -⟩
    rw [applies.notInOn _ inOn] at isPath
    exact absurd isPath (by simp)

/-- The IS NULL test on the column added to the sublink query. -/
def unnNotTest (subs : Subqueries Sub) (query : Query Sub) (info : SublinkInfo Sub) :
    Expr Sub :=
  Expr.isNull (Expr.column ((joinQueryRTEs subs query).rtable.length + 1)
    (subs.targetListLength info.sublink.subselect + 1))

/-- The query after the Unn-Not rewrite. -/
def unnNotResult (subs : Subqueries Sub) (query : Query Sub) (info : SublinkInfo Sub)
    (rewrittenSub : Sub) (item : JoinTreeNode Sub) :
    Query Sub :=
  { addNotAnyJoins subs (joinQueryRTEs subs query) info rewrittenSub item with
    quals := query.quals.map (replaceSubExpression true
      [(Expr.not info.sublink.expr, unnNotTest subs query info)]) }

/-- The NOT node stands in no ON condition of the rewritten query. -/
theorem replace_onQuals_addNotAnyJoins {item : JoinTreeNode Sub}
    (isItem : (joinQueryRTEs subs query).fromlist = [item])
    (applies : UnnNotApplies subs query info) {quals : Expr Sub}
    (member :
      quals ∈ (addNotAnyJoins subs (joinQueryRTEs subs query) info rewrittenSub item).onQuals)
    (replacement : Expr Sub) :
    replaceSubExpression true [(Expr.not info.sublink.expr, replacement)] quals = quals := by
  refine replaceSubExpression_of_not_occurs true quals ?_
  have cases :
      quals = Expr.trueConst ∨
        quals = generateCsubPlusForNot info ((joinQueryRTEs subs query).rtable.length + 1) ∨
        quals ∈ item.onQuals := by
    simpa [addNotAnyJoins, recreateJoinRTEs, Query.onQuals, JoinTreeNode.onQuals] using member
  have trueFree : pathsToExpr (Expr.not info.sublink.expr) Expr.trueConst = [] := by
    simp [Expr.trueConst, pathsToExpr, Expr.not]
  rcases cases with rfl | rfl | inItem
  · exact trueFree
  · exact pathsToExpr_csubPlusForNot _
  · have inJoined : quals ∈ (joinQueryRTEs subs query).onQuals := by
      simpa [Query.onQuals, isItem] using inItem
    rcases joinQueryRTEs_onQuals inJoined with rfl | original
    · exact trueFree
    · exact applies.notInOn quals original

theorem rewriteUnnNotStrategy_eq {item : JoinTreeNode Sub}
    (isItem : (joinQueryRTEs subs query).fromlist = [item])
    (isParent : info.parent = some (Expr.not info.sublink.expr))
    (rewrites : subs.rewriteQueryNode info.sublink.subselect = some rewrittenSub)
    (applies : UnnNotApplies subs query info) :
    rewriteUnnNotStrategy subs query info =
      some (unnNotResult subs query info rewrittenSub item) := by
  have fromlist :
      (addNotAnyJoins subs (joinQueryRTEs subs query) info rewrittenSub item).fromlist.map
          (JoinTreeNode.mapQuals (replaceSubExpression true
            [(Expr.not info.sublink.expr, unnNotTest subs query info)])) =
        (addNotAnyJoins subs (joinQueryRTEs subs query) info rewrittenSub item).fromlist := by
    refine (List.map_congr_left fun joined isJoined => ?_).trans (List.map_id _)
    exact JoinTreeNode.mapQuals_of_fixed fun quals member =>
      replace_onQuals_addNotAnyJoins isItem applies
        (List.mem_flatMap.2 ⟨joined, isJoined, member⟩) _
  have quals :
      (addNotAnyJoins subs (joinQueryRTEs subs query) info rewrittenSub item).quals =
        query.quals := by
    simp [addNotAnyJoins, recreateJoinRTEs]
  simp only [rewriteUnnNotStrategy, rewrites, Option.bind_eq_bind, Option.bind_some, isItem,
    isParent, Query.mapQuals, unnNotResult]
  rw [← unnNotTest, fromlist, quals]

omit [DecidableEq Sub] in
/-- The planner accepts the joins of the Unn-Not rewrite. -/
theorem plannable_addNotAnyJoins {item : JoinTreeNode Sub} (wellFormed : query.WellFormed subs)
    (isItem : query.fromlist = [item]) (uncorrelated : info.isUncorrelated subs = true)
    (rewrites : subs.rewriteQueryNode info.sublink.subselect = some rewrittenSub)
    (notSetOperation : subs.isSetOperation info.sublink.subselect = false)
    (testVarnos : ∀ varno ∈ info.sublink.testexpr.varnos subs, varno ∈ item.rtindexes) :
    (∀ rte ∈ (addNotAnyJoins subs query info rewrittenSub item).rtable,
        rte.plannable subs = true) ∧
      ∀ joined ∈ (addNotAnyJoins subs query info rewrittenSub item).fromlist,
        joined.plannable subs = true := by
  rcases Query.plannable_iff.1 wellFormed.plannable with
    ⟨entries, items, -⟩
  have noVars := corrVars_of_isUncorrelated uncorrelated
  have noVarsRewritten := corrVars_rewritten uncorrelated rewrites
  constructor
  · refine plannable_recreateJoinRTE _ ?_
    intro rte member
    rcases List.mem_append.1 member with old | new
    · exact entries rte old
    · simp only [List.mem_cons, List.not_mem_nil, or_false] at new
      rcases new with rfl | rfl | rfl | rfl <;>
        simp [RangeTblEntry.plannable, notSetOperation, noVars, noVarsRewritten]
  · intro joined member
    rw [List.mem_singleton.1 member]
    have conditionVarnos :
        ∀ varno ∈ (generateCsubPlusForNot info (query.rtable.length + 1)).varnos subs,
          varno ∈ item.rtindexes ∨ varno = query.rtable.length + 1 := by
      intro varno isVarno
      rcases Expr.mem_varnos.1 isVarno with ⟨ref, isVar, ownLevel, rfl⟩
      rcases vars_replaceParams _ _ ref isVar with old | new
      · refine .inl (testVarnos _ (Expr.mem_varnos.2 ⟨ref, ?_, ownLevel, rfl⟩))
        simpa [Expr.or, Expr.isNull, Expr.vars, Expr.varsList] using old
      · exact .inr new.2
    have condition :
        (qualVarnos subs (some (generateCsubPlusForNot info
          (query.rtable.length + 1)))).all
            (fun varno =>
              (item.rtindexes ++
                (JoinTreeNode.rangeTblRef (query.rtable.length + 1) :
                  JoinTreeNode Sub).rtindexes).contains varno) = true := by
      refine List.all_eq_true.2 fun varno isVarno => ?_
      simpa [JoinTreeNode.rtindexes] using conditionVarnos varno isVarno
    simp only [JoinTreeNode.plannable, condition, items item (by simp [isItem])]
    simp [qualVarnos, Expr.varnos, Expr.vars, Expr.trueConst]

/-- The planner accepts the query after the Unn-Not rewrite. -/
theorem plannable_unnNotResult {item : JoinTreeNode Sub} (wellFormed : query.WellFormed subs)
    (found : info.FoundIn query) (isQuals : query.quals = some info.exprRoot)
    (isItem : (joinQueryRTEs subs query).fromlist = [item])
    (uncorrelated : info.isUncorrelated subs = true)
    (rewrites : subs.rewriteQueryNode info.sublink.subselect = some rewrittenSub)
    (notSetOperation : subs.isSetOperation info.sublink.subselect = false) :
    (unnNotResult subs query info rewrittenSub item).plannable subs = true := by
  have inItem {rtindex : Nat} (inFrom : rtindex ∈ query.rtindexes) : rtindex ∈ item.rtindexes := by
    have joined := @rtindexes_joinQueryRTEs Sub subs _ _ inFrom
    simpa [Query.rtindexes, isItem] using joined
  have inResult {rtindex : Nat}
      (inside :
        rtindex ∈ item.rtindexes ∨ rtindex = (joinQueryRTEs subs query).rtable.length + 1) :
      rtindex ∈ (unnNotResult subs query info rewrittenSub item).rtindexes := by
    rcases inside with inside | isEntry
    · simp [Query.rtindexes, unnNotResult, addNotAnyJoins, recreateJoinRTEs,
        JoinTreeNode.rtindexes, inside]
    · simp [Query.rtindexes, unnNotResult, addNotAnyJoins, recreateJoinRTEs,
        JoinTreeNode.rtindexes, isEntry]
  rcases plannable_addNotAnyJoins wellFormed.joinQueryRTEs isItem uncorrelated rewrites
      notSetOperation fun varno member =>
        inItem (wellFormed.quals_mem isQuals (found.testVarnos varno member)) with
    ⟨entries, items⟩
  refine Query.plannable_iff.2 ⟨entries, items, ?_⟩
  intro varno member
  rw [Query.varnos, unnNotResult, isQuals, Option.map_some] at member
  rcases List.mem_append.1 member with inQuals | inTargets
  · rcases varnos_replaceSubExpression true inQuals with old | new
    · exact inResult (.inl (inItem (wellFormed.quals_mem isQuals old)))
    · refine inResult (.inr ?_)
      simpa [unnNotTest, Expr.isNull, Expr.column, Expr.varnos, Expr.vars, Expr.varsList] using new
  · refine inResult (.inl (inItem
      ((Query.plannable_iff.1 wellFormed.plannable).2.2 varno (List.mem_append_right _ ?_))))
    simpa [addNotAnyJoins, recreateJoinRTEs] using inTargets

section Combinations

variable
  {inst : Instance subs}
  {outer : Scope}
  {item : JoinTreeNode Sub}
  (isQuals : query.quals = some info.exprRoot)
  (isItem : (joinQueryRTEs subs query).fromlist = [item])
  (isAny : info.sublink.subLinkType = .any)
  (uncorrelated : info.isUncorrelated subs = true)
  (conjunct : exprInAndOrTop (Expr.not info.sublink.expr) info.exprRoot = true)
  (full : inst.FullRows info.sublink.subselect)
  (boolean : ∀ scope row, IsBoolean (info.sublink.testexpr.eval inst scope row))

include wellFormed found applies isQuals isItem isAny uncorrelated full boolean

/-- NOT ANY is true on a combination exactly if it has no partner. -/
theorem noPartner_iff_negation {env left : Env} (agree : AgreeUpTo query.rtable.length env left)
    (member : left ∈ item.eval inst outer (joinQueryRTEs subs query).rtable) :
    NoPartner inst outer info ((joinQueryRTEs subs query).rtable.length + 1) left ↔
      ((Expr.not info.sublink.expr).eval inst (Scope.push env outer) []).isTrue = true := by
  have qualsWithin := wellFormed.quals info.exprRoot isQuals
  have testVarnos := @SublinkInfo.FoundIn.testVarnos Sub subs _ _ _ found
  have inRange := wellFormed.joinQueryRTEs.inRange item (by simp [isItem])
  rcases @joinQueryRTEs_rtable Sub subs query with ⟨added, longer, -⟩
  exact noPartner_iff inst isAny uncorrelated full boolean applies.plainTest agree
    (fun varno isVarno => qualsWithin varno (testVarnos varno isVarno))
    (by rw [longer, List.length_append]; omega)
    (JoinTreeNode.eval_beyond inst outer inRange member)

include conjunct

/-- A combination of the query goes on after the rewrite. -/
theorem exists_mem_unnNotResult {env : Env} (member : env ∈ query.combinations inst outer) :
    ∃ joined ∈ (unnNotResult subs query info rewrittenSub item).combinations inst outer,
      AgreeUpTo query.rtable.length env joined := by
  have plain := Query.Plain.joinQueryRTEs wellFormed applies.plainJoins item (by simp [isItem])
  have inRange := wellFormed.joinQueryRTEs.inRange item (by simp [isItem])
  have same := sameUpTo_joinQueryRTEs inst outer wellFormed
  rw [isItem, evalFromlist_singleton] at same
  rcases @joinQueryRTEs_rtable Sub subs query with ⟨added, longer, -⟩
  rcases exists_andPath conjunct with ⟨path, isPath, isConjunct⟩
  rcases List.mem_filter.1 member with ⟨inFrom, passed⟩
  rcases same.1 env inFrom with ⟨left, leftIn, agree⟩
  rw [isQuals] at passed
  have negation := isTrue_of_andPath inst _ [] isPath isConjunct passed
  rcases exists_mem_addNotAnyJoins inst outer plain inRange leftIn
    ((noPartner_iff_negation wellFormed found applies isQuals isItem isAny uncorrelated full
      boolean agree leftIn).2 negation) with ⟨joined, joinedIn, agree', isNone⟩
  have agreeAll := agree.trans (agree'.mono (by simp [longer]))
  refine ⟨joined, List.mem_filter.2 ⟨joinedIn, ?_⟩, agreeAll⟩
  rw [unnNotResult, isQuals]
  refine (isTrue_replace_iff inst true conjunct
    (push_eq_of_agreeUpTo agreeAll (wellFormed.quals info.exprRoot isQuals))
    fun _ => negation).2 ⟨passed, ?_⟩
  simp [unnNotTest, Expr.isNull, Expr.column, Expr.eval, Expr.evalList,
    Instance.apply, Scope.push, Env.lookup, isNone]

/-- A combination after the rewrite is one of the query. -/
theorem exists_combination_of_mem_unnNotResult {env : Env}
    (member : env ∈ (unnNotResult subs query info rewrittenSub item).combinations inst outer) :
    ∃ original ∈ query.combinations inst outer, AgreeUpTo query.rtable.length original env := by
  have plain := Query.Plain.joinQueryRTEs wellFormed applies.plainJoins item (by simp [isItem])
  have inRange := wellFormed.joinQueryRTEs.inRange item (by simp [isItem])
  have same := sameUpTo_joinQueryRTEs inst outer wellFormed
  rw [isItem, evalFromlist_singleton] at same
  rcases @joinQueryRTEs_rtable Sub subs query with ⟨added, longer, -⟩
  rcases List.mem_filter.1 member with ⟨inFrom, passed⟩
  rcases exists_item_of_mem_addNotAnyJoins inst outer plain inRange full
    inFrom with ⟨left, leftIn, agree', alone⟩
  rcases same.2 left leftIn with ⟨original, originalIn, agree⟩
  have agreeAll : AgreeUpTo query.rtable.length original env :=
    AgreeUpTo.trans agree (agree'.mono (by simp [longer]))
  refine ⟨original, List.mem_filter.2 ⟨originalIn, ?_⟩, agreeAll⟩
  rw [unnNotResult, isQuals] at passed
  rw [isQuals]
  refine ((isTrue_replace_iff inst true conjunct
    (push_eq_of_agreeUpTo agreeAll (wellFormed.quals info.exprRoot isQuals)) ?_).1 passed).1
  intro isNull
  refine (noPartner_iff_negation wellFormed found applies isQuals isItem isAny uncorrelated full
    boolean agree leftIn).1 (alone ?_)
  simpa [unnNotTest, Expr.isNull, Expr.column, Expr.eval, Expr.evalList,
    Instance.apply, Scope.push] using isNull

end Combinations

end Result

/-! ## Examples -/

/--
`SELECT c FROM r JOIN s USING (a) WHERE NOT (c = ANY (SELECT 9))` for
`r(a, b)` and `s(a, c)`.
-/
def usingNotAny : Query Sql.Query where
  rtable := [.relation 1 [1, 2], .relation 2 [1, 2], .join [.column 1 1, .column 1 2, .column 2 2]]
  fromlist :=
    [.joinExpr .inner 3 (.rangeTblRef 1) (.rangeTblRef 2)
      (some (.node (.opExpr 96) [.column 1 1, .column 2 1]))]
  quals := some (.not (equalsAny 96 (.column 3 3) (selectValue 23 (.int 9))).expr)
  targetList := [{ expr := .column 3 3 }]

/-- The sublink of a query whose WHERE clause is NOT of the sublink. -/
def negatedInfo (sublink : SubLink Sql.Query) : SublinkInfo Sql.Query where
  sublink := sublink
  exprRoot := .not sublink.expr
  parent := some (.not sublink.expr)
  location := .where

/-- `SELECT c FROM r WHERE NOT (c = ANY (SELECT c FROM u))`. -/
def plainNotAny : Query Sql.Query where
  rtable := [.relation 1 [1]]
  fromlist := [.rangeTblRef 1]
  quals := some (.not (equalsAny 96 (.column 1 1) (selectFrom 3 23)).expr)
  targetList := [{ expr := .column 1 1 }]

end Ldv.Sublink
