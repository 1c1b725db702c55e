import Ldv.Sublink.Unn

/-!
# Results of the Unn strategy

The rewritten query has the distinct tuples of the original one, for
sublinks of the WHERE clause and of ON conditions.
-/

namespace Ldv.Sublink

open Ldv.Sql
open Relational

variable
  {Sub : Type}
  {subs : Subqueries Sub}

/-! ## Rewrites of a WHERE condition -/

section Result

variable
  [DecidableEq Sub]
  {query : Query Sub}
  {info : SublinkInfo Sub}
  {rewrittenSub : Sub}

theorem updateJoinForQual_none {expr : Expr Sub} (f : JoinTreeNode Sub → JoinTreeNode Sub)
    {item : JoinTreeNode Sub} (absent : expr ∉ item.onQuals) :
    item.updateJoinForQual expr f = none ∧ item.joinForQual expr = none := by
  induction item with
  | rangeTblRef rtindex => exact ⟨rfl, rfl⟩
  | joinExpr jointype rtindex larg rarg quals leftHypothesis rightHypothesis =>
    simp only [JoinTreeNode.onQuals, List.mem_append, Option.mem_toList, not_or] at absent
    have other : quals ≠ some expr := absent.1.1
    simp [JoinTreeNode.updateJoinForQual, JoinTreeNode.joinForQual, other,
      leftHypothesis absent.1.2, rightHypothesis absent.2]

/-- The join found, if the expression stands only at FROM items. -/
theorem updateJoinForQual_cases {expr : Expr Sub} (f : JoinTreeNode Sub → JoinTreeNode Sub)
    {fromlist : List (JoinTreeNode Sub)}
    (ownItem :
      ∀ item ∈ fromlist, expr ∈ item.onQuals →
        ∃ jointype rtindex larg rarg, item = .joinExpr jointype rtindex larg rarg (some expr)) :
    (expr ∉ fromlist.flatMap JoinTreeNode.onQuals ∧
        updateJoinForQual expr f fromlist = none) ∨
      ∃ before jointype rtindex larg rarg after,
        fromlist =
            before ++ .joinExpr jointype rtindex larg rarg (some expr) :: after ∧
          fromlist.findSome? (JoinTreeNode.joinForQual expr) = some jointype ∧
          updateJoinForQual expr f fromlist =
            some (before ++ f (.joinExpr jointype rtindex larg rarg (some expr)) :: after) := by
  induction fromlist with
  | nil => exact .inl ⟨by simp, rfl⟩
  | cons item rest ih =>
    by_cases inItem : expr ∈ item.onQuals
    · rcases ownItem item (by simp) inItem with
        ⟨jointype, rtindex, larg, rarg, rfl⟩
      refine .inr ⟨[], jointype, rtindex, larg, rarg, rest, rfl, ?_, ?_⟩
      · simp [JoinTreeNode.joinForQual]
      · simp [updateJoinForQual, JoinTreeNode.updateJoinForQual]
    · rcases updateJoinForQual_none f inItem with ⟨noUpdate, noJoin⟩
      rcases ih fun other member =>
          ownItem other (List.mem_cons_of_mem _ member) with
        ⟨absent, isNone⟩ |
          ⟨before, jointype, rtindex, larg, rarg, after, rfl, isFirst, isUpdate⟩
      · refine .inl ⟨?_, ?_⟩
        · simpa [inItem] using absent
        · simp [updateJoinForQual, noUpdate, isNone]
      · refine .inr ⟨item :: before, jointype, rtindex, larg, rarg, after,
          rfl, ?_, ?_⟩
        · rw [List.findSome?_cons, noJoin]
          exact isFirst
        · simp [updateJoinForQual, noUpdate, isUpdate]

theorem replaceSubExpression_self (expr replacement : Expr Sub) :
    replaceSubExpression true [(expr, replacement)] expr = replacement := by
  have found : replacementFor true [(expr, replacement)] expr = some replacement := by
    by_cases same : replacement = expr <;> simp [replacementFor, same]
  cases expr <;> simp only [replaceSubExpression, found, Option.getD_some]

/-- The query with the sublink query as a new FROM item. -/
theorem replaceSublinkWithCsub_where {entry : Nat} (isQuals : query.quals = some info.exprRoot)
    (noJoin : updateJoinForQual info.exprRoot (joinWithSublink info entry) query.fromlist = none)
    (notInOn : ∀ quals ∈ query.onQuals, pathsToExpr info.sublink.expr quals = []) :
    replaceSublinkWithCsub subs query info entry =
      { query with
        fromlist := query.fromlist ++ [.rangeTblRef entry]
        quals := some (replaceSubExpression true
          [(info.sublink.expr, cSubPlus info entry)] info.exprRoot) } := by
  simp only [replaceSublinkWithCsub, noJoin]
  split_ifs with isRoot
  · rw [isRoot, replaceSubExpression_self]
  · simp only [Query.mapQuals, isQuals, Option.map_some, List.map_append,
      List.map_cons, List.map_nil, JoinTreeNode.mapQuals]
    congr 2
    refine (List.map_congr_left fun item isItem => ?_).trans (List.map_id _)
    refine JoinTreeNode.mapQuals_of_fixed fun quals member => ?_
    exact replaceSubExpression_of_not_occurs true quals
      (notInOn quals (List.mem_flatMap.2 ⟨item, isItem, member⟩))

omit [DecidableEq Sub] in
theorem varnos_cSubPlus {entry varno : Nat} (member : varno ∈ (cSubPlus info entry).varnos subs) :
    varno ∈ info.sublink.testexpr.varnos subs ∨ varno = entry := by
  rcases Expr.mem_varnos.1 member with ⟨ref, isVar, ownLevel, rfl⟩
  have test :
      ref ∈ (replaceParams entry info.sublink.testexpr).vars subs →
        ref.varno ∈ info.sublink.testexpr.varnos subs ∨ ref.varno = entry := by
    intro inTest
    rcases vars_replaceParams entry _ ref inTest with old | new
    · exact .inl (Expr.mem_varnos.2 ⟨ref, old, ownLevel, rfl⟩)
    · exact .inr new.2
  unfold cSubPlus at isVar
  split at isVar
  · exact test isVar
  · exact test isVar
  · simp only [Expr.column, Expr.vars, List.mem_singleton] at isVar
    exact .inr (by rw [isVar])
  · simp [Expr.trueConst, Expr.vars] at isVar

omit [DecidableEq Sub] in
/-- A combination extended by a row of the rewritten sublink query. -/
theorem carries_of_merge {inst : Instance subs} {outer : Scope}
    (uncorrelated : info.isUncorrelated subs = true)
    (appends : inst.AppendsColumns info.sublink.subselect rewrittenSub) {entry : Nat}
    {env left : Env} {full : Row}
    (member : full ∈ inst.rows rewrittenSub (Scope.push Env.empty outer))
    (absent : left entry = none)
    (agree :
      ∀ ref ∈ info.sublink.testexpr.vars subs,
        Scope.push env outer ref = Scope.push (left.merge (Env.single entry full)) outer ref) :
    Carries inst info.sublink (Scope.push env outer) outer entry
      (full.take (subs.targetListLength info.sublink.subselect))
      (left.merge (Env.single entry full)) where
  member := by
    rw [rows_of_isUncorrelated inst uncorrelated _ (Scope.push Env.empty outer)]
    exact (appends _ _).2 ⟨full, member, rfl⟩
  present := ⟨full, Env.merge_single_self absent full, rfl⟩
  agree := agree

omit [DecidableEq Sub] in
theorem inputRows_rewritten (inst : Instance subs) (outer : Scope)
    (rtable added : List (RangeTblEntry Sub)) (sub : Sub) :
    inputRows inst outer (rtable ++ .subquery sub [] :: added)
        (rtable.length + 1) =
      inst.rows sub (Scope.push Env.empty outer) := by
  simp [inputRows, rtFetch_append_length, RangeTblEntry.rows]

section Proof

variable
  (inst : Instance subs)
  (outer : Scope)
  (wellFormed : query.WellFormed subs)
  (found : info.FoundIn query)
  (isQuals : query.quals = some info.exprRoot)

/-- The query with the rewritten sublink query as a new FROM item. -/
def withSublinkItem (query : Query Sub) (info : SublinkInfo Sub) (rewrittenSub : Sub) :
    Query Sub :=
  { query with
    rtable := query.rtable ++ [.subquery rewrittenSub []]
    fromlist := query.fromlist ++ [.rangeTblRef (query.rtable.length + 1)]
    quals := some (replaceSubExpression true
      [(info.sublink.expr, cSubPlus info (query.rtable.length + 1))]
      info.exprRoot) }

include wellFormed found isQuals

theorem plannable_withSublinkItem (noVars : subs.corrVars rewrittenSub = []) :
    (withSublinkItem query info rewrittenSub).plannable subs = true := by
  rcases Query.plannable_iff.1 wellFormed.plannable with
    ⟨entries, items, reads⟩
  have inFrom : ∀ varno, varno ∈ query.rtindexes ∨ varno = query.rtable.length + 1 →
      varno ∈ (query.fromlist ++
        [JoinTreeNode.rangeTblRef (query.rtable.length + 1)]).flatMap
          JoinTreeNode.rtindexes := by
    intro varno cases
    simpa [JoinTreeNode.rtindexes, Query.rtindexes] using cases
  refine Query.plannable_iff.2 ⟨?_, ?_, ?_⟩
  · intro rte member
    rcases List.mem_append.1 member with old | new
    · exact entries rte old
    · rw [List.mem_singleton.1 new]
      simp [RangeTblEntry.plannable, noVars]
  · intro item member
    rcases List.mem_append.1 member with old | new
    · exact items item old
    · rw [List.mem_singleton.1 new]
      rfl
  · intro varno member
    refine inFrom varno ?_
    rcases List.mem_append.1 member with inQuals | inTargets
    · rcases varnos_replaceSubExpression true inQuals with old | new
      · exact .inl (wellFormed.quals_mem isQuals old)
      · rcases varnos_cSubPlus new with inTest | isEntry
        · exact .inl (wellFormed.quals_mem isQuals (found.testVarnos varno inTest))
        · exact .inr isEntry
    · exact .inl (reads varno (List.mem_append_right _ inTargets))

variable
  (uncorrelated : info.isUncorrelated subs = true)
  (notAll : info.sublink.subLinkType ≠ .all)
  (accepted : sublinkInAndOrTop info = true)
  (wellTyped : info.sublink.WellTyped subs)
  (appends : inst.AppendsColumns info.sublink.subselect rewrittenSub)
  (single :
    info.sublink.subLinkType = .expr → ∀ scope, (inst.rows info.sublink.subselect scope).length ≤ 1)

include uncorrelated notAll accepted wellTyped appends single

/-- The replaced condition on a combination with a row of the sublink query. -/
theorem passes_withSublinkItem_iff {env : Env}
    (member : env ∈ evalFromlist inst outer query.rtable query.fromlist) {full : Row}
    (fullIn : full ∈ inst.rows rewrittenSub (Scope.push Env.empty outer)) :
    passes inst (Scope.push (env.merge (Env.single (query.rtable.length + 1) full)) outer)
        (withSublinkItem query info rewrittenSub).quals = true ↔
      (info.exprRoot.eval inst (Scope.push env outer) []).isTrue = true ∧
        (info.sublink.subLinkType = .any →
          (info.sublink.testexpr.eval inst (Scope.push env outer)
            (full.take (subs.targetListLength info.sublink.subselect))).isTrue = true) := by
  have absent : env (query.rtable.length + 1) = none := by
    refine evalFromlist_outside inst outer _ _ env member _ ?_
    intro item isItem inItem
    exact absurd (wellFormed.inRange item isItem _ inItem) (by omega)
  have agree := @push_eq_of_agreeUpTo Sub subs _ _ _ outer _
    (AgreeUpTo.merge_single (Nat.lt_succ_self query.rtable.length) env full)
    (wellFormed.quals info.exprRoot isQuals)
  exact isTrue_replaceSublink_iff
    (carries_of_merge uncorrelated appends fullIn absent
      fun ref isVar => agree ref (found.testVars ref isVar))
    agree accepted wellTyped notAll fun kind => single kind _

/-- A sublink of the WHERE clause as a new FROM item. -/
theorem sameTuples_whereSublink (noVars : subs.corrVars rewrittenSub = [])
    (strict : StrictComparison inst info) :
    SameTuples inst outer query (some (withSublinkItem query info rewrittenSub)) := by
  have sameFrom :=
    evalFromlist_of_sameEntries inst outer query.fromlist
      fun item isItem rtindex member =>
        rtFetch_append (wellFormed.inRange item isItem rtindex member)
          [.subquery rewrittenSub []]
  have extended {env : Env}
      (envIn : env ∈ evalFromlist inst outer query.rtable query.fromlist) {full : Row}
      (fullIn : full ∈ inst.rows rewrittenSub (Scope.push Env.empty outer)) :=
    passes_withSublinkItem_iff inst outer wellFormed found isQuals uncorrelated notAll accepted
      wellTyped appends single envIn fullIn
  refine ⟨_, rfl, plannable_withSublinkItem wellFormed found isQuals noVars, ?_⟩
  refine tuples_iff_of_sameUpTo inst outer wellFormed.targets rfl ?_
  constructor
  · intro env member
    rcases List.mem_filter.1 member with ⟨inFrom, passed⟩
    rw [isQuals] at passed
    rcases exists_row_of_root accepted found.extracted notAll strict
      passed with ⟨row, rowIn, test⟩
    rw [rows_of_isUncorrelated inst uncorrelated _ (Scope.push Env.empty outer)] at rowIn
    rcases (appends _ _).1 rowIn with ⟨full, fullIn, rfl⟩
    refine ⟨env.merge (Env.single (query.rtable.length + 1) full), List.mem_filter.2 ⟨?_, ?_⟩,
      AgreeUpTo.merge_single (by omega) env full⟩
    · refine mem_evalFromlist_append_ref.2 ⟨env, sameFrom ▸ inFrom, full, ?_, rfl⟩
      rw [withSublinkItem, inputRows_rewritten]
      exact fullIn
    · exact (extended inFrom fullIn).2 ⟨passed, test⟩
  · intro joined member
    rcases List.mem_filter.1 member with ⟨inFrom, passed⟩
    rcases mem_evalFromlist_append_ref.1 inFrom with
      ⟨env, envIn, full, fullIn, rfl⟩
    have envIn' : env ∈ evalFromlist inst outer query.rtable query.fromlist := sameFrom ▸ envIn
    rw [withSublinkItem, inputRows_rewritten] at fullIn
    refine ⟨env, List.mem_filter.2 ⟨envIn', ?_⟩, AgreeUpTo.merge_single (by omega) env full⟩
    rw [isQuals]
    exact ((extended envIn' fullIn).1 passed).1

end Proof

/-! ## Rewrites of an ON condition -/

section OnCondition

variable
  {rtindex : Nat}
  {larg rarg : JoinTreeNode Sub}
  {before after : List (JoinTreeNode Sub)}

/-- The ON condition without the sublink, for rows on which it is true. -/
theorem passes_withoutSublink_iff (inst : Instance subs) (scope : Scope)
    (conjunct : exprInAndOrTop info.sublink.expr info.exprRoot = true)
    (holds : (info.sublink.expr.eval inst scope []).isTrue = true) :
    passes inst scope (withoutSublink info (some info.exprRoot)) = true ↔
      (info.exprRoot.eval inst scope []).isTrue = true := by
  rw [withoutSublink]
  split_ifs with isRoot
  · rw [isRoot]
    simp [passes, holds]
  · simp only [Option.map_some, passes]
    rw [isTrue_replace_iff inst true conjunct (fun _ _ => rfl) fun _ => holds]
    simp [Expr.trueConst, Expr.eval]

/-- The range table after the join above the ON condition is added. -/
theorem rtFetch_recreate_joinWithSublink {rtable : List (RangeTblEntry Sub)}
    (plain :
      ∀ item ∈ before ++ .joinExpr .inner rtindex larg rarg
          (some info.exprRoot) :: after,
        item.Plain subs rtable)
    (inRange :
      ∀ item ∈ before ++ .joinExpr .inner rtindex larg rarg
          (some info.exprRoot) :: after,
        ∀ position ∈ item.rtindexes, position ≤ rtable.length)
    (entry : RangeTblEntry Sub) :
    ∃ aliasvars,
      (recreateJoinRTEs subs
        { query with
          rtable := rtable ++ [entry] ++ [.join []]
          fromlist := before ++
            joinWithSublink info (rtable.length + 1)
              (.joinExpr .inner rtindex larg rarg (some info.exprRoot)) :: after }).rtable =
        rtable ++ [entry, .join aliasvars] := by
  have unchanged :
      ∀ aliasvars, ∀ item ∈ before ++ .joinExpr .inner rtindex larg rarg
          (some info.exprRoot) :: after,
        item.Plain subs (rtable ++ [entry, .join aliasvars]) :=
    fun aliasvars item isItem =>
      (plain item isItem).of_sameEntries fun position member =>
        rtFetch_append (inRange item isItem position member) _
  have joinPlain :
      (JoinTreeNode.joinExpr .inner rtindex larg rarg
        (withoutSublink info (some info.exprRoot))).Plain subs (rtable ++ [entry, .join []]) :=
    unchanged [] (.joinExpr .inner rtindex larg rarg (some info.exprRoot)) (by simp)
  have sameTable : rtable ++ [entry] ++ [.join []] = rtable ++ [entry, .join []] := by
    simp
  simp only [recreateJoinRTEs, List.foldl_append, List.foldl_cons, joinWithSublink, sameTable]
  rw [foldl_recreateJoinRTE_of_plain fun item isItem =>
    unchanged [] item (List.mem_append_left _ isItem)]
  simp only [recreateJoinRTE.eq_2, recreateJoinRTE_of_plain joinPlain]
  simp only [recreateJoinRTE.eq_1, joinRTE]
  have setLast : ∀ aliasvars,
      (rtable ++ [entry, .join []]).set (rtable.length + 1 + 1 - 1)
          (.join aliasvars) = rtable ++ [entry, .join aliasvars] := by
    intro aliasvars
    simp
  rw [setLast, foldl_recreateJoinRTE_of_plain fun item isItem =>
    unchanged _ item (by simp [isItem])]
  exact ⟨_, rfl⟩

section Proof

variable
  (inst : Instance subs)
  (outer : Scope)
  (uncorrelated : info.isUncorrelated subs = true)
  (notAll : info.sublink.subLinkType ≠ .all)
  (wellTyped : info.sublink.WellTyped subs)
  (appends : inst.AppendsColumns info.sublink.subselect rewrittenSub)
  (single :
    info.sublink.subLinkType = .expr → ∀ scope, (inst.rows info.sublink.subselect scope).length ≤ 1)
  (conjunct : exprInAndOrTop info.sublink.expr info.exprRoot = true)

include uncorrelated notAll wellTyped appends single conjunct

/-- Rows of a join with a row of the sublink query which fits. -/
theorem passes_joinWithSublink_iff {entry : Nat} {rtable : List (RangeTblEntry Sub)}
    (testVarnos : ∀ varno ∈ info.sublink.testexpr.varnos subs, varno ≠ rtindex ∧ varno ≠ entry)
    {joined : Env} (absent : setJoin inst outer rtable rtindex joined entry = none) {full : Row}
    (member : full ∈ inst.rows rewrittenSub (Scope.push Env.empty outer)) :
    (passes inst (Scope.push joined outer) (withoutSublink info (some info.exprRoot)) = true ∧
        passes inst
          (Scope.push ((setJoin inst outer rtable rtindex joined).merge
            (Env.single entry full)) outer)
          (some (cSubPlus info entry)) = true) ↔
      (info.exprRoot.eval inst (Scope.push joined outer) []).isTrue = true ∧
        (info.sublink.subLinkType = .any →
          (info.sublink.testexpr.eval inst (Scope.push joined outer)
            (full.take (subs.targetListLength info.sublink.subselect))).isTrue = true) := by
  have agree :
      ∀ ref ∈ info.sublink.testexpr.vars subs,
        Scope.push joined outer ref =
          Scope.push ((setJoin inst outer rtable rtindex joined).merge
            (Env.single entry full)) outer ref := by
    intro ref isVar
    cases level : ref.varlevelsup with
    | zero =>
      rcases testVarnos ref.varno (Expr.mem_varnos.2 ⟨ref, isVar, level, rfl⟩) with
        ⟨notJoin, notEntry⟩
      simp only [Scope.push, level, Env.lookup]
      rw [Env.merge_single_of_ne _ notEntry, setJoin_of_ne inst outer rtable notJoin]
    | succ _ => simp only [Scope.push, level]
  have restricted :=
    isTrue_cSubPlus_iff (carries_of_merge uncorrelated appends member absent agree) wellTyped
      notAll fun kind => single kind _
  have implied :
      (info.exprRoot.eval inst (Scope.push joined outer) []).isTrue = true →
        (info.sublink.expr.eval inst (Scope.push joined outer) []).isTrue = true := by
    intro holds
    rcases exists_andPath conjunct with ⟨path, isPath, isConjunct⟩
    exact isTrue_of_andPath inst _ [] isPath isConjunct holds
  have without := passes_withoutSublink_iff inst (Scope.push joined outer) conjunct
  constructor
  · rintro ⟨rest, fits⟩
    have sublinkHolds := restricted.1 fits
    exact ⟨(without sublinkHolds.1).1 rest, sublinkHolds.2⟩
  · rintro ⟨holds, test⟩
    exact ⟨(without (implied holds)).2 holds, restricted.2 ⟨implied holds, test⟩⟩

/-- A join and its join with the sublink query have the same rows. -/
theorem sameUpTo_joinWithSublink {rtable rtable' : List (RangeTblEntry Sub)}
    (inRange :
      ∀ position ∈ (JoinTreeNode.joinExpr .inner rtindex larg rarg
          (some info.exprRoot)).rtindexes,
        position ≤ rtable.length)
    (sameEntries : ∀ position ≤ rtable.length, rtFetch rtable' position = rtFetch rtable position)
    (inputs :
      inputRows inst outer rtable' (rtable.length + 1) =
        inst.rows rewrittenSub (Scope.push Env.empty outer))
    (testVarnos :
      ∀ varno ∈ info.sublink.testexpr.varnos subs, varno ≠ rtindex ∧ varno ≠ rtable.length + 1) :
    SameUpTo (AgreeUpTo rtable.length)
      ((JoinTreeNode.joinExpr .inner rtindex larg rarg (some info.exprRoot)).eval inst outer rtable)
      ((joinWithSublink info (rtable.length + 1)
        (.joinExpr .inner rtindex larg rarg (some info.exprRoot))).eval inst outer rtable') := by
  have below :
      (JoinTreeNode.joinExpr .inner rtindex larg rarg
          (withoutSublink info (some info.exprRoot))).eval inst outer rtable' =
        (JoinTreeNode.joinExpr .inner rtindex larg rarg
          (withoutSublink info (some info.exprRoot))).eval inst outer rtable :=
    JoinTreeNode.eval_of_sameEntries inst outer _ fun position member =>
      sameEntries position (inRange position member)
  have absent : ∀ left ∈ larg.eval inst outer rtable,
      ∀ right ∈ rarg.eval inst outer rtable,
        setJoin inst outer rtable rtindex (left.merge right) (rtable.length + 1) = none := by
    intro left leftIn right rightIn
    have inJoin : ∀ position, position ∈ larg.rtindexes ∨
        position ∈ rarg.rtindexes ∨ position = rtindex →
        position ≤ rtable.length := by
      intro position cases
      refine inRange position ?_
      simpa [JoinTreeNode.rtindexes] using cases
    have notJoin : rtable.length + 1 ≠ rtindex := by
      have := inJoin rtindex (.inr (.inr rfl))
      omega
    rw [setJoin_of_ne inst outer rtable notJoin]
    simp only [Env.merge]
    rw [JoinTreeNode.eval_outside inst outer rtable larg left leftIn _
        fun inLeft => absurd (inJoin _ (.inl inLeft)) (by omega),
      JoinTreeNode.eval_outside inst outer rtable rarg right rightIn _
        fun inRight => absurd (inJoin _ (.inr (.inl inRight))) (by omega)]
    rfl
  have fits := fun left leftIn right rightIn (full : Row) member =>
    @passes_joinWithSublink_iff Sub subs _ info rewrittenSub rtindex inst outer
      uncorrelated notAll wellTyped appends single conjunct _ rtable
      testVarnos _ (absent left leftIn right rightIn) full member
  constructor
  · intro env member
    rcases mem_eval_joinOn.1 member with
      ⟨left, leftIn, right, rightIn, holds, rfl⟩
    rcases exists_andPath conjunct with ⟨path, isPath, isConjunct⟩
    rcases exists_row_of_isTrue notAll (isTrue_of_andPath inst _ [] isPath isConjunct holds) with
      ⟨row, rowIn, test⟩
    rw [rows_of_isUncorrelated inst uncorrelated _ (Scope.push Env.empty outer)] at rowIn
    rcases (appends _ _).1 rowIn with ⟨full, fullIn, rfl⟩
    rcases (fits left leftIn right rightIn full fullIn).2 ⟨holds, test⟩
      with ⟨rest, condition⟩
    refine ⟨_, mem_eval_joinOn.2
      ⟨setJoin inst outer rtable rtindex (left.merge right), ?_,
        Env.single (rtable.length + 1) full, ?_, condition, rfl⟩,
      agreeUpTo_setJoin inst outer _ (AgreeUpTo.merge_single (by omega) _ full) (by omega)⟩
    · rw [below]
      exact mem_eval_joinOn.2 ⟨left, leftIn, right, rightIn, rest, rfl⟩
    · rw [JoinTreeNode.eval, inputs]
      exact List.mem_map_of_mem fullIn
  · intro env member
    rcases mem_eval_joinOn.1 member with
      ⟨joined, joinedIn, _, entryIn, condition, rfl⟩
    rw [below] at joinedIn
    rcases mem_eval_joinOn.1 joinedIn with
      ⟨left, leftIn, right, rightIn, rest, rfl⟩
    rw [JoinTreeNode.eval, inputs] at entryIn
    rcases List.mem_map.1 entryIn with ⟨full, fullIn, rfl⟩
    refine ⟨_, mem_eval_joinOn.2
      ⟨left, leftIn, right, rightIn,
        ((fits left leftIn right rightIn full fullIn).1 ⟨rest, condition⟩).1, rfl⟩,
      agreeUpTo_setJoin inst outer _ (AgreeUpTo.merge_single (by omega) _ full) (by omega)⟩

end Proof

section Query

variable
  (inst : Instance subs)
  (outer : Scope)
  (wellFormed : query.WellFormed subs)
  (found : info.FoundIn query)
  (plain : query.Plain subs)
  (fromlist :
    query.fromlist =
      before ++ .joinExpr .inner rtindex larg rarg
        (some info.exprRoot) :: after)

/-- The query with a join above the join whose condition holds the sublink. -/
def withSublinkJoin (subs : Subqueries Sub) (query : Query Sub) (info : SublinkInfo Sub)
    (rewrittenSub : Sub) (before : List (JoinTreeNode Sub)) (join : JoinTreeNode Sub)
    (after : List (JoinTreeNode Sub)) :
    Query Sub :=
  recreateJoinRTEs subs
    { query with
      rtable := query.rtable ++ [.subquery rewrittenSub []] ++ [.join []]
      fromlist := before ++ joinWithSublink info (query.rtable.length + 1) join :: after }

omit [DecidableEq Sub] in
include wellFormed fromlist in
/-- The positions of the FROM items are those of range-table entries. -/
theorem inRange_items :
    ∀ item ∈ before ++ .joinExpr .inner rtindex larg rarg
        (some info.exprRoot) :: after,
      ∀ position ∈ item.rtindexes, position ≤ query.rtable.length :=
  fromlist ▸ wellFormed.inRange

include wellFormed plain fromlist in
theorem rtable_withSublinkJoin :
    ∃ aliasvars,
      (withSublinkJoin subs query info rewrittenSub before
        (.joinExpr .inner rtindex larg rarg (some info.exprRoot)) after).rtable =
        query.rtable ++ [.subquery rewrittenSub [], .join aliasvars] := by
  rw [Query.Plain, fromlist] at plain
  exact rtFetch_recreate_joinWithSublink plain (inRange_items wellFormed fromlist)
    (.subquery rewrittenSub [])

omit [DecidableEq Sub] in
include wellFormed fromlist in
/-- The ON condition reads the arguments of its join. -/
theorem varnos_onCondition {varno : Nat} (member : varno ∈ info.exprRoot.varnos subs) :
    varno ∈ larg.rtindexes ∨ varno ∈ rarg.rtindexes := by
  have items := (Query.plannable_iff.1 wellFormed.plannable).2.1
  rw [fromlist] at items
  have joinPlannable := items _ (List.mem_append_right _ List.mem_cons_self)
  simp only [JoinTreeNode.plannable, Bool.and_eq_true, qualVarnos,
    List.all_eq_true, List.contains_eq_mem, decide_eq_true_eq,
    List.mem_append] at joinPlannable
  exact joinPlannable.2 varno member

include wellFormed found plain fromlist in
theorem plannable_withSublinkJoin (noVars : subs.corrVars rewrittenSub = []) :
    (withSublinkJoin subs query info rewrittenSub before
      (.joinExpr .inner rtindex larg rarg (some info.exprRoot)) after).plannable subs =
        true := by
  rcases Query.plannable_iff.1 wellFormed.plannable with
    ⟨entries, items, reads⟩
  rcases @rtable_withSublinkJoin Sub subs _ query info rewrittenSub _ _ _ _ _ wellFormed plain
      fromlist with
    ⟨aliasvars, rtable⟩
  have onCondition {varno : Nat} (inQuals : varno ∈ info.exprRoot.varnos subs) :=
    varnos_onCondition wellFormed fromlist inQuals
  rw [fromlist] at items
  have joinPlannable := items _ (List.mem_append_right _ List.mem_cons_self)
  simp only [JoinTreeNode.plannable, Bool.and_eq_true] at joinPlannable
  refine Query.plannable_iff.2 ⟨?_, ?_, ?_⟩
  · rw [rtable]
    intro rte member
    simp only [List.mem_append, List.mem_cons, List.not_mem_nil, or_false] at member
    rcases member with old | rfl | rfl
    · exact entries rte old
    · simp [RangeTblEntry.plannable, noVars]
    · rfl
  · intro item member
    simp only [withSublinkJoin, recreateJoinRTEs, List.mem_append, List.mem_cons] at member
    rcases member with inBefore | rfl | inAfter
    · exact items item (List.mem_append_left _ inBefore)
    · have without :
          ∀ varno ∈ qualVarnos subs (withoutSublink info (some info.exprRoot)),
            varno ∈ larg.rtindexes ∨ varno ∈ rarg.rtindexes := by
        intro varno inQuals
        rw [withoutSublink] at inQuals
        split_ifs at inQuals
        · exact absurd inQuals (by simp [qualVarnos])
        · rcases varnos_replaceSubExpression true inQuals with old | new
          · exact onCondition old
          · simp [Expr.varnos, Expr.trueConst, Expr.vars] at new
      have condition :
          ∀ varno ∈ (cSubPlus info (query.rtable.length + 1)).varnos subs,
            ((varno ∈ larg.rtindexes ∨ varno ∈ rarg.rtindexes) ∨
              varno = rtindex) ∨ varno = query.rtable.length + 1 := by
        intro varno inQuals
        rcases varnos_cSubPlus inQuals with inTest | isEntry
        · exact .inl (.inl (onCondition (found.testVarnos varno inTest)))
        · exact .inr isEntry
      simp only [joinWithSublink, JoinTreeNode.plannable, qualVarnos,
        JoinTreeNode.rtindexes, Bool.and_eq_true, List.all_eq_true,
        List.contains_eq_mem, decide_eq_true_eq, List.mem_append,
        List.mem_singleton]
      exact ⟨⟨⟨joinPlannable.1, without⟩, trivial⟩, condition⟩
    · exact items item (List.mem_append_right _ (List.mem_cons_of_mem _ inAfter))
  · intro varno member
    have inOld := reads varno member
    simp only [Query.rtindexes, fromlist, withSublinkJoin, recreateJoinRTEs,
      List.flatMap_append, List.flatMap_cons, List.mem_append,
      joinWithSublink, JoinTreeNode.rtindexes, List.mem_singleton]
      at inOld ⊢
    tauto

include wellFormed found fromlist in
/-- The test of the sublink reads neither the join nor the new entry. -/
theorem testVarnos_onCondition {varno : Nat}
    (member : varno ∈ info.sublink.testexpr.varnos subs) :
    varno ≠ rtindex ∧ varno ≠ query.rtable.length + 1 := by
  have inside := varnos_onCondition wellFormed fromlist (found.testVarnos varno member)
  have nodup := wellFormed.nodup
  simp only [Query.rtindexes, fromlist, List.flatMap_append,
    List.flatMap_cons, JoinTreeNode.rtindexes] at nodup
  have inner := (List.nodup_append.1 (List.nodup_append.1 nodup).2.1).1
  have inRange := inRange_items wellFormed fromlist _
    (List.mem_append_right _ List.mem_cons_self) varno
    (by simp only [JoinTreeNode.rtindexes, List.mem_append]; exact .inl inside)
  refine ⟨fun same => ?_, by omega⟩
  subst same
  exact (List.nodup_append.1 inner).2.2 _ (List.mem_append.2 inside) _ (by simp) rfl

/-- A sublink of an ON condition as a join above the join of the condition. -/
theorem sameTuples_onSublink (wellFormed : query.WellFormed subs) (found : info.FoundIn query)
    (uncorrelated : info.isUncorrelated subs = true) (notAll : info.sublink.subLinkType ≠ .all)
    (wellTyped : info.sublink.WellTyped subs)
    (appends : inst.AppendsColumns info.sublink.subselect rewrittenSub)
    (noVars : subs.corrVars rewrittenSub = [])
    (single :
      info.sublink.subLinkType = .expr →
        ∀ scope, (inst.rows info.sublink.subselect scope).length ≤ 1)
    (plain : query.Plain subs) (conjunct : exprInAndOrTop info.sublink.expr info.exprRoot = true)
    (fromlist :
      query.fromlist =
        before ++ .joinExpr .inner rtindex larg rarg
          (some info.exprRoot) :: after) :
    SameTuples inst outer query
      (some (withSublinkJoin subs query info rewrittenSub before
        (.joinExpr .inner rtindex larg rarg (some info.exprRoot)) after)) := by
  rcases @rtable_withSublinkJoin Sub subs _ query info rewrittenSub _ _ _ _ _ wellFormed plain
      fromlist with
    ⟨aliasvars, rtable⟩
  have inRange := inRange_items wellFormed fromlist
  refine ⟨_, rfl, plannable_withSublinkJoin wellFormed found plain fromlist noVars, ?_⟩
  refine tuples_iff_of_sameUpTo inst outer wellFormed.targets rfl ?_
  have sameRows :=
    @sameUpTo_joinWithSublink Sub subs _ info rewrittenSub rtindex larg rarg inst outer
      uncorrelated notAll wellTyped appends single conjunct query.rtable
      (query.rtable ++ [.subquery rewrittenSub [], .join aliasvars])
      (inRange _ (List.mem_append_right _ List.mem_cons_self))
      (fun position below => rtFetch_append below _)
      (inputRows_rewritten inst outer query.rtable _ _)
      (fun varno member => testVarnos_onCondition wellFormed found fromlist member)
  have sameFrom :=
    @sameUpTo_replaceItem Sub subs inst outer _ query.rtable _ before
      after _ _
      (fun other member position inside =>
        rtFetch_append (inRange other (by
          rcases List.mem_append.1 member with inBefore | inAfter
          · exact List.mem_append_left _ inBefore
          · exact List.mem_append_right _ (List.mem_cons_of_mem _ inAfter)) position inside) _)
      sameRows
  rw [← fromlist, ← rtable] at sameFrom
  exact Lifting.set.filter sameFrom fun env env' agree =>
    passes_of_agreeUpTo inst agree wellFormed.quals

end Query

end OnCondition

/-! ## The strategy -/

/--
When the Unn rewrite is right.  A sublink which is a whole condition is the
only one with that condition.  The comparison with a scalar sublink is
strict.  A sublink in the WHERE clause stands in no ON condition.  A join
on whose condition the sublink stands is a FROM item of its own, there are
no USING lists, and a scalar sublink is a conjunct itself.
-/
structure UnnApplies (inst : Instance subs) (query : Query Sub)
    (infos : List (SublinkInfo Sub)) (sublinkPos : Nat)
    (info : SublinkInfo Sub) : Prop where
  ownRoot :
    info.exprRoot = info.sublink.expr →
      (infos.zipIdx.any fun (other, position) =>
        hasSameExprRoot info sublinkPos position other) = false
  strict : StrictComparison inst info
  notInOn :
    info.exprRoot ∉ query.onQuals →
      ∀ quals ∈ query.onQuals, pathsToExpr info.sublink.expr quals = []
  ownItem :
    ∀ item ∈ query.fromlist, info.exprRoot ∈ item.onQuals →
      ∃ jointype rtindex larg rarg, item = .joinExpr jointype rtindex larg rarg (some info.exprRoot)
  plainJoins : info.exprRoot ∈ query.onQuals → query.Plain subs
  conjunct : info.exprRoot ∈ query.onQuals → exprInAndOrTop info.sublink.expr info.exprRoot = true

end Result

/-! ## Examples -/

/-- The scalar sublink of the query. -/
def scalarOf (query : Sql.Query) : SubLink Sql.Query where
  subLinkType := .expr
  testexpr := .trueConst
  subselect := query

/-- The condition `r.c =` of the scalar sublink. -/
def equalsScalar (query : Sql.Query) : Expr Sql.Query :=
  .node (.opExpr 96) [.column 1 1, (scalarOf query).expr]

/-- The scalar sublink of a query with the condition `equalsScalar`. -/
def scalarInfo (query : Sql.Query) : SublinkInfo Sql.Query where
  sublink := scalarOf query
  exprRoot := equalsScalar query
  parent := some (equalsScalar query)
  location := .where

/-- `SELECT a FROM r JOIN s ON a = (SELECT 5)` for `r(a)` and `s(b)`. -/
def scalarInOn : Query Sql.Query where
  rtable := [.relation 1 [1], .relation 2 [1], .join [.column 1 1, .column 2 1]]
  fromlist :=
    [.joinExpr .inner 3 (.rangeTblRef 1) (.rangeTblRef 2)
      (some (equalsScalar (selectValue 23 (.int 5))))]
  targetList := [{ expr := .column 1 1 }]

/-- `SELECT c FROM r WHERE c = (SELECT c FROM u)`. -/
def scalarInWhere : Query Sql.Query where
  rtable := [.relation 1 [1]]
  fromlist := [.rangeTblRef 1]
  quals := some (equalsScalar (selectFrom 3 23))
  targetList := [{ expr := .column 1 1 }]

end Ldv.Sublink
