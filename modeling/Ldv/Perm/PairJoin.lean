import Ldv.Perm.RunInputs

/-!
# The join of two queries

The aggregation rewrite and the LIMIT rewrite both end in a query over two
subqueries and one join.  The alias columns of the join are all columns of
the two subqueries.
-/

namespace Ldv.Perm

open Ldv.Sql

section Pair

variable
  {cat : Catalog}
  {query : Query}
  {left right join : RTE}
  {jointype : JoinType}
  {quals : Option Expr}
  {name : String}

/-- The alias columns can be set if all columns have labels. -/
theorem adaptRTEsForJoins_pair (rtable : query.rtable = [left, right, join])
    {leftNames rightNames : List String}
    (leftLabels : allLabels (expandRTENames cat left) = some leftNames)
    (rightLabels : allLabels (expandRTENames cat right) = some rightNames) :
    adaptRTEsForJoins cat query
        (.joinExpr jointype 3 (.rangeTblRef 1) (.rangeTblRef 2) quals)
        name =
      some { query with
        rtable := [left, right, pairJoinRTE cat jointype name left right] } := by
  have colnames :
      expandRTENames cat left ++ expandRTENames cat right =
        leftNames.map some ++ rightNames.map some := by
    rw [allLabels_eq_some_iff.mp leftLabels, allLabels_eq_some_iff.mp rightLabels]
  simp [adaptRTEsForJoins, rtable, rtFetch, JoinTreeNode.rtindex,
    expandRTEWithParam, leftLabels, rightLabels, rtReplace, pairJoinRTE,
    colnames]

/-- Comparing columns fails exactly if a type has no equality operator. -/
theorem notDistinctConditions_eq (cat : Catalog) (pairs : List (Expr × Expr)) :
    notDistinctConditions cat pairs =
      if ∀ pair ∈ pairs,
          (cat.equalityOper (exprType pair.1)).isSome = true then
        some (pairs.map notDistinct)
      else
        none := by
  induction pairs with
  | nil => rfl
  | cons pair rest ih =>
    rcases pair with ⟨left, right⟩
    cases oper : cat.equalityOper (exprType left) with
    | none =>
      simp [notDistinctConditions, createNotDistinctConditionForVars, oper]
    | some opno =>
      have first : (cat.equalityOper (exprType left)).isSome = true := by
        simp [oper]
      by_cases others : ∀ pair ∈ rest, (cat.equalityOper (exprType pair.1)).isSome = true
      · rw [if_pos others] at ih
        have all : ∀ pair ∈ (left, right) :: rest,
            (cat.equalityOper (exprType pair.1)).isSome = true := by
          intro pair member
          rcases List.mem_cons.mp member with rfl | member
          · exact first
          · exact others pair member
        rw [if_pos all]
        simp [notDistinctConditions, createNotDistinctConditionForVars, oper, ih, notDistinct]
      · rw [if_neg others] at ih
        rw [if_neg fun all => others fun pair member =>
          all pair (by simp [member])]
        simp [notDistinctConditions, ih]

end Pair

/-! ## Columns of the two queries -/

theorem nonJunk_of_visible {targetList : List TargetEntry}
    (visible : ∀ te ∈ targetList, te.resjunk = false) :
    nonJunk targetList = targetList :=
  List.filter_eq_self.mpr fun te member => by simp [visible te member]

/-- Columns of a query without hidden entries. -/
theorem expandRTEVars_subqueryRTE (cat : Catalog) (rtindex : Nat) {query : Query}
    (visible : ∀ te ∈ query.targetList, te.resjunk = false) (name : String) :
    expandRTEVars cat rtindex (correctRTEAlias (subqueryRTE query name)) =
      (query.targetList.zipIdx 1).map fun (te, attno) =>
        .var rtindex attno (exprType te.expr) := by
  simp [expandRTEVars, subqueryRTE, numberedVars, nonJunk_of_visible visible, List.zipIdx_map]

theorem expandRTENames_subqueryRTE (cat : Catalog) {query : Query}
    (visible : ∀ te ∈ query.targetList, te.resjunk = false) (name : String) :
    expandRTENames cat (correctRTEAlias (subqueryRTE query name)) =
      query.targetList.map TargetEntry.resname := by
  simp only [expandRTENames, correctRTEAlias_kind]
  simp only [subqueryRTE, correctRTEAlias, nonJunk_of_visible visible]
  apply List.ext_getElem
  · simp
  · intro position bound bound'
    simp at bound
    simp [bound]

theorem exists_labels_subqueryRTE (cat : Catalog) (query : Query)
    (visible : ∀ te ∈ query.targetList, te.resjunk = false)
    (named : ∀ te ∈ query.targetList, te.resname.isSome = true) (name : String) :
    ∃ names,
      allLabels (expandRTENames cat (correctRTEAlias (subqueryRTE query name))) = some names := by
  rw [expandRTENames_subqueryRTE cat visible]
  apply exists_allLabels
  intro label member
  rcases List.mem_map.mp member with ⟨te, present, rfl⟩
  exact named te present

/-! ## Columns of the join -/

/-- Column references for all columns of a target list. -/
def columnVars (rtindex : Nat) (targetList : List TargetEntry) :
    List Expr :=
  (targetList.zipIdx 1).map fun (te, attno) =>
    .var rtindex attno (exprType te.expr)

theorem exists_mem_columnVars (rtindex : Nat) {targetList : List TargetEntry} {attno : Nat}
    (column : FirstColumns targetList.length attno) :
    ∃ vartype, .var rtindex attno vartype ∈ columnVars rtindex targetList := by
  rcases column with ⟨positive, bounded⟩
  have inside : attno - 1 < targetList.length := by omega
  refine ⟨exprType targetList[attno - 1].expr, List.mem_map.mpr
    ⟨(targetList[attno - 1], attno), ?_, rfl⟩⟩
  rw [List.mem_zipIdx_iff_le_and_getElem?_sub]
  exact ⟨positive, List.getElem?_eq_getElem inside⟩

section PairColumns

variable
  (cat : Catalog)
  {left right top : Query}
  {leftName rightName name : String}
  {jointype : JoinType}
  {quals : Option Expr}

theorem aliasvarsAt_pair (leftVisible : ∀ te ∈ left.targetList, te.resjunk = false)
    (rightVisible : ∀ te ∈ right.targetList, te.resjunk = false)
    (rtable : top.rtable = pairRtable cat jointype name left right leftName rightName) :
    aliasvarsAt top.rtable 3 = columnVars 1 left.targetList ++ columnVars 2 right.targetList := by
  rw [rtable, columnVars, columnVars, ← expandRTEVars_subqueryRTE cat 1 leftVisible leftName,
    ← expandRTEVars_subqueryRTE cat 2 rightVisible rightName]
  rfl

/-- Every column of the second query is a column of the join. -/
theorem exists_seenAs_pair
    (fromlist : top.fromlist = [.joinExpr jointype 3 (.rangeTblRef 1) (.rangeTblRef 2) quals])
    (aliasvars :
      aliasvarsAt top.rtable 3 = columnVars 1 left.targetList ++ columnVars 2 right.targetList)
    {attno : Nat} (column : FirstColumns right.targetList.length attno) :
    ∃ varattno, SeenAs top 2 attno 3 varattno := by
  let columns : Nat → Nat → Prop := fun rtindex attno =>
    if rtindex = 1 then FirstColumns left.targetList.length attno
    else if rtindex = 2 then FirstColumns right.targetList.length attno
    else True
  have cover : JoinsCover columns (aliasvarsAt top.rtable)
      (.joinExpr jointype 3 (.rangeTblRef 1) (.rangeTblRef 2) quals) := by
    refine ⟨trivial, trivial, ?_, fun _ _ => trivial⟩
    rintro side (rfl | rfl) attno inside
    · rcases exists_mem_columnVars 1 inside with ⟨vartype, member⟩
      exact ⟨vartype, by rw [aliasvars]; simp [member, JoinTreeNode.rtindex]⟩
    · rcases exists_mem_columnVars 2 inside with ⟨vartype, member⟩
      exact ⟨vartype, by rw [aliasvars]; simp [member, JoinTreeNode.rtindex]⟩
  have nodup :
      (JoinTreeNode.joinExpr jointype 3 (.rangeTblRef 1) (.rangeTblRef 2)
        quals).rtindexes.Nodup := by
    simp [JoinTreeNode.rtindexes]
  have leaf :
      2 ∈ (JoinTreeNode.joinExpr jointype 3 (.rangeTblRef 1) (.rangeTblRef 2) quals).leaves := by
    simp [JoinTreeNode.leaves]
  rcases Routed.of_joinsCover nodup cover leaf column with
    ⟨attno', _, routed⟩
  refine ⟨attno', Routed.seenAs ?_ ?_ leaf routed⟩
  · rw [fromlist]
    simp [JoinTreeNode.rtindexes]
  · simp [fromlist]

end PairColumns

end Ldv.Perm
