import Ldv.Perm.PairJoin
import Ldv.Perm.Conditions

/-!
# Rows of the join of two queries

A query over two subqueries and their join projects the combinations of a
row of the first subquery with a row of the second, or with no row at all if
there is no partner and the join keeps the row.
-/

namespace Ldv.Perm

open Ldv.Sql
open Relational

/-! ## Combinations of two rows -/

/-- The combination of a row of each of the first two entries. -/
def pairEnv (left right : Option Row) : Env :=
  fun rtindex =>
    if rtindex = 1 then left else if rtindex = 2 then right else none

/-- The combination, with the columns of the join. -/
def joinedEnv (inst : Instance) (aliasvars : List Expr)
    (left right : Option Row) :
    Env :=
  (pairEnv left right).setJoin inst aliasvars 3

section Combinations

variable
  (inst : Instance)
  (aliasvars : List Expr)

theorem single_one (row : Row) :
    Env.single 1 row = pairEnv (some row) none := by
  funext rtindex
  simp [Env.single, pairEnv]

theorem single_two (row : Row) :
    Env.single 2 row = pairEnv none (some row) := by
  funext rtindex
  by_cases second : rtindex = 2
  · simp [Env.single, pairEnv, second]
  · by_cases first : rtindex = 1 <;>
      simp [Env.single, pairEnv, first, second]

theorem merge_pairEnv (left right : Row) :
    (pairEnv (some left) none).merge (pairEnv none (some right)) =
      pairEnv (some left) (some right) := by
  funext rtindex
  by_cases first : rtindex = 1 <;> simp [Env.merge, pairEnv, first]

@[simp]
theorem lookup_joinedEnv_one (left : Row) (right : Option Row) (attno : Nat) :
    (joinedEnv inst aliasvars (some left) right).lookup 1 attno = left.column attno :=
  rfl

@[simp]
theorem lookup_joinedEnv_two (left : Option Row) (right : Row) (attno : Nat) :
    (joinedEnv inst aliasvars left (some right)).lookup 2 attno = right.column attno :=
  rfl

@[simp]
theorem lookup_joinedEnv_two_none (left : Option Row) (attno : Nat) :
    (joinedEnv inst aliasvars left none).lookup 2 attno = .null :=
  rfl

end Combinations

/-- The combinations of the join of the first two entries. -/
theorem eval_pair (inst : Instance) (aliasvars : Nat → List Expr) (input : Nat → List Row)
    (jointype : JoinType) (quals : Option Expr) :
    (JoinTreeNode.joinExpr jointype 3 (.rangeTblRef 1) (.rangeTblRef 2)
        quals).eval inst aliasvars input =
      joinWith jointype.keepsLeft jointype.keepsRight
        (fun left right =>
          passes inst (pairEnv (some left) (some right)).lookup [] quals)
        (fun left right =>
          joinedEnv inst (aliasvars 3) (some left) (some right))
        (fun left => joinedEnv inst (aliasvars 3) (some left) none)
        (fun right => joinedEnv inst (aliasvars 3) none (some right))
        (input 1) (input 2) := by
  simp only [JoinTreeNode.eval, joinWith_map, map_joinWith, id_eq,
    single_one, single_two, merge_pairEnv, joinedEnv]

/-! ## The query over the two subqueries -/

section Top

variable
  (cat : Catalog)
  {left right : Query}
  {leftName rightName name : String}
  {jointype : JoinType}
  {quals : Expr}

theorem inputRows_pair {top : Query}
    (rtable : top.rtable = pairRtable cat jointype name left right leftName rightName)
    (inst : Instance) :
    inputRows inst top.rtable 1 = left.eval inst ∧
      inputRows inst top.rtable 2 = right.eval inst := by
  rw [rtable]
  exact ⟨evalRTE_subquery inst (correctRTEAlias_kind _),
    evalRTE_subquery inst (correctRTEAlias_kind _)⟩

/-- Rows of a query over two subqueries. -/
theorem eval_pairTop_perm {top : Query}
    (projection :
      top.IsProjection (.joinExpr jointype 3 (.rangeTblRef 1) (.rangeTblRef 2) (some quals)))
    (rtable : top.rtable = pairRtable cat jointype name left right leftName rightName)
    (inst : Instance) :
    (top.eval inst).Perm
      (joinWith jointype.keepsLeft jointype.keepsRight
        (fun leftRow rightRow =>
          passes inst (pairEnv (some leftRow) (some rightRow)).lookup [] (some quals))
        (fun leftRow rightRow =>
          targetRow inst
            (joinedEnv inst (aliasvarsAt top.rtable 3) (some leftRow)
              (some rightRow)).lookup [] top.targetList)
        (fun leftRow =>
          targetRow inst
            (joinedEnv inst (aliasvarsAt top.rtable 3) (some leftRow)
              none).lookup [] top.targetList)
        (fun rightRow =>
          targetRow inst
            (joinedEnv inst (aliasvarsAt top.rtable 3) none
              (some rightRow)).lookup [] top.targetList)
        (left.eval inst) (right.eval inst)) := by
  have rows := projection.eval_perm inst
  rcases inputRows_pair cat rtable inst with ⟨leftRows, rightRows⟩
  rw [eval_pair, map_joinWith, leftRows, rightRows] at rows
  exact rows

end Top

/-!
## Rows of rewritten aggregation nodes

The left join with the rewritten input keeps every row of the original
aggregation, whatever its condition is, so the original columns of the
result are those of the aggregation.
-/

/-! ## Visible columns -/

section Targets

variable
  {query : Query}

theorem TargetsOk.nonJunk_eq (ok : TargetsOk query) :
    nonJunk query.targetList = query.targetList.take query.visibleCount := by
  have split :
      nonJunk query.targetList =
        query.targetList.take query.visibleCount ++
          nonJunk (query.targetList.drop query.visibleCount) := by
    conv_lhs =>
      rw [← List.take_append_drop query.visibleCount query.targetList]
    rw [nonJunk, List.filter_append]
    congr 1
    exact List.filter_eq_self.mpr fun te member => by
      simp [ok.junkLast te member]
  have count : (nonJunk query.targetList).length = query.visibleCount :=
    rfl
  have hidden : nonJunk (query.targetList.drop query.visibleCount) = [] := by
    have total := congrArg List.length split
    rw [count, List.length_append, List.length_take,
      Nat.min_eq_left (visibleCount_le query)] at total
    exact List.eq_nil_of_length_eq_zero (by omega)
  rw [split, hidden, List.append_nil]

theorem TargetsOk.nonJunk_resnos (ok : TargetsOk query) :
    (nonJunk query.targetList).map TargetEntry.resno = List.range' 1 query.visibleCount := by
  rw [ok.nonJunk_eq, List.map_take, ok.numbered,
    List.take_range'_of_length_ge (visibleCount_le query)]

/-- The values of the entries for the visible columns of an aggregation. -/
theorem TargetsOk.targetRow_visibleEntries (ok : TargetsOk query) (inst : Instance)
    {lookup : Lookup} {row : Row} (first : ∀ attno, lookup 1 attno = row.column attno)
    (enough : query.visibleCount ≤ row.length) :
    targetRow inst lookup [] (visibleEntries query) = row.take query.visibleCount := by
  have values :
      targetRow inst lookup [] (visibleEntries query) =
        (nonJunk query.targetList).map fun te => row.column te.resno := by
    rw [targetRow, visibleEntries, List.map_map]
    simp only [Function.comp_def, Expr.eval, first]
    exact map_zipIdx_fst (fun te : TargetEntry => row.column te.resno) _ 1
  rw [values, ← map_column_range' enough, ← ok.nonJunk_resnos, List.map_map]
  rfl

end Targets

/-! ## The node -/

section Aggregation

variable
  {cat : Catalog}
  {R : Rel}
  {query query' : Query}
  {pList : List TargetEntry}

theorem eval_originalAggregation (inst : Instance) {shown : List TargetEntry}
    (same :
      SameButNames shown
        (query.targetList.map fun te => { te with resjunk := false })) :
    (originalAggregation query shown).eval inst = query.eval inst := by
  refine Query.eval_withTargets inst ?_ false
  rw [same.map_eq TargetEntry.content fun _ => rfl, List.map_map]
  rfl

theorem isProjection_aggTop (cat : Catalog) (query : Query) (stripped shown : List TargetEntry)
    (sortClause : List SortClause) (input : Query) (originalName inputName : String)
    (targetList : List TargetEntry) :
    Query.IsProjection
      { aggTop cat query stripped shown sortClause input originalName
          inputName with targetList := targetList }
      (.joinExpr .left 3 (.rangeTblRef 1) (.rangeTblRef 2)
        (some (conjunction ((joinAttributes (getGroupByTLEs query) stripped).map notDistinct)))) :=
  ⟨rfl, rfl, rfl, rfl, rfl, rfl, rfl⟩

/-- The original columns are those of the aggregation. -/
theorem AggShape.sameRows (shape : AggShape cat R query query' pList) (ok : NodeOk cat query)
    (aggs : query.hasAggs = true) (inst : Instance) :
    SameRows query.visibleCount (query.eval inst) (query'.eval inst) := by
  cases shape with
  | @intro stripped shown sortClause input inputAttrs _ originalName
      inputName strip named show_ shownNamed order rewritten attrs =>
      have rows := eval_pairTop_perm cat
        (isProjection_aggTop cat query stripped shown sortClause input
          originalName inputName (visibleEntries query ++ pList))
        rfl inst
      rw [eval_originalAggregation inst show_] at rows
      have noSetOp := ok.setOperations_eq_none aggs
      have original (aliasvars : List Expr) {left : Row} (isLeft : left ∈ query.eval inst)
          (right : Option Row) :
          (targetRow inst (joinedEnv inst aliasvars (some left) right).lookup []
            (visibleEntries query ++ pList)).take query.visibleCount =
              left.take query.visibleCount := by
        have enough : query.visibleCount ≤ left.length := by
          rw [length_of_mem_eval noSetOp isLeft]
          exact visibleCount_le query
        rw [targetRow, List.map_append, ← targetRow,
          ok.targets.targetRow_visibleEntries inst
            (lookup_joinedEnv_one inst aliasvars left right) enough,
          List.take_append_of_le_length (by simp [enough]),
          List.take_take, Nat.min_self]
      intro row
      constructor
      · intro member
        rcases List.mem_map.mp member with ⟨left, isLeft, rfl⟩
        rcases exists_mem_joinWith _ isLeft with
          ⟨top, isTop, ⟨right, _, rfl⟩ | rfl⟩
        · rw [← original _ isLeft (some right)]
          exact List.mem_map_of_mem (rows.mem_iff.mpr isTop)
        · rw [← original _ isLeft none]
          exact List.mem_map_of_mem (rows.mem_iff.mpr isTop)
      · intro member
        rcases List.mem_map.mp member with ⟨top, isTop, rfl⟩
        rcases exists_left_of_mem_joinWith (rows.mem_iff.mp isTop) with
          ⟨left, isLeft, ⟨right, _, rfl⟩ | rfl⟩
        · rw [original _ isLeft]
          exact List.mem_map_of_mem isLeft
        · rw [original _ isLeft]
          exact List.mem_map_of_mem isLeft

end Aggregation

/-!
## Rows of rewritten nodes with LIMIT

If the rewrite of a node may return a row more than once, the LIMIT is left
to the original node.  Joining it with the rewritten copy keeps those rows
of the copy whose original columns are returned by the original.
-/

/-- The rows of a node are among those it has without its LIMIT. -/
theorem mem_eval_withoutLimit {inst : Instance} {query : Query} {row : Row}
    (member : row ∈ query.eval inst) :
    row ∈ (withoutLimit query).eval inst := by
  rw [Query.eval_eq_nodeRows, Query.nodeRows] at member
  rw [Query.eval_eq_nodeRows, Query.nodeRows, limitRows_of_noLimit ⟨rfl, rfl⟩]
  exact (limitRows_sublist query _).subset member

section Limit

variable
  (cat : Catalog)
  {query copy : Query}
  {inst : Instance}

/-- The join condition compares all columns of the original. -/
theorem passes_columnPairs_iff (inst : Instance) {targetList : List TargetEntry} {left right : Row}
    (leftLong : targetList.length ≤ left.length) (rightLong : targetList.length ≤ right.length) :
    passes inst (pairEnv (some left) (some right)).lookup []
        (some (.boolExpr .and ((columnPairs targetList).map notDistinct))) = true ↔
      RowSim targetList.length left right := by
  rw [passes_flat_iff, rowSim_iff_columns leftLong rightLong, AllEqual,
    columnPairs, List.forall_mem_map]
  constructor
  · rintro equal attno ⟨positive, bound⟩
    refine equal (targetList[attno - 1], attno) ?_
    rw [List.mk_mem_zipIdx_iff_le_and_getElem?_sub]
    exact ⟨positive, List.getElem?_eq_getElem _⟩
  · rintro columns ⟨te, attno⟩ member
    rw [List.mk_mem_zipIdx_iff_le_and_getElem?_sub] at member
    have bound := (List.getElem?_eq_some_iff.mp member.2).1
    exact columns attno ⟨member.1, by omega⟩

theorem targetRow_secondColumns (inst : Instance) (aliasvars : List Expr) (left : Row) {right : Row}
    {targetList : List TargetEntry} (long : right.length = targetList.length) :
    targetRow inst
        (joinedEnv inst aliasvars (some left) (some right)).lookup []
        (secondColumns targetList) =
      right := by
  have values :
      targetRow inst (joinedEnv inst aliasvars (some left) (some right)).lookup []
          (secondColumns targetList) =
        (List.range' 1 targetList.length).map right.column := by
    rw [targetRow, secondColumns, List.map_map, ← List.zipIdx_map_snd, List.map_map]
    simp only [Function.comp_def, Expr.eval, lookup_joinedEnv_two]
  rw [values, map_column_range' long.ge, List.take_of_length_le long.le]

/-- The rows of the copy which agree with a row of the original. -/
theorem mem_eval_limitTop_iff
    (originalLong : ∀ row ∈ query.eval inst, row.length = query.targetList.length)
    (copyLong : ∀ row ∈ copy.eval inst, row.length = copy.targetList.length)
    (wide : query.targetList.length ≤ copy.targetList.length) (row : Row) :
    row ∈ (limitTop cat query copy).eval inst ↔
      row ∈ copy.eval inst ∧ ∃ left ∈ query.eval inst, RowSim query.targetList.length left row := by
  have projection :
      (limitTop cat query copy).IsProjection
        (.joinExpr .inner 3 (.rangeTblRef 1) (.rangeTblRef 2)
          (some (.boolExpr .and ((columnPairs query.targetList).map notDistinct)))) :=
    ⟨rfl, rfl, rfl, rfl, rfl, rfl, rfl⟩
  have accepted {left right : Row} (isLeft : left ∈ query.eval inst)
      (isRight : right ∈ copy.eval inst) :=
    passes_columnPairs_iff inst (originalLong left isLeft).ge
      (Nat.le_trans wide (copyLong right isRight).ge)
  rw [(eval_pairTop_perm cat projection rfl inst).mem_iff, mem_joinWith]
  constructor
  · rintro (⟨left, isLeft, right, isRight, passed, rfl⟩ | ⟨never, _⟩ |
      ⟨never, _⟩)
    · have same := (accepted isLeft isRight).mp passed
      have value := targetRow_secondColumns inst
        (aliasvarsAt (limitTop cat query copy).rtable 3) left
        (copyLong right isRight)
      rw [show (limitTop cat query copy).targetList = secondColumns copy.targetList from rfl, value]
      exact ⟨isRight, left, isLeft, same⟩
    · contradiction
    · contradiction
  · rintro ⟨isRight, left, isLeft, same⟩
    exact .inl ⟨left, isLeft, row, isRight, (accepted isLeft isRight).mpr same,
      targetRow_secondColumns inst _ left (copyLong row isRight)⟩

/-- The join with the original restores the LIMIT. -/
theorem limitTop_sameRows
    (originalLong : ∀ row ∈ query.eval inst, row.length = query.targetList.length)
    (copyLong : ∀ row ∈ copy.eval inst, row.length = copy.targetList.length)
    (wide : query.targetList.length ≤ copy.targetList.length)
    (same :
      SameRows query.targetList.length ((withoutLimit query).eval inst)
        (copy.eval inst)) :
    SameRows query.targetList.length (query.eval inst) ((limitTop cat query copy).eval inst) := by
  have rows := mem_eval_limitTop_iff cat originalLong copyLong wide
  intro row
  constructor
  · intro member
    rcases List.mem_map.mp member with ⟨left, isLeft, rfl⟩
    have unlimited := (same _).mp (List.mem_map_of_mem (mem_eval_withoutLimit isLeft))
    rcases List.mem_map.mp unlimited with ⟨right, isRight, equal⟩
    refine List.mem_map.mpr ⟨right, (rows right).mpr ?_, equal⟩
    exact ⟨isRight, left, isLeft, equal.symm⟩
  · intro member
    rcases List.mem_map.mp member with ⟨right, isTop, rfl⟩
    rcases (rows right).mp isTop with ⟨_, left, isLeft, equal⟩
    exact List.mem_map.mpr ⟨left, isLeft, equal⟩

end Limit

end Ldv.Perm
