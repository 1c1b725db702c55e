import Ldv.Sql.NodeRows

/-!
# ORDER BY under LIMIT

Which rows a LIMIT returns depends on the order of the rows.  If the ORDER
BY of a node is total on its result, any two ways to sort it agree on the
visible columns, so a node with the same rows and further columns returns
the same rows.
-/

namespace Ldv.Sql

open Relational

/-! ## The order of rows -/

section Order

variable
  (inst : Instance)
  (targetList : List TargetEntry)

theorem rowLe_cons_iff (clause : SortClause) (rest : List SortClause) (left right : Row) :
    rowLe inst targetList (clause :: rest) left right = true ↔
      inst.sortLe clause
          (columnForRef targetList clause.tleSortGroupRef left)
          (columnForRef targetList clause.tleSortGroupRef right) = true ∧
        (inst.sortLe clause
            (columnForRef targetList clause.tleSortGroupRef right)
            (columnForRef targetList clause.tleSortGroupRef left) = true →
          rowLe inst targetList rest left right = true) := by
  simp [rowLe, imp_iff_not_or]

theorem rowLe_total (clauses : List SortClause) (left right : Row) :
    rowLe inst targetList clauses left right = true ∨
      rowLe inst targetList clauses right left = true := by
  induction clauses with
  | nil => exact .inl rfl
  | cons clause rest ih =>
    rw [rowLe_cons_iff, rowLe_cons_iff]
    have keys := inst.sortLe_total clause (columnForRef targetList clause.tleSortGroupRef left)
      (columnForRef targetList clause.tleSortGroupRef right)
    tauto

theorem rowLe_trans (clauses : List SortClause) (left middle right : Row)
    (first : rowLe inst targetList clauses left middle = true)
    (second : rowLe inst targetList clauses middle right = true) :
    rowLe inst targetList clauses left right = true := by
  induction clauses with
  | nil => rfl
  | cons clause rest ih =>
    rw [rowLe_cons_iff] at first second ⊢
    refine ⟨inst.sortLe_trans clause _ _ _ first.1 second.1, ?_⟩
    intro back
    have backFirst := inst.sortLe_trans clause _ _ _ second.1 back
    have backSecond := inst.sortLe_trans clause _ _ _ back first.1
    exact ih (first.2 backFirst) (second.2 backSecond)

end Order

theorem sortRows_pairwise (inst : Instance) (query : Query) (rows : List Row) :
    (sortRows inst query rows).Pairwise fun left right =>
      rowLe inst query.targetList query.sortClause left right = true := by
  have total : Std.Total fun left right =>
      rowLe inst query.targetList query.sortClause left right = true :=
    ⟨rowLe_total inst query.targetList query.sortClause⟩
  have trans : IsTrans Row fun left right =>
      rowLe inst query.targetList query.sortClause left right = true :=
    ⟨rowLe_trans inst query.targetList query.sortClause⟩
  exact List.pairwise_insertionSort _ rows

/-- Items refer to columns of the target list. -/
theorem columnForRef_take (targetList : List TargetEntry) (ref : Nat) (row : Row) :
    columnForRef targetList ref (row.take targetList.length) = columnForRef targetList ref row := by
  unfold columnForRef
  cases found : targetList.findIdx? fun te => te.ressortgroupref == ref with
  | none => rfl
  | some position =>
    have inside := (List.findIdx?_eq_some_iff_findIdx_eq.mp found).1
    simp [inside]

/-- Rows are compared by the columns which both target lists have. -/
theorem rowLe_append (inst : Instance) {targetList : List TargetEntry} (extra : List TargetEntry)
    {clauses : List SortClause}
    (refers : ∀ clause ∈ clauses, RefersOnce targetList clause.tleSortGroupRef)
    (left right : Row) :
    rowLe inst (targetList ++ extra) clauses left right =
      rowLe inst targetList clauses (left.take targetList.length)
        (right.take targetList.length) := by
  induction clauses with
  | nil => rfl
  | cons clause rest ih =>
    have once := refers clause (by simp)
    rw [rowLe, rowLe,
      ih fun other member =>
        refers other (by simp [member])]
    simp only [columnForRef_append once, columnForRef_take]

/-! ## Total orders -/

/--
The ORDER BY clause is total on the result: rows which it does not tell
apart have the same visible columns.
-/
def Query.OrderTotal (inst : Instance) (query : Query) : Prop :=
  ∀ left ∈ query.plainRows inst (inputRows inst query.rtable),
    ∀ right ∈ query.plainRows inst (inputRows inst query.rtable),
      rowLe inst query.targetList query.sortClause left right = true →
      rowLe inst query.targetList query.sortClause right left = true →
      RowSim query.visibleCount left right

instance (inst : Instance) (query : Query) :
    Decidable (query.OrderTotal inst) :=
  letI (left right : Row) :
      Decidable (RowSim query.visibleCount left right) :=
    inferInstanceAs (Decidable (_ = _))
  inferInstanceAs (Decidable (∀ left ∈ _, ∀ right ∈ _, _ → _ → _))

theorem forall₂_limitRows {R : Row → Row → Prop} {query query' : Query}
    (count : query'.limitCount = query.limitCount) (offset : query'.limitOffset = query.limitOffset)
    {rows rows' : List Row} (related : List.Forall₂ R rows rows') :
    List.Forall₂ R (limitRows query rows) (limitRows query' rows') := by
  have dropped :
      List.Forall₂ R (offsetRows query.limitOffset rows) (offsetRows query.limitOffset rows') := by
    rcases query.limitOffset with _ | _ | dropped
    · exact related
    · exact related
    · exact List.forall₂_drop dropped related
  rw [limitRows, limitRows, count, offset]
  rcases query.limitCount with _ | _ | taken
  · exact dropped
  · exact dropped
  · exact List.forall₂_take taken dropped

/-- Rows that agree on all columns of the first list. -/
theorem perm_take_of_bagRel {width : Nat} {rows rows' : List Row}
    (long : ∀ row ∈ rows, row.length = width) (related : BagRel (RowSim width) rows rows') :
    (rows'.map (List.take width)).Perm rows := by
  rcases related with ⟨middle, rearranged, similar⟩
  have taken : middle.map (List.take width) = rows'.map (List.take width) := by
    rw [← List.forall₂_eq_eq_eq, List.forall₂_map_left_iff, List.forall₂_map_right_iff]
    exact similar
  have whole : rows.map (List.take width) = rows :=
    (List.map_congr_left fun row member =>
      List.take_of_length_le (long row member).le).trans (List.map_id rows)
  rw [← taken, ← whole]
  exact (rearranged.map _).symm

/-- With a total order, further columns do not change a limited result. -/
theorem forall₂_nodeRows (inst : Instance) {query query' : Query} {extra : List TargetEntry}
    (targetList : query'.targetList = query.targetList ++ extra)
    (sortClause : query'.sortClause = query.sortClause) (noDistinct : query.distinctClause = [])
    (noDistinct' : query'.distinctClause = []) (count : query'.limitCount = query.limitCount)
    (offset : query'.limitOffset = query.limitOffset)
    (refers : ∀ clause ∈ query.sortClause, RefersOnce query.targetList clause.tleSortGroupRef)
    (total : query.OrderTotal inst) {input' : Nat → List Row}
    (long :
      ∀ row ∈ query.plainRows inst (inputRows inst query.rtable),
        row.length = query.targetList.length)
    (related :
      BagRel (RowSim query.targetList.length)
        (query.plainRows inst (inputRows inst query.rtable))
        (query'.plainRows inst input')) :
    List.Forall₂ (RowSim query.visibleCount)
      (query.nodeRows inst (inputRows inst query.rtable))
      (query'.nodeRows inst input') := by
  rw [Query.nodeRows, Query.nodeRows, uniqueRows_of_no_distinct noDistinct,
    uniqueRows_of_no_distinct noDistinct']
  apply forall₂_limitRows count offset
  unfold Query.OrderTotal at total
  generalize query.plainRows inst (inputRows inst query.rtable) = plain at *
  generalize query'.plainRows inst input' = plain' at *
  have sorted := sortRows_pairwise inst query (inst.order plain)
  have sorted' :
      ((sortRows inst query' (inst.order plain')).map
        (List.take query.targetList.length)).Pairwise fun left right =>
          rowLe inst query.targetList query.sortClause left right =
            true := by
    rw [List.pairwise_map]
    refine (sortRows_pairwise inst query' (inst.order plain')).imp ?_
    intro left right below
    rwa [targetList, sortClause, rowLe_append inst extra refers] at below
  have permuted := sortRows_order_perm inst query plain
  have permuted' :=
    ((sortRows_order_perm inst query' plain').map
      (List.take query.targetList.length)).trans (perm_take_of_bagRel long related)
  have ties := forall₂_of_perm_of_pairwise (rowLe_total inst query.targetList query.sortClause)
    (rowLe_trans inst query.targetList query.sortClause)
    (permuted.trans permuted'.symm) sorted sorted'
  have similar := (forall₂_mem ties).imp
    fun left right both =>
      total left (permuted.mem_iff.mp both.1) right
        (permuted'.mem_iff.mp both.2.1) both.2.2.1 both.2.2.2
  rw [List.forall₂_map_right_iff] at similar
  refine similar.imp fun left right agree => ?_
  rwa [RowSim, List.take_take, Nat.min_eq_left (visibleCount_le query)] at agree

end Ldv.Sql
