import Ldv.Perm.WellFormed

/-!
# Rows of set-operation trees over their inputs

Restructuring a set operation does not change its rows: a subtree that was
taken out has the rows which it had in its place.
-/

namespace Ldv.Perm

open Ldv.Sql

/-- Rows of a tree over inputs with `width` columns. -/
def OpTree.rows (inst : Instance) (width : Nat) : OpTree → List Row
  | .leaf rte => (Query.evalRTE inst rte).map (List.take width)
  | .node op all _ larg rarg =>
    combineRows op all (larg.rows inst width) (rarg.rows inst width)

section Rows

variable
  (inst : Instance)
  {width : Nat}
  {query : Query}

theorem OpTree.eval_number (tree : OpTree) {start : Nat} {input : Nat → List Row}
    (inputs :
      ∀ position rte, tree.leaves[position]? = some rte →
        input (start + position) = Query.evalRTE inst rte) :
    (tree.number start).eval width input = tree.rows inst width := by
  induction tree generalizing start with
  | leaf rte =>
    have first := inputs 0 rte rfl
    rw [Nat.add_zero] at first
    simp [number, SetOpNode.eval, rows, first]
  | node op all colTypes larg rarg leftIH rightIH =>
    rw [number, SetOpNode.eval, rows, leftIH, rightIH]
    · intro position rte present
      have shifted := inputs (larg.leaves.length + position) rte (by
        rw [leaves, List.getElem?_append_right (by omega), ← present]
        congr 1
        omega)
      rw [← shifted]
      congr 1
      omega
    · intro position rte present
      exact inputs position rte (by
        rw [leaves, List.getElem?_append_left (List.getElem?_eq_some_iff.mp present).1, present])

theorem ofTree_plainRows (query : Query) (tree : OpTree) :
    (ofTree query tree).plainRows inst
        (inputRows inst (ofTree query tree).rtable) =
      tree.rows inst query.targetList.length := by
  refine tree.eval_number inst ?_
  intro position rte present
  rw [inputRows, Nat.add_comm]
  simp only [rtFetch, ofTree, present]

/-- Rows of a query over the leaves of a tree. -/
theorem eval_ofTree_perm (noDistinct : query.distinctClause = [])
    (uncut : ∀ rows, limitRows query rows = rows) (tree : OpTree) :
    ((ofTree query tree).eval inst).Perm (tree.rows inst query.targetList.length) := by
  rw [Query.eval_eq_nodeRows, ← ofTree_plainRows]
  have unaffected : (ofTree query tree).distinctClause = [] := noDistinct
  exact nodeRows_perm inst unaffected uncut _

/-- Rows of a tree over wide inputs have the columns of the result. -/
theorem OpTree.length_of_mem_rows {tree : OpTree}
    (inputs : ∀ rte ∈ tree.leaves, ∀ row ∈ Query.evalRTE inst rte, width ≤ row.length)
    {row : Row} (member : row ∈ tree.rows inst width) :
    row.length = width := by
  induction tree with
  | leaf rte =>
    rcases List.mem_map.mp member with ⟨whole, isRow, rfl⟩
    have wide := inputs rte (by simp [leaves]) whole isRow
    simp [wide]
  | node op all colTypes larg rarg leftIH rightIH =>
    rcases mem_or_mem_of_mem_combineRows member with inLeft | inRight
    · exact leftIH (fun rte leaf => inputs rte (by simp [leaves, leaf])) inLeft
    · exact rightIH (fun rte leaf => inputs rte (by simp [leaves, leaf])) inRight

/-- A subtree has the same rows in a query of its own. -/
theorem rows_newSubRTE_perm (noDistinct : query.distinctClause = [])
    (uncut : ∀ rows, limitRows query rows = rows) {part : OpTree}
    (inputs :
      ∀ rte ∈ part.leaves, ∀ row ∈ Query.evalRTE inst rte, query.targetList.length ≤ row.length) :
    ((OpTree.leaf (newSubRTE query part)).rows inst
        query.targetList.length).Perm
      (part.rows inst query.targetList.length) := by
  have rows := eval_ofTree_perm inst noDistinct uncut part
  have whole :
      ((ofTree query part).eval inst).map (List.take query.targetList.length) =
        (ofTree query part).eval inst := by
    have kept :
        ∀ row ∈ (ofTree query part).eval inst, row.take query.targetList.length = id row := by
      intro row member
      have length := part.length_of_mem_rows inst inputs (rows.mem_iff.mp member)
      exact List.take_of_length_le (by omega)
    rw [List.map_congr_left kept, List.map_id]
  rw [OpTree.rows, evalRTE_subquery inst rfl, whole]
  exact rows

theorem rows_takeOut_perm (noDistinct : query.distinctClause = [])
    (uncut : ∀ rows, limitRows query rows = rows) {part : OpTree}
    (inputs :
      ∀ rte ∈ part.leaves, ∀ row ∈ Query.evalRTE inst rte, query.targetList.length ≤ row.length) :
    ((takeOut query part).rows inst query.targetList.length).Perm
      (part.rows inst query.targetList.length) := by
  cases part with
  | leaf rte => exact .refl _
  | node op all colTypes larg rarg =>
    exact rows_newSubRTE_perm inst noDistinct uncut inputs

/-- Restructuring does not change the rows of a tree. -/
theorem rows_restructure_perm (noDistinct : query.distinctClause = [])
    (uncut : ∀ rows, limitRows query rows = rows) (rootType : SetOperation) {tree : OpTree}
    (inputs :
      ∀ rte ∈ tree.leaves, ∀ row ∈ Query.evalRTE inst rte, query.targetList.length ≤ row.length) :
    ((restructure query rootType tree).rows inst
        query.targetList.length).Perm
      (tree.rows inst query.targetList.length) := by
  induction tree with
  | leaf rte => exact .refl _
  | node op all colTypes larg rarg leftIH rightIH =>
    have leftInputs :
        ∀ rte ∈ larg.leaves, ∀ row ∈ Query.evalRTE inst rte,
          query.targetList.length ≤ row.length :=
      fun rte leaf => inputs rte (by simp [OpTree.leaves, leaf])
    have rightInputs :
        ∀ rte ∈ rarg.leaves, ∀ row ∈ Query.evalRTE inst rte,
          query.targetList.length ≤ row.length :=
      fun rte leaf => inputs rte (by simp [OpTree.leaves, leaf])
    have whole := rows_newSubRTE_perm inst noDistinct uncut inputs
    have below := combineRows_perm op all (leftIH leftInputs) (rightIH rightInputs)
    have takenOut := combineRows_perm op all
      (rows_takeOut_perm inst noDistinct uncut leftInputs)
      (rows_takeOut_perm inst noDistinct uncut rightInputs)
    cases op with
    | except =>
      rw [restructure]
      split
      · exact takenOut
      · exact whole
    | union =>
      simp only [restructure]
      split
      · exact below
      · exact whole
    | intersect =>
      simp only [restructure]
      split
      · exact below
      · exact whole

/-- Rows of a maximal INTERSECT tree are rows of all of its inputs. -/
theorem mem_rows_of_mem_intersect {tree : OpTree} {row : Row}
    (member : row ∈ (restructure query .intersect tree).rows inst width) {rte : RTE}
    (leaf : rte ∈ (restructure query .intersect tree).leaves) :
    row ∈ (OpTree.leaf rte).rows inst width := by
  induction tree with
  | leaf rte' =>
    rw [restructure, OpTree.leaves, List.mem_singleton] at leaf
    rwa [leaf]
  | node op all colTypes larg rarg leftIH rightIH =>
    cases op with
    | intersect =>
      simp only [restructure, if_true] at member leaf
      rcases mem_intersect.mp member with ⟨inLeft, inRight⟩
      rcases List.mem_append.mp leaf with leaf | leaf
      · exact leftIH inLeft leaf
      · exact rightIH inRight leaf
    | union =>
      simp only [restructure, reduceCtorEq, if_false, OpTree.leaves,
        List.mem_singleton] at member leaf
      rwa [leaf]
    | except =>
      simp only [restructure, reduceCtorEq, if_false, OpTree.leaves,
        List.mem_singleton] at member leaf
      rwa [leaf]

/-- Rows of EXCEPT are rows of its first input. -/
theorem mem_rows_of_mem_except {all : Bool} {colTypes : List Oid} {larg rarg : OpTree} {row : Row}
    (member :
      row ∈ (restructure query .except (.node .except all colTypes larg rarg)).rows inst width)
    {rte : RTE}
    (first :
      (restructure query .except
        (.node .except all colTypes larg rarg)).leaves[0]? = some rte) :
    row ∈ (OpTree.leaf rte).rows inst width := by
  simp only [restructure, if_true, OpTree.leaves] at member first
  have inLeft := mem_left_of_mem_except member
  cases larg with
  | leaf rte' =>
    cases first
    exact inLeft
  | node op all colTypes larg rarg =>
    cases first
    exact inLeft

end Rows

end Ldv.Perm
