import Mathlib.Data.List.Perm.Lattice
import Ldv.Sql.Semantics

/-!
# ORDER BY, DISTINCT and LIMIT

The last steps of a query node only reorder and drop rows.  Sorting keeps
the bag of rows, DISTINCT keeps a row for every combination of values of the
distinct columns, and LIMIT keeps a contiguous part of the sorted rows.
-/

namespace Ldv.Sql

open Relational

variable {row : Row} {rows left right : List Row} {width ref : Nat}

/-! ## Sorting -/

theorem sortRows_perm (inst : Instance) (query : Query) (rows : List Row) :
    (sortRows inst query rows).Perm rows :=
  List.perm_insertionSort _ rows

/-- The rows of a node in the order in which DISTINCT sees them. -/
theorem sortRows_order_perm (inst : Instance) (query : Query) (rows : List Row) :
    (sortRows inst query (inst.order rows)).Perm rows :=
  (sortRows_perm inst query _).trans (inst.order_perm rows)

/-! ## DISTINCT -/

theorem mem_of_mem_uniqueAfter {key : Row → Row} {previous : Row}
    (member : row ∈ uniqueAfter key previous rows) :
    row ∈ rows := by
  induction rows generalizing previous with
  | nil => simp [uniqueAfter] at member
  | cons head tail ih =>
    unfold uniqueAfter at member
    split at member
    · exact List.mem_cons_of_mem _ (ih member)
    · rcases List.mem_cons.1 member with rfl | later
      · exact List.mem_cons_self
      · exact List.mem_cons_of_mem _ (ih later)

theorem exists_mem_uniqueAfter (key : Row → Row) (previous : Row)
    (member : row ∈ rows) :
    key row = key previous ∨ ∃ kept ∈ uniqueAfter key previous rows, key kept = key row := by
  induction rows generalizing previous with
  | nil => simp at member
  | cons head tail ih =>
    unfold uniqueAfter
    split
    · rename_i same
      rcases List.mem_cons.1 member with rfl | later
      · exact .inl same
      · exact ih previous later
    · right
      rcases List.mem_cons.1 member with rfl | later
      · exact ⟨row, List.mem_cons_self, rfl⟩
      · rcases ih head later with
          same | ⟨kept, keptIn, equal⟩
        · exact ⟨head, List.mem_cons_self, same.symm⟩
        · exact ⟨kept, List.mem_cons_of_mem _ keptIn, equal⟩

theorem mem_of_mem_uniqueRows {query : Query}
    (member : row ∈ uniqueRows query rows) :
    row ∈ rows := by
  unfold uniqueRows at member
  split at member
  · exact member
  · cases rows with
    | nil => exact member
    | cons head tail =>
      rcases List.mem_cons.1 member with rfl | later
      · exact List.mem_cons_self
      · exact List.mem_cons_of_mem _ (mem_of_mem_uniqueAfter later)

theorem uniqueRows_of_no_distinct {query : Query} (noDistinct : query.distinctClause = [])
    (rows : List Row) :
    uniqueRows query rows = rows := by
  simp [uniqueRows, noDistinct]

/-- DISTINCT keeps a row for every key. -/
theorem exists_mem_uniqueRows (query : Query) (member : row ∈ rows) :
    ∃ kept ∈ uniqueRows query rows,
      kept = row ∨
        (query.distinctClause ≠ [] ∧ query.distinctKey kept = query.distinctKey row) := by
  unfold uniqueRows
  split
  · exact ⟨row, member, .inl rfl⟩
  · rename_i distinct
    have present : query.distinctClause ≠ [] := by
      simpa using distinct
    cases rows with
    | nil => simp at member
    | cons head tail =>
      rcases List.mem_cons.1 member with rfl | later
      · exact ⟨row, List.mem_cons_self, .inl rfl⟩
      · rcases exists_mem_uniqueAfter query.distinctKey head
            later with same | ⟨kept, keptIn, equal⟩
        · exact ⟨head, List.mem_cons_self, .inr ⟨present, same.symm⟩⟩
        · exact ⟨kept, List.mem_cons_of_mem _ keptIn, .inr ⟨present, equal⟩⟩

/-! ## LIMIT -/

/-- Does the node keep all rows: no LIMIT but LIMIT ALL, no OFFSET but OFFSET 0? -/
def Query.NoLimit (query : Query) : Prop :=
  query.limitCount.join = none ∧ query.limitOffset.join.getD 0 = 0

instance (query : Query) : Decidable query.NoLimit :=
  inferInstanceAs (Decidable (_ ∧ _))

theorem limitRows_of_noLimit {query : Query} (noLimit : query.NoLimit) (rows : List Row) :
    limitRows query rows = rows := by
  have offset : offsetRows query.limitOffset rows = rows := by
    rcases isOffset : query.limitOffset with _ | _ | count
    · rfl
    · rfl
    · have none : count = 0 := by simpa [isOffset] using noLimit.2
      rw [offsetRows, none, List.drop_zero]
  rw [limitRows, offset]
  rcases isCount : query.limitCount with _ | _ | count
  · rfl
  · rfl
  · simp [isCount, Query.NoLimit] at noLimit

theorem limitRows_sublist (query : Query) (rows : List Row) :
    (limitRows query rows).Sublist rows := by
  have offset : (offsetRows query.limitOffset rows).Sublist rows := by
    unfold offsetRows
    split
    · exact List.drop_sublist _ _
    · exact .refl _
  unfold limitRows countRows
  split
  · exact (List.take_sublist _ _).trans offset
  · exact offset

/-! ## Nodes -/

/-- A node without DISTINCT whose LIMIT cuts nothing off returns all of its plain rows. -/
theorem nodeRows_perm (inst : Instance) {query : Query} (noDistinct : query.distinctClause = [])
    (uncut : ∀ rows, limitRows query rows = rows) (input : Nat → List Row) :
    (query.nodeRows inst input).Perm (query.plainRows inst input) := by
  rw [Query.nodeRows, uncut, uniqueRows_of_no_distinct noDistinct]
  exact sortRows_order_perm inst query _

theorem mem_plainRows_of_mem_nodeRows (inst : Instance) {query : Query} {input : Nat → List Row}
    (member : row ∈ query.nodeRows inst input) :
    row ∈ query.plainRows inst input :=
  (sortRows_order_perm inst query _).mem_iff.1
    (mem_of_mem_uniqueRows ((limitRows_sublist query _).subset member))

@[simp]
theorem targetRow_length (inst : Instance) (lookup : Lookup) (group : List Lookup)
    (targetList : List TargetEntry) :
    (targetRow inst lookup group targetList).length =
      targetList.length := by
  simp [targetRow]

/-- Rows of a SELECT have a value for every target entry. -/
theorem length_of_mem_selectRows {inst : Instance} {query : Query} {envs : List Env}
    (member : row ∈ query.selectRows inst envs) :
    row.length = query.targetList.length := by
  unfold Query.selectRows at member
  split at member <;> rcases List.mem_map.1 member with ⟨_, _, rfl⟩ <;>
    exact targetRow_length _ _ _ _

theorem length_of_mem_eval {inst : Instance} {query : Query} (noSetOp : query.setOperations = none)
    (member : row ∈ query.eval inst) :
    row.length = query.targetList.length := by
  rw [Query.eval_eq_nodeRows] at member
  have plain := mem_plainRows_of_mem_nodeRows inst member
  rw [Query.plainRows, noSetOp] at plain
  exact length_of_mem_selectRows plain

/-! ## Comparison on the first columns -/

/-- The lists have the same rows, up to order, number and later columns. -/
def SameRows (width : Nat) (left right : List Row) : Prop :=
  ∀ row, row ∈ left.map (List.take width) ↔ row ∈ right.map (List.take width)

theorem sameUpTo_rowSim_iff :
    SameUpTo (RowSim width) left right ↔ SameRows width left right := by
  simp only [SameUpTo, Covers, SameRows, List.mem_map, flip, RowSim]
  constructor
  · rintro ⟨forward, backward⟩ row
    constructor
    · rintro ⟨a, aIn, rfl⟩
      rcases forward a aIn with ⟨b, bIn, equal⟩
      exact ⟨b, bIn, equal.symm⟩
    · rintro ⟨b, bIn, rfl⟩
      rcases backward b bIn with ⟨a, aIn, equal⟩
      exact ⟨a, aIn, equal⟩
  · intro same
    constructor
    · intro a aIn
      rcases (same _).1 ⟨a, aIn, rfl⟩ with ⟨b, bIn, equal⟩
      exact ⟨b, bIn, equal.symm⟩
    · intro b bIn
      rcases (same _).2 ⟨b, bIn, rfl⟩ with ⟨a, aIn, equal⟩
      exact ⟨a, aIn, equal⟩

theorem SameRows.trans {middle : List Row}
    (first : SameRows width left middle) (second : SameRows width middle right) :
    SameRows width left right :=
  fun row => (first row).trans (second row)

theorem SameRows.symm (same : SameRows width left right) :
    SameRows width right left :=
  fun row => (same row).symm

theorem SameRows.of_perm (permuted : left.Perm right) :
    SameRows width left right :=
  fun _ => (permuted.map _).mem_iff

/--
DISTINCT keeps the first columns of all rows, if the distinct columns
determine them.
-/
theorem sameRows_uniqueRows {query : Query}
    (determined :
      query.distinctClause ≠ [] → ∀ left ∈ rows, ∀ right ∈ rows,
        query.distinctKey left = query.distinctKey right → RowSim width left right) :
    SameRows width rows (uniqueRows query rows) := by
  apply sameUpTo_rowSim_iff.1
  constructor
  · intro row member
    rcases exists_mem_uniqueRows query member with
      ⟨kept, keptIn, rfl | ⟨present, equal⟩⟩
    · exact ⟨kept, keptIn, rfl⟩
    · exact ⟨kept, keptIn, determined present row member kept
        (mem_of_mem_uniqueRows keptIn) equal.symm⟩
  · intro kept keptIn
    exact ⟨kept, mem_of_mem_uniqueRows keptIn, rfl⟩

/-! ## Columns of sort, group and distinct items -/

/-- The item refers to exactly one target entry. -/
def RefersOnce (targetList : List TargetEntry) (ref : Nat) : Prop :=
  targetList.countP (fun te => te.ressortgroupref == ref) = 1

instance (targetList : List TargetEntry) (ref : Nat) :
    Decidable (RefersOnce targetList ref) :=
  inferInstanceAs (Decidable (_ = _))

theorem findIdx?_of_refersOnce {targetList : List TargetEntry} {position : Nat}
    {te : TargetEntry} (once : RefersOnce targetList ref)
    (present : targetList[position]? = some te) (refers : te.ressortgroupref = ref) :
    targetList.findIdx? (fun te => te.ressortgroupref == ref) = some position := by
  induction targetList generalizing position with
  | nil => simp at present
  | cons head tail ih =>
    unfold RefersOnce at once
    rw [List.countP_cons] at once
    cases position with
    | zero =>
      simp only [List.getElem?_cons_zero, Option.some.injEq] at present
      subst present
      simp [List.findIdx?_cons, refers]
    | succ position =>
      have inTail : te ∈ tail := List.mem_of_getElem? (by simpa using present)
      have inRest : 0 < tail.countP fun te => te.ressortgroupref == ref :=
        List.countP_pos_iff.2 ⟨te, inTail, by simpa using refers⟩
      have headDiffers : ¬ head.ressortgroupref = ref := by
        intro same
        simp only [same, beq_self_eq_true, if_true] at once
        omega
      have tailOnce : RefersOnce tail ref := by
        simpa [RefersOnce, headDiffers] using once
      have found : tail.findIdx? (fun te => te.ressortgroupref == ref) = some position :=
        ih tailOnce (by simpa using present)
      simp [List.findIdx?_cons, headDiffers, found]

theorem columnForRef_eq {targetList : List TargetEntry} {position : Nat} {te : TargetEntry}
    (once : RefersOnce targetList ref) (present : targetList[position]? = some te)
    (refers : te.ressortgroupref = ref) (row : Row) :
    columnForRef targetList ref row = row.getD position .null := by
  rw [columnForRef, findIdx?_of_refersOnce once present refers]

theorem RefersOnce.exists_mem {targetList : List TargetEntry}
    (once : RefersOnce targetList ref) :
    ∃ te ∈ targetList, te.ressortgroupref = ref := by
  have positive : 0 < targetList.countP fun te => te.ressortgroupref == ref := by
    rw [once]
    exact Nat.one_pos
  simpa using List.countP_pos_iff.1 positive

/-- Further target entries do not change the column of an item. -/
theorem columnForRef_append {targetList : List TargetEntry}
    (once : RefersOnce targetList ref) (extra : List TargetEntry) (row : Row) :
    columnForRef (targetList ++ extra) ref row = columnForRef targetList ref row := by
  rcases once.exists_mem with ⟨te, member, refers⟩
  rcases List.mem_iff_getElem?.1 member with ⟨position, present⟩
  have found := findIdx?_of_refersOnce once present refers
  rw [columnForRef, columnForRef, List.findIdx?_append, found]
  rfl

theorem take_eq_take_of_getD_eq {left right : Row} (leftLong : width ≤ left.length)
    (rightLong : width ≤ right.length)
    (columns : ∀ position < width, left.getD position .null = right.getD position .null) :
    RowSim width left right := by
  apply List.ext_getElem
  · simp [leftLong, rightLong]
  · intro position leftBound rightBound
    have bound : position < width := by
      simp at leftBound
      omega
    have equal := columns position bound
    rw [List.getD_eq_getElem?_getD, List.getD_eq_getElem?_getD, List.getElem?_eq_getElem (by omega),
      List.getElem?_eq_getElem (by omega)] at equal
    simpa using equal

theorem rowSim_iff_columns {left right : Row} (leftLong : width ≤ left.length)
    (rightLong : width ≤ right.length) :
    RowSim width left right ↔
      ∀ attno, FirstColumns width attno → left.column attno = right.column attno := by
  constructor
  · exact fun similar attno column =>
      similar.column_eq column.1 column.2
  · intro columns
    refine take_eq_take_of_getD_eq leftLong rightLong ?_
    intro position inside
    exact columns (position + 1) ⟨by omega, by omega⟩

/-- The first columns of a row, one by one. -/
theorem map_column_range' (enough : width ≤ row.length) :
    (List.range' 1 width).map row.column = row.take width := by
  apply List.ext_getElem
  · simp [enough]
  · intro position bound bound'
    simp at bound
    have inside : position < row.length := by omega
    simp [Row.column, inside]

theorem visibleCount_le (query : Query) :
    query.visibleCount ≤ query.targetList.length :=
  List.length_filter_le _ _

/-! ## Nodes over a single FROM item -/

/-- A node that only projects the row combinations of one FROM item. -/
structure Query.IsProjection (query : Query) (node : JoinTreeNode) :
    Prop where
  fromlist : query.fromlist = [node]
  quals : query.quals = none
  noSetOp : query.setOperations = none
  noGroups : query.isGrouped = false
  noDistinct : query.distinctClause = []
  noLimit : query.NoLimit

theorem Env.merge_empty (env : Env) : env.merge Env.empty = env := by
  funext rtindex
  simp [Env.merge, Env.empty]

theorem evalFromlist_singleton (inst : Instance) (aliasvars : Nat → List Expr)
    (input : Nat → List Row) (node : JoinTreeNode) :
    evalFromlist inst aliasvars input [node] = node.eval inst aliasvars input := by
  simp [evalFromlist, crossWith, Env.merge_empty]

theorem Query.IsProjection.eval_perm {query : Query} {node : JoinTreeNode}
    (projection : query.IsProjection node) (inst : Instance) :
    (query.eval inst).Perm
      ((node.eval inst (aliasvarsAt query.rtable)
        (inputRows inst query.rtable)).map fun env =>
          targetRow inst env.lookup [] query.targetList) := by
  rw [Query.eval_eq_nodeRows]
  refine (nodeRows_perm inst projection.noDistinct
    (limitRows_of_noLimit projection.noLimit) _).trans ?_
  have combinations :
      query.combinations inst (aliasvarsAt query.rtable) (inputRows inst query.rtable) =
        node.eval inst (aliasvarsAt query.rtable) (inputRows inst query.rtable) := by
    rw [Query.combinations, projection.fromlist, projection.quals, evalFromlist_singleton]
    simp [passes]
  rw [Query.plainRows, projection.noSetOp, combinations, Query.selectRows, projection.noGroups]
  exact .refl _

/-! ## Parts of a target list that do not matter -/

/-- The parts of a target entry on which the rows of a query depend. -/
def TargetEntry.content (te : TargetEntry) : Expr × Nat :=
  (te.expr, te.ressortgroupref)

section Content

variable
  {targetList targetList' : List TargetEntry}

section Same

variable (same : targetList'.map TargetEntry.content = targetList.map TargetEntry.content)

include same

theorem targetRow_congr_content (inst : Instance) (lookup : Lookup) (group : List Lookup) :
    targetRow inst lookup group targetList' = targetRow inst lookup group targetList := by
  have values := congrArg (List.map fun content => content.1.eval inst lookup group) same
  simpa [targetRow, TargetEntry.content, Function.comp_def] using values

theorem targetForRef_congr_content (ref : Nat) :
    (targetForRef targetList' ref).map TargetEntry.expr =
      (targetForRef targetList ref).map TargetEntry.expr := by
  have viaContent (list : List TargetEntry) :
      (targetForRef list ref).map TargetEntry.expr =
        ((list.map TargetEntry.content).find? fun content =>
          content.2 == ref).map Prod.fst := by
    rw [targetForRef, List.find?_map, Option.map_map]
    rfl
  rw [viaContent, viaContent, same]

theorem columnForRef_congr_content (ref : Nat) (row : Row) :
    columnForRef targetList' ref row = columnForRef targetList ref row := by
  have viaContent (list : List TargetEntry) :
      list.findIdx? (fun te => te.ressortgroupref == ref) =
        (list.map TargetEntry.content).findIdx? fun content =>
          content.2 == ref := by
    rw [List.findIdx?_map]
    rfl
  rw [columnForRef, columnForRef, viaContent, viaContent targetList, same]

theorem rowLe_congr_content (inst : Instance) (clauses : List SortClause) (left right : Row) :
    rowLe inst targetList' clauses left right = rowLe inst targetList clauses left right := by
  induction clauses with
  | nil => rfl
  | cons clause rest ih =>
    simp only [rowLe, columnForRef_congr_content same, ih]

end Same

/-- A query with other names, numbers and visibility of its entries. -/
def Query.withTargets (query : Query) (targetList : List TargetEntry)
    (shouldRewrite : Bool) :
    Query :=
  { query with targetList := targetList, shouldRewrite := shouldRewrite }

section WithTargets

variable
  (inst : Instance)
  {query : Query}
  (same : targetList.map TargetEntry.content = query.targetList.map TargetEntry.content)
  (shouldRewrite : Bool)

include same

theorem groupKey_withTargets :
    (query.withTargets targetList shouldRewrite).groupKey inst = query.groupKey inst := by
  funext env
  apply List.map_congr_left
  intro clause _
  have found := targetForRef_congr_content same clause.tleSortGroupRef
  simp only [Query.withTargets]
  cases left : targetForRef targetList clause.tleSortGroupRef <;>
    cases right : targetForRef query.targetList clause.tleSortGroupRef <;>
    simp_all

theorem selectRows_withTargets (envs : List Env) :
    (query.withTargets targetList shouldRewrite).selectRows inst envs =
      query.selectRows inst envs := by
  have groups :
      (query.withTargets targetList shouldRewrite).survivingGroups inst
        envs = query.survivingGroups inst envs := by
    rw [Query.survivingGroups, Query.survivingGroups, Query.groups,
      Query.groups, groupKey_withTargets inst same]
    rfl
  rw [Query.selectRows, Query.selectRows, groups]
  simp only [Query.withTargets, targetRow_congr_content same inst]
  rfl

theorem plainRows_withTargets (input : Nat → List Row) :
    (query.withTargets targetList shouldRewrite).plainRows inst input =
      query.plainRows inst input := by
  have lengths := congrArg List.length same
  rw [List.length_map, List.length_map] at lengths
  rw [Query.plainRows, Query.plainRows, selectRows_withTargets inst same]
  simp only [Query.withTargets, lengths]
  rfl

theorem sortRows_withTargets (rows : List Row) :
    sortRows inst (query.withTargets targetList shouldRewrite) rows = sortRows inst query rows := by
  simp only [sortRows, Query.withTargets, rowLe_congr_content same inst]

theorem uniqueRows_withTargets (rows : List Row) :
    uniqueRows (query.withTargets targetList shouldRewrite) rows = uniqueRows query rows := by
  have key :
      (query.withTargets targetList shouldRewrite).distinctKey =
        query.distinctKey := by
    funext row
    simp only [Query.distinctKey, Query.withTargets, columnForRef_congr_content same]
  unfold uniqueRows
  rw [key]
  rfl

end WithTargets

/-- Names, numbers and visibility of the entries do not affect the rows. -/
theorem Query.eval_withTargets (inst : Instance) {query : Query}
    (same : targetList.map TargetEntry.content = query.targetList.map TargetEntry.content)
    (shouldRewrite : Bool) :
    (query.withTargets targetList shouldRewrite).eval inst = query.eval inst := by
  rw [Query.eval_eq_nodeRows, Query.eval_eq_nodeRows, Query.nodeRows,
    Query.nodeRows, uniqueRows_withTargets same,
    sortRows_withTargets inst same, plainRows_withTargets inst same]
  rfl

end Content

/-!
## Rows of set operations

UNION, INTERSECT and EXCEPT respect reordering of their inputs, and their
rows are rows of the inputs.
-/

variable {left right : List Row} {all : Bool} {row : Row}

/-- INTERSECT ALL, with the comparison that the library lemmas use. -/
theorem combineRows_intersect_all (left right : List Row) :
    combineRows .intersect true left right =
      @List.bagInter Row instBEqOfDecidableEq left right := by
  rw [combineRows]
  congr 1
  exact lawful_beq_subsingleton _ _

theorem combineRows_perm (op : SetOperation) (all : Bool) {left' right' : List Row}
    (leftPerm : left.Perm left') (rightPerm : right.Perm right') :
    (combineRows op all left right).Perm (combineRows op all left' right') := by
  have members : (fun row => decide (row ∈ right)) = fun row => decide (row ∈ right') := by
    funext row
    simp [rightPerm.mem_iff]
  have others : (fun row => decide (row ∉ right)) = fun row => decide (row ∉ right') := by
    funext row
    simp [rightPerm.mem_iff]
  cases op with
  | union =>
    cases all with
    | true => exact leftPerm.append rightPerm
    | false => exact (leftPerm.append rightPerm).dedup
  | intersect =>
    cases all with
    | true =>
      rw [combineRows_intersect_all, combineRows_intersect_all]
      exact leftPerm.bagInter rightPerm
    | false =>
      simp only [combineRows, members]
      exact (leftPerm.filter _).dedup
  | except =>
    cases all with
    | true => exact leftPerm.diff rightPerm
    | false =>
      simp only [combineRows, others]
      exact (leftPerm.filter _).dedup

theorem mem_intersect :
    row ∈ combineRows .intersect all left right ↔ row ∈ left ∧ row ∈ right := by
  cases all with
  | true =>
    rw [combineRows_intersect_all]
    exact List.mem_bagInter
  | false => simp [combineRows]

theorem mem_left_of_mem_except
    (member : row ∈ combineRows .except all left right) :
    row ∈ left := by
  cases all with
  | true => exact (List.diff_sublist left right).subset member
  | false => simp_all [combineRows]

/-- Rows of a set operation come from its inputs. -/
theorem mem_or_mem_of_mem_combineRows {op : SetOperation}
    (member : row ∈ combineRows op all left right) :
    row ∈ left ∨ row ∈ right := by
  cases op with
  | union => cases all <;> simpa [combineRows] using member
  | intersect => exact .inl (mem_intersect.mp member).1
  | except => exact .inl (mem_left_of_mem_except member)

/-- Rows of a set-operation tree are rows of the entries it refers to. -/
theorem SetOpNode.exists_of_mem_eval {width : Nat} {input : Nat → List Row} {tree : SetOpNode}
    (member : row ∈ tree.eval width input) :
    ∃ rtindex ∈ tree.refs, row ∈ (input rtindex).map (List.take width) := by
  induction tree with
  | rangeTblRef rtindex => exact ⟨rtindex, by simp [refs], member⟩
  | setOperationStmt op all colTypes larg rarg leftIH rightIH =>
    rcases mem_or_mem_of_mem_combineRows member with inLeft | inRight
    · rcases leftIH inLeft with ⟨rtindex, inside, found⟩
      exact ⟨rtindex, by simp [refs, inside], found⟩
    · rcases rightIH inRight with ⟨rtindex, inside, found⟩
      exact ⟨rtindex, by simp [refs, inside], found⟩

end Ldv.Sql
