import Ldv.Perm.Shape
import Ldv.Sql.NodeRows

/-!
# Rows of rewritten select-project-join nodes

The rewrite of a node leaves its FROM clause alone, apart from new alias
columns behind the old ones of a join.  Its inputs are the rewritten inputs,
which show the old columns in their old places.  Hence the rewritten node
computes the row combinations of the original one, and its target rows
extend the original target rows.
-/

namespace Ldv.Perm

open Ldv.Sql
open Relational

variable {rtable rtable' : List RTE} {rtindex start : Nat} {rte rte' : RTE} {subList : List Nat}
  {lists : List (List TargetEntry)}

/-! ## Range-table positions -/

theorem rtFetch_eq_some_iff {Entry : Type} {rtable : List Entry} {rte : Entry} :
    rtFetch rtable rtindex = some rte ↔ 1 ≤ rtindex ∧ rtable[rtindex - 1]? = some rte := by
  cases rtindex with
  | zero => simp [rtFetch]
  | succ position => simp [rtFetch]

/-- Pointwise related range tables have related entries. -/
theorem rtFetch_forall₂ {Entry Entry' : Type} {related : Entry → Entry' → Prop}
    {rtable : List Entry} {rtable' : List Entry'} (pointwise : List.Forall₂ related rtable rtable')
    (rtindex : Nat) :
    Option.Rel related (rtFetch rtable rtindex) (rtFetch rtable' rtindex) := by
  cases rtindex with
  | zero => exact .none
  | succ position =>
    simp only [rtFetch]
    induction pointwise generalizing position with
    | nil => exact .none
    | cons head _ ih =>
      cases position with
      | zero => exact .some head
      | succ position => simpa using ih position

theorem rtFetch_rtReplace {Entry : Type} {rtable : List Entry} {rte : Entry}
    (rte' : Entry) (present : rtFetch rtable rtindex = some rte) (other : Nat) :
    rtFetch (rtReplace rtable rtindex rte') other =
      if other = rtindex then some rte' else rtFetch rtable other := by
  rcases rtFetch_eq_some_iff.1 present with ⟨positive, found⟩
  obtain ⟨position, rfl⟩ := Nat.exists_eq_add_of_le' positive
  have inside : position < rtable.length := (List.getElem?_eq_some_iff.1 found).1
  cases other with
  | zero => simp [rtFetch]
  | succ other =>
    simp only [rtReplace, rtFetch, List.getElem?_set]
    by_cases same : position = other
    · subst same
      simp [inside]
    · simp [same, Ne.symm same]

/-- The rows of an entry are determined by its kind. -/
theorem evalRTE_congr (inst : Instance) (kind : rte.kind = rte'.kind) :
    Query.evalRTE inst rte = Query.evalRTE inst rte' := by
  rcases rte with ⟨kind₁, _, _, _, _⟩
  rcases rte' with ⟨kind₂, _, _, _, _⟩
  cases kind
  cases kind₁ <;> rfl

theorem evalRTE_subquery (inst : Instance) {sub : Query}
    (kind : rte.kind = .subquery sub) :
    Query.evalRTE inst rte = sub.eval inst := by
  rcases rte with ⟨kind', userAlias, eref, isProvBase, provAttrs⟩
  cases kind
  rfl

@[simp]
theorem correctRTEAlias_kind (rte : RTE) :
    (correctRTEAlias rte).kind = rte.kind := by
  unfold correctRTEAlias
  split <;> rfl

/-! ## Join entries -/

/-- The entries of a range table, some with further alias columns. -/
def AliasExtended (rtable rtable' : List RTE) : Prop :=
  List.Forall₂ (fun rte rte' => ∃ pList, rte' = appendAliasvars rte pList) rtable rtable'

theorem appendAliasvars_nil (rte : RTE) : appendAliasvars rte [] = rte := by
  rcases rte with ⟨kind, _, _, _, _⟩
  cases kind <;> simp [appendAliasvars]

theorem appendAliasvars_append (rte : RTE) (first second : List TargetEntry) :
    appendAliasvars (appendAliasvars rte first) second = appendAliasvars rte (first ++ second) := by
  rcases rte with ⟨kind, _, _, _, _⟩
  cases kind <;> simp [appendAliasvars]

theorem AliasExtended.refl (rtable : List RTE) :
    AliasExtended rtable rtable :=
  List.forall₂_same.2 fun rte _ => ⟨[], (appendAliasvars_nil rte).symm⟩

theorem AliasExtended.trans {rtable'' : List RTE}
    (first : AliasExtended rtable rtable') (second : AliasExtended rtable' rtable'') :
    AliasExtended rtable rtable'' := by
  induction first generalizing rtable'' with
  | nil => exact second
  | cons head _ ih =>
    cases second with
    | cons head' tail' =>
      rcases head with ⟨pList, rfl⟩
      rcases head' with ⟨pList', rfl⟩
      exact .cons ⟨pList ++ pList', appendAliasvars_append _ _ _⟩ (ih tail')

theorem AliasExtended.rtReplace
    (pList : List TargetEntry) (present : rtFetch rtable rtindex = some rte) :
    AliasExtended rtable (rtReplace rtable rtindex (appendAliasvars rte pList)) := by
  rcases rtFetch_eq_some_iff.1 present with ⟨positive, found⟩
  obtain ⟨position, rfl⟩ := Nat.exists_eq_add_of_le' positive
  simp only [Nat.add_sub_cancel] at found
  clear present positive
  simp only [Perm.rtReplace]
  induction rtable generalizing position with
  | nil => simp at found
  | cons head tail ih =>
    cases position with
    | zero =>
      simp only [List.getElem?_cons_zero, Option.some.injEq] at found
      subst found
      exact .cons ⟨pList, rfl⟩ (AliasExtended.refl tail)
    | succ position =>
      exact .cons ⟨[], (appendAliasvars_nil head).symm⟩ (ih position (by simpa using found))

theorem computeJoinPAttrs_extends {pStack : List (List TargetEntry)}
    (node : JoinTreeNode) {pAttrs : List TargetEntry}
    (computed : computeJoinPAttrs pStack subList node rtable = some (pAttrs, rtable')) :
    AliasExtended rtable rtable' := by
  induction node generalizing rtable rtable' pAttrs with
  | rangeTblRef rtindex =>
    simp only [computeJoinPAttrs, Option.bind_eq_bind, Option.bind_eq_some_iff] at computed
    rcases computed with ⟨_, _, equal⟩
    cases equal
    exact AliasExtended.refl _
  | joinExpr jointype rtindex larg rarg quals leftIH rightIH =>
    simp only [computeJoinPAttrs, Option.bind_eq_bind,
      Option.bind_eq_some_iff, Prod.exists] at computed
    rcases computed with
      ⟨_, _, leftComputed, _, _, rightComputed, rte, present, equal⟩
    cases equal
    exact ((leftIH leftComputed).trans (rightIH rightComputed)).trans
      (AliasExtended.rtReplace _ present)

theorem correctJoinRTEs_extends {pStack : List (List TargetEntry)}
    (fromlist : List JoinTreeNode)
    (corrected : correctJoinRTEs pStack subList fromlist rtable = some rtable') :
    AliasExtended rtable rtable' := by
  induction fromlist generalizing rtable with
  | nil =>
    cases corrected
    exact AliasExtended.refl _
  | cons item rest ih =>
    cases item with
    | rangeTblRef rtindex => exact ih corrected
    | joinExpr jointype rtindex larg rarg quals =>
      simp only [correctJoinRTEs, Option.bind_eq_bind,
        Option.bind_eq_some_iff, Prod.exists] at corrected
      rcases corrected with ⟨_, _, computed, remaining⟩
      exact (computeJoinPAttrs_extends _ computed).trans (ih remaining)

theorem appendAliasvars_kind_of_not_join (pList : List TargetEntry)
    (notJoin : rte.isJoin = false) :
    appendAliasvars rte pList = rte := by
  rcases rte with ⟨kind, _, _, _, _⟩
  cases kind <;> simp_all [appendAliasvars, RangeTblEntry.isJoin]

theorem appendAliasvars_joinaliasvars (rte : RTE) (pList : List TargetEntry) :
    rte.joinaliasvars <+: (appendAliasvars rte pList).joinaliasvars := by
  rcases rte with ⟨kind, _, _, _, _⟩
  cases kind <;>
    simp [appendAliasvars, RangeTblEntry.joinaliasvars]

/-- New alias columns do not change the rows of an entry. -/
theorem evalRTE_appendAliasvars (inst : Instance) (rte : RTE) (pList : List TargetEntry) :
    Query.evalRTE inst (appendAliasvars rte pList) = Query.evalRTE inst rte := by
  rcases rte with ⟨kind, _, _, _, _⟩
  cases kind <;> rfl

theorem AliasExtended.fetch (extended : AliasExtended rtable rtable')
    (rtindex : Nat) :
    (rtFetch rtable rtindex = none ∧ rtFetch rtable' rtindex = none) ∨
      ∃ rte pList, rtFetch rtable rtindex = some rte ∧
        rtFetch rtable' rtindex = some (appendAliasvars rte pList) := by
  have entries := rtFetch_forall₂ extended rtindex
  generalize rtFetch rtable rtindex = before at *
  generalize rtFetch rtable' rtindex = after at *
  cases entries with
  | none => exact .inl ⟨rfl, rfl⟩
  | some related =>
    rcases related with ⟨pList, rfl⟩
    exact .inr ⟨_, pList, rfl, rfl⟩

theorem AliasExtended.inputRows_eq (inst : Instance)
    (extended : AliasExtended rtable rtable') (rtindex : Nat) :
    inputRows inst rtable' rtindex = inputRows inst rtable rtindex := by
  unfold inputRows
  rcases extended.fetch rtindex with
    ⟨before, after⟩ | ⟨rte, pList, before, after⟩
  · rw [before, after]
  · rw [before, after]
    exact evalRTE_appendAliasvars inst rte pList

theorem AliasExtended.aliasvarsAt
    (extended : AliasExtended rtable rtable') (rtindex : Nat) :
    aliasvarsAt rtable rtindex <+: aliasvarsAt rtable' rtindex := by
  unfold Sql.aliasvarsAt
  rcases extended.fetch rtindex with
    ⟨before, after⟩ | ⟨rte, pList, before, after⟩
  · simp [before, after]
  · rw [before, after]
    exact appendAliasvars_joinaliasvars rte pList

/-! ## Inputs -/

/-- How the entry at a position is rewritten. -/
theorem InputsFrom.fetch {cat : Catalog} {R : Rel}
    (inputs : InputsFrom cat R start rtable rtable' subList lists) (position : Nat)
    (present : rtable[position]? = some rte) :
    ∃ rte', rtable'[position]? = some rte' ∧
      ((isCounted rte = false ∧ rte' = rte) ∨
        (isCounted rte = true ∧
          ∃ pList, EntryShape cat R (start + position) rte rte' pList ∧
            (start + position, pList) ∈ subList.zip lists)) := by
  induction inputs generalizing position with
  | nil => simp at present
  | @other start head rest rest' subList lists uncounted tail ih =>
    cases position with
    | zero =>
      simp only [List.getElem?_cons_zero, Option.some.injEq] at present
      subst present
      exact ⟨head, by simp, .inl ⟨uncounted, rfl⟩⟩
    | succ position =>
      have shifted : start + 1 + position = start + (position + 1) := by
        omega
      simpa [shifted] using ih position (by simpa using present)
  | @counted start head head' rest rest' subList pList lists isInput entry tail ih =>
    cases position with
    | zero =>
      simp only [List.getElem?_cons_zero, Option.some.injEq] at present
      subst present
      exact ⟨head', by simp, .inr ⟨isInput, pList, by simpa using entry, by simp⟩⟩
    | succ position =>
      have shifted : start + 1 + position = start + (position + 1) := by
        omega
      rcases ih position (by simpa using present) with
        ⟨rte', found, kept | ⟨isInput', pList', entry', member⟩⟩
      · exact ⟨rte', by simpa using found, .inl kept⟩
      · rw [shifted] at entry' member
        exact ⟨rte', by simpa using found,
          .inr ⟨isInput', pList', entry', List.mem_cons_of_mem _ member⟩⟩

theorem InputsFrom.length_eq {cat : Catalog} {R : Rel}
    (inputs : InputsFrom cat R start rtable rtable' subList lists) :
    rtable'.length = rtable.length := by
  induction inputs with
  | nil => rfl
  | other _ _ ih => simp [ih]
  | counted _ _ _ ih => simp [ih]

theorem InputsFrom.rtFetch_none {cat : Catalog} {R : Rel}
    (inputs : InputsFrom cat R start rtable rtable' subList lists)
    (absent : rtFetch rtable rtindex = none) :
    rtFetch rtable' rtindex = none := by
  cases rtindex with
  | zero => rfl
  | succ position =>
    simp only [rtFetch, List.getElem?_eq_none_iff] at absent ⊢
    rwa [inputs.length_eq]

theorem joinaliasvars_of_not_join (notJoin : rte.isJoin = false) :
    rte.joinaliasvars = [] := by
  rcases rte with ⟨kind, _, _, _, _⟩
  cases kind <;>
    simp_all [RangeTblEntry.isJoin, RangeTblEntry.joinaliasvars]

theorem joinaliasvars_congr (kind : rte.kind = rte'.kind) :
    rte.joinaliasvars = rte'.joinaliasvars := by
  simp [RangeTblEntry.joinaliasvars, kind]

theorem isJoin_congr (kind : rte.kind = rte'.kind) :
    rte.isJoin = rte'.isJoin := by
  simp [RangeTblEntry.isJoin, kind]

/-- Only entries that are not joins are rewritten as inputs. -/
theorem EntryShape.isJoin_eq {cat : Catalog} {R : Rel}
    {pList : List TargetEntry} (entry : EntryShape cat R rtindex rte rte' pList)
    (isInput : isCounted rte = true) :
    rte'.isJoin = false := by
  have notJoin : rte.isJoin = false := by
    simp [isCounted] at isInput
    exact isInput.2
  cases entry with
  | kept provenance leaf kind eref attrs => rw [isJoin_congr kind, notJoin]
  | recursed descends related => rfl

theorem InputsFrom.aliasvarsAt_eq {cat : Catalog} {R : Rel}
    (inputs : InputsFrom cat R 1 rtable rtable' subList lists) (rtindex : Nat) :
    aliasvarsAt (rtable'.map correctRTEAlias) rtindex = aliasvarsAt rtable rtindex := by
  unfold aliasvarsAt
  rw [rtFetch_map]
  cases present : rtFetch rtable rtindex with
  | none => rw [inputs.rtFetch_none present]; rfl
  | some rte =>
    rcases rtFetch_eq_some_iff.1 present with ⟨positive, found⟩
    rcases inputs.fetch (rtindex - 1) found with
      ⟨rte', found', ⟨_, rfl⟩ | ⟨isInput, pList, entry, _⟩⟩
    · rw [rtFetch_eq_some_iff.2 ⟨positive, found'⟩]
      exact joinaliasvars_congr (correctRTEAlias_kind rte')
    · have notJoin : rte.isJoin = false := by
        simp [isCounted] at isInput
        exact isInput.2
      rw [rtFetch_eq_some_iff.2 ⟨positive, found'⟩]
      simp only [Option.map_some]
      rw [joinaliasvars_congr (correctRTEAlias_kind rte'),
        joinaliasvars_of_not_join (entry.isJoin_eq isInput),
        joinaliasvars_of_not_join notJoin]

/-! ## Widths -/

/-- Number of columns the parent query may refer to. -/
def rteWidth (cat : Catalog) (rte : RTE) : Nat :=
  match rte.kind with
  | .relation relid => (cat.attributes relid).length
  | .subquery query => query.visibleCount
  | .join _ aliasvars => aliasvars.length
  | .function _ coltypes => coltypes.length
  | .values lists => (lists.headD []).length

def widthAt (cat : Catalog) (rtable : List RTE) (rtindex : Nat) : Nat :=
  match rtFetch rtable rtindex with
  | some rte => rteWidth cat rte
  | none => 0

/-- The columns of the entries of a range table. -/
def columnsAt (cat : Catalog) (rtable : List RTE) (rtindex attno : Nat) :
    Prop :=
  FirstColumns (widthAt cat rtable rtindex) attno

/-- All column references of a node are to columns of a set. -/
structure InScope (cols : Nat → Nat → Prop) (query : Query) : Prop where
  targets : ∀ te ∈ query.targetList, RefsIn cols te.expr.vars
  quals : RefsIn cols (qualVars query.quals)
  fromlist : ∀ item ∈ query.fromlist, item.Scoped cols (aliasvarsAt query.rtable)
  bounded : ∀ item ∈ query.fromlist, AliasBounded cols (aliasvarsAt query.rtable) item.joins

/-! ## Preservation of the original columns -/

theorem lift_refl (lift : Lifting) (width : Nat) (rows : List Row) :
    lift.rel (RowSim width) rows rows := by
  have related := lift.map (S := RowSim width) (f := id) (g := id)
    (lift.ofEq rows) (by rintro a _ b _ rfl; exact rfl)
  simpa using related

section Preservation

variable
  (lift : Lifting)
  (inst : Instance)
  {cat : Catalog}
  {R : Rel}
  {query query' : Query}
  {pList : List TargetEntry}

theorem kind_of_recursesInto {sub : Query} (descends : recursesInto rte = some sub) :
    rte.kind = .subquery sub := by
  unfold recursesInto at descends
  split at descends
  · rename_i sub' kind
    rw [kind]
    split at descends <;> split at descends <;> simp_all
  · simp at descends

/-- A rewritten input shows the columns of the original input. -/
theorem EntryShape.rel_evalRTE
    (entry : EntryShape cat R rtindex rte rte' pList)
    (subqueries :
      ∀ sub, recursesInto rte = some sub → ∀ sub' subAttrs,
        R sub sub' subAttrs →
          lift.rel (RowSim sub.visibleCount) (sub.eval inst)
            (sub'.eval inst)) :
    lift.rel (RowSim (rteWidth cat rte)) (Query.evalRTE inst rte) (Query.evalRTE inst rte') := by
  cases entry with
  | kept provenance leaf kind eref attrs =>
    rw [evalRTE_congr inst kind]
    exact lift_refl lift _ _
  | @recursed sub sub' _ descends related =>
    have kind := kind_of_recursesInto descends
    have rows := evalRTE_subquery inst kind
    have width : rteWidth cat rte = sub.visibleCount := by
      simp [rteWidth, kind]
    rw [rows, width]
    exact subqueries sub descends sub' pList related

/-- The subqueries a node recurses into are preserved. -/
def SubqueriesLift (R : Rel) (query : Query) : Prop :=
  ∀ rte ∈ query.rtable, isCounted rte = true →
    ∀ sub, recursesInto rte = some sub →
      ∀ sub' subAttrs, R sub sub' subAttrs →
        lift.rel (RowSim sub.visibleCount) (sub.eval inst) (sub'.eval inst)

theorem InputsFrom.rel_inputRows {rtable'' : List RTE}
    (inputs : InputsFrom cat R 1 rtable rtable' subList lists)
    (extended : AliasExtended (rtable'.map correctRTEAlias) rtable'')
    (subqueries :
      ∀ rte ∈ rtable, isCounted rte = true →
        ∀ sub, recursesInto rte = some sub →
          ∀ sub' subAttrs, R sub sub' subAttrs →
            lift.rel (RowSim sub.visibleCount) (sub.eval inst) (sub'.eval inst))
    (rtindex : Nat) :
    lift.rel (RowSim (widthAt cat rtable rtindex))
      (inputRows inst rtable rtindex)
      (inputRows inst rtable'' rtindex) := by
  rw [extended.inputRows_eq inst]
  unfold inputRows widthAt
  rw [rtFetch_map]
  cases present : rtFetch rtable rtindex with
  | none =>
    rw [inputs.rtFetch_none present]
    exact lift_refl lift _ _
  | some rte =>
    rcases rtFetch_eq_some_iff.1 present with ⟨positive, found⟩
    rcases inputs.fetch (rtindex - 1) found with
      ⟨rte', found', ⟨_, rfl⟩ | ⟨isInput, pList, entry, _⟩⟩
    · rw [rtFetch_eq_some_iff.2 ⟨positive, found'⟩]
      simp only [Option.map_some]
      rw [evalRTE_congr inst (correctRTEAlias_kind rte')]
      exact lift_refl lift _ _
    · rw [rtFetch_eq_some_iff.2 ⟨positive, found'⟩]
      simp only [Option.map_some]
      rw [evalRTE_congr inst (correctRTEAlias_kind rte')]
      exact entry.rel_evalRTE lift inst (subqueries rte (List.mem_of_getElem? found) isInput)

/-- Target rows of the rewritten node extend the original target rows. -/
theorem targetRow_append_sim {targetList extra : List TargetEntry} {cols : Nat → Nat → Prop}
    {env env' : Env} (similar : EnvSim cols env env')
    (inside : ∀ te ∈ targetList, RefsIn cols te.expr.vars) :
    RowSim targetList.length
      (targetRow inst env.lookup [] targetList)
      (targetRow inst env'.lookup [] (targetList ++ extra)) := by
  have values :
      targetRow inst env.lookup [] targetList = targetRow inst env'.lookup [] targetList := by
    apply List.map_congr_left
    intro te member
    exact Expr.eval_congr inst [] te.expr (similar.agree (inside te member))
  rw [RowSim, values, targetRow, targetRow, List.map_append,
    List.take_append_of_le_length (by simp)]

theorem SpjShape.rel_combinations (shape : SpjShape cat R query query' pList)
    (inScope : InScope (columnsAt cat query.rtable) query)
    (subqueries : SubqueriesLift lift inst R query) :
    lift.rel (EnvSim (columnsAt cat query.rtable))
      (query.combinations inst (aliasvarsAt query.rtable) (inputRows inst query.rtable))
      (query'.combinations inst (aliasvarsAt query'.rtable) (inputRows inst query'.rtable)) := by
  cases shape with
  | @intro rtable' rtable'' _ _ _ _ _ inputs joins attrs distinct =>
    have extended := correctJoinRTEs_extends _ joins
    have aliasKept :
        ∀ rtindex, aliasvarsAt query.rtable rtindex <+: aliasvarsAt rtable'' rtindex := by
      intro rtindex
      rw [← inputs.aliasvarsAt_eq]
      exact extended.aliasvarsAt rtindex
    refine lift.filter
      (evalFromlist_lift lift inst aliasKept query.fromlist
        inScope.fromlist inScope.bounded fun _ _ rtindex _ =>
          lift.mono (inputs.rel_inputRows lift inst extended subqueries rtindex)
            fun _ _ => RowSim.colSim)
      ?_
    intro env env' similar
    exact passes_congr inst [] (similar.agree inScope.quals)

theorem SpjShape.rel_plainRows (shape : SpjShape cat R query query' pList)
    (plain : query.isGrouped = false) (noSetOp : query.setOperations = none)
    (inScope : InScope (columnsAt cat query.rtable) query)
    (subqueries : SubqueriesLift lift inst R query) :
    lift.rel (RowSim query.targetList.length)
      (query.plainRows inst (inputRows inst query.rtable))
      (query'.plainRows inst (inputRows inst query'.rtable)) := by
  have combinations := shape.rel_combinations lift inst inScope subqueries
  cases shape with
  | intro inputs joins attrs distinct =>
    simp only [Query.plainRows, noSetOp, Query.selectRows,
      Query.isGrouped] at combinations plain ⊢
    simp only [plain, Bool.false_eq_true, if_false]
    exact lift.map combinations fun env _ env' _ similar =>
      targetRow_append_sim inst similar inScope.targets

end Preservation

/-! ## DISTINCT -/

/-- DISTINCT, as opposed to DISTINCT ON, covers all visible columns. -/
structure PlainDistinct (query : Query) : Prop where
  refers : ∀ clause ∈ query.distinctClause, RefersOnce query.targetList clause.tleSortGroupRef
  covers :
    query.distinctClause ≠ [] →
      ∀ te ∈ query.targetList.take query.visibleCount,
        ∃ clause ∈ query.distinctClause, clause.tleSortGroupRef = te.ressortgroupref

/-- Equal distinct columns give equal visible columns. -/
theorem PlainDistinct.determined {query : Query} (plain : PlainDistinct query)
    (extra : List TargetEntry) (clauses : List SortClause) {left right : Row}
    (leftLong : query.targetList.length ≤ left.length)
    (rightLong : query.targetList.length ≤ right.length) (present : query.distinctClause ≠ [])
    (equal :
      ∀ clause ∈ query.distinctClause ++ clauses,
        columnForRef (query.targetList ++ extra) clause.tleSortGroupRef
            left =
          columnForRef (query.targetList ++ extra) clause.tleSortGroupRef right) :
    RowSim query.visibleCount left right := by
  have bounded := visibleCount_le query
  apply take_eq_take_of_getD_eq (by omega) (by omega)
  intro position inside
  have long : position < query.targetList.length := by omega
  have found := List.getElem?_eq_getElem long
  have visible : query.targetList[position] ∈ query.targetList.take query.visibleCount :=
    List.mem_take_iff_getElem.2 ⟨position, by omega, rfl⟩
  rcases plain.covers present _ visible with ⟨clause, member, refers⟩
  have once := plain.refers clause member
  have same := equal clause (List.mem_append_left _ member)
  rw [columnForRef_append once, columnForRef_append once, columnForRef_eq once found refers.symm,
    columnForRef_eq once found refers.symm] at same
  exact same

/--
DISTINCT keeps all visible rows of a node, also when it was extended to
further target entries.
-/
theorem PlainDistinct.sameRows_nodeRows (inst : Instance) {query query' : Query}
    (plain : PlainDistinct query) {extra : List TargetEntry} {clauses : List SortClause}
    (targetList : query'.targetList = query.targetList ++ extra)
    (distinctClause : query'.distinctClause = query.distinctClause ++ clauses)
    (onlyDistinct : query.distinctClause = [] → clauses = [])
    (noSetOp : query'.setOperations = none) (noLimit : query'.NoLimit) (input : Nat → List Row) :
    SameRows query.visibleCount (query'.plainRows inst input) (query'.nodeRows inst input) := by
  rw [Query.nodeRows, limitRows_of_noLimit noLimit]
  have sorted := sortRows_order_perm inst query' (query'.plainRows inst input)
  refine (SameRows.of_perm sorted.symm).trans (sameRows_uniqueRows ?_)
  intro present left leftIn right rightIn sameKey
  have lengths :
      ∀ row ∈ sortRows inst query' (inst.order (query'.plainRows inst input)),
        query.targetList.length ≤ row.length := by
    intro row member
    have plainRow := sorted.mem_iff.1 member
    simp only [Query.plainRows, noSetOp] at plainRow
    rw [length_of_mem_selectRows plainRow, targetList]
    simp
  have originallyDistinct : query.distinctClause ≠ [] := by
    intro absent
    rw [distinctClause, absent, onlyDistinct absent] at present
    exact present rfl
  apply plain.determined extra clauses (lengths left leftIn)
    (lengths right rightIn) originallyDistinct
  intro clause member
  have columns := List.map_inj_left.1 sameKey clause (by rwa [distinctClause])
  rwa [targetList] at columns

theorem DistinctShape.clauses_eq_nil {query : Query} {entries pList : List TargetEntry}
    {clauses : List SortClause} (shape : DistinctShape query entries pList clauses)
    (absent : query.distinctClause = []) :
    clauses = [] := by
  cases shape with
  | absent => rfl
  | present present => exact (present absent).elim

/-- A rewritten node without LIMIT has the visible rows of the original. -/
theorem SpjShape.sameRows (inst : Instance) {cat : Catalog} {R : Rel} {query query' : Query}
    {pList : List TargetEntry} (shape : SpjShape cat R query query' pList)
    (plain : query.isGrouped = false) (noSetOp : query.setOperations = none)
    (noLimit : query.NoLimit) (inScope : InScope (columnsAt cat query.rtable) query)
    (distinct : PlainDistinct query) (subqueries : SubqueriesLift .set inst R query) :
    SameRows query.visibleCount (query.eval inst) (query'.eval inst) := by
  have similar := shape.rel_plainRows .set inst plain noSetOp inScope subqueries
  have plainRows :
      SameRows query.visibleCount (query.plainRows inst (inputRows inst query.rtable))
        (query'.plainRows inst (inputRows inst query'.rtable)) :=
    sameUpTo_rowSim_iff.1 (Lifting.set.mono similar fun _ _ rows =>
      rows.mono (visibleCount_le query))
  rw [Query.eval_eq_nodeRows, Query.eval_eq_nodeRows]
  have original :
      SameRows query.visibleCount (query.plainRows inst (inputRows inst query.rtable))
        (query.nodeRows inst (inputRows inst query.rtable)) :=
    distinct.sameRows_nodeRows inst (List.append_nil _).symm
      (List.append_nil _).symm (fun _ => rfl) noSetOp noLimit _
  refine (original.symm.trans plainRows).trans ?_
  cases shape with
  | intro inputs joins attrs distinctShape =>
    apply distinct.sameRows_nodeRows inst
    · rfl
    · rfl
    · exact distinctShape.clauses_eq_nil
    · exact noSetOp
    · exact noLimit

end Ldv.Perm
