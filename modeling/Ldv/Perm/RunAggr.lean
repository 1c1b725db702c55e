import Ldv.Perm.PairJoin

/-!
# Runs of the rewriter on aggregation nodes

The aggregation rewrite can fail only where the rewrite of the input of the
aggregation fails.  Its result is an `AggShape`.
-/

namespace Ldv.Perm

open Ldv.Sql Effect

/-! ## Names -/

theorem returns_uniqueAttrName (name : String) (state : RewriteState) :
    Returns (uniqueAttrName name) state fun _ final => final.pStack = state.pStack :=
  Returns.get_bind (Returns.set_bind (Returns.pure rfl))

theorem returns_uniqueRelName (name : String) (state : RewriteState) :
    Returns (uniqueRelName name) state fun _ final => final.pStack = state.pStack :=
  Returns.get_bind (Returns.set_bind (Returns.pure rfl))

/-! ## Target lists -/

/-- The aggregate-free entries, renumbered from `start`. -/
theorem returns_stripAggregates (start : Nat) {targetList : List TargetEntry}
    (named : ∀ te ∈ targetList, te.resjunk = false → te.resname.isSome = true)
    (state : RewriteState) :
    Returns (stripAggregates start targetList) state
      fun entries final => final.pStack = state.pStack ∧
        SameButNames entries
          (((targetList.filter fun te => !isAggrExpr te.expr).zipIdx
            start).map fun (te, resno) =>
              { te with resno := resno, resjunk := false }) ∧
        ∀ te ∈ entries, te.resname.isSome = true := by
  induction targetList generalizing start state with
  | nil => exact Returns.pure ⟨rfl, rfl, by simp⟩
  | cons te rest ih =>
    have restNamed : ∀ te ∈ rest, te.resjunk = false → te.resname.isSome = true :=
      fun te member => named te (by simp [member])
    cases aggr : isAggrExpr te.expr with
    | true =>
      rw [stripAggregates, if_pos aggr, List.filter_cons_of_neg (by simp [aggr])]
      exact ih start restNamed state
    | false =>
      rw [stripAggregates, if_neg (by simp [aggr]), List.filter_cons_of_pos (by simp [aggr])]
      have remaining :
          ∀ (resname : Option String) (middle : RewriteState),
            middle.pStack = state.pStack → resname.isSome = true →
            Returns
              (do
                let entries ← stripAggregates (start + 1) rest
                return { te with
                  resno := start, resname := resname,
                  resjunk := false } :: entries)
              middle
              fun entries final => final.pStack = state.pStack ∧
                SameButNames entries
                  (((te :: rest.filter fun te =>
                    !isAggrExpr te.expr).zipIdx start).map
                      fun (te, resno) =>
                        { te with resno := resno, resjunk := false }) ∧
                ∀ te ∈ entries, te.resname.isSome = true := by
        intro resname middle unchanged present
        refine (ih (start + 1) restNamed middle).bind ?_
        rintro entries final ⟨unchanged', same, restPresent⟩
        refine Returns.pure ⟨unchanged'.trans unchanged, ?_, ?_⟩
        · rw [SameButNames] at same ⊢
          rw [List.zipIdx_cons, List.map_cons, List.map_cons, List.map_cons, same]
        · intro te member
          rcases List.mem_cons.mp member with rfl | member
          · exact present
          · exact restPresent te member
      cases junk : te.resjunk with
      | true =>
        rw [if_pos rfl, map_eq_pure_bind, bind_assoc]
        refine (returns_uniqueAttrName "skippedGroupBy" state).bind ?_
        intro name middle unchanged
        exact remaining (some name) middle unchanged rfl
      | false =>
        exact remaining te.resname state rfl (named te (by simp) junk)

/-- The entries for the visible columns, and the list without hidden ones. -/
theorem returns_addSubqueryTargetListToTargetList (query : Query) (start : Nat)
    {targetList : List TargetEntry}
    (named : ∀ te ∈ targetList, te.resjunk = false → te.resname.isSome = true)
    (state : RewriteState) :
    Returns (addSubqueryTargetListToTargetList 1 query start targetList)
      state
      fun result final => final.pStack = state.pStack ∧
        result.1 =
          ((nonJunk targetList).zipIdx start).map (fun (te, resno) =>
            { expr := .var 1 te.resno (exprType te.expr)
              resno := resno
              resname := te.resname
              ressortgroupref :=
                if isUsedInOrderBy query te then te.ressortgroupref
                else 0 }) ∧
        SameButNames result.2 (targetList.map fun te => { te with resjunk := false }) ∧
        ∀ te ∈ result.2, te.resname.isSome = true := by
  induction targetList generalizing start state with
  | nil => exact Returns.pure ⟨rfl, rfl, rfl, by simp⟩
  | cons te rest ih =>
    have restNamed : ∀ te ∈ rest, te.resjunk = false → te.resname.isSome = true :=
      fun te member => named te (by simp [member])
    cases junk : te.resjunk with
    | true =>
      rw [addSubqueryTargetListToTargetList, if_pos junk]
      refine (returns_uniqueAttrName "skippedGroupBy" state).bind ?_
      intro resname middle unchanged
      refine (ih start restNamed middle).bind ?_
      rintro ⟨entries, shown⟩ final ⟨unchanged', visible, same, present⟩
      refine Returns.pure ⟨unchanged'.trans unchanged, ?_, ?_, ?_⟩
      · rw [nonJunk, List.filter_cons_of_neg (by simp [junk])]
        exact visible
      · rw [SameButNames] at same ⊢
        rw [List.map_cons, List.map_cons, List.map_cons, same]
      · intro te member
        rcases List.mem_cons.mp member with rfl | member
        · rfl
        · exact present te member
    | false =>
      rw [addSubqueryTargetListToTargetList, if_neg (by simp [junk])]
      refine (ih (start + 1) restNamed state).bind ?_
      rintro ⟨entries, shown⟩ final ⟨unchanged, visible, same, present⟩
      refine Returns.pure ⟨unchanged, ?_, ?_, ?_⟩
      · rw [nonJunk, List.filter_cons_of_pos (by simp [junk]), List.zipIdx_cons, List.map_cons]
        exact congrArg _ visible
      · rw [SameButNames] at same ⊢
        rw [List.map_cons, List.map_cons, List.map_cons, same]
        simp [junk]
      · intro te' member
        rcases List.mem_cons.mp member with rfl | member
        · exact named te' (by simp) junk
        · exact present te' member

/-- ORDER BY items refer to target entries. -/
theorem exists_checkOrderClause (query : Query) {clauses : List SortClause}
    (refers : ∀ clause ∈ clauses, RefersOnce query.targetList clause.tleSortGroupRef) :
    ∃ sortClause, checkOrderClause query clauses = some sortClause := by
  induction clauses with
  | nil => exact ⟨[], rfl⟩
  | cons clause rest ih =>
    rcases (refers clause (by simp)).exists_mem with ⟨te, member, equal⟩
    have found : (targetForRef query.targetList clause.tleSortGroupRef).isSome = true := by
      rw [targetForRef, List.find?_isSome]
      exact ⟨te, member, by simp [equal]⟩
    rcases Option.isSome_iff_exists.mp found with ⟨target, isTarget⟩
    rcases ih fun clause member =>
      refers clause (by simp [member]) with ⟨sortClause, checked⟩
    exact ⟨_, by rw [checkOrderClause, isTarget, checked]; rfl⟩

/-! ## The join condition -/

theorem sortTargetListOnGroupBy_perm (targetList : List TargetEntry) :
    (sortTargetListOnGroupBy targetList).Perm targetList :=
  (sorts_sortList (comparison_compareOn _) true targetList).perm

/-- The grouping columns can be compared. -/
theorem addJoinOnAttributes_eq {cat : Catalog} {joinAttrsLeft : List TargetEntry}
    (comparable : ∀ te ∈ joinAttrsLeft, (cat.equalityOper (exprType te.expr)).isSome = true)
    (joinAttrsRight : List TargetEntry) :
    addJoinOnAttributes cat joinAttrsLeft joinAttrsRight =
      some (.joinExpr .left 3 (.rangeTblRef 1) (.rangeTblRef 2)
        (some (conjunction ((joinAttributes joinAttrsLeft joinAttrsRight).map notDistinct)))) := by
  have pairs :
      ∀ pair ∈ joinAttributes joinAttrsLeft joinAttrsRight,
        (cat.equalityOper (exprType pair.1)).isSome = true := by
    intro pair member
    rcases List.mem_map.mp member with ⟨⟨left, right⟩, paired, rfl⟩
    have isLeft := (List.of_mem_zip paired).1
    exact comparable left ((sortTargetListOnGroupBy_perm joinAttrsLeft).mem_iff.mp isLeft)
  rw [addJoinOnAttributes, notDistinctConditions_eq, if_pos pairs]
  rfl

/-! ## The node -/

section Node

variable
  {cat : Catalog}
  {recur : Query → Rewrite Query}
  {R : Rel}
  {C : Query → Prop}
  {query : Query}

theorem SameButNames.visible {left right : List TargetEntry} (same : SameButNames left right)
    (visible : ∀ te ∈ right, te.resjunk = false) :
    ∀ te ∈ left, te.resjunk = false := by
  intro te member
  have found := List.mem_map_of_mem (f := TargetEntry.resjunk) member
  rw [same.map_eq TargetEntry.resjunk fun _ => rfl] at found
  rcases List.mem_map.mp found with ⟨te', member', equal⟩
  rw [← equal, visible te' member']

/-- A query that a node reaches as the input of its aggregation. -/
def IsAggregationInput (query input : Query) : Prop :=
  ∃ stripped, input = aggregationInput query stripped ∧
    SameButNames stripped (strippedEntries query.targetList) ∧
    ∀ te ∈ stripped, te.resname.isSome = true

/-- The attributes of the input can be led through the join. -/
theorem exists_aggregationEntries (cat : Catalog) (query : Query) (stripped : List TargetEntry)
    {shown : List TargetEntry} (sortClause : List SortClause) {input : Query}
    {inputAttrs : List TargetEntry} (originalName inputName : String)
    (shownVisible : ∀ te ∈ shown, te.resjunk = false)
    (inputVisible : ∀ te ∈ input.targetList, te.resjunk = false)
    (columns : ∀ te ∈ inputAttrs, FirstColumns input.targetList.length te.resno)
    (start : Nat) :
    ∃ pList,
      provenanceEntries
        (aggTop cat query stripped shown sortClause input originalName inputName)
        start (attributesOf [2] [inputAttrs]) = some pList := by
  refine Option.isSome_iff_exists.mp (provenanceEntries_isSome start ?_)
  intro attr member
  rcases List.mem_flatMap.mp member with ⟨⟨rtindex, pList⟩, paired, inside⟩
  simp only [List.zip_cons_cons, List.zip_nil_right, List.mem_singleton, Prod.mk.injEq] at paired
  rcases paired with ⟨rfl, rfl⟩
  rcases List.mem_map.mp inside with ⟨te, isAttr, rfl⟩
  have aliasvars :
      aliasvarsAt
          (aggTop cat query stripped shown sortClause input originalName inputName).rtable 3 =
        columnVars 1 (originalAggregation query shown).targetList ++
          columnVars 2 { input with shouldRewrite := false : Query }.targetList :=
    aliasvarsAt_pair cat shownVisible inputVisible rfl
  rcases exists_seenAs_pair rfl aliasvars (columns te isAttr) with
    ⟨varattno, seen⟩
  exact seen.isSome

/-- Rewriting an aggregation succeeds if rewriting its input does. -/
theorem decides_rewriteAggregateQuery {cond : Prop} (ok : NodeOk cat query)
    (aggs : query.hasAggs = true)
    (recurs : ∀ input, IsAggregationInput query input → RecursOn recur R C input)
    (same : ∀ input, IsAggregationInput query input → (C input ↔ cond))
    (targetList :
      ∀ input input' inputAttrs, IsAggregationInput query input →
        R input input' inputAttrs → input'.targetList = input.targetList ++ inputAttrs)
    (atEnd : ∀ input input' inputAttrs, R input input' inputAttrs → AtEnd input input' inputAttrs)
    (attrsOf : ∀ input input' inputAttrs, R input input' inputAttrs → AttrsOf cat input inputAttrs)
    (state : RewriteState) :
    Decides (rewriteAggregateQuery cat recur query) state cond
      fun query' final => ∃ pList,
        final.pStack = pList :: state.pStack ∧ AggShape cat R query query' pList := by
  have select := ok.selectOk (ok.setOperations_eq_none aggs)
  have named : ∀ te ∈ query.targetList, te.resjunk = false → te.resname.isSome = true := by
    intro te member visible
    rw [ok.targets.named te member, visible]
    rfl
  have sorted : ∀ clause ∈ query.sortClause, RefersOnce query.targetList clause.tleSortGroupRef :=
    fun clause member => ok.targets.refers clause (by simp [member])
  rcases exists_checkOrderClause query sorted with ⟨sortClause, order⟩
  have join := addJoinOnAttributes_eq (fun te member => (select.grouping te member).1)
  simp only [rewriteAggregateQuery, rewriteAggrSubqueryForRewrite, bind_assoc, pure_bind]
  refine (returns_stripAggregates 1 named state).bind_decides ?_
  rintro stripped first ⟨unchanged, strip, strippedNamed⟩
  apply Decides.orCrash_bind order
  refine (returns_uniqueRelName "originalAggr" first).bind_decides ?_
  intro originalName second unchanged'
  refine (returns_addSubqueryTargetListToTargetList query 1 named second).bind_decides ?_
  rintro ⟨entries, shown⟩ third ⟨unchanged'', rfl, show_, shownNamed⟩
  apply Decides.orCrash_bind (join stripped)
  have isInput : IsAggregationInput query (aggregationInput query stripped) :=
    ⟨stripped, rfl, strip, strippedNamed⟩
  refine ((recurs _ isInput third).mono (same _ isInput).symm
    fun _ _ _ holds => holds).bind_returns ?_
  rintro _ input fourth ⟨inputAttrs, pushed, rewritten⟩
  refine (returns_uniqueRelName "rewrittenAggrSubquery" fourth).bind ?_
  intro inputName fifth unchangedLast
  have shownVisible : ∀ te ∈ shown, te.resjunk = false :=
    show_.visible (List.forall_mem_map.mpr fun _ _ => rfl)
  have strippedVisible : ∀ te ∈ stripped, te.resjunk = false :=
    strip.visible (List.forall_mem_map.mpr fun _ _ => rfl)
  have inputTargets := targetList _ _ _ isInput rewritten
  have attrs := attrsOf _ _ _ rewritten
  have inputVisible : ∀ te ∈ input.targetList, te.resjunk = false := by
    rw [inputTargets, List.forall_mem_append]
    exact ⟨List.forall_mem_map.mpr strippedVisible, attrs.visible⟩
  have inputNamed : ∀ te ∈ input.targetList, te.resname.isSome = true := by
    rw [inputTargets, List.forall_mem_append]
    exact ⟨List.forall_mem_map.mpr strippedNamed, attrs.named⟩
  rcases exists_labels_subqueryRTE cat (originalAggregation query shown)
    shownVisible shownNamed originalName with ⟨leftNames, leftLabels⟩
  rcases exists_labels_subqueryRTE cat { input with shouldRewrite := false } inputVisible inputNamed
    inputName with ⟨rightNames, rightLabels⟩
  rcases exists_aggregationEntries cat query stripped sortClause
    originalName inputName shownVisible inputVisible
    (fun te member => (atEnd _ _ _ rewritten).firstColumns member)
    ((visibleEntries query).length + 1) with ⟨pList, added⟩
  apply Returns.orCrash_bind (adaptRTEsForJoins_pair rfl leftLabels rightLabels)
  have onStack : fifth.pStack = [inputAttrs].reverse ++ state.pStack := by
    simp [unchangedLast, pushed, unchanged'', unchanged', unchanged]
  refine (returns_addProvenanceAttrs onStack rfl added).bind ?_
  rintro _ sixth ⟨popped, rfl⟩
  refine Returns.bind (M := fun _ final =>
    final.pStack = pList :: state.pStack)
    (returns_push (by simp [popped])) ?_
  intro _ final pushed
  exact Returns.pure ⟨pList, pushed, .intro strip strippedNamed show_
    shownNamed order rewritten added⟩

end Node

end Ldv.Perm
