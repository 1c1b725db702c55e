import Ldv.Perm.JoinChain

/-!
# Runs of the rewriter on set-operation nodes

The set-operation rewrite fails where the rewrite of an input fails, and
where a column of the result has a type without equality operator.  Its
result is a `SetShape`.
-/

namespace Ldv.Perm

open Ldv.Sql Effect

/-! ## Rewriting the inputs -/

theorem subquery?_eq_some {rte : RTE} {sub : Query} (kind : rte.kind = .subquery sub) :
    rte.subquery? = some sub := by
  simp [RangeTblEntry.subquery?, kind]

theorem kind_of_subquery?_eq_some {rte : RTE} {sub : Query} (found : rte.subquery? = some sub) :
    rte.kind = .subquery sub := by
  unfold RangeTblEntry.subquery? at found
  split at found <;> simp_all

theorem decides_rewriteSetRTEs {recur : Query → Rewrite Query} {R : Rel} {C : Query → Prop}
    {rtable : List RTE} (subqueries : ∀ rte ∈ rtable, ∃ sub, rte.kind = .subquery sub)
    (recurs : ∀ rte ∈ rtable, ∀ sub, rte.kind = .subquery sub → RecursOn recur R C sub)
    (state : RewriteState) :
    Decides (rewriteSetRTEs recur rtable) state
      (∀ rte ∈ rtable, ∀ sub, rte.kind = .subquery sub → C sub)
      fun rtable' final => ∃ lists,
        final.pStack = lists.reverse ++ state.pStack ∧ SetInputs R rtable rtable' lists := by
  induction rtable generalizing state with
  | nil => exact .of_returns (by simp) (Returns.pure ⟨[], rfl, .nil⟩)
  | cons rte rest ih =>
    rcases subqueries rte (by simp) with ⟨sub, kind⟩
    have others := ih (fun rte member => subqueries rte (by simp [member]))
      (fun rte member => recurs rte (by simp [member]))
    rw [rewriteSetRTEs]
    apply Decides.orCrash_bind (subquery?_eq_some kind)
    have split :
        (∀ rte' ∈ rte :: rest, ∀ sub, rte'.kind = .subquery sub → C sub) ↔
          C sub ∧ ∀ rte ∈ rest, ∀ sub, rte.kind = .subquery sub → C sub := by
      simp [kind]
    refine Decides.mono ((recurs rte (by simp) sub kind state).bind ?_)
      split fun _ _ _ holds => holds
    rintro _ query' middle ⟨pList, pushed, related⟩
    refine (others middle).bind_returns ?_
    rintro _ rtable' final ⟨lists, pushed', inputs⟩
    refine Returns.pure ⟨pList :: lists, ?_, .cons kind related inputs⟩
    simp [pushed', pushed]

/-! ## The node -/

section Node

variable
  {cat : Catalog}
  {recur : Query → Rewrite Query}
  {R : Rel}
  {C : Query → Prop}
  {query : Query}

/-- Types of the columns of a query. -/
def targetTypes (query : Query) : List Oid :=
  query.targetList.map fun te => exprType te.expr

/-- The joins of a set operation with its rewritten inputs. -/
theorem createJoinsForSetOp_setTop (cat : Catalog) {op : SetOperation} {all : Bool}
    {colTypes : List Oid} {larg rarg : SetOpNode} {inputs : List RTE}
    (stmt : query.setOperations = some (.setOperationStmt op all colTypes larg rarg))
    (nonempty : query.targetList ≠ []) (atLeastTwo : 2 ≤ inputs.length)
    (exactlyTwo : op = .except → inputs.length = 2)
    (enough :
      ∀ input ∈ inputs.map correctRTEAlias,
        query.targetList.length ≤ (getAttributesForJoin input).length) :
    createJoinsForSetOp cat
        (correctSubQueryAlias {
          rtable := subqueryRTE query "originalSet" :: inputs
          targetList := query.targetList })
        op =
      if Comparable cat (targetTypes query) then
        some (setTop query op all inputs)
      else
        none := by
  have original := getAttributesForJoin_subquery
    (correctRTEAlias_kind (subqueryRTE query "originalSet"))
  have width : (targetTypes query).length = query.targetList.length := by
    simp [targetTypes]
  have carries :
      CarriesTypes (targetTypes query) (correctRTEAlias (subqueryRTE query "originalSet")) := by
    rw [CarriesTypes, original, width, List.take_length]
    rfl
  rcases inputs with _ | ⟨first, _ | ⟨second, rest⟩⟩
  · simp at atLeastTwo
  · simp at atLeastTwo
  · have isAll :
        originalIsAll
          (correctSubQueryAlias {
            rtable := subqueryRTE query "originalSet" :: first :: second :: rest
            targetList := query.targetList }) = some all := by
      simp [originalIsAll, correctSubQueryAlias, RangeTblEntry.subquery?, subqueryRTE, stmt]
    have created := createJoinsForSetOp_eq cat (by simpa [targetTypes] using nonempty) rfl
      (fun isExcept => by simpa using exactlyTwo isExcept)
      isAll width.symm carries
      (by simpa [width] using enough)
    rw [created, width]
    rfl

/-- Rewriting a set operation. -/
theorem decides_rewriteSetQuery {tree : SetOpNode} {cond : Prop} (nodeOk : NodeOk cat query)
    (setOp : query.setOperations = some tree)
    (recurs : ∀ sub, Reaches query sub → RecursOn recur R C sub)
    (same :
      ∀ op all colTypes larg rarg,
        query = ofTree query (.node op all colTypes larg rarg) →
        ((∀ rte ∈ (restructure query op
            (.node op all colTypes larg rarg)).leaves,
          ∀ sub, rte.kind = .subquery sub → C sub) ∧
          Comparable cat (targetTypes query) ↔ cond))
    (atEnd : ∀ sub sub' subAttrs, R sub sub' subAttrs → AtEnd sub sub' subAttrs)
    (numbered :
      ∀ sub sub' subAttrs, R sub sub' subAttrs →
        sub'.targetList.map TargetEntry.resno = List.range' 1 sub'.targetList.length)
    (state : RewriteState) :
    Decides (rewriteSetQuery cat recur query) state cond
      fun query' final => ∃ pList,
        final.pStack = pList :: state.pStack ∧ SetShape cat R query query' pList := by
  have ok := nodeOk.setOk setOp
  rcases ok.exists_ofTree setOp with
    ⟨op, all, colTypes, larg, rarg, isTree⟩
  have inhabited : query.rtable ≠ [] := by
    rw [ofTree_rtable isTree]
    exact List.ne_nil_of_length_pos (OpTree.leaves_pos _)
  have stmt :
      query.setOperations =
        some (.setOperationStmt op all colTypes (larg.number 1)
          (rarg.number (1 + larg.leaves.length))) :=
    ofTree_setOperations isTree
  have restructured :
      replaceSetOperationSubTrees op
          (.setOperationStmt op all colTypes (larg.number 1)
            (rarg.number (1 + larg.leaves.length))) [] query =
        some (ofTree query (restructure query op (.node op all colTypes larg rarg))) := by
    have replaced := replaceSetOperationSubTrees_ofTree query op (.node op all colTypes larg rarg)
    rw [← isTree] at replaced
    exact replaced
  rw [rewriteSetQuery]
  apply Decides.orCrash_bind (ok.removeDummyRewriterRTEs_eq inhabited)
  simp only [stmt]
  apply Decides.orCrash_bind restructured
  refine Decides.mono (Decides.bind (decides_rewriteSetRTEs
    (fun rte member => ok.exists_subquery isTree member)
    (fun rte member sub kind => recurs sub (Reaches.of_restructured isTree member kind)) state) ?_)
    (same op all colTypes larg rarg isTree).symm
    fun _ _ _ holds => holds
  rintro _ inputs middle ⟨lists, onStack, rewritten⟩
  have lengths := rewritten.lengths_eq
  rcases length_restructure query op all colTypes larg rarg with
    ⟨atLeastTwo, exactlyTwo⟩
  have enough :
      ∀ input ∈ inputs.map correctRTEAlias,
        query.targetList.length ≤ (getAttributesForJoin input).length := by
    intro _ member
    rcases List.mem_map.mp member with ⟨input, isInput, rfl⟩
    rcases rewritten.origin isInput with
      ⟨rte, isLeaf, sub, sub', subAttrs, kind, related, rfl⟩
    have width := ok.visibleCount_eq isTree isLeaf kind
    have wide := visibleCount_le_originalWidth sub
    have total := (atEnd _ _ _ related).length
    rw [getAttributesForJoin_subquery (correctRTEAlias_kind _)]
    omega
  have created := createJoinsForSetOp_setTop cat stmt
    (by simpa using ok.nonempty) (by omega) (fun isExcept => by
      rw [lengths.1, exactlyTwo isExcept]) enough
  have seen := exists_seenAs_setTop op all nodeOk.targets.numbered
    (List.ne_nil_of_length_pos (by omega)) rewritten
    (fun sub sub' subAttrs related =>
      ⟨numbered _ _ _ related, fun te member => (atEnd _ _ _ related).firstColumns member⟩)
  rcases Option.isSome_iff_exists.mp (provenanceEntries_isSome
    (query.targetList.length + 1) (fun attr member => by
      rcases seen attr member with ⟨varno, varattno, seenAs⟩
      exact seenAs.isSome)) with ⟨pList, added⟩
  simp only [ofTree]
  rw [created]
  split
  · next comparable =>
      refine .of_returns comparable (Returns.orCrash_bind rfl ?_)
      refine (returns_addProvenanceAttrs onStack (by simp; omega) added).bind ?_
      rintro _ popped ⟨unchanged, rfl⟩
      refine Returns.bind (M := fun _ final =>
        final.pStack = pList :: state.pStack)
        (returns_push (by simp [unchanged])) ?_
      intro _ final pushed
      exact Returns.pure ⟨pList, pushed, .intro isTree rewritten added⟩
  · next incomparable => exact .throw_bind incomparable

end Node

end Ldv.Perm
