import Ldv.Perm.SetJoins

/-!
# Runs of the rewriter on nodes with LIMIT

A node with LIMIT that is joined with its rewritten copy needs, besides the
rewrite of the copy, a name for each of its columns and an equality operator
for each of their types.  A target entry which is not selected has no name,
so the rewrite of such a node with an unselected ORDER BY expression fails.
-/

namespace Ldv.Perm

open Ldv.Sql Effect

variable {rte rte' : RTE} {targetList : List TargetEntry}

/-! ## Counting base relations again -/

/-- What counting a reference to an entry reads. -/
def Countable (cat : Catalog) (rte : RTE) : Prop :=
  (∀ label ∈ expandRTENames cat rte, label.isSome = true) ∧ rte.eref.aliasname.isSome = true

/-- References to all base relations below a query can be counted. -/
def BasesCountable (cat : Catalog) (query : Query) : Prop :=
  ∀ rte ∈ findBaseRelationsForProvenanceQuery query, Countable cat rte

theorem returns_countBaseRelations (cat : Catalog) {rtes : List RTE}
    (countable : ∀ rte ∈ rtes, Countable cat rte) (state : RewriteState) :
    Returns (countBaseRelations cat rtes) state fun _ final => final.pStack = state.pStack := by
  induction rtes generalizing state with
  | nil => exact Returns.pure rfl
  | cons rte rest ih =>
    rcases countable rte (by simp) with ⟨labels, aliasname⟩
    refine (returns_getQueryRefNum cat true aliasname state).bind ?_
    rintro ⟨refNum, rte'⟩ middle ⟨unchanged, kind, eref, _⟩
    have sameNames : expandRTENames cat rte' = expandRTENames cat rte := by
      rw [expandRTENames, expandRTENames, kind, eref]
    rcases exists_allLabels _ labels with ⟨names, found⟩
    have expanded : expandRTEWithParam cat 1 rte' = some (names, expandRTEVars cat 1 rte') := by
      simp [expandRTEWithParam, sameNames, found]
    apply Returns.orCrash_bind expanded
    exact (ih (fun rte member =>
      countable rte (by simp [member])) middle).mono
        fun _ _ unchanged' => unchanged'.trans unchanged

theorem returns_recountMarkedRTE (cat : Catalog) {query : Query} {aliasName : String}
    (countable : BasesCountable cat query) (state : RewriteState) :
    Returns
      (recountMarkedRTE cat (correctRTEAlias (subqueryRTE query aliasName)))
      state fun _ final => final.pStack = state.pStack := by
  have recount :
      Returns
        (do
          resetRelReferences
          countBaseRelations cat (findBaseRelationsForProvenanceRTE
            (correctRTEAlias (subqueryRTE query aliasName))))
        state fun _ final => final.pStack = state.pStack := by
    refine Returns.bind (M := fun _ final =>
      final.pStack = state.pStack) (Returns.modify rfl) ?_
    intro _ middle unchanged
    exact (returns_countBaseRelations cat countable middle).mono
      fun _ _ unchanged' => unchanged'.trans unchanged
  simp only [recountMarkedRTE, correctRTEAlias_kind]
  simp only [subqueryRTE]
  split
  · split
    all_goals first
      | exact recount
      | exact Returns.pure rfl
  · exact Returns.pure rfl

theorem findBaseRelations_eq_flatMap (query : Query) :
    findBaseRelationsForProvenanceQuery query =
      query.rtable.flatMap findBaseRelationsForProvenanceRTE := by
  have rtableCase (rtable : List RTE) :
      findBaseRelationsForRtable rtable = rtable.flatMap findBaseRelationsForProvenanceRTE := by
    induction rtable with
    | nil => rfl
    | cons rte rest ih =>
      simp [findBaseRelationsForRtable, ih]
  rw [← rtableCase]
  cases query
  rfl

/-- An entry is counted itself, or the base relations below it are. -/
theorem countable_of_mem_findBase {cat : Catalog} {base : RTE}
    (member : base ∈ findBaseRelationsForProvenanceRTE rte)
    (self : rte.isProvBase = true ∨ (∃ relid, rte.kind = .relation relid) → Countable cat rte)
    (below : rte.isProvBase = false → ∀ sub, rte.kind = .subquery sub → BasesCountable cat sub) :
    Countable cat base := by
  rcases rte with ⟨kind, userAlias, eref, isProvBase, provAttrs⟩
  cases isProvBase with
  | true =>
    simp only [findBaseRelationsForProvenanceRTE, List.mem_singleton] at member
    subst member
    exact self (.inl rfl)
  | false =>
    cases kind with
    | relation relid =>
      simp only [findBaseRelationsForProvenanceRTE, List.mem_singleton] at member
      subst member
      exact self (.inr ⟨relid, rfl⟩)
    | subquery query =>
      simp only [findBaseRelationsForProvenanceRTE] at member
      exact below rfl query rfl base member
    | join jointype aliasvars =>
      simp [findBaseRelationsForProvenanceRTE] at member
    | function funcid coltypes =>
      simp [findBaseRelationsForProvenanceRTE] at member
    | values lists =>
      simp [findBaseRelationsForProvenanceRTE] at member

theorem EntryOk.countable {cat : Catalog} (ok : EntryOk cat rte) :
    Countable cat rte :=
  ⟨ok.labels, ok.aliasname⟩

/-- In a well-formed query all base relations can be counted. -/
theorem WellFormed.basesCountable {cat : Catalog} {query : Query}
    (wellFormed : WellFormed cat query) :
    BasesCountable cat query := by
  induction query using Query.subqueryInduction with
  | step query ih =>
    intro base member
    rw [findBaseRelations_eq_flatMap, List.mem_flatMap] at member
    rcases member with ⟨rte, isEntry, found⟩
    refine countable_of_mem_findBase found
      (fun _ => (wellFormed.nodeOk.entries rte isEntry).countable) ?_
    intro _ sub kind
    exact ih rte isEntry sub kind ((Query.everywhere_iff.mp wellFormed).2 rte isEntry sub kind)

theorem Countable.congr {cat : Catalog} (countable : Countable cat rte)
    (kind : rte'.kind = rte.kind) (eref : rte'.eref = rte.eref) :
    Countable cat rte' := by
  rw [Countable, expandRTENames, kind, eref]
  exact countable

/-- Visible columns come first and have names. -/
theorem TargetsOk.visible_name {query : Query} (ok : TargetsOk query) {position : Nat}
    (visible : position < (nonJunk query.targetList).length) :
    ((query.targetList.map TargetEntry.resname).getD position none).isSome = true := by
  have count : position < query.targetList.length :=
    Nat.lt_of_lt_of_le visible (visibleCount_le query)
  have first : query.targetList[position] ∈ query.targetList.take query.visibleCount := by
    rw [List.mem_take_iff_getElem]
    exact ⟨position, by
      have : position < query.visibleCount := visible
      omega, rfl⟩
  have named := ok.named _ (List.getElem_mem count)
  rw [ok.junkLast _ first] at named
  simpa [List.getD_eq_getElem?_getD, count] using named

theorem Countable.correctRTEAlias {cat : Catalog} (countable : Countable cat rte)
    (targets : ∀ sub, rte.kind = .subquery sub → TargetsOk sub) :
    Countable cat (correctRTEAlias rte) := by
  cases kind : rte.kind with
  | subquery sub =>
    refine ⟨?_, ?_⟩
    · intro label member
      simp only [expandRTENames, correctRTEAlias_kind, kind,
        List.mem_map, List.mem_range] at member
      rcases member with ⟨position, visible, rfl⟩
      simp only [Perm.correctRTEAlias, kind]
      exact (targets sub kind).visible_name visible
    · simp only [Perm.correctRTEAlias, kind]
      exact countable.2
  | relation relid => simpa [Perm.correctRTEAlias, kind] using countable
  | join jointype aliasvars =>
    simpa [Perm.correctRTEAlias, kind] using countable
  | function funcid coltypes =>
    simpa [Perm.correctRTEAlias, kind] using countable
  | values lists => simpa [Perm.correctRTEAlias, kind] using countable

theorem correctRTEAlias_isProvBase (rte : RTE) :
    (correctRTEAlias rte).isProvBase = rte.isProvBase := by
  rw [correctRTEAlias]
  split <;> rfl

theorem appendAliasvars_isProvBase (rte : RTE) (pList : List TargetEntry) :
    (appendAliasvars rte pList).isProvBase = rte.isProvBase := by
  rw [appendAliasvars]
  split <;> rfl

theorem AliasExtended.origin {rtable rtable' : List RTE} (extended : AliasExtended rtable rtable')
    (member : rte' ∈ rtable') :
    ∃ rte ∈ rtable, ∃ pList, rte' = appendAliasvars rte pList := by
  induction extended with
  | nil => simp at member
  | cons related rest ih =>
    rcases List.mem_cons.mp member with rfl | member
    · exact ⟨_, by simp, related⟩
    · rcases ih member with ⟨rte, present, known⟩
      exact ⟨rte, by simp [present], known⟩

theorem appendAliasvars_isJoin (rte : RTE) (pList : List TargetEntry) :
    (appendAliasvars rte pList).isJoin = rte.isJoin := by
  rcases rte with ⟨kind, userAlias, eref, isProvBase, provAttrs⟩
  cases kind <;> rfl

theorem hasProvenance_of_isJoin (join : rte.isJoin = true) : hasProvenance rte = false := by
  rcases rte with ⟨kind, userAlias, eref, isProvBase, provAttrs⟩
  cases kind with
  | join jointype aliasvars => rfl
  | _ => contradiction

theorem findBase_of_isJoin (join : rte.isJoin = true)
    (unmarked : rte.isProvBase = false) :
    findBaseRelationsForProvenanceRTE rte = [] := by
  rcases rte with ⟨kind, userAlias, eref, isProvBase, provAttrs⟩
  cases unmarked
  cases kind with
  | join jointype aliasvars => rfl
  | _ => contradiction

section Rewritten

variable
  {cat : Catalog}
  {R : Rel}
  {query query' : Query}
  {pList : List TargetEntry}

theorem InputsFrom.origin {start : Nat} {rtable rtable' : List RTE} {subList : List Nat}
    {lists : List (List TargetEntry)}
    (inputs : InputsFrom cat R start rtable rtable' subList lists) (member : rte' ∈ rtable') :
    rte' ∈ rtable ∨
      ∃ rte ∈ rtable, ∃ rtindex pList,
        isCounted rte = true ∧ EntryShape cat R rtindex rte rte' pList := by
  induction inputs with
  | nil => simp at member
  | other uncounted tail ih =>
    rcases List.mem_cons.mp member with rfl | member
    · exact .inl (by simp)
    · rcases ih member with same | ⟨rte, present, known⟩
      · exact .inl (by simp [same])
      · exact .inr ⟨rte, by simp [present], known⟩
  | counted isInput entry tail ih =>
    rcases List.mem_cons.mp member with rfl | member
    · exact .inr ⟨_, by simp, _, _, isInput, entry⟩
    · rcases ih member with same | ⟨rte, present, known⟩
      · exact .inl (by simp [same])
      · exact .inr ⟨rte, by simp [present], known⟩

/-- The base relations of a rewritten entry can be counted. -/
theorem countable_of_origin (wellFormed : WellFormed cat query)
    (subqueries : ∀ sub sub' subAttrs, R sub sub' subAttrs → BasesCountable cat sub')
    {base : RTE}
    (origin :
      rte' ∈ query.rtable ∨
        ∃ rte ∈ query.rtable, ∃ rtindex pList,
          isCounted rte = true ∧ EntryShape cat R rtindex rte rte' pList)
    (notJoin : rte'.isJoin = false)
    (member : base ∈ findBaseRelationsForProvenanceRTE (correctRTEAlias rte')) :
    Countable cat base := by
  have unchanged {rte rte' : RTE} (present : rte ∈ query.rtable) (kind : rte'.kind = rte.kind)
      (eref : rte'.eref = rte.eref)
      (member : base ∈ findBaseRelationsForProvenanceRTE (correctRTEAlias rte')) :
      Countable cat base := by
    have below {sub : Query}
        (isSub : rte'.kind = .subquery sub) :
        WellFormed cat sub :=
      (Query.everywhere_iff.mp wellFormed).2 rte present sub (kind ▸ isSub)
    refine countable_of_mem_findBase member (fun _ => ?_) ?_
    · exact ((wellFormed.nodeOk.entries rte present).countable.congr kind
        eref).correctRTEAlias fun sub isSub =>
          (below isSub).nodeOk.targets
    · intro _ sub isSub
      rw [correctRTEAlias_kind] at isSub
      exact (below isSub).basesCountable
  rcases origin with present | ⟨rte, present, rtindex, pList, _, entry⟩
  · exact unchanged present rfl rfl member
  · cases entry with
    | kept provenance leaf kind eref attrs => exact unchanged present kind eref member
    | recursed descends related =>
      have unmarked := (wellFormed.nodeOk.entries rte present).rewritten (by simp [descends])
      refine countable_of_mem_findBase member ?_ ?_
      · rw [correctRTEAlias_isProvBase, correctRTEAlias_kind]
        rintro (marked | ⟨relid, isRelation⟩)
        · rw [unmarked] at marked
          contradiction
        · contradiction
      · intro _ sub isSub
        rw [correctRTEAlias_kind] at isSub
        cases isSub
        exact subqueries _ _ _ related

theorem SpjShape.basesCountable (shape : SpjShape cat R query query' pList)
    (wellFormed : WellFormed cat query)
    (subqueries : ∀ sub sub' subAttrs, R sub sub' subAttrs → BasesCountable cat sub') :
    BasesCountable cat query' := by
  cases shape with
  | @intro rtable' rtable'' _ _ _ _ _ inputs joins attrs distinct =>
    intro base member
    rw [findBaseRelations_eq_flatMap, List.mem_flatMap] at member
    rcases member with ⟨rte'', isEntry, found⟩
    rcases (correctJoinRTEs_extends _ joins).origin isEntry with
      ⟨corrected, isCorrected, added, rfl⟩
    rcases List.mem_map.mp isCorrected with ⟨rte', isRewritten, rfl⟩
    have origin := inputs.origin isRewritten
    cases join : rte'.isJoin with
    | false =>
      rw [appendAliasvars_kind_of_not_join added (by
        rwa [isJoin_congr (correctRTEAlias_kind rte')])] at found
      exact countable_of_origin wellFormed subqueries origin join found
    | true =>
      have isEntry : rte' ∈ query.rtable := by
        rcases origin with same | ⟨rte, _, _, _, isInput, entry⟩
        · exact same
        · rw [entry.isJoin_eq isInput] at join
          contradiction
      have unmarked := ((wellFormed.nodeOk.entries rte' isEntry).unmarked
        (hasProvenance_of_isJoin join)).1
      rw [findBase_of_isJoin (by
          rw [appendAliasvars_isJoin, isJoin_congr (correctRTEAlias_kind rte'), join])
        (by rw [appendAliasvars_isProvBase, correctRTEAlias_isProvBase, unmarked])] at found
      simp at found

/-- The base relations of a query over two subqueries. -/
theorem basesCountable_of_pair {top left right : Query} {leftName rightName name : String}
    {jointype : JoinType}
    (rtable : top.rtable = pairRtable cat jointype name left right leftName rightName)
    (leftCountable : BasesCountable cat left) (rightCountable : BasesCountable cat right) :
    BasesCountable cat top := by
  intro base member
  rw [findBaseRelations_eq_flatMap, rtable, pairRtable] at member
  simp only [List.flatMap_cons, List.flatMap_nil, List.append_nil, List.mem_append] at member
  rcases member with member | member | member
  · exact leftCountable base member
  · exact rightCountable base member
  · simp [pairJoinRTE, findBaseRelationsForProvenanceRTE] at member

theorem BasesCountable.congr (countable : BasesCountable cat query)
    (rtable : query'.rtable = query.rtable) :
    BasesCountable cat query' := by
  rw [BasesCountable, findBaseRelations_eq_flatMap, rtable, ← findBaseRelations_eq_flatMap]
  exact countable

theorem SetShape.basesCountable (shape : SetShape cat R query query' pList)
    (wellFormed : WellFormed cat query)
    (subqueries : ∀ sub sub' subAttrs, R sub sub' subAttrs → BasesCountable cat sub') :
    BasesCountable cat query' := by
  cases shape with
  | @intro op all colTypes larg rarg rtable lists _ tree inputs attrs =>
    have ok := wellFormed.nodeOk.setOk (ofTree_setOperations tree)
    intro base member
    rw [findBaseRelations_eq_flatMap, List.mem_flatMap] at member
    rcases member with ⟨rte, isEntry, found⟩
    simp only [setTop, List.cons_append, List.mem_cons, List.mem_append, List.mem_map] at isEntry
    rcases isEntry with rfl | ⟨rte', isInput, rfl⟩ | isJoin
    · exact wellFormed.basesCountable base found
    · rcases inputs.origin isInput with
        ⟨rte, isLeaf, sub, sub', subAttrs, kind, related, rfl⟩
      refine countable_of_mem_findBase found ?_ ?_
      · rw [correctRTEAlias_isProvBase, correctRTEAlias_kind]
        rintro (marked | ⟨relid, isRelation⟩)
        · have descends := (ok.rewritten tree isLeaf kind).2
          rcases isInput_restructure isLeaf with leaf | ⟨_, _, _, rfl⟩
          · rw [← ofTree_rtable tree] at leaf
            have unmarked := (wellFormed.nodeOk.entries rte leaf).rewritten (by simp [descends])
            rw [unmarked] at marked
            contradiction
          · contradiction
        · contradiction
      · intro _ sub isSub
        rw [correctRTEAlias_kind] at isSub
        cases isSub
        exact subqueries _ _ _ related
    · rcases eq_setJoinRTE_of_mem_setJoins isJoin with
        ⟨jointype, columns, rfl⟩
      rw [findBase_of_isJoin rfl rfl] at found
      simp at found

end Rewritten

/-- In a rewritten query all base relations can be counted. -/
theorem Rewritten.basesCountable {cat : Catalog} {n : Nat} {query query' : Query}
    {pList : List TargetEntry} (wellFormed : WellFormed cat query)
    (rewritten : Rewritten cat n query query' pList) :
    BasesCountable cat query' := by
  refine Rewritten.induction (motive := fun _ query' _ => BasesCountable cat query')
    (fun query sub holds reaches => reaches.wellFormed holds) ?_
    wellFormed rewritten
  intro query query' pList wellFormed shape
  have original := wellFormed.basesCountable
  cases shape with
  | spj noAggs noSetOp noLimit shape =>
    exact shape.basesCountable wellFormed fun _ _ _ known => known.2
  | limit noAggs noSetOp limited visible shape =>
    have copy := shape.basesCountable (WellFormed.withoutLimit wellFormed)
      fun _ _ _ known => known.2
    exact basesCountable_of_pair rfl original copy
  | agg aggs shape =>
    cases shape with
    | intro strip named show_ shownNamed order rewritten attrs =>
      exact basesCountable_of_pair rfl (original.congr rfl) (rewritten.2.congr rfl)
  | set noAggs setOp shape =>
    exact shape.basesCountable wellFormed fun _ _ _ known => known.2

/-! ## The join with the original -/

theorem limitTargetList_of_named (start : Nat)
    (named : ∀ te ∈ targetList, te.resname.isSome = true) :
    limitTargetList start targetList =
      some ((targetList.zipIdx start).map fun (te, attno) =>
        { expr := .var 2 attno (exprType te.expr)
          resno := attno
          resname := te.resname
          resjunk := te.resjunk }) := by
  induction targetList generalizing start with
  | nil => rfl
  | cons te rest ih =>
    rcases Option.isSome_iff_exists.mp (named te (by simp)) with
      ⟨resname, given⟩
    rw [limitTargetList, given, ih (start + 1) fun te member => named te (by simp [member])]
    simp [List.zipIdx_cons, given]

theorem limitTargetList_of_unnamed (start : Nat) {te : TargetEntry}
    (member : te ∈ targetList) (unnamed : te.resname = none) :
    limitTargetList start targetList = none := by
  induction targetList generalizing start with
  | nil => simp at member
  | cons first rest ih =>
    rcases List.mem_cons.mp member with rfl | member
    · simp [limitTargetList, unnamed]
    · cases given : first.resname <;>
        simp [limitTargetList, given, ih _ member]

theorem getAllInList_range' {Elem : Type} (front list : List Elem) {count : Nat}
    (enough : count ≤ list.length) :
    getAllInList (front ++ list) (List.range' front.length count) = some (list.take count) := by
  induction count generalizing front list with
  | zero => simp [getAllInList]
  | succ count ih =>
    cases list with
    | nil => simp at enough
    | cons elem rest =>
      have tail := ih (front ++ [elem]) rest (by simpa using enough)
      simp only [List.append_assoc, List.singleton_append,
        List.length_append, List.length_singleton] at tail
      simp [List.range'_succ, getAllInList, tail]

theorem getAllInList_range {Elem : Type} {list : List Elem} {count : Nat}
    (enough : count ≤ list.length) :
    getAllInList list (List.range count) = some (list.take count) := by
  rw [List.range_eq_range']
  exact getAllInList_range' [] list enough

/-- The columns of both sides are compared pairwise. -/
theorem zip_columns {extra : List TargetEntry} :
    (((targetList.zipIdx 1).map fun (te, attno) =>
        Expr.var 1 attno (exprType te.expr)).take targetList.length).zip
      ((((targetList ++ extra).zipIdx 1).map fun (te, attno) =>
        Expr.var 2 attno (exprType te.expr)).take targetList.length) =
      columnPairs targetList := by
  rw [List.zipIdx_append, List.map_append, List.take_left' (by simp),
    List.take_of_length_le (by simp), List.zip_map', columnPairs]

/-- A result with hidden or incomparable columns cannot be joined. -/
def LimitOk (cat : Catalog) (query : Query) : Prop :=
  ∀ te ∈ query.targetList, te.resjunk = false ∧ (cat.equalityOper (exprType te.expr)).isSome = true

theorem columnPairs_comparable (cat : Catalog) (targetList : List TargetEntry) :
    (∀ pair ∈ columnPairs targetList,
      (cat.equalityOper (exprType pair.1)).isSome = true) ↔
      ∀ te ∈ targetList, (cat.equalityOper (exprType te.expr)).isSome = true := by
  have types :
      (columnPairs targetList).map (fun pair => exprType pair.1) =
        targetList.map fun te => exprType te.expr := by
    rw [columnPairs, List.map_map]
    exact map_zipIdx_fst (fun te : TargetEntry => exprType te.expr) _ 1
  have mapped := List.forall_mem_map
    (f := fun pair : Expr × Expr => exprType pair.1) (l := columnPairs targetList)
    (P := fun type => (cat.equalityOper type).isSome = true)
  rw [← mapped, types, List.forall_mem_map]

section Limit

variable
  {cat : Catalog}
  {recur : Query → Rewrite Query}
  {R : Rel}
  {C : Query → Prop}
  {query : Query}

/-- Joining a query with its rewritten copy on all of its columns. -/
theorem decides_createJoinOnAttrs {top copy : Query} {extra : List TargetEntry}
    (rtable :
      top.rtable = [
        correctRTEAlias (subqueryRTE query "originalQuery"),
        correctRTEAlias (subqueryRTE copy "rewrittenQuery")])
    (targetList : copy.targetList = query.targetList ++ extra)
    (visible : ∀ te ∈ copy.targetList, te.resjunk = false) (countable : BasesCountable cat query)
    (copyCountable : BasesCountable cat copy) (state : RewriteState) :
    Decides
      (createJoinOnAttrs cat top .inner 1 2
        (List.range query.targetList.length)
        (List.range query.targetList.length))
      state
      (∀ te ∈ query.targetList, (cat.equalityOper (exprType te.expr)).isSome = true)
      fun result final => final.pStack = state.pStack ∧
        result =
          ({ top with rtable := top.rtable ++ [joinRTE .inner] },
            .joinExpr .inner 3 (.rangeTblRef 1) (.rangeTblRef 2)
              (some (.boolExpr .and ((columnPairs query.targetList).map notDistinct)))) := by
  have originalVisible : ∀ te ∈ query.targetList, te.resjunk = false := by
    intro te member
    exact visible te (by rw [targetList]; simp [member])
  have leftPresent :
      rtFetch (top.rtable ++ [joinRTE .inner]) 1 =
        some (correctRTEAlias (subqueryRTE query "originalQuery")) := by
    rw [rtable]
    rfl
  have rightPresent :
      rtFetch (top.rtable ++ [joinRTE .inner]) 2 =
        some (correctRTEAlias (subqueryRTE copy "rewrittenQuery")) := by
    rw [rtable]
    rfl
  have leftVars := expandRTEVars_subqueryRTE cat 1 originalVisible "originalQuery"
  have rightVars := expandRTEVars_subqueryRTE cat 2 visible "rewrittenQuery"
  rw [targetList] at rightVars
  apply Decides.orCrash_bind leftPresent
  refine (returns_recountMarkedRTE cat countable state).bind_decides ?_
  intro _ middle unchanged
  apply Decides.orCrash_bind rightPresent
  refine (returns_recountMarkedRTE cat copyCountable middle).bind_decides ?_
  intro _ final unchanged'
  rw [leftVars, rightVars]
  apply Decides.orCrash_bind (getAllInList_range (by simp))
  apply Decides.orCrash_bind (getAllInList_range (by simp))
  rw [zip_columns, notDistinctConditions_eq]
  simp only [columnPairs_comparable]
  split
  · next comparable =>
      refine .of_returns comparable (Returns.pure ?_)
      refine ⟨unchanged'.trans unchanged, ?_⟩
      simp [rtable]
  · next incomparable => exact .throw incomparable

/-- Rewriting a node with LIMIT that is joined with its copy. -/
theorem decides_handleLimit (wellFormed : WellFormed cat query)
    (push : InputsPush query.rtable) (noSetOp : query.setOperations = none)
    (recurs :
      ∀ rte ∈ query.rtable, isCounted rte = true →
        ∀ sub, recursesInto rte = some sub → RecursOn recur R C sub)
    (attrsOf : KnowsAttrs cat R)
    (countable : ∀ sub sub' subAttrs, R sub sub' subAttrs → BasesCountable cat sub')
    (state : RewriteState) :
    Decides (handleLimit cat recur query) state
      (((∀ rte ∈ query.rtable, isCounted rte = true →
        ∀ sub, recursesInto rte = some sub → C sub) ∧
        DistinctOk cat query) ∧ LimitOk cat query)
      fun query' final => ∃ pList rewrittenQuery,
        final.pStack = pList :: state.pStack ∧
          (∀ te ∈ query.targetList, te.resjunk = false) ∧
          SpjShape cat R (withoutLimit query) rewrittenQuery pList ∧
          query' = limitTop cat query rewrittenQuery := by
  have ok := wellFormed.nodeOk
  have copy :
      Decides (rewriteSPJrestrict cat recur (withoutLimit query)) state
        ((∀ rte ∈ query.rtable, isCounted rte = true → ∀ sub, recursesInto rte = some sub → C sub) ∧
          DistinctOk cat query)
        fun rewrittenQuery final => ∃ pList,
          final.pStack = pList :: state.pStack ∧
            SpjShape cat R (withoutLimit query) rewrittenQuery pList := by
    refine (decides_rewriteSPJrestrict (C := C) ?_ ?_ ?_ ?_ attrsOf
      state).mono ?_ fun _ _ _ holds => holds
    · exact ok.entries
    · exact push
    · exact (ok.selectOk noSetOp).withoutLimit
    · exact recurs
    · rw [DistinctOk, DistinctOk, provTypes_eq, provTypes_eq]
      rfl
  refine copy.bind ?_
  rintro _ rewrittenQuery middle ⟨pList, pushed, shape⟩
  have attrs := shape.attrsOf attrsOf
  have copyCountable := shape.basesCountable (WellFormed.withoutLimit wellFormed) countable
  have targetList : rewrittenQuery.targetList = query.targetList ++ pList := by
    cases shape
    rfl
  by_cases visible : ∀ te ∈ query.targetList, te.resjunk = false
  · have named : ∀ te ∈ query.targetList, te.resname.isSome = true := by
      intro te member
      rw [ok.targets.named te member, visible te member]
      rfl
    have copyVisible : ∀ te ∈ rewrittenQuery.targetList, te.resjunk = false := by
      rw [targetList]
      exact List.forall_mem_append.mpr ⟨visible, attrs.visible⟩
    have copyNamed : ∀ te ∈ rewrittenQuery.targetList, te.resname.isSome = true := by
      rw [targetList]
      intro te member
      rcases List.mem_append.mp member with member | member
      · exact named te member
      · exact attrs.named te member
    apply Decides.orCrash_bind (limitTargetList_of_named 1 copyNamed)
    refine ((decides_createJoinOnAttrs rfl targetList copyVisible
      wellFormed.basesCountable copyCountable middle).bind_returns
        ?_).mono ?_ fun _ _ _ holds => holds
    · rintro _ _ final ⟨unchanged, rfl⟩
      rcases exists_labels_subqueryRTE cat query visible named
        "originalQuery" with ⟨leftNames, leftLabels⟩
      rcases exists_labels_subqueryRTE cat rewrittenQuery copyVisible
        copyNamed "rewrittenQuery" with ⟨rightNames, rightLabels⟩
      refine returns_orCrash (adaptRTEsForJoins_pair rfl leftLabels rightLabels) ?_
      exact ⟨pList, rewrittenQuery, unchanged.trans pushed, visible, shape,
        rfl⟩
    · exact ⟨fun holds te member => (holds te member).2,
        fun holds te member => ⟨visible te member, holds te member⟩⟩
  · have hidden : ∃ te ∈ query.targetList, te.resjunk = true := by
      simpa using visible
    rcases hidden with ⟨te, member, junk⟩
    have unnamed : te.resname = none := by
      have named := ok.targets.named te member
      rw [junk] at named
      simpa using named
    have missing : limitTargetList 1 rewrittenQuery.targetList = none :=
      limitTargetList_of_unnamed 1 (by rw [targetList]; simp [member]) unnamed
    rw [missing]
    exact Decides.throw_bind fun holds =>
      visible fun te member => (holds te member).1

end Limit

end Ldv.Perm
