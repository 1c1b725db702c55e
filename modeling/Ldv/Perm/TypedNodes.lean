import Ldv.Perm.Types

/-!
# Rewritten queries are typed

The joins of a node with its rewritten form compare columns of one type, and
their alias columns lead to columns of the type they had.  With the typing
of select-project-join nodes this covers all nodes: the rewrite of a typed
and aligned query is typed.
-/

namespace Ldv.Perm

open Ldv.Sql

/-! ## The join of two queries -/

section Pair

variable
  {cat : Catalog}
  {left right : Query}
  {jointype : JoinType}
  {name leftName rightName : String}

theorem typeAt_pair_left (attno : Nat) :
    typeAt cat (pairRtable cat jointype name left right leftName rightName) 1 attno =
      (rtFetch left.targetList attno).map fun te => exprType te.expr :=
  @columnType_subquery cat _ _ (correctRTEAlias_kind (subqueryRTE left leftName)) attno

theorem typeAt_pair_right (attno : Nat) :
    typeAt cat (pairRtable cat jointype name left right leftName rightName) 2 attno =
      (rtFetch right.targetList attno).map fun te => exprType te.expr :=
  @columnType_subquery cat _ _ (correctRTEAlias_kind (subqueryRTE right rightName)) attno

theorem exprTyped_columnVars {rtable : List RTE} {rtindex : Nat} {targetList : List TargetEntry}
    (found :
      ∀ attno, typeAt cat rtable rtindex attno =
        (rtFetch targetList attno).map fun te => exprType te.expr) :
    ∀ expr ∈ columnVars rtindex targetList, ExprTyped cat rtable expr := by
  intro expr member
  rcases List.mem_map.mp member with ⟨⟨te, attno⟩, isColumn, rfl⟩
  have fetched := rtFetch_eq_some_iff.mpr (List.mk_mem_zipIdx_iff_le_and_getElem?_sub.mp isColumn)
  rw [exprTyped_var_iff, found, fetched, Option.map_some]

/-- The alias columns of the join are typed. -/
theorem exprTyped_pairAliases (leftVisible : ∀ te ∈ left.targetList, te.resjunk = false)
    (rightVisible : ∀ te ∈ right.targetList, te.resjunk = false) {top : Query}
    (rtable : top.rtable = pairRtable cat jointype name left right leftName rightName) :
    ∀ expr ∈ aliasvarsAt top.rtable 3, ExprTyped cat top.rtable expr := by
  intro expr isAlias
  rw [aliasvarsAt_pair cat leftVisible rightVisible rtable] at isAlias
  rw [rtable]
  rcases List.mem_append.mp isAlias with inLeft | inRight
  · exact exprTyped_columnVars typeAt_pair_left expr inLeft
  · exact exprTyped_columnVars typeAt_pair_right expr inRight

/-- The attributes of the second query are typed at the top. -/
theorem exprTyped_pairEntries (leftVisible : ∀ te ∈ left.targetList, te.resjunk = false)
    (rightVisible : ∀ te ∈ right.targetList, te.resjunk = false) {top : Query} {quals : Option Expr}
    (rtable : top.rtable = pairRtable cat jointype name left right leftName rightName)
    (fromlist : top.fromlist = [.joinExpr jointype 3 (.rangeTblRef 1) (.rangeTblRef 2) quals])
    {start : Nat} {rightAttrs pList : List TargetEntry}
    (added : provenanceEntries top start (attributesOf [2] [rightAttrs]) = some pList)
    (columns :
      ∀ te ∈ rightAttrs, FirstColumns right.targetList.length te.resno ∧
        (rtFetch right.targetList te.resno).map (fun te => exprType te.expr) =
          some (exprType te.expr)) :
    ∀ te ∈ pList, ExprTyped cat top.rtable te.expr := by
  have ofRight {attr : Nat × TargetEntry} (inside : attr ∈ attributesOf [2] [rightAttrs]) :
      attr.1 = 2 ∧ attr.2 ∈ rightAttrs := by
    simp only [attributesOf, List.zip_cons_cons, List.zip_nil_right, List.flatMap_cons,
      List.flatMap_nil, List.append_nil, List.mem_map] at inside
    rcases inside with ⟨te, isTe, rfl⟩
    exact ⟨rfl, isTe⟩
  refine provenanceEntries_typed added (fun attr inside => ?_) (fun join isJoin => ?_)
    (fun attr inside => ?_)
  · rcases ofRight inside with ⟨isSecond, isTe⟩
    rw [isSecond]
    exact ⟨3, exists_seenAs_pair fromlist (aliasvarsAt_pair cat leftVisible rightVisible rtable)
      (columns _ isTe).1⟩
  · have isThird : join = 3 := by simpa [fromlist, JoinTreeNode.joins] using isJoin
    rw [isThird]
    exact exprTyped_pairAliases leftVisible rightVisible rtable
  · rcases ofRight inside with ⟨isSecond, isTe⟩
    rw [isSecond, rtable]
    exact (typeAt_pair_right attr.2.resno).trans (columns _ isTe).2

/-- The query over two typed queries is typed if its own expressions are. -/
theorem typed_pairTop (leftVisible : ∀ te ∈ left.targetList, te.resjunk = false)
    (rightVisible : ∀ te ∈ right.targetList, te.resjunk = false)
    {quals : Expr} {targetList : List TargetEntry} (sortClause : List SortClause)
    (condition :
      ExprTyped cat (pairRtable cat jointype name left right leftName rightName) quals)
    (targets :
      ∀ te ∈ targetList,
        ExprTyped cat (pairRtable cat jointype name left right leftName rightName) te.expr)
    (leftTyped : Typed cat left) (rightTyped : Typed cat right) :
    Typed cat (pairTop cat jointype name (correctRTEAlias (subqueryRTE left leftName))
      (correctRTEAlias (subqueryRTE right rightName)) quals targetList sortClause) := by
  refine Query.everywhere_iff.mpr ⟨fun expr member => ?_, ?_⟩
  · rcases mem_nodeExprs.mp member with
      ⟨te, isEntry, rfl⟩ | isQual | isQual | ⟨item, isItem, inside⟩ | ⟨join, isJoin, isAlias⟩
    · exact targets te isEntry
    · cases isQual
    · cases isQual
    · rw [List.mem_singleton.mp isItem] at inside
      rw [List.mem_singleton.mp inside]
      exact condition
    · have isThird : join = 3 := by simpa [pairTop, JoinTreeNode.joins] using isJoin
      rw [isThird] at isAlias
      exact exprTyped_pairAliases leftVisible rightVisible rfl expr isAlias
  · intro rte member sub kind
    simp only [pairTop, List.mem_cons, List.not_mem_nil, or_false] at member
    rcases member with rfl | rfl | rfl
    · rw [correctRTEAlias_kind] at kind
      cases kind
      exact leftTyped
    · rw [correctRTEAlias_kind] at kind
      cases kind
      exact rightTyped
    · cases kind

/-! ## Nodes with LIMIT -/

theorem typed_limitTop {query rewrittenQuery : Query} {pList : List TargetEntry}
    (visible : ∀ te ∈ query.targetList, te.resjunk = false)
    (attrs : ∀ te ∈ pList, te.resjunk = false)
    (targetList : rewrittenQuery.targetList = query.targetList ++ pList)
    (typed : Typed cat query) (rewrittenTyped : Typed cat rewrittenQuery) :
    Typed cat (limitTop cat query rewrittenQuery) := by
  refine typed_pairTop visible ?_ [] ?_ ?_ typed rewrittenTyped
  · rw [targetList]
    exact fun te member => (List.mem_append.mp member).elim (visible te) (attrs te)
  · refine exprTyped_boolExpr (fun condition member => ?_) .and
    rcases List.mem_map.mp member with ⟨_, isPair, rfl⟩
    rcases List.mem_map.mp isPair with ⟨⟨te, attno⟩, isColumn, rfl⟩
    rcases List.mk_mem_zipIdx_iff_le_and_getElem?_sub.mp isColumn with ⟨positive, present⟩
    have inside := (List.getElem?_eq_some_iff.mp present).1
    refine exprTyped_notDistinct ?_ ?_ rfl
    · rw [exprTyped_var_iff, typeAt_pair_left, rtFetch_eq_some_iff.mpr ⟨positive, present⟩,
        Option.map_some]
    · have present' : rewrittenQuery.targetList[attno - 1]? = some te := by
        rw [targetList, List.getElem?_append_left inside, present]
      rw [exprTyped_var_iff, typeAt_pair_right, rtFetch_eq_some_iff.mpr ⟨positive, present'⟩,
        Option.map_some]
  · intro te member
    rcases List.mem_map.mp member with ⟨⟨te', attno⟩, isColumn, rfl⟩
    have fetched := rtFetch_eq_some_iff.mpr (List.mk_mem_zipIdx_iff_le_and_getElem?_sub.mp isColumn)
    rw [exprTyped_var_iff, typeAt_pair_right, fetched, Option.map_some]

end Pair

/-! ## Aggregation nodes -/

section Aggregation

variable
  {cat : Catalog}
  {query query' : Query}
  {pList stripped : List TargetEntry}

theorem map_eq_of_mem_zip {α β : Type} {f : α → β} {left right : List α}
    (same : left.map f = right.map f) {pair : α × α} (member : pair ∈ left.zip right) :
    f pair.1 = f pair.2 := by
  rcases List.mem_iff_getElem?.mp member with ⟨position, present⟩
  rw [List.getElem?_zip_eq_some] at present
  have images := congrArg (fun list => list[position]?) same
  simpa only [List.getElem?_map, present.1, present.2, Option.map_some, Option.some.injEq]
    using images

theorem eq_of_refersOnce {targetList : List TargetEntry} {ref : Nat} {te te' : TargetEntry}
    (once : RefersOnce targetList ref) (member : te ∈ targetList) (member' : te' ∈ targetList)
    (refers : te.ressortgroupref = ref) (refers' : te'.ressortgroupref = ref) : te = te' := by
  rcases List.mem_iff_getElem?.mp member with ⟨position, present⟩
  rcases List.mem_iff_getElem?.mp member' with ⟨position', present'⟩
  have found := findIdx?_of_refersOnce once present refers
  rw [findIdx?_of_refersOnce once present' refers', Option.some.injEq] at found
  rw [found, present] at present'
  exact Option.some.inj present'

/-- The grouping entries are the entries which are not aggregated. -/
theorem getGroupByTLEs_perm (ok : NodeOk cat query) (select : SelectOk cat query)
    (aligned : NodeAligned cat query) (aggs : query.hasAggs = true) :
    (getGroupByTLEs query).Perm (query.targetList.filter fun te => !isAggrExpr te.expr) := by
  have nodup : query.targetList.Nodup := by
    refine List.Nodup.of_map TargetEntry.resno ?_
    rw [ok.targets.numbered]
    exact List.nodup_range'
  have groupsNodup : (getGroupByTLEs query).Nodup := by
    refine List.nodup_flatMap.mpr ⟨fun _ _ => nodup.filter _, ?_⟩
    have refs := List.pairwise_map.mp (aligned.groups aggs)
    refine refs.imp fun different te inFirst inSecond => different ?_
    have first := (List.mem_filter.mp inFirst).2
    have second := (List.mem_filter.mp inSecond).2
    rw [beq_iff_eq] at first second
    rw [← first, second]
  refine (List.perm_ext_iff_of_nodup groupsNodup (nodup.filter _)).mpr fun te => ?_
  rw [List.mem_filter, Bool.not_eq_true']
  constructor
  · intro member
    rcases List.mem_flatMap.mp member with ⟨_, _, found⟩
    exact ⟨(List.mem_filter.mp found).1, (select.grouping te member).2⟩
  · rintro ⟨member, plain⟩
    rcases List.mem_map.mp (aligned.grouped aggs te member plain) with ⟨clause, isClause, refers⟩
    exact List.mem_flatMap.mpr
      ⟨clause, isClause, List.mem_filter.mpr ⟨member, beq_iff_eq.mpr refers.symm⟩⟩

/-- What two entries are paired by, and the type of their comparison. -/
def groupKey (te : TargetEntry) : Nat × Oid := (te.ressortgroupref, exprType te.expr)

theorem sorted_groupKey (targetList : List TargetEntry) :
    ((sortTargetListOnGroupBy targetList).map groupKey).Pairwise fun left right =>
      left.1 ≤ right.1 := by
  refine List.pairwise_map.mpr ?_
  refine (sorts_sortList (comparison_compareOn _) true targetList).ordered.imp fun ordered => ?_
  simp only [compareOn, if_true, Ne] at ordered
  by_contra greater
  simp only [groupKey, not_le] at greater
  exact ordered (if_pos (by exact_mod_cast greater))

/-- The two sides of the join condition have the same types. -/
theorem joinAttributes_types (ok : NodeOk cat query) (select : SelectOk cat query)
    (aligned : NodeAligned cat query) (aggs : query.hasAggs = true)
    (strip : SameButNames stripped (strippedEntries query.targetList)) :
    (sortTargetListOnGroupBy (getGroupByTLEs query)).map groupKey =
      (sortTargetListOnGroupBy stripped).map groupKey := by
  have keys : stripped.map groupKey =
      (query.targetList.filter fun te => !isAggrExpr te.expr).map groupKey := by
    rw [strip.map_eq groupKey fun _ => rfl, strippedEntries, List.map_map]
    exact map_zipIdx_fst groupKey _ 1
  have perm : ((sortTargetListOnGroupBy (getGroupByTLEs query)).map groupKey).Perm
      ((sortTargetListOnGroupBy stripped).map groupKey) := by
    refine ((sortTargetListOnGroupBy_perm _).map groupKey).trans ?_
    refine .trans ?_ ((sortTargetListOnGroupBy_perm stripped).map groupKey).symm
    rw [keys]
    exact (getGroupByTLEs_perm ok select aligned aggs).map groupKey
  refine perm.eq_of_pairwise (fun left right isLeft isRight below above => ?_)
    (sorted_groupKey _) (sorted_groupKey _)
  have entry {key : Nat × Oid}
      (member : key ∈ (sortTargetListOnGroupBy (getGroupByTLEs query)).map groupKey) :
      ∃ te ∈ query.targetList, groupKey te = key ∧ RefersOnce query.targetList key.1 := by
    rcases List.mem_map.mp member with ⟨te, isEntry, rfl⟩
    rw [(sortTargetListOnGroupBy_perm _).mem_iff] at isEntry
    rcases List.mem_flatMap.mp isEntry with ⟨clause, isClause, found⟩
    have refers := ok.targets.refers clause (by simp [isClause])
    rw [← beq_iff_eq.mp (List.mem_filter.mp found).2] at refers
    exact ⟨te, (List.mem_filter.mp found).1, rfl, refers⟩
  rcases entry isLeft with ⟨te, isEntry, rfl, once⟩
  rcases entry (perm.mem_iff.mpr isRight) with ⟨te', isEntry', rfl, _⟩
  rw [eq_of_refersOnce once isEntry isEntry' rfl (le_antisymm above below)]

/-- Another target list with the same expressions does not matter. -/
theorem Typed.withTargets (typed : Typed cat query) {targetList : List TargetEntry}
    (exprs : targetList.map TargetEntry.expr = query.targetList.map TargetEntry.expr)
    (shouldRewrite : Bool) :
    Typed cat { query with targetList := targetList, shouldRewrite := shouldRewrite } := by
  rcases Query.everywhere_iff.mp typed with ⟨node, below⟩
  refine Query.everywhere_iff.mpr ⟨fun expr member => node expr ?_, below⟩
  simp only [nodeExprs, exprs] at member
  exact member

theorem AggShape.typed (shape : AggShape cat (RewrittenTyped cat) query query' pList)
    (ok : NodeOk cat query) (aligned : NodeAligned cat query) (aggs : query.hasAggs = true)
    (typed : Typed cat query) : Typed cat query' := by
  have select := ok.selectOk (ok.setOperations_eq_none aggs)
  cases shape with
  | @intro stripped shown sortClause input inputAttrs _ originalName inputName strip named show_
      shownNamed order rewritten attrs =>
    let input' : Query := { input with shouldRewrite := false }
    have shownVisible : ∀ te ∈ shown, te.resjunk = false :=
      show_.visible (List.forall_mem_map.mpr fun _ _ => rfl)
    have strippedVisible : ∀ te ∈ stripped, te.resjunk = false :=
      strip.visible (List.forall_mem_map.mpr fun _ _ => rfl)
    have inputVisible : ∀ te ∈ input'.targetList, te.resjunk = false :=
      rewritten.visible (List.forall_mem_map.mpr strippedVisible)
    have inputTyped : Typed cat input' := rewritten.typed.withTargets rfl false
    let rtable := pairRtable cat .left "joinAggAndRewrite" (originalAggregation query shown) input'
      originalName inputName
    have exprs : shown.map TargetEntry.expr = query.targetList.map TargetEntry.expr := by
      rw [show_.map_eq TargetEntry.expr fun _ => rfl, List.map_map]
      rfl
    have fromShown {te : TargetEntry} (member : te ∈ query.targetList) :
        ExprTyped cat rtable (.var 1 te.resno (exprType te.expr)) := by
      have types : shown.map (fun te => exprType te.expr) =
          query.targetList.map fun te => exprType te.expr := by
        simpa only [List.map_map, Function.comp_def] using congrArg (List.map exprType) exprs
      rw [exprTyped_var_iff, typeAt_pair_left, ← rtFetch_map, originalAggregation, types,
        rtFetch_map, rtFetch_numbered ok.targets.numbered member, Option.map_some]
    have fromStripped {te : TargetEntry} (member : te ∈ stripped) :
        ExprTyped cat rtable (.var 2 te.resno (exprType te.expr)) := by
      have fetched := rtFetch_numbered (targetsOk_aggregationInput strip named).numbered
        (List.mem_map_of_mem (f := fun te => { te with ressortgroupref := 0 }) member)
      rw [exprTyped_var_iff, typeAt_pair_right, rewritten.rtFetch_type]
      exact congrArg _ (rtFetch_append fetched inputAttrs)
    refine typed_pairTop shownVisible inputVisible sortClause ?_ ?_ ?_ inputTyped
    · refine exprTyped_conjunction fun condition isCondition => ?_
      rcases List.mem_map.mp isCondition with ⟨_, isPair, rfl⟩
      rcases List.mem_map.mp isPair with ⟨⟨left, right⟩, paired, rfl⟩
      have isLeft := (sortTargetListOnGroupBy_perm _).mem_iff.mp (List.of_mem_zip paired).1
      have isRight := (sortTargetListOnGroupBy_perm _).mem_iff.mp (List.of_mem_zip paired).2
      rcases List.mem_flatMap.mp isLeft with ⟨_, _, inTargets⟩
      refine exprTyped_notDistinct (fromShown (List.mem_filter.mp inTargets).1)
        (fromStripped isRight) ?_
      have keys := joinAttributes_types ok select aligned aggs strip
      exact congrArg Prod.snd (map_eq_of_mem_zip keys paired)
    · intro te member
      rcases List.mem_append.mp member with isVisible | isAttr
      · rcases List.mem_map.mp isVisible with ⟨⟨te', resno⟩, numbered, rfl⟩
        exact fromShown (List.mem_filter.mp (List.fst_mem_of_mem_zipIdx numbered)).1
      · exact exprTyped_pairEntries shownVisible inputVisible rfl rfl attrs
          (fun te isTe => ⟨rewritten.atEnd.firstColumns isTe, rewritten.attr isTe⟩) te isAttr
    · exact typed.withTargets exprs false

end Aggregation

/-! ## Set-operation nodes -/

section SetOperation

variable
  {cat : Catalog}
  {query query' : Query}
  {pList : List TargetEntry}
  {rtable : List RTE}
  {rte : RTE}
  {types : List Oid}

/-- The numbers of all columns of an entry are those of columns of their type. -/
def ColumnsTyped (cat : Catalog) (rte : RTE) : Prop :=
  ∀ te ∈ getAttributesForJoin rte, columnType cat rte te.resno = some (exprType te.expr)

theorem columnsTyped_subquery {sub : Query} (kind : rte.kind = .subquery sub)
    (numbered : sub.targetList.map TargetEntry.resno = List.range' 1 sub.targetList.length) :
    ColumnsTyped cat rte := by
  intro te member
  rw [getAttributesForJoin_subquery kind] at member
  rw [columnType_subquery kind, rtFetch_numbered numbered member, Option.map_some]

theorem columnsTyped_setJoinRTE (jointype : JoinType) (columns : List (Expr × Option String)) :
    ColumnsTyped cat (setJoinRTE jointype columns) := by
  intro te member
  rw [getAttributesForJoin_setJoinRTE] at member
  rcases List.mem_map.mp member with ⟨⟨column, attno⟩, isColumn, rfl⟩
  rcases List.mk_mem_zipIdx_iff_le_and_getElem?_sub.mp isColumn with ⟨positive, present⟩
  have fetched : rtFetch (columns.map fun column => column.1) attno = some column.1 := by
    rw [rtFetch_map, rtFetch_eq_some_iff.mpr ⟨positive, present⟩, Option.map_some]
  exact congrArg (Option.map exprType) fetched

/-- A column of an entry, seen from the list position of the entry. -/
theorem ColumnsTyped.exprTyped (columns : ColumnsTyped cat rte) {rtindex : Nat}
    (present : rtFetch rtable rtindex = some rte) {te : TargetEntry}
    (member : te ∈ getAttributesForJoin rte) :
    ExprTyped cat rtable (.var (rtindex - 1 + 1) te.resno (exprType te.expr)) := by
  rw [Nat.sub_add_cancel (rtFetch_eq_some_iff.mp present).1, exprTyped_var_iff, typeAt, present,
    Option.bind_some]
  exact columns te member

/-- The condition of a join of two entries with columns of the same types. -/
theorem exprTyped_linkQuals {left right : RTE} {leftIndex rightIndex : Nat}
    (leftPresent : rtFetch rtable leftIndex = some left)
    (rightPresent : rtFetch rtable rightIndex = some right) (leftColumns : ColumnsTyped cat left)
    (rightColumns : ColumnsTyped cat right) (leftCarries : CarriesTypes types left)
    (rightCarries : CarriesTypes types right) (matching : Matching) :
    ∀ expr ∈ linkQuals types.length (leftIndex - 1) (rightIndex - 1) left right matching,
      ExprTyped cat rtable expr := by
  have condition (neq : Bool) :
      ∀ expr ∈ setCondition types.length (leftIndex - 1) (rightIndex - 1) left right neq,
        ExprTyped cat rtable expr := by
    intro expr isCondition
    rcases Option.map_eq_some_iff.mp isCondition with ⟨conjunction, isConjunction, equal⟩
    have typed : ExprTyped cat rtable conjunction := by
      refine exprTyped_createAndFromList (fun _ member => ?_) _ isConjunction
      rcases List.mem_map.mp member with ⟨_, isPair, rfl⟩
      rcases List.mem_map.mp isPair with ⟨⟨first, second⟩, paired, rfl⟩
      have isFirst := List.mem_of_mem_take (List.of_mem_zip paired).1
      have isSecond := List.mem_of_mem_take (List.of_mem_zip paired).2
      refine exprTyped_notDistinct (leftColumns.exprTyped leftPresent isFirst)
        (rightColumns.exprTyped rightPresent isSecond) ?_
      exact map_eq_of_mem_zip (leftCarries.trans rightCarries.symm) paired
    cases neq with
    | false => exact equal ▸ typed
    | true => exact equal ▸ exprTyped_boolExpr (by simpa using typed) .not
  cases matching with
  | equal => exact condition false
  | different => exact condition true
  | any =>
    intro expr isConst
    cases isConst
    exact exprTyped_const cat rtable _ _

/-- What a chain of joins needs to know of an entry. -/
def LinkTyped (cat : Catalog) (types : List Oid) (rte : RTE) : Prop :=
  ColumnsTyped cat rte ∧ CarriesTypes types rte

theorem JoinChain.typed {links : List Link} {node : JoinTreeNode}
    (chain : JoinChain rtable types.length links node)
    (leaves : ∀ leaf ∈ node.leaves, ∀ rte, rtFetch rtable leaf = some rte →
      LinkTyped cat types rte) :
    (∀ rte, rtFetch rtable node.rtindex = some rte → LinkTyped cat types rte) ∧
      (∀ expr ∈ joinQuals node, ExprTyped cat rtable expr) ∧
      ∀ join ∈ node.joins, ∀ expr ∈ aliasvarsAt rtable join, ExprTyped cat rtable expr := by
  induction chain with
  | start =>
    exact ⟨leaves 1 (by simp [JoinTreeNode.leaves]), by simp [joinQuals],
      by simp [JoinTreeNode.joins]⟩
  | @link links node link rtindex left right chain leftPresent rightPresent join freshInput
      freshJoin distinct ih =>
    rcases ih fun leaf member => leaves leaf (by simp [JoinTreeNode.leaves, member]) with
      ⟨top, quals, aliases⟩
    rcases top left leftPresent with ⟨leftColumns, leftCarries⟩
    rcases leaves link.input (by simp [JoinTreeNode.leaves]) right rightPresent with
      ⟨rightColumns, rightCarries⟩
    refine ⟨fun rte present => ?_, fun expr member => ?_, fun other isJoin expr isAlias => ?_⟩
    · rw [JoinTreeNode.rtindex, join] at present
      cases present
      exact ⟨columnsTyped_setJoinRTE _ _, leftCarries.setJoinRTE _ _ _⟩
    · simp only [joinQuals, List.append_nil, List.mem_append, Option.mem_toList] at member
      rcases member with inside | isQual
      · exact quals expr inside
      · exact exprTyped_linkQuals leftPresent rightPresent leftColumns rightColumns leftCarries
          rightCarries link.matching expr isQual
    · simp only [JoinTreeNode.joins, List.append_nil, List.mem_append, List.mem_singleton]
        at isJoin
      rcases isJoin with inside | rfl
      · exact aliases other inside expr isAlias
      · rw [aliasvarsAt_of_setJoinRTE join, List.map_append] at isAlias
        rcases List.mem_append.mp isAlias with isAlias | isAlias <;>
          (rw [makeRTEVars_eq, List.map_map] at isAlias
           rcases List.mem_map.mp isAlias with ⟨te, isColumn, rfl⟩)
        · exact leftColumns.exprTyped leftPresent isColumn
        · exact rightColumns.exprTyped rightPresent isColumn

/-- All inputs of the restructured tree have the types of the result. -/
theorem SetOk.aligned_restructure {tree : SetOpNode} (ok : SetOk query tree)
    (setOp : query.setOperations = some tree) (aligned : NodeAligned cat query) {op : SetOperation}
    {opTree : OpTree} (same : query = ofTree query opTree)
    (member : rte ∈ (restructure query op opTree).leaves) {sub : Query}
    (kind : rte.kind = .subquery sub) :
    (nonJunk sub.targetList).map (fun te => exprType te.expr) = targetTypes query := by
  rcases isInput_restructure member with leaf | ⟨part, _, _, rfl⟩
  · rw [← ofTree_rtable same] at leaf
    exact aligned.inputs (by rw [setOp]; rfl) rte leaf sub (subquery?_eq_some kind)
  · cases kind
    exact congrArg (List.map _) (nonJunk_of_visible ok.visible)

/-- A rewritten input carries the types of its visible columns. -/
theorem RewrittenTyped.carriesTypes {sub sub' : Query} {attrs : List TargetEntry}
    (known : RewrittenTyped cat sub sub' attrs)
    (visible : (nonJunk sub.targetList).map (fun te => exprType te.expr) = types)
    (kind : rte.kind = .subquery sub') : CarriesTypes types rte := by
  have columns := congrArg (List.map Prod.snd) known.columns
  rw [List.map_map, List.map_map] at columns
  have length : types.length = sub.visibleCount := by
    rw [← visible, List.length_map]
    rfl
  have front : (originalColumns sub ++ attrs).take sub.visibleCount = nonJunk sub.targetList := by
    rw [List.take_append_of_le_length
      (by rw [length_originalColumns]; exact visibleCount_le_originalWidth sub), originalColumns]
    split
    · exact List.take_of_length_le (Nat.le_refl _)
    · rw [known.targets.nonJunk_eq]
  rw [CarriesTypes, getAttributesForJoin_subquery kind, List.map_take, length, ← visible, ← front,
    List.map_take]
  exact congrArg (List.take _) columns

/-- The columns of a set operation are those of its first input. -/
theorem SetOk.exists_column {tree : SetOpNode} (ok : SetOk query tree) {te : TargetEntry}
    (member : te ∈ query.targetList) :
    ∃ position vartype, query.targetList[position]? = some te ∧
      te.expr = .var 1 (position + 1) vartype := by
  rcases List.mem_iff_getElem?.mp member with ⟨position, present⟩
  have isColumn : (te, position + 1) ∈ query.targetList.zipIdx 1 :=
    List.mk_mem_zipIdx_iff_le_and_getElem?_sub.mpr ⟨by omega, present⟩
  rcases isVarOf_iff.mp (ok.columns _ isColumn) with ⟨vartype, equal⟩
  exact ⟨position, vartype, present, equal⟩

/-- The entries a rewritten set operation joins. -/
theorem linkTyped_setTop {op : SetOperation} {all : Bool} {colTypes : List Oid}
    {larg rarg : OpTree} {inputs : List RTE} {lists : List (List TargetEntry)}
    (ok : NodeOk cat query) (aligned : NodeAligned cat query)
    (tree : query = ofTree query (.node op all colTypes larg rarg))
    (rewritten :
      SetInputs (RewrittenTyped cat)
        (restructure query op (.node op all colTypes larg rarg)).leaves inputs lists)
    {leaf : Nat} (member : leaf ∈ 1 :: List.range' 2 inputs.length) {rte : RTE}
    (present : rtFetch (setTop query op all inputs).rtable leaf = some rte) :
    LinkTyped cat (targetTypes query) rte := by
  rcases List.mem_cons.mp member with rfl | member
  · cases present
    have kind := correctRTEAlias_kind (subqueryRTE query "originalSet")
    refine ⟨columnsTyped_subquery kind ok.targets.numbered, ?_⟩
    rw [CarriesTypes, getAttributesForJoin_subquery kind, targetTypes, List.length_map,
      List.take_length]
  · rw [List.mem_range'_1] at member
    have lengths := rewritten.lengths_eq
    have inside : leaf - 2 < lists.length := by omega
    rcases rewritten.fetch (List.getElem?_eq_getElem inside) with
      ⟨_, input, sub, sub', isLeaf, isInput, leafKind, kind, known⟩
    have fetched := rtFetch_setTop query op all isInput
    rw [Nat.sub_add_cancel member.1, present] at fetched
    cases fetched
    have setOp := ofTree_setOperations tree
    have types := (ok.setOk setOp).aligned_restructure setOp aligned tree
      (List.mem_of_getElem? isLeaf) leafKind
    have kind' := (correctRTEAlias_kind input).trans kind
    exact ⟨columnsTyped_subquery kind' known.numbered, known.carriesTypes types kind'⟩

theorem SetShape.typed (shape : SetShape cat (RewrittenTyped cat) query query' pList)
    (ok : NodeOk cat query) (aligned : NodeAligned cat query) (typed : Typed cat query) :
    Typed cat query' := by
  cases shape with
  | @intro op all colTypes larg rarg inputs lists _ tree rewritten attrs =>
    have setOk := ok.setOk (ofTree_setOperations tree)
    have nonempty : inputs ≠ [] := by
      rintro rfl
      have lengths := rewritten.lengths_eq.1
      have two := (length_restructure query op all colTypes larg rarg).1
      rw [← lengths] at two
      contradiction
    rcases joinChain_setTop query op all nonempty with ⟨node, fromlist, chain⟩
    rw [show query.targetList.length = (targetTypes query).length by simp [targetTypes]] at chain
    rcases chain.typed (fun leaf member rte present =>
      linkTyped_setTop ok aligned tree rewritten
        (by rwa [chain.leaves_eq, setLinks_input] at member) present) with ⟨_, quals, aliases⟩
    have new := provenanceEntries_typed attrs
      (exists_seenAs_setTop op all ok.targets.numbered nonempty rewritten
        fun _ _ _ known => ⟨known.numbered, fun te => known.atEnd.firstColumns⟩)
      (by simpa [fromlist] using aliases)
      (fun attr isAttr => by
        rcases rewritten.of_mem_attributesOf isAttr with
          ⟨position, _, input, sub, sub', _, index, _, isInput, _, kind, known, isTe⟩
        rw [index, typeAt, rtFetch_setTop query op all isInput, Option.bind_some,
          columnType_subquery ((correctRTEAlias_kind input).trans kind)]
        exact known.attr isTe)
    refine Query.everywhere_iff.mpr ⟨fun expr member => ?_, fun rte member sub kind => ?_⟩
    · rcases mem_nodeExprs.mp member with
        ⟨te, isEntry, rfl⟩ | isQual | isQual | ⟨item, isItem, inside⟩ | ⟨join, isJoin, isAlias⟩
      · rcases List.mem_append.mp isEntry with isOld | isNew
        · rcases setOk.exists_column isOld with ⟨position, vartype, present, equal⟩
          rw [equal, exprTyped_var_iff]
          have columns := @columnType_subquery cat _ _
            (correctRTEAlias_kind (subqueryRTE query "originalSet")) (position + 1)
          rw [rtFetch, present, Option.map_some, equal] at columns
          exact columns
        · exact new te isNew
      · cases isQual
      · cases isQual
      · have isNode : item = node := by simpa [fromlist] using isItem
        exact quals expr (isNode ▸ inside)
      · exact aliases join (by simpa [fromlist] using isJoin) expr isAlias
    · rcases List.mem_append.mp member with member | isJoin
      · rcases List.mem_cons.mp member with rfl | isInput
        · rw [correctRTEAlias_kind] at kind
          cases kind
          exact typed
        · rcases List.mem_map.mp isInput with ⟨input, isRewritten, rfl⟩
          rw [correctRTEAlias_kind] at kind
          rcases rewritten.origin isRewritten with ⟨_, _, _, _, _, _, known, rfl⟩
          cases kind
          exact known.typed
      · rcases eq_setJoinRTE_of_mem_setJoins isJoin with ⟨_, _, rfl⟩
        cases kind

end SetOperation

/-! ## All nodes -/

section Nodes

variable
  {cat : Catalog}
  {query sub : Query}

/-- What the typing of a rewritten query rests on. -/
structure TypedInput (cat : Catalog) (query : Query) : Prop where
  wellFormed : WellFormed cat query
  typed : Typed cat query
  aligned : Aligned cat query

theorem TypedInput.subTargets (input : TypedInput cat query) {rte : RTE}
    (member : rte ∈ query.rtable) (kind : rte.kind = .subquery sub) : TargetsOk sub := by
  have below : WellFormed cat sub :=
    (Query.everywhere_iff.mp input.wellFormed).2 rte member sub kind
  exact below.nodeOk.targets

theorem nodeTyped_aggregationInput {stripped : List TargetEntry} (typed : NodeTyped cat query)
    (strip : SameButNames stripped (strippedEntries query.targetList)) :
    NodeTyped cat (aggregationInput query stripped) := by
  intro expr member
  refine typed expr (mem_nodeExprs.mpr ?_)
  rcases mem_nodeExprs.mp member with ⟨te, isEntry, rfl⟩ | isQual | isQual | others
  · left
    rcases List.mem_map.mp isEntry with ⟨te', isEntry', rfl⟩
    have exprs := strip.map_eq TargetEntry.expr fun _ => rfl
    have found := List.mem_map_of_mem (f := TargetEntry.expr) isEntry'
    rw [exprs, strippedEntries_expr] at found
    rcases List.mem_map.mp found with ⟨original, kept, equal⟩
    exact ⟨original, (List.mem_filter.mp kept).1, equal⟩
  · exact .inr (.inl isQual)
  · cases isQual
  · exact .inr (.inr (.inr others))

/-- The columns of a part of a set operation are those of its first input. -/
theorem nodeTyped_ofTree (input : TypedInput cat query) {tree : SetOpNode}
    (setOp : query.setOperations = some tree) {part : OpTree}
    (inside : part.leaves ⊆ query.rtable) : NodeTyped cat (ofTree query part) := by
  have ok := (input.wellFormed.nodeOk).setOk setOp
  have aligned := (everywhereIn_isRewritten_iff.mp input.aligned).1
  rcases leaves : part.leaves with _ | ⟨rte, rest⟩
  · have positive := part.leaves_pos
    simp [leaves] at positive
  have isEntry : rte ∈ query.rtable := inside (by simp [leaves])
  have fits := (ok.inputs rte isEntry).2
  rcases descends : recursesInto rte with _ | sub
  · simp [descends] at fits
  have kind := kind_of_recursesInto descends
  have targets := input.subTargets isEntry kind
  have types := aligned.inputs (by rw [setOp]; rfl) rte isEntry sub (subquery?_eq_some kind)
  intro expr member
  rcases mem_nodeExprs.mp member with
    ⟨te, isEntry, rfl⟩ | isQual | isQual | ⟨item, isItem, _⟩ | ⟨join, isJoin, _⟩
  · rcases ok.exists_column isEntry with ⟨position, vartype, present, equal⟩
    have type : ((nonJunk sub.targetList).map fun te => exprType te.expr)[position]? =
        some (exprType te.expr) := by
      rw [types, targetTypes, List.getElem?_map, present, Option.map_some]
    rw [targets.nonJunk_eq, List.getElem?_map, Option.map_eq_some_iff] at type
    rcases type with ⟨column, taken, sameType⟩
    rw [equal, exprTyped_var_iff]
    rw [equal, exprType_var] at sameType
    simp only [typeAt, ofTree, leaves, rtFetch, List.getElem?_cons_zero, Option.bind_some,
      columnType_subquery kind, getElem?_of_take taken, Option.map_some, sameType]
  · simp [ofTree, Option.isNone_iff_eq_none.mp ok.noQuals] at isQual
  · have noGroups := ok.noGroups
    rw [Query.isGrouped, show query.havingQual = some expr from isQual] at noGroups
    simp at noGroups
  · simp [ofTree, List.isEmpty_iff.mp ok.noFrom] at isItem
  · simp [ofTree, List.isEmpty_iff.mp ok.noFrom] at isJoin

theorem TypedInput.reaches (input : TypedInput cat query) (reaches : Reaches query sub) :
    TypedInput cat sub := by
  refine ⟨reaches.wellFormed input.wellFormed, ?_, ?_⟩
  · refine reaches.everywhere input.typed (fun stripped _ strip _ => ?_)
      fun part setOp _ inside => ?_
    · exact nodeTyped_aggregationInput (Query.everywhere_iff.mp input.typed).1 strip
    · rcases Option.isSome_iff_exists.mp setOp with ⟨tree, present⟩
      exact nodeTyped_ofTree input present inside
  · have node := (everywhereIn_isRewritten_iff.mp input.aligned).1
    refine reaches.everywhereIn input.wellFormed input.aligned (fun stripped aggs => ?_)
      fun part setOp inside => ?_
    · have noSetOp := input.wellFormed.nodeOk.setOperations_eq_none aggs
      refine ⟨node.live, fun setOp => ?_, by simp [aggregationInput], by simp [aggregationInput]⟩
      simp [aggregationInput, noSetOp] at setOp
    · exact ⟨fun rte member => node.live rte (inside member),
        fun _ rte member => node.inputs setOp rte (inside member), node.grouped, node.groups⟩

theorem TypedInput.entryAligned (input : TypedInput cat query) :
    ∀ rte ∈ query.rtable, EntryAligned cat rte := by
  intro rte member
  refine ⟨(everywhereIn_isRewritten_iff.mp input.aligned).1.live rte member, fun sub => ?_⟩
  exact input.subTargets member

theorem TypedInput.withoutLimit (input : TypedInput cat query) :
    TypedInput cat (withoutLimit query) where
  wellFormed := WellFormed.withoutLimit input.wellFormed
  typed := by
    rcases Query.everywhere_iff.mp input.typed with ⟨node, below⟩
    exact Query.everywhere_iff.mpr ⟨node, below⟩
  aligned := by
    rcases everywhereIn_isRewritten_iff.mp input.aligned with ⟨node, below⟩
    exact everywhereIn_isRewritten_iff.mpr
      ⟨⟨node.live, node.inputs, node.grouped, node.groups⟩, below⟩

/-- The entries of a rewritten node hold typed queries. -/
theorem SpjShape.typed {base query' : Query} {pList : List TargetEntry}
    (shape : SpjShape cat (RewrittenTyped cat) base query' pList) (input : TypedInput cat base)
    (select : SelectOk cat base) : Typed cat query' := by
  refine Query.everywhere_iff.mpr
    ⟨shape.nodeTyped select (Query.everywhere_iff.mp input.typed).1 input.entryAligned, ?_⟩
  have below := (Query.everywhere_iff.mp input.typed).2
  cases shape with
  | intro inputs joins attrs distinct =>
    intro rte member sub kind
    rcases (correctJoinRTEs_extends _ joins).origin member with ⟨rte', isEntry, ext, rfl⟩
    have kind' : rte'.kind = .subquery sub := by
      rcases rte' with ⟨kind', _, _, _, _⟩
      cases kind' <;> first | exact kind | cases kind
    rcases List.mem_map.mp isEntry with ⟨rte, isRewritten, rfl⟩
    rw [correctRTEAlias_kind] at kind'
    rcases inputs.origin isRewritten with same | ⟨before, isBefore, _, _, _, entry⟩
    · exact below rte same sub kind'
    · cases entry with
      | kept provenance leaf sameKind eref attrs =>
        exact below before isBefore sub (sameKind ▸ kind')
      | recursed descends related =>
        cases kind'
        exact related.typed

/-- One step: the node is typed if the queries rewritten with it are. -/
theorem NodeShape.rewrittenTyped {query' : Query} {pList : List TargetEntry}
    (shape : NodeShape cat (RewrittenTyped cat) query query' pList)
    (input : TypedInput cat query) : RewrittenTyped cat query query' pList := by
  have ok := input.wellFormed.nodeOk
  have aligned := (everywhereIn_isRewritten_iff.mp input.aligned).1
  refine ⟨ok.targets, shape.attrsOf ok fun _ _ _ known => known.attrsOf, shape.atEnd,
    shape.numbered ok.targets, shape.columns, ?_⟩
  cases shape with
  | spj noAggs noSetOp noLimit shape =>
    exact shape.typed input (ok.selectOk noSetOp)
  | limit noAggs noSetOp limited visible shape =>
    have select := (ok.selectOk noSetOp).withoutLimit
    have attrs := shape.attrsOf fun _ _ _ known => known.attrsOf
    exact typed_limitTop visible attrs.visible shape.resnos.1 input.typed
      (shape.typed input.withoutLimit select)
  | agg aggs shape => exact shape.typed ok aligned aggs input.typed
  | set noAggs setOp shape => exact shape.typed ok aligned input.typed

end Nodes

/-- The rewrite of a typed and aligned query is typed. -/
theorem Rewritten.typed {cat : Catalog} {n : Nat} {query query' : Query} {pList : List TargetEntry}
    (input : TypedInput cat query) (rewritten : Rewritten cat n query query' pList) :
    Typed cat query' := by
  have known : RewrittenTyped cat query query' pList := by
    refine Rewritten.induction (fun query sub holds reaches => holds.reaches reaches) ?_
      input rewritten
    intro query query' pList holds shape
    exact (shape.mono fun _ _ _ _ known => known.2).rewrittenTyped holds
  exact known.typed

end Ldv.Perm
