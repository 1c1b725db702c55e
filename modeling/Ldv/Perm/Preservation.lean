import Ldv.Perm.SetRows
import Ldv.Perm.StackBalance
import Ldv.Perm.TypedNodes
import Ldv.Sql.SortedRows

/-!
# Rewriting preserves the result

The original columns of a rewritten query hold the rows of the original
query.  In general a row may be returned several times, once for each way to
derive it; a tree of select-project-join nodes returns it as often as the
original does, so its LIMIT may stay in place.

`KeepsRows` collects what a node must satisfy: DISTINCT without ON, grouping
only with aggregates, and a LIMIT only where the rewriter handles it.
-/

namespace Ldv.Perm

open Ldv.Sql
open Relational

/-! ## Conditions -/

/-- A node whose rewrite returns no row more often. -/
structure KeepsBag (inst : Instance) (query : Query) : Prop where
  noAggs : query.hasAggs = false
  noSetOp : query.setOperations = none
  noGroups : query.isGrouped = false
  noDistinct : query.distinctClause = []
  noJoin : checkLimit query = false
  limit : query.NoLimit ∨ query.OrderTotal inst

/-- Are all operators of the tree INTERSECT? -/
def onlyIntersect : SetOpNode → Bool
  | .rangeTblRef _ => true
  | .setOperationStmt op _ _ larg rarg =>
    op == .intersect && onlyIntersect larg && onlyIntersect rarg

/-- Does no part that was taken out enter an inner join? -/
def innerUntouched : SetOpNode → Bool
  | .setOperationStmt .union _ _ _ _ => true
  | .setOperationStmt .except _ _ (.rangeTblRef _) _ => true
  | tree => onlyIntersect tree

/-- The rewriter handles the LIMIT of the node. -/
def LimitKept (inst : Instance) (query : Query) :
    Option SetOpNode → Prop
  | some tree => innerUntouched tree = true
  | none =>
    checkLimit query = false →
      query.OrderTotal inst ∧
        query.EverywhereIn isRewritten fun sub =>
          sub.setOperations.isNone = true

structure KeepsRows (inst : Instance) (query : Query) : Prop where
  distinct : PlainDistinct query
  noGroups : query.hasAggs = false → query.isGrouped = false
  limit : query.hasAggs = false → ¬ query.NoLimit → LimitKept inst query query.setOperations

/-! ## Select-project-join nodes -/

section Nodes

variable
  {cat : Catalog}
  {R : Rel}
  {query query' : Query}
  {pList : List TargetEntry}
  {inst : Instance}

theorem widthAt_of_join (cat : Catalog) {rtable : List RTE} {rtindex : Nat}
    (join : (rtFetch rtable rtindex).any RangeTblEntry.isJoin = true) :
    widthAt cat rtable rtindex = (aliasvarsAt rtable rtindex).length := by
  cases present : rtFetch rtable rtindex with
  | none => simp [present] at join
  | some rte =>
    rw [present, Option.any_some] at join
    rcases rte with ⟨kind, userAlias, eref, isProvBase, provAttrs⟩
    cases kind with
    | join jointype aliasvars =>
      simp [widthAt, present, rteWidth, aliasvarsAt, RangeTblEntry.joinaliasvars]
    | relation => contradiction
    | subquery => contradiction
    | function => contradiction
    | values => contradiction

theorem SelectOk.inScope (ok : SelectOk cat query) :
    InScope (columnsAt cat query.rtable) query where
  targets := ok.targets
  quals := ok.quals
  fromlist := ok.fromlist
  bounded item member join isJoin attno column := by
    have entry := ok.joins join (List.mem_flatMap.mpr ⟨item, member, isJoin⟩)
    rwa [columnsAt, widthAt_of_join cat entry] at column

/-- The clauses of a node without DISTINCT are those of the original. -/
theorem SpjShape.clauses (shape : SpjShape cat R query query' pList)
    (noDistinct : query.distinctClause = []) :
    query'.targetList = query.targetList ++ pList ∧
      query'.sortClause = query.sortClause ∧
      query'.distinctClause = [] ∧
      query'.limitCount = query.limitCount ∧
      query'.limitOffset = query.limitOffset := by
  cases shape with
  | intro inputs joins attrs distinct =>
    rw [noDistinct, distinct.clauses_eq_nil noDistinct]
    exact ⟨rfl, rfl, rfl, rfl, rfl⟩

/-- Without duplicates the LIMIT of a node may stay in place. -/
theorem SpjShape.bagRel (shape : SpjShape cat R query query' pList) (ok : NodeOk cat query)
    (keeps : KeepsBag inst query) (subqueries : SubqueriesLift .bag inst R query) :
    BagRel (RowSim query.visibleCount) (query.eval inst) (query'.eval inst) := by
  have related := shape.rel_plainRows .bag inst keeps.noGroups
    keeps.noSetOp (ok.selectOk keeps.noSetOp).inScope subqueries
  rcases shape.clauses keeps.noDistinct with
    ⟨targetList, sortClause, noDistinct, count, offset⟩
  rw [Query.eval_eq_nodeRows, Query.eval_eq_nodeRows]
  rcases keeps.limit with noLimit | total
  · have noLimit' : query'.NoLimit := by
      rw [Query.NoLimit, count, offset]
      exact noLimit
    have rows := Lifting.bag.perm related
      (nodeRows_perm inst keeps.noDistinct (limitRows_of_noLimit noLimit) _).symm
      (nodeRows_perm inst noDistinct (limitRows_of_noLimit noLimit') _).symm
    exact Lifting.bag.mono rows fun left right similar =>
      similar.mono (visibleCount_le query)
  · refine ⟨_, .refl _, forall₂_nodeRows inst targetList sortClause
      keeps.noDistinct noDistinct count offset
      (fun clause member => ok.targets.refers clause (by simp [member]))
      total ?_ related⟩
    intro row member
    rw [Query.plainRows, keeps.noSetOp] at member
    exact length_of_mem_selectRows member

end Nodes

/-- Trees without duplicating constructs keep their rows as a bag. -/
theorem Rewritten.bagRel {cat : Catalog} {inst : Instance} {n : Nat} {query query' : Query}
    {pList : List TargetEntry} (wellFormed : WellFormed cat query)
    (keeps : query.EverywhereIn isRewritten (KeepsBag inst))
    (rewritten : Rewritten cat n query query' pList) :
    BagRel (RowSim query.visibleCount) (query.eval inst) (query'.eval inst) := by
  induction n generalizing query query' pList with
  | zero => exact rewritten.elim
  | succ n ih =>
    rw [everywhereIn_isRewritten_iff] at keeps
    rcases keeps with ⟨node, below⟩
    have shape : NodeShape cat (Rewritten cat n) query query' pList := rewritten
    cases shape with
    | spj noAggs noSetOp noLimit shape =>
      refine shape.bagRel wellFormed.nodeOk node ?_
      intro rte member isInput sub descends sub' subAttrs related
      have reaches : Reaches query sub := .subquery member isInput descends
      exact ih (reaches.wellFormed wellFormed) (below rte member isInput sub descends) related
    | limit noAggs noSetOp limited visible shape =>
      rw [node.noJoin] at limited
      contradiction
    | agg aggs shape =>
      rw [node.noAggs] at aggs
      contradiction
    | set noAggs setOp shape =>
      rw [node.noSetOp] at setOp
      contradiction

/-! ## Duplicating constructs -/

theorem checkForNTupleDupConstructs_eq (query : Query) :
    checkForNTupleDupConstructs query =
      (!query.distinctClause.isEmpty || query.hasAggs ||
        checkRtableForDupConstructs query.rtable) := by
  cases query
  rfl

theorem checkSubquery_of_checkRtable {rtable : List RTE}
    (noDup : checkRtableForDupConstructs rtable = false) {rte : RTE} (member : rte ∈ rtable)
    {sub : Query} (kind : rte.kind = .subquery sub) :
    checkForNTupleDupConstructs sub = false := by
  induction rtable with
  | nil => contradiction
  | cons head tail ih =>
    rw [checkRtableForDupConstructs, Bool.or_eq_false_iff] at noDup
    rcases List.mem_cons.mp member with rfl | later
    · rcases rte with ⟨kind', userAlias, eref, isProvBase, provAttrs⟩
      cases kind
      exact noDup.1
    · exact ih noDup.2 later

/-- A node without DISTINCT and aggregates, and nothing below it. -/
def NoDup (query : Query) : Prop :=
  query.distinctClause = [] ∧ query.hasAggs = false ∧ checkForNTupleDupConstructs query = false

theorem everywhere_noDup {query : Query} (noDup : checkForNTupleDupConstructs query = false) :
    query.Everywhere NoDup := by
  induction query using Query.subqueryInduction with
  | step query ih =>
    have parts := noDup
    simp only [checkForNTupleDupConstructs_eq, Bool.or_eq_false_iff,
      Bool.not_eq_false', List.isEmpty_iff] at parts
    rw [Query.everywhere_iff]
    refine ⟨⟨parts.1.1, parts.1.2, noDup⟩, ?_⟩
    intro rte member sub kind
    exact ih rte member sub kind (checkSubquery_of_checkRtable parts.2 member kind)

theorem noDup_of_checkLimit {query : Query} (limited : ¬ query.NoLimit)
    (noJoin : checkLimit query = false) :
    checkForNTupleDupConstructs query = false := by
  rw [checkLimit, Bool.and_eq_false_iff] at noJoin
  rcases noJoin with unlimited | noDup
  · simp only [Bool.or_eq_false_iff, Option.isSome_eq_false_iff,
      Option.isNone_iff_eq_none] at unlimited
    exact (limited (by simp [Query.NoLimit, unlimited])).elim
  · exact noDup

/-- What the rewriter checks before it leaves a LIMIT in place. -/
theorem keepsBag_of_noDup {inst : Instance} {query : Query}
    (keeps : query.EverywhereIn isRewritten (KeepsRows inst))
    (noSetOps :
      query.EverywhereIn isRewritten fun sub =>
        sub.setOperations.isNone = true)
    (noDup : checkForNTupleDupConstructs query = false) :
    query.EverywhereIn isRewritten (KeepsBag inst) := by
  have both : query.EverywhereIn isRewritten fun sub =>
      NoDup sub ∧ KeepsRows inst sub :=
    (everywhere_noDup noDup).imp₂ (fun _ => And.intro) (fun _ _ => rfl) keeps
  refine both.imp₂ ?_ (fun _ entered => entered) noSetOps
  rintro sub ⟨⟨noDistinct, noAggs, noDup⟩, node⟩ isNone
  have noSetOp := Option.isNone_iff_eq_none.mp isNone
  have noJoin : checkLimit sub = false := by
    rw [checkLimit, noDup, Bool.and_false]
  refine ⟨noAggs, noSetOp, node.noGroups noAggs, noDistinct, noJoin, ?_⟩
  by_cases noLimit : sub.NoLimit
  · exact .inl noLimit
  · have kept := node.limit noAggs noLimit
    rw [noSetOp] at kept
    exact .inr (kept noJoin).1

/-! ## Set operations -/

section SetOperations

variable
  {cat : Catalog}
  {query : Query}
  {op : SetOperation}
  {all : Bool}
  {colTypes : List Oid}
  {larg rarg : OpTree}
  {inst : Instance}

/-- Nothing is taken out of a tree of INTERSECT operators. -/
theorem restructure_of_onlyIntersect (query : Query) {tree : OpTree} {start : Nat}
    (only : onlyIntersect (tree.number start) = true) :
    restructure query .intersect tree = tree := by
  induction tree generalizing start with
  | leaf rte => rfl
  | node op all colTypes larg rarg leftIH rightIH =>
    simp only [OpTree.number, onlyIntersect, Bool.and_eq_true, beq_iff_eq] at only
    rcases only with ⟨⟨rfl, left⟩, right⟩
    simp only [restructure, if_true]
    rw [leftIH left, rightIH right]

/-- Leaves of inner joins are inputs of the query itself. -/
theorem leaf_of_innerUntouched
    (untouched : innerUntouched ((OpTree.node op all colTypes larg rarg).number 1) = true)
    {position : Nat} (inner : IsInner op position) {rte : RTE}
    (leaf :
      (restructure query op
        (.node op all colTypes larg rarg)).leaves[position]? = some rte) :
    rte ∈ (OpTree.node op all colTypes larg rarg).leaves ∧
      ∀ other,
        (restructure other op (.node op all colTypes larg rarg)).leaves[position]? = some rte := by
  rcases inner with rfl | ⟨rfl, rfl⟩
  · have only : onlyIntersect ((OpTree.node .intersect all colTypes larg rarg).number 1) = true :=
      untouched
    have same (other : Query) := restructure_of_onlyIntersect other only
    rw [same] at leaf
    exact ⟨List.mem_of_getElem? leaf, fun other => by rw [same, leaf]⟩
  · cases larg with
    | leaf left =>
      rw [restructure] at leaf
      have isLeft : left = rte := Option.some.inj leaf
      subst isLeft
      refine ⟨List.mem_cons_self, fun other => ?_⟩
      rw [restructure]
      rfl
    | node =>
      simp [OpTree.number, innerUntouched, onlyIntersect] at untouched

/-- A part of a set operation without LIMIT keeps its rows. -/
theorem KeepsRows.ofTree (keeps : query.EverywhereIn isRewritten (KeepsRows inst))
    (noLimit : query.NoLimit) {part : OpTree} (inside : part.leaves ⊆ query.rtable) :
    (ofTree query part).EverywhereIn isRewritten (KeepsRows inst) := by
  rw [everywhereIn_isRewritten_iff] at keeps ⊢
  refine ⟨⟨?_, keeps.1.noGroups, ?_⟩, ?_⟩
  · exact ⟨keeps.1.distinct.refers, keeps.1.distinct.covers⟩
  · intro _ limited
    exact (limited noLimit).elim
  · intro rte member
    exact keeps.2 rte (inside member)

/-- The leaves of inner joins keep the rows of the result. -/
theorem innerKept_of_keepsRows {R : Rel} (wellFormed : WellFormed cat query)
    (keeps : query.EverywhereIn isRewritten (KeepsRows inst))
    (tree : query = ofTree query (.node op all colTypes larg rarg))
    (known :
      ∀ sub, Reaches query sub →
        sub.EverywhereIn isRewritten (KeepsRows inst) →
        ∀ sub' subAttrs, R sub sub' subAttrs →
          SameRows sub.visibleCount (sub.eval inst) (sub'.eval inst))
    {row : Row} (member : row ∈ query.eval inst) :
    InnerKept inst R op query.targetList.length
      (restructure query op (.node op all colTypes larg rarg)).leaves
      row := by
  have setOp : query.setOperations = some _ := congrArg Query.setOperations tree
  have ok := wellFormed.nodeOk.setOk setOp
  have levels := everywhereIn_isRewritten_iff.mp keeps
  intro position rte sub isLeaf kind inner
  have reaches : Reaches query sub :=
    Reaches.of_restructured tree (List.mem_of_getElem? isLeaf) kind
  have below
      (isEntry : rte ∈ query.rtable) :
      sub.EverywhereIn isRewritten (KeepsRows inst) := by
    rcases ok.rewritten tree (List.mem_of_getElem? isLeaf) kind with
      ⟨isInput, descends⟩
    exact levels.2 rte isEntry isInput sub descends
  by_cases noLimit : query.NoLimit
  · refine ⟨mem_leaf_of_inner wellFormed noLimit tree member isLeaf inner, known sub reaches ?_⟩
    rcases isInput_restructure (List.mem_of_getElem? isLeaf) with
      leaf | ⟨part, _, inside, rfl⟩
    · exact below (ofTree_rtable tree ▸ leaf)
    · cases kind
      refine KeepsRows.ofTree keeps noLimit ?_
      rw [ofTree_rtable tree]
      exact inside.subset
  · have untouched := levels.1.limit ok.noAggs noLimit
    rw [setOp] at untouched
    rcases leaf_of_innerUntouched untouched inner isLeaf with
      ⟨leaf, unlimited⟩
    refine ⟨?_, known sub reaches (below (ofTree_rtable tree ▸ leaf))⟩
    exact mem_leaf_of_inner (WellFormed.withoutLimit wellFormed)
      ⟨rfl, rfl⟩ (congrArg withoutLimit tree)
      (mem_eval_withoutLimit member) (unlimited _) inner

end SetOperations

/-! ## All nodes -/

/-- The original columns of a rewritten query hold the original rows. -/
theorem Rewritten.sameRows {cat : Catalog} {inst : Instance} {n : Nat} {query query' : Query}
    {pList : List TargetEntry} (wellFormed : WellFormed cat query)
    (keeps : query.EverywhereIn isRewritten (KeepsRows inst))
    (rewritten : Rewritten cat n query query' pList) :
    SameRows query.visibleCount (query.eval inst) (query'.eval inst) := by
  induction n generalizing query query' pList with
  | zero => exact rewritten.elim
  | succ n ih =>
    have levels := everywhereIn_isRewritten_iff.mp keeps
    rcases levels with ⟨node, below⟩
    have shape : NodeShape cat (Rewritten cat n) query query' pList := rewritten
    have ok := wellFormed.nodeOk
    have subqueries : SubqueriesLift .set inst (Rewritten cat n) query := by
      intro rte member isInput sub descends sub' subAttrs related
      have reaches : Reaches query sub := .subquery member isInput descends
      exact sameUpTo_rowSim_iff.mpr
        (ih (reaches.wellFormed wellFormed) (below rte member isInput sub descends) related)
    cases shape with
    | spj noAggs noSetOp noJoin shape =>
      by_cases noLimit : query.NoLimit
      · exact shape.sameRows inst (node.noGroups noAggs) noSetOp
          noLimit (ok.selectOk noSetOp).inScope node.distinct
          subqueries
      · have kept := node.limit noAggs noLimit
        rw [noSetOp] at kept
        have noDup : checkForNTupleDupConstructs query = false :=
          noDup_of_checkLimit noLimit noJoin
        have bag := Rewritten.bagRel wellFormed
          (keepsBag_of_noDup keeps (kept noJoin).2 noDup) rewritten
        exact sameUpTo_rowSim_iff.mp bag.sameUpTo
    | @limit rewrittenQuery _ noAggs noSetOp limited visible shape =>
      have visibleCount : query.visibleCount = query.targetList.length :=
        congrArg List.length (nonJunk_of_visible visible)
      have copyNoSetOp : rewrittenQuery.setOperations = none := by
        cases shape
        exact noSetOp
      have unlimited := shape.sameRows inst (node.noGroups noAggs) noSetOp ⟨rfl, rfl⟩
        (ok.selectOk noSetOp).withoutLimit.inScope
        ⟨node.distinct.refers, node.distinct.covers⟩ subqueries
      rw [visibleCount]
      refine limitTop_sameRows cat (fun row member => length_of_mem_eval noSetOp member)
        (fun row member => length_of_mem_eval copyNoSetOp member)
        ?_ (visibleCount ▸ unlimited)
      rw [shape.resnos.1, List.length_append]
      exact Nat.le_add_right _ _
    | agg aggs shape => exact shape.sameRows ok aggs inst
    | set noAggs setOp shape =>
      cases shape with
      | intro tree inputs attrs =>
        have setOk := ok.setOk (congrArg Query.setOperations tree)
        have visibleCount : query.visibleCount = query.targetList.length :=
          congrArg List.length (nonJunk_of_visible setOk.visible)
        have related := inputs.mono
          fun rte member sub kind sub' subAttrs related =>
            And.intro (Reaches.of_restructured tree member kind) related
        rw [visibleCount]
        refine sameRows_setTop wellFormed tree related
          (fun sub sub' subAttrs related => ?_) attrs
          (fun row member => innerKept_of_keepsRows wellFormed keeps
            tree (fun sub reaches kept sub' subAttrs related => ?_)
            member)
        · exact related.2.columnsOk (related.1.wellFormed wellFormed).nodeOk.targets inst
        · exact ih (reaches.wellFormed wellFormed) kept related.2

/-!
## Result preservation of the influence rewrite

For trees without LIMIT the rewriter preserves the result of every query it
rewrites.  It does not rewrite all of them: DISTINCT has to order the
provenance attributes, and the rewrite of a set operation has to compare the
columns of the result, so a column of a type without these operators stops
it.
-/

open Effect

/-- A node without LIMIT, without DISTINCT ON, grouped for aggregates. -/
structure PlainNode (query : Query) : Prop where
  noLimit : query.NoLimit
  distinct : PlainDistinct query
  noGroups : query.hasAggs = false → query.isGrouped = false

instance (query : Query) : Decidable (PlainNode query) :=
  letI : Decidable (PlainDistinct query) :=
    decidable_of_iff (_ ∧ _)
      ⟨fun ⟨refers, covers⟩ => ⟨refers, covers⟩, fun distinct => ⟨distinct.refers, distinct.covers⟩⟩
  decidable_of_iff (_ ∧ _ ∧ _)
    ⟨fun ⟨noLimit, distinct, noGroups⟩ => ⟨noLimit, distinct, noGroups⟩,
      fun plain => ⟨plain.noLimit, plain.distinct, plain.noGroups⟩⟩

/--
Rewriting returns a typed query which, on the original columns and without
duplicates, returns the rows of the original over every database.
-/
def PreservesResult (cat : Catalog) (query : Query) : Prop :=
  ∀ n, query.size ≤ n → ∀ state,
    Returns (rewriteQueryNode cat n query) state fun query' _ =>
      Typed cat query' ∧
        ∀ inst : Instance, SameRows query.visibleCount (query.eval inst) (query'.eval inst)

section Preserves

variable
  {cat : Catalog}
  {query : Query}

theorem keepsRows_of_plainNode (plain : query.Everywhere PlainNode) (inst : Instance) :
    query.EverywhereIn isRewritten (KeepsRows inst) := by
  induction query using Query.subqueryInduction with
  | step query ih =>
    rw [Query.everywhere_iff] at plain
    rw [everywhereIn_isRewritten_iff]
    refine ⟨⟨plain.1.distinct, plain.1.noGroups, ?_⟩, ?_⟩
    · intro _ limited
      exact (limited plain.1.noLimit).elim
    · intro rte member _ sub descends
      have kind := kind_of_recursesInto descends
      exact ih rte member sub kind (plain.2 rte member sub kind)

theorem preservesResult_of_rewritable (input : TypedInput cat query)
    (plain : query.Everywhere PlainNode) (rewritable : Rewritable cat query) :
    PreservesResult cat query := by
  intro n enough state
  refine (returns_rewriteQueryNode input.wellFormed rewritable enough state).mono ?_
  rintro query' final ⟨pList, _, rewritten⟩
  refine ⟨rewritten.typed input, fun inst => ?_⟩
  exact rewritten.sameRows input.wellFormed (keepsRows_of_plainNode plain inst)

theorem rewritable_of_preservesResult (wellFormed : WellFormed cat query)
    (preserves : PreservesResult cat query) :
    Rewritable cat query :=
  rewritable_of_returns wellFormed (preserves query.size le_rfl {})

end Preserves

/-! ## A column that cannot be ordered -/

/-- A relation `t` with a column of type `int4` and one of type `point`. -/
def pointCatalog : Catalog where
  namespaceName _ := "public"
  relName _ := "t"
  attributes _ := [⟨"a", 23, false⟩, ⟨"p", 600, false⟩]
  equalityOper type := if type = 23 then some 96 else none
  orderingOper type := if type = 23 then some 97 else none

/-- `SELECT a FROM t`, or `SELECT DISTINCT a FROM t`. -/
def selectA (distinctClause : List SortClause) : Query where
  rtable := [{
    kind := .relation 16384
    userAlias := none
    eref := { aliasname := some "t", colnames := [some "a", some "p"] } }]
  fromlist := [.rangeTblRef 1]
  targetList := [{
    expr := .var 1 1 23
    resno := 1
    resname := some "a"
    ressortgroupref := distinctClause.length }]
  distinctClause := distinctClause
  sortClause := distinctClause

end Ldv.Perm
