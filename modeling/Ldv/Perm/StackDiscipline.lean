import Ldv.Perm.SetProvenance

/-!
# The stack of provenance attribute lists

A rewrite leaves one list on the stack: the attributes it added to the query.
A node pops one list for each of its inputs, and a function in the FROM list
is counted as an input although nothing is pushed for it.  The join which
handles a LIMIT adds the attributes of the rewritten node once more, and
leaves the list of the node below it.
-/

namespace Ldv.Perm

open Ldv.Sql Effect

/--
Rewriting pushes one list on the stack it found, the columns behind the
original ones.
-/
def PushesAttributes (cat : Catalog) (query : Query) : Prop :=
  ∀ n, query.size ≤ n → ∀ state,
    Returns (rewriteQueryNode cat n query) state fun query' final =>
      final.pStack = query'.targetList.drop (originalWidth query) :: state.pStack

/-- The LIMIT of the node is handled by a join with the original query. -/
def handlesLimit (query : Query) : Bool :=
  !query.hasAggs && query.setOperations.isNone && checkLimit query

/-! ## Where the attributes of a node come from -/

section Routes

variable {rtindex attno varno varattno : Nat}

theorem routeVar_varno {rtable : List RTE} {joins : List Nat} {found : Option Nat}
    (routed : routeVar rtable joins found (varno, varattno) = some (rtindex, attno)) :
    rtindex = joins.getLastD varno := by
  induction joins generalizing found varno varattno with
  | nil =>
    cases routed
    rfl
  | cons join rest ih =>
    rw [routeVar] at routed
    split at routed
    · cases routed
    · rw [ih routed]
      cases rest <;> rfl

theorem findRTindexInJoin_getLastD {node : JoinTreeNode} (leaf : rtindex ∈ node.leaves) :
    ∃ path, findRTindexInJoin rtindex node = some path ∧ path.getLastD rtindex = node.rtindex := by
  induction node with
  | rangeTblRef rtindex' =>
    rw [JoinTreeNode.leaves, List.mem_singleton] at leaf
    exact ⟨[], by simp [findRTindexInJoin, leaf], leaf⟩
  | joinExpr jointype joinRTindex larg rarg quals leftIH rightIH =>
    rw [findRTindexInJoin]
    cases left : findRTindexInJoin rtindex larg with
    | some path => exact ⟨path ++ [joinRTindex], rfl, by simp [JoinTreeNode.rtindex]⟩
    | none =>
      rcases List.mem_append.mp leaf with inLeft | inRight
      · rcases leftIH inLeft with ⟨path, found, -⟩
        simp [left] at found
      · rcases rightIH inRight with ⟨path, found, -⟩
        exact ⟨path ++ [joinRTindex], by simp [found], by simp [JoinTreeNode.rtindex]⟩

/-- The node sees the columns of an input as columns of one of its FROM items. -/
theorem getRTindexForProvTE_item {query : Query}
    (seen : getRTindexForProvTE query rtindex attno = some (varno, varattno))
    (nodup : (query.fromlist.flatMap JoinTreeNode.rtindexes).Nodup)
    (leaf : rtindex ∈ query.fromlist.flatMap JoinTreeNode.leaves) :
    ∃ item ∈ query.fromlist, varno = item.rtindex := by
  rcases List.mem_flatMap.mp leaf with ⟨item, isItem, inItem⟩
  rcases findRTindexInJoin_getLastD inItem with ⟨path, found, last⟩
  refine ⟨item, isItem, ?_⟩
  rw [routeVar_varno seen, joinRTElist_eq_path nodup isItem inItem found, last]

end Routes

section Discipline

variable
  {cat : Catalog}
  {query : Query}

/-- The new columns of a join which handles a LIMIT are all in its second entry. -/
theorem drop_limitTop {rewrittenQuery : Query} {pList : List TargetEntry}
    (noAggs : query.hasAggs = false)
    (targetList : rewrittenQuery.targetList = query.targetList ++ pList) :
    (limitTop cat query rewrittenQuery).targetList.drop (originalWidth query) =
      (pList.zipIdx (query.targetList.length + 1)).map fun (te, attno) =>
        { expr := .var 2 attno (exprType te.expr)
          resno := attno
          resname := te.resname
          resjunk := te.resjunk } := by
  have width : originalWidth query = query.targetList.length := by
    simp [originalWidth, noAggs]
  show (secondColumns rewrittenQuery.targetList).drop _ = _
  rw [secondColumns, targetList, width, List.zipIdx_append, List.map_append,
    List.drop_left' (by simp), Nat.add_comm 1]

/-- Attributes of a node are DISTINCT items or columns of a FROM item. -/
theorem SpjShape.attr_origin {R : Rel} {query' : Query} {pList : List TargetEntry}
    (shape : SpjShape cat R query query' pList) (select : SelectOk cat query) {te : TargetEntry}
    (member : te ∈ pList) :
    te.ressortgroupref ≠ 0 ∧ query.distinctClause ≠ [] ∨
      query.distinctClause = [] ∧
        ∃ item ∈ query.fromlist, ∃ varattno vartype,
          te.expr = .var item.rtindex varattno vartype := by
  cases shape with
  | intro inputs joins attrs distinct =>
    cases distinct with
    | present present refs =>
      rcases List.mem_map.mp member with ⟨⟨te', ref⟩, numbered, rfl⟩
      have bound := List.le_snd_of_mem_zipIdx numbered
      exact .inl ⟨by simp only; omega, present⟩
    | absent absent =>
      refine .inr ⟨absent, ?_⟩
      rcases mem_provenanceEntries attrs member with ⟨attr, isAttr, varno, varattno, seen, isVar⟩
      rcases List.mem_flatMap.mp isAttr with ⟨⟨rtindex, attrList⟩, paired, inside⟩
      rcases List.mem_map.mp inside with ⟨te', -, rfl⟩
      rcases getRTindexForProvTE_item seen select.nodup
        (select.mem_leaves inputs (List.of_mem_zip paired).1) with ⟨item, isItem, rfl⟩
      exact ⟨item, isItem, varattno, _, isVar⟩

/-- The list of a node is the suffix of its target list, unless a join handles its LIMIT. -/
theorem Rewritten.drop_originalWidth {n : Nat} {query' : Query} {pList : List TargetEntry}
    (wellFormed : WellFormed cat query)
    (unlisted : handlesLimit query = true → provTypes cat query = [])
    (rewritten : Rewritten cat n query query' pList) :
    query'.targetList.drop (originalWidth query) = pList := by
  have types := (rewritten.attrsOf wellFormed).types
  cases n with
  | zero => exact rewritten.elim
  | succ n =>
    have shape : NodeShape cat (Rewritten cat n) query query' pList := rewritten
    cases shape with
    | spj noAggs noSetOp noLimit shape => simp [originalWidth, noAggs, shape.resnos.1]
    | limit noAggs noSetOp limited visible shape =>
      rw [unlisted (by simp [handlesLimit, noAggs, noSetOp, limited]), List.map_eq_nil_iff] at types
      rw [drop_limitTop noAggs shape.resnos.1, types]
      rfl
    | agg aggs shape =>
      cases shape with
      | intro strip named show_ shownNamed order rewritten attrs =>
        simp [originalWidth, aggs, ← length_visibleEntries]
    | set noAggs setOp shape =>
      cases shape with
      | intro tree inputs attrs => simp [originalWidth, noAggs]

/-- The attributes of the node below such a join are no columns of its second entry. -/
theorem Rewritten.provTypes_eq_nil {n : Nat} {query' : Query} {pList : List TargetEntry}
    (wellFormed : WellFormed cat query) (handles : handlesLimit query = true)
    (apart : query.distinctClause ≠ [] ∨ ∀ item ∈ query.fromlist, item.rtindex ≠ 2)
    (rewritten : Rewritten cat n query query' pList)
    (same : query'.targetList.drop (originalWidth query) = pList) :
    provTypes cat query = [] := by
  rw [← (rewritten.attrsOf wellFormed).types, List.map_eq_nil_iff, List.eq_nil_iff_forall_not_mem]
  intro te member
  cases n with
  | zero => exact rewritten.elim
  | succ n =>
    have shape : NodeShape cat (Rewritten cat n) query query' pList := rewritten
    cases shape with
    | spj noAggs noSetOp noLimit shape => simp [handlesLimit, noAggs, noSetOp, noLimit] at handles
    | agg aggs shape => simp [handlesLimit, aggs] at handles
    | set noAggs setOp shape => simp [handlesLimit, Option.isSome_iff_ne_none.mp setOp] at handles
    | limit noAggs noSetOp limited visible shape =>
      have select := (wellFormed.nodeOk.selectOk noSetOp).withoutLimit
      have origin := shape.attr_origin select member
      rw [drop_limitTop noAggs shape.resnos.1] at same
      rw [← same] at member
      rcases List.mem_map.mp member with ⟨⟨te', attno⟩, -, rfl⟩
      rcases origin with ⟨numbered, -⟩ | ⟨absent, item, isItem, varattno, vartype, isVar⟩
      · exact numbered rfl
      · rcases apart with distinct | elsewhere
        · exact distinct absent
        · injection isVar with isSecond
          exact elsewhere item isItem isSecond.symm

end Discipline

/-! ## Stacks which are left otherwise -/

/-- `SELECT f FROM generate_series(...) f` -/
def selectFunction : Query where
  rtable := [{
    kind := .function 1067 [23]
    userAlias := none
    eref := { aliasname := some "f", colnames := [some "f"] } }]
  fromlist := [.rangeTblRef 1]
  targetList := [{ expr := .var 1 1 23, resno := 1, resname := some "f" }]

/-- `SELECT DISTINCT a FROM t ORDER BY a LIMIT 1` -/
def firstDistinct : Query :=
  { selectColumn 1 23 with
    targetList := [{
      expr := .var 1 1 23
      resno := 1
      resname := some "c"
      ressortgroupref := 1 }]
    distinctClause := [⟨1, 97, false⟩]
    sortClause := [⟨1, 97, false⟩]
    limitCount := some (some 1) }

/-- A list which an earlier rewrite has left. -/
def earlierList : List TargetEntry :=
  [{ expr := .var 3 1 23, resno := 1, resname := some "prov" }]

end Ldv.Perm
