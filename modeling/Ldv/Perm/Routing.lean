import Ldv.Perm.SpjRows

/-!
# Routing of provenance attributes through joins

A provenance attribute of an input below a join is seen by the query through
the alias columns of all joins above the input.  `computeJoinPAttrs` adds
these alias columns from the bottom of the join tree to its top, and
`getRTindexForProvTE` follows them by searching the alias lists.  The two
walks agree: at every join the column found below has been added, and every
alias column found carries the value of the column it was found for.
-/

namespace Ldv.Perm

open Ldv.Sql

variable {varno varattno position rtindex attno : Nat} {rtable rtable' : List RTE}
  {node item : JoinTreeNode} {pStack : List (List TargetEntry)} {subList : List Nat}

/-! ## Alias columns -/

theorem isVarOf_iff {expr : Expr} :
    isVarOf varno varattno expr = true ↔ ∃ vartype, expr = .var varno varattno vartype := by
  cases expr <;> simp [isVarOf]

theorem lastAliasPosition_eq_some {aliasvars : List Expr}
    (found : lastAliasPosition varno varattno aliasvars = some position) :
    ∃ vartype, 1 ≤ position ∧ aliasvars[position - 1]? = some (.var varno varattno vartype) := by
  simp only [lastAliasPosition, Option.map_eq_some_iff, Prod.exists] at found
  rcases found with ⟨expr, number, last, rfl⟩
  have member := List.mem_of_getLast? last
  rw [List.mem_filter] at member
  rcases isVarOf_iff.1 member.2 with ⟨vartype, rfl⟩
  rcases List.mk_mem_zipIdx_iff_le_and_getElem?_sub.1 member.1 with
    ⟨positive, present⟩
  exact ⟨vartype, positive, present⟩

/-- The last match lies among the columns added last, if one of them is. -/
theorem lastAliasPosition_append {vartype : Oid} (old : List Expr)
    {new : List Expr} (added : .var varno varattno vartype ∈ new) :
    ∃ index, index < new.length ∧
      lastAliasPosition varno varattno (old ++ new) = some (old.length + 1 + index) := by
  have nonempty :
      ((new.zipIdx (1 + old.length)).filter fun entry =>
        isVarOf varno varattno entry.1) ≠ [] := by
    rcases List.mem_iff_getElem?.1 added with ⟨index, present⟩
    intro empty
    have member :
        (Expr.var varno varattno vartype, 1 + old.length + index) ∈ new.zipIdx (1 + old.length) :=
      List.mk_mem_zipIdx_iff_le_and_getElem?_sub.2 ⟨by omega, by simpa using present⟩
    have kept := List.filter_eq_nil_iff.1 empty _ member
    simp [isVarOf] at kept
  cases last :
      ((new.zipIdx (1 + old.length)).filter fun entry =>
        isVarOf varno varattno entry.1).getLast? with
  | none => exact (nonempty (List.getLast?_eq_none_iff.1 last)).elim
  | some found =>
    rcases found with ⟨expr, number⟩
    have member := List.mem_of_getLast? last
    rw [List.mem_filter] at member
    rcases List.mk_mem_zipIdx_iff_le_and_getElem?_sub.1 member.1 with
      ⟨above, present⟩
    have inside := (List.getElem?_eq_some_iff.1 present).1
    refine ⟨number - (1 + old.length), inside, ?_⟩
    have position : old.length + 1 + (number - (1 + old.length)) =
        number := by
      omega
    have unfolded :
        lastAliasPosition varno varattno (old ++ new) =
          (((old ++ new).zipIdx 1).filter fun entry =>
            isVarOf varno varattno entry.1).getLast?.map fun found => found.2 :=
      rfl
    rw [position, unfolded, List.zipIdx_append, List.filter_append, List.getLast?_append, last]
    rfl

/-! ## Following a path of joins -/

theorem routeVar_cons (rtable : List RTE) (join : Nat) (joins : List Nat) (found : Option Nat)
    (varno varattno : Nat) :
    routeVar rtable (join :: joins) found (varno, varattno) =
      ((lastAliasPosition varno varattno (aliasvarsAt rtable join)).or
        found).bind fun attrNum =>
          routeVar rtable joins (some attrNum) (join, attrNum) := by
  rw [routeVar]
  cases (lastAliasPosition varno varattno (aliasvarsAt rtable join)).or found <;>
    rfl

/-- One more join at the end of a path. -/
theorem routeVar_append_singleton {path : List Nat} {found : Option Nat}
    {var : Nat × Nat} {join : Nat}
    (routed : routeVar rtable path found var = some (varno, varattno))
    (matched : lastAliasPosition varno varattno (aliasvarsAt rtable join) = some position) :
    routeVar rtable (path ++ [join]) found var = some (join, position) := by
  induction path generalizing found var with
  | nil =>
    simp only [routeVar, Option.some.injEq] at routed
    subst routed
    rw [List.nil_append, routeVar_cons, matched]
    rfl
  | cons first rest ih =>
    rcases var with ⟨varno', varattno'⟩
    rw [routeVar_cons, Option.bind_eq_some_iff] at routed
    rcases routed with ⟨attrNum, stepped, remaining⟩
    rw [List.cons_append, routeVar_cons, stepped]
    exact ih remaining

theorem findRTindexInJoin_eq_none
    (absent : rtindex ∉ node.leaves) :
    findRTindexInJoin rtindex node = none := by
  induction node with
  | rangeTblRef rtindex' =>
    have different : ¬ rtindex' = rtindex := by
      simpa [JoinTreeNode.leaves, eq_comm] using absent
    simp [findRTindexInJoin, different]
  | joinExpr jointype joinRTindex larg rarg quals leftIH rightIH =>
    simp only [JoinTreeNode.leaves, List.mem_append, not_or] at absent
    simp [findRTindexInJoin, leftIH absent.1, rightIH absent.2]

/-! ## Provenance attributes of a FROM item -/

/-- The join entries outside of a FROM item are left alone. -/
theorem computeJoinPAttrs_frame {pAttrs : List TargetEntry}
    (computed : computeJoinPAttrs pStack subList node rtable = some (pAttrs, rtable'))
    (outside : rtindex ∉ node.joins) :
    rtFetch rtable' rtindex = rtFetch rtable rtindex := by
  induction node generalizing rtable rtable' pAttrs with
  | rangeTblRef rtindex' =>
    simp only [computeJoinPAttrs, Option.bind_eq_bind, Option.bind_eq_some_iff] at computed
    rcases computed with ⟨_, _, equal⟩
    cases equal
    rfl
  | joinExpr jointype joinRTindex larg rarg quals leftIH rightIH =>
    simp only [JoinTreeNode.joins, List.mem_append, List.mem_singleton, not_or] at outside
    simp only [computeJoinPAttrs, Option.bind_eq_bind,
      Option.bind_eq_some_iff, Prod.exists] at computed
    rcases computed with
      ⟨_, _, leftComputed, _, _, rightComputed, rte, present, equal⟩
    cases equal
    rw [rtFetch_rtReplace _ present, if_neg outside.2,
      rightIH rightComputed outside.1.2, leftIH leftComputed outside.1.1]

theorem aliasvarsAt_congr
    (same : rtFetch rtable' rtindex = rtFetch rtable rtindex) :
    aliasvarsAt rtable' rtindex = aliasvarsAt rtable rtindex := by
  simp [aliasvarsAt, same]

/-- Provenance attributes are column references. -/
def IsVar (expr : Expr) : Prop :=
  ∃ varno varattno vartype, expr = .var varno varattno vartype

/--
A column is led through joins: each of them has the column it was led to
before as an alias column.
-/
inductive Through (rtable : List RTE) (joins : List Nat) (start : Nat × Nat) :
    Nat × Nat → Prop where
  | refl : Through rtable joins start start
  | join {varno varattno join position : Nat}
      (led : Through rtable joins start (varno, varattno))
      (isJoin : join ∈ joins)
      (matched : lastAliasPosition varno varattno (aliasvarsAt rtable join) = some position) :
      Through rtable joins start (join, position)

theorem Through.mono {joins joins' : List Nat} {start column : Nat × Nat}
    (led : Through rtable joins start column) (more : joins ⊆ joins') :
    Through rtable joins' start column := by
  induction led with
  | refl => exact .refl
  | join led isJoin matched ih => exact .join ih (more isJoin) matched

/--
A column of an input below a FROM item is seen through a column of the item
itself: the search finds it, the joins lead to it, and it has the same value.
-/
def Routed (node : JoinTreeNode) (rtable : List RTE) (rtindex attno attno' : Nat) :
    Prop :=
  ∃ path, findRTindexInJoin rtindex node = some path ∧
    routeVar rtable path none (rtindex, attno) = some (node.rtindex, attno') ∧
    Through rtable node.joins (rtindex, attno) (node.rtindex, attno') ∧
    ∀ inst input, ∀ env ∈ node.eval inst (aliasvarsAt rtable) input,
      env.lookup node.rtindex attno' = env.lookup rtindex attno

/-- A routed column stays routed at a join that has it as alias column. -/
theorem Routed.join {larg rarg : JoinTreeNode} {jointype : JoinType}
    {joinRTindex attno' : Nat} {quals : Option Expr}
    (routed : Routed node rtable rtindex attno attno')
    (nodup : (JoinTreeNode.joinExpr jointype joinRTindex larg rarg quals).rtindexes.Nodup)
    (isInput : node = larg ∨ node = rarg) (leaf : rtindex ∈ node.leaves)
    (matched :
      lastAliasPosition node.rtindex attno' (aliasvarsAt rtable joinRTindex) = some position) :
    Routed (.joinExpr jointype joinRTindex larg rarg quals) rtable rtindex attno position := by
  rcases routed with ⟨path, found, route, led, values⟩
  simp only [JoinTreeNode.rtindexes, List.nodup_append, List.mem_singleton] at nodup
  rcases nodup with ⟨⟨_, _, disjoint⟩, _, notJoin⟩
  have disjoint' : ∀ i ∈ larg.rtindexes, i ∉ rarg.rtindexes :=
    fun i inLeft inRight => disjoint i inLeft i inRight rfl
  have inside := node.leaves_subset leaf
  have foundJoin :
      findRTindexInJoin rtindex (.joinExpr jointype joinRTindex larg rarg quals) =
        some (path ++ [joinRTindex]) := by
    rcases isInput with rfl | rfl
    · simp [findRTindexInJoin, found]
    · have absent : findRTindexInJoin rtindex larg = none :=
        findRTindexInJoin_eq_none fun inLeft =>
          disjoint' rtindex (larg.leaves_subset inLeft) inside
      simp [findRTindexInJoin, found, absent]
  have inJoin :
      Through rtable (JoinTreeNode.joinExpr jointype joinRTindex larg rarg quals).joins
        (rtindex, attno) (joinRTindex, position) := by
    refine .join (led.mono ?_) (by simp [JoinTreeNode.joins]) matched
    rcases isInput with rfl | rfl <;> simp [JoinTreeNode.joins]
  refine ⟨path ++ [joinRTindex], foundJoin, routeVar_append_singleton route matched, inJoin, ?_⟩
  intro inst input env member
  rcases List.mem_map.1 member with ⟨merged, mergedIn, rfl⟩
  rcases lastAliasPosition_eq_some matched with ⟨vartype, _, present⟩
  rw [JoinTreeNode.rtindex, Env.lookup_setJoin inst present]
  have restricts := restrictsTo_of_mem_joinWith disjoint' mergedIn
  have different : ¬ rtindex = joinRTindex := by
    intro same
    rcases isInput with rfl | rfl
    · exact notJoin rtindex (List.mem_append_left _ inside) _ rfl same
    · exact notJoin rtindex (List.mem_append_right _ inside) _ rfl same
  have unchanged :
      (merged.setJoin inst (aliasvarsAt rtable joinRTindex) joinRTindex).lookup rtindex attno =
        merged.lookup rtindex attno :=
    Env.lookup_congr (by simp [Env.setJoin, Env.set, different]) attno
  rw [unchanged]
  rcases isInput with rfl | rfl
  · exact restricts.1.lookup_eq node.rtindex_mem inside (values inst input)
  · exact restricts.2.lookup_eq node.rtindex_mem inside (values inst input)

theorem mem_joinEntries (joinRTindex counter : Nat) {index : Nat} {pList : List TargetEntry}
    (inside : index < pList.length) :
    ∃ te ∈ joinEntries joinRTindex counter pList,
      te.resno = counter + index ∧
        te.expr = .var joinRTindex (counter + index) (exprType pList[index].expr) := by
  refine ⟨_, List.mem_map.2 ⟨(pList[index], counter + index), ?_, rfl⟩,
    rfl, rfl⟩
  exact List.mk_mem_zipIdx_iff_le_and_getElem?_sub.2 ⟨by omega, by simp [inside]⟩

theorem joinEntries_expr {joinRTindex counter : Nat} {pList : List TargetEntry} {te : TargetEntry}
    (member : te ∈ joinEntries joinRTindex counter pList) :
    ∃ attno vartype, te.expr = .var joinRTindex attno vartype := by
  rcases List.mem_map.1 member with ⟨⟨te', attno⟩, _, rfl⟩
  exact ⟨attno, exprType te'.expr, rfl⟩

/-- The lists the inputs below a FROM item have pushed. -/
def ListsOf (pStack : List (List TargetEntry)) (subList leaves : List Nat) :
    Prop :=
  ∀ rtindex ∈ leaves, ∃ pList,
    stackListFor pStack subList rtindex = some pList ∧ ∀ te ∈ pList, IsVar te.expr

/-- Join positions of a FROM item refer to join entries. -/
def JoinsPresent (rtable : List RTE) (joins : List Nat) : Prop :=
  ∀ rtindex ∈ joins, ∃ rte, rtFetch rtable rtindex = some rte ∧ rte.isJoin = true

theorem aliasvars_appendAliasvars {rte : RTE} (isJoin : rte.isJoin = true)
    (pList : List TargetEntry) :
    (appendAliasvars rte pList).joinaliasvars =
      rte.joinaliasvars ++ pList.map TargetEntry.expr := by
  rcases rte with ⟨kind, _, _, _, _⟩
  cases kind <;>
    simp_all [RangeTblEntry.isJoin, RangeTblEntry.joinaliasvars, appendAliasvars]

/-- The attributes of both inputs, as new alias columns of a join. -/
def aliasAttrs (leftAttrs rightAttrs : List TargetEntry) : List TargetEntry :=
  (leftAttrs ++ rightAttrs).map fun te => { te with expr := setVarattno te.resno te.expr }

section JoinStep

variable
  {jointype : JoinType}
  {larg rarg : JoinTreeNode}
  {quals : Option Expr}
  {leftAttrs rightAttrs : List TargetEntry}
  {leftTable rightTable final : List RTE}
  {rte : RTE}

/-- The joins below the two inputs of a join differ from each other and from the join. -/
theorem joins_disjoint
    (nodup : (JoinTreeNode.joinExpr jointype rtindex larg rarg quals).rtindexes.Nodup) :
    (∀ join ∈ larg.joins, join ∉ rarg.joins) ∧ rtindex ∉ larg.joins ∧ rtindex ∉ rarg.joins := by
  simp only [JoinTreeNode.rtindexes, List.nodup_append, List.mem_singleton] at nodup
  rcases nodup with ⟨⟨_, _, disjoint⟩, _, notJoin⟩
  refine ⟨fun join inLeft inRight => ?_, fun inLeft => ?_, fun inRight => ?_⟩
  · exact disjoint join (larg.joins_subset inLeft) join (rarg.joins_subset inRight) rfl
  · exact notJoin rtindex (List.mem_append_left _ (larg.joins_subset inLeft)) rtindex rfl rfl
  · exact notJoin rtindex (List.mem_append_right _ (rarg.joins_subset inRight)) rtindex rfl rfl

/-- What a range table that agrees with the result of a join step has as alias columns. -/
theorem aliasvarsAt_joinStep
    (nodup : (JoinTreeNode.joinExpr jointype rtindex larg rarg quals).rtindexes.Nodup)
    (rightComputed :
      computeJoinPAttrs pStack subList rarg leftTable = some (rightAttrs, rightTable))
    (present : rtFetch rightTable rtindex = some rte) (isJoin : rte.isJoin = true)
    {pList : List TargetEntry}
    (same :
      ∀ join ∈ (JoinTreeNode.joinExpr jointype rtindex larg rarg quals).joins,
        aliasvarsAt final join =
          aliasvarsAt (rtReplace rightTable rtindex (appendAliasvars rte pList)) join) :
    aliasvarsAt final rtindex = rte.joinaliasvars ++ pList.map TargetEntry.expr ∧
      (∀ join ∈ larg.joins, aliasvarsAt final join = aliasvarsAt leftTable join) ∧
      ∀ join ∈ rarg.joins, aliasvarsAt final join = aliasvarsAt rightTable join := by
  rcases joins_disjoint nodup with ⟨disjoint, notLeft, notRight⟩
  have other {join : Nat}
      (isOther : join ∈ larg.joins ∨ join ∈ rarg.joins) :
      aliasvarsAt final join = aliasvarsAt rightTable join := by
    have isJoinOf :
        join ∈ (JoinTreeNode.joinExpr jointype rtindex larg rarg quals).joins :=
      List.mem_append_left _ (List.mem_append.2 isOther)
    rw [same join isJoinOf]
    apply aliasvarsAt_congr
    rw [rtFetch_rtReplace _ present, if_neg]
    rintro rfl
    exact isOther.elim notLeft notRight
  refine ⟨?_, fun join inLeft => ?_, fun join inRight => other (.inr inRight)⟩
  · rw [same rtindex (by simp [JoinTreeNode.joins]), aliasvarsAt,
      rtFetch_rtReplace _ present, if_pos rfl]
    exact aliasvars_appendAliasvars isJoin pList
  · rw [other (.inl inLeft)]
    exact aliasvarsAt_congr (computeJoinPAttrs_frame rightComputed (disjoint join inLeft))

/-- A routed attribute of an input is routed through its alias column. -/
theorem Routed.joinStep {node : JoinTreeNode} {te te' : TargetEntry} {leaf : Nat}
    (nodup : (JoinTreeNode.joinExpr jointype rtindex larg rarg quals).rtindexes.Nodup)
    (aliasvars :
      aliasvarsAt final rtindex =
        rte.joinaliasvars ++ (aliasAttrs leftAttrs rightAttrs).map TargetEntry.expr)
    (isInput : node = larg ∨ node = rarg) (isLeaf : leaf ∈ node.leaves)
    (isAttr : te' ∈ leftAttrs ++ rightAttrs)
    (expr : ∃ attno vartype, te'.expr = .var node.rtindex attno vartype)
    (routed : Routed node final leaf te.resno te'.resno) :
    ∃ te'' ∈ joinEntries rtindex (rte.joinaliasvars.length + 1)
        (aliasAttrs leftAttrs rightAttrs),
      Routed (.joinExpr jointype rtindex larg rarg quals) final leaf te.resno te''.resno := by
  rcases expr with ⟨attno, vartype, expr⟩
  have added :
      Expr.var node.rtindex te'.resno vartype ∈
        (aliasAttrs leftAttrs rightAttrs).map TargetEntry.expr := by
    refine List.mem_map.2 ⟨_, List.mem_map.2 ⟨te', isAttr, rfl⟩, ?_⟩
    simp [expr, setVarattno]
  rcases lastAliasPosition_append rte.joinaliasvars added with ⟨index, inside, matched⟩
  rw [← aliasvars] at matched
  rw [List.length_map] at inside
  rcases mem_joinEntries rtindex (rte.joinaliasvars.length + 1) inside with
    ⟨te'', te''In, resno, _⟩
  refine ⟨te'', te''In, ?_⟩
  rw [resno]
  exact routed.join nodup isInput isLeaf matched

end JoinStep

/--
All provenance attributes of the inputs below a FROM item are routed, in
any range table that agrees with the result on the joins of the item.
-/
theorem computeJoinPAttrs_routes
    (node : JoinTreeNode) (nodup : node.rtindexes.Nodup)
    (joins : JoinsPresent rtable node.joins) (lists : ListsOf pStack subList node.leaves) :
    ∃ pAttrs rtable',
      computeJoinPAttrs pStack subList node rtable =
          some (pAttrs, rtable') ∧
        (∀ te ∈ pAttrs, ∃ attno vartype, te.expr = .var node.rtindex attno vartype) ∧
        ∀ final,
          (∀ join ∈ node.joins, aliasvarsAt final join = aliasvarsAt rtable' join) →
          ∀ rtindex ∈ node.leaves, ∀ pList,
            stackListFor pStack subList rtindex = some pList →
            ∀ te ∈ pList, ∃ te' ∈ pAttrs, Routed node final rtindex te.resno te'.resno := by
  induction node generalizing rtable with
  | rangeTblRef rtindex =>
    rcases lists rtindex (by simp [JoinTreeNode.leaves]) with
      ⟨pList, onStack, vars⟩
    refine ⟨pList.map fun te =>
        { te with expr := setVarno rtindex te.expr },
      rtable, by simp [computeJoinPAttrs, onStack], ?_, ?_⟩
    · intro te member
      rcases List.mem_map.1 member with ⟨te', member', rfl⟩
      rcases vars te' member' with ⟨varno, varattno, vartype, equal⟩
      exact ⟨varattno, vartype, by simp [equal, setVarno, JoinTreeNode.rtindex]⟩
    · intro final _ rtindex' leaf pList' onStack' te member
      have same : rtindex' = rtindex := by
        simpa [JoinTreeNode.leaves] using leaf
      subst same
      rw [onStack] at onStack'
      cases onStack'
      refine ⟨_, List.mem_map.2 ⟨te, member, rfl⟩, [], ?_, rfl, .refl, fun _ _ _ _ => rfl⟩
      simp [findRTindexInJoin]
  | joinExpr jointype rtindex larg rarg quals leftIH rightIH =>
    have parts := nodup
    simp only [JoinTreeNode.rtindexes, List.nodup_append, List.mem_singleton] at parts
    rcases parts with ⟨⟨leftNodup, rightNodup, _⟩, _⟩
    rcases joins_disjoint nodup with ⟨disjoint, notLeft, notRight⟩
    rcases leftIH leftNodup (fun join member => joins join (by simp [JoinTreeNode.joins, member]))
        (fun i member => lists i (by simp [JoinTreeNode.leaves, member])) with
      ⟨leftAttrs, leftTable, leftComputed, leftExprs, leftRoutes⟩
    have rightJoins : JoinsPresent leftTable rarg.joins := by
      intro join member
      rw [computeJoinPAttrs_frame leftComputed fun inLeft => disjoint join inLeft member]
      exact joins join (by simp [JoinTreeNode.joins, member])
    rcases rightIH rightNodup rightJoins
        (fun i member => lists i (by simp [JoinTreeNode.leaves, member])) with
      ⟨rightAttrs, rightTable, rightComputed, rightExprs, rightRoutes⟩
    rcases joins rtindex (by simp [JoinTreeNode.joins]) with
      ⟨rte, present, isJoin⟩
    have presentRight : rtFetch rightTable rtindex = some rte := by
      rw [computeJoinPAttrs_frame rightComputed notRight,
        computeJoinPAttrs_frame leftComputed notLeft, present]
    refine ⟨joinEntries rtindex (rte.joinaliasvars.length + 1) (aliasAttrs leftAttrs rightAttrs),
      rtReplace rightTable rtindex (appendAliasvars rte (aliasAttrs leftAttrs rightAttrs)),
      ?_, fun te member => joinEntries_expr member, ?_⟩
    · simp [computeJoinPAttrs, leftComputed, rightComputed, presentRight, aliasAttrs]
    · intro final same i leaf pushed onStack te member
      rcases aliasvarsAt_joinStep nodup rightComputed presentRight isJoin same with
        ⟨aliasvars, sameLeft, sameRight⟩
      rcases List.mem_append.1 leaf with inLeft | inRight
      · rcases leftRoutes final sameLeft i inLeft pushed onStack te
            member with ⟨te', te'In, routed⟩
        exact routed.joinStep nodup aliasvars (.inl rfl) inLeft
          (List.mem_append_left _ te'In) (leftExprs te' te'In)
      · rcases rightRoutes final sameRight i inRight pushed onStack te
            member with ⟨te', te'In, routed⟩
        exact routed.joinStep nodup aliasvars (.inr rfl) inRight
          (List.mem_append_right _ te'In) (rightExprs te' te'In)

/-! ## FROM clauses -/

theorem correctJoinRTEs_cons {rest : List JoinTreeNode}
    {pAttrs : List TargetEntry}
    (computed : computeJoinPAttrs pStack subList item rtable = some (pAttrs, rtable')) :
    correctJoinRTEs pStack subList (item :: rest) rtable =
      correctJoinRTEs pStack subList rest rtable' := by
  cases item with
  | rangeTblRef rtindex =>
    simp only [computeJoinPAttrs, Option.bind_eq_bind, Option.bind_eq_some_iff] at computed
    rcases computed with ⟨_, _, equal⟩
    cases equal
    rfl
  | joinExpr jointype rtindex larg rarg quals =>
    simp [correctJoinRTEs, computed]

/-- The joins of a FROM item are no joins of the items behind it. -/
theorem not_mem_joins_rest {rest : List JoinTreeNode}
    (nodup : ((item :: rest).flatMap JoinTreeNode.rtindexes).Nodup) {join : Nat}
    (inItem : join ∈ item.joins) : join ∉ rest.flatMap JoinTreeNode.joins := by
  intro inRest
  rw [List.flatMap_cons, List.nodup_append] at nodup
  rcases List.mem_flatMap.1 inRest with ⟨other, otherIn, inOther⟩
  exact nodup.2.2 join (item.joins_subset inItem) join
    (List.mem_flatMap.2 ⟨other, otherIn, other.joins_subset inOther⟩) rfl

theorem JoinsPresent.rest {rest : List JoinTreeNode} {pAttrs : List TargetEntry}
    (joins : JoinsPresent rtable ((item :: rest).flatMap JoinTreeNode.joins))
    (nodup : ((item :: rest).flatMap JoinTreeNode.rtindexes).Nodup)
    (computed : computeJoinPAttrs pStack subList item rtable = some (pAttrs, rtable')) :
    JoinsPresent rtable' (rest.flatMap JoinTreeNode.joins) := by
  intro join inRest
  rw [computeJoinPAttrs_frame computed fun inItem => not_mem_joins_rest nodup inItem inRest]
  exact joins join (List.mem_append_right _ inRest)

theorem correctJoinRTEs_routes
    (fromlist : List JoinTreeNode)
    (nodup : (fromlist.flatMap JoinTreeNode.rtindexes).Nodup)
    (joins : JoinsPresent rtable (fromlist.flatMap JoinTreeNode.joins))
    (lists : ListsOf pStack subList (fromlist.flatMap JoinTreeNode.leaves)) :
    ∃ rtable',
      correctJoinRTEs pStack subList fromlist rtable = some rtable' ∧
        (∀ rtindex ∉ fromlist.flatMap JoinTreeNode.joins,
          rtFetch rtable' rtindex = rtFetch rtable rtindex) ∧
        ∀ item ∈ fromlist, ∀ rtindex ∈ item.leaves, ∀ pList,
          stackListFor pStack subList rtindex = some pList →
          ∀ te ∈ pList, ∃ attno, Routed item rtable' rtindex te.resno attno := by
  induction fromlist generalizing rtable with
  | nil => exact ⟨rtable, rfl, fun _ _ => rfl, by simp⟩
  | cons item rest ih =>
    have parts := nodup
    rw [List.flatMap_cons, List.nodup_append] at parts
    rw [List.flatMap_cons] at lists
    rcases computeJoinPAttrs_routes item parts.1
        (fun join member => joins join (List.mem_append_left _ member))
        (fun i member => lists i (List.mem_append_left _ member)) with
      ⟨pAttrs, middle, computed, _, routes⟩
    rcases ih parts.2.1 (joins.rest nodup computed)
        (fun i member => lists i (List.mem_append_right _ member)) with
      ⟨rtable', corrected, frame, restRoutes⟩
    have sameItem : ∀ join ∈ item.joins, aliasvarsAt rtable' join = aliasvarsAt middle join :=
      fun join inItem => aliasvarsAt_congr (frame join (not_mem_joins_rest nodup inItem))
    refine ⟨rtable', ?_, ?_, ?_⟩
    · rw [correctJoinRTEs_cons computed, corrected]
    · intro rtindex outside
      rw [List.flatMap_cons, List.mem_append, not_or] at outside
      rw [frame rtindex outside.2, computeJoinPAttrs_frame computed outside.1]
    · intro item' isItem i leaf pList onStack te member
      rcases List.mem_cons.1 isItem with rfl | inRest
      · rcases routes rtable' sameItem i leaf pList onStack te member with
          ⟨te', _, routed⟩
        exact ⟨te'.resno, routed⟩
      · exact restRoutes item' inRest i leaf pList onStack te member

theorem joinRTElist_eq_nil {fromlist : List JoinTreeNode}
    (absent : ∀ item ∈ fromlist, rtindex ∈ item.leaves → item = .rangeTblRef rtindex) :
    joinRTElist rtindex fromlist = [] := by
  induction fromlist with
  | nil => rfl
  | cons item rest ih =>
    have restEmpty := ih fun item' member =>
      absent item' (List.mem_cons_of_mem _ member)
    cases item with
    | rangeTblRef rtindex' => exact restEmpty
    | joinExpr jointype joinRTindex larg rarg quals =>
      have notLeaf :
          rtindex ∉ (JoinTreeNode.joinExpr jointype joinRTindex larg rarg quals).leaves := by
        intro leaf
        have impossible := absent _ List.mem_cons_self leaf
        simp at impossible
      simp only [joinRTElist, findRTindexInJoin_eq_none notLeaf, restEmpty]

theorem joinRTElist_eq_path {fromlist : List JoinTreeNode}
    (nodup : (fromlist.flatMap JoinTreeNode.rtindexes).Nodup)
    (isItem : item ∈ fromlist) (leaf : rtindex ∈ item.leaves) {path : List Nat}
    (found : findRTindexInJoin rtindex item = some path) :
    joinRTElist rtindex fromlist = path := by
  induction fromlist with
  | nil => simp at isItem
  | cons first rest ih =>
    rw [List.flatMap_cons, List.nodup_append] at nodup
    rcases nodup with ⟨_, restNodup, disjoint⟩
    rcases List.mem_cons.1 isItem with rfl | inRest
    · cases item with
      | rangeTblRef rtindex' =>
        have same : rtindex = rtindex' := by
          simpa [JoinTreeNode.leaves] using leaf
        subst same
        have noPath : path = [] := by
          simpa [findRTindexInJoin, eq_comm] using found
        rw [noPath]
        apply joinRTElist_eq_nil
        intro item' isItem' leaf'
        rcases List.mem_cons.1 isItem' with rfl | inRest'
        · rfl
        · exact (disjoint rtindex (by simp [JoinTreeNode.rtindexes]) rtindex
            (List.mem_flatMap.2 ⟨item', inRest', item'.leaves_subset leaf'⟩) rfl).elim
      | joinExpr jointype joinRTindex larg rarg quals =>
        simp only [joinRTElist, found]
    · have notFirst : findRTindexInJoin rtindex first = none :=
        findRTindexInJoin_eq_none fun inFirst =>
          disjoint rtindex (first.leaves_subset inFirst) rtindex
            (List.mem_flatMap.2 ⟨item, inRest, item.leaves_subset leaf⟩) rfl
      have restPath := ih restNodup inRest
      cases first with
      | rangeTblRef rtindex' => exact restPath
      | joinExpr jointype joinRTindex larg rarg quals =>
        simp only [joinRTElist, notFirst, restPath]

/--
Where the query sees a column, the search finds it, the joins lead to it, and
it has the value of that column in every row combination.
-/
def SeenAs (query : Query) (rtindex attno varno varattno : Nat) :
    Prop :=
  getRTindexForProvTE query rtindex attno = some (varno, varattno) ∧
    Through query.rtable (query.fromlist.flatMap JoinTreeNode.joins)
      (rtindex, attno) (varno, varattno) ∧
    ∀ inst input,
      ∀ env ∈ evalFromlist inst (aliasvarsAt query.rtable) input
          query.fromlist,
        env.lookup varno varattno = env.lookup rtindex attno

theorem Routed.seenAs {query : Query}
    (nodup : (query.fromlist.flatMap JoinTreeNode.rtindexes).Nodup)
    (isItem : item ∈ query.fromlist) {attno' : Nat} (leaf : rtindex ∈ item.leaves)
    (routed : Routed item query.rtable rtindex attno attno') :
    SeenAs query rtindex attno item.rtindex attno' := by
  rcases routed with ⟨path, found, route, led, values⟩
  refine ⟨?_, led.mono fun join isJoin => List.mem_flatMap.2 ⟨item, isItem, isJoin⟩, ?_⟩
  · rw [getRTindexForProvTE, joinRTElist_eq_path nodup isItem leaf found]
    exact route
  · intro inst input env member
    rcases evalFromlist_restrict nodup member isItem with
      ⟨part, partIn, same⟩
    rw [Env.lookup_congr (same _ item.rtindex_mem),
      Env.lookup_congr (same _ (item.leaves_subset leaf))]
    exact values inst input part partIn

/-! ## Joins which have all columns of their inputs -/

/--
The alias columns of every join of a FROM item contain all columns of its
two inputs.
-/
def JoinsCover (cols : Nat → Nat → Prop) (aliasvars : Nat → List Expr) :
    JoinTreeNode → Prop
  | .rangeTblRef _ => True
  | .joinExpr _ rtindex larg rarg _ =>
    JoinsCover cols aliasvars larg ∧ JoinsCover cols aliasvars rarg ∧
      (∀ side, side = larg ∨ side = rarg →
        ∀ attno, cols side.rtindex attno → ∃ vartype,
          .var side.rtindex attno vartype ∈ aliasvars rtindex) ∧
      ∀ attno, FirstColumns (aliasvars rtindex).length attno → cols rtindex attno

/-- Then all columns of all inputs can be led to the top. -/
theorem Routed.of_joinsCover {cols : Nat → Nat → Prop}
    (nodup : node.rtindexes.Nodup) (cover : JoinsCover cols (aliasvarsAt rtable) node)
    (leaf : rtindex ∈ node.leaves) (column : cols rtindex attno) :
    ∃ attno', cols node.rtindex attno' ∧ Routed node rtable rtindex attno attno' := by
  induction node with
  | rangeTblRef rtindex' =>
    have same : rtindex = rtindex' := by
      simpa [JoinTreeNode.leaves] using leaf
    subst same
    refine ⟨attno, column, [], ?_, rfl, .refl, fun _ _ _ _ => rfl⟩
    simp [findRTindexInJoin]
  | joinExpr jointype joinRTindex larg rarg quals leftIH rightIH =>
    rcases cover with ⟨leftCover, rightCover, covered, inside⟩
    have through {side : JoinTreeNode} (isSide : side = larg ∨ side = rarg)
        (leaf : rtindex ∈ side.leaves)
        (below : ∃ attno', cols side.rtindex attno' ∧ Routed side rtable rtindex attno attno') :
        ∃ attno', cols joinRTindex attno' ∧
          Routed (.joinExpr jointype joinRTindex larg rarg quals) rtable
            rtindex attno attno' := by
      rcases below with ⟨attno', column', routed⟩
      rcases covered side isSide attno' column' with ⟨vartype, added⟩
      rcases lastAliasPosition_append [] added with
        ⟨index, bound, matched⟩
      rw [List.nil_append] at matched
      refine ⟨_, inside _ ?_, routed.join nodup isSide leaf matched⟩
      exact ⟨by omega, by simp; omega⟩
    simp only [JoinTreeNode.leaves, List.mem_append] at leaf
    simp only [JoinTreeNode.rtindexes, List.nodup_append] at nodup
    rcases leaf with leaf | leaf
    · exact through (.inl rfl) leaf (leftIH nodup.1.1 leftCover leaf)
    · exact through (.inr rfl) leaf (rightIH nodup.1.2.1 rightCover leaf)

end Ldv.Perm
