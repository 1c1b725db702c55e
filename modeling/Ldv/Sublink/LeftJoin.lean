import Ldv.Sublink.Search

/-!
# The Left strategy

The FROM items of a query are folded into one join, and the rewritten query
of each uncorrelated sublink is joined to it by a left join.  For an ANY
sublink the join condition asks that the test is true for the row or that
the whole sublink is false, for an ALL sublink that the test is false or
the whole sublink is true.
-/

namespace Ldv.Sublink

open Ldv.Sql
open Relational

variable
  {Sub : Type}
  {subs : Subqueries Sub}

/-! ## The rewrite -/

/--
The join condition for rows of the entry `rtIndex`; `csub` stands for the
value of the sublink.
-/
def createJoinCondition (csub : Expr Sub) (info : SublinkInfo Sub)
    (rtIndex : Nat) : Expr Sub :=
  let csubPlus := replaceParams rtIndex info.sublink.testexpr
  match info.sublink.subLinkType with
  | .any => Expr.or [csubPlus, Expr.not csub]
  | .all => Expr.or [csub, Expr.not csubPlus]
  | _ => Expr.trueConst

/--
Joins a query with one FROM item and a rewritten sublink query.  A query
without range table gets the sublink query as its only FROM item, with the
join condition in place of its WHERE clause.  A query with a range table
but without FROM item reads through a null pointer, which is `none` here,
as is a sublink query on which the rewriter stops.
-/
def addLeftJoinWithRewrittenSublink (subs : Subqueries Sub)
    (query : Query Sub) (info : SublinkInfo Sub) (csub : Expr Sub) :
    Option (Query Sub × Nat) := do
  let rewrittenSub ← subs.rewriteQueryNode info.sublink.subselect
  let subIndex := query.rtable.length + 1
  let rtable := query.rtable ++ [.subquery rewrittenSub []]
  let condition := createJoinCondition csub info subIndex
  match query.fromlist, query.rtable with
  | item :: _, _ =>
    some ({ query with
      rtable := rtable ++ [joinRTE subs rtable item (.rangeTblRef subIndex)]
      fromlist :=
        [.joinExpr .left (subIndex + 1) item (.rangeTblRef subIndex)
          (some condition)] }, subIndex)
  | [], [] =>
    some ({ query with
      rtable := rtable
      fromlist := [.rangeTblRef subIndex]
      quals := some condition }, subIndex)
  | [], _ :: _ => none

/-- The rewritten query and the position of the sublink query. -/
def rewriteSublinkUsingLeftJoin (subs : Subqueries Sub)
    (query : Query Sub) (info : SublinkInfo Sub) :
    Option (Query Sub × Nat) :=
  addLeftJoinWithRewrittenSublink subs (joinQueryRTEs subs query) info info.sublink.expr

/-- Rewrites sublinks one after the other, with their positions. -/
def rewriteSublinksUsingLeftJoin (subs : Subqueries Sub) :
    Query Sub → List (SublinkInfo Sub) → Option (Query Sub × List Nat)
  | query, [] => some (query, [])
  | query, info :: rest => do
    let (query, subIndex) ← rewriteSublinkUsingLeftJoin subs query info
    let (query, subList) ← rewriteSublinksUsingLeftJoin subs query rest
    return (query, subIndex :: subList)

/-! ## Rows a combination is joined with -/

/-- Does the row of the rewritten sublink query belong to the provenance? -/
def FitsSublink (inst : Instance subs) (scope : Scope)
    (info : SublinkInfo Sub) (row : Row) : Prop :=
  match info.sublink.subLinkType with
  | .any =>
    (info.sublink.testexpr.eval inst scope row).isTrue = true ∨
      info.sublink.expr.eval inst scope [] = .bool false
  | .all =>
    info.sublink.testexpr.eval inst scope row = .bool false ∨
      (info.sublink.expr.eval inst scope []).isTrue = true
  | _ => True

/--
A combination of rows of the original query goes with a row of the
rewritten sublink query which fits, or with none if no row does.
-/
def Attaches (inst : Instance subs) (outer : Scope)
    (info : SublinkInfo Sub) (env : Env) : Option Row → Prop
  | some row =>
    row ∈ inst.rewrittenRows info.sublink.subselect (Scope.push Env.empty outer) ∧
      FitsSublink inst (Scope.push env outer) info row
  | none =>
    ∀ row ∈ inst.rewrittenRows info.sublink.subselect (Scope.push Env.empty outer),
      ¬ FitsSublink inst (Scope.push env outer) info row

/-- A combination with a row of the entry, or without one. -/
def attachRow (env : Env) (entry : Nat) : Option Row → Env
  | some row => env.merge (Env.single entry row)
  | none => env

theorem attachRow_self {env : Env} {entry : Nat} (absent : env entry = none) (row : Option Row) :
    attachRow env entry row entry = row := by
  cases row with
  | some row => exact Env.merge_single_self absent row
  | none => exact absent

theorem AgreeUpTo.attachRow {limit entry : Nat} (later : limit < entry) (env : Env)
    (row : Option Row) :
    AgreeUpTo limit env (attachRow env entry row) := by
  cases row with
  | some row => exact AgreeUpTo.merge_single later env row
  | none => exact AgreeUpTo.refl limit env

section Rows

variable
  {inst : Instance subs}
  {outer : Scope}
  {info : SublinkInfo Sub}

theorem exists_attaches (env : Env) :
    ∃ row, Attaches inst outer info env row := by
  by_cases fits : ∃ row ∈ inst.rewrittenRows info.sublink.subselect (Scope.push Env.empty outer),
    FitsSublink inst (Scope.push env outer) info row
  · rcases fits with ⟨row, member, holds⟩
    exact ⟨some row, member, holds⟩
  · exact ⟨none, fun row member holds => fits ⟨row, member, holds⟩⟩

/-- Columns of an uncorrelated sublink are columns of its test. -/
theorem vars_of_isUncorrelated (uncorrelated : info.isUncorrelated subs = true) {ref : Var}
    (member : ref ∈ info.sublink.expr.vars subs) :
    ref ∈ info.sublink.testexpr.vars subs := by
  simpa [SubLink.expr, Expr.vars, corrVars_of_isUncorrelated uncorrelated] using member

theorem fitsSublink_congr {scope scope' : Scope}
    (agree : ∀ ref ∈ info.sublink.expr.vars subs, scope ref = scope' ref)
    (row : Row) :
    FitsSublink inst scope info row ↔ FitsSublink inst scope' info row := by
  have test := Expr.eval_congr inst row info.sublink.testexpr
    fun ref member => agree ref (by simp [SubLink.expr, Expr.vars, member])
  have value := Expr.eval_congr inst [] info.sublink.expr agree
  unfold FitsSublink
  rw [test, value]

theorem attaches_congr {env env' : Env} (uncorrelated : info.isUncorrelated subs = true)
    (agree :
      ∀ ref ∈ info.sublink.testexpr.vars subs, Scope.push env outer ref = Scope.push env' outer ref)
    (row : Option Row) :
    Attaches inst outer info env row ↔ Attaches inst outer info env' row := by
  have fits := @fitsSublink_congr Sub subs inst info _ _ fun ref member =>
    agree ref (vars_of_isUncorrelated uncorrelated member)
  cases row with
  | none => exact forall₂_congr fun row _ => not_congr (fits row)
  | some row => exact and_congr_right fun _ => fits row

/-- The join condition holds for the rows which fit. -/
theorem passes_createJoinCondition_iff {scope : Scope} {env : Env} {entry : Nat} {row : Row}
    {csub : Expr Sub}
    (value : csub.eval inst (Scope.push env outer) [] = info.sublink.expr.eval inst scope [])
    (agree : ∀ ref ∈ info.sublink.testexpr.vars subs, scope ref = Scope.push env outer ref)
    (present : env entry = some row)
    (plain :
      info.sublink.subLinkType = .any ∨ info.sublink.subLinkType = .all →
        isPlainTest (subs.targetListLength info.sublink.subselect) info.sublink.testexpr = true) :
    passes inst (Scope.push env outer)
        (some (createJoinCondition csub info entry)) = true ↔
      FitsSublink inst scope info row := by
  have test :
      info.sublink.subLinkType = .any ∨ info.sublink.subLinkType = .all →
        (replaceParams entry info.sublink.testexpr).eval inst (Scope.push env outer) [] =
          info.sublink.testexpr.eval inst scope row := fun kind =>
    eval_replaceParams inst (fun paramid _ _ => Env.push_column present outer paramid) [] _
      (plain kind) agree
  cases kind : info.sublink.subLinkType with
  | any =>
    simp only [createJoinCondition, FitsSublink, kind, passes]
    rw [isTrue_or_iff, isTrue_not_iff, test (.inl kind), value]
  | all =>
    simp only [createJoinCondition, FitsSublink, kind, passes]
    rw [isTrue_or_iff, isTrue_not_iff, test (.inr kind), value, or_comm]
  | «exists» =>
    simp [createJoinCondition, FitsSublink, kind, passes, Expr.trueConst, Expr.eval]
  | expr =>
    simp [createJoinCondition, FitsSublink, kind, passes, Expr.trueConst, Expr.eval]

end Rows

/-! ## Combinations of the rewritten query -/

/--
An uncorrelated sublink whose test reads the FROM clause, and whose
parameters do not stand in the tests of other sublinks.
-/
structure LeftApplies (subs : Subqueries Sub) (query : Query Sub)
    (info : SublinkInfo Sub) : Prop where
  uncorrelated : info.isUncorrelated subs = true
  rewrites : (subs.rewriteQueryNode info.sublink.subselect).isSome = true
  testVarnos : ∀ varno ∈ info.sublink.testexpr.varnos subs, varno ∈ query.rtindexes
  plainTest :
    info.sublink.subLinkType = .any ∨ info.sublink.subLinkType = .all →
      isPlainTest (subs.targetListLength info.sublink.subselect) info.sublink.testexpr = true

/--
The rewritten query combines each row combination of the original one with
the rows of the sublink queries which belong to it, at the positions
`subList`, in all ways.
-/
structure CombinesSublinks (inst : Instance subs) (outer : Scope)
    (query rewritten : Query Sub) (infos : List (SublinkInfo Sub))
    (subList : List Nat) : Prop where
  sound :
    ∀ env ∈ rewritten.combinations inst outer,
      ∃ base ∈ query.combinations inst outer,
        AgreeUpTo query.rtable.length base env ∧
          List.Forall₂
            (fun info entry => Attaches inst outer info base (env entry))
            infos subList
  complete :
    ∀ base ∈ query.combinations inst outer, ∀ rows,
      List.Forall₂ (fun info row => Attaches inst outer info base row) infos rows →
      ∃ env ∈ rewritten.combinations inst outer,
        AgreeUpTo query.rtable.length base env ∧ subList.map (fun entry => env entry) = rows

/-- What a rewrite keeps of a query, so that it can be followed by others. -/
structure ExtendsQuery (subs : Subqueries Sub)
    (query rewritten : Query Sub) : Prop where
  wellFormed : rewritten.WellFormed subs
  hasFrom : rewritten.fromlist ≠ []
  longer : query.rtable.length ≤ rewritten.rtable.length
  rtindexes : ∀ rtindex ∈ query.rtindexes, rtindex ∈ rewritten.rtindexes
  targetList : rewritten.targetList = query.targetList
  quals : rewritten.quals = query.quals

section Step

variable
  {inst : Instance subs}
  {outer : Scope}
  {query : Query Sub}
  {info : SublinkInfo Sub}

/-- Folding the FROM items gives a query with the same combinations. -/
theorem extendsQuery_joinQueryRTEs (wellFormed : query.WellFormed subs)
    (hasFrom : query.fromlist ≠ []) :
    ExtendsQuery subs query (joinQueryRTEs subs query) where
  wellFormed := wellFormed.joinQueryRTEs
  hasFrom := by
    rcases @joinQueryRTEs_fromlist Sub subs query hasFrom with
      ⟨item, isItem⟩
    simp [isItem]
  longer := by
    rcases @joinQueryRTEs_rtable Sub subs query with ⟨added, longer, -⟩
    simp [longer]
  rtindexes _ member := rtindexes_joinQueryRTEs member
  targetList := joinQueryRTEs_targetList query
  quals := joinQueryRTEs_quals query

theorem sameUpTo_combinations_joinQueryRTEs (wellFormed : query.WellFormed subs) :
    SameUpTo (AgreeUpTo query.rtable.length)
      (query.combinations inst outer)
      ((joinQueryRTEs subs query).combinations inst outer) := by
  unfold Query.combinations
  rw [joinQueryRTEs_quals]
  exact Lifting.set.filter (sameUpTo_joinQueryRTEs inst outer wellFormed)
    fun env env' agree => passes_of_agreeUpTo inst agree wellFormed.quals

variable
  {item : JoinTreeNode Sub}
  {rewrittenSub : Sub}

/-- The query with a left join above its only FROM item. -/
def withLeftJoin (subs : Subqueries Sub) (query : Query Sub) (rewrittenSub : Sub)
    (info : SublinkInfo Sub) (csub : Expr Sub) (item : JoinTreeNode Sub) :
    Query Sub :=
  { query with
    rtable := query.rtable ++
      [.subquery rewrittenSub [],
        joinRTE subs (query.rtable ++ [.subquery rewrittenSub []]) item
          (.rangeTblRef (query.rtable.length + 1))]
    fromlist :=
      [.joinExpr .left (query.rtable.length + 2) item
        (.rangeTblRef (query.rtable.length + 1))
        (some (createJoinCondition csub info (query.rtable.length + 1)))] }

theorem addLeftJoinWithRewrittenSublink_eq {csub : Expr Sub} (isItem : query.fromlist = [item])
    (rewrites : subs.rewriteQueryNode info.sublink.subselect = some rewrittenSub) :
    addLeftJoinWithRewrittenSublink subs query info csub =
      some (withLeftJoin subs query rewrittenSub info csub item, query.rtable.length + 1) := by
  simp [addLeftJoinWithRewrittenSublink, isItem, withLeftJoin, rewrites]

/-- The join condition reads the FROM item and the sublink query. -/
theorem varnos_createJoinCondition {csub : Expr Sub} {entry varno : Nat}
    (member : varno ∈ (createJoinCondition csub info entry).varnos subs) :
    varno ∈ csub.varnos subs ∨ varno ∈ info.sublink.testexpr.varnos subs ∨ varno = entry := by
  rcases Expr.mem_varnos.1 member with ⟨ref, isVar, ownLevel, rfl⟩
  have cases :
      ref ∈ csub.vars subs ∨ ref ∈ (replaceParams entry info.sublink.testexpr).vars subs := by
    unfold createJoinCondition at isVar
    split at isVar
    · simp only [Expr.or, Expr.not, Expr.vars, Expr.varsList,
        List.append_nil, List.mem_append] at isVar
      exact isVar.symm
    · simpa only [Expr.or, Expr.not, Expr.vars, Expr.varsList,
        List.append_nil, List.mem_append] using isVar
    · simp [Expr.trueConst, Expr.vars] at isVar
  rcases cases with inSub | inTest
  · exact .inl (Expr.mem_varnos.2 ⟨ref, inSub, ownLevel, rfl⟩)
  · rcases vars_replaceParams entry _ ref inTest with old | new
    · exact .inr (.inl (Expr.mem_varnos.2 ⟨ref, old, ownLevel, rfl⟩))
    · exact .inr (.inr new.2)

theorem extendsQuery_withLeftJoin {csub : Expr Sub} (wellFormed : query.WellFormed subs)
    (isItem : query.fromlist = [item]) (applies : LeftApplies subs query info)
    (rewrites : subs.rewriteQueryNode info.sublink.subselect = some rewrittenSub)
    (csubVarnos : ∀ varno ∈ csub.varnos subs, varno ∈ query.rtindexes) :
    ExtendsQuery subs query (withLeftJoin subs query rewrittenSub info csub item) where
  wellFormed := by
    rcases Query.plannable_iff.1 wellFormed.plannable with
      ⟨entries, items, reads⟩
    have fit : ItemsFit (query.rtable.length + 1 + 1)
        (withLeftJoin subs query rewrittenSub info csub item).fromlist :=
      (ItemsFit.addEntry (isItem ▸ wellFormed.itemsFit)).joinFirst
    have rtindexes : query.rtindexes = item.rtindexes := by
      simp [Query.rtindexes, isItem]
    refine ⟨Query.plannable_iff.2 ⟨?_, ?_, ?_⟩, ?_, ?_⟩
    · intro rte member
      simp only [withLeftJoin, List.mem_append, List.mem_cons, List.not_mem_nil, or_false] at member
      rcases member with old | rfl | rfl
      · exact entries rte old
      · simp [RangeTblEntry.plannable, corrVars_rewritten applies.uncorrelated rewrites]
      · rfl
    · intro joined member
      rw [List.mem_singleton.1 member]
      have condition :
          ∀ varno ∈ (createJoinCondition csub info (query.rtable.length + 1)).varnos subs,
            varno ∈ item.rtindexes ∨ varno = query.rtable.length + 1 := by
        intro varno inCondition
        rcases varnos_createJoinCondition inCondition with
          inSub | inTest | isEntry
        · exact .inl (rtindexes ▸ csubVarnos varno inSub)
        · exact .inl (rtindexes ▸ applies.testVarnos varno inTest)
        · exact .inr isEntry
      have below := items item (by simp [isItem])
      simpa [JoinTreeNode.plannable, qualVarnos, JoinTreeNode.rtindexes, below] using condition
    · intro varno member
      have inItem := reads varno member
      rw [rtindexes] at inItem
      simp [Query.rtindexes, withLeftJoin, JoinTreeNode.rtindexes, inItem]
    · exact fit.nodup
    · have length :
          (withLeftJoin subs query rewrittenSub info csub item).rtable.length =
            query.rtable.length + 1 + 1 := by
        simp [withLeftJoin]
      rw [length]
      exact fit.inside
  hasFrom := by simp [withLeftJoin]
  longer := by simp [withLeftJoin]
  rtindexes := by
    intro rtindex member
    have inItem : rtindex ∈ item.rtindexes := by
      simpa [Query.rtindexes, isItem] using member
    simp [Query.rtindexes, withLeftJoin, JoinTreeNode.rtindexes, inItem]
  targetList := rfl
  quals := rfl

section Joined

variable
  {csub : Expr Sub}
  (wellFormed : query.WellFormed subs)
  (isItem : query.fromlist = [item])
  (applies : LeftApplies subs query info)
  (rewrites : subs.rewriteQueryNode info.sublink.subselect = some rewrittenSub)
  (csubValue :
    ∀ base env, AgreeUpTo query.rtable.length base env →
      csub.eval inst (Scope.push env outer) [] =
        info.sublink.expr.eval inst (Scope.push base outer) [])

include wellFormed isItem

/-- The rows of the FROM item have none of the sublink query. -/
theorem absent_of_mem_item {left : Env} (member : left ∈ item.eval inst outer query.rtable) :
    left (query.rtable.length + 1) = none :=
  JoinTreeNode.eval_beyond inst outer (wellFormed.inRange item (by simp [isItem])) member

include applies csubValue in
/-- The join condition holds for the rows of the sublink query which fit. -/
theorem passes_leftJoin_iff {left : Env} (member : left ∈ item.eval inst outer query.rtable)
    (row : Row) :
    passes inst (Scope.push (left.merge (Env.single (query.rtable.length + 1) row)) outer)
        (some (createJoinCondition csub info (query.rtable.length + 1))) = true ↔
      FitsSublink inst (Scope.push left outer) info row := by
  have testWithin : info.sublink.testexpr.Within subs query.rtable.length :=
    fun varno isVarno => wellFormed.le_length (applies.testVarnos varno isVarno)
  have agree := AgreeUpTo.merge_single (Nat.lt_succ_self query.rtable.length) left row
  have absent := absent_of_mem_item wellFormed isItem member
  exact passes_createJoinCondition_iff (csubValue _ _ agree)
    (push_eq_of_agreeUpTo agree testWithin) (Env.merge_single_self absent row) applies.plainTest

/-- The combination after the left join has the row of the sublink query. -/
theorem attached_withLeftJoin {left : Env} (member : left ∈ item.eval inst outer query.rtable)
    (row : Option Row) :
    AgreeUpTo query.rtable.length left
        (setJoin inst outer (withLeftJoin subs query rewrittenSub info csub item).rtable
          (query.rtable.length + 2)
          (attachRow left (query.rtable.length + 1) row)) ∧
      setJoin inst outer (withLeftJoin subs query rewrittenSub info csub item).rtable
        (query.rtable.length + 2)
        (attachRow left (query.rtable.length + 1) row)
        (query.rtable.length + 1) = row := by
  have absent := absent_of_mem_item wellFormed isItem member
  rw [setJoin_of_ne inst outer _ (by omega), attachRow_self absent]
  exact ⟨agreeUpTo_setJoin inst outer _ (AgreeUpTo.attachRow (by omega) left row) (by omega), rfl⟩

include applies rewrites csubValue

/-- The rows of the left join are rows of the FROM item with attached rows. -/
theorem mem_fromlist_withLeftJoin_iff (env : Env) :
    env ∈ evalFromlist inst outer (withLeftJoin subs query rewrittenSub info csub item).rtable
        (withLeftJoin subs query rewrittenSub info csub item).fromlist ↔
      ∃ left ∈ item.eval inst outer query.rtable, ∃ row,
        Attaches inst outer info left row ∧
          setJoin inst outer (withLeftJoin subs query rewrittenSub info csub item).rtable
            (query.rtable.length + 2)
            (attachRow left (query.rtable.length + 1) row) = env := by
  have sameItem :
      item.eval inst outer (withLeftJoin subs query rewrittenSub info csub item).rtable =
        item.eval inst outer query.rtable :=
    JoinTreeNode.eval_of_sameEntries inst outer item fun rtindex member =>
      rtFetch_append (wellFormed.inRange item (by simp [isItem]) rtindex member) _
  have inputs :
      inputRows inst outer (withLeftJoin subs query rewrittenSub info csub item).rtable
          (query.rtable.length + 1) =
        inst.rewrittenRows info.sublink.subselect (Scope.push Env.empty outer) := by
    simp [inputRows, withLeftJoin, rtFetch_append_length, RangeTblEntry.rows,
      inst.rewrittenRows_eq rewrites]
  have condition {left : Env} (leftIn : left ∈ item.eval inst outer query.rtable) (row : Row) :=
    passes_leftJoin_iff wellFormed isItem applies csubValue leftIn row
  have fromlist :
      (withLeftJoin subs query rewrittenSub info csub item).fromlist =
        [.joinExpr .left (query.rtable.length + 2) item (.rangeTblRef (query.rtable.length + 1))
          (some (createJoinCondition csub info (query.rtable.length + 1)))] := rfl
  rw [fromlist, evalFromlist_singleton, mem_eval_leftJoin, sameItem, inputs]
  constructor
  · rintro ⟨left, leftIn, ⟨row, rowIn, holds, isEnv⟩ | ⟨alone, isEnv⟩⟩
    · exact ⟨left, leftIn, some row, ⟨rowIn, (condition leftIn row).1 holds⟩, isEnv⟩
    · refine ⟨left, leftIn, none, fun row rowIn holds => ?_, isEnv⟩
      have fails := alone row rowIn
      rw [(condition leftIn row).2 holds] at fails
      cases fails
  · rintro ⟨left, leftIn, row, attaches, isEnv⟩
    refine ⟨left, leftIn, ?_⟩
    cases row with
    | some row =>
      exact .inl ⟨row, attaches.1, (condition leftIn row).2 attaches.2, isEnv⟩
    | none =>
      refine .inr ⟨fun row rowIn => ?_, isEnv⟩
      rw [← Bool.not_eq_true, condition leftIn row]
      exact attaches row rowIn

/-- The left join combines a query with the rows of one sublink. -/
theorem combinesSublinks_withLeftJoin :
    CombinesSublinks inst outer query
      (withLeftJoin subs query rewrittenSub info csub item) [info]
      [query.rtable.length + 1] := by
  have combination := mem_fromlist_withLeftJoin_iff wellFormed isItem applies rewrites csubValue
  constructor
  · intro env member
    rcases List.mem_filter.1 member with ⟨inFrom, passed⟩
    rcases (combination env).1 inFrom with
      ⟨left, leftIn, row, attaches, rfl⟩
    rcases attached_withLeftJoin wellFormed isItem leftIn row with ⟨agree, atEntry⟩
    refine ⟨left, List.mem_filter.2 ⟨?_, ?_⟩, agree, ?_⟩
    · rw [isItem, evalFromlist_singleton]
      exact leftIn
    · rw [passes_of_agreeUpTo inst agree wellFormed.quals]
      exact passed
    · rw [List.forall₂_cons, atEntry]
      exact ⟨attaches, .nil⟩
  · intro base member rows attached
    rcases List.mem_filter.1 member with ⟨inFrom, passed⟩
    rw [isItem, evalFromlist_singleton] at inFrom
    cases attached with
    | cons attaches rest =>
      cases rest
      rename_i row
      rcases attached_withLeftJoin wellFormed isItem inFrom row with ⟨agree, atEntry⟩
      refine ⟨_, List.mem_filter.2 ⟨(combination _).2 ⟨base, inFrom, row, attaches, rfl⟩, ?_⟩,
        agree, by simpa using atEntry⟩
      rw [passes_of_agreeUpTo inst agree wellFormed.quals] at passed
      exact passed

end Joined

/-- The Left strategy for one sublink. -/
theorem rewriteSublinkUsingLeftJoin_spec (inst : Instance subs) (outer : Scope)
    (wellFormed : query.WellFormed subs) (hasFrom : query.fromlist ≠ [])
    (applies : LeftApplies subs query info) :
    ∃ rewritten entry,
      rewriteSublinkUsingLeftJoin subs query info =
          some (rewritten, entry) ∧
        entry ≤ rewritten.rtable.length ∧
        ExtendsQuery subs query rewritten ∧
        CombinesSublinks inst outer query rewritten [info] [entry] := by
  rcases @joinQueryRTEs_fromlist Sub subs query hasFrom with ⟨item, isItem⟩
  rcases Option.isSome_iff_exists.1 applies.rewrites with ⟨rewrittenSub, rewrites⟩
  have folded := extendsQuery_joinQueryRTEs wellFormed hasFrom
  have applies' : LeftApplies subs (joinQueryRTEs subs query) info :=
    ⟨applies.uncorrelated, applies.rewrites, fun varno member =>
      folded.rtindexes varno (applies.testVarnos varno member),
      applies.plainTest⟩
  have csubVarnos :
      ∀ varno ∈ info.sublink.expr.varnos subs, varno ∈ (joinQueryRTEs subs query).rtindexes := by
    intro varno member
    rcases Expr.mem_varnos.1 member with ⟨ref, isVar, rest⟩
    exact applies'.testVarnos varno (Expr.mem_varnos.2
      ⟨ref, vars_of_isUncorrelated applies.uncorrelated isVar, rest⟩)
  have joined := extendsQuery_withLeftJoin folded.wellFormed isItem applies' rewrites csubVarnos
  have combined :=
    @combinesSublinks_withLeftJoin Sub subs inst outer _ info item rewrittenSub
      info.sublink.expr folded.wellFormed isItem applies' rewrites
      fun base env agree =>
        (Expr.eval_of_agreeUpTo inst agree
          (fun varno member =>
            folded.wellFormed.le_length (csubVarnos varno member)) []).symm
  refine ⟨_, _, addLeftJoinWithRewrittenSublink_eq isItem rewrites,
    by simp [withLeftJoin], ⟨joined.wellFormed, joined.hasFrom, folded.longer.trans joined.longer,
      fun rtindex member =>
        joined.rtindexes rtindex (folded.rtindexes rtindex member),
      joined.targetList.trans folded.targetList,
      joined.quals.trans folded.quals⟩, ?_⟩
  have same := @sameUpTo_combinations_joinQueryRTEs Sub subs inst outer query wellFormed
  have attaches : ∀ base left row, AgreeUpTo query.rtable.length base left →
      (Attaches inst outer info base row ↔ Attaches inst outer info left row) := by
    intro base left row agree
    exact attaches_congr applies.uncorrelated
      (push_eq_of_agreeUpTo agree fun varno member =>
        wellFormed.le_length (applies.testVarnos varno member)) row
  constructor
  · intro env member
    rcases combined.sound env member with ⟨left, leftIn, agree, attached⟩
    rcases same.2 left leftIn with ⟨base, baseIn, agree'⟩
    refine ⟨base, baseIn, AgreeUpTo.trans agree' (agree.mono folded.longer), ?_⟩
    rw [List.forall₂_cons] at attached ⊢
    exact ⟨(attaches base left _ agree').2 attached.1, .nil⟩
  · intro base member rows attached
    rcases same.1 base member with ⟨left, leftIn, agree'⟩
    cases attached with
    | cons first rest =>
      cases rest
      rcases combined.complete left leftIn _
        (.cons ((attaches base left _ agree').1 first) .nil) with
        ⟨env, envIn, agree, atEntry⟩
      exact ⟨env, envIn, AgreeUpTo.trans agree' (agree.mono folded.longer), atEntry⟩

/-- The Left strategy for sublinks rewritten one after the other. -/
theorem rewriteSublinksUsingLeftJoin_spec (inst : Instance subs) (outer : Scope)
    (infos : List (SublinkInfo Sub)) (wellFormed : query.WellFormed subs)
    (hasFrom : query.fromlist ≠ []) (applies : ∀ info ∈ infos, LeftApplies subs query info) :
    ∃ rewritten subList,
      rewriteSublinksUsingLeftJoin subs query infos =
          some (rewritten, subList) ∧
        ExtendsQuery subs query rewritten ∧
        CombinesSublinks inst outer query rewritten infos subList := by
  induction infos generalizing query with
  | nil =>
    refine ⟨query, [], rfl, ⟨wellFormed, hasFrom, Nat.le_refl _,
      fun _ member => member, rfl, rfl⟩, ?_, ?_⟩
    · exact fun env member =>
        ⟨env, member, AgreeUpTo.refl _ env, .nil⟩
    · intro base member rows attached
      cases attached
      exact ⟨base, member, AgreeUpTo.refl _ base, rfl⟩
  | cons info rest ih =>
    rcases rewriteSublinkUsingLeftJoin_spec inst outer wellFormed hasFrom
      (applies info (by simp)) with
      ⟨first, entry, isFirst, inFirst, extended, combined⟩
    have appliesRest : ∀ other ∈ rest, LeftApplies subs first other := by
      intro other isOther
      have before := applies other (List.mem_cons_of_mem _ isOther)
      exact ⟨before.uncorrelated, before.rewrites, fun varno member =>
        extended.rtindexes varno (before.testVarnos varno member),
        before.plainTest⟩
    rcases ih extended.wellFormed extended.hasFrom appliesRest with
      ⟨rewritten, subList, isRest, extended', combined'⟩
    have attachesRest : ∀ base left, AgreeUpTo query.rtable.length base left →
        ∀ other ∈ rest, ∀ row,
          (Attaches inst outer other base row ↔ Attaches inst outer other left row) := by
      intro base left agree other isOther row
      have before := applies other (List.mem_cons_of_mem _ isOther)
      exact attaches_congr before.uncorrelated
        (push_eq_of_agreeUpTo agree fun varno member =>
          wellFormed.le_length (before.testVarnos varno member)) row
    refine ⟨rewritten, entry :: subList, ?_, ⟨extended'.wellFormed,
      extended'.hasFrom, extended.longer.trans extended'.longer,
      fun rtindex member =>
        extended'.rtindexes rtindex (extended.rtindexes rtindex member),
      extended'.targetList.trans extended.targetList,
      extended'.quals.trans extended.quals⟩, ?_, ?_⟩
    · simp [rewriteSublinksUsingLeftJoin, isFirst, isRest]
    · intro env member
      rcases combined'.sound env member with
        ⟨left, leftIn, agree', attached'⟩
      rcases combined.sound left leftIn with
        ⟨base, baseIn, agree, attached⟩
      rw [List.forall₂_cons] at attached
      refine ⟨base, baseIn, AgreeUpTo.trans agree (agree'.mono extended.longer), .cons ?_ ?_⟩
      · rw [← agree' entry inFirst]
        exact attached.1
      · exact (forall₂_mem attached').imp fun other position found =>
          (attachesRest base left agree other found.1 _).2 found.2.2
    · intro base member rows attached
      cases attached with
      | cons attachedFirst attachedRest =>
        rcases combined.complete base member _ (.cons attachedFirst .nil) with
          ⟨left, leftIn, agree, atEntry⟩
        rcases combined'.complete left leftIn _
          ((forall₂_mem attachedRest).imp fun other row found =>
            (attachesRest base left agree other found.1 row).1 found.2.2) with
          ⟨env, envIn, agree', atEntries⟩
        refine ⟨env, envIn, AgreeUpTo.trans agree (agree'.mono extended.longer), ?_⟩
        simp only [List.map_cons, List.map_nil, List.cons.injEq, and_true] at atEntry ⊢
        exact ⟨(agree' entry inFirst).symm.trans atEntry, atEntries⟩

/-- Combined queries have the distinct tuples of the original one. -/
theorem CombinesSublinks.tuples_iff {rewritten : Query Sub} {infos : List (SublinkInfo Sub)}
    {subList : List Nat}
    (combined : CombinesSublinks inst outer query rewritten infos subList)
    (wellFormed : query.WellFormed subs) (sameTargets : rewritten.targetList = query.targetList)
    (row : Row) :
    row ∈ rewritten.tuples inst outer ↔ row ∈ query.tuples inst outer := by
  refine tuples_iff_of_sameUpTo inst outer wellFormed.targets sameTargets ⟨?_, ?_⟩ row
  · intro base member
    have attached : ∀ infos : List (SublinkInfo Sub), ∃ rows,
        List.Forall₂ (fun info row => Attaches inst outer info base row) infos rows := by
      intro infos
      induction infos with
      | nil => exact ⟨[], .nil⟩
      | cons info rest ih =>
        rcases @exists_attaches Sub subs inst outer info base with
          ⟨row, attaches⟩
        rcases ih with ⟨rows, attachedRest⟩
        exact ⟨row :: rows, .cons attaches attachedRest⟩
    rcases attached infos with ⟨rows, attachedRows⟩
    rcases combined.complete base member rows attachedRows with
      ⟨env, envIn, agree, -⟩
    exact ⟨env, envIn, agree⟩
  · intro env member
    rcases combined.sound env member with ⟨base, baseIn, agree, -⟩
    exact ⟨base, baseIn, agree⟩

end Step

/-! ## Examples -/

/-- The sublink `r.c = ANY (SELECT c FROM u)` for boolean columns. -/
def innerAny : SubLink Sql.Query := equalsAny 91 (.column 1 1) (selectFrom 3 16)

/-- The sublink `(r.c = ANY (SELECT c FROM u)) = ANY (SELECT c FROM s)`. -/
def outerAny : SubLink Sql.Query := equalsAny 91 innerAny.expr (selectFrom 2 16)

/-- `SELECT c FROM r WHERE` with the condition `outerAny`. -/
def nestedAny : Query Sql.Query where
  rtable := [.relation 1 [1]]
  fromlist := [.rangeTblRef 1]
  quals := some outerAny.expr
  targetList := [{ expr := .column 1 1 }]

/-- The two sublinks of `nestedAny`. -/
def nestedInfos : List (SublinkInfo Sql.Query) :=
  [{ sublink := outerAny, exprRoot := outerAny.expr, parent := none,
      location := .where },
    { sublink := innerAny, exprRoot := outerAny.expr,
      parent := some outerAny.testexpr, location := .where }]

/-- The row FALSE in `r` and `u`, and both truth values in `s`. -/
def booleanInstance : Instance (columnQueries 16) :=
  columnInstance 16 fun relid =>
    if relid = 2 then [[.bool true], [.bool false]] else [[.bool false]]

/-- `SELECT c FROM r WHERE c = ANY (SELECT c FROM u)`. -/
def plainAny : Query Sql.Query where
  rtable := [.relation 1 [1]]
  fromlist := [.rangeTblRef 1]
  quals := some (equalsAny 96 (.column 1 1) (selectFrom 3 23)).expr
  targetList := [{ expr := .column 1 1 }]

/-- The sublink of `plainAny`. -/
def plainInfo : SublinkInfo Sql.Query where
  sublink := equalsAny 96 (.column 1 1) (selectFrom 3 23)
  exprRoot := (equalsAny 96 (.column 1 1) (selectFrom 3 23)).expr
  parent := none
  location := .where

/-- The rows 1 and NULL in `r`, and 1 and 2 in `u`. -/
def numberInstance : Instance (columnQueries 23) :=
  columnInstance 23 fun relid =>
    if relid = 1 then [[.int 1], [.null]] else [[.int 1], [.int 2]]

end Ldv.Sublink
