import Ldv.Perm.PairRows
import Ldv.Perm.RunNode

/-!
# Types of column references

The executor reads a column only as the type it has: `ExecEvalVar` stops
with "attribute %d has wrong type" if a query expects another one.  The
comparisons of the rewriter take the equality operator of the type of their
left side and cast nothing.  A query is `Typed` if its column references
have the types of the columns they refer to, and its comparisons compare
values of one type; then neither happens.

The rewriter numbers columns itself.  `Aligned` is what it relies on: live
columns come first in a relation, the inputs of a set operation have the
column types of its result, and what is not aggregated is grouped.
-/

namespace Ldv.Perm

open Ldv.Sql

/-! ## Typed queries -/

/-- The type of a column of an entry; a dropped column has none. -/
def columnType (cat : Catalog) (rte : RTE) (attno : Nat) : Option Oid :=
  match rte.kind with
  | .relation relid =>
    (rtFetch (cat.attributes relid) attno).bind fun attr =>
      if attr.attisdropped then none else some attr.atttypid
  | .subquery query => (rtFetch query.targetList attno).map fun te => exprType te.expr
  | .join _ aliasvars => (rtFetch aliasvars attno).map exprType
  | .function _ coltypes => rtFetch coltypes attno
  | .values lists => (rtFetch (lists.headD []) attno).map exprType

def typeAt (cat : Catalog) (rtable : List RTE) (varno varattno : Nat) : Option Oid :=
  (rtFetch rtable varno).bind fun rte => columnType cat rte varattno

mutual

/-- The types of the two sides of each comparison in an expression. -/
def comparisons : Expr → List (Oid × Oid)
  | .var _ _ _ => []
  | .const _ _ => []
  | .opExpr _ _ args => comparisonsList args
  | .distinctExpr left right =>
    (exprType left, exprType right) :: (comparisons left ++ comparisons right)
  | .boolExpr _ args => comparisonsList args
  | .caseExpr _ conds results defresult =>
    comparisonsList conds ++ comparisonsList results ++ comparisons defresult
  | .coalesceExpr _ args => comparisonsList args
  | .aggref _ _ args _ => comparisonsList args

def comparisonsList : List Expr → List (Oid × Oid)
  | [] => []
  | expr :: rest => comparisons expr ++ comparisonsList rest

end

structure ExprTyped (cat : Catalog) (rtable : List RTE) (expr : Expr) : Prop where
  vars : ∀ ref ∈ expr.vars, typeAt cat rtable ref.varno ref.varattno = some ref.vartype
  comparisons : ∀ sides ∈ comparisons expr, sides.1 = sides.2

instance (cat : Catalog) (rtable : List RTE) (expr : Expr) :
    Decidable (ExprTyped cat rtable expr) :=
  decidable_of_iff (_ ∧ _)
    ⟨fun ⟨vars, comparisons⟩ => ⟨vars, comparisons⟩, fun typed => ⟨typed.vars, typed.comparisons⟩⟩

/-- The conditions of the joins of a FROM item. -/
def joinQuals : JoinTreeNode → List Expr
  | .rangeTblRef _ => []
  | .joinExpr _ _ larg rarg quals => joinQuals larg ++ joinQuals rarg ++ quals.toList

/-- The expressions of a node, with the alias columns of its joins. -/
def nodeExprs (query : Query) : List Expr :=
  query.targetList.map TargetEntry.expr ++ query.quals.toList ++ query.havingQual.toList ++
    query.fromlist.flatMap joinQuals ++
    (query.fromlist.flatMap JoinTreeNode.joins).flatMap (aliasvarsAt query.rtable)

def NodeTyped (cat : Catalog) (query : Query) : Prop :=
  ∀ expr ∈ nodeExprs query, ExprTyped cat query.rtable expr

instance (cat : Catalog) (query : Query) : Decidable (NodeTyped cat query) :=
  inferInstanceAs (Decidable (∀ expr ∈ nodeExprs query, _))

def Typed (cat : Catalog) (query : Query) : Prop := query.Everywhere (NodeTyped cat)

instance (cat : Catalog) (query : Query) : Decidable (Typed cat query) :=
  inferInstanceAs (Decidable (query.Everywhere (NodeTyped cat)))

/-! ## Aligned queries -/

/-- No dropped column stands in front of a live one. -/
def LiveFirst (attributes : List Attribute) : Prop :=
  attributes.Pairwise fun before after => before.attisdropped = true → after.attisdropped = true

instance (attributes : List Attribute) : Decidable (LiveFirst attributes) :=
  inferInstanceAs (Decidable (List.Pairwise _ attributes))

/-- The relations whose columns the rewriter numbers. -/
def numberedRelation (rte : RTE) : Option Oid :=
  match rte.kind with
  | .relation relid => if isCounted rte && rte.provAttrs.isEmpty then some relid else none
  | _ => none

structure NodeAligned (cat : Catalog) (query : Query) : Prop where
  live : ∀ rte ∈ query.rtable, ∀ relid ∈ numberedRelation rte, LiveFirst (cat.attributes relid)
  /-- The inputs of a set operation have the column types of the result. -/
  inputs :
    query.setOperations.isSome = true → ∀ rte ∈ query.rtable, ∀ sub ∈ rte.subquery?,
      (nonJunk sub.targetList).map (fun te => exprType te.expr) = targetTypes query
  /-- What is not aggregated is a grouping expression. -/
  grouped :
    query.hasAggs = true → ∀ te ∈ query.targetList, isAggrExpr te.expr = false →
      te.ressortgroupref ∈ query.groupClause.map SortClause.tleSortGroupRef
  /-- No grouping expression is listed twice. -/
  groups : query.hasAggs = true → (query.groupClause.map SortClause.tleSortGroupRef).Nodup

instance (cat : Catalog) (query : Query) : Decidable (NodeAligned cat query) :=
  decidable_of_iff (_ ∧ _ ∧ _ ∧ _)
    ⟨fun ⟨live, inputs, grouped, groups⟩ => ⟨live, inputs, grouped, groups⟩,
      fun aligned => ⟨aligned.live, aligned.inputs, aligned.grouped, aligned.groups⟩⟩

def Aligned (cat : Catalog) (query : Query) : Prop :=
  query.EverywhereIn isRewritten (NodeAligned cat)

instance (cat : Catalog) (query : Query) : Decidable (Aligned cat query) :=
  inferInstanceAs (Decidable (query.EverywhereIn isRewritten (NodeAligned cat)))

/-! ## Expressions -/

section Expressions

variable
  {cat : Catalog}
  {rtable rtable' : List RTE}
  {expr : Expr}

theorem mem_varsList {ref : VarRef} {args : List Expr} :
    ref ∈ Expr.varsList args ↔ ∃ arg ∈ args, ref ∈ arg.vars := by
  induction args with
  | nil => simp [Expr.varsList]
  | cons arg rest ih => simp [Expr.varsList, ih]

theorem mem_comparisonsList {sides : Oid × Oid} {args : List Expr} :
    sides ∈ comparisonsList args ↔ ∃ arg ∈ args, sides ∈ comparisons arg := by
  induction args with
  | nil => simp [comparisonsList]
  | cons arg rest ih => simp [comparisonsList, ih]

theorem exprTyped_var_iff {varno varattno : Nat} {vartype : Oid} :
    ExprTyped cat rtable (.var varno varattno vartype) ↔
      typeAt cat rtable varno varattno = some vartype :=
  ⟨fun typed => typed.vars ⟨varno, varattno, vartype⟩ (by simp [Expr.vars]),
    fun found => ⟨by simpa [Expr.vars] using found, by simp [comparisons]⟩⟩

theorem exprTyped_const (cat : Catalog) (rtable : List RTE) (consttype : Oid) (value : Datum) :
    ExprTyped cat rtable (.const consttype value) :=
  ⟨by simp [Expr.vars], by simp [comparisons]⟩

theorem exprTyped_boolExpr {args : List Expr} (typed : ∀ arg ∈ args, ExprTyped cat rtable arg)
    (boolop : BoolExprType) : ExprTyped cat rtable (.boolExpr boolop args) where
  vars ref member := by
    rcases mem_varsList.mp member with ⟨arg, isArg, inside⟩
    exact (typed arg isArg).vars ref inside
  comparisons sides member := by
    rcases mem_comparisonsList.mp member with ⟨arg, isArg, inside⟩
    exact (typed arg isArg).comparisons sides inside

/-- A comparison of two columns of one type. -/
theorem exprTyped_notDistinct {left right : Expr} (isLeft : ExprTyped cat rtable left)
    (isRight : ExprTyped cat rtable right) (same : exprType left = exprType right) :
    ExprTyped cat rtable (notDistinct (left, right)) := by
  refine exprTyped_boolExpr (fun arg member => ?_) .not
  rw [List.mem_singleton.mp member]
  constructor
  · intro ref inside
    rcases List.mem_append.mp inside with inside | inside
    · exact isLeft.vars ref inside
    · exact isRight.vars ref inside
  · intro sides inside
    rw [comparisons] at inside
    rcases List.mem_cons.mp inside with rfl | inside
    · exact same
    · rcases List.mem_append.mp inside with inside | inside
      · exact isLeft.comparisons sides inside
      · exact isRight.comparisons sides inside

/-- Conditions are connected by AND, in either order of the arguments. -/
theorem exprTyped_foldl {step : Expr → Expr → Expr}
    (isAnd : ∀ root node, ∃ args : List Expr,
      step root node = .boolExpr .and args ∧ args ⊆ [root, node])
    {nodes : List Expr} {first : Expr}
    (typed : ∀ node ∈ first :: nodes, ExprTyped cat rtable node) :
    ExprTyped cat rtable (nodes.foldl step first) := by
  induction nodes generalizing first with
  | nil => exact typed first (by simp)
  | cons node rest ih =>
    refine ih fun other member => ?_
    rcases List.mem_cons.mp member with rfl | member
    · rcases isAnd first node with ⟨args, stepped, inside⟩
      rw [stepped]
      refine exprTyped_boolExpr (fun arg isArg => typed arg ?_) .and
      have isOne := inside isArg
      simp only [List.mem_cons, List.not_mem_nil, or_false] at isOne ⊢
      tauto
    · exact typed other (by simp [member])

theorem exprTyped_createAndFromList {conditions : List Expr}
    (typed : ∀ condition ∈ conditions, ExprTyped cat rtable condition) :
    ∀ expr ∈ createAndFromList conditions, ExprTyped cat rtable expr := by
  intro expr isConjunction
  cases conditions with
  | nil => simp [createAndFromList] at isConjunction
  | cons first rest =>
    cases isConjunction
    exact exprTyped_foldl (fun root node => ⟨[node, root], rfl, by simp⟩) typed

theorem exprTyped_conjunction {conditions : List Expr}
    (typed : ∀ condition ∈ conditions, ExprTyped cat rtable condition) :
    ExprTyped cat rtable (conjunction conditions) := by
  cases conditions with
  | nil => exact exprTyped_const cat rtable _ _
  | cons first rest => exact exprTyped_foldl (fun root node => ⟨[root, node], rfl, by simp⟩) typed

/-- Column references stay typed where their columns keep the type. -/
theorem ExprTyped.congr {cols : Nat → Nat → Prop} (typed : ExprTyped cat rtable expr)
    (inside : RefsIn cols expr.vars)
    (kept : ∀ varno varattno, cols varno varattno → ∀ type,
      typeAt cat rtable varno varattno = some type →
      typeAt cat rtable' varno varattno = some type) :
    ExprTyped cat rtable' expr :=
  ⟨fun ref member => kept _ _ (inside ref member) _ (typed.vars ref member), typed.comparisons⟩

end Expressions

/-! ## Columns of entries -/

section Columns

variable
  {cat : Catalog}
  {rtable : List RTE}
  {rte rte' : RTE}

theorem columnType_congr (kind : rte.kind = rte'.kind) (attno : Nat) :
    columnType cat rte attno = columnType cat rte' attno := by
  simp [columnType, kind]

theorem columnType_subquery {sub : Query} (kind : rte.kind = .subquery sub) (attno : Nat) :
    columnType cat rte attno = (rtFetch sub.targetList attno).map fun te => exprType te.expr := by
  simp [columnType, kind]

theorem rtFetch_numbered {targetList : List TargetEntry} {te : TargetEntry}
    (numbered : targetList.map TargetEntry.resno = List.range' 1 targetList.length)
    (member : te ∈ targetList) : rtFetch targetList te.resno = some te := by
  rcases List.mem_iff_getElem?.mp member with ⟨position, present⟩
  have inside := (List.getElem?_eq_some_iff.mp present).1
  have resno : (targetList.map TargetEntry.resno)[position]? = some te.resno := by
    rw [List.getElem?_map, present, Option.map_some]
  rw [numbered, List.getElem?_range' inside, Option.some.injEq] at resno
  rw [rtFetch_eq_some_iff, ← resno]
  refine ⟨by omega, ?_⟩
  rw [show 1 + 1 * position - 1 = position by omega, present]

theorem rtFetch_append {α : Type} {list : List α} {element : α} {attno : Nat}
    (fetched : rtFetch list attno = some element) (extra : List α) :
    rtFetch (list ++ extra) attno = some element := by
  rcases rtFetch_eq_some_iff.mp fetched with ⟨positive, present⟩
  rw [rtFetch_eq_some_iff, List.getElem?_append_left (List.getElem?_eq_some_iff.mp present).1]
  exact ⟨positive, present⟩

/-- The type of an alias column of a join. -/
theorem typeAt_of_aliasvarsAt {join position : Nat} {expr : Expr} (positive : 1 ≤ position)
    (present : (aliasvarsAt rtable join)[position - 1]? = some expr) :
    typeAt cat rtable join position = some (exprType expr) := by
  unfold aliasvarsAt at present
  split at present
  · next rte fetched =>
      rcases rte with ⟨kind, userAlias, eref, isProvBase, provAttrs⟩
      cases kind with
      | join jointype aliasvars =>
        have found : rtFetch aliasvars position = some expr :=
          rtFetch_eq_some_iff.mpr ⟨positive, present⟩
        simp [typeAt, fetched, columnType, found]
      | _ => simp [RangeTblEntry.joinaliasvars] at present
  · simp at present

/-- A column that typed joins lead to has the type of the first column. -/
theorem Through.typeAt_eq {joins : List Nat} {start column : Nat × Nat} {type : Oid}
    (led : Through rtable joins start column)
    (aliases :
      ∀ join ∈ joins, ∀ expr ∈ aliasvarsAt rtable join, ExprTyped cat rtable expr)
    (typed : typeAt cat rtable start.1 start.2 = some type) :
    typeAt cat rtable column.1 column.2 = some type := by
  induction led with
  | refl => exact typed
  | @join varno varattno join position led isJoin matched ih =>
    rcases lastAliasPosition_eq_some matched with ⟨vartype, positive, present⟩
    have found := exprTyped_var_iff.mp (aliases join isJoin _ (List.mem_of_getElem? present))
    rw [ih, Option.some.injEq] at found
    rw [found]
    exact typeAt_of_aliasvarsAt positive present

/-- The new target entries of a node are typed. -/
theorem provenanceEntries_typed {top : Query} {start : Nat} {attrs : List (Nat × TargetEntry)}
    {entries : List TargetEntry} (added : provenanceEntries top start attrs = some entries)
    (seen : ∀ attr ∈ attrs, ∃ varno varattno, SeenAs top attr.1 attr.2.resno varno varattno)
    (aliases :
      ∀ join ∈ top.fromlist.flatMap JoinTreeNode.joins,
        ∀ expr ∈ aliasvarsAt top.rtable join, ExprTyped cat top.rtable expr)
    (typed :
      ∀ attr ∈ attrs,
        typeAt cat top.rtable attr.1 attr.2.resno = some (exprType attr.2.expr)) :
    ∀ te ∈ entries, ExprTyped cat top.rtable te.expr := by
  intro te member
  rcases mem_provenanceEntries added member with ⟨attr, isAttr, varno, varattno, found, isVar⟩
  rcases seen attr isAttr with ⟨varno', varattno', seenAs⟩
  rw [seenAs.1, Option.some.injEq, Prod.mk.injEq] at found
  rcases found with ⟨rfl, rfl⟩
  rw [isVar]
  exact exprTyped_var_iff.mpr (seenAs.2.1.typeAt_eq aliases (typed attr isAttr))

end Columns

/-! ## Attributes of entries which are not rewritten -/

section Kept

variable
  {cat : Catalog}
  {rtindex : Nat}
  {rte : RTE}

/-- The live columns of a relation are its first columns. -/
theorem expandTupleDesc_getElem? {attributes : List Attribute} (live : LiveFirst attributes)
    {start position : Nat} {expr : Expr}
    (present :
      ((attributes.zipIdx start).filterMap fun (attr, attnum) =>
        if attr.attisdropped then none
        else some (Expr.var rtindex attnum attr.atttypid))[position]? = some expr) :
    ∃ attr, attributes[position]? = some attr ∧ attr.attisdropped = false ∧
      exprType expr = attr.atttypid := by
  induction attributes generalizing start position with
  | nil => simp at present
  | cons attr rest ih =>
    rcases List.pairwise_cons.mp live with ⟨first, others⟩
    rw [List.zipIdx_cons, List.filterMap_cons] at present
    cases dropped : attr.attisdropped with
    | true =>
      simp only [dropped, if_true] at present
      rcases List.mem_filterMap.mp (List.mem_of_getElem? present) with ⟨⟨other, _⟩, isOther, kept⟩
      simp [first other (List.fst_mem_of_mem_zipIdx isOther) dropped] at kept
    | false =>
      simp only [dropped] at present
      cases position with
      | zero =>
        refine ⟨attr, rfl, dropped, ?_⟩
        simp at present
        rw [← present]
        rfl
      | succ position => exact ih others (by simpa using present)

theorem getElem?_of_take {α : Type} {list : List α} {count position : Nat} {element : α}
    (present : (list.take count)[position]? = some element) : list[position]? = some element := by
  rw [List.getElem?_take] at present
  split at present
  · exact present
  · contradiction

/-- The numbers of the attributes of an entry are those of its columns. -/
theorem KeptAttrs.columnType_eq {pList : List TargetEntry}
    (attrs : KeptAttrs cat rtindex rte pList) (isInput : isCounted rte = true)
    (input : hasProvenance rte = true)
    (live : ∀ relid ∈ numberedRelation rte, LiveFirst (cat.attributes relid))
    (targets : ∀ sub, rte.kind = .subquery sub → TargetsOk sub) {te : TargetEntry}
    (member : te ∈ pList) :
    columnType cat rte te.resno = some (exprType te.expr) := by
  cases attrs with
  | base unlisted exprs resnos plain named =>
    rcases List.mem_iff_getElem?.mp member with ⟨position, present⟩
    have inside := (List.getElem?_eq_some_iff.mp present).1
    have resno : (pList.map TargetEntry.resno)[position]? = some te.resno := by
      rw [List.getElem?_map, present, Option.map_some]
    have expr : (pList.map TargetEntry.expr)[position]? = some te.expr := by
      rw [List.getElem?_map, present, Option.map_some]
    rw [resnos, List.getElem?_range' inside, Option.some.injEq, Nat.one_mul, Nat.add_comm] at resno
    rw [exprs] at expr
    rw [← resno]
    cases kind : rte.kind with
    | relation relid =>
      have isNumbered : relid ∈ numberedRelation rte := by
        simp [numberedRelation, kind, isInput, unlisted]
      rw [expandRTEVars, kind] at expr
      rcases expandTupleDesc_getElem? (live relid isNumbered) expr with
        ⟨attr, found, undropped, type⟩
      simp [columnType, kind, rtFetch, found, undropped, type]
    | subquery sub =>
      rw [expandRTEVars, kind] at expr
      simp only [numberedVars, (targets sub kind).nonJunk_eq, List.getElem?_map,
        Option.map_eq_some_iff, List.getElem?_zipIdx] at expr
      rcases expr with ⟨_, ⟨type, ⟨entry, taken, rfl⟩, rfl⟩, typed⟩
      have isColumn := getElem?_of_take taken
      rw [columnType_subquery kind, rtFetch, isColumn, ← typed]
      rfl
    | _ => simp [hasProvenance, kind] at input
  | listed named labels present =>
    rcases Option.map_eq_some_iff.mp named with ⟨names, listable, rfl⟩
    rcases List.mem_flatMap.mp member with ⟨provAttr, _, found⟩
    rcases List.mem_map.mp found with ⟨column, kept, rfl⟩
    have inside := (List.of_mem_zip (List.mem_filter.mp kept).1).2
    cases kind : rte.kind with
    | relation relid =>
      simp only [listableVars, kind, expandRTEVars, expandTupleDesc, List.mem_filterMap] at inside
      rcases inside with ⟨⟨attr, attno⟩, isAttr, expanded⟩
      rcases List.mk_mem_zipIdx_iff_le_and_getElem?_sub.mp isAttr with ⟨positive, isColumn⟩
      have fetched := rtFetch_eq_some_iff.mpr ⟨positive, isColumn⟩
      split at expanded
      · contradiction
      · next undropped =>
          have isLive : attr.attisdropped = false := by simpa using undropped
          simp only [Option.some.injEq] at expanded
          rw [← expanded]
          simp [columnType, kind, varattnoOf, fetched, isLive]
    | subquery sub =>
      simp only [listableVars, kind] at inside
      rcases List.mem_map.mp inside with ⟨entry, isEntry, equal⟩
      rw [← equal, columnType_subquery kind]
      simp [varattnoOf, rtFetch_numbered (targets sub kind).numbered isEntry]
    | _ => simp [hasProvenance, kind] at input

end Kept

/-! ## Columns of rewritten queries -/

/-- The columns in front of the provenance attributes. -/
def originalColumns (query : Query) : List TargetEntry :=
  if query.hasAggs then nonJunk query.targetList else query.targetList

/-- What is known about the columns of a rewritten query. -/
structure RewrittenTyped (cat : Catalog) (query query' : Query) (pList : List TargetEntry) :
    Prop where
  targets : TargetsOk query
  attrsOf : AttrsOf cat query pList
  atEnd : AtEnd query query' pList
  numbered : query'.targetList.map TargetEntry.resno = List.range' 1 query'.targetList.length
  columns :
    query'.targetList.map (fun te => (te.resjunk, exprType te.expr)) =
      (originalColumns query ++ pList).map fun te => (te.resjunk, exprType te.expr)
  typed : Typed cat query'

theorem length_originalColumns (query : Query) :
    (originalColumns query).length = originalWidth query := by
  unfold originalColumns originalWidth
  split <;> rfl

theorem NodeShape.columns {cat : Catalog} {R : Rel} {query query' : Query}
    {pList : List TargetEntry} (shape : NodeShape cat R query query' pList) :
    query'.targetList.map (fun te => (te.resjunk, exprType te.expr)) =
      (originalColumns query ++ pList).map fun te => (te.resjunk, exprType te.expr) := by
  cases shape with
  | spj noAggs noSetOp noLimit shape =>
    rw [shape.resnos.1, originalColumns, noAggs]
    rfl
  | limit noAggs noSetOp limited visible shape =>
    simp only [limitTop, pairTop, secondColumns, List.map_map, shape.resnos.1, originalColumns,
      noAggs]
    exact map_zipIdx_fst (fun te : TargetEntry => (te.resjunk, exprType te.expr)) _ 1
  | agg aggs shape =>
    cases shape with
    | intro strip named show_ shownNamed order rewritten attrs =>
      have visible : (visibleEntries query).map (fun te => (te.resjunk, exprType te.expr)) =
          (nonJunk query.targetList).map fun te => (false, exprType te.expr) := by
        rw [visibleEntries, List.map_map]
        exact map_zipIdx_fst (fun te : TargetEntry => (false, exprType te.expr)) _ 1
      rw [originalColumns, aggs, if_pos rfl, List.map_append, List.map_append, visible]
      congr 1
      refine List.map_congr_left fun te member => ?_
      have isVisible := (List.mem_filter.mp member).2
      simp only [Bool.not_eq_true'] at isVisible
      rw [isVisible]
  | set noAggs setOp shape =>
    cases shape
    rw [originalColumns, noAggs]
    rfl

namespace RewrittenTyped

variable
  {cat : Catalog}
  {query query' : Query}
  {pList : List TargetEntry}

theorem rtFetch_type (known : RewrittenTyped cat query query' pList) (attno : Nat) :
    (rtFetch query'.targetList attno).map (fun te => exprType te.expr) =
      (rtFetch (originalColumns query ++ pList) attno).map fun te => exprType te.expr := by
  have types := congrArg (List.map Prod.snd) known.columns
  rw [List.map_map, List.map_map] at types
  rw [← rtFetch_map, ← rtFetch_map]
  exact congrArg (fun list => rtFetch list attno) types

/-- The original columns keep their types. -/
theorem original (known : RewrittenTyped cat query query' pList) {attno : Nat}
    (column : FirstColumns query.visibleCount attno) :
    (rtFetch query'.targetList attno).map (fun te => exprType te.expr) =
      (rtFetch query.targetList attno).map fun te => exprType te.expr := by
  rcases column with ⟨positive, bounded⟩
  obtain ⟨position, rfl⟩ := Nat.exists_eq_add_of_le' positive
  have inside : position < query.visibleCount := by omega
  have enough := visibleCount_le query
  have width := visibleCount_le_originalWidth query
  rw [known.rtFetch_type, rtFetch, rtFetch,
    List.getElem?_append_left (by rw [length_originalColumns]; omega), originalColumns]
  split
  · rw [known.targets.nonJunk_eq, List.getElem?_take_of_lt inside]
  · rfl

/-- The provenance attributes have the types of the last columns. -/
theorem attr (known : RewrittenTyped cat query query' pList) {te : TargetEntry}
    (member : te ∈ pList) :
    (rtFetch query'.targetList te.resno).map (fun te => exprType te.expr) =
      some (exprType te.expr) := by
  rcases List.mem_iff_getElem?.mp member with ⟨position, present⟩
  have inside := (List.getElem?_eq_some_iff.mp present).1
  have resno : (pList.map TargetEntry.resno)[position]? = some te.resno := by
    rw [List.getElem?_map, present, Option.map_some]
  rw [known.atEnd.resnos, List.getElem?_range' inside, Option.some.injEq, Nat.one_mul,
    Nat.add_right_comm] at resno
  rw [known.rtFetch_type, ← resno, rtFetch, ← length_originalColumns,
    List.getElem?_append_right (Nat.le_add_right _ _), Nat.add_sub_cancel_left, present,
    Option.map_some]

theorem visible (known : RewrittenTyped cat query query' pList)
    (original : ∀ te ∈ originalColumns query, te.resjunk = false) :
    ∀ te ∈ query'.targetList, te.resjunk = false := by
  intro te member
  have found := List.mem_map_of_mem (f := fun te => (te.resjunk, exprType te.expr)) member
  rw [known.columns] at found
  rcases List.mem_map.mp found with ⟨te', isColumn, equal⟩
  rw [← (Prod.mk.inj equal).1]
  exact (List.mem_append.mp isColumn).elim (original te') (known.attrsOf.visible te')

end RewrittenTyped

/-! ## Inputs of a select-project-join node -/

section Inputs

variable
  {cat : Catalog}
  {rtindex attno start : Nat}
  {rte rte' : RTE}
  {rtable rtable' rtable'' : List RTE}
  {subList : List Nat}
  {lists : List (List TargetEntry)}
  {pList : List TargetEntry}
  {type : Oid}

theorem EntryShape.columnType_kept
    (entry : EntryShape cat (RewrittenTyped cat) rtindex rte rte' pList)
    (column : FirstColumns (rteWidth cat rte) attno)
    (found : columnType cat rte attno = some type) :
    columnType cat rte' attno = some type := by
  cases entry with
  | kept provenance leaf kind eref attrs => rw [columnType_congr kind, found]
  | recursed descends related =>
    have kind := kind_of_recursesInto descends
    rw [rteWidth, kind] at column
    rw [columnType_subquery rfl, related.original column, ← columnType_subquery kind, found]

/-- What the columns of an entry depend on when its attributes are numbered. -/
structure EntryAligned (cat : Catalog) (rte : RTE) : Prop where
  live : ∀ relid ∈ numberedRelation rte, LiveFirst (cat.attributes relid)
  targets : ∀ sub, rte.kind = .subquery sub → TargetsOk sub

theorem EntryShape.columnType_attr
    (entry : EntryShape cat (RewrittenTyped cat) rtindex rte rte' pList)
    (isInput : isCounted rte = true) (aligned : EntryAligned cat rte) {te : TargetEntry}
    (member : te ∈ pList) :
    columnType cat rte' te.resno = some (exprType te.expr) := by
  cases entry with
  | kept provenance leaf kind eref attrs =>
    rw [columnType_congr kind]
    exact attrs.columnType_eq isInput provenance aligned.live aligned.targets member
  | recursed descends related =>
    rw [columnType_subquery rfl]
    exact related.attr member

theorem columnType_appendAliasvars (found : columnType cat rte attno = some type)
    (pList : List TargetEntry) :
    columnType cat (appendAliasvars rte pList) attno = some type := by
  rcases rte with ⟨kind, userAlias, eref, isProvBase, provAttrs⟩
  cases kind with
  | join jointype aliasvars =>
    simp only [columnType, appendAliasvars, Option.map_eq_some_iff] at found ⊢
    rcases found with ⟨expr, fetched, typed⟩
    exact ⟨expr, rtFetch_append fetched _, typed⟩
  | _ => exact found

/-- The rewritten entry at a position. -/
theorem AliasExtended.typeAt_eq (extended : AliasExtended (rtable'.map correctRTEAlias) rtable'')
    (positive : 1 ≤ rtindex) (present : rtable'[rtindex - 1]? = some rte')
    (found : columnType cat rte' attno = some type) :
    typeAt cat rtable'' rtindex attno = some type := by
  have corrected : rtFetch (rtable'.map correctRTEAlias) rtindex = some (correctRTEAlias rte') := by
    rw [rtFetch_map, rtFetch_eq_some_iff.mpr ⟨positive, present⟩]
    rfl
  rcases extended.fetch rtindex with ⟨absent, _⟩ | ⟨rte'', ext, before, after⟩
  · rw [corrected] at absent
    contradiction
  · rw [corrected] at before
    cases before
    rw [typeAt, after]
    refine columnType_appendAliasvars ?_ ext
    rw [columnType_congr (correctRTEAlias_kind rte'), found]

variable
  (inputs : InputsFrom cat (RewrittenTyped cat) 1 rtable rtable' subList lists)
  (extended : AliasExtended (rtable'.map correctRTEAlias) rtable'')

include inputs extended

/-- The columns of the inputs keep their types. -/
theorem InputsFrom.typeAt_kept (column : columnsAt cat rtable rtindex attno)
    (found : typeAt cat rtable rtindex attno = some type) :
    typeAt cat rtable'' rtindex attno = some type := by
  rcases Option.bind_eq_some_iff.mp found with ⟨rte, fetched, isType⟩
  rcases rtFetch_eq_some_iff.mp fetched with ⟨positive, present⟩
  rcases inputs.fetch _ present with ⟨rte', present', ⟨_, rfl⟩ | ⟨_, pList, entry, _⟩⟩
  · exact extended.typeAt_eq positive present' isType
  · rw [columnsAt, widthAt, fetched] at column
    exact extended.typeAt_eq positive present' (entry.columnType_kept column isType)

/-- The attributes of the inputs have the types of their columns. -/
theorem InputsFrom.typeAt_attr (aligned : ∀ rte ∈ rtable, EntryAligned cat rte)
    {attr : Nat × TargetEntry} (member : attr ∈ attributesOf subList lists) :
    typeAt cat rtable'' attr.1 attr.2.resno = some (exprType attr.2.expr) := by
  rcases List.mem_flatMap.mp member with ⟨⟨rtindex, pList⟩, paired, inside⟩
  rcases List.mem_map.mp inside with ⟨te, isAttr, rfl⟩
  rcases inputs.entry_of_mem (List.of_mem_zip paired).1 with
    ⟨rte, rte', pList', isInput, present, present', entry, paired'⟩
  have found := stackListFor_of_mem inputs.nodup inputs.lengths_eq [] paired
  have found' := stackListFor_of_mem inputs.nodup inputs.lengths_eq [] paired'
  rw [found, Option.some.injEq] at found'
  rw [← found'] at entry
  exact extended.typeAt_eq (inputs.le_of_mem _ (List.of_mem_zip paired).1) present'
    (entry.columnType_attr isInput (aligned rte (List.mem_of_getElem? present)) isAttr)

end Inputs

/-! ## Alias columns of joins -/

section Joins

variable
  {cat : Catalog}
  {rtable rtable' final : List RTE}
  {subList : List Nat}
  {pStack : List (List TargetEntry)}

/-- The lists that the inputs have pushed hold typed columns. -/
def ListsTyped (cat : Catalog) (final : List RTE) (pStack : List (List TargetEntry))
    (subList leaves : List Nat) : Prop :=
  ∀ leaf ∈ leaves, ∀ pList, stackListFor pStack subList leaf = some pList → ∀ te ∈ pList,
    IsVar te.expr ∧ typeAt cat final leaf te.resno = some (exprType te.expr)

/-- An alias column of the final range table is typed, or was there before. -/
def AliasesTyped (cat : Catalog) (final rtable : List RTE) (joins : List Nat) : Prop :=
  ∀ join ∈ joins, ∀ expr ∈ aliasvarsAt final join,
    expr ∈ aliasvarsAt rtable join ∨ ExprTyped cat final expr

theorem exprType_setVarno (varno : Nat) {expr : Expr} (isVar : IsVar expr) :
    ∃ attno, setVarno varno expr = .var varno attno (exprType expr) := by
  rcases isVar with ⟨_, attno, vartype, rfl⟩
  exact ⟨attno, rfl⟩

/-- A typed attribute of the FROM item at a position. -/
def AttrTyped (cat : Catalog) (final : List RTE) (rtindex : Nat) (te : TargetEntry) : Prop :=
  (∃ attno, te.expr = .var rtindex attno (exprType te.expr)) ∧
    typeAt cat final rtindex te.resno = some (exprType te.expr)

theorem exprTyped_aliasAttrs {leftIndex rightIndex : Nat} {leftAttrs rightAttrs : List TargetEntry}
    (left : ∀ te ∈ leftAttrs, AttrTyped cat final leftIndex te)
    (right : ∀ te ∈ rightAttrs, AttrTyped cat final rightIndex te) :
    ∀ te ∈ aliasAttrs leftAttrs rightAttrs, ExprTyped cat final te.expr := by
  have typed {rtindex : Nat} {te : TargetEntry} (attr : AttrTyped cat final rtindex te) :
      ExprTyped cat final (setVarattno te.resno te.expr) := by
    rcases attr with ⟨⟨attno, isVar⟩, found⟩
    rw [isVar, setVarattno, exprTyped_var_iff]
    exact found
  intro te member
  rcases List.mem_map.mp member with ⟨te', isAttr, rfl⟩
  rcases List.mem_append.mp isAttr with isLeft | isRight
  · exact typed (left te' isLeft)
  · exact typed (right te' isRight)

theorem attrTyped_joinEntries {rtindex : Nat} {aliasvars : List Expr} {attrs : List TargetEntry}
    (added : aliasvarsAt final rtindex = aliasvars ++ attrs.map TargetEntry.expr) :
    ∀ te ∈ joinEntries rtindex (aliasvars.length + 1) attrs, AttrTyped cat final rtindex te := by
  intro te member
  rcases List.mem_map.mp member with ⟨⟨attr, attno⟩, isAttr, rfl⟩
  rcases List.mk_mem_zipIdx_iff_le_and_getElem?_sub.mp isAttr with ⟨bound, present⟩
  have found : (aliasvarsAt final rtindex)[attno - 1]? = some attr.expr := by
    rw [added, List.getElem?_append_right (by omega), List.getElem?_map,
      show attno - 1 - aliasvars.length = attno - (aliasvars.length + 1) by omega, present,
      Option.map_some]
  have typed : typeAt cat final rtindex attno = some (exprType attr.expr) :=
    typeAt_of_aliasvarsAt (by omega) found
  exact ⟨⟨attno, rfl⟩, typed⟩

/-- The attributes of a FROM item become typed alias columns. -/
theorem computeJoinPAttrs_typed {node : JoinTreeNode} (nodup : node.rtindexes.Nodup)
    (joins : JoinsPresent rtable node.joins) {pAttrs : List TargetEntry}
    (computed : computeJoinPAttrs pStack subList node rtable = some (pAttrs, rtable'))
    (same : ∀ join ∈ node.joins, aliasvarsAt final join = aliasvarsAt rtable' join)
    (lists : ListsTyped cat final pStack subList node.leaves) :
    (∀ te ∈ pAttrs, AttrTyped cat final node.rtindex te) ∧
      AliasesTyped cat final rtable node.joins := by
  induction node generalizing rtable rtable' pAttrs with
  | rangeTblRef rtindex =>
    simp only [computeJoinPAttrs, Option.bind_eq_bind, Option.bind_eq_some_iff] at computed
    rcases computed with ⟨pList, onStack, equal⟩
    cases equal
    refine ⟨fun te member => ?_, by simp [AliasesTyped, JoinTreeNode.joins]⟩
    rcases List.mem_map.mp member with ⟨te', isAttr, rfl⟩
    rcases lists rtindex (by simp [JoinTreeNode.leaves]) pList onStack te' isAttr with
      ⟨isVar, typed⟩
    rcases exprType_setVarno rtindex isVar with ⟨attno, equal⟩
    simp only [AttrTyped, equal, exprType_var, JoinTreeNode.rtindex]
    exact ⟨⟨attno, rfl⟩, typed⟩
  | joinExpr jointype rtindex larg rarg quals leftIH rightIH =>
    simp only [computeJoinPAttrs, Option.bind_eq_bind,
      Option.bind_eq_some_iff, Prod.exists] at computed
    rcases computed with
      ⟨leftAttrs, leftTable, leftComputed, rightAttrs, rightTable, rightComputed, rte, present,
        equal⟩
    cases equal
    rcases joins_disjoint nodup with ⟨disjoint, notLeft, notRight⟩
    have frameLeft {join : Nat} (outside : join ∉ larg.joins) :
        rtFetch leftTable join = rtFetch rtable join :=
      computeJoinPAttrs_frame leftComputed outside
    have present' : rtFetch rtable rtindex = some rte := by
      rw [← frameLeft notLeft, ← computeJoinPAttrs_frame rightComputed notRight, present]
    have isJoin : rte.isJoin = true := by
      rcases joins rtindex (by simp [JoinTreeNode.joins]) with ⟨rte', fetched, isJoin⟩
      rw [present'] at fetched
      cases fetched
      exact isJoin
    rcases aliasvarsAt_joinStep nodup rightComputed present isJoin same with
      ⟨aliasvars, sameLeft, sameRight⟩
    simp only [JoinTreeNode.rtindexes, List.nodup_append] at nodup
    rcases leftIH nodup.1.1
        (fun join member => joins join (by simp [JoinTreeNode.joins, member])) leftComputed sameLeft
        (fun leaf member => lists leaf (by simp [JoinTreeNode.leaves, member])) with
      ⟨leftTyped, leftAliases⟩
    rcases rightIH nodup.1.2.1
        (fun join member => by
          rw [frameLeft fun inLeft => disjoint join inLeft member]
          exact joins join (by simp [JoinTreeNode.joins, member]))
        rightComputed sameRight
        (fun leaf member => lists leaf (by simp [JoinTreeNode.leaves, member])) with
      ⟨rightTyped, rightAliases⟩
    refine ⟨attrTyped_joinEntries aliasvars, fun join member expr isAlias => ?_⟩
    simp only [JoinTreeNode.joins, List.mem_append, List.mem_singleton] at member
    rcases member with (inLeft | inRight) | rfl
    · exact leftAliases join inLeft expr isAlias
    · rcases rightAliases join inRight expr isAlias with before | typed
      · rw [aliasvarsAt_congr (frameLeft fun inLeft => disjoint join inLeft inRight)] at before
        exact .inl before
      · exact .inr typed
    · rw [aliasvars] at isAlias
      rcases List.mem_append.mp isAlias with before | new
      · exact .inl (by simpa [aliasvarsAt, present'] using before)
      · rcases List.mem_map.mp new with ⟨te, isAttr, rfl⟩
        exact .inr (exprTyped_aliasAttrs leftTyped rightTyped te isAttr)

/-- All new alias columns of a FROM list are typed. -/
theorem correctJoinRTEs_typed {fromlist : List JoinTreeNode}
    (nodup : (fromlist.flatMap JoinTreeNode.rtindexes).Nodup)
    (joins : JoinsPresent rtable (fromlist.flatMap JoinTreeNode.joins))
    (corrected : correctJoinRTEs pStack subList fromlist rtable = some rtable')
    (same :
      ∀ join ∈ fromlist.flatMap JoinTreeNode.joins,
        aliasvarsAt final join = aliasvarsAt rtable' join)
    (listsOf : ListsOf pStack subList (fromlist.flatMap JoinTreeNode.leaves))
    (lists : ListsTyped cat final pStack subList (fromlist.flatMap JoinTreeNode.leaves)) :
    AliasesTyped cat final rtable (fromlist.flatMap JoinTreeNode.joins) := by
  induction fromlist generalizing rtable with
  | nil => simp [AliasesTyped]
  | cons item rest ih =>
    have parts := nodup
    rw [List.flatMap_cons, List.nodup_append] at parts
    rw [List.flatMap_cons] at listsOf lists
    rcases computeJoinPAttrs_routes item parts.1
        (fun join member => joins join (List.mem_append_left _ member))
        (fun leaf member => listsOf leaf (List.mem_append_left _ member)) with
      ⟨pAttrs, middle, computed, _, _⟩
    have restJoins := joins.rest nodup computed
    rw [correctJoinRTEs_cons computed] at corrected
    rcases correctJoinRTEs_routes rest parts.2.1 restJoins
        (fun leaf member => listsOf leaf (List.mem_append_right _ member)) with
      ⟨_, corrected', frame, _⟩
    cases corrected.symm.trans corrected'
    have sameItem : ∀ join ∈ item.joins, aliasvarsAt final join = aliasvarsAt middle join := by
      intro join inItem
      rw [same join (List.mem_append_left _ inItem)]
      exact aliasvarsAt_congr (frame join (not_mem_joins_rest nodup inItem))
    have first := (computeJoinPAttrs_typed parts.1
      (fun join member => joins join (List.mem_append_left _ member)) computed sameItem
      (fun leaf member => lists leaf (List.mem_append_left _ member))).2
    have others := ih parts.2.1 restJoins corrected
      (fun join member => same join (List.mem_append_right _ member))
      (fun leaf member => listsOf leaf (List.mem_append_right _ member))
      (fun leaf member => lists leaf (List.mem_append_right _ member))
    intro join member expr isAlias
    rcases List.mem_append.mp (List.flatMap_cons ▸ member) with inItem | inRest
    · exact first join inItem expr isAlias
    · have before := aliasvarsAt_congr (computeJoinPAttrs_frame computed fun inItem =>
        not_mem_joins_rest nodup inItem inRest)
      rw [← before]
      exact others join inRest expr isAlias

end Joins

/-! ## Select-project-join nodes -/

section Select

variable
  {cat : Catalog}
  {query query' : Query}
  {pList : List TargetEntry}

theorem scoped_exprs {cols : Nat → Nat → Prop} {aliasvars : Nat → List Expr} {node : JoinTreeNode}
    (inScope : node.Scoped cols aliasvars) :
    (∀ expr ∈ joinQuals node, RefsIn cols expr.vars) ∧
      ∀ join ∈ node.joins, ∀ expr ∈ aliasvars join, RefsIn cols expr.vars := by
  induction node with
  | rangeTblRef rtindex => simp [joinQuals, JoinTreeNode.joins]
  | joinExpr jointype rtindex larg rarg quals leftIH rightIH =>
    rcases inScope with ⟨leftScoped, rightScoped, qualsInside, aliasInside⟩
    rcases leftIH leftScoped with ⟨leftQuals, leftAliases⟩
    rcases rightIH rightScoped with ⟨rightQuals, rightAliases⟩
    constructor
    · intro expr member
      simp only [joinQuals, List.mem_append, Option.mem_toList] at member
      rcases member with (inLeft | inRight) | isQual
      · exact leftQuals expr inLeft
      · exact rightQuals expr inRight
      · cases isQual
        exact qualsInside
    · intro join member expr isAlias
      simp only [JoinTreeNode.joins, List.mem_append, List.mem_singleton] at member
      rcases member with (inLeft | inRight) | rfl
      · exact leftAliases join inLeft expr isAlias
      · exact rightAliases join inRight expr isAlias
      · exact fun ref inside => aliasInside ref (mem_varsList.mpr ⟨expr, isAlias, inside⟩)

/-- What the expressions of a node are. -/
theorem mem_nodeExprs {expr : Expr} :
    expr ∈ nodeExprs query ↔
      (∃ te ∈ query.targetList, te.expr = expr) ∨ query.quals = some expr ∨
        query.havingQual = some expr ∨ (∃ item ∈ query.fromlist, expr ∈ joinQuals item) ∨
        ∃ join ∈ query.fromlist.flatMap JoinTreeNode.joins,
          expr ∈ aliasvarsAt query.rtable join := by
  simp only [nodeExprs, List.mem_append, List.mem_map, Option.mem_toList,
    or_assoc]
  rw [List.mem_flatMap, List.mem_flatMap]

theorem SelectOk.scoped (select : SelectOk cat query) {expr : Expr}
    (member : expr ∈ nodeExprs query) : RefsIn (columnsAt cat query.rtable) expr.vars := by
  rcases mem_nodeExprs.mp member with
    ⟨te, isEntry, rfl⟩ | isQual | isQual | ⟨item, isItem, inside⟩ | ⟨join, isJoin, isAlias⟩
  · exact select.targets te isEntry
  · have quals := select.quals
    rwa [isQual] at quals
  · have having := select.having
    rwa [isQual] at having
  · exact (scoped_exprs (select.fromlist item isItem)).1 expr inside
  · rcases List.mem_flatMap.mp isJoin with ⟨item, isItem, inItem⟩
    exact (scoped_exprs (select.fromlist item isItem)).2 join inItem expr isAlias

theorem InputsFrom.listsTyped {rtable rtable' rtable'' : List RTE} {subList leaves : List Nat}
    {lists : List (List TargetEntry)}
    (inputs : InputsFrom cat (RewrittenTyped cat) 1 rtable rtable' subList lists)
    (extended : AliasExtended (rtable'.map correctRTEAlias) rtable'')
    (aligned : ∀ rte ∈ rtable, EntryAligned cat rte) :
    ListsTyped cat rtable'' lists.reverse subList leaves := by
  intro leaf _ pList onStack te isAttr
  by_cases member : leaf ∈ subList
  · rcases inputs.entry_of_mem member with ⟨rte, rte', pList', _, _, _, entry, paired⟩
    have found := stackListFor_of_mem inputs.nodup inputs.lengths_eq [] paired
    rw [List.append_nil, onStack, Option.some.injEq] at found
    subst found
    refine ⟨entry.isVar (fun _ _ _ known => known.attrsOf) isAttr, ?_⟩
    have inside : (leaf, te) ∈ attributesOf subList lists :=
      List.mem_flatMap.mpr ⟨_, paired, List.mem_map_of_mem isAttr⟩
    exact inputs.typeAt_attr extended aligned inside
  · rw [stackListFor_of_not_mem _ member] at onStack
    cases onStack
    contradiction

theorem DistinctShape.exprs {entries : List TargetEntry} {clauses : List SortClause}
    (shape : DistinctShape query entries pList clauses) :
    pList.map TargetEntry.expr = entries.map TargetEntry.expr := by
  have fields := congrArg (List.map Prod.fst) shape.fields
  rwa [List.map_map, List.map_map] at fields

/-- The rewritten node is typed if the original one is. -/
theorem SpjShape.nodeTyped (shape : SpjShape cat (RewrittenTyped cat) query query' pList)
    (select : SelectOk cat query) (typed : NodeTyped cat query)
    (aligned : ∀ rte ∈ query.rtable, EntryAligned cat rte) :
    NodeTyped cat query' := by
  cases shape with
  | @intro rtable' rtable'' subList lists entries _ clauses inputs joins attrs distinct =>
    have extended := correctJoinRTEs_extends _ joins
    have attrsOf := fun sub sub' subAttrs (known : RewrittenTyped cat sub sub' subAttrs) =>
      known.attrsOf
    have old : ∀ expr ∈ nodeExprs query, ExprTyped cat rtable'' expr := fun expr member =>
      (typed expr member).congr (select.scoped member) fun _ _ column _ =>
        inputs.typeAt_kept extended column
    have aliases :
        ∀ join ∈ query.fromlist.flatMap JoinTreeNode.joins,
          ∀ expr ∈ aliasvarsAt rtable'' join, ExprTyped cat rtable'' expr := by
      intro join isJoin expr isAlias
      rcases correctJoinRTEs_typed select.nodup (select.joinsPresent inputs) joins
        (fun _ _ => rfl) (inputs.listsOf attrsOf _) (inputs.listsTyped extended aligned)
        join isJoin expr isAlias with before | typed
      · rw [inputs.aliasvarsAt_eq] at before
        exact old expr (mem_nodeExprs.mpr (.inr (.inr (.inr (.inr ⟨join, isJoin, before⟩)))))
      · exact typed
    have new : ∀ te ∈ entries, ExprTyped cat rtable'' te.expr := by
      rcases inputs.seen select attrsOf with ⟨_, corrected, seen⟩
      cases joins.symm.trans corrected
      exact provenanceEntries_typed attrs seen aliases
        fun attr isAttr => inputs.typeAt_attr extended aligned isAttr
    intro expr member
    rcases mem_nodeExprs.mp member with ⟨te, isEntry, rfl⟩ | others
    · rcases List.mem_append.mp isEntry with isOld | isNew
      · exact old te.expr (mem_nodeExprs.mpr (.inl ⟨te, isOld, rfl⟩))
      · have found := List.mem_map_of_mem (f := TargetEntry.expr) isNew
        rw [distinct.exprs] at found
        rcases List.mem_map.mp found with ⟨entry, isEntry, equal⟩
        rw [← equal]
        exact new entry isEntry
    · rcases others with isQual | isQual | inside | ⟨join, isJoin, isAlias⟩
      · exact old expr (mem_nodeExprs.mpr (.inr (.inl isQual)))
      · exact old expr (mem_nodeExprs.mpr (.inr (.inr (.inl isQual))))
      · exact old expr (mem_nodeExprs.mpr (.inr (.inr (.inr (.inl inside)))))
      · exact aliases join isJoin expr isAlias

end Select

end Ldv.Perm
