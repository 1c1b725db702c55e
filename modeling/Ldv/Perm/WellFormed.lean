import Ldv.Perm.Routing

/-!
# Well-formed query trees

What parse analysis guarantees about a query tree, as far as the rewriter
and the meaning of its result depend on it.  The conditions are stated for
one query node, and `WellFormed` extends them to all nodes of a tree.  They
are decidable, so that concrete trees can be checked by evaluation.

The rewrite of an aggregation creates a query node for the input of the
aggregation, which is well formed again.
-/

namespace Ldv.Perm

open Ldv.Sql

/-! ## Target lists -/

structure TargetsOk (query : Query) : Prop where
  /-- Target entries are numbered consecutively. -/
  numbered : query.targetList.map TargetEntry.resno = List.range' 1 query.targetList.length
  /-- Entries which are not selected come last. -/
  junkLast : ∀ te ∈ query.targetList.take query.visibleCount, te.resjunk = false
  /-- Exactly the selected entries have a name. -/
  named : ∀ te ∈ query.targetList, te.resname.isSome = !te.resjunk
  /-- Sort, group and distinct items refer to one target entry each. -/
  refers :
    ∀ clause ∈
        query.sortClause ++ query.groupClause ++ query.distinctClause,
      RefersOnce query.targetList clause.tleSortGroupRef

instance (query : Query) : Decidable (TargetsOk query) :=
  decidable_of_iff
    (_ ∧ _ ∧ _ ∧ _)
    ⟨fun ⟨numbered, junkLast, named, refers⟩ =>
        ⟨numbered, junkLast, named, refers⟩,
      fun ok => ⟨ok.numbered, ok.junkLast, ok.named, ok.refers⟩⟩

/-! ## Range-table entries -/

structure EntryOk (cat : Catalog) (rte : RTE) : Prop where
  labels : ∀ label ∈ expandRTENames cat rte, label.isSome = true
  aliasname : rte.eref.aliasname.isSome = true
  /-- Only relations and subqueries are marked. -/
  unmarked : hasProvenance rte = false → rte.isProvBase = false ∧ rte.provAttrs = []
  /-- A PROVENANCE attribute list names columns of the entry. -/
  listed :
    isCounted rte = true → recursesInto rte = none →
      ∀ provAttr ∈ rte.provAttrs, provAttr ∈ ((listableNames cat rte).getD []).map some
  /-- Subqueries which are rewritten are not base relations. -/
  rewritten : recursesInto rte ≠ none → rte.isProvBase = false

instance (cat : Catalog) (rte : RTE) : Decidable (EntryOk cat rte) :=
  letI : Decidable (recursesInto rte = none) :=
    decidable_of_iff ((recursesInto rte).isNone = true) (by simp)
  decidable_of_iff
    (_ ∧ _ ∧ _ ∧ _ ∧ _)
    ⟨fun ⟨labels, aliasname, unmarked, listed, rewritten⟩ =>
        ⟨labels, aliasname, unmarked, listed, rewritten⟩,
      fun ok => ⟨ok.labels, ok.aliasname, ok.unmarked, ok.listed, ok.rewritten⟩⟩

/-- All entries that are counted as inputs push a list when they are rewritten. -/
def InputsPush (rtable : List RTE) : Prop :=
  ∀ rte ∈ rtable, isCounted rte = true → hasProvenance rte = true

instance (rtable : List RTE) : Decidable (InputsPush rtable) :=
  inferInstanceAs (Decidable (∀ rte ∈ rtable, _))

theorem hasProvenance_of_recursesInto {rte : RTE} {sub : Query}
    (descends : recursesInto rte = some sub) :
    hasProvenance rte = true := by
  simp [hasProvenance, kind_of_recursesInto descends]

/-! ## Nodes which are not set operations -/

instance (cat : Catalog) (rtable : List RTE) (rtindex attno : Nat) :
    Decidable (columnsAt cat rtable rtindex attno) :=
  inferInstanceAs (Decidable (_ ∧ _))

instance (cols : Nat → Nat → Prop)
    [∀ rtindex attno, Decidable (cols rtindex attno)] (refs : List VarRef) :
    Decidable (RefsIn cols refs) :=
  inferInstanceAs (Decidable (∀ ref ∈ refs, _))

def decideScoped (cols : Nat → Nat → Prop)
    [∀ rtindex attno, Decidable (cols rtindex attno)] (aliasvars : Nat → List Expr) :
    (node : JoinTreeNode) → Decidable (node.Scoped cols aliasvars)
  | .rangeTblRef _ => inferInstanceAs (Decidable True)
  | .joinExpr _ _ larg rarg _ =>
    letI := decideScoped cols aliasvars larg
    letI := decideScoped cols aliasvars rarg
    inferInstanceAs (Decidable (_ ∧ _ ∧ _ ∧ _))

instance (cols : Nat → Nat → Prop)
    [∀ rtindex attno, Decidable (cols rtindex attno)]
    (aliasvars : Nat → List Expr) (node : JoinTreeNode) :
    Decidable (node.Scoped cols aliasvars) :=
  decideScoped cols aliasvars node

structure SelectOk (cat : Catalog) (query : Query) : Prop where
  /-- No entry stands at two places of the FROM list. -/
  nodup : (query.fromlist.flatMap JoinTreeNode.rtindexes).Nodup
  /-- The references of the FROM list are to entries which are no joins. -/
  leaves :
    ∀ rtindex ∈ query.fromlist.flatMap JoinTreeNode.leaves,
      (rtFetch query.rtable rtindex).any (fun rte => !rte.isJoin) = true
  /-- Each join has a join entry. -/
  joins :
    ∀ rtindex ∈ query.fromlist.flatMap JoinTreeNode.joins,
      (rtFetch query.rtable rtindex).any RangeTblEntry.isJoin = true
  /-- All inputs are in the FROM list. -/
  covered :
    ∀ entry ∈ query.rtable.zipIdx 1, isCounted entry.1 = true →
      entry.2 ∈ query.fromlist.flatMap JoinTreeNode.leaves
  /-- Column references are to existing columns. -/
  targets : ∀ te ∈ query.targetList, RefsIn (columnsAt cat query.rtable) te.expr.vars
  quals : RefsIn (columnsAt cat query.rtable) (qualVars query.quals)
  having : RefsIn (columnsAt cat query.rtable) (qualVars query.havingQual)
  fromlist :
    ∀ item ∈ query.fromlist, item.Scoped (columnsAt cat query.rtable) (aliasvarsAt query.rtable)
  /-- Grouping expressions can be compared and hold no aggregates. -/
  grouping :
    ∀ te ∈ getGroupByTLEs query,
      (cat.equalityOper (exprType te.expr)).isSome = true ∧ isAggrExpr te.expr = false

instance (cat : Catalog) (query : Query) : Decidable (SelectOk cat query) :=
  decidable_of_iff
    (_ ∧ _ ∧ _ ∧ _ ∧ _ ∧ _ ∧ _ ∧ _ ∧ _)
    ⟨fun ⟨nodup, leaves, joins, covered, targets, quals, having, fromlist,
          grouping⟩ =>
        ⟨nodup, leaves, joins, covered, targets, quals, having, fromlist, grouping⟩,
      fun ok =>
        ⟨ok.nodup, ok.leaves, ok.joins, ok.covered, ok.targets, ok.quals, ok.having,
          ok.fromlist, ok.grouping⟩⟩

/-! ## Set operations -/

structure SetOk (query : Query) (tree : SetOpNode) : Prop where
  operator : isSetOperationStmt tree = true
  /-- The tree refers to all entries from left to right. -/
  refs : tree.refs = List.range' 1 query.rtable.length
  /-- All inputs are subqueries with the columns of the result. -/
  inputs :
    ∀ rte ∈ query.rtable,
      isCounted rte = true ∧
        (recursesInto rte).any (fun sub =>
          sub.visibleCount == query.targetList.length) = true
  aliases :
    ∀ rte ∈ query.rtable,
      (rte.userAlias.bind Alias.aliasname).any (fun name => name != "*OLD*") = true
  /-- The target list is made of the columns of the first input. -/
  columns : ∀ entry ∈ query.targetList.zipIdx 1, isVarOf 1 entry.2 entry.1.expr = true
  nonempty : query.targetList.isEmpty = false
  visible : ∀ te ∈ query.targetList, te.resjunk = false
  noAggs : query.hasAggs = false
  noFrom : query.fromlist.isEmpty = true
  noQuals : query.quals.isNone = true
  noGroups : query.isGrouped = false
  noDistinct : query.distinctClause = []

instance (query : Query) (tree : SetOpNode) :
    Decidable (SetOk query tree) :=
  decidable_of_iff
    (_ ∧ _ ∧ _ ∧ _ ∧ _ ∧ _ ∧ _ ∧ _ ∧ _ ∧ _ ∧ _ ∧ _)
    ⟨fun ⟨operator, refs, inputs, aliases, columns, nonempty, visible,
          noAggs, noFrom, noQuals, noGroups, noDistinct⟩ =>
        ⟨operator, refs, inputs, aliases, columns, nonempty, visible,
          noAggs, noFrom, noQuals, noGroups, noDistinct⟩,
      fun ok =>
        ⟨ok.operator, ok.refs, ok.inputs, ok.aliases, ok.columns,
          ok.nonempty, ok.visible, ok.noAggs, ok.noFrom, ok.noQuals,
          ok.noGroups, ok.noDistinct⟩⟩

/-! ## All nodes -/

/-- The condition for the type of a node, given its set-operation tree. -/
def ClausesOk (cat : Catalog) (query : Query) : Option SetOpNode → Prop
  | none => SelectOk cat query
  | some tree => SetOk query tree

instance (cat : Catalog) (query : Query) :
    (setOperations : Option SetOpNode) →
    Decidable (ClausesOk cat query setOperations)
  | none => inferInstanceAs (Decidable (SelectOk cat query))
  | some tree => inferInstanceAs (Decidable (SetOk query tree))

structure NodeOk (cat : Catalog) (query : Query) : Prop where
  targets : TargetsOk query
  entries : ∀ rte ∈ query.rtable, EntryOk cat rte
  clauses : ClausesOk cat query query.setOperations

instance (cat : Catalog) (query : Query) : Decidable (NodeOk cat query) :=
  decidable_of_iff
    (_ ∧ _ ∧ _)
    ⟨fun ⟨targets, entries, clauses⟩ => ⟨targets, entries, clauses⟩,
      fun ok => ⟨ok.targets, ok.entries, ok.clauses⟩⟩

/-- All nodes of the query tree are as parse analysis leaves them. -/
def WellFormed (cat : Catalog) (query : Query) : Prop :=
  query.Everywhere (NodeOk cat)

instance (cat : Catalog) (query : Query) :
    Decidable (WellFormed cat query) :=
  inferInstanceAs (Decidable (query.Everywhere (NodeOk cat)))

/-!
## Induction over rewritten queries

A property of all rewritten queries is proved by one case per node type, in
which it is known for the queries that were rewritten recursively.  These
are the subqueries of the range table, the input of an aggregation, and the
parts taken out of a set operation: the queries which the node `Reaches`.
They are smaller than the node, and well formed if the node is.
-/

/-- A numbering which is not used. -/
theorem map_zipIdx_fst {α β : Type} (f : α → β) (list : List α) (start : Nat) :
    (list.zipIdx start).map (fun entry => f entry.1) = list.map f := by
  have unused := congrArg (List.map f) (List.zipIdx_map_fst start list)
  rwa [List.map_map] at unused

/-! ## The input of an aggregation -/

section AggregationInput

variable
  {cat : Catalog}
  {query : Query}
  {stripped : List TargetEntry}

/-- Fields other than the name agree. -/
theorem SameButNames.map_eq {left right : List TargetEntry} (same : SameButNames left right)
    {α : Type} (f : TargetEntry → α) (unnamed : ∀ te, f { te with resname := none } = f te) :
    left.map f = right.map f := by
  have mapped := congrArg (List.map f) same
  simpa [List.map_map, Function.comp_def, unnamed] using mapped

theorem strippedEntries_resno (targetList : List TargetEntry) :
    (strippedEntries targetList).map TargetEntry.resno =
      List.range' 1 (strippedEntries targetList).length := by
  simp [strippedEntries, Function.comp_def]

theorem strippedEntries_expr (targetList : List TargetEntry) :
    (strippedEntries targetList).map TargetEntry.expr =
      (targetList.filter fun te => !isAggrExpr te.expr).map
        TargetEntry.expr := by
  simp only [strippedEntries, List.map_map, Function.comp_def]
  exact map_zipIdx_fst TargetEntry.expr _ 1

theorem SameButNames.length_eq {left right : List TargetEntry} (same : SameButNames left right) :
    left.length = right.length := by
  simpa using congrArg List.length same

theorem targetsOk_aggregationInput
    (strip : SameButNames stripped (strippedEntries query.targetList))
    (named : ∀ te ∈ stripped, te.resname.isSome = true) :
    TargetsOk (aggregationInput query stripped) := by
  have resnos := strip.map_eq TargetEntry.resno fun _ => rfl
  have junks := strip.map_eq TargetEntry.resjunk fun _ => rfl
  have visible : ∀ te ∈ stripped, te.resjunk = false := by
    intro te member
    have found : te.resjunk ∈ stripped.map TargetEntry.resjunk := List.mem_map_of_mem member
    rw [junks] at found
    simp only [strippedEntries, List.map_map, List.mem_map, Function.comp_apply] at found
    rcases found with ⟨_, _, equal⟩
    exact equal.symm
  constructor
  · simp only [aggregationInput, clearGrouprefs, List.map_map, List.length_map, Function.comp_def]
    rw [resnos, strippedEntries_resno, strip.length_eq]
  · intro te member
    have kept := List.mem_of_mem_take member
    simp only [aggregationInput, clearGrouprefs, List.mem_map] at kept
    rcases kept with ⟨te', kept, rfl⟩
    exact visible te' kept
  · intro te member
    simp only [aggregationInput, clearGrouprefs, List.mem_map] at member
    rcases member with ⟨te', member, rfl⟩
    simp [named te' member, visible te' member]
  · intro clause member
    simp [aggregationInput] at member

theorem selectOk_aggregationInput (ok : SelectOk cat query)
    (strip : SameButNames stripped (strippedEntries query.targetList)) :
    SelectOk cat (aggregationInput query stripped) where
  nodup := ok.nodup
  leaves := ok.leaves
  joins := ok.joins
  covered := ok.covered
  targets := by
    intro te member
    have exprs := strip.map_eq TargetEntry.expr fun _ => rfl
    rw [strippedEntries_expr] at exprs
    simp only [aggregationInput, clearGrouprefs, List.mem_map] at member
    rcases member with ⟨te', member, rfl⟩
    have found : te'.expr ∈ stripped.map TargetEntry.expr := List.mem_map_of_mem member
    rw [exprs] at found
    rcases List.mem_map.mp found with ⟨original, kept, equal⟩
    have inside := ok.targets original (List.mem_filter.mp kept).1
    rw [equal] at inside
    exact inside
  quals := ok.quals
  having := by simp [aggregationInput, qualVars, RefsIn]
  fromlist := ok.fromlist
  grouping := by simp [aggregationInput, getGroupByTLEs]

theorem NodeOk.setOperations_eq_none (ok : NodeOk cat query) (aggs : query.hasAggs = true) :
    query.setOperations = none := by
  cases present : query.setOperations with
  | none => rfl
  | some tree =>
    have clauses := ok.clauses
    rw [present] at clauses
    have noAggs := SetOk.noAggs clauses
    rw [aggs] at noAggs
    contradiction

theorem NodeOk.selectOk (ok : NodeOk cat query) (noSetOp : query.setOperations = none) :
    SelectOk cat query := by
  have clauses := ok.clauses
  rw [noSetOp] at clauses
  exact clauses

theorem NodeOk.setOk (ok : NodeOk cat query) {tree : SetOpNode}
    (present : query.setOperations = some tree) :
    SetOk query tree := by
  have clauses := ok.clauses
  rw [present] at clauses
  exact clauses

theorem nodeOk_aggregationInput (ok : NodeOk cat query) (aggs : query.hasAggs = true)
    (strip : SameButNames stripped (strippedEntries query.targetList))
    (named : ∀ te ∈ stripped, te.resname.isSome = true) :
    NodeOk cat (aggregationInput query stripped) where
  targets := targetsOk_aggregationInput strip named
  entries := ok.entries
  clauses := by
    have noSetOp := ok.setOperations_eq_none aggs
    have select := selectOk_aggregationInput (ok.selectOk noSetOp) strip
    rw [show (aggregationInput query stripped).setOperations = none from
      noSetOp]
    exact select

end AggregationInput

/-! ## Inputs of the restructured tree -/

/-- Is the tree an operator? -/
def OpTree.IsOperator : OpTree → Prop
  | .leaf _ => False
  | .node _ _ _ _ _ => True

theorem OpTree.leaves_pos (tree : OpTree) : 0 < tree.leaves.length := by
  induction tree with
  | leaf rte => simp [OpTree.leaves]
  | node op all colTypes larg rarg leftIH rightIH =>
    simp only [OpTree.leaves, List.length_append]
    omega

theorem OpTree.isOperator_of_number {tree : OpTree} {start : Nat}
    (operator : isSetOperationStmt (tree.number start) = true) :
    tree.IsOperator := by
  cases tree with
  | leaf rte => simp [OpTree.number, isSetOperationStmt] at operator
  | node => trivial

/-- What the leaves of a restructured tree are. -/
def IsInput (query : Query) (tree : OpTree) (rte : RTE) : Prop :=
  rte ∈ tree.leaves ∨
    ∃ part : OpTree, part.IsOperator ∧ part.leaves.Sublist tree.leaves ∧ rte = newSubRTE query part

theorem IsInput.mono {query : Query} {tree tree' : OpTree} {rte : RTE}
    (input : IsInput query tree rte) (part : tree.leaves.Sublist tree'.leaves) :
    IsInput query tree' rte := by
  rcases input with leaf | ⟨subtree, operator, sublist, rfl⟩
  · exact .inl (part.subset leaf)
  · exact .inr ⟨subtree, operator, sublist.trans part, rfl⟩

theorem isInput_takeOut {query : Query} {tree : OpTree} {rte : RTE}
    (member : rte ∈ (takeOut query tree).leaves) :
    IsInput query tree rte := by
  cases tree with
  | leaf rte' => exact .inl member
  | node op all colTypes larg rarg =>
    rw [takeOut, OpTree.leaves, List.mem_singleton] at member
    exact .inr ⟨.node op all colTypes larg rarg, trivial, List.Sublist.refl _, member⟩

theorem isInput_restructure {query : Query} {rootType : SetOperation} {tree : OpTree} {rte : RTE}
    (member : rte ∈ (restructure query rootType tree).leaves) :
    IsInput query tree rte := by
  induction tree with
  | leaf rte' => exact .inl member
  | node op all colTypes larg rarg leftIH rightIH =>
    have left : larg.leaves.Sublist (OpTree.node op all colTypes larg rarg).leaves :=
      List.sublist_append_left _ _
    have right : rarg.leaves.Sublist (OpTree.node op all colTypes larg rarg).leaves :=
      List.sublist_append_right _ _
    have whole
        (taken :
          rte ∈ (OpTree.leaf (newSubRTE query
            (.node op all colTypes larg rarg))).leaves) :
        IsInput query (.node op all colTypes larg rarg) rte :=
      .inr ⟨.node op all colTypes larg rarg, trivial,
        List.Sublist.refl _, List.mem_singleton.mp taken⟩
    cases op with
    | except =>
      rw [restructure] at member
      split at member
      · rcases List.mem_append.mp member with member | member
        · exact (isInput_takeOut member).mono left
        · exact (isInput_takeOut member).mono right
      · exact whole member
    | union | intersect =>
      simp only [restructure] at member
      split at member
      · rcases List.mem_append.mp member with member | member
        · exact (leftIH member).mono left
        · exact (rightIH member).mono right
      · exact whole member

/-- The operator at the root itself is never taken out. -/
theorem isInput_restructure_root {query : Query} {op : SetOperation} {all : Bool}
    {colTypes : List Oid} {larg rarg : OpTree} {rte : RTE}
    (member :
      rte ∈ (restructure query op
        (.node op all colTypes larg rarg)).leaves) :
    IsInput query larg rte ∨ IsInput query rarg rte := by
  cases op with
  | except =>
    rw [restructure, if_pos rfl] at member
    exact (List.mem_append.mp member).imp isInput_takeOut isInput_takeOut
  | union =>
    simp only [restructure, if_true] at member
    exact (List.mem_append.mp member).imp isInput_restructure isInput_restructure
  | intersect =>
    simp only [restructure, if_true] at member
    exact (List.mem_append.mp member).imp isInput_restructure isInput_restructure

/-! ## Well-formed set operations -/

section WellFormed

variable
  {cat : Catalog}
  {query : Query}
  {tree : SetOpNode}

theorem SetOk.exists_ofTree (present : query.setOperations = some tree) (ok : SetOk query tree) :
    ∃ op all colTypes larg rarg, query = ofTree query (.node op all colTypes larg rarg) := by
  rcases OpTree.exists_number tree ok.refs with ⟨opTree, rfl, leaves⟩
  have operator := OpTree.isOperator_of_number ok.operator
  cases opTree with
  | leaf rte => exact operator.elim
  | node op all colTypes larg rarg =>
    refine ⟨op, all, colTypes, larg, rarg, ?_⟩
    rw [ofTree, leaves, ← present]
    cases query
    rfl

theorem SetOk.removeDummyRewriterRTEs_eq (ok : SetOk query tree) (inhabited : query.rtable ≠ []) :
    removeDummyRewriterRTEs query = some query := by
  rcases head : query.rtable with _ | ⟨rte, rest⟩
  · exact absurd head inhabited
  · have fits := ok.aliases rte (by simp [head])
    rcases userAlias : rte.userAlias with _ | given
    · simp [userAlias] at fits
    · rcases aliasname : given.aliasname with _ | name
      · simp [userAlias, aliasname] at fits
      · have other : ¬ name = "*OLD*" := by
          simpa [userAlias, aliasname] using fits
        simp [removeDummyRewriterRTEs, head, userAlias, aliasname, other]

/-- A part of a set operation is a well-formed node of its own. -/
theorem SetOk.nodeOk_ofTree (nodeOk : NodeOk cat query) (ok : SetOk query tree) {part : OpTree}
    (operator : part.IsOperator) (inputs : part.leaves ⊆ query.rtable) :
    NodeOk cat (ofTree query part) where
  targets :=
    ⟨nodeOk.targets.numbered, nodeOk.targets.junkLast, nodeOk.targets.named, nodeOk.targets.refers⟩
  entries rte member := nodeOk.entries rte (inputs member)
  clauses :=
    { operator := by
        cases part with
        | leaf rte => exact operator.elim
        | node => rfl
      refs := part.refs_number 1
      inputs := fun rte member => ok.inputs rte (inputs member)
      aliases := fun rte member => ok.aliases rte (inputs member)
      columns := ok.columns
      nonempty := ok.nonempty
      visible := ok.visible
      noAggs := ok.noAggs
      noFrom := ok.noFrom
      noQuals := ok.noQuals
      noGroups := ok.noGroups
      noDistinct := ok.noDistinct }

end WellFormed

/-! ## Sizes -/

theorem size_ofTree (query : Query) (tree : OpTree) :
    (ofTree query tree).size =
      1 + (if query.hasAggs then 1 else 0) + tree.leaves.length + Query.sizeRtable tree.leaves := by
  rw [ofTree, Query.size, inputCount, OpTree.refs_number, List.length_range']

/-! ## Queries which are rewritten with a node -/

inductive Reaches (query : Query) : Query → Prop where
  | subquery {rte : RTE} {sub : Query}
      (member : rte ∈ query.rtable)
      (isInput : isCounted rte = true)
      (descends : recursesInto rte = some sub) :
      Reaches query sub
  | setInput {rte : RTE} {sub : Query}
      (setOp : query.setOperations.isSome = true)
      (member : rte ∈ query.rtable)
      (kind : rte.kind = .subquery sub) :
      Reaches query sub
  | aggregation {stripped : List TargetEntry}
      (aggs : query.hasAggs = true)
      (strip : SameButNames stripped (strippedEntries query.targetList))
      (named : ∀ te ∈ stripped, te.resname.isSome = true) :
      Reaches query (aggregationInput query stripped)
  | newSub {op : SetOperation} {all : Bool} {colTypes : List Oid}
      {larg rarg side part : OpTree}
      (tree : query = ofTree query (.node op all colTypes larg rarg))
      (isSide : side = larg ∨ side = rarg)
      (operator : part.IsOperator)
      (inside : part.leaves.Sublist side.leaves) :
      Reaches query (ofTree query part)

theorem ofTree_rtable {query : Query} {tree : OpTree} (same : query = ofTree query tree) :
    query.rtable = tree.leaves :=
  congrArg Query.rtable same

theorem ofTree_setOperations {query : Query} {tree : OpTree} (same : query = ofTree query tree) :
    query.setOperations = some (tree.number 1) :=
  congrArg Query.setOperations same

theorem sublist_of_isSide (op : SetOperation) (all : Bool) (colTypes : List Oid)
    {larg rarg side : OpTree} (isSide : side = larg ∨ side = rarg) :
    side.leaves.Sublist (OpTree.node op all colTypes larg rarg).leaves := by
  rcases isSide with rfl | rfl
  · exact List.sublist_append_left _ _
  · exact List.sublist_append_right _ _

/-- The inputs of a restructured set operation are reached. -/
theorem Reaches.of_restructured {query sub : Query} {op : SetOperation} {all : Bool}
    {colTypes : List Oid} {larg rarg : OpTree}
    (tree : query = ofTree query (.node op all colTypes larg rarg)) {rte : RTE}
    (member : rte ∈ (restructure query op (.node op all colTypes larg rarg)).leaves)
    (kind : rte.kind = .subquery sub) :
    Reaches query sub := by
  have fromSide {side : OpTree} (isSide : side = larg ∨ side = rarg)
      (input : IsInput query side rte) :
      Reaches query sub := by
    rcases input with leaf | ⟨part, operator, inside, rfl⟩
    · have inTree := (sublist_of_isSide op all colTypes isSide).subset leaf
      rw [← ofTree_rtable tree] at inTree
      exact .setInput (by rw [ofTree_setOperations tree]; rfl) inTree kind
    · cases kind
      exact .newSub tree isSide operator inside
  rcases isInput_restructure_root member with input | input
  · exact fromSide (.inl rfl) input
  · exact fromSide (.inr rfl) input

theorem length_lt_of_isSide (op : SetOperation) (all : Bool) (colTypes : List Oid)
    {larg rarg side : OpTree} (isSide : side = larg ∨ side = rarg) :
    side.leaves.length < (OpTree.node op all colTypes larg rarg).leaves.length := by
  have leftPos := larg.leaves_pos
  have rightPos := rarg.leaves_pos
  rw [OpTree.leaves, List.length_append]
  rcases isSide with rfl | rfl <;> omega

theorem Reaches.size_lt {query sub : Query} (reaches : Reaches query sub) :
    sub.size < query.size := by
  cases reaches with
  | subquery member isInput descends =>
    exact Query.size_lt_of_mem member (kind_of_recursesInto descends)
  | setInput setOp member kind => exact Query.size_lt_of_mem member kind
  | aggregation aggs strip named =>
    rw [query.size_eq, Query.size_eq, aggs]
    simp [aggregationInput]
  | @newSub op all colTypes larg rarg side part tree isSide _ inside =>
    have count := length_lt_of_isSide op all colTypes isSide
    have total := sizeRtable_le_of_sublist
      (inside.trans (sublist_of_isSide op all colTypes isSide))
    have shorter := inside.length_le
    have size := congrArg Query.size tree
    rw [size_ofTree] at size ⊢
    omega

/-! ## Conditions which pass to the queries a node reaches -/

theorem WellFormed.nodeOk {cat : Catalog} {query : Query} (wellFormed : WellFormed cat query) :
    NodeOk cat query :=
  (Query.everywhere_iff.mp wellFormed).1

theorem SelectOk.withoutLimit {cat : Catalog} {query : Query} (ok : SelectOk cat query) :
    SelectOk cat (withoutLimit query) :=
  ⟨ok.nodup, ok.leaves, ok.joins, ok.covered, ok.targets, ok.quals, ok.having, ok.fromlist,
    ok.grouping⟩

theorem SetOk.withoutLimit {query : Query} {tree : SetOpNode} (ok : SetOk query tree) :
    SetOk (withoutLimit query) tree :=
  ⟨ok.operator, ok.refs, ok.inputs, ok.aliases, ok.columns, ok.nonempty,
    ok.visible, ok.noAggs, ok.noFrom, ok.noQuals, ok.noGroups,
    ok.noDistinct⟩

/-- Well-formedness does not depend on LIMIT. -/
theorem WellFormed.withoutLimit {cat : Catalog} {query : Query}
    (wellFormed : WellFormed cat query) :
    WellFormed cat (withoutLimit query) := by
  have ok := wellFormed.nodeOk
  refine Query.everywhere_iff.mpr ⟨⟨?_, ok.entries, ?_⟩, (Query.everywhere_iff.mp wellFormed).2⟩
  · exact ⟨ok.targets.numbered, ok.targets.junkLast, ok.targets.named, ok.targets.refers⟩
  · show ClausesOk cat (Perm.withoutLimit query) query.setOperations
    cases setOp : query.setOperations with
    | none => exact (ok.selectOk setOp).withoutLimit
    | some tree => exact (ok.setOk setOp).withoutLimit

theorem Reaches.everywhere {query sub : Query} (reaches : Reaches query sub) {P : Query → Prop}
    (holds : query.Everywhere P)
    (aggregation :
      ∀ stripped, query.hasAggs = true →
        SameButNames stripped (strippedEntries query.targetList) →
        (∀ te ∈ stripped, te.resname.isSome = true) →
        P (aggregationInput query stripped))
    (newSub :
      ∀ part : OpTree, query.setOperations.isSome = true →
        part.IsOperator → part.leaves ⊆ query.rtable →
        P (ofTree query part)) :
    sub.Everywhere P := by
  have below := (Query.everywhere_iff.mp holds).2
  cases reaches with
  | subquery member isInput descends => exact below _ member _ (kind_of_recursesInto descends)
  | setInput setOp member kind => exact below _ member _ kind
  | aggregation aggs strip named =>
    exact Query.everywhere_iff.mpr ⟨aggregation _ aggs strip named, below⟩
  | @newSub op all colTypes larg rarg side part tree isSide operator inside =>
    have inputs : part.leaves ⊆ query.rtable := by
      rw [ofTree_rtable tree]
      exact (inside.trans (sublist_of_isSide op all colTypes isSide)).subset
    refine Query.everywhere_iff.mpr ⟨newSub part ?_ operator inputs,
      fun rte member => below rte (inputs member)⟩
    rw [ofTree_setOperations tree]
    rfl

theorem Reaches.wellFormed {cat : Catalog} {query sub : Query} (reaches : Reaches query sub)
    (wellFormed : WellFormed cat query) :
    WellFormed cat sub := by
  have ok := wellFormed.nodeOk
  apply reaches.everywhere wellFormed
  · intro stripped aggs strip named
    exact nodeOk_aggregationInput ok aggs strip named
  · intro part setOp operator inputs
    rcases Option.isSome_iff_exists.mp setOp with ⟨tree, present⟩
    exact (ok.setOk present).nodeOk_ofTree ok operator inputs

/-! ## Induction -/

section Mono

variable
  {cat : Catalog}
  {R R' : Rel}
  {query query' : Query}
  {pList : List TargetEntry}

theorem EntryShape.mono {rtindex : Nat} {rte rte' : RTE}
    (entry : EntryShape cat R rtindex rte rte' pList)
    (weaker :
      ∀ sub, recursesInto rte = some sub → ∀ sub' subAttrs,
        R sub sub' subAttrs → R' sub sub' subAttrs) :
    EntryShape cat R' rtindex rte rte' pList := by
  cases entry with
  | kept provenance leaf kind eref attrs => exact .kept provenance leaf kind eref attrs
  | recursed descends related =>
    exact .recursed descends (weaker _ descends _ _ related)

theorem InputsFrom.mono {start : Nat} {rtable rtable' : List RTE} {subList : List Nat}
    {lists : List (List TargetEntry)} (inputs : InputsFrom cat R start rtable rtable' subList lists)
    (weaker :
      ∀ rte ∈ rtable, isCounted rte = true → ∀ sub, recursesInto rte = some sub →
        ∀ sub' subAttrs, R sub sub' subAttrs → R' sub sub' subAttrs) :
    InputsFrom cat R' start rtable rtable' subList lists := by
  induction inputs with
  | nil => exact .nil
  | other uncounted tail ih =>
    exact .other uncounted (ih fun rte member =>
      weaker rte (by simp [member]))
  | counted isInput entry tail ih =>
    exact .counted isInput (entry.mono (weaker _ (by simp) isInput))
      (ih fun rte member =>
        weaker rte (by simp [member]))

theorem SpjShape.mono (shape : SpjShape cat R query query' pList)
    (weaker :
      ∀ rte ∈ query.rtable, isCounted rte = true → ∀ sub, recursesInto rte = some sub →
        ∀ sub' subAttrs, R sub sub' subAttrs → R' sub sub' subAttrs) :
    SpjShape cat R' query query' pList := by
  cases shape with
  | intro inputs joins attrs distinct =>
    exact .intro (inputs.mono weaker) joins attrs distinct

theorem SetInputs.mono {rtable rtable' : List RTE} {lists : List (List TargetEntry)}
    (inputs : SetInputs R rtable rtable' lists)
    (weaker :
      ∀ rte ∈ rtable, ∀ sub, rte.kind = .subquery sub →
        ∀ sub' subAttrs, R sub sub' subAttrs → R' sub sub' subAttrs) :
    SetInputs R' rtable rtable' lists := by
  induction inputs with
  | nil => exact .nil
  | cons kind related tail ih =>
    exact .cons kind (weaker _ (by simp) _ kind _ _ related)
      (ih fun rte member =>
        weaker rte (by simp [member]))

/-- Only queries which the node reaches matter. -/
theorem NodeShape.mono (shape : NodeShape cat R query query' pList)
    (weaker :
      ∀ sub, Reaches query sub → ∀ sub' subAttrs, R sub sub' subAttrs → R' sub sub' subAttrs) :
    NodeShape cat R' query query' pList := by
  have weakerEntry :
      ∀ rte ∈ query.rtable, isCounted rte = true → ∀ sub, recursesInto rte = some sub →
        ∀ sub' subAttrs, R sub sub' subAttrs → R' sub sub' subAttrs :=
    fun rte member isInput sub descends =>
      weaker sub (.subquery member isInput descends)
  cases shape with
  | spj noAggs noSetOp noLimit shape =>
    exact .spj noAggs noSetOp noLimit (shape.mono weakerEntry)
  | limit noAggs noSetOp limited visible shape =>
    exact .limit noAggs noSetOp limited visible (shape.mono weakerEntry)
  | agg aggs shape =>
    refine .agg aggs ?_
    cases shape with
    | intro strip named show_ shownNamed order rewritten attrs =>
      exact .intro strip named show_ shownNamed order
        (weaker _ (.aggregation aggs strip named) _ _ rewritten) attrs
  | set noAggs setOp shape =>
    refine .set noAggs setOp ?_
    cases shape with
    | intro tree inputs attrs =>
      exact .intro tree
        (inputs.mono fun rte member sub kind =>
          weaker sub (.of_restructured tree member kind))
        attrs

end Mono

/--
A property of rewritten queries is proved for a node from the same property
of the queries rewritten with it, under an assumption on the original tree.
-/
theorem Rewritten.induction {cat : Catalog} {I : Query → Prop} {motive : Rel}
    (closed : ∀ query sub, I query → Reaches query sub → I sub)
    (step :
      ∀ query query' pList, I query →
        NodeShape cat (fun sub sub' subAttrs =>
          I sub ∧ motive sub sub' subAttrs) query query' pList →
        motive query query' pList)
    {n : Nat} {query query' : Query} {pList : List TargetEntry} (holds : I query)
    (rewritten : Rewritten cat n query query' pList) :
    motive query query' pList := by
  induction n generalizing query query' pList with
  | zero => exact rewritten.elim
  | succ n ih =>
    have shape : NodeShape cat (Rewritten cat n) query query' pList := rewritten
    refine step query query' pList holds (shape.mono ?_)
    intro sub reaches sub' subAttrs rewritten'
    have holds' := closed query sub holds reaches
    exact ⟨holds', ih holds' rewritten'⟩

end Ldv.Perm
