import Ldv.Perm.SetOp

/-!
# Set-operation trees with their inputs

A set-operation tree refers to its inputs by their position in the range
table, and every restructuring step renumbers the positions.  An `OpTree`
holds the entries themselves in its leaves, so the restructuring becomes a
function on trees, `restructure`, which leaves no renumbering to reason
about.  `ofTree` goes back to a query: it lists the leaves of the tree as
range table and numbers the references from left to right.

A step replaces a subtree somewhere in the tree.  The place is given by a
context, the list of the operators above it together with their other
inputs.
-/

namespace Ldv.Perm

open Ldv.Sql

inductive OpTree where
  | leaf (rte : RTE)
  | node (op : SetOperation) (all : Bool) (colTypes : List Oid)
      (larg rarg : OpTree)

namespace OpTree

/-- The inputs, from left to right. -/
def leaves : OpTree → List RTE
  | .leaf rte => [rte]
  | .node _ _ _ larg rarg => larg.leaves ++ rarg.leaves

/-- The tree of references, numbered from `start`. -/
def number : OpTree → Nat → SetOpNode
  | .leaf _, start => .rangeTblRef start
  | .node op all colTypes larg rarg, start =>
    .setOperationStmt op all colTypes (larg.number start)
      (rarg.number (start + larg.leaves.length))

@[simp]
theorem refs_number (tree : OpTree) (start : Nat) :
    (tree.number start).refs = List.range' start tree.leaves.length := by
  induction tree generalizing start with
  | leaf rte => rfl
  | node op all colTypes larg rarg leftIH rightIH =>
    simp [number, SetOpNode.refs, leaves, leftIH, rightIH]

@[simp]
theorem renumber_number (tree : OpTree) (start start' : Nat) :
    renumber (tree.number start) start' = tree.number start' := by
  induction tree generalizing start start' with
  | leaf rte => rfl
  | node op all colTypes larg rarg leftIH rightIH =>
    simp [number, renumber, leftIH, rightIH]

/-- Every tree that refers to all entries in order comes from entries. -/
theorem exists_number (tree : SetOpNode) {start : Nat} {rtable : List RTE}
    (refs : tree.refs = List.range' start rtable.length) :
    ∃ opTree : OpTree, opTree.number start = tree ∧ opTree.leaves = rtable := by
  induction tree generalizing start rtable with
  | rangeTblRef rtindex =>
    rcases rtable with _ | ⟨rte, _ | ⟨_, _⟩⟩
    · simp [SetOpNode.refs] at refs
    · refine ⟨.leaf rte, ?_, rfl⟩
      simpa [SetOpNode.refs, number, eq_comm] using refs
    · simp [SetOpNode.refs, List.range'_succ] at refs
  | setOperationStmt op all colTypes larg rarg leftIH rightIH =>
    rw [SetOpNode.refs] at refs
    have count : larg.refs.length + rarg.refs.length = rtable.length := by
      simpa using congrArg List.length refs
    have split :
        larg.refs ++ rarg.refs =
          List.range' start larg.refs.length ++
            List.range' (start + larg.refs.length)
              rarg.refs.length := by
      rw [refs, ← count, List.range'_append_1]
    rcases List.append_inj split (by simp) with ⟨leftRefs, rightRefs⟩
    have leftCount : (rtable.take larg.refs.length).length = larg.refs.length := by
      simp; omega
    have rightCount : (rtable.drop larg.refs.length).length = rarg.refs.length := by
      simp; omega
    rcases leftIH (leftCount.symm ▸ leftRefs) with
      ⟨left, leftTree, leftLeaves⟩
    rcases rightIH (rightCount.symm ▸ rightRefs) with
      ⟨right, rightTree, rightLeaves⟩
    refine ⟨.node op all colTypes left right, ?_, ?_⟩
    · rw [number, leftTree, leftLeaves, leftCount, rightTree]
    · rw [leaves, leftLeaves, rightLeaves, List.take_append_drop]

end OpTree

/-- The query over the leaves of a tree. -/
def ofTree (query : Query) (tree : OpTree) : Query :=
  { query with
    rtable := tree.leaves
    setOperations := some (tree.number 1) }

/-! ## Restructuring -/

/-- The entry for a subtree that was taken out. -/
def newSubRTE (query : Query) (tree : OpTree) : RTE :=
  subqueryRTE (ofTree query tree) "newSub"

/-- An operator below EXCEPT is taken out. -/
def takeOut (query : Query) : OpTree → OpTree
  | .leaf rte => .leaf rte
  | .node op all colTypes larg rarg =>
    .leaf (newSubRTE query (.node op all colTypes larg rarg))

/-- The tree that is left after all unfit subtrees were taken out. -/
def restructure (query : Query) (rootType : SetOperation) :
    OpTree → OpTree
  | .leaf rte => .leaf rte
  | .node .except all colTypes larg rarg =>
    if rootType = .except then
      .node .except all colTypes (takeOut query larg) (takeOut query rarg)
    else
      .leaf (newSubRTE query (.node .except all colTypes larg rarg))
  | .node op all colTypes larg rarg =>
    if op = rootType then
      .node op all colTypes (restructure query rootType larg) (restructure query rootType rarg)
    else
      .leaf (newSubRTE query (.node op all colTypes larg rarg))

/-! ## Contexts -/

/-- An operator on the way to a place in a tree, and its other input. -/
structure Frame where
  side : Side
  op : SetOperation
  all : Bool
  colTypes : List Oid
  sibling : OpTree

def Frame.fill (frame : Frame) (tree : OpTree) : OpTree :=
  match frame.side with
  | .left => .node frame.op frame.all frame.colTypes tree frame.sibling
  | .right => .node frame.op frame.all frame.colTypes frame.sibling tree

/-- A place in a tree; the first frame is at the root. -/
abbrev TreeContext := List Frame

namespace TreeContext

def plug : TreeContext → OpTree → OpTree
  | [], tree => tree
  | frame :: context, tree => frame.fill (plug context tree)

def path (context : TreeContext) : List Side := context.map Frame.side

/-- Inputs to the left of the place. -/
def before : TreeContext → List RTE
  | [] => []
  | frame :: context =>
    match frame.side with
    | .left => before context
    | .right => frame.sibling.leaves ++ before context

/-- Inputs to the right of the place. -/
def after : TreeContext → List RTE
  | [] => []
  | frame :: context =>
    match frame.side with
    | .left => after context ++ frame.sibling.leaves
    | .right => after context

theorem plug_append_singleton (context : TreeContext) (frame : Frame) (tree : OpTree) :
    plug (context ++ [frame]) tree = plug context (frame.fill tree) := by
  induction context with
  | nil => rfl
  | cons first rest ih =>
    simp [plug, ih]

theorem path_append_singleton (context : TreeContext) (frame : Frame) :
    path (context ++ [frame]) = path context ++ [frame.side] := by
  simp [path]

theorem leaves_plug (context : TreeContext) (tree : OpTree) :
    (plug context tree).leaves = before context ++ tree.leaves ++ after context := by
  induction context with
  | nil => simp [plug, before, after]
  | cons frame rest ih =>
    rcases frame with ⟨_ | _, op, all, colTypes, sibling⟩ <;>
      simp [plug, Frame.fill, OpTree.leaves, ih, before, after]

theorem subtreeAt_number (context : TreeContext) (tree : OpTree) (start : Nat) :
    subtreeAt ((plug context tree).number start) (path context) =
      some (tree.number (start + (before context).length)) := by
  induction context generalizing start with
  | nil =>
    simp only [plug, path, before, List.map_nil, List.length_nil, Nat.add_zero]
    cases tree <;> rfl
  | cons frame rest ih =>
    rcases frame with ⟨_ | _, op, all, colTypes, sibling⟩
    · exact ih start
    · have found := ih (start + sibling.leaves.length)
      rw [Nat.add_assoc, ← List.length_append] at found
      exact found

theorem refs_replaceAt (context : TreeContext) (tree : OpTree) (start new : Nat) :
    (replaceAt (.rangeTblRef new) ((plug context tree).number start)
        (path context)).refs =
      List.range' start (before context).length ++ new ::
        List.range'
          (start + (before context).length + tree.leaves.length)
          (after context).length := by
  induction context generalizing start with
  | nil =>
    simp only [plug, path, before, after, List.map_nil]
    cases tree <;> simp [OpTree.number, replaceAt, SetOpNode.refs]
  | cons frame rest ih =>
    rcases frame with ⟨_ | _, op, all, colTypes, sibling⟩
    · have found := ih start
      simp only [path] at found
      simp [plug, Frame.fill, OpTree.number, path, replaceAt,
        SetOpNode.refs, found, before, after, leaves_plug,
        ← List.range'_append_1]
      omega
    · have found := ih (start + sibling.leaves.length)
      simp only [path] at found
      simp [plug, Frame.fill, OpTree.number, path, replaceAt,
        SetOpNode.refs, found, before, after, ← List.range'_append_1]
      omega

theorem renumber_replaceAt (context : TreeContext) (tree : OpTree) (rte : RTE)
    (start start' new : Nat) :
    renumber
        (replaceAt (.rangeTblRef new) ((plug context tree).number start) (path context)) start' =
      (plug context (.leaf rte)).number start' := by
  induction context generalizing start start' with
  | nil =>
    simp only [plug, path, List.map_nil]
    cases tree <;> rfl
  | cons frame rest ih =>
    rcases frame with ⟨_ | _, op, all, colTypes, sibling⟩
    · have inner := ih start start'
      have count := refs_replaceAt rest tree start new
      simp only [path] at inner count
      simp [plug, Frame.fill, OpTree.number, path, replaceAt, renumber,
        inner, count, leaves_plug, OpTree.leaves]
    · have inner := ih (start + sibling.leaves.length) (start' + sibling.leaves.length)
      simp only [path] at inner
      simp [plug, Frame.fill, OpTree.number, path, replaceAt, renumber, inner]

end TreeContext

/-! ## The restructuring as a function on trees -/

theorem fetchAll_append (rtable : List RTE) (first second : List Nat) :
    fetchAll rtable (first ++ second) =
      (fetchAll rtable first).bind fun firstRTEs =>
        (fetchAll rtable second).map fun secondRTEs =>
          firstRTEs ++ secondRTEs := by
  induction first with
  | nil => simp [fetchAll]
  | cons rtindex rest ih =>
    simp only [List.cons_append, fetchAll, ih]
    cases rtFetch rtable rtindex <;>
      cases fetchAll rtable rest <;>
        cases fetchAll rtable second <;> rfl

/-- A range of positions selects a segment of the range table. -/
theorem fetchAll_range' (before segment after : List RTE) :
    fetchAll (before ++ segment ++ after)
      (List.range' (before.length + 1) segment.length) = some segment := by
  induction segment generalizing before with
  | nil => rfl
  | cons rte rest ih =>
    have tail := ih (before ++ [rte])
    simp only [List.length_append, List.length_singleton,
      List.append_assoc, List.cons_append, List.nil_append] at tail
    simp [List.range'_succ, fetchAll, rtFetch, tail]

/-- A segment of the range table is replaced by a new last entry. -/
theorem fetchAll_replace (before segment after : List RTE) (rte : RTE) :
    fetchAll (before ++ segment ++ after ++ [rte])
      (List.range' 1 before.length ++
        ((before ++ segment ++ after).length + 1) ::
          List.range' (1 + before.length + segment.length) after.length) =
      some (before ++ [rte] ++ after) := by
  have front := fetchAll_range' [] before (segment ++ after ++ [rte])
  have middle := fetchAll_range' (before ++ segment ++ after) [rte] []
  have back := fetchAll_range' (before ++ segment) after [rte]
  rw [List.length_append, show
    before.length + segment.length + 1 = 1 + before.length + segment.length by omega] at back
  simp only [List.nil_append, List.append_assoc, List.append_nil,
    List.length_singleton, List.range'_one, List.length_nil,
    Nat.zero_add] at front middle back
  have split :
      fetchAll (before ++ segment ++ after ++ [rte])
          (((before ++ segment ++ after).length + 1) ::
            List.range' (1 + before.length + segment.length)
              after.length) = some ([rte] ++ after) := by
    have parts := fetchAll_append (before ++ segment ++ after ++ [rte])
      [(before ++ segment ++ after).length + 1]
      (List.range' (1 + before.length + segment.length) after.length)
    simp only [List.append_assoc, middle, back] at parts ⊢
    exact parts
  rw [fetchAll_append, split]
  simp only [List.append_assoc]
  simp [front]

theorem replaceSetOperatorSubtree_ofTree (query : Query) (context : TreeContext) (tree : OpTree) :
    replaceSetOperatorSubtree (ofTree query (context.plug tree))
        context.path =
      some (ofTree query (context.plug (.leaf (newSubRTE query tree)))) := by
  have leaves := context.leaves_plug tree
  have newLeaves := context.leaves_plug (.leaf (newSubRTE query tree))
  have subtree := context.subtreeAt_number tree 1
  have taken :
      fetchAll (context.plug tree).leaves
        (List.range' (context.before.length + 1) tree.leaves.length) = some tree.leaves := by
    rw [leaves]
    exact fetchAll_range' _ _ _
  have refs := context.refs_replaceAt tree 1 ((context.plug tree).leaves.length + 1)
  have kept :
      fetchAll ((context.plug tree).leaves ++ [newSubRTE query tree])
        (List.range' 1 context.before.length ++
          ((context.plug tree).leaves.length + 1) ::
            List.range' (1 + context.before.length + tree.leaves.length) context.after.length) =
        some (context.plug (.leaf (newSubRTE query tree))).leaves := by
    rw [leaves, newLeaves]
    exact fetchAll_replace _ _ _ _
  have renumbered := context.renumber_replaceAt tree
    (newSubRTE query tree) 1 1 ((context.plug tree).leaves.length + 1)
  rw [Nat.add_comm 1] at subtree
  simp only [replaceSetOperatorSubtree, ofTree, addSubqueryToRT, subtree,
    Option.bind_eq_bind, Option.bind_some, OpTree.refs_number, taken,
    OpTree.renumber_number, List.length_append, List.length_singleton,
    refs, renumbered]
  simp only [newSubRTE, ofTree] at kept
  rw [kept]
  rfl

/-- Taking out an input of an operator. -/
theorem replaceInput_ofTree (query : Query) (context : TreeContext) (frame : Frame) (tree : OpTree)
    (start : Nat) :
    replaceInput (ofTree query (context.plug (frame.fill tree)))
        (context.path ++ [frame.side]) (tree.number start) =
      some (ofTree query (context.plug (frame.fill (takeOut query tree)))) := by
  cases tree with
  | leaf rte => rfl
  | node op all colTypes larg rarg =>
    have replaced := replaceSetOperatorSubtree_ofTree query
      (context ++ [frame]) (.node op all colTypes larg rarg)
    rw [context.path_append_singleton, context.plug_append_singleton,
      context.plug_append_singleton] at replaced
    exact replaced

/-- Restructuring a subtree in place. -/
theorem replaceSetOperationSubTrees_plug (query : Query) (rootType : SetOperation) (tree : OpTree)
    (context : TreeContext) (start : Nat) :
    replaceSetOperationSubTrees rootType (tree.number start) context.path
        (ofTree query (context.plug tree)) =
      some (ofTree query (context.plug (restructure query rootType tree))) := by
  induction tree generalizing context start with
  | leaf rte => rfl
  | node op all colTypes larg rarg leftIH rightIH =>
    have whole := replaceSetOperatorSubtree_ofTree query context (.node op all colTypes larg rarg)
    have descend :
        (do
          let query ← replaceSetOperationSubTrees rootType
            (larg.number start) (context.path ++ [.left])
            (ofTree query (context.plug (.node op all colTypes larg rarg)))
          replaceSetOperationSubTrees rootType (rarg.number (start + larg.leaves.length))
            (context.path ++ [.right]) query) =
          some (ofTree query (context.plug
            (.node op all colTypes (restructure query rootType larg)
              (restructure query rootType rarg)))) := by
      have left := leftIH (context ++ [⟨.left, op, all, colTypes, rarg⟩]) start
      have right := rightIH
        (context ++ [⟨.right, op, all, colTypes, restructure query rootType larg⟩])
        (start + larg.leaves.length)
      simp only [context.path_append_singleton,
        context.plug_append_singleton, Frame.fill] at left right
      rw [left]
      exact right
    cases op with
    | except =>
      rw [OpTree.number, replaceSetOperationSubTrees, restructure]
      split
      · have left := replaceInput_ofTree query context
          ⟨.left, .except, all, colTypes, rarg⟩ larg start
        have right := replaceInput_ofTree query context
          ⟨.right, .except, all, colTypes, takeOut query larg⟩ rarg
          (start + larg.leaves.length)
        simp only [Frame.fill] at left right
        rw [left]
        exact right
      · exact whole
    | union =>
      simp only [OpTree.number, replaceSetOperationSubTrees, restructure]
      split
      · exact descend
      · exact whole
    | intersect =>
      simp only [OpTree.number, replaceSetOperationSubTrees, restructure]
      split
      · exact descend
      · exact whole

theorem replaceSetOperationSubTrees_ofTree (query : Query) (rootType : SetOperation)
    (tree : OpTree) :
    replaceSetOperationSubTrees rootType (tree.number 1) []
        (ofTree query tree) =
      some (ofTree query (restructure query rootType tree)) :=
  replaceSetOperationSubTrees_plug query rootType tree [] 1

end Ldv.Perm
