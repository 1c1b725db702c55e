import Ldv.Copy.Expressions
import Ldv.Perm.LimitPreservation

/-!
# Copy maps of set operations

Before a set operation is rewritten for copy contribution, the subtrees that
do not fit its root are taken out into queries of their own.  Every entry of
the copy map then refers to the query that was taken out, and this query gets
a copy of the entry.  Entries and the variables in their conditions have to
follow the positions of the range table.
-/

namespace Ldv.Copy

variable {origin rte : RTE} {rtable : List RTE} {position datum : Nat}

def Var.withVarno (varno : Nat) (var : Var) : Var := { var with varno }

namespace Restructure

open Ldv.Sql
open Ldv.Perm (Side OpTree TreeContext Frame ofTree newSubRTE subtreeAt replaceAt unionOf
  isSetOperationStmt selectColumn correctRTEAlias subqueryRTE pairInstance)

/-! ## Copy maps -/

inductive InclCondType where
  | exists
  | equal
  | if
deriving DecidableEq, Repr

/-- A condition on a column of an input; an IF condition is given by its variables. -/
structure InclusionCond where
  inclType : InclCondType
  existsAttr : Var
  eqVars : List Var
  condVars : List Var
deriving DecidableEq, Repr

/-- A column of an input, with the conditions that include it. -/
structure InnerInclusions where
  attr : Var
  inclConds : List InclusionCond
deriving DecidableEq, Repr

/--
A column of the result.  In the map of a set operation each of its conditions
asks for the inclusion of a column of an input.
-/
structure AttrInclusions where
  attr : Var
  inclConds : List InnerInclusions
deriving DecidableEq, Repr

/--
An entry of a copy map, above its child in the map of an input.  Each
attribute of the base relation has its inclusions.
-/
inductive CopyMapRelEntry where
  | input (rtindex : Nat)
  | entry (attrEntries : List (List AttrInclusions)) (rtindex : Nat) (child : CopyMapRelEntry)
deriving DecidableEq, Repr

namespace CopyMapRelEntry

def rtindex : CopyMapRelEntry → Nat
  | .input rtindex => rtindex
  | .entry _ rtindex _ => rtindex

def setRtindex (rtindex : Nat) : CopyMapRelEntry → CopyMapRelEntry
  | .input _ => .input rtindex
  | .entry attrEntries _ child => .entry attrEntries rtindex child

end CopyMapRelEntry

def adaptCondVarnos (varno : Nat) (cond : InclusionCond) : InclusionCond :=
  { cond with
    existsAttr := cond.existsAttr.withVarno varno
    eqVars := if cond.inclType = .equal then cond.eqVars.map (Var.withVarno varno) else cond.eqVars
    condVars := if cond.inclType = .if then cond.condVars.map (Var.withVarno varno)
      else cond.condVars }

def adaptInclusions (varno : Nat) (inclusions : AttrInclusions) : AttrInclusions :=
  { inclusions with
    inclConds := inclusions.inclConds.map fun inner =>
      { attr := inner.attr.withVarno varno
        inclConds := inner.inclConds.map (adaptCondVarnos varno) } }

def setRelMapsAttrno (newVarno : Nat) : CopyMapRelEntry → CopyMapRelEntry
  | .input rtindex => .input rtindex
  | .entry attrEntries rtindex child =>
    .entry (attrEntries.map (List.map (adaptInclusions newVarno))) rtindex
      (child.setRtindex newVarno)

/-! ## Restructuring -/

/-- A query with the entries of its copy map. -/
structure CopyNode where
  query : Query
  entries : List CopyMapRelEntry

/-- The position in a list counted from one, or zero. -/
def listPosition (list : List Nat) (datum : Nat) : Nat :=
  if datum ∈ list then list.idxOf datum + 1 else 0

/--
An entry after a subtree was taken out.  If its input is in the subtree, a copy
of the entry is put between them; the copy is the entry in the map of the query
that was taken out.
-/
def replaceEntry (subTreeRTindex newRTposMap : List Nat) (newSubRTindex : Nat) :
    CopyMapRelEntry → CopyMapRelEntry
  | .input rtindex => .input rtindex
  | .entry attrEntries rtindex child =>
    let linked :=
      if child.rtindex ∈ subTreeRTindex then
        setRelMapsAttrno (listPosition subTreeRTindex child.rtindex)
          (.entry attrEntries child.rtindex child)
      else child
    let newRtindex := listPosition newRTposMap linked.rtindex
    setRelMapsAttrno (if newRtindex = 0 then newSubRTindex else newRtindex)
      (.entry attrEntries rtindex linked)

/-- Takes a subtree out, with the part of the copy map that belongs to it. -/
def replaceSetOperatorSubtree (node : CopyNode) (path : List Side) : Option CopyNode := do
  let tree ← node.query.setOperations
  let setOp ← subtreeAt tree path
  let query ← Perm.replaceSetOperatorSubtree node.query path
  let added := node.query.rtable.length + 1
  let newRTposMap := (replaceAt (.rangeTblRef added) tree path).refs
  return {
    query
    entries := node.entries.map
      (replaceEntry setOp.refs newRTposMap (listPosition newRTposMap added)) }

def replaceOperand (node : CopyNode) (path : List Side) (operand : SetOpNode) : Option CopyNode :=
  if isSetOperationStmt operand then replaceSetOperatorSubtree node path else some node

/--
The walk over the tree.  Without optimization the operands of the root are
taken out first, and are references when the walk goes on.
-/
def replaceSetOperationSubTrees (optimize : Bool) (rootType : SetOperation) :
    SetOpNode → List Side → CopyNode → Option CopyNode
  | .rangeTblRef _, _, node => some node
  | .setOperationStmt op _ _ larg rarg, path, node =>
    if optimize then
      if op = .except then
        replaceSetOperationSubTrees optimize rootType larg (path ++ [.left]) node
      else if op = rootType then do
        let node ← replaceSetOperationSubTrees optimize rootType larg (path ++ [.left]) node
        replaceSetOperationSubTrees optimize rootType rarg (path ++ [.right]) node
      else replaceSetOperatorSubtree node path
    else do
      let node ← replaceOperand node (path ++ [.left]) larg
      let node ← replaceOperand node (path ++ [.right]) rarg
      if op = .except ∨ op = rootType then return node
      else replaceSetOperatorSubtree node path

/-- The type of the root; below EXCEPT it is looked for in the left operands. -/
def rootType : SetOpNode → Option SetOperation
  | .rangeTblRef _ => none
  | .setOperationStmt .except _ _ larg _ => some ((rootType larg).getD .except)
  | .setOperationStmt op _ _ _ _ => some op

def restructureSetOperationQueryNode (optimize : Bool) (top : CopyNode) : Option CopyNode := do
  let tree ← top.query.setOperations
  let type ← rootType tree
  replaceSetOperationSubTrees optimize type tree [] top

/-! ## Entries at their places -/

/-- All variables of a condition belong to the range-table entry at this position. -/
structure CondAt (varno : Nat) (cond : InclusionCond) : Prop where
  existsAttr : cond.existsAttr.varno = varno
  eqVars : cond.inclType = .equal → ∀ var ∈ cond.eqVars, var.varno = varno
  condVars : cond.inclType = .if → ∀ var ∈ cond.condVars, var.varno = varno

def VarsAt (varno : Nat) (attrEntries : List (List AttrInclusions)) : Prop :=
  ∀ inclusions ∈ attrEntries.flatten, ∀ inner ∈ inclusions.inclConds,
    inner.attr.varno = varno ∧ ∀ cond ∈ inner.inclConds, CondAt varno cond

/--
A range-table entry is the origin of an entry, or a query that was taken out
and whose own entry has this origin.
-/
def Reaches (origin : RTE) : CopyMapRelEntry → RTE → Prop
  | .input _, rte => rte = origin
  | .entry attrEntries _ child, rte =>
    ∃ sub, rte.subquery? = some sub ∧ VarsAt child.rtindex attrEntries ∧
      ∃ below, rtFetch sub.rtable child.rtindex = some below ∧ Reaches origin child below

/--
The child of an entry and its conditions refer to the position of the
range-table entry it comes from, also in the queries that were taken out.
-/
def ComesFrom (origin : RTE) (rtable : List RTE) : CopyMapRelEntry → Prop
  | .input _ => False
  | .entry attrEntries _ child =>
    VarsAt child.rtindex attrEntries ∧
      ∃ rte, rtFetch rtable child.rtindex = some rte ∧ Reaches origin child rte

@[simp]
theorem rtindex_setRtindex (rtindex : Nat) (entry : CopyMapRelEntry) :
    (entry.setRtindex rtindex).rtindex = rtindex := by
  cases entry <;> rfl

theorem reaches_setRtindex {rtindex : Nat} {entry : CopyMapRelEntry} :
    Reaches origin (entry.setRtindex rtindex) rte ↔ Reaches origin entry rte := by
  cases entry <;> rfl

theorem varsAt_adapt (varno : Nat) (attrEntries : List (List AttrInclusions)) :
    VarsAt varno (attrEntries.map (List.map (adaptInclusions varno))) := by
  intro inclusions member inner innerMember
  rw [← List.map_flatten] at member
  obtain ⟨original, -, rfl⟩ := List.mem_map.1 member
  obtain ⟨inner, -, rfl⟩ := List.mem_map.1 innerMember
  refine ⟨rfl, fun cond condMember => ?_⟩
  obtain ⟨cond, -, rfl⟩ := List.mem_map.1 condMember
  refine ⟨rfl, fun isEqual var varMember => ?_, fun isIf var varMember => ?_⟩
  · simp only [adaptCondVarnos] at isEqual varMember
    rw [if_pos isEqual] at varMember
    obtain ⟨var, -, rfl⟩ := List.mem_map.1 varMember
    rfl
  · simp only [adaptCondVarnos] at isIf varMember
    rw [if_pos isIf] at varMember
    obtain ⟨var, -, rfl⟩ := List.mem_map.1 varMember
    rfl

/-- An entry is moved to the new position of the range-table entry of its child. -/
theorem comesFrom_setRelMapsAttrno
    {attrEntries : List (List AttrInclusions)} {rtindex : Nat} {child : CopyMapRelEntry}
    (there : rtFetch rtable position = some rte) (reaches : Reaches origin child rte) :
    ComesFrom origin rtable (setRelMapsAttrno position (.entry attrEntries rtindex child)) := by
  rw [setRelMapsAttrno, ComesFrom, rtindex_setRtindex]
  exact ⟨varsAt_adapt position attrEntries, rte, there, reaches_setRtindex.2 reaches⟩

/-! ## Positions -/

theorem listPosition_range' {start count : Nat} (low : start ≤ datum)
    (high : datum < start + count) : listPosition (List.range' start count) datum =
      datum - start + 1 := by
  have member : datum ∈ List.range' start count := List.mem_range'_1.2 ⟨low, high⟩
  have inside : datum - start < (List.range' start count).length := by simp; omega
  have there : (List.range' start count)[datum - start] = datum := by simp; omega
  have position := (List.nodup_range' (s := start) (n := count)).idxOf_getElem _ inside
  rw [there] at position
  rw [listPosition, if_pos member, position]

theorem listPosition_of_notMem {list : List Nat} (absent : datum ∉ list) :
    listPosition list datum = 0 := if_neg absent

theorem listPosition_append_left {first second : List Nat}
    (member : datum ∈ first) : listPosition (first ++ second) datum = listPosition first datum := by
  rw [listPosition, listPosition, if_pos member, if_pos (List.mem_append_left second member),
    List.idxOf_append_of_mem member]

theorem listPosition_append_right {first second : List Nat} (absent : datum ∉ first)
    (member : datum ∈ second) :
    listPosition (first ++ second) datum = first.length + listPosition second datum := by
  rw [listPosition, listPosition, if_pos member, if_pos (List.mem_append_right first member),
    List.idxOf_append_of_notMem absent, Nat.add_assoc]

section Replaced

variable {base : Query} {before after : List RTE} {part : OpTree}

/-- The positions that remain when a subtree is taken out. -/
def remaining (before after : List RTE) (part : OpTree) : List Nat :=
  List.range' 1 before.length ++ ((before ++ part.leaves ++ after).length + 1) ::
    List.range' (1 + before.length + part.leaves.length) after.length

theorem listPosition_added :
    listPosition (remaining before after part) ((before ++ part.leaves ++ after).length + 1) =
      before.length + 1 := by
  rw [remaining, listPosition_append_right]
  · simp [listPosition]
  · simp [List.mem_range'_1]
    omega
  · exact List.mem_cons_self

theorem listPosition_before (low : 1 ≤ position)
    (high : position ≤ before.length) :
    listPosition (remaining before after part) position = position := by
  rw [remaining, listPosition_append_left (List.mem_range'_1.2 ⟨low, by omega⟩),
    listPosition_range' low (by omega)]
  omega

theorem listPosition_after (low : before.length + part.leaves.length < position)
    (high : position ≤ (before ++ part.leaves ++ after).length) :
    listPosition (remaining before after part) position = position - part.leaves.length + 1 := by
  simp only [List.length_append] at high
  have notBefore : position ∉ List.range' 1 before.length := by
    rw [List.mem_range'_1]
    omega
  have isAfter : position ∈ List.range' (1 + before.length + part.leaves.length) after.length :=
    List.mem_range'_1.2 ⟨by omega, by omega⟩
  have notAdded : position ∉ [(before ++ part.leaves ++ after).length + 1] := by
    simp
    omega
  rw [remaining, listPosition_append_right notBefore (List.mem_cons_of_mem _ isAfter),
    ← List.singleton_append, listPosition_append_right notAdded isAfter,
    listPosition_range' (by omega) (by omega)]
  simp
  omega

theorem listPosition_inside (low : before.length < position)
    (high : position ≤ before.length + part.leaves.length) :
    listPosition (remaining before after part) position = 0 := by
  apply listPosition_of_notMem
  simp only [remaining, List.mem_append, List.mem_cons, List.mem_range'_1, List.length_append]
  omega

theorem rtFetch_of_pos (positive : 1 ≤ position) :
    rtFetch rtable position = rtable[position - 1]? := by
  obtain ⟨index, rfl⟩ := Nat.exists_eq_add_of_le' positive
  rfl

theorem range_of_rtFetch
    (there : rtFetch rtable position = some rte) : 1 ≤ position ∧ position ≤ rtable.length := by
  cases position with
  | zero => cases there
  | succ index => exact ⟨by omega, (List.getElem?_eq_some_iff.1 there).1⟩

theorem reaches_of_comesFrom {sub : Query} {entry : CopyMapRelEntry}
    (isSub : rte.subquery? = some sub) (comes : ComesFrom origin sub.rtable entry) :
    Reaches origin entry rte := by
  cases entry with
  | input rtindex => exact comes.elim
  | entry attrEntries rtindex child => exact ⟨sub, isSub, comes⟩

theorem comesFrom_replaceEntry {entry : CopyMapRelEntry}
    (comes : ComesFrom origin (before ++ part.leaves ++ after) entry) :
    ComesFrom origin (before ++ [newSubRTE base part] ++ after)
      (replaceEntry (List.range' (1 + before.length) part.leaves.length)
        (remaining before after part) (before.length + 1) entry) := by
  cases entry with
  | input rtindex => exact comes.elim
  | entry attrEntries rtindex child =>
    obtain ⟨-, rte, there, reaches⟩ := comes
    obtain ⟨positive, small⟩ := range_of_rtFetch there
    rw [rtFetch_of_pos positive] at there
    simp only [replaceEntry]
    by_cases inside : before.length < child.rtindex ∧
        child.rtindex ≤ before.length + part.leaves.length
    · have member : child.rtindex ∈ List.range' (1 + before.length) part.leaves.length :=
        List.mem_range'_1.2 ⟨by omega, by omega⟩
      have position := listPosition_range' (List.mem_range'_1.1 member).1
        (List.mem_range'_1.1 member).2
      have below : rtFetch part.leaves (child.rtindex - (1 + before.length) + 1) = some rte := by
        rw [rtFetch_of_pos (by omega), ← there, List.append_assoc,
          List.getElem?_append_right (by omega), List.getElem?_append_left (by omega)]
        congr 1
        omega
      have gone : listPosition (remaining before after part)
          (setRelMapsAttrno (listPosition (List.range' (1 + before.length) part.leaves.length)
            child.rtindex) (.entry attrEntries child.rtindex child)).rtindex = 0 :=
        listPosition_inside inside.1 inside.2
      rw [if_pos member, gone, if_pos rfl, position]
      have added : rtFetch (before ++ [newSubRTE base part] ++ after) (before.length + 1) =
          some (newSubRTE base part) := by
        rw [rtFetch_of_pos (by omega)]
        simp
      exact comesFrom_setRelMapsAttrno added
        (reaches_of_comesFrom rfl (comesFrom_setRelMapsAttrno below reaches))
    · have notMember : child.rtindex ∉ List.range' (1 + before.length) part.leaves.length := by
        rw [List.mem_range'_1]
        omega
      rw [if_neg notMember]
      rcases Nat.lt_or_ge before.length child.rtindex with isAfter | isBefore
      · rw [listPosition_after (by omega) small, if_neg (by omega)]
        refine comesFrom_setRelMapsAttrno ?_ reaches
        rw [rtFetch_of_pos (by omega), ← there, List.getElem?_append_right (by simp; omega),
          List.getElem?_append_right (by simp; omega)]
        congr 1
        simp
        omega
      · rw [listPosition_before positive isBefore, if_neg (by omega)]
        refine comesFrom_setRelMapsAttrno ?_ reaches
        rw [rtFetch_of_pos positive, ← there]
        simp only [List.append_assoc]
        rw [List.getElem?_append_left (by omega), List.getElem?_append_left (by omega)]

end Replaced

/-! ## The walk over the tree -/

/-- Some subtrees are taken out. -/
inductive TakenOut (base : Query) : OpTree → OpTree → Prop where
  | keep (tree : OpTree) : TakenOut base tree tree
  | replace (tree : OpTree) : TakenOut base tree (.leaf (newSubRTE base tree))
  | node {op : SetOperation} {all : Bool} {colTypes : List Oid} {larg larg' rarg rarg' : OpTree}
      (left : TakenOut base larg larg') (right : TakenOut base rarg rarg') :
      TakenOut base (.node op all colTypes larg rarg) (.node op all colTypes larg' rarg')

/-- A query over the leaves of a tree, with entries that come from the given origins. -/
structure Holds (base : Query) (origins : List RTE) (tree : OpTree) (node : CopyNode) : Prop where
  query : node.query = ofTree base tree
  entries : List.Forall₂ (fun origin entry => ComesFrom origin tree.leaves entry) origins
    node.entries

section Walk

variable {base : Query} {origins : List RTE} {node : CopyNode}

theorem holds_replaceSetOperatorSubtree {context : TreeContext} {part : OpTree}
    (holds : Holds base origins (context.plug part) node) :
    ∃ node', replaceSetOperatorSubtree node context.path = some node' ∧
      Holds base origins (context.plug (.leaf (newSubRTE base part))) node' := by
  obtain ⟨query, entries⟩ := node
  obtain ⟨rfl, comes⟩ := holds
  have leaves := TreeContext.leaves_plug context part
  have newLeaves := TreeContext.leaves_plug context (.leaf (newSubRTE base part))
  have posMap : (replaceAt (.rangeTblRef ((context.plug part).leaves.length + 1))
      ((context.plug part).number 1) context.path).refs =
        remaining context.before context.after part := by
    rw [TreeContext.refs_replaceAt, remaining, leaves]
  have position : listPosition (remaining context.before context.after part)
      ((context.plug part).leaves.length + 1) = context.before.length + 1 := by
    rw [leaves, listPosition_added]
  refine ⟨⟨ofTree base (context.plug (.leaf (newSubRTE base part))), entries.map
    (replaceEntry (List.range' (1 + context.before.length) part.leaves.length)
      (remaining context.before context.after part) (context.before.length + 1))⟩, ?_, rfl, ?_⟩
  · have rtable : (ofTree base (context.plug part)).rtable = (context.plug part).leaves := rfl
    have operations : (ofTree base (context.plug part)).setOperations =
        some ((context.plug part).number 1) := rfl
    simp only [replaceSetOperatorSubtree, operations, rtable, TreeContext.subtreeAt_number,
      Perm.replaceSetOperatorSubtree_ofTree, OpTree.refs_number, posMap, position,
      Option.bind_eq_bind, Option.bind_some]
    rfl
  · rw [List.forall₂_map_right_iff, newLeaves]
    refine comes.imp fun origin entry comesFrom => ?_
    rw [leaves] at comesFrom
    exact comesFrom_replaceEntry comesFrom

theorem holds_replaceOperand {context : TreeContext} {frame : Frame} {part : OpTree} {start : Nat}
    (holds : Holds base origins (context.plug (frame.fill part)) node) :
    ∃ node' part', replaceOperand node (context.path ++ [frame.side]) (part.number start) =
        some node' ∧
      Holds base origins (context.plug (frame.fill part')) node' ∧ TakenOut base part part' := by
  cases part with
  | leaf rte => exact ⟨node, .leaf rte, rfl, holds, .keep _⟩
  | node op all colTypes larg rarg =>
    rw [← TreeContext.plug_append_singleton] at holds
    obtain ⟨node', replaced, holds'⟩ := holds_replaceSetOperatorSubtree holds
    rw [TreeContext.plug_append_singleton] at holds'
    rw [TreeContext.path_append_singleton] at replaced
    exact ⟨node', _, replaced, holds', .replace _⟩

/-- With optimization, the walk takes subtrees out and moves all entries. -/
theorem holds_walk (rootType : SetOperation) (tree : OpTree) :
    ∀ {context : TreeContext} {start : Nat} {node : CopyNode},
      Holds base origins (context.plug tree) node →
      ∃ node' tree', replaceSetOperationSubTrees true rootType (tree.number start) context.path
          node = some node' ∧
        Holds base origins (context.plug tree') node' ∧ TakenOut base tree tree' := by
  induction tree with
  | leaf rte =>
    intro context start node holds
    exact ⟨node, .leaf rte, rfl, holds, .keep _⟩
  | node op all colTypes larg rarg leftIH rightIH =>
    intro context start node holds
    have left : (context ++ [⟨.left, op, all, colTypes, rarg⟩] : TreeContext).plug larg =
        context.plug (.node op all colTypes larg rarg) :=
      TreeContext.plug_append_singleton _ _ _
    rw [← left] at holds
    obtain ⟨middle, larg', walkedLeft, holdsLeft, takenLeft⟩ := @leftIH _ start _ holds
    rw [TreeContext.path_append_singleton] at walkedLeft
    rw [TreeContext.plug_append_singleton] at holdsLeft
    simp only [OpTree.number, replaceSetOperationSubTrees, if_true]
    split_ifs with isExcept isRoot
    · exact ⟨middle, _, walkedLeft, holdsLeft, .node takenLeft (.keep rarg)⟩
    · have right : (context ++ [⟨.right, op, all, colTypes, larg'⟩] : TreeContext).plug rarg =
          context.plug (.node op all colTypes larg' rarg) :=
        TreeContext.plug_append_singleton _ _ _
      have holdsMiddle : Holds base origins
          ((context ++ [⟨.right, op, all, colTypes, larg'⟩] : TreeContext).plug rarg) middle := by
        rw [right]
        exact holdsLeft
      obtain ⟨node', rarg', walkedRight, holdsRight, takenRight⟩ :=
        @rightIH _ (start + larg.leaves.length) _ holdsMiddle
      rw [TreeContext.path_append_singleton] at walkedRight
      rw [TreeContext.plug_append_singleton] at holdsRight
      refine ⟨node', .node op all colTypes larg' rarg', ?_, holdsRight,
        .node takenLeft takenRight⟩
      rw [walkedLeft]
      exact walkedRight
    · rw [left] at holds
      obtain ⟨node', replaced, holds'⟩ := holds_replaceSetOperatorSubtree holds
      exact ⟨node', _, replaced, holds', .replace _⟩

/-- Without optimization, both operands of the root are taken out. -/
theorem holds_root {rootType op : SetOperation} (isRoot : op = .except ∨ op = rootType)
    {all : Bool} {colTypes : List Oid} {larg rarg : OpTree} {start : Nat}
    (holds : Holds base origins (.node op all colTypes larg rarg) node) :
    ∃ node' tree', replaceSetOperationSubTrees false rootType
        ((OpTree.node op all colTypes larg rarg).number start) [] node = some node' ∧
      Holds base origins tree' node' ∧ TakenOut base (.node op all colTypes larg rarg) tree' := by
  obtain ⟨middle, larg', replacedLeft, holdsLeft, takenLeft⟩ :=
    @holds_replaceOperand base origins node [] ⟨.left, op, all, colTypes, rarg⟩ larg start holds
  obtain ⟨node', rarg', replacedRight, holdsRight, takenRight⟩ :=
    @holds_replaceOperand base origins middle [] ⟨.right, op, all, colTypes, larg'⟩ rarg
      (start + larg.leaves.length) holdsLeft
  refine ⟨node', .node op all colTypes larg' rarg', ?_, holdsRight, .node takenLeft takenRight⟩
  simp only [OpTree.number, replaceSetOperationSubTrees, Bool.false_eq_true, if_false]
  simp only [TreeContext.path, List.map_nil] at replacedLeft replacedRight
  rw [replacedLeft, Option.bind_eq_bind, Option.bind_some, replacedRight]
  simp [isRoot]

end Walk

/-! ## The result -/

/-- The inputs have as many columns as the result. -/
def WideInputs (inst : Instance) (query : Query) : Prop :=
  ∀ rte ∈ query.rtable, ∀ row ∈ Query.evalRTE inst rte, query.targetList.length ≤ row.length

theorem TakenOut.rows_perm {base : Query} {inst : Instance} (noDistinct : base.distinctClause = [])
    (uncut : ∀ rows, limitRows base rows = rows) {tree tree' : OpTree}
    (taken : TakenOut base tree tree')
    (inputs : ∀ rte ∈ tree.leaves, ∀ row ∈ Query.evalRTE inst rte,
      base.targetList.length ≤ row.length) :
    (tree'.rows inst base.targetList.length).Perm (tree.rows inst base.targetList.length) := by
  induction taken with
  | keep tree => exact .refl _
  | replace tree => exact Perm.rows_newSubRTE_perm inst noDistinct uncut inputs
  | node _ _ leftIH rightIH =>
    exact combineRows_perm _ _ (leftIH fun rte leaf => inputs rte (List.mem_append_left _ leaf))
      (rightIH fun rte leaf => inputs rte (List.mem_append_right _ leaf))

/-- A set operation over its range table, with a copy map of its inputs. -/
structure SetNode (top : CopyNode) : Prop where
  tree : ∃ op all colTypes larg rarg,
    top.query.setOperations = some (.setOperationStmt op all colTypes larg rarg) ∧
      (SetOpNode.setOperationStmt op all colTypes larg rarg).refs =
        List.range' 1 top.query.rtable.length
  noDistinct : top.query.distinctClause = []
  entries : ∀ entry ∈ top.entries, ∃ attrEntries rtindex position origin,
    entry = .entry attrEntries rtindex (.input position) ∧ VarsAt position attrEntries ∧
      rtFetch top.query.rtable position = some origin

/-- The range-table entry that an entry of the map comes from. -/
def originOf (rtable : List RTE) : CopyMapRelEntry → Option RTE
  | .input _ => none
  | .entry _ _ child => rtFetch rtable child.rtindex

/--
The restructured query has the rows of the query, and the entries of its map
and of the maps of the queries taken out are at their places.
-/
def Restructures (optimize : Bool) (top : CopyNode) : Prop :=
  ∃ top', restructureSetOperationQueryNode optimize top = some top' ∧
    (∀ inst, WideInputs inst top.query → (top'.query.eval inst).Perm (top.query.eval inst)) ∧
    List.Forall₂ (fun entry entry' => ∃ origin, originOf top.query.rtable entry = some origin ∧
      ComesFrom origin top'.query.rtable entry') top.entries top'.entries

/-- No subtree has another operator than the root, or is taken out without optimization. -/
def takesOut (optimize : Bool) (rootType : SetOperation) : SetOpNode → Bool
  | .rangeTblRef _ => false
  | .setOperationStmt op _ _ larg rarg =>
    if optimize then
      if op = .except then takesOut optimize rootType larg
      else op ≠ rootType || takesOut optimize rootType larg || takesOut optimize rootType rarg
    else isSetOperationStmt larg || isSetOperationStmt rarg || (op ≠ .except && op ≠ rootType)

def TakesNothing (optimize : Bool) (top : CopyNode) : Prop :=
  ∃ tree type, top.query.setOperations = some tree ∧ rootType tree = some type ∧
    takesOut optimize type tree = false

theorem replaceSetOperationSubTrees_of_takesOut {optimize : Bool} {rootType : SetOperation}
    {tree : SetOpNode} (nothing : takesOut optimize rootType tree = false) (path : List Side)
    (node : CopyNode) :
    replaceSetOperationSubTrees optimize rootType tree path node = some node := by
  induction tree generalizing path with
  | rangeTblRef rtindex => rfl
  | setOperationStmt op all colTypes larg rarg leftIH rightIH =>
    rw [takesOut] at nothing
    rw [replaceSetOperationSubTrees]
    cases optimize with
    | true =>
      by_cases isExcept : op = .except
      · simp only [isExcept, if_true] at nothing ⊢
        exact leftIH nothing _
      · simp only [isExcept, if_true, if_false, Bool.or_eq_false_iff, decide_eq_false_iff_not,
          not_not] at nothing
        obtain ⟨⟨isRoot, left⟩, right⟩ := nothing
        simp [isRoot, leftIH left, rightIH right]
    | false =>
      simp only [Bool.false_eq_true, if_false, Bool.or_eq_false_iff, Bool.and_eq_false_iff,
        decide_eq_false_iff_not, not_not] at nothing
      obtain ⟨⟨left, right⟩, isRoot⟩ := nothing
      simp [replaceOperand, left, right, isRoot]

theorem restructure_of_takesNothing {optimize : Bool} {top : CopyNode}
    (takesNothing : TakesNothing optimize top) :
    restructureSetOperationQueryNode optimize top = some top := by
  obtain ⟨tree, type, operations, isType, nothing⟩ := takesNothing
  simp only [restructureSetOperationQueryNode, operations, isType, Option.bind_eq_bind,
    Option.bind_some]
  exact replaceSetOperationSubTrees_of_takesOut nothing [] top

theorem root_of_rootType {op : SetOperation} {all : Bool} {colTypes : List Oid}
    {larg rarg : SetOpNode} {type : SetOperation}
    (isType : rootType (.setOperationStmt op all colTypes larg rarg) = some type) :
    op = .except ∨ op = type := by
  cases op with
  | except => exact .inl rfl
  | union => exact .inr (Option.some.inj isType)
  | intersect => exact .inr (Option.some.inj isType)

theorem exists_origins {entries : List CopyMapRelEntry}
    (inputs : ∀ entry ∈ entries, ∃ attrEntries rtindex position origin,
      entry = .entry attrEntries rtindex (.input position) ∧ VarsAt position attrEntries ∧
        rtFetch rtable position = some origin) :
    ∃ origins, List.Forall₂ (fun origin entry =>
      originOf rtable entry = some origin ∧ ComesFrom origin rtable entry) origins entries := by
  induction entries with
  | nil => exact ⟨[], .nil⟩
  | cons entry entries ih =>
    obtain ⟨attrEntries, rtindex, position, origin, rfl, vars, there⟩ :=
      inputs entry List.mem_cons_self
    obtain ⟨origins, comes⟩ := ih fun other member =>
      inputs other (List.mem_cons_of_mem _ member)
    exact ⟨origin :: origins, .cons ⟨there, vars, origin, there, rfl⟩ comes⟩

theorem forall₂_of_origins {First Second : CopyMapRelEntry → RTE → Prop} {origins : List RTE}
    {entries entries' : List CopyMapRelEntry}
    (first : List.Forall₂ (fun origin entry => First entry origin) origins entries)
    (second : List.Forall₂ (fun origin entry => Second entry origin) origins entries') :
    List.Forall₂ (fun entry entry' => ∃ origin, First entry origin ∧ Second entry' origin) entries
      entries' := by
  induction first generalizing entries' with
  | nil =>
    cases second
    exact .nil
  | cons here _ ih =>
    cases second with
    | cons there others => exact .cons ⟨_, here, there⟩ (ih others)

/-- If LIMIT and OFFSET cut nothing off, restructuring keeps the rows and moves all entries. -/
theorem restructures_of_limitRows (optimize : Bool) {top : CopyNode} (setNode : SetNode top)
    (uncut : ∀ rows, limitRows top.query rows = rows) : Restructures optimize top := by
  obtain ⟨op, all, colTypes, larg, rarg, operations, refs⟩ := setNode.tree
  obtain ⟨tree, number, leaves⟩ := OpTree.exists_number _ refs
  have isTree : top.query = ofTree top.query tree := by
    rw [ofTree, number, leaves, ← operations]
    cases top.query
    rfl
  obtain ⟨type, isType⟩ : ∃ type,
      rootType (.setOperationStmt op all colTypes larg rarg) = some type := by
    cases op <;> exact ⟨_, rfl⟩
  obtain ⟨origins, comes⟩ := exists_origins setNode.entries
  rw [← leaves] at comes
  have holds : Holds top.query origins tree top := ⟨isTree, comes.imp fun _ _ both => both.2⟩
  obtain ⟨top', tree', walked, holds', taken⟩ : ∃ top' tree',
      replaceSetOperationSubTrees optimize type (tree.number 1) [] top = some top' ∧
        Holds top.query origins tree' top' ∧ TakenOut top.query tree tree' := by
    cases optimize with
    | true => exact @holds_walk top.query origins type tree [] 1 top holds
    | false =>
      cases tree with
      | leaf rte => cases number
      | node op' all' colTypes' larg' rarg' =>
        have same : op' = op := by
          cases number
          rfl
        exact holds_root (same ▸ root_of_rootType isType) holds
  refine ⟨top', ?_, ?_, ?_⟩
  · rw [number] at walked
    rw [restructureSetOperationQueryNode, operations]
    simp only [Option.bind_eq_bind, Option.bind_some, isType, walked]
  · intro inst wide
    have inputs : ∀ rte ∈ tree.leaves, ∀ row ∈ Query.evalRTE inst rte,
        top.query.targetList.length ≤ row.length := by
      rw [leaves]
      exact wide
    have before := Perm.eval_ofTree_perm inst setNode.noDistinct uncut tree
    have after := Perm.eval_ofTree_perm inst setNode.noDistinct uncut tree'
    rw [← isTree] at before
    rw [← holds'.query] at after
    exact after.trans ((taken.rows_perm setNode.noDistinct uncut inputs).trans before.symm)
  · rw [holds'.query, ← leaves]
    exact forall₂_of_origins (comes.imp fun _ _ both => both.1) holds'.entries

/-- An entry for one column that the input at this position passes on. -/
def columnEntry (position : Nat) : CopyMapRelEntry :=
  .entry [[{ attr := ⟨1, 1⟩, inclConds := [{ attr := ⟨position, 1⟩, inclConds :=
    [{ inclType := .exists, existsAttr := ⟨position, 1⟩, eqVars := [], condVars := [] }] }] }]]
    position (.input position)

/-- The union of a column of `t` with the intersection of the same columns. -/
def unionOfIntersection (limitOffset : Option (Option Nat)) : CopyNode where
  query :=
    { unionOf true 23 (selectColumn 1 23) (selectColumn 1 23) with
      rtable := List.replicate 3 (correctRTEAlias (subqueryRTE (selectColumn 1 23) "s"))
      setOperations := some (.setOperationStmt .union true [23] (.rangeTblRef 1)
        (.setOperationStmt .intersect true [23] (.rangeTblRef 2) (.rangeTblRef 3)))
      limitOffset }
  entries := [columnEntry 1, columnEntry 2, columnEntry 3]

theorem input_columnEntry (there : rtFetch rtable position = some origin) :
    ∃ attrEntries rtindex position' origin,
      columnEntry position = .entry attrEntries rtindex (.input position') ∧
        VarsAt position' attrEntries ∧ rtFetch rtable position' = some origin := by
  refine ⟨_, _, position, origin, rfl, ?_, there⟩
  intro inclusions member inner innerMember
  simp only [List.flatten_cons, List.flatten_nil, List.append_nil, List.mem_singleton] at member
  subst member
  rw [List.mem_singleton.1 innerMember]
  refine ⟨rfl, fun cond condMember => ?_⟩
  rw [List.mem_singleton.1 condMember]
  exact ⟨rfl, nofun, nofun⟩

theorem setNode_unionOfIntersection (limitOffset : Option (Option Nat)) :
    SetNode (unionOfIntersection limitOffset) where
  tree := ⟨_, _, _, _, _, rfl, rfl⟩
  noDistinct := rfl
  entries := by
    intro entry member
    simp only [unionOfIntersection, List.mem_cons, List.not_mem_nil, or_false] at member
    rcases member with rfl | rfl | rfl
    · exact input_columnEntry rfl
    · exact input_columnEntry rfl
    · exact input_columnEntry rfl

/-- A union with a LIMIT, from which nothing is taken out. -/
def limitedUnion : CopyNode where
  query :=
    { unionOf true 23 (selectColumn 1 23) (selectColumn 1 23) with limitCount := some (some 1) }
  entries := [columnEntry 1, columnEntry 2]

theorem setNode_limitedUnion : SetNode limitedUnion where
  tree := ⟨_, _, _, _, _, rfl, rfl⟩
  noDistinct := rfl
  entries := by
    intro entry member
    simp only [limitedUnion, List.mem_cons, List.not_mem_nil, or_false] at member
    rcases member with rfl | rfl
    · exact input_columnEntry rfl
    · exact input_columnEntry rfl

end Restructure

end Ldv.Copy
