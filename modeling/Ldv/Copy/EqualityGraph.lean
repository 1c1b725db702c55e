import Ldv.Copy.Expressions
import Ldv.Library.GraphSearch
import Ldv.Perm.SortList

/-!
# Equality graphs

An equality of two columns in a join or WHERE condition copies values from
one column to the other.  The columns compared in the conditions of a query
node are the nodes of an equality graph.  An edge is guaranteed, or static,
if the equality holds for every row, and optional otherwise.

`addCondForEquiGraph` adds to an attribute that is included in a column its
inclusions in the other columns of the graph.
-/

namespace Ldv.Copy

/--
A condition under which the values of an attribute are included in a
column.  Inclusions are stated over the columns below or over inclusions in
them.
-/
inductive InclusionCond (Attr : Type) where
  | exists (existsAttr : Attr)
  | equal (existsAttr : Attr) (eqVars : List Var)
  | if (existsAttr : Attr) (cond : Expr)

/-- The inclusion of an attribute in a column, under one of the conditions. -/
structure AttrInclusions (Attr : Type) where
  attr : Var
  inclConds : List (InclusionCond Attr)
  isStatic : Bool := false

/-- An equality found in a condition, guaranteed unless `useEqual` is set. -/
structure Equality where
  left : Var
  right : Var
  useEqual : Bool
deriving DecidableEq

/-- A node of the graph; edges are the numbers of other nodes. -/
structure EquiGraphNode where
  nodeVar : Var
  sEdges : List Nat := []
  nsEdges : List Nat := []

abbrev EquiGraph := List EquiGraphNode

namespace EquiGraph

def sEdges (graph : EquiGraph) (node : Nat) : List Nat :=
  (graph[node]?.map EquiGraphNode.sEdges).getD []

def nsEdges (graph : EquiGraph) (node : Nat) : List Nat :=
  (graph[node]?.map EquiGraphNode.nsEdges).getD []

def nodeVar (graph : EquiGraph) (node : Nat) : Var :=
  (graph[node]?.map EquiGraphNode.nodeVar).getD { varno := 0, varattno := 0 }

/-! ## Construction of the graph -/

/-- The nodes for the two sides of an equality. -/
def findNodes (graph : EquiGraph) (left right : Var) :
    Option Nat × Option Nat :=
  graph.zipIdx.foldl
    (fun found cur =>
      if left = cur.1.nodeVar then (some cur.2, found.2)
      else if right = cur.1.nodeVar then (found.1, some cur.2)
      else found)
    (none, none)

/-- The macro `MAKE_EQUINODE`. -/
def withNode (graph : EquiGraph) (nodeVar : Var) : EquiGraph :=
  graph ++ [{ nodeVar := nodeVar }]

/-- The node for a column, made if it has not been found. -/
def makeEquiNode (graph : EquiGraph) (node : Option Nat) (nodeVar : Var) :
    Nat × EquiGraph :=
  match node with
  | some node => (node, graph)
  | none => (graph.length, graph.withNode nodeVar)

/-- Is there an edge between two nodes, or a static one? -/
def hasEdge (graph : EquiGraph) (left right : Nat) (onlyS : Bool) : Bool :=
  if right ∈ graph.sEdges left then true
  else if onlyS then false
  else decide (right ∈ graph.nsEdges left)

def addNsEdge (graph : EquiGraph) (source target : Nat) : EquiGraph :=
  graph.modify source fun node =>
    { node with nsEdges := node.nsEdges ++ [target] }

def addSEdge (graph : EquiGraph) (source target : Nat) : EquiGraph :=
  graph.modify source fun node =>
    { node with sEdges := node.sEdges ++ [target] }

def deleteNsEdge (graph : EquiGraph) (source target : Nat) : EquiGraph :=
  graph.modify source fun node =>
    { node with nsEdges := node.nsEdges.erase target }

/-- Add the edge for an equality and the nodes that are missing. -/
def addEquiGraphEdge (graph : EquiGraph) (eq : Equality) : EquiGraph :=
  let found := graph.findNodes eq.left eq.right
  let (leftNode, graph) := makeEquiNode graph found.1 eq.left
  let (rightNode, graph) := makeEquiNode graph found.2 eq.right
  if eq.useEqual then
    if !graph.hasEdge leftNode rightNode false then
      (graph.addNsEdge leftNode rightNode).addNsEdge rightNode leftNode
    else graph
  else
    if !graph.hasEdge leftNode rightNode true then
      let graph := (graph.addSEdge leftNode rightNode).addSEdge rightNode leftNode
      (graph.deleteNsEdge leftNode rightNode).deleteNsEdge rightNode leftNode
    else graph

/-- The graph of all equalities in the conditions of a query node. -/
def ofEqualities (equalities : List Equality) : EquiGraph :=
  equalities.foldl addEquiGraphEdge []

/-! ## Static paths -/

def compareEquiNode (left right : Var) : Int :=
  if left.varno < right.varno then 1
  else if left.varno > right.varno then -1
  else if left.varattno < right.varattno then 1
  else if left.varattno > right.varattno then -1
  else 0

/-- The order of `compareEquiNode`: larger entries and columns come first. -/
def precedes (left right : Var) : Prop :=
  right.varno < left.varno ∨ (right.varno = left.varno ∧ right.varattno ≤ left.varattno)

/-- The nodes of the graph after `sortList`. -/
def sorted (graph : EquiGraph) : List Nat :=
  Perm.sortList (fun left right => compareEquiNode (graph.nodeVar left) (graph.nodeVar right)) true
    (List.range graph.length)

/-- The matrix of static connections, by node numbers. -/
abbrev StaticMatrix := Nat → Nat → Bool

/-- The macro `MARK_STATIC_PATH`. -/
def markStaticPath (hasStatic : StaticMatrix) (left right : Nat) :
    StaticMatrix :=
  fun row column =>
    hasStatic row column || (row = left && column = right) || (row = right && column = left)

/-- The search `searchStaticPath`; its depth is bounded by the nodes. -/
def searchStaticPath (graph : EquiGraph) (root : Nat) :
    Nat → Nat → StaticMatrix → StaticMatrix
  | 0, _, hasStatic => hasStatic
  | fuel + 1, node, hasStatic =>
    (graph.sEdges node).foldl
      (fun hasStatic cur =>
        if hasStatic root cur then hasStatic
        else
          searchStaticPath graph root fuel cur (markStaticPath hasStatic root cur))
      hasStatic

/-- The matrix after the search from every node. -/
def staticPaths (graph : EquiGraph) : StaticMatrix :=
  graph.sorted.foldl
    (fun hasStatic cur =>
      searchStaticPath graph cur (graph.length + 1) cur hasStatic)
    fun _ _ => false

/-! ## Paths with optional edges -/

/-- What the path search changes: the nodes seen and the conditions. -/
structure PathSearch where
  haveSeen : Nat → Bool
  inclConds : List (InclusionCond Var)

/-- The search `addEqualityForNonStaticPaths`. -/
def addEqualityForNonStaticPaths (graph : EquiGraph) (start target : Nat) :
    Nat → Nat → List Var → Bool → PathSearch → PathSearch
  | 0, _, _, _, search => search
  | fuel + 1, cur, eqPath, edgeIsStatic, search =>
    if search.haveSeen cur then search
    else
      let search := { search with haveSeen := Function.update search.haveSeen cur true }
      let optional := cur ≠ start && !edgeIsStatic
      let eqPath := if optional then eqPath ++ [graph.nodeVar cur] else eqPath
      if cur = target then
        { haveSeen := Function.update search.haveSeen cur false
          inclConds := search.inclConds ++ [.equal (graph.nodeVar start) eqPath] }
      else
        let search := (graph.sEdges cur).foldl
          (fun search newNode =>
            addEqualityForNonStaticPaths graph start target fuel newNode eqPath true search)
          search
        let search := (graph.nsEdges cur).foldl
          (fun search newNode =>
            addEqualityForNonStaticPaths graph start target fuel newNode eqPath false search)
          search
        if optional then
          { search with
            haveSeen := Function.update search.haveSeen cur false }
        else search

/-! ## Inclusions -/

/-- The node for a column, if it is compared at all. -/
def getNodePos (graph : EquiGraph) (var : Var) : Option Nat :=
  graph.sorted.find? fun node => graph.nodeVar node = var

/-- The new inclusions in the column of one node, for one in the column `attr`. -/
def newAttrInclsAt (graph : EquiGraph) (attr : Var) (nodePos node : Nat) :
    List (AttrInclusions Var) :=
  if graph.staticPaths nodePos node && node ≠ nodePos then
    [{ attr := graph.nodeVar node, inclConds := [.exists attr] }]
  else if node ≠ nodePos then
    let search := addEqualityForNonStaticPaths graph nodePos node
      (graph.length + 1) nodePos [] true
      { haveSeen := fun _ => false, inclConds := [] }
    if !search.inclConds.isEmpty then
      [{ attr := graph.nodeVar node, inclConds := search.inclConds }]
    else []
  else []

/-- The new inclusions for an inclusion in the column `attr`. -/
def newAttrIncls (graph : EquiGraph) (attr : Var) :
    List (AttrInclusions Var) :=
  match graph.getNodePos attr with
  | none => []
  | some nodePos => graph.sorted.flatMap (graph.newAttrInclsAt attr nodePos)

/-- The inclusions of an attribute with the new ones behind them. -/
def addCondForEquiGraph (graph : EquiGraph)
    (outAttrIncls : List (AttrInclusions Var)) :
    List (AttrInclusions Var) :=
  outAttrIncls ++ outAttrIncls.flatMap fun incl => graph.newAttrIncls incl.attr

end EquiGraph

/-!
## The edges of an equality graph

For equalities between different columns, the graph has one node for each
column, and two nodes are connected by a static edge if there is a
guaranteed equality of their columns, and by another edge if there are
optional equalities only.
-/

variable {left right var : Var} {source target : Nat}

/-- The equality compares these two columns. -/
def Equality.Compares (eq : Equality) (left right : Var) : Prop :=
  (eq.left = left ∧ eq.right = right) ∨ (eq.left = right ∧ eq.right = left)

/-- A guaranteed equality of two columns. -/
def Guaranteed (equalities : List Equality) (left right : Var) : Prop :=
  ∃ eq ∈ equalities, eq.useEqual = false ∧ eq.Compares left right

/-- An equality of two columns that are not equal by a guaranteed one. -/
def Optional (equalities : List Equality) (left right : Var) : Prop :=
  (∃ eq ∈ equalities, eq.useEqual = true ∧ eq.Compares left right) ∧
    ¬ Guaranteed equalities left right

/-- A column that is compared in one of the equalities. -/
def IsCompared (equalities : List Equality) (var : Var) : Prop :=
  ∃ eq ∈ equalities, eq.left = var ∨ eq.right = var

theorem Equality.Compares.symm {eq : Equality}
    (compares : eq.Compares left right) : eq.Compares right left :=
  Or.symm compares

theorem Guaranteed.symm {equalities : List Equality}
    (guaranteed : Guaranteed equalities left right) :
    Guaranteed equalities right left := by
  rcases guaranteed with ⟨eq, member, isStatic, compares⟩
  exact ⟨eq, member, isStatic, compares.symm⟩

theorem Optional.symm {equalities : List Equality}
    (optional : Optional equalities left right) :
    Optional equalities right left := by
  rcases optional with ⟨⟨eq, member, isOptional, compares⟩, notGuaranteed⟩
  exact ⟨⟨eq, member, isOptional, compares.symm⟩, fun guaranteed => notGuaranteed guaranteed.symm⟩

theorem Equality.Compares.isCompared {equalities : List Equality} {eq : Equality}
    (member : eq ∈ equalities) (compares : eq.Compares left right) :
    IsCompared equalities left ∧ IsCompared equalities right := by
  rcases compares with ⟨rfl, rfl⟩ | ⟨rfl, rfl⟩
  · exact ⟨⟨eq, member, .inl rfl⟩, ⟨eq, member, .inr rfl⟩⟩
  · exact ⟨⟨eq, member, .inr rfl⟩, ⟨eq, member, .inl rfl⟩⟩

theorem Guaranteed.isCompared {equalities : List Equality}
    (guaranteed : Guaranteed equalities left right) :
    IsCompared equalities left ∧ IsCompared equalities right := by
  rcases guaranteed with ⟨eq, member, -, compares⟩
  exact compares.isCompared member

theorem Optional.isCompared {equalities : List Equality}
    (optional : Optional equalities left right) :
    IsCompared equalities left ∧ IsCompared equalities right := by
  rcases optional with ⟨⟨eq, member, -, compares⟩, -⟩
  exact compares.isCompared member

theorem guaranteed_append_iff {equalities : List Equality} {eq : Equality} :
    Guaranteed (equalities ++ [eq]) left right ↔
      Guaranteed equalities left right ∨ (eq.useEqual = false ∧ eq.Compares left right) := by
  simp only [Guaranteed, List.mem_append, List.mem_singleton, or_and_right,
    exists_or, exists_eq_left]

theorem isCompared_append_iff {equalities : List Equality} {eq : Equality} :
    IsCompared (equalities ++ [eq]) var ↔
      IsCompared equalities var ∨ eq.left = var ∨ eq.right = var := by
  simp only [IsCompared, List.mem_append, List.mem_singleton, or_and_right,
    exists_or, exists_eq_left]

theorem optional_append_iff {equalities : List Equality} {eq : Equality} :
    Optional (equalities ++ [eq]) left right ↔
      ((∃ old ∈ equalities, old.useEqual = true ∧ old.Compares left right) ∨
        (eq.useEqual = true ∧ eq.Compares left right)) ∧
      ¬ Guaranteed equalities left right ∧ ¬ (eq.useEqual = false ∧ eq.Compares left right) := by
  simp only [Optional, guaranteed_append_iff, List.mem_append, List.mem_singleton,
    or_and_right, exists_or, exists_eq_left, not_or]

namespace EquiGraph

/-! ## Changes of one node -/

theorem map_nodeVar_modify {graph : EquiGraph}
    {change : EquiGraphNode → EquiGraphNode}
    (keeps : ∀ node, (change node).nodeVar = node.nodeVar) (place : Nat) :
    (graph.modify place change).map EquiGraphNode.nodeVar = graph.map EquiGraphNode.nodeVar := by
  refine List.ext_getElem? fun index => ?_
  rw [List.getElem?_map, List.getElem?_map, List.getElem?_modify]
  cases graph[index]? with
  | none => simp
  | some found => by_cases same : place = index <;> simp [same, keeps]

theorem map_nodeVar_addSEdge (graph : EquiGraph) (source target : Nat) :
    (graph.addSEdge source target).map EquiGraphNode.nodeVar = graph.map EquiGraphNode.nodeVar :=
  map_nodeVar_modify (by simp) source

theorem map_nodeVar_addNsEdge (graph : EquiGraph) (source target : Nat) :
    (graph.addNsEdge source target).map EquiGraphNode.nodeVar =
      graph.map EquiGraphNode.nodeVar :=
  map_nodeVar_modify (by simp) source

theorem map_nodeVar_deleteNsEdge (graph : EquiGraph) (source target : Nat) :
    (graph.deleteNsEdge source target).map EquiGraphNode.nodeVar =
      graph.map EquiGraphNode.nodeVar :=
  map_nodeVar_modify (by simp) source

theorem nodeVar_congr {left right : EquiGraph}
    (sameMap : left.map EquiGraphNode.nodeVar = right.map EquiGraphNode.nodeVar)
    (node : Nat) : left.nodeVar node = right.nodeVar node := by
  unfold nodeVar
  rw [← List.getElem?_map, ← List.getElem?_map, sameMap]

theorem length_congr {left right : EquiGraph}
    (sameMap : left.map EquiGraphNode.nodeVar = right.map EquiGraphNode.nodeVar) :
    left.length = right.length := by
  simpa using congrArg List.length sameMap

theorem sEdges_addSEdge {graph : EquiGraph}
    (inRange : source < graph.length) (target node : Nat) :
    (graph.addSEdge source target).sEdges node =
      if node = source then graph.sEdges node ++ [target]
      else graph.sEdges node := by
  unfold sEdges addSEdge
  rw [List.getElem?_modify]
  by_cases same : source = node
  · subst same
    simp [List.getElem?_eq_getElem inRange]
  · simp [same, Ne.symm same]

theorem nsEdges_addSEdge (graph : EquiGraph) (source target node : Nat) :
    (graph.addSEdge source target).nsEdges node = graph.nsEdges node := by
  unfold nsEdges addSEdge
  rw [List.getElem?_modify]
  cases graph[node]? with
  | none => simp
  | some found => by_cases same : source = node <;> simp [same]

theorem nsEdges_addNsEdge {graph : EquiGraph}
    (inRange : source < graph.length) (target node : Nat) :
    (graph.addNsEdge source target).nsEdges node =
      if node = source then graph.nsEdges node ++ [target]
      else graph.nsEdges node := by
  unfold nsEdges addNsEdge
  rw [List.getElem?_modify]
  by_cases same : source = node
  · subst same
    simp [List.getElem?_eq_getElem inRange]
  · simp [same, Ne.symm same]

theorem sEdges_addNsEdge (graph : EquiGraph) (source target node : Nat) :
    (graph.addNsEdge source target).sEdges node = graph.sEdges node := by
  unfold sEdges addNsEdge
  rw [List.getElem?_modify]
  cases graph[node]? with
  | none => simp
  | some found => by_cases same : source = node <;> simp [same]

theorem nsEdges_deleteNsEdge (graph : EquiGraph) (source target node : Nat) :
    (graph.deleteNsEdge source target).nsEdges node =
      if node = source then (graph.nsEdges node).erase target
      else graph.nsEdges node := by
  unfold nsEdges deleteNsEdge
  rw [List.getElem?_modify]
  by_cases same : source = node
  · subst same
    cases graph[source]? <;> simp
  · simp [same, Ne.symm same]

theorem sEdges_deleteNsEdge (graph : EquiGraph) (source target node : Nat) :
    (graph.deleteNsEdge source target).sEdges node = graph.sEdges node := by
  unfold sEdges deleteNsEdge
  rw [List.getElem?_modify]
  cases graph[node]? with
  | none => simp
  | some found => by_cases same : source = node <;> simp [same]

/-! ## Nodes -/

/-- A node for a column, or none if the graph has none. -/
def IsNodeFor (graph : EquiGraph) (var : Var) (node : Option Nat) : Prop :=
  (∀ found, node = some found → found < graph.length ∧ graph.nodeVar found = var) ∧
  (node = none → var ∉ graph.map EquiGraphNode.nodeVar)

theorem nodeVar_append_left {graph further : EquiGraph} {node : Nat}
    (inRange : node < graph.length) :
    nodeVar (graph ++ further) node = graph.nodeVar node := by
  unfold nodeVar
  rw [List.getElem?_append_left inRange]

theorem nodeVar_append_length (graph : EquiGraph) (node : EquiGraphNode) :
    nodeVar (graph ++ [node]) graph.length = node.nodeVar := by
  simp [nodeVar]

theorem IsNodeFor.append {graph : EquiGraph} {node : Option Nat}
    (isNode : graph.IsNodeFor var node) {further : EquiGraphNode}
    (different : further.nodeVar ≠ var) :
    IsNodeFor (graph ++ [further]) var node := by
  constructor
  · intro found isFound
    rcases isNode.1 found isFound with ⟨inRange, isVar⟩
    exact ⟨by simp; omega, by rw [nodeVar_append_left inRange, isVar]⟩
  · intro isNone
    simpa [Ne.symm different] using isNode.2 isNone

theorem isNodeFor_append_length (graph : EquiGraph) (node : EquiGraphNode) :
    IsNodeFor (graph ++ [node]) node.nodeVar (some graph.length) := by
  constructor
  · rintro found isFound
    rcases Option.some.inj isFound with rfl
    exact ⟨by simp, nodeVar_append_length graph node⟩
  · exact fun isNone => nomatch isNone

theorem findNodes_spec (different : left ≠ right) (graph : EquiGraph) :
    graph.IsNodeFor left (graph.findNodes left right).1 ∧
      graph.IsNodeFor right (graph.findNodes left right).2 := by
  induction graph using List.reverseRecOn with
  | nil => simp [findNodes, IsNodeFor]
  | append_singleton graph node ih =>
    have step : findNodes (graph ++ [node]) left right =
        if left = node.nodeVar then
          (some graph.length, (findNodes graph left right).2)
        else if right = node.nodeVar then
          ((findNodes graph left right).1, some graph.length)
        else findNodes graph left right := by
      simp [findNodes, List.zipIdx_append]
    rw [step]
    split_ifs with isLeft isRight
    · exact ⟨isLeft ▸ isNodeFor_append_length graph node, ih.2.append (isLeft ▸ different)⟩
    · exact ⟨ih.1.append (isRight ▸ different.symm), isRight ▸ isNodeFor_append_length graph node⟩
    · exact ⟨ih.1.append (Ne.symm isLeft), ih.2.append (Ne.symm isRight)⟩

/-! ## Graphs of equalities -/

/-- The edges of the graph are those of the equalities. -/
structure HasEdges (graph : EquiGraph) (equalities : List Equality) : Prop where
  nodup : (graph.map EquiGraphNode.nodeVar).Nodup
  mem_of_isCompared : ∀ var, IsCompared equalities var → var ∈ graph.map EquiGraphNode.nodeVar
  sEdges_iff :
    ∀ source target, target ∈ graph.sEdges source ↔
      source < graph.length ∧ target < graph.length ∧
        Guaranteed equalities (graph.nodeVar source) (graph.nodeVar target)
  nsEdges_iff :
    ∀ source target, target ∈ graph.nsEdges source ↔
      source < graph.length ∧ target < graph.length ∧
        Optional equalities (graph.nodeVar source) (graph.nodeVar target)
  sEdges_nodup : ∀ source, (graph.sEdges source).Nodup
  nsEdges_nodup : ∀ source, (graph.nsEdges source).Nodup

theorem mem_map_nodeVar_iff {graph : EquiGraph} :
    var ∈ graph.map EquiGraphNode.nodeVar ↔
      ∃ node, node < graph.length ∧ graph.nodeVar node = var := by
  rw [List.mem_map]
  constructor
  · rintro ⟨found, member, rfl⟩
    rcases List.getElem_of_mem member with ⟨node, inRange, rfl⟩
    exact ⟨node, inRange, by simp [nodeVar, List.getElem?_eq_getElem inRange]⟩
  · rintro ⟨node, inRange, rfl⟩
    exact ⟨graph[node], List.getElem_mem inRange,
      by simp [nodeVar, List.getElem?_eq_getElem inRange]⟩

theorem HasEdges.nodeVar_inj {graph : EquiGraph} {equalities : List Equality}
    (hasEdges : graph.HasEdges equalities) {left right : Nat}
    (leftRange : left < graph.length) (rightRange : right < graph.length)
    (same : graph.nodeVar left = graph.nodeVar right) : left = right := by
  have inVars : left < (graph.map EquiGraphNode.nodeVar).length := by
    simpa using leftRange
  refine (List.getElem?_inj inVars hasEdges.nodup).1 ?_
  simpa [nodeVar, List.getElem?_eq_getElem leftRange,
    List.getElem?_eq_getElem rightRange] using same

theorem edges_append_node (graph : EquiGraph) (var : Var) (source : Nat) :
    (graph.withNode var).sEdges source = graph.sEdges source ∧
      (graph.withNode var).nsEdges source = graph.nsEdges source := by
  unfold sEdges nsEdges withNode
  rcases Nat.lt_trichotomy source graph.length with inRange | rfl | outside
  · rw [List.getElem?_append_left inRange]
    exact ⟨rfl, rfl⟩
  · simp
  · simp [List.getElem?_append_right outside.le, List.getElem?_eq_none outside.le,
      Nat.sub_ne_zero_of_lt outside]

/-- A relation of compared columns does not involve a new node. -/
theorem edge_append_node_iff {graph : EquiGraph} {equalities : List Equality}
    (mem_of_isCompared : ∀ var, IsCompared equalities var → var ∈ graph.map EquiGraphNode.nodeVar)
    (isNew : var ∉ graph.map EquiGraphNode.nodeVar) {relation : Var → Var → Prop}
    (isCompared : ∀ {left right}, relation left right →
      IsCompared equalities left ∧ IsCompared equalities right)
    (source target : Nat) :
    (source < (graph.withNode var).length ∧
        target < (graph.withNode var).length ∧
        relation ((graph.withNode var).nodeVar source) ((graph.withNode var).nodeVar target)) ↔
      source < graph.length ∧ target < graph.length ∧
        relation (graph.nodeVar source) (graph.nodeVar target) := by
  have isOld : ∀ {node}, node < (graph.withNode var).length →
      IsCompared equalities ((graph.withNode var).nodeVar node) →
      node < graph.length := by
    intro node inRange compared
    rw [withNode, List.length_append, List.length_singleton] at inRange
    by_contra outside
    have isLast : node = graph.length := by omega
    rw [isLast, withNode, nodeVar_append_length] at compared
    exact isNew (mem_of_isCompared _ compared)
  constructor
  · rintro ⟨sourceRange, targetRange, related⟩
    have sourceOld := isOld sourceRange (isCompared related).1
    have targetOld := isOld targetRange (isCompared related).2
    rw [withNode, nodeVar_append_left sourceOld, nodeVar_append_left targetOld] at related
    exact ⟨sourceOld, targetOld, related⟩
  · rintro ⟨sourceRange, targetRange, related⟩
    rw [withNode, nodeVar_append_left sourceRange, nodeVar_append_left targetRange]
    exact ⟨by simp; omega, by simp; omega, related⟩

/-- What is known of a node made for a column. -/
structure MadeNode (graph : EquiGraph) (equalities : List Equality) (var : Var)
    (made : Nat × EquiGraph) : Prop where
  hasEdges : made.2.HasEdges equalities
  inRange : made.1 < made.2.length
  nodeVar_eq : made.2.nodeVar made.1 = var
  keeps : ∀ other node, other ≠ var → graph.IsNodeFor other node → made.2.IsNodeFor other node
  old : ∀ node, node < graph.length →
    node < made.2.length ∧ made.2.nodeVar node = graph.nodeVar node

theorem makeEquiNode_spec {graph : EquiGraph} {equalities : List Equality}
    (hasEdges : graph.HasEdges equalities) {node : Option Nat}
    (isNode : graph.IsNodeFor var node) :
    MadeNode graph equalities var (makeEquiNode graph node var) := by
  cases node with
  | some node =>
    rcases isNode.1 node rfl with ⟨inRange, isVar⟩
    exact ⟨hasEdges, inRange, isVar, fun _ _ _ isNode => isNode, fun _ inRange => ⟨inRange, rfl⟩⟩
  | none =>
    have isNew := isNode.2 rfl
    refine ⟨⟨?_, ?_, ?_, ?_, ?_, ?_⟩, ?_, ?_, ?_, ?_⟩
    · rw [makeEquiNode, withNode, List.map_append]
      exact hasEdges.nodup.append (List.nodup_singleton _) (by simpa using isNew)
    · intro other compared
      rw [makeEquiNode, withNode, List.map_append]
      exact List.mem_append_left _ (hasEdges.mem_of_isCompared other compared)
    · intro source target
      rw [makeEquiNode, (edges_append_node _ _ _).1, hasEdges.sEdges_iff]
      exact (edge_append_node_iff hasEdges.mem_of_isCompared isNew
        Guaranteed.isCompared source target).symm
    · intro source target
      rw [makeEquiNode, (edges_append_node _ _ _).2, hasEdges.nsEdges_iff]
      exact (edge_append_node_iff hasEdges.mem_of_isCompared isNew
        Optional.isCompared source target).symm
    · intro source
      rw [makeEquiNode, (edges_append_node _ _ _).1]
      exact hasEdges.sEdges_nodup source
    · intro source
      rw [makeEquiNode, (edges_append_node _ _ _).2]
      exact hasEdges.nsEdges_nodup source
    · simp [makeEquiNode, withNode]
    · exact nodeVar_append_length graph _
    · intro other node different isNode
      exact isNode.append (Ne.symm different)
    · intro node inRange
      exact ⟨by simp [makeEquiNode, withNode]; omega, nodeVar_append_left inRange⟩

section NewEdge

variable
  {graph : EquiGraph}
  {equalities : List Equality}
  {eq : Equality}
  {leftNode rightNode : Nat}

/-- The two nodes of the equality, in one of the two orders. -/
def IsPair (leftNode rightNode source target : Nat) : Prop :=
  (source = leftNode ∧ target = rightNode) ∨ (source = rightNode ∧ target = leftNode)

theorem compares_nodeVar_iff (hasEdges : graph.HasEdges equalities)
    (leftRange : leftNode < graph.length) (leftVar : graph.nodeVar leftNode = eq.left)
    (rightRange : rightNode < graph.length) (rightVar : graph.nodeVar rightNode = eq.right)
    (sourceRange : source < graph.length)
    (targetRange : target < graph.length) :
    eq.Compares (graph.nodeVar source) (graph.nodeVar target) ↔
      IsPair leftNode rightNode source target := by
  rw [Equality.Compares, ← leftVar, ← rightVar]
  constructor
  · rintro (⟨left, right⟩ | ⟨left, right⟩)
    · exact .inl ⟨(hasEdges.nodeVar_inj leftRange sourceRange left).symm,
        (hasEdges.nodeVar_inj rightRange targetRange right).symm⟩
    · exact .inr ⟨(hasEdges.nodeVar_inj rightRange sourceRange right).symm,
        (hasEdges.nodeVar_inj leftRange targetRange left).symm⟩
  · rintro (⟨rfl, rfl⟩ | ⟨rfl, rfl⟩)
    · exact .inl ⟨rfl, rfl⟩
    · exact .inr ⟨rfl, rfl⟩

/-- The edges of a node when one edge is added in both directions. -/
def bothWays (leftNode rightNode source : Nat) (edges : List Nat) : List Nat :=
  let edges := if source = leftNode then edges ++ [rightNode] else edges
  if source = rightNode then edges ++ [leftNode] else edges

theorem mem_bothWays_iff (different : leftNode ≠ rightNode)
    {edges : List Nat} :
    target ∈ bothWays leftNode rightNode source edges ↔
      target ∈ edges ∨ IsPair leftNode rightNode source target := by
  unfold bothWays IsPair
  split_ifs with isLeft isRight isRight
  · exact absurd (isLeft.symm.trans isRight) different
  · simp [isLeft, different]
  · simp [isRight, Ne.symm different]
  · simp [isRight, isLeft]

theorem nodup_bothWays (different : leftNode ≠ rightNode) {edges : List Nat}
    (nodup : edges.Nodup)
    (isNew : ∀ target, IsPair leftNode rightNode source target → target ∉ edges) :
    (bothWays leftNode rightNode source edges).Nodup := by
  unfold bothWays
  split_ifs with isLeft isRight isRight
  · exact absurd (isLeft.symm.trans isRight) different
  · exact nodup.append (List.nodup_singleton _)
      (by simpa using isNew rightNode (.inl ⟨isLeft, rfl⟩))
  · exact nodup.append (List.nodup_singleton _)
      (by simpa using isNew leftNode (.inr ⟨isRight, rfl⟩))
  · exact nodup

theorem nsEdges_addNsEdge_both (leftRange : leftNode < graph.length)
    (rightRange : rightNode < graph.length) (source : Nat) :
    ((graph.addNsEdge leftNode rightNode).addNsEdge rightNode leftNode).nsEdges
        source =
      bothWays leftNode rightNode source (graph.nsEdges source) := by
  rw [nsEdges_addNsEdge (by rwa [length_congr (map_nodeVar_addNsEdge ..)]),
    nsEdges_addNsEdge leftRange]
  rfl

theorem sEdges_addSEdge_both (leftRange : leftNode < graph.length)
    (rightRange : rightNode < graph.length) (source : Nat) :
    ((graph.addSEdge leftNode rightNode).addSEdge rightNode leftNode).sEdges
        source =
      bothWays leftNode rightNode source (graph.sEdges source) := by
  rw [sEdges_addSEdge (by rwa [length_congr (map_nodeVar_addSEdge ..)]), sEdges_addSEdge leftRange]
  rfl

theorem mem_deleteNsEdge_iff (different : leftNode ≠ rightNode)
    (nodup : ∀ source, (graph.nsEdges source).Nodup) (source target : Nat) :
    target ∈ ((graph.deleteNsEdge leftNode rightNode).deleteNsEdge
        rightNode leftNode).nsEdges source ↔
      target ∈ graph.nsEdges source ∧ ¬ IsPair leftNode rightNode source target := by
  rw [nsEdges_deleteNsEdge, nsEdges_deleteNsEdge]
  unfold IsPair
  split_ifs with isRight isLeft isLeft
  · exact absurd (isLeft.symm.trans isRight) different
  · rw [(nodup source).mem_erase_iff]
    simp [isRight, Ne.symm different, and_comm]
  · rw [(nodup source).mem_erase_iff]
    simp [isLeft, different, and_comm]
  · simp [isRight, isLeft]

/-- Edges of a pair of nodes are edges between the compared columns. -/
theorem HasEdges.isPair_iff (hasEdges : graph.HasEdges equalities) {source target : Nat}
    (isPair : IsPair leftNode rightNode source target) :
    (target ∈ graph.sEdges source ↔ rightNode ∈ graph.sEdges leftNode) ∧
      (target ∈ graph.nsEdges source ↔ rightNode ∈ graph.nsEdges leftNode) := by
  rcases isPair with ⟨rfl, rfl⟩ | ⟨rfl, rfl⟩
  · exact ⟨Iff.rfl, Iff.rfl⟩
  · simp only [hasEdges.sEdges_iff, hasEdges.nsEdges_iff]
    constructor
    · exact ⟨fun ⟨left, right, edge⟩ => ⟨right, left, edge.symm⟩,
        fun ⟨left, right, edge⟩ => ⟨right, left, edge.symm⟩⟩
    · exact ⟨fun ⟨left, right, edge⟩ => ⟨right, left, Optional.symm edge⟩,
        fun ⟨left, right, edge⟩ => ⟨right, left, Optional.symm edge⟩⟩

section Step

variable
  (hasEdges : graph.HasEdges equalities)
  (leftRange : leftNode < graph.length)
  (leftVar : graph.nodeVar leftNode = eq.left)
  (rightRange : rightNode < graph.length)
  (rightVar : graph.nodeVar rightNode = eq.right)

include hasEdges leftRange leftVar rightRange rightVar

theorem guaranteed_append_nodeVar_iff (sourceRange : source < graph.length)
    (targetRange : target < graph.length) :
    Guaranteed (equalities ++ [eq]) (graph.nodeVar source) (graph.nodeVar target) ↔
      target ∈ graph.sEdges source ∨
        (eq.useEqual = false ∧ IsPair leftNode rightNode source target) := by
  rw [guaranteed_append_iff, compares_nodeVar_iff hasEdges leftRange leftVar
    rightRange rightVar sourceRange targetRange, hasEdges.sEdges_iff]
  tauto

theorem optional_append_nodeVar_iff (sourceRange : source < graph.length)
    (targetRange : target < graph.length) :
    Optional (equalities ++ [eq]) (graph.nodeVar source) (graph.nodeVar target) ↔
      (target ∈ graph.nsEdges source ∨
        (eq.useEqual = true ∧ IsPair leftNode rightNode source target ∧
          target ∉ graph.sEdges source)) ∧
      ¬ (eq.useEqual = false ∧ IsPair leftNode rightNode source target) := by
  rw [optional_append_iff, compares_nodeVar_iff hasEdges leftRange leftVar
    rightRange rightVar sourceRange targetRange, hasEdges.nsEdges_iff,
    hasEdges.sEdges_iff, Optional]
  simp only [sourceRange, targetRange, true_and, or_and_right, and_assoc]

/-- A graph with the same nodes and the edges of one more equality. -/
theorem HasEdges.append {changed : EquiGraph}
    (sameMap : changed.map EquiGraphNode.nodeVar = graph.map EquiGraphNode.nodeVar)
    (sEdges_iff : ∀ source target, target ∈ changed.sEdges source ↔
      target ∈ graph.sEdges source ∨
        (eq.useEqual = false ∧ IsPair leftNode rightNode source target))
    (nsEdges_iff : ∀ source target, target ∈ changed.nsEdges source ↔
      (target ∈ graph.nsEdges source ∨
        (eq.useEqual = true ∧ IsPair leftNode rightNode source target ∧
          target ∉ graph.sEdges source)) ∧
      ¬ (eq.useEqual = false ∧ IsPair leftNode rightNode source target))
    (sEdges_nodup : ∀ source, (changed.sEdges source).Nodup)
    (nsEdges_nodup : ∀ source, (changed.nsEdges source).Nodup) :
    changed.HasEdges (equalities ++ [eq]) := by
  have pairRange : ∀ {source target}, IsPair leftNode rightNode source target →
      source < graph.length ∧ target < graph.length := by
    rintro source target (⟨rfl, rfl⟩ | ⟨rfl, rfl⟩)
    · exact ⟨leftRange, rightRange⟩
    · exact ⟨rightRange, leftRange⟩
  have sameLength := length_congr sameMap
  have sameVars := nodeVar_congr sameMap
  refine ⟨sameMap ▸ hasEdges.nodup, ?_, ?_, ?_, sEdges_nodup, nsEdges_nodup⟩
  · intro var compared
    rw [sameMap]
    rcases isCompared_append_iff.1 compared with compared | rfl | rfl
    · exact hasEdges.mem_of_isCompared var compared
    · exact mem_map_nodeVar_iff.2 ⟨leftNode, leftRange, leftVar⟩
    · exact mem_map_nodeVar_iff.2 ⟨rightNode, rightRange, rightVar⟩
  · intro source target
    rw [sameLength, sameVars, sameVars, sEdges_iff]
    constructor
    · intro isEdge
      have inRange : source < graph.length ∧ target < graph.length := by
        rcases isEdge with isEdge | ⟨-, isPair⟩
        · exact ⟨((hasEdges.sEdges_iff _ _).1 isEdge).1, ((hasEdges.sEdges_iff _ _).1 isEdge).2.1⟩
        · exact pairRange isPair
      exact ⟨inRange.1, inRange.2, (guaranteed_append_nodeVar_iff hasEdges leftRange
        leftVar rightRange rightVar inRange.1 inRange.2).2 isEdge⟩
    · rintro ⟨sourceRange, targetRange, guaranteed⟩
      exact (guaranteed_append_nodeVar_iff hasEdges leftRange leftVar rightRange
        rightVar sourceRange targetRange).1 guaranteed
  · intro source target
    rw [sameLength, sameVars, sameVars, nsEdges_iff]
    constructor
    · intro isEdge
      have inRange : source < graph.length ∧ target < graph.length := by
        rcases isEdge.1 with isEdge | ⟨-, isPair, -⟩
        · exact ⟨((hasEdges.nsEdges_iff _ _).1 isEdge).1, ((hasEdges.nsEdges_iff _ _).1 isEdge).2.1⟩
        · exact pairRange isPair
      exact ⟨inRange.1, inRange.2, (optional_append_nodeVar_iff hasEdges leftRange
        leftVar rightRange rightVar inRange.1 inRange.2).2 isEdge⟩
    · rintro ⟨sourceRange, targetRange, optional⟩
      exact (optional_append_nodeVar_iff hasEdges leftRange leftVar rightRange
        rightVar sourceRange targetRange).1 optional

/-- The step for an equality whose columns are connected already. -/
theorem HasEdges.keep
    (isConnected : rightNode ∈ graph.sEdges leftNode ∨
      (eq.useEqual = true ∧ rightNode ∈ graph.nsEdges leftNode)) :
    graph.HasEdges (equalities ++ [eq]) := by
  have notBoth : ∀ {source target}, target ∈ graph.nsEdges source →
      target ∉ graph.sEdges source := fun isNs isS =>
    ((hasEdges.nsEdges_iff _ _).1 isNs).2.2.2 ((hasEdges.sEdges_iff _ _).1 isS).2.2
  refine hasEdges.append leftRange leftVar rightRange rightVar rfl ?_ ?_
    hasEdges.sEdges_nodup hasEdges.nsEdges_nodup
  · intro source target
    refine (or_iff_left_of_imp ?_).symm
    rintro ⟨isStatic, isPair⟩
    have := (hasEdges.isPair_iff isPair).1
    simp_all
  · intro source target
    constructor
    · intro isEdge
      refine ⟨.inl isEdge, ?_⟩
      rintro ⟨isStatic, isPair⟩
      have := hasEdges.isPair_iff isPair
      have := notBoth isEdge
      simp_all
    · rintro ⟨isEdge | ⟨isOptional, isPair, noS⟩, -⟩
      · exact isEdge
      · have := hasEdges.isPair_iff isPair
        simp_all

variable (different : leftNode ≠ rightNode)

include different

/-- The step for an optional equality of columns without an edge. -/
theorem HasEdges.addNsEdge (isOptional : eq.useEqual = true)
    (noS : rightNode ∉ graph.sEdges leftNode) (noNs : rightNode ∉ graph.nsEdges leftNode) :
    HasEdges ((graph.addNsEdge leftNode rightNode).addNsEdge rightNode leftNode)
      (equalities ++ [eq]) := by
  refine hasEdges.append leftRange leftVar rightRange rightVar ?_ ?_ ?_ ?_ ?_
  · rw [map_nodeVar_addNsEdge, map_nodeVar_addNsEdge]
  · intro source target
    rw [sEdges_addNsEdge, sEdges_addNsEdge]
    simp [isOptional]
  · intro source target
    rw [nsEdges_addNsEdge_both leftRange rightRange, mem_bothWays_iff different]
    have := @HasEdges.isPair_iff _ _ leftNode rightNode hasEdges source target
    simp only [isOptional, true_and, Bool.true_eq_false, false_and, not_false_iff, and_true]
    tauto
  · intro source
    rw [sEdges_addNsEdge, sEdges_addNsEdge]
    exact hasEdges.sEdges_nodup source
  · intro source
    rw [nsEdges_addNsEdge_both leftRange rightRange]
    refine nodup_bothWays different (hasEdges.nsEdges_nodup source) ?_
    exact fun target isPair isEdge => noNs ((hasEdges.isPair_iff isPair).2.1 isEdge)

/-- The step for a guaranteed equality of columns without a static edge. -/
theorem HasEdges.addSEdge (isStatic : eq.useEqual = false)
    (noS : rightNode ∉ graph.sEdges leftNode) :
    HasEdges ((((graph.addSEdge leftNode rightNode).addSEdge rightNode
        leftNode).deleteNsEdge leftNode rightNode).deleteNsEdge rightNode leftNode)
      (equalities ++ [eq]) := by
  refine hasEdges.append leftRange leftVar rightRange rightVar ?_ ?_ ?_ ?_ ?_
  · rw [map_nodeVar_deleteNsEdge, map_nodeVar_deleteNsEdge, map_nodeVar_addSEdge,
      map_nodeVar_addSEdge]
  · intro source target
    rw [sEdges_deleteNsEdge, sEdges_deleteNsEdge,
      sEdges_addSEdge_both leftRange rightRange, mem_bothWays_iff different]
    simp [isStatic]
  · intro source target
    rw [mem_deleteNsEdge_iff different, nsEdges_addSEdge, nsEdges_addSEdge]
    · simp [isStatic]
    · intro source
      rw [nsEdges_addSEdge, nsEdges_addSEdge]
      exact hasEdges.nsEdges_nodup source
  · intro source
    rw [sEdges_deleteNsEdge, sEdges_deleteNsEdge, sEdges_addSEdge_both leftRange rightRange]
    refine nodup_bothWays different (hasEdges.sEdges_nodup source) ?_
    exact fun target isPair isEdge => noS ((hasEdges.isPair_iff isPair).1.1 isEdge)
  · intro source
    rw [nsEdges_deleteNsEdge, nsEdges_deleteNsEdge, nsEdges_addSEdge, nsEdges_addSEdge]
    have nodup := hasEdges.nsEdges_nodup source
    split_ifs
    · exact (nodup.erase _).erase _
    · exact nodup.erase _
    · exact nodup.erase _
    · exact nodup

end Step

end NewEdge

/-- One more equality of different columns. -/
theorem HasEdges.addEquiGraphEdge {graph : EquiGraph} {equalities : List Equality}
    (hasEdges : graph.HasEdges equalities) {eq : Equality} (different : eq.left ≠ eq.right) :
    (graph.addEquiGraphEdge eq).HasEdges (equalities ++ [eq]) := by
  have found := findNodes_spec different graph
  have madeLeft := makeEquiNode_spec hasEdges found.1
  have madeRight := makeEquiNode_spec madeLeft.hasEdges
    (madeLeft.keeps eq.right _ different.symm found.2)
  unfold EquiGraph.addEquiGraphEdge
  dsimp only
  generalize makeEquiNode graph (graph.findNodes eq.left eq.right).1 eq.left = left
    at madeLeft madeRight ⊢
  generalize makeEquiNode left.2 (graph.findNodes eq.left eq.right).2 eq.right = right
    at madeRight ⊢
  rcases madeRight.old left.1 madeLeft.inRange with ⟨leftRange, leftVar⟩
  rw [madeLeft.nodeVar_eq] at leftVar
  have notSame : left.1 ≠ right.1 := by
    intro same
    rw [same, madeRight.nodeVar_eq] at leftVar
    exact different leftVar.symm
  have keep := @HasEdges.keep _ _ _ _ _ madeRight.hasEdges leftRange leftVar
    madeRight.inRange madeRight.nodeVar_eq
  unfold hasEdge
  by_cases isS : right.1 ∈ right.2.sEdges left.1
  · simpa [isS] using keep (.inl isS)
  · cases isOptional : eq.useEqual with
    | true =>
      by_cases isNs : right.1 ∈ right.2.nsEdges left.1
      · simpa [isS, isNs] using keep (.inr ⟨isOptional, isNs⟩)
      · simpa [isS, isNs] using madeRight.hasEdges.addNsEdge leftRange leftVar
          madeRight.inRange madeRight.nodeVar_eq notSame isOptional isS isNs
    | false =>
      simpa [isS] using madeRight.hasEdges.addSEdge leftRange leftVar
        madeRight.inRange madeRight.nodeVar_eq notSame isOptional isS

/-- The graph of equalities between different columns. -/
theorem hasEdges_ofEqualities {equalities : List Equality}
    (different : ∀ eq ∈ equalities, eq.left ≠ eq.right) :
    (ofEqualities equalities).HasEdges equalities := by
  induction equalities using List.reverseRecOn with
  | nil =>
    refine ⟨List.nodup_nil, ?_, ?_, ?_, fun _ => List.nodup_nil, fun _ => List.nodup_nil⟩
    · rintro var ⟨eq, member, -⟩
      exact nomatch member
    · intro source target
      simp [ofEqualities, sEdges]
    · intro source target
      simp [ofEqualities, nsEdges]
  | append_singleton equalities eq ih =>
    rw [List.forall_mem_append, List.forall_mem_singleton] at different
    rw [ofEqualities, List.foldl_append]
    exact (ih different.1).addEquiGraphEdge different.2

end EquiGraph

end Ldv.Copy
