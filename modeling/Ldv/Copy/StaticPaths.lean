import Ldv.Copy.EqualityGraph

/-!
# Static connections of an equality graph

The matrix of static connections is symmetric, and the search from one node
marks its row like `flood`.  Since a search does not go on at nodes that
are marked already, it does not come to the nodes searched before.  Hence
two columns are marked if they are connected by guaranteed equalities
through columns that do not precede both of them.
-/

namespace Ldv.Copy

variable {graph : EquiGraph} {equalities : List Equality} {node : Nat}

namespace EquiGraph

open GraphSearch

/-! ## The search from one node -/

/-- What a search from `root` has done to the matrix. -/
structure RowSearched (root : Nat) (row : Nat → Bool)
    (hasStatic searched : StaticMatrix) : Prop where
  row_eq : searched root = row
  symm : ∀ left right, searched left right = searched right left
  other : ∀ left right, left ≠ root → right ≠ root → searched left right = hasStatic left right

theorem markStaticPath_spec {hasStatic : StaticMatrix}
    (symm : ∀ left right, hasStatic left right = hasStatic right left) (root cur : Nat) :
    RowSearched root (Function.update (hasStatic root) cur true) hasStatic
      (markStaticPath hasStatic root cur) := by
  refine ⟨?_, ?_, ?_⟩
  · funext column
    unfold markStaticPath
    by_cases isCur : column = cur
    · simp [isCur]
    · have notBoth : ¬ (root = cur ∧ column = root) := fun same => isCur (same.2.trans same.1)
      simp_all
  · intro left right
    unfold markStaticPath
    rw [symm left right, Bool.or_right_comm, Bool.and_comm (decide (left = root)),
      Bool.and_comm (decide (left = cur))]
  · intro left right notLeft notRight
    simp [markStaticPath, notLeft, notRight]

theorem searchStaticPath_spec (graph : EquiGraph) (root fuel : Nat) :
    ∀ (node : Nat) (hasStatic : StaticMatrix),
      (∀ left right, hasStatic left right = hasStatic right left) →
      RowSearched root (flood graph.sEdges fuel node (hasStatic root)) hasStatic
        (searchStaticPath graph root fuel node hasStatic) := by
  induction fuel with
  | zero => exact fun _ _ symm => ⟨rfl, symm, fun _ _ _ _ => rfl⟩
  | succ fuel ih =>
    intro node hasStatic symm
    unfold searchStaticPath flood
    induction graph.sEdges node generalizing hasStatic with
    | nil => exact ⟨rfl, symm, fun _ _ _ _ => rfl⟩
    | cons cur rest restHypothesis =>
      rw [List.foldl_cons, List.foldl_cons]
      cases isMarked : hasStatic root cur with
      | true => simpa using restHypothesis hasStatic symm
      | false =>
        have marked := markStaticPath_spec symm root cur
        have below := ih cur _ marked.symm
        have later := restHypothesis _ below.symm
        rw [below.row_eq, marked.row_eq] at later
        refine ⟨later.row_eq, later.symm, fun left right notLeft notRight => ?_⟩
        exact (later.other left right notLeft notRight).trans
          ((below.other left right notLeft notRight).trans
            (marked.other left right notLeft notRight))

/-! ## The search from every node -/

/-- The matrix after searches from the nodes in `former`. -/
structure Searched (graph : EquiGraph) (former : List Nat)
    (hasStatic : StaticMatrix) : Prop where
  symm : ∀ left right, hasStatic left right = hasStatic right left
  row_iff : ∀ before root after, former = before ++ root :: after →
    ∀ node, node ∉ before →
      (hasStatic root node = true ↔ Relation.TransGen (Avoiding graph.sEdges before) root node)
  other : ∀ left right, left ∉ former → right ∉ former → hasStatic left right = false

theorem HasEdges.sEdges_lt
    (hasEdges : graph.HasEdges equalities) (node : Nat) :
    ∀ next ∈ graph.sEdges node, next ∈ Finset.range graph.length :=
  fun next isEdge => Finset.mem_range.2 ((hasEdges.sEdges_iff node next).1 isEdge).2.1

theorem HasEdges.sEdges_symm
    (hasEdges : graph.HasEdges equalities) (node : Nat) :
    ∀ next ∈ graph.sEdges node, node ∈ graph.sEdges next := by
  intro next isEdge
  rcases (hasEdges.sEdges_iff node next).1 isEdge with ⟨inRange, nextRange, guaranteed⟩
  exact (hasEdges.sEdges_iff next node).2 ⟨nextRange, inRange, guaranteed.symm⟩

/-- One more search keeps the rows of the former ones. -/
theorem Searched.search
    (hasEdges : graph.HasEdges equalities) {former : List Nat} {hasStatic : StaticMatrix}
    (searched : Searched graph former hasStatic) {cur : Nat} (isNew : cur ∉ former) :
    Searched graph (former ++ [cur])
      (searchStaticPath graph cur (graph.length + 1) cur hasStatic) := by
  have row := searchStaticPath_spec graph cur (graph.length + 1) cur hasStatic searched.symm
  have enough : (unmarked (Finset.range graph.length) (hasStatic cur)).card < graph.length + 1 := by
    have := Finset.card_filter_le (Finset.range graph.length) fun node => hasStatic cur node = false
    rw [Finset.card_range] at this
    exact Nat.lt_succ_of_le this
  have marks : ∀ node,
      searchStaticPath graph cur (graph.length + 1) cur hasStatic cur node = true ↔
        hasStatic cur node = true ∨
          Relation.TransGen (Unmarked graph.sEdges (hasStatic cur)) cur node := by
    intro node
    rw [row.row_eq]
    exact flood_iff hasEdges.sEdges_lt enough node
  have avoids : ∀ {node},
      Relation.TransGen (Unmarked graph.sEdges (hasStatic cur)) cur node →
        Relation.TransGen (Avoiding graph.sEdges former) cur node := by
    intro node reached
    refine Avoiding.of_unmarked hasEdges.sEdges_symm isNew ?_ reached
    intro before root after same reaches
    have notBefore : cur ∉ before := fun isIn => isNew (same ▸ List.mem_append_left _ isIn)
    rw [searched.symm]
    exact (searched.row_iff before root after same cur notBefore).2 reaches
  refine ⟨row.symm, ?_, ?_⟩
  · intro before root after same node notBefore
    rcases List.eq_nil_or_concat after with rfl | ⟨after, last, rfl⟩
    · rcases List.append_inj' same rfl with ⟨rfl, isCur⟩
      rcases List.cons.inj isCur with ⟨rfl, -⟩
      rw [marks, searched.other cur node isNew notBefore]
      constructor
      · rintro (isTrue | reached)
        · exact nomatch isTrue
        · exact avoids reached
      · intro reached
        refine .inr (Relation.TransGen.mono (fun source target step => ?_) _ _ reached)
        exact ⟨step.1, searched.other cur target isNew step.2⟩
    · rw [List.concat_eq_append, ← List.cons_append, ← List.append_assoc] at same
      rcases List.append_inj' same rfl with ⟨isFormer, -⟩
      have notRoot : root ≠ cur := by
        rintro rfl
        exact isNew (isFormer ▸ List.mem_append_right _ List.mem_cons_self)
      rw [← searched.row_iff before root after isFormer node notBefore]
      by_cases isCur : node = cur
      · subst isCur
        rw [row.symm, marks, searched.symm]
        refine or_iff_left_of_imp fun reached => ?_
        have outside := Avoiding.not_mem (avoids reached)
        exact absurd (isFormer ▸ List.mem_append_right _ List.mem_cons_self) outside
      · rw [row.other root node notRoot isCur]
  · intro left right notLeft notRight
    rw [List.mem_append, List.mem_singleton, not_or] at notLeft notRight
    rw [row.other left right notLeft.2 notRight.2]
    exact searched.other left right notLeft.1 notRight.1

/-! ## The order of the nodes -/

theorem precedes_total (left right : Var) : precedes left right ∨ precedes right left := by
  unfold precedes
  omega

theorem precedes_trans {left middle right : Var} (first : precedes left middle)
    (second : precedes middle right) : precedes left right := by
  unfold precedes at *
  omega

theorem precedes_antisymm {left right : Var} (forth : precedes left right)
    (back : precedes right left) : left = right := by
  unfold precedes at *
  have sameNo : left.varno = right.varno := by omega
  have sameAttno : left.varattno = right.varattno := by omega
  cases left
  cases right
  exact congrArg₂ Var.mk sameNo sameAttno

theorem compareEquiNode_le_zero_iff {left right : Var} :
    compareEquiNode left right ≤ 0 ↔ precedes left right := by
  unfold compareEquiNode precedes
  split_ifs <;> omega

theorem comparison_compareEquiNode (graph : EquiGraph) :
    Perm.Comparison fun left right =>
      compareEquiNode (graph.nodeVar left) (graph.nodeVar right) where
  results left right := by
    unfold compareEquiNode
    split_ifs <;> simp
  reversed left right := by
    unfold compareEquiNode
    split_ifs <;> omega
  trans left middle right := by
    simp only [compareEquiNode_le_zero_iff]
    exact precedes_trans

theorem sorts_sorted (graph : EquiGraph) :
    Perm.Sorts (fun left right => compareEquiNode (graph.nodeVar left) (graph.nodeVar right)) true
      (List.range graph.length) graph.sorted :=
  Perm.sorts_sortList (comparison_compareEquiNode graph) true _

theorem mem_sorted_iff :
    node ∈ graph.sorted ↔ node < graph.length := by
  rw [(sorts_sorted graph).perm.mem_iff, List.mem_range]

theorem nodup_sorted (graph : EquiGraph) : graph.sorted.Nodup :=
  (sorts_sorted graph).perm.nodup_iff.2 List.nodup_range

theorem searched_staticPaths
    (hasEdges : graph.HasEdges equalities) :
    Searched graph graph.sorted graph.staticPaths := by
  have nodup := nodup_sorted graph
  unfold staticPaths
  generalize graph.sorted = former at nodup ⊢
  induction former using List.reverseRecOn with
  | nil => exact ⟨fun _ _ => rfl, fun before root after same => by simp at same, fun _ _ _ _ => rfl⟩
  | append_singleton former cur ih =>
    rw [List.nodup_append] at nodup
    rw [List.foldl_append]
    refine (ih nodup.1).search hasEdges fun isIn => ?_
    exact nodup.2.2 cur isIn cur (List.mem_singleton_self cur) rfl

/-! ## Connected columns -/

theorem pairwise_sorted (graph : EquiGraph) :
    graph.sorted.Pairwise fun left right =>
      precedes (graph.nodeVar left) (graph.nodeVar right) := by
  refine (sorts_sorted graph).ordered.imp fun {left right} notBefore => ?_
  have results := (comparison_compareEquiNode graph).results right left
  have reversed := (comparison_compareEquiNode graph).reversed right left
  rw [if_pos rfl] at notBefore
  rw [← compareEquiNode_le_zero_iff]
  omega

theorem HasEdges.not_mem_before_iff
    (hasEdges : graph.HasEdges equalities) {before after : List Nat} {root : Nat}
    (isSorted : graph.sorted = before ++ root :: after)
    (inRange : node < graph.length) :
    node ∉ before ↔ precedes (graph.nodeVar root) (graph.nodeVar node) := by
  have pairwise := pairwise_sorted graph
  have nodup := nodup_sorted graph
  have rootRange : root < graph.length :=
    mem_sorted_iff.1 (isSorted ▸ List.mem_append_right _ List.mem_cons_self)
  have isIn := mem_sorted_iff.2 inRange
  rw [isSorted] at pairwise nodup isIn
  rw [List.pairwise_append, List.pairwise_cons] at pairwise
  rw [List.nodup_append] at nodup
  constructor
  · intro notBefore
    rcases List.mem_cons.1 ((List.mem_append.1 isIn).resolve_left notBefore)
      with rfl | isAfter
    · exact (precedes_total _ _).elim id id
    · exact pairwise.2.1.1 node isAfter
  · intro follows isBefore
    have same := hasEdges.nodeVar_inj rootRange inRange
      (precedes_antisymm follows (pairwise.2.2 node isBefore root List.mem_cons_self))
    exact nodup.2.2 node isBefore root List.mem_cons_self same.symm

/-- A guaranteed equality with a column that does not precede `first`. -/
def GuaranteedAfter (equalities : List Equality) (first left right : Var) : Prop :=
  Guaranteed equalities left right ∧ precedes first right

theorem HasEdges.transGen_avoiding_iff
    (hasEdges : graph.HasEdges equalities) {before after : List Nat} {root : Nat}
    (isSorted : graph.sorted = before ++ root :: after) (inRange : node < graph.length) :
    Relation.TransGen (Avoiding graph.sEdges before) root node ↔
      Relation.TransGen (GuaranteedAfter equalities (graph.nodeVar root))
        (graph.nodeVar root) (graph.nodeVar node) := by
  have rootRange : root < graph.length :=
    mem_sorted_iff.1 (isSorted ▸ List.mem_append_right _ List.mem_cons_self)
  have step_iff : ∀ {source target}, source < graph.length → target < graph.length →
      (Avoiding graph.sEdges before source target ↔
        GuaranteedAfter equalities (graph.nodeVar root) (graph.nodeVar source)
          (graph.nodeVar target)) := by
    intro source target sourceRange targetRange
    rw [Avoiding, hasEdges.sEdges_iff, hasEdges.not_mem_before_iff isSorted targetRange,
      GuaranteedAfter]
    simp [sourceRange, targetRange]
  constructor
  · refine Relation.TransGen.lift graph.nodeVar (fun source target step => ?_) root node
    rcases (hasEdges.sEdges_iff _ _).1 step.1 with ⟨sourceRange, targetRange, -⟩
    exact (step_iff sourceRange targetRange).1 step
  · have lift : ∀ var, Relation.TransGen
        (GuaranteedAfter equalities (graph.nodeVar root)) (graph.nodeVar root) var →
        ∃ found, found < graph.length ∧ graph.nodeVar found = var ∧
          Relation.TransGen (Avoiding graph.sEdges before) root found := by
      intro var reached
      induction reached with
      | single step =>
        rcases mem_map_nodeVar_iff.1
          (hasEdges.mem_of_isCompared _ step.1.isCompared.2) with ⟨found, range, rfl⟩
        exact ⟨found, range, rfl, .single ((step_iff rootRange range).2 step)⟩
      | tail _ step ih =>
        rcases ih with ⟨last, lastRange, rfl, reached⟩
        rcases mem_map_nodeVar_iff.1
          (hasEdges.mem_of_isCompared _ step.1.isCompared.2) with ⟨found, range, rfl⟩
        exact ⟨found, range, rfl, reached.tail ((step_iff lastRange range).2 step)⟩
    intro reached
    rcases lift _ reached with ⟨found, range, same, reached⟩
    exact hasEdges.nodeVar_inj range inRange same ▸ reached

/-- Which columns are marked as connected. -/
theorem HasEdges.staticPaths_iff
    (hasEdges : graph.HasEdges equalities) {left right : Nat} (leftRange : left < graph.length)
    (rightRange : right < graph.length)
    (inOrder : precedes (graph.nodeVar left) (graph.nodeVar right)) :
    graph.staticPaths left right = true ↔
      Relation.TransGen (GuaranteedAfter equalities (graph.nodeVar left))
        (graph.nodeVar left) (graph.nodeVar right) := by
  rcases List.append_of_mem (mem_sorted_iff.2 leftRange) with ⟨before, after, isSorted⟩
  rw [(searched_staticPaths hasEdges).row_iff before left after isSorted right
    ((hasEdges.not_mem_before_iff isSorted rightRange).2 inOrder)]
  exact hasEdges.transGen_avoiding_iff isSorted rightRange

end EquiGraph

/-!
## Paths with optional equalities

The path search keeps a node that it enters by a static edge marked when it
returns from the node.  If the search can come to such a node by one path
only, the search finds every simple path.
-/

variable {step : Nat × Bool} {cur : Nat} {search result : PathSearch} {path : List (Nat × Bool)}
  {visited : List Nat} {eqPath : List Var} {found : List (List (Nat × Bool))}

/-- The nodes of a path that are entered by an edge which is not static. -/
def enteredOptionally {Node : Type} (path : List (Node × Bool)) : List Node :=
  (path.filter fun step => !step.2).map Prod.fst

theorem enteredOptionally_namePath {Node Name : Type} (name : Node → Name)
    (path : List (Node × Bool)) :
    enteredOptionally (GraphSearch.namePath name path) = (enteredOptionally path).map name := by
  simp [enteredOptionally, GraphSearch.namePath, List.filter_map, Function.comp_def]

namespace EquiGraph

open GraphSearch

/-- The edges of a node in the order of the search. -/
def steps (graph : EquiGraph) (node : Nat) : List (Nat × Bool) :=
  (graph.sEdges node).map (fun next => (next, true)) ++
    (graph.nsEdges node).map fun next => (next, false)

theorem mem_steps_iff {graph : EquiGraph} {node : Nat} :
    step ∈ graph.steps node ↔
      (step.2 = true ∧ step.1 ∈ graph.sEdges node) ∨
        (step.2 = false ∧ step.1 ∈ graph.nsEdges node) := by
  rcases step with ⟨next, isStatic⟩
  cases isStatic <;> simp [steps]

section Search

variable (graph : EquiGraph) (start target : Nat)

/-- The search in the children of a node, over both kinds of edges. -/
def searchChildren (fuel : Nat) (eqPath : List Var) (rest : List (Nat × Bool))
    (search : PathSearch) : PathSearch :=
  rest.foldl
    (fun search step =>
      addEqualityForNonStaticPaths graph start target fuel step.1 eqPath step.2 search)
    search

/-- The path of a search, with the node it is at. -/
def pathTo (cur : Nat) (edgeIsStatic : Bool) (eqPath : List Var) : List Var :=
  if cur ≠ start && !edgeIsStatic then eqPath ++ [graph.nodeVar cur] else eqPath

/-- The condition for a path. -/
def equalIncl (eqPath : List Var) (path : List (Nat × Bool)) : InclusionCond Var :=
  .equal (graph.nodeVar start) (eqPath ++ (enteredOptionally path).map graph.nodeVar)

variable {graph start target}

theorem addEquality_of_seen (isSeen : search.haveSeen cur = true)
    (fuel : Nat) (eqPath : List Var) (edgeIsStatic : Bool) :
    addEqualityForNonStaticPaths graph start target fuel cur eqPath edgeIsStatic
      search = search := by
  cases fuel with
  | zero => rfl
  | succ fuel => simp [addEqualityForNonStaticPaths, isSeen]

theorem addEquality_target (notSeen : search.haveSeen target = false)
    (fuel : Nat) (eqPath : List Var) (edgeIsStatic : Bool) :
    addEqualityForNonStaticPaths graph start target (fuel + 1) target eqPath
        edgeIsStatic search =
      { search with inclConds := search.inclConds ++
          [.equal (graph.nodeVar start) (graph.pathTo start target edgeIsStatic eqPath)] } := by
  have same : Function.update search.haveSeen target false = search.haveSeen := by
    rw [← notSeen, Function.update_eq_self]
  simp [addEqualityForNonStaticPaths, notSeen, pathTo, same]

theorem addEquality_of_ne (notTarget : cur ≠ target)
    (notSeen : search.haveSeen cur = false) (fuel : Nat) (eqPath : List Var) (edgeIsStatic : Bool) :
    addEqualityForNonStaticPaths graph start target (fuel + 1) cur eqPath
        edgeIsStatic search =
      let result := searchChildren graph start target fuel
        (graph.pathTo start cur edgeIsStatic eqPath) (graph.steps cur)
        { search with haveSeen := Function.update search.haveSeen cur true }
      if cur ≠ start && !edgeIsStatic then
        { result with haveSeen := Function.update result.haveSeen cur false }
      else result := by
  simp only [addEqualityForNonStaticPaths, notSeen, notTarget, if_false,
    searchChildren, steps, List.foldl_append, List.foldl_map, pathTo, Bool.false_eq_true]

/-- A path to a node that stays marked, which does not visit the target. -/
def EnteredStatically (graph : EquiGraph) (start target : Nat)
    (path : List (Nat × Bool)) (node : Nat) : Prop :=
  SimplePath (Listed graph.steps) start path node ∧
    target ∉ start :: path.map Prod.fst ∧ ∀ step ∈ path.getLast?, step.2 = true

/-- A node that stays marked has no other path. -/
def UniqueStaticEntry (graph : EquiGraph) (start target : Nat) : Prop :=
  ∀ node path other,
    EnteredStatically graph start target path node → node ≠ start →
    SimplePath (Listed graph.steps) start other node →
    target ∉ start :: other.map Prod.fst → path = other

/-- The marks of a search that has come to `cur` by `path`. -/
structure AtNode (graph : EquiGraph) (start target : Nat)
    (path : List (Nat × Bool)) (cur : Nat) (visited : List Nat) : Prop where
  simple : SimplePath (Listed graph.steps) start path cur
  avoids : target ∈ visited → cur = target
  visited_iff : ∀ node, node ∈ visited ↔ node ∈ start :: path.map Prod.fst

/-- Every mark is on the path or belongs to a path that is done. -/
def MarksFrom (graph : EquiGraph) (start target : Nat) (visited : List Nat)
    (isOpen : List (Nat × Bool) → Prop) (haveSeen : Nat → Bool) : Prop :=
  ∀ node, haveSeen node = true → node ∈ visited ∨
    ∃ path, EnteredStatically graph start target path node ∧ ¬ isOpen path

/-- What a search below `path` adds. -/
structure Outcome (graph : EquiGraph) (start target : Nat)
    (path : List (Nat × Bool)) (eqPath : List Var)
    (found : List (List (Nat × Bool))) (search result : PathSearch) : Prop where
  inclConds_eq : result.inclConds = search.inclConds ++ found.map (graph.equalIncl start eqPath)
  kept : ∀ node, search.haveSeen node = true → result.haveSeen node = true
  new : ∀ node, result.haveSeen node = true → search.haveSeen node = true ∨
    ∃ below, EnteredStatically graph start target below node ∧ path <+: below

/-- The search from `cur` finds the simple paths. -/
def SearchFinds (graph : EquiGraph) (start target fuel : Nat) : Prop :=
  ∀ path cur visited edgeIsStatic eqPath search,
    AtNode graph start target path cur visited →
    (∀ step ∈ path.getLast?, step.2 = edgeIsStatic) →
    search.haveSeen cur = false →
    (∀ node ∈ visited, node ≠ cur → search.haveSeen node = true) →
    MarksFrom graph start target visited (path <+: ·) search.haveSeen →
    Outcome graph start target path (graph.pathTo start cur edgeIsStatic eqPath)
      (simplePaths graph.steps target fuel visited cur) search
      (addEqualityForNonStaticPaths graph start target fuel cur eqPath edgeIsStatic search)

theorem AtNode.child
    (atNode : AtNode graph start target path cur visited) (notTarget : cur ≠ target)
    (isStep : step ∈ graph.steps cur) (notVisited : step.1 ∉ visited) :
    AtNode graph start target (path ++ [step]) step.1 (step.1 :: visited) := by
  refine ⟨⟨?_, ?_⟩, ?_, ?_⟩
  · exact walk_append_iff.2 ⟨cur, atNode.simple.1, isStep, rfl⟩
  · have isNew := mt (atNode.visited_iff step.1).2 notVisited
    rw [List.map_append, ← List.cons_append]
    exact atNode.simple.2.append (List.nodup_singleton _) (by simpa using isNew)
  · intro isIn
    rcases List.mem_cons.1 isIn with same | isIn
    · exact same.symm
    · exact absurd (atNode.avoids isIn) notTarget
  · intro node
    rw [List.mem_cons, atNode.visited_iff, List.map_append, ← List.cons_append,
      List.mem_append, or_comm]
    simp

/-- A marked child is on the path. -/
theorem AtNode.mem_visited_of_seen (unique : UniqueStaticEntry graph start target)
    (atNode : AtNode graph start target path cur visited) (notTarget : cur ≠ target)
    (isStep : step ∈ graph.steps cur)
    (fromPaths : step.1 ∈ visited ∨ ∃ other,
      EnteredStatically graph start target other step.1 ∧ ¬ (path ++ [step]) <+: other) :
    step.1 ∈ visited := by
  by_contra notVisited
  rcases fromPaths with isVisited | ⟨other, entered, notBelow⟩
  · exact notVisited isVisited
  · have child := atNode.child notTarget isStep notVisited
    have notStart : step.1 ≠ start := by
      rintro same
      exact notVisited ((atNode.visited_iff _).2 (same ▸ List.mem_cons_self))
    have otherAvoids := entered.2.1
    have childAvoids : target ∉ start :: (path ++ [step]).map Prod.fst := by
      intro isIn
      have same := child.avoids ((child.visited_iff _).2 isIn)
      exact otherAvoids (same ▸ mem_of_walk entered.1.1)
    have same := unique step.1 other (path ++ [step]) entered notStart child.simple childAvoids
    exact notBelow (same ▸ List.prefix_rfl)

theorem equalIncl_step (notStart : step.1 ≠ start) (eqPath : List Var)
    (path : List (Nat × Bool)) :
    graph.equalIncl start (graph.pathTo start step.1 step.2 eqPath) path =
      graph.equalIncl start eqPath (step :: path) := by
  rcases step with ⟨next, isStatic⟩
  cases isStatic <;> simp_all [equalIncl, pathTo, enteredOptionally]

theorem MarksFrom.mono {isOpen stillOpen : List (Nat × Bool) → Prop}
    {haveSeen : Nat → Bool} (marks : MarksFrom graph start target visited isOpen haveSeen)
    (fewer : ∀ path, stillOpen path → isOpen path) :
    MarksFrom graph start target visited stillOpen haveSeen := by
  intro node isSeen
  refine (marks node isSeen).imp_right ?_
  rintro ⟨path, entered, notOpen⟩
  exact ⟨path, entered, fun isOpen => notOpen (fewer path isOpen)⟩

/-- The marks after a search below `path`, if no open path is below it. -/
theorem Outcome.marks
    (outcome : Outcome graph start target path eqPath found search result)
    {isOpen : List (Nat × Bool) → Prop}
    (marks : MarksFrom graph start target visited isOpen search.haveSeen)
    (notBelow : ∀ below, path <+: below → ¬ isOpen below) :
    MarksFrom graph start target visited isOpen result.haveSeen := by
  intro node isSeen
  rcases outcome.new node isSeen with isSeen | ⟨below, entered, isBelow⟩
  · exact marks node isSeen
  · exact .inr ⟨below, entered, notBelow below isBelow⟩

theorem Outcome.trans
    {further : List (List (Nat × Bool))} {middle : PathSearch}
    (first : Outcome graph start target path eqPath found search middle)
    (second : Outcome graph start target path eqPath further middle result) :
    Outcome graph start target path eqPath (found ++ further) search result := by
  refine ⟨?_, fun node isSeen => second.kept node (first.kept node isSeen), ?_⟩
  · rw [second.inclConds_eq, first.inclConds_eq, List.map_append, List.append_assoc]
  · intro node isSeen
    rcases second.new node isSeen with isSeen | isNew
    · exact first.new node isSeen
    · exact .inr isNew

/-- The search below a child is a search below the node. -/
theorem Outcome.ofChild (notStart : step.1 ≠ start)
    (outcome : Outcome graph start target (path ++ [step])
      (graph.pathTo start step.1 step.2 eqPath) found search result) :
    Outcome graph start target path eqPath (found.map (step :: ·)) search result := by
  refine ⟨?_, outcome.kept, ?_⟩
  · rw [outcome.inclConds_eq, List.map_map]
    exact congrArg _ (List.map_congr_left fun below _ =>
      equalIncl_step notStart eqPath below)
  · intro node isSeen
    refine (outcome.new node isSeen).imp_right ?_
    rintro ⟨below, entered, isBelow⟩
    exact ⟨below, entered, (List.prefix_append path [step]).trans isBelow⟩

theorem eq_of_concat_initial {below : List (Nat × Bool)} {left right : Nat × Bool}
    (isLeft : (path ++ [left]) <+: below) (isRight : (path ++ [right]) <+: below) :
    left = right := by
  have same := (List.prefix_of_prefix_length_le isLeft isRight (by simp)).eq_of_length (by simp)
  simpa using same

/-- The loop over the edges of a node. -/
theorem searchChildren_finds (unique : UniqueStaticEntry graph start target) {fuel : Nat}
    (finds : SearchFinds graph start target fuel) {path : List (Nat × Bool)} {cur : Nat}
    {visited : List Nat} (atNode : AtNode graph start target path cur visited)
    (notTarget : cur ≠ target) (eqPath : List Var) {rest : List (Nat × Bool)}
    (subset : rest ⊆ graph.steps cur) (nodup : rest.Nodup) {search : PathSearch}
    (seen : ∀ node ∈ visited, search.haveSeen node = true)
    (marks : MarksFrom graph start target visited
      (fun other => ∃ step ∈ rest, (path ++ [step]) <+: other) search.haveSeen) :
    Outcome graph start target path eqPath
      (rest.flatMap fun step =>
        if step.1 ∈ visited then []
        else (simplePaths graph.steps target fuel (step.1 :: visited) step.1).map (step :: ·))
      search (searchChildren graph start target fuel eqPath rest search) := by
  induction rest generalizing search with
  | nil =>
    exact ⟨by simp [searchChildren], fun _ isSeen => isSeen, fun _ isSeen => .inl isSeen⟩
  | cons step rest ih =>
    rcases List.cons_subset.1 subset with ⟨isStep, subset⟩
    rcases List.nodup_cons.1 nodup with ⟨notIn, nodup⟩
    have restMarks : MarksFrom graph start target visited
        (fun other => ∃ step ∈ rest, (path ++ [step]) <+: other) search.haveSeen :=
      marks.mono fun _ ⟨other, isIn, below⟩ =>
        ⟨other, List.mem_cons_of_mem _ isIn, below⟩
    have stepMarks : MarksFrom graph start target visited
        ((path ++ [step]) <+: ·) search.haveSeen :=
      marks.mono fun _ below => ⟨step, List.mem_cons_self, below⟩
    rw [searchChildren, List.foldl_cons, List.flatMap_cons]
    by_cases isSeen : search.haveSeen step.1 = true
    · have isVisited := atNode.mem_visited_of_seen unique notTarget isStep
        (stepMarks step.1 isSeen)
      rw [addEquality_of_seen isSeen, if_pos isVisited, List.nil_append]
      exact ih subset nodup seen restMarks
    · have notVisited : step.1 ∉ visited := fun isVisited =>
        isSeen (seen _ isVisited)
      have notStart : step.1 ≠ start := fun same =>
        notVisited ((atNode.visited_iff _).2 (same ▸ List.mem_cons_self))
      have outcome := finds (path ++ [step]) step.1 (step.1 :: visited) step.2 eqPath
        search (atNode.child notTarget isStep notVisited) (by simp)
        (by simpa using isSeen)
        (fun node isIn notStep =>
          seen node ((List.mem_cons.1 isIn).resolve_left notStep))
        (fun node isSeen => (stepMarks node isSeen).imp_left (List.mem_cons_of_mem _))
      rw [if_neg notVisited]
      refine (outcome.ofChild notStart).trans ?_
      refine ih subset nodup (fun node isIn => outcome.kept node (seen node isIn))
        (outcome.marks restMarks ?_)
      rintro below isBelow ⟨other, isIn, otherBelow⟩
      exact notIn (eq_of_concat_initial isBelow otherBelow ▸ isIn)

/-- The node itself stays marked if it was entered by a static edge. -/
theorem AtNode.outcome
    (atNode : AtNode graph start target path cur visited) (notTarget : cur ≠ target)
    {edgeIsStatic : Bool} (isLast : ∀ step ∈ path.getLast?, step.2 = edgeIsStatic)
    (notSeen : search.haveSeen cur = false)
    (children : Outcome graph start target path eqPath found
      { search with haveSeen := Function.update search.haveSeen cur true } result) :
    Outcome graph start target path eqPath found search
      (if cur ≠ start && !edgeIsStatic then
        { result with haveSeen := Function.update result.haveSeen cur false }
      else result) := by
  have kept : ∀ node, search.haveSeen node = true → node ≠ cur ∧ result.haveSeen node = true := by
    intro node isSeen
    have different : node ≠ cur := by
      rintro rfl
      rw [notSeen] at isSeen
      exact nomatch isSeen
    refine ⟨different, children.kept node ?_⟩
    simpa [Function.update_of_ne different] using isSeen
  have new : ∀ node, node ≠ cur → result.haveSeen node = true →
      search.haveSeen node = true ∨ ∃ below,
        EnteredStatically graph start target below node ∧ path <+: below := by
    intro node different isSeen
    refine (children.new node isSeen).imp_left fun isSeen => ?_
    simpa [Function.update_of_ne different] using isSeen
  split_ifs with isOptional
  · refine ⟨children.inclConds_eq, ?_, ?_⟩
    · intro node isSeen
      simpa [Function.update_of_ne (kept node isSeen).1] using (kept node isSeen).2
    · intro node isSeen
      by_cases same : node = cur
      · simp [same] at isSeen
      · exact new node same (by simpa [Function.update_of_ne same] using isSeen)
  · refine ⟨children.inclConds_eq, fun node isSeen => (kept node isSeen).2, ?_⟩
    intro node isSeen
    by_cases same : node = cur
    · subst same
      refine .inr ⟨path, ⟨atNode.simple, ?_, ?_⟩, List.prefix_rfl⟩
      · exact fun isIn => notTarget (atNode.avoids ((atNode.visited_iff _).2 isIn))
      · intro step isIn
        cases edgeIsStatic with
        | true => exact isLast step isIn
        | false =>
          have isStart : node = start := by simpa using isOptional
          subst isStart
          rw [eq_nil_of_simplePath atNode.simple] at isIn
          exact nomatch isIn
    · exact new node same isSeen

/-- The search finds the simple paths to its target. -/
theorem searchFinds (unique : UniqueStaticEntry graph start target)
    (stepsNodup : ∀ node, (graph.steps node).Nodup)
    (fuel : Nat) : SearchFinds graph start target fuel := by
  induction fuel with
  | zero =>
    intro path cur visited edgeIsStatic eqPath search _ _ _ _ _
    exact ⟨by simp [addEqualityForNonStaticPaths, simplePaths], fun _ isSeen => isSeen,
      fun _ isSeen => .inl isSeen⟩
  | succ fuel ih =>
    intro path cur visited edgeIsStatic eqPath search atNode isLast notSeen seen marks
    unfold simplePaths
    by_cases isTarget : cur = target
    · subst isTarget
      rw [addEquality_target notSeen, if_pos rfl]
      exact ⟨by simp [equalIncl, enteredOptionally], fun _ isSeen => isSeen,
        fun _ isSeen => .inl isSeen⟩
    · have isVisited : cur ∈ visited := (atNode.visited_iff cur).2 (mem_of_walk atNode.simple.1)
      have children := @searchChildren_finds _ _ _ unique _ ih _ _ _
        atNode isTarget (graph.pathTo start cur edgeIsStatic eqPath) _
        (List.Subset.refl _) (stepsNodup cur)
        { search with haveSeen := Function.update search.haveSeen cur true }
        (by
          intro node isIn
          by_cases same : node = cur
          · simp [same]
          · simpa [Function.update_of_ne same] using seen node isIn same)
        (by
          intro node isSeen
          by_cases same : node = cur
          · exact .inl (same ▸ isVisited)
          · refine (marks node (by simpa [Function.update_of_ne same] using isSeen)).imp_right ?_
            rintro ⟨other, entered, notBelow⟩
            refine ⟨other, entered, ?_⟩
            rintro ⟨step, -, below⟩
            exact notBelow ((List.prefix_append path [step]).trans below))
      rw [addEquality_of_ne isTarget notSeen, if_neg isTarget]
      dsimp only
      refine atNode.outcome isTarget isLast notSeen children

/-- Every search adds equality conditions, if it can come to its target. -/
theorem inclConds_sound (fuel : Nat) :
    ∀ (cur : Nat) (eqPath : List Var) (edgeIsStatic : Bool) (search : PathSearch),
      ∃ further,
        (addEqualityForNonStaticPaths graph start target fuel cur eqPath edgeIsStatic
          search).inclConds = search.inclConds ++ further ∧
        ∀ cond ∈ further,
          (∃ eqVars, cond = .equal (graph.nodeVar start) eqVars) ∧
            ∃ path, Walk (Listed graph.steps) cur path target := by
  induction fuel with
  | zero => exact fun _ _ _ search => ⟨[], by simp [addEqualityForNonStaticPaths]⟩
  | succ fuel ih =>
    intro cur eqPath edgeIsStatic search
    have children : ∀ (rest : List (Nat × Bool)) (eqPath : List Var)
        (search : PathSearch), rest ⊆ graph.steps cur →
        ∃ further,
          (searchChildren graph start target fuel eqPath rest search).inclConds =
            search.inclConds ++ further ∧
          ∀ cond ∈ further,
            (∃ eqVars, cond = .equal (graph.nodeVar start) eqVars) ∧
              ∃ path, Walk (Listed graph.steps) cur path target := by
      intro rest eqPath
      induction rest with
      | nil => exact fun search _ => ⟨[], by simp [searchChildren]⟩
      | cons step rest restHypothesis =>
        intro search subset
        rcases List.cons_subset.1 subset with ⟨isStep, subset⟩
        rcases ih step.1 eqPath step.2 search
          with ⟨first, isFirst, firstSound⟩
        rcases restHypothesis _ subset with ⟨second, isSecond, secondSound⟩
        refine ⟨first ++ second, ?_, List.forall_mem_append.2 ⟨?_, secondSound⟩⟩
        · rw [searchChildren, List.foldl_cons, ← List.append_assoc, ← isFirst]
          exact isSecond
        · intro cond isIn
          rcases firstSound cond isIn with ⟨isEqual, path, walk⟩
          exact ⟨isEqual, step :: path, isStep, walk⟩
    cases isSeen : search.haveSeen cur with
    | true => exact ⟨[], by simp [addEquality_of_seen isSeen]⟩
    | false =>
      by_cases isTarget : cur = target
      · subst isTarget
        rw [addEquality_target isSeen]
        refine ⟨_, rfl, List.forall_mem_singleton.2 ⟨⟨_, rfl⟩, [], rfl⟩⟩
      · rw [addEquality_of_ne isTarget isSeen]
        dsimp only
        split_ifs
        · exact children _ _ _ (List.Subset.refl _)
        · exact children _ _ _ (List.Subset.refl _)

/-- The conditions found by the search from `start`. -/
theorem inclConds_addEquality (stepsNodup : ∀ node, (graph.steps node).Nodup)
    (unique : ∀ path, Walk (Listed graph.steps) start path target →
      UniqueStaticEntry graph start target)
    (fuel : Nat) :
    (addEqualityForNonStaticPaths graph start target fuel start [] true
      { haveSeen := fun _ => false, inclConds := [] }).inclConds =
      (simplePaths graph.steps target fuel [start] start).map (graph.equalIncl start []) := by
  by_cases reachable : ∃ path, Walk (Listed graph.steps) start path target
  · rcases reachable with ⟨path, walk⟩
    have outcome := searchFinds (unique path walk) stepsNodup fuel [] start [start] true []
      { haveSeen := fun _ => false, inclConds := [] }
      ⟨⟨rfl, List.nodup_singleton _⟩, fun isIn => (List.mem_singleton.1 isIn).symm,
        fun _ => Iff.rfl⟩
      (by simp) rfl
      (fun node isIn notStart => absurd (List.mem_singleton.1 isIn) notStart)
      (fun _ isSeen => nomatch isSeen)
    simpa [pathTo] using outcome.inclConds_eq
  · rw [not_exists] at reachable
    have none : simplePaths graph.steps target fuel [start] start = [] := by
      refine List.eq_nil_iff_forall_not_mem.2 fun path isIn => ?_
      exact reachable path ((mem_simplePaths fuel List.mem_cons_self).1 isIn).1
    rcases @inclConds_sound graph start target fuel start [] true
      { haveSeen := fun _ => false, inclConds := [] } with ⟨further, isFurther, sound⟩
    rw [isFurther, none, List.nil_append, List.map_nil]
    refine List.eq_nil_iff_forall_not_mem.2 fun cond isIn => ?_
    rcases (sound cond isIn).2 with ⟨path, walk⟩
    exact reachable path walk

end Search

end EquiGraph

end Ldv.Copy
