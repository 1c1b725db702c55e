import Ldv.Copy.StaticPaths

/-!
# The closure of an equality graph

An inclusion in a column `x` gives an unconditional inclusion in every
column that is connected to `x` by guaranteed equalities, and otherwise one
condition for every simple path.

The closure of the code is exact if guaranteed connections exist in the
order of the searches and no column entered by a guaranteed equality can be
entered on two ways.
-/

namespace Ldv.Copy

open GraphSearch

/-- Equality of two columns in every row. -/
def GuaranteedReach (equalities : List Equality) : Var → Var → Prop :=
  Relation.ReflTransGen (Guaranteed equalities)

theorem guaranteedReach_symm {equalities : List Equality} {source target : Var}
    (reached : GuaranteedReach equalities source target) :
    GuaranteedReach equalities target source := by
  induction reached with
  | refl => exact .refl
  | tail _ step ih => exact .head step.symm ih

/-- An equality of columns, with the mark of the guaranteed ones. -/
def Edge (equalities : List Equality) (source : Var) (step : Var × Bool) : Prop :=
  match step with
  | (target, true) => Guaranteed equalities source target
  | (target, false) => Optional equalities source target

/-- The inclusions in `target` for an inclusion in `source`. -/
def ExpectedIncls (equalities : List Equality) (source target : Var)
    (incls : List (AttrInclusions Var)) : Prop :=
  (GuaranteedReach equalities source target →
    incls = [{ attr := target, inclConds := [.exists source] }]) ∧
  (¬ GuaranteedReach equalities source target →
    ∃ paths : List (List (Var × Bool)),
      paths.Nodup ∧
      (∀ path, path ∈ paths ↔ SimplePath (Edge equalities) source path target) ∧
      incls =
        if paths.isEmpty then []
        else
          [{ attr := target
             inclConds := paths.map fun path =>
               .equal source (enteredOptionally path) }])

/-- The inclusions added are the expected ones, for every pair of columns. -/
def ClosureExact (equalities : List Equality) : Prop :=
  ∃ added : Var → List (AttrInclusions Var),
    (∀ outAttrIncls,
      (EquiGraph.ofEqualities equalities).addCondForEquiGraph outAttrIncls =
        outAttrIncls ++ outAttrIncls.flatMap fun incl => added incl.attr) ∧
    ∀ source target,
      IsCompared equalities source → IsCompared equalities target →
      source ≠ target →
      ExpectedIncls equalities source target ((added source).filter fun incl => incl.attr = target)

/-- A guaranteed connection exists among the columns searched later. -/
def GuaranteedInOrder (equalities : List Equality) : Prop :=
  ∀ source target,
    GuaranteedReach equalities source target →
    EquiGraph.precedes source target →
    Relation.ReflTransGen (EquiGraph.GuaranteedAfter equalities source) source target

/--
A column that is entered by a guaranteed equality on a path which does not
visit the target is entered on this path only.
-/
def UniqueEntries (equalities : List Equality) : Prop :=
  ∀ source target,
    ¬ GuaranteedReach equalities source target →
    (∃ path, Walk (Edge equalities) source path target) →
    ∀ var path other,
      SimplePath (Edge equalities) source path var →
      target ∉ source :: path.map Prod.fst →
      (∀ step ∈ path.getLast?, step.2 = true) →
      var ≠ source →
      SimplePath (Edge equalities) source other var →
      target ∉ source :: other.map Prod.fst →
      path = other

namespace EquiGraph

section Graph

variable
  {graph : EquiGraph}
  {equalities : List Equality}

/-! ## Columns as names of nodes -/

theorem HasEdges.names (hasEdges : graph.HasEdges equalities) :
    Names (Listed graph.steps) (Edge equalities) graph.nodeVar (· < graph.length) := by
  refine ⟨fun left right leftRange rightRange => hasEdges.nodeVar_inj leftRange rightRange, ?_, ?_⟩
  · rintro source ⟨target, isStatic⟩ isStep
    rcases mem_steps_iff.1 isStep with ⟨isTrue, isEdge⟩ | ⟨isFalse, isEdge⟩
    · rcases (hasEdges.sEdges_iff _ _).1 isEdge with ⟨-, inRange, guaranteed⟩
      subst isTrue
      exact ⟨inRange, guaranteed⟩
    · rcases (hasEdges.nsEdges_iff _ _).1 isEdge with ⟨-, inRange, optional⟩
      subst isFalse
      exact ⟨inRange, optional⟩
  · rintro source sourceRange ⟨target, isStatic⟩ isEdge
    have node : ∀ {var}, IsCompared equalities var →
        ∃ node, node < graph.length ∧ graph.nodeVar node = var := fun compared =>
      mem_map_nodeVar_iff.1 (hasEdges.mem_of_isCompared _ compared)
    cases isStatic with
    | true =>
      rcases node (Guaranteed.isCompared isEdge).2 with ⟨found, inRange, rfl⟩
      exact ⟨(found, true), mem_steps_iff.2 (.inl ⟨rfl,
        (hasEdges.sEdges_iff _ _).2 ⟨sourceRange, inRange, isEdge⟩⟩), rfl⟩
    | false =>
      rcases node (Optional.isCompared isEdge).2 with ⟨found, inRange, rfl⟩
      exact ⟨(found, false), mem_steps_iff.2 (.inr ⟨rfl,
        (hasEdges.nsEdges_iff _ _).2 ⟨sourceRange, inRange, isEdge⟩⟩), rfl⟩

theorem HasEdges.steps_nodup (hasEdges : graph.HasEdges equalities) (node : Nat) :
    (graph.steps node).Nodup := by
  refine List.Nodup.append ?_ ?_ ?_
  · exact (hasEdges.sEdges_nodup node).map fun _ _ same => (Prod.mk.inj same).1
  · exact (hasEdges.nsEdges_nodup node).map fun _ _ same => (Prod.mk.inj same).1
  · intro step isLeft isRight
    rcases List.mem_map.1 isLeft with ⟨_, _, rfl⟩
    rcases List.mem_map.1 isRight with ⟨_, _, same⟩
    exact nomatch (Prod.mk.inj same).2

theorem HasEdges.uniqueStaticEntry (hasEdges : graph.HasEdges equalities)
    (unique : UniqueEntries equalities) {start target : Nat} (startRange : start < graph.length)
    (targetRange : target < graph.length)
    (notReached : ¬ GuaranteedReach equalities (graph.nodeVar start) (graph.nodeVar target))
    {path : List (Nat × Bool)} (walk : Walk (Listed graph.steps) start path target) :
    UniqueStaticEntry graph start target := by
  have names := hasEdges.names
  intro node left right entered notStart simple avoids
  have avoids_name : ∀ {path : List (Nat × Bool)} {node},
      Walk (Listed graph.steps) start path node →
      target ∉ start :: path.map Prod.fst →
      graph.nodeVar target ∉ graph.nodeVar start :: (namePath graph.nodeVar path).map Prod.fst := by
    intro path node walk avoids isIn
    rw [map_fst_namePath, ← List.map_cons] at isIn
    rcases List.mem_map.1 isIn with ⟨found, isIn, same⟩
    have inRange : found < graph.length := by
      rcases List.mem_cons.1 isIn with rfl | isIn
      · exact startRange
      · exact names.isNode_of_walk walk found isIn
    exact avoids (hasEdges.nodeVar_inj inRange targetRange same ▸ isIn)
  have nodeRange : node < graph.length := by
    rcases List.mem_cons.1 (mem_of_walk simple.1) with rfl | isIn
    · exact startRange
    · exact names.isNode_of_walk simple.1 node isIn
  refine names.namePath_inj entered.1.1 simple.1 ?_
  refine unique _ _ notReached ⟨_, names.walk_namePath walk⟩ (graph.nodeVar node) _ _
    ((names.simplePath_iff startRange nodeRange).2 ⟨left, entered.1, rfl⟩)
    (avoids_name entered.1.1 entered.2.1) ?_ ?_
    ((names.simplePath_iff startRange nodeRange).2 ⟨right, simple, rfl⟩)
    (avoids_name simple.1 avoids)
  · intro step isLast
    rw [namePath, List.getLast?_map] at isLast
    rcases Option.mem_map.1 isLast with ⟨found, isFound, rfl⟩
    exact entered.2.2 found isFound
  · exact fun same => notStart (hasEdges.nodeVar_inj nodeRange startRange same)

/-! ## Inclusions in one column -/

theorem equalIncl_nil (start : Nat) :
    graph.equalIncl start [] = fun path =>
      .equal (graph.nodeVar start) (enteredOptionally (namePath graph.nodeVar path)) := by
  funext path
  rw [equalIncl, enteredOptionally_namePath, List.nil_append]

theorem attr_of_mem_newAttrInclsAt {start node : Nat} {incl : AttrInclusions Var}
    (isIn : incl ∈ graph.newAttrInclsAt (graph.nodeVar start) start node) :
    incl.attr = graph.nodeVar node := by
  unfold newAttrInclsAt at isIn
  dsimp only at isIn
  split_ifs at isIn <;> simp_all

theorem HasEdges.getNodePos_eq (hasEdges : graph.HasEdges equalities) {start : Nat}
    (inRange : start < graph.length) :
    graph.getNodePos (graph.nodeVar start) = some start := by
  unfold getNodePos
  cases found : graph.sorted.find? fun node =>
      graph.nodeVar node = graph.nodeVar start with
  | none =>
    rw [List.find?_eq_none] at found
    simpa using found start (mem_sorted_iff.2 inRange)
  | some node =>
    have isIn := mem_sorted_iff.1 (List.mem_of_find?_eq_some found)
    have same := List.find?_some found
    rw [hasEdges.nodeVar_inj isIn inRange (by simpa using same)]

theorem HasEdges.filter_newAttrIncls (hasEdges : graph.HasEdges equalities) {start node : Nat}
    (startRange : start < graph.length) (nodeRange : node < graph.length) :
    ((graph.newAttrIncls (graph.nodeVar start)).filter fun incl =>
        incl.attr = graph.nodeVar node) =
      graph.newAttrInclsAt (graph.nodeVar start) start node := by
  have isFlat : graph.newAttrIncls (graph.nodeVar start) =
      graph.sorted.flatMap (graph.newAttrInclsAt (graph.nodeVar start) start) := by
    rw [newAttrIncls, hasEdges.getNodePos_eq startRange]
  have others : ∀ nodes : List Nat, node ∉ nodes → (∀ other ∈ nodes, other < graph.length) →
      (nodes.flatMap (graph.newAttrInclsAt (graph.nodeVar start) start)).filter
        (fun incl => incl.attr = graph.nodeVar node) = [] := by
    intro nodes notIn inRange
    refine List.filter_eq_nil_iff.2 fun incl isIn => ?_
    rcases List.mem_flatMap.1 isIn with ⟨other, isOther, isIncl⟩
    rw [attr_of_mem_newAttrInclsAt isIncl, decide_eq_true_eq]
    intro same
    exact notIn (hasEdges.nodeVar_inj (inRange other isOther) nodeRange same ▸ isOther)
  have nodup := nodup_sorted graph
  have inRange : ∀ other ∈ graph.sorted, other < graph.length := fun other => mem_sorted_iff.1
  rcases List.append_of_mem (mem_sorted_iff.2 nodeRange) with ⟨before, after, isSorted⟩
  rw [isSorted] at nodup inRange
  rw [List.forall_mem_append, List.forall_mem_cons] at inRange
  rw [List.nodup_append, List.nodup_cons] at nodup
  have notBefore : node ∉ before := fun isIn =>
    nodup.2.2 node isIn node List.mem_cons_self rfl
  rw [isFlat, isSorted, List.flatMap_append, List.flatMap_cons, List.filter_append,
    List.filter_append, others before notBefore inRange.1,
    others after nodup.2.1.1 inRange.2.2, List.nil_append, List.append_nil]
  exact List.filter_eq_self.2 fun incl isIn => by
    simpa using attr_of_mem_newAttrInclsAt isIn

/-- The conditions for a column that is not marked as connected. -/
theorem HasEdges.exists_paths (hasEdges : graph.HasEdges equalities)
    (unique : UniqueEntries equalities) {start node : Nat} (startRange : start < graph.length)
    (nodeRange : node < graph.length) (different : node ≠ start)
    (notMarked : graph.staticPaths start node = false)
    (notReached : ¬ GuaranteedReach equalities (graph.nodeVar start) (graph.nodeVar node)) :
    ∃ paths : List (List (Var × Bool)),
      paths.Nodup ∧
      (∀ path, path ∈ paths ↔
        SimplePath (Edge equalities) (graph.nodeVar start) path (graph.nodeVar node)) ∧
      graph.newAttrInclsAt (graph.nodeVar start) start node =
        if paths.isEmpty then []
        else
          [{ attr := graph.nodeVar node
             inclConds := paths.map fun path =>
               .equal (graph.nodeVar start) (enteredOptionally path) }] := by
  have names := hasEdges.names
  have conds := inclConds_addEquality hasEdges.steps_nodup
    (fun path walk => hasEdges.uniqueStaticEntry unique startRange nodeRange notReached
      walk) (graph.length + 1)
  have mem_iff : ∀ path,
      path ∈ simplePaths graph.steps node (graph.length + 1) [start] start ↔
        SimplePath (Listed graph.steps) start path node := by
    have inNodes : ∀ source, ∀ step ∈ graph.steps source,
        step.1 ∈ Finset.range graph.length := fun source step isStep =>
      Finset.mem_range.2 (names.forth source step isStep).1
    exact fun path => mem_simplePaths_iff inNodes (Finset.mem_range.2 startRange) (by simp)
  refine ⟨(simplePaths graph.steps node (graph.length + 1) [start] start).map
    (namePath graph.nodeVar), ?_, ?_, ?_⟩
  · refine List.Nodup.map_on ?_ (nodup_simplePaths hasEdges.steps_nodup _ _ _)
    intro left isLeft right isRight same
    exact names.namePath_inj ((mem_iff left).1 isLeft).1 ((mem_iff right).1 isRight).1 same
  · intro path
    rw [List.mem_map, names.simplePath_iff startRange nodeRange]
    exact exists_congr fun found => and_congr_left fun _ => mem_iff found
  · unfold newAttrInclsAt
    dsimp only
    rw [conds, equalIncl_nil]
    simp [notMarked, different, Function.comp_def]

/-- An inclusion that is expected of every marked column. -/
theorem newAttrInclsAt_of_marked {start node : Nat} (different : node ≠ start)
    (marked : graph.staticPaths start node = true) :
    graph.newAttrInclsAt (graph.nodeVar start) start node =
      [{ attr := graph.nodeVar node, inclConds := [.exists (graph.nodeVar start)] }] := by
  simp [newAttrInclsAt, different, marked]

/-- A column that is not marked has no unconditional inclusion. -/
theorem marked_of_exists {start node : Nat}
    (isExists : graph.newAttrInclsAt (graph.nodeVar start) start node =
      [{ attr := graph.nodeVar node, inclConds := [.exists (graph.nodeVar start)] }]) :
    graph.staticPaths start node = true := by
  by_contra notMarked
  rcases @inclConds_sound graph start node (graph.length + 1) start [] true
    { haveSeen := fun _ => false, inclConds := [] } with ⟨further, isFurther, sound⟩
  unfold newAttrInclsAt at isExists
  dsimp only at isExists
  rw [isFurther, List.nil_append] at isExists
  split_ifs at isExists with marked different nonempty
  · exact notMarked (by simpa using (Bool.and_eq_true _ _ ▸ marked).1)
  · injection isExists with isSame
    injection isSame with _ isConds
    subst isConds
    rcases (sound _ (List.mem_singleton_self _)).1 with ⟨eqVars, isEqual⟩
    exact nomatch isEqual

/-! ## Marked columns -/

theorem HasEdges.reach_of_marked (hasEdges : graph.HasEdges equalities) {left right : Nat}
    (leftRange : left < graph.length) (rightRange : right < graph.length)
    (marked : graph.staticPaths left right = true) :
    GuaranteedReach equalities (graph.nodeVar left) (graph.nodeVar right) := by
  wlog inOrder : precedes (graph.nodeVar left) (graph.nodeVar right) generalizing left right
  · rw [(searched_staticPaths hasEdges).symm] at marked
    exact guaranteedReach_symm
      (this rightRange leftRange marked ((precedes_total _ _).resolve_left inOrder))
  have reached := (hasEdges.staticPaths_iff leftRange rightRange inOrder).1 marked
  exact Relation.ReflTransGen.mono (fun _ _ step => step.1) _ _ reached.to_reflTransGen

theorem HasEdges.marked_of_reach (hasEdges : graph.HasEdges equalities)
    (guaranteedInOrder : GuaranteedInOrder equalities) {left right : Nat}
    (leftRange : left < graph.length) (rightRange : right < graph.length) (different : left ≠ right)
    (reached : GuaranteedReach equalities (graph.nodeVar left) (graph.nodeVar right)) :
    graph.staticPaths left right = true := by
  wlog inOrder : precedes (graph.nodeVar left) (graph.nodeVar right) generalizing left right
  · rw [(searched_staticPaths hasEdges).symm]
    exact this rightRange leftRange different.symm (guaranteedReach_symm reached)
      ((precedes_total _ _).resolve_left inOrder)
  refine (hasEdges.staticPaths_iff leftRange rightRange inOrder).2 ?_
  rcases Relation.reflTransGen_iff_eq_or_transGen.1
    (guaranteedInOrder _ _ reached inOrder) with same | reached
  · exact absurd (hasEdges.nodeVar_inj rightRange leftRange same) different.symm
  · exact reached

end Graph

end EquiGraph

open EquiGraph

/-! ## Exactness -/

variable {equalities : List Equality}

/-- What is added is determined by inclusions taken alone. -/
theorem closureExact_iff_newAttrIncls :
    ClosureExact equalities ↔
      ∀ source target,
        IsCompared equalities source → IsCompared equalities target →
        source ≠ target →
        ExpectedIncls equalities source target
          (((ofEqualities equalities).newAttrIncls source).filter fun incl =>
            incl.attr = target) := by
  constructor
  · rintro ⟨added, isAdded, expected⟩
    have same : (ofEqualities equalities).newAttrIncls = added := by
      funext source
      have single := isAdded [{ attr := source, inclConds := [] }]
      simpa [addCondForEquiGraph] using single
    rwa [same]
  · exact fun expected => ⟨_, fun _ => rfl, expected⟩

/-- The same over the nodes of the graph. -/
theorem closureExact_iff_newAttrInclsAt {graph : EquiGraph}
    (isGraph : ofEqualities equalities = graph) (hasEdges : graph.HasEdges equalities) :
    ClosureExact equalities ↔
      ∀ start node, start < graph.length → node < graph.length → node ≠ start →
        IsCompared equalities (graph.nodeVar start) →
        IsCompared equalities (graph.nodeVar node) →
        ExpectedIncls equalities (graph.nodeVar start) (graph.nodeVar node)
          (graph.newAttrInclsAt (graph.nodeVar start) start node) := by
  rw [closureExact_iff_newAttrIncls, isGraph]
  constructor
  · intro expected start node startRange nodeRange different startCompared nodeCompared
    have notSame : graph.nodeVar start ≠ graph.nodeVar node := fun same =>
      different (hasEdges.nodeVar_inj nodeRange startRange same.symm)
    rw [← hasEdges.filter_newAttrIncls startRange nodeRange]
    exact expected _ _ startCompared nodeCompared notSame
  · intro expected source target sourceCompared targetCompared different
    rcases mem_map_nodeVar_iff.1 (hasEdges.mem_of_isCompared _ sourceCompared)
      with ⟨start, startRange, rfl⟩
    rcases mem_map_nodeVar_iff.1 (hasEdges.mem_of_isCompared _ targetCompared)
      with ⟨node, nodeRange, rfl⟩
    rw [hasEdges.filter_newAttrIncls startRange nodeRange]
    refine expected start node startRange nodeRange ?_ sourceCompared targetCompared
    rintro rfl
    exact different rfl

theorem isCompared_of_reach {source target : Var}
    (different : source ≠ target) (reached : GuaranteedReach equalities source target) :
    IsCompared equalities source ∧ IsCompared equalities target := by
  rcases reached.cases_head with same | ⟨_, first, -⟩
  · exact absurd same different
  · rcases reached.cases_tail with same | ⟨_, -, last⟩
    · exact absurd same.symm different
    · exact ⟨first.isCompared.1, last.isCompared.2⟩

theorem guaranteedInOrder_of_closureExact (different : ∀ eq ∈ equalities, eq.left ≠ eq.right)
    (closureExact : ClosureExact equalities) :
    GuaranteedInOrder equalities := by
  intro source target reached inOrder
  by_cases same : source = target
  · exact same ▸ .refl
  · have hasEdges := hasEdges_ofEqualities different
    rcases isCompared_of_reach same reached with ⟨sourceCompared, targetCompared⟩
    rw [closureExact_iff_newAttrInclsAt rfl hasEdges] at closureExact
    rcases mem_map_nodeVar_iff.1 (hasEdges.mem_of_isCompared _ sourceCompared)
      with ⟨start, startRange, rfl⟩
    rcases mem_map_nodeVar_iff.1 (hasEdges.mem_of_isCompared _ targetCompared)
      with ⟨node, nodeRange, rfl⟩
    have notStart : node ≠ start := by
      rintro rfl
      exact same rfl
    have marked := marked_of_exists ((closureExact start node startRange nodeRange
      notStart sourceCompared targetCompared).1 reached)
    exact ((hasEdges.staticPaths_iff startRange nodeRange inOrder).1 marked).to_reflTransGen

/--
For equalities of different columns whose guaranteed entries are unique, the
closure is exact if and only if every guaranteed connection exists in the
order of the searches.
-/
theorem closureExact_iff (different : ∀ eq ∈ equalities, eq.left ≠ eq.right)
    (unique : UniqueEntries equalities) :
    ClosureExact equalities ↔ GuaranteedInOrder equalities := by
  constructor
  · exact guaranteedInOrder_of_closureExact different
  · intro inOrder
    have hasEdges := hasEdges_ofEqualities different
    rw [closureExact_iff_newAttrInclsAt rfl hasEdges]
    intro start node startRange nodeRange notStart _ _
    constructor
    · intro reached
      exact newAttrInclsAt_of_marked notStart
        (hasEdges.marked_of_reach inOrder startRange nodeRange notStart.symm reached)
    · intro notReached
      have notMarked : (ofEqualities equalities).staticPaths start node = false := by
        by_contra marked
        exact notReached (hasEdges.reach_of_marked startRange nodeRange (by simpa using marked))
      exact hasEdges.exists_paths unique startRange nodeRange notStart notMarked notReached

/-! ## Examples -/

/-- Two columns of `R` that are equal, one of which may be equal to a column of `S`. -/
def chainOfBothKinds : List Equality :=
  [⟨⟨1, 1⟩, ⟨1, 2⟩, false⟩, ⟨⟨1, 2⟩, ⟨2, 1⟩, true⟩]

/-- The steps along the chain. -/
def chainSteps : List (Var × Var × Bool) :=
  [(⟨1, 1⟩, ⟨1, 2⟩, true), (⟨1, 2⟩, ⟨1, 1⟩, true),
    (⟨1, 2⟩, ⟨2, 1⟩, false), (⟨2, 1⟩, ⟨1, 2⟩, false)]

theorem mem_chainSteps {source : Var} {step : Var × Bool}
    (isEdge : Edge chainOfBothKinds source step) : (source, step) ∈ chainSteps := by
  have compares : ∃ eq ∈ chainOfBothKinds, eq.useEqual = !step.2 ∧ eq.Compares source step.1 := by
    rcases step with ⟨target, _ | _⟩
    · exact isEdge.1
    · exact isEdge
  rcases compares with ⟨eq, member, isKind, ⟨rfl, isTarget⟩ | ⟨isTarget, rfl⟩⟩
  all_goals
    rw [← Prod.mk.eta (p := step), ← isTarget, ← Bool.not_not step.2, ← isKind]
    clear isKind isTarget isEdge
    revert eq
    decide

/-- The ways along the chain without a return. -/
def chainPaths : List (Var × List (Var × Bool) × Var) :=
  [(⟨1, 1⟩, [(⟨1, 2⟩, true)], ⟨1, 2⟩), (⟨1, 2⟩, [(⟨1, 1⟩, true)], ⟨1, 1⟩),
    (⟨1, 2⟩, [(⟨2, 1⟩, false)], ⟨2, 1⟩), (⟨2, 1⟩, [(⟨1, 2⟩, false)], ⟨1, 2⟩),
    (⟨1, 1⟩, [(⟨1, 2⟩, true), (⟨2, 1⟩, false)], ⟨2, 1⟩),
    (⟨2, 1⟩, [(⟨1, 2⟩, false), (⟨1, 1⟩, true)], ⟨1, 1⟩)]

theorem mem_chainPaths {source target : Var} {path : List (Var × Bool)}
    (simple : SimplePath (Edge chainOfBothKinds) source path target) (notSource : target ≠ source) :
    (source, path, target) ∈ chainPaths := by
  rcases simple with ⟨walk, nodup⟩
  rcases path with _ | ⟨first, _ | ⟨second, _ | ⟨third, rest⟩⟩⟩
  · exact absurd walk.symm notSource
  · rcases walk with ⟨isEdge, rfl⟩
    have single : ∀ step ∈ chainSteps, (step.1, [step.2], step.2.1) ∈ chainPaths := by decide
    exact single _ (mem_chainSteps isEdge)
  · rcases walk with ⟨isFirst, isSecond, rfl⟩
    have double : ∀ first ∈ chainSteps, ∀ second ∈ chainSteps, first.2.1 = second.1 →
        [first.1, first.2.1, second.2.1].Nodup →
        (first.1, [first.2, second.2], second.2.1) ∈ chainPaths := by decide
    exact double _ (mem_chainSteps isFirst) _ (mem_chainSteps isSecond) rfl nodup
  · rcases walk with ⟨isFirst, isSecond, isThird, -⟩
    have tooLong : ∀ first ∈ chainSteps, ∀ second ∈ chainSteps, ∀ third ∈ chainSteps,
        first.2.1 = second.1 → second.2.1 = third.1 →
        ¬ [first.1, first.2.1, second.2.1, third.2.1].Nodup := by decide
    have startNodup : [source, first.1, second.1, third.1].Nodup :=
      nodup.sublist (by simp)
    exact absurd startNodup (tooLong _ (mem_chainSteps isFirst) _ (mem_chainSteps isSecond) _
      (mem_chainSteps isThird) rfl rfl)

theorem uniqueEntries_chain : UniqueEntries chainOfBothKinds := by
  intro source target _ _ var path other simple _ _ notSource otherSimple _
  have unique : ∀ left ∈ chainPaths, ∀ right ∈ chainPaths, left.1 = right.1 →
      left.2.2 = right.2.2 → left.2.1 = right.2.1 := by decide
  exact unique _ (mem_chainPaths simple notSource) _ (mem_chainPaths otherSimple notSource) rfl rfl

theorem guaranteed_of_reach_chain {source target : Var}
    (reached : GuaranteedReach chainOfBothKinds source target) :
    target = source ∨ Guaranteed chainOfBothKinds source target := by
  induction reached with
  | refl => exact .inl rfl
  | tail _ isNext ih =>
    rcases ih with rfl | isFirst
    · exact .inr isNext
    · have returns : ∀ first ∈ chainSteps, ∀ second ∈ chainSteps, first.2.2 = true →
          second.2.2 = true → first.2.1 = second.1 → second.2.1 = first.1 := by decide
      exact .inl (returns (_, _, true) (mem_chainSteps isFirst) (_, _, true)
        (mem_chainSteps isNext) rfl rfl rfl)

theorem guaranteedInOrder_chain : GuaranteedInOrder chainOfBothKinds := by
  intro source target reached isAfter
  rcases guaranteed_of_reach_chain reached with rfl | guaranteed
  · exact .refl
  · exact .single ⟨guaranteed, isAfter⟩

/-- An inclusion in `R.b` gives one in `R.a`, and under a condition one in `S.a`. -/
theorem closureExact_chainOfBothKinds : ClosureExact chainOfBothKinds :=
  (closureExact_iff (by decide) uniqueEntries_chain).2 guaranteedInOrder_chain

/-- The condition `S.a = R.b AND S.a = R.c`, where `S` comes after `R`. -/
def starOfLaterEntry : List Equality :=
  [⟨⟨2, 1⟩, ⟨1, 1⟩, false⟩, ⟨⟨2, 1⟩, ⟨1, 2⟩, false⟩]

/-- The inclusion in `R.c` of an attribute in `R.b` is not unconditional. -/
theorem not_closureExact_starOfLaterEntry : ¬ ClosureExact starOfLaterEntry := by
  intro closureExact
  rw [closureExact_iff_newAttrIncls] at closureExact
  have reached : GuaranteedReach starOfLaterEntry ⟨1, 1⟩ ⟨1, 2⟩ :=
    .head ⟨_, List.mem_cons_self, rfl, .inr ⟨rfl, rfl⟩⟩
      (.single ⟨_, List.mem_cons_of_mem _ List.mem_cons_self, rfl, .inl ⟨rfl, rfl⟩⟩)
  have isExists := (closureExact ⟨1, 1⟩ ⟨1, 2⟩ (isCompared_of_reach (by decide) reached).1
    (isCompared_of_reach (by decide) reached).2 (by decide)).1 reached
  have isEqual : (((ofEqualities starOfLaterEntry).newAttrIncls ⟨1, 1⟩).filter
      fun incl => incl.attr = ⟨1, 2⟩) =
      [{ attr := ⟨1, 2⟩, inclConds := [.equal ⟨1, 1⟩ []] }] := rfl
  rw [isEqual] at isExists
  simp at isExists

end Ldv.Copy
