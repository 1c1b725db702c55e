import Mathlib.Data.Finset.Card

/-!
# Searches in finite graphs

`flood` is a depth-first search that marks the nodes it reaches and does
not go on at marked nodes.  It marks exactly the nodes that are reached
through nodes not marked before.

`simplePaths` enumerates the paths between two nodes which visit no node
twice, by backtracking.

Both recursions have a bound on their depth.  It suffices that the bound
exceeds the number of nodes which are not marked, or not visited.
-/

namespace GraphSearch

variable {Node Label : Type} [DecidableEq Node]

variable {marked : Node → Bool} {next node target source : Node} {nodes : Finset Node}
  {path : List (Node × Label)}

/-! ## Marking -/

section Flood

variable (edges : Node → List Node)

/-- Mark the nodes reached from `node` through nodes that are not marked. -/
def flood : Nat → Node → (Node → Bool) → Node → Bool
  | 0, _, marked => marked
  | fuel + 1, node, marked =>
    (edges node).foldl
      (fun marked next =>
        if marked next then marked
        else flood fuel next (Function.update marked next true))
      marked

/-- One step to a node that is not marked. -/
def Unmarked (marked : Node → Bool) (node next : Node) : Prop :=
  next ∈ edges node ∧ marked next = false

variable {edges}

theorem le_update
    (isMarked : marked node = true) :
    Function.update marked next true node = true := by
  by_cases same : node = next
  · rw [same, Function.update_self]
  · rw [Function.update_of_ne same, isMarked]

/-- Marks are kept. -/
theorem le_flood (fuel : Nat) :
    ∀ (node : Node) (marked : Node → Bool) (kept : Node),
      marked kept = true → flood edges fuel node marked kept = true := by
  induction fuel with
  | zero => exact fun _ _ _ isMarked => isMarked
  | succ fuel ih =>
    intro node marked kept isMarked
    unfold flood
    induction edges node generalizing marked with
    | nil => exact isMarked
    | cons next rest restHypothesis =>
      refine restHypothesis _ ?_
      dsimp only
      split_ifs
      · exact isMarked
      · exact ih _ _ _ (le_update isMarked)

omit [DecidableEq Node] in
theorem unmarked_of_le {larger : Node → Bool}
    (le : ∀ kept, marked kept = true → larger kept = true)
    (step : Unmarked edges larger node next) :
    Unmarked edges marked node next := by
  refine ⟨step.1, ?_⟩
  by_contra isMarked
  have := le next (by simpa using isMarked)
  rw [step.2] at this
  exact nomatch this

/-- Every new mark is on a node that is reached. -/
theorem reached_of_flood (fuel : Nat) :
    ∀ (node : Node) (marked : Node → Bool) (found : Node),
      flood edges fuel node marked found = true →
      marked found = true ∨ Relation.TransGen (Unmarked edges marked) node found := by
  induction fuel with
  | zero => exact fun _ _ _ isMarked => .inl isMarked
  | succ fuel ih =>
    intro node marked found isFound
    unfold flood at isFound
    have scan : ∀ (rest : List Node) (current : Node → Bool), rest ⊆ edges node →
        (∀ kept, marked kept = true → current kept = true) →
        (∀ seen, current seen = true → marked seen = true ∨
          Relation.TransGen (Unmarked edges marked) node seen) →
        rest.foldl (fun marked next => if marked next then marked
          else flood edges fuel next (Function.update marked next true)) current found = true →
        marked found = true ∨ Relation.TransGen (Unmarked edges marked) node found := by
      intro rest
      induction rest with
      | nil => exact fun _ _ _ sound isFound => sound found isFound
      | cons next rest restHypothesis =>
        intro current subset le sound isFound
        rcases List.cons_subset.1 subset with ⟨isEdge, subset⟩
        rw [List.foldl_cons] at isFound
        split_ifs at isFound with isMarked
        · exact restHypothesis current subset le sound isFound
        · have step : Unmarked edges marked node next :=
            unmarked_of_le le ⟨isEdge, by simpa using isMarked⟩
          refine restHypothesis _ subset ?_ ?_ isFound
          · exact fun kept isKept =>
              le_flood _ _ _ _ (le_update (le kept isKept))
          · intro seen isSeen
            rcases ih _ _ _ isSeen with isSeen | reached
            · by_cases same : seen = next
              · exact .inr (same ▸ .single step)
              · rw [Function.update_of_ne same] at isSeen
                exact sound seen isSeen
            · have further : ∀ source target,
                  Unmarked edges (Function.update current next true) source target →
                  Unmarked edges marked source target := fun _ _ =>
                unmarked_of_le fun kept isKept => le_update (le kept isKept)
              exact .inr (.head step (Relation.TransGen.mono further _ _ reached))
    exact scan _ _ (List.Subset.refl _) (fun _ isMarked => isMarked)
      (fun _ isMarked => .inl isMarked) isFound

/-- The nodes of a finite graph that are not marked. -/
def unmarked (nodes : Finset Node) (marked : Node → Bool) : Finset Node :=
  nodes.filter fun node => marked node = false

theorem card_unmarked_update
    (member : next ∈ nodes) (isUnmarked : marked next = false) :
    (unmarked nodes (Function.update marked next true)).card < (unmarked nodes marked).card := by
  refine Finset.card_lt_card (Finset.ssubset_iff_subset_ne.2 ⟨?_, ?_⟩)
  · intro node isIn
    rcases Finset.mem_filter.1 isIn with ⟨isNode, isUnmarked⟩
    refine Finset.mem_filter.2 ⟨isNode, ?_⟩
    by_contra isMarked
    rw [le_update (by simpa using isMarked)] at isUnmarked
    exact nomatch isUnmarked
  · intro same
    have isIn : next ∈ unmarked nodes marked := Finset.mem_filter.2 ⟨member, isUnmarked⟩
    rw [← same] at isIn
    simpa using (Finset.mem_filter.1 isIn).2

omit [DecidableEq Node] in
theorem card_unmarked_le {nodes : Finset Node} {marked larger : Node → Bool}
    (le : ∀ kept, marked kept = true → larger kept = true) :
    (unmarked nodes larger).card ≤ (unmarked nodes marked).card := by
  refine Finset.card_le_card fun node isIn => ?_
  rcases Finset.mem_filter.1 isIn with ⟨isNode, isUnmarked⟩
  refine Finset.mem_filter.2 ⟨isNode, ?_⟩
  by_contra isMarked
  rw [le node (by simpa using isMarked)] at isUnmarked
  exact nomatch isUnmarked

/-- The edges of the searched nodes lead to marked nodes. -/
theorem closed_flood (inNodes : ∀ node, ∀ next ∈ edges node, next ∈ nodes)
    (fuel : Nat) :
    ∀ (node : Node) (marked : Node → Bool),
      (unmarked nodes marked).card < fuel →
      ∀ source, source = node ∨
          (flood edges fuel node marked source = true ∧ marked source = false) →
        ∀ next ∈ edges source, flood edges fuel node marked next = true := by
  induction fuel with
  | zero => exact fun _ _ less => absurd less (Nat.not_lt_zero _)
  | succ fuel ih =>
    intro node marked enough source isSource next isEdge
    unfold flood at isSource ⊢
    have scan : ∀ (rest : List Node) (current : Node → Bool), rest ⊆ edges node →
        (∀ kept, marked kept = true → current kept = true) →
        (∀ next ∈ edges node, next ∈ rest ∨ current next = true) →
        (∀ source, current source = true → marked source = false →
          ∀ next ∈ edges source, current next = true) →
        let final := rest.foldl (fun marked next => if marked next then marked
          else flood edges fuel next (Function.update marked next true)) current
        (∀ next ∈ edges node, final next = true) ∧
          ∀ source, final source = true → marked source = false →
            ∀ next ∈ edges source, final next = true := by
      intro rest
      induction rest with
      | nil =>
        intro current _ _ visited closed
        exact ⟨fun next isEdge => (visited next isEdge).resolve_left (by simp), closed⟩
      | cons first rest restHypothesis =>
        intro current subset le visited closed
        rcases List.cons_subset.1 subset with ⟨isFirst, subset⟩
        rw [List.foldl_cons]
        split_ifs with isMarked
        · refine restHypothesis current subset le ?_ closed
          intro next isEdge
          rcases visited next isEdge with isIn | isSeen
          · rcases List.mem_cons.1 isIn with rfl | isIn
            · exact .inr isMarked
            · exact .inl isIn
          · exact .inr isSeen
        · have isUnmarked : current first = false := by simpa using isMarked
          have enough : (unmarked nodes (Function.update current first true)).card < fuel := by
            have := card_unmarked_update (inNodes node first isFirst) isUnmarked
            have := @card_unmarked_le Node nodes _ _ le
            omega
          have below := ih first (Function.update current first true) enough
          have grow : ∀ kept, Function.update current first true kept = true →
              flood edges fuel first (Function.update current first true) kept =
                true := fun kept isKept => le_flood _ _ _ _ isKept
          refine restHypothesis _ subset ?_ ?_ ?_
          · exact fun kept isKept => grow kept (le_update (le kept isKept))
          · intro next isEdge
            rcases visited next isEdge with isIn | isSeen
            · rcases List.mem_cons.1 isIn with rfl | isIn
              · exact .inr (grow _ (Function.update_self ..))
              · exact .inl isIn
            · exact .inr (grow _ (le_update isSeen))
          · intro source isSource isNew next isEdge
            by_cases isFirst : source = first
            · exact below source (.inl isFirst) next isEdge
            · by_cases isOld : current source = true
              · exact grow _ (le_update (closed source isOld isNew next isEdge))
              · refine below source (.inr ⟨isSource, ?_⟩) next isEdge
                rw [Function.update_of_ne isFirst]
                simpa using isOld
    have final := scan (edges node) marked (List.Subset.refl _)
      (fun _ isMarked => isMarked) (fun _ isEdge => .inl isEdge)
      (fun _ isMarked isNew => absurd isMarked (by simp [isNew]))
    rcases isSource with rfl | ⟨isSource, isNew⟩
    · exact final.1 next isEdge
    · exact final.2 source isSource isNew next isEdge

/-- The search marks exactly the nodes that are reached. -/
theorem flood_iff (inNodes : ∀ node, ∀ next ∈ edges node, next ∈ nodes)
    {fuel : Nat} (enough : (unmarked nodes marked).card < fuel)
    (found : Node) :
    flood edges fuel node marked found = true ↔
      marked found = true ∨ Relation.TransGen (Unmarked edges marked) node found := by
  constructor
  · exact reached_of_flood fuel node marked found
  · rintro (isMarked | reached)
    · exact le_flood fuel node marked found isMarked
    · have closed := closed_flood inNodes fuel node marked enough
      induction reached with
      | single step => exact closed node (.inl rfl) _ step.1
      | tail before step ih =>
        rename_i middle last
        have isNew : marked middle = false := by
          cases before with
          | single first => exact first.2
          | tail _ previous => exact previous.2
        exact closed middle (.inr ⟨ih, isNew⟩) _ step.1

omit [DecidableEq Node]

/-- One step to a node that is not among the nodes to avoid. -/
def Avoiding (edges : Node → List Node) (avoided : List Node)
    (node next : Node) : Prop :=
  next ∈ edges node ∧ next ∉ avoided

theorem Avoiding.not_mem {avoided : List Node}
    (reached : Relation.TransGen (Avoiding edges avoided) node next) :
    next ∉ avoided := by
  cases reached with
  | single step => exact step.2
  | tail _ step => exact step.2

theorem Avoiding.symm (edgesSymm : ∀ node, ∀ next ∈ edges node, node ∈ edges next)
    {avoided : List Node} (notAvoided : node ∉ avoided)
    (reached : Relation.TransGen (Avoiding edges avoided) node next) :
    Relation.TransGen (Avoiding edges avoided) next node := by
  induction reached with
  | single step => exact .single ⟨edgesSymm _ _ step.1, notAvoided⟩
  | tail before step ih =>
    exact .head ⟨edgesSymm _ _ step.1, Avoiding.not_mem before⟩ ih

/--
If every former root that reaches `node` without its own predecessors is
marked, a search from `node` does not come to a former root.
-/
theorem Avoiding.of_unmarked (edgesSymm : ∀ node, ∀ next ∈ edges node, node ∈ edges next)
    {former : List Node} (isNew : node ∉ former)
    (isMarked : ∀ before root after, former = before ++ root :: after →
      Relation.TransGen
      (Avoiding edges before) root node → marked root = true) (reached : Relation.TransGen
      (Unmarked edges marked) node next) :
    Relation.TransGen (Avoiding edges former) node next := by
  suffices both : Relation.TransGen
      (fun source target => Unmarked edges marked source target ∧ target ∉ former)
      node next from
    Relation.TransGen.mono (fun _ _ step => ⟨step.1.1, step.2⟩) _ _ both
  induction former using List.reverseRecOn generalizing next with
  | nil => exact Relation.TransGen.mono (fun _ _ step => ⟨step, List.not_mem_nil⟩) _ _ reached
  | append_singleton former root ih =>
    rw [List.mem_append, List.mem_singleton, not_or] at isNew
    have avoids : ∀ {next}, Relation.TransGen (Unmarked edges marked) node next →
        next ∉ former ++ [root] := by
      intro next reached
      have before := ih isNew.1
        (fun before root after same => isMarked before root (after ++ [_])
          (by rw [same, List.append_assoc, List.cons_append])) reached
      rw [List.mem_append, List.mem_singleton, not_or]
      constructor
      · cases before with
        | single step => exact step.2
        | tail _ step => exact step.2
      · rintro rfl
        have rootMarked := isMarked former next [] rfl
          (Avoiding.symm edgesSymm isNew.1
            (Relation.TransGen.mono (fun _ _ step => ⟨step.1.1, step.2⟩) _ _ before))
        have rootUnmarked : marked next = false := by
          cases reached with
          | single step => exact step.2
          | tail _ step => exact step.2
        rw [rootMarked] at rootUnmarked
        exact nomatch rootUnmarked
    induction reached with
    | single step => exact .single ⟨step, avoids (.single step)⟩
    | tail before step pathHypothesis =>
      exact pathHypothesis.tail ⟨step, avoids (before.tail step)⟩

end Flood

/-! ## Simple paths -/

section Paths

/-- A walk, as the nodes it enters with the labels of the edges. -/
def Walk (edge : Node → Node × Label → Prop) :
    Node → List (Node × Label) → Node → Prop
  | source, [], target => source = target
  | source, step :: rest, target =>
    edge source step ∧ Walk edge step.1 rest target

/-- A walk that does not visit a node twice. -/
def SimplePath (edge : Node → Node × Label → Prop) (source : Node)
    (path : List (Node × Label)) (target : Node) : Prop :=
  Walk edge source path target ∧ (source :: path.map Prod.fst).Nodup

/-- The edges of a graph that lists them. -/
def Listed (edges : Node → List (Node × Label)) (source : Node)
    (step : Node × Label) : Prop :=
  step ∈ edges source

variable (edges : Node → List (Node × Label))

/-- The simple paths from `node` to `target` outside of the visited nodes. -/
def simplePaths (target : Node) :
    Nat → List Node → Node → List (List (Node × Label))
  | 0, _, _ => []
  | fuel + 1, visited, node =>
    if node = target then [[]]
    else
      (edges node).flatMap fun step =>
        if step.1 ∈ visited then []
        else
          (simplePaths target fuel (step.1 :: visited) step.1).map (step :: ·)

variable {edges}

omit [DecidableEq Node] in
theorem mem_of_walk {edge : Node → Node × Label → Prop} :
    ∀ {path : List (Node × Label)} {source : Node},
      Walk edge source path target → target ∈ source :: path.map Prod.fst
  | [], _, walk => by simp [show _ = target from walk]
  | step :: rest, _, walk => by
    exact List.mem_cons_of_mem _ (mem_of_walk walk.2)

omit [DecidableEq Node] in
theorem walk_append_iff {edge : Node → Node × Label → Prop}
    {further : List (Node × Label)} :
    ∀ {path : List (Node × Label)} {source : Node},
      Walk edge source (path ++ further) target ↔
        ∃ middle, Walk edge source path middle ∧ Walk edge middle further target
  | [], source => by simp [Walk]
  | step :: rest, source => by
    have splitRest : Walk edge step.1 (rest ++ further) target ↔
        ∃ middle, Walk edge step.1 rest middle ∧
          Walk edge middle further target := walk_append_iff
    simp only [List.cons_append, Walk, splitRest, and_assoc, exists_and_left]

omit [DecidableEq Node] in
theorem eq_nil_of_simplePath {edge : Node → Node × Label → Prop}
    (simple : SimplePath edge source path source) :
    path = [] := by
  cases path with
  | nil => rfl
  | cons step rest =>
    exact absurd (mem_of_walk simple.1.2) (List.nodup_cons.1 simple.2).1

/-- The enumeration contains the paths shorter than the bound. -/
theorem mem_simplePaths (fuel : Nat) :
    ∀ {visited : List Node} {node : Node} {path : List (Node × Label)},
      node ∈ visited →
      (path ∈ simplePaths edges target fuel visited node ↔
        Walk (Listed edges) node path target ∧ (path.map Prod.fst).Nodup ∧
          (path.map Prod.fst).Disjoint visited ∧ path.length < fuel) := by
  induction fuel with
  | zero => intros; simp [simplePaths]
  | succ fuel ih =>
    intro visited node path isVisited
    unfold simplePaths
    split_ifs with isTarget
    · subst isTarget
      cases path with
      | nil => simp [Walk]
      | cons step rest =>
        simp only [List.mem_singleton, reduceCtorEq, false_iff]
        rintro ⟨walk, -, disjoint, -⟩
        exact disjoint (mem_of_walk walk.2) isVisited
    · cases path with
      | nil => simp [Walk, isTarget]
      | cons step rest =>
        simp only [List.mem_flatMap]
        constructor
        · rintro ⟨first, isEdge, isPath⟩
          split_ifs at isPath with seen
          · exact nomatch isPath
          · rcases List.mem_map.1 isPath with ⟨further, isFurther, same⟩
            rcases List.cons.inj same with ⟨rfl, rfl⟩
            rcases (ih List.mem_cons_self).1 isFurther
              with ⟨walk, nodup, disjoint, short⟩
            rw [List.disjoint_cons_right] at disjoint
            refine ⟨⟨isEdge, walk⟩, ?_, ?_, ?_⟩
            · exact List.nodup_cons.2 ⟨disjoint.1, nodup⟩
            · exact List.disjoint_cons_left.2 ⟨seen, disjoint.2⟩
            · simpa using short
        · rintro ⟨⟨isEdge, walk⟩, nodup, disjoint, short⟩
          rw [List.map_cons, List.disjoint_cons_left] at disjoint
          rw [List.map_cons, List.nodup_cons] at nodup
          refine ⟨step, isEdge, ?_⟩
          rw [if_neg disjoint.1]
          refine List.mem_map.2 ⟨rest, ?_, rfl⟩
          refine (ih List.mem_cons_self).2 ⟨walk, nodup.2, ?_, by simpa using short⟩
          exact List.disjoint_cons_right.2 ⟨nodup.1, disjoint.2⟩

/-- No path is enumerated twice. -/
theorem nodup_simplePaths (edgesNodup : ∀ node, (edges node).Nodup) (fuel : Nat) :
    ∀ (visited : List Node) (node : Node), (simplePaths edges target fuel visited node).Nodup := by
  induction fuel with
  | zero => intros; exact List.nodup_nil
  | succ fuel ih =>
    intro visited node
    unfold simplePaths
    split_ifs with isTarget
    · exact List.nodup_singleton _
    · refine List.nodup_flatMap.2 ⟨?_, (edgesNodup node).imp ?_⟩
      · intro step _
        split_ifs
        · exact List.nodup_nil
        · exact (ih _ _).map (List.cons_injective)
      · intro left right different path inLeft inRight
        dsimp only at inLeft inRight
        have isLeft : path.head? = some left := by
          split_ifs at inLeft
          · exact nomatch inLeft
          · rcases List.mem_map.1 inLeft with ⟨_, _, rfl⟩
            rfl
        have isRight : path.head? = some right := by
          split_ifs at inRight
          · exact nomatch inRight
          · rcases List.mem_map.1 inRight with ⟨_, _, rfl⟩
            rfl
        rw [isLeft] at isRight
        exact different (Option.some.inj isRight)

/-- A simple path in a finite graph is shorter than the number of nodes. -/
theorem length_lt_of_simplePath
    (inNodes : ∀ node, ∀ step ∈ edges node, step.1 ∈ nodes)
    (isNode : source ∈ nodes)
    (simple : SimplePath (Listed edges) source path target) :
    path.length < nodes.card := by
  have visited : ∀ {path : List (Node × Label)} {source : Node},
      Walk (Listed edges) source path target → ∀ node ∈ path.map Prod.fst, node ∈ nodes := by
    intro path
    induction path with
    | nil => simp
    | cons step rest ih =>
      intro source walk node isIn
      rcases List.mem_cons.1 isIn with rfl | isIn
      · exact inNodes source step walk.1
      · exact ih walk.2 node isIn
  have subset : (source :: path.map Prod.fst).toFinset ⊆ nodes := by
    intro node isIn
    rcases List.mem_cons.1 (List.mem_toFinset.1 isIn) with rfl | isIn
    · exact isNode
    · exact visited simple.1 node isIn
  have bound := Finset.card_le_card subset
  rw [List.toFinset_card_of_nodup simple.2, List.length_cons, List.length_map] at bound
  omega

/-- With enough depth all simple paths are enumerated. -/
theorem mem_simplePaths_iff
    (inNodes : ∀ node, ∀ step ∈ edges node, step.1 ∈ nodes)
    (isNode : source ∈ nodes) {fuel : Nat} (enough : nodes.card ≤ fuel) :
    path ∈ simplePaths edges target fuel [source] source ↔
      SimplePath (Listed edges) source path target := by
  rw [mem_simplePaths fuel List.mem_cons_self]
  constructor
  · rintro ⟨walk, nodup, disjoint, -⟩
    exact ⟨walk, List.nodup_cons.2 ⟨fun isIn => disjoint isIn (by simp), nodup⟩⟩
  · intro simple
    have short := length_lt_of_simplePath inNodes isNode simple
    rcases List.nodup_cons.1 simple.2 with ⟨notIn, nodup⟩
    exact ⟨simple.1, nodup, by simpa using notIn, by omega⟩

end Paths

/-! ## Names of nodes -/

section Names

omit [DecidableEq Node]

variable {Name : Type}

/-- The second graph is the first one, with other names for its nodes. -/
structure Names (edge : Node → Node × Label → Prop)
    (named : Name → Name × Label → Prop) (name : Node → Name)
    (isNode : Node → Prop) : Prop where
  inj : ∀ left right, isNode left → isNode right → name left = name right → left = right
  forth : ∀ source step, edge source step →
    isNode step.1 ∧ named (name source) (Prod.map name id step)
  back : ∀ source, isNode source → ∀ step, named (name source) step →
    ∃ found, edge source found ∧ Prod.map name id found = step

/-- A path, by the names of its nodes. -/
def namePath (name : Node → Name) (path : List (Node × Label)) :
    List (Name × Label) :=
  path.map (Prod.map name id)

theorem map_fst_namePath (name : Node → Name) (path : List (Node × Label)) :
    (namePath name path).map Prod.fst = (path.map Prod.fst).map name := by
  simp [namePath]

variable
  {edge : Node → Node × Label → Prop}
  {named : Name → Name × Label → Prop}
  {name : Node → Name}
  {isNode : Node → Prop}

theorem Names.isNode_of_walk (names : Names edge named name isNode) :
    ∀ {path : List (Node × Label)} {source : Node},
      Walk edge source path target → ∀ node ∈ path.map Prod.fst, isNode node
  | [], _, _ => by simp
  | step :: rest, source, walk => by
    rw [List.map_cons, List.forall_mem_cons]
    exact ⟨(names.forth source step walk.1).1, names.isNode_of_walk walk.2⟩

theorem Names.walk_namePath (names : Names edge named name isNode) :
    ∀ {path : List (Node × Label)} {source : Node},
      Walk edge source path target →
      Walk named (name source) (namePath name path) (name target)
  | [], _, walk => congrArg name walk
  | step :: _, source, walk =>
    ⟨(names.forth source step walk.1).2, names.walk_namePath walk.2⟩

theorem Names.exists_walk (names : Names edge named name isNode) {target : Name} :
    ∀ {path : List (Name × Label)} {source : Node},
      isNode source → Walk named (name source) path target →
      ∃ found node, Walk edge source found node ∧ isNode node ∧
        namePath name found = path ∧ name node = target
  | [], source, isNode, walk => ⟨[], source, rfl, isNode, rfl, walk⟩
  | step :: rest, source, isNode, walk => by
    rcases names.back source isNode step walk.1 with ⟨first, isEdge, rfl⟩
    rcases names.exists_walk (names.forth source first isEdge).1 walk.2
      with ⟨found, node, below, isNode, rfl, rfl⟩
    exact ⟨first :: found, node, ⟨isEdge, below⟩, isNode, rfl, rfl⟩

theorem Names.namePath_inj (names : Names edge named name isNode) {leftTarget rightTarget : Node} :
    ∀ {left right : List (Node × Label)} {leftSource rightSource : Node},
      Walk edge leftSource left leftTarget →
      Walk edge rightSource right rightTarget →
      namePath name left = namePath name right → left = right
  | [], [], _, _, _, _, _ => rfl
  | [], _ :: _, _, _, _, _, same => nomatch same
  | _ :: _, [], _, _, _, _, same => nomatch same
  | first :: left, second :: right, leftSource, rightSource, isLeft, isRight, same => by
    rcases List.cons.inj same with ⟨sameStep, sameRest⟩
    rcases Prod.mk.inj sameStep with ⟨sameName, sameLabel⟩
    have sameNode := names.inj _ _ (names.forth leftSource first isLeft.1).1
      (names.forth rightSource second isRight.1).1 sameName
    rw [Prod.ext sameNode sameLabel, names.namePath_inj isLeft.2 isRight.2 sameRest]

theorem Names.nodup_iff (names : Names edge named name isNode)
    (isSource : isNode source) (walk : Walk edge source path target) :
    (name source :: (namePath name path).map Prod.fst).Nodup ↔
      (source :: path.map Prod.fst).Nodup := by
  have areNodes : ∀ node ∈ source :: path.map Prod.fst, isNode node :=
    List.forall_mem_cons.2 ⟨isSource, names.isNode_of_walk walk⟩
  rw [map_fst_namePath, ← List.map_cons]
  exact ⟨List.Nodup.of_map name, List.Nodup.map_on fun left isLeft right isRight =>
    names.inj left right (areNodes left isLeft) (areNodes right isRight)⟩

theorem Names.simplePath_iff (names : Names edge named name isNode)
    (isSource : isNode source) (isTarget : isNode target) {path : List (Name × Label)} :
    SimplePath named (name source) path (name target) ↔
      ∃ found, SimplePath edge source found target ∧ namePath name found = path := by
  constructor
  · rintro ⟨walk, nodup⟩
    rcases names.exists_walk isSource walk with ⟨found, node, below, isNode, rfl, same⟩
    rcases names.inj node target isNode isTarget same with rfl
    exact ⟨found, ⟨below, (names.nodup_iff isSource below).1 nodup⟩, rfl⟩
  · rintro ⟨found, ⟨walk, nodup⟩, rfl⟩
    exact ⟨names.walk_namePath walk, (names.nodup_iff isSource walk).2 nodup⟩

end Names

end GraphSearch
