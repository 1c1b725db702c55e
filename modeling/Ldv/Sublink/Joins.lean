import Ldv.Sublink.Semantics

/-!
# Joins the strategies add to a query

`joinQueryRTEs` folds the items of a FROM list into one join tree, and the
strategies then join further entries on top of it.  New entries stand
behind the old ones, so every row combination of the old FROM list goes on
in exactly one way, up to the rows of the new entries.
-/

namespace Ldv.Sublink

open Ldv.Sql
open Relational

variable
  {Sub : Type}
  {subs : Subqueries Sub}

variable {outer : Scope} {rtable rtable' : List (RangeTblEntry Sub)} {rtindex entry limit : Nat}
  {larg rarg first second joined : JoinTreeNode Sub} {quals : Option (Expr Sub)} {env : Env}
  {rest items : List (JoinTreeNode Sub)} {query : Query Sub}

/-! ## Join entries -/

def Expr.isConst : Expr Sub → Bool
  | .const _ => true
  | _ => false

/-- References to the columns of the entry at a position. -/
def expandRTE (subs : Subqueries Sub) (rtable : List (RangeTblEntry Sub))
    (rtindex : Nat) : List (Expr Sub) :=
  match rtFetch rtable rtindex with
  | some (.relation _ attnums) => attnums.map (Expr.column rtindex)
  | some (.subquery query added) =>
    (subs.columns query ++
      (List.range added.length).map fun position =>
        subs.targetListLength query + position + 1).map (Expr.column rtindex)
  | some (.baseRelUnionNull _ attnums) =>
    (List.range attnums.length).map fun position =>
      Expr.column rtindex (position + 1)
  | some (.join joinaliasvars) =>
    (joinaliasvars.zipIdx 1).filterMap fun (aliasvar, attnum) =>
      if aliasvar.isConst then none
      else some (Expr.column rtindex attnum)
  | none => []

/-- The entry `adaptRTEsForJoins` makes for a join of two items. -/
def joinRTE (subs : Subqueries Sub) (rtable : List (RangeTblEntry Sub))
    (larg rarg : JoinTreeNode Sub) : RangeTblEntry Sub :=
  .join (expandRTE subs rtable larg.rtindex ++ expandRTE subs rtable rarg.rtindex)

/-- Recomputes the columns of all joins of a FROM item, inner joins first. -/
def recreateJoinRTE (subs : Subqueries Sub) :
    JoinTreeNode Sub → List (RangeTblEntry Sub) → List (RangeTblEntry Sub)
  | .rangeTblRef _, rtable => rtable
  | .joinExpr _ rtindex larg rarg _, rtable =>
    let rtable := recreateJoinRTE subs rarg (recreateJoinRTE subs larg rtable)
    rtable.set (rtindex - 1) (joinRTE subs rtable larg rarg)

/-- Recomputes the columns of all joins of a query. -/
def recreateJoinRTEs (subs : Subqueries Sub) (query : Query Sub) :
    Query Sub :=
  { query with
    rtable := query.fromlist.foldl
      (fun rtable item => recreateJoinRTE subs item rtable) query.rtable }

/-- Joins the items which are left with the join tree built so far. -/
def joinItems (subs : Subqueries Sub) :
    List (RangeTblEntry Sub) → JoinTreeNode Sub →
      List (JoinTreeNode Sub) →
      List (RangeTblEntry Sub) × JoinTreeNode Sub
  | rtable, joined, [] => (rtable, joined)
  | rtable, joined, item :: rest =>
    joinItems subs (rtable ++ [joinRTE subs rtable item joined])
      (.joinExpr .inner (rtable.length + 1) item joined (some Expr.trueConst)) rest

/-- Joins the items of a FROM list, if there are several of them. -/
def joinQueryRTEs (subs : Subqueries Sub) (query : Query Sub) : Query Sub :=
  match query.fromlist with
  | first :: second :: rest =>
    let (rtable, joined) := joinItems subs
      (query.rtable ++ [joinRTE subs query.rtable first second])
      (.joinExpr .inner (query.rtable.length + 1) first second (some Expr.trueConst)) rest
    { query with rtable := rtable, fromlist := [joined] }
  | _ => query

/-! ## Several FROM items as one -/

theorem Env.merge_empty (env : Env) :
    env.merge Env.empty = env := by
  funext position
  simp [Env.merge, Env.empty]

theorem Env.merge_assoc (first second third : Env) :
    (first.merge second).merge third = first.merge (second.merge third) := by
  funext position
  simp only [Env.merge]
  cases first position <;> simp

theorem Env.empty_merge (env : Env) :
    Env.empty.merge env = env := by
  funext position
  simp [Env.merge, Env.empty]

/-- FROM items may be combined in two parts. -/
theorem evalFromlist_append (inst : Instance subs) (outer : Scope)
    (rtable : List (RangeTblEntry Sub)) (left right : List (JoinTreeNode Sub)) :
    evalFromlist inst outer rtable (left ++ right) =
      crossWith Env.merge (evalFromlist inst outer rtable left)
        (evalFromlist inst outer rtable right) := by
  induction left with
  | nil =>
    have same : Env.empty.merge = (id : Env → Env) := funext Env.empty_merge
    simp [evalFromlist, crossWith, same]
  | cons item rest ih =>
    simp only [List.cons_append, evalFromlist, ih]
    have assoc : ∀ first second : Env, (first.merge second).merge =
        fun third => first.merge (second.merge third) :=
      fun first second => funext (Env.merge_assoc first second)
    simp [crossWith, List.flatMap_assoc, List.map_flatMap,
      List.flatMap_map, Function.comp_def, assoc]

theorem evalFromlist_singleton (inst : Instance subs) (outer : Scope)
    (rtable : List (RangeTblEntry Sub)) (item : JoinTreeNode Sub) :
    evalFromlist inst outer rtable [item] = item.eval inst outer rtable := by
  simp [evalFromlist, crossWith, Env.merge_empty]

theorem passes_trueConst (inst : Instance subs) (scope : Scope) :
    passes inst scope (some Expr.trueConst) = true := by
  simp [passes, Expr.trueConst, Expr.eval]

/-- An inner join combines the rows of both sides which fit. -/
theorem mem_eval_joinOn {inst : Instance subs} :
    env ∈ (JoinTreeNode.joinExpr .inner rtindex larg rarg quals).eval inst
        outer rtable ↔
      ∃ left ∈ larg.eval inst outer rtable,
        ∃ right ∈ rarg.eval inst outer rtable,
          passes inst (Scope.push (left.merge right) outer) quals = true ∧
            setJoin inst outer rtable rtindex (left.merge right) = env := by
  simp only [JoinTreeNode.eval, List.mem_map, JoinType.keepsLeft, JoinType.keepsRight, mem_joinWith]
  constructor
  · rintro ⟨joined, ⟨left, leftIn, right, rightIn, holds, rfl⟩ | ⟨⟨⟩, -⟩ |
      ⟨⟨⟩, -⟩, rfl⟩
    exact ⟨left, leftIn, right, rightIn, holds, rfl⟩
  · rintro ⟨left, leftIn, right, rightIn, holds, rfl⟩
    exact ⟨left.merge right, .inl ⟨left, leftIn, right, rightIn, holds, rfl⟩, rfl⟩

/-- An inner join on TRUE combines every row of one side with every other. -/
theorem mem_eval_innerJoin {inst : Instance subs} :
    env ∈ (JoinTreeNode.joinExpr .inner rtindex larg rarg
        (some Expr.trueConst)).eval inst outer rtable ↔
      ∃ left ∈ larg.eval inst outer rtable,
        ∃ right ∈ rarg.eval inst outer rtable,
          setJoin inst outer rtable rtindex (left.merge right) = env := by
  simp only [mem_eval_joinOn, passes_trueConst, true_and]

/-- A new last FROM item adds one of its rows. -/
theorem mem_evalFromlist_append_ref {inst : Instance subs} {fromlist : List (JoinTreeNode Sub)} :
    env ∈ evalFromlist inst outer rtable
        (fromlist ++ [.rangeTblRef entry]) ↔
      ∃ left ∈ evalFromlist inst outer rtable fromlist,
        ∃ row ∈ inputRows inst outer rtable entry, left.merge (Env.single entry row) = env := by
  rw [evalFromlist_append, evalFromlist_singleton, JoinTreeNode.eval, mem_crossWith]
  constructor
  · rintro ⟨left, leftIn, right, rightIn, rfl⟩
    rcases List.mem_map.1 rightIn with ⟨row, rowIn, rfl⟩
    exact ⟨left, leftIn, row, rowIn, rfl⟩
  · rintro ⟨left, leftIn, row, rowIn, rfl⟩
    exact ⟨left, leftIn, _, List.mem_map_of_mem rowIn, rfl⟩

/-- Combinations of a FROM clause one item of which is replaced. -/
theorem sameUpTo_replaceItem (inst : Instance subs) (outer : Scope) {limit : Nat}
    {rtable rtable' : List (RangeTblEntry Sub)} {before after : List (JoinTreeNode Sub)}
    {item item' : JoinTreeNode Sub}
    (sameEntries :
      ∀ other ∈ before ++ after, ∀ rtindex ∈ other.rtindexes,
        rtFetch rtable' rtindex = rtFetch rtable rtindex)
    (same :
      SameUpTo (AgreeUpTo limit) (item.eval inst outer rtable)
        (item'.eval inst outer rtable')) :
    SameUpTo (AgreeUpTo limit)
      (evalFromlist inst outer rtable (before ++ item :: after))
      (evalFromlist inst outer rtable' (before ++ item' :: after)) := by
  rw [evalFromlist_append, evalFromlist_append,
    evalFromlist_of_sameEntries inst outer before fun other member =>
      sameEntries other (List.mem_append_left _ member)]
  have unchanged := fun rows : List Env =>
    (⟨fun env member => ⟨env, member, AgreeUpTo.refl limit env⟩,
      fun env member => ⟨env, member, AgreeUpTo.refl limit env⟩⟩ :
      SameUpTo (AgreeUpTo limit) rows rows)
  refine Lifting.set.cross (unchanged _) ?_ fun _ _ _ _ left right => left.merge right
  simp only [evalFromlist]
  rw [evalFromlist_of_sameEntries inst outer after fun other member =>
    sameEntries other (List.mem_append_right _ member)]
  exact Lifting.set.cross same (unchanged _) fun _ _ _ _ left right => left.merge right

/-- A left join with an entry adds one of its rows that fits, or none. -/
theorem mem_eval_leftJoin {inst : Instance subs} :
    env ∈ (JoinTreeNode.joinExpr .left rtindex larg (.rangeTblRef entry)
        quals).eval inst outer rtable ↔
      ∃ left ∈ larg.eval inst outer rtable,
        (∃ row ∈ inputRows inst outer rtable entry,
          passes inst
              (Scope.push (left.merge (Env.single entry row)) outer)
              quals = true ∧
            setJoin inst outer rtable rtindex (left.merge (Env.single entry row)) = env) ∨
        ((∀ row ∈ inputRows inst outer rtable entry,
          passes inst
              (Scope.push (left.merge (Env.single entry row)) outer)
              quals = false) ∧
            setJoin inst outer rtable rtindex left = env) := by
  simp only [JoinTreeNode.eval, List.mem_map, JoinType.keepsLeft, JoinType.keepsRight, mem_joinWith]
  constructor
  · rintro ⟨joined, ⟨left, leftIn, _, ⟨row, rowIn, rfl⟩, holds, rfl⟩ |
      ⟨-, left, leftIn, alone, rfl⟩ | ⟨⟨⟩, -⟩, rfl⟩
    · exact ⟨left, leftIn, .inl ⟨row, rowIn, holds, rfl⟩⟩
    · exact ⟨left, leftIn, .inr ⟨fun row rowIn => alone _ ⟨row, rowIn, rfl⟩, rfl⟩⟩
  · rintro ⟨left, leftIn, ⟨row, rowIn, holds, rfl⟩ | ⟨alone, rfl⟩⟩
    · exact ⟨_, .inl ⟨left, leftIn, _, ⟨row, rowIn, rfl⟩, holds, rfl⟩,
        rfl⟩
    · refine ⟨_, .inr (.inl ⟨trivial, left, leftIn, ?_, rfl⟩), rfl⟩
      rintro _ ⟨row, rowIn, rfl⟩
      exact alone row rowIn

theorem agreeUpTo_setJoin (inst : Instance subs) (outer : Scope)
    (rtable : List (RangeTblEntry Sub)) {env' : Env} (agree : AgreeUpTo limit env env')
    (later : limit < rtindex) :
    AgreeUpTo limit env (setJoin inst outer rtable rtindex env') :=
  agree.set later _

/-- A left join on top of an item continues each of its combinations. -/
theorem exists_mem_leftJoin (inst : Instance subs) (outer : Scope)
    (rtable : List (RangeTblEntry Sub)) (laterJoin : limit < rtindex)
    (laterEntry : limit < entry) (larg : JoinTreeNode Sub) (quals : Option (Expr Sub)) {left : Env}
    (member : left ∈ larg.eval inst outer rtable) :
    ∃ env ∈ (JoinTreeNode.joinExpr .left rtindex larg (.rangeTblRef entry)
        quals).eval inst outer rtable,
      AgreeUpTo limit left env := by
  by_cases partner :
      ∃ row ∈ inputRows inst outer rtable entry,
        passes inst (Scope.push (left.merge (Env.single entry row)) outer) quals = true
  · rcases partner with ⟨row, rowIn, holds⟩
    refine ⟨_, mem_eval_leftJoin.2 ⟨left, member, .inl ⟨row, rowIn, holds, rfl⟩⟩, ?_⟩
    exact agreeUpTo_setJoin inst outer rtable (AgreeUpTo.merge_single laterEntry left row) laterJoin
  · refine ⟨_, mem_eval_leftJoin.2 ⟨left, member, .inr ⟨?_, rfl⟩⟩,
      agreeUpTo_setJoin inst outer rtable (AgreeUpTo.refl limit left) laterJoin⟩
    intro row rowIn
    by_contra holds
    exact partner ⟨row, rowIn, by simpa using holds⟩

/-- And each combination of the join continues one of the item. -/
theorem exists_left_of_mem_leftJoin (inst : Instance subs) (outer : Scope)
    (rtable : List (RangeTblEntry Sub)) (laterJoin : limit < rtindex)
    (laterEntry : limit < entry)
    (member :
      env ∈ (JoinTreeNode.joinExpr .left rtindex larg (.rangeTblRef entry)
        quals).eval inst outer rtable) :
    ∃ left ∈ larg.eval inst outer rtable, AgreeUpTo limit left env := by
  rcases mem_eval_leftJoin.1 member with
    ⟨left, leftIn, ⟨row, -, -, rfl⟩ | ⟨-, rfl⟩⟩
  · exact ⟨left, leftIn, agreeUpTo_setJoin inst outer rtable
      (AgreeUpTo.merge_single laterEntry left row) laterJoin⟩
  · exact ⟨left, leftIn, agreeUpTo_setJoin inst outer rtable (AgreeUpTo.refl limit left) laterJoin⟩

/-- Two FROM items may be joined first, in either order. -/
theorem sameUpTo_joinFirst (inst : Instance subs) (outer : Scope)
    (later : limit < rtindex) (rest : List Env) :
    SameUpTo (AgreeUpTo limit)
      (crossWith Env.merge (first.eval inst outer rtable)
        (crossWith Env.merge (second.eval inst outer rtable) rest))
      (crossWith Env.merge
        ((JoinTreeNode.joinExpr .inner rtindex first second
          (some Expr.trueConst)).eval inst outer rtable) rest) := by
  have agree :
      ∀ left right other : Env,
        AgreeUpTo limit (left.merge (right.merge other))
          ((setJoin inst outer rtable rtindex (left.merge right)).merge other) := by
    intro left right other position below
    have isOther : position ≠ rtindex := by omega
    simp only [Env.merge, setJoin_of_ne inst outer rtable isOther]
    cases left position <;> simp
  constructor
  · intro env member
    rcases mem_crossWith.1 member with ⟨left, leftIn, _, isPair, rfl⟩
    rcases mem_crossWith.1 isPair with ⟨right, rightIn, other, isOther, rfl⟩
    exact ⟨_, mem_crossWith.2 ⟨_, mem_eval_innerJoin.2 ⟨left, leftIn, right, rightIn, rfl⟩,
      other, isOther, rfl⟩, agree left right other⟩
  · intro env member
    rcases mem_crossWith.1 member with ⟨_, joined, other, isOther, rfl⟩
    rcases mem_eval_innerJoin.1 joined with
      ⟨left, leftIn, right, rightIn, rfl⟩
    exact ⟨_, mem_crossWith.2 ⟨left, leftIn, _,
      mem_crossWith.2 ⟨right, rightIn, other, isOther, rfl⟩, rfl⟩,
      agree left right other⟩

theorem mem_crossWith_swap {inst : Instance subs} {outer : Scope}
    (disjoint : List.Disjoint first.rtindexes second.rtindexes) {rest : List Env} {env : Env}
    (member : env ∈ crossWith Env.merge (first.eval inst outer rtable)
      (crossWith Env.merge (second.eval inst outer rtable) rest)) :
    env ∈ crossWith Env.merge (second.eval inst outer rtable)
      (crossWith Env.merge (first.eval inst outer rtable) rest) := by
  rcases mem_crossWith.1 member with ⟨left, leftIn, _, isPair, rfl⟩
  rcases mem_crossWith.1 isPair with ⟨right, rightIn, other, isOther, rfl⟩
  refine mem_crossWith.2 ⟨right, rightIn, _,
    mem_crossWith.2 ⟨left, leftIn, other, isOther, rfl⟩, ?_⟩
  funext position
  simp only [Env.merge]
  by_cases member : position ∈ first.rtindexes
  · simp [JoinTreeNode.eval_outside inst outer rtable second right rightIn position
      (disjoint member)]
  · simp [JoinTreeNode.eval_outside inst outer rtable first left leftIn position member]

/-- The order of two FROM items with different entries does not matter. -/
theorem sameUpTo_swapFirst (inst : Instance subs) (outer : Scope) (limit : Nat)
    (disjoint : List.Disjoint first.rtindexes second.rtindexes) (rest : List Env) :
    SameUpTo (AgreeUpTo limit)
      (crossWith Env.merge (first.eval inst outer rtable)
        (crossWith Env.merge (second.eval inst outer rtable) rest))
      (crossWith Env.merge (second.eval inst outer rtable)
        (crossWith Env.merge (first.eval inst outer rtable) rest)) :=
  ⟨fun env member => ⟨env, mem_crossWith_swap disjoint member, AgreeUpTo.refl limit env⟩,
    fun env member => ⟨env, mem_crossWith_swap disjoint.symm member, AgreeUpTo.refl limit env⟩⟩

theorem SameUpTo.trans_agree {first second third : List Env}
    (left : SameUpTo (AgreeUpTo limit) first second)
    (right : SameUpTo (AgreeUpTo limit) second third) :
    SameUpTo (AgreeUpTo limit) first third := by
  constructor
  · intro env member
    rcases left.1 env member with ⟨_, middleIn, agree⟩
    rcases right.1 _ middleIn with ⟨env', rightIn, agree'⟩
    exact ⟨env', rightIn, agree.trans agree'⟩
  · intro env member
    rcases right.2 env member with ⟨_, middleIn, agree⟩
    rcases left.2 _ middleIn with ⟨env', leftIn, agree'⟩
    exact ⟨env', leftIn, AgreeUpTo.trans agree' agree⟩

/-- Joining two items under a new number keeps the entries different. -/
theorem nodup_joinFirst {jointype : JoinType}
    (fresh : ∀ item ∈ first :: second :: rest, rtindex ∉ item.rtindexes)
    (nodup :
      ((first :: second :: rest).flatMap JoinTreeNode.rtindexes).Nodup) :
    ((JoinTreeNode.joinExpr jointype rtindex first second quals ::
      rest).flatMap JoinTreeNode.rtindexes).Nodup := by
  have permuted :
      ((JoinTreeNode.joinExpr jointype rtindex first second quals ::
          rest).flatMap JoinTreeNode.rtindexes).Perm
        (rtindex :: (first :: second :: rest).flatMap JoinTreeNode.rtindexes) := by
    simp only [List.flatMap_cons, JoinTreeNode.rtindexes]
    rw [List.append_assoc, List.singleton_append]
    refine List.perm_middle.trans (List.Perm.cons _ ?_)
    rw [List.append_assoc]
  refine permuted.nodup_iff.2 (List.nodup_cons.2 ⟨?_, nodup⟩)
  intro member
  rcases List.mem_flatMap.1 member with ⟨item, isItem, inItem⟩
  exact fresh item isItem inItem

/-- Joining two items of a FROM list under the next number. -/
theorem inRange_joinFirst {jointype : JoinType} {length : Nat}
    (inside : ∀ item ∈ first :: second :: rest, ∀ rtindex ∈ item.rtindexes, rtindex ≤ length) :
    ∀ item ∈
        JoinTreeNode.joinExpr jointype (length + 1) first second quals :: rest,
      ∀ rtindex ∈ item.rtindexes, rtindex ≤ length + 1 := by
  intro item isItem rtindex member
  rcases List.mem_cons.1 isItem with rfl | isRest
  · simp only [JoinTreeNode.rtindexes, List.mem_append, List.mem_singleton] at member
    rcases member with (member | member) | rfl
    · exact (inside first (by simp) rtindex member).trans (by omega)
    · exact (inside second (by simp) rtindex member).trans (by omega)
    · exact le_rfl
  · exact (inside item (by simp [isRest]) rtindex member).trans (by omega)

/-- The items of a FROM list stand for different entries of a range table. -/
structure ItemsFit (length : Nat) (items : List (JoinTreeNode Sub)) : Prop where
  inside : ∀ item ∈ items, ∀ rtindex ∈ item.rtindexes, rtindex ≤ length
  nodup : (items.flatMap JoinTreeNode.rtindexes).Nodup

theorem ItemsFit.swap {length : Nat} (fit : ItemsFit length (first :: second :: rest)) :
    ItemsFit length (second :: first :: rest) where
  inside := by
    intro item isItem
    refine fit.inside item ?_
    simp only [List.mem_cons] at isItem ⊢
    tauto
  nodup :=
    ((List.Perm.swap second first rest).flatMap_right JoinTreeNode.rtindexes).nodup_iff.1 fit.nodup

theorem ItemsFit.joinFirst {length : Nat} (fit : ItemsFit length (first :: second :: rest))
    {jointype : JoinType} :
    ItemsFit (length + 1) (.joinExpr jointype (length + 1) first second quals :: rest) :=
  ⟨inRange_joinFirst fit.inside, nodup_joinFirst
    (fun item isItem member => absurd (fit.inside item isItem _ member) (by omega)) fit.nodup⟩

/-- An entry that is added to the range table may be an item. -/
theorem ItemsFit.addEntry {length : Nat} (fit : ItemsFit length [first]) :
    ItemsFit (length + 1) [first, .rangeTblRef (length + 1)] where
  inside := by
    intro item isItem rtindex member
    rcases List.mem_pair.1 isItem with rfl | rfl
    · exact (fit.inside item (by simp) rtindex member).trans (Nat.le_succ length)
    · exact (List.mem_singleton.1 member).le
  nodup := by
    have nodup := fit.nodup
    simp only [List.flatMap_cons, List.flatMap_nil, List.append_nil] at nodup ⊢
    refine List.nodup_append.2 ⟨nodup, List.nodup_singleton _, ?_⟩
    intro position inside other isEntry same
    have below := fit.inside first (by simp) position inside
    rw [List.mem_singleton.1 isEntry] at same
    omega

/-- What holds of a join tree holds after joining the other items to it. -/
theorem joinItems_induction {motive : List (RangeTblEntry Sub) → JoinTreeNode Sub → Prop}
    (step :
      ∀ rtable joined, ∀ item ∈ items, motive rtable joined →
        motive (rtable ++ [joinRTE subs rtable item joined])
          (.joinExpr .inner (rtable.length + 1) item joined (some Expr.trueConst)))
    (start : motive rtable joined) :
    motive (joinItems subs rtable joined items).1 (joinItems subs rtable joined items).2 := by
  induction items generalizing rtable joined with
  | nil => exact start
  | cons item rest ih =>
    exact ih
      (fun rtable joined other isOther =>
        step rtable joined other (by simp [isOther]))
      (step rtable joined item (by simp) start)

theorem sameUpTo_joinItems (inst : Instance subs) (outer : Scope) (below : limit ≤ rtable.length)
    (fit : ItemsFit rtable.length (joined :: items)) :
    SameUpTo (AgreeUpTo limit)
      (evalFromlist inst outer rtable (joined :: items))
      (evalFromlist inst outer (joinItems subs rtable joined items).1
        [(joinItems subs rtable joined items).2]) := by
  induction items generalizing rtable joined with
  | nil =>
    exact Lifting.set.mono (Lifting.set.ofEq _)
      fun env _ equal => equal ▸ AgreeUpTo.refl limit env
  | cons item rest ih =>
    have disjoint : List.Disjoint joined.rtindexes item.rtindexes := by
      intro position left right
      have nodup := fit.nodup
      simp only [List.flatMap_cons] at nodup
      exact (List.nodup_append.1 nodup).2.2 position left position (by simp [right]) rfl
    rw [joinItems]
    refine SameUpTo.trans_agree ?_ (ih ?_ ?_)
    · rw [← evalFromlist_of_sameEntries inst outer
        (joined :: item :: rest) fun other isOther rtindex member =>
          rtFetch_append (fit.inside other isOther rtindex member)
            [joinRTE subs rtable item joined]]
      exact SameUpTo.trans_agree (sameUpTo_swapFirst inst outer limit disjoint _)
        (sameUpTo_joinFirst inst outer (Nat.lt_succ_of_le below) _)
    · rw [List.length_append]
      omega
    · rw [List.length_append]
      exact fit.swap.joinFirst

theorem itemsFit_joinItems (fit : ItemsFit rtable.length (joined :: items)) :
    ItemsFit (joinItems subs rtable joined items).1.length
      [(joinItems subs rtable joined items).2] := by
  induction items generalizing rtable joined with
  | nil => exact fit
  | cons item rest ih =>
    rw [joinItems]
    refine ih ?_
    rw [List.length_append]
    exact fit.swap.joinFirst

/-! ## The folded query -/

/-- ON conditions of a FROM clause. -/
def Query.onQuals (query : Query Sub) : List (Expr Sub) :=
  query.fromlist.flatMap JoinTreeNode.onQuals

@[simp]
theorem joinQueryRTEs_quals (query : Query Sub) :
    (joinQueryRTEs subs query).quals = query.quals := by
  unfold joinQueryRTEs
  split <;> rfl

@[simp]
theorem joinQueryRTEs_targetList (query : Query Sub) :
    (joinQueryRTEs subs query).targetList = query.targetList := by
  unfold joinQueryRTEs
  split <;> rfl

theorem joinQueryRTEs_fromlist {query : Query Sub} (hasItem : query.fromlist ≠ []) :
    ∃ item, (joinQueryRTEs subs query).fromlist = [item] := by
  unfold joinQueryRTEs
  split
  · exact ⟨_, rfl⟩
  · rename_i several
    rcases items : query.fromlist with _ | ⟨first, _ | ⟨second, rest⟩⟩
    · exact absurd items hasItem
    · exact ⟨first, rfl⟩
    · exact absurd items (several first second rest)

/-- What holds of the query itself and of its joined items. -/
theorem joinQueryRTEs_induction {motive : List (RangeTblEntry Sub) → List (JoinTreeNode Sub) → Prop}
    {query : Query Sub} (start : motive query.rtable query.fromlist)
    (join :
      ∀ rtable, ∀ first second : JoinTreeNode Sub,
        (first ∈ query.fromlist ∨ motive rtable [first]) →
        (second ∈ query.fromlist ∨ motive rtable [second]) →
        (rtable = query.rtable ∨ motive rtable [second]) →
        motive (rtable ++ [joinRTE subs rtable first second])
          [.joinExpr .inner (rtable.length + 1) first second
            (some Expr.trueConst)]) :
    motive (joinQueryRTEs subs query).rtable (joinQueryRTEs subs query).fromlist := by
  unfold joinQueryRTEs
  split
  · rename_i first second rest items
    exact joinItems_induction (motive := fun rtable joined => motive rtable [joined])
      (fun rtable joined item member holds =>
        join rtable item joined (.inl (by simp [items, member])) (.inr holds) (.inr holds))
      (join query.rtable first second (.inl (by simp [items])) (.inl (by simp [items])) (.inl rfl))
  · exact start

theorem joinQueryRTEs_rtable (query : Query Sub) :
    ∃ added, (joinQueryRTEs subs query).rtable = query.rtable ++ added ∧
      added.all (RangeTblEntry.plannable subs) = true := by
  refine @joinQueryRTEs_induction Sub subs
    (fun rtable _ =>
      ∃ added, rtable = query.rtable ++ added ∧ added.all (RangeTblEntry.plannable subs) = true)
    query ⟨[], by simp⟩ ?_
  rintro rtable first second - - (rfl | ⟨added, rfl, plannable⟩)
  · exact ⟨[joinRTE subs query.rtable first second], rfl, rfl⟩
  · refine ⟨added ++ [_], List.append_assoc .., ?_⟩
    rw [List.all_append, plannable]
    rfl

theorem joinQueryRTEs_onQuals {quals : Expr Sub}
    (member : quals ∈ (joinQueryRTEs subs query).onQuals) :
    quals = Expr.trueConst ∨ quals ∈ query.onQuals := by
  revert quals
  refine joinQueryRTEs_induction
    (motive := fun _ fromlist =>
      ∀ {quals}, quals ∈ fromlist.flatMap JoinTreeNode.onQuals →
        quals = Expr.trueConst ∨ quals ∈ query.onQuals)
    (fun member => .inr member) ?_
  intro rtable first second holdsFirst holdsSecond _ quals member
  have ofItem :
      ∀ item : JoinTreeNode Sub,
        (item ∈ query.fromlist ∨
          ∀ {quals}, quals ∈ [item].flatMap JoinTreeNode.onQuals →
            quals = Expr.trueConst ∨ quals ∈ query.onQuals) →
        quals ∈ item.onQuals →
        quals = Expr.trueConst ∨ quals ∈ query.onQuals := by
    rintro item (inQuery | holds) isQual
    · exact .inr (List.mem_flatMap.2 ⟨item, inQuery, isQual⟩)
    · exact holds (by simpa using isQual)
  simp only [List.flatMap_cons, List.flatMap_nil, List.append_nil,
    JoinTreeNode.onQuals, Option.toList_some, List.mem_append,
    List.mem_singleton] at member
  rcases member with (isTrue | isFirst) | isSecond
  · exact .inl isTrue
  · exact ofItem first holdsFirst isFirst
  · exact ofItem second holdsSecond isSecond

theorem Query.WellFormed.itemsFit (wellFormed : query.WellFormed subs) :
    ItemsFit query.rtable.length query.fromlist :=
  ⟨wellFormed.inRange, wellFormed.nodup⟩

theorem sameUpTo_joinQueryRTEs (inst : Instance subs) (outer : Scope)
    (wellFormed : query.WellFormed subs) :
    SameUpTo (AgreeUpTo query.rtable.length)
      (evalFromlist inst outer query.rtable query.fromlist)
      (evalFromlist inst outer (joinQueryRTEs subs query).rtable
        (joinQueryRTEs subs query).fromlist) := by
  have fit := wellFormed.itemsFit
  unfold joinQueryRTEs
  split
  · rename_i first second rest items
    rw [items] at fit ⊢
    refine SameUpTo.trans_agree ?_ (sameUpTo_joinItems inst outer ?_ ?_)
    · rw [← evalFromlist_of_sameEntries inst outer _
        fun item isItem rtindex member =>
          rtFetch_append (fit.inside item isItem rtindex member)
            [joinRTE subs query.rtable first second]]
      exact sameUpTo_joinFirst inst outer (Nat.lt_succ_self _) _
    · simp
    · rw [List.length_append]
      exact fit.joinFirst
  · exact Lifting.set.mono (Lifting.set.ofEq _) fun env _ equal => equal ▸ AgreeUpTo.refl _ env

theorem itemsFit_joinQueryRTEs (wellFormed : query.WellFormed subs) :
    ItemsFit (joinQueryRTEs subs query).rtable.length (joinQueryRTEs subs query).fromlist := by
  have fit := wellFormed.itemsFit
  unfold joinQueryRTEs
  split
  · rename_i first second rest items
    rw [items] at fit
    refine itemsFit_joinItems ?_
    rw [List.length_append]
    exact fit.joinFirst
  · exact fit

theorem rtindexes_joinItems
    (member : rtindex ∈ (joined :: items).flatMap JoinTreeNode.rtindexes) :
    rtindex ∈ (joinItems subs rtable joined items).2.rtindexes := by
  induction items generalizing rtable joined with
  | nil => simpa [joinItems] using member
  | cons item rest ih =>
    rw [joinItems]
    refine ih ?_
    simp only [List.flatMap_cons, List.mem_append, JoinTreeNode.rtindexes] at member ⊢
    tauto

/-- Joining the FROM items leaves every entry in the FROM clause. -/
theorem rtindexes_joinQueryRTEs {query : Query Sub} {rtindex : Nat}
    (member : rtindex ∈ query.rtindexes) :
    rtindex ∈ (joinQueryRTEs subs query).rtindexes := by
  unfold joinQueryRTEs
  split
  · rename_i first second rest items
    have inNode :
        rtindex ∈ (joinItems subs (query.rtable ++ [joinRTE subs query.rtable first second])
          (.joinExpr .inner (query.rtable.length + 1) first second
            (some Expr.trueConst)) rest).2.rtindexes := by
      refine rtindexes_joinItems ?_
      rw [Query.rtindexes, items] at member
      simp only [List.flatMap_cons, List.mem_append, JoinTreeNode.rtindexes] at member ⊢
      tauto
    simpa [Query.rtindexes] using inNode
  · exact member

theorem Query.WellFormed.joinQueryRTEs (wellFormed : query.WellFormed subs) :
    (joinQueryRTEs subs query).WellFormed subs := by
  rcases @joinQueryRTEs_rtable Sub subs query with
    ⟨added, rtable, addedPlannable⟩
  rcases Query.plannable_iff.1 wellFormed.plannable with
    ⟨entries, items, varnos⟩
  constructor
  · refine Query.plannable_iff.2 ⟨?_, ?_, ?_⟩
    · intro rte member
      rw [rtable] at member
      rcases List.mem_append.1 member with member | member
      · exact entries rte member
      · exact List.all_eq_true.1 addedPlannable rte member
    · refine @joinQueryRTEs_induction Sub subs
        (fun _ fromlist =>
          ∀ item ∈ fromlist, item.plannable subs = true)
        query items ?_
      intro _ first second holdsFirst holdsSecond _ item isItem
      have ofItem :
          ∀ item : JoinTreeNode Sub,
            (item ∈ query.fromlist ∨ ∀ other ∈ [item], other.plannable subs = true) →
            item.plannable subs = true := by
        rintro item (inQuery | holds)
        · exact items item inQuery
        · exact holds item (by simp)
      rw [List.mem_singleton.1 isItem]
      simp [JoinTreeNode.plannable, ofItem first holdsFirst,
        ofItem second holdsSecond, qualVarnos, Expr.varnos, Expr.vars,
        Expr.trueConst]
    · intro varno member
      refine rtindexes_joinQueryRTEs (varnos varno ?_)
      simpa [Query.varnos] using member
  · exact (itemsFit_joinQueryRTEs wellFormed).nodup
  · exact (itemsFit_joinQueryRTEs wellFormed).inside

/-! ## Joins which list all columns of their arguments -/

/--
Every join has the columns of its left and then of its right argument, as a
join without a USING list.
-/
def JoinTreeNode.Plain (subs : Subqueries Sub)
    (rtable : List (RangeTblEntry Sub)) : JoinTreeNode Sub → Prop
  | .rangeTblRef _ => True
  | .joinExpr _ rtindex larg rarg _ =>
    larg.Plain subs rtable ∧ rarg.Plain subs rtable ∧
      rtFetch rtable rtindex = some (joinRTE subs rtable larg rarg)

theorem rtFetch_set_of_ne {Entry : Type} {rtable : List Entry} {position : Nat}
    (other : rtindex ≠ position + 1) (entry : Entry) :
    rtFetch (rtable.set position entry) rtindex = rtFetch rtable rtindex := by
  cases rtindex with
  | zero => rfl
  | succ before =>
    exact List.getElem?_set_ne (by omega)

theorem set_of_rtFetch {Entry : Type} {rtable : List Entry} {entry : Entry}
    (fetched : rtFetch rtable rtindex = some entry) :
    rtable.set (rtindex - 1) entry = rtable := by
  cases rtindex with
  | zero => simp [rtFetch] at fetched
  | succ before =>
    have fetched' : rtable[before]? = some entry := fetched
    rcases List.getElem?_eq_some_iff.1 fetched' with ⟨inside, rfl⟩
    exact List.set_getElem_self inside

/-- Recomputing the columns of plain joins changes nothing. -/
theorem recreateJoinRTE_of_plain {item : JoinTreeNode Sub}
    (plain : item.Plain subs rtable) :
    recreateJoinRTE subs item rtable = rtable := by
  induction item with
  | rangeTblRef rtindex => rfl
  | joinExpr jointype rtindex larg rarg quals leftHypothesis rightHypothesis =>
    simp only [recreateJoinRTE]
    rw [leftHypothesis plain.1, rightHypothesis plain.2.1]
    exact set_of_rtFetch plain.2.2

theorem foldl_recreateJoinRTE_of_plain (plain : ∀ item ∈ items, item.Plain subs rtable) :
    items.foldl (fun rtable item => recreateJoinRTE subs item rtable) rtable = rtable := by
  induction items with
  | nil => rfl
  | cons item rest ih =>
    rw [List.foldl_cons, recreateJoinRTE_of_plain (plain item (by simp))]
    exact ih fun other member =>
      plain other (List.mem_cons_of_mem _ member)

theorem expandRTE_of_sameEntry
    (same : rtFetch rtable' rtindex = rtFetch rtable rtindex) :
    expandRTE subs rtable' rtindex = expandRTE subs rtable rtindex := by
  simp only [expandRTE, same]

theorem JoinTreeNode.rtindex_mem (item : JoinTreeNode Sub) :
    item.rtindex ∈ item.rtindexes := by
  cases item <;> simp [JoinTreeNode.rtindex, JoinTreeNode.rtindexes]

theorem joinRTE_of_sameEntries
    (left : rtFetch rtable' larg.rtindex = rtFetch rtable larg.rtindex)
    (right : rtFetch rtable' rarg.rtindex = rtFetch rtable rarg.rtindex) :
    joinRTE subs rtable' larg rarg = joinRTE subs rtable larg rarg := by
  simp only [joinRTE, expandRTE_of_sameEntry left, expandRTE_of_sameEntry right]

theorem JoinTreeNode.Plain.of_sameEntries
    {item : JoinTreeNode Sub} (plain : item.Plain subs rtable)
    (same : ∀ rtindex ∈ item.rtindexes, rtFetch rtable' rtindex = rtFetch rtable rtindex) :
    item.Plain subs rtable' := by
  induction item with
  | rangeTblRef rtindex => trivial
  | joinExpr jointype rtindex larg rarg quals leftHypothesis rightHypothesis =>
    have leftSame :
        ∀ rtindex ∈ larg.rtindexes, rtFetch rtable' rtindex = rtFetch rtable rtindex :=
      fun rtindex member =>
        same rtindex (by simp [JoinTreeNode.rtindexes, member])
    have rightSame :
        ∀ rtindex ∈ rarg.rtindexes, rtFetch rtable' rtindex = rtFetch rtable rtindex :=
      fun rtindex member =>
        same rtindex (by simp [JoinTreeNode.rtindexes, member])
    refine ⟨leftHypothesis plain.1 leftSame, rightHypothesis plain.2.1 rightSame, ?_⟩
    rw [same rtindex (by simp [JoinTreeNode.rtindexes]), plain.2.2,
      joinRTE_of_sameEntries (leftSame _ larg.rtindex_mem) (rightSame _ rarg.rtindex_mem)]

/-- Recomputing columns makes new join entries only. -/
theorem plannable_recreateJoinRTE (item : JoinTreeNode Sub)
    (plannable : ∀ rte ∈ rtable, rte.plannable subs = true) :
    ∀ rte ∈ recreateJoinRTE subs item rtable, rte.plannable subs = true := by
  induction item generalizing rtable with
  | rangeTblRef rtindex => exact plannable
  | joinExpr jointype rtindex larg rarg quals leftHypothesis rightHypothesis =>
    intro rte member
    simp only [recreateJoinRTE] at member
    rcases List.mem_or_eq_of_mem_set member with old | rfl
    · exact rightHypothesis (leftHypothesis plannable) rte old
    · rfl

/-- All joins of the query are plain. -/
def Query.Plain (subs : Subqueries Sub) (query : Query Sub) : Prop :=
  ∀ item ∈ query.fromlist, item.Plain subs query.rtable

theorem Query.Plain.joinQueryRTEs (wellFormed : query.WellFormed subs)
    (plain : query.Plain subs) :
    (joinQueryRTEs subs query).Plain subs := by
  have holds := @joinQueryRTEs_induction Sub subs
    (fun rtable fromlist =>
      (∃ added, rtable = query.rtable ++ added) ∧
        ∀ item ∈ fromlist, item.Plain subs rtable ∧
          ∀ rtindex ∈ item.rtindexes, rtindex ≤ rtable.length)
    query
    ⟨⟨[], by simp⟩, fun item member =>
      ⟨plain item member, wellFormed.inRange item member⟩⟩
  refine fun item isItem => ((holds ?_).2 item isItem).1
  intro rtable first second holdsFirst holdsSecond extended
  have longer : ∃ added, rtable = query.rtable ++ added := by
    rcases extended with rfl | holds
    · exact ⟨[], by simp⟩
    · exact holds.1
  rcases longer with ⟨added, isAppend⟩
  have ofItem :
      ∀ item : JoinTreeNode Sub,
        (item ∈ query.fromlist ∨
          (∃ added, rtable = query.rtable ++ added) ∧
            ∀ other ∈ [item], other.Plain subs rtable ∧
              ∀ rtindex ∈ other.rtindexes, rtindex ≤ rtable.length) →
        item.Plain subs rtable ∧ ∀ rtindex ∈ item.rtindexes, rtindex ≤ rtable.length := by
    rintro item (inQuery | holds)
    · have inRange := wellFormed.inRange item inQuery
      rw [isAppend]
      refine ⟨(plain item inQuery).of_sameEntries fun rtindex member =>
        rtFetch_append (inRange rtindex member) added, ?_⟩
      intro rtindex member
      rw [List.length_append]
      exact (inRange rtindex member).trans (by omega)
    · exact holds.2 item (by simp)
  have left := ofItem first holdsFirst
  have right := ofItem second holdsSecond
  have same :
      ∀ item : JoinTreeNode Sub, (∀ rtindex ∈ item.rtindexes, rtindex ≤ rtable.length) →
        ∀ rtindex ∈ item.rtindexes,
          rtFetch (rtable ++ [joinRTE subs rtable first second]) rtindex = rtFetch rtable rtindex :=
    fun item inside rtindex member =>
      rtFetch_append (inside rtindex member) _
  refine ⟨⟨added ++ [joinRTE subs rtable first second], ?_⟩, ?_⟩
  · rw [isAppend, List.append_assoc]
  · intro item isItem
    rw [List.mem_singleton.1 isItem]
    refine ⟨⟨left.1.of_sameEntries (same first left.2),
      right.1.of_sameEntries (same second right.2), ?_⟩, ?_⟩
    · rw [rtFetch_append_length,
        joinRTE_of_sameEntries (same first left.2 _ first.rtindex_mem)
          (same second right.2 _ second.rtindex_mem)]
    · have inside :
          ∀ other ∈ [first, second], ∀ rtindex ∈ other.rtindexes, rtindex ≤ rtable.length := by
        intro other isOther
        simp only [List.mem_cons, List.not_mem_nil, or_false] at isOther
        rcases isOther with rfl | rfl
        · exact left.2
        · exact right.2
      rw [List.length_append, List.length_singleton]
      exact inRange_joinFirst inside _ List.mem_cons_self

end Ldv.Sublink
