import Ldv.Perm.SetJoins

/-!
# Chains of joins

The FROM list of a rewritten set operation is a chain of joins: the original
set operation is joined with one rewritten input after the other.  A
`JoinChain` describes such a chain by its links, independently of the
operator.  The alias columns of each join are all columns of its two inputs,
so every column of an input can be seen at the top of the chain.
-/

namespace Ldv.Perm

open Ldv.Sql

/-! ## Links -/

/-- Which rows of an input are joined with a row of the original. -/
inductive Matching where
  | equal
  | different
  | any
deriving DecidableEq, Repr

/-- A join of the chain, with the position of its right input. -/
structure Link where
  jointype : JoinType
  matching : Matching
  input : Nat
deriving DecidableEq, Repr

/-- The join condition of a link. -/
def linkQuals (width leftIndex rightIndex : Nat) (left right : RTE) :
    Matching → Option Expr
  | .equal => setCondition width leftIndex rightIndex left right false
  | .different => setCondition width leftIndex rightIndex left right true
  | .any => some (.const BOOLOID (.bool true))

/-- The original at position one, joined with the inputs of the links. -/
inductive JoinChain (rtable : List RTE) (width : Nat) :
    List Link → JoinTreeNode → Prop where
  | start : JoinChain rtable width [] (.rangeTblRef 1)
  | link {links : List Link} {node : JoinTreeNode} {link : Link}
      {rtindex : Nat} {left right : RTE}
      (chain : JoinChain rtable width links node)
      (leftPresent : rtFetch rtable node.rtindex = some left)
      (rightPresent : rtFetch rtable link.input = some right)
      (join :
        rtFetch rtable rtindex =
          some (setJoinRTE link.jointype
            (makeRTEVars left (node.rtindex - 1) ++ makeRTEVars right (link.input - 1))))
      (freshInput : link.input ∉ node.rtindexes)
      (freshJoin : rtindex ∉ node.rtindexes)
      (distinct : link.input ≠ rtindex) :
      JoinChain rtable width (links ++ [link])
        (.joinExpr link.jointype rtindex node (.rangeTblRef link.input)
          (linkQuals width (node.rtindex - 1) (link.input - 1) left right link.matching))

section Chain

variable
  {rtable : List RTE}
  {width : Nat}
  {links : List Link}
  {node : JoinTreeNode}

theorem JoinChain.leaves_eq (chain : JoinChain rtable width links node) :
    node.leaves = 1 :: links.map Link.input := by
  induction chain with
  | start => rfl
  | link chain leftPresent rightPresent join freshInput freshJoin distinct ih =>
    simp [JoinTreeNode.leaves, ih]

theorem JoinChain.nodup (chain : JoinChain rtable width links node) :
    node.rtindexes.Nodup := by
  induction chain with
  | start => simp [JoinTreeNode.rtindexes]
  | link chain leftPresent rightPresent join freshInput freshJoin distinct ih =>
    simp only [JoinTreeNode.rtindexes, List.append_assoc, List.singleton_append]
    refine List.nodup_append.mpr ⟨ih, by
      simp [distinct], ?_⟩
    intro other inside _ added same
    subst same
    rcases List.mem_cons.mp added with rfl | added
    · exact freshInput inside
    · rw [List.mem_singleton.mp added] at inside
      exact freshJoin inside

/-! ## Columns of an entry -/

/-- Number of columns of an entry. -/
def columnCount (rte : RTE) : Nat := (getAttributesForJoin rte).length

theorem makeRTEVars_eq (rte : RTE) (rtindex : Nat) :
    makeRTEVars rte rtindex =
      (getAttributesForJoin rte).map fun te =>
        (.var (rtindex + 1) te.resno (exprType te.expr), te.resname) := by
  unfold makeRTEVars getAttributesForJoin
  split
  · rfl
  · rw [List.map_map]
    rfl

/-- The columns of the entry are numbered consecutively. -/
def Numbered (rte : RTE) : Prop :=
  (getAttributesForJoin rte).map TargetEntry.resno = List.range' 1 (columnCount rte)

theorem numbered_setJoinRTE (jointype : JoinType) (columns : List (Expr × Option String)) :
    Numbered (setJoinRTE jointype columns) := by
  rw [Numbered, columnCount, getAttributesForJoin_setJoinRTE]
  simp [Function.comp_def, List.range'_eq_map_range]

theorem Numbered.resno_eq {rte : RTE} (numbered : Numbered rte) {position : Nat} {te : TargetEntry}
    (present : (getAttributesForJoin rte)[position]? = some te) :
    te.resno = position + 1 := by
  have inside : position < columnCount rte := (List.getElem?_eq_some_iff.mp present).1
  have resno : ((getAttributesForJoin rte).map TargetEntry.resno)[position]? = some te.resno := by
    simp [present]
  rw [numbered, List.getElem?_range' inside] at resno
  have equal := Option.some.inj resno
  omega

/-- A column of an entry among the alias columns of a join. -/
theorem Numbered.getElem?_makeRTEVars {rte : RTE} (numbered : Numbered rte) (rtindex : Nat)
    {attno : Nat} (column : FirstColumns (columnCount rte) attno) :
    ∃ vartype name, (makeRTEVars rte rtindex)[attno - 1]? =
      some (.var (rtindex + 1) attno vartype, name) := by
  rcases column with ⟨positive, bounded⟩
  have inside : attno - 1 < (getAttributesForJoin rte).length := by
    rw [← columnCount]
    omega
  have present := List.getElem?_eq_getElem inside
  have resno := numbered.resno_eq present
  generalize (getAttributesForJoin rte)[attno - 1] = te at present resno
  refine ⟨exprType te.expr, te.resname, ?_⟩
  have attnoEq : te.resno = attno := by omega
  rw [makeRTEVars_eq, List.getElem?_map, present, ← attnoEq]
  rfl

/-! ## Columns at the top of the chain -/

/-- Columns of the entry at a position of the range table. -/
def entryColumns (rtable : List RTE) (rtindex attno : Nat) : Prop :=
  ∃ rte, rtFetch rtable rtindex = some rte ∧ FirstColumns (columnCount rte) attno

/-- All entries which the chain refers to have numbered columns. -/
def LeavesNumbered (rtable : List RTE) (node : JoinTreeNode) : Prop :=
  ∀ rtindex ∈ node.leaves, ∀ rte, rtFetch rtable rtindex = some rte → Numbered rte

/-- The entry of the chain itself has numbered columns. -/
theorem JoinChain.numbered (chain : JoinChain rtable width links node)
    (leaves : LeavesNumbered rtable node) {rte : RTE}
    (present : rtFetch rtable node.rtindex = some rte) :
    Numbered rte := by
  cases chain with
  | start => exact leaves 1 (by simp [JoinTreeNode.leaves]) rte present
  | link chain leftPresent rightPresent join freshInput freshJoin distinct =>
    rw [JoinTreeNode.rtindex, join] at present
    cases present
    exact numbered_setJoinRTE _ _

theorem aliasvarsAt_of_setJoinRTE {rtindex : Nat} {jointype : JoinType}
    {columns : List (Expr × Option String)}
    (join : rtFetch rtable rtindex = some (setJoinRTE jointype columns)) :
    aliasvarsAt rtable rtindex = columns.map Prod.fst := by
  rw [aliasvarsAt, join]
  rfl

/-- Columns of a numbered entry among its column references. -/
theorem exists_mem_makeRTEVars {rtindex : Nat} {rte : RTE}
    (present : rtFetch rtable rtindex = some rte) (numbered : Numbered rte) {attno : Nat}
    (column : entryColumns rtable rtindex attno) :
    ∃ vartype, .var rtindex attno vartype ∈ (makeRTEVars rte (rtindex - 1)).map Prod.fst := by
  rcases column with ⟨rte', present', inside⟩
  rw [present] at present'
  cases present'
  rcases numbered.getElem?_makeRTEVars (rtindex - 1) inside with
    ⟨vartype, name, found⟩
  have positive := (rtFetch_eq_some_iff.mp present).1
  rw [Nat.sub_add_cancel positive] at found
  exact ⟨vartype, List.mem_map.mpr ⟨_, List.mem_of_getElem? found, rfl⟩⟩

theorem JoinChain.joinsCover (chain : JoinChain rtable width links node)
    (leaves : LeavesNumbered rtable node) :
    JoinsCover (entryColumns rtable) (aliasvarsAt rtable) node := by
  induction chain with
  | start => trivial
  | @link links node link rtindex left right chain leftPresent
      rightPresent join freshInput freshJoin distinct
      ih =>
      have below : LeavesNumbered rtable node :=
        fun other inside => leaves other (by simp [JoinTreeNode.leaves, inside])
      have rightNumbered : Numbered right :=
        leaves link.input (by simp [JoinTreeNode.leaves]) right rightPresent
      have aliasvars := aliasvarsAt_of_setJoinRTE join
      rw [List.map_append] at aliasvars
      refine ⟨ih below, trivial, ?_, ?_⟩
      · rintro side (rfl | rfl) attno column
        · rcases exists_mem_makeRTEVars leftPresent (chain.numbered below leftPresent) column with
            ⟨vartype, member⟩
          exact ⟨vartype, by
            rw [aliasvars]
            exact List.mem_append_left _ member⟩
        · rcases exists_mem_makeRTEVars rightPresent rightNumbered column
            with ⟨vartype, member⟩
          exact ⟨vartype, by
            rw [aliasvars]
            exact List.mem_append_right _ member⟩
      · intro attno inside
        refine ⟨_, join, ?_⟩
        rw [columnCount, getAttributesForJoin_setJoinRTE]
        rw [aliasvarsAt_of_setJoinRTE join] at inside
        simpa using inside

/-- All columns of the inputs of a chain are seen at its top. -/
theorem JoinChain.exists_seenAs {query : Query} (chain : JoinChain query.rtable width links node)
    (leaves : LeavesNumbered query.rtable node) (fromlist : query.fromlist = [node])
    {rtindex attno : Nat} (leaf : rtindex ∈ node.leaves)
    (column : entryColumns query.rtable rtindex attno) :
    ∃ varno varattno, SeenAs query rtindex attno varno varattno := by
  rcases Routed.of_joinsCover chain.nodup (chain.joinsCover leaves) leaf
    column with ⟨attno', _, routed⟩
  refine ⟨node.rtindex, attno', Routed.seenAs ?_ ?_ leaf routed⟩
  · rw [fromlist]
    simpa using chain.nodup
  · simp [fromlist]

end Chain

/-! ## The chain of a set operation -/

/-- The links for a set operation with the given number of inputs. -/
def setLinks : SetOperation → Bool → Nat → List Link
  | .except, all, 2 =>
    [⟨.inner, .equal, 2⟩, ⟨.left, if all then .different else .any, 3⟩]
  | .union, _, count =>
    (List.range' 2 count).map fun input => ⟨.left, .equal, input⟩
  | _, _, count =>
    (List.range' 2 count).map fun input => ⟨.inner, .equal, input⟩

section SetTop

variable
  {final : List RTE}
  {width : Nat}
  {jointype : JoinType}

/-- Further joins extend a chain. -/
theorem JoinChain.chainJoins (jointype : JoinType) (items : List (RTE × Nat)) {links : List Link}
    {node : JoinTreeNode} {lastIndex : Nat} {last : RTE} (chain : JoinChain final width links node)
    (atLast : node.rtindex = lastIndex + 1)
    (lastPresent : rtFetch final (lastIndex + 1) = some last)
    (inputs :
      ∀ item ∈ items, rtFetch final (item.2 + 1) = some item.1 ∧
        item.2 < lastIndex ∧ item.2 + 1 ∉ node.rtindexes)
    (nodup : (items.map Prod.snd).Nodup)
    (bounded : ∀ rtindex ∈ node.rtindexes, rtindex ≤ lastIndex + 1)
    (joins :
      ∀ position rte,
        (Perm.chainJoins jointype width items lastIndex last node).1[position]? = some rte →
        rtFetch final (lastIndex + 2 + position) = some rte) :
    JoinChain final width
      (links ++ items.map fun item => ⟨jointype, .equal, item.2 + 1⟩)
      (Perm.chainJoins jointype width items lastIndex last node).2 := by
  induction items generalizing links node lastIndex last with
  | nil => simpa [Perm.chainJoins] using chain
  | cons item rest ih =>
    rcases item with ⟨input, index⟩
    rcases inputs (input, index) (by simp) with
      ⟨present, below, fresh⟩
    have joinPresent :
        rtFetch final (lastIndex + 2) =
          some (setJoinRTE jointype (makeRTEVars last lastIndex ++ makeRTEVars input index)) :=
      joins 0 _ rfl
    have freshJoin : lastIndex + 2 ∉ node.rtindexes :=
      fun inside => absurd (bounded _ inside) (by omega)
    have extended :
        JoinChain final width (links ++ [⟨jointype, .equal, index + 1⟩])
          (.joinExpr jointype (lastIndex + 2) node (.rangeTblRef (index + 1))
            (linkQuals width (node.rtindex - 1) (index + 1 - 1) last input .equal)) :=
      .link chain (by rw [atLast, lastPresent]) present
        (by rw [atLast]; exact joinPresent) fresh freshJoin
        (by simp; omega)
    rw [atLast] at extended
    simp only [Nat.add_sub_cancel, linkQuals] at extended
    rw [List.map_cons, List.nodup_cons] at nodup
    have further := ih extended rfl joinPresent ?_ nodup.2 ?_ ?_
    · simpa [Perm.chainJoins] using further
    · intro item member
      rcases inputs item (by simp [member]) with
        ⟨present', below', fresh'⟩
      refine ⟨present', by omega, ?_⟩
      have other : item.2 ≠ index := fun same =>
        nodup.1 (List.mem_map.mpr ⟨item, member, same⟩)
      simp [JoinTreeNode.rtindexes, fresh', other]
      omega
    · intro rtindex inside
      simp only [JoinTreeNode.rtindexes, List.mem_append, List.mem_singleton] at inside
      rcases inside with (inside | rfl) | rfl
      · have := bounded rtindex inside
        omega
      · omega
      · omega
    · intro position rte isJoin
      have := joins (position + 1) rte isJoin
      rw [← this]
      congr 1
      omega

theorem JoinChain.inputJoins (jointype : JoinType) (width : Nat) (original first : RTE)
    (rest : List RTE)
    (rtable :
      final = original :: first :: rest ++
        (Perm.inputJoins jointype width original (first :: rest)).1) :
    JoinChain final width
      ((List.range' 2 (rest.length + 1)).map fun input =>
        ⟨jointype, .equal, input⟩)
      (Perm.inputJoins jointype width original (first :: rest)).2 := by
  have joinAt :
      ∀ position rte,
        (Perm.inputJoins jointype width original (first :: rest)).1[position]? = some rte →
        rtFetch final (rest.length + 3 + position) = some rte := by
    intro position rte present
    rw [rtable, rtFetch_eq_some_iff]
    refine ⟨by omega, ?_⟩
    rw [List.getElem?_append_right (by simp), ← present]
    congr 1
    simp
  have joinPresent :
      rtFetch final (rest.length + 3) =
        some (setJoinRTE jointype (makeRTEVars original 0 ++ makeRTEVars first 1)) :=
    joinAt 0 _ rfl
  have chain :
      JoinChain final width [⟨jointype, .equal, 2⟩]
        (.joinExpr jointype (rest.length + 3) (.rangeTblRef 1)
          (.rangeTblRef 2) (setCondition width 0 1 original first false)) :=
    .link .start (by rw [rtable]; rfl) (by rw [rtable]; rfl) joinPresent
      (by simp [JoinTreeNode.rtindexes])
      (by simp [JoinTreeNode.rtindexes]) (by simp)
  have further := chain.chainJoins jointype (rest.zipIdx 2) rfl
    joinPresent ?_ ?_ ?_ fun position rte present => ?_
  · have links :
        (List.range' 2 (rest.length + 1)).map (fun input => (⟨jointype, .equal, input⟩ : Link)) =
          [⟨jointype, .equal, 2⟩] ++
            (rest.zipIdx 2).map fun item =>
              ⟨jointype, .equal, item.2 + 1⟩ := by
      have positions :
          (rest.zipIdx 2).map (fun item => 1 + item.2) = List.range' 3 rest.length := by
        have shifted :
            (List.range' 2 rest.length).map (fun index => 1 + index) = List.range' 3 rest.length :=
          List.map_add_range' 2 rest.length 1
        rw [← List.zipIdx_map_snd 2 rest, List.map_map] at shifted
        exact shifted
      rw [List.range'_succ, List.map_cons, ← positions, List.map_map]
      simp [Nat.add_comm]
    rw [links]
    exact further
  · rintro ⟨input, index⟩ member
    rw [List.mem_zipIdx_iff_le_and_getElem?_sub] at member
    rcases member with ⟨lower, present⟩
    have upper := (List.getElem?_eq_some_iff.mp present).1
    refine ⟨?_, by omega, ?_⟩
    · rw [rtFetch, rtable, List.getElem?_append_left (by simp; omega), ← present]
      rcases Nat.exists_eq_add_of_le' lower with ⟨position, rfl⟩
      rfl
    · simp [JoinTreeNode.rtindexes]
      omega
  · rw [List.zipIdx_map_snd]
    exact List.nodup_range'
  · intro rtindex inside
    simp [JoinTreeNode.rtindexes] at inside
    omega
  · rw [← joinAt (position + 1) rte present]
    congr 1
    omega

theorem JoinChain.differenceJoins (all : Bool) (width : Nat) (original left right : RTE)
    (rtable :
      final = [original, left, right] ++
        (Perm.differenceJoins all width original left right).1) :
    JoinChain final width
      [⟨.inner, .equal, 2⟩, ⟨.left, if all then .different else .any, 3⟩]
      (Perm.differenceJoins all width original left right).2 := by
  subst rtable
  have inner :
      JoinChain ([original, left, right] ++ (Perm.differenceJoins all width original left right).1)
        width [⟨.inner, .equal, 2⟩]
        (.joinExpr .inner 4 (.rangeTblRef 1) (.rangeTblRef 2)
          (setCondition width 0 1 original left false)) :=
    .link .start rfl rfl rfl (by simp [JoinTreeNode.rtindexes])
      (by simp [JoinTreeNode.rtindexes]) (by simp)
  have outer (matching : Matching) :
      JoinChain ([original, left, right] ++ (Perm.differenceJoins all width original left right).1)
        width ([⟨.inner, .equal, 2⟩] ++ [⟨.left, matching, 3⟩])
        (.joinExpr .left 5
          (.joinExpr .inner 4 (.rangeTblRef 1) (.rangeTblRef 2)
            (setCondition width 0 1 original left false))
          (.rangeTblRef 3)
          (linkQuals width 3 2
            (setJoinRTE .inner (makeRTEVars original 0 ++ makeRTEVars left 1)) right
            matching)) :=
    .link inner rfl rfl rfl (by simp [JoinTreeNode.rtindexes])
      (by simp [JoinTreeNode.rtindexes]) (by simp)
  cases all with
  | true => exact outer .different
  | false => exact outer .any

/-- The FROM list of a rewritten set operation is a chain. -/
theorem joinChain_setTop (query : Query) (op : SetOperation) (all : Bool) {inputs : List RTE}
    (nonempty : inputs ≠ []) :
    ∃ node, (setTop query op all inputs).fromlist = [node] ∧
      JoinChain (setTop query op all inputs).rtable
        query.targetList.length (setLinks op all inputs.length) node := by
  refine ⟨_, rfl, ?_⟩
  have plain (jointype : JoinType) :
      JoinChain
        (correctRTEAlias (subqueryRTE query "originalSet") ::
          inputs.map correctRTEAlias ++
            (Perm.inputJoins jointype query.targetList.length
              (correctRTEAlias (subqueryRTE query "originalSet"))
              (inputs.map correctRTEAlias)).1)
        query.targetList.length
        ((List.range' 2 inputs.length).map fun input =>
          ⟨jointype, .equal, input⟩)
        (Perm.inputJoins jointype query.targetList.length
          (correctRTEAlias (subqueryRTE query "originalSet"))
          (inputs.map correctRTEAlias)).2 := by
    cases inputs with
    | nil => contradiction
    | cons first rest =>
      have chain := JoinChain.inputJoins jointype query.targetList.length
        (correctRTEAlias (subqueryRTE query "originalSet"))
        (correctRTEAlias first) (rest.map correctRTEAlias) rfl
      simpa using chain
  cases op with
  | union => exact plain .left
  | intersect => exact plain .inner
  | except =>
    match inputs, plain .inner with
    | [left, right], _ => exact JoinChain.differenceJoins all _ _ _ _ rfl
    | [], _ => contradiction
    | [_], chain => exact chain
    | _ :: _ :: _ :: _, chain => exact chain

end SetTop

/-!
## The query over a set operation and its inputs

The restructured tree of a set operation determines the inputs of the
rewritten query.  All of them are subqueries with the columns of the
result, and their provenance attributes can be seen at the top of the joins.
-/

variable {rte : RTE} {inputs rtable : List RTE} {lists : List (List TargetEntry)}

/-! ## Inputs of the restructured tree -/

section Tree

variable
  {query : Query}
  {tree : SetOpNode}
  {op : SetOperation}
  {all : Bool}
  {colTypes : List Oid}
  {larg rarg : OpTree}

theorem length_takeOut (query : Query) (part : OpTree) :
    (takeOut query part).leaves.length = 1 := by
  cases part <;> rfl

/-- There are at least two inputs, and EXCEPT has exactly two. -/
theorem length_restructure (query : Query) (op : SetOperation) (all : Bool) (colTypes : List Oid)
    (larg rarg : OpTree) :
    2 ≤ (restructure query op
        (.node op all colTypes larg rarg)).leaves.length ∧
      (op = .except →
        (restructure query op (.node op all colTypes larg rarg)).leaves.length = 2) := by
  have left := (restructure query op larg).leaves_pos
  have right := (restructure query op rarg).leaves_pos
  cases op <;>
    simp [restructure, OpTree.leaves, length_takeOut] <;> omega

/-- All inputs have the columns of the result. -/
theorem SetOk.visibleCount_eq (ok : SetOk query tree) {opTree : OpTree}
    (same : query = ofTree query opTree)
    (member : rte ∈ (restructure query op opTree).leaves) {sub : Query}
    (kind : rte.kind = .subquery sub) :
    sub.visibleCount = query.targetList.length := by
  rcases isInput_restructure member with leaf | ⟨part, _, _, rfl⟩
  · rw [← ofTree_rtable same] at leaf
    have fits := (ok.inputs rte leaf).2
    have descends := (ok.rewritten same member kind).2
    simpa [descends] using fits
  · cases kind
    have visible := nonJunk_of_visible ok.visible
    rw [nonJunk] at visible
    simp [Query.visibleCount, ofTree, visible]

/-- All inputs are subqueries. -/
theorem SetOk.exists_subquery (ok : SetOk query tree) {opTree : OpTree}
    (same : query = ofTree query opTree)
    (member : rte ∈ (restructure query op opTree).leaves) :
    ∃ sub, rte.kind = .subquery sub := by
  rcases isInput_restructure member with leaf | ⟨part, _, _, rfl⟩
  · rw [← ofTree_rtable same] at leaf
    have fits := (ok.inputs rte leaf).2
    cases descends : recursesInto rte with
    | none => simp [descends] at fits
    | some sub => exact ⟨sub, kind_of_recursesInto descends⟩
  · exact ⟨_, rfl⟩

end Tree

theorem visibleCount_le_originalWidth (query : Query) :
    query.visibleCount ≤ originalWidth query := by
  unfold originalWidth
  split
  · exact le_refl _
  · exact visibleCount_le query

/-! ## Entries -/

section Entries

variable
  {R : Rel}
  {query : Query}

theorem getAttributesForJoin_subquery {sub : Query} (kind : rte.kind = .subquery sub) :
    getAttributesForJoin rte = sub.targetList := by
  simp [getAttributesForJoin, kind]

/-- The entries of a set operation and its inputs. -/
theorem rtFetch_setTop (query : Query) (op : SetOperation) (all : Bool)
    {position : Nat} {input : RTE} (present : inputs[position]? = some input) :
    rtFetch (setTop query op all inputs).rtable (position + 2) = some (correctRTEAlias input) := by
  have inside := (List.getElem?_eq_some_iff.mp present).1
  rw [rtFetch, setTop, List.cons_append, List.getElem?_cons_succ,
    List.getElem?_append_left (by simpa using inside),
    List.getElem?_map, present]
  rfl

theorem SetInputs.fetch
    (rewritten : SetInputs R rtable inputs lists) {position : Nat} {pList : List TargetEntry}
    (present : lists[position]? = some pList) :
    ∃ rte input sub sub', rtable[position]? = some rte ∧
      inputs[position]? = some input ∧ rte.kind = .subquery sub ∧
      input.kind = .subquery sub' ∧ R sub sub' pList := by
  induction rewritten generalizing position with
  | nil => simp at present
  | cons kind related tail ih =>
    cases position with
    | zero =>
      cases present
      exact ⟨_, _, _, _, rfl, rfl, kind, rfl, related⟩
    | succ position => exact ih present

/-- The input that an attribute belongs to. -/
theorem SetInputs.of_mem_attributesOf (rewritten : SetInputs R rtable inputs lists)
    {attr : Nat × TargetEntry} (member : attr ∈ attributesOf (List.range' 2 inputs.length) lists) :
    ∃ position rte input sub sub' pList, attr.1 = position + 2 ∧ rtable[position]? = some rte ∧
      inputs[position]? = some input ∧ rte.kind = .subquery sub ∧ input.kind = .subquery sub' ∧
      R sub sub' pList ∧ attr.2 ∈ pList := by
  rcases List.mem_flatMap.mp member with ⟨⟨rtindex, pList⟩, paired, inside⟩
  rcases List.mem_map.mp inside with ⟨te, isAttr, rfl⟩
  rcases List.mem_iff_getElem?.mp paired with ⟨position, atPosition⟩
  rw [List.getElem?_zip_eq_some] at atPosition
  rcases rewritten.fetch atPosition.2 with
    ⟨rte, input, sub, sub', isLeaf, isInput, leafKind, kind, related⟩
  have index := atPosition.1
  rw [List.getElem?_range' (List.getElem?_eq_some_iff.mp isInput).1, Option.some.injEq] at index
  exact ⟨position, rte, input, sub, sub', pList, by simp only; omega, isLeaf, isInput, leafKind,
    kind, related, isAttr⟩

theorem setLinks_input (op : SetOperation) (all : Bool) (count : Nat) :
    (setLinks op all count).map Link.input = List.range' 2 count := by
  unfold setLinks
  split <;> simp [Function.comp_def, List.range'_succ]

theorem leavesNumbered_setTop {op : SetOperation} {all : Bool} {width : Nat} {node : JoinTreeNode}
    (numbered : query.targetList.map TargetEntry.resno = List.range' 1 query.targetList.length)
    (rewritten : SetInputs R rtable inputs lists)
    (chain :
      JoinChain (setTop query op all inputs).rtable width (setLinks op all inputs.length) node)
    (known :
      ∀ sub sub' subAttrs, R sub sub' subAttrs →
        sub'.targetList.map TargetEntry.resno = List.range' 1 sub'.targetList.length) :
    LeavesNumbered (setTop query op all inputs).rtable node := by
  have lengths := rewritten.lengths_eq
  intro rtindex leaf rte present
  rw [chain.leaves_eq, setLinks_input] at leaf
  rcases List.mem_cons.mp leaf with rfl | leaf
  · cases present
    exact numbered
  · rw [List.mem_range'_1] at leaf
    have inside : rtindex - 2 < lists.length := by omega
    rcases rewritten.fetch (List.getElem?_eq_getElem inside) with
      ⟨_, input, sub, sub', _, isInput, _, kind, related⟩
    have fetched := rtFetch_setTop query op all isInput
    rw [Nat.sub_add_cancel leaf.1, present] at fetched
    cases fetched
    have columns := getAttributesForJoin_subquery ((correctRTEAlias_kind input).trans kind)
    rw [Numbered, columnCount, columns]
    exact known _ _ _ related

/-- The attributes of all inputs can be led through the joins. -/
theorem exists_seenAs_setTop (op : SetOperation) (all : Bool)
    (numbered : query.targetList.map TargetEntry.resno = List.range' 1 query.targetList.length)
    (nonempty : inputs ≠ []) (rewritten : SetInputs R rtable inputs lists)
    (known :
      ∀ sub sub' subAttrs, R sub sub' subAttrs →
        sub'.targetList.map TargetEntry.resno =
            List.range' 1 sub'.targetList.length ∧
          ∀ te ∈ subAttrs, FirstColumns sub'.targetList.length te.resno) :
    ∀ attr ∈ attributesOf (List.range' 2 inputs.length) lists,
      ∃ varno varattno,
        SeenAs (setTop query op all inputs) attr.1 attr.2.resno varno
          varattno := by
  rcases joinChain_setTop query op all nonempty with
    ⟨node, fromlist, chain⟩
  have lengths := rewritten.lengths_eq
  have leaves := leavesNumbered_setTop numbered rewritten chain
    fun sub sub' subAttrs related => (known _ _ _ related).1
  rintro ⟨rtindex, te⟩ member
  rcases rewritten.of_mem_attributesOf member with
    ⟨position, rte, input, sub, sub', pList, index, _, isInput, _, kind, related, isAttr⟩
  have bound := (List.getElem?_eq_some_iff.mp isInput).1
  simp only at index isAttr ⊢
  rw [index]
  have leaf : position + 2 ∈ node.leaves := by
    rw [chain.leaves_eq, setLinks_input]
    exact List.mem_cons_of_mem _ (List.mem_range'_1.mpr (by omega))
  have column :
      entryColumns (setTop query op all inputs).rtable (position + 2)
        te.resno := by
    refine ⟨_, rtFetch_setTop query op all isInput, ?_⟩
    rw [columnCount, getAttributesForJoin_subquery ((correctRTEAlias_kind input).trans kind)]
    exact (known _ _ _ related).2 te isAttr
  exact chain.exists_seenAs leaves fromlist leaf column

end Entries

end Ldv.Perm
