import Ldv.Perm.ChainRows
import Ldv.Perm.OpTreeRows

/-!
# Rows of rewritten set operations

A row of a rewritten set operation is a row of the original, followed by the
provenance columns of the rows which the links of the join chain choose from
its rewritten inputs.
-/

namespace Ldv.Perm

open Ldv.Sql

variable {row : Row} {query' : Query} {pList : List TargetEntry} {link : Link}

/-! ## Numbers of columns -/

/-- Rows of a well-formed query have a value for each target entry. -/
theorem WellFormed.length_of_mem_eval {cat : Catalog} {query : Query}
    (wellFormed : WellFormed cat query) {inst : Instance}
    (member : row ∈ query.eval inst) :
    row.length = query.targetList.length := by
  generalize size : query.size = n
  induction n using Nat.strong_induction_on generalizing query row with
  | _ n ih =>
    cases setOp : query.setOperations with
    | none => exact Sql.length_of_mem_eval setOp member
    | some tree =>
      have ok := wellFormed.nodeOk.setOk setOp
      rw [Query.eval_eq_nodeRows] at member
      have plain := mem_plainRows_of_mem_nodeRows inst member
      rw [Query.plainRows, setOp] at plain
      rcases SetOpNode.exists_of_mem_eval plain with
        ⟨rtindex, _, found⟩
      rcases List.mem_map.mp found with ⟨whole, isInput, rfl⟩
      rw [inputRows] at isInput
      cases present : rtFetch query.rtable rtindex with
      | none => simp [present] at isInput
      | some rte =>
        have isEntry : rte ∈ query.rtable :=
          List.mem_of_getElem? (rtFetch_eq_some_iff.mp present).2
        have fits := (ok.inputs rte isEntry).2
        cases descends : recursesInto rte with
        | none => simp [descends] at fits
        | some sub =>
          have kind := kind_of_recursesInto descends
          have reaches : Reaches query sub := .subquery isEntry (ok.inputs rte isEntry).1 descends
          simp only [present, evalRTE_subquery inst kind] at isInput
          have whole := ih sub.size (size ▸ reaches.size_lt)
            (reaches.wellFormed wellFormed) isInput rfl
          have wide := visibleCount_le sub
          simp only [descends, Option.any_some, beq_iff_eq] at fits
          simp
          omega

theorem NodeShape.noSetOp {cat : Catalog} {R : Rel} {query : Query}
    (shape : NodeShape cat R query query' pList) :
    query'.setOperations = none := by
  cases shape with
  | spj noAggs noSetOp noLimit shape =>
    cases shape
    exact noSetOp
  | limit noAggs noSetOp limited visible shape => rfl
  | agg aggs shape =>
    cases shape
    rfl
  | set noAggs setOp shape =>
    cases shape
    rfl

/-- The columns of a rewritten query, and of its rows. -/
structure ColumnsOk (inst : Instance) (query query' : Query)
    (pList : List TargetEntry) :
    Prop where
  atEnd : AtEnd query query' pList
  numbered : query'.targetList.map TargetEntry.resno = List.range' 1 query'.targetList.length
  long : ∀ row ∈ query'.eval inst, row.length = query'.targetList.length

theorem NodeShape.columnsOk {cat : Catalog} {R : Rel} {query : Query}
    (shape : NodeShape cat R query query' pList)
    (targets : TargetsOk query) (inst : Instance) :
    ColumnsOk inst query query' pList where
  atEnd := shape.atEnd
  numbered := shape.numbered targets
  long _ member := Sql.length_of_mem_eval shape.noSetOp member

theorem Rewritten.columnsOk {cat : Catalog} {n : Nat} {query : Query}
    (rewritten : Rewritten cat n query query' pList)
    (targets : TargetsOk query) (inst : Instance) :
    ColumnsOk inst query query' pList := by
  cases n with
  | zero => exact rewritten.elim
  | succ n => exact NodeShape.columnsOk rewritten targets inst

theorem ColumnsOk.wide {inst : Instance} {query : Query}
    (ok : ColumnsOk inst query query' pList) :
    query.visibleCount ≤ query'.targetList.length := by
  rw [ok.atEnd.length]
  exact Nat.le_add_right_of_le (visibleCount_le_originalWidth query)

/-! ## The joins of a set operation -/

section SetNode

variable
  {cat : Catalog}
  {R : Rel}
  {query : Query}
  {op : SetOperation}
  {all : Bool}
  {colTypes : List Oid}
  {larg rarg : OpTree}
  {inputs : List RTE}
  {lists : List (List TargetEntry)}
  {inst : Instance}

theorem inputRows_setTop_one (inst : Instance) (query : Query) (op : SetOperation) (all : Bool)
    (inputs : List RTE) :
    inputRows inst (setTop query op all inputs).rtable 1 = query.eval inst := by
  simp only [inputRows, rtFetch, setTop, List.cons_append, List.getElem?_cons_zero]
  exact evalRTE_subquery inst (correctRTEAlias_kind (subqueryRTE query "originalSet"))

theorem inputRows_setTop (inst : Instance) (query : Query) (op : SetOperation) (all : Bool)
    {position : Nat} {input : RTE} {sub' : Query} (present : inputs[position]? = some input)
    (kind : input.kind = .subquery sub') :
    inputRows inst (setTop query op all inputs).rtable (position + 2) = sub'.eval inst := by
  simp [inputRows, rtFetch_setTop query op all present,
    evalRTE_subquery inst ((correctRTEAlias_kind input).trans kind)]

theorem setLinks_keepsRight {count : Nat} (member : link ∈ setLinks op all count) :
    link.jointype.keepsRight = false := by
  unfold setLinks at member
  split at member
  · rcases List.mem_pair.mp member with rfl | rfl <;> rfl
  all_goals
    rcases List.mem_map.mp member with ⟨_, _, rfl⟩
    rfl

/-- The original columns in a combination of the joins. -/
theorem targetRow_original (wellFormed : WellFormed cat query) {setTree : SetOpNode}
    (setOp : query.setOperations = some setTree) {env : Env} (atOne : env 1 = some row)
    (member : row ∈ query.eval inst) :
    targetRow inst env.lookup [] query.targetList = row := by
  have ok := wellFormed.nodeOk.setOk setOp
  have long := wellFormed.length_of_mem_eval member
  apply List.ext_getElem
  · simp [targetRow, long]
  · intro position bound bound'
    have inside : position < query.targetList.length := by
      simpa [targetRow] using bound
    have column := ok.columns (query.targetList[position], position + 1)
      (List.mk_mem_zipIdx_iff_le_and_getElem?_sub.mpr ⟨by omega, by simp [inside]⟩)
    have isColumn : ∃ vartype, query.targetList[position].expr = .var 1 (position + 1) vartype :=
      isVarOf_iff.mp column
    rcases isColumn with ⟨vartype, isVar⟩
    simp only [targetRow, List.getElem_map, isVar, Expr.eval, Env.lookup,
      atOne, Row.column, Nat.add_sub_cancel, List.getD_eq_getElem?_getD,
      List.getElem?_eq_getElem bound', Option.getD_some]

/-- The provenance columns for choices of rows of the inputs. -/
def provenanceOf (lists : List (List TargetEntry))
    (choice : Nat → Option Row) :
    Row :=
  ((List.range' 2 lists.length).zip lists).flatMap fun (rtindex, pList) =>
    provColumns pList (choice rtindex)

theorem provenanceOf_congr {choice choice' : Nat → Option Row}
    (same : ∀ rtindex ∈ List.range' 2 lists.length, choice rtindex = choice' rtindex) :
    provenanceOf lists choice = provenanceOf lists choice' := by
  apply List.flatMap_congr
  rintro ⟨rtindex, pList⟩ member
  exact congrArg (provColumns pList) (same rtindex (List.of_mem_zip member).1)

/-! ## The original columns -/

theorem exists_chosen {width : Nat} {rows : List Row}
    (found :
      link.jointype.keepsLeft = false → ∃ partner ∈ rows, Matches width link.matching row partner) :
    ∃ choice, Chosen width link row rows choice := by
  by_cases partner : ∃ partner ∈ rows, Matches width link.matching row partner
  · rcases partner with ⟨partner, isRow, matched⟩
    exact ⟨some partner, .inl ⟨partner, isRow, matched, rfl⟩⟩
  · refine ⟨none, .inr ⟨?_, ?_, rfl⟩⟩
    · rw [← Bool.not_eq_false]
      exact fun inner => partner (found inner)
    · exact fun row isRow matched => partner ⟨row, isRow, matched⟩

/-- Inner joins are with inputs that hold all rows of the result. -/
theorem setLinks_inner {count : Nat} (two : op = .except → count = 2)
    (member : link ∈ setLinks op all count) (inner : link.jointype.keepsLeft = false) :
    link.matching = .equal ∧ (op = .intersect ∨ op = .except ∧ link.input = 2) := by
  unfold setLinks at member
  split at member
  · rcases List.mem_pair.mp member with rfl | rfl
    · exact ⟨rfl, .inr ⟨rfl, rfl⟩⟩
    · contradiction
  · rcases List.mem_map.mp member with ⟨_, _, rfl⟩
    contradiction
  · rcases List.mem_map.mp member with ⟨_, _, rfl⟩
    refine ⟨rfl, ?_⟩
    cases op with
    | intersect => exact .inl rfl
    | union => simp_all
    | except => simp_all

/-- All inputs of a set operation have its columns. -/
theorem SetOk.long (wellFormed : WellFormed cat query) {setTree : SetOpNode}
    (ok : SetOk query setTree) {rte : RTE} (member : rte ∈ query.rtable)
    (isRow : row ∈ Query.evalRTE inst rte) :
    query.targetList.length ≤ row.length := by
  have fits := (ok.inputs rte member).2
  cases descends : recursesInto rte with
  | none => simp [descends] at fits
  | some sub =>
    have kind := kind_of_recursesInto descends
    have reaches : Reaches query sub := .subquery member (ok.inputs rte member).1 descends
    rw [evalRTE_subquery inst kind] at isRow
    rw [(reaches.wellFormed wellFormed).length_of_mem_eval isRow]
    simp only [descends, Option.any_some, beq_iff_eq] at fits
    exact fits ▸ visibleCount_le sub

/-- Is the leaf at a position joined by an inner join? -/
def IsInner (op : SetOperation) (position : Nat) : Prop :=
  op = .intersect ∨ op = .except ∧ position = 0

/-- Leaves of inner joins hold all rows of the result. -/
theorem mem_leaf_of_inner (wellFormed : WellFormed cat query) (noLimit : query.NoLimit)
    (tree : query = ofTree query (.node op all colTypes larg rarg))
    (member : row ∈ query.eval inst) {position : Nat} {rte : RTE}
    (leaf : (restructure query op (.node op all colTypes larg rarg)).leaves[position]? = some rte)
    (inner : IsInner op position) :
    row ∈ (OpTree.leaf rte).rows inst query.targetList.length := by
  have setOp : query.setOperations = some _ := congrArg Query.setOperations tree
  have ok := wellFormed.nodeOk.setOk setOp
  have inTree :
      row ∈ (restructure query op (.node op all colTypes larg rarg)).rows
        inst query.targetList.length := by
    have uncut := @limitRows_of_noLimit query noLimit
    have restructured := rows_restructure_perm inst ok.noDistinct uncut op
      fun rte isLeaf row isRow => ok.long wellFormed (ofTree_rtable tree ▸ isLeaf) isRow
    rw [restructured.mem_iff, ← (eval_ofTree_perm inst ok.noDistinct uncut _).mem_iff, ← tree]
    exact member
  rcases inner with rfl | ⟨rfl, rfl⟩
  · exact mem_rows_of_mem_intersect inst inTree (List.mem_of_getElem? leaf)
  · exact mem_rows_of_mem_except inst inTree leaf

/-- Leaves of inner joins hold a row, and their rewrite keeps their rows. -/
def InnerKept (inst : Instance) (R : Rel) (op : SetOperation)
    (width : Nat) (leaves : List RTE) (row : Row) :
    Prop :=
  ∀ position rte sub, leaves[position]? = some rte →
    rte.kind = .subquery sub → IsInner op position →
      row ∈ (OpTree.leaf rte).rows inst width ∧
        ∀ sub' subAttrs, R sub sub' subAttrs →
          SameRows sub.visibleCount (sub.eval inst) (sub'.eval inst)

section Rewritten

variable (wellFormed : WellFormed cat query)
  (tree : query = ofTree query (.node op all colTypes larg rarg))
  (rewritten :
    SetInputs R (restructure query op (.node op all colTypes larg rarg)).leaves inputs lists)

include wellFormed tree rewritten

/-- Each row of the result has a choice for every link. -/
theorem exists_choices (member : row ∈ query.eval inst)
    (kept :
      InnerKept inst R op query.targetList.length
        (restructure query op (.node op all colTypes larg rarg)).leaves
        row) :
    ∃ choice : Nat → Option Row,
      ∀ link ∈ setLinks op all inputs.length,
        Chosen query.targetList.length link row
          (inputRows inst (setTop query op all inputs).rtable link.input)
          (choice link.input) := by
  have setOp : query.setOperations = some _ := congrArg Query.setOperations tree
  have ok := wellFormed.nodeOk.setOk setOp
  have lengths := rewritten.lengths_eq
  have two : op = .except → inputs.length = 2 := fun isExcept =>
    lengths.1.trans ((length_restructure query op all colTypes larg rarg).2 isExcept)
  have long := wellFormed.length_of_mem_eval member
  have single {link : Link}
      (isLink : link ∈ setLinks op all inputs.length) :
      ∃ choice, Chosen query.targetList.length link row
        (inputRows inst (setTop query op all inputs).rtable link.input)
        choice := by
    apply exists_chosen
    intro inner
    rcases setLinks_inner two isLink inner with ⟨equal, holds⟩
    have inside : link.input ∈ List.range' 2 inputs.length :=
      setLinks_input op all inputs.length ▸ List.mem_map_of_mem isLink
    rw [List.mem_range'_1] at inside
    rcases rewritten.fetch (List.getElem?_eq_getElem
      (show link.input - 2 < lists.length by omega)) with
      ⟨rte, input, sub, sub', isLeaf, isInput, kind, kind', related⟩
    rcases kept _ rte sub isLeaf kind (holds.imp_right fun first => ⟨first.1, by omega⟩) with
      ⟨inLeaf, same⟩
    have visible := ok.visibleCount_eq tree (List.mem_of_getElem? isLeaf) kind
    rw [OpTree.rows, evalRTE_subquery inst kind, ← visible, same _ _ related row] at inLeaf
    rcases List.mem_map.mp inLeaf with ⟨partner, isPartner, equalRows⟩
    have fetched := inputRows_setTop inst query op all isInput kind'
    rw [Nat.sub_add_cancel inside.1] at fetched
    rw [equal, fetched]
    refine ⟨partner, isPartner, ?_⟩
    rw [Matches, RowSim, ← visible, equalRows, List.take_of_length_le]
    omega
  have nodup : ((setLinks op all inputs.length).map Link.input).Nodup := by
    rw [setLinks_input]
    exact List.nodup_range'
  have indexed (rtindex : Nat) :
      ∃ choice, ∀ link ∈ setLinks op all inputs.length,
        link.input = rtindex →
          Chosen query.targetList.length link row
            (inputRows inst (setTop query op all inputs).rtable rtindex)
            choice := by
    by_cases used : ∃ link ∈ setLinks op all inputs.length, link.input = rtindex
    · rcases used with ⟨link, isLink, rfl⟩
      rcases single isLink with ⟨choice, chosen⟩
      refine ⟨choice, fun other isOther same => ?_⟩
      rwa [List.inj_on_of_nodup_map nodup isOther isLink same]
    · exact ⟨none, fun link isLink same =>
        (used ⟨link, isLink, same⟩).elim⟩
  choose choice chosen using indexed
  exact ⟨choice, fun link isLink => chosen link.input link isLink rfl⟩

variable (known : ∀ sub sub' subAttrs, R sub sub' subAttrs → ColumnsOk inst sub sub' subAttrs)

include known

/-- All inputs of the joins have the columns of the set operation. -/
theorem chainOk_setTop {node : JoinTreeNode}
    (chain :
      JoinChain (setTop query op all inputs).rtable
        query.targetList.length (setLinks op all inputs.length) node) :
    ChainOk inst (setTop query op all inputs).rtable
      query.targetList.length (setLinks op all inputs.length) node := by
  have setOp : query.setOperations = some _ := congrArg Query.setOperations tree
  have ok := wellFormed.nodeOk.setOk setOp
  have lengths := rewritten.lengths_eq
  have entry {rtindex : Nat}
      (leaf : rtindex ∈ node.leaves) :
      rtindex = 1 ∨
        ∃ position input sub sub' subAttrs, rtindex = position + 2 ∧
          inputs[position]? = some input ∧
          input.kind = .subquery sub' ∧ R sub sub' subAttrs ∧
          sub.visibleCount = query.targetList.length := by
    rw [chain.leaves_eq, setLinks_input] at leaf
    rcases List.mem_cons.mp leaf with rfl | leaf
    · exact .inl rfl
    · rw [List.mem_range'_1] at leaf
      have inside : rtindex - 2 < lists.length := by omega
      rcases rewritten.fetch (List.getElem?_eq_getElem inside) with
        ⟨rte, input, sub, sub', isLeaf, isInput, kind, kind', related⟩
      exact .inr ⟨rtindex - 2, input, sub, sub', _, by omega, isInput, kind', related,
        ok.visibleCount_eq tree (List.mem_of_getElem? isLeaf) kind⟩
  refine ⟨?_, ?_, ?_, ?_, fun link member => setLinks_keepsRight member⟩
  · have nonempty := ok.nonempty
    simpa using nonempty
  · exact leavesNumbered_setTop wellFormed.nodeOk.targets.numbered
      rewritten chain fun sub sub' subAttrs related =>
        (known _ _ _ related).numbered
  · intro rtindex leaf rte present
    rcases entry leaf with
      rfl | ⟨position, input, sub, sub', subAttrs, rfl, isInput, kind, related, visible⟩
    · cases present
      exact le_refl _
    · rw [rtFetch_setTop query op all isInput] at present
      cases present
      rw [columnCount, getAttributesForJoin_subquery
        ((correctRTEAlias_kind input).trans kind), ← visible]
      exact (known _ _ _ related).wide
  · intro rtindex leaf row member
    rcases entry leaf with
      rfl | ⟨position, input, sub, sub', subAttrs, rfl, isInput, kind, related, visible⟩
    · rw [inputRows_setTop_one] at member
      exact (wellFormed.length_of_mem_eval member).ge
    · rw [inputRows_setTop inst query op all isInput kind] at member
      rw [(known _ _ _ related).long row member, ← visible]
      exact (known _ _ _ related).wide

/--
The rows of a rewritten set operation are its original rows, each with the
provenance of all choices of matching rows of the inputs.
-/
theorem mem_eval_setTop_iff
    (attrs :
      provenanceEntries (setTop query op all inputs)
        (query.targetList.length + 1)
        (attributesOf (List.range' 2 inputs.length) lists) = some pList)
    (row : Row) :
    row ∈ Query.eval inst
        { setTop query op all inputs with
          targetList := query.targetList ++ pList } ↔
      ∃ original ∈ query.eval inst, ∃ choice : Nat → Option Row,
        (∀ link ∈ setLinks op all inputs.length,
          Chosen query.targetList.length link original
            (inputRows inst (setTop query op all inputs).rtable link.input)
            (choice link.input)) ∧
        row = original ++ provenanceOf lists choice := by
  have setOp : query.setOperations = some _ := congrArg Query.setOperations tree
  have lengths : inputs.length = lists.length :=
    rewritten.lengths_eq.1.trans rewritten.lengths_eq.2.symm
  have nonempty : inputs ≠ [] := by
    have two := (length_restructure query op all colTypes larg rarg).1
    rw [← rewritten.lengths_eq.1] at two
    exact List.ne_nil_of_length_pos (by omega)
  rcases joinChain_setTop query op all nonempty with
    ⟨node, fromlist, chain⟩
  have ok := chainOk_setTop wellFormed tree rewritten known chain
  have projection :
      Query.IsProjection
        { setTop query op all inputs with
          targetList := query.targetList ++ pList } node :=
    ⟨fromlist, rfl, rfl, rfl, rfl, rfl, rfl⟩
  have seen := exists_seenAs_setTop op all wellFormed.nodeOk.targets.numbered nonempty rewritten
    fun sub sub' subAttrs related =>
      ⟨(known _ _ _ related).numbered, fun te member =>
        (known _ _ _ related).atEnd.firstColumns member⟩
  have values {env : Env} {original : Row}
      (member :
        env ∈ node.eval inst (aliasvarsAt (setTop query op all inputs).rtable)
          (inputRows inst (setTop query op all inputs).rtable))
      (atOne : env 1 = some original)
      (isRow : original ∈ query.eval inst) :
      targetRow inst env.lookup [] (query.targetList ++ pList) =
        original ++ provenanceOf lists env := by
    have inFrom :
        env ∈ evalFromlist inst (aliasvarsAt (setTop query op all inputs).rtable)
          (inputRows inst (setTop query op all inputs).rtable)
          (setTop query op all inputs).fromlist := by
      rwa [fromlist, evalFromlist_singleton]
    rw [targetRow, List.map_append, ← targetRow, ← targetRow,
      targetRow_original wellFormed setOp atOne isRow,
      targetRow_provenanceEntries attrs seen inFrom,
      attrValues_attributesOf, provenanceOf, lengths]
  rw [(projection.eval_perm inst).mem_iff, List.mem_map]
  constructor
  · rintro ⟨env, member, rfl⟩
    rcases chain.exists_of_mem_eval ok member with
      ⟨original, isRow, atOne, chosen⟩
    rw [inputRows_setTop_one] at isRow
    exact ⟨original, isRow, env, chosen, values member atOne isRow⟩
  · rintro ⟨original, isRow, choice, chosen, rfl⟩
    rcases chain.exists_mem_eval ok
      (inputRows_setTop_one inst query op all inputs ▸ isRow) chosen with
      ⟨env, member, atOne, same⟩
    refine ⟨env, member, ?_⟩
    rw [values member atOne isRow, provenanceOf_congr]
    intro rtindex inside
    rw [← lengths, ← setLinks_input op all] at inside
    rcases List.mem_map.mp inside with ⟨link, isLink, rfl⟩
    exact same link isLink

/-- Rewritten set operations return the original rows. -/
theorem sameRows_setTop
    (attrs :
      provenanceEntries (setTop query op all inputs)
        (query.targetList.length + 1)
        (attributesOf (List.range' 2 inputs.length) lists) = some pList)
    (kept :
      ∀ row ∈ query.eval inst,
        InnerKept inst R op query.targetList.length
          (restructure query op (.node op all colTypes larg rarg)).leaves
          row) :
    SameRows query.targetList.length (query.eval inst)
      (Query.eval inst
        { setTop query op all inputs with
          targetList := query.targetList ++ pList }) := by
  have rows := mem_eval_setTop_iff wellFormed tree rewritten known attrs
  intro row
  constructor
  · intro member
    rcases List.mem_map.mp member with ⟨original, isRow, rfl⟩
    rcases exists_choices wellFormed tree rewritten isRow
      (kept original isRow) with ⟨choice, chosen⟩
    refine List.mem_map.mpr ⟨_, (rows _).mpr ⟨original, isRow, choice, chosen, rfl⟩, ?_⟩
    rw [List.take_append_of_le_length]
    exact (wellFormed.length_of_mem_eval isRow).ge
  · intro member
    rcases List.mem_map.mp member with ⟨_, isRow, rfl⟩
    rcases (rows _).mp isRow with ⟨original, isOriginal, choice, _, rfl⟩
    refine List.mem_map.mpr ⟨original, isOriginal, ?_⟩
    rw [List.take_append_of_le_length]
    exact (wellFormed.length_of_mem_eval isOriginal).ge

end Rewritten

end SetNode

end Ldv.Perm
