import Ldv.Perm.Preservation

/-!
# Provenance of set operations

What the rewritten set operation returns for a tuple of the result: under a
union each input contributes an equal row of its own, independently of the
others, or nothing; under an intersection each contributes an equal row; under
a difference the left input contributes an equal row and the right one any of
its rows.
-/

namespace Ldv.Perm

open Ldv.Sql Effect

/-! ## Contributions of the inputs -/

/-- The rows of the input at a position that go with a tuple. -/
def contributed : SetOperation → Bool → Nat → Matching
  | .union, _, _ => .equal
  | .intersect, _, _ => .equal
  | .except, _, 0 => .equal
  | .except, all, _ + 1 => if all then .different else .any

/-- May the input at a position contribute nothing? -/
def mayLack : SetOperation → Nat → Bool
  | .union, _ => true
  | .intersect, _ => false
  | .except, position => position != 0

/-- A row which the input contributes, or none if there is no such row. -/
def Contributes (op : SetOperation) (all : Bool) (position : Nat) (tuple : Row)
    (rows : List Row) (choice : Option Row) :
    Prop :=
  (∃ row ∈ rows, Matches tuple.length (contributed op all position) tuple row ∧ choice = some row) ∨
  (mayLack op position = true ∧
    (∀ row ∈ rows, ¬ Matches tuple.length (contributed op all position) tuple row) ∧
    choice = none)

/-- The provenance columns of all inputs, from left to right. -/
def leafProvenance (lists : List (List TargetEntry)) (choice : Nat → Option Row) : Row :=
  lists.zipIdx.flatMap fun (pList, position) => provColumns pList (choice position)

/-- The rows of a rewritten set operation. -/
def SetProvenanceExact (cat : Catalog) (n : Nat) (inst : Instance) (query query' : Query) :
    Prop :=
  ∃ op all colTypes larg rarg inputs lists,
    query = ofTree query (.node op all colTypes larg rarg) ∧
    SetInputs (Rewritten cat n)
      (restructure query op (.node op all colTypes larg rarg)).leaves inputs lists ∧
    ∀ row, row ∈ query'.eval inst ↔
      ∃ tuple ∈ query.eval inst, ∃ choice : Nat → Option Row,
        (∀ (position : Nat) (input : RTE) sub', inputs[position]? = some input →
          input.kind = .subquery sub' →
          Contributes op all position tuple (sub'.eval inst) (choice position)) ∧
        row = tuple ++ leafProvenance lists choice

theorem provenanceOf_eq_leafProvenance (lists : List (List TargetEntry))
    (choice : Nat → Option Row) :
    provenanceOf lists (fun rtindex => choice (rtindex - 2)) = leafProvenance lists choice := by
  have shifted (start : Nat) :
      ((List.range' (start + 2) lists.length).zip lists).flatMap
          (fun entry => provColumns entry.2 (choice (entry.1 - 2))) =
        (lists.zipIdx start).flatMap fun entry => provColumns entry.1 (choice entry.2) := by
    induction lists generalizing start with
    | nil => rfl
    | cons pList rest ih =>
      rw [List.length_cons, List.range'_succ, List.zip_cons_cons, List.flatMap_cons,
        List.zipIdx_cons, List.flatMap_cons, ← ih (start + 1)]
      simp
  exact shifted 0

/-- The link to an input says what the input contributes. -/
theorem chosen_iff_contributes {op : SetOperation} {all : Bool} {count : Nat}
    (two : op = .except → count = 2) {link : Link} (member : link ∈ setLinks op all count)
    {tuple : Row} {rows : List Row} {choice : Option Row} :
    Chosen tuple.length link tuple rows choice ↔
      Contributes op all (link.input - 2) tuple rows choice := by
  cases op with
  | union =>
    rcases List.mem_map.mp member with ⟨input, -, rfl⟩
    rfl
  | intersect =>
    rcases List.mem_map.mp member with ⟨input, -, rfl⟩
    rfl
  | except =>
    cases two rfl
    rcases List.mem_pair.mp member with rfl | rfl <;> rfl

theorem exists_link {op : SetOperation} {all : Bool} {count position : Nat}
    (inside : position < count) :
    ∃ link ∈ setLinks op all count, link.input = position + 2 := by
  have member : position + 2 ∈ (setLinks op all count).map Link.input := by
    rw [setLinks_input, List.mem_range'_1]
    omega
  simpa using List.mem_map.mp member

section Node

variable
  {cat : Catalog}
  {query query' : Query}

theorem SetShape.exact {n : Nat} {pList : List TargetEntry} (wellFormed : WellFormed cat query)
    (shape : SetShape cat (Rewritten cat n) query query' pList) (inst : Instance) :
    SetProvenanceExact cat n inst query query' := by
  cases shape with
  | @intro op all colTypes larg rarg inputs lists _ tree rewritten attrs =>
    refine ⟨op, all, colTypes, larg, rarg, inputs, lists, tree, rewritten, fun row => ?_⟩
    have lengths := rewritten.lengths_eq
    have two : op = .except → inputs.length = 2 := fun isExcept =>
      lengths.1.trans ((length_restructure query op all colTypes larg rarg).2 isExcept)
    have related := rewritten.mono fun rte member sub kind sub' subAttrs related =>
      And.intro (Reaches.of_restructured tree member kind) related
    rw [mem_eval_setTop_iff wellFormed tree related (fun sub sub' subAttrs related =>
      related.2.columnsOk (related.1.wellFormed wellFormed).nodeOk.targets inst) attrs]
    refine exists_congr fun tuple => and_congr_right fun isTuple => ?_
    rw [← wellFormed.length_of_mem_eval isTuple]
    constructor
    · rintro ⟨choice, chosen, rfl⟩
      refine ⟨fun position => choice (position + 2), ?_, ?_⟩
      · intro position input sub' atInput isSub'
        rcases @exists_link op all _ _ (List.getElem?_eq_some_iff.mp atInput).1 with
          ⟨link, isLink, isInput⟩
        have contributes := (chosen_iff_contributes two isLink).mp (chosen link isLink)
        rwa [isInput, inputRows_setTop inst query op all atInput isSub'] at contributes
      · rw [← provenanceOf_eq_leafProvenance]
        refine congrArg (tuple ++ ·) (provenanceOf_congr fun rtindex inside => ?_)
        rw [Nat.sub_add_cancel (List.mem_range'_1.mp inside).1]
    · rintro ⟨choice, contributes, rfl⟩
      refine ⟨fun rtindex => choice (rtindex - 2), ?_, by rw [provenanceOf_eq_leafProvenance]⟩
      intro link isLink
      have inside : link.input ∈ List.range' 2 inputs.length :=
        setLinks_input op all inputs.length ▸ List.mem_map_of_mem isLink
      rw [List.mem_range'_1] at inside
      rcases rewritten.fetch (List.getElem?_eq_getElem
        (by omega : link.input - 2 < lists.length)) with
        ⟨rte, input, sub, sub', -, atInput, -, isSub', -⟩
      rw [chosen_iff_contributes two isLink]
      have rows := inputRows_setTop inst query op all atInput isSub'
      rw [Nat.sub_add_cancel inside.1] at rows
      rw [rows]
      exact contributes _ input sub' atInput isSub'

/-- The rewriter returns a typed query, the set operation with exactly this provenance. -/
def AttachesSetProvenance (cat : Catalog) (query : Query) : Prop :=
  ∀ n, query.size ≤ n → ∀ state,
    Returns (rewriteQueryNode cat n query) state fun query' _ =>
      Typed cat query' ∧ ∀ inst, SetProvenanceExact cat (n - 1) inst query query'

theorem rewritable_of_attachesSetProvenance (wellFormed : WellFormed cat query)
    (attaches : AttachesSetProvenance cat query) :
    Rewritable cat query :=
  rewritable_of_returns wellFormed (attaches query.size le_rfl {})

end Node

/-! ## Two columns of integers -/

/-- A relation `t` with two columns of type `int4`. -/
def pairCatalog : Catalog where
  namespaceName _ := "public"
  relName _ := "t"
  attributes _ := [⟨"a", 23, false⟩, ⟨"b", 23, false⟩]
  equalityOper _ := some 96
  orderingOper _ := some 97

/-- The place of a value in the order of integers. -/
def intRank : Datum → Int
  | .int value => value
  | _ => 0

/-- The database with these rows in `t`. -/
def pairInstance (rows : List (Int × Int)) : Instance where
  table _ := rows.map fun row => [.int row.1, .int row.2]
  op _ _ := .null
  agg _ _ := .null
  func _ := []
  sortLe _ left right := decide (intRank left ≤ intRank right)
  sortLe_total _ left right := by
    simp only [decide_eq_true_eq]
    omega
  sortLe_trans _ left middle right := by
    simp only [decide_eq_true_eq]
    omega
  order rows := rows
  order_perm _ := .refl _

/-! ## Unions of one column -/

/-- `SELECT` of a column of `t`. -/
def selectColumn (attno : Nat) (type : Oid) : Query :=
  { selectA [] with
    targetList := [{ expr := .var 1 attno type, resno := 1, resname := some "c" }] }

def unionOf (all : Bool) (type : Oid) (left right : Query) : Query where
  rtable := [correctRTEAlias (subqueryRTE left "*SELECT* 1"),
    correctRTEAlias (subqueryRTE right "*SELECT* 2")]
  fromlist := []
  targetList := [{ expr := .var 1 1 type, resno := 1, resname := some "c" }]
  setOperations := some (.setOperationStmt .union all [type] (.rangeTblRef 1) (.rangeTblRef 2))

end Ldv.Perm
