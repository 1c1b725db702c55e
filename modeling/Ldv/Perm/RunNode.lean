import Ldv.Perm.RunLimit
import Ldv.Perm.RunAggr
import Ldv.Perm.RunSet

/-!
# Runs of the rewriter

On a well-formed query the rewriter returns exactly if the query is
`Rewritable`: the types of certain columns must have the operators with
which the rewrite compares them.  Its result is then described by
`Rewritten`, and the stack has grown by the list of the provenance
attributes of the query.
-/

namespace Ldv.Perm

open Ldv.Sql Effect

/-! ## Queries which can be rewritten -/

instance (cat : Catalog) (query : Query) :
    Decidable (DistinctOk cat query) :=
  inferInstanceAs (Decidable (_ → ∀ type ∈ provTypes cat query, _))

instance (cat : Catalog) (query : Query) :
    Decidable (LimitOk cat query) :=
  inferInstanceAs (Decidable (∀ te ∈ query.targetList, _))

/--
All inputs of the node have a list on the stack, and the columns which its
rewrite compares can be compared.
-/
def NodeRewritable (cat : Catalog) (query : Query) : Prop :=
  InputsPush query.rtable ∧
    (query.hasAggs = false →
      (query.setOperations.isSome = true → Comparable cat (targetTypes query)) ∧
      (query.setOperations.isSome = false →
        DistinctOk cat query ∧ (checkLimit query = true → LimitOk cat query)))

instance (cat : Catalog) (query : Query) :
    Decidable (NodeRewritable cat query) :=
  inferInstanceAs (Decidable (_ ∧ (_ → _ ∧ _)))

/-- Is the entry an input that is rewritten recursively? -/
def isRewritten (rte : RTE) : Bool := isCounted rte && (recursesInto rte).isSome

/-- All nodes that are rewritten can be rewritten. -/
def Rewritable (cat : Catalog) (query : Query) : Prop :=
  query.EverywhereIn isRewritten (NodeRewritable cat)

instance (cat : Catalog) (query : Query) :
    Decidable (Rewritable cat query) :=
  inferInstanceAs (Decidable (query.EverywhereIn _ _))

/-- All inputs of the nodes that are rewritten push a list. -/
def Pushing (query : Query) : Prop :=
  query.EverywhereIn isRewritten fun node => InputsPush node.rtable

/-- The entries are inputs that are rewritten recursively. -/
def AllRewritten (rtable : List RTE) : Prop :=
  ∀ rte ∈ rtable, isCounted rte = true ∧ ∃ sub, recursesInto rte = some sub

/-- A condition on all nodes of the subqueries that are rewritten. -/
def InputsHold (P : Query → Prop) (rtable : List RTE) : Prop :=
  ∀ rte ∈ rtable, ∀ sub, rte.kind = .subquery sub → sub.EverywhereIn isRewritten P

section Rewritable

variable
  {cat : Catalog}
  {query : Query}
  {P : Query → Prop}

/-- A condition on all nodes that are rewritten, level by level. -/
theorem everywhereIn_isRewritten_iff :
    query.EverywhereIn isRewritten P ↔
      P query ∧
        ∀ rte ∈ query.rtable, isCounted rte = true →
          ∀ sub, recursesInto rte = some sub → sub.EverywhereIn isRewritten P := by
  rw [Query.everywhereIn_iff]
  refine and_congr_right fun _ => forall₂_congr fun rte _ => ?_
  constructor
  · intro holds isInput sub descends
    exact holds (by simp [isRewritten, isInput, descends]) sub (kind_of_recursesInto descends)
  · intro holds enters sub kind
    simp only [isRewritten, Bool.and_eq_true, Option.isSome_iff_exists] at enters
    rcases enters with ⟨isInput, sub', descends⟩
    rw [kind_of_recursesInto descends] at kind
    cases kind
    exact holds isInput sub descends

theorem rewritable_iff :
    Rewritable cat query ↔
      NodeRewritable cat query ∧
        ∀ rte ∈ query.rtable, isCounted rte = true →
          ∀ sub, recursesInto rte = some sub → Rewritable cat sub :=
  everywhereIn_isRewritten_iff

theorem Rewritable.pushing (rewritable : Rewritable cat query) : Pushing query :=
  Query.EverywhereIn.imp₂ (fun _ node _ => node.1) (fun _ entered => entered) rewritable rewritable

theorem rewritable_aggregationInput (aggs : query.hasAggs = true)
    (noSetOp : query.setOperations = none) (stripped : List TargetEntry) :
    Rewritable cat (aggregationInput query stripped) ↔ Rewritable cat query := by
  have original : NodeRewritable cat query ↔ InputsPush query.rtable := by
    simp [NodeRewritable, aggs]
  have input :
      NodeRewritable cat (aggregationInput query stripped) ↔ InputsPush query.rtable := by
    refine and_iff_left fun _ => ⟨fun setOp => ?_, fun _ =>
      ⟨fun present => absurd rfl present, fun limited => ?_⟩⟩
    · simp [aggregationInput, noSetOp] at setOp
    · simp [checkLimit, aggregationInput] at limited
  rw [rewritable_iff, rewritable_iff, original, input]
  rfl

/-! ## Set operations -/

theorem AllRewritten.descends {rtable : List RTE} (inputs : AllRewritten rtable) {rte : RTE}
    (member : rte ∈ rtable) {sub : Query} (kind : rte.kind = .subquery sub) :
    recursesInto rte = some sub := by
  rcases (inputs rte member).2 with ⟨sub', descends⟩
  rw [kind_of_recursesInto descends] at kind
  cases kind
  exact descends

theorem AllRewritten.inputsPush {rtable : List RTE} (inputs : AllRewritten rtable) :
    InputsPush rtable := by
  intro rte member _
  rcases (inputs rte member).2 with ⟨sub, descends⟩
  exact hasProvenance_of_recursesInto descends

theorem SetOk.allRewritten {tree : SetOpNode} (ok : SetOk query tree) :
    AllRewritten query.rtable := by
  intro rte member
  rcases ok.inputs rte member with ⟨isInput, fits⟩
  cases descends : recursesInto rte with
  | none => simp [descends] at fits
  | some sub => exact ⟨isInput, sub, rfl⟩

theorem everywhereIn_setOperation (inputs : AllRewritten query.rtable) :
    query.EverywhereIn isRewritten P ↔ P query ∧ InputsHold P query.rtable := by
  rw [everywhereIn_isRewritten_iff]
  refine and_congr_right fun _ => forall₂_congr fun rte member => ?_
  constructor
  · intro holds sub kind
    exact holds (inputs rte member).1 sub (inputs.descends member kind)
  · intro holds _ sub descends
    exact holds sub (kind_of_recursesInto descends)

theorem inputsHold_append {first second : List RTE} :
    InputsHold P (first ++ second) ↔ InputsHold P first ∧ InputsHold P second := by
  simp only [InputsHold, List.forall_mem_append]

theorem AllRewritten.of_append {first second : List RTE} (inputs : AllRewritten (first ++ second)) :
    AllRewritten first ∧ AllRewritten second :=
  ⟨fun rte member => inputs rte (by simp [member]), fun rte member => inputs rte (by simp [member])⟩

section Restructured

variable (whole : ∀ part : OpTree, AllRewritten part.leaves → P (ofTree query part))

include whole

/-- Taking a subtree out does not change what holds of the inputs. -/
theorem inputsHold_newSub {part : OpTree} (inputs : AllRewritten part.leaves) :
    InputsHold P [newSubRTE query part] ↔ InputsHold P part.leaves := by
  have node : (ofTree query part).EverywhereIn isRewritten P ↔ InputsHold P part.leaves :=
    (everywhereIn_setOperation inputs).trans (and_iff_right (whole part inputs))
  rw [← node]
  constructor
  · exact fun holds => holds (newSubRTE query part) (by simp) _ rfl
  · intro holds rte member sub kind
    rw [List.mem_singleton.mp member] at kind
    cases kind
    exact holds

theorem inputsHold_takeOut {part : OpTree} (inputs : AllRewritten part.leaves) :
    InputsHold P (takeOut query part).leaves ↔ InputsHold P part.leaves := by
  cases part with
  | leaf rte => rfl
  | node op all colTypes larg rarg => exact inputsHold_newSub whole inputs

/-- Restructuring the tree does not change what holds of the inputs. -/
theorem inputsHold_restructure (rootType : SetOperation) {tree : OpTree}
    (inputs : AllRewritten tree.leaves) :
    InputsHold P (restructure query rootType tree).leaves ↔ InputsHold P tree.leaves := by
  induction tree with
  | leaf rte => rfl
  | node op all colTypes larg rarg leftIH rightIH =>
    rcases inputs.of_append with ⟨left, right⟩
    have taken := inputsHold_newSub whole inputs
    have below :
        InputsHold P
            ((restructure query rootType larg).leaves ++
              (restructure query rootType rarg).leaves) ↔
          InputsHold P (larg.leaves ++ rarg.leaves) := by
      rw [inputsHold_append, inputsHold_append, leftIH left, rightIH right]
    have takenOut :
        InputsHold P ((takeOut query larg).leaves ++ (takeOut query rarg).leaves) ↔
          InputsHold P (larg.leaves ++ rarg.leaves) := by
      rw [inputsHold_append, inputsHold_append, inputsHold_takeOut whole left,
        inputsHold_takeOut whole right]
    cases op with
    | except =>
      rw [restructure]
      split
      · exact takenOut
      · exact taken
    | union =>
      simp only [restructure]
      split
      · exact below
      · exact taken
    | intersect =>
      simp only [restructure]
      split
      · exact below
      · exact taken

end Restructured

/-- The inputs of a restructured set operation decide whether it is rewritten. -/
theorem rewritable_setOperation {op : SetOperation} {all : Bool} {colTypes : List Oid}
    {larg rarg : OpTree} (noAggs : query.hasAggs = false)
    (tree : query = ofTree query (.node op all colTypes larg rarg))
    (inputs : AllRewritten query.rtable) :
    InputsHold (NodeRewritable cat)
        (restructure query op (.node op all colTypes larg rarg)).leaves ∧
        Comparable cat (targetTypes query) ↔
      Rewritable cat query := by
  have setOp : query.setOperations.isSome = true := by
    rw [ofTree_setOperations tree]
    rfl
  have node : NodeRewritable cat query ↔ Comparable cat (targetTypes query) := by
    simp [NodeRewritable, noAggs, setOp, inputs.inputsPush]
  rw [Rewritable, everywhereIn_setOperation inputs, node, and_comm]
  refine and_congr_right fun comparable => ?_
  rw [ofTree_rtable tree] at inputs ⊢
  refine inputsHold_restructure (fun part isPart => ?_) op inputs
  exact ⟨isPart.inputsPush, fun _ =>
    ⟨fun _ => comparable, fun absent => by simp [ofTree] at absent⟩⟩

/-- A condition on all nodes that are rewritten passes to the queries a node reaches. -/
theorem Reaches.everywhereIn {sub : Query} (reaches : Reaches query sub)
    (wellFormed : WellFormed cat query) (holds : query.EverywhereIn isRewritten P)
    (aggregation :
      ∀ stripped, query.hasAggs = true → P (aggregationInput query stripped))
    (newSub :
      ∀ part : OpTree, query.setOperations.isSome = true → part.leaves ⊆ query.rtable →
        P (ofTree query part)) :
    sub.EverywhereIn isRewritten P := by
  have levels := everywhereIn_isRewritten_iff.mp holds
  cases reaches with
  | subquery member isInput descends => exact levels.2 _ member isInput _ descends
  | setInput setOp member kind =>
    rcases Option.isSome_iff_exists.mp setOp with ⟨tree, present⟩
    have inputs := (wellFormed.nodeOk.setOk present).allRewritten
    exact levels.2 _ member (inputs _ member).1 _ (inputs.descends member kind)
  | aggregation aggs strip named =>
    exact everywhereIn_isRewritten_iff.mpr ⟨aggregation _ aggs, levels.2⟩
  | @newSub op all colTypes larg rarg side part tree isSide operator inside =>
    have inputs : part.leaves ⊆ query.rtable := by
      rw [ofTree_rtable tree]
      exact (inside.trans (sublist_of_isSide op all colTypes isSide)).subset
    refine everywhereIn_isRewritten_iff.mpr ⟨newSub part ?_ inputs,
      fun rte member => levels.2 rte (inputs member)⟩
    rw [ofTree_setOperations tree]
    rfl

theorem Reaches.pushing {sub : Query} (reaches : Reaches query sub)
    (wellFormed : WellFormed cat query) (pushing : Pushing query) :
    Pushing sub := by
  have push := (everywhereIn_isRewritten_iff.mp pushing).1
  exact reaches.everywhereIn wellFormed pushing (fun _ _ => push)
    fun _ _ inside rte member => push rte (inside member)

end Rewritable

/-! ## The rewriter -/

/-- The relation of the subqueries of a well-formed query. -/
def SubRewritten (cat : Catalog) (n : Nat) : Rel :=
  fun query query' pList =>
    WellFormed cat query ∧ Rewritten cat n query query' pList

section Node

variable
  {cat : Catalog}
  {recur : Query → Rewrite Query}
  {n : Nat}
  {query : Query}

/-- The list of provenance attributes is pushed, and the query has the shape of its node. -/
def PushesShape (cat : Catalog) (n : Nat) (query : Query) (state : RewriteState) (query' : Query)
    (final : RewriteState) : Prop :=
  ∃ pList, final.pStack = pList :: state.pStack ∧
    NodeShape cat (SubRewritten cat n) query query' pList

theorem decides_rewriteSPJQuery (wellFormed : WellFormed cat query)
    (push : InputsPush query.rtable) (noAggs : query.hasAggs = false)
    (noSetOp : query.setOperations = none)
    (recurs : ∀ sub, Reaches query sub → RecursOn recur (SubRewritten cat n) (Rewritable cat) sub)
    (state : RewriteState) :
    Decides (rewriteSPJQuery cat recur query) state (Rewritable cat query)
      (PushesShape cat n query state) := by
  have ok := wellFormed.nodeOk
  have inputs :
      ∀ rte ∈ query.rtable, isCounted rte = true → ∀ sub, recursesInto rte = some sub →
        RecursOn recur (SubRewritten cat n) (Rewritable cat) sub :=
    fun rte member isInput sub descends => recurs sub (.subquery member isInput descends)
  have attrsOf :
      ∀ sub sub' subAttrs, SubRewritten cat n sub sub' subAttrs → AttrsOf cat sub subAttrs :=
    fun sub sub' subAttrs known => known.2.attrsOf known.1
  have countable :
      ∀ sub sub' subAttrs, SubRewritten cat n sub sub' subAttrs → BasesCountable cat sub' :=
    fun sub sub' subAttrs known => known.2.basesCountable known.1
  have node :
      NodeRewritable cat query ↔
        DistinctOk cat query ∧ (checkLimit query = true → LimitOk cat query) := by
    simp [NodeRewritable, push, noAggs, noSetOp]
  rw [rewriteSPJQuery]
  cases limited : checkLimit query with
  | true =>
    rw [if_pos rfl]
    refine (decides_handleLimit wellFormed push noSetOp inputs attrsOf countable state).mono ?_ ?_
    · rw [rewritable_iff, node]
      simp only [limited, true_implies]
      tauto
    · rintro _ query' final ⟨pList, rewrittenQuery, pushed, visible, shape, rfl⟩
      exact ⟨pList, pushed, .limit noAggs noSetOp limited visible shape⟩
  | false =>
    rw [if_neg (by simp)]
    refine (decides_rewriteSPJrestrict ok.entries push (ok.selectOk noSetOp)
      inputs attrsOf state).mono ?_ ?_
    · rw [rewritable_iff, node]
      simp only [limited]
      tauto
    · rintro _ query' final ⟨pList, pushed, shape⟩
      exact ⟨pList, pushed, .spj noAggs noSetOp limited shape⟩

theorem decides_rewriteAggregation (wellFormed : WellFormed cat query) (aggs : query.hasAggs = true)
    (recurs : ∀ sub, Reaches query sub → RecursOn recur (SubRewritten cat n) (Rewritable cat) sub)
    (state : RewriteState) :
    Decides (rewriteAggregateQuery cat recur query) state
      (Rewritable cat query)
      (PushesShape cat n query state) := by
  have ok := wellFormed.nodeOk
  have noSetOp := ok.setOperations_eq_none aggs
  have input :
      ∀ input, IsAggregationInput query input →
        RecursOn recur (SubRewritten cat n) (Rewritable cat) input := by
    rintro _ ⟨stripped, rfl, strip, named⟩
    exact recurs _ (.aggregation aggs strip named)
  refine (decides_rewriteAggregateQuery ok aggs input ?_ ?_ ?_ ?_ state).mono Iff.rfl ?_
  · rintro _ ⟨stripped, rfl, strip, named⟩
    exact rewritable_aggregationInput aggs noSetOp stripped
  · rintro _ input' inputAttrs ⟨stripped, rfl, strip, named⟩ known
    exact known.2.targetList_eq rfl noSetOp rfl
  · exact fun input input' inputAttrs known => known.2.atEnd
  · exact fun input input' inputAttrs known => known.2.attrsOf known.1
  · rintro _ query' final ⟨pList, pushed, shape⟩
    exact ⟨pList, pushed, .agg aggs shape⟩

theorem decides_rewriteSetOperation (wellFormed : WellFormed cat query)
    (noAggs : query.hasAggs = false) {tree : SetOpNode} (setOp : query.setOperations = some tree)
    (recurs : ∀ sub, Reaches query sub → RecursOn recur (SubRewritten cat n) (Rewritable cat) sub)
    (state : RewriteState) :
    Decides (rewriteSetQuery cat recur query) state (Rewritable cat query)
      (PushesShape cat n query state) := by
  have nodeOk := wellFormed.nodeOk
  have ok := nodeOk.setOk setOp
  have isSome : query.setOperations.isSome = true := by simp [setOp]
  refine (decides_rewriteSetQuery nodeOk setOp recurs ?_ ?_ ?_ state).mono Iff.rfl ?_
  · intro op all colTypes larg rarg isTree
    exact rewritable_setOperation noAggs isTree ok.allRewritten
  · exact fun sub sub' subAttrs known => known.2.atEnd
  · exact fun sub sub' subAttrs known =>
      known.2.numbered known.1.nodeOk.targets
  · rintro _ query' final ⟨pList, pushed, shape⟩
    exact ⟨pList, pushed, .set noAggs isSome shape⟩

end Node

/--
If all inputs push a list, the rewriter returns exactly on the rewritable
queries, with a result as described by `Rewritten` and with one more list on
the stack.
-/
theorem decides_rewriteQueryNode {cat : Catalog} {n : Nat} {query : Query}
    (wellFormed : WellFormed cat query) (pushing : Pushing query) (enough : query.size ≤ n)
    (state : RewriteState) :
    Decides (rewriteQueryNode cat n query) state (Rewritable cat query)
      fun query' final => ∃ pList,
        final.pStack = pList :: state.pStack ∧ Rewritten cat n query query' pList := by
  induction n generalizing query state with
  | zero =>
    rw [Query.size_eq] at enough
    omega
  | succ n ih =>
    have recurs :
        ∀ sub, Reaches query sub →
          RecursOn (rewriteQueryNode cat n) (SubRewritten cat n) (Rewritable cat) sub := by
      intro sub reaches state
      have smaller := reaches.size_lt
      have subOk := reaches.wellFormed wellFormed
      refine (ih subOk (reaches.pushing wellFormed pushing) (by omega) state).mono Iff.rfl ?_
      rintro _ sub' final ⟨pList, pushed, rewritten⟩
      exact ⟨pList, pushed, subOk, rewritten⟩
    have node :
        Decides (rewriteQueryNode cat (n + 1) query) state (Rewritable cat query)
          (PushesShape cat n query state) := by
      rw [rewriteQueryNode]
      cases aggs : query.hasAggs with
      | true =>
        exact decides_rewriteAggregation wellFormed aggs recurs state
      | false =>
        cases setOp : query.setOperations with
        | none =>
          have push := (everywhereIn_isRewritten_iff.mp pushing).1
          exact decides_rewriteSPJQuery wellFormed push aggs setOp recurs state
        | some tree =>
          exact decides_rewriteSetOperation wellFormed aggs setOp recurs state
    refine node.mono Iff.rfl ?_
    rintro _ query' final ⟨pList, pushed, shape⟩
    exact ⟨pList, pushed, shape.mono fun _ _ _ _ known => known.2⟩

theorem returns_rewriteQueryNode {cat : Catalog} {n : Nat} {query : Query}
    (wellFormed : WellFormed cat query) (rewritable : Rewritable cat query)
    (enough : query.size ≤ n) (state : RewriteState) :
    Returns (rewriteQueryNode cat n query) state fun query' final => ∃ pList,
      final.pStack = pList :: state.pStack ∧ Rewritten cat n query query' pList :=
  (decides_rewriteQueryNode wellFormed rewritable.pushing enough state).1 rewritable

end Ldv.Perm
