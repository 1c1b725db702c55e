import Ldv.Perm.RunNode

/-!
# The height of the stack

A node pops one list for each entry it counts as an input, and the entries
push at most one list each.  A rewrite therefore raises the stack by at most
one list, and by less if an entry was counted that pushes nothing.  From an
empty stack such a rewrite cannot return, since it lacks a list to pop.
-/

namespace Ldv.Perm

open Ldv.Sql Effect

/-! ## Programs which leave the stack alone -/

/-- The program leaves the lists on the stack as they are. -/
def KeepsStack {α : Type} (program : Rewrite α) : Prop :=
  ∀ state, Ensures program state fun _ final => final.pStack = state.pStack

section Keeps

variable {α β : Type}

theorem KeepsStack.pure (result : α) : KeepsStack (Pure.pure result) :=
  fun _ => Ensures.pure rfl

theorem KeepsStack.throw (error : RewriteError) : KeepsStack (throw error : Rewrite α) :=
  fun _ => Ensures.throw

theorem KeepsStack.orCrash (value : Option α) : KeepsStack (orCrash value) := by
  cases value with
  | none => exact .throw _
  | some result => exact .pure result

theorem KeepsStack.bind {program : Rewrite α} {next : α → Rewrite β} (first : KeepsStack program)
    (second : ∀ result, KeepsStack (next result)) :
    KeepsStack (program >>= next) :=
  fun state => (first state).bind fun result middle unchanged =>
    (second result middle).mono fun _ _ unchanged' => unchanged'.trans unchanged

theorem KeepsStack.modify {update : RewriteState → RewriteState}
    (keeps : ∀ state, (update state).pStack = state.pStack) :
    KeepsStack (modifyThe RewriteState update) :=
  fun state => (Returns.modify (keeps state)).ensures

theorem keepsStack_getRelationRefNum (relid : Oid) (increment : Bool) :
    KeepsStack (getRelationRefNum relid increment) :=
  fun state => (returns_getRelationRefNum relid increment state).ensures

theorem keepsStack_getQueryRefNum (cat : Catalog) (rte : RTE) (increment : Bool) :
    KeepsStack (getQueryRefNum cat rte increment) := by
  unfold getQueryRefNum
  split
  · exact (keepsStack_getRelationRefNum _ increment).bind fun _ => .pure _
  · refine (KeepsStack.orCrash _).bind ?_
    rintro ⟨name, rte'⟩ state
    apply Returns.ensures
    apply Returns.get_bind
    apply Returns.set_bind
    exact Returns.pure rfl

theorem keepsStack_createProvAttrName (cat : Catalog) (rte : RTE) (name : String) :
    KeepsStack (createProvAttrName cat rte name) := by
  have relation (relid : Oid) : KeepsStack (getRelationName cat relid) :=
    (keepsStack_getRelationRefNum relid false).bind fun _ => .pure _
  have query : KeepsStack (getQueryName cat rte) :=
    (keepsStack_getQueryRefNum cat rte false).bind fun _ =>
      (KeepsStack.orCrash _).bind fun _ => .pure _
  unfold createProvAttrName
  split
  · exact (relation _).bind fun _ => .pure _
  · exact query.bind fun _ => .pure _
  · exact (KeepsStack.throw _).bind fun _ => .pure _

theorem keepsStack_baseRelationEntries (cat : Catalog) (rte : RTE) (start : Nat)
    (columns : List (String × Expr)) :
    KeepsStack (baseRelationEntries cat rte start columns) := by
  induction columns generalizing start with
  | nil => exact .pure _
  | cons column rest ih =>
    exact (keepsStack_createProvAttrName cat rte column.1).bind fun _ =>
      (ih (start + 1)).bind fun _ => .pure _

theorem keepsStack_provAttrEntries (rte : RTE) (columns : List (String × Expr))
    (provAttrs : List String) :
    KeepsStack (provAttrEntries rte columns provAttrs) := by
  induction provAttrs with
  | nil => exact .pure _
  | cons provAttr rest ih =>
    rw [provAttrEntries]
    dsimp only
    split
    · exact (KeepsStack.throw _).bind fun _ => ih.bind fun _ => .pure _
    · exact ih.bind fun _ => .pure _

theorem keepsStack_recountMarkedRTE (cat : Catalog) (rte : RTE) :
    KeepsStack (recountMarkedRTE cat rte) := by
  have counts (rtes : List RTE) : KeepsStack (countBaseRelations cat rtes) := by
    induction rtes with
    | nil => exact .pure _
    | cons rte rest ih =>
      exact (keepsStack_getQueryRefNum cat rte true).bind fun _ =>
        (KeepsStack.orCrash _).bind fun _ => ih
  have reset : KeepsStack resetRelReferences := .modify fun _ => rfl
  unfold recountMarkedRTE
  split
  · split
    · split
      all_goals first
        | exact reset.bind fun _ => counts _
        | exact .pure _
    · exact .pure _
  · exact .pure _

theorem keepsStack_createJoinOnAttrs (cat : Catalog) (query : Query) (joinType : JoinType)
    (leftRT rightRT : Nat) (leftAttrs rightAttrs : List Nat) :
    KeepsStack (createJoinOnAttrs cat query joinType leftRT rightRT leftAttrs rightAttrs) :=
  (KeepsStack.orCrash _).bind fun _ => (keepsStack_recountMarkedRTE cat _).bind fun _ =>
    (KeepsStack.orCrash _).bind fun _ => (keepsStack_recountMarkedRTE cat _).bind fun _ =>
      (KeepsStack.orCrash _).bind fun _ => (KeepsStack.orCrash _).bind fun _ =>
        (KeepsStack.orCrash _).bind fun _ => .pure _

end Keeps

/-! ## Programs which push lists -/

/--
The program raises the stack by at most the given number of lists, and by
less unless the condition holds.
-/
def Grows {α : Type} (program : Rewrite α) (count : α → Nat) (cond : Prop) : Prop :=
  ∀ state, Ensures program state fun result final =>
    final.pStack.length ≤ state.pStack.length + count result ∧
      (final.pStack.length = state.pStack.length + count result → cond)

section Grows

variable
  {α β : Type}
  {program : Rewrite α}
  {next : α → Rewrite β}
  {cond cond' : Prop}

theorem Grows.mono {count : α → Nat} (grows : Grows program count cond) (weaker : cond → cond') :
    Grows program count cond' :=
  fun state => (grows state).mono fun _ _ height => ⟨height.1, fun equal => weaker (height.2 equal)⟩

/-- A program which pushes nothing where a list is counted. -/
theorem KeepsStack.grows_one (keeps : KeepsStack program) : Grows program (fun _ => 1) cond := by
  refine fun state => (keeps state).mono fun _ _ unchanged => ?_
  rw [unchanged]
  exact ⟨Nat.le_succ _, fun equal => absurd equal (by simp)⟩

theorem KeepsStack.grows_bind {count : β → Nat} (keeps : KeepsStack program)
    (second : ∀ result, Grows (next result) count cond) :
    Grows (program >>= next) count cond :=
  fun state => (keeps state).bind fun result middle unchanged => unchanged ▸ second result middle

theorem Grows.bind_keeps (grows : Grows program (fun _ => 1) cond)
    (second : ∀ result, KeepsStack (next result)) :
    Grows (program >>= next) (fun _ => 1) cond :=
  fun state => (grows state).bind fun result middle height =>
    (second result middle).mono fun _ _ unchanged => by rwa [unchanged]

theorem grows_push (pList : List TargetEntry) (holds : cond) :
    Grows (push pList) (fun _ => 1) cond :=
  fun _ => (returns_push ⟨le_rfl, fun _ => holds⟩).ensures

end Grows

/-! ## Inputs -/

section Inputs

variable
  {cat : Catalog}
  {recur : Query → Rewrite Query}
  {P : Query → Prop}
  {rte : RTE}
  {rtindex : Nat}
  {cond : Prop}

theorem grows_rewriteBaseRelation (holds : cond) :
    Grows (rewriteBaseRelation cat rtindex rte) (fun _ => 1) cond := by
  refine (KeepsStack.orCrash _).grows_bind fun _ => ?_
  refine (keepsStack_getQueryRefNum cat rte true).grows_bind fun _ => ?_
  refine (keepsStack_baseRelationEntries cat _ 1 _).grows_bind fun pList => ?_
  exact (grows_push pList holds).bind_keeps fun _ => .pure _

theorem grows_rewriteRTEwithProvenance (leaf : recursesInto rte = none)
    (listed : rte.provAttrs.isEmpty = false) (holds : cond) :
    Grows (rewriteRTEwithProvenance cat recur rtindex rte) (fun _ => 1) cond := by
  have pushes {columns : List (String × Expr)} {provAttrs : List String} :
      Grows
        (do
          let pList ← provAttrEntries rte columns provAttrs
          push pList
          return rte : Rewrite RTE)
        (fun _ => 1) cond :=
    (keepsStack_provAttrEntries rte _ _).grows_bind fun pList =>
      (grows_push pList holds).bind_keeps fun _ => .pure _
  unfold rewriteRTEwithProvenance
  split
  · next query kind =>
      split
      · next marked => simp [recursesInto, kind, listed, marked] at leaf
      · exact (KeepsStack.orCrash _).grows_bind fun _ =>
          (KeepsStack.orCrash _).grows_bind fun _ => pushes
  · exact (KeepsStack.orCrash _).grows_bind fun _ =>
      (KeepsStack.orCrash _).grows_bind fun _ => pushes
  · exact (KeepsStack.throw _).grows_one

/-- What an entry that pushes a list satisfies. -/
def EntryPushes (P : Query → Prop) (rte : RTE) : Prop :=
  hasProvenance rte = true ∧ ∀ sub, recursesInto rte = some sub → P sub

/-- An entry pushes a list only if it is a relation or a subquery. -/
theorem grows_rewriteRTE (ok : EntryOk cat rte)
    (recurs : ∀ sub, recursesInto rte = some sub → Grows (recur sub) (fun _ => 1) (P sub)) :
    Grows (rewriteRTE cat recur rtindex rte) (fun _ => 1) (EntryPushes P rte) := by
  cases descends : recursesInto rte with
  | some sub =>
    rw [rewriteRTE_of_recursesInto descends]
    refine ((recurs sub descends).bind_keeps fun _ => .pure _).mono fun holds => ?_
    refine ⟨hasProvenance_of_recursesInto descends, fun sub' descends' => ?_⟩
    cases descends.symm.trans descends'
    exact holds
  | none =>
    cases provenance : hasProvenance rte with
    | false =>
      have unmarked := ok.unmarked provenance
      have returned : rewriteRTE cat recur rtindex rte = pure rte := by
        unfold hasProvenance at provenance
        simp only [rewriteRTE, unmarked.1, unmarked.2]
        split at provenance <;> simp_all
      rw [returned]
      exact (KeepsStack.pure rte).grows_one
    | true =>
      have holds : EntryPushes P rte := ⟨provenance, by simp [descends]⟩
      unfold rewriteRTE
      split
      · next listed => exact grows_rewriteRTEwithProvenance descends (by simpa using listed) holds
      · split
        · exact grows_rewriteBaseRelation holds
        · exact grows_rewriteBaseRelation holds
        · next query kind unmarked => simp_all [recursesInto]
        · next query kind unmarked => exact (KeepsStack.pure rte).grows_one

/-- The entries push at most as many lists as are counted. -/
theorem grows_rewriteRTEs (rtable : List RTE) (start : Nat) (ok : ∀ rte ∈ rtable, EntryOk cat rte)
    (recurs :
      ∀ rte ∈ rtable, isCounted rte = true →
        ∀ sub, recursesInto rte = some sub → Grows (recur sub) (fun _ => 1) (P sub)) :
    Grows (rewriteRTEs cat recur start rtable) (fun result => result.2.length)
      (∀ rte ∈ rtable, isCounted rte = true → EntryPushes P rte) := by
  induction rtable generalizing start with
  | nil => exact fun _ => Ensures.pure ⟨le_rfl, by simp⟩
  | cons rte rest ih =>
    have others := ih (start + 1) (fun rte member => ok rte (by simp [member]))
      (fun rte member => recurs rte (by simp [member]))
    have uncountedCase (uncounted : isCounted rte = false) :
        Grows
          (do
            let others ← rewriteRTEs cat recur (start + 1) rest
            return (rte :: others.1, others.2))
          (fun result => result.2.length)
          (∀ rte' ∈ rte :: rest, isCounted rte' = true → EntryPushes P rte') := by
      refine fun state => (others state).bind fun result final height => Ensures.pure ?_
      refine ⟨height.1, fun equal => List.forall_mem_cons.mpr ⟨?_, height.2 equal⟩⟩
      simp [uncounted]
    cases skips : skipsRTE rte with
    | true =>
      rw [rewriteRTEs, if_pos skips]
      exact uncountedCase (by simp [isCounted, skips])
    | false =>
      rw [rewriteRTEs, if_neg (by simp [skips])]
      cases join : rte.isJoin with
      | true =>
        rw [rewriteRTE_of_isJoin (ok rte (by simp)) join, pure_bind]
        exact uncountedCase (by simp [isCounted, join])
      | false =>
        have isInput : isCounted rte = true := by
          simp [isCounted, skips, join]
        have first := @grows_rewriteRTE cat recur P rte start (ok rte (by simp))
          (recurs rte (by simp) isInput)
        refine fun state => (first state).bind fun rte' middle height =>
          (others middle).bind fun result final height' => Ensures.pure ?_
        simp only [List.length_cons] at height height' ⊢
        refine ⟨by omega, fun equal => List.forall_mem_cons.mpr ⟨fun _ => ?_, ?_⟩⟩
        · exact height.2 (by omega)
        · exact height'.2 (by omega)

end Inputs

/-! ## Nodes -/

section Node

variable
  {cat : Catalog}
  {recur : Query → Rewrite Query}
  {P : Query → Prop}
  {query : Query}
  {cond : Prop}

theorem Grows.popped {α : Type} {program : Rewrite α} {count : α → Nat}
    {next : α → Rewrite Query} (first : Grows program count cond)
    (second :
      ∀ result state, Ensures (next result) state fun _ final =>
        final.pStack.length + count result = state.pStack.length + 1) :
    Grows (program >>= next) (fun _ => 1) cond := by
  refine fun state => (first state).bind fun result middle height =>
    (second result middle).mono fun _ final popped => ?_
  dsimp only at height ⊢
  exact ⟨by omega, fun equal => height.2 (by omega)⟩

theorem ensures_push (pList : List TargetEntry) (state : RewriteState) :
    Ensures (push pList) state fun _ final => final.pStack = pList :: state.pStack :=
  (returns_push rfl).ensures

theorem ensures_addProvenanceAttrs (query : Query) (subList : List Nat) (state : RewriteState) :
    Ensures (addProvenanceAttrs query subList) state
      fun _ final => final.pStack.length + subList.length = state.pStack.length := by
  have pops :
      Ensures (popListAndReverse subList.length) state
        fun _ final => final.pStack.length + subList.length = state.pStack.length := by
    intro lists final ran
    by_cases few : state.pStack.length < subList.length
    · rw [popListAndReverse, run_bind_eq_ok] at ran
      rcases ran with ⟨_, _, isState, ran⟩
      cases isState
      rw [if_pos few] at ran
      cases ran
    · rw [popListAndReverse, run_bind_eq_ok] at ran
      rcases ran with ⟨_, _, isState, ran⟩
      cases isState
      rw [if_neg few] at ran
      cases ran
      simp only [List.length_drop]
      omega
  refine pops.bind fun lists middle height => ?_
  refine (((KeepsStack.orCrash _).bind fun _ => .pure _) middle).mono fun _ final unchanged => ?_
  rw [unchanged, height]

theorem ensures_rewriteDistinctClause (query : Query) (state : RewriteState) :
    Ensures (rewriteDistinctClause cat query) state
      fun _ final => final.pStack.length = state.pStack.length := by
  intro query' final ran
  rw [rewriteDistinctClause, run_bind_eq_ok] at ran
  rcases ran with ⟨_, _, isState, ran⟩
  cases isState
  cases onStack : state.pStack with
  | nil =>
    simp only [onStack] at ran
    cases ran
  | cons pList stack =>
    simp only [onStack] at ran
    rcases run_bind_eq_ok.1 ran with ⟨⟨entries, clauses⟩, middle, _, ran⟩
    cases ran
    rfl

/-- A node raises the stack by one list only if all of its inputs push one. -/
theorem grows_rewriteSPJrestrict (ok : ∀ rte ∈ query.rtable, EntryOk cat rte)
    (recurs :
      ∀ rte ∈ query.rtable, isCounted rte = true →
        ∀ sub, recursesInto rte = some sub → Grows (recur sub) (fun _ => 1) (P sub)) :
    Grows (rewriteSPJrestrict cat recur query) (fun _ => 1)
      (∀ rte ∈ query.rtable, isCounted rte = true → EntryPushes P rte) := by
  refine (grows_rewriteRTEs query.rtable 1 ok recurs).popped ?_
  rintro ⟨rtable, subList⟩ state
  refine Ensures.bind (M := fun _ final => final.pStack = state.pStack)
    (fun _ _ ran => by cases ran; rfl) fun stack first unchanged => ?_
  refine (KeepsStack.orCrash _ first).bind fun rtable' second unchanged' => ?_
  refine (ensures_addProvenanceAttrs _ subList second).bind ?_
  rintro ⟨query', pList⟩ third popped
  refine (ensures_push pList third).bind fun _ fourth pushed => ?_
  have height : fourth.pStack.length + subList.length = state.pStack.length + 1 := by
    rw [pushed, List.length_cons, ← unchanged, ← unchanged', ← popped]
    omega
  split
  · exact Ensures.pure height
  · refine (ensures_rewriteDistinctClause query' fourth).mono fun _ _ same => ?_
    rw [same, height]

theorem grows_rewriteSPJQuery (ok : ∀ rte ∈ query.rtable, EntryOk cat rte)
    (recurs :
      ∀ rte ∈ query.rtable, isCounted rte = true →
        ∀ sub, recursesInto rte = some sub → Grows (recur sub) (fun _ => 1) (P sub)) :
    Grows (rewriteSPJQuery cat recur query) (fun _ => 1)
      (∀ rte ∈ query.rtable, isCounted rte = true → EntryPushes P rte) := by
  unfold rewriteSPJQuery
  split
  · have copy := @grows_rewriteSPJrestrict cat recur P
      { query with limitCount := none, limitOffset := none } ok recurs
    exact copy.bind_keeps fun _ => (KeepsStack.orCrash _).bind fun _ =>
      (keepsStack_createJoinOnAttrs cat _ _ _ _ _ _).bind fun _ => .orCrash _
  · exact grows_rewriteSPJrestrict ok recurs

theorem grows_rewriteAggregateQuery (ok : NodeOk cat query)
    (recurs : ∀ input, IsAggregationInput query input → Grows (recur input) (fun _ => 1) cond) :
    Grows (rewriteAggregateQuery cat recur query) (fun _ => 1) cond := by
  have named : ∀ te ∈ query.targetList, te.resjunk = false → te.resname.isSome = true := by
    intro te member visible
    rw [ok.targets.named te member, visible]
    rfl
  intro state
  simp only [rewriteAggregateQuery, rewriteAggrSubqueryForRewrite, bind_assoc, pure_bind]
  refine (returns_stripAggregates 1 named state).ensures.bind ?_
  rintro stripped first ⟨unchanged, strip, strippedNamed⟩
  rw [← unchanged]
  refine ((KeepsStack.orCrash _).grows_bind fun sortClause => ?_) first
  refine KeepsStack.grows_bind (fun state =>
    (returns_uniqueRelName "originalAggr" state).ensures) fun originalName => ?_
  refine KeepsStack.grows_bind (fun state =>
    ((returns_addSubqueryTargetListToTargetList query 1 named state).mono
      fun _ _ result => result.1).ensures) ?_
  rintro ⟨entries, shown⟩
  refine (KeepsStack.orCrash _).grows_bind fun join => ?_
  refine (recurs _ ⟨stripped, rfl, strip, strippedNamed⟩).popped fun input state => ?_
  refine (returns_uniqueRelName "rewrittenAggrSubquery" state).ensures.bind
    fun inputName second unchanged' => ?_
  refine (KeepsStack.orCrash _ second).bind fun top third unchanged'' => ?_
  refine (ensures_addProvenanceAttrs top [2] third).bind ?_
  rintro ⟨query', pList⟩ fourth popped
  refine (ensures_push pList fourth).bind fun _ fifth pushed => Ensures.pure ?_
  rw [pushed, List.length_cons, ← unchanged', ← unchanged'', ← popped]
  rfl

theorem grows_rewriteSetRTEs {rtable : List RTE}
    (recurs :
      ∀ rte ∈ rtable, ∀ sub, rte.kind = .subquery sub → Grows (recur sub) (fun _ => 1) (P sub)) :
    Grows (rewriteSetRTEs recur rtable) List.length
      (∀ rte ∈ rtable, ∀ sub, rte.kind = .subquery sub → P sub) := by
  induction rtable with
  | nil => exact fun _ => Ensures.pure ⟨le_rfl, by simp⟩
  | cons rte rest ih =>
    have others := ih fun rte member => recurs rte (by simp [member])
    intro state
    rw [rewriteSetRTEs]
    refine Ensures.orCrash_bind fun sub isSub => ?_
    have kind := kind_of_subquery?_eq_some isSub
    refine (recurs rte (by simp) sub kind state).bind fun sub' middle height =>
      (others middle).bind fun rtes final height' => Ensures.pure ?_
    simp only [List.length_cons] at height height' ⊢
    refine ⟨by omega, fun equal => List.forall_mem_cons.mpr ⟨?_, height'.2 (by omega)⟩⟩
    intro sub' kind'
    cases kind.symm.trans kind'
    exact height.2 (by omega)

/-- A set operation raises the stack by one list only if all of its inputs do. -/
theorem grows_rewriteSetQuery (nodeOk : NodeOk cat query) {tree : SetOpNode}
    (setOp : query.setOperations = some tree)
    (recurs : ∀ sub, Reaches query sub → Grows (recur sub) (fun _ => 1) (Pushing sub)) :
    Grows (rewriteSetQuery cat recur query) (fun _ => 1) (Pushing query) := by
  have ok := nodeOk.setOk setOp
  rcases ok.exists_ofTree setOp with ⟨op, all, colTypes, larg, rarg, isTree⟩
  intro state
  rw [rewriteSetQuery]
  refine Ensures.orCrash_bind fun base isBase => ?_
  rw [ok.removeDummyRewriterRTEs_eq (by
    rw [ofTree_rtable isTree]
    exact List.ne_nil_of_length_pos (OpTree.leaves_pos _))] at isBase
  cases isBase
  have stmt :
      query.setOperations =
        some (.setOperationStmt op all colTypes (larg.number 1)
          (rarg.number (1 + larg.leaves.length))) :=
    ofTree_setOperations isTree
  simp only [stmt]
  refine Ensures.orCrash_bind fun restructured isRestructured => ?_
  have replaced := replaceSetOperationSubTrees_ofTree query op (.node op all colTypes larg rarg)
  rw [← isTree] at replaced
  cases replaced.symm.trans isRestructured
  have inputs := grows_rewriteSetRTEs fun rte member sub kind =>
    recurs sub (Reaches.of_restructured isTree member kind)
  have node :=
    everywhereIn_setOperation (P := fun node => InputsPush node.rtable) ok.allRewritten
  have same := @inputsHold_restructure query (fun node => InputsPush node.rtable)
    (fun part isPart => isPart.inputsPush) op _ (ofTree_rtable isTree ▸ ok.allRewritten)
  refine (((inputs.mono fun holds => node.mpr ⟨ok.allRewritten.inputsPush, ?_⟩).popped
    fun rtable state => ?_) state)
  · rw [ofTree_rtable isTree]
    exact same.mp holds
  · refine (KeepsStack.orCrash _ state).bind fun top first unchanged => ?_
    refine (ensures_addProvenanceAttrs top _ first).bind ?_
    rintro ⟨query', pList⟩ second popped
    refine (ensures_push pList second).bind fun _ third pushed => Ensures.pure ?_
    rw [List.length_range'] at popped
    rw [pushed, List.length_cons, ← unchanged, ← popped]
    omega

end Node

/-! ## The rewriter -/

/-- A rewrite raises the stack by one list only if all inputs push one. -/
theorem grows_rewriteQueryNode {cat : Catalog} (n : Nat) {query : Query}
    (wellFormed : WellFormed cat query) :
    Grows (rewriteQueryNode cat n query) (fun _ => 1) (Pushing query) := by
  induction n generalizing query with
  | zero => exact (KeepsStack.throw _).grows_one
  | succ n ih =>
    have recurs (sub : Query) (reaches : Reaches query sub) :
        Grows (rewriteQueryNode cat n sub) (fun _ => 1) (Pushing sub) :=
      ih (reaches.wellFormed wellFormed)
    have ok := wellFormed.nodeOk
    rw [rewriteQueryNode]
    cases aggs : query.hasAggs with
    | true =>
      refine grows_rewriteAggregateQuery ok fun input isInput => ?_
      rcases isInput with ⟨stripped, rfl, strip, named⟩
      refine (recurs _ (.aggregation aggs strip named)).mono fun pushing => ?_
      exact everywhereIn_isRewritten_iff.mpr (everywhereIn_isRewritten_iff.mp pushing)
    | false =>
      cases setOp : query.setOperations with
      | some tree => exact grows_rewriteSetQuery ok setOp recurs
      | none =>
        refine (grows_rewriteSPJQuery ok.entries fun rte member isInput sub descends =>
          recurs sub (.subquery member isInput descends)).mono fun pushes => ?_
        exact everywhereIn_isRewritten_iff.mpr ⟨fun rte member isInput =>
          (pushes rte member isInput).1, fun rte member isInput => (pushes rte member isInput).2⟩

/-! ## Rewrites from an empty stack -/

/-- The program ends with a list on the stack. -/
def LeavesList {α : Type} (program : Rewrite α) : Prop :=
  ∀ state, Ensures program state fun _ final => final.pStack ≠ []

section Leaves

variable
  {α β : Type}
  {program : Rewrite α}
  {next : α → Rewrite β}

theorem LeavesList.after (second : ∀ result, LeavesList (next result)) :
    LeavesList (program >>= next) :=
  fun _ => Ensures.bind (M := fun _ _ => True) (fun _ _ _ => trivial)
    fun result middle _ => second result middle

theorem LeavesList.bind_keeps (first : LeavesList program)
    (second : ∀ result, KeepsStack (next result)) :
    LeavesList (program >>= next) :=
  fun state => (first state).bind fun result middle present =>
    (second result middle).mono fun _ _ unchanged => unchanged ▸ present

theorem leavesList_push (pList : List TargetEntry) : LeavesList (push pList) :=
  fun _ => (returns_push (List.cons_ne_nil _ _)).ensures

theorem leavesList_rewriteSPJrestrict (cat : Catalog) (recur : Query → Rewrite Query)
    (query : Query) :
    LeavesList (rewriteSPJrestrict cat recur query) := by
  refine .after fun _ => .after fun _ => .after fun _ => .after ?_
  rintro ⟨query', pList⟩ state
  refine (leavesList_push pList state).bind fun _ final present => ?_
  split
  · exact Ensures.pure present
  · refine (ensures_rewriteDistinctClause query' final).mono fun _ final' same empty => ?_
    rw [empty] at same
    exact present (List.eq_nil_of_length_eq_zero same.symm)

theorem leavesList_rewriteQueryNode (cat : Catalog) (n : Nat) (query : Query) :
    LeavesList (rewriteQueryNode cat n query) := by
  have pushes (pList : List TargetEntry) (query' : Query) :
      LeavesList (do push pList; return query') :=
    (leavesList_push pList).bind_keeps fun _ => .pure _
  cases n with
  | zero => exact fun _ => Ensures.throw
  | succ n =>
    rw [rewriteQueryNode]
    split
    · exact .after fun _ => .after fun _ => .after fun _ => .after fun _ => .after fun _ =>
        .after fun _ => .after fun _ => .after fun _ => .after fun _ => pushes _ _
    · split
      · refine .after fun _ => ?_
        split
        · exact .after fun _ => .after fun _ => .after fun _ => .after fun _ => pushes _ _
        · exact fun _ => Ensures.throw
      · unfold rewriteSPJQuery
        split
        · exact (leavesList_rewriteSPJrestrict cat _ _).bind_keeps fun _ =>
            (KeepsStack.orCrash _).bind fun _ =>
              (keepsStack_createJoinOnAttrs cat _ _ _ _ _ _).bind fun _ => .orCrash _
        · exact leavesList_rewriteSPJrestrict cat _ query

end Leaves

/-- The rewriter returns from an empty stack only on queries it can rewrite. -/
theorem rewritable_of_returns {cat : Catalog} {query : Query} (wellFormed : WellFormed cat query)
    {Post : Query → RewriteState → Prop}
    (returns : Returns (rewriteQueryNode cat query.size query) {} Post) :
    Rewritable cat query := by
  rcases returns with ⟨query', final, ran, -⟩
  have height := grows_rewriteQueryNode query.size wellFormed {} query' final ran
  have present := leavesList_rewriteQueryNode cat query.size query {} query' final ran
  have pushing : Pushing query := by
    refine height.2 (le_antisymm height.1 ?_)
    exact List.length_pos_iff.mpr present
  by_contra unfit
  rcases (decides_rewriteQueryNode wellFormed pushing le_rfl {}).2 unfit with ⟨failure, failed⟩
  exact nomatch ran.symm.trans failed

end Ldv.Perm
