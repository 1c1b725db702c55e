import Ldv.Perm.Attributes

/-!
# Runs of the rewriter on the inputs of a node

The rewrite of a range-table entry pushes one list, the provenance
attributes of the entry, and leaves the rest of the stack alone.  It fails
only if the rewrite of a subquery fails.
-/

namespace Ldv.Perm

open Ldv.Sql Effect

variable {rte : RTE} {names : List String} {rtindex : Nat}

/-! ## Names -/

/-- Entries for which names of provenance attributes can be made. -/
def Nameable (rte : RTE) : Prop :=
  (∃ relid, rte.kind = .relation relid) ∨
    ((∃ query, rte.kind = .subquery query) ∧ (rte.userAlias.bind Alias.aliasname).isSome = true)

theorem returns_getRelationRefNum (relid : Oid) (increment : Bool) (state : RewriteState) :
    Returns (getRelationRefNum relid increment) state
      fun _ final => final.pStack = state.pStack := by
  apply Returns.get_bind
  apply Returns.set_bind
  exact Returns.pure rfl

theorem ensureAlias_isSome (cat : Catalog)
    (aliasname : rte.eref.aliasname.isSome = true) :
    ∃ name rte', ensureAlias cat rte = some (name, rte') ∧
      rte'.kind = rte.kind ∧ rte'.eref = rte.eref ∧
      (rte'.userAlias.bind Alias.aliasname).isSome = true := by
  unfold ensureAlias
  cases given : rte.userAlias.bind Alias.aliasname with
  | some name => exact ⟨name, rte, rfl, rfl, rfl, by rw [given]; rfl⟩
  | none =>
    rcases Option.isSome_iff_exists.mp aliasname with ⟨name, found⟩
    refine ⟨name, { rte with
      userAlias := some { aliasname := some name } }, ?_, rfl, rfl, rfl⟩
    simp [fallbackName, found]

/-- Counting a reference makes sure that the entry can be named. -/
theorem returns_getQueryRefNum (cat : Catalog) (increment : Bool)
    (aliasname : rte.eref.aliasname.isSome = true) (state : RewriteState) :
    Returns (getQueryRefNum cat rte increment) state
      fun counted final => final.pStack = state.pStack ∧
        counted.2.kind = rte.kind ∧ counted.2.eref = rte.eref ∧
        (hasProvenance rte = true → Nameable counted.2) := by
  have nameable {rte' : RTE} (kind : rte'.kind = rte.kind)
      (named : (rte'.userAlias.bind Alias.aliasname).isSome = true)
      (provenance : hasProvenance rte = true) :
      Nameable rte' := by
    unfold hasProvenance at provenance
    split at provenance
    · next relid isRelation => exact .inl ⟨relid, kind.trans isRelation⟩
    · next query isSubquery =>
        exact .inr ⟨⟨query, kind.trans isSubquery⟩, named⟩
    · contradiction
  rcases ensureAlias_isSome cat aliasname with
    ⟨name, rte', ensured, kind, eref, named⟩
  have byAlias :
      Returns
        (do
          let ensured ← orCrash (ensureAlias cat rte)
          let state ← get
          let found := countRef ensured.1 increment state.queryRefCount
          set { state with queryRefCount := found.2 }
          return (found.1, ensured.2) : Rewrite (Nat × RTE))
        state
        fun counted final => final.pStack = state.pStack ∧
          counted.2.kind = rte.kind ∧ counted.2.eref = rte.eref ∧
          (hasProvenance rte = true → Nameable counted.2) := by
    apply Returns.orCrash_bind ensured
    apply Returns.get_bind
    apply Returns.set_bind
    exact Returns.pure ⟨rfl, kind, eref, nameable kind named⟩
  unfold getQueryRefNum
  split
  · next relid isRelation unmarked =>
      refine (returns_getRelationRefNum relid increment state).bind ?_
      intro refNum final unchanged
      exact Returns.pure ⟨unchanged, rfl, rfl, fun _ => .inl ⟨relid, isRelation⟩⟩
  · exact byAlias

theorem returns_createProvAttrName (cat : Catalog) (nameable : Nameable rte)
    (aliasname : rte.eref.aliasname.isSome = true) (name : String) (state : RewriteState) :
    Returns (createProvAttrName cat rte name) state fun _ final => final.pStack = state.pStack := by
  rcases nameable with ⟨relid, kind⟩ | ⟨⟨query, kind⟩, named⟩
  · simp only [createProvAttrName, kind, getRelationName]
    refine Returns.bind (M := fun _ final =>
      final.pStack = state.pStack) ?_ fun _ _ unchanged =>
        Returns.pure unchanged
    exact (returns_getRelationRefNum relid false state).bind
      fun _ _ unchanged => Returns.pure unchanged
  · simp only [createProvAttrName, kind, getQueryName]
    refine Returns.bind (M := fun _ final =>
      final.pStack = state.pStack) ?_ fun _ _ unchanged =>
        Returns.pure unchanged
    have provenance : hasProvenance rte = true := by
      simp [hasProvenance, kind]
    refine (returns_getQueryRefNum cat false aliasname state).bind ?_
    rintro ⟨refCount, rte'⟩ final ⟨unchanged, kind', _, nameable'⟩
    rcases nameable' provenance with ⟨relid, isRelation⟩ | ⟨_, named'⟩
    · rw [kind'] at isRelation
      rw [kind] at isRelation
      contradiction
    · rcases Option.isSome_iff_exists.mp named' with ⟨found, present⟩
      apply Returns.orCrash_bind present
      exact Returns.pure unchanged

/-! ## Entries which are not rewritten themselves -/

theorem returns_baseRelationEntries (cat : Catalog) (nameable : Nameable rte)
    (aliasname : rte.eref.aliasname.isSome = true) (start : Nat) (columns : List (String × Expr))
    (state : RewriteState) :
    Returns (baseRelationEntries cat rte start columns) state
      fun entries final => final.pStack = state.pStack ∧
        entries.map TargetEntry.expr = columns.map Prod.snd ∧
        entries.map TargetEntry.resno = List.range' start columns.length ∧
        (∀ te ∈ entries, Plain te) ∧
        ∀ te ∈ entries, te.resname.isSome = true := by
  induction columns generalizing start state with
  | nil => exact Returns.pure ⟨rfl, rfl, rfl, by simp, by simp⟩
  | cons column rest ih =>
    rcases column with ⟨name, var⟩
    refine (returns_createProvAttrName cat nameable aliasname name state).bind ?_
    intro provName middle unchanged
    refine (ih (start + 1) middle).bind ?_
    rintro entries final ⟨unchanged', exprs, resnos, plain, named⟩
    refine Returns.pure ⟨unchanged'.trans unchanged, by simp [exprs],
      by simp [resnos, List.range'_succ], ?_, ?_⟩
    · intro te member
      rcases List.mem_cons.mp member with rfl | member
      · exact ⟨rfl, rfl⟩
      · exact plain te member
    · intro te member
      rcases List.mem_cons.mp member with rfl | member
      · rfl
      · exact named te member

theorem exists_allLabels (labels : List (Option String))
    (present : ∀ label ∈ labels, label.isSome = true) :
    ∃ names, allLabels labels = some names := by
  induction labels with
  | nil => exact ⟨[], rfl⟩
  | cons label rest ih =>
    rcases Option.isSome_iff_exists.mp (present label (by simp)) with
      ⟨name, rfl⟩
    rcases ih fun label member =>
      present label (by simp [member]) with ⟨names, found⟩
    exact ⟨name :: names, by simp [allLabels, found]⟩

/-- One item for each live column. -/
theorem length_filterMap_live {α : Type} {f : Attribute × Nat → Option α}
    (live : ∀ attr position, (f (attr, position)).isSome = !attr.attisdropped)
    (attributes : List Attribute) (start : Nat) :
    ((attributes.zipIdx start).filterMap f).length =
      attributes.countP fun attr => !attr.attisdropped := by
  induction attributes generalizing start with
  | nil => rfl
  | cons attr rest ih =>
    have kept := live attr start
    rw [List.zipIdx_cons, List.filterMap_cons, List.countP_cons, ← ih (start + 1)]
    cases found : f (attr, start) with
    | none =>
      rw [found] at kept
      simp [← kept]
    | some item =>
      rw [found] at kept
      simp [← kept]

/-- Every column of an input has a label. -/
theorem expandRTE_lengths (cat : Catalog) (rtindex : Nat)
    (provenance : hasProvenance rte = true) :
    (expandRTENames cat rte).length = (expandRTEVars cat rtindex rte).length := by
  unfold hasProvenance at provenance
  split at provenance
  · next relid kind =>
      simp only [expandRTENames, expandRTEVars, kind, tupleDescNames, expandTupleDesc]
      rw [length_filterMap_live, length_filterMap_live]
      · intro attr position
        cases attr.attisdropped <;> simp
      · intro attr position
        cases attr.attisdropped with
        | true => rfl
        | false => simp only [Bool.false_eq_true, if_false]; split <;> rfl
  · next query kind =>
      simp [expandRTENames, expandRTEVars, kind, numberedVars]
  · contradiction

/-- Pushing the columns of a base relation. -/
theorem returns_rewriteBaseRelation (cat : Catalog) (rtindex : Nat)
    (ok : EntryOk cat rte) (provenance : hasProvenance rte = true) (unlisted : rte.provAttrs = [])
    (state : RewriteState) :
    Returns (rewriteBaseRelation cat rtindex rte) state
      fun rte' final => rte'.kind = rte.kind ∧ rte'.eref = rte.eref ∧
        ∃ pList, final.pStack = pList :: state.pStack ∧ KeptAttrs cat rtindex rte pList := by
  rcases exists_allLabels _ ok.labels with ⟨names, labels⟩
  have expanded :
      expandRTEWithParam cat rtindex rte = some (names, expandRTEVars cat rtindex rte) := by
    simp [expandRTEWithParam, labels]
  have count : names.length = (expandRTEVars cat rtindex rte).length := by
    rw [← expandRTE_lengths cat rtindex provenance,
      allLabels_eq_some_iff.mp labels, List.length_map]
  apply Returns.orCrash_bind expanded
  refine (returns_getQueryRefNum cat true ok.aliasname state).bind ?_
  rintro ⟨refNum, rte'⟩ middle ⟨unchanged, kind, eref, nameable⟩
  have aliasname : rte'.eref.aliasname.isSome = true := eref ▸ ok.aliasname
  refine (returns_baseRelationEntries cat (nameable provenance) aliasname 1
    (names.zip (expandRTEVars cat rtindex rte)) middle).bind ?_
  rintro pList final ⟨unchanged', exprs, resnos, plain, named⟩
  rw [List.map_snd_zip (by omega)] at exprs
  have length := congrArg List.length exprs
  rw [List.length_map] at length
  rw [List.length_zip, count, Nat.min_self, ← length] at resnos
  refine Returns.bind (M := fun _ final' =>
    final'.pStack = pList :: state.pStack) ?_ fun _ _ pushed =>
      Returns.pure ⟨kind, eref, pList, pushed, .base unlisted exprs resnos plain named⟩
  apply returns_push
  simp [unchanged', unchanged]

/-- Collecting attributes which are all columns of the entry. -/
theorem returns_provAttrEntries (rte : RTE) {columns : List (String × Expr)}
    {provAttrs : List String} (present : ∀ provAttr ∈ provAttrs, provAttr ∈ columns.map Prod.fst)
    (state : RewriteState) :
    Returns (provAttrEntries rte columns provAttrs) state
      fun pList final => final = state ∧
        pList = provAttrs.flatMap fun provAttr =>
          listedEntries provAttr columns := by
  induction provAttrs with
  | nil => exact Returns.pure ⟨rfl, rfl⟩
  | cons provAttr rest ih =>
    have found : (listedEntries provAttr columns).isEmpty = false := by
      rcases List.mem_map.mp (present provAttr (by simp)) with
        ⟨column, member, rfl⟩
      have kept : column ∈ columns.filter (fun other => other.1 == column.1) :=
        List.mem_filter.mpr ⟨member, by simp⟩
      rw [List.isEmpty_eq_false_iff_exists_mem]
      exact ⟨_, List.mem_map_of_mem kept⟩
    rw [provAttrEntries]
    simp only [found, Bool.false_eq_true, if_false]
    refine (ih fun provAttr member =>
      present provAttr (by simp [member])).bind ?_
    rintro _ final ⟨same, rfl⟩
    exact Returns.pure ⟨same, rfl⟩

/-- The names in a PROVENANCE attribute list of a well-formed entry. -/
theorem EntryOk.listed_names {cat : Catalog} (ok : EntryOk cat rte)
    (isInput : isCounted rte = true) (leaf : recursesInto rte = none)
    (present : rte.provAttrs ≠ []) :
    ∃ names provAttrs, listableNames cat rte = some names ∧
      allLabels rte.provAttrs = some provAttrs ∧ ∀ provAttr ∈ provAttrs, provAttr ∈ names := by
  have listed := ok.listed isInput leaf
  cases listable : listableNames cat rte with
  | none =>
    rcases List.exists_mem_of_ne_nil _ present with ⟨provAttr, member⟩
    have impossible := listed provAttr member
    simp [listable] at impossible
  | some names =>
    have isName : ∀ provAttr ∈ rte.provAttrs, provAttr ∈ names.map some := by
      simpa [listable] using listed
    rcases exists_allLabels rte.provAttrs (by
      intro label member
      rcases List.mem_map.mp (isName label member) with ⟨_, _, rfl⟩
      rfl) with ⟨provAttrs, labels⟩
    refine ⟨names, provAttrs, rfl, labels, ?_⟩
    intro provAttr member
    have inside := isName (some provAttr) (by
      rw [allLabels_eq_some_iff.mp labels]
      exact List.mem_map_of_mem member)
    rcases List.mem_map.mp inside with ⟨name, present', same⟩
    exact Option.some.inj same ▸ present'

theorem listable_lengths {cat : Catalog} (rtindex : Nat)
    (provenance : hasProvenance rte = true)
    (listable : listableNames cat rte = some names) :
    names.length = (listableVars cat rtindex rte).length := by
  unfold listableNames at listable
  unfold listableVars
  split at listable
  · next query kind =>
      have labels := allLabels_eq_some_iff.mp listable
      rw [← List.length_map some, ← labels]
      simp
  · next other =>
      rw [← List.length_map some, ← allLabels_eq_some_iff.mp listable]
      exact expandRTE_lengths cat rtindex provenance

/-- Pushing the attributes the user listed. -/
theorem returns_rewriteListed {cat : Catalog}
    {provAttrs : List String} (provenance : hasProvenance rte = true)
    (listable : listableNames cat rte = some names)
    (labels : allLabels rte.provAttrs = some provAttrs) (present : rte.provAttrs ≠ [])
    (found : ∀ provAttr ∈ provAttrs, provAttr ∈ names) (state : RewriteState) :
    Returns
      (do
        let pList ← provAttrEntries rte (names.zip (listableVars cat rtindex rte)) provAttrs
        push pList
        return rte : Rewrite RTE)
      state
      fun rte' final => rte' = rte ∧
        ∃ pList, final.pStack = pList :: state.pStack ∧ KeptAttrs cat rtindex rte pList := by
  have count := listable_lengths rtindex provenance listable
  refine (returns_provAttrEntries rte (fun provAttr member => ?_) state).bind ?_
  · rw [List.map_fst_zip (by omega)]
    exact found provAttr member
  · rintro _ final ⟨rfl, rfl⟩
    refine Returns.bind (returns_push rfl) fun _ _ pushed =>
      Returns.pure ⟨rfl, _, pushed, .listed ?_ labels present⟩
    rw [namedColumns, listable, Option.map_some]

/-! ## All inputs -/

section Inputs

variable
  {cat : Catalog}
  {recur : Query → Rewrite Query}
  {R : Rel}
  {C : Query → Prop}

/-- What is assumed of the rewrite of a subquery, which fails unless `C`. -/
def RecursOn (recur : Query → Rewrite Query) (R : Rel) (C : Query → Prop)
    (sub : Query) :
    Prop :=
  ∀ state, Decides (recur sub) state (C sub) fun sub' final =>
    ∃ pList, final.pStack = pList :: state.pStack ∧ R sub sub' pList

theorem returns_rewriteRTE_kept (ok : EntryOk cat rte) (isInput : isCounted rte = true)
    (provenance : hasProvenance rte = true) (leaf : recursesInto rte = none)
    (state : RewriteState) :
    Returns (rewriteRTE cat recur rtindex rte) state
      fun rte' final => ∃ pList, final.pStack = pList :: state.pStack ∧
        EntryShape cat R rtindex rte rte' pList := by
  have isKept := provenance
  cases unlisted : rte.provAttrs with
  | nil =>
    have base :
        Returns (rewriteBaseRelation cat rtindex rte) state
          fun rte' final =>
            ∃ pList, final.pStack = pList :: state.pStack ∧
              EntryShape cat R rtindex rte rte' pList :=
      (returns_rewriteBaseRelation cat rtindex ok provenance unlisted
        state).mono fun rte' final result => by
          rcases result with ⟨kind, eref, pList, pushed, attrs⟩
          exact ⟨pList, pushed, .kept isKept leaf kind eref attrs⟩
    unfold hasProvenance at provenance
    split at provenance
    · next relid kind => simpa [rewriteRTE, unlisted, kind] using base
    · next query kind =>
        have marked : rte.isProvBase = true := by
          simpa [recursesInto, kind, unlisted] using leaf
        simpa [rewriteRTE, unlisted, kind, marked] using base
    · contradiction
  | cons provAttr rest =>
    have present : rte.provAttrs ≠ [] := by simp [unlisted]
    rcases ok.listed_names isInput leaf present with
      ⟨names, provAttrs, listable, labels, found⟩
    have listed :
        Returns
          (do
            let pList ← provAttrEntries rte (names.zip (listableVars cat rtindex rte)) provAttrs
            push pList
            return rte : Rewrite RTE)
          state fun rte' final =>
            ∃ pList, final.pStack = pList :: state.pStack ∧
              EntryShape cat R rtindex rte rte' pList :=
      (returns_rewriteListed provenance listable labels present found
        state).mono fun rte' final result => by
          rcases result with ⟨rfl, pList, pushed, attrs⟩
          exact ⟨pList, pushed, .kept isKept leaf rfl rfl attrs⟩
    unfold hasProvenance at provenance
    split at provenance
    · next relid kind =>
        have expanded :
            expandRTEWithParam cat rtindex rte = some (names, listableVars cat rtindex rte) := by
          simp only [listableNames, kind] at listable
          simp [expandRTEWithParam, listable, listableVars, kind]
        have enter :
            rewriteRTE cat recur rtindex rte =
              rewriteRTEwithProvenance cat recur rtindex rte := by
          simp [rewriteRTE, unlisted]
        rw [enter]
        simp only [rewriteRTEwithProvenance, kind]
        apply Returns.orCrash_bind expanded
        apply Returns.orCrash_bind labels
        exact listed
    · next query kind =>
        have unmarked : query.shouldRewrite = false := by
          simpa [recursesInto, kind, unlisted] using leaf
        have columns :
            subqueryColumns rtindex query = some (names.zip (listableVars cat rtindex rte)) := by
          simp only [listableNames, kind] at listable
          simp [subqueryColumns, listable, listableVars, kind]
        have enter :
            rewriteRTE cat recur rtindex rte =
              rewriteRTEwithProvenance cat recur rtindex rte := by
          simp [rewriteRTE, unlisted]
        rw [enter]
        simp only [rewriteRTEwithProvenance, kind, unmarked, Bool.false_eq_true, if_false]
        apply Returns.orCrash_bind columns
        apply Returns.orCrash_bind labels
        exact listed
    · contradiction

theorem rewriteRTE_of_recursesInto {sub : Query}
    (descends : recursesInto rte = some sub) :
    rewriteRTE cat recur rtindex rte =
      (do
        let query ← recur sub
        return { rte with kind := .subquery query }) := by
  have kind := kind_of_recursesInto descends
  cases unlisted : rte.provAttrs with
  | nil =>
    have unmarked : rte.isProvBase = false := by
      simpa [recursesInto, kind, unlisted] using descends
    simp [rewriteRTE, unlisted, kind, unmarked]
  | cons provAttr rest =>
    have marked : sub.shouldRewrite = true := by
      simpa [recursesInto, kind, unlisted] using descends
    simp [rewriteRTE, rewriteRTEwithProvenance, unlisted, kind, marked]

/-- Rewriting an entry pushes its provenance attributes. -/
theorem decides_rewriteRTE (rtindex : Nat) (ok : EntryOk cat rte)
    (isInput : isCounted rte = true) (provenance : hasProvenance rte = true)
    (recurs : ∀ sub, recursesInto rte = some sub → RecursOn recur R C sub)
    (state : RewriteState) :
    Decides (rewriteRTE cat recur rtindex rte) state
      (∀ sub, recursesInto rte = some sub → C sub)
      fun rte' final => ∃ pList, final.pStack = pList :: state.pStack ∧
        EntryShape cat R rtindex rte rte' pList := by
  cases descends : recursesInto rte with
  | none =>
    exact .of_returns (by simp) (returns_rewriteRTE_kept ok isInput provenance descends state)
  | some sub =>
    rw [rewriteRTE_of_recursesInto descends]
    refine ((recurs sub descends state).bind_returns
      fun _ query final result => ?_).mono (by simp) fun _ _ _ holds => holds
    rcases result with ⟨pList, pushed, related⟩
    exact Returns.pure ⟨pList, pushed, .recursed descends related⟩

theorem rewriteRTE_of_isJoin (ok : EntryOk cat rte)
    (join : rte.isJoin = true) :
    rewriteRTE cat recur rtindex rte = pure rte := by
  unfold RangeTblEntry.isJoin at join
  split at join
  · next jointype aliasvars kind =>
      rcases ok.unmarked (by simp [hasProvenance, kind]) with ⟨unmarked, unlisted⟩
      simp [rewriteRTE, unlisted, kind, unmarked]
  · contradiction

/-- Rewriting the entries pushes one list for each input, in order. -/
theorem decides_rewriteRTEs (rtable : List RTE) (start : Nat) (ok : ∀ rte ∈ rtable, EntryOk cat rte)
    (push : InputsPush rtable)
    (recurs :
      ∀ rte ∈ rtable, isCounted rte = true →
        ∀ sub, recursesInto rte = some sub → RecursOn recur R C sub)
    (state : RewriteState) :
    Decides (rewriteRTEs cat recur start rtable) state
      (∀ rte ∈ rtable, isCounted rte = true → ∀ sub, recursesInto rte = some sub → C sub)
      fun result final => ∃ lists,
        final.pStack = lists.reverse ++ state.pStack ∧
          InputsFrom cat R start rtable result.1 result.2 lists := by
  induction rtable generalizing start state with
  | nil => exact .of_returns (by simp) (Returns.pure ⟨[], rfl, .nil⟩)
  | cons rte rest ih =>
    have others := ih (start + 1) (fun rte member => ok rte (by simp [member]))
      (fun rte member => push rte (by simp [member]))
      (fun rte member => recurs rte (by simp [member]))
    have uncountedCase
        (uncounted : isCounted rte = false) :
        Decides
          (do
            let others ← rewriteRTEs cat recur (start + 1) rest
            return (rte :: others.1, others.2))
          state
          (∀ rte' ∈ rte :: rest, isCounted rte' = true →
            ∀ sub, recursesInto rte' = some sub → C sub)
          fun result final => ∃ lists,
            final.pStack = lists.reverse ++ state.pStack ∧
              InputsFrom cat R start (rte :: rest) result.1 result.2
                lists := by
      refine ((others state).bind_returns
        fun _ result final known => ?_).mono (by simp [uncounted]) fun _ _ _ holds => holds
      rcases known with ⟨lists, pushed, inputs⟩
      exact Returns.pure ⟨lists, pushed, .other uncounted inputs⟩
    cases skips : skipsRTE rte with
    | true =>
      rw [rewriteRTEs, if_pos skips]
      exact uncountedCase (by simp [isCounted, skips])
    | false =>
      rw [rewriteRTEs, if_neg (by simp [skips])]
      cases join : rte.isJoin with
      | true =>
        rw [rewriteRTE_of_isJoin (ok rte (by simp)) join, pure_bind]
        exact uncountedCase (by simp [isCounted, join])
      | false =>
        have isInput : isCounted rte = true := by
          simp [isCounted, skips, join]
        have first := decides_rewriteRTE start (ok rte (by simp))
          isInput (push rte (by simp) isInput) (recurs rte (by simp) isInput) state
        refine (first.bind fun _ rte' middle known =>
          ((others middle).bind_returns
            fun _ result final known' => ?_)).mono
              (by simp [isInput]) fun _ _ _ holds => holds
        rcases known with ⟨pList, pushed, entry⟩
        rcases known' with ⟨lists, pushed', inputs⟩
        refine Returns.pure ⟨pList :: lists, ?_, .counted isInput entry inputs⟩
        rw [pushed', pushed, List.reverse_cons, List.append_assoc]
        rfl

end Inputs

/-!
## Runs of the rewriter on select-project-join nodes

After the inputs of a node were rewritten, their attribute lists are on top
of the stack.  All of them can be led through the joins of the node, and
they are replaced by one list, the attributes of the node.  The only step
which may fail is the extension of DISTINCT, for attributes of a type that
has no ordering operator.
-/

variable {rtindex : Nat} {entries : List TargetEntry}

/-! ## Lists on the stack -/

section Lists

variable
  {cat : Catalog}
  {R : Rel}
  {start : Nat}
  {rtable rtable' : List RTE}
  {subList : List Nat}
  {lists : List (List TargetEntry)}

theorem InputsFrom.le_of_mem (inputs : InputsFrom cat R start rtable rtable' subList lists) :
    ∀ rtindex ∈ subList, start ≤ rtindex := by
  induction inputs with
  | nil => simp
  | other uncounted tail ih =>
    intro rtindex member
    have := ih rtindex member
    omega
  | counted isInput entry tail ih =>
    intro rtindex member
    rcases List.mem_cons.mp member with rfl | member
    · exact Nat.le_refl _
    · have := ih rtindex member
      omega

theorem InputsFrom.nodup (inputs : InputsFrom cat R start rtable rtable' subList lists) :
    subList.Nodup := by
  induction inputs with
  | nil => exact List.nodup_nil
  | other uncounted tail ih => exact ih
  | counted isInput entry tail ih =>
    refine List.nodup_cons.mpr ⟨fun member => ?_, ih⟩
    have := tail.le_of_mem _ member
    omega

/-- Each position in `subList` is that of an input. -/
theorem InputsFrom.counted_of_mem (inputs : InputsFrom cat R start rtable rtable' subList lists)
    (member : rtindex ∈ subList) :
    ∃ rte, rtable[rtindex - start]? = some rte ∧ isCounted rte = true := by
  induction inputs with
  | nil => simp at member
  | @other first rte rest rest' subList lists uncounted tail ih =>
    rcases ih member with ⟨rte, present, isInput⟩
    have bound := tail.le_of_mem _ member
    refine ⟨rte, ?_, isInput⟩
    rw [show rtindex - first = rtindex - (first + 1) + 1 by omega]
    exact present
  | @counted first rte rte' rest rest' subList pList lists isInput entry tail ih =>
    rcases List.mem_cons.mp member with rfl | member
    · exact ⟨rte, by simp, isInput⟩
    · rcases ih member with ⟨rte, present, isInput⟩
      have bound := tail.le_of_mem _ member
      refine ⟨rte, ?_, isInput⟩
      rw [show rtindex - first = rtindex - (first + 1) + 1 by omega]
      exact present

/-- The list on the stack that belongs to a position in `subList`. -/
theorem stackListFor_of_mem (nodup : subList.Nodup) (lengths : subList.length = lists.length)
    (stack : List (List TargetEntry)) {pList : List TargetEntry}
    (member : (rtindex, pList) ∈ subList.zip lists) :
    stackListFor (lists.reverse ++ stack) subList rtindex = some pList := by
  rcases List.getElem?_of_mem member with ⟨counter, present⟩
  rw [List.getElem?_zip_eq_some] at present
  rcases present with ⟨isSub, isList⟩
  have bound : counter < lists.length := (List.getElem?_eq_some_iff.mp isList).1
  have found :
      (subList.zipIdx.filter fun sub => sub.1 == rtindex).getLast? = some (rtindex, counter) := by
    cases last : (subList.zipIdx.filter fun sub => sub.1 == rtindex).getLast? with
    | none =>
      rw [List.getLast?_eq_none_iff, List.filter_eq_nil_iff] at last
      have isPair : (rtindex, counter) ∈ subList.zipIdx := List.mem_zipIdx_iff_getElem?.mpr isSub
      exact absurd (by simp) (last _ isPair)
    | some sub =>
      rcases sub with ⟨rtindex', counter'⟩
      have kept := List.mem_filter.mp (List.mem_of_getLast? last)
      have same : rtindex' = rtindex := by simpa using kept.2
      have isSub' := List.mem_zipIdx_iff_getElem?.mp kept.1
      subst same
      have equal := (List.getElem?_inj (by omega) nodup).mp (isSub.trans isSub'.symm)
      rw [equal]
  rw [stackListFor, found]
  simp only []
  rw [List.getElem?_append_left (by simp; omega), List.getElem?_reverse (by omega)]
  rw [← isList]
  congr 1
  omega

theorem stackListFor_of_not_mem (pStack : List (List TargetEntry))
    (absent : rtindex ∉ subList) :
    stackListFor pStack subList rtindex = some [] := by
  have none : subList.zipIdx.filter (fun sub => sub.1 == rtindex) = [] := by
    rw [List.filter_eq_nil_iff]
    rintro ⟨rtindex', counter⟩ member equal
    have same : rtindex' = rtindex := by simpa using equal
    exact absent (same ▸ List.mem_of_getElem? (List.mem_zipIdx_iff_getElem?.mp member))
  rw [stackListFor, none]
  rfl

theorem stackListFor_append (lengths : subList.length = lists.length)
    (stack : List (List TargetEntry)) (rtindex : Nat) :
    stackListFor (lists.reverse ++ stack) subList rtindex =
      stackListFor lists.reverse subList rtindex := by
  by_cases member : rtindex ∈ subList
  · unfold stackListFor
    cases last : (subList.zipIdx.filter fun sub => sub.1 == rtindex).getLast? with
    | none => rfl
    | some sub =>
      have kept := List.mem_filter.mp (List.mem_of_getLast? last)
      have bound := (List.getElem?_eq_some_iff.mp (List.mem_zipIdx_iff_getElem?.mp kept.1)).1
      exact List.getElem?_append_left (by simp; omega)
  · rw [stackListFor_of_not_mem _ member, stackListFor_of_not_mem _ member]

theorem InputsFrom.entry_of_mem (inputs : InputsFrom cat R start rtable rtable' subList lists)
    (member : rtindex ∈ subList) :
    ∃ rte rte' pList, isCounted rte = true ∧
      rtable[rtindex - start]? = some rte ∧
      rtable'[rtindex - start]? = some rte' ∧
      EntryShape cat R rtindex rte rte' pList ∧
      (rtindex, pList) ∈ subList.zip lists := by
  rcases inputs.counted_of_mem member with ⟨rte, present, isInput⟩
  rcases inputs.fetch _ present with ⟨rte', present', uncounted | counted⟩
  · rw [isInput] at uncounted
    exact absurd uncounted.1 (by simp)
  · rcases counted with ⟨_, pList, entry, inside⟩
    have bound := inputs.le_of_mem rtindex member
    rw [show start + (rtindex - start) = rtindex by omega] at entry inside
    exact ⟨rte, rte', pList, isInput, present, present', entry, inside⟩

theorem InputsFrom.listsOf (inputs : InputsFrom cat R start rtable rtable' subList lists)
    (attrsOf : KnowsAttrs cat R)
    (leaves : List Nat) :
    ListsOf lists.reverse subList leaves := by
  intro rtindex _
  by_cases member : rtindex ∈ subList
  · rcases inputs.entry_of_mem member with
      ⟨rte, rte', pList, _, _, _, entry, inside⟩
    have found := stackListFor_of_mem inputs.nodup inputs.lengths_eq [] inside
    rw [List.append_nil] at found
    exact ⟨pList, found, fun te => entry.isVar attrsOf⟩
  · exact ⟨[], stackListFor_of_not_mem _ member, by simp⟩

end Lists

theorem computeJoinPAttrs_congr {pStack pStack' : List (List TargetEntry)} {subList : List Nat}
    (same : ∀ rtindex, stackListFor pStack subList rtindex = stackListFor pStack' subList rtindex)
    (node : JoinTreeNode) (rtable : List RTE) :
    computeJoinPAttrs pStack subList node rtable =
      computeJoinPAttrs pStack' subList node rtable := by
  induction node generalizing rtable with
  | rangeTblRef rtindex => rw [computeJoinPAttrs, same, computeJoinPAttrs]
  | joinExpr jointype rtindex larg rarg quals leftIH rightIH =>
    simp only [computeJoinPAttrs, leftIH, rightIH]

theorem correctJoinRTEs_congr {pStack pStack' : List (List TargetEntry)} {subList : List Nat}
    (same : ∀ rtindex, stackListFor pStack subList rtindex = stackListFor pStack' subList rtindex)
    (fromlist : List JoinTreeNode) (rtable : List RTE) :
    correctJoinRTEs pStack subList fromlist rtable =
      correctJoinRTEs pStack' subList fromlist rtable := by
  induction fromlist generalizing rtable with
  | nil => rfl
  | cons item rest ih =>
    cases item with
    | rangeTblRef rtindex => exact ih rtable
    | joinExpr jointype rtindex larg rarg quals =>
      simp only [correctJoinRTEs, computeJoinPAttrs_congr same, ih]

/-! ## Attributes of the node -/

section Node

variable
  {cat : Catalog}
  {R : Rel}
  {query : Query}
  {rtable' : List RTE}
  {subList : List Nat}
  {lists : List (List TargetEntry)}

theorem SelectOk.joinsPresent (select : SelectOk cat query)
    (inputs : InputsFrom cat R 1 query.rtable rtable' subList lists) :
    JoinsPresent (rtable'.map correctRTEAlias) (query.fromlist.flatMap JoinTreeNode.joins) := by
  intro rtindex member
  have present := select.joins rtindex member
  cases fetched : rtFetch query.rtable rtindex with
  | none => simp [fetched] at present
  | some rte =>
    have join : rte.isJoin = true := by simpa [fetched] using present
    rcases rtFetch_eq_some_iff.mp fetched with ⟨positive, found⟩
    have uncounted : isCounted rte = false := by simp [isCounted, join]
    rcases inputs.fetch _ found with ⟨rte', found', known | known⟩
    · rcases known with ⟨_, rfl⟩
      refine ⟨correctRTEAlias rte', ?_, ?_⟩
      · rw [rtFetch_map, rtFetch_eq_some_iff.mpr ⟨positive, found'⟩]
        rfl
      · rw [isJoin_congr (correctRTEAlias_kind rte')]
        exact join
    · rw [uncounted] at known
      exact absurd known.1 (by simp)

theorem SelectOk.mem_leaves (select : SelectOk cat query)
    (inputs : InputsFrom cat R 1 query.rtable rtable' subList lists)
    (member : rtindex ∈ subList) :
    rtindex ∈ query.fromlist.flatMap JoinTreeNode.leaves := by
  rcases inputs.counted_of_mem member with ⟨rte, present, isInput⟩
  have bound := inputs.le_of_mem rtindex member
  refine select.covered (rte, rtindex) ?_ isInput
  rw [List.mem_zipIdx_iff_le_and_getElem?_sub]
  exact ⟨bound, present⟩

/-- All attributes of the inputs can be led through the joins. -/
theorem InputsFrom.seen (inputs : InputsFrom cat R 1 query.rtable rtable' subList lists)
    (select : SelectOk cat query)
    (attrsOf : KnowsAttrs cat R) :
    ∃ rtable'',
      correctJoinRTEs lists.reverse subList query.fromlist
          (rtable'.map correctRTEAlias) = some rtable'' ∧
        ∀ attr ∈ attributesOf subList lists, ∃ varno varattno,
          SeenAs { query with rtable := rtable'' } attr.1 attr.2.resno varno varattno := by
  rcases correctJoinRTEs_routes query.fromlist select.nodup
    (select.joinsPresent inputs) (inputs.listsOf attrsOf _) with
    ⟨rtable'', corrected, _, routes⟩
  refine ⟨rtable'', corrected, ?_⟩
  rintro ⟨rtindex, te⟩ member
  rcases List.mem_flatMap.mp member with ⟨⟨rtindex', pList⟩, paired, inside⟩
  rcases List.mem_map.mp inside with ⟨te', isAttr, equal⟩
  cases equal
  have isSub := (List.of_mem_zip paired).1
  rcases List.mem_flatMap.mp (select.mem_leaves inputs isSub) with
    ⟨item, isItem, leaf⟩
  have found := stackListFor_of_mem inputs.nodup inputs.lengths_eq [] paired
  rw [List.append_nil] at found
  rcases routes item isItem _ leaf pList found te isAttr with
    ⟨attno, routed⟩
  refine ⟨item.rtindex, attno, Routed.seenAs ?_ ?_ leaf routed⟩
  · exact select.nodup
  · exact isItem

theorem SeenAs.isSome {attno varno varattno : Nat}
    (seen : SeenAs query rtindex attno varno varattno) :
    (getRTindexForProvTE query rtindex attno).isSome = true := by
  rw [seen.1]
  rfl

/-- The attributes of all inputs are replaced by those of the node. -/
theorem returns_addProvenanceAttrs {top : Query} {stack : List (List TargetEntry)}
    {state : RewriteState} (onStack : state.pStack = lists.reverse ++ stack)
    (lengths : subList.length = lists.length)
    (added :
      provenanceEntries top (top.targetList.length + 1)
        (attributesOf subList lists) = some entries) :
    Returns (addProvenanceAttrs top subList) state
      fun result final => final.pStack = stack ∧
        result = ({ top with targetList := top.targetList ++ entries }, entries) := by
  refine Returns.bind (M := fun popped final =>
    popped = lists ∧ final.pStack = stack)
    (returns_popListAndReverse onStack lengths.symm ⟨rfl, rfl⟩) ?_
  rintro _ final ⟨rfl, unchanged⟩
  apply Returns.orCrash_bind added
  exact Returns.pure ⟨unchanged, rfl⟩

end Node

/-! ## DISTINCT -/

/-- Numbering fails exactly if a type has no ordering operator. -/
theorem decides_distinctEntries (cat : Catalog)
    (plain : ∀ te ∈ entries, Plain te) (start : Nat) (state : RewriteState) :
    Decides (distinctEntries cat start entries) state
      (∀ type ∈ entries.map (fun te => exprType te.expr), (cat.orderingOper type).isSome = true)
      fun result final => final = state ∧
        result.1 = numberEntries (start + 1) entries ∧
        result.2.map SortClause.tleSortGroupRef = List.range' (start + 1) entries.length := by
  induction entries generalizing start with
  | nil => exact .of_returns (by simp) (Returns.pure ⟨rfl, rfl, rfl⟩)
  | cons te rest ih =>
    have fresh : te.ressortgroupref = 0 := (plain te (by simp)).1
    cases oper : cat.orderingOper (exprType te.expr) with
    | none =>
      refine ⟨fun all => ?_, fun _ =>
        ⟨.noOrderingOperator (exprType te.expr), ?_⟩⟩
      · have missing := all (exprType te.expr) (by simp)
        rw [oper] at missing
        contradiction
      · rw [distinctEntries, oper]
        rfl
    | some sortop =>
      have others := ih (fun te member => plain te (by simp [member])) (start + 1)
      simp only [distinctEntries, oper, pure_bind, fresh, beq_self_eq_true, if_true]
      refine (others.bind_returns
        fun _ result final known => ?_).mono ?_ fun _ _ _ holds => holds
      · rcases known with ⟨same, numbered, refs⟩
        refine Returns.pure ⟨same, ?_, ?_⟩
        · simp [numbered, numberEntries, List.zipIdx_cons]
        · simp [refs, List.range'_succ]
      · simp [oper]

theorem maxGroupref_append (targetList : List TargetEntry)
    (plain : ∀ te ∈ entries, Plain te) :
    maxGroupref (targetList ++ entries) = maxGroupref targetList := by
  rw [maxGroupref, List.foldl_append, ← maxGroupref]
  generalize maxGroupref targetList = ref
  induction entries with
  | nil => rfl
  | cons te rest ih =>
    rw [List.foldl_cons, (plain te (by simp)).1, Nat.max_zero]
    exact ih fun te member =>
      plain te (by simp [member])

/-- Extending DISTINCT to attributes which are on top of the stack. -/
theorem decides_rewriteDistinctClause (cat : Catalog) (query : Query)
    {stack : List (List TargetEntry)} (plain : ∀ te ∈ entries, Plain te) {state : RewriteState}
    (onTop : state.pStack = entries :: stack) :
    Decides
      (rewriteDistinctClause cat { query with targetList := query.targetList ++ entries })
      state
      (∀ type ∈ entries.map (fun te => exprType te.expr), (cat.orderingOper type).isSome = true)
      fun query' final => ∃ clauses,
        final.pStack =
            numberEntries (maxGroupref query.targetList + 1) entries :: stack ∧
          clauses.map SortClause.tleSortGroupRef =
            List.range' (maxGroupref query.targetList + 1) entries.length ∧
          query' = { query with
            targetList := query.targetList ++
              numberEntries (maxGroupref query.targetList + 1) entries
            distinctClause := query.distinctClause ++ clauses } := by
  apply Decides.get_bind
  simp only [onTop, maxGroupref_append query.targetList plain]
  refine (decides_distinctEntries cat plain (maxGroupref query.targetList) state).bind_returns ?_
  rintro _ ⟨_, clauses⟩ _ ⟨same, rfl, refs⟩
  refine Returns.bind (M := fun _ final =>
    final.pStack = numberEntries (maxGroupref query.targetList + 1) entries :: stack)
    (Returns.modify rfl) ?_
  intro _ final pushed
  refine Returns.pure ⟨clauses, pushed, refs, ?_⟩
  simp

/-! ## The node -/

/-- Attributes of the query can be compared for DISTINCT. -/
def DistinctOk (cat : Catalog) (query : Query) : Prop :=
  query.distinctClause ≠ [] → ∀ type ∈ provTypes cat query, (cat.orderingOper type).isSome = true

theorem decides_rewriteSPJrestrict {cat : Catalog} {recur : Query → Rewrite Query} {R : Rel}
    {C : Query → Prop} {query : Query} (entriesOk : ∀ rte ∈ query.rtable, EntryOk cat rte)
    (push : InputsPush query.rtable) (select : SelectOk cat query)
    (recurs :
      ∀ rte ∈ query.rtable, isCounted rte = true →
        ∀ sub, recursesInto rte = some sub → RecursOn recur R C sub)
    (attrsOf : KnowsAttrs cat R)
    (state : RewriteState) :
    Decides (rewriteSPJrestrict cat recur query) state
      ((∀ rte ∈ query.rtable, isCounted rte = true →
        ∀ sub, recursesInto rte = some sub → C sub) ∧
        DistinctOk cat query)
      fun query' final => ∃ pList,
        final.pStack = pList :: state.pStack ∧ SpjShape cat R query query' pList := by
  refine (decides_rewriteRTEs query.rtable 1 entriesOk push recurs state).bind ?_
  rintro _ ⟨rtable', subList⟩ middle ⟨lists, onStack, inputs⟩
  rcases inputs.seen select attrsOf with ⟨rtable'', corrected, seen⟩
  have corrected' :
      correctJoinRTEs middle.pStack subList query.fromlist
        (rtable'.map correctRTEAlias) = some rtable'' := by
    rw [onStack, ← corrected]
    exact correctJoinRTEs_congr (stackListFor_append inputs.lengths_eq state.pStack) _ _
  rcases Option.isSome_iff_exists.mp (provenanceEntries_isSome
    (query.targetList.length + 1) (fun attr member => by
      rcases seen attr member with ⟨varno, varattno, seenAs⟩
      exact seenAs.isSome)) with ⟨entries, added⟩
  have attrs : AttrsOf cat query entries := by
    refine attrsOf_provenanceEntries added inputs.lengths_eq ?_ (inputs.named attrsOf)
    rw [provTypes_eq, inputs.types attrsOf]
  have plain := (provenanceEntries_fields added).2.2
  apply Decides.get_bind
  apply Decides.orCrash_bind corrected'
  refine (returns_addProvenanceAttrs onStack inputs.lengths_eq added).bind_decides ?_
  rintro _ popped ⟨unchanged, rfl⟩
  refine Returns.bind_decides (M := fun _ final =>
    final.pStack = entries :: state.pStack)
    (returns_push (by simp [unchanged])) ?_
  intro _ pushed onTop
  by_cases distinct : query.distinctClause = []
  · rw [if_pos (by simp [distinct])]
    refine .of_returns (fun present => absurd distinct present) (Returns.pure ⟨entries, onTop, ?_⟩)
    have shape := SpjShape.intro inputs corrected added (.absent distinct)
    rw [List.append_nil] at shape
    exact shape
  · rw [if_neg (by simp [distinct])]
    have extended := decides_rewriteDistinctClause cat { query with rtable := rtable'' }
      (fun te member => (plain te member).1) onTop
    refine extended.mono ?_ ?_
    · rw [attrs.types, DistinctOk]
      exact ⟨fun holds => holds distinct, fun holds _ => holds⟩
    · rintro _ query' final ⟨clauses, pushed', refs, rfl⟩
      exact ⟨_, pushed', .intro inputs corrected added (.present distinct refs)⟩

end Ldv.Perm
