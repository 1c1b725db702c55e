import Ldv.Perm.WellFormed

/-!
# Lists of provenance attributes

The attributes which a rewrite leaves on the stack are visible column
references, numbered by their position in the target list of the rewritten
query.  Their types can be read off the original query: `provTypes` collects
them without rewriting anything.
-/

namespace Ldv.Perm

open Ldv.Sql

variable {start rtindex n : Nat} {attrs : List (Nat × TargetEntry)} {entries : List TargetEntry}
  {subList : List Nat} {lists : List (List TargetEntry)} {rte rte' : RTE} {te : TargetEntry}
  {rtable rtable' : List RTE}

/-! ## New target entries -/

/-- The target entry for an attribute of an entry of the query. -/
def IsEntryFor (query : Query) (attr : Nat × TargetEntry) (resno : Nat)
    (entry : TargetEntry) :
    Prop :=
  ∃ varno varattno,
    getRTindexForProvTE query attr.1 attr.2.resno = some (varno, varattno) ∧
      entry = {
        expr := .var varno varattno (exprType attr.2.expr)
        resno := resno
        resname := attr.2.resname }

theorem provenanceEntries_eq_some_iff {query : Query} :
    provenanceEntries query start attrs = some entries ↔
      List.Forall₂ (fun attr entry => IsEntryFor query attr.1 attr.2 entry)
        (attrs.zipIdx start) entries := by
  induction attrs generalizing start entries with
  | nil => cases entries <;> simp [provenanceEntries]
  | cons attr rest ih =>
    rcases attr with ⟨rtindex, te⟩
    simp only [provenanceEntries, List.zipIdx_cons, List.forall₂_cons_left_iff, IsEntryFor,
      Option.bind_eq_bind, Option.bind_eq_some_iff, Option.pure_def,
      Option.some.injEq, Prod.exists]
    constructor
    · rintro ⟨varno, varattno, seen, others, found, rfl⟩
      exact ⟨_, _, ⟨varno, varattno, seen, rfl⟩, ih.mp found, rfl⟩
    · rintro ⟨_, others, ⟨varno, varattno, seen, rfl⟩, found, rfl⟩
      exact ⟨varno, varattno, seen, others, ih.mpr found, rfl⟩

/-- All attributes can be added if the query level sees all of them. -/
theorem provenanceEntries_isSome {query : Query} (start : Nat) {attrs : List (Nat × TargetEntry)}
    (seen :
      ∀ attr ∈ attrs,
        (getRTindexForProvTE query attr.1 attr.2.resno).isSome = true) :
    (provenanceEntries query start attrs).isSome = true := by
  induction attrs generalizing start with
  | nil => rfl
  | cons attr rest ih =>
    rcases attr with ⟨rtindex, te⟩
    rcases Option.isSome_iff_exists.mp
      (seen (rtindex, te) (by simp)) with ⟨⟨varno, varattno⟩, found⟩
    rcases Option.isSome_iff_exists.mp
      (ih (start + 1) fun attr member =>
        seen attr (by simp [member])) with ⟨entries, others⟩
    simp only [] at found
    simp [provenanceEntries, found, others]

/-- What does not depend on how the attributes are reached. -/
theorem provenanceEntries_fields {query : Query}
    (added : provenanceEntries query start attrs = some entries) :
    entries.map (fun te => (exprType te.expr, te.resname)) =
        attrs.map (fun attr => (exprType attr.2.expr, attr.2.resname)) ∧
      entries.map TargetEntry.resno = List.range' start attrs.length ∧
      ∀ te ∈ entries, Plain te ∧ IsVar te.expr := by
  induction attrs generalizing start entries with
  | nil =>
    rw [provenanceEntries, Option.some.injEq] at added
    simp [← added]
  | cons attr rest ih =>
    rw [provenanceEntries_eq_some_iff, List.zipIdx_cons, List.forall₂_cons_left_iff] at added
    rcases added with ⟨_, others, ⟨varno, varattno, _, rfl⟩, found, rfl⟩
    rcases ih (provenanceEntries_eq_some_iff.mpr found) with
      ⟨fields, resnos, shape⟩
    refine ⟨by simp [fields], by simp [resnos, List.range'_succ], ?_⟩
    intro te member
    rcases List.mem_cons.mp member with rfl | member
    · exact ⟨⟨rfl, rfl⟩, ⟨varno, varattno, _, rfl⟩⟩
    · exact shape te member

/-- An entry refers to the column as which the query sees its attribute. -/
theorem mem_provenanceEntries {query : Query}
    (added : provenanceEntries query start attrs = some entries) {te : TargetEntry}
    (member : te ∈ entries) :
    ∃ attr ∈ attrs, ∃ varno varattno,
      getRTindexForProvTE query attr.1 attr.2.resno = some (varno, varattno) ∧
        te.expr = .var varno varattno (exprType attr.2.expr) := by
  induction attrs generalizing start entries with
  | nil =>
    cases added
    cases member
  | cons attr rest ih =>
    rw [provenanceEntries_eq_some_iff, List.zipIdx_cons, List.forall₂_cons_left_iff] at added
    rcases added with ⟨_, others, ⟨varno, varattno, seen, rfl⟩, found, rfl⟩
    rcases List.mem_cons.mp member with rfl | later
    · exact ⟨attr, List.mem_cons_self, varno, varattno, seen, rfl⟩
    · rcases ih (provenanceEntries_eq_some_iff.mpr found) later with ⟨attr', isAttr, known⟩
      exact ⟨attr', List.mem_cons_of_mem _ isAttr, known⟩

theorem attributesOf_map_snd
    (lengths : subList.length = lists.length) :
    (attributesOf subList lists).map Prod.snd = lists.flatten := by
  induction subList generalizing lists with
  | nil =>
    cases lists with
    | nil => rfl
    | cons pList rest => simp at lengths
  | cons rtindex rest ih =>
    cases lists with
    | nil => simp at lengths
    | cons pList rest' =>
      have shorter : rest.length = rest'.length := by
        simpa using lengths
      have tail := ih shorter
      rw [attributesOf] at tail ⊢
      simp [tail, Function.comp_def]

/-! ## Types of the attributes of an input -/

/-- Types of the attributes of an entry which is not rewritten itself. -/
def keptTypes (cat : Catalog) (rte : RTE) : List Oid :=
  if rte.provAttrs.isEmpty then
    (expandRTEVars cat 1 rte).map exprType
  else
    match namedColumns cat 1 rte, allLabels rte.provAttrs with
    | some columns, some provAttrs =>
      provAttrs.flatMap fun provAttr =>
        (listedEntries provAttr columns).map fun te => exprType te.expr
    | _, _ => []

mutual

/-- Types of the provenance attributes of a query. -/
def provTypes (cat : Catalog) : Query → List Oid
  | { rtable := rtable, .. } => provTypesInRtable cat rtable

def provTypesInRtable (cat : Catalog) :
    List (RangeTblEntry Query) → List Oid
  | [] => []
  | rte :: rest => provTypesInRTE cat rte ++ provTypesInRtable cat rest

def provTypesInRTE (cat : Catalog) : RangeTblEntry Query → List Oid
  | { kind := .subquery query, userAlias := userAlias, eref := eref,
      isProvBase := isProvBase, provAttrs := provAttrs } =>
      let rte : RTE := {
        kind := .subquery query, userAlias := userAlias, eref := eref,
        isProvBase := isProvBase, provAttrs := provAttrs }
      if isCounted rte then
        if (recursesInto rte).isSome then provTypes cat query
        else keptTypes cat rte
      else
        []
  | rte => if isCounted rte then keptTypes cat rte else []

end

theorem provTypes_eq (cat : Catalog) (query : Query) :
    provTypes cat query = provTypesInRtable cat query.rtable := by
  cases query
  rfl

theorem provTypesInRTE_of_uncounted (cat : Catalog)
    (uncounted : isCounted rte = false) :
    provTypesInRTE cat rte = [] := by
  rcases rte with ⟨kind, userAlias, eref, isProvBase, provAttrs⟩
  cases kind <;> simp [provTypesInRTE, uncounted]

theorem provTypesInRTE_of_recursesInto (cat : Catalog) {sub : Query}
    (isInput : isCounted rte = true) (descends : recursesInto rte = some sub) :
    provTypesInRTE cat rte = provTypes cat sub := by
  have kind := kind_of_recursesInto descends
  rcases rte with ⟨kind', userAlias, eref, isProvBase, provAttrs⟩
  cases kind
  simp [provTypesInRTE, isInput, descends]

theorem provTypesInRTE_of_kept (cat : Catalog) (isInput : isCounted rte = true)
    (leaf : recursesInto rte = none) :
    provTypesInRTE cat rte = keptTypes cat rte := by
  rcases rte with ⟨kind, userAlias, eref, isProvBase, provAttrs⟩
  cases kind <;> simp [provTypesInRTE, isInput, leaf]

theorem provTypesInRtable_append (cat : Catalog) (first second : List RTE) :
    provTypesInRtable cat (first ++ second) =
      provTypesInRtable cat first ++ provTypesInRtable cat second := by
  induction first with
  | nil => rfl
  | cons rte rest ih =>
    simp [provTypesInRtable, ih]

/-! ## Attributes of an input -/

/-- Types do not depend on the position of an entry. -/
theorem expandRTEVars_types (cat : Catalog) (rtindex rtindex' : Nat) (rte : RTE) :
    (expandRTEVars cat rtindex rte).map exprType =
      (expandRTEVars cat rtindex' rte).map exprType := by
  cases kind : rte.kind with
  | relation relid =>
    simp only [expandRTEVars, kind, expandTupleDesc, List.map_filterMap,
      apply_ite (Option.map exprType), Option.map_none, Option.map_some,
      exprType_var]
  | subquery query =>
    simp [expandRTEVars, kind, numberedVars, Function.comp_def]
  | join jointype aliasvars =>
    simp only [expandRTEVars, kind, List.map_filterMap,
      apply_ite (Option.map exprType), Option.map_none, Option.map_some,
      exprType_var]
  | function funcid coltypes =>
    simp [expandRTEVars, kind, numberedVars, Function.comp_def]
  | values lists =>
    simp [expandRTEVars, kind, numberedVars, Function.comp_def]

theorem expandRTEVars_isVar {cat : Catalog} {expr : Expr}
    (member : expr ∈ expandRTEVars cat rtindex rte) :
    ∃ attno vartype, expr = .var rtindex attno vartype := by
  have numbered {types : List Oid}
      (member : expr ∈ numberedVars rtindex types) :
      ∃ attno vartype, expr = .var rtindex attno vartype := by
    rcases List.mem_map.mp member with ⟨⟨vartype, attno⟩, _, rfl⟩
    exact ⟨attno, vartype, rfl⟩
  cases kind : rte.kind with
  | relation relid =>
    simp only [expandRTEVars, kind, expandTupleDesc, List.mem_filterMap] at member
    rcases member with ⟨⟨attr, attno⟩, _, expanded⟩
    split at expanded
    · contradiction
    · exact ⟨attno, attr.atttypid, (Option.some.inj expanded).symm⟩
  | subquery query =>
    simp only [expandRTEVars, kind] at member
    exact numbered member
  | join jointype aliasvars =>
    simp only [expandRTEVars, kind, List.mem_filterMap] at member
    rcases member with ⟨⟨⟨_, aliasvar⟩, attno⟩, _, expanded⟩
    split at expanded
    · contradiction
    · exact ⟨attno, exprType aliasvar, (Option.some.inj expanded).symm⟩
  | function funcid coltypes =>
    simp only [expandRTEVars, kind] at member
    exact numbered member
  | values lists =>
    simp only [expandRTEVars, kind] at member
    exact numbered member

theorem listableVars_types (cat : Catalog) (rtindex rtindex' : Nat) (rte : RTE) :
    (listableVars cat rtindex rte).map exprType = (listableVars cat rtindex' rte).map exprType := by
  unfold listableVars
  split
  · simp [Function.comp_def]
  · exact expandRTEVars_types cat rtindex rtindex' rte

theorem listableVars_isVar {cat : Catalog} {expr : Expr}
    (member : expr ∈ listableVars cat rtindex rte) :
    ∃ attno vartype, expr = .var rtindex attno vartype := by
  unfold listableVars at member
  split at member
  · rcases List.mem_map.mp member with ⟨te, _, rfl⟩
    exact ⟨te.resno, exprType te.expr, rfl⟩
  · exact expandRTEVars_isVar member

theorem listedEntries_types (provAttr : String) (columns : List (String × Expr)) :
    (listedEntries provAttr columns).map (fun te => exprType te.expr) =
      ((columns.map (Prod.map id exprType)).filter fun column =>
        column.1 == provAttr).map Prod.snd := by
  simp [listedEntries, List.filter_map, Function.comp_def]

theorem KeptAttrs.types {cat : Catalog} {pList : List TargetEntry}
    (attrs : KeptAttrs cat rtindex rte pList) :
    pList.map (fun te => exprType te.expr) = keptTypes cat rte := by
  cases attrs with
  | base unlisted exprs resnos plain named =>
    rw [keptTypes, unlisted, List.isEmpty_nil, if_pos rfl,
      expandRTEVars_types cat 1 rtindex, ← exprs, List.map_map]
    rfl
  | listed named labels present =>
    rcases Option.map_eq_some_iff.mp named with ⟨names, listable, rfl⟩
    have named' : namedColumns cat 1 rte = some (names.zip (listableVars cat 1 rte)) := by
      rw [namedColumns, listable, Option.map_some]
    have unempty : rte.provAttrs.isEmpty = false := by
      simpa using present
    simp only [keptTypes, unempty, named', labels, List.map_flatMap,
      listedEntries_types, ← List.zip_map_right,
      listableVars_types cat rtindex 1 rte]
    rfl

theorem KeptAttrs.isVar {cat : Catalog} {pList : List TargetEntry}
    (attrs : KeptAttrs cat rtindex rte pList) (member : te ∈ pList) :
    ∃ attno vartype, te.expr = .var rtindex attno vartype := by
  cases attrs with
  | base unlisted exprs resnos plain named =>
    have found : te.expr ∈ pList.map TargetEntry.expr := List.mem_map_of_mem member
    rw [exprs] at found
    exact expandRTEVars_isVar found
  | listed named labels present =>
    rcases Option.map_eq_some_iff.mp named with ⟨names, listable, rfl⟩
    rcases List.mem_flatMap.mp member with ⟨provAttr, _, found⟩
    rcases List.mem_map.mp found with ⟨column, kept, rfl⟩
    have inside := (List.mem_filter.mp kept).1
    exact listableVars_isVar (List.of_mem_zip inside).2

theorem KeptAttrs.names {cat : Catalog} {pList : List TargetEntry}
    (attrs : KeptAttrs cat rtindex rte pList) (member : te ∈ pList) :
    te.resname.isSome = true := by
  cases attrs with
  | base unlisted exprs resnos plain named => exact named te member
  | listed named labels present =>
    rcases List.mem_flatMap.mp member with ⟨provAttr, _, found⟩
    rcases List.mem_map.mp found with ⟨column, kept, rfl⟩
    rfl

/-! ## Attributes of a rewritten query -/

/-- What is known about the attributes of a query. -/
structure AttrsOf (cat : Catalog) (query : Query) (pList : List TargetEntry) : Prop where
  types : pList.map (fun te => exprType te.expr) = provTypes cat query
  isVar : ∀ te ∈ pList, IsVar te.expr
  visible : ∀ te ∈ pList, te.resjunk = false
  named : ∀ te ∈ pList, te.resname.isSome = true

/-- The attributes of related queries are known. -/
def KnowsAttrs (cat : Catalog) (R : Rel) : Prop :=
  ∀ sub sub' subAttrs, R sub sub' subAttrs → AttrsOf cat sub subAttrs

section Shapes

variable
  {cat : Catalog}
  {R : Rel}
  {query query' : Query}
  {pList : List TargetEntry}

theorem InputsFrom.lengths_eq
    (inputs : InputsFrom cat R start rtable rtable' subList lists) :
    subList.length = lists.length := by
  induction inputs with
  | nil => rfl
  | other uncounted tail ih => exact ih
  | counted isInput entry tail ih =>
    simpa using ih

theorem EntryShape.types (entry : EntryShape cat R rtindex rte rte' pList)
    (isInput : isCounted rte = true) (attrsOf : KnowsAttrs cat R) :
    pList.map (fun te => exprType te.expr) = provTypesInRTE cat rte := by
  cases entry with
  | kept provenance leaf kind eref attrs =>
    rw [provTypesInRTE_of_kept cat isInput leaf, attrs.types]
  | recursed descends related =>
    rw [provTypesInRTE_of_recursesInto cat isInput descends]
    exact (attrsOf _ _ _ related).types

theorem EntryShape.isVar (entry : EntryShape cat R rtindex rte rte' pList)
    (attrsOf : KnowsAttrs cat R) (member : te ∈ pList) :
    IsVar te.expr := by
  cases entry with
  | kept provenance leaf kind eref attrs =>
    exact ⟨rtindex, attrs.isVar member⟩
  | recursed descends related =>
    exact (attrsOf _ _ _ related).isVar te member

theorem EntryShape.named (entry : EntryShape cat R rtindex rte rte' pList)
    (attrsOf : KnowsAttrs cat R) (member : te ∈ pList) :
    te.resname.isSome = true := by
  cases entry with
  | kept provenance leaf kind eref attrs => exact attrs.names member
  | recursed descends related =>
    exact (attrsOf _ _ _ related).named te member

theorem InputsFrom.named (inputs : InputsFrom cat R start rtable rtable' subList lists)
    (attrsOf : KnowsAttrs cat R) :
    ∀ te ∈ lists.flatten, te.resname.isSome = true := by
  induction inputs with
  | nil => simp
  | other uncounted tail ih => exact ih
  | counted isInput entry tail ih =>
    intro te member
    rcases List.mem_append.mp (List.flatten_cons ▸ member) with
      member | member
    · exact entry.named attrsOf member
    · exact ih te member

theorem InputsFrom.types (inputs : InputsFrom cat R start rtable rtable' subList lists)
    (attrsOf : KnowsAttrs cat R) :
    lists.flatten.map (fun te => exprType te.expr) = provTypesInRtable cat rtable := by
  induction inputs with
  | nil => rfl
  | other uncounted tail ih =>
    rw [provTypesInRtable, provTypesInRTE_of_uncounted cat uncounted, ih, List.nil_append]
  | counted isInput entry tail ih =>
    rw [provTypesInRtable, List.flatten_cons, List.map_append, entry.types isInput attrsOf, ih]

theorem DistinctShape.fields {clauses : List SortClause}
    (shape : DistinctShape query entries pList clauses) :
    pList.map (fun te => (te.expr, te.resno, te.resname, te.resjunk)) =
      entries.map fun te =>
        (te.expr, te.resno, te.resname, te.resjunk) := by
  cases shape with
  | absent => rfl
  | present some refs =>
    rw [numberEntries, List.map_map]
    exact map_zipIdx_fst (fun te =>
      (te.expr, te.resno, te.resname, te.resjunk)) entries _

/-- The attributes of a node are those of its inputs. -/
theorem attrsOf_provenanceEntries {top : Query}
    (added : provenanceEntries top start (attributesOf subList lists) = some pList)
    (lengths : subList.length = lists.length)
    (types : lists.flatten.map (fun te => exprType te.expr) = provTypes cat query)
    (named : ∀ te ∈ lists.flatten, te.resname.isSome = true) :
    AttrsOf cat query pList := by
  rcases provenanceEntries_fields added with ⟨fields, _, shape⟩
  constructor
  · have exprTypes := congrArg (List.map Prod.fst) fields
    rw [List.map_map, List.map_map] at exprTypes
    rw [← types, ← attributesOf_map_snd lengths, List.map_map]
    exact exprTypes
  · exact fun te member => (shape te member).2
  · exact fun te member => (shape te member).1.2
  · intro te member
    have names := congrArg (List.map Prod.snd) fields
    rw [List.map_map, List.map_map] at names
    have found := List.mem_map_of_mem (f := TargetEntry.resname) member
    rw [show pList.map TargetEntry.resname = _ from names] at found
    rcases List.mem_map.mp found with ⟨attr, isAttr, equal⟩
    have inside := List.mem_map_of_mem (f := Prod.snd) isAttr
    rw [attributesOf_map_snd lengths] at inside
    exact equal ▸ named attr.2 inside

theorem AttrsOf.congr (attrs : AttrsOf cat query entries)
    (fields :
      pList.map (fun te => (te.expr, te.resno, te.resname, te.resjunk)) =
        entries.map fun te =>
          (te.expr, te.resno, te.resname, te.resjunk)) :
    AttrsOf cat query pList := by
  have twin {te : TargetEntry}
      (member : te ∈ pList) :
      ∃ entry ∈ entries,
        entry.expr = te.expr ∧ entry.resname = te.resname ∧ entry.resjunk = te.resjunk := by
    have found := List.mem_map_of_mem
      (f := fun te => (te.expr, te.resno, te.resname, te.resjunk)) member
    rw [fields] at found
    rcases List.mem_map.mp found with ⟨entry, present, equal⟩
    simp only [Prod.mk.injEq] at equal
    exact ⟨entry, present, equal.1, equal.2.2.1, equal.2.2.2⟩
  constructor
  · have types := congrArg (List.map fun field => exprType field.1) fields
    rw [List.map_map, List.map_map] at types
    exact types.trans attrs.types
  · intro te member
    rcases twin member with ⟨entry, present, expr, _, _⟩
    exact expr ▸ attrs.isVar entry present
  · intro te member
    rcases twin member with ⟨entry, present, _, _, junk⟩
    exact junk ▸ attrs.visible entry present
  · intro te member
    rcases twin member with ⟨entry, present, _, name, _⟩
    exact name ▸ attrs.named entry present

theorem SpjShape.attrsOf (shape : SpjShape cat R query query' pList)
    (attrsOf : KnowsAttrs cat R) :
    AttrsOf cat query pList := by
  cases shape with
  | intro inputs joins attrs distinct =>
    refine (attrsOf_provenanceEntries attrs inputs.lengths_eq ?_
      (inputs.named attrsOf)).congr distinct.fields
    rw [provTypes_eq, inputs.types attrsOf]

theorem AggShape.attrsOf (shape : AggShape cat R query query' pList)
    (attrsOf : KnowsAttrs cat R) :
    AttrsOf cat query pList := by
  cases shape with
  | intro strip named show_ shownNamed order rewritten attrs =>
    have known := attrsOf _ _ _ rewritten
    refine attrsOf_provenanceEntries attrs rfl ?_ ?_
    · have types := known.types
      rw [provTypes_eq] at types
      rw [provTypes_eq, List.flatten_singleton]
      exact types
    · rw [List.flatten_singleton]
      exact known.named

/-! ### Set operations -/

theorem isCounted_newSubRTE (query : Query) (tree : OpTree) :
    isCounted (newSubRTE query tree) = true := by
  simp [isCounted, skipsRTE, ignoreRTE, newSubRTE, subqueryRTE, RangeTblEntry.isJoin]

theorem provTypesInRTE_newSubRTE (cat : Catalog) (query : Query) (tree : OpTree) :
    provTypesInRTE cat (newSubRTE query tree) = provTypesInRtable cat tree.leaves := by
  rw [provTypesInRTE_of_recursesInto cat (isCounted_newSubRTE query tree)
    rfl, provTypes_eq]
  rfl

theorem provTypes_takeOut (cat : Catalog) (query : Query) (tree : OpTree) :
    provTypesInRtable cat (takeOut query tree).leaves = provTypesInRtable cat tree.leaves := by
  cases tree with
  | leaf rte => rfl
  | node op all colTypes larg rarg =>
    simp [takeOut, OpTree.leaves, provTypesInRtable, provTypesInRTE_newSubRTE]

/-- Restructuring keeps the order of the attributes. -/
theorem provTypes_restructure (cat : Catalog) (query : Query) (rootType : SetOperation)
    (tree : OpTree) :
    provTypesInRtable cat (restructure query rootType tree).leaves =
      provTypesInRtable cat tree.leaves := by
  induction tree with
  | leaf rte => rfl
  | node op all colTypes larg rarg leftIH rightIH =>
    have whole :
        provTypesInRtable cat (OpTree.leaf (newSubRTE query
          (.node op all colTypes larg rarg))).leaves =
        provTypesInRtable cat (OpTree.node op all colTypes larg rarg).leaves :=
      provTypes_takeOut cat query (.node op all colTypes larg rarg)
    cases op with
    | except =>
      rw [restructure]
      split
      · simp only [OpTree.leaves, provTypesInRtable_append, provTypes_takeOut]
      · exact whole
    | union =>
      simp only [restructure]
      split
      · simp only [OpTree.leaves, provTypesInRtable_append, leftIH, rightIH]
      · exact whole
    | intersect =>
      simp only [restructure]
      split
      · simp only [OpTree.leaves, provTypesInRtable_append, leftIH, rightIH]
      · exact whole

theorem SetInputs.lengths_eq
    (inputs : SetInputs R rtable rtable' lists) :
    rtable'.length = rtable.length ∧ lists.length = rtable.length := by
  induction inputs with
  | nil => exact ⟨rfl, rfl⟩
  | cons kind related tail ih =>
    simpa using ih

theorem SetInputs.origin
    (inputs : SetInputs R rtable rtable' lists) (member : rte' ∈ rtable') :
    ∃ rte ∈ rtable, ∃ sub sub' subAttrs, rte.kind = .subquery sub ∧
      R sub sub' subAttrs ∧ rte' = { rte with kind := .subquery sub' } := by
  induction inputs with
  | nil => simp at member
  | cons kind related tail ih =>
    rcases List.mem_cons.mp member with rfl | member
    · exact ⟨_, by simp, _, _, _, kind, related, rfl⟩
    · rcases ih member with ⟨rte, present, known⟩
      exact ⟨rte, by simp [present], known⟩

theorem SetInputs.types
    (inputs : SetInputs R rtable rtable' lists)
    (rewritten :
      ∀ rte ∈ rtable, ∀ sub, rte.kind = .subquery sub →
        isCounted rte = true ∧ recursesInto rte = some sub)
    (attrsOf : KnowsAttrs cat R) :
    lists.flatten.map (fun te => exprType te.expr) = provTypesInRtable cat rtable := by
  induction inputs with
  | nil => rfl
  | cons kind related tail ih =>
    rcases rewritten _ (by simp) _ kind with ⟨isInput, descends⟩
    rw [provTypesInRtable, List.flatten_cons, List.map_append, (attrsOf _ _ _ related).types,
      provTypesInRTE_of_recursesInto cat isInput descends,
      ih fun rte member =>
        rewritten rte (by simp [member])]

theorem SetInputs.named (inputs : SetInputs R rtable rtable' lists) (attrsOf : KnowsAttrs cat R) :
    ∀ te ∈ lists.flatten, te.resname.isSome = true := by
  induction inputs with
  | nil => simp
  | cons kind related tail ih =>
    intro te member
    rcases List.mem_append.mp (List.flatten_cons ▸ member) with
      member | member
    · exact (attrsOf _ _ _ related).named te member
    · exact ih te member

/-- All inputs of a restructured set operation are rewritten. -/
theorem SetOk.rewritten {tree : SetOpNode} (ok : SetOk query tree) {op : SetOperation}
    {opTree : OpTree} (same : query = ofTree query opTree)
    (member : rte ∈ (restructure query op opTree).leaves) {sub : Query}
    (kind : rte.kind = .subquery sub) :
    isCounted rte = true ∧ recursesInto rte = some sub := by
  rcases isInput_restructure member with leaf | ⟨part, _, _, rfl⟩
  · rw [← ofTree_rtable same] at leaf
    rcases ok.inputs rte leaf with ⟨isInput, fits⟩
    refine ⟨isInput, ?_⟩
    cases descends : recursesInto rte with
    | none => simp [descends] at fits
    | some sub' =>
      rw [kind_of_recursesInto descends] at kind
      cases kind
      rfl
  · cases kind
    exact ⟨isCounted_newSubRTE query part, rfl⟩

theorem SetShape.attrsOf (shape : SetShape cat R query query' pList) (nodeOk : NodeOk cat query)
    (attrsOf : KnowsAttrs cat R) :
    AttrsOf cat query pList := by
  cases shape with
  | @intro op all colTypes larg rarg rtable lists _ tree inputs attrs =>
    have ok := nodeOk.setOk (ofTree_setOperations tree)
    have lengths := inputs.lengths_eq
    refine attrsOf_provenanceEntries attrs
      (by rw [List.length_range']; omega) ?_ (inputs.named attrsOf)
    rw [provTypes_eq, ofTree_rtable tree, ← provTypes_restructure cat query op]
    exact inputs.types (fun rte member sub kind => ok.rewritten tree member kind) attrsOf

theorem NodeShape.attrsOf (shape : NodeShape cat R query query' pList) (nodeOk : NodeOk cat query)
    (attrsOf : KnowsAttrs cat R) :
    AttrsOf cat query pList := by
  cases shape with
  | spj noAggs noSetOp noLimit shape => exact shape.attrsOf attrsOf
  | limit noAggs noSetOp limited visible shape =>
    have attrs := shape.attrsOf attrsOf
    refine ⟨?_, attrs.isVar, attrs.visible, attrs.named⟩
    rw [attrs.types, provTypes_eq, provTypes_eq]
    rfl
  | agg aggs shape => exact shape.attrsOf attrsOf
  | set noAggs setOp shape => exact shape.attrsOf nodeOk attrsOf

end Shapes

/-- The attributes of every rewritten query. -/
theorem Rewritten.attrsOf {cat : Catalog} {query query' : Query}
    {pList : List TargetEntry} (wellFormed : WellFormed cat query)
    (rewritten : Rewritten cat n query query' pList) :
    AttrsOf cat query pList := by
  refine Rewritten.induction (motive := fun query _ pList => AttrsOf cat query pList)
    (fun query sub holds reaches => reaches.wellFormed holds) ?_
    wellFormed rewritten
  intro query query' pList wellFormed shape
  exact shape.attrsOf wellFormed.nodeOk fun _ _ _ known => known.2

/-! ## Positions of the attributes -/

/-- Number of columns in front of the provenance attributes. -/
def originalWidth (query : Query) : Nat :=
  if query.hasAggs then query.visibleCount else query.targetList.length

/-- The attributes are the last columns of the rewritten query. -/
structure AtEnd (query query' : Query) (pList : List TargetEntry) :
    Prop where
  length : query'.targetList.length = originalWidth query + pList.length
  resnos : pList.map TargetEntry.resno = List.range' (originalWidth query + 1) pList.length

theorem AtEnd.firstColumns {query query' : Query} {pList : List TargetEntry}
    (atEnd : AtEnd query query' pList) (member : te ∈ pList) :
    FirstColumns query'.targetList.length te.resno := by
  have found := List.mem_map_of_mem (f := TargetEntry.resno) member
  rw [atEnd.resnos, List.mem_range'_1] at found
  rw [atEnd.length]
  constructor <;> omega

theorem length_visibleEntries (query : Query) :
    (visibleEntries query).length = query.visibleCount := by
  simp [visibleEntries, nonJunk, Query.visibleCount]

theorem provenanceEntries_resnos {query : Query}
    (added : provenanceEntries query start attrs = some entries) :
    entries.map TargetEntry.resno = List.range' start entries.length := by
  have resnos := (provenanceEntries_fields added).2.1
  have lengths := congrArg List.length resnos
  rw [List.length_map, List.length_range'] at lengths
  rw [resnos, lengths]

theorem SpjShape.resnos {cat : Catalog} {R : Rel} {query query' : Query} {pList : List TargetEntry}
    (shape : SpjShape cat R query query' pList) :
    query'.targetList = query.targetList ++ pList ∧
      pList.map TargetEntry.resno = List.range' (query.targetList.length + 1) pList.length := by
  cases shape with
  | intro inputs joins attrs distinct =>
    refine ⟨rfl, ?_⟩
    have fields := congrArg (List.map fun field => field.2.1) distinct.fields
    rw [List.map_map, List.map_map] at fields
    have lengths := congrArg List.length fields
    rw [List.length_map, List.length_map] at lengths
    rw [lengths, ← provenanceEntries_resnos attrs]
    exact fields

theorem NodeShape.atEnd {cat : Catalog} {R : Rel} {query query' : Query} {pList : List TargetEntry}
    (shape : NodeShape cat R query query' pList) :
    AtEnd query query' pList := by
  cases shape with
  | spj noAggs noSetOp noLimit shape =>
    have width : originalWidth query = query.targetList.length := by
      simp [originalWidth, noAggs]
    exact ⟨by simp [width, shape.resnos.1], by rw [width, shape.resnos.2]⟩
  | limit noAggs noSetOp limited visible shape =>
    have width : originalWidth query = query.targetList.length := by
      simp [originalWidth, noAggs]
    refine ⟨?_, by rw [width, shape.resnos.2]; rfl⟩
    simp [width, limitTop, pairTop, secondColumns, shape.resnos.1, withoutLimit]
  | agg aggs shape =>
    cases shape with
    | intro strip named show_ shownNamed order rewritten attrs =>
      have width : originalWidth query = (visibleEntries query).length := by
        simp [originalWidth, aggs, length_visibleEntries]
      exact ⟨by simp [width], by rw [width, provenanceEntries_resnos attrs]⟩
  | set noAggs setOp shape =>
    cases shape with
    | intro tree inputs attrs =>
      have width : originalWidth query = query.targetList.length := by
        simp [originalWidth, noAggs]
      exact ⟨by simp [width], by rw [width, provenanceEntries_resnos attrs]⟩

theorem Rewritten.atEnd {cat : Catalog} {query query' : Query} {pList : List TargetEntry}
    (rewritten : Rewritten cat n query query' pList) :
    AtEnd query query' pList := by
  cases n with
  | zero => exact rewritten.elim
  | succ n => exact NodeShape.atEnd rewritten

/-- The columns of a rewritten query are numbered consecutively. -/
theorem NodeShape.numbered {cat : Catalog} {R : Rel} {query query' : Query}
    {pList : List TargetEntry} (shape : NodeShape cat R query query' pList)
    (targets : TargetsOk query) :
    query'.targetList.map TargetEntry.resno = List.range' 1 query'.targetList.length := by
  have appended {front : List TargetEntry}
      (numbered : front.map TargetEntry.resno = List.range' 1 front.length)
      (resnos : pList.map TargetEntry.resno = List.range' (front.length + 1) pList.length) :
      (front ++ pList).map TargetEntry.resno = List.range' 1 (front ++ pList).length := by
    rw [List.map_append, numbered, resnos, List.length_append,
      Nat.add_comm front.length 1, List.range'_append_1]
  cases shape with
  | spj noAggs noSetOp noLimit shape =>
    rw [shape.resnos.1]
    exact appended targets.numbered shape.resnos.2
  | limit noAggs noSetOp limited visible shape =>
    simp [limitTop, pairTop, secondColumns, Function.comp_def]
  | agg aggs shape =>
    cases shape with
    | intro strip named show_ shownNamed order rewritten attrs =>
      refine appended ?_ (provenanceEntries_resnos attrs)
      simp [visibleEntries, Function.comp_def]
  | set noAggs setOp shape =>
    cases shape with
    | intro tree inputs attrs =>
      exact appended targets.numbered (provenanceEntries_resnos attrs)

theorem Rewritten.numbered {cat : Catalog} {query query' : Query}
    {pList : List TargetEntry} (rewritten : Rewritten cat n query query' pList)
    (targets : TargetsOk query) :
    query'.targetList.map TargetEntry.resno = List.range' 1 query'.targetList.length := by
  cases n with
  | zero => exact rewritten.elim
  | succ n => exact NodeShape.numbered rewritten targets

/-- A plain node keeps its target list. -/
theorem Rewritten.targetList_eq {cat : Catalog} {query query' : Query}
    {pList : List TargetEntry} (rewritten : Rewritten cat n query query' pList)
    (noAggs : query.hasAggs = false) (noSetOp : query.setOperations = none)
    (unlimited : checkLimit query = false) :
    query'.targetList = query.targetList ++ pList := by
  cases n with
  | zero => exact rewritten.elim
  | succ n =>
    cases rewritten with
    | spj noAggs noSetOp noLimit shape => exact shape.resnos.1
    | limit noAggs noSetOp limited visible shape =>
      simp [unlimited] at limited
    | agg aggs shape => simp [noAggs] at aggs
    | set noAggs setOp shape => simp [noSetOp] at setOp

/-!
## Values of provenance attributes

The new target entries of a node have the values which the attributes of its
inputs have in the rows that take part in a combination, and `null` where an
input takes no part.
-/

/-- Values of attributes in a combination. -/
def attrValues (lookup : Lookup) (attrs : List (Nat × TargetEntry)) : Row :=
  attrs.map fun attr => lookup attr.1 attr.2.resno

/-- Values of the attributes of a query in one of its rows, if any. -/
def provColumns (pList : List TargetEntry) : Option Row → Row
  | some row => pList.map fun te => row.column te.resno
  | none => pList.map fun _ => .null

theorem attrValues_attributesOf (env : Env) (subList : List Nat) (lists : List (List TargetEntry)) :
    attrValues env.lookup (attributesOf subList lists) =
      (subList.zip lists).flatMap fun (rtindex, pList) =>
        provColumns pList (env rtindex) := by
  rw [attrValues, attributesOf, List.map_flatMap]
  apply List.flatMap_congr
  rintro ⟨rtindex, pList⟩ _
  rw [List.map_map]
  cases bound : env rtindex with
  | none => simp [provColumns, Env.lookup, bound, Function.comp_def]
  | some row => simp [provColumns, Env.lookup, bound, Function.comp_def]

/-- Values of the new target entries in a combination. -/
theorem targetRow_provenanceEntries {top : Query} {start : Nat} {attrs : List (Nat × TargetEntry)}
    {entries : List TargetEntry} (added : provenanceEntries top start attrs = some entries)
    (seen : ∀ attr ∈ attrs, ∃ varno varattno, SeenAs top attr.1 attr.2.resno varno varattno)
    {inst : Instance} {input : Nat → List Row} {env : Env}
    (member : env ∈ evalFromlist inst (aliasvarsAt top.rtable) input top.fromlist) :
    targetRow inst env.lookup [] entries = attrValues env.lookup attrs := by
  induction attrs generalizing start entries with
  | nil =>
    cases added
    rfl
  | cons attr rest ih =>
    rcases seen attr (by simp) with ⟨varno, varattno, seenAs⟩
    rw [provenanceEntries, seenAs.1] at added
    cases others : provenanceEntries top (start + 1) rest with
    | none => simp [others] at added
    | some restEntries =>
      simp only [others, Option.bind_eq_bind, Option.bind_some,
        Option.pure_def, Option.some.injEq] at added
      subst added
      have tail := ih others fun attr member => seen attr (by simp [member])
      have value := seenAs.2.2 inst input env member
      rw [targetRow, List.map_cons, ← targetRow, tail]
      simp [attrValues, Expr.eval, value]

end Ldv.Perm
