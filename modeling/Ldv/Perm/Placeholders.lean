import Mathlib.Data.List.TakeWhile
import Ldv.Perm.Preservation

/-!
# Placeholders of provenance columns

The parser appends placeholders of the provenance columns to the target list
of a marked subquery.  Before the query is rewritten they are removed again.
They are recognised by their names, which a column of the query may have as
well.
-/

namespace Ldv.Perm

open Ldv.Sql Effect

def TransProvName : String := "trans_prov"

def isProvAttr (te : TargetEntry) : Bool :=
  match te.resname with
  | none => false
  | some name =>
    ProvPraefix.toList.isPrefixOf name.toList || TransProvName.toList.isPrefixOf name.toList

/-- The loop goes on over the cells that were cut off. -/
def removeDummyLoop : List TargetEntry → Nat → List TargetEntry → List TargetEntry
  | targetList, _, [] => targetList
  | targetList, pos, te :: rest =>
    removeDummyLoop (if isProvAttr te then targetList.take pos else targetList) (pos + 1) rest

def removeDummyProvenanceTEs (query : Query) : Query :=
  { query with targetList := removeDummyLoop query.targetList 0 query.targetList }

/-- Names and variables of the provenance columns; some contribution types have none. -/
def provenanceColumns (cat : Catalog) (rte : RTE) (query : Query) :
    Rewrite (List (String × Expr)) :=
  match query.contribution with
  | .influence | .copyPartialTransitive | .copyPartialNontransitive | .copyCompleteTransitive
  | .copyCompleteNontransitive => do
    let columns ← expandProvenanceRTE cat rte
    return (columns.zipIdx (rte.eref.colnames.length + 1)).map fun column =>
      (column.1.1, .var 1 column.2 column.1.2)
  | .transSet => return [(TransProvName, .var 1 1 1562)]
  | .transSql => return [(TransProvName, .var 1 1 25)]
  | .transXml => return [(TransProvName, .var 1 1 142)]
  | _ => return []

def addProvenanceTEs (cat : Catalog) (rte : RTE) : Rewrite RTE := do
  let query ← orCrash rte.subquery?
  if query.targetList.any isProvAttr then return rte
  else
    let columns ← provenanceColumns cat rte query
    let entries := (columns.zipIdx (query.targetList.length + 1)).map fun column =>
      { expr := column.1.2, resno := column.2, resname := some column.1.1 : TargetEntry }
    return { rte with
      kind := .subquery { query with targetList := query.targetList ++ entries }
      eref := { rte.eref with colnames := rte.eref.colnames ++ columns.map (some ·.1) } }

/-- Removing the placeholders from an entry gives back the target list of a query. -/
def RemovesExactly (rte : RTE) (query : Query) : Prop :=
  ∃ extended, rte.subquery? = some extended ∧
    (removeDummyProvenanceTEs extended).targetList = query.targetList

/-! ## Names of placeholders -/

def HasProvPraefix (name : String) : Prop := ∃ rest, name = ProvPraefix ++ rest

section Names

variable {cat : Catalog} {state final : RewriteState}

theorem hasProvPraefix_createProvAttrName {rte : RTE} {name result : String}
    (ran : (createProvAttrName cat rte name).run state = .ok (result, final)) :
    HasProvPraefix result := by
  unfold createProvAttrName at ran
  dsimp only at ran
  split at ran <;> obtain ⟨provRelName, _, -, returned⟩ := run_bind_eq_ok.1 ran <;> cases returned
  all_goals exact ⟨provRelName ++ "_" ++ escapeAttrName name, by simp only [String.append_assoc]⟩

theorem hasProvPraefix_provAttrNames {rte : RTE} {names results : List String}
    (ran : (provAttrNames cat rte names).run state = .ok (results, final)) :
    ∀ result ∈ results, HasProvPraefix result := by
  induction names generalizing state results with
  | nil =>
    cases ran
    exact nofun
  | cons name rest ih =>
    obtain ⟨first, middle, created, ran⟩ := run_bind_eq_ok.1 ran
    obtain ⟨others, _, ran, returned⟩ := run_bind_eq_ok.1 ran
    cases returned
    exact List.forall_mem_cons.2 ⟨hasProvPraefix_createProvAttrName created, ih ran⟩

theorem hasProvPraefix_announceBaseRelations {rtes : List RTE} {columns : List (String × Oid)}
    (ran : (announceBaseRelations cat rtes).run state = .ok (columns, final)) :
    ∀ column ∈ columns, HasProvPraefix column.1 := by
  induction rtes generalizing state columns with
  | nil =>
    cases ran
    exact nofun
  | cons rte rest ih =>
    obtain ⟨counted, _, -, ran⟩ := run_bind_eq_ok.1 ran
    obtain ⟨expanded, _, -, ran⟩ := run_bind_eq_ok.1 ran
    obtain ⟨provNames, _, named, ran⟩ := run_bind_eq_ok.1 ran
    obtain ⟨others, _, announced, returned⟩ := run_bind_eq_ok.1 ran
    cases returned
    intro column member
    rcases List.mem_append.1 member with here | there
    · exact hasProvPraefix_provAttrNames named _ (List.of_mem_zip here).1
    · exact ih announced column there

theorem isProvAttr_of_hasProvPraefix {name : String} (praefix : HasProvPraefix name)
    {te : TargetEntry} (named : te.resname = some name) : isProvAttr te = true := by
  obtain ⟨rest, rfl⟩ := praefix
  simp [isProvAttr, named, String.toList_append, List.isPrefixOf_iff_prefix]

theorem isProvAttr_of_provenanceColumns {rte : RTE} {query : Query}
    {columns : List (String × Expr)} {column : String × Expr} {te : TargetEntry}
    (ran : (provenanceColumns cat rte query).run state = .ok (columns, final))
    (member : column ∈ columns) (named : te.resname = some column.1) : isProvAttr te = true := by
  have trans : TransProvName = column.1 → isProvAttr te = true := by
    intro same
    simp [isProvAttr, named, ← same, List.isPrefixOf_iff_prefix]
  unfold provenanceColumns at ran
  split at ran
  case h_6 | h_7 | h_8 =>
    cases ran
    exact trans (congrArg Prod.fst (List.mem_singleton.1 member)).symm
  case h_9 =>
    cases ran
    cases member
  all_goals
    obtain ⟨announced, _, ran, returned⟩ := run_bind_eq_ok.1 ran
    obtain ⟨_, _, -, ran⟩ := run_bind_eq_ok.1 ran
    cases returned
    obtain ⟨source, found, rfl⟩ := List.mem_map.1 member
    exact isProvAttr_of_hasProvPraefix (hasProvPraefix_announceBaseRelations ran source.1
      (List.fst_mem_of_mem_zipIdx found)) named

end Names

/-! ## Removal -/

theorem removeDummyLoop_of_le {targetList : List TargetEntry} {pos : Nat}
    (cut : targetList.length ≤ pos) (rest : List TargetEntry) :
    removeDummyLoop targetList pos rest = targetList := by
  induction rest generalizing pos with
  | nil => rfl
  | cons te rest ih =>
    rw [removeDummyLoop, List.take_of_length_le cut, ite_self, ih (Nat.le_succ_of_le cut)]

theorem removeDummyLoop_append (front rest : List TargetEntry) :
    removeDummyLoop (front ++ rest) front.length rest =
      front ++ rest.takeWhile fun te => !isProvAttr te := by
  induction rest generalizing front with
  | nil => rfl
  | cons te rest ih =>
    rw [removeDummyLoop]
    cases marked : isProvAttr te with
    | false => simpa [marked] using ih (front ++ [te])
    | true => simp [marked, removeDummyLoop_of_le (Nat.le_succ front.length)]

theorem targetList_removeDummyProvenanceTEs (query : Query) :
    (removeDummyProvenanceTEs query).targetList =
      query.targetList.takeWhile fun te => !isProvAttr te :=
  removeDummyLoop_append [] query.targetList

theorem takeWhile_not_isProvAttr_eq_self_iff {targetList : List TargetEntry} :
    targetList.takeWhile (fun te => !isProvAttr te) = targetList ↔
      ∀ te ∈ targetList, isProvAttr te = false := by
  simp [List.takeWhile_eq_self_iff]

theorem takeWhile_not_isProvAttr_eq_nil {targetList : List TargetEntry}
    (marked : ∀ te ∈ targetList, isProvAttr te = true) :
    targetList.takeWhile (fun te => !isProvAttr te) = [] := by
  cases targetList with
  | nil => rfl
  | cons te rest => simp [marked te List.mem_cons_self]

/-- The placeholders can be told apart just if no column of the query is named like one. -/
theorem removesExactly_iff {cat : Catalog} {rte extended : RTE} {query : Query}
    {state final : RewriteState} (subquery : rte.subquery? = some query)
    (ran : (addProvenanceTEs cat rte).run state = .ok (extended, final)) :
    RemovesExactly extended query ↔ ∀ te ∈ query.targetList, isProvAttr te = false := by
  rw [addProvenanceTEs, subquery] at ran
  obtain ⟨_, _, read, ran⟩ := run_bind_eq_ok.1 ran
  cases read
  cases named : query.targetList.any isProvAttr with
  | true =>
    rw [if_pos named] at ran
    cases ran
    simp only [RemovesExactly, subquery, Option.some.injEq, exists_eq_left',
      targetList_removeDummyProvenanceTEs, takeWhile_not_isProvAttr_eq_self_iff]
  | false =>
    have plain : ∀ te ∈ query.targetList, isProvAttr te = false := by
      simpa using named
    rw [if_neg (by simp [named])] at ran
    obtain ⟨columns, _, columnsRan, returned⟩ := run_bind_eq_ok.1 ran
    cases returned
    refine iff_of_true ⟨_, rfl, ?_⟩ plain
    rw [targetList_removeDummyProvenanceTEs, List.takeWhile_append_of_pos (by simpa using plain),
      takeWhile_not_isProvAttr_eq_nil, List.append_nil]
    intro te member
    obtain ⟨column, found, rfl⟩ := List.mem_map.1 member
    exact isProvAttr_of_provenanceColumns columnsRan (List.fst_mem_of_mem_zipIdx found) rfl

/-- `SELECT PROVENANCE a AS name FROM t`. -/
def selectProvenance (name : String) : Query :=
  { selectA [] with
    targetList := [{ expr := .var 1 1 23, resno := 1, resname := some name }]
    shouldRewrite := true }

def provenanceRTE (name : String) : RTE := correctRTEAlias (subqueryRTE (selectProvenance name) "s")

theorem removesExactly_provenanceRTE :
    ∃ extended final, (addProvenanceTEs pointCatalog (provenanceRTE "a")).run {} =
      .ok (extended, final) ∧ RemovesExactly extended (selectProvenance "a") :=
  ⟨_, _, rfl, (@removesExactly_iff pointCatalog (provenanceRTE "a") _ _ {} _ rfl rfl).2 (by decide)⟩

/-- A column of the query's own that is called `prov_a` is removed. -/
theorem not_removesExactly_provA :
    (addProvenanceTEs pointCatalog (provenanceRTE "prov_a")).run {} =
        .ok (provenanceRTE "prov_a", {}) ∧
      (removeDummyProvenanceTEs (selectProvenance "prov_a")).targetList = [] ∧
      ¬ RemovesExactly (provenanceRTE "prov_a") (selectProvenance "prov_a") := by
  refine ⟨rfl, rfl, ?_⟩
  rintro ⟨_, found, same⟩
  cases found
  cases same

end Ldv.Perm
