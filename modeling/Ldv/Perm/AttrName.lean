import Ldv.Perm.State

/-!
# Names of provenance attributes

A provenance attribute is named after the base relation and the attribute it
comes from.  References to the same relation are told apart by a counter
kept in the rewriter's state: the first reference has number zero, which is
not written into the name.
-/

namespace Ldv.Perm

open Ldv.Sql

def ProvPraefix : String := "prov_"

/-- Doubles the underscores of an attribute name. -/
def escapeAttrName (name : String) : String :=
  String.ofList (name.toList.flatMap fun c => if c = '_' then ['_', '_'] else [c])

/--
Finds the counter of a key, incrementing it on request.  A key without a
counter gets one that stands at zero.
-/
def countRef {Key : Type} [DecidableEq Key] (key : Key)
    (increment : Bool) :
    List (Key × Nat) → Nat × List (Key × Nat)
  | [] => (0, [(key, 0)])
  | (key', count) :: rest =>
    if key' = key then
      let count := if increment then count + 1 else count
      (count, (key', count) :: rest)
    else
      let found := countRef key increment rest
      (found.1, (key', count) :: found.2)

/-- Number of the current reference to a base relation. -/
def getRelationRefNum (relid : Oid) (increment : Bool) : Rewrite Nat := do
  let state ← get
  let found := countRef relid increment state.relRefCount
  set { state with relRefCount := found.2 }
  return found.1

/-- Appends a reference number to a name, unless it is zero. -/
def withRefNum (name : String) (refNum : Nat) : String :=
  if 0 < refNum then name ++ "_" ++ toString refNum else name

/-- The name of a base relation, made unique for every reference to it. -/
def getRelationName (cat : Catalog) (relid : Oid) : Rewrite String := do
  let numRelRef ← getRelationRefNum relid false
  return withRefNum (cat.namespaceName relid ++ "_" ++ cat.relName relid) numRelRef

/-- The name an entry without an alias name is given. -/
def fallbackName (cat : Catalog) (rte : RTE) : Option String :=
  match rte.eref.aliasname, rte.kind with
  | some name, _ => some name
  | none, .relation relid => some (cat.relName relid)
  | none, _ => none

/-- Sets the alias of an entry that has no alias name. -/
def ensureAlias (cat : Catalog) (rte : RTE) : Option (String × RTE) :=
  match rte.userAlias.bind Alias.aliasname with
  | some name => some (name, rte)
  | none =>
    (fallbackName cat rte).map fun name =>
      (name, { rte with userAlias := some { aliasname := some name } })

/--
Number of the current reference to a range-table entry: by relation for base
relations, by alias for entries marked BASERELATION.
-/
def getQueryRefNum (cat : Catalog) (rte : RTE) (increment : Bool) :
    Rewrite (Nat × RTE) := do
  match rte.kind, rte.isProvBase with
  | .relation relid, false =>
    let refNum ← getRelationRefNum relid increment
    return (refNum, rte)
  | _, _ =>
    let (name, rte) ← orCrash (ensureAlias cat rte)
    let state ← get
    let found := countRef name increment state.queryRefCount
    set { state with queryRefCount := found.2 }
    return (found.1, rte)

/-- The name of a subquery marked BASERELATION. -/
def getQueryName (cat : Catalog) (rte : RTE) : Rewrite String := do
  let (refCount, rte) ← getQueryRefNum cat rte false
  let name ← orCrash (rte.userAlias.bind Alias.aliasname)
  return withRefNum name refCount

/-- The name of the provenance attribute for an attribute of an entry. -/
def createProvAttrName (cat : Catalog) (rte : RTE) (name : String) :
    Rewrite String := do
  let provRelName ←
    match rte.kind with
    | .relation relid => getRelationName cat relid
    | .subquery _ => getQueryName cat rte
    | _ => crash
  return ProvPraefix ++ provRelName ++ "_" ++ escapeAttrName name

/-- The name of a provenance attribute listed by the user. -/
def createExternalProvAttrName (name : String) : String :=
  ProvPraefix ++ escapeAttrName name

/-! ## Names of different attributes -/

theorem count_escapeAttrName (name : String) :
    (escapeAttrName name).toList.count '_' = 2 * name.toList.count '_' := by
  rw [escapeAttrName, String.toList_ofList]
  induction name.toList with
  | nil => rfl
  | cons c rest ih => by_cases c = '_' <;> simp_all [Nat.mul_add]

theorem escapeAttrName_injective : Function.Injective escapeAttrName := by
  intro left right same
  simp only [escapeAttrName, String.ofList_inj] at same
  rw [← String.toList_inj]
  generalize left.toList = left at same ⊢
  generalize right.toList = right at same ⊢
  induction left generalizing right <;> cases right <;> grind

/-- The underscores of an escaped name are even in number, so it does not begin with a number. -/
theorem withRefNum_inj {relation name name' : String} {refNum refNum' : Nat}
    (same : withRefNum relation refNum ++ "_" ++ escapeAttrName name =
      withRefNum relation refNum' ++ "_" ++ escapeAttrName name') :
    refNum = refNum' ∧ name = name' := by
  have digits (number : Nat) := @Nat.underscore_not_in_toDigits number
  have same := String.toList_inj.2 same
  have counts := congrArg (List.count '_') same
  rcases refNum with _ | refNum <;> rcases refNum' with _ | refNum' <;>
    simp [withRefNum, List.count_eq_zero.2 (digits _), count_escapeAttrName] at same counts
  · exact ⟨rfl, escapeAttrName_injective (String.toList_inj.1 same)⟩
  · omega
  · omega
  · have parts : Nat.toDigits 10 (refNum + 1) = Nat.toDigits 10 (refNum' + 1) ∧
        (escapeAttrName name).toList = (escapeAttrName name').toList := by
      have number := digits (refNum + 1)
      have number' := digits (refNum' + 1)
      rcases List.append_eq_append_iff.1 same with ⟨_ | _, _⟩ | ⟨_ | _, _⟩ <;> simp_all
    refine ⟨?_, escapeAttrName_injective (String.toList_inj.1 parts.2)⟩
    rw [← Nat.ofDigitChars_ten_toDigits (n := refNum + 1), parts.1, Nat.ofDigitChars_ten_toDigits]

/-- The names tell apart all references to a relation and all attributes of it. -/
theorem createProvAttrName_eq_iff (cat : Catalog) (relid : Oid) (rte rte' : RTE)
    (state state' : RewriteState) (name name' : String) :
    (createProvAttrName cat { rte with kind := .relation relid } name).run' state =
        (createProvAttrName cat { rte' with kind := .relation relid } name').run' state' ↔
      (countRef relid false state.relRefCount).1 = (countRef relid false state'.relRefCount).1 ∧
        name = name' := by
  change Except.ok (ProvPraefix ++ withRefNum _ _ ++ "_" ++ _) =
    Except.ok (ProvPraefix ++ withRefNum _ _ ++ "_" ++ _) ↔ _
  rw [Except.ok.injEq]
  constructor
  · intro same
    apply withRefNum_inj
    simpa only [String.append_assoc, String.append_right_inj] using same
  · rintro ⟨sameNum, rfl⟩
    rw [sameNum]

end Ldv.Perm
