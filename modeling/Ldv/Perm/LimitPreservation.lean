import Ldv.Perm.SetProvenance

/-!
# LIMIT and provenance

Rewriting may repeat a row of a query, once for each witness, and LIMIT counts
rows.  A LIMIT over DISTINCT or an aggregation is therefore applied to the
original query, which is joined with the rewritten one; the condition for this
does not see set operations.
-/

namespace Ldv.Perm

open Ldv.Sql Effect

/-- Rewriting returns a typed query and preserves the result over the database. -/
def PreservesResultOn (cat : Catalog) (inst : Instance) (query : Query) : Prop :=
  ∀ n, query.size ≤ n → ∀ state,
    Returns (rewriteQueryNode cat n query) state fun query' _ =>
      Typed cat query' ∧ SameRows query.visibleCount (query.eval inst) (query'.eval inst)

/-- The first rows of a query with a column `c`, ordered by it. -/
def firstRows (count : Nat) (sub : Query) : Query where
  rtable := [correctRTEAlias (subqueryRTE sub "s")]
  fromlist := [.rangeTblRef 1]
  targetList := [{
    expr := .var 1 1 23
    resno := 1
    resname := some "c"
    ressortgroupref := 1 }]
  sortClause := [⟨1, 97, false⟩]
  limitCount := some (some count)

theorem keepsRows_firstRows :
    (firstRows 1 (selectColumn 1 23)).EverywhereIn isRewritten
      (KeepsRows (pairInstance [(1, 5), (2, 5)])) := by
  rw [everywhereIn_isRewritten_iff]
  refine ⟨⟨⟨by decide, by decide⟩, fun _ => rfl, fun _ _ _ => ⟨by decide, by decide⟩⟩, ?_⟩
  intro rte member _ sub descends
  simp only [firstRows, List.mem_singleton] at member
  subst member
  cases descends
  exact keepsRows_of_plainNode (by decide) _

/-- The three first rows of the columns `a` and `b` together. -/
def firstOfUnion : Query :=
  firstRows 3 (unionOf true 23 (selectColumn 1 23) (selectColumn 2 23))

end Ldv.Perm
