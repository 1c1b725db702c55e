import Ldv.Library.BubbleSort
import Ldv.Sql.Syntax

/-!
# Sorted lists

`sortList` sorts a list of nodes with a comparison function, and
`sortIntList` a list of numbers.  Both swap the contents of neighbouring
cells.
-/

namespace Ldv.Perm

open Ldv.Sql

section Lists

variable {α : Type}

def sortList (compare : α → α → Int) (increasing : Bool) (list : List α) : List α :=
  let factor := if increasing then 1 else -1
  BubbleSort.sort (fun left right => compare left right * factor == 1) list

def sortIntList (increasing : Bool) (list : List Int) : List Int :=
  BubbleSort.sort
    (fun left right => if increasing then decide (left > right) else decide (left < right)) list

def compareOn (key : α → Int) (left right : α) : Int :=
  if key left < key right then -1 else if key left > key right then 1 else 0

def compareVars : VarRef → VarRef → Int := compareOn fun var => var.varattno

def compareTeOnRessortgroupref : TargetEntry → TargetEntry → Int :=
  compareOn fun te => te.ressortgroupref

/-- A total preorder with the results -1, 0 and 1. -/
structure Comparison (compare : α → α → Int) : Prop where
  results : ∀ left right, compare left right = -1 ∨ compare left right = 0 ∨ compare left right = 1
  reversed : ∀ left right, compare right left = -compare left right
  trans : ∀ left middle right, compare left middle ≤ 0 → compare middle right ≤ 0 →
    compare left right ≤ 0

/-- A stable sort with the comparison, reversed unless it is increasing. -/
structure Sorts (compare : α → α → Int) (increasing : Bool) (list sorted : List α) : Prop where
  perm : sorted.Perm list
  ordered : sorted.Pairwise fun left right =>
    compare right left ≠ if increasing then -1 else 1
  stable : ∀ element, sorted.filter (fun other => compare element other == 0) =
    list.filter fun other => compare element other == 0

theorem comparison_compareOn (key : α → Int) : Comparison (compareOn key) where
  results left right := by
    unfold compareOn
    split_ifs <;> simp
  reversed left right := by
    unfold compareOn
    split_ifs <;> omega
  trans left middle right := by
    unfold compareOn
    split_ifs <;> omega

theorem Comparison.zero_of_zero {compare : α → α → Int} (comparison : Comparison compare)
    {element left right : α} (isLeft : compare element left = 0)
    (isRight : compare element right = 0) : compare left right = 0 := by
  have back := comparison.reversed element left
  have back' := comparison.reversed element right
  have below := comparison.trans left element right (by omega) (by omega)
  have above := comparison.trans right element left (by omega) (by omega)
  have reversed := comparison.reversed left right
  omega

theorem sorts_sortList {compare : α → α → Int} (comparison : Comparison compare)
    (increasing : Bool) (list : List α) :
    Sorts compare increasing list (sortList compare increasing list) := by
  have swaps_eq (left right : α) :
      (compare left right * (if increasing then 1 else -1) == 1) = false ↔
        compare right left ≠ if increasing then -1 else 1 := by
    have reversed := comparison.reversed left right
    cases increasing <;> simp <;> omega
  refine ⟨BubbleSort.passes_perm _ _ _, ?_, fun element => ?_⟩
  · refine (BubbleSort.sort_pairwise ?_ ?_ list).imp fun different => (swaps_eq _ _).1 different
    · intro left right swapped
      have reversed := comparison.reversed left right
      rw [swaps_eq]
      cases increasing <;> simp at swapped ⊢ <;> omega
    · intro left middle right
      simp only [swaps_eq]
      have first := comparison.reversed left middle
      have second := comparison.reversed middle right
      have third := comparison.reversed left right
      have up := comparison.trans left middle right
      have down := comparison.trans right middle left
      have leftResults := comparison.results left middle
      have rightResults := comparison.results middle right
      cases increasing <;> simp <;> omega
  · refine BubbleSort.filter_passes (fun left right isLeft isRight => ?_) _ _
    have same := comparison.zero_of_zero (eq_of_beq isLeft) (eq_of_beq isRight)
    simp [same]

theorem sortIntList_eq (increasing : Bool) (list : List Int) :
    sortIntList increasing list = sortList (compareOn id) increasing list := by
  have same : (fun left right : Int =>
      if increasing then decide (left > right) else decide (left < right)) =
        fun left right => compareOn id left right * (if increasing then 1 else -1) == 1 := by
    funext left right
    unfold compareOn
    cases increasing <;> simp <;> split_ifs <;> simp <;> omega
  rw [sortIntList, same]
  rfl

theorem sorts_lists {compare : α → α → Int} (comparison : Comparison compare) (increasing : Bool)
    (list : List α) (numbers : List Int) :
    Sorts compare increasing list (sortList compare increasing list) ∧
      Sorts (compareOn id) increasing numbers (sortIntList increasing numbers) := by
  rw [sortIntList_eq]
  exact ⟨sorts_sortList comparison increasing list,
    sorts_sortList (comparison_compareOn id) increasing numbers⟩

end Lists

/-- Two of three entries have the same group number. -/
def groupedEntries : List TargetEntry :=
  [2, 1, 2].zipIdx.map fun (group, position) =>
    { expr := .const 23 .null, resno := position + 1, resname := none, ressortgroupref := group }

theorem sorts_groupedEntries :
    Sorts compareTeOnRessortgroupref true groupedEntries
        (sortList compareTeOnRessortgroupref true groupedEntries) ∧
      (sortList compareTeOnRessortgroupref true groupedEntries).map TargetEntry.resno = [2, 1, 3] :=
  ⟨(sorts_lists (comparison_compareOn _) true groupedEntries []).1, by decide⟩

end Ldv.Perm
