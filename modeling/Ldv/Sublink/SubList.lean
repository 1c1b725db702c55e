import Ldv.Perm.State

/-!
# Provenance lists of sublinks

Sublinks are rewritten in the order of the strategies that apply to them.
`createSubList` puts the lists they left on the stack back into the order
of the sublinks, next to the range-table indexes recorded for them.
-/

namespace Ldv.Sublink

open Ldv.Sql Ldv.Perm Effect

def maxSublink : Nat := 100

/-- The list that the rewriting of a sublink pushes, and the index it records. -/
structure RewrittenSublink where
  provenance : List TargetEntry
  rtindex : Nat

/-- The array `subPos` and the list `rewritePos`. -/
structure SublinkPositions where
  subPos : Nat → Nat
  rewritePos : List Nat := []

def rewriteSublink (sublinks : Nat → RewrittenSublink) (positions : SublinkPositions)
    (sublinkPos : Nat) : Rewrite SublinkPositions := do
  push (sublinks sublinkPos).provenance
  if sublinkPos < maxSublink then
    return {
      subPos := Function.update positions.subPos sublinkPos (sublinks sublinkPos).rtindex
      rewritePos := positions.rewritePos ++ [sublinkPos] }
  else crash

def listPositionInt (list : List Nat) (datum : Nat) : Option Nat :=
  if datum ∈ list then some (list.idxOf datum) else none

def pushInOrder (subStack : List (List TargetEntry)) (rewritePos : List Nat) :
    List Nat → Rewrite PUnit
  | [] => return
  | i :: rest => do
    let sublinkPos ← orCrash (listPositionInt rewritePos i)
    let curPlist ← orCrash subStack[sublinkPos]?
    push curPlist
    pushInOrder subStack rewritePos rest

def createSubList (positions : SublinkPositions) (subList : List Nat) : Rewrite (List Nat) := do
  let numSubs := positions.rewritePos.length
  let subStack ← popListAndReverse numSubs
  pushInOrder subStack positions.rewritePos (List.range numSubs)
  return subList ++ (List.range numSubs).map positions.subPos

/-- The sublinks are rewritten in the given order; the array is not initialised. -/
def rewriteSublinks (sublinks : Nat → RewrittenSublink) (order : List Nat) (subPos : Nat → Nat) :
    Rewrite (List Nat) := do
  let positions ← order.foldlM (rewriteSublink sublinks) { subPos }
  createSubList positions []

variable {sublinks : Nat → RewrittenSublink} {order : List Nat}

theorem returns_rewriteAll (small : ∀ sublinkPos ∈ order, sublinkPos < maxSublink)
    (positions : SublinkPositions) (state : RewriteState) :
    Returns (order.foldlM (rewriteSublink sublinks) positions) state fun positions' final =>
      final.pStack = (order.map fun pos => (sublinks pos).provenance).reverse ++ state.pStack ∧
        positions'.rewritePos = positions.rewritePos ++ order ∧
          ∀ pos, positions'.subPos pos =
            if pos ∈ order then (sublinks pos).rtindex else positions.subPos pos := by
  induction order generalizing positions state with
  | nil => exact Returns.pure (by simp)
  | cons first rest ih =>
    have isSmall := small first List.mem_cons_self
    have below (pos : Nat) (member : pos ∈ rest) := small pos (List.mem_cons_of_mem first member)
    rw [List.foldlM_cons, rewriteSublink, if_pos isSmall, bind_assoc]
    refine Returns.bind
      (M := fun _ final => final.pStack = (sublinks first).provenance :: state.pStack)
      (returns_push rfl) fun _ middle pushed => ?_
    rw [pure_bind]
    refine (ih below _ middle).mono ?_
    rintro positions' final ⟨stack, rewritten, recorded⟩
    refine ⟨by simp [stack, pushed], by simp [rewritten], fun pos => ?_⟩
    rw [recorded]
    by_cases isFirst : pos = first
    · simp [isFirst]
    · simp [isFirst, Function.update_of_ne]

theorem returns_pushInOrder {lists : Nat → List TargetEntry} {positions : List Nat}
    (inside : ∀ pos ∈ positions, pos ∈ order) (state : RewriteState) :
    Returns (pushInOrder (order.map lists) order positions) state fun _ final =>
      final.pStack = (positions.map lists).reverse ++ state.pStack := by
  induction positions generalizing state with
  | nil => exact Returns.pure rfl
  | cons first rest ih =>
    have member := inside first List.mem_cons_self
    have position : listPositionInt order first = some (order.idxOf first) := if_pos member
    have found : (order.map lists)[order.idxOf first]? = some (lists first) := by
      rw [List.getElem?_map, List.getElem?_idxOf member]
      rfl
    rw [pushInOrder]
    apply Returns.orCrash_bind position
    apply Returns.orCrash_bind found
    refine Returns.bind (M := fun _ final => final.pStack = lists first :: state.pStack)
      (returns_push rfl) fun _ middle pushed => ?_
    refine (ih (fun pos isRest => inside pos (List.mem_cons_of_mem first isRest)) middle).mono ?_
    intro _ final stack
    rw [stack, pushed]
    simp

/-- Lists and indexes are in the order of the sublinks. -/
theorem returns_rewriteSublinks {n : Nat} (small : n ≤ maxSublink)
    (permuted : order.Perm (List.range n)) (subPos : Nat → Nat) (state : RewriteState) :
    Returns (rewriteSublinks sublinks order subPos) state fun subList final =>
      final.pStack =
          ((List.range n).map fun pos => (sublinks pos).provenance).reverse ++ state.pStack ∧
        subList = (List.range n).map fun pos => (sublinks pos).rtindex := by
  have members (pos : Nat) : pos ∈ order ↔ pos < n := by
    rw [permuted.mem_iff, List.mem_range]
  have length : order.length = n := by simpa using permuted.length_eq
  have rewritten := @returns_rewriteAll sublinks order
    (fun pos member => Nat.lt_of_lt_of_le ((members pos).1 member) small) { subPos } state
  refine rewritten.bind ?_
  rintro positions middle ⟨stack, rewritePos, recorded⟩
  rw [List.nil_append] at rewritePos
  rw [createSubList, rewritePos, length]
  refine Returns.bind
    (M := fun subStack final => subStack = order.map (fun pos => (sublinks pos).provenance) ∧
      final.pStack = state.pStack)
    (returns_popListAndReverse stack (by simp [length]) ⟨rfl, rfl⟩) ?_
  rintro _ popped ⟨rfl, below⟩
  refine (returns_pushInOrder (fun pos member => (members pos).2 (List.mem_range.1 member))
    popped).bind fun _ final pushed => Returns.pure ⟨by rw [pushed, below], ?_⟩
  rw [List.nil_append]
  refine List.map_congr_left fun pos member => ?_
  rw [recorded, if_pos ((members pos).2 (List.mem_range.1 member))]

/-- A sublink with as many provenance attributes as its position says. -/
def sublinkAt (pos : Nat) : RewrittenSublink where
  provenance := (List.range pos).map fun attno =>
    { expr := .var (pos + 4) (attno + 2) 23, resno := attno + 1, resname := some "prov_u_c" }
  rtindex := pos + 4

/-- Three sublinks, the last of which is rewritten first. -/
theorem returns_rewriteSublinks_three :
    Returns (rewriteSublinks sublinkAt [2, 0, 1] fun _ => 0) {} fun subList final =>
      final.pStack = [(sublinkAt 2).provenance, (sublinkAt 1).provenance, []] ∧
        subList = [4, 5, 6] :=
  returns_rewriteSublinks (n := 3) (by decide) (by decide) _ _

end Ldv.Sublink
