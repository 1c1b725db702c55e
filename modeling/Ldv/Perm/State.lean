import Ldv.Sql.Syntax
import Ldv.Library.Run

/-!
# State of the provenance rewriter

The rewriters of the different query types communicate through one global
stack of target-entry lists, `pStack`, and through counters from which
unique names are generated.  They are gathered in `RewriteState`.  A step of
the rewriter is a program of the monad `Rewrite`, which fails where the
source raises an error or runs into undefined behaviour: a null pointer, a
list access out of range, or the use of a variable that was never assigned.
-/

namespace Ldv.Perm

open Ldv.Sql

/-- A column of a base relation; dropped columns keep their number. -/
structure Attribute where
  attname : String
  atttypid : Oid
  attisdropped : Bool := false
deriving DecidableEq, Repr

/--
What the rewriter asks the system catalogs.  A type need not have an
equality or an ordering operator.
-/
structure Catalog where
  namespaceName : Oid → String
  relName : Oid → String
  attributes : Oid → List Attribute
  equalityOper : Oid → Option Oid
  orderingOper : Oid → Option Oid

inductive RewriteError where
  | crash
  | elog (message : String)
  | noOrderingOperator (argtype : Oid)
  | outOfFuel
deriving DecidableEq, Repr

/-- The global variables of the rewriter; the head of `pStack` is its top. -/
structure RewriteState where
  pStack : List (List TargetEntry) := []
  relRefCount : List (Oid × Nat) := []
  queryRefCount : List (String × Nat) := []
  curUniqueAttrNum : Nat := 0
  curUniqueRelNum : Nat := 0
deriving Repr, BEq

abbrev Rewrite := StateT RewriteState (Except RewriteError)

def crash {α : Type} : Rewrite α := throw .crash

/-- Dereferencing a pointer that may be null. -/
def orCrash {α : Type} : Option α → Rewrite α
  | some value => pure value
  | none => crash

/-! ## The stack of provenance attribute lists -/

def push (pList : List TargetEntry) : Rewrite PUnit :=
  modifyThe RewriteState fun state =>
    { state with pStack := pList :: state.pStack }

/--
Pops `numElem` lists and returns them in the order in which they were
pushed.
-/
def popListAndReverse (numElem : Nat) :
    Rewrite (List (List TargetEntry)) := do
  let state ← get
  if state.pStack.length < numElem then
    crash
  else
    set { state with pStack := state.pStack.drop numElem }
    return (state.pStack.take numElem).reverse

/-- The name with the current value of a counter appended. -/
def appendIdToString (name : String) (id : Nat) : String := name ++ toString id

def uniqueAttrName (name : String) : Rewrite String := do
  let state ← get
  set { state with curUniqueAttrNum := state.curUniqueAttrNum + 1 }
  return appendIdToString name state.curUniqueAttrNum

def uniqueRelName (name : String) : Rewrite String := do
  let state ← get
  set { state with curUniqueRelNum := state.curUniqueRelNum + 1 }
  return appendIdToString name state.curUniqueRelNum

/-! ## Specifications -/

open Effect

theorem returns_push {pList : List TargetEntry} {state : RewriteState}
    {post : PUnit → RewriteState → Prop}
    (holds : post ⟨⟩ { state with pStack := pList :: state.pStack }) :
    Returns (push pList) state post :=
  Returns.modify holds

/-- Popping lists which are on the stack. -/
theorem returns_popListAndReverse {numElem : Nat} {state : RewriteState}
    {lists stack : List (List TargetEntry)} {post : List (List TargetEntry) → RewriteState → Prop}
    (onStack : state.pStack = lists.reverse ++ stack) (count : lists.length = numElem)
    (holds : post lists { state with pStack := stack }) :
    Returns (popListAndReverse numElem) state post := by
  subst count
  have enough : ¬ state.pStack.length < lists.length := by
    simp [onStack]
  have rest : state.pStack.drop lists.length = stack := by
    rw [onStack]
    exact List.drop_left' (by simp)
  have popped : (state.pStack.take lists.length).reverse = lists := by
    rw [onStack, List.take_left' (by simp), List.reverse_reverse]
  apply Returns.get_bind
  rw [if_neg enough, rest, popped]
  apply Returns.set_bind
  exact Returns.pure holds

theorem returns_orCrash {α : Type} {value : Option α} {result : α} {state : RewriteState}
    {post : α → RewriteState → Prop} (present : value = some result) (holds : post result state) :
    Returns (orCrash value) state post := by
  subst present
  exact Returns.pure holds

theorem Returns.orCrash_bind {α β : Type} {value : Option α} {result : α} {next : α → Rewrite β}
    {state : RewriteState} {post : β → RewriteState → Prop} (present : value = some result)
    (rest : Returns (next result) state post) :
    Returns (orCrash value >>= next) state post := by
  subst present
  exact rest

theorem Ensures.orCrash_bind {α β : Type} {value : Option α} {next : α → Rewrite β}
    {state : RewriteState} {post : β → RewriteState → Prop}
    (rest : ∀ result, value = some result → Ensures (next result) state post) :
    Ensures (orCrash value >>= next) state post := by
  cases value with
  | none => exact Ensures.throw
  | some result => exact rest result rfl

theorem Decides.orCrash_bind {α β : Type} {value : Option α} {result : α} {next : α → Rewrite β}
    {state : RewriteState} {cond : Prop} {post : β → RewriteState → Prop}
    (present : value = some result) (rest : Decides (next result) state cond post) :
    Decides (orCrash value >>= next) state cond post := by
  subst present
  exact rest

end Ldv.Perm
