import Ldv.Copy.Expressions

/-!
# Inclusion conditions of CASE expressions

`getCaseInfoIfSimple` attaches to every column result of a CASE expression
the condition under which the column is copied.  It takes the condition of
the branch itself, and for ELSE the negated conjunction of all conditions.

CASE returns the result of the first branch whose condition is true, and
ELSE if there is none.
-/

namespace Ldv.Copy

open Ldv.Sql

/-- The columns that a CASE expression copies, with their conditions. -/
@[ext]
structure CaseInfo where
  conditions : List Expr
  vars : List Expr

/--
The condition of a branch of a CASE expression with an argument, which
takes the place of the first operand of the comparison.  Parse analysis
builds comparisons only.
-/
def replaceTest (arg : Expr) : Expr → Expr
  | .opExpr opno (_ :: args) => .opExpr opno (arg :: args)
  | cond => cond

/-- The condition of a branch outside of the CASE expression. -/
def whenCondition (arg : Option Expr) (cond : Expr) : Expr :=
  match arg with
  | none => cond
  | some arg => replaceTest arg cond

/-- Does an expression pass a column on? -/
def isColumn (expr : Expr) : Bool := (getVarFromTeIfSimple expr).isSome

/-- The variables of the loop over the branches. -/
structure CaseLoop where
  info : CaseInfo
  elseExpr : List Expr
  returnInfo : Bool

section Analysis

variable (resolveToRteVar : Var → Var)

/-- One round of the loop over the branches. -/
def CaseLoop.step (arg : Option Expr) (buildElse : Bool) (loop : CaseLoop)
    (branch : Expr × Expr) : CaseLoop :=
  let whenCond := whenCondition arg branch.1
  let elseExpr := if buildElse then loop.elseExpr ++ [whenCond] else loop.elseExpr
  match getVarFromTeIfSimple branch.2 with
  | some ref =>
    { info :=
        { conditions := loop.info.conditions ++ [whenCond]
          vars := loop.info.vars ++ [.var (resolveToRteVar ref)] }
      elseExpr := elseExpr
      returnInfo := true }
  | none => { loop with elseExpr := elseExpr }

/--
The function `getCaseInfoIfSimple`.  For a CASE expression without a column
as a result, `free` is called for memory of the backend's own allocator, and
nothing is returned.
-/
def getCaseInfoIfSimple : Expr → Option (Option CaseInfo)
  | .caseExpr arg args defresult =>
    let simpleElse := defresult.filter isColumn
    let buildElse := simpleElse.isSome
    let loop := args.foldl (CaseLoop.step resolveToRteVar arg buildElse)
      { info := { conditions := [], vars := [] }
        elseExpr := []
        returnInfo := buildElse }
    let info :=
      match simpleElse with
      | some defresult =>
        { conditions := loop.info.conditions ++
            [.boolExpr .not [.boolExpr .and loop.elseExpr]]
          vars := loop.info.vars ++ [defresult] }
      | none => loop.info
    if loop.returnInfo then some (some info) else none
  | _ => some none

end Analysis

/-! ## The branch that is returned -/

/-- The number of the branch that CASE returns; ELSE is behind the others. -/
def returnedBranch (functions : Functions) (row : Var → Datum) (test : Datum)
    (args : List (Expr × Expr)) : Nat :=
  args.findIdx fun branch => (branch.1.eval functions row test).isTrue

/-- The numbers of the branches whose results are columns, ELSE as the last. -/
def columnBranches (args : List (Expr × Expr)) (defresult : Option Expr) :
    List Nat :=
  (args.zipIdx.filter fun entry => isColumn entry.1.2).map Prod.snd ++
    if defresult.any isColumn then [args.length] else []

/-- The columns of the range table that these branches pass on. -/
def branchColumns (resolveToRteVar : Var → Var) (args : List (Expr × Expr))
    (defresult : Option Expr) : List Expr :=
  (args.map Prod.snd ++ defresult.toList).filterMap fun result =>
    (getVarFromTeIfSimple result).map fun ref => .var (resolveToRteVar ref)

/--
For a row, every column that a branch passes on has got a condition, which is
true for the branch that CASE returns, if this is a column, and for no other.
-/
def ConditionsMatch (resolveToRteVar : Var → Var) (functions : Functions)
    (row : Var → Datum) (test : Datum) (arg : Option Expr)
    (args : List (Expr × Expr)) (defresult : Option Expr) : Prop :=
  ∃ info, getCaseInfoIfSimple resolveToRteVar (.caseExpr arg args defresult) = some (some info) ∧
    info.vars = branchColumns resolveToRteVar args defresult ∧
    info.conditions.map (fun cond => (cond.eval functions row test).isTrue) =
      (columnBranches args defresult).map fun branch =>
        decide (branch =
          returnedBranch functions row (Expr.evalOption functions row test test arg) args)

/-! ## The conditions that are attached -/

/-- What the loop over the branches has added in the end. -/
structure CaseLoop.Ran (resolveToRteVar : Var → Var) (arg : Option Expr) (buildElse : Bool)
    (args : List (Expr × Expr)) (loop final : CaseLoop) : Prop where
  conditions : final.info.conditions = loop.info.conditions ++
    (args.filter fun branch => isColumn branch.2).map fun branch => whenCondition arg branch.1
  vars : final.info.vars = loop.info.vars ++ branchColumns resolveToRteVar args none
  elseExpr : final.elseExpr = loop.elseExpr ++
    if buildElse then args.map fun branch => whenCondition arg branch.1 else []
  returnInfo : final.returnInfo = (loop.returnInfo || args.any fun branch => isColumn branch.2)

theorem ran_foldl_step (resolveToRteVar : Var → Var) (arg : Option Expr) (buildElse : Bool)
    (args : List (Expr × Expr)) (loop : CaseLoop) :
    CaseLoop.Ran resolveToRteVar arg buildElse args loop
      (args.foldl (CaseLoop.step resolveToRteVar arg buildElse) loop) := by
  induction args generalizing loop with
  | nil => constructor <;> cases buildElse <;> simp [branchColumns]
  | cons branch rest ih =>
    have further := ih (loop.step resolveToRteVar arg buildElse branch)
    rw [List.foldl_cons]
    cases isSimple : getVarFromTeIfSimple branch.2 with
    | none =>
      refine ⟨further.conditions.trans ?_, further.vars.trans ?_, further.elseExpr.trans ?_,
        further.returnInfo.trans ?_⟩ <;> cases buildElse <;>
        simp [CaseLoop.step, isColumn, isSimple, branchColumns]
    | some ref =>
      refine ⟨further.conditions.trans ?_, further.vars.trans ?_, further.elseExpr.trans ?_,
        further.returnInfo.trans ?_⟩ <;> cases buildElse <;>
        simp [CaseLoop.step, isColumn, isSimple, branchColumns]

/-- Some branch or ELSE passes a column on. -/
def HasColumn (args : List (Expr × Expr)) (defresult : Option Expr) : Prop :=
  (args.any fun branch => isColumn branch.2) = true ∨ defresult.any isColumn = true

instance (args : List (Expr × Expr)) (defresult : Option Expr) :
    Decidable (HasColumn args defresult) :=
  inferInstanceAs (Decidable (_ ∨ _))

/-- The conditions and columns of the branches, then those of ELSE. -/
theorem getCaseInfoIfSimple_eq (resolveToRteVar : Var → Var) (arg : Option Expr)
    (args : List (Expr × Expr)) (defresult : Option Expr) :
    getCaseInfoIfSimple resolveToRteVar (.caseExpr arg args defresult) =
      if HasColumn args defresult then
        some (some
          { conditions :=
              ((args.filter fun branch => isColumn branch.2).map
                fun branch => whenCondition arg branch.1) ++
              if defresult.any isColumn then
                [.boolExpr .not
                  [.boolExpr .and (args.map fun branch => whenCondition arg branch.1)]]
              else []
            vars := branchColumns resolveToRteVar args none ++ (defresult.filter isColumn).toList })
      else none := by
  cases isElse : defresult.filter isColumn with
  | none =>
    have noElse : defresult.any isColumn = false := by
      cases defresult <;> simp_all [Option.filter]
    have ran := ran_foldl_step resolveToRteVar arg false args
      { info := { conditions := [], vars := [] }, elseExpr := [], returnInfo := false }
    simp only [getCaseInfoIfSimple, isElse, Option.isSome_none, ran.returnInfo, HasColumn, noElse]
    by_cases some : (args.any fun branch => isColumn branch.2) = true
    · simp [some, ran.conditions, ran.vars, CaseInfo.ext_iff]
    · simp [some]
  | some result =>
    have isColumnElse : defresult.any isColumn = true := by
      obtain ⟨isDefault, isColumn⟩ := Option.filter_eq_some_iff.1 isElse
      simp [isDefault, isColumn]
    have ran := ran_foldl_step resolveToRteVar arg true args
      { info := { conditions := [], vars := [] }, elseExpr := [], returnInfo := true }
    simp [getCaseInfoIfSimple, isElse, ran.returnInfo, HasColumn, isColumnElse, ran.conditions,
      ran.vars, ran.elseExpr]

/-! ## When the conditions match -/

/-- The value of an expression does not depend on the CASE around it. -/
def Expr.IgnoresTest (expr : Expr) : Prop :=
  ∀ functions row test test', expr.eval functions row test = expr.eval functions row test'

/--
The conditions of a CASE expression with an argument compare the argument
itself, without a cast of it, with a value.
-/
def PlainTests (arg : Option Expr) (args : List (Expr × Expr)) : Prop :=
  arg.isSome = true → ∀ branch ∈ args, ∃ opno value,
    branch.1 = .opExpr opno [.caseTestExpr, value] ∧ value.IgnoresTest

theorem eval_whenCondition (functions : Functions) (row : Var → Datum) (test : Datum)
    {arg : Option Expr} {args : List (Expr × Expr)} (plain : PlainTests arg args)
    {branch : Expr × Expr} (member : branch ∈ args) :
    (whenCondition arg branch.1).eval functions row test =
      branch.1.eval functions row (Expr.evalOption functions row test test arg) := by
  cases arg with
  | none => rfl
  | some arg =>
    rcases plain rfl branch member with ⟨opno, value, isTest, ignores⟩
    rw [isTest]
    simp only [whenCondition, replaceTest, Expr.eval, Expr.evalList, Expr.evalOption]
    rw [ignores functions row test]

/-- The negated conjunction is true if some condition is false. -/
theorem isTrue_not_and_iff (values : List Datum) :
    (evalBoolExpr .not [evalBoolExpr .and values]).isTrue = true ↔ .bool false ∈ values := by
  have conjunction : evalBoolExpr .and values = .bool false ↔ .bool false ∈ values := by
    induction values with
    | nil => simp [evalBoolExpr]
    | cons value rest ih =>
      rw [List.mem_cons, ← ih]
      simp only [evalBoolExpr, List.foldr_cons]
      rcases value with _ | (_ | _) | _ | _ <;>
        rcases List.foldr Datum.sqlAnd (.bool true) rest
          with _ | (_ | _) | _ | _ <;>
        simp [Datum.sqlAnd]
  rw [← conjunction]
  simp only [evalBoolExpr, List.headD_cons]
  rcases List.foldr Datum.sqlAnd (.bool true) values
    with _ | (_ | _) | _ | _ <;>
    simp [Datum.sqlNot, Datum.isTrue]

/-- A column branch whose condition is true is the first such branch. -/
def FirstMatches (functions : Functions) (row : Var → Datum) (test : Datum)
    (args : List (Expr × Expr)) : Prop :=
  ∀ entry ∈ args.zipIdx, isColumn entry.1.2 = true →
    (entry.1.1.eval functions row test).isTrue = true →
    ∀ earlier ∈ args.take entry.2, (earlier.1.eval functions row test).isTrue = false

/--
If ELSE is a column, some condition is false, and not just unknown, if and
only if none is true.
-/
def ElseMatches (functions : Functions) (row : Var → Datum) (test : Datum)
    (args : List (Expr × Expr)) (defresult : Option Expr) : Prop :=
  defresult.any isColumn = true →
    ((∃ branch ∈ args, branch.1.eval functions row test = .bool false) ↔
      ∀ branch ∈ args, (branch.1.eval functions row test).isTrue = false)

theorem isTrue_eq_returned_iff {functions : Functions} {row : Var → Datum} {test : Datum}
    {args : List (Expr × Expr)} {entry : (Expr × Expr) × Nat} (member : entry ∈ args.zipIdx) :
    ((entry.1.1.eval functions row test).isTrue =
        decide (entry.2 = returnedBranch functions row test args)) ↔
      ((entry.1.1.eval functions row test).isTrue = true →
        ∀ earlier ∈ args.take entry.2, (earlier.1.eval functions row test).isTrue = false) := by
  rcases entry with ⟨branch, index⟩
  have isEntry := List.mk_mem_zipIdx_iff_getElem?.1 member
  rcases List.getElem?_eq_some_iff.1 isEntry with ⟨inBounds, rfl⟩
  have isReturned : index = returnedBranch functions row test args ↔
      ((args[index]).1.eval functions row test).isTrue = true ∧
        ∀ earlier ∈ args.take index, (earlier.1.eval functions row test).isTrue = false := by
    rw [eq_comm, returnedBranch, List.findIdx_eq inBounds]
    refine and_congr_right fun _ => ?_
    constructor
    · intro none earlier isEarlier
      rcases List.mem_take_iff_getElem.1 isEarlier with ⟨place, bound, rfl⟩
      exact none place (by omega)
    · intro none place less
      exact none _ (List.mem_take_iff_getElem.2 ⟨place, by omega, rfl⟩)
  rw [Bool.eq_iff_iff, decide_eq_true_iff, isReturned]
  tauto

theorem isTrue_else_eq_returned_iff {functions : Functions} {row : Var → Datum} {test : Datum}
    {args : List (Expr × Expr)} :
    ((evalBoolExpr .not [evalBoolExpr .and
        (args.map fun branch => branch.1.eval functions row test)]).isTrue =
        decide (args.length = returnedBranch functions row test args)) ↔
      ((∃ branch ∈ args, branch.1.eval functions row test = .bool false) ↔
        ∀ branch ∈ args, (branch.1.eval functions row test).isTrue = false) := by
  rw [Bool.eq_iff_iff, isTrue_not_and_iff, decide_eq_true_iff, eq_comm,
    returnedBranch, List.findIdx_eq_length]
  simp

theorem evalList_eq_map (functions : Functions) (row : Var → Datum) (test : Datum)
    (exprs : List Expr) :
    Expr.evalList functions row test exprs =
      exprs.map fun expr => expr.eval functions row test := by
  induction exprs with
  | nil => rfl
  | cons expr rest ih => simp [Expr.evalList, ih]

/-- ELSE, if it is a column, is the column itself and not a cast or a column of a join. -/
def ElseResolved (resolveToRteVar : Var → Var) (defresult : Option Expr) : Prop :=
  ∀ result ∈ defresult, ∀ ref, getVarFromTeIfSimple result = some ref →
    result = .var (resolveToRteVar ref)

/-- The condition of ELSE is attached to its expression as it stands. -/
theorem vars_eq_branchColumns_iff (resolveToRteVar : Var → Var) (args : List (Expr × Expr))
    (defresult : Option Expr) :
    branchColumns resolveToRteVar args none ++ (defresult.filter isColumn).toList =
        branchColumns resolveToRteVar args defresult ↔
      ElseResolved resolveToRteVar defresult := by
  cases defresult with
  | none => simp [ElseResolved]
  | some result =>
    cases isSimple : getVarFromTeIfSimple result with
    | none => simp [branchColumns, ElseResolved, isColumn, isSimple, Option.filter]
    | some ref => simp [branchColumns, ElseResolved, isColumn, isSimple, Option.filter]

section Row

variable (functions : Functions) (row : Var → Datum) (test : Datum) {arg : Option Expr}
  {args : List (Expr × Expr)}

/-- The column branches with and without their numbers. -/
theorem map_filter_zipIdx (arg : Option Expr) (args : List (Expr × Expr)) :
    (args.zipIdx.filter fun entry => isColumn entry.1.2).map
        (fun entry => whenCondition arg entry.1.1) =
      (args.filter fun branch => isColumn branch.2).map
        fun branch => whenCondition arg branch.1 := by
  have numbered : args.zipIdx.map Prod.fst = args := List.zipIdx_map_fst 0 args
  calc
    _ = ((args.zipIdx.filter fun entry => isColumn entry.1.2).map Prod.fst).map
          fun branch => whenCondition arg branch.1 := by rw [List.map_map]; rfl
    _ = ((args.zipIdx.map Prod.fst).filter fun branch => isColumn branch.2).map
          fun branch => whenCondition arg branch.1 := by rw [List.filter_map]; rfl
    _ = _ := by rw [numbered]

theorem branchConditions_iff (plain : PlainTests arg args) :
    ((args.filter fun branch => isColumn branch.2).map
          (fun branch => whenCondition arg branch.1)).map
            (fun cond => (cond.eval functions row test).isTrue) =
        ((args.zipIdx.filter fun entry => isColumn entry.1.2).map Prod.snd).map
          (fun branch => decide (branch = returnedBranch functions row
            (Expr.evalOption functions row test test arg) args)) ↔
      FirstMatches functions row (Expr.evalOption functions row test test arg) args := by
  rw [← map_filter_zipIdx, List.map_map, List.map_map, List.map_inj_left]
  simp only [List.mem_filter, Function.comp_apply, and_imp]
  refine forall₂_congr fun entry member => forall_congr' fun _ => ?_
  rw [eval_whenCondition functions row test plain (List.fst_mem_of_mem_zipIdx member)]
  exact isTrue_eq_returned_iff member

theorem eval_conditions (plain : PlainTests arg args) :
    Expr.evalList functions row test (args.map fun branch => whenCondition arg branch.1) =
      args.map fun branch =>
        branch.1.eval functions row (Expr.evalOption functions row test test arg) := by
  rw [evalList_eq_map, List.map_map]
  exact List.map_congr_left fun branch member =>
    eval_whenCondition functions row test plain member

end Row

/-- The columns of a table with two booleans and two numbers. -/
def column (varattno : Nat) : Expr := .var { varno := 1, varattno := varattno }

/-- A row of the table. -/
def tableRow (first second : Bool) : Var → Datum
  | ⟨1, 1⟩ => .bool first
  | ⟨1, 2⟩ => .bool second
  | ⟨1, 3⟩ => .int 10
  | ⟨1, 4⟩ => .int 20
  | _ => .null

def noFunctions : Functions where
  op _ _ := .null
  func _ _ := .null

end Ldv.Copy
