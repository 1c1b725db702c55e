import Ldv.Sql.Semantics

/-!
# Expressions of copy contribution

The copy analysis looks for expressions that pass the value of a column on
without changing it: column references, implicit casts of them, and CASE
expressions with such results.

A CASE expression with an argument compares it with every WHEN value.  In
the comparison the argument is represented by `caseTestExpr`.
-/

namespace Ldv.Copy

open Ldv.Sql

/-- A reference to a column of a range table entry. -/
structure Var where
  varno : Nat
  varattno : Nat
deriving DecidableEq, Repr

/-- Expressions; `args` of a CASE are its conditions with their results. -/
inductive Expr where
  | var (ref : Var)
  | const (value : Datum)
  | caseTestExpr
  | funcExpr (funcid : Oid) (explicitCall : Bool) (args : List Expr)
  | opExpr (opno : Oid) (args : List Expr)
  | boolExpr (boolop : BoolExprType) (args : List Expr)
  | nullTest (arg : Expr)
  | caseExpr (arg : Option Expr) (args : List (Expr × Expr))
      (defresult : Option Expr)

/-- The meaning of operators and functions. -/
structure Functions where
  op : Oid → List Datum → Datum
  func : Oid → List Datum → Datum

mutual

/-- The value of an expression; `test` is the argument of the CASE around it. -/
def Expr.eval (functions : Functions) (row : Var → Datum) (test : Datum) :
    Expr → Datum
  | .var ref => row ref
  | .const value => value
  | .caseTestExpr => test
  | .funcExpr funcid _ args =>
    functions.func funcid (Expr.evalList functions row test args)
  | .opExpr opno args =>
    functions.op opno (Expr.evalList functions row test args)
  | .boolExpr boolop args =>
    evalBoolExpr boolop (Expr.evalList functions row test args)
  | .nullTest arg => .bool (arg.eval functions row test = .null)
  | .caseExpr arg args defresult =>
    let argument := Expr.evalOption functions row test test arg
    Expr.evalCase functions row argument
      (Expr.evalOption functions row argument .null defresult) args

def Expr.evalList (functions : Functions) (row : Var → Datum) (test : Datum) :
    List Expr → List Datum
  | [] => []
  | expr :: rest =>
    expr.eval functions row test :: Expr.evalList functions row test rest

def Expr.evalOption (functions : Functions) (row : Var → Datum)
    (test absent : Datum) : Option Expr → Datum
  | none => absent
  | some expr => expr.eval functions row test

/-- The result of the first branch whose condition is true. -/
def Expr.evalCase (functions : Functions) (row : Var → Datum)
    (test defresult : Datum) : List (Expr × Expr) → Datum
  | [] => defresult
  | branch :: rest =>
    let values := Expr.evalWhen functions row test branch
    if values.1.isTrue then values.2
    else Expr.evalCase functions row test defresult rest

def Expr.evalWhen (functions : Functions) (row : Var → Datum) (test : Datum) :
    Expr × Expr → Datum × Datum
  | (expr, result) =>
    (expr.eval functions row test, result.eval functions row test)

end

/-- The column that an expression passes on, possibly through casts. -/
def getVarFromTeIfSimple : Expr → Option Var
  | .var ref => some ref
  | .funcExpr _ false [arg] => getVarFromTeIfSimple arg
  | _ => none

end Ldv.Copy
