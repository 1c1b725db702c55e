import Ldv.Perm.RangeTable
import Ldv.Trans.Bitset

/-!
# Operators of a query

The transformation provenance of a row is a set of operators of the query.
The static analysis numbers the operators of all query nodes, links them to
a tree, finds the operators which contribute to every row, and computes the
set of each operator.  A query node that only passes on the rows of a
subquery has no operator; the tree of the subquery stands for it.
-/

namespace Ldv.Trans

open Ldv.Sql
open Ldv.Perm
open Effect

inductive SubOperationType where
  | aggregation
  | projection
  | having
  | selection
  | join (jointype : JoinType)
  | joinCross
  | baseRel
  | setOp (op : SetOperation)
deriving DecidableEq, Repr

/-- An operator; its set is computed after the tree is complete. -/
structure TransSubInfo (α : Type) where
  id : Nat
  opType : SubOperationType
  isStatic : Bool := false
  rtIndex : Option Nat := none
  setForNode : α

/-- A tree of operators, with a node for each query node it is made of. -/
inductive TransNode (α : Type) where
  | subInfo (info : TransSubInfo α) (children : List (TransNode α))
  | provInfo (isStatic : Bool) (rtIndex : Option Nat) (root : TransNode α)

namespace TransNode

variable {α β : Type}

mutual

/-- The result for a tree from the results for its parts. -/
def fold (f : TransSubInfo α → List β → β) (g : Bool → Option Nat → β → β) : TransNode α → β
  | .subInfo info children => f info (foldList f g children)
  | .provInfo isStatic rtIndex root => g isStatic rtIndex (fold f g root)

def foldList (f : TransSubInfo α → List β → β) (g : Bool → Option Nat → β → β) :
    List (TransNode α) → List β
  | [] => []
  | node :: rest => fold f g node :: foldList f g rest

end

theorem foldList_eq_map (f : TransSubInfo α → List β → β) (g : Bool → Option Nat → β → β)
    (nodes : List (TransNode α)) :
    foldList f g nodes = nodes.map (fold f g) := by
  induction nodes with
  | nil => rfl
  | cons node rest ih => simp [foldList, ih]

theorem fold_subInfo (f : TransSubInfo α → List β → β) (g : Bool → Option Nat → β → β)
    (info : TransSubInfo α) (children : List (TransNode α)) :
    fold f g (.subInfo info children) = f info (children.map (fold f g)) := by
  rw [fold, foldList_eq_map]

@[induction_eliminator]
theorem childInduction {P : TransNode α → Prop}
    (subInfo : ∀ info children, (∀ child ∈ children, P child) → P (.subInfo info children))
    (provInfo : ∀ isStatic rtIndex root, P root → P (.provInfo isStatic rtIndex root))
    (node : TransNode α) :
    P node :=
  @TransNode.rec α P (fun children => ∀ child ∈ children, P child) subInfo provInfo
    (fun _ member => absurd member List.not_mem_nil)
    (fun _ _ first others => List.forall_mem_cons.2 ⟨first, others⟩) node

end TransNode

/-! ## Projections -/

/-- The column of an expression that is a column under casts. -/
def getVarFromTeIfSimple (isCast : Oid → Bool) : Expr → Option VarRef
  | .var varno varattno vartype => some ⟨varno, varattno, vartype⟩
  | .opExpr opno _ [arg] => if isCast opno then getVarFromTeIfSimple isCast arg else none
  | _ => none

/-- Is the column shown under another name?  Fails on null pointers. -/
def isVarRenamed (cat : Catalog) (query : Query) (te : TargetEntry) (var : VarRef) :
    Option Bool := do
  let rte ← rtFetch query.rtable var.varno
  let (names, _) ← expandRTEWithParam cat 0 rte
  let origname ← names[var.varattno - 1]?
  let resultname ← te.resname
  return resultname ≠ origname

/-- The column of a relation or subquery behind a column of joins. -/
def resolveToRteVar (query : Query) : Nat → VarRef → Option VarRef
  | 0, _ => none
  | joins + 1, var => do
    let rte ← rtFetch query.rtable var.varno
    match rte.kind with
    | .join _ joinaliasvars =>
      match joinaliasvars[var.varattno - 1]? with
      | some (.var varno varattno vartype) =>
        resolveToRteVar query joins ⟨varno, varattno, vartype⟩
      | _ => none
    | _ => return var

/-- Is a column of the FROM clause missing? -/
def projectsOut (cat : Catalog) (query : Query) (vars : List VarRef) : Bool :=
  (query.rtable.zipIdx 1).any fun (rte, rtindex) =>
    !rte.isJoin && (expandRTEVars cat rtindex rte).any fun column =>
      !(column.vars.all fun var => vars.contains var)

/-- The loop of `isProjection` over the target list. -/
def isProjectionLoop (cat : Catalog) (isCast : Oid → Bool) (query : Query) :
    List TargetEntry → List VarRef → Option Bool
  | [], vars => some (projectsOut cat query vars)
  | te :: rest, vars =>
    match getVarFromTeIfSimple isCast te.expr with
    | none => some true
    | some var => do
      if vars.contains var then
        return true
      else if ← isVarRenamed cat query te var then
        return true
      else
        let var ← resolveToRteVar query (query.rtable.length + 1) var
        isProjectionLoop cat isCast query rest (vars ++ [var])

def isProjection (cat : Catalog) (isCast : Oid → Bool) (query : Query) : Option Bool :=
  isProjectionLoop cat isCast query query.targetList []

def isVar : Expr → Bool
  | .var _ _ _ => true
  | _ => false

mutual

/-- Is there an aggregate, other than `count(*)`, of more than a column? -/
def computesUnderAgg : Expr → Bool
  | .var _ _ _ => false
  | .const _ _ => false
  | .opExpr _ _ args => computesUnderAggList args
  | .distinctExpr left right => computesUnderAgg left || computesUnderAgg right
  | .boolExpr _ args => computesUnderAggList args
  | .caseExpr _ conds results defresult =>
    computesUnderAggList conds || computesUnderAggList results || computesUnderAgg defresult
  | .coalesceExpr _ args => computesUnderAggList args
  | .aggref _ _ args _ => (args.head?.map fun arg => !isVar arg).getD false

def computesUnderAggList : List Expr → Bool
  | [] => false
  | expr :: rest => computesUnderAgg expr || computesUnderAggList rest

end

def isProjectionUnderAgg (query : Query) : Bool :=
  query.targetList.any fun te => computesUnderAgg te.expr

def isProjectionOverAgg (query : Query) : Bool :=
  query.targetList.any fun te =>
    match te.expr with
    | .aggref _ _ _ _ => false
    | .var _ _ _ => false
    | _ => true

/-! ## The operators of a query node -/

/-- The inputs of a query node: FROM items, or a tree of set operations. -/
inductive InputTree where
  | ref (rtindex : Nat)
  | node (opType : SubOperationType) (rtIndex : Option Nat) (larg rarg : InputTree)

def InputTree.refs : InputTree → List Nat
  | .ref rtindex => [rtindex]
  | .node _ _ larg rarg => larg.refs ++ rarg.refs

def joinInputs : JoinTreeNode → InputTree
  | .rangeTblRef rtindex => .ref rtindex
  | .joinExpr jointype rtindex larg rarg _ =>
    .node (.join jointype) (some rtindex) (joinInputs larg) (joinInputs rarg)

def setOpInputs : SetOpNode → InputTree
  | .rangeTblRef rtindex => .ref rtindex
  | .setOperationStmt op _ _ larg rarg =>
    .node (.setOp op) none (setOpInputs larg) (setOpInputs rarg)

def inputs (query : Query) : List InputTree :=
  match query.setOperations with
  | some tree => [setOpInputs tree]
  | none => query.fromlist.map joinInputs

/-- The operators of `analyseAgg`, `analyseProjection` and `analyseSelection`. -/
def selectOperators (query : Query) (projects : Bool) : List SubOperationType :=
  (if query.hasAggs then
    (if isProjectionOverAgg query then [.projection] else []) ++
      (if query.havingQual.isSome then [.having] else []) ++ [.aggregation]
  else []) ++
  (if projects || isProjectionUnderAgg query then [.projection] else []) ++
  (if query.quals.any fun quals => !isConst quals then [.selection] else [])

/--
The operators above the inputs, from the root down.  If there are none,
`analyseJoinTree` adds a cross product of several FROM items.
-/
def operators (cat : Catalog) (isCast : Oid → Bool) (query : Query) :
    Option (List SubOperationType) :=
  if query.setOperations.isSome then some []
  else
    (if query.hasAggs then some false else isProjection cat isCast query).map fun projects =>
      let chain := selectOperators query projects
      if chain.isEmpty && 1 < query.fromlist.length then [.joinCross] else chain

/-! ## Numbering -/

inductive AnalysisError where
  | crash
  | outOfFuel
deriving DecidableEq, Repr

/-- Programs with the next identifier. -/
abbrev Analysis := StateT Nat (Except AnalysisError)

def makeTransSubInfo (opType : SubOperationType) (rtIndex : Option Nat) :
    Analysis (TransSubInfo Unit) := do
  let curId ← get
  set (curId + 1)
  return { id := curId, opType := opType, rtIndex := rtIndex, setForNode := () }

def makeChain : List SubOperationType → Analysis (List (TransSubInfo Unit))
  | [] => return []
  | opType :: rest => do
    let info ← makeTransSubInfo opType none
    let chain ← makeChain rest
    return info :: chain

/-- `analyseJoinTreeNode` and `analyseOneSetOp`. -/
def analyseInput (analyseRte : Nat → Analysis (List (TransNode Unit))) :
    InputTree → Analysis (List (TransNode Unit))
  | .ref rtindex => analyseRte rtindex
  | .node opType rtIndex larg rarg => do
    let next ← makeTransSubInfo opType rtIndex
    let left ← analyseInput analyseRte larg
    let right ← analyseInput analyseRte rarg
    return [.subInfo next (left ++ right)]

def analyseInputs (analyseRte : Nat → Analysis (List (TransNode Unit))) :
    List InputTree → Analysis (List (TransNode Unit))
  | [] => return []
  | tree :: rest => do
    let first ← analyseInput analyseRte tree
    let others ← analyseInputs analyseRte rest
    return first ++ others

/-- Nothing is done for entries other than relations and subqueries. -/
def analyseRte (analyse : Query → Option Nat → Analysis (TransNode Unit)) (rtable : List RTE)
    (rtindex : Nat) : Analysis (List (TransNode Unit)) :=
  match (rtFetch rtable rtindex).map RangeTblEntry.kind with
  | none => throw .crash
  | some (.relation _) => do
    let next ← makeTransSubInfo .baseRel (some rtindex)
    return [.subInfo next []]
  | some (.subquery query) => do
    let info ← analyse query (some rtindex)
    return [info]
  | some _ => return []

/--
The root of a query node.  Without an operator `handleDummyQueryNode` takes
the subquery at position 1 for it.
-/
def rootNode : List (TransSubInfo Unit) → List (TransNode Unit) → Analysis (TransNode Unit)
  | [], [.subInfo info children] => return .subInfo info children
  | [], [.provInfo isStatic (some 1) root] => return .provInfo isStatic (some 1) root
  | [], _ => throw .crash
  | [info], items => return .subInfo info items
  | info :: next :: rest, items => do
    let below ← rootNode (next :: rest) items
    return .subInfo info [below]

def analyseOneQueryNode (cat : Catalog) (isCast : Oid → Bool) :
    Nat → Query → Option Nat → Analysis (TransNode Unit)
  | 0, _, _ => throw .outOfFuel
  | fuel + 1, query, rtIndex =>
    match operators cat isCast query with
    | none => throw .crash
    | some ops => do
      let chain ← makeChain ops
      let items ← analyseInputs
        (analyseRte (analyseOneQueryNode cat isCast fuel) query.rtable) (inputs query)
      let root ← rootNode chain items
      return .provInfo false rtIndex root

/-! ## Static operators and sets -/

def TransNode.isStatic {α : Type} : TransNode α → Bool
  | .subInfo info _ => info.isStatic
  | .provInfo isStatic _ _ => isStatic

/-- Does an operator contribute to every row if its inputs do? -/
def staticWith (opType : SubOperationType) (children : List Bool) : Bool :=
  match opType with
  | .setOp .except => children.headD false
  | .setOp .union => false
  | .join .inner => children.all id
  | .join _ => false
  | _ => children.all id

/-- Marks static operators; the query nodes below come first. -/
def checkStatic : TransNode Unit → TransNode Unit :=
  TransNode.fold
    (fun info children =>
      .subInfo { info with
        isStatic := staticWith info.opType (children.map TransNode.isStatic) } children)
    fun _ rtIndex root => .provInfo root.isStatic rtIndex root

/-- A bit string with a bit for each of the operators. -/
abbrev OpSet (numNodes : Nat) := { set : VarBit // set.bitlen = numNodes }

def OpSet.union {numNodes : Nat} (left right : OpSet numNodes) : OpSet numNodes :=
  ⟨varBitOr left.val right.val (left.property.trans right.property.symm), left.property⟩

/-- The set of the root operator. -/
def TransNode.set {α : Type} : TransNode α → α
  | .subInfo info _ => info.setForNode
  | .provInfo _ _ root => root.set

/-- The inputs whose operators contribute: the left one of a difference. -/
def contributing {β : Type} (opType : SubOperationType) (children : List β) : List β :=
  if opType = .setOp .except then children.take 1 else children

def setOfOperator {numNodes : Nat} (info : TransSubInfo Unit)
    (children : List (TransNode (OpSet numNodes))) : OpSet numNodes :=
  let own : OpSet numNodes := ⟨generateVarbitSetElem numNodes info.id, rfl⟩
  if info.isStatic then
    ((contributing info.opType children).map TransNode.set).foldl OpSet.union own
  else own

def computeSets (numNodes : Nat) : TransNode Unit → TransNode (OpSet numNodes) :=
  TransNode.fold
    (fun info children => .subInfo { info with setForNode := setOfOperator info children } children)
    .provInfo

/-- The number of operators and their tree. -/
def analyseStaticTransProv (cat : Catalog) (isCast : Oid → Bool) (query : Query) :
    Except AnalysisError ((numNodes : Nat) × TransNode (OpSet numNodes)) := do
  let (info, curId) ← (analyseOneQueryNode cat isCast query.size query none).run 1
  return ⟨curId - 1, computeSets (curId - 1) (checkStatic info)⟩

/-! ## What the analysis is for -/

/-- The identifiers of the operators, each before those below it. -/
def TransNode.ids {α : Type} : TransNode α → List Nat :=
  TransNode.fold (fun info below => info.id :: below.flatten) fun _ _ ids => ids

/-- The root operator and those below, but not in right inputs of differences. -/
def TransNode.contributingIds {α : Type} : TransNode α → Finset Nat :=
  TransNode.fold
    (fun info below => insert info.id ((contributing info.opType below).foldr (· ∪ ·) ∅))
    fun _ _ ids => ids

inductive TransNode.Everywhere {α : Type}
    (P : TransSubInfo α → List (TransNode α) → Prop) : TransNode α → Prop where
  | subInfo {info : TransSubInfo α} {children : List (TransNode α)} (holds : P info children)
      (below : ∀ child ∈ children, child.Everywhere P) : Everywhere P (.subInfo info children)
  | provInfo {isStatic : Bool} {rtIndex : Option Nat} {root : TransNode α}
      (below : root.Everywhere P) : Everywhere P (.provInfo isStatic rtIndex root)

/-- The set of an operator as its static flag asks for. -/
def HasSet {numNodes : Nat} (info : TransSubInfo (OpSet numNodes))
    (children : List (TransNode (OpSet numNodes))) : Prop :=
  info.setForNode.val.ZeroPadded ∧
    info.setForNode.val.elements =
      if info.isStatic then (TransNode.subInfo info children).contributingIds else {info.id}

/-- The operators are numbered from one, and have their sets. -/
def NumbersOperators (cat : Catalog) (isCast : Oid → Bool) (query : Query) : Prop :=
  ∃ numNodes root, analyseStaticTransProv cat isCast query = .ok ⟨numNodes, root⟩ ∧
    root.ids = List.range' 1 numNodes ∧ root.Everywhere HasSet

def isInput (rte : RTE) : Bool :=
  match rte.kind with
  | .relation _ => true
  | .subquery _ => true
  | _ => false

/-- There are inputs, all relations and subqueries, and each subquery is one. -/
def OverRelations (query : Query) : Prop :=
  let refs := (inputs query).flatMap InputTree.refs
  (inputs query).isEmpty = false ∧ refs.Nodup ∧
    (∀ rtindex ∈ refs, (rtFetch query.rtable rtindex).any isInput = true) ∧
      ∀ entry ∈ query.rtable.zipIdx 1, entry.1.subquery?.isSome = true → entry.2 ∈ refs

instance (query : Query) : Decidable (OverRelations query) :=
  inferInstanceAs (Decidable (_ ∧ _ ∧ _ ∧ _))

/-- The position of the subquery that is the only input. -/
def onlySubquery (query : Query) : Option Nat :=
  match inputs query with
  | [.ref rtindex] =>
    if (rtFetch query.rtable rtindex).any fun rte => rte.subquery?.isSome then some rtindex
    else none
  | _ => none

/-! ## Queries that can be analysed -/

/-- A column of joins, and the column of a relation or subquery behind it. -/
inductive LeadsTo (rtable : List RTE) : Nat → VarRef → VarRef → Prop where
  | column {var : VarRef} {rte : RTE} (fetched : rtFetch rtable var.varno = some rte)
      (noJoin : rte.isJoin = false) : LeadsTo rtable 0 var var
  | joined {joins : Nat} {var base : VarRef} {rte : RTE} {varno varattno : Nat} {vartype : Oid}
      (fetched : rtFetch rtable var.varno = some rte) (isJoin : rte.isJoin = true)
      (aliasvar : rte.joinaliasvars[var.varattno - 1]? = some (.var varno varattno vartype))
      (behind : LeadsTo rtable joins ⟨varno, varattno, vartype⟩ base) :
      LeadsTo rtable (joins + 1) var base

section Columns

variable (cat : Catalog) (isCast : Oid → Bool) (query : Query)

/-- A column of a relation or subquery is found behind a column. -/
def Resolves (var base : VarRef) : Prop :=
  ∃ joins ≤ query.rtable.length, LeadsTo query.rtable joins var base

/--
The live columns of the range-table entry have labels, that of the column is
among them, and the target entry has a name.
-/
def Labelled (te : TargetEntry) (var : VarRef) (label name : String) : Prop :=
  ∃ rte, ∃ names : List String, rtFetch query.rtable var.varno = some rte ∧
    expandRTENames cat rte = names.map some ∧ names[var.varattno - 1]? = some label ∧
      te.resname = some name

/-- Some of these target entries shows the column. -/
def Shown (entries : List TargetEntry) (base : VarRef) : Prop :=
  ∃ te ∈ entries, ∃ var, getVarFromTeIfSimple isCast te.expr = some var ∧
    Resolves query var base

/-- A target entry that shows a column under its own name, which no other has shown before. -/
def Keeps (before : List TargetEntry) (te : TargetEntry) : Prop :=
  ∃ var name base, getVarFromTeIfSimple isCast te.expr = some var ∧
    ¬ Shown isCast query before var ∧ Labelled cat query te var name name ∧
      Resolves query var base

/-- A column has a label to be compared with its name, and under its own name it is resolved. -/
def Readable (before : List TargetEntry) (te : TargetEntry) : Prop :=
  ∀ var, getVarFromTeIfSimple isCast te.expr = some var → ¬ Shown isCast query before var →
    ∃ label name, Labelled cat query te var label name ∧
      (label = name → ∃ base, Resolves query var base)

def KeepsFrom : List TargetEntry → List TargetEntry → Prop
  | _, [] => True
  | before, te :: rest => Keeps cat isCast query before te ∧ KeepsFrom (before ++ [te]) rest

/-- Every target entry is readable, up to the first one that does not keep a column. -/
def ReadsFrom : List TargetEntry → List TargetEntry → Prop
  | _, [] => True
  | before, te :: rest =>
    Readable cat isCast query before te ∧
      (Keeps cat isCast query before te → ReadsFrom (before ++ [te]) rest)

/-- Every column of the FROM clause is shown. -/
def ShowsAll : Prop :=
  ∀ entry ∈ query.rtable.zipIdx 1, entry.1.isJoin = false →
    ∀ column ∈ expandRTEVars cat entry.2 entry.1, ∀ var ∈ column.vars,
      Shown isCast query query.targetList var

/-- A query node without an operator of its own: `SELECT * FROM` one item. -/
structure PassesOn : Prop where
  noAggs : query.hasAggs = false
  keeps : KeepsFrom cat isCast query [] query.targetList
  showsAll : ShowsAll cat isCast query
  plain : isProjectionUnderAgg query = false
  noQuals : (query.quals.any fun quals => !isConst quals) = false
  single : query.fromlist.length ≤ 1

/--
The columns that the projection check looks at can be read, and a subquery
that is passed on is at position 1.
-/
def Analysable : Prop :=
  (query.setOperations = none → query.hasAggs = false →
      ReadsFrom cat isCast query [] query.targetList) ∧
    ((query.setOperations = none → PassesOn cat isCast query) →
      ∀ rtindex ∈ onlySubquery query, rtindex = 1)

end Columns

section Returns

variable {cat : Catalog} {isCast : Oid → Bool} {query : Query}

theorem isVarRenamed_eq_some_iff {te : TargetEntry} {var : VarRef} {renamed : Bool} :
    isVarRenamed cat query te var = some renamed ↔
      ∃ label name, Labelled cat query te var label name ∧ decide (name ≠ label) = renamed := by
  constructor
  · intro ran
    obtain ⟨rte, fetched, ran⟩ := Option.bind_eq_some_iff.1 ran
    obtain ⟨⟨names, vars⟩, expanded, ran⟩ := Option.bind_eq_some_iff.1 ran
    obtain ⟨labels', labels, isPair⟩ := Option.bind_eq_some_iff.1 expanded
    obtain ⟨rfl, -⟩ := Prod.mk.inj (Option.some.inj isPair)
    obtain ⟨label, isLabel, ran⟩ := Option.bind_eq_some_iff.1 ran
    obtain ⟨name, isName, isResult⟩ := Option.bind_eq_some_iff.1 ran
    cases isResult
    exact ⟨label, name, ⟨rte, labels', fetched, allLabels_eq_some_iff.1 labels, isLabel, isName⟩,
      rfl⟩
  · rintro ⟨label, name, ⟨rte, names, fetched, labels, isLabel, isName⟩, rfl⟩
    simp [isVarRenamed, expandRTEWithParam, fetched, allLabels_eq_some_iff.2 labels, isLabel,
      isName]

theorem resolveToRteVar_of_not_isJoin {var : VarRef} {rte : RTE}
    (fetched : rtFetch query.rtable var.varno = some rte) (noJoin : rte.isJoin = false)
    (joins : Nat) : resolveToRteVar query (joins + 1) var = some var := by
  rw [resolveToRteVar, fetched, Option.bind_eq_bind, Option.bind_some]
  cases kind : rte.kind <;> simp_all [RangeTblEntry.isJoin]

theorem resolveToRteVar_of_isJoin {var : VarRef} {rte : RTE}
    (fetched : rtFetch query.rtable var.varno = some rte) (isJoin : rte.isJoin = true)
    (joins : Nat) :
    resolveToRteVar query (joins + 1) var =
      match rte.joinaliasvars[var.varattno - 1]? with
      | some (.var varno varattno vartype) =>
        resolveToRteVar query joins ⟨varno, varattno, vartype⟩
      | _ => none := by
  rw [resolveToRteVar, fetched, Option.bind_eq_bind, Option.bind_some]
  cases kind : rte.kind <;> simp_all [RangeTblEntry.isJoin, RangeTblEntry.joinaliasvars]

theorem leadsTo_of_resolveToRteVar {joins : Nat} {var base : VarRef}
    (resolved : resolveToRteVar query (joins + 1) var = some base) :
    ∃ passed ≤ joins, LeadsTo query.rtable passed var base := by
  induction joins using Nat.strongRecOn generalizing var with
  | ind joins ih =>
    obtain ⟨rte, fetched, -⟩ := Option.bind_eq_some_iff.1 resolved
    cases isJoin : rte.isJoin with
    | false =>
      rw [resolveToRteVar_of_not_isJoin fetched isJoin] at resolved
      cases resolved
      exact ⟨0, Nat.zero_le _, .column fetched isJoin⟩
    | true =>
      rw [resolveToRteVar_of_isJoin fetched isJoin] at resolved
      split at resolved
      · next aliasvar =>
          cases joins with
          | zero => cases resolved
          | succ joins =>
            obtain ⟨passed, bound, behind⟩ := ih joins (Nat.lt_succ_self joins) resolved
            exact ⟨passed + 1, by omega, .joined fetched isJoin aliasvar behind⟩
      · cases resolved

theorem LeadsTo.resolveToRteVar {passed : Nat} {var base : VarRef}
    (leads : LeadsTo query.rtable passed var base) {joins : Nat} (enough : passed ≤ joins) :
    resolveToRteVar query (joins + 1) var = some base := by
  induction leads generalizing joins with
  | column fetched noJoin => exact resolveToRteVar_of_not_isJoin fetched noJoin joins
  | joined fetched isJoin aliasvar _ ih =>
    cases joins with
    | zero => omega
    | succ joins =>
      rw [resolveToRteVar_of_isJoin fetched isJoin, aliasvar]
      exact ih (by omega)

theorem resolveToRteVar_eq_some_iff {var base : VarRef} :
    resolveToRteVar query (query.rtable.length + 1) var = some base ↔ Resolves query var base :=
  ⟨leadsTo_of_resolveToRteVar, fun ⟨_, bound, leads⟩ => leads.resolveToRteVar bound⟩

/-- The columns collected are those shown by the entries that were read. -/
theorem shown_concat_iff {before : List TargetEntry} {te : TargetEntry} {var base : VarRef}
    (simple : getVarFromTeIfSimple isCast te.expr = some var) (resolves : Resolves query var base)
    {vars : List VarRef} (collected : ∀ base, base ∈ vars ↔ Shown isCast query before base)
    (other : VarRef) :
    other ∈ vars ++ [base] ↔ Shown isCast query (before ++ [te]) other := by
  have unique : Resolves query var other ↔ other = base := by
    rw [← resolveToRteVar_eq_some_iff, resolveToRteVar_eq_some_iff.2 resolves, Option.some_inj,
      eq_comm]
  rw [List.mem_append, collected, List.mem_singleton, ← unique]
  simp only [Shown, List.mem_append, List.mem_singleton, or_and_right, exists_or, exists_eq_left,
    simple, Option.some.injEq, exists_eq_left']

section Entry

variable {before : List TargetEntry} {te : TargetEntry} {var : VarRef}
  (simple : getVarFromTeIfSimple isCast te.expr = some var)
  (notShown : ¬ Shown isCast query before var)

include simple notShown

theorem readable_iff :
    Readable cat isCast query before te ↔
      ∃ renamed, isVarRenamed cat query te var = some renamed ∧
        (renamed = false →
          (resolveToRteVar query (query.rtable.length + 1) var).isSome = true) := by
  simp only [Readable, simple, Option.some.injEq, forall_eq', notShown, not_false_eq_true,
    forall_const, isVarRenamed_eq_some_iff, Option.isSome_iff_exists, resolveToRteVar_eq_some_iff]
  constructor
  · rintro ⟨label, name, labelled, resolves⟩
    exact ⟨_, ⟨label, name, labelled, rfl⟩, fun same =>
      resolves (of_not_not (of_decide_eq_false same)).symm⟩
  · rintro ⟨_, ⟨label, name, labelled, rfl⟩, resolves⟩
    exact ⟨label, name, labelled, fun same => resolves (decide_eq_false (not_not.2 same.symm))⟩

theorem keeps_iff :
    Keeps cat isCast query before te ↔
      isVarRenamed cat query te var = some false ∧
        (resolveToRteVar query (query.rtable.length + 1) var).isSome = true := by
  simp only [isVarRenamed_eq_some_iff, Option.isSome_iff_exists, resolveToRteVar_eq_some_iff]
  constructor
  · rintro ⟨_, name, base, isVar, -, labelled, resolves⟩
    cases simple.symm.trans isVar
    exact ⟨⟨name, name, labelled, by simp⟩, base, resolves⟩
  · rintro ⟨⟨label, name, labelled, same⟩, base, resolves⟩
    obtain rfl : name = label := by simpa using same
    exact ⟨var, name, base, simple, notShown, labelled, resolves⟩

end Entry

/-- What the loop of the projection check decides, and on which entries it fails. -/
theorem isProjectionLoop_spec {rest before : List TargetEntry} {vars : List VarRef}
    (targets : query.targetList = before ++ rest)
    (collected : ∀ base, base ∈ vars ↔ Shown isCast query before base) :
    ((isProjectionLoop cat isCast query rest vars).isSome = true ↔
        ReadsFrom cat isCast query before rest) ∧
      (isProjectionLoop cat isCast query rest vars = some false ↔
        KeepsFrom cat isCast query before rest ∧ ShowsAll cat isCast query) := by
  induction rest generalizing before vars with
  | nil =>
    rw [List.append_nil] at targets
    simp [isProjectionLoop, ReadsFrom, KeepsFrom, projectsOut, ShowsAll, targets, collected]
  | cons te rest ih =>
    rw [isProjectionLoop, ReadsFrom, KeepsFrom]
    cases simple : getVarFromTeIfSimple isCast te.expr with
    | none => simp [Readable, Keeps, simple]
    | some var =>
      by_cases repeated : var ∈ vars
      · have shown := (collected var).1 repeated
        simp [Readable, Keeps, simple, repeated, shown]
      · have notShown := mt (collected var).2 repeated
        rw [readable_iff simple notShown, keeps_iff simple notShown]
        simp only [List.contains_iff_mem, repeated, if_false]
        cases renames : isVarRenamed cat query te var with
        | none => simp
        | some renamed =>
          cases renamed with
          | true => simp
          | false =>
            cases resolved : resolveToRteVar query (query.rtable.length + 1) var with
            | none => simp
            | some base =>
              have next := @ih (before ++ [te]) (vars ++ [base]) (by simpa using targets)
                (shown_concat_iff simple (resolveToRteVar_eq_some_iff.1 resolved) collected)
              simpa [resolved] using next

theorem isSome_isProjection_iff :
    (isProjection cat isCast query).isSome = true ↔
      ReadsFrom cat isCast query [] query.targetList :=
  (isProjectionLoop_spec rfl (by simp [Shown])).1

theorem isProjection_eq_false_iff :
    isProjection cat isCast query = some false ↔
      KeepsFrom cat isCast query [] query.targetList ∧ ShowsAll cat isCast query :=
  (isProjectionLoop_spec rfl (by simp [Shown])).2

theorem operators_eq_nil_iff (noSetOp : query.setOperations = none) :
    operators cat isCast query = some [] ↔ PassesOn cat isCast query := by
  have chain (projects : Bool) : selectOperators query projects = [] ↔
      query.hasAggs = false ∧ projects = false ∧ isProjectionUnderAgg query = false ∧
        (query.quals.any fun quals => !isConst quals) = false := by
    simp only [selectOperators, List.append_eq_nil_iff]
    cases query.hasAggs <;> cases projects <;> simp
  have single (projects : Bool) :
      ((if (selectOperators query projects).isEmpty && decide (1 < query.fromlist.length) then
        [.joinCross] else selectOperators query projects) = []) ↔
      selectOperators query projects = [] ∧ query.fromlist.length ≤ 1 := by
    by_cases empty : selectOperators query projects = []
    · simp [empty]
    · simp [empty]
  simp only [operators, noSetOp, Option.isSome_none, Bool.false_eq_true, if_false,
    Option.map_eq_some_iff, single, chain]
  constructor
  · rintro ⟨projects, isProjects, ⟨noAggs, rfl, plain, noQuals⟩, few⟩
    rw [noAggs, if_neg Bool.false_ne_true, isProjection_eq_false_iff] at isProjects
    exact ⟨noAggs, isProjects.1, isProjects.2, plain, noQuals, few⟩
  · rintro ⟨noAggs, keeps, showsAll, plain, noQuals, few⟩
    refine ⟨false, ?_, ⟨noAggs, rfl, plain, noQuals⟩, few⟩
    rw [noAggs, if_neg Bool.false_ne_true, isProjection_eq_false_iff]
    exact ⟨keeps, showsAll⟩

theorem isSome_operators_iff (noSetOp : query.setOperations = none) :
    (operators cat isCast query).isSome = true ↔
      (query.hasAggs = false → ReadsFrom cat isCast query [] query.targetList) := by
  rw [operators, noSetOp, ← isSome_isProjection_iff]
  cases query.hasAggs <;> simp

/-- The operators of a node are found, and a subquery passed on is at position 1. -/
theorem analysable_iff :
    Analysable cat isCast query ↔
      ∃ ops, operators cat isCast query = some ops ∧
        (ops = [] → ∀ rtindex ∈ onlySubquery query, rtindex = 1) := by
  cases setOperations : query.setOperations with
  | some tree => simp [Analysable, operators, setOperations]
  | none =>
    simp only [Analysable, setOperations, true_implies, ← isSome_operators_iff setOperations,
      ← operators_eq_nil_iff setOperations]
    cases operators cat isCast query <;> simp

end Returns

instance (cat : Catalog) (isCast : Oid → Bool) (query : Query) :
    Decidable (Analysable cat isCast query) :=
  match ops_eq : operators cat isCast query with
  | none => isFalse (by simp [analysable_iff, ops_eq])
  | some ops =>
    decidable_of_iff (ops = [] → ∀ rtindex ∈ onlySubquery query, rtindex = 1)
      (by simp [analysable_iff, ops_eq])

/-! ## Consecutive identifiers -/

def Numbered (first : Nat) (ids : List Nat) (next : Nat) : Prop :=
  ids = List.range' first ids.length ∧ next = first + ids.length

theorem Numbered.append {first middle last : Nat} {ids ids' : List Nat}
    (left : Numbered first ids middle) (right : Numbered middle ids' last) :
    Numbered first (ids ++ ids') last := by
  rcases left with ⟨ids_eq, rfl⟩
  rcases right with ⟨ids'_eq, rfl⟩
  refine ⟨?_, by rw [List.length_append, Nat.add_assoc]⟩
  rw [List.length_append, ← List.range'_append_1, ← ids_eq, ← ids'_eq]

theorem numbered_singleton (first : Nat) : Numbered first [first] (first + 1) := ⟨rfl, rfl⟩

theorem TransNode.ids_subInfo {α : Type} (info : TransSubInfo α)
    (children : List (TransNode α)) :
    (TransNode.subInfo info children).ids = info.id :: children.flatMap TransNode.ids := by
  rw [TransNode.ids, TransNode.fold_subInfo, ← List.flatMap_def]

theorem returns_makeTransSubInfo (opType : SubOperationType) (rtIndex : Option Nat)
    (curId : Nat) :
    Returns (makeTransSubInfo opType rtIndex) curId
      fun info next => Numbered curId [info.id] next :=
  ⟨_, _, rfl, numbered_singleton curId⟩

theorem returns_makeChain (ops : List SubOperationType) (curId : Nat) :
    Returns (makeChain ops) curId fun chain next =>
      chain.length = ops.length ∧ Numbered curId (chain.map TransSubInfo.id) next := by
  induction ops generalizing curId with
  | nil => exact .pure ⟨rfl, rfl, rfl⟩
  | cons opType rest ih =>
    refine (returns_makeTransSubInfo opType none curId).bind fun info middle first => ?_
    refine (ih middle).bind fun chain next others => .pure ⟨?_, ?_⟩
    · rw [List.length_cons, List.length_cons, others.1]
    · exact first.append others.2

/-! ## The inputs -/

section Inputs

variable
  {analyse : Nat → Analysis (List (TransNode Unit))}
  {cond : Nat → Prop}
  {Shape : Nat → TransNode Unit → Prop}

/-- What an input contributes to the tree. -/
def InputShape (Shape : Nat → TransNode Unit → Prop) : InputTree → TransNode Unit → Prop
  | .ref rtindex, node => Shape rtindex node
  | .node _ _ _ _, node => ∃ info children, node = .subInfo info children

theorem decides_analyseInput {tree : InputTree}
    (spec :
      ∀ rtindex ∈ tree.refs, ∀ curId, Decides (analyse rtindex) curId (cond rtindex)
        fun items next => ∃ node, items = [node] ∧ Numbered curId node.ids next ∧
          Shape rtindex node)
    (curId : Nat) :
    Decides (analyseInput analyse tree) curId (∀ rtindex ∈ tree.refs, cond rtindex)
      fun items next => ∃ node, items = [node] ∧ Numbered curId node.ids next ∧
        InputShape Shape tree node := by
  induction tree generalizing curId with
  | ref rtindex =>
    exact (spec rtindex (by simp [InputTree.refs]) curId).mono (by simp [InputTree.refs])
      fun _ _ _ holds => holds
  | node opType rtIndex larg rarg left right =>
    simp only [InputTree.refs, List.mem_append, or_imp, forall_and] at spec ⊢
    refine (returns_makeTransSubInfo opType rtIndex curId).bind_decides fun info first own => ?_
    refine (left spec.1 first).bind fun _ items second => ?_
    rintro ⟨leftNode, rfl, leftIds, -⟩
    refine (right spec.2 second).bind_returns fun _ items last => ?_
    rintro ⟨rightNode, rfl, rightIds, -⟩
    refine .pure ⟨_, rfl, ?_, _, _, rfl⟩
    rw [TransNode.ids_subInfo]
    simpa using own.append (leftIds.append rightIds)

theorem decides_analyseInputs {trees : List InputTree}
    (spec :
      ∀ rtindex ∈ trees.flatMap InputTree.refs, ∀ curId,
        Decides (analyse rtindex) curId (cond rtindex) fun items next =>
          ∃ node, items = [node] ∧ Numbered curId node.ids next ∧ Shape rtindex node)
    (curId : Nat) :
    Decides (analyseInputs analyse trees) curId
      (∀ rtindex ∈ trees.flatMap InputTree.refs, cond rtindex) fun items next =>
        Numbered curId (items.flatMap TransNode.ids) next ∧
          List.Forall₂ (InputShape Shape) trees items := by
  induction trees generalizing curId with
  | nil => exact .of_returns (by simp) (.pure ⟨⟨rfl, rfl⟩, .nil⟩)
  | cons tree rest ih =>
    simp only [List.flatMap_cons, List.mem_append, or_imp, forall_and] at spec ⊢
    refine (decides_analyseInput spec.1 curId).bind fun _ items middle => ?_
    rintro ⟨node, rfl, firstIds, shape⟩
    refine (ih spec.2 middle).bind_returns fun _ items last => ?_
    rintro ⟨otherIds, shapes⟩
    exact .pure ⟨firstIds.append otherIds, .cons shape shapes⟩

end Inputs

/-! ## The query nodes -/

section QueryNodes

variable
  {cat : Catalog}
  {isCast : Oid → Bool}

theorem returns_rootNode (info : TransSubInfo Unit) (rest : List (TransSubInfo Unit))
    (items : List (TransNode Unit)) (curId : Nat) :
    Returns (rootNode (info :: rest) items) curId fun root next =>
      next = curId ∧
        root.ids = (info :: rest).map TransSubInfo.id ++ items.flatMap TransNode.ids := by
  induction rest generalizing info with
  | nil => exact .pure ⟨rfl, TransNode.ids_subInfo info items⟩
  | cons next rest ih =>
    refine (ih next).bind ?_
    rintro below _ ⟨rfl, ids⟩
    refine .pure ⟨rfl, ?_⟩
    rw [TransNode.ids_subInfo, List.flatMap_singleton, ids]
    rfl

/-- Subqueries are query nodes of the tree, relations are operators. -/
def EntryShape (rtable : List RTE) (rtindex : Nat) (node : TransNode Unit) : Prop :=
  if (rtFetch rtable rtindex).any fun rte => rte.subquery?.isSome then
    ∃ isStatic root, node = .provInfo isStatic (some rtindex) root
  else ∃ info children, node = .subInfo info children

theorem decides_analyseRte {analyse : Query → Option Nat → Analysis (TransNode Unit)}
    {rtable : List RTE} {rtindex : Nat} {cond : Query → Prop}
    (isEntry : (rtFetch rtable rtindex).any isInput = true)
    (spec :
      ∀ rte ∈ rtable, ∀ sub, rte.kind = .subquery sub → ∀ rtIndex curId,
        Decides (analyse sub rtIndex) curId (cond sub) fun node next =>
          Numbered curId node.ids next ∧ ∃ isStatic root, node = .provInfo isStatic rtIndex root)
    (curId : Nat) :
    Decides (analyseRte analyse rtable rtindex) curId
      (∀ rte ∈ rtFetch rtable rtindex, ∀ sub, rte.kind = .subquery sub → cond sub)
      fun items next => ∃ node, items = [node] ∧ Numbered curId node.ids next ∧
        EntryShape rtable rtindex node := by
  obtain ⟨rte, fetched, isInput⟩ :
      ∃ rte, rtFetch rtable rtindex = some rte ∧ isInput rte = true := by
    simpa [Option.any_eq_true] using isEntry
  simp only [analyseRte, EntryShape, fetched]
  cases kind : rte.kind with
  | relation relid =>
    simp only [Option.map_some, kind]
    refine .of_returns (by simp [kind]) ?_
    refine (returns_makeTransSubInfo .baseRel (some rtindex) curId).bind fun info next own => ?_
    refine .pure ⟨_, rfl, ?_, by simp [RangeTblEntry.subquery?, kind]⟩
    simpa [TransNode.ids_subInfo] using own
  | subquery sub =>
    have member : rte ∈ rtable := by
      cases rtindex with
      | zero => simp [rtFetch] at fetched
      | succ position => exact List.mem_of_getElem? fetched
    simp only [Option.map_some, kind]
    refine Decides.mono ((spec rte member sub kind (some rtindex) curId).bind_returns
      fun _ node next analysed => .pure ⟨node, rfl, analysed.1, ?_⟩) (by simp [kind])
      fun _ _ _ holds => holds
    simpa [RangeTblEntry.subquery?, kind] using analysed.2
  | _ => simp [Trans.isInput, kind] at isInput

theorem length_inputs_le_one {query : Query} (none_eq : operators cat isCast query = some []) :
    (inputs query).length ≤ 1 := by
  rw [operators] at none_eq
  rw [inputs]
  cases setOperations : query.setOperations with
  | some tree => exact le_rfl
  | none =>
    rw [setOperations] at none_eq
    simp only [Option.isSome_none, Bool.false_eq_true, if_false, Option.map_eq_some_iff]
      at none_eq
    rcases none_eq with ⟨projects, -, chain⟩
    split at chain
    · exact absurd chain (by simp)
    · next single =>
        rw [chain] at single
        simpa using single

/-- Without an operator the root is that of the only input. -/
theorem decides_rootNode_nil {query : Query} (overRelations : OverRelations query)
    (none_eq : operators cat isCast query = some []) {items : List (TransNode Unit)}
    (shapes : List.Forall₂ (InputShape (EntryShape query.rtable)) (inputs query) items)
    (curId : Nat) :
    Decides (rootNode [] items) curId (∀ rtindex ∈ onlySubquery query, rtindex = 1)
      fun root next => next = curId ∧ root.ids = items.flatMap TransNode.ids := by
  obtain ⟨tree, single⟩ : ∃ tree, inputs query = [tree] := by
    rw [← List.length_eq_one_iff]
    have := length_inputs_le_one none_eq
    have := List.length_pos_iff.mpr (List.isEmpty_eq_false_iff.mp overRelations.1)
    omega
  rw [single] at shapes
  rcases List.forall₂_cons_left_iff.mp shapes with ⟨node, _, shape, none, rfl⟩
  cases List.forall₂_nil_left_iff.mp none
  have returns (root : TransNode Unit) (isRoot : rootNode [] [root] = pure root) :
      Returns (rootNode [] [root]) curId fun root' next =>
        next = curId ∧ root'.ids = [root].flatMap TransNode.ids := by
    rw [isRoot]
    exact .pure ⟨rfl, (List.flatMap_singleton TransNode.ids root).symm⟩
  rw [onlySubquery, single]
  cases tree with
  | node opType rtIndex larg rarg =>
    rcases shape with ⟨info, children, rfl⟩
    exact .of_returns (by simp) (returns _ rfl)
  | ref rtindex =>
    simp only [InputShape, EntryShape] at shape
    split at shape
    · next isSubquery =>
        rcases shape with ⟨isStatic, root, rfl⟩
        simp only [isSubquery, if_true, Option.mem_def, Option.some.injEq, forall_eq']
        by_cases first : rtindex = 1
        · rw [first]
          exact .of_returns rfl (returns _ rfl)
        · refine ⟨fun isFirst => absurd isFirst first, fun _ => ⟨.crash, ?_⟩⟩
          rw [rootNode]
          · rfl
          · simp
          · simpa using first
    · next isRelation =>
        rcases shape with ⟨info, children, rfl⟩
        exact .of_returns (by simp [isRelation]) (returns _ rfl)

theorem subqueries_iff {query : Query} (overRelations : OverRelations query) {P : Query → Prop} :
    (∀ rtindex ∈ (inputs query).flatMap InputTree.refs,
        ∀ rte ∈ rtFetch query.rtable rtindex, ∀ sub, rte.kind = .subquery sub → P sub) ↔
      ∀ rte ∈ query.rtable, ∀ sub, rte.kind = .subquery sub → P sub := by
  constructor
  · intro holds rte member sub kind
    rcases List.mem_iff_getElem?.mp member with ⟨position, found⟩
    have isRef := overRelations.2.2.2 (rte, 1 + position)
      (List.mk_add_mem_zipIdx_iff_getElem?.mpr found)
      (by simp [RangeTblEntry.subquery?, kind])
    rw [Nat.add_comm] at isRef
    exact holds _ isRef rte found sub kind
  · intro holds rtindex _ rte fetched
    cases rtindex with
    | zero => simp [rtFetch] at fetched
    | succ position => exact holds rte (List.mem_of_getElem? fetched)

/-- A query node is analysed exactly if its parts are. -/
theorem decides_analyseOneQueryNode {fuel : Nat} {query : Query}
    (overRelations : query.Everywhere OverRelations) (enough : query.size ≤ fuel)
    (rtIndex : Option Nat) (curId : Nat) :
    Decides (analyseOneQueryNode cat isCast fuel query rtIndex) curId
      (query.Everywhere (Analysable cat isCast)) fun node next =>
        Numbered curId node.ids next ∧ ∃ isStatic root, node = .provInfo isStatic rtIndex root := by
  induction fuel generalizing query rtIndex curId with
  | zero =>
    rw [query.size_eq] at enough
    omega
  | succ fuel ih =>
    rw [Query.everywhere_iff] at overRelations
    rw [analyseOneQueryNode, Query.everywhere_iff, ← subqueries_iff overRelations.1, analysable_iff]
    cases ops_eq : operators cat isCast query with
    | none => exact .throw (by simp)
    | some ops =>
      have entries (rtindex : Nat)
          (isRef : rtindex ∈ (inputs query).flatMap InputTree.refs) (curId : Nat) :=
        decides_analyseRte (overRelations.1.2.2.1 rtindex isRef)
          (fun rte member sub kind => ih (overRelations.2 rte member sub kind)
            (by have := Query.size_lt_of_mem member kind; omega)) curId
      have condition (P Q : Prop) :
          (∃ ops', some ops = some ops' ∧ (ops' = [] → P)) ∧ Q ↔ Q ∧ (ops = [] → P) := by
        simp [and_comm]
      refine Decides.mono ?_ (condition _ _) fun _ _ _ holds => holds
      refine (returns_makeChain ops curId).bind_decides ?_
      rintro chain middle ⟨length, chainIds⟩
      refine (decides_analyseInputs entries middle).bind ?_
      rintro - items last ⟨itemIds, shapes⟩
      cases chain with
      | nil =>
        cases List.length_eq_zero_iff.mp length.symm
        refine Decides.mono
          ((decides_rootNode_nil overRelations.1 ops_eq shapes last).bind_returns ?_)
          (by simp) fun _ _ _ holds => holds
        rintro - root _ ⟨rfl, ids⟩
        refine .pure ⟨?_, _, _, rfl⟩
        have numbered := chainIds.append itemIds
        rwa [List.map_nil, List.nil_append, ← ids] at numbered
      | cons info rest =>
        refine .of_returns (fun none_eq => by simp [none_eq] at length) ?_
        refine (returns_rootNode info rest items last).bind ?_
        rintro root _ ⟨rfl, ids⟩
        refine .pure ⟨?_, _, _, rfl⟩
        have numbered := chainIds.append itemIds
        rwa [← ids] at numbered

end QueryNodes

/-! ## The sets -/

section Sets

variable {numNodes : Nat}

theorem zeroPadded_union {left right : OpSet numNodes} (paddedLeft : left.val.ZeroPadded)
    (paddedRight : right.val.ZeroPadded) :
    (left.union right).val.ZeroPadded :=
  zeroPadded_varBitOr (left.property.trans right.property.symm) paddedLeft paddedRight

theorem foldl_union {own : OpSet numNodes} {sets : List (OpSet numNodes)}
    (padded : own.val.ZeroPadded) (allPadded : ∀ set ∈ sets, set.val.ZeroPadded) :
    (sets.foldl OpSet.union own).val.ZeroPadded ∧
      (sets.foldl OpSet.union own).val.elements =
        own.val.elements ∪ (sets.map fun set => set.val.elements).foldr (· ∪ ·) ∅ := by
  induction sets generalizing own with
  | nil => exact ⟨padded, (Finset.union_empty _).symm⟩
  | cons set rest ih =>
    rw [List.forall_mem_cons] at allPadded
    have same := own.property.trans set.property.symm
    rcases ih (zeroPadded_union padded allPadded.1) allPadded.2 with
      ⟨paddedRest, elements⟩
    refine ⟨paddedRest, elements.trans ?_⟩
    rw [OpSet.union, elements_varBitOr same padded allPadded.1, List.map_cons, List.foldr_cons,
      Finset.union_assoc]

theorem isStatic_of_staticWith {opType : SubOperationType} {children : List (TransNode Unit)}
    (isStatic : staticWith opType (children.map TransNode.isStatic) = true) :
    ∀ child ∈ contributing opType children, child.isStatic = true := by
  rw [contributing]
  split
  · next isExcept =>
      rw [isExcept] at isStatic
      cases children with
      | nil => simp
      | cons child rest => simpa [staticWith] using isStatic
  · next notExcept =>
      have all : (children.map TransNode.isStatic).all id = true := by
        unfold staticWith at isStatic
        split at isStatic <;> simp_all
      simpa using all

theorem map_contributing {β γ : Type} (f : β → γ) (opType : SubOperationType)
    (children : List β) :
    (contributing opType children).map f = contributing opType (children.map f) := by
  rw [contributing, contributing]
  split
  · rw [List.map_take]
  · rfl

theorem contributing_subset {β : Type} (opType : SubOperationType) (children : List β) :
    contributing opType children ⊆ children := by
  rw [contributing]
  split
  · exact List.take_subset 1 children
  · exact fun _ member => member

theorem TransNode.contributingIds_subInfo {α : Type} (info : TransSubInfo α)
    (children : List (TransNode α)) :
    (TransNode.subInfo info children).contributingIds =
      insert info.id (((contributing info.opType children).map
        TransNode.contributingIds).foldr (· ∪ ·) ∅) := by
  rw [map_contributing]
  exact TransNode.fold_subInfo _ _ info children

/-- The sets of a tree of operators with identifiers up to `numNodes`. -/
structure HasSets (tree : TransNode (OpSet numNodes)) : Prop where
  padded : tree.set.val.ZeroPadded
  static : tree.isStatic = true → tree.set.val.elements = tree.contributingIds
  sets : tree.Everywhere HasSet

theorem isStatic_computeSets (node : TransNode Unit) :
    (computeSets numNodes node).isStatic = node.isStatic := by
  cases node <;> rfl

theorem checkStatic_subInfo (info : TransSubInfo Unit) (children : List (TransNode Unit)) :
    checkStatic (.subInfo info children) =
      .subInfo { info with
        isStatic := staticWith info.opType ((children.map checkStatic).map TransNode.isStatic) }
        (children.map checkStatic) :=
  TransNode.fold_subInfo _ _ info children

theorem computeSets_subInfo (info : TransSubInfo Unit) (children : List (TransNode Unit)) :
    computeSets numNodes (.subInfo info children) =
      .subInfo { info with setForNode := setOfOperator info (children.map (computeSets numNodes)) }
        (children.map (computeSets numNodes)) :=
  TransNode.fold_subInfo _ _ info children

theorem ids_computeSets (node : TransNode Unit) :
    (computeSets numNodes (checkStatic node)).ids = node.ids := by
  induction node with
  | provInfo _ _ _ ih => exact ih
  | subInfo info children ih =>
    rw [checkStatic_subInfo, computeSets_subInfo, TransNode.ids_subInfo, TransNode.ids_subInfo,
      List.flatMap_map, List.flatMap_map]
    exact congrArg _ (List.flatMap_congr ih)

/-- The set of an operator, from the sets of its inputs. -/
theorem setOfOperator_spec {info : TransSubInfo Unit} {children : List (TransNode (OpSet numNodes))}
    (bounds : 1 ≤ info.id ∧ info.id ≤ numNodes) (below : ∀ child ∈ children, HasSets child)
    (static :
      info.isStatic = true → ∀ child ∈ contributing info.opType children, child.isStatic = true) :
    (setOfOperator info children).val.ZeroPadded ∧
      (setOfOperator info children).val.elements =
        if info.isStatic then
          insert info.id
            (((contributing info.opType children).map TransNode.contributingIds).foldr (· ∪ ·) ∅)
        else {info.id} := by
  have padded := zeroPadded_generateVarbitSetElem bounds.1 bounds.2
  have elements := elements_generateVarbitSetElem bounds.1 bounds.2
  rw [setOfOperator]
  split
  · next isStatic =>
      have isBelow (child : TransNode (OpSet numNodes))
          (member : child ∈ contributing info.opType children) : HasSets child :=
        below child (contributing_subset _ _ member)
      have union := @foldl_union numNodes ⟨generateVarbitSetElem numNodes info.id, rfl⟩
        ((contributing info.opType children).map TransNode.set) padded
        (by simpa using fun child member => (isBelow child member).padded)
      refine ⟨union.1, union.2.trans ?_⟩
      have values :
          ((contributing info.opType children).map TransNode.set).map
              (fun set => set.val.elements) =
            (contributing info.opType children).map TransNode.contributingIds := by
        rw [List.map_map]
        exact List.map_congr_left fun child member =>
          (isBelow child member).static (static isStatic child member)
      rw [values, Finset.insert_eq]
      exact congrArg (· ∪ _) elements
  · exact ⟨padded, elements⟩

theorem hasSets_computeSets (node : TransNode Unit)
    (bounds : ∀ id ∈ node.ids, 1 ≤ id ∧ id ≤ numNodes) :
    HasSets (computeSets numNodes (checkStatic node)) := by
  induction node with
  | provInfo isStatic rtIndex root ih =>
    have root := ih bounds
    exact ⟨root.padded, fun static => root.static ((isStatic_computeSets _).trans static),
      .provInfo root.sets⟩
  | subInfo info children ih =>
    rw [TransNode.ids_subInfo, List.forall_mem_cons] at bounds
    have below :
        ∀ child ∈ (children.map checkStatic).map (computeSets numNodes), HasSets child := by
      simp only [List.map_map, List.forall_mem_map]
      exact fun child member => ih child member fun id isBelow =>
        bounds.2 id (List.mem_flatMap_of_mem member isBelow)
    rw [checkStatic_subInfo, computeSets_subInfo]
    generalize children.map checkStatic = children at below
    have spec := @setOfOperator_spec numNodes
      { info with isStatic := staticWith info.opType (children.map TransNode.isStatic) }
      (children.map (computeSets numNodes)) bounds.1 below fun isStatic => by
        rw [← map_contributing, List.forall_mem_map]
        intro child member
        exact (isStatic_computeSets child).trans (isStatic_of_staticWith isStatic child member)
    refine ⟨spec.1, fun isStatic => ?_, .subInfo ?_ fun child member => (below child member).sets⟩
    · rw [TransNode.contributingIds_subInfo]
      exact spec.2.trans (if_pos isStatic)
    · rw [HasSet, TransNode.contributingIds_subInfo]
      exact spec

end Sets

theorem mem_range'_one {numNodes id : Nat} (member : id ∈ List.range' 1 numNodes) :
    1 ≤ id ∧ id ≤ numNodes := by
  rw [List.mem_range'_1] at member
  omega

/-- The operators of a query that was analysed. -/
theorem analyseStaticTransProv_spec {cat : Catalog} {isCast : Oid → Bool} {query : Query}
    (overRelations : query.Everywhere OverRelations)
    (holds : query.Everywhere (Analysable cat isCast)) :
    ∃ numNodes root, analyseStaticTransProv cat isCast query = .ok ⟨numNodes, root⟩ ∧
      root.ids = List.range' 1 numNodes ∧ root.Everywhere HasSet := by
  rcases (@decides_analyseOneQueryNode cat isCast query.size query overRelations le_rfl none
    1).returns holds with ⟨info, curId, ran, numbered, -⟩
  have ids : info.ids = List.range' 1 (curId - 1) := by
    rw [numbered.2, Nat.add_sub_cancel_left]
    exact numbered.1
  refine ⟨curId - 1, _, ?_, (ids_computeSets info).trans ids,
    (hasSets_computeSets info fun id member => mem_range'_one (ids ▸ member)).sets⟩
  rw [analyseStaticTransProv, ran]
  rfl

theorem analysable_of_analyseStaticTransProv {cat : Catalog} {isCast : Oid → Bool} {query : Query}
    (overRelations : query.Everywhere OverRelations)
    {result : (numNodes : Nat) × TransNode (OpSet numNodes)}
    (analysed : analyseStaticTransProv cat isCast query = .ok result) :
    query.Everywhere (Analysable cat isCast) := by
  by_contra never
  rcases (@decides_analyseOneQueryNode cat isCast query.size query overRelations le_rfl none
    1).fails never with ⟨error, failed⟩
  rw [analyseStaticTransProv, failed] at analysed
  exact absurd analysed (by simp [Bind.bind, Except.bind])

/-- The analysis is right exactly for the queries whose columns it can read. -/
theorem numbersOperators_iff {cat : Catalog} {isCast : Oid → Bool} {query : Query}
    (overRelations : query.Everywhere OverRelations) :
    NumbersOperators cat isCast query ↔ query.Everywhere (Analysable cat isCast) := by
  constructor
  · rintro ⟨numNodes, root, analysed, -⟩
    exact analysable_of_analyseStaticTransProv overRelations analysed
  · exact analyseStaticTransProv_spec overRelations

/-! ## Examples -/

section Examples

def exampleCatalog : Catalog where
  namespaceName _ := "public"
  relName _ := "t"
  attributes relid := if relid = 2 then [⟨"a", 23, true⟩, ⟨"b", 23, false⟩] else [⟨"a", 23, false⟩]
  equalityOper _ := none
  orderingOper _ := none

def selectFrom (relid attno : Nat) (name : String) : Query where
  rtable := [{ kind := .relation relid }]
  fromlist := [.rangeTblRef 1]
  targetList := [⟨.var 1 attno 23, 1, some name, 0, false⟩]

def exceptOf (left right : Query) : Query where
  rtable := [{ kind := .subquery left }, { kind := .subquery right }]
  setOperations := some (.setOperationStmt .except false [23] (.rangeTblRef 1) (.rangeTblRef 2))
  targetList := [⟨.var 1 1 23, 1, some "a", 0, false⟩]

theorem numbersOperators_except :
    NumbersOperators exampleCatalog (fun _ => false)
      (exceptOf (selectFrom 1 1 "a") (selectFrom 1 1 "a")) := by
  refine (numbersOperators_iff (by decide +kernel)).2 ?_
  decide +kernel

/-- The name of a column behind a dropped one is not found. -/
theorem not_numbersOperators_dropped :
    (selectFrom 2 2 "b").Everywhere OverRelations ∧
      ¬ NumbersOperators exampleCatalog (fun _ => false) (selectFrom 2 2 "b") := by
  refine ⟨by decide +kernel, ?_⟩
  rintro ⟨numNodes, root, analysed, -⟩
  have failed :
      (analyseStaticTransProv exampleCatalog (fun _ => false) (selectFrom 2 2 "b")).isOk =
        false := by
    decide +kernel
  rw [analysed] at failed
  exact absurd failed Bool.true_eq_false.mp

end Examples

end Ldv.Trans
