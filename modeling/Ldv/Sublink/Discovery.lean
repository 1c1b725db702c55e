import Ldv.Library.LabelledTree

/-!
# Discovery of sublinks in an expression

`findSublinksForExpr` searches an expression twice.  The generic tree
walker collects the sublinks, and `extractSublinks` then looks for each of
them again, by structural equality, to record where it stands.  The two
searches descend into different fields of some kinds of nodes.

A node has a kind, a label for the scalar fields that `equal` compares,
and children in named fields.  The query below a sublink is not searched,
so the type of these queries is a parameter.
-/

namespace Ldv.Sublink.Discovery

open LabelledTree

/-- The kinds of nodes in analyzed expressions, other than sublinks. -/
inductive NodeTag where
  | var
  | const
  | param
  | coerceToDomainValue
  | caseTestExpr
  | setToDefault
  | currentOfExpr
  | aggref
  | arrayRef
  | funcExpr
  | opExpr
  | distinctExpr
  | nullIfExpr
  | scalarArrayOpExpr
  | boolExpr
  | fieldSelect
  | fieldStore
  | relabelType
  | coerceViaInOut
  | arrayCoerceExpr
  | convertRowtypeExpr
  | caseExpr
  | caseWhen
  | arrayExpr
  | rowExpr
  | rowCompareExpr
  | coalesceExpr
  | minMaxExpr
  | xmlExpr
  | nullTest
  | booleanTest
  | coerceToDomain
deriving DecidableEq, Repr

/-- The fields that hold the children of a node. -/
inductive Field where
  | arg
  | args
  | expr
  | result
  | defresult
  | refupperindexpr
  | reflowerindexpr
  | refexpr
  | refassgnexpr
  | newvals
  | elements
  | largs
  | rargs
  | namedArgs
  | testexpr
deriving DecidableEq, Repr

/-- The fields that `expression_tree_walker` visits, in its order. -/
def NodeTag.walked : NodeTag → List Field
  | .var | .const | .param | .coerceToDomainValue | .caseTestExpr
  | .setToDefault | .currentOfExpr => []
  | .aggref | .funcExpr | .opExpr | .distinctExpr | .nullIfExpr
  | .scalarArrayOpExpr | .boolExpr | .rowExpr | .coalesceExpr
  | .minMaxExpr => [.args]
  | .arrayRef => [.refupperindexpr, .reflowerindexpr, .refexpr, .refassgnexpr]
  | .fieldSelect | .relabelType | .coerceViaInOut | .arrayCoerceExpr
  | .convertRowtypeExpr | .nullTest | .booleanTest | .coerceToDomain => [.arg]
  | .fieldStore => [.arg, .newvals]
  | .caseExpr => [.arg, .args, .defresult]
  | .caseWhen => [.expr, .result]
  | .arrayExpr => [.elements]
  | .rowCompareExpr => [.largs, .rargs]
  | .xmlExpr => [.namedArgs, .args]

/-- The fields that `extractSublinks` visits, in its order. -/
def NodeTag.searched : NodeTag → List Field
  | .aggref | .funcExpr | .opExpr | .distinctExpr | .nullIfExpr
  | .scalarArrayOpExpr | .boolExpr | .rowExpr | .coalesceExpr
  | .minMaxExpr => [.args]
  | .fieldSelect | .relabelType | .coerceViaInOut | .arrayCoerceExpr
  | .convertRowtypeExpr | .nullTest | .booleanTest | .coerceToDomain => [.arg]
  | .caseExpr => [.args]
  | .caseWhen => [.expr, .result]
  | .arrayExpr => [.elements]
  | .xmlExpr => [.args, .namedArgs]
  | .currentOfExpr | .var | .const | .param | .fieldStore | .caseTestExpr
  | .coerceToDomainValue | .setToDefault | .arrayRef | .rowCompareExpr => []

/-- The kind of a node with the scalar fields compared by `equal`. -/
inductive Kind (Label Sub : Type) where
  | node (tag : NodeTag) (label : Label)
  | subLink (label : Label) (subselect : Sub)
deriving DecidableEq

/-- Expression nodes over labels `Label` and sublink queries `Sub`. -/
abbrev Node (Label Sub : Type) := Tree (Kind Label Sub) Field

abbrev Args (Label Sub : Type) := Forest (Kind Label Sub) Field

variable {Label Sub : Type}

namespace Kind

def walked : Kind Label Sub → List Field
  | .node tag _ => tag.walked
  | .subLink _ _ => [.testexpr]

def searched : Kind Label Sub → List Field
  | .node tag _ => tag.searched
  | .subLink _ _ => [.testexpr]

def isSubLink : Kind Label Sub → Bool
  | .node _ _ => false
  | .subLink _ _ => true

def label : Kind Label Sub → Label
  | .node _ label => label
  | .subLink label _ => label

def isCaseWhen : Kind Label Sub → Bool
  | .node tag _ => tag = .caseWhen
  | .subLink _ _ => false

/--
The children that parse analysis puts into a field.  The branches of CASE
are the `caseWhen` nodes.  The test of a sublink compares rows by operators,
so that it is not itself a sublink.
-/
def accepts (kind : Kind Label Sub) (field : Field) (child : Node Label Sub) :
    Bool :=
  match kind with
  | .node tag _ =>
    decide (field ∈ tag.walked) && (child.kind.isCaseWhen == (tag == .caseExpr && field == .args))
  | .subLink _ _ =>
    decide (field = .testexpr) && !child.kind.isSubLink && !child.kind.isCaseWhen

end Kind

/-- An expression of a target list or a WHERE, ON, GROUP BY or HAVING clause. -/
structure Expression (Label Sub : Type) where
  root : Node Label Sub
  analyzed : root.check Kind.accepts = true

/-- A sublink node as the walker collects it. -/
structure SubLink (Label Sub : Type) where
  label : Label
  testexpr : Args Label Sub
  subselect : Sub
deriving DecidableEq

def SubLink.toNode (sublink : SubLink Label Sub) : Node Label Sub :=
  .node (.subLink sublink.label sublink.subselect) sublink.testexpr

/-- The selectors of one field after the other. -/
def fieldSelectors (fields : List Field) : List (Field → Bool) :=
  fields.map fun field other => decide (other = field)

theorem exists_fieldSelectors_iff {fields : List Field} {field : Field} :
    (∃ selects ∈ fieldSelectors fields, selects field = true) ↔ field ∈ fields := by
  simp [fieldSelectors]

theorem fieldSelectors_apart (kind : Kind Label Sub) :
    (fieldSelectors kind.walked).Pairwise fun left right =>
      ∀ field, left field = true → right field = false := by
  have nodup : kind.walked.Nodup := by
    cases kind with
    | node tag label => cases tag <;> simp [Kind.walked, NodeTag.walked]
    | subLink label subselect => simp [Kind.walked]
  refine List.pairwise_map.2 (nodup.imp ?_)
  intro left right different field isLeft
  rw [of_decide_eq_true isLeft]
  exact decide_eq_false different

theorem accepts_walked {root : Node Label Sub} (analyzed : root.check Kind.accepts = true)
    {entry : Field × Node Label Sub} (member : entry ∈ root.entries) :
    entry.1 ∈ root.kind.walked ∧ (root.kind.isSubLink = true → entry.2.kind.isSubLink = false) := by
  have accepted := (Tree.check_of_entry analyzed member).1
  cases isKind : root.kind with
  | node tag label =>
    simp only [isKind, Kind.accepts, Bool.and_eq_true, decide_eq_true_eq] at accepted
    exact ⟨accepted.1, fun isSubLink => nomatch isSubLink⟩
  | subLink label subselect =>
    simp only [isKind, Kind.accepts, Bool.and_eq_true, decide_eq_true_eq,
      Bool.not_eq_true'] at accepted
    exact ⟨by simp [Kind.walked, accepted.1.1], fun _ => accepted.1.2⟩

/-! ## The tree walker -/

/-- A sublink found by the walker. -/
structure Occurrence (Label Sub : Type) where
  position : Position
  sublink : SubLink Label Sub
deriving DecidableEq

mutual

/-- The walker `findExprSublinkWalker`, as the list it appends. -/
def findExprSublinkWalker (position : Position) :
    Node Label Sub → List (Occurrence Label Sub)
  | .node (.node tag _) args =>
    inOrder (fieldSelectors tag.walked) (walk position 0 args)
  | .node (.subLink label subselect) testexpr =>
    ⟨position, ⟨label, testexpr, subselect⟩⟩ ::
      inOrder (fieldSelectors [.testexpr]) (walkTest position 0 testexpr)

/-- `expression_tree_walker` visits the children of a node only. -/
def expressionTreeWalker (position : Position) :
    Node Label Sub → List (Occurrence Label Sub)
  | .node (.node tag _) args =>
    inOrder (fieldSelectors tag.walked) (walk position 0 args)
  | .node (.subLink _ _) testexpr =>
    inOrder (fieldSelectors [.testexpr]) (walk position 0 testexpr)

def walk (position : Position) (index : Nat) :
    Args Label Sub → List (Field × List (Occurrence Label Sub))
  | .nil => []
  | .cons field arg rest =>
    (field, findExprSublinkWalker (position ++ [index]) arg) :: walk position (index + 1) rest

/-- For a sublink, the walker goes on with the children of its test. -/
def walkTest (position : Position) (index : Nat) :
    Args Label Sub → List (Field × List (Occurrence Label Sub))
  | .nil => []
  | .cons field arg rest =>
    (field, expressionTreeWalker (position ++ [index]) arg) :: walkTest position (index + 1) rest

end

theorem walk_eq_visit (position : Position) (args : Args Label Sub) :
    walk position 0 args =
      visit (fun index _ => findExprSublinkWalker (position ++ [index]))
        args.entries :=
  eq_visit (walk position) (fun _ => rfl) (fun _ _ _ _ => rfl) args 0

/-- The test of an analyzed sublink is walked as any other node. -/
theorem walkTest_eq {position : Position} :
    ∀ {args : Args Label Sub} {index : Nat},
      (∀ entry ∈ args.entries, entry.2.kind.isSubLink = false) →
      walkTest position index args = walk position index args
  | .nil, _, _ => rfl
  | .cons field arg rest, index, noSubLink => by
    have isNode : arg.kind.isSubLink = false := noSubLink (field, arg) (by simp [Forest.entries])
    have walked : walkTest position (index + 1) rest =
        walk position (index + 1) rest :=
      walkTest_eq fun entry member =>
        noSubLink entry (List.mem_cons_of_mem _ member)
    rcases arg with ⟨kind, args⟩
    cases kind with
    | node tag label =>
      simp [walkTest, walk, walked, expressionTreeWalker, findExprSublinkWalker]
    | subLink label subselect => exact nomatch isNode

/-- The sublinks collected for an expression. -/
def Expression.sublinks (expr : Expression Label Sub) :
    List (Occurrence Label Sub) :=
  findExprSublinkWalker [] expr.root

/-- The sublink a node is, if it is one. -/
def ownSublinks (position : Position) : Node Label Sub → List (Occurrence Label Sub)
  | .node (.node _ _) _ => []
  | .node (.subLink label subselect) testexpr =>
    [⟨position, ⟨label, testexpr, subselect⟩⟩]

theorem mem_ownSublinks {position : Position} {root : Node Label Sub}
    {found : Occurrence Label Sub} :
    found ∈ ownSublinks position root ↔
      found.position = position ∧ root = found.sublink.toNode := by
  rcases root with ⟨kind, args⟩
  rcases found with ⟨place, ⟨label, testexpr, subselect⟩⟩
  cases kind with
  | node tag own => simp [ownSublinks, SubLink.toNode]
  | subLink own query =>
    simp only [ownSublinks, SubLink.toNode, List.mem_singleton,
      Occurrence.mk.injEq, SubLink.mk.injEq, Tree.node.injEq, Kind.subLink.injEq]
    tauto

/-- One step of the walker: the node itself, then its children. -/
theorem findExprSublinkWalker_step {root : Node Label Sub}
    (analyzed : root.check Kind.accepts = true) (position : Position) :
    findExprSublinkWalker position root =
      ownSublinks position root ++
        inOrder (fieldSelectors root.kind.walked)
          (visit (fun index _ => findExprSublinkWalker (position ++ [index])) root.entries) := by
  rcases root with ⟨kind, args⟩
  cases kind with
  | node tag label =>
    rw [findExprSublinkWalker, walk_eq_visit]
    rfl
  | subLink label subselect =>
    have noSubLink : ∀ entry ∈ args.entries, entry.2.kind.isSubLink = false :=
      fun entry member => (accepts_walked analyzed member).2 rfl
    rw [findExprSublinkWalker, walkTest_eq noSubLink, walk_eq_visit]
    rfl

/-- The walker finds the sublinks of the tree. -/
theorem mem_findExprSublinkWalker (root : Node Label Sub) :
    root.check Kind.accepts = true →
    ∀ (position : Position) (found : Occurrence Label Sub),
      found ∈ findExprSublinkWalker position root ↔
        ∃ path steps, found.position = position ++ path ∧
          root.lookup path = some (steps, found.sublink.toNode) := by
  induction root using Tree.childInduction with
  | step root ih =>
  intro analyzed position found
  have below : ∀ entry ∈ root.entries, ∀ place,
      found ∈ findExprSublinkWalker place entry.2 ↔
        ∃ path steps, found.position = place ++ path ∧
          entry.2.lookup path = some (steps, found.sublink.toNode) :=
    fun entry member place => ih entry member (Tree.check_of_entry analyzed member).2 place found
  rw [findExprSublinkWalker_step analyzed, List.mem_append, mem_ownSublinks, mem_inOrder_visit]
  constructor
  · rintro (⟨isHere, isRoot⟩ | ⟨index, entry, isEntry, -, inChild⟩)
    · exact ⟨[], [], by simpa using isHere, by rw [Tree.lookup, isRoot]⟩
    · rcases (below entry (List.mem_of_getElem? isEntry) _).1 inChild
        with ⟨path, steps, isPlace, isNode⟩
      exact ⟨index :: path, _, by simpa using isPlace,
        Tree.lookup_cons_iff.2 ⟨entry, steps, isEntry, isNode, rfl⟩⟩
  · rintro ⟨path, steps, isPlace, isNode⟩
    cases path with
    | nil =>
      simp only [Tree.lookup, Option.some.injEq, Prod.mk.injEq] at isNode
      exact .inl ⟨by simpa using isPlace, isNode.2⟩
    | cons index rest =>
      rcases Tree.lookup_cons_iff.1 isNode with ⟨entry, further, isEntry, isNode, -⟩
      have member := List.mem_of_getElem? isEntry
      refine .inr ⟨index, entry, isEntry,
        exists_fieldSelectors_iff.2 (accepts_walked analyzed member).1, ?_⟩
      exact (below entry member _).2 ⟨rest, further, by simpa using isPlace, isNode⟩

theorem Expression.mem_sublinks (expr : Expression Label Sub) (found : Occurrence Label Sub) :
    found ∈ expr.sublinks ↔
      ∃ steps, expr.root.lookup found.position = some (steps, found.sublink.toNode) := by
  rw [Expression.sublinks, mem_findExprSublinkWalker _ expr.analyzed]
  simp

/-- The walker finds every sublink once. -/
theorem nodup_findExprSublinkWalker (root : Node Label Sub) :
    root.check Kind.accepts = true →
    ∀ position, (findExprSublinkWalker position root).Nodup := by
  induction root using Tree.childInduction with
  | step root ih =>
  intro analyzed position
  have childAnalyzed : ∀ entry ∈ root.entries, entry.2.check Kind.accepts = true :=
    fun entry member => (Tree.check_of_entry analyzed member).2
  have belowPosition : ∀ entry ∈ root.entries, ∀ index,
      ∀ found ∈ findExprSublinkWalker (position ++ [index]) entry.2,
        ∃ path, found.position = position ++ index :: path := by
    intro entry member index found inChild
    rcases (mem_findExprSublinkWalker _ (childAnalyzed entry member) _ _).1 inChild
      with ⟨path, steps, isPlace, -⟩
    exact ⟨path, by simpa using isPlace⟩
  rw [findExprSublinkWalker_step analyzed]
  refine List.nodup_append'.2 ⟨?_, ?_, ?_⟩
  · rcases root with ⟨kind, args⟩
    cases kind with
    | node => simp [ownSublinks]
    | subLink => simp [ownSublinks]
  · refine nodup_inOrder_visit (fieldSelectors_apart root.kind)
      (fun entry member index => ih entry member (childAnalyzed entry member) _)
      (fun found => found.position.getD position.length 0) ?_
    intro entry member index found inChild
    rcases belowPosition entry member index found inChild with ⟨path, isPlace⟩
    simp [isPlace]
  · intro found isOwn inChildren
    rcases mem_inOrder_visit.1 inChildren with ⟨index, entry, isEntry, -, inChild⟩
    rcases belowPosition entry (List.mem_of_getElem? isEntry) index found inChild
      with ⟨path, isPlace⟩
    rw [(mem_ownSublinks.1 isOwn).1] at isPlace
    simp at isPlace

theorem Expression.nodup_sublinks (expr : Expression Label Sub) :
    expr.sublinks.Nodup :=
  nodup_findExprSublinkWalker expr.root expr.analyzed []

/-! ## The search for one sublink -/

section Search

variable [DecidableEq Label] [DecidableEq Sub]

/-- What `makeSublinkInfo` records of the place of a sublink. -/
structure SublinkInfo (Label Sub : Type) where
  sublink : SubLink Label Sub
  subLinkExprPointer : Position
  grandParentExprPointer : Option Position
  parent : Option Position
deriving DecidableEq

mutual

/-- The search `extractSublinks` for a sublink equal to `sublink`. -/
def extractSublinks (parentRef : Position) (grandParentRef : Option Position)
    (sublink : SubLink Label Sub) (parent : Option Position) :
    Node Label Sub → Option (SublinkInfo Label Sub)
  | .node (.node tag _) args =>
    firstInOrder (fieldSelectors tag.searched) (extract parentRef sublink 0 args)
  | .node (.subLink label subselect) testexpr =>
    if sublink = ⟨label, testexpr, subselect⟩ then
      some ⟨⟨label, testexpr, subselect⟩, parentRef, grandParentRef, parent⟩
    else
      firstInOrder (fieldSelectors [.testexpr]) (extract parentRef sublink 0 testexpr)

def extract (position : Position) (sublink : SubLink Label Sub) (index : Nat) :
    Args Label Sub → List (Field × Option (SublinkInfo Label Sub))
  | .nil => []
  | .cons field arg rest =>
    (field, extractSublinks (position ++ [index]) (some position) sublink
      (some position) arg) ::
      extract position sublink (index + 1) rest

end

/-- The information produced for a sublink of an expression. -/
def Expression.info (expr : Expression Label Sub) (sublink : SubLink Label Sub) :
    Option (SublinkInfo Label Sub) :=
  extractSublinks [] none sublink none expr.root

/--
`findSublinksForExpr`: the information for every sublink.  It is read
without a check, so that a sublink without information is an access
through a null pointer.
-/
def Expression.findSublinksForExpr (expr : Expression Label Sub) :
    Option (List (SublinkInfo Label Sub)) :=
  expr.sublinks.mapM fun found => expr.info found.sublink

/-- One step of the search: the node itself, then the searched children. -/
theorem extractSublinks_step (root : Node Label Sub) (parentRef : Position)
    (grandParentRef : Option Position) (sublink : SubLink Label Sub) (parent : Option Position) :
    extractSublinks parentRef grandParentRef sublink parent root =
      if root = sublink.toNode then
        some ⟨sublink, parentRef, grandParentRef, parent⟩
      else
        firstInOrder (fieldSelectors root.kind.searched)
          (visit (fun index _ => extractSublinks (parentRef ++ [index])
            (some parentRef) sublink (some parentRef)) root.entries) := by
  have children (args : Args Label Sub) : extract parentRef sublink 0 args =
      visit (fun index _ => extractSublinks (parentRef ++ [index])
        (some parentRef) sublink (some parentRef)) args.entries :=
    eq_visit (extract parentRef sublink) (fun _ => rfl) (fun _ _ _ _ => rfl) args 0
  rcases root with ⟨kind, args⟩
  cases kind with
  | node tag label =>
    rw [extractSublinks, children, if_neg]
    · rfl
    · simp [SubLink.toNode]
  | subLink label subselect =>
    by_cases same : sublink = ⟨label, args, subselect⟩
    · subst same
      simp [extractSublinks, SubLink.toNode]
    · have different : .node (.subLink label subselect) args ≠ sublink.toNode := by
        intro isNode
        simp only [SubLink.toNode, Tree.node.injEq, Kind.subLink.injEq] at isNode
        exact same (by rw [isNode.1.1, isNode.1.2, isNode.2])
      rw [if_neg different, extractSublinks, if_neg same, children]
      rfl

/-- The search descends along these kinds and fields. -/
def Searched (steps : List (Kind Label Sub × Field)) : Prop :=
  ∀ step ∈ steps, step.2 ∈ step.1.searched

/-- The search returns a sublink that it reaches, with its own place. -/
theorem extractSublinks_sound (root : Node Label Sub) (sublink : SubLink Label Sub) :
    ∀ parentRef grandParentRef parent info,
      extractSublinks parentRef grandParentRef sublink parent root = some info →
      ∃ path steps, info.sublink = sublink ∧
        info.subLinkExprPointer = parentRef ++ path ∧
        info.parent = (if path = [] then parent else some (parentRef ++ path.dropLast)) ∧
        root.lookup path = some (steps, sublink.toNode) ∧ Searched steps := by
  induction root using Tree.childInduction with
  | step root ih =>
  intro parentRef grandParentRef parent info isInfo
  rw [extractSublinks_step] at isInfo
  split_ifs at isInfo with isRoot
  · rcases Option.some.inj isInfo with rfl
    exact ⟨[], [], rfl, by simp, by simp, by rw [Tree.lookup, isRoot], by simp [Searched]⟩
  · rcases exists_of_firstInOrder isInfo with ⟨result, member, isField, isInfo⟩
    rcases mem_visit.1 member with ⟨index, entry, isEntry, rfl⟩
    rcases ih entry (List.mem_of_getElem? isEntry) _ _ _ _ isInfo
      with ⟨path, steps, isSublink, isPlace, isParent, isNode, searched⟩
    refine ⟨index :: path, (root.kind, entry.1) :: steps, isSublink, by simpa using isPlace, ?_,
      Tree.lookup_cons_iff.2 ⟨entry, steps, isEntry, isNode, rfl⟩,
      List.forall_mem_cons.2 ⟨exists_fieldSelectors_iff.1 isField, searched⟩⟩
    rw [isParent]
    cases path with
    | nil => simp
    | cons => simp

/-- The search returns a sublink whenever it reaches an equal one. -/
theorem isSome_extractSublinks (root : Node Label Sub) (sublink : SubLink Label Sub) :
    ∀ parentRef grandParentRef parent path steps,
      root.lookup path = some (steps, sublink.toNode) →
      Searched steps →
      (extractSublinks parentRef grandParentRef sublink parent root).isSome =
        true := by
  induction root using Tree.childInduction with
  | step root ih =>
  intro parentRef grandParentRef parent path steps isNode searched
  rw [extractSublinks_step]
  split_ifs with isRoot
  · rfl
  · cases path with
    | nil =>
      simp only [Tree.lookup, Option.some.injEq, Prod.mk.injEq] at isNode
      exact absurd isNode.2 isRoot
    | cons index rest =>
      rcases Tree.lookup_cons_iff.1 isNode with ⟨entry, further, isEntry, inChild, rfl⟩
      have found := ih entry (List.mem_of_getElem? isEntry)
        (parentRef ++ [index]) (some parentRef) (some parentRef) rest further inChild
        (fun step member => searched step (List.mem_cons_of_mem _ member))
      exact isSome_firstInOrder (mem_visit.2 ⟨index, entry, isEntry, rfl⟩)
        (exists_fieldSelectors_iff.2 (searched _ List.mem_cons_self)) found

theorem Expression.info_sound {expr : Expression Label Sub} {sublink : SubLink Label Sub}
    {info : SublinkInfo Label Sub} (isInfo : expr.info sublink = some info) :
    info.parent = Position.parent info.subLinkExprPointer ∧
      ∃ steps, expr.root.lookup info.subLinkExprPointer =
        some (steps, sublink.toNode) ∧ Searched steps := by
  rcases extractSublinks_sound _ _ _ _ _ _ isInfo
    with ⟨path, steps, -, isPlace, isParent, isNode, searched⟩
  rw [List.nil_append] at isPlace
  refine ⟨?_, steps, isPlace ▸ isNode, searched⟩
  rw [isParent, isPlace]
  cases path with
  | nil => rfl
  | cons => simp [Position.parent]

/-! ## Agreement of the two searches -/

/--
The sublinks that the walker finds are those for which the search produces
information, each once, and the information is that of the sublink's own
place and direct parent.
-/
def Expression.DiscoveryAgrees (expr : Expression Label Sub) : Prop :=
  expr.sublinks.Nodup ∧
  (∀ sublink, (∃ position, ⟨position, sublink⟩ ∈ expr.sublinks) ↔
    (expr.info sublink).isSome = true) ∧
  ∀ found ∈ expr.sublinks, ∃ info, expr.info found.sublink = some info ∧
    info.subLinkExprPointer = found.position ∧
    info.parent = found.position.parent

/--
No sublink is below a field that the search skips: the argument and the
ELSE result of CASE, the sides of a row comparison, the parts of an array
reference and those of a field assignment.
-/
def Expression.NothingSkipped (expr : Expression Label Sub) : Prop :=
  ∀ position steps sublink,
    expr.root.lookup position = some (steps, SubLink.toNode sublink) →
    Searched steps

/-- No sublink stands at two places of the expression. -/
def Expression.SublinksDistinct (expr : Expression Label Sub) : Prop :=
  ∀ left right leftSteps rightSteps sublink,
    expr.root.lookup left = some (leftSteps, SubLink.toNode sublink) →
    expr.root.lookup right = some (rightSteps, SubLink.toNode sublink) →
    left = right

theorem Expression.exists_info {expr : Expression Label Sub} (nothingSkipped : expr.NothingSkipped)
    (distinct : expr.SublinksDistinct) {found : Occurrence Label Sub}
    (member : found ∈ expr.sublinks) :
    ∃ info, expr.info found.sublink = some info ∧
      info.subLinkExprPointer = found.position ∧
      info.parent = found.position.parent := by
  rcases (expr.mem_sublinks found).1 member with ⟨steps, isNode⟩
  have isSome := isSome_extractSublinks expr.root found.sublink [] none none
    found.position steps isNode (nothingSkipped _ _ _ isNode)
  rcases Option.isSome_iff_exists.1 isSome with ⟨info, isInfo⟩
  rcases Expression.info_sound isInfo with ⟨isParent, ownSteps, ownNode, -⟩
  have isPlace := distinct _ _ _ _ _ ownNode isNode
  exact ⟨info, isInfo, isPlace, by rw [isParent, isPlace]⟩

/-- The two searches agree on the trees without skipped or equal sublinks. -/
theorem Expression.discoveryAgrees_iff (expr : Expression Label Sub) :
    expr.DiscoveryAgrees ↔ expr.NothingSkipped ∧ expr.SublinksDistinct := by
  constructor
  · rintro ⟨-, -, recorded⟩
    constructor
    · intro position steps sublink isNode
      have member : ⟨position, sublink⟩ ∈ expr.sublinks := (expr.mem_sublinks _).2 ⟨steps, isNode⟩
      rcases recorded _ member with ⟨info, isInfo, isPlace, -⟩
      rcases (Expression.info_sound isInfo).2 with ⟨ownSteps, ownNode, searched⟩
      rw [isPlace, isNode] at ownNode
      rcases Prod.mk.inj (Option.some.inj ownNode) with ⟨rfl, -⟩
      exact searched
    · intro left right leftSteps rightSteps sublink isLeft isRight
      rcases recorded ⟨left, sublink⟩ ((expr.mem_sublinks _).2 ⟨leftSteps, isLeft⟩) with
        ⟨info, isInfo, leftPlace, -⟩
      rcases recorded ⟨right, sublink⟩ ((expr.mem_sublinks _).2 ⟨rightSteps, isRight⟩) with
        ⟨other, isOther, rightPlace, -⟩
      rcases Option.some.inj (isInfo.symm.trans isOther) with rfl
      exact leftPlace.symm.trans rightPlace
  · rintro ⟨nothingSkipped, distinct⟩
    refine ⟨expr.nodup_sublinks, fun sublink => ⟨?_, ?_⟩, fun found member =>
      Expression.exists_info nothingSkipped distinct member⟩
    · rintro ⟨position, member⟩
      rcases Expression.exists_info nothingSkipped distinct member with ⟨info, isInfo, -⟩
      rw [isInfo]
      rfl
    · intro isSome
      rcases Option.isSome_iff_exists.1 isSome with ⟨info, isInfo⟩
      rcases (Expression.info_sound isInfo).2 with ⟨steps, isNode, -⟩
      exact ⟨info.subLinkExprPointer, (expr.mem_sublinks _).2 ⟨steps, isNode⟩⟩

theorem Expression.isSome_info_iff (expr : Expression Label Sub) (sublink : SubLink Label Sub) :
    (expr.info sublink).isSome = true ↔
      ∃ position steps, expr.root.lookup position = some (steps, sublink.toNode) ∧
        Searched steps := by
  constructor
  · intro isSome
    rcases Option.isSome_iff_exists.1 isSome with ⟨info, isInfo⟩
    exact ⟨_, (Expression.info_sound isInfo).2⟩
  · rintro ⟨position, steps, isNode, searched⟩
    exact isSome_extractSublinks _ _ _ _ _ _ _ isNode searched

/--
`findSublinksForExpr` succeeds if and only if every sublink has an equal
one that the search reaches.
-/
theorem Expression.isSome_findSublinksForExpr_iff (expr : Expression Label Sub) :
    expr.findSublinksForExpr.isSome = true ↔
      ∀ found ∈ expr.sublinks, ∃ position steps,
        expr.root.lookup position = some (steps, found.sublink.toNode) ∧ Searched steps := by
  simp only [← Expression.isSome_info_iff, Expression.findSublinksForExpr]
  induction expr.sublinks with
  | nil => simp
  | cons found rest ih =>
    rw [List.forall_mem_cons, List.mapM_cons]
    cases isInfo : expr.info found.sublink with
    | none => simp
    | some info =>
      refine Iff.trans ?_ (and_iff_right rfl).symm
      refine Iff.trans ?_ ih
      cases List.mapM (fun found => expr.info found.sublink) rest <;> simp

end Search

/-- `CASE WHEN c THEN r ELSE (SELECT ...) END`, with sublink query 7. -/
def caseElse : Expression Nat Nat where
  root := .node (.node .caseExpr 0)
    (.cons .args (.node (.node .caseWhen 0)
      (.cons .expr (.node (.node .var 1) .nil) (.cons .result (.node (.node .var 2) .nil) .nil)))
    (.cons .defresult (.node (.subLink 0 7) .nil) .nil))
  analyzed := by decide

theorem not_discoveryAgrees_caseElse : ¬ caseElse.DiscoveryAgrees := by
  rintro ⟨-, -, recorded⟩
  have member : ⟨[1], ⟨0, .nil, 7⟩⟩ ∈ caseElse.sublinks := by decide
  rcases recorded _ member with ⟨info, isInfo, -⟩
  have noInfo : caseElse.info ⟨0, .nil, 7⟩ = none := by decide
  rw [noInfo] at isInfo
  exact nomatch isInfo

end Ldv.Sublink.Discovery
