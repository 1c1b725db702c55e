import Ldv.Library.NodeText

/-!
# The text of the provenance nodes

The nodes of the provenance rewriter are stored in view definitions as text,
among the nodes of the database system itself.  Four kinds of them are not
read as they are written: the readers for `SelectionInfo`, `EquivalenceList`
and `CopyMapRelEntry` leave out fields that are written, and that for
`TransSubInfo` does not skip the name of the bit set.  Each of them gets out
of step, and the text cannot be read.
-/

namespace Ldv.Perm

open CText TokenText NodeText

/-- The kinds of nodes which `parseProvNodeString` knows, in its order. -/
inductive ProvKind where
  | sublinkInfo
  | corrVarInfo
  | provInfo
  | selectionInfo
  | equivalenceList
  | pushdownInfo
  | inequalityGraph
  | inequalityGraphNode
  | copyMap
  | copyMapRelEntry
  | attrInclusions
  | inclusionCond
  | copyProvAttrInfo
  | copyMapEntry
  | transProvInfo
  | transSubInfo
  | xsltFuncExpr
  | thisExpr
deriving DecidableEq, Repr

namespace ProvKind

def label : ProvKind → String
  | sublinkInfo => "SUBLINKINFO"
  | corrVarInfo => "CORRVARINFO"
  | provInfo => "PROVINFO"
  | selectionInfo => "SELECTIONINFO"
  | equivalenceList => "EQUIVALENCELIST"
  | pushdownInfo => "PUSHDOWNINFO"
  | inequalityGraph => "INEQUALITYGRAPH"
  | inequalityGraphNode => "INEQUALITYGRAPHNODE"
  | copyMap => "COPYMAP"
  | copyMapRelEntry => "COPYMAPRELENTRY"
  | attrInclusions => "ATTRINCLUSIONS"
  | inclusionCond => "INCLUSIONCOND"
  | copyProvAttrInfo => "COPYPROVATTRINFO"
  | copyMapEntry => "COPYMAPENTRY"
  | transProvInfo => "TRANSPROVINFO"
  | transSubInfo => "TRANSSUBINFO"
  | xsltFuncExpr => "XSLTFUNCEXPR"
  | thisExpr => "THISEXPR"

def all : List ProvKind :=
  [sublinkInfo, corrVarInfo, provInfo, selectionInfo, equivalenceList,
    pushdownInfo, inequalityGraph, inequalityGraphNode, copyMap,
    copyMapRelEntry, attrInclusions, inclusionCond, copyProvAttrInfo,
    copyMapEntry, transProvInfo, transSubInfo, xsltFuncExpr, thisExpr]

end ProvKind

/-- The kind for a label; the reader of that kind is then called. -/
def parseProvNodeString (token : Text) : Option ProvKind :=
  ProvKind.all.find? fun kind => ascii kind.label == token

/-! ## The writers -/

section Formats

variable {Atom : Type}

/-- Enumerations are written as integers. -/
abbrev enum : FieldType Atom := .int

def outSublinkInfo : List (String × FieldType Atom) :=
  [("sublinkPos", .int), ("location", enum), ("category", enum),
    ("aggLoc", enum), ("sublink", .node), ("parent", .node),
    ("exprRoot", .node), ("rootCopy", .node), ("aggOrGroup", .node),
    ("corrVarInfos", .node), ("condRTEs", .node), ("corrRTEs", .node),
    ("targetVar", .node), ("sublinkRTindex", .int),
    ("subLinkJoinQuery", .node), ("leftJoinPos", .int),
    ("rewrittenSublinkQuery", .node)]

def outCorrVarInfo : List (String × FieldType Atom) :=
  [("corrVar", .node), ("vars", .node), ("parent", .node),
    ("parentQuery", .node), ("exprRoot", .node), ("outside", .bool),
    ("refRTE", .node), ("location", enum), ("trueVarLevelsUp", .int),
    ("belowAgg", .bool), ("belowSet", .bool)]

def outProvInfo : List (String × FieldType Atom) :=
  [("provSublinkRewritten", .bool), ("shouldRewrite", .bool),
    ("contribution", enum), ("copyInfo", .node), ("rewriteInfo", .node),
    ("annotations", .node)]

def outSelectionInfo : List (String × FieldType Atom) :=
  [("expr", .node), ("eqExpr", .node), ("vars", .node),
    ("notMovable", .bool), ("derived", .bool), ("rtOrigin", .int)]

def outEquivalenceList : List (String × FieldType Atom) :=
  [("exprs", .node), ("constant", .node)]

def outPushdownInfo : List (String × FieldType Atom) :=
  [("conjuncts", .node), ("equiLists", .node), ("contradiction", .bool)]

def outInequalityGraph : List (String × FieldType Atom) :=
  [("equiLists", .node), ("nodes", .node)]

def outInequalityGraphNode : List (String × FieldType Atom) :=
  [("equis", .node), ("lessThen", .node), ("lessEqThen", .node),
    ("greaterThen", .node), ("greaterEqThen", .node), ("consts", .node)]

def outTransProvInfo : List (String × FieldType Atom) :=
  [("isStatic", .bool), ("root", .node), ("transProvAttrNum", .int), ("rtIndex", .int)]

def outTransSubInfo : List (String × FieldType Atom) :=
  [("id", .int), ("isStatic", .bool), ("opType", enum),
    ("children", .node), ("setForNode", .bitset), ("rtIndex", .int),
    ("annot", .node)]

def outCopyMap : List (String × FieldType Atom) :=
  [("entries", .node), ("rtindex", .int)]

def outCopyMapRelEntry : List (String × FieldType Atom) :=
  [("relation", .oid), ("refNum", .int), ("attrEntries", .node),
    ("rtindex", .int), ("isStatic", .bool), ("noRewrite", .bool),
    ("child", .node), ("provAttrInfo", .node), ("provAttrs", .node)]

def outCopyMapEntry : List (String × FieldType Atom) :=
  [("baseRelAttr", .node), ("provAttrName", .string),
    ("outAttrIncls", .node), ("isStaticTrue", .bool),
    ("isStaticFalse", .bool)]

def outAttrInclusions : List (String × FieldType Atom) :=
  [("attr", .node), ("inclConds", .node), ("isStatic", .bool)]

def outInclusionCond : List (String × FieldType Atom) :=
  [("inclType", enum), ("existsAttr", .node), ("eqVars", .node), ("cond", .node)]

def outCopyProvAttrInfo : List (String × FieldType Atom) :=
  [("provVar", .node), ("bitSetComposition", .node), ("outAttrNum", .int)]

def outXsltFuncExpr : List (String × FieldType Atom) :=
  [("funcName", .string), ("param", .node)]

def outThisExpr : List (String × FieldType Atom) := [("thisType", .string)]

/-- The fields which the writer of each kind writes. -/
def outProvNode : ProvKind → List (String × FieldType Atom)
  | .sublinkInfo => outSublinkInfo
  | .corrVarInfo => outCorrVarInfo
  | .provInfo => outProvInfo
  | .selectionInfo => outSelectionInfo
  | .equivalenceList => outEquivalenceList
  | .pushdownInfo => outPushdownInfo
  | .inequalityGraph => outInequalityGraph
  | .inequalityGraphNode => outInequalityGraphNode
  | .copyMap => outCopyMap
  | .copyMapRelEntry => outCopyMapRelEntry
  | .attrInclusions => outAttrInclusions
  | .inclusionCond => outInclusionCond
  | .copyProvAttrInfo => outCopyProvAttrInfo
  | .copyMapEntry => outCopyMapEntry
  | .transProvInfo => outTransProvInfo
  | .transSubInfo => outTransSubInfo
  | .xsltFuncExpr => outXsltFuncExpr
  | .thisExpr => outThisExpr

/-! ## The readers -/

def readSublinkInfo : List (String × FieldType Atom) :=
  [("sublinkPos", .int), ("location", enum), ("category", enum),
    ("aggLoc", enum), ("sublink", .node), ("parent", .node),
    ("exprRoot", .node), ("rootCopy", .node), ("aggOrGroup", .node),
    ("corrVarInfos", .node), ("condRTEs", .node), ("corrRTEs", .node),
    ("targetVar", .node), ("sublinkRTindex", .int),
    ("subLinkJoinQuery", .node), ("leftJoinPos", .int),
    ("rewrittenSublinkQuery", .node)]

def readCorrVarInfo : List (String × FieldType Atom) :=
  [("corrVar", .node), ("vars", .node), ("parent", .node),
    ("parentQuery", .node), ("exprRoot", .node), ("outside", .bool),
    ("refRTE", .node), ("location", enum), ("trueVarLevelsUp", .int),
    ("belowAgg", .bool), ("belowSet", .bool)]

def readProvInfo : List (String × FieldType Atom) :=
  [("provSublinkRewritten", .bool), ("shouldRewrite", .bool),
    ("contribution", enum), ("copyInfo", .node), ("rewriteInfo", .node),
    ("annotations", .node)]

def readSelectionInfo : List (String × FieldType Atom) :=
  [("expr", .node), ("vars", .node)]

def readEquivalenceList : List (String × FieldType Atom) := [("exprs", .node)]

def readPushdownInfo : List (String × FieldType Atom) :=
  [("conjuncts", .node), ("equiLists", .node), ("contradiction", .bool)]

def readInequalityGraph : List (String × FieldType Atom) :=
  [("equiLists", .node), ("nodes", .node)]

def readInequalityGraphNode : List (String × FieldType Atom) :=
  [("equis", .node), ("lessThen", .node), ("lessEqThen", .node),
    ("greaterThen", .node), ("greaterEqThen", .node), ("consts", .node)]

def readCopyMap : List (String × FieldType Atom) :=
  [("entries", .node), ("rtindex", .int)]

def readCopyMapRelEntry : List (String × FieldType Atom) :=
  [("relation", .oid), ("refNum", .int), ("attrEntries", .node),
    ("rtindex", .int), ("isStatic", .bool), ("noRewrite", .bool),
    ("provAttrInfo", .node), ("provAttrs", .node)]

def readCopyMapEntry : List (String × FieldType Atom) :=
  [("baseRelAttr", .node), ("provAttrName", .string),
    ("outAttrIncls", .node), ("isStaticTrue", .bool),
    ("isStaticFalse", .bool)]

def readCopyProvAttrInfo : List (String × FieldType Atom) :=
  [("provVar", .node), ("bitSetComposition", .node), ("outAttrNum", .int)]

def readAttrInclusions : List (String × FieldType Atom) :=
  [("attr", .node), ("inclConds", .node), ("isStatic", .bool)]

def readInclusionCond : List (String × FieldType Atom) :=
  [("inclType", enum), ("existsAttr", .node), ("eqVars", .node), ("cond", .node)]

def readTransProvInfo : List (String × FieldType Atom) :=
  [("isStatic", .bool), ("root", .node), ("transProvAttrNum", .int), ("rtIndex", .int)]

def readTransSubInfo : List (String × FieldType Atom) :=
  [("id", .int), ("isStatic", .bool), ("opType", enum),
    ("children", .node), ("setForNode", .bitset), ("rtIndex", .int),
    ("annot", .node)]

def readXsltFuncExpr : List (String × FieldType Atom) :=
  [("funcName", .string), ("param", .node)]

def readThisExpr : List (String × FieldType Atom) := [("thisType", .string)]

/-- The fields which the reader of each kind expects. -/
def readProvNode : ProvKind → List (String × FieldType Atom)
  | .sublinkInfo => readSublinkInfo
  | .corrVarInfo => readCorrVarInfo
  | .provInfo => readProvInfo
  | .selectionInfo => readSelectionInfo
  | .equivalenceList => readEquivalenceList
  | .pushdownInfo => readPushdownInfo
  | .inequalityGraph => readInequalityGraph
  | .inequalityGraphNode => readInequalityGraphNode
  | .copyMap => readCopyMap
  | .copyMapRelEntry => readCopyMapRelEntry
  | .attrInclusions => readAttrInclusions
  | .inclusionCond => readInclusionCond
  | .copyProvAttrInfo => readCopyProvAttrInfo
  | .copyMapEntry => readCopyMapEntry
  | .transProvInfo => readTransProvInfo
  | .transSubInfo => readTransSubInfo
  | .xsltFuncExpr => readXsltFuncExpr
  | .thisExpr => readThisExpr

end Formats

/-! ## The grammar -/

/--
The nodes of the database system, which hold provenance nodes and are held by
them.  They are read as they are written.
-/
structure PostgresNodes (PgKind Atom AtomValue : Type) where
  label : PgKind → String
  format : PgKind → Format (ProvKind ⊕ PgKind) Atom AtomValue
  kindOf : Text → Option PgKind
  atomType : AtomValue → Atom
  outAtom : AtomValue → Text
  readAtom : Atom → Text → Option (AtomValue × Text)
  label_token : ∀ kind, IsToken (ascii (label kind))
  label_ne_nil : ∀ kind, ascii (label kind) ≠ []
  kindOf_label : ∀ kind, kindOf (ascii (label kind)) = some kind
  kindOf_provLabel : ∀ kind : ProvKind, kindOf (ascii kind.label) = none
  format_named : ∀ kind, (format kind).Named
  readAtom_outAtom :
    ∀ value rest, Delimited rest →
      readAtom (atomType value) (32 :: outAtom value ++ rest) = some (value, rest)

variable {PgKind Atom AtomValue : Type}

namespace PostgresNodes

variable (postgres : PostgresNodes PgKind Atom AtomValue)

/-- The provenance nodes are tried after those of the database system. -/
def parseNodeString (token : Text) : Option (ProvKind ⊕ PgKind) :=
  match postgres.kindOf token with
  | some kind => some (.inr kind)
  | none => (parseProvNodeString token).map .inl

def kindLabel : ProvKind ⊕ PgKind → String
  | .inl kind => kind.label
  | .inr kind => postgres.label kind

def written : ProvKind ⊕ PgKind → Format (ProvKind ⊕ PgKind) Atom AtomValue
  | .inl kind => .ofList (outProvNode kind)
  | .inr kind => postgres.format kind

def expected : ProvKind ⊕ PgKind → Format (ProvKind ⊕ PgKind) Atom AtomValue
  | .inl kind => .ofList (readProvNode kind)
  | .inr kind => postgres.format kind

theorem provLabel_plain (kind : ProvKind) :
    (ascii kind.label).all isPlain = true := by
  cases kind <;> decide

theorem provLabel_ne_nil (kind : ProvKind) : ascii kind.label ≠ [] := by
  cases kind <;> decide

theorem parseProvNodeString_label (kind : ProvKind) :
    parseProvNodeString (ascii kind.label) = some kind := by
  cases kind <;> decide

/-- All nodes together. -/
def grammar : Grammar (ProvKind ⊕ PgKind) Atom AtomValue where
  label := postgres.kindLabel
  outFormat := postgres.written
  readFormat := postgres.expected
  kindOf := postgres.parseNodeString
  atomType := postgres.atomType
  outAtom := postgres.outAtom
  readAtom := postgres.readAtom
  label_token kind := by
    cases kind with
    | inl kind => exact isToken_of_all (provLabel_plain kind)
    | inr kind => exact postgres.label_token kind
  label_ne_nil kind := by
    cases kind with
    | inl kind => exact provLabel_ne_nil kind
    | inr kind => exact postgres.label_ne_nil kind
  kindOf_label kind := by
    cases kind with
    | inl kind =>
      rw [kindLabel, parseNodeString, postgres.kindOf_provLabel]
      exact congrArg (Option.map Sum.inl) (parseProvNodeString_label kind)
    | inr kind => rw [kindLabel, parseNodeString, postgres.kindOf_label]
  readAtom_outAtom := postgres.readAtom_outAtom

end PostgresNodes

/-! ## The round trip -/

/-- A provenance node that is read as it is written. -/
def ProvKind.InStep (kind : ProvKind) : Prop :=
  kind ≠ .selectionInfo ∧
    kind ≠ .equivalenceList ∧
    kind ≠ .copyMapRelEntry ∧
    kind ≠ .transSubInfo

instance (kind : ProvKind) : Decidable kind.InStep := by
  unfold ProvKind.InStep
  infer_instance

/-- The nodes of the database system are in step. -/
def KindInStep : ProvKind ⊕ PgKind → Prop
  | .inl kind => kind.InStep
  | .inr _ => True

theorem matched_or_outOfStep (kind : ProvKind) :
    (kind.InStep ∧
      (readProvNode kind : List (String × FieldType Atom)) = outProvNode kind ∧
      ∀ field ∈ (outProvNode kind : List (String × FieldType Atom)), field.2 ≠ .bitset) ∨
    (¬ kind.InStep ∧
      OutOfStep (outProvNode kind : List (String × FieldType Atom)) (readProvNode kind)) := by
  cases kind with
  | selectionInfo =>
    refine Or.inr ⟨by decide, ?_⟩
    simp [OutOfStep, outProvNode, readProvNode, outSelectionInfo, readSelectionInfo]
  | equivalenceList =>
    refine Or.inr ⟨by decide, ?_⟩
    simp [OutOfStep, outProvNode, readProvNode, outEquivalenceList, readEquivalenceList]
  | copyMapRelEntry =>
    refine Or.inr ⟨by decide, ?_⟩
    simp [OutOfStep, outProvNode, readProvNode, outCopyMapRelEntry, readCopyMapRelEntry]
  | transSubInfo =>
    refine Or.inr ⟨by decide, ?_⟩
    simp [OutOfStep, outProvNode, readProvNode, outTransSubInfo, readTransSubInfo]
  | _ =>
    refine Or.inl ⟨by decide, rfl, ?_⟩
    simp [outProvNode, outSublinkInfo, outCorrVarInfo, outProvInfo,
      outPushdownInfo, outInequalityGraph, outInequalityGraphNode,
      outTransProvInfo, outCopyMap, outCopyMapEntry, outAttrInclusions,
      outInclusionCond, outCopyProvAttrInfo, outXsltFuncExpr, outThisExpr]

section RoundTrip

variable (postgres : PostgresNodes PgKind Atom AtomValue)

/-- Reading the text of a node takes all of it and gives the node again. -/
def RoundTrip (node : Node (ProvKind ⊕ PgKind) AtomValue) : Prop :=
  stringToNode postgres.grammar (outNode postgres.grammar node) = some (node, [])

theorem matched_postgres (kind : PgKind) :
    Matched postgres.grammar (.inr kind) :=
  ⟨rfl, postgres.format_named kind⟩

theorem matched_of_inStep {kind : ProvKind} (inStep : kind.InStep) :
    Matched postgres.grammar (.inl kind) := by
  rcases (matched_or_outOfStep kind :
    (_ ∧ (readProvNode kind : List (String × FieldType Atom)) = _ ∧ _) ∨ _)
    with ⟨_, same, named⟩ | ⟨notInStep, _⟩
  · exact ⟨congrArg Format.ofList same, named_ofList named⟩
  · contradiction

theorem rejected_of_not_inStep {kind : ProvKind} (notInStep : ¬ kind.InStep) :
    Rejected postgres.grammar (.inl kind) ∧ ¬ Matched postgres.grammar (.inl kind) := by
  rcases (matched_or_outOfStep kind :
    (_ ∧ (readProvNode kind : List (String × FieldType Atom)) = _ ∧ _) ∨ _)
    with ⟨inStep, _⟩ | ⟨_, outOfStep⟩
  · contradiction
  · constructor
    · exact rejected_of_outOfStep rfl rfl outOfStep
    · rintro ⟨same, named⟩
      exact outOfStep.not_same named same

theorem matched_or_rejected (kind : ProvKind ⊕ PgKind) :
    Matched postgres.grammar kind ∨ Rejected postgres.grammar kind := by
  cases kind with
  | inl kind =>
    by_cases inStep : kind.InStep
    · exact Or.inl (matched_of_inStep postgres inStep)
    · exact Or.inr (rejected_of_not_inStep postgres inStep).1
  | inr kind => exact Or.inl (matched_postgres postgres kind)

theorem matched_iff_inStep (kind : ProvKind ⊕ PgKind) :
    Matched postgres.grammar kind ↔ KindInStep kind := by
  cases kind with
  | inl kind =>
    constructor
    · intro isMatched
      by_contra notInStep
      exact (rejected_of_not_inStep postgres notInStep).2 isMatched
    · exact matched_of_inStep postgres
  | inr kind => exact iff_of_true (matched_postgres postgres kind) trivial

/--
A well-formed node is read back from its text if and only if none of the four
kinds that are out of step occurs in it.
-/
theorem roundTrip_iff_inStep {node : Node (ProvKind ⊕ PgKind) AtomValue}
    (wellFormed : WellFormed postgres.grammar node) :
    RoundTrip postgres node ↔ AllKinds KindInStep node := by
  have same : Matched postgres.grammar = KindInStep :=
    funext fun kind => propext (matched_iff_inStep postgres kind)
  rw [← same]
  exact stringToNode_out_iff (matched_or_rejected postgres) wellFormed

end RoundTrip

/-- The provenance nodes alone. -/
def provNodesAlone : PostgresNodes Empty Empty Empty where
  label := nofun
  format := nofun
  kindOf _ := none
  atomType := nofun
  outAtom := nofun
  readAtom := nofun
  label_token := nofun
  label_ne_nil := nofun
  kindOf_label := nofun
  kindOf_provLabel _ := rfl
  format_named := nofun
  readAtom_outAtom := nofun

theorem wellFormed_provNode {kind : ProvKind}
    {fields : List (String × Field Empty (Node (ProvKind ⊕ Empty) Empty))}
    (names : fields.map Prod.fst =
      (outProvNode kind : List (String × FieldType Empty)).map Prod.fst)
    (types : List.Forall₂ (HasType provNodesAlone.grammar) ((outProvNode kind).map Prod.snd)
      (fields.map Prod.snd))
    (children : ∀ child, .node child ∈ fields.map Prod.snd →
      WellFormed provNodesAlone.grammar child) :
    WellFormed provNodesAlone.grammar (.struct (.inl kind) fields) := by
  have plain : ((outProvNode kind : List (String × FieldType Empty)).all fun field =>
      (ascii field.1).all isPlain) = true := by
    cases kind <;> decide
  refine .struct (conforms_ofList _ names ?_ types) fun name child member => ?_
  · exact fun field member => isToken_of_all (List.all_eq_true.1 plain field member)
  · exact children child (List.mem_map_of_mem member)

/-- The copy map entry of a column. -/
def copyEntryOfColumn : Node (ProvKind ⊕ Empty) Empty :=
  .struct (.inl .copyMapEntry)
    [("baseRelAttr", .node .null), ("provAttrName", .string (some (ascii "prov_r_a"))),
      ("outAttrIncls", .node (.intList [1, 2])),
      ("isStaticTrue", .bool false), ("isStaticFalse", .bool true)]

/-- A `ProvInfo` with an entry for a column and two annotations. -/
def annotatedProvInfo : Node (ProvKind ⊕ Empty) Empty :=
  .struct (.inl .provInfo)
    [("provSublinkRewritten", .bool false), ("shouldRewrite", .bool true),
      ("contribution", .int 1), ("copyInfo", .node copyEntryOfColumn),
      ("rewriteInfo", .node .null),
      ("annotations", .node (.list [.string (ascii "slow (join)"), .string (ascii "b")]))]

theorem wellFormed_copyEntryOfColumn :
    WellFormed provNodesAlone.grammar copyEntryOfColumn := by
  have name : ascii "prov_r_a" ≠ [] := by decide
  refine wellFormed_provNode rfl ?_ ?_
  · simp [HasType, outProvNode, outCopyMapEntry, name]
  · simp [or_imp, forall_and, WellFormed.null, WellFormed.intList]

theorem wellFormed_annotatedProvInfo :
    WellFormed provNodesAlone.grammar annotatedProvInfo := by
  refine wellFormed_provNode rfl ?_ ?_
  · simp [HasType, outProvNode, outProvInfo]
  · have annotations : WellFormed provNodesAlone.grammar
        (.list [.string (ascii "slow (join)"), .string (ascii "b")]) := by
      refine .list (by simp) ?_
      simp only [List.forall_mem_cons]
      exact ⟨.string (by decide), .string (by decide), by simp⟩
    simp [or_imp, forall_and, WellFormed.null, wellFormed_copyEntryOfColumn, annotations]

theorem allKinds_provNode {kind : ProvKind} (inStep : kind.InStep)
    {fields : List (String × Field Empty (Node (ProvKind ⊕ Empty) Empty))}
    (children : ∀ child, .node child ∈ fields.map Prod.snd → AllKinds KindInStep child) :
    AllKinds KindInStep (.struct (.inl kind) fields) :=
  .struct inStep fun _ child member => children child (List.mem_map_of_mem member)

theorem roundTrip_annotatedProvInfo : RoundTrip provNodesAlone annotatedProvInfo := by
  refine (roundTrip_iff_inStep provNodesAlone wellFormed_annotatedProvInfo).mpr ?_
  have entry : AllKinds KindInStep copyEntryOfColumn := by
    refine allKinds_provNode (by decide) ?_
    simp [or_imp, forall_and, AllKinds.null, AllKinds.intList]
  refine allKinds_provNode (by decide) ?_
  have annotations : AllKinds KindInStep
      (.list [.string (ascii "slow (join)"), .string (ascii "b")] :
        Node (ProvKind ⊕ Empty) Empty) :=
    .list (by simp [AllKinds.string])
  simp [or_imp, forall_and, AllKinds.null, entry, annotations]

/-- An `EquivalenceList` without members and constant. -/
def emptyEquivalenceList : Node (ProvKind ⊕ Empty) Empty :=
  .struct (.inl .equivalenceList) [("exprs", .node .null), ("constant", .node .null)]

theorem wellFormed_emptyEquivalenceList :
    WellFormed provNodesAlone.grammar emptyEquivalenceList := by
  refine wellFormed_provNode rfl ?_ ?_
  · simp [HasType, outProvNode, outEquivalenceList]
  · simp [WellFormed.null]

/--
The reader takes the name of the second field for the end of the structure.
-/
theorem not_roundTrip_emptyEquivalenceList :
    WellFormed provNodesAlone.grammar emptyEquivalenceList ∧
      ¬ RoundTrip provNodesAlone emptyEquivalenceList := by
  refine ⟨wellFormed_emptyEquivalenceList, fun roundTrip => ?_⟩
  have all :=
    (stringToNode_out_iff (matched_or_rejected provNodesAlone)
      wellFormed_emptyEquivalenceList).mp roundTrip
  cases all with
  | struct isMatched _ =>
    exact
      (rejected_of_not_inStep provNodesAlone
        (by decide : ¬ ProvKind.InStep .equivalenceList)).2 isMatched

end Ldv.Perm
