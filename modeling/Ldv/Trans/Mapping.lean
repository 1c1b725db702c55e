import Ldv.Library.CText
import Ldv.Trans.Operators

/-!
# Mapping provenance

Query nodes and FROM items may carry annotations.  The annotations of a
query are collected with the operators they belong to, and for a row the
texts of annotations are shown whose operators are those of its
transformation provenance.
-/

namespace Ldv.Trans

open Ldv.Sql
open CText

/-- The annotations of a query node and of its range-table entries. -/
inductive Annotated where
  | query (annotations : List Text) (rtable : List (List Text × Option Annotated))

def Annotated.annotations : Annotated → List Text
  | .query annotations _ => annotations

def Annotated.rtable : Annotated → List (List Text × Option Annotated)
  | .query _ rtable => rtable

/--
The annotations written in a query, by the positions of the range-table
entries on the way to a query node or an entry.
-/
structure Annotations where
  node : List Nat → List Text
  entry : List Nat → List Text

mutual

/-- A query with its annotations. -/
def attach (annots : Annotations) (path : List Nat) : Query → Annotated
  | { rtable := rtable, .. } =>
    .query (annots.node path) (attachRtable annots path 1 rtable)

def attachRtable (annots : Annotations) (path : List Nat) :
    Nat → List (RangeTblEntry Query) → List (List Text × Option Annotated)
  | _, [] => []
  | rtindex, rte :: rest =>
    (annots.entry (path ++ [rtindex]), attachRTE annots (path ++ [rtindex]) rte) ::
      attachRtable annots path (rtindex + 1) rest

def attachRTE (annots : Annotations) (path : List Nat) :
    RangeTblEntry Query → Option Annotated
  | { kind := .subquery query, .. } => some (attach annots path query)
  | _ => none

end

def listConcatUnique (list1 list2 : List Text) : List Text :=
  list2.foldl (fun list annot => if annot ∈ list then list else list ++ [annot]) list1

section Gathering

variable {numNodes : Nat}

/-- An operator with its set and the annotations found below it. -/
abbrev AnnotatedNode (numNodes : Nat) := TransNode (OpSet numNodes × List Text)

/-- The annotations of a base relation. -/
def relationAnnotations (query : Annotated) (info : TransSubInfo (OpSet numNodes)) :
    Option (List Text) :=
  if info.opType = .baseRel then
    (info.rtIndex.bind (rtFetch query.rtable)).map Prod.fst
  else some []

/-- An operator with the annotations of its inputs added to its own. -/
def gatheredNode (info : TransSubInfo (OpSet numNodes)) (own : List Text)
    (gathered : List (List Text × AnnotatedNode numNodes)) : List Text × AnnotatedNode numNodes :=
  let annots := (gathered.map Prod.fst).foldl listConcatUnique own
  (annots, .subInfo { info with setForNode := (info.setForNode, annots) } (gathered.map Prod.snd))

/--
The query whose annotations are used for a tree.  The subquery is taken only
if the tree is the root of the query node above.
-/
def queryBelow (query : Annotated) (rtIndex : Option Nat) (isRoot : Bool) : Option Annotated :=
  if isRoot then (rtIndex.bind (rtFetch query.rtable)).bind Prod.snd else some query

/--
The annotations of a tree, and the tree with the annotations of each
operator.  The flag says that the tree is the root of the query node above.
-/
def gatherAnnotations (tree : TransNode (OpSet numNodes)) :
    Annotated → Bool → Option (List Text × AnnotatedNode numNodes) :=
  tree.fold
    (fun info children query _ => do
      let own ← relationAnnotations query info
      let gathered ← children.mapM fun child => child query false
      return gatheredNode info own gathered)
    fun isStatic rtIndex root query isRoot => do
      let newQuery ← queryBelow query rtIndex isRoot
      let (annots, root) ← root newQuery true
      return (listConcatUnique query.annotations annots, .provInfo isStatic rtIndex root)

/-- Adds operators to the bit set of an annotation. -/
def addToBitset (annotations : List Text) (set : OpSet numNodes) (bitsets : List (OpSet numNodes))
    (annot : Text) : List (OpSet numNodes) :=
  match annotations.findIdx? (· = annot) with
  | some listPos => bitsets.modify listPos (·.union set)
  | none => bitsets

def unionBitsets (annotations : List Text) (tree : AnnotatedNode numNodes) :
    List (OpSet numNodes) → List (OpSet numNodes) :=
  tree.fold
    (fun info children bitsets =>
      children.foldl (fun bitsets child => child bitsets)
        (info.setForNode.2.foldl (addToBitset annotations info.setForNode.1) bitsets))
    fun _ _ root => root

def generateMappingBitsets (query : Annotated) (info : TransNode (OpSet numNodes)) :
    Option (List Text × List (OpSet numNodes)) := do
  let (annotations, tree) ← gatherAnnotations info query false
  let empty := List.replicate annotations.length ⟨generateEmptyBitset numNodes, rfl⟩
  return (annotations, unionBitsets annotations tree empty)

/-- The texts of the annotations with their sets. -/
def generateMapString (query : Annotated) (info : TransNode (OpSet numNodes)) :
    Option (List (Text × OpSet numNodes)) := do
  let (annotations, bitSets) ← generateMappingBitsets query info
  return annotations.zip bitSets

def generateMapRep (bitset : VarBit) : List (Text × OpSet numNodes) → Except BitsetError Text
  | [] => return []
  | (string, set) :: rest => do
    let isPart ← bitsetEqual set.val bitset
    let others ← generateMapRep bitset rest
    return if isPart then string ++ others else others

/-! ## Complete representations -/

/-- The query node of a tree: the query itself, or the subquery it is the tree of. -/
def ownQuery (query : Annotated) (rtIndex : Option Nat) : Option Annotated :=
  rtIndex.elim (some query) fun rtindex => (rtFetch query.rtable rtindex).bind Prod.snd

/--
The annotations as they are to be gathered: those of a query node and of its
relations are taken from the query node itself.
-/
def annotationsOf (tree : TransNode (OpSet numNodes)) :
    Annotated → Option (List Text × AnnotatedNode numNodes) :=
  tree.fold
    (fun info children query => do
      let own ← relationAnnotations query info
      let gathered ← children.mapM fun child => child query
      return gatheredNode info own gathered)
    fun isStatic rtIndex root query => do
      let own ← ownQuery query rtIndex
      let (annots, root) ← root own
      return (listConcatUnique own.annotations annots, .provInfo isStatic rtIndex root)

/-- All annotations of a query with the operators they belong to. -/
def annotatedOperators (query : Annotated) (info : TransNode (OpSet numNodes)) :
    Option (List (Text × OpSet numNodes)) := do
  let (annotations, tree) ← annotationsOf info query
  let empty := List.replicate annotations.length ⟨generateEmptyBitset numNodes, rfl⟩
  return annotations.zip (unionBitsets annotations tree empty)

/-- The first occurrence of each annotation that was not seen before. -/
def firstOccurrences : List Text → List (Text × OpSet numNodes) → List (Text × OpSet numNodes)
  | _, [] => []
  | seen, part :: rest =>
    if part.1 ∈ seen then firstOccurrences seen rest
    else part :: firstOccurrences (part.1 :: seen) rest

/-- Each annotation whose operators are all in the bit set, once. -/
def completeRep (bitset : VarBit) (parts : List (Text × OpSet numNodes)) : Text :=
  (firstOccurrences [] parts).flatMap fun part =>
    if part.2.val.elements ⊆ bitset.elements then part.1 else []

/-- The annotations of the query that are to be shown for a bit set are shown. -/
def MapsCompletely (query : Annotated) (info : TransNode (OpSet numNodes)) (bitset : VarBit) :
    Prop :=
  ∃ parts intended, generateMapString query info = some parts ∧
    annotatedOperators query info = some intended ∧
      generateMapRep bitset parts = .ok (completeRep bitset intended)

/-- Annotations with some, but not all of the operators of the bit set are empty. -/
def OnlyEqualSets (query : Annotated) (info : TransNode (OpSet numNodes)) (bitset : VarBit) :
    Prop :=
  ∃ intended, annotatedOperators query info = some intended ∧
    ∀ part ∈ firstOccurrences [] intended,
      part.2.val.elements ⊂ bitset.elements → part.1 = []

/--
The annotations that are looked up in the query of the first argument are
those of the query node itself, which is the other one.
-/
def LooksUp (tree : TransNode (OpSet numNodes)) : Annotated → Bool → Annotated → Prop :=
  tree.fold
    (fun info children used _ query =>
      relationAnnotations used info = relationAnnotations query info ∧
        ∀ child ∈ children, child used false query)
    fun _ rtIndex root used isRoot query =>
      ∃ usedBelow own, queryBelow used rtIndex isRoot = some usedBelow ∧
        ownQuery query rtIndex = some own ∧ used.annotations = own.annotations ∧
          root usedBelow true own

theorem mapM_congr_of_forall {β γ : Type} {f g : β → Option γ} {items : List β}
    (same : ∀ item ∈ items, f item = g item) : items.mapM f = items.mapM g := by
  induction items with
  | nil => rfl
  | cons item items ih =>
    rw [List.forall_mem_cons] at same
    rw [List.mapM_cons, List.mapM_cons, same.1, ih same.2]

theorem LooksUp.gatherAnnotations_eq {tree : TransNode (OpSet numNodes)} {used query : Annotated}
    {isRoot : Bool} (looksUp : LooksUp tree used isRoot query) :
    gatherAnnotations tree used isRoot = annotationsOf tree query := by
  induction tree generalizing used query isRoot with
  | provInfo isStatic rtIndex root ih =>
    obtain ⟨usedBelow, own, isUsed, isOwn, same, below⟩ := looksUp
    rw [gatherAnnotations, annotationsOf, TransNode.fold, TransNode.fold]
    simp only [isUsed, isOwn, same, Option.bind_eq_bind, Option.bind_some]
    exact congrArg (fun gathered => Option.bind gathered _) (ih below)
  | subInfo info children ih =>
    rw [LooksUp, TransNode.fold_subInfo] at looksUp
    have below : (children.map gatherAnnotations).mapM (fun child => child used false) =
        (children.map annotationsOf).mapM fun child => child query := by
      rw [List.mapM_map, List.mapM_map]
      exact mapM_congr_of_forall fun child member =>
        ih child member (looksUp.2 _ (List.mem_map_of_mem member))
    rw [gatherAnnotations, annotationsOf, TransNode.fold_subInfo, TransNode.fold_subInfo,
      looksUp.1]
    exact congrArg (fun gathered : Option _ => (relationAnnotations query info).bind fun own =>
      gathered.bind fun gathered => some (gatheredNode info own gathered)) below

/-- If the annotations are looked up at their places, all of them are collected. -/
theorem LooksUp.generateMapString_eq {query : Annotated} {info : TransNode (OpSet numNodes)}
    (looksUp : LooksUp info query false query) :
    generateMapString query info = annotatedOperators query info := by
  rw [generateMapString, generateMappingBitsets, looksUp.gatherAnnotations_eq, annotatedOperators]
  cases annotationsOf info query <;> rfl

/-! ## The collected sets -/

/-- Invariant of the bit sets: only first positions of annotations are used. -/
structure Collected (annotations : List Text) (bitsets : List (OpSet numNodes)) : Prop where
  length : bitsets.length = annotations.length
  padded : ∀ set ∈ bitsets, set.val.ZeroPadded
  later :
    ∀ position (inside : position < bitsets.length) (isText : position < annotations.length),
      annotations[position] ∈ annotations.take position → bitsets[position].val.elements = ∅

variable {annotations : List Text} {bitsets : List (OpSet numNodes)}

theorem Collected.addToBitset (collected : Collected annotations bitsets) {set : OpSet numNodes}
    (padded : set.val.ZeroPadded) (annot : Text) :
    Collected annotations (addToBitset annotations set bitsets annot) := by
  rw [Trans.addToBitset]
  split
  · next listPos found =>
      refine ⟨by rw [List.length_modify, collected.length], ?_, ?_⟩
      · intro set' member
        rcases List.mem_iff_getElem.mp member with ⟨position, inside, rfl⟩
        rw [List.getElem_modify]
        have inside' : position < bitsets.length := by simpa using inside
        split
        · exact zeroPadded_union (collected.padded _ (List.getElem_mem inside')) padded
        · exact collected.padded _ (List.getElem_mem inside')
      · intro position inside isText isLater
        rw [List.getElem_modify, if_neg]
        · exact collected.later position (by simpa using inside) isText isLater
        · rintro rfl
          rcases List.findIdx?_eq_some_iff_getElem.mp found with ⟨_, isAnnot, first⟩
          rcases List.mem_take_iff_getElem.mp isLater with ⟨earlier, before, same⟩
          refine first earlier (by omega) ?_
          rw [same]
          exact isAnnot
  · exact collected

/-- The sets of all operators have zero padding. -/
def Padded {α : Type} (set : α → VarBit) (tree : TransNode α) : Prop :=
  tree.Everywhere fun info _ => (set info.setForNode).ZeroPadded

/-- The sets computed by the static analysis have zero padding. -/
theorem padded_of_hasSet {tree : TransNode (OpSet numNodes)} (sets : tree.Everywhere HasSet) :
    Padded Subtype.val tree := by
  induction sets with
  | subInfo holds _ ih => exact .subInfo holds.1 ih
  | provInfo _ ih => exact .provInfo ih

theorem foldl_preserves {β γ : Type} {Inv : β → Prop} {f : β → γ → β} {items : List γ}
    (step : ∀ item ∈ items, ∀ state, Inv state → Inv (f state item)) {state : β}
    (holds : Inv state) :
    Inv (items.foldl f state) := by
  induction items generalizing state with
  | nil => exact holds
  | cons item rest ih =>
    rw [List.forall_mem_cons] at step
    exact ih step.2 (step.1 state holds)

theorem collected_unionBitsets {tree : AnnotatedNode numNodes}
    (padded : Padded (fun set => set.1.val) tree) (collected : Collected annotations bitsets) :
    Collected annotations (unionBitsets annotations tree bitsets) := by
  induction padded generalizing bitsets with
  | provInfo _ ih => exact ih collected
  | @subInfo info children holds _ ih =>
    rw [unionBitsets, TransNode.fold_subInfo, List.foldl_map]
    refine foldl_preserves (fun child member _ => ih child member) ?_
    exact foldl_preserves (fun annot _ _ before => before.addToBitset holds annot) collected

theorem padded_gatherAnnotations {tree : TransNode (OpSet numNodes)}
    (padded : Padded Subtype.val tree) {query : Annotated} {isRoot : Bool}
    {gathered : List Text × AnnotatedNode numNodes}
    (isGathered : gatherAnnotations tree query isRoot = some gathered) :
    Padded (fun set => set.1.val) gathered.2 := by
  induction padded generalizing query isRoot gathered with
  | provInfo _ ih =>
    rw [gatherAnnotations, TransNode.fold] at isGathered
    rcases Option.bind_eq_some_iff.mp isGathered with ⟨newQuery, -, isGathered⟩
    rcases Option.bind_eq_some_iff.mp isGathered with ⟨below, isBelow, isGathered⟩
    cases isGathered
    exact .provInfo (ih isBelow)
  | @subInfo info children holds _ ih =>
    rw [gatherAnnotations, TransNode.fold_subInfo] at isGathered
    rcases Option.bind_eq_some_iff.mp isGathered with ⟨own, -, isGathered⟩
    rcases Option.bind_eq_some_iff.mp isGathered with ⟨below, areBelow, isGathered⟩
    cases isGathered
    refine .subInfo holds fun child isChild => ?_
    rcases List.mem_map.mp isChild with ⟨result, isResult, rfl⟩
    rcases Effect.exists_of_mem_mapM areBelow isResult with ⟨_, isFolded, isGathered⟩
    rcases List.mem_map.mp isFolded with ⟨child, isChild, rfl⟩
    exact ih child isChild isGathered

theorem collected_empty (annotations : List Text) :
    Collected annotations
      (List.replicate annotations.length
        (⟨generateEmptyBitset numNodes, rfl⟩ : OpSet numNodes)) where
  length := List.length_replicate
  padded set member := by
    rw [List.eq_of_mem_replicate member]
    exact zeroPadded_generateEmptyBitset numNodes
  later position _ _ _ := by
    rw [List.getElem_replicate]
    exact elements_generateEmptyBitset numNodes

/-- What is known of the annotations and their sets. -/
theorem generateMapString_spec {query : Annotated} {info : TransNode (OpSet numNodes)}
    (padded : Padded Subtype.val info) {parts : List (Text × OpSet numNodes)}
    (generated : generateMapString query info = some parts) :
    ∃ annotations bitsets, parts = annotations.zip bitsets ∧ Collected annotations bitsets := by
  rcases Option.bind_eq_some_iff.mp generated with ⟨⟨annotations, bitsets⟩, collects, zipped⟩
  rcases Option.bind_eq_some_iff.mp collects with ⟨⟨_, tree⟩, gathered, united⟩
  cases united
  exact ⟨_, _, (Option.some.inj zipped).symm,
    collected_unionBitsets (padded_gatherAnnotations padded gathered) (collected_empty _)⟩

/-! ## The representation -/

theorem generateMapRep_eq {bitset : VarBit} (length : bitset.bitlen = numNodes)
    (paddedBitset : bitset.ZeroPadded) {parts : List (Text × OpSet numNodes)}
    (padded : ∀ part ∈ parts, part.2.val.ZeroPadded) :
    generateMapRep bitset parts =
      .ok (parts.flatMap fun part =>
        if part.2.val.elements = bitset.elements then part.1 else []) := by
  induction parts with
  | nil => rfl
  | cons part rest ih =>
    rw [List.forall_mem_cons] at padded
    rw [generateMapRep, bitsetEqual_eq (part.2.property.trans length.symm) padded.1 paddedBitset,
      ih padded.2, List.flatMap_cons]
    by_cases isPart : part.2.val.elements = bitset.elements
    · simp [isPart, Bind.bind, Except.bind]
      rfl
    · simp [isPart, Bind.bind, Except.bind]
      rfl

section Texts

variable
  {β : Type}
  {text : β → Text}
  {p q : β → Prop}
  [DecidablePred p]
  [DecidablePred q]
  {items : List β}

theorem length_flatMap_le (weaker : ∀ item ∈ items, p item → q item) :
    (items.flatMap fun item => if p item then text item else []).length ≤
      (items.flatMap fun item => if q item then text item else []).length := by
  induction items with
  | nil => exact le_rfl
  | cons item rest ih =>
    rw [List.forall_mem_cons] at weaker
    rw [List.flatMap_cons, List.flatMap_cons, List.length_append, List.length_append]
    refine Nat.add_le_add ?_ (ih weaker.2)
    by_cases holds : p item
    · rw [if_pos holds, if_pos (weaker.1 holds)]
    · rw [if_neg holds]
      exact Nat.zero_le _

/-- A weaker test shows the same if the texts it adds are empty. -/
theorem flatMap_eq_iff (weaker : ∀ item ∈ items, p item → q item) :
    (items.flatMap fun item => if p item then text item else []) =
        (items.flatMap fun item => if q item then text item else []) ↔
      ∀ item ∈ items, q item → ¬ p item → text item = [] := by
  induction items with
  | nil => simp
  | cons item rest ih =>
    rw [List.forall_mem_cons] at weaker
    rw [List.flatMap_cons, List.flatMap_cons, List.forall_mem_cons, ← ih weaker.2]
    by_cases holds : p item
    · simp [holds, weaker.1 holds]
    · by_cases holds' : q item
      · have shorter := @length_flatMap_le β text p q _ _ rest weaker.2
        simp only [holds, holds', if_false, if_true, List.nil_append, not_false_iff, forall_const]
        constructor
        · intro same
          have lengths := congrArg List.length same
          rw [List.length_append] at lengths
          have none : text item = [] := List.length_eq_zero_iff.mp (by omega)
          rw [none, List.nil_append] at same
          exact ⟨none, same⟩
        · rintro ⟨none, same⟩
          rw [none, List.nil_append, same]
      · simp [holds, holds']

end Texts

/-- Later occurrences of an annotation have no operators, and show nothing. -/
theorem flatMap_firstOccurrences {elements : Finset Nat} (nonempty : elements.Nonempty)
    {seen : List Text} {parts : List (Text × OpSet numNodes)}
    (later :
      ∀ before part after, parts = before ++ part :: after →
        part.1 ∈ seen ++ before.map Prod.fst → part.2.val.elements = ∅) :
    (firstOccurrences seen parts).flatMap
        (fun part => if part.2.val.elements = elements then part.1 else []) =
      parts.flatMap fun part => if part.2.val.elements = elements then part.1 else [] := by
  induction parts generalizing seen with
  | nil => rfl
  | cons first rest ih =>
    rw [firstOccurrences]
    split
    · next isSeen =>
        have none := later [] first rest rfl (by simpa using isSeen)
        rw [List.flatMap_cons, if_neg (by rw [none]; exact nonempty.ne_empty.symm),
          List.nil_append]
        refine ih fun before part after split isLater => ?_
        refine later (first :: before) part after (by rw [split, List.cons_append]) ?_
        simp only [List.map_cons, List.mem_append, List.mem_cons] at isLater ⊢
        tauto
    · rw [List.flatMap_cons, List.flatMap_cons, ih]
      intro before part after split isLater
      refine later (first :: before) part after (by rw [split, List.cons_append]) ?_
      simp only [List.map_cons, List.mem_append, List.mem_cons] at isLater ⊢
      tauto

/-- Of the annotations collected, exactly those to be shown are shown. -/
theorem generateMapRep_eq_completeRep_iff {query : Annotated} {info : TransNode (OpSet numNodes)}
    (padded : Padded Subtype.val info) {bitset : VarBit} (length : bitset.bitlen = numNodes)
    (paddedBitset : bitset.ZeroPadded) (nonempty : bitset.elements.Nonempty)
    {parts : List (Text × OpSet numNodes)} (generated : generateMapString query info = some parts) :
    generateMapRep bitset parts = .ok (completeRep bitset parts) ↔
      ∀ part ∈ firstOccurrences [] parts,
        part.2.val.elements ⊂ bitset.elements → part.1 = [] := by
  rcases generateMapString_spec padded generated with ⟨annotations, bitsets, rfl, collected⟩
  have paddedParts : ∀ part ∈ annotations.zip bitsets, part.2.val.ZeroPadded :=
    fun part member => collected.padded part.2 (List.of_mem_zip member).2
  rw [generateMapRep_eq length paddedBitset paddedParts, Except.ok.injEq, completeRep,
    ← flatMap_firstOccurrences nonempty, flatMap_eq_iff fun _ _ => Eq.subset]
  · refine forall₂_congr fun part _ => ?_
    rw [ssubset_iff_subset_ne, and_imp]
  · intro before part after split isLater
    have found : (annotations.zip bitsets)[before.length]? = some part := by
      simp [split]
    have earlier : annotations.take before.length = before.map Prod.fst := by
      have firsts := List.map_fst_zip collected.length.ge
      rw [← firsts, ← List.map_take, split, List.take_left]
    rcases List.getElem?_zip_eq_some.mp found with ⟨isText, isSet⟩
    rcases List.getElem?_eq_some_iff.mp isText with ⟨inside, isText⟩
    rcases List.getElem?_eq_some_iff.mp isSet with ⟨inside', isSet⟩
    rw [← isSet]
    refine collected.later before.length inside' inside ?_
    rw [isText, earlier]
    simpa using isLater

/--
If the annotations of an analysed query are looked up at their places, the
representation is complete exactly if no other annotation is to be shown.
-/
theorem mapsCompletely_iff {cat : Perm.Catalog} {isCast : Oid → Bool} {query : Query}
    (overRelations : query.Everywhere OverRelations) {info : TransNode (OpSet numNodes)}
    (analysed : analyseStaticTransProv cat isCast query = .ok ⟨numNodes, info⟩)
    {annots : Annotations}
    (looksUp : LooksUp info (attach annots [] query) false (attach annots [] query))
    {bitset : VarBit} (length : bitset.bitlen = numNodes) (paddedBitset : bitset.ZeroPadded)
    (nonempty : bitset.elements.Nonempty) :
    MapsCompletely (attach annots [] query) info bitset ↔
      OnlyEqualSets (attach annots [] query) info bitset := by
  rcases analyseStaticTransProv_spec overRelations
    (analysable_of_analyseStaticTransProv overRelations analysed) with ⟨_, _, same, -, sets⟩
  cases same.symm.trans analysed
  have shown {parts : List (Text × OpSet numNodes)} :=
    @generateMapRep_eq_completeRep_iff numNodes (attach annots [] query) info
      (padded_of_hasSet sets) bitset length paddedBitset nonempty parts
  rw [MapsCompletely, OnlyEqualSets, ← looksUp.generateMapString_eq]
  constructor
  · rintro ⟨parts, intended, generated, same, complete⟩
    cases generated.symm.trans same
    exact ⟨parts, generated, (shown generated).1 complete⟩
  · rintro ⟨parts, generated, only⟩
    exact ⟨parts, parts, generated, generated, (shown generated).2 only⟩

end Gathering

/-! ## A query on one relation -/

/-- The query `SELECT a FROM r`, whose only operator is the relation. -/
def relationTree : TransNode (OpSet 1) :=
  .provInfo true none (.subInfo
    { id := 1, opType := .baseRel, isStatic := true, rtIndex := some 1,
      setForNode := ⟨generateVarbitSetElem 1 1, rfl⟩ } [])

theorem analysed_relation :
    analyseStaticTransProv exampleCatalog (fun _ => false) (selectFrom 1 1 "a") =
      .ok ⟨1, relationTree⟩ := by
  rfl

theorem nonempty_elements_one : (generateVarbitSetElem 1 1).elements.Nonempty := by
  rw [elements_generateVarbitSetElem le_rfl le_rfl]
  exact Finset.singleton_nonempty 1

/-- The same annotations for every query node, and for every range-table entry. -/
def sameAnnotations (node entry : List Text) : Annotations := ⟨fun _ => node, fun _ => entry⟩

theorem looksUp_relation (node entry : List Text) :
    LooksUp relationTree (attach (sameAnnotations node entry) [] (selectFrom 1 1 "a")) false
      (attach (sameAnnotations node entry) [] (selectFrom 1 1 "a")) :=
  ⟨_, _, rfl, rfl, rfl, rfl, fun _ member => absurd member List.not_mem_nil⟩

/-- An annotation of the relation is shown. -/
theorem mapsCompletely_relation :
    MapsCompletely (attach (sameAnnotations [] [ascii "r"]) [] (selectFrom 1 1 "a")) relationTree
      (generateVarbitSetElem 1 1) := by
  refine (mapsCompletely_iff (by decide +kernel) analysed_relation (looksUp_relation _ _) rfl
    (zeroPadded_generateVarbitSetElem le_rfl le_rfl) nonempty_elements_one).2 ⟨_, rfl, ?_⟩
  decide +kernel

/-- An annotation of the whole query belongs to no operator, and is not shown. -/
theorem not_mapsCompletely_query :
    analyseStaticTransProv exampleCatalog (fun _ => false) (selectFrom 1 1 "a") =
        .ok ⟨1, relationTree⟩ ∧
      (generateVarbitSetElem 1 1).elements.Nonempty ∧
      ¬ MapsCompletely (attach (sameAnnotations [ascii "q"] []) [] (selectFrom 1 1 "a"))
        relationTree (generateVarbitSetElem 1 1) := by
  refine ⟨analysed_relation, nonempty_elements_one, ?_⟩
  rintro ⟨parts, intended, generated, isIntended, shown⟩
  have missing :
      ((generateMapString (attach (sameAnnotations [ascii "q"] []) [] (selectFrom 1 1 "a"))
          relationTree).map fun parts =>
        decide ((generateMapRep (generateVarbitSetElem 1 1) parts).toOption =
          some (completeRep (generateVarbitSetElem 1 1) parts))) = some false := by
    decide +kernel
  rw [(looksUp_relation _ _).generateMapString_eq, isIntended, Option.some_inj] at generated
  rw [(looksUp_relation _ _).generateMapString_eq, isIntended, Option.map_some, generated,
    shown, generated] at missing
  simp [Except.toOption] at missing

end Ldv.Trans
