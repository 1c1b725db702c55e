import Ldv.Library.LinkedList

/-!
# The index of transformation provenance queries

The query for transformation provenance contains the number of an info from
which its result is presented when the query is executed.  The infos are kept
in a linked list.  The infos of cursors are held until the cursor is closed;
those of other queries are dropped when the next statement is rewritten.

A clean-up that drops one of several infos damages the list, and releasing
the hold of a cursor follows null pointers.  `Safe` describes the sequences
of statements for which this does not happen.
-/

namespace Ldv.Perm

open LinkedList

/-- A `TransRepQueryInfo`, without the text of the query. -/
structure QueryInfo (Name : Type*) where
  queryId : BitVec 32
  cursorName : Option Name
  hold : Bool
deriving DecidableEq, Repr

/-- The variables of the index, and the memory of its list. -/
structure QueryIndex (Name : Type*) where
  heap : Heap (QueryInfo Name) := fun _ => none
  fresh : Nat := 0
  transProvQueryIndex : Option (Option Header) := none
  queryId : BitVec 32 := 0

/-- A top-level statement, with its number of transformation queries. -/
inductive TopStatement (Name : Type*) where
  | query (infos : Nat)
  | declareCursor (name : Name) (infos : Nat)
  /-- Closes a cursor, or all of them if no name is given. -/
  | closePortal (name : Option Name)
deriving DecidableEq, Repr

variable {Name : Type*}

/-! ## Clean-up -/

def releaseLoop [DecidableEq Name] (cursorName : Option Name) :
    Nat → Heap (QueryInfo Name) → Option Nat → Except Fault (Heap (QueryInfo Name))
  | 0, _, _ => .error .diverges
  | _ + 1, heap, none => .ok heap
  | fuel + 1, heap, some address => do
    let cell ← load heap (some address)
    match cursorName, cell.value.cursorName with
    | some name, some name' =>
      if name = name' then
        releaseLoop cursorName fuel
          (store heap address { cell with value := { cell.value with hold := false } })
          cell.next
      else
        releaseLoop cursorName fuel heap cell.next
    | _, _ => .error .nullPointer

def releaseHold [DecidableEq Name] (cursorName : Option Name) (index : QueryIndex Name) :
    Except Fault (QueryIndex Name) :=
  match index.transProvQueryIndex with
  | none => .error .nullPointer
  | some queryInfos => do
    let heap ← releaseLoop cursorName (index.fresh + 1) index.heap (first queryInfos)
    return { index with heap }

def listRemoveQueryInfoCell (heap : Heap (QueryInfo Name)) (list : Option Header) (address : Nat)
    (before : Option Nat) :
    Except Fault (Heap (QueryInfo Name) × Option Header) :=
  match list with
  | none => .error .nullPointer
  | some list =>
    if list.length = 1 then
      match list.head with
      | none => .error .nullPointer
      | some head => .ok (free heap head, none)
    else do
      let cell ← load heap (some address)
      let (heap, list) ←
        if some address = list.head then
          pure (heap, { list with head := cell.next })
        else if some address ≠ list.tail then do
          let heap ← setNext heap before none
          pure (heap, { list with tail := before })
        else do
          let heap ← setNext heap before cell.next
          pure (heap, list)
      return (free heap address, some { list with length := list.length - 1 })

/-- The loop over the infos; the macro goes on with the successor of `lc`. -/
def dropLoop :
    Nat → Heap (QueryInfo Name) → Option Header → Option Nat → Option Nat →
      Except Fault (Heap (QueryInfo Name) × Option Header)
  | 0, _, _, _, _ => .error .diverges
  | _ + 1, heap, list, none, _ => .ok (heap, list)
  | fuel + 1, heap, list, some lc, before => do
    let cell ← load heap (some lc)
    if cell.value.hold then
      dropLoop fuel heap list cell.next (some lc)
    else
      let (heap, list) ← listRemoveQueryInfoCell heap list lc before
      if list.isNone then
        return (heap, list)
      else
        let cell ← load heap before
        dropLoop fuel heap list cell.next before

def dropTransProvQueryIndex (index : QueryIndex Name) :
    Except Fault (QueryIndex Name) :=
  match index.transProvQueryIndex with
  | none =>
    .ok { index with queryId := 0, transProvQueryIndex := some none }
  | some queryInfos => do
    let (heap, queryInfos) ←
      dropLoop (index.fresh + 1) index.heap queryInfos (first queryInfos) none
    return { index with heap, transProvQueryIndex := some queryInfos }

/-- What is done for a statement before it is rewritten. -/
def cleanUp [DecidableEq Name]
    (statement : TopStatement Name) (index : QueryIndex Name) :
    Except Fault (QueryIndex Name) :=
  match statement with
  | .closePortal name => do
    let index ← releaseHold name index
    dropTransProvQueryIndex index
  | _ => dropTransProvQueryIndex index

/-! ## Rewriting -/

def generateQueryIndex (cursorName : Option Name) (index : QueryIndex Name) :
    Except Fault (BitVec 32 × QueryIndex Name) :=
  match index.transProvQueryIndex with
  | none => .error .nullPointer
  | some queryInfos => do
    let (heap, header) ←
      append index.heap index.fresh queryInfos
        { queryId := index.queryId
          cursorName
          hold := cursorName.isSome }
    return (index.queryId,
      { heap
        fresh := index.fresh + 1
        transProvQueryIndex := some (some header)
        queryId := index.queryId + 1 })

/-- Rewrites the transformation queries of a statement. -/
def generateQueryIndexes (cursorName : Option Name) :
    Nat → QueryIndex Name → Except Fault (List (BitVec 32) × QueryIndex Name)
  | 0, index => .ok ([], index)
  | infos + 1, index => do
    let (queryId, index) ← generateQueryIndex cursorName index
    let (queryIds, index) ← generateQueryIndexes cursorName infos index
    return (queryId :: queryIds, index)

/-- The numbers in the rewritten statement, and the index afterwards. -/
def rewriteStatement (statement : TopStatement Name) (index : QueryIndex Name) :
    Except Fault (List (BitVec 32) × QueryIndex Name) :=
  match statement with
  | .query infos => generateQueryIndexes none infos index
  | .declareCursor name infos =>
    generateQueryIndexes (some name) infos index
  | .closePortal _ => .ok ([], index)

def provenanceRewriteQuery [DecidableEq Name]
    (statement : TopStatement Name) (index : QueryIndex Name) :
    Except Fault (List (BitVec 32) × QueryIndex Name) := do
  let index ← cleanUp statement index
  rewriteStatement statement index

/-! ## Execution -/

/-- The info a loop over the list ends with. -/
def findLoop (queryId : BitVec 32) :
    Nat → Heap (QueryInfo Name) → Option Nat → Option (QueryInfo Name) →
      Except Fault (Option (QueryInfo Name))
  | 0, _, _, _ => .error .diverges
  | _ + 1, _, none, info => .ok info
  | fuel + 1, heap, some address, _ => do
    let cell ← load heap (some address)
    if cell.value.queryId = queryId then
      return some cell.value
    else
      findLoop queryId fuel heap cell.next (some cell.value)

/-- Whether the info for a number is found when a query is executed. -/
def isFound (index : QueryIndex Name) (queryId : BitVec 32) : Prop :=
  ∃ queryInfos info,
    index.transProvQueryIndex = some queryInfos ∧
      findLoop queryId (index.fresh + 1) index.heap (first queryInfos) none = .ok (some info) ∧
      info.queryId = queryId

/-! ## Histories of statements -/

/-- The list of the index is intact and holds the given infos in order. -/
def Holds (index : QueryIndex Name) (infos : List (QueryInfo Name)) :
    Prop :=
  ∃ list cells,
    index.transProvQueryIndex = some list ∧
      IsList index.heap list cells ∧
      cells.map Prod.snd = infos

/-- The infos of the open cursors, each with its cursor. -/
def cursorInfos (opened : List (Name × BitVec 32)) :
    List (QueryInfo Name) :=
  opened.map fun (name, queryId) =>
    { queryId, cursorName := some name, hold := true }

variable [DecidableEq Name]

/-- The cursors that are open after a statement has been cleaned up for. -/
def openAfterClose (statement : TopStatement Name)
    (opened : List (Name × BitVec 32)) : List (Name × BitVec 32) :=
  match statement with
  | .closePortal (some name) => opened.filter fun cursor => cursor.1 ≠ name
  | .closePortal none => []
  | _ => opened

/-- The cursors that are open when a statement has been executed. -/
def openAfter (statement : TopStatement Name) (queryIds : List (BitVec 32))
    (opened : List (Name × BitVec 32)) : List (Name × BitVec 32) :=
  match statement with
  | .declareCursor name _ => opened ++ queryIds.map fun id => (name, id)
  | _ => openAfterClose statement opened

/--
After each clean-up the index holds exactly the infos of the open cursors,
and while a statement is executed the numbers in it and those of the open
cursors are found.
-/
def Lifecycle :
    List (TopStatement Name) → List (Name × BitVec 32) → QueryIndex Name → Prop
  | [], _, _ => True
  | statement :: statements, opened, index =>
    ∃ cleaned, cleanUp statement index = .ok cleaned ∧
      Holds cleaned (cursorInfos (openAfterClose statement opened)) ∧
      ∃ queryIds index',
        rewriteStatement statement cleaned = .ok (queryIds, index') ∧
          (∀ queryId ∈ queryIds, isFound index' queryId) ∧
          (∀ cursor ∈ openAfter statement queryIds opened, isFound index' cursor.2) ∧
          Lifecycle statements (openAfter statement queryIds opened) index'

/--
The clean-up for a statement does not have to drop one of several infos, and
a cursor is closed only when every info belongs to a cursor.  `cursors` are
the cursors of the infos that are held, `others` is the number of the infos
that are not held.
-/
def SafeStep (statement : TopStatement Name) (started : Bool)
    (cursors : List Name) (others : Nat) : Prop :=
  match statement with
  | .closePortal (some name) =>
    started = true ∧ others = 0 ∧ (name ∉ cursors ∨ cursors = [name])
  | .closePortal none => started = true ∧ others = 0 ∧ cursors = []
  | _ => others = 0 ∨ others = 1 ∧ cursors = []

def cursorsAfter (statement : TopStatement Name) (cursors : List Name) :
    List Name :=
  match statement with
  | .query _ => cursors
  | .declareCursor name infos => cursors ++ List.replicate infos name
  | .closePortal (some name) => cursors.filter (· ≠ name)
  | .closePortal none => []

def othersAfter : TopStatement Name → Nat
  | .query infos => infos
  | _ => 0

/-- All clean-ups of a history are safe. -/
def Safe : List (TopStatement Name) → Bool → List Name → Nat → Prop
  | [], _, _, _ => True
  | statement :: statements, started, cursors, others =>
    SafeStep statement started cursors others ∧
      Safe statements true (cursorsAfter statement cursors) (othersAfter statement)

/-! ## Dropping infos -/

section Drop

variable
  {Name : Type*}
  {heap : Heap (QueryInfo Name)}
  {list : Option Header}
  {start : Option Nat}
  {cells : List (Nat × QueryInfo Name)}

/-- Infos that are held are passed by. -/
theorem dropLoop_held {middle : Option Nat} (segment : Segment heap start cells middle)
    (held : ∀ cell ∈ cells, cell.2.hold = true) (fuel : Nat) (before : Option Nat) :
    dropLoop (fuel + cells.length) heap list start before =
      dropLoop fuel heap list middle ((cells.getLast?.map Prod.fst).or before) := by
  induction cells generalizing start before with
  | nil =>
    rw [show start = middle from segment]
    rfl
  | cons cell cells ih =>
    rcases segment with ⟨rfl, next, isCell, segment⟩
    have isHeld := held cell List.mem_cons_self
    have below := ih segment (fun other member => held other (List.mem_cons_of_mem _ member))
      (some cell.1)
    rw [List.length_cons, ← Nat.add_assoc, dropLoop]
    simp only [load, isCell, bind, Except.bind, isHeld, if_true]
    rw [below, List.getLast?_cons]
    cases cells.getLast? <;> rfl

/-- The first of several infos cannot be dropped. -/
theorem dropLoop_head {header : Header} {cell : Nat × QueryInfo Name}
    (isList : IsList heap (some header) (cell :: cells)) (several : cells ≠ [])
    (dropped : cell.2.hold = false) (fuel : Nat) :
    dropLoop (fuel + 1) heap (some header) (some cell.1) none = .error .nullPointer := by
  rcases isList with ⟨_, segment, _, isLength⟩
  rcases segment with ⟨isHead, next, isCell, _⟩
  have notOne : header.length ≠ 1 := by
    have positive := List.length_pos_iff.mpr several
    rw [isLength, List.length_cons]
    omega
  rw [dropLoop]
  simp [load, isCell, bind, Except.bind, dropped, listRemoveQueryInfoCell,
    notOne, isHead, pure, Except.pure]

/-- The list after one of its infos behind others has been dropped. -/
theorem dropLoop_later {header : Header} {kept after : List (Nat × QueryInfo Name)}
    {last cell : Nat × QueryInfo Name}
    (isList : IsList heap (some header) (kept ++ [last] ++ cell :: after))
    (dropped : cell.2.hold = false) (fuel : Nat) :
    dropLoop (fuel + 2) heap (some header) (some cell.1) (some last.1) =
      .ok (free (store heap last.1 { value := last.2, next := none }) cell.1,
        some
          { head := header.head
            tail := if after = [] then header.tail else some last.1
            length := header.length - 1 }) := by
  rcases isList with ⟨_, segment, isTail, isLength⟩
  rcases segment.outside with ⟨notBefore, notAfter⟩
  rcases segment_append.mp segment with
    ⟨_, front, rfl, next, isCell, behind⟩
  rcases segment_append.mp front with ⟨_, _, rfl, _, isLast, rfl⟩
  have notLast : last.1 ≠ cell.1 := by
    intro same
    simp [same] at notBefore
  have notHead : ¬ some cell.1 = header.head := by
    intro same
    apply notBefore
    cases kept with
    | nil =>
      rw [Option.some.inj (same.trans front.1)]
      simp
    | cons first kept =>
      rw [Option.some.inj (same.trans front.1)]
      simp
  have notOne : header.length ≠ 1 := by
    rw [isLength]
    simp only [List.length_append, List.length_cons]
    omega
  have removed :
      listRemoveQueryInfoCell heap (some header) cell.1 (some last.1) =
        .ok (free (store heap last.1 { value := last.2, next := none }) cell.1,
          some
            { head := header.head
              tail := if after = [] then header.tail else some last.1
              length := header.length - 1 }) := by
    cases after with
    | nil =>
      have isNext : next = none := behind
      have atTail : header.tail = some cell.1 := by simpa using isTail
      simp [listRemoveQueryInfoCell, notOne, load, isCell, bind,
        Except.bind, notHead, atTail, setNext, isLast, isNext, pure,
        Except.pure]
    | cons other after =>
      have notTail : ¬ some cell.1 = header.tail := by
        have someEnd : ∃ atEnd, (other :: after).getLast? = some atEnd :=
          ⟨_, List.getLast?_eq_some_getLast (by simp)⟩
        rcases someEnd with ⟨atEnd, isEnd⟩
        rw [List.getLast?_append, List.getLast?_cons_cons, isEnd] at isTail
        have member : atEnd.1 ∈ (other :: after).map Prod.fst :=
          List.mem_map_of_mem (List.mem_of_getLast? isEnd)
        intro same
        rw [isTail] at same
        exact notAfter (Option.some.inj same ▸ member)
      simp [listRemoveQueryInfoCell, notOne, load, isCell, bind,
        Except.bind, notHead, notTail, setNext, isLast, pure, Except.pure]
  rw [dropLoop]
  simp only [load, isCell, bind, Except.bind, dropped, removed]
  simp [free, store, Function.update_of_ne notLast, dropLoop]

/-- The first info which is not held. -/
theorem exists_first_dropped (dropped : ∃ cell ∈ cells, cell.2.hold = false) :
    ∃ kept cell after,
      cells = kept ++ cell :: after ∧
        (∀ cell ∈ kept, cell.2.hold = true) ∧
        cell.2.hold = false := by
  have found : (cells.find? fun cell => !cell.2.hold).isSome := by
    rw [List.find?_isSome]
    simpa using dropped
  rcases Option.isSome_iff_exists.mp found with ⟨cell, isFirst⟩
  rcases List.find?_eq_some_iff_append.mp isFirst with
    ⟨isDropped, kept, after, split, held⟩
  exact ⟨kept, cell, after, split, by simpa using held, by simpa using isDropped⟩

/-- Dropping one of several infos damages the list, if it ends at all. -/
theorem not_isList_of_dropLoop (isList : IsList heap list cells) (several : 2 ≤ cells.length)
    (dropped : ∃ cell ∈ cells, cell.2.hold = false) {fuel : Nat} (enough : cells.length < fuel)
    {heap' : Heap (QueryInfo Name)} {list' : Option Header}
    (ran : dropLoop fuel heap list (first list) none = .ok (heap', list'))
    (cells' : List (Nat × QueryInfo Name)) :
    ¬ IsList heap' list' cells' := by
  rcases exists_first_dropped dropped with
    ⟨kept, cell, after, rfl, held, isDropped⟩
  cases list with
  | none => simp [IsList] at isList
  | some header =>
    rcases segment_append.mp isList.segment with
      ⟨_, front, rfl, next, isCell, behind⟩
    rcases List.eq_nil_or_concat kept with rfl | ⟨init, last, rfl⟩
    · have notLast : after ≠ [] := by
        rintro rfl
        simp at several
      have isFirst : first (some header) = some cell.1 := front
      rcases fuel with _ | fuel
      · contradiction
      · rw [isFirst, dropLoop_head isList notLast isDropped] at ran
        contradiction
    · rw [List.concat_eq_append] at *
      have isFuel : ∃ rest, fuel = rest + 2 + (init ++ [last]).length := by
        refine ⟨fuel - 2 - (init ++ [last]).length, ?_⟩
        rw [List.length_append, List.length_cons] at enough
        omega
      rcases isFuel with ⟨rest, rfl⟩
      have before : ((init ++ [last]).getLast?.map Prod.fst).or none = some last.1 := by
        simp
      rw [dropLoop_held front held, before, dropLoop_later isList isDropped] at ran
      cases ran
      rintro ⟨_, segment', isTail', isLength'⟩
      by_cases isLast : after = []
      · have atTail : header.tail = some cell.1 := by
          rw [isList.2.2.1, isLast]
          simp
        rw [if_pos isLast, atTail] at isTail'
        rcases Option.map_eq_some_iff.mp isTail'.symm with
          ⟨atEnd, isEnd, same⟩
        rcases segment'.allocated (List.mem_of_getLast? isEnd) with
          ⟨_, allocated⟩
        rw [same, free, Function.update_self] at allocated
        contradiction
      · have whole := isList.segment
        have notKept := whole.outside.1
        rw [List.append_assoc] at whole
        have remaining :=
          (segment_update notKept none).mpr (segment_setNext front whole.outside.1 none).2
        have same := segment'.unique remaining
        rw [same, isList.2.2.2] at isLength'
        have behind := List.length_pos_iff.mpr isLast
        simp only [List.length_append, List.length_cons] at isLength'
        omega

/-- The addresses that are allocated later are free. -/
def Unused (index : QueryIndex Name) : Prop :=
  ∀ address, index.fresh ≤ address → index.heap address = none

variable
  {index : QueryIndex Name}
  {infos : List (QueryInfo Name)}

/-- A clean-up is right if nothing is dropped, or the only info. -/
theorem dropTransProvQueryIndex_holds (holds : Holds index infos) (unused : Unused index)
    (simple : (∀ info ∈ infos, info.hold = true) ∨ infos.length = 1) :
    ∃ cleaned,
      dropTransProvQueryIndex index = .ok cleaned ∧
        Holds cleaned (infos.filter QueryInfo.hold) ∧
        Unused cleaned := by
  rcases holds with ⟨list, cells, isIndex, isList, rfl⟩
  have enough := isList.length_le unused
  by_cases held : ∀ info ∈ cells.map Prod.snd, info.hold = true
  · have passed :
        dropLoop (index.fresh + 1) index.heap list (first list) none = .ok (index.heap, list) := by
      have isFuel : index.fresh + 1 = index.fresh - cells.length + 1 + cells.length := by
        omega
      rw [isFuel, dropLoop_held isList.segment]
      · rfl
      · intro cell member
        exact held cell.2 (List.mem_map_of_mem member)
    refine ⟨{ index with transProvQueryIndex := some list }, ?_, ?_, unused⟩
    · simp only [dropTransProvQueryIndex, isIndex, passed, bind, Except.bind, pure, Except.pure]
    · rw [List.filter_eq_self.mpr held]
      exact ⟨list, cells, rfl, isList, rfl⟩
  · have single := simple.resolve_left held
    rw [List.length_map, List.length_eq_one_iff] at single
    rcases single with ⟨cell, rfl⟩
    have isDropped : cell.2.hold = false := by simpa using held
    cases list with
    | none => simp [IsList] at isList
    | some header =>
      rcases isList with ⟨_, ⟨isHead, next, isCell, _⟩, _, isLength⟩
      have isOne : header.length = 1 := isLength
      refine ⟨{ index with
          heap := free index.heap cell.1
          transProvQueryIndex := some none }, ?_, ?_, ?_⟩
      · simp [dropTransProvQueryIndex, isIndex, first, isHead, dropLoop,
          load, isCell, isDropped, listRemoveQueryInfoCell, isOne, bind,
          Except.bind, pure, Except.pure]
      · refine ⟨none, [], rfl, rfl, ?_⟩
        simp [isDropped]
      · intro address large
        by_cases same : address = cell.1
        · rw [same]
          exact Function.update_self ..
        · exact (Function.update_of_ne same ..).trans (unused address large)

/-- Otherwise the clean-up fails or leaves a damaged list. -/
theorem simple_of_dropTransProvQueryIndex (holds : Holds index infos) (unused : Unused index)
    {cleaned : QueryIndex Name} (ran : dropTransProvQueryIndex index = .ok cleaned)
    {infos' : List (QueryInfo Name)} (intact : Holds cleaned infos') :
    (∀ info ∈ infos, info.hold = true) ∨ infos.length = 1 := by
  rcases holds with ⟨list, cells, isIndex, isList, rfl⟩
  have enough := isList.length_le unused
  by_contra neither
  rw [not_or] at neither
  have dropped : ∃ cell ∈ cells, cell.2.hold = false := by
    by_contra none
    apply neither.1
    intro info member
    rcases List.mem_map.mp member with ⟨cell, isCell, rfl⟩
    by_contra notHeld
    exact none ⟨cell, isCell, by simpa using notHeld⟩
  have several : 2 ≤ cells.length := by
    rcases dropped with ⟨cell, member, _⟩
    have positive := List.length_pos_of_mem member
    have notOne := neither.2
    rw [List.length_map] at notOne
    omega
  rw [dropTransProvQueryIndex, isIndex] at ran
  simp only [bind, Except.bind] at ran
  split at ran
  · contradiction
  · next result isResult =>
      rcases result with ⟨heap', list'⟩
      cases ran
      rcases intact with ⟨list'', cells', isList'', isIntact, _⟩
      cases isList''
      exact not_isList_of_dropLoop isList several dropped
        (Nat.lt_succ_of_le enough) isResult cells' isIntact

end Drop

/-! ## Releasing holds -/

section Release

/-- The info of a closed cursor is not held any more. -/
def released (name : Name) (info : QueryInfo Name) : QueryInfo Name :=
  if info.cursorName = some name then { info with hold := false } else info

variable
  {heap : Heap (QueryInfo Name)}
  {start : Option Nat}
  {cells : List (Nat × QueryInfo Name)}

theorem releaseLoop_cell (name : Name) {address : Nat} {info : QueryInfo Name} {next : Option Nat}
    (isCell : heap address = some { value := info, next }) (named : info.cursorName ≠ none)
    (fuel : Nat) :
    releaseLoop (some name) (fuel + 1) heap (some address) =
      releaseLoop (some name) fuel
        (store heap address { value := released name info, next }) next := by
  rcases Option.ne_none_iff_exists'.mp named with ⟨name', isNamed⟩
  rw [releaseLoop]
  simp only [load, isCell, bind, Except.bind, isNamed, released, Option.some.injEq]
  by_cases same : name = name'
  · simp [same]
  · rw [if_neg same, if_neg (Ne.symm same), store, ← isCell, Function.update_eq_self]

theorem releaseLoop_segment (name : Name) (segment : Segment heap start cells none)
    (named : ∀ cell ∈ cells, cell.2.cursorName ≠ none) {fuel : Nat} (enough : cells.length < fuel) :
    ∃ heap',
      releaseLoop (some name) fuel heap start = .ok heap' ∧
        Segment heap' start (cells.map fun cell => (cell.1, released name cell.2)) none ∧
        ∀ address, address ∉ cells.map Prod.fst → heap' address = heap address := by
  induction cells generalizing heap start fuel with
  | nil =>
    rcases fuel with _ | fuel
    · contradiction
    · rw [show start = none from segment]
      exact ⟨heap, rfl, rfl, fun _ _ => rfl⟩
  | cons cell cells ih =>
    rcases fuel with _ | fuel
    · contradiction
    · have outside := segment.nodup
      rw [List.map_cons, List.nodup_cons] at outside
      rcases segment with ⟨rfl, next, isCell, segment⟩
      rw [releaseLoop_cell name isCell (named cell List.mem_cons_self)]
      rcases ih ((segment_update outside.1 _).mpr segment)
        (fun other member => named other (List.mem_cons_of_mem _ member))
        (Nat.lt_of_succ_lt_succ enough) with
        ⟨heap', ran, segment', unchanged⟩
      refine ⟨heap', ran, ⟨rfl, next, ?_, segment'⟩, ?_⟩
      · rw [unchanged _ outside.1]
        exact Function.update_self ..
      · intro address notCell
        rw [List.map_cons, List.mem_cons, not_or] at notCell
        rw [unchanged address notCell.2]
        exact Function.update_of_ne notCell.1 ..

/-- An info without a cursor cannot be compared with. -/
theorem releaseLoop_unnamed {cursorName : Option Name} (segment : Segment heap start cells none)
    (unnamed : ∃ cell ∈ cells, cursorName = none ∨ cell.2.cursorName = none)
    (fuel : Nat) (heap' : Heap (QueryInfo Name)) :
    releaseLoop cursorName fuel heap start ≠ .ok heap' := by
  induction cells generalizing heap start fuel with
  | nil => simp at unnamed
  | cons cell cells ih =>
    rcases fuel with _ | fuel
    · simp [releaseLoop]
    · have outside := segment.nodup
      rw [List.map_cons, List.nodup_cons] at outside
      rcases segment with ⟨rfl, next, isCell, segment⟩
      by_cases here : cursorName = none ∨ cell.2.cursorName = none
      · rw [releaseLoop]
        simp only [load, isCell, bind, Except.bind]
        rcases here with isNone | isNone
        · simp [isNone]
        · simp [isNone]
      · rw [not_or] at here
        rcases Option.ne_none_iff_exists'.mp here.1 with ⟨name, rfl⟩
        rw [releaseLoop_cell name isCell here.2]
        apply ih
        · exact (segment_update outside.1 _).mpr segment
        · rcases unnamed with ⟨other, member, isNone⟩
          rcases List.mem_cons.mp member with rfl | later
          · simp_all
          · exact ⟨other, later, isNone⟩

variable
  {index : QueryIndex Name}
  {infos : List (QueryInfo Name)}

theorem releaseHold_holds (name : Name) (holds : Holds index infos) (unused : Unused index)
    (named : ∀ info ∈ infos, info.cursorName ≠ none) :
    ∃ index',
      releaseHold (some name) index = .ok index' ∧
        Holds index' (infos.map (released name)) ∧
        Unused index' := by
  rcases holds with ⟨list, cells, isIndex, isList, rfl⟩
  have enough := isList.length_le unused
  rcases releaseLoop_segment name isList.segment
    (fun cell member => named cell.2 (List.mem_map_of_mem member))
    (Nat.lt_succ_of_le enough) with ⟨heap', ran, segment, unchanged⟩
  refine ⟨{ index with heap := heap' }, ?_, ?_, ?_⟩
  · simp only [releaseHold, isIndex, ran, bind, Except.bind, pure, Except.pure]
  · refine ⟨list, _, isIndex, isList.map segment, ?_⟩
    simp only [List.map_map]
    rfl
  · intro address large
    refine (unchanged address ?_).trans (unused address large)
    intro member
    rcases List.mem_map.mp member with ⟨cell, isCell, rfl⟩
    rcases isList.segment.allocated isCell with ⟨next, allocated⟩
    rw [unused _ large] at allocated
    contradiction

theorem releaseHold_unnamed {cursorName : Option Name} (holds : Holds index infos)
    (unnamed : ∃ info ∈ infos, cursorName = none ∨ info.cursorName = none)
    (index' : QueryIndex Name) :
    releaseHold cursorName index ≠ .ok index' := by
  rcases holds with ⟨list, cells, isIndex, isList, rfl⟩
  have unnamedCell : ∃ cell ∈ cells, cursorName = none ∨ cell.2.cursorName = none := by
    rcases unnamed with ⟨info, member, isNone⟩
    rcases List.mem_map.mp member with ⟨cell, isCell, rfl⟩
    exact ⟨cell, isCell, isNone⟩
  rw [releaseHold, isIndex]
  simp only [bind, Except.bind]
  split
  · simp
  · next heap' ran =>
      exact absurd ran (releaseLoop_unnamed isList.segment unnamedCell _ heap')

/-- Without any infos no names are compared. -/
theorem releaseHold_nil (cursorName : Option Name) (holds : Holds index []) :
    releaseHold cursorName index = .ok index := by
  rcases holds with ⟨list, cells, isIndex, isList, isNil⟩
  rw [List.map_eq_nil_iff] at isNil
  have isFirst : first list = none := by
    have segment := isList.segment
    rw [isNil] at segment
    exact segment
  simp only [releaseHold, isIndex, isFirst, releaseLoop, bind, Except.bind, pure, Except.pure]
  rw [← isIndex]


end Release

/-! ## Generating and finding infos -/

section Generate

variable
  {Name : Type*}
  {index : QueryIndex Name}
  {infos : List (QueryInfo Name)}

/-- The infos that are generated for the queries of a statement. -/
def newInfos (cursorName : Option Name) (queryIds : List (BitVec 32)) :
    List (QueryInfo Name) :=
  queryIds.map fun queryId =>
    { queryId, cursorName, hold := cursorName.isSome }

theorem generateQueryIndexes_holds (holds : Holds index infos) (unused : Unused index)
    (cursorName : Option Name) (count : Nat) :
    ∃ queryIds index',
      generateQueryIndexes cursorName count index = .ok (queryIds, index') ∧
        queryIds.length = count ∧
        Holds index' (infos ++ newInfos cursorName queryIds) ∧
        Unused index' := by
  induction count generalizing index infos with
  | zero =>
    refine ⟨[], index, rfl, rfl, ?_, unused⟩
    rw [newInfos, List.map_nil, List.append_nil]
    exact holds
  | succ count ih =>
    rcases holds with ⟨list, cells, isIndex, isList, rfl⟩
    rcases isList_append isList (unused _ (le_refl _))
      { queryId := index.queryId, cursorName,
        hold := cursorName.isSome } with
      ⟨heap', header, appended, isList', free⟩
    let index' : QueryIndex Name :=
      { heap := heap'
        fresh := index.fresh + 1
        transProvQueryIndex := some (some header)
        queryId := index.queryId + 1 }
    have one : generateQueryIndex cursorName index = .ok (index.queryId, index') := by
      simp only [generateQueryIndex, isIndex, appended, bind, Except.bind, pure, Except.pure]
      rfl
    have unused' : Unused index' := by
      intro address large
      have larger : index.fresh + 1 ≤ address := large
      exact free address (unused address (by omega)) (by omega)
    rcases ih ⟨some header, _, rfl, isList', rfl⟩ unused'
      with ⟨queryIds, index'', ran, isLength, holds', unused''⟩
    refine ⟨index.queryId :: queryIds, index'', ?_, ?_, ?_, unused''⟩
    · simp only [generateQueryIndexes, one, ran, bind, Except.bind, pure, Except.pure]
    · rw [List.length_cons, isLength]
    · simpa [newInfos] using holds'

theorem findLoop_segment {heap : Heap (QueryInfo Name)} {start : Option Nat}
    {cells : List (Nat × QueryInfo Name)} {queryId : BitVec 32}
    (segment : Segment heap start cells none) (member : ∃ cell ∈ cells, cell.2.queryId = queryId)
    {fuel : Nat} (enough : cells.length < fuel) (last : Option (QueryInfo Name)) :
    ∃ info, findLoop queryId fuel heap start last = .ok (some info) ∧ info.queryId = queryId := by
  induction cells generalizing start fuel last with
  | nil => simp at member
  | cons cell cells ih =>
    rcases fuel with _ | fuel
    · contradiction
    · rcases segment with ⟨rfl, next, isCell, segment⟩
      rw [findLoop]
      simp only [load, isCell, bind, Except.bind]
      by_cases here : cell.2.queryId = queryId
      · rw [if_pos here]
        exact ⟨cell.2, rfl, here⟩
      · rw [if_neg here]
        apply ih segment
        · rcases member with ⟨other, isOther, same⟩
          rcases List.mem_cons.mp isOther with rfl | later
          · contradiction
          · exact ⟨other, later, same⟩
        · exact Nat.lt_of_succ_lt_succ enough

theorem isFound_of_mem (holds : Holds index infos) (unused : Unused index) {info : QueryInfo Name}
    (member : info ∈ infos) :
    isFound index info.queryId := by
  rcases holds with ⟨list, cells, isIndex, isList, rfl⟩
  have enough := isList.length_le unused
  rcases List.mem_map.mp member with ⟨cell, isCell, rfl⟩
  rcases findLoop_segment isList.segment ⟨cell, isCell, rfl⟩
    (Nat.lt_succ_of_le enough) none with ⟨info, found, same⟩
  exact ⟨list, info, isIndex, found, same⟩

end Generate

/-! ## The infos of open cursors -/

section Infos

variable
  {Name : Type*}
  {opened : List (Name × BitVec 32)}
  {others : List (BitVec 32)}

theorem cursorInfos_held {info : QueryInfo Name} (member : info ∈ cursorInfos opened) :
    info.hold = true ∧ info.cursorName ≠ none := by
  rcases List.mem_map.mp member with ⟨cursor, _, rfl⟩
  exact ⟨rfl, by simp⟩

/-- What is not held are the infos of the last statement. -/
theorem held_iff :
    (∀ info ∈ cursorInfos opened ++ newInfos none others,
      info.hold = true) ↔
      others = [] := by
  constructor
  · intro held
    cases others with
    | nil => rfl
    | cons queryId others =>
      have never := held ⟨queryId, none, false⟩ (by simp [newInfos])
      contradiction
  · rintro rfl info member
    rw [newInfos, List.map_nil, List.append_nil] at member
    exact (cursorInfos_held member).1

theorem filter_hold :
    (cursorInfos opened ++ newInfos none others).filter QueryInfo.hold = cursorInfos opened := by
  rw [List.filter_append, List.filter_eq_self.mpr, List.filter_eq_nil_iff.mpr, List.append_nil]
  · intro info member
    rcases List.mem_map.mp member with ⟨queryId, _, rfl⟩
    simp
  · exact fun info member => (cursorInfos_held member).1

/-- The clean-up of a statement that does not close cursors. -/
theorem simple_iff :
    ((∀ info ∈ cursorInfos opened ++ newInfos none others,
        info.hold = true) ∨
      (cursorInfos opened ++ newInfos none others).length = 1) ↔
      others.length = 0 ∨ others.length = 1 ∧ opened.map Prod.fst = [] := by
  rw [held_iff, List.length_append, cursorInfos, newInfos, List.length_map,
    List.length_map, List.map_eq_nil_iff, ← List.length_eq_zero_iff,
    ← List.length_eq_zero_iff]
  omega

end Infos

section Closing

variable {opened : List (Name × BitVec 32)}

/-- The infos when a cursor has been closed. -/
theorem released_cursorInfos (name : Name) :
    (∀ info ∈ (cursorInfos opened).map (released name),
      info.hold = true) ↔
      name ∉ opened.map Prod.fst := by
  constructor
  · intro held member
    rcases List.mem_map.mp member with ⟨cursor, isCursor, rfl⟩
    have never := held (released cursor.1 ⟨cursor.2, some cursor.1, true⟩)
      (List.mem_map_of_mem (List.mem_map_of_mem isCursor))
    simp [released] at never
  · intro unknown info member
    rcases List.mem_map.mp member with ⟨info', isInfo, rfl⟩
    rcases List.mem_map.mp isInfo with ⟨cursor, isCursor, rfl⟩
    have different : cursor.1 ≠ name := by
      rintro rfl
      exact unknown (List.mem_map_of_mem isCursor)
    simp [released, different]

theorem filter_released (name : Name) :
    ((cursorInfos opened).map (released name)).filter QueryInfo.hold =
      cursorInfos (opened.filter fun cursor => cursor.1 ≠ name) := by
  induction opened with
  | nil => rfl
  | cons cursor opened ih =>
    have split :
        cursorInfos (cursor :: opened) = ⟨cursor.2, some cursor.1, true⟩ :: cursorInfos opened :=
      rfl
    rw [split, List.map_cons, List.filter_cons, List.filter_cons, ih]
    by_cases same : cursor.1 = name
    · simp [released, same]
    · simp [released, same, cursorInfos]

theorem simple_released_iff (name : Name) :
    ((∀ info ∈ (cursorInfos opened).map (released name),
        info.hold = true) ∨
      ((cursorInfos opened).map (released name)).length = 1) ↔
      name ∉ opened.map Prod.fst ∨ opened.map Prod.fst = [name] := by
  rw [released_cursorInfos, List.length_map, cursorInfos, List.length_map]
  constructor
  · rintro (unknown | single)
    · exact Or.inl unknown
    · rcases List.length_eq_one_iff.mp single with ⟨cursor, rfl⟩
      by_cases same : name = cursor.1
      · exact Or.inr (by rw [same]; rfl)
      · exact Or.inl (by simpa using same)
  · rintro (unknown | single)
    · exact Or.inl unknown
    · exact Or.inr (by simpa using congrArg List.length single)

end Closing

/-! ## Histories -/

section History

variable
  {index : QueryIndex Name}
  {opened : List (Name × BitVec 32)}
  {others : List (BitVec 32)}
  {started : Bool}

/-- The index between two statements. -/
def Between (started : Bool) (opened : List (Name × BitVec 32))
    (others : List (BitVec 32)) (index : QueryIndex Name) : Prop :=
  Unused index ∧
    if started then
      Holds index (cursorInfos opened ++ newInfos none others)
    else
      index.transProvQueryIndex = none ∧ opened = [] ∧ others = []

variable
  {statement : TopStatement Name}

omit [DecidableEq Name] in
/-- A clean-up that drops nothing but the infos of the last statement. -/
theorem drop_holds (holds : Holds index (cursorInfos opened ++ newInfos none others))
    (unused : Unused index)
    (safe : others.length = 0 ∨ others.length = 1 ∧ opened.map Prod.fst = []) :
    ∃ cleaned,
      dropTransProvQueryIndex index = .ok cleaned ∧
        Holds cleaned (cursorInfos opened) ∧
        Unused cleaned := by
  have cleaned := dropTransProvQueryIndex_holds holds unused (simple_iff.mpr safe)
  rwa [filter_hold] at cleaned

/-- After a safe clean-up the index holds the infos of the open cursors. -/
theorem cleanUp_holds (between : Between started opened others index)
    (safe : SafeStep statement started (opened.map Prod.fst) others.length) :
    ∃ cleaned,
      cleanUp statement index = .ok cleaned ∧
        Holds cleaned (cursorInfos (openAfterClose statement opened)) ∧
        Unused cleaned := by
  rcases between with ⟨unused, between⟩
  cases started with
  | false =>
    rcases between with ⟨isNull, rfl, rfl⟩
    have created :
        dropTransProvQueryIndex index =
          .ok { index with
            queryId := 0
            transProvQueryIndex := some none } := by
      rw [dropTransProvQueryIndex, isNull]
    have holds :
        Holds { index with
          queryId := 0
          transProvQueryIndex := some none } [] :=
      ⟨none, [], rfl, rfl, rfl⟩
    cases statement with
    | query infos => exact ⟨_, created, holds, unused⟩
    | declareCursor name infos => exact ⟨_, created, holds, unused⟩
    | closePortal name =>
      cases name with
      | none => exact absurd safe.1 Bool.false_ne_true
      | some name => exact absurd safe.1 Bool.false_ne_true
  | true =>
    rw [if_pos rfl] at between
    cases statement with
    | query infos => exact drop_holds between unused safe
    | declareCursor name infos => exact drop_holds between unused safe
    | closePortal name =>
      cases name with
      | none =>
        rcases safe with ⟨_, noOthers, noCursors⟩
        rw [List.length_eq_zero_iff] at noOthers
        rw [List.map_eq_nil_iff] at noCursors
        subst noOthers noCursors
        rw [cleanUp, releaseHold_nil none between]
        exact drop_holds between unused (Or.inl rfl)
      | some name =>
        rcases safe with ⟨_, noOthers, known⟩
        rw [List.length_eq_zero_iff] at noOthers
        subst noOthers
        rw [newInfos, List.map_nil, List.append_nil] at between
        rcases releaseHold_holds name between unused
          (fun info member => (cursorInfos_held member).2) with
          ⟨index', ran, holds, unused'⟩
        have cleaned :=
          dropTransProvQueryIndex_holds holds unused' ((simple_released_iff name).mpr known)
        rw [filter_released] at cleaned
        rw [cleanUp, ran]
        exact cleaned

/-- Only a safe clean-up leaves an intact list. -/
theorem safeStep_of_cleanUp (between : Between started opened others index)
    {cleaned : QueryIndex Name} (ran : cleanUp statement index = .ok cleaned)
    {infos : List (QueryInfo Name)} (intact : Holds cleaned infos) :
    SafeStep statement started (opened.map Prod.fst) others.length := by
  rcases between with ⟨unused, between⟩
  cases started with
  | false =>
    rcases between with ⟨isNull, rfl, rfl⟩
    cases statement with
    | query infos => exact Or.inl rfl
    | declareCursor name infos => exact Or.inl rfl
    | closePortal name =>
      rw [cleanUp, releaseHold, isNull] at ran
      contradiction
  | true =>
    rw [if_pos rfl] at between
    have ofDrop
        (ran : dropTransProvQueryIndex index = .ok cleaned) :
        others.length = 0 ∨ others.length = 1 ∧ opened.map Prod.fst = [] :=
      simple_iff.mp (simple_of_dropTransProvQueryIndex between unused ran intact)
    cases statement with
    | query infos => exact ofDrop ran
    | declareCursor name infos => exact ofDrop ran
    | closePortal name =>
      cases released : releaseHold name index with
      | error fault =>
        rw [cleanUp, released] at ran
        contradiction
      | ok index' =>
        have named :
            ∀ info ∈ cursorInfos opened ++ newInfos none others,
              ¬ (name = none ∨ info.cursorName = none) := by
          intro info member isNone
          exact releaseHold_unnamed between ⟨info, member, isNone⟩ index' released
        have noOthers : others = [] := by
          cases others with
          | nil => rfl
          | cons queryId others =>
            exact absurd (Or.inr rfl) (named ⟨queryId, none, false⟩ (by simp [newInfos]))
        subst noOthers
        rw [newInfos, List.map_nil, List.append_nil] at between named
        cases name with
        | none =>
          refine ⟨rfl, rfl, ?_⟩
          cases opened with
          | nil => rfl
          | cons cursor opened =>
            exact absurd (Or.inl rfl)
              (named ⟨cursor.2, some cursor.1, true⟩ List.mem_cons_self)
        | some name =>
          rcases releaseHold_holds name between unused
            (fun info member => (cursorInfos_held member).2) with
            ⟨_, released', holds, unused'⟩
          cases released.symm.trans released'
          rw [cleanUp, released] at ran
          exact ⟨rfl, rfl, (simple_released_iff name).mp
            (simple_of_dropTransProvQueryIndex holds unused' ran intact)⟩

/-- The index between two statements, after a safe one. -/
theorem rewriteStatement_between {cleaned : QueryIndex Name}
    (holds : Holds cleaned (cursorInfos (openAfterClose statement opened)))
    (unused : Unused cleaned) :
    ∃ queryIds others index',
      rewriteStatement statement cleaned = .ok (queryIds, index') ∧
        Between true (openAfter statement queryIds opened) others index' ∧
        others.length = othersAfter statement ∧
        (openAfter statement queryIds opened).map Prod.fst =
          cursorsAfter statement (opened.map Prod.fst) ∧
        (∀ queryId ∈ queryIds, isFound index' queryId) ∧
        ∀ cursor ∈ openAfter statement queryIds opened, isFound index' cursor.2 := by
  cases statement with
  | query infos =>
    rcases generateQueryIndexes_holds holds unused none infos with
      ⟨queryIds, index', ran, isLength, holds', unused'⟩
    refine ⟨queryIds, queryIds, index', ran, ⟨unused', holds'⟩, isLength,
      rfl, ?_, ?_⟩
    · intro queryId member
      exact isFound_of_mem holds' unused' (List.mem_append_right _ (List.mem_map_of_mem member))
    · intro cursor member
      exact isFound_of_mem holds' unused' (List.mem_append_left _ (List.mem_map_of_mem member))
  | declareCursor name infos =>
    rcases generateQueryIndexes_holds holds unused (some name) infos with
      ⟨queryIds, index', ran, isLength, holds', unused'⟩
    have isOpen :
        cursorInfos (opened ++ queryIds.map fun id => (name, id)) =
          cursorInfos opened ++ newInfos (some name) queryIds := by
      simp [cursorInfos, newInfos]
    change Holds index' (cursorInfos opened ++ _) at holds'
    rw [← isOpen] at holds'
    refine ⟨queryIds, [], index', ran, ⟨unused', ?_⟩, rfl, ?_, ?_, ?_⟩
    · rw [if_pos rfl, newInfos, List.map_nil, List.append_nil]
      exact holds'
    · simp [openAfter, cursorsAfter, Function.comp_def, isLength]
    · intro queryId member
      exact isFound_of_mem holds' unused' (List.mem_map_of_mem
        (List.mem_append_right _ (List.mem_map_of_mem member)))
    · intro cursor member
      exact isFound_of_mem holds' unused' (List.mem_map_of_mem member)
  | closePortal name =>
    refine ⟨[], [], cleaned, rfl, ⟨unused, ?_⟩, rfl, ?_, ?_, ?_⟩
    · rw [if_pos rfl, newInfos, List.map_nil, List.append_nil]
      exact holds
    · cases name with
      | none => rfl
      | some name =>
        simp [openAfter, openAfterClose, cursorsAfter, List.filter_map, Function.comp_def]
    · intro queryId member
      contradiction
    · intro cursor member
      exact isFound_of_mem holds unused (List.mem_map_of_mem member)

/-- A history of statements is handled properly exactly if it is safe. -/
theorem lifecycle_iff_safe_from (statements : List (TopStatement Name))
    (between : Between started opened others index) :
    Lifecycle statements opened index ↔
      Safe statements started (opened.map Prod.fst) others.length := by
  induction statements generalizing started opened others index with
  | nil => exact Iff.rfl
  | cons statement statements ih =>
    rw [Lifecycle, Safe]
    constructor
    · rintro ⟨cleaned, ran, intact, queryIds, index', rewritten, _, _, rest⟩
      have safe := safeStep_of_cleanUp between ran intact
      rcases cleanUp_holds between safe with
        ⟨_, ran', holds, unused⟩
      cases ran.symm.trans ran'
      rcases rewriteStatement_between holds unused with
        ⟨_, others', _, rewritten', between', isLength, isCursors, _, _⟩
      cases rewritten.symm.trans rewritten'
      rw [ih between', isLength, isCursors] at rest
      exact ⟨safe, rest⟩
    · rintro ⟨safe, rest⟩
      rcases cleanUp_holds between safe with
        ⟨cleaned, ran, holds, unused⟩
      rcases rewriteStatement_between holds unused with
        ⟨queryIds, others', index', rewritten, between', isLength, isCursors, found, foundCursors⟩
      rw [← isLength, ← isCursors, ← ih between'] at rest
      exact ⟨cleaned, ran, holds, queryIds, index', rewritten, found, foundCursors, rest⟩

end History

/--
After every clean-up the index holds exactly the infos of the open cursors,
and all infos are found during execution, exactly for the safe histories.
-/
theorem lifecycle_iff_safe (statements : List (TopStatement Name)) :
    Lifecycle statements [] {} ↔ Safe statements false [] 0 := by
  have between : Between false [] [] ({} : QueryIndex Name) := ⟨fun _ _ => rfl, rfl, rfl, rfl⟩
  exact lifecycle_iff_safe_from statements between

/--
When the second of three cursors is closed, the info of the third one is
lost as well.
-/
theorem not_lifecycle_close_second :
    ¬ Lifecycle
      [.declareCursor "a" 1, .declareCursor "b" 1, .declareCursor "c" 1,
        .closePortal (some "b")] [] {} ∧
    ∃ index,
      List.foldlM
          (fun index statement =>
            Prod.snd <$> provenanceRewriteQuery statement index)
          ({} : QueryIndex String)
          [.declareCursor "a" 1, .declareCursor "b" 1, .declareCursor "c" 1,
            .closePortal (some "b")] = .ok index ∧
        ¬ isFound index 2 := by
  constructor
  · have between : Between false [] [] ({} : QueryIndex String) := ⟨fun _ _ => rfl, rfl, rfl, rfl⟩
    rw [lifecycle_iff_safe_from _ between]
    simp [Safe, SafeStep, cursorsAfter]
  · refine ⟨_, rfl, ?_⟩
    rintro ⟨queryInfos, info, isIndex, found, same⟩
    cases isIndex
    cases found
    contradiction

end Ldv.Perm
