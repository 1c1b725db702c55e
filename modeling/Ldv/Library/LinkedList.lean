import Mathlib.Data.Fintype.Card

/-!
# Singly linked lists

A heap holds the cells that are allocated.  A list is a header with its
length and pointers to the first and the last cell, or is empty and has no
header.  `Segment` follows the pointers from cell to cell, and `IsList` says
that header and cells fit together.
-/

namespace LinkedList

variable {α : Type*}

structure Cell (α : Type*) where
  value : α
  next : Option Nat

/-- The cells that are allocated. -/
abbrev Heap (α : Type*) := Nat → Option (Cell α)

inductive Fault where
  | nullPointer
  | dangling
  | diverges
deriving DecidableEq, Repr

def load (heap : Heap α) : Option Nat → Except Fault (Cell α)
  | none => .error .nullPointer
  | some address =>
    match heap address with
    | none => .error .dangling
    | some cell => .ok cell

def store (heap : Heap α) (address : Nat) (cell : Cell α) : Heap α :=
  Function.update heap address (some cell)

def free (heap : Heap α) (address : Nat) : Heap α :=
  Function.update heap address none

/-- Changes the pointer of a cell to its successor. -/
def setNext (heap : Heap α) (pointer next : Option Nat) :
    Except Fault (Heap α) :=
  match pointer with
  | none => .error .nullPointer
  | some address =>
    match heap address with
    | none => .error .dangling
    | some cell => .ok (store heap address { cell with next })

structure Header where
  length : Int
  head : Option Nat
  tail : Option Nat

def first (list : Option Header) : Option Nat := list.bind Header.head

/-- Appends a value, in a cell which is allocated at a fresh address. -/
def append (heap : Heap α) (fresh : Nat) (list : Option Header) (value : α) :
    Except Fault (Heap α × Header) :=
  match list with
  | none =>
    .ok (store heap fresh { value, next := none },
      { length := 1, head := some fresh, tail := some fresh })
  | some header =>
    match setNext heap header.tail (some fresh) with
    | .error fault => .error fault
    | .ok heap =>
      .ok (store heap fresh { value, next := none },
        { header with
          tail := some fresh
          length := header.length + 1 })

/-! ## Segments -/

/-- The cells from a pointer on up to another one, with their addresses. -/
def Segment (heap : Heap α) :
    Option Nat → List (Nat × α) → Option Nat → Prop
  | start, [], stop => start = stop
  | start, (address, value) :: cells, stop =>
    start = some address ∧
      ∃ next, heap address = some { value, next } ∧ Segment heap next cells stop

variable
  {heap : Heap α}
  {start stop : Option Nat}
  {cells : List (Nat × α)}

theorem segment_append {cells' : List (Nat × α)} :
    Segment heap start (cells ++ cells') stop ↔
      ∃ middle, Segment heap start cells middle ∧ Segment heap middle cells' stop := by
  induction cells generalizing start with
  | nil => simp [Segment]
  | cons cell cells ih =>
    simp only [List.cons_append, Segment, ih]
    constructor
    · rintro ⟨isStart, next, isCell, middle, before, after⟩
      exact ⟨middle, ⟨isStart, next, isCell, before⟩, after⟩
    · rintro ⟨middle, ⟨isStart, next, isCell, before⟩, after⟩
      exact ⟨isStart, next, isCell, middle, before, after⟩

/-- A segment does not depend on cells outside of it. -/
theorem segment_update {address : Nat} (outside : address ∉ cells.map Prod.fst)
    (cell : Option (Cell α)) :
    Segment (Function.update heap address cell) start cells stop ↔
      Segment heap start cells stop := by
  induction cells generalizing start with
  | nil => rfl
  | cons head cells ih =>
    rw [List.map_cons, List.mem_cons, not_or] at outside
    simp only [Segment, ih outside.2, Function.update_of_ne (Ne.symm outside.1)]

theorem Segment.allocated (segment : Segment heap start cells stop) {cell : Nat × α}
    (member : cell ∈ cells) :
    ∃ next, heap cell.1 = some { value := cell.2, next } := by
  induction cells generalizing start with
  | nil => contradiction
  | cons head cells ih =>
    rcases segment with ⟨_, next, isCell, segment⟩
    rcases List.mem_cons.mp member with rfl | member
    · exact ⟨next, isCell⟩
    · exact ih segment member

/-- The cells up to the end of a list are determined by the first one. -/
theorem Segment.unique {cells' : List (Nat × α)} (segment : Segment heap start cells none)
    (segment' : Segment heap start cells' none) :
    cells = cells' := by
  induction cells generalizing start cells' with
  | nil =>
    cases cells' with
    | nil => rfl
    | cons head' cells' =>
      rcases segment' with ⟨isStart, _⟩
      rw [segment] at isStart
      contradiction
  | cons head cells ih =>
    rcases segment with ⟨isStart, next, isCell, segment⟩
    cases cells' with
    | nil =>
      rw [segment'] at isStart
      contradiction
    | cons head' cells' =>
      rcases segment' with ⟨isStart', next', isCell', segment'⟩
      have same : head.1 = head'.1 := Option.some.inj (isStart.symm.trans isStart')
      rw [same, isCell', Option.some.injEq, Cell.mk.injEq] at isCell
      rw [isCell.2] at segment'
      rw [ih segment segment']
      congr 1
      exact Prod.ext same isCell.1.symm

/-- No cell occurs twice before the end of a list. -/
theorem Segment.nodup (segment : Segment heap start cells none) :
    (cells.map Prod.fst).Nodup := by
  induction cells generalizing start with
  | nil => exact List.nodup_nil
  | cons head cells ih =>
    have whole := segment
    rcases segment with ⟨isStart, next, isCell, segment⟩
    rw [List.map_cons, List.nodup_cons]
    refine ⟨?_, ih segment⟩
    intro again
    rcases List.mem_map.mp again with ⟨cell, member, same⟩
    rcases List.append_of_mem member with ⟨before, after, rfl⟩
    rcases segment_append.mp segment with ⟨middle, _, rest⟩
    have isMiddle : middle = start := by
      rw [rest.1, isStart, same]
    rw [isMiddle] at rest
    have loop := congrArg List.length (whole.unique rest)
    simp only [List.length_cons, List.length_append] at loop
    omega

theorem Segment.outside {before after : List (Nat × α)} {cell : Nat × α}
    (segment : Segment heap start (before ++ cell :: after) none) :
    cell.1 ∉ before.map Prod.fst ∧ cell.1 ∉ after.map Prod.fst := by
  have nodup := segment.nodup
  rw [List.map_append, List.map_cons, List.nodup_middle, List.nodup_cons,
    List.mem_append, not_or] at nodup
  exact nodup.1

/-! ## Lists -/

/-- The header of a list fits its cells. -/
def IsList (heap : Heap α) (list : Option Header)
    (cells : List (Nat × α)) : Prop :=
  match list with
  | none => cells = []
  | some header =>
    cells ≠ [] ∧
      Segment heap header.head cells none ∧
      header.tail = cells.getLast?.map Prod.fst ∧
      header.length = cells.length

theorem IsList.segment {list : Option Header} (isList : IsList heap list cells) :
    Segment heap (first list) cells none := by
  cases list with
  | none =>
    rw [show cells = [] from isList]
    rfl
  | some header => exact isList.2.1

/-- Changing the values of a list. -/
theorem IsList.map {list : Option Header} (isList : IsList heap list cells) {heap' : Heap α}
    {change : α → α}
    (segment :
      Segment heap' (first list)
        (cells.map fun cell => (cell.1, change cell.2)) none) :
    IsList heap' list (cells.map fun cell => (cell.1, change cell.2)) := by
  cases list with
  | none =>
    rw [show cells = [] from isList]
    rfl
  | some header =>
    rcases isList with ⟨nonempty, _, isTail, isLength⟩
    refine ⟨?_, segment, ?_, ?_⟩
    · simpa using nonempty
    · rw [isTail, List.getLast?_map, Option.map_map]
      rfl
    · rw [isLength, List.length_map]

/-- A list does not hold more cells than have been allocated. -/
theorem IsList.length_le {list : Option Header} (isList : IsList heap list cells) {fresh : Nat}
    (unused : ∀ address, fresh ≤ address → heap address = none) :
    cells.length ≤ fresh := by
  have nodup := isList.segment.nodup
  have below : ∀ address ∈ cells.map Prod.fst, address ∈ List.range fresh := by
    intro address member
    rcases List.mem_map.mp member with ⟨cell, isCell, rfl⟩
    rcases isList.segment.allocated isCell with ⟨next, allocated⟩
    rw [List.mem_range]
    by_contra large
    rw [unused _ (Nat.not_lt.mp large)] at allocated
    contradiction
  have bound := (nodup.subperm below).length_le
  rwa [List.length_map, List.length_range] at bound

/-- Changing the successor of the last cell of a segment. -/
theorem segment_setNext {address : Nat} {value : α}
    (segment : Segment heap start (cells ++ [(address, value)]) stop)
    (outside : address ∉ cells.map Prod.fst) (next : Option Nat) :
    setNext heap (some address) next =
        .ok (store heap address { value, next }) ∧
      Segment (store heap address { value, next }) start (cells ++ [(address, value)]) next := by
  rcases segment_append.mp segment with ⟨middle, before, isLast, last⟩
  rcases last with ⟨next', isCell, _⟩
  constructor
  · rw [setNext, isCell]
  · rw [segment_append]
    refine ⟨middle, (segment_update outside _).mpr before, isLast, next, ?_⟩
    exact ⟨Function.update_self .., rfl⟩

theorem isList_append {list : Option Header} (isList : IsList heap list cells) {fresh : Nat}
    (unused : heap fresh = none) (value : α) :
    ∃ heap' header,
      append heap fresh list value = .ok (heap', header) ∧
        IsList heap' (some header) (cells ++ [(fresh, value)]) ∧
        ∀ address, heap address = none → address ≠ fresh → heap' address = none := by
  have outside : fresh ∉ cells.map Prod.fst := by
    intro member
    rcases List.mem_map.mp member with ⟨cell, isCell, rfl⟩
    rcases isList.segment.allocated isCell with ⟨next, allocated⟩
    rw [unused] at allocated
    contradiction
  cases list with
  | none =>
    rw [show cells = [] from isList]
    refine ⟨_, _, rfl, ⟨by simp, ?_, rfl, rfl⟩, ?_⟩
    · exact ⟨rfl, none, Function.update_self .., rfl⟩
    · intro address free different
      exact (Function.update_of_ne different ..).trans free
  | some header =>
    rcases isList with ⟨nonempty, segment, isTail, isLength⟩
    rcases List.eq_nil_or_concat cells with rfl | ⟨init, last, rfl⟩
    · contradiction
    · rw [List.concat_eq_append] at *
      have tail : header.tail = some last.1 := by
        simpa using isTail
      rcases segment_setNext segment segment.outside.1 (some fresh) with
        ⟨isSet, segment'⟩
      refine ⟨_, _, by rw [append, tail, isSet], ⟨by simp, ?_, ?_, ?_⟩, ?_⟩
      · rw [segment_append]
        refine ⟨some fresh, (segment_update outside _).mpr segment', rfl,
          none, Function.update_self .., rfl⟩
      · simp
      · simp [isLength]
        omega
      · intro address free different
        rw [store, Function.update_of_ne different, store, Function.update_of_ne]
        · exact free
        · rintro rfl
          rcases segment.allocated (List.mem_append_right _
            List.mem_cons_self) with ⟨next, allocated⟩
          rw [free] at allocated
          contradiction

end LinkedList
