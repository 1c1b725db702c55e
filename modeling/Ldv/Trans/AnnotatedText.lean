import Ldv.Library.CText
import Ldv.Trans.Bitset

/-!
# Annotated query texts

The transformation provenance of a row is shown as the text of the query, in
which the parts that do not contribute stand between `<NOT>` and `</NOT>`.
The parts are ranges of the text with a set of operators each, sorted by
their begin, and two of them are nested or apart.  A part inside one that
does not contribute is not marked again.
-/

namespace Ldv.Trans

open CText

/-- A part of the text of a query, with its operators. -/
structure TransRange where
  begins : Nat
  ends : Nat
  set : VarBit
deriving DecidableEq

structure TransRepQueryInfo where
  string : Text
  ranges : List TransRange

def NOT_STRING : Text := ascii "<NOT>"

def CLOSE_NOT_STRING : Text := ascii "</NOT>"

/-- The bytes of a text between two positions. -/
def slice (text : Text) (first last : Nat) : Text :=
  (text.drop first).take (last - first)

/-- The ranges behind those which end inside the range. -/
def skipSubsumed (range : TransRange) (rest : List TransRange) : List TransRange :=
  rest.dropWhile fun next => next.ends ≤ range.ends

/-- Number of bytes the markers take, for at most so many ranges. -/
def markersLength (bitset : VarBit) : Nat → List TransRange → Except BitsetError Nat
  | numRanges + 1, range :: rest => do
    if ← bitsetContains bitset range.set then
      markersLength bitset numRanges rest
    else
      let length ← markersLength bitset numRanges (skipSubsumed range rest)
      return NOT_STRING.length + CLOSE_NOT_STRING.length + length
  | _, _ => return 0

/--
Copies the parts of the text, and returns them with the end of the last range
that was not skipped.
-/
def copyParts (string : Text) (bitset : VarBit) :
    Nat → List TransRange → Nat → Except BitsetError (Text × Nat)
  | numRanges + 1, range :: rest, _ => do
    if ← bitsetContains bitset range.set then
      let next := (rest.head?.map TransRange.begins).getD string.length
      let (parts, before) ← copyParts string bitset numRanges rest range.ends
      return (slice string range.begins next ++ parts, before)
    else
      let rest := skipSubsumed range rest
      let gap :=
        match rest.head? with
        | some next =>
          if range.ends < next.begins then slice string range.ends next.begins else []
        | none => []
      let (parts, before) ← copyParts string bitset numRanges rest range.ends
      return (NOT_STRING ++ slice string range.begins range.ends ++ CLOSE_NOT_STRING ++
        gap ++ parts, before)
  | _, _, before => return ([], before)

/-- The length of the buffer, without the terminating zero. -/
def resultLength (info : TransRepQueryInfo) (bitset : VarBit) : Except BitsetError Nat := do
  let length ← markersLength bitset info.ranges.length info.ranges
  return info.string.length + length

def generateTransProvRep (info : TransRepQueryInfo) (bitset : VarBit) :
    Except BitsetError Text := do
  let length ← resultLength info bitset
  let (parts, before) ← copyParts info.string bitset info.ranges.length info.ranges
    ((info.ranges.head?.map TransRange.ends).getD 0)
  if parts.length < length then
    return parts ++ info.string.drop before
  else
    return parts

/-! ## Texts with markers -/

inductive Piece where
  | text (bytes : Text)
  | openNot
  | closeNot

def Piece.render : Piece → Text
  | .text bytes => bytes
  | .openNot => NOT_STRING
  | .closeNot => CLOSE_NOT_STRING

/-- The piece without the marker it may be. -/
def Piece.plain : Piece → Text
  | .text bytes => bytes
  | .openNot => []
  | .closeNot => []

/-- The text from a position on, with markers around the ranges. -/
def annotate (string : Text) : Nat → List TransRange → List Piece
  | position, [] => [.text (string.drop position)]
  | position, range :: rest =>
    .text (slice string position range.begins) :: .openNot ::
      .text (slice string range.begins range.ends) :: .closeNot :: annotate string range.ends rest

def TransRange.LiesIn (inner outer : TransRange) : Prop :=
  outer.begins ≤ inner.begins ∧ inner.ends ≤ outer.ends

instance (inner outer : TransRange) : Decidable (inner.LiesIn outer) :=
  inferInstanceAs (Decidable (_ ∧ _))

/-- Are operators of the range missing in the bit set? -/
def missing (bitset : VarBit) (range : TransRange) : Bool :=
  !decide (range.set.elements ⊆ bitset.elements)

/-- The ranges with missing operators which lie in no earlier such range. -/
def outermost (bitset : VarBit) : List TransRange → List TransRange → List TransRange
  | _, [] => []
  | earlier, range :: rest =>
    let others := outermost bitset (range :: earlier) rest
    if missing bitset range ∧
        ∀ outer ∈ earlier, missing bitset outer = true → ¬ range.LiesIn outer then
      range :: others
    else
      others

/-- Ranges of a text which are sorted, and nested or apart. -/
structure NestedRanges (length : Nat) (ranges : List TransRange) : Prop where
  bounded : ∀ range ∈ ranges, range.begins ≤ range.ends ∧ range.ends ≤ length
  nested :
    ranges.Pairwise fun outer inner =>
      outer.begins ≤ inner.begins ∧ (inner.ends ≤ outer.ends ∨ outer.ends ≤ inner.begins)

/-- The sets of all ranges have the length of the bit set. -/
def SetsFit (bitset : VarBit) (ranges : List TransRange) : Prop :=
  bitset.ZeroPadded ∧ ∀ range ∈ ranges, bitset.bitlen = range.set.bitlen ∧ range.set.ZeroPadded

/--
The text is the one of the query with markers around exactly the outermost
ranges that miss operators, and it fits the buffer.
-/
def Annotates (info : TransRepQueryInfo) (bitset : VarBit) : Prop :=
  let pieces := annotate info.string 0 (outermost bitset [] info.ranges)
  generateTransProvRep info bitset = .ok (pieces.flatMap Piece.render) ∧
    pieces.flatMap Piece.plain = info.string ∧
      ∃ length, resultLength info bitset = .ok length ∧
        (pieces.flatMap Piece.render).length ≤ length

/--
An empty range may be marked again at the end of an earlier one, if both miss
operators and a range between them, which does not, begins there and goes on.
-/
def MarkedAgain (bitset : VarBit) (ranges : List TransRange) : Prop :=
  ∃ outer longer again, [outer, longer, again].Sublist ranges ∧
    missing bitset outer = true ∧ missing bitset longer = false ∧ missing bitset again = true ∧
    outer.ends = longer.begins ∧ longer.begins < longer.ends ∧
    again.begins = outer.ends ∧ again.ends = outer.ends

/-! ## Slices -/

section Slices

variable
  {text : Text}
  {first middle last : Nat}

theorem slice_append_slice (before : first ≤ middle) (after : middle ≤ last) :
    slice text first middle ++ slice text middle last = slice text first last := by
  rw [slice, slice, slice, show last - first = (middle - first) + (last - middle) by omega,
    List.take_add, List.drop_drop, Nat.add_sub_cancel' before]

theorem slice_append_drop (before : first ≤ middle) :
    slice text first middle ++ text.drop middle = text.drop first := by
  rw [slice, show middle = first + (middle - first) by omega, ← List.drop_drop,
    Nat.add_sub_cancel_left, List.take_append_drop]

theorem slice_length (text : Text) (first : Nat) :
    slice text first text.length = text.drop first := by
  rw [slice, List.take_of_length_le (by simp)]

end Slices

/-! ## The traversal -/

section Traversal

variable
  {bitset : VarBit}
  {length : Nat}

theorem NestedRanges.sublist {ranges fewer : List TransRange}
    (nested : NestedRanges length ranges) (sublist : fewer.Sublist ranges) :
    NestedRanges length fewer :=
  ⟨fun range member => nested.bounded range (sublist.subset member),
    nested.nested.sublist sublist⟩

theorem NestedRanges.tail {range : TransRange} {rest : List TransRange}
    (nested : NestedRanges length (range :: rest)) :
    NestedRanges length rest :=
  nested.sublist (List.sublist_cons_self range rest)

theorem exists_skipped (range : TransRange) (rest : List TransRange) :
    ∃ skipped, rest = skipped ++ skipSubsumed range rest ∧
      (∀ inner ∈ skipped, inner.ends ≤ range.ends) ∧
        ∀ next ∈ (skipSubsumed range rest).head?, range.ends < next.ends := by
  induction rest with
  | nil => exact ⟨[], rfl, by simp, by simp [skipSubsumed]⟩
  | cons first rest ih =>
    by_cases inside : first.ends ≤ range.ends
    · rcases ih with ⟨skipped, parts, ends, stops⟩
      have skips : skipSubsumed range (first :: rest) = skipSubsumed range rest := by
        simp [skipSubsumed, inside]
      rw [skips]
      refine ⟨first :: skipped, by rw [List.cons_append, ← parts], ?_, stops⟩
      rintro inner (_ | ⟨_, member⟩)
      · exact inside
      · exact ends inner member
    · have stays : skipSubsumed range (first :: rest) = first :: rest := by
        simp [skipSubsumed, inside]
      rw [stays]
      refine ⟨[], rfl, by simp, ?_⟩
      rintro _ ⟨⟩
      omega

/--
The ranges are visited from left to right; behind a range that misses
operators those which end inside it are skipped.
-/
@[elab_as_elim]
theorem NestedRanges.induction (bitset : VarBit) {P : Nat → List TransRange → Prop}
    (nil : ∀ numRanges, P numRanges [])
    (present :
      ∀ numRanges range rest, NestedRanges length (range :: rest) →
        missing bitset range = false → P numRanges rest → P (numRanges + 1) (range :: rest))
    (absent :
      ∀ numRanges range skipped rest, NestedRanges length (range :: (skipped ++ rest)) →
        missing bitset range = true →
        (∀ inner ∈ skipped, inner.LiesIn range) →
        (∀ next ∈ rest, range.ends ≤ next.begins) →
        skipSubsumed range (skipped ++ rest) = rest → rest.length ≤ numRanges →
        P numRanges rest → P (numRanges + 1) (range :: (skipped ++ rest)))
    {ranges : List TransRange} (nested : NestedRanges length ranges) {numRanges : Nat}
    (enough : ranges.length ≤ numRanges) :
    P numRanges ranges := by
  induction numRanges generalizing ranges with
  | zero =>
    cases List.eq_nil_of_length_eq_zero (Nat.le_zero.mp enough)
    exact nil 0
  | succ numRanges ih =>
    cases ranges with
    | nil => exact nil _
    | cons range rest =>
      have pairs := List.pairwise_cons.mp nested.nested
      simp only [List.length_cons, Nat.add_le_add_iff_right] at enough
      cases isMissing : missing bitset range with
      | false =>
        exact present numRanges range rest nested isMissing (ih nested.tail enough)
      | true =>
        rcases exists_skipped range rest with ⟨skipped, parts, ends, stops⟩
        generalize kept : skipSubsumed range rest = rest' at parts stops
        subst parts
        have order := List.pairwise_append.mp nested.tail.nested
        rw [List.length_append] at enough
        have shorter : rest'.length ≤ numRanges := by omega
        refine absent numRanges range skipped rest' nested isMissing ?_ ?_ kept shorter
          (ih (nested.tail.sublist (List.sublist_append_right _ _)) shorter)
        · intro inner member
          exact ⟨(pairs.1 inner (by simp [member])).1, ends inner member⟩
        · cases rest' with
          | nil => simp
          | cons first others =>
            have beyond := stops first rfl
            have apart : range.ends ≤ first.begins := by
              rcases (pairs.1 first (by simp)).2 with inside | apart
              · omega
              · exact apart
            rintro next (_ | ⟨_, later⟩)
            · exact apart
            · exact apart.trans ((List.pairwise_cons.mp order.2.1).1 next later).1

theorem SetsFit.bitsetContains_eq {ranges : List TransRange} (fit : SetsFit bitset ranges)
    {range : TransRange} (member : range ∈ ranges) :
    bitsetContains bitset range.set = .ok (!missing bitset range) := by
  rw [Trans.bitsetContains_eq (fit.2 range member).1 fit.1 (fit.2 range member).2, missing,
    Bool.not_not]

theorem SetsFit.sublist {ranges ranges' : List TransRange} (fit : SetsFit bitset ranges)
    (sublist : ranges'.Sublist ranges) :
    SetsFit bitset ranges' :=
  ⟨fit.1, fun range member => fit.2 range (sublist.subset member)⟩

/-! ## Visited ranges -/

/-- The ranges that are marked, of at most so many. -/
def visited (bitset : VarBit) : Nat → List TransRange → List TransRange
  | numRanges + 1, range :: rest =>
    if missing bitset range then range :: visited bitset numRanges (skipSubsumed range rest)
    else visited bitset numRanges rest
  | _, _ => []

theorem visited_nil (numRanges : Nat) : visited bitset numRanges [] = [] := by
  cases numRanges <;> rfl

theorem visited_subset (numRanges : Nat) (ranges : List TransRange) :
    visited bitset numRanges ranges ⊆ ranges := by
  induction numRanges generalizing ranges with
  | zero => exact List.nil_subset ranges
  | succ numRanges ih =>
    rcases ranges with _ | ⟨range, rest⟩
    · exact List.nil_subset []
    · have skips : skipSubsumed range rest ⊆ rest := (List.dropWhile_sublist _).subset
      rw [visited]
      split
      · exact List.cons_subset_cons range (List.Subset.trans (ih _) skips)
      · exact List.subset_cons_of_subset range (ih rest)

theorem visited_present {numRanges : Nat} {range : TransRange} {rest : List TransRange}
    (present : missing bitset range = false) :
    visited bitset (numRanges + 1) (range :: rest) = visited bitset numRanges rest := by
  simp [visited, present]

theorem visited_absent {numRanges : Nat} {range : TransRange} {rest behind : List TransRange}
    (isMissing : missing bitset range = true) (skips : skipSubsumed range rest = behind) :
    visited bitset (numRanges + 1) (range :: rest) =
      range :: visited bitset numRanges behind := by
  simp [visited, isMissing, skips]

/-! ## Outermost ranges -/

theorem mem_outermost_cons {earlier rest : List TransRange} {range other : TransRange}
    (member : other ∈ outermost bitset (range :: earlier) rest) :
    other ∈ outermost bitset earlier (range :: rest) := by
  rw [outermost]
  split
  · exact List.mem_cons_of_mem range member
  · exact member

theorem split_of_mem_outermost {earlier ranges : List TransRange} {range : TransRange}
    (member : range ∈ outermost bitset earlier ranges) :
    ∃ before after, ranges = before ++ range :: after ∧ missing bitset range = true ∧
      ∀ outer ∈ before ++ earlier, missing bitset outer = true → ¬ range.LiesIn outer := by
  induction ranges generalizing earlier with
  | nil => cases member
  | cons first rest ih =>
    have behind (later : range ∈ outermost bitset (first :: earlier) rest) :
        ∃ before after, first :: rest = before ++ range :: after ∧ missing bitset range = true ∧
          ∀ outer ∈ before ++ earlier, missing bitset outer = true → ¬ range.LiesIn outer := by
      rcases ih later with ⟨before, after, rfl, isMissing, free⟩
      refine ⟨first :: before, after, rfl, isMissing, fun outer isOuter => free outer ?_⟩
      simp only [List.cons_append, List.mem_cons, List.mem_append] at isOuter ⊢
      tauto
    rw [outermost] at member
    split at member
    · next isOutermost =>
      rcases List.mem_cons.mp member with rfl | later
      · exact ⟨[], rest, rfl, isOutermost⟩
      · exact behind later
    · exact behind member

/-- Ranges which no outermost one lies in may be forgotten. -/
theorem outermost_append (earlier passed : List TransRange) {ranges : List TransRange}
    (apart :
      ∀ outer ∈ passed, missing bitset outer = true →
        ∀ range ∈ outermost bitset earlier ranges, ¬ range.LiesIn outer) :
    outermost bitset (earlier ++ passed) ranges = outermost bitset earlier ranges := by
  induction ranges generalizing earlier with
  | nil => rfl
  | cons range rest ih =>
    have others := @ih (range :: earlier)
      fun outer member isMissing other isOther => apart outer member isMissing other
        (mem_outermost_cons isOther)
    rw [List.cons_append] at others
    by_cases isOutermost : missing bitset range = true ∧
        ∀ outer ∈ earlier, missing bitset outer = true → ¬ range.LiesIn outer
    · have member : range ∈ outermost bitset earlier (range :: rest) := by
        rw [outermost, if_pos isOutermost]
        exact List.mem_cons_self
      have free : ∀ outer ∈ earlier ++ passed,
          missing bitset outer = true → ¬ range.LiesIn outer :=
        List.forall_mem_append.2
          ⟨isOutermost.2, fun outer isPassed missing => apart outer isPassed missing range member⟩
      rw [outermost, outermost, if_pos isOutermost, if_pos ⟨isOutermost.1, free⟩, others]
    · rw [outermost, outermost, if_neg isOutermost, if_neg, others]
      exact fun both => isOutermost
        ⟨both.1, fun outer member => both.2 outer (List.mem_append_left passed member)⟩

theorem outermost_skipped {earlier skipped rest : List TransRange} {range : TransRange}
    (isEarlier : range ∈ earlier) (isMissing : missing bitset range = true)
    (inside : ∀ inner ∈ skipped, inner.LiesIn range) :
    outermost bitset earlier (skipped ++ rest) =
      outermost bitset (skipped.reverse ++ earlier) rest := by
  induction skipped generalizing earlier with
  | nil => rfl
  | cons inner skipped ih =>
    rw [List.cons_append, outermost, if_neg, ih (by simp [isEarlier])
      fun inner member => inside inner (by simp [member])]
    · simp
    · rintro ⟨-, free⟩
      exact free range isEarlier isMissing (inside inner (by simp))

theorem outermost_present {range : TransRange} {rest : List TransRange}
    (present : missing bitset range = false) :
    outermost bitset [] (range :: rest) = outermost bitset [] rest := by
  rw [outermost, if_neg (by simp [present])]
  exact outermost_append [] [range] (by simp [present])

theorem outermost_absent {range : TransRange} {skipped rest : List TransRange}
    (isMissing : missing bitset range = true) (inside : ∀ inner ∈ skipped, inner.LiesIn range) :
    outermost bitset [] (range :: (skipped ++ rest)) =
      range :: outermost bitset (skipped.reverse ++ [range]) rest := by
  rw [outermost, if_pos (by simp [isMissing]),
    outermost_skipped (List.mem_singleton_self range) isMissing inside]

/-! ## Ranges that are marked again -/

theorem MarkedAgain.mono {ranges more : List TransRange} (sublist : ranges.Sublist more)
    (marked : MarkedAgain bitset ranges) :
    MarkedAgain bitset more := by
  rcases marked with ⟨outer, longer, again, ordered, rest⟩
  exact ⟨outer, longer, again, ordered.trans sublist, rest⟩

theorem markedAgain_of_ends {range : TransRange} {skipped rest : List TransRange}
    (nested : NestedRanges length (range :: (skipped ++ rest)))
    (isMissing : missing bitset range = true) (apart : ∀ next ∈ rest, range.ends ≤ next.begins)
    (skips : skipSubsumed range (skipped ++ rest) = rest) {again : TransRange}
    (member : again ∈ outermost bitset [] rest) (ends : again.ends = range.ends) :
    MarkedAgain bitset (range :: (skipped ++ rest)) := by
  rcases split_of_mem_outermost member with ⟨before, after, rfl, againMissing, free⟩
  have behind := apart again (by simp)
  have bounds := (nested.bounded again (by simp)).1
  obtain ⟨_, -, -, stops⟩ := exists_skipped range (skipped ++ (before ++ again :: after))
  rw [skips] at stops
  rcases before with _ | ⟨longer, before⟩
  · have goesOn := stops again rfl
    omega
  · have goesOn := stops longer rfl
    have starts := apart longer (by simp)
    have rest : NestedRanges length (longer :: (before ++ again :: after)) :=
      nested.sublist (by simp)
    have order := ((List.pairwise_cons.1 rest.nested).1 again (by simp)).1
    have present : missing bitset longer = false := by
      by_contra isLonger
      exact free longer (by simp) (by simpa using isLonger) ⟨order, by omega⟩
    refine ⟨range, longer, again, ?_, isMissing, present, againMissing, by omega, by omega,
      by omega, ends⟩
    simp

/-- The ranges that are marked are the outermost ones, unless one is marked again. -/
theorem visited_eq_outermost {ranges : List TransRange} (nested : NestedRanges length ranges)
    {numRanges : Nat} (enough : ranges.length ≤ numRanges) :
    ¬ MarkedAgain bitset ranges →
      visited bitset numRanges ranges = outermost bitset [] ranges := by
  refine NestedRanges.induction bitset ?_ ?_ ?_ nested enough
  · intro numRanges _
    exact visited_nil numRanges
  · intro numRanges range rest _ present ih notMarked
    rw [outermost_present present, visited_present present]
    exact ih fun marked => notMarked (marked.mono (List.sublist_cons_self range rest))
  · intro numRanges range skipped rest nested isMissing inside apart skips enough ih notMarked
    rw [outermost_absent isMissing inside, visited_absent isMissing skips,
      ih fun marked => notMarked (marked.mono (by simp))]
    congr 1
    refine (outermost_append [] (skipped.reverse ++ [range])
      fun outer member _ again isAgain liesIn => ?_).symm
    rcases split_of_mem_outermost isAgain with ⟨before, after, parts, -⟩
    have isRest : again ∈ rest := by simp [parts]
    have behind := apart again isRest
    have bounds := (nested.bounded again (by simp [isRest])).1
    have outerEnds : outer.ends ≤ range.ends := by
      simp only [List.mem_append, List.mem_reverse, List.mem_singleton] at member
      rcases member with isSkipped | rfl
      · exact (inside outer isSkipped).2
      · exact le_rfl
    have contains := liesIn.2
    exact notMarked (markedAgain_of_ends nested isMissing apart skips isAgain (by omega))

/-! ## The pieces -/

section Pieces

variable
  {string : Text}
  {f : Piece → Text}

/-- A later beginning leaves the text before it out. -/
theorem annotate_from (isText : ∀ bytes, f (.text bytes) = bytes) (string : Text)
    {first middle : Nat} (before : first ≤ middle) {ranges : List TransRange}
    (after : ∀ range ∈ ranges, middle ≤ range.begins) :
    (annotate string first ranges).flatMap f =
      slice string first middle ++ (annotate string middle ranges).flatMap f := by
  cases ranges with
  | nil => simp [annotate, isText, slice_append_drop before]
  | cons range rest =>
    simp only [annotate, List.flatMap_cons, isText]
    rw [← slice_append_slice before (after range (by simp))]
    simp

theorem length_render_annotate (string : Text) (position : Nat) (ranges : List TransRange) :
    ((annotate string position ranges).flatMap Piece.render).length =
      ((annotate string position ranges).flatMap Piece.plain).length +
        (NOT_STRING.length + CLOSE_NOT_STRING.length) * ranges.length := by
  induction ranges generalizing position with
  | nil => rfl
  | cons range rest ih =>
    simp only [annotate, List.flatMap_cons, List.length_append, ih,
      Piece.render, Piece.plain, List.length_cons, List.length_nil, Nat.mul_succ]
    omega

variable
  {ranges : List TransRange}
  (nested : NestedRanges length ranges)
  {numRanges : Nat}
  (enough : ranges.length ≤ numRanges)

include nested enough

theorem plain_annotate_visited (string : Text) (bitset : VarBit) :
    ∀ position : Nat, (∀ range ∈ ranges, position ≤ range.begins) →
      (annotate string position (visited bitset numRanges ranges)).flatMap Piece.plain =
        string.drop position := by
  refine NestedRanges.induction bitset ?_ ?_ ?_ nested enough
  · simp [visited_nil, annotate, Piece.plain]
  · intro _ range rest _ present ih position before
    rw [visited_present present]
    exact ih position fun range member => before range (by simp [member])
  · intro _ range skipped rest nested isMissing inside apart skips _ ih position before
    rw [visited_absent isMissing skips]
    simp only [annotate, List.flatMap_cons, Piece.plain, ih range.ends apart, List.nil_append]
    rw [slice_append_drop (nested.bounded range (by simp)).1,
      slice_append_drop (before range (by simp))]

theorem markersLength_eq (fit : SetsFit bitset ranges) :
    markersLength bitset numRanges ranges =
      .ok ((NOT_STRING.length + CLOSE_NOT_STRING.length) *
        (visited bitset numRanges ranges).length) := by
  revert fit
  refine NestedRanges.induction bitset ?_ ?_ ?_ nested enough
  · intro numRanges _
    cases numRanges <;> rfl
  · intro _ range rest _ present ih fit
    rw [visited_present present, markersLength, fit.bitsetContains_eq (by simp), present]
    exact ih (fit.sublist (by simp))
  · intro _ range skipped rest _ isMissing inside apart skips _ ih fit
    rw [visited_absent isMissing skips, markersLength, fit.bitsetContains_eq (by simp), isMissing,
      skips, ih (fit.sublist (by simp)), List.length_cons, Nat.mul_succ,
      Nat.add_comm (_ * List.length _)]
    rfl

omit nested enough in
theorem copyParts_nil (string : Text) (numRanges before : Nat) :
    copyParts string bitset numRanges [] before = .ok ([], before) := by
  cases numRanges <;> rfl

omit enough in
theorem NestedRanges.head_le {range : TransRange} (member : range ∈ ranges) (before : Nat) :
    (ranges.head?.map TransRange.begins).getD before ≤ range.begins := by
  cases ranges with
  | nil => simp at member
  | cons first rest =>
    rcases List.mem_cons.mp member with rfl | later
    · exact le_rfl
    · exact ((List.pairwise_cons.mp nested.nested).1 range later).1

/-- Everything is copied but, possibly, the end of the text. -/
theorem copyParts_eq (string : Text) (fit : SetsFit bitset ranges) (before : Nat) :
    ∃ parts before', copyParts string bitset numRanges ranges before = .ok (parts, before') ∧
      let pieces := annotate string ((ranges.head?.map TransRange.begins).getD before)
        (visited bitset numRanges ranges)
      parts = pieces.flatMap Piece.render ∨
        parts ++ string.drop before' = pieces.flatMap Piece.render := by
  revert fit before
  refine NestedRanges.induction bitset ?_ ?_ ?_ nested enough
  · intro numRanges _ before
    refine ⟨[], before, copyParts_nil string numRanges before, .inr ?_⟩
    simp [visited_nil, annotate, Piece.render]
  · intro numRanges range rest nested present ih fit before
    rcases ih (fit.sublist (by simp)) range.ends with ⟨parts, before', copied, complete⟩
    refine ⟨slice string range.begins ((rest.head?.map TransRange.begins).getD string.length) ++
      parts, before', ?_, ?_⟩
    · rw [copyParts, fit.bitsetContains_eq (by simp), present, copied]
      rfl
    · rw [visited_present present]
      cases rest with
      | nil =>
        cases (copyParts_nil string _ _).symm.trans copied
        exact .inl (by simp [visited_nil, annotate, Piece.render, slice_length])
      | cons next rest =>
        have ordered := (List.pairwise_cons.mp nested.nested).1 next (by simp)
        have least : ∀ range ∈ visited bitset numRanges (next :: rest),
            next.begins ≤ range.begins :=
          fun range member => nested.tail.head_le (visited_subset _ _ member) 0
        have from_ := annotate_from (f := Piece.render) (fun _ => rfl) string ordered.1 least
        simp only [List.head?_cons, Option.map_some, Option.getD_some] at complete ⊢
        rw [from_, List.append_assoc, List.append_right_inj, List.append_right_inj]
        exact complete
  · intro numRanges range skipped rest nested isMissing inside apart skips _ ih fit before
    rcases ih (fit.sublist (by simp)) range.ends with ⟨parts, before', copied, complete⟩
    have restNested : NestedRanges length rest := nested.sublist (by simp)
    have gap :
        (match rest.head? with
          | some next =>
            if range.ends < next.begins then slice string range.ends next.begins else []
          | none => []) =
          slice string range.ends ((rest.head?.map TransRange.begins).getD range.ends) := by
      cases rest with
      | nil => simp [slice]
      | cons next rest =>
        have := apart next (by simp)
        simp only [List.head?_cons, Option.map_some, Option.getD_some, ite_eq_left_iff, not_lt]
        intro adjacent
        simp [slice, Nat.sub_eq_zero_of_le adjacent]
    have least :
        ∀ next ∈ visited bitset numRanges rest,
          (rest.head?.map TransRange.begins).getD range.ends ≤ next.begins :=
      fun next member => restNested.head_le (visited_subset _ _ member) _
    have later : range.ends ≤ (rest.head?.map TransRange.begins).getD range.ends := by
      cases rest with
      | nil => exact le_rfl
      | cons next rest => exact apart next (by simp)
    have from_ := annotate_from (f := Piece.render) (fun _ => rfl) string later least
    refine ⟨NOT_STRING ++ slice string range.begins range.ends ++ CLOSE_NOT_STRING ++
      slice string range.ends ((rest.head?.map TransRange.begins).getD range.ends) ++ parts,
      before', ?_, ?_⟩
    · rw [copyParts, fit.bitsetContains_eq (by simp), isMissing]
      simp only [skips, gap, copied]
      rfl
    · rw [visited_absent isMissing skips]
      simp only [List.head?_cons, Option.map_some, Option.getD_some, annotate, List.flatMap_cons,
        Piece.render, from_, slice, Nat.sub_self, List.take_zero, List.nil_append,
        List.append_assoc, List.append_right_inj]
      exact complete

end Pieces

/-- The text of a query is generated with markers around the ranges that are visited. -/
theorem generateTransProvRep_eq {info : TransRepQueryInfo}
    (nested : NestedRanges info.string.length info.ranges)
    (starts : info.ranges.head?.map TransRange.begins = some 0)
    (fit : SetsFit bitset info.ranges) :
    let pieces := annotate info.string 0 (visited bitset info.ranges.length info.ranges)
    generateTransProvRep info bitset = .ok (pieces.flatMap Piece.render) ∧
      pieces.flatMap Piece.plain = info.string ∧
        resultLength info bitset = .ok (pieces.flatMap Piece.render).length := by
  have plain := plain_annotate_visited nested le_rfl info.string bitset 0
    fun range _ => Nat.zero_le range.begins
  have markers := markersLength_eq nested le_rfl fit
  have length := length_render_annotate info.string 0
    (visited bitset info.ranges.length info.ranges)
  rcases copyParts_eq nested le_rfl info.string fit
    ((info.ranges.head?.map TransRange.ends).getD 0) with ⟨parts, before, copied, complete⟩
  rw [starts, Option.getD_some] at complete
  rw [plain, List.drop_zero] at length
  have bound : resultLength info bitset = .ok ((annotate info.string 0
      (visited bitset info.ranges.length info.ranges)).flatMap Piece.render).length := by
    rw [resultLength, markers, length]
    rfl
  refine ⟨?_, plain, bound⟩
  rw [generateTransProvRep, bound, copied]
  show (if _ then _ else _) = _
  rcases complete with complete | complete
  · rw [if_neg (by rw [complete]; exact lt_irrefl _), complete]
    rfl
  · split
    · rw [complete]
      rfl
    · next full =>
        rw [← complete, List.length_append, not_lt] at full
        rw [List.length_eq_zero_iff.mp (show (info.string.drop before).length = 0 by omega),
          List.append_nil] at complete
        rw [complete]
        rfl

/-- The text of a query is annotated, unless an empty range is marked again. -/
theorem annotates_of_not_markedAgain {info : TransRepQueryInfo}
    (nested : NestedRanges info.string.length info.ranges)
    (starts : info.ranges.head?.map TransRange.begins = some 0)
    (fit : SetsFit bitset info.ranges) (notMarked : ¬ MarkedAgain bitset info.ranges) :
    Annotates info bitset := by
  obtain ⟨generated, plain, bound⟩ := generateTransProvRep_eq nested starts fit
  rw [visited_eq_outermost nested le_rfl notMarked] at generated plain bound
  exact ⟨generated, plain, _, bound, le_rfl⟩

end Traversal

/-! ## Empty ranges -/

/-- A text of two parts, the second of which contains an empty one. -/
def adjacentParts (position : Nat) : TransRepQueryInfo where
  string := ascii "aaaaabbb"
  ranges := [
    ⟨0, 5, generateVarbitSetElem 3 1⟩,
    ⟨5, 8, generateVarbitSetElem 3 2⟩,
    ⟨position, position, generateVarbitSetElem 3 3⟩]

theorem nestedRanges_adjacentParts {position : Nat} (bounds : 5 ≤ position ∧ position ≤ 8) :
    NestedRanges (adjacentParts position).string.length (adjacentParts position).ranges := by
  constructor
  · simp [adjacentParts, ascii]
    omega
  · simp [adjacentParts]
    omega

theorem setsFit_adjacentParts (position : Nat) :
    SetsFit (generateVarbitSetElem 3 2) (adjacentParts position).ranges := by
  have padded (value : Nat) (inside : 1 ≤ value ∧ value ≤ 3) :
      (generateVarbitSetElem 3 value).ZeroPadded :=
    zeroPadded_generateVarbitSetElem inside.1 inside.2
  refine ⟨padded 2 (by decide), ?_⟩
  intro range member
  simp only [adjacentParts, List.mem_cons, List.not_mem_nil, or_false] at member
  rcases member with rfl | rfl | rfl
  · exact ⟨rfl, padded 1 (by decide)⟩
  · exact ⟨rfl, padded 2 (by decide)⟩
  · exact ⟨rfl, padded 3 (by decide)⟩

/-- An empty range inside a part that contributes is marked once. -/
theorem annotates_adjacentParts :
    Annotates (adjacentParts 6) (generateVarbitSetElem 3 2) := by
  refine annotates_of_not_markedAgain (nestedRanges_adjacentParts (by decide)) rfl
    (setsFit_adjacentParts 6) ?_
  rintro ⟨outer, longer, again, ordered, -, -, -, -, -, -, ends⟩
  have all : [outer, longer, again] = (adjacentParts 6).ranges := ordered.eq_of_length rfl
  rw [adjacentParts, List.cons.injEq, List.cons.injEq, List.cons.injEq] at all
  rw [all.1, all.2.2.1] at ends
  revert ends
  decide

/-- An empty range at the end of a part which is marked is marked again. -/
theorem not_annotates_adjacentParts :
    NestedRanges (adjacentParts 5).string.length (adjacentParts 5).ranges ∧
      (adjacentParts 5).ranges.head?.map TransRange.begins = some 0 ∧
      SetsFit (generateVarbitSetElem 3 2) (adjacentParts 5).ranges ∧
      ¬ Annotates (adjacentParts 5) (generateVarbitSetElem 3 2) := by
  refine ⟨nestedRanges_adjacentParts (by decide), rfl, setsFit_adjacentParts 5, ?_⟩
  rintro ⟨generated, -⟩
  have text :
      (generateTransProvRep (adjacentParts 5) (generateVarbitSetElem 3 2)).toOption =
        some (ascii "<NOT>aaaaa</NOT><NOT></NOT>bbb") := by
    decide +kernel
  rw [generated] at text
  revert text
  decide +kernel

end Ldv.Trans
