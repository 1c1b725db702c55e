import Ldv.Capture.QuerySplit

/-!
# The values added to an INSERT

The client drops the last character of the VALUES clause and writes the
identifier of the query, the number of the session and the current time
instead, with a closing parenthesis.  These values are the first three of
the four columns that the capture adds to a table.
-/

namespace Ldv.Statement

open CText
open SqlText

/-! ## The tuples of a VALUES clause -/

/-- The values of the columns of a table; a column without a value has its default. -/
def padded (width : Nat) (row : List Text) : List (Option Text) :=
  row.map some ++ List.replicate (width - row.length) none

/-- Rows have the same number of values, and no more than the table has columns. -/
def AcceptedRows (width : Nat) (rows : List (List Text)) : Prop :=
  ∀ row ∈ rows, row.length ≤ width ∧ ∀ other ∈ rows, row.length = other.length

instance (width : Nat) (rows : List (List Text)) : Decidable (AcceptedRows width rows) :=
  inferInstanceAs (Decidable (∀ row ∈ rows, _ ∧ ∀ other ∈ rows, _))

/-- The tuples that a VALUES clause inserts in a table. -/
def insertedTuples (width : Nat) (text : Text) : Option (List (List (Option Text))) := do
  let rows ← readRows text
  if AcceptedRows width rows then some (rows.map (padded width)) else none

/-- The values of the columns added by the capture. -/
def captureValues (queryid sessionid : Int) : List (Option Text) :=
  [some (signedDecimal queryid), some (signedDecimal sessionid), some (ascii "now()"), none]

/-! ## INSERT statements -/

/-- An INSERT of rows in a table with some columns. -/
structure InsertText where
  query : QueryText
  values : Clause
  rows : List Row
  returning : Option Clause
  width : Nat

structure InsertText.WellFormed (insert : InsertText) : Prop where
  query : insert.query.WellFormed
  type : insert.query.type = .insert
  clauses : insert.query.clauses = [some insert.values, insert.returning]
  body : insert.values.body = rowsText insert.rows
  nonempty : insert.rows ≠ []
  rows : ∀ row ∈ insert.rows, row.WellFormed
  accepted : AcceptedRows insert.width (insert.rows.map Row.items)

/-- The texts fit in the buffers, the semicolon included. -/
structure InsertText.Fits (insert : InsertText) (queryid sessionid : Int) : Prop where
  total : insert.query.text.length + (signedDecimal queryid).length +
    (signedDecimal sessionid).length + 13 < strMaxLen
  table : insert.query.body.length < Buffer.table.size

def returningText (returning : Option Clause) : Text :=
  returning.elim [] fun clause => ascii " RETURNING " ++ clause.body

/--
The statement that is built inserts the tuples of the original statement,
each with the values of the added columns.
-/
def InsertText.Rewrites (insert : InsertText) (queryid sessionid : Int) : Prop :=
  ∃ values tuples,
    prvAssembleQuery insert.query.text (signedDecimal queryid) sessionid =
      some (some .insert,
        some (ascii "INSERT INTO " ++ insert.query.body ++ ascii " VALUES " ++ values ++
          returningText insert.returning),
        some insert.query.body) ∧
    insertedTuples insert.width insert.values.body = some tuples ∧
    insertedTuples (insert.width + 4) values =
      some (tuples.map (· ++ captureValues queryid sessionid))

/-- One row with a value for every column, and nothing between it and the end. -/
def InsertText.OneFullRow (insert : InsertText) : Prop :=
  ∃ row, insert.rows = [row] ∧ row.after = [] ∧ row.values.length = insert.width

/-! ## The text of the values -/

theorem signedDecimal_ne_nil (number : Int) : signedDecimal number ≠ [] := by
  have digits (value : Nat) : decimal value ≠ [] := by
    rw [decimal]
    split
    · simp
    · simpa [Nat.digits_eq_nil_iff_eq_zero]
  rw [signedDecimal]
  split
  · simp
  · exact digits _

theorem isWhite_signedDecimal {number : Int} {char : UInt8}
    (member : char ∈ signedDecimal number) : isWhite char = false := by
  obtain ⟨low, -⟩ := signedDecimal_range member
  by_contra white
  simp only [isWhite, Bool.not_eq_false, Bool.or_eq_true, decide_eq_true_eq,
    Bool.and_eq_true] at white
  rcases white with rfl | ⟨-, high⟩
  · exact absurd low (by decide)
  · exact absurd (UInt8.le_trans low high) (by decide)

/-- One minus sign is no comment. -/
theorem closed_signedDecimal (number : Int) : Closed (32 :: signedDecimal number) := by
  have plain {value : Nat} {char : UInt8} (digit : char ∈ decimal value) : char ∉ special := by
    have below : ∀ char ∈ special, char < 48 ∨ 57 < char := by simp [special]
    intro isSpecial
    rcases below char isSpecial with low | high
    · exact absurd (digit_range digit).1 (UInt8.not_le.2 low)
    · exact absurd (digit_range digit).2 (UInt8.not_le.2 high)
  refine @closed_append [32] (signedDecimal number) rfl ?_
  unfold signedDecimal
  split
  · exact run_of_plain (.inr (.inr rfl)) fun _ digit => plain digit
  · exact closed_of_plain fun _ digit => plain digit

/-- The values written instead of the last parenthesis. -/
def addedValues (queryid sessionid : Int) : List Text :=
  [32 :: signedDecimal queryid, 32 :: signedDecimal sessionid, ascii " now()"]

def extendedRow (queryid sessionid : Int) (row : Row) : Row where
  before := row.before
  values := row.values ++ addedValues queryid sessionid
  after := []

theorem closed_addedValues {queryid sessionid : Int} {value : Text}
    (member : value ∈ addedValues queryid sessionid) : Closed value := by
  simp only [addedValues, List.mem_cons, List.not_mem_nil, or_false] at member
  rcases member with rfl | rfl | rfl
  · exact closed_signedDecimal queryid
  · exact closed_signedDecimal sessionid
  · decide

theorem trim_addedValues (queryid sessionid : Int) :
    (addedValues queryid sessionid).map trim =
      [signedDecimal queryid, signedDecimal sessionid, ascii "now()"] := by
  have now : trim (ascii " now()") = ascii "now()" := by decide
  simp only [addedValues, List.map_cons, List.map_nil, now,
    trim_space fun _ digit => isWhite_signedDecimal digit]

theorem wellFormed_extendedRow (queryid sessionid : Int) {row : Row}
    (wellFormed : row.WellFormed) : (extendedRow queryid sessionid row).WellFormed where
  before := wellFormed.before
  after := rfl
  nonempty := by simp [extendedRow, wellFormed.nonempty]
  closed := by
    intro value member
    rcases List.mem_append.1 member with own | added
    · exact wellFormed.closed value own
    · exact closed_addedValues added
  present := by
    intro value member
    rcases List.mem_append.1 member with own | added
    · exact wellFormed.present value own
    · have trimmed := List.mem_map_of_mem (f := trim) added
      rw [trim_addedValues] at trimmed
      simp only [List.mem_cons, List.not_mem_nil, or_false] at trimmed
      rcases trimmed with same | same | same <;> rw [same]
      · exact signedDecimal_ne_nil queryid
      · exact signedDecimal_ne_nil sessionid
      · decide

theorem items_extendedRow (queryid sessionid : Int) (row : Row) :
    (extendedRow queryid sessionid row).items =
      row.items ++ [signedDecimal queryid, signedDecimal sessionid, ascii "now()"] := by
  rw [Row.items, extendedRow, List.map_append, trim_addedValues, Row.items]

/-- The last character of the rows is dropped. -/
theorem insertedValues_concat (queryid sessionid : Int) (init : List Row) {last : Row}
    {text : Text} {char : UInt8} (original : last.text = text ++ [char]) :
    ∃ lead, (∀ row : Row, rowsText (init ++ [row]) = lead ++ row.text) ∧
      insertedValues (rowsText (init ++ [last])) (signedDecimal queryid) sessionid =
        lead ++ text ++ 44 :: (join (addedValues queryid sessionid) ++ [41]) := by
  obtain ⟨lead, concat⟩ := exists_join_concat (init.map Row.text)
  have comma : ascii ", " = [44, 32] := by decide
  have now : ascii ", now())" = 44 :: ascii " now()" ++ [41] := by decide
  have rows (row : Row) : rowsText (init ++ [row]) = lead ++ row.text := by
    simp [rowsText, concat]
  refine ⟨lead, rows, ?_⟩
  rw [rows, insertedValues, original, ← List.append_assoc lead, List.dropLast_concat, comma, now]
  simp [addedValues, join, List.intercalate]

/-- The parenthesis of the last row is dropped. -/
theorem insertedValues_parenthesis (queryid sessionid : Int) (init : List Row) {last : Row}
    (nonempty : last.values ≠ []) (after : last.after = []) :
    insertedValues (rowsText (init ++ [last])) (signedDecimal queryid) sessionid =
      rowsText (init ++ [extendedRow queryid sessionid last]) := by
  obtain ⟨lead, rows, inserted⟩ := @insertedValues_concat queryid sessionid init last
    (last.before ++ 40 :: join last.values) 41 (by simp [Row.text, after])
  rw [inserted, rows]
  simp [Row.text, extendedRow, join_append nonempty (List.cons_ne_nil _ _), addedValues]

/-- A white character behind the last row is dropped. -/
theorem insertedValues_white (queryid sessionid : Int) (init : List Row) {last : Row}
    {after : Text} {white : UInt8} (afterLast : last.after = after ++ [white]) :
    insertedValues (rowsText (init ++ [last])) (signedDecimal queryid) sessionid =
      rowsText (init ++ [{ last with after := after }]) ++
        44 :: (join (addedValues queryid sessionid) ++ [41]) := by
  obtain ⟨lead, rows, inserted⟩ := @insertedValues_concat queryid sessionid init last
    (Row.text { last with after := after }) white (by simp [Row.text, afterLast])
  rw [inserted, rows]

/-! ## The tuples inserted -/

theorem insertedTuples_rowsText {width : Nat} {rows : List Row} (nonempty : rows ≠ [])
    (wellFormed : ∀ row ∈ rows, row.WellFormed) :
    insertedTuples width (rowsText rows) =
      if AcceptedRows width (rows.map Row.items) then
        some ((rows.map Row.items).map (padded width))
      else none := by
  rw [insertedTuples, readRows_rowsText nonempty wellFormed]
  rfl

theorem wellFormed_concat {init : List Row} {last last' : Row}
    (wellFormed : ∀ row ∈ init ++ [last], row.WellFormed) (wellFormedLast : last'.WellFormed) :
    ∀ row ∈ init ++ [last'], row.WellFormed := by
  intro row member
  rcases List.mem_append.1 member with first | isLast
  · exact wellFormed row (List.mem_append_left _ first)
  · rw [List.mem_singleton.1 isLast]
    exact wellFormedLast

/-- Behind a row that is complete, the added values are no row. -/
theorem insertedTuples_white {width : Nat} (queryid sessionid : Int) {init : List Row} {last : Row}
    (wellFormed : ∀ row ∈ init ++ [last], row.WellFormed) (after : last.after ≠ []) :
    insertedTuples width
      (insertedValues (rowsText (init ++ [last])) (signedDecimal queryid) sessionid) = none := by
  have wellFormedLast := wellFormed last (by simp)
  have afterLast := (List.dropLast_append_getLast after).symm
  have shortened : Row.WellFormed { last with after := last.after.dropLast } :=
    { wellFormedLast with
      after := by
        rw [List.all_eq_true]
        intro char member
        exact List.all_eq_true.1 wellFormedLast.after char (List.mem_of_mem_dropLast member) }
  have closed : ∀ item ∈ (init ++ [{ last with after := last.after.dropLast }]).map Row.text,
      Closed item := by
    intro item member
    obtain ⟨row, rowMember, rfl⟩ := List.mem_map.1 member
    exact (wellFormed_concat wellFormed shortened row rowMember).closed_text
  have unclosed : split {} [] (join (addedValues queryid sessionid) ++ [41]) = none := by
    have init : addedValues queryid sessionid =
        [32 :: signedDecimal queryid, 32 :: signedDecimal sessionid] ++ [ascii " now()"] := rfl
    have closedInit : ∀ item ∈ [32 :: signedDecimal queryid, 32 :: signedDecimal sessionid],
        Closed item := by
      intro item member
      apply @closed_addedValues queryid sessionid
      rw [init]
      exact List.mem_append_left _ member
    rw [init, join_append (by simp) (by simp), List.append_assoc, List.cons_append,
      split_join_append (by simp) closedInit]
    have single : join [ascii " now()"] = ascii " now()" := by decide
    rw [single, split_parenthesis (by decide)]
    rfl
  rw [insertedTuples, readRows, insertedValues_white queryid sessionid init afterLast, rowsText,
    split_join_append (by simp) closed, unclosed]
  rfl

/-- The last row is longer than the others. -/
theorem insertedTuples_rows {width : Nat} (queryid sessionid : Int) {init : List Row} {last : Row}
    (wellFormed : ∀ row ∈ init ++ [last], row.WellFormed) (after : last.after = [])
    (accepted : AcceptedRows width ((init ++ [last]).map Row.items)) (several : init ≠ []) :
    insertedTuples (width + 4)
      (insertedValues (rowsText (init ++ [last])) (signedDecimal queryid) sessionid) = none := by
  have wellFormedLast := wellFormed last (by simp)
  rw [insertedValues_parenthesis queryid sessionid init wellFormedLast.nonempty after,
    insertedTuples_rowsText (by simp)
      (wellFormed_concat wellFormed (wellFormed_extendedRow queryid sessionid wellFormedLast)),
    if_neg]
  intro acceptedExtended
  obtain ⟨first, init, rfl⟩ := List.exists_cons_of_ne_nil several
  have same := (accepted first.items (by simp)).2 last.items (by simp)
  have sameExtended := (acceptedExtended first.items (by simp)).2
    (extendedRow queryid sessionid last).items (by simp)
  rw [items_extendedRow, List.length_append] at sameExtended
  simp at sameExtended
  omega

theorem padded_added_iff {width : Nat} {row : List Text} (small : row.length ≤ width)
    (queryid sessionid : Int) :
    padded (width + 4)
        (row ++ [signedDecimal queryid, signedDecimal sessionid, ascii "now()"]) =
      padded width row ++ captureValues queryid sessionid ↔ row.length = width := by
  constructor
  · intro same
    by_contra different
    have missing : width - row.length = (width - row.length - 1) + 1 := by omega
    have atEnd := congrArg (fun values => values[row.length]?) same
    rw [padded, padded, missing, List.replicate_succ] at atEnd
    simp at atEnd
  · intro full
    simp [padded, captureValues, full]

theorem insertedTuples_row {width : Nat} (queryid sessionid : Int) {row : Row}
    (wellFormed : row.WellFormed) (after : row.after = []) (small : row.values.length ≤ width) :
    insertedTuples (width + 4)
        (insertedValues (rowsText [row]) (signedDecimal queryid) sessionid) =
      some [padded width row.items ++ captureValues queryid sessionid] ↔
      row.values.length = width := by
  have itemsLength : row.items.length = row.values.length := by simp [Row.items]
  have text := insertedValues_parenthesis queryid sessionid [] wellFormed.nonempty after
  rw [List.nil_append, List.nil_append] at text
  rw [text, insertedTuples_rowsText (by simp), if_pos]
  · rw [List.map_singleton, List.map_singleton, items_extendedRow, Option.some_inj,
      List.singleton_inj, padded_added_iff (by omega), itemsLength]
  · intro items member
    obtain rfl : items = (extendedRow queryid sessionid row).items := by simpa using member
    constructor
    · rw [items_extendedRow, List.length_append, itemsLength]
      simp
      omega
    · intro other otherMember
      simp at otherMember
      rw [otherMember]
  · intro other member
    rw [List.mem_singleton.1 member]
    exact wellFormed_extendedRow queryid sessionid wellFormed

/-! ## The statement built -/

theorem writeClauses_insert {ending body : Text} {values : Clause} {returning : Option Clause}
    (total : (body ++ clausesText [some values, returning] ++ ending).length < 1000)
    (table : body.length < 256) :
    ∃ buffers, writeClauses ending body [some values, returning] (some .table)
        [some .value, some .returning] (fun _ => none) = some buffers ∧
      buffers .table = some body ∧ buffers .value = some values.body ∧
      buffers .returning = some (returning.elim [] Clause.body) := by
  cases returning <;>
    simp only [clausesText, Clause.text, List.flatMap_cons, List.flatMap_nil, Option.elim,
      List.length_append, List.length_cons, List.length_nil] at total <;>
    simp (disch := simp [Buffer.size, strMaxLen] <;> omega) only [writeClauses, write_of_lt,
      write_nil, Option.bind_eq_bind, Option.bind_some] <;>
    simp [Function.update]

theorem length_returningText {clause : Option Clause}
    (follows : ∀ present ∈ clause, present.Follows (ascii "returning")) :
    (returningText clause).length ≤ (clause.elim [] Clause.text).length + 1 := by
  rcases clause with _ | clause
  · simp [returningText]
  · have keyword : (ascii "returning").length = 9 := by decide
    have written : (ascii " RETURNING ").length = 11 := by decide
    simp only [returningText, Option.elim, List.length_append, length_text (follows clause rfl)]
    omega

theorem prvAssembleQuery_insert {insert : InsertText} (wellFormed : insert.WellFormed)
    (clear : Clear (markers .insert) insert.query.body insert.query.clauses insert.query.ending)
    {queryid sessionid : Int} (fits : insert.Fits queryid sessionid) :
    prvAssembleQuery insert.query.text (signedDecimal queryid) sessionid =
      some (some .insert,
        some (ascii "INSERT INTO " ++ insert.query.body ++ ascii " VALUES " ++
          insertedValues insert.values.body (signedDecimal queryid) sessionid ++
          returningText insert.returning),
        some insert.query.body) := by
  have follows := wellFormed.query.clauses
  have parsed := @prvParseRest_of_clear insert.query _ _ follows insert.query.body (some .table)
    [some .value, some .returning] (fun _ => none) (by rw [wellFormed.type]; exact clear)
    (by rw [wellFormed.type]; rfl) wellFormed.query.ending
  have total := fits.total
  have command : (SmtType.smt .insert).length = 11 := by decide
  simp only [wellFormed.type, wellFormed.clauses, markers, List.forall₂_cons] at follows parsed
  rw [strMaxLen, QueryText.text, List.length_append, List.length_cons,
    length_eq_of_lower wellFormed.query.command, wellFormed.type, wellFormed.clauses, command]
    at total
  obtain ⟨buffers, found, table, value, returning⟩ :=
    @writeClauses_insert insert.query.ending insert.query.body insert.values insert.returning
      (by omega) fits.table
  have valuesLength := length_text (follows.1 insert.values rfl)
  have valuesPresent := List.length_pos_iff.2 (follows.1 insert.values rfl).body
  have returningLength := length_returningText follows.2.1
  have keyword : (ascii "values").length = 6 := by decide
  have written : (ascii "INSERT INTO ").length = 12 := by decide
  have writtenValues : (ascii " VALUES ").length = 8 := by decide
  have comma : (ascii ", ").length = 2 := by decide
  have now : (ascii ", now())").length = 8 := by decide
  have resultFits : (ascii "INSERT INTO " ++ insert.query.body ++ ascii " VALUES " ++
      insertedValues insert.values.body (signedDecimal queryid) sessionid ++
      returningText insert.returning).length < 1000 := by
    simp only [length_clausesText_cons, Option.elim_some, List.length_append, insertedValues,
      List.length_dropLast] at total ⊢
    omega
  rw [returningText, ← appendClause_body follows.2.1] at resultFits ⊢
  simp only [prvAssembleQuery, prvGetStart_text wellFormed.query, wellFormed.type,
    wellFormed.clauses, prvAssemble, arguments, markers, parsed, found, table, value, returning,
    Option.bind_eq_bind, Option.bind_some, allocate_of_lt resultFits]
  rfl

/-! ## The result -/

/-- The tuples of the built statement are those of the edited text. -/
theorem rewrites_iff_insertedTuples {insert : InsertText} (wellFormed : insert.WellFormed)
    (clear : Clear (markers .insert) insert.query.body insert.query.clauses insert.query.ending)
    {queryid sessionid : Int} (fits : insert.Fits queryid sessionid) :
    insert.Rewrites queryid sessionid ↔
      insertedTuples (insert.width + 4)
          (insertedValues (rowsText insert.rows) (signedDecimal queryid) sessionid) =
        some (((insert.rows.map Row.items).map (padded insert.width)).map
          (· ++ captureValues queryid sessionid)) := by
  have built := prvAssembleQuery_insert wellFormed clear fits
  have original : insertedTuples insert.width insert.values.body =
      some ((insert.rows.map Row.items).map (padded insert.width)) := by
    rw [wellFormed.body, insertedTuples_rowsText wellFormed.nonempty wellFormed.rows,
      if_pos wellFormed.accepted]
  constructor
  · rintro ⟨values, tuples, result, inserted, extended⟩
    rw [built] at result
    rw [original] at inserted
    cases inserted
    simp only [Option.some.injEq, Prod.mk.injEq, true_and, and_true,
      List.append_cancel_left_eq, List.append_cancel_right_eq] at result
    rw [← wellFormed.body, result, extended]
  · intro extended
    rw [← wellFormed.body] at extended
    exact ⟨_, _, built, original, extended⟩

/-- The insertion of some rows in the table `t`, up to the end of the statement. -/
def insertRows (rows : List Row) (width : Nat) : InsertText where
  query :=
    { type := .insert, command := ascii "INSERT INTO", separator := 32, body := ascii "t"
      clauses := [some ⟨32, ascii "VALUES", rowsText rows⟩, none], semicolon := true }
  values := ⟨32, ascii "VALUES", rowsText rows⟩
  rows := rows
  returning := none
  width := width

theorem wellFormed_insertRows {rows : List Row} {width : Nat} (nonempty : rows ≠ [])
    (wellFormed : ∀ row ∈ rows, row.WellFormed)
    (accepted : AcceptedRows width (rows.map Row.items)) (text : rowsText rows ≠ [])
    (ending : (rowsText rows).getLast? ≠ some 59) : (insertRows rows width).WellFormed where
  query :=
    { command := by
        show lower (ascii "INSERT INTO") = ascii "insert into"
        decide
      separator := rfl
      clauses := by
        have keyword : lower (ascii "VALUES") = ascii "values" := by decide
        refine .cons ?_ (.cons (by rintro _ ⟨⟩) .nil)
        rintro _ ⟨⟩
        exact ⟨rfl, keyword, text⟩
      ending := ending }
  type := rfl
  clauses := rfl
  body := rfl
  nonempty := nonempty
  rows := wellFormed
  accepted := accepted

/-- A row with commas in a string, in an array and in a comment. -/
def quotedRow : Row :=
  ⟨[32], [ascii "1", ascii " 'a, (b'", ascii " ARRAY[1, 2] /* a, b */"], []⟩

theorem wellFormed_quotedRow : ∀ row ∈ [quotedRow], row.WellFormed := by
  intro row member
  rw [List.mem_singleton.1 member]
  exact ⟨by decide, by decide, by simp [quotedRow], by decide, by decide⟩

def numberRow (number : Nat) : Row := ⟨[32], [decimal number], []⟩

theorem wellFormed_numberRow : ∀ row ∈ [numberRow 1, numberRow 2], row.WellFormed := by
  intro row member
  simp only [List.mem_cons, List.not_mem_nil, or_false] at member
  rcases member with rfl | rfl <;>
    exact ⟨by decide, by decide, by simp [numberRow], by decide, by decide⟩

end Ldv.Statement
