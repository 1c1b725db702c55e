import Ldv.Capture.Restore
import Ldv.Capture.InsertRewrite
import Ldv.Capture.TableDictionary

/-!
# The rows in a log

The client writes a table and rows of it into its log as SQL statements, and
another client executes the statements.  The values are written between
quotes as they are, so that a value is restored only if it has no character
with a meaning of its own in a string or in the log.  Several clients that
execute the statements do the same as with the history of `Capture.Restore`.
-/

namespace Ldv.RowLog

open CText
open SqlText
open Interleaving
open Ldv.Capture
open Ldv.Capture.TableDictionary
open Ldv.Statement

/-! ## The server -/

/-- A column as the information schema describes it. -/
structure ColumnInformation where
  columnName : Text
  dataType : Text
  characterMaximumLength : Text
  columnDefault : Text
deriving DecidableEq

/--
How a server describes and reads columns, names and values.  A string that is
a value is converted by the column; other expressions are evaluated.
-/
structure Server (Column : Type) where
  information : Column → ColumnInformation
  readName : Text → Option Text
  readColumn : Text → Option Column
  input : Column → Text → Option Text
  evaluate : Column → Text → Option (Option Text)
  default : Column → Option Text

structure Table (Column : Type) where
  columns : List Column
  rows : List (List (Option Text))
deriving DecidableEq

abbrev Database (Column : Type) := Text → Option (Table Column)

inductive SqlStatement where
  | create (name : Text) (definitions : List Text)
  | insert (name : Text) (rows : List (List Text))
deriving DecidableEq

/-- The text of a statement without the white space and the semicolon at its end. -/
def statementBody (sql : Text) : Text :=
  if (trim sql).getLast? = some 59 then (trim sql).dropLast else trim sql

def readStatement (sql : Text) : Option SqlStatement :=
  if (ascii "CREATE TABLE ").isPrefixOf (statementBody sql) then
    let rest := (statementBody sql).drop 13
    (readRow (rest.dropWhile (· ≠ 32))).map fun definitions =>
      .create (rest.takeWhile (· ≠ 32)) definitions
  else if (ascii "INSERT INTO ").isPrefixOf (statementBody sql) then
    let rest := (statementBody sql).drop 12
    let values := rest.dropWhile (· ≠ 32)
    if (ascii " VALUES ").isPrefixOf values then
      (readRows (values.drop 8)).map fun rows => .insert (rest.takeWhile (· ≠ 32)) rows
    else none
  else none

/-- The value of a string without quotes and backslashes. -/
def literal (item : Text) : Option Text :=
  match item with
  | 39 :: rest =>
    if rest.getLast? = some 39 ∧ 39 ∉ rest.dropLast ∧ 92 ∉ rest.dropLast then some rest.dropLast
    else none
  | _ => none

section Execution

variable {Column : Type} (server : Server Column)

def storedValue (column : Column) (item : Text) : Option (Option Text) :=
  match literal item with
  | some value => (server.input column value).map some
  | none => server.evaluate column item

/-- A column without a value has its default. -/
def insertRow : List Column → List Text → Option (List (Option Text))
  | [], [] => some []
  | [], _ :: _ => none
  | column :: columns, [] => (insertRow columns []).map (server.default column :: ·)
  | column :: columns, item :: items => do
    let value ← storedValue server column item
    let values ← insertRow columns items
    return value :: values

/-- The table after a statement, if it succeeds. -/
def changedTable (database : Database Column) : SqlStatement → Option (Text × Table Column)
  | .create written definitions => do
    let name ← server.readName written
    let columns ← definitions.mapM server.readColumn
    if (database name).isSome then none else some (name, { columns, rows := [] })
  | .insert written items => do
    let name ← server.readName written
    let table ← database name
    if AcceptedRows table.columns.length items then do
      let rows ← items.mapM (insertRow server table.columns)
      return (name, { table with rows := table.rows ++ rows })
    else none

/-- A statement that fails does not change the database. -/
def pqExecSingle (sql : Text) (database : Database Column) : Bool × Database Column :=
  match readStatement sql >>= changedTable server database with
  | some (name, table) => (true, Function.update database name (some table))
  | none => (false, database)

/-- The loop of a client that is alone; there is no result if it crashes. -/
def restoreLoop : Nat → Client → Database Column → Option (Database Column)
  | 0, _, _ => none
  | fuel + 1, client, database =>
    let next := prvRestoretable (pqExecSingle server) client database
    match next.1.phase with
    | .reading => restoreLoop fuel next.1 next.2
    | .finished => some next.2
    | .crashed => none

/-- The database restored from the lines of a log; every call of `fgets` reads a character. -/
def restored (lines : List Text) : Option (Database Column) :=
  restoreLoop server ((logText lines).length + 1) { file := logText lines } fun _ => none

end Execution

/-! ## The lines of a table -/

def columnDefinition (column : ColumnInformation) : Text :=
  column.columnName ++ ascii " " ++ column.dataType ++
    (if 0 < column.characterMaximumLength.length then
      ascii "(" ++ column.characterMaximumLength ++ ascii ")" else []) ++
    (if 0 < column.columnDefault.length then ascii " DEFAULT " ++ column.columnDefault else [])

/-- The loop over the columns; nothing is closed if there are none. -/
def columnDefinitions : List ColumnInformation → Text
  | [] => []
  | [column] => columnDefinition column ++ ascii ");"
  | column :: columns => columnDefinition column ++ ascii ", " ++ columnDefinitions columns

def tableLine (tablename : Text) (columns : List ColumnInformation) : Text :=
  ascii "prv_store_table\t" ++
    (ascii "CREATE TABLE " ++ tablename ++ ascii " (" ++ columnDefinitions columns)

/-- The dictionary `dict_tblstore` and what is written for a table. -/
def prvStoreTable (dict : HashTable) (tablename : Text) (columns : List ColumnInformation) :
    HashTable × List Text :=
  let stored := TableDictionary.prvStoreTable dict tablename
  (stored.1, if stored.2 then [tableLine tablename columns] else [])

def prvStoreTuple (pid : Nat) (queryid tupleid tuple : Text) : Text :=
  ascii "prv_store_tuple\t" ++ decimal pid ++ ascii "\t" ++ queryid ++ ascii "\t" ++ tupleid ++
    ascii "\t" ++ tuple

/-- The text of a null value is empty. -/
def pqGetvalue (value : Option Text) : Text := value.getD []

/--
The loop over the fields of a row: the values written so far, and the tuples
stored before the columns of the capture.
-/
def fieldLoop (storeTuple : Text → Text) (nfields : Nat) : Nat → List Text → Text →
    List Text × Text
  | _, [], values => ([], values)
  | n, field :: fields, values =>
    let behind := fieldLoop storeTuple nfields (n + 1) fields
      (values ++ field ++ (if n + 1 < nfields then ascii "', '" else ascii "')"))
    (if n + 5 = nfields then storeTuple (values ++ field ++ ascii "')") :: behind.1 else behind.1,
      behind.2)

def rowLine (tablename rowid values : Text) : Text :=
  ascii "prv_store_row\t" ++ rowid ++ ascii "\t" ++ tablename ++ ascii "\t" ++
    (ascii "INSERT INTO " ++ tablename ++ ascii " VALUES " ++ values ++ ascii ";")

/-- The value of the last column. -/
def rowid (row : List (Option Text)) : Text := (row.map pqGetvalue).getLastD []

/-- The lines of a row; without a column before those of the capture, `rowid` is not set. -/
def storeRowLines (pid : Nat) (tablename queryid : Text) (storeRow : Bool)
    (row : List (Option Text)) : Option (List Text) :=
  let fields := row.map pqGetvalue
  if fields.length < 5 then none
  else
    let written :=
      fieldLoop (prvStoreTuple pid queryid (rowid row)) fields.length 0 fields (ascii "('")
    some (written.1 ++ if storeRow then [rowLine tablename (rowid row) written.2] else [])

def prvStoreTupleFromResult (pid : Nat) (tablename : Text) (result : List (List (Option Text)))
    (queryid : Text) (storeRow : Bool) : Option (List Text) :=
  (result.mapM (storeRowLines pid tablename queryid storeRow)).map List.flatten

/-! ## Tables and rows that are stored -/

/-- A table whose last four columns are those of the capture, and some rows of it. -/
structure StoredTable (Column : Type) where
  name : Text
  own : List Column
  capture : List Column
  captureLength : capture.length = 4
  rows : List (List (Option Text))
  rowsLength : ∀ row ∈ rows, row.length = own.length + 4

section Restored

variable {Column : Type} (server : Server Column)

def StoredTable.columns (table : StoredTable Column) : List Column := table.own ++ table.capture

/-- The lines that are written for a first table and its rows. -/
def logLines (pid : Nat) (queryid : Text) (table : StoredTable Column) : Option (List Text) :=
  (prvStoreTupleFromResult pid table.name table.rows queryid true).map
    ((prvStoreTable prvHashInit table.name (table.columns.map server.information)).2 ++ ·)

/-- The table is restored with its columns and rows, and nothing else. -/
def Restores (pid : Nat) (queryid : Text) (table : StoredTable Column) : Prop :=
  ∃ lines, logLines server pid queryid table = some lines ∧
    restored server lines =
      some (Function.update (fun _ => none) table.name
        (some { columns := table.columns, rows := table.rows }))

/-- No quote, no backslash, no newline and no end of a C string. -/
def PlainValue (value : Text) : Prop := ∀ char ∈ value, char ∉ [0, newline, 39, 92]

/-- The definition that is written for a column is read as this column. -/
structure PlainColumn (column : Column) : Prop where
  closed : Closed (columnDefinition (server.information column))
  present : trim (columnDefinition (server.information column)) ≠ []
  single : newline ∉ columnDefinition (server.information column)
  read : server.readColumn (trim (columnDefinition (server.information column))) = some column

/-- A value of the column that is not null. -/
def PlainField (column : Column) (value : Option Text) : Prop :=
  ∃ text, value = some text ∧ PlainValue text ∧ server.input column text = some text

structure PlainTable (queryid : Text) (table : StoredTable Column) : Prop where
  name : server.readName table.name = some table.name
  nameChars : ∀ char ∈ table.name, isWhite char = false
  own : table.rows ≠ [] → table.own ≠ []
  columns : ∀ column ∈ table.columns, PlainColumn server column
  rows : ∀ row ∈ table.rows, List.Forall₂ (PlainField server) table.columns row
  rowid : ∀ row ∈ table.rows, tab ∉ rowid row
  queryid : table.rows ≠ [] → newline ∉ queryid

end Restored

/-! ## Texts of statements -/

/-- The texts of a list, with a blank behind each comma. -/
def spaced : List Text → List Text
  | [] => []
  | text :: texts => text :: texts.map (32 :: ·)

theorem spaced_ne_nil {texts : List Text} (nonempty : texts ≠ []) : spaced texts ≠ [] := by
  cases texts with
  | nil => exact absurd rfl nonempty
  | cons text texts => exact List.cons_ne_nil _ _

theorem exists_of_mem_spaced {texts : List Text} {item : Text} (member : item ∈ spaced texts) :
    ∃ text ∈ texts, item = text ∨ item = 32 :: text := by
  cases texts with
  | nil => cases member
  | cons text texts =>
    rcases List.mem_cons.1 member with rfl | spacedMember
    · exact ⟨item, List.mem_cons_self, .inl rfl⟩
    · obtain ⟨other, otherMember, rfl⟩ := List.mem_map.1 spacedMember
      exact ⟨other, List.mem_cons_of_mem text otherMember, .inr rfl⟩

theorem trim_cons_blank (text : Text) : trim (32 :: text) = trim text := by
  rw [trim, List.dropWhile_cons_of_pos (by decide), trim]

theorem map_trim_spaced (texts : List Text) : (spaced texts).map trim = texts.map trim := by
  cases texts with
  | nil => rfl
  | cons text texts =>
    simp only [spaced, List.map_cons, List.map_map, Function.comp_def, trim_cons_blank]

theorem wellFormed_spaced {before : Text} {texts : List Text} (white : before.all isWhite)
    (nonempty : texts ≠ []) (closed : ∀ text ∈ texts, Closed text)
    (present : ∀ text ∈ texts, trim text ≠ []) : Row.WellFormed ⟨before, spaced texts, []⟩ where
  before := white
  after := rfl
  nonempty := spaced_ne_nil nonempty
  closed := by
    intro item member
    obtain ⟨text, textMember, rfl | rfl⟩ := exists_of_mem_spaced member
    · exact closed item textMember
    · exact @closed_append [32] text rfl (closed text textMember)
  present := by
    intro item member
    obtain ⟨text, textMember, rfl | rfl⟩ := exists_of_mem_spaced member
    · exact present item textMember
    · rw [trim_cons_blank]
      exact present text textMember

theorem join_spaced_cons (text : Text) {texts : List Text} (nonempty : texts ≠ []) :
    join (spaced (text :: texts)) = text ++ 44 :: 32 :: join (spaced texts) := by
  obtain ⟨next, texts, rfl⟩ := List.exists_cons_of_ne_nil nonempty
  rw [spaced, join_cons text (by simp), List.map_cons, spaced]
  cases texts <;> simp [join, List.intercalate]

theorem columnDefinitions_eq {columns : List ColumnInformation} (nonempty : columns ≠ []) :
    columnDefinitions columns = join (spaced (columns.map columnDefinition)) ++ [41, 59] := by
  have comma : ascii ", " = [44, 32] := by decide
  have closing : ascii ");" = [41, 59] := by decide
  induction columns with
  | nil => exact absurd rfl nonempty
  | cons column columns ih =>
    rcases columns with _ | ⟨next, columns⟩
    · simp [columnDefinitions, spaced, join, closing]
    · have unfolded : columnDefinitions (column :: next :: columns) =
          columnDefinition column ++ ascii ", " ++ columnDefinitions (next :: columns) := rfl
      have joined := @join_spaced_cons (columnDefinition column)
        ((next :: columns).map columnDefinition) (by simp)
      rw [← List.map_cons] at joined
      rw [unfolded, ih (by simp), joined, comma]
      simp

/-! ## Values in quotes -/

def quote (text : Text) : Text := 39 :: (text ++ [39])

theorem closed_quote {text : Text} (plain : PlainValue text) : Closed (quote text) := by
  have stays : run { mode := .string } text = some { mode := .string } := by
    induction text with
    | nil => rfl
    | cons char text ih =>
      have ordinary := plain char List.mem_cons_self
      simp only [List.mem_cons, List.not_mem_nil, or_false, not_or] at ordinary
      have next : Scan.next { mode := .string } char = some { mode := .string } := by
        simp [Scan.next, Mode.takes, Mode.inside, ordinary]
      rw [run, List.foldlM_cons, next]
      exact ih fun other member => plain other (List.mem_cons_of_mem char member)
  have opened : run {} [39] = some { mode := .string } := rfl
  rw [Closed, quote, ← List.singleton_append, run_append, opened, Option.bind_some, run_append,
    stays]
  rfl

theorem trim_quote (text : Text) : trim (quote text) = quote text := by
  have trimmed := @trim_append [] text [] 39 39 rfl rfl (by decide) (by decide)
  simpa [quote] using trimmed

theorem literal_quote {text : Text} (plain : PlainValue text) :
    literal (quote text) = some text := by
  have noQuote : 39 ∉ text := fun member => plain 39 member (by decide)
  have noBackslash : 92 ∉ text := fun member => plain 92 member (by decide)
  simp [literal, quote, noQuote, noBackslash]

/-- The values written by the loop over the fields. -/
theorem fieldLoop_values (storeTuple : Text → Text) (nfields : Nat) {fields : List Text}
    (nonempty : fields ≠ []) :
    ∀ (n : Nat) (values : Text), n + fields.length = nfields →
      (fieldLoop storeTuple nfields n fields (values ++ [39])).2 =
        values ++ join (spaced (fields.map quote)) ++ [41] := by
  have comma : ascii "', '" = [39, 44, 32, 39] := by decide
  have closing : ascii "')" = [39, 41] := by decide
  induction fields with
  | nil => exact absurd rfl nonempty
  | cons field fields ih =>
    intro n values count
    rw [List.length_cons] at count
    rcases fields with _ | ⟨next, fields⟩
    · have last : ¬ n + 1 < nfields := by simp at count; omega
      simp [fieldLoop, last, closing, spaced, join, quote]
    · have more : n + 1 < nfields := by simp at count; omega
      have behind := ih (by simp) (n + 1) (values ++ quote field ++ [44, 32]) (by omega)
      rw [fieldLoop, if_pos more, comma, List.map_cons, join_spaced_cons _ (by simp)]
      simpa [quote] using behind

/-- The lines written by the loop are tuples without a newline. -/
theorem fieldLoop_tuples (storeTuple : Text → Text) (nfields : Nat) {fields : List Text}
    (single : ∀ field ∈ fields, newline ∉ field) :
    ∀ (n : Nat) (values : Text), newline ∉ values →
      ∀ line ∈ (fieldLoop storeTuple nfields n fields values).1,
        ∃ tuple, newline ∉ tuple ∧ line = storeTuple tuple := by
  have comma : newline ∉ ascii "', '" := by decide
  have closing : newline ∉ ascii "')" := by decide
  induction fields with
  | nil =>
    intro n values _ line member
    cases member
  | cons field fields ih =>
    intro n values singleValues line member
    have singleField := single field List.mem_cons_self
    have behind := ih
      (fun other otherMember => single other (List.mem_cons_of_mem field otherMember)) (n + 1)
      (values ++ field ++ (if n + 1 < nfields then ascii "', '" else ascii "')"))
      (by split <;> simp [singleValues, singleField, comma, closing]) line
    simp only [fieldLoop] at member
    split at member
    · rcases List.mem_cons.1 member with rfl | tail
      · exact ⟨_, by simp [singleValues, singleField, closing], rfl⟩
      · exact behind tail
    · exact behind member

/-! ## Reading the statements -/

theorem statementBody_line {first : UInt8} (plain : isWhite first = false) (body : Text) :
    statementBody (first :: body ++ [59] ++ [newline]) = first :: body := by
  have trimmed : trim (first :: body ++ [59] ++ [newline]) = first :: (body ++ [59]) := by
    have around := @trim_append [] body [newline] first 59 rfl rfl plain (by decide)
    simpa using around
  have last : (first :: (body ++ [59])).getLast? = some 59 := by
    rw [← List.cons_append, List.getLast?_concat]
  rw [statementBody, trimmed, if_pos last, ← List.cons_append, List.dropLast_concat]

theorem takeWhile_name {name : Text} (plain : ∀ char ∈ name, isWhite char = false) (rest : Text) :
    (name ++ 32 :: rest).takeWhile (· ≠ 32) = name ∧
      (name ++ 32 :: rest).dropWhile (· ≠ 32) = 32 :: rest := by
  have notBlank : ∀ char ∈ name, decide (char ≠ 32) = true := by
    intro char member
    rw [decide_eq_true_eq]
    rintro rfl
    exact absurd (plain 32 member) (by decide)
  constructor
  · rw [List.takeWhile_append_of_pos notBlank]
    simp
  · rw [List.dropWhile_append_of_pos notBlank]
    simp

theorem readStatement_create {name : Text} (plain : ∀ char ∈ name, isWhite char = false) {row : Row}
    (wellFormed : row.WellFormed) {text : Text} (rowText : row.text = 32 :: text) :
    readStatement (ascii "CREATE TABLE " ++ name ++ row.text ++ [59] ++ [newline]) =
      some (.create name row.items) := by
  have first : ascii "CREATE TABLE " = 67 :: ascii "REATE TABLE " := by decide
  have body := @statementBody_line 67 (by decide) (ascii "REATE TABLE " ++ name ++ row.text)
  have length : (ascii "CREATE TABLE ").length = 13 := by decide
  have whole : statementBody (ascii "CREATE TABLE " ++ name ++ row.text ++ [59] ++ [newline]) =
      ascii "CREATE TABLE " ++ (name ++ row.text) := by
    rw [first]
    simpa using body
  have parts := takeWhile_name plain text
  rw [← rowText] at parts
  rw [readStatement, whole, if_pos (List.isPrefixOf_iff_prefix.2 (List.prefix_append _ _)),
    List.drop_left' length]
  simp only [parts, readRow_text wellFormed, Option.map_some]

theorem readStatement_insert {name : Text} (plain : ∀ char ∈ name, isWhite char = false) {row : Row}
    (wellFormed : row.WellFormed) :
    readStatement (ascii "INSERT INTO " ++ name ++ ascii " VALUES " ++ row.text ++ [59] ++
      [newline]) = some (.insert name [row.items]) := by
  have first : ascii "INSERT INTO " = 73 :: ascii "NSERT INTO " := by decide
  have blank : ascii " VALUES " = 32 :: ascii "VALUES " := by decide
  have length : (ascii "INSERT INTO ").length = 12 := by decide
  have lengthValues : (ascii " VALUES ").length = 8 := by decide
  have body := @statementBody_line 73 (by decide)
    (ascii "NSERT INTO " ++ name ++ ascii " VALUES " ++ row.text)
  have whole : statementBody (ascii "INSERT INTO " ++ name ++ ascii " VALUES " ++ row.text ++
      [59] ++ [newline]) = ascii "INSERT INTO " ++ (name ++ (ascii " VALUES " ++ row.text)) := by
    rw [first]
    simpa using body
  have notCreate : ¬ (ascii "CREATE TABLE ").isPrefixOf
      (ascii "INSERT INTO " ++ (name ++ (ascii " VALUES " ++ row.text))) = true := by
    rw [first]
    simp [ascii, List.isPrefixOf]
  have parts := takeWhile_name plain (ascii "VALUES " ++ row.text)
  rw [← List.cons_append, ← blank] at parts
  have rows := @readRows_rowsText [row] (by simp) (by simpa using wellFormed)
  have single : rowsText [row] = row.text := by simp [rowsText, join]
  rw [single] at rows
  rw [readStatement, whole, if_neg notCreate,
    if_pos (List.isPrefixOf_iff_prefix.2 (List.prefix_append _ _)), List.drop_left' length]
  simp only [parts, if_pos (List.isPrefixOf_iff_prefix.2 (List.prefix_append _ _)),
    List.drop_left' lengthValues, rows, Option.map_some, List.map_cons, List.map_nil]

/-! ## Executing the statements -/

section Execution

variable {Column : Type} {server : Server Column} {queryid : Text} {table : StoredTable Column}

theorem StoredTable.columns_ne_nil (table : StoredTable Column) : table.columns ≠ [] := by
  apply List.ne_nil_of_length_pos
  rw [StoredTable.columns, List.length_append, table.captureLength]
  omega

/-- The text of a row of values. -/
def valuesText (fields : List Text) : Text := Row.text ⟨[], spaced (fields.map quote), []⟩

theorem mapM_readColumn {columns : List Column}
    (plain : ∀ column ∈ columns, PlainColumn server column) :
    ((columns.map fun column => trim (columnDefinition (server.information column))).mapM
      server.readColumn) = some columns := by
  induction columns with
  | nil => rfl
  | cons column columns ih =>
    rw [List.map_cons, List.mapM_cons, (plain column List.mem_cons_self).read,
      ih fun other member => plain other (List.mem_cons_of_mem column member)]
    rfl

theorem pqExecSingle_create (plain : PlainTable server queryid table)
    {database : Database Column} (absent : database table.name = none) :
    pqExecSingle server (ascii "CREATE TABLE " ++ table.name ++ ascii " (" ++
        columnDefinitions (table.columns.map server.information) ++ [newline]) database =
      (true, Function.update database table.name
        (some { columns := table.columns, rows := [] })) := by
  have opening : ascii " (" = [32, 40] := by decide
  have nonempty : table.columns.map server.information ≠ [] := by simp [table.columns_ne_nil]
  have definitions : ∀ text ∈ (table.columns.map server.information).map columnDefinition,
      Closed text ∧ trim text ≠ [] := by
    intro text member
    simp only [List.map_map, List.mem_map, Function.comp_apply] at member
    obtain ⟨column, columnMember, rfl⟩ := member
    exact ⟨(plain.columns column columnMember).closed, (plain.columns column columnMember).present⟩
  have wellFormed := @wellFormed_spaced [32]
    ((table.columns.map server.information).map columnDefinition) rfl (by simpa using nonempty)
    (fun text member => (definitions text member).1) fun text member => (definitions text member).2
  have read := @readStatement_create table.name plain.nameChars _ wellFormed _ rfl
  have sql : ascii "CREATE TABLE " ++ table.name ++ ascii " (" ++
      columnDefinitions (table.columns.map server.information) ++ [newline] =
        ascii "CREATE TABLE " ++ table.name ++
          Row.text
            ⟨[32], spaced ((table.columns.map server.information).map columnDefinition), []⟩ ++
            [59] ++ [newline] := by
    rw [columnDefinitions_eq nonempty, opening, Row.text]
    simp
  have items : Row.items ⟨[32], spaced ((table.columns.map server.information).map
      columnDefinition), []⟩ =
        table.columns.map fun column => trim (columnDefinition (server.information column)) := by
    rw [Row.items, map_trim_spaced]
    simp
  have changed : changedTable server database (.create table.name
      (table.columns.map fun column => trim (columnDefinition (server.information column)))) =
        some (table.name, { columns := table.columns, rows := [] }) := by
    simp [changedTable, plain.name, mapM_readColumn plain.columns, absent]
  rw [pqExecSingle, sql, read, items]
  simp only [Option.bind_eq_bind, Option.bind_some, changed]

theorem insertRow_quote {columns : List Column} {row : List (Option Text)}
    (plain : List.Forall₂ (PlainField server) columns row) :
    insertRow server columns ((row.map pqGetvalue).map quote) = some row := by
  induction plain with
  | nil => rfl
  | @cons column _ _ _ field _ ih =>
    obtain ⟨text, rfl, plainText, input⟩ := field
    have value :
        storedValue server column (quote (pqGetvalue (some text))) = some (some text) := by
      rw [storedValue, pqGetvalue, Option.getD_some, literal_quote plainText]
      simp only [input, Option.map_some]
    rw [List.map_cons, List.map_cons, insertRow, value, ih]
    rfl

theorem plain_of_mem {columns : List Column} {row : List (Option Text)}
    (plain : List.Forall₂ (PlainField server) columns row) :
    ∀ field ∈ row.map pqGetvalue, PlainValue field := by
  induction plain with
  | nil =>
    intro field member
    cases member
  | cons first _ ih =>
    obtain ⟨text, rfl, plainText, -⟩ := first
    intro field member
    rcases List.mem_cons.1 member with rfl | tail
    · exact plainText
    · exact ih field tail

theorem pqExecSingle_insert (plain : PlainTable server queryid table) {row : List (Option Text)}
    (plainRow : List.Forall₂ (PlainField server) table.columns row) {database : Database Column}
    {stored : List (List (Option Text))}
    (present : database table.name = some { columns := table.columns, rows := stored }) :
    pqExecSingle server (ascii "INSERT INTO " ++ table.name ++ ascii " VALUES " ++
        valuesText (row.map pqGetvalue) ++ [59] ++ [newline]) database =
      (true, Function.update database table.name
        (some { columns := table.columns, rows := stored ++ [row] })) := by
  have plainFields := plain_of_mem plainRow
  have sameLength := plainRow.length_eq
  have rowNonempty : row ≠ [] := by
    rintro rfl
    exact table.columns_ne_nil (List.length_eq_zero_iff.1 sameLength)
  have quoted : ∀ text ∈ (row.map pqGetvalue).map quote, Closed text ∧ trim text ≠ [] := by
    intro text member
    obtain ⟨field, fieldMember, rfl⟩ := List.mem_map.1 member
    refine ⟨closed_quote (plainFields field fieldMember), ?_⟩
    rw [trim_quote]
    exact List.cons_ne_nil _ _
  have wellFormed := @wellFormed_spaced [] ((row.map pqGetvalue).map quote) rfl
    (by simpa using rowNonempty) (fun text member => (quoted text member).1)
    fun text member => (quoted text member).2
  have items : Row.items ⟨[], spaced ((row.map pqGetvalue).map quote), []⟩ =
      (row.map pqGetvalue).map quote := by
    rw [Row.items, map_trim_spaced]
    simp [trim_quote]
  have accepted : AcceptedRows table.columns.length [(row.map pqGetvalue).map quote] := by
    intro items member
    rw [List.mem_singleton.1 member]
    refine ⟨by simp [sameLength], fun other otherMember => ?_⟩
    rw [List.mem_singleton.1 otherMember]
  have changed : changedTable server database
      (.insert table.name [(row.map pqGetvalue).map quote]) =
        some (table.name, { columns := table.columns, rows := stored ++ [row] }) := by
    have inserted := insertRow_quote plainRow
    simp only [changedTable, plain.name, present, Option.bind_eq_bind, Option.bind_some,
      if_pos accepted, List.mapM_cons, List.mapM_nil, inserted]
    rfl
  rw [pqExecSingle, valuesText, readStatement_insert plain.nameChars wellFormed, items]
  simp only [Option.bind_eq_bind, Option.bind_some, changed]

end Execution

/-! ## The lines of the log -/

theorem lineCommand_tuple (pid : Nat) (queryid tupleid tuple : Text) :
    lineCommand (prvStoreTuple pid queryid tupleid tuple) = .skip := by
  simp only [lineCommand, prvStoreTuple, List.append_assoc]
  rfl

theorem lineCommand_table (tablename : Text) (columns : List ColumnInformation) :
    lineCommand (tableLine tablename columns) =
      .storeTable (ascii "CREATE TABLE " ++ tablename ++ ascii " (" ++ columnDefinitions columns ++
        [newline]) := by
  rw [lineCommand, tableLine, List.append_assoc]
  rfl

theorem lineCommand_row {tablename rowid : Text} (noTab : tab ∉ rowid) (noTabName : tab ∉ tablename)
    (values : Text) :
    lineCommand (rowLine tablename rowid values) =
      .storeRow (ascii "INSERT INTO " ++ tablename ++ ascii " VALUES " ++ values ++ [59] ++
        [newline]) := by
  have separator : ascii "\t" = [tab] := by decide
  have closing : ascii ";" = [59] := by decide
  have line : rowLine tablename rowid values ++ [newline] =
      ascii "prv_store_row\t" ++ (rowid ++ tab :: (tablename ++ tab :: (ascii "INSERT INTO " ++
        tablename ++ ascii " VALUES " ++ values ++ [59] ++ [newline]))) := by
    simp only [rowLine, separator, closing, List.append_assoc, List.cons_append, List.nil_append]
  have first (rest : Text) : afterChar tab (ascii "prv_store_row\t" ++ rest) = some rest := rfl
  have isRow (rest : Text) : command (ascii "prv_store_row\t" ++ rest) =
      match afterChar tab (ascii "prv_store_row\t" ++ rest) >>= afterChar tab >>= afterChar tab with
      | some sql => .storeRow sql
      | none => .nullPointer := rfl
  rw [lineCommand, line, isRow, first, Option.bind_eq_bind, Option.bind_some,
    afterChar_append noTab, Option.bind_some, afterChar_append noTabName]

section Loop

variable {Column : Type} (server : Server Column)

/-- The loop ends with a database, when it begins with the given lines. -/
def Yields (lines : List Text) (iamtheone : Bool) (database database' : Database Column) : Prop :=
  ∀ fuel, lines.length < fuel →
    restoreLoop server fuel { file := logText lines, iamtheone } database = some database'

/-- A line is read as a whole. -/
structure Complete (line : Text) : Prop where
  single : newline ∉ line
  short : line.length + 1 < strLongLen

variable {server} {lines : List Text} {line : Text} {iamtheone : Bool}
variable {database database' : Database Column}

theorem yields_nil : Yields server [] iamtheone database database := by
  intro fuel enough
  cases fuel with
  | zero => cases enough
  | succ fuel => rfl

theorem yields_cons {isOne : Bool} {next : Database Column} (complete : Complete line)
    (performed : ∀ file, perform (pqExecSingle server) { file, iamtheone } database
      (lineCommand line) = ({ file, iamtheone := isOne }, next))
    (yields : Yields server lines isOne next database') :
    Yields server (line :: lines) iamtheone database database' := by
  intro fuel enough
  cases fuel with
  | zero => cases enough
  | succ fuel =>
    have step :
        prvRestoretable (pqExecSingle server) { file := logText (line :: lines), iamtheone }
          database = _ :=
      prvRestoretable_cons complete.single complete.short rfl rfl database
    rw [restoreLoop, step, performed]
    exact yields fuel (by simpa using enough)

theorem restored_of_yields (yields : Yields server lines false (fun _ => none) database') :
    restored server lines = some database' := by
  apply yields
  have atLeast : lines.length ≤ (logText lines).length := by
    clear yields
    induction lines with
    | nil => rfl
    | cons line lines ih =>
      simp only [logText, List.flatMap_cons, List.length_append, List.length_cons] at *
      omega
  omega

end Loop

/-! ## Restoring a table -/

theorem newline_not_mem_join {items : List Text} (single : ∀ item ∈ items, newline ∉ item) :
    newline ∉ join items := by
  induction items with
  | nil => simp [join]
  | cons item items ih =>
    have singleItem := single item List.mem_cons_self
    rcases items with _ | ⟨next, items⟩
    · simpa [join] using singleItem
    · have singleRest := ih fun other member =>
        single other (List.mem_cons_of_mem item member)
      have notComma : newline ≠ 44 := by decide
      rw [join_cons item (by simp), List.mem_append, List.mem_cons]
      simp [singleItem, singleRest, notComma]

theorem newline_not_mem_spaced {texts : List Text} (single : ∀ text ∈ texts, newline ∉ text) :
    newline ∉ join (spaced texts) := by
  apply newline_not_mem_join
  intro item member
  have notBlank : newline ≠ 32 := by decide
  obtain ⟨text, textMember, rfl | rfl⟩ := exists_of_mem_spaced member
  · exact single item textMember
  · simp [notBlank, single text textMember]

theorem newline_not_mem_of_plain {text : Text} (plain : PlainValue text) : newline ∉ text :=
  fun member => plain newline member (by decide)

section Table

variable {Column : Type} {server : Server Column} {queryid : Text} {table : StoredTable Column}
variable {pid : Nat}

theorem not_mem_name (plain : PlainTable server queryid table) {char : UInt8}
    (white : isWhite char = true) : char ∉ table.name := by
  intro member
  rw [plain.nameChars char member] at white
  cases white

theorem single_tableLine (plain : PlainTable server queryid table) :
    newline ∉ tableLine table.name (table.columns.map server.information) := by
  have command : newline ∉ ascii "prv_store_table\t" := by decide
  have create : newline ∉ ascii "CREATE TABLE " := by decide
  have opening : newline ∉ ascii " (" := by decide
  have closing : newline ∉ ([41, 59] : Text) := by decide
  have definitions : newline ∉
      join (spaced ((table.columns.map server.information).map columnDefinition)) := by
    apply newline_not_mem_spaced
    intro text member
    simp only [List.map_map, List.mem_map, Function.comp_apply] at member
    obtain ⟨column, columnMember, rfl⟩ := member
    exact (plain.columns column columnMember).single
  rw [tableLine, columnDefinitions_eq (by simp [table.columns_ne_nil])]
  simp only [List.mem_append, not_or]
  exact ⟨command, ⟨⟨create, not_mem_name plain (by decide)⟩, opening⟩, definitions, closing⟩

theorem storeRowLines_eq {row : List (Option Text)} (wide : 5 ≤ row.length) (tablename : Text) :
    storeRowLines pid tablename queryid true row =
      some ((fieldLoop (prvStoreTuple pid queryid (rowid row)) row.length 0
          (row.map pqGetvalue) (ascii "('")).1 ++
        [rowLine tablename (rowid row) (valuesText (row.map pqGetvalue))]) := by
  have opening : ascii "('" = [40] ++ [39] := by decide
  have sameLength : (row.map pqGetvalue).length = row.length := List.length_map _
  have nonempty : row.map pqGetvalue ≠ [] := List.ne_nil_of_length_pos (by omega)
  have values := fieldLoop_values (prvStoreTuple pid queryid (rowid row)) row.length nonempty 0 [40]
    (by omega)
  have text : valuesText (row.map pqGetvalue) =
      [40] ++ join (spaced ((row.map pqGetvalue).map quote)) ++ [41] := by
    simp only [valuesText, Row.text, List.nil_append, List.append_nil, List.cons_append]
  rw [storeRowLines, if_neg (by omega), sameLength, opening, text, ← values]
  rfl

theorem wide_of_plain (plain : PlainTable server queryid table) {row : List (Option Text)}
    (member : row ∈ table.rows) : 5 ≤ row.length := by
  have ownLength := List.length_pos_iff.2 (plain.own (List.ne_nil_of_mem member))
  rw [table.rowsLength row member]
  omega

theorem single_rowid {row : List (Option Text)} (single : ∀ field ∈ row.map pqGetvalue,
    newline ∉ field) : newline ∉ rowid row := by
  rw [rowid]
  rcases List.eq_nil_or_concat (row.map pqGetvalue) with empty | ⟨fields, last, concat⟩
  · rw [empty]
    simp
  · rw [concat, List.concat_eq_append] at single ⊢
    rw [List.getLastD_concat]
    exact single last (by simp)

theorem single_rowLines (plain : PlainTable server queryid table) {row : List (Option Text)}
    (isRow : row ∈ table.rows) {lines : List Text}
    (stored : storeRowLines pid table.name queryid true row = some lines) :
    ∀ line ∈ lines, newline ∉ line := by
  have single : ∀ field ∈ row.map pqGetvalue, newline ∉ field := fun field member =>
    newline_not_mem_of_plain (plain_of_mem (plain.rows row isRow) field member)
  have singleRowid := single_rowid single
  have singleName : newline ∉ table.name := not_mem_name plain (by decide)
  have singleQueryid := plain.queryid (List.ne_nil_of_mem isRow)
  have separator : newline ∉ ascii "\t" := by decide
  rw [storeRowLines_eq (wide_of_plain plain isRow)] at stored
  cases stored
  intro line member
  rcases List.mem_append.1 member with isTuple | isLast
  · obtain ⟨tuple, singleTuple, rfl⟩ :=
      fieldLoop_tuples _ _ single 0 (ascii "('") (by decide) line isTuple
    have command : newline ∉ ascii "prv_store_tuple\t" := by decide
    have digits : newline ∉ decimal pid := fun digit =>
      absurd (digit_range digit).1 (by decide)
    simp [prvStoreTuple, command, digits, separator, singleQueryid, singleRowid, singleTuple]
  · rw [List.mem_singleton.1 isLast]
    have command : newline ∉ ascii "prv_store_row\t" := by decide
    have insert : newline ∉ ascii "INSERT INTO " := by decide
    have keyword : newline ∉ ascii " VALUES " := by decide
    have closing : newline ∉ ascii ";" := by decide
    have values : newline ∉ valuesText (row.map pqGetvalue) := by
      have notQuote : newline ≠ 39 := by decide
      have quoted : newline ∉ join (spaced ((row.map pqGetvalue).map quote)) := by
        apply newline_not_mem_spaced
        intro text textMember
        obtain ⟨field, fieldMember, rfl⟩ := List.mem_map.1 textMember
        simp [quote, notQuote, single field fieldMember]
      have parentheses : newline ≠ 40 ∧ newline ≠ 41 := by decide
      simp only [valuesText, Row.text, List.nil_append, List.append_nil, List.mem_cons,
        List.mem_append, List.not_mem_nil, or_false, not_or]
      exact ⟨parentheses.1, quoted, parentheses.2⟩
    simp [rowLine, command, insert, keyword, closing, separator, singleRowid, singleName, values]

theorem yields_rowLines (plain : PlainTable server queryid table) {row : List (Option Text)}
    (isRow : row ∈ table.rows) {rowLines lines : List Text}
    (stored : storeRowLines pid table.name queryid true row = some rowLines)
    (complete : ∀ line ∈ rowLines, Complete line) {database database' : Database Column}
    {rows : List (List (Option Text))}
    (present : database table.name = some { columns := table.columns, rows })
    (yields : Yields server lines true
      (Function.update database table.name
        (some { columns := table.columns, rows := rows ++ [row] })) database') :
    Yields server (rowLines ++ lines) true database database' := by
  have single : ∀ field ∈ row.map pqGetvalue, newline ∉ field := fun field member =>
    newline_not_mem_of_plain (plain_of_mem (plain.rows row isRow) field member)
  rw [storeRowLines_eq (wide_of_plain plain isRow)] at stored
  cases stored
  have isTuple := fieldLoop_tuples (prvStoreTuple pid queryid (rowid row)) row.length single 0
    (ascii "('") (by decide)
  generalize (fieldLoop (prvStoreTuple pid queryid (rowid row)) row.length 0
    (row.map pqGetvalue) (ascii "('")).1 = tuples at complete isTuple
  induction tuples with
  | nil =>
    refine yields_cons (complete _ List.mem_cons_self) (fun file => ?_) yields
    rw [lineCommand_row (plain.rowid row isRow) (not_mem_name plain (by decide)), perform,
      pqExecSingle_insert plain (plain.rows row isRow) present]
  | cons line tuples ih =>
    obtain ⟨tuple, -, rfl⟩ := isTuple line List.mem_cons_self
    refine yields_cons (complete _ List.mem_cons_self)
      (fun file => by rw [lineCommand_tuple, perform]) ?_
    exact ih (fun other member => complete other (List.mem_cons_of_mem _ member))
      fun other member => isTuple other (List.mem_cons_of_mem _ member)

theorem prvStoreTupleFromResult_cons {tablename : Text} {row : List (Option Text)}
    {rows : List (List (Option Text))} {lines : List Text} :
    prvStoreTupleFromResult pid tablename (row :: rows) queryid true = some lines ↔
      ∃ rowLines, storeRowLines pid tablename queryid true row = some rowLines ∧
        ∃ others, prvStoreTupleFromResult pid tablename rows queryid true = some others ∧
          lines = rowLines ++ others := by
  simp only [prvStoreTupleFromResult, List.mapM_cons, Option.bind_eq_bind, Option.pure_def,
    Option.map_eq_some_iff, Option.bind_eq_some_iff, Option.some.injEq]
  constructor
  · rintro ⟨_, ⟨rowLines, storedRow, others, storedOthers, rfl⟩, rfl⟩
    exact ⟨rowLines, storedRow, others.flatten, ⟨others, storedOthers, rfl⟩, rfl⟩
  · rintro ⟨rowLines, storedRow, _, ⟨others, storedOthers, rfl⟩, rfl⟩
    exact ⟨rowLines :: others, ⟨rowLines, storedRow, others, storedOthers, rfl⟩, rfl⟩

theorem exists_stored (tablename : Text) {rows : List (List (Option Text))}
    (wide : ∀ row ∈ rows, 5 ≤ row.length) :
    ∃ lines, prvStoreTupleFromResult pid tablename rows queryid true = some lines := by
  induction rows with
  | nil => exact ⟨[], rfl⟩
  | cons row rows ih =>
    obtain ⟨others, storedOthers⟩ := ih fun other member =>
      wide other (List.mem_cons_of_mem row member)
    exact ⟨_, prvStoreTupleFromResult_cons.2
      ⟨_, storeRowLines_eq (wide row List.mem_cons_self) tablename, others, storedOthers, rfl⟩⟩

/-- The rows of a log are added to those that are already restored. -/
theorem yields_rows (plain : PlainTable server queryid table) {rows : List (List (Option Text))}
    (areRows : ∀ row ∈ rows, row ∈ table.rows) :
    ∀ {lines : List Text}, prvStoreTupleFromResult pid table.name rows queryid true = some lines →
      (∀ line ∈ lines, line.length + 1 < strLongLen) →
      ∀ {database : Database Column} {earlier : List (List (Option Text))},
        database table.name = some { columns := table.columns, rows := earlier } →
        Yields server lines true database
          (Function.update database table.name
            (some { columns := table.columns, rows := earlier ++ rows })) := by
  induction rows with
  | nil =>
    intro lines stored _ database earlier present
    cases stored
    rw [List.append_nil, ← present, Function.update_eq_self]
    exact yields_nil
  | cons row rows ih =>
    intro lines stored short database earlier present
    obtain ⟨rowLines, storedRow, others, storedOthers, rfl⟩ :=
      prvStoreTupleFromResult_cons.1 stored
    have isRow := areRows row List.mem_cons_self
    have single := single_rowLines plain isRow storedRow
    have behind := ih
      (fun other member => areRows other (List.mem_cons_of_mem row member)) storedOthers
      (fun line member => short line (List.mem_append_right rowLines member))
      (Function.update_self table.name
        (some { columns := table.columns, rows := earlier ++ [row] }) database)
    rw [Function.update_idem, List.append_assoc, List.singleton_append] at behind
    exact yields_rowLines plain isRow storedRow
      (fun line member => ⟨single line member, short line (List.mem_append_left others member)⟩)
      present behind

/-! ## The result -/

/--
A table is restored with its rows when the lines fit the buffer, its
definition is read back, and its values are plain and not null.
-/
theorem restores_of_plain (plain : PlainTable server queryid table)
    (short : ∀ lines, logLines server pid queryid table = some lines → LinesShort lines) :
    Restores server pid queryid table := by
  obtain ⟨lines, stored⟩ := @exists_stored queryid pid table.name table.rows
    fun _ member => wide_of_plain plain member
  have written : logLines server pid queryid table =
      some (tableLine table.name (table.columns.map server.information) :: lines) := by
    rw [logLines, stored, Option.map_some]
    rfl
  have shortLines := short _ written
  have created := @pqExecSingle_create Column server queryid table plain (fun _ => none) rfl
  have rows := yields_rows plain (fun _ member => member) stored
    (fun line member => shortLines line (List.mem_cons_of_mem _ member))
    (Function.update_self table.name
      (some ({ columns := table.columns, rows := [] } : Table Column)) fun _ => none)
  rw [Function.update_idem, List.nil_append] at rows
  refine ⟨_, written, restored_of_yields (yields_cons
    ⟨single_tableLine plain, shortLines _ List.mem_cons_self⟩ (fun file => ?_) rows)⟩
  rw [lineCommand_table, perform_goesOn _ (.inr (by rw [created])), created]

end Table

/-! ## Several clients -/

section Clients

variable {Column : Type} (server : Server Column)

/-- The table of a statement, as the server reads it. -/
def readTable (sql : Text) : Option (Capture.Statement Text) :=
  match readStatement sql with
  | some (.create written definitions) =>
    if (definitions.mapM server.readColumn).isSome then (server.readName written).map .create
    else none
  | some (.insert written _) => (server.readName written).map .insert
  | none => none

/-- The tables of a database are those created by the statements it has executed. -/
def Represents (history : History) (database : Database Column) : Prop :=
  ∀ name, (database name).isSome ↔ name ∈ tables (readTable server) history

variable {server} {history : History} {database : Database Column} {sql table : Text}

theorem createdTable_readTable :
    createdTable (readTable server) sql = some table ↔
      ∃ written definitions, readStatement sql = some (.create written definitions) ∧
        server.readName written = some table ∧ (definitions.mapM server.readColumn).isSome := by
  rw [createdTable_eq_some, readTable]
  cases readStatement sql with
  | none => simp
  | some statement => cases statement <;> simp [and_comm]

/-- A table is created unless there is one. -/
theorem pqExecSingle_created (creates : createdTable (readTable server) sql = some table) :
    (pqExecSingle server sql database).1 = (database table).isNone ∧
      ∀ name, ((pqExecSingle server sql database).2 name).isSome ↔
        (database name).isSome ∨ name = table := by
  obtain ⟨written, definitions, read, readName, readColumns⟩ := createdTable_readTable.1 creates
  obtain ⟨columns, readColumns⟩ := Option.isSome_iff_exists.1 readColumns
  cases known : database table with
  | some old =>
    have unchanged : pqExecSingle server sql database = (false, database) := by
      simp [pqExecSingle, read, changedTable, readName, readColumns, known]
    rw [unchanged]
    refine ⟨rfl, fun name => ⟨.inl, ?_⟩⟩
    rintro (present | rfl)
    · exact present
    · simp [known]
  | none =>
    have changed : pqExecSingle server sql database =
        (true, Function.update database table (some { columns, rows := [] })) := by
      simp [pqExecSingle, read, changedTable, readName, readColumns, known]
    rw [changed]
    refine ⟨rfl, fun name => ?_⟩
    by_cases same : name = table <;> simp [same]

/-- Other statements leave the set of tables as it is. -/
theorem isSome_pqExecSingle (other : createdTable (readTable server) sql = none) (name : Text) :
    ((pqExecSingle server sql database).2 name).isSome = (database name).isSome := by
  rw [pqExecSingle]
  cases changed : readStatement sql >>= changedTable server database with
  | none => rfl
  | some result =>
    obtain ⟨statement, read, changed⟩ := Option.bind_eq_some_iff.1 changed
    cases statement with
    | create written definitions =>
      simp only [changedTable, Option.bind_eq_bind, Option.bind_eq_some_iff] at changed
      obtain ⟨table, readName, columns, readColumns, -⟩ := changed
      rw [createdTable_readTable.2 ⟨written, definitions, read, readName, by simp [readColumns]⟩]
        at other
      cases other
    | insert written items =>
      simp only [changedTable, Option.bind_eq_bind, Option.bind_eq_some_iff] at changed
      obtain ⟨table, -, old, known, changed⟩ := changed
      split at changed
      · simp only [Option.bind_eq_some_iff, Option.pure_def, Option.some.injEq] at changed
        obtain ⟨rows, -, rfl⟩ := changed
        by_cases same : name = table <;> simp [same, known]
      · cases changed

theorem Represents.success (represents : Represents server history database)
    (creates : createdTable (readTable server) sql = some table) :
    (pqExecSingle server sql database).1 = Capture.succeeds (readTable server) sql history := by
  rw [(pqExecSingle_created creates).1, Bool.eq_iff_iff, Option.isNone_iff_eq_none,
    ← Option.not_isSome_iff_eq_none, represents]
  simp [Capture.succeeds, createdTable_eq_some.mp creates]

/-- Both servers have the same tables after a statement, if they had before. -/
theorem Represents.exec (represents : Represents server history database) (sql : Text) :
    Represents server (Capture.pqExecSingle (readTable server) sql history).2
      (pqExecSingle server sql database).2 := by
  intro name
  cases creates : createdTable (readTable server) sql with
  | none =>
    rw [isSome_pqExecSingle creates, represents]
    simp [Capture.pqExecSingle, tables_append, creates]
  | some table =>
    rw [(pqExecSingle_created creates).2, represents, (exec_create history creates).2]
    split
    · next known =>
        refine ⟨?_, .inl⟩
        rintro (present | rfl)
        · exact present
        · exact known
    · simp

/-- A client does the same with both servers. -/
theorem Represents.perform (represents : Represents server history database) (client : Client)
    {known : List Text} {line : Text} (ok : lineOk (readTable server) known line = true) :
    Alike (Represents server)
      (perform (Capture.pqExecSingle (readTable server)) client history (lineCommand line))
      (perform (pqExecSingle server) client database (lineCommand line)) := by
  rcases lineOk_cases ok with ⟨sql, table, isTable, creates⟩ | ⟨sql, table, -, isRow, -⟩ | isSkip
  · have success := represents.success creates
    rw [isTable]
    by_cases stops :
        client.iamtheone = false ∧ Capture.succeeds (readTable server) sql history = false
    · rw [perform_stops client stops.1 (success.trans stops.2),
        perform_stops client stops.1 stops.2]
      exact ⟨rfl, represents.exec sql⟩
    · have goesOn : client.iamtheone = true ∨
          Capture.succeeds (readTable server) sql history = true := by grind
      rw [perform_goesOn client (goesOn.imp_right success.trans), perform_goesOn client goesOn]
      exact ⟨rfl, represents.exec sql⟩
  · rw [isRow]
    exact ⟨rfl, represents.exec sql⟩
  · rw [isSkip]
    exact ⟨rfl, represents⟩

variable {lines : List Text}

theorem Represents.prvRestoretable (represents : Represents server history database)
    (log : CaptureLog (readTable server) lines) (short : LinesShort lines) {client : Client}
    {done rest : List Text} (position : Position lines client done rest) :
    Alike (Represents server)
      (prvRestoretable (Capture.pqExecSingle (readTable server)) client history)
      (prvRestoretable (pqExecSingle server) client database) := by
  rcases position with ⟨split, file, reading | ⟨finished, -⟩⟩
  · cases rest with
    | nil =>
      rw [prvRestoretable_nil reading file, prvRestoretable_nil reading file]
      exact ⟨rfl, represents⟩
    | cons line after =>
      have member : line ∈ lines := by simp [split]
      have single := log.single line member
      rw [prvRestoretable_cons single (short line member) reading file,
        prvRestoretable_cons single (short line member) reading file]
      exact represents.perform _ (log.lineOk split)
  · rw [prvRestoretable_finished finished, prvRestoretable_finished finished]
    exact ⟨rfl, represents⟩

variable {clients : Nat}

/-- Several clients restore a log into a database. -/
def databaseRun (server : Server Column) (clients : Nat) (lines : List Text)
    (schedule : List (Fin clients)) : World (Fin clients) Client (Database Column) :=
  (restoreStart clients lines fun _ => none).run (prvRestoretable (pqExecSingle server)) schedule

variable (log : CaptureLog (readTable server) lines) (short : LinesShort lines)
  (schedule : List (Fin clients))

include log short

/-- The clients do the same as with the history of the statements. -/
theorem represents_databaseRun :
    (databaseRun server clients lines schedule).locals =
        (restoreRun (readTable server) clients lines schedule).locals ∧
      Represents server (restoreRun (readTable server) clients lines schedule).shared
        (databaseRun server clients lines schedule).shared := by
  apply World.run_related (Represents server)
  · rfl
  · intro name
    simp [restoreStart, tables]
  · intro schedule client database represents
    rcases (restoreInvariant_restoreRun schedule log short).position client with
      ⟨done, rest, position⟩ | finished
    · exact represents.prvRestoretable log short position
    · have finished : (((restoreStart clients lines []).run _ schedule).locals client).phase =
        .finished := finished
      rw [prvRestoretable_finished finished, prvRestoretable_finished finished]
      exact ⟨rfl, represents⟩

/-- When all clients have finished, the database has the tables of the log. -/
theorem isSome_databaseRun (someClient : 0 < clients)
    (finished : AllFinished (databaseRun server clients lines schedule)) (name : Text) :
    ((databaseRun server clients lines schedule).shared name).isSome ↔
      name ∈ storedTables (readTable server) lines := by
  obtain ⟨same, represents⟩ := represents_databaseRun log short schedule
  rw [represents name]
  refine ((restoreInvariant_restoreRun schedule log short).restoredOnce someClient ?_).created name
  rw [← same]
  exact finished

end Clients

/-! ## A value that is restored, and one that is not -/

/-- A server with columns of text only. -/
def textServer : Server Text where
  information name :=
    { columnName := name, dataType := ascii "text", characterMaximumLength := []
      columnDefault := [] }
  readName name := some name
  readColumn definition := some (definition.takeWhile (· ≠ 32))
  input _ value := some value
  evaluate _ _ := none
  default _ := none

/-- A table with one column of its own and one row. -/
def oneValue (value : Option Text) : StoredTable Text where
  name := ascii "t"
  own := [ascii "a"]
  capture := [ascii "_prov_p", ascii "_prov_insertedby", ascii "_prov_v", ascii "_prov_rowid"]
  captureLength := rfl
  rows := [[value, some (ascii "0000"), some (ascii "0"), some (ascii "2014-06-01"),
    some (ascii "17")]]
  rowsLength := by simp

theorem restores_tabs :
    PlainTable textServer (ascii "5") (oneValue (some (ascii "a\tb"))) ∧
      Restores textServer 1 (ascii "5") (oneValue (some (ascii "a\tb"))) := by
  have field (column value : Text) (plain : PlainValue value) :
      PlainField textServer column (some value) := ⟨value, rfl, plain, rfl⟩
  have plain : PlainTable textServer (ascii "5") (oneValue (some (ascii "a\tb"))) :=
    { name := rfl
      nameChars := by decide +kernel
      own := fun _ => List.cons_ne_nil _ _
      columns := by
        intro column member
        have checked : ∀ column ∈ (oneValue (some (ascii "a\tb"))).columns,
            Closed (columnDefinition (textServer.information column)) ∧
              trim (columnDefinition (textServer.information column)) ≠ [] ∧
              newline ∉ columnDefinition (textServer.information column) ∧
              textServer.readColumn
                (trim (columnDefinition (textServer.information column))) = some column := by
          decide
        obtain ⟨closed, present, single, read⟩ := checked column member
        exact ⟨closed, present, single, read⟩
      rows := by
        intro row member
        rw [List.mem_singleton.1 member]
        refine .cons (field _ _ ?_) (.cons (field _ _ ?_) (.cons (field _ _ ?_)
          (.cons (field _ _ ?_) (.cons (field _ _ ?_) .nil)))) <;>
          unfold PlainValue <;> decide +kernel
      rowid := by
        intro row member
        rw [List.mem_singleton.1 member]
        decide
      queryid := by decide }
  refine ⟨plain, restores_of_plain plain ?_⟩
  intro lines written line member
  have short : ((logLines textServer 1 (ascii "5") (oneValue (some (ascii "a\tb")))).all
      fun lines => lines.all fun line => line.length < 1000) = true := by
    decide +kernel
  rw [written, Option.all_some, List.all_eq_true] at short
  have below := of_decide_eq_true (short line member)
  have large : 1000 < strLongLen := by decide
  omega

theorem not_restores_quote :
    ¬ Restores textServer 1 (ascii "5") (oneValue (some (ascii "it's"))) := by
  rintro ⟨lines, written, restoredTable⟩
  have rows : ((logLines textServer 1 (ascii "5") (oneValue (some (ascii "it's")))).bind
      fun lines => (restored textServer lines).bind fun database =>
        (database (ascii "t")).map Table.rows) = some [] := by
    decide +kernel
  rw [written, Option.bind_some, restoredTable, Option.bind_some] at rows
  have name : (oneValue (some (ascii "it's"))).name = ascii "t" := rfl
  rw [name, Function.update_self] at rows
  cases rows

end Ldv.RowLog
