import Ldv.Library.SqlText

/-!
# Splitting statements into clauses

The client finds the clauses of a statement by a search for the letters of
their keywords, and builds another statement from the clauses.  The search
for a keyword begins behind the previous one that was found; a missing
clause is empty.
-/

namespace Ldv.Statement

open CText
open SqlText

inductive SmtType where
  | select
  | insert
  | update
  | delete
  | bypass
deriving DecidableEq, Repr

/-- The local buffers of `prv_assembleQuery`, and the one for its caller. -/
inductive Buffer where
  | field
  | table
  | where
  | value
  | returning
deriving DecidableEq, Repr

def strMaxLen : Nat := 1000

def Buffer.size : Buffer → Nat
  | .table => 256
  | _ => strMaxLen

abbrev Buffers := Buffer → Option Text

/-- Nothing is written through a null pointer, and the text has to fit. -/
def write (buffers : Buffers) (s : Option Buffer) (text : Text) : Option Buffers :=
  match s with
  | none => some buffers
  | some buffer =>
    if text.length < buffer.size then some (Function.update buffers buffer (some text))
    else none

def SmtType.smt : SmtType → Text
  | .select => ascii "select"
  | .insert => ascii "insert into"
  | .update => ascii "update"
  | .delete => ascii "delete from"
  | .bypass => ascii "bypass"

def markers : SmtType → List Text
  | .select => [ascii "from", ascii "where"]
  | .insert => [ascii "values", ascii "returning"]
  | .update => [ascii "set", ascii "from", ascii "where"]
  | .delete => [ascii "using", ascii "where", ascii "returning"]
  | .bypass => []

/-- The buffers passed to `prv_parseRest`. -/
def arguments : SmtType → List (Option Buffer)
  | .select => [some .field, some .table, some .where]
  | .insert => [some .table, some .value, some .returning]
  | .update => [some .table, none, none, some .where]
  | .delete => [some .table, none, some .where, none]
  | .bypass => []

/-- Six characters decide, and one character behind the command is skipped. -/
def prvGetStart (str : Text) : List SmtType → Option (SmtType × Text)
  | [] => none
  | type :: rest =>
    if lower (str.take 6) = lower (type.smt.take 6) then
      some (type, str.drop (type.smt.length + 1))
    else prvGetStart str rest

def dropSemicolon (str : Text) : Text :=
  if str.getLast? = some 59 then str.dropLast else str

/--
The loop over the markers.  A marker at the beginning makes the length of
the copied text negative.
-/
def prvParseRest : List Text → Text → Option Buffer → List (Option Buffer) → Buffers →
    Option Buffers
  | [], str, s, _, buffers => do
    let buffers ← write buffers s str
    write buffers s (dropSemicolon str)
  | _ :: _, _, _, [], _ => none
  | marker :: markers, str, s, arg :: args, buffers =>
    match strcasestr str marker with
    | some next =>
      if next = 0 && s.isSome then none
      else do
        let buffers ← write buffers s (str.take (next - 1))
        prvParseRest markers (str.drop (next + marker.length)) arg args buffers
    | none => do
      let buffers ← write buffers arg []
      prvParseRest markers str s args buffers

/-- A clause that is not empty, with its keyword. -/
def appendClause (keyword text : Text) : Text :=
  if text.isEmpty then [] else keyword ++ text

/-- The VALUES clause of an INSERT with the values of the added columns. -/
def insertedValues (value queryid : Text) (sessionid : Int) : Text :=
  value.dropLast ++ ascii ", " ++ queryid ++ ascii ", " ++ signedDecimal sessionid ++
    ascii ", now())"

/-- The result, if it fits in its memory. -/
def allocate (result table : Text) : Option (Option Text × Option Text) :=
  if result.length < strMaxLen then some (some result, some table) else none

def prvAssemble (type : SmtType) (start queryid : Text) (sessionid : Int) :
    Option (Option Text × Option Text) :=
  match type, arguments type with
  | .bypass, _ => some (none, none)
  | _, [] => none
  | type, s :: args => do
    let buffers ← prvParseRest (markers type) start s args fun _ => none
    let table ← buffers .table
    match type with
    | .select =>
      let field ← buffers .field
      let condition ← buffers .where
      allocate (ascii "SELECT PROVENANCE " ++ field ++ ascii " FROM " ++ table ++
        appendClause (ascii " WHERE ") condition) table
    | .insert =>
      let value ← buffers .value
      let returning ← buffers .returning
      allocate (ascii "INSERT INTO " ++ table ++ ascii " VALUES " ++
        insertedValues value queryid sessionid ++
        appendClause (ascii " RETURNING ") returning) table
    | _ =>
      let condition ← buffers .where
      allocate (ascii "SELECT PROVENANCE * FROM " ++ table ++
        appendClause (ascii " WHERE ") condition) table

/--
The type of the statement, the statement built from it, and the list of its
tables.
-/
def prvAssembleQuery (query queryid : Text) (sessionid : Int) :
    Option (Option SmtType × Option Text × Option Text) :=
  match prvGetStart query [.select, .insert, .update, .delete, .bypass] with
  | none => some (none, none, none)
  | some (type, start) => do
    let (result, table) ← prvAssemble type start queryid sessionid
    return (some type, result, table)

/-! ## Statements made of clauses -/

/-- A keyword behind a white character, and the text up to the next one. -/
structure Clause where
  separator : UInt8
  keyword : Text
  body : Text

def Clause.text (clause : Clause) : Text :=
  clause.separator :: (clause.keyword ++ clause.body)

def clausesText (clauses : List (Option Clause)) : Text :=
  clauses.flatMap fun clause => clause.elim [] Clause.text

/-- A statement, with a place for every clause of its type. -/
structure QueryText where
  type : SmtType
  command : Text
  separator : UInt8
  body : Text
  clauses : List (Option Clause)
  semicolon : Bool

def QueryText.ending (query : QueryText) : Text :=
  if query.semicolon then [59] else []

def QueryText.text (query : QueryText) : Text :=
  query.command ++ query.separator :: (query.body ++ clausesText query.clauses ++ query.ending)

/-- The text behind the last keyword. -/
def lastBody : Text → List (Option Clause) → Text
  | body, [] => body
  | body, none :: clauses => lastBody body clauses
  | _, some clause :: clauses => lastBody clause.body clauses

def whereText (condition : Option Clause) : Text :=
  condition.elim [] fun clause => ascii " WHERE " ++ clause.body

/-- The statement that shall be built, and the list of tables. -/
def QueryText.expected (query : QueryText) : Option (Text × Text) :=
  match query.type, query.clauses with
  | .select, [some tables, condition] =>
    some (ascii "SELECT PROVENANCE " ++ query.body ++ ascii " FROM " ++ tables.body ++
      whereText condition, tables.body)
  | .update, [some _, _, condition] =>
    some (ascii "SELECT PROVENANCE * FROM " ++ query.body ++ whereText condition, query.body)
  | .delete, [_, condition, _] =>
    some (ascii "SELECT PROVENANCE * FROM " ++ query.body ++ whereText condition, query.body)
  | _, _ => none

structure Clause.Follows (clause : Clause) (marker : Text) : Prop where
  separator : isWhite clause.separator
  keyword : lower clause.keyword = marker
  body : clause.body ≠ []

structure QueryText.WellFormed (query : QueryText) : Prop where
  command : lower query.command = query.type.smt
  separator : isWhite query.separator
  clauses : List.Forall₂ (fun marker clause => ∀ present ∈ clause, present.Follows marker)
    (markers query.type) query.clauses
  ending : (lastBody query.body query.clauses).getLast? ≠ some 59

/-- The result and the list of tables, behind which the semicolon may stand, fit. -/
def QueryText.Fits (query : QueryText) : Prop :=
  ∀ result table, query.expected = some (result, table) →
    result.length < strMaxLen ∧ table.length + query.ending.length < Buffer.table.size

/-- Outside of quotes and comments, a keyword is the word of its own clause only. -/
def QueryText.KeywordsOnce (query : QueryText) : Prop :=
  List.Forall₂
    (fun marker clause => (words .plain [] query.text).count marker = clause.toList.length)
    (markers query.type) query.clauses

/-- Up to white space, the expected statement is built and the expected tables are listed. -/
def QueryText.Splits (query : QueryText) : Prop :=
  ∃ expectedResult expectedTable, query.expected = some (expectedResult, expectedTable) ∧
    ∀ queryid sessionid, ∃ result table,
      prvAssembleQuery query.text queryid sessionid =
        some (some query.type, some result, some table) ∧
      parts result = parts expectedResult ∧ parts table = parts expectedTable

/--
The first letters that agree with a keyword, behind the previous one, are
the keyword, and no letters agree with a keyword that is missing.
-/
def Clear : List Text → Text → List (Option Clause) → Text → Prop
  | marker :: markers, body, none :: clauses, ending =>
    strcasestr (body ++ clausesText clauses ++ ending) marker = none ∧
      Clear markers body clauses ending
  | marker :: markers, body, some clause :: clauses, ending =>
    strcasestr (body ++ clausesText (some clause :: clauses) ++ ending) marker =
        some (body.length + 1) ∧
      Clear markers clause.body clauses ending
  | _, _, _, _ => True

/-! ## The clauses found -/

/-- What the loop writes when it finds every clause. -/
def writeClauses (ending : Text) : Text → List (Option Clause) → Option Buffer →
    List (Option Buffer) → Buffers → Option Buffers
  | body, none :: clauses, s, arg :: args, buffers => do
    let buffers ← write buffers arg []
    writeClauses ending body clauses s args buffers
  | body, some clause :: clauses, s, arg :: args, buffers => do
    let buffers ← write buffers s body
    writeClauses ending clause.body clauses arg args buffers
  | body, _, s, _, buffers => do
    let buffers ← write buffers s (body ++ ending)
    write buffers s body

theorem dropSemicolon_ending (query : QueryText) {body : Text}
    (ending : body.getLast? ≠ some 59) : dropSemicolon (body ++ query.ending) = body := by
  rw [QueryText.ending]
  split
  · simp [dropSemicolon]
  · simp [dropSemicolon, ending]

theorem prvParseRest_of_clear (query : QueryText) {markers : List Text}
    {clauses : List (Option Clause)}
    (follows : List.Forall₂ (fun marker clause => ∀ present ∈ clause, present.Follows marker)
      markers clauses) :
    ∀ {body : Text} {s : Option Buffer} {args : List (Option Buffer)} {buffers : Buffers},
      Clear markers body clauses query.ending → markers.length = args.length →
      (lastBody body clauses).getLast? ≠ some 59 →
      prvParseRest markers (body ++ clausesText clauses ++ query.ending) s args buffers =
        writeClauses query.ending body clauses s args buffers := by
  induction follows with
  | nil =>
    intro body s args buffers _ _ ending
    simp only [clausesText, List.flatMap_nil, List.append_nil, prvParseRest, writeClauses]
    rw [@dropSemicolon_ending query body ending]
  | @cons marker clause markers clauses followsHead _ ih =>
    intro body s args buffers clear sameLength ending
    rcases args with _ | ⟨arg, args⟩
    · simp at sameLength
    have sameTail : markers.length = args.length := by simpa using sameLength
    rcases clause with _ | clause
    · obtain ⟨absent, clear⟩ := clear
      have skipped : clausesText (none :: clauses) = clausesText clauses := by simp [clausesText]
      rw [skipped, prvParseRest, absent]
      exact Option.bind_congr fun _ _ => ih clear sameTail ending
    · obtain ⟨found, clear⟩ := clear
      have keywordLength := length_eq_of_lower (followsHead clause rfl).keyword
      have position : body ++ clausesText (some clause :: clauses) ++ query.ending =
          (body ++ [clause.separator] ++ clause.keyword) ++
            (clause.body ++ clausesText clauses ++ query.ending) := by
        simp [clausesText, Clause.text]
      have behind : (body ++ clausesText (some clause :: clauses) ++ query.ending).drop
          (body.length + 1 + marker.length) =
            clause.body ++ clausesText clauses ++ query.ending := by
        rw [position]
        exact List.drop_left' (by simp only [List.length_append, List.length_singleton]; omega)
      have before : (body ++ clausesText (some clause :: clauses) ++ query.ending).take
          (body.length + 1 - 1) = body := by
        rw [List.append_assoc]
        exact List.take_left' (by simp)
      rw [prvParseRest, found]
      simp only [Nat.add_eq_zero_iff, one_ne_zero, and_false, decide_false, Bool.false_and,
        Bool.false_eq_true, if_false, behind, before]
      exact Option.bind_congr fun _ _ => ih clear sameTail ending

theorem prvGetStart_text {query : QueryText} (wellFormed : query.WellFormed) :
    prvGetStart query.text [.select, .insert, .update, .delete, .bypass] =
      some (query.type, query.body ++ clausesText query.clauses ++ query.ending) := by
  have commandLength := length_eq_of_lower wellFormed.command
  have atLeast : 6 ≤ query.type.smt.length := by cases query.type <;> decide
  have first : lower (query.text.take 6) = query.type.smt.take 6 := by
    rw [QueryText.text, List.take_append_of_le_length (by omega), ← wellFormed.command, lower,
      lower, List.map_take]
  have behind : query.text.drop (query.type.smt.length + 1) =
      query.body ++ clausesText query.clauses ++ query.ending := by
    have split : query.text = (query.command ++ [query.separator]) ++
        (query.body ++ clausesText query.clauses ++ query.ending) := by
      simp [QueryText.text]
    rw [split]
    exact List.drop_left' (by simp [commandLength])
  have sameStart (type : SmtType) :
      lower (query.text.take 6) = lower (type.smt.take 6) ↔ query.type = type := by
    rw [first]
    cases query.type <;> cases type <;> decide
  simp only [prvGetStart, sameStart]
  cases kind : query.type <;> simp [kind, ← behind]

/-- A clause that is present is not empty. -/
theorem appendClause_body {keyword marker : Text} {clause : Option Clause}
    (follows : ∀ present ∈ clause, present.Follows marker) :
    appendClause keyword (clause.elim [] Clause.body) =
      clause.elim [] fun present => keyword ++ present.body := by
  rcases clause with _ | clause
  · rfl
  · have nonempty := (follows clause rfl).body
    simp [appendClause, nonempty]

@[simp]
theorem write_none (buffers : Buffers) (text : Text) : write buffers none text = some buffers :=
  rfl

theorem write_of_lt {buffers : Buffers} {buffer : Buffer} {text : Text}
    (fits : text.length < buffer.size) :
    write buffers (some buffer) text = some (Function.update buffers buffer (some text)) := by
  rw [write, if_pos fits]

theorem write_nil (buffers : Buffers) (buffer : Buffer) :
    write buffers (some buffer) [] = some (Function.update buffers buffer (some [])) :=
  write_of_lt (by cases buffer <;> decide)

theorem length_ending_le (query : QueryText) : query.ending.length ≤ 1 := by
  rw [QueryText.ending]
  split <;> simp

theorem length_clausesText_cons (clause : Option Clause) (clauses : List (Option Clause)) :
    (clausesText (clause :: clauses)).length =
      (clause.elim [] Clause.text).length + (clausesText clauses).length := by
  simp [clausesText]

theorem length_text {marker : Text} {clause : Clause} (follows : clause.Follows marker) :
    clause.text.length = marker.length + clause.body.length + 1 := by
  simp only [Clause.text, List.length_cons, List.length_append, length_eq_of_lower follows.keyword]

section Buffers

variable {ending body : Text} {tables : Clause} {first condition other : Option Clause}

theorem writeClauses_select (field : body.length < 1000)
    (table : tables.body.length + ending.length < 256)
    (where_ : (whereText condition).length + ending.length < 1000) :
    ∃ buffers, writeClauses ending body [some tables, condition] (some .field)
        [some .table, some .where] (fun _ => none) = some buffers ∧
      buffers .field = some body ∧ buffers .table = some tables.body ∧
      buffers .where = some (condition.elim [] Clause.body) := by
  cases condition <;>
    simp only [whereText, Option.elim, List.length_append, List.length_nil] at where_ <;>
    simp (disch := simp [Buffer.size, strMaxLen] <;> omega) only [writeClauses, write_of_lt,
      write_nil, Option.bind_eq_bind, Option.bind_some] <;>
    simp [Function.update]

theorem writeClauses_change (table : body.length + ending.length < 256)
    (where_ : (whereText condition).length + ending.length < 1000) :
    (∃ buffers, writeClauses ending body [first, other, condition] (some .table)
        [none, none, some .where] (fun _ => none) = some buffers ∧
      buffers .table = some body ∧ buffers .where = some (condition.elim [] Clause.body)) ∧
    ∃ buffers, writeClauses ending body [first, condition, other] (some .table)
        [none, some .where, none] (fun _ => none) = some buffers ∧
      buffers .table = some body ∧ buffers .where = some (condition.elim [] Clause.body) := by
  cases first <;> cases condition <;> cases other <;>
    simp only [whereText, Option.elim, List.length_append, List.length_nil] at where_ <;>
    simp (disch := simp [Buffer.size, strMaxLen] <;> omega) only [writeClauses, write_of_lt,
      write_nil, write_none, Option.bind_eq_bind, Option.bind_some] <;>
    simp [Function.update]

end Buffers

theorem allocate_of_lt {result table : Text} (fits : result.length < 1000) :
    allocate result table = some (some result, some table) := by
  rw [allocate, strMaxLen, if_pos fits]

theorem prvAssemble_of_clear {query : QueryText} (wellFormed : query.WellFormed)
    (clear : Clear (markers query.type) query.body query.clauses query.ending)
    (fits : query.Fits) {result table : Text} (expected : query.expected = some (result, table))
    (queryid : Text) (sessionid : Int) :
    prvAssemble query.type (query.body ++ clausesText query.clauses ++ query.ending) queryid
      sessionid = some (some result, some table) := by
  have parsed (s : Option Buffer) (args : List (Option Buffer))
      (sameLength : (markers query.type).length = args.length) :=
    @prvParseRest_of_clear query _ _ wellFormed.clauses query.body s args (fun _ => none) clear
      sameLength wellFormed.ending
  have follows := wellFormed.clauses
  have ending := length_ending_le query
  have written : (ascii "SELECT PROVENANCE ").length = 18 := by decide
  have writtenAll : (ascii "SELECT PROVENANCE * FROM ").length = 25 := by decide
  obtain ⟨resultFits, tableFits⟩ := fits result table expected
  rw [strMaxLen] at resultFits
  rw [Buffer.size] at tableFits
  rw [QueryText.expected] at expected
  split at expected
  case h_4 => cases expected
  all_goals
    rename_i type clauses
    obtain ⟨rfl, rfl⟩ := Prod.mk.inj (Option.some.inj expected)
    rw [type, clauses] at parsed follows
    have lengths := resultFits
    simp only [List.length_append] at lengths
    simp only [markers, List.forall₂_cons] at follows
  · rename_i tables condition
    obtain ⟨buffers, found, field, table, where_⟩ :=
      @writeClauses_select _ query.body _ condition (by omega) tableFits (by omega)
    rw [whereText, ← appendClause_body follows.2.1] at resultFits ⊢
    simp only [type, clauses, prvAssemble, arguments,
      parsed (some .field) [some .table, some .where] rfl, found, field, table, where_,
      Option.bind_eq_bind, Option.bind_some, allocate_of_lt resultFits]
  · rename_i assignments source condition
    obtain ⟨buffers, found, table, where_⟩ :=
      (@writeClauses_change _ _ (some assignments) condition source tableFits (by omega)).1
    rw [whereText, ← appendClause_body follows.2.2.1] at resultFits ⊢
    simp only [type, clauses, prvAssemble, arguments,
      parsed (some .table) [none, none, some .where] rfl, found, table, where_,
      Option.bind_eq_bind, Option.bind_some, allocate_of_lt resultFits]
  · rename_i source condition returning
    obtain ⟨buffers, found, table, where_⟩ :=
      (@writeClauses_change _ _ source condition returning tableFits (by omega)).2
    rw [whereText, ← appendClause_body follows.2.1] at resultFits ⊢
    simp only [type, clauses, prvAssemble, arguments,
      parsed (some .table) [none, some .where, none] rfl, found, table, where_,
      Option.bind_eq_bind, Option.bind_some, allocate_of_lt resultFits]

/-! ## The result -/

/--
A query or change of rows is split into its clauses when the texts fit and
the keywords are the first places of their letters.
-/
theorem splits_of_clear {query : QueryText} (wellFormed : query.WellFormed)
    (isQuery : query.expected.isSome) (fits : query.Fits)
    (clear : Clear (markers query.type) query.body query.clauses query.ending) :
    query.Splits := by
  obtain ⟨⟨result, table⟩, expected⟩ := Option.isSome_iff_exists.1 isQuery
  refine ⟨result, table, expected, fun queryid sessionid => ⟨result, table, ?_, rfl, rfl⟩⟩
  simp only [prvAssembleQuery, prvGetStart_text wellFormed, Option.bind_eq_bind,
    prvAssemble_of_clear wellFormed clear fits expected, Option.bind_some]
  rfl

/-- The letters of a keyword in the condition are read after it was found. -/
def conditionQuery : QueryText where
  type := .select
  command := ascii "Select"
  separator := 32
  body := ascii "a"
  clauses := [some ⟨10, ascii "FROM", ascii " t"⟩, some ⟨32, ascii "where", ascii " b = 'from'"⟩]
  semicolon := true

theorem wellFormed_conditionQuery : conditionQuery.WellFormed where
  command := by decide
  separator := by decide
  clauses := .cons (by
      rintro _ ⟨⟩
      exact ⟨by decide, by decide, by decide⟩)
    (.cons (by
      rintro _ ⟨⟩
      exact ⟨by decide, by decide, by decide⟩) .nil)
  ending := by decide

theorem splits_conditionQuery :
    conditionQuery.text = ascii "Select a\nFROM t where b = 'from';" ∧ conditionQuery.Splits :=
  ⟨by decide, splits_of_clear wellFormed_conditionQuery rfl
    (fun result table expected => by
      cases expected
      exact ⟨by decide, by decide⟩)
    ⟨by decide, by decide, trivial⟩⟩

/-- A column whose name ends with the letters of a keyword. -/
def columnQuery : QueryText where
  type := .select
  command := ascii "select"
  separator := 32
  body := ascii "a_from, b"
  clauses := [some ⟨32, ascii "from", ascii " t"⟩, none]
  semicolon := false

theorem not_splits_columnQuery :
    columnQuery.text = ascii "select a_from, b from t" ∧ columnQuery.WellFormed ∧
      columnQuery.expected.isSome ∧ columnQuery.Fits ∧ columnQuery.KeywordsOnce ∧
      prvAssembleQuery columnQuery.text [] 0 =
        some (some .select, some (ascii "SELECT PROVENANCE a FROM , b from t"),
          some (ascii ", b from t")) ∧
      ¬ columnQuery.Splits := by
  have assembled : prvAssembleQuery columnQuery.text [] 0 =
      some (some .select, some (ascii "SELECT PROVENANCE a FROM , b from t"),
        some (ascii ", b from t")) := by decide
  refine ⟨by decide, ⟨by decide, by decide, ?_, by decide⟩, rfl, ?_,
    .cons (by decide) (.cons (by decide) .nil), assembled, ?_⟩
  · refine .cons ?_ (.cons (by rintro _ ⟨⟩) .nil)
    rintro _ ⟨⟩
    exact ⟨by decide, by decide, by decide⟩
  · rintro result table ⟨⟩
    exact ⟨by decide, by decide⟩
  · rintro ⟨_, _, expected, splits⟩
    cases expected
    obtain ⟨result, table, found, -, sameTables⟩ := splits [] 0
    rw [assembled] at found
    cases found
    revert sameTables
    decide

end Ldv.Statement
