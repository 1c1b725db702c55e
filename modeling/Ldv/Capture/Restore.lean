import Ldv.Library.CText
import Ldv.Library.Interleaving

/-!
# Restoring a database by several clients

`prv_restoretable` executes the statements of a captured log.  Several
clients may restore the same log: the client whose first `CREATE TABLE`
succeeds goes on, and the others stop at that statement.

The log is read by `fgets` with a buffer of fixed size.  If all lines fit
the buffer, every row of the log is inserted exactly once and every table is
created exactly once, however the statements of the clients interleave.
-/

namespace Ldv.Capture

open CText Interleaving

def strLongLen : Nat := 1024000

/-! ## The server -/

/-- The statements of a log, with the table that is created or inserted to. -/
inductive Statement (Name : Type*) where
  | create (table : Name)
  | insert (table : Name)
deriving DecidableEq, Repr

/-- The statements a database has executed, and whether they succeeded. -/
abbrev History := List (Text × Bool)

section Server

variable
  {Name : Type*}
  (parse : Text → Option (Statement Name))

def createdTable (sql : Text) : Option Name :=
  match parse sql with
  | some (.create table) => some table
  | _ => none

def insertedTable (sql : Text) : Option Name :=
  match parse sql with
  | some (.insert table) => some table
  | _ => none

/-- The tables of a database which was empty at first, as they are created. -/
def tables (history : History) : List Name :=
  history.filterMap fun (sql, success) =>
    if success then createdTable parse sql else none

/-- The statements that insert rows, as they are executed. -/
def inserts (history : History) : History :=
  history.filter fun (sql, _) => (insertedTable parse sql).isSome

/-- A table is created if there is none of its name. -/
def succeeds [DecidableEq Name] (sql : Text) (history : History) : Bool :=
  match parse sql with
  | some (.create table) => decide (table ∉ tables parse history)
  | some (.insert table) => decide (table ∈ tables parse history)
  | none => false

def pqExecSingle [DecidableEq Name] (sql : Text) (history : History) : Bool × History :=
  (succeeds parse sql history, history ++ [(sql, succeeds parse sql history)])

end Server

/-! ## The client -/

/-- What a client does with a line of the log. -/
inductive Command where
  | storeTable (sql : Text)
  | storeRow (sql : Text)
  | skip
  /-- A tab is missing, and the null pointer is followed. -/
  | nullPointer
deriving DecidableEq, Repr

def command (line : Text) : Command :=
  if (ascii "prv_store_table").isPrefixOf line then
    match afterChar tab line with
    | some sql => .storeTable sql
    | none => .nullPointer
  else if (ascii "prv_store_row").isPrefixOf line then
    match afterChar tab line >>= afterChar tab >>= afterChar tab with
    | some sql => .storeRow sql
    | none => .nullPointer
  else
    .skip

inductive Phase where
  | reading
  | finished
  | crashed
deriving DecidableEq, Repr

structure Client where
  file : Text
  iamtheone : Bool := false
  phase : Phase := .reading

section Loop

variable
  {Database : Type*}
  (exec : Text → Database → Bool × Database)

def perform (client : Client) (database : Database) : Command → Client × Database
  | .storeTable sql =>
    let executed := exec sql database
    if !client.iamtheone && !executed.1 then
      ({ client with phase := .finished }, executed.2)
    else
      ({ client with iamtheone := true }, executed.2)
  | .storeRow sql => (client, (exec sql database).2)
  | .skip => (client, database)
  | .nullPointer => ({ client with phase := .crashed }, database)

/-- One iteration of the loop over the lines of the log. -/
def prvRestoretable (client : Client) (database : Database) : Client × Database :=
  match client.phase with
  | .finished | .crashed => (client, database)
  | .reading =>
    match fgets strLongLen client.file with
    | none => ({ client with phase := .finished }, database)
    | some (line, rest) =>
      perform exec { client with file := rest } database (command line)

end Loop

/-! ## The log -/

/-- The text of a log with the given lines. -/
def logText (lines : List Text) : Text :=
  lines.flatMap fun line => line ++ [newline]

/-- The command of a line, which is read together with its newline. -/
def lineCommand (line : Text) : Command := command (line ++ [newline])

/-- The rows a log stores. -/
def storedRows (lines : List Text) : List Text :=
  lines.filterMap fun line =>
    match lineCommand line with
    | .storeRow sql => some sql
    | _ => none

section Log

variable
  {Name : Type*}
  (parse : Text → Option (Statement Name))

/-- The tables a log stores. -/
def storedTables (lines : List Text) : List Name :=
  lines.filterMap fun line =>
    match lineCommand line with
    | .storeTable sql => createdTable parse sql
    | _ => none

variable [DecidableEq Name]

/-- A line is complete, and the table of a row is among the known ones. -/
def lineOk (known : List Name) (line : Text) : Bool :=
  match lineCommand line with
  | .storeTable sql => (createdTable parse sql).isSome
  | .storeRow sql => (insertedTable parse sql).any (· ∈ known)
  | .skip => true
  | .nullPointer => false

/-- Each row is preceded by its table. -/
structure CaptureLog (lines : List Text) : Prop where
  single : ∀ line ∈ lines, newline ∉ line
  ok :
    ∀ index : Fin lines.length,
      lineOk parse (storedTables parse (lines.take index)) (lines.get index) = true

/-- Every line fits the buffer, together with its newline. -/
def LinesShort (lines : List Text) : Prop :=
  ∀ line ∈ lines, line.length + 1 < strLongLen

/-- Several clients start to restore a log into an empty database. -/
def restoreStart {Database : Type*} (clients : Nat) (lines : List Text) (empty : Database) :
    World (Fin clients) Client Database where
  locals _ := { file := logText lines }
  shared := empty

/-- What the clients have reached after a schedule. -/
def restoreRun (clients : Nat) (lines : List Text) (schedule : List (Fin clients)) :
    World (Fin clients) Client History :=
  (restoreStart clients lines []).run (prvRestoretable (pqExecSingle parse)) schedule

/--
Each row of the log has been inserted once and in order, and each table has
been created once.
-/
structure RestoredOnce (lines : List Text) (history : History) : Prop where
  rows : inserts parse history = (storedRows lines).map fun sql => (sql, true)
  nodup : (tables parse history).Nodup
  created : ∀ table, table ∈ tables parse history ↔ table ∈ storedTables parse lines

end Log

/-! ## One iteration -/

section Iteration

variable
  {Database : Type*}
  {exec : Text → Database → Bool × Database}
  {client : Client}

theorem prvRestoretable_finished (finished : client.phase = .finished) (database : Database) :
    prvRestoretable exec client database = (client, database) := by
  rw [prvRestoretable, finished]

theorem prvRestoretable_nil (reading : client.phase = .reading) (file : client.file = logText [])
    (database : Database) :
    prvRestoretable exec client database = ({ client with phase := .finished }, database) := by
  rw [prvRestoretable, reading, file]
  rfl

theorem prvRestoretable_read {line rest : Text} (reading : client.phase = .reading)
    (got : fgets strLongLen client.file = some (line, rest)) (database : Database) :
    prvRestoretable exec client database =
      perform exec { client with file := rest } database (command line) := by
  rw [prvRestoretable, reading, got]

theorem prvRestoretable_cons {line : Text} {rest : List Text} (single : newline ∉ line)
    (short : line.length + 1 < strLongLen) (reading : client.phase = .reading)
    (file : client.file = logText (line :: rest)) (database : Database) :
    prvRestoretable exec client database =
      perform exec { client with file := logText rest } database (lineCommand line) := by
  apply prvRestoretable_read reading
  rw [file, logText, List.flatMap_cons, List.append_assoc]
  exact fgets_line single (by exact_mod_cast short) _

theorem perform_goesOn (client : Client) {database : Database} {sql : Text}
    (goesOn : client.iamtheone = true ∨ (exec sql database).1 = true) :
    perform exec client database (.storeTable sql) =
      ({ client with iamtheone := true }, (exec sql database).2) := by
  rcases goesOn with isOne | success
  · simp [perform, isOne]
  · simp [perform, success]

theorem perform_stops (client : Client) {database : Database} {sql : Text}
    (notYet : client.iamtheone = false) (fails : (exec sql database).1 = false) :
    perform exec client database (.storeTable sql) =
      ({ client with phase := .finished }, (exec sql database).2) := by
  simp [perform, notYet, fails]

theorem perform_file (client : Client) (database : Database) (command : Command) :
    (perform exec client database command).1.file = client.file := by
  cases command with
  | storeTable sql =>
    rw [perform]
    split <;> rfl
  | storeRow | skip | nullPointer => rfl

/-- Every iteration reads on, or is the last one of its client. -/
theorem prvRestoretable_reads (client : Client) (database : Database) :
    (prvRestoretable exec client database).1.phase ≠ .reading ∨
      (prvRestoretable exec client database).1.file.length < client.file.length := by
  cases phase : client.phase with
  | finished =>
    left
    simp [prvRestoretable, phase]
  | crashed =>
    left
    simp [prvRestoretable, phase]
  | reading =>
    rw [prvRestoretable, phase]
    cases got : fgets strLongLen client.file with
    | none =>
      left
      simp
    | some step =>
      rcases step with ⟨line, rest⟩
      have shorter := length_lt_of_fgets (by decide) got
      right
      simp only
      rw [perform_file]
      exact shorter

end Iteration

/-! ## Executing the statements of a log -/

section Execution

variable
  {Name : Type*}
  {parse : Text → Option (Statement Name)}

theorem createdTable_eq_some {sql : Text} {table : Name} :
    createdTable parse sql = some table ↔ parse sql = some (.create table) := by
  unfold createdTable
  split <;> simp_all

theorem insertedTable_eq_some {sql : Text} {table : Name} :
    insertedTable parse sql = some table ↔ parse sql = some (.insert table) := by
  unfold insertedTable
  split <;> simp_all

theorem storedRows_append (before after : List Text) :
    storedRows (before ++ after) = storedRows before ++ storedRows after :=
  List.filterMap_append ..

theorem storedTables_append (before after : List Text) :
    storedTables parse (before ++ after) = storedTables parse before ++ storedTables parse after :=
  List.filterMap_append ..

theorem tables_append (history : History) (sql : Text) (success : Bool) :
    tables parse (history ++ [(sql, success)]) =
      tables parse history ++ (if success then createdTable parse sql else none).toList := by
  unfold tables
  rw [List.filterMap_append]
  cases success with
  | false => rfl
  | true => cases created : createdTable parse sql <;> simp [created]

variable
  {lines : List Text}
  {history : History}
  {line sql : Text}
  {table : Name}

namespace RestoredOnce

theorem empty : RestoredOnce parse [] [] := ⟨rfl, List.nodup_nil, fun _ => Iff.rfl⟩

theorem skip (restored : RestoredOnce parse lines history) (skipped : lineCommand line = .skip) :
    RestoredOnce parse (lines ++ [line]) history := by
  have noRow : storedRows [line] = [] := by simp [storedRows, skipped]
  have noTable : storedTables parse [line] = [] := by
    simp [storedTables, skipped]
  constructor
  · rw [restored.rows, storedRows_append, noRow, List.append_nil]
  · exact restored.nodup
  · rw [storedTables_append, noTable, List.append_nil]
    exact restored.created

/-- Nothing is to be done for lines that are skipped. -/
theorem of_skipped (skipped : ∀ line ∈ lines, lineCommand line = .skip) :
    RestoredOnce parse lines [] := by
  induction lines using List.reverseRecOn with
  | nil => exact empty
  | append_singleton lines line ih =>
    apply skip
    · apply ih
      intro other member
      exact skipped other (List.mem_append_left _ member)
    · exact skipped line (by simp)

end RestoredOnce

variable [DecidableEq Name]

/-- Executing a statement that creates a table. -/
theorem exec_create (history : History) (creates : createdTable parse sql = some table) :
    inserts parse (pqExecSingle parse sql history).2 = inserts parse history ∧
      tables parse (pqExecSingle parse sql history).2 =
        if table ∈ tables parse history then
          tables parse history
        else
          tables parse history ++ [table] := by
  have parsed := createdTable_eq_some.mp creates
  have noInsert : insertedTable parse sql = none := by
    simp [insertedTable, parsed]
  constructor
  · simp [inserts, pqExecSingle, noInsert]
  · have success :
        succeeds parse sql history =
          decide (table ∉ tables parse history) := by
      simp [succeeds, parsed]
    rw [pqExecSingle, success, tables_append, creates]
    by_cases known : table ∈ tables parse history <;> simp [known]

/-- Executing a statement that inserts into a table of the database. -/
theorem exec_insert (into : insertedTable parse sql = some table)
    (known : table ∈ tables parse history) :
    inserts parse (pqExecSingle parse sql history).2 =
        inserts parse history ++ [(sql, true)] ∧
      tables parse (pqExecSingle parse sql history).2 = tables parse history := by
  have parsed := insertedTable_eq_some.mp into
  have noCreate : createdTable parse sql = none := by
    simp [createdTable, parsed]
  constructor
  · simp [inserts, pqExecSingle, into, succeeds, parsed, known]
  · simp [pqExecSingle, tables_append, noCreate]

namespace RestoredOnce

theorem storeTable (restored : RestoredOnce parse lines history)
    (isTable : lineCommand line = .storeTable sql) (creates : createdTable parse sql = some table) :
    RestoredOnce parse (lines ++ [line]) (pqExecSingle parse sql history).2 := by
  rcases exec_create history creates with ⟨rows, created⟩
  have noRow : storedRows [line] = [] := by simp [storedRows, isTable]
  have isNew : storedTables parse [line] = [table] := by
    simp [storedTables, isTable, creates]
  constructor
  · rw [rows, restored.rows, storedRows_append, noRow, List.append_nil]
  · rw [created]
    split
    · exact restored.nodup
    · next new =>
        rw [← List.concat_eq_append]
        exact restored.nodup.concat new
  · intro other
    rw [created, storedTables_append, isNew]
    split
    · next known =>
        rw [List.mem_append, List.mem_singleton, ← restored.created]
        constructor
        · exact Or.inl
        · rintro (member | rfl)
          · exact member
          · exact known
    · rw [List.mem_append, List.mem_append, restored.created]

theorem storeRow (restored : RestoredOnce parse lines history)
    (isRow : lineCommand line = .storeRow sql) (into : insertedTable parse sql = some table)
    (known : table ∈ storedTables parse lines) :
    RestoredOnce parse (lines ++ [line]) (pqExecSingle parse sql history).2 := by
  rcases exec_insert into ((restored.created table).mpr known) with
    ⟨rows, created⟩
  have isNew : storedRows [line] = [sql] := by simp [storedRows, isRow]
  have noTable : storedTables parse [line] = [] := by
    simp [storedTables, isRow]
  constructor
  · rw [rows, restored.rows, storedRows_append, isNew, List.map_append]
    rfl
  · rw [created]
    exact restored.nodup
  · rw [created, storedTables_append, noTable, List.append_nil]
    exact restored.created

/-- A table that exists already is not created again. -/
theorem failed (restored : RestoredOnce parse lines history)
    (creates : createdTable parse sql = some table) (known : table ∈ storedTables parse lines) :
    succeeds parse sql history = false ∧
      RestoredOnce parse lines (pqExecSingle parse sql history).2 := by
  have present := (restored.created table).mpr known
  rcases exec_create history creates with ⟨rows, created⟩
  rw [if_pos present] at created
  constructor
  · simp [succeeds, createdTable_eq_some.mp creates, present]
  · constructor
    · rw [rows, restored.rows]
    · rw [created]
      exact restored.nodup
    · rw [created]
      exact restored.created

end RestoredOnce

end Execution

/-! ## Runs of several clients -/

/-- A client has dealt with a part of the log. -/
structure Position (lines : List Text) (client : Client) (done rest : List Text) :
    Prop where
  split : lines = done ++ rest
  file : client.file = logText rest
  phase : client.phase = .reading ∨ client.phase = .finished ∧ rest = []

/-- A client that has not executed any statement. -/
def Waiting (lines : List Text) (client : Client) : Prop :=
  client.iamtheone = false ∧
    ∃ done rest, Position lines client done rest ∧ ∀ line ∈ done, lineCommand line = .skip

section Run

variable
  {Name : Type*}
  [DecidableEq Name]
  {parse : Text → Option (Statement Name)}
  {lines : List Text}

/-- The part of the log which has been executed, with the first table. -/
def Executed (parse : Text → Option (Statement Name)) (done : List Text) (history : History) :
    Prop :=
  RestoredOnce parse done history ∧ ∃ line ∈ done, lineCommand line ≠ .skip

/-- The client that created the first table. -/
def Leading (parse : Text → Option (Statement Name)) (lines : List Text) (client : Client)
    (history : History) :
    Prop :=
  client.iamtheone = true ∧
    ∃ done rest, Position lines client done rest ∧ Executed parse done history

theorem CaptureLog.lineOk (log : CaptureLog parse lines) {before after : List Text} {line : Text}
    (split : lines = before ++ line :: after) :
    lineOk parse (storedTables parse before) line = true := by
  subst split
  have ok := log.ok ⟨before.length, by simp⟩
  simpa using ok

/-- What a line of a captured log can be. -/
theorem lineOk_cases {known : List Name} {line : Text} (ok : lineOk parse known line = true) :
    (∃ sql table, lineCommand line = .storeTable sql ∧ createdTable parse sql = some table) ∨
    (∃ sql, ∃ table ∈ known,
      lineCommand line = .storeRow sql ∧ insertedTable parse sql = some table) ∨
    lineCommand line = .skip := by
  unfold lineOk at ok
  split at ok
  · next sql isTable =>
      rcases Option.isSome_iff_exists.mp ok with ⟨table, creates⟩
      exact Or.inl ⟨sql, table, isTable, creates⟩
  · next sql isRow =>
      rcases Option.any_eq_true_iff_get _ _ |>.mp ok with ⟨isSome, known'⟩
      refine Or.inr (Or.inl ⟨sql, _, of_decide_eq_true known', isRow, ?_⟩)
      exact (Option.some_get isSome).symm
  · next skipped => exact Or.inr (Or.inr skipped)
  · contradiction

/-- A part of the log that does more than to skip lines has gone further. -/
theorem mem_of_first {done rest seen after : List Text} {line : Text}
    (same : done ++ rest = seen ++ line :: after)
    (skipped : ∀ line ∈ seen, lineCommand line = .skip)
    (some : ∃ line ∈ done, lineCommand line ≠ .skip) :
    line ∈ done := by
  rcases some with ⟨first, member, notSkip⟩
  rcases List.append_eq_append_iff.mp same with
    ⟨more, isSeen, _⟩ | ⟨more, isDone, isMore⟩
  · have inSeen : first ∈ seen := by
      rw [isSeen]
      exact List.mem_append_left _ member
    exact absurd (skipped first inSeen) notSkip
  · cases more with
    | nil =>
      rw [isDone, List.append_nil] at member
      exact absurd (skipped first member) notSkip
    | cons head more =>
      rw [List.cons_append, List.cons.injEq] at isMore
      rw [isDone, isMore.1]
      exact List.mem_append_right _ List.mem_cons_self

section Step

variable
  (log : CaptureLog parse lines)
  (short : LinesShort lines)
  {client : Client}
  {history : History}

include log short

/-- An iteration deals with the next line, or there is none. -/
theorem Position.step {done rest : List Text} (position : Position lines client done rest)
    (history : History) :
    (∃ client',
      Position lines client' done rest ∧
        client'.iamtheone = client.iamtheone ∧
        prvRestoretable (pqExecSingle parse) client history = (client', history)) ∨
    ∃ line after,
      rest = line :: after ∧
        lineOk parse (storedTables parse done) line = true ∧
        client.phase = .reading ∧
        Position lines { client with file := logText after } (done ++ [line]) after ∧
        prvRestoretable (pqExecSingle parse) client history =
          perform (pqExecSingle parse) { client with file := logText after } history
            (lineCommand line) := by
  rcases position with ⟨split, file, reading | ⟨finished, atEnd⟩⟩
  · cases rest with
    | nil =>
      refine Or.inl ⟨{ client with phase := .finished }, ?_, rfl,
        prvRestoretable_nil reading file history⟩
      exact ⟨split, file, Or.inr ⟨rfl, rfl⟩⟩
    | cons line after =>
      have member : line ∈ lines := by simp [split]
      refine Or.inr ⟨line, after, rfl, log.lineOk split, reading, ?_, ?_⟩
      · exact ⟨by simp [split], rfl, Or.inl reading⟩
      · exact prvRestoretable_cons (log.single line member)
          (short line member) reading file history
  · refine Or.inl ⟨client, ?_, rfl, prvRestoretable_finished finished history⟩
    exact ⟨split, file, Or.inr ⟨finished, atEnd⟩⟩

/-- Before a table is created a client waits, or is the one. -/
theorem Waiting.step (waiting : Waiting lines client) :
    (Waiting lines (prvRestoretable (pqExecSingle parse) client []).1 ∧
      (prvRestoretable (pqExecSingle parse) client []).2 = []) ∨
    Leading parse lines (prvRestoretable (pqExecSingle parse) client []).1
      (prvRestoretable (pqExecSingle parse) client []).2 := by
  rcases waiting with ⟨notYet, done, rest, position, skipped⟩
  have nothing : RestoredOnce parse done [] := RestoredOnce.of_skipped skipped
  rcases position.step log short [] with
    ⟨client', position', same, step⟩ |
      ⟨line, after, rfl, ok, reading, position', step⟩
  · rw [step]
    exact Or.inl ⟨⟨same.trans notYet, done, rest, position', skipped⟩, rfl⟩
  · rw [step]
    rcases lineOk_cases ok with
      ⟨sql, table, isTable, creates⟩ | ⟨sql, table, known, _⟩ | isSkip
    · have success : succeeds parse sql [] = true := by
        simp [succeeds, createdTable_eq_some.mp creates, tables]
      rw [isTable, perform_goesOn _ (Or.inr success)]
      refine Or.inr ⟨rfl, done ++ [line], after, ?_, ?_⟩
      · exact ⟨position'.split, rfl, Or.inl reading⟩
      · exact ⟨nothing.storeTable isTable creates, line, by simp, by simp [isTable]⟩
    · rw [← nothing.created] at known
      contradiction
    · rw [isSkip]
      refine Or.inl ⟨⟨notYet, done ++ [line], after, position', ?_⟩, rfl⟩
      intro other member
      rcases List.mem_append.mp member with member | member
      · exact skipped other member
      · rwa [List.mem_singleton.mp member]

/-- When the first table has been created, the others do nothing. -/
theorem Waiting.step_led (waiting : Waiting lines client) {done rest : List Text}
    (split : lines = done ++ rest) (executed : Executed parse done history) :
    (Waiting lines (prvRestoretable (pqExecSingle parse) client history).1 ∨
      (prvRestoretable (pqExecSingle parse) client history).1.phase = .finished) ∧
    Executed parse done (prvRestoretable (pqExecSingle parse) client history).2 := by
  rcases waiting with ⟨notYet, seen, ahead, position, skipped⟩
  rcases executed with ⟨restored, some⟩
  rcases position.step log short history with
    ⟨client', position', same, step⟩ |
      ⟨line, after, rfl, ok, _, position', step⟩
  · rw [step]
    exact ⟨Or.inl ⟨same.trans notYet, seen, ahead, position', skipped⟩, restored, some⟩
  · rw [step]
    rcases lineOk_cases ok with
      ⟨sql, table, isTable, creates⟩ | ⟨sql, table, known, _⟩ | isSkip
    · have member : line ∈ done := mem_of_first (split.symm.trans position.split) skipped some
      have known : table ∈ storedTables parse done :=
        List.mem_filterMap.mpr ⟨line, member, by simp [isTable, creates]⟩
      rcases restored.failed creates known with ⟨fails, restored'⟩
      rw [isTable, perform_stops { client with file := logText after } notYet fails]
      exact ⟨Or.inr rfl, restored', some⟩
    · rw [← (RestoredOnce.of_skipped skipped).created] at known
      contradiction
    · rw [isSkip]
      refine ⟨Or.inl ⟨notYet, seen ++ [line], after, position', ?_⟩, restored, some⟩
      intro other member
      rcases List.mem_append.mp member with member | member
      · exact skipped other member
      · rwa [List.mem_singleton.mp member]

theorem Leading.step (leading : Leading parse lines client history) :
    Leading parse lines (prvRestoretable (pqExecSingle parse) client history).1
      (prvRestoretable (pqExecSingle parse) client history).2 := by
  rcases leading with
    ⟨isOne, done, rest, position, restored, some⟩
  rcases position.step log short history with
    ⟨client', position', same, step⟩ |
      ⟨line, after, rfl, ok, reading, position', step⟩
  · rw [step]
    exact ⟨same.trans isOne, done, rest, position', restored, some⟩
  · have some' : ∃ line' ∈ done ++ [line], lineCommand line' ≠ .skip := by
      rcases some with ⟨line', member, notSkip⟩
      exact ⟨line', List.mem_append_left _ member, notSkip⟩
    rw [step]
    rcases lineOk_cases ok with
      ⟨sql, table, isTable, creates⟩ |
        ⟨sql, table, known, isRow, into⟩ | isSkip
    · rw [isTable, perform_goesOn { client with file := logText after } (Or.inl isOne)]
      refine ⟨rfl, done ++ [line], after, ?_, ?_, some'⟩
      · exact ⟨position'.split, rfl, Or.inl reading⟩
      · exact restored.storeTable isTable creates
    · rw [isRow]
      exact ⟨isOne, done ++ [line], after, position', restored.storeRow isRow into known, some'⟩
    · rw [isSkip]
      exact ⟨isOne, done ++ [line], after, position', restored.skip isSkip, some'⟩

end Step

/-- No client, or just one, has created the first table. -/
inductive RestoreInvariant {clients : Nat} (parse : Text → Option (Statement Name))
    (lines : List Text) (world : World (Fin clients) Client History) :
    Prop where
  | start
      (waiting : ∀ client, Waiting lines (world.locals client))
      (empty : world.shared = []) :
      RestoreInvariant parse lines world
  | led
      (leader : Fin clients)
      (leading : Leading parse lines (world.locals leader) world.shared)
      (others :
        ∀ client, client ≠ leader →
          Waiting lines (world.locals client) ∨
            (world.locals client).phase = .finished) :
      RestoreInvariant parse lines world

theorem RestoreInvariant.step (log : CaptureLog parse lines) (short : LinesShort lines)
    {clients : Nat} {world : World (Fin clients) Client History}
    (invariant : RestoreInvariant parse lines world) (client : Fin clients) :
    RestoreInvariant parse lines (world.step (prvRestoretable (pqExecSingle parse)) client) := by
  cases invariant with
  | start waiting empty =>
    have moved := (waiting client).step log short
    rw [← empty] at moved
    rcases moved with ⟨waits, unchanged⟩ | leads
    · exact .start (World.forall_step waits fun other _ => waiting other) (unchanged.trans empty)
    · apply RestoreInvariant.led client
      · rw [World.step_self]
        exact leads
      · intro other different
        rw [World.step_other different]
        exact Or.inl (waiting other)
  | led leader leading others =>
    by_cases isLeader : client = leader
    · subst isLeader
      apply RestoreInvariant.led client
      · rw [World.step_self]
        exact leading.step log short
      · intro other notLeader
        rw [World.step_other notLeader]
        exact others other notLeader
    · rcases leading with ⟨isOne, done, rest, position, executed⟩
      have moved :
          (Waiting lines
              (prvRestoretable (pqExecSingle parse) (world.locals client) world.shared).1 ∨
            (prvRestoretable (pqExecSingle parse) (world.locals client) world.shared).1.phase =
              .finished) ∧
          Executed parse done
            (prvRestoretable (pqExecSingle parse) (world.locals client) world.shared).2 := by
        rcases others client isLeader with waits | finished
        · exact waits.step_led log short position.split executed
        · rw [prvRestoretable_finished finished]
          exact ⟨Or.inr finished, executed⟩
      apply RestoreInvariant.led leader
      · rw [World.step_other (Ne.symm isLeader)]
        exact ⟨isOne, done, rest, position, moved.2⟩
      · exact World.forall_step (P := fun other local' => other ≠ leader →
          Waiting lines local' ∨ local'.phase = .finished) (fun _ => moved.1)
          fun other _ => others other

omit [DecidableEq Name] in
/-- When all clients have finished, the whole log has been executed. -/
theorem RestoreInvariant.restoredOnce {clients : Nat} {world : World (Fin clients) Client History}
    (invariant : RestoreInvariant parse lines world) (someClient : 0 < clients)
    (finished : ∀ client, (world.locals client).phase = .finished) :
    RestoredOnce parse lines world.shared := by
  have atEnd {client : Fin clients} {done rest : List Text}
      (position : Position lines (world.locals client) done rest) :
      lines = done := by
    rcases position with ⟨split, _, reading | ⟨_, none⟩⟩
    · rw [finished client] at reading
      contradiction
    · rw [split, none, List.append_nil]
  cases invariant with
  | start waiting empty =>
    rcases waiting ⟨0, someClient⟩ with ⟨_, done, rest, position, skipped⟩
    rw [empty, atEnd position]
    exact RestoredOnce.of_skipped skipped
  | led leader leading _ =>
    rcases leading with ⟨_, done, rest, position, executed, _⟩
    rw [atEnd position]
    exact executed

omit [DecidableEq Name] in
/-- Every client has a position in the log, unless it has finished. -/
theorem RestoreInvariant.position {clients : Nat} {world : World (Fin clients) Client History}
    (invariant : RestoreInvariant parse lines world) (client : Fin clients) :
    (∃ done rest, Position lines (world.locals client) done rest) ∨
      (world.locals client).phase = .finished := by
  cases invariant with
  | start waiting _ =>
    rcases waiting client with ⟨_, done, rest, position, _⟩
    exact Or.inl ⟨done, rest, position⟩
  | led leader leading others =>
    by_cases isLeader : client = leader
    · subst isLeader
      rcases leading with ⟨_, done, rest, position, _⟩
      exact Or.inl ⟨done, rest, position⟩
    · rcases others client isLeader with ⟨_, done, rest, position, _⟩ | finished
      · exact Or.inl ⟨done, rest, position⟩
      · exact Or.inr finished

omit [DecidableEq Name] in
/-- No client crashes, and one that does not read any more has finished. -/
theorem RestoreInvariant.phase {clients : Nat} {world : World (Fin clients) Client History}
    (invariant : RestoreInvariant parse lines world) {client : Fin clients}
    (rests : (world.locals client).phase ≠ .reading) :
    (world.locals client).phase = .finished := by
  rcases invariant.position client with ⟨done, rest, position⟩ | finished
  · rcases position.phase with reading | ⟨finished, _⟩
    · contradiction
    · exact finished
  · exact finished

section Main

variable
  {clients : Nat}
  (schedule : List (Fin clients))

theorem restoreInvariant_restoreRun (log : CaptureLog parse lines) (short : LinesShort lines) :
    RestoreInvariant parse lines (restoreRun parse clients lines schedule) := by
  apply World.run_invariant (RestoreInvariant parse lines)
  · exact fun world client invariant => invariant.step log short client
  · apply RestoreInvariant.start
    · intro client
      refine ⟨rfl, [], lines, ⟨rfl, rfl, Or.inl rfl⟩, ?_⟩
      intro line member
      contradiction
    · rfl

/-- A client that takes enough steps does not read any more. -/
theorem restoreRun_rests (parse : Text → Option (Statement Name)) (schedule : List (Fin clients))
    {client : Fin clients} (enough : (logText lines).length < schedule.count client) :
    ((restoreRun parse clients lines schedule).locals client).phase ≠ .reading := by
  apply World.run_rest (fun client : Client => client.phase ≠ .reading)
    (fun client => client.file.length)
  · intro client history resting
    cases phase : client.phase with
    | reading => contradiction
    | finished => simp [prvRestoretable, phase]
    | crashed => simp [prvRestoretable, phase]
  · exact prvRestoretable_reads
  · exact enough

/-- Whether all clients have come to the end. -/
def AllFinished {Database : Type*} (world : World (Fin clients) Client Database) : Prop :=
  ∀ client, (world.locals client).phase = .finished

/--
If the lines of a captured log fit the buffer, then for every number of
clients and every interleaving all clients come to an end, and when they
have, each row has been inserted exactly once and each table has been created
exactly once.
-/
theorem restoredOnce_of_linesShort (parse : Text → Option (Statement Name)) {lines : List Text}
    (log : CaptureLog parse lines) (short : LinesShort lines) {clients : Nat}
    (someClient : 0 < clients) (schedule : List (Fin clients)) :
    ((∀ client, (logText lines).length < schedule.count client) →
      AllFinished (restoreRun parse clients lines schedule)) ∧
    (AllFinished (restoreRun parse clients lines schedule) →
      RestoredOnce parse lines (restoreRun parse clients lines schedule).shared) := by
  have invariant := restoreInvariant_restoreRun schedule log short
  constructor
  · intro enough client
    exact invariant.phase (restoreRun_rests parse schedule (enough client))
  · exact invariant.restoredOnce someClient

/--
At every moment of every interleaving the database holds a first part of the
log, each table and row of it once, and a client that takes enough steps
comes to an end, whatever the others do.
-/
theorem restores_firstPart (log : CaptureLog parse lines) (short : LinesShort lines) :
    (∃ done, done <+: lines ∧
      RestoredOnce parse done (restoreRun parse clients lines schedule).shared) ∧
    ∀ client, (logText lines).length < schedule.count client →
      ((restoreRun parse clients lines schedule).locals client).phase = .finished := by
  have invariant := restoreInvariant_restoreRun schedule log short
  constructor
  · cases invariant with
    | start _ empty => exact ⟨[], List.nil_prefix, empty ▸ RestoredOnce.empty⟩
    | led leader leading _ =>
      rcases leading with ⟨_, done, rest, position, executed, _⟩
      exact ⟨done, ⟨rest, position.split.symm⟩, executed⟩
  · intro client enough
    exact invariant.phase (restoreRun_rests parse schedule enough)

end Main

/-- A statement is a part of its line. -/
theorem length_le_of_command {line sql : Text}
    (isCommand : command line = .storeTable sql ∨ command line = .storeRow sql) :
    sql.length ≤ line.length := by
  unfold command at isCommand
  split at isCommand
  · split at isCommand
    · next found =>
        have part := (suffix_of_afterChar found).length_le
        simp_all
    · simp at isCommand
  · split at isCommand
    · split at isCommand
      · next found =>
          rcases Option.bind_eq_some_iff.mp found with ⟨_, before, third⟩
          rcases Option.bind_eq_some_iff.mp before with ⟨_, first, second⟩
          have part :=
            ((suffix_of_afterChar third).trans
              ((suffix_of_afterChar second).trans (suffix_of_afterChar first))).length_le
          simp_all
      · simp at isCommand
    · simp at isCommand

/-- An iteration executes at most one statement, which fits the buffer. -/
theorem prvRestoretable_history (parse : Text → Option (Statement Name)) (client : Client)
    (history : History) :
    (prvRestoretable (pqExecSingle parse) client history).2 = history ∨
      ∃ sql,
        sql.length < strLongLen ∧
          (prvRestoretable (pqExecSingle parse) client history).2 =
            (pqExecSingle parse sql history).2 := by
  unfold prvRestoretable
  split
  · exact Or.inl rfl
  · exact Or.inl rfl
  · cases got : fgets strLongLen client.file with
    | none => exact Or.inl rfl
    | some step =>
      rcases step with ⟨line, rest⟩
      have short := length_le_of_fgets got
      simp only
      cases isCommand : command line with
      | storeTable sql =>
        have part := length_le_of_command (Or.inl isCommand)
        refine Or.inr ⟨sql, by omega, ?_⟩
        rw [perform]
        split <;> rfl
      | storeRow sql =>
        have part := length_le_of_command (Or.inr isCommand)
        exact Or.inr ⟨sql, by omega, rfl⟩
      | skip | nullPointer => exact Or.inl rfl

theorem length_lt_of_mem_history {clients : Nat} (lines : List Text)
    (schedule : List (Fin clients)) :
    ∀ statement ∈ (restoreRun parse clients lines schedule).shared,
      statement.1.length < strLongLen := by
  apply World.run_invariant fun world : World (Fin clients) Client History =>
    ∀ statement ∈ world.shared, statement.1.length < strLongLen
  · intro world client allShort statement member
    change statement ∈
      (prvRestoretable (pqExecSingle parse) (world.locals client) world.shared).2 at member
    rcases prvRestoretable_history parse (world.locals client)
      world.shared with same | ⟨sql, short, executed⟩
    · rw [same] at member
      exact allShort statement member
    · rw [executed, pqExecSingle, List.mem_append, List.mem_singleton] at member
      rcases member with member | rfl
      · exact allShort statement member
      · exact short
  · intro statement member
    contradiction

/-- A row whose statement is longer than the buffer is never restored. -/
theorem not_restoredOnce_of_long {clients : Nat} {lines : List Text} {sql : Text}
    (stored : sql ∈ storedRows lines) (long : strLongLen ≤ sql.length)
    (schedule : List (Fin clients)) :
    ¬ RestoredOnce parse lines (restoreRun parse clients lines schedule).shared := by
  intro restored
  have member : (sql, true) ∈ inserts parse (restoreRun parse clients lines schedule).shared := by
    rw [restored.rows]
    exact List.mem_map_of_mem stored
  have executed := List.mem_of_mem_filter member
  have short := length_lt_of_mem_history lines schedule _ executed
  exact absurd short (Nat.not_lt.mpr long)

end Run

/-! ## A restored log, and one that is not -/

/-- The statements as they are written to a log. -/
def parseStatement (sql : Text) : Option (Statement Text) :=
  if (ascii "CREATE TABLE ").isPrefixOf sql then
    some (.create ((sql.drop 13).takeWhile (· ≠ 32)))
  else if (ascii "INSERT INTO ").isPrefixOf sql then
    some (.insert ((sql.drop 12).takeWhile (· ≠ 32)))
  else
    none

def tableLine : Text := ascii "prv_store_table\tCREATE TABLE t (a text);"

def rowLine (value : Text) : Text :=
  ascii "prv_store_row\t1\tt\tINSERT INTO t VALUES ('" ++ (value ++ ascii "');")

theorem lineCommand_rowLine (value : Text) :
    lineCommand (rowLine value) =
      .storeRow (ascii "INSERT INTO t VALUES ('" ++ (value ++ ascii "');" ++ [newline])) := by
  rw [lineCommand, rowLine, List.append_assoc]
  rfl

theorem captureLog_rowLine {value : Text} (single : newline ∉ value) :
    CaptureLog parseStatement [tableLine, rowLine value] := by
  constructor
  · intro line member
    rcases List.mem_pair.mp member with rfl | rfl
    · decide
    · have before : newline ∉ ascii "prv_store_row\t1\tt\tINSERT INTO t VALUES ('" := by
        decide
      have behind : newline ∉ ascii "');" := by decide
      simp [rowLine, before, behind, single]
  · intro index
    cases index using Fin.cases with
    | zero => rfl
    | succ index =>
      cases index using Fin.cases with
      | zero =>
        change lineOk parseStatement [ascii "t"] (rowLine value) = true
        rw [lineOk, lineCommand_rowLine]
        rfl
      | succ index => exact index.elim0

theorem restores_firstPart_three_steps :
    ∃ done, done <+: [tableLine, rowLine []] ∧ RestoredOnce parseStatement done
      (restoreRun parseStatement 2 [tableLine, rowLine []] [1, 0, 1]).shared :=
  (restores_firstPart [1, 0, 1] (captureLog_rowLine (by decide))
    (by simp only [LinesShort, List.forall_mem_cons]; decide)).1

theorem restoredOnce_two_clients :
    CaptureLog parseStatement [tableLine, rowLine (ascii "x")] ∧
      LinesShort [tableLine, rowLine (ascii "x")] ∧
      ∃ schedule : List (Fin 2),
        AllFinished (restoreRun parseStatement 2 [tableLine, rowLine (ascii "x")] schedule) ∧
        RestoredOnce parseStatement [tableLine, rowLine (ascii "x")]
          (restoreRun parseStatement 2 [tableLine, rowLine (ascii "x")] schedule).shared := by
  have log : CaptureLog parseStatement [tableLine, rowLine (ascii "x")] :=
    captureLog_rowLine (by decide)
  have short : LinesShort [tableLine, rowLine (ascii "x")] := by
    intro line member
    rcases List.mem_pair.mp member with rfl | rfl <;> decide
  let schedule : List (Fin 2) := List.replicate 100 0 ++ List.replicate 100 1
  have restored := restoredOnce_of_linesShort parseStatement log short (by decide) schedule
  have finished := restored.1 (by decide +kernel)
  exact ⟨log, short, schedule, finished, restored.2 finished⟩

/-- What is left of a long row, behind the part that is executed. -/
theorem fgets_rowLine {value : Text} (single : newline ∉ value) (long : strLongLen ≤ value.length) :
    fgets strLongLen (logText [rowLine value]) =
      some (ascii "prv_store_row\t1\tt\tINSERT INTO t VALUES ('" ++
          value.take (strLongLen - 42),
        value.drop (strLongLen - 42) ++ ascii "');\n") := by
  have isLine : newline ∉ rowLine value := (captureLog_rowLine single).single _ (by simp)
  have length :
      (ascii "prv_store_row\t1\tt\tINSERT INTO t VALUES ('").length =
        41 := by
    decide
  have tooLong : (strLongLen : Int) ≤ ((rowLine value).length : Int) + 1 := by
    simp [rowLine]
    omega
  have cut := fgets_part (by decide) isLine tooLong [newline]
  have isText : logText [rowLine value] = rowLine value ++ [newline] := by
    simp [logText]
  have position : ((strLongLen : Int) - 1).toNat = 41 + (strLongLen - 42) := by
    decide
  rw [isText, cut, position, rowLine, ← length, List.take_length_add_append,
    List.drop_length_add_append, List.take_append_of_le_length (by omega),
    List.drop_append_of_le_length (by omega), List.append_assoc]
  rfl

/-- A client finishes with a long row, of which only a part is executed. -/
theorem phase_rowLine {value : Text} (single : newline ∉ value) (long : strLongLen ≤ value.length)
    (left : value.drop (strLongLen - 42) = List.replicate 42 97) :
    ((fun state : Client × History =>
        prvRestoretable (pqExecSingle parseStatement) state.1 state.2)^[4]
      ({ file := logText [tableLine, rowLine value] }, [])).1.phase = .finished := by
  have table :
      prvRestoretable (pqExecSingle parseStatement)
          { file := logText [tableLine, rowLine value] } [] =
        ({ file := logText [rowLine value], iamtheone := true },
          (pqExecSingle parseStatement (ascii "CREATE TABLE t (a text);\n") []).2) := by
    rw [prvRestoretable_cons (by decide) (by decide) rfl rfl]
    rfl
  have row (history : History) :
      ∃ history',
        prvRestoretable (pqExecSingle parseStatement)
            { file := logText [rowLine value], iamtheone := true } history =
          ({ file := List.replicate 42 97 ++ ascii "');\n",
             iamtheone := true },
            history') := by
    rw [prvRestoretable_read rfl (fgets_rowLine single long), left]
    exact ⟨_, rfl⟩
  have rest (history : History) :
      prvRestoretable (pqExecSingle parseStatement)
          { file := List.replicate 42 97 ++ ascii "');\n",
            iamtheone := true }
          history =
        ({ file := [], iamtheone := true }, history) := by
    have isLine : newline ∉ List.replicate 42 97 ++ ascii "');" := by decide
    rw [prvRestoretable_read rfl (fgets_line isLine (by decide) [])]
    rfl
  have atEnd (history : History) :
      prvRestoretable (pqExecSingle parseStatement) { file := [], iamtheone := true } history =
        ({ file := [], iamtheone := true, phase := .finished }, history) :=
    prvRestoretable_nil rfl rfl history
  rcases row (pqExecSingle parseStatement
    (ascii "CREATE TABLE t (a text);\n") []).2 with ⟨history, row⟩
  simp only [Function.iterate_succ_apply, Function.iterate_zero_apply, table, row, rest, atEnd]

/-- A row of a little more than a megabyte is not restored. -/
theorem not_restoredOnce_megabyte :
    ∃ lines,
      CaptureLog parseStatement lines ∧
        ∃ schedule : List (Fin 1),
          AllFinished (restoreRun parseStatement 1 lines schedule) ∧
          ¬ RestoredOnce parseStatement lines
            (restoreRun parseStatement 1 lines schedule).shared := by
  have someValue :
      ∃ value : Text,
        newline ∉ value ∧ strLongLen ≤ value.length ∧
          value.drop (strLongLen - 42) = List.replicate 42 97 := by
    refine ⟨List.replicate strLongLen 97, ?_, ?_, ?_⟩
    · intro member
      exact absurd (List.eq_of_mem_replicate member) (by decide)
    · rw [List.length_replicate]
    · rw [List.drop_replicate]
      congr 1
  rcases someValue with ⟨value, single, long, left⟩
  have stored :
      ascii "INSERT INTO t VALUES ('" ++ (value ++ ascii "');" ++ [newline]) ∈
        storedRows [tableLine, rowLine value] := by
    simp [storedRows, lineCommand_rowLine]
  refine ⟨[tableLine, rowLine value], captureLog_rowLine single, List.replicate 4 0, ?_, ?_⟩
  · intro client
    rw [Subsingleton.elim client 0]
    have alone :
        _ = (fun state : Client × History =>
          prvRestoretable (pqExecSingle parseStatement) state.1 state.2)^[4] _ :=
      World.run_alone (restoreStart 1 [tableLine, rowLine value] []) 0 4
    have phase := phase_rowLine single long left
    exact (congrArg (fun state => state.1.phase) alone).trans phase
  · refine not_restoredOnce_of_long stored ?_ _
    simp only [List.length_append]
    omega

end Ldv.Capture
