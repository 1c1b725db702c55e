import Ldv.Capture.Restore

/-!
# Choice of the database that is restored

`prv_restoredb` restores a captured database if the connection string asks
for it.  It finds the name by searching for `dbname=`, and compares it with
the captured name up to the blank behind it.  The connection for `CREATE
DATABASE` goes to the database `postgres`.

The result is `none` if a buffer overflows or no captured name is found.
-/

namespace Ldv.Capture.RestoreDb

open CText

def strLen : Nat := 50

/-- The position of the first occurrence of a text. -/
def strstr : Text → Text → Option Nat
  | [], needle => if needle.isEmpty then some 0 else none
  | char :: rest, needle =>
    if needle.isPrefixOf (char :: rest) then some 0 else (strstr rest needle).map (· + 1)

def getStoredLoop : Nat → Text → Option Text
  | 0, _ => none
  | fuel + 1, file => do
    let (line, rest) ← fgets strLongLen file
    if (ascii "prv_store_dbname").isPrefixOf line then
      return (line.drop ((ascii "prv_store_dbname").length + 1)).dropLast
    else getStoredLoop fuel rest

/-- Every line has at least one byte. -/
def prvGetStoredDbname (file : Text) : Option Text :=
  getStoredLoop (file.length + 1) file

/--
The log of a session: `prv_init_pkg_capture` writes its first line and
`prv_storeConnection` the second one.
-/
def storedConnection (session dbname rest : Text) : Text :=
  ascii "prv_init" ++ tab :: session ++ newline ::
    (ascii "prv_store_dbname" ++ tab :: dbname ++ newline :: rest)

inductive Outcome where
  | noDbname
  | refused
  | restored (newConninfo dbname : Text)
deriving DecidableEq

/-- A text in a buffer of `strLen` bytes. -/
def buffered (text : Text) : Option Text :=
  if text.length < strLen then some text else none

/-- Without a blank behind the name, `end - start` is larger than any text. -/
def prvRestoredb (conninfo file : Text) : Option Outcome :=
  match strstr conninfo (ascii "dbname=") with
  | none => some .noDbname
  | some position => do
    let start := conninfo.drop (position + 7)
    let newConninfo ← buffered (conninfo.take (position + 7) ++ ascii "postgres")
    let length := (strchr 32 start).getD start.length
    let dbname ← buffered (start.take length)
    let newConninfo ← buffered (newConninfo ++ start.drop length)
    let stored ← prvGetStoredDbname file
    let compared := (strchr 32 start).elim stored fun length => stored.take length
    if compared = dbname then
      let _ ← buffered (ascii "CREATE DATABASE " ++ dbname ++ ascii ";")
      return .restored newConninfo dbname
    else return .refused

/-! ## Connection strings -/

structure Pair where
  key : Text
  value : Text
  noBlank : 32 ∉ key ++ 61 :: value

def Pair.text (pair : Pair) : Text := pair.key ++ 61 :: pair.value

/-- The pairs around the one of the database. -/
structure Conninfo where
  before : List Pair
  dbname : Text
  after : List Pair
  noBlank : 32 ∉ dbname

namespace Conninfo

variable (info : Conninfo)

def front : Text := info.before.flatMap fun pair => pair.text ++ [32]

def back : Text := info.after.flatMap fun pair => 32 :: pair.text

def withDbname (dbname : Text) : Text := info.front ++ ascii "dbname=" ++ dbname ++ info.back

def text : Text := info.withDbname info.dbname

/--
The new connection string and the name fit in their buffers, and so does the
statement that creates the captured database.
-/
def Fits (captured : Text) : Prop :=
  (info.withDbname (ascii "postgres")).length < strLen ∧ info.dbname.length < strLen ∧
    (info.dbname = captured → info.dbname.length + 17 < strLen)

instance (captured : Text) : Decidable (info.Fits captured) :=
  inferInstanceAs (Decidable (_ ∧ _ ∧ (_ → _)))

/-- The database is restored just if it was captured. -/
def RestoresCaptured (session captured rest : Text) : Prop :=
  prvRestoredb info.text (storedConnection session captured rest) =
    some (if info.dbname = captured then .restored (info.withDbname (ascii "postgres")) info.dbname
      else .refused)

end Conninfo

/-- A line of the log that is read at once. -/
structure LogLine (line : Text) : Prop where
  single : newline ∉ line
  short : line.length + 1 < strLongLen

theorem getStoredLoop_other {line : Text} (isLine : LogLine line)
    (other : (ascii "prv_store_dbname").isPrefixOf (line ++ [newline]) = false) (fuel : Nat)
    (rest : Text) :
    getStoredLoop (fuel + 1) (line ++ newline :: rest) = getStoredLoop fuel rest := by
  rw [getStoredLoop, fgets_line isLine.single (by exact_mod_cast isLine.short)]
  simp only [Option.bind_eq_bind, Option.bind_some, other, Bool.false_eq_true, if_false]

theorem getStoredLoop_dbname {dbname : Text}
    (isLine : LogLine (ascii "prv_store_dbname" ++ tab :: dbname)) (fuel : Nat) (rest : Text) :
    getStoredLoop (fuel + 1) (ascii "prv_store_dbname" ++ tab :: dbname ++ newline :: rest) =
      some dbname := by
  have length : (ascii "prv_store_dbname").length = 16 := by decide
  have found : (ascii "prv_store_dbname").isPrefixOf
      (ascii "prv_store_dbname" ++ tab :: dbname ++ [newline]) = true := by
    rw [List.isPrefixOf_iff_prefix, List.append_assoc]
    exact List.prefix_append _ _
  have behind : (ascii "prv_store_dbname" ++ tab :: dbname ++ [newline]).drop (16 + 1) =
      dbname ++ [newline] := by
    simp [List.drop_append, length]
  rw [getStoredLoop, fgets_line isLine.single (by exact_mod_cast isLine.short)]
  simp only [Option.bind_eq_bind, Option.bind_some, found, if_true, length, behind,
    List.dropLast_concat, Option.pure_def]

theorem prvGetStoredDbname_storedConnection {session dbname : Text}
    (init : LogLine (ascii "prv_init" ++ tab :: session))
    (stored : LogLine (ascii "prv_store_dbname" ++ tab :: dbname)) (rest : Text) :
    prvGetStoredDbname (storedConnection session dbname rest) = some dbname := by
  have other : (ascii "prv_store_dbname").isPrefixOf
      (ascii "prv_init" ++ tab :: session ++ [newline]) = false := rfl
  have size : (storedConnection session dbname rest).length =
      (storedConnection session dbname rest).length - 1 + 1 := by
    rw [storedConnection, List.length_append, List.length_cons]
    rfl
  rw [prvGetStoredDbname, storedConnection, getStoredLoop_other init other, ← storedConnection,
    size, getStoredLoop_dbname stored]

theorem strchr_back (info : Conninfo) :
    strchr 32 (info.dbname ++ info.back) = if info.after =
    [] then none else some info.dbname.length := by
  rw [strchr_append info.noBlank, Conninfo.back]
  cases info.after with
  | nil => rfl
  | cons pair rest => simp [strchr_self]

theorem buffered_of_lt {text : Text} (fits : text.length < strLen) : buffered text = some text :=
  if_pos fits

theorem buffered_of_not_lt {text : Text} (long : ¬ text.length < strLen) : buffered text = none :=
  if_neg long

variable {info : Conninfo} {session captured rest : Text}

/-- The name is compared up to the blank behind it. -/
def Conninfo.Accepts (info : Conninfo) (captured : Text) : Prop :=
  (if info.after = [] then captured else captured.take info.dbname.length) = info.dbname

instance : Decidable (info.Accepts captured) := inferInstanceAs (Decidable (_ = _))

theorem Conninfo.accepts_iff :
    info.Accepts captured ↔
      info.dbname = captured ∨ info.after ≠ [] ∧ info.dbname <+: captured := by
  rw [Conninfo.Accepts, List.prefix_iff_eq_take]
  by_cases last : info.after = []
  · simp [last, eq_comm]
  · simp only [last, if_false, ne_eq, not_false_eq_true, true_and]
    constructor
    · exact fun same => .inr same.symm
    · rintro (same | same)
      · simp [same]
      · exact same.symm

theorem prvRestoredb_text
    (first : strstr info.text (ascii "dbname=") = some info.front.length) {file : Text}
    (stored : prvGetStoredDbname file = some captured) :
    prvRestoredb info.text file =
      if (info.withDbname (ascii "postgres")).length < strLen ∧ info.dbname.length < strLen then
        if info.Accepts captured then
          if info.dbname.length + 17 < strLen then
            some (.restored (info.withDbname (ascii "postgres")) info.dbname)
          else none
        else some .refused
      else none := by
  have length : (ascii "dbname=").length = 7 := by decide
  have parts : info.text = (info.front ++ ascii "dbname=") ++ (info.dbname ++ info.back) := by
    simp [Conninfo.text, Conninfo.withDbname]
  have start : info.text.drop (info.front.length + 7) = info.dbname ++ info.back := by
    rw [parts]
    exact List.drop_left' (by simp [length])
  have front : info.text.take (info.front.length + 7) = info.front ++ ascii "dbname=" := by
    rw [parts]
    exact List.take_left' (by simp [length])
  have nameLength : (strchr 32 (info.dbname ++ info.back)).getD (info.dbname ++ info.back).length =
      info.dbname.length := by
    rw [strchr_back]
    by_cases last : info.after = [] <;> simp [last, Conninfo.back]
  have compared : ((strchr 32 (info.dbname ++ info.back)).elim captured fun length =>
      captured.take length) =
        if info.after = [] then captured else captured.take info.dbname.length := by
    rw [strchr_back]
    split <;> rfl
  have whole : info.front ++ ascii "dbname=" ++ ascii "postgres" ++ info.back =
      info.withDbname (ascii "postgres") := rfl
  have command : (ascii "CREATE DATABASE " ++ info.dbname ++ ascii ";").length =
      info.dbname.length + 17 := by
    have before : (ascii "CREATE DATABASE ").length = 16 := by decide
    have ending : (ascii ";").length = 1 := by decide
    simp only [List.length_append, before, ending]
    omega
  simp only [prvRestoredb, first, start, front, nameLength, List.take_left,
    List.drop_left, stored, Option.bind_eq_bind, Conninfo.Accepts]
  by_cases nameFits : info.dbname.length < strLen
  · by_cases frontFits : (info.front ++ ascii "dbname=" ++ ascii "postgres").length < strLen
    · rw [buffered_of_lt frontFits, buffered_of_lt nameFits]
      simp only [Option.bind_some, whole, compared]
      by_cases newFits : (info.withDbname (ascii "postgres")).length < strLen
      · simp only [buffered_of_lt newFits, Option.bind_some, newFits, nameFits, and_self, if_true]
        by_cases createFits : info.dbname.length + 17 < strLen
        · rw [buffered_of_lt (command ▸ createFits)]
          simp [createFits]
        · rw [buffered_of_not_lt (command ▸ createFits)]
          simp [createFits]
      · simp [buffered_of_not_lt newFits, newFits]
    · have newLong : ¬ (info.withDbname (ascii "postgres")).length < strLen := by
        rw [← whole, List.length_append]
        omega
      rw [buffered_of_not_lt frontFits]
      simp [newLong]
  · cases buffered (info.front ++ ascii "dbname=" ++ ascii "postgres") with
    | none => simp [nameFits]
    | some _ => simp [buffered_of_not_lt nameFits, nameFits]

/--
If the first `dbname=` is the one of the pair, the right database is restored
just if the texts fit in their buffers and, with another pair behind it, the
captured name is no longer one.
-/
theorem restoresCaptured_iff
    (first : strstr info.text (ascii "dbname=") = some info.front.length)
    (init : LogLine (ascii "prv_init" ++ tab :: session))
    (stored : LogLine (ascii "prv_store_dbname" ++ tab :: captured)) :
    info.RestoresCaptured session captured rest ↔
      info.Fits captured ∧
        (info.after ≠ [] → info.dbname <+: captured → info.dbname = captured) := by
  rw [Conninfo.RestoresCaptured,
    prvRestoredb_text first (prvGetStoredDbname_storedConnection init stored rest)]
  by_cases buffers :
      (info.withDbname (ascii "postgres")).length < strLen ∧ info.dbname.length < strLen
  · rw [if_pos buffers, Conninfo.Fits]
    by_cases same : info.dbname = captured
    · have accepts : info.Accepts captured := Conninfo.accepts_iff.mpr (.inl same)
      subst same
      simp [accepts, buffers]
    · have accepts : info.Accepts captured ↔ info.after ≠ [] ∧ info.dbname <+: captured := by
        simp [Conninfo.accepts_iff, same]
      by_cases wrong : info.after ≠ [] ∧ info.dbname <+: captured
      · simp [accepts.mpr wrong, same, wrong.1, wrong.2]
      · simpa [mt accepts.mp wrong, same, buffers] using not_and.mp wrong
  · rw [if_neg buffers, Conninfo.Fits, ← and_assoc]
    simp [buffers]

/-- A connection to the database `ldv`, with other pairs before or behind it. -/
def ldvInfo (before after : List Pair) : Conninfo := ⟨before, ascii "ldv", after, by decide⟩

def hostPair : Pair := ⟨ascii "host", ascii "h", by decide⟩

theorem restoresCaptured_hostFirst :
    (ldvInfo [hostPair] []).RestoresCaptured (ascii "1") (ascii "ldv") [] :=
  (restoresCaptured_iff (by decide) ⟨by decide, by decide⟩ ⟨by decide, by decide⟩).2
    ⟨by decide, nofun⟩

/-- The string `dbname=ldv host=h` restores a database captured as `ldv2`. -/
theorem not_restoresCaptured_longerName :
    prvRestoredb (ldvInfo [] [hostPair]).text
          (storedConnection (ascii "1") (ascii "ldv2") []) =
        some (.restored (ascii "dbname=postgres host=h") (ascii "ldv")) ∧
      ¬ (ldvInfo [] [hostPair]).RestoresCaptured (ascii "1") (ascii "ldv2") [] := by
  have restored : prvRestoredb (ldvInfo [] [hostPair]).text
      (storedConnection (ascii "1") (ascii "ldv2") []) =
        some (.restored (ascii "dbname=postgres host=h") (ascii "ldv")) := by
    rw [prvRestoredb_text (by decide)
      (prvGetStoredDbname_storedConnection ⟨by decide, by decide⟩ ⟨by decide, by decide⟩ [])]
    decide
  refine ⟨restored, fun correct => ?_⟩
  rw [Conninfo.RestoresCaptured, restored] at correct
  revert correct
  decide

end Ldv.Capture.RestoreDb
