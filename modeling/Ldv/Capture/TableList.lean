import Ldv.Library.CText

/-!
# Table lists

The client cuts the list of tables out of a statement, drops the white space
behind its commas in place, and visits the names of the tables in two loops.
A name ends at the first blank or comma; what follows up to the next comma
is an alias.
-/

namespace Ldv.Statement

open CText

def blank : UInt8 := 32

def comma : UInt8 := 44

/-- The number of bytes of the buffer for the name of a table. -/
def STR_LEN : Nat := 50

/-- The loop of `PQexec` that drops white space behind commas in place. -/
def compactLoop : Nat → Text → Nat → Nat → UInt8 → Text
  | 0, tablename, _, i, _ => tablename.set i 0
  | steps + 1, tablename, n, i, lastchar =>
    let char := tablename.getD n 0
    if char = 0 then
      tablename.set i 0
    else if (char = tab ∨ char = blank) ∧ lastchar = comma then
      compactLoop steps tablename (n + 1) i lastchar
    else
      compactLoop steps (tablename.set i char) (n + 1) (i + 1) char

def compactTableList (tablename : Text) : Text :=
  compactLoop tablename.length tablename 0 0 comma

/-- The number of bytes of the name the list begins with. -/
def nameLength (tablelist : Text) : Nat :=
  match strchr comma tablelist, strchr blank tablelist with
  | none, none => tablelist.length
  | none, some space => space
  | some comma, none => comma
  | some comma, some space => if comma < space then comma else space

/--
The loop over the names of a list.  It fails when a name does not fit its
buffer.
-/
def tableLoop {σ : Type} (process : Text → σ → σ) : Nat → Text → σ → Option σ
  | 0, _, _ => none
  | steps + 1, tablelist, state =>
    let tablelist := tablelist.dropWhile (· = blank)
    let length := nameLength tablelist
    if STR_LEN ≤ length then none
    else
      let state := process (tablelist.take length) state
      match strchr comma tablelist with
      | none => some state
      | some comma => tableLoop process steps (tablelist.drop (comma + 1)) state

/-- What the client does with a table, on its state and the database. -/
structure TableActions (σ : Type) where
  modifyTable : Text → σ → σ
  createView : Text → σ → Option Text × σ
  storeTable : Text → σ → σ
  extractTuple : Text → Option Text → σ → σ
  extractInsertIds : Text → Option Text → σ → σ
  dropView : Option Text → σ → σ

def prvModifyTableList {σ : Type} (actions : TableActions σ) (tablelist : Text) (state : σ) :
    Option σ :=
  tableLoop actions.modifyTable (tablelist.length + 1) tablelist state

/-- What is done with one table for a view of the provenance. -/
def TableActions.extract {σ : Type} (actions : TableActions σ) (view : Option Text)
    (table : Text) (state : σ) : σ :=
  actions.extractInsertIds table view
    (actions.extractTuple table view (actions.storeTable table state))

def prvExtractTuplesFromTable {σ : Type} (actions : TableActions σ)
    (tablelist provquery : Text) (state : σ) : Option σ := do
  let (view, state) := actions.createView provquery state
  let state ← tableLoop (actions.extract view) (tablelist.length + 1) tablelist state
  return actions.dropView view state

/-! ## Lists of tables -/

/-- A table of a list: white space, its name, and blanks with an alias. -/
structure TableText where
  white : Text
  name : Text
  aliasText : Text
  isWhite : ∀ char ∈ white, char = tab ∨ char = blank
  nonempty : name ≠ []
  short : name.length < STR_LEN
  isName : blank ∉ name ∧ comma ∉ name ∧ 0 ∉ name
  begins : name.head? ≠ some tab
  separated : aliasText = [] ∨ aliasText.head? = some blank
  isAlias : comma ∉ aliasText ∧ 0 ∉ aliasText

def listText (first : TableText) : List TableText → Text
  | [] => first.white ++ (first.name ++ first.aliasText)
  | next :: rest =>
    first.white ++ (first.name ++ first.aliasText ++ comma :: listText next rest)

/-- Both loops process the tables of a list that stands in a buffer. -/
def ProcessesTables (first : TableText) (rest : List TableText) (garbage : Text) : Prop :=
  let tablelist := cString (compactTableList (listText first rest ++ 0 :: garbage))
  let names := (first :: rest).map TableText.name
  ∀ (σ : Type) (actions : TableActions σ) (state : σ),
    prvModifyTableList actions tablelist state =
        some (names.foldl (fun state name => actions.modifyTable name state) state) ∧
      ∀ provquery,
        prvExtractTuplesFromTable actions tablelist provquery state =
          let (view, state) := actions.createView provquery state
          some (actions.dropView view
            (names.foldl (fun state name => actions.extract view name state) state))

/-! ## The white space -/

/-- The text without white space behind commas. -/
def compact : UInt8 → Text → Text
  | _, [] => []
  | last, char :: rest =>
    if (char = tab ∨ char = blank) ∧ last = comma then compact last rest
    else char :: compact char rest

/-- The loop reads at `n` and writes at `i`, which is not behind `n`. -/
theorem cString_compactLoop {text garbage : Text} (isText : 0 ∉ text)
    {steps n i : Nat} (enough : text.length < steps) (behind : i ≤ n) {tablename : Text}
    (unread : tablename.drop n = text ++ 0 :: garbage) (written : 0 ∉ tablename.take i)
    (lastchar : UInt8) :
    cString (compactLoop steps tablename n i lastchar) =
      tablename.take i ++ compact lastchar text := by
  induction text generalizing steps n i tablename lastchar with
  | nil =>
    obtain ⟨steps, rfl⟩ := Nat.exists_eq_succ_of_ne_zero (Nat.ne_of_gt enough)
    have inside : n < tablename.length := by
      have := congrArg List.length unread
      simp only [List.length_drop, List.nil_append, List.length_cons] at this
      omega
    have ends : tablename.getD n 0 = 0 := by
      rw [List.getD_eq_getElem?_getD, ← Nat.add_zero n, ← List.getElem?_drop, unread]
      rfl
    rw [compactLoop, if_pos ends, compact, List.append_nil]
    exact cString_set_zero written (by omega)
  | cons char rest ih =>
    obtain ⟨steps, rfl⟩ := Nat.exists_eq_succ_of_ne_zero (Nat.ne_of_gt (Nat.zero_lt_of_lt enough))
    have inside : n < tablename.length := by
      have := congrArg List.length unread
      simp only [List.length_drop, List.cons_append, List.length_cons] at this
      omega
    have char_eq : tablename.getD n 0 = char := by
      rw [List.getD_eq_getElem?_getD, ← Nat.add_zero n, ← List.getElem?_drop, unread]
      rfl
    have next : tablename.drop (n + 1) = rest ++ 0 :: garbage := by
      rw [← List.drop_drop, unread]
      rfl
    simp only [List.mem_cons, not_or] at isText
    have enough : rest.length < steps := Nat.lt_of_succ_lt_succ enough
    rw [compactLoop]
    simp only [char_eq, if_neg (Ne.symm isText.1), compact]
    split
    · exact ih isText.2 enough (by omega) next written lastchar
    · have taken : (tablename.set i char).take (i + 1) = tablename.take i ++ [char] := by
        rw [List.take_succ_eq_append_getElem (by simpa using (by omega : i < tablename.length)),
          List.getElem_set_self, List.take_set_of_le le_rfl]
      rw [ih isText.2 enough (by omega)
        (by rw [List.drop_set_of_lt (by omega), next]) (by simp [taken, written, isText.1]),
        taken, List.append_assoc, List.singleton_append]

theorem compact_white {white : Text} (isWhite : ∀ char ∈ white, char = tab ∨ char = blank)
    (rest : Text) :
    compact comma (white ++ rest) = compact comma rest := by
  induction white with
  | nil => rfl
  | cons char white ih =>
    rw [List.cons_append, compact, if_pos ⟨isWhite char (by simp), rfl⟩]
    exact ih fun char member => isWhite char (by simp [member])

/-- White space stays inside a text without commas. -/
theorem compact_append {text rest result : Text} (plain : comma ∉ text)
    (after : ∀ last, compact last rest = result) {last : UInt8} (inside : last ≠ comma) :
    compact last (text ++ rest) = text ++ result := by
  induction text generalizing last with
  | nil => exact after last
  | cons char text ih =>
    simp only [List.mem_cons, not_or] at plain
    rw [List.cons_append, compact, if_neg fun white => inside white.2,
      ih plain.2 (Ne.symm plain.1), List.cons_append]

theorem compact_table (table : TableText) {rest result : Text}
    (after : ∀ last, compact last rest = result) :
    compact comma (table.white ++ (table.name ++ table.aliasText ++ rest)) =
      table.name ++ table.aliasText ++ result := by
  rw [compact_white table.isWhite]
  have isName := table.isName
  have begins := table.begins
  cases name : table.name with
  | nil => exact absurd name table.nonempty
  | cons char name' =>
    simp only [name, List.mem_cons, not_or, List.head?_cons, ne_eq, Option.some.injEq] at *
    have plain : comma ∉ name' ++ table.aliasText := by
      simp [isName.2.1.2, table.isAlias.1]
    have rest_eq := compact_append plain after (Ne.symm isName.2.1.1)
    simp only [List.cons_append, compact, rest_eq]
    rw [if_neg]
    rintro ⟨isTab | isBlank, -⟩
    · exact begins isTab
    · exact isName.1.1 isBlank.symm

/-- The tables without white space before their names. -/
def plainText (first : TableText) : List TableText → Text
  | [] => first.name ++ first.aliasText
  | next :: rest => first.name ++ first.aliasText ++ comma :: plainText next rest

theorem compact_listText (first : TableText) (rest : List TableText) :
    compact comma (listText first rest) = plainText first rest := by
  induction rest generalizing first with
  | nil =>
    rw [listText, plainText, ← List.append_nil (first.name ++ first.aliasText)]
    exact compact_table first fun _ => rfl
  | cons next rest ih =>
    rw [listText, plainText]
    refine compact_table first fun last => ?_
    rw [compact, if_neg fun white => absurd white.1 (by decide), ih]

theorem zero_notMem_listText (first : TableText) (rest : List TableText) :
    0 ∉ listText first rest := by
  have white (table : TableText) : 0 ∉ table.white := by
    intro member
    rcases table.isWhite 0 member with isTab | isBlank
    · exact absurd isTab (by decide)
    · exact absurd isBlank (by decide)
  have isComma : 0 ≠ comma := by decide
  induction rest generalizing first with
  | nil => simp [listText, white, first.isName.2.2, first.isAlias.2]
  | cons next rest ih =>
    simp [listText, white, first.isName.2.2, first.isAlias.2, isComma, ih]

theorem cString_compactTableList (first : TableText) (rest : List TableText) (garbage : Text) :
    cString (compactTableList (listText first rest ++ 0 :: garbage)) = plainText first rest := by
  rw [compactTableList, cString_compactLoop (zero_notMem_listText first rest) (by simp) le_rfl
    rfl (by simp), compact_listText]
  rfl

/-! ## The names -/

theorem nameLength_table (table : TableText) {rest : Text}
    (ends : rest = [] ∨ rest.head? = some comma) :
    nameLength (table.name ++ table.aliasText ++ rest) = table.name.length := by
  have noComma : comma ∉ table.name ++ table.aliasText := by
    simp [table.isName.2.1, table.isAlias.1]
  rw [nameLength, strchr_append noComma, List.append_assoc, strchr_append table.isName.1]
  rcases table.separated with none_eq | isBlank
  · rw [none_eq, List.nil_append, List.append_nil]
    cases rest with
    | nil => simp [strchr]
    | cons char rest =>
      obtain rfl : char = comma := by simpa using ends
      have different : comma ≠ blank := by decide
      rw [strchr_self, strchr_cons different]
      cases strchr blank rest with
      | none => simp
      | some space => simp
  · obtain ⟨others, alias_eq⟩ : ∃ others, table.aliasText = blank :: others :=
      ⟨_, List.eq_cons_of_mem_head? isBlank⟩
    rw [alias_eq, List.cons_append, strchr_self]
    cases strchr comma rest with
    | none => simp
    | some next =>
      simp only [Option.map_some, List.length_append, Nat.zero_add]
      exact if_neg (by omega)

theorem strchr_table (table : TableText) (rest : Text) :
    strchr comma (table.name ++ table.aliasText ++ rest) =
      (strchr comma rest).map (· + (table.name ++ table.aliasText).length) :=
  strchr_append (by simp [table.isName.2.1, table.isAlias.1]) rest

/-- One round of the loop processes one table. -/
theorem tableLoop_table {σ : Type} (process : Text → σ → σ) (table : TableText) {rest : Text}
    (ends : rest = [] ∨ rest.head? = some comma) (steps : Nat) (state : σ) :
    tableLoop process (steps + 1) (table.name ++ table.aliasText ++ rest) state =
      match rest with
      | [] => some (process table.name state)
      | _ :: rest => tableLoop process steps rest (process table.name state) := by
  have begins :
      (table.name ++ table.aliasText ++ rest).dropWhile (· = blank) =
        table.name ++ table.aliasText ++ rest := by
    cases name : table.name with
    | nil => exact absurd name table.nonempty
    | cons char name' =>
      have isName := table.isName.1
      rw [name, List.mem_cons, not_or] at isName
      exact List.dropWhile_cons_of_neg (by simpa using Ne.symm isName.1)
  rw [tableLoop]
  simp only [begins, nameLength_table table ends, strchr_table, if_neg (Nat.not_le.mpr table.short)]
  rw [List.append_assoc, List.take_left, ← List.append_assoc]
  cases rest with
  | nil => rfl
  | cons char rest =>
    obtain rfl : char = comma := by simpa using ends
    simp only [strchr_self, Option.map_some, Nat.zero_add]
    rw [← List.drop_drop, List.drop_left, List.drop_one, List.tail_cons]

theorem tableLoop_plainText {σ : Type} (process : Text → σ → σ) (first : TableText)
    (rest : List TableText) {steps : Nat} (enough : rest.length < steps) (state : σ) :
    tableLoop process steps (plainText first rest) state =
      some (((first :: rest).map TableText.name).foldl
        (fun state name => process name state) state) := by
  induction rest generalizing first steps state with
  | nil =>
    obtain ⟨steps, rfl⟩ := Nat.exists_eq_succ_of_ne_zero (Nat.ne_of_gt enough)
    rw [plainText, ← List.append_nil (first.name ++ first.aliasText)]
    exact tableLoop_table process first (.inl rfl) steps state
  | cons next rest ih =>
    obtain ⟨steps, rfl⟩ := Nat.exists_eq_succ_of_ne_zero (Nat.ne_of_gt (Nat.zero_lt_of_lt enough))
    rw [plainText, tableLoop_table process first (.inr rfl)]
    exact ih next (Nat.lt_of_succ_lt_succ enough) _

theorem length_le_plainText (first : TableText) (rest : List TableText) :
    rest.length ≤ (plainText first rest).length := by
  induction rest generalizing first with
  | nil => exact Nat.zero_le _
  | cons next rest ih =>
    have := ih next
    simp only [plainText, List.length_append, List.length_cons]
    omega

/-- The names of every list of tables are processed in order. -/
theorem processesTables (first : TableText) (rest : List TableText) (garbage : Text) :
    ProcessesTables first rest garbage := by
  have enough := Nat.lt_succ_of_le (length_le_plainText first rest)
  intro σ actions state
  rw [cString_compactTableList]
  refine ⟨tableLoop_plainText actions.modifyTable first rest enough state, fun provquery => ?_⟩
  rw [prvExtractTuplesFromTable]
  rcases actions.createView provquery state with ⟨view, state⟩
  simp only [tableLoop_plainText _ first rest enough]
  rfl

/-- A table behind a tab and blanks, with an alias. -/
def ordersTable : TableText where
  white := ascii "\t  "
  name := ascii "orders"
  aliasText := ascii "  o"
  isWhite := by decide +kernel
  nonempty := by decide
  short := by decide
  isName := by decide
  begins := by decide
  separated := by decide
  isAlias := by decide

/-- A table without alias. -/
def itemsTable : TableText where
  white := ascii " \t"
  name := ascii "items"
  aliasText := []
  isWhite := by decide +kernel
  nonempty := by decide
  short := by decide
  isName := by decide
  begins := by decide
  separated := by decide
  isAlias := by decide

/-- Every action is listed with the table it is for. -/
def listActions : TableActions (List (String × Text)) where
  modifyTable table done := done ++ [("modify", table)]
  createView query done := (some (ascii "v"), done ++ [("create", query)])
  storeTable table done := done ++ [("store", table)]
  extractTuple table _ done := done ++ [("tuple", table)]
  extractInsertIds table _ done := done ++ [("insert", table)]
  dropView view done := done ++ [("drop", view.getD [])]

/-- A table that is listed twice, once with an alias, is modified twice. -/
theorem processesTables_orders_items :
    prvModifyTableList listActions (cString (compactTableList
      (ascii "\t  orders  o, \titems,\t  orders  o" ++ 0 :: ascii "where"))) [] =
    some [("modify", ascii "orders"), ("modify", ascii "items"), ("modify", ascii "orders")] :=
  (processesTables ordersTable [itemsTable, ordersTable] (ascii "where") _ listActions []).1

end Ldv.Statement
