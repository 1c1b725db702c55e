import Ldv.Library.CText
import Mathlib.Data.List.DropRight

/-!
# Reading SQL texts

A scanner follows the quotes, comments and brackets of a text.  It finds the
words outside of quotes and comments, and the items of a list, which are
separated by commas outside of brackets as well.  In a string a backslash
takes the next character.  Comments may be nested, and a string between
dollar signs ends with the tag it begins with.
-/

namespace SqlText

open CText

def isWhite (char : UInt8) : Bool := char = 32 || (9 ≤ char && char ≤ 13)

def toLower (char : UInt8) : UInt8 :=
  if 65 ≤ char ∧ char ≤ 90 then char + 32 else char

def lower (text : Text) : Text := text.map toLower

theorem length_eq_of_lower {text other : Text} (same : lower text = other) :
    text.length = other.length := by
  rw [← same, lower, List.length_map]

/-- Letters, digits, underscores and dollar signs. -/
def isIdentifierChar (char : UInt8) : Bool :=
  (97 ≤ toLower char && toLower char ≤ 122) || (48 ≤ char && char ≤ 57) ||
    char = 95 || char = 36 || 128 ≤ char

/-- Where a character of a text stands. -/
inductive Mode where
  | plain
  | word
  | dash
  | slash
  | string
  | escape
  | identifier
  | line
  | comment (depth : Nat) (last : UInt8)
  | tag (name : Text)
  | body (name read : Text)
deriving DecidableEq, Repr

/-- A tag is a name without dollar signs. -/
def isTagChar (name : Text) (char : UInt8) : Bool :=
  isIdentifierChar char && char ≠ 36 && !(name.isEmpty && 48 ≤ char && char ≤ 57)

/-- The character belongs to a quote or comment that has begun before it. -/
def Mode.takes : Mode → UInt8 → Bool
  | .plain, _ => false
  | .word, _ => false
  | .dash, _ => false
  | .slash, _ => false
  | .tag name, char => char = 36 || isTagChar name char
  | _, _ => true

/-- The mode behind a character of a quote or comment. -/
def Mode.inside : Mode → UInt8 → Mode
  | .string, char => if char = 39 then .plain else if char = 92 then .escape else .string
  | .escape, _ => .string
  | .identifier, char => if char = 34 then .plain else .identifier
  | .line, char => if char = 10 ∨ char = 13 then .plain else .line
  | .comment depth last, char =>
    if last = 47 ∧ char = 42 then .comment (depth + 1) 0
    else if last = 42 ∧ char = 47 then if depth = 0 then .plain else .comment (depth - 1) 0
    else .comment depth char
  | .tag name, char => if char = 36 then .body name [] else .tag (name ++ [char])
  | .body name read, char =>
    if (36 :: name ++ [36]).isSuffixOf (read ++ [char]) then .plain
    else .body name (read ++ [char])
  | mode, _ => mode

/-- The mode behind a character outside of quotes and comments. -/
def Mode.outside (mode : Mode) (char : UInt8) : Mode :=
  if char = 39 then .string
  else if char = 34 then .identifier
  else if char = 36 ∧ mode ≠ .word then .tag []
  else if char = 45 then if mode = .dash then .line else .dash
  else if char = 42 ∧ mode = .slash then .comment 0 0
  else if char = 47 then .slash
  else if isIdentifierChar char then .word
  else .plain

def Mode.step (mode : Mode) (char : UInt8) : Mode :=
  if mode.takes char then mode.inside char else mode.outside char

/-- The words outside of quotes and comments, in lower case, after the given one. -/
def words : Mode → Text → Text → List Text
  | _, word, [] => [word]
  | mode, word, char :: rest =>
    if mode.step char = .word then
      words (mode.step char) (word ++ [toLower char]) rest
    else
      word :: words (mode.step char) [] rest

/-- The parts of a text between white space. -/
def parts (text : Text) : List Text :=
  (text.splitOnP isWhite).filter fun part => !part.isEmpty

/-! ## Searching -/

/-- The position of the first occurrence of a text, in upper or lower case. -/
def strcasestr : Text → Text → Option Nat
  | [], needle => if needle.isEmpty then some 0 else none
  | char :: rest, needle =>
    if (lower needle).isPrefixOf (lower (char :: rest)) then some 0
    else (strcasestr rest needle).map (· + 1)

/-! ## Items of a list -/

/-- A place in an item, with the brackets that have to be closed. -/
structure Scan where
  mode : Mode := .plain
  closing : Text := []
deriving DecidableEq, Repr

/-- A comma outside of brackets or a bracket that is not open ends an item. -/
def Scan.next (state : Scan) (char : UInt8) : Option Scan :=
  if state.mode.takes char then some { state with mode := state.mode.inside char }
  else if char = 40 then some { closing := 41 :: state.closing }
  else if char = 91 then some { closing := 93 :: state.closing }
  else if char = 41 ∨ char = 93 then
    if state.closing.head? = some char then some { closing := state.closing.tail } else none
  else if char = 44 then if state.closing = [] then none else some { closing := state.closing }
  else some { state with mode := state.mode.outside char }

def run (state : Scan) (text : Text) : Option Scan := text.foldlM Scan.next state

/-- All quotes, comments and brackets are closed. -/
def Scan.ended (state : Scan) : Bool := state.closing.isEmpty && !state.mode.takes 44

/-- An item: its quotes, comments and brackets are closed, and no comma is outside of them. -/
def Closed (text : Text) : Prop := (run {} text).any Scan.ended = true

instance (text : Text) : Decidable (Closed text) := inferInstanceAs (Decidable (_ = _))

/-- The items that follow, the first of them after the given text. -/
def split : Scan → Text → Text → Option (List Text)
  | state, item, [] => if state.ended then some [item] else none
  | state, item, char :: rest =>
    if state.ended ∧ char = 44 then (split {} [] rest).map (item :: ·)
    else (state.next char).bind fun state => split state (item ++ [char]) rest

theorem closed_iff {text : Text} :
    Closed text ↔ ∃ state, run {} text = some state ∧ state.ended = true := by
  rw [Closed, Option.any_eq_true]

theorem Scan.ended_iff {state : Scan} :
    state.ended = true ↔ state.closing = [] ∧ state.mode.takes 44 = false := by
  simp [Scan.ended]

theorem run_append (state : Scan) (text rest : Text) :
    run state (text ++ rest) = (run state text).bind fun state => run state rest :=
  List.foldlM_append

/-- At the end of an item there is no bracket to be closed. -/
theorem next_of_ended {state : Scan} {char : UInt8} (ended : state.ended = true)
    (ends : char = 44 ∨ char = 41) : state.next char = none := by
  rcases Scan.ended_iff.1 ended with ⟨closing, comma⟩
  rcases ends with rfl | rfl
  · simp [Scan.next, comma, closing]
  · have parenthesis : state.mode.takes 41 = false := by
      obtain ⟨mode, _⟩ := state
      cases mode <;> first | rfl | exact comma
    simp [Scan.next, parenthesis, closing]

theorem split_append {state state' : Scan} {text : Text} (running : run state text = some state') :
    ∀ item rest, split state item (text ++ rest) = split state' (item ++ text) rest := by
  induction text generalizing state with
  | nil =>
    intro item rest
    cases running
    simp
  | cons char text ih =>
    intro item rest
    obtain ⟨middle, next, running⟩ := Option.bind_eq_some_iff.1 running
    have notEnd : ¬ (state.ended ∧ char = 44) := by
      rintro ⟨ended, rfl⟩
      rw [next_of_ended ended (.inl rfl)] at next
      cases next
    rw [List.cons_append, split, if_neg notEnd, next, Option.bind_some,
      ih running, List.append_assoc]
    rfl

theorem split_closed {item : Text} (closed : Closed item) :
    ∃ state : Scan, state.ended = true ∧
      ∀ rest, split {} [] (item ++ rest) = split state item rest := by
  obtain ⟨state, running, ended⟩ := closed_iff.1 closed
  exact ⟨state, ended, fun rest => by rw [split_append running, List.nil_append]⟩

theorem split_comma {item : Text} (closed : Closed item) (rest : Text) :
    split {} [] (item ++ 44 :: rest) = (split {} [] rest).map (item :: ·) := by
  obtain ⟨state, ended, passed⟩ := split_closed closed
  rw [passed, split, if_pos ⟨ended, rfl⟩]

/-- A parenthesis is closed that is not open. -/
theorem split_parenthesis {item : Text} (closed : Closed item) (rest : Text) :
    split {} [] (item ++ 41 :: rest) = none := by
  obtain ⟨state, ended, passed⟩ := split_closed closed
  rw [passed, split, if_neg (by simp), next_of_ended ended (.inr rfl)]
  rfl

def join (items : List Text) : Text := [44].intercalate items

theorem join_cons (item : Text) {items : List Text} (nonempty : items ≠ []) :
    join (item :: items) = item ++ 44 :: join items := by
  rw [join, List.intercalate_cons_of_ne_nil nonempty]
  simp [join]

theorem join_append {items others : List Text} (nonempty : items ≠ []) (others_ne : others ≠ []) :
    join (items ++ others) = join items ++ 44 :: join others := by
  induction items with
  | nil => exact absurd rfl nonempty
  | cons item items ih =>
    rcases items with _ | ⟨next, items⟩
    · rw [List.cons_append, List.nil_append, join_cons item others_ne]
      simp [join]
    · rw [List.cons_append, join_cons item (by simp), join_cons item (by simp),
        ih (by simp), List.append_assoc, List.cons_append]

theorem split_join_append {items : List Text} (nonempty : items ≠ [])
    (closed : ∀ item ∈ items, Closed item) (rest : Text) :
    split {} [] (join items ++ 44 :: rest) = (split {} [] rest).map (items ++ ·) := by
  induction items with
  | nil => exact absurd rfl nonempty
  | cons item items ih =>
    have closedItem := closed item List.mem_cons_self
    rcases items with _ | ⟨next, items⟩
    · simpa [join] using split_comma closedItem rest
    · rw [join_cons item (by simp), List.append_assoc, List.cons_append, split_comma closedItem,
        ih (by simp) fun other member =>
          closed other (List.mem_cons_of_mem item member), Option.map_map]
      rfl

theorem split_join {items : List Text} (nonempty : items ≠ [])
    (closed : ∀ item ∈ items, Closed item) : split {} [] (join items) = some items := by
  induction items with
  | nil => exact absurd rfl nonempty
  | cons item items ih =>
    have closedItem := closed item List.mem_cons_self
    rcases items with _ | ⟨next, items⟩
    · obtain ⟨state, ended, passed⟩ := split_closed closedItem
      have single := passed []
      simpa [join, split, ended] using single
    · rw [join_cons item (by simp), split_comma closedItem,
        ih (by simp) fun other member =>
          closed other (List.mem_cons_of_mem item member)]
      rfl

theorem exists_join_concat (items : List Text) :
    ∃ lead, ∀ last, join (items ++ [last]) = lead ++ last := by
  rcases items with _ | ⟨item, items⟩
  · exact ⟨[], fun last => by simp [join]⟩
  · refine ⟨join (item :: items) ++ [44], fun last => ?_⟩
    rw [join_append (by simp) (by simp)]
    simp [join]

/-! ## Items in parentheses -/

/-- The same place, in more brackets. -/
def Scan.within (outer : Text) (state : Scan) : Scan :=
  { state with closing := state.closing ++ outer }

theorem next_within {state state' : Scan} {char : UInt8} (outer : Text)
    (next : state.next char = some state') :
    (state.within outer).next char = some (state'.within outer) := by
  obtain ⟨mode, closing⟩ := state
  simp only [Scan.next, Scan.within] at next ⊢
  by_cases takes : mode.takes char = true
  · simp only [takes, if_true, Option.some.injEq] at next ⊢
    rw [← next]
  · simp only [if_neg takes] at next ⊢
    by_cases closes : char = 41 ∨ char = 93
    · have opens : char ≠ 40 ∧ char ≠ 91 := by
        rcases closes with rfl | rfl <;> decide
      simp only [opens.1, opens.2, closes, if_true, if_false] at next ⊢
      rcases closing with _ | ⟨first, closing⟩
      · simp at next
      · by_cases same : first = char
        · simp only [same, List.head?_cons, if_true, Option.some.injEq] at next
          subst next
          simp [takes, same]
        · simp [same] at next
    · simp only [closes, if_false] at next ⊢
      by_cases comma : char = 44
      · subst comma
        rcases closing with _ | ⟨first, closing⟩
        · simp at next
        · cases next
          simp [takes]
      · simp only [comma, if_false] at next ⊢
        split_ifs at next ⊢ <;> cases next <;> rfl

theorem run_within {state state' : Scan} {text : Text} (outer : Text)
    (running : run state text = some state') :
    run (state.within outer) text = some (state'.within outer) := by
  induction text generalizing state with
  | nil =>
    cases running
    rfl
  | cons char text ih =>
    obtain ⟨middle, next, running⟩ := Option.bind_eq_some_iff.1 running
    exact Option.bind_eq_some_iff.2 ⟨middle.within outer, next_within outer next, ih running⟩

/-- Commas are passed inside of parentheses. -/
theorem run_join_within {items : List Text} (closed : ∀ item ∈ items, Closed item) :
    ∃ mode : Mode, mode.takes 44 = false ∧
      run { closing := [41] } (join items) = some ⟨mode, [41]⟩ := by
  induction items with
  | nil => exact ⟨.plain, rfl, rfl⟩
  | cons item items ih =>
    obtain ⟨⟨mode, _⟩, running, ended⟩ := closed_iff.1 (closed item List.mem_cons_self)
    obtain ⟨rfl, takes⟩ := Scan.ended_iff.1 ended
    have inside := run_within [41] running
    rcases items with _ | ⟨next, items⟩
    · exact ⟨mode, takes, by simpa [join, Scan.within] using inside⟩
    · obtain ⟨mode', takes', others⟩ := ih fun other member =>
        closed other (List.mem_cons_of_mem item member)
      refine ⟨mode', takes', ?_⟩
      have comma : Scan.next ⟨mode, [41]⟩ 44 = some { closing := [41] } := by
        simp [Scan.next, takes]
      have opened : run { closing := [41] } item = some ⟨mode, [41]⟩ := inside
      rw [join_cons item (by simp), run_append, opened, Option.bind_some, run, List.foldlM_cons,
        comma]
      exact others

/-- Quotes, brackets, the comma, and what begins a comment. -/
def special : Text := [34, 36, 39, 40, 41, 42, 44, 45, 47, 91, 93]

theorem next_of_ordinary {mode : Mode} (outside : mode = .plain ∨ mode = .word ∨ mode = .dash)
    {char : UInt8} (ordinary : char ∉ special) :
    Scan.next { mode := mode } char =
      some { mode := if isIdentifierChar char then .word else .plain } := by
  simp only [special, List.mem_cons, List.not_mem_nil, or_false, not_or] at ordinary
  rcases outside with rfl | rfl | rfl <;>
    simp [Scan.next, Mode.takes, Mode.outside, ordinary]

theorem run_of_plain {mode : Mode} (outside : mode = .plain ∨ mode = .word ∨ mode = .dash)
    {text : Text} (plain : ∀ char ∈ text, char ∉ special) :
    (run { mode := mode } text).any Scan.ended = true := by
  induction text generalizing mode with
  | nil => rcases outside with rfl | rfl | rfl <;> rfl
  | cons char text ih =>
    rw [run, List.foldlM_cons, next_of_ordinary outside (plain char List.mem_cons_self)]
    refine ih ?_ fun other member => plain other (List.mem_cons_of_mem char member)
    split <;> simp

theorem closed_of_plain {text : Text} (plain : ∀ char ∈ text, char ∉ special) : Closed text :=
  run_of_plain (.inl rfl) plain

theorem run_white {text : Text} (white : text.all isWhite) : run {} text = some {} := by
  have all : ∀ byte : Fin 256, isWhite (.ofNat byte) = true →
      .ofNat byte ∉ special ∧ isIdentifierChar (.ofNat byte) = false := by
    decide +kernel
  have ordinary (char : UInt8) (isWhiteChar : isWhite char = true) :
      char ∉ special ∧ isIdentifierChar char = false := by
    have here := all ⟨char.toNat, char.toNat_lt⟩
    rw [UInt8.ofNat_toNat] at here
    exact here isWhiteChar
  induction text with
  | nil => rfl
  | cons char text ih =>
    rw [List.all_cons, Bool.and_eq_true] at white
    rw [run, List.foldlM_cons, next_of_ordinary (.inl rfl) (ordinary char white.1).1,
      (ordinary char white.1).2]
    exact ih white.2

theorem closed_append {text rest : Text} (passed : run {} text = some {}) (closed : Closed rest) :
    Closed (text ++ rest) := by
  rw [Closed, run_append, passed]
  exact closed

/-- The items of a list in parentheses are one item. -/
theorem run_parentheses {items : List Text} (closed : ∀ item ∈ items, Closed item) :
    run {} (40 :: (join items ++ [41])) = some {} := by
  obtain ⟨mode, takes, running⟩ := run_join_within closed
  have opened : run {} [40] = some { closing := [41] } := rfl
  have parenthesis : mode.takes 41 = false := by
    cases mode <;> first | rfl | exact takes
  rw [← List.singleton_append, run_append, opened, Option.bind_some, run_append, running]
  simp [run, Scan.next, parenthesis]

/-! ## Rows of values -/

def trim (text : Text) : Text := (text.dropWhile isWhite).rdropWhile isWhite

/-- A row in parentheses, with white space around it and around its values. -/
def readRow (text : Text) : Option (List Text) :=
  match trim text with
  | 40 :: rest =>
    if rest.getLast? = some 41 then do
      let values ← split {} [] rest.dropLast
      if values.all fun value => !(trim value).isEmpty then some (values.map trim) else none
    else none
  | _ => none

def readRows (text : Text) : Option (List (List Text)) := do
  let rows ← split {} [] text
  rows.mapM readRow

/-- A row, with the white space before and after it. -/
structure Row where
  before : Text
  values : List Text
  after : Text

def Row.text (row : Row) : Text :=
  row.before ++ (40 :: (join row.values ++ [41]) ++ row.after)

structure Row.WellFormed (row : Row) : Prop where
  before : row.before.all isWhite
  after : row.after.all isWhite
  nonempty : row.values ≠ []
  closed : ∀ value ∈ row.values, Closed value
  present : ∀ value ∈ row.values, trim value ≠ []

def rowsText (rows : List Row) : Text := join (rows.map Row.text)

def Row.items (row : Row) : List Text := row.values.map trim

theorem Row.WellFormed.closed_text {row : Row} (wellFormed : row.WellFormed) : Closed row.text :=
  closed_append (run_white wellFormed.before)
    (closed_append (run_parentheses wellFormed.closed)
      (closed_iff.2 ⟨{}, run_white wellFormed.after, rfl⟩))

theorem trim_append {before core after : Text} {first last : UInt8} (white : before.all isWhite)
    (whiteAfter : after.all isWhite) (firstPlain : isWhite first = false)
    (lastPlain : isWhite last = false) :
    trim (before ++ (first :: (core ++ [last]) ++ after)) = first :: (core ++ [last]) := by
  have dropped : (before ++ (first :: (core ++ [last]) ++ after)).dropWhile isWhite =
      (first :: (core ++ [last])) ++ after := by
    rw [List.dropWhile_append_of_pos (List.all_eq_true.1 white), List.cons_append,
      List.dropWhile_cons_of_neg (by simp [firstPlain])]
  have droppedAfter : after.reverse.dropWhile isWhite = [] := by
    simpa [List.dropWhile_eq_nil_iff] using List.all_eq_true.1 whiteAfter
  rw [trim, dropped, List.rdropWhile, List.reverse_append, List.dropWhile_append, droppedAfter]
  simp [lastPlain]

theorem trim_space {text : Text} (plain : ∀ char ∈ text, isWhite char = false) :
    trim (32 :: text) = text := by
  have dropped : (32 :: text).dropWhile isWhite = text := by
    rw [List.dropWhile_cons_of_pos (by decide)]
    rcases text with _ | ⟨char, text⟩
    · rfl
    · rw [List.dropWhile_cons_of_neg (by simp [plain char])]
  rw [trim, dropped, List.rdropWhile_eq_self_iff]
  intro nonempty
  simp [plain _ (List.getLast_mem nonempty)]

theorem readRow_text {row : Row} (wellFormed : row.WellFormed) :
    readRow row.text = some row.items := by
  have allPresent : (row.values.all fun value => !(trim value).isEmpty) = true := by
    simpa using wellFormed.present
  rw [readRow, Row.text, trim_append wellFormed.before wellFormed.after rfl rfl]
  simp only [List.getLast?_concat, if_true, List.dropLast_concat,
    split_join wellFormed.nonempty wellFormed.closed, Option.bind_eq_bind, Option.bind_some,
    allPresent, Row.items]

theorem readRows_rowsText {rows : List Row} (nonempty : rows ≠ [])
    (wellFormed : ∀ row ∈ rows, row.WellFormed) :
    readRows (rowsText rows) = some (rows.map Row.items) := by
  have closed : ∀ item ∈ rows.map Row.text, Closed item := by
    intro item member
    obtain ⟨row, rowMember, rfl⟩ := List.mem_map.1 member
    exact (wellFormed row rowMember).closed_text
  have read : (rows.map Row.text).mapM readRow = some (rows.map Row.items) := by
    clear nonempty closed
    induction rows with
    | nil => rfl
    | cons row rows ih =>
      rw [List.map_cons, List.mapM_cons, readRow_text (wellFormed row List.mem_cons_self),
        ih fun other member =>
          wellFormed other (List.mem_cons_of_mem row member)]
      rfl
  rw [readRows, rowsText, split_join (by simpa using nonempty) closed]
  exact read

end SqlText
