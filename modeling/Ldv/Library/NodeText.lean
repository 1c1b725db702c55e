import Ldv.Library.TokenText

/-!
# The text of a node

Nodes are written as text and read back: a structure as its label and its
fields in braces, a list in parentheses, and a null pointer as the empty
token.  For every kind of structure there are a format by which it is written
and a format by which it is read; a format may depend on the values of the
fields before.

The names of fields are written, but the reader just skips a token for each
of them.  A structure is therefore read back if the two formats are the same,
and the reader gets out of step if they are not.
-/

namespace NodeText

open CText TokenText

inductive FieldType (Atom : Type) where
  | int
  | oid
  | bool
  | string
  | node
  /-- A datum which is read without skipping a name. -/
  | bitset
  | atom (type : Atom)

inductive Field (AtomValue Node : Type) where
  | int (value : BitVec 32)
  | oid (value : BitVec 32)
  | bool (value : Bool)
  | string (value : Option Text)
  | node (value : Node)
  | bitset (bytes : List (BitVec 8))
  | atom (value : AtomValue)

inductive Node (Kind AtomValue : Type) where
  | null
  | integer (value : BitVec 32)
  | float (text : Text)
  | string (text : Text)
  | bitString (text : Text)
  | list (items : List (Node Kind AtomValue))
  | intList (items : List (BitVec 32))
  | oidList (items : List (BitVec 32))
  | struct (kind : Kind)
      (fields : List (String × Field AtomValue (Node Kind AtomValue)))

/-- The fields of a structure; the later ones may depend on the earlier. -/
inductive Format (Kind Atom AtomValue : Type) where
  | done
  | field (name : String) (type : FieldType Atom)
      (next : Field AtomValue (Node Kind AtomValue) → Format Kind Atom AtomValue)

variable {Kind Atom AtomValue : Type}

/-- A format with fixed fields. -/
def Format.ofList :
    List (String × FieldType Atom) → Format Kind Atom AtomValue
  | [] => .done
  | (name, type) :: fields => .field name type fun _ => .ofList fields

/-- How the kinds of structures and the other data are written and read. -/
structure Grammar (Kind Atom AtomValue : Type) where
  label : Kind → String
  outFormat : Kind → Format Kind Atom AtomValue
  readFormat : Kind → Format Kind Atom AtomValue
  kindOf : Text → Option Kind
  atomType : AtomValue → Atom
  outAtom : AtomValue → Text
  readAtom : Atom → Text → Option (AtomValue × Text)
  label_token : ∀ kind, IsToken (ascii (label kind))
  label_ne_nil : ∀ kind, ascii (label kind) ≠ []
  kindOf_label : ∀ kind, kindOf (ascii (label kind)) = some kind
  readAtom_outAtom :
    ∀ value rest, Delimited rest →
      readAtom (atomType value) (32 :: outAtom value ++ rest) = some (value, rest)

/-! ## Writing -/

def outDatum (bytes : List (BitVec 8)) : Text :=
  decimal bytes.length ++ ascii " [ " ++
    bytes.flatMap (fun byte => signedDecimal byte.toInt ++ [32]) ++
    ascii "]"

def boolText (value : Bool) : Text :=
  if value then ascii "true" else ascii "false"

mutual

def outNode (grammar : Grammar Kind Atom AtomValue) :
    Node Kind AtomValue → Text
  | .null => emptyToken
  | .integer value => signedDecimal value.toInt
  | .float text => text
  | .string text => 34 :: (outToken (some text) ++ [34])
  | .bitString text => text
  | .list items => 40 :: (outItems grammar items ++ [41])
  | .intList items =>
    ascii "(i" ++ (items.flatMap (fun item => 32 :: signedDecimal item.toInt) ++ [41])
  | .oidList items =>
    ascii "(o" ++ (items.flatMap (fun item => 32 :: decimal item.toNat) ++ [41])
  | .struct kind fields =>
    123 :: (ascii (grammar.label kind) ++ (outFields grammar fields ++ [125]))

/-- The items of a list, with spaces between them. -/
def outItems (grammar : Grammar Kind Atom AtomValue) :
    List (Node Kind AtomValue) → Text
  | [] => []
  | item :: items =>
    outNode grammar item ++ (if items.isEmpty then [] else [32]) ++ outItems grammar items

def outFields (grammar : Grammar Kind Atom AtomValue) :
    List (String × Field AtomValue (Node Kind AtomValue)) → Text
  | [] => []
  | field :: fields => outNamed grammar field ++ outFields grammar fields

def outNamed (grammar : Grammar Kind Atom AtomValue) :
    String × Field AtomValue (Node Kind AtomValue) → Text
  | (name, field) =>
    32 :: 58 :: (ascii name ++ 32 :: outField grammar field)

def outField (grammar : Grammar Kind Atom AtomValue) :
    Field AtomValue (Node Kind AtomValue) → Text
  | .int value => signedDecimal value.toInt
  | .oid value => decimal value.toNat
  | .bool value => boolText value
  | .string value => outToken value
  | .node value => outNode grammar value
  | .bitset bytes => outDatum bytes
  | .atom value => grammar.outAtom value

end

/-! ## Reading -/

inductive TokenType where
  | integer
  | float
  | leftParen
  | rightParen
  | leftBrace
  | string
  | bitString
  | other
deriving DecidableEq, Repr

/-- The part of a token behind its sign. -/
def withoutSign : Text → Text
  | 43 :: rest => rest
  | 45 :: rest => rest
  | token => token

def startsNumber (token : Text) : Bool :=
  match withoutSign token with
  | [] => false
  | [byte] => isDigit byte
  | byte :: byte' :: _ => isDigit byte || byte == 46 && isDigit byte'

def isInteger (token : Text) : Bool :=
  (withoutSign token).all isDigit &&
    decide (-2 ^ 31 ≤ atoi token ∧ atoi token < 2 ^ 31)

def nodeTokenType (token : Text) : TokenType :=
  if startsNumber token then
    if isInteger token then .integer else .float
  else
    match token.head? with
    | some 40 => .leftParen
    | some 41 => .rightParen
    | some 123 => .leftBrace
    | some 34 =>
      if 1 < token.length && token.getLast? == some 34 then .string
      else .other
    | some 98 => .bitString
    | _ => .other

/-- Reads as many bytes as the length says. -/
def readBytes : Nat → Text → Option (List (BitVec 8) × Text)
  | 0, text => some ([], text)
  | count + 1, text => do
    let (token, text) ← strtok text
    let (bytes, text) ← readBytes count text
    some (BitVec.ofInt 8 (atoi token) :: bytes, text)

def readDatum (text : Text) : Option (List (BitVec 8) × Text) := do
  let (token, text) ← strtok text
  let (opening, text) ← strtok text
  if opening.head? ≠ some 91 then
    none
  else
    let (bytes, text) ← readBytes (BitVec.ofNat 32 (leadingNumber 0 token)).toNat text
    let (closing, text) ← strtok text
    if closing.head? ≠ some 93 then none else some (bytes, text)

section Read

variable
  (grammar : Grammar Kind Atom AtomValue)
  (read : Text → Option (Node Kind AtomValue × Text))

/-- Reads a field, mostly behind a token that is skipped as its name. -/
def readField (type : FieldType Atom) (text : Text) :
    Option (Field AtomValue (Node Kind AtomValue) × Text) :=
  match type with
  | .int => do
    let (token, text) ← strtok (skipToken text)
    some (.int (BitVec.ofInt 32 (atoi token)), text)
  | .oid => do
    let (token, text) ← strtok (skipToken text)
    some (.oid (BitVec.ofNat 32 (leadingNumber 0 token)), text)
  | .bool => do
    let (token, text) ← strtok (skipToken text)
    some (.bool (token.head? == some 116), text)
  | .string => do
    let (token, text) ← strtok (skipToken text)
    if token = emptyToken then
      some (.string none, text)
    else
      some (.string (some (debackslash token)), text)
  | .node => do
    let (node, text) ← read (skipToken text)
    some (.node node, text)
  | .bitset => do
    let (bytes, text) ← readDatum text
    some (.bitset bytes, text)
  | .atom type => do
    let (value, text) ← grammar.readAtom type (skipToken text)
    some (.atom value, text)

def readFields :
    Format Kind Atom AtomValue → Text →
      Option (List (String × Field AtomValue (Node Kind AtomValue)) × Text)
  | .done, text => some ([], text)
  | .field name type next, text => do
    let (field, text) ← readField grammar read type text
    let (fields, text) ← readFields (next field) text
    some ((name, field) :: fields, text)

/-- Reads the fields of a structure and the brace behind it. -/
def readBody (kind : Kind) (text : Text) :
    Option (Node Kind AtomValue × Text) := do
  let (fields, text) ← readFields grammar read (grammar.readFormat kind) text
  let (closing, text) ← strtok text
  if closing.head? = some 125 then some (.struct kind fields, text) else none

def readStruct (text : Text) : Option (Node Kind AtomValue × Text) := do
  let (token, text) ← strtok text
  let kind ← grammar.kindOf token
  readBody grammar read kind text

/-- The items of a list; the fuel is the length of the text. -/
def readItems {Item : Type} (readItem : Text → Option (Item × Text)) :
    Nat → Text → Option (List Item × Text)
  | 0, _ => none
  | fuel + 1, text => do
    let (token, rest) ← strtok text
    if token.head? = some 41 then
      some ([], rest)
    else
      let (item, text) ← readItem text
      let (items, text) ← readItems readItem fuel text
      some (item :: items, text)

/-- A number that takes up the whole token. -/
def readInt (text : Text) : Option (BitVec 32 × Text) := do
  let (token, text) ← strtok text
  if withoutSign token ≠ [] ∧ (withoutSign token).all isDigit then
    some (BitVec.ofInt 32 (atoi token), text)
  else
    none

def readList (text : Text) : Option (Node Kind AtomValue × Text) := do
  let (token, rest) ← strtok text
  if token = ascii "i" then
    let (items, text) ← readItems readInt (rest.length + 1) rest
    some (.intList items, text)
  else if token = ascii "o" then
    let (items, text) ← readItems readInt (rest.length + 1) rest
    some (.oidList items, text)
  else
    let (items, text) ← readItems read (text.length + 1) text
    some (if items.isEmpty then .null else .list items, text)

def readToken (token rest : Text) : Option (Node Kind AtomValue × Text) :=
  match nodeTokenType token with
  | .leftBrace => readStruct grammar read rest
  | .leftParen => readList read rest
  | .rightParen => none
  | .integer => some (.integer (BitVec.ofInt 32 (atoi token)), rest)
  | .float => some (.float token, rest)
  | .string =>
    some (.string (debackslash (token.drop 1).dropLast), rest)
  | .bitString => some (.bitString (token.drop 1), rest)
  | .other => if token = emptyToken then some (.null, rest) else none

end Read

/-- Reads a node, nested at most as deep as there is fuel. -/
def nodeRead (grammar : Grammar Kind Atom AtomValue) :
    Nat → Text → Option (Node Kind AtomValue × Text)
  | 0, _ => none
  | fuel + 1, text =>
    match strtok text with
    | none => some (.null, [])
    | some (token, rest) =>
      readToken grammar (nodeRead grammar fuel) token rest

/-- Reads a node from the start of a text, and what is left of the text. -/
def stringToNode (grammar : Grammar Kind Atom AtomValue) (text : Text) :
    Option (Node Kind AtomValue × Text) :=
  nodeRead grammar (text.length + 1) text

/-! ## Well-formed nodes -/

section WellFormed

variable (grammar : Grammar Kind Atom AtomValue)

def HasType :
    FieldType Atom → Field AtomValue (Node Kind AtomValue) → Prop
  | .int, .int _ => True
  | .oid, .oid _ => True
  | .bool, .bool _ => True
  | .string, .string value => value ≠ some []
  | .node, .node _ => True
  | .bitset, .bitset bytes => bytes ≠ [] ∧ bytes.length < 2 ^ 32
  | .atom type, .atom value => grammar.atomType value = type
  | _, _ => False

/-- The fields of a structure are those of a format. -/
def Conforms :
    Format Kind Atom AtomValue → List (String × Field AtomValue (Node Kind AtomValue)) → Prop
  | .done, fields => fields = []
  | .field name type next, fields =>
    ∃ field rest,
      fields = (name, field) :: rest ∧
        IsToken (ascii name) ∧
        HasType grammar type field ∧
        Conforms (next field) rest

theorem conforms_ofList {format : List (String × FieldType Atom)}
    {fields : List (String × Field AtomValue (Node Kind AtomValue))}
    (names : fields.map Prod.fst = format.map Prod.fst)
    (tokens : ∀ entry ∈ format, IsToken (ascii entry.1))
    (types : List.Forall₂ (HasType grammar) (format.map Prod.snd) (fields.map Prod.snd)) :
    Conforms grammar (.ofList format) fields := by
  induction format generalizing fields with
  | nil => exact List.map_eq_nil_iff.1 names
  | cons entry format ih =>
    rcases fields with _ | ⟨field, fields⟩
    · simp at names
    · rw [List.map_cons, List.map_cons, List.forall₂_cons] at types
      rw [List.map_cons, List.map_cons, List.cons.injEq] at names
      refine ⟨field.2, fields, ?_, tokens entry List.mem_cons_self, types.1, ?_⟩
      · rw [← names.1]
      · exact ih names.2 (fun other member => tokens other (List.mem_cons_of_mem _ member)) types.2

inductive WellFormed : Node Kind AtomValue → Prop where
  | null : WellFormed .null
  | integer (value : BitVec 32) : WellFormed (.integer value)
  | float
      {text : Text}
      (token : IsToken text)
      (type : nodeTokenType text = .float) :
      WellFormed (.float text)
  | string
      {text : Text}
      (nonempty : text ≠ []) :
      WellFormed (.string text)
  | list
      {items : List (Node Kind AtomValue)}
      (nonempty : items ≠ [])
      (each : ∀ item ∈ items, WellFormed item) :
      WellFormed (.list items)
  | intList
      {items : List (BitVec 32)}
      (nonempty : items ≠ []) :
      WellFormed (.intList items)
  | oidList
      {items : List (BitVec 32)}
      (nonempty : items ≠ []) :
      WellFormed (.oidList items)
  | struct
      {kind : Kind}
      {fields : List (String × Field AtomValue (Node Kind AtomValue))}
      (conforms : Conforms grammar (grammar.outFormat kind) fields)
      (each : ∀ name child, (name, Field.node child) ∈ fields → WellFormed child) :
      WellFormed (.struct kind fields)

/-- All structures in a node are of kinds with a property. -/
inductive AllKinds (P : Kind → Prop) : Node Kind AtomValue → Prop where
  | null : AllKinds P .null
  | integer (value : BitVec 32) : AllKinds P (.integer value)
  | float (text : Text) : AllKinds P (.float text)
  | string (text : Text) : AllKinds P (.string text)
  | bitString (text : Text) : AllKinds P (.bitString text)
  | list
      {items : List (Node Kind AtomValue)}
      (each : ∀ item ∈ items, AllKinds P item) :
      AllKinds P (.list items)
  | intList (items : List (BitVec 32)) : AllKinds P (.intList items)
  | oidList (items : List (BitVec 32)) : AllKinds P (.oidList items)
  | struct
      {kind : Kind}
      {fields : List (String × Field AtomValue (Node Kind AtomValue))}
      (holds : P kind)
      (each : ∀ name child, (name, Field.node child) ∈ fields → AllKinds P child) :
      AllKinds P (.struct kind fields)

/-- A format without data that are read without skipping a name. -/
def Format.Named : Format Kind Atom AtomValue → Prop
  | .done => True
  | .field _ type next =>
    type ≠ .bitset ∧ ∀ field, (next field).Named

/-- A kind which is read as it is written. -/
def Matched (kind : Kind) : Prop :=
  grammar.readFormat kind = grammar.outFormat kind ∧ (grammar.outFormat kind).Named

end WellFormed

/-! ## Reading a field -/

theorem isDigit_of_mem_decimal {number : Nat} {byte : UInt8} (member : byte ∈ decimal number) :
    isDigit byte = true := by
  rcases digit_range member with ⟨low, high⟩
  simp [isDigit, low, high]

section Fields

variable
  {grammar : Grammar Kind Atom AtomValue}
  {read : Text → Option (Node Kind AtomValue × Text)}
  {fields : List (String × Field AtomValue (Node Kind AtomValue))}
  {name : String}
  {rest : Text}

/-- The node is read back from its text behind a space. -/
def Reads (grammar : Grammar Kind Atom AtomValue)
    (read : Text → Option (Node Kind AtomValue × Text))
    (node : Node Kind AtomValue) : Prop :=
  ∀ rest, Delimited rest → read (32 :: (outNode grammar node ++ rest)) = some (node, rest)

/-- The text of the node cannot be read. -/
def Fails (grammar : Grammar Kind Atom AtomValue)
    (read : Text → Option (Node Kind AtomValue × Text))
    (node : Node Kind AtomValue) : Prop :=
  ∀ rest, Delimited rest → read (32 :: (outNode grammar node ++ rest)) = none

theorem delimited_space (rest : Text) : Delimited (32 :: rest) := delimited_cons (by decide) rest

theorem strtok_after_space {text : Text} (token : IsToken text) (nonempty : text ≠ [])
    (delimited : Delimited rest) :
    strtok (32 :: (text ++ rest)) = some (text, rest) := by
  rw [strtok_space (by decide), strtok_token token nonempty delimited]

theorem skipToken_named (token : IsToken (ascii name)) (text : Text) :
    skipToken (32 :: 58 :: (ascii name ++ 32 :: text)) = 32 :: text := by
  have colon : IsToken (58 :: ascii name) := .plain (by decide) (by decide) token
  rw [skipToken, ← List.cons_append, strtok_after_space colon (by simp) (delimited_space text)]

theorem delimited_outFields (grammar : Grammar Kind Atom AtomValue)
    (fields : List (String × Field AtomValue (Node Kind AtomValue)))
    (delimited : Delimited rest) :
    Delimited (outFields grammar fields ++ rest) := by
  cases fields with
  | nil => exact delimited
  | cons field fields =>
    rcases field with ⟨name, value⟩
    rw [outFields, outNamed]
    exact delimited_space _

/-- A field is read back if it is of the type that is read. -/
theorem readField_out {type : FieldType Atom}
    {field : Field AtomValue (Node Kind AtomValue)} (token : IsToken (ascii name))
    (named : type ≠ .bitset) (hasType : HasType grammar type field)
    (child : ∀ node, field = .node node → Reads grammar read node)
    (delimited : Delimited rest) :
    readField grammar read type (outNamed grammar (name, field) ++ rest) = some (field, rest) := by
  have skipped :
      skipToken (outNamed grammar (name, field) ++ rest) =
        32 :: (outField grammar field ++ rest) := by
    rw [outNamed]
    simp only [List.cons_append, List.append_assoc]
    exact skipToken_named token _
  cases type with
  | int =>
    cases field with
    | int value =>
      simp only [readField, skipped, outField]
      rw [strtok_after_space (isToken_signedDecimal _) (signedDecimal_ne_nil _) delimited]
      simp [atoi_signedDecimal]
    | _ => contradiction
  | oid =>
    cases field with
    | oid value =>
      simp only [readField, skipped, outField]
      rw [strtok_after_space (isToken_decimal _) (decimal_ne_nil _) delimited]
      simp [leadingNumber_decimal]
    | _ => contradiction
  | bool =>
    cases field with
    | bool value =>
      simp only [readField, skipped, outField]
      cases value with
      | false =>
        rw [strtok_after_space (isToken_of_all (by decide)) (by decide) delimited]
        rfl
      | true =>
        rw [strtok_after_space (isToken_of_all (by decide)) (by decide) delimited]
        rfl
    | _ => contradiction
  | string =>
    cases field with
    | string value =>
      simp only [readField, skipped, outField]
      cases value with
      | none =>
        rw [outToken, strtok_after_space (isToken_of_all (by decide)) (by decide) delimited]
        rfl
      | some string =>
        have nonempty : string ≠ [] := by
          rintro rfl
          exact hasType rfl
        rcases isToken_outToken nonempty with
          ⟨isToken, notNil, notEmpty, same⟩
        rw [strtok_after_space isToken notNil delimited]
        simp [notEmpty, same]
    | _ => contradiction
  | node =>
    cases field with
    | node value =>
      simp only [readField, skipped, outField]
      rw [child value rfl rest delimited]
      rfl
    | _ => contradiction
  | bitset => contradiction
  | atom type =>
    cases field with
    | atom value =>
      have isType : grammar.atomType value = type := hasType
      simp only [readField, skipped, outField]
      rw [← isType, ← List.cons_append, grammar.readAtom_outAtom value rest delimited]
      rfl
    | _ => contradiction

theorem readField_fails {node : Node Kind AtomValue} (token : IsToken (ascii name))
    (fails : Fails grammar read node) (delimited : Delimited rest) :
    readField grammar read .node (outNamed grammar (name, .node node) ++ rest) = none := by
  rw [outNamed]
  simp only [List.cons_append, List.append_assoc, readField, skipToken_named token, outField]
  rw [fails rest delimited]
  rfl

/-- A field is read back unless it is a node that cannot be read. -/
theorem readField_decided {type : FieldType Atom} {field : Field AtomValue (Node Kind AtomValue)}
    (token : IsToken (ascii name)) (named : type ≠ .bitset) (hasType : HasType grammar type field)
    (child : ∀ node, field = .node node → Reads grammar read node ∨ Fails grammar read node)
    (delimited : Delimited rest) :
    readField grammar read type (outNamed grammar (name, field) ++ rest) = none ∨
      readField grammar read type (outNamed grammar (name, field) ++ rest) = some (field, rest) ∧
        ∀ node, field = .node node → Reads grammar read node := by
  by_cases here : ∃ node, field = .node node ∧ Fails grammar read node
  · rcases here with ⟨node, rfl, fails⟩
    cases type with
    | node => exact Or.inl (readField_fails token fails delimited)
    | _ => contradiction
  · have reads : ∀ node, field = .node node → Reads grammar read node := fun node isNode =>
      (child node isNode).resolve_right fun fails => here ⟨node, isNode, fails⟩
    exact Or.inr ⟨readField_out token named hasType reads delimited, reads⟩

theorem not_fails_of_reads {node : Node Kind AtomValue} (reads : Reads grammar read node) :
    ¬ Fails grammar read node := by
  intro fails
  have both := (reads [] delimited_nil).symm.trans (fails [] delimited_nil)
  contradiction

/-- The name of a datum is taken for its length. -/
theorem readField_bitset {bytes : List (BitVec 8)} (token : IsToken (ascii name))
    (rest : Text) :
    readField grammar read .bitset (outNamed grammar (name, .bitset bytes) ++ rest) = none := by
  have colon : IsToken (58 :: ascii name) := .plain (by decide) (by decide) token
  have opening : (decimal bytes.length).head? ≠ some 91 := by
    intro isOpening
    have digit := isDigit_of_mem_decimal (List.mem_of_head? isOpening)
    exact absurd digit (by decide)
  have isText :
      outNamed grammar (name, .bitset bytes) ++ rest =
        32 :: ((58 :: ascii name) ++
          32 :: (decimal bytes.length ++
            32 :: (ascii "[ " ++ bytes.flatMap (fun byte => signedDecimal byte.toInt ++ [32]) ++
              ascii "]" ++ rest))) := by
    simp [outNamed, outField, outDatum, ascii]
  simp only [readField, readDatum, isText]
  rw [strtok_after_space colon (by simp) (delimited_space _)]
  simp only [Option.bind_eq_bind, Option.bind_some]
  rw [strtok_after_space (isToken_decimal _) (decimal_ne_nil _) (delimited_space _)]
  simp [opening]

/-- Fields are read back by the format they have. -/
theorem readFields_out {format : Format Kind Atom AtomValue} (named : format.Named)
    (conforms : Conforms grammar format fields)
    (children : ∀ name child, (name, Field.node child) ∈ fields → Reads grammar read child)
    (delimited : Delimited rest) :
    readFields grammar read format (outFields grammar fields ++ rest) = some (fields, rest) := by
  induction format generalizing fields with
  | done =>
    rw [show fields = [] from conforms]
    rfl
  | field name type next ih =>
    rcases conforms with ⟨field, fields, rfl, token, hasType, conforms⟩
    have first :=
      readField_out token named.1 hasType
        (fun node isNode =>
          children name node (isNode ▸ List.mem_cons_self))
        (delimited_outFields grammar fields delimited)
    have others :=
      ih field (named.2 field) conforms
        (fun name child member =>
          children name child (List.mem_cons_of_mem _ member))
    rw [outFields, List.append_assoc, readFields, first]
    simp [others]

/-- If a field cannot be read then the fields cannot. -/
theorem readFields_fails {format : Format Kind Atom AtomValue} (named : format.Named)
    (conforms : Conforms grammar format fields)
    (children :
      ∀ name child, (name, Field.node child) ∈ fields →
        Reads grammar read child ∨ Fails grammar read child)
    (fails : ∃ name child, (name, Field.node child) ∈ fields ∧ Fails grammar read child)
    (delimited : Delimited rest) :
    readFields grammar read format (outFields grammar fields ++ rest) =
      none := by
  induction format generalizing fields with
  | done =>
    rw [show fields = [] from conforms] at fails
    simp at fails
  | field name type next ih =>
    rcases conforms with ⟨field, fields, rfl, token, hasType, conforms⟩
    rw [outFields, List.append_assoc, readFields]
    rcases readField_decided token named.1 hasType
        (fun node isNode => children name node (isNode ▸ List.mem_cons_self))
        (delimited_outFields grammar fields delimited) with failed | ⟨first, reads⟩
    · rw [failed]
      rfl
    · rcases fails with ⟨name', child, member, failsThere⟩
      rcases List.mem_cons.mp member with same | later
      · cases same
        exact absurd failsThere (not_fails_of_reads (reads child rfl))
      · have others := ih field (named.2 field) conforms
          (fun name child member => children name child (List.mem_cons_of_mem _ member))
          ⟨name', child, later, failsThere⟩
        rw [first]
        simp [others]

/-- A structure is read back if its kind is read as it is written. -/
theorem readBody_out {kind : Kind} (isMatched : Matched grammar kind)
    (conforms : Conforms grammar (grammar.outFormat kind) fields)
    (children : ∀ name child, (name, Field.node child) ∈ fields → Reads grammar read child)
    (rest : Text) :
    readBody grammar read kind (outFields grammar fields ++ 125 :: rest) =
      some (.struct kind fields, rest) := by
  have brace : Delimited (125 :: rest) := delimited_cons (by decide) rest
  rw [readBody, isMatched.1, readFields_out isMatched.2 conforms children brace]
  simp [strtok_bracket (by decide : isBracket 125 = true)]

theorem readBody_fails {kind : Kind} (isMatched : Matched grammar kind)
    (conforms : Conforms grammar (grammar.outFormat kind) fields)
    (children :
      ∀ name child, (name, Field.node child) ∈ fields →
        Reads grammar read child ∨ Fails grammar read child)
    (fails : ∃ name child, (name, Field.node child) ∈ fields ∧ Fails grammar read child)
    (rest : Text) :
    readBody grammar read kind (outFields grammar fields ++ 125 :: rest) =
      none := by
  have brace : Delimited (125 :: rest) := delimited_cons (by decide) rest
  rw [readBody, isMatched.1, readFields_fails isMatched.2 conforms children fails brace]
  rfl

/-- A kind of structures that are never read back. -/
def Rejected (grammar : Grammar Kind Atom AtomValue) (kind : Kind) : Prop :=
  ∀ (read : Text → Option (Node Kind AtomValue × Text))
    (fields : List (String × Field AtomValue (Node Kind AtomValue)))
    (rest : Text),
    Conforms grammar (grammar.outFormat kind) fields →
      (∀ name child, (name, Field.node child) ∈ fields →
        Reads grammar read child ∨ Fails grammar read child) →
      readBody grammar read kind (outFields grammar fields ++ 125 :: rest) = none

/-! ## Formats out of step -/

/--
The reader follows the writer for some fields, regardless of their names, and
then stops before the writer does or comes to a datum.
-/
def OutOfStep :
    List (String × FieldType Atom) → List (String × FieldType Atom) → Prop
  | written, [] => written ≠ []
  | [], _ :: _ => False
  | (_, type) :: written, (_, type') :: read =>
    type' = type ∧ (type = .bitset ∨ OutOfStep written read)

theorem named_ofList {fields : List (String × FieldType Atom)}
    (named : ∀ field ∈ fields, field.2 ≠ .bitset) :
    (Format.ofList fields : Format Kind Atom AtomValue).Named := by
  induction fields with
  | nil => trivial
  | cons field fields ih =>
    exact ⟨named field List.mem_cons_self,
      fun _ => ih fun other member => named other (List.mem_cons_of_mem _ member)⟩

theorem OutOfStep.not_same {written readers : List (String × FieldType Atom)}
    (outOfStep : OutOfStep written readers)
    (named : (Format.ofList written : Format Kind Atom AtomValue).Named) :
    (Format.ofList readers : Format Kind Atom AtomValue) ≠ .ofList written := by
  induction written generalizing readers with
  | nil =>
    cases readers with
    | nil => contradiction
    | cons field readers => contradiction
  | cons field written ih =>
    cases readers with
    | nil => exact nofun
    | cons field' readers =>
      intro same
      injection same with _ _ next
      rcases outOfStep with ⟨_, isBitset | outOfStep⟩
      · exact named.1 isBitset
      · exact ih outOfStep (named.2 (.int 0)) (congrFun next (.int 0))

/-- A reader out of step fails or comes to a name where it should end. -/
theorem readFields_outOfStep {written readers : List (String × FieldType Atom)}
    (outOfStep : OutOfStep written readers)
    (conforms : Conforms grammar (.ofList written) fields)
    (children :
      ∀ name child, (name, Field.node child) ∈ fields →
        Reads grammar read child ∨ Fails grammar read child) (delimited : Delimited rest) :
    readFields grammar read (.ofList readers)
        (outFields grammar fields ++ rest) = none ∨
      ∃ done name field others,
        readFields grammar read (.ofList readers)
            (outFields grammar fields ++ rest) =
          some (done, outNamed grammar (name, field) ++ others) ∧
        IsToken (ascii name) := by
  induction written generalizing readers fields with
  | nil => cases readers <;> contradiction
  | cons column written ih =>
    rcases column with ⟨name, type⟩
    rcases conforms with ⟨field, fields, rfl, token, hasType, conforms⟩
    cases readers with
    | nil =>
      refine Or.inr ⟨[], name, field, outFields grammar fields ++ rest, ?_, token⟩
      rw [outFields, List.append_assoc]
      rfl
    | cons column' readers =>
      rcases column' with ⟨name', type'⟩
      rcases outOfStep with ⟨sameType, outOfStep⟩
      change type' = type at sameType
      subst sameType
      rw [Format.ofList, readFields, outFields, List.append_assoc]
      have after := delimited_outFields grammar fields delimited
      by_cases isBitset : type' = .bitset
      · subst isBitset
        cases field with
        | bitset bytes =>
          rw [readField_bitset token]
          exact Or.inl rfl
        | _ => contradiction
      · rcases readField_decided token isBitset hasType
            (fun node isNode => children name node (isNode ▸ List.mem_cons_self)) after with
          failed | ⟨first, -⟩
        · rw [failed]
          exact Or.inl rfl
        · have others :=
            ih (outOfStep.resolve_left isBitset) conforms
              (fun name child member =>
                children name child (List.mem_cons_of_mem _ member))
          simp only [first, Option.bind_eq_bind, Option.bind_some]
          rcases others with
            failed | ⟨done, name, field, text, isRead, isToken⟩
          · rw [failed]
            exact Or.inl rfl
          · rw [isRead]
            exact Or.inr ⟨_, name, field, text, rfl, isToken⟩

theorem rejected_of_outOfStep {kind : Kind} {written readers : List (String × FieldType Atom)}
    (isWritten : grammar.outFormat kind = .ofList written)
    (isRead : grammar.readFormat kind = .ofList readers) (outOfStep : OutOfStep written readers) :
    Rejected grammar kind := by
  intro read fields rest conforms children
  have brace : Delimited (125 :: rest) := delimited_cons (by decide) rest
  rw [isWritten] at conforms
  rw [readBody, isRead]
  rcases readFields_outOfStep outOfStep conforms children brace with
    failed | ⟨done, name, field, others, readFields, token⟩
  · rw [failed]
    rfl
  · have colon : IsToken (58 :: ascii name) := .plain (by decide) (by decide) token
    have closing :
        strtok (outNamed grammar (name, field) ++ others) =
          some (58 :: ascii name, 32 :: (outField grammar field ++ others)) := by
      have isToken :=
        strtok_after_space colon (by simp) (delimited_space (outField grammar field ++ others))
      rw [outNamed]
      simpa using isToken
    simp [readFields, closing]

end Fields

/-! ## Reading a list -/

section Items

/-- What the text of a node starts with. -/
def StartsNode (text : Text) : Prop :=
  ∃ token rest,
    strtok text = some (token, rest) ∧
      token.head? ≠ some 41 ∧
      token ≠ ascii "i" ∧
      token ≠ ascii "o"

variable
  {grammar : Grammar Kind Atom AtomValue}
  {read : Text → Option (Node Kind AtomValue × Text)}

theorem delimited_outItems (grammar : Grammar Kind Atom AtomValue)
    (items : List (Node Kind AtomValue)) (rest : Text) :
    Delimited ((if items.isEmpty then [] else [32]) ++ (outItems grammar items ++ 41 :: rest)) := by
  cases items with
  | nil => exact delimited_cons (by decide) rest
  | cons item items => exact delimited_space _

theorem readItems_space (space : ∀ text, read (32 :: text) = read text) (fuel : Nat) (text : Text) :
    readItems read fuel (32 :: text) = readItems read fuel text := by
  cases fuel with
  | zero => rfl
  | succ fuel =>
    rw [readItems, readItems, strtok_space (by decide), space]

variable
  (space : ∀ text, read (32 :: text) = read text)
  {item : Node Kind AtomValue}
  {items : List (Node Kind AtomValue)}
  {rest : Text}

include space

/-- An item is read, and the others behind it. -/
theorem readItems_cons
    (starts : ∀ rest, Delimited rest → StartsNode (outNode grammar item ++ rest))
    (reads : Reads grammar read item) (fuel : Nat) :
    readItems read (fuel + 1)
        (outItems grammar (item :: items) ++ 41 :: rest) =
      (readItems read fuel (outItems grammar items ++ 41 :: rest)).map
        fun (items, rest) => (item :: items, rest) := by
  have delimited := delimited_outItems grammar items rest
  rcases starts _ delimited with ⟨token, rest', isToken, notEnd, _⟩
  have first := reads _ delimited
  rw [space] at first
  rw [outItems, List.append_assoc, List.append_assoc, readItems, isToken]
  simp only [Option.bind_eq_bind, Option.bind_some, if_neg notEnd, first]
  have others :
      readItems read fuel
          ((if items.isEmpty then [] else [32]) ++ (outItems grammar items ++ 41 :: rest)) =
        readItems read fuel (outItems grammar items ++ 41 :: rest) := by
    cases items with
    | nil => rfl
    | cons item items => exact readItems_space space fuel _
  rw [others]
  cases readItems read fuel (outItems grammar items ++ 41 :: rest) <;> rfl

theorem readItems_cons_fails (fails : Fails grammar read item)
    (starts : ∀ rest, Delimited rest → StartsNode (outNode grammar item ++ rest))
    (fuel : Nat) :
    readItems read fuel (outItems grammar (item :: items) ++ 41 :: rest) =
      none := by
  cases fuel with
  | zero => rfl
  | succ fuel =>
    have delimited := delimited_outItems grammar items rest
    rcases starts _ delimited with ⟨token, rest', isToken, notEnd, _⟩
    have first := fails _ delimited
    rw [space] at first
    rw [outItems, List.append_assoc, List.append_assoc, readItems, isToken]
    simp only [Option.bind_eq_bind, Option.bind_some, if_neg notEnd, first, Option.bind_none]

theorem readItems_out
    (starts : ∀ item ∈ items, ∀ rest, Delimited rest → StartsNode (outNode grammar item ++ rest))
    (each : ∀ item ∈ items, Reads grammar read item) {fuel : Nat} (enough : items.length < fuel) :
    readItems read fuel (outItems grammar items ++ 41 :: rest) = some (items, rest) := by
  induction items generalizing fuel with
  | nil =>
    rcases fuel with _ | fuel
    · contradiction
    · rw [readItems]
      simp [outItems, strtok_bracket (by decide : isBracket 41 = true)]
  | cons item items ih =>
    rcases fuel with _ | fuel
    · contradiction
    · rw [readItems_cons space (starts item List.mem_cons_self) (each item List.mem_cons_self),
        ih (fun other member => starts other (List.mem_cons_of_mem _ member))
          (fun other member => each other (List.mem_cons_of_mem _ member))
          (Nat.lt_of_succ_lt_succ enough)]
      rfl

theorem readItems_fails
    (starts : ∀ item ∈ items, ∀ rest, Delimited rest → StartsNode (outNode grammar item ++ rest))
    (each : ∀ item ∈ items, Reads grammar read item ∨ Fails grammar read item)
    (fails : ∃ item ∈ items, Fails grammar read item) (fuel : Nat) :
    readItems read fuel (outItems grammar items ++ 41 :: rest) = none := by
  induction items generalizing fuel with
  | nil => simp at fails
  | cons item items ih =>
    have startsHere := starts item List.mem_cons_self
    rcases each item List.mem_cons_self with reads | failsHere
    · cases fuel with
      | zero => rfl
      | succ fuel =>
        rcases fails with ⟨other, member, failsThere⟩
        rcases List.mem_cons.mp member with rfl | inside
        · exact absurd failsThere (not_fails_of_reads reads)
        · rw [readItems_cons space startsHere reads,
            ih (fun other member => starts other (List.mem_cons_of_mem _ member))
              (fun other member => each other (List.mem_cons_of_mem _ member))
              ⟨other, inside, failsThere⟩]
          rfl
    · exact readItems_cons_fails space failsHere startsHere fuel

end Items

/-! ## Reading numbers -/

theorem withoutSign_decimal (number : Nat) :
    withoutSign (decimal number) = decimal number := by
  have digits {byte : UInt8} {rest : Text}
      (isDecimal : decimal number = byte :: rest) :
      isDigit byte = true := by
    refine isDigit_of_mem_decimal (?_ : byte ∈ decimal number)
    simp [isDecimal]
  unfold withoutSign
  split
  · next isDecimal => exact absurd (digits isDecimal) (by decide)
  · next isDecimal => exact absurd (digits isDecimal) (by decide)
  · rfl

theorem withoutSign_signedDecimal (number : Int) :
    withoutSign (signedDecimal number) = decimal number.natAbs := by
  unfold signedDecimal
  split
  · rfl
  · exact withoutSign_decimal _

theorem startsNumber_signedDecimal (number : Int) :
    startsNumber (signedDecimal number) = true := by
  have digits {byte : UInt8} {rest : Text}
      (isDecimal : decimal number.natAbs = byte :: rest) :
      isDigit byte = true := by
    refine isDigit_of_mem_decimal (?_ : byte ∈ decimal number.natAbs)
    simp [isDecimal]
  rw [startsNumber, withoutSign_signedDecimal]
  split
  · next isDecimal => exact absurd isDecimal (decimal_ne_nil _)
  · next isDecimal => exact digits isDecimal
  · next isDecimal => simp [digits isDecimal]

theorem nodeTokenType_integer (value : BitVec 32) :
    nodeTokenType (signedDecimal value.toInt) = .integer := by
  have range : -2 ^ 31 ≤ value.toInt ∧ value.toInt < 2 ^ 31 := ⟨value.le_toInt, value.toInt_lt⟩
  have isNumber : isInteger (signedDecimal value.toInt) = true := by
    rw [isInteger, atoi_signedDecimal, withoutSign_signedDecimal,
      Bool.and_eq_true, List.all_eq_true]
    exact ⟨fun byte => isDigit_of_mem_decimal, decide_eq_true range⟩
  rw [nodeTokenType, startsNumber_signedDecimal, if_pos rfl, isNumber, if_pos rfl]

/-- Numbers are written as tokens which are numbers throughout. -/
structure NumberText (out : BitVec 32 → Text) : Prop where
  token : ∀ item, IsToken (out item)
  nonempty : ∀ item, withoutSign (out item) ≠ []
  digits : ∀ item, (withoutSign (out item)).all isDigit = true
  value : ∀ item, BitVec.ofInt 32 (atoi (out item)) = item

theorem numberText_int :
    NumberText fun item => signedDecimal item.toInt where
  token item := isToken_signedDecimal item.toInt
  nonempty item := by
    rw [withoutSign_signedDecimal]
    exact decimal_ne_nil _
  digits item := by
    rw [withoutSign_signedDecimal, List.all_eq_true]
    exact fun byte => isDigit_of_mem_decimal
  value item := by rw [atoi_signedDecimal, BitVec.ofInt_toInt]

theorem numberText_oid : NumberText fun item => decimal item.toNat where
  token item := isToken_decimal item.toNat
  nonempty item := by
    rw [withoutSign_decimal]
    exact decimal_ne_nil _
  digits item := by
    rw [withoutSign_decimal, List.all_eq_true]
    exact fun byte => isDigit_of_mem_decimal
  value item := by
    have natural : decimal item.toNat = signedDecimal (item.toNat : Int) := by
      rw [signedDecimal, if_neg (by omega), Int.natAbs_natCast]
    rw [natural, atoi_signedDecimal, BitVec.ofInt_natCast, BitVec.ofNat_toNat, BitVec.setWidth_eq]

theorem delimited_numbers (out : BitVec 32 → Text) (items : List (BitVec 32)) (rest : Text) :
    Delimited (items.flatMap (fun item => 32 :: out item) ++ 41 :: rest) := by
  cases items with
  | nil => exact delimited_cons (by decide) rest
  | cons item items => exact delimited_space _

theorem length_numbers (out : BitVec 32 → Text) (items : List (BitVec 32)) (rest : Text) :
    items.length <
      (items.flatMap (fun item => 32 :: out item) ++ 41 :: rest).length +
        1 := by
  induction items with
  | nil => simp
  | cons item items ih =>
    simp only [List.flatMap_cons, List.append_assoc, List.length_append, List.length_cons] at ih ⊢
    omega

theorem readItems_readInt {out : BitVec 32 → Text} (number : NumberText out)
    (items : List (BitVec 32)) {fuel : Nat} (enough : items.length < fuel) (rest : Text) :
    readItems readInt fuel
        (items.flatMap (fun item => 32 :: out item) ++ 41 :: rest) =
      some (items, rest) := by
  induction items generalizing fuel with
  | nil =>
    rcases fuel with _ | fuel
    · contradiction
    · rw [readItems]
      simp [strtok_bracket (by decide : isBracket 41 = true)]
  | cons item items ih =>
    rcases fuel with _ | fuel
    · contradiction
    · have below := ih (Nat.lt_of_succ_lt_succ enough)
      have delimited := delimited_numbers out items rest
      have token := number.token item
      have notNil : out item ≠ [] := by
        intro isNil
        exact number.nonempty item (by rw [isNil]; rfl)
      have notEnd := token.head_ne (by decide : isDelimiter 41 = true)
      have next := strtok_after_space token notNil delimited
      rw [List.flatMap_cons, List.append_assoc, List.cons_append, readItems, next]
      simp only [Option.bind_eq_bind, Option.bind_some, if_neg notEnd, readInt, next]
      rw [if_pos ⟨number.nonempty item, number.digits item⟩]
      simp only [Option.bind_some, below, number.value]

/-- A list of numbers, written in one of two ways. -/
theorem readList_numbers {out : BitVec 32 → Text} (number : NumberText out)
    (items : List (BitVec 32)) (rest : Text) :
    readItems readInt
        ((items.flatMap (fun item => 32 :: out item) ++ 41 :: rest).length + 1)
        (items.flatMap (fun item => 32 :: out item) ++ 41 :: rest) =
      some (items, rest) :=
  readItems_readInt number items (length_numbers out items rest) rest

/-! ## Reading nodes -/

section Nodes

variable {grammar : Grammar Kind Atom AtomValue}

theorem nodeRead_space (grammar : Grammar Kind Atom AtomValue) (fuel : Nat) (text : Text) :
    nodeRead grammar fuel (32 :: text) = nodeRead grammar fuel text := by
  cases fuel with
  | zero => rfl
  | succ fuel => rw [nodeRead, nodeRead, strtok_space (by decide)]

/-- A node that is a single token is read from it. -/
theorem nodeRead_token {text rest : Text} (token : IsToken text) (nonempty : text ≠ [])
    (delimited : Delimited rest) (fuel : Nat) :
    nodeRead grammar (fuel + 1) (text ++ rest) =
      readToken grammar (nodeRead grammar fuel) text rest := by
  rw [nodeRead, strtok_token token nonempty delimited]

theorem nodeRead_bracket {byte : UInt8} (bracket : isBracket byte = true) (rest : Text)
    (fuel : Nat) :
    nodeRead grammar (fuel + 1) (byte :: rest) =
      readToken grammar (nodeRead grammar fuel) [byte] rest := by
  rw [nodeRead, strtok_bracket bracket]

theorem isToken_string (text : Text) :
    IsToken (34 :: (outToken (some text) ++ [34])) := by
  have quote : IsToken [34] := .plain (by decide) (by decide) .nil
  have inner : IsToken (outToken (some text)) := by
    cases text with
    | nil => exact isToken_of_all (by decide)
    | cons byte text => exact (isToken_outToken (by simp)).1
  exact .plain (by decide) (by decide) (inner.append quote)

/-- What is left of a text starts with a token of a node. -/
theorem startsNode_token {text rest : Text} (token : IsToken text) (nonempty : text ≠ [])
    (notInts : text ≠ ascii "i")
    (notOids : text ≠ ascii "o")
    (delimited : Delimited rest) :
    StartsNode (text ++ rest) :=
  ⟨text, rest, strtok_token token nonempty delimited, token.head_ne (by decide), notInts, notOids⟩

theorem startsNode_out {node : Node Kind AtomValue} (wellFormed : WellFormed grammar node)
    {rest : Text} (delimited : Delimited rest) :
    StartsNode (outNode grammar node ++ rest) := by
  have notLetter {text : Text} (number : startsNumber text = true) :
      text ≠ [] ∧ text ≠ ascii "i" ∧ text ≠ ascii "o" := by
    refine ⟨?_, ?_, ?_⟩ <;> (rintro rfl; exact absurd number (by decide))
  cases wellFormed with
  | null =>
    rw [outNode]
    exact startsNode_token (isToken_of_all (by decide)) (by decide)
      (by decide) (by decide) delimited
  | integer value =>
    rw [outNode]
    rcases notLetter (startsNumber_signedDecimal value.toInt) with
      ⟨notNil, notInts, notOids⟩
    exact startsNode_token (isToken_signedDecimal _) notNil notInts notOids delimited
  | @float text token type =>
    rw [outNode]
    have number : startsNumber text = true := by
      by_contra noNumber
      rw [nodeTokenType, if_neg noNumber] at type
      split at type <;> (try split at type) <;> contradiction
    rcases notLetter number with ⟨notNil, notInts, notOids⟩
    exact startsNode_token token notNil notInts notOids delimited
  | @string text nonempty =>
    rw [outNode]
    refine startsNode_token (isToken_string text) (by simp) ?_ ?_ delimited
    · simp [ascii]
    · simp [ascii]
  | list nonempty each =>
    rw [outNode, List.cons_append]
    exact ⟨[40], _, strtok_bracket (by decide) _, by decide, by decide, by decide⟩
  | intList nonempty =>
    rw [outNode, List.append_assoc]
    exact ⟨[40], _, strtok_bracket (by decide) _, by decide, by decide, by decide⟩
  | oidList nonempty =>
    rw [outNode, List.append_assoc]
    exact ⟨[40], _, strtok_bracket (by decide) _, by decide, by decide, by decide⟩
  | struct conforms each =>
    rw [outNode, List.cons_append]
    exact ⟨[123], _, strtok_bracket (by decide) _, by decide, by decide, by decide⟩

theorem length_item_le (grammar : Grammar Kind Atom AtomValue) {items : List (Node Kind AtomValue)}
    {item : Node Kind AtomValue} (member : item ∈ items) :
    (outNode grammar item).length ≤ (outItems grammar items).length := by
  induction items with
  | nil => contradiction
  | cons head items ih =>
    rw [outItems, List.length_append, List.length_append]
    rcases List.mem_cons.mp member with rfl | later
    · omega
    · have below := ih later
      omega

theorem length_items_le (grammar : Grammar Kind Atom AtomValue)
    (items : List (Node Kind AtomValue)) :
    items.length ≤ (outItems grammar items).length + 1 := by
  induction items with
  | nil => exact Nat.zero_le _
  | cons head items ih =>
    rw [outItems, List.length_append, List.length_append, List.length_cons]
    cases items with
    | nil => simp
    | cons other items =>
      simp only [List.isEmpty_cons, Bool.false_eq_true, if_false, List.length_singleton]
      omega

theorem length_child_le (grammar : Grammar Kind Atom AtomValue)
    {fields : List (String × Field AtomValue (Node Kind AtomValue))} {name : String}
    {child : Node Kind AtomValue} (member : (name, Field.node child) ∈ fields) :
    (outNode grammar child).length ≤ (outFields grammar fields).length := by
  induction fields with
  | nil => contradiction
  | cons head fields ih =>
    rw [outFields, List.length_append]
    rcases List.mem_cons.mp member with rfl | later
    · simp only [outNamed, outField, List.length_cons, List.length_append]
      omega
    · have below := ih later
      omega

theorem nodeRead_string {text : Text} (nonempty : text ≠ []) {rest : Text}
    (delimited : Delimited rest) (fuel : Nat) :
    nodeRead grammar (fuel + 1) (outNode grammar (.string text) ++ rest) =
      some (.string text, rest) := by
  rcases isToken_outToken nonempty with ⟨_, _, _, same⟩
  have type : nodeTokenType (34 :: (outToken (some text) ++ [34])) = .string := by
    have noNumber : startsNumber (34 :: (outToken (some text) ++ [34])) = false := by
      have noSign :
          withoutSign (34 :: (outToken (some text) ++ [34])) =
            34 :: (outToken (some text) ++ [34]) :=
        rfl
      rw [startsNumber, noSign]
      cases outToken (some text) <;> rfl
    rw [nodeTokenType, noNumber, if_neg Bool.false_ne_true]
    have last : (34 :: (outToken (some text) ++ [34])).getLast? = some 34 := by
      rw [← List.cons_append, List.getLast?_append]
      rfl
    simp [last]
  rw [outNode, nodeRead_token (isToken_string text) (by simp) delimited, readToken, type]
  simp [same]

/-- A list is read as its items are. -/
theorem nodeRead_list {items : List (Node Kind AtomValue)} {rest : Text}
    (starts : StartsNode (outItems grammar items ++ 41 :: rest)) (fuel : Nat) :
    nodeRead grammar (fuel + 1) (outNode grammar (.list items) ++ rest) =
      (readItems (nodeRead grammar fuel)
        ((outItems grammar items ++ 41 :: rest).length + 1)
        (outItems grammar items ++ 41 :: rest)).map
          fun (items, rest) =>
            (if items.isEmpty then .null else .list items, rest) := by
  rcases starts with ⟨token, rest', isToken, _, notInts, notOids⟩
  have type : nodeTokenType [40] = .leftParen := by decide
  rw [outNode, List.cons_append, List.append_assoc, nodeRead_bracket (by decide), readToken, type]
  simp only [List.singleton_append, readList, isToken, Option.bind_eq_bind,
    Option.bind_some, if_neg notInts, if_neg notOids]
  cases readItems (nodeRead grammar fuel) ((outItems grammar items ++ 41 :: rest).length + 1)
    (outItems grammar items ++ 41 :: rest) <;> rfl

/-- A list of numbers is read behind the letter that says what they are. -/
theorem nodeRead_numbers {letter : Text} (isLetter : letter ∈ [ascii "i", ascii "o"])
    {out : BitVec 32 → Text} (number : NumberText out) (items : List (BitVec 32)) (rest : Text)
    (fuel : Nat) :
    nodeRead grammar (fuel + 1)
        (40 :: (letter ++ (items.flatMap (fun item => 32 :: out item) ++ [41]) ++ rest)) =
      some (if letter = ascii "i" then .intList items else .oidList items, rest) := by
  have type : nodeTokenType [40] = .leftParen := by decide
  have numbers := readList_numbers number items rest
  have different : ¬ ascii "o" = ascii "i" := by decide
  have token : IsToken letter ∧ letter ≠ [] := by
    rcases List.mem_pair.1 isLetter with rfl | rfl <;> exact ⟨isToken_of_all (by decide), by decide⟩
  rw [List.append_assoc, List.append_assoc, List.singleton_append, nodeRead_bracket (by decide),
    readToken, type]
  simp only [readList]
  rw [strtok_token token.1 token.2 (delimited_numbers out items rest)]
  rcases List.mem_pair.1 isLetter with rfl | rfl <;>
    simp only [Option.bind_eq_bind, Option.bind_some, if_true, if_neg different, numbers]

theorem nodeRead_intList (items : List (BitVec 32)) (rest : Text) (fuel : Nat) :
    nodeRead grammar (fuel + 1) (outNode grammar (.intList items) ++ rest) =
      some (.intList items, rest) := by
  rw [outNode]
  exact nodeRead_numbers (show ascii "i" ∈ _ by simp) numberText_int items rest fuel

theorem nodeRead_oidList (items : List (BitVec 32)) (rest : Text) (fuel : Nat) :
    nodeRead grammar (fuel + 1) (outNode grammar (.oidList items) ++ rest) =
      some (.oidList items, rest) := by
  rw [outNode]
  exact nodeRead_numbers (show ascii "o" ∈ _ by simp) numberText_oid items rest fuel

/-- A structure is read as its fields are. -/
theorem nodeRead_struct {kind : Kind}
    {fields : List (String × Field AtomValue (Node Kind AtomValue))} {rest : Text} (fuel : Nat) :
    nodeRead grammar (fuel + 1)
        (outNode grammar (.struct kind fields) ++ rest) =
      readBody grammar (nodeRead grammar fuel) kind (outFields grammar fields ++ 125 :: rest) := by
  have type : nodeTokenType [123] = .leftBrace := by decide
  have brace : Delimited (125 :: rest) := delimited_cons (by decide) rest
  rw [outNode, List.cons_append, List.append_assoc, List.append_assoc,
    nodeRead_bracket (by decide), readToken, type]
  simp only [List.singleton_append, readStruct]
  rw [strtok_token (grammar.label_token kind) (grammar.label_ne_nil kind)
    (delimited_outFields grammar fields brace)]
  simp [grammar.kindOf_label kind]

/-- A node is read back, or else its text cannot be read. -/
def Decided (grammar : Grammar Kind Atom AtomValue)
    (read : Text → Option (Node Kind AtomValue × Text))
    (node : Node Kind AtomValue) : Prop :=
  (AllKinds (Matched grammar) node ∧ Reads grammar read node) ∨
    (¬ AllKinds (Matched grammar) node ∧ Fails grammar read node)

theorem Decided.reads_or_fails {read : Text → Option (Node Kind AtomValue × Text)}
    {node : Node Kind AtomValue} (decided : Decided grammar read node) :
    Reads grammar read node ∨ Fails grammar read node :=
  decided.imp And.right And.right

theorem decided_list {items : List (Node Kind AtomValue)} (nonempty : items ≠ [])
    (each : ∀ item ∈ items, WellFormed grammar item) {fuel : Nat}
    (children : ∀ item ∈ items, Decided grammar (nodeRead grammar fuel) item) :
    Decided grammar (nodeRead grammar (fuel + 1)) (.list items) := by
  have starts (item : Node Kind AtomValue) (member : item ∈ items)
      (rest : Text) (delimited : Delimited rest) :
      StartsNode (outNode grammar item ++ rest) :=
    startsNode_out (each item member) delimited
  have startsItems (rest : Text) : StartsNode (outItems grammar items ++ 41 :: rest) := by
    cases items with
    | nil => contradiction
    | cons item items =>
      rw [outItems, List.append_assoc, List.append_assoc]
      exact starts item List.mem_cons_self _ (delimited_outItems grammar items rest)
  have space := nodeRead_space grammar fuel
  by_cases all : ∀ item ∈ items, AllKinds (Matched grammar) item
  · refine Or.inl ⟨.list all, fun rest delimited => ?_⟩
    have reads (item : Node Kind AtomValue) (member : item ∈ items) :
        Reads grammar (nodeRead grammar fuel) item := by
      rcases children item member with ⟨_, reads⟩ | ⟨notAll, _⟩
      · exact reads
      · exact absurd (all item member) notAll
    have enough : items.length < (outItems grammar items ++ 41 :: rest).length + 1 := by
      have bound := length_items_le grammar items
      rw [List.length_append, List.length_cons]
      omega
    rw [nodeRead_space, nodeRead_list (startsItems rest), readItems_out space starts reads enough]
    simp [nonempty]
  · have notAll : ¬ AllKinds (Matched grammar) (.list items) := by
      intro allKinds
      cases allKinds with
      | list each => exact all each
    refine Or.inr ⟨notAll, fun rest delimited => ?_⟩
    have fails : ∃ item ∈ items, Fails grammar (nodeRead grammar fuel) item := by
      push Not at all
      rcases all with ⟨item, member, notKind⟩
      rcases children item member with ⟨isKind, _⟩ | ⟨_, fails⟩
      · contradiction
      · exact ⟨item, member, fails⟩
    rw [nodeRead_space, nodeRead_list (startsItems rest),
      readItems_fails space starts (fun item member => (children item member).reads_or_fails) fails]
    rfl

theorem decided_struct {kind : Kind}
    (matchedOrRejected : Matched grammar kind ∨ Rejected grammar kind)
    {fields : List (String × Field AtomValue (Node Kind AtomValue))}
    (conforms : Conforms grammar (grammar.outFormat kind) fields) {fuel : Nat}
    (children :
      ∀ name child, (name, Field.node child) ∈ fields →
        Decided grammar (nodeRead grammar fuel) child) :
    Decided grammar (nodeRead grammar (fuel + 1)) (.struct kind fields) := by
  have readsOrFails (name : String) (child : Node Kind AtomValue)
      (member : (name, Field.node child) ∈ fields) :=
    (children name child member).reads_or_fails
  by_cases isMatched : Matched grammar kind
  · by_cases all :
        ∀ name child, (name, Field.node child) ∈ fields → AllKinds (Matched grammar) child
    · refine Or.inl ⟨.struct isMatched all, fun rest delimited => ?_⟩
      have reads (name : String) (child : Node Kind AtomValue)
          (member : (name, Field.node child) ∈ fields) :
          Reads grammar (nodeRead grammar fuel) child := by
        rcases children name child member with ⟨_, reads⟩ | ⟨notAll, _⟩
        · exact reads
        · exact absurd (all name child member) notAll
      rw [nodeRead_space, nodeRead_struct, readBody_out isMatched conforms reads]
    · have notAll : ¬ AllKinds (Matched grammar) (.struct kind fields) := by
        intro allKinds
        cases allKinds with
        | struct _ each => exact all each
      refine Or.inr ⟨notAll, fun rest delimited => ?_⟩
      have fails :
          ∃ name child, (name, Field.node child) ∈ fields ∧
            Fails grammar (nodeRead grammar fuel) child := by
        push Not at all
        rcases all with ⟨name, child, member, notKind⟩
        rcases children name child member with ⟨isKind, _⟩ | ⟨_, fails⟩
        · contradiction
        · exact ⟨name, child, member, fails⟩
      rw [nodeRead_space, nodeRead_struct, readBody_fails isMatched conforms readsOrFails fails]
  · have rejected := matchedOrRejected.resolve_left isMatched
    have notAll : ¬ AllKinds (Matched grammar) (.struct kind fields) := by
      intro allKinds
      cases allKinds with
      | struct holds _ => exact isMatched holds
    refine Or.inr ⟨notAll, fun rest delimited => ?_⟩
    rw [nodeRead_space, nodeRead_struct, rejected _ fields rest conforms readsOrFails]

/--
A well-formed node is read back if all its structures are of kinds that are
read as they are written; otherwise its text cannot be read.
-/
theorem decided_of_wellFormed
    (matchedOrRejected : ∀ kind, Matched grammar kind ∨ Rejected grammar kind)
    {node : Node Kind AtomValue} (wellFormed : WellFormed grammar node) {fuel : Nat}
    (enough : (outNode grammar node).length ≤ fuel) :
    Decided grammar (nodeRead grammar (fuel + 1)) node := by
  induction wellFormed generalizing fuel with
  | null =>
    refine Or.inl ⟨.null, fun rest delimited => ?_⟩
    rw [nodeRead_space, outNode, nodeRead_token (isToken_of_all (by decide)) (by decide) delimited]
    rfl
  | integer value =>
    refine Or.inl ⟨.integer value, fun rest delimited => ?_⟩
    rw [nodeRead_space, outNode, nodeRead_token (isToken_signedDecimal _) (signedDecimal_ne_nil _)
      delimited, readToken, nodeTokenType_integer]
    simp [atoi_signedDecimal]
  | @float text token type =>
    refine Or.inl ⟨.float text, fun rest delimited => ?_⟩
    have nonempty : text ≠ [] := by
      rintro rfl
      contradiction
    rw [nodeRead_space, outNode, nodeRead_token token nonempty delimited, readToken, type]
  | @string text nonempty =>
    refine Or.inl ⟨.string text, fun rest delimited => ?_⟩
    rw [nodeRead_space]
    exact nodeRead_string nonempty delimited fuel
  | @list items nonempty each ih =>
    rw [outNode, List.length_cons, List.length_append] at enough
    rcases fuel with _ | fuel
    · contradiction
    · refine decided_list nonempty each fun item member => ih item member ?_
      have inside := length_item_le grammar member
      omega
  | intList nonempty =>
    refine Or.inl ⟨.intList _, fun rest delimited => ?_⟩
    rw [nodeRead_space]
    exact nodeRead_intList _ rest fuel
  | oidList nonempty =>
    refine Or.inl ⟨.oidList _, fun rest delimited => ?_⟩
    rw [nodeRead_space]
    exact nodeRead_oidList _ rest fuel
  | @struct kind fields conforms each ih =>
    rw [outNode, List.length_cons, List.length_append, List.length_append] at enough
    rcases fuel with _ | fuel
    · contradiction
    · refine decided_struct (matchedOrRejected kind) conforms fun name child member =>
        ih name child member ?_
      have inside := length_child_le grammar member
      omega

/-- Exactly the nodes of kinds read as they are written are read back. -/
theorem stringToNode_out_iff
    (matchedOrRejected : ∀ kind, Matched grammar kind ∨ Rejected grammar kind)
    {node : Node Kind AtomValue} (wellFormed : WellFormed grammar node) :
    stringToNode grammar (outNode grammar node) = some (node, []) ↔
      AllKinds (Matched grammar) node := by
  have decided := decided_of_wellFormed matchedOrRejected wellFormed le_rfl
  have plain :
      nodeRead grammar ((outNode grammar node).length + 1) (32 :: (outNode grammar node ++ [])) =
        stringToNode grammar (outNode grammar node) := by
    rw [nodeRead_space, List.append_nil]
    rfl
  rcases decided with ⟨all, reads⟩ | ⟨notAll, fails⟩
  · have read := reads [] delimited_nil
    rw [plain] at read
    exact iff_of_true read all
  · have failed := fails [] delimited_nil
    rw [plain] at failed
    rw [failed]
    exact iff_of_false (by simp) notAll

end Nodes

end NodeText
