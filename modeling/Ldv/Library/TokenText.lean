import Ldv.Library.CText

/-!
# Tokens of a text

Tokens are separated by white space; parentheses and braces are tokens by
themselves.  A backslash protects the character behind it.  `strtok` takes
the next token off a text, `outToken` writes a string as a token, and
`debackslash` is its inverse.
-/

namespace TokenText

open CText

variable {byte : UInt8} {text : Text}

def isSpace (byte : UInt8) : Bool := byte == 32 || byte == 10 || byte == 9

def isBracket (byte : UInt8) : Bool :=
  byte == 40 || byte == 41 || byte == 123 || byte == 125

def isDelimiter (byte : UInt8) : Bool := isSpace byte || isBracket byte

def isDigit (byte : UInt8) : Bool := 48 ≤ byte && byte ≤ 57

def backslash : UInt8 := 92

/-! ## Reading tokens -/

/-- The rest of a token that has started. -/
def tokenLoop : Text → Text × Text
  | [] => ([], [])
  | [byte] => if isDelimiter byte then ([], [byte]) else ([byte], [])
  | byte :: byte' :: rest =>
    if isDelimiter byte then
      ([], byte :: byte' :: rest)
    else if byte = backslash then
      (byte :: byte' :: (tokenLoop rest).1, (tokenLoop rest).2)
    else
      (byte :: (tokenLoop (byte' :: rest)).1, (tokenLoop (byte' :: rest)).2)

/-- The next token, with its backslashes, and the text behind it. -/
def strtok (text : Text) : Option (Text × Text) :=
  match text.dropWhile isSpace with
  | [] => none
  | byte :: rest =>
    if isBracket byte then
      some ([byte], rest)
    else
      some (tokenLoop (byte :: rest))

/-- The text behind the next token. -/
def skipToken (text : Text) : Text :=
  match strtok text with
  | none => []
  | some (_, rest) => rest

def debackslash : Text → Text
  | [] => []
  | [byte] => [byte]
  | byte :: byte' :: rest =>
    if byte = backslash then
      byte' :: debackslash rest
    else
      byte :: debackslash (byte' :: rest)

/-- The value of the digits at the start of a text. -/
def leadingNumber : Nat → Text → Nat
  | value, [] => value
  | value, byte :: rest =>
    if isDigit byte then
      leadingNumber (10 * value + (byte - 48).toNat) rest
    else
      value

def atoi : Text → Int
  | 45 :: rest => -leadingNumber 0 rest
  | 43 :: rest => leadingNumber 0 rest
  | text => leadingNumber 0 text

/-! ## Writing tokens -/

/-- The empty token, for a null pointer or an empty string. -/
def emptyToken : Text := ascii "<>"

/-- A string that starts as another kind of token. -/
def startsQuoted : Text → Bool
  | [] => false
  | byte :: rest =>
    byte == 60 || byte == 34 || isDigit byte ||
      ((byte == 43 || byte == 45) && rest.head?.any fun byte' => isDigit byte' || byte' == 46)

def escape (string : Text) : Text :=
  string.flatMap fun byte =>
    if isDelimiter byte || byte == backslash then [backslash, byte]
    else [byte]

def outToken : Option Text → Text
  | none | some [] => emptyToken
  | some (byte :: rest) =>
    if startsQuoted (byte :: rest) then
      backslash :: escape (byte :: rest)
    else
      escape (byte :: rest)

/-! ## Texts which are one token -/

/-- A text without delimiters but behind a backslash. -/
inductive IsToken : Text → Prop where
  | nil : IsToken []
  | plain
      {byte : UInt8}
      {rest : Text}
      (noDelimiter : isDelimiter byte = false)
      (noBackslash : byte ≠ backslash)
      (token : IsToken rest) :
      IsToken (byte :: rest)
  | escaped
      (byte : UInt8)
      {rest : Text}
      (token : IsToken rest) :
      IsToken (backslash :: byte :: rest)

/-- What is behind a token does not continue it. -/
def Delimited (rest : Text) : Prop :=
  ∀ byte ∈ rest.head?, isDelimiter byte = true

theorem delimited_nil : Delimited [] := by
  intro byte member
  contradiction

theorem delimited_cons (delimiter : isDelimiter byte = true) (rest : Text) :
    Delimited (byte :: rest) := by
  intro byte' member
  cases member
  exact delimiter

theorem IsToken.append {text' : Text} (token : IsToken text) (token' : IsToken text') :
    IsToken (text ++ text') := by
  induction token with
  | nil => exact token'
  | plain noDelimiter noBackslash _ ih =>
    exact .plain noDelimiter noBackslash ih
  | escaped byte _ ih =>
    exact .escaped byte ih

theorem IsToken.head_ne (token : IsToken text)
    (delimiter : isDelimiter byte = true) :
    text.head? ≠ some byte := by
  cases token with
  | nil => simp
  | plain noDelimiter _ _ =>
    intro same
    cases same
    rw [noDelimiter] at delimiter
    contradiction
  | escaped byte' _ =>
    intro same
    cases same
    exact absurd delimiter (by decide)

theorem isToken_of_plain
    (plain : ∀ byte ∈ text, isDelimiter byte = false ∧ byte ≠ backslash) :
    IsToken text := by
  induction text with
  | nil => exact .nil
  | cons byte rest ih =>
    rcases plain byte List.mem_cons_self with ⟨noDelimiter, noBackslash⟩
    refine .plain noDelimiter noBackslash (ih ?_)
    exact fun byte' member => plain byte' (List.mem_cons_of_mem _ member)

/-- The bytes a token needs no backslash for. -/
def isPlain (byte : UInt8) : Bool := !isDelimiter byte && byte != backslash

theorem isToken_of_all (plain : text.all isPlain = true) :
    IsToken text :=
  isToken_of_plain fun byte member => by
    simpa [isPlain] using List.all_eq_true.mp plain byte member

theorem tokenLoop_append (token : IsToken text) {rest : Text}
    (delimited : Delimited rest) :
    tokenLoop (text ++ rest) = (text, rest) := by
  induction token with
  | nil =>
    cases rest with
    | nil => rfl
    | cons byte rest =>
      have delimiter := delimited byte rfl
      cases rest with
      | nil => simp [tokenLoop, delimiter]
      | cons byte' rest => simp [tokenLoop, delimiter]
  | @plain byte text noDelimiter noBackslash _ ih =>
    rw [List.cons_append]
    cases tail : text ++ rest with
    | nil =>
      rw [List.append_eq_nil_iff] at tail
      rw [tail.1, tail.2]
      simp [tokenLoop, noDelimiter]
    | cons byte' more =>
      rw [tail] at ih
      rw [tokenLoop, ih]
      simp [noDelimiter, noBackslash]
  | escaped byte _ ih =>
    have noDelimiter : isDelimiter backslash = false := by decide
    rw [List.cons_append, List.cons_append, tokenLoop, ih]
    simp [noDelimiter]

/-! ## The next token -/

theorem strtok_space (space : isSpace byte = true) (text : Text) :
    strtok (byte :: text) = strtok text := by
  simp [strtok, space]

theorem strtok_bracket (bracket : isBracket byte = true) (rest : Text) :
    strtok (byte :: rest) = some ([byte], rest) := by
  have noSpace : isSpace byte = false := by
    revert bracket
    simp only [isBracket, isSpace, Bool.or_eq_true, beq_iff_eq,
      Bool.or_eq_false_iff, beq_eq_false_iff_ne]
    rintro (((rfl | rfl) | rfl) | rfl) <;> decide
  simp [strtok, noSpace, bracket]

theorem strtok_token (token : IsToken text) (nonempty : text ≠ []) {rest : Text}
    (delimited : Delimited rest) :
    strtok (text ++ rest) = some (text, rest) := by
  have first : ∃ byte more, text = byte :: more ∧ isDelimiter byte = false := by
    cases token with
    | nil => contradiction
    | plain noDelimiter _ _ => exact ⟨_, _, rfl, noDelimiter⟩
    | escaped byte _ => exact ⟨_, _, rfl, by decide⟩
  rcases first with ⟨byte, more, rfl, noDelimiter⟩
  have both := Bool.or_eq_false_iff.mp noDelimiter
  have loop := tokenLoop_append token delimited
  rw [List.cons_append] at loop
  simp [strtok, both.1, both.2, loop]

/-! ## Strings -/

theorem escape_cons (byte : UInt8) (string : Text) :
    escape (byte :: string) =
      (if isDelimiter byte || byte == backslash then [backslash, byte]
        else [byte]) ++ escape string :=
  rfl

theorem isToken_escape (string : Text) : IsToken (escape string) := by
  induction string with
  | nil => exact .nil
  | cons byte string ih =>
    rw [escape_cons]
    split
    · exact .escaped byte ih
    · next plain =>
        rw [Bool.or_eq_true, not_or, Bool.not_eq_true, beq_iff_eq] at plain
        exact .plain plain.1 plain.2 ih

theorem debackslash_escape (string : Text) :
    debackslash (escape string) = string := by
  induction string with
  | nil => rfl
  | cons byte string ih =>
    rw [escape_cons]
    split
    · rw [List.cons_append, List.cons_append, List.nil_append, debackslash, if_pos rfl, ih]
    · next plain =>
        rw [Bool.or_eq_true, not_or, Bool.not_eq_true, beq_iff_eq] at plain
        rw [List.cons_append, List.nil_append]
        cases tail : escape string with
        | nil =>
          rw [tail] at ih
          rw [← ih]
          rfl
        | cons byte' rest =>
          rw [tail] at ih
          rw [debackslash, if_neg plain.2, ih]

/-- A string that is not empty is written as a token that is not empty. -/
theorem isToken_outToken {string : Text} (nonempty : string ≠ []) :
    IsToken (outToken (some string)) ∧
      outToken (some string) ≠ [] ∧
      outToken (some string) ≠ emptyToken ∧
      debackslash (outToken (some string)) = string := by
  cases string with
  | nil => contradiction
  | cons byte rest =>
    rw [outToken]
    split
    · next quoted =>
        have plain : (isDelimiter byte || byte == backslash) = false := by
          revert quoted
          simp only [startsQuoted, isDigit, Bool.or_eq_true,
            beq_iff_eq, Bool.and_eq_true, decide_eq_true_eq]
          rintro (((rfl | rfl) | digit) | ⟨rfl | rfl, _⟩)
          · decide
          · decide
          · have digits :
                ∀ code : Fin 256,
                  48 ≤ UInt8.ofNat code ∧ UInt8.ofNat code ≤ 57 →
                    (isDelimiter (UInt8.ofNat code) ||
                      UInt8.ofNat code == backslash) = false := by
              decide +kernel
            have atByte := digits ⟨byte.toNat, byte.toNat_lt⟩
            rw [UInt8.ofNat_toNat] at atByte
            exact atByte digit
          · decide
          · decide
        rw [escape_cons, plain, if_neg Bool.false_ne_true, List.singleton_append]
        refine ⟨.escaped byte (isToken_escape rest), by simp, ?_, ?_⟩
        · simp [emptyToken, ascii, backslash]
        · rw [debackslash, if_pos rfl, debackslash_escape]
    · next unquoted =>
        refine ⟨isToken_escape _, ?_, ?_, debackslash_escape _⟩
        · intro isEmpty
          have same := debackslash_escape (byte :: rest)
          rw [isEmpty] at same
          contradiction
        · intro isEmpty
          have same := debackslash_escape (byte :: rest)
          rw [isEmpty] at same
          cases same
          exact unquoted rfl

/-! ## Numbers -/

theorem plain_number (low : 45 ≤ byte) (high : byte ≤ 57) :
    isDelimiter byte = false ∧ byte ≠ backslash := by
  have all :
      ∀ code : Fin 256,
        45 ≤ UInt8.ofNat code → UInt8.ofNat code ≤ 57 →
          isDelimiter (UInt8.ofNat code) = false ∧ UInt8.ofNat code ≠ backslash := by
    decide +kernel
  have atByte := all ⟨byte.toNat, byte.toNat_lt⟩
  rw [UInt8.ofNat_toNat] at atByte
  exact atByte low high

theorem isToken_signedDecimal (number : Int) :
    IsToken (signedDecimal number) := by
  apply isToken_of_plain
  intro byte member
  rcases signedDecimal_range member with ⟨low, high⟩
  exact plain_number low high

theorem isToken_decimal (number : Nat) : IsToken (decimal number) := by
  apply isToken_of_plain
  intro byte member
  rcases digit_range member with ⟨low, high⟩
  exact plain_number (UInt8.le_trans (by decide) low) high

theorem decimal_ne_nil (number : Nat) : decimal number ≠ [] := by
  unfold decimal
  split
  · simp
  · next positive =>
      simpa [Nat.digits_eq_nil_iff_eq_zero] using positive

theorem signedDecimal_ne_nil (number : Int) : signedDecimal number ≠ [] := by
  unfold signedDecimal
  split
  · simp
  · exact decimal_ne_nil _

theorem leadingNumber_digits {digits : List Nat} (small : ∀ digit ∈ digits, digit < 10)
    (value : Nat) :
    leadingNumber value (digits.map fun digit => 48 + digit.toUInt8) =
      digits.foldl (fun value digit => 10 * value + digit) value := by
  induction digits generalizing value with
  | nil => rfl
  | cons digit digits ih =>
    have each :
        ∀ digit : Nat, digit < 10 →
          isDigit (48 + digit.toUInt8) = true ∧
            (48 + digit.toUInt8 - 48 : UInt8).toNat = digit := by
      decide
    rcases each digit (small digit List.mem_cons_self) with
      ⟨isDigit, isValue⟩
    rw [List.map_cons, leadingNumber, if_pos isDigit, isValue, ih]
    · rfl
    · exact fun other member => small other (List.mem_cons_of_mem _ member)

theorem leadingNumber_decimal (number : Nat) :
    leadingNumber 0 (decimal number) = number := by
  unfold decimal
  split
  · next zero =>
      subst zero
      rfl
  · rw [leadingNumber_digits, List.foldl_reverse]
    · have value := Nat.ofDigits_digits 10 number
      rw [Nat.ofDigits_eq_foldr] at value
      refine Eq.trans ?_ value
      congr 1
      funext digit value
      simp
      omega
    · intro digit member
      exact Nat.digits_lt_base (by decide) (List.mem_reverse.mp member)

theorem atoi_signedDecimal (number : Int) :
    atoi (signedDecimal number) = number := by
  unfold signedDecimal
  split
  · rw [atoi, leadingNumber_decimal]
    omega
  · have digits {byte : UInt8} {rest : Text}
        (isDecimal : decimal number.natAbs = byte :: rest) :
        48 ≤ byte := by
      have member : byte ∈ decimal number.natAbs := by simp [isDecimal]
      exact (digit_range member).1
    unfold atoi
    split
    · next isDecimal => exact absurd (digits isDecimal) (by decide)
    · next isDecimal => exact absurd (digits isDecimal) (by decide)
    · rw [leadingNumber_decimal]
      omega

end TokenText
