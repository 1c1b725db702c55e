import Mathlib.Data.Nat.Digits.Lemmas

/-!
# Texts of C programs

A text is a list of bytes, as C programs store it in files and buffers.  The
definitions follow the C library: `fgets` reads a line, or as much of it as
fits a buffer, and `afterChar` is the position behind the first occurrence
of a character.
-/

namespace CText

abbrev Text := List UInt8

instance lawfulBEqText : LawfulBEq Text := inferInstance

def tab : UInt8 := 9

def newline : UInt8 := 10

/-- The bytes of an ASCII string. -/
def ascii (string : String) : Text :=
  string.toList.map fun char => char.toNat.toUInt8

/-! ## Numbers -/

/-- A natural number in decimal notation. -/
def decimal (number : Nat) : Text :=
  if number = 0 then [48]
  else (Nat.digits 10 number).reverse.map fun digit => 48 + digit.toUInt8

/-- An integer in decimal notation, as printed by `%d`. -/
def signedDecimal (number : Int) : Text :=
  if number < 0 then 45 :: decimal number.natAbs else decimal number.natAbs

theorem digit_range {number : Nat} {byte : UInt8} (member : byte ∈ decimal number) :
    48 ≤ byte ∧ byte ≤ 57 := by
  unfold decimal at member
  split at member
  · rw [List.mem_singleton.mp member]
    decide
  · rcases List.mem_map.mp member with ⟨digit, isDigit, rfl⟩
    have small : digit < 10 := Nat.digits_lt_base (by decide) (List.mem_reverse.mp isDigit)
    have range :
        ∀ digit : Nat, digit < 10 →
          (48 : UInt8) ≤ 48 + digit.toUInt8 ∧ 48 + digit.toUInt8 ≤ (57 : UInt8) := by
      decide
    exact range digit small

theorem signedDecimal_range {number : Int} {byte : UInt8} (member : byte ∈ signedDecimal number) :
    45 ≤ byte ∧ byte ≤ 57 := by
  have sign : (45 : UInt8) ≤ 48 := by decide
  unfold signedDecimal at member
  split at member
  · rcases List.mem_cons.mp member with rfl | digit
    · decide
    · exact ⟨UInt8.le_trans sign (digit_range digit).1, (digit_range digit).2⟩
  · exact ⟨UInt8.le_trans sign (digit_range member).1, (digit_range member).2⟩

theorem length_decimal_le {number bound : Nat} (positive : 0 < bound)
    (small : number < 10 ^ bound) :
    (decimal number).length ≤ bound := by
  unfold decimal
  split
  · exact positive
  · rw [List.length_map, List.length_reverse, Nat.digits_length_le_iff (by decide)]
    exact small

/-! ## Lines -/

/-- Reads up to `limit` bytes, but no further than the end of the line. -/
def takeLine : Nat → Text → Text × Text
  | 0, text => ([], text)
  | _ + 1, [] => ([], [])
  | limit + 1, byte :: rest =>
    if byte = newline then
      ([newline], rest)
    else
      (byte :: (takeLine limit rest).1, (takeLine limit rest).2)

/-- A call of `fgets` with a buffer of `size` bytes. -/
def fgets (size : Int) (file : Text) : Option (Text × Text) :=
  if size ≤ 0 then none
  else if size = 1 then some ([], file)
  else if file.isEmpty then none
  else some (takeLine (size - 1).toNat file)

theorem takeLine_of_lt {line : Text} (single : newline ∉ line) {limit : Nat}
    (fits : line.length < limit) (rest : Text) :
    takeLine limit (line ++ newline :: rest) = (line ++ [newline], rest) := by
  induction line generalizing limit with
  | nil =>
    cases limit with
    | zero => contradiction
    | succ limit => rfl
  | cons byte line ih =>
    cases limit with
    | zero => contradiction
    | succ limit =>
      rw [List.mem_cons, not_or] at single
      have below := ih single.2 (Nat.lt_of_succ_lt_succ fits)
      rw [List.cons_append, takeLine, if_neg (Ne.symm single.1), below]
      rfl

theorem takeLine_of_le {line : Text} (single : newline ∉ line) {limit : Nat}
    (long : limit ≤ line.length) (rest : Text) :
    takeLine limit (line ++ rest) = (line.take limit, line.drop limit ++ rest) := by
  induction line generalizing limit with
  | nil =>
    have empty : limit = 0 := Nat.le_zero.mp long
    subst empty
    rfl
  | cons byte line ih =>
    cases limit with
    | zero => rfl
    | succ limit =>
      rw [List.mem_cons, not_or] at single
      have below := ih single.2 (Nat.le_of_succ_le_succ long)
      rw [List.cons_append, takeLine, if_neg (Ne.symm single.1), below]
      rfl

/-- A line which fits the buffer is read as a whole. -/
theorem fgets_line {size : Int} {line : Text} (single : newline ∉ line)
    (fits : (line.length : Int) + 1 < size) (rest : Text) :
    fgets size (line ++ newline :: rest) = some (line ++ [newline], rest) := by
  have nonempty : (line ++ newline :: rest).isEmpty = false := by
    cases line <;> rfl
  rw [fgets, if_neg (by omega), if_neg (by omega), nonempty,
    if_neg Bool.false_ne_true, takeLine_of_lt single (by omega)]

/-- Of a line which does not fit the buffer only a part is read. -/
theorem fgets_part {size : Int} (large : 1 < size) {line : Text} (single : newline ∉ line)
    (long : size ≤ (line.length : Int) + 1) (rest : Text) :
    fgets size (line ++ rest) =
      some (line.take (size - 1).toNat, line.drop (size - 1).toNat ++ rest) := by
  have nonempty : (line ++ rest).isEmpty = false := by
    cases line with
    | nil =>
      have impossible : size ≤ 1 := long
      omega
    | cons byte line => rfl
  rw [fgets, if_neg (by omega), if_neg (by omega), nonempty,
    if_neg Bool.false_ne_true, takeLine_of_le single (by omega)]

theorem length_takeLine (limit : Nat) (text : Text) :
    (takeLine limit text).1.length ≤ limit ∧
      (takeLine limit text).1.length + (takeLine limit text).2.length =
        text.length := by
  induction limit generalizing text with
  | zero => exact ⟨le_refl 0, Nat.zero_add _⟩
  | succ limit ih =>
    cases text with
    | nil => exact ⟨Nat.zero_le _, rfl⟩
    | cons byte rest =>
      have below := ih rest
      rw [takeLine]
      split
      · exact ⟨Nat.succ_le_succ (Nat.zero_le _), by simp; omega⟩
      · simp only [List.length_cons]
        omega

/-- Every successful call with a buffer for more than a NUL reads on. -/
theorem length_lt_of_fgets {size : Int} (notOne : size ≠ 1) {file line rest : Text}
    (got : fgets size file = some (line, rest)) :
    rest.length < file.length := by
  unfold fgets at got
  split at got
  · contradiction
  · cases file with
    | nil => contradiction
    | cons byte file =>
      rw [List.isEmpty_cons, if_neg Bool.false_ne_true, Option.some.injEq] at got
      have limit : ∃ limit, (size - 1).toNat = limit + 1 := ⟨(size - 1).toNat - 1, by omega⟩
      rcases limit with ⟨limit, isLimit⟩
      have lengths := length_takeLine limit file
      rw [isLimit, takeLine] at got
      split at got
      · cases got
        exact Nat.lt_succ_self _
      · cases got
        rw [List.length_cons]
        omega

/-- A call reads at most as much as fits the buffer beside a NUL. -/
theorem length_le_of_fgets {size : Int} {file line rest : Text}
    (got : fgets size file = some (line, rest)) :
    (line.length : Int) < size := by
  unfold fgets at got
  split at got
  · contradiction
  · split at got
    · cases got
      simpa using ‹¬ size ≤ 0›
    · split at got
      · contradiction
      · have short := (length_takeLine (size - 1).toNat file).1
        rw [Option.some.injEq] at got
        rw [got] at short
        simp only at short
        omega

/-! ## Fields -/

/-- The text behind the first occurrence of a character. -/
def afterChar (char : UInt8) : Text → Option Text
  | [] => none
  | byte :: rest => if byte = char then some rest else afterChar char rest

theorem afterChar_append {char : UInt8} {field : Text} (absent : char ∉ field) (rest : Text) :
    afterChar char (field ++ char :: rest) = some rest := by
  induction field with
  | nil => simp [afterChar]
  | cons byte field ih =>
    rw [List.mem_cons, not_or] at absent
    rw [List.cons_append, afterChar, if_neg (Ne.symm absent.1)]
    exact ih absent.2

theorem suffix_of_afterChar {char : UInt8} {text rest : Text}
    (found : afterChar char text = some rest) :
    rest <:+ text := by
  induction text with
  | nil => contradiction
  | cons head tail ih =>
    rw [afterChar] at found
    split at found
    · cases found
      exact List.suffix_cons head rest
    · exact (ih found).trans (List.suffix_cons head tail)

/-! ## Strings in buffers -/

/-- The string that begins a buffer. -/
def cString (buffer : Text) : Text := buffer.takeWhile (· ≠ 0)

theorem cString_set_zero {buffer : Text} {position : Nat} (isText : 0 ∉ buffer.take position)
    (inside : position < buffer.length) :
    cString (buffer.set position 0) = buffer.take position := by
  have parts : buffer.set position 0 = buffer.take position ++ 0 :: buffer.drop (position + 1) :=
    List.set_eq_take_append_cons_drop.trans (if_pos inside)
  rw [cString, parts, List.takeWhile_append_of_pos, List.takeWhile_cons_of_neg (by simp),
    List.append_nil]
  intro char member
  simpa using ne_of_mem_of_not_mem member isText

/-- The position of the first occurrence of a character. -/
def strchr (char : UInt8) (text : Text) : Option Nat := text.findIdx? (· = char)

theorem strchr_append {char : UInt8} {field : Text} (absent : char ∉ field) (rest : Text) :
    strchr char (field ++ rest) = (strchr char rest).map (· + field.length) := by
  have none_eq : field.findIdx? (· = char) = none := by
    rw [List.findIdx?_eq_none_iff]
    intro other member
    simpa using ne_of_mem_of_not_mem member absent
  rw [strchr, List.findIdx?_append, none_eq]
  rfl

theorem strchr_self (char : UInt8) (rest : Text) : strchr char (char :: rest) = some 0 := by
  simp [strchr, List.findIdx?_cons]

theorem strchr_cons {char other : UInt8} (different : other ≠ char) (rest : Text) :
    strchr char (other :: rest) = (strchr char rest).map (· + 1) := by
  simp [strchr, List.findIdx?_cons, different]

end CText
