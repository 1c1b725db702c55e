import Ldv.Library.CText

/-!
# Recording and replaying socket reads

In mode 31 the client library writes what it receives from the server to a
log, one line for each read; in mode 32 it reads the log instead of the
socket.  `prvStoreRead` and `prvRestoreRead` are the two operations.

A replayed read passes the size of its line buffer to `fgets` as an `int`,
so the log is replayed faithfully exactly if each line fits the buffer whose
size is left after that conversion.
-/

namespace Ldv.Capture

open CText

variable {served : List Text} {lens : List Nat}

/-! ## Recording -/

def getHex (ch : UInt8) : UInt8 := if 9 < ch then ch + 97 - 10 else ch + 48

/-- The log of a process, and the number of the next read. -/
structure ReadLog where
  pkgCounter : BitVec 64 := 0
  text : Text

/--
The log as it is opened.  The session is taken from the environment, where
it is a number or absent.
-/
def prvInitPkgCapture (session : Option Int) : ReadLog where
  text := ascii "prv_init\t" ++ (session.elim (ascii "(null)") signedDecimal) ++ [newline]

/-- The line for a read, without the newline at its end. -/
def readLine (pkgCounter : BitVec 64) (bytes : Text) : Text :=
  ascii "prv_store_read" ++ tab :: (signedDecimal pkgCounter.toInt ++
    tab :: (signedDecimal bytes.length ++
      tab :: bytes.flatMap fun ch => [getHex (ch / 16), getHex (ch % 16)]))

def prvStoreRead (log : ReadLog) (bytes : Text) : ReadLog where
  pkgCounter := log.pkgCounter + 1
  text := log.text ++ (readLine log.pkgCounter bytes ++ [newline])

/-- The log after a sequence of reads. -/
def record (session : Option Int) (reads : List Text) : ReadLog :=
  reads.foldl prvStoreRead (prvInitPkgCapture session)

/-! ## Replaying -/

def getChar (ch : UInt8) : UInt8 := if 57 < ch then ch - 97 + 10 else ch - 48

/-- How a replayed read ends. -/
inductive ReadOutcome where
  | read (bytes : Text)
  /-- The log is at its end, and the length of the read stays unassigned. -/
  | unassigned
  /-- Memory outside of the line or of the buffer is accessed. -/
  | outOfBounds
  | diverges
deriving DecidableEq, Repr

/-- Decodes up to the newline; without one the line is left behind. -/
def decode : Text → Option Text
  | [] => none
  | [high] => if high = newline then some [] else none
  | high :: low :: rest =>
    if high = newline then
      some []
    else
      (decode rest).map fun bytes =>
        (getChar high <<< 4 ||| getChar low) :: bytes

/-- The bytes of a line which starts as a read. -/
def parseRead (line : Text) : Option Text := do
  let start ← afterChar tab line
  let start ← afterChar tab start
  let start ← afterChar tab start
  decode start

/-- The size of the line buffer as it is passed to `fgets`. -/
def fgetsSize (len : Nat) : Int := (BitVec.ofNat 32 (2 * len + 100)).toInt

/-- The loop over the lines of the log; a call of `fgets` each. -/
def restoreLoop (size : Int) (len : Nat) :
    Nat → Text → ReadOutcome × Text
  | 0, file => (.diverges, file)
  | fuel + 1, file =>
    match fgets size file with
    | none => (.unassigned, file)
    | some (line, rest) =>
      if (ascii "prv_store_read").isPrefixOf line then
        match parseRead line with
        | none => (.outOfBounds, rest)
        | some bytes =>
          if len < bytes.length then (.outOfBounds, rest)
          else (.read bytes, rest)
      else
        restoreLoop size len fuel rest

def prvRestoreRead (len : Nat) (file : Text) : ReadOutcome × Text :=
  restoreLoop (fgetsSize len) len (file.length + 1) file

/-- Goes on after a read that returned. -/
def resume (next : Text → Option (List Text × Text)) :
    ReadOutcome × Text → Option (List Text × Text)
  | (.read bytes, rest) =>
    (next rest).map fun (reads, rest) => (bytes :: reads, rest)
  | _ => none

/-- A sequence of reads, with what is left of the log. -/
def replay : List Nat → Text → Option (List Text × Text)
  | [], file => some ([], file)
  | len :: lens, file => resume (replay lens) (prvRestoreRead len file)

/-! ## The line of a read -/

/-- A byte is encoded by two digits, from which it is decoded. -/
theorem hex_byte (ch : UInt8) :
    getChar (getHex (ch / 16)) <<< 4 ||| getChar (getHex (ch % 16)) = ch ∧
      48 ≤ getHex (ch / 16) ∧ 48 ≤ getHex (ch % 16) := by
  have all :
      ∀ code : Fin 256,
        getChar (getHex (UInt8.ofNat code / 16)) <<< 4 |||
            getChar (getHex (UInt8.ofNat code % 16)) = UInt8.ofNat code ∧
          48 ≤ getHex (UInt8.ofNat code / 16) ∧
          48 ≤ getHex (UInt8.ofNat code % 16) := by
    decide +kernel
  have byte := all ⟨ch.toNat, ch.toNat_lt⟩
  rwa [UInt8.ofNat_toNat] at byte

theorem decode_hex (bytes : Text) :
    decode ((bytes.flatMap fun ch => [getHex (ch / 16), getHex (ch % 16)]) ++
      [newline]) = some bytes := by
  induction bytes with
  | nil => rfl
  | cons ch bytes ih =>
    rcases hex_byte ch with ⟨value, high, _⟩
    have notNewline : getHex (ch / 16) ≠ newline := by
      intro same
      rw [same] at high
      contradiction
    simp only [List.flatMap_cons, List.cons_append, List.nil_append]
    rw [decode, if_neg notNewline, ih, Option.map_some, value]

/-- Without a newline the end of the text is passed. -/
theorem decode_eq_none {text : Text} (single : newline ∉ text) :
    decode text = none := by
  induction text using decode.induct with
  | case1 => rfl
  | case2 => simp at single
  | case3 high notNewline => simp [decode, notNewline]
  | case4 low rest => simp at single
  | case5 high low rest notNewline ih =>
    have below := ih (by simp_all)
    rw [decode, if_neg notNewline, below, Option.map_none]

theorem parseRead_eq_none {text : Text} (single : newline ∉ text) :
    parseRead text = none := by
  unfold parseRead
  cases first : afterChar tab text with
  | none => rfl
  | some text₁ =>
    have single₁ : newline ∉ text₁ := fun member =>
      single ((suffix_of_afterChar first).mem member)
    cases second : afterChar tab text₁ with
    | none => simp [second]
    | some text₂ =>
      have single₂ : newline ∉ text₂ := fun member =>
        single₁ ((suffix_of_afterChar second).mem member)
      cases third : afterChar tab text₂ with
      | none => simp [second, third]
      | some text₃ =>
        have single₃ : newline ∉ text₃ := fun member =>
          single₂ ((suffix_of_afterChar third).mem member)
        simp [second, third, decode_eq_none single₃]

theorem not_mem_signedDecimal {byte : UInt8} (small : byte < 45) (number : Int) :
    byte ∉ signedDecimal number := by
  intro member
  exact absurd small (UInt8.not_lt.mpr (signedDecimal_range member).1)

section Line

variable
  (pkgCounter : BitVec 64)
  (bytes : Text)

theorem parseRead_readLine :
    parseRead (readLine pkgCounter bytes ++ [newline]) = some bytes := by
  have marker : tab ∉ ascii "prv_store_read" := by decide
  have number (value : Int) : tab ∉ signedDecimal value := not_mem_signedDecimal (by decide) value
  simp only [parseRead, readLine, List.append_assoc, List.cons_append,
    afterChar_append marker, afterChar_append (number _),
    Option.bind_eq_bind, Option.bind_some]
  exact decode_hex bytes

theorem newline_not_mem_readLine : newline ∉ readLine pkgCounter bytes := by
  have marker : newline ∉ ascii "prv_store_read" := by decide
  have number (value : Int) : newline ∉ signedDecimal value :=
    not_mem_signedDecimal (by decide) value
  have digits :
      newline ∉ bytes.flatMap fun ch =>
        [getHex (ch / 16), getHex (ch % 16)] := by
    intro member
    rcases List.mem_flatMap.mp member with ⟨ch, _, isDigit⟩
    rcases hex_byte ch with ⟨_, high, low⟩
    rcases List.mem_pair.mp isDigit with same | same
    · rw [← same] at high
      contradiction
    · rw [← same] at low
      contradiction
  have tabs : newline ≠ tab := by decide
  simp only [readLine, List.mem_append, List.mem_cons, not_or]
  exact ⟨marker, tabs, number _, tabs, number _, tabs, digits⟩

theorem readLine_marker :
    ascii "prv_store_read" <+: readLine pkgCounter bytes :=
  List.prefix_append _ _

end Line

/-! ## One replayed read -/

theorem fgetsSize_ne_one (len : Nat) : fgetsSize len ≠ 1 := by
  unfold fgetsSize
  rw [BitVec.toInt_eq_toNat_cond, BitVec.toNat_ofNat]
  split <;> omega

section Loop

variable
  {size : Int}
  {len : Nat}

/-- The loop ends after at most as many calls as the log has bytes. -/
theorem restoreLoop_fuel (notOne : size ≠ 1) {fuel fuel' : Nat} {file : Text}
    (enough : file.length < fuel) (enough' : file.length < fuel') :
    restoreLoop size len fuel file = restoreLoop size len fuel' file := by
  induction fuel generalizing fuel' file with
  | zero => contradiction
  | succ fuel ih =>
    cases fuel' with
    | zero => contradiction
    | succ fuel' =>
      rw [restoreLoop, restoreLoop]
      cases got : fgets size file with
      | none => rfl
      | some step =>
        rcases step with ⟨line, rest⟩
        have shorter := length_lt_of_fgets notOne got
        have same : restoreLoop size len fuel rest = restoreLoop size len fuel' rest :=
          ih (by omega) (by omega)
        simp only [same]

/-- What the loop does after a line that is no read. -/
theorem restoreLoop_step (notOne : size ≠ 1) {file line rest : Text}
    (got : fgets size file = some (line, rest))
    (other : ¬ ascii "prv_store_read" <+: line) :
    restoreLoop size len (file.length + 1) file = restoreLoop size len (rest.length + 1) rest := by
  have shorter := length_lt_of_fgets notOne got
  rw [← List.isPrefixOf_iff_prefix] at other
  rw [restoreLoop, got]
  simp only
  rw [if_neg other]
  exact restoreLoop_fuel notOne shorter (Nat.lt_succ_self _)

/-- A line of a read that fits the buffer is decoded. -/
theorem restoreLoop_readLine (pkgCounter : BitVec 64) {bytes : Text}
    (fits : ((readLine pkgCounter bytes).length : Int) + 1 < size) (enough : bytes.length ≤ len)
    (rest : Text) :
    restoreLoop size len
        ((readLine pkgCounter bytes ++ newline :: rest).length + 1)
        (readLine pkgCounter bytes ++ newline :: rest) =
      (.read bytes, rest) := by
  have isRead :
      (ascii "prv_store_read").isPrefixOf (readLine pkgCounter bytes ++ [newline]) = true := by
    rw [List.isPrefixOf_iff_prefix]
    exact (readLine_marker pkgCounter bytes).trans (List.prefix_append _ _)
  simp only [restoreLoop, fgets_line (newline_not_mem_readLine pkgCounter bytes) fits rest,
    isRead, parseRead_readLine, if_true]
  rw [if_neg (Nat.not_lt.mpr enough)]

/-- Lines in which the marker of a read does not occur are skipped. -/
theorem restoreLoop_other (large : 1 < size) {line : Text} (single : newline ∉ line)
    (other : ¬ ascii "prv_store_read" <:+: line ++ [newline])
    (rest : Text) :
    restoreLoop size len ((line ++ newline :: rest).length + 1)
        (line ++ newline :: rest) =
      restoreLoop size len (rest.length + 1) rest := by
  have notOne : size ≠ 1 := by omega
  generalize length : line.length = n
  induction n using Nat.strong_induction_on generalizing line with
  | _ n ih =>
    by_cases fits : (line.length : Int) + 1 < size
    · refine restoreLoop_step notOne (fgets_line single fits rest) ?_
      exact fun isRead => other isRead.isInfix
    · have part := fgets_part large single (by omega) (newline :: rest)
      have shorter : (line.drop (size - 1).toNat).length < n := by
        rw [List.length_drop]
        omega
      rw [restoreLoop_step notOne part]
      · refine ih _ shorter ?_ ?_ rfl
        · exact fun member => single (List.mem_of_mem_drop member)
        · intro inside
          refine other (inside.trans ⟨line.take (size - 1).toNat, [], ?_⟩)
          rw [List.append_nil, ← List.append_assoc, List.take_append_drop]
      · intro isRead
        refine other (isRead.isInfix.trans ?_)
        exact ((List.take_prefix _ line).trans (List.prefix_append _ _)).isInfix

/-- In a buffer shorter than the marker no line is found to be a read. -/
theorem restoreLoop_short (small : size ≤ 14) (fuel : Nat) (file bytes : Text) :
    (restoreLoop size len fuel file).1 ≠ .read bytes := by
  induction fuel generalizing file with
  | zero => exact ReadOutcome.noConfusion
  | succ fuel ih =>
    rw [restoreLoop]
    cases got : fgets size file with
    | none => exact ReadOutcome.noConfusion
    | some step =>
      rcases step with ⟨line, rest⟩
      have short := length_le_of_fgets got
      have other : ¬ (ascii "prv_store_read").isPrefixOf line = true := by
        rw [List.isPrefixOf_iff_prefix]
        intro isRead
        have long := isRead.length_le
        have marker : (ascii "prv_store_read").length = 14 := by
          decide
        omega
      simp only
      rw [if_neg other]
      exact ih rest

/-- A read whose line does not fit the buffer is not returned. -/
theorem restoreLoop_tooLong (pkgCounter : BitVec 64) {bytes : Text}
    (long : size ≤ ((readLine pkgCounter bytes).length : Int) + 1) (fuel : Nat)
    (rest bytes' : Text) :
    (restoreLoop size len fuel (readLine pkgCounter bytes ++ rest)).1 ≠ .read bytes' := by
  by_cases small : size ≤ 14
  · exact restoreLoop_short small fuel _ bytes'
  · have single := newline_not_mem_readLine pkgCounter bytes
    have part := fgets_part (by omega) single long rest
    cases fuel with
    | zero => exact ReadOutcome.noConfusion
    | succ fuel =>
      have isRead :
          (ascii "prv_store_read").isPrefixOf
            ((readLine pkgCounter bytes).take (size - 1).toNat) =
              true := by
        rw [List.isPrefixOf_iff_prefix, List.prefix_take_iff]
        refine ⟨readLine_marker pkgCounter bytes, ?_⟩
        have marker : (ascii "prv_store_read").length = 14 := by decide
        omega
      have broken :
          parseRead
            ((readLine pkgCounter bytes).take (size - 1).toNat) =
              none :=
        parseRead_eq_none fun member =>
          single (List.mem_of_mem_take member)
      rw [restoreLoop, part]
      simp only [isRead, broken, if_true]
      exact ReadOutcome.noConfusion

end Loop

/-! ## Sequences of reads -/

/-- The lines for a sequence of reads. -/
def readLines : BitVec 64 → List Text → Text
  | _, [] => []
  | pkgCounter, bytes :: reads =>
    readLine pkgCounter bytes ++ newline :: readLines (pkgCounter + 1) reads

theorem foldl_prvStoreRead (log : ReadLog) (reads : List Text) :
    (reads.foldl prvStoreRead log).text = log.text ++ readLines log.pkgCounter reads := by
  induction reads generalizing log with
  | nil => simp [readLines]
  | cons bytes reads ih =>
    rw [List.foldl_cons, ih]
    simp [prvStoreRead, readLines]

/-- Each line fits the buffer of the call that reads it. -/
def LinesFit : BitVec 64 → List Text → List Nat → Prop
  | pkgCounter, bytes :: reads, len :: lens =>
    ((readLine pkgCounter bytes).length : Int) + 1 < fgetsSize len ∧
      LinesFit (pkgCounter + 1) reads lens
  | _, _, _ => True

/-- A replay returns the recorded reads, and leaves the later ones. -/
def Replays (session : Option Int) (served later : List Text)
    (lens : List Nat) :
    Prop :=
  ∃ rest,
    replay lens (record session (served ++ later)).text =
        some (served, rest) ∧
      (served ≠ [] → rest = readLines (BitVec.ofNat 64 served.length) later)

theorem prvRestoreRead_of_fits {pkgCounter : BitVec 64} {bytes : Text} {len : Nat}
    (fits : ((readLine pkgCounter bytes).length : Int) + 1 < fgetsSize len)
    (enough : bytes.length ≤ len) (rest : Text) :
    prvRestoreRead len (readLine pkgCounter bytes ++ newline :: rest) = (.read bytes, rest) :=
  restoreLoop_readLine pkgCounter fits enough rest

theorem replay_of_tooLong {pkgCounter : BitVec 64} {bytes : Text} {len : Nat}
    (long : ¬ ((readLine pkgCounter bytes).length : Int) + 1 < fgetsSize len)
    (lens : List Nat) (rest : Text) :
    replay (len :: lens) (readLine pkgCounter bytes ++ rest) = none := by
  have unread :
      ∀ bytes', (prvRestoreRead len (readLine pkgCounter bytes ++ rest)).1 ≠ .read bytes' :=
    restoreLoop_tooLong pkgCounter (Int.not_lt.mp long) _ rest
  rw [replay]
  unfold resume
  split
  · next bytes' rest' step => exact (unread bytes' (by rw [step])).elim
  · rfl

theorem counter_add (pkgCounter : BitVec 64) (count : Nat) :
    pkgCounter + 1 + BitVec.ofNat 64 count = pkgCounter + BitVec.ofNat 64 (count + 1) := by
  have next : BitVec.ofNat 64 (count + 1) = 1#64 + BitVec.ofNat 64 count := by
    rw [Nat.add_comm, BitVec.ofNat_add]
  rw [next]
  exact BitVec.add_assoc pkgCounter 1#64 _

/-- The replay of the lines alone. -/
theorem replay_readLines (pkgCounter : BitVec 64) (later : List Text)
    (enough : List.Forall₂ (fun bytes len => bytes.length ≤ len) served lens) :
    (LinesFit pkgCounter served lens →
      replay lens (readLines pkgCounter (served ++ later)) =
        some (served, readLines (pkgCounter + BitVec.ofNat 64 served.length) later)) ∧
    (¬ LinesFit pkgCounter served lens →
      replay lens (readLines pkgCounter (served ++ later)) = none) := by
  induction enough generalizing pkgCounter with
  | nil =>
    constructor
    · intro _
      simp [replay]
    · intro unfit
      exact (unfit trivial).elim
  | @cons bytes len served lens head tail ih =>
    have below := ih (pkgCounter + 1)
    have counter := counter_add pkgCounter served.length
    rw [List.cons_append, readLines, LinesFit]
    by_cases fits : ((readLine pkgCounter bytes).length : Int) + 1 < fgetsSize len
    · rw [replay, prvRestoreRead_of_fits fits head]
      constructor
      · intro linesFit
        rw [List.length_cons, ← counter]
        simp only [resume, below.1 linesFit.2, Option.map_some]
      · intro unfit
        have unfitTail : ¬ LinesFit (pkgCounter + 1) served lens :=
          fun linesFit => unfit ⟨fits, linesFit⟩
        simp only [resume, below.2 unfitTail, Option.map_none]
    · constructor
      · intro linesFit
        exact (fits linesFit.1).elim
      · intro _
        exact replay_of_tooLong fits lens _

/-- The first line of the log has no letter `s` and no newline. -/
theorem not_mem_prvInit (session : Option Int) {byte : UInt8}
    (isByte : byte = 115 ∨ byte = newline) :
    byte ∉ ascii "prv_init\t" ++ session.elim (ascii "(null)") signedDecimal := by
  rw [List.mem_append, not_or]
  constructor
  · rcases isByte with rfl | rfl <;> decide
  · cases session with
    | none => rcases isByte with rfl | rfl <;> decide
    | some number =>
      intro member
      have range := signedDecimal_range member
      rcases isByte with rfl | rfl
      · exact absurd range.2 (by decide)
      · exact absurd range.1 (by decide)

/-- The first line of the log is skipped. -/
theorem replay_prvInit (session : Option Int) (len : Nat) (lens : List Nat) (file : Text) :
    replay (len :: lens) ((prvInitPkgCapture session).text ++ file) =
      replay (len :: lens) file := by
  have notOne := fgetsSize_ne_one len
  rw [replay, replay, prvRestoreRead, prvRestoreRead]
  by_cases large : 1 < fgetsSize len
  · rw [prvInitPkgCapture, List.append_assoc, List.singleton_append, restoreLoop_other large]
    · exact not_mem_prvInit session (.inr rfl)
    · intro inside
      have isMember : (115 : UInt8) ∈ ascii "prv_store_read" := by decide
      rcases List.mem_append.mp (inside.subset isMember) with
        member | member
      · exact not_mem_prvInit session (.inl rfl) member
      · exact absurd member (by decide)
  · have nothing (text : Text) :
        restoreLoop (fgetsSize len) len (text.length + 1) text = (.unassigned, text) := by
      have closed : fgets (fgetsSize len) text = none := by
        rw [fgets, if_pos]
        omega
      rw [restoreLoop, closed]
    rw [nothing, nothing]
    rfl

/-- The log is replayed if the lines fit the buffers of the calls. -/
theorem replays_of_linesFit (session : Option Int) (later : List Text)
    (enough : List.Forall₂ (fun bytes len => bytes.length ≤ len) served lens)
    (linesFit : LinesFit 0 served lens) :
    Replays session served later lens := by
  have lines := (replay_readLines 0 later enough).1 linesFit
  have zero : 0 + BitVec.ofNat 64 served.length = BitVec.ofNat 64 served.length := BitVec.zero_add _
  rw [zero] at lines
  unfold Replays record
  rw [foldl_prvStoreRead]
  cases enough with
  | nil => exact ⟨_, rfl, fun nonempty => (nonempty rfl).elim⟩
  | cons head tail =>
    rw [replay_prvInit]
    exact ⟨_, lines, fun _ => rfl⟩

theorem linesFit_of_replays (session : Option Int) (later : List Text)
    (enough : List.Forall₂ (fun bytes len => bytes.length ≤ len) served lens)
    (replays : Replays session served later lens) :
    LinesFit 0 served lens := by
  by_contra unfit
  have lines := (replay_readLines 0 later enough).2 unfit
  rcases replays with ⟨rest, replayed, _⟩
  rw [record, foldl_prvStoreRead] at replayed
  cases enough with
  | nil => exact unfit trivial
  | cons head tail =>
    rw [replay_prvInit] at replayed
    rw [show (prvInitPkgCapture session).pkgCounter = 0 from rfl, lines] at replayed
    contradiction

/--
A log is replayed read by read exactly if each line is shorter than the
buffer of its call.
-/
theorem replays_iff_linesFit (session : Option Int) {served : List Text} (later : List Text)
    {lens : List Nat}
    (enough : List.Forall₂ (fun bytes len => bytes.length ≤ len) served lens) :
    Replays session served later lens ↔ LinesFit 0 served lens := by
  constructor
  · exact linesFit_of_replays session later enough
  · exact replays_of_linesFit session later enough

/-! ## Buffers of ordinary size -/

theorem length_readLine_le (pkgCounter : BitVec 64) {bytes : Text}
    (small : bytes.length < 10 ^ 10) :
    (readLine pkgCounter bytes).length ≤ 2 * bytes.length + 47 := by
  have counter : (signedDecimal pkgCounter.toInt).length ≤ 20 := by
    have low := BitVec.le_toInt pkgCounter
    have high := BitVec.toInt_lt (x := pkgCounter)
    have digits : (decimal pkgCounter.toInt.natAbs).length ≤ 19 :=
      length_decimal_le (by decide) (by omega)
    unfold signedDecimal
    split
    · exact Nat.succ_le_succ digits
    · exact Nat.le_succ_of_le digits
  have number : (signedDecimal bytes.length).length ≤ 10 := by
    rw [signedDecimal, if_neg (by omega)]
    exact length_decimal_le (by decide) small
  have marker : (ascii "prv_store_read").length = 14 := by decide
  have digits :
      (bytes.flatMap fun ch =>
        [getHex (ch / 16), getHex (ch % 16)]).length = 2 * bytes.length := by
    rw [List.length_flatMap]
    simp [Nat.mul_comm]
  simp only [readLine, List.length_append, List.length_cons, marker, digits]
  omega

/-- Lines fit all buffers whose size is not changed by the conversion. -/
theorem linesFit_of_small (pkgCounter : BitVec 64)
    (enough : List.Forall₂ (fun bytes len => bytes.length ≤ len) served lens)
    (small : ∀ len ∈ lens, 2 * len + 100 < 2 ^ 31) :
    LinesFit pkgCounter served lens := by
  induction enough generalizing pkgCounter with
  | nil => trivial
  | @cons bytes len served lens head tail ih =>
    have bound := small len List.mem_cons_self
    have size : fgetsSize len = 2 * len + 100 := by
      rw [fgetsSize, BitVec.toInt_eq_toNat_of_lt] <;>
        simp only [BitVec.toNat_ofNat] <;> omega
    have line := length_readLine_le pkgCounter (show bytes.length < 10 ^ 10 by omega)
    refine ⟨by omega, ih _ fun other member => ?_⟩
    exact small other (List.mem_cons_of_mem _ member)

/--
Three reads behind the line of `prv_init`, the only other one that a session
writes in this mode.  One read is empty, one holds a newline and a tab, and
a fourth is left in the log.
-/
theorem replays_three_reads :
    Replays (some 1001) [[65, 66], [], [0, 10, 9, 255]] [[67]] [16384, 0, 4] :=
  have enough : List.Forall₂ (fun (bytes : Text) len => bytes.length ≤ len)
      [[65, 66], [], [0, 10, 9, 255]] [16384, 0, 4] :=
    .cons (by decide) (.cons (by decide) (.cons (by decide) .nil))
  (replays_iff_linesFit (some 1001) [[67]] enough).mpr (linesFit_of_small 0 enough (by decide))

/-- With a buffer of one gigabyte the size passed to `fgets` is negative. -/
theorem not_replays_gigabyte :
    List.Forall₂ (fun (bytes : Text) len => bytes.length ≤ len)
        [[65]] [2 ^ 30] ∧
      ¬ Replays (some 1001) [[65]] [] [2 ^ 30] := by
  have enough : List.Forall₂ (fun (bytes : Text) len => bytes.length ≤ len) [[65]] [2 ^ 30] :=
    .cons (by decide) .nil
  have negative : fgetsSize (2 ^ 30) = -2147483548 := by decide
  refine ⟨enough, fun replays => ?_⟩
  have fits := (linesFit_of_replays (some 1001) [] enough replays).1
  rw [negative] at fits
  omega

end Ldv.Capture
