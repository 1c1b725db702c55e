import Ldv.Library.CText

/-!
# Dictionaries of tables

The client alters every table it meets, and logs its definition, only once.
It remembers the tables in a dictionary that stores ten hash values and not
the names.
-/

namespace Ldv.Capture.TableDictionary

open CText

def hashLen : Nat := 10

/-- The hash values of a dictionary, at most `hashLen` of them. -/
structure HashTable where
  hash : List (BitVec 64)
  size_le : hash.length ≤ hashLen

/-- Characters are signed, and so is the hash value. -/
def prvHash (str : Text) : BitVec 64 :=
  let hash : BitVec 64 := str.foldl
    (fun hash c => (hash <<< 5 + hash) ^^^ c.toBitVec.signExtend 64) 5381
  if hash.slt 0 then -hash else hash

def prvHashInit : HashTable := ⟨[], by decide⟩

def prvHashPut (dict : HashTable) (str : Text) : HashTable :=
  if room : dict.hash.length < hashLen then
    ⟨dict.hash ++ [prvHash str], by rw [List.length_append]; exact room⟩
  else dict

def prvHashContains (dict : HashTable) (str : Text) : Bool :=
  dict.hash.any (prvHash str == ·)

/-- Whether the action is performed for a table. -/
def visitTable (dict : HashTable) (tablename : Text) : HashTable × Bool :=
  if prvHashContains dict tablename then (dict, false) else (prvHashPut dict tablename, true)

/-- The dictionary `dict_tblmod` and whether the table is altered. -/
def prvModifyTable : HashTable → Text → HashTable × Bool := visitTable

/-- The dictionary `dict_tblstore` and whether the table is logged. -/
def prvStoreTable : HashTable → Text → HashTable × Bool := visitTable

/-- The dictionary after some calls. -/
def dictAfter (call : HashTable → Text → HashTable × Bool) (names : List Text) : HashTable :=
  names.foldl (fun dict name => (call dict name).1) prvHashInit

/-- Each call performs its action if it is the first one with its name. -/
def OncePerName (call : HashTable → Text → HashTable × Bool) (names : List Text) : Prop :=
  ∀ before name after, names = before ++ name :: after →
    ((call (dictAfter call before) name).2 = true ↔ name ∉ before)

/-- The different names in the order of their first calls. -/
def distinct (names : List Text) : List Text :=
  names.foldl (fun found name => if name ∈ found then found else found ++ [name]) []

/--
The first ten names share their hash values with no other name, and the
others are not used again.
-/
structure Distinguished (names : List Text) : Prop where
  hashes : ∀ stored ∈ (distinct names).take hashLen, ∀ name ∈ names,
    prvHash name = prvHash stored → name = stored
  once : ∀ name ∈ names, name ∉ (distinct names).take hashLen → names.count name = 1

/-! ## Names in the order of their first calls -/

theorem distinct_concat (names : List Text) (name : Text) :
    distinct (names ++ [name]) =
      if name ∈ distinct names then distinct names else distinct names ++ [name] := by
  rw [distinct, List.foldl_append]
  rfl

theorem mem_distinct {names : List Text} {name : Text} : name ∈ distinct names ↔ name ∈ names := by
  induction names using List.reverseRecOn with
  | nil => rfl
  | append_singleton names last ih =>
    rw [distinct_concat, List.mem_append, ← ih, List.mem_singleton]
    split
    · next found =>
        constructor
        · exact .inl
        · rintro (member | rfl)
          · exact member
          · exact found
    · simp

theorem exists_distinct_append (before after : List Text) :
    ∃ more, distinct (before ++ after) = distinct before ++ more := by
  induction after using List.reverseRecOn with
  | nil => exact ⟨[], by simp⟩
  | append_singleton after last ih =>
    obtain ⟨more, extended⟩ := ih
    rw [← List.append_assoc, distinct_concat]
    split
    · exact ⟨more, extended⟩
    · exact ⟨more ++ [last], by rw [extended, List.append_assoc]⟩

/-- Later calls do not change which of the names are the first ones. -/
theorem mem_take_distinct {before : List Text} (after : List Text) {name : Text}
    (member : name ∈ before) :
    name ∈ (distinct (before ++ after)).take hashLen ↔ name ∈ (distinct before).take hashLen := by
  obtain ⟨more, extended⟩ := exists_distinct_append before after
  rw [extended]
  rcases Nat.le_total (distinct before).length hashLen with few | many
  · rw [List.take_append, List.take_of_length_le few]
    simp [mem_distinct.2 member]
  · rw [List.take_append_of_le_length many]

/-- A name called before one of the first names is a first name, too. -/
theorem mem_take_of_earlier {before after : List Text} {name stored : Text}
    (earlier : name ∈ before) (new : stored ∉ before)
    (isStored : stored ∈ (distinct (before ++ after)).take hashLen) :
    name ∈ (distinct (before ++ after)).take hashLen := by
  rw [mem_take_distinct after earlier]
  obtain ⟨more, extended⟩ := exists_distinct_append before after
  rcases Nat.le_total (distinct before).length hashLen with few | many
  · rw [List.take_of_length_le few]
    exact mem_distinct.2 earlier
  · rw [extended, List.take_append_of_le_length many] at isStored
    exact absurd (mem_distinct.1 (List.mem_of_mem_take isStored)) new

/-! ## Calls -/

theorem dictAfter_concat (names : List Text) (name : Text) :
    dictAfter visitTable (names ++ [name]) = (visitTable (dictAfter visitTable names) name).1 := by
  rw [dictAfter, List.foldl_append]
  rfl

theorem oncePerName_concat {names : List Text} {name : Text} :
    OncePerName visitTable (names ++ [name]) ↔
      OncePerName visitTable names ∧
        ((visitTable (dictAfter visitTable names) name).2 = true ↔ name ∉ names) := by
  constructor
  · intro once
    refine ⟨fun before other after same => ?_, once names name [] rfl⟩
    exact once before other (after ++ [name]) (by rw [same, List.append_assoc]; rfl)
  · rintro ⟨once, last⟩ before other after same
    rcases List.eq_nil_or_concat after with rfl | ⟨after, final, rfl⟩
    · obtain ⟨rfl, sameName⟩ := List.append_inj' same rfl
      cases sameName
      exact last
    · rw [List.concat_eq_append, ← List.cons_append, ← List.append_assoc] at same
      exact once before other after (List.append_inj' same rfl).1

theorem performed_iff {dict : HashTable} {stored : List Text}
    (hash : dict.hash = stored.map prvHash) (name : Text) :
    (visitTable dict name).2 = true ↔ ∀ other ∈ stored, prvHash name ≠ prvHash other := by
  simp only [visitTable, prvHashContains, hash]
  split <;> simp_all

/-- As long as names are told apart, the first ten of them are stored. -/
theorem hash_dictAfter {names : List Text} (once : OncePerName visitTable names) :
    (dictAfter visitTable names).hash = ((distinct names).take hashLen).map prvHash := by
  induction names using List.reverseRecOn with
  | nil => rfl
  | append_singleton names name ih =>
    obtain ⟨once, last⟩ := oncePerName_concat.1 once
    have hash := ih once
    rw [dictAfter_concat, distinct_concat]
    rw [visitTable] at last ⊢
    split at last
    · next contained =>
        have found : name ∈ names := by simpa using last
        rw [if_pos (mem_distinct.2 found), if_pos contained, hash]
    · next missing =>
        have new : name ∉ names := by simpa using last
        rw [if_neg (mem_distinct.not.2 new), if_neg missing, prvHashPut]
        have length := congrArg List.length hash
        rw [List.length_map, List.length_take] at length
        split
        · next room =>
            have few : (distinct names).length < hashLen := by omega
            simp only [hash]
            rw [List.take_of_length_le few.le, List.take_of_length_le (by simpa using few),
              List.map_append]
            rfl
        · next full =>
            have many : hashLen ≤ (distinct names).length := by omega
            rw [hash, List.take_append_of_le_length many]

/-! ## Names told apart -/

section Once

variable {names : List Text} (once : OncePerName visitTable names)

include once

/-- The action is performed unless one of the first names has the same hash value. -/
theorem notMem_iff_hash_ne {before after : List Text} {name : Text}
    (isCall : names = before ++ name :: after) :
    name ∉ before ↔ ∀ stored ∈ (distinct before).take hashLen, prvHash name ≠ prvHash stored := by
  have onceBefore : OncePerName visitTable before := fun before' other after' same =>
    once before' other (after' ++ name :: after) (by simp [isCall, same])
  rw [← once before name after isCall]
  exact performed_iff (hash_dictAfter onceBefore) name

theorem eq_of_hash_eq {stored name : Text} (isStored : stored ∈ (distinct names).take hashLen)
    (member : name ∈ names) (same : prvHash name = prvHash stored) : name = stored := by
  by_contra different
  obtain ⟨before, after, rfl, first⟩ :=
    List.eq_append_cons_of_mem (mem_distinct.1 (List.mem_of_mem_take isStored))
  by_cases earlier : name ∈ before
  · have isFirst := mem_take_of_earlier earlier first isStored
    rw [mem_take_distinct _ earlier] at isFirst
    exact (notMem_iff_hash_ne once rfl).1 first name isFirst same.symm
  · have later : name ∈ after := by
      rw [List.mem_append, List.mem_cons] at member
      tauto
    obtain ⟨between, rest, rfl, new⟩ := List.eq_append_cons_of_mem later
    have isCall : before ++ stored :: (between ++ name :: rest) =
        (before ++ stored :: between) ++ name :: rest := by simp
    have first' : name ∉ before ++ stored :: between := by simp [earlier, different, new]
    rw [isCall, mem_take_distinct _ (by simp)] at isStored
    exact (notMem_iff_hash_ne once isCall).1 first' stored isStored same

theorem distinguished_of_once : Distinguished names := by
  refine ⟨fun stored isStored name member => eq_of_hash_eq once isStored member,
    fun name member notFirst => ?_⟩
  obtain ⟨before, after, rfl, first⟩ := List.eq_append_cons_of_mem member
  by_contra several
  have again : name ∈ after := by
    by_contra absent
    exact several (by simp [List.count_append, List.count_eq_zero_of_not_mem, first, absent])
  obtain ⟨between, rest, rfl⟩ := List.append_of_mem again
  have isCall : before ++ name :: (between ++ name :: rest) =
      (before ++ name :: between) ++ name :: rest := by simp
  have repeated : ¬ name ∉ before ++ name :: between := by simp
  rw [notMem_iff_hash_ne once isCall] at repeated
  simp only [not_forall, not_not] at repeated
  obtain ⟨stored, isStored, same⟩ := repeated
  have earlier := mem_distinct.1 (List.mem_of_mem_take isStored)
  rw [← mem_take_distinct (name :: rest) earlier, ← isCall] at isStored
  exact notFirst (eq_of_hash_eq once isStored member same ▸ isStored)

end Once

theorem once_of_distinguished {names : List Text} (distinguished : Distinguished names) :
    OncePerName visitTable names := by
  suffices holds : ∀ before after, names = before ++ after → OncePerName visitTable before from
    holds names [] (by simp)
  intro before
  induction before using List.reverseRecOn with
  | nil => exact fun _ _ before _ _ same => by simp at same
  | append_singleton before name ih =>
    intro after isCall
    rw [List.append_assoc] at isCall
    have once := ih _ isCall
    rw [oncePerName_concat, performed_iff (hash_dictAfter once)]
    refine ⟨once, fun performed earlier => ?_, fun new stored isStored same => new ?_⟩
    · refine performed name ?_ rfl
      rw [← mem_take_distinct ([name] ++ after) earlier, ← isCall]
      by_contra notFirst
      have single := distinguished.once name (by simp [isCall]) notFirst
      have several := List.count_pos_iff.2 earlier
      rw [isCall, List.count_append, List.count_append, List.count_singleton_self] at single
      omega
    · have earlier := mem_distinct.1 (List.mem_of_mem_take isStored)
      rw [← mem_take_distinct ([name] ++ after) earlier, ← isCall] at isStored
      exact distinguished.hashes stored isStored name (by simp [isCall]) same ▸ earlier

/-- The dictionaries tell the names apart exactly for distinguished names. -/
theorem oncePerName_iff (names : List Text) :
    (OncePerName prvModifyTable names ↔ Distinguished names) ∧
      (OncePerName prvStoreTable names ↔ Distinguished names) :=
  have visits : OncePerName visitTable names ↔ Distinguished names :=
    ⟨distinguished_of_once, once_of_distinguished⟩
  ⟨visits, visits⟩

/-- The second of two tables with the same hash value is not altered. -/
theorem not_oncePerName_collision : ¬ OncePerName prvModifyTable [ascii "a6", ascii "gp"] := by
  intro once
  have performed := (once [ascii "a6"] (ascii "gp") [] rfl).2 (by decide)
  revert performed
  decide

end Ldv.Capture.TableDictionary
