import Mathlib.Data.List.GetD
import Mathlib.Order.Interval.Finset.Nat

/-!
# Bit strings as finite sets

Transformation provenance is computed with bit strings: operator `v` of a
query is bit `v`, counted from the left.  The bits are stored in bytes, from
the high bit down, and the low bits of the last byte are padding.  On bit
strings of one length with zero padding the operations are those of finite
sets.
-/

namespace Ldv.Trans

abbrev Bits8 := BitVec 8

def HIGHBIT : Bits8 := 0x80

def BITMASK : Bits8 := 0xFF

/-- A `VarBit` datum: its length, and as many bytes as the length takes. -/
structure VarBit where
  bitlen : Nat
  bits : List Bits8
  bytes : bits.length = (bitlen + 7) / 8
deriving DecidableEq

/-! ## Operations -/

def generateEmptyBitset (n : Nat) : VarBit where
  bitlen := n
  bits := List.replicate ((n + 7) / 8) 0
  bytes := List.length_replicate

/-- Moves the one bit that is set down by `value` positions. -/
def shiftElem : Nat → Nat → List Bits8 → List Bits8
  | 0, _, bits => bits
  | value + 1, cur, bits =>
    let byte := bits.getD cur 0 >>> 1
    if byte = 0 then
      shiftElem value (cur + 1) ((bits.set cur byte).set (cur + 1) HIGHBIT)
    else
      shiftElem value cur (bits.set cur byte)

theorem length_shiftElem (value cur : Nat) (bits : List Bits8) :
    (shiftElem value cur bits).length = bits.length := by
  induction value generalizing cur bits with
  | zero => rfl
  | succ value ih =>
    rw [shiftElem]
    split <;> simp [ih]

/-- The bit string of length `n` with one bit set. -/
def generateVarbitSetElem (n value : Nat) : VarBit where
  bitlen := n
  bits := shiftElem (value - 1) 0 ((List.replicate ((n + 7) / 8) 0).set 0 HIGHBIT)
  bytes := by simp [length_shiftElem]

theorem length_zipWith_bits {left right : VarBit} (same : left.bitlen = right.bitlen) :
    (List.zipWith (· ||| ·) left.bits right.bits).length = (left.bitlen + 7) / 8 := by
  rw [List.length_zipWith, left.bytes, right.bytes, same, Nat.min_self]

/-- Bit-wise or of two bit strings; the length is the one of the left. -/
def varBitOr (left right : VarBit) (same : left.bitlen = right.bitlen) : VarBit where
  bitlen := left.bitlen
  bits := List.zipWith (· ||| ·) left.bits right.bits
  bytes := length_zipWith_bits same

/-- Number of padding bits. -/
def VarBit.pad (set : VarBit) : Nat :=
  set.bits.length * 8 - set.bitlen

/-- Clears the padding of the last byte. -/
def padResult (set : VarBit) : VarBit where
  bitlen := set.bitlen
  bits := set.bits.modify (set.bits.length - 1) (· &&& BITMASK <<< set.pad)
  bytes := by rw [List.length_modify, set.bytes]

inductive BitsetError where
  | differentSizes
deriving DecidableEq, Repr

/-- Bit-wise or, for which NULL is neutral. -/
def bitorWithNull : Option VarBit → Option VarBit → Except BitsetError (Option VarBit)
  | none, none => .ok none
  | none, some arg => .ok (some (padResult arg))
  | some arg, none => .ok (some (padResult arg))
  | some arg1, some arg2 =>
    if same : arg1.bitlen = arg2.bitlen then
      .ok (some (padResult (varBitOr arg1 arg2 same)))
    else
      .error .differentSizes

/-- Does the left bit string contain the right one? -/
def bitsetContains (left right : VarBit) : Except BitsetError Bool :=
  if left.bitlen = right.bitlen then
    .ok ((left.bits.zip right.bits).all fun (byte1, byte2) => byte1 &&& byte2 == byte2)
  else
    .error .differentSizes

def bitsetEqual (left right : VarBit) : Except BitsetError Bool :=
  if left.bitlen = right.bitlen then
    .ok ((left.bits.zip right.bits).all fun (byte1, byte2) => byte1 == byte2)
  else
    .error .differentSizes

/--
The scan of `bitset_nonzero_repeat` from bit `i` on: `temp` is what is left of
the byte at position `p`.  After the last byte of the bit string the scan
reads one more byte, which is `beyond`.
-/
def nonzeroRepeatLoop (bits : List Bits8) (beyond : Bits8) (repeatLen : Nat) :
    Nat → Nat → Nat → Bits8 → Bool → Bool
  | 0, _, _, _, _ => true
  | remaining + 1, i, p, temp, foundOne =>
    let foundOne := foundOne || temp.msb
    if i % repeatLen = 0 ∧ foundOne = false then
      false
    else
      let foundOne := if i % repeatLen = 0 then false else foundOne
      if i % 8 = 0 then
        nonzeroRepeatLoop bits beyond repeatLen remaining (i + 1) (p + 1)
          (bits.getD (p + 1) beyond) foundOne
      else
        nonzeroRepeatLoop bits beyond repeatLen remaining (i + 1) p (temp <<< 1) foundOne

/-- Is a bit set in each part of the given length? -/
def bitsetNonzeroRepeat (beyond : Bits8) (arg1 : Option VarBit) (arg2 : Option Nat) : Bool :=
  match arg1, arg2 with
  | some set, some repeatLen =>
    nonzeroRepeatLoop set.bits beyond repeatLen set.bitlen 1 0 (set.bits.getD 0 beyond) false
  | _, _ => false

/-! ## The set of a bit string -/

/-- The bit at a position counted from zero. -/
def bitAt (bits : List Bits8) (position : Nat) : Bool :=
  (bits.getD (position / 8) 0).getMsbD (position % 8)

/-- The elements of a bit string. -/
def VarBit.elements (set : VarBit) : Finset Nat :=
  (Finset.Icc 1 set.bitlen).filter fun value => bitAt set.bits (value - 1) = true

/-- The bits behind the last one are zero. -/
def VarBit.ZeroPadded (set : VarBit) : Prop :=
  ∀ position, set.bitlen ≤ position → bitAt set.bits position = false

theorem VarBit.mem_elements_succ {set : VarBit} (padded : set.ZeroPadded) {position : Nat} :
    position + 1 ∈ set.elements ↔ bitAt set.bits position = true := by
  simp only [elements, Finset.mem_filter, Finset.mem_Icc, Nat.add_sub_cancel]
  refine ⟨fun member => member.2, fun isSet => ⟨⟨by omega, ?_⟩, isSet⟩⟩
  by_contra outside
  simp [padded position (by omega)] at isSet

/-- Sets are compared at the successors, as zero is never an element. -/
theorem VarBit.elements_eq_iff {set : VarBit} (padded : set.ZeroPadded) {elements : Finset Nat}
    (positive : 0 ∉ elements) :
    set.elements = elements ↔
      ∀ position, bitAt set.bits position = true ↔ position + 1 ∈ elements := by
  constructor
  · rintro rfl position
    rw [mem_elements_succ padded]
  · intro same
    ext value
    cases value with
    | zero => simp [positive, VarBit.elements]
    | succ position => rw [mem_elements_succ padded, same]

theorem VarBit.zero_notMem_elements (set : VarBit) : 0 ∉ set.elements := by
  simp [elements]

theorem getD_zipWith_or {left right : List Bits8} (same : left.length = right.length)
    (position : Nat) :
    (List.zipWith (· ||| ·) left right).getD position 0 =
      left.getD position 0 ||| right.getD position 0 := by
  by_cases inside : position < left.length <;>
    simp [List.getD_eq_getElem?_getD, inside, same ▸ inside]

theorem bitAt_zipWith_or {left right : List Bits8} (same : left.length = right.length)
    (position : Nat) :
    bitAt (List.zipWith (· ||| ·) left right) position =
      (bitAt left position || bitAt right position) := by
  rw [bitAt, getD_zipWith_or same, BitVec.getMsbD_or]
  rfl

theorem VarBit.bits_length_eq {left right : VarBit} (same : left.bitlen = right.bitlen) :
    left.bits.length = right.bits.length := by
  rw [left.bytes, right.bytes, same]

/-! ## Union -/

section Union

variable
  {left right : VarBit}

theorem zeroPadded_varBitOr (same : left.bitlen = right.bitlen) (paddedLeft : left.ZeroPadded)
    (paddedRight : right.ZeroPadded) :
    (varBitOr left right same).ZeroPadded := by
  intro position outside
  rw [varBitOr, bitAt_zipWith_or (VarBit.bits_length_eq same),
    paddedLeft position outside, paddedRight position (same ▸ outside)]
  rfl

theorem elements_varBitOr (same : left.bitlen = right.bitlen) (paddedLeft : left.ZeroPadded)
    (paddedRight : right.ZeroPadded) :
    (varBitOr left right same).elements = left.elements ∪ right.elements := by
  rw [VarBit.elements_eq_iff (zeroPadded_varBitOr same paddedLeft paddedRight)
    (by simp [VarBit.zero_notMem_elements])]
  intro position
  rw [varBitOr, bitAt_zipWith_or (VarBit.bits_length_eq same), Bool.or_eq_true, Finset.mem_union,
    VarBit.mem_elements_succ paddedLeft, VarBit.mem_elements_succ paddedRight]

/-- A byte whose last bits are zero is not changed by masking them. -/
theorem and_mask_eq_self {byte : Bits8} {pad : Nat}
    (zeros : ∀ position, 8 - pad ≤ position → byte.getMsbD position = false) :
    byte &&& BITMASK <<< pad = byte := by
  apply BitVec.eq_of_getMsbD_eq
  intro position inside
  rw [BitVec.getMsbD_and, BitVec.getMsbD_shiftLeft]
  by_cases kept : position + pad < 8
  · have ones : BITMASK.getMsbD (position + pad) = true := by
      have all : ∀ index : Fin 8, BITMASK.getMsbD index.val = true := by decide
      exact all ⟨position + pad, kept⟩
    simp [ones]
  · simp [zeros position (by omega)]

theorem VarBit.padResult_eq_self {set : VarBit} (padded : set.ZeroPadded) :
    padResult set = set := by
  have size := set.bytes
  rcases set with ⟨bitlen, bits, bytes⟩
  simp only [padResult, VarBit.mk.injEq, true_and]
  apply List.ext_getElem?
  intro index
  rw [List.getElem?_modify]
  split
  · next last =>
      subst last
      cases found : bits[bits.length - 1]? with
      | none => rfl
      | some byte =>
        rw [Option.map_eq_map, Option.map_some, and_mask_eq_self]
        intro position outside
        by_cases inside : position < 8
        · have bit := padded ((bits.length - 1) * 8 + position) (by
            simp only [VarBit.pad] at outside ⊢
            have present := (List.getElem?_eq_some_iff.mp found).1
            omega)
          rw [bitAt, show ((bits.length - 1) * 8 + position) / 8 = bits.length - 1 by omega,
            show ((bits.length - 1) * 8 + position) % 8 = position by omega,
            List.getD_eq_getElem?_getD, found] at bit
          exact bit
        · simp [BitVec.getMsbD, inside]
  · simp

end Union

/-! ## Containment and equality -/

/-- A byte contains another one bit by bit. -/
theorem and_eq_right_iff {byte1 byte2 : Bits8} :
    byte1 &&& byte2 = byte2 ↔
      ∀ position, byte2.getMsbD position = true → byte1.getMsbD position = true := by
  constructor
  · intro same position isSet
    rw [← same, BitVec.getMsbD_and, Bool.and_eq_true] at isSet
    exact isSet.1
  · intro contained
    apply BitVec.eq_of_getMsbD_eq
    intro position _
    rw [BitVec.getMsbD_and]
    cases isSet : byte2.getMsbD position with
    | false => simp
    | true => simp [contained position isSet]

/-- What holds of all bits holds of all bytes of two strings. -/
theorem forall_bitAt_iff {left right : List Bits8} {P : Bool → Bool → Prop} (zeros : P false false)
    (same : left.length = right.length) :
    (∀ position, P (bitAt left position) (bitAt right position)) ↔
      ∀ pair ∈ left.zip right, ∀ position,
        P (pair.1.getMsbD position) (pair.2.getMsbD position) := by
  constructor
  · intro holds pair member position
    rcases List.getElem_of_mem member with ⟨index, inside, rfl⟩
    rw [List.length_zip] at inside
    rw [List.getElem_zip]
    by_cases small : position < 8
    · have bit := holds (index * 8 + position)
      rw [bitAt, bitAt, show (index * 8 + position) / 8 = index by omega,
        show (index * 8 + position) % 8 = position by omega,
        List.getD_eq_getElem _ _ (by omega), List.getD_eq_getElem _ _ (by omega)] at bit
      exact bit
    · simpa [BitVec.getMsbD, small] using zeros
  · intro holds position
    by_cases inside : position / 8 < left.length
    · have member : (left[position / 8], right[position / 8]) ∈ left.zip right := by
        rw [← List.getElem_zip (h := by simp; omega)]
        exact List.getElem_mem _
      rw [bitAt, bitAt, List.getD_eq_getElem _ _ inside, List.getD_eq_getElem _ _ (same ▸ inside)]
      exact holds _ member (position % 8)
    · rw [bitAt, bitAt, List.getD_eq_default _ _ (by omega), List.getD_eq_default _ _ (by omega)]
      simpa using zeros

section Comparison

variable
  {left right : VarBit}

theorem bitsetContains_eq (same : left.bitlen = right.bitlen) (paddedLeft : left.ZeroPadded)
    (paddedRight : right.ZeroPadded) :
    bitsetContains left right = .ok (decide (right.elements ⊆ left.elements)) := by
  rw [bitsetContains, if_pos same]
  congr 1
  rw [Bool.eq_iff_iff, List.all_eq_true, decide_eq_true_eq]
  have bits := forall_bitAt_iff (P := fun bit1 bit2 => bit2 = true → bit1 = true) (by simp)
    (VarBit.bits_length_eq same)
  constructor
  · intro holds value member
    have contained := bits.mpr fun pair isPair => and_eq_right_iff.mp
      (by simpa using holds pair isPair)
    cases value with
    | zero => exact absurd member right.zero_notMem_elements
    | succ position =>
      rw [VarBit.mem_elements_succ paddedRight] at member
      exact (VarBit.mem_elements_succ paddedLeft).mpr (contained position member)
  · intro subset pair isPair
    have contained := bits.mp (fun position isSet => (VarBit.mem_elements_succ paddedLeft).mp
      (subset ((VarBit.mem_elements_succ paddedRight).mpr isSet)))
    simpa using and_eq_right_iff.mpr (contained pair isPair)

theorem bitsetEqual_eq (same : left.bitlen = right.bitlen) (paddedLeft : left.ZeroPadded)
    (paddedRight : right.ZeroPadded) :
    bitsetEqual left right = .ok (decide (left.elements = right.elements)) := by
  rw [bitsetEqual, if_pos same]
  congr 1
  rw [Bool.eq_iff_iff, List.all_eq_true, decide_eq_true_eq,
    VarBit.elements_eq_iff paddedLeft right.zero_notMem_elements]
  simp only [VarBit.mem_elements_succ paddedRight, ← Bool.eq_iff_iff]
  rw [forall_bitAt_iff rfl (VarBit.bits_length_eq same)]
  refine forall₂_congr fun pair _ => ?_
  rw [beq_iff_eq]
  exact ⟨fun equal position => by rw [equal], fun bits =>
    BitVec.eq_of_getMsbD_eq fun position _ => bits position⟩

end Comparison

/-! ## Singletons -/

/-- Bytes with one bit set. -/
def unitBits (bytes position : Nat) : List Bits8 :=
  (List.replicate bytes 0).set (position / 8) (HIGHBIT >>> (position % 8))

theorem highbit_shiftRight :
    ∀ offset : Fin 8,
      (HIGHBIT >>> offset.val >>> 1 = 0 ↔ offset.val = 7) ∧
        ∀ position : Fin 8, (HIGHBIT >>> offset.val).getMsbD position.val =
          decide (position = offset) := by
  decide

theorem bitAt_unitBits {bytes position : Nat} (inside : position / 8 < bytes) (other : Nat) :
    bitAt (unitBits bytes position) other = decide (other = position) := by
  have offset : position % 8 < 8 := Nat.mod_lt _ (by decide)
  have offset' : other % 8 < 8 := Nat.mod_lt _ (by decide)
  rw [bitAt, unitBits, List.getD_eq_getElem?_getD, List.getElem?_set]
  by_cases sameByte : position / 8 = other / 8
  · have bit := (highbit_shiftRight ⟨position % 8, offset⟩).2 ⟨other % 8, offset'⟩
    rw [if_pos sameByte, if_pos (by simpa using inside), Option.getD_some, bit]
    congr 1
    rw [Fin.mk.injEq, eq_iff_iff]
    omega
  · rw [if_neg sameByte, List.getElem?_replicate]
    have different : other ≠ position := by omega
    split <;> simp [different]

theorem shiftElem_unitBits {bytes : Nat} (value position : Nat)
    (inside : (position + value) / 8 < bytes) :
    shiftElem value (position / 8) (unitBits bytes position) =
      unitBits bytes (position + value) := by
  induction value generalizing position with
  | zero => rfl
  | succ value ih =>
    have offset : position % 8 < 8 := Nat.mod_lt _ (by decide)
    have byte : (unitBits bytes position).getD (position / 8) 0 = HIGHBIT >>> (position % 8) := by
      rw [unitBits, List.getD_eq_getElem?_getD, List.getElem?_set_self (by simp; omega)]
      rfl
    have last := (highbit_shiftRight ⟨position % 8, offset⟩).1
    have next := ih (position + 1) (by rwa [Nat.add_right_comm, Nat.add_assoc] at *)
    rw [Nat.add_right_comm, Nat.add_assoc] at next
    rw [shiftElem, byte]
    by_cases carries : position % 8 = 7
    · have cleared : (unitBits bytes position).set (position / 8) 0 = List.replicate bytes 0 := by
        simp [unitBits, List.set_set, List.set_replicate_self]
      rw [if_pos (last.mpr carries), last.mpr carries, cleared]
      rw [unitBits, show (position + 1) / 8 = position / 8 + 1 by omega,
        show (position + 1) % 8 = 0 by omega] at next
      exact next
    · have moved :
          (unitBits bytes position).set (position / 8) (HIGHBIT >>> (position % 8) >>> 1) =
            unitBits bytes (position + 1) := by
        rw [unitBits, unitBits, List.set_set, show (position + 1) / 8 = position / 8 by omega,
          show (position + 1) % 8 = position % 8 + 1 by omega, BitVec.shiftRight_add]
      rw [if_neg (mt last.mp carries), moved]
      rw [show (position + 1) / 8 = position / 8 by omega] at next
      exact next

section Singleton

variable
  {n value : Nat}

theorem bits_generateVarbitSetElem (positive : 1 ≤ value) (bound : value ≤ n) :
    (generateVarbitSetElem n value).bits = unitBits ((n + 7) / 8) (value - 1) := by
  have shifted := shiftElem_unitBits (value - 1) 0
    (show (0 + (value - 1)) / 8 < (n + 7) / 8 by omega)
  rw [Nat.zero_add] at shifted
  exact shifted

theorem bitAt_generateVarbitSetElem (positive : 1 ≤ value) (bound : value ≤ n) (position : Nat) :
    bitAt (generateVarbitSetElem n value).bits position = decide (position + 1 = value) := by
  rw [bits_generateVarbitSetElem positive bound, bitAt_unitBits (by omega)]
  congr 1
  rw [eq_iff_iff]
  omega

theorem zeroPadded_generateVarbitSetElem (positive : 1 ≤ value) (bound : value ≤ n) :
    (generateVarbitSetElem n value).ZeroPadded := by
  intro position outside
  have beyond : position + 1 ≠ value := by
    have length : n ≤ position := outside
    omega
  rw [bitAt_generateVarbitSetElem positive bound, decide_eq_false beyond]

theorem elements_generateVarbitSetElem (positive : 1 ≤ value) (bound : value ≤ n) :
    (generateVarbitSetElem n value).elements = {value} := by
  rw [VarBit.elements_eq_iff (zeroPadded_generateVarbitSetElem positive bound) (by simp; omega)]
  simp [bitAt_generateVarbitSetElem positive bound]

end Singleton

theorem bitAt_generateEmptyBitset (n position : Nat) :
    bitAt (generateEmptyBitset n).bits position = false := by
  rw [bitAt, generateEmptyBitset, List.getD_eq_getElem?_getD, List.getElem?_replicate]
  split <;> simp

theorem zeroPadded_generateEmptyBitset (n : Nat) : (generateEmptyBitset n).ZeroPadded :=
  fun position _ => bitAt_generateEmptyBitset n position

theorem elements_generateEmptyBitset (n : Nat) : (generateEmptyBitset n).elements = ∅ := by
  rw [VarBit.elements_eq_iff (zeroPadded_generateEmptyBitset n) (by simp)]
  simp [bitAt_generateEmptyBitset]

/-! ## Parts of equal length -/

/-- Is a bit set in the part of the given length which ends at `last`? -/
def PartNonzero (bits : List Bits8) (repeatLen last : Nat) : Prop :=
  ∃ position, last - repeatLen ≤ position ∧ position < last ∧ bitAt bits position = true

section Repeat

variable
  {bits : List Bits8}
  {repeatLen i : Nat}
  {temp : Bits8}
  {foundOne : Bool}

/-- The first bit of what is left of a byte is the one that is scanned. -/
theorem found_or_msb_iff (first : 1 ≤ i)
    (rest : temp = bits.getD ((i - 1) / 8) 0 <<< ((i - 1) % 8))
    (found :
      foundOne = true ↔ ∃ position, (i - 1) / repeatLen * repeatLen ≤ position ∧
        position < i - 1 ∧ bitAt bits position = true) :
    (foundOne || temp.msb) = true ↔
      ∃ position, (i - 1) / repeatLen * repeatLen ≤ position ∧ position < i ∧
        bitAt bits position = true := by
  have high : temp.msb = bitAt bits (i - 1) := by
    rw [rest, bitAt, BitVec.msb, BitVec.getMsbD_shiftLeft, Nat.zero_add]
  rw [Bool.or_eq_true, found, high]
  constructor
  · rintro (⟨position, begins, before, isSet⟩ | isSet)
    · exact ⟨position, begins, by omega, isSet⟩
    · exact ⟨i - 1, Nat.div_mul_le_self _ _, by omega, isSet⟩
  · rintro ⟨position, begins, before, isSet⟩
    by_cases now : position = i - 1
    · exact .inr (now ▸ isSet)
    · exact .inl ⟨position, begins, by omega, isSet⟩

/-- The scan goes on with what is left of the byte of the next bit. -/
theorem nonzeroRepeatLoop_continues (beyond : Bits8) {remaining : Nat} (first : 1 ≤ i)
    (inside : i + (remaining + 1) ≤ bits.length * 8 + 1)
    (rest : temp = bits.getD ((i - 1) / 8) 0 <<< ((i - 1) % 8)) (foundOne : Bool) :
    ∃ next, (0 < remaining → next = bits.getD (i / 8) 0 <<< (i % 8)) ∧
      (if i % 8 = 0 then
        nonzeroRepeatLoop bits beyond repeatLen remaining (i + 1) ((i - 1) / 8 + 1)
          (bits.getD ((i - 1) / 8 + 1) beyond) foundOne
      else
        nonzeroRepeatLoop bits beyond repeatLen remaining (i + 1) ((i - 1) / 8) (temp <<< 1)
          foundOne) =
        nonzeroRepeatLoop bits beyond repeatLen remaining (i + 1) (i / 8) next foundOne := by
  split
  · next newByte =>
      rw [show (i - 1) / 8 + 1 = i / 8 by omega]
      refine ⟨_, fun more => ?_, rfl⟩
      rw [List.getD_eq_getElem _ _ (by omega), List.getD_eq_getElem _ _ (by omega), newByte,
        BitVec.shiftLeft_zero]
  · next sameByte =>
      refine ⟨temp <<< 1, fun more => ?_, by rw [show (i - 1) / 8 = i / 8 by omega]⟩
      rw [rest, ← BitVec.shiftLeft_add, show (i - 1) / 8 = i / 8 by omega,
        show (i - 1) % 8 + 1 = i % 8 by omega]

theorem begin_of_dvd (positive : 1 ≤ repeatLen) (first : 1 ≤ i) (ends : repeatLen ∣ i) :
    (i - 1) / repeatLen * repeatLen = i - repeatLen := by
  rcases ends with ⟨_ | count, rfl⟩
  · omega
  · rw [Nat.mul_succ, show repeatLen * count + repeatLen - 1 =
      (repeatLen - 1) + repeatLen * count by omega,
      Nat.add_mul_div_left _ _ (by omega), Nat.div_eq_of_lt (by omega)]
    simp [Nat.mul_comm]

theorem div_of_not_dvd (positive : 1 ≤ repeatLen) (inPart : ¬ repeatLen ∣ i) :
    i / repeatLen = (i - 1) / repeatLen := by
  have split := Nat.div_add_mod i repeatLen
  have small := Nat.mod_lt i positive
  have notEnd : i % repeatLen ≠ 0 := mt Nat.dvd_of_mod_eq_zero inPart
  rw [show i - 1 = (i % repeatLen - 1) + repeatLen * (i / repeatLen) by omega,
    Nat.add_mul_div_left _ _ (by omega),
    show (i % repeatLen - 1) / repeatLen = 0 from Nat.div_eq_of_lt (by omega), Nat.zero_add]

theorem forall_last_succ {remaining : Nat} {P : Nat → Prop} :
    (∀ last, repeatLen ∣ last → i ≤ last → last < i + (remaining + 1) → P last) ↔
      (repeatLen ∣ i → P i) ∧
        ∀ last, repeatLen ∣ last → i + 1 ≤ last → last < i + 1 + remaining → P last := by
  constructor
  · intro holds
    exact ⟨fun divides => holds i divides le_rfl (by omega),
      fun last divides from_ before => holds last divides (by omega) (by omega)⟩
  · rintro ⟨here, later⟩ last divides from_ before
    by_cases isHere : last = i
    · exact isHere ▸ here (isHere ▸ divides)
    · exact later last divides (by omega) (by omega)

theorem nonzeroRepeatLoop_eq_true_iff (beyond : Bits8) (positive : 1 ≤ repeatLen)
    (remaining : Nat) (first : 1 ≤ i) (inside : i + remaining ≤ bits.length * 8 + 1)
    (rest : 0 < remaining → temp = bits.getD ((i - 1) / 8) 0 <<< ((i - 1) % 8))
    (found :
      foundOne = true ↔ ∃ position, (i - 1) / repeatLen * repeatLen ≤ position ∧
        position < i - 1 ∧ bitAt bits position = true) :
    nonzeroRepeatLoop bits beyond repeatLen remaining i ((i - 1) / 8) temp foundOne = true ↔
      ∀ last, repeatLen ∣ last → i ≤ last → last < i + remaining →
        PartNonzero bits repeatLen last := by
  induction remaining generalizing i temp foundOne with
  | zero =>
    simp only [nonzeroRepeatLoop, true_iff]
    omega
  | succ remaining ih =>
    have foundNow := found_or_msb_iff first (rest (by omega)) found
    rw [forall_last_succ, nonzeroRepeatLoop]
    by_cases ends : repeatLen ∣ i
    · have isEnd : i % repeatLen = 0 := Nat.mod_eq_zero_of_dvd ends
      rw [begin_of_dvd positive first ends] at foundNow
      simp only [isEnd, true_and, if_true, ends, forall_const]
      cases now : foundOne || temp.msb with
      | false =>
        simp only [if_true, Bool.false_eq_true, false_iff, not_and]
        exact fun part => absurd (foundNow.mpr part) (by simp [now])
      | true =>
        obtain ⟨next, nextRest, continues⟩ :=
          nonzeroRepeatLoop_continues beyond first inside (rest (by omega)) false
        simp only [Bool.true_eq_false, if_false]
        have part : PartNonzero bits repeatLen i := foundNow.mp now
        rw [continues, and_iff_right part]
        refine ih (by omega) (by omega) nextRest ?_
        rw [Nat.add_sub_cancel, Nat.div_mul_cancel ends]
        simp only [Bool.false_eq_true, false_iff, not_exists]
        omega
    · have notEnd : i % repeatLen ≠ 0 := mt Nat.dvd_of_mod_eq_zero ends
      obtain ⟨next, nextRest, continues⟩ := nonzeroRepeatLoop_continues beyond first inside
        (rest (by omega)) (foundOne || temp.msb)
      simp only [notEnd, false_and, if_false, ends, false_implies, true_and]
      rw [continues]
      refine ih (by omega) (by omega) nextRest ?_
      rw [Nat.add_sub_cancel, div_of_not_dvd positive ends]
      exact foundNow

end Repeat

theorem bitsetNonzeroRepeat_eq_true_iff (beyond : Bits8) {set : VarBit} (padded : set.ZeroPadded)
    {repeatLen : Nat} (positive : 1 ≤ repeatLen) (divides : repeatLen ∣ set.bitlen) :
    bitsetNonzeroRepeat beyond (some set) (some repeatLen) = true ↔
      ∀ part < set.bitlen / repeatLen,
        ∃ value ∈ set.elements, part * repeatLen < value ∧ value ≤ (part + 1) * repeatLen := by
  have size := set.bytes
  have byte : 0 < set.bitlen → set.bits.getD 0 beyond = set.bits.getD 0 0 <<< 0 := by
    intro nonempty
    rw [List.getD_eq_getElem _ _ (by omega), List.getD_eq_getElem _ _ (by omega),
      BitVec.shiftLeft_zero]
  have nothing :
      false = true ↔ ∃ position, (1 - 1) / repeatLen * repeatLen ≤ position ∧
        position < 1 - 1 ∧ bitAt set.bits position = true := by
    simp
  have loop := nonzeroRepeatLoop_eq_true_iff beyond positive set.bitlen le_rfl (by omega) byte
    nothing
  rw [bitsetNonzeroRepeat, loop]
  constructor
  · intro holds part inside
    have bound : (part + 1) * repeatLen ≤ set.bitlen := by
      rw [← Nat.div_mul_cancel divides]
      exact Nat.mul_le_mul_right _ inside
    have last : 1 ≤ (part + 1) * repeatLen := Nat.mul_pos (by omega) positive
    rcases holds _ (Nat.dvd_mul_left _ _) last (by omega) with ⟨position, begins, before, isSet⟩
    refine ⟨position + 1, (VarBit.mem_elements_succ padded).mpr isSet, ?_, before⟩
    rw [Nat.succ_mul] at begins
    omega
  · rintro holds _ ⟨count, rfl⟩ from_ before
    have some : 1 ≤ count := by
      by_contra zero
      rw [show count = 0 by omega] at from_
      omega
    have inside : count - 1 < set.bitlen / repeatLen := by
      have : count ≤ set.bitlen / repeatLen := by
        rw [Nat.le_div_iff_mul_le positive, Nat.mul_comm]
        omega
      omega
    rcases holds (count - 1) inside with ⟨value, member, begins, ends⟩
    cases value with
    | zero => exact absurd member set.zero_notMem_elements
    | succ position =>
      rw [Nat.sub_add_cancel some, Nat.mul_comm] at ends
      refine ⟨position, ?_, ends, (VarBit.mem_elements_succ padded).mp member⟩
      rw [Nat.sub_one_mul, Nat.mul_comm] at begins
      omega

/-! ## Sets of operators -/

/-- The operations on bit strings of length `n` are those of finite sets. -/
structure ImplementsSets (n : Nat) : Prop where
  setElem :
    ∀ value, 1 ≤ value → value ≤ n →
      (generateVarbitSetElem n value).bitlen = n ∧
        (generateVarbitSetElem n value).ZeroPadded ∧
          (generateVarbitSetElem n value).elements = {value}
  empty :
    (generateEmptyBitset n).bitlen = n ∧ (generateEmptyBitset n).ZeroPadded ∧
      (generateEmptyBitset n).elements = ∅
  union :
    ∀ left right : VarBit, left.bitlen = n → right.bitlen = n →
      left.ZeroPadded → right.ZeroPadded → ∀ same : left.bitlen = right.bitlen,
        (varBitOr left right same).bitlen = n ∧ (varBitOr left right same).ZeroPadded ∧
          (varBitOr left right same).elements = left.elements ∪ right.elements
  unionWithNull :
    ∀ left right : VarBit, left.bitlen = n → right.bitlen = n →
      left.ZeroPadded → right.ZeroPadded →
        bitorWithNull none none = .ok none ∧
          bitorWithNull none (some right) = .ok (some right) ∧
          bitorWithNull (some left) none = .ok (some left) ∧
          ∃ result : VarBit, bitorWithNull (some left) (some right) = .ok (some result) ∧
            result.bitlen = n ∧ result.ZeroPadded ∧ result.elements = left.elements ∪ right.elements
  compare :
    ∀ left right : VarBit, left.bitlen = n → right.bitlen = n →
      left.ZeroPadded → right.ZeroPadded →
        bitsetContains left right = .ok (decide (right.elements ⊆ left.elements)) ∧
          bitsetEqual left right = .ok (decide (left.elements = right.elements))
  nonzeroRepeat :
    ∀ set : VarBit, set.bitlen = n → set.ZeroPadded →
      ∀ repeatLen, 1 ≤ repeatLen → repeatLen ∣ n → ∀ beyond,
        (bitsetNonzeroRepeat beyond (some set) (some repeatLen) = true ↔
          ∀ part < n / repeatLen, ∃ value ∈ set.elements,
            part * repeatLen < value ∧ value ≤ (part + 1) * repeatLen)

theorem implementsSets {n : Nat} (positive : 1 ≤ n) :
    ImplementsSets n where
  setElem value positive bound :=
    ⟨rfl, zeroPadded_generateVarbitSetElem positive bound,
      elements_generateVarbitSetElem positive bound⟩
  empty := ⟨rfl, zeroPadded_generateEmptyBitset n, elements_generateEmptyBitset n⟩
  union left right length _ paddedLeft paddedRight same :=
    ⟨length, zeroPadded_varBitOr same paddedLeft paddedRight,
      elements_varBitOr same paddedLeft paddedRight⟩
  unionWithNull left right length length' paddedLeft paddedRight := by
    have same : left.bitlen = right.bitlen := length.trans length'.symm
    refine ⟨rfl, by rw [bitorWithNull, VarBit.padResult_eq_self paddedRight],
      by rw [bitorWithNull, VarBit.padResult_eq_self paddedLeft], varBitOr left right same, ?_,
      length, zeroPadded_varBitOr same paddedLeft paddedRight,
      elements_varBitOr same paddedLeft paddedRight⟩
    rw [bitorWithNull, dif_pos same,
      VarBit.padResult_eq_self (zeroPadded_varBitOr same paddedLeft paddedRight)]
  compare left right length length' paddedLeft paddedRight :=
    ⟨bitsetContains_eq (length.trans length'.symm) paddedLeft paddedRight,
      bitsetEqual_eq (length.trans length'.symm) paddedLeft paddedRight⟩
  nonzeroRepeat := by
    rintro set rfl padded repeatLen positive divides beyond
    exact bitsetNonzeroRepeat_eq_true_iff beyond padded positive divides

theorem implementsSets_twoBytes : ImplementsSets 12 := implementsSets (by decide)

end Ldv.Trans
