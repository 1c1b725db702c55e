import Mathlib.Logic.Function.Iterate

/-!
# Bubble sort

A pass carries an element through the list and leaves it where a larger one
is found, which is then carried on.  A list is sorted by as many passes as
it has elements, and elements that are not compared as different keep their
order.
-/

namespace BubbleSort

variable {α : Type*} (swaps : α → α → Bool)

/-- Carries an element through a list. -/
def carry : α → List α → List α
  | current, [] => [current]
  | current, next :: rest =>
    if swaps current next then next :: carry current rest else current :: carry next rest

/-- Neighbours change places, from the first pair to the last one. -/
def pass : List α → List α
  | [] => []
  | first :: rest => carry swaps first rest

def sort (list : List α) : List α := (pass swaps)^[list.length] list

/-! ## Permutations and stability -/

theorem carry_perm (current : α) (list : List α) :
    (carry swaps current list).Perm (current :: list) := by
  induction list generalizing current with
  | nil => exact .refl _
  | cons next rest ih =>
    rw [carry]
    split
    · exact ((ih current).cons next).trans (.swap current next rest)
    · exact (ih next).cons current

theorem pass_perm (list : List α) : (pass swaps list).Perm list := by
  cases list with
  | nil => exact .refl _
  | cons first rest => exact carry_perm swaps first rest

theorem passes_perm (count : Nat) (list : List α) : ((pass swaps)^[count] list).Perm list := by
  induction count generalizing list with
  | zero => exact .refl _
  | succ count ih =>
    exact (ih (pass swaps list)).trans (pass_perm swaps list)

section Stability

variable {swaps} {p : α → Bool}
  (keeps : ∀ left right, p left = true → p right = true → swaps left right = false)

include keeps

theorem filter_carry (current : α) (list : List α) :
    (carry swaps current list).filter p = (current :: list).filter p := by
  induction list generalizing current with
  | nil => rfl
  | cons next rest ih =>
    rw [carry]
    split
    · next swapped =>
        rw [List.filter_cons, ih]
        cases isLeft : p current with
        | false => simp [isLeft, List.filter_cons]
        | true =>
          cases isRight : p next with
          | false => simp [isLeft, isRight]
          | true => simp [keeps current next isLeft isRight] at swapped
    · rw [List.filter_cons, ih, ← List.filter_cons]

/-- Elements that never change places keep their order. -/
theorem filter_passes (count : Nat) (list : List α) :
    ((pass swaps)^[count] list).filter p = list.filter p := by
  induction count generalizing list with
  | zero => rfl
  | succ count ih =>
    rw [Function.iterate_succ_apply, ih]
    cases list with
    | nil => rfl
    | cons first rest => exact filter_carry keeps first rest

end Stability

/-! ## Sorted lists -/

variable {swaps}

/-- A largest element stays at the end. -/
theorem pass_concat {list : List α} {last : α}
    (largest : ∀ element ∈ list, swaps element last = false) :
    pass swaps (list ++ [last]) = pass swaps list ++ [last] := by
  cases list with
  | nil => rfl
  | cons first rest =>
    rw [List.cons_append, pass, pass]
    induction rest generalizing first with
    | nil => simp [carry, largest first (by simp)]
    | cons next rest ih =>
      simp only [List.forall_mem_cons] at largest ih
      rw [List.cons_append, carry, carry]
      split
      · rw [ih first ⟨largest.1, largest.2.2⟩, List.cons_append]
      · rw [ih next largest.2, List.cons_append]

theorem passes_concat (count : Nat) {list : List α} {last : α}
    (largest : ∀ element ∈ list, swaps element last = false) :
    (pass swaps)^[count] (list ++ [last]) = (pass swaps)^[count] list ++ [last] := by
  induction count generalizing list with
  | zero => rfl
  | succ count ih =>
    rw [Function.iterate_succ_apply, Function.iterate_succ_apply, pass_concat largest]
    exact ih fun element member =>
      largest element ((pass_perm swaps list).mem_iff.1 member)

section Order

variable
  (total : ∀ left right, swaps left right = true → swaps right left = false)
  (trans : ∀ left middle right, swaps left middle = false → swaps middle right = false →
    swaps left right = false)

include total trans

/-- A pass ends with an element that is not swapped with any other. -/
theorem exists_carry_concat (current : α) (list : List α) :
    ∃ front last, carry swaps current list = front ++ [last] ∧
      ∀ element ∈ current :: list, swaps element last = false := by
  have self (element : α) : swaps element element = false := by
    cases same : swaps element element with
    | false => rfl
    | true => exact same.symm.trans (total element element same)
  induction list generalizing current with
  | nil => exact ⟨[], current, rfl, fun element member => by
    rw [List.mem_singleton.1 member, self]⟩
  | cons next rest ih =>
    cases swapped : swaps current next with
    | true =>
      obtain ⟨front, last, carried, largest⟩ := ih current
      refine ⟨next :: front, last, by simp [carry, swapped, carried], ?_⟩
      simp only [List.forall_mem_cons] at largest ⊢
      exact ⟨largest.1, trans _ _ _ (total _ _ swapped) largest.1, largest.2⟩
    | false =>
      obtain ⟨front, last, carried, largest⟩ := ih next
      refine ⟨current :: front, last, by simp [carry, swapped, carried], ?_⟩
      simp only [List.forall_mem_cons] at largest ⊢
      exact ⟨trans _ _ _ swapped largest.1, largest.1, largest.2⟩

theorem sort_pairwise (list : List α) :
    (sort swaps list).Pairwise fun left right => swaps left right = false := by
  generalize length_eq : list.length = length
  induction length generalizing list with
  | zero => simp [sort, List.length_eq_zero_iff.1 length_eq]
  | succ length ih =>
    obtain ⟨first, rest, rfl⟩ := List.exists_cons_of_length_eq_add_one length_eq
    obtain ⟨front, last, carried, largest⟩ := exists_carry_concat total trans first rest
    have permuted := carry_perm swaps first rest
    rw [carried] at permuted
    have inFront (element : α) (member : element ∈ front) : swaps element last = false :=
      largest element (permuted.mem_iff.1 (List.mem_append_left _ member))
    have front_length : front.length = length := by
      have lengths := permuted.length_eq
      simp only [List.length_append, List.length_cons, List.length_nil] at lengths length_eq
      omega
    have sorted := ih front front_length
    rw [sort, front_length] at sorted
    rw [sort, length_eq, Function.iterate_succ_apply, pass, carried, passes_concat _ inFront,
      List.pairwise_append]
    refine ⟨sorted, List.pairwise_singleton _ _, fun element member other isLast => ?_⟩
    rw [List.mem_singleton.1 isLast]
    exact inFront element ((passes_perm swaps length front).mem_iff.1 member)

end Order

end BubbleSort
