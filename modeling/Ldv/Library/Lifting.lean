import Mathlib.Data.List.Perm.Basic
import Mathlib.Order.Antisymmetrization

/-!
# Joins of lists and liftings of a relation to lists

`joinWith` is the join of two lists of rows under an arbitrary condition,
with the four outer variants selected by two flags.  A `Lifting` turns a
relation between rows into a relation between collections of rows which all
relational operators respect.  There are two of them: `Lifting.bag` compares
collections with multiplicities, `Lifting.set` without.

An argument about a query is carried out once for an arbitrary lifting and
then read off at the bag level or at the set level.
-/

namespace Relational

variable {α β γ δ ε ζ : Type}

/-! ## Joins -/

/-- The rows a single left row contributes to a join. -/
def joinLeft (keepLeft : Bool) (cond : α → β → Bool) (both : α → β → γ) (leftOnly : α → γ)
    (right : List β) (row : α) :
    List γ :=
  if (right.filter (cond row)).isEmpty then
    if keepLeft then [leftOnly row] else []
  else
    (right.filter (cond row)).map (both row)

/-- The right rows without a partner, when an outer join keeps them. -/
def joinRight (keepRight : Bool) (cond : α → β → Bool) (rightOnly : β → γ) (left : List α)
    (right : List β) :
    List γ :=
  if keepRight then
    (right.filter fun row => !left.any fun partner => cond partner row).map rightOnly
  else
    []

/-- Inner, left, right and full join of two lists of rows. -/
def joinWith (keepLeft keepRight : Bool) (cond : α → β → Bool) (both : α → β → γ) (leftOnly : α → γ)
    (rightOnly : β → γ) (left : List α) (right : List β) :
    List γ :=
  left.flatMap (joinLeft keepLeft cond both leftOnly right) ++
    joinRight keepRight cond rightOnly left right

/-- The Cartesian product is the join without a condition. -/
def crossWith (both : α → β → γ) (left : List α) (right : List β) :
    List γ :=
  left.flatMap fun row => right.map (both row)

section Rows

variable
  {keepLeft keepRight : Bool}
  {cond : α → β → Bool}
  {both : α → β → γ}
  {leftOnly : α → γ}
  {rightOnly : β → γ}
  {left left' : List α}
  {right right' : List β}
  {row : α}
  {result : γ}

theorem mem_joinLeft :
    result ∈ joinLeft keepLeft cond both leftOnly right row ↔
      (∃ partner ∈ right, cond row partner = true ∧ both row partner = result) ∨
      (keepLeft = true ∧ (∀ partner ∈ right, cond row partner = false) ∧
        leftOnly row = result) := by
  unfold joinLeft
  by_cases none : right.filter (cond row) = []
  · have unmatched : ∀ partner ∈ right, cond row partner = false := by
      simpa [List.filter_eq_nil_iff] using none
    have noPartner : ¬ ∃ partner ∈ right, cond row partner = true ∧ both row partner = result := by
      rintro ⟨partner, member, holds, _⟩
      simp [unmatched partner member] at holds
    cases keepLeft
    · simp [none, noPartner]
    · simp only [none, List.isEmpty_nil, if_true, List.mem_singleton, noPartner, true_and, false_or]
      exact ⟨fun equal => ⟨unmatched, equal.symm⟩, fun found => found.2.symm⟩
  · have matched : ¬ ∀ partner ∈ right, cond row partner = false := by
      simpa [List.filter_eq_nil_iff] using none
    simp [none, matched, and_assoc]

theorem mem_joinWith :
    result ∈ joinWith keepLeft keepRight cond both leftOnly rightOnly left right ↔
      (∃ row ∈ left, ∃ partner ∈ right, cond row partner = true ∧ both row partner = result) ∨
      (keepLeft = true ∧ ∃ row ∈ left,
        (∀ partner ∈ right, cond row partner = false) ∧ leftOnly row = result) ∨
      (keepRight = true ∧ ∃ partner ∈ right,
        (∀ row ∈ left, cond row partner = false) ∧ rightOnly partner = result) := by
  have rightSide :
      result ∈ joinRight keepRight cond rightOnly left right ↔
        keepRight = true ∧ ∃ partner ∈ right,
          (∀ row ∈ left, cond row partner = false) ∧ rightOnly partner = result := by
    cases keepRight <;> simp [joinRight, and_assoc]
  rw [joinWith, List.mem_append, rightSide, List.mem_flatMap]
  constructor
  · rintro (⟨row, member, found⟩ | found)
    · rcases mem_joinLeft.1 found with matched | ⟨kept, alone, equal⟩
      · exact .inl ⟨row, member, matched⟩
      · exact .inr (.inl ⟨kept, row, member, alone, equal⟩)
    · exact .inr (.inr found)
  · rintro (⟨row, member, matched⟩ | ⟨kept, row, member, alone⟩ | found)
    · exact .inl ⟨row, member, mem_joinLeft.2 (.inl matched)⟩
    · exact .inl ⟨row, member, mem_joinLeft.2 (.inr ⟨kept, alone⟩)⟩
    · exact .inr found

theorem mem_crossWith :
    result ∈ crossWith both left right ↔
      ∃ row ∈ left, ∃ partner ∈ right, both row partner = result := by
  simp [crossWith]

/-- A join that keeps left rows has a result for each of them. -/
theorem exists_mem_joinWith (right : List β) (member : row ∈ left) :
    ∃ result ∈ joinWith true keepRight cond both leftOnly rightOnly left right,
      (∃ partner ∈ right, result = both row partner) ∨ result = leftOnly row := by
  by_cases matched : ∃ partner ∈ right, cond row partner = true
  · rcases matched with ⟨partner, isRight, accepted⟩
    exact ⟨both row partner, mem_joinWith.mpr (.inl ⟨row, member, partner, isRight, accepted, rfl⟩),
      .inl ⟨partner, isRight, rfl⟩⟩
  · have unmatched : ∀ partner ∈ right, cond row partner = false := by
      simpa using matched
    exact ⟨leftOnly row, mem_joinWith.mpr (.inr (.inl ⟨rfl, row, member, unmatched, rfl⟩)),
      .inr rfl⟩

/-- In a join that does not keep right rows, results have a left row. -/
theorem exists_left_of_mem_joinWith
    (member : result ∈ joinWith keepLeft false cond both leftOnly rightOnly left right) :
    ∃ row ∈ left, (∃ partner ∈ right, result = both row partner) ∨ result = leftOnly row := by
  rcases mem_joinWith.mp member with
    ⟨row, isLeft, partner, isRight, _, rfl⟩ | ⟨_, row, isLeft, _, rfl⟩ |
    ⟨never, _⟩
  · exact ⟨row, isLeft, .inl ⟨partner, isRight, rfl⟩⟩
  · exact ⟨row, isLeft, .inr rfl⟩
  · contradiction

/-- A join of lists that are given as images of other lists. -/
theorem joinWith_map {cond : γ → δ → Bool} {both : γ → δ → ε}
    {leftOnly : γ → ε} {rightOnly : δ → ε} (f : α → γ) (g : β → δ) (left : List α)
    (right : List β) :
    joinWith keepLeft keepRight cond both leftOnly rightOnly
        (left.map f) (right.map g) =
      joinWith keepLeft keepRight (fun a b => cond (f a) (g b))
        (fun a b => both (f a) (g b)) (fun a => leftOnly (f a))
        (fun b => rightOnly (g b)) left right := by
  unfold joinWith joinRight
  congr 1
  · rw [List.flatMap_map]
    apply List.flatMap_congr
    intro row _
    simp only [joinLeft, List.filter_map, List.isEmpty_map, List.map_map]
    rfl
  · simp only [List.filter_map, List.map_map, List.any_map]
    rfl

/-- The image of a join. -/
theorem map_joinWith (f : γ → δ) (left : List α) (right : List β) :
    (joinWith keepLeft keepRight cond both leftOnly rightOnly left right).map f =
      joinWith keepLeft keepRight cond (fun a b => f (both a b))
        (fun a => f (leftOnly a)) (fun b => f (rightOnly b))
        left right := by
  unfold joinWith joinRight
  rw [List.map_append, List.map_flatMap]
  congr 1
  · apply List.flatMap_congr
    intro row _
    unfold joinLeft
    split
    · split <;> rfl
    · rw [List.map_map]
      rfl
  · split
    · rw [List.map_map]
      rfl
    · rfl

/-- The order of the two inputs does not matter for the bag of results. -/
theorem joinWith_perm (leftPerm : left.Perm left') (rightPerm : right.Perm right') :
    (joinWith keepLeft keepRight cond both leftOnly rightOnly left right).Perm
      (joinWith keepLeft keepRight cond both leftOnly rightOnly left' right') := by
  have blocks :
      ∀ row ∈ left,
        (joinLeft keepLeft cond both leftOnly right row).Perm
          (joinLeft keepLeft cond both leftOnly right' row) := by
    intro row _
    have filtered := rightPerm.filter (cond row)
    unfold joinLeft
    rw [filtered.isEmpty_eq]
    split
    · exact .refl _
    · exact filtered.map _
  have anyEq :
      ∀ row, (left.any fun partner => cond partner row) =
        left'.any fun partner => cond partner row := by
    intro row
    exact leftPerm.any_eq
  have rest :
      (joinRight keepRight cond rightOnly left right).Perm
        (joinRight keepRight cond rightOnly left' right') := by
    unfold joinRight
    simp only [anyEq]
    split
    · exact (rightPerm.filter _).map _
    · exact .refl _
  exact ((List.Perm.flatMap_left left blocks).trans (leftPerm.flatMap_right _)).append rest

theorem crossWith_perm (leftPerm : left.Perm left') (rightPerm : right.Perm right') :
    (crossWith both left right).Perm (crossWith both left' right') :=
  (List.Perm.flatMap_left left fun row _ => rightPerm.map (both row)).trans
    (leftPerm.flatMap_right _)

end Rows

section Pointwise

variable
  {R : α → β → Prop}
  {S : γ → δ → Prop}
  {T : ε → ζ → Prop}
  {keepLeft keepRight : Bool}
  {cond : α → γ → Bool}
  {cond' : β → δ → Bool}
  {both : α → γ → ε}
  {both' : β → δ → ζ}
  {leftOnly : α → ε}
  {leftOnly' : β → ζ}
  {rightOnly : γ → ε}
  {rightOnly' : δ → ζ}

theorem forall₂_isEmpty {left : List α} {right : List β} (related : List.Forall₂ R left right) :
    left.isEmpty = right.isEmpty := by
  cases related <;> rfl

theorem forall₂_any {left : List α} {right : List β} {test : α → Bool} {test' : β → Bool}
    (related : List.Forall₂ R left right) (agree : ∀ a b, R a b → test a = test' b) :
    left.any test = right.any test' := by
  induction related with
  | nil => rfl
  | cons head _ ih =>
    simp [agree _ _ head, ih]

theorem forall₂_joinWith {left : List α} {left' : List β} {right : List γ} {right' : List δ}
    (leftRelated : List.Forall₂ R left left') (rightRelated : List.Forall₂ S right right')
    (condAgree : ∀ a b c d, R a b → S c d → cond a c = cond' b d)
    (bothRelated : ∀ a b c d, R a b → S c d → T (both a c) (both' b d))
    (leftOnlyRelated : ∀ a b, R a b → T (leftOnly a) (leftOnly' b))
    (rightOnlyRelated : ∀ c d, S c d → T (rightOnly c) (rightOnly' d)) :
    List.Forall₂ T
      (joinWith keepLeft keepRight cond both leftOnly rightOnly left right)
      (joinWith keepLeft keepRight cond' both' leftOnly' rightOnly' left' right') := by
  have block :
      ∀ a b, R a b →
        List.Forall₂ T (joinLeft keepLeft cond both leftOnly right a)
          (joinLeft keepLeft cond' both' leftOnly' right' b) := by
    intro a b relatedRows
    have filtered : List.Forall₂ S (right.filter (cond a)) (right'.filter (cond' b)) :=
      List.rel_filter
        (fun c d partner =>
          Bool.eq_iff_iff.1 (condAgree a b c d relatedRows partner))
        rightRelated
    unfold joinLeft
    rw [forall₂_isEmpty filtered]
    split
    · split
      · exact .cons (leftOnlyRelated a b relatedRows) .nil
      · exact .nil
    · exact List.rel_map (fun c d partner => bothRelated a b c d relatedRows partner) filtered
  have rest :
      List.Forall₂ T (joinRight keepRight cond rightOnly left right)
        (joinRight keepRight cond' rightOnly' left' right') := by
    unfold joinRight
    split
    · apply List.rel_map (fun c d partner => rightOnlyRelated c d partner)
      refine List.rel_filter ?_ rightRelated
      intro c d partner
      have found := forall₂_any leftRelated
        fun a b relatedRows => condAgree a b c d relatedRows partner
      exact Bool.eq_iff_iff.1 (congrArg Bool.not found)
    · exact .nil
  exact List.rel_append (List.rel_flatMap leftRelated block) rest

theorem forall₂_crossWith {left : List α} {left' : List β} {right : List γ} {right' : List δ}
    (leftRelated : List.Forall₂ R left left') (rightRelated : List.Forall₂ S right right')
    (bothRelated : ∀ a b c d, R a b → S c d → T (both a c) (both' b d)) :
    List.Forall₂ T (crossWith both left right) (crossWith both' left' right') :=
  List.rel_flatMap leftRelated fun a b relatedRows =>
    List.rel_map
      (fun c d partner => bothRelated a b c d relatedRows partner)
      rightRelated

end Pointwise

/-! ## Liftings -/

/--
A way of lifting a relation between rows to collections of rows, closed
under the operators of a FROM clause.
-/
structure Lifting where
  rel : ∀ {α β : Type}, (α → β → Prop) → List α → List β → Prop
  ofEq : ∀ {α : Type} (rows : List α), rel Eq rows rows
  perm :
    ∀ {α β : Type} {R : α → β → Prop} {left left' : List α}
      {right right' : List β},
      rel R left right → left.Perm left' → right.Perm right' →
      rel R left' right'
  map :
    ∀ {α β γ δ : Type} {R : α → β → Prop} {S : γ → δ → Prop}
      {left : List α} {right : List β} {f : α → γ} {g : β → δ},
      rel R left right →
      (∀ a ∈ left, ∀ b ∈ right, R a b → S (f a) (g b)) →
      rel S (left.map f) (right.map g)
  filter :
    ∀ {α β : Type} {R : α → β → Prop}
      {left : List α} {right : List β}
      {keep : α → Bool} {keep' : β → Bool},
      rel R left right →
      (∀ a b, R a b → keep a = keep' b) →
      rel R (left.filter keep) (right.filter keep')
  join :
    ∀ {α β γ δ ε ζ : Type} {R : α → β → Prop} {S : γ → δ → Prop}
      {T : ε → ζ → Prop}
      {left : List α} {left' : List β}
      {right : List γ} {right' : List δ}
      (keepLeft keepRight : Bool)
      {cond : α → γ → Bool} {cond' : β → δ → Bool}
      {both : α → γ → ε} {both' : β → δ → ζ}
      {leftOnly : α → ε} {leftOnly' : β → ζ}
      {rightOnly : γ → ε} {rightOnly' : δ → ζ},
      rel R left left' →
      rel S right right' →
      (∀ a b c d, R a b → S c d → cond a c = cond' b d) →
      (∀ a b c d, R a b → S c d → T (both a c) (both' b d)) →
      (∀ a b, R a b → T (leftOnly a) (leftOnly' b)) →
      (∀ c d, S c d → T (rightOnly c) (rightOnly' d)) →
      rel T
        (joinWith keepLeft keepRight cond both leftOnly rightOnly left right)
        (joinWith keepLeft keepRight cond' both' leftOnly' rightOnly' left' right')
  cross :
    ∀ {α β γ δ ε ζ : Type} {R : α → β → Prop} {S : γ → δ → Prop}
      {T : ε → ζ → Prop}
      {left : List α} {left' : List β}
      {right : List γ} {right' : List δ}
      {both : α → γ → ε} {both' : β → δ → ζ},
      rel R left left' →
      rel S right right' →
      (∀ a b c d, R a b → S c d → T (both a c) (both' b d)) →
      rel T (crossWith both left right) (crossWith both' left' right')

/-- Every row of the first list has a related row in the second one. -/
def Covers (R : α → β → Prop) (left : List α) (right : List β) : Prop :=
  ∀ a ∈ left, ∃ b ∈ right, R a b

/-- Every row of either list has a related row in the other one. -/
def SameUpTo (R : α → β → Prop) (left : List α) (right : List β) : Prop :=
  Covers R left right ∧ Covers (flip R) right left

/-- The lists are related row by row up to the order of the rows. -/
def BagRel (R : α → β → Prop) (left : List α) (right : List β) : Prop :=
  ∃ middle, left.Perm middle ∧ List.Forall₂ R middle right

section Outer

variable
  {keepLeft keepRight : Bool}
  {left : List α}
  {left' : List β}
  {right : List γ}
  {right' : List δ}

/--
An outer join keeps a row exactly when it has no partner, so covering its
results needs the inputs to be related in both directions.
-/
theorem covers_joinWith {R : α → β → Prop} {S : γ → δ → Prop} {T : ε → ζ → Prop}
    {cond : α → γ → Bool} {cond' : β → δ → Bool} {both : α → γ → ε} {both' : β → δ → ζ}
    {leftOnly : α → ε} {leftOnly' : β → ζ} {rightOnly : γ → ε} {rightOnly' : δ → ζ}
    (leftRelated : SameUpTo R left left') (rightRelated : SameUpTo S right right')
    (condAgree : ∀ a b c d, R a b → S c d → cond a c = cond' b d)
    (bothRelated : ∀ a b c d, R a b → S c d → T (both a c) (both' b d))
    (leftOnlyRelated : ∀ a b, R a b → T (leftOnly a) (leftOnly' b))
    (rightOnlyRelated : ∀ c d, S c d → T (rightOnly c) (rightOnly' d)) :
    Covers T
      (joinWith keepLeft keepRight cond both leftOnly rightOnly left right)
      (joinWith keepLeft keepRight cond' both' leftOnly' rightOnly' left' right') := by
  intro result member
  rcases mem_joinWith.1 member with
    ⟨a, aIn, c, cIn, holds, rfl⟩ | ⟨kept, a, aIn, alone, rfl⟩ |
      ⟨kept, c, cIn, alone, rfl⟩
  · rcases leftRelated.1 a aIn with ⟨b, bIn, relatedLeft⟩
    rcases rightRelated.1 c cIn with ⟨d, dIn, relatedRight⟩
    rw [condAgree a b c d relatedLeft relatedRight] at holds
    exact ⟨both' b d, mem_joinWith.2 (.inl ⟨b, bIn, d, dIn, holds, rfl⟩),
      bothRelated a b c d relatedLeft relatedRight⟩
  · rcases leftRelated.1 a aIn with ⟨b, bIn, relatedLeft⟩
    have aloneToo : ∀ d ∈ right', cond' b d = false := by
      intro d dIn
      rcases rightRelated.2 d dIn with ⟨c, cIn, relatedRight⟩
      rw [← condAgree a b c d relatedLeft relatedRight]
      exact alone c cIn
    exact ⟨leftOnly' b, mem_joinWith.2 (.inr (.inl ⟨kept, b, bIn, aloneToo, rfl⟩)),
      leftOnlyRelated a b relatedLeft⟩
  · rcases rightRelated.1 c cIn with ⟨d, dIn, relatedRight⟩
    have aloneToo : ∀ b ∈ left', cond' b d = false := by
      intro b bIn
      rcases leftRelated.2 b bIn with ⟨a, aIn, relatedLeft⟩
      rw [← condAgree a b c d relatedLeft relatedRight]
      exact alone a aIn
    exact ⟨rightOnly' d, mem_joinWith.2 (.inr (.inr ⟨kept, d, dIn, aloneToo, rfl⟩)),
      rightOnlyRelated c d relatedRight⟩

theorem covers_crossWith {R : α → β → Prop} {S : γ → δ → Prop} {T : ε → ζ → Prop} {both : α → γ → ε}
    {both' : β → δ → ζ} (leftRelated : Covers R left left') (rightRelated : Covers S right right')
    (bothRelated : ∀ a b c d, R a b → S c d → T (both a c) (both' b d)) :
    Covers T (crossWith both left right) (crossWith both' left' right') := by
  intro result member
  rcases mem_crossWith.1 member with ⟨a, aIn, c, cIn, rfl⟩
  rcases leftRelated a aIn with ⟨b, bIn, relatedLeft⟩
  rcases rightRelated c cIn with ⟨d, dIn, relatedRight⟩
  exact ⟨both' b d, mem_crossWith.2 ⟨b, bIn, d, dIn, rfl⟩,
    bothRelated a b c d relatedLeft relatedRight⟩

end Outer

theorem Covers.map {R : α → β → Prop} {S : γ → δ → Prop} {left : List α} {right : List β}
    {f : α → γ} {g : β → δ} (related : Covers R left right)
    (mapped : ∀ a ∈ left, ∀ b ∈ right, R a b → S (f a) (g b)) :
    Covers S (left.map f) (right.map g) := by
  intro result member
  rcases List.mem_map.1 member with ⟨a, aIn, rfl⟩
  rcases related a aIn with ⟨b, bIn, relatedRows⟩
  exact ⟨g b, List.mem_map_of_mem bIn, mapped a aIn b bIn relatedRows⟩

theorem Covers.filter {R : α → β → Prop} {left : List α} {right : List β} {keep : α → Bool}
    {keep' : β → Bool} (related : Covers R left right) (agree : ∀ a b, R a b → keep a = keep' b) :
    Covers R (left.filter keep) (right.filter keep') := by
  intro a member
  rcases List.mem_filter.1 member with ⟨aIn, kept⟩
  rcases related a aIn with ⟨b, bIn, relatedRows⟩
  rw [agree a b relatedRows] at kept
  exact ⟨b, List.mem_filter.2 ⟨bIn, kept⟩, relatedRows⟩

theorem Covers.perm {R : α → β → Prop} {left left' : List α} {right right' : List β}
    (related : Covers R left right) (leftPerm : left.Perm left') (rightPerm : right.Perm right') :
    Covers R left' right' := by
  intro a member
  rcases related a (leftPerm.mem_iff.2 member) with ⟨b, bIn, relatedRows⟩
  exact ⟨b, rightPerm.mem_iff.1 bIn, relatedRows⟩

theorem SameUpTo.symm {R : α → β → Prop} {left : List α} {right : List β}
    (related : SameUpTo R left right) :
    SameUpTo (flip R) right left :=
  ⟨related.2, related.1⟩

/-- Comparison of collections without multiplicities. -/
def Lifting.set : Lifting where
  rel := SameUpTo
  ofEq _ := ⟨fun row member => ⟨row, member, rfl⟩, fun row member => ⟨row, member, rfl⟩⟩
  perm related leftPerm rightPerm :=
    ⟨related.1.perm leftPerm rightPerm, related.2.perm rightPerm leftPerm⟩
  map related mapped := ⟨related.1.map mapped, related.2.map fun b bIn a aIn => mapped a aIn b bIn⟩
  filter related agree :=
    ⟨related.1.filter agree, related.2.filter fun b a relatedRows => (agree a b relatedRows).symm⟩
  join _ _ _ _ _ _ _ _ _ _ leftRelated rightRelated condAgree bothRelated
      leftOnlyRelated rightOnlyRelated :=
    ⟨covers_joinWith leftRelated rightRelated condAgree bothRelated
        leftOnlyRelated rightOnlyRelated,
      covers_joinWith leftRelated.symm rightRelated.symm
        (fun b a d c relatedLeft relatedRight =>
          (condAgree a b c d relatedLeft relatedRight).symm)
        (fun b a d c => bothRelated a b c d)
        (fun b a => leftOnlyRelated a b)
        (fun d c => rightOnlyRelated c d)⟩
  cross leftRelated rightRelated bothRelated :=
    ⟨covers_crossWith leftRelated.1 rightRelated.1 bothRelated,
      covers_crossWith leftRelated.2 rightRelated.2 fun b a d c => bothRelated a b c d⟩

/-- Pointwise related lists, with the rows' membership at hand. -/
theorem forall₂_mem {R : α → β → Prop} {left : List α} {right : List β}
    (related : List.Forall₂ R left right) :
    List.Forall₂ (fun a b => a ∈ left ∧ b ∈ right ∧ R a b) left right := by
  induction related with
  | nil => exact .nil
  | cons head _ ih =>
    refine .cons ⟨by simp, by simp, head⟩ ?_
    exact ih.imp fun a b found =>
      ⟨List.mem_cons_of_mem _ found.1, List.mem_cons_of_mem _ found.2.1, found.2.2⟩

theorem forall₂_map_of_mem {R : α → β → Prop} {S : γ → δ → Prop} {left : List α} {right : List β}
    {f : α → γ} {g : β → δ} (related : List.Forall₂ R left right)
    (mapped : ∀ a ∈ left, ∀ b ∈ right, R a b → S (f a) (g b)) :
    List.Forall₂ S (left.map f) (right.map g) :=
  List.rel_map (fun a b found => mapped a found.1 b found.2.1 found.2.2) (forall₂_mem related)

/-- Comparison of collections with multiplicities. -/
def Lifting.bag : Lifting where
  rel := BagRel
  ofEq rows := ⟨rows, .refl _, List.forall₂_refl rows⟩
  perm := by
    rintro _ _ _ left left' right right' ⟨middle, permuted, related⟩ leftPerm rightPerm
    have composed : Relation.Comp (List.Forall₂ _) List.Perm middle right' :=
      ⟨right, related, rightPerm⟩
    rw [List.forall₂_comp_perm_eq_perm_comp_forall₂] at composed
    rcases composed with ⟨middle', permuted', related'⟩
    exact ⟨middle', (leftPerm.symm.trans permuted).trans permuted', related'⟩
  map := by
    rintro _ _ _ _ _ _ left right f g ⟨middle, permuted, related⟩ mapped
    exact ⟨middle.map f, permuted.map f, forall₂_map_of_mem related
      fun a aIn => mapped a (permuted.mem_iff.2 aIn)⟩
  filter := by
    rintro _ _ _ left right keep keep' ⟨middle, permuted, related⟩ agree
    exact ⟨middle.filter keep, permuted.filter keep,
      List.rel_filter
        (fun a b relatedRows =>
          Bool.eq_iff_iff.1 (agree a b relatedRows))
        related⟩
  join := by
    rintro _ _ _ _ _ _ _ _ _ _ _ _ _ keepLeft keepRight cond _ both _
      leftOnly _ rightOnly _ ⟨middle, permuted, related⟩
      ⟨middle', permuted', related'⟩ condAgree bothRelated
      leftOnlyRelated rightOnlyRelated
    exact ⟨joinWith keepLeft keepRight cond both leftOnly rightOnly
        middle middle', joinWith_perm permuted permuted',
      forall₂_joinWith related related' condAgree bothRelated leftOnlyRelated rightOnlyRelated⟩
  cross := by
    rintro _ _ _ _ _ _ _ _ _ _ _ _ _ both _ ⟨middle, permuted, related⟩
      ⟨middle', permuted', related'⟩ bothRelated
    exact ⟨crossWith both middle middle', crossWith_perm permuted permuted',
      forall₂_crossWith related related' bothRelated⟩

theorem Lifting.mono (lift : Lifting) {R S : α → β → Prop} {left : List α} {right : List β}
    (related : lift.rel R left right) (weaker : ∀ a b, R a b → S a b) :
    lift.rel S left right := by
  have mapped := lift.map (S := S) (f := id) (g := id) related fun a _ b _ => weaker a b
  simpa using mapped

/-- Whatever holds with multiplicities holds without them. -/
theorem BagRel.sameUpTo {R : α → β → Prop} {left : List α} {right : List β}
    (related : BagRel R left right) :
    SameUpTo R left right := by
  rcases related with ⟨middle, permuted, pointwise⟩
  constructor
  · intro a member
    rcases List.forall₂_iff_get.1 pointwise with ⟨lengths, rows⟩
    rcases List.mem_iff_get.1 (permuted.mem_iff.1 member) with ⟨i, rfl⟩
    exact ⟨_, List.get_mem right ⟨i, lengths ▸ i.2⟩, rows i i.2 _⟩
  · intro b member
    rcases List.forall₂_iff_get.1 pointwise with ⟨lengths, rows⟩
    rcases List.mem_iff_get.1 member with ⟨i, rfl⟩
    have inside : i.1 < middle.length := by
      rw [lengths]
      exact i.2
    exact ⟨_, permuted.mem_iff.2 (List.get_mem middle ⟨i, inside⟩), rows i inside i.2⟩

/-! ## Sorted lists -/

/--
Two sorted lists with the same elements agree position by position, up to
elements which the order does not tell apart.
-/
theorem forall₂_of_perm_of_pairwise {le : α → α → Prop} (total : ∀ a b, le a b ∨ le b a)
    (trans : ∀ a b c, le a b → le b c → le a c) {left right : List α} (permuted : left.Perm right)
    (leftSorted : left.Pairwise le) (rightSorted : right.Pairwise le) :
    List.Forall₂ (fun a b => le a b ∧ le b a) left right := by
  let _ : Preorder α :=
    { le := le
      le_refl := fun a => (total a a).elim id id
      le_trans := trans }
  have classes :
      left.map (toAntisymmetrization (· ≤ ·)) = right.map (toAntisymmetrization (α := α) (· ≤ ·)) :=
    List.Perm.eq_of_pairwise (fun _ _ _ _ => le_antisymm) (leftSorted.map _ fun _ _ below => below)
      (rightSorted.map _ fun _ _ below => below) (permuted.map _)
  rw [← List.forall₂_eq_eq_eq, List.forall₂_map_left_iff, List.forall₂_map_right_iff] at classes
  exact classes.imp fun a b same => Quotient.exact same

end Relational
