import Ldv.Perm.PairJoin

/-!
# The joins of a set operation

The original set operation is joined with its rewritten inputs one by one.
Each join compares the columns of the original, which are the first alias
columns of every join in the chain, with the columns of the next input.
Building the joins fails exactly if a type of the result columns has no
equality operator.
-/

namespace Ldv.Perm

open Ldv.Sql

section Steps

variable
  {cat : Catalog}
  {query : Query}
  {leftIndex rightIndex : Nat}
  {left right : RTE}

theorem createRTEforJoin_eq (jointype : JoinType)
    (leftPresent : query.rtable[leftIndex]? = some left)
    (rightPresent : query.rtable[rightIndex]? = some right) :
    createRTEforJoin query jointype leftIndex rightIndex =
      some { query with
        rtable := query.rtable ++
          [setJoinRTE jointype (makeRTEVars left leftIndex ++ makeRTEVars right rightIndex)] } := by
  simp [createRTEforJoin, leftPresent, rightPresent, setJoinRTE]

theorem createSetJoinCondition_eq (leftPresent : query.rtable[leftIndex]? = some left)
    (rightPresent : query.rtable[rightIndex]? = some right) (neq : Bool) :
    createSetJoinCondition cat query leftIndex rightIndex neq =
      createEqualityCondition cat
        ((getAttributesForJoin left).take query.targetList.length)
        ((getAttributesForJoin right).take query.targetList.length)
        leftIndex rightIndex neq := by
  simp [createSetJoinCondition, leftPresent, rightPresent]

end Steps

/-! ## Types of the columns of the original -/

/-- The first columns of an entry have the given types. -/
def CarriesTypes (types : List Oid) (rte : RTE) : Prop :=
  ((getAttributesForJoin rte).take types.length).map (fun te => exprType te.expr) = types

theorem makeRTEVars_types (rte : RTE) (rtindex : Nat) :
    (makeRTEVars rte rtindex).map (fun column => exprType column.1) =
      (getAttributesForJoin rte).map fun te => exprType te.expr := by
  unfold makeRTEVars getAttributesForJoin
  split
  · simp [Function.comp_def]
  · simp [Function.comp_def]

theorem getAttributesForJoin_setJoinRTE (jointype : JoinType)
    (columns : List (Expr × Option String)) :
    getAttributesForJoin (setJoinRTE jointype columns) =
      (columns.zipIdx 1).map fun (column, attno) =>
        { expr := column.1, resno := attno, resname := column.2 } := by
  have unzipped :
      (columns.map fun column => column.1).zip (columns.map fun column => column.2) = columns := by
    rw [List.zip_map']
    simp
  simp only [getAttributesForJoin, setJoinRTE, RangeTblEntry.joinaliasvars, unzipped]

/-- A join carries the columns of its left input. -/
theorem CarriesTypes.setJoinRTE {types : List Oid} {left : RTE} (carries : CarriesTypes types left)
    (jointype : JoinType) (leftIndex : Nat) (others : List (Expr × Option String)) :
    CarriesTypes types (setJoinRTE jointype (makeRTEVars left leftIndex ++ others)) := by
  have enough : types.length ≤ (getAttributesForJoin left).length := by
    have count := congrArg List.length carries
    rw [List.length_map, List.length_take] at count
    omega
  have columnTypes :
      (getAttributesForJoin (Perm.setJoinRTE jointype
        (makeRTEVars left leftIndex ++ others))).map (fun te => exprType te.expr) =
        (getAttributesForJoin left).map (fun te => exprType te.expr) ++
          others.map fun column => exprType column.1 := by
    rw [getAttributesForJoin_setJoinRTE, List.map_map,
      ← makeRTEVars_types left leftIndex, ← List.map_append]
    exact map_zipIdx_fst (fun column : Expr × Option String => exprType column.1) _ 1
  rw [CarriesTypes, List.map_take, columnTypes,
    List.take_append_of_le_length (by simpa using enough),
    ← List.map_take]
  exact carries

theorem setPairs_types {types : List Oid} {left right : RTE} (carries : CarriesTypes types left)
    (enough : types.length ≤ (getAttributesForJoin right).length) (leftIndex rightIndex : Nat) :
    (setPairs types.length leftIndex rightIndex left right).map
      (fun pair => exprType pair.1) = types := by
  have count := congrArg List.length carries
  rw [List.length_map, List.length_take] at count
  have firsts :
      (((getAttributesForJoin left).take types.length).zip
        ((getAttributesForJoin right).take types.length)).map Prod.fst =
          (getAttributesForJoin left).take types.length :=
    List.map_fst_zip (by simp; omega)
  rw [setPairs, List.map_map]
  have viaFirst := congrArg (List.map fun te => exprType te.expr) firsts
  rw [List.map_map] at viaFirst
  exact viaFirst.trans carries

/-- Can all of the types be compared? -/
def Comparable (cat : Catalog) (types : List Oid) : Prop :=
  ∀ type ∈ types, (cat.equalityOper type).isSome = true

instance (cat : Catalog) (types : List Oid) :
    Decidable (Comparable cat types) :=
  inferInstanceAs (Decidable (∀ type ∈ types, _))

theorem createEqualityCondition_eq {cat : Catalog} {types : List Oid} {left right : RTE}
    (carries : CarriesTypes types left)
    (enough : types.length ≤ (getAttributesForJoin right).length) (nonempty : types ≠ [])
    (leftIndex rightIndex : Nat) (neq : Bool) :
    createEqualityCondition cat
        ((getAttributesForJoin left).take types.length)
        ((getAttributesForJoin right).take types.length)
        leftIndex rightIndex neq =
      if Comparable cat types then
        some (setCondition types.length leftIndex rightIndex left right neq)
      else
        none := by
  have pairTypes := setPairs_types carries enough leftIndex rightIndex
  have comparable :
      (∀ pair ∈ setPairs types.length leftIndex rightIndex left right,
        (cat.equalityOper (exprType pair.1)).isSome = true) ↔
        Comparable cat types := by
    rw [Comparable, ← pairTypes, List.forall_mem_map, pairTypes]
  have conditions := notDistinctConditions_eq cat
    (setPairs types.length leftIndex rightIndex left right)
  rw [if_congr comparable rfl rfl] at conditions
  rw [createEqualityCondition]
  change (notDistinctConditions cat (setPairs types.length leftIndex
    rightIndex left right) >>= _) = _
  rw [conditions]
  split
  · cases pairs : setPairs types.length leftIndex rightIndex left right with
    | nil =>
      rw [pairs] at pairTypes
      exact absurd pairTypes.symm nonempty
    | cons pair rest =>
      cases neq <;> simp [setCondition, pairs, createAndFromList]
  · rfl

/-! ## The chain of joins -/

theorem getElem?_append_of_eq_some {rtable : List RTE} {position : Nat} {rte : RTE}
    (present : rtable[position]? = some rte) (appended : List RTE) :
    (rtable ++ appended)[position]? = some rte :=
  (List.getElem?_append_left (List.getElem?_eq_some_iff.mp present).1).trans present

section Chain

variable
  {cat : Catalog}
  {types : List Oid}

/-- The entries from which a join can be built. -/
structure Joinable (types : List Oid) (query : Query) (leftIndex : Nat)
    (left : RTE) (rightIndex : Nat) (right : RTE) :
    Prop where
  width : query.targetList.length = types.length
  leftPresent : query.rtable[leftIndex]? = some left
  rightPresent : query.rtable[rightIndex]? = some right
  carries : CarriesTypes types left
  enough : types.length ≤ (getAttributesForJoin right).length

theorem Joinable.condition_eq (cat : Catalog) {query : Query} {leftIndex rightIndex : Nat}
    {left right : RTE} (joinable : Joinable types query leftIndex left rightIndex right)
    (nonempty : types ≠ []) (neq : Bool) (appended : List RTE) :
    createSetJoinCondition cat
        { query with rtable := query.rtable ++ appended }
        leftIndex rightIndex neq =
      if Comparable cat types then
        some (setCondition types.length leftIndex rightIndex left right neq)
      else
        none := by
  rw [createSetJoinCondition_eq (getElem?_append_of_eq_some joinable.leftPresent appended)
    (getElem?_append_of_eq_some joinable.rightPresent appended)]
  simp only [joinable.width]
  exact createEqualityCondition_eq joinable.carries joinable.enough
    nonempty leftIndex rightIndex neq

theorem joinFurtherInputs_eq (jointype : JoinType) (nonempty : types ≠ [])
    (comparable : Comparable cat types) (items : List (RTE × Nat)) {lastIndex : Nat} {last : RTE}
    {query : Query} (node : JoinTreeNode) (width : query.targetList.length = types.length)
    (atEnd : query.rtable.length = lastIndex + 1)
    (lastPresent : query.rtable[lastIndex]? = some last) (carries : CarriesTypes types last)
    (inputs :
      ∀ item ∈ items, query.rtable[item.2]? = some item.1 ∧
        types.length ≤ (getAttributesForJoin item.1).length) :
    joinFurtherInputs cat jointype (items.map Prod.snd) lastIndex query
        node =
      some ({ query with
          rtable := query.rtable ++
            (chainJoins jointype types.length items lastIndex last node).1 },
        (chainJoins jointype types.length items lastIndex last node).2) := by
  induction items generalizing lastIndex last query node with
  | nil =>
    simp only [List.map_nil, joinFurtherInputs, chainJoins, List.append_nil]
    cases query
    rfl
  | cons item rest ih =>
    rcases item with ⟨input, index⟩
    rcases inputs (input, index) (by simp) with ⟨present, enough⟩
    have joinable : Joinable types query lastIndex last index input :=
      ⟨width, lastPresent, present, carries, enough⟩
    have condition := joinable.condition_eq cat nonempty false
      [setJoinRTE jointype (makeRTEVars last lastIndex ++ makeRTEVars input index)]
    rw [if_pos comparable] at condition
    rw [List.map_cons, joinFurtherInputs, createRTEforJoin_eq jointype lastPresent present]
    simp only [Option.bind_eq_bind, Option.bind_some, condition]
    rw [@ih (lastIndex + 1)
      (setJoinRTE jointype (makeRTEVars last lastIndex ++ makeRTEVars input index))]
    · simp [chainJoins]
    · exact width
    · simp [atEnd]
    · rw [← atEnd]
      simp
    · exact carries.setJoinRTE jointype lastIndex _
    · intro item member
      rcases inputs item (by simp [member]) with ⟨present', enough'⟩
      exact ⟨getElem?_append_of_eq_some present' _, enough'⟩

theorem createInputJoins_eq (jointype : JoinType) (nonempty : types ≠ []) {query : Query}
    {original first : RTE} {rest : List RTE} (rtable : query.rtable = original :: first :: rest)
    (width : query.targetList.length = types.length) (carries : CarriesTypes types original)
    (enough : ∀ input ∈ first :: rest, types.length ≤ (getAttributesForJoin input).length) :
    createInputJoins cat query jointype =
      if Comparable cat types then
        some { query with
          rtable := query.rtable ++ (inputJoins jointype types.length original (first :: rest)).1
          fromlist := [(inputJoins jointype types.length original (first :: rest)).2] }
      else
        none := by
  have originalPresent : query.rtable[0]? = some original := by
    simp [rtable]
  have firstPresent : query.rtable[1]? = some first := by
    simp [rtable]
  have count : query.rtable.length = rest.length + 2 := by
    simp [rtable]
  have joinable : Joinable types query 0 original 1 first :=
    ⟨width, originalPresent, firstPresent, carries, enough first (by simp)⟩
  have condition := joinable.condition_eq cat nonempty false
    [setJoinRTE jointype (makeRTEVars original 0 ++ makeRTEVars first 1)]
  rw [createInputJoins, createRTEforJoin_eq jointype originalPresent firstPresent]
  simp only [Option.bind_eq_bind, Option.bind_some, condition]
  split
  · next comparable =>
      have positions : List.range' 2 (query.rtable.length - 2) = (rest.zipIdx 2).map Prod.snd := by
        simp [count]
      rw [positions]
      simp only [Option.bind_some]
      rw [@joinFurtherInputs_eq cat types jointype nonempty comparable
        (rest.zipIdx 2) query.rtable.length
        (setJoinRTE jointype (makeRTEVars original 0 ++ makeRTEVars first 1))]
      · simp [inputJoins, count]
      · exact width
      · simp
      · simp
      · exact carries.setJoinRTE jointype 0 _
      · rintro ⟨input, index⟩ member
        rw [List.mem_zipIdx_iff_le_and_getElem?_sub] at member
        rcases member with ⟨bound, present⟩
        refine ⟨?_, enough input (by
          simp [List.mem_of_getElem? present])⟩
        apply getElem?_append_of_eq_some
        obtain ⟨position, rfl⟩ : ∃ position, index = position + 2 :=
          ⟨index - 2, by simp only [] at bound; omega⟩
        simpa [rtable] using present
  · rfl

theorem createSetDiffJoin_eq (nonempty : types ≠ []) {query : Query} {original left right : RTE}
    {all : Bool} (rtable : query.rtable = [original, left, right])
    (isAll : originalIsAll query = some all) (width : query.targetList.length = types.length)
    (carries : CarriesTypes types original)
    (leftEnough : types.length ≤ (getAttributesForJoin left).length)
    (rightEnough : types.length ≤ (getAttributesForJoin right).length) :
    createSetDiffJoin cat query =
      if Comparable cat types then
        some { query with
          rtable := query.rtable ++ (differenceJoins all types.length original left right).1
          fromlist := [(differenceJoins all types.length original left right).2] }
      else
        none := by
  have originalPresent : query.rtable[0]? = some original := by
    simp [rtable]
  have leftPresent : query.rtable[1]? = some left := by
    simp [rtable]
  have joinable : Joinable types query 0 original 1 left :=
    ⟨width, originalPresent, leftPresent, carries, leftEnough⟩
  have condition := joinable.condition_eq cat nonempty false
    [setJoinRTE .inner (makeRTEVars original 0 ++ makeRTEVars left 1)]
  rw [createSetDiffJoin, isAll]
  simp only [Option.bind_eq_bind, Option.bind_some]
  rw [createRTEforJoin_eq .inner originalPresent leftPresent]
  simp only [Option.bind_some, condition]
  split
  · next comparable =>
      let inner := setJoinRTE .inner (makeRTEVars original 0 ++ makeRTEVars left 1)
      let joined : Query := { query with rtable := query.rtable ++ [inner] }
      have innerPresent : joined.rtable[3]? = some inner := by
        simp [joined, rtable]
      have rightPresent : joined.rtable[2]? = some right := by
        simp [joined, rtable]
      have outerJoinable : Joinable types joined 3 inner 2 right :=
        ⟨width, innerPresent, rightPresent, carries.setJoinRTE .inner 0 _, rightEnough⟩
      have outer := createRTEforJoin_eq .left innerPresent rightPresent
      have outerCondition := outerJoinable.condition_eq cat nonempty true
        [setJoinRTE .left (makeRTEVars inner 3 ++ makeRTEVars right 2)]
      rw [if_pos comparable] at outerCondition
      simp only [Option.bind_some]
      change (createRTEforJoin joined .left 3 2 >>= _) = _
      rw [outer]
      cases all with
      | true =>
        simp only [if_true, Option.bind_eq_bind, Option.bind_some, outerCondition]
        simp [differenceJoins, joined, inner, rtable]
      | false =>
        simp [differenceJoins, joined, inner, rtable]
  · rfl

/-- Building the joins of a set operation. -/
theorem createJoinsForSetOp_eq (cat : Catalog) (nonempty : types ≠ []) {query : Query}
    {op : SetOperation} {original first second : RTE} {rest : List RTE} {all : Bool}
    (rtable : query.rtable = original :: first :: second :: rest) (pair : op = .except → rest = [])
    (isAll : originalIsAll query = some all) (width : query.targetList.length = types.length)
    (carries : CarriesTypes types original)
    (enough :
      ∀ input ∈ first :: second :: rest, types.length ≤ (getAttributesForJoin input).length) :
    createJoinsForSetOp cat query op =
      if Comparable cat types then
        some { query with
          rtable := query.rtable ++
            (setJoins op all types.length original (first :: second :: rest)).1
          fromlist := [(setJoins op all types.length original (first :: second :: rest)).2] }
      else
        none := by
  cases op with
  | union =>
    exact createInputJoins_eq .left nonempty rtable width carries enough
  | intersect =>
    exact createInputJoins_eq .inner nonempty rtable width carries enough
  | except =>
    cases pair rfl
    exact createSetDiffJoin_eq nonempty rtable isAll width carries
      (enough first (by simp)) (enough second (by simp))

end Chain

theorem eq_setJoinRTE_of_mem_chainJoins {jointype : JoinType} {width : Nat}
    {items : List (RTE × Nat)} {lastIndex : Nat} {last rte : RTE} {node : JoinTreeNode}
    (member : rte ∈ (chainJoins jointype width items lastIndex last node).1) :
    ∃ jointype columns, rte = setJoinRTE jointype columns := by
  induction items generalizing lastIndex last node with
  | nil => simp [chainJoins] at member
  | cons item rest ih =>
    rcases List.mem_cons.mp member with rfl | member
    · exact ⟨_, _, rfl⟩
    · exact ih member

/-- The entries added to a set operation are entries of joins. -/
theorem eq_setJoinRTE_of_mem_setJoins {op : SetOperation} {all : Bool} {width : Nat}
    {original rte : RTE} {inputs : List RTE}
    (member : rte ∈ (setJoins op all width original inputs).1) :
    ∃ jointype columns, rte = setJoinRTE jointype columns := by
  have fromInputs {jointype : JoinType}
      (member : rte ∈ (inputJoins jointype width original inputs).1) :
      ∃ jointype columns, rte = setJoinRTE jointype columns := by
    cases inputs with
    | nil => simp [inputJoins] at member
    | cons first rest =>
      rcases List.mem_cons.mp member with rfl | member
      · exact ⟨_, _, rfl⟩
      · exact eq_setJoinRTE_of_mem_chainJoins member
  unfold setJoins at member
  split at member
  · rcases List.mem_cons.mp member with rfl | member
    · exact ⟨_, _, rfl⟩
    · exact ⟨_, _, List.mem_singleton.mp member⟩
  · exact fromInputs member
  · exact fromInputs member

end Ldv.Perm
