import Ldv.Perm.JoinChain
import Ldv.Perm.Conditions

/-!
# Rows of a chain of joins

A combination of a chain consists of a row of the original and, for each
link independently, of a matching row of its input, or of no row if there is
none and the join keeps rows without partner.
-/

namespace Ldv.Perm

open Ldv.Sql
open Relational

/-! ## Conditions of links -/

/-- Does a row of an input match a row of the original? -/
def Matches (width : Nat) : Matching → Row → Row → Prop
  | .equal, row, partner => RowSim width row partner
  | .different, row, partner => ¬ RowSim width row partner
  | .any, _, _ => True

instance (width : Nat) (left right : Row) :
    Decidable (RowSim width left right) :=
  inferInstanceAs (Decidable (_ = _))

instance (width : Nat) (matching : Matching) (row partner : Row) :
    Decidable (Matches width matching row partner) :=
  match matching with
  | .equal => inferInstanceAs (Decidable (RowSim width row partner))
  | .different => inferInstanceAs (Decidable (¬ RowSim width row partner))
  | .any => inferInstanceAs (Decidable True)

/-- The row which a link adds to a row of the original. -/
def Chosen (width : Nat) (link : Link) (row : Row) (rows : List Row)
    (choice : Option Row) :
    Prop :=
  (∃ partner ∈ rows, Matches width link.matching row partner ∧ choice = some partner) ∨
  (link.jointype.keepsLeft = true ∧
    (∀ partner ∈ rows, ¬ Matches width link.matching row partner) ∧
    choice = none)

/-- The compared columns of two entries with numbered columns. -/
theorem setPairs_eq {width : Nat} (leftIndex rightIndex : Nat) {left right : RTE}
    (leftNumbered : Numbered left) (rightNumbered : Numbered right)
    (leftWide : width ≤ columnCount left) (rightWide : width ≤ columnCount right) (inst : Instance)
    (lookup : Lookup) :
    (setPairs width leftIndex rightIndex left right).map
        (fun pair =>
          (pair.1.eval inst lookup [], pair.2.eval inst lookup [])) =
      (List.range' 1 width).map fun attno =>
        (lookup (leftIndex + 1) attno, lookup (rightIndex + 1) attno) := by
  rw [columnCount] at leftWide rightWide
  apply List.ext_getElem
  · simp [setPairs, leftWide, rightWide]
  · intro position bound bound'
    have inside : position < width := by simpa using bound'
    have leftResno := leftNumbered.resno_eq (List.getElem?_eq_getElem
      (show position < _ from Nat.lt_of_lt_of_le inside leftWide))
    have rightResno := rightNumbered.resno_eq (List.getElem?_eq_getElem
      (show position < _ from Nat.lt_of_lt_of_le inside rightWide))
    simp [setPairs, Expr.eval, leftResno, rightResno, Nat.add_comm]

theorem allEqual_setPairs_iff {width leftIndex rightIndex : Nat} {left right : RTE}
    (leftNumbered : Numbered left) (rightNumbered : Numbered right)
    (leftWide : width ≤ columnCount left) (rightWide : width ≤ columnCount right) (inst : Instance)
    (lookup : Lookup) :
    AllEqual inst lookup (setPairs width leftIndex rightIndex left right) ↔
      ∀ attno, FirstColumns width attno →
        lookup (leftIndex + 1) attno = lookup (rightIndex + 1) attno := by
  have values := setPairs_eq leftIndex rightIndex leftNumbered
    rightNumbered leftWide rightWide inst lookup
  have mapped :
      AllEqual inst lookup (setPairs width leftIndex rightIndex left right) ↔
        ∀ value ∈ (setPairs width leftIndex rightIndex left right).map
          (fun pair =>
            (pair.1.eval inst lookup [], pair.2.eval inst lookup [])),
          value.1 = value.2 := by
    rw [List.forall_mem_map]
    rfl
  rw [mapped, values, List.forall_mem_map]
  refine forall_congr' fun attno => ?_
  rw [List.mem_range'_1, FirstColumns]
  constructor <;> intro holds inside <;> exact holds (by omega)

/-- The join condition of a link compares the rows of its two inputs. -/
theorem passes_linkQuals_iff {width leftIndex rightIndex : Nat} {left right : RTE}
    (nonempty : width ≠ 0) (leftNumbered : Numbered left) (rightNumbered : Numbered right)
    (leftWide : width ≤ columnCount left) (rightWide : width ≤ columnCount right) (inst : Instance)
    {lookup : Lookup} {row partner : Row} (rowLong : width ≤ row.length)
    (partnerLong : width ≤ partner.length)
    (leftValues :
      ∀ attno, FirstColumns width attno → lookup (leftIndex + 1) attno = row.column attno)
    (rightValues : ∀ attno, lookup (rightIndex + 1) attno = partner.column attno)
    (matching : Matching) :
    passes inst lookup []
        (linkQuals width leftIndex rightIndex left right matching) = true ↔
      Matches width matching row partner := by
  have pairs : setPairs width leftIndex rightIndex left right ≠ [] := by
    apply List.ne_nil_of_length_pos
    rw [columnCount] at leftWide rightWide
    simp [setPairs]
    omega
  have equal :
      AllEqual inst lookup (setPairs width leftIndex rightIndex left right) ↔
        RowSim width row partner := by
    rw [allEqual_setPairs_iff leftNumbered rightNumbered leftWide
      rightWide, rowSim_iff_columns rowLong partnerLong]
    refine forall₂_congr fun attno column => ?_
    rw [leftValues attno column, rightValues attno]
  cases matching with
  | equal =>
    rw [linkQuals, passes_setCondition_iff inst lookup pairs]
    exact equal
  | different =>
    rw [linkQuals, passes_setCondition_iff inst lookup pairs]
    exact not_congr equal
  | any => simp [linkQuals, passes, Expr.eval, Matches]

/-! ## Combinations of a chain -/

section Chain

variable
  {rtable : List RTE}
  {width : Nat}
  {links : List Link}
  {node : JoinTreeNode}

/-- All entries of the chain have the columns of the original. -/
structure ChainOk (inst : Instance) (rtable : List RTE) (width : Nat)
    (links : List Link) (node : JoinTreeNode) :
    Prop where
  nonempty : width ≠ 0
  numbered : LeavesNumbered rtable node
  wide : ∀ rtindex ∈ node.leaves, ∀ rte, rtFetch rtable rtindex = some rte → width ≤ columnCount rte
  long : ∀ rtindex ∈ node.leaves, ∀ row ∈ inputRows inst rtable rtindex, width ≤ row.length
  keeps : ∀ link ∈ links, link.jointype.keepsRight = false

/-- The entry of the chain itself has the columns of the original. -/
theorem JoinChain.wide (chain : JoinChain rtable width links node)
    (leaves :
      ∀ rtindex ∈ node.leaves, ∀ rte, rtFetch rtable rtindex = some rte → width ≤ columnCount rte)
    {rte : RTE} (present : rtFetch rtable node.rtindex = some rte) :
    width ≤ columnCount rte := by
  induction chain generalizing rte with
  | start => exact leaves 1 (by simp [JoinTreeNode.leaves]) rte present
  | @link links node link rtindex left right chain leftPresent
      rightPresent join freshInput freshJoin distinct
      ih =>
      rw [JoinTreeNode.rtindex, join] at present
      cases present
      have below := ih
        (fun other inside => leaves other (by simp [JoinTreeNode.leaves, inside])) leftPresent
      rw [columnCount, getAttributesForJoin_setJoinRTE]
      simp only [List.length_map, List.length_zipIdx, List.length_append, makeRTEVars_eq]
      exact Nat.le_add_right_of_le below

theorem ChainOk.below {inst : Instance} {link : Link} {jointype : JoinType} {rtindex : Nat}
    {rarg : JoinTreeNode} {quals : Option Expr}
    (ok :
      ChainOk inst rtable width (links ++ [link])
        (.joinExpr jointype rtindex node rarg quals)) :
    ChainOk inst rtable width links node where
  nonempty := ok.nonempty
  numbered other inside := ok.numbered other (by simp [JoinTreeNode.leaves, inside])
  wide other inside := ok.wide other (by simp [JoinTreeNode.leaves, inside])
  long other inside := ok.long other (by simp [JoinTreeNode.leaves, inside])
  keeps other member := ok.keeps other (by simp [member])

theorem JoinChain.one_mem (chain : JoinChain rtable width links node) :
    1 ∈ node.rtindexes :=
  node.leaves_subset (by simp [chain.leaves_eq])

theorem JoinChain.input_mem (chain : JoinChain rtable width links node) {link : Link}
    (member : link ∈ links) :
    link.input ∈ node.rtindexes := by
  apply node.leaves_subset
  rw [chain.leaves_eq]
  exact List.mem_cons_of_mem _ (List.mem_map_of_mem member)

/-- The chain shows the columns of the original. -/
theorem JoinChain.lookup_original {inst : Instance} (chain : JoinChain rtable width links node)
    (ok : ChainOk inst rtable width links node) {env : Env}
    (member : env ∈ node.eval inst (aliasvarsAt rtable) (inputRows inst rtable))
    {attno : Nat} (column : FirstColumns width attno) :
    env.lookup node.rtindex attno = env.lookup 1 attno := by
  induction chain generalizing env with
  | start => rfl
  | @link links node link rtindex left right chain leftPresent
      rightPresent join freshInput freshJoin distinct
      ih =>
      rw [JoinTreeNode.eval] at member
      rcases List.mem_map.mp member with ⟨merged, isMerged, rfl⟩
      have wide := chain.wide ok.below.wide leftPresent
      have inside : FirstColumns (columnCount left) attno := ⟨column.1, Nat.le_trans column.2 wide⟩
      rcases (chain.numbered ok.below.numbered
        leftPresent).getElem?_makeRTEVars (node.rtindex - 1) inside with
        ⟨vartype, name, found⟩
      have positive := (rtFetch_eq_some_iff.mp leftPresent).1
      rw [Nat.sub_add_cancel positive] at found
      have atPosition :
          (aliasvarsAt rtable rtindex)[attno - 1]? = some (.var node.rtindex attno vartype) := by
        rw [aliasvarsAt_of_setJoinRTE join, List.map_append,
          List.getElem?_append_left (by
            have bound := (List.getElem?_eq_some_iff.mp found).1
            simpa using bound), List.getElem?_map, found]
        rfl
      have notOne : (1 : Nat) ≠ rtindex := by
        rintro rfl
        exact freshJoin chain.one_mem
      have unchanged :
          (merged.setJoin inst (aliasvarsAt rtable rtindex)
            rtindex).lookup 1 attno = merged.lookup 1 attno :=
        Env.lookup_congr (by simp [Env.setJoin, Env.set, notOne]) attno
      have disjoint :
          ∀ other ∈ node.rtindexes, other ∉ (JoinTreeNode.rangeTblRef link.input).rtindexes := by
        intro other inside same
        rw [JoinTreeNode.rtindexes, List.mem_singleton] at same
        exact freshInput (same ▸ inside)
      have restricts := (restrictsTo_of_mem_joinWith disjoint isMerged).1
      rw [JoinTreeNode.rtindex, Env.lookup_setJoin inst atPosition, unchanged]
      exact restricts.lookup_eq node.rtindex_mem chain.one_mem fun env isEnv => ih ok.below isEnv

section Step

variable
  {inst : Instance}
  {link : Link}
  {rtindex : Nat}
  {left right : RTE}

/-- Whether a combination is extended depends on its row only. -/
theorem JoinChain.passes_iff (chain : JoinChain rtable width links node)
    (leftPresent : rtFetch rtable node.rtindex = some left)
    (rightPresent : rtFetch rtable link.input = some right)
    (freshInput : link.input ∉ node.rtindexes) {quals : Option Expr}
    (ok :
      ChainOk inst rtable width (links ++ [link])
        (.joinExpr link.jointype rtindex node (.rangeTblRef link.input) quals))
    {base : Env}
    (isBase : base ∈ node.eval inst (aliasvarsAt rtable) (inputRows inst rtable))
    {row partner : Row} (atOne : base 1 = some row) (isRow : row ∈ inputRows inst rtable 1)
    (isPartner : partner ∈ inputRows inst rtable link.input) :
    passes inst (base.merge (Env.single link.input partner)).lookup []
        (linkQuals width (node.rtindex - 1) (link.input - 1) left right link.matching) = true ↔
      Matches width link.matching row partner := by
  have inLeaves :
      link.input ∈ (JoinTreeNode.joinExpr link.jointype rtindex node
        (.rangeTblRef link.input) quals).leaves := by
    simp [JoinTreeNode.leaves]
  have leftPositive := (rtFetch_eq_some_iff.mp leftPresent).1
  have rightPositive := (rtFetch_eq_some_iff.mp rightPresent).1
  refine passes_linkQuals_iff ok.nonempty (chain.numbered ok.below.numbered leftPresent)
    (ok.numbered link.input inLeaves right rightPresent) (chain.wide ok.below.wide leftPresent)
    (ok.wide link.input inLeaves right rightPresent) inst
    (ok.below.long 1 (by simp [chain.leaves_eq]) row isRow)
    (ok.long link.input inLeaves partner isPartner) ?_ ?_ link.matching
  · intro attno column
    have notInput : node.rtindex ≠ link.input := by
      intro same
      exact freshInput (same ▸ node.rtindex_mem)
    have unmerged :
        (base.merge (Env.single link.input partner)).lookup node.rtindex
          attno = base.lookup node.rtindex attno :=
      Env.lookup_congr (by simp [Env.merge, Env.single, notInput]) attno
    rw [Nat.sub_add_cancel leftPositive, unmerged,
      chain.lookup_original ok.below isBase column, Env.lookup, atOne]
  · intro attno
    have absent := JoinTreeNode.eval_eq_none isBase freshInput
    rw [Nat.sub_add_cancel rightPositive]
    simp [Env.lookup, Env.merge, Env.single, absent]

/-- Adding a link extends each combination by a chosen row. -/
theorem JoinChain.mem_eval_link (chain : JoinChain rtable width links node)
    (leftPresent : rtFetch rtable node.rtindex = some left)
    (rightPresent : rtFetch rtable link.input = some right)
    (freshInput : link.input ∉ node.rtindexes)
    (ok :
      ChainOk inst rtable width (links ++ [link])
        (.joinExpr link.jointype rtindex node (.rangeTblRef link.input)
          (linkQuals width (node.rtindex - 1) (link.input - 1) left right link.matching)))
    (original :
      ∀ base ∈ node.eval inst (aliasvarsAt rtable)
          (inputRows inst rtable),
        ∃ row ∈ inputRows inst rtable 1, base 1 = some row)
    {env : Env} :
    env ∈ (JoinTreeNode.joinExpr link.jointype rtindex node
        (.rangeTblRef link.input)
        (linkQuals width (node.rtindex - 1) (link.input - 1) left right
          link.matching)).eval inst (aliasvarsAt rtable) (inputRows inst rtable) ↔
      ∃ base ∈ node.eval inst (aliasvarsAt rtable)
          (inputRows inst rtable),
        ∃ row choice, base 1 = some row ∧
          Chosen width link row (inputRows inst rtable link.input) choice ∧
          env = (base.choose link.input choice).setJoin inst
            (aliasvarsAt rtable rtindex) rtindex := by
  have keeps := ok.keeps link (by simp)
  have absent {base : Env}
      (isBase :
        base ∈ node.eval inst (aliasvarsAt rtable)
          (inputRows inst rtable)) :
      base link.input = none :=
    JoinTreeNode.eval_eq_none isBase freshInput
  rw [JoinTreeNode.eval, List.mem_map]
  constructor
  · rintro ⟨merged, isMerged, rfl⟩
    rcases mem_joinWith.mp isMerged with
      ⟨base, isBase, _, isSingle, accepted, rfl⟩ |
      ⟨kept, base, isBase, unmatched, rfl⟩ | ⟨never, _⟩
    · rcases List.mem_map.mp isSingle with ⟨partner, isPartner, rfl⟩
      rcases original base isBase with ⟨row, isRow, atOne⟩
      refine ⟨base, isBase, row, some partner, atOne, .inl ⟨partner, isPartner, ?_, rfl⟩, ?_⟩
      · exact (chain.passes_iff leftPresent rightPresent freshInput ok
          isBase atOne isRow isPartner).mp accepted
      · rw [Env.merge_single (absent isBase)]
    · rcases original base isBase with ⟨row, isRow, atOne⟩
      refine ⟨base, isBase, row, none, atOne, .inr ⟨kept, ?_, rfl⟩, ?_⟩
      · intro partner isPartner matched
        have rejected := unmatched _ (List.mem_map_of_mem isPartner)
        rw [(chain.passes_iff leftPresent rightPresent freshInput ok
          isBase atOne isRow isPartner).mpr matched] at rejected
        contradiction
      · rw [Env.choose_none (absent isBase)]
        rfl
    · rw [keeps] at never
      contradiction
  · rintro ⟨base, isBase, row, choice, atOne, chosen, rfl⟩
    rcases original base isBase with ⟨row', isRow, atOne'⟩
    rw [atOne] at atOne'
    cases atOne'
    refine ⟨base.choose link.input choice, mem_joinWith.mpr ?_, rfl⟩
    rcases chosen with ⟨partner, isPartner, matched, rfl⟩ |
      ⟨kept, unmatched, rfl⟩
    · refine .inl ⟨base, isBase, Env.single link.input partner, List.mem_map_of_mem isPartner, ?_,
        Env.merge_single (absent isBase)⟩
      exact (chain.passes_iff leftPresent rightPresent freshInput ok
        isBase atOne isRow isPartner).mpr matched
    · refine .inr (.inl ⟨kept, base, isBase, ?_, ?_⟩)
      · intro _ isSingle
        rcases List.mem_map.mp isSingle with ⟨partner, isPartner, rfl⟩
        rw [Bool.eq_false_iff]
        intro accepted
        exact unmatched partner isPartner
          ((chain.passes_iff leftPresent rightPresent freshInput ok
            isBase atOne isRow isPartner).mp accepted)
      · rw [Env.choose_none (absent isBase)]
        rfl

end Step

/-- Combinations of a chain consist of a row and of chosen partners. -/
theorem JoinChain.exists_of_mem_eval {inst : Instance} (chain : JoinChain rtable width links node)
    (ok : ChainOk inst rtable width links node) {env : Env}
    (member : env ∈ node.eval inst (aliasvarsAt rtable) (inputRows inst rtable)) :
    ∃ row ∈ inputRows inst rtable 1, env 1 = some row ∧
      ∀ link ∈ links,
        Chosen width link row (inputRows inst rtable link.input) (env link.input) := by
  induction chain generalizing env with
  | start =>
    rw [JoinTreeNode.eval] at member
    rcases List.mem_map.mp member with ⟨row, isRow, rfl⟩
    exact ⟨row, isRow, by simp [Env.single], by simp⟩
  | @link links node link rtindex left right chain leftPresent
      rightPresent join freshInput freshJoin distinct
      ih =>
      rcases (chain.mem_eval_link leftPresent rightPresent freshInput ok fun _ isBase =>
          (ih ok.below isBase).imp fun _ found => ⟨found.1, found.2.1⟩).mp member with
        ⟨base, isBase, row, choice, atOne, chosen, rfl⟩
      rcases ih ok.below isBase with
        ⟨row', isRow, atOne', others⟩
      rw [atOne] at atOne'
      cases atOne'
      have kept {other : Nat} (inside : other ∈ node.rtindexes) :=
        Env.setJoin_choose_of_ne inst base choice (aliasvarsAt rtable rtindex)
          (fun same : other = link.input => freshInput (same ▸ inside))
          (fun same : other = rtindex => freshJoin (same ▸ inside))
      refine ⟨row, isRow, by rw [kept chain.one_mem, atOne], ?_⟩
      intro link' member
      rcases List.mem_append.mp member with isOld | isNew
      · rw [kept (chain.input_mem isOld)]
        exact others link' isOld
      · rw [List.mem_singleton.mp isNew, Env.setJoin_choose_self inst base choice _ distinct]
        exact chosen

/-- Every row and all choices of partners make a combination. -/
theorem JoinChain.exists_mem_eval {inst : Instance} (chain : JoinChain rtable width links node)
    (ok : ChainOk inst rtable width links node) {row : Row} (isRow : row ∈ inputRows inst rtable 1)
    {choice : Nat → Option Row}
    (chosen :
      ∀ link ∈ links,
        Chosen width link row (inputRows inst rtable link.input)
          (choice link.input)) :
    ∃ env ∈ node.eval inst (aliasvarsAt rtable) (inputRows inst rtable),
      env 1 = some row ∧ ∀ link ∈ links, env link.input = choice link.input := by
  induction chain with
  | start =>
    exact ⟨Env.single 1 row, List.mem_map_of_mem isRow, by simp [Env.single], by simp⟩
  | @link links node link rtindex left right chain leftPresent
      rightPresent join freshInput freshJoin distinct
      ih =>
      rcases ih ok.below (fun link' member => chosen link' (by simp [member])) with
        ⟨base, isBase, atOne, others⟩
      have original :
          ∀ base ∈ node.eval inst (aliasvarsAt rtable) (inputRows inst rtable),
            ∃ row ∈ inputRows inst rtable 1, base 1 = some row := fun _ isBase =>
        (chain.exists_of_mem_eval ok.below isBase).imp fun _ found => ⟨found.1, found.2.1⟩
      have kept {other : Nat} (inside : other ∈ node.rtindexes) :=
        Env.setJoin_choose_of_ne inst base (choice link.input) (aliasvarsAt rtable rtindex)
          (fun same : other = link.input => freshInput (same ▸ inside))
          (fun same : other = rtindex => freshJoin (same ▸ inside))
      refine ⟨_, (chain.mem_eval_link leftPresent rightPresent freshInput
        ok original).mpr ⟨base, isBase, row, choice link.input, atOne,
          chosen link (by simp), rfl⟩, ?_, ?_⟩
      · exact (kept chain.one_mem).trans atOne
      · intro link' member
        rcases List.mem_append.mp member with isOld | isNew
        · exact (kept (chain.input_mem isOld)).trans (others link' isOld)
        · rw [List.mem_singleton.mp isNew]
          exact Env.setJoin_choose_self inst base _ _ distinct

end Chain

end Ldv.Perm
