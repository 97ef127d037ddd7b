import Mathlib.Data.Set.Lattice
import Mathlib.Order.CompletePartialOrder
import Mathlib.Logic.Function.Basic

/-! Space handed out in blocks. A table names the live blocks, a list the free ones.
`Separated` says that no cell is handed out twice, `Covered` that none is lost; the rules
say what keeps each of them when a free block is cut, the space grows or a block is
given back. -/

namespace Allocation
variable {Cell Index : Type}

structure Separated (space : Set Cell) (live : Index → Set Cell) (free : List (Set Cell)) : Prop where
  liveApart : ∀ first second, first ≠ second → Disjoint (live first) (live second)
  liveFree : ∀ index, ∀ block ∈ free, Disjoint (live index) block
  freeApart : free.Pairwise Disjoint
  liveInside : ∀ index, live index ⊆ space
  freeInside : ∀ block ∈ free, block ⊆ space

def Covered (space : Set Cell) (live : Index → Set Cell) (free : List (Set Cell)) : Prop :=
  ∀ cell ∈ space, (∃ index, cell ∈ live index) ∨ ∃ block ∈ free, cell ∈ block

/-- A block falls apart into a part that is taken and pieces that are left. -/
structure Cut (block taken : Set Cell) (pieces : List (Set Cell)) : Prop where
  head : taken ⊆ block
  inside : ∀ piece ∈ pieces, piece ⊆ block
  away : ∀ piece ∈ pieces, Disjoint taken piece
  apart : pieces.Pairwise Disjoint
  whole : ∀ cell ∈ block, cell ∈ taken ∨ ∃ piece ∈ pieces, cell ∈ piece

variable {space wider taken block : Set Cell} {live : Index → Set Cell} {free before after pieces : List (Set Cell)}

namespace Cut

/-- Blocks that are apart stay apart when one of them is cut. -/
theorem pairwise_disjoint (cut : Cut block taken pieces) (old : (before ++ block :: after).Pairwise Disjoint) :
    (before ++ pieces ++ after).Pairwise Disjoint := by
  obtain ⟨beforeApart, restApart, across⟩ := List.pairwise_append.mp old
  obtain ⟨blockAfter, afterApart⟩ := List.pairwise_cons.mp restApart
  refine List.pairwise_append.mpr ⟨List.pairwise_append.mpr ⟨beforeApart, cut.apart, ?_⟩, afterApart, ?_⟩
  · intro first member piece chosen
    exact (across first member block List.mem_cons_self).mono_right (cut.inside piece chosen)
  · intro first member second memberToo
    rcases List.mem_append.mp member with early | chosen
    · exact across first early second (List.mem_cons_of_mem _ memberToo)
    · exact (blockAfter second memberToo).mono_left (cut.inside first chosen)

end Cut

section Multiplicity
open scoped Classical
variable {blocks : List (Set Cell)}

/-- The cells of a list of blocks. -/
def cells (blocks : List (Set Cell)) : Set Cell := {cell | ∃ block ∈ blocks, cell ∈ block}

/-- The number of blocks that hold a cell. -/
noncomputable def multiplicity (blocks : List (Set Cell)) (cell : Cell) : Nat := blocks.countP fun block => cell ∈ block

theorem multiplicity_pos {cell : Cell} : 0 < multiplicity blocks cell ↔ cell ∈ cells blocks := by
  rw [multiplicity, List.countP_pos_iff]
  simp only [decide_eq_true_eq]
  rfl

theorem multiplicity_append (first second : List (Set Cell)) (cell : Cell) :
    multiplicity (first ++ second) cell = multiplicity first cell + multiplicity second cell := List.countP_append

theorem multiplicity_cons (first : Set Cell) (rest : List (Set Cell)) (cell : Cell) :
    multiplicity (first :: rest) cell = multiplicity rest cell + if cell ∈ first then 1 else 0 := by
  rw [multiplicity, List.countP_cons]
  simp only [decide_eq_true_eq]
  rfl

/-- Blocks that are apart hold no cell twice. -/
theorem multiplicity_le_one (apart : blocks.Pairwise Disjoint) (cell : Cell) : multiplicity blocks cell ≤ 1 := by
  induction blocks with
  | nil => exact Nat.zero_le _
  | cons first rest ih =>
    obtain ⟨clear, restApart⟩ := List.pairwise_cons.mp apart
    rw [multiplicity_cons]
    by_cases here : cell ∈ first
    · have absent : ¬ 0 < multiplicity rest cell := by
        rw [multiplicity_pos]
        intro later
        obtain ⟨other, member, there⟩ := later
        exact Set.disjoint_left.mp (clear other member) here there
      rw [if_pos here]
      omega
    · rw [if_neg here]
      exact ih restApart

namespace Cut

/-- A cut takes every cell of the taken part out of one block. -/
theorem multiplicity_eq (cut : Cut block taken pieces) (before after : List (Set Cell)) (cell : Cell) :
    multiplicity (before ++ block :: after) cell =
      multiplicity (before ++ pieces ++ after) cell + if cell ∈ taken then 1 else 0 := by
  have single := multiplicity_le_one cut.apart cell
  have middle : (if cell ∈ block then 1 else 0) = multiplicity pieces cell + if cell ∈ taken then 1 else 0 := by
    by_cases here : cell ∈ taken
    · have absent : ¬ 0 < multiplicity pieces cell := by
        rw [multiplicity_pos]
        intro later
        obtain ⟨piece, member, there⟩ := later
        exact Set.disjoint_left.mp (cut.away piece member) here there
      rw [if_pos here, if_pos (cut.head here)]
      omega
    · rw [if_neg here]
      by_cases inside : cell ∈ block
      · have present : 0 < multiplicity pieces cell := multiplicity_pos.mpr ((cut.whole cell inside).resolve_left here)
        rw [if_pos inside]
        omega
      · have absent : ¬ 0 < multiplicity pieces cell := by
          rw [multiplicity_pos]
          intro later
          obtain ⟨piece, member, there⟩ := later
          exact inside (cut.inside piece member there)
        rw [if_neg inside]
        omega
  simp only [multiplicity_append, multiplicity_cons]
  omega

/-- Among blocks that are apart, a cut removes exactly the cells of the taken part. -/
theorem cells_eq (cut : Cut block taken pieces) (old : (before ++ block :: after).Pairwise Disjoint) :
    cells (before ++ pieces ++ after) = cells (before ++ block :: after) \ taken := by
  ext cell
  have count := cut.multiplicity_eq before after cell
  have single := multiplicity_le_one old cell
  rw [Set.mem_sdiff, ← multiplicity_pos, ← multiplicity_pos]
  by_cases here : cell ∈ taken
  · rw [if_pos here] at count
    constructor
    · intro left
      omega
    · intro both
      exact absurd here both.2
  · rw [if_neg here] at count
    constructor
    · intro left
      exact ⟨by omega, here⟩
    · intro both
      omega

end Cut
end Multiplicity

namespace Separated

/-- Nothing is live and no free block has a cell. -/
theorem empty (noLive : ∀ index, live index = ∅) (noFree : ∀ block ∈ free, block = ∅) : Separated space live free where
  liveApart first second _ := by rw [noLive first]; exact Set.empty_disjoint _
  liveFree index block member := by rw [noLive index]; exact Set.empty_disjoint _
  freeApart := List.pairwise_iff_forall_sublist.mpr fun {first second} sublist => by
    rw [noFree first (sublist.subset List.mem_cons_self)]
    exact Set.empty_disjoint _
  liveInside index := by rw [noLive index]; exact Set.empty_subset _
  freeInside block member := by rw [noFree block member]; exact Set.empty_subset _

/-- New cells join as one more free block. -/
theorem extend (separated : Separated space live free) (larger : space ⊆ wider) (inside : block ⊆ wider)
    (fresh : Disjoint space block) : Separated wider live (block :: free) where
  liveApart := separated.liveApart
  liveFree index other member := by
    rcases List.mem_cons.mp member with same | member
    · rw [same]
      exact fresh.mono_left (separated.liveInside index)
    · exact separated.liveFree index other member
  freeApart := List.pairwise_cons.mpr
    ⟨fun other member => (fresh.mono_left (separated.freeInside other member)).symm, separated.freeApart⟩
  liveInside index := (separated.liveInside index).trans larger
  freeInside other member := by
    rcases List.mem_cons.mp member with same | member
    · rw [same]
      exact inside
    · exact (separated.freeInside other member).trans larger

variable [DecidableEq Index]

/-- A free block is cut: one part goes live, the pieces stay free. Whatever the index
named before is forgotten. -/
theorem carve (separated : Separated space live (before ++ block :: after)) (index : Index)
    (cut : Cut block taken pieces) :
    Separated space (Function.update live index taken) (before ++ pieces ++ after) := by
  have blockMember : block ∈ before ++ block :: after := List.mem_append_right _ List.mem_cons_self
  have kept : ∀ other ∈ before ++ pieces ++ after, (∃ whole ∈ before ++ block :: after, other ⊆ whole) ∧ Disjoint taken other := by
    intro other member
    obtain ⟨_, restApart, across⟩ := List.pairwise_append.mp separated.freeApart
    rcases List.mem_append.mp member with early | late
    · rcases List.mem_append.mp early with first | chosen
      · exact ⟨⟨other, List.mem_append_left _ first, subset_rfl⟩,
          (across other first block List.mem_cons_self).symm.mono_left cut.head⟩
      · exact ⟨⟨block, blockMember, cut.inside other chosen⟩, cut.away other chosen⟩
    · exact ⟨⟨other, List.mem_append_right _ (List.mem_cons_of_mem _ late), subset_rfl⟩,
        ((List.pairwise_cons.mp restApart).1 other late).mono_left cut.head⟩
  have takenLive (other : Index) : Disjoint taken (live other) := ((separated.liveFree other block blockMember).mono_right cut.head).symm
  constructor
  · intro first second distinct
    simp only [Function.update_apply]
    split <;> split
    · next same sameToo => exact absurd (same.trans sameToo.symm) distinct
    · exact takenLive second
    · exact (takenLive first).symm
    · exact separated.liveApart first second distinct
  · intro other piece member
    obtain ⟨⟨whole, wholeMember, within⟩, clear⟩ := kept piece member
    simp only [Function.update_apply]
    split
    · exact clear
    · exact (separated.liveFree other whole wholeMember).mono_right within
  · exact cut.pairwise_disjoint separated.freeApart
  · intro other
    simp only [Function.update_apply]
    split
    · exact cut.head.trans (separated.freeInside block blockMember)
    · exact separated.liveInside other
  · intro piece member
    obtain ⟨⟨whole, wholeMember, within⟩, _⟩ := kept piece member
    exact within.trans (separated.freeInside whole wholeMember)

/-- The space grows by a block of which one part goes live at once: an extension that is
carved. -/
theorem grow (separated : Separated space live free) (index : Index) (larger : space ⊆ wider) (whole : block ⊆ wider)
    (fresh : Disjoint space block) (cut : Cut block taken pieces) :
    Separated wider (Function.update live index taken) (pieces ++ free) :=
  @carve _ _ _ _ _ _ [] free _ _ (separated.extend larger whole fresh) index cut

theorem release (separated : Separated space live free) (index : Index) :
    Separated space (Function.update live index ∅) (live index :: free) := by
  constructor
  · intro first second distinct
    simp only [Function.update_apply]
    split <;> split
    · exact Set.empty_disjoint _
    · exact Set.empty_disjoint _
    · exact Set.disjoint_empty _
    · exact separated.liveApart first second distinct
  · intro other block member
    simp only [Function.update_apply]
    split
    · exact Set.empty_disjoint _
    · next distinct =>
      rcases List.mem_cons.mp member with same | member
      · rw [same]
        exact separated.liveApart other index distinct
      · exact separated.liveFree other block member
  · exact List.pairwise_cons.mpr ⟨separated.liveFree index, separated.freeApart⟩
  · intro other
    simp only [Function.update_apply]
    split
    · exact Set.empty_subset _
    · exact separated.liveInside other
  · intro block member
    rcases List.mem_cons.mp member with same | member
    · rw [same]
      exact separated.liveInside index
    · exact separated.freeInside block member

end Separated

namespace Covered

theorem extend (covered : Covered space live free) (whole : ∀ cell ∈ wider, cell ∈ space ∨ cell ∈ block) :
    Covered wider live (block :: free) := by
  intro cell inside
  rcases whole cell inside with old | new
  · rcases covered cell old with found | ⟨other, member, here⟩
    · exact .inl found
    · exact .inr ⟨other, List.mem_cons_of_mem _ member, here⟩
  · exact .inr ⟨block, List.mem_cons_self, new⟩

variable [DecidableEq Index]

/-- An update at an index that named nothing hides no live cell. -/
private theorem live_update {index : Index} (vacant : live index = ∅) {cell : Cell} (found : ∃ other, cell ∈ live other) :
    ∃ other, cell ∈ Function.update live index taken other := by
  obtain ⟨other, member⟩ := found
  refine ⟨other, ?_⟩
  rw [Function.update_of_ne]
  · exact member
  · intro same
    rw [same, vacant] at member
    exact member

/-- A cut loses nothing if the parts make up the block and the index named nothing. -/
theorem carve (covered : Covered space live (before ++ block :: after)) {index : Index} (vacant : live index = ∅)
    (cut : Cut block taken pieces) :
    Covered space (Function.update live index taken) (before ++ pieces ++ after) := by
  intro cell inside
  rcases covered cell inside with found | ⟨other, member, here⟩
  · exact .inl (live_update vacant found)
  · rcases List.mem_append.mp member with early | late
    · exact .inr ⟨other, List.mem_append_left _ (List.mem_append_left _ early), here⟩
    · rcases List.mem_cons.mp late with same | late
      · rcases cut.whole cell (same ▸ here) with live | ⟨piece, chosen, here⟩
        · exact .inl ⟨index, by rw [Function.update_self]; exact live⟩
        · exact .inr ⟨piece, List.mem_append_left _ (List.mem_append_right _ chosen), here⟩
      · exact .inr ⟨other, List.mem_append_right _ late, here⟩

theorem grow (covered : Covered space live free) {index : Index} (vacant : live index = ∅)
    (joined : ∀ cell ∈ wider, cell ∈ space ∨ cell ∈ block) (cut : Cut block taken pieces) :
    Covered wider (Function.update live index taken) (pieces ++ free) :=
  @carve _ _ _ _ _ _ [] free _ _ (covered.extend joined) index vacant cut

theorem release (covered : Covered space live free) (index : Index) :
    Covered space (Function.update live index ∅) (live index :: free) := by
  intro cell inside
  rcases covered cell inside with ⟨other, here⟩ | ⟨block, member, here⟩
  · by_cases same : other = index
    · exact .inr ⟨live index, List.mem_cons_self, same ▸ here⟩
    · exact .inl ⟨other, by rw [Function.update_of_ne same]; exact here⟩
  · exact .inr ⟨block, List.mem_cons_of_mem _ member, here⟩

end Covered
end Allocation
