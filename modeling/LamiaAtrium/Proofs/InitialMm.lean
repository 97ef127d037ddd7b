import LamiaAtrium.Proofs.FrameList
import LamiaAtrium.Proofs.Delivery

/-! The `mm` that `init_mm` leaves, and the scan of `get_free_vmrg_area` over the nodes of a
free list. -/

namespace LamiaAtrium
open LinkedList
variable {Ptr : Type} [DecidableEq Ptr] {h after : NodeHeap Ptr VmRg} {link : Option Ptr} {size : Addr} {regions : List VmRg}

section Scan

/-- One node of the scan. -/
theorem carveLoop_node {rgit : Ptr} {rg : VmRg} {next : Option Ptr} (live : h.cells rgit = some { value := rg, next }) (fuel : Nat) :
    carveLoop size (fuel + 1) (some rgit) h =
      if rg.rgStart + size ≤ rg.rgEnd then
        some ((carveNode size rgit { value := rg, next } h).map fun result => (some result.1, result.2))
      else carveLoop size fuel next h := by
  rw [carveLoop, NodeHeap.load_live live]

/-- The scan has changed no cell but those on the list. -/
def OnList (h after : NodeHeap Ptr VmRg) (length : Nat) : Prop :=
  ∀ pointer, after.cells pointer = h.cells pointer ∨ ∃ values, Chain h.cells (some pointer) values ∧ values.length ≤ length

/-- The cut at the node it is made: the node keeps the rest, or takes over its successor, or
stays as an empty region. -/
theorem carveNode_chain {rgit : Ptr} {rg newrg : VmRg} {next : Option Ptr} {behind rest : List VmRg}
    (live : h.cells rgit = some { value := rg, next }) (chain : Chain h.cells next behind) (fits : rg.rgStart + size ≤ rg.rgEnd)
    (cut : carve size (rg :: behind) = some (newrg, rest)) :
    ∃ after, carveNode size rgit { value := rg, next } h = .ok (newrg, after) ∧ Chain after.cells (some rgit) rest ∧
      OnList h after (behind.length + 1) := by
  rw [carve, if_pos fits] at cut
  dsimp only at cut
  by_cases left : rg.rgStart + size < rg.rgEnd
  · rw [if_pos left] at cut
    cases cut
    refine ⟨{ h with cells := Function.update h.cells rgit (some { value := { rg with rgStart := rg.rgStart + size }, next }) }, ?_, ?_, ?_⟩
    · rw [carveNode]
      dsimp only
      rw [if_pos left, NodeHeap.store_live live]
      rfl
    · exact .cons (Function.update_self _ _ _) (chain.update_head live _)
    · intro pointer
      by_cases same : pointer = rgit
      · subst same
        exact .inr ⟨_, .cons live chain, Nat.le_refl _⟩
      · exact .inl (Function.update_of_ne same _ _)
  · rw [if_neg left] at cut
    cases next with
    | none =>
      cases chain
      cases cut
      refine ⟨{ h with cells := Function.update h.cells rgit (some { value := { rg with rgStart := rg.rgEnd }, next := none }) }, ?_, ?_, ?_⟩
      · rw [carveNode]
        dsimp only
        rw [if_neg left, NodeHeap.store_live live]
        rfl
      · exact .cons (Function.update_self _ _ _) .nil
      · intro pointer
        by_cases same : pointer = rgit
        · subst same
          exact .inr ⟨_, .cons live .nil, Nat.le_refl _⟩
        · exact .inl (Function.update_of_ne same _ _)
    | some nxt =>
      obtain ⟨value, link, later, same, found, tail⟩ := chain.head
      subst same
      cases cut
      have apart : rgit ≠ nxt := chain.ne_next live
      let copied : Cells Ptr VmRg := Function.update h.cells rgit (some { value, next := link })
      have foundCopied : copied nxt = some { value, next := link } := (Function.update_of_ne apart.symm _ _).trans found
      refine ⟨{ h with cells := Function.update copied nxt none }, ?_, ?_, ?_⟩
      · rw [carveNode]
        dsimp only
        rw [if_neg left, NodeHeap.load_live found, Outcome.bind_ok, NodeHeap.store_live live]
        rfl
      · have chainCopied : Chain copied (some nxt) (value :: later) := chain.update_head live _
        have tailCopied := chainCopied.tail foundCopied
        refine .cons ?_ (tailCopied.update_head foundCopied none)
        exact (Function.update_of_ne apart _ _).trans (Function.update_self _ _ _)
      · intro pointer
        by_cases first : pointer = rgit
        · subst first
          exact .inr ⟨_, .cons live chain, Nat.le_refl _⟩
        · by_cases second : pointer = nxt
          · subst second
            exact .inr ⟨_, chain, Nat.le_succ _⟩
          · exact .inl ((Function.update_of_ne second _ _).trans (Function.update_of_ne first _ _))

/-- The scan over the nodes does to the list what `carve` does, with fuel for every node. -/
theorem carveLoop_chain (chain : Chain h.cells link regions) {fuel : Nat} (enough : regions.length ≤ fuel) :
    (carve size regions = none → carveLoop size fuel link h = some (.ok (none, h))) ∧
    ∀ newrg rest, carve size regions = some (newrg, rest) → ∃ after,
      carveLoop size fuel link h = some (.ok (some newrg, after)) ∧ Chain after.cells link rest ∧ OnList h after regions.length := by
  induction chain generalizing fuel with
  | nil => exact ⟨fun _ => by rw [carveLoop], fun _ _ cut => by cases cut⟩
  | @cons rgit rg next behind live chain ih =>
    obtain ⟨fuel, rfl⟩ : ∃ less, fuel = less + 1 := ⟨_, (Nat.sub_add_cancel (Nat.le_trans (Nat.succ_pos _) enough)).symm⟩
    rw [carveLoop_node live]
    by_cases fits : rg.rgStart + size ≤ rg.rgEnd
    · rw [if_pos fits]
      constructor
      · intro none
        exact absurd fits (carve_eq_none_iff.mp none rg List.mem_cons_self)
      · intro newrg rest cut
        obtain ⟨after, carved, list, kept⟩ := carveNode_chain live chain fits cut
        refine ⟨after, ?_, list, kept⟩
        rw [carved]
        rfl
    · rw [if_neg fits, carve, if_neg fits]
      obtain ⟨none, some⟩ := ih (Nat.le_of_succ_le_succ enough)
      constructor
      · intro nothing
        exact none (Option.map_eq_none_iff.mp nothing)
      · intro newrg rest cut
        obtain ⟨⟨picked, remaining⟩, later, same⟩ := Option.map_eq_some_iff.mp cut
        cases same
        obtain ⟨after, ran, list, kept⟩ := some _ _ later
        refine ⟨after, ran, .cons ?_ list, ?_⟩
        · rcases kept rgit with unchanged | ⟨values, twice, short⟩
          · exact unchanged.trans live
          · -- the node would start a list that is too short
            rw [← Chain.unique (.cons live chain) twice] at short
            exact absurd short (Nat.not_succ_le_self _)
        · intro pointer
          rcases kept pointer with unchanged | ⟨values, there, short⟩
          · exact .inl unchanged
          · exact .inr ⟨values, there, Nat.le_succ_of_le short⟩

end Scan

section Init
variable {vma0 : VmAreaStruct Ptr}

/-- The scan ends at the null link, having met live nodes only, and no request of this size fits. -/
def ScansToNull (size : Addr) (link : Option Ptr) (h : NodeHeap Ptr VmRg) : Prop :=
  ∃ fuel, carveLoop size fuel link h = some (.ok (none, h))

/-- What every later invariant of the process starts from. -/
structure InitialMm (mm : MmStruct Ptr) (h : NodeHeap Ptr VmRg) : Prop where
  area : ∃ vma, mm.mmap = [vma] ∧ vma.vmId = 0 ∧ vma.vmStart = 0 ∧ vma.vmEnd = 0 ∧ vma.sbrk = 0 ∧
    (∃ regions, Chain h.cells vma.vmFreergList regions ∧ ∀ rg ∈ regions, rg.bytes = ∅) ∧
    ∀ size : CInt, 0 < size.toInt → ScansToNull (intToAddr size) vma.vmFreergList h
  fifo : mm.fifoPgn = []
  symrgtbl : ∀ reg, mm.symrgtbl reg = { rgStart := 0, rgEnd := 0 }
  entries : ∀ pgn : Addr, pgn.toNat < 2 ^ 45 → pteGetEntry mm.pgd pgn = 0

/-- The pointer leads to the null link through regions that serve no request. -/
def LeadsToNothing (link : Option Ptr) (h : NodeHeap Ptr VmRg) : Prop :=
  ∃ regions, Chain h.cells link regions ∧ ∀ rg ∈ regions, rg.Unusable

theorem scansToNull_of_carve (chain : Chain h.cells link regions) (nothing : carve size regions = none) : ScansToNull size link h :=
  ⟨regions.length, (carveLoop_chain chain (Nat.le_refl _)).1 nothing⟩

theorem carve_of_scansToNull (chain : Chain h.cells link regions) (scans : ScansToNull size link h) :
    ∀ rg ∈ regions, ¬ rg.rgStart + size ≤ rg.rgEnd := by
  obtain ⟨fuel, ran⟩ := scans
  induction chain generalizing fuel with
  | nil => intro rg member; cases member
  | @cons rgit rg next behind live chain ih =>
    cases fuel with
    | zero => cases ran
    | succ fuel =>
      rw [carveLoop_node live] at ran
      by_cases fits : rg.rgStart + size ≤ rg.rgEnd
      · rw [if_pos fits] at ran
        cases cut : carveNode size rgit { value := rg, next } h with
        | error fault => rw [cut] at ran; cases ran
        | ok result => rw [cut] at ran; cases ran
      · rw [if_neg fits] at ran
        intro other member
        rcases List.mem_cons.mp member with rfl | later
        · exact fits
        · exact ih fuel ran other later

/-- The struct that `init_mm` fills in, with its first region node. -/
def MmStruct.initial (firstRg : Ptr) : MmStruct Ptr where
  pgd := initPgd
  mmap := [{ vmId := 0, vmStart := 0, vmEnd := 0, sbrk := 0, vmFreergList := some firstRg }]
  symrgtbl := fun _ => { rgStart := 0, rgEnd := 0 }
  fifoPgn := []

/-- What `init_mm` returns: the first node of the free list is an empty region, and its link is
what the block of the area held. -/
theorem initMm_eq {firstRg : Ptr} {content : Cell Ptr VmRg} {blocks : List (Ptr × Cell Ptr VmRg)}
    (next : h.blocks = (firstRg, content) :: blocks) : MmStruct.initMm vma0 h =
      .ok (0, .initial firstRg,
        { cells := Function.update h.cells firstRg (some { value := { rgStart := 0, rgEnd := 0 }, next := vma0.vmFreergList }), blocks }) := by
  have liveNew : (Function.update h.cells firstRg (some content)) firstRg = some content := Function.update_self _ _ _
  have region : initVmRg 0 0 h = .ok (firstRg,
      { cells := Function.update h.cells firstRg (some { value := { rgStart := 0, rgEnd := 0 }, next := none }), blocks }) := by
    rw [initVmRg, NodeHeap.malloc_cons next, Outcome.bind_ok]
    dsimp only
    rw [NodeHeap.store_live liveNew, Function.update_idem]
    rfl
  rw [MmStruct.initMm]
  dsimp only
  rw [region, Outcome.bind_ok]
  dsimp only
  rw [enlistVmRgNode, NodeHeap.setNext_live (Function.update_self _ _ _), Outcome.bind_ok]
  dsimp only
  rw [Function.update_idem]
  rfl

/-- `init_mm` establishes all of it exactly if the word it finds in place of the free list
happens to lead to nothing. -/
theorem init_mm_establishes_iff (fresh : h.Fresh) (room : h.blocks ≠ []) :
    (∃ code mm after, MmStruct.initMm vma0 h = .ok (code, mm, after) ∧ InitialMm mm after) ↔ LeadsToNothing vma0.vmFreergList h := by
  cases next : h.blocks with
  | nil => exact absurd next room
  | cons block blocks =>
    obtain ⟨firstRg, content⟩ := block
    have unused : h.cells firstRg = none := fresh.unused (firstRg, content) (next ▸ List.mem_cons_self)
    rw [initMm_eq next]
    constructor
    · intro claimed
      obtain ⟨code, mm, after, ran, initial⟩ := claimed
      cases ran
      obtain ⟨vma, areas, _, _, _, _, ⟨regions, chain, _⟩, scans⟩ := initial.area
      cases areas
      obtain ⟨value, link, rest, rfl, found, behind⟩ := chain.head
      cases (Function.update_self _ _ _).symm.trans found
      refine ⟨rest, (Chain.behind_fresh_iff unused).mp behind, ?_⟩
      intro rg member size positive
      exact carve_of_scansToNull chain (scans size positive) rg (List.mem_cons_of_mem _ member)
    · intro leads
      obtain ⟨rest, behind, unusable⟩ := leads
      have chain : Chain (Function.update h.cells firstRg (some { value := { rgStart := 0, rgEnd := 0 }, next := vma0.vmFreergList }))
          (some firstRg) ({ rgStart := 0, rgEnd := 0 } :: rest) :=
        .cons (Function.update_self _ _ _) ((Chain.behind_fresh_iff unused).mpr behind)
      have all : ∀ rg ∈ VmRg.mk 0 0 :: rest, rg.Unusable := by
        intro rg member
        rcases List.mem_cons.mp member with rfl | later
        · exact VmRg.unusable_zero
        · exact unusable rg later
      refine ⟨0, _, _, rfl, ⟨_, rfl, rfl, rfl, rfl, rfl, ⟨_, chain, fun rg member => (all rg member).bytes_eq⟩, ?_⟩, rfl, fun _ => rfl, ?_⟩
      · intro size positive
        exact scansToNull_of_carve chain (carve_eq_none_iff.mpr fun rg member => all rg member size positive)
      · intro pgn _
        rw [pteGetEntry_eq_pteAt]
        exact pteAt_initPgd _

/-- An area struct and the nodes of its list stand for an area. -/
structure RepresentsArea (h : NodeHeap Ptr VmRg) (node : VmAreaStruct Ptr) (vma : VmArea) : Prop where
  vmId : node.vmId = vma.vmId
  vmStart : node.vmStart = vma.vmStart
  vmEnd : node.vmEnd = vma.vmEnd
  sbrk : node.sbrk = vma.sbrk
  list : Chain h.cells node.vmFreergList vma.vmFreergList

/-- `init_mm` in memory does what it does on lists, if the stray word leads to a list at all. -/
theorem initMm_represents {uninit : List VmRg} (fresh : h.Fresh) (room : h.blocks ≠ []) (chain : Chain h.cells vma0.vmFreergList uninit) :
    ∃ mm after, MmStruct.initMm vma0 h = .ok (0, mm, after) ∧ mm.pgd = (initMm uninit).pgd ∧
      List.Forall₂ (RepresentsArea after) mm.mmap (initMm uninit).mmap ∧ mm.symrgtbl = (initMm uninit).symrgtbl ∧
      mm.fifoPgn = (initMm uninit).fifoPgn := by
  cases next : h.blocks with
  | nil => exact absurd next room
  | cons block blocks =>
    obtain ⟨firstRg, content⟩ := block
    have unused : h.cells firstRg = none := fresh.unused (firstRg, content) (next ▸ List.mem_cons_self)
    refine ⟨_, _, initMm_eq next, rfl, .cons ?_ .nil, rfl, rfl⟩
    exact ⟨rfl, rfl, rfl, rfl, .cons (Function.update_self _ _ _) ((Chain.behind_fresh_iff unused).mpr chain)⟩

/-- The block for the area, with a stray word where the free list is to be. -/
def dirtyArea (vmFreergList : Option Nat) : VmAreaStruct Nat :=
  { vmId := 77, vmStart := 5, vmEnd := 3, sbrk := 9, vmFreergList }

def oneBlock : NodeHeap Nat VmRg := { cells := fun _ => none, blocks := [(0, { value := { rgStart := 8, rgEnd := 1 }, next := some 99 })] }

private theorem oneBlock_fresh : oneBlock.Fresh where
  apart := List.nodup_singleton _
  unused _ _ := rfl

theorem init_mm_establishes_iff_cleared :
    (∃ code mm after, MmStruct.initMm (dirtyArea none) oneBlock = .ok (code, mm, after) ∧ InitialMm mm after) ↔
      LeadsToNothing none oneBlock :=
  @init_mm_establishes_iff _ _ oneBlock (dirtyArea none) oneBlock_fresh (List.cons_ne_nil _ _)

/-- With a stray pointer in the block, the first request for memory follows it. -/
theorem init_mm_keeps_stray_pointer :
    (¬∃ code mm after, MmStruct.initMm (dirtyArea (some 99)) oneBlock = .ok (code, mm, after) ∧ InitialMm mm after) ∧
    ∃ code mm after, MmStruct.initMm (dirtyArea (some 99)) oneBlock = .ok (code, mm, after) ∧
      ∀ size, 0 < size.toNat → ∀ vma ∈ mm.mmap, carveLoop size 2 vma.vmFreergList after = some (.error .useAfterFree) := by
  constructor
  · intro claimed
    obtain ⟨code, mm, after, ran, initial⟩ := claimed
    rw [initMm_eq rfl] at ran
    cases ran
    obtain ⟨vma, areas, _, _, _, _, ⟨regions, chain, _⟩, _⟩ := initial.area
    cases areas
    obtain ⟨value, link, rest, rfl, found, behind⟩ := chain.head
    change some (Cell.mk (VmRg.mk 0 0) (some 99)) = some (Cell.mk value link) at found
    cases found
    obtain ⟨_, _, _, _, nowhere, _⟩ := behind.head
    cases nowhere
  · refine ⟨0, _, _, initMm_eq rfl, ?_⟩
    intro size positive vma member
    cases List.mem_singleton.mp member
    rw [carveLoop_node rfl, if_neg]
    · rfl
    · intro fits
      rw [BitVec.le_def, BitVec.toNat_add] at fits
      change (0 + size.toNat) % 2 ^ 64 ≤ 0 at fits
      have bound := size.isLt
      omega

end Init
end LamiaAtrium
