import LamiaAtrium.Proofs.RegionRuns
import Mathlib.Data.Set.Lattice
import Mathlib.Order.Interval.Set.Disjoint

/-! Processes with any number of areas: the walk of `get_vma_by_num` and the test of
`validate_overlap_vm_area`. -/

namespace LamiaAtrium

section Lookup
variable {mm : Mm} {vmaid : CInt} {vma : VmArea} {areas : List VmArea}

/-- The area has this number. -/
def VmArea.Named (vma : VmArea) (vmaid : CInt) : Prop := (vma.vmId.toNat : Int) = vmaid.toInt

def IncreasingIds (areas : List VmArea) : Prop := areas.Pairwise fun first second => first.vmId < second.vmId

/-- The walk ends, and gives the area with the number, or NULL if there is none. -/
def FindsArea (mm : Mm) (vmaid : CInt) : Prop :=
  (∃ index vma, getVmaByNum mm vmaid = .ok (some (index, vma)) ∧ mm.mmap[index]? = some vma ∧ vma.Named vmaid) ∨
    getVmaByNum mm vmaid = .ok none ∧ ∀ vma ∈ mm.mmap, ¬vma.Named vmaid

/-- The loop does not pass an area that has the number. -/
theorem VmArea.Named.stops (named : vma.Named vmaid) : ¬(addrToInt vma.vmId).slt vmaid = true := by
  have bound := @BitVec.toInt_lt 32 vmaid
  have small : vma.vmId.toNat < 2 ^ 31 := by
    rw [VmArea.Named] at named
    omega
  rw [BitVec.slt_eq_decide, decide_eq_true_eq, addrToInt_of_lt small, named]
  exact Int.lt_irrefl _

/-- So it ends at the latest there. -/
theorem getVmaFrom_of_named (present : ∃ vma ∈ areas, vma.Named vmaid) (start : Nat) :
    ∃ index vma, getVmaFrom vmaid start areas = .ok (index, vma) := by
  induction areas generalizing start with
  | nil =>
    obtain ⟨_, member, _⟩ := present
    cases member
  | cons head rest ih =>
    rw [getVmaFrom]
    by_cases passes : (addrToInt head.vmId).slt vmaid = true
    · rw [if_pos passes]
      apply ih
      obtain ⟨vma, member, named⟩ := present
      rcases List.mem_cons.mp member with rfl | later
      · exact absurd passes named.stops
      · exact ⟨vma, later, named⟩
    · rw [if_neg passes]
      exact ⟨start, head, rfl⟩

/-- With increasing numbers it passes every area before that one. -/
theorem getVmaFrom_finds (increasing : IncreasingIds areas) (present : ∃ vma ∈ areas, vma.Named vmaid) {start index : Nat}
    (ended : getVmaFrom vmaid start areas = .ok (index, vma)) : vma.Named vmaid := by
  induction areas generalizing start with
  | nil => cases ended
  | cons head rest ih =>
    obtain ⟨above, increasingRest⟩ := List.pairwise_cons.mp increasing
    obtain ⟨target, member, named⟩ := present
    rw [getVmaFrom] at ended
    rcases List.mem_cons.mp member with rfl | later
    · rw [if_neg named.stops] at ended
      cases ended
      exact named
    · have passes : (addrToInt head.vmId).slt vmaid = true := by
        have below := above target later
        have bound := @BitVec.toInt_lt 32 vmaid
        rw [VmArea.Named] at named
        rw [BitVec.lt_def] at below
        have small : head.vmId.toNat < 2 ^ 31 := by omega
        rw [BitVec.slt_eq_decide, decide_eq_true_eq, addrToInt_of_lt small]
        omega
      rw [if_pos passes] at ended
      exact ih increasingRest ⟨target, later, named⟩ ended

theorem getVmaByNum_cons (head : VmArea) (rest : List VmArea) (list : mm.mmap = head :: rest) :
    getVmaByNum mm vmaid = (getVmaFrom vmaid 0 (head :: rest)).map some := by
  rw [getVmaByNum, list]
  change (getVmaFrom vmaid 0 (head :: rest) >>= fun found => .ok (some found)) = _
  cases getVmaFrom vmaid 0 (head :: rest) <;> rfl

theorem getVmaByNum_of_named (present : ∃ vma ∈ mm.mmap, vma.Named vmaid) :
    ∃ index vma, getVmaByNum mm vmaid = .ok (some (index, vma)) := by
  cases list : mm.mmap with
  | nil =>
    obtain ⟨_, member, _⟩ := present
    rw [list] at member
    cases member
  | cons head rest =>
    rw [list] at present
    obtain ⟨index, vma, ended⟩ := getVmaFrom_of_named present 0
    refine ⟨index, vma, ?_⟩
    rw [getVmaByNum_cons head rest list, ended]
    rfl

/-- On a list with increasing numbers the lookup is right exactly if the list is empty or has
the number. -/
theorem get_vma_by_num_finds_iff (increasing : IncreasingIds mm.mmap) :
    FindsArea mm vmaid ↔ mm.mmap = [] ∨ ∃ vma ∈ mm.mmap, vma.Named vmaid := by
  constructor
  · intro finds
    rcases finds with ⟨index, vma, _, here, named⟩ | ⟨none, _⟩
    · exact .inr ⟨vma, List.mem_of_getElem? here, named⟩
    · left
      cases list : mm.mmap with
      | nil => rfl
      | cons head rest =>
        rw [getVmaByNum_cons head rest list] at none
        cases ended : getVmaFrom vmaid 0 (head :: rest) with
        | error fault => rw [ended] at none; cases none
        | ok result => rw [ended] at none; cases none
  · intro claimed
    rcases claimed with empty | present
    · refine .inr ⟨by rw [getVmaByNum, empty], ?_⟩
      intro vma member
      rw [empty] at member
      cases member
    · left
      obtain ⟨index, vma, found⟩ := getVmaByNum_of_named present
      refine ⟨index, vma, found, getVmaByNum_ok found, ?_⟩
      cases list : mm.mmap with
      | nil =>
        obtain ⟨_, member, _⟩ := present
        rw [list] at member
        cases member
      | cons head rest =>
        rw [getVmaByNum_cons head rest list] at found
        rw [list] at present increasing
        cases ended : getVmaFrom vmaid 0 (head :: rest) with
        | error fault => rw [ended] at found; cases found
        | ok result =>
          rw [ended] at found
          cases found
          exact getVmaFrom_finds increasing present ended

/-- A first area of one page, a hole of one page, a second area of one page. -/
def twoAreas : Mm :=
  { initMm [] with
    mmap := [
      { vmId := 0, vmStart := 0, vmEnd := 256, sbrk := 256, vmFreergList := [] },
      { vmId := 1, vmStart := 512, vmEnd := 768, sbrk := 768, vmFreergList := [] }] }

theorem twoAreas_increasing : IncreasingIds twoAreas.mmap := by
  rw [IncreasingIds]
  decide

theorem get_vma_by_num_finds_iff_twoAreas : FindsArea twoAreas 1 := by
  apply (get_vma_by_num_finds_iff twoAreas_increasing).mpr
  exact .inr ⟨_, List.mem_cons_of_mem _ List.mem_cons_self, rfl⟩

/-- On the list that `init_mm` builds: number 1 follows the null pointer behind the only
area, also from `SYSCALL 17 2 1 256`, and number -1 gives area 0. -/
theorem missing_area_follows_null :
    IncreasingIds (initMm []).mmap ∧ ¬FindsArea (initMm []) 1 ∧ getVmaByNum (initMm []) 1 = .error .nullDereference ∧
      syscall knownCaller sixteenFrames 1 17 { a1 := 2, a2 := 1, a3 := 256 } = .error .nullDereference ∧
      ¬FindsArea (initMm []) (-1) ∧ ∃ vma, getVmaByNum (initMm []) (-1) = .ok (some (0, vma)) := by
  have unfound {vmaid : CInt} {vma : VmArea} (unnamed : ¬vma.Named vmaid) (single : (initMm []).mmap = [vma])
      (found : FindsArea (initMm []) vmaid) : getVmaByNum (initMm []) vmaid = .ok none := by
    rcases found with ⟨index, other, _, here, named⟩ | ⟨none, _⟩
    · rw [single] at here
      cases index with
      | zero => cases here; exact absurd named unnamed
      | succ index => cases here
    · exact none
  refine ⟨List.pairwise_singleton _ _, ?_, rfl, rfl, ?_, _, rfl⟩
  · intro finds
    cases unfound (by rw [VmArea.Named]; decide) rfl finds
  · intro finds
    cases unfound (by rw [VmArea.Named]; decide) rfl finds

end Lookup

section Overlap
variable {mm : Mm} {vmaid : CInt} {index : Nat} {area : VmArea} {areas : List VmArea} {vmastart vmaend : Addr}

def VmArea.bytes (vma : VmArea) : Set Nat := Set.Ico vma.vmStart.toNat vma.vmEnd.toNat

/-- Some area but the one at `index` has a byte of the range. -/
def MeetsOther (areas : List VmArea) (index : Nat) (range : Set Nat) : Prop :=
  ∃ other vma, other ≠ index ∧ areas[other]? = some vma ∧ ¬Disjoint range vma.bytes

/-- The test of the source: the present bounds of the area overlap those of another one. -/
def OverlapsOther (areas : List VmArea) (index : Nat) (curArea : VmArea) : Prop :=
  ∃ other vma, other ≠ index ∧ areas[other]? = some vma ∧ overlap curArea.vmStart curArea.vmEnd vma.vmStart vma.vmEnd = true

def AreasApart (areas : List VmArea) : Prop := ∀ index vma, areas[index]? = some vma → ¬MeetsOther areas index vma.bytes

/-- 0 stands for a range that is not empty and meets no area but the one at `index`. -/
def DecidesOverlap (mm : Mm) (vmaid : CInt) (index : Nat) (vmastart vmaend : Addr) : Prop :=
  validateOverlapVmArea mm vmaid vmastart vmaend = .ok 0 ↔
    vmastart < vmaend ∧ ¬MeetsOther mm.mmap index (Set.Ico vmastart.toNat vmaend.toNat)

theorem overlapsOther_iff : OverlapsOther mm.mmap index area ↔
    (mm.mmap.zipIdx.any fun (vma, other) =>
      other != index && overlap area.vmStart area.vmEnd vma.vmStart vma.vmEnd) = true := by
  rw [List.any_eq_true]
  constructor
  · intro claimed
    obtain ⟨other, vma, distinct, here, overlaps⟩ := claimed
    refine ⟨(vma, other), List.mem_zipIdx_iff_getElem?.mpr here, ?_⟩
    rw [Bool.and_eq_true, bne_iff_ne]
    exact ⟨distinct, overlaps⟩
  · intro claimed
    obtain ⟨⟨vma, other⟩, member, test⟩ := claimed
    rw [Bool.and_eq_true, bne_iff_ne] at test
    exact ⟨other, vma, test.1, List.mem_zipIdx_iff_getElem?.mp member, test.2⟩

theorem validateOverlapVmArea_iff (found : getVmaByNum mm vmaid = .ok (some (index, area))) :
    validateOverlapVmArea mm vmaid vmastart vmaend = .ok 0 ↔ vmastart < vmaend ∧ ¬OverlapsOther mm.mmap index area := by
  rw [validateOverlapVmArea_eq found, overlapsOther_iff, ← BitVec.not_le, ← not_or]
  split
  · next refused =>
    refine iff_of_false ?_ (not_not.mpr refused)
    intro zero
    cases zero
  · next accepted => exact iff_of_true rfl accepted

theorem decidesOverlap_iff {cur : Nat} (found : getVmaByNum mm vmaid = .ok (some (cur, area))) :
    DecidesOverlap mm vmaid index vmastart vmaend ↔
      (vmastart < vmaend → (OverlapsOther mm.mmap cur area ↔ MeetsOther mm.mmap index (Set.Ico vmastart.toNat vmaend.toNat))) := by
  rw [DecidesOverlap, validateOverlapVmArea_iff found, and_congr_right_iff]
  constructor
  · intro same order
    exact not_iff_not.mp (same order)
  · intro same order
    exact not_iff_not.mpr (same order)

theorem meetsOther_modify {range : Set Nat} (change : VmArea → VmArea) :
    MeetsOther (areas.modify index change) index range ↔ MeetsOther areas index range := by
  refine exists_congr fun other => exists_congr fun vma => and_congr_right fun distinct => ?_
  rw [List.getElem?_modify_ne _ _ distinct.symm]

/-- Areas that are apart stay so under a change of one of them exactly if its new bytes meet no other. -/
theorem areasApart_modify {change : VmArea → VmArea} (apart : AreasApart areas) (here : areas[index]? = some area) :
    AreasApart (areas.modify index change) ↔ ¬MeetsOther areas index (change area).bytes := by
  have there : (areas.modify index change)[index]? = some (change area) := by
    rw [List.getElem?_modify_eq, here]
    rfl
  rw [← meetsOther_modify change]
  constructor
  · intro kept
    exact kept index _ there
  · intro alone first vma atFirst meets
    by_cases same : first = index
    · rw [same] at atFirst meets
      rw [there] at atFirst
      cases atFirst
      exact alone meets
    · obtain ⟨other, next, distinct, atOther, touch⟩ := meets
      rw [List.getElem?_modify_ne _ _ (Ne.symm same)] at atFirst
      by_cases changed : other = index
      · rw [changed, there] at atOther
        cases atOther
        apply alone
        refine ⟨first, vma, same, ?_, fun none => touch none.symm⟩
        rw [List.getElem?_modify_ne _ _ (Ne.symm same)]
        exact atFirst
      · rw [List.getElem?_modify_ne _ _ (Ne.symm changed)] at atOther
        exact apart first vma atFirst ⟨other, next, distinct, atOther, touch⟩

/-- The bounds of two areas that are not empty overlap where they have a byte in common. -/
theorem not_disjoint_of_overlap {vma : VmArea} (proper : area.vmStart < area.vmEnd) (properToo : vma.vmStart < vma.vmEnd)
    (overlaps : overlap area.vmStart area.vmEnd vma.vmStart vma.vmEnd = true) : ¬Disjoint area.bytes vma.bytes := by
  rw [overlap, Bool.and_eq_true, decide_eq_true_eq, decide_eq_true_eq] at overlaps
  simp only [BitVec.lt_def] at proper properToo overlaps
  refine Set.not_disjoint_iff.mpr ⟨max area.vmStart.toNat vma.vmStart.toNat, ?_, ?_⟩
  · exact ⟨Nat.le_max_left _ _, by omega⟩
  · exact ⟨Nat.le_max_right _ _, by omega⟩

theorem AreasApart.not_overlapsOther (apart : AreasApart areas) (proper : ∀ vma ∈ areas, vma.vmStart < vma.vmEnd)
    (here : areas[index]? = some area) : ¬OverlapsOther areas index area := by
  rintro ⟨other, vma, distinct, there, overlaps⟩
  have common := not_disjoint_of_overlap (proper _ (List.mem_of_getElem? here)) (proper _ (List.mem_of_getElem? there)) overlaps
  exact apart index area here ⟨other, vma, distinct, there, common⟩

/-- Among areas that are apart and not empty no present bounds overlap: the function passes every
range, and is right on those that meet no other area. -/
theorem decidesOverlap_iff_of_apart {cur : Nat} {curArea : VmArea} (apart : AreasApart mm.mmap)
    (proper : ∀ vma ∈ mm.mmap, vma.vmStart < vma.vmEnd) (found : getVmaByNum mm vmaid = .ok (some (cur, curArea))) :
    DecidesOverlap mm vmaid index vmastart vmaend ↔
      (vmastart < vmaend → ¬MeetsOther mm.mmap index (Set.Ico vmastart.toNat vmaend.toNat)) := by
  have quiet := apart.not_overlapsOther proper (getVmaByNum_ok found)
  rw [decidesOverlap_iff found]
  constructor
  · intro right ordered meets
    exact quiet ((right ordered).mpr meets)
  · intro alone ordered
    exact iff_of_false quiet (alone ordered)

end Overlap

section Growing
variable {Proc : Type} [DecidableEq Proc] {k : Krnl Proc} {caller owner : Proc} {vmaid : CInt} {incSz : Addr}
  {index : Nat} {area : VmArea}

/-- The call returns, and leaves no two areas with a common byte. -/
def GrowthKeepsApart (k : Krnl Proc) (caller owner : Proc) (vmaid : CInt) (incSz : Addr) : Prop :=
  ∃ code after, incVmaLimit k caller vmaid incSz = .ok (code, after) ∧ AreasApart (after.mms owner).mmap

theorem growthKeepsApart_iff (own : k.mm = some owner) (apart : AreasApart (k.mms owner).mmap)
    (found : getVmaByNum (k.mms owner) vmaid = .ok (some (index, area))) :
    GrowthKeepsApart k caller owner vmaid incSz ↔
      (¬GrowthRefused (k.mms owner) index area (pagingAlign incSz) →
        ¬MeetsOther (k.mms owner).mmap index (Set.Ico area.vmStart.toNat (area.sbrk + pagingAlign incSz).toNat)) := by
  by_cases refused : GrowthRefused (k.mms owner) index area (pagingAlign incSz)
  · exact iff_of_true ⟨-1, k, incVmaLimit_refused own found refused, apart⟩ fun accepted => absurd refused accepted
  · have grows : incVmaLimit k caller vmaid incSz = _ := incVmaLimit_grows own found refused
    have grown : AreasApart ((grownFor k caller owner index area incSz).mms owner).mmap ↔
        ¬MeetsOther (k.mms owner).mmap index (Set.Ico area.vmStart.toNat (area.sbrk + pagingAlign incSz).toNat) := by
      rw [grownFor_mmap, if_pos rfl]
      exact areasApart_modify apart (getVmaByNum_ok found)
    constructor
    · intro kept _
      obtain ⟨code, after, returned, apartAfter⟩ := kept
      rw [grows] at returned
      cases returned
      exact grown.mp apartAfter
    · intro alone
      exact ⟨0, _, grows, grown.mpr (alone refused)⟩

/-- `validate_overlap_vm_area` looks at the present bounds of the area that the lookup gives. It is
right on a planned range exactly if these and the range meet other areas or not alike, and
`inc_vma_limit` keeps the areas apart exactly if it refuses each growth into another area. -/
theorem validate_overlap_vm_area_iff (own : k.mm = some owner) (here : (k.mms owner).mmap[index]? = some area)
    (named : area.Named vmaid) :
    ∃ cur curArea, getVmaByNum (k.mms owner) vmaid = .ok (some (cur, curArea)) ∧
      (∀ vmastart vmaend, DecidesOverlap (k.mms owner) vmaid index vmastart vmaend ↔
        (vmastart < vmaend → (OverlapsOther (k.mms owner).mmap cur curArea ↔
          MeetsOther (k.mms owner).mmap index (Set.Ico vmastart.toNat vmaend.toNat)))) ∧
      (AreasApart (k.mms owner).mmap → ∀ incSz, GrowthKeepsApart k caller owner vmaid incSz ↔
        (¬GrowthRefused (k.mms owner) cur curArea (pagingAlign incSz) →
          ¬MeetsOther (k.mms owner).mmap cur (Set.Ico curArea.vmStart.toNat (curArea.sbrk + pagingAlign incSz).toNat))) := by
  obtain ⟨cur, curArea, found⟩ := getVmaByNum_of_named ⟨area, List.mem_of_getElem? here, named⟩
  refine ⟨cur, curArea, found, ?_, ?_⟩
  · intro vmastart vmaend
    exact decidesOverlap_iff found
  · intro apart incSz
    exact growthKeepsApart_iff own apart found

/-- The process with the two areas is the only one, and `krnl->mm` is its `mm`. -/
def twoAreasKrnl : Krnl Unit := { sixteenFrames with mms := fun _ => twoAreas }

private theorem twoAreas_first {range : Set Nat} : MeetsOther twoAreas.mmap 1 range ↔ ¬Disjoint range (Set.Ico 0 256) := by
  constructor
  · intro meets
    obtain ⟨other, next, distinct, there, touch⟩ := meets
    match other with
    | 0 => cases there; exact touch
    | 1 => exact absurd rfl distinct
    | other + 2 => cases there
  · intro touch
    exact ⟨0, _, Nat.zero_ne_one, rfl, touch⟩

private theorem twoAreas_second {range : Set Nat} : MeetsOther twoAreas.mmap 0 range ↔ ¬Disjoint range (Set.Ico 512 768) := by
  constructor
  · intro meets
    obtain ⟨other, next, distinct, there, touch⟩ := meets
    match other with
    | 0 => exact absurd rfl distinct
    | 1 => cases there; exact touch
    | other + 2 => cases there
  · intro touch
    exact ⟨1, _, Nat.one_ne_zero, rfl, touch⟩

private theorem ico_disjoint {a b c d : Nat} (order : b ≤ c) : Disjoint (Set.Ico a b) (Set.Ico c d) := by
  apply Set.disjoint_left.mpr
  intro byte first second
  exact Nat.not_le.mpr (Nat.lt_of_lt_of_le first.2 order) second.1

private theorem twoAreas_apart : AreasApart twoAreas.mmap := by
  intro index vma here meets
  match index with
  | 0 => cases here; exact twoAreas_second.mp meets (ico_disjoint (by decide))
  | 1 => cases here; exact twoAreas_first.mp meets (ico_disjoint (by decide)).symm
  | index + 2 => cases here

theorem validate_overlap_vm_area_iff_twoAreas :
    DecidesOverlap twoAreas 1 1 768 1024 ∧ GrowthKeepsApart twoAreasKrnl () () 1 256 := by
  obtain ⟨cur, curArea, found, decides, keeps⟩ := @validate_overlap_vm_area_iff Unit _ twoAreasKrnl () () 1 1 _ rfl rfl rfl
  have second : getVmaByNum twoAreas 1 = .ok (some (1, ⟨1, 512, 768, 768, []⟩)) := rfl
  cases found.symm.trans second
  constructor
  · apply (decides 768 1024).mpr
    intro _
    apply iff_of_false
    · intro overlaps
      cases overlapsOther_iff.mp overlaps
    · intro meets
      exact twoAreas_first.mp meets (ico_disjoint (by decide)).symm
  · apply (keeps twoAreas_apart 256).mpr
    intro _ meets
    exact twoAreas_first.mp meets (ico_disjoint (by decide)).symm

/-- The first area, [0, 256), is let to grow by two pages, over the second one at [512, 768). -/
theorem growth_runs_into_next_area :
    AreasApart twoAreas.mmap ∧ validateOverlapVmArea twoAreas 0 256 768 = .ok 0 ∧
      MeetsOther twoAreas.mmap 0 (Set.Ico 256 768) ∧ ¬DecidesOverlap twoAreas 0 0 256 768 ∧
      ¬GrowthKeepsApart twoAreasKrnl () () 0 512 := by
  have accepts : validateOverlapVmArea twoAreas 0 256 768 = .ok 0 := rfl
  have meets : MeetsOther twoAreas.mmap 0 (Set.Ico 256 768) :=
    twoAreas_second.mpr (Set.not_disjoint_iff.mpr ⟨600, by decide, by decide⟩)
  refine ⟨twoAreas_apart, accepts, meets, ?_, ?_⟩
  · intro right
    exact (right.mp accepts).2 meets
  · intro kept
    have first : getVmaByNum twoAreas 0 = .ok (some (0, ⟨0, 0, 256, 256, []⟩)) := rfl
    apply (growthKeepsApart_iff rfl twoAreas_apart first).mp kept
    · intro refused
      rcases refused with wraps | overlaps
      · revert wraps
        decide
      · cases overlaps
    · exact twoAreas_second.mpr (Set.not_disjoint_iff.mpr ⟨600, by decide, by decide⟩)

end Growing
end LamiaAtrium
