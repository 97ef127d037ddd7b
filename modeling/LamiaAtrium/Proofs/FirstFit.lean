import LamiaAtrium.Proofs.Delivery

/-! `get_free_vmrg_area` as a first fit on the free list of one area. -/

namespace LamiaAtrium
open Allocation

section List
variable {size : Addr} {regions rest : List VmRg} {newrg : VmRg}

/-- A region of the free list as a range of bytes in the lower half of the address space. -/
def VmRg.Proper (rg : VmRg) : Prop := rg.rgStart ≤ rg.rgEnd ∧ rg.rgEnd.toNat < 2 ^ 63

def VmRg.length (rg : VmRg) : Nat := rg.rgEnd.toNat - rg.rgStart.toNat

def VmRg.nonempty (rg : VmRg) : Bool := rg.rgStart < rg.rgEnd

/-- The bytes that a free list holds, and how many of its regions hold a byte. -/
def freeBytes (regions : List VmRg) : Set Nat := cells (regions.map VmRg.bytes)

noncomputable def holders (regions : List VmRg) (byte : Nat) : Nat := multiplicity (regions.map VmRg.bytes) byte

def RegionsApart (regions : List VmRg) : Prop := (regions.map VmRg.bytes).Pairwise Disjoint

/-- The list after the first region that fits has lost its first `size` bytes to `newrg`. -/
structure FirstFitCut (size : Nat) (regions rest : List VmRg) (newrg : VmRg) : Prop where
  first : ∃ before rg after, regions = before ++ rg :: after ∧ (∀ earlier ∈ before, earlier.length < size) ∧ size ≤ rg.length ∧
    newrg.rgStart = rg.rgStart ∧ newrg.rgEnd.toNat = rg.rgStart.toNat + size ∧
    rest.filter VmRg.nonempty = before.filter VmRg.nonempty ++
      [VmRg.mk newrg.rgEnd rg.rgEnd].filter VmRg.nonempty ++ after.filter VmRg.nonempty
  holders : ∀ byte, holders regions byte = holders rest byte + open Classical in if byte ∈ newrg.bytes then 1 else 0
  bytes : RegionsApart regions → freeBytes rest = freeBytes regions \ newrg.bytes
  apart : RegionsApart regions → RegionsApart rest

theorem VmRg.Proper.fits_iff {rg : VmRg} (proper : rg.Proper) (bound : size.toNat < 2 ^ 63) :
    rg.rgStart + size ≤ rg.rgEnd ↔ size.toNat ≤ rg.length := by
  obtain ⟨ordered, small⟩ := proper
  rw [BitVec.le_def] at ordered
  rw [BitVec.le_def, BitVec.toNat_add, VmRg.length]
  omega

/-- The pieces that a cut leaves are the remainder of the region, where that has a byte. -/
theorem Remainder.filter_nonempty {middle high : Addr} {pieces : List VmRg} (shape : Remainder middle high pieces) :
    pieces.filter VmRg.nonempty = [VmRg.mk middle high].filter VmRg.nonempty := by
  rcases shape with rfl | ⟨rfl, rfl⟩
  · rfl
  · have nothing : (VmRg.mk middle middle).nonempty = false := by
      rw [VmRg.nonempty, decide_eq_false_iff_not]
      exact BitVec.lt_irrefl middle
    rw [List.filter_cons_of_neg (by simp [nothing])]

theorem carve_cuts_first_fit (proper : ∀ rg ∈ regions, rg.Proper) (bound : size.toNat < 2 ^ 63)
    (found : carve size regions = some (newrg, rest)) : FirstFitCut size.toNat regions rest newrg := by
  obtain ⟨before, rg, after, pieces, list, left, passed, fits, rfl, shape⟩ := carve_some found
  have member : rg ∈ regions := list ▸ List.mem_append_right _ List.mem_cons_self
  have properRg := proper rg member
  have room := (properRg.fits_iff bound).mp fits
  have sum : (rg.rgStart + size).toNat = rg.rgStart.toNat + size.toNat := by
    obtain ⟨ordered, small⟩ := properRg
    rw [BitVec.le_def] at ordered
    rw [BitVec.toNat_add, Nat.mod_eq_of_lt]
    omega
  have cut : Cut rg.bytes (VmRg.mk rg.rgStart (rg.rgStart + size)).bytes (pieces.map VmRg.bytes) := by
    apply Remainder.cut shape
    · omega
    · exact fits
  have blocksBefore : regions.map VmRg.bytes = before.map VmRg.bytes ++ rg.bytes :: after.map VmRg.bytes := by
    rw [list, List.map_append, List.map_cons]
  have blocksAfter : rest.map VmRg.bytes = before.map VmRg.bytes ++ pieces.map VmRg.bytes ++ after.map VmRg.bytes := by
    rw [left, List.map_append, List.map_append]
  constructor
  · refine ⟨before, rg, after, list, ?_, room, rfl, sum, ?_⟩
    · intro earlier early
      have properEarlier := proper earlier (list ▸ List.mem_append_left _ early)
      exact Nat.lt_of_not_le fun long => passed earlier early ((properEarlier.fits_iff bound).mpr long)
    · rw [left, List.filter_append, List.filter_append, Remainder.filter_nonempty shape]
  · intro byte
    rw [holders, holders, blocksBefore, blocksAfter]
    exact cut.multiplicity_eq _ _ byte
  · intro apart
    rw [RegionsApart, blocksBefore] at apart
    rw [freeBytes, freeBytes, blocksBefore, blocksAfter]
    exact cut.cells_eq apart
  · intro apart
    rw [RegionsApart, blocksBefore] at apart
    rw [RegionsApart, blocksAfter]
    exact cut.pairwise_disjoint apart

end List

section Call
variable {mm : Mm} {vmaid size : CInt} {index : Nat} {vma : VmArea}

/-- `get_free_vmrg_area` for a positive size, on an area that the lookup finds. -/
theorem getFreeVmrgArea_found (found : getVmaByNum mm vmaid = .ok (some (index, vma))) (positive : 0 < size.toInt) :
    getFreeVmrgArea mm vmaid size =
      match carve (intToAddr size) vma.vmFreergList with
      | none => .ok (-1, none, mm)
      | some (newrg, vmFreergList) =>
        let mm := mm.modifyArea index fun vma => { vma with vmFreergList }
        if newrg.rgStart = -1 then .ok (-1, some newrg, mm) else .ok (0, some newrg, mm) := by
  have sign : ¬ size.sle 0#32 = true := by
    rw [BitVec.sle_iff_toInt_le]
    exact Int.not_le.mpr positive
  rw [getFreeVmrgArea, if_neg sign, found]
  rfl

/-- First fit, for every free list of proper regions: a request that some region can hold gets
the first bytes of the first such region, and any other changes nothing. The cut takes each byte
out of one region, so the bytes of a list without overlaps shrink by exactly those handed out. -/
theorem get_free_vmrg_area_first_fit (found : getVmaByNum mm vmaid = .ok (some (index, vma)))
    (proper : ∀ rg ∈ vma.vmFreergList, rg.Proper) (positive : 0 < size.toInt) :
    ((∃ rg ∈ vma.vmFreergList, size.toNat ≤ rg.length) → ∃ newrg rest,
      getFreeVmrgArea mm vmaid size = .ok (0, some newrg, mm.modifyArea index fun vma => { vma with vmFreergList := rest }) ∧
        FirstFitCut size.toNat vma.vmFreergList rest newrg) ∧
    ((∀ rg ∈ vma.vmFreergList, rg.length < size.toNat) → getFreeVmrgArea mm vmaid size = .ok (-1, none, mm)) := by
  have same := intToAddr_toNat positive
  have bound : (intToAddr size).toNat < 2 ^ 63 := by
    have width := size.isLt
    omega
  rw [getFreeVmrgArea_found found positive]
  cases cut : carve (intToAddr size) vma.vmFreergList with
  | none =>
    refine ⟨?_, fun _ => rfl⟩
    intro claimed
    obtain ⟨rg, member, long⟩ := claimed
    have passed := carve_eq_none_iff.mp cut rg member
    rw [(proper rg member).fits_iff bound, same] at passed
    exact absurd long passed
  | some pair =>
    obtain ⟨newrg, rest⟩ := pair
    have shape := carve_cuts_first_fit proper bound cut
    rw [same] at shape
    obtain ⟨before, rg, after, list, _, room, start, _⟩ := shape.first
    have member : rg ∈ vma.vmFreergList := list ▸ List.mem_append_right _ List.mem_cons_self
    constructor
    · intro _
      refine ⟨newrg, rest, ?_, shape⟩
      have low : newrg.rgStart ≠ -1 := by
        obtain ⟨ordered, small⟩ := proper rg member
        rw [start]
        intro last
        rw [BitVec.le_def, last] at ordered
        have top : (-1 : Addr).toNat = 2 ^ 64 - 1 := rfl
        omega
      exact if_neg low
    · intro short
      exact absurd room (Nat.not_le.mpr (short rg member))

/-- A process whose only area has this free list. -/
def withFreeList (regions : List VmRg) : Mm :=
  { initMm [] with mmap := [{ vmId := 0, vmStart := 0, vmEnd := 4096, sbrk := 4096, vmFreergList := regions }] }

def threeRegions : List VmRg := [⟨0, 4⟩, ⟨8, 16⟩, ⟨32, 64⟩]

private theorem threeRegions_proper : ∀ rg ∈ threeRegions, rg.Proper := by
  intro rg member
  simp only [threeRegions, List.mem_cons, List.not_mem_nil, or_false] at member
  rcases member with rfl | rfl | rfl <;> exact ⟨by decide, by decide⟩

/-- The middle region fits exactly, and its node is taken over by the last region. -/
theorem get_free_vmrg_area_first_fit_threeRegions : ∃ newrg rest,
    getFreeVmrgArea (withFreeList threeRegions) 0 8 =
        .ok (0, some newrg, (withFreeList threeRegions).modifyArea 0 fun vma => { vma with vmFreergList := rest }) ∧
      FirstFitCut 8 threeRegions rest newrg :=
  (@get_free_vmrg_area_first_fit (withFreeList threeRegions) 0 8 0 _ rfl threeRegions_proper (by decide)).1
    ⟨⟨8, 16⟩, by simp [threeRegions], by decide⟩

def twiceFree : List VmRg := [⟨0, 10⟩, ⟨0, 10⟩]

/-- With one range on the list twice, the bytes handed out are still on it. -/
theorem overlapping_region_stays_free :
    (∀ rg ∈ twiceFree, rg.Proper) ∧
    getFreeVmrgArea (withFreeList twiceFree) 0 10 = .ok (0, some ⟨0, 10⟩, withFreeList [⟨0, 10⟩]) ∧
    freeBytes [⟨0, 10⟩] ≠ freeBytes twiceFree \ VmRg.bytes ⟨0, 10⟩ := by
  refine ⟨?_, rfl, ?_⟩
  · intro rg member
    simp only [twiceFree, List.mem_cons, List.not_mem_nil, or_false, or_self] at member
    subst member
    exact ⟨by decide, by decide⟩
  · intro same
    have inside : 0 ∈ VmRg.bytes ⟨0, 10⟩ := ⟨Nat.le_refl 0, by decide⟩
    have free : 0 ∈ freeBytes [⟨0, 10⟩] := ⟨_, List.mem_singleton_self _, inside⟩
    rw [same] at free
    exact free.2 inside

end Call
end LamiaAtrium
