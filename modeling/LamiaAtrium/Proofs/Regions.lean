import LamiaAtrium.Libmem
import LamiaAtrium.Library.Allocation
import LamiaAtrium.Library.Run
import LamiaAtrium.Proofs.Growth
import Mathlib.Order.Interval.Set.Disjoint

/-! The region allocator of `__alloc` and `__free` over one area: no two regions share a
byte, and when a byte can be lost. -/

namespace LamiaAtrium
open Allocation Run
variable {Proc : Type} [DecidableEq Proc]

section Frame
variable {k after : Krnl Proc} {caller : Proc}

/-- What growing an area leaves alone in a process: the symbol table, and of the areas
everything but the break and the end. -/
structure GrowthFrame (before after : Mm) : Prop where
  symrgtbl : after.symrgtbl = before.symrgtbl
  areas : after.mmap = before.mmap ∨
    ∃ index brk, after.mmap = before.mmap.modify index fun area => { area with sbrk := brk, vmEnd := brk }

theorem GrowthFrame.refl (mm : Mm) : GrowthFrame mm mm := ⟨rfl, .inl rfl⟩

/-- Whatever `inc_vma_limit` returns, it has moved at most the break of one area. -/
theorem incVmaLimit_frame {found : Proc} {vmaid : CInt} {incSz : Addr} {code : Int}
    (returned : incVmaLimit k found vmaid incSz = .ok (code, after)) (p : Proc) : GrowthFrame (k.mms p) (after.mms p) := by
  obtain ⟨owner, _, ⟨_, rfl, _⟩ | ⟨_, index, vma, _, _, rfl⟩⟩ := incVmaLimit_cases returned
  · exact .refl _
  · refine ⟨grownFor_symrgtbl k found p vma incSz, ?_⟩
    rw [grownFor_mmap]
    split
    · exact .inr ⟨index, _, rfl⟩
    · exact .inl rfl

theorem syscall_inc_frame {env : Env Proc} {pid : CInt} {a2 a3 : Addr} {code : Int} {regs : ScRegs}
    (returned : syscall env k pid 17 { a1 := 2, a2, a3 } = .ok (code, regs, after)) (p : Proc) :
    GrowthFrame (k.mms p) (after.mms p) := by
  rcases syscall_answered returned with ⟨_, same⟩ | ⟨owner, found⟩
  · cases same
    exact .refl _
  · rw [syscall_inc found] at returned
    obtain ⟨⟨_, grown⟩, grew, returned⟩ := Outcome.bind_eq_ok returned
    cases returned
    exact incVmaLimit_frame grew p

end Frame

section Carve

/-- A free region that no request fits, by the code's own test. -/
def VmRg.Unusable (rg : VmRg) : Prop := ∀ size : CInt, 0 < size.toInt → ¬ rg.rgStart + intToAddr size ≤ rg.rgEnd

def VmRg.bytes (rg : VmRg) : Set Nat := Set.Ico rg.rgStart.toNat rg.rgEnd.toNat

theorem carve_eq_none_iff {size : Addr} {regions : List VmRg} :
    carve size regions = none ↔ ∀ rg ∈ regions, ¬ rg.rgStart + size ≤ rg.rgEnd := by
  induction regions with
  | nil => exact iff_of_true rfl (List.forall_mem_nil _)
  | cons rg rest ih =>
    rw [List.forall_mem_cons, carve]
    by_cases fits : rg.rgStart + size ≤ rg.rgEnd
    · rw [if_pos fits]
      refine iff_of_false ?_ fun all => all.1 fits
      intro none
      dsimp only at none
      split at none
      · cases none
      · split at none <;> cases none
    · rw [if_neg fits, Option.map_eq_none_iff, ih]
      exact (and_iff_right fits).symm

/-- First fit cuts the head off the first region that fits and leaves the rest of it, or,
if nothing is left and another region follows, nothing. -/
theorem carve_some {size : Addr} {regions rest : List VmRg} {chosen : VmRg} (found : carve size regions = some (chosen, rest)) :
    ∃ before rg after pieces, regions = before ++ rg :: after ∧ rest = before ++ pieces ++ after ∧
      (∀ earlier ∈ before, ¬ earlier.rgStart + size ≤ earlier.rgEnd) ∧ rg.rgStart + size ≤ rg.rgEnd ∧ chosen = { rgStart := rg.rgStart, rgEnd := rg.rgStart + size } ∧
      (pieces = [{ rgStart := rg.rgStart + size, rgEnd := rg.rgEnd }] ∨ pieces = [] ∧ rg.rgStart + size = rg.rgEnd) := by
  induction regions generalizing rest with
  | nil => cases found
  | cons rg after ih =>
    rw [carve] at found
    by_cases fits : rg.rgStart + size ≤ rg.rgEnd
    · rw [if_pos fits] at found
      by_cases left : rg.rgStart + size < rg.rgEnd
      · simp only [if_pos left] at found
        cases found
        exact ⟨[], rg, after, _, rfl, rfl, by simp, fits, rfl, .inl rfl⟩
      · have used : rg.rgStart + size = rg.rgEnd := BitVec.le_antisymm fits (BitVec.not_lt.mp left)
        simp only [if_neg left] at found
        cases after with
        | nil =>
          cases found
          exact ⟨[], rg, [], [{ rgStart := rg.rgStart + size, rgEnd := rg.rgEnd }], rfl, by rw [used]; rfl, by simp, fits, rfl, .inl rfl⟩
        | cons next after =>
          cases found
          exact ⟨[], rg, next :: after, [], rfl, rfl, by simp, fits, rfl, .inr ⟨rfl, used⟩⟩
    · simp only [if_neg fits, Option.map_eq_some_iff] at found
      obtain ⟨⟨picked, remaining⟩, later, same⟩ := found
      cases same
      obtain ⟨before, cut, tail, pieces, list, left, passed, fitsThere, region, shape⟩ := ih later
      refine ⟨rg :: before, cut, tail, pieces, by rw [list]; rfl, by rw [left]; rfl, ?_, fitsThere, region, shape⟩
      intro earlier member
      rcases List.mem_cons.mp member with rfl | member
      · exact fits
      · exact passed earlier member

end Carve

section Calls
variable {mm : Mm} {vma : VmArea} {vmaid : CInt}

omit [DecidableEq Proc] in
theorem single_area {found : Option (Nat × VmArea)} (areas : mm.mmap = [vma]) (lookup : getVmaByNum mm vmaid = .ok found) :
    found = some (0, vma) := by
  cases found with
  | none =>
    rw [getVmaByNum, areas] at lookup
    obtain ⟨pair, _, same⟩ := Outcome.bind_eq_ok lookup
    cases same
  | some pair =>
    obtain ⟨index, area⟩ := pair
    have here := getVmaByNum_ok lookup
    rw [areas] at here
    cases index with
    | zero => cases here; rfl
    | succ index => cases here

/-- `get_free_vmrg_area` on a single area: it fails and changes nothing, or carves. -/
theorem getFreeVmrgArea_cases {size : CInt} {code : Int} {chosen : Option VmRg} {after : Mm} (areas : mm.mmap = [vma])
    (returned : getFreeVmrgArea mm vmaid size = .ok (code, chosen, after)) :
    (code = -1 ∧ after = mm ∧ (0 < size.toInt → carve (intToAddr size) vma.vmFreergList = none)) ∨
    0 < size.toInt ∧ ∃ newrg rest, carve (intToAddr size) vma.vmFreergList = some (newrg, rest) ∧ chosen = some newrg ∧
      after = { mm with mmap := [{ vma with vmFreergList := rest }] } ∧ (code = 0 ∨ newrg.rgStart = -1) := by
  unfold getFreeVmrgArea at returned
  by_cases positive : size.sle 0#32 = true
  · rw [if_pos positive] at returned
    cases returned
    refine .inl ⟨rfl, rfl, fun sign => ?_⟩
    rw [BitVec.sle_iff_toInt_le] at positive
    exact absurd sign (not_lt.mpr positive)
  · rw [if_neg positive] at returned
    obtain ⟨found, lookup, returned⟩ := Outcome.bind_eq_ok returned
    rw [single_area areas lookup] at returned
    have sign : 0 < size.toInt := by simpa [BitVec.sle_iff_toInt_le] using positive
    cases cut : carve (intToAddr size) vma.vmFreergList with
    | none =>
      simp only [cut] at returned
      cases returned
      exact .inl ⟨rfl, rfl, fun _ => rfl⟩
    | some pair =>
      obtain ⟨newrg, rest⟩ := pair
      right
      refine ⟨sign, newrg, rest, rfl, ?_⟩
      have modified : mm.modifyArea 0 (fun vma => { vma with vmFreergList := rest }) =
          { mm with mmap := [{ vma with vmFreergList := rest }] } := by rw [Mm.modifyArea, areas]; rfl
      simp only [cut, modified] at returned
      by_cases last : newrg.rgStart = -1
      · rw [if_pos last] at returned
        cases returned
        exact ⟨rfl, rfl, .inr last⟩
      · rw [if_neg last] at returned
        cases returned
        exact ⟨rfl, rfl, .inl rfl⟩

omit [DecidableEq Proc] in
theorem setSymrg_ok {index : Nat} (inside : index < pagingMaxSymtblSz) (rg : VmRg) :
    mm.setSymrg index rg = .ok { mm with symrgtbl := Function.update mm.symrgtbl ⟨index, inside⟩ rg } := by
  rw [Mm.setSymrg, dif_pos inside]

/-- The free list serves no part of the request. -/
def NoFit (mm : Mm) (vmaid : CInt) (size : Addr) : Prop :=
  ∃ chosen after, getFreeVmrgArea mm vmaid (addrToInt size) = .ok (-1, chosen, after)

/-- What `__alloc` puts on the free list when it has grown the area. -/
def leftover (oldBrk size : Addr) : List VmRg :=
  if oldBrk + size < oldBrk + growBytes size then [{ rgStart := oldBrk + size, rgEnd := oldBrk + growBytes size }] else []

structure Carved (before : Mm) (vma : VmArea) (reg : Fin pagingMaxSymtblSz) (size : Addr) (after : Mm) : Prop where
  positive : 0 < (addrToInt size).toInt
  cut : ∃ newrg rest, carve (intToAddr (addrToInt size)) vma.vmFreergList = some (newrg, rest) ∧
    after = { before with
      mmap := [{ vma with vmFreergList := rest }]
      symrgtbl := Function.update before.symrgtbl reg newrg }

/-- The request was served at the old break, whatever became of the break since. -/
structure TakenAtBreak (before : Mm) (vma : VmArea) (vmaid : CInt) (reg : Fin pagingMaxSymtblSz) (size : Addr) (after : Mm) :
    Prop where
  noFit : NoFit before vmaid size
  table : after.symrgtbl = Function.update before.symrgtbl reg { rgStart := vma.sbrk, rgEnd := vma.sbrk + size }
  area : ∃ sbrk vmEnd, after.mmap = [{ vma with sbrk, vmEnd, vmFreergList := leftover vma.sbrk size ++ vma.vmFreergList }]

variable {k after : Krnl Proc} {caller : Proc} {env : Env Proc} {area : Nat} {size : Addr} {code : Int} {allocAddr : Option Addr}

private theorem keepExtra_mmap (middle : Mm) (grown : VmArea) (areas : middle.mmap = [grown]) (oldBrk size : Addr) :
    (keepExtra middle 0 oldBrk size (growBytes size)).mmap =
      [{ grown with vmFreergList := leftover oldBrk size ++ grown.vmFreergList }] := by
  rw [keepExtra, leftover]
  split
  · rw [Mm.modifyArea, areas]; rfl
  · exact areas

private theorem keepExtra_symrgtbl (middle : Mm) (oldBrk size : Addr) :
    (keepExtra middle area oldBrk size (growBytes size)).symrgtbl = middle.symrgtbl := by
  rw [keepExtra]
  split <;> rfl

private theorem allocGrow_cases {reg : Fin pagingMaxSymtblSz} (areas : (k.mms caller).mmap = [vma])
    (returned : allocGrow env k caller vmaid 0 reg size = .ok (code, allocAddr, after)) :
    (after.mms caller).symrgtbl =
        Function.update (k.mms caller).symrgtbl reg { rgStart := vma.sbrk, rgEnd := vma.sbrk + size } ∧
      ∃ sbrk vmEnd, (after.mms caller).mmap =
        [{ vma with sbrk, vmEnd, vmFreergList := leftover vma.sbrk size ++ vma.vmFreergList }] := by
  obtain ⟨start, here, returned⟩ := Outcome.bind_eq_ok returned
  obtain ⟨pid, _, returned⟩ := Outcome.bind_eq_ok returned
  obtain ⟨⟨_, _, grown⟩, called, returned⟩ := Outcome.bind_eq_ok returned
  obtain ⟨table, stored, returned⟩ := Outcome.bind_eq_ok returned
  have same : start = vma := by
    rw [Mm.area, areas] at here
    cases here
    rfl
  subst same
  have frame := syscall_inc_frame called caller
  rw [setSymrg_ok reg.isLt] at stored
  cases stored
  cases returned
  have middle : ∃ sbrk vmEnd, (grown.mms caller).mmap = [{ start with sbrk, vmEnd }] := by
    rcases frame.areas with kept | ⟨index, brk, moved⟩
    · exact ⟨start.sbrk, start.vmEnd, kept.trans areas⟩
    · rw [areas] at moved
      cases index with
      | zero => exact ⟨brk, brk, moved⟩
      | succ index => exact ⟨start.sbrk, start.vmEnd, moved.trans (by simp)⟩
  obtain ⟨sbrk, vmEnd, areasAfter⟩ := middle
  rw [Krnl.setMm_same]
  refine ⟨by rw [keepExtra_symrgtbl, frame.symrgtbl], sbrk, vmEnd, ?_⟩
  refine keepExtra_mmap _ { start with sbrk, vmEnd } ?_ _ _
  exact areasAfter

/-- `__alloc` on a single area, for a size that is not 0. Regions that start at the last
address are the one thing first fit refuses after it has cut them. -/
theorem alloc_cases (reg : Fin pagingMaxSymtblSz) {rgid : CInt} (areas : (k.mms caller).mmap = [vma]) (positive : 0#64 < size)
    (register : rgid.toNat = reg) (sound : 0 < (addrToInt size).toInt → ∀ rg ∈ vma.vmFreergList, rg.rgStart ≠ -1)
    (returned : alloc env k caller vmaid rgid size = .ok (code, allocAddr, after)) :
    Carved (k.mms caller) vma reg size (after.mms caller) ∨
      TakenAtBreak (k.mms caller) vma vmaid reg size (after.mms caller) := by
  rw [alloc, if_neg (BitVec.not_le.mpr positive)] at returned
  obtain ⟨found, lookup, returned⟩ := Outcome.bind_eq_ok returned
  rw [single_area areas lookup] at returned
  obtain ⟨⟨fit, chosen, mm⟩, tried, returned⟩ := Outcome.bind_eq_ok returned
  rcases getFreeVmrgArea_cases areas tried with ⟨rfl, rfl, _⟩ | ⟨sign, newrg, rest, cut, rfl, rfl, served⟩
  · right
    have grown : allocGrow env (k.setMm caller (k.mms caller)) caller vmaid 0 reg size = .ok (code, allocAddr, after) :=
      register ▸ returned
    obtain ⟨table, area⟩ := allocGrow_cases (by rw [Krnl.setMm_same]; exact areas) grown
    rw [Krnl.setMm_same] at table
    exact ⟨⟨chosen, _, tried⟩, table, area⟩
  · left
    have start : newrg.rgStart ≠ -1 := by
      obtain ⟨before, rg, tail, pieces, list, _, _, _, region, _⟩ := carve_some cut
      rw [region]
      exact sound sign rg (list ▸ List.mem_append_right _ List.mem_cons_self)
    rcases served with rfl | last
    · refine ⟨sign, newrg, rest, cut, ?_⟩
      obtain ⟨table, stored, returned⟩ := Outcome.bind_eq_ok returned
      rw [register, setSymrg_ok reg.isLt] at stored
      cases stored
      cases returned
      rw [Krnl.setMm_same]
    · exact absurd last start

end Calls
section Invariant

def Mm.live (mm : Mm) : Fin pagingMaxSymtblSz → Set Nat := VmRg.bytes ∘ mm.symrgtbl

def VmArea.free (vma : VmArea) : List (Set Nat) := vma.vmFreergList.map VmRg.bytes

def VmArea.space (vma : VmArea) : Set Nat := Set.Ico vma.vmStart.toNat vma.sbrk.toNat

abbrev Vacant (mm : Mm) (reg : Fin pagingMaxSymtblSz) : Prop := mm.symrgtbl reg = { rgStart := 0, rgEnd := 0 }

/-- The invariant of a process with a single area. A region of the free list that never
serves a request may hold anything; every other region is a range below the break. -/
structure RegionsOk (mm : Mm) (vma : VmArea) : Prop where
  areas : mm.mmap = [vma]
  start : vma.vmStart.toNat ≤ vma.sbrk.toNat
  liveProper : ∀ reg, Vacant mm reg ∨ (mm.symrgtbl reg).rgStart.toNat < (mm.symrgtbl reg).rgEnd.toNat
  freeProper : ∀ rg ∈ vma.vmFreergList, rg.Unusable ∨ rg.rgStart.toNat ≤ rg.rgEnd.toNat ∧ rg.rgEnd.toNat ≤ vma.sbrk.toNat
  separated : Separated vma.space mm.live vma.free

/-- First fit does not wrap around on any region that it could choose. -/
def FitsUnwrapped (vma : VmArea) (size : Addr) : Prop :=
  ∀ rg ∈ vma.vmFreergList, rg.Unusable ∨ rg.rgStart.toNat + (addrToInt size).toNat < 2 ^ 64

variable {mm after : Mm} {vma grown : VmArea} {rg : VmRg} {reg : Fin pagingMaxSymtblSz} {size : Addr} {vmaid : CInt}

theorem VmRg.Unusable.start_ne (unusable : rg.Unusable) : rg.rgStart ≠ -1 := by
  intro last
  apply unusable 1 (by decide)
  rw [last]
  show (0#64 : Addr) ≤ rg.rgEnd
  exact BitVec.not_lt.mp BitVec.not_lt_zero

theorem VmRg.Unusable.bytes_eq (unusable : rg.Unusable) : rg.bytes = ∅ := by
  apply Set.Ico_eq_empty
  intro inside
  apply unusable 1 (by decide)
  have one : (intToAddr 1).toNat = 1 := rfl
  have bound := rg.rgEnd.isLt
  rw [BitVec.le_def, BitVec.toNat_add, one]
  omega

theorem bytes_vacant : VmRg.bytes { rgStart := 0, rgEnd := 0 } = ∅ := Set.Ico_self _

theorem intToAddr_toNat {value : CInt} (positive : 0 < value.toInt) : (intToAddr value).toNat = value.toNat := by
  have sign : value.msb = false := by
    rw [BitVec.msb_eq_toInt, decide_eq_false_iff_not]
    omega
  rw [intToAddr, BitVec.signExtend_eq_setWidth_of_msb_false sign, BitVec.toNat_setWidth_of_le (by decide)]

theorem VmRg.unusable_zero : VmRg.Unusable { rgStart := 0, rgEnd := 0 } := by
  intro size positive fits
  have same := toInt_of_nonneg (Int.le_of_lt positive)
  rw [BitVec.le_def, BitVec.toNat_add, intToAddr_toNat positive] at fits
  change (0 + size.toNat) % 2 ^ 64 ≤ 0 at fits
  have bound := size.isLt
  omega

theorem growBytes_toNat (bound : size.toNat < 2 ^ 63) : (growBytes size).toNat = (size.toNat + 4095) / 4096 * 4096 := by
  simp only [growBytes, BitVec.toNat_mul, BitVec.toNat_udiv, BitVec.toNat_sub, BitVec.toNat_add, BitVec.toNat_ofNat,
    Nat.reducePow, Nat.reduceMod] at *
  omega

/-- What is left of a range behind its head: one region, or none if the head is all. -/
def Remainder (middle high : Addr) (pieces : List VmRg) : Prop :=
  pieces = [{ rgStart := middle, rgEnd := high }] ∨ pieces = [] ∧ middle = high

theorem Remainder.cut {low middle high : Addr} {pieces : List VmRg} (shape : Remainder middle high pieces)
    (first : low.toNat ≤ middle.toNat) (second : middle.toNat ≤ high.toNat) :
    Cut (Set.Ico low.toNat high.toNat) (Set.Ico low.toNat middle.toNat) (pieces.map VmRg.bytes) := by
  rcases shape with rfl | ⟨rfl, rfl⟩
  · constructor
    · exact Set.Ico_subset_Ico_right second
    · intro piece chosen
      rw [List.mem_singleton.mp chosen]
      exact Set.Ico_subset_Ico_left first
    · intro piece chosen
      rw [List.mem_singleton.mp chosen]
      exact Set.Ico_disjoint_Ico_same
    · exact List.pairwise_singleton _ _
    · intro cell inside
      rcases Nat.lt_or_ge cell middle.toNat with before | behind
      · exact .inl ⟨inside.1, before⟩
      · exact .inr ⟨_, List.mem_singleton_self _, behind, inside.2⟩
  · exact ⟨subset_rfl, fun _ chosen => (by cases chosen), fun _ chosen => (by cases chosen), List.Pairwise.nil,
      fun _ inside => .inl inside⟩

/-- A cut of the free list keeps the invariant and the break. It loses nothing if the
register was vacant. -/
theorem regions_carved (ok : RegionsOk mm vma) (unwrapped : FitsUnwrapped vma size) (carved : Carved mm vma reg size after) :
    ∃ vma', RegionsOk after vma' ∧ vma'.vmStart = vma.vmStart ∧ vma'.sbrk = vma.sbrk ∧
      (Vacant mm reg → Covered vma.space mm.live vma.free → Covered vma'.space after.live vma'.free) := by
  obtain ⟨positive, newrg, rest, found, rfl⟩ := carved
  obtain ⟨before, rg, tail, pieces, list, left, _, fits, rfl, shape⟩ := carve_some found
  have member : rg ∈ vma.vmFreergList := list ▸ List.mem_append_right _ List.mem_cons_self
  have usable : ¬ rg.Unusable := fun unusable => unusable _ positive fits
  have noWrap := (unwrapped rg member).resolve_left usable
  obtain ⟨ordered, below⟩ := (ok.freeProper rg member).resolve_left usable
  have sum : (rg.rgStart + intToAddr (addrToInt size)).toNat = rg.rgStart.toNat + (addrToInt size).toNat := by
    rw [BitVec.toNat_add, intToAddr_toNat positive, Nat.mod_eq_of_lt noWrap]
  have same := toInt_of_nonneg (Int.le_of_lt positive)
  have some : 0 < (addrToInt size).toNat := by omega
  rw [BitVec.le_def] at fits
  have cut : Cut rg.bytes _ (pieces.map VmRg.bytes) := Remainder.cut shape (by omega) fits
  have freeBefore : vma.free = before.map VmRg.bytes ++ rg.bytes :: tail.map VmRg.bytes := by
    rw [VmArea.free, list, List.map_append, List.map_cons]
  have freeAfter : rest.map VmRg.bytes = before.map VmRg.bytes ++ pieces.map VmRg.bytes ++ tail.map VmRg.bytes := by
    rw [left, List.map_append, List.map_append]
  refine ⟨{ vma with vmFreergList := rest }, ?_, rfl, rfl, ?_⟩
  · constructor
    · rfl
    · exact ok.start
    · intro other
      by_cases same : other = reg
      · subst same
        right
        simp only [Function.update_self]
        omega
      · simp only [Vacant, Function.update_of_ne same]
        exact ok.liveProper other
    · intro region chosen
      rw [left] at chosen
      rcases List.mem_append.mp chosen with early | late
      · rcases List.mem_append.mp early with first | piece
        · exact ok.freeProper region (list ▸ List.mem_append_left _ first)
        · rcases shape with rfl | ⟨rfl, _⟩
          · rw [List.mem_singleton.mp piece]
            exact .inr ⟨fits, below⟩
          · cases piece
      · exact ok.freeProper region (list ▸ List.mem_append_right _ (List.mem_cons_of_mem _ late))
    · have separated := ok.separated
      rw [freeBefore] at separated
      rw [Mm.live, Function.comp_update, VmArea.free, freeAfter]
      exact separated.carve reg cut
  · intro vacant covered
    rw [freeBefore] at covered
    rw [Mm.live, Function.comp_update, VmArea.free, freeAfter]
    exact covered.carve (by rw [Mm.live, Function.comp_apply, vacant, bytes_vacant]) cut

/-- The single area's break has moved up by so many bytes. -/
def AreaGrew (before after : Mm) (grow : Addr) : Prop :=
  ∃ vma vma', before.mmap = [vma] ∧ after.mmap = [vma'] ∧ vma'.sbrk.toNat = vma.sbrk.toNat + grow.toNat

/-- A growth that moved the break as asked keeps the invariant. It loses nothing if the
register was vacant. -/
theorem regions_grown (ok : RegionsOk mm vma) (low : 0 < size.toNat) (high : size.toNat < 2 ^ 63)
    (taken : TakenAtBreak mm vma vmaid reg size after) (grew : AreaGrew mm after (growBytes size)) :
    ∃ vma', RegionsOk after vma' ∧ vma'.vmStart = vma.vmStart ∧
      (Vacant mm reg → Covered vma.space mm.live vma.free → Covered vma'.space after.live vma'.free) := by
  obtain ⟨sbrk, vmEnd, areas⟩ := taken.area
  have moved : sbrk.toNat = vma.sbrk.toNat + (growBytes size).toNat := by
    obtain ⟨old, new, before, behind, moved⟩ := grew
    rw [ok.areas] at before
    rw [areas] at behind
    cases before
    cases behind
    exact moved
  have grow := growBytes_toNat high
  have bound := sbrk.isLt
  have middle : (vma.sbrk + size).toNat = vma.sbrk.toNat + size.toNat := by rw [BitVec.toNat_add]; omega
  have top : vma.sbrk + growBytes size = sbrk := by
    apply BitVec.eq_of_toNat_eq
    rw [BitVec.toNat_add]
    omega
  have shape : Remainder (vma.sbrk + size) sbrk (leftover vma.sbrk size) := by
    by_cases room : vma.sbrk + size < sbrk
    · rw [leftover, top, if_pos room]
      exact .inl rfl
    · rw [leftover, top, if_neg room]
      rw [BitVec.lt_def] at room
      exact .inr ⟨rfl, BitVec.eq_of_toNat_eq (by omega)⟩
  have cut : Cut (Set.Ico vma.sbrk.toNat sbrk.toNat) _ ((leftover vma.sbrk size).map VmRg.bytes) :=
    Remainder.cut shape (by omega) (by omega)
  have start := ok.start
  have liveAfter : after.live = Function.update mm.live reg (Set.Ico vma.sbrk.toNat (vma.sbrk + size).toNat) := by
    rw [Mm.live, taken.table, Function.comp_update]
    rfl
  have freeAfter : (leftover vma.sbrk size ++ vma.vmFreergList).map VmRg.bytes =
      (leftover vma.sbrk size).map VmRg.bytes ++ vma.free := List.map_append
  refine ⟨_, ⟨areas, ?_, ?_, ?_, ?_⟩, rfl, ?_⟩
  · show vma.vmStart.toNat ≤ sbrk.toNat
    omega
  · intro other
    by_cases same : other = reg
    · subst same
      right
      simp only [taken.table, Function.update_self]
      omega
    · simp only [Vacant, taken.table, Function.update_of_ne same]
      exact ok.liveProper other
  · intro region chosen
    show region.Unusable ∨ region.rgStart.toNat ≤ region.rgEnd.toNat ∧ region.rgEnd.toNat ≤ sbrk.toNat
    rcases List.mem_append.mp chosen with extra | old
    · rcases shape with only | ⟨none, _⟩
      · rw [only] at extra
        rw [List.mem_singleton.mp extra]
        right
        constructor
        · show (vma.sbrk + size).toNat ≤ sbrk.toNat
          omega
        · exact Nat.le_refl _
      · rw [none] at extra
        cases extra
    · rcases ok.freeProper region old with unusable | ⟨ordered, below⟩
      · exact .inl unusable
      · exact .inr ⟨ordered, by omega⟩
  · rw [liveAfter, VmArea.free, freeAfter]
    refine ok.separated.grow reg ?_ ?_ ?_ cut
    · show Set.Ico vma.vmStart.toNat vma.sbrk.toNat ⊆ Set.Ico vma.vmStart.toNat sbrk.toNat
      exact Set.Ico_subset_Ico_right (by omega)
    · exact Set.Ico_subset_Ico_left start
    · exact Set.Ico_disjoint_Ico_same
  · intro vacant covered
    rw [liveAfter, VmArea.free, freeAfter]
    refine covered.grow (by rw [Mm.live, Function.comp_apply, vacant, bytes_vacant]) ?_ cut
    intro cell inside
    rcases Nat.lt_or_ge cell vma.sbrk.toNat with old | new
    · exact .inl ⟨inside.1, old⟩
    · exact .inr ⟨new, inside.2⟩

theorem free_cases (reg : Fin pagingMaxSymtblSz) {k last : Krnl Proc} {caller : Proc} {rgid : CInt} {code : Int}
    (areas : (k.mms caller).mmap = [vma]) (register : rgid.toNat = reg) (returned : LamiaAtrium.free k caller vmaid rgid = .ok (code, last)) :
    (Vacant (k.mms caller) reg ∧ last = k) ∨
    ¬ Vacant (k.mms caller) reg ∧ ∃ regions, (last.mms caller) = { k.mms caller with
        mmap := [{ vma with vmFreergList := regions }]
        symrgtbl := Function.update (k.mms caller).symrgtbl reg { rgStart := 0, rgEnd := 0 } } ∧
      (((k.mms caller).symrgtbl reg).rgStart.toNat < ((k.mms caller).symrgtbl reg).rgEnd.toNat →
        regions = (k.mms caller).symrgtbl reg :: vma.vmFreergList) := by
  have inside : rgid.toNat < 30 := register ▸ reg.isLt
  have sign : rgid.toInt = rgid.toNat := BitVec.toInt_eq_toNat_of_lt (by omega)
  have negative : rgid.slt 0#32 = false := by simp [BitVec.slt_eq_decide, sign]
  have within : ¬ ((30#32).sle rgid = true) := by
    rw [BitVec.sle_iff_toInt_le, sign]
    show ¬ (30 : Int) ≤ rgid.toNat
    omega
  have strictly : (30#32).slt rgid = false := by
    rw [BitVec.slt_eq_decide, sign, decide_eq_false_iff_not]
    show ¬ (30 : Int) < rgid.toNat
    omega
  have entry : (k.mms caller).symrg rgid.toNat = .ok ((k.mms caller).symrgtbl reg) := by
    rw [register, Mm.symrg, dif_pos reg.isLt]
  have lookup : getSymrgByid rgid = some rgid.toNat := by rw [getSymrgByid, negative, strictly]; rfl
  rw [LamiaAtrium.free, negative, if_neg (by simp only [within]; simp)] at returned
  simp only [lookup, entry, Outcome.bind_ok] at returned
  by_cases vacant : ((k.mms caller).symrgtbl reg).rgStart = 0 ∧ ((k.mms caller).symrgtbl reg).rgEnd = 0
  · rw [if_pos vacant] at returned
    cases returned
    left
    refine ⟨?_, rfl⟩
    obtain ⟨start, stop⟩ := vacant
    show VmRg.mk ((k.mms caller).symrgtbl reg).rgStart ((k.mms caller).symrgtbl reg).rgEnd = _
    rw [start, stop]
  · right
    refine ⟨fun empty => vacant (by rw [empty]; exact ⟨rfl, rfl⟩), ?_⟩
    rw [if_neg vacant, register, setSymrg_ok reg.isLt, Outcome.bind_ok] at returned
    obtain ⟨⟨_, listed⟩, enlisted, returned⟩ := Outcome.bind_eq_ok returned
    cases returned
    rw [Krnl.setMm_same]
    obtain ⟨_, _, enlisted⟩ := Outcome.bind_eq_ok enlisted
    by_cases proper : ((k.mms caller).symrgtbl reg).rgStart ≥ ((k.mms caller).symrgtbl reg).rgEnd
    · rw [if_pos proper] at enlisted
      cases enlisted
      refine ⟨vma.vmFreergList, by simp only [← areas], fun less => ?_⟩
      rw [ge_iff_le, BitVec.le_def] at proper
      omega
    · rw [if_neg proper] at enlisted
      cases enlisted
      refine ⟨(k.mms caller).symrgtbl reg :: vma.vmFreergList, ?_, fun _ => rfl⟩
      rw [Mm.modifyArea]
      simp only [areas]
      rfl

theorem regions_released (ok : RegionsOk mm vma) (proper : (mm.symrgtbl reg).rgStart.toNat < (mm.symrgtbl reg).rgEnd.toNat)
    (released : after = { mm with
      mmap := [{ vma with vmFreergList := mm.symrgtbl reg :: vma.vmFreergList }]
      symrgtbl := Function.update mm.symrgtbl reg { rgStart := 0, rgEnd := 0 } }) :
    ∃ vma', RegionsOk after vma' ∧ vma'.vmStart = vma.vmStart ∧ vma'.sbrk = vma.sbrk ∧
      (Covered vma.space mm.live vma.free → Covered vma'.space after.live vma'.free) := by
  subst released
  have liveAfter : VmRg.bytes ∘ Function.update mm.symrgtbl reg { rgStart := 0, rgEnd := 0 } = Function.update mm.live reg ∅ := by
    rw [Function.comp_update, bytes_vacant]
    rfl
  refine ⟨{ vma with vmFreergList := mm.symrgtbl reg :: vma.vmFreergList }, ⟨rfl, ok.start, ?_, ?_, ?_⟩, rfl, rfl, ?_⟩
  · intro other
    by_cases same : other = reg
    · subst same
      exact .inl (Function.update_self _ _ _)
    · simp only [Vacant, Function.update_of_ne same]
      exact ok.liveProper other
  · intro region chosen
    rcases List.mem_cons.mp chosen with same | old
    · subst same
      right
      refine ⟨Nat.le_of_lt proper, ?_⟩
      have inside : (mm.symrgtbl reg).rgEnd.toNat - 1 ∈ vma.space := ok.separated.liveInside reg ⟨by omega, by omega⟩
      have upper := inside.2
      show (mm.symrgtbl reg).rgEnd.toNat ≤ vma.sbrk.toNat
      omega
    · exact ok.freeProper region old
  · rw [Mm.live, liveAfter]
    exact ok.separated.release reg
  · intro covered
    rw [Mm.live, liveAfter]
    exact covered.release reg

end Invariant
end LamiaAtrium
