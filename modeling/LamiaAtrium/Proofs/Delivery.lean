import Mathlib.Order.Bounds.Basic
import LamiaAtrium.Proofs.Access
import LamiaAtrium.Proofs.RegionRuns

/-! What a successful `__alloc` hands out. The requested size passes through an `int` on
the way to the free list, and through a `uint32_t` on the way to a larger area. -/

namespace LamiaAtrium
variable {Proc : Type} [DecidableEq Proc]

section FirstFit

/-- The free region that the scan stops at, by the code's own test on the size as an `int`. -/
def firstFit (vma : VmArea) (size : Addr) : Option VmRg :=
  if 0 < (addrToInt size).toInt then
    vma.vmFreergList.find? fun rg => rg.rgStart + intToAddr (addrToInt size) ≤ rg.rgEnd
  else none

theorem carve_none {size : Addr} {regions : List VmRg} (found : carve size regions = none) :
    regions.find? (fun rg => rg.rgStart + size ≤ rg.rgEnd) = none := by
  apply List.find?_eq_none.mpr
  intro rg member
  have passed := carve_eq_none_iff.mp found rg member
  simpa using passed

theorem carve_first {size : Addr} {regions rest : List VmRg} {newrg : VmRg} (found : carve size regions = some (newrg, rest)) :
    ∃ rg, regions.find? (fun rg => rg.rgStart + size ≤ rg.rgEnd) = some rg ∧
      newrg = { rgStart := rg.rgStart, rgEnd := rg.rgStart + size } := by
  obtain ⟨before, rg, after, _, list, _, passed, fits, region, _⟩ := carve_some found
  refine ⟨rg, ?_, region⟩
  rw [list, List.find?_append, List.find?_eq_none.mpr (by simpa using passed), Option.none_or,
    List.find?_cons_of_pos (by simpa using fits)]

end FirstFit

section Sizes
variable (size : Addr)

/-- What arrives at `inc_vma_limit` of a growth for `size`: whole pages, cut to 32 bits. -/
theorem growth_toNat : (pagingAlign (addrParam (growBytes size))).toNat = (growBytes size).toNat % 2 ^ 32 := by
  simp only [pagingAlign, addrParam, growBytes, BitVec.toNat_mul, BitVec.toNat_udiv, BitVec.toNat_sub, BitVec.toNat_add,
    BitVec.toNat_setWidth, BitVec.toNat_ofNat, Nat.reducePow, Nat.reduceMod]
  omega

theorem growBytes_aligned : (growBytes size).toNat % 4096 = 0 := by
  simp only [growBytes, BitVec.toNat_mul, BitVec.toNat_udiv, BitVec.toNat_sub, BitVec.toNat_add, BitVec.toNat_ofNat,
    Nat.reducePow, Nat.reduceMod]
  omega

/-- The round-up does not wrap for sizes below the last page. -/
theorem growBytes_isLeast (bound : size.toNat ≤ 2 ^ 64 - 4096) :
    IsLeast {bytes | 4096 ∣ bytes ∧ size.toNat ≤ bytes} (growBytes size).toNat := by
  have rounded : (growBytes size).toNat = (size.toNat + 4095) / 4096 * 4096 := by
    simp only [growBytes, BitVec.toNat_mul, BitVec.toNat_udiv, BitVec.toNat_sub, BitVec.toNat_add, BitVec.toNat_ofNat,
      Nat.reducePow, Nat.reduceMod] at *
    omega
  rw [rounded]
  refine ⟨⟨Nat.dvd_mul_left _ _, by omega⟩, ?_⟩
  intro bytes claimed
  obtain ⟨whole, enough⟩ := claimed
  obtain ⟨pages, rfl⟩ := whole
  omega

end Sizes

variable {env : Env Proc} {k after : Krnl Proc} {caller : Proc} {vma : VmArea} {reg : Fin pagingMaxSymtblSz}
variable {size : Addr} {allocAddr : Option Addr} {code : Int}

/-- The region in the symbol table has the requested size, lies below the break, and
starts at the address the call stored; a growth asks for the least number of whole pages. -/
structure Delivers (vma : VmArea) (size : Addr) (reg : Fin pagingMaxSymtblSz) (allocAddr : Option Addr) (mm : Mm) : Prop where
  whole : (mm.symrgtbl reg).rgStart.toNat + size.toNat = (mm.symrgtbl reg).rgEnd.toNat
  inside : ∃ area, mm.mmap = [area] ∧ (mm.symrgtbl reg).rgEnd ≤ area.sbrk
  addr : allocAddr = some (mm.symrgtbl reg).rgStart
  grown : firstFit vma size = none → IsLeast {bytes | 4096 ∣ bytes ∧ size.toNat ≤ bytes} (growBytes size).toNat

/-- The growth reaches the process's own area, and neither the size in 32 bits nor the
break in 64 wraps around. -/
def GrowsEnough (env : Env Proc) (k : Krnl Proc) (caller : Proc) (vma : VmArea) (size : Addr) : Prop :=
  env.Answers caller ∧ k.mm = some caller ∧ size.toNat ≤ 2 ^ 32 - 4096 ∧ vma.sbrk.toNat + (growBytes size).toNat < 2 ^ 64

section Growth

omit [DecidableEq Proc] in
theorem single_found {mm : Mm} {vmaid : CInt} {index : Nat} {area : VmArea} (areas : mm.mmap = [vma])
    (found : getVmaByNum mm vmaid = .ok (some (index, area))) : index = 0 ∧ area = vma := by
  have here := getVmaByNum_ok found
  rw [areas] at here
  cases index with
  | zero => cases here; exact ⟨rfl, rfl⟩
  | succ index => cases here

omit [DecidableEq Proc] in
/-- A single area overlaps no other: only a growth by 0 and a wrapped break are refused. -/
theorem single_refused {mm : Mm} {aligned : Addr} (areas : mm.mmap = [vma]) :
    GrowthRefused mm 0 vma aligned ↔ vma.sbrk + aligned ≤ vma.sbrk := by
  rw [GrowthRefused, areas]
  simp

/-- The break after a growth: that of the caller's own area if it was let through, and
else the old one. -/
theorem syscall_inc_break {pid : CInt} {a2 a3 : Addr} {regs : ScRegs} (areas : (k.mms caller).mmap = [vma])
    (returned : syscall env k pid 17 { a1 := 2, a2, a3 } = .ok (code, regs, after)) :
    ((∃ found, env.findCaller pid = .ok (some found)) ∧ k.mm = some caller ∧ vma.sbrk < vma.sbrk + pagingAlign (addrParam a3) ∧
      (after.mms caller).mmap = [{ vma with sbrk := vma.sbrk + pagingAlign (addrParam a3), vmEnd := vma.sbrk + pagingAlign (addrParam a3) }]) ∨
    ¬((∃ found, env.findCaller pid = .ok (some found)) ∧ k.mm = some caller ∧ vma.sbrk < vma.sbrk + pagingAlign (addrParam a3)) ∧
      (after.mms caller).mmap = [vma] := by
  rcases syscall_answered returned with ⟨missing, same⟩ | ⟨found, answer⟩
  · cases same
    refine .inr ⟨fun claimed => ?_, areas⟩
    obtain ⟨⟨found, answer⟩, _⟩ := claimed
    cases missing.symm.trans answer
  · rw [syscall_inc answer] at returned
    obtain ⟨⟨grew, grown⟩, ran, returned⟩ := Outcome.bind_eq_ok returned
    cases returned
    obtain ⟨owner, own, ⟨_, rfl, refusal⟩ | ⟨_, index, area, known, accepted, rfl⟩⟩ := incVmaLimit_cases ran
    · refine .inr ⟨fun ⟨_, same, moves⟩ => ?_, areas⟩
      obtain rfl : owner = caller := Option.some.inj (own.symm.trans same)
      rcases refusal with none | ⟨index, area, known, refused⟩
      · cases areas.symm.trans (getVmaByNum_none_iff.mp none)
      · obtain ⟨rfl, rfl⟩ := single_found areas known
        exact BitVec.not_lt.mpr ((single_refused areas).mp refused) moves
    · rw [grownFor_mmap]
      by_cases same : caller = owner
      · subst same
        obtain ⟨rfl, rfl⟩ := single_found areas known
        rw [single_refused areas, BitVec.not_le] at accepted
        rw [if_pos rfl, areas]
        exact .inl ⟨⟨found, answer⟩, own, accepted, rfl⟩
      · rw [if_neg same]
        exact .inr ⟨fun ⟨_, mine, _⟩ => same (Option.some.inj (mine.symm.trans own)), areas⟩

/-- What the part of `__alloc` behind the free list leaves in the symbol table, at
`*alloc_addr` and in the area. -/
theorem allocGrow_exact (areas : (k.mms caller).mmap = [vma])
    (returned : allocGrow env k caller 0 0 reg size = .ok (code, allocAddr, after)) :
    allocAddr = some vma.sbrk ∧ (after.mms caller).symrgtbl reg = { rgStart := vma.sbrk, rgEnd := vma.sbrk + size } ∧
      ∃ area, (after.mms caller).mmap = [area] ∧
        ((env.Answers caller ∧ k.mm = some caller ∧ vma.sbrk < vma.sbrk + pagingAlign (addrParam (growBytes size)) ∧
            area.sbrk = vma.sbrk + pagingAlign (addrParam (growBytes size))) ∨
          ¬(env.Answers caller ∧ k.mm = some caller ∧ vma.sbrk < vma.sbrk + pagingAlign (addrParam (growBytes size))) ∧
            area.sbrk = vma.sbrk) := by
  obtain ⟨start, here, returned⟩ := Outcome.bind_eq_ok returned
  obtain ⟨pid, known, returned⟩ := Outcome.bind_eq_ok returned
  obtain ⟨⟨_, _, grown⟩, called, returned⟩ := Outcome.bind_eq_ok returned
  obtain ⟨table, stored, returned⟩ := Outcome.bind_eq_ok returned
  rw [Mm.area, areas] at here
  cases here
  rw [Mm.setSymrg, dif_pos reg.isLt] at stored
  have sameAreas : table.mmap = (grown.mms caller).mmap := by
    cases stored
    rfl
  have region : table.symrgtbl reg = { rgStart := vma.sbrk, rgEnd := vma.sbrk + size } := by
    cases stored
    exact Function.update_self _ _ _
  cases returned
  have answers : env.Answers caller ↔ ∃ found, env.findCaller pid = .ok (some found) := by
    constructor
    · intro claimed
      obtain ⟨other, found, same, answer⟩ := claimed
      rw [known] at same
      cases same
      exact ⟨found, answer⟩
    · intro claimed
      obtain ⟨found, answer⟩ := claimed
      exact ⟨pid, found, known, answer⟩
  rw [Krnl.setMm_same, answers]
  refine ⟨rfl, ?_, ?_⟩
  · unfold keepExtra
    split <;> exact region
  · have kept {area : VmArea} (list : (grown.mms caller).mmap = [area]) : ∃ final,
        (keepExtra table 0 vma.sbrk size (growBytes size)).mmap = [final] ∧ final.sbrk = area.sbrk := by
      rw [← sameAreas] at list
      unfold keepExtra
      split
      · refine ⟨{ area with vmFreergList := { rgStart := vma.sbrk + size, rgEnd := vma.sbrk + growBytes size } :: area.vmFreergList }, ?_, rfl⟩
        rw [Mm.modifyArea, list]
        rfl
      · exact ⟨area, list, rfl⟩
    rcases syscall_inc_break areas called with ⟨found, own, moves, list⟩ | ⟨refused, list⟩
    · obtain ⟨final, only, brk⟩ := kept list
      exact ⟨final, only, .inl ⟨found, own, moves, brk⟩⟩
    · obtain ⟨final, only, brk⟩ := kept list
      exact ⟨final, only, .inr ⟨refused, brk⟩⟩

/-- The region at the old break is whole and below the new one exactly if the growth
reached the area and nothing wrapped around. -/
private theorem grown_region_iff (areas : (k.mms caller).mmap = [vma]) (positive : 0#64 < size)
    (returned : allocGrow env k caller 0 0 reg size = .ok (code, allocAddr, after)) :
    (vma.sbrk.toNat + size.toNat = (vma.sbrk + size).toNat ∧
      ∃ area, (after.mms caller).mmap = [area] ∧ vma.sbrk + size ≤ area.sbrk) ↔ GrowsEnough env k caller vma size := by
  obtain ⟨_, _, area, list, outcome⟩ := allocGrow_exact areas returned
  have sent := growth_toNat size
  have whole := growBytes_aligned size
  have least := growBytes_isLeast size
  have some : 0 < size.toNat := positive
  constructor
  · intro ⟨unwrapped, other, only, inside⟩
    obtain rfl : area = other := List.singleton_injective (list.symm.trans only)
    rcases outcome with ⟨answers, own, moves, brk⟩ | ⟨_, brk⟩
    · -- the break did not wrap, so what was sent is at least the size
      rw [brk] at inside
      simp only [BitVec.le_def, BitVec.lt_def, BitVec.toNat_add, sent] at inside moves unwrapped
      have enough : size.toNat ≤ (growBytes size).toNat % 2 ^ 32 := by omega
      have small : size.toNat ≤ 2 ^ 32 - 4096 := by omega
      have rounded := (least (by omega)).2 ⟨Nat.dvd_mul_left 4096 ((size.toNat + 4095) / 4096), by omega⟩
      exact ⟨answers, own, small, by omega⟩
    · rw [brk, BitVec.le_def] at inside
      omega
  · intro ⟨answers, own, small, unwrapped⟩
    have rounded := (least (by omega)).2 ⟨Nat.dvd_mul_left 4096 ((size.toNat + 4095) / 4096), by omega⟩
    have enough : size.toNat ≤ (growBytes size).toNat := (least (by omega)).1.2
    have moved : (vma.sbrk + pagingAlign (addrParam (growBytes size))).toNat = vma.sbrk.toNat + (growBytes size).toNat := by
      rw [BitVec.toNat_add, sent]
      omega
    have moves : vma.sbrk < vma.sbrk + pagingAlign (addrParam (growBytes size)) := by
      rw [BitVec.lt_def, moved]
      omega
    rcases outcome with ⟨_, _, _, brk⟩ | ⟨refused, _⟩
    · refine ⟨by rw [BitVec.toNat_add]; omega, area, list, ?_⟩
      rw [brk, BitVec.le_def, moved, BitVec.toNat_add]
      omega
    · exact absurd ⟨answers, own, moves⟩ refused

omit [DecidableEq Proc] in
/-- A region that the scan stops at has room for the cut, and ends at the break or below. -/
theorem firstFit_room {rg : VmRg} (ok : RegionsOk (k.mms caller) vma) (first : firstFit vma size = some rg) :
    0 < (addrToInt size).toInt ∧ rg.rgStart + intToAddr (addrToInt size) ≤ rg.rgEnd ∧
      rg.rgStart.toNat ≤ rg.rgEnd.toNat ∧ rg.rgEnd.toNat ≤ vma.sbrk.toNat := by
  rw [firstFit] at first
  split at first
  · next sign =>
    have fits : rg.rgStart + intToAddr (addrToInt size) ≤ rg.rgEnd := by simpa using List.find?_some first
    have usable : ¬rg.Unusable := fun unusable => unusable _ sign fits
    exact ⟨sign, fits, (ok.freeProper rg (List.mem_of_find?_eq_some first)).resolve_left usable⟩
  · cases first

/-- Past the free list, the region at the old break. -/
theorem grown_delivers_iff (areas : (k.mms caller).mmap = [vma]) (positive : 0#64 < size)
    (grew : allocGrow env k caller 0 0 reg size = .ok (0, allocAddr, after)) :
    Delivers vma size reg allocAddr (after.mms caller) ↔ GrowsEnough env k caller vma size := by
  obtain ⟨addr, region, _⟩ := allocGrow_exact areas grew
  have grown := grown_region_iff areas positive grew
  constructor
  · intro delivers
    have whole := delivers.whole
    have inside := delivers.inside
    rw [region] at whole inside
    exact grown.mp ⟨whole, inside⟩
  · intro enough
    obtain ⟨whole, inside⟩ := grown.mpr enough
    refine ⟨by rw [region]; exact whole, by rw [region]; exact inside, by rw [region]; exact addr, fun _ => ?_⟩
    exact growBytes_isLeast size (Nat.le_trans enough.2.2.1 (by decide))

omit [DecidableEq Proc] in
/-- On the free list, the front of a region, as many bytes as the size has as an `int`. -/
theorem carved_delivers_iff (rg : VmRg) {mm : Mm} (ok : RegionsOk (k.mms caller) vma) (first : firstFit vma size = some rg)
    (region : mm.symrgtbl reg = { rgStart := rg.rgStart, rgEnd := rg.rgStart + intToAddr (addrToInt size) })
    (list : ∃ area, mm.mmap = [area] ∧ area.sbrk = vma.sbrk) :
    Delivers vma size reg (some rg.rgStart) mm ↔ size.toNat < 2 ^ 31 ∧ rg.rgStart.toNat + size.toNat < 2 ^ 64 := by
  obtain ⟨sign, fits, ordered, below⟩ := firstFit_room ok first
  have sum : (rg.rgStart + intToAddr (addrToInt size)).toNat = (rg.rgStart.toNat + size.toNat % 2 ^ 32) % 2 ^ 64 := by
    rw [BitVec.toNat_add, intToAddr_toNat sign, addrToInt, BitVec.toNat_setWidth]
  have signed : size.toNat % 2 ^ 32 < 2 ^ 31 ∧ 0 < size.toNat % 2 ^ 32 := by
    have same := toInt_of_nonneg (Int.le_of_lt sign)
    have bound : (addrToInt size).toInt < 2147483648 := BitVec.toInt_lt
    rw [addrToInt, BitVec.toNat_setWidth] at same
    rw [addrToInt] at sign bound
    omega
  constructor
  · intro delivers
    have whole := delivers.whole
    rw [region] at whole
    dsimp only at whole
    rw [sum] at whole
    omega
  · intro claimed
    obtain ⟨small, unwrapped⟩ := claimed
    obtain ⟨area, only, brk⟩ := list
    rw [BitVec.le_def] at fits
    refine ⟨?_, ⟨area, only, ?_⟩, by rw [region], fun none => by rw [first] at none; cases none⟩
    · rw [region]
      dsimp only
      rw [sum]
      omega
    · rw [region, brk]
      exact Nat.le_trans fits below

end Growth

/-- What `__alloc` hands out is what was asked for if and only if: on the free list, the
size is a positive `int` and does not wrap on the region it is cut from; past it, the
growth reaches the process's own area and does not wrap. -/
theorem alloc_delivers_size_iff (ok : RegionsOk (k.mms caller) vma) (positive : 0#64 < size)
    (returned : alloc env k caller 0 (rgidOf reg) size = .ok (0, allocAddr, after)) :
    Delivers vma size reg allocAddr (after.mms caller) ↔
      (∀ rg, firstFit vma size = some rg → size.toNat < 2 ^ 31 ∧ rg.rgStart.toNat + size.toNat < 2 ^ 64) ∧
        (firstFit vma size = none → GrowsEnough env k caller vma size) := by
  have areas := ok.areas
  have register := rgidOf_toNat reg
  rw [alloc, if_neg (BitVec.not_le.mpr positive)] at returned
  obtain ⟨found, lookup, returned⟩ := Outcome.bind_eq_ok returned
  rw [single_area areas lookup] at returned
  obtain ⟨⟨answer, chosen, mm⟩, tried, returned⟩ := Outcome.bind_eq_ok returned
  rcases getFreeVmrgArea_cases areas tried with ⟨rfl, rfl, noCut⟩ | ⟨sign, newrg, rest, cut, rfl, rfl, served⟩
  · -- the free list has nothing: the region is taken at the break
    have noFit : firstFit vma size = none := by
      rw [firstFit]
      split
      · next sign => exact carve_none (noCut sign)
      · rfl
    have grew : allocGrow env (k.setMm caller (k.mms caller)) caller 0 0 reg size = .ok (0, allocAddr, after) := register ▸ returned
    rw [setMm_self] at grew
    rw [grown_delivers_iff areas positive grew, noFit]
    constructor
    · intro enough
      exact ⟨fun _ some => (by cases some), fun _ => enough⟩
    · intro claimed
      exact claimed.2 rfl
  · obtain ⟨rg, first, rfl⟩ := carve_first cut
    have fit : firstFit vma size = some rg := by rw [firstFit, if_pos sign, first]
    have right : (∀ other, firstFit vma size = some other → size.toNat < 2 ^ 31 ∧ other.rgStart.toNat + size.toNat < 2 ^ 64) ∧
        (firstFit vma size = none → GrowsEnough env k caller vma size) ↔ size.toNat < 2 ^ 31 ∧ rg.rgStart.toNat + size.toNat < 2 ^ 64 := by
      rw [fit]
      constructor
      · exact fun both => both.1 rg rfl
      · intro bounds
        refine ⟨fun other same => ?_, fun none => by cases none⟩
        cases same
        exact bounds
    rw [right]
    by_cases taken : answer = 0
    · subst taken
      obtain ⟨table, stored, returned⟩ := Outcome.bind_eq_ok returned
      rw [register, Mm.setSymrg, dif_pos reg.isLt] at stored
      cases stored
      cases returned
      refine carved_delivers_iff rg ok fit ?_ ⟨{ vma with vmFreergList := rest }, ?_, rfl⟩
      · rw [Krnl.setMm_same]
        exact Function.update_self _ _ _
      · rw [Krnl.setMm_same]
    · -- a region at the last address is cut and then refused; the break stands there as well
      have last : rg.rgStart = -1 := served.resolve_left taken
      have top : rg.rgStart.toNat = 2 ^ 64 - 1 := by rw [last]; rfl
      obtain ⟨_, _, ordered, below⟩ := firstFit_room ok fit
      have limit := vma.sbrk.isLt
      have some : 0 < size.toNat := positive
      refine iff_of_false (fun delivers => ?_) fun bounds => by omega
      have grew : allocGrow env (k.setMm caller { k.mms caller with mmap := [{ vma with vmFreergList := rest }] }) caller 0 0 reg size =
          .ok (0, allocAddr, after) := by
        rw [← register]
        dsimp only at returned
        split at returned
        · exact absurd rfl taken
        · exact returned
      obtain ⟨_, region, _⟩ := allocGrow_exact (by rw [Krnl.setMm_same]) grew
      have whole := delivers.whole
      rw [region, BitVec.toNat_add] at whole
      dsimp only at whole
      omega

/-- The area of a process that has allocated nothing. -/
def freshArea : VmArea := { vmId := 0, vmStart := 0, vmEnd := 0, sbrk := 0, vmFreergList := [{ rgStart := 0, rgEnd := 0 }] }

theorem alloc_delivers_size_iff_sixteenFrames : ∃ after, alloc knownCaller sixteenFrames () 0 (rgidOf firstReg) 100 = .ok (0, some 0, after) ∧
    (Delivers freshArea 100 firstReg (some 0) (after.mms ()) ↔
      (∀ rg, firstFit freshArea 100 = some rg → (100 : Addr).toNat < 2 ^ 31 ∧ rg.rgStart.toNat + (100 : Addr).toNat < 2 ^ 64) ∧
        (firstFit freshArea 100 = none → GrowsEnough knownCaller sixteenFrames () freshArea 100)) :=
  ⟨_, rfl, alloc_delivers_size_iff sixteenFrames_fresh.ok (by decide) rfl⟩

/-- A request for -1 bytes: 0 bytes are asked for, and the region handed out ends at the
last address of the machine, with the break still at 0. -/
theorem alloc_of_minus_one : ∃ after, RegionsOk (sixteenFrames.mms ()) freshArea ∧
    alloc knownCaller sixteenFrames () 0 (rgidOf firstReg) (-1) = .ok (0, some 0, after) ∧
    (after.mms ()).symrgtbl firstReg = { rgStart := 0, rgEnd := -1 } ∧ growBytes (-1) = 0 ∧
    ¬Delivers freshArea (-1) firstReg (some 0) (after.mms ()) := by
  have ran : ∃ after area, alloc knownCaller sixteenFrames () 0 (rgidOf firstReg) (-1) = .ok (0, some 0, after) ∧
      (after.mms ()).symrgtbl firstReg = { rgStart := 0, rgEnd := -1 } ∧ (after.mms ()).mmap = [area] ∧ area.sbrk = 0 :=
    ⟨_, _, rfl, rfl, rfl, rfl⟩
  obtain ⟨after, area, returned, region, areas, brk⟩ := ran
  refine ⟨after, sixteenFrames_fresh.ok, returned, region, by decide, fun delivers => ?_⟩
  obtain ⟨other, only, inside⟩ := delivers.inside
  obtain rfl : area = other := List.singleton_injective (areas.symm.trans only)
  rw [region, brk] at inside
  exact absurd inside (by decide)

end LamiaAtrium
