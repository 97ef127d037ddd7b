import LamiaAtrium.Libmem
import LamiaAtrium.Proofs.RamMapping

/-! Growing an area. `vm_map_ram` reports a full RAM as -1 of the unsigned `addr_t`,
which no test for a negative value sees: `inc_vma_limit` moves the break all the same,
and `__alloc` does not look at the answer in the first place. -/

namespace LamiaAtrium
variable {Proc : Type} [DecidableEq Proc]

section Refusal

/-- The tests of `inc_vma_limit` that come before it touches memory: the rounded size
is 0 or wraps the break, or the area already overlaps another one. -/
def GrowthRefused (mm : Mm) (index : Nat) (vma : VmArea) (aligned : Addr) : Prop :=
  vma.sbrk + aligned ≤ vma.sbrk ∨
    mm.mmap.zipIdx.any fun (other, i) => i != index && overlap vma.vmStart vma.vmEnd other.vmStart other.vmEnd

variable {mm : Mm} {vmaid : CInt} {index : Nat} {vma : VmArea}

/-- The planned range enters into the test through its order alone. -/
theorem validateOverlapVmArea_eq {vmastart vmaend : Addr} (found : getVmaByNum mm vmaid = .ok (some (index, vma))) :
    validateOverlapVmArea mm vmaid vmastart vmaend = .ok (if vmaend ≤ vmastart ∨
      (mm.mmap.zipIdx.any fun (other, i) => i != index && overlap vma.vmStart vma.vmEnd other.vmStart other.vmEnd) = true
      then -1 else 0) := by
  have area := getVmaByNum_ok found
  have filled : mm.mmap.isEmpty = false := by
    cases list : mm.mmap with
    | nil => rw [list] at area; cases area
    | cons head rest => rfl
  unfold validateOverlapVmArea
  by_cases order : vmaend ≤ vmastart
  · rw [if_pos order, if_pos (.inl order)]
    rfl
  · rw [if_neg order, if_neg (by simp [filled])]
    simp only [found, Outcome.bind_ok, order, false_or]
    split <;> rfl

theorem validateOverlapVmArea_refused {aligned : Addr} (found : getVmaByNum mm vmaid = .ok (some (index, vma)))
    (refused : GrowthRefused mm index vma aligned) :
    validateOverlapVmArea mm vmaid vma.sbrk (vma.sbrk + aligned) = .ok (-1) := by
  rw [validateOverlapVmArea_eq found]
  exact congrArg Except.ok (if_pos refused)

theorem validateOverlapVmArea_accepted {aligned : Addr} (found : getVmaByNum mm vmaid = .ok (some (index, vma)))
    (accepted : ¬ GrowthRefused mm index vma aligned) :
    validateOverlapVmArea mm vmaid vma.sbrk (vma.sbrk + aligned) = .ok 0 := by
  rw [validateOverlapVmArea_eq found]
  exact congrArg Except.ok (if_neg accepted)

end Refusal

section IncVmaLimit
variable {k : Krnl Proc} {caller : Proc} {vmaid : CInt} {incSz : Addr} {index : Nat} {vma : VmArea}

/-- The pages that the source asks for, before the count is cut to an `int`. -/
def framesNeeded (incSz : Addr) : Nat := (pagingAlign incSz / 256#64).toNat

def pagesMapped (incSz : Addr) : Nat := rounds (addrToInt (pagingAlign incSz / 256#64))

def grownArea (k : Krnl Proc) (caller : Proc) (index : Nat) (vma : VmArea) (aligned : Addr) : Krnl Proc :=
  k.setMm caller ((k.mms caller).modifyArea index fun area =>
    { area with sbrk := vma.sbrk + aligned, vmEnd := vma.sbrk + aligned })

theorem grownArea_pte (k : Krnl Proc) (caller : Proc) (index : Nat) (vma : VmArea) (aligned : Addr) :
    (grownArea k caller index vma aligned).pte = k.pte :=
  pte_setMm_of_pgd k caller rfl

theorem pagesMapped_le (incSz : Addr) : pagesMapped incSz ≤ framesNeeded incSz := by
  simp only [pagesMapped, framesNeeded, rounds, addrToInt, BitVec.toInt_eq_toNat_cond, BitVec.toNat_setWidth]
  split <;> omega

theorem incVmaLimit_lost {fault : Fault} (incSz : Addr) (own : k.mm = some caller) (lost : getVmaByNum (k.mms caller) vmaid = .error fault) :
    incVmaLimit k caller vmaid incSz = .error fault := by
  rw [incVmaLimit, Krnl.mmOwner, own]
  simp only [Outcome.bind_ok, lost, Outcome.bind_error]

theorem incVmaLimit_noArea (incSz : Addr) (own : k.mm = some caller) (none : getVmaByNum (k.mms caller) vmaid = .ok none) :
    incVmaLimit k caller vmaid incSz = .ok (-1, k) := by
  rw [incVmaLimit, Krnl.mmOwner, own]
  simp only [Outcome.bind_ok, none]
  rfl

theorem incVmaLimit_refused {owner : Proc} (own : k.mm = some owner) (found : getVmaByNum (k.mms owner) vmaid = .ok (some (index, vma)))
    (refused : GrowthRefused (k.mms owner) index vma (pagingAlign incSz)) :
    incVmaLimit k caller vmaid incSz = .ok (-1, k) := by
  rw [incVmaLimit, Krnl.mmOwner, own]
  simp only [Outcome.bind_ok, found, validateOverlapVmArea_refused found refused]
  rfl

/-- The area of `owner` with its break moved, after the pages were mapped for `caller`. -/
def grownFor (k : Krnl Proc) (caller owner : Proc) (index : Nat) (vma : VmArea) (incSz : Addr) : Krnl Proc :=
  let rg : VmRg := { rgStart := vma.sbrk, rgEnd := vma.sbrk + pagingAlign incSz }
  let mapped := (vmMapRam k caller rg.rgStart rg.rgEnd vma.sbrk (addrToInt (pagingAlign incSz / 256#64)) rg).2.2
  mapped.setMm owner ((mapped.mms owner).modifyArea index fun area =>
    { area with sbrk := vma.sbrk + pagingAlign incSz, vmEnd := vma.sbrk + pagingAlign incSz })

/-- Past the tests the break moves, whatever `vm_map_ram` answered. -/
theorem incVmaLimit_grows {owner : Proc} (own : k.mm = some owner) (found : getVmaByNum (k.mms owner) vmaid = .ok (some (index, vma)))
    (accepted : ¬ GrowthRefused (k.mms owner) index vma (pagingAlign incSz)) :
    incVmaLimit k caller vmaid incSz = .ok (0, grownFor k caller owner index vma incSz) := by
  have unsigned (value : Addr) : ¬ value < 0#64 := BitVec.not_lt_zero
  rw [incVmaLimit, Krnl.mmOwner, own]
  simp only [Outcome.bind_ok, found, validateOverlapVmArea_accepted found accepted, getVmAreaNodeAtBrk, Outcome.pure_eq]
  rw [if_neg (by decide), if_neg (unsigned _)]
  rfl

theorem incVmaLimit_accepted (own : k.mm = some caller) (found : getVmaByNum (k.mms caller) vmaid = .ok (some (index, vma)))
    (accepted : ¬ GrowthRefused (k.mms caller) index vma (pagingAlign incSz)) :
    ∃ rg : VmRg, incVmaLimit k caller vmaid incSz =
      .ok (0, grownArea (vmMapRam k caller rg.rgStart rg.rgEnd vma.sbrk (addrToInt (pagingAlign incSz / 256#64)) rg).2.2
        caller index vma (pagingAlign incSz)) :=
  ⟨{ rgStart := vma.sbrk, rgEnd := vma.sbrk + pagingAlign incSz }, incVmaLimit_grows own found accepted⟩

/-- Everything `inc_vma_limit` returns, for any two processes behind `caller` and `krnl->mm`. -/
theorem incVmaLimit_cases {after : Krnl Proc} {code : Int} (returned : incVmaLimit k caller vmaid incSz = .ok (code, after)) :
    ∃ owner, k.mm = some owner ∧
      ((code = -1 ∧ after = k ∧ (getVmaByNum (k.mms owner) vmaid = .ok none ∨
          ∃ index vma, getVmaByNum (k.mms owner) vmaid = .ok (some (index, vma)) ∧
            GrowthRefused (k.mms owner) index vma (pagingAlign incSz))) ∨
        code = 0 ∧ ∃ index vma, getVmaByNum (k.mms owner) vmaid = .ok (some (index, vma)) ∧
          ¬GrowthRefused (k.mms owner) index vma (pagingAlign incSz) ∧ after = grownFor k caller owner index vma incSz) := by
  obtain ⟨owner, known, returned⟩ := Outcome.bind_eq_ok returned
  have own : k.mm = some owner := by
    unfold Krnl.mmOwner at known
    split at known
    · next same => cases known; exact same
    · cases known
  obtain ⟨area, found, returned⟩ := Outcome.bind_eq_ok returned
  refine ⟨owner, own, ?_⟩
  cases area with
  | none =>
    cases returned
    exact .inl ⟨rfl, rfl, .inl found⟩
  | some area =>
    obtain ⟨index, vma⟩ := area
    by_cases refused : GrowthRefused (k.mms owner) index vma (pagingAlign incSz)
    · simp only [validateOverlapVmArea_refused found refused, Outcome.bind_ok] at returned
      cases returned
      exact .inl ⟨rfl, rfl, .inr ⟨index, vma, found, refused⟩⟩
    · have unsigned (value : Addr) : ¬ value < 0#64 := BitVec.not_lt_zero
      simp only [validateOverlapVmArea_accepted found refused, getVmAreaNodeAtBrk, found, Outcome.bind_ok, Outcome.pure_eq] at returned
      rw [if_neg (by decide), if_neg (unsigned _)] at returned
      cases returned
      exact .inr ⟨rfl, index, vma, found, refused, rfl⟩

theorem grownFor_mmap {owner : Proc} (k : Krnl Proc) (caller p : Proc) (vma : VmArea) (incSz : Addr) :
    ((grownFor k caller owner index vma incSz).mms p).mmap =
      if p = owner then (k.mms p).mmap.modify index fun area =>
        { area with sbrk := vma.sbrk + pagingAlign incSz, vmEnd := vma.sbrk + pagingAlign incSz }
      else (k.mms p).mmap := by
  rw [grownFor, Krnl.setMm_mms]
  split
  · next same => rw [Mm.modifyArea, vmMapRam_mmap, same]
  · rw [vmMapRam_mmap]

theorem grownFor_symrgtbl {owner : Proc} (k : Krnl Proc) (caller p : Proc) (vma : VmArea) (incSz : Addr) :
    ((grownFor k caller owner index vma incSz).mms p).symrgtbl = (k.mms p).symrgtbl := by
  rw [grownFor, Krnl.setMm_mms]
  split
  · next same => rw [same]; exact vmMapRam_symrgtbl owner
  · exact vmMapRam_symrgtbl p

/-- The growth shows in the tables as `vm_map_ram` left them. -/
theorem grownFor_pte {owner : Proc} (k : Krnl Proc) (caller : Proc) (vma : VmArea) (incSz : Addr) :
    (grownFor k caller owner index vma incSz).pte = (vmMapRam k caller vma.sbrk (vma.sbrk + pagingAlign incSz) vma.sbrk
      (addrToInt (pagingAlign incSz / 256#64)) ⟨vma.sbrk, vma.sbrk + pagingAlign incSz⟩).2.2.pte := by
  rw [grownFor]
  generalize (vmMapRam k caller _ _ _ _ _).2.2 = mapped
  exact pte_setMm_of_pgd mapped owner rfl

theorem grownFor_mm {owner : Proc} (k : Krnl Proc) (caller : Proc) (vma : VmArea) (incSz : Addr) :
    (grownFor k caller owner index vma incSz).mm = k.mm :=
  vmMapRam_mm

omit [DecidableEq Proc] in
private theorem grown_sbrk {areas : List VmArea} {grown : VmArea} {brk : Addr} (here : areas[index]? = some vma)
    (after : (areas.modify index fun area => { area with sbrk := brk, vmEnd := brk })[index]? = some grown) :
    grown.sbrk = brk := by
  rw [List.getElem?_modify_eq, here] at after
  cases after
  rfl

end IncVmaLimit

section AllOrNothing
variable {k : Krnl Proc} {caller : Proc} {vmaid : CInt} {incSz : Addr}

def pageAt (addr : Addr) : Page := pageOf (pgnAt addr 0)

/-- The caller's areas (with every break and end), page table and FIFO and the RAM free
list are as before. -/
structure GrowthUnchanged (k : Krnl Proc) (caller : Proc) (after : Krnl Proc) : Prop where
  areas : (after.mms caller).mmap = (k.mms caller).mmap
  pgd : (after.mms caller).pgd = (k.mms caller).pgd
  fifo : (after.mms caller).fifoPgn = (k.mms caller).fifoPgn
  free : after.mram.freeFpList = k.mram.freeFpList

/-- All: a call that returns 0 has a present page behind every address between the old
and the new break. Nothing: a call that RAM cannot serve returns -1 and leaves no trace. -/
structure GrowthAllOrNothing (k : Krnl Proc) (caller : Proc) (vmaid : CInt) (incSz : Addr) : Prop where
  all : ∀ index vma after grown, getVmaByNum (k.mms caller) vmaid = .ok (some (index, vma)) →
    incVmaLimit k caller vmaid incSz = .ok (0, after) → (after.mms caller).mmap[index]? = some grown →
    ∀ addr, vma.sbrk ≤ addr → addr < grown.sbrk → pagingPagePresent (after.pte (caller, pageAt addr)) = true
  nothing : k.mram.freeFpList.length < framesNeeded incSz →
    ∃ after, incVmaLimit k caller vmaid incSz = .ok (-1, after) ∧ GrowthUnchanged k caller after

/-- There is no area, or one of the tests in front of the mapping turns the request down. -/
def RefusedUpFront (k : Krnl Proc) (caller : Proc) (vmaid : CInt) (incSz : Addr) : Prop :=
  getVmaByNum (k.mms caller) vmaid = .ok none ∨
    ∃ index vma, getVmaByNum (k.mms caller) vmaid = .ok (some (index, vma)) ∧
      GrowthRefused (k.mms caller) index vma (pagingAlign incSz)

/-- Every page of the new range is present already or among those that the loop counts. -/
def RangeCovered (k : Krnl Proc) (caller : Proc) (vmaid : CInt) (incSz : Addr) : Prop :=
  ∀ index vma, getVmaByNum (k.mms caller) vmaid = .ok (some (index, vma)) →
    ∀ addr, vma.sbrk ≤ addr → addr < vma.sbrk + pagingAlign incSz →
      (∃ i < pagesMapped incSz, pageOf (pgnAt vma.sbrk i) = pageAt addr) ∨ pagingPagePresent (k.pte (caller, pageAt addr)) = true

/-- On an area that the tests let through and with enough frames, the call returns 0
and is sound exactly if the loop's pages cover the new range. -/
private theorem all_iff_covered {index : Nat} {vma : VmArea} (own : k.mm = some caller)
    (found : getVmaByNum (k.mms caller) vmaid = .ok (some (index, vma)))
    (accepted : ¬ GrowthRefused (k.mms caller) index vma (pagingAlign incSz))
    (enough : framesNeeded incSz ≤ k.mram.freeFpList.length) :
    GrowthAllOrNothing k caller vmaid incSz ↔ RangeCovered k caller vmaid incSz := by
  obtain ⟨rg, ran⟩ := incVmaLimit_accepted own found accepted
  have frames : pagesMapped incSz ≤ k.mram.freeFpList.length := Nat.le_trans (pagesMapped_le incSz) enough
  have present (page : Page) : pagingPagePresent ((grownArea (vmMapRam k caller rg.rgStart rg.rgEnd vma.sbrk
      (addrToInt (pagingAlign incSz / 256#64)) rg).2.2 caller index vma (pagingAlign incSz)).pte (caller, page)) = true ↔
      (∃ i < pagesMapped incSz, pageOf (pgnAt vma.sbrk i) = page) ∨ pagingPagePresent (k.pte (caller, page)) = true := by
    rw [grownArea_pte]
    exact vmMapRam_present frames page
  have here := getVmaByNum_ok found
  constructor
  · intro sound index' vma' found' addr low high
    rw [found] at found'
    cases found'
    rw [← present]
    refine sound.all index vma _ { vma with sbrk := vma.sbrk + pagingAlign incSz, vmEnd := vma.sbrk + pagingAlign incSz }
      found ran ?_ addr low high
    rw [grownArea, Krnl.setMm_same, Mm.modifyArea, vmMapRam_mmap, List.getElem?_modify_eq, here]
    rfl
  · intro covered
    constructor
    · intro index' vma' after grown found' returned grownHere addr low high
      rw [found] at found'
      cases found'
      rw [ran] at returned
      cases returned
      rw [grownArea, Krnl.setMm_same, Mm.modifyArea, vmMapRam_mmap] at grownHere
      rw [grown_sbrk here grownHere] at high
      rw [present]
      exact covered index vma found addr low high
    · intro short
      omega

private theorem growthAllOrNothing_iff (own : k.mm = some caller) :
    GrowthAllOrNothing k caller vmaid incSz ↔
      RefusedUpFront k caller vmaid incSz ∨
        framesNeeded incSz ≤ k.mram.freeFpList.length ∧ RangeCovered k caller vmaid incSz := by
  cases found : getVmaByNum (k.mms caller) vmaid with
  | error fault =>
    have ran := incVmaLimit_lost incSz own found
    constructor
    · intro sound
      right
      refine ⟨Nat.le_of_not_lt fun short => ?_, fun index vma other => by rw [found] at other; cases other⟩
      obtain ⟨after, returned, _⟩ := sound.nothing short
      rw [ran] at returned
      cases returned
    · rintro ((none | ⟨index, vma, other, _⟩) | ⟨enough, _⟩)
      · rw [found] at none; cases none
      · rw [found] at other; cases other
      · exact ⟨fun _ _ _ _ other => (by rw [found] at other; cases other), fun short => by omega⟩
  | ok area =>
    cases area with
    | none =>
      have ran := incVmaLimit_noArea incSz own found
      constructor
      · exact fun _ => .inl (.inl found)
      · intro _
        exact ⟨fun _ _ _ _ other => (by rw [found] at other; cases other), fun _ => ⟨k, ran, rfl, rfl, rfl, rfl⟩⟩
    | some area =>
      obtain ⟨index, vma⟩ := area
      by_cases refused : GrowthRefused (k.mms caller) index vma (pagingAlign incSz)
      · have ran : incVmaLimit k caller vmaid incSz = _ := incVmaLimit_refused own found refused
        constructor
        · exact fun _ => .inl (.inr ⟨index, vma, found, refused⟩)
        · intro _
          refine ⟨?_, fun _ => ⟨k, ran, rfl, rfl, rfl, rfl⟩⟩
          intro _ _ after _ _ returned
          rw [ran] at returned
          cases returned
      · have notUpFront : ¬ RefusedUpFront k caller vmaid incSz := by
          rintro (none | ⟨index', vma', found', refused'⟩)
          · rw [found] at none; cases none
          · rw [found] at found'
            cases found'
            exact refused refused'
        by_cases enough : framesNeeded incSz ≤ k.mram.freeFpList.length
        · rw [all_iff_covered own found refused enough]
          constructor
          · exact fun covered => .inr ⟨enough, covered⟩
          · rintro (upFront | ⟨_, covered⟩)
            · exact absurd upFront notUpFront
            · exact covered
        · constructor
          · intro sound
            -- the call returns 0, although RAM cannot serve it
            obtain ⟨rg, ran⟩ := incVmaLimit_accepted own found refused
            obtain ⟨after, returned, _⟩ := sound.nothing (Nat.lt_of_not_le enough)
            rw [ran] at returned
            cases returned
          · rintro (upFront | ⟨frames, _⟩)
            · exact absurd upFront notUpFront
            · exact absurd frames enough

omit [DecidableEq Proc] in
/-- From a page-aligned break the loop's pages are the pages of the range, as long as
their number fits an `int`. -/
theorem rangeCovered_of_aligned
    (aligned : ∀ index vma, getVmaByNum (k.mms caller) vmaid = .ok (some (index, vma)) → vma.sbrk.toNat % pagingPagesz = 0)
    (small : framesNeeded incSz < 2 ^ 31) : RangeCovered k caller vmaid incSz := by
  intro index vma found addr low high
  have start := aligned index vma found
  have whole : (pagingAlign incSz).toNat % 256 = 0 := by
    simp only [pagingAlign, BitVec.toNat_mul, BitVec.toNat_ofNat]
    omega
  have count : pagesMapped incSz = (pagingAlign incSz).toNat / 256 := by
    simp only [framesNeeded, BitVec.toNat_udiv, BitVec.toNat_ofNat, Nat.reducePow, Nat.reduceMod] at small
    simp only [pagesMapped, rounds, addrToInt, BitVec.toInt_eq_toNat_cond, BitVec.toNat_setWidth, BitVec.toNat_udiv,
      BitVec.toNat_ofNat, Nat.reducePow, Nat.reduceMod]
    split <;> omega
  simp only [BitVec.le_def, BitVec.lt_def, BitVec.toNat_add, pagingPagesz] at low high start
  left
  refine ⟨addr.toNat / 256 - vma.sbrk.toNat / 256, by omega, ?_⟩
  apply BitVec.eq_of_toNat_eq
  rw [pageAt, pageOf_pgnAt_toNat, pageOf_pgnAt_toNat]
  have order : vma.sbrk.toNat / 256 ≤ addr.toNat / 256 := Nat.div_le_div_right low
  omega

/-- `inc_vma_limit` is all-or-nothing exactly if it is refused up front, or RAM has the
frames and the pages that its loops count cover the new range. From a page-aligned break,
and for a page count that fits an `int`, what remains is that RAM has the frames. -/
theorem incVmaLimit_all_or_nothing_iff (own : k.mm = some caller) :
    (GrowthAllOrNothing k caller vmaid incSz ↔
      RefusedUpFront k caller vmaid incSz ∨
        framesNeeded incSz ≤ k.mram.freeFpList.length ∧ RangeCovered k caller vmaid incSz) ∧
    ((∀ index vma, getVmaByNum (k.mms caller) vmaid = .ok (some (index, vma)) → vma.sbrk.toNat % pagingPagesz = 0) →
      framesNeeded incSz < 2 ^ 31 →
      (GrowthAllOrNothing k caller vmaid incSz ↔
        RefusedUpFront k caller vmaid incSz ∨ framesNeeded incSz ≤ k.mram.freeFpList.length)) := by
  refine ⟨growthAllOrNothing_iff own, fun aligned small => ?_⟩
  have covered : RangeCovered k caller vmaid incSz := rangeCovered_of_aligned aligned small
  rw [growthAllOrNothing_iff own, and_iff_left covered]

/-- RAM is full and `krnl->mm` is the process's own `mm`. -/
def fullRam : Krnl Unit := { oneFrame [] [0, 1] with mm := some () }

theorem incVmaLimit_all_or_nothing_iff_fullRam :
    GrowthAllOrNothing fullRam () 0 256 ↔
      RefusedUpFront fullRam () 0 256 ∨
        framesNeeded 256 ≤ fullRam.mram.freeFpList.length ∧ RangeCovered fullRam () 0 256 :=
  (incVmaLimit_all_or_nothing_iff rfl).1

/-- One page asked of a RAM without a free frame: the call returns 0, the break stands
at 256, and page 0 is not there. -/
theorem incVmaLimit_swallows_full_ram :
    ¬ GrowthAllOrNothing fullRam () 0 256 ∧
      ∃ after grown, incVmaLimit fullRam () 0 256 = .ok (0, after) ∧ (after.mms ()).mmap[0]? = some grown ∧
        grown.sbrk = 256 ∧ pagingPagePresent (after.pte ((), pageAt 0)) = false := by
  have ran : ∃ after, incVmaLimit fullRam () 0 256 = .ok (0, after) ∧
      ∃ grown, (after.mms ()).mmap[0]? = some grown ∧ grown.sbrk = 256 ∧ pagingPagePresent (after.pte ((), pageAt 0)) = false :=
    ⟨_, rfl, _, rfl, rfl, by decide⟩
  obtain ⟨after, returned, grown, here, brk, absent⟩ := ran
  refine ⟨fun sound => ?_, after, grown, returned, here, brk, absent⟩
  obtain ⟨_, refused, _⟩ := sound.nothing (by decide)
  rw [returned] at refused
  cases refused

end AllOrNothing

section Alloc
variable {env : Env Proc} {k : Krnl Proc} {caller : Proc} {vmaid rgid : CInt} {size : Addr}

/-- The `SYSMEM_INC_OP` of `__alloc` returns without a usable extension of the area: the
caller's pcb is not found, `inc_vma_limit` returns -1, or RAM has too few frames. -/
def GrowthFails (env : Env Proc) (k : Krnl Proc) (caller : Proc) (vmaid : CInt) (grow : Addr) : Prop :=
  ∃ pid, env.callerPid caller = .ok pid ∧
    (env.findCaller pid = .ok none ∨
      ∃ found code after, env.findCaller pid = .ok (some found) ∧
        incVmaLimit k found (addrToInt (intToAddr vmaid)) (addrParam grow) = .ok (code, after) ∧
        (code = -1 ∨ k.mram.freeFpList.length < framesNeeded (addrParam grow)))

/-- `__alloc` finds no fitting free region, and the growth it asks for then fails. -/
def AllocGrowthFails (env : Env Proc) (k : Krnl Proc) (caller : Proc) (vmaid : CInt) (size : Addr) : Prop :=
  0#64 < size ∧ ∃ area vma chosen mm, getVmaByNum (k.mms caller) vmaid = .ok (some (area, vma)) ∧
    getFreeVmrgArea (k.mms caller) vmaid (addrToInt size) = .ok (-1, chosen, mm) ∧
    GrowthFails env (k.setMm caller mm) caller vmaid (growBytes size)

/-- -1, with the symbol table and every area (break and free regions) as before. -/
def FailureReported (env : Env Proc) (k : Krnl Proc) (caller : Proc) (vmaid rgid : CInt) (size : Addr) : Prop :=
  ∃ allocAddr after, alloc env k caller vmaid rgid size = .ok (-1, allocAddr, after) ∧
    (after.mms caller).symrgtbl = (k.mms caller).symrgtbl ∧ (after.mms caller).mmap = (k.mms caller).mmap

/-- Past the free list there is no path that reports a failure. -/
theorem allocGrow_code {area index : Nat} {code : Int} {allocAddr : Option Addr} {after : Krnl Proc}
    (returned : allocGrow env k caller vmaid area index size = .ok (code, allocAddr, after)) : code = 0 := by
  obtain ⟨vma, _, returned⟩ := Outcome.bind_eq_ok returned
  obtain ⟨pid, _, returned⟩ := Outcome.bind_eq_ok returned
  obtain ⟨⟨_, _, grown⟩, _, returned⟩ := Outcome.bind_eq_ok returned
  obtain ⟨mm, _, returned⟩ := Outcome.bind_eq_ok returned
  cases returned
  rfl

theorem alloc_without_fit {area : Nat} {vma : VmArea} {chosen : Option VmRg} {mm : Mm} (positive : 0#64 < size)
    (found : getVmaByNum (k.mms caller) vmaid = .ok (some (area, vma)))
    (noFit : getFreeVmrgArea (k.mms caller) vmaid (addrToInt size) = .ok (-1, chosen, mm)) :
    alloc env k caller vmaid rgid size = allocGrow env (k.setMm caller mm) caller vmaid area rgid.toNat size := by
  rw [alloc, if_neg (BitVec.not_le.mpr positive)]
  simp only [found, noFit, Outcome.bind_ok]

/-- A failed growth is never reported, in no state and for no register and size. -/
theorem alloc_never_reports_failed_growth (fails : AllocGrowthFails env k caller vmaid size) :
    ¬ FailureReported env k caller vmaid rgid size := by
  rintro ⟨allocAddr, after, returned, _⟩
  obtain ⟨positive, area, vma, chosen, mm, found, noFit, _⟩ := fails
  rw [alloc_without_fit positive found noFit] at returned
  have code := allocGrow_code returned
  cases code

/-- No list of the kernel has the caller in it. -/
def unknownCaller : Env Unit := { pid := fun _ => some 1, regs6 := fun _ => none, readyQueue := some [], runningList := some [], os := 0, uninit := 0 }

private theorem unknownCaller_fails : AllocGrowthFails unknownCaller (oneFrame [0] [0, 1]) () 0 4096 :=
  ⟨by decide, 0, _, none, _, rfl, rfl, 1, rfl, .inl rfl⟩

theorem alloc_never_reports_failed_growth_unknownCaller :
    ¬ FailureReported unknownCaller (oneFrame [0] [0, 1]) () 0 0 4096 :=
  alloc_never_reports_failed_growth unknownCaller_fails

/-- A first process asks for one page in register 0 and again in register 1. Neither
growth finds its caller; both calls return 0 with the same 4096 bytes at address 0. -/
theorem alloc_hands_out_one_range_twice :
    AllocGrowthFails unknownCaller (oneFrame [0] [0, 1]) () 0 4096 ∧
      ¬ FailureReported unknownCaller (oneFrame [0] [0, 1]) () 0 0 4096 ∧
      ∃ first second, alloc unknownCaller (oneFrame [0] [0, 1]) () 0 0 4096 = .ok (0, some 0, first) ∧
        AllocGrowthFails unknownCaller first () 0 4096 ∧
        alloc unknownCaller first () 0 1 4096 = .ok (0, some 0, second) ∧
        (second.mms ()).symrg 0 = .ok { rgStart := 0, rgEnd := 4096 } ∧
        (second.mms ()).symrg 1 = .ok { rgStart := 0, rgEnd := 4096 } := by
  have ran : ∃ first second, alloc unknownCaller (oneFrame [0] [0, 1]) () 0 0 4096 = .ok (0, some 0, first) ∧
      AllocGrowthFails unknownCaller first () 0 4096 ∧
      alloc unknownCaller first () 0 1 4096 = .ok (0, some 0, second) ∧
      (second.mms ()).symrg 0 = .ok { rgStart := 0, rgEnd := 4096 } ∧
      (second.mms ()).symrg 1 = .ok { rgStart := 0, rgEnd := 4096 } :=
    ⟨_, _, rfl, ⟨by decide, 0, _, none, _, rfl, rfl, 1, rfl, .inl rfl⟩, rfl, rfl, rfl⟩
  obtain ⟨first, second, firstRan, rest⟩ := ran
  refine ⟨unknownCaller_fails, ?_, first, second, firstRan, rest⟩
  rintro ⟨allocAddr, after, returned, _⟩
  rw [firstRan] at returned
  cases returned

end Alloc
end LamiaAtrium
