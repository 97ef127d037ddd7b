import LamiaAtrium.Proofs.Regions

/-! Runs of `__alloc` and `__free` in one process: regions never overlap, and no byte is
lost as long as nothing is allocated into a register that is still live. -/

namespace LamiaAtrium
open Allocation Run
variable {Proc : Type} [DecidableEq Proc]

inductive RegionCall (Proc : Type) where
  | alloc (env : Env Proc) (vmaid rgid : CInt) (size : Addr)
  | free (vmaid rgid : CInt)

/-- A call that returned, with a register in 0..29. When the free list does not serve an
allocation, its `SYSMEM_INC_OP` moves the break by the bytes asked for. -/
inductive RegionStep (caller : Proc) : Krnl Proc → RegionCall Proc → Krnl Proc → Prop where
  | alloc {k after : Krnl Proc} {env : Env Proc} {vmaid rgid : CInt} {size : Addr} {code : Int} {allocAddr : Option Addr}
      (register : rgid.toNat < pagingMaxSymtblSz)
      (returned : alloc env k caller vmaid rgid size = .ok (code, allocAddr, after))
      (grows : 0#64 < size → NoFit (k.mms caller) vmaid size → AreaGrew (k.mms caller) (after.mms caller) (growBytes size)) :
      RegionStep caller k (.alloc env vmaid rgid size) after
  | free {k after : Krnl Proc} {vmaid rgid : CInt} {code : Int} (register : rgid.toNat < pagingMaxSymtblSz)
      (returned : free k caller vmaid rgid = .ok (code, after)) :
      RegionStep caller k (.free vmaid rgid) after

/-- A process that has allocated nothing: `vm_start = sbrk = 0`, no free region that could
serve a request, no live register. -/
structure FreshRegions (mm : Mm) (vma : VmArea) : Prop where
  areas : mm.mmap = [vma]
  start : vma.vmStart = 0
  brk : vma.sbrk = 0
  unusable : ∀ rg ∈ vma.vmFreergList, rg.Unusable
  vacant : ∀ reg, Vacant mm reg

namespace RegionCall

def SizeBetween (low high : Nat) : RegionCall Proc → Prop
  | .alloc _ _ _ size => low ≤ size.toNat ∧ size.toNat < high
  | .free _ _ => True

/-- The first-fit test of an allocation does not wrap on the free list at hand. -/
def Unwrapped (call : RegionCall Proc) (mm : Mm) : Prop :=
  match call with
  | .alloc _ _ _ size => ∀ vma ∈ mm.mmap, FitsUnwrapped vma size
  | .free _ _ => True

/-- An allocation that hands out bytes records them in a register that names no region. -/
def SparesLive (call : RegionCall Proc) (mm : Mm) : Prop :=
  match call with
  | .alloc _ _ rgid size => 0#64 < size → ∀ reg : Fin pagingMaxSymtblSz, rgid.toNat = reg → Vacant mm reg
  | .free _ _ => True

end RegionCall

section Step
variable {caller : Proc} {before after : Krnl Proc} {call : RegionCall Proc} {vma : VmArea}

omit [DecidableEq Proc] in
theorem FreshRegions.ok {mm : Mm} (fresh : FreshRegions mm vma) : RegionsOk mm vma where
  areas := fresh.areas
  start := by rw [fresh.start, fresh.brk]
  liveProper reg := .inl (fresh.vacant reg)
  freeProper rg member := .inl (fresh.unusable rg member)
  separated := by
    apply Separated.empty
    · intro reg
      rw [Mm.live, Function.comp_apply, fresh.vacant reg, bytes_vacant]
    · intro block member
      obtain ⟨rg, listed, rfl⟩ := List.mem_map.mp member
      exact (fresh.unusable rg listed).bytes_eq

omit [DecidableEq Proc] in
theorem FreshRegions.covered {mm : Mm} (fresh : FreshRegions mm vma) : Covered vma.space mm.live vma.free := by
  intro cell inside
  rw [VmArea.space, fresh.start, fresh.brk] at inside
  exact absurd inside.2 (Nat.not_lt_zero cell)

/-- The step lemma: every call keeps the invariant; a call that spares live registers
loses no byte. -/
theorem regionStep_ok (ok : RegionsOk (before.mms caller) vma) (step : RegionStep caller before call after)
    (sized : call.SizeBetween 0 (2 ^ 63)) (unwrapped : call.Unwrapped (before.mms caller)) :
    ∃ vma', RegionsOk (after.mms caller) vma' ∧
      (call.SparesLive (before.mms caller) → Covered vma.space (before.mms caller).live vma.free →
        Covered vma'.space (after.mms caller).live vma'.free) := by
  cases step with
  | @alloc _ env vmaid rgid size _ _ register returned grows =>
    by_cases positive : 0#64 < size
    · have unwrapped := unwrapped vma (ok.areas ▸ List.mem_cons_self)
      have sound : 0 < (addrToInt size).toInt → ∀ rg ∈ vma.vmFreergList, rg.rgStart ≠ -1 := by
        intro sign rg member last
        have same := toInt_of_nonneg (Int.le_of_lt sign)
        have nonzero : 0 < (addrToInt size).toNat := by omega
        rcases unwrapped rg member with unusable | below
        · exact unusable.start_ne last
        · have top : rg.rgStart.toNat = 2 ^ 64 - 1 := by rw [last]; rfl
          omega
      rcases alloc_cases ⟨rgid.toNat, register⟩ ok.areas positive rfl sound returned with carved | taken
      · obtain ⟨vma', okAfter, _, _, keeps⟩ := regions_carved ok unwrapped carved
        exact ⟨vma', okAfter, fun spares => keeps (spares positive _ rfl)⟩
      · have low : 0 < size.toNat := by rw [BitVec.lt_def] at positive; exact positive
        obtain ⟨vma', okAfter, _, keeps⟩ := regions_grown ok low sized.2 taken (grows positive taken.noFit)
        exact ⟨vma', okAfter, fun spares => keeps (spares positive _ rfl)⟩
    · rw [LamiaAtrium.alloc, if_pos (BitVec.not_lt.mp positive)] at returned
      cases returned
      exact ⟨vma, ok, fun _ covered => covered⟩
  | @free _ vmaid rgid _ register returned =>
    rcases free_cases ⟨rgid.toNat, register⟩ ok.areas rfl returned with ⟨_, rfl⟩ | ⟨live, regions, same, listed⟩
    · exact ⟨vma, ok, fun _ covered => covered⟩
    · rcases ok.liveProper ⟨rgid.toNat, register⟩ with vacant | proper
      · exact absurd vacant live
      · rw [listed proper] at same
        obtain ⟨vma', okAfter, _, _, keeps⟩ := regions_released ok proper same
        exact ⟨vma', okAfter, fun _ => keeps⟩

end Step

section Runs
variable {caller : Proc} {first last : Krnl Proc} {calls : List (RegionCall Proc)} {vma : VmArea}

def BreakBelow (limit : Nat) (mm : Mm) : Prop := ∀ vma ∈ mm.mmap, vma.sbrk.toNat < limit

omit [DecidableEq Proc] in
private theorem unwrapped_of_breakBelow {before : Krnl Proc} (ok : RegionsOk (before.mms caller) vma)
    (below : vma.sbrk.toNat < 2 ^ 63) (call : RegionCall Proc) : call.Unwrapped (before.mms caller) := by
  cases call with
  | alloc env vmaid rgid size =>
    intro area member rg listed
    rw [ok.areas, List.mem_singleton] at member
    subst member
    rcases ok.freeProper rg listed with unusable | ⟨ordered, inside⟩
    · exact .inl unusable
    · have word := (addrToInt size).isLt
      right
      omega
  | free vmaid rgid => trivial

/-- Whatever a fresh process allocates and afterFree, for sizes from 1 to 2^63 - 1 and with a
break below 2^63, no two of its regions share a byte, live or free, and all lie between
the start of the area and the break. -/
theorem no_two_regions_overlap (fresh : FreshRegions (first.mms caller) vma)
    (run : Steps (fun before call after => RegionStep caller before call after ∧ call.SizeBetween 1 (2 ^ 63) ∧
      BreakBelow (2 ^ 63) (after.mms caller)) first calls last) :
    ∃ vma', (last.mms caller).mmap = [vma'] ∧
      Separated (Set.Ico vma'.vmStart.toNat vma'.sbrk.toNat) (last.mms caller).live vma'.free ∧
      ∀ reg, ¬ Vacant (last.mms caller) reg →
        vma'.vmStart.toNat ≤ ((last.mms caller).symrgtbl reg).rgStart.toNat ∧
        ((last.mms caller).symrgtbl reg).rgStart.toNat < ((last.mms caller).symrgtbl reg).rgEnd.toNat ∧
        ((last.mms caller).symrgtbl reg).rgEnd.toNat ≤ vma'.sbrk.toNat := by
  have reached : ∃ vma', RegionsOk (last.mms caller) vma' ∧ vma'.sbrk.toNat < 2 ^ 63 := by
    apply run.invariant ⟨vma, fresh.ok, by rw [fresh.brk]; decide⟩
    rintro before call after ⟨vma, ok, below⟩ ⟨step, sized, bounded⟩
    have wide : call.SizeBetween 0 (2 ^ 63) := by
      cases call with
      | alloc env vmaid rgid size => exact ⟨Nat.zero_le _, sized.2⟩
      | free vmaid rgid => trivial
    obtain ⟨vma', okAfter, _⟩ := regionStep_ok ok step wide (unwrapped_of_breakBelow ok below call)
    exact ⟨vma', okAfter, bounded vma' (okAfter.areas ▸ List.mem_cons_self)⟩
  obtain ⟨vma', ok, _⟩ := reached
  refine ⟨vma', ok.areas, ok.separated, ?_⟩
  intro reg live
  have proper := (ok.liveProper reg).resolve_left live
  have inside := ok.separated.liveInside reg
  have lowest := inside (show ((last.mms caller).symrgtbl reg).rgStart.toNat ∈ _ from ⟨Nat.le_refl _, proper⟩)
  have highest := inside (show ((last.mms caller).symrgtbl reg).rgEnd.toNat - 1 ∈ _ from ⟨by omega, by omega⟩)
  have top := highest.2
  exact ⟨lowest.1, proper, by omega⟩

/-- In every run of a fresh process whose allocations of at least one byte go to registers that
name no region at that time, and whose first-fit tests do not wrap, every byte below the break is in a
live region or in a free one; once all registers are free the free list covers them all. -/
theorem no_memory_leaked_sparing_live_registers (fresh : FreshRegions (first.mms caller) vma)
    (run : Steps (fun before call after => RegionStep caller before call after ∧ call.SizeBetween 0 (2 ^ 31) ∧
      call.SparesLive (before.mms caller) ∧ call.Unwrapped (before.mms caller)) first calls last) :
    ∃ vma', (last.mms caller).mmap = [vma'] ∧
      Covered (Set.Ico vma'.vmStart.toNat vma'.sbrk.toNat) (last.mms caller).live vma'.free ∧
      ((∀ reg, Vacant (last.mms caller) reg) →
        ∀ byte ∈ Set.Ico vma'.vmStart.toNat vma'.sbrk.toNat, ∃ rg ∈ vma'.vmFreergList, byte ∈ rg.bytes) := by
  have reached : ∃ vma', RegionsOk (last.mms caller) vma' ∧ Covered vma'.space (last.mms caller).live vma'.free := by
    apply run.invariant ⟨vma, fresh.ok, fresh.covered⟩
    rintro before call after ⟨vma, ok, covered⟩ ⟨step, sized, spares, unwrapped⟩
    have wide : call.SizeBetween 0 (2 ^ 63) := by
      cases call with
      | alloc env vmaid rgid size => exact ⟨sized.1, Nat.lt_trans sized.2 (by decide)⟩
      | free vmaid rgid => trivial
    obtain ⟨vma', okAfter, keeps⟩ := regionStep_ok ok step wide unwrapped
    exact ⟨vma', okAfter, keeps spares covered⟩
  obtain ⟨vma', ok, covered⟩ := reached
  refine ⟨vma', ok.areas, covered, ?_⟩
  intro vacant byte inside
  rcases covered byte inside with ⟨reg, live⟩ | ⟨block, member, here⟩
  · rw [Mm.live, Function.comp_apply, vacant reg, bytes_vacant] at live
    cases live
  · obtain ⟨rg, listed, rfl⟩ := List.mem_map.mp member
    exact ⟨rg, listed, here⟩

end Runs

section Examples

/-- One process with RAM for one growth, known to the kernel, its `mm` being `krnl->mm`. -/
def sixteenFrames : Krnl Unit where
  mm := some ()
  mram := { storage := fun _ => 0, maxsz := 4096, rdmflg := true, cursor := 0, freeFpList := (List.range 16).map (BitVec.ofNat 64) }
  activeMswp := { storage := fun _ => 0, maxsz := 0, rdmflg := true, cursor := 0, freeFpList := [] }
  activeMswpId := 0
  mms := fun _ => initMm []

def knownCaller : Env Unit := { pid := fun _ => some 1, regs6 := fun _ => none, readyQueue := some [], runningList := some [()], os := 0, uninit := 0 }

theorem sixteenFrames_fresh : FreshRegions (sixteenFrames.mms ())
    { vmId := 0, vmStart := 0, vmEnd := 0, sbrk := 0, vmFreergList := [{ rgStart := 0, rgEnd := 0 }] } where
  areas := rfl
  start := rfl
  brk := rfl
  unusable rg member := by
    rw [List.mem_singleton.mp member]
    exact VmRg.unusable_zero
  vacant _ := rfl

/-- 100 bytes for register 0, twice: the first time the area grows by 4096 bytes, the
second time the free list serves the request. -/
private theorem alloc_twice : ∃ middle vma last vma',
    alloc knownCaller sixteenFrames () 0 0 100 = .ok (0, some 0, middle) ∧
      (middle.mms ()).mmap = [vma] ∧ vma.sbrk = 4096 ∧ ¬ NoFit (middle.mms ()) 0 100 ∧
    alloc knownCaller middle () 0 0 100 = .ok (0, some 100, last) ∧
      (last.mms ()).mmap = [vma'] ∧ vma'.vmStart = 0 ∧ vma'.sbrk = 4096 ∧
      vma'.vmFreergList = [{ rgStart := 200, rgEnd := 4096 }, { rgStart := 0, rgEnd := 0 }] ∧
      ∀ reg, (last.mms ()).symrgtbl reg = { rgStart := 100, rgEnd := 200 } ∨ Vacant (last.mms ()) reg := by
  refine ⟨_, _, _, _, rfl, rfl, rfl, ?_, rfl, rfl, rfl, rfl, rfl, ?_⟩
  · rintro ⟨chosen, after, failed⟩
    cases failed
  · decide

private theorem first_step {middle : Krnl Unit} {vma : VmArea}
    (ran : alloc knownCaller sixteenFrames () 0 0 100 = .ok (0, some 0, middle)) (areas : (middle.mms ()).mmap = [vma])
    (brk : vma.sbrk = 4096) : RegionStep () sixteenFrames (.alloc knownCaller 0 0 100) middle :=
  .alloc (by decide) ran fun _ _ => ⟨_, vma, rfl, areas, by rw [brk]; rfl⟩

private theorem second_step {middle last : Krnl Unit} (ran : alloc knownCaller middle () 0 0 100 = .ok (0, some 100, last))
    (fits : ¬ NoFit (middle.mms ()) 0 100) : RegionStep () middle (.alloc knownCaller 0 0 100) last :=
  .alloc (by decide) ran fun _ none => absurd none fits

private theorem breakBelow_of_single {mm : Mm} {vma : VmArea} (areas : mm.mmap = [vma]) (brk : vma.sbrk = 4096) :
    BreakBelow (2 ^ 63) mm := by
  intro area member
  rw [areas, List.mem_singleton] at member
  rw [member, brk]
  decide

theorem no_two_regions_overlap_sixteenFrames :
    ∃ calls last vma', calls.length = 2 ∧
      Steps (fun before call after => RegionStep () before call after ∧ call.SizeBetween 1 (2 ^ 63) ∧
        BreakBelow (2 ^ 63) (after.mms ())) sixteenFrames calls last ∧
      (last.mms ()).mmap = [vma'] ∧
      Separated (Set.Ico vma'.vmStart.toNat vma'.sbrk.toNat) (last.mms ()).live vma'.free := by
  obtain ⟨middle, vma, last, vma', firstRan, areas, brk, fits, secondRan, areas', _, brk', _, _⟩ := alloc_twice
  have run : Steps (fun before call after => RegionStep () before call after ∧ call.SizeBetween 1 (2 ^ 63) ∧
      BreakBelow (2 ^ 63) (after.mms ())) sixteenFrames _ last :=
    (Steps.single ⟨first_step firstRan areas brk, ⟨by decide, by decide⟩, breakBelow_of_single areas brk⟩).tail
      ⟨second_step secondRan fits, ⟨by decide, by decide⟩, breakBelow_of_single areas' brk'⟩
  obtain ⟨vma'', here, separated, _⟩ := no_two_regions_overlap sixteenFrames_fresh run
  exact ⟨_, last, vma'', rfl, run, here, separated⟩

def afterAlloc (k : Krnl Unit) (rgid : CInt) (size : Addr) : Krnl Unit :=
  match alloc knownCaller k () 0 rgid size with
  | .ok (_, _, after) => after
  | .error _ => k

def afterFree (k : Krnl Unit) (rgid : CInt) : Krnl Unit :=
  match free k () 0 rgid with
  | .ok (_, after) => after
  | .error _ => k

/-- 100 bytes for register 0 and 200 for register 1, then register 0 freed and 40 of its bytes
taken for register 2. -/
def firstAllocated : Krnl Unit := afterAlloc sixteenFrames 0 100
def bothAllocated : Krnl Unit := afterAlloc firstAllocated 1 200
def firstFreed : Krnl Unit := afterFree bothAllocated 0
def firstReused : Krnl Unit := afterAlloc firstFreed 2 40

private theorem unwrapped_of_low {mm : Mm} {vma : VmArea} (areas : mm.mmap = [vma]) (low : ∀ rg ∈ vma.vmFreergList, rg.rgStart.toNat < 2 ^ 63)
    (call : RegionCall Unit) : call.Unwrapped mm := by
  cases call with
  | alloc env vmaid rgid size =>
    intro area member rg listed
    rw [areas, List.mem_singleton] at member
    subst member
    have start := low rg listed
    have word := (addrToInt size).isLt
    exact .inr (by omega)
  | free vmaid rgid => trivial

theorem no_memory_leaked_sparing_live_registers_sixteenFrames :
    ∃ calls last vma', calls.length = 5 ∧
      Steps (fun before call after => RegionStep () before call after ∧ call.SizeBetween 0 (2 ^ 31) ∧
        call.SparesLive (before.mms ()) ∧ call.Unwrapped (before.mms ())) sixteenFrames calls last ∧
      (last.mms ()).mmap = [vma'] ∧ vma'.sbrk = 4096 ∧
      Covered (Set.Ico vma'.vmStart.toNat vma'.sbrk.toNat) (last.mms ()).live vma'.free := by
  have grown : RegionStep () sixteenFrames (.alloc knownCaller 0 0 100) firstAllocated :=
    .alloc (by decide) (show alloc knownCaller sixteenFrames () 0 0 100 = .ok (0, some 0, firstAllocated) from rfl)
      fun _ _ => ⟨_, _, rfl, rfl, rfl⟩
  have refused : RegionStep () firstAllocated (.alloc knownCaller 0 0 0) firstAllocated :=
    .alloc (by decide) (show alloc knownCaller firstAllocated () 0 0 0 = .ok (-1, none, firstAllocated) from rfl)
      fun positive => absurd positive (by decide)
  have served : RegionStep () firstAllocated (.alloc knownCaller 0 1 200) bothAllocated :=
    .alloc (by decide) (show alloc knownCaller firstAllocated () 0 1 200 = .ok (0, some 100, bothAllocated) from rfl) fun _ none => by
      obtain ⟨chosen, after, failed⟩ := none
      cases failed
  have freed : RegionStep () bothAllocated (.free 0 0) firstFreed :=
    .free (by decide) (show free bothAllocated () 0 0 = .ok (0, firstFreed) from rfl)
  have reusing : RegionStep () firstFreed (.alloc knownCaller 0 2 40) firstReused :=
    .alloc (by decide) (show alloc knownCaller firstFreed () 0 2 40 = .ok (0, some 0, firstReused) from rfl) fun _ none => by
      obtain ⟨chosen, after, failed⟩ := none
      cases failed
  have vacant {k : Krnl Unit} {rgid : CInt} {size : Addr} (free : ∀ reg : Fin pagingMaxSymtblSz, rgid.toNat = reg → Vacant (k.mms ()) reg) :
      (RegionCall.alloc knownCaller 0 rgid size).SparesLive (k.mms ()) := fun _ => free
  have run : Steps (fun before call after => RegionStep () before call after ∧ call.SizeBetween 0 (2 ^ 31) ∧
      call.SparesLive (before.mms ()) ∧ call.Unwrapped (before.mms ())) sixteenFrames _ firstReused :=
    ((((Steps.single ⟨grown, ⟨by decide, by decide⟩, vacant (fun _ _ => rfl), unwrapped_of_low rfl (by decide) _⟩).tail
      ⟨refused, ⟨by decide, by decide⟩, fun positive => absurd positive (by decide), unwrapped_of_low rfl (by decide) _⟩).tail
      ⟨served, ⟨by decide, by decide⟩, vacant (by decide), unwrapped_of_low rfl (by decide) _⟩).tail
      ⟨freed, trivial, trivial, trivial⟩).tail
      ⟨reusing, ⟨by decide, by decide⟩, vacant (by decide), unwrapped_of_low rfl (by decide) _⟩
  obtain ⟨vma', here, covered, _⟩ := no_memory_leaked_sparing_live_registers sixteenFrames_fresh run
  have brk : (firstReused.mms ()).mmap.map VmArea.sbrk = [4096] := rfl
  rw [here] at brk
  exact ⟨_, firstReused, vma', rfl, run, here, List.head_eq_of_cons_eq brk, covered⟩

/-- The second allocation of 100 bytes finds register 0 live and overwrites it: byte 0 is
below the break and in no region any more. -/
theorem alloc_into_live_register_leaks :
    FreshRegions (sixteenFrames.mms ())
        { vmId := 0, vmStart := 0, vmEnd := 0, sbrk := 0, vmFreergList := [{ rgStart := 0, rgEnd := 0 }] } ∧
      ∃ calls last vma', Steps (fun before call after => RegionStep () before call after ∧ call.SizeBetween 0 (2 ^ 31))
          sixteenFrames calls last ∧ (last.mms ()).mmap = [vma'] ∧
        0 ∈ Set.Ico vma'.vmStart.toNat vma'.sbrk.toNat ∧
        ¬ Covered (Set.Ico vma'.vmStart.toNat vma'.sbrk.toNat) (last.mms ()).live vma'.free := by
  obtain ⟨middle, vma, last, vma', firstRan, areas, brk, fits, secondRan, areas', start, brk', regions, table⟩ := alloc_twice
  have inside : 0 ∈ Set.Ico vma'.vmStart.toNat vma'.sbrk.toNat := by
    rw [start, brk']
    exact ⟨by decide, by decide⟩
  refine ⟨sixteenFrames_fresh, _, last, vma', (Steps.single ⟨first_step firstRan areas brk, ⟨by decide, by decide⟩⟩).tail
    ⟨second_step secondRan fits, ⟨by decide, by decide⟩⟩, areas', inside, ?_⟩
  intro covered
  rcases covered 0 inside with ⟨reg, live⟩ | ⟨block, member, here⟩
  · rcases table reg with region | vacant
    · rw [Mm.live, Function.comp_apply, region] at live
      exact absurd live.1 (by decide)
    · rw [Mm.live, Function.comp_apply, vacant, bytes_vacant] at live
      cases live
  · rw [VmArea.free, regions] at member
    obtain ⟨rg, listed, rfl⟩ := List.mem_map.mp member
    rcases List.mem_cons.mp listed with rfl | listed
    · exact absurd here.1 (by decide)
    · rw [List.mem_singleton.mp listed] at here
      exact absurd here.2 (by decide)

end Examples
end LamiaAtrium
