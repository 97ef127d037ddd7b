import LamiaAtrium.Proofs.Delivery
import LamiaAtrium.Proofs.Instructions
import LamiaAtrium.Proofs.Rollback
import LamiaAtrium.Proofs.SharedKernel

/-! The addresses that a process can tell apart. `PAGING_PGN` keeps 14 bits of a page
number, so a bus of 4 MB, and the break is a 64-bit counter which every growth moves. -/

namespace LamiaAtrium
open Run

section Distinct

/-- Different addresses below the break have a different page number or offset. -/
def Distinguished (brk : Addr) : Prop :=
  ∀ a b : Addr, a < brk → b < brk → pagingPgn (addrToInt a) = pagingPgn (addrToInt b) →
    pagingOffst (addrToInt a) = pagingOffst (addrToInt b) → a = b

theorem distinguished_iff (brk : Addr) : Distinguished brk ↔ brk.toNat ≤ 2 ^ 22 := by
  constructor
  · intro distinct
    by_contra beyond
    -- the first byte beyond the bus and byte 0
    have same : (0#64 : Addr) = 0x400000#64 := by
      apply distinct
      · rw [BitVec.lt_def]
        exact Nat.lt_trans (by decide) (Nat.lt_of_not_le beyond)
      · rw [BitVec.lt_def]
        exact Nat.lt_of_not_le beyond
      · decide
      · decide
    cases same
  · intro inside a b below belowToo page offset
    have pages := congrArg BitVec.toNat page
    have offsets := congrArg BitVec.toNat offset
    rw [pagingPgn_toNat, pagingPgn_toNat] at pages
    rw [pagingOffst_toNat, pagingOffst_toNat] at offsets
    simp only [addrToInt, BitVec.toNat_setWidth, BitVec.lt_def] at pages offsets below belowToo
    apply BitVec.eq_of_toNat_eq
    omega

end Distinct

variable {Proc : Type} [DecidableEq Proc] {k after first : Krnl Proc} {caller : Proc}

structure AllocCall (Proc : Type) where
  env : Env Proc
  vmaid : CInt
  rgid : CInt
  size : Addr

/-- A call of `__alloc` by the process, or anything the others do in between that leaves
its `mm` alone. -/
inductive SpaceStep (caller : Proc) : Krnl Proc → Option (AllocCall Proc) → Krnl Proc → Prop where
  | alloc {k after : Krnl Proc} {call : AllocCall Proc} {code : Int} {allocAddr : Option Addr}
      (returned : alloc call.env k caller call.vmaid call.rgid call.size = .ok (code, allocAddr, after)) :
      SpaceStep caller k (some call) after
  | others {k after : Krnl Proc} (mm : after.mm = k.mm) (own : after.mms caller = k.mms caller) : SpaceStep caller k none after

/-- `krnl->mm` is the process's own `mm`, with one area, on whole pages and inside the bus, and
no page is mapped at or above its break. -/
structure InsideBus (k : Krnl Proc) (caller : Proc) (vma : VmArea) : Prop where
  own : k.mm = some caller
  areas : (k.mms caller).mmap = [vma]
  whole : vma.sbrk.toNat % pagingPagesz = 0
  inside : vma.sbrk.toNat ≤ 2 ^ 22
  below : ∀ page, ¬(k.pte (caller, page)).unmapped → page.toNat * pagingPagesz < vma.sbrk.toNat

/-- No two addresses below the break of the process are one to `PAGING_PGN` and `PAGING_OFFST`. -/
def NoAliases (k : Krnl Proc) (caller : Proc) : Prop := ∀ vma ∈ (k.mms caller).mmap, Distinguished vma.sbrk

/-- No entry of a page that was mapped is overwritten. -/
def NoOverwrite (k : Krnl Proc) (caller : Proc) (after : Krnl Proc) : Prop :=
  ∀ page, ¬(k.pte (caller, page)).unmapped → after.pte (caller, page) = k.pte (caller, page)

/-- If the free list cannot serve the call and the lookup of its growth finds a process,
the bytes that arrive there leave the break on the bus. -/
def StaysOnBus (k : Krnl Proc) (caller : Proc) : Option (AllocCall Proc) → Prop
  | none => True
  | some call => NoFit (k.mms caller) call.vmaid call.size → call.env.Answers caller →
      ∀ vma ∈ (k.mms caller).mmap, vma.sbrk.toNat + (growBytes call.size).toNat % 2 ^ 32 ≤ 2 ^ 22

section Growth
variable {vma : VmArea} {incSz : Addr} {owner : Proc}

/-- Pages outside the range keep their entries, in every table. -/
theorem vmMapRam_outside {astart aend mapstart : Addr} {incpgnum : CInt} {rg : VmRg} {page : Page}
    (outside : ∀ i < rounds incpgnum, page ≠ pageOf (pgnAt mapstart i)) (p : Proc) :
    (vmMapRam k caller astart aend mapstart incpgnum rg).2.2.pte (p, page) = k.pte (p, page) := by
  by_cases enough : rounds incpgnum ≤ k.mram.freeFpList.length
  · have count : (k.mram.freeFpList.take (rounds incpgnum)).reverse.length = rounds incpgnum := by
      rw [List.length_reverse, List.length_take, Nat.min_eq_left enough]
    rw [vmMapRam_enough enough]
    by_cases same : p = caller
    · subst same
      simp only [Krnl.pte, Krnl.setMm_same]
      apply mapFrames_outside
      intro j below
      rw [Nat.zero_add]
      exact outside j (count ▸ below)
    · simp only [Krnl.pte, Krnl.setMm_mms, if_neg same]
  · rw [vmMapRam_short (Nat.lt_of_not_le enough)]

/-- The growth of the process's own area as far as its break and its table are concerned,
whichever process `found` the pages are mapped for. -/
theorem grownFor_inside {found : Proc} (bus : InsideBus k caller vma) (whole : (pagingAlign incSz).toNat % pagingPagesz = 0)
    (room : vma.sbrk.toNat + (pagingAlign incSz).toNat ≤ 2 ^ 22) :
    NoOverwrite k caller (grownFor k found caller 0 vma incSz) ∧
      InsideBus (grownFor k found caller 0 vma incSz) caller
        { vma with sbrk := vma.sbrk + pagingAlign incSz, vmEnd := vma.sbrk + pagingAlign incSz } := by
  have brk : (vma.sbrk + pagingAlign incSz).toNat = vma.sbrk.toNat + (pagingAlign incSz).toNat := by
    rw [BitVec.toNat_add]
    omega
  have count : rounds (addrToInt (pagingAlign incSz / 256#64)) = (pagingAlign incSz).toNat / 256 := by
    simp only [rounds, addrToInt, BitVec.toInt_eq_toNat_cond, BitVec.toNat_setWidth, BitVec.toNat_udiv, BitVec.toNat_ofNat, Nat.reducePow,
      Nat.reduceMod]
    split <;> omega
  have bounds := bus.whole
  rw [pagingPagesz] at bounds whole
  -- the pages of the range are the numbers from the old break up to the new one
  have number (i : Nat) (round : i < (pagingAlign incSz).toNat / 256) :
      (pageOf (pgnAt vma.sbrk i)).toNat = vma.sbrk.toNat / 256 + i := by
    rw [pageOf_pgnAt_toNat]
    omega
  have kept (page : Page) (mapped : ¬(k.pte (caller, page)).unmapped) :
      (grownFor k found caller 0 vma incSz).pte (caller, page) = k.pte (caller, page) := by
    rw [grownFor_pte]
    apply vmMapRam_outside
    intro i round same
    rw [count] at round
    have low := bus.below page mapped
    rw [same, number i round, pagingPagesz] at low
    omega
  refine ⟨kept, (grownFor_mm ..).trans bus.own, ?_, ?_, ?_, ?_⟩
  · rw [grownFor_mmap, if_pos rfl, bus.areas]
    rfl
  · rw [brk, pagingPagesz]
    omega
  · rw [brk]
    exact room
  · intro page mapped
    rw [brk]
    by_cases before : (k.pte (caller, page)).unmapped
    · by_cases fresh : ∃ i < (pagingAlign incSz).toNat / 256, page = pageOf (pgnAt vma.sbrk i)
      · obtain ⟨i, round, rfl⟩ := fresh
        rw [number i round, pagingPagesz]
        omega
      · rw [grownFor_pte, vmMapRam_outside] at mapped
        · exact absurd before mapped
        · intro i round same
          exact fresh ⟨i, count ▸ round, same⟩
    · exact Nat.lt_of_lt_of_le (bus.below page before) (Nat.le_add_right _ _)

end Growth

section Step
variable {vma : VmArea} {call : Option (AllocCall Proc)}

/-- A change of regions keeps the state and every entry. -/
theorem InsideBus.sameTable {mm : Mm} (bus : InsideBus k caller vma) (same : SameTable (k.mms caller) mm) :
    NoOverwrite k caller (k.setMm caller mm) ∧ ∃ vmFreergList, InsideBus (k.setMm caller mm) caller { vma with vmFreergList } := by
  have entries : (k.setMm caller mm).pte = k.pte := pte_setMm_of_pgd k caller same.pgd
  obtain ⟨vmFreergList, areas⟩ := same.single bus.areas
  refine ⟨fun page _ => congrFun entries (caller, page), vmFreergList, bus.own, ?_, bus.whole, bus.inside, ?_⟩
  · rw [Krnl.setMm_same, areas]
  · rw [entries]
    exact bus.below

omit [DecidableEq Proc] in
theorem InsideBus.noAliases (bus : InsideBus k caller vma) : NoAliases k caller := by
  intro area member
  rw [bus.areas, List.mem_singleton] at member
  rw [member, distinguished_iff]
  exact bus.inside

omit [DecidableEq Proc] in
theorem InsideBus.noAliases_iff {brk vmEnd : Addr} {vmFreergList : List VmRg}
    (areas : (k.mms caller).mmap = [{ vma with vmEnd, sbrk := brk, vmFreergList }]) : NoAliases k caller ↔ brk.toNat ≤ 2 ^ 22 := by
  rw [NoAliases, areas, ← distinguished_iff]
  simp

/-- The growth of an `__alloc` from a state inside the bus: it keeps the state exactly if
the bytes that arrive still fit, and else leaves two addresses that are one. -/
private theorem grow_step {mm : Mm} {pid vmaid : CInt} {result : Int} {regs : ScRegs} {size : Addr} {env : Env Proc} {grown : Krnl Proc}
    (bus : InsideBus k caller vma) (same : SameTable (k.mms caller) mm) (known : env.callerPid caller = .ok pid)
    (called : syscall env (k.setMm caller mm) pid 17 { a1 := 2, a2 := intToAddr vmaid, a3 := growBytes size } =
      .ok (result, regs, grown)) :
    ((env.Answers caller → vma.sbrk.toNat + (growBytes size).toNat % 2 ^ 32 ≤ 2 ^ 22) ∧
        NoOverwrite k caller grown ∧ ∃ vma', InsideBus grown caller vma') ∨
      env.Answers caller ∧ 2 ^ 22 < vma.sbrk.toNat + (growBytes size).toNat % 2 ^ 32 ∧
        ∃ brk vmEnd vmFreergList, (grown.mms caller).mmap = [{ vma with vmEnd, sbrk := brk, vmFreergList }] ∧ 2 ^ 22 < brk.toNat := by
  obtain ⟨kept, vmFreergList, here⟩ := bus.sameTable same
  have arrives := growth_toNat size
  have pages := growBytes_aligned size
  have unchanged (still : grown = k.setMm caller mm) : NoOverwrite k caller grown ∧ ∃ vma', InsideBus grown caller vma' := by
    rw [still]
    exact ⟨kept, _, here⟩
  rcases syscall_answered called with ⟨missing, same⟩ | ⟨other, found⟩
  · cases same
    refine .inl ⟨?_, unchanged rfl⟩
    intro answers
    obtain ⟨other, process, same, answer⟩ := answers
    cases known.symm.trans same
    cases missing.symm.trans answer
  · rw [syscall_inc found] at called
    obtain ⟨⟨code, final⟩, ran, called⟩ := Outcome.bind_eq_ok called
    cases called
    have answers : env.Answers caller := ⟨pid, other, known, found⟩
    by_cases room : vma.sbrk.toNat + (growBytes size).toNat % 2 ^ 32 ≤ 2 ^ 22
    · refine .inl ⟨fun _ => room, ?_⟩
      obtain ⟨owner, own, ⟨_, same, _⟩ | ⟨_, index, area, lookup, _, rfl⟩⟩ := incVmaLimit_cases ran
      · exact unchanged same
      · obtain rfl : owner = caller := Option.some.inj (own.symm.trans here.own)
        obtain ⟨rfl, rfl⟩ := single_found here.areas lookup
        have whole : (pagingAlign (addrParam (growBytes size))).toNat % pagingPagesz = 0 := by
          rw [arrives, pagingPagesz]
          omega
        obtain ⟨keptOn, bigger⟩ := grownFor_inside here whole (by rw [arrives]; exact room)
        refine ⟨fun page mapped => ?_, _, bigger⟩
        have before := kept page mapped
        exact (keptOn page (by rwa [before])).trans before
    · have beyond : (vma.sbrk + pagingAlign (addrParam (growBytes size))).toNat =
          vma.sbrk.toNat + (growBytes size).toNat % 2 ^ 32 := by
        have low := bus.inside
        rw [BitVec.toNat_add, arrives]
        omega
      refine .inr ⟨answers, Nat.lt_of_not_le room, ?_⟩
      obtain ⟨owner, own, ⟨_, _, refused⟩ | ⟨_, index, area, lookup, _, rfl⟩⟩ := incVmaLimit_cases ran
      · obtain rfl : owner = caller := Option.some.inj (own.symm.trans here.own)
        rcases refused with none | ⟨index, area, lookup, refused⟩
        · cases here.areas.symm.trans (getVmaByNum_none_iff.mp none)
        · obtain ⟨rfl, rfl⟩ := single_found here.areas lookup
          rw [single_refused here.areas, BitVec.le_def] at refused
          dsimp only at refused
          have low := bus.inside
          omega
      · obtain rfl : owner = caller := Option.some.inj (own.symm.trans here.own)
        obtain ⟨rfl, rfl⟩ := single_found here.areas lookup
        refine ⟨vma.sbrk + pagingAlign (addrParam (growBytes size)), vma.sbrk + pagingAlign (addrParam (growBytes size)), vmFreergList, ?_, ?_⟩
        · rw [grownFor_mmap, if_pos rfl, here.areas]
          rfl
        · rw [beyond]
          exact Nat.lt_of_not_le room

/-- One step from a state inside the bus. -/
theorem SpaceStep.stays (step : SpaceStep caller k call after) (bus : InsideBus k caller vma) :
    StaysOnBus k caller call ∧ NoOverwrite k caller after ∧ (∃ vma', InsideBus after caller vma') ∨
      ¬StaysOnBus k caller call ∧ ¬NoAliases after caller := by
  cases step with
  | others mm own =>
    have entries (page : Page) : after.pte (caller, page) = k.pte (caller, page) := by rw [Krnl.pte, Krnl.pte, own]
    refine .inl ⟨trivial, fun page _ => entries page, vma, mm.trans bus.own, own ▸ bus.areas, bus.whole, bus.inside, ?_⟩
    intro page
    rw [entries]
    exact bus.below page
  | alloc returned =>
    next call _ _ =>
    have only (area : VmArea) : area ∈ (k.mms caller).mmap ↔ area = vma := by rw [bus.areas, List.mem_singleton]
    rcases alloc_effect returned with
      ⟨mm, same, rfl, served⟩ | ⟨mm, pid, result, regs, grown, last, _, _, noFit, same, known, called, kept, rfl⟩
    · obtain ⟨entries, _, here⟩ := bus.sameTable same
      refine .inl ⟨fun noFit _ area member => ?_, entries, _, here⟩
      obtain rfl := (only area).mp member
      by_cases some : 0#64 < call.size
      · -- the area is there, so the call would have grown it
        have none := served some noFit
        cases bus.areas.symm.trans (getVmaByNum_none_iff.mp none)
      · have zero : call.size = 0#64 := BitVec.le_zero_iff.mp (BitVec.not_lt.mp some)
        rw [zero]
        exact bus.inside
    · rcases grow_step bus same known called with ⟨room, entries, area, here⟩ | ⟨answers, beyond, brk, vmEnd, free, areas, high⟩
      · obtain ⟨entriesOn, _, later⟩ := here.sameTable kept
        refine .inl ⟨fun _ answers other member => ?_, fun page mapped => ?_, _, later⟩
        · rw [(only other).mp member]
          exact room answers
        · have before := entries page mapped
          exact (entriesOn page (by rwa [before])).trans before
      · refine .inr ⟨fun stays => ?_, fun distinct => ?_⟩
        · exact absurd (stays noFit answers vma ((only vma).mpr rfl)) (Nat.not_le.mpr beyond)
        · obtain ⟨freeLater, areasLater⟩ := kept.single areas
          have single : ((grown.setMm caller last).mms caller).mmap = [{ vma with vmEnd, sbrk := brk, vmFreergList := freeLater }] := by
            rw [Krnl.setMm_same, areasLater]
          exact absurd ((InsideBus.noAliases_iff single).mp distinct) (Nat.not_le.mpr high)

end Step

section Runs
variable {heap : List VmRg} {calls : List (Option (AllocCall Proc))}

omit [DecidableEq Proc] in
theorem InsideBus.fresh (own : k.mm = some caller) (loaded : k.mms caller = initMm heap) : InsideBus k caller (loadedArea heap) where
  own := own
  areas := by rw [loaded]; rfl
  whole := rfl
  inside := Nat.zero_le _
  below page mapped := by
    refine absurd ?_ mapped
    rw [Krnl.pte, loaded, initMm, pteAt_initPgd]
    exact ⟨rfl, rfl⟩

/-- As long as every growth leaves the break on the bus no two addresses of the process are
one; and from any state so reached, a step keeps this and overwrites no mapped entry
exactly if it leaves the break on the bus as well. -/
theorem addresses_never_alias_iff (own : first.mm = some caller) (loaded : first.mms caller = initMm heap)
    (run : Steps (fun before call after => SpaceStep caller before call after ∧ StaysOnBus before caller call) first calls k) :
    NoAliases k caller ∧ ∀ call after, SpaceStep caller k call after →
      (NoAliases after caller ∧ NoOverwrite k caller after ↔ StaysOnBus k caller call) := by
  have reached : ∃ vma, InsideBus k caller vma := by
    apply run.invariant ⟨_, InsideBus.fresh own loaded⟩
    intro before call after ⟨vma, bus⟩ ⟨step, stays⟩
    rcases step.stays bus with ⟨_, _, inside⟩ | ⟨leaves, _⟩
    · exact inside
    · exact absurd stays leaves
  obtain ⟨vma, bus⟩ := reached
  refine ⟨bus.noAliases, fun call after step => ?_⟩
  rcases step.stays bus with ⟨stays, entries, _, inside⟩ | ⟨leaves, aliases⟩
  · exact iff_of_true ⟨inside.noAliases, entries⟩ stays
  · exact iff_of_false (fun both => aliases both.1) leaves

/-- An allocation that makes the area grow, whatever the others do, and one that the free list serves. -/
theorem addresses_never_alias_iff_sixteenFrames : ∃ calls, calls.length = 3 ∧
    Steps (fun before call after => SpaceStep () before call after ∧ StaysOnBus before () call) sixteenFrames calls bothAllocated ∧
    ((bothAllocated.mms ()).mmap.map fun vma => vma.sbrk) = [4096] ∧ NoAliases bothAllocated () ∧
    ∀ call after, SpaceStep () bothAllocated call after →
      (NoAliases after () ∧ NoOverwrite bothAllocated () after ↔ StaysOnBus bothAllocated () call) := by
  let hundred : AllocCall Unit := { env := knownCaller, vmaid := 0, rgid := 0, size := 100 }
  let more : AllocCall Unit := { env := knownCaller, vmaid := 0, rgid := 1, size := 200 }
  have grown : SpaceStep () sixteenFrames (some hundred) firstAllocated :=
    .alloc (show alloc knownCaller sixteenFrames () 0 0 100 = .ok (0, some 0, firstAllocated) from rfl)
  have served : SpaceStep () firstAllocated (some more) bothAllocated :=
    .alloc (show alloc knownCaller firstAllocated () 0 1 200 = .ok (0, some 100, bothAllocated) from rfl)
  have run : Steps (fun before call after => SpaceStep () before call after ∧ StaysOnBus before () call)
      sixteenFrames [some hundred, none, some more] bothAllocated :=
    ((Steps.single ⟨grown, fun _ _ => by decide⟩).tail ⟨.others rfl rfl, trivial⟩).tail ⟨served, fun _ _ => by decide⟩
  exact ⟨_, rfl, run, rfl, addresses_never_alias_iff rfl rfl run⟩

/-- One request, for all of the bus and one byte more, of a process that no frame is left for. -/
def wholeBus : AllocCall Unit := { env := knownCaller, vmaid := 0, rgid := 0, size := 4194305 }

/-- The request is granted, and bytes 0 and 2^22 of the area have one page number and offset. -/
theorem alloc_beyond_the_bus_aliases : ∃ after, fullRam.mm = some () ∧ fullRam.mms () = initMm [] ∧
    Steps (SpaceStep ()) fullRam [some wholeBus] after ∧ ¬NoAliases after () := by
  have ran : ∃ after area, alloc knownCaller fullRam () 0 0 (2 ^ 22 + 1) = .ok (0, some 0, after) ∧ (after.mms ()).mmap = [area] ∧
      area.sbrk = 0x401000 := ⟨_, _, rfl, rfl, rfl⟩
  obtain ⟨after, area, returned, areas, brk⟩ := ran
  refine ⟨after, rfl, rfl, .single (.alloc returned), fun distinct => ?_⟩
  have inside := (distinguished_iff area.sbrk).mp (distinct area (areas ▸ List.mem_cons_self))
  rw [brk] at inside
  exact absurd inside (by decide)

end Runs
end LamiaAtrium
