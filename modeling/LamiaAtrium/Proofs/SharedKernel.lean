import LamiaAtrium.Proofs.Instructions
import LamiaAtrium.Proofs.Threads

/-! Growing an area goes through the `mm` of the shared `krnl_t`, while every other path to
an address space takes `caller->mm`. `ld_routine` fills in the devices of the structure and
leaves this pointer at the null of the zeroed global. -/

namespace LamiaAtrium
open Run

section Memory
variable {cfg : Config} {s after : State cfg.numCpus}

/-- What one step does to memory: `init_mm` of the loader, an instruction, or nothing. -/
inductive MemEffect (cfg : Config) (s : State cfg.numCpus) : Event → Krnl Nat → Prop where
  | kept (event : Event) : MemEffect cfg s event s.mem
  | setUp (i : Nat) (room : Bool) : s.loader = .add i → MemEffect cfg s (.call (.added i room)) (s.mem.setMm i (initMm ((cfg.heap i).getD [])))
  | executed (id : Fin cfg.numCpus) (p : Nat) (ins : Inst) (stat : Int) (mem : Krnl Nat) :
      (s.cpus id).point = .execute ins → (s.cpus id).proc = some p → runInst (s.env cfg) s.mem p ins = .ok (stat, mem) →
      MemEffect cfg s (.executed p stat) mem

private theorem loaderStep_memory {event : Event} (taken : loaderStep cfg s = .ok (event, after)) : MemEffect cfg s event after.mem := by
  unfold loaderStep at taken
  split at taken
  · split at taken <;> cases taken <;> exact .kept _
  · next i here =>
    obtain ⟨⟨call, sched⟩, served, taken⟩ := Outcome.bind_eq_ok taken
    cases taken
    obtain ⟨inserted, _, served⟩ := Outcome.bind_eq_ok served
    cases served
    exact .setUp i _ here
  · cases taken
    exact .kept _

private theorem cpuStep_memory {id : Fin cfg.numCpus} {event : Event} (taken : cpuStep cfg s id = .ok (event, after)) :
    MemEffect cfg s event after.mem := by
  cases point : (s.cpus id).point with
  | execute ins =>
    simp only [cpuStep, point] at taken
    obtain ⟨p, held, taken⟩ := Outcome.bind_eq_ok taken
    obtain ⟨_, _, taken⟩ := Outcome.bind_eq_ok taken
    obtain ⟨⟨stat, mem⟩, ran, taken⟩ := Outcome.bind_eq_ok taken
    cases taken
    unfold Cpu.current at held
    split at held
    · next busy => cases held; exact .executed id p ins stat mem point busy ran
    · cases held
  | _ =>
    cases cpuStep_move taken with
    | executed p ins stat mem execute =>
      rw [point] at execute
      cases execute
    | _ => exact .kept _

theorem SystemStep.memory {label : Thread cfg.numCpus × Event} (taken : SystemStep cfg s label after) :
    MemEffect cfg s label.2 after.mem := by
  obtain ⟨thread, event⟩ := label
  cases thread with
  | loader => exact loaderStep_memory taken
  | cpu id => exact cpuStep_memory taken

end Memory

section NullPointer
variable {Proc : Type} [DecidableEq Proc] {env : Env Proc} {k after : Krnl Proc} {caller : Proc}

theorem incVmaLimit_mm {vmaid : CInt} {incSz : Addr} {code : Int} (returned : incVmaLimit k caller vmaid incSz = .ok (code, after)) :
    after.mm = k.mm := by
  obtain ⟨owner, _, ⟨_, rfl, _⟩ | ⟨_, index, vma, _, _, rfl⟩⟩ := incVmaLimit_cases returned
  · rfl
  · exact grownFor_mm ..

theorem CallEffect.mm {pid : CInt} {regs : ScRegs} (effect : CallEffect env k pid regs after) : after.mm = k.mm := by
  cases effect with
  | nothing => rfl
  | map => rfl
  | inc _ _ _ _ _ grown => exact incVmaLimit_mm grown
  | swap _ _ _ _ swapped =>
    obtain ⟨_, _, same⟩ := Outcome.bind_eq_ok swapped
    cases same
    rfl
  | store => rfl

theorem InstEffect.mm (effect : InstEffect env k caller after) : after.mm = k.mm := by
  cases effect with
  | regions => rfl
  | grew mm last pid regs grown _ _ _ called _ => exact called.mm
  | paged pgn code fpn _ fetched => exact (pgGetpage_frame fetched).mm
  | stored addr f middle code value mram _ fetched _ => exact (pgGetpage_frame fetched).mm
  | called pid regs _ _ called => exact called.mm

/-- No step of any thread stores to `krnl->mm`. -/
theorem krnl_mm_null {cfg : Config} {labels : List (Thread cfg.numCpus × Event)} {s : State cfg.numCpus}
    (run : Steps (SystemStep cfg) (boot cfg) labels s) : s.mem.mm = none := by
  have initial : (boot cfg).mem.mm = none := rfl
  generalize boot cfg = first at run initial
  induction run with
  | refl => exact initial
  | @tail middle last labels label _ taken ih =>
    have effect := taken.memory
    generalize last.mem = mem at effect ⊢
    generalize label.2 = event at effect
    cases effect with
    | kept => exact ih
    | setUp i room _ => exact ih
    | executed id p ins stat _ _ _ ran => exact (runInst_effect ran).mm.trans ih

theorem incVmaLimit_null (null : k.mm = none) (caller : Proc) (vmaid : CInt) (incSz : Addr) :
    incVmaLimit k caller vmaid incSz = .error .nullDereference := by
  rw [incVmaLimit, Krnl.mmOwner, null]
  rfl

end NullPointer

section OwnArea
variable {Proc : Type} {k : Krnl Proc} {caller : Proc} {incSz : Addr}

/-- The pages of `incSz` bytes, the last one in full. -/
def pagesFor (incSz : Addr) : Nat := (incSz.toNat + 255) / pagingPagesz

/-- Area 0 of the caller has grown by whole pages, which the caller's table maps, and no
other process sees a difference. -/
structure GrewOwnArea (k : Krnl Proc) (caller : Proc) (incSz : Addr) (after : Krnl Proc) : Prop where
  area : ∃ vma grown, (k.mms caller).mmap[0]? = some vma ∧ (after.mms caller).mmap[0]? = some grown ∧
    grown.sbrk.toNat = vma.sbrk.toNat + pagesFor incSz * pagingPagesz ∧ grown.vmEnd.toNat = vma.vmEnd.toNat + pagesFor incSz * pagingPagesz ∧
    ∀ i < pagesFor incSz, (after.pte (caller, pageOf (pgnAt vma.sbrk i))).resident = true
  others : ∀ p, p ≠ caller → after.mms p = k.mms p

/-- The area of a process as `init_mm` leaves it. -/
def loadedArea (heap : List VmRg) : VmArea :=
  { vmId := 0, vmStart := 0, vmEnd := 0, sbrk := 0, vmFreergList := { rgStart := 0, rgEnd := 0 } :: heap }

variable [DecidableEq Proc]

def GrowsOwnArea (k : Krnl Proc) (caller : Proc) (incSz : Addr) : Prop :=
  ∃ after, incVmaLimit k caller 0 incSz = .ok (0, after) ∧ GrewOwnArea k caller incSz after

/-- With enough frames, as many as an `int` can count, the size is far from the end of the
64 bits and nothing is cut off. -/
private theorem pages_unwrapped (bound : pagesFor incSz < 2 ^ 31) :
    (pagingAlign incSz).toNat = pagesFor incSz * pagingPagesz ∧ rounds (addrToInt (pagingAlign incSz / 256#64)) = pagesFor incSz := by
  have aligned : (pagingAlign incSz).toNat = pagesFor incSz * pagingPagesz := by
    simp only [pagesFor, pagingPagesz, pagingAlign, BitVec.toNat_mul, BitVec.toNat_udiv, BitVec.toNat_sub, BitVec.toNat_add,
      BitVec.toNat_ofNat, Nat.reducePow, Nat.reduceMod] at bound ⊢
    omega
  refine ⟨aligned, ?_⟩
  have count : (pagingAlign incSz / 256#64).toNat = pagesFor incSz := by
    rw [BitVec.toNat_udiv, aligned]
    exact Nat.mul_div_cancel _ (by decide)
  simp only [rounds, addrToInt, BitVec.toInt_eq_toNat_cond, BitVec.toNat_setWidth, count]
  split <;> omega

/-- On the processes that `ld_routine` sets up, growing reaches the caller's own area
exactly if `krnl->mm` is the caller's `mm`. -/
theorem growsOwnArea_iff (loaded : ∀ p, ∃ heap, k.mms p = initMm heap) (positive : 0#64 < incSz)
    (enough : pagesFor incSz ≤ k.mram.freeFpList.length) (counted : k.mram.freeFpList.length < 2 ^ 31) :
    GrowsOwnArea k caller incSz ↔ k.mm = some caller := by
  obtain ⟨aligned, count⟩ := pages_unwrapped (Nat.lt_of_le_of_lt enough counted)
  have some : 0 < pagesFor incSz := by
    have bytes : 0 < incSz.toNat := positive
    simp only [pagesFor, pagingPagesz]
    omega
  constructor
  · intro claimed
    obtain ⟨after, returned, grew⟩ := claimed
    obtain ⟨owner, own, ⟨code, _⟩ | ⟨_, index, vma, found, _, rfl⟩⟩ := incVmaLimit_cases returned
    · cases code
    · by_contra apart
      have other : caller ≠ owner := fun same => apart (same ▸ own)
      obtain ⟨before, grown, here, there, moved, _⟩ := grew.area
      rw [grownFor_mmap, if_neg other, here] at there
      cases there
      rw [pagingPagesz] at moved
      omega
  · intro own
    obtain ⟨heap, fresh⟩ := loaded caller
    have found : getVmaByNum (k.mms caller) 0 = .ok (Option.some (0, loadedArea heap)) := by
      rw [fresh]
      rfl
    have moves : ((loadedArea heap).sbrk + pagingAlign incSz).toNat = 0 + pagesFor incSz * pagingPagesz := by
      rw [Nat.zero_add, ← aligned]
      exact congrArg BitVec.toNat (BitVec.zero_add _)
    have accepted : ¬GrowthRefused (k.mms caller) 0 (loadedArea heap) (pagingAlign incSz) := by
      rintro (wraps | overlaps)
      · rw [BitVec.le_def, moves, pagingPagesz] at wraps
        have start : (loadedArea heap).sbrk.toNat = 0 := rfl
        omega
      · rw [fresh] at overlaps
        simp [initMm] at overlaps
    obtain ⟨rg, ran⟩ := incVmaLimit_accepted own found accepted
    refine ⟨_, ran, ⟨loadedArea heap, { loadedArea heap with sbrk := _, vmEnd := _ }, ?_, ?_, moves, moves, ?_⟩, ?_⟩
    · rw [fresh]
      rfl
    · rw [grownArea, Krnl.setMm_same, Mm.modifyArea, vmMapRam_mmap, fresh]
      rfl
    · intro i inside
      rw [grownArea_pte, vmMapRam_pteAt (fun pte => pte.resident = true) (fun pte fpn _ => setFpn_resident pte fpn) (count.symm ▸ enough)]
      exact .inl ⟨i, count.symm ▸ inside, rfl⟩
    · intro p other
      rw [grownArea, Krnl.setMm_mms, if_neg other, vmMapRam_others other]

end OwnArea

section Loader
variable {cfg : Config} {labels : List (Thread cfg.numCpus × Event)} {s : State cfg.numCpus} {caller : Nat} {incSz : Addr}

/-- In every state of every run, and so in the one that `ld_routine` builds, no process can
grow its heap: the call follows the null pointer, with any number of free frames. -/
theorem inc_vma_limit_never_grows_own_area (run : Steps (SystemStep cfg) (boot cfg) labels s) : ¬GrowsOwnArea s.mem caller incSz := by
  intro ⟨after, returned, _⟩
  rw [incVmaLimit_null (krnl_mm_null run)] at returned
  cases returned

/-- A RAM of four free frames and one process. -/
def fourFrames : Config :=
  { twoCalcs with mram := { storage := fun _ => 0, maxsz := 1024, rdmflg := true, cursor := 0, freeFpList := [0, 1, 2, 3] } }

theorem inc_vma_limit_never_grows_own_area_fourFrames :
    ∃ labels s, Steps (SystemStep fourFrames) (boot fourFrames) labels s ∧ s.loader = .load 1 ∧ ¬GrowsOwnArea s.mem 0 256 := by
  have loaded : Steps (SystemStep fourFrames) (boot fourFrames) _ _ :=
    runThreads_steps (rfl : runThreads fourFrames (boot fourFrames) [.loader, .loader] = _)
  exact ⟨_, _, loaded, rfl, inc_vma_limit_never_grows_own_area loaded⟩

/-- The only process is loaded and asks for one page: there are four frames, and the call
does not come back. -/
theorem loaded_process_cannot_grow :
    ∃ labels s, Steps (SystemStep fourFrames) (boot fourFrames) labels s ∧ s.loader = .load 1 ∧ s.mem.mms 0 = initMm [] ∧
      pagesFor 256 ≤ s.mem.mram.freeFpList.length ∧ incVmaLimit s.mem 0 0 256 = .error .nullDereference ∧
      ¬GrowsOwnArea s.mem 0 256 := by
  have loaded : Steps (SystemStep fourFrames) (boot fourFrames) _ _ :=
    runThreads_steps (rfl : runThreads fourFrames (boot fourFrames) [.loader, .loader] = _)
  have fails := incVmaLimit_null (krnl_mm_null loaded) 0 0 256
  refine ⟨_, _, loaded, rfl, rfl, by decide, fails, ?_⟩
  intro ⟨after, returned, _⟩
  rw [fails] at returned
  cases returned

end Loader
end LamiaAtrium
