import LamiaAtrium.PageTable
import LamiaAtrium.Memphy

/-! The state behind `mm_struct` and the memory half of `krnl_t`. Every list of the
sources is a list here, head first; a pointer into a list is a position in it.
`ld_routine` gives each process an `mm` of its own before the process is queued, so
the null checks on `caller` and `caller->mm` have no state to fire on. -/

namespace LamiaAtrium

structure VmRg where
  rgStart : Addr
  rgEnd : Addr
  deriving DecidableEq, Repr

structure VmArea where
  vmId : BitVec 64
  vmStart : Addr
  vmEnd : Addr
  sbrk : Addr
  vmFreergList : List VmRg

def pagingMaxSymtblSz : Nat := 30

structure Mm where
  pgd : Pgd
  mmap : List VmArea
  symrgtbl : Fin pagingMaxSymtblSz → VmRg
  fifoPgn : List Addr

/-- The kernel memory that the processes share, with each process's `mm`. All pcbs
point to one `krnl_t`. Its own `mm` field names the process whose `mm` it points to;
`none` is the null pointer. -/
structure Krnl (Proc : Type) where
  mm : Option Proc
  mram : Memphy
  activeMswp : Memphy
  activeMswpId : CInt
  mms : Proc → Mm

/-- What the memory code reads of the process bookkeeping and never writes: each
pcb's pid (`none` once the pcb is freed) and `regs[6]` (`none` while nothing was stored
there), the two queues `krnl_t` points to, the address of that `krnl_t`, and the content
of an uninitialised local byte. -/
structure Env (Proc : Type) where
  pid : Proc → Option CInt
  regs6 : Proc → Option Addr
  readyQueue : Option (List Proc)
  runningList : Option (List Proc)
  os : Addr
  uninit : Byte

namespace Mm

def symrg (mm : Mm) (index : Nat) : Outcome VmRg :=
  if inside : index < pagingMaxSymtblSz then .ok (mm.symrgtbl ⟨index, inside⟩) else .error .outOfBounds

def setSymrg (mm : Mm) (index : Nat) (rg : VmRg) : Outcome Mm :=
  if inside : index < pagingMaxSymtblSz then
    .ok { mm with symrgtbl := Function.update mm.symrgtbl ⟨index, inside⟩ rg }
  else .error .outOfBounds

/-- The area a `vm_area_struct` pointer stands for. -/
def area (mm : Mm) (index : Nat) : Outcome VmArea :=
  match mm.mmap[index]? with
  | some vma => .ok vma
  | none => .error .nullDereference

def modifyArea (mm : Mm) (index : Nat) (f : VmArea → VmArea) : Mm := { mm with mmap := mm.mmap.modify index f }

/-- `pte_set_fpn`, `pte_set_swap` and `pte_get_entry` on the process's own table. -/
def setFpn (mm : Mm) (pgn fpn : Addr) : Mm := { mm with pgd := pteSetFpn mm.pgd pgn fpn }

def setSwap (mm : Mm) (pgn : Addr) (swptyp : CInt) (swpoff : Addr) : Mm :=
  { mm with pgd := pteSetSwap mm.pgd pgn swptyp swpoff }

def getEntry (mm : Mm) (pgn : Addr) : Pte := pteGetEntry mm.pgd pgn

def enlistPgn (mm : Mm) (pgn : Addr) : Mm := { mm with fifoPgn := pgn :: mm.fifoPgn }

end Mm

/-- `init_mm` on the zeroed `mm` of `ld_routine`. The area comes from `malloc`, and its
free list is not cleared before the first region is put in front: `uninit` is what was
there. -/
def initMm (uninit : List VmRg) : Mm where
  pgd := initPgd
  mmap := [{ vmId := 0, vmStart := 0, vmEnd := 0, sbrk := 0, vmFreergList := { rgStart := 0, rgEnd := 0 } :: uninit }]
  symrgtbl := fun _ => { rgStart := 0, rgEnd := 0 }
  fifoPgn := []

namespace Krnl
variable {Proc : Type} [DecidableEq Proc]

def setMm (k : Krnl Proc) (p : Proc) (mm : Mm) : Krnl Proc := { k with mms := Function.update k.mms p mm }

def mmOwner (k : Krnl Proc) : Outcome Proc :=
  match k.mm with
  | some p => .ok p
  | none => .error .nullDereference

section Fields
variable (k : Krnl Proc) (p q : Proc) (mm : Mm)

@[simp] theorem setMm_mm : (k.setMm p mm).mm = k.mm := rfl
@[simp] theorem setMm_mram : (k.setMm p mm).mram = k.mram := rfl
@[simp] theorem setMm_activeMswp : (k.setMm p mm).activeMswp = k.activeMswp := rfl
@[simp] theorem setMm_activeMswpId : (k.setMm p mm).activeMswpId = k.activeMswpId := rfl
@[simp] theorem setMm_same : (k.setMm p mm).mms p = mm := by simp [setMm]
theorem setMm_mms : (k.setMm p mm).mms q = if q = p then mm else k.mms q := by
  simp [setMm, Function.update_apply]

end Fields
end Krnl

/-- The loop of `get_vma_by_num` from the area at `index` on. It tests the pointer one
step too late, so running off the list follows the null pointer. -/
def getVmaFrom (vmaid : CInt) : Nat → List VmArea → Outcome (Nat × VmArea)
  | _, [] => .error .nullDereference
  | index, vma :: rest =>
    if (addrToInt vma.vmId).slt vmaid then getVmaFrom vmaid (index + 1) rest else .ok (index, vma)

/-- `get_vma_by_num`: the position of the area with its content, `none` for NULL. -/
def getVmaByNum (mm : Mm) (vmaid : CInt) : Outcome (Option (Nat × VmArea)) :=
  match mm.mmap with
  | [] => .ok none
  | areas => do
    let found ← getVmaFrom vmaid 0 areas
    return some found

theorem getVmaFrom_ok {vmaid : CInt} {start : Nat} {areas : List VmArea} {index : Nat} {vma : VmArea}
    (found : getVmaFrom vmaid start areas = .ok (index, vma)) :
    start ≤ index ∧ areas[index - start]? = some vma := by
  induction areas generalizing start with
  | nil => cases found
  | cons head rest ih =>
    simp only [getVmaFrom] at found
    split at found
    · obtain ⟨after, here⟩ := ih found
      refine ⟨by omega, ?_⟩
      rw [show index - start = index - (start + 1) + 1 by omega, List.getElem?_cons_succ]
      exact here
    · cases found
      simp

theorem getVmaByNum_ok {mm : Mm} {vmaid : CInt} {index : Nat} {vma : VmArea}
    (found : getVmaByNum mm vmaid = .ok (some (index, vma))) : mm.mmap[index]? = some vma := by
  unfold getVmaByNum at found
  split at found
  · cases found
  · obtain ⟨pair, walked, same⟩ := Outcome.bind_eq_ok found
    cases same
    exact (getVmaFrom_ok walked).2

theorem getVmaByNum_none_iff {mm : Mm} {vmaid : CInt} : getVmaByNum mm vmaid = .ok none ↔ mm.mmap = [] := by
  rw [getVmaByNum]
  cases mm.mmap with
  | nil => exact iff_of_true rfl rfl
  | cons vma rest =>
    refine iff_of_false ?_ (List.cons_ne_nil _ _)
    intro none
    obtain ⟨_, _, none⟩ := Outcome.bind_eq_ok none
    cases none

end LamiaAtrium
