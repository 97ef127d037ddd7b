import LamiaAtrium.Kernel

/-! Mapping pages onto RAM frames (`mm64.c`) and growing an area (`mm-vm.c`). The
functions that return `addr_t` keep that type: -1 is the largest address there, and
`< 0` is the unsigned comparison. -/

namespace LamiaAtrium
variable {Proc : Type} [DecidableEq Proc]

/-- `PAGING_PGN(addr + i * PAGING_PAGESZ)` as the loops over page ranges compute it. -/
def pgnAt (addr : Addr) (i : Nat) : Addr :=
  (pagingPgn (addrToInt (addr + BitVec.ofNat 64 i * 256#64))).setWidth 64

/-- The number of rounds of `for (i = 0; i < pgnum; i++)`. -/
def rounds (pgnum : CInt) : Nat := pgnum.toInt.toNat

def vmapPgdMemset (mm : Mm) (addr : Addr) (pgnum : CInt) : Mm :=
  (List.range (rounds pgnum)).foldl
    (fun mm pgit => { mm with pgd := pteSetEntry mm.pgd (pgnAt addr pgit) 0xdeadbeef#32 }) mm

/-- One round of `vmap_page_range`: the frame into the page's entry, the page onto the FIFO. -/
def mapPage (mm : Mm) (curPgn fpn : Addr) : Mm := (mm.setFpn curPgn fpn).enlistPgn curPgn

/-- The loop of `vmap_page_range` from round `i`, with the rounds left and the frames left. -/
def vmapPageLoop (addr : Addr) : Nat → Nat → List Addr → Mm → Addr × Mm
  | _, 0, _, mm => (0, mm)
  | _, _ + 1, [], mm => (-1, mm)
  | i, left + 1, fpn :: frames, mm => vmapPageLoop addr (i + 1) left frames (mapPage mm (pgnAt addr i) fpn)

/-- `vmap_page_range`, with the region it writes through `ret_rg`. -/
def vmapPageRange (mm : Mm) (addr : Addr) (pgnum : CInt) (frames : List Addr) : Addr × VmRg × Mm :=
  let retRg : VmRg := { rgStart := addr, rgEnd := addr + intToAddr pgnum * 256#64 }
  let (result, mm) := vmapPageLoop addr 0 (rounds pgnum) frames mm
  (result, retRg, mm)

/-- The out-of-memory branch: the collected frames go back one at a time. -/
def returnFrames (mram : Memphy) (frmLst : List Addr) : Memphy := frmLst.foldl Memphy.putFreefp mram

/-- The loop of `alloc_pages_range` with `left` rounds to go. -/
def allocPagesLoop : Nat → Memphy → List Addr → Addr × Memphy × List Addr
  | 0, mram, frmLst => (0, mram, frmLst)
  | left + 1, mram, frmLst =>
    match mram.getFreefp with
    | some (fpn, mram) => allocPagesLoop left mram (fpn :: frmLst)
    | none => (-3000, returnFrames mram frmLst, [])

def allocPagesRange (mram : Memphy) (reqPgnum : CInt) : Addr × Memphy × List Addr :=
  allocPagesLoop (rounds reqPgnum) mram []

/-- `vm_map_ram`. Its `astart` and `aend` are not used by the source either. -/
def vmMapRam (k : Krnl Proc) (caller : Proc) (_astart _aend mapstart : Addr) (incpgnum : CInt) (rg : VmRg) :
    Addr × VmRg × Krnl Proc :=
  let (retAlloc, mram, frmLst) := allocPagesRange k.mram incpgnum
  let k := { k with mram }
  if retAlloc < 0#64 ∧ retAlloc ≠ -3000 then (-1, rg, k)
  else if retAlloc = -3000 then (-1, rg, k)
  else
    let (_, rg, mm) := vmapPageRange (k.mms caller) mapstart incpgnum frmLst
    (0, rg, k.setMm caller mm)

def pagingAlign (sz : Addr) : Addr := ((sz + 256#64 - 1#64) / 256#64) * 256#64

def overlap (x1 x2 y1 y2 : Addr) : Bool := x1 < y2 && y1 < x2

/-- `validate_overlap_vm_area` on the `mm` that `krnl->mm` points to. -/
def validateOverlapVmArea (mm : Mm) (vmaid : CInt) (vmastart vmaend : Addr) : Outcome Int := do
  if vmastart ≥ vmaend then return -1
  if mm.mmap.isEmpty then return -1
  let some (curIndex, curArea) ← getVmaByNum mm vmaid | return -1
  if mm.mmap.zipIdx.any fun (vma, index) =>
      index != curIndex && overlap curArea.vmStart curArea.vmEnd vma.vmStart vma.vmEnd then
    return -1
  return 0

def getVmAreaNodeAtBrk (mm : Mm) (vmaid : CInt) (alignedsz : Addr) : Outcome (Option VmRg) := do
  let some (_, curVma) ← getVmaByNum mm vmaid | return none
  return some { rgStart := curVma.sbrk, rgEnd := curVma.sbrk + alignedsz }

/-- `inc_vma_limit`: the area comes from `krnl->mm`, the pages go to the caller's table. -/
def incVmaLimit (k : Krnl Proc) (caller : Proc) (vmaid : CInt) (incSz : Addr) : Outcome (Int × Krnl Proc) := do
  let owner ← k.mmOwner
  let some (curIndex, curVma) ← getVmaByNum (k.mms owner) vmaid | return (-1, k)
  let aligned := pagingAlign incSz
  let oldEnd := curVma.sbrk
  let newEnd := oldEnd + aligned
  let valid ← validateOverlapVmArea (k.mms owner) vmaid oldEnd newEnd
  if valid < 0 then return (-1, k)
  let numPages := addrToInt (aligned / 256#64)
  let some rg ← getVmAreaNodeAtBrk (k.mms owner) vmaid aligned | throw .nullDereference
  let (mapped, _, k) := vmMapRam k caller rg.rgStart rg.rgEnd oldEnd numPages rg
  if mapped < 0#64 then return (-1, k)
  return (0, k.setMm owner ((k.mms owner).modifyArea curIndex fun vma => { vma with sbrk := newEnd, vmEnd := newEnd }))

end LamiaAtrium
