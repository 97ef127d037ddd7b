import LamiaAtrium.Memmap

/-! The memory library of `libmem.c`: paging on demand, byte access and the region
allocator. A result that C returns through a pointer stands beside the result code;
`none` means that the call did not write it. -/

namespace LamiaAtrium
variable {Proc : Type} [DecidableEq Proc]

/-- The walk of `find_victim_page` to the last node, the page enlisted first. -/
def popOldest : List Addr → Option (Addr × List Addr)
  | [] => none
  | [pgn] => some (pgn, [])
  | pgn :: rest => (popOldest rest).map fun (oldest, kept) => (oldest, pgn :: kept)

def findVictimPage (mm : Mm) : Option (Addr × Mm) :=
  (popOldest mm.fifoPgn).map fun (pgn, fifoPgn) => (pgn, { mm with fifoPgn })

/-- The branch of `pg_getpage` that finds RAM full: it evicts the caller's oldest
page. `none` in the result is one of the two returns of -1, after which the FIFO may
already be one page shorter. -/
def evictVictim (env : Env Proc) (k : Krnl Proc) (caller : Proc) : Outcome (Option Addr × Krnl Proc) := do
  let some (vicpgn, mm) := findVictimPage (k.mms caller) | return (none, k)
  let k := k.setMm caller mm
  let vicfpn : Addr := (pagingFpn (mm.getEntry vicpgn)).setWidth 64
  let some (vicSwpfpn, activeMswp) := k.activeMswp.getFreefp | return (none, k)
  let k := { k with activeMswp }
  let pid ← env.callerPid caller
  -- the result of the call is dropped: the entry is rewritten in any case
  let (_, _, k) ← syscall env k pid 17 { a1 := 3, a2 := vicfpn, a3 := vicSwpfpn }
  let k := k.setMm caller ((k.mms caller).setSwap vicpgn k.activeMswpId vicSwpfpn)
  return (some vicfpn, k)

/-- The end of `pg_getpage`: the page comes back from its swap frame into `newfpn`. -/
def pageIn (env : Env Proc) (k : Krnl Proc) (caller : Proc) (pgn reqSwpfpn newfpn : Addr) : Outcome (Krnl Proc) := do
  let (activeMswp, mram) ← swapCpPage env.uninit k.activeMswp reqSwpfpn k.mram newfpn
  let k := { k with activeMswp := activeMswp.putFreefp reqSwpfpn, mram }
  return k.setMm caller (((k.mms caller).setFpn pgn newfpn).enlistPgn pgn)

def pgGetpage (env : Env Proc) (k : Krnl Proc) (caller : Proc) (pgn : CInt) : Outcome (Int × Option CInt × Krnl Proc) := do
  let pte := (k.mms caller).getEntry (intToAddr pgn)
  if pagingPageSwapped pte then
    let reqSwpfpn : Addr := (pagingSwp pte).setWidth 64
    match k.mram.getFreefp with
    | some (newfpn, mram) =>
      let k ← pageIn env { k with mram } caller (intToAddr pgn) reqSwpfpn newfpn
      return (0, some (addrToInt newfpn), k)
    | none =>
      let (evicted, k) ← evictVictim env k caller
      let some newfpn := evicted | return (-1, none, k)
      let k ← pageIn env k caller (intToAddr pgn) reqSwpfpn newfpn
      return (0, some (addrToInt newfpn), k)
  else if pagingPagePresent pte then return (0, some (pagingFpn pte), k)
  else return (-1, none, k)

/-- `(fpn << PAGING_ADDR_FPN_LOBIT) + off`, an `int` widened to a register. -/
def phyAddr (fpn off : CInt) : Addr := intToAddr ((fpn <<< 8) + off)

def pgGetval (env : Env Proc) (k : Krnl Proc) (caller : Proc) (addr : CInt) : Outcome (Int × Option Byte × Krnl Proc) := do
  let (_, fpn, k) ← pgGetpage env k caller (pagingPgn addr)
  let some fpn := fpn | return (-1, none, k)
  let pid ← env.callerPid caller
  let (_, regs, k) ← syscall env k pid 17 { a1 := 4, a2 := phyAddr fpn (pagingOffst addr), a3 := 0 }
  return (0, some ((regs.a3 &&& 0xFF#64).setWidth 8), k)

def pgSetval (env : Env Proc) (k : Krnl Proc) (caller : Proc) (addr : CInt) (value : Byte) :
    Outcome (Int × Krnl Proc) := do
  let (_, fpn, k) ← pgGetpage env k caller (pagingPgn addr)
  let some fpn := fpn | return (-1, k)
  let pid ← env.callerPid caller
  let (_, _, k) ← syscall env k pid 17 { a1 := 5, a2 := phyAddr fpn (pagingOffst addr), a3 := value.signExtend 64 }
  return (0, k)

/-- `get_symrg_byid`. Its test lets 30 through: the result points one past the table. -/
def getSymrgByid (rgid : CInt) : Option Nat :=
  if rgid.slt 0#32 || (30#32).slt rgid then none else some rgid.toNat

def read (env : Env Proc) (k : Krnl Proc) (caller : Proc) (rgid : CInt) (offset : Addr) :
    Outcome (Int × Option Byte × Krnl Proc) := do
  let some index := getSymrgByid rgid | return (-1, none, k)
  let currg ← (k.mms caller).symrg index
  if currg.rgStart = 0 ∧ currg.rgEnd = 0 then return (-1, none, k)
  let rgSize := currg.rgEnd - currg.rgStart
  if offset < 0#64 ∨ offset ≥ rgSize then return (-1, none, k)
  let (code, data, k) ← pgGetval env k caller (addrToInt (currg.rgStart + offset))
  if code ≠ 0 then return (-1, data, k)
  return (0, data, k)

/-- `__write`: the result of `pg_setval` is not looked at. -/
def write (env : Env Proc) (k : Krnl Proc) (caller : Proc) (vmaid rgid : CInt) (offset : Addr) (value : Byte) :
    Outcome (Int × Krnl Proc) := do
  let currg := getSymrgByid rgid
  let curVma ← getVmaByNum (k.mms caller) vmaid
  let (some index, some _) := (currg, curVma) | return (-1, k)
  let currg ← (k.mms caller).symrg index
  if offset < 0#64 ∨ currg.rgStart + offset ≥ currg.rgEnd then return (-1, k)
  let (_, k) ← pgSetval env k caller (addrToInt (currg.rgStart + offset)) value
  return (0, k)

/-- `enlist_vm_freerg_list` on the first area's free list. -/
def enlistVmFreergList (mm : Mm) (rgElmt : VmRg) : Outcome (Int × Mm) := do
  let _ ← mm.area 0
  if rgElmt.rgStart ≥ rgElmt.rgEnd then return (-1, mm)
  return (0, mm.modifyArea 0 fun vma => { vma with vmFreergList := rgElmt :: vma.vmFreergList })

/-- The scan of `get_free_vmrg_area`: the region cut off, and the list after the cut.
A node that is used up takes over its successor, or stays as an empty region at the
end of the list. -/
def carve (size : Addr) : List VmRg → Option (VmRg × List VmRg)
  | [] => none
  | rg :: rest =>
    if rg.rgStart + size ≤ rg.rgEnd then
      let newrg : VmRg := { rgStart := rg.rgStart, rgEnd := rg.rgStart + size }
      if newrg.rgEnd < rg.rgEnd then some (newrg, { rg with rgStart := newrg.rgEnd } :: rest)
      else match rest with
        | nxt :: rest => some (newrg, nxt :: rest)
        | [] => some (newrg, [{ rg with rgStart := rg.rgEnd }])
    else (carve size rest).map fun (newrg, rest) => (newrg, rg :: rest)

/-- `get_free_vmrg_area`: the result code, `*newrg` when it was set, the `mm` after. -/
def getFreeVmrgArea (mm : Mm) (vmaid size : CInt) : Outcome (Int × Option VmRg × Mm) := do
  if size.sle 0#32 then return (-1, none, mm)
  let some (index, vma) ← getVmaByNum mm vmaid | return (-1, none, mm)
  match carve (intToAddr size) vma.vmFreergList with
  | none => return (-1, none, mm)
  | some (newrg, vmFreergList) =>
    let mm := mm.modifyArea index fun vma => { vma with vmFreergList }
    if newrg.rgStart = -1 then return (-1, some newrg, mm)
    return (0, some newrg, mm)

/-- `size` rounded up to whole pages of 4096 bytes, in 64 bits. -/
def growBytes (size : Addr) : Addr := ((size + 4096#64 - 1#64) / 4096#64) * 4096#64

def keepExtra (mm : Mm) (area : Nat) (oldBrk size grow : Addr) : Mm :=
  if oldBrk + size < oldBrk + grow then
    mm.modifyArea area fun vma =>
      { vma with vmFreergList := { rgStart := oldBrk + size, rgEnd := oldBrk + grow } :: vma.vmFreergList }
  else mm

/-- The part of `__alloc` after the free list failed: it asks for more memory, does
not look at the answer, and takes the region at the old break. -/
def allocGrow (env : Env Proc) (k : Krnl Proc) (caller : Proc) (vmaid : CInt) (area rgid : Nat) (size : Addr) :
    Outcome (Int × Option Addr × Krnl Proc) := do
  let grow := growBytes size
  let oldBrk := (← (k.mms caller).area area).sbrk
  let pid ← env.callerPid caller
  let (_, _, k) ← syscall env k pid 17 { a1 := 2, a2 := intToAddr vmaid, a3 := grow }
  let mm ← (k.mms caller).setSymrg rgid { rgStart := oldBrk, rgEnd := oldBrk + size }
  return (0, some oldBrk, k.setMm caller (keepExtra mm area oldBrk size grow))

/-- `__alloc`, with what it stores at `*alloc_addr`. -/
def alloc (env : Env Proc) (k : Krnl Proc) (caller : Proc) (vmaid rgid : CInt) (size : Addr) :
    Outcome (Int × Option Addr × Krnl Proc) := do
  if size ≤ 0#64 then return (-1, none, k)
  let some (area, _) ← getVmaByNum (k.mms caller) vmaid | return (-1, none, k)
  let (code, chosen, mm) ← getFreeVmrgArea (k.mms caller) vmaid (addrToInt size)
  match code, chosen with
  | 0, some chosen =>
    let mm ← mm.setSymrg rgid.toNat chosen
    return (0, some chosen.rgStart, k.setMm caller mm)
  | _, _ => allocGrow env (k.setMm caller mm) caller vmaid area rgid.toNat size

/-- `__free`; its `vmaid` is not used by the source either. -/
def free (k : Krnl Proc) (caller : Proc) (_vmaid rgid : CInt) : Outcome (Int × Krnl Proc) := do
  if rgid.slt 0#32 ∨ (30#32).sle rgid then return (-1, k)
  let some index := getSymrgByid rgid | return (-1, k)
  let rgnode ← (k.mms caller).symrg index
  if rgnode.rgStart = 0 ∧ rgnode.rgEnd = 0 then return (-1, k)
  let mm ← (k.mms caller).setSymrg index { rgStart := 0, rgEnd := 0 }
  let (_, mm) ← enlistVmFreergList mm rgnode
  return (0, k.setMm caller mm)

/-- `PAGING64_MAX_PGN`: 2^21 bytes in pages of 4096. -/
def paging64MaxPgn : Nat := (2 ^ 21 + 4096 - 1) / 4096

/-- The body of the loop of `free_pcb_memph` for one `pagenum`. -/
def freePcbPage (caller : Proc) (k : Krnl Proc) (pagenum : Nat) : Krnl Proc :=
  let pte := (k.mms caller).getEntry (BitVec.ofNat 64 pagenum)
  if pte = 0 then k
  else if pagingPagePresent pte && !pagingPageSwapped pte then
    { k with mram := k.mram.putFreefp (intToAddr (pagingFpn pte)) }
  else if pagingPageSwapped pte then { k with activeMswp := k.activeMswp.putFreefp (intToAddr (pagingSwp pte)) }
  else k

def freePcbMemph (k : Krnl Proc) (caller : Proc) : Int × Krnl Proc :=
  (0, (List.range paging64MaxPgn).foldl (freePcbPage caller) k)

def liballoc (env : Env Proc) (k : Krnl Proc) (proc : Proc) (size : Addr) (regIndex : CInt) : Outcome (Int × Krnl Proc) := do
  let (val, _, k) ← alloc env k proc 0 regIndex size
  return (val, k)

def libfree (k : Krnl Proc) (proc : Proc) (regIndex : CInt) : Outcome (Int × Krnl Proc) := free k proc 0 regIndex

/-- `libread`, with the word it stores at `*destination`: the byte read, or whatever
the local held when the read failed. -/
def libread (env : Env Proc) (k : Krnl Proc) (proc : Proc) (source : CInt) (offset : Addr) :
    Outcome (Int × CInt × Krnl Proc) := do
  let (val, data, k) ← read env k proc source offset
  return (val, (data.getD env.uninit).signExtend 32, k)

def libwrite (env : Env Proc) (k : Krnl Proc) (proc : Proc) (data : Byte) (destination : CInt) (offset : Addr) :
    Outcome (Int × Krnl Proc) := write env k proc 0 destination offset data

end LamiaAtrium
