import LamiaAtrium.Cpu
import LamiaAtrium.Library.Locking

/-! The instructions of `run` on CPUs that work at the same time. A call is taken apart where it
locks or unlocks `mmvm_lock` and where it reads or writes a free list; any other access to
what the CPUs share is one step. The checks in front of the first access see the state in
which the instruction starts. -/

namespace LamiaAtrium
open Locking

inductive Device where
  | mram
  | activeMswp
  deriving DecidableEq, Repr

/-- What the CPUs share: the kernel's memory and the process bookkeeping. -/
structure Shared (Proc : Type) where
  k : Krnl Proc
  env : Env Proc

namespace Shared
variable {Proc : Type}

def freeFpList (s : Shared Proc) : Device → List Addr
  | .mram => s.k.mram.freeFpList
  | .activeMswp => s.k.activeMswp.freeFpList

def setFreeFpList (s : Shared Proc) (device : Device) (freeFpList : List Addr) : Shared Proc :=
  match device with
  | .mram => { s with k := { s.k with mram := { s.k.mram with freeFpList } } }
  | .activeMswp => { s with k := { s.k with activeMswp := { s.k.activeMswp with freeFpList } } }

end Shared

def freeFpLists (Proc : Type) : Pools (Shared Proc) Device Addr where
  get := Shared.freeFpList
  set := Shared.setFreeFpList
  get_set := by
    intro s device freeFpList other
    cases device <;> cases other <;> rfl

/-- The functions that `mmvm_lock` is there for. -/
inductive Fn where
  | pgGetpage
  | vmMapRam
  | getFreefp
  | putFreefp
  | findVictimPage
  | mmSwapPage
  deriving DecidableEq, Repr

abbrev Code (Proc : Type) := Prog (Shared Proc) Fault Device Addr Fn

namespace Interleaved
variable {Proc : Type}

def look : Code Proc (Shared Proc) := .access fun s => .ok (s, s)

def onMemory (f : Shared Proc → Outcome (α × Krnl Proc)) : Code Proc α :=
  .access fun s => (f s).map fun (result, k) => (result, { s with k })

def lift : Outcome α → Code Proc α
  | .ok result => .done result
  | .error fault => .fail fault

/-- `MEMPHY_get_freefp`: it reads the head of the list, and then makes the next node the head. -/
def getFreefp (device : Device) : Code Proc (Option Addr) := .call .getFreefp (.takeFirst device)

/-- `MEMPHY_put_freefp`: the new node points to the head as it was read. -/
def putFreefp (device : Device) (fpn : Addr) : Code Proc Unit := .call .putFreefp (.giveBack device fpn)

def returnFrames : List Addr → Code Proc Unit
  | [] => return ()
  | fpn :: frmLst => do
    putFreefp .mram fpn
    returnFrames frmLst

def allocPagesLoop : Nat → List Addr → Code Proc (Addr × List Addr)
  | 0, frmLst => return (0, frmLst)
  | left + 1, frmLst => do
    match ← getFreefp .mram with
    | some fpn => allocPagesLoop left (fpn :: frmLst)
    | none =>
      returnFrames frmLst
      return (-3000, [])

variable [DecidableEq Proc]

def findVictimPage (caller : Proc) : Code Proc (Option Addr) :=
  .call .findVictimPage <| onMemory fun s =>
    match LamiaAtrium.findVictimPage (s.k.mms caller) with
    | some (pgn, mm) => .ok (some pgn, s.k.setMm caller mm)
    | none => .ok (none, s.k)

def mmSwapPage (vicfpn swpfpn : Addr) : Code Proc Unit :=
  .call .mmSwapPage <| onMemory fun s => do
    let k ← LamiaAtrium.mmSwapPage s.env s.k vicfpn swpfpn
    return ((), k)

def vmMapRam (caller : Proc) (mapstart : Addr) (incpgnum : CInt) (rg : VmRg) : Code Proc (Addr × VmRg) :=
  .call .vmMapRam do
    let (retAlloc, frmLst) ← allocPagesLoop (rounds incpgnum) []
    if retAlloc < 0#64 ∧ retAlloc ≠ -3000 then return (-1, rg)
    else if retAlloc = -3000 then return (-1, rg)
    else onMemory fun s =>
      let (_, rg, mm) := vmapPageRange (s.k.mms caller) mapstart incpgnum frmLst
      .ok ((0, rg), s.k.setMm caller mm)

/-- What `inc_vma_limit` has worked out when it calls `vm_map_ram`. -/
structure Growth (Proc : Type) where
  owner : Proc
  curIndex : Nat
  oldEnd : Addr
  newEnd : Addr
  numPages : CInt
  rg : VmRg

/-- `inc_vma_limit` up to that call; `none` is one of its refusals. -/
def growth (k : Krnl Proc) (vmaid : CInt) (incSz : Addr) : Outcome (Option (Growth Proc)) := do
  let owner ← k.mmOwner
  let some (curIndex, curVma) ← getVmaByNum (k.mms owner) vmaid | return none
  let aligned := pagingAlign incSz
  let oldEnd := curVma.sbrk
  let newEnd := oldEnd + aligned
  let valid ← validateOverlapVmArea (k.mms owner) vmaid oldEnd newEnd
  if valid < 0 then return none
  let numPages := addrToInt (aligned / 256#64)
  let some rg ← getVmAreaNodeAtBrk (k.mms owner) vmaid aligned | throw .nullDereference
  return some { owner, curIndex, oldEnd, newEnd, numPages, rg }

def incVmaLimit (s : Shared Proc) (caller : Proc) (vmaid : CInt) (incSz : Addr) : Code Proc Int := do
  let some { owner, curIndex, oldEnd, newEnd, numPages, rg } ← lift (growth s.k vmaid incSz) | return -1
  let (mapped, _) ← vmMapRam caller oldEnd numPages rg
  if mapped < 0#64 then return -1
  onMemory fun s =>
    .ok (0, s.k.setMm owner ((s.k.mms owner).modifyArea curIndex fun vma => { vma with sbrk := newEnd, vmEnd := newEnd }))

def sysMemmap (s : Shared Proc) (pid : CInt) (regs : ScRegs) : Code Proc (Int × ScRegs) := do
  let memop := addrToInt regs.a1
  let some caller ← lift (s.env.findCaller pid) | return (-1, regs)
  if memop = sysmemMapOp then
    onMemory fun s =>
      .ok ((0, regs), s.k.setMm caller (vmapPgdMemset (s.k.mms caller) (addrParam regs.a2) (addrToInt regs.a3)))
  else if memop = sysmemIncOp then
    let _ ← incVmaLimit s caller (addrToInt regs.a2) (addrParam regs.a3)
    return (0, regs)
  else if memop = sysmemSwpOp then
    mmSwapPage (addrParam regs.a2) (addrParam regs.a3)
    return (0, regs)
  else if memop = sysmemIoRead then
    onMemory fun s => do
      s.env.callerKrnl caller
      let (_, mram, value) ← s.k.mram.read (addrParam regs.a2) s.env.uninit
      return ((0, { regs with a3 := value.signExtend 64 }), { s.k with mram })
  else if memop = sysmemIoWrite then
    onMemory fun s => do
      s.env.callerKrnl caller
      let (_, mram) ← s.k.mram.write (addrParam regs.a2) (regs.a3.setWidth 8)
      return ((0, regs), { s.k with mram })
  else return (0, regs)

def syscall (s : Shared Proc) (pid nr : CInt) (regs : ScRegs) : Code Proc (Int × ScRegs) :=
  if nr = 17#32 then sysMemmap s pid regs else return (0, regs)

/-- A system call in the middle of a library call, for its caller. -/
def memmap (caller : Proc) (regs : ScRegs) : Code Proc (Int × ScRegs) := do
  let s ← look
  let pid ← lift (s.env.callerPid caller)
  syscall s pid 17 regs

def evictVictim (caller : Proc) : Code Proc (Option Addr) := do
  let some vicpgn ← findVictimPage caller | return none
  let s ← look
  let vicfpn : Addr := (pagingFpn ((s.k.mms caller).getEntry vicpgn)).setWidth 64
  let some vicSwpfpn ← getFreefp .activeMswp | return none
  let _ ← memmap caller { a1 := 3, a2 := vicfpn, a3 := vicSwpfpn }
  onMemory fun s => .ok (some vicfpn, s.k.setMm caller ((s.k.mms caller).setSwap vicpgn s.k.activeMswpId vicSwpfpn))

def pageIn (caller : Proc) (pgn reqSwpfpn newfpn : Addr) : Code Proc Unit := do
  onMemory fun s => do
    let (activeMswp, mram) ← swapCpPage s.env.uninit s.k.activeMswp reqSwpfpn s.k.mram newfpn
    return ((), { s.k with activeMswp, mram })
  putFreefp .activeMswp reqSwpfpn
  onMemory fun s => .ok ((), s.k.setMm caller (((s.k.mms caller).setFpn pgn newfpn).enlistPgn pgn))

def pgGetpage (caller : Proc) (pgn : CInt) : Code Proc (Int × Option CInt) :=
  .call .pgGetpage do
    let s ← look
    let pte := (s.k.mms caller).getEntry (intToAddr pgn)
    if pagingPageSwapped pte then
      let reqSwpfpn : Addr := (pagingSwp pte).setWidth 64
      match ← getFreefp .mram with
      | some newfpn =>
        pageIn caller (intToAddr pgn) reqSwpfpn newfpn
        return (0, some (addrToInt newfpn))
      | none =>
        let some newfpn ← evictVictim caller | return (-1, none)
        pageIn caller (intToAddr pgn) reqSwpfpn newfpn
        return (0, some (addrToInt newfpn))
    else if pagingPagePresent pte then return (0, some (pagingFpn pte))
    else return (-1, none)

def pgGetval (caller : Proc) (addr : CInt) : Code Proc (Int × Option Byte) := do
  let (_, fpn) ← pgGetpage caller (pagingPgn addr)
  let some fpn := fpn | return (-1, none)
  let (_, regs) ← memmap caller { a1 := 4, a2 := phyAddr fpn (pagingOffst addr), a3 := 0 }
  return (0, some ((regs.a3 &&& 0xFF#64).setWidth 8))

def pgSetval (caller : Proc) (addr : CInt) (value : Byte) : Code Proc Int := do
  let (_, fpn) ← pgGetpage caller (pagingPgn addr)
  let some fpn := fpn | return -1
  let _ ← memmap caller { a1 := 5, a2 := phyAddr fpn (pagingOffst addr), a3 := value.signExtend 64 }
  return 0

/-- The checks of `__read`: the address it goes on with, `none` where it returns -1. -/
def readAddr (mm : Mm) (rgid : CInt) (offset : Addr) : Outcome (Option CInt) := do
  let some index := getSymrgByid rgid | return none
  let currg ← mm.symrg index
  if currg.rgStart = 0 ∧ currg.rgEnd = 0 then return none
  let rgSize := currg.rgEnd - currg.rgStart
  if offset < 0#64 ∨ offset ≥ rgSize then return none
  return some (addrToInt (currg.rgStart + offset))

/-- `__read`, which does not touch `mmvm_lock`. -/
def read (s : Shared Proc) (caller : Proc) (rgid : CInt) (offset : Addr) : Code Proc (Int × Option Byte) := do
  let some addr ← lift (readAddr (s.k.mms caller) rgid offset) | return (-1, none)
  let (code, data) ← pgGetval caller addr
  if code ≠ 0 then return (-1, data)
  return (0, data)

/-- The checks of `__write`. -/
def writeAddr (mm : Mm) (vmaid rgid : CInt) (offset : Addr) : Outcome (Option CInt) := do
  let currg := getSymrgByid rgid
  let curVma ← getVmaByNum mm vmaid
  let (some index, some _) := (currg, curVma) | return none
  let currg ← mm.symrg index
  if offset < 0#64 ∨ currg.rgStart + offset ≥ currg.rgEnd then return none
  return some (addrToInt (currg.rgStart + offset))

def write (caller : Proc) (vmaid rgid : CInt) (offset : Addr) (value : Byte) : Code Proc Int :=
  .locked do
    let s ← look
    let some addr ← lift (writeAddr (s.k.mms caller) vmaid rgid offset) | return -1
    let _ ← pgSetval caller addr value
    return 0

/-- The first half of `__alloc`: the region from the free list, if there is one. -/
def allocFree (caller : Proc) (vmaid rgid : CInt) (size : Addr) : Code Proc (Option Addr) :=
  onMemory fun s => do
    let (code, chosen, mm) ← getFreeVmrgArea (s.k.mms caller) vmaid (addrToInt size)
    match code, chosen with
    | 0, some chosen =>
      let mm ← mm.setSymrg rgid.toNat chosen
      return (some chosen.rgStart, s.k.setMm caller mm)
    | _, _ => return (none, s.k.setMm caller mm)

def allocGrow (caller : Proc) (vmaid : CInt) (area rgid : Nat) (size : Addr) : Code Proc (Int × Option Addr) := do
  let grow := growBytes size
  let s ← look
  let oldBrk := (← lift ((s.k.mms caller).area area)).sbrk
  let _ ← memmap caller { a1 := 2, a2 := intToAddr vmaid, a3 := grow }
  onMemory fun s => do
    let mm ← (s.k.mms caller).setSymrg rgid { rgStart := oldBrk, rgEnd := oldBrk + size }
    return ((0, some oldBrk), s.k.setMm caller (keepExtra mm area oldBrk size grow))

def alloc (caller : Proc) (vmaid rgid : CInt) (size : Addr) : Code Proc (Int × Option Addr) :=
  if size ≤ 0#64 then return (-1, none)
  else .locked do
    let s ← look
    let some (area, _) ← lift (getVmaByNum (s.k.mms caller) vmaid) | return (-1, none)
    match ← allocFree caller vmaid rgid size with
    | some start => return (0, some start)
    | none => allocGrow caller vmaid area rgid.toNat size

def free (caller : Proc) (vmaid rgid : CInt) : Code Proc Int :=
  .locked <| onMemory fun s => LamiaAtrium.free s.k caller vmaid rgid

def libsyscall (s : Shared Proc) (caller : Proc) (syscallIdx : CInt) (a1 a2 a3 : Addr) : Code Proc Int := do
  let pid ← lift (s.env.callerPid caller)
  let (code, _) ← syscall s pid syscallIdx { a1, a2, a3 }
  return code

/-- The switch of `run`, for an instruction that starts in `s`. -/
def runInst (s : Shared Proc) (proc : Proc) (ins : Inst) : Code Proc Int :=
  match ins.opcode with
  | .calc => return 0
  | .alloc => do
    let (val, _) ← alloc proc 0 (addrToInt ins.arg1) ins.arg0
    return val
  | .free => free proc 0 (addrToInt ins.arg0)
  | .read => do
    let (stat, _) ← read s proc (addrToInt ins.arg0) ins.arg1
    return stat
  | .write => write proc 0 (addrToInt ins.arg1) ins.arg2 (ins.arg0.setWidth 8)
  | .syscall => libsyscall s proc (addrToInt ins.arg0) ins.arg1 ins.arg2 ins.arg3

end Interleaved
end LamiaAtrium
