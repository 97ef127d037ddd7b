import LamiaAtrium.Mapping

/-! System call 17, `__sys_memmap` of `sys_mem.c`, and the dispatch in front of it.
`sys_mem.c` includes `os-mm.h` before anything defines `MM64`, so `addr_t` is
`uint32_t` in that file. An address or a size that passes through it is cut to 32
bits, and its `struct pcb_t` has registers of 32 bits: what stands behind them is read
at another offset than `load` wrote it to. -/

namespace LamiaAtrium
variable {Proc : Type} [DecidableEq Proc]

structure ScRegs where
  a1 : Addr
  a2 : Addr
  a3 : Addr

def sysmemMapOp : CInt := 1
def sysmemIncOp : CInt := 2
def sysmemSwpOp : CInt := 3
def sysmemIoRead : CInt := 4
def sysmemIoWrite : CInt := 5

/-- A register passed as an `addr_t` of `sys_mem.c`. -/
def addrParam (value : Addr) : Addr := (value.setWidth 32).setWidth 64

/-- The scan of one queue for a pid. It reads the pid of every entry it passes. -/
def Env.scan (env : Env Proc) (pid : CInt) : List Proc → Outcome (Option Proc)
  | [] => .ok none
  | p :: rest =>
    match env.pid p with
    | none => .error .useAfterFree
    | some other => if other = pid then .ok (some p) else env.scan pid rest

/-- A queue that `krnl_t` has no pointer to yet is not scanned. -/
def Env.scanQueue (env : Env Proc) (pid : CInt) : Option (List Proc) → Outcome (Option Proc)
  | none => .ok none
  | some queue => env.scan pid queue

/-- The search of `__sys_memmap`: the ready queue, then the running list. -/
def Env.findCaller (env : Env Proc) (pid : CInt) : Outcome (Option Proc) := do
  match ← env.scanQueue pid env.readyQueue with
  | some caller => return some caller
  | none => env.scanQueue pid env.runningList

/-- `caller->krnl` as `sys_mem.c` reads it, at offset 168 of the pcb. The other files have
`regs[6]` there and `krnl` 40 bytes on. -/
def Env.callerKrnl (env : Env Proc) (caller : Proc) : Outcome Unit :=
  if env.regs6 caller = some env.os then .ok () else .error .wildPointer

def mmSwapPage (env : Env Proc) (k : Krnl Proc) (vicfpn swpfpn : Addr) : Outcome (Krnl Proc) := do
  let (mram, activeMswp) ← swapCpPage env.uninit k.mram vicfpn k.activeMswp swpfpn
  return { k with mram, activeMswp }

/-- `__sys_memmap`. The results of the operations it calls are dropped. -/
def sysMemmap (env : Env Proc) (k : Krnl Proc) (pid : CInt) (regs : ScRegs) : Outcome (Int × ScRegs × Krnl Proc) := do
  let memop := addrToInt regs.a1
  let some caller ← env.findCaller pid | return (-1, regs, k)
  if memop = sysmemMapOp then
    let mm := vmapPgdMemset (k.mms caller) (addrParam regs.a2) (addrToInt regs.a3)
    return (0, regs, k.setMm caller mm)
  else if memop = sysmemIncOp then
    let (_, k) ← incVmaLimit k caller (addrToInt regs.a2) (addrParam regs.a3)
    return (0, regs, k)
  else if memop = sysmemSwpOp then
    let k ← mmSwapPage env k (addrParam regs.a2) (addrParam regs.a3)
    return (0, regs, k)
  else if memop = sysmemIoRead then
    env.callerKrnl caller
    let (_, mram, value) ← k.mram.read (addrParam regs.a2) env.uninit
    return (0, { regs with a3 := value.signExtend 64 }, { k with mram })
  else if memop = sysmemIoWrite then
    env.callerKrnl caller
    let (_, mram) ← k.mram.write (addrParam regs.a2) (regs.a3.setWidth 8)
    return (0, regs, { k with mram })
  else return (0, regs, k)

/-- `syscall`, over the two entries of `syscall.tbl`. `__sys_listsyscall` only prints. -/
def syscall (env : Env Proc) (k : Krnl Proc) (pid : CInt) (nr : CInt) (regs : ScRegs) :
    Outcome (Int × ScRegs × Krnl Proc) :=
  if nr = 17#32 then sysMemmap env k pid regs else .ok (0, regs, k)

section Dispatch
variable {env : Env Proc} {k : Krnl Proc} {pid : CInt} {caller : Proc}

private theorem syscall_memmap (regs : ScRegs) : syscall env k pid 17 regs = sysMemmap env k pid regs := if_pos rfl

theorem syscall_fault {fault : Fault} (failed : env.findCaller pid = .error fault) (regs : ScRegs) :
    syscall env k pid 17 regs = .error fault := by
  rw [syscall_memmap, sysMemmap, failed]
  rfl

theorem syscall_missing (missing : env.findCaller pid = .ok none) (regs : ScRegs) :
    syscall env k pid 17 regs = .ok (-1, regs, k) := by
  rw [syscall_memmap, sysMemmap, missing]
  rfl

/-- A call that returns has looked the caller up. -/
theorem syscall_answered {regs : ScRegs} {result : Int × ScRegs × Krnl Proc} (returned : syscall env k pid 17 regs = .ok result) :
    (env.findCaller pid = .ok none ∧ result = (-1, regs, k)) ∨ ∃ caller, env.findCaller pid = .ok (some caller) := by
  cases answer : env.findCaller pid with
  | error fault =>
    rw [syscall_fault answer] at returned
    cases returned
  | ok found =>
    cases found with
    | none =>
      rw [syscall_missing answer] at returned
      cases returned
      exact .inl ⟨rfl, rfl⟩
    | some caller => exact .inr ⟨caller, rfl⟩

variable (found : env.findCaller pid = .ok (some caller)) (a2 a3 : Addr)
include found

theorem syscall_inc :
    syscall env k pid 17 { a1 := 2, a2, a3 } = (do
      let (_, k) ← incVmaLimit k caller (addrToInt a2) (addrParam a3)
      return (0, { a1 := 2, a2, a3 }, k)) := by
  rw [syscall_memmap, sysMemmap, found]
  rfl

theorem syscall_swp :
    syscall env k pid 17 { a1 := 3, a2, a3 } = (do
      let k ← mmSwapPage env k (addrParam a2) (addrParam a3)
      return (0, { a1 := 3, a2, a3 }, k)) := by
  rw [syscall_memmap, sysMemmap, found]
  rfl

theorem syscall_read :
    syscall env k pid 17 { a1 := 4, a2, a3 } = (do
      env.callerKrnl caller
      let (_, mram, value) ← k.mram.read (addrParam a2) env.uninit
      return (0, { a1 := 4, a2, a3 := value.signExtend 64 }, { k with mram })) := by
  rw [syscall_memmap, sysMemmap, found]
  rfl

theorem syscall_write :
    syscall env k pid 17 { a1 := 5, a2, a3 } = (do
      env.callerKrnl caller
      let (_, mram) ← k.mram.write (addrParam a2) (a3.setWidth 8)
      return (0, { a1 := 5, a2, a3 }, { k with mram })) := by
  rw [syscall_memmap, sysMemmap, found]
  rfl

end Dispatch

def Env.callerPid (env : Env Proc) (caller : Proc) : Outcome CInt :=
  match env.pid caller with
  | some pid => .ok pid
  | none => .error .useAfterFree

end LamiaAtrium
