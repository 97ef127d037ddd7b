import LamiaAtrium.Cpu
import LamiaAtrium.Sched

/-! The threads of `os.c`: one loader and any number of CPUs, taking steps in any order.
A step reads or changes what the threads share at most once: a call of the scheduler, a
load or a free, a fetch, the effect of one instruction on memory, a look at `done`.
Time is left out: a thread that waits for the next slot takes no step, so every order
that the timer allows is among the orders here. -/

namespace LamiaAtrium

structure ConfigLine where
  program : Program
  prio : BitVec 64

structure Config where
  timeSlot : Int
  numCpus : Nat
  processes : List ConfigLine
  /-- `num_processes` is an `int`. -/
  processes_lt : processes.length < 2 ^ 31
  mram : Memphy
  activeMswp : Memphy
  /-- The address of `os`, and what uninitialised memory holds: a local byte, and the word
  where the area of process `i` has its free list. This word may lead to a list that ends
  and that nothing else uses; `none` is any other content, which is no pointer to follow. -/
  os : Addr
  uninit : Byte
  heap : Nat → Option (List VmRg)

namespace Config
variable (cfg : Config)

/-- The instructions of process `i`, counted from 0 in the order of the configuration. -/
def text (i : Nat) : List Inst := (cfg.processes[i]?.map fun line => line.program.text).getD []

/-- `proc->prio` is the `unsigned long` of the configuration cut to 32 bits. -/
def priorities : Priorities Nat where
  priority := fun i => (cfg.processes[i]?.map fun line => line.program.priority).getD 0
  prio := fun i => (cfg.processes[i]?.map fun line => line.prio.setWidth 32).getD 0

end Config

inductive Pcb where
  | unloaded
  | live (pc : Nat)
  | freed
  deriving DecidableEq, Repr

/-- Where a CPU is in `cpu_routine`. -/
inductive Point where
  /-- The head of the loop. -/
  | head
  /-- `get_proc` of a CPU without a process. -/
  | load
  /-- `free(proc)`, then `get_proc` and `time_left = 0`. -/
  | finish
  | refill
  /-- `put_proc(proc)`, then `get_proc`. -/
  | putBack
  | switch
  /-- The second check of `proc`. -/
  | recheck
  /-- `run`: the fetch, then the instruction it fetched. -/
  | run
  | execute (ins : Inst)
  /-- `time_left--` and `next_slot`. -/
  | slot
  /-- `next_slot` and `continue`. -/
  | skip
  | stopped
  deriving DecidableEq, Repr

structure Cpu where
  point : Point
  proc : Option Nat
  timeLeft : Int
  deriving DecidableEq, Repr

inductive Loader where
  | load (i : Nat)
  | add (i : Nat)
  | finished
  deriving DecidableEq, Repr

structure State (numCpus : Nat) where
  pcbs : Nat → Pcb
  sched : Sched Nat
  mem : Krnl Nat
  loader : Loader
  cpus : Fin numCpus → Cpu
  done : Bool

inductive Thread (numCpus : Nat) where
  | loader
  | cpu (id : Fin numCpus)
  deriving DecidableEq, Repr

inductive Event where
  | silent
  | loaded (proc : Nat)
  | call (call : Sched.Call Nat)
  | finished (proc : Nat)
  | fetched (proc : Nat) (index : Nat)
  | executed (proc : Nat) (stat : Int)
  deriving DecidableEq, Repr

/-- `load` hands out the pids 1, 2, 3, ... -/
def pidOf (i : Nat) : CInt := BitVec.ofNat 32 (i + 1)

namespace State
variable {n : Nat} (s : State n)

def setCpu (id : Fin n) (cpu : Cpu) : State n := { s with cpus := Function.update s.cpus id cpu }

def setPcb (proc : Nat) (pcb : Pcb) : State n := { s with pcbs := Function.update s.pcbs proc pcb }

def pc (proc : Nat) : Outcome Nat :=
  match s.pcbs proc with
  | .unloaded => .error .nullDereference
  | .live pc => .ok pc
  | .freed => .error .useAfterFree

def pid (proc : Nat) : Option CInt :=
  match s.pcbs proc with
  | .live _ => some (pidOf proc)
  | _ => none

/-- What system calls see of the processes. Nothing stores to the registers of a pcb. -/
def env (cfg : Config) : Env Nat where
  pid := s.pid
  regs6 := fun _ => none
  readyQueue := if s.sched.linked then some s.sched.readyQueue.procs else none
  runningList := if s.sched.linked then some s.sched.runningList.procs else none
  os := cfg.os
  uninit := cfg.uninit

/-- `proc = get_proc()` on one CPU, which goes on as `onward` says. -/
def getProc (cfg : Config) (id : Fin n) (onward : Option Nat → Cpu) : Event × State n :=
  let (proc, sched) := Sched.getMlqProc cfg.priorities s.sched
  (.call (.returned proc), { s with sched }.setCpu id (onward proc))

end State

/-- `get_free_vmrg_area` looks for a size in this `mm` and passes the last region. -/
def Mm.scanPasses (mm : Mm) (size : CInt) : Bool :=
  !size.sle 0#32 && match getVmaByNum mm 0 with
    | .ok (some (_, vma)) => (carve (intToAddr size) vma.vmFreergList).isNone
    | _ => false

/-- The first node of the list in a fresh area is an empty region, and the word that `malloc`
left comes behind it: a scan that passes all regions follows this word. -/
def Config.scan (cfg : Config) (mm : Mm) (proc : Nat) (ins : Inst) : Outcome Unit :=
  if ins.opcode = .alloc ∧ cfg.heap proc = none ∧ mm.scanPasses (addrToInt ins.arg0) then .error .wildPointer else .ok ()

def Cpu.current (cpu : Cpu) : Outcome Nat :=
  match cpu.proc with
  | some proc => .ok proc
  | none => .error .nullDereference

section Steps
variable (cfg : Config) (s : State cfg.numCpus)

def cpuStep (id : Fin cfg.numCpus) : Outcome (Event × State cfg.numCpus) :=
  let cpu := s.cpus id
  match cpu.point with
  | .head =>
    match cpu.proc with
    | none => .ok (.silent, s.setCpu id { cpu with point := .load })
    | some proc => do
      let pc ← s.pc proc
      let point := if pc = (cfg.text proc).length then .finish else if cpu.timeLeft = 0 then .putBack else .recheck
      return (.silent, s.setCpu id { cpu with point })
  | .load => .ok (s.getProc cfg id fun proc => { cpu with proc, point := if proc.isNone then .skip else .recheck })
  | .finish => do
    let proc ← cpu.current
    let _ ← s.pc proc
    return (.finished proc, (s.setPcb proc .freed).setCpu id { cpu with point := .refill })
  | .refill => .ok (s.getProc cfg id fun proc => { proc, timeLeft := 0, point := .recheck })
  | .putBack => do
    let proc ← cpu.current
    let _ ← s.pc proc
    let (call, sched) ← Sched.serve cfg.priorities s.sched (.put proc)
    return (.call call, { s with sched }.setCpu id { cpu with point := .switch })
  | .switch => .ok (s.getProc cfg id fun proc => { cpu with proc, point := .recheck })
  | .recheck =>
    match cpu.proc with
    | none => .ok (.silent, s.setCpu id { cpu with point := if s.done then .stopped else .skip })
    | some _ =>
      let timeLeft := if cpu.timeLeft = 0 then cfg.timeSlot else cpu.timeLeft
      .ok (.silent, s.setCpu id { cpu with timeLeft, point := .run })
  | .run => do
    let proc ← cpu.current
    let pc ← s.pc proc
    match (cfg.text proc)[pc]? with
    | none => return (.silent, s.setCpu id { cpu with point := .slot })
    | some ins => return (.fetched proc pc, (s.setPcb proc (.live (pc + 1))).setCpu id { cpu with point := .execute ins })
  | .execute ins => do
    let proc ← cpu.current
    cfg.scan (s.mem.mms proc) proc ins
    let (stat, mem) ← runInst (s.env cfg) s.mem proc ins
    return (.executed proc stat, { s with mem }.setCpu id { cpu with point := .slot })
  | .slot => .ok (.silent, s.setCpu id { cpu with timeLeft := cpu.timeLeft - 1, point := .head })
  | .skip => .ok (.silent, s.setCpu id { cpu with point := .head })
  | .stopped => .ok (.silent, s)

/-- The `mm` of a process is set up by `init_mm` before the process is queued. -/
def loaderStep : Outcome (Event × State cfg.numCpus) :=
  match s.loader with
  | .load i =>
    if i < cfg.processes.length then .ok (.loaded i, { s.setPcb i (.live 0) with loader := .add i })
    else .ok (.silent, { s with done := true, loader := .finished })
  | .add i => do
    let mem := s.mem.setMm i (initMm ((cfg.heap i).getD []))
    let (call, sched) ← Sched.serve cfg.priorities s.sched (.add i)
    return (.call call, { s with mem, sched, loader := .load (i + 1) })
  | .finished => .ok (.silent, s)

/-- A thread that is through with its routine stays where it is. -/
def threadStep : Thread cfg.numCpus → Outcome (Event × State cfg.numCpus)
  | .loader => loaderStep cfg s
  | .cpu id => cpuStep cfg s id

end Steps

def SystemStep (cfg : Config) (before : State cfg.numCpus) (label : Thread cfg.numCpus × Event) (after : State cfg.numCpus) :
    Prop :=
  threadStep cfg before label.1 = .ok (label.2, after)

def boot (cfg : Config) : State cfg.numCpus where
  pcbs := fun _ => .unloaded
  sched := Sched.initScheduler
  mem := { mm := none, mram := cfg.mram, activeMswp := cfg.activeMswp, activeMswpId := 0, mms := fun _ => initMm [] }
  loader := .load 0
  cpus := fun _ => { point := .head, proc := none, timeLeft := 0 }
  done := false

/-- The run in which the threads take their steps in the given order. -/
def runThreads (cfg : Config) (s : State cfg.numCpus) :
    List (Thread cfg.numCpus) → Outcome (List (Thread cfg.numCpus × Event) × State cfg.numCpus)
  | [] => .ok ([], s)
  | thread :: rest => do
    let (event, s) ← threadStep cfg s thread
    let (labels, s) ← runThreads cfg s rest
    return ((thread, event) :: labels, s)

end LamiaAtrium
