import LamiaAtrium.Libmem

/-! Instructions and their execution, from `cpu.c` and `libstd.c`. -/

namespace LamiaAtrium
variable {Proc : Type} [DecidableEq Proc]

/-- `ins_opcode_t`. The loader rejects every other word, so `run` never takes its default
branch. -/
inductive Opcode where
  | calc
  | alloc
  | free
  | read
  | write
  | syscall
  deriving DecidableEq, Repr

structure Inst where
  opcode : Opcode
  arg0 : Addr
  arg1 : Addr
  arg2 : Addr
  arg3 : Addr
  deriving DecidableEq, Repr

/-- What `load` reads from a process file: the default priority and the code segment,
whose `size` is a `uint32_t`. -/
structure Program where
  priority : BitVec 32
  text : List Inst
  size_lt : text.length < 2 ^ 32

def libsyscall (env : Env Proc) (k : Krnl Proc) (caller : Proc) (syscallIdx : CInt) (a1 a2 a3 : Addr) :
    Outcome (Int × Krnl Proc) := do
  let pid ← env.callerPid caller
  let (code, _, k) ← syscall env k pid syscallIdx { a1, a2, a3 }
  return (code, k)

/-- The switch of `run`. -/
def runInst (env : Env Proc) (k : Krnl Proc) (proc : Proc) (ins : Inst) : Outcome (Int × Krnl Proc) :=
  match ins.opcode with
  | .calc => .ok (0, k)
  | .alloc => liballoc env k proc ins.arg0 (addrToInt ins.arg1)
  | .free => libfree k proc (addrToInt ins.arg0)
  | .read => do
    -- the destination is a field of the local copy of the instruction, which is dropped
    let (stat, _, k) ← libread env k proc (addrToInt ins.arg0) ins.arg1
    return (stat, k)
  | .write => libwrite env k proc (ins.arg0.setWidth 8) (addrToInt ins.arg1) ins.arg2
  | .syscall => libsyscall env k proc (addrToInt ins.arg0) ins.arg1 ins.arg2 ins.arg3

/-- What `run` reads and changes: the memory and, of each process control block, the
counter and the registers, which `load` leaves as `malloc` returned them. -/
structure Execution (Proc : Type) where
  mem : Krnl Proc
  pc : Proc → BitVec 32
  regs : Proc → Fin 10 → Addr

/-- The bookkeeping as system calls see it, with the registers of the pcbs. -/
def Execution.env (m : Execution Proc) (env : Env Proc) : Env Proc := { env with regs6 := fun p => some (m.regs p 6) }

/-- A store through `(uint32_t*) &ins.arg_2`: the low half of the field. -/
def Inst.storeArg2 (ins : Inst) (word : CInt) : Inst := { ins with arg2 := ((ins.arg2 >>> 32) <<< 32) ||| word.setWidth 64 }

/-- `run`, with its local copy of the instruction as the call leaves it. Under `MM_PAGING`
no branch writes `proc->regs`. -/
def run (env : Env Proc) (text : List Inst) (m : Execution Proc) (proc : Proc) : Outcome (Int × Option Inst × Execution Proc) :=
  match text[(m.pc proc).toNat]? with
  | none => .ok (1, none, m)
  | some ins => do
    let m := { m with pc := Function.update m.pc proc (m.pc proc + 1) }
    if ins.opcode = .read then
      let (stat, word, mem) ← libread (m.env env) m.mem proc (addrToInt ins.arg0) ins.arg1
      return (stat, some (ins.storeArg2 word), { m with mem })
    else
      let (stat, mem) ← runInst (m.env env) m.mem proc ins
      return (stat, some ins, { m with mem })

end LamiaAtrium
