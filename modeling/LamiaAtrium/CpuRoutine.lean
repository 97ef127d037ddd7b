import LamiaAtrium.System

/-! `cpu_routine` of one CPU on its own. `get_proc` may answer with any process at any time, or
with none; from then on to `put_proc` or `free` no one else changes the `pc` of that process. -/

namespace LamiaAtrium
variable {Proc : Type}

/-- The variables of `cpu_routine`, and the `pc` of the process it has. -/
structure CpuVars (Proc : Type) where
  point : Point
  proc : Option Proc
  pc : Nat
  timeLeft : Int

inductive CpuEvent (Proc : Type) where
  | silent
  | returned (proc : Option Proc)
  | putBack (proc : Proc)
  | finished (proc : Proc)
  | ran (proc : Proc) (index : Nat)
  deriving DecidableEq, Repr

namespace CpuVars

def start : CpuVars Proc where
  point := .head
  proc := none
  pc := 0
  timeLeft := 0

def current (c : CpuVars Proc) : Outcome Proc :=
  match c.proc with
  | some proc => .ok proc
  | none => .error .nullDereference

/-- `proc = get_proc()`, with the `pc` that the process has when it comes. -/
def take (c : CpuVars Proc) (answer : Option (Proc × Nat)) (timeLeft : Int) (point : Point) : CpuEvent Proc × CpuVars Proc :=
  match answer with
  | none => (.returned none, { c with proc := none, timeLeft, point })
  | some (proc, pc) => (.returned (some proc), { proc, pc, timeLeft, point })

end CpuVars

/-- One step of `cpu_routine`, cut as in `cpuStep`. -/
def cpuRoutine (timeSlot : Int) (text : Proc → List Inst) (answer : Option (Proc × Nat)) (done : Bool) (c : CpuVars Proc) :
    Outcome (CpuEvent Proc × CpuVars Proc) :=
  match c.point with
  | .head =>
    match c.proc with
    | none => .ok (.silent, { c with point := .load })
    | some proc =>
      let point := if c.pc = (text proc).length then .finish else if c.timeLeft = 0 then .putBack else .recheck
      .ok (.silent, { c with point })
  | .load => .ok (c.take answer c.timeLeft (if answer.isNone then .skip else .recheck))
  | .finish => do
    let proc ← c.current
    return (.finished proc, { c with point := .refill })
  | .refill => .ok (c.take answer 0 .recheck)
  | .putBack => do
    let proc ← c.current
    return (.putBack proc, { c with point := .switch })
  | .switch => .ok (c.take answer c.timeLeft .recheck)
  | .recheck =>
    match c.proc with
    | none => .ok (.silent, { c with point := if done then .stopped else .skip })
    | some _ =>
      let timeLeft := if c.timeLeft = 0 then timeSlot else c.timeLeft
      .ok (.silent, { c with timeLeft, point := .run })
  | .run => do
    let proc ← c.current
    match (text proc)[c.pc]? with
    | none => return (.silent, { c with point := .slot })
    | some ins => return (.ran proc c.pc, { c with pc := c.pc + 1, point := .execute ins })
  | .execute _ => .ok (.silent, { c with point := .slot })
  | .slot => .ok (.silent, { c with timeLeft := c.timeLeft - 1, point := .head })
  | .skip => .ok (.silent, { c with point := .head })
  | .stopped => .ok (.silent, c)

/-- The processes that come from `get_proc` have not run past the end of their program. -/
def CpuStep (timeSlot : Int) (text : Proc → List Inst) (before : CpuVars Proc) (event : CpuEvent Proc) (after : CpuVars Proc) : Prop :=
  ∃ answer done, (∀ proc pc, answer = some (proc, pc) → pc ≤ (text proc).length) ∧
    cpuRoutine timeSlot text answer done before = .ok (event, after)

end LamiaAtrium
