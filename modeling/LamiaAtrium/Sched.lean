import LamiaAtrium.Queue

/-! The multi-level scheduler of `sched.c`, with the static state of `get_mlq_proc`. Each
call is one step: its queue operations run under `queue_lock`. `run_queue` belongs to
the other scheduler and `queue_empty` has no caller; both are left out. -/

namespace LamiaAtrium
variable {Proc : Type}

def maxPrio : Nat := 140

theorem maxPrio_pos : 0 < maxPrio := by decide

structure Sched (Proc : Type) where
  readyQueue : Queue Proc
  runningList : Queue Proc
  mlqReadyQueue : Fin maxPrio → Queue Proc
  slot : Fin maxPrio → Nat
  curPrio : Fin maxPrio
  usedSlot : Nat
  /-- Whether `krnl_t` points to the queues yet. -/
  linked : Bool

/-- What a pcb says to the scheduler, fixed when the process is loaded: the priority in
its program file, which `dequeue` compares, and the level in the configuration. -/
structure Priorities (Proc : Type) where
  priority : Proc → BitVec 32
  prio : Proc → BitVec 32

namespace Sched

def initScheduler : Sched Proc where
  readyQueue := Queue.nil
  runningList := Queue.nil
  mlqReadyQueue := fun _ => Queue.nil
  slot := fun i => maxPrio - i
  curPrio := ⟨0, by decide⟩
  usedSlot := 0
  linked := false

def setLevel (s : Sched Proc) (level : Fin maxPrio) (q : Queue Proc) : Sched Proc :=
  { s with mlqReadyQueue := Function.update s.mlqReadyQueue level q }

@[simp] theorem setLevel_same (s : Sched Proc) (level : Fin maxPrio) (q : Queue Proc) :
    (s.setLevel level q).mlqReadyQueue level = q := Function.update_self ..

/-- `used_slot = 0; cur_prio = (cur_prio + 1) % MAX_PRIO`. -/
def nextPrio (s : Sched Proc) : Sched Proc :=
  { s with usedSlot := 0, curPrio := ⟨(s.curPrio + 1) % maxPrio, Nat.mod_lt _ (by decide)⟩ }

/-- The loop of `get_mlq_proc`, with `MAX_PRIO - scanned` rounds left. -/
def scanLevels (pr : Priorities Proc) : Nat → Sched Proc → Option Proc × Sched Proc
  | 0, s => (none, s)
  | left + 1, s =>
    let level := s.mlqReadyQueue s.curPrio
    if level.empty then scanLevels pr left s.nextPrio
    else if s.usedSlot < s.slot s.curPrio then
      let (proc, level) := level.dequeue pr.priority
      (proc, { s.setLevel s.curPrio level with usedSlot := s.usedSlot + 1 })
    else scanLevels pr left s.nextPrio

def getMlqProc (pr : Priorities Proc) (s : Sched Proc) : Option Proc × Sched Proc :=
  match scanLevels pr maxPrio s with
  | (none, s) => (none, { s with usedSlot := 0 })
  | (some proc, s) => (some proc, s)

def level (pr : Priorities Proc) (proc : Proc) : Outcome (Fin maxPrio) :=
  if inside : (pr.prio proc).toNat < maxPrio then .ok ⟨_, inside⟩ else .error .outOfBounds

def putMlqProc (pr : Priorities Proc) (s : Sched Proc) (proc : Proc) : Outcome (Sched Proc) := do
  let s := { s with linked := true, runningList := s.runningList.enqueue (some proc) }
  let level ← level pr proc
  return s.setLevel level ((s.mlqReadyQueue level).enqueue (some proc))

def addMlqProc (pr : Priorities Proc) (s : Sched Proc) (proc : Proc) : Outcome (Sched Proc) := do
  let s := { s with linked := true }
  let level ← level pr proc
  return s.setLevel level ((s.mlqReadyQueue level).enqueue (some proc))

/-- A call with what it did: whether the level of an inserted process had room for it,
and what `get_proc` returned. -/
inductive Call (Proc : Type) where
  | added (proc : Proc) (room : Bool)
  | putBack (proc : Proc) (room : Bool)
  | returned (proc : Option Proc)
  deriving DecidableEq, Repr

def hasRoom (pr : Priorities Proc) (s : Sched Proc) (proc : Proc) : Bool :=
  match level pr proc with
  | .ok level => !(s.mlqReadyQueue level).full
  | .error _ => false

inductive Request (Proc : Type) where
  | add (proc : Proc)
  | put (proc : Proc)
  | get

def Call.request : Call Proc → Request Proc
  | .added proc _ => .add proc
  | .putBack proc _ => .put proc
  | .returned _ => .get

def serve (pr : Priorities Proc) (s : Sched Proc) : Request Proc → Outcome (Call Proc × Sched Proc)
  | .add proc => do
    let after ← addMlqProc pr s proc
    return (.added proc (s.hasRoom pr proc), after)
  | .put proc => do
    let after ← putMlqProc pr s proc
    return (.putBack proc (s.hasRoom pr proc), after)
  | .get =>
    let (proc, after) := getMlqProc pr s
    return (.returned proc, after)

/-- The calls of all threads, in the order in which they took `queue_lock`. -/
def serveAll (pr : Priorities Proc) (s : Sched Proc) : List (Request Proc) → Outcome (List (Call Proc) × Sched Proc)
  | [] => .ok ([], s)
  | request :: requests => do
    let (call, s) ← serve pr s request
    let (calls, s) ← serveAll pr s requests
    return (call :: calls, s)

def Step (pr : Priorities Proc) (before : Sched Proc) (call : Call Proc) (after : Sched Proc) : Prop :=
  ∃ request, serve pr before request = .ok (call, after)

end Sched
end LamiaAtrium
