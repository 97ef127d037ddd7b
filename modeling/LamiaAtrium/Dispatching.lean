import LamiaAtrium.QueueArray
import LamiaAtrium.Sched
import LamiaAtrium.Library.Locking

/-! The calls of the scheduler on CPUs that work at the same time. Each access to the arrays of
`sched.c` and to the static variables of `get_mlq_proc` is one step, and so are locking and
unlocking `queue_lock`. The pointers that `put_mlq_proc` and `add_mlq_proc` write before they
lock are always the same and are left out. -/

namespace LamiaAtrium
open Locking
variable {Proc : Type}

inductive QueueName where
  | runningList
  | mlqReadyQueue (prio : Fin maxPrio)
  deriving DecidableEq, Repr

/-- What the CPUs share of the scheduler. -/
structure SchedArrays (Proc : Type) where
  queue : QueueName → QueueArray Proc
  slot : Fin maxPrio → Nat
  curPrio : Fin maxPrio
  usedSlot : Nat

namespace SchedArrays

def setQueue (s : SchedArrays Proc) (name : QueueName) (q : QueueArray Proc) : SchedArrays Proc :=
  { s with queue := Function.update s.queue name q }

/-- After `init_scheduler`; what the arrays hold is whatever was there. -/
def initScheduler (proc : QueueName → Nat → Option Proc) : SchedArrays Proc where
  queue := fun name => { proc := proc name, size := 0 }
  slot := fun i => maxPrio - i
  curPrio := ⟨0, maxPrio_pos⟩
  usedSlot := 0

end SchedArrays

/-- There are no lists to take from, and no functions are watched. -/
def noPools (State : Type) : Pools State Empty Empty where
  get _ pool := nomatch pool
  set state _ _ := state
  get_set _ pool := nomatch pool

abbrev SchedCode (Proc : Type) := Prog (SchedArrays Proc) Fault Empty Empty Empty

namespace Dispatching

section Queues
variable (name : QueueName)

def onQueue (f : QueueArray Proc → Outcome (α × QueueArray Proc)) : SchedCode Proc α :=
  .access fun s => (f (s.queue name)).map fun (result, q) => (result, s.setQueue name q)

def size : SchedCode Proc Int := onQueue name fun q => .ok (q.size, q)

def setSize (size : Int) : SchedCode Proc Unit := onQueue name fun q => .ok ((), { q with size })

def load (index : Int) : SchedCode Proc (Option Proc) := onQueue name fun q => (q.load index).map fun entry => (entry, q)

def store (index : Int) (value : Option Proc) : SchedCode Proc Unit :=
  onQueue name fun q => (q.store index value).map fun q => ((), q)

def priorityAt (priority : Proc → BitVec 32) (index : Int) : SchedCode Proc (BitVec 32) :=
  onQueue name fun q => (q.priorityAt priority index).map fun value => (value, q)

def enqueue (proc : Option Proc) : SchedCode Proc Unit :=
  if proc.isNone then return () else do
    if (← size name) ≥ maxQueueSize then return ()
    let size ← Dispatching.size name
    store name size proc
    setSize name (size + 1)

/-- The bound of the loops is read once: nobody else changes the size. -/
def searchLoop (priority : Proc → BitVec 32) : Nat → Int → Int → SchedCode Proc Int
  | 0, _, best => return best
  | left + 1, i, best => do
    let here ← priorityAt name priority i
    let there ← priorityAt name priority best
    searchLoop priority left (i + 1) (if here < there then i else best)

def shiftLoop : Nat → Int → SchedCode Proc Unit
  | 0, _ => return ()
  | left + 1, j => do
    let entry ← load name j
    store name (j - 1) entry
    shiftLoop left (j + 1)

def dequeue (priority : Proc → BitVec 32) : SchedCode Proc (Option Proc) := do
  if (← size name) = 0 then return none
  let size ← Dispatching.size name
  let best ← searchLoop name priority (size - 1).toNat 1 0
  let res ← load name best
  shiftLoop name (size - (best + 1)).toNat (best + 1)
  setSize name (size - 1)
  return res

end Queues

def nextPrio : SchedCode Proc Unit := do
  .access fun s => .ok ((), { s with usedSlot := 0 })
  .access fun s => .ok ((), { s with curPrio := ⟨(s.curPrio + 1) % maxPrio, Nat.mod_lt _ (by decide)⟩ })

variable (pr : Priorities Proc)

/-- The loop of `get_mlq_proc`, with `MAX_PRIO - scanned` rounds left. -/
def scanLevels : Nat → SchedCode Proc (Option Proc)
  | 0 => return none
  | left + 1 => do
    let curPrio ← .access fun s => .ok (s.curPrio, s)
    if (← size (.mlqReadyQueue curPrio)) = 0 then
      nextPrio
      scanLevels left
    else if (← .access fun s => .ok (decide (s.usedSlot < s.slot curPrio), s)) then
      let proc ← dequeue (.mlqReadyQueue curPrio) pr.priority
      .access fun s => .ok ((), { s with usedSlot := s.usedSlot + 1 })
      return proc
    else
      nextPrio
      scanLevels left

def getMlqProc : SchedCode Proc (Option Proc) :=
  .locked do
    let proc ← scanLevels pr maxPrio
    if proc.isNone then .access fun s => .ok ((), { s with usedSlot := 0 })
    return proc

def insert (proc : Proc) : SchedCode Proc Unit :=
  match Sched.level pr proc with
  | .ok prio => enqueue (.mlqReadyQueue prio) (some proc)
  | .error fault => .fail fault

def putMlqProc (proc : Proc) : SchedCode Proc Unit :=
  .locked do
    enqueue .runningList (some proc)
    insert pr proc

def addMlqProc (proc : Proc) : SchedCode Proc Unit := .locked (insert pr proc)

/-- A call of the scheduler, with what `get_proc` returns. -/
def serve : Sched.Request Proc → SchedCode Proc (Option Proc)
  | .add proc => do
    addMlqProc pr proc
    return none
  | .put proc => do
    putMlqProc pr proc
    return none
  | .get => getMlqProc pr

end Dispatching
end LamiaAtrium
