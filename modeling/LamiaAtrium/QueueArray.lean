import LamiaAtrium.Queue

/-! The array below `Queue`: `struct queue_t` with the loops of `queue.c` that search it and
close the gap of a removed entry. What lies behind the entries is whatever was there. -/

namespace LamiaAtrium
variable {Proc : Type}

structure QueueArray (Proc : Type) where
  proc : Nat → Option Proc
  size : Int

namespace QueueArray

def load (q : QueueArray Proc) (index : Int) : Outcome (Option Proc) :=
  if 0 ≤ index ∧ index < maxQueueSize then .ok (q.proc index.toNat) else .error .outOfBounds

def store (q : QueueArray Proc) (index : Int) (value : Option Proc) : Outcome (QueueArray Proc) :=
  if 0 ≤ index ∧ index < maxQueueSize then .ok { q with proc := Function.update q.proc index.toNat value }
  else .error .outOfBounds

/-- `q->proc[index]->priority` -/
def priorityAt (priority : Proc → BitVec 32) (q : QueueArray Proc) (index : Int) : Outcome (BitVec 32) := do
  match ← q.load index with
  | some p => return priority p
  | none => .error .nullDereference

def empty (q : QueueArray Proc) : Bool := q.size == 0

def enqueue (q : QueueArray Proc) (proc : Option Proc) : Outcome (QueueArray Proc) :=
  if proc.isNone || q.size ≥ maxQueueSize then .ok q
  else do
    let size := q.size
    let q ← q.store size proc
    return { q with size := q.size + 1 }

/-- The search of `dequeue` with `left` rounds to go. -/
def searchLoop (priority : Proc → BitVec 32) (q : QueueArray Proc) : Nat → Int → Int → Outcome Int
  | 0, _, best => .ok best
  | left + 1, i, best => do
    let here ← q.priorityAt priority i
    let there ← q.priorityAt priority best
    searchLoop priority q left (i + 1) (if here < there then i else best)

/-- The loop that moves the entries from position `j` on one position down. -/
def shiftLoop : Nat → Int → QueueArray Proc → Outcome (QueueArray Proc)
  | 0, _, q => .ok q
  | left + 1, j, q => do
    let entry ← q.load j
    let q ← q.store (j - 1) entry
    shiftLoop left (j + 1) q

/-- The end of `dequeue` and of `purgequeue`. -/
def removeAt (q : QueueArray Proc) (index : Int) : Outcome (QueueArray Proc) := do
  let q ← shiftLoop (q.size - (index + 1)).toNat (index + 1) q
  return { q with size := q.size - 1 }

def dequeue (priority : Proc → BitVec 32) (q : QueueArray Proc) : Outcome (Option Proc × QueueArray Proc) :=
  if q.empty then .ok (none, q)
  else do
    let best ← q.searchLoop priority (q.size - 1).toNat 1 0
    let res ← q.load best
    let q ← q.removeAt best
    return (res, q)

/-- The loop of `purgequeue` with `left` rounds to go. -/
def purgeLoop [DecidableEq Proc] (q : QueueArray Proc) (proc : Option Proc) : Nat → Int → Outcome (Option Proc × QueueArray Proc)
  | 0, _ => .ok (none, q)
  | left + 1, i => do
    let here ← q.load i
    if here = proc then
      let q ← q.removeAt i
      return (here, q)
    else purgeLoop q proc left (i + 1)

def purgequeue [DecidableEq Proc] (q : QueueArray Proc) (proc : Option Proc) : Outcome (Option Proc × QueueArray Proc) :=
  if q.empty || proc.isNone then .ok (none, q) else q.purgeLoop proc q.size.toNat 0

end QueueArray
end LamiaAtrium
