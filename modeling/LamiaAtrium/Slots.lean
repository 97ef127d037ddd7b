import LamiaAtrium.System
import LamiaAtrium.Timer

/-! The threads of `os.c` in the time slots of the timer. A thread that calls `next_slot`
waits for its device; the loader also waits for the start times. Under any interleaving a
step is one of the timer or one of a thread. `stop_timer` comes after the last join and
is left out. -/

namespace LamiaAtrium

structure Clocked (cfg : Config) where
  sys : State cfg.numCpus
  timer : Timer (cfg.numCpus + 1)
  /-- The loader is to pass `next_slot` before it goes on. -/
  loaderWaits : Bool

/-- The CPUs attach in order, then the loader; `attach_event` puts each in front of `dev_list`. -/
def device {n : Nat} : Thread n → Fin (n + 1)
  | .loader => 0
  | .cpu id => id.rev.succ

inductive ClockedAct (n : Nat) where
  | timer
  | thread (thread : Thread n)
  deriving DecidableEq, Repr

/-- What a step does to the processes and to the timer. -/
structure ClockedEvent (n : Nat) where
  sys : Option (Thread n × Event)
  timer : Option (TimerEvent (n + 1))
  deriving DecidableEq, Repr

namespace Clocked
variable {cfg : Config}

/-- The thread is at a call of `next_slot`. -/
def atSlot (m : Clocked cfg) : Thread cfg.numCpus → Bool
  | .loader => m.loaderWaits
  | .cpu id => (m.sys.cpus id).point == .slot || (m.sys.cpus id).point == .skip

/-- The thread is through with its routine, up to `detach_event`. -/
def left (m : Clocked cfg) : Thread cfg.numCpus → Bool
  | .loader => m.sys.loader == .finished
  | .cpu id => (m.sys.cpus id).point == .stopped

/-- `current_time() < start_time[i]` for the process that the loader is about to add. -/
def early (startTime : Nat → BitVec 64) (m : Clocked cfg) : Bool :=
  match m.sys.loader with
  | .add i => decide (m.timer.time < startTime i)
  | _ => false

/-- A thread inside `next_slot`: its two sections, and what the thread goes on with. -/
def slotStep (m : Clocked cfg) (thread : Thread cfg.numCpus) : Outcome (ClockedEvent cfg.numCpus × Clocked cfg) :=
  match m.timer.point (device thread) with
  | .working =>
    let (event, timer) := m.timer.nextSlot (device thread)
    .ok (⟨none, some event⟩, { m with timer })
  | _ =>
    let (event, timer) := m.timer.resume (device thread)
    if event = .returned (device thread) then
      match thread with
      | .loader => .ok (⟨none, some event⟩, { m with timer, loaderWaits := false })
      | .cpu id => do
        let (own, sys) ← cpuStep cfg m.sys id
        return (⟨some (.cpu id, own), some event⟩, { m with timer, sys })
    else .ok (⟨none, some event⟩, { m with timer })

def leaveStep (m : Clocked cfg) (thread : Thread cfg.numCpus) : ClockedEvent cfg.numCpus × Clocked cfg :=
  if (m.timer.devList (device thread)).fsh then (⟨none, none⟩, m)
  else
    let (event, timer) := m.timer.detachEvent (device thread)
    (⟨none, some event⟩, { m with timer })

/-- After `add_proc` the loader calls `next_slot`. -/
def workStep (startTime : Nat → BitVec 64) (m : Clocked cfg) (thread : Thread cfg.numCpus) :
    Outcome (ClockedEvent cfg.numCpus × Clocked cfg) :=
  if thread = .loader ∧ m.early startTime then .ok (⟨none, none⟩, { m with loaderWaits := true })
  else do
    let (own, sys) ← threadStep cfg m.sys thread
    let adds := match thread, m.sys.loader with
      | .loader, .add _ => true
      | _, _ => m.loaderWaits
    return (⟨some (thread, own), none⟩, { m with sys, loaderWaits := adds })

def perform (startTime : Nat → BitVec 64) (m : Clocked cfg) : ClockedAct cfg.numCpus → Outcome (ClockedEvent cfg.numCpus × Clocked cfg)
  | .timer =>
    let (event, timer) := m.timer.timerRoutine
    .ok (⟨none, some event⟩, { m with timer })
  | .thread thread =>
    if m.atSlot thread then m.slotStep thread
    else if m.left thread then .ok (m.leaveStep thread)
    else m.workStep startTime thread

def Step (startTime : Nat → BitVec 64) (before : Clocked cfg) (event : ClockedEvent cfg.numCpus) (after : Clocked cfg) : Prop :=
  ∃ act, before.perform startTime act = .ok (event, after)

/-- The run in which the timer and the threads take their steps in the given order. -/
def performAll (startTime : Nat → BitVec 64) (m : Clocked cfg) :
    List (ClockedAct cfg.numCpus) → Outcome (List (ClockedEvent cfg.numCpus) × Clocked cfg)
  | [] => .ok ([], m)
  | act :: acts => do
    let (event, m) ← m.perform startTime act
    let (events, m) ← performAll startTime m acts
    return (event :: events, m)

/-- `start_timer`, then the threads. -/
def start (cfg : Config) : Clocked cfg where
  sys := boot cfg
  timer := .start (cfg.numCpus + 1)
  loaderWaits := false

end Clocked
end LamiaAtrium
