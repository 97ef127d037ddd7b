import LamiaAtrium.Machine
import Mathlib.Logic.Function.Basic

/-! The timer of `timer.c` with the devices attached to it. A section between lock and
unlock is one step; `pthread_cond_wait` ends a section and its return begins another one,
which tests the flags again. `attach_event` hands out nothing once the timer is started, so
the list of devices stays as it is; device `k` is the `k`-th of `dev_list`. -/

namespace LamiaAtrium

structure TimerId where
  done : Bool
  fsh : Bool
  deriving DecidableEq, Repr

/-- Where a device is: outside of `next_slot`, in it with `done` set, or in it and asleep on
`timer_cond`. -/
inductive DevicePoint where
  | working
  | called
  | asleep
  deriving DecidableEq, Repr

/-- Where `timer_routine` is, with the position in `dev_list` and its counts `fsh` and
`event`. -/
inductive Routine where
  | head
  | collect (k fsh event : Nat)
  /-- Asleep on `event_cond` of device `k`. -/
  | wait (k fsh event : Nat)
  | tick (fsh event : Nat)
  | release (k fsh event : Nat)
  | exited
  deriving DecidableEq, Repr

structure Timer (n : Nat) where
  devList : Fin n → TimerId
  point : Fin n → DevicePoint
  routine : Routine
  time : BitVec 64
  timerStop : Bool

inductive TimerEvent (n : Nat) where
  | silent
  | called (d : Fin n)
  | returned (d : Fin n)
  | detached (d : Fin n)
  | released (d : Fin n)
  | tick
  deriving DecidableEq, Repr

/-- Who takes the next step. -/
inductive TimerAct (n : Nat) where
  | routine
  | nextSlot (d : Fin n)
  | resume (d : Fin n)
  | detachEvent (d : Fin n)
  | stopTimer
  deriving DecidableEq, Repr

/-- `pthread_cond_signal` on `event_cond` of device `k`. -/
def Routine.signal (k : Nat) : Routine → Routine
  | .wait j fsh event => if j = k then .collect j fsh event else .wait j fsh event
  | routine => routine

/-- `pthread_cond_signal` on `timer_cond` of the device. -/
def DevicePoint.signal : DevicePoint → DevicePoint
  | .asleep => .called
  | point => point

namespace Timer
variable {n : Nat} (t : Timer n)

def setDevice (d : Fin n) (id : TimerId) (point : DevicePoint) : Timer n :=
  { t with devList := Function.update t.devList d id, point := Function.update t.point d point }

def timerRoutine : TimerEvent n × Timer n :=
  match t.routine with
  | .head => (.silent, { t with routine := if t.timerStop then .exited else .collect 0 0 0 })
  | .collect k fsh event =>
    if inside : k < n then
      let id := t.devList ⟨k, inside⟩
      if !id.done && !id.fsh then (.silent, { t with routine := .wait k fsh event })
      else (.silent, { t with routine := .collect (k + 1) (if id.fsh then fsh + 1 else fsh) (event + 1) })
    else (.silent, { t with routine := .tick fsh event })
  | .wait k fsh event =>
    -- a wake-up without a signal
    (.silent, { t with routine := .collect k fsh event })
  | .tick fsh event => (.tick, { t with time := t.time + 1, routine := .release 0 fsh event })
  | .release k fsh event =>
    if inside : k < n then
      let d : Fin n := ⟨k, inside⟩
      (.released d, { t.setDevice d { t.devList d with done := false } (t.point d).signal with routine := .release (k + 1) fsh event })
    else (.silent, { t with routine := if fsh = event then .exited else .head })
  | .exited => (.silent, t)

/-- The first section of `next_slot`. -/
def nextSlot (d : Fin n) : TimerEvent n × Timer n :=
  match t.point d with
  | .working =>
    (.called d, { t.setDevice d { t.devList d with done := true } .called with routine := t.routine.signal d })
  | _ => (.silent, t)

/-- The test of `done` in the second section, or a wake-up without a signal. -/
def resume (d : Fin n) : TimerEvent n × Timer n :=
  match t.point d with
  | .working => (.silent, t)
  | .called =>
    if (t.devList d).done then (.silent, t.setDevice d (t.devList d) .asleep)
    else (.returned d, t.setDevice d (t.devList d) .working)
  | .asleep => (.silent, t.setDevice d (t.devList d) .called)

def detachEvent (d : Fin n) : TimerEvent n × Timer n :=
  match t.point d with
  | .working =>
    (.detached d, { t.setDevice d { t.devList d with fsh := true } .working with routine := t.routine.signal d })
  | _ => (.silent, t)

def stopTimer : TimerEvent n × Timer n := (.silent, { t with timerStop := true })

def perform : TimerAct n → TimerEvent n × Timer n
  | .routine => t.timerRoutine
  | .nextSlot d => t.nextSlot d
  | .resume d => t.resume d
  | .detachEvent d => t.detachEvent d
  | .stopTimer => t.stopTimer

def Step (before : Timer n) (event : TimerEvent n) (after : Timer n) : Prop :=
  ∃ act, before.perform act = (event, after)

/-- `start_timer` with `n` devices attached. -/
def start (n : Nat) : Timer n where
  devList := fun _ => { done := false, fsh := false }
  point := fun _ => .working
  routine := .head
  time := 0
  timerStop := false

end Timer
end LamiaAtrium
