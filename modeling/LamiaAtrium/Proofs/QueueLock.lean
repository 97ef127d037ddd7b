import LamiaAtrium.Dispatching
import LamiaAtrium.Library.Atomicity
import LamiaAtrium.Proofs.ProcessQueue
import LamiaAtrium.Proofs.Scheduler

/-! `queue_lock` makes the calls of the scheduler atomic: the accesses of a call that is alone
come to what the call does to the queues in one step, and calls on several CPUs come to
such calls one after the other. -/

namespace LamiaAtrium
open Run Locking
variable {Proc : Type}

namespace SchedArrays
variable {a : SchedArrays Proc} {s : Sched Proc} {name : QueueName} {q : QueueArray Proc}

theorem setQueue_queue (a : SchedArrays Proc) (name : QueueName) : a.setQueue name (a.queue name) = a := by
  rw [setQueue, Function.update_eq_self]

theorem queue_setQueue (a : SchedArrays Proc) (name : QueueName) (q : QueueArray Proc) : (a.setQueue name q).queue name = q :=
  Function.update_self ..

theorem queue_other {other : QueueName} (distinct : other ≠ name) (a : SchedArrays Proc) (q : QueueArray Proc) :
    (a.setQueue name q).queue other = a.queue other := Function.update_of_ne distinct ..

theorem setQueue_setQueue (a : SchedArrays Proc) (name : QueueName) (first second : QueueArray Proc) :
    (a.setQueue name first).setQueue name second = a.setQueue name second := by
  rw [setQueue, setQueue, setQueue, Function.update_idem]

/-- The arrays hold the queues of the scheduler. -/
structure Represents (a : SchedArrays Proc) (s : Sched Proc) : Prop where
  runningList : (a.queue .runningList).Represents s.runningList
  levels : ∀ prio, (a.queue (.mlqReadyQueue prio)).Represents (s.mlqReadyQueue prio)
  slot : a.slot = s.slot
  curPrio : a.curPrio = s.curPrio
  usedSlot : a.usedSlot = s.usedSlot

theorem represents_init (proc : QueueName → Nat → Option Proc) : (initScheduler proc).Represents Sched.initScheduler where
  runningList := ⟨rfl, fun _ _ none => by cases none⟩
  levels _ := ⟨rfl, fun _ _ none => by cases none⟩
  slot := rfl
  curPrio := rfl
  usedSlot := rfl

theorem Represents.setLevel (held : a.Represents s) (prio : Fin maxPrio) {entries : Queue Proc} (own : q.Represents entries) :
    (a.setQueue (.mlqReadyQueue prio) q).Represents (s.setLevel prio entries) where
  runningList := by
    rw [queue_other (fun same => by cases same)]
    exact held.runningList
  levels other := by
    by_cases same : other = prio
    · rw [same, queue_setQueue, Sched.setLevel_same]
      exact own
    · rw [queue_other fun equal => same (QueueName.mlqReadyQueue.inj equal), Sched.setLevel]
      change (a.queue _).Represents (Function.update s.mlqReadyQueue prio entries other)
      rw [Function.update_of_ne same]
      exact held.levels other
  slot := held.slot
  curPrio := held.curPrio
  usedSlot := held.usedSlot

theorem Represents.setRunningList (held : a.Represents s) {entries : Queue Proc} (own : q.Represents entries) :
    (a.setQueue .runningList q).Represents { s with runningList := entries } where
  runningList := by
    rw [queue_setQueue]
    exact own
  levels other := by
    rw [queue_other (fun same => by cases same)]
    exact held.levels other
  slot := held.slot
  curPrio := held.curPrio
  usedSlot := held.usedSlot

/-- The pointers to the queues are not in the arrays. -/
theorem Represents.setLinked (held : a.Represents s) (linked : Bool) : a.Represents { s with linked } :=
  ⟨held.runningList, held.levels, held.slot, held.curPrio, held.usedSlot⟩

end SchedArrays

/-- What a call gives back to its CPU. -/
def Sched.Call.answer : Sched.Call Proc → Option Proc
  | .returned proc => proc
  | _ => none

namespace Dispatching
open SchedArrays

section Alone
variable (a : SchedArrays Proc) (name : QueueName) (priority : Proc → BitVec 32)

theorem eval_onQueue (f : QueueArray Proc → Outcome (α × QueueArray Proc)) :
    (onQueue name f).eval (noPools _) a = (f (a.queue name)).map fun (result, q) => (result, a.setQueue name q) :=
  Prog.eval_access ..

theorem eval_size : (size name).eval (noPools _) a = .ok ((a.queue name).size, a) := by
  rw [size, eval_onQueue]
  exact congrArg (fun a => Except.ok (_, a)) (setQueue_queue a name)

theorem eval_setSize (size : Int) :
    (setSize name size).eval (noPools _) a = .ok ((), a.setQueue name { a.queue name with size }) := eval_onQueue ..

/-- A look at the queue leaves it as it is. -/
private theorem eval_look (f : QueueArray Proc → Outcome α) :
    (onQueue name fun q => (f q).map fun result => (result, q)).eval (noPools _) a = (f (a.queue name)).map fun result => (result, a) := by
  rw [eval_onQueue]
  cases f (a.queue name) with
  | error fault => rfl
  | ok result => exact congrArg (fun a => Except.ok (result, a)) (setQueue_queue a name)

theorem eval_load (index : Int) : (load name index).eval (noPools _) a = ((a.queue name).load index).map fun entry => (entry, a) :=
  eval_look a name _

theorem eval_priorityAt (index : Int) :
    (priorityAt name priority index).eval (noPools _) a = ((a.queue name).priorityAt priority index).map fun value => (value, a) :=
  eval_look a name _

theorem eval_store (index : Int) (value : Option Proc) :
    (store name index value).eval (noPools _) a = ((a.queue name).store index value).map fun q => ((), a.setQueue name q) := by
  rw [store, eval_onQueue]
  cases (a.queue name).store index value <;> rfl

theorem eval_searchLoop (left : Nat) (i best : Int) : (searchLoop name priority left i best).eval (noPools _) a =
    ((a.queue name).searchLoop priority left i best).map fun best => (best, a) := by
  induction left generalizing i best with
  | zero => rfl
  | succ left ih =>
    rw [searchLoop, QueueArray.searchLoop]
    have first := eval_priorityAt a name priority i
    have second := eval_priorityAt a name priority best
    cases here : (a.queue name).priorityAt priority i with
    | error fault =>
      rw [here] at first
      exact Prog.eval_bind_error _ _ first
    | ok value =>
      rw [here] at first
      rw [Prog.eval_bind_ok _ _ first, Outcome.bind_ok]
      cases there : (a.queue name).priorityAt priority best with
      | error fault =>
        rw [there] at second
        exact Prog.eval_bind_error _ _ second
      | ok other =>
        rw [there] at second
        rw [Prog.eval_bind_ok _ _ second, Outcome.bind_ok]
        exact ih _ _

theorem eval_shiftLoop (left : Nat) (j : Int) : (shiftLoop name left j).eval (noPools _) a =
    (QueueArray.shiftLoop left j (a.queue name)).map fun q => ((), a.setQueue name q) := by
  induction left generalizing a j with
  | zero => exact congrArg (fun a => Except.ok ((), a)) (setQueue_queue a name).symm
  | succ left ih =>
    rw [shiftLoop, QueueArray.shiftLoop]
    have loads := eval_load a name j
    cases loaded : (a.queue name).load j with
    | error fault =>
      rw [loaded] at loads
      exact Prog.eval_bind_error _ _ loads
    | ok entry =>
      rw [loaded] at loads
      rw [Prog.eval_bind_ok _ _ loads, Outcome.bind_ok]
      have stores := eval_store a name (j - 1) entry
      cases stored : (a.queue name).store (j - 1) entry with
      | error fault =>
        rw [stored] at stores
        exact Prog.eval_bind_error _ _ stores
      | ok q =>
        rw [stored] at stores
        rw [Prog.eval_bind_ok _ _ stores, Outcome.bind_ok, ih, queue_setQueue]
        cases QueueArray.shiftLoop left (j + 1) q with
        | error fault => rfl
        | ok last => exact congrArg (fun a => Except.ok ((), a)) (setQueue_setQueue a name q last)

private theorem shiftLoop_size {left : Nat} {j : Int} {q after : QueueArray Proc} (shifted : QueueArray.shiftLoop left j q = .ok after) :
    after.size = q.size := by
  induction left generalizing j q with
  | zero => cases shifted; rfl
  | succ left ih =>
    obtain ⟨entry, _, shifted⟩ := Outcome.bind_eq_ok shifted
    obtain ⟨next, stored, shifted⟩ := Outcome.bind_eq_ok shifted
    rw [ih shifted]
    unfold QueueArray.store at stored
    split at stored <;> cases stored
    rfl

theorem eval_dequeue : (dequeue name priority).eval (noPools _) a =
    ((a.queue name).dequeue priority).map fun (result, q) => (result, a.setQueue name q) := by
  rw [dequeue, QueueArray.dequeue, QueueArray.empty, Prog.eval_bind_ok _ _ (eval_size a name)]
  by_cases vacant : (a.queue name).size = 0
  · rw [if_pos vacant, vacant]
    exact congrArg (fun a => Except.ok (none, a)) (setQueue_queue a name).symm
  · rw [if_neg vacant, beq_false_of_ne vacant, if_neg Bool.false_ne_true, Prog.eval_bind_ok _ _ (eval_size a name)]
    have searches := eval_searchLoop a name priority ((a.queue name).size - 1).toNat 1 0
    cases searched : (a.queue name).searchLoop priority ((a.queue name).size - 1).toNat 1 0 with
    | error fault =>
      rw [searched] at searches
      exact Prog.eval_bind_error _ _ searches
    | ok best =>
      rw [searched] at searches
      rw [Prog.eval_bind_ok _ _ searches, Outcome.bind_ok]
      have loads := eval_load a name best
      cases loaded : (a.queue name).load best with
      | error fault =>
        rw [loaded] at loads
        exact Prog.eval_bind_error _ _ loads
      | ok res =>
        rw [loaded] at loads
        rw [Prog.eval_bind_ok _ _ loads, Outcome.bind_ok, QueueArray.removeAt]
        have shifts := eval_shiftLoop a name ((a.queue name).size - (best + 1)).toNat (best + 1)
        cases shifted : QueueArray.shiftLoop ((a.queue name).size - (best + 1)).toNat (best + 1) (a.queue name) with
        | error fault =>
          rw [shifted] at shifts
          exact Prog.eval_bind_error _ _ shifts
        | ok q =>
          rw [shifted] at shifts
          rw [Prog.eval_bind_ok _ _ shifts, Prog.eval_bind_ok _ _ (eval_setSize ..), queue_setQueue, setQueue_setQueue,
            ← shiftLoop_size shifted]
          rfl

theorem eval_enqueue (proc : Option Proc) : (enqueue name proc).eval (noPools _) a =
    ((a.queue name).enqueue proc).map fun q => ((), a.setQueue name q) := by
  rw [enqueue, QueueArray.enqueue]
  cases proc with
  | none => exact congrArg (fun a => Except.ok ((), a)) (setQueue_queue a name).symm
  | some p =>
    rw [if_neg (by simp), Prog.eval_bind_ok _ _ (eval_size a name)]
    by_cases full : (a.queue name).size ≥ maxQueueSize
    · rw [if_pos full, if_pos (by simp [full])]
      exact congrArg (fun a => Except.ok ((), a)) (setQueue_queue a name).symm
    · rw [if_neg full, if_neg (by simp [full]), Prog.eval_bind_ok _ _ (eval_size a name)]
      dsimp only
      have stores := eval_store a name (a.queue name).size (some p)
      cases stored : (a.queue name).store (a.queue name).size (some p) with
      | error fault =>
        rw [stored] at stores
        exact Prog.eval_bind_error _ _ stores
      | ok q =>
        rw [stored] at stores
        rw [Outcome.bind_ok]
        have same : q.size = (a.queue name).size := by
          unfold QueueArray.store at stored
          split at stored <;> cases stored
          rfl
        rw [Prog.eval_bind_ok _ _ stores, eval_setSize, queue_setQueue, setQueue_setQueue, same]
        rfl

end Alone

section Calls
variable {a : SchedArrays Proc} {s : Sched Proc} (pr : Priorities Proc)

private theorem eval_nextPrio (held : a.Represents s) :
    ∃ after, (nextPrio : SchedCode Proc Unit).eval (noPools _) a = .ok ((), after) ∧ after.Represents s.nextPrio := by
  refine ⟨{ a with usedSlot := 0, curPrio := ⟨(a.curPrio + 1) % maxPrio, Nat.mod_lt _ (by decide)⟩ }, rfl, ?_⟩
  refine ⟨held.runningList, held.levels, held.slot, ?_, rfl⟩
  dsimp only [Sched.nextPrio]
  rw [held.curPrio]

theorem eval_scanLevels (left : Nat) (held : a.Represents s) : ∃ after,
    (scanLevels pr left).eval (noPools _) a = .ok ((Sched.scanLevels pr left s).1, after) ∧
      after.Represents (Sched.scanLevels pr left s).2 := by
  induction left generalizing a s with
  | zero => exact ⟨a, rfl, held⟩
  | succ left ih =>
    have onward : ∃ after, (nextPrio >>= fun _ => scanLevels pr left).eval (noPools _) a =
        .ok ((Sched.scanLevels pr left s.nextPrio).1, after) ∧ after.Represents (Sched.scanLevels pr left s.nextPrio).2 := by
      obtain ⟨next, moved, still⟩ := eval_nextPrio held
      rw [Prog.eval_bind_ok _ _ moved]
      exact ih still
    have own := held.levels s.curPrio
    have cursor : (Prog.access fun s => .ok (s.curPrio, s) : SchedCode Proc (Fin maxPrio)).eval (noPools _) a = .ok (s.curPrio, a) := by
      rw [← held.curPrio]
      rfl
    have quota : (Prog.access fun after => .ok (decide (after.usedSlot < after.slot s.curPrio), after) : SchedCode Proc Bool).eval (noPools _) a =
        .ok (decide (s.usedSlot < s.slot s.curPrio), a) := by
      rw [← held.usedSlot, ← held.slot]
      rfl
    have vacant : (a.queue (.mlqReadyQueue s.curPrio)).size = 0 ↔ (s.mlqReadyQueue s.curPrio).empty = true := by
      rw [own.size, Queue.empty, Queue.size, beq_iff_eq, Int.natCast_eq_zero]
    rw [scanLevels, Prog.eval_bind_ok _ _ cursor, Prog.eval_bind_ok _ _ (eval_size ..), Sched.scanLevels]
    dsimp only
    by_cases empty : (s.mlqReadyQueue s.curPrio).empty = true
    · rw [if_pos (vacant.mpr empty), if_pos empty]
      exact onward
    · rw [if_neg (mt vacant.mp empty), if_neg empty, Prog.eval_bind_ok _ _ quota]
      by_cases some : s.usedSlot < s.slot s.curPrio
      · rw [decide_eq_true some, if_pos rfl, if_pos some]
        obtain ⟨rest, took, kept⟩ := own.dequeue pr.priority
        have dequeued := eval_dequeue a (.mlqReadyQueue s.curPrio) pr.priority
        rw [took] at dequeued
        rw [Prog.eval_bind_ok _ _ dequeued]
        refine ⟨{ a.setQueue (.mlqReadyQueue s.curPrio) rest with usedSlot := a.usedSlot + 1 }, rfl, ?_⟩
        have levels := held.setLevel s.curPrio kept
        refine ⟨levels.runningList, levels.levels, levels.slot, levels.curPrio, ?_⟩
        dsimp only
        rw [held.usedSlot]
      · rw [decide_eq_false some, if_neg Bool.false_ne_true, if_neg some]
        exact onward

theorem eval_getMlqProc (held : a.Represents s) : ∃ after,
    (getMlqProc pr).eval (noPools _) a = .ok ((Sched.getMlqProc pr s).1, after) ∧ after.Represents (Sched.getMlqProc pr s).2 := by
  obtain ⟨next, scanned, still⟩ := eval_scanLevels pr maxPrio held
  rw [getMlqProc, Prog.eval_locked, Prog.eval_bind_ok _ _ scanned, Sched.getMlqProc]
  cases found : Sched.scanLevels pr maxPrio s with
  | mk proc after =>
    rw [found] at still
    cases proc with
    | none => exact ⟨{ next with usedSlot := 0 }, rfl, still.runningList, still.levels, still.slot, still.curPrio, rfl⟩
    | some proc => exact ⟨next, rfl, still⟩

theorem eval_insert (held : a.Represents s) (proc : Proc) {prio : Fin maxPrio} (own : Sched.level pr proc = .ok prio) : ∃ after,
    (insert pr proc).eval (noPools _) a = .ok ((), after) ∧
      after.Represents (s.setLevel prio ((s.mlqReadyQueue prio).enqueue (some proc))) := by
  obtain ⟨entries, stored, kept⟩ := (held.levels prio).enqueue (some proc)
  have enqueued := eval_enqueue a (.mlqReadyQueue prio) (some proc)
  rw [stored] at enqueued
  rw [insert, own]
  exact ⟨_, enqueued, held.setLevel prio kept⟩

theorem eval_insert_fault (a : SchedArrays Proc) (proc : Proc) {fault : Fault} (missing : Sched.level pr proc = .error fault) :
    (insert pr proc).eval (noPools _) a = .error fault := by
  rw [insert, missing]
  rfl

/-- A call that is alone does what the scheduler does in one step. -/
theorem eval_serve (held : a.Represents s) (request : Sched.Request Proc) {answer : Option Proc} {after : SchedArrays Proc}
    (ran : (serve pr request).eval (noPools _) a = .ok (answer, after)) :
    ∃ call next, Sched.serve pr s request = .ok (call, next) ∧ call.request = request ∧ call.answer = answer ∧ after.Represents next := by
  cases request with
  | get =>
    obtain ⟨next, returned, still⟩ := eval_getMlqProc pr held
    cases returned.symm.trans ran
    exact ⟨_, _, rfl, rfl, rfl, still⟩
  | add proc =>
    cases own : Sched.level pr proc with
    | error fault =>
      have missing : (addMlqProc pr proc).eval (noPools _) a = .error fault := by
        rw [addMlqProc, Prog.eval_locked]
        exact eval_insert_fault pr a proc own
      cases (Prog.eval_bind_error _ _ missing).symm.trans ran
    | ok prio =>
      obtain ⟨next, inserted, still⟩ := eval_insert pr held proc own
      have added : (addMlqProc pr proc).eval (noPools _) a = .ok ((), next) := by
        rw [addMlqProc, Prog.eval_locked]
        exact inserted
      cases (Prog.eval_bind_ok _ _ added).symm.trans ran
      refine ⟨.added proc (s.hasRoom pr proc), _, ?_, rfl, rfl, still.setLinked true⟩
      rw [Sched.serve, Sched.addMlqProc, own]
      rfl
  | put proc =>
    obtain ⟨entries, stored, kept⟩ := held.runningList.enqueue (some proc)
    have listed := eval_enqueue a .runningList (some proc)
    rw [stored] at listed
    have running := held.setRunningList kept
    cases own : Sched.level pr proc with
    | error fault =>
      have missing : (putMlqProc pr proc).eval (noPools _) a = .error fault := by
        rw [putMlqProc, Prog.eval_locked, Prog.eval_bind_ok _ _ listed]
        exact eval_insert_fault pr _ proc own
      cases (Prog.eval_bind_error _ _ missing).symm.trans ran
    | ok prio =>
      obtain ⟨next, inserted, still⟩ := eval_insert pr running proc own
      have put : (putMlqProc pr proc).eval (noPools _) a = .ok ((), next) := by
        rw [putMlqProc, Prog.eval_locked, Prog.eval_bind_ok _ _ listed]
        exact inserted
      cases (Prog.eval_bind_ok _ _ put).symm.trans ran
      refine ⟨.putBack proc (s.hasRoom pr proc), _, ?_, rfl, rfl, still.setLinked true⟩
      rw [Sched.serve, Sched.putMlqProc, own]
      rfl

end Calls

section Sections
variable (name : QueueName) (pr : Priorities Proc)

private theorem onQueue_plain (f : QueueArray Proc → Outcome (α × QueueArray Proc)) : (onQueue name f).Plain := .access _

theorem searchLoop_plain (priority : Proc → BitVec 32) (left : Nat) (i best : Int) : (searchLoop name priority left i best).Plain := by
  induction left generalizing i best with
  | zero => trivial
  | succ left ih => exact .bind (onQueue_plain name _) fun _ => .bind (onQueue_plain name _) fun _ => ih _ _

theorem shiftLoop_plain (left : Nat) (j : Int) : (shiftLoop name left j : SchedCode Proc Unit).Plain := by
  induction left generalizing j with
  | zero => trivial
  | succ left ih => exact .bind (onQueue_plain name _) fun _ => .bind (onQueue_plain name _) fun _ => ih _

theorem dequeue_plain (priority : Proc → BitVec 32) : (dequeue name priority).Plain := by
  refine .bind (onQueue_plain name _) fun size => ?_
  split
  · trivial
  · refine .bind (onQueue_plain name _) fun size => .bind (searchLoop_plain name priority _ _ _) fun best => ?_
    exact .bind (onQueue_plain name _) fun res => .bind (shiftLoop_plain name _ _) fun _ => .bind (onQueue_plain name _) fun _ => trivial

theorem enqueue_plain (proc : Option Proc) : (enqueue name proc).Plain := by
  unfold enqueue
  split
  · trivial
  · refine .bind (onQueue_plain name _) fun size => ?_
    split
    · trivial
    · exact .bind (onQueue_plain name _) fun size => .bind (onQueue_plain name _) fun _ => onQueue_plain name _

theorem nextPrio_plain : (nextPrio : SchedCode Proc Unit).Plain := .bind (.access _) fun _ => .access _

theorem scanLevels_plain (left : Nat) : (scanLevels pr left).Plain := by
  induction left with
  | zero => trivial
  | succ left ih =>
    refine .bind (.access _) fun curPrio => .bind (onQueue_plain _ _) fun size => ?_
    split
    · exact .bind nextPrio_plain fun _ => ih
    · refine .bind (.access _) fun quota => ?_
      split
      · exact .bind (dequeue_plain _ _) fun _ => .bind (.access _) fun _ => trivial
      · exact .bind nextPrio_plain fun _ => ih

theorem insert_plain (proc : Proc) : (insert pr proc).Plain := by
  unfold insert
  split
  · exact enqueue_plain _ _
  · trivial

theorem serve_whole (request : Sched.Request Proc) : (serve pr request).Whole := by
  cases request with
  | add proc => exact (Prog.Whole.locked (insert_plain pr proc)).map fun _ => none
  | put proc => exact (Prog.Whole.locked (.bind (enqueue_plain _ _) fun _ => insert_plain pr proc)).map fun _ => none
  | get =>
    refine .locked (.bind (scanLevels_plain pr _) fun proc => ?_)
    dsimp only
    split
    · exact .bind (.access _) fun _ => trivial
    · trivial

end Sections

section Cpus
variable {Id : Type} [DecidableEq Id]

/-- The CPUs and the loader, where they call the scheduler. -/
abbrev Callers (Id Proc : Type) := Machine Id (SchedArrays Proc) Fault Empty Empty Empty (Option Proc)

abbrev CallerLabel (Id Proc : Type) := Label Id (SchedArrays Proc) Fault Empty Empty Empty (Option Proc)

/-- A step of one of them: an access, or a new call. -/
def CallerStep (pr : Priorities Proc) (m : Callers Id Proc) (label : CallerLabel Id Proc) (after : Callers Id Proc) : Prop :=
  Locking.Move (noPools _) m label after ∧ ∀ id prog, label = .started id prog → ∃ request, prog = serve pr request

/-- A call that had its turn. -/
structure CallTurn (Id Proc : Type) where
  id : Id
  call : Sched.Call Proc

def CallTurn.code (pr : Priorities Proc) (turn : CallTurn Id Proc) : Turn Id (SchedArrays Proc) Fault Empty Empty Empty (Option Proc) where
  id := turn.id
  prog := serve pr turn.call.request
  result := turn.call.answer

variable {pr : Priorities Proc} {s : Sched Proc} {first middle last : Callers Id Proc} {labels earlier later : List (CallerLabel Id Proc)}

theorem CallerStep.whole {m after : Callers Id Proc} {label : CallerLabel Id Proc} (taken : CallerStep pr m label after) :
    WholeMove (noPools _) m label after := by
  refine ⟨taken.1, fun id prog started => ?_⟩
  obtain ⟨request, rfl⟩ := taken.2 id prog started
  exact serve_whole pr request

theorem CallerStep.calls (run : Steps (CallerStep pr) first labels last) {id : Id} {prog : SchedCode Proc (Option Proc)}
    (member : prog ∈ startedBy id labels) : ∃ request, prog = serve pr request := by
  refine run.history (fun labels _ => ∀ prog ∈ startedBy id labels, ∃ request, prog = serve pr request) (fun _ none => by cases none) ?_
    prog member
  intro labels before label after kept taken prog member
  cases label with
  | started other begun =>
    by_cases mine : other = id
    · rw [mine, startedBy_own] at member
      rcases List.mem_append.mp member with earlier | own
      · exact kept prog earlier
      · rw [List.mem_singleton.mp own]
        exact taken.2 other begun rfl
    · rw [startedBy_silent fun _ same => mine (Label.started.inj same).1] at member
      exact kept prog member
  | _ =>
    rw [startedBy_silent fun _ same => by cases same] at member
    exact kept prog member

omit [DecidableEq Id] in
/-- Turns of calls are a run of the scheduler. -/
theorem CallTurn.of_turns {turns : List (Turn Id (SchedArrays Proc) Fault Empty Empty Empty (Option Proc))} {a after : SchedArrays Proc}
    (ran : Steps (Turn.Runs (noPools _)) a turns after) (held : a.Represents s)
    (calls : ∀ turn ∈ turns, ∃ request, turn.prog = serve pr request) :
    ∃ (own : List (CallTurn Id Proc)) (next : Sched Proc), own.map (CallTurn.code pr) = turns ∧
      Steps (Sched.Step pr) s (own.map CallTurn.call) next ∧ after.Represents next := by
  induction ran with
  | refl => exact ⟨[], s, rfl, .refl _, held⟩
  | @tail middle after turns turn upto taken ih =>
    obtain ⟨own, next, same, run, held⟩ := ih fun other member => calls other (List.mem_append_left _ member)
    obtain ⟨request, begun⟩ := calls turn (List.mem_append_right _ (List.mem_singleton.mpr rfl))
    have alone : (serve pr request).eval (noPools _) middle = .ok (turn.result, after) := begun ▸ taken
    obtain ⟨call, last, served, requested, answered, still⟩ := eval_serve pr held request alone
    refine ⟨own ++ [⟨turn.id, call⟩], last, ?_, ?_, still⟩
    · rw [List.map_append, List.map_singleton, same, CallTurn.code, requested, answered, ← begun]
    · rw [List.map_append]
      exact run.tail ⟨request, served⟩

/-- Whatever the interleaving of their accesses: while `queue_lock` is free the arrays hold the
queues that the calls make one after the other, each with the result its CPU got and each CPU
in its own order; and what had its turn before some moment stands before what started later. -/
theorem scheduler_calls_are_atomic (idle : Idle first) (held : first.state.Represents s)
    (run : Steps (CallerStep pr) first earlier middle) (rest : Steps (CallerStep pr) middle later last) (free : last.holder = none) :
    ∃ (before after : List (CallTurn Id Proc)) (next : Sched Proc),
      Steps (Sched.Step pr) s ((before ++ after).map CallTurn.call) next ∧ last.state.Represents next ∧
      (∀ id, Accounted (before.map (CallTurn.code pr)) earlier middle id) ∧
      ∀ id, Accounted ((before ++ after).map (CallTurn.code pr)) (earlier ++ later) last id := by
  obtain ⟨before, after, ran, accounted, all⟩ := serializable idle (run.mono fun _ _ _ => CallerStep.whole)
    (rest.mono fun _ _ _ => CallerStep.whole) free
  obtain ⟨own, next, same, calls, still⟩ := CallTurn.of_turns ran held fun turn member =>
    CallerStep.calls (run.trans rest) (Accounted.started (all turn.id) member)
  obtain ⟨ownBefore, ownAfter, rfl, sameBefore, sameAfter⟩ := List.map_eq_append_iff.mp same
  refine ⟨ownBefore, ownAfter, next, calls, still, fun id => ?_, fun id => ?_⟩
  · rw [sameBefore]
    exact accounted id
  · rw [same]
    exact all id

/-- The loader and one CPU, before their first calls. -/
def callers : Callers Bool Nat where
  state := .initScheduler fun _ _ => none
  holder := none
  threads := fun _ => none

/-- One adds process 3 while the other waits for the lock. -/
theorem scheduler_calls_are_atomic_callers : ∃ (turns : List (CallTurn Bool Nat)) (last : Callers Bool Nat) (next : Sched Nat),
    Steps (Sched.Step Sched.oneLevel) Sched.initScheduler (turns.map CallTurn.call) next ∧ last.state.Represents next ∧
    (last.state.queue (.mlqReadyQueue ⟨0, by decide⟩)).size = 1 := by
  have started (m : Callers Bool Nat) (id : Bool) (request : Sched.Request Nat) (resting : m.threads id = none) :
      CallerStep Sched.oneLevel m (.started id (serve Sched.oneLevel request)) (m.setThread id (some (serve Sched.oneLevel request, []))) :=
    ⟨.start id _ resting, fun _ _ same => by cases same; exact ⟨request, rfl⟩⟩
  have advanced {m after : Callers Bool Nat} (moved : m.advance (noPools _) false = some (.silent, after)) :
      CallerStep Sched.oneLevel m .silent after := ⟨.advance false moved, fun _ _ same => by cases same⟩
  let waiting : Callers Bool Nat := (callers.setThread false (some (serve Sched.oneLevel (.add 3), []))).setThread true
    (some (serve Sched.oneLevel .get, []))
  have run : Steps (CallerStep Sched.oneLevel) callers _ waiting := .tail (.single (started callers false (.add 3) rfl)) (started _ true .get rfl)
  have rest : ∃ last, Steps (CallerStep Sched.oneLevel) waiting (List.replicate 6 .silent) last ∧ last.holder = none ∧
      (last.state.queue (.mlqReadyQueue ⟨0, by decide⟩)).size = 1 :=
    ⟨_, .cons (advanced rfl) (.cons (advanced rfl) (.cons (advanced rfl) (.cons (advanced rfl) (.cons (advanced rfl)
      (.single (advanced rfl)))))), rfl, rfl⟩
  obtain ⟨last, rest, free, size⟩ := rest
  obtain ⟨before, after, next, calls, held, _⟩ := scheduler_calls_are_atomic ⟨rfl, fun _ => rfl⟩ (SchedArrays.represents_init _) run rest free
  exact ⟨before ++ after, last, next, calls, held, size⟩

end Cpus

end Dispatching
end LamiaAtrium
