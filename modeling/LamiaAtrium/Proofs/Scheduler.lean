import LamiaAtrium.Sched
import LamiaAtrium.Library.Run
import LamiaAtrium.Library.Tally
import Mathlib.Data.List.Count

/-! What the scheduler keeps: every call moves at most one process, and the queued
processes are those whose insertion found room and that no call has returned since. -/

namespace LamiaAtrium
open Run
variable {Proc : Type}

namespace Sched
variable {pr : Priorities Proc} {s after : Sched Proc} {p : Proc} {call : Call Proc} {result : Option Proc}

namespace Call

/-- The call put a process into its level that satisfies `f`. -/
def inserts (f : Proc → Bool) : Call Proc → Bool
  | .added proc room | .putBack proc room => room && f proc
  | .returned _ => false

def removes (f : Proc → Bool) : Call Proc → Bool
  | .returned (some proc) => f proc
  | _ => false

end Call

/-- The number of entries of all levels that satisfy `f`. -/
def queued (s : Sched Proc) (f : Proc → Bool) : Nat := Tally.total (fun q => q.procs.countP f) s.mlqReadyQueue

/-- Everything but the levels, the cursor and the pointers to the queues. -/
structure Frame (before after : Sched Proc) : Prop where
  readyQueue : after.readyQueue = before.readyQueue
  runningList : after.runningList = before.runningList
  slot : after.slot = before.slot
  linked : after.linked = before.linked

inductive Taken (before : Sched Proc) : Option Proc → Sched Proc → Prop where
  | nothing {after : Sched Proc} : after.mlqReadyQueue = before.mlqReadyQueue → Taken before none after
  | entry {after : Sched Proc} (p : Proc) (level : Fin maxPrio) (rest : Queue Proc) :
      (before.mlqReadyQueue level).procs.Perm (p :: rest.procs) →
      after.mlqReadyQueue = Function.update before.mlqReadyQueue level rest → Taken before (some p) after

private theorem scanLevels_taken {left : Nat} (scanned : scanLevels pr left s = (result, after)) :
    Frame s after ∧ Taken s result after := by
  induction left generalizing s with
  | zero => cases scanned; exact ⟨⟨rfl, rfl, rfl, rfl⟩, .nothing rfl⟩
  | succ left ih =>
    have onward (scanned : scanLevels pr left s.nextPrio = (result, after)) : Frame s after ∧ Taken s result after := by
      obtain ⟨frame, taken⟩ := ih scanned
      refine ⟨⟨frame.readyQueue, frame.runningList, frame.slot, frame.linked⟩, ?_⟩
      cases taken with
      | nothing same => exact .nothing same
      | entry p level rest split same => exact .entry p level rest split same
    unfold scanLevels at scanned
    dsimp only at scanned
    split at scanned
    · exact onward scanned
    · next occupied =>
      split at scanned
      · cases found : (s.mlqReadyQueue s.curPrio).dequeue pr.priority with
        | mk proc rest =>
          rw [found] at scanned
          cases scanned
          refine ⟨⟨rfl, rfl, rfl, rfl⟩, ?_⟩
          cases proc with
          | none =>
            have vacant := (Queue.dequeue_none (s.mlqReadyQueue s.curPrio)).mp (congrArg Prod.fst found)
            simp [Queue.empty, Queue.size, vacant] at occupied
          | some p => exact .entry p s.curPrio rest (Queue.dequeue_perm found) rfl
      · exact onward scanned

theorem getMlqProc_taken (returned : getMlqProc pr s = (result, after)) : Frame s after ∧ Taken s result after := by
  unfold getMlqProc at returned
  split at returned
  · next scanned =>
    obtain ⟨frame, taken⟩ := scanLevels_taken scanned
    cases returned
    refine ⟨⟨frame.readyQueue, frame.runningList, frame.slot, frame.linked⟩, ?_⟩
    cases taken with
    | nothing same => exact .nothing same
  · next scanned =>
    cases returned
    exact scanLevels_taken scanned

/-- Appending `p` at its own level, with the running list as it is or one longer. -/
structure Inserted (pr : Priorities Proc) (before : Sched Proc) (p : Proc) (room : Bool) (after : Sched Proc) : Prop where
  level : ∃ level, Sched.level pr p = .ok level ∧ room = !(before.mlqReadyQueue level).full ∧
    after.mlqReadyQueue = Function.update before.mlqReadyQueue level ((before.mlqReadyQueue level).enqueue (some p))
  readyQueue : after.readyQueue = before.readyQueue
  slot : after.slot = before.slot
  linked : after.linked = true

private theorem addMlqProc_inserted (returned : addMlqProc pr s p = .ok after) :
    Inserted pr s p (s.hasRoom pr p) after ∧ after.runningList = s.runningList := by
  obtain ⟨level, own, returned⟩ := Outcome.bind_eq_ok returned
  cases returned
  exact ⟨⟨⟨level, own, by rw [hasRoom, own], rfl⟩, rfl, rfl, rfl⟩, rfl⟩

private theorem putMlqProc_inserted (returned : putMlqProc pr s p = .ok after) :
    Inserted pr s p (s.hasRoom pr p) after ∧ after.runningList = s.runningList.enqueue (some p) := by
  obtain ⟨level, own, returned⟩ := Outcome.bind_eq_ok returned
  cases returned
  exact ⟨⟨⟨level, own, by rw [hasRoom, own], rfl⟩, rfl, rfl, rfl⟩, rfl⟩

/-- What one call does, guards included. -/
inductive Served (pr : Priorities Proc) (before : Sched Proc) : Call Proc → Sched Proc → Prop where
  | added {after : Sched Proc} {p : Proc} {room : Bool} : Inserted pr before p room after →
      after.runningList = before.runningList → Served pr before (.added p room) after
  | putBack {after : Sched Proc} {p : Proc} {room : Bool} : Inserted pr before p room after →
      after.runningList = before.runningList.enqueue (some p) → Served pr before (.putBack p room) after
  | returned {after : Sched Proc} {result : Option Proc} : Frame before after → Taken before result after →
      Served pr before (.returned result) after

theorem Step.served (taken : Step pr s call after) : Served pr s call after := by
  obtain ⟨request, returned⟩ := taken
  cases request with
  | add p =>
    obtain ⟨level, inserted, returned⟩ := Outcome.bind_eq_ok returned
    cases returned
    exact .added (addMlqProc_inserted inserted).1 (addMlqProc_inserted inserted).2
  | put p =>
    obtain ⟨level, inserted, returned⟩ := Outcome.bind_eq_ok returned
    cases returned
    exact .putBack (putMlqProc_inserted inserted).1 (putMlqProc_inserted inserted).2
  | get =>
    cases returned
    exact .returned (getMlqProc_taken rfl).1 (getMlqProc_taken rfl).2

private theorem countP_of_perm {entries rest : List Proc} (split : entries.Perm (p :: rest)) (f : Proc → Bool) :
    entries.countP f = rest.countP f + (f p).toNat := by
  rw [split.countP_eq f, List.countP_cons]
  cases f p <;> rfl

/-- The balance of one call: what was queued and came in is what is queued now and went out. -/
theorem Served.queued (served : Served pr s call after) (f : Proc → Bool) :
    after.queued f + (call.removes f).toNat = s.queued f + (call.inserts f).toNat := by
  have insertion {p : Proc} {room : Bool} (inserted : Inserted pr s p room after) :
      after.queued f = s.queued f + (room && f p).toNat := by
    obtain ⟨level, _, flag, levels⟩ := inserted.level
    have balance := Tally.total_update (fun q => q.procs.countP f) s.mlqReadyQueue level
      ((s.mlqReadyQueue level).enqueue (some p))
    have grown := Queue.countP_enqueue (s.mlqReadyQueue level) p f
    rw [Sched.queued, levels, flag]
    unfold Sched.queued
    omega
  cases served with
  | added inserted _ => exact insertion inserted
  | putBack inserted _ => exact insertion inserted
  | returned _ taken =>
    cases taken with
    | nothing same => rw [Sched.queued, same]; rfl
    | entry p level rest split same =>
      have balance := Tally.total_update (fun q => q.procs.countP f) s.mlqReadyQueue level rest
      have shorter := countP_of_perm split f
      rw [Sched.queued, same]
      change _ + (f p).toNat = s.queued f + 0
      unfold Sched.queued
      omega

theorem Served.keeps (served : Served pr s call after) {level : Fin maxPrio} (member : p ∈ (s.mlqReadyQueue level).procs)
    (kept : call ≠ .returned (some p)) : p ∈ (after.mlqReadyQueue level).procs := by
  have insertion {other : Proc} {room : Bool} (inserted : Inserted pr s other room after) :
      p ∈ (after.mlqReadyQueue level).procs := by
    obtain ⟨own, _, _, levels⟩ := inserted.level
    rw [levels]
    by_cases same : level = own
    · rw [same, Function.update_self]
      exact Queue.mem_enqueue (same ▸ member)
    · rwa [Function.update_of_ne same]
  cases served with
  | added inserted _ => exact insertion inserted
  | putBack inserted _ => exact insertion inserted
  | returned _ taken =>
    cases taken with
    | nothing same => rwa [same]
    | entry other own rest split same =>
      rw [same]
      by_cases here : level = own
      · rw [here, Function.update_self]
        rw [here] at member
        rcases List.mem_cons.mp (split.mem_iff.mp member) with gone | left
        · exact absurd (by rw [gone]) kept
        · exact left
      · rwa [Function.update_of_ne here]

/-- Every queued process is in the level its `prio` names. -/
def AtHome (pr : Priorities Proc) (s : Sched Proc) : Prop :=
  ∀ index, ∀ p ∈ (s.mlqReadyQueue index).procs, level pr p = .ok index

theorem Served.atHome (served : Served pr s call after) (home : AtHome pr s) : AtHome pr after := by
  have insertion {other : Proc} {room : Bool} (inserted : Inserted pr s other room after) : AtHome pr after := by
    obtain ⟨own, named, _, levels⟩ := inserted.level
    intro index p member
    rw [levels] at member
    by_cases same : index = own
    · rw [same, Function.update_self] at member
      rcases Queue.mem_of_mem_enqueue member with old | new
      · rw [same]; exact home own p old
      · rw [same, new, named]
    · rw [Function.update_of_ne same] at member
      exact home index p member
  cases served with
  | added inserted _ => exact insertion inserted
  | putBack inserted _ => exact insertion inserted
  | returned _ taken =>
    cases taken with
    | nothing same => rwa [AtHome, same]
    | entry _ own rest split same =>
      intro index p member
      rw [same] at member
      by_cases here : index = own
      · rw [here, Function.update_self] at member
        rw [here]
        exact home own p (split.mem_iff.mpr (List.mem_cons_of_mem _ member))
      · rw [Function.update_of_ne here] at member
        exact home index p member

section Runs
variable {calls : List (Call Proc)}

private theorem queued_init (f : Proc → Bool) : queued initScheduler f = 0 := Tally.total_eq_zero fun _ => rfl

theorem queued_balance (run : Steps (Step pr) initScheduler calls s) (f : Proc → Bool) :
    s.queued f + calls.countP (Call.removes f) = calls.countP (Call.inserts f) := by
  refine run.history (fun calls s => s.queued f + calls.countP (Call.removes f) = calls.countP (Call.inserts f)) ?_ ?_
  · rw [queued_init]
    rfl
  · intro calls before call after balance taken
    have moved := (Step.served taken).queued f
    have one (g : Call Proc → Bool) : [call].countP g = (g call).toNat := by
      rw [List.countP_singleton]
      cases g call <;> rfl
    rw [List.countP_append, List.countP_append, one, one]
    omega

theorem atHome_of_run (run : Steps (Step pr) initScheduler calls s) : AtHome pr s := by
  refine Steps.invariant run ?_ ?_
  · intro index p member
    cases member
  · exact fun _ _ _ home taken => (Step.served taken).atHome home

def putBacks (calls : List (Call Proc)) : List Proc :=
  calls.filterMap fun call =>
    match call with
    | .putBack proc _ => some proc
    | _ => none

/-- The running list is never shortened: it holds the first 50 processes put back. -/
theorem runningList_of_run (run : Steps (Step pr) initScheduler calls s) :
    s.runningList.procs = (putBacks calls).take maxQueueSize ∧ s.readyQueue.procs = [] := by
  refine run.history (fun calls s => s.runningList.procs = (putBacks calls).take maxQueueSize ∧ s.readyQueue.procs = []) ⟨rfl, rfl⟩ ?_
  rintro calls before call after ⟨running, ready⟩ taken
  rw [putBacks, List.filterMap_append, ← putBacks]
  cases Step.served taken with
  | added inserted same =>
    rw [same, running, inserted.readyQueue]
    exact ⟨by simp, ready⟩
  | putBack inserted longer =>
    rw [longer, Queue.enqueue_procs, running, Queue.take_append_take, inserted.readyQueue]
    exact ⟨rfl, ready⟩
  | returned frame _ =>
    rw [frame.runningList, running, frame.readyQueue]
    exact ⟨by simp, ready⟩

/-- The queues are linked to `krnl_t` before the first process is taken from them. -/
theorem linked_of_returned (run : Steps (Step pr) initScheduler calls s) (taken : .returned (some p) ∈ calls) :
    s.linked = true := by
  have unused : s.linked = false → s.queued (fun _ => true) = 0 ∧ ∀ p, .returned (some p) ∉ calls := by
    refine run.history (fun calls s => s.linked = false → s.queued (fun _ => true) = 0 ∧ ∀ p, .returned (some p) ∉ calls) ?_ ?_
    · exact fun _ => ⟨queued_init _, fun _ => List.not_mem_nil⟩
    · intro calls before call after earlier taken unlinked
      have moved := (Step.served taken).queued (fun _ => true)
      cases Step.served taken with
      | added inserted _ => cases unlinked.symm.trans inserted.linked
      | putBack inserted _ => cases unlinked.symm.trans inserted.linked
      | returned frame _ =>
        obtain ⟨vacant, none⟩ := earlier (frame.linked ▸ unlinked)
        rw [vacant] at moved
        refine ⟨Nat.eq_zero_of_add_eq_zero_right moved, fun p member => ?_⟩
        rcases List.mem_append.mp member with old | new
        · exact none p old
        · rw [List.mem_singleton] at new
          cases new
          simp [Call.removes, Call.inserts] at moved
  cases linked : s.linked with
  | true => rfl
  | false => exact absurd taken ((unused linked).2 p)

def ofLevel (pr : Priorities Proc) (index : Fin maxPrio) (p : Proc) : Bool := (pr.prio p).toNat == index.val

theorem level_eq_ok {index : Fin maxPrio} : level pr p = .ok index ↔ ofLevel pr index p = true := by
  unfold level ofLevel
  split
  · simp [Fin.ext_iff]
  · next outside =>
    have bound := index.isLt
    simp
    omega

/-- In a state where every entry is at home, the size of a level counts its processes. -/
theorem AtHome.queued_level (home : AtHome pr s) (index : Fin maxPrio) :
    s.queued (ofLevel pr index) = (s.mlqReadyQueue index).procs.length := by
  rw [queued, Tally.total_single index]
  · exact List.countP_eq_length.mpr fun p member => level_eq_ok.mp (home index p member)
  · intro other distinct
    refine List.countP_eq_zero.mpr fun p member elsewhere => distinct ?_
    have own := (home other p member).symm.trans (level_eq_ok.mpr elsewhere)
    exact Except.ok.inj own

/-- Both insertions ask the same level, and only a level with 50 entries turns a process
away. -/
private theorem room_iff {room : Bool} (run : Steps (Step pr) initScheduler calls s) (inserted : Inserted pr s p room after) :
    ∃ index, level pr p = .ok index ∧ (room = false ↔
      calls.countP (Call.inserts (ofLevel pr index)) = calls.countP (Call.removes (ofLevel pr index)) + maxQueueSize) := by
  obtain ⟨index, own, flag, _⟩ := inserted.level
  refine ⟨index, own, ?_⟩
  rw [flag, Bool.not_eq_false', Queue.full_iff, ← (atHome_of_run run).queued_level index, ← queued_balance run]
  omega

private theorem present_after {later : List (Call Proc)} {level : Fin maxPrio} (run : Steps (Step pr) s later after)
    (member : p ∈ (s.mlqReadyQueue level).procs) (kept : .returned (some p) ∉ later) : p ∈ (after.mlqReadyQueue level).procs := by
  refine run.history (fun later after => .returned (some p) ∉ later → p ∈ (after.mlqReadyQueue level).procs) ?_ ?_ kept
  · exact fun _ => member
  · intro later before call after still taken kept
    rw [List.mem_append, not_or, List.mem_singleton] at kept
    exact (Step.served taken).keeps (still kept.1) (Ne.symm kept.2)

private theorem present_after_insertion (inserted : Inserted pr s p true after) :
    ∃ index, level pr p = .ok index ∧ p ∈ (after.mlqReadyQueue index).procs := by
  obtain ⟨index, own, flag, levels⟩ := inserted.level
  refine ⟨index, own, ?_⟩
  have room : (s.mlqReadyQueue index).full = false := by rw [← Bool.not_eq_true', ← flag]
  rw [levels, Function.update_self, Queue.enqueue_of_room room]
  exact List.mem_append_right _ (List.mem_singleton_self p)

theorem serve_request {request : Request Proc} (served : serve pr s request = .ok (call, after)) : call.request = request := by
  cases request with
  | add p =>
    obtain ⟨level, _, returned⟩ := Outcome.bind_eq_ok served
    cases returned
    rfl
  | put p =>
    obtain ⟨level, _, returned⟩ := Outcome.bind_eq_ok served
    cases returned
    rfl
  | get =>
    cases served
    rfl

theorem serve_valid (valid : ∀ p, (pr.prio p).toNat < maxPrio) (s : Sched Proc) (request : Request Proc) :
    ∃ call after, serve pr s request = .ok (call, after) ∧ call.request = request := by
  have own (p : Proc) : level pr p = .ok ⟨_, valid p⟩ := dif_pos (valid p)
  cases request with
  | add p => exact ⟨_, _, by rw [serve, addMlqProc, own]; rfl, rfl⟩
  | put p => exact ⟨_, _, by rw [serve, putMlqProc, own]; rfl, rfl⟩
  | get => exact ⟨_, _, rfl, rfl⟩

theorem serveAll_valid (valid : ∀ p, (pr.prio p).toNat < maxPrio) (s : Sched Proc) (requests : List (Request Proc)) :
    ∃ calls after, serveAll pr s requests = .ok (calls, after) ∧ calls.map Call.request = requests ∧
      Steps (Step pr) s calls after := by
  induction requests generalizing s with
  | nil => exact ⟨[], s, rfl, rfl, .refl s⟩
  | cons request requests ih =>
    obtain ⟨call, middle, served, asked⟩ := serve_valid valid s request
    obtain ⟨calls, after, rest, asks, run⟩ := ih middle
    refine ⟨call :: calls, after, ?_, by rw [List.map_cons, asked, asks], run.cons ⟨request, served⟩⟩
    rw [serveAll, served, Outcome.bind_ok]
    dsimp only
    rw [rest]
    rfl

/-- The scheduler as an accounting of its calls. Queued and returned processes together
are the inserted ones, for every choice `f` of processes to count. An entry waits in
its own level until it is returned. The only insertions that have no effect on the levels
are those into a level that holds 50 entries. -/
theorem queued_processes_accounted (pr : Priorities Proc) (valid : ∀ p, (pr.prio p).toNat < maxPrio)
    (requests : List (Request Proc)) :
    ∃ calls s, serveAll pr initScheduler requests = .ok (calls, s) ∧ calls.map Call.request = requests ∧
      (∀ f, s.queued f + calls.countP (Call.removes f) = calls.countP (Call.inserts f)) ∧
      AtHome pr s ∧
      ∀ earlier call later, calls = earlier ++ call :: later → ∀ p room, call = .added p room ∨ call = .putBack p room →
        ∃ index, level pr p = .ok index ∧
          (room = true → .returned (some p) ∉ later → p ∈ (s.mlqReadyQueue index).procs) ∧
          (room = false ↔ earlier.countP (Call.inserts (ofLevel pr index)) =
            earlier.countP (Call.removes (ofLevel pr index)) + maxQueueSize) := by
  obtain ⟨calls, s, served, asked, run⟩ := serveAll_valid valid initScheduler requests
  refine ⟨calls, s, served, asked, queued_balance run, atHome_of_run run, ?_⟩
  intro earlier call later cut p room insertion
  obtain ⟨before, after, upto, taken, rest⟩ := Steps.step_at (cut ▸ run)
  have inserted : Inserted pr before p room after := by
    rcases insertion with rfl | rfl
    · cases Step.served taken with
      | added inserted _ => exact inserted
    · cases Step.served taken with
      | putBack inserted _ => exact inserted
  obtain ⟨index, own, refused⟩ := room_iff upto inserted
  refine ⟨index, own, ?_, refused⟩
  rintro rfl kept
  obtain ⟨same, named, member⟩ := present_after_insertion inserted
  cases own.symm.trans named
  exact present_after rest member kept

def oneLevel : Priorities Nat where
  priority := fun _ => 0
  prio := fun _ => 0

private theorem oneLevel_own (p : Nat) : level oneLevel p = .ok ⟨0, by decide⟩ := rfl

theorem queued_processes_accounted_oneLevel : ∃ calls s, serveAll oneLevel initScheduler [.add 3, .get, .put 3] = .ok (calls, s) ∧
    calls.map Call.request = [.add 3, .get, .put 3] ∧
    s.queued (· == 3) + calls.countP (Call.removes (· == 3)) = calls.countP (Call.inserts (· == 3)) := by
  obtain ⟨calls, s, served, asked, balance, _⟩ := queued_processes_accounted oneLevel (fun _ => Nat.zero_lt_succ 139) [.add 3, .get, .put 3]
  exact ⟨calls, s, served, asked, balance _⟩

/-- Added processes queue up to 50 in a level; the others are gone. -/
private theorem serveAll_add (index : Fin maxPrio) (own : ∀ p, level pr p = .ok index) (ps : List Proc) (s : Sched Proc) :
    ∃ calls after, serveAll pr s (ps.map .add) = .ok (calls, after) ∧ Steps (Step pr) s calls after ∧
      (after.mlqReadyQueue index).procs = ((s.mlqReadyQueue index).procs ++ ps).take maxQueueSize := by
  induction ps generalizing s with
  | nil =>
    refine ⟨[], s, rfl, .refl s, ?_⟩
    rw [List.append_nil, List.take_of_length_le (s.mlqReadyQueue index).size_le]
  | cons p ps ih =>
    have served : serve pr s (.add p) = .ok (.added p (s.hasRoom pr p),
        setLevel { s with linked := true } index ((s.mlqReadyQueue index).enqueue (some p))) := by
      rw [serve, addMlqProc, own]
      rfl
    obtain ⟨calls, after, rest, run, level⟩ := ih (setLevel { s with linked := true } index ((s.mlqReadyQueue index).enqueue (some p)))
    refine ⟨_ :: calls, after, ?_, run.cons ⟨_, served⟩, ?_⟩
    · rw [List.map_cons, serveAll, served, Outcome.bind_ok]
      dsimp only
      rw [rest]
      rfl
    · rw [level, setLevel_same, Queue.enqueue_procs, Queue.take_append_take, ← List.append_cons]

/-- Fifty-one processes of one priority are added and none is taken: the last is in no
level. -/
theorem fifty_first_process_dropped : ∃ calls s,
    serveAll oneLevel initScheduler ((List.range 51).map .add) = .ok (calls, s) ∧
    (∀ index, 50 ∉ (s.mlqReadyQueue index).procs) ∧ s.queued (fun _ => true) = 50 := by
  obtain ⟨calls, s, served, run, level⟩ := serveAll_add ⟨0, by decide⟩ oneLevel_own (List.range 51) initScheduler
  have home := atHome_of_run run
  have entries : (s.mlqReadyQueue ⟨0, by decide⟩).procs = List.range 50 := level
  refine ⟨calls, s, served, ?_, ?_⟩
  · intro index member
    cases (home index 50 member).symm.trans (oneLevel_own 50)
    rw [entries] at member
    exact absurd (List.mem_range.mp member) (by decide)
  · have counted := home.queued_level ⟨0, by decide⟩
    rw [entries, List.length_range] at counted
    exact counted

end Runs
end Sched
end LamiaAtrium
