import LamiaAtrium.Library.RoundRobin
import LamiaAtrium.Proofs.Scheduler

/-! The order between the levels. `get_mlq_proc` is a turn of a wheel over the levels,
with the quotas of `init_scheduler`: how long a level may wait, when a call comes back
with nothing although a process is ready, and when a level goes before a higher one. -/

namespace LamiaAtrium
open Run RoundRobin
variable {Proc : Type}

namespace Sched
variable {pr : Priorities Proc} {s after : Sched Proc} {p : Proc} {call : Call Proc} {calls : List (Call Proc)}
  {result : Option Proc} {served : Fin maxPrio → Nat} {level : Option (Fin maxPrio)}

def busy (s : Sched Proc) (q : Fin maxPrio) : Bool := !(s.mlqReadyQueue q).empty

def wheel (s : Sched Proc) (served : Fin maxPrio → Nat) : Wheel maxPrio := ⟨s.curPrio, s.usedSlot, served⟩

/-- The loop of `get_mlq_proc` once more, for what each level was dispatched since
`cur_prio` last came back to 0. -/
def countDispatches : Nat → Sched Proc → (Fin maxPrio → Nat) → Fin maxPrio → Nat
  | 0, _, served => served
  | left + 1, s, served =>
    let onward := countDispatches left s.nextPrio (if s.curPrio.val + 1 = maxPrio then fun _ => 0 else served)
    if (s.mlqReadyQueue s.curPrio).empty then onward
    else if s.usedSlot < s.slot s.curPrio then Function.update served s.curPrio (served s.curPrio + 1)
    else onward

/-- A process and the level it was dequeued from. -/
inductive Drawn (pr : Priorities Proc) (before : Sched Proc) : Option Proc → Option (Fin maxPrio) → Sched Proc → Prop where
  | nothing {after : Sched Proc} : after.mlqReadyQueue = before.mlqReadyQueue → Drawn pr before none none after
  | entry {after : Sched Proc} (p : Proc) (level : Fin maxPrio) (rest : Queue Proc) :
      (before.mlqReadyQueue level).dequeue pr.priority = (some p, rest) →
      after.mlqReadyQueue = Function.update before.mlqReadyQueue level rest → Drawn pr before (some p) (some level) after

theorem empty_eq_false {q : Queue Proc} : q.empty = false ↔ q.procs ≠ [] := by
  simp [Queue.empty, Queue.size]

theorem nextPrio_wheel (s : Sched Proc) (served : Fin maxPrio → Nat) :
    (s.wheel served).skip 1 = s.nextPrio.wheel (if s.curPrio.val + 1 = maxPrio then fun _ => 0 else served) := by
  have bound := s.curPrio.isLt
  unfold Wheel.skip wheel nextPrio
  congr 1
  dsimp only
  by_cases last : s.curPrio.val + 1 = maxPrio
  · rw [if_pos last, if_neg (by omega)]
  · rw [if_neg last, if_pos (by omega)]

private theorem scanLevels_turn {left : Nat} (scanned : scanLevels pr left s = (result, after)) (served : Fin maxPrio → Nat) :
    ∃ level, turn s.slot s.busy left (s.wheel served) = (level, after.wheel (countDispatches left s served)) ∧
      Drawn pr s result level after := by
  induction left generalizing s served with
  | zero =>
    cases scanned
    exact ⟨none, rfl, .nothing rfl⟩
  | succ left ih =>
    have onward (scanned : scanLevels pr left s.nextPrio = (result, after))
        (idle : ¬(s.busy s.curPrio = true ∧ s.usedSlot < s.slot s.curPrio))
        (counted : countDispatches (left + 1) s served =
          countDispatches left s.nextPrio (if s.curPrio.val + 1 = maxPrio then fun _ => 0 else served)) :
        ∃ level, turn s.slot s.busy (left + 1) (s.wheel served) = (level, after.wheel (countDispatches (left + 1) s served)) ∧
          Drawn pr s result level after := by
      obtain ⟨level, turned, drawn⟩ := ih scanned (if s.curPrio.val + 1 = maxPrio then fun _ => 0 else served)
      refine ⟨level, ?_, ?_⟩
      · rw [turn, if_neg (show ¬(s.busy (s.wheel served).cur = true ∧ (s.wheel served).used < s.slot (s.wheel served).cur) from idle),
          nextPrio_wheel, counted]
        exact turned
      · cases drawn with
        | nothing same => exact .nothing same
        | entry p level rest taken same => exact .entry p level rest taken same
    unfold scanLevels at scanned
    dsimp only at scanned
    cases vacant : (s.mlqReadyQueue s.curPrio).empty with
    | true =>
      rw [vacant, if_pos rfl] at scanned
      apply onward scanned
      · rintro ⟨occupied, _⟩
        simp [busy, vacant] at occupied
      · rw [countDispatches, vacant, if_pos rfl]
    | false =>
      rw [vacant, if_neg Bool.false_ne_true] at scanned
      by_cases quota : s.usedSlot < s.slot s.curPrio
      · rw [if_pos quota] at scanned
        have occupied : s.busy s.curPrio = true := by rw [busy, vacant]; rfl
        cases found : (s.mlqReadyQueue s.curPrio).dequeue pr.priority with
        | mk proc rest =>
          rw [found] at scanned
          cases scanned
          cases proc with
          | none =>
            have missing := (Queue.dequeue_none (s.mlqReadyQueue s.curPrio)).mp (congrArg Prod.fst found)
            exact absurd missing (empty_eq_false.mp vacant)
          | some p =>
            refine ⟨some s.curPrio, ?_, .entry p s.curPrio rest found rfl⟩
            have stays : s.busy (s.wheel served).cur = true ∧ (s.wheel served).used < s.slot (s.wheel served).cur := ⟨occupied, quota⟩
            rw [turn, if_pos stays, countDispatches, vacant, if_neg Bool.false_ne_true, if_pos quota]
            rfl
      · rw [if_neg quota] at scanned
        apply onward scanned
        · rintro ⟨_, left⟩
          exact quota left
        · rw [countDispatches, vacant, if_neg Bool.false_ne_true, if_neg quota]

/-- `get_mlq_proc` refines a turn of the wheel. -/
theorem getMlqProc_turned (positive : ∀ q, 0 < s.slot q) (returned : getMlqProc pr s = (result, after))
    (served : Fin maxPrio → Nat) :
    ∃ level, Turned s.slot s.busy (s.wheel served) level (after.wheel (countDispatches maxPrio s served)) ∧
      Drawn pr s result level after := by
  unfold getMlqProc at returned
  split at returned
  · next idle scanned =>
    obtain ⟨level, taken, drawn⟩ := scanLevels_turn scanned served
    cases returned
    cases drawn with
    | nothing same =>
      have round := turned positive taken
      have reset : idle.usedSlot = 0 := by
        cases w : idle.wheel (countDispatches maxPrio s served)
        rw [w] at round
        cases round with
        | idles _ _ => exact (congrArg Wheel.used w).trans rfl
      refine ⟨none, ?_, .nothing same⟩
      have unchanged : { idle with usedSlot := 0 }.wheel (countDispatches maxPrio s served) =
          idle.wheel (countDispatches maxPrio s served) := by
        unfold wheel
        rw [reset]
      rwa [unchanged]
  · next scanned =>
    cases returned
    obtain ⟨level, taken, drawn⟩ := scanLevels_turn scanned served
    exact ⟨level, turned positive taken, drawn⟩

theorem getMlqProc_drawn (returned : getMlqProc pr s = (result, after)) : ∃ level, Drawn pr s result level after := by
  unfold getMlqProc at returned
  split at returned
  · next scanned =>
    obtain ⟨level, _, drawn⟩ := scanLevels_turn scanned fun _ => 0
    cases returned
    cases drawn with
    | nothing same => exact ⟨none, .nothing same⟩
  · next scanned =>
    obtain ⟨level, _, drawn⟩ := scanLevels_turn scanned fun _ => 0
    cases returned
    exact ⟨level, drawn⟩

/-- A call, with the dispatches of the current cycle. -/
def serveCounted (pr : Priorities Proc) (before : Sched Proc × (Fin maxPrio → Nat)) (request : Request Proc) :
    Outcome (Call Proc × Sched Proc × (Fin maxPrio → Nat)) := do
  let (call, after) ← serve pr before.1 request
  match request with
  | .get => return (call, after, countDispatches maxPrio before.1 before.2)
  | _ => return (call, after, before.2)

def serveAllCounted (pr : Priorities Proc) (before : Sched Proc × (Fin maxPrio → Nat)) :
    List (Request Proc) → Outcome (List (Call Proc) × Sched Proc × (Fin maxPrio → Nat))
  | [] => .ok ([], before)
  | request :: requests => do
    let (call, after) ← serveCounted pr before request
    let (calls, after) ← serveAllCounted pr after requests
    return (call :: calls, after)

def Counted (pr : Priorities Proc) (before : Sched Proc × (Fin maxPrio → Nat)) (call : Call Proc)
    (after : Sched Proc × (Fin maxPrio → Nat)) : Prop :=
  ∃ request, serveCounted pr before request = .ok (call, after)

section Runs
variable {before next : Sched Proc × (Fin maxPrio → Nat)} {requests : List (Request Proc)}

theorem serveAll_steps (returned : serveAll pr s requests = .ok (calls, after)) : Steps (Step pr) s calls after := by
  induction requests generalizing s calls with
  | nil => cases returned; exact .refl _
  | cons request requests ih =>
    obtain ⟨⟨call, middle⟩, served, returned⟩ := Outcome.bind_eq_ok returned
    obtain ⟨⟨rest, last⟩, others, returned⟩ := Outcome.bind_eq_ok returned
    cases returned
    exact (ih others).cons ⟨request, served⟩

theorem serveAllCounted_steps (returned : serveAllCounted pr before requests = .ok (calls, next)) :
    Steps (Counted pr) before calls next := by
  induction requests generalizing before calls with
  | nil => cases returned; exact .refl _
  | cons request requests ih =>
    obtain ⟨⟨call, middle⟩, served, returned⟩ := Outcome.bind_eq_ok returned
    obtain ⟨⟨rest, last⟩, others, returned⟩ := Outcome.bind_eq_ok returned
    cases returned
    exact (ih others).cons ⟨request, served⟩

theorem getMlqProc_of_step (taken : Step pr s (.returned result) after) : getMlqProc pr s = (result, after) := by
  obtain ⟨request, returned⟩ := taken
  cases request with
  | add p =>
    obtain ⟨_, _, returned⟩ := Outcome.bind_eq_ok returned
    cases returned
  | put p =>
    obtain ⟨_, _, returned⟩ := Outcome.bind_eq_ok returned
    cases returned
  | get => cases returned; rfl

/-- Insertions leave the cursor where it is. -/
theorem cursor_of_inserted (taken : Step pr s call after) (insertion : ∀ result, call ≠ .returned result) :
    after.curPrio = s.curPrio ∧ after.usedSlot = s.usedSlot := by
  obtain ⟨request, returned⟩ := taken
  cases request with
  | add p =>
    obtain ⟨_, inserted, returned⟩ := Outcome.bind_eq_ok returned
    obtain ⟨_, _, inserted⟩ := Outcome.bind_eq_ok inserted
    cases inserted
    cases returned
    exact ⟨rfl, rfl⟩
  | put p =>
    obtain ⟨_, inserted, returned⟩ := Outcome.bind_eq_ok returned
    obtain ⟨_, _, inserted⟩ := Outcome.bind_eq_ok inserted
    cases inserted
    cases returned
    exact ⟨rfl, rfl⟩
  | get => cases returned; exact absurd rfl (insertion _)

/-- What one counted call does to the cursor. -/
theorem Counted.cases (taken : Counted pr before call next) :
    Step pr before.1 call next.1 ∧
      ((∃ result, call = .returned result ∧ next.2 = countDispatches maxPrio before.1 before.2) ∨
        (∀ result, call ≠ .returned result) ∧ next.2 = before.2) := by
  obtain ⟨request, returned⟩ := taken
  obtain ⟨⟨done, after⟩, served, returned⟩ := Outcome.bind_eq_ok returned
  cases request with
  | get =>
    cases returned
    refine ⟨⟨_, served⟩, .inl ?_⟩
    cases served
    exact ⟨_, rfl, rfl⟩
  | add p =>
    cases returned
    refine ⟨⟨_, served⟩, .inr ⟨?_, rfl⟩⟩
    obtain ⟨_, _, served⟩ := Outcome.bind_eq_ok served
    cases served
    exact nofun
  | put p =>
    cases returned
    refine ⟨⟨_, served⟩, .inr ⟨?_, rfl⟩⟩
    obtain ⟨_, _, served⟩ := Outcome.bind_eq_ok served
    cases served
    exact nofun

/-- The quotas are those of `init_scheduler`, and the cursor agrees with the account of
the cycle. -/
structure Steady (s : Sched Proc) (served : Fin maxPrio → Nat) : Prop where
  slots : ∀ q, s.slot q = maxPrio - q.val
  balanced : Balanced s.slot (s.wheel served)

theorem Steady.positive (steady : Steady s served) (q : Fin maxPrio) : 0 < s.slot q := by
  rw [steady.slots]
  exact Nat.sub_pos_of_lt q.isLt

theorem steady_init : Steady (@initScheduler Proc) (fun _ => 0) :=
  ⟨fun _ => rfl, balanced_start _⟩

theorem Served.slots (served : Served pr s call after) : after.slot = s.slot := by
  cases served with
  | added inserted _ => exact inserted.slot
  | putBack inserted _ => exact inserted.slot
  | returned frame _ => exact frame.slot

theorem Steady.kept (steady : Steady before.1 before.2) (taken : Counted pr before call next) :
    Steady next.1 next.2 := by
  obtain ⟨stepped, turn⟩ := taken.cases
  have slots := Served.slots stepped.served
  refine ⟨by rw [slots]; exact steady.slots, ?_⟩
  rw [slots]
  rcases turn with ⟨result, rfl, counted⟩ | ⟨insertion, same⟩
  · obtain ⟨_, turned, _⟩ := getMlqProc_turned steady.positive (getMlqProc_of_step stepped) before.2
    rw [counted]
    exact turned.balanced steady.positive steady.balanced
  · obtain ⟨cursor, used⟩ := cursor_of_inserted stepped insertion
    unfold wheel
    rw [cursor, used, same]
    exact steady.balanced

theorem steady_of_counted (run : Steps (Counted pr) (initScheduler, fun _ => 0) calls next) : Steady next.1 next.2 := by
  apply run.history (fun _ state => Steady state.1 state.2) steady_init
  exact fun _ _ _ _ steady taken => steady.kept taken

/-- Every run can be counted along. -/
theorem counted_of_run (run : Steps (Step pr) s calls after) (first : Fin maxPrio → Nat) :
    ∃ last, Steps (Counted pr) (s, first) calls (after, last) := by
  refine run.history (fun calls after => ∃ last, Steps (Counted pr) (s, first) calls (after, last)) ⟨first, .refl _⟩ ?_
  intro calls before call after earlier taken
  obtain ⟨served, counted⟩ := earlier
  obtain ⟨request, returned⟩ := taken
  cases request with
  | add p =>
    refine ⟨served, counted.tail ⟨.add p, ?_⟩⟩
    rw [serveCounted, returned]
    rfl
  | put p =>
    refine ⟨served, counted.tail ⟨.put p, ?_⟩⟩
    rw [serveCounted, returned]
    rfl
  | get =>
    refine ⟨countDispatches maxPrio before served, counted.tail ⟨.get, ?_⟩⟩
    rw [serveCounted, returned]
    rfl

theorem steady_of_run (run : Steps (Step pr) initScheduler calls s) : ∃ served, Steady s served := by
  obtain ⟨served, counted⟩ := counted_of_run run _
  exact ⟨served, steady_of_counted counted⟩

theorem busy_eq_false {q : Fin maxPrio} : s.busy q = false ↔ (s.mlqReadyQueue q).empty = true := by
  rw [busy, Bool.not_eq_false']

theorem busy_eq_true {q : Fin maxPrio} : s.busy q = true ↔ (s.mlqReadyQueue q).empty = false := by
  rw [busy, Bool.not_eq_true']

/-- The state in which the scan of `get_mlq_proc` ends one level too early. -/
def Overlooked (s : Sched Proc) : Prop :=
  (s.mlqReadyQueue s.curPrio).empty = false ∧ s.slot s.curPrio ≤ s.usedSlot ∧
    ∀ q, q ≠ s.curPrio → (s.mlqReadyQueue q).empty = true

theorem Steady.none_iff (steady : Steady s served) :
    (getMlqProc pr s).1 = none ↔ ((s.mlqReadyQueue s.curPrio).empty = false → s.slot s.curPrio ≤ s.usedSlot) ∧
      ∀ q, q ≠ s.curPrio → (s.mlqReadyQueue q).empty = true := by
  cases returned : getMlqProc pr s with
  | mk result after =>
  obtain ⟨level, turned, drawn⟩ := getMlqProc_turned steady.positive returned served
  have nothing : result = none ↔ level = none := by
    cases drawn with
    | nothing _ => exact iff_of_true rfl rfl
    | entry _ _ _ _ _ => exact iff_of_false nofun nofun
  rw [nothing, turned.none_iff]
  simp only [← busy_eq_false, ← busy_eq_true]
  rfl

theorem Steady.nothing_ready (steady : Steady s served) (vacant : ∀ q, (s.mlqReadyQueue q).empty = true) :
    (getMlqProc pr s).1 = none := by
  apply steady.none_iff.mpr
  refine ⟨fun occupied => ?_, fun q _ => vacant q⟩
  cases occupied.symm.trans (vacant s.curPrio)

/-- A call that returns nothing although a process is ready overlooks it. -/
theorem Steady.overlooked (steady : Steady s served) (nothing : (getMlqProc pr s).1 = none) {q : Fin maxPrio}
    (occupied : (s.mlqReadyQueue q).empty = false) : s.Overlooked := by
  obtain ⟨spent, others⟩ := steady.none_iff.mp nothing
  have here : q = s.curPrio := by
    by_contra other
    cases occupied.symm.trans (others q other)
  rw [here] at occupied
  exact ⟨occupied, spent occupied, others⟩

/-- Of all reachable states, `get_mlq_proc` leaves a ready process behind in those alone
in which only the level of the cursor is not empty and its quota is used up. -/
theorem get_returns_nothing_only_when_empty_iff (run : Steps (Step pr) initScheduler calls s) :
    ((getMlqProc pr s).1 = none ↔ ∀ q, (s.mlqReadyQueue q).empty = true) ↔ ¬s.Overlooked := by
  obtain ⟨served, steady⟩ := steady_of_run run
  constructor
  · intro conserving overlooked
    obtain ⟨occupied, quota, others⟩ := overlooked
    have nothing : (getMlqProc pr s).1 = none := steady.none_iff.mpr ⟨fun _ => quota, others⟩
    cases occupied.symm.trans (conserving.mp nothing s.curPrio)
  · intro seen
    constructor
    · intro nothing q
      cases vacant : (s.mlqReadyQueue q).empty with
      | true => rfl
      | false => exact absurd (steady.overlooked nothing vacant) seen
    · exact steady.nothing_ready

def lastLevel : Priorities Nat where
  priority := fun _ => 0
  prio := fun _ => 139

private theorem lastLevel_valid (p : Nat) : (lastLevel.prio p).toNat < maxPrio :=
  show (139 : BitVec 32).toNat < maxPrio by decide

theorem get_returns_nothing_only_when_empty_iff_lastLevel : ∃ calls s,
    serveAll lastLevel initScheduler [.add 0, .add 1, .get] = .ok (calls, s) ∧
      (((getMlqProc lastLevel s).1 = none ↔ ∀ q, (s.mlqReadyQueue q).empty = true) ↔ ¬s.Overlooked) := by
  obtain ⟨calls, s, served, _, run⟩ := serveAll_valid lastLevel_valid initScheduler [.add 0, .add 1, .get]
  exact ⟨calls, s, served, get_returns_nothing_only_when_empty_iff run⟩

set_option maxRecDepth 4000 in
/-- Level 139 has one slot: the second of two processes there is overlooked once. -/
theorem second_process_of_last_level_overlooked : ∃ calls s, Steps (Step lastLevel) initScheduler calls s ∧
    ¬((getMlqProc lastLevel s).1 = none ↔ ∀ q, (s.mlqReadyQueue q).empty = true) := by
  have check : (serveAll lastLevel initScheduler [.add 0, .add 1, .get]).map (fun result =>
      decide ((getMlqProc lastLevel result.2).1 = none) && decide ((result.2.mlqReadyQueue ⟨139, by decide⟩).empty = false)) =
    .ok true := rfl
  cases served : serveAll lastLevel initScheduler [.add 0, .add 1, .get] with
  | error e => rw [served] at check; cases check
  | ok result =>
    obtain ⟨calls, s⟩ := result
    rw [served] at check
    have facts := Except.ok.inj check
    rw [Bool.and_eq_true, decide_eq_true_eq, decide_eq_true_eq] at facts
    refine ⟨calls, s, serveAll_steps served, fun conserving => ?_⟩
    cases facts.2.symm.trans (conserving.mp facts.1 _)

def Call.gets : Call Proc → Bool
  | .returned _ => true
  | _ => false

theorem drawn_atHome (home : AtHome pr s) {q : Fin maxPrio} (drawn : Drawn pr s result (some q) after) :
    ∃ p, result = some p ∧ Sched.level pr p = .ok q := by
  cases drawn with
  | entry p _ rest taken _ =>
    exact ⟨p, rfl, home q p ((Queue.dequeue_perm taken).mem_iff.mpr List.mem_cons_self)⟩

/-- While `r` has an entry and is not served, every call of `get_proc` pays off one unit
of its debt. -/
private theorem debt_paid {earlier later : List (Call Proc)} {served : Fin maxPrio → Nat} {r : Fin maxPrio}
    (upto : Steps (Counted pr) (initScheduler, fun _ => 0) earlier (s, served))
    (run : Steps (Counted pr) (s, served) later next) (waiting : (s.mlqReadyQueue r).empty = false)
    (home : AtHome pr s) :
    (∃ p, .returned (some p) ∈ later ∧ Sched.level pr p = .ok r) ∨
      (next.1.mlqReadyQueue r).empty = false ∧
        debt next.1.slot r (next.1.wheel next.2) + later.countP Call.gets ≤ debt s.slot r (s.wheel served) := by
  have invariant : AtHome pr next.1 ∧ Steady next.1 next.2 ∧ ((∃ p, .returned (some p) ∈ later ∧ Sched.level pr p = .ok r) ∨
      (next.1.mlqReadyQueue r).empty = false ∧
        debt next.1.slot r (next.1.wheel next.2) + later.countP Call.gets ≤ debt s.slot r (s.wheel served)) := by
    refine run.history (fun later next => AtHome pr next.1 ∧ Steady next.1 next.2 ∧
      ((∃ p, .returned (some p) ∈ later ∧ Sched.level pr p = .ok r) ∨ (next.1.mlqReadyQueue r).empty = false ∧
        debt next.1.slot r (next.1.wheel next.2) + later.countP Call.gets ≤ debt s.slot r (s.wheel served))) ?_ ?_
    · exact ⟨home, steady_of_counted upto, .inr ⟨waiting, Nat.le_refl _⟩⟩
    · rintro later before call after ⟨home, steady, earlier⟩ taken
      obtain ⟨stepped, turn⟩ := taken.cases
      refine ⟨stepped.served.atHome home, steady.kept taken, ?_⟩
      rcases earlier with ⟨p, member, own⟩ | ⟨waiting, paid⟩
      · exact .inl ⟨p, List.mem_append_left _ member, own⟩
      · obtain ⟨p, member⟩ := List.exists_mem_of_ne_nil _ (empty_eq_false.mp waiting)
        by_cases out : call = .returned (some p)
        · exact .inl ⟨p, List.mem_append_right _ (List.mem_singleton.mpr out.symm), home r p member⟩
        · have kept := empty_eq_false.mpr (List.ne_nil_of_mem (stepped.served.keeps member out))
          have slots := Served.slots stepped.served
          rcases turn with ⟨result, rfl, counted⟩ | ⟨insertion, same⟩
          · obtain ⟨level, turned, drawn⟩ := getMlqProc_turned steady.positive (getMlqProc_of_step stepped) before.2
            by_cases reached : level = some r
            · rw [reached] at drawn
              obtain ⟨other, rfl, own⟩ := drawn_atHome home drawn
              exact .inl ⟨other, List.mem_append_right _ (List.mem_singleton_self _), own⟩
            · have paid_more := turned.debt_lt steady.positive (by decide) steady.balanced.used_le (busy_eq_true.mpr waiting) reached
              refine .inr ⟨kept, ?_⟩
              rw [counted, slots, List.countP_append]
              change _ + (later.countP Call.gets + 1) ≤ _
              omega
          · obtain ⟨cursor, used⟩ := cursor_of_inserted stepped insertion
            have idle : Call.gets call = false := by
              cases call with
              | returned result => exact absurd rfl (insertion result)
              | added _ _ => rfl
              | putBack _ _ => rfl
            refine .inr ⟨kept, ?_⟩
            rw [slots, List.countP_append, List.countP_singleton, idle]
            unfold wheel at paid ⊢
            rw [cursor, used, same]
            exact paid
  exact invariant.2.2

theorem others_eq (slots : ∀ q, s.slot q = maxPrio - q.val) (r : Fin maxPrio) :
    others s.slot r = ∑ q ∈ Finset.univ.erase r, (maxPrio - q.val) :=
  Finset.sum_congr rfl fun q _ => slots q

/-- A level that has an entry is served within as many calls of `get_proc` as the other
levels have slots, and one more. -/
theorem no_level_starves {earlier : List (Call Proc)} (run : Steps (Step pr) initScheduler earlier s) :
    (∀ q, s.slot q = maxPrio - q.val) ∧ s.curPrio.val < maxPrio ∧ s.usedSlot ≤ s.slot s.curPrio ∧
      ∀ (r : Fin maxPrio) later after, Steps (Step pr) s later after → (s.mlqReadyQueue r).empty = false →
        1 + ∑ q ∈ Finset.univ.erase r, (maxPrio - q.val) ≤ later.countP Call.gets →
        ∃ p, .returned (some p) ∈ later ∧ Sched.level pr p = .ok r := by
  obtain ⟨served, counted⟩ := counted_of_run run _
  have steady := steady_of_counted counted
  refine ⟨steady.slots, s.curPrio.isLt, steady.balanced.used_le, ?_⟩
  intro r later after stretch waiting long
  obtain ⟨last, along⟩ := counted_of_run stretch served
  rcases debt_paid counted along waiting (atHome_of_run run) with dispatched | ⟨_, paid⟩
  · exact dispatched
  · have bound := debt_le_others s.slot r (s.wheel served)
    rw [others_eq steady.slots] at bound
    omega

theorem countP_gets {n : Nat} (asked : calls.map Call.request = List.replicate n .get) :
    calls.countP Call.gets = n := by
  have all : ∀ call ∈ calls, call.gets = true := by
    intro call member
    have request : call.request = .get := List.eq_of_mem_replicate (asked ▸ List.mem_map_of_mem member)
    cases call with
    | returned _ => rfl
    | added _ _ => cases request
    | putBack _ _ => cases request
  have length := congrArg List.length asked
  rw [List.length_map, List.length_replicate] at length
  rw [List.countP_eq_length.mpr all, length]

/-- One process of level 0 waits through 9731 calls at most, of which it takes the first. -/
theorem no_level_starves_oneLevel : ∃ later after,
    serveAll oneLevel (setLevel { initScheduler with linked := true } ⟨0, by decide⟩ (Queue.nil.enqueue (some 3)))
      (List.replicate 9731 .get) = .ok (later, after) ∧
    ∃ p, .returned (some p) ∈ later ∧ Sched.level oneLevel p = .ok ⟨0, by decide⟩ := by
  have valid : ∀ p, (oneLevel.prio p).toNat < maxPrio := fun _ => Nat.zero_lt_succ 139
  obtain ⟨later, after, served, asked, stretch⟩ := serveAll_valid valid
    (setLevel { initScheduler with linked := true } ⟨0, by decide⟩ (Queue.nil.enqueue (some 3))) (List.replicate 9731 .get)
  refine ⟨later, after, served, ?_⟩
  have added : serveAll oneLevel initScheduler [.add 3] = .ok ([.added 3 true],
      setLevel { initScheduler with linked := true } ⟨0, by decide⟩ (Queue.nil.enqueue (some 3))) := rfl
  apply (no_level_starves (serveAll_steps added)).2.2.2 ⟨0, by decide⟩ later after stretch rfl
  rw [countP_gets asked]
  decide +kernel

/-- Should `get_proc` return a process of level `r` now, the levels above `r` are empty
or have had their slots of this cycle. -/
def HigherFirst (pr : Priorities Proc) (before : Sched Proc × (Fin maxPrio → Nat)) : Prop :=
  ∀ p after, serveCounted pr before .get = .ok (.returned (some p), after) → ∀ r, Sched.level pr p = .ok r →
    ∀ q, q < r → (before.1.mlqReadyQueue q).empty = true ∨ before.1.slot q ≤ after.2 q

/-- No process waits at a level that the cursor has passed in this cycle with slots to
spare, or the scan is about to come around to it. -/
def NonePassed (before : Sched Proc × (Fin maxPrio → Nat)) : Prop :=
  (∀ q, q < before.1.curPrio → (before.1.mlqReadyQueue q).empty = true ∨ before.1.slot q ≤ before.2 q) ∨
    ((before.1.mlqReadyQueue before.1.curPrio).empty = false → before.1.slot before.1.curPrio ≤ before.1.usedSlot) ∧
      ∀ q, before.1.curPrio < q → (before.1.mlqReadyQueue q).empty = true

private theorem higherFirst_iff (steady : Steady before.1 before.2) (home : AtHome pr before.1) :
    HigherFirst pr before ↔ NonePassed before := by
  cases returned : getMlqProc pr before.1 with
  | mk result after =>
  have counted : serveCounted pr before .get = .ok (.returned result, after, countDispatches maxPrio before.1 before.2) := by
    rw [serveCounted, serve, returned]
    rfl
  obtain ⟨level, turned, drawn⟩ := getMlqProc_turned steady.positive returned before.2
  cases drawn with
  | nothing _ =>
    have nothing : (getMlqProc pr before.1).1 = none := by rw [returned]
    obtain ⟨quota, others⟩ := steady.none_iff.mp nothing
    refine iff_of_true ?_ (.inr ⟨quota, fun q later => others q (Fin.ne_of_gt later)⟩)
    intro p next served
    cases counted.symm.trans served
  | entry p r rest taken _ =>
    have own := home r p ((Queue.dequeue_perm taken).mem_iff.mpr List.mem_cons_self)
    have ordered := turned.order_iff steady.balanced
    simp only [busy_eq_false, busy_eq_true] at ordered
    refine Iff.trans ?_ ordered
    constructor
    · intro first q earlier
      exact first p _ counted r own q earlier
    · intro first other next served index named q earlier
      cases counted.symm.trans served
      cases own.symm.trans named
      exact first q earlier

/-- A run dispatches the higher levels first exactly when no call of `get_proc` in it finds
a process waiting at a passed level. -/
theorem higher_level_first_iff (pr : Priorities Proc) (requests : List (Request Proc)) :
    (∀ earlier later, requests = earlier ++ .get :: later →
        ∀ calls before, serveAllCounted pr (initScheduler, fun _ => 0) earlier = .ok (calls, before) → HigherFirst pr before) ↔
      (∀ earlier later, requests = earlier ++ .get :: later →
        ∀ calls before, serveAllCounted pr (initScheduler, fun _ => 0) earlier = .ok (calls, before) → NonePassed before) := by
  refine forall_congr' fun earlier => forall_congr' fun later => forall_congr' fun _ => forall_congr' fun calls =>
    forall_congr' fun before => forall_congr' fun reached => ?_
  have run := serveAllCounted_steps reached
  apply higherFirst_iff (steady_of_counted run)
  refine run.history (fun _ next => AtHome pr next.1) ?_ ?_
  · intro index p member
    cases member
  · exact fun _ _ _ _ home taken => taken.cases.1.served.atHome home

/-- The first two processes of `sched_1`. -/
def sched1 : Priorities Nat where
  priority := fun _ => 0
  prio := fun pid => if pid = 1 then 4 else 0

set_option maxRecDepth 4000 in
/-- The cursor stands at level 4 when process 2 arrives at level 0. Process 1 is put back and
goes first again. -/
theorem new_process_of_higher_level_waits : ¬∀ earlier later,
    [.add 1, .get, .add 2, .put 1, .get] = earlier ++ .get :: later →
      ∀ calls before, serveAllCounted sched1 (initScheduler, fun _ => 0) earlier = .ok (calls, before) →
        HigherFirst sched1 before := by
  have check : (serveAllCounted sched1 (initScheduler, fun _ => 0) [.add 1, .get, .add 2, .put 1]).map (fun result =>
      ((result.2.1.mlqReadyQueue ⟨0, by decide⟩).empty, (serveCounted sched1 result.2 .get).map fun last =>
        (last.1, decide (last.2.2 ⟨0, by decide⟩ < result.2.1.slot ⟨0, by decide⟩)))) =
      .ok (false, .ok (.returned (some 1), true)) := rfl
  intro ordered
  cases reached : serveAllCounted sched1 (initScheduler, fun _ => 0) [.add 1, .get, .add 2, .put 1] with
  | error e => rw [reached] at check; cases check
  | ok result =>
    obtain ⟨calls, before⟩ := result
    have first := ordered [.add 1, .get, .add 2, .put 1] [] rfl calls before reached
    rw [reached] at check
    obtain ⟨waiting, check⟩ := Prod.mk.inj (Except.ok.inj check)
    cases served : serveCounted sched1 before .get with
    | error e => rw [served] at check; cases check
    | ok last =>
      obtain ⟨call, after⟩ := last
      rw [served] at check
      obtain ⟨rfl, spare⟩ := Prod.mk.inj (Except.ok.inj check)
      rcases first 1 after served ⟨4, by decide⟩ rfl ⟨0, by decide⟩ (by decide) with vacant | spent
      · cases waiting.symm.trans vacant
      · exact absurd spent (Nat.not_le.mpr (of_decide_eq_true spare))

end Runs
end Sched
end LamiaAtrium
