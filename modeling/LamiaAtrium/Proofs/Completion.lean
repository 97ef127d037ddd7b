import LamiaAtrium.Proofs.LockStep
import LamiaAtrium.Proofs.Placement
import LamiaAtrium.Proofs.Rotation

/-! What is left undone when every CPU has stopped: what the last call of `get_proc`
overlooked. After that call the loader adds nothing, since it would have to get through
`next_slot` before a CPU that is already on its way to the test of `done`. -/

namespace LamiaAtrium
open Run

/-- A call of `get_proc`. -/
def ClockedEvent.isGet {n : Nat} (event : ClockedEvent n) : Bool := event.sys.any fun label => label.2.isGet

/-- A call of `add_proc`. -/
def ClockedEvent.isAdd {n : Nat} (event : ClockedEvent n) : Bool := event.sys.any fun label => label.2.isAdd

private theorem sees_done {cfg : Config} {s after : State cfg.numCpus} {event : Event} {id : Fin cfg.numCpus}
    (taken : cpuStep cfg s id = .ok (event, after)) (here : (s.cpus id).point = .recheck) (leaving : (after.cpus id).Leaving) :
    s.done = true := by
  unfold cpuStep at taken
  dsimp only at taken
  rw [here] at taken
  dsimp only at taken
  split at taken
  · next vacant =>
    cases taken
    rw [State.setCpu_same] at leaving
    cases done : s.done with
    | true => rfl
    | false =>
      rw [done] at leaving
      rcases leaving.2 with recheck | stopped
      · cases recheck
      · cases stopped
  · next p busy =>
    cases taken
    rw [State.setCpu_same] at leaving
    cases busy.symm.trans leaving.1

theorem Move.gets {cfg : Config} {s after : State cfg.numCpus} {event : Event} {id : Fin cfg.numCpus} (move : Move cfg s id event after)
    (get : event.isGet = true) : ∃ result, Sched.getMlqProc cfg.priorities s.sched = (result, after.sched) ∧ after.pcbs = s.pcbs ∧
      (after.cpus id).proc = result := by
  cases move with
  | loaded result sched _ returned => exact ⟨result, returned, rfl, by rw [State.setCpu_same]⟩
  | refilled result sched _ returned => exact ⟨result, returned, rfl, by rw [State.setCpu_same]⟩
  | switched result sched _ returned => exact ⟨result, returned, rfl, by rw [State.setCpu_same]⟩
  | _ => cases get

/-- A process that is not through with its program is in a ready queue. -/
def State.WorkQueued (cfg : Config) (s : State cfg.numCpus) : Prop :=
  ∃ p pc q, p ∈ (s.sched.mlqReadyQueue q).procs ∧ s.pcbs p = .live pc ∧ pc < (cfg.text p).length

/-- The process has been executed to the end: `pc` is `code->size`, or was so when the process
was freed. -/
def State.Ended (cfg : Config) (labels : List (Thread cfg.numCpus × Event)) (s : State cfg.numCpus) (p : Nat) : Prop :=
  (s.pcbs p = .freed ∨ s.pcbs p = .live (cfg.text p).length) ∧ fetches p labels = List.range (cfg.text p).length

section Ended
variable {cfg : Config} {labels : List (Thread cfg.numCpus × Event)} {s : State cfg.numCpus} {p : Nat}

private theorem ended_of_pcb (run : Steps (SystemStep cfg) (boot cfg) labels s)
    (pcb : s.pcbs p = .freed ∨ s.pcbs p = .live (cfg.text p).length) : s.Ended cfg labels p := by
  refine ⟨pcb, ?_⟩
  rw [(Orderly.of_run run).fetched p]
  rcases pcb with freed | live
  · rw [freed]
    rfl
  · rw [live]
    rfl

/-- Without a CPU no process is executed. -/
private theorem untouched (none : cfg.numCpus = 0) (run : Steps (SystemStep cfg) (boot cfg) labels s) :
    s.pcbs p = .unloaded ∨ s.pcbs p = .live 0 := by
  have vacant (id : Fin cfg.numCpus) : False := Nat.not_lt_zero id.val (none ▸ id.isLt)
  refine run.history (fun _ s => s.pcbs p = .unloaded ∨ s.pcbs p = .live 0) (.inl rfl) ?_
  intro _ before label after fresh taken
  have changed := (SystemStep.effect taken).pcb p
  obtain ⟨thread, event⟩ := label
  generalize after.pcbs p = pcb at changed ⊢
  cases changed with
  | kept => exact fresh
  | loaded => exact .inr rfl
  | fetched id => exact (vacant id).elim
  | freed id => exact (vacant id).elim

private theorem queued_somewhere (some : 1 ≤ s.queued p) : ∃ q, p ∈ (s.sched.mlqReadyQueue q).procs := by
  by_contra nowhere
  have nothing : s.queued p = 0 := Tally.total_eq_zero fun q => by
    apply List.countP_eq_zero.mpr
    intro other member same
    exact nowhere ⟨q, eq_of_beq same ▸ member⟩
  omega

end Ended

namespace Clocked
variable {cfg : Config} {startTime : Nat → BitVec 64} {m first after : Clocked cfg} {event : ClockedEvent cfg.numCpus}
  {earlier later events : List (ClockedEvent cfg.numCpus)} {id : Fin cfg.numCpus} {i : Nat}

private theorem leaving_before (move : Move m event after) (quiet : event.isGet = false) (leaving : (after.sys.cpus id).Leaving) :
    (m.sys.cpus id).Leaving := by
  have back {other : Fin cfg.numCpus} {own : Event} {sys : State cfg.numCpus} (taken : cpuStep cfg m.sys other = .ok (own, sys))
      (calm : own.isGet = false) (leaving : (sys.cpus id).Leaving) : (m.sys.cpus id).Leaving := by
    have move := cpuStep_move taken
    by_cases same : id = other
    · rw [same] at leaving ⊢
      exact (move.leaving calm leaving).1
    · rwa [move.elsewhere same] at leaving
  cases move with
  | cpuReturned other timer own sys _ _ worked => exact back worked quiet leaving
  | worked thread own sys _ _ _ worked =>
    cases thread with
    | cpu other => exact back worked quiet leaving
    | loader => rwa [(threadStep_elsewhere worked).1 id nofun] at leaving
  | _ => exact leaving

/-- How often the timer or a device has done something. -/
def occurs (own : TimerEvent (cfg.numCpus + 1)) (events : List (ClockedEvent cfg.numCpus)) : Nat :=
  (events.filterMap ClockedEvent.timer).count own

/-- How often a thread has come back from `next_slot`. -/
def slots (thread : Thread cfg.numCpus) (events : List (ClockedEvent cfg.numCpus)) : Nat := occurs (.returned (device thread)) events

/-- The loader waits in `next_slot` for a CPU that has not reached its own. -/
structure Held (i : Nat) (id : Fin cfg.numCpus) (m : Clocked cfg) : Prop where
  waits : m.loaderWaits = true
  loader : m.sys.loader = .load i
  recheck : (m.sys.cpus id).point = .recheck

theorem occurs_concat (own : TimerEvent (cfg.numCpus + 1)) :
    occurs own (events ++ [event]) = occurs own events + (decide (event.timer = some own)).toNat := by
  unfold occurs
  rw [List.filterMap_append]
  cases timed : event.timer with
  | none => rw [List.filterMap_cons_none timed, decide_eq_false nofun]; simp
  | some other => rw [List.filterMap_cons_some timed, List.filterMap_nil, Timer.count_concat]; simp

/-- A thread in its slot is level with the time. -/
theorem slots_eq (run : Steps (Step startTime) (start cfg) events m) {thread : Thread cfg.numCpus}
    (outside : m.atSlot thread = false) (staying : m.left thread = false) : slots thread events = occurs .tick events := by
  have inStep := inStep_of_run run
  exact (Timer.settled_of_run (timer_run run) (device thread)).level (inStep.attached thread staying) (inStep.working thread outside)

theorem slots_le (run : Steps (Step startTime) (start cfg) events m) {thread : Thread cfg.numCpus}
    (staying : m.left thread = false) : slots thread events ≤ occurs .tick events :=
  ((Timer.settled_of_run (timer_run run) (device thread)).within ((inStep_of_run run).attached thread staying)).1

private theorem cpu_in_slot (here : (m.sys.cpus id).point = .recheck) : m.atSlot (.cpu id) = false ∧ m.left (.cpu id) = false := by
  change ((m.sys.cpus id).point == .slot || (m.sys.cpus id).point == .skip) = false ∧ ((m.sys.cpus id).point == .stopped) = false
  rw [here]
  exact ⟨rfl, rfl⟩

private theorem loader_staying (here : m.sys.loader = .load i) : m.left .loader = false := by
  change (m.sys.loader == .finished) = false
  rw [here]
  rfl

private theorem Held.step (held : Held i id m) (reached : Steps (Step startTime) (start cfg) events m)
    (even : slots .loader events = slots (.cpu id) events) (taken : Step startTime m event after) (quiet : event.isGet = false)
    (leaving : (after.sys.cpus id).Leaving) :
    Held i id after ∧ slots .loader (events ++ [event]) = slots (.cpu id) (events ++ [event]) := by
  obtain ⟨waits, loader, recheck⟩ := held
  obtain ⟨outside, staying⟩ := cpu_in_slot recheck
  have same (quiet : ∀ thread, thread = .loader ∨ thread = .cpu id → event.timer ≠ some (.returned (device thread))) :
      slots .loader (events ++ [event]) = slots (.cpu id) (events ++ [event]) := by
    rw [slots, slots, occurs_concat, occurs_concat, decide_eq_false (quiet _ (.inl rfl)), decide_eq_false (quiet _ (.inr rfl))]
    exact even
  have further := reached.tail taken
  cases taken.move with
  | rested => exact ⟨⟨waits, loader, recheck⟩, same nofun⟩
  | timed own timer _ calm => exact ⟨⟨waits, loader, recheck⟩, same fun thread _ equal => calm _ (Option.some.inj equal)⟩
  | delayed _ open_ => cases waits.symm.trans open_
  | loaderReturned timer here _ =>
    -- the loader would be a slot ahead of the CPU
    have ahead : slots .loader events + 1 ≤ occurs .tick events := by
      have most := slots_le further (loader_staying loader)
      rw [slots, occurs_concat, occurs_concat, decide_eq_true rfl, decide_eq_false (by simp)] at most
      exact most
    rw [even, slots_eq reached outside staying] at ahead
    exact absurd ahead (Nat.not_succ_le_self _)
  | cpuReturned other timer own sys here _ worked =>
    have apart : other ≠ id := by
      intro equal
      rw [equal] at here
      cases here.symm.trans outside
    have stepped : threadStep cfg m.sys (.cpu other) = .ok (own, sys) := worked
    obtain ⟨cpus, kept⟩ := threadStep_elsewhere stepped
    refine ⟨⟨waits, (kept nofun).trans loader, ?_⟩, same ?_⟩
    · change (sys.cpus id).point = .recheck
      rw [cpus id fun equal => apart (Thread.cpu.inj equal)]
      exact recheck
    · intro thread either equal
      have device := device_injective (TimerEvent.returned.inj (Option.some.inj equal))
      rcases either with rfl | rfl
      · cases device
      · exact apart (Thread.cpu.inj device)
  | worked thread own sys loaderWaits open_ _ worked kept =>
    obtain ⟨cpus, keptLoader⟩ := threadStep_elsewhere worked
    cases thread with
    | loader => cases waits.symm.trans open_
    | cpu other =>
      have apart : other ≠ id := by
        intro equal
        rw [← equal] at recheck leaving
        have done := sees_done worked recheck leaving
        cases loader.symm.trans ((loading_of_run (system_run reached)).done.mp done)
      refine ⟨⟨(kept nofun).trans waits, (keptLoader nofun).trans loader, ?_⟩, same nofun⟩
      change (sys.cpus id).point = .recheck
      rw [cpus id fun equal => apart (Thread.cpu.inj equal)]
      exact recheck

private theorem Held.run (held : Held i id first) (reached : Steps (Step startTime) (start cfg) earlier first)
    (even : slots .loader earlier = slots (.cpu id) earlier) (run : Steps (Step startTime) first later m)
    (quiet : ∀ event ∈ later, event.isGet = false) (leaving : (m.sys.cpus id).Leaving) :
    Held i id m ∧ slots .loader (earlier ++ later) = slots (.cpu id) (earlier ++ later) := by
  induction run with
  | refl => exact ⟨held, by rwa [List.append_nil]⟩
  | tail upto taken ih =>
    have calm := quiet _ (List.mem_append_right _ (List.mem_singleton_self _))
    obtain ⟨before, even⟩ := ih (fun event member => quiet event (List.mem_append_left _ member)) (leaving_before taken.move calm leaving)
    rw [← List.append_assoc]
    exact before.step (reached.trans upto) even taken calm leaving

private theorem quiet_labels {marked : Event → Bool} (quiet : ∀ event ∈ later, (event.sys.any fun label => marked label.2) = false) :
    ∀ label ∈ later.filterMap ClockedEvent.sys, marked label.2 = false := by
  intro label member
  obtain ⟨event, inside, own⟩ := List.mem_filterMap.mp member
  have calm := quiet event inside
  rwa [own] at calm

private theorem adding_step (move : Move m event after) (adds : event.isAdd = true) :
    ∃ i, m.sys.loader = .add i ∧ m.loaderWaits = false ∧ after.sys.loader = .load (i + 1) ∧ after.loaderWaits = true ∧
      after.sys.cpus = m.sys.cpus ∧ event.timer = none := by
  have never {id : Fin cfg.numCpus} {own : Event} {sys : State cfg.numCpus} (taken : cpuStep cfg m.sys id = .ok (own, sys)) :
      own.isAdd = false := by
    cases cpuStep_move taken <;> rfl
  cases move with
  | cpuReturned _ _ _ _ _ _ worked => cases (never worked).symm.trans adds
  | worked thread own sys loaderWaits open_ _ worked _ waits =>
    cases thread with
    | cpu id => cases (never worked).symm.trans adds
    | loader =>
      have taken : SystemStep cfg m.sys (.loader, own) sys := worked
      cases SystemStep.effect taken with
      | added i room mem sched here => exact ⟨i, here, open_, rfl, waits i rfl here, rfl, rfl⟩
      | _ => cases adds
  | _ => cases adds

/-- Once a CPU is on its way to the break, no process comes into the queues. -/
theorem no_add_before_break (reached : Steps (Step startTime) (start cfg) earlier first) (run : Steps (Step startTime) first later m)
    (quiet : ∀ event ∈ later, event.isGet = false) (leaving : ∀ id, (m.sys.cpus id).Leaving) (id : Fin cfg.numCpus)
    (done : m.sys.done = true) : ∀ event ∈ later, event.isAdd = false := by
  intro event member
  cases adds : event.isAdd with
  | false => rfl
  | true =>
    obtain ⟨upto, rest, rfl⟩ := List.append_of_mem member
    obtain ⟨before, after, run, taken, onward⟩ := run.step_at
    have reached := reached.trans run
    have further := reached.tail taken
    have calm : ∀ event ∈ rest, event.isGet = false := fun event inside =>
      quiet event (List.mem_append_right _ (List.mem_cons_of_mem _ inside))
    obtain ⟨i, here, open_, loader, waits, cpus, timer⟩ := adding_step taken.move adds
    have recheck : (after.sys.cpus id).point = .recheck := by
      have still := (still_after_last_get (system_run further) (system_run onward) (quiet_labels calm) leaving).1 id
      rcases still.2 with recheck | stopped
      · exact recheck
      · have loading := loading_of_run (system_run further)
        cases loader.symm.trans (loading.done.mp (loading.stopped id stopped).1)
    have even : slots .loader ((earlier ++ upto) ++ [event]) = slots (.cpu id) ((earlier ++ upto) ++ [event]) := by
      obtain ⟨outside, staying⟩ := cpu_in_slot (cpus ▸ recheck)
      have stays : before.left .loader = false := by
        change (before.sys.loader == .finished) = false
        rw [here]
        rfl
      have loaderLevel : slots .loader (earlier ++ upto) = occurs .tick (earlier ++ upto) := slots_eq reached open_ stays
      rw [slots, slots, occurs_concat, occurs_concat, timer, ← slots, ← slots, loaderLevel, slots_eq reached outside staying]
      rfl
    have held := (Held.run ⟨waits, loader, recheck⟩ further even onward calm (leaving id)).1
    cases held.loader.symm.trans ((loading_of_run (system_run (further.trans onward))).done.mp done)

private theorem getting_step (move : Move m event after) (get : event.isGet = true) :
    ∃ id result, Sched.getMlqProc cfg.priorities m.sys.sched = (result, after.sys.sched) ∧ after.sys.pcbs = m.sys.pcbs ∧
      (after.sys.cpus id).proc = result := by
  cases move with
  | cpuReturned id _ _ _ _ _ worked => exact ⟨id, (cpuStep_move worked).gets get⟩
  | worked thread own sys loaderWaits _ _ worked =>
    cases thread with
    | cpu id => exact ⟨id, (cpuStep_move worked).gets get⟩
    | loader =>
      have taken : SystemStep cfg m.sys (.loader, own) sys := worked
      cases SystemStep.effect taken <;> cases get
  | _ => cases get

private theorem leaving_of_stopped (run : Steps (Step startTime) (start cfg) events m)
    (stopped : ∀ id, (m.sys.cpus id).point = .stopped) (id : Fin cfg.numCpus) : (m.sys.cpus id).Leaving :=
  ⟨((loading_of_run (system_run run)).stopped id (stopped id)).2, .inr (stopped id)⟩

/-- A process that is left at the end was in a ready queue at the last call of `get_proc`. -/
private theorem unfinished_overlooked {before : Clocked cfg} (reached : Steps (Step startTime) (start cfg) earlier before)
    (taken : Step startTime before event after) (onward : Steps (Step startTime) after later m) (get : event.isGet = true)
    (quiet : ∀ event ∈ later, event.isGet = false) (small : cfg.processes.length ≤ maxQueueSize) (done : m.sys.done = true)
    (stopped : ∀ id, (m.sys.cpus id).point = .stopped) {p pc : Nat} (live : m.sys.pcbs p = .live pc) (less : pc < (cfg.text p).length) :
    before.sys.sched.Overlooked ∧ before.sys.WorkQueued cfg := by
  have further := reached.tail taken
  have run := further.trans onward
  have leaving := leaving_of_stopped run stopped
  obtain ⟨id, result, returned, pcbs, holds⟩ := getting_step taken.move get
  obtain ⟨vacant, sched, kept⟩ := still_after_last_get (system_run further) (system_run onward) (quiet_labels quiet) leaving
  have adds := no_add_before_break further onward quiet leaving id done
  have nothing : result = none := holds.symm.trans (vacant id).1
  rw [nothing] at returned
  have same : m.sys.sched.mlqReadyQueue = before.sys.sched.mlqReadyQueue := by
    rw [sched (quiet_labels adds)]
    cases (Sched.getMlqProc_taken returned).2 with
    | nothing same => exact same
  have queued : 1 ≤ m.sys.queued p := by
    have placed := placed_of_run small (system_run run) p (by rw [live]; rfl)
    have free : m.sys.held p = 0 := Tally.total_eq_zero fun id => by
      rw [show (m.sys.cpus id).inUse = none by rw [Cpu.inUse, stopped id]; exact (leaving id).1]
      rfl
    have idle : m.sys.loading p = 0 := by
      rw [State.loading, (loading_of_run (system_run run)).done.mp done]
      rfl
    omega
  obtain ⟨q, member⟩ := queued_somewhere queued
  rw [same] at member
  constructor
  · obtain ⟨served, steady⟩ := Sched.steady_of_run (scheduler_run (system_run reached))
    apply steady.overlooked (congrArg Prod.fst returned)
    show (before.sys.sched.mlqReadyQueue q).empty = false
    rw [Queue.empty, Queue.size, beq_eq_false_iff_ne]
    exact Nat.ne_of_gt (List.length_pos_of_mem member)
  · have alive := (Orderly.of_run (system_run reached)).queued_live member
    cases pcb : before.sys.pcbs p with
    | live pc' =>
      have still := kept p pc' (by rw [pcbs]; exact pcb)
      cases Pcb.live.inj (still.symm.trans live)
      exact ⟨p, pc, q, member, pcb, less⟩
    | _ => rw [pcb] at alive; cases alive

/-- What is in a ready queue at the last call of `get_proc` is left undone. -/
private theorem queued_work_left {before : Clocked cfg} (reached : Steps (Step startTime) (start cfg) earlier before)
    (taken : Step startTime before event after) (onward : Steps (Step startTime) after later m) (get : event.isGet = true)
    (quiet : ∀ event ∈ later, event.isGet = false) (stopped : ∀ id, (m.sys.cpus id).point = .stopped)
    (work : before.sys.WorkQueued cfg) : ∃ p < cfg.processes.length, ∃ pc, m.sys.pcbs p = .live pc ∧ pc < (cfg.text p).length := by
  obtain ⟨p, pc, _, _, live, less⟩ := work
  have further := reached.tail taken
  have leaving := leaving_of_stopped (further.trans onward) stopped
  obtain ⟨_, _, _, pcbs, _⟩ := getting_step taken.move get
  have kept := (still_after_last_get (system_run further) (system_run onward) (quiet_labels quiet) leaving).2.2
  refine ⟨p, ?_, pc, ?_, less⟩
  · apply (Orderly.of_run (system_run reached)).known_of_live
    rw [live]
    rfl
  · apply kept
    rw [pcbs]
    exact live

/-- A process that is not through when the last CPU stops was ready at the last call of
`get_proc`, and this call overlooked it. -/
theorem unfinished_was_overlooked (run : Steps (Step startTime) (start cfg) events m) (small : cfg.processes.length ≤ maxQueueSize)
    (done : m.sys.done = true) (stopped : ∀ id, (m.sys.cpus id).point = .stopped) (some : 0 < cfg.numCpus) {p : Nat}
    (inside : p < cfg.processes.length) (unfinished : ¬m.sys.Ended cfg (events.filterMap ClockedEvent.sys) p) :
    ∃ earlier last later before after, events = earlier ++ last :: later ∧ Steps (Step startTime) (start cfg) earlier before ∧
      Step startTime before last after ∧ Steps (Step startTime) after later m ∧ last.isGet = true ∧
      (∀ event ∈ later, event.isGet = false) ∧ before.sys.sched.Overlooked ∧ before.sys.WorkQueued cfg := by
  have loading := loading_of_run (system_run run)
  have leaving := leaving_of_stopped run stopped
  have left : ∃ pc, m.sys.pcbs p = .live pc ∧ pc < (cfg.text p).length := by
    cases pcb : m.sys.pcbs p with
    | unloaded => exact absurd pcb (loading.past p inside (by rw [loading.done.mp done]; trivial))
    | freed => exact absurd (ended_of_pcb (system_run run) (.inl pcb)) unfinished
    | live pc =>
      refine ⟨pc, rfl, Nat.lt_of_le_of_ne (pc_le (system_run run) p pc pcb) fun whole => unfinished ?_⟩
      exact ended_of_pcb (system_run run) (.inr (whole ▸ pcb))
  obtain ⟨pc, pcb, less⟩ := left
  rcases run.last_marked ClockedEvent.isGet with never | ⟨earlier, last, later, before, after, cut, get, quiet, reached, taken, onward⟩
  · -- a CPU that calls `get_proc` never is still at the head of its loop
    have first := (still_after_last_get (.refl _) (system_run run) (quiet_labels never) leaving).1 ⟨0, some⟩
    rcases first.2 with head | head <;> cases head
  · exact ⟨earlier, last, later, before, after, cut, reached, taken, onward, get, quiet,
      unfinished_overlooked reached taken onward get quiet small done stopped pcb less⟩

/-- The processes have all been executed to the end when the last CPU stops, exactly where
there is a CPU and the last call of `get_proc` did not overlook one that has not. -/
theorem stops_only_when_done_iff (run : Steps (Step startTime) (start cfg) events m) (small : cfg.processes.length ≤ maxQueueSize)
    (done : m.sys.done = true) (stopped : ∀ id, (m.sys.cpus id).point = .stopped) :
    (∀ p < cfg.processes.length, m.sys.Ended cfg (events.filterMap ClockedEvent.sys) p) ↔
      (cfg.numCpus = 0 → ∀ p < cfg.processes.length, cfg.text p = []) ∧
      ∀ earlier last later before after, events = earlier ++ last :: later → Steps (Step startTime) (start cfg) earlier before →
        Step startTime before last after → Steps (Step startTime) after later m → last.isGet = true →
        (∀ event ∈ later, event.isGet = false) → ¬(before.sys.sched.Overlooked ∧ before.sys.WorkQueued cfg) := by
  have loading := loading_of_run (system_run run)
  have finished := loading.done.mp done
  constructor
  · intro ended
    refine ⟨fun none p inside => ?_, ?_⟩
    · rcases untouched none (system_run run) with unloaded | fresh
      · exact absurd unloaded (loading.past p inside (by rw [finished]; trivial))
      · rcases (ended p inside).1 with freed | live
        · cases fresh.symm.trans freed
        · exact List.length_eq_zero_iff.mp (Pcb.live.inj (live.symm.trans fresh))
    · intro earlier last later before after _ reached taken onward get quiet overlooked
      obtain ⟨p, inside, pc, left, less⟩ := queued_work_left reached taken onward get quiet stopped overlooked.2
      rcases (ended p inside).1 with freed | whole
      · cases left.symm.trans freed
      · exact absurd (Pcb.live.inj (left.symm.trans whole)) (Nat.ne_of_lt less)
  · intro condition p inside
    obtain ⟨none, calm⟩ := condition
    by_contra unfinished
    rcases Nat.eq_zero_or_pos cfg.numCpus with zero | some
    · rcases untouched zero (system_run run) with unloaded | fresh
      · exact absurd unloaded (loading.past p inside (by rw [finished]; trivial))
      · refine unfinished (ended_of_pcb (system_run run) (.inr ?_))
        rw [none zero p inside]
        exact fresh
    · obtain ⟨earlier, last, later, before, after, cut, reached, taken, onward, get, quiet, overlooked⟩ :=
        unfinished_was_overlooked run small done stopped some inside unfinished
      exact calm earlier last later before after cut reached taken onward get quiet overlooked

section Examples

theorem performAll_steps {acts : List (ClockedAct cfg.numCpus)} (ran : performAll startTime m acts = .ok (events, after)) :
    Steps (Step startTime) m events after := by
  induction acts generalizing m events with
  | nil => cases ran; exact .refl _
  | cons act acts ih =>
    obtain ⟨⟨event, middle⟩, performed, ran⟩ := Outcome.bind_eq_ok ran
    obtain ⟨⟨rest, last⟩, later, ran⟩ := Outcome.bind_eq_ok ran
    cases ran
    exact (ih later).cons ⟨act, performed⟩

/-- What the only CPU and the loader do in three slots, with the timer's steps in between. -/
private def threeSlots (first second third : List (ClockedAct 1)) : List (ClockedAct 1) :=
  first ++ List.replicate 8 .timer ++ second ++ List.replicate 8 .timer ++ third

private def loads (steps : Nat) : List (ClockedAct 1) := List.replicate steps (.thread .loader)

private def works (steps : Nat) : List (ClockedAct 1) := List.replicate steps (.thread (.cpu 0))

set_option maxRecDepth 20000 in
theorem stops_only_when_done_iff_twoCalcs : ∃ events m, Steps (Step fun _ => 0) (start twoCalcs) events m ∧ m.sys.pcbs 0 = .freed ∧
    (twoCalcs.numCpus = 0 → ∀ p < 1, twoCalcs.text p = []) ∧
    ∀ earlier last later before after, events = earlier ++ last :: later → Steps (Step fun _ => 0) (start twoCalcs) earlier before →
      Step (fun _ => 0) before last after → Steps (Step fun _ => 0) after later m → last.isGet = true →
      (∀ event ∈ later, event.isGet = false) → ¬(before.sys.sched.Overlooked ∧ before.sys.WorkQueued twoCalcs) := by
  have check : (performAll (fun _ => 0) (start twoCalcs) (threeSlots (loads 3 ++ works 6) (loads 3 ++ works 8) (works 6))).map
      (fun result => (result.2.sys.done, (result.2.sys.cpus onlyCpu).point, result.2.sys.pcbs 0)) = .ok (true, .stopped, .freed) := rfl
  cases ran : performAll (fun _ => 0) (start twoCalcs) (threeSlots (loads 3 ++ works 6) (loads 3 ++ works 8) (works 6)) with
  | error fault => rw [ran] at check; cases check
  | ok result =>
    obtain ⟨events, m⟩ := result
    rw [ran] at check
    have facts := Except.ok.inj check
    simp only [Prod.mk.injEq] at facts
    obtain ⟨done, stopped, freed⟩ := facts
    have run := performAll_steps ran
    refine ⟨events, m, run, freed, (stops_only_when_done_iff run (by decide) done ?_).mp ?_⟩
    · intro id
      rw [onlyCpu_eq id]
      exact stopped
    · intro p inside
      have only : p = 0 := Nat.lt_one_iff.mp inside
      rw [only]
      exact ended_of_pcb (system_run run) (.inl freed)

/-- Two processes at the last level, which has one slot. -/
def lastLevelCalcs : Config :=
  { twoCalcs with
    timeSlot := 2
    processes := [
      { program := { priority := 0, text := List.replicate 2 ⟨.calc, 0, 0, 0, 0⟩, size_lt := by decide }, prio := 139 },
      { program := { priority := 0, text := List.replicate 1 ⟨.calc, 0, 0, 0, 0⟩, size_lt := by decide }, prio := 139 }]
    processes_lt := by decide }

set_option maxRecDepth 20000 in
/-- The CPU frees the first process, finds the slot of its level used up and leaves; the
second process is never executed. -/
theorem second_process_never_executed : ∃ events m, Steps (Step fun _ => 0) (start lastLevelCalcs) events m ∧
    lastLevelCalcs.processes.length ≤ maxQueueSize ∧ (∀ p < 2, (lastLevelCalcs.priorities.prio p).toNat < maxPrio) ∧
    1 ≤ lastLevelCalcs.timeSlot ∧ m.sys.done = true ∧ (∀ id, (m.sys.cpus id).point = .stopped) ∧
    (m.sys.sched.mlqReadyQueue ⟨139, by decide⟩).procs = [1] ∧ m.sys.pcbs 1 = .live 0 ∧ (lastLevelCalcs.text 1).length = 1 := by
  have check : (performAll (fun _ => 0) (start lastLevelCalcs)
      (threeSlots (loads 3 ++ works 6) (loads 4 ++ works 6) (loads 3 ++ works 6))).map
      (fun result => (result.2.sys.done, (result.2.sys.cpus ⟨0, by decide⟩).point,
        (result.2.sys.sched.mlqReadyQueue ⟨139, by decide⟩).procs, result.2.sys.pcbs 1)) = .ok (true, .stopped, [1], .live 0) := rfl
  cases ran : performAll (fun _ => 0) (start lastLevelCalcs) (threeSlots (loads 3 ++ works 6) (loads 4 ++ works 6) (loads 3 ++ works 6)) with
  | error fault => rw [ran] at check; cases check
  | ok result =>
    obtain ⟨events, m⟩ := result
    rw [ran] at check
    have facts := Except.ok.inj check
    simp only [Prod.mk.injEq] at facts
    obtain ⟨done, stopped, left, live⟩ := facts
    refine ⟨events, m, performAll_steps ran, by decide, by decide, by decide, done, fun id => ?_, left, live, rfl⟩
    have bound : id.val < 1 := id.isLt
    rw [show id = ⟨0, by decide⟩ from Fin.ext (Nat.lt_one_iff.mp bound)]
    exact stopped

end Examples
end Clocked
end LamiaAtrium
