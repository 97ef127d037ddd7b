import LamiaAtrium.Proofs.Processes

/-! The lists that `__sys_memmap` searches for its caller. A process enters the running
list when it is put back for the first time, nothing ever leaves that list, and it is
full after 50 entries. -/

namespace LamiaAtrium
open Run

section Scan
variable {Proc : Type} {env : Env Proc} {pid : CInt} {p : Proc} {queue : List Proc}

/-- The scan selects the process if it gets to it past pcbs it may read. -/
theorem Env.scan_finds_iff (own : env.pid p = some pid) (distinct : ∀ q, env.pid q = some pid → q = p) :
    env.scan pid queue = .ok (some p) ↔ ∃ earlier later, queue = earlier ++ p :: later ∧ ∀ q ∈ earlier, env.pid q ≠ none := by
  induction queue with
  | nil => simp [Env.scan]
  | cons head rest ih =>
    rw [Env.scan]
    cases here : env.pid head with
    | none =>
      constructor
      · exact nofun
      · rintro ⟨earlier, later, split, readable⟩
        cases earlier with
        | nil => cases split; cases here.symm.trans own
        | cons first earlier => cases split; exact absurd here (readable head List.mem_cons_self)
    | some other =>
      dsimp only
      by_cases same : other = pid
      · rw [if_pos same]
        have found : head = p := distinct head (same ▸ here)
        exact ⟨fun _ => ⟨[], rest, by rw [found]; rfl, nofun⟩, fun _ => by rw [found]⟩
      · rw [if_neg same, ih]
        constructor
        · rintro ⟨earlier, later, split, readable⟩
          refine ⟨head :: earlier, later, by rw [split]; rfl, ?_⟩
          intro q member
          rcases List.mem_cons.mp member with rfl | member
          · rw [here]; nofun
          · exact readable q member
        · rintro ⟨earlier, later, split, readable⟩
          cases earlier with
          | nil => cases split; exact absurd (Option.some.inj (here.symm.trans own)) same
          | cons first earlier =>
            cases split
            exact ⟨earlier, later, rfl, fun q member => readable q (List.mem_cons_of_mem _ member)⟩

theorem Env.scan_safe (readable : ∀ q ∈ queue, env.pid q ≠ none) : env.scan pid queue ≠ .error .useAfterFree := by
  induction queue with
  | nil => nofun
  | cons head rest ih =>
    rw [Env.scan]
    cases here : env.pid head with
    | none => exact absurd here (readable head List.mem_cons_self)
    | some other =>
      dsimp only
      split
      · nofun
      · exact ih fun q member => readable q (List.mem_cons_of_mem _ member)

theorem sysMemmap_code [DecidableEq Proc] {k : Krnl Proc} {regs : ScRegs} {result : Int × ScRegs × Krnl Proc}
    (found : env.findCaller pid = .ok (some p)) (returned : sysMemmap env k pid regs = .ok result) : result.1 = 0 := by
  unfold sysMemmap at returned
  rw [found, Outcome.bind_ok] at returned
  dsimp only at returned
  split at returned
  · cases returned; rfl
  split at returned
  · obtain ⟨_, _, returned⟩ := Outcome.bind_eq_ok returned
    cases returned; rfl
  split at returned
  · obtain ⟨_, _, returned⟩ := Outcome.bind_eq_ok returned
    cases returned; rfl
  split at returned
  · obtain ⟨_, _, returned⟩ := Outcome.bind_eq_ok returned
    obtain ⟨_, _, returned⟩ := Outcome.bind_eq_ok returned
    cases returned; rfl
  split at returned
  · obtain ⟨_, _, returned⟩ := Outcome.bind_eq_ok returned
    obtain ⟨_, _, returned⟩ := Outcome.bind_eq_ok returned
    cases returned; rfl
  · cases returned; rfl

end Scan

section Steps
variable {cfg : Config} {s after : State cfg.numCpus} {thread : Thread cfg.numCpus} {event : Event} {p : Nat}

private theorem used_or_returned (effect : Effect cfg s thread event after) {id : Fin cfg.numCpus}
    (uses : (after.cpus id).inUse = some p) : (s.cpus id).inUse = some p ∨ event = .call (.returned (some p)) := by
  have stepped (own : Fin cfg.numCpus) (cpu : Cpu) (whole : after.cpus = Function.update s.cpus own cpu)
      (origin : cpu.inUse = some p → (s.cpus own).inUse = some p ∨ event = .call (.returned (some p))) :
      (s.cpus id).inUse = some p ∨ event = .call (.returned (some p)) := by
    rw [whole] at uses
    by_cases same : id = own
    · rw [same, Function.update_self] at uses
      rw [same]
      exact origin uses
    · rw [Function.update_of_ne same] at uses
      exact .inl uses
  cases effect with
  | moved own cpu same _ => exact stepped own cpu rfl fun uses => .inl (same ▸ uses)
  | took own cpu result sched _ result_eq _ _ => exact stepped own cpu rfl fun uses => .inr (by rw [← result_eq, uses])
  | putBack own cpu q _ _ _ unused _ _ => exact stepped own cpu rfl fun uses => by cases unused.symm.trans uses
  | finished own cpu q _ _ unused _ => exact stepped own cpu rfl fun uses => by cases unused.symm.trans uses
  | fetched own cpu q pc ins before now _ _ _ => exact stepped own cpu rfl fun uses => .inl (before.trans (now.symm.trans uses))
  | executed own cpu q stat mem same _ => exact stepped own cpu rfl fun uses => .inl (same ▸ uses)
  | _ => exact .inl uses

private theorem loaded_kept (effect : Effect cfg s thread event after) (loaded : s.pcbs p ≠ .unloaded) :
    after.pcbs p ≠ .unloaded := by
  have changed := effect.pcb p
  generalize after.pcbs p = pcb at changed
  cases changed with
  | kept => exact loaded
  | _ => nofun

end Steps

section Runs
variable {cfg : Config} {labels : List (Thread cfg.numCpus × Event)} {s : State cfg.numCpus} {p : Nat}

/-- A CPU uses a process only after a call returned it. -/
theorem returned_of_uses (run : Steps (SystemStep cfg) (boot cfg) labels s) {id : Fin cfg.numCpus}
    (uses : (s.cpus id).inUse = some p) : .returned (some p) ∈ schedCalls labels := by
  refine run.history (fun labels s => ∀ id, (s.cpus id).inUse = some p → .returned (some p) ∈ schedCalls labels) ?_ ?_ id uses
  · intro id uses
    cases uses
  · intro labels before label after earlier taken id uses
    rw [schedCalls, List.filterMap_append, ← schedCalls, List.mem_append]
    rcases used_or_returned (SystemStep.effect taken) uses with used | returned
    · exact .inl (earlier id used)
    · exact .inr (by simp [returned])

def putBacks {n : Nat} (labels : List (Thread n × Event)) : List Nat := Sched.putBacks (schedCalls labels)

private theorem loaded_of_putBack (run : Steps (SystemStep cfg) (boot cfg) labels s) (back : p ∈ putBacks labels) :
    s.pcbs p ≠ .unloaded := by
  have both := run.history (fun labels s => Orderly cfg labels s ∧ (p ∈ putBacks labels → s.pcbs p ≠ .unloaded)) ?_ ?_
  · exact both.2 back
  · exact ⟨.of_run (.refl _), fun back => by cases back⟩
  · rintro labels before ⟨thread, event⟩ after ⟨orderly, earlier⟩ taken
    have effect := SystemStep.effect taken
    refine ⟨orderly.step effect, fun back => ?_⟩
    rw [putBacks, schedCalls, List.filterMap_append, ← schedCalls, Sched.putBacks, List.filterMap_append, List.mem_append] at back
    rcases back with old | new
    · exact loaded_kept effect (earlier old)
    · cases effect with
      | putBack id cpu q room sched uses _ _ _ =>
        simp at new
        obtain ⟨pc, live⟩ := orderly.live_of_uses uses
        change before.pcbs p ≠ .unloaded
        rw [new, live]
        exact fun same => by cases same
      | _ => simp at new

theorem pid_eq_none (run : Steps (SystemStep cfg) (boot cfg) labels s) (back : p ∈ putBacks labels) :
    s.pid p = none ↔ p ∈ finished labels := by
  have loaded := loaded_of_putBack run back
  rw [← (Orderly.of_run run).ended p, State.pid]
  cases pcb : s.pcbs p with
  | unloaded => exact absurd pcb loaded
  | live pc => simp
  | freed => simp

theorem pid_injective (orderly : Orderly cfg labels s) {q : Nat} (own : s.pid p = some (pidOf p))
    (same : s.pid q = some (pidOf p)) : q = p := by
  have bound (r : Nat) (pid : CInt) (live : s.pid r = some pid) : r < 2 ^ 31 ∧ pid = pidOf r := by
    unfold State.pid at live
    split at live
    · next pc pcb =>
      cases live
      exact ⟨Nat.lt_trans (orderly.known r (by rw [pcb]; nofun)) cfg.processes_lt, rfl⟩
    · cases live
  have boundP := (bound p _ own).1
  obtain ⟨boundQ, equal⟩ := bound q _ same
  have words := congrArg BitVec.toNat equal
  simp only [pidOf, BitVec.toNat_ofNat] at words
  omega

/-- Once the queues are linked, the search is a scan of the first 50 processes put back. -/
theorem findCaller_eq (run : Steps (SystemStep cfg) (boot cfg) labels s) (linked : s.sched.linked = true) (pid : CInt) :
    (s.env cfg).findCaller pid = (s.env cfg).scan pid ((putBacks labels).take maxQueueSize) := by
  obtain ⟨running, ready⟩ := Sched.runningList_of_run (scheduler_run run)
  rw [Env.findCaller, State.env]
  simp only [linked, if_true, ready, running]
  rfl

/-- `__sys_memmap` with the pid of `p` works on `p`, and does not answer -1. -/
def FindsCaller (cfg : Config) (s : State cfg.numCpus) (p : Nat) : Prop :=
  (s.env cfg).findCaller (pidOf p) = .ok (some p) ∧
    ∀ regs result, sysMemmap (s.env cfg) s.mem (pidOf p) regs = .ok result → result.1 ≠ -1

/-- A running process is found exactly if it was put back among the first 50, and no
process put back before it has finished since. -/
theorem memmap_finds_caller_iff (run : Steps (SystemStep cfg) (boot cfg) labels s) {id : Fin cfg.numCpus}
    (inside : (s.cpus id).inRun = some p) :
    FindsCaller cfg s p ↔
      ∃ earlier later, (putBacks labels).take maxQueueSize = earlier ++ p :: later ∧ ∀ q ∈ earlier, q ∉ finished labels := by
  have orderly := Orderly.of_run run
  have uses := Cpu.inUse_of_inRun inside
  obtain ⟨pc, live⟩ := orderly.live_of_uses uses
  have linked := Sched.linked_of_returned (scheduler_run run) (returned_of_uses run uses)
  have own : (s.env cfg).pid p = some (pidOf p) := by
    change s.pid p = _
    rw [State.pid, live]
  have scanned : (s.env cfg).findCaller (pidOf p) = .ok (some p) ↔
      ∃ earlier later, (putBacks labels).take maxQueueSize = earlier ++ p :: later ∧ ∀ q ∈ earlier, (s.env cfg).pid q ≠ none := by
    rw [findCaller_eq run linked]
    exact Env.scan_finds_iff own fun q => pid_injective orderly own
  have readable {earlier later : List Nat} (split : (putBacks labels).take maxQueueSize = earlier ++ p :: later) :
      (∀ q ∈ earlier, (s.env cfg).pid q ≠ none) ↔ ∀ q ∈ earlier, q ∉ finished labels := by
    refine forall₂_congr fun q member => not_congr (pid_eq_none run ?_)
    exact List.mem_of_mem_take (split ▸ List.mem_append_left _ member)
  constructor
  · rintro ⟨found, _⟩
    obtain ⟨earlier, later, split, alive⟩ := scanned.mp found
    exact ⟨earlier, later, split, (readable split).mp alive⟩
  · rintro ⟨earlier, later, split, alive⟩
    have found := scanned.mpr ⟨earlier, later, split, (readable split).mpr alive⟩
    exact ⟨found, fun regs result returned => by rw [sysMemmap_code found returned]; decide⟩

theorem memmap_finds_caller_iff_twoCalcs : ∃ labels s, Steps (SystemStep twoCalcs) (boot twoCalcs) labels s ∧
    (s.cpus onlyCpu).inRun = some 0 ∧ FindsCaller twoCalcs s 0 := by
  obtain ⟨labels, s, run, found⟩ := twoCalcs_reaches 11
    (fun labels s => decide ((s.cpus onlyCpu).inRun = some 0 ∧ putBacks labels = [0])) rfl
  obtain ⟨inside, back⟩ := of_decide_eq_true found
  exact ⟨labels, s, run, inside, (memmap_finds_caller_iff run inside).mpr ⟨[], [], by rw [back]; rfl, nofun⟩⟩

/-- On its first dispatch a process is in neither list, and its system call fails. -/
theorem first_dispatch_not_found : ∃ labels s, Steps (SystemStep twoCalcs) (boot twoCalcs) labels s ∧
    (s.cpus onlyCpu).inRun = some 0 ∧ (s.env twoCalcs).findCaller (pidOf 0) = .ok none ∧
    ∀ regs, sysMemmap (s.env twoCalcs) s.mem (pidOf 0) regs = .ok (-1, regs, s.mem) := by
  obtain ⟨labels, s, run, found⟩ := twoCalcs_reaches 4
    (fun _ s => decide ((s.cpus onlyCpu).inRun = some 0) && ((s.env twoCalcs).findCaller (pidOf 0)).toOption == some none) rfl
  obtain ⟨inside, missing⟩ := Bool.and_eq_true_iff.mp found
  have absent : (s.env twoCalcs).findCaller (pidOf 0) = .ok none := by
    cases search : (s.env twoCalcs).findCaller (pidOf 0) with
    | error fault => rw [search] at missing; cases missing
    | ok result => rw [search] at missing; exact congrArg Except.ok (Option.some.inj (eq_of_beq missing))
  refine ⟨labels, s, run, of_decide_eq_true inside, absent, fun regs => ?_⟩
  rw [sysMemmap, absent]
  rfl

def NoDeadEntry {n : Nat} (s : State n) : Prop :=
  ∀ q, q ∈ s.sched.readyQueue.procs ∨ q ∈ s.sched.runningList.procs ∨ (∃ level, q ∈ (s.sched.mlqReadyQueue level).procs) →
    s.pcbs q ≠ .freed

private theorem queued_live (orderly : Orderly cfg labels s) {level : Fin maxPrio} (member : p ∈ (s.sched.mlqReadyQueue level).procs) :
    s.pcbs p ≠ .freed := by
  intro freed
  have alone := orderly.alone p
  have here := Tally.weight_le_total (fun q : Queue Nat => q.procs.countP (· == p)) s.sched.mlqReadyQueue level
  have counted : 0 < (s.sched.mlqReadyQueue level).procs.countP (· == p) := List.countP_pos_iff.mpr ⟨p, member, beq_self_eq_true p⟩
  rw [freed] at alone
  unfold State.queued Sched.queued at alone
  exact absurd (Nat.lt_of_lt_of_le counted here) (by simp [Pcb.isLive] at alone; omega)

/-- The lists stay free of dead processes, and the search reads no freed pcb, exactly as
long as none of the first 50 processes put back has finished. -/
theorem no_dead_entry_iff (run : Steps (SystemStep cfg) (boot cfg) labels s) :
    (NoDeadEntry s ∧ ∀ pid, (s.env cfg).findCaller pid ≠ .error .useAfterFree) ↔
      ∀ p ∈ (putBacks labels).take maxQueueSize, p ∉ finished labels := by
  have orderly := Orderly.of_run run
  obtain ⟨running, ready⟩ := Sched.runningList_of_run (scheduler_run run)
  constructor
  · rintro ⟨alive, _⟩ p member ends
    exact alive p (.inr (.inl (running ▸ member))) ((orderly.ended p).mpr ends)
  · intro alive
    constructor
    · rintro q (waiting | runs | ⟨level, queued⟩)
      · rw [ready] at waiting
        cases waiting
      · rw [running] at runs
        exact fun freed => alive q runs ((orderly.ended q).mp freed)
      · exact queued_live orderly queued
    · intro pid
      cases linked : s.sched.linked with
      | false => rw [Env.findCaller, State.env, linked]; nofun
      | true =>
        rw [findCaller_eq run linked]
        refine Env.scan_safe fun q member => ?_
        exact fun unreadable => alive q member ((pid_eq_none run (List.mem_of_mem_take member)).mp unreadable)

theorem no_dead_entry_iff_twoCalcs : ∃ labels s, Steps (SystemStep twoCalcs) (boot twoCalcs) labels s ∧
    s.sched.runningList.procs = [0] ∧ NoDeadEntry s := by
  obtain ⟨labels, s, run, found⟩ := twoCalcs_reaches 8
    (fun labels s => decide (s.sched.runningList.procs = [0] ∧ finished labels = [])) rfl
  obtain ⟨running, unfinished⟩ := of_decide_eq_true found
  refine ⟨labels, s, run, running, ((no_dead_entry_iff run).mpr fun p _ => ?_).1⟩
  rw [unfinished]
  exact List.not_mem_nil

/-- The running list still refers to the process after it has finished and its pcb is
freed, and the search for any other pid reads it there. -/
theorem finished_process_still_listed : ∃ labels s, Steps (SystemStep twoCalcs) (boot twoCalcs) labels s ∧
    0 ∈ s.sched.runningList.procs ∧ s.pcbs 0 = .freed ∧ ∀ pid, (s.env twoCalcs).findCaller pid = .error .useAfterFree := by
  obtain ⟨labels, s, run, found⟩ := twoCalcs_reaches 15
    (fun _ s => decide (s.sched.linked = true ∧ s.sched.readyQueue.procs = [] ∧ s.sched.runningList.procs = [0] ∧ s.pcbs 0 = .freed)) rfl
  obtain ⟨linked, ready, running, freed⟩ := of_decide_eq_true found
  refine ⟨labels, s, run, running ▸ List.mem_singleton_self 0, freed, fun pid => ?_⟩
  simp [Env.findCaller, State.env, linked, ready, running, Env.scanQueue, Env.scan, State.pid, freed]

end Runs
end LamiaAtrium
