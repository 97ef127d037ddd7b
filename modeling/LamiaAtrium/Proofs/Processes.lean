import LamiaAtrium.Proofs.Threads

/-! Where the processes are in a running system: no process is in two places, and each of
its instructions is fetched once. -/

namespace LamiaAtrium
open Run

/-- The positions at which `run` fetched an instruction of `p`, in order. -/
def fetches {n : Nat} (p : Nat) (labels : List (Thread n × Event)) : List Nat :=
  labels.filterMap fun label =>
    match label.2 with
    | .fetched proc index => if proc = p then some index else none
    | _ => none

def finished {n : Nat} (labels : List (Thread n × Event)) : List Nat :=
  labels.filterMap fun label =>
    match label.2 with
    | .finished proc => some proc
    | _ => none

namespace State
variable {n : Nat} (s : State n) (p : Nat)

def queued : Nat := s.sched.queued (· == p)

def held : Nat := Tally.total (fun cpu => (decide (cpu.inUse = some p)).toNat) s.cpus

def loading : Nat := (decide (s.loader = .add p)).toNat

theorem held_setCpu (id : Fin n) (cpu : Cpu) :
    (s.setCpu id cpu).held p + (decide ((s.cpus id).inUse = some p)).toNat = s.held p + (decide (cpu.inUse = some p)).toNat :=
  Tally.total_update _ s.cpus id cpu

variable {s p}

theorem held_pos {id : Fin n} (uses : (s.cpus id).inUse = some p) : 1 ≤ s.held p := by
  have single := Tally.weight_le_total (fun cpu : Cpu => (decide (cpu.inUse = some p)).toNat) s.cpus id
  simpa [held, uses] using single

theorem held_pair {first second : Fin n} (distinct : first ≠ second) (usesFirst : (s.cpus first).inUse = some p)
    (usesSecond : (s.cpus second).inUse = some p) : 2 ≤ s.held p := by
  have pair := Tally.pair_le_total (fun cpu : Cpu => (decide (cpu.inUse = some p)).toNat) s.cpus distinct
  simpa [held, usesFirst, usesSecond] using pair

private theorem beq_toNat (q p : Nat) : (q == p).toNat = (decide (some q = some p)).toNat := by
  by_cases same : q = p <;> simp [same]

section Moves
variable (p) {id : Fin n} {cpu : Cpu} {q : Nat}

theorem held_same (same : cpu.inUse = (s.cpus id).inUse) : (s.setCpu id cpu).held p = s.held p := by
  have moved := s.held_setCpu p id cpu
  rw [same] at moved
  exact Nat.add_right_cancel moved

theorem held_entered (idle : (s.cpus id).inUse = none) :
    (s.setCpu id cpu).held p = s.held p + (decide (cpu.inUse = some p)).toNat := by
  have moved := s.held_setCpu p id cpu
  rwa [idle, decide_eq_false nofun] at moved

theorem held_left (uses : (s.cpus id).inUse = some q) (idle : cpu.inUse = none) :
    (s.setCpu id cpu).held p + (q == p).toNat = s.held p := by
  have moved := s.held_setCpu p id cpu
  rw [beq_toNat]
  rwa [uses, idle, decide_eq_false (p := none = some p) nofun] at moved

variable {pr : Priorities Nat} {sched : Sched Nat}

theorem queued_returned {result : Option Nat} (stepped : Sched.Step pr s.sched (.returned result) sched) :
    sched.queued (· == p) + (decide (result = some p)).toNat = s.queued p := by
  have moved := stepped.served.queued (· == p)
  cases result with
  | none => exact moved
  | some q => rwa [← beq_toNat]

/-- A full level turns the process away. -/
theorem queued_inserted {call : Sched.Call Nat} {room : Bool} (stepped : Sched.Step pr s.sched call sched)
    (insertion : call = .added q room ∨ call = .putBack q room) : sched.queued (· == p) ≤ s.queued p + (q == p).toNat := by
  have moved := stepped.served.queued (· == p)
  have atMost : (room && q == p).toNat ≤ (q == p).toNat := by
    cases room with
    | true => exact Nat.le_refl _
    | false => exact Nat.zero_le _
  rcases insertion with rfl | rfl <;> exact moved.le.trans (Nat.add_le_add_left atMost _)

end Moves

end State

def Loader.Before : Loader → Nat → Prop
  | .load i, p => i ≤ p
  | .add i, p => i < p
  | .finished, _ => False

def Pcb.isLive : Pcb → Bool
  | .live _ => true
  | _ => false

/-- How many instructions of a program of `size` instructions have been fetched. -/
def Pcb.progress (size : Nat) : Pcb → Nat
  | .unloaded => 0
  | .live pc => pc
  | .freed => size

/-- Processes are loaded in order. A live process is in at most one place, and no other
process is in any. What has been fetched of a process is the part of its program before
its `pc`, all of it once it is freed. -/
structure Orderly (cfg : Config) (labels : List (Thread cfg.numCpus × Event)) (s : State cfg.numCpus) : Prop where
  ahead : ∀ p, s.loader.Before p → s.pcbs p = .unloaded
  known : ∀ p, s.pcbs p ≠ .unloaded → p < cfg.processes.length
  alone : ∀ p, s.queued p + s.held p + s.loading p ≤ (s.pcbs p).isLive.toNat
  finishing : ∀ id p, (s.cpus id).point = .finish → (s.cpus id).proc = some p → s.pcbs p = .live (cfg.text p).length
  fetched : ∀ p, fetches p labels = List.range ((s.pcbs p).progress (cfg.text p).length)
  ended : ∀ p, s.pcbs p = .freed ↔ p ∈ finished labels

namespace Orderly
variable {cfg : Config} {labels : List (Thread cfg.numCpus × Event)} {s after : State cfg.numCpus} {p : Nat}

theorem live_of_uses (orderly : Orderly cfg labels s) {id : Fin cfg.numCpus} (uses : (s.cpus id).inUse = some p) :
    ∃ pc, s.pcbs p = .live pc := by
  have here := State.held_pos uses
  have alone := orderly.alone p
  cases pcb : s.pcbs p with
  | live pc => exact ⟨pc, rfl⟩
  | _ =>
    have nowhere : s.queued p + s.held p + s.loading p ≤ 0 := by rwa [pcb] at alone
    omega

theorem loading_live (orderly : Orderly cfg labels s) {i : Nat} (adding : s.loader = .add i) : ∃ pc, s.pcbs i = .live pc := by
  have alone := orderly.alone i
  have here : s.loading i = 1 := by simp [State.loading, adding]
  cases pcb : s.pcbs i with
  | live pc => exact ⟨pc, rfl⟩
  | _ =>
    have nowhere : s.queued i + s.held i + s.loading i ≤ 0 := by rwa [pcb] at alone
    omega

theorem uses_unique (orderly : Orderly cfg labels s) {first second : Fin cfg.numCpus} (usesFirst : (s.cpus first).inUse = some p)
    (usesSecond : (s.cpus second).inUse = some p) : first = second := by
  by_contra distinct
  have pair := State.held_pair distinct usesFirst usesSecond
  have alone := orderly.alone p
  have most := Bool.toNat_le (s.pcbs p).isLive
  omega

private theorem alone_kept (orderly : Orderly cfg labels s) {thread : Thread cfg.numCpus} {event : Event}
    (effect : Effect cfg s thread event after) (p : Nat) :
    after.queued p + after.held p + after.loading p ≤ (after.pcbs p).isLive.toNat := by
  have alone := orderly.alone p
  cases effect with
  | rested => exact alone
  | moved id cpu same _ =>
    rw [← State.held_same p same] at alone
    exact alone
  | executed id cpu q stat mem same _ =>
    rw [← State.held_same p same] at alone
    exact alone
  | took id cpu result sched idle used _ stepped =>
    -- the process leaves its level for the variable of this CPU
    have queued := State.queued_returned p stepped
    have held : (s.setCpu id cpu).held p = s.held p + (decide (result = some p)).toNat := used ▸ State.held_entered p idle
    change sched.queued (· == p) + (s.setCpu id cpu).held p + s.loading p ≤ _
    change _ ≤ (s.pcbs p).isLive.toNat
    omega
  | putBack id cpu q room sched uses idle _ stepped =>
    have queued := State.queued_inserted p stepped (.inr rfl)
    have held := State.held_left p uses idle
    change sched.queued (· == p) + (s.setCpu id cpu).held p + s.loading p ≤ _
    change _ ≤ (s.pcbs p).isLive.toNat
    omega
  | finished id cpu q finish holds idle _ =>
    have uses : (s.cpus id).inUse = some q := by rw [Cpu.inUse, finish]; exact holds
    have held := State.held_left p uses idle
    change s.queued p + (s.setCpu id cpu).held p + s.loading p ≤ (Function.update s.pcbs q .freed p).isLive.toNat
    by_cases same : p = q
    · have most := Bool.toNat_le (s.pcbs p).isLive
      have gone : (q == p).toNat = 1 := by rw [same, beq_self_eq_true]; rfl
      rw [same, Function.update_self, ← same]
      change _ ≤ 0
      omega
    · rw [Function.update_of_ne same]
      omega
  | fetched id cpu q pc ins uses used _ read _ =>
    change s.queued p + (s.setCpu id cpu).held p + s.loading p ≤ (Function.update s.pcbs q (.live (pc + 1)) p).isLive.toNat
    rw [State.held_same p (used.trans uses.symm)]
    by_cases same : p = q
    · rw [same, Function.update_self]
      rwa [same, read] at alone
    · rwa [Function.update_of_ne same]
  | loaded i here inside =>
    have fresh := orderly.ahead i (by rw [here]; exact Nat.le_refl i)
    change s.queued p + s.held p + (decide (Loader.add i = .add p)).toNat ≤ (Function.update s.pcbs i (.live 0) p).isLive.toNat
    by_cases same : p = i
    · rw [same] at alone ⊢
      rw [fresh] at alone
      rw [Function.update_self, decide_eq_true rfl]
      change s.queued i + s.held i + s.loading i ≤ 0 at alone
      change s.queued i + s.held i + 1 ≤ 1
      omega
    · have other : Loader.add i ≠ .add p := fun equal => same (Loader.add.inj equal).symm
      rw [Function.update_of_ne same, decide_eq_false other]
      change s.queued p + s.held p + 0 ≤ _
      omega
  | completed i here =>
    change s.queued p + s.held p + 0 ≤ (s.pcbs p).isLive.toNat
    omega
  | added i room mem sched here stepped =>
    have queued := State.queued_inserted p stepped (.inl rfl)
    have loading : s.loading p = (i == p).toNat := by
      rw [State.loading, here]
      by_cases same : i = p
      · simp [same]
      · simp [same, beq_eq_false_iff_ne.mpr same]
    change sched.queued (· == p) + s.held p + 0 ≤ (s.pcbs p).isLive.toNat
    omega

section Kept
variable {thread : Thread cfg.numCpus} {event : Event} (orderly : Orderly cfg labels s) (effect : Effect cfg s thread event after)
include orderly effect

private theorem ahead_kept (p : Nat) (before : after.loader.Before p) : after.pcbs p = .unloaded := by
  have earlier : s.loader.Before p ∧ event ≠ .loaded p := by
    cases effect with
    | loaded i here _ =>
      rw [here]
      exact ⟨Nat.le_of_lt before, fun loads => Nat.lt_irrefl p (Event.loaded.inj loads ▸ before)⟩
    | completed => cases before
    | added i room mem sched here _ =>
      rw [here]
      exact ⟨before, nofun⟩
    | _ => exact ⟨before, nofun⟩
  have unloaded := orderly.ahead p earlier.1
  have changed := effect.pcb p
  generalize after.pcbs p = pcb at changed
  cases changed with
  | kept => exact unloaded
  | loaded => exact absurd rfl earlier.2
  | fetched id pc ins _ read _ => cases unloaded.symm.trans read
  | freed id finish holds => cases unloaded.symm.trans (orderly.finishing id p finish holds)

private theorem known_kept (p : Nat) (known : after.pcbs p ≠ .unloaded) : p < cfg.processes.length := by
  have changed := effect.pcb p
  generalize after.pcbs p = pcb at changed known
  cases changed with
  | kept => exact orderly.known p known
  | loaded _ inside => exact inside
  | fetched id pc ins _ read _ => exact orderly.known p (by rw [read]; nofun)
  | freed id finish holds => exact orderly.known p (by rw [orderly.finishing id p finish holds]; nofun)

private theorem fetched_kept (p : Nat) : fetches p (labels ++ [(thread, event)]) =
    List.range ((after.pcbs p).progress (cfg.text p).length) := by
  have so_far := orderly.fetched p
  have changed := effect.pcb p
  rw [fetches, List.filterMap_append, ← fetches, so_far]
  generalize after.pcbs p = pcb at changed
  cases changed with
  | kept _ _ nothing _ =>
    cases event with
    | fetched q index =>
      have other : q ≠ p := fun same => nothing index (by rw [same])
      simp [other]
    | _ => simp
  | loaded here _ =>
    rw [orderly.ahead p (by rw [here]; exact Nat.le_refl p)]
    rfl
  | fetched id pc ins _ read _ =>
    rw [read]
    simp [Pcb.progress, List.range_succ]
  | freed id finish holds =>
    rw [orderly.finishing id p finish holds]
    simp [Pcb.progress]

/-- A CPU that is about to free a process got there in this step, or was not the one that
stepped. -/
private theorem about_to_finish {id : Fin cfg.numCpus} {p : Nat} (finish : (after.cpus id).point = .finish)
    (holds : (after.cpus id).proc = some p) :
    s.pcbs p = .live (cfg.text p).length ∧ (event = .silent ∨ thread ≠ .cpu id ∧ (s.cpus id).inUse = some p) := by
  have elsewhere (same : after.cpus id = s.cpus id) (other : thread ≠ .cpu id) :
      s.pcbs p = .live (cfg.text p).length ∧ (event = .silent ∨ thread ≠ .cpu id ∧ (s.cpus id).inUse = some p) := by
    rw [same] at finish holds
    exact ⟨orderly.finishing id p finish holds, .inr ⟨other, by rw [Cpu.inUse, finish]; exact holds⟩⟩
  have stepped (own : Fin cfg.numCpus) (cpu : Cpu) (whole : after.cpus = Function.update s.cpus own cpu)
      (on : thread = .cpu own) (going : cpu.point ≠ .finish) :
      s.pcbs p = .live (cfg.text p).length ∧ (event = .silent ∨ thread ≠ .cpu id ∧ (s.cpus id).inUse = some p) := by
    by_cases same : id = own
    · rw [whole, same, Function.update_self] at finish
      exact absurd finish going
    · exact elsewhere (by rw [whole, Function.update_of_ne same]) fun here => same (Thread.cpu.inj (on ▸ here)).symm
  cases effect with
  | rested => exact ⟨orderly.finishing id p finish holds, .inl rfl⟩
  | moved own cpu _ arrives =>
    refine ⟨?_, .inl rfl⟩
    change (Function.update s.cpus own cpu id).point = _ at finish
    change (Function.update s.cpus own cpu id).proc = _ at holds
    by_cases same : id = own
    · rw [same, Function.update_self] at finish holds
      exact arrives p finish holds
    · rw [Function.update_of_ne same] at finish holds
      exact orderly.finishing id p finish holds
  | took own cpu _ _ _ _ going => exact stepped own cpu rfl rfl going
  | putBack own cpu _ _ _ _ _ going => exact stepped own cpu rfl rfl going
  | finished own cpu _ _ _ _ going => exact stepped own cpu rfl rfl going
  | fetched own cpu _ _ _ _ _ going => exact stepped own cpu rfl rfl going
  | executed own cpu _ _ _ _ going => exact stepped own cpu rfl rfl going
  | _ => exact elsewhere rfl fun here => by cases here

private theorem finishing_kept (id : Fin cfg.numCpus) (p : Nat) (finish : (after.cpus id).point = .finish)
    (holds : (after.cpus id).proc = some p) : after.pcbs p = .live (cfg.text p).length := by
  obtain ⟨atEnd, how⟩ := about_to_finish orderly effect finish holds
  have changed := effect.pcb p
  generalize after.pcbs p = pcb at changed
  cases changed with
  | kept => exact atEnd
  | loaded here _ => cases (orderly.ahead p (by rw [here]; exact Nat.le_refl p)).symm.trans atEnd
  | fetched other pc ins uses _ _ =>
    rcases how with silent | ⟨apart, own⟩
    · cases silent
    · exact absurd (congrArg Thread.cpu (orderly.uses_unique uses own)) apart
  | freed other finishOther holdsOther =>
    rcases how with silent | ⟨apart, own⟩
    · cases silent
    · have uses : (s.cpus other).inUse = some p := by rw [Cpu.inUse, finishOther]; exact holdsOther
      exact absurd (congrArg Thread.cpu (orderly.uses_unique uses own)) apart

private theorem ended_kept (p : Nat) : after.pcbs p = .freed ↔ p ∈ finished (labels ++ [(thread, event)]) := by
  have so_far := orderly.ended p
  have changed := effect.pcb p
  rw [finished, List.filterMap_append, ← finished, List.mem_append, ← so_far]
  generalize after.pcbs p = pcb at changed
  cases changed with
  | kept _ _ _ other =>
    cases event with
    | finished q =>
      have distinct : p ≠ q := fun same => other (by rw [same])
      simp [distinct]
    | _ => simp
  | loaded here _ =>
    rw [orderly.ahead p (by rw [here]; exact Nat.le_refl p)]
    simp
  | fetched id pc ins _ read _ =>
    rw [read]
    simp
  | freed id finish holds => simp

theorem step : Orderly cfg (labels ++ [(thread, event)]) after where
  ahead := ahead_kept orderly effect
  known := known_kept orderly effect
  alone := alone_kept orderly effect
  finishing := finishing_kept orderly effect
  fetched := fetched_kept orderly effect
  ended := ended_kept orderly effect

end Kept

private theorem boot_orderly (cfg : Config) : Orderly cfg [] (boot cfg) where
  ahead _ _ := rfl
  known _ known := absurd rfl known
  alone p := by
    have queued : (boot cfg).queued p = 0 := Tally.total_eq_zero fun _ => rfl
    have held : (boot cfg).held p = 0 := Tally.total_eq_zero fun _ => rfl
    rw [queued, held]
    exact Nat.le_refl 0
  finishing _ _ finish := by cases finish
  fetched _ := rfl
  ended p := by
    constructor
    · intro freed
      cases freed
    · intro member
      cases member

theorem of_run (run : Steps (SystemStep cfg) (boot cfg) labels s) : Orderly cfg labels s :=
  run.history (Orderly cfg) (boot_orderly cfg) fun _ _ _ _ orderly taken => orderly.step (SystemStep.effect taken)

end Orderly

/-- The counter of a process stays within its program. -/
theorem pc_le {cfg : Config} {labels : List (Thread cfg.numCpus × Event)} {s : State cfg.numCpus}
    (run : Steps (SystemStep cfg) (boot cfg) labels s) : ∀ p pc, s.pcbs p = .live pc → pc ≤ (cfg.text p).length := by
  refine run.history (fun _ s => ∀ p pc, s.pcbs p = .live pc → pc ≤ (cfg.text p).length) ?_ ?_
  · intro p pc live
    cases live
  · rintro _ before ⟨thread, event⟩ after within taken p pc live
    have changed := (SystemStep.effect taken).pcb p
    generalize after.pcbs p = pcb at changed live
    cases changed with
    | kept => exact within p pc live
    | loaded =>
      cases live
      exact Nat.zero_le _
    | fetched _ _ ins _ _ text =>
      cases live
      exact (List.getElem?_eq_some_iff.mp text).1
    | freed => cases live

/-- No process is in two places, not counting a `proc` variable whose value is not used
any more; and what has been fetched of a live process is its program up to its `pc`,
each instruction once. -/
theorem no_process_in_two_places {cfg : Config} {labels : List (Thread cfg.numCpus × Event)} {s : State cfg.numCpus}
    (run : Steps (SystemStep cfg) (boot cfg) labels s) :
    (∀ p pc, s.pcbs p = .live pc → s.queued p + s.held p ≤ 1 ∧ fetches p labels = List.range pc) ∧
    (∀ p, s.pcbs p = .freed → s.queued p + s.held p = 0 ∧ fetches p labels = List.range (cfg.text p).length) ∧
    (∀ p, (fetches p labels).Nodup) ∧
    ∀ p first second, (s.cpus first).inRun = some p → (s.cpus second).inRun = some p → first = second := by
  have orderly := Orderly.of_run run
  refine ⟨?_, ?_, ?_, ?_⟩
  · intro p pc live
    have alone := orderly.alone p
    have fetched := orderly.fetched p
    rw [live] at alone fetched
    exact ⟨(Nat.le_add_right _ _).trans alone, fetched⟩
  · intro p freed
    have alone := orderly.alone p
    have fetched := orderly.fetched p
    rw [freed] at alone fetched
    exact ⟨Nat.eq_zero_of_le_zero ((Nat.le_add_right _ _).trans alone), fetched⟩
  · intro p
    rw [orderly.fetched p]
    exact List.nodup_range
  · intro p first second insideFirst insideSecond
    exact orderly.uses_unique (Cpu.inUse_of_inRun insideFirst) (Cpu.inUse_of_inRun insideSecond)

theorem no_process_in_two_places_twoCalcs : ∃ labels s, Steps (SystemStep twoCalcs) (boot twoCalcs) labels s ∧
    s.pcbs 0 = .live 1 ∧ s.queued 0 + s.held 0 ≤ 1 ∧ fetches 0 labels = List.range 1 := by
  obtain ⟨labels, s, run, found⟩ := twoCalcs_reaches 8 (fun _ s => decide (s.pcbs 0 = .live 1)) rfl
  have live := of_decide_eq_true found
  obtain ⟨alone, fetched⟩ := (no_process_in_two_places run).1 0 1 live
  exact ⟨labels, s, run, live, alone, fetched⟩

/-- Between `put_proc(proc)` and `proc = get_proc()` a process is in its level and still
in the variable of the CPU. -/
theorem put_back_process_still_in_variable : ∃ labels s, Steps (SystemStep twoCalcs) (boot twoCalcs) labels s ∧
    s.pcbs 0 = .live 1 ∧ 0 ∈ (s.sched.mlqReadyQueue ⟨0, by decide⟩).procs ∧ (s.cpus onlyCpu).proc = some 0 := by
  obtain ⟨labels, s, run, found⟩ := twoCalcs_reaches 8
    (fun _ s => decide (s.pcbs 0 = .live 1 ∧ 0 ∈ (s.sched.mlqReadyQueue ⟨0, by decide⟩).procs ∧ (s.cpus onlyCpu).proc = some 0)) rfl
  exact ⟨labels, s, run, of_decide_eq_true found⟩

end LamiaAtrium
