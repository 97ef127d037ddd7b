import LamiaAtrium.System
import LamiaAtrium.Proofs.Scheduler

/-! What a step of a thread can do: the inversion lemma that the invariants of the system
are derived from, what it says about one pcb, and the calls of the scheduler in a run. -/

namespace LamiaAtrium
open Run

namespace Cpu

/-- The process in `proc`, while `cpu_routine` is still going to use it. After `put_proc`
and `free`, and before a `get_proc`, the variable is only waiting to be overwritten. -/
def inUse (cpu : Cpu) : Option Nat :=
  match cpu.point with
  | .load | .refill | .switch => none
  | _ => cpu.proc

def inRun (cpu : Cpu) : Option Nat :=
  match cpu.point with
  | .run | .execute _ => cpu.proc
  | _ => none

theorem inUse_of_inRun {cpu : Cpu} {p : Nat} (inside : cpu.inRun = some p) : cpu.inUse = some p := by
  unfold inRun at inside
  unfold inUse
  cases point : cpu.point <;> simp_all

end Cpu

section Effect
variable {cfg : Config} {s after : State cfg.numCpus} {thread : Thread cfg.numCpus} {event : Event}

/-- Everything one step of a thread can do. -/
inductive Effect (cfg : Config) (s : State cfg.numCpus) : Thread cfg.numCpus → Event → State cfg.numCpus → Prop where
  /-- A thread that is through. -/
  | rested (thread : Thread cfg.numCpus) : Effect cfg s thread .silent s
  /-- A move inside `cpu_routine`; it goes to free a process only at its end. -/
  | moved (id : Fin cfg.numCpus) (cpu : Cpu) :
      cpu.inUse = (s.cpus id).inUse →
      (∀ p, cpu.point = .finish → cpu.proc = some p → s.pcbs p = .live (cfg.text p).length) →
      Effect cfg s (.cpu id) .silent (s.setCpu id cpu)
  | took (id : Fin cfg.numCpus) (cpu : Cpu) (result : Option Nat) (sched : Sched Nat) :
      (s.cpus id).inUse = none → cpu.inUse = result → cpu.point ≠ .finish →
      Sched.Step cfg.priorities s.sched (.returned result) sched →
      Effect cfg s (.cpu id) (.call (.returned result)) ({ s with sched }.setCpu id cpu)
  | putBack (id : Fin cfg.numCpus) (cpu : Cpu) (p : Nat) (room : Bool) (sched : Sched Nat) :
      (s.cpus id).inUse = some p → cpu.inUse = none → cpu.point ≠ .finish →
      Sched.Step cfg.priorities s.sched (.putBack p room) sched →
      Effect cfg s (.cpu id) (.call (.putBack p room)) ({ s with sched }.setCpu id cpu)
  | finished (id : Fin cfg.numCpus) (cpu : Cpu) (p : Nat) :
      (s.cpus id).point = .finish → (s.cpus id).proc = some p → cpu.inUse = none → cpu.point ≠ .finish →
      Effect cfg s (.cpu id) (.finished p) ((s.setPcb p .freed).setCpu id cpu)
  | fetched (id : Fin cfg.numCpus) (cpu : Cpu) (p pc : Nat) (ins : Inst) :
      (s.cpus id).inUse = some p → cpu.inUse = some p → cpu.point ≠ .finish →
      s.pcbs p = .live pc → (cfg.text p)[pc]? = some ins →
      Effect cfg s (.cpu id) (.fetched p pc) ((s.setPcb p (.live (pc + 1))).setCpu id cpu)
  | executed (id : Fin cfg.numCpus) (cpu : Cpu) (p : Nat) (stat : Int) (mem : Krnl Nat) :
      cpu.inUse = (s.cpus id).inUse → cpu.point ≠ .finish →
      Effect cfg s (.cpu id) (.executed p stat) ({ s with mem }.setCpu id cpu)
  | loaded (i : Nat) :
      s.loader = .load i → i < cfg.processes.length →
      Effect cfg s .loader (.loaded i) { s.setPcb i (.live 0) with loader := .add i }
  | completed (i : Nat) :
      s.loader = .load i → Effect cfg s .loader .silent { s with done := true, loader := .finished }
  | added (i : Nat) (room : Bool) (mem : Krnl Nat) (sched : Sched Nat) :
      s.loader = .add i → Sched.Step cfg.priorities s.sched (.added i room) sched →
      Effect cfg s .loader (.call (.added i room)) { s with mem, sched, loader := .load (i + 1) }

private theorem pc_ok {n : Nat} {s : State n} {p pc : Nat} (read : s.pc p = .ok pc) : s.pcbs p = .live pc := by
  unfold State.pc at read
  split at read <;> cases read
  assumption

private theorem current_ok {cpu : Cpu} {p : Nat} (held : cpu.current = .ok p) : cpu.proc = some p := by
  unfold Cpu.current at held
  split at held <;> cases held
  assumption

theorem getProc_step {result : Option Nat} {sched : Sched Nat}
    (returned : Sched.getMlqProc cfg.priorities s.sched = (result, sched)) :
    Sched.Step cfg.priorities s.sched (.returned result) sched := ⟨.get, by rw [Sched.serve, returned]; rfl⟩

private theorem loaderStep_effect (taken : loaderStep cfg s = .ok (event, after)) : Effect cfg s .loader event after := by
  unfold loaderStep at taken
  split at taken
  · next i here =>
    split at taken
    · next inside => cases taken; exact .loaded i here inside
    · cases taken; exact .completed i here
  · next i here =>
    obtain ⟨⟨call, sched⟩, served, taken⟩ := Outcome.bind_eq_ok taken
    cases taken
    have stepped : Sched.Step cfg.priorities s.sched call sched := ⟨_, served⟩
    obtain ⟨inserted, _, served⟩ := Outcome.bind_eq_ok served
    cases served
    exact .added i _ _ _ here stepped
  · cases taken
    exact .rested _

private theorem headStep_effect {id : Fin cfg.numCpus} {p pc : Nat} (head : (s.cpus id).point = .head)
    (busy : (s.cpus id).proc = some p) (read : s.pcbs p = .live pc) :
    Effect cfg s (.cpu id) .silent (s.setCpu id { s.cpus id with
      point := if pc = (cfg.text p).length then .finish else if (s.cpus id).timeLeft = 0 then .putBack else .recheck }) := by
  refine .moved id _ ?_ ?_
  · by_cases last : pc = (cfg.text p).length
    · simp [Cpu.inUse, head, last]
    · by_cases used : (s.cpus id).timeLeft = 0 <;> simp [Cpu.inUse, head, last, used]
  · intro q finish holds
    cases busy.symm.trans holds
    by_cases last : pc = (cfg.text p).length
    · rw [read, last]
    · by_cases used : (s.cpus id).timeLeft = 0 <;> simp [last, used] at finish

private theorem loadStep_cpu (cpu : Cpu) (result : Option Nat) :
    ({ cpu with proc := result, point := if result.isNone then .skip else .recheck } : Cpu).inUse = result ∧
      (if result.isNone then Point.skip else .recheck) ≠ .finish := by
  cases result <;> exact ⟨rfl, nofun⟩

/-- One step of a CPU, with the point it is taken at and the variables after it. -/
inductive Move (cfg : Config) (s : State cfg.numCpus) (id : Fin cfg.numCpus) : Event → State cfg.numCpus → Prop where
  | idle : (s.cpus id).point = .head → (s.cpus id).proc = none → Move cfg s id .silent (s.setCpu id { s.cpus id with point := .load })
  | checked (p pc : Nat) :
      (s.cpus id).point = .head → (s.cpus id).proc = some p → s.pcbs p = .live pc →
      Move cfg s id .silent (s.setCpu id { s.cpus id with
        point := if pc = (cfg.text p).length then .finish else if (s.cpus id).timeLeft = 0 then .putBack else .recheck })
  | loaded (result : Option Nat) (sched : Sched Nat) :
      (s.cpus id).point = .load → Sched.getMlqProc cfg.priorities s.sched = (result, sched) →
      Move cfg s id (.call (.returned result)) ({ s with sched }.setCpu id { s.cpus id with
        proc := result, point := if result.isNone then .skip else .recheck })
  | freed (p pc : Nat) :
      (s.cpus id).point = .finish → (s.cpus id).proc = some p → s.pcbs p = .live pc →
      Move cfg s id (.finished p) ((s.setPcb p .freed).setCpu id { s.cpus id with point := .refill })
  | refilled (result : Option Nat) (sched : Sched Nat) :
      (s.cpus id).point = .refill → Sched.getMlqProc cfg.priorities s.sched = (result, sched) →
      Move cfg s id (.call (.returned result)) ({ s with sched }.setCpu id { proc := result, timeLeft := 0, point := .recheck })
  | putBack (p : Nat) (room : Bool) (sched : Sched Nat) :
      (s.cpus id).point = .putBack → (s.cpus id).proc = some p → Sched.Step cfg.priorities s.sched (.putBack p room) sched →
      Move cfg s id (.call (.putBack p room)) ({ s with sched }.setCpu id { s.cpus id with point := .switch })
  | switched (result : Option Nat) (sched : Sched Nat) :
      (s.cpus id).point = .switch → Sched.getMlqProc cfg.priorities s.sched = (result, sched) →
      Move cfg s id (.call (.returned result)) ({ s with sched }.setCpu id { s.cpus id with proc := result, point := .recheck })
  | vacant :
      (s.cpus id).point = .recheck → (s.cpus id).proc = none →
      Move cfg s id .silent (s.setCpu id { s.cpus id with point := if s.done then .stopped else .skip })
  | dispatched (p : Nat) (timeLeft : Int) :
      (s.cpus id).point = .recheck → (s.cpus id).proc = some p →
      Move cfg s id .silent (s.setCpu id { s.cpus id with timeLeft, point := .run })
  | exhausted (p pc : Nat) :
      (s.cpus id).point = .run → (s.cpus id).proc = some p → s.pcbs p = .live pc → (cfg.text p)[pc]? = none →
      Move cfg s id .silent (s.setCpu id { s.cpus id with point := .slot })
  | fetched (p pc : Nat) (ins : Inst) :
      (s.cpus id).point = .run → (s.cpus id).proc = some p → s.pcbs p = .live pc → (cfg.text p)[pc]? = some ins →
      Move cfg s id (.fetched p pc) ((s.setPcb p (.live (pc + 1))).setCpu id { s.cpus id with point := .execute ins })
  | executed (p : Nat) (ins : Inst) (stat : Int) (mem : Krnl Nat) :
      (s.cpus id).point = .execute ins → Move cfg s id (.executed p stat) ({ s with mem }.setCpu id { s.cpus id with point := .slot })
  | nextSlot : (s.cpus id).point = .slot →
      Move cfg s id .silent (s.setCpu id { s.cpus id with timeLeft := (s.cpus id).timeLeft - 1, point := .head })
  | skipped : (s.cpus id).point = .skip → Move cfg s id .silent (s.setCpu id { s.cpus id with point := .head })
  | stopped : (s.cpus id).point = .stopped → Move cfg s id .silent s

theorem cpuStep_move {id : Fin cfg.numCpus} (taken : cpuStep cfg s id = .ok (event, after)) : Move cfg s id event after := by
  unfold cpuStep at taken
  dsimp only at taken
  split at taken
  · next head =>
    split at taken
    · next none => cases taken; exact .idle head none
    · next p busy =>
      obtain ⟨pc, read, taken⟩ := Outcome.bind_eq_ok taken
      cases taken
      exact .checked p pc head busy (pc_ok read)
  · next load => cases taken; exact .loaded _ _ load rfl
  · next finish =>
    obtain ⟨p, held, taken⟩ := Outcome.bind_eq_ok taken
    obtain ⟨pc, read, taken⟩ := Outcome.bind_eq_ok taken
    cases taken
    exact .freed p pc finish (current_ok held) (pc_ok read)
  · next refill => cases taken; exact .refilled _ _ refill rfl
  · next putBack =>
    obtain ⟨p, held, taken⟩ := Outcome.bind_eq_ok taken
    obtain ⟨_, _, taken⟩ := Outcome.bind_eq_ok taken
    obtain ⟨⟨call, sched⟩, served, taken⟩ := Outcome.bind_eq_ok taken
    cases taken
    have stepped : Sched.Step cfg.priorities s.sched call sched := ⟨_, served⟩
    obtain ⟨inserted, _, served⟩ := Outcome.bind_eq_ok served
    cases served
    exact .putBack p _ _ putBack (current_ok held) stepped
  · next switch => cases taken; exact .switched _ _ switch rfl
  · next recheck =>
    split at taken
    · next none => cases taken; exact .vacant recheck none
    · next p busy => cases taken; exact .dispatched p _ recheck busy
  · next run =>
    obtain ⟨p, held, taken⟩ := Outcome.bind_eq_ok taken
    obtain ⟨pc, read, taken⟩ := Outcome.bind_eq_ok taken
    split at taken
    · next ended => cases taken; exact .exhausted p pc run (current_ok held) (pc_ok read) ended
    · next ins text => cases taken; exact .fetched p pc ins run (current_ok held) (pc_ok read) text
  · next ins execute =>
    obtain ⟨p, held, taken⟩ := Outcome.bind_eq_ok taken
    obtain ⟨_, _, taken⟩ := Outcome.bind_eq_ok taken
    obtain ⟨⟨stat, mem⟩, _, taken⟩ := Outcome.bind_eq_ok taken
    cases taken
    exact .executed p ins stat mem execute
  · next slot => cases taken; exact .nextSlot slot
  · next skip => cases taken; exact .skipped skip
  · next stopped => cases taken; exact .stopped stopped

namespace Move
variable {id other : Fin cfg.numCpus} (move : Move cfg s id event after)
include move

theorem done : after.done = s.done := by
  cases move <;> rfl

theorem loader : after.loader = s.loader := by
  cases move <;> rfl

theorem elsewhere (distinct : other ≠ id) : after.cpus other = s.cpus other := by
  cases move with
  | stopped _ => rfl
  | _ => exact Function.update_of_ne distinct ..

end Move

theorem State.setCpu_same {n : Nat} (s : State n) (id : Fin n) (cpu : Cpu) : (s.setCpu id cpu).cpus id = cpu := Function.update_self ..

/-- A CPU stops only where it sees `done` and has no process. -/
theorem Move.stops {id : Fin cfg.numCpus} (move : Move cfg s id event after) (stopped : (after.cpus id).point = .stopped) :
    after.cpus id = s.cpus id ∨ s.done = true ∧ (after.cpus id).proc = none := by
  cases move with
  | stopped here => exact .inl rfl
  | checked =>
    rw [State.setCpu_same] at stopped
    dsimp only at stopped
    split at stopped
    · cases stopped
    · split at stopped <;> cases stopped
  | loaded result =>
    rw [State.setCpu_same] at stopped
    cases result <;> cases stopped
  | vacant _ vacant =>
    rw [State.setCpu_same] at stopped ⊢
    cases done : s.done with
    | true => exact .inr ⟨rfl, vacant⟩
    | false => rw [done] at stopped; cases stopped
  | _ =>
    rw [State.setCpu_same] at stopped
    cases stopped

private theorem Move.effect {id : Fin cfg.numCpus} (move : Move cfg s id event after) : Effect cfg s (.cpu id) event after := by
  cases move with
  | idle head none => exact .moved id _ (by simp [Cpu.inUse, head, none]) (fun _ finish => by cases finish)
  | checked p pc head busy read => exact headStep_effect head busy read
  | loaded result sched load returned =>
    obtain ⟨used, going⟩ := loadStep_cpu (s.cpus id) result
    exact .took id _ _ _ (by simp [Cpu.inUse, load]) used going (getProc_step returned)
  | freed p pc finish held _ => exact .finished id _ p finish held rfl nofun
  | refilled result sched refill returned => exact .took id _ _ _ (by simp [Cpu.inUse, refill]) rfl nofun (getProc_step returned)
  | putBack p room sched point held stepped =>
    exact .putBack id _ p _ _ (by simp [Cpu.inUse, point, held]) rfl nofun stepped
  | switched result sched switch returned => exact .took id _ _ _ (by simp [Cpu.inUse, switch]) rfl nofun (getProc_step returned)
  | vacant recheck none =>
    refine .moved id _ ?_ ?_
    all_goals
      cases s.done <;> simp [Cpu.inUse, none, recheck]
  | dispatched p timeLeft recheck _ => exact .moved id _ (by simp [Cpu.inUse, recheck]) (fun _ finish => by cases finish)
  | exhausted p pc run _ _ _ => exact .moved id _ (by simp [Cpu.inUse, run]) (fun _ finish => by cases finish)
  | fetched p pc ins run held read text => exact .fetched id _ p pc ins (by simp [Cpu.inUse, run, held]) held nofun read text
  | executed p ins stat mem execute => exact .executed id _ p stat mem (by simp [Cpu.inUse, execute]) nofun
  | nextSlot slot => exact .moved id _ (by simp [Cpu.inUse, slot]) (fun _ finish => by cases finish)
  | skipped skip => exact .moved id _ (by simp [Cpu.inUse, skip]) (fun _ finish => by cases finish)
  | stopped _ => exact .rested _

theorem SystemStep.effect {label : Thread cfg.numCpus × Event} (taken : SystemStep cfg s label after) :
    Effect cfg s label.1 label.2 after := by
  obtain ⟨thread, event⟩ := label
  cases thread with
  | loader => exact loaderStep_effect taken
  | cpu id => exact (cpuStep_move taken).effect

inductive PcbEffect (cfg : Config) (s : State cfg.numCpus) (p : Nat) : Thread cfg.numCpus → Event → Pcb → Prop where
  | kept (thread : Thread cfg.numCpus) (event : Event) :
      (∀ index, event ≠ .fetched p index) → event ≠ .finished p → PcbEffect cfg s p thread event (s.pcbs p)
  | loaded : s.loader = .load p → p < cfg.processes.length → PcbEffect cfg s p .loader (.loaded p) (.live 0)
  | fetched (id : Fin cfg.numCpus) (pc : Nat) (ins : Inst) :
      (s.cpus id).inUse = some p → s.pcbs p = .live pc → (cfg.text p)[pc]? = some ins →
      PcbEffect cfg s p (.cpu id) (.fetched p pc) (.live (pc + 1))
  | freed (id : Fin cfg.numCpus) :
      (s.cpus id).point = .finish → (s.cpus id).proc = some p → PcbEffect cfg s p (.cpu id) (.finished p) .freed

theorem Effect.pcb (effect : Effect cfg s thread event after) (p : Nat) : PcbEffect cfg s p thread event (after.pcbs p) := by
  cases effect with
  | rested => exact .kept _ _ nofun nofun
  | moved => exact .kept _ _ nofun nofun
  | took => exact .kept _ _ nofun nofun
  | putBack => exact .kept _ _ nofun nofun
  | executed => exact .kept _ _ nofun nofun
  | completed => exact .kept _ _ nofun nofun
  | added => exact .kept _ _ nofun nofun
  | finished id cpu q finish holds =>
    change PcbEffect cfg s p _ _ (Function.update s.pcbs q .freed p)
    by_cases same : p = q
    · rw [same, Function.update_self]
      exact .freed id finish holds
    · rw [Function.update_of_ne same]
      exact .kept _ _ nofun fun ends => same (Event.finished.inj ends).symm
  | fetched id cpu q pc ins before used _ read text =>
    change PcbEffect cfg s p _ _ (Function.update s.pcbs q (.live (pc + 1)) p)
    by_cases same : p = q
    · rw [same, Function.update_self]
      exact .fetched id pc ins before read text
    · rw [Function.update_of_ne same]
      exact .kept _ _ (fun index fetch => same (Event.fetched.inj fetch).1.symm) nofun
  | loaded i here inside =>
    change PcbEffect cfg s p _ _ (Function.update s.pcbs i (.live 0) p)
    by_cases same : p = i
    · rw [same, Function.update_self]
      exact .loaded here inside
    · rw [Function.update_of_ne same]
      exact .kept _ _ nofun nofun

end Effect

def schedCalls {n : Nat} (labels : List (Thread n × Event)) : List (Sched.Call Nat) :=
  labels.filterMap fun label =>
    match label.2 with
    | .call call => some call
    | _ => none

/-- A thread leaves the variables of the others alone. -/
theorem threadStep_elsewhere {cfg : Config} {s after : State cfg.numCpus} {thread : Thread cfg.numCpus} {event : Event}
    (taken : threadStep cfg s thread = .ok (event, after)) :
    (∀ id, thread ≠ .cpu id → after.cpus id = s.cpus id) ∧ (thread ≠ .loader → after.loader = s.loader) := by
  cases thread with
  | cpu id =>
    have move := cpuStep_move taken
    exact ⟨fun other apart => move.elsewhere fun same => apart (by rw [same]), fun _ => move.loader⟩
  | loader =>
    refine ⟨fun id _ => ?_, fun apart => absurd rfl apart⟩
    cases loaderStep_effect taken <;> rfl

/-- What the system does to the queues is a run of the scheduler. -/
theorem scheduler_run {cfg : Config} {labels : List (Thread cfg.numCpus × Event)} {s : State cfg.numCpus}
    (run : Steps (SystemStep cfg) (boot cfg) labels s) :
    Steps (Sched.Step cfg.priorities) Sched.initScheduler (schedCalls labels) s.sched := by
  refine run.component State.sched _ fun before label after taken => ?_
  have effect := SystemStep.effect taken
  obtain ⟨thread, event⟩ := label
  cases effect with
  | took _ _ _ _ _ _ _ stepped => exact .inr ⟨_, rfl, stepped⟩
  | putBack _ _ _ _ _ _ _ _ stepped => exact .inr ⟨_, rfl, stepped⟩
  | added _ _ _ _ _ stepped => exact .inr ⟨_, rfl, stepped⟩
  | _ => exact .inl ⟨rfl, rfl⟩

theorem runThreads_steps {cfg : Config} {threads : List (Thread cfg.numCpus)} {labels : List (Thread cfg.numCpus × Event)}
    {s after : State cfg.numCpus} (ran : runThreads cfg s threads = .ok (labels, after)) :
    Steps (SystemStep cfg) s labels after := by
  induction threads generalizing s labels with
  | nil => cases ran; exact .refl _
  | cons thread rest ih =>
    obtain ⟨⟨event, middle⟩, stepped, ran⟩ := Outcome.bind_eq_ok ran
    obtain ⟨⟨labels, last⟩, later, ran⟩ := Outcome.bind_eq_ok ran
    cases ran
    exact (ih later).cons stepped

private def calcInst : Inst := { opcode := .calc, arg0 := 0, arg1 := 0, arg2 := 0, arg3 := 0 }

/-- One CPU and one process of two instructions, which takes turns with itself. -/
def twoCalcs : Config where
  timeSlot := 1
  numCpus := 1
  processes := [{ program := { priority := 0, text := List.replicate 2 calcInst, size_lt := by decide }, prio := 0 }]
  processes_lt := by decide
  mram := { storage := fun _ => 0, maxsz := 0, rdmflg := true, cursor := 0, freeFpList := [] }
  activeMswp := { storage := fun _ => 0, maxsz := 0, rdmflg := true, cursor := 0, freeFpList := [] }
  os := 0x4040
  uninit := 0
  heap := fun _ => some []

def onlyCpu : Fin twoCalcs.numCpus := ⟨0, by decide⟩

theorem onlyCpu_eq (id : Fin twoCalcs.numCpus) : id = onlyCpu := by
  have bound : id.val < 1 := id.isLt
  exact Fin.ext (Nat.lt_one_iff.mp bound)

/-- The process is loaded and added; then the CPU takes `steps` steps. -/
def twoCalcsAfter (steps : Nat) : Outcome (List (Thread twoCalcs.numCpus × Event) × State twoCalcs.numCpus) :=
  runThreads twoCalcs (boot twoCalcs) (.loader :: .loader :: List.replicate steps (.cpu onlyCpu))

theorem twoCalcs_reaches (steps : Nat) (holds : List (Thread twoCalcs.numCpus × Event) → State twoCalcs.numCpus → Bool)
    (checked : (twoCalcsAfter steps).map (fun result => holds result.1 result.2) = .ok true) :
    ∃ labels s, Steps (SystemStep twoCalcs) (boot twoCalcs) labels s ∧ holds labels s = true := by
  unfold twoCalcsAfter at checked
  cases ran : runThreads twoCalcs (boot twoCalcs) (.loader :: .loader :: List.replicate steps (.cpu onlyCpu)) with
  | error fault => rw [ran] at checked; cases checked
  | ok result =>
    rw [ran] at checked
    exact ⟨result.1, result.2, runThreads_steps ran, Except.ok.inj checked⟩

end LamiaAtrium
