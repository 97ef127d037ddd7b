import LamiaAtrium.CpuRoutine
import LamiaAtrium.Proofs.Processes

/-! The quantum of a dispatch: `time_left` from `get_proc` to `put_proc` or `free`, first for one
CPU with any `get_proc`, then for each CPU of the system. -/

namespace LamiaAtrium
open Run
variable {Proc : Type}

def CpuEvent.instruction : CpuEvent Proc → Option (Proc × Nat)
  | .ran proc index => some (proc, index)
  | _ => none

/-- The process in `proc` comes or goes. -/
def CpuEvent.transfers : CpuEvent Proc → Bool
  | .returned _ | .putBack _ | .finished _ => true
  | _ => false

/-- What a CPU does with a process that came with this `pc`: it executes `count` instructions in
a row and then puts the process back or, if and only if that was the last instruction, ends it. -/
structure Turn (text : Proc → List Inst) (p : Proc) (pc count : Nat) (during : List (CpuEvent Proc)) (ending : CpuEvent Proc)
    (last : CpuVars Proc) : Prop where
  instructions : during.filterMap CpuEvent.instruction = (List.range count).map fun i => (p, pc + i)
  keeps : ∀ event ∈ during, event.transfers = false
  reached : last.pc = pc + count
  ending : ending = .finished p ∧ last.pc = (text p).length ∨ ending = .putBack p ∧ last.pc < (text p).length

section Steps
variable {timeSlot timeLeft : Int} {text : Proc → List Inst} {c after : CpuVars Proc} {event : CpuEvent Proc} {p : Proc} {pc : Nat}

/-- A step that does not depend on what `get_proc` answers is the only one. -/
theorem forced_of_eq (same : ∀ answer done, cpuRoutine timeSlot text answer done c = .ok (event, after)) :
    Forced (CpuStep timeSlot text) c [event] after := by
  refine .head ⟨none, false, nofun, same _ _⟩ ?_ (.refl _)
  intro other next taken
  obtain ⟨answer, done, _, ran⟩ := taken
  cases (same answer done).symm.trans ran
  exact ⟨rfl, rfl⟩

theorem dispatch_forced : Forced (CpuStep timeSlot text) ⟨.recheck, some p, pc, timeLeft⟩ [.silent]
    ⟨.run, some p, pc, if timeLeft = 0 then timeSlot else timeLeft⟩ := forced_of_eq fun _ _ => rfl

theorem slot_forced : Forced (CpuStep timeSlot text) ⟨.slot, some p, pc, timeLeft⟩ [.silent] ⟨.head, some p, pc, timeLeft - 1⟩ :=
  forced_of_eq fun _ _ => rfl

/-- `run` at an instruction. -/
theorem run_forced (inside : pc < (text p).length) :
    Forced (CpuStep timeSlot text) ⟨.run, some p, pc, timeLeft⟩ [.ran p pc, .silent] ⟨.slot, some p, pc + 1, timeLeft⟩ := by
  have fetched := List.getElem?_eq_getElem inside
  have fetches : Forced (CpuStep timeSlot text) ⟨.run, some p, pc, timeLeft⟩ [.ran p pc]
      ⟨.execute (text p)[pc], some p, pc + 1, timeLeft⟩ := by
    apply forced_of_eq
    intro answer done
    simp only [cpuRoutine, CpuVars.current, Outcome.bind_ok, fetched]
    rfl
  exact fetches.trans (forced_of_eq fun _ _ => rfl)

/-- `run` behind the last instruction. -/
theorem run_forced_end (behind : pc = (text p).length) :
    Forced (CpuStep timeSlot text) ⟨.run, some p, pc, timeLeft⟩ [.silent] ⟨.slot, some p, pc, timeLeft⟩ := by
  have ended : (text p)[pc]? = none := List.getElem?_eq_none (Nat.le_of_eq behind.symm)
  apply forced_of_eq
  intro answer done
  simp only [cpuRoutine, CpuVars.current, Outcome.bind_ok, ended]
  rfl

theorem head_forced : Forced (CpuStep timeSlot text) ⟨.head, some p, pc, timeLeft⟩ [.silent]
    ⟨if pc = (text p).length then .finish else if timeLeft = 0 then .putBack else .recheck, some p, pc, timeLeft⟩ :=
  forced_of_eq fun _ _ => rfl

theorem finish_forced : Forced (CpuStep timeSlot text) ⟨.finish, some p, pc, timeLeft⟩ [.finished p] ⟨.refill, some p, pc, timeLeft⟩ :=
  forced_of_eq fun _ _ => rfl

theorem putBack_forced : Forced (CpuStep timeSlot text) ⟨.putBack, some p, pc, timeLeft⟩ [.putBack p] ⟨.switch, some p, pc, timeLeft⟩ :=
  forced_of_eq fun _ _ => rfl

end Steps

section Turns
variable {timeSlot timeLeft : Int} {text : Proc → List Inst} {p : Proc} {pc count : Nat} {during : List (CpuEvent Proc)}
  {ending : CpuEvent Proc} {last : CpuVars Proc}

/-- A silent step in front of a turn. -/
theorem Turn.silent (turn : Turn text p pc count during ending last) : Turn text p pc count (.silent :: during) ending last where
  instructions := turn.instructions
  keeps event member := by
    rcases List.mem_cons.mp member with rfl | later
    · rfl
    · exact turn.keeps event later
  reached := turn.reached
  ending := turn.ending

/-- One more instruction in front of a turn. -/
theorem Turn.instruction (turn : Turn text p (pc + 1) count during ending last) :
    Turn text p pc (count + 1) (.ran p pc :: during) ending last where
  instructions := by
    change (p, pc) :: during.filterMap CpuEvent.instruction = _
    rw [turn.instructions, List.range_succ_eq_map, List.map_cons, List.map_map]
    congr 1
    apply List.map_congr_left
    intro i _
    exact congrArg (p, ·) (Nat.succ_add_eq_add_succ pc i)
  keeps event member := by
    rcases List.mem_cons.mp member with rfl | later
    · rfl
    · exact turn.keeps event later
  reached := turn.reached.trans (Nat.succ_add_eq_add_succ pc count)
  ending := turn.ending

theorem Turn.finish (behind : pc = (text p).length) : Turn text p pc 0 [] (.finished p) ⟨.refill, some p, pc, timeLeft⟩ where
  instructions := rfl
  keeps _ member := by cases member
  reached := rfl
  ending := .inl ⟨rfl, behind⟩

theorem Turn.preempted (inside : pc < (text p).length) : Turn text p pc 0 [] (.putBack p) ⟨.switch, some p, pc, timeLeft⟩ where
  instructions := rfl
  keeps _ member := by cases member
  reached := rfl
  ending := .inr ⟨rfl, inside⟩

theorem head_finish (behind : pc = (text p).length) : Forced (CpuStep timeSlot text) ⟨.head, some p, pc, timeLeft⟩
    [.silent, .finished p] ⟨.refill, some p, pc, timeLeft⟩ := by
  have checked : Forced (CpuStep timeSlot text) ⟨.head, some p, pc, timeLeft⟩ _ _ := head_forced
  rw [if_pos behind] at checked
  exact checked.trans finish_forced

theorem head_putBack (inside : pc < (text p).length) : Forced (CpuStep timeSlot text) ⟨.head, some p, pc, 0⟩
    [.silent, .putBack p] ⟨.switch, some p, pc, 0⟩ := by
  have checked : Forced (CpuStep timeSlot text) ⟨.head, some p, pc, 0⟩ _ _ := head_forced
  rw [if_neg (Nat.ne_of_lt inside), if_pos rfl] at checked
  exact checked.trans putBack_forced

theorem head_recheck (inside : pc < (text p).length) (going : timeLeft ≠ 0) : Forced (CpuStep timeSlot text)
    ⟨.head, some p, pc, timeLeft⟩ [.silent] ⟨.recheck, some p, pc, timeLeft⟩ := by
  have checked : Forced (CpuStep timeSlot text) ⟨.head, some p, pc, timeLeft⟩ _ _ := head_forced
  rwa [if_neg (Nat.ne_of_lt inside), if_neg going] at checked

/-- The events of one round of the loop that executes an instruction. -/
def roundEvents (p : Proc) (pc : Nat) : List (CpuEvent Proc) := [.silent, .ran p pc, .silent, .silent]

theorem round_forced (inside : pc < (text p).length) :
    Forced (CpuStep timeSlot text) ⟨.recheck, some p, pc, timeLeft⟩ (roundEvents p pc)
      ⟨.head, some p, pc + 1, (if timeLeft = 0 then timeSlot else timeLeft) - 1⟩ :=
  (dispatch_forced.trans (run_forced inside)).trans slot_forced

theorem Turn.round (turn : Turn text p (pc + 1) count during ending last) :
    Turn text p pc (count + 1) (roundEvents p pc ++ during) ending last :=
  turn.silent.silent.instruction.silent

/-- From the head of the loop with `left` slots of the quantum to go. -/
theorem turn_from_head (left : Nat) (within : pc ≤ (text p).length) :
    ∃ during ending last, Forced (CpuStep timeSlot text) ⟨.head, some p, pc, left⟩ (during ++ [ending]) last ∧
      Turn text p pc (min left ((text p).length - pc)) during ending last := by
  induction left generalizing pc with
  | zero =>
    rw [Nat.zero_min]
    rcases Nat.eq_or_lt_of_le within with behind | inside
    · exact ⟨_, _, _, head_finish behind, (Turn.finish behind).silent⟩
    · exact ⟨_, _, _, head_putBack inside, (Turn.preempted inside).silent⟩
  | succ left ih =>
    rcases Nat.eq_or_lt_of_le within with behind | inside
    · rw [behind, Nat.sub_self, Nat.min_zero]
      exact ⟨_, _, _, head_finish rfl, (Turn.finish rfl).silent⟩
    · obtain ⟨during, ending, last, forced, turn⟩ := ih inside
      have count : min (left + 1) ((text p).length - pc) = min left ((text p).length - (pc + 1)) + 1 := by omega
      have going : ((left + 1 : Nat) : Int) ≠ 0 := by omega
      have round : Forced (CpuStep timeSlot text) ⟨.recheck, some p, pc, (left + 1 : Nat)⟩ _ _ := round_forced inside
      rw [if_neg going, Int.natCast_add, Int.cast_ofNat_Int, Int.add_sub_cancel] at round
      rw [count]
      refine ⟨.silent :: (roundEvents p pc ++ during), ending, last, ?_, turn.round.silent⟩
      rw [List.cons_append, List.append_assoc]
      exact (head_recheck inside going).trans (round.trans forced)

/-- What follows a dispatch. -/
theorem turn_from_dispatch (positive : 1 ≤ timeSlot) (within : pc ≤ (text p).length) :
    ∃ during ending last, Forced (CpuStep timeSlot text) ⟨.recheck, some p, pc, 0⟩ (during ++ [ending]) last ∧
      Turn text p pc (min timeSlot.toNat ((text p).length - pc)) during ending last := by
  rcases Nat.eq_or_lt_of_le within with behind | inside
  · rw [behind, Nat.sub_self, Nat.min_zero]
    exact ⟨[.silent, .silent, .silent, .silent], .finished p, _,
      dispatch_forced.trans ((run_forced_end rfl).trans (slot_forced.trans (head_finish rfl))),
      (Turn.finish rfl).silent.silent.silent.silent⟩
  · obtain ⟨left, quota⟩ : ∃ left : Nat, timeSlot = (left + 1 : Nat) := ⟨timeSlot.toNat - 1, by omega⟩
    have withinNext : pc + 1 ≤ (text p).length := inside
    obtain ⟨during, ending, last, forced, turn⟩ := @turn_from_head _ timeSlot _ _ _ left withinNext
    have count : min timeSlot.toNat ((text p).length - pc) = min left ((text p).length - (pc + 1)) + 1 := by omega
    have round : Forced (CpuStep timeSlot text) ⟨.recheck, some p, pc, 0⟩ _ _ := round_forced inside
    have rest : timeSlot - 1 = left := by omega
    rw [if_pos rfl, rest] at round
    rw [count]
    refine ⟨roundEvents p pc ++ during, ending, last, ?_, turn.round⟩
    rw [List.append_assoc]
    exact round.trans forced

end Turns

section Routine
variable {timeSlot : Int} {text : Proc → List Inst} {c after : CpuVars Proc} {event : CpuEvent Proc} {events : List (CpuEvent Proc)} {p : Proc}

/-- The points at which the CPU may be without a process. -/
def Point.vacant : Point → Bool
  | .head | .load | .recheck | .skip | .stopped => true
  | _ => false

/-- Without a process there is no time left, and none when the next process comes. -/
structure NoTimeOver (c : CpuVars Proc) : Prop where
  vacant : c.proc = none → c.timeLeft = 0 ∧ c.point.vacant = true
  loading : c.point = .load → c.proc = none
  switching : c.point = .putBack ∨ c.point = .switch → c.timeLeft = 0

/-- The points at which the time left may matter to the next process. -/
def Point.waits : Point → Bool
  | .load | .putBack | .switch => true
  | _ => false

private theorem NoTimeOver.of_busy (busy : c.proc = some p) (here : c.point.waits = false) : NoTimeOver c where
  vacant none := by cases busy.symm.trans none
  loading load := by rw [load] at here; cases here
  switching switch := by rcases switch with point | point <;> (rw [point] at here; cases here)

private theorem NoTimeOver.of_timeless (busy : c.proc = some p) (here : c.point ≠ .load) (zero : c.timeLeft = 0) : NoTimeOver c where
  vacant none := by cases busy.symm.trans none
  loading load := absurd load here
  switching _ := zero

private theorem NoTimeOver.of_vacant (none : c.proc = none) (here : c.point.vacant = true) (zero : c.timeLeft = 0) : NoTimeOver c where
  vacant _ := ⟨zero, here⟩
  loading _ := none
  switching _ := zero

private theorem NoTimeOver.busy (idle : NoTimeOver c) (here : c.point.vacant = false) : ∃ p, c.proc = some p := by
  cases proc : c.proc with
  | none => cases (idle.vacant proc).2.symm.trans here
  | some p => exact ⟨p, rfl⟩

private theorem NoTimeOver.take {timeLeft : Int} {point : Point} {answer : Option (Proc × Nat)}
    (took : c.take answer timeLeft point = (event, after)) (zero : timeLeft = 0) (here : point.vacant = true) (going : point ≠ .load) :
    NoTimeOver after := by
  cases answer with
  | none =>
    cases took
    exact .of_vacant rfl here zero
  | some answer =>
    cases took
    exact .of_timeless rfl going zero

theorem NoTimeOver.step (idle : NoTimeOver c) (taken : CpuStep timeSlot text c event after) : NoTimeOver after := by
  obtain ⟨answer, done, _, ran⟩ := taken
  unfold cpuRoutine at ran
  split at ran
  · next head =>
    split at ran
    · next none =>
      cases ran
      exact .of_vacant none rfl (idle.vacant none).1
    · next p busy =>
      cases ran
      split
      · exact .of_busy busy rfl
      · split
        · next zero => exact .of_timeless busy nofun zero
        · exact .of_busy busy rfl
  · next load =>
    have zero := (idle.vacant (idle.loading load)).1
    cases answer with
    | none => exact .take (Except.ok.inj ran) zero rfl nofun
    | some answer => exact .take (Except.ok.inj ran) zero rfl nofun
  · next finish =>
    obtain ⟨p, busy⟩ := idle.busy (by rw [finish]; rfl)
    rw [CpuVars.current, busy] at ran
    cases ran
    exact .of_busy rfl rfl
  · exact .take (Except.ok.inj ran) rfl rfl nofun
  · next putBack =>
    obtain ⟨p, busy⟩ := idle.busy (by rw [putBack]; rfl)
    rw [CpuVars.current, busy] at ran
    cases ran
    exact .of_timeless rfl nofun (idle.switching (.inl putBack))
  · next switch => exact .take (Except.ok.inj ran) (idle.switching (.inr switch)) rfl nofun
  · next recheck =>
    split at ran
    · next none =>
      cases ran
      refine .of_vacant none ?_ (idle.vacant none).1
      cases done <;> rfl
    · next p busy =>
      cases ran
      exact .of_busy busy rfl
  · next run =>
    obtain ⟨p, busy⟩ := idle.busy (by rw [run]; rfl)
    rw [CpuVars.current, busy, Outcome.bind_ok] at ran
    split at ran
    · cases ran
      exact .of_busy rfl rfl
    · cases ran
      exact .of_busy rfl rfl
  · next execute =>
    obtain ⟨p, busy⟩ := idle.busy (by rw [execute]; rfl)
    cases ran
    exact .of_busy busy rfl
  · next slot =>
    obtain ⟨p, busy⟩ := idle.busy (by rw [slot]; rfl)
    cases ran
    exact .of_busy busy rfl
  · cases ran
    cases proc : c.proc with
    | none => exact .of_vacant rfl rfl (idle.vacant proc).1
    | some p => exact .of_busy rfl rfl
  · cases ran
    exact idle

theorem noTimeOver (run : Steps (CpuStep timeSlot text) .start events c) : NoTimeOver c := by
  apply run.invariant (NoTimeOver.of_vacant rfl rfl rfl)
  intro before event after idle taken
  exact idle.step taken

/-- A process comes to a CPU that has no time left. -/
theorem NoTimeOver.taken (idle : NoTimeOver c) (taken : CpuStep timeSlot text c (.returned (some p)) after) :
    after.pc ≤ (text p).length ∧ after = ⟨.recheck, some p, after.pc, 0⟩ := by
  obtain ⟨answer, done, within, ran⟩ := taken
  have took {timeLeft : Int} {point : Point} (same : c.take answer timeLeft point = (.returned (some p), after)) :
      after.pc ≤ (text p).length ∧ answer.isNone = false ∧ after = ⟨point, some p, after.pc, timeLeft⟩ := by
    cases answer with
    | none => cases same
    | some answer =>
      cases same
      exact ⟨within _ _ rfl, rfl, rfl⟩
  unfold cpuRoutine at ran
  split at ran
  · split at ran <;> cases ran
  · next load =>
    obtain ⟨small, some, same⟩ := took (Except.ok.inj ran)
    rw [some, (idle.vacant (idle.loading load)).1] at same
    exact ⟨small, same⟩
  · obtain ⟨_, _, ran⟩ := Outcome.bind_eq_ok ran
    cases ran
  · obtain ⟨small, _, same⟩ := took (Except.ok.inj ran)
    exact ⟨small, same⟩
  · obtain ⟨_, _, ran⟩ := Outcome.bind_eq_ok ran
    cases ran
  · next switch =>
    obtain ⟨small, _, same⟩ := took (Except.ok.inj ran)
    rw [idle.switching (.inr switch)] at same
    exact ⟨small, same⟩
  · split at ran <;> cases ran
  · obtain ⟨_, _, ran⟩ := Outcome.bind_eq_ok ran
    split at ran <;> cases ran
  all_goals cases ran

/-- After each `get_proc` that brings a process the CPU goes through one turn of exactly the quantum
or the rest of the program, whatever `get_proc` answers before and after. -/
theorem each_dispatch_gets_its_quantum (positive : 1 ≤ timeSlot) (run : Steps (CpuStep timeSlot text) .start events c) :
    (c.proc = none → c.timeLeft = 0) ∧
    ∀ p taken, CpuStep timeSlot text c (.returned (some p)) taken →
      ∃ during ending last, Turn text p taken.pc (min timeSlot.toNat ((text p).length - taken.pc)) during ending last ∧
        Steps (CpuStep timeSlot text) taken (during ++ [ending]) last ∧
        ∀ others other, Steps (CpuStep timeSlot text) taken others other →
          others <+: during ++ [ending] ∨ during ++ [ending] <+: others := by
  have idle := noTimeOver run
  refine ⟨fun none => (idle.vacant none).1, ?_⟩
  intro p taken returned
  obtain ⟨within, here⟩ := idle.taken returned
  obtain ⟨during, ending, last, forced, turn⟩ := turn_from_dispatch positive within
  rw [← here] at forced
  exact ⟨during, ending, last, turn, forced.run, fun _ _ => forced.comparable⟩

def threeCalcs : Unit → List Inst := fun _ => List.replicate 3 ⟨.calc, 0, 0, 0, 0⟩

theorem each_dispatch_gets_its_quantum_threeCalcs : ∃ during last, Turn threeCalcs () 0 2 during (.putBack ()) last ∧
    Steps (CpuStep 2 threeCalcs) ⟨.recheck, some (), 0, 0⟩ (during ++ [.putBack ()]) last := by
  have idle : Steps (CpuStep 2 threeCalcs) .start [.silent] ⟨.load, none, 0, 0⟩ := .single ⟨none, false, nofun, rfl⟩
  have comes : CpuStep 2 threeCalcs ⟨.load, none, 0, 0⟩ (.returned (some ())) ⟨.recheck, some (), 0, 0⟩ := by
    refine ⟨some ((), 0), false, ?_, rfl⟩
    intro proc pc same
    cases same
    exact Nat.zero_le _
  obtain ⟨_, dispatched⟩ := each_dispatch_gets_its_quantum (by decide) idle
  obtain ⟨during, ending, last, turn, ran, _⟩ := dispatched () _ comes
  rcases turn.ending with ⟨_, atEnd⟩ | ⟨same, _⟩
  · cases turn.reached.symm.trans atEnd
  · cases same
    exact ⟨during, last, turn, ran⟩

end Routine
section System
variable {cfg : Config} {labels : List (Thread cfg.numCpus × Event)} {s after : State cfg.numCpus} {id : Fin cfg.numCpus} {event : Event}
  {c : CpuVars Nat}

def Event.onCpu : Event → CpuEvent Nat
  | .call (.returned proc) => .returned proc
  | .call (.putBack proc _) => .putBack proc
  | .finished proc => .finished proc
  | .fetched proc index => .ran proc index
  | _ => .silent

/-- The steps of one CPU in a run of the system. -/
def cpuEvents {n : Nat} (id : Fin n) (labels : List (Thread n × Event)) : List (CpuEvent Nat) :=
  (labels.filter fun label => label.1 = .cpu id).map fun label => label.2.onCpu

/-- The CPU has these variables, and its process this `pc`. -/
structure Shows (s : State cfg.numCpus) (id : Fin cfg.numCpus) (c : CpuVars Nat) : Prop where
  point : c.point = (s.cpus id).point
  proc : c.proc = (s.cpus id).proc
  timeLeft : c.timeLeft = (s.cpus id).timeLeft
  pc : ∀ p, (s.cpus id).inUse = some p → s.pcbs p = .live c.pc

/-- A step of another thread does not show. -/
theorem Shows.elsewhere (shown : Shows s id c) (orderly : Orderly cfg labels s) {thread : Thread cfg.numCpus}
    (other : thread ≠ .cpu id) (taken : SystemStep cfg s (thread, event) after) : Shows after id c := by
  have effect := SystemStep.effect taken
  have same : after.cpus id = s.cpus id := by
    cases thread with
    | loader => cases effect <;> rfl
    | cpu own => exact (cpuStep_move taken).elsewhere fun here => other (congrArg _ here.symm)
  refine ⟨same ▸ shown.point, same ▸ shown.proc, same ▸ shown.timeLeft, ?_⟩
  intro p uses
  rw [same] at uses
  have live := shown.pc p uses
  have changed := effect.pcb p
  generalize after.pcbs p = pcb at changed
  cases changed with
  | kept => exact live
  | loaded here _ => cases (orderly.ahead p (by rw [here]; exact Nat.le_refl p)).symm.trans live
  | fetched own pc ins own_uses _ _ => exact absurd (congrArg Thread.cpu (orderly.uses_unique own_uses uses)) other
  | freed own finish holds =>
    have own_uses : (s.cpus own).inUse = some p := by
      rw [Cpu.inUse, finish]
      exact holds
    exact absurd (congrArg Thread.cpu (orderly.uses_unique own_uses uses)) other

theorem shows_setCpu {cpu : Cpu} (pc : Nat) (live : ∀ p, cpu.inUse = some p → s.pcbs p = .live pc) :
    Shows (s.setCpu id cpu) id ⟨cpu.point, cpu.proc, pc, cpu.timeLeft⟩ := by
  have same := State.setCpu_same s id cpu
  refine ⟨by rw [same], by rw [same], by rw [same], ?_⟩
  intro p uses
  rw [same] at uses
  exact live p uses

theorem Cpu.proc_of_inUse {cpu : Cpu} {p : Nat} (uses : cpu.inUse = some p) : cpu.proc = some p := by
  unfold Cpu.inUse at uses
  split at uses
  · cases uses
  · cases uses
  · cases uses
  · exact uses

/-- What `get_proc` gave, read as an answer with the `pc` of the process. -/
theorem shows_take (s : State cfg.numCpus) (c : CpuVars Nat) (cpu : Cpu) (came : cpu.inUse = cpu.proc)
    (known : ∀ p, cpu.inUse = some p → ∃ pc, s.pcbs p = .live pc ∧ pc ≤ (cfg.text p).length) :
    ∃ answer next, (∀ proc pc, answer = some (proc, pc) → pc ≤ (cfg.text proc).length) ∧ answer.isNone = cpu.proc.isNone ∧
      c.take answer cpu.timeLeft cpu.point = (.returned cpu.proc, next) ∧ Shows (s.setCpu id cpu) id next := by
  cases proc : cpu.proc with
  | none =>
    refine ⟨none, _, nofun, rfl, rfl, ?_⟩
    have shown : Shows (s.setCpu id cpu) id ⟨cpu.point, cpu.proc, c.pc, cpu.timeLeft⟩ := by
      apply shows_setCpu
      intro p uses
      cases proc.symm.trans (Cpu.proc_of_inUse uses)
    rwa [proc] at shown
  | some p =>
    obtain ⟨pc, live, within⟩ := known p (came.trans proc)
    refine ⟨some (p, pc), _, ?_, rfl, rfl, ?_⟩
    · intro q index same
      cases same
      exact within
    · have shown : Shows (s.setCpu id cpu) id ⟨cpu.point, cpu.proc, pc, cpu.timeLeft⟩ := by
        apply shows_setCpu
        intro q uses
        cases proc.symm.trans (Cpu.proc_of_inUse uses)
        exact live
      rwa [proc] at shown

/-- A step of the CPU itself is one of `cpu_routine`, with the answer that `get_proc` gave. -/
theorem Shows.own (shown : Shows s id c) (taken : cpuStep cfg s id = .ok (event, after))
    (known : ∀ p, (after.cpus id).inUse = some p → ∃ pc, after.pcbs p = .live pc ∧ pc ≤ (cfg.text p).length) :
    ∃ next, CpuStep cfg.timeSlot cfg.text c event.onCpu next ∧ Shows after id next := by
  obtain ⟨point, proc, pc, timeLeft⟩ := c
  obtain ⟨rfl, rfl, rfl, live⟩ := shown
  dsimp only at live
  have quiet (done : Bool) {next : CpuVars Nat}
      (ran : cpuRoutine cfg.timeSlot cfg.text none done ⟨(s.cpus id).point, (s.cpus id).proc, pc, (s.cpus id).timeLeft⟩ =
        .ok (event.onCpu, next)) :
      CpuStep cfg.timeSlot cfg.text ⟨(s.cpus id).point, (s.cpus id).proc, pc, (s.cpus id).timeLeft⟩ event.onCpu next :=
    ⟨none, done, fun _ _ same => (by cases same), ran⟩
  have kept {cpu : Cpu} (used : (s.cpus id).inUse = (s.cpus id).proc) (same : cpu.proc = (s.cpus id).proc) :
      ∀ p, cpu.inUse = some p → s.pcbs p = .live pc := by
    intro p uses
    apply live
    rw [used, ← same]
    exact Cpu.proc_of_inUse uses
  have atPc {p read : Nat} (used : (s.cpus id).inUse = some p) (here : s.pcbs p = .live read) : pc = read := by
    cases (live p used).symm.trans here
    rfl
  cases cpuStep_move taken with
  | idle head none =>
    refine ⟨_, quiet false ?_, shows_setCpu pc fun _ uses => by cases uses⟩
    simp only [cpuRoutine, head, none]
    rfl
  | checked p read head busy here =>
    have used : (s.cpus id).inUse = (s.cpus id).proc := by rw [Cpu.inUse, head]
    have same := atPc (used.trans busy) here
    refine ⟨_, quiet false ?_, shows_setCpu pc (kept used rfl)⟩
    simp only [cpuRoutine, head, busy, same]
    rfl
  | loaded result sched load returned =>
    obtain ⟨answer, next, within, isNone, took, shown⟩ := shows_take { s with sched } ⟨.load, (s.cpus id).proc, pc, (s.cpus id).timeLeft⟩
      { s.cpus id with proc := result, point := if result.isNone then .skip else .recheck }
      (by cases result <;> rfl) (by rwa [State.setCpu_same] at known)
    refine ⟨next, ⟨answer, false, within, ?_⟩, shown⟩
    dsimp only at isNone took
    rw [load, cpuRoutine, isNone]
    exact congrArg Except.ok took
  | freed p read finish holds _ =>
    refine ⟨_, quiet false ?_, shows_setCpu pc fun _ uses => by cases uses⟩
    simp only [cpuRoutine, CpuVars.current, finish, holds]
    rfl
  | refilled result sched refill returned =>
    obtain ⟨answer, next, within, _, took, shown⟩ := shows_take { s with sched } ⟨.refill, (s.cpus id).proc, pc, (s.cpus id).timeLeft⟩
      { proc := result, timeLeft := 0, point := .recheck } rfl (by rwa [State.setCpu_same] at known)
    refine ⟨next, ⟨answer, false, within, ?_⟩, shown⟩
    rw [refill]
    exact congrArg Except.ok took
  | putBack p room sched putBack holds _ =>
    refine ⟨_, quiet false ?_, shows_setCpu pc fun _ uses => by cases uses⟩
    simp only [cpuRoutine, CpuVars.current, putBack, holds]
    rfl
  | switched result sched switch returned =>
    obtain ⟨answer, next, within, _, took, shown⟩ := shows_take { s with sched } ⟨.switch, (s.cpus id).proc, pc, (s.cpus id).timeLeft⟩
      { s.cpus id with proc := result, point := .recheck } rfl (by rwa [State.setCpu_same] at known)
    refine ⟨next, ⟨answer, false, within, ?_⟩, shown⟩
    rw [switch]
    exact congrArg Except.ok took
  | vacant recheck none =>
    refine ⟨_, quiet s.done ?_, shows_setCpu pc (kept (by rw [Cpu.inUse, recheck]) rfl)⟩
    simp only [cpuRoutine, recheck, none]
    rfl
  | dispatched p timeLeft recheck busy =>
    have computed : cpuStep cfg s id = .ok (.silent, s.setCpu id { s.cpus id with
        timeLeft := if (s.cpus id).timeLeft = 0 then cfg.timeSlot else (s.cpus id).timeLeft, point := .run }) := by
      simp only [cpuStep, recheck, busy]
    rw [(Prod.mk.inj (Except.ok.inj (taken.symm.trans computed))).2]
    refine ⟨_, quiet false ?_, shows_setCpu pc (kept (by rw [Cpu.inUse, recheck]) rfl)⟩
    simp only [cpuRoutine, recheck, busy]
    rfl
  | exhausted p read run busy here ended =>
    have used : (s.cpus id).inUse = (s.cpus id).proc := by rw [Cpu.inUse, run]
    have same := atPc (used.trans busy) here
    refine ⟨_, quiet false ?_, shows_setCpu pc (kept used rfl)⟩
    simp only [cpuRoutine, CpuVars.current, run, busy, Outcome.bind_ok, same, ended]
    rfl
  | fetched p read ins run busy here fetched =>
    have used : (s.cpus id).inUse = (s.cpus id).proc := by rw [Cpu.inUse, run]
    have same := atPc (used.trans busy) here
    refine ⟨_, quiet false ?_, shows_setCpu (pc + 1) ?_⟩
    · simp only [cpuRoutine, CpuVars.current, run, busy, Outcome.bind_ok, same, fetched]
      rfl
    · intro q uses
      have holds := Cpu.proc_of_inUse uses
      dsimp only at holds
      cases busy.symm.trans holds
      rw [same]
      exact Function.update_self ..
  | executed p ins stat mem execute =>
    refine ⟨_, quiet false ?_, shows_setCpu pc (kept (by rw [Cpu.inUse, execute]) rfl)⟩
    simp only [cpuRoutine, execute]
    rfl
  | nextSlot slot =>
    refine ⟨_, quiet false ?_, shows_setCpu pc (kept (by rw [Cpu.inUse, slot]) rfl)⟩
    simp only [cpuRoutine, slot]
    rfl
  | skipped skip =>
    refine ⟨_, quiet false ?_, shows_setCpu pc (kept (by rw [Cpu.inUse, skip]) rfl)⟩
    simp only [cpuRoutine, skip]
    rfl
  | stopped stopped =>
    refine ⟨⟨_, _, pc, _⟩, quiet false ?_, ⟨rfl, rfl, rfl, live⟩⟩
    simp only [cpuRoutine, stopped]
    rfl

theorem live_within (run : Steps (SystemStep cfg) (boot cfg) labels s) {p : Nat} (uses : (s.cpus id).inUse = some p) :
    ∃ pc, s.pcbs p = .live pc ∧ pc ≤ (cfg.text p).length := by
  obtain ⟨pc, live⟩ := (Orderly.of_run run).live_of_uses uses
  exact ⟨pc, live, pc_le run p pc live⟩

theorem cpuEvents_own (labels : List (Thread cfg.numCpus × Event)) (event : Event) :
    cpuEvents id (labels ++ [(.cpu id, event)]) = cpuEvents id labels ++ [event.onCpu] := by
  simp [cpuEvents]

theorem cpuEvents_elsewhere (labels : List (Thread cfg.numCpus × Event)) {thread : Thread cfg.numCpus} (other : thread ≠ .cpu id) :
    cpuEvents id (labels ++ [(thread, event)]) = cpuEvents id labels := by
  simp [cpuEvents, other]

/-- Each CPU of the system runs `cpu_routine`, whatever the other threads do meanwhile. -/
theorem Shows.run {earlier : List (Thread cfg.numCpus × Event)} (shown : Shows s id c)
    (reached : Steps (SystemStep cfg) (boot cfg) earlier s) (run : Steps (SystemStep cfg) s labels after) :
    ∃ last, Steps (CpuStep cfg.timeSlot cfg.text) c (cpuEvents id labels) last ∧ Shows after id last := by
  induction run with
  | refl => exact ⟨c, .refl c, shown⟩
  | @tail middle after labels label upto taken ih =>
    obtain ⟨last, ran, shownMiddle⟩ := ih
    have before := reached.trans upto
    have here := before.tail taken
    obtain ⟨thread, event⟩ := label
    by_cases own : thread = .cpu id
    · subst own
      obtain ⟨next, stepped, shownAfter⟩ := shownMiddle.own taken fun _ => live_within here
      rw [cpuEvents_own]
      exact ⟨next, ran.tail stepped, shownAfter⟩
    · rw [cpuEvents_elsewhere labels own]
      exact ⟨last, ran, shownMiddle.elsewhere (Orderly.of_run before) own taken⟩

theorem cpu_runs_cpu_routine (id : Fin cfg.numCpus) (run : Steps (SystemStep cfg) (boot cfg) labels s) :
    ∃ c, Steps (CpuStep cfg.timeSlot cfg.text) .start (cpuEvents id labels) c ∧ Shows s id c := by
  have booted : Shows (boot cfg) id .start := ⟨rfl, rfl, rfl, nofun⟩
  exact booted.run (.refl _) run

/-- The turns of `cpu_routine` in a running system: what a CPU does after it got a process is
the beginning of a turn of that process, or goes on after it. -/
theorem dispatch_in_system (positive : 1 ≤ cfg.timeSlot) (run : Steps (SystemStep cfg) (boot cfg) labels s) {p : Nat}
    (taken : SystemStep cfg s (.cpu id, .call (.returned (some p))) after) :
    ∃ pc during ending last, after.pcbs p = .live pc ∧
      Turn cfg.text p pc (min cfg.timeSlot.toNat ((cfg.text p).length - pc)) during ending last ∧
      ∀ later other, Steps (SystemStep cfg) after later other →
        cpuEvents id later <+: during ++ [ending] ∨ during ++ [ending] <+: cpuEvents id later := by
  obtain ⟨c, ran, shown⟩ := cpu_runs_cpu_routine id run
  have here := run.tail taken
  obtain ⟨next, stepped, shownAfter⟩ := shown.own taken fun _ => live_within here
  obtain ⟨within, same⟩ := (noTimeOver ran).taken stepped
  obtain ⟨during, ending, last, forced, turn⟩ := turn_from_dispatch positive within
  rw [← same] at forced
  refine ⟨next.pc, during, ending, last, shownAfter.pc p ?_, turn, ?_⟩
  · rw [Cpu.inUse, ← shownAfter.point, ← shownAfter.proc, same]
  · intro later other rest
    obtain ⟨_, own, _⟩ := shownAfter.run here rest
    exact forced.comparable own

end System
end LamiaAtrium
