import LamiaAtrium.Proofs.TimeGoesOn

/-! The simulation is over after as many slots as the configuration tells: the loader is through
when the start times are, and from then on every slot of a CPU is paid from what is left to
do. -/

namespace LamiaAtrium
open Run

/-- What a configuration can cost once the loader is through. -/
def Config.budget (cfg : Config) : Nat :=
  18 * (cfg.processes.map fun line => line.program.text.length + 1).sum + 8 * cfg.processes.length + 3 + 17 * cfg.numCpus

section Budget
variable {cfg : Config} {labels : List (Thread cfg.numCpus × Event)} {s : State cfg.numCpus}

private theorem work_le (s : State cfg.numCpus) : s.work cfg ≤ (cfg.processes.map fun line => line.program.text.length + 1).sum := by
  rw [← Tally.total_getElem]
  refine Tally.total_mono fun p => ?_
  have text : cfg.text p = (cfg.processes[p]).program.text := by
    rw [Config.text, List.getElem?_eq_getElem p.isLt]
    rfl
  rw [text]
  dsimp only [id]
  unfold Pcb.left
  split
  · omega
  · exact Nat.zero_le _

/-- A process is in one level at most, and once. -/
theorem ready_le (orderly : Orderly cfg labels s) : s.ready ≤ cfg.processes.length := by
  have lengths : s.ready ≤ Tally.total (fun queue : Queue Nat => queue.procs.length) s.sched.mlqReadyQueue :=
    Tally.total_mono fun _ => List.countP_le_length
  refine lengths.trans (Tally.total_length_le (fun level p member => orderly.known_of_live (orderly.queued_live member)) fun p => ?_)
  have alone := orderly.alone p
  have most := Bool.toNat_le (s.pcbs p).isLive
  have here : Tally.total (fun queue : Queue Nat => queue.procs.count p) s.sched.mlqReadyQueue = s.queued p := rfl
  omega

theorem cost_le_budget (orderly : Orderly cfg labels s) : s.cost cfg ≤ cfg.budget := by
  have work := work_le s
  have ready := ready_le orderly
  have quota : s.quota ≤ 3 := by
    unfold State.quota
    split
    · exact Nat.zero_le 3
    · exact Nat.le_refl 3
  have ranks : s.ranks cfg ≤ Fintype.card (Fin cfg.numCpus) * 17 := Tally.total_le fun id => Point.rank_le _ _
  rw [Fintype.card_fin] at ranks
  rw [State.cost, Config.budget]
  omega

/-- At a process of the configuration, or behind the last of its `n`. -/
def Loader.Within (n : Nat) : Loader → Prop
  | .load i => i ≤ n
  | .add i => i < n
  | .finished => True

theorem loader_within (run : Steps (SystemStep cfg) (boot cfg) labels s) : s.loader.Within cfg.processes.length := by
  refine @Steps.invariant _ _ _ _ _ _ (fun s => s.loader.Within cfg.processes.length) run (Nat.zero_le _) ?_
  rintro before ⟨thread, event⟩ after within taken
  have effect := SystemStep.effect taken
  cases effect with
  | loaded i _ inside => exact inside
  | completed => trivial
  | added i room mem sched here _ =>
    rw [here] at within
    exact within
  | _ => exact within

end Budget

namespace Clocked
variable {cfg : Config} {m after : Clocked cfg} {startTime : Nat → BitVec 64} {events : List (ClockedEvent cfg.numCpus)}
  {event : ClockedEvent cfg.numCpus} {labels : List (ClockedAct cfg.numCpus × ClockedEvent cfg.numCpus)}
  {rounds : List (List (ClockedAct cfg.numCpus × ClockedEvent cfg.numCpus))}

section Loading

theorem reachedIn_mono {i n : Nat} (within : i ≤ n) : reachedIn startTime i ≤ reachedIn startTime n := by
  induction within with
  | refl => exact Nat.le_refl _
  | step _ ih => exact ih.trans ((Nat.le_max_right _ _).trans (Nat.le_succ _))

/-- A thread that is still in its loop has passed all slots but the current one, perhaps. -/
theorem ticks_le_slots (run : Steps (Step startTime) (start cfg) events m) {thread : Thread cfg.numCpus} (staying : m.left thread = false) :
    occurs .tick events ≤ slots thread events + 1 :=
  ((Timer.settled_of_run (timer_run run) (device thread)).within ((inStep_of_run run).attached thread staying)).2

private theorem loader_slots (run : Steps (Step startTime) (start cfg) events m) (short : occurs .tick events < 2 ^ 64)
    (going : m.sys.loader ≠ .finished) : slots .loader events ≤ reachedIn startTime cfg.processes.length := by
  have onTime := onTime_of_run run short
  have within := loader_within (system_run run)
  cases here : m.sys.loader with
  | finished => exact absurd here going
  | load i =>
    rw [here] at onTime within
    have most : reachedIn startTime i ≤ reachedIn startTime cfg.processes.length := reachedIn_mono within
    dsimp only [OnTime] at onTime
    split at onTime <;> omega
  | add i =>
    rw [here] at onTime within
    have most : reachedIn startTime (i + 1) ≤ reachedIn startTime cfg.processes.length := reachedIn_mono within
    have next : reachedIn startTime (i + 1) = arrival startTime i + 1 := rfl
    have due : (startTime i).toNat ≤ arrival startTime i := Nat.le_max_left _ _
    obtain ⟨_, onTime⟩ := onTime
    split at onTime <;> omega

/-- As long as the loader is not through, the time is within the slots that it needs. -/
theorem ticks_while_loading (run : Steps (Step startTime) (start cfg) events m)
    (bounded : reachedIn startTime cfg.processes.length + 2 < 2 ^ 64) (going : m.sys.loader ≠ .finished) :
    occurs .tick events ≤ reachedIn startTime cfg.processes.length + 1 := by
  induction run with
  | refl => exact Nat.zero_le _
  | @tail middle after events event upto taken ih =>
    have before : middle.sys.loader ≠ .finished := by
      intro through
      have left : middle.left .loader = true := beq_iff_eq.mpr through
      exact going (eq_of_beq (left_kept taken left))
    have sofar := ih before
    have run := upto.tail taken
    have more : occurs .tick (events ++ [event]) ≤ occurs .tick events + 1 := by
      rw [occurs_concat]
      exact Nat.add_le_add_left (Bool.toNat_le _) _
    have slots := loader_slots run (by omega) going
    have staying : after.left .loader = false := beq_eq_false_iff_ne.mpr going
    exact (ticks_le_slots run staying).trans (Nat.succ_le_succ slots)

end Loading

section Closing

/-- Once the loader is through, a CPU without a process finds one that is ready: it does not take
the idle path that leaves `done` unseen. -/
def Busy (startTime : Nat → BitVec 64) (before : Clocked cfg) (label : ClockedAct cfg.numCpus × ClockedEvent cfg.numCpus)
    (after : Clocked cfg) : Prop :=
  Acting startTime before label after ∧
    (before.sys.done = true → ∀ id own, label.2.sys = some (.cpu id, own) → (before.sys.cpus id).point = .load →
      ∃ q, (before.sys.sched.mlqReadyQueue q).empty = false)

theorem busy_acting (run : Steps (Busy startTime) m labels after) : Steps (Acting startTime) m labels after :=
  run.mono fun _ _ _ taken => taken.1

theorem left_after (run : Steps (Busy startTime) m labels after) {thread : Thread cfg.numCpus} (left : m.left thread = true) :
    after.left thread = true :=
  run.invariant left fun _ _ _ left taken => left_kept ⟨_, taken.1⟩ left

theorem occurs_append (own : TimerEvent (cfg.numCpus + 1)) (earlier later : List (ClockedEvent cfg.numCpus)) :
    occurs own (earlier ++ later) = occurs own earlier + occurs own later := by
  rw [occurs, List.filterMap_append, List.count_append]
  rfl

theorem occurs_tick (labels : List (ClockedAct cfg.numCpus × ClockedEvent cfg.numCpus)) :
    occurs .tick (labels.map Prod.snd) = ticks labels := by
  induction labels with
  | nil => rfl
  | cons label labels ih =>
    have one : occurs .tick [label.2] = [label].countP fun label => label.2.isTick := by
      rw [← List.nil_append [label.2], occurs_concat, List.countP_singleton, ClockedEvent.isTick]
      cases label.2.timer with
      | none => rfl
      | some own => cases own <;> rfl
    rw [List.map_cons, ← List.singleton_append, occurs_append, ih, one, ← List.singleton_append (l := labels)]
    exact (List.countP_append ..).symm

/-- A slot of a CPU costs at least one. -/
private theorem Busy.spends {label : ClockedAct cfg.numCpus × ClockedEvent cfg.numCpus} (closing : Closing cfg m.sys)
    (through : m.sys.loader = .finished) (taken : Busy startTime m label after) (id : Fin cfg.numCpus) :
    after.sys.cost cfg + occurs (.returned (device (.cpu id))) [label.2] ≤ m.sys.cost cfg := by
  obtain ⟨act, event⟩ := label
  obtain ⟨acted, fed⟩ := taken
  have step : Step startTime m event after := ⟨act, acted⟩
  have one : occurs (.returned (device (.cpu id))) [event] = (decide (event.timer = some (.returned (device (.cpu id))))).toNat := by
    rw [← List.nil_append [event], occurs_concat]
    exact Nat.zero_add _
  have most := Bool.toNat_le (decide (event.timer = some (.returned (device (.cpu id)))))
  dsimp only at fed ⊢
  rw [one]
  cases step.move with
  | rested => exact Nat.le_refl _
  | timed own timer _ calm =>
    rw [decide_eq_false fun same => calm _ (Option.some.inj same)]
    exact Nat.le_refl _
  | loaderReturned timer here =>
    rw [decide_eq_false fun same => by cases device_injective (TimerEvent.returned.inj (Option.some.inj same))]
    exact Nat.le_refl _
  | cpuReturned other timer own sys here _ worked =>
    have slot : (m.sys.cpus other).point = .slot ∨ (m.sys.cpus other).point = .skip := by
      rcases Bool.or_eq_true_iff.mp here with slot | skip
      · exact .inl (eq_of_beq slot)
      · exact .inr (eq_of_beq skip)
    have cheaper := closing.spends worked (fun stopped => by rcases slot with here | here <;> cases here.symm.trans stopped)
      fun load => by rcases slot with here | here <;> cases here.symm.trans load
    exact Nat.le_trans (Nat.add_le_add_left most _) cheaper
  | delayed i _ here => cases through.symm.trans here
  | worked thread own sys loaderWaits _ staying worked =>
    cases thread with
    | loader =>
      have left : m.left .loader = true := beq_iff_eq.mpr through
      cases left.symm.trans staying
    | cpu other =>
      have cheaper := closing.spends worked (beq_eq_false_iff_ne.mp staying) (fed closing.done other own rfl)
      rw [decide_eq_false (fun none => by cases none)]
      exact Nat.le_of_lt cheaper

theorem closing_of_finished (run : Steps (Step startTime) (start cfg) events m) (through : m.sys.loader = .finished) : Closing cfg m.sys :=
  ⟨⟨_, system_run run⟩, (loading_of_run (system_run run)).done.mpr through⟩

/-- The slots of a CPU are paid from the cost. -/
theorem slots_le_cost (run : Steps (Step startTime) (start cfg) events m) (through : m.sys.loader = .finished)
    (onward : Steps (Busy startTime) m labels after) (id : Fin cfg.numCpus) :
    after.sys.cost cfg + slots (.cpu id) (labels.map Prod.snd) ≤ m.sys.cost cfg := by
  refine (onward.history (fun labels after => Steps (Step startTime) (start cfg) (events ++ labels.map Prod.snd) after ∧
    after.sys.loader = .finished ∧ after.sys.cost cfg + slots (.cpu id) (labels.map Prod.snd) ≤ m.sys.cost cfg) ⟨?_, through, ?_⟩ ?_).2.2
  · rwa [List.map_nil, List.append_nil]
  · exact Nat.le_refl _
  · rintro labels before label after ⟨upto, through, sofar⟩ taken
    have step : Step startTime before label.2 after := ⟨_, taken.1⟩
    have left : before.left .loader = true := beq_iff_eq.mpr through
    have spent := taken.spends (closing_of_finished upto through) through id
    rw [List.map_append, List.map_singleton]
    refine ⟨by rw [← List.append_assoc]; exact upto.tail step, eq_of_beq (left_kept step left), ?_⟩
    rw [slots, occurs_append]
    rw [slots] at sofar
    omega

/-- From the end of the loader on, as many rounds as the state costs bring every thread to the end
of its routine. -/
theorem rounds_le_cost (run : Steps (Step startTime) (start cfg) events m) (through : m.sys.loader = .finished)
    (onward : Steps (Busy startTime) m rounds.flatten after) (each : ∀ round ∈ rounds, Round round) :
    rounds.length ≤ m.sys.cost cfg + 1 ∨ ∀ thread, after.left thread = true := by
  have reachable : Reachable startTime m := ⟨events, run⟩
  rcases reachable.rounds (busy_acting onward) each with enough | gone
  · by_cases going : ∃ thread, after.left thread = false
    · left
      obtain ⟨thread, staying⟩ := going
      have whole : Steps (Step startTime) (start cfg) (events ++ rounds.flatten.map Prod.snd) after := run.trans (acting_run (busy_acting onward))
      have earlier : m.left thread = false := by
        by_contra left
        cases staying.symm.trans (left_after onward (Bool.not_eq_false _ ▸ left))
      cases thread with
      | loader =>
        have left : m.left .loader = true := beq_iff_eq.mpr through
        cases left.symm.trans earlier
      | cpu id =>
        have spent := slots_le_cost run through onward id
        have before := slots_le run earlier
        have behind := ticks_le_slots whole staying
        rw [slots, occurs_append, occurs_append, occurs_tick] at behind
        rw [slots] at spent before
        omega
    · exact .inr fun thread => by
        by_contra staying
        exact going ⟨thread, Bool.not_eq_true _ ▸ staying⟩
  · exact .inr gone

private theorem loader_through (onward : Steps (Acting startTime) (start cfg) rounds.flatten after) (each : ∀ round ∈ rounds, Round round)
    (bounded : reachedIn startTime cfg.processes.length + 2 < 2 ^ 64) :
    rounds.length ≤ reachedIn startTime cfg.processes.length + 1 ∨ after.sys.loader = .finished := by
  have run := acting_run onward
  have reachable : Reachable startTime (start cfg) := ⟨[], .refl _⟩
  rcases reachable.rounds onward each with enough | gone
  · by_cases through : after.sys.loader = .finished
    · exact .inr through
    · have short := ticks_while_loading run bounded through
      rw [occurs_tick] at short
      exact .inl (enough.trans short)
  · exact .inr (eq_of_beq (gone .loader))

/-- The simulation ends. Whatever the order of the steps within the rounds, the loader has added
every process when the last start time is over; and unless a CPU takes its idle path after
that, every thread comes to the end of its routine within the budget of the configuration. -/
theorem simulation_ends (onward : Steps (Acting startTime) (start cfg) rounds.flatten after) (each : ∀ round ∈ rounds, Round round)
    (bounded : reachedIn startTime cfg.processes.length + 2 < 2 ^ 64) :
    (rounds.length ≤ reachedIn startTime cfg.processes.length + 1 ∨ after.sys.loader = .finished) ∧
    (Steps (Busy startTime) (start cfg) rounds.flatten after →
      rounds.length ≤ reachedIn startTime cfg.processes.length + cfg.budget + 3 ∨ ∀ thread, after.left thread = true) := by
  refine ⟨loader_through onward each bounded, fun busy => ?_⟩
  let needed := reachedIn startTime cfg.processes.length + 2
  rcases Nat.lt_or_ge rounds.length needed with few | many
  · exact .inl (by omega)
  · have parted : rounds.flatten = (rounds.take needed).flatten ++ (rounds.drop needed).flatten := by
      rw [← List.flatten_append, List.take_append_drop]
    rw [parted] at busy
    obtain ⟨middle, first, second⟩ := busy.split
    have run := acting_run (busy_acting first)
    have through : middle.sys.loader = .finished := by
      rcases loader_through (busy_acting first) (fun round member => each round (List.mem_of_mem_take member)) bounded with short | through
      · rw [List.length_take, Nat.min_eq_left many] at short
        omega
      · exact through
    rcases rounds_le_cost run through second fun round member => each round (List.mem_of_mem_drop member) with rest | gone
    · left
      have most := cost_le_budget (Orderly.of_run (system_run run))
      rw [List.length_drop] at rest
      omega
    · exact .inr gone

/-- The steps can be taken in this order, and none of them is that of a CPU that loads a
process after the end of the loader. -/
def NeverLoads (startTime : Nat → BitVec 64) (m : Clocked cfg) : List (ClockedAct cfg.numCpus) → Bool
  | [] => true
  | act :: acts =>
    (!m.sys.done || (List.finRange cfg.numCpus).all fun id => (m.sys.cpus id).point != .load) &&
      match m.perform startTime act with
      | .ok (_, after) => NeverLoads startTime after acts
      | .error _ => false

theorem busy_of_neverLoads {acts : List (ClockedAct cfg.numCpus)} (never : NeverLoads startTime m acts = true) :
    ∃ labels after, labels.map Prod.fst = acts ∧ Steps (Busy startTime) m labels after := by
  induction acts generalizing m with
  | nil => exact ⟨[], m, rfl, .refl m⟩
  | cons act acts ih =>
    rw [NeverLoads, Bool.and_eq_true] at never
    obtain ⟨elsewhere, onward⟩ := never
    split at onward
    · next event after performed =>
      obtain ⟨labels, last, same, run⟩ := ih onward
      refine ⟨(act, event) :: labels, last, by rw [List.map_cons, same], .cons ⟨performed, fun done id own _ load => ?_⟩ run⟩
      rw [done, Bool.not_true, Bool.false_or] at elsewhere
      have apart := List.all_eq_true.mp elsewhere id (List.mem_finRange id)
      rw [load] at apart
      cases apart
    · cases onward

private theorem repeated {round : List (ClockedAct cfg.numCpus)} {times : Nat} (same : labels.map Prod.fst = (List.replicate times round).flatten) :
    ∃ rounds : List (List (ClockedAct cfg.numCpus × ClockedEvent cfg.numCpus)),
      labels = rounds.flatten ∧ rounds.length = times ∧ ∀ own ∈ rounds, own.map Prod.fst = round := by
  induction times generalizing labels with
  | zero => exact ⟨[], List.map_eq_nil_iff.mp same, rfl, fun _ member => (List.not_mem_nil member).elim⟩
  | succ times ih =>
    rw [List.replicate_succ, List.flatten_cons] at same
    obtain ⟨first, rest, rfl, sameFirst, sameRest⟩ := List.map_eq_append_iff.mp same
    obtain ⟨rounds, rfl, length, each⟩ := ih sameRest
    refine ⟨first :: rounds, rfl, congrArg (· + 1) length, fun own member => ?_⟩
    rcases List.mem_cons.mp member with rfl | member
    · exact sameFirst
    · exact each own member

set_option maxRecDepth 20000 in
/-- Four rounds are enough for two instructions. -/
theorem simulation_ends_twoCalcs : ∃ (rounds : List (List (ClockedAct twoCalcs.numCpus × ClockedEvent twoCalcs.numCpus))) (after : Clocked twoCalcs),
    Steps (Busy fun _ => 0) (start twoCalcs) rounds.flatten after ∧ rounds.length = 4 ∧ (∀ round ∈ rounds, Round round) ∧
    after.sys.loader = .finished ∧ (rounds.length ≤ 86 ∨ ∀ thread, after.left thread = true) := by
  have never : NeverLoads (fun _ => 0) (start twoCalcs) (List.replicate 4 oneRound).flatten = true := rfl
  obtain ⟨labels, after, same, busy⟩ := busy_of_neverLoads never
  obtain ⟨rounds, rfl, length, each⟩ := repeated same
  have whole : ∀ round ∈ rounds, Round round := fun round member => oneRound_round (each round member)
  obtain ⟨loader, threads⟩ := simulation_ends (busy_acting busy) whole (by decide)
  refine ⟨rounds, after, busy, length, whole, ?_, threads busy⟩
  rcases loader with few | through
  · rw [length] at few
    exact absurd few (by decide)
  · exact through

end Closing
end Clocked
end LamiaAtrium
