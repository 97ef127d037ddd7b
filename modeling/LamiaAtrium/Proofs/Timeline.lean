import LamiaAtrium.Proofs.Completion

/-! The threads against the clock. From one tick to the next a CPU executes at most one
instruction, and so does a process, on whichever CPUs it runs; and the loader adds each
process in the very slot that the start times ask for. -/

namespace LamiaAtrium
open Run

namespace ClockedEvent
variable {n : Nat} (event : ClockedEvent n)

/-- The CPU and the process of an instruction that is fetched. -/
def fetch : Option (Fin n × Nat) :=
  match event.sys with
  | some (.cpu id, .fetched p _) => some (id, p)
  | _ => none

def fetchedOn (id : Fin n) : Bool := event.fetch.any fun fetch => fetch.1 == id

def fetchedOf (p : Nat) : Bool := event.fetch.any fun fetch => fetch.2 == p

def isTick : Bool := event.timer == some .tick

/-- `add_proc` for process `i`. -/
def adds (i : Nat) : Bool :=
  match event.sys with
  | some (.loader, .call (.added j _)) => j == i
  | _ => false

end ClockedEvent

namespace Clocked
variable {cfg : Config} {startTime : Nat → BitVec 64} {m first last after : Clocked cfg} {event : ClockedEvent cfg.numCpus}
  {earlier later events stretch : List (ClockedEvent cfg.numCpus)} {id : Fin cfg.numCpus} {p i : Nat}

section Instructions

/-- The CPU has fetched an instruction of the process and has not come back from `next_slot` since. -/
def Engaged (id : Fin cfg.numCpus) (p : Nat) (m : Clocked cfg) : Prop :=
  (m.sys.cpus id).proc = some p ∧ ((m.sys.cpus id).point = .slot ∨ ∃ ins, (m.sys.cpus id).point = .execute ins)

theorem Engaged.staying (engaged : Engaged id p m) : m.left (.cpu id) = false := by
  change ((m.sys.cpus id).point == .stopped) = false
  rcases engaged.2 with slot | ⟨ins, execute⟩
  · rw [slot]
    rfl
  · rw [execute]
    rfl

theorem Engaged.inUse (engaged : Engaged id p m) : (m.sys.cpus id).inUse = some p := by
  unfold Cpu.inUse
  rcases engaged.2 with slot | ⟨ins, execute⟩
  · rw [slot]
    exact engaged.1
  · rw [execute]
    exact engaged.1

/-- What a fetch says about the states before and after it. -/
theorem fetch_step (move : Move m event after) (fetched : event.fetch = some (id, p)) :
    (m.sys.cpus id).point = .run ∧ (m.sys.cpus id).proc = some p ∧ event.timer = none ∧ Engaged id p after := by
  cases move with
  | cpuReturned other timer own sys here _ worked =>
    exfalso
    have move := cpuStep_move worked
    change ((m.sys.cpus other).point == .slot || (m.sys.cpus other).point == .skip) = true at here
    cases move with
    | fetched q pc ins run =>
      rw [run] at here
      cases here
    | _ => cases fetched
  | worked thread own sys loaderWaits _ _ worked =>
    cases thread with
    | loader =>
      exfalso
      simp [ClockedEvent.fetch] at fetched
    | cpu other =>
      have move : LamiaAtrium.Move cfg m.sys other own sys := cpuStep_move worked
      cases move with
      | fetched q pc ins run holds =>
        cases fetched
        refine ⟨run, holds, rfl, ?_, .inr ⟨ins, ?_⟩⟩
        · rw [State.setCpu_same]
          exact holds
        · rw [State.setCpu_same]
      | _ => cases fetched
  | _ => cases fetched

theorem Engaged.step (engaged : Engaged id p m) (move : Move m event after)
    (inside : event.timer ≠ some (.returned (device (.cpu id)))) : Engaged id p after := by
  cases move with
  | cpuReturned other timer own sys here _ worked =>
    have apart : id ≠ other := fun same => inside (by rw [same])
    have same : sys.cpus id = m.sys.cpus id := (cpuStep_move worked).elsewhere apart
    rw [Engaged]
    rw [same]
    exact engaged
  | worked thread own sys loaderWaits outside _ worked =>
    by_cases own' : thread = .cpu id
    · subst own'
      change ((m.sys.cpus id).point == .slot || (m.sys.cpus id).point == .skip) = false at outside
      have taken : cpuStep cfg m.sys id = .ok (own, sys) := worked
      rcases engaged.2 with slot | ⟨ins, execute⟩
      · rw [slot] at outside
        cases outside
      · unfold cpuStep at taken
        dsimp only at taken
        rw [execute] at taken
        obtain ⟨q, _, taken⟩ := Outcome.bind_eq_ok taken
        obtain ⟨_, _, taken⟩ := Outcome.bind_eq_ok taken
        obtain ⟨_, _, taken⟩ := Outcome.bind_eq_ok taken
        cases taken
        refine ⟨?_, .inl ?_⟩
        · rw [State.setCpu_same]
          exact engaged.1
        · rw [State.setCpu_same]
    · have same := (threadStep_elsewhere worked).1 id fun equal => own' equal
      rw [Engaged]
      rw [same]
      exact engaged
  | _ => exact engaged

/-- No more slots than ticks, also for a thread that is in `next_slot`. -/
private theorem slots_after (run : Steps (Step startTime) (start cfg) events m) (taken : Step startTime m event after)
    {thread : Thread cfg.numCpus} (staying : m.left thread = false) (quiet : event.timer ≠ some (.detached (device thread))) :
    slots thread (events ++ [event]) ≤ occurs .tick (events ++ [event]) := by
  have settled := Timer.settled_of_run (timer_run (run.tail taken)) (device thread)
  have attached := (inStep_of_run run).attached thread staying
  refine (settled.within ?_).1
  cases taken.move with
  | timed own timer stepped => exact stepped.effect.attached_kept attached fun same => quiet (by rw [same])
  | loaderReturned timer _ stepped => exact stepped.effect.attached_kept attached fun same => by cases same
  | cpuReturned other timer own sys _ stepped => exact stepped.effect.attached_kept attached fun same => by cases same
  | _ => exact attached

/-- Until the next tick the CPU does not come back: its slots would be ahead of the time. -/
private theorem engaged_until_tick (reached : Steps (Step startTime) (start cfg) earlier first) (engaged : Engaged id p first)
    (level : slots (.cpu id) earlier = occurs .tick earlier) (run : Steps (Step startTime) first later m)
    (quiet : ∀ event ∈ later, event.isTick = false) :
    Engaged id p m ∧ slots (.cpu id) (earlier ++ later) = occurs .tick (earlier ++ later) := by
  induction run with
  | refl => exact ⟨engaged, by rwa [List.append_nil]⟩
  | @tail middle last labels event upto taken ih =>
    obtain ⟨engaged, level⟩ := ih fun event member => quiet event (List.mem_append_left _ member)
    have calm : event.timer ≠ some .tick :=
      beq_eq_false_iff_ne.mp (quiet event (List.mem_append_right _ (List.mem_singleton_self event)))
    have back : event.timer ≠ some (.returned (device (.cpu id))) := by
      intro returned
      have most := slots_after (reached.trans upto) taken engaged.staying (by rw [returned]; exact fun same => by cases same)
      rw [slots, occurs_concat, occurs_concat, decide_eq_true returned, decide_eq_false calm, ← slots, level] at most
      exact absurd most (Nat.not_succ_le_self _)
    refine ⟨engaged.step taken.move back, ?_⟩
    rw [← List.append_assoc, slots, occurs_concat, occurs_concat, decide_eq_false back, decide_eq_false calm]
    exact level

/-- Two instructions of one CPU, or of one process, are in different slots. -/
theorem tick_between {first second : ClockedEvent cfg.numCpus} {between : List (ClockedEvent cfg.numCpus)} {other : Fin cfg.numCpus}
    {q : Nat} (run : Steps (Step startTime) (start cfg) (earlier ++ first :: between ++ second :: later) m)
    (fetched : first.fetch = some (id, p)) (again : second.fetch = some (other, q)) (same : id = other ∨ p = q) :
    ∃ event ∈ between, event.isTick = true := by
  by_contra none
  have quiet : ∀ event ∈ between, event.isTick = false := fun event member =>
    Bool.eq_false_iff.mpr fun tick => none ⟨event, member, tick⟩
  obtain ⟨before, after, upto, taken, _⟩ := run.step_at
  obtain ⟨start, next, reached, began, rest⟩ := upto.step_at
  obtain ⟨running, holds, untimed, engaged⟩ := fetch_step began.move fetched
  obtain ⟨alsoRunning, alsoHolds, _⟩ := fetch_step taken.move again
  have level : slots (.cpu id) (earlier ++ [first]) = occurs .tick (earlier ++ [first]) := by
    have outside : start.atSlot (.cpu id) = false := by
      change ((start.sys.cpus id).point == .slot || (start.sys.cpus id).point == .skip) = false
      rw [running]
      rfl
    have staying : start.left (.cpu id) = false := by
      change ((start.sys.cpus id).point == .stopped) = false
      rw [running]
      rfl
    rw [slots, occurs_concat, occurs_concat, untimed]
    exact congrArg (· + 0) (slots_eq reached outside staying)
  have still := (engaged_until_tick (reached.tail began) engaged level rest quiet).1
  have alone : id = other := by
    rcases same with rfl | rfl
    · rfl
    · refine (Orderly.of_run (system_run upto)).uses_unique still.inUse ?_
      rw [Cpu.inUse, alsoRunning]
      exact alsoHolds
  subst alone
  rcases still.2 with slot | ⟨ins, execute⟩
  · cases alsoRunning.symm.trans slot
  · cases alsoRunning.symm.trans execute

private theorem fetch_of_on (fetched : event.fetchedOn id = true) : ∃ p, event.fetch = some (id, p) := by
  obtain ⟨⟨other, p⟩, found, same⟩ := (Option.any_eq_true _ _).mp fetched
  cases eq_of_beq same
  exact ⟨p, found⟩

private theorem fetch_of_process (fetched : event.fetchedOf p = true) : ∃ id, event.fetch = some (id, p) := by
  obtain ⟨⟨id, q⟩, found, same⟩ := (Option.any_eq_true _ _).mp fetched
  cases eq_of_beq same
  exact ⟨id, found⟩

/-- In any stretch of any run a CPU, and likewise a process, on whichever CPUs it runs, executes
at most one instruction more than the timer ticks. -/
theorem at_most_one_instruction_per_slot (run : Steps (Step startTime) (start cfg) (earlier ++ stretch ++ later) m) :
    (∀ id, stretch.countP (·.fetchedOn id) ≤ stretch.countP (·.isTick) + 1) ∧
    ∀ p, stretch.countP (·.fetchedOf p) ≤ stretch.countP (·.isTick) + 1 := by
  have inside {left between right : List (ClockedEvent cfg.numCpus)} {first second : ClockedEvent cfg.numCpus}
      (cut : stretch = left ++ first :: between ++ second :: right) :
      Steps (Step startTime) (start cfg) ((earlier ++ left) ++ first :: between ++ second :: (right ++ later)) m := by
    have whole : earlier ++ stretch ++ later = (earlier ++ left) ++ first :: between ++ second :: (right ++ later) := by
      rw [cut]
      simp
    rwa [whole] at run
  constructor
  · intro id
    apply Separated.countP_le
    intro left first between second right cut on alsoOn
    obtain ⟨p, fetched⟩ := fetch_of_on on
    obtain ⟨q, again⟩ := fetch_of_on alsoOn
    exact tick_between (inside cut) fetched again (.inl rfl)
  · intro p
    apply Separated.countP_le
    intro left first between second right cut own alsoOwn
    obtain ⟨id, fetched⟩ := fetch_of_process own
    obtain ⟨other, again⟩ := fetch_of_process alsoOwn
    exact tick_between (inside cut) fetched again (.inr rfl)

set_option maxRecDepth 20000 in
/-- One tick, two instructions. -/
theorem at_most_one_instruction_per_slot_twoCalcs : ∃ stretch m,
    Steps (Step fun _ => 0) (start twoCalcs) ([] ++ stretch ++ []) m ∧ stretch.countP (·.isTick) = 1 ∧
    (stretch.countP (·.fetchedOf 0) = 2 ∧ stretch.countP (·.fetchedOn onlyCpu) ≤ 1 + 1) := by
  let acts : List (ClockedAct twoCalcs.numCpus) := List.replicate 3 (.thread .loader) ++ List.replicate 6 (.thread (.cpu onlyCpu)) ++
    List.replicate 8 .timer ++ List.replicate 3 (.thread .loader) ++ List.replicate 8 (.thread (.cpu onlyCpu))
  have check : (performAll (fun _ => 0) (start twoCalcs) acts).map (fun result =>
      (result.1.countP (·.isTick), result.1.countP (·.fetchedOf 0))) = .ok (1, 2) := rfl
  cases ran : performAll (fun _ => 0) (start twoCalcs) acts with
  | error fault => rw [ran] at check; cases check
  | ok result =>
    obtain ⟨stretch, m⟩ := result
    rw [ran] at check
    have facts := Except.ok.inj check
    simp only [Prod.mk.injEq] at facts
    obtain ⟨ticks, fetches⟩ := facts
    have run : Steps (Step fun _ => 0) (start twoCalcs) ([] ++ stretch ++ []) m := by
      rw [List.append_nil]
      exact performAll_steps ran
    refine ⟨stretch, m, run, ticks, fetches, ?_⟩
    have most := (at_most_one_instruction_per_slot run).1 onlyCpu
    rwa [ticks] at most

end Instructions

section Arrivals

/-- The slot in which the loader comes to process `i`: right after that of the process before. -/
def reachedIn (startTime : Nat → BitVec 64) : Nat → Nat
  | 0 => 0
  | i + 1 => max (startTime i).toNat (reachedIn startTime i) + 1

/-- The slot in which process `i` is to be added. -/
def arrival (startTime : Nat → BitVec 64) (i : Nat) : Nat := max (startTime i).toNat (reachedIn startTime i)

/-- Where the loader is, with the number of slots it has completed. -/
def OnTime (startTime : Nat → BitVec 64) (slots : Nat) (waits : Bool) : Loader → Prop
  | .load i => if waits then slots + 1 = reachedIn startTime i else slots = reachedIn startTime i
  | .add i => reachedIn startTime i ≤ slots ∧ if waits then slots < (startTime i).toNat else slots ≤ arrival startTime i
  | .finished => True

/-- A step without the timer is one of a thread in its slot, or none. -/
private theorem workStep_of_untimed (taken : Step startTime m event after) (untimed : event.timer = none) :
    (∃ thread, m.workStep startTime thread = .ok (event, after)) ∨ event.sys = none ∧ after = m := by
  obtain ⟨act, performed⟩ := taken
  cases act with
  | timer =>
    cases performed
    cases untimed
  | thread thread =>
    unfold perform at performed
    dsimp only at performed
    split at performed
    · exfalso
      unfold slotStep at performed
      split at performed
      · cases performed
        cases untimed
      · dsimp only at performed
        split at performed
        · cases thread with
          | loader =>
            cases performed
            cases untimed
          | cpu id =>
            obtain ⟨_, _, performed⟩ := Outcome.bind_eq_ok performed
            cases performed
            cases untimed
        · cases performed
          cases untimed
    · split at performed
      · unfold leaveStep at performed
        split at performed
        · cases performed
          exact .inr ⟨rfl, rfl⟩
        · cases performed
          cases untimed
      · exact .inl ⟨thread, performed⟩

/-- What a step does to the loader. -/
inductive LoaderMove (startTime : Nat → BitVec 64) (m : Clocked cfg) (event : ClockedEvent cfg.numCpus) (after : Clocked cfg) : Prop where
  | elsewhere :
      after.sys.loader = m.sys.loader → after.loaderWaits = m.loaderWaits →
      event.timer ≠ some (.returned (device (.loader : Thread cfg.numCpus))) → (∀ i, event.adds i = false) → LoaderMove startTime m event after
  | returned :
      m.loaderWaits = true → after.loaderWaits = false → after.sys.loader = m.sys.loader →
      event.timer = some (.returned (device (.loader : Thread cfg.numCpus))) → (∀ i, event.adds i = false) → LoaderMove startTime m event after
  | waits (i : Nat) :
      m.loaderWaits = false → m.sys.loader = .add i → m.timer.time < startTime i → after.sys.loader = .add i → after.loaderWaits = true →
      event.timer = none → (∀ i, event.adds i = false) → LoaderMove startTime m event after
  | loads (i : Nat) :
      m.loaderWaits = false → m.sys.loader = .load i → after.sys.loader = .add i → after.loaderWaits = false →
      event.timer = none → (∀ i, event.adds i = false) → LoaderMove startTime m event after
  | completes :
      after.sys.loader = .finished → after.loaderWaits = false → (∀ i, event.adds i = false) → LoaderMove startTime m event after
  | added (i : Nat) :
      m.loaderWaits = false → m.sys.loader = .add i → startTime i ≤ m.timer.time → after.sys.loader = .load (i + 1) →
      after.loaderWaits = true → event.timer = none → (∀ j, event.adds j = (i == j)) → LoaderMove startTime m event after

theorem loaderMove (taken : Step startTime m event after) : LoaderMove startTime m event after := by
  have untimed := workStep_of_untimed taken
  cases taken.move with
  | rested => exact .elsewhere rfl rfl (fun same => by cases same) fun _ => rfl
  | timed own timer _ calm => exact .elsewhere rfl rfl (fun same => calm _ (Option.some.inj same)) fun _ => rfl
  | loaderReturned timer here => exact .returned here rfl rfl rfl fun _ => rfl
  | cpuReturned other timer own sys _ _ worked =>
    have stepped : threadStep cfg m.sys (.cpu other) = .ok (own, sys) := worked
    refine .elsewhere ((threadStep_elsewhere stepped).2 fun same => by cases same) rfl (fun same => ?_) fun _ => rfl
    cases device_injective (TimerEvent.returned.inj (Option.some.inj same))
  | delayed i outside here =>
    rcases untimed rfl with ⟨thread, worked⟩ | ⟨_, same⟩
    · unfold workStep at worked
      split at worked
      · next waits =>
        have early := waits.2
        rw [Clocked.early, here] at early
        exact .waits i outside here (of_decide_eq_true early) here rfl rfl fun _ => rfl
      · obtain ⟨_, _, worked⟩ := Outcome.bind_eq_ok worked
        cases worked
    · have open_ : m.loaderWaits = false := outside
      cases (congrArg Clocked.loaderWaits same).trans open_
  | worked thread own sys loaderWaits outside staying stepped kept waits =>
    cases thread with
    | cpu other => exact .elsewhere ((threadStep_elsewhere stepped).2 fun same => by cases same) (kept fun same => by cases same) (fun same => by cases same) fun _ => rfl
    | loader =>
      have facts : m.early startTime = false ∧ ((∀ i, m.sys.loader ≠ .add i) → loaderWaits = m.loaderWaits) := by
        rcases untimed rfl with ⟨thread, worked⟩ | ⟨none, _⟩
        · unfold workStep at worked
          split at worked
          · cases worked
          · next late =>
            obtain ⟨_, _, worked⟩ := Outcome.bind_eq_ok worked
            cases worked
            refine ⟨Bool.eq_false_iff.mpr fun early => late ⟨rfl, early⟩, fun elsewhere => ?_⟩
            cases here : m.sys.loader with
            | add i => exact absurd here (elsewhere i)
            | load | finished => rfl
        · cases none
      obtain ⟨fits, same⟩ := facts
      have open_ : m.loaderWaits = false := outside
      have taken : loaderStep cfg m.sys = .ok (own, sys) := stepped
      unfold loaderStep at taken
      split at taken
      · next i here =>
        have still := same fun j adding => by cases here.symm.trans adding
        split at taken
        · cases taken
          exact .loads i outside here rfl (still.trans open_) rfl fun _ => rfl
        · cases taken
          exact .completes rfl (still.trans open_) fun _ => rfl
      · next i here =>
        obtain ⟨⟨call, sched⟩, served, taken⟩ := Outcome.bind_eq_ok taken
        obtain ⟨inserted, _, served⟩ := Outcome.bind_eq_ok served
        cases served
        cases taken
        rw [Clocked.early, here] at fits
        exact .added i outside here (BitVec.not_lt.mp (of_decide_eq_false fits)) rfl (waits i rfl here) rfl fun _ => rfl
      · next here =>
        change (m.sys.loader == .finished) = false at staying
        rw [here] at staying
        cases staying

private theorem clock_of_run (run : Steps (Step startTime) (start cfg) events m) (bounded : occurs .tick events < 2 ^ 64) :
    m.timer.time.toNat = occurs .tick events := by
  rw [Timer.time_of_run (timer_run run), BitVec.toNat_ofNat]
  exact Nat.mod_eq_of_lt bounded

private theorem adding_level (run : Steps (Step startTime) (start cfg) events m) (open_ : m.loaderWaits = false)
    (here : m.sys.loader = .add i) : slots .loader events = occurs .tick events := by
  refine slots_eq run open_ ?_
  change (m.sys.loader == .finished) = false
  rw [here]
  rfl

/-- The loader passes its test of the start time in the slot of the process. -/
private theorem OnTime.due (onTime : OnTime startTime (slots .loader events) m.loaderWaits m.sys.loader)
    (run : Steps (Step startTime) (start cfg) events m) (bounded : occurs .tick events < 2 ^ 64) (open_ : m.loaderWaits = false)
    (here : m.sys.loader = .add i) (late : startTime i ≤ m.timer.time) : slots .loader events = arrival startTime i := by
  rw [open_, here] at onTime
  obtain ⟨reached, within⟩ := onTime
  have level := adding_level run open_ here
  have clock := clock_of_run run bounded
  have more : (startTime i).toNat ≤ m.timer.time.toNat := late
  refine Nat.le_antisymm within (Nat.max_le.mpr ⟨?_, reached⟩)
  omega

/-- What one step keeps, with fewer than 2^64 ticks so far. -/
private theorem OnTime.step (onTime : OnTime startTime (slots .loader events) m.loaderWaits m.sys.loader)
    (run : Steps (Step startTime) (start cfg) events m) (taken : Step startTime m event after)
    (bounded : occurs .tick events < 2 ^ 64) :
    OnTime startTime (slots .loader (events ++ [event])) after.loaderWaits after.sys.loader := by
  have same (calm : event.timer ≠ some (.returned (device (.loader : Thread cfg.numCpus)))) :
      slots .loader (events ++ [event]) = slots .loader events := by
    rw [slots, occurs_concat, decide_eq_false calm]
    rfl
  cases loaderMove taken with
  | elsewhere loader waits calm _ => rwa [same calm, loader, waits]
  | returned waited open_ loader back _ =>
    have further : slots .loader (events ++ [event]) = slots .loader events + 1 := by
      rw [slots, occurs_concat, decide_eq_true back]
      rfl
    rw [further, open_, loader]
    rw [waited] at onTime
    cases here : m.sys.loader with
    | load i =>
      rw [here] at onTime
      exact onTime
    | add i =>
      rw [here] at onTime
      obtain ⟨reached, early⟩ := onTime
      have within : slots .loader events + 1 ≤ arrival startTime i := Nat.le_trans early (Nat.le_max_left _ _)
      exact ⟨by omega, within⟩
    | finished => trivial
  | waits i open_ here early loader waited calm _ =>
    rw [same (by rw [calm]; exact fun same => by cases same), loader, waited]
    rw [open_, here] at onTime
    have level := adding_level run open_ here
    have clock := clock_of_run run bounded
    refine ⟨onTime.1, ?_⟩
    have less : m.timer.time.toNat < (startTime i).toNat := early
    change slots .loader events < _
    omega
  | loads i open_ here loader waited calm _ =>
    rw [same (by rw [calm]; exact fun same => by cases same), loader, waited]
    rw [open_, here] at onTime
    have reached : slots .loader events = reachedIn startTime i := onTime
    exact ⟨Nat.le_of_eq reached.symm, by rw [reached]; exact Nat.le_max_right _ _⟩
  | completes loader _ _ =>
    rw [loader]
    trivial
  | added i open_ here late loader waited calm _ =>
    rw [same (by rw [calm]; exact fun same => by cases same), loader, waited]
    change slots .loader events + 1 = arrival startTime i + 1
    rw [onTime.due run bounded open_ here late]

/-- The invariant along a run with fewer than 2^64 ticks. -/
theorem onTime_of_run (run : Steps (Step startTime) (start cfg) events m) (bounded : occurs .tick events < 2 ^ 64) :
    OnTime startTime (slots .loader events) m.loaderWaits m.sys.loader := by
  induction run with
  | refl => rfl
  | @tail middle after events event upto taken ih =>
    rw [occurs_concat] at bounded
    exact (ih (by omega)).step upto taken (by omega)

/-- The loader adds every process in its slot: at its start time or, if that is over, in the slot
after the one of the process before. -/
theorem processes_added_on_time (run : Steps (Step startTime) (start cfg) (earlier ++ event :: later) m)
    (bounded : occurs .tick earlier < 2 ^ 64) (adds : event.adds i = true) :
    occurs .tick earlier = arrival startTime i ∧ slots .loader earlier = arrival startTime i := by
  obtain ⟨before, after, upto, taken, _⟩ := run.step_at
  cases loaderMove taken with
  | added j open_ here late _ _ _ which =>
    cases eq_of_beq ((which i).symm.trans adds)
    have due := (onTime_of_run upto bounded).due upto bounded open_ here late
    exact ⟨(adding_level upto open_ here).symm.trans due, due⟩
  | elsewhere _ _ _ none => cases (none i).symm.trans adds
  | returned _ _ _ _ none => cases (none i).symm.trans adds
  | waits _ _ _ _ _ _ _ none => cases (none i).symm.trans adds
  | loads _ _ _ _ _ _ none => cases (none i).symm.trans adds
  | completes _ _ none => cases (none i).symm.trans adds

set_option maxRecDepth 20000 in
theorem processes_added_on_time_twoCalcs : ∃ earlier event m, Steps (Step fun _ => 1) (start twoCalcs) (earlier ++ [event]) m ∧
    event.adds 0 = true ∧ occurs .tick earlier = 1 ∧ slots .loader earlier = 1 := by
  let acts : List (ClockedAct twoCalcs.numCpus) := List.replicate 3 (.thread .loader) ++ List.replicate 3 (.thread (.cpu onlyCpu)) ++
    List.replicate 8 .timer ++ [.thread .loader]
  have check : (performAll (fun _ => 1) (start twoCalcs) acts).bind (fun result =>
      (perform (fun _ => 1) result.2 (.thread .loader)).map fun last => (occurs .tick result.1, last.1.adds 0)) = .ok (1, true) := rfl
  cases ran : performAll (fun _ => 1) (start twoCalcs) acts with
  | error fault => rw [ran] at check; cases check
  | ok result =>
    obtain ⟨earlier, before⟩ := result
    rw [ran] at check
    cases performed : perform (fun _ => 1) before (.thread .loader) with
    | error fault => cases (congrArg (Except.map _) performed).symm.trans check
    | ok last =>
      obtain ⟨event, m⟩ := last
      have facts := Except.ok.inj ((congrArg (Except.map _) performed).symm.trans check)
      simp only [Prod.mk.injEq] at facts
      obtain ⟨ticks, adds⟩ := facts
      have run := (performAll_steps ran).tail ⟨.thread .loader, performed⟩
      exact ⟨earlier, event, m, run, adds, processes_added_on_time run (by rw [ticks]; decide) adds⟩

end Arrivals

section Races

/-- The loader is about to compare the time with a start time. -/
def ReadsTime (m : Clocked cfg) : Prop := m.loaderWaits = false ∧ ∃ i, m.sys.loader = .add i

def AdvancesTime (m : Clocked cfg) : Prop := ∃ fsh event, m.timer.routine = .tick fsh event

/-- The thread is about to set the `done` of its device, under `event_lock`. -/
def SetsDone (m : Clocked cfg) (thread : Thread cfg.numCpus) : Prop :=
  m.atSlot thread = true ∧ m.timer.point (device thread) = .working

/-- The timer is about to clear it, under `timer_lock`. -/
def ClearsDone (m : Clocked cfg) (thread : Thread cfg.numCpus) : Prop :=
  ∃ fsh event, m.timer.routine = .release (device thread) fsh event

private theorem waiting_of_run (run : Steps (Step startTime) (start cfg) events m) (waits : m.loaderWaits = true) :
    m.sys.loader ≠ .finished := by
  have invariant : m.loaderWaits = true → m.sys.loader ≠ .finished := by
    refine run.history (fun _ m => m.loaderWaits = true → m.sys.loader ≠ .finished) (fun waits => by cases waits) ?_
    intro _ before event after kept taken
    cases loaderMove taken with
    | elsewhere loader waits => rwa [loader, waits]
    | returned _ open_ | loads _ _ _ _ open_ | completes _ open_ =>
      intro waits
      cases open_.symm.trans waits
    | waits _ _ _ _ loader | added _ _ _ _ loader =>
      rw [loader]
      exact fun _ same => by cases same
  exact invariant waits

private theorem staying_of_atSlot (run : Steps (Step startTime) (start cfg) events m) {thread : Thread cfg.numCpus}
    (here : m.atSlot thread = true) : m.left thread = false := by
  cases thread with
  | loader => exact beq_eq_false_iff_ne.mpr (waiting_of_run run here)
  | cpu id =>
    change ((m.sys.cpus id).point == .slot || (m.sys.cpus id).point == .skip) = true at here
    refine beq_eq_false_iff_ne.mpr fun stopped => ?_
    rw [stopped] at here
    cases here

/-- The accesses to the timer's fields that no common lock separates never meet: the loader
does not read the time while the timer is about to advance it, and no thread sets its
`done` while the timer is about to clear it. -/
theorem timer_fields_do_not_race (run : Steps (Step startTime) (start cfg) events m) :
    (m.ReadsTime → ¬m.AdvancesTime) ∧ ∀ thread, m.SetsDone thread → ¬m.ClearsDone thread := by
  have inStep := inStep_of_run run
  constructor
  · rintro ⟨open_, i, here⟩ ⟨fsh, event, ticking⟩
    have settled := Timer.settled_of_run (timer_run run) (device (.loader : Thread cfg.numCpus))
    have staying : m.left .loader = false := by
      change (m.sys.loader == .finished) = false
      rw [here]
      rfl
    have idle := settled.idle (inStep.working .loader open_)
    have done := settled.arrived (inStep.attached .loader staying) (by rw [ticking]; trivial)
    cases idle.symm.trans done
  · rintro thread ⟨here, working⟩ ⟨fsh, event, releasing⟩
    have settled := Timer.settled_of_run (timer_run run) (device thread)
    have pending : m.timer.routine.pending (device thread) = true := by
      rw [releasing]
      exact decide_eq_true (Nat.le_refl _)
    have done := settled.due_done (inStep.attached thread (staying_of_atSlot run here)) pending
    cases (settled.idle working).symm.trans done

theorem timer_fields_do_not_race_twoCalcs : ∃ events m, Steps (Step fun _ => 0) (start twoCalcs) events m ∧
    m.ReadsTime ∧ ¬m.AdvancesTime := by
  have check : (performAll (fun _ => 0) (start twoCalcs) [.thread .loader]).map (fun result =>
      (result.2.loaderWaits, result.2.sys.loader)) = .ok (false, .add 0) := rfl
  cases ran : performAll (fun _ => 0) (start twoCalcs) [.thread .loader] with
  | error fault => rw [ran] at check; cases check
  | ok result =>
    obtain ⟨events, m⟩ := result
    rw [ran] at check
    have facts := Except.ok.inj check
    simp only [Prod.mk.injEq] at facts
    have run := performAll_steps ran
    have reads : m.ReadsTime := ⟨facts.1, 0, facts.2⟩
    exact ⟨events, m, run, reads, (timer_fields_do_not_race run).1 reads⟩

end Races
end Clocked
end LamiaAtrium
