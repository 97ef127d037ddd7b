import LamiaAtrium.Proofs.Timeline
import LamiaAtrium.Proofs.Shutdown

/-! No thread keeps the time from going on. When the timer and the threads take enough
steps, in whatever order within each part of a round, every thread reaches its call of
`next_slot` or leaves, and the timer ticks. -/

namespace LamiaAtrium
open Run

namespace Routine

/-- The timer's own steps up to the end of the sweep that releases the devices. -/
def toRelease (n : Nat) : Routine → Nat
  | .release k _ _ => n - k + 1
  | _ => 0

/-- The timer's own steps up to the tick, with every device there. -/
def toTick (n : Nat) : Routine → Nat
  | .head => n + 3
  | .collect k _ _ => n - k + 2
  | .wait k _ _ => n - k + 3
  | .tick _ _ => 1
  | .release _ _ _ | .exited => 0

/-- The devices that the sweep has counted as finished. -/
def Counted {n : Nat} (devList : Fin n → TimerId) : Routine → Prop
  | .head => True
  | .collect k fsh event | .wait k fsh event => fsh ≤ event ∧ (fsh = event → ∀ d : Fin n, d < k → (devList d).fsh = true)
  | .tick fsh event | .release _ fsh event => fsh = event → ∀ d, (devList d).fsh = true
  | .exited => ∀ d, (devList d).fsh = true

section Signal
variable {n k : Nat} {routine : Routine}

theorem toRelease_signal : (routine.signal k).toRelease n = routine.toRelease n := by
  unfold signal
  split
  · split <;> rfl
  · rfl

theorem toTick_signal : (routine.signal k).toTick n ≤ routine.toTick n := by
  unfold signal
  split
  · split
    · exact Nat.le_succ _
    · exact Nat.le_refl _
  · exact Nat.le_refl _

theorem Counted.signal {devList : Fin n → TimerId} (counted : routine.Counted devList) : (routine.signal k).Counted devList := by
  unfold Routine.signal
  split
  · split <;> exact counted
  · exact counted

theorem Counted.mono {first second : Fin n → TimerId} (kept : ∀ d, (first d).fsh = true → (second d).fsh = true)
    (counted : routine.Counted first) : routine.Counted second := by
  cases routine with
  | head => trivial
  | collect | wait => exact ⟨counted.1, fun same d inside => kept d (counted.2 same d inside)⟩
  | tick | release => exact fun same d => kept d (counted same d)
  | exited => exact fun d => kept d (counted d)

end Signal
end Routine

namespace Timer
variable {n : Nat} {t after : Timer n} {event : TimerEvent n} {d : Fin n}

/-- The device is not waited for. -/
def Answered (t : Timer n) (d : Fin n) : Prop := (t.devList d).done = true ∨ (t.devList d).fsh = true

theorem Answered.kept (answered : t.Answered d) (effect : Effect t event after) (calm : event ≠ .released d) : after.Answered d := by
  have device := effect.device d
  rw [Answered]
  generalize after.devList d = id, after.point d = point at device ⊢
  cases device with
  | released => exact absurd rfl calm
  | called => exact .inl rfl
  | detached => exact .inr rfl
  | _ => exact answered

theorem Effect.calm (effect : Effect t event after) (done : t.routine.toRelease n = 0) : event ≠ .released d := by
  intro same
  cases effect with
  | released other fsh counted here =>
    rw [here] at done
    cases done
  | _ => cases same

/-- A step of the timer that is neither a tick nor a release. -/
theorem timerRoutine_quiet (taken : t.timerRoutine = (event, after)) (tick : event ≠ .tick) (done : t.routine.toRelease n = 0) :
    after.devList = t.devList ∧ after.point = t.point ∧ after.routine.toRelease n = 0 ∧
      ((∀ d, t.Answered d) → t.timerStop = false → after.routine.toTick n ≤ t.routine.toTick n - 1) := by
  unfold timerRoutine at taken
  split at taken
  · next here =>
    cases taken
    refine ⟨rfl, rfl, ?_, fun _ running => ?_⟩
    · dsimp only
      split <;> rfl
    · rw [running, here]
      exact Nat.le_refl _
  · next k fsh counted here =>
    split at taken
    · next inside =>
      dsimp only at taken
      split at taken
      · next missing =>
        cases taken
        refine ⟨rfl, rfl, rfl, fun answered _ => ?_⟩
        rw [Bool.and_eq_true, Bool.not_eq_true', Bool.not_eq_true'] at missing
        rcases answered ⟨k, inside⟩ with called | gone
        · cases missing.1.symm.trans called
        · cases missing.2.symm.trans gone
      · cases taken
        refine ⟨rfl, rfl, rfl, fun _ _ => ?_⟩
        rw [here]
        change n - (k + 1) + 2 ≤ n - k + 2 - 1
        omega
    · cases taken
      refine ⟨rfl, rfl, rfl, fun _ _ => ?_⟩
      rw [here]
      exact Nat.le_add_left _ _
  · next here =>
    cases taken
    refine ⟨rfl, rfl, rfl, fun _ _ => ?_⟩
    rw [here]
    exact Nat.le_refl _
  · cases taken
    exact absurd rfl tick
  · next here =>
    rw [here] at done
    cases done
  · next here =>
    cases taken
    refine ⟨rfl, rfl, done, fun _ _ => ?_⟩
    rw [here]
    exact Nat.le_refl _

theorem timerRoutine_toRelease (taken : t.timerRoutine = (event, after)) (tick : event ≠ .tick) :
    after.routine.toRelease n ≤ t.routine.toRelease n - 1 := by
  cases routine : t.routine with
  | release k fsh counted =>
    unfold timerRoutine at taken
    rw [routine] at taken
    dsimp only at taken
    split at taken
    · next inside =>
      cases taken
      change n - (k + 1) + 1 ≤ n - k + 1 - 1
      omega
    · cases taken
      dsimp only
      split <;> exact Nat.zero_le _
  | _ =>
    have done : t.routine.toRelease n = 0 := by
      rw [routine]
      rfl
    rw [(timerRoutine_quiet taken tick done).2.2.1]
    exact Nat.zero_le _

theorem timerRoutine_counted (counted : t.routine.Counted t.devList) (running : t.timerStop = false)
    (taken : t.timerRoutine = (event, after)) : after.routine.Counted after.devList ∧ after.timerStop = false := by
  unfold timerRoutine at taken
  split at taken
  · cases taken
    refine ⟨?_, running⟩
    rw [running]
    exact ⟨Nat.le_refl _, fun _ d inside => absurd inside (Nat.not_lt_zero _)⟩
  · next k fsh event here =>
    rw [here] at counted
    split at taken
    · next inside =>
      dsimp only at taken
      split at taken
      · cases taken
        exact ⟨counted, running⟩
      · cases taken
        refine ⟨?_, running⟩
        cases gone : (t.devList ⟨k, inside⟩).fsh with
        | false =>
          rw [if_neg Bool.false_ne_true]
          refine ⟨Nat.le_succ_of_le counted.1, fun same => ?_⟩
          exact absurd same (Nat.ne_of_lt (Nat.lt_succ_of_le counted.1))
        | true =>
          rw [if_pos rfl]
          refine ⟨Nat.succ_le_succ counted.1, fun same d before => ?_⟩
          rcases Nat.lt_or_eq_of_le (Nat.le_of_lt_succ before) with earlier | last
          · exact counted.2 (Nat.succ.inj same) d earlier
          · rw [show d = ⟨k, inside⟩ from Fin.ext last]
            exact gone
    · next outside =>
      cases taken
      refine ⟨fun same d => counted.2 same d ?_, running⟩
      exact Nat.lt_of_lt_of_le d.isLt (Nat.not_lt.mp outside)
  · next here =>
    cases taken
    rw [here] at counted
    exact ⟨counted, running⟩
  · next here =>
    cases taken
    rw [here] at counted
    exact ⟨counted, running⟩
  · next k fsh event here =>
    rw [here] at counted
    split at taken
    · next inside =>
      cases taken
      refine ⟨?_, running⟩
      have kept (d : Fin n) (gone : (t.devList d).fsh = true) :
          (Function.update t.devList ⟨k, inside⟩ { t.devList ⟨k, inside⟩ with done := false } d).fsh = true := by
        by_cases own : d = ⟨k, inside⟩
        · rw [own, Function.update_self]
          exact own ▸ gone
        · rwa [Function.update_of_ne own]
      exact fun same d => kept d (counted same d)
    · cases taken
      refine ⟨?_, running⟩
      dsimp only
      split
      · next same => exact counted same
      · trivial
  · cases taken
    exact ⟨counted, running⟩

/-- What the devices do to the timer. -/
theorem device_kept (step : (event, after) = t.nextSlot d ∨ (event, after) = t.resume d ∨ (event, after) = t.detachEvent d) :
    after.timerStop = t.timerStop ∧ (after.routine = t.routine ∨ after.routine = t.routine.signal d) := by
  rcases step with called | resumed | detached
  · unfold nextSlot at called
    split at called
    · cases called
      exact ⟨rfl, .inr rfl⟩
    · cases called
      exact ⟨rfl, .inl rfl⟩
  · unfold resume at resumed
    split at resumed
    · cases resumed
      exact ⟨rfl, .inl rfl⟩
    · split at resumed <;> cases resumed <;> exact ⟨rfl, .inl rfl⟩
    · cases resumed
      exact ⟨rfl, .inl rfl⟩
  · unfold detachEvent at detached
    split at detached
    · cases detached
      exact ⟨rfl, .inr rfl⟩
    · cases detached
      exact ⟨rfl, .inl rfl⟩

theorem device_elsewhere {e : Fin n} (apart : e ≠ d)
    (step : (event, after) = t.nextSlot d ∨ (event, after) = t.resume d ∨ (event, after) = t.detachEvent d) :
    after.devList e = t.devList e ∧ after.point e = t.point e := by
  have updated (id : TimerId) (point : DevicePoint) :
      (t.setDevice d id point).devList e = t.devList e ∧ (t.setDevice d id point).point e = t.point e :=
    ⟨Function.update_of_ne apart .., Function.update_of_ne apart ..⟩
  rcases step with called | resumed | detached
  · unfold nextSlot at called
    split at called
    · cases called
      exact updated _ _
    · cases called
      exact ⟨rfl, rfl⟩
  · unfold resume at resumed
    split at resumed
    · cases resumed
      exact ⟨rfl, rfl⟩
    · split at resumed <;> cases resumed <;> exact updated _ _
    · cases resumed
      exact updated _ _
  · unfold detachEvent at detached
    split at detached
    · cases detached
      exact updated _ _
    · cases detached
      exact ⟨rfl, rfl⟩

end Timer

theorem device_surjective {n : Nat} (d : Fin (n + 1)) : ∃ thread : Thread n, device thread = d := by
  refine Fin.cases ⟨.loader, rfl⟩ (fun id => ⟨.cpu id.rev, ?_⟩) d
  rw [device, Fin.rev_rev]

/-- A CPU outside of `next_slot` comes nearer to it. -/
theorem Move.nearer {cfg : Config} {s after : State cfg.numCpus} {id : Fin cfg.numCpus} {event : Event} (move : Move cfg s id event after)
    (outside : ((s.cpus id).point == .slot || (s.cpus id).point == .skip) = false) (staying : ((s.cpus id).point == .stopped) = false) :
    (after.cpus id).point.fuel < (s.cpus id).point.fuel := by
  rcases move.onward with rest | less
  · cases move with
    | vacant here =>
      rw [State.setCpu_same, here]
      cases s.done <;> simp [Point.fuel]
    | nextSlot here | skipped here => rw [here] at outside; cases outside
    | stopped here => rw [here] at staying; cases staying
    | checked p pc =>
      rw [State.setCpu_same] at rest
      dsimp only at rest
      split at rest
      · cases rest
      · split at rest <;> cases rest
    | loaded result =>
      rw [State.setCpu_same] at rest
      cases result <;> cases rest
    | _ => rw [State.setCpu_same] at rest; cases rest
  · exact less

namespace Clocked
variable {cfg : Config} {startTime : Nat → BitVec 64} {m after : Clocked cfg} {event : ClockedEvent cfg.numCpus}
  {thread : Thread cfg.numCpus} {events : List (ClockedEvent cfg.numCpus)}
  {labels : List (ClockedAct cfg.numCpus × ClockedEvent cfg.numCpus)}

/-- A step with the one who takes it. -/
def Acting (startTime : Nat → BitVec 64) (before : Clocked cfg) (label : ClockedAct cfg.numCpus × ClockedEvent cfg.numCpus)
    (after : Clocked cfg) : Prop :=
  before.perform startTime label.1 = .ok (label.2, after)

theorem acting_run (run : Steps (Acting startTime) m labels after) : Steps (Step startTime) m (labels.map Prod.snd) after := by
  induction run with
  | refl => exact .refl _
  | tail _ taken ih =>
    rw [List.map_append]
    exact ih.tail ⟨_, taken⟩

theorem timer_act (performed : m.perform startTime .timer = .ok (event, after)) :
    ∃ own timer, m.timer.timerRoutine = (own, timer) ∧ event = ⟨none, some own⟩ ∧ after = { m with timer } := by
  cases performed
  exact ⟨_, _, rfl, rfl, rfl⟩

/-- A thread's step on the timer is one on its device. -/
theorem thread_timer (performed : m.perform startTime (.thread thread) = .ok (event, after)) :
    event.timer = none ∧ after.timer = m.timer ∨ ∃ own, event.timer = some own ∧ Timer.Step m.timer own after.timer ∧
      ((own, after.timer) = m.timer.nextSlot (device thread) ∨ (own, after.timer) = m.timer.resume (device thread) ∨
        (own, after.timer) = m.timer.detachEvent (device thread)) := by
  unfold perform at performed
  dsimp only at performed
  split at performed
  · unfold slotStep at performed
    split at performed
    · cases performed
      exact .inr ⟨_, rfl, ⟨.nextSlot _, rfl⟩, .inl rfl⟩
    · dsimp only at performed
      split at performed
      · cases thread with
        | loader =>
          cases performed
          exact .inr ⟨_, rfl, ⟨.resume _, rfl⟩, .inr (.inl rfl)⟩
        | cpu id =>
          obtain ⟨_, _, performed⟩ := Outcome.bind_eq_ok performed
          cases performed
          exact .inr ⟨_, rfl, ⟨.resume _, rfl⟩, .inr (.inl rfl)⟩
      · cases performed
        exact .inr ⟨_, rfl, ⟨.resume _, rfl⟩, .inr (.inl rfl)⟩
  · split at performed
    · unfold leaveStep at performed
      split at performed
      · cases performed
        exact .inl ⟨rfl, rfl⟩
      · cases performed
        exact .inr ⟨_, rfl, ⟨.detachEvent _, rfl⟩, .inr (.inr rfl)⟩
    · unfold workStep at performed
      split at performed
      · cases performed
        exact .inl ⟨rfl, rfl⟩
      · obtain ⟨_, _, performed⟩ := Outcome.bind_eq_ok performed
        cases performed
        exact .inl ⟨rfl, rfl⟩

private theorem counted_step (counted : m.timer.routine.Counted m.timer.devList ∧ m.timer.timerStop = false)
    (taken : Step startTime m event after) : after.timer.routine.Counted after.timer.devList ∧ after.timer.timerStop = false := by
  obtain ⟨act, performed⟩ := taken
  cases act with
  | timer =>
    obtain ⟨own, timer, ran, rfl, rfl⟩ := timer_act performed
    exact Timer.timerRoutine_counted counted.1 counted.2 ran
  | thread thread =>
    rcases thread_timer performed with ⟨_, same⟩ | ⟨own, _, stepped, which⟩
    · rwa [same]
    · obtain ⟨stop, routine⟩ := Timer.device_kept which
      have kept := counted.1.mono fun d => stepped.effect.detached_kept (d := d)
      refine ⟨?_, stop.trans counted.2⟩
      rcases routine with same | signalled
      · rwa [same]
      · rw [signalled]
        exact kept.signal

theorem counted_of_run (run : Steps (Step startTime) (start cfg) events m) :
    m.timer.routine.Counted m.timer.devList ∧ m.timer.timerStop = false :=
  run.invariant ⟨trivial, rfl⟩ fun _ _ _ => counted_step

/-- The timer stops only when every thread has left. -/
theorem left_of_exited (run : Steps (Step startTime) (start cfg) events m) (exited : m.timer.routine = .exited)
    (thread : Thread cfg.numCpus) : m.left thread = true := by
  have counted := (counted_of_run run).1
  rw [exited] at counted
  cases staying : m.left thread with
  | true => rfl
  | false => cases ((inStep_of_run run).attached thread staying).symm.trans (counted (device thread))

theorem left_kept (taken : Step startTime m event after) (left : m.left thread = true) : after.left thread = true := by
  have others {other : Thread cfg.numCpus} {own : Event} {sys : State cfg.numCpus} {timer : Timer (cfg.numCpus + 1)} {loaderWaits : Bool}
      (worked : threadStep cfg m.sys other = .ok (own, sys)) (apart : thread ≠ other) :
      ({ m with sys, timer, loaderWaits } : Clocked cfg).left thread = true := by
    obtain ⟨cpus, loader⟩ := threadStep_elsewhere worked
    cases thread with
    | loader => rw [Clocked.left, loader apart.symm]; exact left
    | cpu id => rw [Clocked.left, cpus id apart.symm]; exact left
  cases taken.move with
  | cpuReturned id timer own sys here _ worked =>
    have taken : threadStep cfg m.sys (.cpu id) = .ok (own, sys) := worked
    refine others taken fun same => ?_
    have stopped : (m.sys.cpus id).point = .stopped := by
      rw [same] at left
      exact eq_of_beq left
    change ((m.sys.cpus id).point == .slot || (m.sys.cpus id).point == .skip) = true at here
    rw [stopped] at here
    cases here
  | worked other own sys _ _ staying worked =>
    exact others worked fun same => by cases staying.symm.trans (same ▸ left)
  | _ => exact left

/-- A thread's own steps up to its call of `next_slot` or `detach_event`. -/
def toCall (m : Clocked cfg) : Thread cfg.numCpus → Nat
  | .loader =>
    if m.loaderWaits then 1 else
      match m.sys.loader with
      | .load _ => 3
      | .add _ => 2
      | .finished => 1
  | .cpu id => (m.sys.cpus id).point.fuel

/-- A thread's own steps up to where the timer does not wait for it. -/
def lag (m : Clocked cfg) (thread : Thread cfg.numCpus) : Nat :=
  if (m.timer.devList (device thread)).done || (m.timer.devList (device thread)).fsh then 0
  else if m.timer.point (device thread) = .working then m.toCall thread
  else 8

theorem toCall_le (m : Clocked cfg) (thread : Thread cfg.numCpus) : m.toCall thread ≤ 7 := by
  cases thread with
  | loader =>
    simp only [toCall]
    split
    · decide
    · split <;> decide
  | cpu id => exact (m.sys.cpus id).point.fuel_bounds.2

theorem lag_le (m : Clocked cfg) (thread : Thread cfg.numCpus) : m.lag thread ≤ 8 := by
  unfold lag
  split
  · exact Nat.zero_le _
  · split
    · exact Nat.le_succ_of_le (toCall_le m thread)
    · exact Nat.le_refl _

theorem lag_answered (answered : m.timer.Answered (device thread)) : m.lag thread = 0 := by
  unfold lag
  rw [if_pos]
  rw [Bool.or_eq_true]
  exact answered

theorem lag_working (working : m.timer.point (device thread) = .working) : m.lag thread ≤ m.toCall thread := by
  unfold lag
  rw [if_pos working]
  split
  · exact Nat.zero_le _
  · exact Nat.le_refl _

private theorem work_toCall (outside : m.atSlot thread = false) (staying : m.left thread = false)
    (taken : m.workStep startTime thread = .ok (event, after)) :
    after.timer = m.timer ∧ after.toCall thread ≤ m.toCall thread - 1 := by
  unfold workStep at taken
  split at taken
  · next waits =>
    obtain ⟨rfl, early⟩ := waits
    cases taken
    have open_ : m.loaderWaits = false := outside
    unfold Clocked.early at early
    split at early
    · next i here =>
      refine ⟨rfl, ?_⟩
      simp only [toCall, open_, here]
      decide
    · cases early
  · obtain ⟨⟨own, sys⟩, worked, taken⟩ := Outcome.bind_eq_ok taken
    cases taken
    cases thread with
    | cpu id => exact ⟨rfl, Nat.le_pred_of_lt ((cpuStep_move worked).nearer outside staying)⟩
    | loader =>
      refine ⟨rfl, ?_⟩
      have open_ : m.loaderWaits = false := outside
      have taken : loaderStep cfg m.sys = .ok (own, sys) := worked
      unfold loaderStep at taken
      split at taken
      · next i here =>
        split at taken
        · cases taken
          simp only [toCall, open_, here]
          decide
        · cases taken
          simp only [toCall, open_, here]
          decide
      · next i here => simp [toCall, open_, here]
      · next here =>
        change (m.sys.loader == .finished) = false at staying
        rw [here] at staying
        cases staying

/-- A thread's own step brings it nearer to its call. -/
theorem lag_own (run : Steps (Step startTime) (start cfg) events m) (done : m.timer.routine.toRelease (cfg.numCpus + 1) = 0)
    (performed : m.perform startTime (.thread thread) = .ok (event, after)) : after.lag thread ≤ m.lag thread - 1 := by
  have inStep := inStep_of_run run
  have settled := Timer.settled_of_run (timer_run run) (device thread)
  by_cases answered : m.timer.Answered (device thread)
  · have still : after.timer.Answered (device thread) := by
      rcases thread_timer performed with ⟨_, same⟩ | ⟨own, _, stepped, _⟩
      · rwa [same]
      · exact answered.kept stepped.effect (stepped.effect.calm done)
    rw [lag_answered still]
    exact Nat.zero_le _
  · rw [Timer.Answered, not_or, Bool.not_eq_true, Bool.not_eq_true] at answered
    obtain ⟨missing, attached⟩ := answered
    have lag : m.lag thread = if m.timer.point (device thread) = .working then m.toCall thread else 8 := by
      unfold lag
      rw [missing, attached]
      rfl
    have working (outside : m.atSlot thread = false) : m.lag thread = m.toCall thread := by
      rw [lag, if_pos (inStep.working thread outside)]
    unfold perform at performed
    dsimp only at performed
    split at performed
    · next here =>
      unfold slotStep at performed
      split at performed
      · next idle =>
        cases performed
        rw [lag_answered (.inl ?_)]
        · exact Nat.zero_le _
        · simp [idle, Timer.setDevice]
      · next inside =>
        have called : m.timer.point (device thread) = .called := by
          cases point : m.timer.point (device thread) with
          | working => exact absurd point inside
          | called => rfl
          | asleep => cases missing.symm.trans (settled.asleep point)
        have resumed : m.timer.resume (device thread) = (.returned (device thread),
            m.timer.setDevice (device thread) (m.timer.devList (device thread)) .working) := by
          rw [Timer.resume, called, missing]
          rfl
        have back : (m.timer.setDevice (device thread) (m.timer.devList (device thread)) .working).point (device thread) = .working :=
          Function.update_self ..
        rw [resumed] at performed
        dsimp only at performed
        rw [if_pos rfl] at performed
        rw [lag, if_neg inside]
        cases thread with
        | loader =>
          cases performed
          exact (lag_working back).trans (toCall_le _ _)
        | cpu id =>
          obtain ⟨_, _, performed⟩ := Outcome.bind_eq_ok performed
          cases performed
          exact (lag_working back).trans (toCall_le _ _)
    · next outside =>
      have outside := Bool.not_eq_true _ ▸ outside
      split at performed
      · next gone =>
        have idle := inStep.working thread outside
        have left := Except.ok.inj performed
        unfold leaveStep at left
        rw [attached] at left
        cases left
        rw [lag_answered (.inr ?_)]
        · exact Nat.zero_le _
        · simp [idle, Timer.setDevice]
      · next staying =>
        obtain ⟨same, nearer⟩ := work_toCall outside (Bool.not_eq_true _ ▸ staying) performed
        rw [working outside]
        refine (lag_working ?_).trans nearer
        rw [same]
        exact inStep.working thread outside

private theorem toCall_elsewhere {other : Thread cfg.numCpus} (performed : m.perform startTime (.thread other) = .ok (event, after))
    (apart : thread ≠ other) : after.toCall thread = m.toCall thread := by
  have worked {own : Event} {sys : State cfg.numCpus} {timer : Timer (cfg.numCpus + 1)} {loaderWaits : Bool}
      (taken : threadStep cfg m.sys other = .ok (own, sys)) (waits : other ≠ .loader → loaderWaits = m.loaderWaits) :
      ({ m with sys, timer, loaderWaits } : Clocked cfg).toCall thread = m.toCall thread := by
    obtain ⟨cpus, loader⟩ := threadStep_elsewhere taken
    cases thread with
    | loader => simp only [toCall, loader apart.symm, waits apart.symm]
    | cpu id => simp only [toCall, cpus id apart.symm]
  unfold perform at performed
  dsimp only at performed
  split at performed
  · unfold slotStep at performed
    split at performed
    · cases performed
      cases thread <;> rfl
    · dsimp only at performed
      split at performed
      · cases other with
        | loader =>
          cases performed
          cases thread with
          | loader => exact absurd rfl apart
          | cpu id => rfl
        | cpu id =>
          obtain ⟨_, taken, performed⟩ := Outcome.bind_eq_ok performed
          cases performed
          exact worked taken fun _ => rfl
      · cases performed
        cases thread <;> rfl
  · split at performed
    · unfold leaveStep at performed
      split at performed
      · cases performed
        rfl
      · cases performed
        cases thread <;> rfl
    · unfold workStep at performed
      split at performed
      · next waits =>
        cases performed
        cases thread with
        | loader => exact absurd waits.1.symm apart
        | cpu id => rfl
      · obtain ⟨_, taken, performed⟩ := Outcome.bind_eq_ok performed
        cases performed
        refine worked taken fun notLoader => ?_
        cases other with
        | loader => exact absurd rfl notLoader
        | cpu id => rfl

private theorem lag_congr (id : after.timer.devList (device thread) = m.timer.devList (device thread))
    (point : after.timer.point (device thread) = m.timer.point (device thread)) (calls : after.toCall thread = m.toCall thread) :
    after.lag thread = m.lag thread := by
  rw [lag, lag, id, point, calls]

private theorem not_tick {own : TimerEvent (cfg.numCpus + 1)} (tick : ClockedEvent.isTick ⟨none, some own⟩ = false) : own ≠ .tick := by
  rintro rfl
  cases tick

/-- Between two ticks, with the devices released, no one else throws a thread back. -/
private theorem lag_kept {act : ClockedAct cfg.numCpus} (performed : m.perform startTime act = .ok (event, after))
    (other : act ≠ .thread thread) (tick : event.isTick = false) (done : m.timer.routine.toRelease (cfg.numCpus + 1) = 0) :
    after.lag thread = m.lag thread := by
  cases act with
  | timer =>
    obtain ⟨own, timer, ran, rfl, rfl⟩ := timer_act performed
    obtain ⟨ids, points, _, _⟩ := Timer.timerRoutine_quiet ran (not_tick tick) done
    refine lag_congr (by rw [ids]) (by rw [points]) ?_
    cases thread <;> rfl
  | thread actor =>
    have apart : thread ≠ actor := fun same => other (by rw [same])
    have calls := toCall_elsewhere performed apart
    rcases thread_timer performed with ⟨_, same⟩ | ⟨own, _, _, which⟩
    · exact lag_congr (by rw [same]) (by rw [same]) calls
    · obtain ⟨id, point⟩ := Timer.device_elsewhere (fun equal => apart (device_injective equal)) which
      exact lag_congr id point calls

/-- The sweep that releases the devices only gets shorter until the tick. -/
private theorem toRelease_step {act : ClockedAct cfg.numCpus} (performed : m.perform startTime act = .ok (event, after))
    (tick : event.isTick = false) :
    after.timer.routine.toRelease (cfg.numCpus + 1) ≤ m.timer.routine.toRelease (cfg.numCpus + 1) - (act == .timer).toNat := by
  cases act with
  | timer =>
    obtain ⟨own, timer, ran, rfl, rfl⟩ := timer_act performed
    exact Timer.timerRoutine_toRelease ran (not_tick tick)
  | thread actor =>
    rcases thread_timer performed with ⟨_, same⟩ | ⟨own, _, _, which⟩
    · rw [same]
      exact Nat.le_refl _
    · rcases (Timer.device_kept which).2 with same | signalled
      · rw [same]
        exact Nat.le_refl _
      · rw [signalled, Routine.toRelease_signal]
        exact Nat.le_refl _

/-- The timer comes nearer to the tick when every thread is where it does not wait for it. -/
private theorem toTick_step {act : ClockedAct cfg.numCpus} (performed : m.perform startTime act = .ok (event, after))
    (tick : event.isTick = false) (done : m.timer.routine.toRelease (cfg.numCpus + 1) = 0) (answered : ∀ d, m.timer.Answered d)
    (running : m.timer.timerStop = false) :
    (∀ d, after.timer.Answered d) ∧
      after.timer.routine.toTick (cfg.numCpus + 1) ≤ m.timer.routine.toTick (cfg.numCpus + 1) - (act == .timer).toNat := by
  cases act with
  | timer =>
    obtain ⟨own, timer, ran, rfl, rfl⟩ := timer_act performed
    obtain ⟨ids, _, _, nearer⟩ := Timer.timerRoutine_quiet ran (not_tick tick) done
    refine ⟨fun d => ?_, nearer answered running⟩
    rw [Timer.Answered, ids]
    exact answered d
  | thread actor =>
    rcases thread_timer performed with ⟨_, same⟩ | ⟨own, _, stepped, which⟩
    · rw [same]
      exact ⟨answered, Nat.le_refl _⟩
    · refine ⟨fun d => (answered d).kept stepped.effect (stepped.effect.calm done), ?_⟩
      rcases (Timer.device_kept which).2 with same | signalled
      · rw [same]
        exact Nat.le_refl _
      · rw [signalled]
        exact Routine.toTick_signal

section Rounds

def Reachable (startTime : Nat → BitVec 64) (m : Clocked cfg) : Prop := ∃ events, Steps (Step startTime) (start cfg) events m

theorem Reachable.step {label : ClockedAct cfg.numCpus × ClockedEvent cfg.numCpus} (reachable : Reachable startTime m)
    (taken : Acting startTime m label after) : Reachable startTime after := by
  obtain ⟨events, run⟩ := reachable
  exact ⟨_, run.tail ⟨_, taken⟩⟩

theorem Reachable.run (reachable : Reachable startTime m) (onward : Steps (Acting startTime) m labels after) :
    Reachable startTime after :=
  onward.invariant reachable fun _ _ _ reachable taken => reachable.step taken

def takes (act : ClockedAct cfg.numCpus) (labels : List (ClockedAct cfg.numCpus × ClockedEvent cfg.numCpus)) : Nat :=
  labels.countP fun label => label.1 == act

def ticks (labels : List (ClockedAct cfg.numCpus × ClockedEvent cfg.numCpus)) : Nat := labels.countP fun label => label.2.isTick

/-- The timer gets to release the devices, then every thread to its next call, then the timer
to its tick; whoever else takes steps in between. -/
def Round (labels : List (ClockedAct cfg.numCpus × ClockedEvent cfg.numCpus)) : Prop :=
  ∃ first second third, labels = first ++ second ++ third ∧ cfg.numCpus + 2 ≤ takes .timer first ∧
    (∀ thread, 8 ≤ takes (.thread thread) second) ∧ cfg.numCpus + 4 ≤ takes .timer third

private theorem no_tick (none : ticks labels = 0) {label : ClockedAct cfg.numCpus × ClockedEvent cfg.numCpus} (member : label ∈ labels) :
    label.2.isTick = false :=
  Bool.not_eq_true _ ▸ List.countP_eq_zero.mp none label member

/-- The timer has released every device. -/
private theorem released (onward : Steps (Acting startTime) m labels after) (none : ticks labels = 0)
    (enough : cfg.numCpus + 2 ≤ takes .timer labels) : after.timer.routine.toRelease (cfg.numCpus + 1) = 0 := by
  have falls := (onward.rank_le (fun _ => True) (fun m => m.timer.routine.toRelease (cfg.numCpus + 1)) (fun label => label.1 == .timer)
    trivial fun _ _ _ member _ taken => ⟨trivial, toRelease_step taken (no_tick none member)⟩).2
  have most : m.timer.routine.toRelease (cfg.numCpus + 1) ≤ cfg.numCpus + 2 := by
    unfold Routine.toRelease
    split
    · omega
    · exact Nat.zero_le _
  rw [takes] at enough
  omega

/-- Every thread has called `next_slot` or left. -/
private theorem answered (reachable : Reachable startTime m) (onward : Steps (Acting startTime) m labels after) (none : ticks labels = 0)
    (done : m.timer.routine.toRelease (cfg.numCpus + 1) = 0) (enough : ∀ thread, 8 ≤ takes (.thread thread) labels) :
    after.timer.routine.toRelease (cfg.numCpus + 1) = 0 ∧ ∀ d, after.timer.Answered d := by
  have falls (thread : Thread cfg.numCpus) := onward.rank_le
    (fun m => Reachable startTime m ∧ m.timer.routine.toRelease (cfg.numCpus + 1) = 0) (fun m => m.lag thread)
    (fun label => label.1 == .thread thread) ⟨reachable, done⟩ (by
      intro before label next member kept taken
      obtain ⟨reachable, done⟩ := kept
      have tick := no_tick none member
      have short := toRelease_step taken tick
      rw [done] at short
      refine ⟨⟨reachable.step taken, Nat.le_zero.mp (Nat.le_trans short (Nat.sub_le _ _))⟩, ?_⟩
      by_cases own : label.1 = .thread thread
      · obtain ⟨act, event⟩ := label
        obtain ⟨events, run⟩ := reachable
        subst own
        rw [beq_self_eq_true]
        exact lag_own run done taken
      · rw [beq_false_of_ne own, lag_kept taken own tick done]
        exact Nat.le_refl _)
  refine ⟨(falls .loader).1.2, fun d => ?_⟩
  obtain ⟨thread, rfl⟩ := device_surjective d
  have gone : after.lag thread = 0 := by
    have falls := (falls thread).2
    have most := lag_le m thread
    have enough := enough thread
    rw [takes] at enough
    omega
  by_contra missing
  rw [Timer.Answered, not_or, Bool.not_eq_true, Bool.not_eq_true] at missing
  rw [lag, missing.1, missing.2] at gone
  have positive : 0 < after.toCall thread := by
    cases thread with
    | loader =>
      simp only [toCall]
      split
      · decide
      · split <;> decide
    | cpu id => exact (after.sys.cpus id).point.fuel_bounds.1
  change (if after.timer.point (device thread) = .working then after.toCall thread else 8) = 0 at gone
  split at gone
  · exact absurd gone (Nat.ne_of_gt positive)
  · cases gone

/-- A round in which the timer does not tick ends with the timer's routine. -/
private theorem exited (reachable : Reachable startTime m) (onward : Steps (Acting startTime) m labels after) (none : ticks labels = 0)
    (done : m.timer.routine.toRelease (cfg.numCpus + 1) = 0) (there : ∀ d, m.timer.Answered d)
    (enough : cfg.numCpus + 4 ≤ takes .timer labels) : after.timer.routine = .exited := by
  obtain ⟨⟨_, released, _⟩, falls⟩ := onward.rank_le
    (fun m => Reachable startTime m ∧ m.timer.routine.toRelease (cfg.numCpus + 1) = 0 ∧ ∀ d, m.timer.Answered d)
    (fun m => m.timer.routine.toTick (cfg.numCpus + 1)) (fun label => label.1 == .timer) ⟨reachable, done, there⟩ (by
      intro before label next member kept taken
      obtain ⟨reachable, done, there⟩ := kept
      have tick := no_tick none member
      have short := toRelease_step taken tick
      rw [done] at short
      obtain ⟨events, run⟩ := reachable
      obtain ⟨still, nearer⟩ := toTick_step taken tick done there (counted_of_run run).2
      exact ⟨⟨⟨_, run.tail ⟨_, taken⟩⟩, Nat.le_zero.mp (Nat.le_trans short (Nat.sub_le _ _)), still⟩, nearer⟩)
  have most : m.timer.routine.toTick (cfg.numCpus + 1) ≤ cfg.numCpus + 4 := by
    unfold Routine.toTick
    split <;> omega
  rw [takes] at enough
  have gone : after.timer.routine.toTick (cfg.numCpus + 1) = 0 := by omega
  cases routine : after.timer.routine with
  | exited => rfl
  | release => rw [routine] at released; cases released
  | _ => rw [routine] at gone; cases gone

private theorem ticks_append (left right : List (ClockedAct cfg.numCpus × ClockedEvent cfg.numCpus)) :
    ticks (left ++ right) = ticks left + ticks right := List.countP_append

/-- A round brings the next tick, unless every thread is through. -/
theorem round_ticks (reachable : Reachable startTime m) (onward : Steps (Acting startTime) m labels after) (round : Round labels) :
    1 ≤ ticks labels ∨ ∀ thread, after.left thread = true := by
  obtain ⟨first, second, third, rfl, timerFirst, threads, timerLast⟩ := round
  rcases Nat.eq_zero_or_pos (ticks (first ++ second ++ third)) with none | some
  · right
    rw [ticks_append, ticks_append] at none
    obtain ⟨second, upto, last⟩ := onward.split
    obtain ⟨first, early, middle⟩ := upto.split
    have done := released early (by omega) timerFirst
    obtain ⟨done, there⟩ := answered (reachable.run early) middle (by omega) done threads
    have ended := exited (reachable.run upto) last (by omega) done there timerLast
    obtain ⟨events, run⟩ := reachable.run onward
    exact left_of_exited run ended
  · exact .inl some

/-- As many rounds bring as many ticks, or every thread has left its loop. -/
theorem Reachable.rounds (reachable : Reachable startTime m) {rounds : List (List (ClockedAct cfg.numCpus × ClockedEvent cfg.numCpus))}
    (onward : Steps (Acting startTime) m rounds.flatten after) (each : ∀ round ∈ rounds, Round round) :
    rounds.length ≤ ticks rounds.flatten ∨ ∀ thread, after.left thread = true := by
  induction rounds generalizing m with
  | nil => exact .inl (Nat.zero_le _)
  | cons round rounds ih =>
    rw [List.flatten_cons] at onward
    obtain ⟨middle, own, rest⟩ := onward.split
    rcases round_ticks reachable own (each round List.mem_cons_self) with tick | gone
    · rcases ih (reachable.run own) rest (fun round member => each round (List.mem_cons_of_mem _ member)) with more | gone
      · left
        rw [List.flatten_cons, ticks_append, List.length_cons]
        omega
      · exact .inr gone
    · exact .inr fun thread => rest.invariant (gone thread) fun _ _ _ gone taken => left_kept ⟨_, taken⟩ gone

/-- The time goes on: whatever the order of the steps within the rounds, as many rounds bring
as many ticks, or every thread has left its loop. -/
theorem rounds_tick (run : Steps (Step startTime) (start cfg) events m)
    {rounds : List (List (ClockedAct cfg.numCpus × ClockedEvent cfg.numCpus))}
    (onward : Steps (Acting startTime) m rounds.flatten after) (each : ∀ round ∈ rounds, Round round) :
    rounds.length ≤ ticks rounds.flatten ∨ ∀ thread, after.left thread = true := by
  have reachable : Reachable startTime m := ⟨events, run⟩
  exact reachable.rounds onward each

private theorem performAll_acting {acts : List (ClockedAct cfg.numCpus)} (ran : performAll startTime m acts = .ok (events, after)) :
    ∃ labels, labels.map Prod.fst = acts ∧ Steps (Acting startTime) m labels after := by
  induction acts generalizing m events with
  | nil => cases ran; exact ⟨[], rfl, .refl _⟩
  | cons act acts ih =>
    obtain ⟨⟨event, middle⟩, performed, ran⟩ := Outcome.bind_eq_ok ran
    obtain ⟨⟨rest, last⟩, later, ran⟩ := Outcome.bind_eq_ok ran
    cases ran
    obtain ⟨labels, same, run⟩ := ih later
    exact ⟨(act, event) :: labels, by rw [List.map_cons, same], .cons performed run⟩

private theorem takes_eq (act : ClockedAct cfg.numCpus) (labels : List (ClockedAct cfg.numCpus × ClockedEvent cfg.numCpus)) :
    takes act labels = (labels.map Prod.fst).countP (· == act) := by
  rw [List.countP_map]
  rfl

/-- A round, by the order in which the steps were taken. -/
theorem round_of_acts {first second third : List (ClockedAct cfg.numCpus)} (same : labels.map Prod.fst = first ++ (second ++ third))
    (timerFirst : cfg.numCpus + 2 ≤ first.countP (· == .timer)) (threads : ∀ thread, 8 ≤ second.countP (· == .thread thread))
    (timerLast : cfg.numCpus + 4 ≤ third.countP (· == .timer)) : Round labels := by
  obtain ⟨left, rest, rfl, sameFirst, sameRest⟩ := List.map_eq_append_iff.mp same
  obtain ⟨middle, right, rfl, sameSecond, sameThird⟩ := List.map_eq_append_iff.mp sameRest
  refine ⟨left, middle, right, (List.append_assoc ..).symm, ?_, fun thread => ?_, ?_⟩
  · rwa [takes_eq, sameFirst]
  · rw [takes_eq, sameSecond]
    exact threads thread
  · rwa [takes_eq, sameThird]

/-- The CPU before the loader, in every round. -/
def oneRound : List (ClockedAct twoCalcs.numCpus) :=
  List.replicate 3 .timer ++ (List.replicate 8 (.thread (.cpu onlyCpu)) ++ List.replicate 8 (.thread .loader) ++ List.replicate 5 .timer)

theorem oneRound_round {labels : List (ClockedAct twoCalcs.numCpus × ClockedEvent twoCalcs.numCpus)} (same : labels.map Prod.fst = oneRound) :
    Round labels := by
  refine round_of_acts same (by decide) (fun thread => ?_) (by decide)
  cases thread with
  | loader => decide
  | cpu id => rw [onlyCpu_eq id]; decide

set_option maxRecDepth 20000 in
theorem rounds_tick_twoCalcs : ∃ labels m, Steps (Acting fun _ => 0) (start twoCalcs) [labels].flatten m ∧ Round labels ∧
    (1 ≤ ticks [labels].flatten ∨ ∀ thread, m.left thread = true) := by
  have check : ((performAll (fun _ => 0) (start twoCalcs) oneRound).map fun _ => ()) = .ok () := rfl
  cases ran : performAll (fun _ => 0) (start twoCalcs) oneRound with
  | error fault => rw [ran] at check; cases check
  | ok result =>
    obtain ⟨labels, same, run⟩ := performAll_acting ran
    have whole : Steps (Acting fun _ => 0) (start twoCalcs) [labels].flatten result.2 := by
      rwa [List.flatten_singleton]
    refine ⟨_, _, whole, oneRound_round same, rounds_tick (.refl _) whole fun labels member => ?_⟩
    rw [List.mem_singleton.mp member]
    exact oneRound_round same

end Rounds
end Clocked
end LamiaAtrium
