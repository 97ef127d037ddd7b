import LamiaAtrium.Slots
import LamiaAtrium.Proofs.Threads
import LamiaAtrium.Proofs.Barrier

/-! The threads between two calls of `next_slot`: a run in time slots is a run of the system
and a run of the timer, and while a thread is in its slot no other one gets two slots ahead. -/

namespace LamiaAtrium
open Run

theorem device_injective {n : Nat} : Function.Injective (@device n) := by
  intro first second same
  cases first with
  | loader =>
    cases second with
    | loader => rfl
    | cpu id => exact absurd same.symm (Fin.succ_ne_zero id.rev)
  | cpu id =>
    cases second with
    | loader => exact absurd same (Fin.succ_ne_zero id.rev)
    | cpu other => rw [Fin.rev_injective (Fin.succ_injective _ same)]

namespace Clocked
variable {cfg : Config} {startTime : Nat → BitVec 64} {m after : Clocked cfg} {event : ClockedEvent cfg.numCpus}
  {thread : Thread cfg.numCpus} {events : List (ClockedEvent cfg.numCpus)}

/-- One step in time slots: of the timer, at a call of `next_slot` or `detach_event`, or of a
thread in its slot. -/
inductive Move (m : Clocked cfg) : ClockedEvent cfg.numCpus → Clocked cfg → Prop where
  | rested : Move m ⟨none, none⟩ m
  | timed (event : TimerEvent (cfg.numCpus + 1)) (timer : Timer (cfg.numCpus + 1)) :
      Timer.Step m.timer event timer → (∀ d, event ≠ .returned d) →
      (∀ d, event = .called d → ∃ thread, d = device thread ∧ m.atSlot thread = true) →
      (∀ d, event = .detached d → ∃ thread, d = device thread ∧ m.left thread = true) →
      Move m ⟨none, some event⟩ { m with timer }
  | loaderReturned (timer : Timer (cfg.numCpus + 1)) :
      m.atSlot .loader = true → Timer.Step m.timer (.returned (device (.loader : Thread cfg.numCpus))) timer →
      Move m ⟨none, some (.returned (device (.loader : Thread cfg.numCpus)))⟩ { m with timer, loaderWaits := false }
  | cpuReturned (id : Fin cfg.numCpus) (timer : Timer (cfg.numCpus + 1)) (own : Event) (sys : State cfg.numCpus) :
      m.atSlot (.cpu id) = true → Timer.Step m.timer (.returned (device (.cpu id))) timer → cpuStep cfg m.sys id = .ok (own, sys) →
      Move m ⟨some (.cpu id, own), some (.returned (device (.cpu id)))⟩ { m with timer, sys }
  | delayed (i : Nat) : m.atSlot .loader = false → m.sys.loader = .add i → Move m ⟨none, none⟩ { m with loaderWaits := true }
  | worked (thread : Thread cfg.numCpus) (own : Event) (sys : State cfg.numCpus) (loaderWaits : Bool) :
      m.atSlot thread = false → m.left thread = false → threadStep cfg m.sys thread = .ok (own, sys) →
      (thread ≠ .loader → loaderWaits = m.loaderWaits) →
      (∀ i, thread = .loader → m.sys.loader = .add i → loaderWaits = true) →
      Move m ⟨some (thread, own), none⟩ { m with sys, loaderWaits }

private theorem early_add (early : m.early startTime = true) : ∃ i, m.sys.loader = .add i := by
  unfold Clocked.early at early
  split at early
  · next i here => exact ⟨i, here⟩
  · cases early

private theorem slotStep_move (here : m.atSlot thread = true) (taken : m.slotStep thread = .ok (event, after)) : Move m event after := by
  unfold slotStep at taken
  split at taken
  · next working =>
    have called : m.timer.nextSlot (device thread) = (.called (device thread), (m.timer.nextSlot (device thread)).2) := by
      rw [Timer.nextSlot, working]
    rw [called] at taken
    cases taken
    refine .timed _ _ ⟨.nextSlot _, called⟩ nofun ?_ nofun
    intro d same
    exact ⟨thread, (TimerEvent.called.inj same).symm, here⟩
  · next inside =>
    cases resumed : m.timer.resume (device thread) with
    | mk answer timer =>
      have stepped : Timer.Step m.timer answer timer := ⟨.resume _, resumed⟩
      rw [resumed] at taken
      dsimp only at taken
      split at taken
      · next back =>
        rw [back] at stepped taken
        cases thread with
        | loader => cases taken; exact .loaderReturned timer here stepped
        | cpu id =>
          obtain ⟨⟨own, sys⟩, worked, taken⟩ := Outcome.bind_eq_ok taken
          cases taken
          exact .cpuReturned id timer own sys here stepped worked
      · next still =>
        cases taken
        have silent : answer = .silent := by
          unfold Timer.resume at resumed
          split at resumed
          · cases resumed; rfl
          · split at resumed
            · cases resumed; rfl
            · cases resumed; exact absurd rfl still
          · cases resumed; rfl
        rw [silent] at stepped ⊢
        exact .timed _ _ stepped nofun nofun nofun

private theorem leaveStep_move (here : m.left thread = true) (taken : m.leaveStep thread = (event, after)) : Move m event after := by
  unfold leaveStep at taken
  split at taken
  · cases taken
    exact .rested
  · cases detached : m.timer.detachEvent (device thread) with
    | mk answer timer =>
      have stepped : Timer.Step m.timer answer timer := ⟨.detachEvent _, detached⟩
      rw [detached] at taken
      cases taken
      unfold Timer.detachEvent at detached
      split at detached
      · cases detached
        apply Move.timed _ _ stepped nofun nofun
        intro d same
        exact ⟨thread, (TimerEvent.detached.inj same).symm, here⟩
      · cases detached
        exact .timed _ _ stepped nofun nofun nofun

private theorem workStep_move (outside : m.atSlot thread = false) (staying : m.left thread = false)
    (taken : m.workStep startTime thread = .ok (event, after)) : Move m event after := by
  unfold workStep at taken
  split at taken
  · next waits =>
    obtain ⟨rfl, early⟩ := waits
    obtain ⟨i, here⟩ := early_add early
    cases taken
    exact .delayed i outside here
  · obtain ⟨⟨own, sys⟩, worked, taken⟩ := Outcome.bind_eq_ok taken
    cases taken
    refine .worked thread own sys _ outside staying worked ?_ ?_
    · intro other
      cases thread with
      | loader => exact absurd rfl other
      | cpu id => rfl
    · rintro i rfl here
      rw [here]

private theorem timerRoutine_event {n : Nat} (t : Timer n) :
    t.timerRoutine.1 = .silent ∨ t.timerRoutine.1 = .tick ∨ ∃ d, t.timerRoutine.1 = .released d := by
  unfold Timer.timerRoutine
  split
  · exact .inl rfl
  · split
    · dsimp only
      split <;> exact .inl rfl
    · exact .inl rfl
  · exact .inl rfl
  · exact .inr (.inl rfl)
  · split
    · exact .inr (.inr ⟨_, rfl⟩)
    · exact .inl rfl
  · exact .inl rfl

theorem Step.move (taken : Step startTime m event after) : Move m event after := by
  obtain ⟨act, performed⟩ := taken
  cases act with
  | timer =>
    cases ticked : m.timer.timerRoutine with
    | mk answer timer =>
      have stepped : Timer.Step m.timer answer timer := ⟨.routine, ticked⟩
      rw [perform, ticked] at performed
      cases performed
      have own := timerRoutine_event m.timer
      rw [ticked] at own
      rcases own with rfl | rfl | ⟨d, rfl⟩ <;> exact .timed _ _ stepped nofun nofun nofun
  | thread thread =>
    unfold perform at performed
    dsimp only at performed
    split at performed
    · next here => exact slotStep_move here performed
    · next outside =>
      have outside := Bool.not_eq_true _ ▸ outside
      split at performed
      · next gone => exact leaveStep_move gone (Except.ok.inj performed)
      · next staying => exact workStep_move outside (Bool.not_eq_true _ ▸ staying) performed

theorem system_run (run : Steps (Step startTime) m events after) :
    Steps (SystemStep cfg) m.sys (events.filterMap ClockedEvent.sys) after.sys := by
  refine run.component Clocked.sys _ fun before event after taken => ?_
  cases taken.move with
  | cpuReturned _ _ _ _ _ _ worked => exact .inr ⟨_, rfl, worked⟩
  | worked _ _ _ _ _ _ worked => exact .inr ⟨_, rfl, worked⟩
  | _ => exact .inl ⟨rfl, rfl⟩

theorem timer_run (run : Steps (Step startTime) m events after) :
    Steps Timer.Step m.timer (events.filterMap ClockedEvent.timer) after.timer := by
  refine run.component Clocked.timer _ fun before event after taken => ?_
  cases taken.move with
  | timed _ _ stepped => exact .inr ⟨_, rfl, stepped⟩
  | loaderReturned _ _ stepped => exact .inr ⟨_, rfl, stepped⟩
  | cpuReturned _ _ _ _ _ stepped => exact .inr ⟨_, rfl, stepped⟩
  | _ => exact .inl ⟨rfl, rfl⟩

/-- A thread is in `next_slot` where its routine calls it and detaches at its end. -/
structure InStep (m : Clocked cfg) : Prop where
  working : ∀ thread, m.atSlot thread = false → m.timer.point (device thread) = .working
  attached : ∀ thread, m.left thread = false → (m.timer.devList (device thread)).fsh = false

private theorem elsewhere {sys : State cfg.numCpus} {own : Event} {other : Thread cfg.numCpus} {timer : Timer (cfg.numCpus + 1)}
    {loaderWaits : Bool} (taken : threadStep cfg m.sys thread = .ok (own, sys)) (apart : other ≠ thread)
    (waits : thread ≠ .loader → loaderWaits = m.loaderWaits) :
    ({ m with sys, timer, loaderWaits } : Clocked cfg).atSlot other = m.atSlot other ∧
      ({ m with sys, timer, loaderWaits } : Clocked cfg).left other = m.left other := by
  obtain ⟨cpus, loader⟩ := threadStep_elsewhere taken
  cases other with
  | loader => exact ⟨waits apart.symm, by rw [left, left, loader apart.symm]⟩
  | cpu id =>
    have same := cpus id apart.symm
    exact ⟨by rw [atSlot, atSlot, same], by rw [left, left, same]⟩

private theorem left_of_atSlot {id : Fin cfg.numCpus} (here : m.atSlot (.cpu id) = true) : m.left (.cpu id) = false := by
  cases gone : m.left (.cpu id) with
  | false => rfl
  | true =>
    have point : (m.sys.cpus id).point = .stopped := eq_of_beq gone
    change ((m.sys.cpus id).point == .slot || (m.sys.cpus id).point == .skip) = true at here
    rw [point] at here
    cases here

private theorem InStep.step (inStep : InStep m) (move : Move m event after) : InStep after := by
  cases move with
  | rested => exact inStep
  | timed own timer stepped _ called detached =>
    refine ⟨fun thread outside => ?_, fun thread staying => ?_⟩
    · apply stepped.effect.working_kept (inStep.working thread outside)
      intro same
      obtain ⟨other, equal, here⟩ := called _ same
      cases outside.symm.trans ((device_injective equal).symm ▸ here)
    · apply stepped.effect.attached_kept (inStep.attached thread staying)
      intro same
      obtain ⟨other, equal, here⟩ := detached _ same
      cases staying.symm.trans ((device_injective equal).symm ▸ here)
  | loaderReturned timer _ stepped =>
    refine ⟨fun thread outside => ?_, fun thread staying => stepped.effect.attached_kept (inStep.attached thread staying) nofun⟩
    cases thread with
    | loader => exact stepped.effect.returned_works
    | cpu id => exact stepped.effect.working_kept (inStep.working (.cpu id) outside) nofun
  | cpuReturned id timer event sys here stepped worked =>
    have taken : threadStep cfg m.sys (.cpu id) = .ok (event, sys) := worked
    have others {other : Thread cfg.numCpus} (apart : other ≠ .cpu id) :
        ({ m with timer, sys } : Clocked cfg).atSlot other = m.atSlot other ∧
          ({ m with timer, sys } : Clocked cfg).left other = m.left other :=
      elsewhere taken apart fun _ => rfl
    refine ⟨fun thread outside => ?_, fun thread staying => ?_⟩
    · by_cases own : thread = .cpu id
      · rw [own]
        exact stepped.effect.returned_works
      · rw [(others own).1] at outside
        exact stepped.effect.working_kept (inStep.working thread outside) nofun
    · apply stepped.effect.attached_kept (inStep.attached thread ?_) nofun
      by_cases own : thread = .cpu id
      · rw [own]
        exact left_of_atSlot here
      · rwa [(others own).2] at staying
  | delayed =>
    refine ⟨fun thread outside => ?_, inStep.attached⟩
    cases thread with
    | loader => cases outside
    | cpu id => exact inStep.working (.cpu id) outside
  | worked thread own sys loaderWaits outside staying worked waits =>
    refine ⟨fun other outsideOther => ?_, fun other stayingOther => ?_⟩
    · by_cases same : other = thread
      · rw [same]
        exact inStep.working thread outside
      · rw [(elsewhere worked same waits).1] at outsideOther
        exact inStep.working other outsideOther
    · by_cases same : other = thread
      · rw [same]
        exact inStep.attached thread staying
      · rw [(elsewhere worked same waits).2] at stayingOther
        exact inStep.attached other stayingOther

theorem inStep_of_run (run : Steps (Step startTime) (start cfg) events m) : InStep m :=
  run.invariant ⟨fun _ _ => rfl, fun _ _ => rfl⟩ fun _ _ _ inStep taken => inStep.step taken.move

end Clocked
end LamiaAtrium
