import LamiaAtrium.Timer
import LamiaAtrium.Library.Run
import Mathlib.Data.List.Count

/-! The timer as a barrier: no device that has not detached is more than one slot ahead of
another, and none is forgotten. -/

namespace LamiaAtrium
open Run

namespace Routine

/-- The sweep that waits for the devices has been at device `k`, which was not released since. -/
def Collected (k : Nat) : Routine → Prop
  | .collect j _ _ | .wait j _ _ => k < j
  | .tick _ _ => True
  | .release j _ _ => j ≤ k
  | _ => False

/-- The time has gone on and device `k` has not been told. -/
def pending (k : Nat) : Routine → Bool
  | .release j _ _ => decide (j ≤ k)
  | _ => false

def WaitsFor (k : Nat) : Routine → Prop
  | .wait j _ _ => j = k
  | _ => False

section Signal
variable {k j : Nat} {routine : Routine}

theorem collected_signal : (routine.signal j).Collected k ↔ routine.Collected k := by
  unfold signal
  split
  · split <;> exact Iff.rfl
  · exact Iff.rfl

theorem pending_signal : (routine.signal j).pending k = routine.pending k := by
  unfold signal
  split
  · split <;> rfl
  · rfl

theorem waitsFor_signal (waits : (routine.signal j).WaitsFor k) : routine.WaitsFor k ∧ k ≠ j := by
  unfold signal at waits
  split at waits
  · split at waits
    · cases waits
    · next i _ _ distinct => exact ⟨waits, fun same => distinct (waits.trans same)⟩
  · next other =>
    cases routine with
    | wait i fsh event => exact absurd rfl (other i fsh event)
    | _ => cases waits

end Signal
end Routine

namespace Timer
variable {n : Nat} {t after : Timer n} {event : TimerEvent n} {events : List (TimerEvent n)} {d : Fin n}

/-- Everything one step can do. -/
inductive Effect (t : Timer n) : TimerEvent n → Timer n → Prop where
  | rested (stop : Bool) : Effect t .silent { t with timerStop := stop }
  | onward (routine : Routine) :
      (∀ d : Fin n, routine.Collected d → t.routine.Collected d ∨ (t.devList d).done = true ∨ (t.devList d).fsh = true) →
      (∀ d : Fin n, routine.pending d = t.routine.pending d) →
      (∀ d : Fin n, routine.WaitsFor d → (t.devList d).done = false ∧ (t.devList d).fsh = false) →
      Effect t .silent { t with routine }
  | ticked (fsh event : Nat) :
      t.routine = .tick fsh event → Effect t .tick { t with time := t.time + 1, routine := .release 0 fsh event }
  | released (d : Fin n) (fsh event : Nat) :
      t.routine = .release d fsh event →
      Effect t (.released d) { t.setDevice d { t.devList d with done := false } (t.point d).signal with
        routine := .release (d + 1) fsh event }
  | called (d : Fin n) :
      t.point d = .working →
      Effect t (.called d) { t.setDevice d { t.devList d with done := true } .called with routine := t.routine.signal d }
  | slept (d : Fin n) : t.point d = .called → (t.devList d).done = true → Effect t .silent (t.setDevice d (t.devList d) .asleep)
  | woke (d : Fin n) : t.point d = .asleep → Effect t .silent (t.setDevice d (t.devList d) .called)
  | returned (d : Fin n) :
      t.point d = .called → (t.devList d).done = false → Effect t (.returned d) (t.setDevice d (t.devList d) .working)
  | detached (d : Fin n) :
      t.point d = .working →
      Effect t (.detached d) { t.setDevice d { t.devList d with fsh := true } .working with routine := t.routine.signal d }

private theorem timerRoutine_effect (taken : t.timerRoutine = (event, after)) : Effect t event after := by
  unfold timerRoutine at taken
  split at taken
  · next here =>
    cases taken
    refine .onward _ ?_ ?_ ?_
    · intro d collected
      split at collected
      · cases collected
      · exact absurd collected (Nat.not_lt_zero _)
    · intro d
      rw [here]
      split <;> rfl
    · intro d waits
      split at waits <;> cases waits
  · next k fsh counted here =>
    split at taken
    · next inside =>
      dsimp only at taken
      split at taken
      · next missing =>
        cases taken
        rw [Bool.and_eq_true, Bool.not_eq_true', Bool.not_eq_true'] at missing
        refine .onward _ (fun d collected => .inl (here ▸ collected)) (fun d => by rw [here]; rfl) ?_
        intro d waits
        rwa [show d = ⟨k, inside⟩ from Fin.ext waits.symm]
      · next arrived =>
        cases taken
        refine .onward _ ?_ (fun d => by rw [here]; rfl) (fun d waits => by cases waits)
        intro d collected
        rcases Nat.lt_or_eq_of_le (Nat.le_of_lt_succ collected) with before | last
        · exact .inl (here ▸ before)
        · rw [show d = ⟨k, inside⟩ from Fin.ext last]
          cases done : (t.devList ⟨k, inside⟩).done with
          | true => exact .inr (.inl rfl)
          | false =>
            cases fsh : (t.devList ⟨k, inside⟩).fsh with
            | true => exact .inr (.inr rfl)
            | false => simp [done, fsh] at arrived
    · next outside =>
      cases taken
      refine .onward _ ?_ (fun d => by rw [here]; rfl) (fun d waits => by cases waits)
      intro d _
      exact .inl (here ▸ Nat.lt_of_lt_of_le d.isLt (Nat.not_lt.mp outside))
  · next here =>
    cases taken
    exact .onward _ (fun d collected => .inl (here ▸ collected)) (fun d => by rw [here]; rfl) (fun d waits => by cases waits)
  · next here =>
    cases taken
    exact .ticked _ _ here
  · next k fsh counted here =>
    split at taken
    · next inside =>
      cases taken
      exact .released ⟨k, inside⟩ fsh counted here
    · next outside =>
      cases taken
      refine .onward _ ?_ ?_ ?_
      · intro d collected
        split at collected <;> cases collected
      · intro d
        have far : ¬k ≤ d.val := fun reached => outside (Nat.lt_of_le_of_lt reached d.isLt)
        rw [here, show (Routine.release k fsh counted).pending d.val = false from decide_eq_false far]
        split <;> rfl
      · intro d waits
        split at waits <;> cases waits
  · cases taken
    exact .rested _

theorem Step.effect (taken : Step t event after) : Effect t event after := by
  obtain ⟨act, performed⟩ := taken
  cases act with
  | routine => exact timerRoutine_effect performed
  | nextSlot d =>
    change t.nextSlot d = _ at performed
    unfold nextSlot at performed
    split at performed
    · next here => cases performed; exact .called d here
    · cases performed; exact .rested _
  | resume d =>
    change t.resume d = _ at performed
    unfold resume at performed
    split at performed
    · cases performed; exact .rested _
    · next here =>
      split at performed
      · next done => cases performed; exact .slept d here done
      · next clear => cases performed; exact .returned d here (Bool.not_eq_true _ ▸ clear)
    · next here => cases performed; exact .woke d here
  | detachEvent d =>
    change t.detachEvent d = _ at performed
    unfold detachEvent at performed
    split at performed
    · next here => cases performed; exact .detached d here
    · cases performed; exact .rested _
  | stopTimer => cases performed; exact .rested _

theorem count_concat (events : List (TimerEvent n)) (event other : TimerEvent n) :
    (events ++ [event]).count other = events.count other + (decide (event = other)).toNat := by
  rw [List.count_append, List.count_singleton]
  by_cases same : event = other <;> simp [same]

/-- Where device `d` stands: its calls of `next_slot`, the calls that have returned, its
releases and the slots so far. -/
structure Settled (events : List (TimerEvent n)) (t : Timer n) (d : Fin n) : Prop where
  idle : t.point d = .working → (t.devList d).done = false
  asleep : t.point d = .asleep → (t.devList d).done = true
  inside : events.count (.called d) = events.count (.returned d) + (decide (t.point d ≠ .working)).toNat
  answered : (t.devList d).fsh = false → events.count (.called d) = events.count (.released d) + (t.devList d).done.toNat
  released : events.count (.released d) + (t.routine.pending d).toNat = events.count .tick
  arrived : (t.devList d).fsh = false → t.routine.Collected d → (t.devList d).done = true
  waited : t.routine.WaitsFor d → (t.devList d).done = false ∧ (t.devList d).fsh = false

namespace Settled

/-- A step that is not about the device. -/
private theorem frame (settled : Settled events t d) (id : after.devList d = t.devList d) (point : after.point d = t.point d)
    (collected : (t.devList d).fsh = false → after.routine.Collected d → t.routine.Collected d ∨ (t.devList d).done = true)
    (pending : after.routine.pending d = t.routine.pending d)
    (waited : after.routine.WaitsFor d → (t.devList d).done = false ∧ (t.devList d).fsh = false)
    (quiet : event ≠ .called d ∧ event ≠ .returned d ∧ event ≠ .released d ∧ event ≠ .tick) :
    Settled (events ++ [event]) after d := by
  obtain ⟨notCalled, notReturned, notReleased, noTick⟩ := quiet
  have same (other : TimerEvent n) (different : event ≠ other) : (events ++ [event]).count other = events.count other := by
    rw [count_concat, decide_eq_false different]
    rfl
  constructor
  · rw [id, point]
    exact settled.idle
  · rw [id, point]
    exact settled.asleep
  · rw [same _ notCalled, same _ notReturned, point]
    exact settled.inside
  · rw [same _ notCalled, same _ notReleased, id]
    exact settled.answered
  · rw [same _ notReleased, same _ noTick, pending]
    exact settled.released
  · rw [id]
    intro attached reached
    rcases collected attached reached with before | done
    · exact settled.arrived attached before
    · exact done
  · rw [id]
    exact waited

private theorem elsewhere (settled : Settled events t d) {other : Fin n} (distinct : d ≠ other) (id : TimerId)
    (point : DevicePoint) (routine : Routine) (collected : routine.Collected d → t.routine.Collected d)
    (pending : routine.pending d = t.routine.pending d) (waited : routine.WaitsFor d → t.routine.WaitsFor d)
    (quiet : event ≠ .called d ∧ event ≠ .returned d ∧ event ≠ .released d ∧ event ≠ .tick) :
    Settled (events ++ [event]) { t.setDevice other id point with routine } d :=
  settled.frame (Function.update_of_ne distinct ..) (Function.update_of_ne distinct ..) (fun _ reached => .inl (collected reached)) pending
    (fun waits => settled.waited (waited waits)) quiet

/-- A step of the device itself, or the timer's about it. -/
private theorem own {id : TimerId} {point : DevicePoint} {routine : Routine}
    (idle : point = .working → id.done = false) (asleep : point = .asleep → id.done = true)
    (inside : events.count (.called d) + (decide (event = .called d)).toNat =
      events.count (.returned d) + (decide (event = .returned d)).toNat + (decide (point ≠ .working)).toNat)
    (answered : id.fsh = false → events.count (.called d) + (decide (event = .called d)).toNat =
      events.count (.released d) + (decide (event = .released d)).toNat + id.done.toNat)
    (released : events.count (.released d) + (decide (event = .released d)).toNat + (routine.pending d).toNat =
      events.count .tick + (decide (event = .tick)).toNat)
    (arrived : id.fsh = false → routine.Collected d → id.done = true)
    (waited : routine.WaitsFor d → id.done = false ∧ id.fsh = false) :
    Settled (events ++ [event]) { t.setDevice d id point with routine } d := by
  have record : ({ t.setDevice d id point with routine } : Timer n).devList d = id := Function.update_self ..
  have place : ({ t.setDevice d id point with routine } : Timer n).point d = point := Function.update_self ..
  constructor
  · rwa [record, place]
  · rwa [record, place]
  · rwa [place, count_concat, count_concat]
  · rwa [record, count_concat, count_concat]
  · rwa [count_concat, count_concat]
  · rwa [record]
  · rwa [record]

end Settled

theorem Settled.step (settled : Settled events t d) (effect : Effect t event after) : Settled (events ++ [event]) after d := by
  cases effect with
  | rested => exact settled.frame rfl rfl (fun _ reached => .inl reached) rfl settled.waited ⟨nofun, nofun, nofun, nofun⟩
  | onward routine collected pending waited =>
    refine settled.frame rfl rfl ?_ (pending d) (waited d) ⟨nofun, nofun, nofun, nofun⟩
    intro attached reached
    rcases collected d reached with before | done | fsh
    · exact .inl before
    · exact .inr done
    · cases attached.symm.trans fsh
  | ticked fsh counted here =>
    have idle : t.routine.pending d = false := by rw [here]; rfl
    have released := settled.released
    have due : (Routine.release 0 fsh counted).pending d = true := rfl
    have arrived (attached : (t.devList d).fsh = false) : (t.devList d).done = true :=
      settled.arrived attached (by rw [here]; trivial)
    constructor
    · exact settled.idle
    · exact settled.asleep
    · rw [count_concat, count_concat]
      exact settled.inside
    · rw [count_concat, count_concat]
      exact settled.answered
    · rw [idle] at released
      rw [count_concat, count_concat, due, ← released]
      rfl
    · exact fun attached _ => arrived attached
    · exact nofun
  | released other fsh counted here =>
    by_cases same : d = other
    · subst same
      have due : t.routine.pending d = true := by rw [here]; exact decide_eq_true (Nat.le_refl _)
      have told : (Routine.release (d.val + 1) fsh counted).pending d = false := decide_eq_false (Nat.not_succ_le_self _)
      have inside := settled.inside
      have answered := settled.answered
      have released := settled.released
      have arrived (attached : (t.devList d).fsh = false) : (t.devList d).done = true :=
        settled.arrived attached (by rw [here]; exact Nat.le_refl _)
      have awake : (t.point d).signal ≠ .asleep := by cases t.point d <;> exact nofun
      have stays : decide ((t.point d).signal ≠ .working) = decide (t.point d ≠ .working) := by cases t.point d <;> rfl
      refine .own (fun _ => rfl) (fun asleep => absurd asleep awake) ?_ ?_ ?_ ?_ nofun
      · rw [stays]
        exact inside
      · intro attached
        have calls := answered attached
        rw [arrived attached] at calls
        rw [calls, decide_eq_true rfl]
        rfl
      · rw [due] at released
        rw [told, ← released, decide_eq_true rfl]
        rfl
      · exact fun _ reached => absurd reached (Nat.not_succ_le_self _)
    · have distinct : d.val ≠ other.val := fun equal => same (Fin.ext equal)
      refine settled.elsewhere same _ _ _ ?_ ?_ nofun ⟨nofun, nofun, fun equal => same (TimerEvent.released.inj equal).symm, nofun⟩
      · rw [here]
        exact Nat.le_of_succ_le
      · rw [here]
        exact decide_eq_decide.mpr ⟨Nat.le_of_succ_le, fun reached => Nat.lt_of_le_of_ne reached (Ne.symm distinct)⟩
  | called other here =>
    by_cases same : d = other
    · subst same
      have inside := settled.inside
      have idle := settled.idle here
      rw [here] at inside
      refine .own nofun (fun _ => rfl) ?_ ?_ ?_ (fun _ _ => rfl) (fun waits => absurd rfl (Routine.waitsFor_signal waits).2)
      · rw [inside, decide_eq_true rfl]
        rfl
      · intro attached
        have answered := settled.answered attached
        rw [idle] at answered
        rw [answered, decide_eq_true rfl]
        rfl
      · rw [Routine.pending_signal]
        exact settled.released
    · exact settled.elsewhere same _ _ _ Routine.collected_signal.mp Routine.pending_signal (fun waits => (Routine.waitsFor_signal waits).1)
        ⟨fun equal => same (TimerEvent.called.inj equal).symm, nofun, nofun, nofun⟩
  | slept other here done =>
    by_cases same : d = other
    · subst same
      have inside := settled.inside
      rw [here] at inside
      exact .own nofun (fun _ => done) inside settled.answered settled.released settled.arrived settled.waited
    · exact settled.elsewhere same _ _ t.routine id rfl id ⟨nofun, nofun, nofun, nofun⟩
  | woke other here =>
    by_cases same : d = other
    · subst same
      have inside := settled.inside
      rw [here] at inside
      exact .own nofun nofun inside settled.answered settled.released settled.arrived settled.waited
    · exact settled.elsewhere same _ _ t.routine id rfl id ⟨nofun, nofun, nofun, nofun⟩
  | returned other here clear =>
    by_cases same : d = other
    · subst same
      have inside := settled.inside
      rw [here] at inside
      refine .own (fun _ => clear) nofun ?_ settled.answered settled.released settled.arrived settled.waited
      rw [inside, decide_eq_true rfl]
      rfl
    · exact settled.elsewhere same _ _ t.routine id rfl id ⟨nofun, fun equal => same (TimerEvent.returned.inj equal).symm, nofun, nofun⟩
  | detached other here =>
    by_cases same : d = other
    · subst same
      have inside := settled.inside
      rw [here] at inside
      refine .own (fun _ => settled.idle here) nofun inside nofun ?_ nofun (fun waits => absurd rfl (Routine.waitsFor_signal waits).2)
      rw [Routine.pending_signal]
      exact settled.released
    · exact settled.elsewhere same _ _ _ Routine.collected_signal.mp Routine.pending_signal (fun waits => (Routine.waitsFor_signal waits).1)
        ⟨nofun, nofun, nofun, nofun⟩

private theorem settled_start (d : Fin n) : Settled [] (start n) d where
  idle _ := rfl
  asleep asleep := by cases asleep
  inside := rfl
  answered _ := rfl
  released := rfl
  arrived _ collected := by cases collected
  waited waits := by cases waits

theorem settled_of_run (run : Steps Step (start n) events t) (d : Fin n) : Settled events t d := by
  apply run.history (fun events t => Settled events t d) (settled_start d)
  exact fun _ _ _ _ settled taken => settled.step taken.effect

theorem time_of_run (run : Steps Step (start n) events t) : t.time = BitVec.ofNat 64 (events.count .tick) := by
  apply run.history (fun events t => t.time = BitVec.ofNat 64 (events.count .tick)) rfl
  intro events before event after sofar taken
  rw [count_concat, BitVec.ofNat_add, ← sofar]
  cases taken.effect with
  | ticked => rfl
  | _ => exact (BitVec.add_zero _).symm

/-- What a step does to one device. -/
inductive DeviceEffect (t : Timer n) (d : Fin n) : TimerEvent n → TimerId → DevicePoint → Prop where
  | kept (event : TimerEvent n) : DeviceEffect t d event (t.devList d) (t.point d)
  | released : DeviceEffect t d (.released d) { t.devList d with done := false } (t.point d).signal
  | called : DeviceEffect t d (.called d) { t.devList d with done := true } .called
  | slept : t.point d ≠ .working → DeviceEffect t d .silent (t.devList d) .asleep
  | woke : t.point d ≠ .working → DeviceEffect t d .silent (t.devList d) .called
  | returned : DeviceEffect t d (.returned d) (t.devList d) .working
  | detached : DeviceEffect t d (.detached d) { t.devList d with fsh := true } .working

theorem Effect.device (effect : Effect t event after) (d : Fin n) : DeviceEffect t d event (after.devList d) (after.point d) := by
  have updated (other : Fin n) (id : TimerId) (point : DevicePoint) (own : d = other → DeviceEffect t d event id point) :
      DeviceEffect t d event (Function.update t.devList other id d) (Function.update t.point other point d) := by
    by_cases same : d = other
    · rw [same, Function.update_self, Function.update_self]
      exact same ▸ own same
    · rw [Function.update_of_ne same, Function.update_of_ne same]
      exact .kept event
  cases effect with
  | rested => exact .kept _
  | onward => exact .kept _
  | ticked => exact .kept _
  | released other => exact updated other _ _ fun same => same ▸ .released
  | called other => exact updated other _ _ fun same => same ▸ .called
  | slept other here => exact updated other _ _ fun same => same ▸ .slept (by rw [same, here]; intro working; cases working)
  | woke other here => exact updated other _ _ fun same => same ▸ .woke (by rw [same, here]; intro working; cases working)
  | returned other => exact updated other _ _ fun same => same ▸ .returned
  | detached other => exact updated other _ _ fun same => same ▸ .detached

theorem Effect.detached_kept (effect : Effect t event after) (detached : (t.devList d).fsh = true) : (after.devList d).fsh = true := by
  have device := effect.device d
  generalize after.devList d = id, after.point d = point at device ⊢
  cases device with
  | detached => rfl
  | _ => exact detached

theorem Effect.attached_kept (effect : Effect t event after) (attached : (t.devList d).fsh = false) (quiet : event ≠ .detached d) :
    (after.devList d).fsh = false := by
  have device := effect.device d
  generalize after.devList d = id, after.point d = point at device ⊢
  cases device with
  | detached => exact absurd rfl quiet
  | _ => exact attached

theorem Effect.working_kept (effect : Effect t event after) (working : t.point d = .working) (quiet : event ≠ .called d) :
    after.point d = .working := by
  have device := effect.device d
  generalize after.devList d = id, after.point d = point at device ⊢
  cases device with
  | kept => exact working
  | released => rw [working]; rfl
  | called => exact absurd rfl quiet
  | slept inside => exact absurd working inside
  | woke inside => exact absurd working inside
  | returned => rfl
  | detached => rfl

theorem Effect.returned_works (effect : Effect t (.returned d) after) : after.point d = .working := by
  cases effect with
  | returned _ _ _ => exact Function.update_self ..

private theorem attached_before (run : Steps Step t events after) (attached : (after.devList d).fsh = false) :
    (t.devList d).fsh = false := by
  cases detached : (t.devList d).fsh with
  | false => rfl
  | true =>
    have still := run.history (fun _ t => (t.devList d).fsh = true) detached
      fun _ _ _ _ detached taken => taken.effect.detached_kept detached
    cases attached.symm.trans still

/-- The last call of a device that the timer has just waited for came after the last tick. -/
private theorem called_since_tick (run : Steps Step (start n) events t) (attached : (t.devList d).fsh = false)
    (collected : ∃ fsh event, t.routine = .tick fsh event) :
    ∃ before since, events = before ++ .called d :: since ∧ .tick ∉ since := by
  obtain ⟨fsh, event, here⟩ := collected
  have settled := settled_of_run run d
  have done := settled.arrived attached (by rw [here]; trivial)
  have answered := settled.answered attached
  have released := settled.released
  rw [done] at answered
  rw [here] at released
  have ahead : events.count (.called d) = events.count .tick + 1 := by
    rw [answered, ← released]
    rfl
  have some : .called d ∈ events := List.count_pos_iff.mp (by omega)
  obtain ⟨since, before, cut, last⟩ := List.eq_append_cons_of_mem (List.mem_reverse.mpr some)
  have whole : events = before.reverse ++ .called d :: since.reverse := by
    rw [← List.reverse_reverse events, cut]
    simp
  refine ⟨before.reverse, since.reverse, whole, fun member => ?_⟩
  rw [whole] at run ahead
  obtain ⟨start, next, upto, taken, later⟩ := run.step_at
  have earlier := settled_of_run upto d
  have answered := earlier.answered (attached_before (later.cons taken) attached)
  have released := earlier.released
  have idle : start.point d = .working := by
    cases taken.effect with
    | called _ here => exact here
  have once : since.reverse.count (.called d) = 0 := List.count_eq_zero.mpr fun again => last (List.mem_reverse.mp again)
  have tick := List.count_pos_iff.mpr member
  rw [earlier.idle idle] at answered
  have other : (TimerEvent.called d :: since.reverse).count .tick = since.reverse.count .tick :=
    List.count_cons_of_ne fun same => by cases same
  rw [List.count_append, List.count_append, List.count_cons_self, other, once] at ahead
  change _ = _ + 0 at answered
  omega

/-- A device that is due for its release has not returned from the call it made. -/
theorem Settled.due_done (settled : Settled events t d) (attached : (t.devList d).fsh = false)
    (pending : t.routine.pending d = true) : (t.devList d).done = true := by
  apply settled.arrived attached
  cases here : t.routine with
  | release j _ _ =>
    rw [here] at pending
    have reached : j ≤ d.val := of_decide_eq_true pending
    exact reached
  | _ => rw [here] at pending; cases pending

/-- Outside of `next_slot` a device is level with the timer. -/
theorem Settled.level (settled : Settled events t d) (attached : (t.devList d).fsh = false) (working : t.point d = .working) :
    events.count (.returned d) = events.count .tick := by
  have inside := settled.inside
  have answered := settled.answered attached
  have released := settled.released
  have clear := settled.idle working
  have told : t.routine.pending d = false := by
    cases pending : t.routine.pending d with
    | false => rfl
    | true => cases clear.symm.trans (settled.due_done attached pending)
  rw [working] at inside
  rw [clear] at answered
  rw [told] at released
  change _ = _ + 0 at inside answered
  change _ + 0 = _ at released
  omega

/-- The two counts of a device that has not detached. -/
theorem Settled.within (settled : Settled events t d) (attached : (t.devList d).fsh = false) :
    events.count (.returned d) ≤ events.count .tick ∧ events.count .tick ≤ events.count (.returned d) + 1 := by
  have inside := settled.inside
  have answered := settled.answered attached
  have released := settled.released
  have one := Bool.toNat_le (decide (t.point d ≠ .working))
  have due := Bool.toNat_le (t.routine.pending d)
  cases done : (t.devList d).done with
  | true =>
    have called : t.point d ≠ .working := fun working => by cases done.symm.trans (settled.idle working)
    rw [decide_eq_true called] at inside
    rw [done] at answered
    change _ = _ + 1 at inside answered
    omega
  | false =>
    have told : t.routine.pending d = false := by
      cases pending : t.routine.pending d with
      | false => rfl
      | true => cases done.symm.trans (settled.due_done attached pending)
    rw [done] at answered
    rw [told] at released
    change _ + 0 = _ at released
    change _ = _ + 0 at answered
    omega

/-- The timer as a barrier. A device that has not detached has completed as many slots as
`_time` counts, modulo 2^64, or is about to complete one more; the time goes on only when each
such device has called since the last time; its calls are answered by one release
each; and the timer does not wait for a device that waits for it. -/
theorem timer_is_lock_step_barrier (run : Steps Step (start n) events t) :
    t.time = BitVec.ofNat 64 (events.count .tick) ∧
    (∀ d, (t.devList d).fsh = false → events.count (.returned d) ≤ events.count .tick ∧
      events.count .tick ≤ events.count (.returned d) + 1) ∧
    (∀ earlier later before after, events = earlier ++ .tick :: later → Steps Step (start n) earlier before → Step before .tick after →
      ∀ d, (before.devList d).fsh = false → ∃ first since, earlier = first ++ .called d :: since ∧ .tick ∉ since) ∧
    (∀ d, (t.devList d).fsh = false → events.count (.called d) = events.count (.released d) + (t.devList d).done.toNat) ∧
    ∀ d : Fin n, t.routine.WaitsFor d → (t.devList d).done = false ∧ t.point d ≠ .asleep := by
  refine ⟨time_of_run run, ?_, ?_, fun d => (settled_of_run run d).answered, ?_⟩
  · exact fun d attached => (settled_of_run run d).within attached
  · intro earlier later before after _ upto taken d attached
    apply called_since_tick upto attached
    cases taken.effect with
    | ticked fsh event here => exact ⟨fsh, event, here⟩
  · intro d waits
    have settled := settled_of_run run d
    have clear := (settled.waited waits).1
    refine ⟨clear, fun asleep => ?_⟩
    cases clear.symm.trans (settled.asleep asleep)

section Example

private def performAll (t : Timer n) : List (TimerAct n) → List (TimerEvent n) × Timer n
  | [] => ([], t)
  | act :: acts =>
    let (event, t) := t.perform act
    let (events, t) := performAll t acts
    (event :: events, t)

private theorem performAll_steps (t : Timer n) (acts : List (TimerAct n)) : Steps Step t (performAll t acts).1 (performAll t acts).2 := by
  induction acts generalizing t with
  | nil => exact .refl t
  | cons act acts ih => exact (ih _).cons ⟨act, rfl⟩

/-- The only device goes through a slot. -/
private theorem one_slot (time : BitVec 64) : ∃ events, Steps Step { start 1 with time } events { start 1 with time := time + 1 } ∧
    events.count (.returned 0) = 1 := by
  have run := performAll_steps { start 1 with time }
    [.nextSlot 0, .routine, .routine, .routine, .routine, .routine, .resume 0, .routine]
  have only (d : Fin 1) : d = 0 := Subsingleton.elim d 0
  have last : (performAll { start 1 with time }
      [.nextSlot 0, .routine, .routine, .routine, .routine, .routine, .resume 0, .routine]).2 = { start 1 with time := time + 1 } := by
    have records (first second : Timer 1) (id : first.devList 0 = second.devList 0) (point : first.point 0 = second.point 0)
        (rest : first.routine = second.routine ∧ first.time = second.time ∧ first.timerStop = second.timerStop) : first = second := by
      obtain ⟨routine, time, stop⟩ := rest
      cases first
      cases second
      congr
      · exact funext fun d => only d ▸ id
      · exact funext fun d => only d ▸ point
    exact records _ _ rfl rfl ⟨rfl, rfl, rfl⟩
  rw [last] at run
  exact ⟨_, run, rfl⟩

private theorem many_slots (slots : Nat) : ∃ events, Steps Step (start 1) events { start 1 with time := BitVec.ofNat 64 slots } ∧
    events.count (.returned 0) = slots := by
  induction slots with
  | zero => exact ⟨[], .refl _, rfl⟩
  | succ slots ih =>
    obtain ⟨events, run, count⟩ := ih
    obtain ⟨more, next, one⟩ := one_slot (BitVec.ofNat 64 slots)
    refine ⟨events ++ more, ?_, ?_⟩
    · rw [BitVec.ofNat_add]
      exact run.trans next
    · rw [List.count_append, count, one]

/-- After 2^64 slots `_time` is 0 again. -/
theorem time_starts_over : ∃ events t, Steps Step (start 1) events t ∧ (t.devList 0).fsh = false ∧
    events.count (.returned 0) = 2 ^ 64 ∧ ¬events.count (.returned 0) ≤ t.time.toNat := by
  obtain ⟨events, run, count⟩ := many_slots (2 ^ 64)
  refine ⟨events, _, run, rfl, count, ?_⟩
  rw [count]
  decide

theorem timer_is_lock_step_barrier_oneDevice : ∃ events t, Steps Step (start 1) events t ∧ events.count (.returned 0) = 1 ∧
    1 ≤ events.count .tick ∧ events.count .tick ≤ 2 := by
  obtain ⟨events, run, count⟩ := many_slots 1
  obtain ⟨_, slots, _⟩ := timer_is_lock_step_barrier run
  have bounds := slots 0 rfl
  rw [count] at bounds
  exact ⟨events, _, run, count, bounds⟩

end Example
end Timer
end LamiaAtrium
