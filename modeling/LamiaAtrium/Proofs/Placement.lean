import LamiaAtrium.Proofs.Processes
import Mathlib.Data.List.Nodup

/-! Nothing is lost with at most 50 processes: a live process is always somewhere. And after
the last call of `get_proc` nothing moves any more. -/

namespace LamiaAtrium
open Run
variable {cfg : Config} {labels : List (Thread cfg.numCpus × Event)} {s after : State cfg.numCpus} {thread : Thread cfg.numCpus}
  {event : Event} {p : Nat}

namespace Orderly

theorem queued_live (orderly : Orderly cfg labels s) {q : Fin maxPrio} (member : p ∈ (s.sched.mlqReadyQueue q).procs) :
    (s.pcbs p).isLive = true := by
  have here : (s.sched.mlqReadyQueue q).procs.countP (· == p) ≤ s.queued p :=
    Tally.weight_le_total (fun queue : Queue Nat => queue.procs.countP (· == p)) s.sched.mlqReadyQueue q
  have some : 0 < (s.sched.mlqReadyQueue q).procs.countP (· == p) := List.countP_pos_iff.mpr ⟨p, member, beq_self_eq_true p⟩
  have alone := orderly.alone p
  cases live : (s.pcbs p).isLive with
  | true => rfl
  | false =>
    rw [live] at alone
    change _ ≤ 0 at alone
    omega

theorem known_of_live (orderly : Orderly cfg labels s) (live : (s.pcbs p).isLive = true) : p < cfg.processes.length := by
  apply orderly.known
  intro unloaded
  rw [unloaded] at live
  cases live

/-- A process outside the queues finds room in its level. -/
theorem room (orderly : Orderly cfg labels s) (small : cfg.processes.length ≤ maxQueueSize) (live : (s.pcbs p).isLive = true)
    (outside : s.queued p = 0) (q : Fin maxPrio) : (s.sched.mlqReadyQueue q).full = false := by
  have count (other : Nat) : (s.sched.mlqReadyQueue q).procs.count other ≤ s.queued other :=
    Tally.weight_le_total (fun queue : Queue Nat => queue.procs.countP (· == other)) s.sched.mlqReadyQueue q
  have distinct : (p :: (s.sched.mlqReadyQueue q).procs).Nodup := by
    refine List.nodup_cons.mpr ⟨fun member => ?_, List.nodup_iff_count_le_one.mpr fun other => ?_⟩
    · have some := List.count_pos_iff.mpr member
      have none := count p
      omega
    · have alone := orderly.alone other
      have most := Bool.toNat_le (s.pcbs other).isLive
      have here := count other
      omega
  have inside : p :: (s.sched.mlqReadyQueue q).procs ⊆ List.range cfg.processes.length := by
    intro other member
    rw [List.mem_range]
    rcases List.mem_cons.mp member with rfl | queued
    · exact orderly.known_of_live live
    · exact orderly.known_of_live (orderly.queued_live queued)
  have shorter := (List.subperm_of_subset distinct inside).length_le
  rw [List.length_cons, List.length_range] at shorter
  exact decide_eq_false (by rw [Queue.size]; omega)

end Orderly

/-- Every live process is in a level, in a CPU's variable, or on its way from the loader. -/
def Placed (s : State cfg.numCpus) : Prop :=
  ∀ p, (s.pcbs p).isLive = true → 1 ≤ s.queued p + s.held p + s.loading p

private theorem inserted_room {call : Sched.Call Nat} {sched : Sched Nat} {q : Nat} {room : Bool} (orderly : Orderly cfg labels s)
    (small : cfg.processes.length ≤ maxQueueSize) (live : (s.pcbs q).isLive = true) (outside : s.queued q = 0)
    (stepped : Sched.Step cfg.priorities s.sched call sched) (insertion : call = .added q room ∨ call = .putBack q room) (p : Nat) :
    sched.queued (· == p) = s.queued p + (q == p).toNat := by
  have open_ : room = true := by
    have level : ∃ level, room = !(s.sched.mlqReadyQueue level).full := by
      have served := stepped.served
      rcases insertion with rfl | rfl
      · cases served with
        | added inserted _ =>
          obtain ⟨level, _, flag, _⟩ := inserted.level
          exact ⟨level, flag⟩
      · cases served with
        | putBack inserted _ =>
          obtain ⟨level, _, flag, _⟩ := inserted.level
          exact ⟨level, flag⟩
    obtain ⟨level, flag⟩ := level
    rw [flag, orderly.room small live outside level]
    rfl
  have moved := stepped.served.queued (· == p)
  rcases insertion with rfl | rfl <;> rw [open_] at moved <;> exact moved

private theorem Placed.step (placed : Placed s) (orderly : Orderly cfg labels s) (small : cfg.processes.length ≤ maxQueueSize)
    (effect : Effect cfg s thread event after) : Placed after := by
  intro p live
  have before := placed p
  cases effect with
  | rested => exact before live
  | moved id cpu same _ =>
    rw [← State.held_same p same] at before
    exact before live
  | executed id cpu q stat mem same _ =>
    rw [← State.held_same p same] at before
    exact before live
  | took id cpu result sched idle used _ stepped =>
    have queued := State.queued_returned p stepped
    have held : (s.setCpu id cpu).held p = s.held p + (decide (result = some p)).toNat := used ▸ State.held_entered p idle
    have some := before live
    change 1 ≤ sched.queued (· == p) + (s.setCpu id cpu).held p + s.loading p
    omega
  | putBack id cpu q room sched uses idle _ stepped =>
    have held := State.held_left p uses idle
    have here := State.held_pos uses
    obtain ⟨pc, read⟩ := orderly.live_of_uses uses
    have alone := orderly.alone q
    have most := Bool.toNat_le (s.pcbs q).isLive
    have queued := inserted_room orderly small (by rw [read]; rfl) (by omega) stepped (.inr rfl) p
    have some := before live
    change 1 ≤ sched.queued (· == p) + (s.setCpu id cpu).held p + s.loading p
    omega
  | finished id cpu q finish holds idle _ =>
    have uses : (s.cpus id).inUse = some q := by rw [Cpu.inUse, finish]; exact holds
    have held := State.held_left p uses idle
    change (Function.update s.pcbs q .freed p).isLive = true at live
    have distinct : p ≠ q := by
      intro same
      rw [same, Function.update_self] at live
      cases live
    rw [Function.update_of_ne distinct] at live
    rw [beq_eq_false_iff_ne.mpr (Ne.symm distinct)] at held
    change (s.setCpu id cpu).held p + 0 = _ at held
    have some := before live
    change 1 ≤ s.queued p + (s.setCpu id cpu).held p + s.loading p
    omega
  | fetched id cpu q pc ins uses used _ read _ =>
    change (Function.update s.pcbs q (.live (pc + 1)) p).isLive = true at live
    have still : (s.pcbs p).isLive = true := by
      by_cases same : p = q
      · rw [same, read]
        rfl
      · rwa [Function.update_of_ne same] at live
    change 1 ≤ s.queued p + (s.setCpu id cpu).held p + s.loading p
    rw [State.held_same p (used.trans uses.symm)]
    exact before still
  | loaded i here inside =>
    change (Function.update s.pcbs i (.live 0) p).isLive = true at live
    change 1 ≤ s.queued p + s.held p + (decide (Loader.add i = .add p)).toNat
    by_cases same : p = i
    · rw [same, decide_eq_true rfl]
      exact Nat.le_add_left _ _
    · rw [Function.update_of_ne same] at live
      have some := before live
      have elsewhere : s.loading p = 0 := by rw [State.loading, here]; rfl
      omega
  | completed i here =>
    have elsewhere : s.loading p = 0 := by rw [State.loading, here]; rfl
    have some := before live
    change 1 ≤ s.queued p + s.held p + 0
    omega
  | added i room mem sched here stepped =>
    have loading (p : Nat) : s.loading p = (i == p).toNat := by
      rw [State.loading, here]
      by_cases same : i = p
      · simp [same]
      · simp [same, beq_eq_false_iff_ne.mpr same]
    have own : s.loading i = 1 := by rw [loading, beq_self_eq_true]; rfl
    have alone := orderly.alone i
    have most := Bool.toNat_le (s.pcbs i).isLive
    have added : (s.pcbs i).isLive = true := by
      cases loaded : (s.pcbs i).isLive with
      | true => rfl
      | false => rw [loaded] at alone; change _ ≤ 0 at alone; omega
    have queued := inserted_room orderly small added (by omega) stepped (.inl rfl) p
    have some := before live
    rw [loading] at some
    change 1 ≤ sched.queued (· == p) + s.held p + 0
    omega

theorem placed_of_run (small : cfg.processes.length ≤ maxQueueSize) (run : Steps (SystemStep cfg) (boot cfg) labels s) : Placed s := by
  have both : Orderly cfg labels s ∧ Placed s := by
    refine run.history (fun labels s => Orderly cfg labels s ∧ Placed s) ⟨.of_run (.refl _), fun p live => by cases live⟩ ?_
    intro labels before label after earlier taken
    obtain ⟨orderly, placed⟩ := earlier
    have effect := SystemStep.effect taken
    exact ⟨orderly.step effect, placed.step orderly small effect⟩
  exact both.2

def Loader.Past : Loader → Nat → Prop
  | .load i, p => p < i
  | .add i, p => p ≤ i
  | .finished, _ => True

/-- Who has set `done`, who has seen it, and which processes are there by then. -/
structure Loading (s : State cfg.numCpus) : Prop where
  done : s.done = true ↔ s.loader = .finished
  stopped : ∀ id, (s.cpus id).point = .stopped → s.done = true ∧ (s.cpus id).proc = none
  past : ∀ p < cfg.processes.length, s.loader.Past p → s.pcbs p ≠ .unloaded

private theorem Loading.step (loading : Loading s) {label : Thread cfg.numCpus × Event} (taken : SystemStep cfg s label after) :
    Loading after := by
  have loaded (p : Nat) (there : s.pcbs p ≠ .unloaded) : after.pcbs p ≠ .unloaded := by
    have changed := (SystemStep.effect taken).pcb p
    obtain ⟨thread, event⟩ := label
    generalize after.pcbs p = pcb at changed
    cases changed with
    | kept => exact there
    | _ => exact nofun
  obtain ⟨thread, event⟩ := label
  cases thread with
  | cpu id =>
    have move := cpuStep_move taken
    refine ⟨by rw [move.done, move.loader]; exact loading.done, fun other stopped => ?_, fun p inside past => ?_⟩
    · rw [move.done]
      by_cases own : other = id
      · rw [own] at stopped ⊢
        rcases move.stops stopped with same | done
        · rw [same] at stopped ⊢
          exact loading.stopped id stopped
        · exact done
      · rw [move.elsewhere own] at stopped ⊢
        exact loading.stopped other stopped
    · rw [move.loader] at past
      exact loaded p (loading.past p inside past)
  | loader =>
    unfold SystemStep threadStep loaderStep at taken
    dsimp only at taken
    split at taken
    · next i here =>
      split at taken
      · next inside =>
        cases taken
        have open_ : s.done ≠ true := fun done => by cases here.symm.trans (loading.done.mp done)
        refine ⟨iff_of_false open_ nofun, loading.stopped, fun p known past => ?_⟩
        rcases Nat.lt_or_eq_of_le past with before | rfl
        · exact loaded p (loading.past p known (by rw [here]; exact before))
        · change Function.update s.pcbs p (.live 0) p ≠ .unloaded
          rw [Function.update_self]
          exact nofun
      · next outside =>
        cases taken
        refine ⟨iff_of_true rfl rfl, fun id stopped => ⟨rfl, (loading.stopped id stopped).2⟩, fun p known _ => ?_⟩
        exact loading.past p known (by rw [here]; exact known.trans_le (Nat.not_lt.mp outside))
    · next i here =>
      obtain ⟨⟨call, sched⟩, served, taken⟩ := Outcome.bind_eq_ok taken
      cases taken
      have open_ : s.done ≠ true := fun done => by cases here.symm.trans (loading.done.mp done)
      refine ⟨iff_of_false open_ nofun, loading.stopped, fun p known past => ?_⟩
      exact loading.past p known (by rw [here]; exact Nat.le_of_lt_succ past)
    · next here =>
      cases taken
      exact loading

theorem loading_of_run (run : Steps (SystemStep cfg) (boot cfg) labels s) : Loading s := by
  refine run.history (fun _ s => Loading s) ⟨iff_of_false nofun nofun, (fun _ stopped => by cases stopped), fun p _ past => ?_⟩ ?_
  · exact absurd past (Nat.not_lt_zero p)
  · exact fun _ _ _ _ loading taken => loading.step taken

/-- A CPU on its way to the break, with nothing left to do but to see `done`. -/
def Cpu.Leaving (cpu : Cpu) : Prop := cpu.proc = none ∧ (cpu.point = .recheck ∨ cpu.point = .stopped)

def Event.isGet : Event → Bool
  | .call (.returned _) => true
  | _ => false

def Event.isAdd : Event → Bool
  | .call (.added _ _) => true
  | _ => false

/-- Only `get_proc` sends a CPU on its way, and then nothing but the CPU itself changes. -/
theorem Move.leaving {id : Fin cfg.numCpus} (move : Move cfg s id event after) (quiet : event.isGet = false)
    (leaving : (after.cpus id).Leaving) : (s.cpus id).Leaving ∧ after.sched = s.sched ∧ after.pcbs = s.pcbs := by
  cases move with
  | vacant here none => exact ⟨⟨none, .inl here⟩, rfl, rfl⟩
  | stopped here => exact ⟨leaving, rfl, rfl⟩
  | loaded => cases quiet
  | refilled => cases quiet
  | switched => cases quiet
  | checked p pc here busy _ =>
    rw [State.setCpu_same] at leaving
    cases busy.symm.trans leaving.1
  | _ =>
    rw [State.setCpu_same] at leaving
    rcases leaving.2 with recheck | stopped
    · cases recheck
    · cases stopped

/-- What the last call of `get_proc` leaves is there at the end. -/
theorem still_after_last_get {earlier later : List (Thread cfg.numCpus × Event)} {middle last : State cfg.numCpus}
    (reached : Steps (SystemStep cfg) (boot cfg) earlier middle) (run : Steps (SystemStep cfg) middle later last)
    (quiet : ∀ label ∈ later, label.2.isGet = false) (leaving : ∀ id, (last.cpus id).Leaving) :
    (∀ id, (middle.cpus id).Leaving) ∧ ((∀ label ∈ later, label.2.isAdd = false) → last.sched = middle.sched) ∧
      ∀ p pc, middle.pcbs p = .live pc → last.pcbs p = .live pc := by
  induction run with
  | refl => exact ⟨leaving, fun _ => rfl, fun _ _ live => live⟩
  | @tail before after labels label upto taken ih =>
    obtain ⟨thread, event⟩ := label
    have calm := quiet (thread, event) (List.mem_append_right _ (List.mem_singleton_self _))
    have orderly := Orderly.of_run (reached.trans upto)
    have step : (∀ id, (before.cpus id).Leaving) ∧ (event.isAdd = false → after.sched = before.sched) ∧
        ∀ p pc, before.pcbs p = .live pc → after.pcbs p = .live pc := by
      cases thread with
      | cpu id =>
        have move := cpuStep_move taken
        obtain ⟨own, sched, pcbs⟩ := move.leaving calm (leaving id)
        refine ⟨fun other => ?_, fun _ => sched, fun p pc live => by rw [pcbs]; exact live⟩
        by_cases same : other = id
        · rw [same]
          exact own
        · rw [← move.elsewhere same]
          exact leaving other
      | loader =>
        cases SystemStep.effect taken with
        | rested => exact ⟨leaving, fun _ => rfl, fun _ _ live => live⟩
        | completed => exact ⟨leaving, fun _ => rfl, fun _ _ live => live⟩
        | added => exact ⟨leaving, nofun, fun _ _ live => live⟩
        | loaded i here inside =>
          refine ⟨leaving, fun _ => rfl, fun p pc live => ?_⟩
          have fresh := orderly.ahead i (by rw [here]; exact Nat.le_refl i)
          have distinct : p ≠ i := fun same => by cases (same ▸ live).symm.trans fresh
          exact (Function.update_of_ne distinct ..).trans live
    obtain ⟨first, sched, pcbs⟩ := ih (fun label member => quiet label (List.mem_append_left _ member)) step.1
    refine ⟨first, fun silent => ?_, fun p pc live => step.2.2 p pc (pcbs p pc live)⟩
    rw [step.2.1 (silent (thread, event) (List.mem_append_right _ (List.mem_singleton_self _)))]
    exact sched fun label member => silent label (List.mem_append_left _ member)

end LamiaAtrium
