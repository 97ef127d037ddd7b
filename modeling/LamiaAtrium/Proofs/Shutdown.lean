import LamiaAtrium.Proofs.Processes
import LamiaAtrium.Proofs.Rotation

/-! How the CPUs leave `cpu_routine` once the loader is done. Every step is paid from a
finite cost, except for the idle path that does not test `done`. -/

namespace LamiaAtrium
open Run

/-- At the head of the loop, or out of it. -/
def Cpu.atRest (cpu : Cpu) : Bool := cpu.point == .head || cpu.point == .stopped

section Iterations
variable (cfg : Config)

/-- CPU `id` goes on until it is at the head of its loop again or out of it, for at most
`fuel` steps. -/
def goOn (id : Fin cfg.numCpus) : Nat → State cfg.numCpus → Outcome (State cfg.numCpus)
  | 0, s => .ok s
  | fuel + 1, s => do
    let (_, s) ← cpuStep cfg s id
    if (s.cpus id).atRest then return s
    goOn id fuel s

/-- One iteration of the loop of `cpu_routine`, or the rest of the one that is going on. -/
def iteration (s : State cfg.numCpus) (id : Fin cfg.numCpus) : Outcome (State cfg.numCpus) := goOn cfg id 7 s

structure Iteration (numCpus : Nat) where
  id : Fin numCpus
  before : State numCpus
  after : State numCpus

/-- The iterations of the CPUs in the given order. -/
def iterations : List (Fin cfg.numCpus) → State cfg.numCpus → Outcome (List (Iteration cfg.numCpus) × State cfg.numCpus)
  | [], s => .ok ([], s)
  | id :: rest, s => do
    let after ← iteration cfg s id
    let (others, last) ← iterations rest after
    return ({ id, before := s, after } :: others, last)

end Iterations

/-- The CPU is at the head of its loop without a process, or about to load one, and there
is none. -/
def Iteration.Idle {n : Nat} (it : Iteration n) : Prop :=
  ((it.before.cpus it.id).point = .head ∧ (it.before.cpus it.id).proc = none ∨ (it.before.cpus it.id).point = .load) ∧
    ∀ q, (it.before.sched.mlqReadyQueue q).empty = true

def Point.fuel : Point → Nat
  | .head => 7
  | .finish | .putBack => 6
  | .load | .refill | .switch => 5
  | .recheck => 4
  | .run => 3
  | .execute _ => 2
  | .slot | .skip | .stopped => 1

theorem Point.fuel_bounds (point : Point) : 0 < point.fuel ∧ point.fuel ≤ 7 := by
  cases point <;> simp [fuel]

section Fuel
variable {cfg : Config} {s after : State cfg.numCpus} {id : Fin cfg.numCpus} {event : Event}

theorem Move.onward (move : Move cfg s id event after) :
    (after.cpus id).atRest = true ∨ (after.cpus id).point.fuel < (s.cpus id).point.fuel := by
  cases move with
  | checked p pc head _ _ =>
    rw [State.setCpu_same, head]
    refine .inr ?_
    dsimp only
    split
    · simp [Point.fuel]
    · split <;> simp [Point.fuel]
  | loaded result sched load _ =>
    rw [State.setCpu_same, load]
    cases result <;> simp [Point.fuel]
  | vacant recheck _ =>
    rw [State.setCpu_same, recheck]
    cases s.done
    · simp [Point.fuel]
    · exact .inl rfl
  | nextSlot _ => rw [State.setCpu_same]; exact .inl rfl
  | skipped _ => rw [State.setCpu_same]; exact .inl rfl
  | stopped stopped => rw [Cpu.atRest, stopped]; exact .inl rfl
  | idle here _ => rw [State.setCpu_same, here]; simp [Point.fuel]
  | freed _ _ here => rw [State.setCpu_same, here]; simp [Point.fuel]
  | refilled _ _ here => rw [State.setCpu_same, here]; simp [Point.fuel]
  | putBack _ _ _ here => rw [State.setCpu_same, here]; simp [Point.fuel]
  | switched _ _ here => rw [State.setCpu_same, here]; simp [Point.fuel]
  | dispatched _ _ here => rw [State.setCpu_same, here]; simp [Point.fuel]
  | exhausted _ _ here => rw [State.setCpu_same, here]; simp [Point.fuel]
  | fetched _ _ _ here => rw [State.setCpu_same, here]; simp [Point.fuel]
  | executed _ _ _ _ here => rw [State.setCpu_same, here]; simp [Point.fuel]

private theorem goOn_atRest {fuel : Nat} (enough : (s.cpus id).point.fuel ≤ fuel) (returned : goOn cfg id fuel s = .ok after) :
    (after.cpus id).atRest = true := by
  induction fuel generalizing s with
  | zero => exact absurd enough (Nat.not_le.mpr (s.cpus id).point.fuel_bounds.1)
  | succ fuel ih =>
    obtain ⟨⟨event, next⟩, taken, returned⟩ := Outcome.bind_eq_ok returned
    dsimp only at returned
    split at returned
    · next rest => cases returned; exact rest
    · next going =>
      rcases (cpuStep_move taken).onward with rest | closer
      · exact absurd rest going
      · exact ih (by omega) returned

/-- Seven steps are enough for an iteration from any point of the loop. -/
theorem iteration_atRest (returned : iteration cfg s id = .ok after) : (after.cpus id).atRest = true :=
  goOn_atRest (s.cpus id).point.fuel_bounds.2 returned

end Fuel

/-- The instructions not yet fetched, and the `free` after the last. -/
def Pcb.left (size : Nat) : Pcb → Nat
  | .live pc => size - pc + 1
  | _ => 0

/-- What a CPU may spend before it fetches or frees, with `ending` when it has nothing left to
fetch. Putting back pays for the entry in the queue. -/
def Point.rank (ending : Bool) : Point → Nat
  | .head => if ending then 1 else 15
  | .load | .finish | .stopped => 0
  | .refill | .switch => 5
  | .putBack => 14
  | .recheck => if ending then 4 else 1
  | .run => if ending then 3 else 0
  | .execute _ => if ending then 3 else 17
  | .slot | .skip => if ending then 2 else 16

namespace State
variable (cfg : Config) {n : Nat} (s : State n)

def ending (cpu : Cpu) : Bool :=
  match cpu.proc with
  | none => true
  | some p => s.pcbs p == .live (cfg.text p).length

def rankOf (id : Fin n) : Nat := (s.cpus id).point.rank (s.ending cfg (s.cpus id))

def work : Nat := Tally.total (fun left => left) fun p : Fin cfg.processes.length => (s.pcbs p).left (cfg.text p).length

def ready : Nat := s.sched.queued fun _ => true

/-- A call of `get_proc` that overlooks a process at least gives the quota back. -/
def quota : Nat := if s.sched.usedSlot = 0 then 0 else 3

def ranks : Nat := Tally.total (fun rank => rank) (s.rankOf cfg)

def cost : Nat := 18 * s.work cfg + 8 * s.ready + s.quota + s.ranks cfg

end State

section Cost
variable {cfg : Config} {s after : State cfg.numCpus} {id : Fin cfg.numCpus} {event : Event} {cpu : Cpu}
  {labels : List (Thread cfg.numCpus × Event)}

theorem Point.rank_le (point : Point) (ending : Bool) : point.rank ending ≤ 17 := by
  cases point <;> cases ending <;> simp [rank]

theorem recheck_rank (ending : Bool) : Point.recheck.rank ending ≤ 4 := by
  cases ending <;> decide

private theorem ranks_moved (others : ∀ other, other ≠ id → after.rankOf cfg other = s.rankOf cfg other) :
    after.ranks cfg + s.rankOf cfg id = s.ranks cfg + after.rankOf cfg id := by
  have family : after.rankOf cfg = Function.update (s.rankOf cfg) id (after.rankOf cfg id) := by
    funext other
    by_cases same : other = id
    · rw [same, Function.update_self]
    · rw [Function.update_of_ne same, others other same]
  have whole : after.ranks cfg = Tally.total (fun rank => rank) (Function.update (s.rankOf cfg) id (after.rankOf cfg id)) :=
    congrArg _ family
  rw [whole]
  exact Tally.total_update (fun rank => rank) (s.rankOf cfg) id _

/-- The other CPUs' ranks do not change when the processes stay as they are. -/
private theorem rank_kept (pcbs : after.pcbs = s.pcbs) (cpus : after.cpus = Function.update s.cpus id cpu) (other : Fin cfg.numCpus)
    (distinct : other ≠ id) : after.rankOf cfg other = s.rankOf cfg other := by
  rw [State.rankOf, State.rankOf, State.ending, State.ending, cpus, Function.update_of_ne distinct, pcbs]

private theorem ranks_setCpu (pcbs : after.pcbs = s.pcbs) (cpus : after.cpus = Function.update s.cpus id cpu) :
    after.ranks cfg + s.rankOf cfg id = s.ranks cfg + cpu.point.rank (s.ending cfg cpu) := by
  have moved := ranks_moved (rank_kept pcbs cpus)
  have own : after.rankOf cfg id = cpu.point.rank (s.ending cfg cpu) := by
    rw [State.rankOf, State.ending, State.ending, cpus, Function.update_self, pcbs]
  rwa [own] at moved

private theorem work_kept (pcbs : after.pcbs = s.pcbs) : after.work cfg = s.work cfg := by
  rw [State.work, pcbs]
  rfl

/-- A move that leaves the processes and the queues alone. -/
private theorem spends_rank (mem : Krnl Nat) (less : cpu.point.rank (s.ending cfg cpu) < s.rankOf cfg id) :
    ({ s with mem }.setCpu id cpu).cost cfg < s.cost cfg := by
  have moved : ({ s with mem }.setCpu id cpu).ranks cfg + s.rankOf cfg id = s.ranks cfg + cpu.point.rank (s.ending cfg cpu) :=
    ranks_setCpu rfl rfl
  have work : ({ s with mem }.setCpu id cpu).work cfg = s.work cfg := work_kept rfl
  rw [State.cost, State.cost, work]
  change 18 * _ + 8 * s.ready + s.quota + _ < _
  omega

private theorem spends_onward (mem : Krnl Nat) (same : cpu.proc = (s.cpus id).proc)
    (less : ∀ ending, cpu.point.rank ending < (s.cpus id).point.rank ending) :
    ({ s with mem }.setCpu id cpu).cost cfg < s.cost cfg := by
  apply spends_rank mem
  have ending : s.ending cfg cpu = s.ending cfg (s.cpus id) := by rw [State.ending, State.ending, same]
  rw [State.rankOf, ending]
  exact less _

variable {sched : Sched Nat} {result : Option Nat} {served : Fin maxPrio → Nat}

private theorem getProc_ready (returned : Sched.getMlqProc cfg.priorities s.sched = (result, sched)) :
    sched.queued (fun _ => true) + result.isSome.toNat = s.ready := by
  have balance := (getProc_step returned).served.queued fun _ => true
  cases result <;> exact balance

private theorem getProc_quota (returned : Sched.getMlqProc cfg.priorities s.sched = (none, sched)) : sched.usedSlot = 0 := by
  unfold Sched.getMlqProc at returned
  split at returned <;> cases returned
  rfl

/-- What a call of `get_proc` may cost besides the CPU's rank: it pays eight for a process, and
three when it overlooks one. -/
private theorem getProc_spends (returned : Sched.getMlqProc cfg.priorities s.sched = (result, sched))
    (less : match result with
      | some _ => cpu.point.rank (s.ending cfg cpu) + 3 < s.rankOf cfg id + 8
      | none => cpu.point.rank (s.ending cfg cpu) < s.rankOf cfg id + s.quota) :
    ({ s with sched }.setCpu id cpu).cost cfg < s.cost cfg := by
  have moved : ({ s with sched }.setCpu id cpu).ranks cfg + s.rankOf cfg id = s.ranks cfg + cpu.point.rank (s.ending cfg cpu) :=
    ranks_setCpu rfl rfl
  have ready := getProc_ready returned
  have work : ({ s with sched }.setCpu id cpu).work cfg = s.work cfg := work_kept rfl
  have entries : ({ s with sched }.setCpu id cpu).ready = sched.queued fun _ => true := rfl
  have quota : ({ s with sched }.setCpu id cpu).quota = if sched.usedSlot = 0 then 0 else 3 := rfl
  rw [State.cost, State.cost, work, entries, quota]
  cases result with
  | some p =>
    have one : (some p).isSome.toNat = 1 := rfl
    rw [one] at ready
    dsimp only at less
    split <;> omega
  | none =>
    have zero : (none : Option Nat).isSome.toNat = 0 := rfl
    rw [zero] at ready
    rw [if_pos (getProc_quota returned)]
    dsimp only at less
    omega

/-- An entry put back into the queue costs eight at most. -/
private theorem putBack_spends {p : Nat} {room : Bool} (stepped : Sched.Step cfg.priorities s.sched (.putBack p room) sched)
    (less : cpu.point.rank (s.ending cfg cpu) + 8 < s.rankOf cfg id) : ({ s with sched }.setCpu id cpu).cost cfg < s.cost cfg := by
  have moved : ({ s with sched }.setCpu id cpu).ranks cfg + s.rankOf cfg id = s.ranks cfg + cpu.point.rank (s.ending cfg cpu) :=
    ranks_setCpu rfl rfl
  have ready : sched.queued (fun _ => true) + 0 = s.ready + (room && true).toNat := stepped.served.queued fun _ => true
  have one := Bool.toNat_le (room && true)
  have work : ({ s with sched }.setCpu id cpu).work cfg = s.work cfg := work_kept rfl
  have quota : ({ s with sched }.setCpu id cpu).quota = s.quota := by
    rw [State.quota, State.quota]
    change (if sched.usedSlot = 0 then 0 else 3) = _
    rw [(Sched.cursor_of_inserted stepped nofun).2]
  rw [State.cost, State.cost, work, quota]
  change 18 * _ + 8 * sched.queued (fun _ => true) + _ + _ < _
  omega

/-- A process that is ready can be overlooked only when its quota is used up. -/
private theorem overlooked_quota (steady : Sched.Steady s.sched served)
    (returned : Sched.getMlqProc cfg.priorities s.sched = (none, sched)) (some : ∃ q, (s.sched.mlqReadyQueue q).empty = false) :
    s.quota = 3 := by
  obtain ⟨q, occupied⟩ := some
  obtain ⟨_, used, _⟩ := steady.overlooked (congrArg Prod.fst returned) occupied
  have positive := steady.positive s.sched.curPrio
  exact if_neg (by omega)

/-- The other CPUs' ranks do not look at the process of this one. -/
private theorem rank_apart (orderly : Orderly cfg labels s) {p : Nat} {pcb : Pcb} (uses : (s.cpus id).inUse = some p)
    (pcbs : after.pcbs = Function.update s.pcbs p pcb) (cpus : after.cpus = Function.update s.cpus id cpu)
    (other : Fin cfg.numCpus) (distinct : other ≠ id) : after.rankOf cfg other = s.rankOf cfg other := by
  have apart : (s.cpus other).inUse ≠ some p := fun same => distinct (orderly.uses_unique same uses)
  have ending : (s.cpus other).proc ≠ some p → after.ending cfg (s.cpus other) = s.ending cfg (s.cpus other) := by
    intro elsewhere
    unfold State.ending
    cases held : (s.cpus other).proc with
    | none => rfl
    | some q =>
      have distinct : q ≠ p := fun same => elsewhere (by rw [held, same])
      dsimp only
      rw [pcbs, Function.update_of_ne distinct]
  rw [State.rankOf, State.rankOf, cpus, Function.update_of_ne distinct]
  unfold Cpu.inUse at apart
  cases point : (s.cpus other).point <;> rw [point] at apart
  all_goals first
    | rfl
    | rw [ending apart]

private theorem work_setPcb {p : Nat} (inside : p < cfg.processes.length) {pcb : Pcb} (pcbs : after.pcbs = Function.update s.pcbs p pcb) :
    after.work cfg + (s.pcbs p).left (cfg.text p).length = s.work cfg + pcb.left (cfg.text p).length := by
  have family : (fun q : Fin cfg.processes.length => (after.pcbs q).left (cfg.text q).length) =
      Function.update (fun q : Fin cfg.processes.length => (s.pcbs q).left (cfg.text q).length) ⟨p, inside⟩
        (pcb.left (cfg.text p).length) := by
    funext q
    rw [pcbs]
    by_cases same : q = ⟨p, inside⟩
    · rw [same, Function.update_self, Function.update_self]
    · rw [Function.update_of_ne same, Function.update_of_ne fun equal => same (Fin.ext equal)]
  have whole : after.work cfg = Tally.total (fun left => left) (Function.update
      (fun q : Fin cfg.processes.length => (s.pcbs q).left (cfg.text q).length) ⟨p, inside⟩ (pcb.left (cfg.text p).length)) :=
    congrArg _ family
  rw [whole]
  exact Tally.total_update (fun left => left) _ _ _

/-- A fetch or a free pays for whatever the CPU does up to the next one. -/
private theorem spends_work (orderly : Orderly cfg labels s) {p : Nat} {pcb : Pcb} (uses : (s.cpus id).inUse = some p)
    (inside : p < cfg.processes.length) (less : pcb.left (cfg.text p).length < (s.pcbs p).left (cfg.text p).length) :
    ((s.setPcb p pcb).setCpu id cpu).cost cfg < s.cost cfg := by
  have apart (other : Fin cfg.numCpus) (distinct : other ≠ id) :
      ((s.setPcb p pcb).setCpu id cpu).rankOf cfg other = s.rankOf cfg other := rank_apart orderly uses rfl rfl other distinct
  have ranks := ranks_moved apart
  have work : ((s.setPcb p pcb).setCpu id cpu).work cfg + (s.pcbs p).left (cfg.text p).length =
      s.work cfg + pcb.left (cfg.text p).length := work_setPcb inside rfl
  have most : ((s.setPcb p pcb).setCpu id cpu).rankOf cfg id ≤ 17 := Point.rank_le _ _
  rw [State.cost, State.cost]
  change 18 * _ + 8 * s.ready + s.quota + _ < _
  omega

private theorem dispatch_spends {rank : Nat} (ending : Bool) : Point.recheck.rank ending + 3 < rank + 8 := by
  have most := recheck_rank ending
  omega

private theorem dismissal_spends {rank quota : Nat} {ending : Bool} (five : rank = 5) : Point.recheck.rank ending < rank + quota := by
  have most := recheck_rank ending
  omega

/-- Once the loader is done, every step of a CPU that is still in its loop is paid for, unless
the CPU loads a process where there is none. -/
theorem Move.spends (orderly : Orderly cfg labels s) (steady : Sched.Steady s.sched served) (done : s.done = true)
    (within : ∀ p pc, s.pcbs p = .live pc → pc ≤ (cfg.text p).length) (move : Move cfg s id event after)
    (going : (s.cpus id).point ≠ .stopped)
    (fed : (s.cpus id).point = .load → ∃ q, (s.sched.mlqReadyQueue q).empty = false) : after.cost cfg < s.cost cfg := by
  cases move with
  | idle here none =>
    apply spends_rank s.mem
    simp [State.rankOf, here, State.ending, none, Point.rank]
  | checked p pc here busy read =>
    apply spends_rank s.mem
    by_cases ended : pc = (cfg.text p).length
    · simp [State.rankOf, here, State.ending, busy, read, ended, Point.rank]
    · by_cases used : (s.cpus id).timeLeft = 0 <;> simp [State.rankOf, here, State.ending, busy, read, ended, used, Point.rank]
  | loaded result sched here returned =>
    apply getProc_spends returned
    cases result with
    | none =>
      dsimp only
      rw [overlooked_quota steady returned (fed here)]
      exact Nat.lt_of_lt_of_le (Nat.lt_succ_self 2) (Nat.le_add_left _ _)
    | some p => exact dispatch_spends _
  | freed p pc here held read =>
    apply spends_work orderly (by rw [Cpu.inUse, here]; exact held) (orderly.known p (by rw [read]; intro same; cases same))
    rw [read]
    exact Nat.succ_pos _
  | refilled result sched here returned =>
    have rank : s.rankOf cfg id = 5 := by rw [State.rankOf, here]; rfl
    apply getProc_spends returned
    cases result with
    | none => exact dismissal_spends rank
    | some p => exact dispatch_spends _
  | putBack p room sched here held stepped =>
    apply putBack_spends stepped
    rw [State.rankOf, here]
    exact Nat.lt_succ_self 13
  | switched result sched here returned =>
    have rank : s.rankOf cfg id = 5 := by rw [State.rankOf, here]; rfl
    apply getProc_spends returned
    cases result with
    | none => exact dismissal_spends rank
    | some p => exact dispatch_spends _
  | vacant here none =>
    apply spends_rank s.mem
    simp [State.rankOf, here, State.ending, none, done, Point.rank]
  | dispatched p timeLeft here busy =>
    refine spends_onward s.mem ?_ ?_
    · rfl
    · rw [here]
      exact fun ending => by cases ending <;> simp [Point.rank]
  | exhausted p pc here held read ended =>
    have atEnd : pc = (cfg.text p).length := Nat.le_antisymm (within p pc read) (List.getElem?_eq_none_iff.mp ended)
    apply spends_rank s.mem
    simp [State.rankOf, here, State.ending, held, read, atEnd, Point.rank]
  | fetched p pc ins here held read text =>
    have inside := (List.getElem?_eq_some_iff.mp text).1
    apply spends_work orderly (by rw [Cpu.inUse, here]; exact held) (orderly.known p (by rw [read]; intro same; cases same))
    rw [read]
    change (cfg.text p).length - (pc + 1) + 1 < (cfg.text p).length - pc + 1
    omega
  | executed p ins stat mem here =>
    refine spends_onward mem ?_ ?_
    · rfl
    · rw [here]
      exact fun ending => by cases ending <;> simp [Point.rank]
  | nextSlot here =>
    refine spends_onward s.mem ?_ ?_
    · rfl
    · rw [here]
      exact fun ending => by cases ending <;> simp [Point.rank]
  | skipped here =>
    refine spends_onward s.mem ?_ ?_
    · rfl
    · rw [here]
      exact fun ending => by cases ending <;> simp [Point.rank]
  | stopped here => exact absurd here going

end Cost

/-- A reachable state in which the loader is done. -/
structure Closing (cfg : Config) (s : State cfg.numCpus) : Prop where
  reached : ∃ labels, Steps (SystemStep cfg) (boot cfg) labels s
  done : s.done = true

section Slots
variable {cfg : Config} {s after last : State cfg.numCpus} {id other : Fin cfg.numCpus} {event : Event}

theorem Closing.step (closing : Closing cfg s) (taken : cpuStep cfg s id = .ok (event, after)) : Closing cfg after := by
  obtain ⟨labels, run⟩ := closing.reached
  have stepped : SystemStep cfg s (.cpu id, event) after := taken
  exact ⟨⟨_, run.tail stepped⟩, (cpuStep_move taken).done.trans closing.done⟩

theorem Closing.steady (closing : Closing cfg s) : ∃ served, Sched.Steady s.sched served := by
  obtain ⟨labels, run⟩ := closing.reached
  exact Sched.steady_of_run (scheduler_run run)

theorem Closing.spends (closing : Closing cfg s) (taken : cpuStep cfg s id = .ok (event, after)) (going : (s.cpus id).point ≠ .stopped)
    (fed : (s.cpus id).point = .load → ∃ q, (s.sched.mlqReadyQueue q).empty = false) : after.cost cfg < s.cost cfg := by
  obtain ⟨labels, run⟩ := closing.reached
  obtain ⟨served, steady⟩ := closing.steady
  exact (cpuStep_move taken).spends (Orderly.of_run run) steady closing.done (pc_le run) going fed

/-- A CPU that is going to load a process finds one in the queues. -/
def Fed (s : State cfg.numCpus) (id : Fin cfg.numCpus) : Prop :=
  ((s.cpus id).point = .head ∧ (s.cpus id).proc = none ∨ (s.cpus id).point = .load) → ∃ q, (s.sched.mlqReadyQueue q).empty = false

theorem Move.fed (move : Move cfg s id event after) (fed : Fed s id) (going : (after.cpus id).atRest = false) : Fed after id := by
  intro loads
  have load : (after.cpus id).point = .load := by
    rcases loads with ⟨head, _⟩ | load
    · rw [Cpu.atRest, head] at going
      cases going
    · exact load
  cases move with
  | idle head none => exact fed (.inl ⟨head, none⟩)
  | stopped here => cases here.symm.trans load
  | checked =>
    rw [State.setCpu_same] at load
    dsimp only at load
    split at load
    · cases load
    · split at load <;> cases load
  | loaded result =>
    rw [State.setCpu_same] at load
    cases result <;> cases load
  | vacant =>
    rw [State.setCpu_same] at load
    cases loaded : s.done <;> rw [loaded] at load <;> cases load
  | _ =>
    rw [State.setCpu_same] at load
    cases load

private theorem goOn_spends {fuel : Nat} (closing : Closing cfg s) (fed : Fed s id) (returned : goOn cfg id fuel s = .ok after)
    (going : (s.cpus id).point ≠ .stopped) :
    Closing cfg after ∧ (∀ other, other ≠ id → after.cpus other = s.cpus other) ∧ after.cost cfg + min fuel 1 ≤ s.cost cfg := by
  induction fuel generalizing s with
  | zero =>
    cases returned
    exact ⟨closing, fun _ _ => rfl, Nat.le_refl _⟩
  | succ fuel ih =>
    obtain ⟨⟨event, next⟩, taken, returned⟩ := Outcome.bind_eq_ok returned
    have less := closing.spends taken going fun load => fed (.inr load)
    have move := cpuStep_move taken
    dsimp only at returned
    split at returned
    · cases returned
      exact ⟨closing.step taken, fun _ distinct => move.elsewhere distinct, by omega⟩
    · next onward =>
      have onward := Bool.not_eq_true _ ▸ onward
      have moving : (next.cpus id).point ≠ .stopped := by
        intro stopped
        rw [Cpu.atRest, stopped] at onward
        cases onward
      obtain ⟨later, frame, spent⟩ := ih (closing.step taken) (move.fed fed onward) returned moving
      exact ⟨later, fun other distinct => (frame other distinct).trans (move.elsewhere distinct), by omega⟩

private theorem cpuStep_stopped (here : (s.cpus id).point = .stopped) : cpuStep cfg s id = .ok (.silent, s) := by
  simp only [cpuStep, here]

private theorem cpuStep_idle (here : (s.cpus id).point = .head) (none : (s.cpus id).proc = none) :
    cpuStep cfg s id = .ok (.silent, s.setCpu id { s.cpus id with point := .load }) := by
  simp only [cpuStep, here, none]

private theorem cpuStep_load {sched : Sched Nat} (here : (s.cpus id).point = .load)
    (nothing : Sched.getMlqProc cfg.priorities s.sched = (none, sched)) : cpuStep cfg s id =
      .ok (.call (.returned none), { s with sched }.setCpu id { s.cpus id with proc := none, point := .skip }) := by
  simp only [cpuStep, here, State.getProc, nothing]
  rfl

private theorem cpuStep_skip (here : (s.cpus id).point = .skip) :
    cpuStep cfg s id = .ok (.silent, s.setCpu id { s.cpus id with point := .head }) := by
  simp only [cpuStep, here]

private theorem goOn_rests {fuel : Nat} (taken : cpuStep cfg s id = .ok (event, after)) (rest : (after.cpus id).atRest = true) :
    goOn cfg id (fuel + 1) s = .ok after := by
  rw [goOn, taken, Outcome.bind_ok]
  exact if_pos rest

private theorem goOn_goes {fuel : Nat} (taken : cpuStep cfg s id = .ok (event, after)) (going : (after.cpus id).atRest = false) :
    goOn cfg id (fuel + 1) s = goOn cfg id fuel after := by
  rw [goOn, taken, Outcome.bind_ok]
  exact if_neg (by rw [going]; exact Bool.false_ne_true)

/-- An iteration of a CPU that has left the loop is none. -/
private theorem iteration_stopped (stopped : (s.cpus id).point = .stopped) : iteration cfg s id = .ok s := by
  apply goOn_rests (cpuStep_stopped stopped)
  rw [Cpu.atRest, stopped]
  rfl

private theorem iteration_cases (closing : Closing cfg s) (busy : ¬Iteration.Idle ⟨id, s, after⟩)
    (returned : iteration cfg s id = .ok after) :
    Closing cfg after ∧ (∀ other, (s.cpus other).point = .stopped → (after.cpus other).point = .stopped) ∧
      after.cost cfg ≤ s.cost cfg ∧ ((s.cpus id).point ≠ .stopped → after.cost cfg < s.cost cfg) := by
  by_cases stopped : (s.cpus id).point = .stopped
  · rw [iteration_stopped stopped] at returned
    cases returned
    exact ⟨closing, fun _ left => left, Nat.le_refl _, fun going => absurd stopped going⟩
  · have fed : Fed s id := by
      intro loads
      by_contra none
      refine busy ⟨loads, fun q => ?_⟩
      cases vacant : (s.sched.mlqReadyQueue q).empty with
      | true => rfl
      | false => exact absurd ⟨q, vacant⟩ none
    obtain ⟨later, frame, spent⟩ := goOn_spends closing fed returned stopped
    refine ⟨later, fun other left => ?_, by omega, fun _ => by omega⟩
    have distinct : other ≠ id := fun same => stopped (same ▸ left)
    rw [frame other distinct]
    exact left

variable {ids : List (Fin cfg.numCpus)} {records : List (Iteration cfg.numCpus)}

theorem iterations_append {more : List (Fin cfg.numCpus)} (returned : iterations cfg (ids ++ more) s = .ok (records, last)) :
    ∃ first middle second, iterations cfg ids s = .ok (first, middle) ∧ iterations cfg more middle = .ok (second, last) ∧
      records = first ++ second := by
  induction ids generalizing s records with
  | nil => exact ⟨[], s, records, rfl, returned, rfl⟩
  | cons id ids ih =>
    obtain ⟨after, ran, returned⟩ := Outcome.bind_eq_ok returned
    obtain ⟨⟨others, _⟩, later, returned⟩ := Outcome.bind_eq_ok returned
    cases returned
    obtain ⟨first, middle, second, upto, rest, rfl⟩ := ih later
    refine ⟨_ :: first, middle, second, ?_, rest, rfl⟩
    rw [iterations, ran, Outcome.bind_ok, upto]
    rfl

/-- Where no iteration is idle, a CPU that does not leave its loop spends something in every
slot. -/
private theorem iterations_spend (closing : Closing cfg s) (returned : iterations cfg ids s = .ok (records, last))
    (busy : ∀ it ∈ records, ¬it.Idle) :
    Closing cfg last ∧ (∀ other, (s.cpus other).point = .stopped → (last.cpus other).point = .stopped) ∧ last.cost cfg ≤ s.cost cfg ∧
      ∀ id ∈ ids, (last.cpus id).point ≠ .stopped → last.cost cfg < s.cost cfg := by
  induction ids generalizing s records with
  | nil =>
    cases returned
    exact ⟨closing, fun _ left => left, Nat.le_refl _, nofun⟩
  | cons first ids ih =>
    obtain ⟨after, ran, returned⟩ := Outcome.bind_eq_ok returned
    obtain ⟨⟨others, _⟩, later, returned⟩ := Outcome.bind_eq_ok returned
    cases returned
    obtain ⟨next, left, most, less⟩ := iteration_cases closing (busy _ List.mem_cons_self) ran
    obtain ⟨final, leave, rest, lesser⟩ := ih next later fun it member => busy it (List.mem_cons_of_mem _ member)
    refine ⟨final, fun other stopped => leave other (left other stopped), rest.trans most, fun id member going => ?_⟩
    rcases List.mem_cons.mp member with rfl | member
    · exact rest.trans_lt (less fun stopped => going (leave id (left id stopped)))
    · exact (lesser id member going).trans_le most

private theorem slots_spend {slots : List (List (Fin cfg.numCpus))} (whole : ∀ slot ∈ slots, id ∈ slot) (closing : Closing cfg s)
    (returned : iterations cfg slots.flatten s = .ok (records, last)) (busy : ∀ it ∈ records, ¬it.Idle)
    (going : (last.cpus id).point ≠ .stopped) : last.cost cfg + slots.length ≤ s.cost cfg := by
  induction slots generalizing s records with
  | nil => cases returned; exact Nat.le_refl _
  | cons slot slots ih =>
    obtain ⟨first, middle, second, upto, later, rfl⟩ := iterations_append returned
    obtain ⟨next, leave, _, less⟩ := iterations_spend closing upto fun it member => busy it (List.mem_append_left _ member)
    have rest := ih (fun slot member => whole slot (List.mem_cons_of_mem _ member)) next later
      fun it member => busy it (List.mem_append_right _ member)
    obtain ⟨_, stays, _, _⟩ := iterations_spend next later fun it member => busy it (List.mem_append_right _ member)
    have spent := less id (whole slot List.mem_cons_self) fun stopped => going (stays id stopped)
    rw [List.length_cons]
    omega

theorem goOn_closing {fuel : Nat} (closing : Closing cfg s) (returned : goOn cfg id fuel s = .ok after) : Closing cfg after := by
  induction fuel generalizing s with
  | zero => cases returned; exact closing
  | succ fuel ih =>
    obtain ⟨⟨event, next⟩, taken, returned⟩ := Outcome.bind_eq_ok returned
    dsimp only at returned
    split at returned
    · cases returned
      exact closing.step taken
    · exact ih (closing.step taken) returned

private theorem setCpu_twice (first second : Cpu) : (s.setCpu id first).setCpu id second = s.setCpu id second := by
  simp only [State.setCpu, Function.update_idem]

private theorem goOn_load {sched : Sched Nat} (fuel : Nat) (here : (s.cpus id).point = .load)
    (nothing : Sched.getMlqProc cfg.priorities s.sched = (none, sched)) :
    goOn cfg id (fuel + 2) s = .ok ({ s with sched }.setCpu id { s.cpus id with proc := none, point := .head }) := by
  have skip : (({ s with sched }.setCpu id { s.cpus id with proc := none, point := .skip }).cpus id).point = .skip := by rw [State.setCpu_same]
  rw [goOn_goes (cpuStep_load here nothing) (by rw [State.setCpu_same]; rfl), goOn_rests (cpuStep_skip skip) (by rw [State.setCpu_same]; rfl),
    setCpu_twice, State.setCpu_same]

/-- A CPU that finds no process to load goes back to the head of its loop, whatever `done` says. -/
theorem idle_iteration (closing : Closing cfg s)
    (loads : (s.cpus id).point = .head ∧ (s.cpus id).proc = none ∨ (s.cpus id).point = .load)
    (empty : ∀ q, (s.sched.mlqReadyQueue q).empty = true) :
    ∃ sched, sched.mlqReadyQueue = s.sched.mlqReadyQueue ∧
      iteration cfg s id = .ok ({ s with sched }.setCpu id { s.cpus id with proc := none, point := .head }) := by
  obtain ⟨served, steady⟩ := closing.steady
  have nothing : (Sched.getMlqProc cfg.priorities s.sched).1 = none := steady.nothing_ready empty
  cases returned : Sched.getMlqProc cfg.priorities s.sched with
  | mk result sched =>
  rw [returned] at nothing
  subst nothing
  refine ⟨sched, ?_, ?_⟩
  · cases (Sched.getMlqProc_taken returned).2 with
    | nothing same => exact same
  · rcases loads with ⟨head, vacant⟩ | load
    · have load : ((s.setCpu id { s.cpus id with point := .load }).cpus id).point = .load := by rw [State.setCpu_same]
      rw [iteration, goOn_goes (cpuStep_idle head vacant) (by rw [State.setCpu_same]; rfl), goOn_load 4 load returned, State.setCpu_same]
      have twice : ({ s with sched }.setCpu id { s.cpus id with point := .load }).setCpu id { s.cpus id with proc := none, point := .head } =
          { s with sched }.setCpu id { s.cpus id with proc := none, point := .head } := setCpu_twice _ _
      exact congrArg Except.ok twice
    · exact goOn_load 5 load returned

theorem iteration_closing (closing : Closing cfg s) (returned : iteration cfg s id = .ok after) : Closing cfg after := by
  unfold iteration at returned
  exact goOn_closing closing returned

theorem iterations_records (closing : Closing cfg s) (returned : iterations cfg ids s = .ok (records, last)) :
    ∀ it ∈ records, Closing cfg it.before ∧ iteration cfg it.before it.id = .ok it.after := by
  induction ids generalizing s records with
  | nil =>
    cases returned
    intro it member
    cases member
  | cons first ids ih =>
    obtain ⟨after, ran, returned⟩ := Outcome.bind_eq_ok returned
    obtain ⟨⟨others, _⟩, later, returned⟩ := Outcome.bind_eq_ok returned
    cases returned
    intro it member
    rcases List.mem_cons.mp member with rfl | member
    · exact ⟨closing, ran⟩
    · exact ih (iteration_closing closing ran) later it member

theorem iterations_closing (closing : Closing cfg s) (returned : iterations cfg ids s = .ok (records, last)) : Closing cfg last := by
  induction ids generalizing s records with
  | nil => cases returned; exact closing
  | cons first ids ih =>
    obtain ⟨after, ran, returned⟩ := Outcome.bind_eq_ok returned
    obtain ⟨⟨others, _⟩, later, returned⟩ := Outcome.bind_eq_ok returned
    cases returned
    exact ih (iteration_closing closing ran) later

/-- From every reachable state in which the loader is done, more slots than the state's cost
bring every CPU to its break, and an idle CPU takes it at once, exactly when no
iteration starts with a CPU that has no process and finds all queues empty. -/
theorem shutdown_terminates_iff (reached : ∃ labels, Steps (SystemStep cfg) (boot cfg) labels s) (done : s.done = true)
    (slots : List (List (Fin cfg.numCpus))) (orders : ∀ slot ∈ slots, slot.Perm (List.finRange cfg.numCpus))
    (long : s.cost cfg < slots.length) (returned : iterations cfg slots.flatten s = .ok (records, last)) :
    ((∀ id, (last.cpus id).point = .stopped) ∧ ∀ it ∈ records, it.Idle → (it.after.cpus it.id).point = .stopped) ↔
      ∀ it ∈ records, ¬it.Idle := by
  have closing : Closing cfg s := ⟨reached, done⟩
  constructor
  · rintro ⟨_, leaves⟩ it member idle
    obtain ⟨before, ran⟩ := iterations_records closing returned it member
    obtain ⟨sched, _, back⟩ := idle_iteration before idle.1 idle.2
    have left := leaves it member idle
    rw [← Except.ok.inj (back.symm.trans ran), State.setCpu_same] at left
    cases left
  · intro busy
    refine ⟨fun id => ?_, fun it member idle => absurd idle (busy it member)⟩
    by_contra going
    have whole (slot : List (Fin cfg.numCpus)) (member : slot ∈ slots) : id ∈ slot :=
      (orders slot member).mem_iff.mpr (List.mem_finRange id)
    have spent := slots_spend whole closing returned busy going
    omega

/-- The processes are all through, and every CPU that has not left waits for one more. -/
structure Stranded (s : State cfg.numCpus) : Prop where
  closing : Closing cfg s
  empty : ∀ q, (s.sched.mlqReadyQueue q).empty = true
  waits : ∀ id, (s.cpus id).point = .stopped ∨ (s.cpus id).point = .head ∧ (s.cpus id).proc = none

private theorem Stranded.iteration (stranded : Stranded s) (id : Fin cfg.numCpus) :
    ∃ after, iteration cfg s id = .ok after ∧ Stranded after ∧ ∀ other, (after.cpus other).point = (s.cpus other).point := by
  rcases stranded.waits id with stopped | idle
  · exact ⟨s, iteration_stopped stopped, stranded, fun _ => rfl⟩
  · obtain ⟨sched, same, ran⟩ := idle_iteration stranded.closing (.inl idle) stranded.empty
    have point (other : Fin cfg.numCpus) :
        (({ s with sched }.setCpu id { s.cpus id with proc := none, point := .head }).cpus other).point = (s.cpus other).point := by
      by_cases here : other = id
      · rw [here, State.setCpu_same, idle.1]
      · exact congrArg Cpu.point (Function.update_of_ne here ..)
    refine ⟨_, ran, ⟨iteration_closing stranded.closing ran, ?_, fun other => ?_⟩, point⟩
    · intro q
      change (sched.mlqReadyQueue q).empty = true
      rw [same]
      exact stranded.empty q
    · rw [point other]
      by_cases here : other = id
      · rw [here, State.setCpu_same]
        exact .inr ⟨idle.1, rfl⟩
      · exact (stranded.waits other).imp_right fun waits => ⟨waits.1, (congrArg Cpu.proc (Function.update_of_ne here ..)).trans waits.2⟩

/-- No number of slots brings a stranded CPU to its break. -/
theorem Stranded.forever (stranded : Stranded s) (ids : List (Fin cfg.numCpus)) :
    ∃ records last, iterations cfg ids s = .ok (records, last) ∧ ∀ id, (last.cpus id).point = (s.cpus id).point := by
  induction ids generalizing s with
  | nil => exact ⟨[], s, rfl, fun _ => rfl⟩
  | cons id ids ih =>
    obtain ⟨after, ran, next, point⟩ := stranded.iteration id
    obtain ⟨records, last, rest, stays⟩ := ih next
    refine ⟨⟨id, s, after⟩ :: records, last, ?_, fun other => (stays other).trans (point other)⟩
    rw [iterations, ran, Outcome.bind_ok, rest]
    rfl

end Slots

theorem iterations_trans {cfg : Config} {s middle last : State cfg.numCpus} {ids more : List (Fin cfg.numCpus)}
    {first second : List (Iteration cfg.numCpus)} (upto : iterations cfg ids s = .ok (first, middle))
    (later : iterations cfg more middle = .ok (second, last)) : iterations cfg (ids ++ more) s = .ok (first ++ second, last) := by
  induction ids generalizing s first with
  | nil => cases upto; exact later
  | cons id ids ih =>
    obtain ⟨after, ran, upto⟩ := Outcome.bind_eq_ok upto
    obtain ⟨⟨others, _⟩, rest, upto⟩ := Outcome.bind_eq_ok upto
    cases upto
    rw [List.cons_append, iterations, ran, Outcome.bind_ok, ih rest]
    rfl

section Examples

set_option maxRecDepth 10000 in
/-- The only CPU executes its process in three iterations; all further ones change nothing. -/
private theorem twoCalcs_leaves : ∃ labels s, Steps (SystemStep twoCalcs) (boot twoCalcs) labels s ∧ s.done = true ∧
    (s.sched.mlqReadyQueue ⟨0, by decide⟩).procs = [0] ∧
    ∀ more, ∃ records last, iterations twoCalcs (List.replicate 3 onlyCpu ++ more) s = .ok (records, last) := by
  have check : (do
      let (_, s) ← runThreads twoCalcs (boot twoCalcs) [.loader, .loader, .loader]
      let (_, last) ← iterations twoCalcs (List.replicate 3 onlyCpu) s
      return (s.done, (s.sched.mlqReadyQueue ⟨0, by decide⟩).procs, (last.cpus onlyCpu).point,
        decide (∀ q, (last.sched.mlqReadyQueue q).empty = true))) =
      (.ok (true, [0], .stopped, true) : Outcome (Bool × List Nat × Point × Bool)) := rfl
  obtain ⟨⟨labels, s⟩, loaded, check⟩ := Outcome.bind_eq_ok check
  obtain ⟨⟨records, last⟩, ran, check⟩ := Outcome.bind_eq_ok check
  have facts := Except.ok.inj check
  simp only [Prod.mk.injEq] at facts
  obtain ⟨done, entries, stopped, empty⟩ := facts
  have run := runThreads_steps loaded
  have closing := iterations_closing ⟨⟨labels, run⟩, done⟩ ran
  have stranded : Stranded last := ⟨closing, of_decide_eq_true empty, fun id => .inl (onlyCpu_eq id ▸ stopped)⟩
  refine ⟨labels, s, run, done, entries, fun more => ?_⟩
  obtain ⟨others, final, rest, _⟩ := stranded.forever more
  exact ⟨_, final, iterations_trans ran rest⟩

theorem shutdown_terminates_iff_twoCalcs : ∃ s records last, (s.sched.mlqReadyQueue ⟨0, by decide⟩).procs = [0] ∧
    iterations twoCalcs (List.replicate (3 + s.cost twoCalcs) [onlyCpu]).flatten s = .ok (records, last) ∧
    (((∀ id, (last.cpus id).point = .stopped) ∧ ∀ it ∈ records, it.Idle → (it.after.cpus it.id).point = .stopped) ↔
      ∀ it ∈ records, ¬it.Idle) := by
  obtain ⟨labels, s, run, done, entries, leaves⟩ := twoCalcs_leaves
  obtain ⟨records, last, ran⟩ := leaves (List.replicate (s.cost twoCalcs) onlyCpu)
  have schedule : (List.replicate (3 + s.cost twoCalcs) [onlyCpu]).flatten =
      List.replicate 3 onlyCpu ++ List.replicate (s.cost twoCalcs) onlyCpu := by
    rw [List.flatten_replicate_singleton, List.replicate_add]
  rw [← schedule] at ran
  refine ⟨s, records, last, entries, ran, shutdown_terminates_iff ⟨labels, run⟩ done _ ?_ ?_ ran⟩
  · intro slot member
    rw [List.eq_of_mem_replicate member]
    exact .refl _
  · rw [List.length_replicate]
    omega

/-- Two CPUs and one process of one instruction. -/
def twoCpus : Config :=
  { twoCalcs with
    numCpus := 2
    processes := [{ program := { priority := 0, text := [⟨.calc, 0, 0, 0, 0⟩], size_lt := by decide }, prio := 0 }]
    processes_lt := by decide }

def firstCpu : Fin twoCpus.numCpus := ⟨0, by decide⟩
def secondCpu : Fin twoCpus.numCpus := ⟨1, by decide⟩

/-- The first CPU executes the process, frees it and leaves. -/
def firstCpuLeaves : Outcome (List (Thread twoCpus.numCpus × Event) × State twoCpus.numCpus) :=
  runThreads twoCpus (boot twoCpus) (.loader :: .loader :: .loader :: List.replicate 10 (.cpu firstCpu))

set_option maxRecDepth 10000 in
/-- The other CPU has never run a process and stays in its loop for ever. -/
theorem idle_cpu_never_leaves : ∃ labels s, Steps (SystemStep twoCpus) (boot twoCpus) labels s ∧ s.done = true ∧
    (∀ q, (s.sched.mlqReadyQueue q).empty = true) ∧ (s.cpus secondCpu).point = .head ∧ (s.cpus secondCpu).proc = none ∧
    ∀ ids, ∃ records last, iterations twoCpus ids s = .ok (records, last) ∧ (last.cpus secondCpu).point = .head := by
  have check : firstCpuLeaves.map (fun result => (result.2.done, (result.2.cpus firstCpu).point, result.2.cpus secondCpu,
      decide (∀ q, (result.2.sched.mlqReadyQueue q).empty = true))) = .ok (true, .stopped, ⟨.head, none, 0⟩, true) := rfl
  cases ran : firstCpuLeaves with
  | error fault => rw [ran] at check; cases check
  | ok result =>
    obtain ⟨labels, s⟩ := result
    rw [ran] at check
    have facts := Except.ok.inj check
    simp only [Prod.mk.injEq] at facts
    obtain ⟨done, stopped, waits, empty⟩ := facts
    have run := runThreads_steps ran
    have empty := of_decide_eq_true empty
    have stranded : Stranded s := by
      refine ⟨⟨⟨labels, run⟩, done⟩, empty, fun id => ?_⟩
      by_cases first : id = firstCpu
      · exact .inl (first ▸ stopped)
      · have second : id = secondCpu := by
          have bound : id.val < 2 := id.isLt
          have other : id.val ≠ 0 := fun zero => first (Fin.ext zero)
          apply Fin.ext
          change id.val = 1
          omega
        exact .inr ⟨by rw [second, waits], by rw [second, waits]⟩
    refine ⟨labels, s, run, done, empty, by rw [waits], by rw [waits], fun ids => ?_⟩
    obtain ⟨records, last, served, points⟩ := stranded.forever ids
    refine ⟨records, last, served, ?_⟩
    rw [points, waits]

end Examples
end LamiaAtrium
