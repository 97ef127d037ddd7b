import LamiaAtrium.ReadConfig
import LamiaAtrium.Proofs.Processes

/-! The level of a process: a 64-bit number in the configuration file, 32 bits in the pcb, an
index into `mlq_ready_queue` in the scheduler. Nothing on the way compares it with `MAX_PRIO`. -/

namespace LamiaAtrium
open Run

/-- The next step of the thread calls `add_mlq_proc` or `put_mlq_proc` with the process. -/
def State.Inserts {n : Nat} (s : State n) : Thread n → Nat → Prop
  | .loader, p => s.loader = .add p
  | .cpu id, p => (s.cpus id).point = .putBack ∧ (s.cpus id).proc = some p

/-- The index that an insertion uses is inside the array, and is this number. -/
def UsesLevel (pr : Priorities Nat) (p : Nat) (prio : BitVec 64) : Prop :=
  ∃ level, Sched.level pr p = .ok level ∧ level.val = prio.toNat

section Runs
variable {cfg : Config} {labels : List (Thread cfg.numCpus × Event)} {s : State cfg.numCpus}

theorem usesLevel_iff {p : Nat} {line : ConfigLine} (here : cfg.processes[p]? = some line) :
    UsesLevel cfg.priorities p line.prio ↔ line.prio.toNat < maxPrio := by
  have index : (cfg.priorities.prio p).toNat = line.prio.toNat % 2 ^ 32 := by
    rw [Config.priorities]
    dsimp only
    rw [here, Option.map_some, Option.getD_some, BitVec.toNat_setWidth]
  constructor
  · intro uses
    obtain ⟨level, _, same⟩ := uses
    rw [← same]
    exact level.isLt
  · intro valid
    have small : (cfg.priorities.prio p).toNat = line.prio.toNat := by
      rw [index]
      apply Nat.mod_eq_of_lt
      exact Nat.lt_trans valid (by decide)
    refine ⟨⟨_, small ▸ valid⟩, dif_pos (small ▸ valid), small⟩

/-- Only processes of the configuration are inserted. -/
theorem State.Inserts.known (run : Steps (SystemStep cfg) (boot cfg) labels s) {thread : Thread cfg.numCpus} {p : Nat}
    (inserts : s.Inserts thread p) : p < cfg.processes.length := by
  have orderly := Orderly.of_run run
  have live : ∃ pc, s.pcbs p = .live pc := by
    cases thread with
    | loader => exact orderly.loading_live inserts
    | cpu id =>
      apply @Orderly.live_of_uses _ _ _ _ orderly id
      rw [Cpu.inUse, inserts.1]
      exact inserts.2
  obtain ⟨pc, live⟩ := live
  apply orderly.known
  intro unloaded
  cases live.symm.trans unloaded

theorem loader_loads {i : Nat} (here : s.loader = .load i) (inside : i < cfg.processes.length) :
    ∃ after, SystemStep cfg s (.loader, .loaded i) after ∧ after.loader = .add i := by
  refine ⟨{ s.setPcb i (.live 0) with loader := .add i }, ?_, rfl⟩
  change loaderStep cfg s = _
  rw [loaderStep, here]
  exact if_pos inside

theorem loader_adds {i : Nat} {prio : BitVec 64} (here : s.loader = .add i) (uses : UsesLevel cfg.priorities i prio) :
    ∃ event after, SystemStep cfg s (.loader, event) after ∧ after.loader = .load (i + 1) := by
  obtain ⟨level, found, _⟩ := uses
  obtain ⟨sched, added⟩ : ∃ sched, Sched.addMlqProc cfg.priorities s.sched i = .ok sched := by
    rw [Sched.addMlqProc, found]
    exact ⟨_, rfl⟩
  refine ⟨.call (.added i (s.sched.hasRoom cfg.priorities i)),
    { s with mem := s.mem.setMm i (initMm ((cfg.heap i).getD [])), sched, loader := .load (i + 1) }, ?_, rfl⟩
  change loaderStep cfg s = _
  rw [loaderStep, here]
  dsimp only
  rw [Sched.serve, added]
  rfl

theorem loader_faults {i : Nat} {fault : Fault} (here : s.loader = .add i) (missing : Sched.level cfg.priorities i = .error fault) :
    threadStep cfg s .loader = .error fault := by
  change loaderStep cfg s = _
  rw [loaderStep, here]
  dsimp only
  rw [Sched.serve, Sched.addMlqProc, missing]
  rfl

/-- The loader alone gets to process `i` if the levels of the processes before it exist. -/
theorem loader_reaches {i : Nat} (inside : i ≤ cfg.processes.length)
    (valid : ∀ j line, j < i → cfg.processes[j]? = some line → line.prio.toNat < maxPrio) :
    ∃ labels s, Steps (SystemStep cfg) (boot cfg) labels s ∧ s.loader = .load i := by
  induction i with
  | zero => exact ⟨[], boot cfg, .refl _, rfl⟩
  | succ i ih =>
    obtain ⟨labels, s, run, here⟩ := ih (Nat.le_of_succ_le inside) fun j line before => valid j line (Nat.lt_succ_of_lt before)
    have line := List.getElem?_eq_getElem (Nat.lt_of_succ_le inside)
    have uses := (usesLevel_iff line).mpr (valid i _ (Nat.lt_succ_self i) line)
    obtain ⟨loaded, loads, adding⟩ := loader_loads here (Nat.lt_of_succ_le inside)
    obtain ⟨event, after, adds, there⟩ := loader_adds adding uses
    exact ⟨_, after, (run.tail loads).tail adds, there⟩

/-- Every insertion of every run uses the level of the configuration exactly if these levels exist. -/
theorem levels_used_iff :
    (∀ labels s, Steps (SystemStep cfg) (boot cfg) labels s → ∀ thread p, s.Inserts thread p →
      ∃ line, cfg.processes[p]? = some line ∧ UsesLevel cfg.priorities p line.prio) ↔
    ∀ line ∈ cfg.processes, line.prio.toNat < maxPrio := by
  constructor
  · intro used
    by_contra claimed
    have wrong : ∃ (i : Nat) (line : ConfigLine), cfg.processes[i]? = some line ∧ ¬line.prio.toNat < maxPrio := by
      obtain ⟨line, member, invalid⟩ : ∃ line ∈ cfg.processes, ¬line.prio.toNat < maxPrio := by
        by_contra none
        exact claimed fun line member => by_contra fun invalid => none ⟨line, member, invalid⟩
      obtain ⟨i, here⟩ := List.mem_iff_getElem?.mp member
      exact ⟨i, line, here, invalid⟩
    -- the loader gets to the first line with a level that does not exist
    classical
    obtain ⟨line, here, invalid⟩ := Nat.find_spec wrong
    generalize first : Nat.find wrong = i at here
    have inside : i < cfg.processes.length := (List.getElem?_eq_some_iff.mp here).1
    have earlier (j : Nat) (other : ConfigLine) (before : j < i) (there : cfg.processes[j]? = some other) : other.prio.toNat < maxPrio := by
      by_contra wrongLevel
      exact Nat.find_min wrong (first ▸ before) ⟨other, there, wrongLevel⟩
    obtain ⟨labels, s, run, loading⟩ := loader_reaches (Nat.le_of_lt inside) earlier
    obtain ⟨loaded, loads, adding⟩ := loader_loads loading inside
    obtain ⟨found, there, uses⟩ := used _ loaded (run.tail loads) .loader i adding
    cases here.symm.trans there
    exact invalid ((usesLevel_iff here).mp uses)
  · intro valid labels s run thread p inserts
    have here := List.getElem?_eq_getElem (inserts.known run)
    exact ⟨_, here, (usesLevel_iff here).mpr (valid _ (List.mem_of_getElem? here))⟩

end Runs

section Files
variable {path text : List Char} {file : ConfigFile} {setting : Setting}

/-- In every run of the file each index into `mlq_ready_queue` is inside it, and is the priority of
the process in the file. -/
def QueuesAtGivenLevel (file : ConfigFile) (setting : Setting) : Prop :=
  ∀ labels s, Steps (SystemStep (file.config setting)) (boot (file.config setting)) labels s → ∀ thread p, s.Inserts thread p →
    ∃ line, file.ldProcesses[p]? = some line ∧ UsesLevel (file.config setting).priorities p line.prio

theorem queuesAtGivenLevel_iff : QueuesAtGivenLevel file setting ↔ ∀ line ∈ file.ldProcesses, line.prio.toNat < maxPrio := by
  have whole : (∀ line ∈ (file.config setting).processes, line.prio.toNat < maxPrio) ↔
      ∀ line ∈ file.ldProcesses, line.prio.toNat < maxPrio := List.forall_mem_map
  rw [← whole, ← levels_used_iff]
  refine forall_congr' fun labels => forall_congr' fun s => forall_congr' fun _ => forall_congr' fun thread =>
    forall_congr' fun p => forall_congr' fun _ => ?_
  constructor
  · intro uses
    obtain ⟨line, here, uses⟩ := uses
    refine ⟨{ program := setting.load line.path, prio := line.prio }, ?_, uses⟩
    exact (List.getElem?_map ..).trans (congrArg _ here)
  · intro uses
    obtain ⟨line, here, uses⟩ := uses
    obtain ⟨given, there, same⟩ := Option.map_eq_some_iff.mp ((List.getElem?_map ..).symm.trans here)
    refine ⟨given, there, ?_⟩
    rw [← same] at uses
    exact uses

/-- No file is refused for its priorities: a file is queued as given exactly if all its priorities are
below `MAX_PRIO`. -/
theorem queues_at_given_level_iff (path text : List Char) (setting : Setting) :
    (∀ file, readConfig path text = some file → QueuesAtGivenLevel file setting) ↔
      ∀ file, readConfig path text = some file → ∀ line ∈ file.ldProcesses, line.prio.toNat < maxPrio :=
  forall_congr' fun _ => forall_congr' fun _ => queuesAtGivenLevel_iff

/-- Every process file is an empty program. -/
def emptyPrograms : Setting where
  load _ := { priority := 0, text := [], size_lt := by decide }
  mram := twoCalcs.mram
  activeMswp := twoCalcs.activeMswp
  os := 0x4040
  uninit := 0
  heap _ := some []

/-- One process, started in slot 0 with this priority. -/
def oneProcess (prio : BitVec 64) : ConfigFile where
  timeSlot := 2
  numCpus := 1
  numProcesses := 1
  memramsz := 1048576
  memswpsz := [16777216, 0, 0, 0]
  ldProcesses := [{ startTime := 0, path := "input/proc/s0".toList, prio }]
  ldProcesses_length := rfl

/-- The priority 140 is accepted and is an index behind the array; 2 ^ 32 + 5 is accepted and is level 5. -/
theorem priority_140_is_behind_the_queues :
    (readConfig "input/os".toList "2 1 1\n1048576 16777216 0 0 0\n0 s0 140\n".toList = some (oneProcess 140) ∧
      ¬QueuesAtGivenLevel (oneProcess 140) emptyPrograms ∧
      ∃ labels s, Steps (SystemStep ((oneProcess 140).config emptyPrograms)) (boot _) labels s ∧
        threadStep ((oneProcess 140).config emptyPrograms) s .loader = .error .outOfBounds) ∧
    readConfig "input/os".toList "2 1 1\n1048576 16777216 0 0 0\n0 s0 4294967301\n".toList = some (oneProcess 4294967301) ∧
      ¬QueuesAtGivenLevel (oneProcess 4294967301) emptyPrograms ∧
      Sched.level ((oneProcess 4294967301).config emptyPrograms).priorities 0 = .ok ⟨5, by decide⟩ := by
  have refused {prio : BitVec 64} (large : ¬prio.toNat < maxPrio) : ¬QueuesAtGivenLevel (oneProcess prio) emptyPrograms := by
    intro queues
    exact large (queuesAtGivenLevel_iff.mp queues _ List.mem_cons_self)
  refine ⟨⟨rfl, refused (by decide), ?_⟩, rfl, refused (by decide), rfl⟩
  obtain ⟨loaded, loads, adding⟩ := @loader_loads ((oneProcess 140).config emptyPrograms) (boot _) 0 rfl Nat.zero_lt_one
  exact ⟨_, loaded, .single loads, loader_faults adding rfl⟩

end Files
end LamiaAtrium
