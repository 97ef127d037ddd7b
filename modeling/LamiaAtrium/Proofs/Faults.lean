import LamiaAtrium.Proofs.Callers
import LamiaAtrium.Proofs.SymbolTable
import LamiaAtrium.Proofs.Unmapped

/-! Which steps of the whole system do not return. With operands inside the symbol table and
without system call 17 in the programs, only an ALLOC that the free list cannot serve is left: it
follows the word that `malloc` left behind the list, or the null `krnl->mm` or a freed pcb, as
soon as `__sys_memmap` finds something. -/

namespace LamiaAtrium
open Run

/-- No system call 17 of its own, and a register operand that is a row of the table. -/
def Inst.Tame (ins : Inst) : Prop :=
  ¬(ins.opcode = .syscall ∧ addrToInt ins.arg0 = 17#32) ∧ (ins.namesRegister → InTable ins.register)

private theorem no_fault {α : Type} (result : α) : ¬∃ fault, (.ok result : Outcome α) = .error fault := by
  rintro ⟨_, failed⟩
  cases failed

section Memory
variable {Proc : Type} {mm : Mm} {rgid : CInt}

/-- A scan that passes every region finds none that fits. -/
theorem Mm.noFit_of_scanPasses {size : Addr} (passes : mm.scanPasses (addrToInt size) = true) : 0#64 < size ∧ NoFit mm 0 size := by
  rw [scanPasses, Bool.and_eq_true, Bool.not_eq_true'] at passes
  obtain ⟨positive, passes⟩ := passes
  constructor
  · rw [BitVec.pos_iff_ne_zero]
    rintro rfl
    cases positive
  · cases known : getVmaByNum mm 0 with
    | error fault => rw [known] at passes; cases passes
    | ok found =>
      cases found with
      | none => rw [known] at passes; cases passes
      | some found =>
        obtain ⟨index, vma⟩ := found
        rw [known] at passes
        have nothing := Option.isNone_iff_eq_none.mp passes
        refine ⟨none, mm, ?_⟩
        rw [getFreeVmrgArea, positive, known]
        simp only [Bool.false_eq_true, if_false, Outcome.bind_ok, nothing]
        rfl

theorem InTable.lookup (inside : InTable rgid) : getSymrgByid rgid = some rgid.toNat ∧ rgid.toNat < pagingMaxSymtblSz := by
  have limit : (pagingMaxSymtblSz : Int) = 30 := rfl
  obtain ⟨nonneg, below⟩ := inside
  have number := toInt_of_nonneg nonneg
  refine ⟨by rw [getSymrgByid_eq, if_pos (by omega)], ?_⟩
  omega

variable [DecidableEq Proc] {env : Env Proc} {mram activeMswp : Memphy} {k : Krnl Proc} {caller : Proc} {pid : CInt}

namespace Krnl.Blank
variable (blank : k.Blank mram activeMswp)
include blank

omit [DecidableEq Proc] in
theorem ownArea (p : Proc) : ∃ vma, (k.mms p).mmap = [vma] ∧ getVmaByNum (k.mms p) 0 = .ok (some (0, vma)) ∧ (k.mms p).area 0 = .ok vma := by
  obtain ⟨vmFreergList, single⟩ := blank.areas p
  refine ⟨_, single, ?_, ?_⟩
  · rw [getVmaByNum, single]
    rfl
  · rw [Mm.area, single]
    rfl

theorem read_returns (env : Env Proc) (caller : Proc) (offset : Addr) (inside : InTable rgid) : ∃ result, LamiaAtrium.read env k caller rgid offset = .ok result := by
  obtain ⟨known, row⟩ := inside.lookup
  have region : (k.mms caller).symrg rgid.toNat = .ok _ := symrg_val _ ⟨rgid.toNat, row⟩
  rw [LamiaAtrium.read, known]
  dsimp only
  rw [region]
  simp only [Outcome.bind_ok]
  split
  · exact ⟨_, rfl⟩
  · split
    · exact ⟨_, rfl⟩
    · rw [pgGetval, blank.pgGetpage]
      exact ⟨_, rfl⟩

theorem write_returns {offset : Addr} {value : Byte} (inside : InTable rgid) :
    ∃ result, LamiaAtrium.write env k caller 0 rgid offset value = .ok result := by
  obtain ⟨known, row⟩ := inside.lookup
  have region : (k.mms caller).symrg rgid.toNat = .ok _ := symrg_val _ ⟨rgid.toNat, row⟩
  obtain ⟨vma, _, found, _⟩ := blank.ownArea caller
  rw [LamiaAtrium.write, known, found]
  simp only [Outcome.bind_ok]
  rw [region]
  simp only [Outcome.bind_ok]
  split
  · exact ⟨_, rfl⟩
  · rw [pgSetval, blank.pgGetpage]
    exact ⟨_, rfl⟩

theorem free_returns (inside : InTable rgid) : ∃ result, LamiaAtrium.free k caller 0 rgid = .ok result := by
  obtain ⟨known, row⟩ := inside.lookup
  have region : (k.mms caller).symrg rgid.toNat = .ok _ := symrg_val _ ⟨rgid.toNat, row⟩
  obtain ⟨vma, single, _, here⟩ := blank.ownArea caller
  rw [LamiaAtrium.free]
  split
  · exact ⟨_, rfl⟩
  · rw [known]
    dsimp only
    rw [region]
    simp only [Outcome.bind_ok]
    split
    · exact ⟨_, rfl⟩
    · rw [setSymrg_ok row]
      simp only [Outcome.bind_ok]
      rw [enlistVmFreergList, Mm.area, single]
      simp only [List.getElem?_cons_zero, Outcome.bind_ok]
      split <;> exact ⟨_, rfl⟩

omit [DecidableEq Proc] in
theorem getFree_returns (caller : Proc) (request : CInt) : ∃ result, getFreeVmrgArea (k.mms caller) 0 request = .ok result := by
  obtain ⟨vma, _, found, _⟩ := blank.ownArea caller
  rw [getFreeVmrgArea]
  split
  · exact ⟨_, rfl⟩
  · rw [found]
    dsimp only [Outcome.bind_ok]
    split
    · exact ⟨_, rfl⟩
    · split <;> exact ⟨_, rfl⟩

/-- Growing only works where `__sys_memmap` finds nobody, and then nothing grows. -/
theorem allocGrow_faults_iff {size : Addr} (known : env.pid caller = some pid) {index : Nat} (row : index < pagingMaxSymtblSz) :
    (∃ fault, LamiaAtrium.allocGrow env k caller 0 0 index size = .error fault) ↔ env.findCaller pid ≠ .ok none := by
  obtain ⟨vma, _, _, here⟩ := blank.ownArea caller
  have own : env.callerPid caller = .ok pid := by rw [Env.callerPid, known]
  rw [LamiaAtrium.allocGrow, here, own]
  simp only [Outcome.bind_ok]
  cases found : env.findCaller pid with
  | error fault =>
    rw [syscall_fault found]
    exact iff_of_true ⟨fault, rfl⟩ fun same => by cases same
  | ok answer =>
    cases answer with
    | none =>
      rw [syscall_missing found]
      simp only [Outcome.bind_ok]
      rw [setSymrg_ok row]
      exact iff_of_false (no_fault _) fun differ => differ rfl
    | some other =>
      rw [syscall_inc found, incVmaLimit_null blank.mm]
      exact iff_of_true ⟨_, rfl⟩ fun same => by cases same

/-- Past the free list an ALLOC grows, and else it comes back. -/
theorem alloc_faults_iff {size : Addr} (known : env.pid caller = some pid) (inside : InTable rgid) :
    (∃ fault, LamiaAtrium.alloc env k caller 0 rgid size = .error fault) ↔
      0#64 < size ∧ NoFit (k.mms caller) 0 size ∧ env.findCaller pid ≠ .ok none := by
  obtain ⟨vma, _, found, _⟩ := blank.ownArea caller
  obtain ⟨⟨code, chosen, mm⟩, tried⟩ := blank.getFree_returns caller (addrToInt size)
  obtain ⟨table, fits⟩ := getFreeVmrgArea_table tried
  have row := inside.lookup.2
  by_cases positive : 0#64 < size
  · rw [LamiaAtrium.alloc, if_neg (BitVec.not_le.mpr positive), found]
    simp only [Outcome.bind_ok, tried]
    rcases fits with rfl | ⟨rfl, chose⟩
    · have unfit : NoFit (k.mms caller) 0 size := ⟨chosen, mm, tried⟩
      rw [and_iff_right positive, and_iff_right unfit]
      exact (blank.setMm table).allocGrow_faults_iff known row
    · obtain ⟨newrg, rfl⟩ := Option.isSome_iff_exists.mp chose
      change (∃ fault, (mm.setSymrg rgid.toNat newrg >>= fun mm => _) = .error fault) ↔ _
      rw [setSymrg_ok row]
      refine iff_of_false (no_fault _) fun faults => ?_
      obtain ⟨_, ⟨_, _, unfit⟩, _⟩ := faults
      rw [tried] at unfit
      cases unfit
  · rw [LamiaAtrium.alloc, if_pos (BitVec.not_lt.mp positive)]
    exact iff_of_false (no_fault _) fun faults => positive faults.1

/-- The one instruction that may not come back. -/
theorem runInst_faults_iff {ins : Inst} (known : env.pid caller = some pid) (tame : ins.Tame) :
    (∃ fault, LamiaAtrium.runInst env k caller ins = .error fault) ↔
      ins.opcode = .alloc ∧ 0#64 < ins.arg0 ∧ NoFit (k.mms caller) 0 ins.arg0 ∧ env.findCaller pid ≠ .ok none := by
  obtain ⟨noMemmap, names⟩ := tame
  have returns {outcome : Outcome (Int × Krnl Proc)} (ok : ∃ result, outcome = .ok result) (other : ins.opcode ≠ .alloc) :
      (∃ fault, outcome = .error fault) ↔
        ins.opcode = .alloc ∧ 0#64 < ins.arg0 ∧ NoFit (k.mms caller) 0 ins.arg0 ∧ env.findCaller pid ≠ .ok none := by
    obtain ⟨result, rfl⟩ := ok
    exact iff_of_false (no_fault _) fun faults => other faults.1
  have named (register : ins.opcode ≠ .calc ∧ ins.opcode ≠ .syscall) : InTable ins.register := names register
  rw [Inst.register] at named
  rw [LamiaAtrium.runInst]
  cases opcode : ins.opcode <;> rw [opcode] at named returns
  case «calc» => exact returns ⟨_, rfl⟩ (by decide)
  case alloc =>
    rw [and_iff_right rfl, ← blank.alloc_faults_iff known (named (by decide)), LamiaAtrium.liballoc]
    constructor
    · rintro ⟨fault, failed⟩
      cases ran : LamiaAtrium.alloc env k caller 0 (addrToInt ins.arg1) ins.arg0 with
      | error fault => exact ⟨fault, rfl⟩
      | ok result => rw [ran] at failed; cases failed
    · rintro ⟨fault, failed⟩
      exact ⟨fault, by rw [failed]; rfl⟩
  case free => exact returns (blank.free_returns (named (by decide))) (by decide)
  case read =>
    obtain ⟨⟨val, data, last⟩, ran⟩ := blank.read_returns env caller ins.arg1 (named (by decide))
    refine returns ⟨(val, last), ?_⟩ (by decide)
    rw [LamiaAtrium.libread, ran]
    rfl
  case write => exact returns (blank.write_returns (named (by decide))) (by decide)
  case syscall =>
    refine returns ⟨(0, k), ?_⟩ (by decide)
    dsimp only
    rw [LamiaAtrium.libsyscall, Env.callerPid, known]
    simp only [Outcome.bind_ok]
    rw [LamiaAtrium.syscall, if_neg fun memmap => noMemmap ⟨opcode, memmap⟩]
    rfl

end Krnl.Blank
omit [DecidableEq Proc] in
/-- The search ends without a process if it can read every entry and none has the pid. -/
theorem Env.scan_none_iff {queue : List Proc} : env.scan pid queue = .ok none ↔ ∀ q ∈ queue, env.pid q ≠ none ∧ env.pid q ≠ some pid := by
  induction queue with
  | nil => simp [Env.scan]
  | cons head rest ih =>
    rw [Env.scan, List.forall_mem_cons]
    cases here : env.pid head with
    | none => simp
    | some other =>
      by_cases same : other = pid
      · simp [same]
      · simp only [if_neg same, ih]
        simp [same]

end Memory

section Threads
variable {cfg : Config} {labels : List (Thread cfg.numCpus × Event)} {s after : State cfg.numCpus}

/-- Where `cpu_routine` and `run` follow `proc`, there is one. -/
def Cpu.Attended (cpu : Cpu) : Prop :=
  match cpu.point with
  | .finish | .putBack | .run | .execute _ => ∃ p, cpu.proc = some p
  | _ => True

theorem Move.attended {id : Fin cfg.numCpus} {event : Event} (move : Move cfg s id event after) : (after.cpus id).Attended := by
  cases move with
  | checked p pc _ holds _ =>
    rw [State.setCpu_same, Cpu.Attended]
    dsimp only
    split <;> first | exact ⟨p, holds⟩ | trivial
  | dispatched p _ _ holds => rw [State.setCpu_same]; exact ⟨p, holds⟩
  | fetched p pc ins _ holds _ _ => rw [State.setCpu_same]; exact ⟨p, holds⟩
  | loaded result =>
    rw [State.setCpu_same]
    cases result <;> trivial
  | vacant =>
    rw [State.setCpu_same]
    cases s.done <;> trivial
  | stopped here =>
    rw [Cpu.Attended, here]
    trivial
  | _ =>
    rw [State.setCpu_same]
    trivial

theorem attended_of_run (run : Steps (SystemStep cfg) (boot cfg) labels s) (id : Fin cfg.numCpus) : (s.cpus id).Attended := by
  refine @Steps.invariant _ _ _ _ _ _ (fun s => ∀ id, (s.cpus id).Attended) run (fun _ => trivial) ?_ id
  rintro before ⟨thread, event⟩ after attended taken id
  by_cases mine : thread = .cpu id
  · subst mine
    exact (cpuStep_move taken).attended
  · rw [(threadStep_elsewhere taken).1 id mine]
    exact attended id

/-- `__sys_memmap` for a process in `run` comes back empty-handed, unless the process has been
put back before or some process that was has ended since. -/
theorem finds_something_iff (run : Steps (SystemStep cfg) (boot cfg) labels s) {id : Fin cfg.numCpus} {p : Nat}
    (uses : (s.cpus id).inUse = some p) :
    (s.env cfg).findCaller (pidOf p) ≠ .ok none ↔
      p ∈ s.sched.runningList.procs ∨ ∃ q ∈ s.sched.runningList.procs, s.pcbs q = .freed := by
  have orderly := Orderly.of_run run
  obtain ⟨pc, live⟩ := orderly.live_of_uses uses
  have own : s.pid p = some (pidOf p) := by rw [State.pid, live]
  have linked := Sched.linked_of_returned (scheduler_run run) (returned_of_uses run uses)
  have dead {q : Nat} (listed : q ∈ (putBacks labels).take maxQueueSize) : s.pid q = none ↔ s.pcbs q = .freed :=
    (pid_eq_none run (List.mem_of_mem_take listed)).trans (orderly.ended q).symm
  rw [findCaller_eq run linked, ne_eq, Env.scan_none_iff, (Sched.runningList_of_run (scheduler_run run)).1]
  change (¬∀ q ∈ (putBacks labels).take maxQueueSize, s.pid q ≠ none ∧ s.pid q ≠ some (pidOf p)) ↔
    p ∈ (putBacks labels).take maxQueueSize ∨ ∃ q ∈ (putBacks labels).take maxQueueSize, s.pcbs q = .freed
  simp only [not_forall, not_and_or, not_not, exists_prop]
  constructor
  · rintro ⟨q, listed, gone | found⟩
    · exact .inr ⟨q, listed, (dead listed).mp gone⟩
    · exact .inl (pid_injective orderly own found ▸ listed)
  · rintro (listed | ⟨q, listed, freed⟩)
    · exact ⟨p, listed, .inr own⟩
    · exact ⟨q, listed, .inl ((dead listed).mpr freed)⟩

theorem loaderStep_returns (valid : ∀ p, (cfg.priorities.prio p).toNat < maxPrio) (s : State cfg.numCpus) :
    ∃ result, loaderStep cfg s = .ok result := by
  rw [loaderStep]
  split
  · split <;> exact ⟨_, rfl⟩
  · next i _ =>
    obtain ⟨call, sched, served, _⟩ := Sched.serve_valid valid s.sched (.add i)
    rw [served]
    exact ⟨_, rfl⟩
  · exact ⟨_, rfl⟩

/-- Outside of an instruction a CPU finds its process alive and its levels in range. -/
theorem cpuStep_returns (orderly : Orderly cfg labels s) (valid : ∀ p, (cfg.priorities.prio p).toNat < maxPrio)
    {id : Fin cfg.numCpus} (attended : (s.cpus id).Attended) (outside : ∀ ins, (s.cpus id).point ≠ .execute ins) :
    ∃ result, cpuStep cfg s id = .ok result := by
  have alive {p : Nat} (holds : (s.cpus id).proc = some p) (uses : (s.cpus id).inUse = (s.cpus id).proc) :
      ∃ pc, (s.cpus id).current = .ok p ∧ s.pc p = .ok pc := by
    obtain ⟨pc, live⟩ := orderly.live_of_uses (uses.trans holds)
    exact ⟨pc, by rw [Cpu.current, holds], by rw [State.pc, live]⟩
  rw [Cpu.Attended] at attended
  rw [cpuStep]
  dsimp only
  cases point : (s.cpus id).point <;> rw [point] at attended
  case execute ins => exact absurd point (outside ins)
  case head =>
    cases holds : (s.cpus id).proc with
    | none => exact ⟨_, rfl⟩
    | some p =>
      obtain ⟨pc, _, read⟩ := alive holds (by rw [Cpu.inUse, point])
      dsimp only
      rw [read]
      exact ⟨_, rfl⟩
  case finish =>
    obtain ⟨p, holds⟩ := attended
    obtain ⟨pc, current, read⟩ := alive holds (by rw [Cpu.inUse, point])
    simp only [current, Outcome.bind_ok, read]
    exact ⟨_, rfl⟩
  case putBack =>
    obtain ⟨p, holds⟩ := attended
    obtain ⟨pc, current, read⟩ := alive holds (by rw [Cpu.inUse, point])
    obtain ⟨call, sched, served, _⟩ := Sched.serve_valid valid s.sched (.put p)
    simp only [current, Outcome.bind_ok, read, served]
    exact ⟨_, rfl⟩
  case recheck =>
    cases (s.cpus id).proc <;> exact ⟨_, rfl⟩
  case run =>
    obtain ⟨p, holds⟩ := attended
    obtain ⟨pc, current, read⟩ := alive holds (by rw [Cpu.inUse, point])
    simp only [current, Outcome.bind_ok, read]
    split <;> exact ⟨_, rfl⟩
  all_goals exact ⟨_, rfl⟩

/-- A free-list scan of this process for this size goes past the last region, to a word from
which `malloc` left no list. -/
def State.ScansWild (cfg : Config) {n : Nat} (s : State n) (p : Nat) (ins : Inst) : Prop :=
  cfg.heap p = none ∧ (s.mem.mms p).scanPasses (addrToInt ins.arg0) = true

/-- In every reachable state of the whole system, whose programs name rows of the symbol table
and leave system call 17 to the memory library, every step of every thread comes back but one:
an ALLOC that the free list cannot serve, if the word behind the list does not lead to one, or
the process has been put back before, or some process that was put back has ended. -/
theorem faults_iff (run : Steps (SystemStep cfg) (boot cfg) labels s) (valid : ∀ p, (cfg.priorities.prio p).toNat < maxPrio)
    (tame : ∀ line ∈ cfg.processes, ∀ ins ∈ line.program.text, ins.Tame) (thread : Thread cfg.numCpus) :
    (∃ fault, threadStep cfg s thread = .error fault) ↔
      ∃ id p ins, thread = .cpu id ∧ (s.cpus id).point = .execute ins ∧ (s.cpus id).proc = some p ∧ ins.opcode = .alloc ∧
        0#64 < ins.arg0 ∧ NoFit (s.mem.mms p) 0 ins.arg0 ∧
        (s.ScansWild cfg p ins ∨ p ∈ s.sched.runningList.procs ∨ ∃ q ∈ s.sched.runningList.procs, s.pcbs q = .freed) := by
  have orderly := Orderly.of_run run
  cases thread with
  | loader =>
    obtain ⟨result, returned⟩ := loaderStep_returns valid s
    constructor
    · rintro ⟨_, failed⟩
      cases returned.symm.trans failed
    · rintro ⟨_, _, _, same, _⟩
      cases same
  | cpu id =>
    have attended := attended_of_run run id
    by_cases inside : ∃ ins, (s.cpus id).point = .execute ins
    · obtain ⟨ins, point⟩ := inside
      obtain ⟨runs, blank⟩ := blank_of_run run fun line listed ins member called => (tame line listed ins member).1 ⟨called.1, called.2.1⟩
      obtain ⟨p, holds, line, listed, member⟩ := runs.given point
      have uses : (s.cpus id).inUse = some p := by rw [Cpu.inUse, point]; exact holds
      obtain ⟨pc, live⟩ := orderly.live_of_uses uses
      have own : (s.env cfg).pid p = some (pidOf p) := by
        change s.pid p = _
        rw [State.pid, live]
      have faults := blank.runInst_faults_iff own (tame line listed ins member)
      rw [finds_something_iff run uses] at faults
      have whole : (∃ fault, threadStep cfg s (.cpu id) = .error fault) ↔
          ins.opcode = .alloc ∧ s.ScansWild cfg p ins ∨ ∃ fault, runInst (s.env cfg) s.mem p ins = .error fault := by
        rw [threadStep, cpuStep, point]
        dsimp only
        rw [Cpu.current, holds]
        simp only [Outcome.bind_ok]
        rw [Config.scan]
        split
        · next wild => exact iff_of_true ⟨_, rfl⟩ (.inl wild)
        · next tamed =>
          rw [State.ScansWild, or_iff_right tamed]
          simp only [Outcome.bind_ok]
          cases runInst (s.env cfg) s.mem p ins with
          | error fault => exact iff_of_true ⟨fault, rfl⟩ ⟨fault, rfl⟩
          | ok result => exact iff_of_false (no_fault _) (no_fault _)
      rw [whole, faults]
      constructor
      · rintro (⟨opcode, wild⟩ | ⟨opcode, positive, noFit, found⟩)
        · obtain ⟨positive, noFit⟩ := Mm.noFit_of_scanPasses wild.2
          exact ⟨id, p, ins, rfl, point, holds, opcode, positive, noFit, .inl wild⟩
        · exact ⟨id, p, ins, rfl, point, holds, opcode, positive, noFit, .inr found⟩
      · rintro ⟨other, q, next, same, here, there, opcode, positive, noFit, why⟩
        cases same
        cases point.symm.trans here
        cases holds.symm.trans there
        rcases why with wild | found
        · exact .inl ⟨opcode, wild⟩
        · exact .inr ⟨opcode, positive, noFit, found⟩
    · obtain ⟨result, returned⟩ := cpuStep_returns orderly valid attended fun ins point => inside ⟨ins, point⟩
      constructor
      · rintro ⟨_, failed⟩
        cases returned.symm.trans failed
      · rintro ⟨other, _, ins, same, point, _⟩
        cases same
        exact absurd ⟨ins, point⟩ inside

private def lateAlloc : Inst := { opcode := .alloc, arg0 := 100, arg1 := 0, arg2 := 0, arg3 := 0 }

/-- A process that asks for memory in its second turn. -/
def calcThenAlloc : Config :=
  { twoCalcs with
    processes := [{
      program := {
        priority := 0
        text := [{ opcode := .calc, arg0 := 0, arg1 := 0, arg2 := 0, arg3 := 0 }, lateAlloc]
        size_lt := by decide }
      prio := 0 }]
    processes_lt := by decide }

theorem faults_iff_calcThenAlloc : ∃ labels s, Steps (SystemStep calcThenAlloc) (boot calcThenAlloc) labels s ∧
    (∃ fault, threadStep calcThenAlloc s (.cpu ⟨0, by decide⟩) = .error fault) ∧
    ¬∃ fault, threadStep calcThenAlloc s .loader = .error fault := by
  have ran : Steps (SystemStep calcThenAlloc) (boot calcThenAlloc) _ _ :=
    runThreads_steps (rfl : runThreads calcThenAlloc (boot calcThenAlloc)
      ([.loader, .loader] ++ List.replicate 11 (.cpu ⟨0, by decide⟩)) = _)
  have valid (p : Nat) : (calcThenAlloc.priorities.prio p).toNat < maxPrio := by
    cases p with
    | zero => decide
    | succ p => exact (by decide : (0#32).toNat < maxPrio)
  have tame : ∀ line ∈ calcThenAlloc.processes, ∀ ins ∈ line.program.text, ins.Tame := by
    intro line member ins inside
    rw [List.mem_singleton.mp member] at inside
    rcases List.mem_cons.mp inside with rfl | inside
    · exact ⟨fun called => (by cases called.1), fun named => absurd rfl named.1⟩
    · rw [List.mem_singleton.mp inside]
      exact ⟨fun called => (by cases called.1), fun _ => ⟨by decide, by decide⟩⟩
  refine ⟨_, _, ran, (faults_iff ran valid tame _).mpr ?_, mt (faults_iff ran valid tame .loader).mp ?_⟩
  · exact ⟨_, 0, lateAlloc, rfl, rfl, rfl, rfl, by decide, ⟨_, _, rfl⟩, .inr (.inl (List.mem_singleton_self 0))⟩
  · rintro ⟨_, _, _, same, _⟩
    cases same

end Threads
end LamiaAtrium
