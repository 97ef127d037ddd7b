import LamiaAtrium.Library.Atomicity
import LamiaAtrium.Proofs.Alone
import LamiaAtrium.Proofs.LockDiscipline

/-! CALC, ALLOC, FREE and WRITE as single steps. Each is one section of `mmvm_lock`, so whatever
the interleaving of the CPUs the instructions take effect one after the other; and no CPU
waits for the lock for good, whatever the others execute. -/

namespace LamiaAtrium
open Locking Run
variable {Proc : Type}

namespace Interleaved

section Parts

theorem onMemory_plain (f : Shared Proc → Outcome (α × Krnl Proc)) : (onMemory f).Plain := .access _

theorem look_plain : (look : Code Proc (Shared Proc)).Plain := .access _

theorem lift_plain (outcome : Outcome α) : (lift outcome : Code Proc α).Plain := by
  cases outcome <;> trivial

theorem getFreefp_plain (device : Device) : (getFreefp device : Code Proc (Option Addr)).Plain := .call _ (.takeFirst device)

theorem putFreefp_plain (device : Device) (fpn : Addr) : (putFreefp device fpn : Code Proc Unit).Plain := .call _ (.giveBack device fpn)

theorem returnFrames_plain (frmLst : List Addr) : (returnFrames frmLst : Code Proc Unit).Plain := by
  induction frmLst with
  | nil => trivial
  | cons fpn frmLst ih => exact .bind (putFreefp_plain .mram fpn) fun _ => ih

theorem allocPagesLoop_plain (left : Nat) (frmLst : List Addr) : (allocPagesLoop left frmLst : Code Proc (Addr × List Addr)).Plain := by
  induction left generalizing frmLst with
  | zero => trivial
  | succ left ih =>
    refine .bind (getFreefp_plain .mram) fun taken => ?_
    cases taken with
    | some fpn => exact ih (fpn :: frmLst)
    | none => exact .bind (returnFrames_plain frmLst) fun _ => trivial

theorem mmSwapPage_plain (vicfpn swpfpn : Addr) : (mmSwapPage vicfpn swpfpn : Code Proc Unit).Plain := .call _ (onMemory_plain _)

variable [DecidableEq Proc] {s : Shared Proc} {caller : Proc}

theorem findVictimPage_plain : (findVictimPage caller).Plain := .call _ (onMemory_plain _)

theorem vmMapRam_plain (mapstart : Addr) (incpgnum : CInt) (rg : VmRg) : (vmMapRam caller mapstart incpgnum rg).Plain := by
  refine .call _ (.bind (allocPagesLoop_plain _ _) fun (retAlloc, frmLst) => ?_)
  dsimp only
  split
  · trivial
  · split
    · trivial
    · exact onMemory_plain _

theorem incVmaLimit_plain (vmaid : CInt) (incSz : Addr) : (incVmaLimit s caller vmaid incSz).Plain := by
  refine .bind (lift_plain _) fun request => ?_
  cases request with
  | none => trivial
  | some request =>
    refine .bind (vmMapRam_plain _ _ _) fun (mapped, _) => ?_
    dsimp only
    split
    · trivial
    · exact onMemory_plain _

theorem sysMemmap_plain (pid : CInt) (regs : ScRegs) : (sysMemmap s pid regs).Plain := by
  refine .bind (lift_plain _) fun found => ?_
  cases found with
  | none => trivial
  | some found =>
    dsimp only
    split
    · exact onMemory_plain _
    · split
      · exact .bind (incVmaLimit_plain _ _) fun _ => trivial
      · split
        · exact .bind (mmSwapPage_plain _ _) fun _ => trivial
        · split
          · exact onMemory_plain _
          · split
            · exact onMemory_plain _
            · trivial

theorem syscall_plain (pid nr : CInt) (regs : ScRegs) : (syscall s pid nr regs).Plain := by
  unfold syscall
  split
  · exact sysMemmap_plain pid regs
  · trivial

theorem memmap_plain (regs : ScRegs) : (memmap caller regs).Plain :=
  .bind look_plain fun _ => .bind (lift_plain _) fun pid => syscall_plain pid 17 regs

theorem evictVictim_plain : (evictVictim caller).Plain := by
  refine .bind findVictimPage_plain fun victim => ?_
  cases victim with
  | none => trivial
  | some vicpgn =>
    refine .bind look_plain fun s => .bind (getFreefp_plain .activeMswp) fun taken => ?_
    cases taken with
    | none => trivial
    | some vicSwpfpn => exact .bind (memmap_plain _) fun _ => onMemory_plain _

theorem pageIn_plain (pgn reqSwpfpn newfpn : Addr) : (pageIn caller pgn reqSwpfpn newfpn).Plain :=
  .bind (onMemory_plain _) fun _ => .bind (putFreefp_plain .activeMswp reqSwpfpn) fun _ => onMemory_plain _

theorem pgGetpage_plain (pgn : CInt) : (pgGetpage caller pgn).Plain := by
  refine .call _ (.bind look_plain fun s => ?_)
  dsimp only
  split
  · refine .bind (getFreefp_plain .mram) fun taken => ?_
    cases taken with
    | some newfpn => exact .bind (pageIn_plain _ _ _) fun _ => trivial
    | none =>
      refine .bind evictVictim_plain fun evicted => ?_
      cases evicted with
      | none => trivial
      | some newfpn => exact .bind (pageIn_plain _ _ _) fun _ => trivial
  · split <;> trivial

theorem pgGetval_plain (addr : CInt) : (pgGetval caller addr).Plain := by
  refine .bind (pgGetpage_plain _) fun (_, fpn) => ?_
  cases fpn with
  | none => trivial
  | some fpn => exact .bind (memmap_plain _) fun _ => trivial

theorem pgSetval_plain (addr : CInt) (value : Byte) : (pgSetval caller addr value).Plain := by
  refine .bind (pgGetpage_plain _) fun (_, fpn) => ?_
  cases fpn with
  | none => trivial
  | some fpn => exact .bind (memmap_plain _) fun _ => trivial

theorem read_plain (rgid : CInt) (offset : Addr) : (read s caller rgid offset).Plain := by
  refine .bind (lift_plain _) fun addr => ?_
  cases addr with
  | none => trivial
  | some addr =>
    refine .bind (pgGetval_plain addr) fun (code, _) => ?_
    dsimp only
    split <;> trivial

theorem libsyscall_plain (syscallIdx : CInt) (a1 a2 a3 : Addr) : (libsyscall s caller syscallIdx a1 a2 a3).Plain :=
  .bind (lift_plain _) fun _ => .bind (syscall_plain _ _ _) fun _ => trivial

theorem write_whole (vmaid rgid : CInt) (offset : Addr) (value : Byte) : (write caller vmaid rgid offset value).Whole := by
  refine .locked (.bind look_plain fun s => .bind (lift_plain _) fun addr => ?_)
  cases addr with
  | none => trivial
  | some addr => exact .bind (pgSetval_plain addr value) fun _ => trivial

theorem allocGrow_plain (vmaid : CInt) (area rgid : Nat) (size : Addr) : (allocGrow caller vmaid area rgid size).Plain :=
  .bind look_plain fun _ => .bind (lift_plain _) fun _ => .bind (memmap_plain _) fun _ => onMemory_plain _

theorem alloc_whole (vmaid rgid : CInt) (size : Addr) : (alloc caller vmaid rgid size).Whole := by
  unfold alloc
  split
  · exact .done _
  · refine .locked (.bind look_plain fun s => .bind (lift_plain _) fun found => ?_)
    cases found with
    | none => trivial
    | some found =>
      refine .bind (onMemory_plain _) fun start => ?_
      cases start with
      | none => exact allocGrow_plain vmaid found.1 rgid.toNat size
      | some start => trivial

theorem free_whole (vmaid rgid : CInt) : (free caller vmaid rgid).Whole := .locked (onMemory_plain _)

end Parts

section Instructions
variable [DecidableEq Proc]

/-- The instructions that come to what the CPUs share under `mmvm_lock` only. -/
def UnderLock (opcode : Opcode) : Prop := opcode ≠ .read ∧ opcode ≠ .syscall

theorem runInst_whole (s : Shared Proc) (proc : Proc) {ins : Inst} (under : UnderLock ins.opcode) : (runInst s proc ins).Whole := by
  unfold runInst
  cases op : ins.opcode with
  | «calc» => exact .done 0
  | alloc => exact (alloc_whole _ _ _).map Prod.fst
  | free => exact free_whole _ _
  | read => exact absurd op under.1
  | write => exact write_whole _ _ _ _
  | syscall => exact absurd op under.2

theorem runInst_fair (s : Shared Proc) (proc : Proc) (ins : Inst) : (runInst s proc ins).Fair := by
  by_cases under : UnderLock ins.opcode
  · exact .inr (runInst_whole s proc under)
  · refine .inl ?_
    unfold runInst
    cases op : ins.opcode with
    | read => exact .bind (read_plain _ _) fun _ => trivial
    | syscall => exact libsyscall_plain _ _ _ _
    | _ => exact absurd ⟨by rw [op]; simp, by rw [op]; simp⟩ under

/-- Such an instruction sees nothing of the state before it has the lock. -/
theorem runInst_same (s t : Shared Proc) (proc : Proc) {ins : Inst} (under : UnderLock ins.opcode) :
    runInst s proc ins = runInst t proc ins := by
  unfold runInst
  cases op : ins.opcode with
  | read => exact absurd op under.1
  | syscall => exact absurd op under.2
  | _ => rfl

end Instructions

section Cpus
variable {Id : Type} [DecidableEq Id] [DecidableEq Proc]

/-- An instruction that had its turn, with what it returned. -/
structure InstTurn (Id Proc : Type) where
  id : Id
  proc : Proc
  ins : Inst
  stat : Int

/-- The switch of `run` on a CPU that nobody interrupts. -/
def InstTurn.Runs (before : Shared Proc) (turn : InstTurn Id Proc) (after : Shared Proc) : Prop :=
  LamiaAtrium.runInst before.env before.k turn.proc turn.ins = .ok (turn.stat, after.k) ∧ after.env = before.env

def InstTurn.code (s : Shared Proc) (turn : InstTurn Id Proc) : Turn Id (Shared Proc) Fault Device Addr Fn Int where
  id := turn.id
  prog := runInst s turn.proc turn.ins
  result := turn.stat

/-- A step of a CPU that starts such instructions only; what the scheduler keeps stays as it is. -/
def LockedStep (m : Cpus Id Proc) (label : CpuLabel Id Proc) (after : Cpus Id Proc) : Prop :=
  Move (freeFpLists Proc) m label after ∧
    ∀ id prog, label = .started id prog → ∃ proc ins, UnderLock ins.opcode ∧ prog = runInst m.state proc ins

variable {first middle last : Cpus Id Proc} {labels earlier later : List (CpuLabel Id Proc)}

theorem LockedStep.whole {m after : Cpus Id Proc} {label : CpuLabel Id Proc} (taken : LockedStep m label after) :
    WholeMove (freeFpLists Proc) m label after := by
  refine ⟨taken.1, fun id prog started => ?_⟩
  obtain ⟨proc, ins, under, rfl⟩ := taken.2 id prog started
  exact runInst_whole m.state proc under

theorem LockedStep.instructions (run : Steps LockedStep first labels last) (s : Shared Proc) {id : Id} {prog : Code Proc Int}
    (member : prog ∈ startedBy id labels) : ∃ proc ins, UnderLock ins.opcode ∧ prog = runInst s proc ins := by
  refine run.history (fun labels _ => ∀ prog ∈ startedBy id labels, ∃ proc ins, UnderLock ins.opcode ∧ prog = runInst s proc ins)
    (fun _ none => by cases none) ?_ prog member
  intro labels before label after kept taken prog member
  rw [startedBy, List.filterMap_append, List.mem_append] at member
  rcases member with earlier | own
  · exact kept prog earlier
  · cases label with
    | started other begun =>
      obtain ⟨proc, ins, under, rfl⟩ := taken.2 other begun rfl
      have same : prog = runInst before.state proc ins := by
        by_cases mine : other = id
        · simpa [mine] using own
        · simp [mine] at own
      exact ⟨proc, ins, under, same.trans (runInst_same _ _ proc under)⟩
    | _ => simp at own

omit [DecidableEq Id] in
/-- The turn of an instruction is what `run` does with it in one go. -/
theorem InstTurn.runs {turn : InstTurn Id Proc} (under : UnderLock turn.ins.opcode) {s before after : Shared Proc}
    (ran : (turn.code s).Runs (freeFpLists Proc) before after) : turn.Runs before after := by
  have alone := runInst_yields before turn.proc turn.ins
  rw [← runInst_same s before turn.proc under] at alone
  have both := alone.symm.trans ran
  unfold InstTurn.Runs
  cases done : LamiaAtrium.runInst before.env before.k turn.proc turn.ins with
  | error fault =>
    rw [done] at both
    cases both
  | ok returned =>
    rw [done] at both
    obtain ⟨stat, same⟩ := Prod.mk.inj (Except.ok.inj both)
    change returned.1 = turn.stat at stat
    rw [← same, ← stat]
    exact ⟨rfl, rfl⟩

omit [DecidableEq Id] in
/-- Whole programs that are instructions: the turns are turns of instructions. -/
theorem InstTurn.of_turns {turns : List (Turn Id (Shared Proc) Fault Device Addr Fn Int)} {s before after : Shared Proc}
    (ran : Steps (Turn.Runs (freeFpLists Proc)) before turns after)
    (instructions : ∀ turn ∈ turns, ∃ proc ins, UnderLock ins.opcode ∧ turn.prog = runInst s proc ins) :
    ∃ own : List (InstTurn Id Proc), own.map (InstTurn.code s) = turns ∧ Steps InstTurn.Runs before own after := by
  induction ran with
  | refl => exact ⟨[], rfl, .refl _⟩
  | @tail middle after turns turn upto taken ih =>
    obtain ⟨own, same, run⟩ := ih fun other member => instructions other (List.mem_append_left _ member)
    obtain ⟨proc, ins, under, begun⟩ := instructions turn (List.mem_append_right _ (List.mem_singleton.mpr rfl))
    have code : InstTurn.code s ⟨turn.id, proc, ins, turn.result⟩ = turn := by
      obtain ⟨id, prog, result⟩ := turn
      cases begun
      rfl
    refine ⟨own ++ [⟨turn.id, proc, ins, turn.result⟩], ?_, .tail run (InstTurn.runs under (s := s) ?_)⟩
    · rw [List.map_append, List.map_singleton, same, code]
    · rw [code]
      exact taken

/-- CALC, ALLOC, FREE and WRITE on any number of CPUs: while `mmvm_lock` is free, the memory is
what these instructions make of it one after the other, each with the result it had on its CPU
and each CPU in its own order; and what had its turn before some moment stands before what
started later. -/
theorem locked_instructions_are_atomic (idle : Idle first) (run : Steps LockedStep first earlier middle)
    (rest : Steps LockedStep middle later last) (free : last.holder = none) :
    ∃ before after : List (InstTurn Id Proc), Steps InstTurn.Runs first.state (before ++ after) last.state ∧
      (∀ id, Accounted (before.map (InstTurn.code first.state)) earlier middle id) ∧
      ∀ id, Accounted ((before ++ after).map (InstTurn.code first.state)) (earlier ++ later) last id := by
  obtain ⟨before, after, ran, accounted, all⟩ := serializable idle (run.mono fun _ _ _ => LockedStep.whole)
    (rest.mono fun _ _ _ => LockedStep.whole) free
  obtain ⟨own, same, turns⟩ := InstTurn.of_turns (s := first.state) ran fun turn member =>
    LockedStep.instructions (run.trans rest) first.state (Accounted.started (all turn.id) member)
  obtain ⟨ownBefore, ownAfter, rfl, sameBefore, sameAfter⟩ := List.map_eq_append_iff.mp same
  refine ⟨ownBefore, ownAfter, turns, fun id => ?_, fun id => ?_⟩
  · rw [sameBefore]
    exact accounted id
  · rw [same]
    exact all id

/-- Whatever the CPUs execute, READ and the raw system call included: a CPU goes on, unless an
access of its own fails, or it waits for a CPU that gives up `mmvm_lock` without anyone's help. -/
theorem no_cpu_waits_for_good (idle : Idle first) (run : Steps CpuStep first labels last) {id : Id} {prog : Code Proc Int}
    {inside : List Fn} (runs : last.threads id = some (prog, inside)) : Unblocked (freeFpLists Proc) last id := by
  refine Standing.unblocked (run.invariant (Standing.of_idle idle) ?_) runs
  intro before label after standing taken
  refine standing.step taken.1 fun other begun started => ?_
  obtain ⟨proc, ins, rfl⟩ := taken.2 other begun started
  exact runInst_fair before.state proc ins

def freeFirst : Inst := { opcode := .free, arg0 := 0, arg1 := 0, arg2 := 0, arg3 := 0 }

/-- Both CPUs are to free register 0 of their processes, and one has the lock. -/
theorem readers_free : ∃ labels middle, Steps LockedStep readers labels middle ∧ middle.holder = some false ∧
    (∃ prog inside, middle.threads true = some (prog, inside)) ∧
    ∃ more last, Steps LockedStep middle more last ∧ last.holder = none ∧ more = [.silent, .silent] := by
  have started (m : Cpus Bool Bool) (id : Bool) (resting : m.threads id = none) :
      LockedStep m (.started id (runInst m.state id freeFirst)) (m.begin id id freeFirst) := by
    refine ⟨.start id _ resting, fun other prog same => ?_⟩
    cases same
    exact ⟨id, freeFirst, ⟨by decide, by decide⟩, rfl⟩
  have advanced {m after : Cpus Bool Bool} (moved : m.advance (freeFpLists Bool) false = some (.silent, after)) :
      LockedStep m .silent after := ⟨.advance false moved, fun _ _ same => by cases same⟩
  refine ⟨_, _, .tail (.tail (.single (started readers false rfl)) (started _ true rfl)) (advanced rfl), rfl, ⟨_, _, rfl⟩,
    _, _, .tail (.single (advanced rfl)) (advanced rfl), rfl, rfl⟩

theorem locked_instructions_are_atomic_readers : ∃ turns : List (InstTurn Bool Bool), ∃ last : Cpus Bool Bool,
    Steps InstTurn.Runs readers.state turns last.state ∧ last.holder = none := by
  obtain ⟨labels, middle, run, _, _, more, last, rest, free, _⟩ := readers_free
  obtain ⟨before, after, turns, _⟩ := locked_instructions_are_atomic ⟨rfl, fun _ => rfl⟩ run rest free
  exact ⟨before ++ after, last, turns, free⟩

theorem no_cpu_waits_for_good_readers : ∃ middle : Cpus Bool Bool, middle.holder = some false ∧
    Unblocked (freeFpLists Bool) middle true := by
  obtain ⟨labels, middle, run, holds, ⟨prog, inside, runs⟩, _⟩ := readers_free
  refine ⟨middle, holds, no_cpu_waits_for_good ⟨rfl, fun _ => rfl⟩ (run.mono fun before label after taken => ?_) runs⟩
  refine ⟨taken.1.step, fun id prog started => ?_⟩
  obtain ⟨proc, ins, _, same⟩ := taken.2 id prog started
  exact ⟨proc, ins, same⟩

end Cpus
end Interleaved
end LamiaAtrium
