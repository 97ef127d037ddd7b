import LamiaAtrium.Interleaved
import LamiaAtrium.Proofs.Instructions

/-! The lock discipline of `mmvm_lock`. `__alloc`, `__free` and `__write` reach the free lists
with the lock; `__read` and the raw system call reach them without. -/

namespace LamiaAtrium
open Locking Run
variable {Proc : Type}

namespace Interleaved

section Parts

/-- A change of memory that leaves both free lists as they are. -/
def Quiet (f : Shared Proc → Outcome (α × Krnl Proc)) : Prop :=
  ∀ s result k, f s = .ok (result, k) →
    k.mram.freeFpList = s.k.mram.freeFpList ∧ k.activeMswp.freeFpList = s.k.activeMswp.freeFpList

theorem read_quiet {found : Proc} {addr : Addr} {regs : ScRegs} : Quiet fun s : Shared Proc => do
    s.env.callerKrnl found
    let (_, mram, value) ← s.k.mram.read addr s.env.uninit
    return (((0 : Int), { regs with a3 := value.signExtend 64 }), { s.k with mram }) := by
  intro s result k ran
  obtain ⟨_, _, ran⟩ := Outcome.bind_eq_ok ran
  obtain ⟨⟨_, mram, _⟩, read, same⟩ := Outcome.bind_eq_ok ran
  cases same
  exact ⟨congrArg Memphy.freeFpList (Memphy.read_same read), rfl⟩

theorem write_quiet {found : Proc} {addr : Addr} {value : Byte} {regs : ScRegs} : Quiet fun s : Shared Proc => do
    s.env.callerKrnl found
    let (_, mram) ← s.k.mram.write addr value
    return (((0 : Int), regs), { s.k with mram }) := by
  intro s result k ran
  obtain ⟨_, _, ran⟩ := Outcome.bind_eq_ok ran
  obtain ⟨⟨_, mram⟩, written, same⟩ := Outcome.bind_eq_ok ran
  cases same
  exact ⟨(Memphy.write_rewritten written).freeFpList, rfl⟩

theorem Quiet.lists {f : Shared Proc → Outcome (α × Krnl Proc)} (quiet : Quiet f) (s : Shared Proc) (result : α) (after : Shared Proc)
    (ran : ((f s).map fun (result, k) => (result, { s with k })) = .ok (result, after)) :
    (freeFpLists Proc).get after = (freeFpLists Proc).get s := by
  cases done : f s with
  | error fault =>
    rw [done] at ran
    cases ran
  | ok pair =>
    rw [done] at ran
    cases ran
    obtain ⟨ram, swap⟩ := quiet s pair.1 pair.2 done
    funext device
    cases device with
    | mram => exact ram
    | activeMswp => exact swap

theorem onMemory_inside {f : Shared Proc → Outcome (α × Krnl Proc)} (quiet : Quiet f) : (onMemory f).Inside (freeFpLists Proc) :=
  .access quiet.lists

theorem onMemory_outside {f : Shared Proc → Outcome (α × Krnl Proc)} (quiet : Quiet f) : (onMemory f).Outside (freeFpLists Proc) :=
  .access quiet.lists

theorem lift_inside (outcome : Outcome α) : (lift outcome : Code Proc α).Inside (freeFpLists Proc) := by
  cases outcome with
  | ok result => exact .done result
  | error fault => exact fun _ _ => trivial

theorem look_inside : (look : Code Proc (Shared Proc)).Inside (freeFpLists Proc) := by
  refine .access fun s result after ran => ?_
  cases ran
  rfl

theorem getFreefp_inside (device : Device) : (getFreefp device : Code Proc (Option Addr)).Inside (freeFpLists Proc) :=
  .call _ (.takeFirst device)

theorem putFreefp_inside (device : Device) (fpn : Addr) : (putFreefp device fpn : Code Proc Unit).Inside (freeFpLists Proc) :=
  .call _ (.giveBack device fpn)

theorem returnFrames_inside (frmLst : List Addr) : (returnFrames frmLst : Code Proc Unit).Inside (freeFpLists Proc) := by
  induction frmLst with
  | nil => exact .done ()
  | cons fpn frmLst ih => exact .bind (putFreefp_inside .mram fpn) fun _ => ih

theorem allocPagesLoop_inside (left : Nat) (frmLst : List Addr) :
    (allocPagesLoop left frmLst : Code Proc (Addr × List Addr)).Inside (freeFpLists Proc) := by
  induction left generalizing frmLst with
  | zero => exact .done _
  | succ left ih =>
    refine .bind (getFreefp_inside .mram) fun taken => ?_
    cases taken with
    | some fpn => exact ih (fpn :: frmLst)
    | none => exact .bind (returnFrames_inside frmLst) fun _ => .done _

theorem mmSwapPage_inside (vicfpn swpfpn : Addr) : (mmSwapPage vicfpn swpfpn : Code Proc Unit).Inside (freeFpLists Proc) := by
  refine .call _ (onMemory_inside fun s result k ran => ?_)
  obtain ⟨swapped, ran, same⟩ := Outcome.bind_eq_ok ran
  cases same
  obtain ⟨⟨mram, activeMswp⟩, copied, same⟩ := Outcome.bind_eq_ok ran
  cases same
  obtain ⟨source, target⟩ := swapCpPage_rewritten copied
  exact ⟨congrArg Memphy.freeFpList source, target.freeFpList⟩

variable [DecidableEq Proc] {s : Shared Proc} {caller : Proc}

theorem findVictimPage_inside : (findVictimPage caller).Inside (freeFpLists Proc) := by
  refine .call _ (onMemory_inside fun s result k ran => ?_)
  split at ran <;> cases ran <;> exact ⟨rfl, rfl⟩

theorem vmMapRam_inside (mapstart : Addr) (incpgnum : CInt) (rg : VmRg) :
    (vmMapRam caller mapstart incpgnum rg).Inside (freeFpLists Proc) := by
  refine .call _ (.bind (allocPagesLoop_inside _ _) fun (retAlloc, frmLst) => ?_)
  dsimp only
  split
  · exact .done _
  · split
    · exact .done _
    · refine onMemory_inside fun s result k ran => ?_
      cases ran
      exact ⟨rfl, rfl⟩

theorem incVmaLimit_inside (vmaid : CInt) (incSz : Addr) : (incVmaLimit s caller vmaid incSz).Inside (freeFpLists Proc) := by
  refine .bind (lift_inside _) fun request => ?_
  cases request with
  | none => exact .done _
  | some request =>
    refine .bind (vmMapRam_inside _ _ _) fun (mapped, _) => ?_
    dsimp only
    split
    · exact .done _
    · refine onMemory_inside fun s result k ran => ?_
      cases ran
      exact ⟨rfl, rfl⟩

theorem sysMemmap_inside (pid : CInt) (regs : ScRegs) : (sysMemmap s pid regs).Inside (freeFpLists Proc) := by
  refine .bind (lift_inside _) fun found => ?_
  cases found with
  | none => exact .done _
  | some found =>
    dsimp only
    split
    · refine onMemory_inside fun s result k ran => ?_
      cases ran
      exact ⟨rfl, rfl⟩
    · split
      · exact .bind (incVmaLimit_inside _ _) fun _ => .done _
      · split
        · exact .bind (mmSwapPage_inside _ _) fun _ => .done _
        · split
          · exact onMemory_inside read_quiet
          · split
            · exact onMemory_inside write_quiet
            · exact .done _

theorem memmap_inside (regs : ScRegs) : (memmap caller regs).Inside (freeFpLists Proc) := by
  refine .bind look_inside fun s => .bind (lift_inside _) fun pid => ?_
  exact sysMemmap_inside pid regs

theorem evictVictim_inside : (evictVictim caller).Inside (freeFpLists Proc) := by
  refine .bind findVictimPage_inside fun victim => ?_
  cases victim with
  | none => exact .done _
  | some vicpgn =>
    refine .bind look_inside fun s => .bind (getFreefp_inside .activeMswp) fun taken => ?_
    cases taken with
    | none => exact .done _
    | some vicSwpfpn =>
      refine .bind (memmap_inside _) fun _ => onMemory_inside fun s result k ran => ?_
      cases ran
      exact ⟨rfl, rfl⟩

theorem pageIn_inside (pgn reqSwpfpn newfpn : Addr) : (pageIn caller pgn reqSwpfpn newfpn).Inside (freeFpLists Proc) := by
  refine .bind (onMemory_inside fun s result k ran => ?_) fun _ => .bind (putFreefp_inside .activeMswp reqSwpfpn) fun _ =>
    onMemory_inside fun s result k ran => ?_
  · obtain ⟨⟨activeMswp, mram⟩, copied, same⟩ := Outcome.bind_eq_ok ran
    cases same
    obtain ⟨source, target⟩ := swapCpPage_rewritten copied
    exact ⟨target.freeFpList, congrArg Memphy.freeFpList source⟩
  · cases ran
    exact ⟨rfl, rfl⟩

theorem pgGetpage_inside (pgn : CInt) : (pgGetpage caller pgn).Inside (freeFpLists Proc) := by
  refine .call _ (.bind look_inside fun s => ?_)
  dsimp only
  split
  · refine .bind (getFreefp_inside .mram) fun taken => ?_
    cases taken with
    | some newfpn => exact .bind (pageIn_inside _ _ _) fun _ => .done _
    | none =>
      refine .bind evictVictim_inside fun evicted => ?_
      cases evicted with
      | none => exact .done _
      | some newfpn => exact .bind (pageIn_inside _ _ _) fun _ => .done _
  · split
    · exact .done _
    · exact .done _

theorem pgSetval_inside (addr : CInt) (value : Byte) : (pgSetval caller addr value).Inside (freeFpLists Proc) := by
  refine .bind (pgGetpage_inside _) fun (_, fpn) => ?_
  cases fpn with
  | none => exact .done _
  | some fpn => exact .bind (memmap_inside _) fun _ => .done _

theorem allocFree_inside (vmaid rgid : CInt) (size : Addr) : (allocFree caller vmaid rgid size).Inside (freeFpLists Proc) := by
  refine onMemory_inside fun s result k ran => ?_
  obtain ⟨⟨code, chosen, mm⟩, _, ran⟩ := Outcome.bind_eq_ok ran
  dsimp only at ran
  split at ran
  · obtain ⟨mm, _, same⟩ := Outcome.bind_eq_ok ran
    cases same
    exact ⟨rfl, rfl⟩
  · cases ran
    exact ⟨rfl, rfl⟩

theorem allocGrow_inside (vmaid : CInt) (area rgid : Nat) (size : Addr) :
    (allocGrow caller vmaid area rgid size).Inside (freeFpLists Proc) := by
  refine .bind look_inside fun s => .bind (lift_inside _) fun _ => .bind (memmap_inside _) fun _ =>
    onMemory_inside fun s result k ran => ?_
  obtain ⟨mm, _, same⟩ := Outcome.bind_eq_ok ran
  cases same
  exact ⟨rfl, rfl⟩

end Parts

section Calls
variable [DecidableEq Proc] {s : Shared Proc} {caller : Proc}

theorem alloc_outside (vmaid rgid : CInt) (size : Addr) : (alloc caller vmaid rgid size).Outside (freeFpLists Proc) := by
  unfold alloc
  split
  · exact .done _
  · refine .locked (.bind look_inside fun s => .bind (lift_inside _) fun found => ?_)
    cases found with
    | none => exact .done _
    | some found =>
      refine .bind (allocFree_inside _ _ _) fun chosen => ?_
      cases chosen with
      | some start => exact .done _
      | none => exact allocGrow_inside _ _ _ _

theorem free_outside (vmaid rgid : CInt) : (free caller vmaid rgid).Outside (freeFpLists Proc) := by
  refine .locked (onMemory_inside fun s result k ran => ?_)
  obtain ⟨mm, _, same⟩ := free_effect ran
  rw [same]
  exact ⟨rfl, rfl⟩

theorem write_outside (vmaid rgid : CInt) (offset : Addr) (value : Byte) :
    (write caller vmaid rgid offset value).Outside (freeFpLists Proc) := by
  refine .locked (.bind look_inside fun s => .bind (lift_inside _) fun addr => ?_)
  cases addr with
  | none => exact .done _
  | some addr => exact .bind (pgSetval_inside _ _) fun _ => .done _

/-- A raw call that neither copies a page nor is let through to `vm_map_ram`. -/
theorem sysMemmap_outside {pid : CInt} {regs : ScRegs} (covered : ∀ found, s.env.findCaller pid = .ok (some found) →
    addrToInt regs.a1 ≠ sysmemSwpOp ∧ (addrToInt regs.a1 = sysmemIncOp →
      ∀ request, growth s.k (addrToInt regs.a2) (addrParam regs.a3) ≠ .ok (some request))) :
    (sysMemmap s pid regs).Outside (freeFpLists Proc) := by
  unfold sysMemmap
  cases lookup : s.env.findCaller pid with
  | error fault => exact fun _ => trivial
  | ok found =>
    cases found with
    | none => exact .done _
    | some found =>
      obtain ⟨noCopy, refused⟩ := covered found lookup
      change Prog.Outside (freeFpLists Proc) (if _ then _ else _)
      split
      · refine onMemory_outside fun s result k ran => ?_
        cases ran
        exact ⟨rfl, rfl⟩
      · split
        · next grows =>
          refine Prog.Outside.bind (?_ : (incVmaLimit _ _ _ _).Outside _) fun _ => .done _
          unfold incVmaLimit
          cases asked : growth s.k (addrToInt regs.a2) (addrParam regs.a3) with
          | error fault => exact fun _ => trivial
          | ok request =>
            cases request with
            | none => exact .done _
            | some request => exact absurd asked (refused grows request)
        · split
          · exact onMemory_outside read_quiet
          · split
            · exact onMemory_outside write_quiet
            · exact .done _

/-- The instruction gets to a function that needs the lock without having it: a READ that
passes its checks, and a raw call 17 that copies a page or is let through to `vm_map_ram`. -/
def Exposed (s : Shared Proc) (proc : Proc) (ins : Inst) : Prop :=
  match ins.opcode with
  | .read => ∃ addr, readAddr (s.k.mms proc) (addrToInt ins.arg0) ins.arg1 = .ok (some addr)
  | .syscall =>
    addrToInt ins.arg0 = 17#32 ∧ ∃ pid found, s.env.callerPid proc = .ok pid ∧ s.env.findCaller pid = .ok (some found) ∧
      (addrToInt ins.arg1 = sysmemSwpOp ∨
        addrToInt ins.arg1 = sysmemIncOp ∧ ∃ request, growth s.k (addrToInt ins.arg2) (addrParam ins.arg3) = .ok (some request))
  | _ => False

theorem exposed_enters {proc : Proc} {ins : Inst} (exposed : Exposed s proc ins) : (runInst s proc ins).Enters := by
  unfold Exposed at exposed
  unfold runInst
  split at exposed
  · next op =>
    obtain ⟨addr, checked⟩ := exposed
    rw [op]
    refine Prog.Enters.bind ?_ _
    rw [read, checked]
    exact (Prog.Enters.call _ _).bind _ |>.bind _
  · next op =>
    obtain ⟨nr, pid, found, known, lookup, memop⟩ := exposed
    rw [op]
    dsimp only
    rw [libsyscall, known]
    refine Prog.Enters.bind (?_ : (syscall s pid (addrToInt ins.arg0) _).Enters) _
    rw [syscall, if_pos nr, sysMemmap, lookup]
    rcases memop with copies | ⟨grows, request, accepted⟩
    · change (if _ then _ else _ : Code Proc _).Enters
      dsimp only
      rw [copies]
      exact (Prog.Enters.call _ _).bind _
    · change (if _ then _ else _ : Code Proc _).Enters
      dsimp only
      rw [grows]
      refine Prog.Enters.bind (?_ : (incVmaLimit _ _ _ _).Enters) _
      rw [incVmaLimit, accepted]
      exact (Prog.Enters.call _ _).bind _
  · exact exposed.elim

theorem unexposed_outside {proc : Proc} {ins : Inst} (covered : ¬Exposed s proc ins) :
    (runInst s proc ins).Outside (freeFpLists Proc) := by
  unfold Exposed at covered
  unfold runInst
  cases op : ins.opcode with
  | «calc» => exact .done _
  | alloc => exact .bind (alloc_outside _ _ _) fun _ => .done _
  | free => exact free_outside _ _
  | write => exact write_outside _ _ _ _
  | read =>
    rw [op] at covered
    refine .bind ?_ fun _ => .done _
    unfold read
    cases checked : readAddr (s.k.mms proc) (addrToInt ins.arg0) ins.arg1 with
    | error fault => exact fun _ => trivial
    | ok addr =>
      cases addr with
      | none => exact .done _
      | some addr => exact absurd ⟨addr, checked⟩ covered
  | syscall =>
    rw [op] at covered
    unfold libsyscall
    cases known : s.env.callerPid proc with
    | error fault => exact fun _ => trivial
    | ok pid =>
      change Prog.Outside _ (syscall s pid (addrToInt ins.arg0) _ >>= _)
      refine .bind ?_ fun _ => .done _
      unfold syscall
      split
      · next nr =>
        refine sysMemmap_outside fun found lookup => ?_
        constructor
        · exact fun copies => covered ⟨nr, pid, found, known, lookup, .inl copies⟩
        · exact fun grows request accepted => covered ⟨nr, pid, found, known, lookup, .inr ⟨grows, request, accepted⟩⟩
      · exact .done _

end Calls

section Cpus
variable {Id : Type} [DecidableEq Id] [DecidableEq Proc]

/-- The CPUs of the machine with the state they share and the holder of `mmvm_lock`. -/
abbrev Cpus (Id Proc : Type) := Machine Id (Shared Proc) Fault Device Addr Fn Int

abbrev CpuLabel (Id Proc : Type) := Label Id (Shared Proc) Fault Device Addr Fn Int

/-- A step of the CPUs. What a CPU starts is some instruction of some process. -/
def CpuStep (m : Cpus Id Proc) (label : CpuLabel Id Proc) (after : Cpus Id Proc) : Prop :=
  Step (freeFpLists Proc) m label after ∧
    ∀ id prog, label = .started id prog → ∃ proc ins, prog = runInst m.state proc ins

/-- A step of the CPUs that starts no exposed instruction. -/
def CoveredStep (m : Cpus Id Proc) (label : CpuLabel Id Proc) (after : Cpus Id Proc) : Prop :=
  Step (freeFpLists Proc) m label after ∧
    ∀ id prog, label = .started id prog → ∃ proc ins, prog = runInst m.state proc ins ∧ ¬Exposed m.state proc ins

/-- The CPU is in a call of one of the functions that `mmvm_lock` is there for. -/
def IsInside (m : Cpus Id Proc) (id : Id) : Prop := ∃ prog fn outer, m.threads id = some (prog, fn :: outer)

structure LockProtects (m : Cpus Id Proc) : Prop where
  holds : ∀ id, IsInside m id → m.holder = some id
  alone : ∀ id other, IsInside m id → IsInside m other → id = other

/-- A frame is handed out no more often than it was free at first or was put back. -/
def HandsOutOnce (first : Cpus Id Proc) (labels : List (CpuLabel Id Proc)) (last : Cpus Id Proc) : Prop :=
  ∀ device fpn, (last.state.freeFpList device).count fpn + labels.countP (·.takes device fpn) =
    (first.state.freeFpList device).count fpn + labels.countP (·.gives device fpn)

def Cpus.begin (m : Cpus Id Proc) (id : Id) (proc : Proc) (ins : Inst) : Cpus Id Proc :=
  m.setThread id (some (runInst m.state proc ins, []))

variable {first last : Cpus Id Proc} {labels : List (CpuLabel Id Proc)}

omit [DecidableEq Id] [DecidableEq Proc] in
theorem LockProtects.of_guarded {m : Cpus Id Proc} (guarded : Guarded m) : LockProtects m := by
  have holds : ∀ id, IsInside m id → m.holder = some id := by
    intro id ⟨prog, fn, outer, runs⟩
    exact guarded id prog (fn :: outer) runs (by simp)
  exact ⟨holds, fun id other inside alsoInside => Option.some.inj ((holds id inside).symm.trans (holds other alsoInside))⟩

theorem CoveredStep.disciplined {m after : Cpus Id Proc} {label : CpuLabel Id Proc} (taken : CoveredStep m label after) :
    DisciplinedStep (freeFpLists Proc) m label after := by
  refine ⟨taken.1, fun id prog started => ?_⟩
  obtain ⟨proc, ins, rfl, covered⟩ := taken.2 id prog started
  exact unexposed_outside covered

theorem covered_run (idle : Idle first) (run : Steps CoveredStep first labels last) :
    Disciplined (freeFpLists Proc) last ∧ HandsOutOnce first labels last := by
  have steps := run.mono fun _ _ _ => CoveredStep.disciplined
  exact ⟨disciplined_run idle steps, fun device fpn => disciplined_count device fpn idle steps⟩

/-- An exposed instruction is inside after one more step, without the lock. -/
theorem exposed_breaks {m : Cpus Id Proc} {id : Id} {proc : Proc} {ins : Inst} (free : m.holder ≠ some id)
    (exposed : Exposed m.state proc ins) : ∃ labels after, Steps CoveredStep (m.begin id proc ins) labels after ∧ ¬LockProtects after := by
  obtain ⟨fn, next, enters⟩ := exposed_enters exposed
  have runs : (m.begin id proc ins).threads id = some (.enter fn next, []) := by
    rw [Cpus.begin, enters]
    exact Function.update_self ..
  refine ⟨_, _, .single ⟨.enter id fn next [] runs, fun id prog started => by cases started⟩, fun protects => free ?_⟩
  exact protects.holds id ⟨next, fn, [], Function.update_self ..⟩

/-- While no exposed instruction starts, whoever is inside a guarded function holds
`mmvm_lock`, and no frame is handed out twice; and the next start keeps this exactly if it
is not exposed. -/
theorem mmvm_lock_protects_iff (idle : Idle first) (run : Steps CoveredStep first labels last) :
    LockProtects last ∧ HandsOutOnce first labels last ∧ ∀ id proc ins, last.threads id = none →
      ((∀ more after, Steps CoveredStep (last.begin id proc ins) more after → LockProtects after ∧
          HandsOutOnce first (labels ++ .started id (runInst last.state proc ins) :: more) after) ↔
        ¬Exposed last.state proc ins) := by
  obtain ⟨disciplined, once⟩ := covered_run idle run
  refine ⟨.of_guarded disciplined.guarded, once, fun id proc ins resting => ⟨fun kept exposed => ?_, fun covered more after rest => ?_⟩⟩
  · have free : last.holder ≠ some id := by
      have fits := disciplined id
      rwa [resting] at fits
    obtain ⟨more, after, reached, broken⟩ := exposed_breaks free exposed
    exact broken (kept more after reached).1
  · have started : CoveredStep last (.started id (runInst last.state proc ins)) (last.begin id proc ins) := by
      refine ⟨.start id _ resting, fun other prog same => ?_⟩
      cases same
      exact ⟨proc, ins, rfl, covered⟩
    obtain ⟨disciplined, once⟩ := covered_run idle (run.trans (.cons started rest))
    exact ⟨.of_guarded disciplined.guarded, once⟩

/-- Two processes with page 0 swapped out, each about to read it, and one free frame. -/
def readers : Cpus Bool Bool where
  state := {
    k := {
      mm := none
      mram := { storage := fun _ => 0, maxsz := 256, rdmflg := true, cursor := 0, freeFpList := [0] }
      activeMswp := { storage := fun _ => 0, maxsz := 512, rdmflg := true, cursor := 0, freeFpList := [] }
      activeMswpId := 0
      mms := fun p =>
        { (initMm []).setSwap 0 0 (if p then 1 else 0) with symrgtbl := fun _ => { rgStart := 0, rgEnd := 256 } } }
    env := { pid := fun p => some (if p then 2 else 1), regs6 := fun _ => none, readyQueue := none, runningList := some [false, true], os := 0, uninit := 0 } }
  holder := none
  threads := fun _ => none

def writeByte : Inst := { opcode := .write, arg0 := 7, arg1 := 0, arg2 := 0, arg3 := 0 }

theorem mmvm_lock_protects_iff_writer : LockProtects (readers.begin false false writeByte) ∧
    HandsOutOnce readers [.started false (runInst readers.state false writeByte)] (readers.begin false false writeByte) := by
  have started : CoveredStep readers (.started false (runInst readers.state false writeByte)) (readers.begin false false writeByte) := by
    refine ⟨.start false _ rfl, fun other prog same => ?_⟩
    cases same
    exact ⟨false, writeByte, rfl, id⟩
  have protects := mmvm_lock_protects_iff ⟨rfl, fun _ => rfl⟩ (.single started)
  exact ⟨protects.1, protects.2.1⟩

def readByte : Inst := { opcode := .read, arg0 := 0, arg1 := 0, arg2 := 0, arg3 := 0 }

theorem start_step (m : Cpus Id Proc) (id : Id) (proc : Proc) (ins : Inst) (resting : m.threads id = none) :
    CpuStep m (.started id (runInst m.state proc ins)) (m.begin id proc ins) := by
  refine ⟨.start id _ resting, fun other prog same => ?_⟩
  cases same
  exact ⟨proc, ins, rfl⟩

theorem silent_step {m after : Cpus Id Proc} (taken : Step (freeFpLists Proc) m .silent after) : CpuStep m .silent after :=
  ⟨taken, fun id prog started => by cases started⟩

theorem take_step {m : Cpus Id Proc} (id : Id) {device : Device} {fpn : Addr} {rest : List Addr} {next : Code Proc Int} {inside : List Fn}
    (runs : m.threads id = some (.take device fpn rest next, inside)) :
    CpuStep m (.took id device fpn) ({ m with state := m.state.setFreeFpList device rest }.setThread id (some (next, inside))) :=
  ⟨.take id device fpn rest next inside runs, fun id prog started => by cases started⟩

/-- Both look at the list before either takes the frame. -/
theorem two_reads_share_a_frame : ∃ labels after, Idle readers ∧ Steps CpuStep readers labels after ∧
    ¬LockProtects after ∧ ¬HandsOutOnce readers labels after := by
  have looked := Steps.cons (start_step readers false false readByte rfl) <| .cons (start_step _ true true readByte rfl) <|
    .cons (silent_step (.enter false _ _ _ rfl)) <| .cons (silent_step (.enter true _ _ _ rfl)) <|
    .cons (silent_step (.act false _ _ _ _ rfl rfl)) <| .cons (silent_step (.act true _ _ _ _ rfl rfl)) <|
    .cons (silent_step (.enter false _ _ _ rfl)) <| .cons (silent_step (.enter true _ _ _ rfl)) <|
    .cons (silent_step (.peek false _ _ _ rfl)) <| .single (silent_step (.peek true _ _ _ rfl))
  have run := looked.trans <| .cons (take_step false rfl) <| .single (take_step true rfl)
  refine ⟨_, _, ⟨rfl, fun _ => rfl⟩, run, fun protects => ?_, fun once => ?_⟩
  · have holds := protects.holds false ⟨_, _, _, rfl⟩
    cases holds
  · have count : 0 + 2 = 1 + 0 := once .mram 0
    cases count

end Cpus
end Interleaved
end LamiaAtrium
