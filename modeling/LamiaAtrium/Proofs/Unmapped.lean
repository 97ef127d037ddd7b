import LamiaAtrium.Proofs.SharedKernel

/-! What the programs of the whole system get of the memory. With `krnl->mm` null no heap grows,
so only `SYSMEM_MAP_OP` ever writes an entry; without it paging has nothing to do. -/

namespace LamiaAtrium
open Run

/-- System call 17 with `SYSMEM_MAP_OP`. -/
def Inst.CallsMap (ins : Inst) : Prop := ins.opcode = .syscall ∧ addrToInt ins.arg0 = 17#32 ∧ addrToInt ins.arg1 = sysmemMapOp

section Blank
variable {Proc : Type}

/-- Nothing is mapped, and no frame has been taken from these devices. -/
structure Krnl.Blank (mram activeMswp : Memphy) (k : Krnl Proc) : Prop where
  mm : k.mm = none
  entries : ∀ place, k.pte place = 0#32
  fifo : ∀ p, (k.mms p).fifoPgn = []
  /-- The one area that `init_mm` gave the process, not grown. -/
  areas : ∀ p, ∃ vmFreergList, (k.mms p).mmap = [{ loadedArea [] with vmFreergList }]
  ram : k.mram.freeFpList = mram.freeFpList
  swap : k.activeMswp.freeFpList = activeMswp.freeFpList

variable [DecidableEq Proc] {env : Env Proc} {mram activeMswp : Memphy} {k after : Krnl Proc} {caller : Proc} {code : Int}

namespace Krnl.Blank
variable (blank : k.Blank mram activeMswp)
include blank

/-- A change of the `mm` of one process that its page table does not show. -/
theorem setMm {mm : Mm} (table : SameTable (k.mms caller) mm) : (k.setMm caller mm).Blank mram activeMswp where
  mm := blank.mm
  entries place := by
    rw [pte_setMm_of_pgd k caller table.pgd]
    exact blank.entries place
  fifo p := by
    rw [Krnl.setMm_mms]
    split
    · rw [table.fifo, blank.fifo]
    · exact blank.fifo p
  areas p := by
    rw [Krnl.setMm_mms]
    split
    · obtain ⟨_, single⟩ := blank.areas caller
      obtain ⟨vmFreergList, same⟩ := table.single single
      exact ⟨vmFreergList, same⟩
    · exact blank.areas p
  ram := blank.ram
  swap := blank.swap

theorem setUp (heap : List VmRg) : (k.setMm caller (initMm heap)).Blank mram activeMswp where
  mm := blank.mm
  entries place := by
    rw [Krnl.pte, Krnl.setMm_mms]
    split
    · exact pteAt_initPgd place.2
    · exact blank.entries place
  fifo p := by
    rw [Krnl.setMm_mms]
    split
    · rfl
    · exact blank.fifo p
  areas p := by
    rw [Krnl.setMm_mms]
    split
    · exact ⟨_, rfl⟩
    · exact blank.areas p
  ram := blank.ram
  swap := blank.swap

/-- No page can be had. -/
theorem pgGetpage (pgn : CInt) : pgGetpage env k caller pgn = .ok (-1, none, k) := by
  have entry : (k.mms caller).getEntry (intToAddr pgn) = 0#32 := by rw [getEntry_eq_pte, blank.entries]
  have absent : pagingPageSwapped 0#32 = false ∧ pagingPagePresent 0#32 = false := by decide
  rw [LamiaAtrium.pgGetpage]
  dsimp only
  rw [entry, if_neg (Bool.eq_false_iff.mp absent.1), if_neg (Bool.eq_false_iff.mp absent.2)]
  rfl

theorem libread {source : CInt} {offset : Addr} {word : CInt} (returned : libread env k caller source offset = .ok (code, word, after)) :
    code = -1 ∧ after = k := by
  obtain ⟨⟨val, data, last⟩, read, returned⟩ := Outcome.bind_eq_ok returned
  cases returned
  unfold LamiaAtrium.read at read
  split at read
  · obtain ⟨currg, _, read⟩ := Outcome.bind_eq_ok read
    split at read
    · cases read
      exact ⟨rfl, rfl⟩
    · dsimp only at read
      split at read
      · cases read
        exact ⟨rfl, rfl⟩
      · rw [pgGetval, blank.pgGetpage] at read
        cases read
        exact ⟨rfl, rfl⟩
  · cases read
    exact ⟨rfl, rfl⟩

theorem libwrite {data : Byte} {destination : CInt} {offset : Addr}
    (returned : libwrite env k caller data destination offset = .ok (code, after)) : after = k := by
  rcases write_effect returned with same | ⟨addr, result, access⟩
  · exact same
  · rw [pgSetval, blank.pgGetpage] at access
    cases access
    rfl

theorem call {pid : CInt} {regs : ScRegs} (effect : CallEffect env k pid regs after) (unmapped : addrToInt regs.a1 ≠ sysmemMapOp) :
    after.Blank mram activeMswp := by
  cases effect with
  | nothing => exact blank
  | map _ _ op => exact absurd op unmapped
  | inc _ _ _ _ _ grown =>
    rw [incVmaLimit_null blank.mm] at grown
    cases grown
  | swap _ _ _ _ swapped =>
    obtain ⟨⟨src, dst⟩, copied, same⟩ := Outcome.bind_eq_ok swapped
    cases same
    obtain ⟨rfl, rewritten⟩ := swapCpPage_rewritten copied
    exact ⟨blank.mm, blank.entries, blank.fifo, blank.areas, blank.ram, rewritten.freeFpList.trans blank.swap⟩
  | store _ _ _ _ _ _ written =>
    exact ⟨blank.mm, blank.entries, blank.fifo, blank.areas, (Memphy.write_rewritten written).freeFpList.trans blank.ram, blank.swap⟩

theorem libsyscall {nr : CInt} {a1 a2 a3 : Addr} (returned : libsyscall env k caller nr a1 a2 a3 = .ok (code, after))
    (unmapped : ¬(nr = 17#32 ∧ addrToInt a1 = sysmemMapOp)) : after.Blank mram activeMswp := by
  obtain ⟨pid, _, returned⟩ := Outcome.bind_eq_ok returned
  obtain ⟨⟨_, last, final⟩, called, returned⟩ := Outcome.bind_eq_ok returned
  cases returned
  by_cases memmap : nr = 17#32
  · exact blank.call (syscall_effect called) fun op => unmapped ⟨memmap, op⟩
  · rw [syscall, if_neg memmap] at called
    cases called
    exact blank

/-- An ALLOC that comes back has changed the regions of its process, at most. -/
theorem liballoc {size : Addr} {regIndex : CInt} (returned : liballoc env k caller size regIndex = .ok (code, after)) :
    after.Blank mram activeMswp ∧ after.mram = k.mram ∧ after.activeMswp = k.activeMswp := by
  obtain ⟨⟨_, _, final⟩, allocated, returned⟩ := Outcome.bind_eq_ok returned
  cases returned
  rcases alloc_effect allocated with ⟨mm, table, rfl, _⟩ | ⟨mm, pid, result, regs, grown, last, _, _, _, table, _, called, kept, rfl⟩
  · exact ⟨blank.setMm table, rfl, rfl⟩
  · have start := blank.setMm table
    rcases syscall_answered called with ⟨_, same⟩ | ⟨other, found⟩
    · cases same
      exact ⟨start.setMm kept, rfl, rfl⟩
    · rw [syscall_inc found, incVmaLimit_null start.mm] at called
      cases called

theorem libfree {regIndex : CInt} (returned : libfree k caller regIndex = .ok (code, after)) :
    after.Blank mram activeMswp ∧ after.mram = k.mram ∧ after.activeMswp = k.activeMswp := by
  obtain ⟨mm, table, rfl⟩ := free_effect returned
  exact ⟨blank.setMm table, rfl, rfl⟩

theorem runInst {ins : Inst} (returned : runInst env k caller ins = .ok (code, after)) (unmapped : ¬ins.CallsMap) :
    after.Blank mram activeMswp := by
  rw [LamiaAtrium.runInst] at returned
  cases opcode : ins.opcode <;> rw [opcode] at returned
  case «calc» =>
    cases returned
    exact blank
  case alloc => exact (blank.liballoc returned).1
  case free => exact (blank.libfree returned).1
  case read =>
    obtain ⟨⟨_, word, last⟩, read, returned⟩ := Outcome.bind_eq_ok returned
    cases returned
    rw [(blank.libread read).2]
    exact blank
  case write =>
    rw [blank.libwrite returned]
    exact blank
  case syscall => exact blank.libsyscall returned fun called => unmapped ⟨opcode, called⟩

end Krnl.Blank
end Blank

section Runs
variable {cfg : Config} {labels : List (Thread cfg.numCpus × Event)} {s after : State cfg.numCpus}

/-- Each CPU executes an instruction of its process. -/
def State.RunsText (cfg : Config) (s : State cfg.numCpus) : Prop :=
  ∀ id ins, (s.cpus id).point = .execute ins → ∃ p, (s.cpus id).proc = some p ∧ ins ∈ cfg.text p

/-- Only a fetch leads to an instruction. -/
theorem Move.fetch {id : Fin cfg.numCpus} {event : Event} {ins : Inst} (move : Move cfg s id event after)
    (point : (after.cpus id).point = .execute ins) :
    ∃ p pc, event = .fetched p pc ∧ (s.cpus id).point = .run ∧ (s.cpus id).proc = some p ∧ (after.cpus id).proc = some p ∧
      s.pcbs p = .live pc ∧ (cfg.text p)[pc]? = some ins ∧ after.pcbs = Function.update s.pcbs p (.live (pc + 1)) := by
  cases move with
  | fetched p pc _ run holds live here =>
    rw [State.setCpu_same] at point ⊢
    cases point
    exact ⟨p, pc, rfl, run, holds, holds, live, here, rfl⟩
  | checked =>
    rw [State.setCpu_same] at point
    dsimp only at point
    split at point
    · cases point
    · split at point <;> cases point
  | loaded result =>
    rw [State.setCpu_same] at point
    cases result <;> cases point
  | vacant =>
    rw [State.setCpu_same] at point
    dsimp only at point
    split at point <;> cases point
  | stopped here =>
    rw [here] at point
    cases point
  | _ =>
    rw [State.setCpu_same] at point
    cases point

theorem State.RunsText.step {label : Thread cfg.numCpus × Event} (runs : s.RunsText cfg) (taken : SystemStep cfg s label after) :
    after.RunsText cfg := by
  intro other ins point
  obtain ⟨thread, event⟩ := label
  by_cases mine : thread = .cpu other
  · subst mine
    obtain ⟨p, pc, _, _, _, holds, _, here, _⟩ := (cpuStep_move taken).fetch point
    exact ⟨p, holds, List.mem_of_getElem? here⟩
  · have kept := (threadStep_elsewhere taken).1 other mine
    rw [kept] at point ⊢
    exact runs other ins point

/-- An instruction that a CPU executes is one of the program files. -/
theorem State.RunsText.given {id : Fin cfg.numCpus} {ins : Inst} (runs : s.RunsText cfg) (point : (s.cpus id).point = .execute ins) :
    ∃ p, (s.cpus id).proc = some p ∧ ∃ line ∈ cfg.processes, ins ∈ line.program.text := by
  obtain ⟨p, holding, member⟩ := runs id ins point
  refine ⟨p, holding, ?_⟩
  unfold Config.text at member
  cases line : cfg.processes[p]? with
  | none =>
    rw [line] at member
    exact (List.not_mem_nil member).elim
  | some line' =>
    rw [line] at member
    exact ⟨line', List.mem_of_getElem? line, member⟩

/-- The memory of the system stays blank as long as no program makes a map call. -/
theorem blank_of_run (run : Steps (SystemStep cfg) (boot cfg) labels s)
    (unmapped : ∀ line ∈ cfg.processes, ∀ ins ∈ line.program.text, ¬ins.CallsMap) :
    s.RunsText cfg ∧ s.mem.Blank cfg.mram cfg.activeMswp := by
  have initial : (boot cfg).RunsText cfg ∧ (boot cfg).mem.Blank cfg.mram cfg.activeMswp :=
    ⟨fun _ _ point => (by cases point), rfl, fun place => pteAt_initPgd place.2, fun _ => rfl, fun _ => ⟨_, rfl⟩, rfl, rfl⟩
  refine @Steps.invariant _ _ _ _ _ _ (fun s => s.RunsText cfg ∧ s.mem.Blank cfg.mram cfg.activeMswp) run initial ?_
  rintro before label last ⟨runs, blank⟩ taken
  refine ⟨runs.step taken, ?_⟩
  have effect := taken.memory
  generalize last.mem = mem at effect ⊢
  generalize label.2 = event at effect
  cases effect with
  | kept => exact blank
  | setUp i _ _ => exact blank.setUp _
  | executed id p ins stat _ point busy ran =>
    obtain ⟨q, _, line, listed, member⟩ := runs.given point
    exact blank.runInst ran (unmapped line listed ins member)

/-- If no program makes a map call, then in every reachable state of the system no page of
any process is mapped, no heap has grown, no frame of a device has been taken, every READ
fails, and no ALLOC, FREE, READ or WRITE that comes back changes a device. -/
theorem nothing_is_ever_mapped (run : Steps (SystemStep cfg) (boot cfg) labels s)
    (unmapped : ∀ line ∈ cfg.processes, ∀ ins ∈ line.program.text, ¬ins.CallsMap) :
    s.mem.Blank cfg.mram cfg.activeMswp ∧
    ∀ p ins code after, runInst (s.env cfg) s.mem p ins = .ok (code, after) →
      (ins.opcode = .read → code = -1 ∧ after = s.mem) ∧ (ins.opcode = .write → after = s.mem) ∧
      (ins.opcode = .alloc ∨ ins.opcode = .free → after.mram = s.mem.mram ∧ after.activeMswp = s.mem.activeMswp) := by
  have holds := blank_of_run run unmapped
  refine ⟨holds.2, ?_⟩
  intro p ins code after returned
  rw [runInst] at returned
  refine ⟨?_, ?_, ?_⟩
  · intro opcode
    rw [opcode] at returned
    obtain ⟨⟨_, word, last⟩, read, returned⟩ := Outcome.bind_eq_ok returned
    cases returned
    exact holds.2.libread read
  · intro opcode
    rw [opcode] at returned
    exact holds.2.libwrite returned
  · rintro (opcode | opcode) <;> rw [opcode] at returned
    · exact (holds.2.liballoc returned).2
    · exact (holds.2.libfree returned).2

/-- A process that writes to a register and reads it, with four free frames. -/
def oneWriteOneRead : Config :=
  { fourFrames with
    processes := [{
      program := {
        priority := 0
        text := [{ opcode := .write, arg0 := 7, arg1 := 0, arg2 := 0, arg3 := 0 }, { opcode := .read, arg0 := 0, arg1 := 0, arg2 := 0, arg3 := 0 }]
        size_lt := by decide }
      prio := 0 }]
    processes_lt := by decide }

theorem nothing_is_ever_mapped_oneWriteOneRead : ∃ labels s, Steps (SystemStep oneWriteOneRead) (boot oneWriteOneRead) labels s ∧
    s.pcbs 0 = .live 1 ∧ s.mem.Blank oneWriteOneRead.mram oneWriteOneRead.activeMswp ∧
    ∀ code after, runInst (s.env oneWriteOneRead) s.mem 0 { opcode := .read, arg0 := 0, arg1 := 0, arg2 := 0, arg3 := 0 } = .ok (code, after) →
      code = -1 := by
  have ran : Steps (SystemStep oneWriteOneRead) (boot oneWriteOneRead) _ _ :=
    runThreads_steps (rfl : runThreads oneWriteOneRead (boot oneWriteOneRead)
      ([.loader, .loader] ++ List.replicate 6 (.cpu ⟨0, by decide⟩)) = _)
  have plain : ∀ line ∈ oneWriteOneRead.processes, ∀ ins ∈ line.program.text, ¬ins.CallsMap := by
    intro line member ins inside called
    rw [List.mem_singleton.mp member] at inside
    rcases List.mem_cons.mp inside with rfl | inside
    · cases called.1
    · rw [List.mem_singleton.mp inside] at called
      cases called.1
  obtain ⟨blank, fails⟩ := nothing_is_ever_mapped ran plain
  exact ⟨_, _, ran, rfl, blank, fun code after returned => ((fails 0 _ code after returned).1 rfl).1⟩

end Runs
end LamiaAtrium
