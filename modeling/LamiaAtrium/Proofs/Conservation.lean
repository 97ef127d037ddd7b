import LamiaAtrium.Proofs.Faults
import LamiaAtrium.Proofs.Reach

/-! What becomes of the frames of processes that have finished. `cpu_routine` frees the pcb and
nothing else, and nothing calls `free_pcb_memph`; but a process never holds a frame. With
`krnl->mm` null no heap grows, and the pages that `SYSMEM_MAP_OP` makes up for a process belong
to one that `__sys_memmap` finds from then on: a READ or WRITE that brings one in goes on to the
IO operation, which follows the wild pointer in `regs[6]`. -/

namespace LamiaAtrium
open Ownership Run

section Untaken
variable {Proc : Type}

/-- No frame has left the free lists of these devices, and an entry is empty or as
`SYSMEM_MAP_OP` makes it. -/
structure Krnl.Untaken (mram activeMswp : Memphy) (k : Krnl Proc) : Prop where
  mm : k.mm = none
  entries : ∀ place, k.pte place = 0#32 ∨ k.pte place = 0xdeadbeef#32
  fifo : ∀ p, (k.mms p).fifoPgn = []
  ram : k.mram.freeFpList = mram.freeFpList
  ramSize : k.mram.maxsz = mram.maxsz
  swap : k.activeMswp.freeFpList = activeMswp.freeFpList
  swapSize : k.activeMswp.maxsz = activeMswp.maxsz

variable [DecidableEq Proc] {env : Env Proc} {mram activeMswp : Memphy} {k after : Krnl Proc} {caller : Proc} {code : Int}

/-- System calls for the process find no pointer to the kernel in `regs[6]`, and one with a mapped
page is not missed by the search. -/
structure Env.Stops (env : Env Proc) (k : Krnl Proc) (caller : Proc) : Prop where
  unserved : ¬env.Serves caller
  answered : ∀ page, k.pte (caller, page) ≠ 0#32 → ¬env.Misses caller

/-- The entries that are not empty are old ones, or of the process that the search finds. -/
def MapsOnly (env : Env Proc) (caller : Proc) (k after : Krnl Proc) : Prop :=
  ∀ place, after.pte place ≠ 0#32 → k.pte place ≠ 0#32 ∨
    ∃ pid, env.callerPid caller = .ok pid ∧ env.findCaller pid = .ok (some place.1)

omit [DecidableEq Proc] in
theorem MapsOnly.of_pte (same : after.pte = k.pte) : MapsOnly env caller k after := fun _ mapped => .inl (same ▸ mapped)

namespace Krnl.Untaken
variable (untaken : k.Untaken mram activeMswp)
include untaken

/-- A change of the `mm` of one process that its page table does not show. -/
theorem setMm {mm : Mm} (table : SameTable (k.mms caller) mm) : (k.setMm caller mm).Untaken mram activeMswp where
  mm := untaken.mm
  entries place := by
    rw [pte_setMm_of_pgd k caller table.pgd]
    exact untaken.entries place
  fifo p := by
    rw [Krnl.setMm_mms]
    split
    · rw [table.fifo, untaken.fifo]
    · exact untaken.fifo p
  ram := untaken.ram
  ramSize := untaken.ramSize
  swap := untaken.swap
  swapSize := untaken.swapSize

theorem setUp (heap : List VmRg) : (k.setMm caller (initMm heap)).Untaken mram activeMswp where
  mm := untaken.mm
  entries place := by
    rw [Krnl.pte, Krnl.setMm_mms]
    split
    · exact .inl (pteAt_initPgd place.2)
    · exact untaken.entries place
  fifo p := by
    rw [Krnl.setMm_mms]
    split
    · rfl
    · exact untaken.fifo p
  ram := untaken.ram
  ramSize := untaken.ramSize
  swap := untaken.swap
  swapSize := untaken.swapSize

theorem mapOp (found : Proc) (addr : Addr) (pgnum : CInt) :
    (k.setMm found (vmapPgdMemset (k.mms found) addr pgnum)).Untaken mram activeMswp where
  mm := untaken.mm
  entries place := by
    rw [Krnl.pte, Krnl.setMm_mms]
    split
    · next same =>
      rw [vmapPgdMemset_pteAt]
      split
      · exact .inr rfl
      · rw [← same]
        exact untaken.entries place
    · exact untaken.entries place
  fifo p := by
    rw [Krnl.setMm_mms]
    split
    · rw [(vmapPgdMemset_frame _ addr pgnum).2.2, untaken.fifo]
    · exact untaken.fifo p
  ram := untaken.ram
  ramSize := untaken.ramSize
  swap := untaken.swap
  swapSize := untaken.swapSize

omit [DecidableEq Proc] in
/-- The devices got other bytes. -/
theorem rewritten {mram' activeMswp' : Memphy} (ram : k.mram.Rewritten mram') (swap : k.activeMswp.Rewritten activeMswp') :
    { k with mram := mram', activeMswp := activeMswp' }.Untaken mram activeMswp where
  mm := untaken.mm
  entries := untaken.entries
  fifo := untaken.fifo
  ram := ram.freeFpList.trans untaken.ram
  ramSize := ram.maxsz.trans untaken.ramSize
  swap := swap.freeFpList.trans untaken.swap
  swapSize := swap.maxsz.trans untaken.swapSize

/-- A page that cannot be had stays away, and so does every other: no FIFO has a page to evict. -/
theorem pgGetpage_unavailable {pgn : CInt} {fpn : Option CInt} (absent : ¬Available k caller pgn)
    (returned : pgGetpage env k caller pgn = .ok (code, fpn, after)) : after = k := by
  unfold pgGetpage at returned
  unfold Available at absent
  dsimp only at returned
  split at returned
  · next swapped =>
    rw [if_pos swapped] at absent
    have full : k.mram.freeFpList = [] := by_contra fun free => absent (.inl free)
    have victim : findVictimPage (k.mms caller) = none := by
      rw [findVictimPage, untaken.fifo]
      rfl
    rw [Memphy.getFreefp_nil full, evictVictim, victim] at returned
    cases returned
    rfl
  · next kept =>
    rw [if_neg kept] at absent
    rw [if_neg absent] at returned
    cases returned
    rfl

section Accesses
variable {addr : CInt} {value : Byte} {data : Option Byte}

omit untaken [DecidableEq Proc] in
theorem mapped_of_available {pgn : CInt} (available : Available k caller pgn) : ∃ page, k.pte (caller, page) ≠ 0#32 := by
  refine ⟨pageOf (intToAddr pgn), fun empty => not_available_of_empty ?_ available⟩
  rw [getEntry_eq_pte, empty]
  rfl

/-- An access that comes back found nothing mapped. -/
theorem pgGetval (stops : env.Stops k caller) (returned : pgGetval env k caller addr = .ok (code, data, after)) : after = k := by
  rcases pgGetval_cases returned with ⟨absent, _⟩ | ⟨available, missing, _⟩ | ⟨_, serves, _⟩
  · obtain ⟨_, _, fetched⟩ := pgGetval_effect returned
    exact untaken.pgGetpage_unavailable absent fetched
  · obtain ⟨page, mapped⟩ := mapped_of_available available
    exact absurd missing (stops.answered page mapped)
  · exact absurd serves stops.unserved

theorem pgSetval (stops : env.Stops k caller) (returned : pgSetval env k caller addr value = .ok (code, after)) : after = k := by
  rcases pgSetval_cases returned with ⟨absent, _⟩ | ⟨available, missing, _⟩ | ⟨_, serves, _⟩
  · rcases pgSetval_effect returned with ⟨_, _, fetched⟩ | ⟨serves, _⟩
    · exact untaken.pgGetpage_unavailable absent fetched
    · exact absurd serves stops.unserved
  · obtain ⟨page, mapped⟩ := mapped_of_available available
    exact absurd missing (stops.answered page mapped)
  · exact absurd serves stops.unserved

theorem libread {source word : CInt} {offset : Addr} (stops : env.Stops k caller)
    (returned : libread env k caller source offset = .ok (code, word, after)) : after = k := by
  obtain ⟨⟨_, byte, last⟩, read, returned⟩ := Outcome.bind_eq_ok returned
  cases returned
  rcases read_effect read with same | ⟨addr, got, byte, access⟩
  · exact same
  · exact untaken.pgGetval stops access

theorem libwrite {destination : CInt} {offset : Addr} (stops : env.Stops k caller)
    (returned : libwrite env k caller value destination offset = .ok (code, after)) : after = k := by
  rcases write_effect returned with same | ⟨addr, result, access⟩
  · exact same
  · exact untaken.pgSetval stops access

end Accesses

/-- An ALLOC that comes back has not grown anything. -/
theorem liballoc {size : Addr} {regIndex : CInt} (returned : liballoc env k caller size regIndex = .ok (code, after)) :
    ∃ mm, SameTable (k.mms caller) mm ∧ after = k.setMm caller mm := by
  obtain ⟨⟨_, _, final⟩, allocated, returned⟩ := Outcome.bind_eq_ok returned
  cases returned
  rcases alloc_effect allocated with ⟨mm, table, rfl, _⟩ | ⟨mm, pid, result, regs, grown, last, _, _, _, table, _, called, kept, rfl⟩
  · exact ⟨mm, table, rfl⟩
  · rcases syscall_answered called with ⟨_, same⟩ | ⟨other, found⟩
    · cases same
      rw [Krnl.setMm_same] at kept
      exact ⟨last, table.trans kept, setMm_setMm ..⟩
    · rw [syscall_inc found, incVmaLimit_null (untaken.setMm table).mm] at called
      cases called

/-- A system call of its own maps pages of the process that it finds, and takes no frame. -/
theorem libsyscall {nr : CInt} {a1 a2 a3 : Addr} (unreached : ∀ p, env.regs6 p ≠ some env.os)
    (returned : libsyscall env k caller nr a1 a2 a3 = .ok (code, after)) :
    after.Untaken mram activeMswp ∧ MapsOnly env caller k after := by
  obtain ⟨pid, known, returned⟩ := Outcome.bind_eq_ok returned
  obtain ⟨⟨_, last, final⟩, called, returned⟩ := Outcome.bind_eq_ok returned
  cases returned
  cases syscall_effect called with
  | nothing => exact ⟨untaken, .of_pte rfl⟩
  | map found here _ =>
    refine ⟨untaken.mapOp found _ _, fun place mapped => ?_⟩
    by_cases own : place.1 = found
    · exact .inr ⟨pid, known, own ▸ here⟩
    · rw [Krnl.pte, Krnl.setMm_mms, if_neg own] at mapped
      exact .inl mapped
  | inc _ _ _ _ _ grown =>
    rw [incVmaLimit_null untaken.mm] at grown
    cases grown
  | swap _ _ _ _ swapped =>
    obtain ⟨⟨src, dst⟩, copied, same⟩ := Outcome.bind_eq_ok swapped
    cases same
    obtain ⟨rfl, rewritten⟩ := swapCpPage_rewritten copied
    exact ⟨untaken.rewritten (.refl _) rewritten, .of_pte rfl⟩
  | store found _ _ _ _ reached _ => exact absurd reached (unreached found)

/-- No instruction that comes back takes a frame. -/
theorem runInst {ins : Inst} (unreached : ∀ p, env.regs6 p ≠ some env.os)
    (answered : ∀ page, k.pte (caller, page) ≠ 0#32 → ¬env.Misses caller) (returned : runInst env k caller ins = .ok (code, after)) :
    after.Untaken mram activeMswp ∧ MapsOnly env caller k after := by
  have stops : env.Stops k caller := by
    refine ⟨fun serves => ?_, answered⟩
    obtain ⟨_, other, _, _, reached⟩ := serves
    exact unreached other reached
  have same (kept : after = k) : after.Untaken mram activeMswp ∧ MapsOnly env caller k after := by
    subst kept
    exact ⟨untaken, .of_pte rfl⟩
  have regions {mm : Mm} (table : SameTable (k.mms caller) mm) :
      (k.setMm caller mm).Untaken mram activeMswp ∧ MapsOnly env caller k (k.setMm caller mm) :=
    ⟨untaken.setMm table, .of_pte (pte_setMm_of_pgd k caller table.pgd)⟩
  rw [LamiaAtrium.runInst] at returned
  cases opcode : ins.opcode <;> rw [opcode] at returned
  case «calc» =>
    cases returned
    exact same rfl
  case alloc =>
    obtain ⟨mm, table, rfl⟩ := untaken.liballoc returned
    exact regions table
  case free =>
    obtain ⟨mm, table, rfl⟩ := free_effect returned
    exact regions table
  case read =>
    obtain ⟨⟨_, word, last⟩, read, returned⟩ := Outcome.bind_eq_ok returned
    cases returned
    exact same (untaken.libread stops read)
  case write => exact same (untaken.libwrite stops returned)
  case syscall => exact untaken.libsyscall unreached returned

end Krnl.Untaken
end Untaken

section System
variable {cfg : Config} {labels : List (Thread cfg.numCpus × Event)} {s after : State cfg.numCpus} {p : Nat}

/-- The search for a pid returns an entry of a queue. -/
theorem Env.scan_found {Proc : Type} {env : Env Proc} {pid : CInt} {queue : List Proc} {q : Proc}
    (found : env.scan pid queue = .ok (some q)) : q ∈ queue ∧ env.pid q = some pid := by
  induction queue with
  | nil => cases found
  | cons head rest ih =>
    rw [Env.scan] at found
    cases here : env.pid head with
    | none => rw [here] at found; cases found
    | some other =>
      rw [here] at found
      dsimp only at found
      split at found
      · next same =>
        cases found
        exact ⟨List.mem_cons_self, by rw [here, same]⟩
      · obtain ⟨member, known⟩ := ih found
        exact ⟨List.mem_cons_of_mem _ member, known⟩

/-- Only processes that `__sys_memmap` has in its list have pages. -/
structure Listed (cfg : Config) (labels : List (Thread cfg.numCpus × Event)) (s : State cfg.numCpus) : Prop where
  untaken : s.mem.Untaken cfg.mram cfg.activeMswp
  mapped : ∀ place, s.mem.pte place ≠ 0#32 → place.1 ∈ (putBacks labels).take maxQueueSize

theorem putBacks_prefix {n : Nat} (labels : List (Thread n × Event)) (label : Thread n × Event) :
    (putBacks labels).take maxQueueSize ⊆ (putBacks (labels ++ [label])).take maxQueueSize := by
  intro q member
  rw [putBacks, schedCalls, List.filterMap_append, Sched.putBacks, List.filterMap_append]
  exact (List.prefix_append _ _).take maxQueueSize |>.subset member

/-- A process with a page is in the list, so the search for it does not come back empty-handed. -/
theorem Listed.answered (listed : Listed cfg labels s) (run : Steps (SystemStep cfg) (boot cfg) labels s) {id : Fin cfg.numCpus}
    (uses : (s.cpus id).inUse = some p) (page : Page) (mapped : s.mem.pte (p, page) ≠ 0#32) : ¬(s.env cfg).Misses p := by
  rintro ⟨pid, known, missing⟩
  obtain ⟨pc, live⟩ := (Orderly.of_run run).live_of_uses uses
  have own : s.pid p = some (pidOf p) := by rw [State.pid, live]
  cases known.symm.trans (own : (s.env cfg).pid p = _)
  refine (finds_something_iff run uses).mpr (.inl ?_) missing
  rw [(Sched.runningList_of_run (scheduler_run run)).1]
  exact listed.mapped (p, page) mapped

theorem Listed.execute (listed : Listed cfg labels s) (run : Steps (SystemStep cfg) (boot cfg) labels s) {id : Fin cfg.numCpus}
    (uses : (s.cpus id).inUse = some p) {ins : Inst} {stat : Int} {mem : Krnl Nat}
    (ran : runInst (s.env cfg) s.mem p ins = .ok (stat, mem)) :
    mem.Untaken cfg.mram cfg.activeMswp ∧ ∀ place, mem.pte place ≠ 0#32 → place.1 ∈ (putBacks labels).take maxQueueSize := by
  obtain ⟨untaken, maps⟩ := listed.untaken.runInst (fun _ same => by cases same) (listed.answered run uses) ran
  refine ⟨untaken, fun place mapped => ?_⟩
  rcases maps place mapped with old | ⟨pid, _, found⟩
  · exact listed.mapped place old
  · rw [findCaller_eq run (Sched.linked_of_returned (scheduler_run run) (returned_of_uses run uses))] at found
    exact (Env.scan_found found).1

theorem Listed.of_run (run : Steps (SystemStep cfg) (boot cfg) labels s) : Listed cfg labels s := by
  have initial : Listed cfg [] (boot cfg) :=
    { untaken := ⟨rfl, fun place => .inl (pteAt_initPgd place.2), fun _ => rfl, rfl, rfl, rfl, rfl⟩
      mapped := fun place mapped => absurd (pteAt_initPgd place.2) mapped }
  refine (run.history (fun labels s => Steps (SystemStep cfg) (boot cfg) labels s ∧ Listed cfg labels s) ⟨.refl _, initial⟩ ?_).2
  rintro labels before label after ⟨sofar, listed⟩ taken
  refine ⟨sofar.tail taken, ?_⟩
  have longer := putBacks_prefix labels label
  have effect := taken.memory
  generalize shape : after.mem = mem at effect
  generalize label.2 = event at effect
  cases effect with
  | kept => exact ⟨shape ▸ listed.untaken, fun place mapped => longer (listed.mapped place (by rwa [shape] at mapped))⟩
  | setUp i _ _ =>
    refine ⟨shape ▸ listed.untaken.setUp _, fun place mapped => longer (listed.mapped place fun empty => ?_)⟩
    rw [shape, Krnl.pte, Krnl.setMm_mms] at mapped
    split at mapped
    · exact mapped (pteAt_initPgd place.2)
    · exact mapped empty
  | executed id p ins stat _ point busy ran =>
    have uses : (before.cpus id).inUse = some p := by
      rw [Cpu.inUse, point]
      exact busy
    obtain ⟨untaken, mapped⟩ := listed.execute sofar uses ran
    exact ⟨shape ▸ untaken, fun place here => longer (mapped place (by rwa [shape] at here))⟩

end System

section GivenBack
variable {cfg : Config} {labels : List (Thread cfg.numCpus × Event)} {s : State cfg.numCpus}

/-- Every frame of the device is free or named by an entry of a process in `alive`. -/
def Memphy.Accounted {Proc : Type} (mp : Memphy) (held : Proc × Page → Option Addr) (alive : Proc → Prop) : Prop :=
  ∀ fpn ∈ mp.pool, fpn ∈ mp.freeFpList ∨ ∃ place, alive place.1 ∧ held place = some fpn

/-- The free list has every frame of the device once. -/
def Memphy.Complete (mp : Memphy) : Prop := mp.freeFpList.Nodup ∧ ∀ fpn, fpn ∈ mp.freeFpList ↔ fpn ∈ mp.pool

theorem Memphy.Formatted.complete {mp : Memphy} (formatted : mp.Formatted) : mp.Complete := by
  have owned : Exclusive mp.pool mp.freeFpList fun _ : Nat × Page => none :=
    Memphy.fresh formatted.free (Nat.lt_trans formatted.frames_lt (by decide)) fun _ => rfl
  refine ⟨owned.nodup, fun fpn => ⟨owned.free_mem, fun member => ?_⟩⟩
  rcases (owned.covered fpn).mp member with free | ⟨place, holds⟩
  · exact free
  · cases holds

theorem Memphy.Complete.congr {mp other : Memphy} (complete : mp.Complete) (free : other.freeFpList = mp.freeFpList)
    (size : other.maxsz = mp.maxsz) : other.Complete := by
  have pool : other.pool = mp.pool := by rw [Memphy.pool, Memphy.pool, Memphy.frames, Memphy.frames, size]
  rw [Complete, free, pool]
  exact complete

/-- Both devices are as `ld_routine` gets them. -/
structure Formatted (cfg : Config) : Prop where
  mram : cfg.mram.Formatted
  activeMswp : cfg.activeMswp.Formatted

end GivenBack

section Mapped

end Mapped
end LamiaAtrium
