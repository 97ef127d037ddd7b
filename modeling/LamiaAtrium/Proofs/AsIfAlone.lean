import LamiaAtrium.Proofs.Faults

/-! What a process computes does not depend on the schedule: in the whole system its
instructions return what they return on a machine with this process only, one after the
other, and leave the same `mm`. -/

namespace LamiaAtrium
open Run

section Own
variable {Proc Proc' : Type} [DecidableEq Proc] [DecidableEq Proc'] {env : Env Proc} {env' : Env Proc'} {k after : Krnl Proc}
  {k' : Krnl Proc'} {caller : Proc} {caller' : Proc'} {pid pid' : CInt} {code : Int}

/-- The second kernel does with its caller's `mm` what the first one does with the same. -/
def ActsAlike (k after : Krnl Proc) (caller : Proc) (k' : Krnl Proc') (caller' : Proc') (code : Int) (outcome : Outcome (Int × Krnl Proc')) :
    Prop :=
  ∃ mm, after = k.setMm caller mm ∧ outcome = .ok (code, k'.setMm caller' mm)

theorem ActsAlike.nothing (same : k'.mms caller' = k.mms caller) : ActsAlike k k caller k' caller' code (.ok (code, k')) :=
  ⟨k.mms caller, (setMm_self k caller).symm, by rw [← same, setMm_self]⟩

/-- A growth that comes back found nobody. -/
theorem allocGrow_nobody (null : k.mm = none) (known : env.pid caller = some pid) {index : Nat} {size : Addr} {result : Int × Option Addr × Krnl Proc}
    (returned : allocGrow env k caller 0 0 index size = .ok result) : env.findCaller pid = .ok none := by
  obtain ⟨vma, _, returned⟩ := Outcome.bind_eq_ok returned
  obtain ⟨own, read, returned⟩ := Outcome.bind_eq_ok returned
  obtain ⟨answer, called, returned⟩ := Outcome.bind_eq_ok returned
  cases known.symm.trans (callerPid_ok read)
  rcases syscall_answered called with ⟨nobody, _⟩ | ⟨other, found⟩
  · exact nobody
  · rw [syscall_inc found, incVmaLimit_null null] at called
    cases called

theorem allocGrow_eq (known : env.pid caller = some pid) (nobody : env.findCaller pid = .ok none) (index : Nat) (size : Addr) :
    allocGrow env k caller 0 0 index size = (do
      let vma ← (k.mms caller).area 0
      let mm ← (k.mms caller).setSymrg index { rgStart := vma.sbrk, rgEnd := vma.sbrk + size }
      return (0, some vma.sbrk, k.setMm caller (keepExtra mm 0 vma.sbrk size (growBytes size)))) := by
  rw [allocGrow, Env.callerPid, known]
  cases (k.mms caller).area 0 with
  | error fault => rfl
  | ok vma =>
    simp only [Outcome.bind_ok]
    rw [syscall_missing nobody]
    rfl

section Instructions
variable {mram mram' activeMswp activeMswp' : Memphy} (blank : k.Blank mram activeMswp) (blank' : k'.Blank mram' activeMswp')
  (same : k'.mms caller' = k.mms caller)
include blank same

theorem liballoc_alike (known : env.pid caller = some pid) (known' : env'.pid caller' = some pid') (nobody : env'.findCaller pid' = .ok none)
    {size : Addr} {regIndex : CInt} (returned : liballoc env k caller size regIndex = .ok (code, after)) :
    ActsAlike k after caller k' caller' code (liballoc env' k' caller' size regIndex) := by
  obtain ⟨⟨code, addr, after⟩, returned, finished⟩ := Outcome.bind_eq_ok returned
  cases finished
  rw [liballoc]
  by_cases positive : 0#64 < size
  · obtain ⟨vma, _, found, _⟩ := blank.ownArea caller
    obtain ⟨⟨fit, chosen, mm⟩, tried⟩ := blank.getFree_returns caller (addrToInt size)
    obtain ⟨table, fits⟩ := getFreeVmrgArea_table tried
    rw [alloc, if_neg (BitVec.not_le.mpr positive), found] at returned
    rw [alloc, if_neg (BitVec.not_le.mpr positive), same, found]
    simp only [Outcome.bind_ok, tried] at returned ⊢
    rcases fits with rfl | ⟨rfl, chose⟩
    · -- the growth, which everyone has been looked up for in vain
      change allocGrow env (k.setMm caller mm) caller 0 0 regIndex.toNat size = .ok (code, addr, after) at returned
      have missing := allocGrow_nobody (blank.setMm table).mm known returned
      rw [allocGrow_eq known missing, Krnl.setMm_same] at returned
      change ActsAlike k after caller k' caller' code (allocGrow env' (k'.setMm caller' mm) caller' 0 0 regIndex.toNat size >>= fun result => _)
      rw [allocGrow_eq known' nobody, Krnl.setMm_same]
      obtain ⟨vma, here, returned⟩ := Outcome.bind_eq_ok returned
      obtain ⟨stored, there, returned⟩ := Outcome.bind_eq_ok returned
      cases returned
      rw [here, Outcome.bind_ok, there, Outcome.bind_ok]
      exact ⟨_, setMm_setMm .., congrArg (fun last => Except.ok (_, last)) (setMm_setMm ..)⟩
    · obtain ⟨newrg, rfl⟩ := Option.isSome_iff_exists.mp chose
      obtain ⟨last, stored, returned⟩ := Outcome.bind_eq_ok returned
      cases returned
      refine ⟨last, rfl, ?_⟩
      change (mm.setSymrg regIndex.toNat newrg >>= fun mm => _) >>= _ = _
      rw [stored]
      rfl
  · have zero := BitVec.not_lt.mp positive
    rw [alloc, if_pos zero] at returned
    cases returned
    rw [alloc, if_pos zero]
    exact .nothing same

omit blank in
theorem libfree_alike {regIndex : CInt} (returned : libfree k caller regIndex = .ok (code, after)) :
    ActsAlike k after caller k' caller' code (libfree k' caller' regIndex) := by
  rw [libfree, free] at returned ⊢
  rw [same]
  split at returned
  · next outside =>
    cases returned
    rw [if_pos outside]
    exact .nothing same
  · next inside =>
    rw [if_neg inside]
    cases register : getSymrgByid regIndex with
    | none =>
      rw [register] at returned
      cases returned
      exact .nothing same
    | some index =>
      rw [register] at returned
      obtain ⟨rgnode, read, returned⟩ := Outcome.bind_eq_ok returned
      dsimp only
      rw [read, Outcome.bind_ok]
      split at returned
      · next empty =>
        cases returned
        rw [if_pos empty]
        exact .nothing same
      · next live =>
        rw [if_neg live]
        obtain ⟨middle, stored, returned⟩ := Outcome.bind_eq_ok returned
        obtain ⟨⟨_, last⟩, enlisted, returned⟩ := Outcome.bind_eq_ok returned
        cases returned
        rw [stored, Outcome.bind_ok, enlisted]
        exact ⟨last, rfl, rfl⟩

include blank'

omit same in
theorem libread_alike (env' : Env Proc') {source : CInt} {offset : Addr} {word : CInt} (inside : InTable source)
    (returned : libread env k caller source offset = .ok (code, word, after)) :
    after = k ∧ ∃ word', libread env' k' caller' source offset = .ok (code, word', k') := by
  obtain ⟨rfl, rfl⟩ := blank.libread returned
  obtain ⟨⟨val, data, last⟩, read⟩ := blank'.read_returns env' caller' offset inside
  have ran : libread env' k' caller' source offset = .ok (val, (data.getD env'.uninit).signExtend 32, last) := by
    rw [libread, read]
    rfl
  obtain ⟨rfl, rfl⟩ := blank'.libread ran
  exact ⟨rfl, _, ran⟩

theorem libwrite_alike {data : Byte} {destination : CInt} {offset : Addr}
    (returned : libwrite env k caller data destination offset = .ok (code, after)) :
    ActsAlike k after caller k' caller' code (libwrite env' k' caller' data destination offset) := by
  have kept := blank.libwrite returned
  rw [libwrite, write] at returned ⊢
  rw [same]
  dsimp only at returned ⊢
  obtain ⟨vma, _, found, _⟩ := blank.ownArea caller
  rw [found, Outcome.bind_ok] at returned ⊢
  cases register : getSymrgByid destination with
  | none =>
    rw [register] at returned
    cases returned
    exact .nothing same
  | some index =>
    rw [register] at returned
    obtain ⟨currg, read, returned⟩ := Outcome.bind_eq_ok returned
    dsimp only
    rw [read, Outcome.bind_ok]
    split at returned
    · next outside =>
      cases returned
      rw [if_pos outside]
      exact .nothing same
    · next inside =>
      rw [if_neg inside, pgSetval, blank'.pgGetpage]
      rw [pgSetval, blank.pgGetpage] at returned
      cases returned
      exact .nothing same

/-- An instruction that comes back comes back alike, wherever the caller's regions are the
same and the search finds nobody. -/
theorem runInst_alike (known : env.pid caller = some pid) (known' : env'.pid caller' = some pid') (nobody : env'.findCaller pid' = .ok none)
    {ins : Inst} (tame : ins.Tame) (returned : runInst env k caller ins = .ok (code, after)) :
    ActsAlike k after caller k' caller' code (runInst env' k' caller' ins) := by
  obtain ⟨noMemmap, names⟩ := tame
  have named (register : ins.opcode ≠ .calc ∧ ins.opcode ≠ .syscall) : InTable ins.register := names register
  rw [Inst.register] at named
  rw [runInst] at returned ⊢
  cases opcode : ins.opcode <;> rw [opcode] at named returned
  case «calc» =>
    cases returned
    exact .nothing same
  case alloc => exact liballoc_alike blank same known known' nobody returned
  case free => exact libfree_alike same returned
  case read =>
    obtain ⟨⟨val, word, last⟩, read, returned⟩ := Outcome.bind_eq_ok returned
    cases returned
    have inside : InTable (addrToInt ins.arg0) := named (by decide)
    obtain ⟨kept, word', ran⟩ := libread_alike blank blank' env' inside read
    dsimp only
    rw [ran, kept]
    exact .nothing same
  case write => exact libwrite_alike blank blank' same returned
  case syscall =>
    dsimp only at returned ⊢
    rw [libsyscall, Env.callerPid, known, Outcome.bind_ok, syscall, if_neg fun memmap => noMemmap ⟨opcode, memmap⟩] at returned
    rw [libsyscall, Env.callerPid, known', Outcome.bind_ok, syscall, if_neg fun memmap => noMemmap ⟨opcode, memmap⟩]
    cases returned
    exact .nothing same

end Instructions
end Own

section Alone
variable (cfg : Config)

/-- The machine with one process only, whose pid no list holds. -/
def Config.aloneEnv : Env Unit where
  pid := fun _ => some 1
  regs6 := fun _ => none
  readyQueue := none
  runningList := none
  os := cfg.os
  uninit := cfg.uninit

def Config.alone (mm : Mm) : Krnl Unit :=
  { mm := none, mram := cfg.mram, activeMswp := cfg.activeMswp, activeMswpId := 0, mms := fun _ => mm }

/-- The instructions of process `p` one after the other: what each returned, and the `mm` after
them. -/
def runAlone (p : Nat) (mm : Mm) : List Inst → Outcome (List Int × Mm)
  | [] => .ok ([], mm)
  | ins :: rest => do
    cfg.scan mm p ins
    let (code, k) ← runInst cfg.aloneEnv (cfg.alone mm) () ins
    let (codes, mm) ← runAlone p (k.mms ()) rest
    return (code :: codes, mm)

variable {cfg}

theorem runAlone_concat {p : Nat} {mm middle last : Mm} {codes : List Int} {code : Int} {text : List Inst} {ins : Inst}
    (ran : runAlone cfg p mm text = .ok (codes, middle)) (scanned : cfg.scan middle p ins = .ok ())
    (next : runInst cfg.aloneEnv (cfg.alone middle) () ins = .ok (code, (cfg.alone middle).setMm () last)) :
    runAlone cfg p mm (text ++ [ins]) = .ok (codes ++ [code], last) := by
  induction text generalizing mm codes with
  | nil =>
    cases ran
    rw [List.nil_append, runAlone, scanned, Outcome.bind_ok, next]
    simp [runAlone]
  | cons head rest ih =>
    obtain ⟨_, passed, ran⟩ := Outcome.bind_eq_ok ran
    obtain ⟨⟨first, k⟩, stepped, ran⟩ := Outcome.bind_eq_ok ran
    obtain ⟨⟨others, final⟩, later, ran⟩ := Outcome.bind_eq_ok ran
    cases ran
    rw [List.cons_append, runAlone, passed, Outcome.bind_ok, stepped, Outcome.bind_ok]
    dsimp only
    rw [ih later]
    rfl

theorem alone_blank {k : Krnl Nat} (blank : k.Blank cfg.mram cfg.activeMswp) (p : Nat) :
    (cfg.alone (k.mms p)).Blank cfg.mram cfg.activeMswp where
  mm := rfl
  entries place := blank.entries (p, place.2)
  fifo _ := blank.fifo p
  areas _ := blank.areas p
  ram := rfl
  swap := rfl

end Alone

section System
variable {cfg : Config} {labels : List (Thread cfg.numCpus × Event)} {s after : State cfg.numCpus} {event : Event} {p : Nat}

/-- What the instructions of `p` returned, in the order in which they were executed. -/
def outcomes {n : Nat} (p : Nat) (labels : List (Thread n × Event)) : List Int :=
  labels.filterMap fun label =>
    match label.2 with
    | .executed proc stat => if proc = p then some stat else none
    | _ => none

theorem outcomes_concat {n : Nat} {labels : List (Thread n × Event)} {thread : Thread n} {event : Event}
    (other : ∀ stat, event ≠ .executed p stat) : outcomes p (labels ++ [(thread, event)]) = outcomes p labels := by
  rw [outcomes, List.filterMap_append, ← outcomes]
  cases event with
  | executed q stat =>
    have apart : q ≠ p := fun same => other stat (by rw [same])
    simp [apart]
  | _ => simp

theorem outcomes_executed {n : Nat} (labels : List (Thread n × Event)) (thread : Thread n) (stat : Int) :
    outcomes p (labels ++ [(thread, .executed p stat)]) = outcomes p labels ++ [stat] := by
  rw [outcomes, List.filterMap_append, ← outcomes]
  simp

/-- `ld_routine` has set up the `mm` of the process and queued it. -/
def Loader.Added : Loader → Nat → Prop
  | .load i, p => p < i
  | .add i, p => p < i
  | .finished, _ => True

/-- The CPU is between the fetch and the effect of an instruction of `p`. -/
def Cpu.Executes (cpu : Cpu) (p : Nat) (ins : Inst) : Prop := cpu.point = .execute ins ∧ cpu.proc = some p

theorem Cpu.Executes.uses {cpu : Cpu} {ins : Inst} (executes : cpu.Executes p ins) : cpu.inUse = some p := by
  rw [Cpu.inUse, executes.1]
  exact executes.2

/-- What a CPU does at an instruction. -/
theorem cpuStep_executes {id : Fin cfg.numCpus} {ins : Inst} (point : (s.cpus id).point = .execute ins)
    (taken : cpuStep cfg s id = .ok (event, after)) :
    ∃ p stat mem, (s.cpus id).Executes p ins ∧ cfg.scan (s.mem.mms p) p ins = .ok () ∧
      runInst (s.env cfg) s.mem p ins = .ok (stat, mem) ∧ event = .executed p stat ∧
      after = ({ s with mem } : State cfg.numCpus).setCpu id { s.cpus id with point := .slot } := by
  simp only [cpuStep, point] at taken
  obtain ⟨p, held, taken⟩ := Outcome.bind_eq_ok taken
  obtain ⟨_, scanned, taken⟩ := Outcome.bind_eq_ok taken
  obtain ⟨⟨stat, mem⟩, ran, taken⟩ := Outcome.bind_eq_ok taken
  cases taken
  unfold Cpu.current at held
  split at held
  · next busy => cases held; exact ⟨p, stat, mem, ⟨point, busy⟩, scanned, ran, rfl, rfl⟩
  · cases held

/-- How far each process is: what has been executed of it is the part of its program before its
`pc`, but for the instruction that a CPU holds. -/
structure InTurn (cfg : Config) (labels : List (Thread cfg.numCpus × Event)) (s : State cfg.numCpus) : Prop where
  executing : ∀ id p ins, (s.cpus id).Executes p ins →
    (s.pcbs p).progress (cfg.text p).length = (outcomes p labels).length + 1 ∧ (cfg.text p)[(outcomes p labels).length]? = some ins
  between : ∀ p, (∀ id ins, ¬(s.cpus id).Executes p ins) → (s.pcbs p).progress (cfg.text p).length = (outcomes p labels).length

/-- Nothing is fetched or executed: the pcb changes from unloaded to new, or from its end to freed. -/
theorem progress_kept (orderly : Orderly cfg labels s) {thread : Thread cfg.numCpus} (effect : Effect cfg s thread event after)
    (quiet : ∀ pc, event ≠ .fetched p pc) : (after.pcbs p).progress (cfg.text p).length = (s.pcbs p).progress (cfg.text p).length := by
  have changed := effect.pcb p
  generalize after.pcbs p = pcb at changed
  cases changed with
  | kept => rfl
  | loaded here _ =>
    rw [orderly.ahead p (by rw [here]; exact Nat.le_refl p)]
    rfl
  | fetched _ pc _ _ _ _ => exact absurd rfl (quiet pc)
  | freed id finish holds =>
    rw [orderly.finishing id p finish holds]
    rfl

/-- A step that neither fetches nor executes leaves every CPU with the instruction it has. -/
theorem executes_kept {thread : Thread cfg.numCpus} (taken : threadStep cfg s thread = .ok (event, after))
    (noFetch : ∀ p pc, event ≠ .fetched p pc) (noEffect : ∀ p stat, event ≠ .executed p stat) {id : Fin cfg.numCpus} {ins : Inst} :
    (after.cpus id).Executes p ins ↔ (s.cpus id).Executes p ins := by
  by_cases own : thread = .cpu id
  · subst own
    refine iff_of_false (fun executes => ?_) fun executes => ?_
    · obtain ⟨q, pc, fetched, _⟩ := (cpuStep_move taken).fetch executes.1
      exact noFetch q pc fetched
    · obtain ⟨q, stat, _, _, _, _, executed, _⟩ := cpuStep_executes executes.1 taken
      exact noEffect q stat executed
  · rw [(threadStep_elsewhere taken).1 id own]

private theorem InTurn.fetch (turn : InTurn cfg labels s) (orderly : Orderly cfg labels s) {id : Fin cfg.numCpus} {q pc : Nat}
    (taken : cpuStep cfg s id = .ok (.fetched q pc, after)) : InTurn cfg (labels ++ [(.cpu id, .fetched q pc)]) after := by
  have elsewhere {other : Fin cfg.numCpus} (apart : other ≠ id) : after.cpus other = s.cpus other := (cpuStep_move taken).elsewhere apart
  have same (p : Nat) : outcomes p (labels ++ [(Thread.cpu id, Event.fetched q pc)]) = outcomes p labels :=
    outcomes_concat fun _ executed => by cases executed
  cases cpuStep_move taken with
  | fetched _ _ ins run holds live here =>
    have uses : (s.cpus id).inUse = some q := by rw [Cpu.inUse, run]; exact holds
    have idle (p : Nat) (next : Inst) : ¬(s.cpus id).Executes p next := fun executes => by cases run.symm.trans executes.1
    have level : pc = (outcomes q labels).length := by
      rw [← turn.between q, live]
      · rfl
      · intro other next executes
        cases orderly.uses_unique executes.uses uses
        exact idle q next executes
    have others {p : Nat} (apart : p ≠ q) : Function.update s.pcbs q (.live (pc + 1)) p = s.pcbs p := Function.update_of_ne apart ..
    constructor
    · intro other p next executes
      rw [same]
      by_cases own : other = id
      · rw [own, State.setCpu_same] at executes
        obtain ⟨point, proc⟩ := executes
        cases point
        cases holds.symm.trans proc
        refine ⟨?_, level ▸ here⟩
        change (Function.update s.pcbs q (.live (pc + 1)) q).progress _ = _
        rw [Function.update_self, ← level]
        rfl
      · have before : (s.cpus other).Executes p next := by rwa [elsewhere own] at executes
        have apart : p ≠ q := fun met => own (orderly.uses_unique (met ▸ before.uses) uses)
        change (Function.update s.pcbs q (.live (pc + 1)) p).progress _ = _ ∧ _
        rw [others apart]
        exact turn.executing other p next before
    · intro p nobody
      rw [same]
      have apart : p ≠ q := fun met => nobody id ins (by rw [State.setCpu_same, met]; exact ⟨rfl, holds⟩)
      change (Function.update s.pcbs q (.live (pc + 1)) p).progress _ = _
      rw [others apart]
      refine turn.between p fun other next executes => ?_
      by_cases own : other = id
      · exact idle p next (own ▸ executes)
      · exact nobody other next (by rwa [elsewhere own])

private theorem InTurn.execute (turn : InTurn cfg labels s) (orderly : Orderly cfg labels s) {id : Fin cfg.numCpus} {q : Nat} {stat : Int}
    (taken : cpuStep cfg s id = .ok (.executed q stat, after)) : InTurn cfg (labels ++ [(.cpu id, .executed q stat)]) after := by
  have elsewhere {other : Fin cfg.numCpus} (apart : other ≠ id) : after.cpus other = s.cpus other := (cpuStep_move taken).elsewhere apart
  have others {p : Nat} (apart : p ≠ q) : outcomes p (labels ++ [(Thread.cpu id, Event.executed q stat)]) = outcomes p labels :=
    outcomes_concat fun _ executed => by cases executed; exact apart rfl
  cases cpuStep_move taken with
  | executed _ ins _ mem point =>
    obtain ⟨p, _, _, executes, _, _, same, _⟩ := cpuStep_executes point taken
    cases same
    have through (p : Nat) (next : Inst) : ¬((({ s with mem } : State cfg.numCpus).setCpu id { s.cpus id with point := .slot }).cpus id).Executes p next := by
      rw [State.setCpu_same]
      exact fun executes => by cases executes.1
    constructor
    · intro other p next executes'
      by_cases own : other = id
      · exact absurd (own ▸ executes') (through p next)
      · have before : (s.cpus other).Executes p next := by rwa [elsewhere own] at executes'
        rw [others fun met => own (orderly.uses_unique (met ▸ before.uses) executes.uses)]
        exact turn.executing other p next before
    · intro p nobody
      by_cases mine : p = q
      · rw [mine, outcomes_executed, List.length_append]
        exact (turn.executing id q ins executes).1
      · rw [others mine]
        refine turn.between p fun other next before => ?_
        by_cases own : other = id
        · cases own
          exact mine (Option.some.inj (before.uses.symm.trans executes.uses))
        · exact nobody other next (by rwa [elsewhere own])

theorem InTurn.step (turn : InTurn cfg labels s) (orderly : Orderly cfg labels s) {thread : Thread cfg.numCpus}
    (taken : threadStep cfg s thread = .ok (event, after)) : InTurn cfg (labels ++ [(thread, event)]) after := by
  have stepped : SystemStep cfg s (thread, event) after := taken
  have effect := stepped.effect
  by_cases fetches : ∃ q pc, event = .fetched q pc
  · obtain ⟨q, pc, rfl⟩ := fetches
    cases thread with
    | loader => cases effect
    | cpu id => exact turn.fetch orderly taken
  · by_cases executes : ∃ q stat, event = .executed q stat
    · obtain ⟨q, stat, rfl⟩ := executes
      cases thread with
      | loader => cases effect
      | cpu id => exact turn.execute orderly taken
    · -- the CPUs hold what they held, and no process gets further
      have noFetch (q : Nat) (pc : Nat) (same : event = .fetched q pc) : False := fetches ⟨q, pc, same⟩
      have noEffect (q : Nat) (stat : Int) (same : event = .executed q stat) : False := executes ⟨q, stat, same⟩
      constructor
      · intro id p ins holds
        rw [outcomes_concat (noEffect p), progress_kept orderly effect (noFetch p)]
        exact turn.executing id p ins ((executes_kept taken noFetch noEffect).mp holds)
      · intro p nobody
        rw [outcomes_concat (noEffect p), progress_kept orderly effect (noFetch p)]
        exact turn.between p fun id ins holds => nobody id ins ((executes_kept taken noFetch noEffect).mpr holds)

theorem InTurn.of_run (run : Steps (SystemStep cfg) (boot cfg) labels s) : InTurn cfg labels s := by
  have initial : InTurn cfg [] (boot cfg) := ⟨fun _ _ _ executes => (by cases executes.1), fun _ _ => rfl⟩
  refine (run.history (fun labels s => Orderly cfg labels s ∧ InTurn cfg labels s) ⟨Orderly.of_run (.refl _), initial⟩ ?_).2
  rintro labels before ⟨thread, event⟩ after ⟨orderly, turn⟩ taken
  exact ⟨orderly.step taken.effect, turn.step orderly taken⟩

theorem Orderly.added_of_uses (orderly : Orderly cfg labels s) {id : Fin cfg.numCpus} (uses : (s.cpus id).inUse = some p) : s.loader.Added p := by
  obtain ⟨pc, live⟩ := orderly.live_of_uses uses
  have loaded : ¬s.loader.Before p := fun ahead => by cases live.symm.trans (orderly.ahead p ahead)
  have here := State.held_pos uses
  have alone := orderly.alone p
  have most := Bool.toNat_le (s.pcbs p).isLive
  have elsewhere : s.loading p = 0 := by omega
  unfold State.loading at elsewhere
  cases loader : s.loader with
  | load i =>
    rw [loader] at loaded
    exact Nat.lt_of_not_le loaded
  | add i =>
    rw [loader] at loaded elsewhere
    have apart : p ≠ i := fun same => by simp [same] at elsewhere
    exact Nat.lt_of_le_of_ne (Nat.le_of_not_lt loaded) apart
  | finished => trivial

/-- Every process has got from the memory what it would have got alone, and is left there. -/
structure AsAlone (cfg : Config) (labels : List (Thread cfg.numCpus × Event)) (s : State cfg.numCpus) : Prop where
  fresh : ∀ p, ¬s.loader.Added p → outcomes p labels = []
  ran : ∀ p, ∃ mm, runAlone cfg p (initMm ((cfg.heap p).getD [])) ((cfg.text p).take (outcomes p labels).length) = .ok (outcomes p labels, mm) ∧
    (p < cfg.processes.length → s.loader.Added p → s.mem.mms p = mm)

theorem AsAlone.load (alike : AsAlone cfg labels s) (taken : loaderStep cfg s = .ok (event, after)) :
    AsAlone cfg (labels ++ [(.loader, event)]) after := by
  have same (p : Nat) : outcomes p (labels ++ [(Thread.loader, event)]) = outcomes p labels := by
    refine outcomes_concat fun stat executed => ?_
    have stepped : SystemStep cfg s (.loader, event) after := taken
    have effect := stepped.effect
    rw [executed] at effect
    cases effect
  unfold loaderStep at taken
  split at taken
  · next i here =>
    split at taken
    · -- `load`
      cases taken
      constructor
      · intro p
        rw [same]
        exact fun later => alike.fresh p (by rwa [here])
      · intro p
        rw [same]
        obtain ⟨mm, ran, left⟩ := alike.ran p
        exact ⟨mm, ran, fun listed added => left listed (by rwa [here])⟩
    · next past =>
      cases taken
      constructor
      · exact fun p later => absurd trivial later
      · intro p
        rw [same]
        obtain ⟨mm, ran, left⟩ := alike.ran p
        exact ⟨mm, ran, fun listed _ => left listed (by rw [here]; exact Nat.lt_of_lt_of_le listed (Nat.le_of_not_lt past))⟩
  · next i here =>
    obtain ⟨⟨call, sched⟩, served, taken⟩ := Outcome.bind_eq_ok taken
    cases taken
    constructor
    · intro p later
      rw [same]
      refine alike.fresh p ?_
      rw [here]
      exact fun added => later (Nat.lt_succ_of_lt added)
    · intro p
      rw [same]
      by_cases own : p = i
      · subst own
        have none : outcomes p labels = [] := alike.fresh p (by rw [here]; exact Nat.lt_irrefl p)
        rw [none]
        exact ⟨_, rfl, fun _ _ => Krnl.setMm_same ..⟩
      · obtain ⟨mm, ran, left⟩ := alike.ran p
        refine ⟨mm, ran, fun listed added => ?_⟩
        change (s.mem.setMm i _).mms p = mm
        rw [Krnl.setMm_mms, if_neg own]
        refine left listed ?_
        rw [here]
        exact Nat.lt_of_le_of_ne (Nat.le_of_lt_succ added) own
  · cases taken
    exact ⟨fun p later => by rw [same]; exact alike.fresh p later, fun p => by rw [same]; exact alike.ran p⟩

/-- The instruction has the same effect as it would have alone. -/
private theorem AsAlone.execute (alike : AsAlone cfg labels s) (orderly : Orderly cfg labels s) (turn : InTurn cfg labels s)
    (blank : s.mem.Blank cfg.mram cfg.activeMswp) {id : Fin cfg.numCpus} {q : Nat} {ins : Inst} {stat : Int} {mem : Krnl Nat}
    (executes : (s.cpus id).Executes q ins) (tame : ins.Tame)
    (scanned : cfg.scan (s.mem.mms q) q ins = .ok ()) (returned : runInst (s.env cfg) s.mem q ins = .ok (stat, mem)) :
    AsAlone cfg (labels ++ [(.cpu id, .executed q stat)]) (({ s with mem } : State cfg.numCpus).setCpu id { s.cpus id with point := .slot }) := by
  obtain ⟨pc, live⟩ := orderly.live_of_uses executes.uses
  have added := orderly.added_of_uses executes.uses
  have others {p : Nat} (apart : p ≠ q) : outcomes p (labels ++ [(Thread.cpu id, Event.executed q stat)]) = outcomes p labels :=
    outcomes_concat fun _ executed => by cases executed; exact apart rfl
  have known : (s.env cfg).pid q = some (pidOf q) := by
    change s.pid q = _
    rw [State.pid, live]
  have same : (cfg.alone (s.mem.mms q)).mms () = s.mem.mms q := rfl
  have found : cfg.aloneEnv.pid () = some 1 := rfl
  obtain ⟨mm, rfl, ran⟩ := runInst_alike blank (alone_blank blank q) same known found rfl tame returned
  constructor
  · intro p later
    rw [others fun met => later (met ▸ added)]
    exact alike.fresh p later
  · intro p
    by_cases mine : p = q
    · subst mine
      obtain ⟨before, sofar, left⟩ := alike.ran p
      have here := left (orderly.known p (by rw [live]; exact fun unloaded => by cases unloaded)) added
      refine ⟨mm, ?_, fun _ _ => Krnl.setMm_same ..⟩
      rw [outcomes_executed, List.length_append, List.length_singleton, List.take_add_one, (turn.executing id p ins executes).2]
      exact runAlone_concat (here ▸ sofar) scanned ran
    · rw [others mine]
      obtain ⟨last, sofar, left⟩ := alike.ran p
      refine ⟨last, sofar, fun listed added => ?_⟩
      change (s.mem.setMm q mm).mms p = last
      rw [Krnl.setMm_mms, if_neg mine]
      exact left listed added

theorem AsAlone.cpu (alike : AsAlone cfg labels s) (orderly : Orderly cfg labels s) (turn : InTurn cfg labels s)
    (blank : s.mem.Blank cfg.mram cfg.activeMswp) (tame : ∀ id ins, (s.cpus id).point = .execute ins → ins.Tame) {id : Fin cfg.numCpus}
    (taken : cpuStep cfg s id = .ok (event, after)) : AsAlone cfg (labels ++ [(.cpu id, event)]) after := by
  by_cases inside : ∃ ins, (s.cpus id).point = .execute ins
  · obtain ⟨ins, point⟩ := inside
    obtain ⟨q, stat, mem, executes, scanned, returned, rfl, rfl⟩ := cpuStep_executes point taken
    exact alike.execute orderly turn blank executes (tame id ins point) scanned returned
  · have move := cpuStep_move taken
    have memory : after.mem = s.mem := by
      cases move with
      | executed _ ins _ _ point => exact absurd ⟨ins, point⟩ inside
      | _ => rfl
    have same (p : Nat) : outcomes p (labels ++ [(Thread.cpu id, event)]) = outcomes p labels := by
      refine outcomes_concat fun stat executed => ?_
      subst executed
      cases move with
      | executed _ ins _ _ point => exact inside ⟨ins, point⟩
    exact ⟨fun p later => by rw [same]; exact alike.fresh p (by rwa [← move.loader]),
      fun p => by rw [same, memory, move.loader]; exact alike.ran p⟩

/-- In every run of the whole system, whose programs name rows of the symbol table and leave system
call 17 to the memory library, each process has got from its instructions what it would have
got alone on the machine, and its `mm` is what it would be then; and a process that has ended
has executed its whole program. -/
theorem runs_as_if_alone (run : Steps (SystemStep cfg) (boot cfg) labels s)
    (tame : ∀ line ∈ cfg.processes, ∀ ins ∈ line.program.text, ins.Tame) (listed : p < cfg.processes.length) :
    (∃ mm, runAlone cfg p (initMm ((cfg.heap p).getD [])) ((cfg.text p).take (outcomes p labels).length) = .ok (outcomes p labels, mm) ∧
      (s.loader.Added p → s.mem.mms p = mm)) ∧
    (s.pcbs p = .freed → (outcomes p labels).length = (cfg.text p).length) := by
  have unmapped : ∀ line ∈ cfg.processes, ∀ ins ∈ line.program.text, ¬ins.CallsMap :=
    fun line member ins inside called => (tame line member ins inside).1 ⟨called.1, called.2.1⟩
  have initial : AsAlone cfg [] (boot cfg) := ⟨fun _ _ => rfl, fun p => ⟨_, rfl, fun _ added => absurd added (Nat.not_lt_zero p)⟩⟩
  constructor
  · have alike := (run.history (fun labels s => Steps (SystemStep cfg) (boot cfg) labels s ∧ AsAlone cfg labels s) ⟨.refl _, initial⟩ ?_).2
    · obtain ⟨mm, ran, left⟩ := alike.ran p
      exact ⟨mm, ran, left listed⟩
    · rintro labels before ⟨thread, event⟩ after ⟨sofar, alike⟩ taken
      refine ⟨sofar.tail taken, ?_⟩
      cases thread with
      | loader => exact alike.load taken
      | cpu id =>
        obtain ⟨runs, blank⟩ := blank_of_run sofar unmapped
        refine alike.cpu (Orderly.of_run sofar) (InTurn.of_run sofar) blank ?_ taken
        intro other ins point
        obtain ⟨_, _, line, member, inside⟩ := runs.given point
        exact tame line member ins inside
  · intro freed
    have reached := (InTurn.of_run run).between p fun id ins executes => by
      obtain ⟨pc, live⟩ := (Orderly.of_run run).live_of_uses executes.uses
      cases live.symm.trans freed
    rw [freed] at reached
    exact reached.symm

private def allocThenFree : List Inst :=
  [{ opcode := .alloc, arg0 := 100, arg1 := 0, arg2 := 0, arg3 := 0 }, { opcode := .free, arg0 := 0, arg1 := 0, arg2 := 0, arg3 := 0 }]

/-- Two CPUs, and two processes that use the register of the same number. -/
def twoOwners : Config :=
  { twoCalcs with
    timeSlot := 2
    numCpus := 2
    processes := List.replicate 2 { program := { priority := 0, text := allocThenFree, size_lt := by decide }, prio := 0 }
    processes_lt := by decide }

theorem runs_as_if_alone_twoOwners : ∃ labels s, Steps (SystemStep twoOwners) (boot twoOwners) labels s ∧
    s.pcbs 0 = .freed ∧ s.pcbs 1 = .live 1 ∧
    ∃ mm, runAlone twoOwners 0 (initMm []) allocThenFree = .ok (outcomes 0 labels, mm) ∧ s.mem.mms 0 = mm := by
  have ran : Steps (SystemStep twoOwners) (boot twoOwners) _ _ :=
    runThreads_steps (rfl : runThreads twoOwners (boot twoOwners)
      (List.replicate 4 .loader ++ List.replicate 5 (.cpu ⟨0, by decide⟩) ++ List.replicate 6 (.cpu ⟨1, by decide⟩) ++
        List.replicate 8 (.cpu ⟨0, by decide⟩)) = _)
  have tame : ∀ line ∈ twoOwners.processes, ∀ ins ∈ line.program.text, ins.Tame := by
    intro line member ins inside
    rw [List.eq_of_mem_replicate member] at inside
    rcases List.mem_cons.mp inside with rfl | inside
    · exact ⟨fun called => (by cases called.1), fun _ => ⟨by decide, by decide⟩⟩
    · rw [List.mem_singleton.mp inside]
      exact ⟨fun called => (by cases called.1), fun _ => ⟨by decide, by decide⟩⟩
  obtain ⟨⟨mm, alone, left⟩, _⟩ := runs_as_if_alone (p := 0) ran tame (by decide)
  exact ⟨_, _, ran, rfl, rfl, mm, alone, left Nat.zero_lt_two⟩

end System
end LamiaAtrium
