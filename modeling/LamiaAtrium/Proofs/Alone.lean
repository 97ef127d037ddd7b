import LamiaAtrium.Interleaved

/-! A CPU that nobody interrupts: an instruction taken apart at its accesses has the result
and the effect of the call it was taken from. -/

namespace LamiaAtrium
open Locking
variable {Proc : Type}

namespace Interleaved

/-- The program alone computes what the call computes. The call returns the memory beside its
result, and `split` says where. -/
def Yields (s : Shared Proc) (prog : Code Proc α) (outcome : Outcome γ) (split : γ → α × Krnl Proc) : Prop :=
  prog.eval (freeFpLists Proc) s = outcome.map fun returned => ((split returned).1, { s with k := (split returned).2 })

section Rules
variable {s : Shared Proc} {split : γ → α × Krnl Proc}

theorem Yields.onMemory (f : Shared Proc → Outcome (α × Krnl Proc)) : Yields s (onMemory f) (f s) id := Prog.eval_access ..

theorem Yields.look {next : Shared Proc → Code Proc α} {outcome : Outcome γ} (rest : Yields s (next s) outcome split) :
    Yields s (look >>= next) outcome split := rest

theorem Yields.lift {outcome : Outcome β} {next : β → Code Proc α} {after : β → Outcome γ}
    (rest : ∀ result, outcome = .ok result → Yields s (next result) (after result) split) :
    Yields s (lift outcome >>= next) (outcome >>= after) split := by
  cases outcome with
  | error fault => rfl
  | ok result => exact rest result rfl

theorem Yields.bind {prog : Code Proc β} {outcome : Outcome δ} {inner : δ → β × Krnl Proc} {next : β → Code Proc α}
    {after : δ → Outcome γ} (first : Yields s prog outcome inner)
    (rest : ∀ returned, Yields { s with k := (inner returned).2 } (next (inner returned).1) (after returned) split) :
    Yields s (prog >>= next) (outcome >>= after) split := by
  rw [Yields, Prog.eval_bind, first]
  cases outcome with
  | error fault => rfl
  | ok returned => exact rest returned

theorem Yields.call {prog : Code Proc α} {outcome : Outcome γ} (fn : Fn) (body : Yields s prog outcome split) :
    Yields s (prog.call fn) outcome split := (Prog.eval_call ..).trans body

theorem Yields.locked {prog : Code Proc α} {outcome : Outcome γ} (body : Yields s prog outcome split) :
    Yields s prog.locked outcome split := (Prog.eval_locked ..).trans body

end Rules

section Parts
variable {s : Shared Proc}

theorem getFreefp_eval (device : Device) : (getFreefp device : Code Proc (Option Addr)).eval (freeFpLists Proc) s =
    .ok (match s.freeFpList device with
      | [] => (none, s)
      | fpn :: rest => (some fpn, s.setFreeFpList device rest)) := by
  have looked : (freeFpLists Proc).get s device = s.freeFpList device := rfl
  rw [getFreefp, Prog.eval_call, Prog.takeFirst, Prog.eval, looked]
  cases s.freeFpList device <;> rfl

theorem putFreefp_yields_mram (fpn : Addr) :
    Yields s (putFreefp .mram fpn) (.ok (s.k.mram.putFreefp fpn)) fun mram => ((), { s.k with mram }) := Prog.eval_call ..

theorem putFreefp_yields_activeMswp (fpn : Addr) :
    Yields s (putFreefp .activeMswp fpn) (.ok (s.k.activeMswp.putFreefp fpn)) fun activeMswp => ((), { s.k with activeMswp }) :=
  Prog.eval_call ..

theorem returnFrames_yields (frmLst : List Addr) :
    Yields s (returnFrames frmLst) (.ok (LamiaAtrium.returnFrames s.k.mram frmLst)) fun mram => ((), { s.k with mram }) := by
  induction frmLst generalizing s with
  | nil => rfl
  | cons fpn frmLst ih =>
    have both : Yields s (putFreefp .mram fpn >>= fun _ => returnFrames frmLst)
        (.ok (s.k.mram.putFreefp fpn) >>= fun mram => .ok (LamiaAtrium.returnFrames mram frmLst)) fun mram => ((), { s.k with mram }) :=
      .bind (putFreefp_yields_mram fpn) fun _ => ih
    exact both

theorem allocPagesLoop_yields (left : Nat) (frmLst : List Addr) :
    Yields s (allocPagesLoop left frmLst) (.ok (LamiaAtrium.allocPagesLoop left s.k.mram frmLst))
      fun (code, mram, frmLst) => ((code, frmLst), { s.k with mram }) := by
  induction left generalizing s frmLst with
  | zero => rfl
  | succ left ih =>
    rw [Yields, allocPagesLoop, Prog.eval_bind, getFreefp_eval, Outcome.bind_ok, Shared.freeFpList, LamiaAtrium.allocPagesLoop]
    cases list : s.k.mram.freeFpList with
    | nil =>
      rw [Memphy.getFreefp_nil list]
      dsimp only
      rw [Prog.eval_bind, returnFrames_yields]
      rfl
    | cons fpn rest =>
      rw [Memphy.getFreefp_cons list]
      exact ih (fpn :: frmLst)

theorem mmSwapPage_yields (vicfpn swpfpn : Addr) :
    Yields s (mmSwapPage vicfpn swpfpn) (LamiaAtrium.mmSwapPage s.env s.k vicfpn swpfpn) fun k => ((), k) := by
  refine .call _ ?_
  rw [Yields, onMemory, Prog.eval_access]
  cases LamiaAtrium.mmSwapPage s.env s.k vicfpn swpfpn <;> rfl

variable [DecidableEq Proc] {caller : Proc}

theorem findVictimPage_eval : (findVictimPage caller).eval (freeFpLists Proc) s =
    .ok (match LamiaAtrium.findVictimPage (s.k.mms caller) with
      | some (pgn, mm) => (some pgn, { s with k := s.k.setMm caller mm })
      | none => (none, s)) := by
  rw [findVictimPage, Prog.eval_call, onMemory, Prog.eval_access]
  cases LamiaAtrium.findVictimPage (s.k.mms caller) <;> rfl

theorem vmMapRam_yields (astart aend mapstart : Addr) (incpgnum : CInt) (rg : VmRg) :
    Yields s (vmMapRam caller mapstart incpgnum rg) (.ok (LamiaAtrium.vmMapRam s.k caller astart aend mapstart incpgnum rg))
      fun (code, rg, k) => ((code, rg), k) := by
  refine .call _ ?_
  rw [Yields, Prog.eval_bind, allocPagesLoop_yields, LamiaAtrium.vmMapRam, allocPagesRange]
  obtain ⟨retAlloc, mram, frmLst⟩ := LamiaAtrium.allocPagesLoop (rounds incpgnum) s.k.mram []
  simp only [Except.map, Outcome.bind_ok]
  by_cases failed : retAlloc < 0#64 ∧ retAlloc ≠ -3000
  · rw [if_pos failed, if_pos failed]
    rfl
  · rw [if_neg failed, if_neg failed]
    by_cases short : retAlloc = -3000
    · rw [if_pos short, if_pos short]
      rfl
    · rw [if_neg short, if_neg short]
      rfl

/-- `inc_vma_limit` is its refusals and what follows the call of `vm_map_ram`. -/
theorem incVmaLimit_growth (k : Krnl Proc) (vmaid : CInt) (incSz : Addr) :
    LamiaAtrium.incVmaLimit k caller vmaid incSz = growth k vmaid incSz >>= fun
      | none => .ok (-1, k)
      | some { owner, curIndex, oldEnd, newEnd, numPages, rg } =>
        let (mapped, _, k) := LamiaAtrium.vmMapRam k caller rg.rgStart rg.rgEnd oldEnd numPages rg
        if mapped < 0#64 then .ok (-1, k)
        else .ok (0, k.setMm owner ((k.mms owner).modifyArea curIndex fun vma => { vma with sbrk := newEnd, vmEnd := newEnd })) := by
  unfold LamiaAtrium.incVmaLimit growth
  cases k.mmOwner with
  | error fault => rfl
  | ok owner =>
    simp only [Outcome.bind_ok]
    cases getVmaByNum (k.mms owner) vmaid with
    | error fault => rfl
    | ok found =>
      cases found with
      | none => rfl
      | some found =>
        obtain ⟨curIndex, curVma⟩ := found
        simp only [Outcome.bind_ok]
        cases validateOverlapVmArea (k.mms owner) vmaid curVma.sbrk (curVma.sbrk + pagingAlign incSz) with
        | error fault => rfl
        | ok valid =>
          simp only [Outcome.bind_ok]
          by_cases overlaps : valid < 0
          · rw [if_pos overlaps, if_pos overlaps]
            rfl
          · rw [if_neg overlaps, if_neg overlaps]
            cases getVmAreaNodeAtBrk (k.mms owner) vmaid (pagingAlign incSz) with
            | error fault => rfl
            | ok rg => cases rg <;> rfl

theorem incVmaLimit_yields (vmaid : CInt) (incSz : Addr) :
    Yields s (incVmaLimit s caller vmaid incSz) (LamiaAtrium.incVmaLimit s.k caller vmaid incSz) id := by
  rw [incVmaLimit_growth]
  refine .lift fun request _ => ?_
  cases request with
  | none => rfl
  | some request =>
    rw [Yields, Prog.eval_bind, vmMapRam_yields request.rg.rgStart request.rg.rgEnd]
    dsimp only
    obtain ⟨mapped, rg, k⟩ := LamiaAtrium.vmMapRam s.k caller request.rg.rgStart request.rg.rgEnd request.oldEnd request.numPages request.rg
    simp only [Except.map, Outcome.bind_ok]
    by_cases short : mapped < 0#64
    · rw [if_pos short, if_pos short]
      rfl
    · rw [if_neg short, if_neg short]
      rfl

theorem sysMemmap_yields (pid : CInt) (regs : ScRegs) :
    Yields s (sysMemmap s pid regs) (LamiaAtrium.sysMemmap s.env s.k pid regs) fun (code, regs, k) => ((code, regs), k) := by
  refine .lift fun found _ => ?_
  cases found with
  | none => rfl
  | some found =>
    dsimp only
    split
    · rfl
    · split
      · exact .bind (incVmaLimit_yields _ _) fun _ => rfl
      · split
        · exact .bind (mmSwapPage_yields _ _) fun _ => rfl
        · split
          · rw [Yields, onMemory, Prog.eval_access]
            cases s.env.callerKrnl found with
            | error fault => rfl
            | ok reached => cases s.k.mram.read (addrParam regs.a2) s.env.uninit <;> rfl
          · split
            · rw [Yields, onMemory, Prog.eval_access]
              cases s.env.callerKrnl found with
              | error fault => rfl
              | ok reached => cases s.k.mram.write (addrParam regs.a2) (regs.a3.setWidth 8) <;> rfl
            · rfl

theorem syscall_yields (pid nr : CInt) (regs : ScRegs) :
    Yields s (syscall s pid nr regs) (LamiaAtrium.syscall s.env s.k pid nr regs) fun (code, regs, k) => ((code, regs), k) := by
  unfold syscall LamiaAtrium.syscall
  split
  · exact sysMemmap_yields pid regs
  · rfl

/-- A system call in the middle of a library call, and what follows it. -/
theorem memmap_bind {regs : ScRegs} {next : Int × ScRegs → Code Proc α} {after : Int × ScRegs × Krnl Proc → Outcome γ}
    {split : γ → α × Krnl Proc} (rest : ∀ returned : Int × ScRegs × Krnl Proc,
      Yields { s with k := returned.2.2 } (next (returned.1, returned.2.1)) (after returned) split) :
    Yields s (memmap caller regs >>= next)
      (s.env.callerPid caller >>= fun pid => LamiaAtrium.syscall s.env s.k pid 17 regs >>= after) split := by
  rw [Yields, Prog.eval_bind, memmap]
  cases known : s.env.callerPid caller with
  | error fault =>
    change Except.bind (Prog.eval _ (lift (s.env.callerPid caller) >>= _) s) _ = _
    rw [known]
    rfl
  | ok pid =>
    change Except.bind (Prog.eval _ (lift (s.env.callerPid caller) >>= _) s) _ = _
    rw [known]
    have step := Yields.bind (syscall_yields pid 17 regs) rest
    rw [Yields, Prog.eval_bind] at step
    exact step

theorem evictVictim_yields : Yields s (evictVictim caller) (LamiaAtrium.evictVictim s.env s.k caller) id := by
  rw [Yields, evictVictim, Prog.eval_bind, findVictimPage_eval, LamiaAtrium.evictVictim]
  cases LamiaAtrium.findVictimPage (s.k.mms caller) with
  | none => rfl
  | some victim =>
    obtain ⟨vicpgn, mm⟩ := victim
    simp only [Outcome.bind_ok]
    change Prog.eval _ (getFreefp .activeMswp >>= _) _ = _
    rw [Prog.eval_bind, getFreefp_eval, Outcome.bind_ok]
    cases list : s.k.activeMswp.freeFpList with
    | nil =>
      simp only [Shared.freeFpList, Krnl.setMm_activeMswp, list, Memphy.getFreefp_nil list]
      rfl
    | cons vicSwpfpn rest =>
      simp only [Shared.freeFpList, Krnl.setMm_activeMswp, list, Memphy.getFreefp_cons list]
      rw [Krnl.setMm_same]
      change Yields (Shared.setFreeFpList ⟨s.k.setMm caller mm, s.env⟩ .activeMswp rest) (memmap caller _ >>= _) (_ >>= fun pid => _ >>= _) id
      exact memmap_bind fun _ => rfl

theorem pageIn_yields (pgn reqSwpfpn newfpn : Addr) :
    Yields s (pageIn caller pgn reqSwpfpn newfpn) (LamiaAtrium.pageIn s.env s.k caller pgn reqSwpfpn newfpn) fun k => ((), k) := by
  rw [Yields, pageIn, Prog.eval_bind, onMemory, Prog.eval_access, LamiaAtrium.pageIn]
  cases swapCpPage s.env.uninit s.k.activeMswp reqSwpfpn s.k.mram newfpn with
  | error fault => rfl
  | ok devices =>
    obtain ⟨activeMswp, mram⟩ := devices
    change Prog.eval _ (putFreefp .activeMswp reqSwpfpn >>= _) _ = _
    rw [Prog.eval_bind, putFreefp_yields_activeMswp]
    rfl

theorem pgGetpage_yields (pgn : CInt) :
    Yields s (pgGetpage caller pgn) (LamiaAtrium.pgGetpage s.env s.k caller pgn) fun (code, fpn, k) => ((code, fpn), k) := by
  refine .call _ (.look ?_)
  unfold LamiaAtrium.pgGetpage
  dsimp only
  split
  · rw [Yields, Prog.eval_bind, getFreefp_eval]
    cases list : s.k.mram.freeFpList with
    | nil =>
      simp only [Outcome.bind_ok, Shared.freeFpList, list, Memphy.getFreefp_nil list]
      change Yields s (evictVictim caller >>= _) (LamiaAtrium.evictVictim s.env s.k caller >>= _)
        fun returned : Int × Option CInt × Krnl Proc => ((returned.1, returned.2.1), returned.2.2)
      refine .bind evictVictim_yields fun victim => ?_
      obtain ⟨evicted, k⟩ := victim
      cases evicted with
      | none => rfl
      | some newfpn => exact .bind (pageIn_yields _ _ _) fun _ => rfl
    | cons newfpn rest =>
      simp only [Outcome.bind_ok, Shared.freeFpList, list, Memphy.getFreefp_cons list]
      change Yields (s.setFreeFpList .mram rest) (_ >>= _) (_ >>= _)
        fun returned : Int × Option CInt × Krnl Proc => ((returned.1, returned.2.1), returned.2.2)
      exact .bind (pageIn_yields _ _ _) fun _ => rfl
  · split <;> rfl

theorem pgGetval_yields (addr : CInt) :
    Yields s (pgGetval caller addr) (LamiaAtrium.pgGetval s.env s.k caller addr) fun (code, data, k) => ((code, data), k) := by
  refine .bind (pgGetpage_yields _) fun (code, fpn, k) => ?_
  cases fpn with
  | none => rfl
  | some fpn => exact memmap_bind fun _ => rfl

theorem pgSetval_yields (addr : CInt) (value : Byte) :
    Yields s (pgSetval caller addr value) (LamiaAtrium.pgSetval s.env s.k caller addr value) id := by
  refine .bind (pgGetpage_yields _) fun (code, fpn, k) => ?_
  cases fpn with
  | none => rfl
  | some fpn => exact memmap_bind fun _ => rfl

/-- `__read` is its checks and what follows the call of `pg_getval`. -/
theorem read_checks (env : Env Proc) (k : Krnl Proc) (rgid : CInt) (offset : Addr) :
    LamiaAtrium.read env k caller rgid offset = readAddr (k.mms caller) rgid offset >>= fun
      | none => .ok (-1, none, k)
      | some addr => do
        let (code, data, k) ← LamiaAtrium.pgGetval env k caller addr
        if code ≠ 0 then return (-1, data, k)
        return (0, data, k) := by
  unfold LamiaAtrium.read readAddr
  cases getSymrgByid rgid with
  | none => rfl
  | some index =>
    dsimp only
    cases (k.mms caller).symrg index with
    | error fault => rfl
    | ok currg =>
      simp only [Outcome.bind_ok]
      split
      · rfl
      · split <;> rfl

theorem read_yields (rgid : CInt) (offset : Addr) :
    Yields s (read s caller rgid offset) (LamiaAtrium.read s.env s.k caller rgid offset) fun (code, data, k) => ((code, data), k) := by
  rw [read_checks]
  refine .lift fun addr _ => ?_
  cases addr with
  | none => rfl
  | some addr =>
    refine .bind (pgGetval_yields addr) fun (code, data, k) => ?_
    dsimp only
    split <;> rfl

/-- `__write` is its checks and what follows. -/
theorem write_checks (env : Env Proc) (k : Krnl Proc) (vmaid rgid : CInt) (offset : Addr) (value : Byte) :
    LamiaAtrium.write env k caller vmaid rgid offset value = writeAddr (k.mms caller) vmaid rgid offset >>= fun
      | none => .ok (-1, k)
      | some addr => do
        let (_, k) ← LamiaAtrium.pgSetval env k caller addr value
        return (0, k) := by
  unfold LamiaAtrium.write writeAddr
  cases getVmaByNum (k.mms caller) vmaid with
  | error fault => rfl
  | ok area =>
    simp only [Outcome.bind_ok]
    cases getSymrgByid rgid with
    | none => rfl
    | some index =>
      cases area with
      | none => rfl
      | some area =>
        dsimp only
        cases (k.mms caller).symrg index with
        | error fault => rfl
        | ok currg =>
          simp only [Outcome.bind_ok]
          split <;> rfl

theorem write_yields (vmaid rgid : CInt) (offset : Addr) (value : Byte) :
    Yields s (write caller vmaid rgid offset value) (LamiaAtrium.write s.env s.k caller vmaid rgid offset value) id := by
  rw [write_checks]
  refine .locked (.look (.lift fun addr _ => ?_))
  cases addr with
  | none => rfl
  | some addr => exact .bind (pgSetval_yields addr value) fun _ => rfl

theorem free_yields (vmaid rgid : CInt) : Yields s (free caller vmaid rgid) (LamiaAtrium.free s.k caller vmaid rgid) id :=
  .locked (.onMemory _)

theorem allocGrow_yields (vmaid : CInt) (area rgid : Nat) (size : Addr) :
    Yields s (allocGrow caller vmaid area rgid size) (LamiaAtrium.allocGrow s.env s.k caller vmaid area rgid size)
      fun (code, start, k) => ((code, start), k) := by
  refine .look (.lift fun vma _ => memmap_bind fun (code, regs, k) => ?_)
  rw [Yields, onMemory, Prog.eval_access]
  dsimp only
  cases (k.mms caller).setSymrg rgid { rgStart := vma.sbrk, rgEnd := vma.sbrk + size } <;> rfl

theorem alloc_yields (vmaid rgid : CInt) (size : Addr) :
    Yields s (alloc caller vmaid rgid size) (LamiaAtrium.alloc s.env s.k caller vmaid rgid size)
      fun (code, start, k) => ((code, start), k) := by
  unfold alloc LamiaAtrium.alloc
  split
  · rfl
  · refine .locked (.look (.lift fun found _ => ?_))
    cases found with
    | none => rfl
    | some found =>
      obtain ⟨area, vma⟩ := found
      change Yields s (allocFree caller vmaid rgid size >>= _) _ _
      rw [Yields, Prog.eval_bind, allocFree, onMemory, Prog.eval_access]
      cases getFreeVmrgArea (s.k.mms caller) vmaid (addrToInt size) with
      | error fault => rfl
      | ok tried =>
        obtain ⟨code, chosen, mm⟩ := tried
        simp only [Outcome.bind_ok]
        cases code with
        | negSucc => exact allocGrow_yields vmaid area rgid.toNat size
        | ofNat count =>
          cases count with
          | succ => exact allocGrow_yields vmaid area rgid.toNat size
          | zero =>
            cases chosen with
            | none => exact allocGrow_yields vmaid area rgid.toNat size
            | some chosen =>
              change ((mm.setSymrg rgid.toNat chosen >>= _).map _ >>= _) = (mm.setSymrg rgid.toNat chosen >>= _).map _
              cases mm.setSymrg rgid.toNat chosen <;> rfl

end Parts

/-- What an instruction does on a CPU that is alone is what the switch of `run` does in one go. -/
theorem runInst_yields [DecidableEq Proc] (s : Shared Proc) (proc : Proc) (ins : Inst) :
    Yields s (runInst s proc ins) (LamiaAtrium.runInst s.env s.k proc ins) id := by
  unfold runInst LamiaAtrium.runInst
  cases ins.opcode with
  | «calc» => rfl
  | alloc => exact .bind (alloc_yields _ _ _) fun _ => rfl
  | free => exact free_yields _ _
  | read =>
    dsimp only
    rw [libread, bind_assoc]
    exact .bind (read_yields _ _) fun _ => rfl
  | write => exact write_yields _ _ _ _
  | syscall => exact .lift fun pid _ => .bind (syscall_yields _ _ _) fun _ => rfl

end Interleaved
end LamiaAtrium
