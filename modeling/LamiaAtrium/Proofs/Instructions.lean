import LamiaAtrium.Cpu
import LamiaAtrium.Proofs.Access
import LamiaAtrium.Proofs.Growth

/-! What an instruction can do to memory: each function of the library and each memory
operation of the system call is inverted here once, for any state of tables and devices. -/

namespace LamiaAtrium
variable {Proc : Type}

/-- The number of an area and the addresses it spans, without its free list. -/
def VmArea.extent (vma : VmArea) : BitVec 64 × Addr × Addr × Addr := (vma.vmId, vma.vmStart, vma.vmEnd, vma.sbrk)

/-- A change of the regions of a process that neither its page table nor the extent of an
area shows. -/
structure SameTable (before after : Mm) : Prop where
  pgd : after.pgd = before.pgd
  fifo : after.fifoPgn = before.fifoPgn
  extents : after.mmap.map VmArea.extent = before.mmap.map VmArea.extent

theorem SameTable.refl (mm : Mm) : SameTable mm mm := ⟨rfl, rfl, rfl⟩

theorem SameTable.trans {first second third : Mm} (left : SameTable first second) (right : SameTable second third) :
    SameTable first third :=
  ⟨right.pgd.trans left.pgd, right.fifo.trans left.fifo, right.extents.trans left.extents⟩

/-- A process with one area keeps one, which differs in its free list only. -/
theorem SameTable.single {before after : Mm} {vma : VmArea} (same : SameTable before after) (areas : before.mmap = [vma]) :
    ∃ vmFreergList, after.mmap = [{ vma with vmFreergList }] := by
  have extents := same.extents
  rw [areas] at extents
  cases list : after.mmap with
  | nil => rw [list] at extents; cases extents
  | cons head rest =>
    rw [list] at extents
    obtain ⟨own, others⟩ := List.cons.inj extents
    have alone : rest = [] := List.map_eq_nil_iff.mp others
    obtain ⟨vmId, vmStart, vmEnd, sbrk, free⟩ := head
    obtain ⟨vmId', vmStart', vmEnd', sbrk', free'⟩ := vma
    simp only [VmArea.extent, Prod.mk.injEq] at own
    obtain ⟨rfl, rfl, rfl, rfl⟩ := own
    rw [alone]
    exact ⟨free, rfl⟩

section Regions
variable {mm after : Mm} {index : Nat} {rg : VmRg} {code : Int}

/-- An update of one area's free list. -/
theorem modifyArea_table (mm : Mm) (index : Nat) {f : VmArea → VmArea} (keeps : ∀ vma, (f vma).extent = vma.extent) :
    SameTable mm (mm.modifyArea index f) := by
  refine ⟨rfl, rfl, List.ext_getElem? fun i => ?_⟩
  rw [Mm.modifyArea, List.getElem?_map, List.getElem?_map, List.getElem?_modify]
  split
  · cases mm.mmap[i]? with
    | none => rfl
    | some vma => exact congrArg some (keeps vma)
  · cases mm.mmap[i]? <;> rfl

theorem setSymrg_table (returned : mm.setSymrg index rg = .ok after) : SameTable mm after := by
  unfold Mm.setSymrg at returned
  split at returned <;> cases returned
  exact ⟨rfl, rfl, rfl⟩

theorem getFreeVmrgArea_table {vmaid size : CInt} {chosen : Option VmRg}
    (returned : getFreeVmrgArea mm vmaid size = .ok (code, chosen, after)) : SameTable mm after ∧ (code = -1 ∨ code = 0 ∧ chosen.isSome) := by
  unfold getFreeVmrgArea at returned
  split at returned
  · cases returned
    exact ⟨.refl mm, .inl rfl⟩
  · obtain ⟨found, _, returned⟩ := Outcome.bind_eq_ok returned
    cases found with
    | none => cases returned; exact ⟨.refl mm, .inl rfl⟩
    | some found =>
      dsimp only at returned
      split at returned
      · cases returned
        exact ⟨.refl mm, .inl rfl⟩
      · split at returned <;> cases returned
        · exact ⟨modifyArea_table mm _ fun _ => rfl, .inl rfl⟩
        · exact ⟨modifyArea_table mm _ fun _ => rfl, .inr ⟨rfl, rfl⟩⟩

theorem enlistVmFreergList_table (returned : enlistVmFreergList mm rg = .ok (code, after)) : SameTable mm after := by
  obtain ⟨_, _, returned⟩ := Outcome.bind_eq_ok returned
  split at returned <;> cases returned
  · exact .refl mm
  · exact modifyArea_table mm 0 fun _ => rfl

theorem keepExtra_table (mm : Mm) (area : Nat) (oldBrk size grow : Addr) : SameTable mm (keepExtra mm area oldBrk size grow) := by
  unfold keepExtra
  split
  · exact modifyArea_table mm area fun _ => rfl
  · exact .refl mm

end Regions

variable [DecidableEq Proc] {env : Env Proc} {k after : Krnl Proc} {caller : Proc} {code : Int}

section Paging

/-- What paging for one process leaves alone. -/
structure PagingFrame (k : Krnl Proc) (caller : Proc) (after : Krnl Proc) : Prop where
  mm : after.mm = k.mm
  others : ∀ p, p ≠ caller → after.mms p = k.mms p
  mmap : (after.mms caller).mmap = (k.mms caller).mmap
  symrgtbl : (after.mms caller).symrgtbl = (k.mms caller).symrgtbl

omit [DecidableEq Proc] in
theorem PagingFrame.trans {first second third : Krnl Proc} (left : PagingFrame first caller second)
    (right : PagingFrame second caller third) : PagingFrame first caller third where
  mm := right.mm.trans left.mm
  others p other := (right.others p other).trans (left.others p other)
  mmap := right.mmap.trans left.mmap
  symrgtbl := right.symrgtbl.trans left.symrgtbl

/-- A change of the caller's table and of the devices. -/
theorem PagingFrame.setMm {mm : Mm} {changed : Krnl Proc} (sameMm : changed.mm = k.mm) (sameMms : changed.mms = k.mms)
    (mmap : mm.mmap = (k.mms caller).mmap) (symrgtbl : mm.symrgtbl = (k.mms caller).symrgtbl) :
    PagingFrame k caller (changed.setMm caller mm) where
  mm := sameMm
  others p other := by rw [Krnl.setMm_mms, if_neg other, sameMms]
  mmap := by rw [Krnl.setMm_same, mmap]
  symrgtbl := by rw [Krnl.setMm_same, symrgtbl]

theorem evictVictim_frame {evicted : Option Addr} (returned : evictVictim env k caller = .ok (evicted, after)) :
    PagingFrame k caller after := by
  unfold evictVictim at returned
  cases victim : findVictimPage (k.mms caller) with
  | none =>
    rw [victim] at returned
    cases returned
    exact ⟨rfl, fun _ _ => rfl, rfl, rfl⟩
  | some found =>
    obtain ⟨vicpgn, mm⟩ := found
    have popped : PagingFrame k caller (k.setMm caller mm) := by
      rw [findVictimPage, Option.map_eq_some_iff] at victim
      obtain ⟨_, _, same⟩ := victim
      cases same
      exact .setMm rfl rfl rfl rfl
    rw [victim] at returned
    dsimp only at returned
    split at returned
    · next target activeMswp _ =>
      obtain ⟨pid, _, returned⟩ := Outcome.bind_eq_ok returned
      obtain ⟨⟨_, _, copied⟩, swapped, returned⟩ := Outcome.bind_eq_ok returned
      cases returned
      obtain ⟨sameMm, sameMms⟩ := syscall_swap_mms swapped
      exact popped.trans (.setMm sameMm sameMms (by rw [sameMms]; rfl) (by rw [sameMms]; rfl))
    · cases returned
      exact popped

theorem pageIn_frame {pgn reqSwpfpn newfpn : Addr} (returned : pageIn env k caller pgn reqSwpfpn newfpn = .ok after) :
    PagingFrame k caller after := by
  obtain ⟨⟨activeMswp, mram⟩, _, returned⟩ := Outcome.bind_eq_ok returned
  cases returned
  exact .setMm rfl rfl rfl rfl

theorem pgGetpage_frame {pgn : CInt} {fpn : Option CInt} (returned : pgGetpage env k caller pgn = .ok (code, fpn, after)) :
    PagingFrame k caller after := by
  unfold pgGetpage at returned
  dsimp only at returned
  split at returned
  · split at returned
    · next newfpn mram _ =>
      obtain ⟨paged, came, returned⟩ := Outcome.bind_eq_ok returned
      cases returned
      obtain ⟨mm, others, mmap, symrgtbl⟩ := pageIn_frame came
      exact ⟨mm, others, mmap, symrgtbl⟩
    · obtain ⟨⟨evicted, middle⟩, ran, returned⟩ := Outcome.bind_eq_ok returned
      cases evicted with
      | none =>
        cases returned
        exact evictVictim_frame ran
      | some newfpn =>
        obtain ⟨paged, came, returned⟩ := Outcome.bind_eq_ok returned
        cases returned
        exact (evictVictim_frame ran).trans (pageIn_frame came)
  · split at returned <;> cases returned <;> exact ⟨rfl, fun _ _ => rfl, rfl, rfl⟩

end Paging

section Library
variable {addr : CInt} {value : Byte} {data : Option Byte}

/-- The byte is read without a further change of memory. -/
theorem pgGetval_effect (returned : pgGetval env k caller addr = .ok (code, data, after)) :
    ∃ got fpn, pgGetpage env k caller (pagingPgn addr) = .ok (got, fpn, after) := by
  obtain ⟨⟨got, fpn, middle⟩, fetched, returned⟩ := Outcome.bind_eq_ok returned
  cases fpn with
  | none => cases returned; exact ⟨got, none, fetched⟩
  | some f =>
    obtain ⟨pid, _, returned⟩ := Outcome.bind_eq_ok returned
    obtain ⟨⟨_, regs, last⟩, called, returned⟩ := Outcome.bind_eq_ok returned
    cases returned
    refine ⟨got, some f, fetched.trans ?_⟩
    rcases syscall_answered called with ⟨_, same⟩ | ⟨other, found⟩
    · cases same
      rfl
    · rw [syscall_read found] at called
      obtain ⟨_, _, called⟩ := Outcome.bind_eq_ok called
      obtain ⟨⟨_, mram, _⟩, read, called⟩ := Outcome.bind_eq_ok called
      cases called
      rw [Memphy.read_same read]

/-- The page, and then the byte at its address in RAM if the kernel serves the process. -/
theorem pgSetval_effect (returned : pgSetval env k caller addr value = .ok (code, after)) :
    (∃ got fpn, pgGetpage env k caller (pagingPgn addr) = .ok (got, fpn, after)) ∨
      env.Serves caller ∧ ∃ f middle result mram, pgGetpage env k caller (pagingPgn addr) = .ok (0, some f, middle) ∧
        middle.mram.write (addrParam (phyAddr f (pagingOffst addr))) value = .ok (result, mram) ∧ after = { middle with mram } := by
  rcases pgSetval_cases returned with ⟨absent, _⟩ | ⟨_, missing, _⟩ | ⟨_, serves, access⟩
  · left
    obtain ⟨⟨got, fpn, middle⟩, fetched, returned⟩ := Outcome.bind_eq_ok returned
    rcases (pgGetpage_cases fetched).2 with ⟨_, _, rfl⟩ | ⟨available, _⟩
    · cases returned
      exact ⟨got, none, fetched⟩
    · exact absurd available absent
  · left
    obtain ⟨other, known, missing⟩ := missing.callerPid
    obtain ⟨⟨got, fpn, middle⟩, fetched, returned⟩ := Outcome.bind_eq_ok returned
    cases fpn with
    | none => cases returned; exact ⟨got, none, fetched⟩
    | some f =>
      obtain ⟨pid, same, returned⟩ := Outcome.bind_eq_ok returned
      rw [known] at same
      cases same
      rw [syscall_missing missing] at returned
      cases returned
      exact ⟨got, some f, fetched⟩
  · exact .inr ⟨serves, access⟩

theorem read_effect {rgid : CInt} {offset : Addr} (returned : read env k caller rgid offset = .ok (code, data, after)) :
    after = k ∨ ∃ addr got byte, pgGetval env k caller addr = .ok (got, byte, after) := by
  unfold read at returned
  cases register : getSymrgByid rgid with
  | none => rw [register] at returned; cases returned; exact .inl rfl
  | some index =>
    rw [register] at returned
    obtain ⟨currg, _, returned⟩ := Outcome.bind_eq_ok returned
    split at returned
    · cases returned
      exact .inl rfl
    · dsimp only at returned
      split at returned
      · cases returned
        exact .inl rfl
      · obtain ⟨⟨got, byte, middle⟩, access, returned⟩ := Outcome.bind_eq_ok returned
        have same : middle = after := by
          dsimp only at returned
          split at returned <;> cases returned <;> rfl
        exact .inr ⟨_, got, byte, same ▸ access⟩

theorem write_effect {vmaid rgid : CInt} {offset : Addr} (returned : write env k caller vmaid rgid offset value = .ok (code, after)) :
    after = k ∨ ∃ addr result, pgSetval env k caller addr value = .ok (result, after) := by
  unfold write at returned
  obtain ⟨area, _, returned⟩ := Outcome.bind_eq_ok returned
  dsimp only at returned
  split at returned
  · obtain ⟨currg, _, returned⟩ := Outcome.bind_eq_ok returned
    split at returned
    · cases returned
      exact .inl rfl
    · obtain ⟨⟨result, middle⟩, access, returned⟩ := Outcome.bind_eq_ok returned
      cases returned
      exact .inr ⟨_, result, access⟩
  · cases returned
    exact .inl rfl

theorem free_effect {vmaid rgid : CInt} (returned : free k caller vmaid rgid = .ok (code, after)) :
    ∃ mm, SameTable (k.mms caller) mm ∧ after = k.setMm caller mm := by
  have unchanged : ∃ mm, SameTable (k.mms caller) mm ∧ k = k.setMm caller mm := ⟨_, .refl _, (setMm_self k caller).symm⟩
  unfold free at returned
  split at returned
  · cases returned
    exact unchanged
  · split at returned
    · obtain ⟨rgnode, _, returned⟩ := Outcome.bind_eq_ok returned
      split at returned
      · cases returned
        exact unchanged
      · obtain ⟨middle, stored, returned⟩ := Outcome.bind_eq_ok returned
        obtain ⟨⟨_, last⟩, enlisted, returned⟩ := Outcome.bind_eq_ok returned
        cases returned
        exact ⟨last, (setSymrg_table stored).trans (enlistVmFreergList_table enlisted), rfl⟩
    · cases returned
      exact unchanged

/-- `__alloc` changes the regions of the caller and, past the free list, grows some area. -/
theorem alloc_effect {vmaid rgid : CInt} {size : Addr} {allocAddr : Option Addr}
    (returned : alloc env k caller vmaid rgid size = .ok (code, allocAddr, after)) :
    (∃ mm, SameTable (k.mms caller) mm ∧ after = k.setMm caller mm ∧
        (0#64 < size → NoFit (k.mms caller) vmaid size → getVmaByNum (k.mms caller) vmaid = .ok none)) ∨
      ∃ mm pid result regs grown last, 0#64 < size ∧ (∃ area, getVmaByNum (k.mms caller) vmaid = .ok (some area)) ∧
        NoFit (k.mms caller) vmaid size ∧ SameTable (k.mms caller) mm ∧ env.callerPid caller = .ok pid ∧
        syscall env (k.setMm caller mm) pid 17 { a1 := 2, a2 := intToAddr vmaid, a3 := growBytes size } = .ok (result, regs, grown) ∧
        SameTable (grown.mms caller) last ∧ after = grown.setMm caller last := by
  unfold alloc at returned
  split at returned
  · next none =>
    cases returned
    exact .inl ⟨_, .refl _, (setMm_self k caller).symm, fun some => absurd some (BitVec.not_lt.mpr none)⟩
  · next some =>
    obtain ⟨found, lookup, returned⟩ := Outcome.bind_eq_ok returned
    cases found with
    | none => cases returned; exact .inl ⟨_, .refl _, (setMm_self k caller).symm, fun _ _ => lookup⟩
    | some found =>
      obtain ⟨⟨fit, chosen, mm⟩, tried, returned⟩ := Outcome.bind_eq_ok returned
      obtain ⟨table, fits⟩ := getFreeVmrgArea_table tried
      dsimp only at returned
      split at returned
      · obtain ⟨last, stored, returned⟩ := Outcome.bind_eq_ok returned
        cases returned
        refine .inl ⟨last, table.trans (setSymrg_table stored), rfl, fun _ noFit => ?_⟩
        obtain ⟨other, kept, failed⟩ := noFit
        rw [tried] at failed
        cases failed
      · next unserved =>
        have noFit : fit = -1 := by
          rcases fits with failed | ⟨served, chose⟩
          · exact failed
          · obtain ⟨rg, here⟩ := Option.isSome_iff_exists.mp chose
            exact absurd here (unserved rg served)
        obtain ⟨start, _, returned⟩ := Outcome.bind_eq_ok returned
        obtain ⟨pid, known, returned⟩ := Outcome.bind_eq_ok returned
        obtain ⟨⟨result, regs, grown⟩, called, returned⟩ := Outcome.bind_eq_ok returned
        obtain ⟨last, stored, returned⟩ := Outcome.bind_eq_ok returned
        cases returned
        exact .inr ⟨mm, pid, result, regs, grown, _, BitVec.not_le.mp some, ⟨found, lookup⟩, ⟨chosen, mm, noFit ▸ tried⟩, table, known, called,
          (setSymrg_table stored).trans (keepExtra_table _ _ _ _ _), rfl⟩

end Library

section Mapping
variable {addr : Addr} {pgnum : CInt}

theorem vmapPgdMemset_pteAt (mm : Mm) (page : Page) : (vmapPgdMemset mm addr pgnum).pgd.pteAt page =
    if ∃ i < rounds pgnum, pageOf (pgnAt addr i) = page then 0xdeadbeef#32 else mm.pgd.pteAt page := by
  have cells (indices : List Nat) : ∀ mm : Mm,
      (indices.foldl (fun mm pgit => { mm with pgd := pteSetEntry mm.pgd (pgnAt addr pgit) 0xdeadbeef#32 }) mm).pgd.pteAt page =
        if ∃ i ∈ indices, pageOf (pgnAt addr i) = page then 0xdeadbeef#32 else mm.pgd.pteAt page := by
    induction indices with
    | nil =>
      intro mm
      simp
    | cons index indices ih =>
      intro mm
      rw [List.foldl_cons, ih]
      by_cases later : ∃ i ∈ indices, pageOf (pgnAt addr i) = page
      · obtain ⟨i, member, here⟩ := later
        rw [if_pos ⟨i, member, here⟩, if_pos ⟨i, List.mem_cons_of_mem _ member, here⟩]
      · rw [if_neg later, pteAt_pteSetEntry]
        by_cases here : pageOf (pgnAt addr index) = page
        · rw [if_pos ⟨index, List.mem_cons_self, here⟩, here, Function.update_self]
        · rw [Function.update_of_ne (Ne.symm here), if_neg]
          intro ⟨i, member, also⟩
          rcases List.mem_cons.mp member with rfl | member
          · exact here also
          · exact later ⟨i, member, also⟩
  rw [vmapPgdMemset, cells]
  simp only [List.mem_range]

theorem vmapPgdMemset_frame (mm : Mm) (addr : Addr) (pgnum : CInt) : (vmapPgdMemset mm addr pgnum).mmap = mm.mmap ∧
    (vmapPgdMemset mm addr pgnum).symrgtbl = mm.symrgtbl ∧ (vmapPgdMemset mm addr pgnum).fifoPgn = mm.fifoPgn := by
  have cells (indices : List Nat) : ∀ mm : Mm,
      let last := indices.foldl (fun mm pgit => { mm with pgd := pteSetEntry mm.pgd (pgnAt addr pgit) 0xdeadbeef#32 }) mm
      last.mmap = mm.mmap ∧ last.symrgtbl = mm.symrgtbl ∧ last.fifoPgn = mm.fifoPgn := by
    induction indices with
    | nil => exact fun _ => ⟨rfl, rfl, rfl⟩
    | cons index indices ih =>
      intro mm
      exact ih { mm with pgd := pteSetEntry mm.pgd (pgnAt addr index) 0xdeadbeef#32 }
  exact cells _ mm

end Mapping

section SystemCall
variable {pid : CInt} {regs last : ScRegs}

/-- Everything a system call can do to memory, operation by operation. -/
inductive CallEffect (env : Env Proc) (k : Krnl Proc) (pid : CInt) (regs : ScRegs) : Krnl Proc → Prop where
  | nothing : CallEffect env k pid regs k
  | map (found : Proc) : env.findCaller pid = .ok (some found) → addrToInt regs.a1 = sysmemMapOp →
      CallEffect env k pid regs (k.setMm found (vmapPgdMemset (k.mms found) (addrParam regs.a2) (addrToInt regs.a3)))
  | inc (found : Proc) (code : Int) (after : Krnl Proc) : env.findCaller pid = .ok (some found) → addrToInt regs.a1 = sysmemIncOp →
      incVmaLimit k found (addrToInt regs.a2) (addrParam regs.a3) = .ok (code, after) → CallEffect env k pid regs after
  | swap (found : Proc) (after : Krnl Proc) : env.findCaller pid = .ok (some found) → addrToInt regs.a1 = sysmemSwpOp →
      mmSwapPage env k (addrParam regs.a2) (addrParam regs.a3) = .ok after → CallEffect env k pid regs after
  | store (found : Proc) (code : Int) (mram : Memphy) : env.findCaller pid = .ok (some found) → addrToInt regs.a1 = sysmemIoWrite →
      env.regs6 found = some env.os → k.mram.write (addrParam regs.a2) (regs.a3.setWidth 8) = .ok (code, mram) → CallEffect env k pid regs { k with mram }

theorem syscall_effect {nr : CInt} (returned : syscall env k pid nr regs = .ok (code, last, after)) :
    CallEffect env k pid regs after := by
  unfold syscall at returned
  split at returned
  · obtain ⟨found, lookup, returned⟩ := Outcome.bind_eq_ok returned
    cases found with
    | none => cases returned; exact .nothing
    | some found =>
      dsimp only at returned
      split at returned
      · next op => cases returned; exact .map found lookup op
      · split at returned
        · next op =>
          obtain ⟨⟨result, grown⟩, ran, returned⟩ := Outcome.bind_eq_ok returned
          cases returned
          exact .inc found result _ lookup op ran
        · split at returned
          · next op =>
            obtain ⟨swapped, ran, returned⟩ := Outcome.bind_eq_ok returned
            cases returned
            exact .swap found _ lookup op ran
          · split at returned
            · obtain ⟨_, _, returned⟩ := Outcome.bind_eq_ok returned
              obtain ⟨⟨_, mram, _⟩, read, returned⟩ := Outcome.bind_eq_ok returned
              cases returned
              rw [Memphy.read_same read]
              exact .nothing
            · split at returned
              · next op =>
                obtain ⟨_, reached, returned⟩ := Outcome.bind_eq_ok returned
                obtain ⟨⟨result, mram⟩, written, returned⟩ := Outcome.bind_eq_ok returned
                cases returned
                exact .store found result mram lookup op (callerKrnl_eq_ok reached) written
              · cases returned
                exact .nothing
  · cases returned
    exact .nothing

end SystemCall

section Run
variable {proc : Proc} {ins : Inst}

/-- Everything an instruction can do to memory. -/
inductive InstEffect (env : Env Proc) (k : Krnl Proc) (proc : Proc) : Krnl Proc → Prop where
  /-- The regions of the process, at most. -/
  | regions (mm : Mm) : SameTable (k.mms proc) mm → InstEffect env k proc (k.setMm proc mm)
  | grew (mm last : Mm) (pid : CInt) (regs : ScRegs) (grown : Krnl Proc) : SameTable (k.mms proc) mm → env.callerPid proc = .ok pid →
      addrToInt regs.a1 = sysmemIncOp → CallEffect env (k.setMm proc mm) pid regs grown → SameTable (grown.mms proc) last →
      InstEffect env k proc (grown.setMm proc last)
  | paged (pgn : CInt) (code : Int) (fpn : Option CInt) (after : Krnl Proc) : pgGetpage env k proc pgn = .ok (code, fpn, after) →
      InstEffect env k proc after
  | stored (addr f : CInt) (middle : Krnl Proc) (code : Int) (value : Byte) (mram : Memphy) : env.Serves proc →
      pgGetpage env k proc (pagingPgn addr) = .ok (0, some f, middle) →
      middle.mram.write (addrParam (phyAddr f (pagingOffst addr))) value = .ok (code, mram) →
      InstEffect env k proc { middle with mram }
  | called (pid : CInt) (regs : ScRegs) (after : Krnl Proc) : env.callerPid proc = .ok pid → CallEffect env k pid regs after →
      InstEffect env k proc after

theorem runInst_effect (returned : runInst env k proc ins = .ok (code, after)) : InstEffect env k proc after := by
  have unchanged : InstEffect env k proc k := by
    have same : InstEffect env k proc (k.setMm proc (k.mms proc)) := .regions _ (.refl _)
    rwa [setMm_self] at same
  have pages {addr : CInt} {got : Int} {fpn : Option CInt} {final : Krnl Proc}
      (fetched : pgGetpage env k proc (pagingPgn addr) = .ok (got, fpn, final)) : InstEffect env k proc final :=
    .paged _ got fpn final fetched
  unfold runInst at returned
  split at returned
  · cases returned
    exact unchanged
  · obtain ⟨⟨_, _, final⟩, allocated, returned⟩ := Outcome.bind_eq_ok returned
    cases returned
    rcases alloc_effect allocated with ⟨mm, table, rfl, _⟩ | ⟨mm, pid, result, regs, grown, last, _, _, _, table, known, called, kept, rfl⟩
    · exact .regions mm table
    · exact .grew mm last pid _ grown table known (by rfl) (syscall_effect called) kept
  · obtain ⟨mm, table, rfl⟩ := free_effect returned
    exact .regions mm table
  · obtain ⟨⟨_, _, middle⟩, read, returned⟩ := Outcome.bind_eq_ok returned
    cases returned
    obtain ⟨⟨_, data, final⟩, read, same⟩ := Outcome.bind_eq_ok read
    cases same
    rcases read_effect read with rfl | ⟨addr, got, byte, access⟩
    · exact unchanged
    · obtain ⟨_, fpn, fetched⟩ := pgGetval_effect access
      exact pages fetched
  · rcases write_effect returned with rfl | ⟨addr, result, access⟩
    · exact unchanged
    · rcases pgSetval_effect access with ⟨got, fpn, fetched⟩ | ⟨serves, f, middle, result, mram, fetched, written, rfl⟩
      · exact pages fetched
      · exact .stored addr f middle result _ mram serves fetched written
  · obtain ⟨pid, known, returned⟩ := Outcome.bind_eq_ok returned
    obtain ⟨⟨_, _, final⟩, called, returned⟩ := Outcome.bind_eq_ok returned
    cases returned
    exact .called pid _ after known (syscall_effect called)

end Run
end LamiaAtrium
