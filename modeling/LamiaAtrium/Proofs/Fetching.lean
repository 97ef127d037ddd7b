import LamiaAtrium.Proofs.Paging

/-! What `pg_getpage` returns, and whether it has the page. Nothing is assumed of the frames
here. -/

namespace LamiaAtrium
variable {Proc : Type}

section Devices
variable {mp after : Memphy} {addr : Addr} {value data : Byte} {code : Int}

theorem Memphy.read_same (returned : mp.read addr value = .ok (code, after, data)) : after = mp := by
  unfold Memphy.read Memphy.seqRead at returned
  split at returned
  · obtain ⟨_, _, returned⟩ := Outcome.bind_eq_ok returned
    cases returned
    rfl
  · next sequential =>
    rw [if_pos (by simpa using sequential)] at returned
    cases returned
    rfl

/-- What a store can change: the bytes and the cursor. -/
structure Memphy.Rewritten (mp after : Memphy) : Prop where
  rdmflg : after.rdmflg = mp.rdmflg
  maxsz : after.maxsz = mp.maxsz
  freeFpList : after.freeFpList = mp.freeFpList

theorem Memphy.Rewritten.refl (mp : Memphy) : mp.Rewritten mp := ⟨rfl, rfl, rfl⟩

theorem Memphy.Rewritten.trans {first second third : Memphy} (left : first.Rewritten second) (right : second.Rewritten third) :
    first.Rewritten third where
  rdmflg := right.rdmflg.trans left.rdmflg
  maxsz := right.maxsz.trans left.maxsz
  freeFpList := right.freeFpList.trans left.freeFpList

private theorem Memphy.store_rewritten (stored : mp.store addr value = .ok after) : mp.Rewritten after := by
  unfold Memphy.store at stored
  split at stored <;> cases stored
  exact ⟨rfl, rfl, rfl⟩

theorem Memphy.write_rewritten (returned : mp.write addr value = .ok (code, after)) : mp.Rewritten after := by
  unfold Memphy.write Memphy.seqWrite at returned
  split at returned
  · obtain ⟨_, stored, returned⟩ := Outcome.bind_eq_ok returned
    cases returned
    exact store_rewritten stored
  · split at returned
    · cases returned
      exact .refl mp
    · obtain ⟨_, stored, returned⟩ := Outcome.bind_eq_ok returned
      cases returned
      have kept := store_rewritten stored
      exact ⟨kept.rdmflg, kept.maxsz, kept.freeFpList⟩

/-- The copy of cells leaves the source device alone, and the destination keeps what each write keeps. -/
theorem swapCpCells_keep {uninit : Byte} {srcfpn dstfpn : Addr} {src dst mpsrc mpdst : Memphy} {indices : List Nat} (kept : Memphy → Prop)
    (start : kept mpdst) (step : ∀ index ∈ indices, ∀ data code target written, kept target →
      Memphy.write target (dstfpn * 256#64 + BitVec.ofNat 64 index) data = .ok (code, written) → kept written)
    (returned : indices.foldlM (swapCpCell uninit srcfpn dstfpn) (mpsrc, mpdst) = .ok (src, dst)) : src = mpsrc ∧ kept dst := by
  induction indices generalizing mpsrc mpdst with
  | nil =>
    cases returned
    exact ⟨rfl, start⟩
  | cons index indices ih =>
    rw [List.foldlM_cons] at returned
    obtain ⟨⟨middle, written⟩, copied, returned⟩ := Outcome.bind_eq_ok returned
    obtain ⟨⟨_, _, _⟩, read, copied⟩ := Outcome.bind_eq_ok copied
    obtain ⟨⟨_, _⟩, wrote, copied⟩ := Outcome.bind_eq_ok copied
    cases copied
    rw [Memphy.read_same read] at returned
    exact ih (step index List.mem_cons_self _ _ _ _ start wrote) (fun other member => step other (List.mem_cons_of_mem _ member)) returned

/-- The page copy reads one device and stores into the other. -/
theorem swapCpPage_rewritten {uninit : Byte} {mpsrc mpdst src dst : Memphy} {srcfpn dstfpn : Addr}
    (returned : swapCpPage uninit mpsrc srcfpn mpdst dstfpn = .ok (src, dst)) : src = mpsrc ∧ mpdst.Rewritten dst :=
  swapCpCells_keep mpdst.Rewritten (.refl _) (fun _ _ _ _ _ _ before wrote => before.trans (Memphy.write_rewritten wrote)) returned

/-- A random-access device gives back what was written, and keeps the other cells. -/
theorem Memphy.read_after_write {other : Addr} {last : Memphy} {result : Int} {before : Byte} (random : mp.rdmflg = true)
    (written : mp.write addr value = .ok (code, after)) (read : after.read other before = .ok (result, last, data)) :
    data = if other = addr then value else mp.storage other.toNat := by
  rw [Memphy.write, if_pos random] at written
  obtain ⟨stored, store, written⟩ := Outcome.bind_eq_ok written
  cases written
  have flag := (Memphy.store_rewritten store).rdmflg
  rw [Memphy.read, flag, if_pos random] at read
  obtain ⟨byte, loaded, read⟩ := Outcome.bind_eq_ok read
  cases read
  unfold Memphy.store at store
  split at store
  · cases store
    unfold Memphy.load at loaded
    split at loaded
    · cases loaded
      change Function.update mp.storage addr.toNat value other.toNat = _
      by_cases same : other = addr
      · rw [if_pos same, same, Function.update_self]
      · rw [if_neg same, Function.update_of_ne]
        exact fun equal => same (BitVec.eq_of_toNat_eq equal)
    · cases loaded
  · cases store

/-- What was written at an address can be read there. -/
theorem Memphy.readable_after_write (random : mp.rdmflg = true) (written : mp.write addr value = .ok (code, after)) (before : Byte) :
    after.read addr before = .ok (0, after, value) := by
  rw [Memphy.write, if_pos random] at written
  obtain ⟨stored, store, written⟩ := Outcome.bind_eq_ok written
  cases written
  have flag := (Memphy.store_rewritten store).rdmflg
  unfold Memphy.store at store
  split at store
  · next inside =>
    cases store
    rw [Memphy.read, if_pos random, Memphy.load, if_pos inside, Outcome.bind_ok]
    dsimp only
    rw [Function.update_self]
    rfl
  · cases store

/-- A sequential device takes nothing in. -/
theorem Memphy.read_sequential (sequential : mp.rdmflg = false) (written : mp.write addr value = .ok (code, after))
    {other : Addr} {last : Memphy} {result : Int} {before : Byte} (read : after.read other before = .ok (result, last, data)) :
    data = before := by
  have flag : after.rdmflg = false := (Memphy.write_rewritten written).rdmflg.trans sequential
  rw [Memphy.read, Memphy.seqRead, flag] at read
  cases read
  rfl

theorem Memphy.write_elsewhere (returned : mp.write addr value = .ok (code, after)) {cell : Nat} (elsewhere : cell ≠ addr.toNat) :
    after.storage cell = mp.storage cell := by
  unfold Memphy.write Memphy.seqWrite at returned
  split at returned
  · obtain ⟨stored, store, returned⟩ := Outcome.bind_eq_ok returned
    cases returned
    unfold Memphy.store at store
    split at store <;> cases store
    exact Function.update_of_ne elsewhere ..
  · next sequential =>
    rw [if_pos (by simpa using sequential)] at returned
    cases returned
    rfl

theorem Memphy.read_random {uninit data : Byte} (random : mp.rdmflg = true) (returned : mp.read addr uninit = .ok (code, after, data)) :
    addr.toNat < mp.maxsz := by
  rw [Memphy.read, if_pos random] at returned
  obtain ⟨byte, loaded, _⟩ := Outcome.bind_eq_ok returned
  by_contra outside
  rw [Memphy.load, if_neg outside] at loaded
  cases loaded

theorem Memphy.write_random (random : mp.rdmflg = true) (returned : mp.write addr value = .ok (code, after)) :
    addr.toNat < mp.maxsz ∧ after.storage addr.toNat = value := by
  rw [Memphy.write, if_pos random] at returned
  obtain ⟨stored, store, returned⟩ := Outcome.bind_eq_ok returned
  cases returned
  unfold Memphy.store at store
  split at store
  · next inside =>
    cases store
    exact ⟨inside, Function.update_self ..⟩
  · cases store

section Copy
variable {uninit : Byte} {mpsrc mpdst src dst : Memphy} {srcfpn dstfpn : Addr}

/-- What the copy of the last cell shows about the copy of a page. -/
private theorem swapCpPage_last (returned : swapCpPage uninit mpsrc srcfpn mpdst dstfpn = .ok (src, dst)) :
    ∃ target moved, mpdst.Rewritten target ∧ swapCpCell uninit srcfpn dstfpn (mpsrc, target) 255 = .ok moved := by
  have split : swapCpPage uninit mpsrc srcfpn mpdst dstfpn =
      (List.range 255).foldlM (swapCpCell uninit srcfpn dstfpn) (mpsrc, mpdst) >>= fun devices =>
        swapCpCell uninit srcfpn dstfpn devices 255 := by
    rw [swapCpPage, pagingPagesz, show List.range 256 = List.range 255 ++ [255] from List.range_succ, List.foldlM_append]
    simp only [List.foldlM_cons, List.foldlM_nil, bind_pure]
  rw [split] at returned
  obtain ⟨⟨source, target⟩, before, last⟩ := Outcome.bind_eq_ok returned
  obtain ⟨rfl, rewritten⟩ : source = mpsrc ∧ mpdst.Rewritten target :=
    swapCpCells_keep mpdst.Rewritten (.refl _) (fun _ _ _ _ _ _ before wrote => before.trans (Memphy.write_rewritten wrote)) before
  exact ⟨target, _, rewritten, last⟩

/-- A copy that does not fault stays on the source device, -/
theorem swapCpPage_source (random : mpsrc.rdmflg = true) (small : srcfpn.toNat < 2 ^ 32)
    (returned : swapCpPage uninit mpsrc srcfpn mpdst dstfpn = .ok (src, dst)) : srcfpn.toNat < mpsrc.frames := by
  obtain ⟨target, moved, _, last⟩ := swapCpPage_last returned
  obtain ⟨⟨_, _, _⟩, read, _⟩ := Outcome.bind_eq_ok last
  have inside := Memphy.read_random random read
  simp only [Memphy.frames, pagingPagesz, BitVec.toNat_add, BitVec.toNat_mul, BitVec.toNat_ofNat] at *
  omega

/-- and on the destination device. -/
theorem swapCpPage_target (random : mpdst.rdmflg = true) (small : dstfpn.toNat < 2 ^ 32)
    (returned : swapCpPage uninit mpsrc srcfpn mpdst dstfpn = .ok (src, dst)) : dstfpn.toNat < mpdst.frames := by
  obtain ⟨target, moved, rewritten, last⟩ := swapCpPage_last returned
  obtain ⟨⟨_, _, _⟩, _, last⟩ := Outcome.bind_eq_ok last
  obtain ⟨⟨_, _⟩, wrote, _⟩ := Outcome.bind_eq_ok last
  have inside := (Memphy.write_random (rewritten.rdmflg.trans random) wrote).1
  rw [rewritten.maxsz] at inside
  simp only [Memphy.frames, pagingPagesz, BitVec.toNat_add, BitVec.toNat_mul, BitVec.toNat_ofNat] at *
  omega

end Copy

end Devices

variable {env : Env Proc} {k after : Krnl Proc} {caller : Proc} {pgn pid : CInt} {code : Int}

/-- `pg_getpage` can have the page in RAM. -/
def Available (k : Krnl Proc) (caller : Proc) (pgn : CInt) : Prop :=
  if pagingPageSwapped ((k.mms caller).getEntry (intToAddr pgn)) then
    k.mram.freeFpList ≠ [] ∨ (k.mms caller).fifoPgn ≠ [] ∧ k.activeMswp.freeFpList ≠ []
  else pagingPagePresent ((k.mms caller).getEntry (intToAddr pgn)) = true

/-- `pg_getpage` can make room for a page of `caller`. -/
def HasRoom (k : Krnl Proc) (caller : Proc) : Prop :=
  k.mram.freeFpList ≠ [] ∨ (k.mms caller).fifoPgn ≠ [] ∧ k.activeMswp.freeFpList ≠ []

theorem available_swapped (swapped : pagingPageSwapped (k.pte (caller, pageOf (intToAddr pgn))) = true) :
    Available k caller pgn ↔ HasRoom k caller := by
  rw [Available, getEntry_eq_pte, if_pos swapped, HasRoom]

theorem available_unswapped (kept : ¬pagingPageSwapped (k.pte (caller, pageOf (intToAddr pgn))) = true) :
    Available k caller pgn ↔ pagingPagePresent (k.pte (caller, pageOf (intToAddr pgn))) = true := by
  rw [Available, getEntry_eq_pte, if_neg kept]

/-- What `__sys_memmap` called for this process finds has, in `regs[6]`, the pointer to the
kernel that the file takes this register for. -/
def Env.Serves (env : Env Proc) (caller : Proc) : Prop :=
  ∃ pid other, env.callerPid caller = .ok pid ∧ env.findCaller pid = .ok (some other) ∧ env.regs6 other = some env.os

/-- The frame that the page would come in to has a number that the entry can hold. -/
def Fits (k : Krnl Proc) (caller : Proc) (pgn : CInt) : Prop :=
  pagingPageSwapped ((k.mms caller).getEntry (intToAddr pgn)) = true →
    ∀ fpn rest, k.mram.freeFpList = fpn :: rest → fpn.toNat % 2 ^ 24 < 2 ^ 13

/-- What the accesses below rely on and paging leaves alone. -/
structure Kept (k after : Krnl Proc) (caller : Proc) : Prop where
  flag : after.mram.rdmflg = k.mram.rdmflg
  symrgtbl : (after.mms caller).symrgtbl = (k.mms caller).symrgtbl

theorem Kept.trans {first second third : Krnl Proc} (left : Kept first second caller) (right : Kept second third caller) :
    Kept first third caller :=
  ⟨right.flag.trans left.flag, right.symrgtbl.trans left.symrgtbl⟩

theorem not_available_of_empty (empty : (k.mms caller).getEntry (intToAddr pgn) = 0) : ¬Available k caller pgn := by
  rw [Available, empty]
  exact Bool.false_ne_true

theorem callerPid_known (read : env.callerPid caller = .ok pid) (missing : env.findCaller pid = .ok none) : env.Misses caller :=
  ⟨pid, callerPid_ok read, missing⟩

theorem Env.Serves.answers (serves : env.Serves caller) : env.Answers caller := by
  obtain ⟨pid, other, known, found, _⟩ := serves
  exact ⟨pid, other, known, found⟩

theorem Env.Answers.not_misses (answers : env.Answers caller) : ¬env.Misses caller := by
  rintro ⟨pid, known, missing⟩
  obtain ⟨number, other, read, found⟩ := answers
  cases known.symm.trans (callerPid_ok read)
  cases missing.symm.trans found

theorem Env.Serves.not_misses (serves : env.Serves caller) : ¬env.Misses caller := serves.answers.not_misses

theorem callerKrnl_ok (reached : env.regs6 caller = some env.os) : env.callerKrnl caller = .ok () := if_pos reached

/-- An access past this point has found the pointer to the kernel in the register. -/
theorem callerKrnl_eq_ok {reached : Unit} (returned : env.callerKrnl caller = .ok reached) : env.regs6 caller = some env.os := by
  unfold Env.callerKrnl at returned
  split at returned
  · next same => exact same
  · cases returned

theorem Env.Misses.callerPid (misses : env.Misses caller) : ∃ pid, env.callerPid caller = .ok pid ∧ env.findCaller pid = .ok none := by
  obtain ⟨pid, known, missing⟩ := misses
  exact ⟨pid, by rw [Env.callerPid, known], missing⟩

variable [DecidableEq Proc]

/-- A copy to the swap device changes neither a table nor what kind of device RAM is. -/
private theorem syscall_swap_kept {a2 a3 : Addr} {regs : ScRegs}
    (returned : syscall env k pid 17 { a1 := 3, a2, a3 } = .ok (code, regs, after)) :
    after.mram.rdmflg = k.mram.rdmflg ∧ after.mm = k.mm ∧ after.mms = k.mms := by
  rcases syscall_answered returned with ⟨_, same⟩ | ⟨other, found⟩
  · cases same
    exact ⟨rfl, rfl, rfl⟩
  · rw [syscall_swp found] at returned
    obtain ⟨copied, swapped, returned⟩ := Outcome.bind_eq_ok returned
    cases returned
    obtain ⟨⟨mram, activeMswp⟩, cells, swapped⟩ := Outcome.bind_eq_ok swapped
    cases swapped
    exact ⟨by rw [(swapCpPage_rewritten cells).1], rfl, rfl⟩

theorem syscall_swap_mms {a2 a3 : Addr} {regs : ScRegs}
    (returned : syscall env k pid 17 { a1 := 3, a2, a3 } = .ok (code, regs, after)) : after.mm = k.mm ∧ after.mms = k.mms :=
  (syscall_swap_kept returned).2

theorem popOldest_none {pages : List Addr} : popOldest pages = none ↔ pages = [] := by
  induction pages with
  | nil => exact iff_of_true rfl rfl
  | cons pgn rest ih =>
    cases rest with
    | nil => exact iff_of_false nofun nofun
    | cons next rest =>
      have more : popOldest (next :: rest) ≠ none := fun none => by cases ih.mp none
      refine iff_of_false (fun none => more ?_) nofun
      simp only [popOldest, Option.map_eq_none_iff] at none
      exact none

private theorem evictVictim_cases {evicted : Option Addr} (returned : evictVictim env k caller = .ok (evicted, after)) :
    Kept k after caller ∧
      ((evicted = none ∧ ¬((k.mms caller).fifoPgn ≠ [] ∧ k.activeMswp.freeFpList ≠ [])) ∨
        ∃ fpn, evicted = some fpn ∧ fpn.toNat < 2 ^ 13 ∧ (k.mms caller).fifoPgn ≠ [] ∧ k.activeMswp.freeFpList ≠ []) := by
  unfold evictVictim at returned
  cases victim : findVictimPage (k.mms caller) with
  | none =>
    rw [victim] at returned
    cases returned
    rw [findVictimPage, Option.map_eq_none_iff, popOldest_none] at victim
    exact ⟨⟨rfl, rfl⟩, .inl ⟨rfl, fun room => room.1 victim⟩⟩
  | some found =>
    obtain ⟨vicpgn, mm⟩ := found
    have listed : (k.mms caller).fifoPgn ≠ [] := by
      intro empty
      rw [findVictimPage, empty] at victim
      cases victim
    have regions : mm.symrgtbl = (k.mms caller).symrgtbl := by
      rw [findVictimPage, Option.map_eq_some_iff] at victim
      obtain ⟨_, _, same⟩ := victim
      cases same
      rfl
    rw [victim] at returned
    dsimp only at returned
    cases free : k.activeMswp.freeFpList with
    | nil =>
      rw [Krnl.setMm_activeMswp, Memphy.getFreefp_nil free] at returned
      cases returned
      refine ⟨⟨rfl, ?_⟩, .inl ⟨rfl, fun room => room.2 rfl⟩⟩
      rw [Krnl.setMm_same, regions]
    | cons target rest =>
      rw [Krnl.setMm_activeMswp, Memphy.getFreefp_cons free] at returned
      obtain ⟨pid, _, returned⟩ := Outcome.bind_eq_ok returned
      obtain ⟨⟨_, _, copied⟩, swapped, returned⟩ := Outcome.bind_eq_ok returned
      cases returned
      obtain ⟨flag, _, mms⟩ := syscall_swap_kept swapped
      refine ⟨⟨flag, ?_⟩, .inr ⟨_, rfl, ?_, listed, fun none => by cases none⟩⟩
      · rw [Krnl.setMm_same, mms]
        change ((k.setMm caller mm).mms caller).symrgtbl = _
        rw [Krnl.setMm_same, regions]
      · rw [BitVec.toNat_setWidth_of_le (by decide)]
        exact pagingFpn_lt _

private theorem pageIn_kept {page newfpn reqSwpfpn : Addr} (returned : pageIn env k caller page reqSwpfpn newfpn = .ok after) :
    Kept k after caller ∧ ∃ pte : Pte, (after.mms caller).getEntry page = pte.setFpn newfpn := by
  obtain ⟨⟨activeMswp, mram⟩, copied, returned⟩ := Outcome.bind_eq_ok returned
  cases returned
  refine ⟨⟨(swapCpPage_rewritten copied).2.rdmflg, ?_⟩, ?_⟩
  · rw [Krnl.setMm_same]
    rfl
  · refine ⟨(k.mms caller).pgd.pteAt (pageOf page), ?_⟩
    rw [Krnl.setMm_same]
    change pteGetEntry (pteSetFpn (k.mms caller).pgd page newfpn) page = _
    rw [pteGetEntry_eq_pteAt, pteAt_pteSetFpn, Function.update_self]

/-- Everything `pg_getpage` returns, for any state of the tables and devices. -/
theorem pgGetpage_cases {fpn : Option CInt} (returned : pgGetpage env k caller pgn = .ok (code, fpn, after)) :
    Kept k after caller ∧
      ((¬Available k caller pgn ∧ code = -1 ∧ fpn = none) ∨
        Available k caller pgn ∧ code = 0 ∧ ∃ f, fpn = some f ∧
          ((after.mms caller).getEntry (intToAddr pgn)).resident = true ∧
          ((pagingPageSwapped ((k.mms caller).getEntry (intToAddr pgn)) = true → k.mram.freeFpList = []) →
            f = pagingFpn ((after.mms caller).getEntry (intToAddr pgn))) ∧
          ∀ newfpn rest, pagingPageSwapped ((k.mms caller).getEntry (intToAddr pgn)) = true → k.mram.freeFpList = newfpn :: rest →
            f = addrToInt newfpn ∧
              pagingFpn ((after.mms caller).getEntry (intToAddr pgn)) = (newfpn.setWidth 13).setWidth 32) := by
  unfold pgGetpage at returned
  unfold Available
  dsimp only at returned
  by_cases swapped : pagingPageSwapped ((k.mms caller).getEntry (intToAddr pgn)) = true
  · rw [if_pos swapped] at returned
    rw [if_pos swapped]
    cases free : k.mram.freeFpList with
    | cons newfpn rest =>
      rw [Memphy.getFreefp_cons free] at returned
      obtain ⟨paged, came, returned⟩ := Outcome.bind_eq_ok returned
      cases returned
      obtain ⟨kept, pte, entry⟩ := pageIn_kept came
      refine ⟨⟨kept.flag, kept.symrgtbl⟩, .inr ⟨.inl nofun, rfl, _, rfl, ?_, (fun none => by cases none swapped), ?_⟩⟩
      · rw [entry, setFpn_resident]
      · intro other tail _ same
        cases same
        exact ⟨rfl, by rw [entry, pagingFpn_setFpn]⟩
    | nil =>
      rw [Memphy.getFreefp_nil free] at returned
      obtain ⟨⟨evicted, middle⟩, ran, returned⟩ := Outcome.bind_eq_ok returned
      obtain ⟨kept, outcome⟩ := evictVictim_cases ran
      rcases outcome with ⟨rfl, noRoom⟩ | ⟨newfpn, rfl, small, room⟩
      · cases returned
        refine ⟨kept, .inl ⟨?_, rfl, rfl⟩⟩
        rintro (some | room)
        · exact some rfl
        · exact noRoom room
      · obtain ⟨paged, came, returned⟩ := Outcome.bind_eq_ok returned
        cases returned
        obtain ⟨later, pte, entry⟩ := pageIn_kept came
        refine ⟨kept.trans later, .inr ⟨.inr room, rfl, _, rfl, ?_, (fun _ => ?_), (fun _ _ _ more => by cases more)⟩⟩
        · rw [entry, setFpn_resident]
        · have number := congrArg addrToInt (pagingFpn_setFpn_of_lt pte newfpn small)
          rw [entry, ← number]
          simp [addrToInt]
  · rw [if_neg swapped] at returned
    rw [if_neg swapped]
    split at returned
    · next present =>
      cases returned
      refine ⟨⟨rfl, rfl⟩, .inr ⟨present, rfl, _, rfl, ?_, (fun _ => rfl), (fun _ _ away => absurd away swapped)⟩⟩
      rw [Pte.resident, present]
      simp [swapped]
    · next absent =>
      cases returned
      exact ⟨⟨rfl, rfl⟩, .inl ⟨absent, rfl, rfl⟩⟩

/-- Where the page cannot be had, at most the FIFO has lost its oldest page. -/
theorem pgGetpage_unavailable {fpn : Option CInt} (absent : ¬Available k caller pgn)
    (returned : pgGetpage env k caller pgn = .ok (code, fpn, after)) : after.bytes = k.bytes := by
  unfold pgGetpage at returned
  unfold Available at absent
  dsimp only at returned
  split at returned
  · next swapped =>
    rw [if_pos swapped] at absent
    obtain ⟨full, stuck⟩ := not_or.mp absent
    rw [Memphy.getFreefp_nil (not_not.mp full)] at returned
    obtain ⟨⟨evicted, middle⟩, ran, returned⟩ := Outcome.bind_eq_ok returned
    have nothing : evicted = none ∧ middle.bytes = k.bytes := by
      unfold evictVictim at ran
      cases victim : findVictimPage (k.mms caller) with
      | none =>
        rw [victim] at ran
        cases ran
        exact ⟨rfl, rfl⟩
      | some found =>
        obtain ⟨vicpgn, mm⟩ := found
        have listed : (k.mms caller).fifoPgn ≠ [] := by
          intro empty
          rw [findVictimPage, empty] at victim
          cases victim
        have table : mm.pgd = (k.mms caller).pgd := by
          rw [findVictimPage, Option.map_eq_some_iff] at victim
          obtain ⟨_, _, same⟩ := victim
          cases same
          rfl
        have noRoom : k.activeMswp.freeFpList = [] := by_contra fun room => stuck ⟨listed, room⟩
        rw [victim] at ran
        dsimp only at ran
        rw [Krnl.setMm_activeMswp, Memphy.getFreefp_nil noRoom] at ran
        cases ran
        exact ⟨rfl, bytes_congr (pte_setMm_of_pgd k caller table) rfl rfl⟩
    obtain ⟨rfl, same⟩ := nothing
    cases returned
    exact same
  · next kept =>
    rw [if_neg kept] at absent
    rw [if_neg absent] at returned
    cases returned
    rfl

end LamiaAtrium
