import LamiaAtrium.Proofs.Fetching

/-! Paging with swap refines flat memory: each process has a byte at every mapped
place, and where the byte is kept does not show. -/

namespace LamiaAtrium
open Ownership
variable {Proc : Type} [DecidableEq Proc]

/-- What the processes see: a byte at each place and offset, or nothing mapped there. -/
abbrev FlatMemory (Proc : Type) := Proc × Page → Fin pagingPagesz → Option Byte

def FlatMemory.write (memory : FlatMemory Proc) (place : Proc × Page) (offset : Fin pagingPagesz) (value : Byte) : FlatMemory Proc :=
  Function.update memory place (Function.update (memory place) offset (some value))

abbrev placeOf (caller : Proc) (addr : CInt) : Proc × Page := (caller, pageOf (intToAddr (pagingPgn addr)))

def offsetOf (addr : CInt) : Fin pagingPagesz :=
  ⟨(pagingOffst addr).toNat, by rw [pagingOffst_toNat]; exact Nat.mod_lt _ (by decide)⟩

section Words

theorem phyAddr_toNat {fpn off : CInt} (frame : fpn.toNat < 2 ^ 23) (offset : off.toNat < pagingPagesz) :
    (phyAddr fpn off).toNat = fpn.toNat * pagingPagesz + off.toNat := by
  simp only [pagingPagesz] at *
  have word : ((fpn <<< 8) + off).toNat = fpn.toNat * 256 + off.toNat := by
    simp only [BitVec.toNat_add, BitVec.toNat_shiftLeft, Nat.shiftLeft_eq]
    omega
  have positive : ((fpn <<< 8) + off).msb = false := by
    rw [BitVec.msb_eq_false_iff_two_mul_lt, word]
    omega
  rw [phyAddr, intToAddr, BitVec.signExtend_eq_setWidth_of_msb_false positive, BitVec.toNat_setWidth_of_le (by decide), word]

theorem addrParam_phyAddr_toNat {fpn off : CInt} (frame : fpn.toNat < 2 ^ 23) (offset : off.toNat < pagingPagesz) :
    (addrParam (phyAddr fpn off)).toNat = fpn.toNat * pagingPagesz + off.toNat := by
  have number := phyAddr_toNat frame offset
  rw [addrParam_of_lt, number]
  rw [number]
  simp only [pagingPagesz] at *
  omega

private theorem signExtend_low (value : Byte) (i : Nat) (inside : i < 8) : (value.signExtend 64).getLsbD i = value.getLsbD i := by
  rw [BitVec.getLsbD_signExtend, if_pos inside, decide_eq_true (show i < 64 by omega), Bool.true_and]

theorem byte_through_argument (value : Byte) : (value.signExtend 64).setWidth 8 = value := by
  apply BitVec.eq_of_getLsbD_eq
  intro i inside
  rw [BitVec.getLsbD_setWidth, signExtend_low value i inside, decide_eq_true inside, Bool.true_and]

/-- A byte survives its trip through a 64-bit register and the mask of `pg_getval`. -/
theorem byte_through_register (value : Byte) : ((value.signExtend 64 &&& 0xFF#64).setWidth 8) = value := by
  have mask : (0xFF#64 : Addr) = (BitVec.allOnes 8).setWidth 64 := rfl
  apply BitVec.eq_of_getLsbD_eq
  intro i inside
  rw [BitVec.getLsbD_setWidth, BitVec.getLsbD_and, signExtend_low value i inside, mask, BitVec.getLsbD_setWidth,
    BitVec.getLsbD_allOnes, decide_eq_true inside, decide_eq_true (show i < 64 by omega)]
  simp

end Words

section Cases
variable {env : Env Proc} {k after : Krnl Proc} {caller : Proc} {addr : CInt} {value : Byte} {data : Option Byte} {code : Int}

/-- Everything `pg_setval` returns, for any state of the tables and devices. -/
theorem pgSetval_cases (returned : pgSetval env k caller addr value = .ok (code, after)) :
    (¬Available k caller (pagingPgn addr) ∧ code = -1 ∧ after.bytes = k.bytes) ∨
      (Available k caller (pagingPgn addr) ∧ env.Misses caller ∧ code = 0 ∧
        ∃ f, pgGetpage env k caller (pagingPgn addr) = .ok (0, some f, after)) ∨
      Available k caller (pagingPgn addr) ∧ env.Serves caller ∧ ∃ f middle result mram,
        pgGetpage env k caller (pagingPgn addr) = .ok (0, some f, middle) ∧
        middle.mram.write (addrParam (phyAddr f (pagingOffst addr))) value = .ok (result, mram) ∧ after = { middle with mram } := by
  obtain ⟨⟨got, fpn, middle⟩, fetched, returned⟩ := Outcome.bind_eq_ok returned
  rcases (pgGetpage_cases fetched).2 with ⟨absent, _, rfl⟩ | ⟨available, rfl, f, rfl, _⟩
  · cases returned
    exact .inl ⟨absent, rfl, pgGetpage_unavailable absent fetched⟩
  · obtain ⟨pid, known, returned⟩ := Outcome.bind_eq_ok returned
    obtain ⟨_, called, returned⟩ := Outcome.bind_eq_ok returned
    rcases syscall_answered called with ⟨missing, same⟩ | ⟨other, found⟩
    · cases same
      cases returned
      exact .inr (.inl ⟨available, callerPid_known known missing, rfl, f, fetched⟩)
    · rw [syscall_write found, byte_through_argument] at called
      obtain ⟨_, reached, called⟩ := Outcome.bind_eq_ok called
      obtain ⟨⟨result, mram⟩, written, called⟩ := Outcome.bind_eq_ok called
      cases called
      cases returned
      exact .inr (.inr ⟨available, ⟨pid, other, known, found, callerKrnl_eq_ok reached⟩, f, middle, result, mram, fetched, written, rfl⟩)

theorem pgGetval_cases (returned : pgGetval env k caller addr = .ok (code, data, after)) :
    (¬Available k caller (pagingPgn addr) ∧ code = -1) ∨
      (Available k caller (pagingPgn addr) ∧ env.Misses caller ∧ code = 0) ∨
      Available k caller (pagingPgn addr) ∧ env.Serves caller ∧ code = 0 ∧ ∃ f middle result mram byte,
        pgGetpage env k caller (pagingPgn addr) = .ok (0, some f, middle) ∧
        middle.mram.read (addrParam (phyAddr f (pagingOffst addr))) env.uninit = .ok (result, mram, byte) ∧ data = some byte := by
  obtain ⟨⟨got, fpn, middle⟩, fetched, returned⟩ := Outcome.bind_eq_ok returned
  rcases (pgGetpage_cases fetched).2 with ⟨absent, _, rfl⟩ | ⟨available, rfl, f, rfl, _⟩
  · cases returned
    exact .inl ⟨absent, rfl⟩
  · obtain ⟨pid, known, returned⟩ := Outcome.bind_eq_ok returned
    obtain ⟨_, called, returned⟩ := Outcome.bind_eq_ok returned
    rcases syscall_answered called with ⟨missing, same⟩ | ⟨other, found⟩
    · cases same
      cases returned
      exact .inr (.inl ⟨available, callerPid_known known missing, rfl⟩)
    · rw [syscall_read found] at called
      obtain ⟨_, reached, called⟩ := Outcome.bind_eq_ok called
      obtain ⟨⟨result, mram, byte⟩, read, called⟩ := Outcome.bind_eq_ok called
      cases called
      cases returned
      exact .inr (.inr ⟨available, ⟨pid, other, known, found, callerKrnl_eq_ok reached⟩, rfl, f, middle, result, mram, byte, fetched,
        read, by rw [byte_through_register]⟩)

end Cases

section Access
variable {env : Env Proc} {k : Krnl Proc} {caller other : Proc} {addr pid : CInt}

omit [DecidableEq Proc] in
/-- The physical address behind an offset of a resident page is on the device. -/
private theorem phyAddr_inside (good : Good k) (resident : (k.pte (placeOf caller addr)).resident = true) :
    let paddr := addrParam (phyAddr (pagingFpn (k.pte (placeOf caller addr))) (pagingOffst addr))
    paddr.toNat = (pagingFpn (k.pte (placeOf caller addr))).toNat * pagingPagesz + (offsetOf addr).val ∧
      paddr.toNat < k.mram.maxsz := by
  intro paddr
  have frame := good.resident_lt resident
  have offset : (pagingOffst addr).toNat < pagingPagesz := (offsetOf addr).isLt
  have number := phyAddr_toNat (Nat.lt_trans (pagingFpn_lt (k.pte (placeOf caller addr))) (by decide)) offset
  have small := good.ramSmall
  have kept : paddr = phyAddr (pagingFpn (k.pte (placeOf caller addr))) (pagingOffst addr) := by
    apply addrParam_of_lt
    rw [number]
    simp only [pagingPagesz] at *
    omega
  rw [kept, number]
  refine ⟨rfl, ?_⟩
  simp only [Memphy.frames, pagingPagesz] at *
  omega

/-- A byte stored behind a resident page changes that logical byte and no other: no
other entry names the frame. -/
private theorem bytes_store (good : Good k) (resident : (k.pte (placeOf caller addr)).resident = true) (value : Byte)
    {storage : Nat → Byte} (stored : storage = Function.update k.mram.storage
      ((pagingFpn (k.pte (placeOf caller addr))).toNat * pagingPagesz + (offsetOf addr).val) value) :
    ({ k with mram := { k.mram with storage } } : Krnl Proc).bytes =
      FlatMemory.write k.bytes (placeOf caller addr) (offsetOf addr) value := by
  funext place offset
  have reads : ({ k with mram := { k.mram with storage } } : Krnl Proc).bytes place offset =
      (k.pte place).byte storage k.activeMswp.storage offset := rfl
  rw [reads, FlatMemory.write, stored]
  by_cases here : place = placeOf caller addr
  · subst here
    rw [Function.update_self]
    by_cases same : offset = offsetOf addr
    · subst same
      rw [Function.update_self, Pte.byte_of_resident resident, Function.update_self]
    · rw [Function.update_of_ne same, Krnl.bytes, Pte.byte_of_resident resident, Pte.byte_of_resident resident,
        Function.update_of_ne]
      intro equal
      exact same (Fin.ext (Nat.add_left_cancel equal))
  · rw [Function.update_of_ne here, Krnl.bytes]
    refine Pte.byte_congr ?_ (fun _ _ => rfl)
    intro fpn holds
    apply Function.update_of_ne
    intro equal
    have mine := Pte.ramFrame_of_resident resident
    have numbers : fpn.toNat = (pagingFpn (k.pte (placeOf caller addr))).toNat := by
      have first := offset.isLt
      have second := (offsetOf addr).isLt
      simp only [pagingPagesz] at *
      omega
    apply here
    apply good.ram.unique place (placeOf caller addr) fpn holds
    rw [Function.comp_apply, mine, Option.some.injEq]
    apply BitVec.eq_of_toNat_eq
    rw [BitVec.toNat_setWidth_of_le (by decide), numbers]

/-- What stands between the lookup and the byte: the pointer that `sys_mem.c` takes for the
kernel. -/
theorem pgGetval_fetched {f : CInt} {middle : Krnl Proc} (known : env.callerPid caller = .ok pid)
    (found : env.findCaller pid = .ok (some other))
    (fetched : pgGetpage env k caller (pagingPgn addr) = .ok (0, some f, middle)) :
    pgGetval env k caller addr = (do
      env.callerKrnl other
      let (_, mram, byte) ← middle.mram.read (addrParam (phyAddr f (pagingOffst addr))) env.uninit
      return (0, some byte, { middle with mram })) := by
  rw [pgGetval, fetched]
  simp only [Outcome.bind_ok, known, syscall_read found]
  cases env.callerKrnl other with
  | error fault => rfl
  | ok reached =>
    cases middle.mram.read (addrParam (phyAddr f (pagingOffst addr))) env.uninit with
    | error fault => rfl
    | ok result => simp only [Outcome.bind_ok, Outcome.pure_eq, byte_through_register]

theorem pgSetval_fetched {f : CInt} {value : Byte} {middle : Krnl Proc} (known : env.callerPid caller = .ok pid)
    (found : env.findCaller pid = .ok (some other))
    (fetched : pgGetpage env k caller (pagingPgn addr) = .ok (0, some f, middle)) :
    pgSetval env k caller addr value = (do
      env.callerKrnl other
      let (_, mram) ← middle.mram.write (addrParam (phyAddr f (pagingOffst addr))) value
      return (0, { middle with mram })) := by
  rw [pgSetval, fetched]
  simp only [Outcome.bind_ok, known, syscall_write found, byte_through_argument]
  cases env.callerKrnl other with
  | error fault => rfl
  | ok reached =>
    cases middle.mram.write (addrParam (phyAddr f (pagingOffst addr))) value with
    | error fault => rfl
    | ok result => rfl

/-- A page of a caller that is found either comes in, with the bytes of all processes as they
were, or nothing has happened. -/
theorem pgGetpage_found (good : Good k) (random : RandomAccess k) (answers : env.Answers caller) (pgn : CInt) :
    (¬Available k caller pgn ∧ ∃ middle, pgGetpage env k caller pgn = .ok (-1, none, middle) ∧ Good middle ∧
      SameDevices k middle ∧ middle.bytes = k.bytes) ∨
    Available k caller pgn ∧ ∃ middle, (middle.pte (caller, pageOf (intToAddr pgn))).resident = true ∧
      pgGetpage env k caller pgn = .ok (0, some (pagingFpn (middle.pte (caller, pageOf (intToAddr pgn)))), middle) ∧
      Good middle ∧ SameDevices k middle ∧ middle.bytes = k.bytes := by
  rcases pgGetpage_spec env caller good pgn with ⟨_, missing⟩ | ⟨code, fpn, middle, ran, fetched, bytes⟩
  · exact absurd answers missing.1
  · have same := bytes answers random
    have answer := (pgGetpage_cases ran).2
    rcases fetched.outcome with ⟨rfl, rfl⟩ | ⟨rfl, resident, rfl⟩
    · rcases answer with ⟨absent, _⟩ | ⟨_, zero, _⟩
      · exact .inl ⟨absent, middle, ran, fetched.good, fetched.devices, same⟩
      · cases zero
    · rcases answer with ⟨_, failed, _⟩ | ⟨available, _⟩
      · cases failed
      · exact .inr ⟨available, middle, resident, ran, fetched.good, fetched.devices, same⟩

/-- Without the copy, the victim reads what the swap frame held. -/
private theorem uncopied_bytes (owned : Owned [] k) {activeMswp : Memphy} {pgn fpn : Addr} (swptyp : CInt)
    (taken : k.activeMswp.getFreefp = some (fpn, activeMswp)) :
    ({ k with activeMswp }.setMm caller ((k.mms caller).setSwap pgn swptyp fpn)).bytes =
      Function.update k.bytes (caller, pageOf pgn) fun offset =>
        some (k.activeMswp.storage (fpn.toNat * pagingPagesz + offset)) := by
  obtain ⟨rest, free, rfl⟩ := getFreefp_some taken
  have small : fpn.toNat < 2 ^ 21 := Nat.lt_of_lt_of_le (owned.swap.free_mem (free ▸ List.mem_cons_self)) owned.swapSmall
  funext place offset
  rw [Krnl.bytes, pte_setMm _ caller (pteAt_pteSetSwap _ pgn swptyp fpn)]
  simp only [Krnl.setMm_mram, Krnl.setMm_activeMswp]
  by_cases here : place = (caller, pageOf pgn)
  · subst here
    rw [Function.update_self, Function.update_self, Pte.byte_setSwap swptyp small]
  · rw [Function.update_of_ne here, Function.update_of_ne here]
    rfl

private theorem evictVictim_missed (good : Good k) (misses : env.Misses caller) {evicted : Addr} {after : Krnl Proc}
    (ran : evictVictim env k caller = .ok (some evicted, after)) :
    ∃ vicpgn mm vicSwpfpn rest, findVictimPage (k.mms caller) = some (vicpgn, mm) ∧ k.activeMswp.freeFpList = vicSwpfpn :: rest ∧
      (k.pte (caller, pageOf vicpgn)).resident = true ∧
      after.bytes = Function.update k.bytes (caller, pageOf vicpgn) fun offset =>
        some (k.activeMswp.storage (vicSwpfpn.toNat * pagingPagesz + offset)) := by
  obtain ⟨pid, known, missing⟩ := misses.callerPid
  unfold evictVictim at ran
  cases victim : findVictimPage (k.mms caller) with
  | none =>
    rw [victim] at ran
    cases ran
  | some found =>
    obtain ⟨vicpgn, mm⟩ := found
    obtain ⟨kept, rfl, sublist, resident, _⟩ := findVictimPage_some victim good
    rw [victim] at ran
    dsimp only at ran
    cases free : k.activeMswp.freeFpList with
    | nil =>
      rw [Krnl.setMm_activeMswp, Memphy.getFreefp_nil free] at ran
      cases ran
    | cons vicSwpfpn rest =>
      rw [Krnl.setMm_activeMswp, Memphy.getFreefp_cons free] at ran
      simp only [known, Outcome.bind_ok, syscall_missing missing] at ran
      cases ran
      have popped := good.dropFifo sublist
      have entries : (k.setMm caller { k.mms caller with fifoPgn := kept }).pte = k.pte := pte_setMm_of_pgd k caller rfl
      have whole : (k.setMm caller { k.mms caller with fifoPgn := kept }).bytes = k.bytes := bytes_congr entries rfl rfl
      refine ⟨vicpgn, _, vicSwpfpn, rest, rfl, rfl, resident, ?_⟩
      rw [← whole]
      exact uncopied_bytes popped k.activeMswpId (Memphy.getFreefp_cons free)

/-- A page of a caller that is not found comes in too. The page that it replaces is not copied
to the swap frame that its entry names from then on. -/
theorem pgGetpage_missed (good : Good k) (random : RandomAccess k) (misses : env.Misses caller) {pgn f : CInt} {after : Krnl Proc}
    (fetched : pgGetpage env k caller pgn = .ok (0, some f, after)) :
    (after.bytes = k.bytes ∧ (pagingPageSwapped (k.pte (caller, pageOf (intToAddr pgn))) = true → k.mram.freeFpList ≠ [])) ∨
    ∃ vicpgn mm vicSwpfpn rest, pagingPageSwapped (k.pte (caller, pageOf (intToAddr pgn))) = true ∧ k.mram.freeFpList = [] ∧
      findVictimPage (k.mms caller) = some (vicpgn, mm) ∧ k.activeMswp.freeFpList = vicSwpfpn :: rest ∧
      (k.pte (caller, pageOf vicpgn)).resident = true ∧
      after.bytes = Function.update k.bytes (caller, pageOf vicpgn) fun offset =>
        some (k.activeMswp.storage (vicSwpfpn.toNat * pagingPagesz + offset)) := by
  have entry := getEntry_eq_pte k caller (intToAddr pgn)
  by_cases swapped : pagingPageSwapped (k.pte (caller, pageOf (intToAddr pgn))) = true
  · rw [pgGetpage, entry, if_pos swapped] at fetched
    cases free : k.mram.freeFpList with
    | cons newfpn rest =>
      have taken := Memphy.getFreefp_cons free
      obtain ⟨last, ran, _, _, bytes, _⟩ := pageIn_spec env (good.getFreefp taken) (show _ = k.pte (caller, pageOf (intToAddr pgn)) from rfl)
        swapped
      rw [taken] at fetched
      simp only [ran, Outcome.bind_ok] at fetched
      cases fetched
      exact .inl ⟨bytes random, fun _ => List.cons_ne_nil _ _⟩
    | nil =>
      rw [Memphy.getFreefp_nil free] at fetched
      obtain ⟨⟨evicted, middle⟩, ran, fetched⟩ := Outcome.bind_eq_ok fetched
      rcases evictVictim_spec env caller good with ⟨failed, _⟩ | ⟨evicted', middle', ran', owned, devices, _, untouched⟩
      · cases failed.symm.trans ran
      cases ran.symm.trans ran'
      cases evicted with
      | none => cases fetched
      | some newfpn =>
        have same := untouched (caller, pageOf (intToAddr pgn)) (Pte.not_resident_of_swapped swapped)
        obtain ⟨last, came, _, _, bytes, _⟩ := pageIn_spec env owned same swapped
        simp only [came, Outcome.bind_ok] at fetched
        cases fetched
        obtain ⟨vicpgn, mm, vicSwpfpn, rest, victim, list, resident, evictedBytes⟩ := evictVictim_missed good misses ran
        exact .inr ⟨vicpgn, mm, vicSwpfpn, rest, swapped, rfl, victim, list, resident,
          (bytes (devices.random random)).trans evictedBytes⟩
  · refine .inl ⟨?_, fun away => absurd away swapped⟩
    rw [pgGetpage, entry, if_neg swapped] at fetched
    split at fetched <;> cases fetched
    rfl

theorem pgGetval_reads (good : Good k) (random : RandomAccess k) (known : env.callerPid caller = .ok pid)
    (found : env.findCaller pid = .ok (some other)) (addr : CInt) :
    (¬Available k caller (pagingPgn addr) ∧ ∃ after, pgGetval env k caller addr = .ok (-1, none, after) ∧ Good after ∧
      SameDevices k after ∧ after.bytes = k.bytes) ∨
    Available k caller (pagingPgn addr) ∧ ∃ byte after, k.bytes (placeOf caller addr) (offsetOf addr) = some byte ∧
      pgGetval env k caller addr = (env.callerKrnl other).map (fun _ => (0, some byte, after)) ∧ Good after ∧
      SameDevices k after ∧ after.bytes = k.bytes := by
  rcases pgGetpage_found good random ⟨pid, other, known, found⟩ (pagingPgn addr) with
    ⟨absent, middle, ran, kept, devices, same⟩ | ⟨available, middle, resident, ran, kept, devices, same⟩
  · refine .inl ⟨absent, middle, ?_, kept, devices, same⟩
    rw [pgGetval, ran]
    rfl
  · obtain ⟨number, inside⟩ := phyAddr_inside kept resident
    obtain ⟨result, byte, read, content⟩ := Memphy.read_inside middle.mram inside env.uninit
    refine .inr ⟨available, byte, middle, ?_, ?_, kept, devices, same⟩
    · rw [← same, Krnl.bytes, Pte.byte_of_resident resident, content (devices.random random).1, number]
    · rw [pgGetval_fetched known found ran, read]
      cases env.callerKrnl other <;> rfl

theorem pgSetval_writes (good : Good k) (random : RandomAccess k) (known : env.callerPid caller = .ok pid)
    (found : env.findCaller pid = .ok (some other)) (addr : CInt) (value : Byte) :
    (¬Available k caller (pagingPgn addr) ∧ ∃ after, pgSetval env k caller addr value = .ok (-1, after) ∧ Good after ∧
      SameDevices k after ∧ after.bytes = k.bytes) ∨
    Available k caller (pagingPgn addr) ∧ ∃ after, (k.bytes (placeOf caller addr) (offsetOf addr)).isSome ∧
      pgSetval env k caller addr value = (env.callerKrnl other).map (fun _ => (0, after)) ∧ Good after ∧
      SameDevices k after ∧ after.bytes = FlatMemory.write k.bytes (placeOf caller addr) (offsetOf addr) value := by
  rcases pgGetpage_found good random ⟨pid, other, known, found⟩ (pagingPgn addr) with
    ⟨absent, middle, ran, kept, devices, same⟩ | ⟨available, middle, resident, ran, kept, devices, same⟩
  · refine .inl ⟨absent, middle, ?_, kept, devices, same⟩
    rw [pgSetval, ran]
    rfl
  · obtain ⟨number, inside⟩ := phyAddr_inside kept resident
    obtain ⟨result, storage, written, content⟩ := Memphy.write_inside middle.mram inside value
    have stored := content (devices.random random).1
    rw [number] at stored
    refine .inr ⟨available, { middle with mram := { middle.mram with storage } }, ?_, ?_, ?_, ?_, ?_⟩
    · rw [← same, Krnl.bytes, Pte.byte_of_resident resident]
      rfl
    · rw [pgSetval_fetched known found ran, written]
      cases env.callerKrnl other <;> rfl
    · exact kept.congr rfl rfl rfl rfl rfl fun _ => rfl
    · exact devices.trans ⟨rfl, rfl, rfl, rfl⟩
    · rw [bytes_store kept resident value stored, same]

/-- Both accesses return. A byte read is the caller's logical byte and changes none, a byte
written changes exactly that one, and a failed access changes none. -/
def AccessesFlat (env : Env Proc) (k : Krnl Proc) (caller : Proc) (addr : CInt) (value : Byte) : Prop :=
  (∃ code data after, pgGetval env k caller addr = .ok (code, data, after) ∧ Good after ∧ (code = 0 ∨ code = -1) ∧
    after.bytes = k.bytes ∧
    (code = 0 → data = k.bytes (placeOf caller addr) (offsetOf addr) ∧ data.isSome)) ∧
  ∃ code after, pgSetval env k caller addr value = .ok (code, after) ∧ Good after ∧ (code = 0 ∨ code = -1) ∧
    (code = 0 → (k.bytes (placeOf caller addr) (offsetOf addr)).isSome ∧
      after.bytes = FlatMemory.write k.bytes (placeOf caller addr) (offsetOf addr) value) ∧
    (code = -1 → after.bytes = k.bytes)

/-- For every process and address, in every good state with random-access devices and a
caller that the kernel finds: the accesses are those of flat memory, whether the page is
resident, on the swap device with a free frame left in RAM, or comes in by an eviction. The
exception is a page that is there while `regs[6]` of the caller is not the pointer to the
kernel that `sys_mem.c` takes it for. -/
theorem paging_refines_flat_memory_iff (good : Good k) (random : RandomAccess k) (finds : env.Finds caller) (addr : CInt)
    (value : Byte) :
    AccessesFlat env k caller addr value ↔ ¬Available k caller (pagingPgn addr) ∨ env.regs6 caller = some env.os := by
  obtain ⟨pid, known, found⟩ := finds.callerPid
  rcases pgGetval_reads good random known found addr with
    ⟨absent, after, ran, kept, _, same⟩ | ⟨available, byte, after, logical, ran, kept, _, same⟩
  · refine iff_of_true ⟨⟨-1, none, after, ran, kept, .inr rfl, same, nofun⟩, ?_⟩ (.inl absent)
    rcases pgSetval_writes good random known found addr value with ⟨_, after, ran, kept, _, same⟩ | ⟨available, _⟩
    · exact ⟨-1, after, ran, kept, .inr rfl, nofun, fun _ => same⟩
    · exact absurd available absent
  · by_cases reached : env.regs6 caller = some env.os
    · refine iff_of_true ⟨?_, ?_⟩ (.inr reached)
      · rw [Env.callerKrnl, if_pos reached] at ran
        exact ⟨0, some byte, after, ran, kept, .inl rfl, same, fun _ => ⟨logical.symm, rfl⟩⟩
      · rcases pgSetval_writes good random known found addr value with ⟨absent, _⟩ | ⟨_, after, mapped, ran, kept, _, written⟩
        · exact absurd available absent
        · rw [Env.callerKrnl, if_pos reached] at ran
          exact ⟨0, after, ran, kept, .inl rfl, fun _ => ⟨mapped, written⟩, nofun⟩
    · refine iff_of_false (fun flat => ?_) (not_or.mpr ⟨not_not_intro available, reached⟩)
      obtain ⟨_, _, _, returned, _⟩ := flat.1
      rw [Env.callerKrnl, if_neg reached] at ran
      cases ran.symm.trans returned

end Access

section Crowded

private def pageOneMapped (ramFree swapFree : List Addr) : Krnl Unit :=
  (oneFrame ramFree swapFree).setMm () (mapPage (initMm []) 1 0)

private def pageOneUnlisted (ramFree swapFree : List Addr) : Krnl Unit :=
  (pageOneMapped ramFree swapFree).setMm () { mapPage (initMm []) 1 0 with fifoPgn := [] }

private def pageOneSwapped (ramFree swapFree : List Addr) : Krnl Unit :=
  (pageOneUnlisted ramFree swapFree).setMm () (((pageOneUnlisted ramFree swapFree).mms ()).setSwap 1 0 0)

/-- Page 0 fills the only RAM frame while page 1 waits on the swap device: an access to
page 1 has to evict page 0. -/
def crowded : Krnl Unit :=
  (pageOneSwapped [] [1]).setMm () (mapPage ((pageOneSwapped [] [1]).mms ()) 0 0)

def crowdedEnv : Env Unit where
  pid _ := some 1
  regs6 _ := some 0x4040
  readyQueue := some []
  runningList := some [()]
  os := 0x4040
  uninit := 0

/-- The registers as `malloc` most often leaves them. -/
def clearedEnv : Env Unit := { crowdedEnv with regs6 := fun _ => some 0 }

theorem crowded_good : Good crowded := by
  have mapped : Owned [] (pageOneMapped [] [0, 1]) := (oneFrame_good.getFreefp rfl).mapPage ⟨by decide, by decide⟩
  have unlisted : Owned [] (pageOneUnlisted [] [0, 1]) := mapped.dropFifo (List.nil_sublist _)
  have resident : ((pageOneUnlisted [] [0, 1]).pte ((), pageOf 1)).resident = true := by decide
  have swapped := unlisted.evict 0 resident List.not_mem_nil rfl
  have frame : ((pagingFpn ((pageOneUnlisted [] [0, 1]).pte ((), pageOf 1))).setWidth 64 : Addr) = 0 := by decide
  rw [frame] at swapped
  have unmapped : ((pageOneSwapped [] [1]).pte ((), pageOf 0)).unmapped := ⟨by decide, by decide⟩
  exact swapped.mapPage unmapped

/-- The page fault evicts page 0 and brings page 1 in. -/
theorem paging_refines_flat_memory_iff_crowded : AccessesFlat crowdedEnv crowded () 259 5 :=
  (paging_refines_flat_memory_iff crowded_good ⟨rfl, rfl⟩ ⟨1, rfl, rfl⟩ 259 5).mpr (.inr rfl)

/-- Reading and writing a byte of the resident page 0 with cleared registers. -/
theorem resident_page_crashes : Good crowded ∧ RandomAccess crowded ∧ clearedEnv.Finds () ∧
    (crowded.pte ((), pageOf 0)).resident = true ∧ pgGetval clearedEnv crowded () 3 = .error .wildPointer ∧
    pgSetval clearedEnv crowded () 3 5 = .error .wildPointer ∧ ¬AccessesFlat clearedEnv crowded () 3 5 := by
  have crashes : pgGetval clearedEnv crowded () 3 = .error .wildPointer := rfl
  refine ⟨crowded_good, ⟨rfl, rfl⟩, ⟨1, rfl, rfl⟩, rfl, crashes, rfl, fun flat => ?_⟩
  obtain ⟨_, _, _, returned, _⟩ := flat.1
  cases crashes.symm.trans returned

end Crowded

end LamiaAtrium
